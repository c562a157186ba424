import FastCgi.App.Accept

/-!
Reading while the wire grows.

A reader that has met no error has looked at nothing behind the bytes that
are there: on a longer wire it does the same, and the additional bytes are
left behind the rest of its input (`advance_grown`). So a stream can be read
as it arrives. Whatever the wire holds, what a reader returns on a front
part of it is a front part of what it returns on the whole
(`reader_causal`), and a request that has arrived is accepted as it is,
whatever comes behind it (`accept_causal`).
-/

namespace FastCgi

open ByteMem

/-- The view with `more` at the end of its input. -/
def View.grown (v : View) (more : List UInt8) : View := v.facing (v.input ++ more)

section More

variable {v w e : View} {bs bs' : List UInt8} (more : List UInt8)

@[simp] theorem View.grown_input : (v.grown more).input = v.input ++ more := rfl
@[simp] theorem View.grown_errno : (v.grown more).errno = v.errno := rfl
@[simp] theorem View.grown_req : (v.grown more).req = v.req := rfl

theorem View.Ready.grown (h : v.Ready) : (v.grown more).Ready :=
  ⟨h.1, h.2.1, by simp [h.2.2]⟩

/-! ### The stages -/

/-- Bytes are dropped at the front. -/
theorem View.grown_drop {k : ℕ} (hk : k ≤ v.input.length) :
    (v.input ++ more).drop k = v.input.drop k ++ more := List.drop_append_of_le_length hk

theorem View.consume_grown {k : ℕ} (hk : k ≤ v.input.length) :
    (v.grown more).consume k = (v.consume k).grown more := by
  simp [View.consume, View.grown, View.facing, View.grown_drop more hk]

theorem onPadding_grown {h : View → Stop × View} (hc : v.contentLen = 0)
    (hres : (onPadding h v).2.errno = 0)
    (hh : ∀ w, v.Within w → (h w).2.errno = 0 → h (w.grown more) = ((h w).1, (h w).2.grown more)) :
    onPadding h (v.grown more) = ((onPadding h v).1, (onPadding h v).2.grown more) := by
  by_cases hlt : v.input.length < v.paddingLen
  · rw [onPadding, if_pos hlt] at hres
    exact absurd hres (readFails_errno_ne_zero v)
  · have hge : ¬(v.grown more).input.length < (v.grown more).paddingLen := by
      show ¬(v.input ++ more).length < v.paddingLen
      rw [List.length_append]
      omega
    rw [onPadding, if_neg hlt] at hres
    have hnext := hh { v with input := v.input.drop v.paddingLen, paddingLen := 0 }
      ⟨by simp, hc, rfl, rfl, rfl, rfl, rfl, rfl⟩ hres
    rw [onPadding, if_neg hge, onPadding, if_neg hlt, ← hnext]
    simp [View.grown, View.facing, View.grown_drop more (Nat.not_lt.mp hlt)]

/-- Where no read fails, what is behind the input makes no difference to the stages. -/
theorem onInput_grown {h : View → Stop × View} (hres : (onInput h v).2.errno = 0)
    (hh : ∀ w, v.Within w → (h w).2.errno = 0 → h (w.grown more) = ((h w).1, (h w).2.grown more)) :
    onInput h (v.grown more) = ((onInput h v).1, (onInput h v).2.grown more) := by
  rw [onInput] at hres
  split at hres
  · exact absurd hres (readFails_errno_ne_zero v)
  · next hi =>
      have hi' : (v.grown more).input ≠ [] := by simp [hi]
      rw [onInput, if_neg hi', onInput, if_neg hi]
      rw [onContent] at hres
      split at hres
      · next hc =>
          have hc' : (v.grown more).contentLen = 0 := hc
          rw [onContent, if_pos hc', onContent, if_pos hc]
          exact onPadding_grown more hc hres hh
      · next hc =>
          have hc' : ¬(v.grown more).contentLen = 0 := hc
          rw [onContent, if_neg hc', onContent, if_neg hc]
          split at hres
          · next hs =>
              have hs' : (v.grown more).skip = false := hs
              rw [if_pos hs', if_pos hs]
          · next hs =>
              have hs' : ¬(v.grown more).skip = false := hs
              rw [if_neg hs', if_neg hs]
              split at hres
              · exact absurd hres (readFails_errno_ne_zero v)
              · next hlen =>
                  have hlen' : ¬(v.grown more).input.length < (v.grown more).contentLen := by
                    show ¬(v.input ++ more).length < v.contentLen
                    rw [List.length_append]
                    omega
                  rw [if_neg hlen', if_neg hlen]
                  have hpad := onPadding_grown (v := { v with
                    input := v.input.drop v.contentLen, contentLen := 0, skip := false }) more rfl
                    hres fun w hw => hh w ⟨hw.1.trans (by simp), hw.2⟩
                  rw [← hpad]
                  simp [View.grown, View.facing, View.grown_drop more (Nat.not_lt.mp hlen)]

theorem advanceEor_grown (h : (advanceEor v).2.errno = 0) :
    advanceEor (v.grown more) = ((advanceEor v).1, (advanceEor v).2.grown more) :=
  onInput_grown more h fun _ _ _ => rfl

/-- The content of a record that is there as a whole. -/
theorem eorContent_grown (h : (eorContent v).2.errno = 0) :
    eorContent (v.grown more) = ((eorContent v).1, (eorContent v).2.grown more) := by
  by_cases hr : v.Ready
  · rw [eorContent_ready hr] at h ⊢
    rw [eorContent_ready (hr.grown more)]
    have hall : v.contentLen ≤ v.input.length := by
      by_contra hlt
      have hempty : (v.consume v.present).input = [] := by
        rw [View.consume_input, View.present, List.drop_eq_nil_iff]
        omega
      have hfail : advanceEor (v.consume v.present) = (.closed, (v.consume v.present).readFails) := by
        rw [advanceEor, onInput, if_pos hempty]
      rw [hfail] at h
      exact readFails_errno_ne_zero _ h
    have hpresent : v.present = v.contentLen := Nat.min_eq_left hall
    have hpresent' : (v.grown more).present = v.contentLen := by
      show min v.contentLen (v.input ++ more).length = v.contentLen
      rw [List.length_append]
      omega
    rw [hpresent] at h ⊢
    rw [hpresent', View.consume_grown more hall, advanceEor_grown more h, View.grown_input,
      List.take_append_of_le_length hall]
  · have hr' : ¬(v.grown more).Ready := by
      rw [eorContent_of_not_ready hr] at h
      rintro ⟨hc, hs, -⟩
      refine hr ⟨hc, hs, fun hempty => ?_⟩
      rw [advanceEor, onInput, if_pos hempty] at h
      exact readFails_errno_ne_zero v h
    rw [eorContent_of_not_ready hr] at h ⊢
    rw [eorContent_of_not_ready hr', advanceEor_grown more h]

theorem readQuery_grown (h : (readQuery v).2.errno = 0) :
    readQuery (v.grown more) = ((readQuery v).1, (readQuery v).2.grown more) := by
  rw [readQuery] at h
  split at h
  · next ps hparse =>
      have hcontent := eorContent_grown more h
      have hparse' : parsePairs (eorContent (v.grown more)).1 = (ps, none) := by
        rw [hcontent]
        exact hparse
      simp only [readQuery, hparse, hparse']
      rw [hcontent]
  · exact absurd h (setError_errno_pos _ (by decide))
  · exact absurd h (setError_errno_pos _ (by decide))

/-! ### Headers -/

theorem sendReplyView_grown (reply : List UInt8) (ok : Status) :
    sendReplyView reply ok (v.grown more) =
      ((sendReplyView reply ok v).1, (sendReplyView reply ok v).2.grown more) := by
  have hos : (v.grown more).os = v.os := rfl
  simp only [sendReplyView, hos]
  split <;> rfl

theorem answerQuery_grown {q : List NameValue × View} :
    answerQuery (q.1, q.2.grown more) = ((answerQuery q).1, (answerQuery q).2.grown more) := by
  have hos : (q.2.grown more).os = q.2.os := rfl
  simp only [answerQuery, View.grown_errno, hos]
  split
  · rfl
  · exact sendReplyView_grown more _ _

theorem processManagementView_grown {type : ℕ}
    (h : ∀ e, (processManagementView type v).1 ≠ .error e) :
    processManagementView type (v.grown more) =
      ((processManagementView type v).1, (processManagementView type v).2.grown more) := by
  rw [processManagementView] at h
  rw [processManagementView, processManagementView]
  split at h
  · next htype =>
      rw [if_pos htype, if_pos htype]
      have herrno : (readQuery v).2.errno = 0 := by
        by_contra hne
        rw [answerQuery, if_pos hne] at h
        exact h _ rfl
      rw [readQuery_grown more herrno]
      exact answerQuery_grown more
  · next htype =>
      rw [if_neg htype, if_neg htype]
      exact sendReplyView_grown more _ _

theorem readBeginView_grown (hc : v.contentLen = 8) (h : ∀ e, (readBeginView v).1 ≠ .error e) :
    readBeginView (v.grown more) = ((readBeginView v).1, (readBeginView v).2.grown more) := by
  rw [readBeginView] at h
  split at h
  · exact absurd rfl (h _)
  · next hlen =>
      have hlen := not_not.mp hlen
      obtain ⟨hle, hbody, hadv⟩ := eorContent_body hc hlen
      have hready : (v.grown more).Ready := by
        have hready : v.Ready := by
          by_contra hr
          rw [eorContent_of_not_ready hr] at hlen
          cases hlen
        exact hready.grown more
      have hbody' : (eorContent (v.grown more)).1 = v.input.take 8 := by
        have hpresent : (v.grown more).present = 8 := by
          show min v.contentLen (v.input ++ more).length = 8
          rw [List.length_append]
          omega
        rw [eorContent_ready hready, hpresent, View.grown_input, List.take_append_of_le_length hle]
      have hlen' : ¬(eorContent (v.grown more)).1.length ≠ 8 := by
        rw [hbody', ← hbody]
        exact not_not_intro hlen
      rw [readBeginView, if_neg hlen', readBeginView, if_neg (not_not_intro hlen), hbody', hbody, hadv,
        advanceEor_ready hready, View.consume_grown more hle]
      rfl

theorem processBeginView_grown {requestId : ℕ}
    (h : ∀ e, (processBeginView requestId v).1 ≠ .error e) :
    processBeginView requestId (v.grown more) =
      ((processBeginView requestId v).1, (processBeginView requestId v).2.grown more) := by
  have hc : (v.grown more).contentLen = v.contentLen := rfl
  rw [processBeginView] at h
  rw [processBeginView, processBeginView, hc, View.grown_req]
  split at h
  · exact absurd rfl (h _)
  · next hgood =>
      rw [if_neg hgood, if_neg hgood]
      have hlen : v.contentLen = 8 := by
        by_contra hne
        exact hgood (.inr hne)
      split at h
      · next hbegun =>
          rw [if_pos hbegun, if_pos hbegun]
          exact sendReplyView_grown more _ _
      · next hawait =>
          rw [if_neg hawait, if_neg hawait]
          exact readBeginView_grown (v := v.setRequestId requestId) more hlen h

/-- A header that leads to no error is interpreted as it is on a longer wire. -/
theorem processHeaderView_grown {header : Header}
    (h : ∀ e, (processHeaderView header v).1 ≠ .error e) :
    processHeaderView header (v.grown more) =
      ((processHeaderView header v).1, (processHeaderView header v).2.grown more) := by
  rw [processHeaderView] at h
  rw [processHeaderView, processHeaderView]
  split at h
  · exact absurd rfl (h _)
  · next hversion =>
      rw [if_neg hversion, if_neg hversion]
      have hstart : (v.grown more).startRecord header = (v.startRecord header).grown more := rfl
      have hreq : ((v.startRecord header).grown more).req = (v.startRecord header).req := rfl
      have htypeEq : ((v.startRecord header).grown more).type = (v.startRecord header).type := rfl
      rw [hstart]
      rw [dispatchView] at h
      rw [dispatchView, dispatchView, hreq, htypeEq]
      split at h
      · next htype =>
          rw [if_pos htype, if_pos htype]
          exact processBeginView_grown more h
      · next htype =>
          rw [if_neg htype, if_neg htype]
          split at h
          · next hid =>
              rw [if_pos hid, if_pos hid]
              exact processManagementView_grown more h
          · next hid =>
              rw [if_neg hid, if_neg hid]
              split
              · rfl
              · split <;> rfl

theorem sendReplyView_error {reply : List UInt8} {ok : Status} {e : ℤ} (hok : ok ≠ .error e)
    (h : (sendReplyView reply ok v).1 = .error e) : e = -1 := by
  rw [sendReplyView] at h
  split at h
  · exact (Status.error.inj h).symm
  · exact absurd h hok

theorem HeaderStep.error_ne_zero {header : Header} {x : Status × View} (hstep : HeaderStep header v x)
    {e : ℤ} (h : x.1 = .error e) : e ≠ 0 := by
  have hfixed : ∀ e' : ℤ, e' ≠ 0 → Status.error e' = .error e → e ≠ 0 := by
    rintro e' he' heq
    rwa [← Status.error.inj heq]
  have hreply : e = -1 → e ≠ 0 := by
    rintro rfl
    decide
  cases hstep with
  | otherVersion => exact hfixed _ (by decide) h
  | malformed => exact hfixed _ (by decide) h
  | multiplexed => exact hreply (sendReplyView_error (by simp) h)
  | cutBody => exact hfixed _ (by decide) h
  | begins => cases h
  | badQuery => exact hfixed _ (by decide) h
  | query => exact hreply (sendReplyView_error (by simp) h)
  | unknown => exact hreply (sendReplyView_error (by simp) h)
  | foreign => cases h
  | otherType => exact hfixed _ (by decide) h
  | own => cases h

/-! ### The loop -/

/-- **What is read without an error** depends on nothing behind it. -/
theorem advance_grown (h : (advance v).2.errno = 0) :
    advance (v.grown more) = ((advance v).1, (advance v).2.grown more) := by
  induction hn : v.input.length using Nat.strong_induction_on generalizing v with
  | _ n ih =>
      rw [advance_eq] at h
      rw [advance_eq, advance_eq]
      refine onInput_grown more h fun w hw hres => ?_
      have heor : (w.grown more).eorStop = w.eorStop := rfl
      rw [onHeader] at hres
      rw [onHeader, onHeader, heor]
      split at hres
      · next he =>
          rw [if_pos he, if_pos he]
          rfl
      · next he =>
          rw [if_neg he, if_neg he]
          split at hres
          · exact absurd hres (readFails_errno_ne_zero w)
          · next hlen =>
              have hle := Nat.not_lt.mp hlen
              have hlen' : ¬(w.grown more).input.length < 8 := by
                rw [View.grown_input, List.length_append]
                omega
              have htake : (w.grown more).input.take 8 = w.input.take 8 :=
                List.take_append_of_le_length hle
              have henter : (w.grown more).enterRecord = w.enterRecord.grown more := by
                simp [View.enterRecord, View.grown, View.facing, View.grown_drop more hle]
              rw [if_neg hlen', if_neg hlen, htake, henter]
              have hless := processHeaderView_enterRecord_le (Header.ofBytes (w.input.take 8)) hlen
              have hne : ∀ e, (processHeaderView (Header.ofBytes (w.input.take 8)) w.enterRecord).1 ≠
                  .error e := by
                intro e he
                have hnz := (headerStep (Header.ofBytes (w.input.take 8)) w.enterRecord).error_ne_zero he
                rw [he] at hres
                exact setError_errno_pos _ hnz hres
              rw [processHeaderView_grown more hne]
              generalize processHeaderView (Header.ofBytes (w.input.take 8)) w.enterRecord = r at *
              obtain ⟨status, u⟩ := r
              have hlt : u.input.length < n := by
                have := hw.1
                simp only at hless
                omega
              cases status with
              | streamRecord =>
                  simp only [onStatusView] at hres ⊢
                  have hc : (u.grown more).leaveRecord.contentLen = u.leaveRecord.contentLen := rfl
                  rw [hc]
                  split at hres
                  · next hzero =>
                      rw [if_pos hzero, if_pos hzero]
                      rfl
                  · next hzero =>
                      rw [if_neg hzero, if_neg hzero]
                      exact ih _ hlt hres rfl
              | skip => exact ih _ hlt hres rfl
              | beginRecord => rfl
              | mgmtRecord => exact ih _ hlt hres rfl
              | error e => exact absurd rfl (hne e)

/-! ### Streams -/

/-- The bytes that are read on a front part of the wire are read on the whole. -/
theorem Reads.grown (h : Reads v bs w) (herrno : v.errno = 0) :
    Reads (v.grown more) bs (w.grown more) := by
  induction h with
  | nil => exact .nil
  | @cons v v' w b bs input h hb ht ih =>
      have hkeep : v'.errno = 0 := (advance_errno h).trans herrno
      have hadv := advance_grown (v := v) more (by rw [h]; exact hkeep)
      rw [h] at hadv
      have hb' : (v'.grown more).input = b :: (input ++ more) := by
        rw [View.grown_input, hb]
        rfl
      have hrest := ih hkeep
      rw [← View.consume_grown more (by rw [hb]; simp)] at hrest
      exact .cons hadv hb' hrest

/-- A stream that ends without an error ends there on the whole wire too. -/
theorem Delivers.grown (h : Delivers v bs e) (herrno : e.errno = 0) (hv : v.errno = 0) :
    Delivers (v.grown more) bs (e.grown more) := by
  induction h with
  | @stop v e h =>
      have hadv := advance_grown (v := v) more (by rw [h]; exact herrno)
      rw [h] at hadv
      exact .stop hadv
  | @byte v v' e b bs input h hb ht ih =>
      have hkeep : v'.errno = 0 := (advance_errno h).trans hv
      have hadv := advance_grown (v := v) more (by rw [h]; exact hkeep)
      rw [h] at hadv
      have hb' : (v'.grown more).input = b :: (input ++ more) := by
        rw [View.grown_input, hb]
        rfl
      have hrest := ih herrno hkeep
      rw [← View.consume_grown more (by rw [hb]; simp)] at hrest
      exact .byte hadv hb' hrest

theorem Reads.prefix_delivers (h : Reads v bs w) (hd : Delivers v bs' e) : bs <+: bs' := by
  induction h generalizing bs' with
  | nil => exact List.nil_prefix
  | cons h hb _ ih =>
      cases hd with
      | stop h' =>
          rw [h] at h'
          cases h'
      | byte h' hb' ht =>
          rw [h] at h'
          cases h'
          rw [hb] at hb'
          cases hb'
          exact List.cons_prefix_cons.mpr ⟨rfl, ih ht⟩

/-- **What a front part of the wire delivers** is a front part of what the wire delivers. -/
theorem Delivers.prefix_grown (h : Delivers v bs e) (herrno : v.errno = 0) {e' : View}
    (h' : Delivers (v.grown more) bs' e') : bs <+: bs' := by
  rw [← List.append_nil bs] at h
  obtain ⟨w, hreads, -⟩ := h.take
  exact (hreads.grown more herrno).prefix_delivers h'

end More

/-! ### Calls -/

/-- The pieces of a front part are front parts of the pieces. -/
theorem chop_prefix {bs bs' : List UInt8} (h : bs <+: bs') (ns : List ℕ) :
    List.Forall₂ (· <+: ·) (chop ns bs) (chop ns bs') := by
  induction ns generalizing bs bs' with
  | nil => exact .nil
  | cons n ns ih =>
      obtain ⟨more, rfl⟩ := h
      refine .cons ?_ (ih ⟨more.drop (n - bs.length), ?_⟩)
      · rw [List.take_append]
        exact List.prefix_append _ _
      · rw [List.drop_append]

/-- Where there is enough, nothing behind it matters. -/
theorem chop_append {bs : List UInt8} (ns : List ℕ) (h : ns.sum ≤ bs.length) (more : List UInt8) :
    chop ns (bs ++ more) = chop ns bs := by
  induction ns generalizing bs with
  | nil => rfl
  | cons n ns ih =>
      rw [List.sum_cons] at h
      rw [chop, chop, List.take_append_of_le_length (by omega),
        List.drop_append_of_le_length (by omega), ih (by rw [List.length_drop]; omega)]

/-- Two readers of one stream, of which one has more on its wire: what a sequence of calls returns
to the first are front parts of what it returns to the second, and the same where the first
reader has met no error. -/
theorem performAll_grown {c c' : Chan} (h : c.Open) (h' : c'.Open) (heor : c.stream.eorStop = false)
    (hbegun : c.req.isBeginProcessed = true) (herrno : c.stream.fcgiErrno = 0) {more : List UInt8}
    (hview : c'.view = c.view.grown more) (calls : List ReadCall) :
    ∃ xs ys d d', performAll calls c = some (xs, d) ∧ performAll calls c' = some (ys, d') ∧
      List.Forall₂ (· <+: ·) xs ys ∧
      (d.stream.fcgiErrno = 0 → xs = ys ∧ d'.stream.fcgiErrno = 0) := by
  have heor' : c'.stream.eorStop = false := by
    have hflag : c'.view.eorStop = c.view.eorStop := by rw [hview]; rfl
    exact hflag.trans heor
  have herrno' : c'.stream.fcgiErrno = 0 := by
    have hcode : c'.view.errno = c.view.errno := by rw [hview]; rfl
    exact hcode.trans herrno
  obtain ⟨bs, e, hd⟩ := delivers_total (v := c.view) hbegun
  obtain ⟨bs', e', hd'⟩ := delivers_total (v := c'.view) (by rw [hview]; exact hbegun)
  have hpre : bs <+: bs' := hd.prefix_grown more herrno (by rwa [← hview])
  obtain ⟨d, hall, hlast⟩ := performAll_spec h heor hd calls
  obtain ⟨d', hall', hlast'⟩ := performAll_spec h' heor' hd' calls
  refine ⟨_, _, d, d', hall, hall', chop_prefix hpre _, fun hclean => ?_⟩
  rcases hlast with ⟨hlt, -, hend⟩ | ⟨hle, -, -⟩
  · -- the first reader has come to the end of its stream, and so has the second
    have hclean : e.errno = 0 := by
      rw [← hend]
      exact hclean
    have hd₂ := hd.grown more hclean herrno
    rw [← hview] at hd₂
    obtain ⟨rfl, rfl⟩ := hd'.unique hd₂
    obtain ⟨-, -, hend'⟩ := hlast'.resolve_right (by omega)
    refine ⟨rfl, ?_⟩
    have hcode : d'.view.errno = 0 := by
      rw [hend']
      exact hclean
    exact hcode
  · obtain ⟨rest, rfl⟩ := hpre
    refine ⟨(chop_append _ hle rest).symm, ?_⟩
    rcases hlast' with ⟨hlt, -, -⟩ | ⟨-, -, hsame⟩
    · rw [List.length_append] at hlt
      omega
    · rw [hsame, herrno']

/-! ### Accepting -/

/-- A request that has arrived is accepted on every longer wire. -/
theorem Accepts.grown {v e : View} {role : List UInt8} {ps : List NameValue}
    (h : Accepts v role ps e) (herrno : v.errno = 0) (hclean : e.errno = 0) (more : List UInt8) :
    Accepts (v.grown more) role ps (e.grown more) := by
  obtain ⟨bs, hd, hparse⟩ := h.params
  have hbegun : (advance v).2.errno = 0 :=
    (advance_open_errno (by rw [h.begun]; simp)).trans herrno
  have hadv := advance_grown more hbegun
  refine ⟨by rw [hadv]; exact h.begun, by rw [hadv]; exact h.role_eq, bs, ?_, hparse⟩
  rw [hadv]
  exact hd.grown more hclean hbegun

theorem Accepts.determined {v e e' : View} {role role' : List UInt8} {ps ps' : List NameValue}
    (h : Accepts v role ps e) (h' : Accepts v role' ps' e') : role = role' ∧ ps = ps' ∧ e = e' := by
  obtain ⟨bs, hd, hparse⟩ := h.params
  obtain ⟨bs', hd', hparse'⟩ := h'.params
  obtain ⟨rfl, rfl⟩ := hd.unique hd'
  rw [hparse] at hparse'
  exact ⟨Option.some.inj (h.role_eq.symm.trans h'.role_eq), (Prod.mk.inj hparse').1, rfl⟩

/-- The request with another connection in place of its own. -/
def Request.onOs (r : Request) (os : Os) : Request := { r with os := os }

theorem openReader_grown {r : Request} {os : Os} {more : List UInt8}
    (hwire : os.incoming = r.os.incoming ++ more) (hside : os.writeSide = r.os.writeSide) :
    (openReader (r.onOs os)).view = (openReader r).view.grown more := by
  have hunread : ∀ r : Request, (openReader r).unread = r.os.incoming := fun r => rfl
  have hin : (r.onOs os).os.incoming = r.os.incoming ++ more := hwire
  have hos : (r.onOs os).os.writeSide = r.os.writeSide := hside
  simp only [Chan.view, View.grown, View.facing, hunread, hin]
  rw [show (openReader (r.onOs os)).os.writeSide = (openReader r).os.writeSide from hos]
  rfl

/-- The input stream of the request that is made of a reader. -/
theorem view_buildRequest (r : Request) (c : Chan) (params : Params) :
    ((buildRequest r c params).chan (setReaderType c.stream fcgiStdin)).view =
      { c.view.setReaderType fcgiStdin with req := { c.view.req with nWriters := 2 } } := by
  rw [← view_setReaderType]
  rfl

/-- The pass of the loop of `FCGX_Accept_r` on a longer wire. -/
theorem acceptConnection_grown {r r' : Request} {s : Stream}
    (h : acceptConnection r = some (true, r')) (hs : r'.inStream = some s) (herrno : s.fcgiErrno = 0)
    {os : Os} {more : List UInt8} (hwire : os.incoming = r.os.incoming ++ more)
    (hside : os.writeSide = r.os.writeSide) :
    ∃ r'' s'', acceptConnection (r.onOs os) = some (true, r'') ∧ r''.inStream = some s'' ∧
      r''.envp.map Params.entries = r'.envp.map Params.entries ∧
      (r''.chan s'').view = (r'.chan s).view.grown more := by
  obtain ⟨params, c, hread, rfl⟩ := acceptConnection_ok h
  obtain rfl := Option.some.inj hs
  obtain ⟨res, c₁, hread₁, -, ⟨params₁, role, ps, hres, hentries, ha, -⟩ | ⟨hnone, -⟩⟩ :=
    readRequest_spec (fresh_openReader r)
  · rw [hread] at hread₁
    obtain ⟨rfl, rfl⟩ := Prod.mk.inj (Option.some.inj hread₁)
    obtain rfl := Option.some.inj hres
    have hgrown := ha.grown rfl herrno more
    rw [← openReader_grown hwire hside] at hgrown
    obtain ⟨res, c₂, hread₂, -, ⟨params₂, role₂, ps₂, rfl, hentries₂, ha₂, -⟩ | ⟨-, hno⟩⟩ :=
      readRequest_spec (fresh_openReader (r.onOs os))
    · obtain ⟨rfl, rfl, hview⟩ := ha₂.determined hgrown
      refine ⟨buildRequest (r.onOs os) c₂ params₂, setReaderType c₂.stream fcgiStdin, ?_, rfl, ?_, ?_⟩
      · rw [acceptConnection, hread₂]
      · show some params₂.entries = some params.entries
        rw [hentries, hentries₂]
      · rw [view_buildRequest, view_buildRequest, hview]
        rfl
    · exact absurd hgrown (hno _ _ _)
  · rw [hread] at hread₁
    obtain ⟨rfl, -⟩ := Prod.mk.inj (Option.some.inj hread₁)
    cases hnone

end FastCgi
