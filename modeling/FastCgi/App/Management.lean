import FastCgi.App.Reassembly

/-!
Management records on the wire of a request.

The answer to a management record goes out on the descriptor that the
request's own output uses, and nothing else of the reader may notice the
record. Two readers whose descriptors have been written to differently,
but do not fail, go on alike (`advance_alike`, `Delivers.alike`); so the
only thing that decides whether an unknown record is noticed is what
becomes of its content (`unknown_answered_iff`).
-/

namespace FastCgi

/-! ### Readers with different descriptors -/

@[simp] theorem View.withOs_input (v : View) (os : Os) : (v.withOs os).input = v.input := rfl
@[simp] theorem View.withOs_os (v : View) (os : Os) : (v.withOs os).os = os := rfl

/-- What `h` does with another descriptor: the same, up to a descriptor that `R`
relates to the one it leaves. -/
def OsRel (R : Os → Os → Prop) (r r' : Stop × View) : Prop :=
  ∃ os, r' = (r.1, r.2.withOs os) ∧ R r.2.os os

theorem readFails_withOs {v : View} {os : Os} (h : os.readEnd = v.os.readEnd) :
    (v.withOs os).readFails = v.readFails.withOs os := by
  simp only [View.readFails, View.withOs, View.setError, h]

theorem onPadding_rel {R : Os → Os → Prop} {h h' : View → Stop × View} {v : View} {os : Os}
    (hend : os.readEnd = v.os.readEnd) (hR : R v.os os) (hc : v.contentLen = 0)
    (hh : ∀ w, v.Within w → OsRel R (h w) (h' (w.withOs os))) :
    OsRel R (onPadding h v) (onPadding h' (v.withOs os)) := by
  rw [onPadding, onPadding, View.withOs_input,
    show (v.withOs os).paddingLen = v.paddingLen from rfl]
  split
  · exact ⟨os, by rw [readFails_withOs hend], hR⟩
  · exact hh _ ⟨by simp, hc, rfl, rfl, rfl, rfl, rfl, rfl⟩

theorem onInput_rel {R : Os → Os → Prop} {h h' : View → Stop × View} {v : View} {os : Os}
    (hend : os.readEnd = v.os.readEnd) (hR : R v.os os)
    (hh : ∀ w, v.Within w → OsRel R (h w) (h' (w.withOs os))) :
    OsRel R (onInput h v) (onInput h' (v.withOs os)) := by
  rw [onInput, onInput, View.withOs_input]
  split
  · exact ⟨os, by rw [readFails_withOs hend], hR⟩
  · rw [onContent, onContent, show (v.withOs os).contentLen = v.contentLen from rfl,
      show (v.withOs os).skip = v.skip from rfl, View.withOs_input]
    split
    · next hc => exact onPadding_rel hend hR hc hh
    · split
      · exact ⟨os, rfl, hR⟩
      · split
        · exact ⟨os, by rw [readFails_withOs hend], hR⟩
        · refine onPadding_rel (v := { v with
            input := v.input.drop v.contentLen, contentLen := 0, skip := false }) hend hR rfl
            fun w hw => hh w ⟨?_, hw.2⟩
          have := hw.1
          simp only [List.length_drop] at this
          omega

theorem advanceEor_withOs {v : View} {os : Os} (h : os.readEnd = v.os.readEnd) :
    advanceEor (v.withOs os) = ((advanceEor v).1, (advanceEor v).2.withOs os) := by
  let toEnd : View → Stop × View := fun v => (.closed, { v with closed := true })
  obtain ⟨os', heq, rfl⟩ := @onInput_rel (fun _ os' => os' = os) toEnd toEnd v os h rfl
    fun w _ => ⟨os, rfl, rfl⟩
  exact heq

theorem eorContent_withOs {v : View} {os : Os} (h : os.readEnd = v.os.readEnd) :
    eorContent (v.withOs os) = ((eorContent v).1, (eorContent v).2.withOs os) := by
  by_cases hr : v.Ready
  · have hr' : (v.withOs os).Ready := hr
    rw [eorContent_ready hr, eorContent_ready hr']
    have hadv : (advanceEor ((v.withOs os).consume (v.withOs os).present)).2 =
        (advanceEor (v.consume v.present)).2.withOs os :=
      congrArg Prod.snd (advanceEor_withOs (v := v.consume v.present) h)
    rw [hadv]
    rfl
  · have hr' : ¬(v.withOs os).Ready := hr
    rw [eorContent_of_not_ready hr, eorContent_of_not_ready hr', advanceEor_withOs h]

theorem readQuery_withOs {v : View} {os : Os} (h : os.readEnd = v.os.readEnd) :
    readQuery (v.withOs os) = ((readQuery v).1, (readQuery v).2.withOs os) := by
  rw [readQuery, readQuery, eorContent_withOs h]
  rcases parsePairs (eorContent v).1 with ⟨ps, _ | _ | rest⟩
  · rfl
  · rfl
  · simp only [advanceEor_withOs h]
    rfl

/-- Two descriptors on which no write fails, to which the same has been written
since something else had been: `before` on the one, `before'` on the other. -/
structure Os.Alike (before before' : List UInt8) (os os' : Os) : Prop where
  readEnd : os'.readEnd = os.readEnd
  stale : os'.stale = os.stale
  writes : os.NeverFails
  writes' : os'.NeverFails
  since : ∃ written, accepted os.log = before ++ written ∧ accepted os'.log = before' ++ written

section Alike

variable {before before' : List UInt8} {v : View} {os : Os}

theorem sendReplyView_alike (h : Os.Alike before before' v.os os) (reply : List UInt8)
    (ok : Status) :
    ∃ os', sendReplyView reply ok (v.withOs os) =
        ((sendReplyView reply ok v).1, (sendReplyView reply ok v).2.withOs os') ∧
      Os.Alike before before' (sendReplyView reply ok v).2.os os' := by
  obtain ⟨rs, log, hrs, hlog, hw⟩ := writeItAll_ok h.writes reply
  obtain ⟨rs', log', hrs', hlog', hw'⟩ := writeItAll_ok h.writes' reply
  obtain ⟨written, hbefore, hbefore'⟩ := h.since
  have hw'' : writeItAll (v.withOs os).os reply = _ := hw'
  rw [sendReplyView_ok ok hw, sendReplyView_ok ok hw'']
  refine ⟨_, rfl, h.readEnd, h.stale, ⟨h.writes.1, hrs⟩, ⟨h.writes'.1, hrs'⟩, written ++ reply,
    ?_, ?_⟩
  · simp [hbefore, hlog]
  · simp [hbefore', hlog']

theorem processHeaderView_alike (h : Os.Alike before before' v.os os) (header : Header) :
    ∃ os', processHeaderView header (v.withOs os) =
        ((processHeaderView header v).1, (processHeaderView header v).2.withOs os') ∧
      Os.Alike before before' (processHeaderView header v).2.os os' := by
  have hstart : (v.withOs os).startRecord header = (v.startRecord header).withOs os := rfl
  have hs : Os.Alike before before' (v.startRecord header).os os := h
  rw [processHeaderView, processHeaderView]
  split
  · exact ⟨os, rfl, h⟩
  · rw [hstart]
    generalize v.startRecord header = u at hs
    have hreq : (u.withOs os).req = u.req := rfl
    have htype : (u.withOs os).type = u.type := rfl
    rw [dispatchView, dispatchView, hreq, htype]
    split
    · have hlen : (u.withOs os).contentLen = u.contentLen := rfl
      rw [processBeginView, processBeginView, hreq, hlen]
      split
      · exact ⟨os, rfl, hs⟩
      · split
        · exact sendReplyView_alike hs _ _
        · have heor := @eorContent_withOs (u.setRequestId header.requestId) os hs.readEnd
          have hadv := @advanceEor_withOs (u.setRequestId header.requestId) os hs.readEnd
          have hset : (u.withOs os).setRequestId header.requestId =
              (u.setRequestId header.requestId).withOs os := rfl
          rw [hset, readBeginView, readBeginView, heor, hadv]
          split
          · exact ⟨os, rfl, by rw [eorContent_os]; exact hs⟩
          · refine ⟨os, rfl, ?_⟩
            show Os.Alike before before' (advanceEor (u.setRequestId header.requestId)).2.os os
            rw [advanceEor_os]
            exact hs
    · split
      · rw [processManagementView, processManagementView]
        split
        · have hos := readQuery_os u
          have hs' : Os.Alike before before' (readQuery u).2.os os := by rwa [hos]
          rw [readQuery_withOs hs.readEnd, answerQuery, answerQuery]
          have herrno : ((readQuery u).2.withOs os).errno = (readQuery u).2.errno := rfl
          have hstale : ((readQuery u).2.withOs os).os.stale = (readQuery u).2.os.stale := hs'.stale
          simp only [herrno, hstale]
          split
          · exact ⟨os, rfl, hs'⟩
          · exact sendReplyView_alike hs' _ _
        · exact sendReplyView_alike hs _ _
      · split
        · exact ⟨os, rfl, hs⟩
        · split
          · exact ⟨os, rfl, hs⟩
          · exact ⟨os, rfl, hs⟩

/-- **What has been written does not matter to a reader** whose writes do not
fail. -/
theorem advance_alike (h : Os.Alike before before' v.os os) :
    OsRel (Os.Alike before before') (advance v) (advance (v.withOs os)) := by
  induction hn : v.input.length using Nat.strong_induction_on generalizing v os with
  | _ n ih =>
      rw [advance_eq v, advance_eq (v.withOs os)]
      refine onInput_rel h.readEnd h fun w hw => ?_
      have hwos : w.os = v.os := hw.2.2.2.2.2.2.2
      have hw' : Os.Alike before before' w.os os := by rwa [hwos]
      have hle := hw.1
      rw [onHeader, onHeader, View.withOs_input, show (w.withOs os).eorStop = w.eorStop from rfl]
      split
      · exact ⟨os, rfl, hw'⟩
      · split
        · exact ⟨os, by rw [readFails_withOs hw'.readEnd], hw'⟩
        · next hlen =>
            have hle' := processHeaderView_enterRecord_le (Header.ofBytes (w.input.take 8)) hlen
            obtain ⟨os', hproc, hos'⟩ := processHeaderView_alike (v := w.enterRecord) hw'
              (Header.ofBytes (w.input.take 8))
            have henter : (w.withOs os).enterRecord = w.enterRecord.withOs os := rfl
            rw [henter, hproc]
            generalize processHeaderView (Header.ofBytes (w.input.take 8)) w.enterRecord = r
              at hle' hos'
            obtain ⟨status, u⟩ := r
            have hlt : u.input.length < n := by
              simp only at hle'
              omega
            cases status with
            | streamRecord =>
                have hc : (u.withOs os').leaveRecord.contentLen = u.leaveRecord.contentLen := rfl
                simp only [onStatusView, hc]
                split
                · exact ⟨os', rfl, hos'⟩
                · exact ih _ hlt (v := u.leaveRecord) hos' rfl
            | skip => exact ih _ hlt (v := { u.leaveRecord with skip := true }) hos' rfl
            | beginRecord => exact ⟨os', rfl, hos'⟩
            | mgmtRecord => exact ih _ hlt (v := u.leaveRecord) hos' rfl
            | error e => exact ⟨os', rfl, hos'⟩

theorem Delivers.alike {e : View} {bs : List UInt8} (hd : Delivers v bs e)
    (h : Os.Alike before before' v.os os) :
    ∃ os', Delivers (v.withOs os) bs (e.withOs os') ∧ Os.Alike before before' e.os os' := by
  induction hd generalizing os with
  | stop hadv =>
      obtain ⟨os', heq, hos'⟩ := advance_alike h
      rw [hadv] at heq hos'
      exact ⟨os', .stop heq, hos'⟩
  | byte hadv hb _ ih =>
      obtain ⟨os', heq, hos'⟩ := advance_alike h
      rw [hadv] at heq hos'
      obtain ⟨os'', hd, hos''⟩ := ih hos'
      exact ⟨os'', .byte heq hb hd, hos''⟩

end Alike

/-! ### Unknown management records -/

/-- Behind the records `pre`, where the reader stands in view `w`, the
management record `r` is answered by one `FCGI_UNKNOWN_TYPE` record that names
its type, and otherwise not noticed: the client cannot tell the readers with
and without it apart, and at the end of the stream what has been written is
what had been written before, the answer, and what is written for `post`. -/
def Answered (v : View) (pre : List Record) (w : View) (r : Record) : Prop :=
  ∀ (post : List UInt8) (c c' : Chan), Inserted v pre r post c c' →
    c.SameReads c' ∧
    ∀ (calls : List ReadCall) (rets rets' : List (List UInt8)) (d d' : Chan),
      performAll calls c = some (rets, d) → performAll calls c' = some (rets', d') →
      d'.stream.isClosed = true →
      ∃ written,
        accepted d'.os.log =
          accepted w.os.log ++ (unknownTypeReply r.type.toNat ++ written) ∧
        (post ≠ [] → accepted d.os.log = accepted w.os.log ++ written) ∧
        (post = [] → written = [])

section Unknown

variable {v w : View} {pre : List Record} {bs : List UInt8} {r : Record}

/-- An unknown record without content. -/
theorem answered_of_empty (hv : v.Boundary) (hbegun : v.req.isBeginProcessed = true)
    (hpre : PassesAll v pre bs w) (hwrites : w.os.NeverFails)
    (hid : r.requestId.toNat = fcgiNullRequestId) (htype : r.type.toNat ≠ fcgiBeginRequest)
    (hunknown : r.type.toNat ≠ fcgiGetValues) (hc : r.content = []) : Answered v pre w r := by
  intro post c c' hi
  have hbegun' : (w.facing post).req.isBeginProcessed = true := by
    rw [← hbegun, ← hpre.req_eq]
    rfl
  obtain ⟨bs', e, hd⟩ := delivers_total hbegun'
  obtain ⟨rs, log, hrs, hlog, hreply⟩ := writeItAll_ok hwrites (unknownTypeReply r.type.toNat)
  have hpass := Passes.unknown (v := w) htype hid hunknown hreply
  -- the second run differs from the first in what has been written, and in nothing it reads
  set os : Os := { w.os with writeResults := rs, log := w.os.log ++ log } with hos
  have hvis : w.visible r = [] := by rw [View.visible, hc, ite_self]
  have hsame : w.passed r = w := by simp [View.passed, View.withSkip, hc]
  rw [hvis, hsame] at hpass
  have halike : Os.Alike (accepted w.os.log)
      (accepted w.os.log ++ unknownTypeReply r.type.toNat) (w.facing post).os os :=
    ⟨rfl, rfl, hwrites, ⟨hwrites.1, hrs⟩, [], by simp [View.facing], by simp [hos, hlog]⟩
  obtain ⟨os', hd', halike'⟩ := hd.alike halike
  obtain ⟨written, hafter, hafter'⟩ := halike'.since
  have hd' := @Passes.delivers _ _ _ _ _ _ post hpass (hpre.boundary hv)
    (fun _ h0 => absurd h0 hunknown) hd'
  have hd' := hpre.delivers hv (by simp [r.encode_ne_nil]) hd'
  rw [List.nil_append] at hd'
  rw [← hi.view_eq'] at hd'
  obtain ⟨e₁, hd₁, he₁⟩ := hpre.delivers_errno hv hd
  rw [← hi.view_eq] at hd₁
  have hreads := sameReads_of_delivers hi.isOpen hi.isOpen' (hi.eorStop hv).1 (hi.eorStop hv).2
    hi.errno_eq hd₁ hd' he₁
  refine ⟨hreads, ?_⟩
  -- what the calls return is the same, so both runs close at the same call
  intro calls rets rets' d d' hall hall' hclosed
  obtain ⟨x, hx, hlast⟩ := performAll_spec hi.isOpen (hi.eorStop hv).1 hd₁ calls
  obtain ⟨x', hx', hlast'⟩ := performAll_spec hi.isOpen' (hi.eorStop hv).2 hd' calls
  obtain rfl : d = x := by
    rw [hall] at hx
    exact (Prod.ext_iff.mp (Option.some.inj hx)).2
  obtain rfl : d' = x' := by
    rw [hall'] at hx'
    exact (Prod.ext_iff.mp (Option.some.inj hx')).2
  obtain ⟨hlt, -, hview'⟩ := hlast'.resolve_right fun h => by simp [hclosed] at h
  obtain ⟨-, -, hview⟩ := hlast.resolve_right fun h => absurd h.1 (by omega)
  have hlogd' : d'.os.log = os'.log := by
    have : d'.view.os.log = os'.log := by rw [hview']; rfl
    exact this
  refine ⟨written, by rw [hlogd', hafter', List.append_assoc], ?_, ?_⟩
  · intro hpost
    obtain ⟨-, rfl⟩ := hd₁.unique (hi.view_eq ▸ hpre.delivers hv hpost hd)
    have hlogd : d.view.os.log = e₁.os.log := by rw [hview]
    rw [← hafter]
    exact congrArg accepted hlogd
  · rintro rfl
    obtain ⟨-, rfl⟩ := hd.at_end
    have hnil : accepted w.os.log ++ written = accepted w.os.log ++ [] := by
      rw [← hafter, List.append_nil]
      rfl
    exact List.append_cancel_left hnil

/-- The content of an unknown record is delivered, or clears a stale skip flag:
on some wire a client notices it. -/
theorem empty_of_sameReads (hv : v.Boundary) (hos : v.os.writeSide = v.os) (hserving : v.Serving)
    (hpre : PassesAll v pre bs w) (hwrites : w.os.NeverFails)
    (hid : r.requestId.toNat = fcgiNullRequestId) (htype : r.type.toNat ≠ fcgiBeginRequest)
    (hunknown : r.type.toNat ≠ fcgiGetValues)
    (h : ∀ post c c', Inserted v pre r post c c' → c.SameReads c') : r.content = [] := by
  by_contra hc
  have hw := hpre.boundary hv
  obtain ⟨rs, log, -, -, hreply⟩ := writeItAll_ok hwrites (unknownTypeReply r.type.toNat)
  have hpass := Passes.unknown (v := w) htype hid hunknown hreply
  set u := (w.passed r).withOs { w.os with writeResults := rs, log := w.os.log ++ log } with hu
  have huskip : u.skip = false := by simp [hu, View.passed, View.withSkip, View.withOs, hc]
  obtain ⟨e, hd⟩ := probe_delivers hw (by rw [hpre.type_eq]; exact hserving.type_ne)
    (by rw [hpre.type_eq]; exact hserving.type_lt) (by rw [hpre.req_eq]; exact hserving.id_ne_null)
    (by rw [hpre.req_eq]; exact hserving.id_lt)
  obtain ⟨e', hd'⟩ := probe_delivers (v := u) (hpass.boundary hw)
    (by rw [hpass.type_eq, hpre.type_eq]; exact hserving.type_ne)
    (by rw [hpass.type_eq, hpre.type_eq]; exact hserving.type_lt)
    (by rw [hpass.req_eq, hpre.req_eq]; exact hserving.id_ne_null)
    (by rw [hpass.req_eq, hpre.req_eq]; exact hserving.id_lt)
  rw [hpass.type_eq, hpass.req_eq, huskip, if_neg (by decide)] at hd'
  have hd' := hpass.delivers hw (fun _ h0 => absurd h0 hunknown) hd'
  obtain ⟨e₁, hd₁, -⟩ := hpre.delivers_errno hv hd
  obtain ⟨e₂, hd₂, -⟩ := hpre.delivers_errno hv hd'
  obtain ⟨c, c', hi⟩ := Inserted.exists hv hos pre r
    ((probe w.type w.req.requestId).1.encode ++ (probe w.type w.req.requestId).2.encode)
  rw [← hi.view_eq] at hd₁
  rw [← hi.view_eq'] at hd₂
  have hsame := (delivers_of_sameReads hi.isOpen hi.isOpen' (hi.eorStop hv).1 (hi.eorStop hv).2
    hd₁ hd₂ (h _ c c' hi)).1
  have hcut := congrArg List.length (List.append_cancel_left hsame)
  cases hs : w.skip with
  | false => exact hc (by simpa [View.visible, hs] using hcut)
  | true => simp [View.visible, hs] at hcut

/-- **An unknown management record is answered and not noticed exactly when it
has no content.** -/
theorem unknown_answered_iff (hv : v.Boundary) (hos : v.os.writeSide = v.os)
    (hbegun : v.req.isBeginProcessed = true) (hserving : v.Serving) (hpre : PassesAll v pre bs w)
    (hwrites : w.os.NeverFails) (hid : r.requestId.toNat = fcgiNullRequestId)
    (htype : r.type.toNat ≠ fcgiBeginRequest) (hunknown : r.type.toNat ≠ fcgiGetValues) :
    Answered v pre w r ↔ r.content = [] :=
  ⟨fun h => empty_of_sameReads hv hos hserving hpre hwrites hid htype hunknown
      fun post c c' hi => (h post c c' hi).1,
    answered_of_empty hv hbegun hpre hwrites hid htype hunknown⟩

end Unknown

theorem unknown_answered_iff_stdin :
    Answered stdinView [] stdinView (shortRecord 12 0 [66] (by decide)) ↔
      (shortRecord 12 0 [66] (by decide)).content = [] :=
  unknown_answered_iff stdinView_boundary rfl rfl stdinView_serving .nil
    ⟨rfl, by simp [stdinView, stdinReader, Os.sending, Chan.view, Os.writeSide]⟩ (by decide)
    (by decide) (by decide)

/-- The content of a management record of type 12 is delivered to the client. -/
theorem unknown_delivered :
    ¬∀ (v w : View) (pre : List Record) (bs : List UInt8) (r : Record), v.Boundary → v.Serving →
      v.req.isBeginProcessed = true → PassesAll v pre bs w → w.os.NeverFails →
      r.requestId.toNat = fcgiNullRequestId → r.type.toNat ≠ fcgiBeginRequest →
      r.type.toNat ≠ fcgiGetValues → Answered v pre w r := by
  intro hall
  let r := shortRecord 12 0 [66] (by decide)
  let post := (shortRecord fcgiStdin 1 [65] (by decide)).encode ++
    (shortRecord fcgiStdin 1 [] (by decide)).encode
  have hanswered := hall stdinView stdinView [] [] r stdinView_boundary stdinView_serving rfl .nil
    ⟨rfl, by simp [stdinView, stdinReader, Os.sending, Chan.view, Os.writeSide]⟩ (by decide)
    (by decide) (by decide)
  have hsame : (stdinReader (.sending post [] [])).SameReads
      (stdinReader (.sending (r.encode ++ post) [] [])) :=
    (hanswered post _ _ (inserted_stdinReader r post)).1
  have hwithout : (stdinReader (.sending post [] [])).observe [.getStr 2] =
      some ([[65]], 0) := by decide +kernel
  have hwith : (stdinReader (.sending (r.encode ++ post) [] [])).observe [.getStr 2] =
      some ([[66, 65]], 0) := by decide +kernel
  have := hsame [.getStr 2]
  rw [hwithout, hwith] at this
  exact absurd this (by decide)

end FastCgi
