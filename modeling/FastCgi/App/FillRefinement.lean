import FastCgi.App.ReaderRefinement

/-!
`FillBuffProc` goes where `advance` goes (`fillSpec_fillBuffProc`).

The loop is proved stage by stage. Between two stages a reader stands
for a view in which nothing is deliverable yet (`Chan.fillView`); a
stage either leaves, or goes round with the same `advance` and less to
read, or hands on to the next stage of the view. Headers are
interpreted by reading through the stream with `eorStop` set, so the
proof for that mode comes first and needs no header.
-/

namespace FastCgi

open ByteMem BoundedLoop

/-! ### The stages of the fill loop -/

/-- What the proof of the fill loop keeps at the top of the loop: the reader
stands for a view with the same `advance` as at the start. -/
structure Filling (eor : Bool) (r : Stop × View) (hdr : List UInt8) (c : Chan) : Prop
    extends c.Buffered where
  isClosed : c.stream.isClosed = false
  eorStop : c.stream.eorStop = eor
  advance_eq : onInput (onHeader advance) (c.fillView hdr) = r
  hdr_lt : hdr.length < 8
  /-- A header is only collected between two records. -/
  between : hdr ≠ [] → eor = false ∧ c.stream.contentLen = 0 ∧ c.stream.paddingLen = 0

/-- How a stage may end, where `Next` is what it hands on. -/
def StageSpec (eor : Bool) (r : Stop × View) (hdr : List UInt8) (bound : ℕ) (Next : Chan → Prop) :
    Stage → Prop
  | .leave c => c.Settled r
  | .loop c => Filling eor r hdr c ∧ c.unread.length < bound
  | .next c => Next c

/-- `refill` hands on a reader with a byte in its buffer. -/
theorem refill_spec {eor : Bool} {r : Stop × View} {hdr : List UInt8} {c : Chan}
    (h : Filling eor r hdr c) :
    StageSpec eor r hdr c.unread.length
      (fun c' => Filling eor r hdr c' ∧ c'.stream.rdNext < c'.stream.buffStop ∧
        c'.unread = c.unread)
      (refill c) := by
  unfold refill
  split
  · next hempty =>
      have hunread : c.unread = c.os.incoming := by simp [Chan.unread, hempty]
      by_cases hi : c.os.incoming = []
      · rw [osRead_of_nil hi]
        -- the read fails or meets the end, with at most seven bytes of a header collected
        have hfail : onInput (onHeader advance) (c.fillView hdr) =
            (.closed, (c.fillView hdr).readFails) := by
          unfold onInput
          split
          · rfl
          · next hne =>
              have hin : (c.fillView hdr).input = hdr := by simp [Chan.fillView, hunread, hi]
              rw [hin] at hne
              obtain ⟨he, hc, hp⟩ := h.between hne
              rw [onContent, if_pos (by exact hc), onPadding, if_neg (by simp [Chan.fillView, hp]),
                onHeader, if_neg (by simp [Chan.fillView, h.eorStop, he]), if_pos]
              · rfl
              · have : (c.fillView hdr).paddingLen = 0 := hp
                simp only [hin, this, List.drop_zero]
                exact h.hdr_lt
        rw [h.advance_eq] at hfail
        subst hfail
        refine ⟨?_, h.toBuffered.closed_setError (readError_ne_zero _)⟩
        show (c.setError (readError c.os.readEnd)).view = _
        rw [view_setError]
        have hu : c.unread = [] := hunread.trans hi
        simp [Chan.view, Chan.fillView, View.readFails, View.setError, Os.writeSide, hu]
      · obtain ⟨chunk, rest, sizes, hne, hlen, hsplit, hread⟩ :=
          osRead_of_ne_nil hi h.bufflen_pos
        rw [hread]
        simp only [if_neg hne]
        have hunread' : slice (store c.stream.buff 0 chunk) 0 (chunk.length - 0) ++ rest =
            c.unread := by
          rw [Nat.sub_zero, slice_store, hunread, hsplit]
        refine ⟨⟨⟨h.isReader, Nat.zero_le _, hlen, h.bufflen_pos⟩, h.isClosed, h.eorStop, ?_,
          h.hdr_lt, h.between⟩, List.length_pos_iff.mpr hne, hunread'⟩
        rw [← h.advance_eq]
        congr 1
        simp only [Chan.fillView, View.mk.injEq, true_and, List.append_cancel_left_eq]
        exact ⟨hunread', Os.writeSide_congr rfl rfl rfl rfl rfl⟩
  · next hne =>
      have := h.rdNext_le
      exact ⟨h, by omega, rfl⟩

/-- Skipping part of the content that is skipped changes nothing. -/
theorem onInput_consume {h : View → Stop × View} {v : View} {k : ℕ} (hs : v.skip = true)
    (hk : k < v.contentLen) (hl : k ≤ v.input.length) : onInput h (v.consume k) = onInput h v := by
  have hc : v.contentLen ≠ 0 := by omega
  have hc' : (v.consume k).contentLen ≠ 0 := by
    rw [View.consume_contentLen]
    omega
  have hskip : ¬v.skip = false := by simp [hs]
  by_cases hall : v.input.length = k
  · have hdrop : (v.consume k).input = [] := by
      rw [View.consume_input, List.drop_eq_nil_iff]
      omega
    rw [onInput, if_pos hdrop, onInput]
    split
    · rfl
    · rw [onContent, if_neg hc, if_neg hskip, if_pos (by omega)]
      rfl
  · have hne : v.input ≠ [] := by
      intro h0
      simp only [h0, List.length_nil] at hall hl
      omega
    have hne' : (v.consume k).input ≠ [] := by
      rw [View.consume_input, ne_eq, List.drop_eq_nil_iff]
      omega
    rw [onInput, if_neg hne', onInput, if_neg hne, onContent, if_neg hc', onContent, if_neg hc,
      if_neg (show ¬(v.consume k).skip = false from hskip), if_neg hskip]
    simp only [View.consume, List.length_drop]
    split
    · rw [if_pos (by omega)]
      rfl
    · rw [if_neg (by omega), List.drop_drop, Nat.add_sub_cancel' (by omega)]

/-- `k` bytes of the padding are skipped. -/
def View.pad (v : View) (k : ℕ) : View :=
  { v with input := v.input.drop k, paddingLen := v.paddingLen - k }

/-- Skipping part of the padding changes nothing. -/
theorem onInput_pad {h : View → Stop × View} {v : View} {k : ℕ} (hc : v.contentLen = 0)
    (hk : k < v.paddingLen) (hl : k ≤ v.input.length) : onInput h (v.pad k) = onPadding h v := by
  by_cases hall : v.input.length = k
  · have hdrop : (v.pad k).input = [] := by
      simp only [View.pad, List.drop_eq_nil_iff]
      omega
    rw [onInput, if_pos hdrop, onPadding, if_pos (by omega)]
    rfl
  · have hne : (v.pad k).input ≠ [] := by
      simp only [View.pad, ne_eq, List.drop_eq_nil_iff]
      omega
    rw [onInput, if_neg hne, onContent, if_pos (show (v.pad k).contentLen = 0 from hc), onPadding,
      onPadding]
    simp only [View.pad, List.length_drop]
    split
    · rw [if_pos (by omega)]
      rfl
    · rw [if_neg (by omega), List.drop_drop, Nat.add_sub_cancel' (by omega)]

/-- What a stage that is done with the content hands on to a later stage `H`
of the view. -/
structure Passing (eor : Bool) (r : Stop × View) (hdr : List UInt8) (bound : ℕ)
    (H : View → Stop × View) (c : Chan) : Prop extends c.Buffered where
  isClosed : c.stream.isClosed = false
  eorStop : c.stream.eorStop = eor
  contentLen : c.stream.contentLen = 0
  view_eq : H (c.fillView hdr) = r
  hdr_lt : hdr.length < 8
  between : hdr ≠ [] → eor = false ∧ c.stream.paddingLen = 0
  /-- Some byte has been consumed, or can be. -/
  progress : c.unread.length < bound ∨
    c.unread.length ≤ bound ∧ c.stream.rdNext < c.stream.buffStop

theorem passContent_spec {eor : Bool} {r : Stop × View} {hdr : List UInt8} {c : Chan}
    (h : Filling eor r hdr c) (hlt : c.stream.rdNext < c.stream.buffStop) :
    StageSpec eor r hdr c.unread.length
      (Passing eor r hdr c.unread.length (onPadding (onHeader advance))) (passContent c) := by
  have hpos := le_length_unread c
  have hne : (c.fillView hdr).input ≠ [] := by
    simp only [Chan.fillView, ne_eq, List.append_eq_nil_iff, not_and]
    intro _ hnil
    rw [hnil, List.length_nil] at hpos
    omega
  have hadv := h.advance_eq
  unfold passContent
  dsimp only
  split
  · next hc =>
      have hnil : hdr = [] := by
        by_contra hne
        have := (h.between hne).2.1
        omega
      subst hnil
      have hcl : (c.fillView []).contentLen ≠ 0 := Nat.ne_of_gt hc
      set count := min c.stream.contentLen (c.stream.buffStop - c.stream.rdNext) with hcount
      have hcle : count ≤ c.stream.buffStop - c.stream.rdNext := Nat.min_le_right _ _
      have hdrop := unread_moveNext hcle
      have hlen : (c.unread.drop count).length < c.unread.length := by
        rw [List.length_drop]
        omega
      split
      · next hskip =>
          -- the stream stops behind the content that is in the buffer
          have hskip : c.stream.skip = false := by simpa using hskip
          rw [onInput, if_neg hne, onContent, if_neg hcl, if_pos (by exact hskip)] at hadv
          subst hadv
          refine ⟨?_, ⟨⟨h.isReader, h.rdNext_le, h.buffStop_le, h.bufflen_pos⟩, h.isClosed,
            Nat.le_add_right _ _, ?_, fun _ => hskip⟩, ?_⟩
          · simp only [Chan.view, Chan.fillView, Chan.unread, h.isClosed, View.mk.injEq,
              List.nil_append, true_and, and_true, Bool.false_eq_true, if_false]
            omega
          · show c.stream.rdNext + count ≤ c.stream.buffStop
            omega
          · show c.stream.rdNext < c.stream.rdNext + count
            omega
      · next hskip =>
          -- skipped content leaves `advance` where it was, as long as some of it is to come
          have hskip : c.stream.skip = true := by simpa using hskip
          have hbuf := h.toBuffered.moveNext hcle
          split
          · next hrest =>
              refine ⟨⟨⟨hbuf.isReader, hbuf.rdNext_le, hbuf.buffStop_le, hbuf.bufflen_pos⟩,
                h.isClosed, h.eorStop, ?_, h.hdr_lt, fun hne => absurd rfl hne⟩, ?_⟩
              · have hsub := onInput_consume (h := onHeader advance) (v := c.fillView [])
                  (k := count) hskip (show count < c.stream.contentLen by omega)
                  (show count ≤ c.unread.length by omega)
                rw [← hadv, ← hsub]
                congr 1
                simp only [Chan.fillView, View.consume, List.nil_append, ← hdrop]
                rfl
              · rw [← hdrop] at hlen
                exact hlen
          · next hrest =>
              -- all of it is skipped, and the padding is next
              have hall : count = c.stream.contentLen := by omega
              refine ⟨⟨hbuf.isReader, hbuf.rdNext_le, hbuf.buffStop_le, hbuf.bufflen_pos⟩,
                h.isClosed, h.eorStop, by simp only; omega, ?_, h.hdr_lt,
                fun hne => absurd rfl hne, .inl ?_⟩
              · have hle : ¬(c.fillView []).input.length < (c.fillView []).contentLen := by
                  simp only [Chan.fillView, List.nil_append]
                  omega
                rw [onInput, if_neg hne, onContent, if_neg hcl,
                  if_neg (by simp [Chan.fillView, hskip]), if_neg hle] at hadv
                rw [← hadv]
                congr 1
                simp only [Chan.fillView, View.mk.injEq, List.nil_append, and_true]
                exact ⟨by rw [← hall]; exact hdrop, by omega⟩
              · rw [← hdrop] at hlen
                exact hlen
  · next hc =>
      have hc : c.stream.contentLen = 0 := by omega
      rw [onInput, if_neg hne, onContent, if_pos (by exact hc)] at hadv
      exact ⟨h.toBuffered, h.isClosed, h.eorStop, hc, hadv, h.hdr_lt,
        fun hne => ⟨(h.between hne).1, (h.between hne).2.2⟩, .inr ⟨Nat.le_refl _, hlt⟩⟩

theorem passPadding_spec {eor : Bool} {r : Stop × View} {hdr : List UInt8} {bound : ℕ} {c : Chan}
    (h : Passing eor r hdr bound (onPadding (onHeader advance)) c) :
    StageSpec eor r hdr bound
      (fun c' => Passing eor r hdr bound (onHeader advance) c' ∧ c'.stream.paddingLen = 0)
      (passPadding c) := by
  have hadv := h.view_eq
  have hpos := le_length_unread c
  unfold passPadding
  dsimp only
  split
  · next hp =>
      have hnil : hdr = [] := by
        by_contra hne
        have := (h.between hne).2
        omega
      subst hnil
      set count := min c.stream.paddingLen (c.stream.buffStop - c.stream.rdNext) with hcount
      have hcle : count ≤ c.stream.buffStop - c.stream.rdNext := Nat.min_le_right _ _
      have hdrop := unread_moveNext hcle
      have hbuf := h.toBuffered.moveNext hcle
      have hlen : (c.unread.drop count).length < bound := by
        have := h.progress
        rw [List.length_drop]
        omega
      split
      · next hrest =>
          refine ⟨⟨⟨hbuf.isReader, hbuf.rdNext_le, hbuf.buffStop_le, hbuf.bufflen_pos⟩,
            h.isClosed, h.eorStop, ?_, h.hdr_lt, fun hne => absurd rfl hne⟩, ?_⟩
          · have hsub := onInput_pad (h := onHeader advance) (v := c.fillView []) (k := count)
              h.contentLen (show count < c.stream.paddingLen by omega)
              (show count ≤ c.unread.length by omega)
            rw [← hadv, ← hsub]
            congr 1
            simp only [Chan.fillView, View.pad, List.nil_append, ← hdrop]
            rfl
          · rw [← hdrop] at hlen
            exact hlen
      · next hrest =>
          have hall : count = c.stream.paddingLen := by omega
          refine ⟨⟨⟨hbuf.isReader, hbuf.rdNext_le, hbuf.buffStop_le, hbuf.bufflen_pos⟩,
            h.isClosed, h.eorStop, h.contentLen, ?_, h.hdr_lt, fun hne => absurd rfl hne,
            .inl ?_⟩, by simp only; omega⟩
          · have hle : ¬(c.fillView []).input.length < (c.fillView []).paddingLen := by
              simp only [Chan.fillView, List.nil_append]
              omega
            rw [onPadding, if_neg hle] at hadv
            rw [← hadv]
            congr 1
            simp only [Chan.fillView, View.mk.injEq, List.nil_append, and_true, true_and]
            exact ⟨by rw [← hall]; exact hdrop, by omega⟩
          · rw [← hdrop] at hlen
            exact hlen
  · next hp =>
      have hp : c.stream.paddingLen = 0 := by omega
      refine ⟨⟨h.toBuffered, h.isClosed, h.eorStop, h.contentLen, ?_, h.hdr_lt, h.between,
        h.progress⟩, hp⟩
      rw [onPadding, if_neg (by simp [Chan.fillView, hp])] at hadv
      rw [← hadv]
      simp [Chan.fillView, hp]

/-- At the end of a record a nested call closes the stream, another one goes on
to the next header. -/
theorem checkEor_spec {eor : Bool} {r : Stop × View} {hdr : List UInt8} {bound : ℕ} {c : Chan}
    (h : Passing eor r hdr bound (onHeader advance) c) (hp : c.stream.paddingLen = 0) :
    StageSpec eor r hdr bound (fun c' => c' = c ∧ eor = false) (checkEor c) := by
  have hadv := h.view_eq
  unfold checkEor
  split
  · next he =>
      have heor : eor = true := h.eorStop.symm.trans he
      have hnil : hdr = [] := by
        by_contra hne
        exact absurd (h.between hne).1 (by simp [heor])
      subst hnil
      rw [onHeader, if_pos (by exact he)] at hadv
      subst hadv
      refine ⟨?_, ⟨h.isReader, h.rdNext_le, h.buffStop_le, h.bufflen_pos⟩, rfl,
        fun _ => h.contentLen, fun _ _ => hp⟩
      simp [Chan.view, Chan.fillView, Chan.unread, h.contentLen, hp]
  · next he =>
      refine ⟨rfl, ?_⟩
      rw [← h.eorStop]
      simpa using he

/-! ### Interpreting headers -/

/-- A reader between two calls, with nothing in its buffer to deliver. -/
structure Chan.Between (c : Chan) : Prop extends c.Buffered where
  isClosed : c.stream.isClosed = false
  rdNext_eq : c.stream.rdNext = c.stream.stop

theorem Chan.Between.toOpen {c : Chan} (h : c.Between) : c.Open :=
  ⟨h.toBuffered, h.isClosed, Nat.le_of_eq h.rdNext_eq, h.rdNext_eq ▸ h.rdNext_le,
    fun hlt => absurd h.rdNext_eq (Nat.ne_of_lt hlt)⟩

theorem Chan.Between.view_contentLen {c : Chan} (h : c.Between) :
    c.view.contentLen = c.stream.contentLen := by
  simp [Chan.view, h.isClosed, h.rdNext_eq]

/-- An open reader whose view has no content left has nothing left to deliver. -/
theorem Chan.Open.between {c : Chan} (h : c.Open) (hc : c.view.contentLen = 0) : c.Between := by
  refine ⟨h.toBuffered, h.isClosed, ?_⟩
  have hle := h.rdNext_le_stop
  simp only [Chan.view, h.isClosed, Bool.false_eq_true, if_false] at hc
  omega

/-- `ProcessHeader` and its parts do what their views say. -/
structure Processed (r : Status × View) (x : Status × Chan) : Prop extends x.2.Buffered where
  status_eq : x.1 = r.1
  view_eq : x.2.view = r.2
  error_neg : ∀ e, x.1 = .error e → e < 0
  /-- Where the loop goes on, nothing of the record is left in the buffer. -/
  between : (∀ e, x.1 ≠ .error e) → x.2.Between ∨
    x.1 = .mgmtRecord ∧ x.2.stream.contentLen = 0 ∧ x.2.stream.paddingLen = 0 ∧
      x.2.stream.isClosed = true

/-- The channel after a write. -/
def Chan.withOs (c : Chan) (os : Os) : Chan := { c with os := os }

theorem view_withOs {c : Chan} {os : Os} (h : os.incoming = c.os.incoming) :
    (c.withOs os).view = { c.view with os := os.writeSide } := by
  simp only [Chan.view, Chan.withOs, Chan.unread, h]
  congr

theorem Chan.Buffered.withOs {c : Chan} (h : c.Buffered) (os : Os) : (c.withOs os).Buffered :=
  ⟨h.isReader, h.rdNext_le, h.buffStop_le, h.bufflen_pos⟩

theorem Chan.Between.withOs {c : Chan} (h : c.Between) (os : Os) : (c.withOs os).Between :=
  ⟨h.toBuffered.withOs os, h.isClosed, h.rdNext_eq⟩

theorem sendReply_eq (reply : List UInt8) (ok : Status) (c : Chan) :
    sendReply reply ok c =
      match writeItAll c.os reply with
      | (.error e, os) => (.error (-1), (c.withOs os).setError e)
      | (.ok (), os) => (ok, c.withOs os) := rfl

/-- Sending a reply, from a reader whose lengths the loop will go on with. -/
theorem sendReply_spec {c : Chan} (hb : c.Buffered) (reply : List UInt8) {ok : Status}
    (hok : ∀ e, ok ≠ .error e)
    (h : c.Between ∨ ok = .mgmtRecord ∧ c.stream.contentLen = 0 ∧ c.stream.paddingLen = 0 ∧
      c.stream.isClosed = true) :
    Processed (sendReplyView reply ok c.view) (sendReply reply ok c) := by
  have hin := writeItAll_incoming c.os reply
  have hside : writeItAll c.view.os reply = _ := writeItAll_writeSide c.os reply
  rw [sendReplyView, hside, sendReply_eq]
  rcases hw : writeItAll c.os reply with ⟨e | _, os⟩
  all_goals rw [hw] at hin
  · refine ⟨(hb.withOs os).setError e, rfl, ?_, ?_, ?_⟩
    · rw [view_setError, view_withOs hin]
    · rintro _ ⟨⟩
      decide
    · intro hne
      exact absurd rfl (hne _)
  · refine ⟨hb.withOs os, rfl, view_withOs hin, fun e he => absurd he (hok e), fun _ => ?_⟩
    rcases h with h | h
    · exact .inl (h.withOs os)
    · exact .inr h

theorem eorContent_length_le (v : View) : (eorContent v).1.length ≤ v.contentLen := by
  by_cases hr : v.Ready
  · rw [eorContent_ready hr, List.length_take]
    exact (Nat.min_le_left _ _).trans (Nat.min_le_left _ _)
  · rw [eorContent_of_not_ready hr]
    exact Nat.zero_le _

/-- Under `eorStop`, where a reader stands is told by the number of bytes read. -/
theorem Reads.eor_view {v w : View} {xs ys : List UInt8} (h : Reads v xs w)
    (hcontent : (eorContent v).1 = xs ++ ys) (hne : (eorContent v).1 ≠ []) :
    w = (advanceEor v).2.consume xs.length := by
  have hr : v.Ready := by
    by_contra hr
    rw [eorContent_of_not_ready hr] at hne
    exact hne rfl
  rw [eorContent_ready hr] at hcontent
  have hlen := congrArg List.length hcontent
  simp only [List.length_take, List.length_append, View.present] at hlen
  have hxs : v.input.take xs.length = xs := by
    have htake := congrArg (List.take xs.length) hcontent
    rw [List.take_take, List.take_left' rfl, Nat.min_eq_left] at htake
    · exact htake
    · simp only [View.present]
      omega
  have hseg := Reads.segment (k := xs.length) hr.2.1 (by omega) (by omega)
  rw [hxs] at hseg
  rw [advanceEor_ready hr]
  exact h.unique hseg

/-- The query of a `FCGI_GET_VALUES` record. -/
theorem readParams_query {fill : Chan → Option Chan} {c : Chan} (hf : FillSpec fill true)
    (ho : c.Open) (he : c.stream.eorStop = true) (p : Params) (hp : p.entries = []) :
    ∃ rc q c', readParams fill p c = some (rc, q, c') ∧ c'.Closed ∧ c'.view = (readQuery c.view).2 ∧
      q.entries = (readQuery c.view).1.map NameValue.entry := by
  have hd : Delivers c.view (eorContent c.view).1 (eorContent c.view).2 := delivers_eor he
  obtain ⟨⟨rc, q, c'⟩, hread, hclosed, hentries, hresult⟩ :=
    readParams_spec (by rw [he]; exact hf) ho hd p
  rw [hp, List.nil_append] at hentries
  refine ⟨rc, q, c', hread, hclosed, ?_⟩
  unfold readQuery
  split
  · next ps hps =>
      rw [hps] at hresult hentries
      exact ⟨hresult.2, hentries⟩
  · next ps hps =>
      rw [hps] at hresult hentries
      exact ⟨hresult.2, hentries⟩
  · next ps rest hps =>
      rw [hps] at hresult hentries
      obtain ⟨-, w, xs, hxs, hreads, hview⟩ := hresult
      have hne : (eorContent c.view).1 ≠ [] := by
        intro hnil
        rw [hnil, parsePairs_nil] at hps
        cases hps
      refine ⟨?_, hentries⟩
      rw [hview, hreads.eor_view hxs hne, hxs, List.length_append, Nat.add_sub_cancel]

theorem processManagementRecord_spec {fill : Chan → Option Chan} {c : Chan}
    (hf : FillSpec fill true) (hb : c.Between) (he : c.stream.eorStop = true) (type : ℕ) :
    ∃ x, processManagementRecord fill type c = some x ∧
      Processed (processManagementView type c.view) x := by
  unfold processManagementRecord processManagementView
  split
  · obtain ⟨rc, q, c', hread, hclosed, hview, hentries⟩ :=
      readParams_query hf hb.toOpen he (newParams 3) (entries_newParams 3)
    have herrno : (readQuery c.view).2.errno = c'.stream.fcgiErrno := by rw [← hview]; rfl
    have hstale : (readQuery c.view).2.os.stale = c'.os.stale := by rw [← hview]; rfl
    have heor' : c'.stream.eorStop = true := by
      have hle := advance_eorStop c.view
      have hce : c'.view.eorStop = (readQuery c.view).2.eorStop := by rw [hview]
      exact hce.trans ((readQuery_eorStop c.view).trans he)
    rw [hread, answerQuery, herrno]
    dsimp only
    by_cases h0 : c'.stream.fcgiErrno = 0
    · rw [if_neg (by simp [h0, hclosed.contentLen h0]), if_neg (by simp [h0]), hstale, hentries,
        ← hview]
      exact ⟨_, rfl, sendReply_spec hclosed.toBuffered _ (by simp)
        (.inr ⟨rfl, hclosed.contentLen h0, hclosed.paddingLen h0 heor', hclosed.isClosed⟩)⟩
    · rw [if_pos (.inl h0), if_pos h0]
      refine ⟨_, rfl, hclosed.toBuffered, rfl, hview, ?_, fun hne => absurd rfl (hne _)⟩
      rintro _ ⟨⟩
      decide
  · exact ⟨_, rfl, sendReply_spec hb.toBuffered _ (by simp) (.inl hb)⟩

theorem readBegin_spec {fill : Chan → Option Chan} {c : Chan} (hf : FillSpec fill true)
    (hb : c.Between) (he : c.stream.eorStop = true) (hc : c.stream.contentLen = 8) :
    ∃ x, readBegin fill c = some x ∧ Processed (readBeginView c.view) x := by
  have hd : Delivers c.view (eorContent c.view).1 (eorContent c.view).2 := delivers_eor he
  have hle := eorContent_length_le c.view
  rw [hb.view_contentLen, hc] at hle
  obtain ⟨⟨y, c'⟩, hget, hgot⟩ := fcgxGetStr_spec (by rw [he]; exact hf) hb.toOpen hd 8
  rw [show ((8 : ℕ) : ℤ) = 8 from rfl] at hget
  rw [readBegin, hget, readBeginView]
  dsimp only
  rcases hgot with ⟨hlen, hy, ho', hreads⟩ | ⟨hlen, hy, hclosed, hview⟩
  · dsimp only at hy ho' hreads
    have hlen : (eorContent c.view).1.length = 8 := by omega
    rw [List.take_of_length_le (Nat.le_of_eq hlen)] at hy hreads
    have hne : (eorContent c.view).1 ≠ [] := by
      rw [← List.length_pos_iff]
      omega
    have hview := hreads.eor_view (List.append_nil _).symm hne
    rw [hlen] at hview
    rw [hy, if_neg (by simp [hlen]), if_neg (by simp [hlen])]
    have hready : advanceEor c.view = (.ready, c.view) := by
      refine advanceEor_ready ?_
      by_contra hr
      rw [eorContent_of_not_ready hr] at hne
      exact hne rfl
    have hbetween : c'.Between := by
      refine ho'.between ?_
      rw [hview, hready, View.consume_contentLen, hb.view_contentLen, hc]
    refine ⟨_, rfl, ⟨ho'.isReader, ho'.rdNext_le, ho'.buffStop_le, ho'.bufflen_pos⟩, rfl, ?_, ?_,
      fun _ => .inl ⟨⟨ho'.isReader, ho'.rdNext_le, ho'.buffStop_le, ho'.bufflen_pos⟩,
        hbetween.isClosed, hbetween.rdNext_eq⟩⟩
    · rw [← hview]
      rfl
    · intro _ herror
      cases herror
  · dsimp only at hy hclosed hview
    rw [hy, if_pos (by omega), if_pos (by omega)]
    refine ⟨_, rfl, hclosed.toBuffered, rfl, hview, ?_, fun hne => absurd rfl (hne _)⟩
    rintro _ ⟨⟩
    decide

theorem Chan.Between.setRequestId {c : Chan} (h : c.Between) (id : ℕ) :
    (c.setRequestId id).Between :=
  ⟨⟨h.isReader, h.rdNext_le, h.buffStop_le, h.bufflen_pos⟩, h.isClosed, h.rdNext_eq⟩

theorem processBeginRecord_spec {fill : Chan → Option Chan} {c : Chan} (hf : FillSpec fill true)
    (hb : c.Between) (he : c.stream.eorStop = true) (id : ℕ) :
    ∃ x, processBeginRecord fill id c = some x ∧ Processed (processBeginView id c.view) x := by
  rw [processBeginRecord, processBeginView, hb.view_contentLen]
  split
  · refine ⟨_, rfl, hb.toBuffered, rfl, rfl, ?_, fun hne => absurd rfl (hne _)⟩
    rintro _ ⟨⟩
    decide
  · next hc =>
      have hreq : c.view.req = c.req := rfl
      rw [hreq]
      split
      · exact ⟨_, rfl, sendReply_spec hb.toBuffered _ (by simp) (.inl hb)⟩
      · have hlen : c.stream.contentLen = 8 := by omega
        exact readBegin_spec (c := c.setRequestId id) hf (hb.setRequestId id) he hlen

theorem processHeader_spec {fill : Chan → Option Chan} {c : Chan} (hf : FillSpec fill true)
    (hb : c.Between) (he : c.stream.eorStop = true) (header : Header) :
    ∃ x, processHeader fill header c = some x ∧
      Processed (processHeaderView header c.view) x := by
  have hstart : (c.startRecord header).Between :=
    ⟨⟨hb.isReader, hb.rdNext_le, hb.buffStop_le, hb.bufflen_pos⟩, hb.isClosed, hb.rdNext_eq⟩
  have hview : (c.startRecord header).view = c.view.startRecord header := by
    simp [Chan.view, Chan.startRecord, View.startRecord, hb.isClosed, hb.rdNext_eq, Chan.unread]
  rw [processHeader, processHeaderView]
  split
  · refine ⟨_, rfl, hb.toBuffered, rfl, rfl, ?_, fun hne => absurd rfl (hne _)⟩
    rintro _ ⟨⟩
    decide
  · have hid : (c.view.startRecord header).req.requestId =
        (c.startRecord header).req.requestId := rfl
    have htype : (c.view.startRecord header).type = (c.startRecord header).stream.type := rfl
    rw [dispatchHeader, dispatchView, hid, htype, ← hview]
    split
    · exact processBeginRecord_spec hf hstart he header.requestId
    · split
      · exact processManagementRecord_spec hf hstart he header.type.toNat
      · split
        · exact ⟨_, rfl, hstart.toBuffered, rfl, rfl, (fun _ h => by cases h), fun _ => .inl hstart⟩
        · split
          · refine ⟨_, rfl, hstart.toBuffered, rfl, rfl, ?_, fun hne => absurd rfl (hne _)⟩
            rintro _ ⟨⟩
            decide
          · exact ⟨_, rfl, hstart.toBuffered, rfl, rfl, (fun _ h => by cases h), fun _ => .inl hstart⟩

/-! ### The fill loop -/

/-- The `switch` goes on with the reader that `ProcessHeader` has left. -/
theorem fillView_leaveRecord {c : Chan}
    (h : c.Between ∨ c.stream.contentLen = 0 ∧ c.stream.paddingLen = 0 ∧
      c.stream.isClosed = true) :
    (leaveRecord c).fillView [] = c.view.leaveRecord := by
  rcases h with h | ⟨hc, hp, hclosed⟩
  · simp [Chan.fillView, leaveRecord, Chan.view, View.leaveRecord, Chan.unread, h.isClosed,
      h.rdNext_eq]
  · simp [Chan.fillView, leaveRecord, Chan.view, View.leaveRecord, Chan.unread, hclosed, hc, hp]

theorem filling_leaveRecord {c : Chan} (hb : c.Buffered)
    (h : c.Between ∨ c.stream.contentLen = 0 ∧ c.stream.paddingLen = 0 ∧
      c.stream.isClosed = true) :
    Filling false (advance c.view.leaveRecord) [] (leaveRecord c) where
  isReader := hb.isReader
  rdNext_le := hb.rdNext_le
  buffStop_le := hb.buffStop_le
  bufflen_pos := hb.bufflen_pos
  isClosed := rfl
  eorStop := rfl
  advance_eq := by rw [fillView_leaveRecord h, advance_eq]
  hdr_lt := by decide
  between hne := absurd rfl hne

/-- What one pass of the fill loop ends with. -/
def FillPass (eor : Bool) (r : Stop × View) (bound : ℕ)
    (p : Option (Pass (List UInt8 × Chan) Chan)) : Prop :=
  (∃ c', p = some (.done c') ∧ c'.Settled r) ∨
    ∃ x, p = some (.again x) ∧ Filling eor r x.1 x.2 ∧ x.2.unread.length < bound

/-- The `switch` after a header. -/
theorem onStatus_spec {x : Status × Chan} {r : Status × View} (h : Processed r x) {bound : ℕ}
    (hlt : x.2.unread.length < bound) :
    FillPass false (onStatusView advance r.1 r.2.leaveRecord) bound
      (onStatus x.1 (leaveRecord x.2)) := by
  obtain ⟨status, c⟩ := x
  have hst : status = r.1 := h.status_eq
  have hview : c.view = r.2 := h.view_eq
  have hb := h.toBuffered
  have hbetween := h.between
  rw [← hst, ← hview]
  cases status with
  | streamRecord =>
      have hbt : c.Between := (hbetween (by simp)).resolve_right (by simp)
      have hcl : c.view.leaveRecord.contentLen = c.stream.contentLen := hbt.view_contentLen
      rw [onStatus, onStatusView, hcl]
      by_cases hc : c.stream.contentLen = 0
      · rw [if_pos hc, if_pos (by exact hc)]
        refine .inl ⟨_, rfl, ?_, ⟨hb.isReader, hb.rdNext_le, hb.buffStop_le, hb.bufflen_pos⟩, rfl,
          fun _ => hc, fun _ he => by cases he⟩
        simp [Chan.view, View.leaveRecord, Chan.unread, leaveRecord, hbt.rdNext_eq, hc]
      · rw [if_neg hc, if_neg (by exact hc)]
        exact .inr ⟨_, rfl, filling_leaveRecord hb (.inl hbt), hlt⟩
  | skip =>
      have hbt : c.Between := (hbetween (by simp)).resolve_right (by simp)
      have hfill := filling_leaveRecord hb (.inl hbt)
      refine .inr ⟨([], { leaveRecord c with
        stream := { (leaveRecord c).stream with skip := true } }), rfl,
        ⟨⟨hb.isReader, hb.rdNext_le, hb.buffStop_le, hb.bufflen_pos⟩, rfl, rfl, ?_,
          Nat.succ_pos 7, fun hne => absurd rfl hne⟩, hlt⟩
      rw [onStatusView, advance_eq, ← fillView_leaveRecord (.inl hbt)]
      rfl
  | beginRecord =>
      have hbt : c.Between := (hbetween (by simp)).resolve_right (by simp)
      have hbt' : (leaveRecord c).Between :=
        ⟨⟨hb.isReader, hb.rdNext_le, hb.buffStop_le, hb.bufflen_pos⟩, rfl, hbt.rdNext_eq⟩
      refine .inl ⟨leaveRecord c, rfl, ?_, hbt'.toOpen, hbt'.rdNext_eq⟩
      rw [Chan.view_eq_fillView rfl (Nat.le_of_eq hbt'.rdNext_eq.symm),
        fillView_leaveRecord (.inl hbt)]
      rfl
  | mgmtRecord =>
      have hstand : c.Between ∨ c.stream.contentLen = 0 ∧ c.stream.paddingLen = 0 ∧
          c.stream.isClosed = true := (hbetween (by simp)).imp_right And.right
      exact .inr ⟨([], leaveRecord c), rfl, filling_leaveRecord hb hstand, hlt⟩
  | error e =>
      have he := h.error_neg e rfl
      have hb' : (leaveRecord c).Buffered :=
        ⟨hb.isReader, hb.rdNext_le, hb.buffStop_le, hb.bufflen_pos⟩
      refine .inl ⟨(leaveRecord c).setError e, if_pos he, ?_, hb'.closed_setError (by omega)⟩
      rw [view_setError]
      simp only [View.setError, Chan.view, Chan.unread, leaveRecord, View.leaveRecord,
        onStatusView]
      congr

/-- Collecting a header, and interpreting it once it is complete. -/
theorem passHeader_spec {fill : Chan → Option Chan} {r : Stop × View} {hdr : List UInt8}
    {bound : ℕ} {c : Chan} (hf : FillSpec fill true)
    (h : Passing false r hdr bound (onHeader advance) c) (hp : c.stream.paddingLen = 0) :
    FillPass false r bound (passHeader fill hdr c) := by
  have hadv := h.view_eq
  have hlen := le_length_unread c
  have hprog := h.progress
  have hhdr := h.hdr_lt
  unfold passHeader
  dsimp only
  set count := min (8 - hdr.length) (c.stream.buffStop - c.stream.rdNext) with hcount
  have hcle : count ≤ c.stream.buffStop - c.stream.rdNext := Nat.min_le_right _ _
  have hdrop := unread_moveNext hcle
  have hbuf := h.toBuffered.moveNext hcle
  have htake := slice_eq_take_unread hcle
  have hinput : (c.fillView hdr).input = (hdr ++ c.unread.take count) ++ (c.moveNext count).unread := by
    rw [hdrop, List.append_assoc, List.take_append_drop]
    rfl
  have hhdrlen : (hdr ++ c.unread.take count).length = hdr.length + count := by
    rw [List.length_append, List.length_take]
    omega
  have hunread : (c.moveNext count).unread.length < bound := by
    have hlt : c.stream.rdNext < c.stream.buffStop → 0 < count := by omega
    rw [hdrop, List.length_drop]
    omega
  rw [htake]
  split
  · next hshort =>
      refine .inr ⟨_, rfl, ⟨⟨hbuf.isReader, hbuf.rdNext_le, hbuf.buffStop_le, hbuf.bufflen_pos⟩,
        h.isClosed, h.eorStop, ?_, hshort, fun _ => ⟨rfl, h.contentLen, hp⟩⟩, hunread⟩
      -- the bytes of the header have moved from the buffer to `hdr`, and the view is the same
      have hsame : (c.moveNext count).fillView (hdr ++ c.unread.take count) = c.fillView hdr := by
        rw [Chan.fillView, ← hinput]
        rfl
      rw [← hadv]
      show onInput (onHeader advance)
        ((c.moveNext count).fillView (hdr ++ c.unread.take count)) = _
      rw [hsame, onInput]
      split
      · next hnil =>
          rw [onHeader, if_neg (by simp [Chan.fillView, h.eorStop]), if_pos]
          rw [hnil]
          decide
      · rw [onContent, if_pos (by exact h.contentLen), onPadding,
          if_neg (by simp [Chan.fillView, hp])]
        simp [Chan.fillView, hp]
  · next hfull =>
      have hlen8 : (hdr ++ c.unread.take count).length = 8 := by omega
      -- the header is complete: the nested calls are those of `processHeader_spec`
      have hbt : (enterRecord (c.moveNext count)).Between :=
        ⟨⟨hbuf.isReader, hbuf.rdNext_le, hbuf.buffStop_le, hbuf.bufflen_pos⟩, h.isClosed, rfl⟩
      obtain ⟨x, hx, hproc⟩ := processHeader_spec hf hbt rfl
        (Header.ofBytes (hdr ++ c.unread.take count))
      have hview : (enterRecord (c.moveNext count)).view = (c.fillView hdr).enterRecord := by
        rw [View.enterRecord, hinput, List.drop_left' hlen8]
        simp [Chan.view, enterRecord, Chan.fillView, Chan.unread, Chan.moveNext, h.isClosed]
      have htake8 : (c.fillView hdr).input.take 8 = hdr ++ c.unread.take count := by
        rw [hinput, List.take_left' hlen8]
      have hlong : ¬(c.fillView hdr).input.length < 8 := by
        rw [hinput, List.length_append]
        omega
      rw [onHeader, if_neg (by simp [Chan.fillView, h.eorStop]), if_neg hlong, htake8,
        ← hview] at hadv
      have hx' : processHeader fill (Header.ofBytes (hdr ++ c.unread.take count))
        (enterRecord { c with stream := { c.stream with rdNext := c.stream.rdNext + count } }) =
          some x := hx
      rw [hx', ← hadv]
      refine onStatus_spec hproc (Nat.lt_of_le_of_lt ?_ hunread)
      have hle := processHeaderView_input_le (Header.ofBytes (hdr ++ c.unread.take count))
        (enterRecord (c.moveNext count)).view
      rw [← hproc.view_eq] at hle
      exact hle

/-- One pass of the loop of `FillBuffProc`. -/
theorem fillBuffProcBody_spec {fill : Chan → Option Chan} {eor : Bool} {r : Stop × View}
    (hf : eor = false → FillSpec fill true) {x : List UInt8 × Chan} (h : Filling eor r x.1 x.2) :
    FillPass eor r x.2.unread.length (fillBuffProcBody fill x) := by
  unfold fillBuffProcBody
  have h₁ := refill_spec h
  cases hs₁ : refill x.2 with
  | leave c => exact .inl ⟨c, rfl, by rw [hs₁] at h₁; exact h₁⟩
  | loop c => exact .inr ⟨(x.1, c), rfl, by rw [hs₁] at h₁; exact h₁⟩
  | next c₁ =>
      rw [hs₁] at h₁
      obtain ⟨h₁, hlt, hunread⟩ := h₁
      have h₂ := passContent_spec h₁ hlt
      rw [hunread] at h₂
      dsimp only
      cases hs₂ : passContent c₁ with
      | leave c => exact .inl ⟨c, rfl, by rw [hs₂] at h₂; exact h₂⟩
      | loop c => exact .inr ⟨(x.1, c), rfl, by rw [hs₂] at h₂; exact h₂⟩
      | next c₂ =>
          rw [hs₂] at h₂
          have h₃ := passPadding_spec h₂
          dsimp only
          cases hs₃ : passPadding c₂ with
          | leave c => exact .inl ⟨c, rfl, by rw [hs₃] at h₃; exact h₃⟩
          | loop c => exact .inr ⟨(x.1, c), rfl, by rw [hs₃] at h₃; exact h₃⟩
          | next c₃ =>
              rw [hs₃] at h₃
              obtain ⟨h₃, hp⟩ := h₃
              have h₄ := checkEor_spec h₃ hp
              dsimp only
              cases hs₄ : checkEor c₃ with
              | leave c => exact .inl ⟨c, rfl, by rw [hs₄] at h₄; exact h₄⟩
              | loop c => exact .inr ⟨(x.1, c), rfl, by rw [hs₄] at h₄; exact h₄⟩
              | next c₄ =>
                  rw [hs₄] at h₄
                  obtain ⟨rfl, rfl⟩ := h₄
                  exact passHeader_spec (hf rfl) h₃ hp

/-- A fill procedure that loops with another one for its nested calls. -/
theorem fillSpec_run {fill : Chan → Option Chan} {eor : Bool}
    (hf : eor = false → FillSpec fill true) :
    FillSpec (fun c => run (fillBuffProcBody fill) (c.unread.length + 1) ([], c)) eor := by
  intro c ho hs he
  refine run_total (fun x : List UInt8 × Chan => Filling eor (advance c.view) x.1 x.2)
    (Chan.Settled (advance c.view)) (fun x => x.2.unread.length)
    (fun _ hx => fillBuffProcBody_spec hf hx) ?_ (Nat.lt_succ_self _)
  exact ⟨ho.toBuffered, ho.isClosed, he,
    by rw [advance_eq, Chan.view_eq_fillView ho.isClosed (Nat.le_of_eq hs.symm)],
    Nat.succ_pos 7, fun hne => absurd rfl hne⟩

/-- Under `eorStop` the fill procedure needs no nested call. -/
theorem fillSpec_eorStop (d : ℕ) : FillSpec (fillBuffProcAt (d + 1)) true :=
  fillSpec_run fun h => nomatch h

/-- **`FillBuffProc`** does what `advance` says. -/
theorem fillSpec_fillBuffProc : FillSpec fillBuffProc false :=
  fillSpec_run fun _ => fillSpec_eorStop 0

end FastCgi
