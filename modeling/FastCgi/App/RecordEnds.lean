import FastCgi.App.Reassembly

/-!
How a stream ends, on any wire.

The wire of a reader is a sequence of whole records that leave the stream
open, and what is behind them: the header of the empty record that ends the
stream, or anything else, and then the stream ends with an error
(`delivers_records`). So `FCGI_errno` tells the two apart, which
`FCGX_GetChar` does not.
-/

namespace FastCgi

/-! ### Headers of one stream -/

/-- A header that disturbs no other record: records of other requests have content,
and management records that the library does not know have none. -/
def Header.Tidy (R : ℕ) (h : Header) : Prop :=
  (h.contentLength = 0 → h.requestId = fcgiNullRequestId ∨ h.requestId = R) ∧
    (h.requestId = fcgiNullRequestId → h.type.toNat ≠ fcgiBeginRequest →
      h.type.toNat ≠ fcgiGetValues → h.contentLength = 0)

/-- The content of the stream of type `T` of request `R` that is there at the front
of `part`. -/
def arrived (T R : ℕ) (part : List UInt8) : List UInt8 :=
  let h := Header.ofBytes part
  if 8 ≤ part.length ∧ h.version = fcgiVersion1 ∧ h.type.toNat = T ∧ h.requestId = R then
    (part.drop 8).take h.contentLength
  else []

theorem arrived_bytes (T R : ℕ) (h : Header) (tail : List UInt8) :
    arrived T R (h.bytes ++ tail) =
      if h.version = fcgiVersion1 ∧ h.type.toNat = T ∧ h.requestId = R then
        tail.take h.contentLength
      else [] := by
  have hlen : 8 ≤ (h.bytes ++ tail).length := by simp
  simp only [arrived, Header.ofBytes_bytes_append, hlen, true_and,
    List.drop_left' h.length_bytes]

theorem arrived_short {T R : ℕ} {part : List UInt8} (h : part.length < 8) :
    arrived T R part = [] := if_neg fun hlen => absurd hlen.1 (by omega)

/-! ### Records that are not there as a whole -/

/-- In a record that is cut off the reader delivers what is there, or fails. -/
theorem advance_cut {u : View} (hlen : u.input.length < u.contentLen + u.paddingLen) :
    u.Ready ∧ advance u = (.ready, u) ∨
      (u.skip = true ∨ u.input.take u.contentLen = []) ∧
        (advance u).1 = .closed ∧ (advance u).2.errno ≠ 0 := by
  have hpad : ∀ w : View, w.input.length < w.paddingLen →
      (onPadding (onHeader advance) w).1 = .closed ∧
        (onPadding (onHeader advance) w).2.errno ≠ 0 := by
    intro w hw
    rw [onPadding, if_pos hw]
    exact ⟨rfl, readFails_errno_ne_zero w⟩
  by_cases hready : u.Ready
  · exact .inl ⟨hready, advance_ready hready⟩
  · refine .inr ?_
    rw [advance_eq, onInput]
    by_cases hi : u.input = []
    · rw [if_pos hi]
      exact ⟨.inr (by simp [hi]), rfl, readFails_errno_ne_zero u⟩
    · rw [if_neg hi, onContent]
      by_cases hc : u.contentLen = 0
      · rw [if_pos hc]
        exact ⟨.inr (by simp [hc]), hpad u (by omega)⟩
      · have hs : u.skip = true := by
          by_contra hs
          exact hready ⟨Nat.pos_of_ne_zero hc, by simpa using hs, hi⟩
        rw [if_neg hc, if_neg (by simp [hs])]
        refine ⟨.inl hs, ?_⟩
        by_cases hshort : u.input.length < u.contentLen
        · rw [if_pos hshort]
          exact ⟨rfl, readFails_errno_ne_zero u⟩
        · rw [if_neg hshort]
          refine hpad _ ?_
          show (u.input.drop u.contentLen).length < u.paddingLen
          rw [List.length_drop]
          omega

theorem Delivers.cut {u e : View} {bs : List UInt8} (hd : Delivers u bs e)
    (hlen : u.input.length < u.contentLen + u.paddingLen) :
    e.errno ≠ 0 ∧ bs = if u.skip then [] else u.input.take u.contentLen := by
  induction hd with
  | @stop v e hadv =>
      rcases advance_cut hlen with ⟨-, hadv'⟩ | ⟨hnone, -, herrno⟩
      · rw [hadv] at hadv'
        cases hadv'
      · rw [hadv] at herrno
        refine ⟨herrno, ?_⟩
        split
        · rfl
        · next hs => exact (hnone.resolve_left hs).symm
  | @byte v v' e b bs input hadv hb _ ih =>
      rcases advance_cut hlen with ⟨hready, hadv'⟩ | ⟨-, hclosed, -⟩
      · rw [hadv] at hadv'
        cases hadv'
        have hc := hready.1
        have hrest : (v.consume 1).input = input := by simp [View.consume, hb]
        have hlen' : (v.consume 1).input.length <
            (v.consume 1).contentLen + (v.consume 1).paddingLen := by
          rw [hrest]
          rw [hb, List.length_cons] at hlen
          show input.length < (v.contentLen - 1) + v.paddingLen
          omega
        obtain ⟨herrno, hbs⟩ := ih hlen'
        rw [hrest] at hbs
        refine ⟨herrno, ?_⟩
        have hs : (v.consume 1).skip = false := hready.2.1
        rw [hs, if_neg (by decide)] at hbs
        obtain ⟨n, hn⟩ := Nat.exists_eq_succ_of_ne_zero (Nat.ne_of_gt hc)
        rw [hready.2.1, if_neg (by decide), hb, hbs, hn, List.take_succ_cons]
        simp [View.consume, hn]
      · rw [hadv] at hclosed
        cases hclosed

/-- A query that is cut off ends with an error. -/
theorem eorContent_cut {u : View} (hlen : u.input.length < u.contentLen + u.paddingLen) :
    (eorContent u).2.errno ≠ 0 := by
  have hpad : ∀ w : View, w.contentLen = 0 → w.input.length < w.paddingLen →
      (advanceEor w).2.errno ≠ 0 := by
    intro w hc hw
    rw [advanceEor, onInput]
    split
    · exact readFails_errno_ne_zero w
    · rw [onContent, if_pos hc, onPadding, if_pos hw]
      exact readFails_errno_ne_zero w
  by_cases hready : u.Ready
  · rw [eorContent_ready hready]
    show (advanceEor (u.consume u.present)).2.errno ≠ 0
    by_cases hshort : u.input.length ≤ u.contentLen
    · have hnil : (u.consume u.present).input = [] := by
        simp only [View.consume_input, View.present]
        exact List.drop_eq_nil_of_le (by omega)
      rw [advanceEor, onInput, if_pos hnil]
      exact readFails_errno_ne_zero _
    · refine hpad _ ?_ ?_
      · simp only [View.consume_contentLen, View.present]
        omega
      · simp only [View.consume_input, View.present, List.length_drop]
        show u.input.length - min u.contentLen u.input.length < u.paddingLen
        omega
  · rw [eorContent_of_not_ready hready]
    show (advanceEor u).2.errno ≠ 0
    by_cases hi : u.input = []
    · rw [advanceEor, onInput, if_pos hi]
      exact readFails_errno_ne_zero u
    · by_cases hc : u.contentLen = 0
      · exact hpad u hc (by omega)
      · have hs : u.skip = true := by
          by_contra hs
          exact hready ⟨Nat.pos_of_ne_zero hc, by simpa using hs, hi⟩
        rw [advanceEor, onInput, if_neg hi, onContent, if_neg hc, if_neg (by simp [hs])]
        by_cases hshort : u.input.length < u.contentLen
        · rw [if_pos hshort]
          exact readFails_errno_ne_zero u
        · rw [if_neg hshort]
          have hrest : (u.input.drop u.contentLen).length < u.paddingLen := by
            rw [List.length_drop]
            omega
          rw [onPadding, if_pos hrest]
          exact readFails_errno_ne_zero _

theorem readQuery_errno_of_eorContent {u : View} (h : (eorContent u).2.errno ≠ 0) :
    (readQuery u).2.errno ≠ 0 := by
  unfold readQuery
  split
  · exact h
  · exact setError_errno_pos _ (by decide)
  · exact setError_errno_pos _ (by decide)

/-! ### What a header leads to -/

/-- The header of a record that begins a request. -/
def Header.Begins (h : Header) : Prop :=
  h.type.toNat = fcgiBeginRequest ∧ h.requestId ≠ fcgiNullRequestId ∧ h.contentLength = 8

/-- What a reader makes of a header with `tail` behind it: the stream ends, or the
record's content is delivered or skipped, and the reader gets past the record if
all of it is there, or a query is read, or the stream fails. -/
inductive HeaderCase (v : View) (h : Header) (tail : List UInt8) : Prop
  | ends (hends : h.Ends v.type v.req.requestId)
      (hadv : advance (v.facing (h.bytes ++ tail)) =
        (.closed, { v with input := tail, closed := true }))
  | content {skip : Bool} {os : Os}
      (hadv : advance (v.facing (h.bytes ++ tail)) =
        advance { v.atHeader h tail with skip := skip, os := os })
      (hskip : skip = true ∧ (h.type.toNat = v.type → h.requestId ≠ v.req.requestId) ∨
        skip = v.skip ∧
          (h.type.toNat = v.type ∧ h.requestId = v.req.requestId ∨
            h.requestId = fcgiNullRequestId ∧ h.type.toNat ≠ fcgiBeginRequest ∧
              h.type.toNat ≠ fcgiGetValues))
      (hpass : ∀ r : Record, r.header = h → ∃ bs w, Passes v r bs w)
  | query (htype : h.type.toNat = fcgiGetValues) (hid : h.requestId = fcgiNullRequestId)
      (hadv : advance (v.facing (h.bytes ++ tail)) =
        onStatusView advance (answerQuery (readQuery (v.inHeader h tail))).1
          (answerQuery (readQuery (v.inHeader h tail))).2.leaveRecord)
  | fails {e : View} (hadv : advance (v.facing (h.bytes ++ tail)) = (.closed, e))
      (herrno : e.errno ≠ 0) (hinput : e.input = tail)
      (hforeign : h.type.toNat = v.type → h.requestId = v.req.requestId →
        h.requestId = fcgiNullRequestId)

theorem View.Boundary.leaveRecord_inHeader {v : View} (hb : v.Boundary) (h : Header)
    (tail : List UInt8) : (v.inHeader h tail).leaveRecord = v.atHeader h tail := by
  simp [View.inHeader, View.leaveRecord, View.atHeader, hb.eorStop, hb.closed]

/-- A reply is sent, or the stream fails. -/
theorem onStatusView_reply {v : View} (hb : v.Boundary) (h : Header) (tail : List UInt8)
    (reply : List UInt8) (ok : Status) (hok : ok = .skip ∨ ok = .mgmtRecord) :
    (∃ os, writeItAll v.os reply = (.ok (), os) ∧
        onStatusView advance (sendReplyView reply ok (v.inHeader h tail)).1
          (sendReplyView reply ok (v.inHeader h tail)).2.leaveRecord =
        advance { v.atHeader h tail with skip := ok = .skip || v.skip, os := os }) ∨
      ∃ e, onStatusView advance (sendReplyView reply ok (v.inHeader h tail)).1
        (sendReplyView reply ok (v.inHeader h tail)).2.leaveRecord = (.closed, e) ∧
        e.errno ≠ 0 ∧ e.input = tail := by
  unfold sendReplyView
  split
  · next err os hwrite =>
      exact .inr ⟨_, rfl, setError_errno_pos _ (by decide), rfl⟩
  · next os hwrite =>
      refine .inl ⟨os, hwrite, ?_⟩
      rcases hok with rfl | rfl <;>
        simp [onStatusView, View.inHeader, View.leaveRecord, View.atHeader, hb.eorStop, hb.closed]

section HeaderCase

variable {v : View} {h : Header} {tail : List UInt8}

theorem headerCase_error {e : ℤ} (he : e ≠ 0)
    (hforeign : h.type.toNat = v.type → h.requestId = v.req.requestId →
      h.requestId = fcgiNullRequestId)
    (hadv : advance (v.facing (h.bytes ++ tail)) =
      onStatusView advance (.error e) (v.inHeader h tail).leaveRecord) : HeaderCase v h tail :=
  .fails hadv (setError_errno_pos _ he) rfl hforeign

/-- Behind the header of a record that begins a request. -/
theorem headerCase_begin (hb : v.Boundary) (hbt : h.type.toNat = fcgiBeginRequest)
    (hbegin : v.req.isBeginProcessed = false → ¬h.Begins) (htype : v.type ≠ fcgiBeginRequest)
    (hadv : advance (v.facing (h.bytes ++ tail)) =
      onStatusView advance (processBeginView h.requestId (v.inHeader h tail)).1
        (processBeginView h.requestId (v.inHeader h tail)).2.leaveRecord) :
    HeaderCase v h tail := by
  have hother : h.type.toNat ≠ v.type := fun ht => htype (ht.symm.trans hbt)
  unfold processBeginView at hadv
  split at hadv
  · exact headerCase_error (by decide) (fun ht => absurd ht hother) hadv
  · next hok =>
      have hid : h.requestId ≠ 0 := fun h0 => hok (.inl h0)
      have hlen : h.contentLength = 8 := by
        by_contra hne
        exact hok (.inr hne)
      split at hadv
      · next hbegun =>
          rcases onStatusView_reply hb h tail (cantMpxReply h.requestId) .skip (.inl rfl)
            with ⟨os, hwrite, hreply⟩ | ⟨e, hreply, herrno, hinput⟩
          · refine .content (hadv.trans hreply) (.inl ⟨by simp, fun ht => absurd ht hother⟩) ?_
            rintro r rfl
            simp only [Record.header_type, Record.header_requestId,
              Record.header_contentLength] at hbt hid hlen hwrite
            exact ⟨_, _, .multiplexed hbt hid hlen hbegun hwrite⟩
          · exact .fails (hadv.trans hreply) herrno hinput fun ht => absurd ht hother
      · next hbegun =>
          have hunbegun : v.req.isBeginProcessed = false := by
            simpa [View.inHeader, View.atHeader] using hbegun
          exact absurd ⟨hbt, hid, hlen⟩ (hbegin hunbegun)

/-- Behind the header of a management record. -/
theorem headerCase_management (hb : v.Boundary) (hbt : h.type.toNat ≠ fcgiBeginRequest)
    (hid : h.requestId = fcgiNullRequestId)
    (hadv : advance (v.facing (h.bytes ++ tail)) =
      onStatusView advance (processManagementView h.type.toNat (v.inHeader h tail)).1
        (processManagementView h.type.toNat (v.inHeader h tail)).2.leaveRecord) :
    HeaderCase v h tail := by
  unfold processManagementView at hadv
  split at hadv
  · next hq => exact .query hq hid hadv
  · next hq =>
      rcases onStatusView_reply hb h tail (unknownTypeReply h.type.toNat) .mgmtRecord (.inr rfl)
        with ⟨os, hwrite, hreply⟩ | ⟨e, hreply, herrno, hinput⟩
      · refine .content (hadv.trans hreply) (.inr ⟨by simp, .inr ⟨hid, hbt, hq⟩⟩) ?_
        rintro r rfl
        simp only [Record.header_type, Record.header_requestId] at hbt hid hq hwrite
        exact ⟨_, _, .unknown hbt hid hq hwrite⟩
      · exact .fails (hadv.trans hreply) herrno hinput fun _ _ => hid

/-- Behind the header of a record of the stream. -/
theorem headerCase_own (hb : v.Boundary) (hversion : h.version = fcgiVersion1)
    (hbt : h.type.toNat ≠ fcgiBeginRequest) (hid : h.requestId ≠ fcgiNullRequestId)
    (hreq : h.requestId = v.req.requestId) (hown : h.type.toNat = v.type)
    (hadv : advance (v.facing (h.bytes ++ tail)) =
      onStatusView advance .streamRecord (v.inHeader h tail).leaveRecord) :
    HeaderCase v h tail := by
  rw [hb.leaveRecord_inHeader] at hadv
  by_cases hc : h.contentLength = 0
  · -- an empty record ends the stream, and `paddingLen` is set to zero
    refine .ends ⟨hversion, hown, hreq, hc⟩ ?_
    rw [onStatusView, if_pos (show (v.atHeader h tail).contentLen = 0 from hc)] at hadv
    rw [hadv]
    simp [View.atHeader, hc, hb.contentLen, hb.paddingLen]
  · rw [onStatusView, if_neg (show ¬(v.atHeader h tail).contentLen = 0 from hc)] at hadv
    refine @HeaderCase.content v h tail v.skip v.os hadv (.inr ⟨rfl, .inl ⟨hown, hreq⟩⟩) ?_
    rintro r rfl
    simp only [Record.header_type, Record.header_requestId,
      Record.header_contentLength] at hbt hid hreq hown hc
    exact ⟨_, _, .own hbt hid hreq hown (by simpa using hc)⟩

end HeaderCase

theorem headerCase {v : View} (hb : v.Boundary) {h : Header} (hversion : h.version = fcgiVersion1)
    (hbegin : v.req.isBeginProcessed = false → ¬h.Begins) (htype : v.type ≠ fcgiBeginRequest)
    (tail : List UInt8) : HeaderCase v h tail := by
  have hadv := hb.advance_header hversion tail
  unfold dispatchView at hadv
  split at hadv
  · next hbt => exact headerCase_begin hb hbt hbegin htype hadv
  · next hbt =>
      split at hadv
      · next hid => exact headerCase_management hb hbt hid hadv
      · next hid =>
          split at hadv
          · next hreq =>
              -- another request: the content is skipped
              rw [hb.leaveRecord_inHeader] at hadv
              refine @HeaderCase.content v h tail true v.os hadv (.inl ⟨rfl, fun _ => hreq⟩) ?_
              rintro r rfl
              simp only [Record.header_type, Record.header_requestId] at hbt hid hreq
              exact ⟨_, _, .foreign hbt hid hreq⟩
          · next hreq =>
              have hreq : h.requestId = v.req.requestId := by
                simpa [View.inHeader, View.atHeader] using hreq
              split at hadv
              · next hother =>
                  exact headerCase_error (by decide) (fun ht => absurd ht hother) hadv
              · next hown =>
                  have hown : h.type.toNat = v.type := by
                    simpa [View.inHeader, View.atHeader] using hown
                  exact headerCase_own hb hversion hbt hid hreq hown hadv

/-! ### The part where a stream fails -/

/-- A query that is not read to its end, or not parsed, closes the stream. -/
theorem onStatusView_query {u : View} (h : (readQuery u).2.errno ≠ 0) :
    ∃ e, onStatusView advance (answerQuery (readQuery u)).1
        (answerQuery (readQuery u)).2.leaveRecord = (.closed, e) ∧
      e.errno ≠ 0 ∧ e.input = (readQuery u).2.input := by
  refine ⟨((readQuery u).2.leaveRecord).setError fcgxProtocolError, ?_, ?_, rfl⟩
  · rw [answerQuery, if_pos h]
    rfl
  · exact setError_errno_pos _ (by decide)

/-- Reading to the end of a record takes no more than the record. -/
theorem advanceEor_input_ge (u : View) :
    u.input.length ≤ (advanceEor u).2.input.length + u.contentLen + u.paddingLen := by
  have hpad : ∀ w : View, w.paddingLen = u.paddingLen →
      w.input.length ≤ (onPadding (fun v => (.closed, { v with closed := true })) w).2.input.length +
        u.paddingLen := by
    intro w hw
    unfold onPadding
    split
    · show w.input.length ≤ 0 + u.paddingLen
      omega
    · simp only [List.length_drop]
      omega
  unfold advanceEor onInput
  split
  · next hi => simp [hi]
  · unfold onContent
    split
    · have := hpad u rfl
      omega
    · split
      · show u.input.length ≤ u.input.length + _ + _
        omega
      · split
        · show u.input.length ≤ 0 + _ + _
          omega
        · have := hpad { u with
            input := u.input.drop u.contentLen, contentLen := 0, skip := false } rfl
          simp only [List.length_drop] at this
          omega

theorem readQuery_input_ge (u : View) :
    u.input.length ≤ (readQuery u).2.input.length + u.contentLen + u.paddingLen := by
  have hend : u.input.length ≤ (eorContent u).2.input.length + u.contentLen + u.paddingLen := by
    by_cases hready : u.Ready
    · rw [eorContent_ready hready]
      have h := advanceEor_input_ge (u.consume u.present)
      have hlen : u.present ≤ u.contentLen := Nat.min_le_left _ _
      have hle : u.present ≤ u.input.length := Nat.min_le_right _ _
      have hpad : (u.consume u.present).paddingLen = u.paddingLen := rfl
      simp only [View.consume_input, View.consume_contentLen, List.length_drop, hpad] at h
      show _ ≤ (advanceEor (u.consume u.present)).2.input.length + _ + _
      omega
    · rw [eorContent_of_not_ready hready]
      exact advanceEor_input_ge u
  unfold readQuery
  split
  · exact hend
  · exact hend
  · next ps rest hbad =>
      by_cases hready : u.Ready
      · rw [advanceEor_ready hready, eorContent_ready hready]
        have hlen : u.present ≤ u.contentLen := Nat.min_le_left _ _
        simp only [View.setError_input, View.consume_input, List.length_drop, List.length_take]
        omega
      · rw [eorContent_of_not_ready hready] at hbad
        cases hbad

/-- A query that is read without an error has been parsed. -/
theorem readQuery_parsed {u : View} (h : (readQuery u).2.errno = 0) :
    parsePairs (eorContent u).1 = ((readQuery u).1, none) := by
  unfold readQuery at h ⊢
  split at h
  · next ps hps => rw [hps]
  · exact absurd h (setError_errno_pos _ (by decide))
  · exact absurd h (setError_errno_pos _ (by decide))

/-- A query, all of which is there: the reader gets past it, or the stream fails. -/
theorem passes_or_fails_query {v : View} (hb : v.Boundary) {r : Record}
    (htype : r.type.toNat = fcgiGetValues) (hid : r.requestId.toNat = fcgiNullRequestId)
    {post : List UInt8}
    (hadv : advance (v.facing (r.encode ++ post)) =
      onStatusView advance (answerQuery (readQuery (v.entered r post))).1
        (answerQuery (readQuery (v.entered r post))).2.leaveRecord) :
    (∃ bs w, Passes v r bs w) ∨
      ∃ e, advance (v.facing (r.encode ++ post)) = (.closed, e) ∧ e.errno ≠ 0 ∧
        post.length ≤ e.input.length := by
  have hge := readQuery_input_ge (v.entered r post)
  have hlen : (v.entered r post).input.length =
      r.content.length + (r.padding.length + post.length) := by
    simp [View.entered, View.inRecord]
  have hrest : post.length ≤ (readQuery (v.entered r post)).2.input.length := by
    simp only [View.entered, View.inRecord] at hge hlen ⊢
    omega
  by_cases herrno : (readQuery (v.entered r post)).2.errno = 0
  · have hcontent : (eorContent (v.entered r post)).1 = v.visible r := by
      by_cases hmore : r.padding ++ post = []
      · obtain ⟨hp, rfl⟩ := List.append_eq_nil_iff.mp hmore
        exact (eorContent_entered_nil hb hp).1
      · rw [eorContent_entered hb hmore]
    have hzero : v.errno = 0 := by
      by_contra hne
      exact readQuery_errno (v := v.entered r post) hne herrno
    have hos : (readQuery (v.entered r post)).2.os = v.os := readQuery_os _
    have hquery := readQuery_parsed herrno
    rw [hcontent] at hquery
    rw [answerQuery, if_neg (not_not_intro herrno), hos] at hadv
    generalize (readQuery (v.entered r post)).1 = query at hquery hadv
    cases hwrite : writeItAll v.os (getValuesReply v.os.stale (query.map NameValue.entry)) with
    | mk res os =>
        cases res with
        | ok => exact .inl ⟨_, _, .getValues htype hid hquery hzero hwrite⟩
        | error e =>
            rw [sendReplyView, hos, hwrite] at hadv
            exact .inr ⟨_, hadv, setError_errno_pos _ (by decide), hrest⟩
  · obtain ⟨e, hclosed, herrno, hinput⟩ := onStatusView_query herrno
    refine .inr ⟨e, hadv.trans hclosed, herrno, ?_⟩
    rwa [hinput]

/-- A record, all of which is there: the reader gets past it, or it ends the stream,
or the stream fails. -/
theorem passes_or_fails {v : View} (hb : v.Boundary) (htype : v.type ≠ fcgiBeginRequest)
    {r : Record} (hbegin : v.req.isBeginProcessed = false → ¬r.header.Begins)
    (hends : ¬r.header.Ends v.type v.req.requestId) (post : List UInt8) :
    (∃ bs w, Passes v r bs w) ∨
      (r.header.type.toNat = v.type → r.header.requestId = v.req.requestId →
        r.header.requestId = fcgiNullRequestId) ∧
        ∃ e, advance (v.facing (r.encode ++ post)) = (.closed, e) ∧ e.errno ≠ 0 ∧
          post.length ≤ e.input.length := by
  have hentered : v.inHeader r.header (r.content ++ (r.padding ++ post)) = v.entered r post := by
    simp [View.inHeader, View.atHeader, View.entered, View.inRecord]
  rw [encode_append_eq]
  cases headerCase hb r.header_version hbegin htype (r.content ++ (r.padding ++ post)) with
  | ends h _ => exact absurd h hends
  | content _ _ hpass => exact .inl (hpass r rfl)
  | fails hadv herrno hinput hforeign =>
      refine .inr ⟨hforeign, _, hadv, herrno, ?_⟩
      rw [hinput]
      simp only [List.length_append]
      omega
  | query hq hid hadv =>
      rw [hentered, ← encode_append_eq] at hadv
      rw [← encode_append_eq]
      rcases passes_or_fails_query hb (r.header_type ▸ hq) (r.header_requestId ▸ hid) hadv with
        hpass | hfails
      · exact .inl hpass
      · exact .inr ⟨fun _ _ => hid, hfails⟩

/-- A stream fails in a record that is cut off, after what is there of the record's
content. -/
theorem delivers_cut {v e : View} (hb : v.Boundary) (hs : v.skip = false)
    (hbegun : v.req.isBeginProcessed = true) (htype : v.type ≠ fcgiBeginRequest)
    (hid : v.req.requestId ≠ fcgiNullRequestId) {h : Header} (hversion : h.version = fcgiVersion1)
    (htidy : h.Tidy v.req.requestId) (hends : ¬h.Ends v.type v.req.requestId) {tail : List UInt8}
    (hcut : tail.length < h.contentLength + h.paddingLength.toNat) {bs : List UInt8}
    (hd : Delivers (v.facing (h.bytes ++ tail)) bs e) :
    e.errno ≠ 0 ∧ bs = arrived v.type v.req.requestId (h.bytes ++ tail) := by
  rw [arrived_bytes]
  have hclosed : ∀ {e' : View}, advance (v.facing (h.bytes ++ tail)) = (.closed, e') →
      bs = [] ∧ e = e' := fun hadv => hd.unique (.stop hadv)
  cases headerCase hb hversion (fun h0 => by rw [hbegun] at h0; cases h0) htype tail with
  | ends h _ => exact absurd h hends
  | fails hadv herrno _ hforeign =>
      obtain ⟨rfl, rfl⟩ := hclosed hadv
      refine ⟨herrno, ?_⟩
      rw [if_neg]
      rintro ⟨-, ht, hr⟩
      exact hid (hr.symm.trans (hforeign ht hr))
  | query hq h0 hadv =>
      have herrno : (readQuery (v.inHeader h tail)).2.errno ≠ 0 :=
        readQuery_errno_of_eorContent (eorContent_cut (u := v.inHeader h tail) hcut)
      obtain ⟨e', hlast, herrno', -⟩ := onStatusView_query herrno
      obtain ⟨rfl, rfl⟩ := hclosed (hadv.trans hlast)
      refine ⟨herrno', ?_⟩
      rw [if_neg]
      rintro ⟨-, -, hr⟩
      exact hid (hr.symm.trans h0)
  | @content skip os hadv hskip hpass =>
      rw [Delivers.congr hadv] at hd
      obtain ⟨herrno, hcontent⟩ := hd.cut hcut
      have hbs : bs = if skip then [] else tail.take h.contentLength := hcontent
      refine ⟨herrno, hbs.trans ?_⟩
      rcases hskip with ⟨rfl, hforeign⟩ | ⟨rfl, ⟨ht, hr⟩ | ⟨h0, hbt, hq⟩⟩
      · rw [if_pos rfl, if_neg]
        rintro ⟨-, ht, hr⟩
        exact hforeign ht hr
      · rw [hs, if_neg (by decide), if_pos ⟨hversion, ht, hr⟩]
      · rw [hs, if_neg (by decide), htidy.2 h0 hbt hq, List.take_zero, if_neg]
        rintro ⟨-, -, hr⟩
        exact hid (hr.symm.trans h0)

/-! ### A stream and its end -/

/-- The records of the stream of type `T` of request `R` can be told from the others
on this wire, up to the end of the stream. -/
def TidyWire (T R : ℕ) (wire : List UInt8) : Prop :=
  ∀ (rs : List Record) (h : Header) (tail : List UInt8),
    wire = encodeAll rs ++ (h.bytes ++ tail) → (∀ r ∈ rs, ¬r.Ends T R) →
    h.version = fcgiVersion1 → h.Tidy R

theorem TidyWire.header {T R : ℕ} {h : Header} {tail : List UInt8}
    (hw : TidyWire T R (h.bytes ++ tail)) (hversion : h.version = fcgiVersion1) : h.Tidy R :=
  hw [] h tail rfl (fun _ hr => nomatch hr) hversion

theorem TidyWire.rest {T R : ℕ} {r : Record} {post : List UInt8}
    (hw : TidyWire T R (r.encode ++ post)) (hr : ¬r.Ends T R) : TidyWire T R post := by
  intro rs h tail hpost hrs hversion
  refine hw (r :: rs) h tail ?_ ?_ hversion
  · rw [encodeAll_cons, List.append_assoc, hpost]
  · intro r' hr'
    rcases List.mem_cons.mp hr' with rfl | hmem
    · exact hr
    · exact hrs r' hmem

theorem streamContents_cons (T R : ℕ) (r : Record) (rs : List Record) :
    streamContents T R (r :: rs) = streamContents T R [r] ++ streamContents T R rs := by
  by_cases h : r.type.toNat = T ∧ r.requestId.toNat = R <;> simp [streamContents, h]

/-- A record that is tidy adds its content to the stream it belongs to, and leaves
nothing behind for the next one. -/
theorem Passes.tidy {v w : View} {r : Record} {bs : List UInt8} (h : Passes v r bs w)
    (hs : v.skip = false) (htype : v.type ≠ fcgiBeginRequest)
    (hid : v.req.requestId ≠ fcgiNullRequestId) (htidy : r.header.Tidy v.req.requestId) :
    bs = streamContents v.type v.req.requestId [r] ∧ w.skip = false ∧
      ¬r.Ends v.type v.req.requestId := by
  obtain ⟨hempty, hmgmt⟩ := htidy
  simp only [Record.header_type, Record.header_requestId, Record.header_contentLength,
    List.length_eq_zero_iff] at hempty hmgmt
  have hother : r.requestId.toNat = fcgiNullRequestId →
      ¬(r.type.toNat = v.type ∧ r.requestId.toNat = v.req.requestId) :=
    fun h0 hown => hid (hown.2.symm.trans h0)
  cases h with
  | own _ _ hreq hown hne =>
      refine ⟨?_, by simp [View.passed, View.withSkip, hs], fun hends => hne hends.2.2⟩
      simp [streamContents, View.visible, hs, hown, hreq]
  | foreign _ h0 hreq =>
      have hne : r.content ≠ [] := fun hc => (hempty hc).elim h0 hreq
      exact ⟨by simp [streamContents, hreq], by simp [View.withSkip, hne],
        fun hends => hreq hends.2.1⟩
  | multiplexed hbt =>
      have hown : r.type.toNat ≠ v.type := fun ht => htype (ht.symm.trans hbt)
      exact ⟨by simp [streamContents, hown], rfl, fun hends => hown hends.1⟩
  | unknown hbt h0 hq =>
      have hc := hmgmt h0 hbt hq
      refine ⟨?_, by simp [View.withOs, View.passed, View.withSkip, hs],
        fun hends => hother h0 ⟨hends.1, hends.2.1⟩⟩
      simp [streamContents, hother h0, View.visible, hc]
  | getValues _ h0 =>
      refine ⟨by simp [streamContents, hother h0], by simp [View.withOs, View.passed, View.withSkip, hs],
        fun hends => hother h0 ⟨hends.1, hends.2.1⟩⟩

/-- The bytes `part` do not get a reader with view `w` anywhere: no record is there
as a whole that it gets past, and no header of the record that ends the stream. -/
structure Stuck (w : View) (part : List UInt8) : Prop where
  ends : ∀ h tail, part = Header.bytes h ++ tail → ¬h.Ends w.type w.req.requestId
  passes : ∀ r post bs w', part = Record.encode r ++ post → ¬Passes w r bs w'

/-- How a stream ends, behind the last record `w` that left it open: by the header of
an empty record, or with an error. -/
inductive StreamEnd (w : View) (part : List UInt8) (e : View) : List UInt8 → Prop
  | ended {h : Header} (hpart : part = h.bytes ++ e.input)
      (hends : h.Ends w.type w.req.requestId) (herrno : e.errno = w.errno) :
      StreamEnd w part e []
  | failed (hstuck : Stuck w part) (herrno : e.errno ≠ 0)
      (hrest : ∀ r post, part = Record.encode r ++ post → post.length ≤ e.input.length) :
      StreamEnd w part e (arrived w.type w.req.requestId part)

/-- Where there is no whole header the read fails. -/
theorem View.Boundary.advance_short {v : View} (hb : v.Boundary) {wire : List UInt8}
    (hlen : wire.length < 8) : advance (v.facing wire) = (.closed, (v.facing wire).readFails) := by
  by_cases hnil : wire = []
  · rw [hnil, advance_facing_nil]
  · rw [hb.advance_eq hnil, onHeader, if_neg (by simp [View.facing, hb.eorStop]),
      if_pos (by simpa using hlen)]

/-- Where there is not even a header, the stream fails. -/
theorem streamEnd_short {v e : View} (hb : v.Boundary) {wire bs : List UInt8}
    (hlen : wire.length < 8) (hd : Delivers (v.facing wire) bs e) : StreamEnd v wire e bs := by
  have hshort : ∀ h tail, wire ≠ Header.bytes h ++ tail := by
    rintro h tail rfl
    simp at hlen
  have hrecord : ∀ r post, wire ≠ Record.encode r ++ post := by
    intro r post hpart
    exact hshort _ _ (hpart.trans (encode_append_eq r post))
  obtain ⟨rfl, rfl⟩ := hd.unique (.stop (hb.advance_short hlen))
  rw [← arrived_short (T := v.type) (R := v.req.requestId) hlen]
  refine .failed ⟨?_, ?_⟩ (readFails_errno_ne_zero _) ?_
  · exact fun h tail hpart => absurd hpart (hshort h tail)
  · exact fun r post _ _ hpart => absurd hpart (hrecord r post)
  · exact fun r post hpart => absurd hpart (hrecord r post)

/-- The stream fails at a header that does not end it and is not followed by a record that the
reader gets past. -/
theorem streamEnd_header {v e : View} {h : Header} {tail : List UInt8}
    (hends : ¬h.Ends v.type v.req.requestId)
    (hpasses : ∀ r post bs w, h.bytes ++ tail = Record.encode r ++ post → ¬Passes v r bs w)
    (herrno : e.errno ≠ 0)
    (hrest : ∀ r post, h.bytes ++ tail = Record.encode r ++ post → post.length ≤ e.input.length) :
    StreamEnd v (h.bytes ++ tail) e (arrived v.type v.req.requestId (h.bytes ++ tail)) := by
  refine .failed ⟨fun h' tail' hpart => ?_, hpasses⟩ herrno hrest
  obtain ⟨rfl, rfl⟩ := header_append_inj hpart
  exact hends

/-- The end of a stream, on a wire whose first record does not leave it open. -/
theorem streamEnd_of_stuck {v e : View} (hb : v.Boundary) (hs : v.skip = false)
    (hbegun : v.req.isBeginProcessed = true) (htype : v.type ≠ fcgiBeginRequest)
    (hid : v.req.requestId ≠ fcgiNullRequestId)
    {wire : List UInt8} (hw : TidyWire v.type v.req.requestId wire)
    (hpasses : ∀ r post bs w, wire = Record.encode r ++ post → ¬Passes v r bs w)
    {bs : List UInt8} (hd : Delivers (v.facing wire) bs e) : StreamEnd v wire e bs := by
  by_cases hlen : wire.length < 8
  · exact streamEnd_short hb hlen hd
  obtain ⟨h, tail, rfl⟩ := exists_header (Nat.le_of_not_lt hlen)
  have hrecord : ∀ r post, h.bytes ++ tail = Record.encode r ++ post →
      h = r.header ∧ tail = r.content ++ (r.padding ++ post) := by
    intro r post hpart
    exact header_append_inj (hpart.trans (encode_append_eq r post))
  by_cases hversion : h.version = fcgiVersion1
  · by_cases hends : h.Ends v.type v.req.requestId
    · obtain ⟨rfl, rfl⟩ := hd.unique (.stop (hb.ends_header htype hid hends tail))
      exact .ended rfl hends rfl
    by_cases hcut : tail.length < h.contentLength + h.paddingLength.toNat
    · -- the record is cut off, so what is there of it is no whole record
      obtain ⟨herrno, rfl⟩ := delivers_cut hb hs hbegun htype hid hversion (hw.header hversion)
        hends hcut hd
      refine streamEnd_header hends hpasses herrno fun r post hpart => absurd hcut ?_
      obtain ⟨rfl, rfl⟩ := hrecord r post hpart
      simp only [Record.header_contentLength, Record.header_paddingLength, List.length_append]
      omega
    · -- the record is whole, so the stream fails in it
      obtain ⟨r, post, rfl, hr⟩ := exists_record hversion (Nat.le_of_not_lt hcut)
      rcases passes_or_fails hb htype (fun h0 => by rw [hbegun] at h0; cases h0) hends post with
        ⟨bs', w, hpass⟩ | ⟨hforeign, e', hadv, herrno, hle⟩
      · exact absurd hpass (hpasses r post bs' w hr)
      · rw [← hr] at hadv
        obtain ⟨rfl, rfl⟩ := hd.unique (.stop hadv)
        have hnone : arrived v.type v.req.requestId (r.header.bytes ++ tail) = [] := by
          rw [arrived_bytes, if_neg]
          rintro ⟨-, ht, hreq⟩
          exact hid (hreq.symm.trans (hforeign ht hreq))
        rw [← hnone]
        refine streamEnd_header hends hpasses herrno fun r' post' hpart => ?_
        obtain ⟨rfl, rfl⟩ := encode_append_inj (hpart.symm.trans hr)
        exact hle
  · have hadv := hb.advance_bytes h tail
    rw [processHeaderView, if_pos hversion] at hadv
    obtain ⟨rfl, rfl⟩ := hd.unique (.stop hadv)
    have hnone : arrived v.type v.req.requestId (h.bytes ++ tail) = [] := by
      rw [arrived_bytes, if_neg fun hown => hversion hown.1]
    rw [← hnone]
    refine streamEnd_header (fun hends => hversion hends.1) hpasses
      (setError_errno_pos _ (by decide)) fun r post hpart => ?_
    obtain ⟨rfl, -⟩ := hrecord r post hpart
    exact absurd r.header_version hversion

/-- **A stream and its end.** On a tidy wire a reader delivers the contents of the
stream's records, and then what there is of the record in which it fails, if it
fails. -/
theorem delivers_records {v e : View} (hb : v.Boundary) (hs : v.skip = false)
    (hbegun : v.req.isBeginProcessed = true) (htype : v.type ≠ fcgiBeginRequest)
    (hid : v.req.requestId ≠ fcgiNullRequestId) {wire : List UInt8}
    (hw : TidyWire v.type v.req.requestId wire) {bs : List UInt8}
    (hd : Delivers (v.facing wire) bs e) :
    ∃ rs part w last, wire = encodeAll rs ++ part ∧
      PassesAll v rs (streamContents v.type v.req.requestId rs) w ∧
      (∀ r ∈ rs, ¬r.Ends v.type v.req.requestId) ∧ StreamEnd w part e last ∧
      bs = streamContents v.type v.req.requestId rs ++ last := by
  induction hn : wire.length using Nat.strong_induction_on generalizing v wire bs e with
  | _ n ih =>
      by_cases hstuck : ∀ r post bs w, wire = Record.encode r ++ post → ¬Passes v r bs w
      · exact ⟨[], wire, v, bs, rfl, .nil, fun _ hr => (nomatch hr),
          streamEnd_of_stuck hb hs hbegun htype hid hw hstuck hd, rfl⟩
      · push Not at hstuck
        obtain ⟨r, post, bs₁, w, rfl, hpass⟩ := hstuck
        obtain ⟨rfl, hskip, hends⟩ := hpass.tidy hs htype hid
          (hw [] r.header (r.content ++ (r.padding ++ post)) (encode_append_eq r post)
            (fun _ hr => nomatch hr) r.header_version)
        have hreq := hpass.req_eq
        have hty := hpass.type_eq
        have hlen : post.length < n := by
          rw [List.length_append, Record.length_encode] at hn
          omega
        obtain ⟨bs₂, e₂, hd₂⟩ := delivers_total (v := w.facing post)
          (show w.req.isBeginProcessed = true by rw [hreq]; exact hbegun)
        obtain ⟨rs, part, u, last, rfl, hall, hne, hend, rfl⟩ := ih post.length hlen
          (hpass.boundary hb) hskip (by rw [hreq]; exact hbegun) (by rw [hty]; exact htype)
          (by rw [hreq]; exact hid) (by rw [hty, hreq]; exact hw.rest hends) hd₂ rfl
        rw [hty, hreq] at hall hne
        have hcontents := streamContents_cons v.type v.req.requestId r rs
        have hne' : ∀ r' ∈ r :: rs, ¬r'.Ends v.type v.req.requestId := by
          intro r' hr'
          rcases List.mem_cons.mp hr' with rfl | hmem
          · exact hends
          · exact hne r' hmem
        suffices hlast : StreamEnd u part e last ∧
            bs = streamContents v.type v.req.requestId [r] ++
              (streamContents v.type v.req.requestId rs ++ last) by
          refine ⟨r :: rs, part, u, last, by simp, ?_, hne', hlast.1, ?_⟩
          · rw [hcontents]
            exact .cons hpass hall
          · rw [hlast.2, hcontents, List.append_assoc]
        rw [hty, hreq] at hd₂
        rcases more_or_query r (encodeAll rs ++ part) with hmore | ⟨-, -, -, hnil⟩
        · obtain ⟨hbs, rfl⟩ := hd.unique (hpass.delivers hb hmore hd₂)
          exact ⟨hend, hbs⟩
        · -- a query at the very end is answered only where something is behind it
          obtain ⟨e', hd', herrno⟩ := hpass.delivers_errno hb hd₂
          obtain ⟨hbs, rfl⟩ := hd.unique hd'
          refine ⟨?_, hbs⟩
          obtain ⟨-, rfl⟩ := List.append_eq_nil_iff.mp hnil
          cases hend with
          | ended hpart => exact absurd hpart (by simp [Header.bytes])
          | failed hstuck herrno₂ _ =>
              refine .failed hstuck (by rw [herrno]; exact herrno₂) fun r post hpart => ?_
              exact absurd hpart.symm (by simp [r.encode_ne_nil])

/-! ### Streams that end without an error -/

/-- A stream that is cut off in a record ends with an error, on any wire. -/
theorem errno_of_cut {v e : View} (hb : v.Boundary) (hbegun : v.req.isBeginProcessed = true)
    (htype : v.type ≠ fcgiBeginRequest) {h : Header} (hversion : h.version = fcgiVersion1)
    (hends : ¬h.Ends v.type v.req.requestId) {tail : List UInt8}
    (hcut : tail.length < h.contentLength + h.paddingLength.toNat) {bs : List UInt8}
    (hd : Delivers (v.facing (h.bytes ++ tail)) bs e) : e.errno ≠ 0 := by
  cases headerCase hb hversion (fun h0 => by rw [hbegun] at h0; cases h0) htype tail with
  | ends h _ => exact absurd h hends
  | fails hadv herrno _ _ =>
      obtain ⟨-, rfl⟩ := hd.unique (.stop hadv)
      exact herrno
  | query _ _ hadv =>
      have herrno : (readQuery (v.inHeader h tail)).2.errno ≠ 0 :=
        readQuery_errno_of_eorContent (eorContent_cut (u := v.inHeader h tail) hcut)
      obtain ⟨e', hlast, herrno', -⟩ := onStatusView_query herrno
      obtain ⟨-, rfl⟩ := hd.unique (.stop (hadv.trans hlast))
      exact herrno'
  | content hadv _ _ =>
      rw [Delivers.congr hadv] at hd
      exact (hd.cut hcut).1

/-- **A stream that ends without an error** ends with the header of the empty record that
ends it, behind whole records. -/
theorem ends_of_errno {v e : View} (hb : v.Boundary) (hbegun : v.req.isBeginProcessed = true)
    (htype : v.type ≠ fcgiBeginRequest) (hid : v.req.requestId ≠ fcgiNullRequestId)
    {wire bs : List UInt8} (hd : Delivers (v.facing wire) bs e) (herrno : e.errno = 0) :
    ∃ rs h, wire = encodeAll rs ++ (Header.bytes h ++ e.input) ∧
      h.Ends v.type v.req.requestId := by
  induction hn : wire.length using Nat.strong_induction_on generalizing v wire bs with
  | _ n ih =>
      by_cases hlen : wire.length < 8
      · obtain ⟨-, rfl⟩ := hd.unique (.stop (hb.advance_short hlen))
        exact absurd herrno (readFails_errno_ne_zero _)
      · obtain ⟨h, tail, rfl⟩ := exists_header (Nat.le_of_not_lt hlen)
        by_cases hversion : h.version = fcgiVersion1
        · by_cases hends : h.Ends v.type v.req.requestId
          · obtain ⟨-, rfl⟩ := hd.unique (.stop (hb.ends_header htype hid hends tail))
            exact ⟨[], h, rfl, hends⟩
          · by_cases hcut : tail.length < h.contentLength + h.paddingLength.toNat
            · exact absurd herrno (errno_of_cut hb hbegun htype hversion hends hcut hd)
            · -- a whole record: the reader gets past it, and the stream goes on behind it
              obtain ⟨r, post, rfl, hr⟩ := exists_record hversion (Nat.le_of_not_lt hcut)
              rw [hr] at hd hn ⊢
              rcases passes_or_fails hb htype (fun h0 => by rw [hbegun] at h0; cases h0) hends post
                with ⟨bs', w, hpass⟩ | ⟨-, e', hadv, herrno', -⟩
              · have hreq := hpass.req_eq
                have hty := hpass.type_eq
                have hbegun' : w.req.isBeginProcessed = true := by rw [hreq]; exact hbegun
                obtain ⟨bs₂, e₂, hd₂⟩ := delivers_total (v := w.facing post) hbegun'
                have hlt : post.length < n := by
                  rw [List.length_append, Record.length_encode] at hn
                  omega
                rcases more_or_query r post with hmore | ⟨hid', htype', hp, rfl⟩
                · obtain ⟨-, rfl⟩ := hd.unique (hpass.delivers hb hmore hd₂)
                  obtain ⟨rs, h', rfl, hends'⟩ := ih post.length hlt (hpass.boundary hb) hbegun'
                    (by rw [hty]; exact htype) (by rw [hreq]; exact hid) hd₂ rfl
                  rw [hty, hreq] at hends'
                  exact ⟨r :: rs, h', by simp, hends'⟩
                · obtain ⟨e', hadv, herrno', -⟩ := hpass.at_end hb hid' htype' hp
                  obtain ⟨-, rfl⟩ := hd.unique (.stop hadv)
                  exact absurd (herrno'.symm.trans herrno) (readFails_errno_ne_zero _)
              · obtain ⟨-, rfl⟩ := hd.unique (.stop hadv)
                exact absurd herrno herrno'
        · have hadv := hb.advance_bytes h tail
          rw [processHeaderView, if_pos hversion] at hadv
          obtain ⟨-, rfl⟩ := hd.unique (.stop hadv)
          exact absurd herrno (setError_errno_pos _ (by decide))

end FastCgi
