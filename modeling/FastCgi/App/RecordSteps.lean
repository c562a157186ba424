import FastCgi.App.FillRefinement

/-!
What one whole record does to a reader.

`Passes v r bs w` says that a reader with view `v`, standing between two
records, goes past the record `r` delivering `bs`, and stands between two
records with view `w`. Its rules are the branches of `ProcessHeader` that
keep the stream open. The input of the two views does not occur in them:
`Passes.delivers` puts any bytes behind the record.
-/

namespace FastCgi

/-- The view with other bytes still to come. -/
def View.facing (v : View) (input : List UInt8) : View := { v with input := input }

@[simp] theorem View.facing_input (v : View) (i : List UInt8) : (v.facing i).input = i := rfl
@[simp] theorem View.facing_facing (v : View) (i j : List UInt8) :
    (v.facing i).facing j = v.facing j := rfl

/-- Between two records: nothing of the last one is left. -/
structure View.Boundary (v : View) : Prop where
  contentLen : v.contentLen = 0
  paddingLen : v.paddingLen = 0
  eorStop : v.eorStop = false
  closed : v.closed = false

/-- The view once the header of `r` has been read, with `post` behind `r`. -/
def View.inRecord (v : View) (r : Record) (post : List UInt8) : View :=
  { v with
    input := r.content ++ (r.padding ++ post)
    contentLen := r.content.length
    paddingLen := r.padding.length }

/-- The content of a record, unless it is skipped. -/
def View.visible (v : View) (r : Record) : List UInt8 := if v.skip then [] else r.content

/-- The view with another skip flag. -/
def View.withSkip (v : View) (b : Bool) : View := { v with skip := b }

/-- The content of the record has been passed; that clears the skip flag. -/
def View.passed (v : View) (r : Record) : View := v.withSkip (v.skip && r.content.isEmpty)

/-- The view after a reply. -/
def View.withOs (v : View) (os : Os) : View := { v with os := os }

theorem View.Boundary.passed {v : View} (h : v.Boundary) (r : Record) : (v.passed r).Boundary :=
  ⟨h.contentLen, h.paddingLen, h.eorStop, h.closed⟩

theorem View.Boundary.withOs {v : View} (h : v.Boundary) (os : Os) : (v.withOs os).Boundary :=
  ⟨h.contentLen, h.paddingLen, h.eorStop, h.closed⟩

/-- A record that leaves the stream open. -/
inductive Passes : View → Record → List UInt8 → View → Prop
  /-- A record of the stream, with content. -/
  | own {v : View} {r : Record} (htype : r.type.toNat ≠ fcgiBeginRequest)
      (hid : r.requestId.toNat ≠ fcgiNullRequestId) (hreq : r.requestId.toNat = v.req.requestId)
      (hown : r.type.toNat = v.type) (hne : r.content ≠ []) :
      Passes v r (v.visible r) (v.passed r)
  /-- A record of another request. -/
  | foreign {v : View} {r : Record} (htype : r.type.toNat ≠ fcgiBeginRequest)
      (hid : r.requestId.toNat ≠ fcgiNullRequestId)
      (hreq : r.requestId.toNat ≠ v.req.requestId) :
      Passes v r [] (v.withSkip r.content.isEmpty)
  /-- An attempt to multiplex the connection. -/
  | multiplexed {v : View} {r : Record} {os : Os} (htype : r.type.toNat = fcgiBeginRequest)
      (hid : r.requestId.toNat ≠ fcgiNullRequestId) (hlen : r.content.length = 8)
      (hbegun : v.req.isBeginProcessed = true)
      (hreply : writeItAll v.os (cantMpxReply r.requestId.toNat) = (.ok (), os)) :
      Passes v r [] ((v.withSkip false).withOs os)
  /-- A management record of a type that the library does not know. -/
  | unknown {v : View} {r : Record} {os : Os} (htype : r.type.toNat ≠ fcgiBeginRequest)
      (hid : r.requestId.toNat = fcgiNullRequestId) (hunknown : r.type.toNat ≠ fcgiGetValues)
      (hreply : writeItAll v.os (unknownTypeReply r.type.toNat) = (.ok (), os)) :
      Passes v r (v.visible r) ((v.passed r).withOs os)
  /-- A query that can be parsed. -/
  | getValues {v : View} {r : Record} {os : Os} {query : List NameValue}
      (htype : r.type.toNat = fcgiGetValues) (hid : r.requestId.toNat = fcgiNullRequestId)
      (hquery : parsePairs (v.visible r) = (query, none)) (herrno : v.errno = 0)
      (hreply : writeItAll v.os
        (getValuesReply v.os.stale (query.map NameValue.entry)) = (.ok (), os)) :
      Passes v r [] ((v.passed r).withOs os)

theorem Passes.boundary {v w : View} {r : Record} {bs : List UInt8} (h : Passes v r bs w)
    (hv : v.Boundary) : w.Boundary := by
  cases h <;> exact ⟨hv.contentLen, hv.paddingLen, hv.eorStop, hv.closed⟩

theorem Passes.req_eq {v w : View} {r : Record} {bs : List UInt8} (h : Passes v r bs w) :
    w.req = v.req := by
  cases h <;> rfl

theorem Passes.type_eq {v w : View} {r : Record} {bs : List UInt8} (h : Passes v r bs w) :
    w.type = v.type := by
  cases h <;> rfl

theorem Passes.errno_eq {v w : View} {r : Record} {bs : List UInt8} (h : Passes v r bs w) :
    w.errno = v.errno := by
  cases h <;> rfl

/-! ### Content and padding -/

theorem Delivers.congr {v w e : View} {bs : List UInt8} (h : advance v = advance w) :
    Delivers v bs e ↔ Delivers w bs e := by
  constructor
  · intro hd
    cases hd with
    | stop h' => exact .stop (h.symm.trans h')
    | byte h' hb ht => exact .byte (h.symm.trans h') hb ht
  · intro hd
    cases hd with
    | stop h' => exact .stop (h.trans h')
    | byte h' hb ht => exact .byte (h.trans h') hb ht

/-- From the end of the content on, the padding is skipped. -/
theorem advance_padding {v : View} (hc : v.contentLen = 0) (he : v.eorStop = false)
    (hp : v.paddingLen ≤ v.input.length) :
    advance v = advance { v with input := v.input.drop v.paddingLen, paddingLen := 0 } := by
  have hfail : ∀ w : View, w.eorStop = false → w.input = [] →
      onHeader advance w = (.closed, w.readFails) := by
    intro w hw hi
    rw [onHeader, if_neg (by simp [hw]), if_pos (by simp [hi])]
  set w : View := { v with input := v.input.drop v.paddingLen, paddingLen := 0 } with hw
  have hright : advance w = onHeader advance w := by
    rw [advance_eq, onInput]
    split
    · next hi => exact (hfail w he hi).symm
    · rw [onContent, if_pos (by exact hc), onPadding, if_neg (Nat.not_lt_zero _)]
      rfl
  rw [hright, advance_eq, onInput]
  split
  · next hi =>
      have hwi : w.input = [] := by simp [hw, hi]
      rw [hfail w he hwi]
      rfl
  · rw [onContent, if_pos hc, onPadding, if_neg (by omega)]

/-- At a boundary only the header comes next. -/
theorem View.Boundary.advance_eq {v : View} (h : v.Boundary) {input : List UInt8}
    (hne : input ≠ []) : advance (v.facing input) = onHeader advance (v.facing input) := by
  rw [FastCgi.advance_eq, onInput, if_neg (by exact hne), onContent, if_pos (by exact h.contentLen),
    onPadding, if_neg (by simp [View.facing, h.paddingLen])]
  simp [View.facing, h.paddingLen]

theorem advance_inRecord_empty {v : View} (he : v.eorStop = false) {r : Record} {post : List UInt8}
    (hc : r.content = []) (h0 : v.contentLen = 0) (hp : v.paddingLen = 0) :
    advance (v.inRecord r post) = advance (v.facing post) := by
  rw [advance_padding (by simp [View.inRecord, hc]) (by exact he) (by simp [View.inRecord, hc])]
  simp [View.inRecord, View.facing, hc, h0, hp]

theorem advance_inRecord_skip {v : View} (he : v.eorStop = false) {r : Record} {post : List UInt8}
    (hc : r.content ≠ []) (hs : v.skip = true) (h0 : v.contentLen = 0) (hp : v.paddingLen = 0) :
    advance (v.inRecord r post) = advance ((v.withSkip false).facing post) := by
  have hpos : 0 < r.content.length := List.length_pos_iff.mpr hc
  have hleft : advance (v.inRecord r post) = onPadding (onHeader advance)
      { v with
        input := r.padding ++ post, contentLen := 0, paddingLen := r.padding.length,
        skip := false } := by
    rw [FastCgi.advance_eq, onInput, if_neg (by simp [View.inRecord, hc]), onContent,
      if_neg (by simp [View.inRecord, hc]), if_neg (by simp [View.inRecord, hs]),
      if_neg (by simp [View.inRecord])]
    simp [View.inRecord]
  have hend : onPadding (onHeader advance)
      { v with
        input := r.padding ++ post, contentLen := 0, paddingLen := r.padding.length,
        skip := false } =
      onHeader advance ((v.withSkip false).facing post) := by
    rw [onPadding, if_neg (by simp)]
    simp [View.facing, View.withSkip, h0, hp]
  rw [hleft, hend, FastCgi.advance_eq, onInput]
  split
  · next hi =>
      have hi : post = [] := hi
      rw [onHeader, if_neg (by simp [View.facing, View.withSkip, he]),
        if_pos (by simp [View.facing, hi])]
  · rw [onContent, if_pos (by exact h0), onPadding,
      if_neg (by simp [View.facing, View.withSkip, hp])]
    simp [View.facing, View.withSkip, hp]

/-- A record of which nothing is delivered is passed. -/
theorem advance_inRecord_nothing {v : View} (h : v.Boundary) {r : Record} (post : List UInt8)
    (hvis : v.visible r = []) :
    advance (v.inRecord r post) = advance ((v.passed r).facing post) := by
  by_cases hc : r.content = []
  · have hsame : v.passed r = v := by simp [View.passed, View.withSkip, hc]
    rw [hsame, advance_inRecord_empty h.eorStop hc h.contentLen h.paddingLen]
  · have hclear : v.passed r = v.withSkip false := by simp [View.passed, View.withSkip, hc]
    have hs : v.skip = true := by
      by_contra hs
      rw [View.visible, if_neg hs] at hvis
      exact hc hvis
    rw [hclear, advance_inRecord_skip h.eorStop hc hs h.contentLen h.paddingLen]

/-- The content of a record that is not skipped is delivered, then comes what
is behind the record. -/
theorem delivers_inRecord {v e : View} (h : v.Boundary) {r : Record} {post bs : List UInt8}
    (hd : Delivers ((v.passed r).facing post) bs e) :
    Delivers (v.inRecord r post) (v.visible r ++ bs) e := by
  by_cases hvis : v.visible r = []
  · rw [Delivers.congr (advance_inRecord_nothing h post hvis), hvis, List.nil_append]
    exact hd
  · have hs : v.skip = false := by
      by_contra hs
      exact hvis (if_pos (by simpa using hs))
    have hsame : v.passed r = v := by rw [View.passed, hs, Bool.false_and, ← hs]; rfl
    rw [hsame] at hd
    have hseg := Reads.segment (v := v.inRecord r post) (k := r.content.length) hs (Nat.le_refl _)
      (by simp [View.inRecord])
    have htake : (v.inRecord r post).input.take r.content.length = r.content :=
      List.take_left' rfl
    rw [htake] at hseg
    rw [View.visible, if_neg (by simp [hs])]
    refine hseg.delivers ?_
    rw [Delivers.congr (advance_padding (by simp [View.inRecord]) (by exact h.eorStop)
      (by simp [View.inRecord, View.consume]))]
    have hrest : { (v.inRecord r post).consume r.content.length with
        input := ((v.inRecord r post).consume r.content.length).input.drop
          ((v.inRecord r post).consume r.content.length).paddingLen, paddingLen := 0 } =
        v.facing post := by
      simp [View.inRecord, View.consume, View.facing, h.contentLen, h.paddingLen]
    rw [hrest]
    exact hd

/-! ### Headers -/

/-- What `ProcessHeader` sees of a record: the view in the record, with
`eorStop` set. -/
def View.entered (v : View) (r : Record) (post : List UInt8) : View :=
  { v.inRecord r post with eorStop := true }

/-- The view once a header has been read, with `tail` behind it. -/
def View.atHeader (v : View) (h : Header) (tail : List UInt8) : View :=
  { v with input := tail, contentLen := h.contentLength, paddingLen := h.paddingLength.toNat }

/-- What `ProcessHeader` sees of a header. -/
def View.inHeader (v : View) (h : Header) (tail : List UInt8) : View :=
  { v.atHeader h tail with eorStop := true }

theorem View.Boundary.advance_bytes {v : View} (hb : v.Boundary) (h : Header)
    (tail : List UInt8) :
    advance (v.facing (h.bytes ++ tail)) =
      onStatusView advance
        (processHeaderView h { v with input := tail, eorStop := true }).1
        (processHeaderView h { v with input := tail, eorStop := true }).2.leaveRecord := by
  have htake : (h.bytes ++ tail).take 8 = h.bytes := List.take_left' h.length_bytes
  have hdrop : (h.bytes ++ tail).drop 8 = tail := List.drop_left' h.length_bytes
  have hentered : (v.facing (h.bytes ++ tail)).enterRecord =
      { v with input := tail, eorStop := true } := by
    simp [View.enterRecord, View.facing, hdrop]
  rw [hb.advance_eq (by simp [Header.bytes]), onHeader, if_neg (by simp [View.facing, hb.eorStop]),
    if_neg (by simp only [View.facing_input, List.length_append, Header.length_bytes]; omega),
    View.facing_input, htake, Header.ofBytes_bytes, hentered]

/-- A header of the right version is interpreted. -/
theorem View.Boundary.advance_header {v : View} (hb : v.Boundary) {h : Header}
    (hversion : h.version = fcgiVersion1) (tail : List UInt8) :
    advance (v.facing (h.bytes ++ tail)) =
      onStatusView advance (dispatchView h (v.inHeader h tail)).1
        (dispatchView h (v.inHeader h tail)).2.leaveRecord := by
  rw [hb.advance_bytes, processHeaderView, if_neg (not_not_intro hversion)]
  rfl

/-- The header of a whole record is interpreted. -/
theorem View.Boundary.advance_record {v : View} (h : v.Boundary) (r : Record)
    (post : List UInt8) :
    advance (v.facing (r.encode ++ post)) =
      onStatusView advance (dispatchView r.header (v.entered r post)).1
        (dispatchView r.header (v.entered r post)).2.leaveRecord := by
  have hentered : v.inHeader r.header (r.content ++ (r.padding ++ post)) = v.entered r post := by
    simp [View.inHeader, View.atHeader, View.entered, View.inRecord]
  rw [Record.encode, List.append_assoc, List.append_assoc, h.advance_header r.header_version,
    hentered]

theorem View.Boundary.leaveRecord_entered {v : View} (h : v.Boundary) (r : Record)
    (post : List UInt8) : (v.entered r post).leaveRecord = v.inRecord r post := by
  simp [View.entered, View.leaveRecord, View.inRecord, h.eorStop, h.closed]

theorem sendReplyView_ok {v : View} {reply : List UInt8} {os : Os} (ok : Status)
    (h : writeItAll v.os reply = (.ok (), os)) :
    sendReplyView reply ok v = (ok, v.withOs os) := by
  rw [sendReplyView, h]
  rfl

/-- The end of a record under `eorStop`, with something behind the content. -/
theorem advanceEor_end {v : View} (hc : v.contentLen = 0) (hp : v.paddingLen ≤ v.input.length)
    (hne : v.input ≠ []) :
    advanceEor v =
      (.closed, { v with input := v.input.drop v.paddingLen, paddingLen := 0, closed := true }) := by
  rw [advanceEor, onInput, if_neg hne, onContent, if_pos hc, onPadding, if_neg (by omega)]

/-- The view at the end of the nested stream of `r`. -/
def View.ended (v : View) (r : Record) (post : List UInt8) : View :=
  { (v.passed r).facing post with eorStop := true, closed := true }

/-- Content that is skipped is passed, with its padding. -/
theorem eorContent_entered_skip {v : View} (h : v.Boundary) {r : Record} {post : List UInt8}
    (hc : r.content ≠ []) (hs : v.skip = true) :
    eorContent (v.entered r post) = (v.visible r, v.ended r post) := by
  have hready : ¬(v.entered r post).Ready := fun hr => by
    have := hr.2.1
    simp [View.entered, View.inRecord, hs] at this
  have hadv : advanceEor (v.entered r post) = (.closed, v.ended r post) := by
    rw [advanceEor, onInput, if_neg (by simp [View.entered, View.inRecord, hc]), onContent,
      if_neg (by simp [View.entered, View.inRecord, hc]),
      if_neg (by simp [View.entered, View.inRecord, hs]),
      if_neg (by simp [View.entered, View.inRecord]), onPadding,
      if_neg (by simp [View.entered, View.inRecord])]
    simp [View.entered, View.inRecord, View.ended, View.passed, View.withSkip, View.facing, hc,
      h.contentLen, h.paddingLen]
  rw [eorContent_of_not_ready hready, hadv, View.visible, if_pos hs]

/-- The nested stream of a record that is there as a whole: the padding and
what is behind it are there to show where it ends. -/
theorem eorContent_entered {v : View} (h : v.Boundary) {r : Record} {post : List UInt8}
    (hmore : r.padding ++ post ≠ []) :
    eorContent (v.entered r post) = (v.visible r, v.ended r post) := by
  by_cases hc : r.content = []
  · have hready : ¬(v.entered r post).Ready := fun hr => by
      have := hr.1
      simp [View.entered, View.inRecord, hc] at this
    rw [eorContent_of_not_ready hready, advanceEor_end (by simp [View.entered, View.inRecord, hc])
      (by simp [View.entered, View.inRecord, hc])
      (by simpa [View.entered, View.inRecord, hc] using hmore)]
    simp [View.entered, View.inRecord, View.visible, View.ended, View.passed, View.withSkip,
      View.facing, hc, h.contentLen, h.paddingLen]
  · by_cases hs : v.skip = true
    · exact eorContent_entered_skip h hc hs
    · have hs : v.skip = false := by simpa using hs
      have hready : (v.entered r post).Ready :=
        ⟨List.length_pos_iff.mpr hc, hs, by simp [View.entered, View.inRecord, hc]⟩
      have hpresent : (v.entered r post).present = r.content.length := by
        simp [View.present, View.entered, View.inRecord]
      rw [eorContent_ready hready, hpresent,
        advanceEor_end (by simp [View.entered, View.inRecord])
          (by simp [View.entered, View.inRecord, View.consume])
          (by simpa [View.entered, View.inRecord, View.consume] using hmore)]
      simp [View.entered, View.inRecord, View.visible, View.ended, View.passed, View.withSkip,
        View.facing, View.consume, hs, h.contentLen, h.paddingLen]

/-- A query that has been read is answered. -/
theorem advance_query {v : View} (hv : v.Boundary) {r : Record} {post : List UInt8} {os : Os}
    {query : List NameValue} (htype : r.type.toNat = fcgiGetValues)
    (hid : r.requestId.toNat = fcgiNullRequestId)
    (hread : readQuery (v.entered r post) = (query, v.ended r post)) (herrno : v.errno = 0)
    (hreply : writeItAll v.os
      (getValuesReply v.os.stale (query.map NameValue.entry)) = (.ok (), os)) :
    advance (v.facing (r.encode ++ post)) = advance (((v.passed r).withOs os).facing post) := by
  have hok : sendReplyView (getValuesReply (v.ended r post).os.stale
      (query.map NameValue.entry)) .mgmtRecord (v.ended r post) =
      (.mgmtRecord, (v.ended r post).withOs os) := sendReplyView_ok .mgmtRecord hreply
  have hno : ¬(query, v.ended r post).2.errno ≠ 0 := not_not_intro herrno
  rw [hv.advance_record, dispatchView, Record.header_type, Record.header_requestId,
    if_neg (by simp [htype]), if_pos hid, processManagementView, if_pos htype, hread, answerQuery,
    if_neg hno]
  simp only [hok]
  simp [onStatusView, View.leaveRecord, View.withOs, View.facing, View.passed, View.withSkip,
    View.ended, hv.eorStop, hv.closed]

/-- After the header the reader is in the record, or, after a query, behind it.
A query is answered once something is there behind its content. -/
theorem Passes.enters {v w : View} {r : Record} {bs post : List UInt8} (h : Passes v r bs w)
    (hv : v.Boundary)
    (hmore : r.requestId.toNat = fcgiNullRequestId → r.type.toNat = fcgiGetValues →
      r.padding ++ post ≠ []) :
    (∃ u : View, u.Boundary ∧ u.visible r = bs ∧ u.passed r = w ∧
      advance (v.facing (r.encode ++ post)) = advance (u.inRecord r post)) ∨
    bs = [] ∧ advance (v.facing (r.encode ++ post)) = advance (w.facing post) := by
  have hadv := hv.advance_record r post
  rw [dispatchView, Record.header_type, Record.header_requestId] at hadv
  cases h with
  | own htype hid hreq hown hne =>
      rw [if_neg htype, if_neg hid, if_neg (by simpa [View.entered, View.inRecord] using hreq),
        if_neg (by simpa [View.entered, View.inRecord] using hown)] at hadv
      simp only [hv.leaveRecord_entered] at hadv
      rw [onStatusView, if_neg (by simpa [View.inRecord] using hne)] at hadv
      exact .inl ⟨v, hv, rfl, rfl, hadv⟩
  | foreign htype hid hreq =>
      rw [if_neg htype, if_neg hid,
        if_pos (by simpa [View.entered, View.inRecord] using hreq)] at hadv
      simp only [hv.leaveRecord_entered] at hadv
      exact .inl ⟨v.withSkip true, ⟨hv.contentLen, hv.paddingLen, hv.eorStop, hv.closed⟩, rfl, rfl,
        hadv⟩
  | @multiplexed os htype hid hlen hbegun hreply =>
      rw [if_pos htype, processBeginView, if_neg (by simp [View.entered, View.inRecord, hid, hlen]),
        if_pos (by simpa [View.entered, View.inRecord] using hbegun),
        sendReplyView_ok (v := v.entered r post) .skip hreply] at hadv
      have hne : r.content ≠ [] := by
        rw [← List.length_pos_iff]
        omega
      have hskip : onStatusView advance .skip ((v.entered r post).withOs os).leaveRecord =
          advance (((v.withSkip true).withOs os).inRecord r post) := by
        simp [onStatusView, View.entered, View.leaveRecord, View.inRecord, View.withOs,
          View.withSkip, hv.eorStop, hv.closed]
      exact .inr ⟨rfl, (hadv.trans hskip).trans (advance_inRecord_skip
        (v := (v.withSkip true).withOs os) hv.eorStop hne rfl hv.contentLen hv.paddingLen)⟩
  | @unknown os htype hid hunknown hreply =>
      rw [if_neg htype, if_pos hid, processManagementView, if_neg hunknown,
        sendReplyView_ok (v := v.entered r post) .mgmtRecord hreply] at hadv
      have hmgmt : onStatusView advance .mgmtRecord ((v.entered r post).withOs os).leaveRecord =
          advance ((v.withOs os).inRecord r post) := by
        simp [onStatusView, View.entered, View.leaveRecord, View.inRecord, View.withOs, hv.eorStop,
          hv.closed]
      exact .inl ⟨v.withOs os, hv.withOs os, rfl, rfl, hadv.trans hmgmt⟩
  | @getValues os query htype hid hquery herrno hreply =>
      have hcontent := eorContent_entered hv (hmore hid htype)
      have hread : readQuery (v.entered r post) = (query, v.ended r post) := by
        unfold readQuery
        rw [hcontent, hquery]
      exact .inr ⟨rfl, advance_query hv htype hid hread herrno hreply⟩

/-- **Going past a record**: what is delivered from then on is delivered after
the record's bytes. -/
theorem Passes.delivers {v w e : View} {r : Record} {bs bs' post : List UInt8}
    (h : Passes v r bs w) (hv : v.Boundary)
    (hmore : r.requestId.toNat = fcgiNullRequestId → r.type.toNat = fcgiGetValues →
      r.padding ++ post ≠ [])
    (hd : Delivers (w.facing post) bs' e) :
    Delivers (v.facing (r.encode ++ post)) (bs ++ bs') e := by
  rcases h.enters hv hmore with ⟨u, hu, rfl, rfl, hadv⟩ | ⟨rfl, hadv⟩
  · rw [Delivers.congr hadv]
    exact delivers_inRecord hu hd
  · rw [Delivers.congr hadv]
    exact hd

/-- Going past a record that delivers nothing. -/
theorem Passes.advance_eq {v w : View} {r : Record} {post : List UInt8} (h : Passes v r [] w)
    (hv : v.Boundary)
    (hmore : r.requestId.toNat = fcgiNullRequestId → r.type.toNat = fcgiGetValues →
      r.padding ++ post ≠ []) :
    advance (v.facing (r.encode ++ post)) = advance (w.facing post) := by
  rcases h.enters hv hmore with ⟨u, hu, hvis, rfl, hadv⟩ | ⟨-, hadv⟩
  · rw [hadv, advance_inRecord_nothing hu post hvis]
  · exact hadv

/-! ### The beginning of a request -/

/-- A record that begins a request. -/
structure Record.Begins (r : Record) : Prop where
  type_eq : r.type.toNat = fcgiBeginRequest
  id_ne_null : r.requestId.toNat ≠ fcgiNullRequestId
  length_content : r.content.length = 8

/-- The view after a request has begun: the record's padding is still there. -/
def View.begun (v : View) (r : Record) (post : List UInt8) : View :=
  { v with
    input := r.padding ++ post
    paddingLen := r.padding.length
    req := { v.req with requestId := r.requestId.toNat }.begin r.content }

theorem View.Boundary.setRequestId {v : View} (h : v.Boundary) (id : ℕ) :
    (v.setRequestId id).Boundary := ⟨h.contentLen, h.paddingLen, h.eorStop, h.closed⟩

/-- What `ProcessHeader` makes of a record that begins a request, before one has
begun. -/
theorem advance_begins {v : View} (h : v.Boundary) (hawait : v.req.isBeginProcessed = false)
    {r : Record} (hr : r.Begins) (post : List UInt8) :
    advance (v.facing (r.encode ++ post)) =
      onStatusView advance
        (readBeginView ((v.setRequestId r.requestId.toNat).entered r post)).1
        (readBeginView ((v.setRequestId r.requestId.toNat).entered r post)).2.leaveRecord := by
  rw [h.advance_record, dispatchView, Record.header_type, Record.header_requestId,
    if_pos hr.type_eq, processBeginView,
    if_neg (by simp [View.entered, View.inRecord, hr.id_ne_null, hr.length_content]),
    if_neg (by simpa [View.entered, View.inRecord] using hawait)]
  rfl

theorem ready_begins {v : View} (hs : v.skip = false) {r : Record} (hr : r.Begins)
    (post : List UInt8) : (v.entered r post).Ready := by
  have hne : r.content ≠ [] := by
    rw [← List.length_pos_iff, hr.length_content]
    decide
  exact ⟨List.length_pos_iff.mpr hne, hs, by simp [View.entered, View.inRecord, hne]⟩

/-- The body of a record that begins a request is read. -/
theorem eorContent_begins {v : View} (hs : v.skip = false) {r : Record} (hr : r.Begins)
    (post : List UInt8) : (eorContent (v.entered r post)).1 = r.content := by
  have hpresent : (v.entered r post).present = 8 := by
    simp [View.present, View.entered, View.inRecord, hr.length_content]
  rw [eorContent_ready (ready_begins hs hr post), hpresent]
  exact List.take_left' hr.length_content

/-- A record that begins a request is accepted, unless a stale skip flag hides
its body. -/
theorem advance_begun {v : View} (h : v.Boundary) (hawait : v.req.isBeginProcessed = false)
    (hs : v.skip = false) {r : Record} (hr : r.Begins) (post : List UInt8) :
    advance (v.facing (r.encode ++ post)) = (.begun, v.begun r post) := by
  have hskip : (v.setRequestId r.requestId.toNat).skip = false := hs
  rw [advance_begins h hawait hr, readBeginView, eorContent_begins hskip hr,
    if_neg (by simp [hr.length_content]), advanceEor_ready (ready_begins hskip hr post)]
  simp [onStatusView, View.leaveRecord, View.begin, View.consume, View.entered, View.inRecord,
    View.setRequestId, View.begun, hr.length_content, h.contentLen, h.eorStop, h.closed,
    List.drop_left' hr.length_content]

theorem advance_not_begun {v : View} (h : v.Boundary) (hawait : v.req.isBeginProcessed = false)
    (hs : v.skip = true) {r : Record} (hr : r.Begins) (post : List UInt8) :
    (advance (v.facing (r.encode ++ post))).2.req.isBeginProcessed = false := by
  have hne : r.content ≠ [] := by
    rw [← List.length_pos_iff, hr.length_content]
    decide
  have hvis : (v.setRequestId r.requestId.toNat).visible r = [] := if_pos hs
  rw [advance_begins h hawait hr, readBeginView,
    eorContent_entered_skip (h.setRequestId r.requestId.toNat) hne hs, hvis,
    if_pos (show ([] : List UInt8).length ≠ 8 by decide)]
  exact hawait

/-! ### The end of the input -/

theorem advance_facing_nil (v : View) :
    advance (v.facing []) = (.closed, (v.facing []).readFails) := by
  rw [advance_eq, onInput, if_pos (View.facing_input v [])]

theorem Delivers.at_end {v e : View} {bs : List UInt8} (hd : Delivers (v.facing []) bs e) :
    bs = [] ∧ e = (v.facing []).readFails := by
  cases hd with
  | stop h =>
      rw [advance_facing_nil] at h
      cases h
      exact ⟨rfl, rfl⟩
  | byte h _ _ =>
      rw [advance_facing_nil] at h
      cases h

theorem setError_errno_pos (v : View) {e : ℤ} (he : e ≠ 0) : (v.setError e).errno ≠ 0 := by
  simp only [View.setError]
  split <;> assumption

theorem readFails_errno_ne_zero (v : View) : v.readFails.errno ≠ 0 :=
  setError_errno_pos _ (readError_ne_zero _)

theorem setError_errno_of_ne_zero {v : View} (e : ℤ) (h : v.errno ≠ 0) :
    (v.setError e).errno = v.errno := by
  simp only [View.setError, if_neg h]

/-- Where the input ends right behind the content of a query, the read that
looks for the end of the record fails, or the content was skipped. -/
theorem eorContent_entered_nil {v : View} (h : v.Boundary) {r : Record} (hp : r.padding = []) :
    (eorContent (v.entered r [])).1 = v.visible r ∧
      ((v.skip = true ∧ r.content ≠ []) ∧ (eorContent (v.entered r [])).2 = v.ended r [] ∨
        (eorContent (v.entered r [])).2.errno = (v.facing []).readFails.errno ∧
          (eorContent (v.entered r [])).2.req = v.req) := by
  by_cases hc : r.content = []
  · have hready : ¬(v.entered r []).Ready := fun hr => by
      have := hr.1
      simp [View.entered, View.inRecord, hc] at this
    rw [eorContent_of_not_ready hready, advanceEor, onInput,
      if_pos (by simp [View.entered, View.inRecord, hc, hp])]
    exact ⟨by simp [View.visible, hc], .inr ⟨rfl, rfl⟩⟩
  · by_cases hs : v.skip = true
    · rw [eorContent_entered_skip h hc hs]
      exact ⟨rfl, .inl ⟨⟨hs, hc⟩, rfl⟩⟩
    · have hs : v.skip = false := by simpa using hs
      have hready : (v.entered r []).Ready :=
        ⟨List.length_pos_iff.mpr hc, hs, by simp [View.entered, View.inRecord, hc]⟩
      have hpresent : (v.entered r []).present = r.content.length := by
        simp [View.present, View.entered, View.inRecord]
      rw [eorContent_ready hready, hpresent, advanceEor, onInput,
        if_pos (by simp [View.entered, View.inRecord, View.consume, hp])]
      exact ⟨by simp [View.entered, View.inRecord, View.visible, hs], .inr ⟨rfl, rfl⟩⟩

/-- Where nothing is behind the content of a query, the stream ends with the
error of the read that looks for the end of the record. -/
theorem Passes.at_end {v w : View} {r : Record} {bs : List UInt8} (h : Passes v r bs w)
    (hv : v.Boundary) (hid : r.requestId.toNat = fcgiNullRequestId)
    (htype : r.type.toNat = fcgiGetValues) (hp : r.padding = []) :
    ∃ e, advance (v.facing (r.encode ++ [])) = (.closed, e) ∧
      e.errno = (w.facing []).readFails.errno ∧ e.req = w.req := by
  cases h with
  | own _ hid' => exact absurd hid hid'
  | foreign _ hid' => exact absurd hid hid'
  | multiplexed _ hid' => exact absurd hid hid'
  | unknown _ _ hunknown => exact absurd htype hunknown
  | @getValues os query _ _ hquery herrno hreply =>
      obtain ⟨hvis, hend⟩ := eorContent_entered_nil hv hp
      have hread : readQuery (v.entered r []) = (query, (eorContent (v.entered r [])).2) := by
        unfold readQuery
        rw [hvis, hquery]
      rcases hend with ⟨-, hend⟩ | ⟨hend, hreq⟩
      · rw [hend] at hread
        refine ⟨_, (advance_query hv htype hid hread herrno hreply).trans (advance_facing_nil _),
          rfl, rfl⟩
      · have hne : (eorContent (v.entered r [])).2.errno ≠ 0 := by
          rw [hend]
          exact readFails_errno_ne_zero _
        have hadv := hv.advance_record r []
        rw [dispatchView, Record.header_type, Record.header_requestId, if_neg (by simp [htype]),
          if_pos hid, processManagementView, if_pos htype, hread, answerQuery, if_pos hne] at hadv
        refine ⟨_, hadv, ?_, hreq⟩
        have hreadEnd : os.readEnd = v.os.readEnd := by
          have := writeItAll_readEnd v.os (getValuesReply v.os.stale (query.map NameValue.entry))
          rwa [hreply] at this
        calc ((eorContent (v.entered r [])).2.leaveRecord.setError fcgxProtocolError).errno
            = (eorContent (v.entered r [])).2.errno := setError_errno_of_ne_zero _ hne
          _ = (v.facing []).readFails.errno := hend
          _ = (((v.passed r).withOs os).facing []).readFails.errno := by
              simp only [View.readFails, View.setError, View.facing, View.withOs, hreadEnd]
              rfl

/-- There is something behind the content of `r`, or `r` is a query. -/
theorem more_or_query (r : Record) (post : List UInt8) :
    (r.requestId.toNat = fcgiNullRequestId → r.type.toNat = fcgiGetValues →
      r.padding ++ post ≠ []) ∨
    r.requestId.toNat = fcgiNullRequestId ∧ r.type.toNat = fcgiGetValues ∧ r.padding = [] ∧
      post = [] := by
  by_cases h : r.padding ++ post = []
  · rw [List.append_eq_nil_iff] at h
    by_cases hq : r.requestId.toNat = fcgiNullRequestId ∧ r.type.toNat = fcgiGetValues
    · exact .inr ⟨hq.1, hq.2, h⟩
    · exact .inl fun hid htype => absurd ⟨hid, htype⟩ hq
  · exact .inl fun _ _ => h

/-- Going past a record, whatever is behind it: the same bytes are delivered,
and the same error is reported. -/
theorem Passes.delivers_errno {v w e : View} {r : Record} {bs bs' post : List UInt8}
    (h : Passes v r bs w) (hv : v.Boundary) (hd : Delivers (w.facing post) bs' e) :
    ∃ e', Delivers (v.facing (r.encode ++ post)) (bs ++ bs') e' ∧ e'.errno = e.errno := by
  rcases more_or_query r post with hmore | ⟨hid, htype, hp, rfl⟩
  · exact ⟨e, h.delivers hv hmore hd, rfl⟩
  · obtain ⟨e', hadv, herrno, -⟩ := h.at_end hv hid htype hp
    obtain ⟨rfl, rfl⟩ := hd.at_end
    cases h with
    | own _ hid' => exact absurd hid hid'
    | unknown _ _ hunknown => exact absurd htype hunknown
    | _ => exact ⟨e', .stop hadv, herrno⟩

/-! ### Several records -/

/-- A sequence of records that leaves the stream open. -/
inductive PassesAll : View → List Record → List UInt8 → View → Prop
  | nil {v : View} : PassesAll v [] [] v
  | cons {v w u : View} {r : Record} {rs : List Record} {bs bs' : List UInt8}
      (h : Passes v r bs w) (ht : PassesAll w rs bs' u) : PassesAll v (r :: rs) (bs ++ bs') u

theorem PassesAll.boundary {v w : View} {rs : List Record} {bs : List UInt8}
    (h : PassesAll v rs bs w) (hv : v.Boundary) : w.Boundary := by
  induction h with
  | nil => exact hv
  | cons h _ ih => exact ih (h.boundary hv)

theorem PassesAll.req_eq {v w : View} {rs : List Record} {bs : List UInt8}
    (h : PassesAll v rs bs w) : w.req = v.req := by
  induction h with
  | nil => rfl
  | cons h _ ih => exact ih.trans h.req_eq

theorem PassesAll.type_eq {v w : View} {rs : List Record} {bs : List UInt8}
    (h : PassesAll v rs bs w) : w.type = v.type := by
  induction h with
  | nil => rfl
  | cons h _ ih => exact ih.trans h.type_eq

theorem PassesAll.errno_eq {v w : View} {rs : List Record} {bs : List UInt8}
    (h : PassesAll v rs bs w) : w.errno = v.errno := by
  induction h with
  | nil => rfl
  | cons h _ ih => exact ih.trans h.errno_eq

theorem PassesAll.append {v w u : View} {rs rs' : List Record} {bs bs' : List UInt8}
    (h : PassesAll v rs bs w) (h' : PassesAll w rs' bs' u) :
    PassesAll v (rs ++ rs') (bs ++ bs') u := by
  induction h with
  | nil => exact h'
  | cons h _ ih =>
      rw [List.cons_append, List.append_assoc]
      exact .cons h (ih h')

/-- Going past records that something follows. -/
theorem PassesAll.delivers {v w e : View} {rs : List Record} {bs bs' post : List UInt8}
    (h : PassesAll v rs bs w) (hv : v.Boundary) (hpost : post ≠ [])
    (hd : Delivers (w.facing post) bs' e) :
    Delivers (v.facing (encodeAll rs ++ post)) (bs ++ bs') e := by
  induction h with
  | nil => exact hd
  | cons h _ ih =>
      rw [encodeAll_cons, List.append_assoc, List.append_assoc]
      exact h.delivers hv (fun _ _ => by simp [hpost]) (ih (h.boundary hv) hd)

/-- Going past records, up to the replies that are sent at the very end. -/
theorem PassesAll.delivers_errno {v w e : View} {rs : List Record} {bs bs' post : List UInt8}
    (h : PassesAll v rs bs w) (hv : v.Boundary) (hd : Delivers (w.facing post) bs' e) :
    ∃ e', Delivers (v.facing (encodeAll rs ++ post)) (bs ++ bs') e' ∧ e'.errno = e.errno := by
  induction h with
  | nil => exact ⟨e, hd, rfl⟩
  | cons h _ ih =>
      obtain ⟨e', hd', he'⟩ := ih (h.boundary hv) hd
      obtain ⟨e'', hd'', he''⟩ := h.delivers_errno hv hd'
      rw [encodeAll_cons, List.append_assoc, List.append_assoc]
      exact ⟨e'', hd'', he''.trans he'⟩

/-- Going past records that deliver nothing, and that something follows. -/
theorem PassesAll.advance_eq {v w : View} {rs : List Record} {bs post : List UInt8}
    (h : PassesAll v rs bs w) (hv : v.Boundary) (hbs : bs = []) (hpost : post ≠ []) :
    advance (v.facing (encodeAll rs ++ post)) = advance (w.facing post) := by
  induction h with
  | nil => rfl
  | cons h _ ih =>
      obtain ⟨rfl, hbs'⟩ := List.append_eq_nil_iff.mp hbs
      rw [encodeAll_cons, List.append_assoc, h.advance_eq hv (fun _ _ => by simp [hpost]),
        ih (h.boundary hv) hbs']

/-- Going past records that deliver nothing, up to the end of the input. -/
theorem PassesAll.advance_nil {v w : View} {rs : List Record} {bs : List UInt8}
    (h : PassesAll v rs bs w) (hv : v.Boundary) (hbs : bs = []) :
    ∃ e, advance (v.facing (encodeAll rs ++ [])) = (.closed, e) ∧
      e.errno = (w.facing []).readFails.errno ∧ e.req = w.req := by
  induction h with
  | nil => exact ⟨_, advance_facing_nil _, rfl, rfl⟩
  | @cons v w u r rs bs bs' h ht ih =>
      obtain ⟨rfl, hbs'⟩ := List.append_eq_nil_iff.mp hbs
      obtain ⟨e, hadv, herrno, hreq⟩ := ih (h.boundary hv) hbs'
      rw [encodeAll_cons, List.append_assoc]
      rcases more_or_query r (encodeAll rs ++ []) with hmore | ⟨hid, htype, hp, hnil⟩
      · exact ⟨e, (h.advance_eq hv hmore).trans hadv, herrno, hreq⟩
      · obtain ⟨e', hadv', herrno', hreq'⟩ := h.at_end hv hid htype hp
        rw [hnil] at hadv ⊢
        rw [advance_facing_nil] at hadv
        cases hadv
        exact ⟨e', hadv', herrno'.trans herrno, hreq'.trans hreq⟩

end FastCgi
