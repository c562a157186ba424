import FastCgi.App.ReaderRun

/-!
Reassembly of a stream from its records.

A reader of one stream of one request goes through records of that
stream, records of other requests and management records. Whatever the
chunks and whatever calls the client makes, it delivers the contents of
the stream's records (`reassembly`). How the other records affect it is
decided by the skip flag, which outlives a record without content
(`foreign_unseen_iff`), and by the content of management records, which
nobody consumes (`unknown_answered_iff`, in `Management.lean`).
-/

namespace FastCgi

/-! ### Readers between two records -/

/-- A reader between two records, as `SetReaderType` leaves it: nothing of a
record is left, and nothing is to be skipped. -/
structure Chan.AtBoundary (c : Chan) : Prop extends c.Between where
  contentLen : c.stream.contentLen = 0
  paddingLen : c.stream.paddingLen = 0
  eorStop : c.stream.eorStop = false
  skip : c.stream.skip = false

theorem atBoundary_setReaderType {c : Chan} (h : c.Buffered) (streamType : ℕ) :
    { c with stream := setReaderType c.stream streamType }.AtBoundary :=
  ⟨⟨⟨h.isReader, h.rdNext_le, h.buffStop_le, h.bufflen_pos⟩, rfl, rfl⟩, rfl, rfl, rfl, rfl⟩

theorem Chan.AtBoundary.view_boundary {c : Chan} (h : c.AtBoundary) : c.view.Boundary where
  contentLen := by rw [h.toBetween.view_contentLen, h.contentLen]
  paddingLen := by simp [Chan.view, h.isClosed, h.paddingLen]
  eorStop := h.eorStop
  closed := h.isClosed

/-- The view of a reader faces what the reader has not consumed. -/
theorem Chan.view_facing (c : Chan) : c.view = c.view.facing c.unread := rfl

/-! ### Records of the stream and of other requests -/

/-- A record of the stream of type `T` of request `R`, with content. -/
def Record.Own (T R : ℕ) (r : Record) : Prop :=
  r.type.toNat = T ∧ r.requestId.toNat = R ∧ r.content ≠ []

/-- A record of another request, with content: 8 bytes of it if it begins a
request. -/
def Record.Other (R : ℕ) (r : Record) : Prop :=
  r.requestId.toNat ≠ fcgiNullRequestId ∧ r.requestId.toNat ≠ R ∧ r.content ≠ [] ∧
    (r.type.toNat = fcgiBeginRequest → r.content.length = 8)

/-- The record that ends the stream. -/
def Record.Ends (T R : ℕ) (r : Record) : Prop :=
  r.type.toNat = T ∧ r.requestId.toNat = R ∧ r.content = []

/-- The header of an empty record that ends the stream of type `T` of request `R`. -/
def Header.Ends (T R : ℕ) (h : Header) : Prop :=
  h.version = fcgiVersion1 ∧ h.type.toNat = T ∧ h.requestId = R ∧ h.contentLength = 0

theorem Record.header_ends {T R : ℕ} {r : Record} : r.header.Ends T R ↔ r.Ends T R := by
  simp [Header.Ends, Record.Ends]

/-- The contents of the records of the stream, in order. -/
def streamContents (T R : ℕ) (rs : List Record) : List UInt8 :=
  (rs.filter fun r => r.type.toNat = T ∧ r.requestId.toNat = R).flatMap Record.content

theorem streamContents_own {T R : ℕ} {r : Record} (h : r.Own T R) (rs : List Record) :
    streamContents T R (r :: rs) = r.content ++ streamContents T R rs := by
  simp [streamContents, h.1, h.2.1]

theorem streamContents_other {T R : ℕ} {r : Record} (h : r.Other R) (rs : List Record) :
    streamContents T R (r :: rs) = streamContents T R rs := by
  simp [streamContents, h.2.1]

/-- A view that is ready for the next record of its stream. -/
structure View.Clean (v : View) : Prop extends v.Boundary where
  skip : v.skip = false
  isBeginProcessed : v.req.isBeginProcessed = true
  requestId : v.req.requestId ≠ fcgiNullRequestId
  type : v.type ≠ fcgiBeginRequest
  writes : v.os.NeverFails

theorem View.Clean.withOs {v : View} (h : v.Clean) {os : Os} (hos : os.NeverFails) :
    (v.withOs os).Clean :=
  ⟨h.toBoundary.withOs os, h.skip, h.isBeginProcessed, h.requestId, h.type, hos⟩

theorem View.passed_eq {v : View} (h : v.skip = false) (r : Record) : v.passed r = v := by
  rw [View.passed, h, Bool.false_and, ← h]
  rfl

/-- One record of the wire. -/
theorem View.Clean.passes {v : View} (h : v.Clean) {r : Record}
    (hr : r.Own v.type v.req.requestId ∨ r.Other v.req.requestId) :
    ∃ os, os.NeverFails ∧
      Passes v r (if r.type.toNat = v.type ∧ r.requestId.toNat = v.req.requestId then r.content
        else []) (v.withOs os) := by
  rcases hr with ⟨htype, hid, hne⟩ | ⟨hid, hreq, hne, hlen⟩
  · have hpass := Passes.own (v := v) (r := r) (by rw [htype]; exact h.type)
      (by rw [hid]; exact h.requestId) hid htype hne
    rw [View.passed_eq h.skip, View.visible, if_neg (by simp [h.skip])] at hpass
    rw [if_pos ⟨htype, hid⟩]
    exact ⟨v.os, h.writes, hpass⟩
  · rw [if_neg (fun h => hreq h.2)]
    by_cases htype : r.type.toNat = fcgiBeginRequest
    · obtain ⟨rs, log, hrs, -, hreply⟩ := writeItAll_ok h.writes (cantMpxReply r.requestId.toNat)
      have hpass := Passes.multiplexed htype hid (hlen htype) h.isBeginProcessed hreply
      have hskip : v.withSkip false = v := by rw [← h.skip]; rfl
      rw [hskip] at hpass
      refine ⟨_, ?_, hpass⟩
      exact ⟨h.writes.1, hrs⟩
    · have hpass := Passes.foreign htype hid hreq
      have hskip : v.withSkip r.content.isEmpty = v := by
        rw [List.isEmpty_eq_false_iff.mpr hne, ← h.skip]
        rfl
      rw [hskip] at hpass
      exact ⟨v.os, h.writes, hpass⟩

/-- The records of the wire, up to the end of the stream. -/
theorem View.Clean.passesAll {v : View} (h : v.Clean) {rs : List Record}
    (hrs : ∀ r ∈ rs, r.Own v.type v.req.requestId ∨ r.Other v.req.requestId) :
    ∃ os, os.NeverFails ∧ PassesAll v rs (streamContents v.type v.req.requestId rs)
      (v.withOs os) := by
  induction rs generalizing v with
  | nil => exact ⟨v.os, h.writes, .nil⟩
  | cons r rs ih =>
      have hr := hrs r List.mem_cons_self
      obtain ⟨os, hos, hpass⟩ := h.passes hr
      obtain ⟨os', hos', hall⟩ := ih (h.withOs hos) fun r' hr' => hrs r' (List.mem_cons_of_mem r hr')
      refine ⟨os', hos', ?_⟩
      rcases hr with hown | hother
      · rw [if_pos ⟨hown.1, hown.2.1⟩] at hpass
        rw [streamContents_own hown]
        exact .cons hpass hall
      · rw [if_neg fun h => hother.2.1 h.2] at hpass
        rw [streamContents_other hother]
        exact .cons hpass hall

/-- The header of an empty record of the stream ends it. -/
theorem View.Boundary.ends_header {v : View} (hb : v.Boundary) (htype : v.type ≠ fcgiBeginRequest)
    (hid : v.req.requestId ≠ fcgiNullRequestId) {h : Header}
    (hends : h.Ends v.type v.req.requestId) (tail : List UInt8) :
    advance (v.facing (h.bytes ++ tail)) = (.closed, { v with input := tail, closed := true }) := by
  obtain ⟨hversion, hown, hreq, hc⟩ := hends
  have hadv := hb.advance_header hversion tail
  rw [dispatchView, if_neg (by rw [hown]; exact htype), if_neg (by rw [hreq]; exact hid),
    if_neg (show ¬h.requestId ≠ (v.inHeader h tail).req.requestId from not_not_intro hreq),
    if_neg (show ¬h.type.toNat ≠ (v.inHeader h tail).type from not_not_intro hown)] at hadv
  have hempty : (v.inHeader h tail).leaveRecord.contentLen = 0 := hc
  rw [onStatusView, if_pos hempty] at hadv
  rw [hadv]
  simp [View.inHeader, View.atHeader, View.leaveRecord, hc, hb.contentLen, hb.paddingLen,
    hb.eorStop]

/-- An empty record of the stream ends it. -/
theorem View.Boundary.ends {v : View} (h : v.Boundary) (htype : v.type ≠ fcgiBeginRequest)
    (hid : v.req.requestId ≠ fcgiNullRequestId) {r : Record} (hr : r.Ends v.type v.req.requestId)
    (post : List UInt8) :
    advance (v.facing (r.encode ++ post)) =
      (.closed, { v with input := r.padding ++ post, closed := true }) := by
  have hbytes : r.encode ++ post = r.header.bytes ++ (r.padding ++ post) := by
    simp [Record.encode, hr.2.2]
  rw [hbytes]
  exact h.ends_header htype hid (Record.header_ends.mpr hr) _

/-- **Stream reassembly.** On records of the stream and of other requests, all
with content, up to the record that ends the stream, every sequence of calls
returns the contents of the stream's records, cut into the pieces asked for,
and no error is set. -/
theorem reassembly {c : Chan} (h : c.AtBoundary) (hbegun : c.req.isBeginProcessed = true)
    (hid : c.req.requestId ≠ fcgiNullRequestId) (htype : c.stream.type ≠ fcgiBeginRequest)
    (herrno : c.stream.fcgiErrno = 0) (hwrites : c.os.NeverFails) {rs : List Record}
    (hrs : ∀ r ∈ rs, r.Own c.stream.type c.req.requestId ∨ r.Other c.req.requestId) {eos : Record}
    (heos : eos.Ends c.stream.type c.req.requestId) {tail : List UInt8}
    (hwire : c.unread = encodeAll rs ++ (eos.encode ++ tail)) (calls : List ReadCall) :
    ∃ c', performAll calls c =
        some (chop (calls.map ReadCall.wanted) (streamContents c.stream.type c.req.requestId rs),
          c') ∧
      c'.stream.fcgiErrno = 0 := by
  have hclean : c.view.Clean := ⟨h.view_boundary, h.skip, hbegun, hid, htype, hwrites⟩
  obtain ⟨os, hos, hall⟩ := hclean.passesAll hrs
  have hend : Delivers ((c.view.withOs os).facing (eos.encode ++ tail)) []
      { c.view.withOs os with input := eos.padding ++ tail, closed := true } :=
    .stop ((hclean.withOs hos).ends htype hid heos tail)
  have hd := hall.delivers h.view_boundary (by simp [eos.encode_ne_nil]) hend
  rw [← hwire, ← Chan.view_facing, List.append_nil] at hd
  obtain ⟨c', hperform, hlast⟩ := performAll_spec h.toBetween.toOpen h.eorStop hd calls
  refine ⟨c', hperform, ?_⟩
  rcases hlast with ⟨-, -, hview⟩ | ⟨-, -, hsame⟩
  · calc c'.view.errno = c.stream.fcgiErrno := by rw [hview]; rfl
      _ = 0 := herrno
  · rw [hsame, herrno]

/-- The reader of `FCGI_STDIN` for request 1 on a connection. -/
def stdinReader (os : Os) : Chan :=
  { stream := setReaderType (newStream 0 os.stale 8192 true fcgiParams) fcgiStdin
    req :=
      { requestId := 1, role := fcgiResponder, isBeginProcessed := true, keepConnection := false
        appStatus := 0, nWriters := 2 }
    os := os }

theorem stdinReader_atBoundary (os : Os) : (stdinReader os).AtBoundary :=
  atBoundary_setReaderType (c := { stdinReader os with
    stream := newStream 0 os.stale 8192 true fcgiParams })
    ⟨rfl, Nat.le_refl 0, Nat.zero_le _, (by decide : 0 < 8192)⟩ fcgiStdin

/-- A record of request 1 with its content, for examples. -/
def shortRecord (type requestId : ℕ) (content : List UInt8) (h : content.length ≤ 65535) : Record :=
  dataRecord type requestId content [] h nil_padding_le

/-- The body that begins the request of a responder. -/
theorem beginBody_le : ([0, 1, 0, 0, 0, 0, 0, 0] : List UInt8).length ≤ 65535 := by decide

theorem twoBytes_le : ([65, 66] : List UInt8).length ≤ 65535 := by decide

theorem reassembly_stdin :
    ∃ c', performAll [.getStr 3, .getChar]
        (stdinReader (.sending
          (encodeAll [shortRecord fcgiStdin 1 [65, 66] (by decide),
            shortRecord fcgiStdout 2 [9] (by decide)] ++
            ((shortRecord fcgiStdin 1 [] (by decide)).encode ++ [])) [4, 1] [])) =
        some (chop [3, 1] (streamContents fcgiStdin 1
          [shortRecord fcgiStdin 1 [65, 66] (by decide), shortRecord fcgiStdout 2 [9] (by decide)]),
          c') ∧
      c'.stream.fcgiErrno = 0 :=
  reassembly (stdinReader_atBoundary _) rfl (by decide) (by decide) rfl ⟨rfl, by simp [stdinReader,
    Os.sending]⟩ (by
      intro r hr
      rcases List.mem_pair.mp hr with rfl | rfl
      · exact .inl ⟨by decide, by decide, by decide⟩
      · exact .inr ⟨by decide, by decide, by decide, by decide⟩)
    ⟨by decide, by decide, by decide⟩ rfl [.getStr 3, .getChar]

/-! ### Records of other requests -/

/-- The reader that has the view `v` and nothing in its buffer. -/
def View.toChan (v : View) : Chan :=
  { stream :=
      { newStream 0 (fun _ => 0) 32 true v.type with
        fcgiErrno := v.errno
        eorStop := v.eorStop
        skip := v.skip
        contentLen := v.contentLen
        paddingLen := v.paddingLen }
    req := v.req
    os := { v.os with incoming := v.input } }

/-- Every view of an open reader is the view of one with an empty buffer. -/
theorem View.toChan_spec {v : View} (hclosed : v.closed = false) (hos : v.os.writeSide = v.os) :
    v.toChan.Open ∧ v.toChan.view = v := by
  refine ⟨⟨⟨rfl, Nat.le_refl 0, Nat.zero_le _, Nat.succ_pos 31⟩, rfl, Nat.le_refl 0, Nat.le_refl 0,
    fun h => absurd h (Nat.lt_irrefl 0)⟩, ?_⟩
  have hos' : { v.os with incoming := v.input }.writeSide = v.os := hos
  obtain ⟨_, _, _, _, _, closed⟩ := v
  obtain rfl : closed = false := hclosed
  simp [Chan.view, View.toChan, newStream, Chan.unread, hos']

/-- Two readers in the state of `v`, one with the record `r` on its wire behind
the records `pre`, the other without it, and everything else alike. -/
structure Inserted (v : View) (pre : List Record) (r : Record) (post : List UInt8) (c c' : Chan) :
    Prop where
  isOpen : c.Open
  isOpen' : c'.Open
  view_eq : c.view = v.facing (encodeAll pre ++ post)
  view_eq' : c'.view = v.facing (encodeAll pre ++ (r.encode ++ post))

/-- The record is not noticed: neither by a client that reads the stream of the
request, nor, before a request has begun, by the caller of `FillBuffProc`,
who learns of the beginning of a request or of an error. -/
def Unseen (v : View) (pre : List Record) (r : Record) : Prop :=
  ∀ (post : List UInt8) (c c' : Chan), Inserted v pre r post c c' →
    if v.req.isBeginProcessed then c.SameReads c'
    else
      ∃ d d', fillBuffProc c = some d ∧ fillBuffProc c' = some d' ∧
        d.stream.fcgiErrno = d'.stream.fcgiErrno ∧ d.req = d'.req ∧
        (d.req.isBeginProcessed = true → d.view = d'.view)

/-- A record of another request, of any length. -/
structure Record.Foreign (R : ℕ) (r : Record) : Prop where
  type_ne : r.type.toNat ≠ fcgiBeginRequest
  id_ne_null : r.requestId.toNat ≠ fcgiNullRequestId
  id_ne : r.requestId.toNat ≠ R

theorem Inserted.exists {v : View} (hv : v.Boundary) (hos : v.os.writeSide = v.os)
    (pre : List Record) (r : Record) (post : List UInt8) : ∃ c c', Inserted v pre r post c c' := by
  obtain ⟨ho, hview⟩ := View.toChan_spec (v := v.facing (encodeAll pre ++ post)) hv.closed hos
  obtain ⟨ho', hview'⟩ :=
    View.toChan_spec (v := v.facing (encodeAll pre ++ (r.encode ++ post))) hv.closed hos
  exact ⟨_, _, ho, ho', hview, hview'⟩

theorem Inserted.eorStop {v : View} {pre : List Record} {r : Record} {post : List UInt8}
    {c c' : Chan} (h : Inserted v pre r post c c') (hv : v.Boundary) :
    c.stream.eorStop = false ∧ c'.stream.eorStop = false := by
  have he : c.view.eorStop = false := by rw [h.view_eq]; exact hv.eorStop
  have he' : c'.view.eorStop = false := by rw [h.view_eq']; exact hv.eorStop
  exact ⟨he, he'⟩

theorem Inserted.errno_eq {v : View} {pre : List Record} {r : Record} {post : List UInt8}
    {c c' : Chan} (h : Inserted v pre r post c c') :
    c.stream.fcgiErrno = c'.stream.fcgiErrno := by
  have he : c.view.errno = v.errno := by rw [h.view_eq]; rfl
  have he' : c'.view.errno = v.errno := by rw [h.view_eq']; rfl
  exact he.trans he'.symm

theorem Inserted.between {v : View} {pre : List Record} {r : Record} {post : List UInt8}
    {c c' : Chan} (h : Inserted v pre r post c c') (hv : v.Boundary) : c.Between ∧ c'.Between :=
  ⟨h.isOpen.between (by rw [h.view_eq]; exact hv.contentLen),
    h.isOpen'.between (by rw [h.view_eq']; exact hv.contentLen)⟩

/-- The fill procedure goes where `advance` goes, from between two records. -/
theorem fillBuffProc_settled {c : Chan} (h : c.Between) (he : c.stream.eorStop = false) :
    ∃ d, fillBuffProc c = some d ∧ d.Settled (advance c.view) :=
  fillSpec_fillBuffProc c h.toOpen h.rdNext_eq he

/-- The records that show a stale skip flag to a client: one byte of content,
and the end of the stream. -/
def probe (T R : ℕ) : Record × Record :=
  ({ type := UInt8.ofNat T, requestId := UInt16.ofNat R, content := [0], padding := [],
     reserved := 0, content_le := by decide, padding_le := nil_padding_le },
   { type := UInt8.ofNat T, requestId := UInt16.ofNat R, content := [], padding := [],
     reserved := 0, content_le := nil_content_le, padding_le := nil_padding_le })

theorem probe_delivers {v : View} (h : v.Boundary) (htype : v.type ≠ fcgiBeginRequest)
    (htype' : v.type < 256) (hid : v.req.requestId ≠ fcgiNullRequestId)
    (hid' : v.req.requestId < 65536) :
    ∃ e, Delivers (v.facing ((probe v.type v.req.requestId).1.encode ++
      (probe v.type v.req.requestId).2.encode)) (if v.skip then [] else [0]) e := by
  have ht : (UInt8.ofNat v.type).toNat = v.type := toNat_ofNat_of_lt htype'
  have hi : (UInt16.ofNat v.req.requestId).toNat = v.req.requestId := by
    rw [UInt16.toNat_ofNat', Nat.mod_eq_of_lt hid']
  have hpass := Passes.own (v := v) (r := (probe v.type v.req.requestId).1)
    (by simp only [probe, ht]; exact htype) (by simp only [probe, hi]; exact hid) hi ht
    (by simp [probe])
  have hend := (h.passed (probe v.type v.req.requestId).1).ends htype hid
    (r := (probe v.type v.req.requestId).2) ⟨ht, hi, rfl⟩ []
  have hd := hpass.delivers h (fun h0 => absurd (hi.symm.trans h0) hid) (.stop hend)
  rw [List.append_nil] at hd
  exact ⟨_, by simpa [View.visible, probe] using hd⟩

/-- What the reader serves, once a request has begun: `ProcessBeginRecord` and
`SetReaderType` set no others. -/
structure View.Serving (v : View) : Prop where
  id_ne_null : v.req.requestId ≠ fcgiNullRequestId
  id_lt : v.req.requestId < 65536
  type_ne : v.type ≠ fcgiBeginRequest
  type_lt : v.type < 256

/-- The record that shows a stale skip flag before a request has begun. -/
def beginProbe : Record :=
  { type := 1, requestId := 1, content := [0, 1, 0, 0, 0, 0, 0, 0], padding := [], reserved := 0,
    content_le := beginBody_le, padding_le := nil_padding_le }

theorem begins_beginProbe : beginProbe.Begins := ⟨rfl, by decide, rfl⟩

/-- A foreign record changes the skip flag at most. -/
theorem Record.Foreign.passes {v : View} {R : ℕ} {r : Record} (hr : r.Foreign R)
    (hreq : v.req.requestId = R) : Passes v r [] (v.withSkip r.content.isEmpty) :=
  .foreign hr.type_ne hr.id_ne_null (by rw [hreq]; exact hr.id_ne)

theorem withSkip_eq {v : View} {b : Bool} (h : v.skip = b) : v.withSkip b = v := by
  rw [← h]
  rfl

section Foreign

variable {v w : View} {pre : List Record} {bs : List UInt8} {r : Record}

/-- A foreign record that leaves the skip flag as it is, read by a client. -/
theorem sameReads_of_foreign (hv : v.Boundary) (hbegun : v.req.isBeginProcessed = true)
    (hpre : PassesAll v pre bs w) (hr : r.Foreign v.req.requestId)
    (hskip : w.skip = r.content.isEmpty) {post : List UInt8} {c c' : Chan}
    (hi : Inserted v pre r post c c') : c.SameReads c' := by
  have hbegun' : (w.facing post).req.isBeginProcessed = true := by
    rw [← hbegun, ← hpre.req_eq]
    rfl
  obtain ⟨bs', e, hd⟩ := delivers_total hbegun'
  have hpass := hr.passes (v := w) (by rw [hpre.req_eq])
  have hd' : Delivers (w.facing (r.encode ++ post)) bs' e := by
    refine hpass.delivers (hpre.boundary hv) (fun h0 => absurd h0 hr.id_ne_null) ?_
    rwa [withSkip_eq hskip]
  obtain ⟨e₁, hd₁, he₁⟩ := hpre.delivers_errno hv hd
  obtain ⟨e₂, hd₂, he₂⟩ := hpre.delivers_errno hv hd'
  rw [← hi.view_eq] at hd₁
  rw [← hi.view_eq'] at hd₂
  exact sameReads_of_delivers hi.isOpen hi.isOpen' (hi.eorStop hv).1 (hi.eorStop hv).2 hi.errno_eq
    hd₁ hd₂ (he₁.trans he₂.symm)

/-- Any other foreign record is noticed by a client, on some wire. -/
theorem skip_eq_of_sameReads (hv : v.Boundary) (hos : v.os.writeSide = v.os)
    (hserving : v.Serving) (hpre : PassesAll v pre bs w) (hr : r.Foreign v.req.requestId)
    (h : ∀ post c c', Inserted v pre r post c c' → c.SameReads c') :
    w.skip = r.content.isEmpty := by
  have hw := hpre.boundary hv
  set probes := (probe v.type v.req.requestId).1.encode ++
    (probe v.type v.req.requestId).2.encode with hprobes
  have hd : ∀ u : View, u.Boundary → u.type = v.type → u.req = v.req →
      ∃ e, Delivers (u.facing probes) (if u.skip then [] else [0]) e := by
    intro u hu ht hreq
    rw [hprobes, ← ht, ← hreq]
    exact probe_delivers hu (by rw [ht]; exact hserving.type_ne) (by rw [ht]; exact hserving.type_lt)
      (by rw [hreq]; exact hserving.id_ne_null) (by rw [hreq]; exact hserving.id_lt)
  obtain ⟨e, hd₁⟩ := hd w hw hpre.type_eq hpre.req_eq
  obtain ⟨e', hd₂⟩ := hd (w.withSkip r.content.isEmpty)
    ⟨hw.contentLen, hw.paddingLen, hw.eorStop, hw.closed⟩ hpre.type_eq hpre.req_eq
  have hpass := hr.passes (v := w) (by rw [hpre.req_eq])
  have hd₂ := hpass.delivers hw (fun h0 => absurd h0 hr.id_ne_null) hd₂
  obtain ⟨e₁, hd₁, -⟩ := hpre.delivers_errno hv hd₁
  obtain ⟨e₂, hd₂, -⟩ := hpre.delivers_errno hv hd₂
  obtain ⟨c, c', hi⟩ := Inserted.exists hv hos pre r probes
  rw [← hi.view_eq] at hd₁
  rw [← hi.view_eq'] at hd₂
  have hsame := (delivers_of_sameReads hi.isOpen hi.isOpen' (hi.eorStop hv).1 (hi.eorStop hv).2
    hd₁ hd₂ (h _ c c' hi)).1
  have hcut := List.append_cancel_left hsame
  have hflag : (w.withSkip r.content.isEmpty).skip = r.content.isEmpty := rfl
  rw [hflag, List.nil_append] at hcut
  cases hws : w.skip <;> cases hrs : r.content.isEmpty <;> simp [hws, hrs] at hcut ⊢

/-- A foreign record that leaves the skip flag as it is, before a request has
begun. -/
theorem sameBegin_of_foreign (hv : v.Boundary) (hawait : v.req.isBeginProcessed = false)
    (hpre : PassesAll v pre [] w) (hr : r.Foreign v.req.requestId)
    (hskip : w.skip = r.content.isEmpty) {post : List UInt8} {c c' : Chan}
    (hi : Inserted v pre r post c c') :
    ∃ d d', fillBuffProc c = some d ∧ fillBuffProc c' = some d' ∧
      d.stream.fcgiErrno = d'.stream.fcgiErrno ∧ d.req = d'.req ∧
      (d.req.isBeginProcessed = true → d.view = d'.view) := by
  have hw := hpre.boundary hv
  obtain ⟨d, hfill, hset⟩ := fillBuffProc_settled (hi.between hv).1 (hi.eorStop hv).1
  obtain ⟨d', hfill', hset'⟩ := fillBuffProc_settled (hi.between hv).2 (hi.eorStop hv).2
  have hpass := hr.passes (v := w) (by rw [hpre.req_eq])
  rw [withSkip_eq hskip] at hpass
  have hadv' : d'.view = (advance (w.facing post)).2 := by
    rw [hset'.view_eq, hi.view_eq', hpre.advance_eq hv rfl (by simp [r.encode_ne_nil]),
      hpass.advance_eq hw fun h0 => absurd h0 hr.id_ne_null]
  refine ⟨d, d', hfill, hfill', ?_⟩
  by_cases hpost : post = []
  · subst hpost
    obtain ⟨e, hadv, herrno, hreq⟩ := hpre.advance_nil hv rfl
    rw [← hi.view_eq] at hadv
    have hview : d.view = e := by rw [hset.view_eq, hadv]
    rw [advance_facing_nil] at hadv'
    have hdreq : d.view.req = v.req := by rw [hview, hreq, hpre.req_eq]
    have hdreq' : d'.view.req = v.req := by rw [hadv', ← hpre.req_eq]; rfl
    have herr : d.view.errno = d'.view.errno := by rw [hview, herrno, hadv']
    refine ⟨herr, hdreq.trans hdreq'.symm, fun hbegun => ?_⟩
    have hbegun : d.view.req.isBeginProcessed = true := hbegun
    rw [hdreq, hawait] at hbegun
    cases hbegun
  · have hview : d.view = d'.view := by
      rw [hset.view_eq, hi.view_eq, hpre.advance_eq hv rfl hpost, hadv']
    have herr : d.view.errno = d'.view.errno := by rw [hview]
    have hreq : d.view.req = d'.view.req := by rw [hview]
    exact ⟨herr, hreq, fun _ => hview⟩

/-- Any other foreign record is noticed before a request has begun, on some
wire. -/
theorem skip_eq_of_sameBegin (hv : v.Boundary) (hos : v.os.writeSide = v.os)
    (hawait : v.req.isBeginProcessed = false) (hpre : PassesAll v pre [] w)
    (hr : r.Foreign v.req.requestId)
    (h : ∀ post c c', Inserted v pre r post c c' →
      ∃ d d', fillBuffProc c = some d ∧ fillBuffProc c' = some d' ∧ d.req = d'.req) :
    w.skip = r.content.isEmpty := by
  have hw := hpre.boundary hv
  have hwawait : w.req.isBeginProcessed = false := by rw [hpre.req_eq, hawait]
  have hne : beginProbe.encode ≠ [] := beginProbe.encode_ne_nil
  obtain ⟨c, c', hi⟩ := Inserted.exists hv hos pre r (beginProbe.encode ++ [])
  obtain ⟨d, d', hd, hd', hreq⟩ := h _ c c' hi
  obtain ⟨f, hf, hset⟩ := fillBuffProc_settled (hi.between hv).1 (hi.eorStop hv).1
  obtain ⟨f', hf', hset'⟩ := fillBuffProc_settled (hi.between hv).2 (hi.eorStop hv).2
  obtain rfl : d = f := Option.some.inj (hd.symm.trans hf)
  obtain rfl : d' = f' := Option.some.inj (hd'.symm.trans hf')
  have hpass := hr.passes (v := w) (by rw [hpre.req_eq])
  have hview : d.view = (advance (w.facing (beginProbe.encode ++ []))).2 := by
    rw [hset.view_eq, hi.view_eq, hpre.advance_eq hv rfl (by simp [hne])]
  have hview' : d'.view =
      (advance ((w.withSkip r.content.isEmpty).facing (beginProbe.encode ++ []))).2 := by
    rw [hset'.view_eq, hi.view_eq', hpre.advance_eq hv rfl (by simp [r.encode_ne_nil]),
      hpass.advance_eq hw fun h0 => absurd h0 hr.id_ne_null]
  have hflag : ∀ u : View, u.Boundary → u.req.isBeginProcessed = false →
      (advance (u.facing (beginProbe.encode ++ []))).2.req.isBeginProcessed = !u.skip := by
    intro u hu hawait
    cases hs : u.skip with
    | false =>
        rw [advance_begun hu hawait hs begins_beginProbe]
        rfl
    | true => exact advance_not_begun hu hawait hs begins_beginProbe []
  have hb : d.view.req.isBeginProcessed = !w.skip := by rw [hview, hflag w hw hwawait]
  have hb' : d'.view.req.isBeginProcessed = !r.content.isEmpty := by
    rw [hview', hflag (w.withSkip r.content.isEmpty)
      ⟨hw.contentLen, hw.paddingLen, hw.eorStop, hw.closed⟩ hwawait]
    rfl
  have hsame : d.view.req.isBeginProcessed = d'.view.req.isBeginProcessed :=
    congrArg ReqData.isBeginProcessed hreq
  rw [hb, hb'] at hsame
  exact Bool.not_inj hsame

/-- **A record of another request goes unnoticed exactly when it leaves the skip
flag as it found it**: when it has content and the flag is clear, or it has none
and the flag is set already. -/
theorem foreign_unseen_iff (hv : v.Boundary) (hos : v.os.writeSide = v.os)
    (hserving : v.req.isBeginProcessed = true → v.Serving) (hpre : PassesAll v pre bs w)
    (hawait : v.req.isBeginProcessed = false → bs = []) (hr : r.Foreign v.req.requestId) :
    Unseen v pre r ↔ (r.content = [] ↔ w.skip = true) := by
  have hcond : (r.content = [] ↔ w.skip = true) ↔ w.skip = r.content.isEmpty := by
    rw [← List.isEmpty_iff]
    cases w.skip <;> cases r.content.isEmpty <;> simp
  rw [hcond, Unseen]
  cases hb : v.req.isBeginProcessed with
  | true =>
      simp only [if_true]
      exact ⟨skip_eq_of_sameReads hv hos (hserving hb) hpre hr,
        fun hskip post c c' hi => sameReads_of_foreign hv hb hpre hr hskip hi⟩
  | false =>
      simp only [Bool.false_eq_true, if_false]
      obtain rfl := hawait hb
      refine ⟨fun h => skip_eq_of_sameBegin hv hos hb hpre hr fun post c c' hi => ?_,
        fun hskip post c c' hi => sameBegin_of_foreign hv hb hpre hr hskip hi⟩
      obtain ⟨d, d', hd, hd', -, hreq, -⟩ := h post c c' hi
      exact ⟨d, d', hd, hd', hreq⟩

end Foreign

/-- The view of the reader of `FCGI_STDIN` for request 1. -/
def stdinView : View := (stdinReader (.sending [] [] [])).view

theorem stdinView_boundary : stdinView.Boundary := (stdinReader_atBoundary _).view_boundary

theorem stdinView_serving : stdinView.Serving := ⟨by decide, by decide, by decide, by decide⟩

/-- The two readers of `Inserted`, with empty buffers. -/
theorem inserted_stdinReader (r : Record) (post : List UInt8) :
    Inserted stdinView [] r post (stdinReader (.sending post [] []))
      (stdinReader (.sending (r.encode ++ post) [] [])) where
  isOpen := (stdinReader_atBoundary _).toBetween.toOpen
  isOpen' := (stdinReader_atBoundary _).toBetween.toOpen
  view_eq := rfl
  view_eq' := rfl

theorem foreign_unseen_iff_stdin :
    Unseen stdinView [] (shortRecord fcgiStdout 2 [9] (by decide)) ↔
      ((shortRecord fcgiStdout 2 [9] (by decide)).content = [] ↔ stdinView.skip = true) :=
  foreign_unseen_iff stdinView_boundary rfl (fun _ => stdinView_serving) .nil
    (fun h => absurd h (by decide)) ⟨by decide, by decide, by decide⟩

/-- A record of request 2 without content: the reader then skips the next record of
its own stream. -/
theorem foreign_noticed :
    ¬∀ (v w : View) (pre : List Record) (bs : List UInt8) (r : Record), v.Boundary → v.Serving →
      PassesAll v pre bs w → r.Foreign v.req.requestId → Unseen v pre r := by
  intro hall
  let r := shortRecord fcgiStdout 2 [] (by decide)
  let post := (shortRecord fcgiStdin 1 [65] (by decide)).encode ++
    (shortRecord fcgiStdin 1 [] (by decide)).encode
  have hunseen := hall stdinView stdinView [] [] r stdinView_boundary stdinView_serving .nil
    ⟨by decide, by decide, by decide⟩
  have hsame : (stdinReader (.sending post [] [])).SameReads
      (stdinReader (.sending (r.encode ++ post) [] [])) :=
    hunseen post _ _ (inserted_stdinReader r post)
  have hwithout : (stdinReader (.sending post [] [])).observe [.getStr 2] =
      some ([[65]], 0) := by decide +kernel
  have hwith : (stdinReader (.sending (r.encode ++ post) [] [])).observe [.getStr 2] =
      some ([[]], 0) := by decide +kernel
  have := hsame [.getStr 2]
  rw [hwithout, hwith] at this
  exact absurd this (by decide)

end FastCgi
