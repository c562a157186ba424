import FastCgi.App.Respond

/-!
The Java writer (`java/FCGIOutputStream.java`), with what it uses of
`java/FCGIMessage.java`.

It is the writing half of `fcgiapp.c` once more, with indices in place of
pointers and without padding. An exception that a call throws is the
`false` of its result, and the statements behind the one that threw it are
left out (`OutChan.andThen`); `empty` catches the exception of the socket
and records it. The last part of the module says what the calls send
(`writeBytes_raw`, `close_holding`), in the terms of the C writer.
-/

namespace FastCgi

namespace Java

open ByteMem BoundedLoop

/-! ### Messages -/

/-- `FCGIMessage.makeHeader`. -/
def makeHeader (type requestId contentLength paddingLength : ℕ) : List UInt8 :=
  [fcgiVersion1, UInt8.ofNat type, UInt8.ofNat ((requestId >>> 8) &&& 0xff),
    UInt8.ofNat (requestId &&& 0xff), UInt8.ofNat ((contentLength >>> 8) &&& 0xff),
    UInt8.ofNat (contentLength &&& 0xff), UInt8.ofNat paddingLength, 0]

/-- `FCGIMessage.makeEndrequestBody`. -/
def makeEndrequestBody (appStatus : ℤ) (protocolStatus : ℕ) : List UInt8 :=
  [UInt8.ofNat ((appStatus >>> 24) % 256).toNat, UInt8.ofNat ((appStatus >>> 16) % 256).toNat,
    UInt8.ofNat ((appStatus >>> 8) % 256).toNat, UInt8.ofNat (appStatus % 256).toNat,
    UInt8.ofNat protocolStatus, 0, 0, 0]

theorem makeHeader_eq (type requestId contentLength paddingLength : ℕ) :
    makeHeader type requestId contentLength paddingLength =
      (FastCgi.makeHeader type requestId contentLength paddingLength).bytes := rfl

/-! ### The socket -/

/-- The `FileOutputStream` of the socket: what has gone out, and what the next calls of
`write` do. A call writes everything, or it throws an `IOException` after `k` bytes; when no
result is left it writes everything. -/
structure FileOutputStream where
  written : List UInt8
  results : List (Option ℕ)

/-- `write`; `false` is the exception. -/
def FileOutputStream.write (out : FileOutputStream) (bs : List UInt8) : Bool × FileOutputStream :=
  match out.results with
  | [] => (true, { out with written := out.written ++ bs })
  | none :: rs => (true, { written := out.written ++ bs, results := rs })
  | some k :: rs => (false, { written := out.written ++ bs.take k, results := rs })

/-- No call throws an exception. -/
def FileOutputStream.NeverThrows (out : FileOutputStream) : Prop := ∀ k, some k ∉ out.results

/-! ### The stream -/

/-- The part of `FCGIRequest` that an output stream refers to. -/
structure FcgiRequest where
  requestID : ℕ
  appStatus : ℤ
  numWriters : ℤ
  deriving DecidableEq

/-- `FCGIOutputStream`. The array `buff` is as long as `stop` says until `close`, and no call
stores behind `stop`. -/
structure FcgiOutputStream where
  wrNext : ℕ
  stop : ℕ
  isClosed : Bool
  /-- There is an exception in `errex`. -/
  errex : Bool
  buff : ℕ → UInt8
  type : ℕ
  isAnythingWritten : Bool
  rawWrite : Bool

/-- The constructor. -/
def newOutputStream (bufLen streamType : ℕ) : FcgiOutputStream :=
  { wrNext := fcgiHeaderLen
    stop := min bufLen fcgiMaxLength
    isClosed := false
    errex := false
    buff := fun _ => 0
    type := streamType
    isAnythingWritten := false
    rawWrite := false }

/-- A stream with the request and the socket it refers to. -/
structure OutChan where
  stream : FcgiOutputStream
  request : FcgiRequest
  out : FileOutputStream

namespace OutChan

/-- `System.arraycopy(b, off, buff, wrNext, len); wrNext += len`. -/
def put (c : OutChan) (bs : List UInt8) : OutChan :=
  { c with
    stream := { c.stream with
      buff := store c.stream.buff c.stream.wrNext bs, wrNext := c.stream.wrNext + bs.length } }

/-- `setException`. -/
def setException (c : OutChan) : OutChan :=
  { c with stream := { c.stream with errex := true, isClosed := true } }

/-- The content gets a header, or the room for the header is given up. -/
def encapsulate (c : OutChan) : OutChan :=
  if c.stream.rawWrite then c
  else if fcgiHeaderLen < c.stream.wrNext then
    { c with
      stream := { c.stream with
        buff := store c.stream.buff 0
          (makeHeader c.stream.type c.request.requestID (c.stream.wrNext - fcgiHeaderLen) 0) } }
  else { c with stream := { c.stream with wrNext := 0 } }

/-- The buffer is empty. -/
def reserveHeader (c : OutChan) : OutChan :=
  if c.stream.rawWrite then c
  else { c with stream := { c.stream with wrNext := c.stream.wrNext + fcgiHeaderLen } }

/-- The buffer goes to the socket. -/
def writeBuff (c : OutChan) : OutChan :=
  match c.out.write (slice c.stream.buff 0 c.stream.wrNext) with
  | (false, out) =>
      { c with out := out, stream := { c.stream with isAnythingWritten := true } }.setException
  | (true, out) =>
      reserveHeader { c with
        out := out, stream := { c.stream with isAnythingWritten := true, wrNext := 0 } }

/-- The second half of `empty`. -/
def flushBuff (c : OutChan) : OutChan :=
  if c.stream.wrNext ≠ 0 then writeBuff c else reserveHeader c

/-- `empty(false)`. -/
def empty (c : OutChan) : OutChan := flushBuff (encapsulate c)

/-- `write` of a byte; `false` is an `EOFException`. -/
def write (b : UInt8) (c : OutChan) : Bool × OutChan :=
  if c.stream.wrNext ≠ c.stream.stop then (true, c.put [b])
  else if c.stream.isClosed then (false, c)
  else
    let c := empty c
    if c.stream.wrNext ≠ c.stream.stop then (true, c.put [b]) else (false, c)

/-- The second half of a pass of the loop of `write`, with the number of bytes moved so far. -/
def writeEmpty (x : ℕ × OutChan) : Pass (ℕ × OutChan) (Bool × OutChan) :=
  if x.2.stream.isClosed then .done (false, x.2) else .again (x.1, empty x.2)

/-- One pass. -/
def writeBody (b : List UInt8) (x : ℕ × OutChan) : Option (Pass (ℕ × OutChan) (Bool × OutChan)) :=
  let m := min (b.length - x.1) (x.2.stream.stop - x.2.stream.wrNext)
  let y := (x.1 + m, x.2.put ((b.drop x.1).take m))
  if x.2.stream.wrNext = x.2.stream.stop then some (writeEmpty x)
  else if y.1 = b.length then some (.done (true, y.2))
  else some (writeEmpty y)

/-- `write` of an array. -/
def writeBytes (b : List UInt8) (c : OutChan) : Option (Bool × OutChan) :=
  if b.length ≤ c.stream.stop - c.stream.wrNext then some (true, c.put b)
  else run (writeBody b) (b.length + 2) (0, c)

/-- The next statement, unless an exception has been thrown. -/
def andThen (x : Option (Bool × OutChan)) (f : OutChan → Option (Bool × OutChan)) :
    Option (Bool × OutChan) :=
  match x with
  | none => none
  | some (false, c) => some (false, c)
  | some (true, c) => f c

/-- Generate EOF for stream content if needed. -/
def writeEof (c : OutChan) : Option (Bool × OutChan) :=
  if c.stream.type = fcgiStderr ∧ c.stream.wrNext = 0 ∧ c.stream.isAnythingWritten = false then
    some (true, c)
  else writeBytes (makeHeader c.stream.type c.request.requestID 0 0) c

/-- Generate `FCGI_END_REQUEST` record if needed. -/
def writeEndRequest (c : OutChan) : Option (Bool × OutChan) :=
  if c.request.numWriters = 1 then
    writeBytes (makeHeader fcgiEndRequest c.request.requestID 8 0 ++
      makeEndrequestBody c.request.appStatus fcgiRequestComplete) c
  else some (true, c)

/-- `rawWrite = true`. -/
def enterRawWrite (c : OutChan) : OutChan := { c with stream := { c.stream with rawWrite := true } }

/-- `request.numWriters--`. -/
def leaveWriter (c : OutChan) : OutChan :=
  { c with request := { c.request with numWriters := c.request.numWriters - 1 } }

/-- `writeCloseRecords`. -/
def writeCloseRecords (c : OutChan) : Option (Bool × OutChan) :=
  andThen (writeEof (enterRawWrite c)) fun c =>
    andThen (writeEndRequest c) fun c => some (true, c.leaveWriter)

/-- `empty(true)`. -/
def emptyClose (c : OutChan) : Option (Bool × OutChan) :=
  andThen (writeCloseRecords (encapsulate c)) fun c => some (true, flushBuff c)

/-- `close`. -/
def close (c : OutChan) : Option (Bool × OutChan) :=
  if c.stream.isClosed then some (true, c)
  else
    andThen (emptyClose c) fun c =>
      some (true, { c with stream := { c.stream with isClosed := true, stop := c.stream.wrNext } })

/-- `flush`. -/
def flush (c : OutChan) : OutChan := if c.stream.isClosed then c else empty c

end OutChan

/-- The stream after the call that corresponds to one of the C library. -/
def perform (call : ClientCall) (c : OutChan) : Option OutChan :=
  match call with
  | .putChar b => some (c.write b).2
  | .putStr str => (c.writeBytes str).map Prod.snd
  | .fflush => some c.flush
  | .fclose => c.close.map Prod.snd

/-! ### What goes out -/

/-- `bs` went out, and no exception was thrown. -/
structure FileOutputStream.Sent (out out' : FileOutputStream) (bs : List UInt8) : Prop where
  written : out'.written = out.written ++ bs
  neverThrows : out'.NeverThrows

theorem FileOutputStream.Sent.refl {out : FileOutputStream} (h : out.NeverThrows) :
    out.Sent out [] := ⟨(List.append_nil _).symm, h⟩

theorem FileOutputStream.Sent.trans {out out' out'' : FileOutputStream} {bs bs' : List UInt8}
    (h : out.Sent out' bs) (h' : out'.Sent out'' bs') : out.Sent out'' (bs ++ bs') :=
  ⟨by rw [h'.written, h.written, List.append_assoc], h'.neverThrows⟩

/-- A call takes all bytes, or it throws an exception after some of them. -/
theorem FileOutputStream.write_cases (out : FileOutputStream) (bs : List UInt8) :
    (∃ out', out.write bs = (true, out') ∧ out'.written = out.written ++ bs ∧
        (∀ r ∈ out'.results, r ∈ out.results) ∧ ∀ k rs, out.results ≠ some k :: rs) ∨
      ∃ k out', out.write bs = (false, out') ∧ out'.written = out.written ++ bs.take k ∧
        ∃ rs, out.results = some k :: rs := by
  rw [FileOutputStream.write]
  split
  · next hrs => exact .inl ⟨_, rfl, rfl, fun _ hr => hr, fun k rs hk => by cases hrs.symm.trans hk⟩
  · next rs hrs =>
      refine .inl ⟨_, rfl, rfl, fun r hr => ?_, fun k rs' hk => by cases hrs.symm.trans hk⟩
      rw [hrs]
      exact List.mem_cons_of_mem _ hr
  · next k rs hrs => exact .inr ⟨k, _, rfl, rfl, rs, hrs⟩

theorem FileOutputStream.NeverThrows.write {out : FileOutputStream} (h : out.NeverThrows)
    (bs : List UInt8) : ∃ out', out.write bs = (true, out') ∧ out.Sent out' bs := by
  rcases out.write_cases bs with ⟨out', hwrite, hout, hsub, -⟩ | ⟨k, -, -, -, rs, hrs⟩
  · exact ⟨out', hwrite, hout, fun k hk => h k (hsub _ hk)⟩
  · exact absurd (hrs ▸ List.mem_cons_self) (h k)

/-- The stream once its buffer has gone out. -/
def FcgiOutputStream.emptied (s : FcgiOutputStream) : FcgiOutputStream :=
  { s with
    wrNext := if s.rawWrite then 0 else fcgiHeaderLen
    isAnythingWritten := s.isAnythingWritten || s.wrNext ≠ 0 }

/-- The buffer goes out. -/
theorem flushBuff_sent {c : OutChan} (h : c.out.NeverThrows) :
    ∃ out, c.flushBuff = { c with stream := c.stream.emptied, out := out } ∧
      c.out.Sent out (slice c.stream.buff 0 c.stream.wrNext) := by
  rw [OutChan.flushBuff]
  split
  · next hne =>
      obtain ⟨out, hwrite, hsent⟩ := h.write (slice c.stream.buff 0 c.stream.wrNext)
      refine ⟨out, ?_, hsent⟩
      rw [OutChan.writeBuff, hwrite]
      by_cases hraw : c.stream.rawWrite = true <;>
        simp [OutChan.reserveHeader, FcgiOutputStream.emptied, hraw, hne]
  · next hzero =>
      have hz : c.stream.wrNext = 0 := not_not.mp hzero
      refine ⟨c.out, ?_, ?_⟩
      · rcases c with ⟨s, request, out⟩
        cases s
        dsimp only at hz
        subst hz
        simp only [OutChan.reserveHeader, FcgiOutputStream.emptied]
        split <;> simp
      · rw [hz]
        exact .refl h

/-! ### Streams that hold content -/

/-- An open stream with this content in its buffer. -/
structure FcgiOutputStream.Holding (s : FcgiOutputStream) (pending : List UInt8) : Prop where
  isOpen : s.isClosed = false
  rawWrite : s.rawWrite = false
  wrNext_le : s.wrNext ≤ s.stop
  stop_le : s.stop ≤ 65535
  stop_ge : 24 ≤ s.stop
  wrNext_eq : s.wrNext = 8 + pending.length
  content : slice s.buff 8 pending.length = pending

/-- A stream that goes from one state to the other has sent these records and holds this
content. -/
structure OutChan.Wrote (c c' : OutChan) (recs : List Record) (pending : List UInt8) : Prop where
  holding : c'.stream.Holding pending
  sent : c.out.Sent c'.out (encodeAll recs)
  isAnythingWritten :
    c'.stream.isAnythingWritten = (c.stream.isAnythingWritten || decide (recs ≠ []))
  type : c'.stream.type = c.stream.type
  stop : c'.stream.stop = c.stream.stop
  request : c'.request = c.request

theorem OutChan.Wrote.refl {c : OutChan} {pending : List UInt8} (h : c.stream.Holding pending)
    (hout : c.out.NeverThrows) : c.Wrote c [] pending := ⟨h, .refl hout, by simp, rfl, rfl, rfl⟩

theorem OutChan.Wrote.trans {c c' c'' : OutChan} {recs recs' : List Record} {p p' : List UInt8}
    (h : c.Wrote c' recs p) (h' : c'.Wrote c'' recs' p') : c.Wrote c'' (recs ++ recs') p' where
  holding := h'.holding
  sent := by
    rw [encodeAll_append]
    exact h.sent.trans h'.sent
  isAnythingWritten := by
    rw [h'.isAnythingWritten, h.isAnythingWritten, Bool.or_assoc]
    cases recs <;> simp
  type := h'.type.trans h.type
  stop := h'.stop.trans h.stop
  request := h'.request.trans h.request

theorem FcgiOutputStream.Holding.put {c : OutChan} {pending : List UInt8}
    (h : c.stream.Holding pending) {bs : List UInt8}
    (hroom : bs.length ≤ c.stream.stop - c.stream.wrNext) :
    (c.put bs).stream.Holding (pending ++ bs) where
  isOpen := h.isOpen
  rawWrite := h.rawWrite
  wrNext_le := by
    have hle := h.wrNext_le
    show c.stream.wrNext + bs.length ≤ c.stream.stop
    omega
  stop_le := h.stop_le
  stop_ge := h.stop_ge
  wrNext_eq := by
    show c.stream.wrNext + bs.length = _
    rw [h.wrNext_eq, List.length_append, Nat.add_assoc]
  content := by
    show slice (store c.stream.buff c.stream.wrNext bs) 8 _ = _
    rw [h.wrNext_eq, List.length_append, slice_store_append, h.content]

theorem OutChan.Wrote.put {c c' : OutChan} {recs : List Record} {pending : List UInt8}
    (h : c.Wrote c' recs pending) {bs : List UInt8}
    (hroom : bs.length ≤ c'.stream.stop - c'.stream.wrNext) :
    c.Wrote (c'.put bs) recs (pending ++ bs) :=
  ⟨h.holding.put hroom, h.sent, h.isAnythingWritten, h.type, h.stop, h.request⟩

/-- What has to be known of the request and the type so that they fit a header. -/
structure OutChan.Fits (c : OutChan) : Prop where
  type_lt : c.stream.type < 256
  requestID_lt : c.request.requestID < 65536

theorem OutChan.Wrote.fits {c c' : OutChan} {recs : List Record} {pending : List UInt8}
    (h : c.Wrote c' recs pending) (hf : c.Fits) : c'.Fits :=
  ⟨h.type ▸ hf.type_lt, h.request ▸ hf.requestID_lt⟩

/-- The content gets a header and becomes a record without padding, if there is any. -/
theorem encapsulate_holding {c : OutChan} {pending : List UInt8} (h : c.stream.Holding pending)
    (hf : c.Fits) :
    ∃ recs buff wrNext, OneBlock c.stream.type c.request.requestID pending recs ∧
      slice buff 0 wrNext = encodeAll recs ∧ wrNext ≤ c.stream.wrNext ∧
      c.encapsulate = { c with stream := { c.stream with buff := buff, wrNext := wrNext } } := by
  have hnext := h.wrNext_eq
  have hlen : pending.length ≤ 65535 := by
    have hle := h.wrNext_le
    have hstop := h.stop_le
    omega
  by_cases hnil : pending = []
  · subst hnil
    refine ⟨[], c.stream.buff, 0, ⟨contentRecords_nil, rfl, Nat.zero_le _, nofun⟩, rfl,
      Nat.zero_le _, ?_⟩
    rw [OutChan.encapsulate, if_neg (by simp [h.rawWrite]), if_neg (by rw [hnext]; decide)]
  · have hpos : 0 < pending.length := List.length_pos_iff.mpr hnil
    have hcLen : c.stream.wrNext - fcgiHeaderLen = pending.length := by
      rw [hnext]
      exact Nat.add_sub_cancel_left 8 _
    let r := dataRecord c.stream.type c.request.requestID pending [] hlen (Nat.zero_le _)
    let header := makeHeader c.stream.type c.request.requestID pending.length 0
    refine ⟨[r], store c.stream.buff 0 header, c.stream.wrNext,
      ⟨fun r' hr' => ?_, by simp [contents, r, dataRecord], Nat.le_refl 1, ?_⟩, ?_, Nat.le_refl _,
      ?_⟩
    on_goal 2 =>
      intro r' hr'
      rw [List.mem_singleton.mp hr']
      rfl
    · rw [List.mem_singleton.mp hr']
      exact ⟨dataRecord_type hf.type_lt, dataRecord_requestId hf.requestID_lt, hnil⟩
    · have hrec : r.encode = header ++ pending := by
        rw [encode_dataRecord hf.type_lt hf.requestID_lt, List.append_nil]
        rfl
      calc slice (store c.stream.buff 0 header) 0 c.stream.wrNext
          = slice (store c.stream.buff 0 header) 0 (header.length + pending.length) := by
            rw [hnext]
            rfl
        _ = header ++ slice c.stream.buff 8 pending.length := slice_store_front header
        _ = encodeAll [r] := by rw [h.content, ← hrec, encodeAll_cons, encodeAll_nil,
            List.append_nil]
    · have hlt : fcgiHeaderLen < c.stream.wrNext := by
        rw [hnext]
        exact Nat.lt_add_of_pos_right hpos
      rw [OutChan.encapsulate, if_neg (by simp [h.rawWrite]), if_pos hlt, hcLen]

/-- **`empty`** sends what an open stream holds, as one record. -/
theorem empty_holding {c : OutChan} {pending : List UInt8} (h : c.stream.Holding pending)
    (hf : c.Fits) (hout : c.out.NeverThrows) :
    ∃ recs, OneBlock c.stream.type c.request.requestID pending recs ∧ c.Wrote c.empty recs [] := by
  obtain ⟨recs, buff, wrNext, hblock, hbytes, -, henc⟩ := encapsulate_holding h hf
  have hany : (wrNext ≠ 0) = (recs ≠ []) := by
    rw [Ne, Ne, ← encodeAll_eq_nil_iff, ← hbytes, slice_eq_nil_iff]
  refine ⟨recs, hblock, ?_⟩
  rw [OutChan.empty, henc]
  obtain ⟨out, hflush, hsent⟩ := flushBuff_sent
    (c := { c with stream := { c.stream with buff := buff, wrNext := wrNext } }) hout
  rw [hflush]
  have hnext : (if c.stream.rawWrite then 0 else fcgiHeaderLen) = 8 := by rw [h.rawWrite]; rfl
  have hge := h.stop_ge
  refine ⟨⟨h.isOpen, h.rawWrite, ?_, h.stop_le, h.stop_ge, hnext, rfl⟩, ?_, ?_, rfl, rfl, rfl⟩
  · show (if c.stream.rawWrite then 0 else fcgiHeaderLen) ≤ c.stream.stop
    rw [hnext]
    omega
  · rw [← hbytes]
    exact hsent
  · simp only [FcgiOutputStream.emptied, hany]

/-! ### Closing an open stream -/

/-- An open stream in raw mode: all of its buffer goes out as it is. -/
structure FcgiOutputStream.Raw (s : FcgiOutputStream) (bytes : List UInt8) : Prop where
  isOpen : s.isClosed = false
  rawWrite : s.rawWrite = true
  wrNext_le : s.wrNext ≤ s.stop
  stop_pos : 0 < s.stop
  wrNext_eq : s.wrNext = bytes.length
  content : slice s.buff 0 bytes.length = bytes

/-- A stream that is being closed has sent a front part of `target` and holds the rest. -/
structure OutChan.Closing (c c' : OutChan) (target : List UInt8) : Prop where
  bytes : ∃ sent bytes, sent ++ bytes = target ∧ c'.stream.Raw bytes ∧ c.out.Sent c'.out sent
  type : c'.stream.type = c.stream.type
  request : c'.request = c.request

theorem OutChan.Closing.put {c c' : OutChan} {target : List UInt8} (h : c.Closing c' target)
    {bs : List UInt8} (hroom : bs.length ≤ c'.stream.stop - c'.stream.wrNext) :
    c.Closing (c'.put bs) (target ++ bs) := by
  obtain ⟨⟨sent, bytes, htarget, hraw, hsent⟩, htype, hrequest⟩ := h
  refine ⟨⟨sent, bytes ++ bs, by rw [← List.append_assoc, htarget], ?_, hsent⟩, htype, hrequest⟩
  refine ⟨hraw.isOpen, hraw.rawWrite, ?_, hraw.stop_pos, ?_, ?_⟩
  · have hle := hraw.wrNext_le
    show c'.stream.wrNext + bs.length ≤ c'.stream.stop
    omega
  · show c'.stream.wrNext + bs.length = _
    rw [hraw.wrNext_eq, List.length_append]
  · show slice (store c'.stream.buff c'.stream.wrNext bs) 0 _ = _
    have happ := slice_store_append (m := c'.stream.buff) (i := 0) (n := bytes.length) bs
    rw [Nat.zero_add, hraw.content] at happ
    rw [hraw.wrNext_eq, List.length_append, happ]

/-- The raw buffer goes out. -/
theorem OutChan.Closing.flushBuff {c c' : OutChan} {target : List UInt8}
    (h : c.Closing c' target) :
    c'.flushBuff.stream.Raw [] ∧ c'.flushBuff.stream.wrNext = 0 ∧
      c.out.Sent c'.flushBuff.out target ∧ c'.flushBuff.stream.type = c.stream.type ∧
      c'.flushBuff.request = c.request := by
  obtain ⟨⟨sent, bytes, htarget, hraw, hsent⟩, htype, hrequest⟩ := h
  obtain ⟨out, hflush, hsent'⟩ := flushBuff_sent hsent.neverThrows
  have hzero : c'.stream.emptied.wrNext = 0 := by
    show (if c'.stream.rawWrite then 0 else fcgiHeaderLen) = 0
    rw [hraw.rawWrite]
    rfl
  rw [hflush]
  refine ⟨⟨hraw.isOpen, hraw.rawWrite, ?_, hraw.stop_pos, hzero, rfl⟩, hzero, ?_, htype, hrequest⟩
  · show c'.stream.emptied.wrNext ≤ c'.stream.stop
    rw [hzero]
    exact Nat.zero_le _
  · rw [hraw.wrNext_eq, hraw.content] at hsent'
    exact htarget ▸ hsent.trans hsent'

theorem OutChan.Closing.empty {c c' : OutChan} {target : List UInt8} (h : c.Closing c' target) :
    c.Closing c'.empty target ∧ c'.empty.stream.wrNext < c'.empty.stream.stop := by
  have hsame : c'.empty = c'.flushBuff := by
    obtain ⟨⟨_, _, -, hraw, -⟩, -, -⟩ := h
    rw [OutChan.empty, OutChan.encapsulate, if_pos hraw.rawWrite]
  obtain ⟨hraw, hzero, hsent, htype, hrequest⟩ := h.flushBuff
  rw [hsame]
  refine ⟨⟨⟨target, [], List.append_nil _, hraw, hsent⟩, htype, hrequest⟩, ?_⟩
  rw [hzero]
  exact hraw.stop_pos

/-- **`write` of an array in raw mode** puts all bytes. -/
theorem writeBytes_raw {c c' : OutChan} {target : List UInt8} (h : c.Closing c' target)
    (b : List UInt8) :
    ∃ c'', c'.writeBytes b = some (true, c'') ∧ c.Closing c'' (target ++ b) := by
  rw [OutChan.writeBytes]
  split
  · next hroom => exact ⟨_, rfl, h.put hroom⟩
  · next hslow =>
      let I (x : ℕ × OutChan) : Prop :=
        x.1 < b.length ∧ c.Closing x.2 (target ++ b.take x.1)
      let P (r : Bool × OutChan) : Prop := r.1 = true ∧ c.Closing r.2 (target ++ b)
      -- a buffer that is full is emptied before any byte is moved
      let μ (x : ℕ × OutChan) : ℕ :=
        b.length - x.1 + if x.2.stream.wrNext = x.2.stream.stop then 1 else 0
      have hempty : ∀ x, I x → OutChan.writeEmpty x = .again (x.1, x.2.empty) ∧
          I (x.1, x.2.empty) ∧ μ (x.1, x.2.empty) = b.length - x.1 := by
        rintro x ⟨hlt, hx⟩
        obtain ⟨hx', hroom⟩ := hx.empty
        obtain ⟨⟨_, _, -, hraw, -⟩, -, -⟩ := hx
        refine ⟨?_, ⟨hlt, hx'⟩, ?_⟩
        · rw [OutChan.writeEmpty, if_neg (by rw [hraw.isOpen]; decide)]
        · show b.length - x.1 + (if _ then 1 else 0) = _
          rw [if_neg (Nat.ne_of_lt hroom), Nat.add_zero]
      have hstep : ∀ x, I x → (∃ r, OutChan.writeBody b x = some (.done r) ∧ P r) ∨
          ∃ y, OutChan.writeBody b x = some (.again y) ∧ I y ∧ μ y < μ x := by
        rintro ⟨k, d⟩ ⟨hlt, hd⟩
        dsimp only at hlt hd
        by_cases hfull : d.stream.wrNext = d.stream.stop
        · obtain ⟨hagain, hI, hμ⟩ := hempty (k, d) ⟨hlt, hd⟩
          refine .inr ⟨_, by rw [OutChan.writeBody, if_pos hfull, hagain], hI, ?_⟩
          rw [hμ]
          show b.length - k < b.length - k + if d.stream.wrNext = d.stream.stop then 1 else 0
          rw [if_pos hfull]
          exact Nat.lt_succ_self _
        · let m := min (b.length - k) (d.stream.stop - d.stream.wrNext)
          have hle : d.stream.wrNext ≤ d.stream.stop := by
            obtain ⟨⟨_, _, -, hraw, -⟩, -, -⟩ := hd
            exact hraw.wrNext_le
          have hput : c.Closing (d.put ((b.drop k).take m)) (target ++ b.take (k + m)) := by
            rw [List.take_add, ← List.append_assoc]
            apply hd.put
            rw [List.length_take]
            omega
          have hbody : OutChan.writeBody b (k, d) =
              if k + m = b.length then some (.done (true, d.put ((b.drop k).take m)))
              else some (OutChan.writeEmpty (k + m, d.put ((b.drop k).take m))) := if_neg hfull
          rw [hbody]
          by_cases hall : k + m = b.length
          · rw [hall, List.take_length] at hput
            exact .inl ⟨(true, d.put ((b.drop k).take m)), if_pos hall, rfl, hput⟩
          · obtain ⟨hagain, hI, hμ⟩ :=
              hempty (k + m, d.put ((b.drop k).take m)) ⟨by dsimp only; omega, hput⟩
            rw [if_neg hall, hagain]
            refine .inr ⟨_, rfl, hI, ?_⟩
            rw [hμ]
            show b.length - (k + m) < b.length - k + if _ then 1 else 0
            omega
      have hstart : I (0, c') := by
        refine ⟨by dsimp only; omega, ?_⟩
        rwa [List.take_zero, List.append_nil]
      obtain ⟨⟨ok, c''⟩, hrun, rfl, hend⟩ := run_total I P μ hstep hstart (by
        show b.length - 0 + (if _ then 1 else 0) < b.length + 2
        split <;> omega)
      exact ⟨c'', hrun, hend⟩

/-- The bytes of the record that ends a stream. -/
theorem encode_eofRecord {type requestID : ℕ} (ht : type < 256) (hid : requestID < 65536) :
    (eofRecord type requestID).encode = makeHeader type requestID 0 0 := by
  rw [eofRecord, encode_dataRecord ht hid]
  rfl

/-- The bytes of the record that ends a request. -/
theorem encode_endRecord {requestID : ℕ} (hid : requestID < 65536) (appStatus : ℤ) :
    (endRecord requestID appStatus).encode =
      makeHeader fcgiEndRequest requestID 8 0 ++
        makeEndrequestBody appStatus fcgiRequestComplete := by
  rw [endRecord, encode_dataRecord (by decide) hid, List.append_nil]
  rfl

/-- The stream puts the record that ends it. -/
theorem writeEof_closing {c e : OutChan} {recs : List Record} (hf : c.Fits)
    (h : c.Closing e (encodeAll recs))
    (hany : e.stream.isAnythingWritten = c.stream.isAnythingWritten)
    (hnext : e.stream.wrNext = 0 ↔ recs = []) :
    ∃ c', e.writeEof = some (true, c') ∧ c.Closing c' (encodeAll (recs ++
      eofRecords c.stream.type c.request.requestID
        (c.stream.isAnythingWritten || decide (recs ≠ [])))) := by
  have hsilent : (c.stream.isAnythingWritten || decide (recs ≠ [])) = false ↔
      e.stream.wrNext = 0 ∧ e.stream.isAnythingWritten = false := by
    rw [Bool.or_eq_false_iff, decide_eq_false_iff_not, not_not, hnext, hany, and_comm]
  rw [OutChan.writeEof, h.type, h.request]
  by_cases hquiet : c.stream.type = fcgiStderr ∧ e.stream.wrNext = 0 ∧
      e.stream.isAnythingWritten = false
  · rw [if_pos hquiet, eofRecords, if_pos ⟨hquiet.1, hsilent.mpr hquiet.2⟩, List.append_nil]
    exact ⟨e, rfl, h⟩
  · rw [if_neg hquiet, eofRecords, if_neg fun hq => hquiet ⟨hq.1, hsilent.mp hq.2⟩,
      encodeAll_append, encodeAll_cons, encodeAll_nil, List.append_nil,
      encode_eofRecord hf.type_lt hf.requestID_lt]
    exact writeBytes_raw h _

/-- The last writer puts the record that ends the request. -/
theorem writeEndRequest_closing {c e : OutChan} {recs : List Record} (hf : c.Fits)
    (h : c.Closing e (encodeAll recs)) :
    ∃ c', e.writeEndRequest = some (true, c') ∧ c.Closing c' (encodeAll (recs ++
      endRecords c.request.requestID c.request.appStatus
        (decide (c.request.numWriters = 1)))) := by
  rw [OutChan.writeEndRequest, h.request, endRecords]
  simp only [decide_eq_true_eq]
  split
  · rw [encodeAll_append, encodeAll_cons, encodeAll_nil, List.append_nil,
      encode_endRecord hf.requestID_lt]
    exact writeBytes_raw h _
  · rw [List.append_nil]
    exact ⟨e, rfl, h⟩

/-- A stream that `close` has closed. -/
structure FcgiOutputStream.Finished (s : FcgiOutputStream) : Prop where
  isClosed : s.isClosed = true
  wrNext_eq : s.wrNext = s.stop

/-- **`close`** of an open stream sends what it holds, the end of the stream, and with the last
writer the end of the request. -/
theorem close_holding {c : OutChan} {pending : List UInt8} (h : c.stream.Holding pending)
    (hf : c.Fits) (hout : c.out.NeverThrows) :
    ∃ c' recs, c.close = some (true, c') ∧ OneBlock c.stream.type c.request.requestID pending recs ∧
      c.out.Sent c'.out (encodeAll ((recs ++ eofRecords c.stream.type c.request.requestID
          (c.stream.isAnythingWritten || decide (recs ≠ []))) ++
        endRecords c.request.requestID c.request.appStatus
          (decide (c.request.numWriters = 1)))) ∧
      c'.request = { c.request with numWriters := c.request.numWriters - 1 } ∧
      c'.stream.Finished ∧ c'.stream.type = c.stream.type := by
  obtain ⟨recs, buff, wrNext, hblock, hbytes, hle, henc⟩ := encapsulate_holding h hf
  have hlen : wrNext = (encodeAll recs).length := by rw [← hbytes, length_slice]
  have hzero : wrNext = 0 ↔ recs = [] := by
    rw [hlen, List.length_eq_zero_iff, encodeAll_eq_nil_iff]
  have hge := h.stop_ge
  -- in raw mode the content is one record, or nothing
  have hraw : c.Closing (OutChan.enterRawWrite c.encapsulate) (encodeAll recs) := by
    rw [henc]
    refine ⟨⟨[], encodeAll recs, rfl, ?_, .refl hout⟩, rfl, rfl⟩
    refine ⟨h.isOpen, rfl, Nat.le_trans hle h.wrNext_le, ?_, hlen, hlen ▸ hbytes⟩
    show 0 < c.stream.stop
    omega
  obtain ⟨c₁, heof, hc₁⟩ := writeEof_closing hf hraw (by rw [henc]; rfl) (by rw [henc]; exact hzero)
  obtain ⟨c₂, hend, hc₂⟩ := writeEndRequest_closing hf hc₁
  have hc₃ : (c.leaveWriter).Closing c₂.leaveWriter (encodeAll ((recs ++
      eofRecords c.stream.type c.request.requestID
          (c.stream.isAnythingWritten || decide (recs ≠ []))) ++
        endRecords c.request.requestID c.request.appStatus
          (decide (c.request.numWriters = 1)))) := by
    refine ⟨hc₂.bytes, hc₂.type, ?_⟩
    show { c₂.request with numWriters := c₂.request.numWriters - 1 } = _
    rw [hc₂.request]
    rfl
  obtain ⟨-, -, hsent, htype, hrequest⟩ := hc₃.flushBuff
  let d := c₂.leaveWriter.flushBuff
  refine ⟨{ d with stream := { d.stream with isClosed := true, stop := d.stream.wrNext } }, recs,
    ?_, hblock, hsent, hrequest, ⟨rfl, rfl⟩, htype⟩
  rw [OutChan.close, if_neg (by rw [h.isOpen]; decide), OutChan.emptyClose,
    OutChan.writeCloseRecords, heof]
  simp only [OutChan.andThen, hend]
  rfl

/-- A stream that has been closed does not change any more. -/
theorem perform_finished {c : OutChan} (h : c.stream.Finished) (call : ClientCall) :
    perform call c = some c := by
  have hput : c.put [] = c := by simp [OutChan.put]
  cases call with
  | putChar b => simp [perform, OutChan.write, h.wrNext_eq, h.isClosed]
  | putStr str =>
      by_cases hnil : str = []
      · have hfast : c.writeBytes [] = some (true, c.put []) := if_pos (Nat.zero_le _)
        rw [perform, hnil, hfast, hput]
        rfl
      · have hslow : ¬str.length ≤ c.stream.stop - c.stream.wrNext := by
          rw [h.wrNext_eq, Nat.sub_self, Nat.le_zero, List.length_eq_zero_iff]
          exact hnil
        have hpass : OutChan.writeBody str (0, c) = some (.done (false, c)) := by
          simp [OutChan.writeBody, OutChan.writeEmpty, h.wrNext_eq, h.isClosed]
        rw [perform, OutChan.writeBytes, if_neg hslow, run_done hpass, Option.map_some]
  | fflush => simp [perform, OutChan.flush, h.isClosed]
  | fclose => simp [perform, OutChan.close, h.isClosed]

end Java

end FastCgi
