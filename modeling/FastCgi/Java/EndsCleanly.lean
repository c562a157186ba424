import FastCgi.Java.FillScan

/-!
How the Java reader ends.

Where the wire is one the reader copes with (`Scan.Sound`), every list of
calls of the two `read` methods gets the content of the stream and then the
end, with an error or an exception recorded unless the stream has ended by
itself (`reader_endsCleanly`). Elsewhere bytes are returned that no one has
sent (`reader_stale`): `in.read` reports the end of the source as -1, which
`fill` takes for a number of bytes, and an exception in the middle of a
header or of padding finds `stop` behind `rdNext`.
-/

namespace FastCgi

namespace Java

open Machine

/-- How many bytes a call asks for. -/
def InCall.asked : InCall → ℕ
  | .read => 1
  | .readBytes len => len.toNat

/-- What a call returns from a stream that delivers `bs`. -/
def InCall.reply (bs : List UInt8) : InCall → Reply
  | .read => .byte bs.head?
  | .readBytes len => .bytes (bs.take len.toNat)

/-- What the calls return: each takes its bytes from the front. -/
def replies : List UInt8 → List InCall → List Reply
  | _, [] => []
  | bs, call :: calls => call.reply bs :: replies (bs.drop call.asked) calls

namespace InChan

/-- The scan of the bytes a stream has not consumed, from the first header on. -/
def scan (c : InChan) : Scan :=
  { phase := .header []
    requestID := c.request.requestID
    type := c.stream.type
    socket := c.socket
    stale := false
    marked := true }

/-- A stream before its first header: nothing has been read for it, and no error is recorded. -/
structure Fresh (c : InChan) : Prop where
  spans : ∃ r e, c.Spans r e
  stop : c.stream.rdNext = c.stream.stop
  inRecord : InRecord c.stream false 0 0 false
  isOpen : c.stream.isClosed = false
  noError : c.stream.errno = 0

/-- `setReaderType` starts a stream. -/
theorem fresh_setReaderType {c : InChan} (h : ∃ r e, c.Spans r e) (herrno : c.stream.errno = 0)
    (type : ℕ) : (c.setReaderType type).Fresh := by
  obtain ⟨r, e, hr, he, hle, hroom, hchunks⟩ := h
  exact ⟨⟨r, e, hr, he, hle, hroom, hchunks⟩, rfl, ⟨rfl, rfl, rfl, rfl⟩, rfl, herrno⟩

variable {c : InChan} {fin : Prop} {bs : List UInt8}

/-- At the end every call reports the end and changes nothing. -/
theorem AtEnd.perform (h : c.AtEnd) (call : InCall) :
    ∃ reply, c.perform call = some (reply, c) := by
  have hclosed := h.isClosed
  cases call with
  | read =>
      refine ⟨.byte none, ?_⟩
      rw [InChan.perform, InChan.read, if_neg (not_not.mpr h.rdNext_eq), if_pos hclosed]
      rfl
  | readBytes len =>
      refine ⟨.bytes [], ?_⟩
      rw [InChan.perform, InChan.readBytes]
      by_cases hnone : len ≤ 0
      · rw [if_pos hnone]
        rfl
      · have hstop := h.rdNext_eq
        have hpass : readBytesBody fill len ([], c) = some (.done ([], c)) := by
          rw [readBytesBody, if_neg (not_not.mpr h.rdNext_eq), readFill, if_pos hclosed]
        rw [if_neg hnone, if_neg (by omega), BoundedLoop.run_done hpass]
        rfl

theorem AtEnd.performAll (h : c.AtEnd) (calls : List InCall) :
    ∃ rs, c.performAll calls = some (rs, c) := by
  induction calls with
  | nil => exact ⟨[], rfl⟩
  | cons call calls ih =>
      obtain ⟨reply, hperform⟩ := h.perform call
      obtain ⟨rs, hrest⟩ := ih
      exact ⟨reply :: rs, by simp only [InChan.performAll, hperform, hrest, Option.map_some]⟩

theorem Reading.recorded (h : Streams fin bs c) (hend : c.AtEnd) : Recorded fin c := by
  cases h with
  | live hr hk hle hbs h => exact nomatch hend.isClosed.symm.trans h.length_le.2.1
  | ended _ _ h => exact h

/-- A call takes its bytes from the front of what the stream delivers. -/
theorem Reading.perform (h : Streams fin bs c) (call : InCall) :
    ∃ c', c.perform call = some (call.reply bs, c') ∧ Streams fin (bs.drop call.asked) c' ∧
      (bs.length < call.asked → c'.AtEnd) := by
  cases call with
  | read =>
      obtain ⟨c', hread, hstreams, hend⟩ := (supplies_stream fin).read h
      rw [← List.drop_one] at hstreams
      refine ⟨c', by rw [InChan.perform, hread]; rfl, hstreams, fun hshort => hend ?_⟩
      exact List.length_eq_zero_iff.mp (Nat.lt_one_iff.mp hshort)
  | readBytes len =>
      obtain ⟨c', hread, hstreams, hend⟩ := (supplies_stream fin).readBytes h len
      exact ⟨c', by rw [InChan.perform, hread]; rfl, hstreams, hend⟩

theorem Reading.performAll (h : Streams fin bs c) (calls : List InCall) :
    ∃ c', c.performAll calls = some (replies bs calls, c') ∧
      (bs.length < (calls.map InCall.asked).sum → c'.AtEnd ∧ Recorded fin c') := by
  induction calls generalizing bs c with
  | nil => exact ⟨c, rfl, fun hshort => absurd hshort (Nat.not_lt_zero _)⟩
  | cons call calls ih =>
      obtain ⟨c₁, hperform, hstreams, hend⟩ := h.perform call
      obtain ⟨c₂, hrest, hended⟩ := ih hstreams
      refine ⟨c₂, ?_, fun hshort => ?_⟩
      · simp only [InChan.performAll, hperform, hrest, Option.map_some, replies]
      · rw [List.map_cons, List.sum_cons] at hshort
        by_cases hnow : bs.length < call.asked
        · -- this call has met the end, and the ones behind it change nothing
          obtain ⟨rs, hsame⟩ := (hend hnow).performAll calls
          rw [hsame] at hrest
          obtain ⟨-, rfl⟩ := Prod.mk.inj (Option.some.inj hrest)
          rw [List.drop_eq_nil_of_le hnow.le] at hstreams
          exact ⟨hend hnow, hstreams.recorded (hend hnow)⟩
        · apply hended
          rw [List.length_drop]
          omega

/-- A stream before its first header delivers the content of the wire. -/
theorem Fresh.streams (h : c.Fresh) (hsound : c.scan.Sound c.inp.atEnd c.unread) :
    Streams ((c.scan.after c.unread).phase = .finished .endOfStream) (c.scan.content c.unread) c := by
  obtain ⟨r, e, hspans⟩ := h.spans
  have hrec := h.inRecord
  have hwaits : Waits ((c.scan.after c.unread).phase = .finished .endOfStream)
      (c.scan.content c.unread) [] c :=
    ⟨hrec.eorStop, c.scan, ⟨⟨hrec, rfl, by decide⟩, ⟨rfl, rfl, rfl, h.isOpen, h.noError⟩,
      h.spans, fun _ => h.stop, ⟨hsound, rfl, id⟩⟩⟩
  have hbs : c.scan.content c.unread =
      ByteMem.slice c.stream.buff r (r - r) ++ c.scan.content c.unread := by
    rw [Nat.sub_self, ByteMem.slice_zero, List.nil_append]
  refine .live hspans.rdNext (h.stop ▸ hspans.rdNext) le_rfl hbs ?_
  rwa [toStop_of_eq h.stop]

end InChan

/-- **The Java reader ends cleanly** on the wires it copes with: whatever the calls are, they get
the content of the stream that has come before the end, and then the end, with an error or an
exception recorded unless the stream has ended by itself. -/
theorem reader_endsCleanly {c : InChan} (hfresh : c.Fresh)
    (hsound : c.scan.Sound c.inp.atEnd c.unread) (calls : List InCall) :
    ∃ c', c.performAll calls = some (replies (c.scan.content c.unread) calls, c') ∧
      ((c.scan.content c.unread).length < (calls.map InCall.asked).sum →
        c'.AtEnd ∧ ((c.scan.after c.unread).phase = .finished .endOfStream ∨ c'.stream.errno ≠ 0 ∨
          c'.stream.errex = true)) :=
  (hfresh.streams hsound).performAll calls

/-! ### Two sources -/

/-- The standard input of request 1 from a source with these chunks. -/
def stdinFrom (chunks : List (List UInt8)) (atEnd : SourceEnd) : InChan :=
  { stream := newInputStream 64 fcgiStdin
    request := {
      requestID := 1, appStatus := 0, numWriters := 2, isBeginProcessed := true,
      keepConnection := false, role := 1, outStream := none }
    inp := { chunks := chunks, atEnd := atEnd }
    socket := { written := [], results := [] } }

/-- Two records of the stream, with a record of another request and a query between them; the
source throws an exception before the last byte. -/
def throwingSource : InChan :=
  stdinFrom [[1, 5, 0, 1, 0], [2, 1, 0, 65, 66, 0, 1, 5, 0, 2, 0, 1, 0, 0, 90, 1, 9],
    [0, 0, 0, 0, 0, 0, 1, 5, 0, 1, 0, 3, 0, 0, 67, 68]] .ioException

theorem reader_endsCleanly_throwing :
    ∃ c', throwingSource.performAll [.read, .readBytes 2, .read, .readBytes 5, .read] =
        some ([.byte (some 65), .bytes [66, 67], .byte (some 68), .bytes [], .byte none], c') ∧
      c'.AtEnd ∧ (c'.stream.errno ≠ 0 ∨ c'.stream.errex = true) := by
  have hfresh : throwingSource.Fresh :=
    ⟨⟨0, 0, rfl, rfl, le_rfl, Nat.zero_le _, by decide⟩, rfl, ⟨rfl, rfl, rfl, rfl⟩, rfl, rfl⟩
  have hsound : throwingSource.scan.Sound throwingSource.inp.atEnd throwingSource.unread :=
    .of_exec (by decide +kernel)
  have hcontent : throwingSource.scan.content throwingSource.unread = [65, 66, 67, 68] := by
    decide +kernel
  have hphase : (throwingSource.scan.after throwingSource.unread).phase ≠ .finished .endOfStream := by
    decide +kernel
  obtain ⟨c', hrun, hend⟩ :=
    reader_endsCleanly hfresh hsound [.read, .readBytes 2, .read, .readBytes 5, .read]
  rw [hcontent] at hrun hend
  obtain ⟨hatEnd, herror⟩ := hend (by decide)
  exact ⟨c', hrun, hatEnd, herror.resolve_left hphase⟩

/-- Bytes that no one has sent: the source ends behind the only byte that has come of the
content, and the version of the header is delivered; or an exception is thrown in the middle of
the next header, and the byte behind it is delivered. -/
theorem reader_stale :
    ((stdinFrom [[1, 5, 0, 1, 0, 2, 0, 0, 65]] .eof).performAll [.read, .read]).map Prod.fst =
        some [.byte (some 65), .byte (some 1)] ∧
      (stdinFrom [[1, 5, 0, 1, 0, 2, 0, 0, 65]] .eof).scan.content
        [1, 5, 0, 1, 0, 2, 0, 0, 65] = [65] ∧
      ((stdinFrom [[1, 5, 0, 1, 0, 1, 0, 0, 65, 1, 5, 0]] .ioException).performAll
        [.read, .read]).map Prod.fst = some [.byte (some 65), .byte (some 0)] ∧
      (stdinFrom [[1, 5, 0, 1, 0, 1, 0, 0, 65, 1, 5, 0]] .ioException).scan.content
        [1, 5, 0, 1, 0, 1, 0, 0, 65, 1, 5, 0] = [65] := by
  decide +kernel

end Java

end FastCgi
