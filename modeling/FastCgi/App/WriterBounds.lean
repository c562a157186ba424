import FastCgi.App.Respond
import FastCgi.Lib.Runs

/-!
Where a writer stores.

`Checked` is the writer once more, with what the code relies on tested
where it relies on it: every store is inside the buffer, the two
assertions of `MakeHeader` hold, and the records of stream data are sound.
On a stream that `NewStream` has made, the checked writer is the writer.
The buffer is `bufflen` bytes from `buff` on; a pointer is its offset.
-/

namespace FastCgi

open ByteMem BoundedLoop Machine

/-- What the code relies on, and does not find. -/
inductive WriterFault where
  /-- A store outside the buffer. -/
  | outside
  /-- A failed `ASSERT`. -/
  | assertFailed
  /-- A record of stream data that is not sound. -/
  | unsound
  /-- The loop of `FCGX_PutStr` goes round too often. -/
  | unfinished
  deriving DecidableEq

/-- A record of stream data: `cLen` bytes of content, `eLen` with the padding. -/
structure SoundRecord (header : Header) (cLen eLen : ℤ) : Prop where
  cLen_pos : 1 ≤ cLen
  cLen_le : cLen ≤ 65535
  contentLength : (header.contentLength : ℤ) = cLen
  padding_le : eLen - cLen ≤ 7
  paddingLength : (header.paddingLength.toNat : ℤ) = eLen - cLen
  whole : (fcgiHeaderLen + eLen) % 8 = 0

instance (header : Header) (cLen eLen : ℤ) : Decidable (SoundRecord header cLen eLen) :=
  decidable_of_iff
    (1 ≤ cLen ∧ cLen ≤ 65535 ∧ (header.contentLength : ℤ) = cLen ∧ eLen - cLen ≤ 7 ∧
      (header.paddingLength.toNat : ℤ) = eLen - cLen ∧ (fcgiHeaderLen + eLen) % 8 = 0)
    ⟨fun ⟨h₁, h₂, h₃, h₄, h₅, h₆⟩ => ⟨h₁, h₂, h₃, h₄, h₅, h₆⟩,
      fun ⟨h₁, h₂, h₃, h₄, h₅, h₆⟩ => ⟨h₁, h₂, h₃, h₄, h₅, h₆⟩⟩

namespace Checked

/-- `memcpy(stream->wrNext, str, n); stream->wrNext += n`. -/
def put (c : Chan) (bs : List UInt8) : Except WriterFault Chan :=
  if c.stream.wrNext + bs.length ≤ c.stream.bufflen then .ok (c.put bs) else .error .outside

/-- A store at `data->buff`. -/
def storeHeader (c : Chan) (header : Header) : Except WriterFault Chan :=
  if header.bytes.length ≤ c.stream.bufflen then
    .ok { c with stream := { c.stream with buff := store c.stream.buff 0 header.bytes } }
  else .error .outside

/-- `MakeHeader`. -/
def makeHeader (type requestId : ℕ) (contentLength paddingLength : ℤ) :
    Except WriterFault Header :=
  if (0 ≤ contentLength ∧ contentLength ≤ fcgiMaxLength) ∧ 0 ≤ paddingLength ∧
      paddingLength ≤ 0xff then
    .ok (FastCgi.makeHeader type requestId contentLength.toNat paddingLength.toNat)
  else .error .assertFailed

/-- The buffered content gets its padding and a header. -/
def makeRecord (c : Chan) : Except WriterFault Chan := do
  let cLen : ℤ := c.stream.wrNext - fcgiHeaderLen
  let eLen : ℤ := alignInt8 cLen.toNat
  let padded ← put c (List.replicate (eLen - cLen).toNat 0)
  let header ← makeHeader c.stream.type c.req.requestId cLen (eLen - cLen)
  if SoundRecord header cLen eLen then storeHeader padded header else .error .unsound

def encapsulate (c : Chan) : Except WriterFault Chan :=
  if c.stream.rawWrite then .ok c
  else if fcgiHeaderLen < c.stream.wrNext then makeRecord c
  else .ok { c with stream := { c.stream with wrNext := 0 } }

/-- `EmptyBuffProc(stream, FALSE)`. -/
def emptyBuffProc (c : Chan) : Except WriterFault Chan := (encapsulate c).map flushBuff

/-- `FCGX_PutChar`. -/
def fcgxPutChar (b : UInt8) (c : Chan) : Except WriterFault Chan :=
  if c.stream.wrNext ≠ c.stream.stop then put c [b]
  else if c.stream.isClosed || c.stream.isReader then .ok c
  else do
    let c ← emptyBuffProc c
    if c.stream.wrNext ≠ c.stream.stop then put c [b]
    else if c.stream.isClosed then .ok c
    else .error .assertFailed

/-- The second half of a pass of the loop of `FCGX_PutStr`. -/
def putStrEmpty (x : ℕ × Chan) : Pass (ℕ × Chan) (Except WriterFault Chan) :=
  if x.2.stream.isClosed || x.2.stream.isReader then .done (.ok x.2)
  else
    match emptyBuffProc x.2 with
    | .error fault => .done (.error fault)
    | .ok c => .again (x.1, c)

/-- One pass. The room in the buffer is not negative. -/
def putStrBody (str : List UInt8) (x : ℕ × Chan) :
    Option (Pass (ℕ × Chan) (Except WriterFault Chan)) :=
  let m := min (str.length - x.1) (x.2.stream.stop - x.2.stream.wrNext)
  if x.2.stream.stop < x.2.stream.wrNext then some (.done (.error .outside))
  else if x.2.stream.wrNext = x.2.stream.stop then some (putStrEmpty x)
  else
    match put x.2 ((str.drop x.1).take m) with
    | .error fault => some (.done (.error fault))
    | .ok c => if x.1 + m = str.length then some (.done (.ok c)) else some (putStrEmpty (x.1 + m, c))

/-- `FCGX_PutStr`. -/
def fcgxPutStr (str : List UInt8) (c : Chan) : Except WriterFault Chan :=
  if c.stream.stop < c.stream.wrNext then .error .outside
  else if str.length ≤ c.stream.stop - c.stream.wrNext then put c str
  else (run (putStrBody str) (str.length + 2) (0, c)).getD (.error .unfinished)

/-- Generate EOF for stream content if needed. -/
def writeEof (c : Chan) : Except WriterFault Chan :=
  if c.stream.type = fcgiStderr ∧ c.stream.wrNext = 0 ∧ c.stream.isAnythingWritten = false then
    .ok c
  else do
    let header ← makeHeader c.stream.type c.req.requestId 0 0
    fcgxPutStr header.bytes c

/-- Generate `FCGI_END_REQUEST` record if needed. -/
def writeEndRequest (c : Chan) : Except WriterFault Chan :=
  if c.req.nWriters = 1 then do
    let header ← makeHeader fcgiEndRequest c.req.requestId 8 0
    fcgxPutStr (header.bytes ++ makeEndRequestBody c.req.appStatus fcgiRequestComplete) c
  else .ok c

/-- `WriteCloseRecords`. -/
def writeCloseRecords (c : Chan) : Except WriterFault Chan := do
  let c ← writeEof (enterRawWrite c)
  let c ← writeEndRequest c
  return c.leaveWriter

/-- `EmptyBuffProc(stream, TRUE)`. -/
def emptyBuffProcClose (c : Chan) : Except WriterFault Chan := do
  let c ← encapsulate c
  let c ← writeCloseRecords c
  return flushBuff c

/-- `FCGX_FClose`. -/
def fcgxFClose (c : Chan) : Except WriterFault Chan :=
  if c.stream.wasFCloseCalled then .ok c
  else do
    let c ← if c.stream.isReader then .ok c else emptyBuffProcClose c
    return { c with stream := closeStream c.stream }

/-- `FCGX_FFlush`. -/
def fcgxFFlush (c : Chan) : Except WriterFault Chan :=
  if c.stream.isClosed || c.stream.isReader then .ok c else emptyBuffProc c

def perform : ClientCall → Chan → Except WriterFault Chan
  | .putChar b => fcgxPutChar b
  | .putStr str => fcgxPutStr str
  | .fflush => fcgxFFlush
  | .fclose => fcgxFClose

end Checked

/-! ### No fault -/

variable {len : ℕ}

/-- A writer that stays in its buffer of `len` bytes. -/
structure Stream.InBounds (s : Stream) (len : ℕ) : Prop extends s.IsWriter where
  stop_le : s.stop ≤ s.bufflen
  bufflen_eq : s.bufflen = len

theorem Stream.IsWriter.inBounds {s : Stream} (h : s.IsWriter)
    (hopen : s.wasFCloseCalled = false) (hlen : s.bufflen = len) : s.InBounds len :=
  ⟨h, (h.stop_eq hopen).le, hlen⟩

theorem encapsulate_bufflen (c : Chan) : (encapsulate c).stream.bufflen = c.stream.bufflen := by
  rw [encapsulate]
  split
  · rfl
  · split <;> rfl

theorem flushBuff_bufflen (c : Chan) : (flushBuff c).stream.bufflen = c.stream.bufflen := by
  rcases flushBuff_spec c with ⟨os', hfl, -⟩ | ⟨e, os', hfl, -⟩
  · rw [hfl]
    rfl
  · rw [hfl]
    rfl

theorem Stream.InBounds.put {c : Chan} (h : c.stream.InBounds len) (bs : List UInt8)
    (hroom : bs.length ≤ c.stream.stop - c.stream.wrNext) :
    Checked.put c bs = .ok (c.put bs) ∧ (c.put bs).stream.InBounds len := by
  have hwrNext := h.wrNext_le
  have hstop := h.stop_le
  exact ⟨if_pos (by omega), h.toIsWriter.put hroom, hstop, h.bufflen_eq⟩

theorem checked_makeHeader (type requestId : ℕ) (contentLength paddingLength : ℕ)
    (hc : contentLength ≤ 65535) (hp : paddingLength ≤ 255) :
    Checked.makeHeader type requestId contentLength paddingLength =
      .ok (makeHeader type requestId contentLength paddingLength) := by
  have hmax : fcgiMaxLength = 65535 := rfl
  rw [Checked.makeHeader, if_pos (by omega), Int.toNat_natCast, Int.toNat_natCast]

/-- The record that the padding completes. -/
theorem soundRecord_makeHeader (type requestId : ℕ) {n : ℕ} (hpos : 0 < n) (hle : n ≤ 65535) :
    SoundRecord (makeHeader type requestId n (alignInt8 n - n)) n (alignInt8 n) where
  cLen_pos := by omega
  cLen_le := by omega
  contentLength := by rw [makeHeader_contentLength hle]
  padding_le := by
    have := alignInt8_sub_le n
    omega
  paddingLength := by
    have hpad := alignInt8_sub_le n
    have hn := le_alignInt8 n
    have hbyte : (makeHeader type requestId n (alignInt8 n - n)).paddingLength.toNat =
        alignInt8 n - n := toNat_ofNat_of_lt (by omega)
    rw [hbyte]
    omega
  whole := by
    have hlen : fcgiHeaderLen = 8 := rfl
    rw [alignInt8]
    omega

theorem checked_makeRecord {c : Chan} (h : c.stream.InBounds len)
    (hopen : c.stream.wasFCloseCalled = false) (hlt : fcgiHeaderLen < c.stream.wrNext) :
    Checked.makeRecord c = .ok (makeRecord c) := by
  have hstop := h.stop_eq hopen
  have hwrNext := h.wrNext_le
  have hmod := h.bufflen_mod
  have hge := h.bufflen_ge
  have hle := h.bufflen_le
  have hlen : fcgiHeaderLen = 8 := rfl
  obtain ⟨n, hn⟩ : ∃ n, c.stream.wrNext = fcgiHeaderLen + n := ⟨_, (Nat.add_sub_of_le hlt.le).symm⟩
  have hcLen : (c.stream.wrNext : ℤ) - fcgiHeaderLen = n := by omega
  have hpad : ((alignInt8 n : ℕ) : ℤ) - n = (alignInt8 n - n : ℕ) := by
    have := le_alignInt8 n
    omega
  have hpad_le := alignInt8_sub_le n
  -- the buffer is a multiple of 8, so the padding fits into it
  have hfit := alignInt8_le (n := n) (m := c.stream.bufflen - 8) (by omega) (by omega)
  have hput := h.put (List.replicate (alignInt8 n - n) 0) (by
    have := le_alignInt8 n
    rw [List.length_replicate]
    omega)
  have hheader := checked_makeHeader c.stream.type c.req.requestId n (alignInt8 n - n)
    (by omega) (by omega)
  have hsound := soundRecord_makeHeader c.stream.type c.req.requestId (n := n) (by omega) (by omega)
  have hstore : Checked.storeHeader (c.put (List.replicate (alignInt8 n - n) 0))
      (makeHeader c.stream.type c.req.requestId n (alignInt8 n - n)) = .ok (makeRecord c) := by
    rw [Checked.storeHeader, if_pos (by
      show 8 ≤ c.stream.bufflen
      omega), makeRecord, hn, Nat.add_sub_cancel_left]
  simp only [Checked.makeRecord, hcLen, Int.toNat_natCast, hpad, hput.1, hheader]
  change (if _ then _ else _) = _
  rw [if_pos hsound, hstore]

theorem checked_encapsulate {c : Chan} (h : c.stream.InBounds len)
    (hopen : c.stream.wasFCloseCalled = false) :
    Checked.encapsulate c = .ok (encapsulate c) := by
  rw [Checked.encapsulate, encapsulate]
  split
  · rfl
  · split
    · next hlt => exact checked_makeRecord h hopen hlt
    · rfl

theorem checked_emptyBuffProc {c : Chan} (h : c.stream.InBounds len)
    (hopen : c.stream.wasFCloseCalled = false) :
    Checked.emptyBuffProc c = .ok (emptyBuffProc c) ∧ (emptyBuffProc c).stream.InBounds len := by
  have hgrows := emptyBuffProc_grows h.toIsWriter hopen
  refine ⟨?_, hgrows.isWriter.inBounds (hgrows.wasFCloseCalled.trans hopen) ?_⟩
  · rw [Checked.emptyBuffProc, checked_encapsulate h hopen]
    rfl
  · rw [emptyBuffProc, flushBuff_bufflen, encapsulate_bufflen, h.bufflen_eq]

theorem checked_putChar {c : Chan} (h : c.stream.InBounds len) (b : UInt8) :
    ∃ ok c', fcgxPutChar b c = some (ok, c') ∧ Checked.fcgxPutChar b c = .ok c' ∧
      c'.stream.InBounds len := by
  have hwrNext := h.wrNext_le
  rw [fcgxPutChar, Checked.fcgxPutChar]
  split
  · obtain ⟨hput, h'⟩ := h.put [b] (by rw [List.length_singleton]; omega)
    exact ⟨true, _, rfl, hput, h'⟩
  · split
    · exact ⟨false, c, rfl, rfl, h⟩
    · next hc =>
        simp only [Bool.or_eq_true, not_or, Bool.not_eq_true] at hc
        have hopen := h.toIsWriter.wasFCloseCalled hc.1
        obtain ⟨hempty, h'⟩ := checked_emptyBuffProc h hopen
        have hwrNext' := h'.wrNext_le
        rw [hempty]
        simp only [bind, Except.bind]
        split
        · obtain ⟨hput, h''⟩ := h'.put [b] (by rw [List.length_singleton]; omega)
          exact ⟨true, _, rfl, hput, h''⟩
        · have hclosed := (emptyBuffProc_room h.toIsWriter hopen).resolve_right (by omega)
          rw [if_pos hclosed, if_pos hclosed]
          exact ⟨false, _, rfl, rfl, h'⟩

theorem checked_putStrEmpty {x : ℕ × Chan} (h : x.2.stream.InBounds len) :
    some (Checked.putStrEmpty x) = (putStrEmpty x).map (Pass.map fun r => .ok r.2) ∧
      ∀ p, putStrEmpty x = some p →
        p.Holds (fun y => y.2.stream.InBounds len) (fun r => r.2.stream.InBounds len) := by
  rw [Checked.putStrEmpty, putStrEmpty]
  split
  · refine ⟨rfl, fun p hp => ?_⟩
    cases hp
    exact h
  · next hc =>
      simp only [Bool.or_eq_true, not_or, Bool.not_eq_true] at hc
      obtain ⟨hempty, h'⟩ := checked_emptyBuffProc h (h.toIsWriter.wasFCloseCalled hc.1)
      rw [hempty]
      refine ⟨rfl, fun p hp => ?_⟩
      cases hp
      exact h'

theorem checked_putStrBody (str : List UInt8) {x : ℕ × Chan} (h : x.2.stream.InBounds len) :
    Checked.putStrBody str x = (putStrBody str x).map (Pass.map fun r => .ok r.2) ∧
      ∀ p, putStrBody str x = some p →
        p.Holds (fun y => y.2.stream.InBounds len) (fun r => r.2.stream.InBounds len) := by
  have hroom : ((str.drop x.1).take
      (min (str.length - x.1) (x.2.stream.stop - x.2.stream.wrNext))).length ≤
        x.2.stream.stop - x.2.stream.wrNext := by
    rw [List.length_take]
    omega
  obtain ⟨hput, h'⟩ := h.put _ hroom
  simp only [Checked.putStrBody, putStrBody]
  rw [if_neg (Nat.not_lt.mpr h.wrNext_le)]
  split
  · exact checked_putStrEmpty h
  · rw [hput]
    dsimp only
    split
    · refine ⟨rfl, fun p hp => ?_⟩
      cases hp
      exact h'
    · exact checked_putStrEmpty (x := (x.1 + min (str.length - x.1)
        (x.2.stream.stop - x.2.stream.wrNext), x.2.put _)) h'

/-- `FCGX_PutStr` keeps a closed stream where it is. -/
theorem checked_putStr {c : Chan} (h : c.stream.InBounds len) (str : List UInt8) :
    ∃ n c', fcgxPutStr str c = some (n, c') ∧ Checked.fcgxPutStr str c = .ok c' ∧ c.Grows c' ∧
      c'.stream.InBounds len := by
  obtain ⟨n, c', hput, hgrows⟩ := fcgxPutStr_grows h.toIsWriter str
  refine ⟨n, c', hput, ?_, hgrows, ?_⟩
  · rw [fcgxPutStr] at hput
    rw [Checked.fcgxPutStr, if_neg (Nat.not_lt.mpr h.wrNext_le)]
    split
    · next hfast =>
        rw [if_pos hfast] at hput
        cases hput
        exact (h.put str hfast).1
    · next hslow =>
        rw [if_neg hslow] at hput
        rw [run_map (fun r => .ok r.2) (fun x hx => (checked_putStrBody str hx).1)
          (fun x y hx hy => (checked_putStrBody str hx).2 _ hy) h, hput]
        rfl
  · rw [fcgxPutStr] at hput
    split at hput
    · next hfast =>
        cases hput
        exact (h.put str hfast).2
    · exact run_invariant (I := fun x => x.2.stream.InBounds len) (P := fun r => r.2.stream.InBounds len)
        (fun x p hx hp => (checked_putStrBody str hx).2 p hp) h hput

theorem checked_writeEof {c : Chan} (h : c.stream.InBounds len) :
    ∃ c', writeEof c = some c' ∧ Checked.writeEof c = .ok c' ∧ c.Grows c' ∧
      c'.stream.InBounds len := by
  rw [writeEof, Checked.writeEof]
  split
  · exact ⟨c, rfl, rfl, .refl h.toIsWriter, h⟩
  · obtain ⟨n, c', hput, hchecked, hgrows, h'⟩ := checked_putStr h (eofHeader c)
    have hheader : Checked.makeHeader c.stream.type c.req.requestId 0 0 =
        .ok (makeHeader c.stream.type c.req.requestId 0 0) :=
      checked_makeHeader _ _ 0 0 (by omega) (by omega)
    refine ⟨c', by rw [hput]; rfl, ?_, hgrows, h'⟩
    rw [hheader]
    exact hchecked

theorem checked_writeEndRequest {c : Chan} (h : c.stream.InBounds len) :
    ∃ c', writeEndRequest c = some c' ∧ Checked.writeEndRequest c = .ok c' ∧ c.Grows c' ∧
      c'.stream.InBounds len := by
  rw [writeEndRequest, Checked.writeEndRequest]
  split
  · obtain ⟨n, c', hput, hchecked, hgrows, h'⟩ := checked_putStr h (endRequestRecord c)
    have hheader : Checked.makeHeader fcgiEndRequest c.req.requestId 8 0 =
        .ok (makeHeader fcgiEndRequest c.req.requestId 8 0) :=
      checked_makeHeader _ _ 8 0 (by omega) (by omega)
    refine ⟨c', by rw [hput]; rfl, ?_, hgrows, h'⟩
    rw [hheader]
    exact hchecked
  · exact ⟨c, rfl, rfl, .refl h.toIsWriter, h⟩

theorem checked_fclose {c : Chan} (h : c.stream.InBounds len) :
    ∃ z c', fcgxFClose c = some (z, c') ∧ Checked.fcgxFClose c = .ok c' ∧
      c'.stream.InBounds len := by
  by_cases hclosed : c.stream.wasFCloseCalled = true
  · exact ⟨_, c, by rw [fcgxFClose, if_pos hclosed], by rw [Checked.fcgxFClose, if_pos hclosed], h⟩
  · have hopen := Bool.not_eq_true _ ▸ hclosed
    have henc := encapsulate_grows h.toIsWriter hopen
    have hraw := henc.trans (.enterRawWrite henc.isWriter)
    obtain ⟨c₁, heof, heof', hg₁, h₁⟩ := checked_writeEof
      (hraw.isWriter.inBounds (hraw.wasFCloseCalled.trans hopen)
        ((encapsulate_bufflen c).trans h.bufflen_eq))
    obtain ⟨c₂, hend, hend', hg₂, h₂⟩ := checked_writeEndRequest h₁
    have hg : c.Grows (flushBuff c₂.leaveWriter) := by
      have hg := (hraw.trans hg₁).trans hg₂
      have hleave : c.Grows c₂.leaveWriter := ⟨hg.isWriter, hg.wasFCloseCalled, hg.log⟩
      exact hleave.trans (flushBuff_grows hg.isWriter (hg.wasFCloseCalled.trans hopen))
    have hd := hg.isWriter.inBounds (hg.wasFCloseCalled.trans hopen)
      ((flushBuff_bufflen c₂.leaveWriter).trans h₂.bufflen_eq)
    let d := flushBuff c₂.leaveWriter
    have hclose : closeChan c = some { d with stream := closeStream d.stream } := by
      simp [closeChan, h.isReader, FastCgi.emptyBuffProcClose, writeCloseRecords, heof, hend, d]
    have hclose' : Checked.fcgxFClose c = .ok { d with stream := closeStream d.stream } := by
      simp [Checked.fcgxFClose, hopen, h.isReader, Checked.emptyBuffProcClose,
        Checked.writeCloseRecords, checked_encapsulate h hopen, heof', hend', d, bind, Except.bind,
        pure, Except.pure]
    refine ⟨_, _, by rw [fcgxFClose, if_neg hclosed, hclose], hclose', hd.toIsWriter.closeStream, ?_, ?_⟩
    · rw [closeStream_eq hd.isReader]
      exact hd.wrNext_le.trans hd.stop_le
    · rw [closeStream_eq hd.isReader]
      exact hd.bufflen_eq

/-- **One call.** -/
theorem checked_perform {c : Chan} (h : c.stream.InBounds len) (call : ClientCall) :
    ∃ c', call.perform c = some c' ∧ Checked.perform call c = .ok c' ∧ c'.stream.InBounds len := by
  cases call with
  | putChar b =>
      obtain ⟨ok, c', hput, hchecked, h'⟩ := checked_putChar h b
      exact ⟨c', by rw [ClientCall.perform, hput]; rfl, hchecked, h'⟩
  | putStr str =>
      obtain ⟨n, c', hput, hchecked, -, h'⟩ := checked_putStr h str
      exact ⟨c', by rw [ClientCall.perform, hput]; rfl, hchecked, h'⟩
  | fflush =>
      rw [ClientCall.perform, Checked.perform, Checked.fcgxFFlush, fcgxFFlush]
      split
      · exact ⟨c, rfl, rfl, h⟩
      · next hc =>
          simp only [Bool.or_eq_true, not_or, Bool.not_eq_true] at hc
          obtain ⟨hempty, h'⟩ := checked_emptyBuffProc h (h.toIsWriter.wasFCloseCalled hc.1)
          exact ⟨_, rfl, hempty, h'⟩
  | fclose =>
      obtain ⟨z, c', hclose, hchecked, h'⟩ := checked_fclose h
      exact ⟨c', by rw [ClientCall.perform, hclose]; rfl, hchecked, h'⟩

/-! ### Runs -/

/-- A call on the writer; or the other streams of the request change what they share with it,
and the descriptor. -/
inductive WriterInput where
  | call (call : ClientCall)
  | others (req : ReqData) (os : Os)

inductive WriterSteps : Chan → WriterInput → Chan → Prop
  | call {c c' : Chan} {call : ClientCall} (h : call.perform c = some c') :
      WriterSteps c (.call call) c'
  | others (c : Chan) (req : ReqData) (os : Os) :
      WriterSteps c (.others req os) { c with req := req, os := os }

theorem WriterSteps.inBounds {c c' : Chan} {i : WriterInput} (h : c.stream.InBounds len)
    (hstep : WriterSteps c i c') : c'.stream.InBounds len := by
  cases hstep with
  | call hcall =>
      obtain ⟨c'', hperform, -, h'⟩ := checked_perform h _
      obtain rfl := Option.some.inj (hperform.symm.trans hcall)
      exact h'
  | others => exact h

/-- What `NewStream` asks `malloc` for. -/
def blockLen (bufflen : ℤ) : ℕ := alignInt8 (min (max bufflen 32) (fcgiMaxLength + 1)).toNat

/-- The buffer is inside the block. -/
theorem buffer_inBlock (mBuff : ℕ) (stale : ℕ → UInt8) (bufflen : ℤ) (isReader : Bool)
    (streamType : ℕ) :
    mBuff ≤ alignPtr8 mBuff ∧
      alignPtr8 mBuff + (newStream mBuff stale bufflen isReader streamType).bufflen ≤
        mBuff + blockLen bufflen := by
  have hlen : 32 ≤ blockLen bufflen := by
    have hmax : fcgiMaxLength = 65535 := rfl
    rw [blockLen, alignInt8]
    omega
  have hbufflen : (newStream mBuff stale bufflen isReader streamType).bufflen =
      if alignPtr8 mBuff ≠ mBuff then blockLen bufflen - 8 else blockLen bufflen := rfl
  rw [hbufflen]
  split
  · simp only [alignPtr8] at *
    omega
  · simp only [alignPtr8] at *
    omega

theorem inBounds_newStream (mBuff : ℕ) (stale : ℕ → UInt8) (bufflen : ℤ) (streamType : ℕ) :
    (newStream mBuff stale bufflen false streamType).InBounds
      (newStream mBuff stale bufflen false streamType).bufflen :=
  (holding_newStream mBuff stale bufflen streamType).toIsWriter.inBounds rfl rfl

/-- **Writer bounds.** After any calls on a stream that `NewStream` has made, the next call
stores inside the buffer only, fails no assertion and makes sound records, whatever
`OS_Write` has done and does; and the buffer is inside the block that was allocated. -/
theorem writer_inBounds {mBuff : ℕ} {stale : ℕ → UInt8} {bufflen : ℤ} {streamType : ℕ}
    {req : ReqData} {os : Os} {is : List WriterInput} {c : Chan}
    (hrun : Runs WriterSteps ⟨newStream mBuff stale bufflen false streamType, req, os⟩ is c) :
    (∀ call : ClientCall, ∃ c', call.perform c = some c' ∧ Checked.perform call c = .ok c') ∧
      mBuff ≤ alignPtr8 mBuff ∧ alignPtr8 mBuff + c.stream.bufflen ≤ mBuff + blockLen bufflen := by
  let len := (newStream mBuff stale bufflen false streamType).bufflen
  have h : c.stream.InBounds len :=
    hrun.invariant (I := fun d : Chan => d.stream.InBounds len)
      (fun _ _ _ h hstep => hstep.inBounds h) (inBounds_newStream mBuff stale bufflen streamType)
  refine ⟨fun call => ?_, ?_⟩
  · obtain ⟨c', hperform, hchecked, -⟩ := checked_perform h call
    exact ⟨c', hperform, hchecked⟩
  · rw [h.bufflen_eq]
    exact buffer_inBlock mBuff stale bufflen false streamType

/-- Three bytes into a buffer of 24 bytes at an odd address, and the stream is closed by the last
writer of request 1. -/
theorem writer_inBounds_three :
    ∃ c, Runs WriterSteps
        ⟨newStream 5 (fun _ => 0) (-1) false fcgiStdout, ⟨1, 1, true, false, 0, 1⟩,
          .sending [] [] [.accept 2]⟩
        [.call (.putStr [1, 2, 3]), .call .fclose] c ∧
      c.stream.bufflen = 24 ∧
      (∀ call : ClientCall, ∃ c', call.perform c = some c' ∧ Checked.perform call c = .ok c') ∧
        5 ≤ alignPtr8 5 ∧ alignPtr8 5 + c.stream.bufflen ≤ 5 + blockLen (-1) :=
  have hrun : Runs WriterSteps
      ⟨newStream 5 (fun _ => 0) (-1) false fcgiStdout, ⟨1, 1, true, false, 0, 1⟩,
        .sending [] [] [.accept 2]⟩
      [.call (.putStr [1, 2, 3]), .call .fclose] _ :=
    .cons (.call rfl) (.single (.call rfl))
  ⟨_, hrun, rfl, writer_inBounds hrun⟩

end FastCgi
