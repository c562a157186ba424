import FastCgi.Lib.ByteMem
import FastCgi.Protocol.Record

/-!
Streams, the request data they share, and the descriptor they use
(`libfcgi/fcgiapp.c`, `libfcgi/os_unix.c`).

The operating system is the part of the world the library does not
control: the bytes the peer has sent, how `OS_Read` cuts them into chunks
and what it reports once they are exhausted, and what every `OS_Write`
returns. All of it is data of `Os`, so that a statement about every
chunking and every write behaviour is a statement about every `Os`. Every
call of `OS_Write` is recorded in `Os.log`.

`Stream` is `FCGX_Stream` together with its `FCGX_Stream_Data`. A pointer
into the buffer is its offset from `data->buff`; the cells of the buffer
that nobody has stored to hold what `malloc` left there (`Os.stale`).
-/

namespace FastCgi

open ByteMem

/-- A string without its NUL. -/
structure CString where
  bytes : List UInt8
  noNul : (0 : UInt8) ∉ bytes

/-! ### The operating system -/

/-- An `errno` value, as `OS_Errno` reports it after a call that failed. -/
abbrev Errno := { e : ℤ // 0 < e }

/-- What one call of `OS_Write` does: it takes at most `k + 1` bytes, or it
returns -1. -/
inductive WriteResult where
  | accept (k : ℕ)
  | fail (e : Errno)
  deriving DecidableEq

/-- One past call of `OS_Write`: the bytes offered and the value returned. -/
structure WriteCall where
  buf : List UInt8
  wrote : ℤ
  deriving DecidableEq

/-- The descriptor of a connection and the memory of the process. -/
structure Os where
  /-- The bytes the peer sends that no `OS_Read` has delivered yet. -/
  incoming : List UInt8
  /-- The next chunks hold at most one byte more than these numbers. -/
  readSizes : List ℕ
  /-- What `OS_Read` returns once `incoming` is exhausted: 0, or -1. -/
  readEnd : Option Errno
  /-- What the next calls of `OS_Write` do. -/
  writeResults : List WriteResult
  /-- What they do after that: take everything, or fail. -/
  writeEnd : Option Errno
  log : List WriteCall
  /-- What uninitialised memory holds. -/
  stale : ℕ → UInt8

/-- A peer that sends `wire` and closes; every chunk holds at most one byte more
than its number in `readSizes`, and the first writes end with `writeResults`. -/
def Os.sending (wire : List UInt8) (readSizes : List ℕ) (writeResults : List WriteResult) : Os :=
  { incoming := wire, readSizes := readSizes, readEnd := none, writeResults := writeResults
    writeEnd := none, log := [], stale := fun _ => 0 }

/-- The bytes that `OS_Write` took, in order. -/
def accepted (log : List WriteCall) : List UInt8 :=
  log.flatMap fun c => c.buf.take c.wrote.toNat

@[simp] theorem accepted_nil : accepted [] = [] := rfl

@[simp] theorem accepted_append (l l' : List WriteCall) :
    accepted (l ++ l') = accepted l ++ accepted l' := by simp [accepted]

@[simp] theorem accepted_singleton (c : WriteCall) :
    accepted [c] = c.buf.take c.wrote.toNat := by simp [accepted]

/-- `OS_Read` of at most `len` bytes: a chunk, or 0 (`none`), or -1 and an
errno. -/
def osRead (os : Os) (len : ℕ) : Except (Option Errno) (List UInt8) × Os :=
  if os.incoming = [] then (.error os.readEnd, os)
  else
    let n := match os.readSizes with
      | [] => len
      | k :: _ => min (k + 1) len
    (.ok (os.incoming.take n),
      { os with incoming := os.incoming.drop n, readSizes := os.readSizes.tail })

/-- `OS_Write`: the number of bytes taken, or -1 and an errno. -/
def osWrite (os : Os) (buf : List UInt8) : Except Errno ℕ × Os :=
  match os.writeResults with
  | [] =>
      match os.writeEnd with
      | none => (.ok buf.length, { os with log := os.log ++ [⟨buf, buf.length⟩] })
      | some e => (.error e, { os with log := os.log ++ [⟨buf, -1⟩] })
  | .accept k :: rs =>
      (.ok (min (k + 1) buf.length),
        { os with
          writeResults := rs, log := os.log ++ [⟨buf, (min (k + 1) buf.length : ℕ)⟩] })
  | .fail e :: rs => (.error e, { os with writeResults := rs, log := os.log ++ [⟨buf, -1⟩] })

/-- The loop of `write_it_all`, `while (len)`. Every call that does not fail
takes at least one byte, so `buf.length` passes are enough. -/
def writeItAllLoop : ℕ → Os → List UInt8 → Except Errno Unit × Os
  | 0, os, _ => (.ok (), os)
  | fuel + 1, os, buf =>
      if buf = [] then (.ok (), os)
      else
        match osWrite os buf with
        | (.error e, os') => (.error e, os')
        | (.ok wrote, os') => writeItAllLoop fuel os' (buf.drop wrote)

/-- `write_it_all`. -/
def writeItAll (os : Os) (buf : List UInt8) : Except Errno Unit × Os :=
  writeItAllLoop buf.length os buf

/-! ### Streams -/

/-- `FCGX_Stream` and its `FCGX_Stream_Data`. -/
structure Stream where
  rdNext : ℕ
  wrNext : ℕ
  stop : ℕ
  stopUnget : ℕ
  isReader : Bool
  isClosed : Bool
  wasFCloseCalled : Bool
  fcgiErrno : ℤ
  buff : ℕ → UInt8
  bufflen : ℕ
  buffStop : ℕ
  type : ℕ
  eorStop : Bool
  skip : Bool
  contentLen : ℕ
  paddingLen : ℕ
  isAnythingWritten : Bool
  rawWrite : Bool

/-- The part of `FCGX_Request` that streams refer to (`reqDataPtr`). -/
structure ReqData where
  requestId : ℕ
  role : ℕ
  isBeginProcessed : Bool
  keepConnection : Bool
  appStatus : ℤ
  nWriters : ℤ
  deriving DecidableEq

/-- A stream with the request data and the descriptor it refers to. -/
structure Chan where
  stream : Stream
  req : ReqData
  os : Os

/-- `SetError`. -/
def setError (s : Stream) (e : ℤ) : Stream :=
  { s with fcgiErrno := if s.fcgiErrno = 0 then e else s.fcgiErrno, isClosed := true }

/-- `SetError` on the stream of a channel. -/
def Chan.setError (c : Chan) (e : ℤ) : Chan := { c with stream := FastCgi.setError c.stream e }

/-- `AlignInt8`, on the numbers below `UINT_MAX - 7`. -/
def alignInt8 (n : ℕ) : ℕ := (n + 7) / 8 * 8

/-- `AlignPtr8`. -/
def alignPtr8 (p : ℕ) : ℕ := (p + 7) / 8 * 8

/-- `NewStream`, for a block that `malloc` returned at address `mBuff`. -/
def newStream (mBuff : ℕ) (stale : ℕ → UInt8) (bufflen : ℤ) (isReader : Bool) (streamType : ℕ) :
    Stream :=
  let len := alignInt8 (min (max bufflen 32) (fcgiMaxLength + 1)).toNat
  let len := if alignPtr8 mBuff ≠ mBuff then len - 8 else len
  { rdNext := if isReader then 0 else len
    wrNext := if isReader then 0 else fcgiHeaderLen
    stop := if isReader then 0 else len
    stopUnget := 0
    isReader := isReader
    isClosed := false
    wasFCloseCalled := false
    fcgiErrno := 0
    buff := stale
    bufflen := len
    buffStop := if isReader then 0 else len
    type := streamType
    eorStop := false
    skip := false
    contentLen := 0
    paddingLen := 0
    isAnythingWritten := false
    rawWrite := false }

/-- `SetReaderType`. -/
def setReaderType (s : Stream) (streamType : ℕ) : Stream :=
  { s with
    type := streamType
    eorStop := false
    skip := false
    contentLen := 0
    paddingLen := 0
    wrNext := s.rdNext
    stop := s.rdNext
    isClosed := false }

/-! ### What the calls of the operating system do -/

theorem osRead_of_nil {os : Os} (h : os.incoming = []) (len : ℕ) :
    osRead os len = (.error os.readEnd, os) := by simp [osRead, h]

/-- A read with room for a byte delivers a non-empty front part of what the
peer sent, however it is cut. -/
theorem osRead_of_ne_nil {os : Os} (h : os.incoming ≠ []) {len : ℕ} (hlen : 0 < len) :
    ∃ chunk rest sizes, chunk ≠ [] ∧ chunk.length ≤ len ∧ os.incoming = chunk ++ rest ∧
      osRead os len = (.ok chunk, { os with incoming := rest, readSizes := sizes }) := by
  obtain ⟨n, hn0, hnlen, hread⟩ : ∃ n, 0 < n ∧ n ≤ len ∧
      osRead os len = (.ok (os.incoming.take n),
        { os with incoming := os.incoming.drop n, readSizes := os.readSizes.tail }) := by
    cases hsizes : os.readSizes with
    | nil => exact ⟨len, hlen, Nat.le_refl _, by simp [osRead, h, hsizes]⟩
    | cons k ks => exact ⟨min (k + 1) len, by omega, by omega, by simp [osRead, h, hsizes]⟩
  refine ⟨os.incoming.take n, os.incoming.drop n, os.readSizes.tail, ?_, ?_, ?_, hread⟩
  · simp only [ne_eq, List.take_eq_nil_iff, h, or_false]
    omega
  · rw [List.length_take]
    omega
  · rw [List.take_append_drop]

/-- A call of `OS_Write` takes at least one byte of a non-empty buffer, or
fails; either way it is recorded, and it touches nothing but the record and
the results still to come. -/
theorem osWrite_cases (os : Os) {buf : List UInt8} (hbuf : buf ≠ []) :
    ∃ rs, (∃ n, 0 < n ∧ n ≤ buf.length ∧
        osWrite os buf =
          (.ok n, { os with writeResults := rs, log := os.log ++ [⟨buf, (n : ℤ)⟩] })) ∨
      ∃ e, osWrite os buf =
        (.error e, { os with writeResults := rs, log := os.log ++ [⟨buf, -1⟩] }) := by
  have hpos : 0 < buf.length := List.length_pos_iff.mpr hbuf
  unfold osWrite
  split
  · next h =>
      split
      · next h' => exact ⟨[], .inl ⟨buf.length, hpos, Nat.le_refl _, by simp [← h]⟩⟩
      · next e h' => exact ⟨[], .inr ⟨e, by simp [← h]⟩⟩
  · next k rs h => exact ⟨rs, .inl ⟨min (k + 1) buf.length, by omega, by omega, rfl⟩⟩
  · next e rs h => exact ⟨rs, .inr ⟨e, rfl⟩⟩

/-! ### Writes do not look at the input -/

/-- The part of the operating system that a write can see. -/
def Os.writeSide (os : Os) : Os := { os with incoming := [], readSizes := [] }

theorem osWrite_writeSide (os : Os) (buf : List UInt8) :
    osWrite os.writeSide buf = ((osWrite os buf).1, (osWrite os buf).2.writeSide) := by
  unfold osWrite Os.writeSide
  dsimp only
  split
  · split <;> rfl
  · rfl
  · rfl

theorem writeItAllLoop_writeSide (fuel : ℕ) (os : Os) (buf : List UInt8) :
    writeItAllLoop fuel os.writeSide buf =
      ((writeItAllLoop fuel os buf).1, (writeItAllLoop fuel os buf).2.writeSide) := by
  induction fuel generalizing os buf with
  | zero => rfl
  | succ fuel ih =>
      simp only [writeItAllLoop, osWrite_writeSide]
      split
      · rfl
      · rcases osWrite os buf with ⟨_ | n, os'⟩
        · rfl
        · exact ih os' _

/-- A write changes nothing but the record of the writes and their results. -/
theorem writeItAllLoop_frame (fuel : ℕ) (os : Os) (buf : List UInt8) :
    ∃ rs log, (writeItAllLoop fuel os buf).2 = { os with writeResults := rs, log := log } := by
  induction fuel generalizing os buf with
  | zero => exact ⟨os.writeResults, os.log, rfl⟩
  | succ fuel ih =>
      rw [writeItAllLoop]
      split
      · exact ⟨os.writeResults, os.log, rfl⟩
      · next hne =>
          obtain ⟨rs, ⟨n, -, -, hw⟩ | ⟨e, hw⟩⟩ := osWrite_cases os hne
          · rw [hw]
            obtain ⟨rs', log', h⟩ := ih { os with writeResults := rs, log := _ } (buf.drop n)
            exact ⟨rs', log', h⟩
          · rw [hw]
            exact ⟨rs, _, rfl⟩

theorem writeItAll_writeSide (os : Os) (buf : List UInt8) :
    writeItAll os.writeSide buf = ((writeItAll os buf).1, (writeItAll os buf).2.writeSide) :=
  writeItAllLoop_writeSide _ os buf

theorem writeItAll_incoming (os : Os) (buf : List UInt8) :
    (writeItAll os buf).2.incoming = os.incoming := by
  obtain ⟨rs, log, h⟩ := writeItAllLoop_frame buf.length os buf
  rw [writeItAll, h]

theorem writeItAll_readEnd (os : Os) (buf : List UInt8) :
    (writeItAll os buf).2.readEnd = os.readEnd := by
  obtain ⟨rs, log, h⟩ := writeItAllLoop_frame buf.length os buf
  rw [writeItAll, h]

theorem Os.writeSide_congr {os os' : Os} (h : os'.readEnd = os.readEnd)
    (hr : os'.writeResults = os.writeResults) (he : os'.writeEnd = os.writeEnd)
    (hl : os'.log = os.log) (hs : os'.stale = os.stale) : os'.writeSide = os.writeSide := by
  simp [Os.writeSide, *]

/-! ### Writes that do not fail -/

/-- Every `OS_Write` takes at least one byte. -/
def Os.NeverFails (os : Os) : Prop :=
  os.writeEnd = none ∧ ∀ e, WriteResult.fail e ∉ os.writeResults

theorem osWrite_ok {os : Os} (h : os.NeverFails) {buf : List UInt8} (hbuf : buf ≠ []) :
    ∃ n rs, 0 < n ∧ n ≤ buf.length ∧ (∀ e, WriteResult.fail e ∉ rs) ∧
      osWrite os buf =
        (.ok n, { os with writeResults := rs, log := os.log ++ [⟨buf, (n : ℤ)⟩] }) := by
  have hpos : 0 < buf.length := List.length_pos_iff.mpr hbuf
  obtain ⟨hend, hresults⟩ := h
  unfold osWrite
  split
  · next hnil =>
      rw [hend]
      exact ⟨buf.length, [], hpos, Nat.le_refl _, by simp, by simp [← hnil]⟩
  · next k rs hrs =>
      refine ⟨min (k + 1) buf.length, rs, by omega, by omega, fun e he => ?_, rfl⟩
      exact hresults e (by simp [hrs, he])
  · next e rs hrs => exact absurd (by simp [hrs]) (hresults e)

/-- `write_it_all` writes it all. -/
theorem writeItAllLoop_ok {fuel : ℕ} {os : Os} {buf : List UInt8} (h : os.NeverFails)
    (hfuel : buf.length ≤ fuel) :
    ∃ rs log, (∀ e, WriteResult.fail e ∉ rs) ∧ accepted log = buf ∧
      writeItAllLoop fuel os buf =
        (.ok (), { os with writeResults := rs, log := os.log ++ log }) := by
  induction fuel generalizing os buf with
  | zero =>
      have hnil : buf = [] := List.length_eq_zero_iff.mp (by omega)
      exact ⟨os.writeResults, [], h.2, by simp [hnil], by simp [writeItAllLoop]⟩
  | succ fuel ih =>
      rw [writeItAllLoop]
      split
      · next hnil => exact ⟨os.writeResults, [], h.2, by simp [hnil], by simp⟩
      · next hne =>
          obtain ⟨n, rs, hn0, hn, hrs, hw⟩ := osWrite_ok h hne
          obtain ⟨rs', log, hrs', hlog, hloop⟩ :=
            @ih { os with writeResults := rs, log := os.log ++ [⟨buf, (n : ℤ)⟩] } (buf.drop n)
              ⟨h.1, hrs⟩ (by rw [List.length_drop]; omega)
          refine ⟨rs', ⟨buf, (n : ℤ)⟩ :: log, hrs', ?_, ?_⟩
          · calc accepted (⟨buf, (n : ℤ)⟩ :: log)
                = accepted [⟨buf, (n : ℤ)⟩] ++ accepted log := accepted_append [_] log
              _ = buf.take n ++ buf.drop n := by rw [hlog, accepted_singleton, Int.toNat_natCast]
              _ = buf := List.take_append_drop n buf
          · rw [hw]
            simp only [hloop, List.append_assoc, List.singleton_append]

theorem writeItAll_ok {os : Os} (h : os.NeverFails) (buf : List UInt8) :
    ∃ rs log, (∀ e, WriteResult.fail e ∉ rs) ∧ accepted log = buf ∧
      writeItAll os buf = (.ok (), { os with writeResults := rs, log := os.log ++ log }) :=
  writeItAllLoop_ok h (Nat.le_refl _)

end FastCgi
