import FastCgi.Bridge.Relay
import FastCgi.Lib.Runs

/-!
The event loop of `cgi-fcgi/cgi-fcgi.c`, with the table of asynchronous
operations of `libfcgi/os_unix.c`.

Three handlers share the flags, the buffer `fromWS` and the table; each of
them is called when the operation it waits for has completed, and each ends
in `ScheduleIo`. `Bridge.doIo` is the completion of one operation, whichever
`OS_DoIo` takes next: it reads or writes, calls the handler, and comes back
with a new state or with the end of the program. Descriptors are standard
input, which is open, and the connection to the application.
-/

namespace FastCgi

open ByteMem Machine

/-- `BUFFLEN`. -/
abbrev buffLen : ℕ := 8192

/-- "Set an arbitrary non-null FCGI RequestId". -/
abbrev bridgeRequestId : ℕ := 1

/-- The callbacks. -/
inductive AioProc where
  | webServerReadHandler
  | appServerReadHandler
  | appServerWriteHandler
  deriving DecidableEq

/-- The places of `asyncIoTable` that are used: `AIO_RD_IX` of standard input, and
`AIO_RD_IX` and `AIO_WR_IX` of the connection. -/
inductive AioIndex where
  | stdinRead
  | sockRead
  | sockWrite
  deriving DecidableEq

/-- An entry of `asyncIoTable` that is in use. The buffer is an offset in `fromWS.buff`
or in `fromAS.buff`. -/
structure AioInfo where
  procPtr : AioProc
  buf : ℕ
  len : ℕ
  deriving DecidableEq

/-- The globals of the program, and three records of what has happened: the bytes that
the connection has taken, what the reads of standard input have delivered, and where
headers were stored in `fromWS.buff`. -/
structure Bridge where
  bytesToRead : ℤ
  /-- `appServerSock != -1`. -/
  appServerSock : Bool
  wsReadPending : Bool
  fcgiReadPending : Bool
  fcgiWritePending : Bool
  relay : Relay
  /-- `fromWS`: its memory, and `next` and `stop` as offsets. -/
  buff : ℕ → UInt8
  next : ℕ
  stop : ℕ
  webServerReadHandlerEOF : Bool
  stdinEofSent : Bool
  asyncIoTable : AioIndex → Option AioInfo
  accepted : List UInt8
  stdinReads : List (List UInt8)
  headerStores : List ℕ

/-- `OS_AsyncRead`, `OS_AsyncWrite` and `OS_AsyncReadStdin`. -/
def Bridge.async (s : Bridge) (index : AioIndex) (aio : AioInfo) : Except Halt Bridge :=
  if (s.asyncIoTable index).isSome then .error .assertFailed
  else .ok { s with asyncIoTable := Function.update s.asyncIoTable index (some aio) }

/-- "Move data between standard in and the FastCGI connection." -/
def Bridge.scheduleWrite (s : Bridge) : Except Halt Bridge :=
  if s.fcgiWritePending = false ∧ s.appServerSock = true ∧ s.stop ≠ s.next then
    (s.async .sockWrite ⟨.appServerWriteHandler, s.next, s.stop - s.next⟩).map fun s =>
      { s with fcgiWritePending := true }
  else .ok s

/-- "Schedule a read from the FastCGI application if there's not one pending." -/
def Bridge.scheduleRead (s : Bridge) : Except Halt Bridge :=
  if s.fcgiReadPending = false ∧ s.appServerSock = true then
    (s.async .sockRead ⟨.appServerReadHandler, 0, buffLen⟩).map fun s =>
      { s with fcgiReadPending := true }
  else .ok s

/-- "Schedule a read from standard in if necessary." -/
def Bridge.scheduleStdin (s : Bridge) : Except Halt Bridge :=
  if 0 < s.bytesToRead ∧ s.webServerReadHandlerEOF = false ∧ s.wsReadPending = false ∧
      s.fcgiWritePending = false ∧ s.next = 0 then
    (s.async .stdinRead ⟨.webServerReadHandler, s.next + fcgiHeaderLen, buffLen - fcgiHeaderLen⟩).map
      fun s => { s with wsReadPending := true }
  else .ok s

/-- `ScheduleIo`. -/
def Bridge.scheduleIo (s : Bridge) : Except Halt Bridge :=
  s.scheduleWrite.bind fun s => s.scheduleRead.bind fun s => s.scheduleStdin

/-- The store of a header that `MakeHeader` makes for `FCGI_STDIN`. -/
def Bridge.storeHeader (s : Bridge) (offset contentLength : ℕ) : Bridge :=
  { s with
    buff := store s.buff offset (makeHeader fcgiStdin bridgeRequestId contentLength 0).bytes
    headerStores := s.headerStores ++ [offset] }

/-- `WriteStdinEof`. -/
def Bridge.writeStdinEof (s : Bridge) : Bridge :=
  if s.stdinEofSent then s
  else { s.storeHeader s.stop 0 with stop := s.stop + fcgiHeaderLen, stdinEofSent := true }

/-- The record that `WebServerReadHandler` makes of the bytes that are read. -/
def Bridge.putStdin (s : Bridge) (bytesRead : ℕ) : Bridge :=
  { s.storeHeader 0 bytesRead with
    wsReadPending := false
    bytesToRead := s.bytesToRead - bytesRead
    stop := fcgiHeaderLen + bytesRead
    webServerReadHandlerEOF := bytesRead == 0 }

/-- What `WebServerReadHandler` does up to `ScheduleIo`. -/
def Bridge.takeStdin (s : Bridge) (bytesRead : ℕ) : Bridge :=
  if (s.putStdin bytesRead).bytesToRead ≤ 0 then (s.putStdin bytesRead).writeStdinEof
  else s.putStdin bytesRead

/-- `WebServerReadHandler`. -/
def Bridge.webServerReadHandler (s : Bridge) (bytesRead : Except ℤ ℕ) : Except Halt Bridge :=
  if s.next ≠ s.stop ∨ s.next ≠ 0 ∨ s.wsReadPending = false then .error .assertFailed
  else
    match bytesRead with
    | .error errno => .error (.exit errno)
    | .ok n => if fcgiMaxLength < n then .error .assertFailed else (s.takeStdin n).scheduleIo

/-- What `AppServerWriteHandler` makes of the bytes that are written, up to `ScheduleIo`. -/
def Bridge.takeWritten (s : Bridge) (bytesWritten : ℕ) : Bridge :=
  if bytesWritten < s.stop - s.next then
    { s with fcgiWritePending := false, next := s.next + bytesWritten }
  else { s with fcgiWritePending := false, next := 0, stop := 0 }

/-- `AppServerWriteHandler`. -/
def Bridge.appServerWriteHandler (s : Bridge) (bytesWritten : Except ℤ ℕ) : Except Halt Bridge :=
  if s.stop ≤ s.next ∨ s.fcgiWritePending = false then .error .assertFailed
  else
    match bytesWritten with
    | .error errno => .error (.exit errno)
    | .ok n => (s.takeWritten n).scheduleIo

/-- `AppServerReadHandler`. -/
def Bridge.appServerReadHandler (s : Bridge) (bytes : Except ℤ (List UInt8)) :
    Option (Except Halt Bridge) :=
  if s.fcgiReadPending = false then some (.error .assertFailed)
  else
    (s.relay.readHandler bridgeRequestId bytes).map fun r =>
      r.bind fun relay => { s with fcgiReadPending := false, relay := relay }.scheduleIo

/-- What `read` or `write` returns: an error, the bytes read, or how many were written. -/
inductive IoResult where
  | failed (errno : ℤ)
  | read (bytes : List UInt8)
  | wrote (n : ℕ)

/-- The value that the callback is given. -/
def IoResult.len : IoResult → Except ℤ ℕ
  | .failed errno => .error errno
  | .read bytes => .ok bytes.length
  | .wrote n => .ok n

def IoResult.bytes : IoResult → Except ℤ (List UInt8)
  | .failed errno => .error errno
  | .read bytes => .ok bytes
  | .wrote _ => .ok []

/-- The system call itself: what is read goes to the buffer of the operation, what is
written is taken from it. -/
def Bridge.io (s : Bridge) (index : AioIndex) (aio : AioInfo) (result : IoResult) :
    Option Bridge :=
  let s := { s with asyncIoTable := Function.update s.asyncIoTable index none }
  match index, result with
  | _, .failed _ => some s
  | .stdinRead, .read bytes =>
      if bytes.length ≤ aio.len then
        some { s with buff := store s.buff aio.buf bytes, stdinReads := s.stdinReads ++ [bytes] }
      else none
  | .sockRead, .read bytes => if bytes.length ≤ aio.len then some s else none
  | .sockWrite, .wrote n =>
      if n ≤ aio.len then some { s with accepted := s.accepted ++ slice s.buff aio.buf n } else none
  | _, _ => none

/-- `OS_DoIo`, for one operation that has completed. -/
def Bridge.doIo (s : Bridge) (index : AioIndex) (result : IoResult) :
    Option (Except Halt Bridge) :=
  (s.asyncIoTable index).bind fun aio =>
    (s.io index aio result).bind fun s =>
      match aio.procPtr with
      | .webServerReadHandler => some (s.webServerReadHandler result.len)
      | .appServerReadHandler => s.appServerReadHandler result.bytes
      | .appServerWriteHandler => some (s.appServerWriteHandler result.len)

/-- The globals in `main` when the parameters are sent. -/
def Bridge.init (contentLength : ℤ) : Bridge :=
  { bytesToRead := contentLength, appServerSock := true, wsReadPending := false
    fcgiReadPending := false, fcgiWritePending := false, relay := Relay.init, buff := fun _ => 0
    next := 0, stop := 0, webServerReadHandlerEOF := false, stdinEofSent := false
    asyncIoTable := fun _ => none, accepted := [], stdinReads := [], headerStores := [] }

/-- `if (bytesToRead <= 0) WriteStdinEof()`. -/
def Bridge.begin (contentLength : ℤ) : Bridge :=
  if contentLength ≤ 0 then (Bridge.init contentLength).writeStdinEof
  else Bridge.init contentLength

/-- `main` before the event loop, with the value of `CONTENT_LENGTH`. -/
def bridgeStart (contentLength : ℤ) : Except Halt Bridge :=
  (Bridge.begin contentLength).scheduleIo

/-- The steps of the event loop. -/
def BridgeSteps (s : Bridge) (i : AioIndex × IoResult) (s' : Bridge) : Prop :=
  s.doIo i.1 i.2 = some (.ok s')

/-- The step as a partial function. -/
def bridgeStep (s : Bridge) (i : AioIndex × IoResult) : Option Bridge :=
  (s.doIo i.1 i.2).bind Except.toOption

theorem bridgeSteps_of_bridgeStep {s s' : Bridge} {i : AioIndex × IoResult}
    (h : bridgeStep s i = some s') : BridgeSteps s i s' := by
  obtain ⟨r, hr, hok⟩ := Option.bind_eq_some_iff.mp h
  cases r with
  | error halt => exact nomatch hok
  | ok t =>
      obtain rfl := Option.some.inj hok
      exact hr

/-! ### What `ScheduleIo` sees to -/

/-- The state without flags and table. -/
def Bridge.quiet (s : Bridge) : Bridge :=
  { s with wsReadPending := false, fcgiReadPending := false, fcgiWritePending := false
           asyncIoTable := fun _ => none }

/-- What does not depend on flags and table. -/
theorem Bridge.quiet_congr {α : Type*} (f : Bridge → α) (hf : ∀ s : Bridge, f s.quiet = f s)
    {s s' : Bridge} (h : s'.quiet = s.quiet) : f s' = f s := by
  rw [← hf s', h, hf s]

/-- The operation on standard input, and the two on the connection. -/
def stdinAio : AioInfo := ⟨.webServerReadHandler, fcgiHeaderLen, buffLen - fcgiHeaderLen⟩

def sockReadAio : AioInfo := ⟨.appServerReadHandler, 0, buffLen⟩

def Bridge.sockWriteAio (s : Bridge) : AioInfo :=
  ⟨.appServerWriteHandler, s.next, s.stop - s.next⟩

/-- Standard input has bytes to read, and there is room for them. -/
def Bridge.WantsStdin (s : Bridge) : Prop :=
  s.next = s.stop ∧ 0 < s.bytesToRead ∧ s.webServerReadHandlerEOF = false

/-- The connection is open and the buffer is either in use or at its beginning. -/
structure Bridge.Sane (s : Bridge) : Prop where
  sock : s.appServerSock = true
  le : s.next ≤ s.stop
  empty : s.next = s.stop → s.next = 0

/-- What holds when `ScheduleIo` is called: a flag that is set belongs to the operation
that the state calls for. -/
structure Bridge.Ready (s : Bridge) : Prop extends s.Sane where
  read : s.fcgiReadPending = false ∧ s.asyncIoTable .sockRead = none ∨
    s.fcgiReadPending = true ∧ s.asyncIoTable .sockRead = some sockReadAio
  write : s.fcgiWritePending = false ∧ s.asyncIoTable .sockWrite = none ∨
    s.fcgiWritePending = true ∧ s.next ≠ s.stop ∧
      s.asyncIoTable .sockWrite = some s.sockWriteAio
  stdin : s.wsReadPending = false ∧ s.asyncIoTable .stdinRead = none ∨
    s.wsReadPending = true ∧ s.WantsStdin ∧ s.asyncIoTable .stdinRead = some stdinAio

/-- What holds when `ScheduleIo` returns: the operations that the state calls for are
registered, and no others. -/
structure Bridge.Scheduled (s : Bridge) : Prop extends s.Sane where
  read : s.fcgiReadPending = true ∧ s.asyncIoTable .sockRead = some sockReadAio
  write : s.next = s.stop ∧ s.fcgiWritePending = false ∧ s.asyncIoTable .sockWrite = none ∨
    s.next ≠ s.stop ∧ s.fcgiWritePending = true ∧ s.asyncIoTable .sockWrite = some s.sockWriteAio
  stdin : ¬ s.WantsStdin ∧ s.wsReadPending = false ∧ s.asyncIoTable .stdinRead = none ∨
    s.WantsStdin ∧ s.wsReadPending = true ∧ s.asyncIoTable .stdinRead = some stdinAio

section Schedule

variable {s : Bridge}

theorem Bridge.async_of_none {index : AioIndex} (h : s.asyncIoTable index = none) (aio : AioInfo) :
    s.async index aio =
      .ok { s with asyncIoTable := Function.update s.asyncIoTable index (some aio) } := by
  rw [Bridge.async, h]
  rfl

theorem Bridge.Ready.scheduleWrite (h : s.Ready) :
    ∃ s', s.scheduleWrite = .ok s' ∧ s'.Ready ∧ s'.quiet = s.quiet ∧
      (s'.next ≠ s'.stop → s'.fcgiWritePending = true) := by
  rw [Bridge.scheduleWrite]
  split
  · next hcond =>
      have hne : s.next ≠ s.stop := fun heq => hcond.2.2 heq.symm
      have hnone : s.asyncIoTable .sockWrite = none := by
        rcases h.write with ⟨-, hnone⟩ | ⟨hpending, -⟩
        · exact hnone
        · exact absurd hpending (by simp [hcond.1])
      rw [Bridge.async_of_none hnone]
      exact ⟨_, rfl, ⟨⟨h.sock, h.le, h.empty⟩, h.read, .inr ⟨rfl, hne, rfl⟩, h.stdin⟩, rfl,
        fun _ => rfl⟩
  · next hcond =>
      refine ⟨s, rfl, h, rfl, fun hne => ?_⟩
      rcases h.write with ⟨hpending, -⟩ | ⟨hpending, -⟩
      · exact absurd ⟨hpending, h.sock, fun heq => hne heq.symm⟩ hcond
      · exact hpending

theorem Bridge.Ready.scheduleRead (h : s.Ready) :
    ∃ s', s.scheduleRead = .ok s' ∧ s'.Ready ∧ s'.quiet = s.quiet ∧
      s'.fcgiReadPending = true ∧ s'.fcgiWritePending = s.fcgiWritePending := by
  rw [Bridge.scheduleRead]
  split
  · next hcond =>
      have hnone : s.asyncIoTable .sockRead = none := by
        rcases h.read with ⟨-, hnone⟩ | ⟨hpending, -⟩
        · exact hnone
        · exact absurd hpending (by simp [hcond.1])
      rw [Bridge.async_of_none hnone]
      exact ⟨_, rfl, ⟨⟨h.sock, h.le, h.empty⟩, .inr ⟨rfl, rfl⟩, h.write, h.stdin⟩, rfl, rfl, rfl⟩
  · next hcond =>
      refine ⟨s, rfl, h, rfl, ?_, rfl⟩
      rcases h.read with ⟨hpending, -⟩ | ⟨hpending, -⟩
      · exact absurd ⟨hpending, h.sock⟩ hcond
      · exact hpending

theorem Bridge.Ready.scheduleStdin (h : s.Ready) (hread : s.fcgiReadPending = true)
    (hwrite : s.next ≠ s.stop → s.fcgiWritePending = true) :
    ∃ s', s.scheduleStdin = .ok s' ∧ s'.Scheduled ∧ s'.quiet = s.quiet := by
  have hread' : s.fcgiReadPending = true ∧ s.asyncIoTable .sockRead = some sockReadAio := by
    rcases h.read with ⟨hpending, -⟩ | hregistered
    · exact absurd hread (by simp [hpending])
    · exact hregistered
  have hwrite' : s.next = s.stop ∧ s.fcgiWritePending = false ∧ s.asyncIoTable .sockWrite = none ∨
      s.next ≠ s.stop ∧ s.fcgiWritePending = true ∧
        s.asyncIoTable .sockWrite = some s.sockWriteAio := by
    rcases h.write with ⟨hpending, hnone⟩ | ⟨hpending, hne, hregistered⟩
    · refine .inl ⟨?_, hpending, hnone⟩
      by_contra hne
      exact absurd (hwrite hne) (by simp [hpending])
    · exact .inr ⟨hne, hpending, hregistered⟩
  rw [Bridge.scheduleStdin]
  split
  · next hcond =>
      obtain ⟨hmore, heof, hpending, hidle, hnext⟩ := hcond
      have hempty : s.next = s.stop := by
        rcases hwrite' with ⟨heq, -⟩ | ⟨-, hbusy, -⟩
        · exact heq
        · exact absurd hbusy (by simp [hidle])
      have hnone : s.asyncIoTable .stdinRead = none := by
        rcases h.stdin with ⟨-, hnone⟩ | ⟨hbusy, -⟩
        · exact hnone
        · exact absurd hbusy (by simp [hpending])
      have haio : (⟨.webServerReadHandler, s.next + fcgiHeaderLen, buffLen - fcgiHeaderLen⟩ :
          AioInfo) = stdinAio := by rw [hnext, Nat.zero_add, stdinAio]
      rw [haio, Bridge.async_of_none hnone]
      exact ⟨_, rfl, ⟨⟨h.sock, h.le, h.empty⟩, hread', hwrite',
        .inr ⟨⟨hempty, hmore, heof⟩, rfl, rfl⟩⟩, rfl⟩
  · next hcond =>
      refine ⟨s, rfl, ⟨h.toSane, hread', hwrite', ?_⟩, rfl⟩
      rcases h.stdin with ⟨hpending, hnone⟩ | ⟨hpending, hwants, hregistered⟩
      · refine .inl ⟨fun hwants => hcond ?_, hpending, hnone⟩
        rcases hwrite' with ⟨heq, hidle, -⟩ | ⟨hne, -⟩
        · exact ⟨hwants.2.1, hwants.2.2, hpending, hidle, h.empty heq⟩
        · exact absurd hwants.1 hne
      · exact .inr ⟨hwants, hpending, hregistered⟩

/-- **`ScheduleIo`.** -/
theorem Bridge.Ready.scheduleIo (h : s.Ready) :
    ∃ s', s.scheduleIo = .ok s' ∧ s'.Scheduled ∧ s'.quiet = s.quiet := by
  obtain ⟨s₁, hs₁, h₁, hquiet₁, hwrite₁⟩ := h.scheduleWrite
  obtain ⟨s₂, hs₂, h₂, hquiet₂, hread₂, hwrite₂⟩ := h₁.scheduleRead
  have hnext : s₂.next = s₁.next := Bridge.quiet_congr Bridge.next (fun _ => rfl) hquiet₂
  have hstop : s₂.stop = s₁.stop := Bridge.quiet_congr Bridge.stop (fun _ => rfl) hquiet₂
  obtain ⟨s₃, hs₃, h₃, hquiet₃⟩ := h₂.scheduleStdin hread₂ (by
    rw [hnext, hstop, hwrite₂]
    exact hwrite₁)
  refine ⟨s₃, ?_, h₃, (hquiet₃.trans hquiet₂).trans hquiet₁⟩
  rw [Bridge.scheduleIo, hs₁]
  simp only [Except.bind, hs₂, hs₃]

/-- What an operation moves, up to `ScheduleIo`. -/
inductive Bridge.Moves (s : Bridge) : AioIndex → IoResult → Bridge → Prop
  | stdin {bytes : List UInt8} (hlen : bytes.length ≤ buffLen - fcgiHeaderLen)
      (hwants : s.WantsStdin) (hnext : s.next = 0) :
      Bridge.Moves s .stdinRead (.read bytes) (Bridge.takeStdin { s with
        buff := store s.buff fcgiHeaderLen bytes, stdinReads := s.stdinReads ++ [bytes] } bytes.length)
  | sockRead {bytes : List UInt8} {relay : Relay}
      (hrelay : s.relay.readHandler bridgeRequestId (.ok bytes) = some (.ok relay)) :
      Bridge.Moves s .sockRead (.read bytes) { s with relay := relay }
  | sockWrite {n : ℕ} (hn : n ≤ s.stop - s.next) (hne : s.next ≠ s.stop) :
      Bridge.Moves s .sockWrite (.wrote n) (Bridge.takeWritten { s with
        accepted := s.accepted ++ slice s.buff s.next n } n)

theorem Bridge.writeStdinEof_frame (s : Bridge) :
    s.writeStdinEof.next = s.next ∧ s.stop ≤ s.writeStdinEof.stop ∧
      s.writeStdinEof.wsReadPending = s.wsReadPending ∧
      s.writeStdinEof.appServerSock = s.appServerSock ∧
      s.writeStdinEof.fcgiReadPending = s.fcgiReadPending ∧
      s.writeStdinEof.fcgiWritePending = s.fcgiWritePending ∧
      s.writeStdinEof.asyncIoTable = s.asyncIoTable := by
  by_cases hsent : s.stdinEofSent = true
  · rw [Bridge.writeStdinEof, if_pos hsent]
    exact ⟨rfl, Nat.le_refl _, rfl, rfl, rfl, rfl, rfl⟩
  · rw [Bridge.writeStdinEof, if_neg hsent]
    exact ⟨rfl, Nat.le_add_right .., rfl, rfl, rfl, rfl, rfl⟩

theorem Bridge.takeStdin_frame (s : Bridge) (n : ℕ) :
    (s.takeStdin n).next = s.next ∧ fcgiHeaderLen ≤ (s.takeStdin n).stop ∧
      (s.takeStdin n).wsReadPending = false ∧
      (s.takeStdin n).appServerSock = s.appServerSock ∧
      (s.takeStdin n).fcgiReadPending = s.fcgiReadPending ∧
      (s.takeStdin n).fcgiWritePending = s.fcgiWritePending ∧
      (s.takeStdin n).asyncIoTable = s.asyncIoTable := by
  have hstop : fcgiHeaderLen ≤ fcgiHeaderLen + n := Nat.le_add_right ..
  rw [Bridge.takeStdin]
  split
  · obtain ⟨hnext, hle, hpending⟩ := (s.putStdin n).writeStdinEof_frame
    exact ⟨hnext, hstop.trans hle, hpending⟩
  · exact ⟨rfl, hstop, rfl, rfl, rfl, rfl, rfl⟩

theorem Bridge.takeStdin_ready (hsock : s.appServerSock = true) (hnext : s.next = 0)
    (hread : s.fcgiReadPending = true ∧ s.asyncIoTable .sockRead = some sockReadAio)
    (hwrite : s.fcgiWritePending = false ∧ s.asyncIoTable .sockWrite = none)
    (hstdin : s.asyncIoTable .stdinRead = none) (n : ℕ) : (s.takeStdin n).Ready := by
  obtain ⟨hnext', hstop, hpending, hsock', hread', hwrite', htable⟩ := s.takeStdin_frame n
  have hstop : 8 ≤ (s.takeStdin n).stop := hstop
  refine ⟨⟨hsock'.trans hsock, by omega, by omega⟩, .inr ?_, .inl ?_, .inl ?_⟩
  · rwa [hread', htable]
  · rwa [hwrite', htable]
  · exact ⟨hpending, by rw [htable, hstdin]⟩

theorem Bridge.takeWritten_ready (hsock : s.appServerSock = true) (hle : s.next ≤ s.stop)
    (hread : s.fcgiReadPending = true ∧ s.asyncIoTable .sockRead = some sockReadAio)
    (hwrite : s.asyncIoTable .sockWrite = none)
    (hstdin : s.wsReadPending = false ∧ s.asyncIoTable .stdinRead = none) (n : ℕ) :
    (s.takeWritten n).Ready := by
  rw [Bridge.takeWritten]
  split
  · next hlt =>
      refine ⟨⟨hsock, ?_, fun heq => ?_⟩, .inr hread, .inl ⟨rfl, hwrite⟩, .inl hstdin⟩
      · show s.next + n ≤ s.stop
        omega
      · have heq : s.next + n = s.stop := heq
        omega
  · exact ⟨⟨hsock, Nat.le_refl 0, fun _ => rfl⟩, .inr hread, .inl ⟨rfl, hwrite⟩, .inl hstdin⟩

theorem Bridge.webServerReadHandler_error {errno : ℤ} (hempty : s.next = s.stop) (hnext : s.next = 0)
    (hpending : s.wsReadPending = true) :
    s.webServerReadHandler (.error errno) = .error (.exit errno) := by
  have hstop : s.stop = 0 := hempty.symm.trans hnext
  rw [Bridge.webServerReadHandler, if_neg (by simp [hnext, hstop, hpending])]

theorem Bridge.webServerReadHandler_ok {n : ℕ} (hempty : s.next = s.stop) (hnext : s.next = 0)
    (hpending : s.wsReadPending = true) (hn : n ≤ buffLen - fcgiHeaderLen) :
    s.webServerReadHandler (.ok n) = (s.takeStdin n).scheduleIo := by
  have hn : n ≤ 8192 - 8 := hn
  have hstop : s.stop = 0 := hempty.symm.trans hnext
  rw [Bridge.webServerReadHandler, if_neg (by simp [hnext, hstop, hpending]),
    if_neg (by show ¬ 65535 < n; omega)]

theorem Bridge.appServerWriteHandler_error {errno : ℤ} (hlt : s.next < s.stop)
    (hpending : s.fcgiWritePending = true) :
    s.appServerWriteHandler (.error errno) = .error (.exit errno) := by
  rw [Bridge.appServerWriteHandler, if_neg (by simp [hpending, hlt])]

theorem Bridge.appServerWriteHandler_ok {n : ℕ} (hlt : s.next < s.stop)
    (hpending : s.fcgiWritePending = true) :
    s.appServerWriteHandler (.ok n) = (s.takeWritten n).scheduleIo := by
  rw [Bridge.appServerWriteHandler, if_neg (by simp [hpending, hlt])]

theorem Bridge.writeStdinEof_quiet (s : Bridge) :
    s.quiet.writeStdinEof.quiet = s.writeStdinEof.quiet := by
  by_cases hsent : s.stdinEofSent = true
  · have hsent' : s.quiet.stdinEofSent = true := hsent
    rw [Bridge.writeStdinEof, if_pos hsent', Bridge.writeStdinEof, if_pos hsent]
    rfl
  · have hsent' : ¬ s.quiet.stdinEofSent = true := hsent
    rw [Bridge.writeStdinEof, if_neg hsent', Bridge.writeStdinEof, if_neg hsent]
    rfl

/-- The handlers move the same whatever is registered. -/
theorem Bridge.takeStdin_quiet (s : Bridge) (n : ℕ) :
    (s.quiet.takeStdin n).quiet = (s.takeStdin n).quiet := by
  by_cases hmore : (s.putStdin n).bytesToRead ≤ 0
  · have hmore' : (s.quiet.putStdin n).bytesToRead ≤ 0 := hmore
    rw [Bridge.takeStdin, if_pos hmore', Bridge.takeStdin, if_pos hmore,
      ← Bridge.writeStdinEof_quiet, ← (s.putStdin n).writeStdinEof_quiet]
    rfl
  · have hmore' : ¬ (s.quiet.putStdin n).bytesToRead ≤ 0 := hmore
    rw [Bridge.takeStdin, if_neg hmore', Bridge.takeStdin, if_neg hmore]
    rfl

theorem Bridge.takeWritten_quiet (s : Bridge) (n : ℕ) :
    (s.quiet.takeWritten n).quiet = (s.takeWritten n).quiet := by
  by_cases hlt : n < s.stop - s.next
  · have hlt' : n < s.quiet.stop - s.quiet.next := hlt
    rw [Bridge.takeWritten, if_pos hlt', Bridge.takeWritten, if_pos hlt]
    rfl
  · have hlt' : ¬ n < s.quiet.stop - s.quiet.next := hlt
    rw [Bridge.takeWritten, if_neg hlt', Bridge.takeWritten, if_neg hlt]
    rfl

theorem Bridge.takeStdin_congr {s' : Bridge} (h : s'.quiet = s.quiet) (n : ℕ) :
    (s'.takeStdin n).quiet = (s.takeStdin n).quiet := by
  rw [← s'.takeStdin_quiet, h, s.takeStdin_quiet]

theorem Bridge.takeWritten_congr {s' : Bridge} (h : s'.quiet = s.quiet) (n : ℕ) :
    (s'.takeWritten n).quiet = (s.takeWritten n).quiet := by
  rw [← s'.takeWritten_quiet, h, s.takeWritten_quiet]

/-- The read of standard input completes. -/
theorem Bridge.Scheduled.doIo_stdinRead (h : s.Scheduled) {result : IoResult}
    {out : Except Halt Bridge} (hio : s.doIo .stdinRead result = some out) :
    (∃ errno, out = .error (.exit errno)) ∨
      ∃ s₁ s', out = .ok s' ∧ s.Moves .stdinRead result s₁ ∧ s'.Scheduled ∧
        s'.quiet = s₁.quiet := by
  rcases h.stdin with ⟨-, -, hnone⟩ | ⟨hwants, hpending, hregistered⟩
  · simp [Bridge.doIo, hnone] at hio
  · have hnext := h.empty hwants.1
    have hidle : s.fcgiWritePending = false ∧ s.asyncIoTable .sockWrite = none := by
      rcases h.write with ⟨-, hidle⟩ | ⟨hne, -⟩
      · exact hidle
      · exact absurd hwants.1 hne
    rw [Bridge.doIo, hregistered, Option.bind_some] at hio
    obtain ⟨t, ht, hio⟩ := Option.bind_eq_some_iff.mp hio
    have hio : t.webServerReadHandler result.len = out := Option.some.inj hio
    cases result with
    | failed errno =>
        obtain rfl := Option.some.inj ht
        refine .inl ⟨errno, hio.symm.trans ?_⟩
        apply Bridge.webServerReadHandler_error
        exacts [hwants.1, hnext, hpending]
    | read bytes =>
        rw [Bridge.io] at ht
        split at ht
        · next hlen =>
            obtain rfl := Option.some.inj ht
            have hready := Bridge.takeStdin_ready (s := { s with
                asyncIoTable := Function.update s.asyncIoTable .stdinRead none
                buff := store s.buff fcgiHeaderLen bytes, stdinReads := s.stdinReads ++ [bytes] })
              h.sock hnext h.read hidle rfl bytes.length
            obtain ⟨s', hs', hscheduled, hquiet⟩ := hready.scheduleIo
            refine .inr ⟨_, s', hio.symm.trans (Eq.trans ?_ hs'), .stdin hlen hwants hnext,
              hscheduled, ?_⟩
            · apply Bridge.webServerReadHandler_ok
              exacts [hwants.1, hnext, hpending, hlen]
            · apply hquiet.trans (Bridge.takeStdin_congr _ _)
              rfl
        · exact nomatch ht
    | wrote n => exact nomatch ht

/-- The state that `AppServerReadHandler` hands to `ScheduleIo`. -/
theorem Bridge.Scheduled.ready_sockRead (h : s.Scheduled) (relay : Relay) :
    Bridge.Ready { s with
      asyncIoTable := Function.update s.asyncIoTable .sockRead none
      fcgiReadPending := false, relay := relay } :=
  ⟨⟨h.sock, h.le, h.empty⟩, .inl ⟨rfl, rfl⟩,
    h.write.imp (fun hw => ⟨hw.2.1, hw.2.2⟩) (fun hw => ⟨hw.2.1, hw.1, hw.2.2⟩),
    h.stdin.imp (fun hr => ⟨hr.2.1, hr.2.2⟩) (fun hr => ⟨hr.2.1, hr.1, hr.2.2⟩)⟩

/-- The read of the connection completes. -/
theorem Bridge.Scheduled.doIo_sockRead (h : s.Scheduled) {result : IoResult}
    {out : Except Halt Bridge} (hio : s.doIo .sockRead result = some out) :
    (∃ halt, out = .error halt ∧ halt ≠ .assertFailed) ∨
      ∃ s₁ s', out = .ok s' ∧ s.Moves .sockRead result s₁ ∧ s'.Scheduled ∧
        s'.quiet = s₁.quiet := by
  rw [Bridge.doIo, h.read.2, Option.bind_some] at hio
  obtain ⟨t, ht, hio⟩ := Option.bind_eq_some_iff.mp hio
  have hio : t.appServerReadHandler result.bytes = some out := hio
  cases result with
  | failed errno =>
      obtain rfl := Option.some.inj ht
      rw [Bridge.appServerReadHandler, if_neg (by simp [h.read.1])] at hio
      exact .inl ⟨.exit errno, (Option.some.inj hio).symm, by simp⟩
  | read bytes =>
      rw [Bridge.io] at ht
      split at ht
      · obtain rfl := Option.some.inj ht
        rw [Bridge.appServerReadHandler, if_neg (by simp [h.read.1])] at hio
        obtain ⟨r, hr, hassert⟩ := s.relay.readHandler_total bridgeRequestId (.ok bytes)
        have hio : (s.relay.readHandler bridgeRequestId (.ok bytes)).map _ = some out := hio
        rw [hr, Option.map_some] at hio
        obtain rfl := Option.some.inj hio
        cases r with
        | error halt => exact .inl ⟨halt, rfl, fun heq => hassert (congrArg _ heq)⟩
        | ok relay =>
            obtain ⟨s', hs', hscheduled, hquiet⟩ := (h.ready_sockRead relay).scheduleIo
            exact .inr ⟨_, s', hs', .sockRead hr, hscheduled, hquiet⟩
      · exact nomatch ht
  | wrote n => exact nomatch ht

/-- The write to the connection completes. -/
theorem Bridge.Scheduled.doIo_sockWrite (h : s.Scheduled) {result : IoResult}
    {out : Except Halt Bridge} (hio : s.doIo .sockWrite result = some out) :
    (∃ errno, out = .error (.exit errno)) ∨
      ∃ s₁ s', out = .ok s' ∧ s.Moves .sockWrite result s₁ ∧ s'.Scheduled ∧
        s'.quiet = s₁.quiet := by
  rcases h.write with ⟨-, -, hnone⟩ | ⟨hne, hpending, hregistered⟩
  · simp [Bridge.doIo, hnone] at hio
  · have hlt : s.next < s.stop := Nat.lt_of_le_of_ne h.le hne
    have hidle : s.wsReadPending = false ∧ s.asyncIoTable .stdinRead = none := by
      rcases h.stdin with ⟨-, hidle⟩ | ⟨hwants, -⟩
      · exact hidle
      · exact absurd hwants.1 hne
    rw [Bridge.doIo, hregistered, Option.bind_some] at hio
    obtain ⟨t, ht, hio⟩ := Option.bind_eq_some_iff.mp hio
    have hio : t.appServerWriteHandler result.len = out := Option.some.inj hio
    cases result with
    | failed errno =>
        obtain rfl := Option.some.inj ht
        refine .inl ⟨errno, hio.symm.trans ?_⟩
        apply Bridge.appServerWriteHandler_error
        exacts [hlt, hpending]
    | read bytes => exact nomatch ht
    | wrote n =>
        rw [Bridge.io] at ht
        split at ht
        · next hn =>
            obtain rfl := Option.some.inj ht
            have hready := Bridge.takeWritten_ready (s := { s with
                asyncIoTable := Function.update s.asyncIoTable .sockWrite none
                accepted := s.accepted ++ slice s.buff s.next n })
              h.sock h.le h.read rfl hidle n
            obtain ⟨s', hs', hscheduled, hquiet⟩ := hready.scheduleIo
            refine .inr ⟨_, s', hio.symm.trans (Eq.trans ?_ hs'), .sockWrite hn hne,
              hscheduled, hquiet.trans ?_⟩
            · apply Bridge.appServerWriteHandler_ok
              exacts [hlt, hpending]
            · apply Bridge.takeWritten_congr
              rfl
        · exact nomatch ht

/-- **The completion of an operation.** The program ends, though not by a failed
assertion, or what the operation moves is followed by `ScheduleIo`. -/
theorem Bridge.Scheduled.doIo (h : s.Scheduled) {index : AioIndex} {result : IoResult}
    {out : Except Halt Bridge} (hio : s.doIo index result = some out) :
    (∃ halt, out = .error halt ∧ halt ≠ .assertFailed) ∨
      ∃ s₁ s', out = .ok s' ∧ s.Moves index result s₁ ∧ s'.Scheduled ∧ s'.quiet = s₁.quiet := by
  cases index with
  | stdinRead =>
      exact (h.doIo_stdinRead hio).imp_left fun ⟨errno, hout⟩ => ⟨.exit errno, hout, by simp⟩
  | sockRead => exact h.doIo_sockRead hio
  | sockWrite =>
      exact (h.doIo_sockWrite hio).imp_left fun ⟨errno, hout⟩ => ⟨.exit errno, hout, by simp⟩

/-- A handler that is called returns. -/
theorem Bridge.doIo_isSome {index : AioIndex} {aio : AioInfo} {result : IoResult}
    (haio : s.asyncIoTable index = some aio) (hio : (s.io index aio result).isSome) :
    (s.doIo index result).isSome := by
  obtain ⟨t, ht⟩ := Option.isSome_iff_exists.mp hio
  rw [Bridge.doIo, haio, Option.bind_some, ht, Option.bind_some]
  cases aio.procPtr with
  | webServerReadHandler => rfl
  | appServerWriteHandler => rfl
  | appServerReadHandler =>
      simp only [Bridge.appServerReadHandler]
      split
      · rfl
      · obtain ⟨r, hr, -⟩ := t.relay.readHandler_total bridgeRequestId result.bytes
        rw [hr]
        rfl

end Schedule

theorem bridgeBegin_ready (contentLength : ℤ) : (Bridge.begin contentLength).Ready := by
  rw [Bridge.begin]
  split
  · exact ⟨⟨rfl, Nat.zero_le _, fun h => absurd (show (0 : ℕ) = 8 from h) (by decide)⟩,
      .inl ⟨rfl, rfl⟩, .inl ⟨rfl, rfl⟩, .inl ⟨rfl, rfl⟩⟩
  · exact ⟨⟨rfl, Nat.le_refl 0, fun _ => rfl⟩, .inl ⟨rfl, rfl⟩, .inl ⟨rfl, rfl⟩, .inl ⟨rfl, rfl⟩⟩

/-- **The start.** -/
theorem bridgeStart_scheduled (contentLength : ℤ) :
    ∃ s, bridgeStart contentLength = .ok s ∧ s.Scheduled ∧
      s.quiet = (Bridge.begin contentLength).quiet :=
  (bridgeBegin_ready contentLength).scheduleIo

/-- What every step of the event loop keeps. -/
theorem Bridge.Scheduled.step {s s' : Bridge} {i : AioIndex × IoResult} (h : s.Scheduled)
    (hstep : BridgeSteps s i s') :
    s'.Scheduled ∧ ∃ s₁, s.Moves i.1 i.2 s₁ ∧ s'.quiet = s₁.quiet := by
  rcases h.doIo hstep with ⟨halt, hout, -⟩ | ⟨s₁, t, hout, hmoves, hscheduled, hquiet⟩
  · exact nomatch hout
  · obtain rfl := Except.ok.inj hout
    exact ⟨hscheduled, s₁, hmoves, hquiet⟩

/-- The flag of an operation. -/
def Bridge.pending (s : Bridge) : AioProc → Bool
  | .webServerReadHandler => s.wsReadPending
  | .appServerReadHandler => s.fcgiReadPending
  | .appServerWriteHandler => s.fcgiWritePending

/-- The operation is registered at this place. -/
def Bridge.RegisteredAt (s : Bridge) (proc : AioProc) (index : AioIndex) : Prop :=
  ∃ aio, s.asyncIoTable index = some aio ∧ aio.procPtr = proc

/-- **Scheduling is consistent.** -/
structure Bridge.Consistent (s : Bridge) : Prop where
  exclusive : ¬ (s.wsReadPending = true ∧ s.fcgiWritePending = true)
  pending : ∀ proc, s.pending proc = true → ∃! index, s.RegisteredAt proc index
  idle : ∀ proc, s.pending proc = false → ∀ index, ¬ s.RegisteredAt proc index
  appRead : s.fcgiReadPending = true
  write : s.next ≠ s.stop → s.fcgiWritePending = true
  stdin : s.next = s.stop → 0 < s.bytesToRead → s.webServerReadHandlerEOF = false →
    s.wsReadPending = true
  noAssert : ∀ index result, s.doIo index result ≠ some (.error .assertFailed)
  returns : ∀ index aio result, s.asyncIoTable index = some aio →
    (s.io index aio result).isSome → (s.doIo index result).isSome

/-- Where an operation is registered. -/
def AioProc.index : AioProc → AioIndex
  | .webServerReadHandler => .stdinRead
  | .appServerReadHandler => .sockRead
  | .appServerWriteHandler => .sockWrite

theorem AioProc.index_inj {proc proc' : AioProc} (h : proc.index = proc'.index) : proc = proc' := by
  cases proc <;> cases proc' <;> first | rfl | exact nomatch h

theorem Bridge.registeredAt_iff_of_some {s : Bridge} {proc proc' : AioProc} {aio : AioInfo}
    (haio : s.asyncIoTable proc'.index = some aio) (hproc : aio.procPtr = proc') :
    s.RegisteredAt proc proc'.index ↔ proc = proc' := by
  constructor
  · rintro ⟨aio', haio', rfl⟩
    rw [haio] at haio'
    rw [← Option.some.inj haio', hproc]
  · rintro rfl
    exact ⟨aio, haio, hproc⟩

/-- The flags say what is registered. -/
theorem Bridge.Scheduled.registered {s : Bridge} (h : s.Scheduled) (proc : AioProc) :
    s.pending proc = true ∧ (∃ aio, s.asyncIoTable proc.index = some aio ∧ aio.procPtr = proc) ∨
      s.pending proc = false ∧ s.asyncIoTable proc.index = none := by
  cases proc with
  | webServerReadHandler =>
      rcases h.stdin with ⟨-, hpending, hnone⟩ | ⟨-, hpending, haio⟩
      · exact .inr ⟨hpending, hnone⟩
      · exact .inl ⟨hpending, _, haio, rfl⟩
  | appServerReadHandler => exact .inl ⟨h.read.1, _, h.read.2, rfl⟩
  | appServerWriteHandler =>
      rcases h.write with ⟨-, hpending, hnone⟩ | ⟨-, hpending, haio⟩
      · exact .inr ⟨hpending, hnone⟩
      · exact .inl ⟨hpending, _, haio, rfl⟩

theorem AioIndex.exists_proc (index : AioIndex) : ∃ proc : AioProc, proc.index = index := by
  cases index
  exacts [⟨.webServerReadHandler, rfl⟩, ⟨.appServerReadHandler, rfl⟩,
    ⟨.appServerWriteHandler, rfl⟩]

/-- What is registered anywhere is what its flag says. -/
theorem Bridge.Scheduled.registeredAt_iff {s : Bridge} (h : s.Scheduled) (proc : AioProc)
    (index : AioIndex) :
    s.RegisteredAt proc index ↔ index = proc.index ∧ s.pending proc = true := by
  obtain ⟨proc', rfl⟩ := index.exists_proc
  rcases h.registered proc' with ⟨hpending, aio, haio, hproc⟩ | ⟨hpending, hnone⟩
  · rw [Bridge.registeredAt_iff_of_some haio hproc]
    constructor
    · rintro rfl
      exact ⟨rfl, hpending⟩
    · exact fun hindex => (AioProc.index_inj hindex.1).symm
  · constructor
    · rintro ⟨aio, haio, -⟩
      rw [hnone] at haio
      exact nomatch haio
    · rintro ⟨hindex, hpending'⟩
      rw [← AioProc.index_inj hindex, hpending] at hpending'
      exact nomatch hpending'

theorem Bridge.Scheduled.consistent {s : Bridge} (h : s.Scheduled) : s.Consistent where
  exclusive := by
    rintro ⟨hstdin, hwrite⟩
    rcases h.stdin with ⟨-, hidle, -⟩ | ⟨hwants, -⟩
    · exact absurd hstdin (by simp [hidle])
    · rcases h.write with ⟨-, hidle, -⟩ | ⟨hne, -⟩
      · exact absurd hwrite (by simp [hidle])
      · exact hne hwants.1
  pending proc hpending := by
    refine ⟨proc.index, (h.registeredAt_iff proc _).mpr ⟨rfl, hpending⟩, fun index hindex => ?_⟩
    exact ((h.registeredAt_iff proc index).mp hindex).1
  idle proc hidle index hindex := by
    have hpending := ((h.registeredAt_iff proc index).mp hindex).2
    rw [hidle] at hpending
    exact nomatch hpending
  appRead := h.read.1
  write hne := by
    rcases h.write with ⟨heq, -⟩ | ⟨-, hpending, -⟩
    · exact absurd heq hne
    · exact hpending
  stdin hempty hmore heof := by
    rcases h.stdin with ⟨hwants, -⟩ | ⟨-, hpending, -⟩
    · exact absurd ⟨hempty, hmore, heof⟩ hwants
    · exact hpending
  noAssert index result hio := by
    rcases h.doIo hio with ⟨halt, hout, hassert⟩ | ⟨_, _, hout, -⟩
    · exact hassert (Except.error.inj hout).symm
    · exact nomatch hout
  returns index aio result haio hio := Bridge.doIo_isSome haio hio

/-- **The scheduler over whole runs.** -/
theorem bridge_consistent (contentLength : ℤ) :
    ∃ s₀, bridgeStart contentLength = .ok s₀ ∧
      ∀ is s, Runs BridgeSteps s₀ is s → s.Consistent := by
  obtain ⟨s₀, hs₀, h₀, -⟩ := bridgeStart_scheduled contentLength
  refine ⟨s₀, hs₀, fun is s hrun => ?_⟩
  have hscheduled : s.Scheduled :=
    hrun.invariant (fun _ _ _ h hstep => (h.step hstep).1) h₀
  exact hscheduled.consistent

/-- Two bytes of three are read, and the first five bytes of their record are written. -/
theorem bridge_consistent_three :
    ∃ s₀ s, bridgeStart 3 = .ok s₀ ∧
      Runs BridgeSteps s₀ [(.stdinRead, .read [65, 66]), (.sockWrite, .wrote 5)] s ∧
      s.Consistent := by
  obtain ⟨s₀, hs₀, hruns⟩ := bridge_consistent 3
  have hexec : ((bridgeStart 3).toOption.bind fun s =>
      exec bridgeStep s [(.stdinRead, .read [65, 66]), (.sockWrite, .wrote 5)]).isSome = true := by
    decide +kernel
  rw [hs₀] at hexec
  obtain ⟨s, hs⟩ := Option.isSome_iff_exists.mp hexec
  have hrun := Runs.of_exec (fun _ _ _ => bridgeSteps_of_bridgeStep) hs
  exact ⟨s₀, s, hs₀, hrun, hruns _ s hrun⟩

end FastCgi
