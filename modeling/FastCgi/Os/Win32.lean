import FastCgi.Os.AsyncIo

/-!
Descriptors and overlapped requests under Windows (`libfcgi/os_win32.c`).

A descriptor is a slot of `fdTable`. An overlapped request that is started
on it is in flight until the kernel completes it; its packet then waits at
the completion port until `OS_DoIo` dequeues it, in whatever order the port
chooses. A callback may call any of these functions, `OS_DoIo` included, so
a step of the machine is one call, or one pass of the loop of `OS_DoIo` up
to its callback. `log` records what has happened, and `Effect` is all that a
step can do to the requests and the record.
-/

namespace FastCgi.OsWin32

open Machine OsUnix

/-! ### The table -/

/-- `FILE_TYPE`. -/
inductive FileType where
  | unused
  | fileSync
  | fileAsync
  | socketSync
  | socketAsync
  | pipeSync
  | pipeAsync
  deriving DecidableEq

def FileType.isFile : FileType → Bool
  | .fileSync | .fileAsync => true
  | _ => false

/-- What the assertions of `OS_AsyncRead` and `OS_AsyncWrite` let pass. -/
def FileType.isAsync : FileType → Bool
  | .fileAsync | .socketAsync | .pipeAsync => true
  | _ => false

/-- `FD_TABLE`; `inst` is its `instance`. Pointers are numbers. -/
structure FdTable where
  fid : ℕ
  type : FileType
  path : Option ℕ
  errno : ℕ
  inst : ℕ
  offset : ℤ
  offsetHighPtr : Option ℕ
  offsetLowPtr : Option ℕ
  hMapMutex : Option ℕ
  deriving DecidableEq

/-- A slot of the table before anything is written to it. -/
def FdTable.zero : FdTable :=
  { fid := 0, type := .unused, path := none, errno := 0, inst := 0, offset := 0
    offsetHighPtr := none, offsetLowPtr := none, hMapMutex := none }

/-- `OVERLAPPED_REQUEST`; `inst` is its `instance`. -/
structure OverlappedRequest where
  offset : ℕ
  offsetHigh : ℕ
  inst : ℕ
  procPtr : ℕ
  clientData : ℕ
  clientData1 : ℕ
  deriving DecidableEq

/-- A request that has been started: on which slot, and at which place of the record. -/
structure Started where
  fd : ℕ
  startedAt : ℕ
  ov : OverlappedRequest
  deriving DecidableEq

/-- A packet at the completion port. -/
structure Packet where
  bytes : ℕ
  request : Started
  deriving DecidableEq

/-- What has happened, for the record. -/
inductive Win32Event where
  | started (o : Started)
  | closed (fd : ℕ)
  /-- `OS_DoIo` has dequeued the packet of a request; whether it has called back. -/
  | dequeued (o : Started) (called : Bool)
  deriving DecidableEq

/-- The static variables, the words of the mapped files, the requests that the kernel has not
completed, the packets at `hIoCompPort`, and the record. -/
structure Win32 where
  fdTable : ℕ → FdTable
  mapped : ℕ → ℕ
  inFlight : List Started
  hIoCompPort : List Packet
  log : List Win32Event

/-- The state in which the program starts. -/
def static : Win32 :=
  { fdTable := fun _ => .zero, mapped := fun _ => 0, inFlight := [], hIoCompPort := [], log := [] }

/-- `WIN32_OPEN_MAX`. -/
def win32OpenMax : ℤ := 128

/-- A `DWORD`. -/
def dword (n : ℤ) : ℕ := (n % 4294967296).toNat

def errorNoData : ℕ := 232

def errorPipeNotConnected : ℕ := 233

def errorIoPending : ℕ := 997

/-- `O_NONBLOCK`. -/
def oNonblock : ℤ := 4

namespace Win32

/-- The assertion `(fd >= 0) && (fd < WIN32_OPEN_MAX)`. -/
def slot (fd : ℤ) : Option ℕ := if 0 ≤ fd ∧ fd < win32OpenMax then some fd.toNat else none

def modify (w : Win32) (fd : ℕ) (f : FdTable → FdTable) : Win32 :=
  { w with fdTable := Function.update w.fdTable fd (f (w.fdTable fd)) }

def setErrno (w : Win32) (fd errno : ℕ) : Win32 := w.modify fd fun e => { e with errno := errno }

/-! ### Opening and closing -/

/-- The slot that `Win32NewDescriptor` finds. -/
def newIndex (w : Win32) (fd desiredFd : ℤ) : Option ℕ :=
  if 0 ≤ desiredFd ∧ desiredFd < win32OpenMax then
    if (w.fdTable desiredFd.toNat).type = .unused then some desiredFd.toNat else none
  else if 0 < fd then
    if fd < win32OpenMax ∧ (w.fdTable fd.toNat).type = .unused then some fd.toNat
    else (List.range' 1 (win32OpenMax.toNat - 1)).find? fun i => (w.fdTable i).type = .unused
  else none

/-- `Win32NewDescriptor`. -/
def win32NewDescriptor (w : Win32) (type : FileType) (fd desiredFd : ℤ) : ℤ × Win32 :=
  match w.newIndex fd desiredFd with
  | none => (-1, w)
  | some index =>
      (index, w.modify index fun e =>
        { e with
          fid := dword fd, type := type, path := none, errno := 0, offset := -1
          offsetHighPtr := none, offsetLowPtr := none, hMapMutex := none })

/-- `Win32FreeDescriptor`; at `none` an assertion has failed. -/
def win32FreeDescriptor (w : Win32) (fd : ℤ) : Option Win32 :=
  (slot fd).bind fun n =>
    let e := w.fdTable n
    if e.type = .unused then some w
    else
      -- the path of a file is freed, and nothing else may have one
      if e.type.isFile = e.path.isSome then
        let w := w.modify n fun e =>
          { e with
            type := .unused, path := none, errno := 0
            offsetHighPtr := none, offsetLowPtr := none, hMapMutex := none }
        some { w with log := w.log ++ [.closed n] }
      else none

/-- `OS_Close`: closing the handle leaves the requests to the kernel, which completes them in
its own time. -/
def osClose (w : Win32) (fd : ℤ) : Option (ℤ × Win32) :=
  (slot fd).bind fun n =>
    if (w.fdTable n).type = .unused then none
    else (w.win32FreeDescriptor fd).map fun w => (0, w)

/-- `OS_SetFlags`; `ok` is false where a call of the system fails, which ends the program, and
a descriptor behind the table is an error. -/
def osSetFlags (w : Win32) (fd flags : ℤ) (ok : Bool) : Option Win32 :=
  (slot fd).bind fun n =>
    if (w.fdTable n).type = .socketSync ∧ flags = oNonblock then
      if ok then some (w.modify n fun e => { e with type := .socketAsync }) else none
    else some w

/-! ### Starting requests -/

/-- The block of a request, zeroed and filled in. -/
def overlapped (e : FdTable) (offsets : ℕ × ℕ) (a : AioArgs) (clientData1 : ℕ) :
    OverlappedRequest :=
  { offset := offsets.1, offsetHigh := offsets.2, inst := e.inst, procPtr := a.procPtr
    clientData := a.clientData, clientData1 := clientData1 }

def newRequest (w : Win32) (fd : ℕ) (ov : OverlappedRequest) : Started :=
  { fd := fd, startedAt := w.log.length, ov := ov }

/-- The kernel has the request. -/
def start (w : Win32) (o : Started) : Win32 :=
  { w with inFlight := w.inFlight ++ [o], log := w.log ++ [.started o] }

/-- `PostQueuedCompletionStatus(hIoCompPort, 0, fd, pOv)`. -/
def post (w : Win32) (o : Started) : Win32 :=
  { w with hIoCompPort := w.hIoCompPort ++ [⟨0, o⟩], log := w.log ++ [.started o] }

/-- `OS_AsyncReadStdin`; the thread that reads the standard input completes the request. -/
def osAsyncReadStdin (w : Win32) (a : AioArgs) : Option (ℤ × Win32) :=
  if (w.fdTable 0).type = .unused then none
  else some (0, w.start (w.newRequest 0 (overlapped (w.fdTable 0) (0, 0) a a.buf)))

/-- `OS_AsyncRead`; `readFile` is `none` where `ReadFile` returns `TRUE`, and otherwise what
`GetLastError` returns then. -/
def osAsyncRead (w : Win32) (fd : ℤ) (a : AioArgs) (readFile : Option ℕ) : Option (ℤ × Win32) :=
  (slot fd).bind fun n =>
    let e := w.fdTable n
    if e.type.isAsync then
      let offset :=
        if e.type = .fileAsync then dword (if 0 ≤ e.offset then e.offset else a.offset) else 0
      let o := w.newRequest n (overlapped e (offset, 0) a 0)
      match readFile with
      | none => some (0, w.start o)
      | some err =>
          let w := w.setErrno n err
          if err = errorNoData ∨ err = errorPipeNotConnected then some (0, w.post o)
          else if err ≠ errorIoPending then some (-1, w.post o)
          else some (0, (w.setErrno n 0).start o)
    else none

/-- The offsets of a write, low and high word; those of a mapped file are moved on. -/
def writeOffsets (w : Win32) (e : FdTable) (a : AioArgs) : Option ((ℕ × ℕ) × Win32) :=
  if e.type = .fileAsync then
    if 0 ≤ e.offset then
      if e.hMapMutex.isSome then
        match e.offsetHighPtr, e.offsetLowPtr with
        | some high, some low =>
            some ((w.mapped low, w.mapped high),
              { w with mapped := Function.update w.mapped low (dword (w.mapped low + a.len)) })
        | _, _ => none
      else some ((dword e.offset, 0), w)
    else some ((dword a.offset, 0), w)
  else some ((0, 0), w)

/-- `OS_AsyncWrite`, from `WriteFile` on. -/
def writeFileResult (w : Win32) (n : ℕ) (a : AioArgs) (o : Started) (writeFile : Option ℕ) :
    ℤ × Win32 :=
  let advance (w : Win32) :=
    if 0 ≤ (w.fdTable n).offset then w.modify n fun e => { e with offset := e.offset + a.len }
    else w
  match writeFile with
  | none => (0, advance (w.start o))
  | some err =>
      let w := w.setErrno n err
      if err ≠ errorIoPending then (-1, w.post o)
      else (0, advance ((w.setErrno n 0).start o))

/-- `OS_AsyncWrite`; `writeFile` is what `readFile` is for `OS_AsyncRead`. -/
def osAsyncWrite (w : Win32) (fd : ℤ) (a : AioArgs) (writeFile : Option ℕ) : Option (ℤ × Win32) :=
  (slot fd).bind fun n =>
    let e := w.fdTable n
    if e.type.isAsync then
      (w.writeOffsets e a).map fun (offsets, w) =>
        w.writeFileResult n a (w.newRequest n (overlapped e offsets a 0)) writeFile
    else none

/-! ### Completions -/

/-- The kernel completes a request, and its packet gets to the port. -/
def complete (w : Win32) (k bytes : ℕ) : Option Win32 :=
  w.inFlight[k]?.map fun o =>
    { w with inFlight := w.inFlight.eraseIdx k, hIoCompPort := w.hIoCompPort ++ [⟨bytes, o⟩] }

/-- A pass of the loop of `OS_DoIo`, up to the call of the callback, with the packet that
`GetQueuedCompletionStatus` has dequeued. -/
def osDoIo (w : Win32) (k : ℕ) : Option Win32 :=
  w.hIoCompPort[k]?.bind fun p =>
    (slot p.request.fd).map fun fd =>
      -- call callback if descriptor still valid
      let called := decide (p.request.ov.inst = (w.fdTable fd).inst)
      { w with
        hIoCompPort := w.hIoCompPort.eraseIdx k, log := w.log ++ [.dequeued p.request called] }

end Win32

/-! ### Steps -/

/-- A call of a function by the application or by a callback, a completion by the kernel, or
a pass of the loop of `OS_DoIo`, with the place of the packet that it dequeues. -/
inductive Win32Input where
  | newDescriptor (type : FileType) (fd desiredFd : ℤ)
  | freeDescriptor (fd : ℤ)
  | setFlags (fd flags : ℤ) (ok : Bool)
  | asyncReadStdin (a : AioArgs)
  | asyncRead (fd : ℤ) (a : AioArgs) (readFile : Option ℕ)
  | asyncWrite (fd : ℤ) (a : AioArgs) (writeFile : Option ℕ)
  | close (fd : ℤ)
  | complete (k bytes : ℕ)
  | doIo (k : ℕ)

def Win32.step (w : Win32) : Win32Input → Option Win32
  | .newDescriptor type fd desiredFd => some (w.win32NewDescriptor type fd desiredFd).2
  | .freeDescriptor fd => w.win32FreeDescriptor fd
  | .setFlags fd flags ok => w.osSetFlags fd flags ok
  | .asyncReadStdin a => (w.osAsyncReadStdin a).map Prod.snd
  | .asyncRead fd a readFile => (w.osAsyncRead fd a readFile).map Prod.snd
  | .asyncWrite fd a writeFile => (w.osAsyncWrite fd a writeFile).map Prod.snd
  | .close fd => (w.osClose fd).map Prod.snd
  | .complete k bytes => w.complete k bytes
  | .doIo k => w.osDoIo k

/-- The steps in which no assertion fails. -/
def Win32Steps (w : Win32) (i : Win32Input) (w' : Win32) : Prop := w.step i = some w'

/-! ### What a step does -/

namespace Win32

variable {w w' : Win32}

/-- The requests whose packets have not been dequeued. -/
def outstanding (w : Win32) : List Started := w.inFlight ++ w.hIoCompPort.map Packet.request

/-- The slot holds a descriptor. -/
def Used (w : Win32) (fd : ℕ) : Prop := (w.fdTable fd).type ≠ .unused

/-- No stamp is written, and no descriptor is lost. -/
structure SlotsKept (w w' : Win32) : Prop where
  inst_eq : ∀ fd, (w'.fdTable fd).inst = (w.fdTable fd).inst
  used : ∀ fd, w.Used fd → w'.Used fd

theorem SlotsKept.of_eq (h : w'.fdTable = w.fdTable) : w.SlotsKept w' where
  inst_eq fd := by rw [h]
  used fd hfd := by rwa [Used, h]

theorem SlotsKept.trans {w₁ w₂ w₃ : Win32} (h : w₁.SlotsKept w₂) (h' : w₂.SlotsKept w₃) :
    w₁.SlotsKept w₃ where
  inst_eq fd := (h'.inst_eq fd).trans (h.inst_eq fd)
  used fd hfd := h'.used fd (h.used fd hfd)

theorem slotsKept_modify {n : ℕ} {f : FdTable → FdTable}
    (hinst : (f (w.fdTable n)).inst = (w.fdTable n).inst)
    (hused : (w.fdTable n).type ≠ .unused → (f (w.fdTable n)).type ≠ .unused) :
    w.SlotsKept (w.modify n f) where
  inst_eq fd := by
    by_cases hfd : fd = n
    · subst hfd
      simp [modify, hinst]
    · simp [modify, hfd]
  used fd h := by
    by_cases hfd : fd = n
    · subst hfd
      simpa [Used, modify] using hused h
    · simpa [Used, modify, hfd] using h

theorem slotsKept_setErrno (n errno : ℕ) : w.SlotsKept (w.setErrno n errno) :=
  slotsKept_modify rfl id

end Win32

/-- The descriptor that a step closes. -/
def Win32Input.closes : Win32Input → Option ℤ
  | .freeDescriptor fd | .close fd => some fd
  | _ => none

/-- What a step can do: it leaves the requests and the record alone, or it starts a request,
closes a slot, or dequeues a packet. -/
inductive Effect (w : Win32) (i : Win32Input) (w' : Win32) : Prop
  | kept (hslots : w.SlotsKept w') (hlog : w'.log = w.log)
      (hout : ∀ x, x ∈ w'.outstanding ↔ x ∈ w.outstanding)
      (hidle : ∀ fd, i.closes = some fd → ¬w.Used fd.toNat)
  | started (o : Started) (hslots : w.SlotsKept w') (hi : i.closes = none)
      (hat : o.startedAt = w.log.length) (hinst : o.ov.inst = (w.fdTable o.fd).inst)
      (hused : w.Used o.fd) (hfd : (o.fd : ℤ) < win32OpenMax)
      (hlog : w'.log = w.log ++ [.started o])
      (hout : ∀ x, x ∈ w'.outstanding ↔ x ∈ w.outstanding ∨ x = o)
  | closed (n : ℕ) (hi : i.closes = some (n : ℤ)) (hused : w.Used n)
      (hinst : ∀ fd, (w'.fdTable fd).inst = (w.fdTable fd).inst)
      (hothers : ∀ fd, fd ≠ n → w.Used fd → w'.Used fd) (hlog : w'.log = w.log ++ [.closed n])
      (hout : ∀ x, x ∈ w'.outstanding ↔ x ∈ w.outstanding)
  | dequeued (o : Started) (hslots : w.SlotsKept w') (hi : i.closes = none)
      (hmem : o ∈ w.outstanding)
      (hlog : w'.log = w.log ++ [.dequeued o (decide (o.ov.inst = (w.fdTable o.fd).inst))])
      (hout : ∀ x ∈ w'.outstanding, x ∈ w.outstanding)

namespace Win32

variable {w w' : Win32}

theorem slot_eq_some {fd : ℤ} {n : ℕ} : slot fd = some n ↔ fd = n ∧ (n : ℤ) < win32OpenMax := by
  rw [slot]
  split
  · next h =>
      rw [Option.some.injEq]
      omega
  · next h =>
      simp only [reduceCtorEq, false_iff]
      rintro ⟨rfl, hlt⟩
      exact h ⟨Int.natCast_nonneg n, hlt⟩

theorem newIndex_unused {fd desiredFd : ℤ} {n : ℕ} (h : w.newIndex fd desiredFd = some n) :
    ¬w.Used n := by
  rw [newIndex] at h
  split at h
  · split at h
    · next hfree =>
        cases h
        exact fun hused => hused hfree
    · cases h
  · split at h
    · split at h
      · next hfree =>
          cases h
          exact fun hused => hused hfree.2
      · have hfree := List.find?_some h
        exact fun hused => hused (by simpa using hfree)
    · cases h

theorem effect_newDescriptor (type : FileType) (fd desiredFd : ℤ) :
    Effect w (.newDescriptor type fd desiredFd) (w.win32NewDescriptor type fd desiredFd).2 := by
  rw [win32NewDescriptor]
  split
  · exact .kept (.of_eq rfl) rfl (fun _ => Iff.rfl) nofun
  · next n hindex =>
      have hslots := slotsKept_modify (w := w) (n := n)
        (f := fun e =>
          { e with
            fid := dword fd, type := type, path := none, errno := 0, offset := -1
            offsetHighPtr := none, offsetLowPtr := none, hMapMutex := none })
        rfl fun hused => absurd hused (newIndex_unused hindex)
      exact .kept hslots rfl (fun _ => Iff.rfl) nofun

theorem effect_freeDescriptor {fd : ℤ} {i : Win32Input} (hi : i.closes = some fd)
    (h : w.win32FreeDescriptor fd = some w') : Effect w i w' := by
  obtain ⟨n, hslot, hfree⟩ := Option.bind_eq_some_iff.mp h
  obtain ⟨rfl, -⟩ := slot_eq_some.mp hslot
  dsimp only at hfree
  split at hfree
  · next hunused =>
      cases hfree
      refine .kept (.of_eq rfl) rfl (fun _ => Iff.rfl) fun fd hfd hused => ?_
      obtain rfl := Option.some.inj (hi.symm.trans hfd)
      exact hused hunused
  · next hused =>
      split at hfree
      · cases hfree
        refine .closed n hi hused (fun fd => ?_) (fun fd hne hfd => ?_) rfl fun _ => Iff.rfl
        · by_cases hfd : fd = n
          · subst hfd
            simp [modify]
          · simp [modify, hfd]
        · simpa [Used, modify, hne] using hfd
      · cases hfree

theorem effect_close {fd : ℤ} {x : ℤ × Win32} (h : w.osClose fd = some x) :
    Effect w (.close fd) x.2 := by
  obtain ⟨n, -, h⟩ := Option.bind_eq_some_iff.mp h
  split at h
  · cases h
  · obtain ⟨w', hfree, rfl⟩ := Option.map_eq_some_iff.mp h
    exact effect_freeDescriptor rfl hfree

theorem effect_setFlags {fd flags : ℤ} {ok : Bool} (h : w.osSetFlags fd flags ok = some w') :
    Effect w (.setFlags fd flags ok) w' := by
  obtain ⟨n, -, h⟩ := Option.bind_eq_some_iff.mp h
  split at h
  · split at h
    · cases h
      exact .kept (slotsKept_modify rfl fun _ => by simp) rfl (fun _ => Iff.rfl) nofun
    · cases h
  · cases h
    exact .kept (.of_eq rfl) rfl (fun _ => Iff.rfl) nofun

/-! ### Starting requests -/

/-- A request is handed to the kernel, or its packet is posted at once. -/
structure Starts (w : Win32) (o : Started) (w' : Win32) : Prop where
  slots : w.SlotsKept w'
  log_eq : w'.log = w.log ++ [.started o]
  mem : ∀ x, x ∈ w'.outstanding ↔ x ∈ w.outstanding ∨ x = o

theorem starts_start (o : Started) : w.Starts o (w.start o) where
  slots := .of_eq rfl
  log_eq := rfl
  mem x := by
    simp only [outstanding, start, List.mem_append, List.mem_singleton]
    tauto

theorem starts_post (o : Started) : w.Starts o (w.post o) where
  slots := .of_eq rfl
  log_eq := rfl
  mem x := by
    simp only [outstanding, post, List.map_append, List.map_cons, List.map_nil, List.mem_append,
      List.mem_singleton]
    tauto

/-- The table may be written to before a request is started. -/
theorem Starts.after {o : Started} {u : Win32} (h : u.Starts o w') (hslots : w.SlotsKept u)
    (hlog : u.log = w.log) (hout : u.outstanding = w.outstanding) : w.Starts o w' where
  slots := hslots.trans h.slots
  log_eq := by rw [h.log_eq, hlog]
  mem x := by rw [h.mem, hout]

theorem Starts.setErrno {o : Started} {n errno : ℕ} (h : (w.setErrno n errno).Starts o w') :
    w.Starts o w' := h.after (slotsKept_setErrno n errno) rfl rfl

theorem Starts.effect {o : Started} {i : Win32Input} (h : w.Starts o w') (hi : i.closes = none)
    {n : ℕ} {ov : OverlappedRequest} (ho : o = w.newRequest n ov)
    (hinst : ov.inst = (w.fdTable n).inst) (hused : w.Used n) (hn : (n : ℤ) < win32OpenMax) :
    Effect w i w' := by
  have hat : o.startedAt = w.log.length := by rw [ho, newRequest]
  have hfd : o.fd = n := by rw [ho, newRequest]
  have hov : o.ov = ov := by rw [ho, newRequest]
  exact .started o h.slots hi hat (by rw [hov, hfd, hinst]) (hfd ▸ hused) (hfd ▸ hn) h.log_eq h.mem

theorem used_of_isAsync {n : ℕ} (h : (w.fdTable n).type.isAsync = true) : w.Used n := by
  intro hfree
  rw [hfree] at h
  cases h

theorem effect_asyncReadStdin {a : AioArgs} {x : ℤ × Win32} (h : w.osAsyncReadStdin a = some x) :
    Effect w (.asyncReadStdin a) x.2 := by
  rw [osAsyncReadStdin] at h
  split at h
  · cases h
  · next hused =>
      cases h
      have hlt : ((0 : ℕ) : ℤ) < win32OpenMax := by decide
      exact (starts_start _).effect rfl rfl rfl hused hlt

theorem effect_asyncRead {fd : ℤ} {a : AioArgs} {readFile : Option ℕ} {x : ℤ × Win32}
    (h : w.osAsyncRead fd a readFile = some x) : Effect w (.asyncRead fd a readFile) x.2 := by
  obtain ⟨n, hslot, hread⟩ := Option.bind_eq_some_iff.mp h
  obtain ⟨rfl, hn⟩ := slot_eq_some.mp hslot
  dsimp only at hread
  split at hread
  · next hasync =>
      have hused := used_of_isAsync hasync
      cases readFile with
      | none =>
          cases hread
          exact (starts_start _).effect rfl rfl rfl hused hn
      | some err =>
          dsimp only at hread
          split at hread
          · cases hread
            exact (starts_post _).setErrno.effect rfl rfl rfl hused hn
          · split at hread
            · cases hread
              exact (starts_post _).setErrno.effect rfl rfl rfl hused hn
            · cases hread
              exact (starts_start _).setErrno.setErrno.effect rfl rfl rfl hused hn
  · cases hread

/-- The table may be written to after a request has been started. -/
theorem Starts.before {o : Started} {u : Win32} (h : w.Starts o u) (hslots : u.SlotsKept w')
    (hlog : w'.log = u.log) (hout : w'.outstanding = u.outstanding) : w.Starts o w' where
  slots := h.slots.trans hslots
  log_eq := hlog.trans h.log_eq
  mem x := by rw [hout, h.mem]

theorem writeOffsets_eq {e : FdTable} {a : AioArgs} {offsets : ℕ × ℕ}
    (h : w.writeOffsets e a = some (offsets, w')) :
    w'.fdTable = w.fdTable ∧ w'.log = w.log ∧ w'.outstanding = w.outstanding := by
  rw [writeOffsets] at h
  split at h
  · split at h
    · split at h
      · split at h
        · cases h
          exact ⟨rfl, rfl, rfl⟩
        · cases h
      · cases h
        exact ⟨rfl, rfl, rfl⟩
    · cases h
      exact ⟨rfl, rfl, rfl⟩
  · cases h
    exact ⟨rfl, rfl, rfl⟩

/-- `fdTable[fd].offset += len`. -/
theorem Starts.advance {o : Started} {u : Win32} (h : w.Starts o u) (n : ℕ) (a : AioArgs) :
    w.Starts o
      (if 0 ≤ (u.fdTable n).offset then
        u.modify n fun e => { e with offset := e.offset + a.len }
      else u) := by
  split
  · exact h.before (slotsKept_modify rfl id) rfl rfl
  · exact h

theorem starts_writeFileResult (n : ℕ) (a : AioArgs) (o : Started) (writeFile : Option ℕ) :
    w.Starts o (w.writeFileResult n a o writeFile).2 := by
  cases writeFile with
  | none => exact (starts_start o).advance n a
  | some err =>
      rw [writeFileResult]
      dsimp only
      split
      · exact (starts_post o).setErrno
      · exact ((starts_start o).advance n a).setErrno.setErrno

theorem effect_asyncWrite {fd : ℤ} {a : AioArgs} {writeFile : Option ℕ} {x : ℤ × Win32}
    (h : w.osAsyncWrite fd a writeFile = some x) : Effect w (.asyncWrite fd a writeFile) x.2 := by
  obtain ⟨n, hslot, hwrite⟩ := Option.bind_eq_some_iff.mp h
  obtain ⟨rfl, hn⟩ := slot_eq_some.mp hslot
  dsimp only at hwrite
  split at hwrite
  · next hasync =>
      obtain ⟨⟨offsets, u⟩, hoffsets, rfl⟩ := Option.map_eq_some_iff.mp hwrite
      obtain ⟨htable, hlog, hout⟩ := writeOffsets_eq hoffsets
      have ho : u.newRequest n (overlapped (w.fdTable n) offsets a 0) =
          w.newRequest n (overlapped (w.fdTable n) offsets a 0) := by
        rw [newRequest, newRequest, hlog]
      exact ((starts_writeFileResult n a _ writeFile).after (.of_eq htable) hlog hout).effect rfl
        ho rfl (used_of_isAsync hasync) hn
  · cases hwrite

/-! ### Completions -/

theorem effect_complete {k bytes : ℕ} (h : w.complete k bytes = some w') :
    Effect w (.complete k bytes) w' := by
  obtain ⟨o, hk, rfl⟩ := Option.map_eq_some_iff.mp h
  refine .kept (.of_eq rfl) rfl (fun x => ?_) nofun
  have hmem : x ∈ w.inFlight ↔ x ∈ w.inFlight.eraseIdx k ∨ x = o := by
    obtain ⟨hlt, rfl⟩ := List.getElem?_eq_some_iff.mp hk
    constructor
    · intro hx
      obtain ⟨j, hj, rfl⟩ := List.mem_iff_getElem.mp hx
      by_cases hjk : j = k
      · subst hjk
        exact .inr rfl
      · exact .inl (List.mem_eraseIdx_iff_getElem.mpr ⟨j, hj, hjk, rfl⟩)
    · rintro (hx | rfl)
      · exact List.mem_of_mem_eraseIdx hx
      · exact List.getElem_mem hlt
  simp only [outstanding, List.map_append, List.map_cons, List.map_nil, List.mem_append, hmem,
    List.mem_singleton]
  tauto

theorem effect_doIo {k : ℕ} (h : w.osDoIo k = some w') : Effect w (.doIo k) w' := by
  obtain ⟨p, hk, hpass⟩ := Option.bind_eq_some_iff.mp h
  obtain ⟨n, hslot, rfl⟩ := Option.map_eq_some_iff.mp hpass
  obtain ⟨hn, -⟩ := slot_eq_some.mp hslot
  obtain rfl := Int.ofNat_inj.mp hn
  have hp : p ∈ w.hIoCompPort := List.mem_of_getElem? hk
  refine .dequeued p.request (.of_eq rfl) rfl ?_ rfl fun x hx => ?_
  · exact List.mem_append_right _ (List.mem_map_of_mem hp)
  · simp only [outstanding, List.mem_append, List.mem_map] at hx ⊢
    rcases hx with hx | ⟨q, hq, rfl⟩
    · exact .inl hx
    · exact .inr ⟨q, List.mem_of_mem_eraseIdx hq, rfl⟩

/-- **What a step does.** -/
theorem effect_step {i : Win32Input} (h : Win32Steps w i w') : Effect w i w' := by
  cases i with
  | newDescriptor type fd desiredFd =>
      obtain rfl := Option.some.inj h
      exact effect_newDescriptor type fd desiredFd
  | freeDescriptor fd => exact effect_freeDescriptor rfl h
  | setFlags fd flags ok => exact effect_setFlags h
  | asyncReadStdin a =>
      obtain ⟨x, hx, rfl⟩ := Option.map_eq_some_iff.mp h
      exact effect_asyncReadStdin hx
  | asyncRead fd a readFile =>
      obtain ⟨x, hx, rfl⟩ := Option.map_eq_some_iff.mp h
      exact effect_asyncRead hx
  | asyncWrite fd a writeFile =>
      obtain ⟨x, hx, rfl⟩ := Option.map_eq_some_iff.mp h
      exact effect_asyncWrite hx
  | close fd =>
      obtain ⟨x, hx, rfl⟩ := Option.map_eq_some_iff.mp h
      exact effect_close hx
  | complete k bytes => exact effect_complete h
  | doIo k => exact effect_doIo h

end Win32

end FastCgi.OsWin32
