import FastCgi.Lib.BoundedLoop
import FastCgi.Lib.Runs
import Mathlib.Data.Finset.Card
import Mathlib.Data.Finset.Range
import Mathlib.Data.Int.Notation

/-!
Asynchronous input and output (`libfcgi/os_unix.c`).

A callback runs in the middle of the loop of `OS_DoIo` and may call any of
these functions, `OS_DoIo` included. So the calls of `OS_DoIo` that wait
for a callback are a stack, and a step of the machine is one call, made by
the application or by a callback, or the return of the innermost callback.
An access to `asyncIoTable` behind its end is an error; `log` records what
has happened. The sets of descriptors come in pairs, one for reading and
one for writing, and so do their counters.
-/

namespace FastCgi.OsUnix

open Machine BoundedLoop

/-! ### The table and the sets -/

/-- What an operation does. -/
inductive Direction where
  | read
  | write
  deriving DecidableEq

/-- `AIO_RD_IX` and `AIO_WR_IX`. -/
def aioIx : Direction → ℕ → ℕ
  | .read, fd => fd * 2
  | .write, fd => fd * 2 + 1

/-- `AioInfo`. Pointers are numbers, which are handed on and never looked into. -/
structure AioInfo where
  procPtr : Option ℕ
  clientData : ℕ
  fd : ℕ
  len : ℤ
  offset : ℤ
  buf : ℕ
  inUse : Bool
  deriving DecidableEq

/-- An entry after `memset`. -/
def AioInfo.zero : AioInfo :=
  { procPtr := none, clientData := 0, fd := 0, len := 0, offset := 0, buf := 0, inUse := false }

/-- What `OS_AsyncRead` and `OS_AsyncWrite` are given besides the descriptor. -/
structure AioArgs where
  offset : ℤ
  buf : ℕ
  len : ℤ
  procPtr : ℕ
  clientData : ℕ
  deriving DecidableEq

/-- The entry of an operation. -/
def AioArgs.info (a : AioArgs) (fd : ℕ) : AioInfo :=
  { procPtr := some a.procPtr, clientData := a.clientData, fd := fd, len := a.len
    offset := a.offset, buf := a.buf, inUse := true }

/-- What has happened, for the record. -/
inductive AsyncEvent where
  | registered (dir : Direction) (op : AioInfo)
  /-- `select` has returned, with these descriptors in its two sets. -/
  | selected (reported : Direction → Finset ℕ)
  | dispatched (dir : Direction) (op : AioInfo)
  | closed (fd : ℕ)
  | readCancelled (fd : ℕ)
  /-- `OS_DoIo` returns; whether it has called `select`, and how many callbacks. -/
  | returned (selected : Bool) (dispatched : ℕ)

/-- A call of `OS_DoIo` that waits for a callback: whose callback it is, and what it will
have done when it returns. -/
structure DoIoCall where
  dir : Direction
  fd : ℕ
  selected : Bool
  dispatched : ℕ
  deriving DecidableEq

/-- What ends the program. -/
inductive AsyncHalt where
  | assertFailed
  | outOfBounds (index : ℕ)
  | exit (errno : ℤ)
  deriving DecidableEq

/-- The static variables, the calls of `OS_DoIo` that wait for a callback, innermost first,
and the record. `readFdSet` is `fdSet .read`, and so on. -/
structure AsyncIo where
  asyncIoInUse : Bool
  asyncIoTableSize : ℕ
  asyncIoTable : ℕ → AioInfo
  fdSet : Direction → Finset ℕ
  fdSetPost : Direction → Finset ℕ
  numPosted : Direction → ℤ
  maxFd : ℤ
  calls : List DoIoCall
  log : List AsyncEvent

/-- The state after `OS_LibInit`. -/
def osLibInit : AsyncIo :=
  { asyncIoInUse := false, asyncIoTableSize := 16, asyncIoTable := fun _ => .zero
    fdSet := fun _ => ∅, fdSetPost := fun _ => ∅, numPosted := fun _ => 0, maxFd := -1
    calls := [], log := [] }

namespace AsyncIo

def note (s : AsyncIo) (e : AsyncEvent) : AsyncIo := { s with log := s.log ++ [e] }

/-- `asyncIoTable[index]`. -/
def entry (s : AsyncIo) (index : ℕ) : Except AsyncHalt AioInfo :=
  if index < s.asyncIoTableSize then .ok (s.asyncIoTable index) else .error (.outOfBounds index)

def setEntry (s : AsyncIo) (index : ℕ) (e : AioInfo) : AsyncIo :=
  { s with asyncIoTable := Function.update s.asyncIoTable index e }

/-- `FD_SET(fd, &readFdSet)`. -/
def addFd (s : AsyncIo) (dir : Direction) (fd : ℕ) : AsyncIo :=
  { s with fdSet := Function.update s.fdSet dir (insert fd (s.fdSet dir)) }

/-- `FD_CLR(fd, &readFdSet)`. -/
def clearFd (s : AsyncIo) (dir : Direction) (fd : ℕ) : AsyncIo :=
  { s with fdSet := Function.update s.fdSet dir ((s.fdSet dir).erase fd) }

/-- `FD_CLR(fd, &readFdSetPost)`. -/
def clearPost (s : AsyncIo) (dir : Direction) (fd : ℕ) : AsyncIo :=
  { s with fdSetPost := Function.update s.fdSetPost dir ((s.fdSetPost dir).erase fd) }

/-! ### Registering -/

/-- `GrowAsyncTable`. -/
def growAsyncTable (s : AsyncIo) : AsyncIo :=
  { s with
    asyncIoTableSize := s.asyncIoTableSize * 2
    asyncIoTable := fun i =>
      if s.asyncIoTableSize ≤ i ∧ i < s.asyncIoTableSize * 2 then .zero else s.asyncIoTable i }

/-- `while (index >= asyncIoTableSize) GrowAsyncTable()`. -/
def growBody (index : ℕ) (s : AsyncIo) : Option (Pass AsyncIo AsyncIo) :=
  if s.asyncIoTableSize ≤ index then some (.again s.growAsyncTable) else some (.done s)

def growFor (s : AsyncIo) (index : ℕ) : Option AsyncIo := run (growBody index) (index + 2) s

/-- The entry is filled in. -/
def register (s : AsyncIo) (dir : Direction) (fd : ℕ) (a : AioArgs) : Except AsyncHalt AsyncIo :=
  match s.entry (aioIx dir fd) with
  | .error halt => .error halt
  | .ok e =>
      if e.inUse then .error .assertFailed
      else
        .ok (((s.setEntry (aioIx dir fd) (a.info fd)).addFd dir fd).note
          (.registered dir (a.info fd)))

/-- `asyncIoInUse = TRUE; if(fd > maxFd) maxFd = fd`. -/
def useFd (s : AsyncIo) (fd : ℕ) : AsyncIo :=
  { s with asyncIoInUse := true, maxFd := if s.maxFd < fd then fd else s.maxFd }

/-- `OS_AsyncReadStdin`. -/
def osAsyncReadStdin (s : AsyncIo) (a : AioArgs) : Except AsyncHalt AsyncIo :=
  (s.useFd 0).register .read 0 { a with offset := 0 }

/-- `OS_AsyncRead` and `OS_AsyncWrite`. -/
def osAsync (s : AsyncIo) (dir : Direction) (fd : ℕ) (a : AioArgs) :
    Option (Except AsyncHalt AsyncIo) :=
  ((s.useFd fd).growFor (aioIx dir fd)).map fun s => s.register dir fd a

/-! ### Closing -/

/-- `FD_CLR` from both sets, and `inUse = 0`. -/
def cancel (s : AsyncIo) (dir : Direction) (fd : ℕ) : Except AsyncHalt AsyncIo :=
  (s.entry (aioIx dir fd)).map fun e =>
    let s := (s.clearFd dir fd).clearPost dir fd
    if e.inUse then s.setEntry (aioIx dir fd) { e with inUse := false } else s

/-- `if (maxFd == fd) maxFd--`. -/
def dropFd (s : AsyncIo) (fd : ℕ) : AsyncIo :=
  { s with maxFd := if s.maxFd = fd then s.maxFd - 1 else s.maxFd }

/-- `OS_Close`, of a descriptor other than -1. -/
def osClose (s : AsyncIo) (fd : ℕ) : Except AsyncHalt AsyncIo :=
  if s.asyncIoInUse then
    match s.cancel .read fd with
    | .error halt => .error halt
    | .ok s => (s.cancel .write fd).map fun s => (s.dropFd fd).note (.closed fd)
  else .ok (s.note (.closed fd))

/-- `OS_CloseRead`. -/
def osCloseRead (s : AsyncIo) (fd : ℕ) : Except AsyncHalt AsyncIo :=
  (s.entry (aioIx .read fd)).map fun e =>
    let s := s.note (.readCancelled fd)
    if e.inUse then
      (s.setEntry (aioIx .read fd) { e with inUse := false }).clearFd .read fd
    else s

/-! ### Dispatching -/

/-- The sets that `select` is given, and of them what it leaves in them. -/
def reported (s : AsyncIo) (sel : Direction → Finset ℕ) (dir : Direction) : Finset ℕ :=
  s.fdSet dir ∩ Finset.range (s.maxFd + 1).toNat ∩ sel dir

/-- Build up a list of completed events. -/
def post (s : AsyncIo) (sel : Direction → Finset ℕ) : AsyncIo :=
  { s with
    numPosted := fun dir => s.numPosted dir + (s.reported sel dir).card
    fdSetPost := fun dir => s.fdSetPost dir ∪ s.reported sel dir
    fdSet := fun dir => s.fdSet dir \ s.reported sel dir
    log := s.log ++ [.selected (s.reported sel)] }

/-- `FD_ISSET(fd, &readFdSetPost) && asyncIoTable[AIO_RD_IX(fd)].inUse`. -/
def isPosted (s : AsyncIo) (dir : Direction) (fd : ℕ) : Except AsyncHalt Bool :=
  if fd ∈ s.fdSetPost dir then (s.entry (aioIx dir fd)).map AioInfo.inUse else .ok false

/-- From `numRdPosted--` to the call of the callback. -/
def dispatch (s : AsyncIo) (dir : Direction) (fd : ℕ) (selected : Bool) (dispatched : ℕ) :
    AsyncIo :=
  let e := s.asyncIoTable (aioIx dir fd)
  let s := (s.clearPost dir fd).setEntry (aioIx dir fd) { e with procPtr := none, inUse := false }
  { s with
    numPosted := Function.update s.numPosted dir (s.numPosted dir - 1)
    calls := ⟨dir, fd, selected, dispatched + 1⟩ :: s.calls
    log := s.log ++ [.dispatched dir e] }

/-- The loop over the descriptors from `fd` on, of which `n` are left, up to the next
callback. -/
def scan (s : AsyncIo) (selected : Bool) (dispatched : ℕ) :
    ℕ → ℕ → Except AsyncHalt AsyncIo
  | 0, _ => .ok (s.note (.returned selected dispatched))
  | n + 1, fd => do
      if ← s.isPosted .read fd then return s.dispatch .read fd selected dispatched
      if ← s.isPosted .write fd then return s.dispatch .write fd selected dispatched
      s.scan selected dispatched n (fd + 1)

/-- `for(; fd <= maxFd; fd++)`. -/
def scanFrom (s : AsyncIo) (selected : Bool) (dispatched fd : ℕ) : Except AsyncHalt AsyncIo :=
  s.scan selected dispatched (s.maxFd + 1 - fd).toNat fd

/-- No event is posted, as far as the counters say. -/
def Idle (s : AsyncIo) : Prop := s.numPosted .read = 0 ∧ s.numPosted .write = 0

instance (s : AsyncIo) : Decidable s.Idle := inferInstanceAs (Decidable (_ ∧ _))

/-- `OS_DoIo`, up to the first callback. -/
def osDoIo (s : AsyncIo) (select : Except ℤ (Direction → Finset ℕ)) : Except AsyncHalt AsyncIo :=
  let s := { s with asyncIoInUse := true }
  if s.Idle then
    match select with
    | .error errno => .error (.exit errno)
    | .ok sel =>
        if (s.post sel).Idle then .ok ((s.post sel).note (.returned true 0))
        else (s.post sel).scanFrom true 0 0
  else s.scanFrom false 0 0

/-- `OS_DoIo`, from the return of a callback up to the next one. -/
def resume (s : AsyncIo) (call : DoIoCall) : Except AsyncHalt AsyncIo :=
  match call.dir with
  | .read => do
      if ← s.isPosted .write call.fd then
        return s.dispatch .write call.fd call.selected call.dispatched
      s.scanFrom call.selected call.dispatched (call.fd + 1)
  | .write => s.scanFrom call.selected call.dispatched (call.fd + 1)

end AsyncIo

/-! ### Steps -/

/-- One call of a function, with what `select` does in it, or the return of a callback. -/
inductive AsyncInput where
  | asyncReadStdin (a : AioArgs)
  | async (dir : Direction) (fd : ℕ) (a : AioArgs)
  | close (fd : ℕ)
  | closeRead (fd : ℕ)
  | doIo (select : Except ℤ (Direction → Finset ℕ))
  | callbackReturns

def AsyncIo.step (s : AsyncIo) : AsyncInput → Option (Except AsyncHalt AsyncIo)
  | .asyncReadStdin a => some (s.osAsyncReadStdin a)
  | .async dir fd a => s.osAsync dir fd a
  | .close fd => some (s.osClose fd)
  | .closeRead fd => some (s.osCloseRead fd)
  | .doIo select => some (s.osDoIo select)
  | .callbackReturns =>
      match s.calls with
      | [] => none
      | call :: calls => some ({ s with calls := calls }.resume call)

/-- The steps that do not end the program. -/
def AsyncSteps (s : AsyncIo) (i : AsyncInput) (s' : AsyncIo) : Prop := s.step i = some (.ok s')

/-- The step as a partial function. -/
def asyncStep (s : AsyncIo) (i : AsyncInput) : Option AsyncIo := (s.step i).bind Except.toOption

theorem asyncSteps_of_asyncStep {s s' : AsyncIo} {i : AsyncInput} (h : asyncStep s i = some s') :
    AsyncSteps s i s' := by
  obtain ⟨r, hr, hok⟩ := Option.bind_eq_some_iff.mp h
  cases r with
  | error halt => exact nomatch hok
  | ok t =>
      obtain rfl := Option.some.inj hok
      exact hr

/-! ### Growing the table -/

namespace AsyncIo

variable {s t : AsyncIo}

theorem entry_of_lt {index : ℕ} (h : index < s.asyncIoTableSize) :
    s.entry index = .ok (s.asyncIoTable index) := if_pos h

theorem entry_of_ge {index : ℕ} (h : s.asyncIoTableSize ≤ index) :
    s.entry index = .error (.outOfBounds index) := if_neg (Nat.not_lt.mpr h)

/-- The table has grown: what was there is there, and what is new is not in use. -/
structure GrownTo (s t : AsyncIo) : Prop where
  eq : t = { s with asyncIoTableSize := t.asyncIoTableSize, asyncIoTable := t.asyncIoTable }
  size_le : s.asyncIoTableSize ≤ t.asyncIoTableSize
  kept : ∀ k, k < s.asyncIoTableSize → t.asyncIoTable k = s.asyncIoTable k
  fresh : ∀ k, s.asyncIoTableSize ≤ k → k < t.asyncIoTableSize → t.asyncIoTable k = .zero

theorem GrownTo.refl (s : AsyncIo) : s.GrownTo s where
  eq := rfl
  size_le := Nat.le_refl _
  kept _ _ := rfl
  fresh _ h h' := absurd h' (Nat.not_lt.mpr h)

theorem GrownTo.grow (h : s.GrownTo t) : s.GrownTo t.growAsyncTable where
  eq := by
    rw [h.eq]
    rfl
  size_le := by
    have := h.size_le
    simp only [growAsyncTable]
    omega
  kept k hk := by
    have hle := h.size_le
    have hold : ¬(t.asyncIoTableSize ≤ k ∧ k < t.asyncIoTableSize * 2) := by omega
    simp only [growAsyncTable, if_neg hold]
    exact h.kept k hk
  fresh k hk hk' := by
    simp only [growAsyncTable] at hk' ⊢
    by_cases hold : k < t.asyncIoTableSize
    · rw [if_neg (by omega)]
      exact h.fresh k hk hold
    · rw [if_pos (by omega)]

/-- **The table grows until the entry is there.** -/
theorem growFor_spec (h : 0 < s.asyncIoTableSize) (index : ℕ) :
    ∃ t, s.growFor index = some t ∧ index < t.asyncIoTableSize ∧ s.GrownTo t := by
  refine run_total (fun t => 0 < t.asyncIoTableSize ∧ s.GrownTo t)
    (fun t => index < t.asyncIoTableSize ∧ s.GrownTo t)
    (fun t => index + 1 - t.asyncIoTableSize) ?_ ⟨h, .refl s⟩ (by omega)
  rintro t ⟨hpos, hgrown⟩
  by_cases hle : t.asyncIoTableSize ≤ index
  · refine .inr ⟨t.growAsyncTable, if_pos hle, ⟨?_, hgrown.grow⟩, ?_⟩
    · simp only [growAsyncTable]
      omega
    · simp only [growAsyncTable]
      omega
  · exact .inl ⟨t, if_neg hle, Nat.lt_of_not_le hle, hgrown⟩

/-! ### Bounds -/

/-- Every descriptor in a set has its entry in the table. -/
structure Sized (s : AsyncIo) : Prop where
  size : 16 ≤ s.asyncIoTableSize
  ix_lt : ∀ dir fd, fd ∈ s.fdSet dir ∨ fd ∈ s.fdSetPost dir → aioIx dir fd < s.asyncIoTableSize

theorem sized_osLibInit : osLibInit.Sized where
  size := Nat.le_refl _
  ix_lt dir fd h := by simp [osLibInit] at h

/-- The sets have not grown, and the table has not shrunk. -/
theorem Sized.mono (h : s.Sized) (hsize : s.asyncIoTableSize ≤ t.asyncIoTableSize)
    (hsub : ∀ dir fd, fd ∈ t.fdSet dir ∨ fd ∈ t.fdSetPost dir →
      fd ∈ s.fdSet dir ∨ fd ∈ s.fdSetPost dir) : t.Sized where
  size := h.size.trans hsize
  ix_lt dir fd hfd := Nat.lt_of_lt_of_le (h.ix_lt dir fd (hsub dir fd hfd)) hsize

/-- What a function does that is called where the accesses `Good` allows are in the table. -/
def Bounded (Good : Prop) : Except AsyncHalt AsyncIo → Prop
  | .ok t => Good ∧ t.Sized
  | .error (.outOfBounds _) => ¬Good
  | .error .assertFailed => Good
  | .error (.exit _) => Good

theorem mem_update_erase {f : Direction → Finset ℕ} {dir d : Direction} {fd x : ℕ}
    (h : x ∈ Function.update f dir ((f dir).erase fd) d) : x ∈ f d := by
  by_cases hd : d = dir
  · subst hd
    rw [Function.update_self] at h
    exact Finset.mem_of_mem_erase h
  · rwa [Function.update_of_ne hd] at h

theorem mem_update_insert {f : Direction → Finset ℕ} {dir d : Direction} {fd x : ℕ}
    (h : x ∈ Function.update f dir (insert fd (f dir)) d) : x ∈ f d ∨ d = dir ∧ x = fd := by
  by_cases hd : d = dir
  · subst hd
    rw [Function.update_self, Finset.mem_insert] at h
    exact h.symm.imp_right fun heq => ⟨rfl, heq⟩
  · rw [Function.update_of_ne hd] at h
    exact .inl h

theorem Sized.register (h : s.Sized) {dir : Direction} {fd : ℕ}
    (hix : aioIx dir fd < s.asyncIoTableSize) (a : AioArgs) :
    Bounded True (s.register dir fd a) := by
  rw [AsyncIo.register, entry_of_lt hix]
  dsimp only
  split
  · trivial
  · refine ⟨trivial, h.size, fun d x hx => ?_⟩
    rcases hx with hx | hx
    · rcases mem_update_insert hx with hx | ⟨rfl, rfl⟩
      · exact h.ix_lt d x (.inl hx)
      · exact hix
    · exact h.ix_lt d x (.inr hx)

theorem Sized.cancel (h : s.Sized) {dir : Direction} {fd : ℕ}
    (hix : aioIx dir fd < s.asyncIoTableSize) :
    ∃ t, s.cancel dir fd = .ok t ∧ t.Sized ∧ t.asyncIoTableSize = s.asyncIoTableSize := by
  refine ⟨_, by rw [AsyncIo.cancel, entry_of_lt hix]; rfl, ?_⟩
  have hcleared : ((s.clearFd dir fd).clearPost dir fd).Sized :=
    h.mono (Nat.le_refl _) fun d x hx => hx.imp mem_update_erase mem_update_erase
  dsimp only
  split
  · exact ⟨hcleared.mono (Nat.le_refl _) fun _ _ hx => hx, rfl⟩
  · exact ⟨hcleared, rfl⟩

theorem Sized.osClose (h : s.Sized) (fd : ℕ) :
    Bounded (s.asyncIoInUse = true → aioIx .write fd < s.asyncIoTableSize) (s.osClose fd) := by
  rw [AsyncIo.osClose]
  split
  · next huse =>
      by_cases hread : aioIx .read fd < s.asyncIoTableSize
      · obtain ⟨t, hcancel, ht, hsize⟩ := h.cancel hread
        rw [hcancel]
        dsimp only
        by_cases hwrite : aioIx .write fd < s.asyncIoTableSize
        · obtain ⟨u, hcancel', hu, -⟩ := ht.cancel (hsize.symm ▸ hwrite)
          rw [hcancel']
          exact ⟨fun _ => hwrite, hu.mono (Nat.le_refl _) fun _ _ hx => hx⟩
        · rw [AsyncIo.cancel, entry_of_ge (by omega)]
          exact fun hgood => hwrite (hgood huse)
      · rw [AsyncIo.cancel, entry_of_ge (by omega)]
        intro hgood
        have hwrite := hgood huse
        simp only [aioIx] at hread hwrite
        omega
  · next huse => exact ⟨fun huse' => absurd huse' huse, h.mono (Nat.le_refl _) fun _ _ hx => hx⟩

theorem Sized.osCloseRead (h : s.Sized) (fd : ℕ) :
    Bounded (aioIx .read fd < s.asyncIoTableSize) (s.osCloseRead fd) := by
  rw [AsyncIo.osCloseRead]
  by_cases hix : aioIx .read fd < s.asyncIoTableSize
  · rw [entry_of_lt hix]
    refine ⟨hix, ?_⟩
    dsimp only
    split
    · exact h.mono (Nat.le_refl _) fun _ _ hx => hx.imp_left mem_update_erase
    · exact h.mono (Nat.le_refl _) fun _ _ hx => hx
  · rw [entry_of_ge (Nat.le_of_not_lt hix)]
    exact hix

theorem Sized.isPosted (h : s.Sized) (dir : Direction) (fd : ℕ) :
    ∃ b, s.isPosted dir fd = .ok b := by
  rw [AsyncIo.isPosted]
  split
  · next hfd =>
      rw [entry_of_lt (h.ix_lt dir fd (.inr hfd))]
      exact ⟨_, rfl⟩
  · exact ⟨false, rfl⟩

theorem Sized.dispatch (h : s.Sized) (dir : Direction) (fd : ℕ) (selected : Bool)
    (dispatched : ℕ) : (s.dispatch dir fd selected dispatched).Sized :=
  h.mono (Nat.le_refl _) fun _ _ hx => hx.imp_right mem_update_erase

theorem Sized.scan (h : s.Sized) (selected : Bool) (dispatched n fd : ℕ) :
    Bounded True (s.scan selected dispatched n fd) := by
  induction n generalizing fd with
  | zero => exact ⟨trivial, h.mono (Nat.le_refl _) fun _ _ hx => hx⟩
  | succ n ih =>
      obtain ⟨b, hb⟩ := h.isPosted .read fd
      obtain ⟨b', hb'⟩ := h.isPosted .write fd
      rw [AsyncIo.scan, hb, hb']
      cases b with
      | true => exact ⟨trivial, h.dispatch .read fd selected dispatched⟩
      | false =>
          cases b' with
          | true => exact ⟨trivial, h.dispatch .write fd selected dispatched⟩
          | false => exact ih (fd + 1)

theorem Sized.post (h : s.Sized) (sel : Direction → Finset ℕ) : (s.post sel).Sized := by
  refine h.mono (Nat.le_refl _) fun dir fd hfd => ?_
  simp only [AsyncIo.post, reported, Finset.mem_sdiff, Finset.mem_union, Finset.mem_inter] at hfd
  tauto

theorem Sized.osDoIo (h : s.Sized) (select : Except ℤ (Direction → Finset ℕ)) :
    Bounded True (s.osDoIo select) := by
  have huse : { s with asyncIoInUse := true }.Sized := h.mono (Nat.le_refl _) fun _ _ hx => hx
  simp only [AsyncIo.osDoIo]
  split
  · cases select with
    | error errno => trivial
    | ok sel =>
        have hpost := huse.post sel
        dsimp only
        split
        · exact ⟨trivial, hpost.mono (Nat.le_refl _) fun _ _ hx => hx⟩
        · exact hpost.scan true 0 _ 0
  · exact huse.scan false 0 _ 0

theorem Sized.resume (h : s.Sized) (call : DoIoCall) : Bounded True (s.resume call) := by
  rw [AsyncIo.resume]
  split
  · obtain ⟨b, hb⟩ := h.isPosted .write call.fd
    rw [hb]
    cases b with
    | true => exact ⟨trivial, h.dispatch .write call.fd call.selected call.dispatched⟩
    | false => exact h.scan call.selected call.dispatched _ _
  · exact h.scan call.selected call.dispatched _ _

/-- The entries that a call accesses without growing the table first are in the table. -/
def InTable (s : AsyncIo) : AsyncInput → Prop
  | .close fd => s.asyncIoInUse = true → aioIx .write fd < s.asyncIoTableSize
  | .closeRead fd => aioIx .read fd < s.asyncIoTableSize
  | _ => True

/-- **One step and the table.** -/
theorem Sized.step (h : s.Sized) (i : AsyncInput) {r : Except AsyncHalt AsyncIo}
    (hr : s.step i = some r) : Bounded (s.InTable i) r := by
  cases i with
  | asyncReadStdin a =>
      obtain rfl := Option.some.inj hr
      have huse : (s.useFd 0).Sized := h.mono (Nat.le_refl _) fun _ _ hx => hx
      exact huse.register (Nat.lt_of_lt_of_le (by decide) h.size) _
  | async dir fd a =>
      have huse : (s.useFd fd).Sized := h.mono (Nat.le_refl _) fun _ _ hx => hx
      obtain ⟨t, hgrow, hix, hgrown⟩ :=
        growFor_spec (Nat.lt_of_lt_of_le (by decide) huse.size) (aioIx dir fd)
      simp only [AsyncIo.step, osAsync, hgrow, Option.map_some, Option.some.injEq] at hr
      obtain rfl := hr
      have ht : t.Sized := huse.mono hgrown.size_le fun d x hx => by
        rwa [hgrown.eq] at hx
      exact ht.register hix a
  | close fd =>
      obtain rfl := Option.some.inj hr
      exact h.osClose fd
  | closeRead fd =>
      obtain rfl := Option.some.inj hr
      exact h.osCloseRead fd
  | doIo select =>
      obtain rfl := Option.some.inj hr
      exact h.osDoIo select
  | callbackReturns =>
      rw [AsyncIo.step] at hr
      split at hr
      · exact nomatch hr
      · next call calls hcalls =>
          obtain rfl := Option.some.inj hr
          have hpop : { s with calls := calls }.Sized := h.mono (Nat.le_refl _) fun _ _ hx => hx
          exact hpop.resume call

end AsyncIo

/-- A call that accesses an entry without growing the table first. -/
theorem AsyncIo.step_isSome {s : AsyncIo} {i : AsyncInput} (h : ¬ s.InTable i) :
    ∃ r, s.step i = some r := by
  cases i with
  | close fd => exact ⟨_, rfl⟩
  | closeRead fd => exact ⟨_, rfl⟩
  | asyncReadStdin => exact absurd trivial h
  | async => exact absurd trivial h
  | doIo => exact absurd trivial h
  | callbackReturns => exact absurd trivial h

/-- **Every access to `asyncIoTable` is in bounds**, after any run of calls, callbacks
included, unless the next call is an `OS_Close` or an `OS_CloseRead` of a descriptor that
has no entry; and the table grows as far as is needed, with all that is in it. -/
theorem asyncIoTable_inBounds {is : List AsyncInput} {s : AsyncIo}
    (hrun : Runs AsyncSteps osLibInit is s) :
    (∀ i, (∃ index, s.step i = some (.error (.outOfBounds index))) ↔ ¬ s.InTable i) ∧
      ∀ index, ∃ t, s.growFor index = some t ∧ index < t.asyncIoTableSize ∧ s.GrownTo t := by
  have hsized : s.Sized := by
    refine hrun.invariant (fun s i t h hstep => ?_) AsyncIo.sized_osLibInit
    have hbounded : AsyncIo.Bounded (s.InTable i) (.ok t) := h.step i hstep
    exact hbounded.2
  refine ⟨fun i => ⟨?_, fun hout => ?_⟩, AsyncIo.growFor_spec (by have := hsized.size; omega)⟩
  · rintro ⟨index, hindex⟩
    exact hsized.step i hindex
  · obtain ⟨r, hr⟩ := AsyncIo.step_isSome hout
    have hbounded := hsized.step i hr
    match r with
    | .error (.outOfBounds index) => exact ⟨index, hr⟩
    | .ok t => exact absurd hbounded.1 hout
    | .error .assertFailed => exact absurd hbounded hout
    | .error (.exit _) => exact absurd hbounded hout

/-- A read of descriptor 9 makes the table grow; then the descriptor is closed. -/
theorem asyncIoTable_inBounds_readNine :
    ∃ s, Runs AsyncSteps osLibInit [.async .read 9 ⟨0, 0, 8, 1, 0⟩, .close 9] s ∧
      s.asyncIoTableSize = 32 ∧
      (∀ i, (∃ index, s.step i = some (.error (.outOfBounds index))) ↔ ¬ s.InTable i) ∧
        ∀ index, ∃ t, s.growFor index = some t ∧ index < t.asyncIoTableSize ∧ s.GrownTo t :=
  have hrun : Runs AsyncSteps osLibInit [.async .read 9 ⟨0, 0, 8, 1, 0⟩, .close 9] _ :=
    .of_exec (fun _ _ _ => asyncSteps_of_asyncStep) rfl
  ⟨_, hrun, rfl, asyncIoTable_inBounds hrun⟩

/-- After a read of descriptor 3, closing descriptor 8 accesses entry 16 of 16. -/
theorem asyncIoTable_outOfBounds :
    ¬ ∀ is s i, Runs AsyncSteps osLibInit is s →
      ∀ index, s.step i ≠ some (.error (.outOfBounds index)) := by
  intro hclaim
  have hrun : Runs AsyncSteps osLibInit [.async .read 3 ⟨0, 0, 8, 1, 0⟩] _ :=
    .of_exec (fun _ _ _ => asyncSteps_of_asyncStep) rfl
  exact hclaim _ _ (.close 8) hrun 16 rfl

end FastCgi.OsUnix
