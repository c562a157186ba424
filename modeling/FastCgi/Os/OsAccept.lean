import FastCgi.Lib.Runs
import Mathlib.Data.Int.Notation

/-!
`OS_Accept` (`libfcgi/os_unix.c`).

The call is a machine that stops wherever it asks the world something: a
lock, `accept`, the poll of `is_af_unix_keeper`. Between two of these
points anything may raise `shutdownPending`, which is never lowered again.
What the call does to descriptors is recorded in `log`.
-/

namespace FastCgi

open Machine

/-- `sin_family` of a peer. -/
inductive Family where
  | unix
  | inet
  | other (n : ℕ)
  deriving DecidableEq

/-- The address that `accept` fills in. -/
structure Peer where
  family : Family
  addr : UInt32
  deriving DecidableEq

/-- The values of `errno` that `OS_Accept` tells apart. -/
inductive AcceptErrno where
  | eintr
  | eproto
  | econnaborted
  | econnreset
  | etimedout
  | ehostunreach
  | enetunreach
  | other (e : ℤ)
  deriving DecidableEq

/-- `is_reasonable_accept_errno`. -/
def isReasonableAcceptErrno : Option AcceptErrno → Bool
  | some .eproto | some .econnaborted | some .econnreset | some .etimedout
  | some .ehostunreach | some .enetunreach => true
  | _ => false

/-- The loop of `ClientAddrOK`: `cur` is the front of the string up to the next
comma, `next` what is behind it. It takes fewer rounds than there are bytes and one. -/
def clientAddrLoop (inetAddr : List UInt8 → UInt32) (addr : UInt32) :
    ℕ → List UInt8 → Bool
  | 0, _ => false
  | rounds + 1, cur =>
      if inetAddr (cur.takeWhile (· ≠ 44)) = addr then true
      else
        match cur.dropWhile (· ≠ 44) with
        | [] => false
        | _ :: next => clientAddrLoop inetAddr addr rounds next

/-- `ClientAddrOK`. -/
def clientAddrOK (inetAddr : List UInt8 → UInt32) (addr : UInt32) :
    Option (List UInt8) → Bool
  | none => true
  | some [] => true
  | some clientList => clientAddrLoop inetAddr addr (clientList.length + 1) clientList

/-- Where `OS_Accept` is. -/
inductive AcceptPc where
  /-- `AcquireLock`, at the top of the outer loop. -/
  | lock
  /-- `if (shutdownPending) break`. -/
  | test
  /-- `accept`, and the condition of the innermost loop. -/
  | accept
  /-- `if (socket < 0)`. -/
  | check
  /-- `ReleaseLock`. -/
  | unlock
  /-- `is_af_unix_keeper(socket)`. -/
  | keeper
  | done (rc : ℤ)
  deriving DecidableEq

/-- What `OS_Accept` does, for the record. -/
inductive AcceptEvent where
  | round
  | sawShutdown
  | accepted (fd : ℕ) (peer : Peer)
  | polled (fd : ℤ)
  | closed (fd : ℤ)
  | returned (rc : ℤ)
  deriving DecidableEq

/-- A call of `OS_Accept`: its arguments, its variables and the global
`shutdownPending`. -/
structure AcceptCall where
  failOnIntr : Bool
  webServerAddrs : Option (List UInt8)
  pc : AcceptPc
  socket : ℤ
  sa : Peer
  errno : Option AcceptErrno
  shutdownPending : Bool
  log : List AcceptEvent

/-- What the world does next: a signal handler raises `shutdownPending`, a lock is
granted or not, `accept` and `poll` return. -/
inductive AcceptInput where
  | shutdown
  | lock (granted : Bool)
  | accept (result : Except AcceptErrno (ℕ × Peer))
  | poll (readable : Bool)
  | run

def AcceptCall.note (c : AcceptCall) (e : AcceptEvent) : AcceptCall :=
  { c with log := c.log ++ [e] }

def AcceptCall.goto (c : AcceptCall) (pc : AcceptPc) : AcceptCall := { c with pc := pc }

def AcceptCall.return (c : AcceptCall) (rc : ℤ) : AcceptCall :=
  (c.goto (.done rc)).note (.returned rc)

@[simp] theorem AcceptCall.note_pc (c : AcceptCall) (e : AcceptEvent) : (c.note e).pc = c.pc :=
  rfl

@[simp] theorem AcceptCall.note_socket (c : AcceptCall) (e : AcceptEvent) :
    (c.note e).socket = c.socket := rfl

@[simp] theorem AcceptCall.note_sa (c : AcceptCall) (e : AcceptEvent) : (c.note e).sa = c.sa := rfl

@[simp] theorem AcceptCall.note_shutdownPending (c : AcceptCall) (e : AcceptEvent) :
    (c.note e).shutdownPending = c.shutdownPending := rfl

@[simp] theorem AcceptCall.mem_note_log (c : AcceptCall) (e e' : AcceptEvent) :
    e' ∈ (c.note e).log ↔ e' ∈ c.log ∨ e' = e := by simp [AcceptCall.note]

@[simp] theorem AcceptCall.goto_pc (c : AcceptCall) (pc : AcceptPc) : (c.goto pc).pc = pc := rfl

@[simp] theorem AcceptCall.goto_socket (c : AcceptCall) (pc : AcceptPc) :
    (c.goto pc).socket = c.socket := rfl

@[simp] theorem AcceptCall.goto_sa (c : AcceptCall) (pc : AcceptPc) : (c.goto pc).sa = c.sa := rfl

@[simp] theorem AcceptCall.goto_shutdownPending (c : AcceptCall) (pc : AcceptPc) :
    (c.goto pc).shutdownPending = c.shutdownPending := rfl

@[simp] theorem AcceptCall.goto_log (c : AcceptCall) (pc : AcceptPc) : (c.goto pc).log = c.log :=
  rfl

@[simp] theorem AcceptCall.return_pc (c : AcceptCall) (rc : ℤ) : (c.return rc).pc = .done rc := rfl

@[simp] theorem AcceptCall.return_shutdownPending (c : AcceptCall) (rc : ℤ) :
    (c.return rc).shutdownPending = c.shutdownPending := rfl

@[simp] theorem AcceptCall.mem_return_log (c : AcceptCall) (rc : ℤ) (e : AcceptEvent) :
    e ∈ (c.return rc).log ↔ e ∈ c.log ∨ e = .returned rc := by
  rw [AcceptCall.return, AcceptCall.mem_note_log, AcceptCall.goto_log]

/-- A test of `shutdownPending`. -/
def AcceptCall.testShutdown (c : AcceptCall) : AcceptCall :=
  if c.shutdownPending then c.note .sawShutdown else c

/-- The condition of the innermost loop, after `accept` has failed. -/
def AcceptCall.retry (c : AcceptCall) (e : AcceptErrno) : AcceptCall :=
  if e = .eintr ∧ c.failOnIntr = false then
    if c.shutdownPending then c.testShutdown.goto .check else c.goto .test
  else c.goto .check

/-- `if (socket < 0)` and what depends on it; `ReleaseLock` may fail before -1 is
returned, which is ignored. -/
def AcceptCall.check (inetAddr : List UInt8 → UInt32) (c : AcceptCall) : AcceptCall :=
  if c.socket < 0 then
    if c.shutdownPending then c.testShutdown.return (-1)
    else if !isReasonableAcceptErrno c.errno then c.return (-1)
    else { c with errno := none }.goto .test
  else if c.sa.family ≠ .inet then c.goto .unlock
  else if clientAddrOK inetAddr c.sa.addr c.webServerAddrs then c.goto .unlock
  else ({ c with socket := -1 }.note (.closed c.socket)).goto .test

/-- `if (sa.in.sin_family != AF_UNIX || is_af_unix_keeper(socket))`, up to the poll. -/
def AcceptCall.leave (c : AcceptCall) : AcceptCall :=
  if c.sa.family ≠ .unix then c.return c.socket else c.goto .keeper

/-- One step of `OS_Accept`. -/
def acceptStep (inetAddr : List UInt8 → UInt32) (c : AcceptCall) :
    AcceptInput → Option AcceptCall
  | .shutdown => some { c with shutdownPending := true }
  | .lock granted =>
      match c.pc with
      | .lock => some (if granted then c.goto .test else c.return (-1))
      | .unlock => some (if granted then c.leave else c.return (-1))
      | _ => none
  | .accept result =>
      match c.pc, result with
      | .accept, .ok (fd, peer) =>
          some (({ c with socket := fd, sa := peer }.note (.accepted fd peer)).goto .check)
      | .accept, .error e => some ({ c with socket := -1, errno := some e }.retry e)
      | _, _ => none
  | .poll readable =>
      match c.pc with
      | .keeper =>
          some (
            if readable then (c.note (.polled c.socket)).return c.socket
            else (((c.note (.polled c.socket)).note (.closed c.socket)).note .round).goto .lock)
      | _ => none
  | .run =>
      match c.pc with
      | .test => some (if c.shutdownPending then c.testShutdown.goto .check else c.goto .accept)
      | .check => some (c.check inetAddr)
      | _ => none

/-- `OS_Accept` is called. -/
def osAccept (failOnIntr : Bool) (webServerAddrs : Option (List UInt8)) (sa : Peer)
    (errno : Option AcceptErrno) (shutdownPending : Bool) : AcceptCall :=
  { failOnIntr := failOnIntr, webServerAddrs := webServerAddrs, pc := .lock, socket := -1, sa := sa
    errno := errno, shutdownPending := shutdownPending, log := [.round] }

/-- The steps of `OS_Accept` as a relation. -/
def AcceptSteps (inetAddr : List UInt8 → UInt32) (c : AcceptCall) (i : AcceptInput)
    (c' : AcceptCall) : Prop := acceptStep inetAddr c i = some c'

/-- What one step does, by where the call is. -/
inductive AcceptMoves (inetAddr : List UInt8 → UInt32) (c : AcceptCall) :
    AcceptInput → AcceptCall → Prop
  | shutdown : AcceptMoves inetAddr c .shutdown { c with shutdownPending := true }
  | lock (hpc : c.pc = .lock) (granted : Bool) :
      AcceptMoves inetAddr c (.lock granted) (if granted then c.goto .test else c.return (-1))
  | unlock (hpc : c.pc = .unlock) (granted : Bool) :
      AcceptMoves inetAddr c (.lock granted) (if granted then c.leave else c.return (-1))
  | accepted (hpc : c.pc = .accept) (fd : ℕ) (peer : Peer) :
      AcceptMoves inetAddr c (.accept (.ok (fd, peer)))
        (({ c with socket := fd, sa := peer }.note (.accepted fd peer)).goto .check)
  | failed (hpc : c.pc = .accept) (e : AcceptErrno) :
      AcceptMoves inetAddr c (.accept (.error e))
        ({ c with socket := -1, errno := some e }.retry e)
  | poll (hpc : c.pc = .keeper) (readable : Bool) :
      AcceptMoves inetAddr c (.poll readable)
        (if readable then (c.note (.polled c.socket)).return c.socket
        else (((c.note (.polled c.socket)).note (.closed c.socket)).note .round).goto .lock)
  | test (hpc : c.pc = .test) :
      AcceptMoves inetAddr c .run
        (if c.shutdownPending then c.testShutdown.goto .check else c.goto .accept)
  | check (hpc : c.pc = .check) : AcceptMoves inetAddr c .run (c.check inetAddr)

theorem acceptMoves {inetAddr : List UInt8 → UInt32} {c c' : AcceptCall} {i : AcceptInput}
    (h : acceptStep inetAddr c i = some c') : AcceptMoves inetAddr c i c' := by
  cases i with
  | shutdown =>
      cases h
      exact .shutdown
  | lock granted =>
      rw [acceptStep] at h
      split at h
      · next hpc =>
          cases h
          exact .lock hpc granted
      · next hpc =>
          cases h
          exact .unlock hpc granted
      · cases h
  | accept result =>
      simp only [acceptStep] at h
      split at h
      · next _ _ fd peer hpc =>
          cases h
          exact .accepted hpc fd peer
      · next _ _ e hpc =>
          cases h
          exact .failed hpc e
      · cases h
  | poll readable =>
      rw [acceptStep] at h
      split at h
      · next hpc =>
          cases h
          exact .poll hpc readable
      · cases h
  | run =>
      rw [acceptStep] at h
      split at h
      · next hpc =>
          cases h
          exact .test hpc
      · next hpc =>
          cases h
          exact .check hpc
      · cases h

/-! ### Descriptors -/

/-- The connections that are open after the events, of those in `conns` and those that
have been accepted. -/
def openConns : List (ℤ × Peer) → List AcceptEvent → List (ℤ × Peer)
  | conns, [] => conns
  | conns, .accepted fd peer :: es => openConns ((↑fd, peer) :: conns) es
  | conns, .closed fd :: es => openConns (conns.filter (·.1 ≠ fd)) es
  | conns, _ :: es => openConns conns es

/-- Nothing is polled, closed or returned that is not open at that moment. -/
def UsesOnlyOpen : List (ℤ × Peer) → List AcceptEvent → Prop
  | _, [] => True
  | conns, .accepted fd peer :: es => UsesOnlyOpen ((↑fd, peer) :: conns) es
  | conns, .polled fd :: es => fd ∈ conns.map Prod.fst ∧ UsesOnlyOpen conns es
  | conns, .closed fd :: es =>
      fd ∈ conns.map Prod.fst ∧ UsesOnlyOpen (conns.filter (·.1 ≠ fd)) es
  | conns, .returned rc :: es => (0 ≤ rc → rc ∈ conns.map Prod.fst) ∧ UsesOnlyOpen conns es
  | conns, _ :: es => UsesOnlyOpen conns es

/-- No round of the outer loop begins after a test has seen `shutdownPending`. -/
def NoRoundAfterShutdown : List AcceptEvent → Prop
  | [] => True
  | .sawShutdown :: es => .round ∉ es ∧ NoRoundAfterShutdown es
  | _ :: es => NoRoundAfterShutdown es

theorem openConns_append (conns : List (ℤ × Peer)) (es es' : List AcceptEvent) :
    openConns conns (es ++ es') = openConns (openConns conns es) es' := by
  induction es generalizing conns with
  | nil => rfl
  | cons e es ih => cases e <;> exact ih _

theorem usesOnlyOpen_append (conns : List (ℤ × Peer)) (es es' : List AcceptEvent) :
    UsesOnlyOpen conns (es ++ es') ↔ UsesOnlyOpen conns es ∧ UsesOnlyOpen (openConns conns es) es' := by
  induction es generalizing conns with
  | nil => simp [UsesOnlyOpen, openConns]
  | cons e es ih => cases e <;> simp [UsesOnlyOpen, openConns, ih, and_assoc]

theorem noRoundAfterShutdown_note (es : List AcceptEvent) (e : AcceptEvent) :
    NoRoundAfterShutdown (es ++ [e]) ↔
      NoRoundAfterShutdown es ∧ (e = .round → .sawShutdown ∉ es) := by
  induction es with
  | nil => cases e <;> simp [NoRoundAfterShutdown]
  | cons x es ih =>
      cases x <;> simp [NoRoundAfterShutdown, ih]
      constructor
      · rintro ⟨⟨hx, he⟩, hes, hmem⟩
        exact ⟨⟨hx, hes⟩, fun h => he h.symm⟩
      · rintro ⟨⟨hx, hes⟩, he⟩
        exact ⟨⟨hx, fun h => he h.symm⟩, hes, fun h => absurd h he⟩

@[simp] theorem openConns_note (c : AcceptCall) (e : AcceptEvent) :
    openConns [] (c.note e).log = openConns (openConns [] c.log) [e] := openConns_append ..

@[simp] theorem usesOnlyOpen_note (c : AcceptCall) (e : AcceptEvent) :
    UsesOnlyOpen [] (c.note e).log ↔
      UsesOnlyOpen [] c.log ∧ UsesOnlyOpen (openConns [] c.log) [e] := usesOnlyOpen_append ..

/-- The call stops: no round follows a test that has seen `shutdownPending`, and from
there the call's own next step returns -1. -/
structure AcceptCall.StopsOnShutdown (inetAddr : List UInt8 → UInt32) (c : AcceptCall) : Prop where
  noRound : NoRoundAfterShutdown c.log
  returns : .sawShutdown ∈ c.log → c.pc = .done (-1) ∨
    ∃ c', acceptStep inetAddr c .run = some c' ∧ c'.pc = .done (-1)

/-- What holds of a call whose variable `socket` names no closed descriptor when a
shutdown is seen. -/
structure AcceptCall.Sound (c : AcceptCall) : Prop where
  usesOnlyOpen : UsesOnlyOpen [] c.log
  holds : (c.pc = .check ∧ 0 ≤ c.socket) ∨ c.pc = .unlock ∨ c.pc = .keeper →
    0 ≤ c.socket ∧ c.socket ∈ (openConns [] c.log).map Prod.fst
  noRound : NoRoundAfterShutdown c.log
  seen : .sawShutdown ∈ c.log →
    c.shutdownPending = true ∧ (c.pc = .done (-1) ∨ c.pc = .check ∧ c.socket < 0)

/-- The step does not test `shutdownPending` while the variable `socket` still names a
descriptor that has been closed. -/
def AcceptCall.FreshTest (c : AcceptCall) (_ : AcceptInput) : Prop :=
  c.pc = .test → c.shutdownPending = true → c.socket < 0

section Sound

variable {inetAddr : List UInt8 → UInt32} {c c' : AcceptCall} {i : AcceptInput}

theorem AcceptCall.Sound.not_seen (h : c.Sound) (hpc : ∀ rc, c.pc ≠ .done rc)
    (hcheck : c.pc = .check → 0 ≤ c.socket) : AcceptEvent.sawShutdown ∉ c.log := by
  intro hseen
  rcases (h.seen hseen).2 with hdone | ⟨hpc', hneg⟩
  · exact hpc _ hdone
  · exact absurd (hcheck hpc') (by omega)

/-- A step that leaves the record alone. -/
theorem AcceptCall.Sound.move (h : c.Sound) (hlog : c'.log = c.log)
    (hholds : (c'.pc = .check ∧ 0 ≤ c'.socket) ∨ c'.pc = .unlock ∨ c'.pc = .keeper →
      0 ≤ c'.socket ∧ c'.socket ∈ (openConns [] c.log).map Prod.fst)
    (hseen : AcceptEvent.sawShutdown ∉ c.log) : c'.Sound where
  usesOnlyOpen := hlog ▸ h.usesOnlyOpen
  holds := hlog ▸ hholds
  noRound := hlog ▸ h.noRound
  seen hs := absurd (hlog ▸ hs) hseen

/-- An event that is no test. -/
theorem AcceptCall.Sound.note (h : c.Sound) {e : AcceptEvent}
    (huse : UsesOnlyOpen (openConns [] c.log) [e])
    (hholds : (c.pc = .check ∧ 0 ≤ c.socket) ∨ c.pc = .unlock ∨ c.pc = .keeper →
      0 ≤ c.socket ∧ c.socket ∈ (openConns (openConns [] c.log) [e]).map Prod.fst)
    (he : e ≠ .sawShutdown) (hseen : AcceptEvent.sawShutdown ∉ c.log) : (c.note e).Sound where
  usesOnlyOpen := (usesOnlyOpen_note c e).mpr ⟨h.usesOnlyOpen, huse⟩
  holds := by
    rw [openConns_note]
    exact hholds
  noRound := by
    rw [AcceptCall.note, noRoundAfterShutdown_note]
    exact ⟨h.noRound, fun _ => hseen⟩
  seen hs := by
    rcases (c.mem_note_log e _).mp hs with hs | hs
    · exact absurd hs hseen
    · exact absurd hs.symm he

theorem AcceptCall.Sound.return (h : c.Sound) {rc : ℤ}
    (hrc : 0 ≤ rc → rc ∈ (openConns [] c.log).map Prod.fst)
    (hseen : .sawShutdown ∈ c.log → c.shutdownPending = true ∧ rc = -1) :
    (c.return rc).Sound where
  usesOnlyOpen := by
    rw [AcceptCall.return, usesOnlyOpen_note]
    exact ⟨h.usesOnlyOpen, hrc, trivial⟩
  holds hpc := by simp at hpc
  noRound := by
    rw [AcceptCall.return, AcceptCall.note, noRoundAfterShutdown_note]
    exact ⟨h.noRound, fun hround => nomatch hround⟩
  seen hs := by
    have hs : AcceptEvent.sawShutdown ∈ c.log := by simpa using hs
    obtain ⟨hpending, rfl⟩ := hseen hs
    exact ⟨hpending, .inl rfl⟩

/-- A test that sees a shutdown, with no descriptor at hand. -/
theorem AcceptCall.Sound.testShutdown (h : c.Sound) (hpending : c.shutdownPending = true)
    (hsocket : c.socket < 0) : (c.testShutdown.goto .check).Sound where
  usesOnlyOpen := by
    rw [AcceptCall.testShutdown, if_pos hpending, AcceptCall.goto_log, usesOnlyOpen_note]
    exact ⟨h.usesOnlyOpen, trivial⟩
  holds hpc := by
    rw [AcceptCall.testShutdown, if_pos hpending] at hpc
    simp at hpc
    omega
  noRound := by
    rw [AcceptCall.testShutdown, if_pos hpending, AcceptCall.goto_log, AcceptCall.note,
      noRoundAfterShutdown_note]
    exact ⟨h.noRound, fun hround => nomatch hround⟩
  seen _ := by
    rw [AcceptCall.testShutdown, if_pos hpending]
    exact ⟨hpending, .inr ⟨rfl, hsocket⟩⟩

theorem AcceptCall.Sound.check (h : c.Sound) (hpc : c.pc = .check) :
    (c.check inetAddr).Sound := by
  rw [AcceptCall.check]
  by_cases hneg : c.socket < 0
  · rw [if_pos hneg]
    by_cases hpending : c.shutdownPending
    · rw [if_pos hpending]
      have htest := h.testShutdown hpending hneg
      exact (show AcceptCall.Sound (c.testShutdown.goto .check) from htest).return
        (fun h0 => absurd h0 (by omega)) (fun hs => ⟨(htest.seen hs).1, rfl⟩)
    · have hseen : AcceptEvent.sawShutdown ∉ c.log := fun hs => hpending (h.seen hs).1
      rw [if_neg hpending]
      split
      · exact h.return (fun h0 => absurd h0 (by omega)) (fun hs => absurd hs hseen)
      · exact h.move rfl (fun hpc' => by simp at hpc') hseen
  · have hseen := h.not_seen (by simp [hpc]) (fun _ => by omega)
    have hopen := h.holds (.inl ⟨hpc, by omega⟩)
    rw [if_neg hneg]
    split
    · exact h.move rfl (fun _ => hopen) hseen
    · split
      · exact h.move rfl (fun _ => hopen) hseen
      · -- the descriptor is closed and `socket` forgets it
        have hmove : ({ c with pc := .test, socket := -1 } : AcceptCall).Sound :=
          h.move rfl (fun hpc' => by simp at hpc') hseen
        exact hmove.note (e := .closed c.socket) ⟨hopen.2, trivial⟩
          (fun hpc' => by simp at hpc') (fun he => nomatch he) hseen

theorem AcceptCall.Sound.retry (h : c.Sound) (hsocket : c.socket < 0)
    (hseen : AcceptEvent.sawShutdown ∉ c.log) (e : AcceptErrno) : (c.retry e).Sound := by
  rw [AcceptCall.retry]
  have hcheck : (c.goto .check).Sound := by
    refine h.move rfl (fun hpc => ?_) hseen
    simp at hpc
    omega
  split
  · split
    · exact h.testShutdown ‹_› hsocket
    · exact h.move rfl (fun hpc => by simp at hpc) hseen
  · exact hcheck

theorem AcceptCall.Sound.leave (h : c.Sound) (hpc : c.pc = .unlock) : c.leave.Sound := by
  have hseen := h.not_seen (by simp [hpc]) (by simp [hpc])
  have hopen := h.holds (.inr (.inl hpc))
  rw [AcceptCall.leave]
  split
  · exact h.return (fun _ => hopen.2) (fun hs => absurd hs hseen)
  · exact h.move rfl (fun _ => hopen) hseen

/-- **One step of `OS_Accept`.** -/
theorem AcceptCall.Sound.step (h : c.Sound) (hfresh : c.FreshTest i)
    (hstep : acceptStep inetAddr c i = some c') : c'.Sound := by
  cases acceptMoves hstep with
  | shutdown => exact ⟨h.usesOnlyOpen, h.holds, h.noRound, fun hs => ⟨rfl, (h.seen hs).2⟩⟩
  | lock hpc granted =>
      have hseen := h.not_seen (by simp [hpc]) (by simp [hpc])
      split
      · exact h.move rfl (fun hpc' => by simp at hpc') hseen
      · exact h.return (fun h0 => absurd h0 (by omega)) (fun hs => absurd hs hseen)
  | unlock hpc granted =>
      have hseen := h.not_seen (by simp [hpc]) (by simp [hpc])
      split
      · exact h.leave hpc
      · exact h.return (fun h0 => absurd h0 (by omega)) (fun hs => absurd hs hseen)
  | accepted hpc fd peer =>
      have hseen := h.not_seen (by simp [hpc]) (by simp [hpc])
      -- the new descriptor is open from here on
      have hmove : ({ c with socket := fd, sa := peer } : AcceptCall).Sound :=
        h.move rfl (fun hpc' => by simp [hpc] at hpc') hseen
      have hnote := hmove.note (e := .accepted fd peer) trivial (by simp [hpc])
        (fun he => by cases he) hseen
      refine hnote.move rfl (fun _ => ⟨Int.natCast_nonneg fd, ?_⟩) (by simpa using hseen)
      rw [openConns_note]
      exact List.mem_cons_self
  | failed hpc e =>
      have hseen := h.not_seen (by simp [hpc]) (by simp [hpc])
      have hmove : ({ c with socket := -1, errno := some e } : AcceptCall).Sound :=
        h.move rfl (fun hpc' => by simp [hpc] at hpc') hseen
      exact hmove.retry (show (-1 : ℤ) < 0 by omega) hseen e
  | poll hpc readable =>
      have hseen := h.not_seen (by simp [hpc]) (by simp [hpc])
      have hopen := h.holds (.inr (.inr hpc))
      have hpolled := h.note (e := .polled c.socket) ⟨hopen.2, trivial⟩ (fun _ => hopen)
        (fun he => by cases he) hseen
      split
      · refine hpolled.return (fun _ => ?_) (fun hs => absurd hs (by simpa using hseen))
        rw [openConns_note]
        exact hopen.2
      · have hmove : ((c.note (.polled c.socket)).goto .lock).Sound :=
          hpolled.move rfl (fun hpc' => by simp at hpc') (by simpa using hseen)
        have hclosed := hmove.note (e := .closed c.socket)
          ⟨by rw [AcceptCall.goto_log, openConns_note]; exact hopen.2, trivial⟩
          (fun hpc' => by simp at hpc') (fun he => by cases he) (by simpa using hseen)
        exact hclosed.note (e := .round) trivial (fun hpc' => by simp at hpc')
          (fun he => by cases he) (by simpa using hseen)
  | test hpc =>
      have hseen := h.not_seen (by simp [hpc]) (by simp [hpc])
      split
      · -- the descriptor that `socket` may still name is one that is closed
        exact h.testShutdown ‹_› (hfresh hpc ‹_›)
      · exact h.move rfl (fun hpc' => by simp at hpc') hseen
  | check hpc => exact h.check hpc

theorem AcceptCall.Sound.stopsOnShutdown (h : c.Sound) : c.StopsOnShutdown inetAddr where
  noRound := h.noRound
  returns hs := by
    obtain ⟨hpending, hdone | ⟨hpc, hneg⟩⟩ := h.seen hs
    · exact .inl hdone
    · refine .inr ⟨c.check inetAddr, ?_, ?_⟩
      · rw [acceptStep, hpc]
      · rw [AcceptCall.check, if_pos hneg, if_pos hpending, AcceptCall.return_pc]

end Sound

theorem sound_osAccept (failOnIntr : Bool) (webServerAddrs : Option (List UInt8)) (sa : Peer)
    (errno : Option AcceptErrno) (shutdownPending : Bool) :
    (osAccept failOnIntr webServerAddrs sa errno shutdownPending).Sound where
  usesOnlyOpen := trivial
  holds hpc := by simp [osAccept] at hpc
  noRound := trivial
  seen hs := by simp [osAccept] at hs

/-- **`OS_Accept` and a shutdown.** In every run in which no test of `shutdownPending`
sees it while the variable `socket` names a descriptor that has been closed, nothing is
polled, closed or returned that is not open, and the first test that sees the shutdown
is the end of the call. -/
theorem osAccept_stops (inetAddr : List UInt8 → UInt32) (failOnIntr : Bool)
    (webServerAddrs : Option (List UInt8)) (sa : Peer) (errno : Option AcceptErrno)
    (shutdownPending : Bool) {is : List AcceptInput} {c : AcceptCall}
    (hrun : Runs (Guarded AcceptCall.FreshTest (AcceptSteps inetAddr))
      (osAccept failOnIntr webServerAddrs sa errno shutdownPending) is c) :
    UsesOnlyOpen [] c.log ∧ c.StopsOnShutdown inetAddr := by
  have hsound : c.Sound := hrun.invariant (fun _ _ _ h hstep => h.step hstep.1 hstep.2)
    (sound_osAccept failOnIntr webServerAddrs sa errno shutdownPending)
  exact ⟨hsound.usesOnlyOpen, hsound.stopsOnShutdown⟩

instance (c : AcceptCall) (i : AcceptInput) : Decidable (c.FreshTest i) :=
  inferInstanceAs (Decidable (_ → _ → _))

theorem osAccept_stops_refused :
    ∃ is c, Runs (Guarded AcceptCall.FreshTest (AcceptSteps fun _ => 0))
        (osAccept false (some [49]) ⟨.inet, 0⟩ none false) is c ∧
      .closed 5 ∈ c.log ∧ .sawShutdown ∈ c.log ∧
      UsesOnlyOpen [] c.log ∧ c.StopsOnShutdown fun _ => 0 := by
  have hexec : (exec (guardStep AcceptCall.FreshTest (acceptStep fun _ => 0))
      (osAccept false (some [49]) ⟨.inet, 0⟩ none false)
      [.lock true, .run, .accept (.ok (5, ⟨.inet, 7⟩)), .run, .shutdown, .run, .run]).map (·.log) =
      some [.round, .accepted 5 ⟨.inet, 7⟩, .closed 5, .sawShutdown, .sawShutdown,
        .returned (-1)] := by
    decide +kernel
  obtain ⟨c, hc, hlog⟩ := Option.map_eq_some_iff.mp hexec
  have hrun : Runs (Guarded _ (AcceptSteps fun _ => 0)) _ _ c :=
    .of_exec_guardStep (fun _ _ _ h => h) hc
  exact ⟨_, c, hrun, by simp [hlog], by simp [hlog], osAccept_stops _ _ _ _ _ _ hrun⟩

/-- A connection that the poll rejects is closed while `socket` still names it; a shutdown
seen after that sends the closed descriptor to the poll again, and round again. -/
theorem osAccept_touches_closed :
    ∃ is c, Runs (AcceptSteps fun _ => 0) (osAccept false none ⟨.inet, 0⟩ none false) is c ∧
      ¬ UsesOnlyOpen [] c.log ∧ ¬ NoRoundAfterShutdown c.log := by
  have hexec : (exec (acceptStep fun _ => 0) (osAccept false none ⟨.inet, 0⟩ none false)
      [.lock true, .run, .accept (.ok (5, ⟨.unix, 0⟩)), .run, .lock true, .poll false,
        .shutdown, .lock true, .run, .run, .lock true, .poll false]).map (·.log) =
      some [.round, .accepted 5 ⟨.unix, 0⟩, .polled 5, .closed 5, .round, .sawShutdown,
        .polled 5, .closed 5, .round] := by decide +kernel
  obtain ⟨c, hc, hlog⟩ := Option.map_eq_some_iff.mp hexec
  refine ⟨_, c, .of_exec (fun _ _ _ h => h) hc, ?_, ?_⟩
  · simp [hlog, UsesOnlyOpen]
  · simp [hlog, NoRoundAfterShutdown]

/-! ### The address list -/

theorem splitOn_comma {cur : List UInt8} :
    cur.splitOn 44 = match cur.dropWhile (· ≠ 44) with
      | [] => [cur.takeWhile (· ≠ 44)]
      | _ :: next => cur.takeWhile (· ≠ 44) :: next.splitOn 44 := by
  have hcur := List.takeWhile_append_dropWhile (p := (· ≠ (44 : UInt8))) (l := cur)
  have hfront : (44 : UInt8) ∉ cur.takeWhile (· ≠ 44) := by
    intro hmem
    have h44 := List.all_eq_true.mp (List.all_takeWhile (p := (· ≠ (44 : UInt8))) (l := cur)) _ hmem
    simp at h44
  cases hdrop : cur.dropWhile (· ≠ 44) with
  | nil =>
      rw [hdrop, List.append_nil] at hcur
      rw [hcur] at hfront ⊢
      exact List.splitOn_eq_singleton hfront
  | cons x next =>
      have hx : x = 44 := by
        have hhead := List.head?_dropWhile_not (· ≠ (44 : UInt8)) cur
        rw [hdrop] at hhead
        simpa using hhead
      subst hx
      rw [hdrop] at hcur
      show cur.splitOn 44 = cur.takeWhile (· ≠ 44) :: next.splitOn 44
      nth_rewrite 1 [← hcur]
      exact List.splitOn_append_cons_self_of_not_mem hfront next

/-- The loop of `ClientAddrOK` looks the address up among the comma-separated entries. -/
theorem clientAddrLoop_iff (inetAddr : List UInt8 → UInt32) (addr : UInt32) {rounds : ℕ}
    {cur : List UInt8} (hrounds : cur.length < rounds) :
    clientAddrLoop inetAddr addr rounds cur = true ↔
      ∃ e ∈ cur.splitOn 44, inetAddr e = addr := by
  induction rounds generalizing cur with
  | zero => omega
  | succ rounds ih =>
      rw [clientAddrLoop, splitOn_comma]
      have hlen := (List.dropWhile_suffix (l := cur) (· ≠ 44)).length_le
      cases hdrop : cur.dropWhile (· ≠ 44) with
      | nil => simp
      | cons x next =>
          rw [hdrop, List.length_cons] at hlen
          have hnext := @ih next (by omega)
          by_cases haddr : inetAddr (cur.takeWhile (· ≠ 44)) = addr
          · simp only [haddr, if_true, List.mem_cons, exists_eq_or_imp, true_or]
          · simp only [haddr, if_false, hnext, List.mem_cons, exists_eq_or_imp, false_or]

theorem clientAddrOK_iff (inetAddr : List UInt8 → UInt32) (addr : UInt32)
    {clientList : List UInt8} (hlist : clientList ≠ []) :
    clientAddrOK inetAddr addr (some clientList) = true ↔
      ∃ e ∈ clientList.splitOn 44, inetAddr e = addr := by
  cases clientList with
  | nil => exact absurd rfl hlist
  | cons b bs => exact clientAddrLoop_iff inetAddr addr (Nat.lt_succ_self _)

/-- The peer may be served: it uses TCP/IP and its address is on the list. -/
def Peer.Admitted (inetAddr : List UInt8 → UInt32) (clientList : List UInt8) (peer : Peer) :
    Prop :=
  peer.family = .inet ∧ ∃ e ∈ clientList.splitOn 44, inetAddr e = peer.addr

/-- The list is enforced in this state: the call returns an admitted connection or none,
and every other one is closed; while it looks for one, at most the one it looks at is
open. -/
def AcceptCall.Enforced (inetAddr : List UInt8 → UInt32) (clientList : List UInt8)
    (c : AcceptCall) : Prop :=
  match c.pc with
  | .done rc =>
      rc < 0 ∧ openConns [] c.log = [] ∨
        ∃ peer : Peer, peer.Admitted inetAddr clientList ∧ openConns [] c.log = [(rc, peer)]
  | _ => openConns [] c.log = [] ∨ openConns [] c.log = [(c.socket, c.sa)]

/-- What the world answers in the runs in which the list is enforced: peers use TCP/IP,
or else are of the family AF_UNIX and the poll rejects them, and the lock is released
when it is asked for. -/
def AcceptCall.TcpOnly (c : AcceptCall) : AcceptInput → Prop
  | .accept (.ok (_, peer)) => peer.family = .inet ∨ peer.family = .unix
  | .poll readable => readable = false
  | .lock granted => c.pc = .unlock → granted = true
  | _ => True

/-- The connection that the call looks at is the only open one, or one of AF_UNIX that
has been rejected and closed. -/
def AcceptCall.LooksAt (c : AcceptCall) : Prop :=
  openConns [] c.log = [(c.socket, c.sa)] ∨ openConns [] c.log = [] ∧ c.sa.family = .unix

/-- What holds of a call with the address list `clientList`, by where it is. -/
def AcceptCall.Filters (inetAddr : List UInt8 → UInt32) (clientList : List UInt8)
    (c : AcceptCall) : Prop :=
  c.webServerAddrs = some clientList ∧
    match c.pc with
    | .lock | .test | .accept =>
        openConns [] c.log = [] ∧ (0 ≤ c.socket → c.sa.family = .unix)
    | .check =>
        if c.socket < 0 then openConns [] c.log = []
        else c.LooksAt ∧ (c.sa.family = .inet ∨ c.sa.family = .unix)
    | .unlock => c.LooksAt ∧ (c.sa.Admitted inetAddr clientList ∨ c.sa.family = .unix)
    | .keeper => c.LooksAt ∧ c.sa.family = .unix
    | .done rc =>
        rc < 0 ∧ openConns [] c.log = [] ∨
          ∃ peer : Peer, peer.Admitted inetAddr clientList ∧ openConns [] c.log = [(rc, peer)]

section Filters

variable {inetAddr : List UInt8 → UInt32} {clientList : List UInt8} {c c' : AcceptCall}
  {i : AcceptInput}

theorem AcceptCall.LooksAt.close (h : c.LooksAt) :
    openConns [] (c.note (.closed c.socket)).log = [] := by
  rw [openConns_note]
  rcases h with hopen | ⟨hopen, -⟩ <;> simp [hopen, openConns]

@[simp] theorem openConns_return (c : AcceptCall) (rc : ℤ) :
    openConns [] (c.return rc).log = openConns [] c.log := by
  rw [AcceptCall.return, openConns_note]
  rfl

@[simp] theorem openConns_testShutdown (c : AcceptCall) :
    openConns [] c.testShutdown.log = openConns [] c.log := by
  rw [AcceptCall.testShutdown]
  split
  · rw [openConns_note]
    rfl
  · rfl

theorem AcceptCall.testShutdown_webServerAddrs (c : AcceptCall) :
    c.testShutdown.webServerAddrs = c.webServerAddrs := by
  rw [AcceptCall.testShutdown]
  split <;> rfl

theorem AcceptCall.Filters.fail (haddrs : c.webServerAddrs = some clientList)
    (hnone : openConns [] c.log = []) : (c.return (-1)).Filters inetAddr clientList :=
  ⟨haddrs, .inl ⟨by omega, by rw [openConns_return, hnone]⟩⟩

/-- No connection is open: what `socket` may still name is one of AF_UNIX. -/
theorem AcceptCall.Filters.toCheck (haddrs : c.webServerAddrs = some clientList)
    (hnone : openConns [] c.log = []) (hstale : 0 ≤ c.socket → c.sa.family = .unix) :
    (c.goto .check).Filters inetAddr clientList := by
  refine ⟨haddrs, ?_⟩
  show if c.socket < 0 then _ else _
  split
  · exact hnone
  · have hfamily := hstale (by omega)
    exact ⟨.inr ⟨hnone, hfamily⟩, .inr hfamily⟩

theorem AcceptCall.Filters.testShutdown (haddrs : c.webServerAddrs = some clientList)
    (hnone : openConns [] c.log = []) (hstale : 0 ≤ c.socket → c.sa.family = .unix) :
    (c.testShutdown.goto .check).Filters inetAddr clientList := by
  apply AcceptCall.Filters.toCheck
  · exact c.testShutdown_webServerAddrs.trans haddrs
  · exact (openConns_testShutdown c).trans hnone
  · rw [AcceptCall.testShutdown]
    split <;> exact hstale

theorem AcceptCall.Filters.check (hlist : clientList ≠ []) (h : c.Filters inetAddr clientList)
    (hpc : c.pc = .check) : (c.check inetAddr).Filters inetAddr clientList := by
  obtain ⟨haddrs, h⟩ := h
  rw [hpc] at h
  rw [AcceptCall.check]
  split
  · next hneg =>
      have hnone : openConns [] c.log = [] := by simpa only [if_pos hneg] using h
      split
      · exact .fail (c.testShutdown_webServerAddrs.trans haddrs)
          ((openConns_testShutdown c).trans hnone)
      · split
        · exact .fail haddrs hnone
        · exact ⟨haddrs, hnone, fun h0 => absurd hneg (Int.not_lt.mpr h0)⟩
  · next hpos =>
      have h : c.LooksAt ∧ (c.sa.family = .inet ∨ c.sa.family = .unix) := by
        simpa only [if_neg hpos] using h
      split
      · next hfamily => exact ⟨haddrs, h.1, .inr (h.2.resolve_left hfamily)⟩
      · next hfamily =>
          have hfamily : c.sa.family = .inet := not_not.mp hfamily
          split
          · next hok =>
              rw [haddrs, clientAddrOK_iff inetAddr c.sa.addr hlist] at hok
              exact ⟨haddrs, h.1, .inl ⟨hfamily, hok⟩⟩
          · exact ⟨haddrs, h.1.close, fun h0 => absurd h0 (by simp)⟩

/-- **One step of `OS_Accept` with an address list.** -/
theorem AcceptCall.Filters.step (hlist : clientList ≠ []) (h : c.Filters inetAddr clientList)
    (hworld : c.TcpOnly i) (hstep : acceptStep inetAddr c i = some c') :
    c'.Filters inetAddr clientList := by
  cases acceptMoves hstep with
  | shutdown => exact h
  | lock hpc granted =>
      obtain ⟨haddrs, h⟩ := h
      rw [hpc] at h
      split
      · exact ⟨haddrs, h⟩
      · exact .fail haddrs h.1
  | unlock hpc granted =>
      obtain ⟨haddrs, h⟩ := h
      rw [hpc] at h
      rw [if_pos (hworld hpc), AcceptCall.leave]
      split
      · next hfamily =>
          -- no connection of AF_UNIX, so it is open and on the list
          have hopen := h.1.resolve_right fun hclosed => hfamily hclosed.2
          refine ⟨haddrs, .inr ⟨c.sa, h.2.resolve_right hfamily, ?_⟩⟩
          rw [openConns_return, hopen]
      · next hfamily => exact ⟨haddrs, h.1, not_not.mp hfamily⟩
  | accepted hpc fd peer =>
      obtain ⟨haddrs, h⟩ := h
      rw [hpc] at h
      refine ⟨haddrs, ?_⟩
      show if (fd : ℤ) < 0 then _ else _
      rw [if_neg (by omega)]
      refine ⟨.inl ?_, hworld⟩
      show openConns [] (c.log ++ [.accepted fd peer]) = [((fd : ℤ), peer)]
      rw [openConns_append, h.1]
      rfl
  | failed hpc e =>
      obtain ⟨haddrs, h⟩ := h
      rw [hpc] at h
      have hneg : ¬ (0 : ℤ) ≤ -1 := by omega
      rw [AcceptCall.retry]
      split
      · split
        · exact .testShutdown haddrs h.1 (fun h0 => absurd h0 hneg)
        · exact ⟨haddrs, h.1, fun h0 => absurd h0 hneg⟩
      · exact .toCheck haddrs h.1 (fun h0 => absurd h0 hneg)
  | poll hpc readable =>
      obtain ⟨haddrs, h⟩ := h
      rw [hpc] at h
      have hreadable : readable = false := hworld
      subst hreadable
      have hpolled : (c.note (.polled c.socket)).LooksAt := by
        rw [AcceptCall.LooksAt, openConns_note]
        exact h.1
      refine ⟨haddrs, ?_, fun _ => h.2⟩
      rw [if_neg Bool.false_ne_true, AcceptCall.goto_log, openConns_note]
      exact hpolled.close
  | test hpc =>
      obtain ⟨haddrs, h⟩ := h
      rw [hpc] at h
      split
      · exact .testShutdown haddrs h.1 h.2
      · exact ⟨haddrs, h⟩
  | check hpc => exact h.check hlist hpc

theorem AcceptCall.Filters.enforced (h : c.Filters inetAddr clientList) :
    c.Enforced inetAddr clientList := by
  obtain ⟨-, h⟩ := h
  rw [AcceptCall.Enforced]
  cases hpc : c.pc with
  | lock => rw [hpc] at h; exact .inl h.1
  | test => rw [hpc] at h; exact .inl h.1
  | accept => rw [hpc] at h; exact .inl h.1
  | check =>
      rw [hpc] at h
      by_cases hneg : c.socket < 0
      · exact .inl (by simpa only [if_pos hneg] using h)
      · have h : if c.socket < 0 then _ else c.LooksAt ∧ _ := h
        rw [if_neg hneg] at h
        exact h.1.symm.imp And.left id
  | unlock => rw [hpc] at h; exact h.1.symm.imp And.left id
  | keeper => rw [hpc] at h; exact h.1.symm.imp And.left id
  | done rc => rw [hpc] at h; exact h

end Filters

/-- **The address list of `OS_Accept`.** In every run in which peers use TCP/IP, or are of
AF_UNIX and rejected by the poll, the call returns a connection only if its peer's
address is on the list, and every other connection it has accepted is closed. -/
theorem osAccept_enforces (inetAddr : List UInt8 → UInt32) (failOnIntr : Bool)
    {clientList : List UInt8} (hlist : clientList ≠ []) (sa : Peer) (errno : Option AcceptErrno)
    (shutdownPending : Bool) {is : List AcceptInput} {c : AcceptCall}
    (hrun : Runs (Guarded AcceptCall.TcpOnly (AcceptSteps inetAddr))
      (osAccept failOnIntr (some clientList) sa errno shutdownPending) is c) :
    c.Enforced inetAddr clientList := by
  have hstart : (osAccept failOnIntr (some clientList) sa errno shutdownPending).Filters
      inetAddr clientList := ⟨rfl, rfl, fun h0 => absurd h0 (by simp [osAccept])⟩
  have hfilters : c.Filters inetAddr clientList :=
    hrun.invariant (fun _ _ _ h hstep => h.step hlist hstep.1 hstep.2) hstart
  exact hfilters.enforced

instance (c : AcceptCall) : (i : AcceptInput) → Decidable (c.TcpOnly i)
  | .accept (.ok (_, _)) => inferInstanceAs (Decidable (_ ∨ _))
  | .accept (.error _) => .isTrue trivial
  | .poll _ => inferInstanceAs (Decidable (_ = _))
  | .lock _ => inferInstanceAs (Decidable (_ → _))
  | .shutdown => .isTrue trivial
  | .run => .isTrue trivial

/-- The first peer is refused, the second one is on the list. -/
theorem osAccept_enforces_second :
    ∃ is c, Runs (Guarded AcceptCall.TcpOnly (AcceptSteps fun e => e.length.toUInt32))
        (osAccept false (some [49, 44, 50, 50]) ⟨.inet, 0⟩ none false) is c ∧
      c.pc = .done 6 ∧ c.Enforced (fun e => e.length.toUInt32) [49, 44, 50, 50] := by
  have hexec : (exec (guardStep AcceptCall.TcpOnly (acceptStep fun e => e.length.toUInt32))
      (osAccept false (some [49, 44, 50, 50]) ⟨.inet, 0⟩ none false)
      [.lock true, .run, .accept (.ok (5, ⟨.inet, 7⟩)), .run, .run,
        .accept (.ok (6, ⟨.inet, 2⟩)), .run, .lock true]).map (·.pc) = some (.done 6) := by
    decide +kernel
  obtain ⟨c, hc, hpc⟩ := Option.map_eq_some_iff.mp hexec
  have hrun : Runs (Guarded _ (AcceptSteps fun e => e.length.toUInt32)) _ _ c :=
    .of_exec_guardStep (fun _ _ _ h => h) hc
  exact ⟨_, c, hrun, hpc, osAccept_enforces _ _ (by simp) _ _ _ hrun⟩

/-- A peer of another family than AF_INET is returned whatever the list says. -/
theorem osAccept_returns_unlisted :
    ∃ is c, Runs (AcceptSteps fun _ => 0) (osAccept false (some [49]) ⟨.inet, 0⟩ none false) is c ∧
      c.pc = .done 5 ∧ .accepted 5 ⟨.unix, 0⟩ ∈ c.log ∧ ¬ c.Enforced (fun _ => 0) [49] := by
  have hexec : (exec (acceptStep fun _ => 0) (osAccept false (some [49]) ⟨.inet, 0⟩ none false)
      [.lock true, .run, .accept (.ok (5, ⟨.unix, 0⟩)), .run, .lock true, .poll true]).map
        (fun c => (c.pc, c.log)) =
      some (.done 5, [.round, .accepted 5 ⟨.unix, 0⟩, .polled 5, .returned 5]) := by
    decide +kernel
  obtain ⟨c, hc, hlog⟩ := Option.map_eq_some_iff.mp hexec
  obtain ⟨hpc, hlog⟩ := Prod.mk.inj hlog
  refine ⟨_, c, .of_exec (fun _ _ _ h => h) hc, hpc, by simp [hlog], ?_⟩
  rw [AcceptCall.Enforced, hpc, hlog]
  rintro (⟨-, hnone⟩ | ⟨peer, hadmitted, hopen⟩)
  · simp [openConns] at hnone
  · obtain rfl : (⟨.unix, 0⟩ : Peer) = peer := by simpa [openConns] using hopen
    exact nomatch hadmitted.1

end FastCgi
