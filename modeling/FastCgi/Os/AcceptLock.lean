import FastCgi.Os.OsAccept
import Mathlib.Logic.Function.Basic

/-!
The lock around `accept` (`AcquireLock` and `ReleaseLock` of `libfcgi/os_unix.c`).

Where `USE_LOCKING` is defined, the processes that share a listening socket
take turns: `OS_Accept` holds a lock on the socket from `AcquireLock` to
`ReleaseLock`. The kernel gives it to one process at a time and takes it
back when the process ends; a signal may interrupt the wait for it.

A `Pool` is any number of processes, each of them in a call of `OS_Accept`
or in other code, in any order of their steps. The lock is about the calls
of `accept` only: a process that polls its connection has given it back.
-/

namespace FastCgi

open Machine

/-- What `fcntl` returns. -/
inductive FcntlResult where
  | ok
  | eintr
  | error
  deriving DecidableEq

/-- The call is between `AcquireLock` and the end of `ReleaseLock`. -/
def AcceptCall.InLock (c : AcceptCall) : Prop :=
  c.pc = .test ∨ c.pc = .accept ∨ c.pc = .check ∨ c.pc = .unlock

/-- The call is at `ReleaseLock`: the one behind the loop, or the one in front of
`return (-1)`. -/
def AcceptCall.releases (inetAddr : List UInt8 → UInt32) (c : AcceptCall) : Bool :=
  c.pc = .unlock || c.pc = .check && (c.check inetAddr).pc = .done (-1)

/-- The call behind `ReleaseLock`, whose result is ignored in front of `return (-1)`. -/
def AcceptCall.afterRelease (inetAddr : List UInt8 → UInt32) (ok : Bool) (c : AcceptCall) :
    AcceptCall :=
  if c.pc = .unlock then if ok then c.leave else c.return (-1) else c.check inetAddr

/-- The processes that share a listening socket: the calls of `OS_Accept` they are in, the
process that has the lock, and, for the record, the processes whose last `ReleaseLock` has
failed. -/
structure Pool (ι : Type*) where
  calls : ι → Option AcceptCall
  owner : Option ι
  kept : ι → Bool

/-- What happens next, to process `p`. -/
inductive PoolInput (ι : Type*) where
  | call (p : ι) (failOnIntr : Bool) (webServerAddrs : Option (List UInt8)) (sa : Peer)
      (errno : Option AcceptErrno) (shutdownPending : Bool)
  /-- A step of the call, or a signal. -/
  | own (p : ι) (i : AcceptInput)
  /-- `fcntl(sock, F_SETLKW, &lock)` of `AcquireLock` returns. -/
  | acquire (p : ι) (r : FcntlResult)
  /-- `fcntl(sock, F_SETLK, &lock)` of `ReleaseLock` returns. -/
  | release (p : ι) (r : FcntlResult)
  | return (p : ι)
  | dies (p : ι)

namespace Pool

variable {ι : Type*} [DecidableEq ι]

/-- No process is in a call. -/
def init : Pool ι := { calls := fun _ => none, owner := none, kept := fun _ => false }

def put (s : Pool ι) (p : ι) (c : Option AcceptCall) : Pool ι :=
  { s with calls := Function.update s.calls p c }

/-- The lock is given to the process. -/
def lock (s : Pool ι) (p : ι) : Pool ι :=
  { s with owner := some p, kept := Function.update s.kept p false }

/-- The process has the lock no more. -/
def unlock (s : Pool ι) (p : ι) : Pool ι :=
  { s with
    owner := if s.owner = some p then none else s.owner
    kept := Function.update s.kept p false }

/-- `ReleaseLock` has failed. -/
def keep (s : Pool ι) (p : ι) : Pool ι := { s with kept := Function.update s.kept p true }

/-- The kernel can give the lock to the process. -/
def Grants (s : Pool ι) (p : ι) : Prop := s.owner = none ∨ s.owner = some p

instance (s : Pool ι) (p : ι) : Decidable (s.Grants p) := inferInstanceAs (Decidable (_ ∨ _))

/-- `AcquireLock`, in the call `c` of `p`. -/
def acquireLock (s : Pool ι) (p : ι) (c : AcceptCall) : FcntlResult → Option (Pool ι)
  | .ok => if s.Grants p then some ((s.put p (c.goto .test)).lock p) else none
  | .eintr =>
      some (if c.failOnIntr = false ∧ c.shutdownPending = false then s
        else s.put p (c.return (-1)))
  | .error => some (s.put p (c.return (-1)))

/-- `ReleaseLock`. -/
def releaseLock (inetAddr : List UInt8 → UInt32) (s : Pool ι) (p : ι) (c : AcceptCall) :
    FcntlResult → Pool ι
  | .ok => (s.put p (c.afterRelease inetAddr true)).unlock p
  | .eintr => s
  | .error => (s.put p (c.afterRelease inetAddr false)).keep p

/-- A step that has nothing to do with the lock. -/
def ownStep (inetAddr : List UInt8 → UInt32) (s : Pool ι) (p : ι) (c : AcceptCall) :
    AcceptInput → Option (Pool ι)
  | .lock _ => none
  | .run =>
      if c.releases inetAddr then none
      else (acceptStep inetAddr c .run).map fun c' => s.put p (some c')
  | i => (acceptStep inetAddr c i).map fun c' => s.put p (some c')

/-- One step of the processes. -/
def step (inetAddr : List UInt8 → UInt32) (s : Pool ι) : PoolInput ι → Option (Pool ι)
  | .call p failOnIntr webServerAddrs sa errno shutdownPending =>
      match s.calls p with
      | none => some (s.put p (osAccept failOnIntr webServerAddrs sa errno shutdownPending))
      | some _ => none
  | .own p i => (s.calls p).bind fun c => s.ownStep inetAddr p c i
  | .acquire p r => (s.calls p).bind fun c => if c.pc = .lock then s.acquireLock p c r else none
  | .release p r =>
      (s.calls p).bind fun c =>
        if c.releases inetAddr then some (s.releaseLock inetAddr p c r) else none
  | .return p =>
      (s.calls p).bind fun c =>
        match c.pc with
        | .done _ => some (s.put p none)
        | _ => none
  | .dies p => some ((s.put p none).unlock p)

end Pool

/-- The steps of the processes as a relation. -/
def PoolSteps {ι : Type*} [DecidableEq ι] (inetAddr : List UInt8 → UInt32) (s : Pool ι)
    (i : PoolInput ι) (s' : Pool ι) : Prop := s.step inetAddr i = some s'

/-! ### The calls -/

section Calls

variable {inetAddr : List UInt8 → UInt32} {c c' : AcceptCall} {i : AcceptInput}

theorem AcceptCall.retry_pc (c : AcceptCall) (e : AcceptErrno) :
    (c.retry e).pc = .check ∨ (c.retry e).pc = .test := by
  rw [AcceptCall.retry]
  split
  · split
    · exact .inl rfl
    · exact .inr rfl
  · exact .inl rfl

theorem AcceptCall.check_pc (inetAddr : List UInt8 → UInt32) (c : AcceptCall) :
    (c.check inetAddr).pc = .done (-1) ∨ (c.check inetAddr).pc = .unlock ∨
      (c.check inetAddr).pc = .test ∧ (c.check inetAddr).socket < 0 := by
  rw [AcceptCall.check]
  split
  · next hneg =>
      split
      · exact .inl rfl
      · split
        · exact .inl rfl
        · exact .inr (.inr ⟨rfl, hneg⟩)
  · split
    · exact .inr (.inl rfl)
    · split
      · exact .inr (.inl rfl)
      · exact .inr (.inr ⟨rfl, by simp⟩)

theorem AcceptCall.check_shutdown (hneg : c.socket < 0) (hpending : c.shutdownPending = true) :
    (c.check inetAddr).pc = .done (-1) := by
  rw [AcceptCall.check, if_pos hneg, if_pos hpending, AcceptCall.return_pc]

theorem AcceptCall.releases_iff : c.releases inetAddr = true ↔
    c.pc = .unlock ∨ c.pc = .check ∧ (c.check inetAddr).pc = .done (-1) := by
  simp [AcceptCall.releases]

theorem AcceptCall.InLock.of_releases (h : c.releases inetAddr = true) : c.InLock := by
  rcases AcceptCall.releases_iff.mp h with hpc | ⟨hpc, -⟩
  · exact .inr (.inr (.inr hpc))
  · exact .inr (.inr (.inl hpc))

/-- A step that is neither `AcquireLock` nor `ReleaseLock` does not get the call into the
lock or out of it. -/
theorem AcceptCall.inLock_step (h : acceptStep inetAddr c i = some c')
    (hlock : ∀ granted, i ≠ .lock granted) (hrun : i = .run → c.releases inetAddr = false) :
    (c'.InLock ↔ c.InLock) ∧ (c'.pc = .keeper → c.pc = .keeper) := by
  cases acceptMoves h with
  | shutdown => exact ⟨Iff.rfl, id⟩
  | lock hpc granted => exact absurd rfl (hlock granted)
  | unlock hpc granted => exact absurd rfl (hlock granted)
  | accepted hpc fd peer => simp [AcceptCall.InLock, hpc]
  | failed hpc e =>
      rcases AcceptCall.retry_pc { c with socket := -1, errno := some e } e with hpc' | hpc' <;>
        simp only [AcceptCall.InLock, hpc'] <;> simp [hpc]
  | poll hpc readable =>
      cases readable <;> simp [AcceptCall.InLock, hpc]
  | test hpc =>
      split <;> simp [AcceptCall.InLock, hpc]
  | check hpc =>
      have hstays : (c.check inetAddr).pc ≠ .done (-1) := by
        intro hdone
        have := AcceptCall.releases_iff.mpr (.inr ⟨hpc, hdone⟩)
        simp [hrun rfl] at this
      rcases (AcceptCall.check_pc inetAddr c).resolve_left hstays with hpc' | ⟨hpc', -⟩ <;>
        simp [AcceptCall.InLock, hpc, hpc']

/-- Behind `ReleaseLock` the call returns or polls. -/
theorem AcceptCall.afterRelease_pc (h : c.releases inetAddr = true) (ok : Bool) :
    ¬ (c.afterRelease inetAddr ok).InLock ∧ (c.afterRelease inetAddr false).pc = .done (-1) := by
  rw [AcceptCall.afterRelease, AcceptCall.afterRelease]
  rcases AcceptCall.releases_iff.mp h with hpc | ⟨hpc, hdone⟩
  · rw [if_pos hpc, if_pos hpc]
    refine ⟨?_, rfl⟩
    cases ok with
    | false => simp [AcceptCall.InLock]
    | true =>
        rw [if_pos rfl, AcceptCall.leave]
        split <;> simp [AcceptCall.InLock]
  · rw [if_neg (by simp [hpc]), if_neg (by simp [hpc])]
    exact ⟨by simp [AcceptCall.InLock, hdone], hdone⟩

theorem acceptSteps_afterRelease (h : c.releases inetAddr = true) (ok : Bool) :
    ∃ i, AcceptSteps inetAddr c i (c.afterRelease inetAddr ok) := by
  rcases AcceptCall.releases_iff.mp h with hpc | ⟨hpc, -⟩
  · refine ⟨.lock ok, ?_⟩
    rw [AcceptSteps, acceptStep, hpc, AcceptCall.afterRelease, if_pos hpc]
  · refine ⟨.run, ?_⟩
    rw [AcceptSteps, AcceptCall.afterRelease, if_neg (by simp [hpc]), acceptStep, hpc]

end Calls

/-! ### The pool -/

namespace Pool

variable {ι : Type*} [DecidableEq ι]

@[simp] theorem calls_put (s : Pool ι) (p : ι) (c : Option AcceptCall) (q : ι) :
    (s.put p c).calls q = if q = p then c else s.calls q := by
  simp [put, Function.update_apply]

@[simp] theorem owner_put (s : Pool ι) (p : ι) (c : Option AcceptCall) :
    (s.put p c).owner = s.owner := rfl

@[simp] theorem kept_put (s : Pool ι) (p : ι) (c : Option AcceptCall) :
    (s.put p c).kept = s.kept := rfl

@[simp] theorem calls_lock (s : Pool ι) (p : ι) : (s.lock p).calls = s.calls := rfl

@[simp] theorem calls_unlock (s : Pool ι) (p : ι) : (s.unlock p).calls = s.calls := rfl

@[simp] theorem calls_keep (s : Pool ι) (p : ι) : (s.keep p).calls = s.calls := rfl

@[simp] theorem owner_lock (s : Pool ι) (p : ι) : (s.lock p).owner = some p := rfl

@[simp] theorem owner_keep (s : Pool ι) (p : ι) : (s.keep p).owner = s.owner := rfl

theorem owner_unlock (s : Pool ι) (p : ι) :
    (s.unlock p).owner = if s.owner = some p then none else s.owner := rfl

theorem owner_unlock_eq {s : Pool ι} {p q : ι} (h : (s.unlock p).owner = some q) :
    s.owner = some q ∧ q ≠ p := by
  rw [owner_unlock] at h
  split at h
  · cases h
  · next hne => exact ⟨h, fun heq => hne (heq ▸ h)⟩

@[simp] theorem kept_lock (s : Pool ι) (p q : ι) :
    (s.lock p).kept q = if q = p then false else s.kept q := by
  simp [lock, Function.update_apply]

@[simp] theorem kept_unlock (s : Pool ι) (p q : ι) :
    (s.unlock p).kept q = if q = p then false else s.kept q := by
  simp [unlock, Function.update_apply]

@[simp] theorem kept_keep (s : Pool ι) (p q : ι) :
    (s.keep p).kept q = if q = p then true else s.kept q := by
  simp [keep, Function.update_apply]

/-- What one step does. -/
inductive Moves (inetAddr : List UInt8 → UInt32) (s : Pool ι) : PoolInput ι → Pool ι → Prop
  | call {p : ι} (hout : s.calls p = none) (failOnIntr : Bool)
      (webServerAddrs : Option (List UInt8)) (sa : Peer) (errno : Option AcceptErrno)
      (shutdownPending : Bool) :
      Moves inetAddr s (.call p failOnIntr webServerAddrs sa errno shutdownPending)
        (s.put p (osAccept failOnIntr webServerAddrs sa errno shutdownPending))
  | own {p : ι} {c c' : AcceptCall} {i : AcceptInput} (hc : s.calls p = some c)
      (hstep : acceptStep inetAddr c i = some c') (hlock : c'.InLock ↔ c.InLock)
      (hkeeper : c'.pc = .keeper → c.pc = .keeper) : Moves inetAddr s (.own p i) (s.put p c')
  | acquired {p : ι} {c : AcceptCall} (hc : s.calls p = some c) (hpc : c.pc = .lock)
      (hfree : s.Grants p) : Moves inetAddr s (.acquire p .ok) ((s.put p (c.goto .test)).lock p)
  | refused {p : ι} {c : AcceptCall} (hc : s.calls p = some c) (hpc : c.pc = .lock)
      (r : FcntlResult) : Moves inetAddr s (.acquire p r) (s.put p (c.return (-1)))
  | released {p : ι} {c : AcceptCall} (hc : s.calls p = some c)
      (hrel : c.releases inetAddr = true) :
      Moves inetAddr s (.release p .ok) ((s.put p (c.afterRelease inetAddr true)).unlock p)
  | failed {p : ι} {c : AcceptCall} (hc : s.calls p = some c)
      (hrel : c.releases inetAddr = true) :
      Moves inetAddr s (.release p .error) ((s.put p (c.afterRelease inetAddr false)).keep p)
  | interrupted (i : PoolInput ι) : Moves inetAddr s i s
  | return {p : ι} {c : AcceptCall} {rc : ℤ} (hc : s.calls p = some c) (hpc : c.pc = .done rc) :
      Moves inetAddr s (.return p) (s.put p none)
  | dies (p : ι) : Moves inetAddr s (.dies p) ((s.put p none).unlock p)

theorem moves_ownStep {inetAddr : List UInt8 → UInt32} {s s' : Pool ι} {p : ι} {c : AcceptCall}
    {i : AcceptInput} (hc : s.calls p = some c) (h : s.ownStep inetAddr p c i = some s') :
    Moves inetAddr s (.own p i) s' := by
  have hown (hlock : ∀ granted, i ≠ .lock granted)
      (hrun : i = .run → c.releases inetAddr = false)
      (hmap : (acceptStep inetAddr c i).map (fun c' => s.put p (some c')) = some s') :
      Moves inetAddr s (.own p i) s' := by
    obtain ⟨c', hstep, rfl⟩ := Option.map_eq_some_iff.mp hmap
    obtain ⟨hin, hkeeper⟩ := AcceptCall.inLock_step hstep hlock hrun
    exact .own hc hstep hin hkeeper
  cases i with
  | lock granted => cases h
  | run =>
      rw [ownStep] at h
      split at h
      · cases h
      · next hrel =>
          apply hown
          · intro granted hi
            cases hi
          · intro _
            simpa using hrel
          · exact h
  | shutdown => exact hown (fun _ hi => by cases hi) (fun hi => by cases hi) h
  | accept result => exact hown (fun _ hi => by cases hi) (fun hi => by cases hi) h
  | poll readable => exact hown (fun _ hi => by cases hi) (fun hi => by cases hi) h

theorem moves {inetAddr : List UInt8 → UInt32} {s s' : Pool ι} {i : PoolInput ι}
    (h : s.step inetAddr i = some s') : Moves inetAddr s i s' := by
  cases i with
  | call p failOnIntr webServerAddrs sa errno shutdownPending =>
      rw [step] at h
      split at h
      · next hout =>
          cases h
          exact .call hout ..
      · cases h
  | own p i =>
      obtain ⟨c, hc, h⟩ := Option.bind_eq_some_iff.mp h
      exact moves_ownStep hc h
  | acquire p r =>
      obtain ⟨c, hc, h⟩ := Option.bind_eq_some_iff.mp h
      split at h
      · next hpc =>
          cases r with
          | ok =>
              rw [acquireLock] at h
              split at h
              · cases h
                exact .acquired hc hpc ‹_›
              · cases h
          | eintr =>
              cases h
              split
              · exact .interrupted _
              · exact .refused hc hpc _
          | error =>
              cases h
              exact .refused hc hpc _
      · cases h
  | release p r =>
      obtain ⟨c, hc, h⟩ := Option.bind_eq_some_iff.mp h
      split at h
      · next hrel =>
          cases h
          cases r with
          | ok => exact .released hc hrel
          | eintr => exact .interrupted _
          | error => exact .failed hc hrel
      · cases h
  | «return» p =>
      obtain ⟨c, hc, h⟩ := Option.bind_eq_some_iff.mp h
      split at h
      · next hpc =>
          cases h
          exact .return hc hpc
      · cases h
  | dies p =>
      cases h
      exact .dies p

/-- The lock is with the process that is between `AcquireLock` and `ReleaseLock`, or with one
whose `ReleaseLock` has failed. -/
structure Guards (s : Pool ι) : Prop where
  inside : ∀ p c, s.calls p = some c → c.InLock → s.owner = some p
  owned : ∀ p, s.owner = some p → s.kept p = false → ∃ c, s.calls p = some c ∧ c.InLock
  polls : ∀ p c, s.calls p = some c → c.pc = .keeper → s.owner ≠ some p

section Guards

variable {inetAddr : List UInt8 → UInt32} {s s' : Pool ι} {p : ι} {c c' : AcceptCall}
  {i : PoolInput ι}

/-- A call that is as far in the lock as it was. -/
theorem Guards.put (h : s.Guards) {x : Option AcceptCall}
    (hin : (∃ c, x = some c ∧ c.InLock) ↔ ∃ c, s.calls p = some c ∧ c.InLock)
    (hkeeper : ∀ c', x = some c' → c'.pc = .keeper → s.owner ≠ some p) : (s.put p x).Guards where
  inside q d hd hlock := by
    rw [calls_put] at hd
    split at hd
    · next hq =>
        obtain ⟨c, hc, hclock⟩ := hin.mp ⟨d, hd, hlock⟩
        exact hq ▸ h.inside p c hc hclock
    · exact h.inside q d hd hlock
  owned q hq hkept := by
    obtain ⟨d, hd, hlock⟩ := h.owned q hq hkept
    by_cases hqp : q = p
    · subst hqp
      obtain ⟨c', hc', hlock'⟩ := hin.mpr ⟨d, hd, hlock⟩
      exact ⟨c', by simpa using hc', hlock'⟩
    · exact ⟨d, by simpa [hqp] using hd, hlock⟩
  polls q d hd hpc := by
    rw [calls_put] at hd
    split at hd
    · next hq => exact hq ▸ hkeeper d hd hpc
    · exact h.polls q d hd hpc

/-- `AcquireLock` returns 0. -/
theorem Guards.acquired (h : s.Guards) (hfree : s.Grants p) (hc' : c'.pc = .test) :
    ((s.put p c').lock p).Guards where
  inside q d hd hlock := by
    by_cases hq : q = p
    · exact congrArg some hq.symm
    · have hqowner : s.owner = some q := h.inside q d (by simpa [hq] using hd) hlock
      rcases hfree with hnone | hp
      · rw [hnone] at hqowner
        cases hqowner
      · exact absurd (Option.some.inj (hqowner.symm.trans hp)) hq
  owned q hq _ := by
    obtain rfl : p = q := Option.some.inj hq
    exact ⟨c', by simp, .inl hc'⟩
  polls q d hd hpc hq := by
    obtain rfl : p = q := Option.some.inj hq
    obtain rfl : c' = d := by simpa using hd
    rw [hc'] at hpc
    cases hpc

/-- The process gives the lock back, or ends. -/
theorem Guards.unlocked (h : s.Guards) {x : Option AcceptCall}
    (hx : ∀ c', x = some c' → ¬ c'.InLock) : ((s.put p x).unlock p).Guards where
  inside q d hd hlock := by
    by_cases hq : q = p
    · exact absurd hlock (hx d (by simpa [hq] using hd))
    · have hqowner : s.owner = some q := h.inside q d (by simpa [hq] using hd) hlock
      rw [owner_unlock, owner_put, if_neg (fun hp => hq (Option.some.inj (hqowner.symm.trans hp)))]
      exact hqowner
  owned q hq hkept := by
    obtain ⟨hqowner, hqp⟩ := owner_unlock_eq hq
    obtain ⟨d, hd, hlock⟩ := h.owned q hqowner (by simpa [hqp] using hkept)
    exact ⟨d, by simpa [hqp] using hd, hlock⟩
  polls q d hd hpc hq := by
    obtain ⟨hqowner, hqp⟩ := owner_unlock_eq hq
    exact h.polls q d (by simpa [hqp] using hd) hpc hqowner

/-- `ReleaseLock` fails. -/
theorem Guards.failed (h : s.Guards) {rc : ℤ} (hc' : c'.pc = .done rc) :
    ((s.put p c').keep p).Guards where
  inside q d hd hlock := by
    by_cases hq : q = p
    · obtain rfl : c' = d := by simpa [hq] using hd
      simp [AcceptCall.InLock, hc'] at hlock
    · exact h.inside q d (by simpa [hq] using hd) hlock
  owned q hq hkept := by
    have hqp : q ≠ p := fun hqp => by simp [hqp] at hkept
    obtain ⟨d, hd, hlock⟩ := h.owned q hq (by simpa [hqp] using hkept)
    exact ⟨d, by simpa [hqp] using hd, hlock⟩
  polls q d hd hpc := by
    by_cases hq : q = p
    · obtain rfl : c' = d := by simpa [hq] using hd
      rw [hc'] at hpc
      cases hpc
    · exact h.polls q d (by simpa [hq] using hd) hpc

omit [DecidableEq ι] in
theorem guards_init : (init : Pool ι).Guards where
  inside p c hc := by cases hc
  owned p hp := by cases hp
  polls p c hc := by cases hc

/-- **One step of the processes.** -/
theorem Guards.step (h : s.Guards) (hstep : s.step inetAddr i = some s') : s'.Guards := by
  cases moves hstep with
  | call hout =>
      apply h.put
      · simp [hout, osAccept, AcceptCall.InLock]
      · intro c' hc' hpc
        cases hc'
        cases hpc
  | own hc _ hlock hkeeper =>
      apply h.put
      · simp [hc, hlock]
      · intro c' hc' hpc
        cases hc'
        exact h.polls _ _ hc (hkeeper hpc)
  | acquired hc hpc hfree => exact h.acquired hfree rfl
  | refused hc hpc =>
      apply h.put
      · simp [hc, hpc, AcceptCall.InLock]
      · intro c' hc' hpc'
        cases hc'
        cases hpc'
  | released hc hrel =>
      apply h.unlocked
      intro c' hc'
      cases hc'
      exact (AcceptCall.afterRelease_pc hrel true).1
  | failed hc hrel => exact h.failed (AcceptCall.afterRelease_pc hrel true).2
  | interrupted => exact h
  | «return» hc hpc =>
      apply h.put
      · simp [hc, hpc, AcceptCall.InLock]
      · intro c' hc'
        cases hc'
  | dies p => exact h.unlocked fun c' hc' => by cases hc'

end Guards

end Pool

/-- The input is a step of the call that `q` is in. -/
def PoolInput.Within {ι : Type*} (q : ι) : PoolInput ι → Prop
  | .own p _ => p = q
  | .release p _ => p = q
  | _ => False

namespace Pool

variable {ι : Type*} [DecidableEq ι] {inetAddr : List UInt8 → UInt32} {s t : Pool ι} {q : ι}
  {d d' : AcceptCall}

/-- The steps of one process lead to where nobody has the lock. -/
def Frees (inetAddr : List UInt8 → UInt32) (s : Pool ι) (q : ι) : Prop :=
  ∃ is s', (∀ i ∈ is, i.Within q) ∧ Runs (PoolSteps inetAddr) s is s' ∧ s'.owner = none ∧
    ∀ p ≠ q, s'.calls p = s.calls p

/-- The call goes on in the lock. -/
theorem Frees.own {i : AcceptInput} (hd : s.calls q = some d)
    (hstep : acceptStep inetAddr d i = some d')
    (hown : s.ownStep inetAddr q d i = (acceptStep inetAddr d i).map fun c' => s.put q (some c'))
    (h : (s.put q d').Frees inetAddr q) : s.Frees inetAddr q := by
  obtain ⟨is, s', his, hrun, hfree, hcalls⟩ := h
  have hfirst : PoolSteps inetAddr s (.own q i) (s.put q d') := by
    rw [PoolSteps, step, hd, Option.bind_some, hown, hstep, Option.map_some]
  refine ⟨.own q i :: is, s', ?_, .cons hfirst hrun, hfree, fun p hp => ?_⟩
  · intro j hj
    rcases List.mem_cons.mp hj with rfl | hj
    · rfl
    · exact his j hj
  · rw [hcalls p hp, calls_put, if_neg hp]

theorem Frees.run (hd : s.calls q = some d) (hrel : d.releases inetAddr ≠ true)
    (hstep : acceptStep inetAddr d .run = some d') (h : (s.put q d').Frees inetAddr q) :
    s.Frees inetAddr q := by
  apply Frees.own hd hstep
  · rw [ownStep, if_neg hrel]
  · exact h

theorem frees_releases (hd : s.calls q = some d) (howner : s.owner = some q)
    (hrel : d.releases inetAddr = true) : s.Frees inetAddr q := by
  refine ⟨[.release q .ok], _, ?_, .single (t := s.releaseLock inetAddr q d .ok) ?_, ?_, ?_⟩
  · simp [PoolInput.Within]
  · simp [PoolSteps, step, hd, hrel]
  · simp [releaseLock, owner_unlock, howner]
  · intro p hp
    simp [releaseLock, hp]

/-- `accept` fails with a value of `errno` that ends the call. -/
theorem frees_accept (hd : s.calls q = some d) (howner : s.owner = some q)
    (hpc : d.pc = .accept) : s.Frees inetAddr q := by
  have hstep : acceptStep inetAddr d (.accept (.error (.other 0))) =
      some ({ d with socket := -1, errno := some (.other 0) }.goto .check) := by
    simp only [acceptStep, hpc]
    rfl
  apply Frees.own hd hstep rfl
  apply frees_releases (d := { d with socket := -1, errno := some (.other 0) }.goto .check)
  · simp
  · exact howner
  · rw [AcceptCall.releases_iff]
    refine .inr ⟨rfl, ?_⟩
    rw [AcceptCall.check, if_pos (by simp)]
    split
    · rfl
    · rfl

/-- Without a descriptor the call leaves the lock when it sees a shutdown, and otherwise it
gets to `accept`. -/
theorem frees_test_neg (hd : s.calls q = some d) (howner : s.owner = some q)
    (hpc : d.pc = .test) (hneg : d.socket < 0) : s.Frees inetAddr q := by
  have hrel : d.releases inetAddr ≠ true := by simp [AcceptCall.releases_iff, hpc]
  by_cases hpending : d.shutdownPending = true
  · have hstep : acceptStep inetAddr d .run = some (d.testShutdown.goto .check) := by
      simp only [acceptStep, hpc, if_pos hpending]
    apply Frees.run hd hrel hstep
    apply frees_releases (d := d.testShutdown.goto .check)
    · simp
    · exact howner
    · rw [AcceptCall.releases_iff, AcceptCall.testShutdown, if_pos hpending]
      exact .inr ⟨rfl, AcceptCall.check_shutdown hneg hpending⟩
  · have hstep : acceptStep inetAddr d .run = some (d.goto .accept) := by
      simp only [acceptStep, hpc, if_neg hpending]
    apply Frees.run hd hrel hstep
    apply frees_accept (d := d.goto .accept)
    · simp
    · exact howner
    · rfl

theorem frees_check (hd : s.calls q = some d) (howner : s.owner = some q)
    (hpc : d.pc = .check) : s.Frees inetAddr q := by
  by_cases hrel : d.releases inetAddr = true
  · exact frees_releases hd howner hrel
  · have hstep : acceptStep inetAddr d .run = some (d.check inetAddr) := by
      simp only [acceptStep, hpc]
    have hnext : (s.put q (d.check inetAddr)).calls q = some (d.check inetAddr) := by simp
    apply Frees.run hd hrel hstep
    rcases AcceptCall.check_pc inetAddr d with hdone | hunlock | ⟨htest, hneg⟩
    · exact absurd (AcceptCall.releases_iff.mpr (.inr ⟨hpc, hdone⟩)) hrel
    · exact frees_releases hnext howner (AcceptCall.releases_iff.mpr (.inl hunlock))
    · exact frees_test_neg hnext howner htest hneg

/-- **The lock can be given back** by the call that holds it, wherever it is. -/
theorem frees_inLock (hd : s.calls q = some d) (howner : s.owner = some q) (hin : d.InLock) :
    s.Frees inetAddr q := by
  rcases hin with hpc | hpc | hpc | hpc
  · by_cases hpending : d.shutdownPending = true
    · have hstep : acceptStep inetAddr d .run = some (d.testShutdown.goto .check) := by
        simp only [acceptStep, hpc, if_pos hpending]
      apply Frees.run hd (by simp [AcceptCall.releases_iff, hpc]) hstep
      apply frees_check (d := d.testShutdown.goto .check)
      · simp
      · exact howner
      · rfl
    · have hstep : acceptStep inetAddr d .run = some (d.goto .accept) := by
        simp only [acceptStep, hpc, if_neg hpending]
      apply Frees.run hd (by simp [AcceptCall.releases_iff, hpc]) hstep
      apply frees_accept (d := d.goto .accept)
      · simp
      · exact howner
      · rfl
  · exact frees_accept hd howner hpc
  · exact frees_check hd howner hpc
  · exact frees_releases hd howner (AcceptCall.releases_iff.mpr (.inl hpc))

/-- The call is one of `OS_Accept`. -/
def IsCall (inetAddr : List UInt8 → UInt32) (c : AcceptCall) : Prop :=
  ∃ failOnIntr webServerAddrs sa errno shutdownPending is,
    Runs (AcceptSteps inetAddr)
      (osAccept failOnIntr webServerAddrs sa errno shutdownPending) is c

theorem IsCall.step {c c' : AcceptCall} {i : AcceptInput} (h : IsCall inetAddr c)
    (hstep : AcceptSteps inetAddr c i c') : IsCall inetAddr c' := by
  obtain ⟨failOnIntr, webServerAddrs, sa, errno, shutdownPending, is, hrun⟩ := h
  exact ⟨failOnIntr, webServerAddrs, sa, errno, shutdownPending, is ++ [i],
    hrun.append (.single hstep)⟩

/-- What the processes do, each of them does by itself. -/
theorem isCall_step {s s' : Pool ι} {i : PoolInput ι}
    (h : ∀ p c, s.calls p = some c → IsCall inetAddr c) (hstep : s.step inetAddr i = some s') :
    ∀ p c, s'.calls p = some c → IsCall inetAddr c := by
  have hput (q : ι) (x : Option AcceptCall) (hx : ∀ c, x = some c → IsCall inetAddr c) :
      ∀ p c, (s.put q x).calls p = some c → IsCall inetAddr c := by
    intro p c hc
    rw [calls_put] at hc
    split at hc
    · exact hx c hc
    · exact h p c hc
  have hlock {p : ι} {c : AcceptCall} (hc : s.calls p = some c) (hpc : c.pc = .lock)
      (granted : Bool) : IsCall inetAddr (if granted then c.goto .test else c.return (-1)) := by
    apply (h p c hc).step (i := .lock granted)
    rw [AcceptSteps, acceptStep, hpc]
  have hrelease {p : ι} {c : AcceptCall} (hc : s.calls p = some c)
      (hrel : c.releases inetAddr = true) (ok : Bool) :
      IsCall inetAddr (c.afterRelease inetAddr ok) := by
    obtain ⟨i, hi⟩ := acceptSteps_afterRelease hrel ok
    exact (h p c hc).step hi
  cases moves hstep with
  | call hout =>
      refine hput _ _ fun c hc => ?_
      cases hc
      exact ⟨_, _, _, _, _, [], .nil⟩
  | own hc hown =>
      refine hput _ _ fun c hc' => ?_
      cases hc'
      exact (h _ _ hc).step hown
  | acquired hc hpc =>
      refine hput _ _ fun c hc' => ?_
      cases hc'
      exact hlock hc hpc true
  | refused hc hpc =>
      refine hput _ _ fun c hc' => ?_
      cases hc'
      exact hlock hc hpc false
  | released hc hrel =>
      refine hput _ _ fun c hc' => ?_
      cases hc'
      exact hrelease hc hrel true
  | failed hc hrel =>
      refine hput _ _ fun c hc' => ?_
      cases hc'
      exact hrelease hc hrel false
  | interrupted => exact h
  | «return» =>
      refine hput _ _ fun c hc' => ?_
      cases hc'
  | dies p =>
      refine hput _ _ fun c hc' => ?_
      cases hc'

/-- **The lock excludes.** -/
structure Exclusive (inetAddr : List UInt8 → UInt32) (s : Pool ι) : Prop where
  isCall : ∀ p c, s.calls p = some c → IsCall inetAddr c
  /-- One process at a time is at `accept`, or tests what it has accepted. -/
  one : ∀ p q c d, s.calls p = some c → s.calls q = some d → c.InLock → d.InLock → p = q
  /-- Nobody has the lock while it polls. -/
  polls : ∀ p c, s.calls p = some c → c.pc = .keeper → s.owner ≠ some p
  /-- The lock is kept longer only if a `ReleaseLock` has failed. -/
  owned : ∀ p, s.owner = some p → s.kept p = false → ∃ c, s.calls p = some c ∧ c.InLock
  /-- Who waits for the lock can get it: it is enough that the process which has it goes on. -/
  progress : ∀ p c, s.calls p = some c → c.pc = .lock →
    (∀ q, s.owner = some q → s.kept q = false) →
    ∃ is s', (∀ i ∈ is, ∃ q ≠ p, i.Within q) ∧ Runs (PoolSteps inetAddr) s is s' ∧
      s'.calls p = some c ∧ s'.Grants p

theorem Guards.exclusive (h : s.Guards) (hcalls : ∀ p c, s.calls p = some c → IsCall inetAddr c) :
    s.Exclusive inetAddr where
  isCall := hcalls
  one p q c d hc hd hcin hdin :=
    Option.some.inj ((h.inside p c hc hcin).symm.trans (h.inside q d hd hdin))
  polls := h.polls
  owned := h.owned
  progress p c hc hpc hkept := by
    cases howner : s.owner with
    | none => exact ⟨[], s, by simp, .nil, hc, .inl howner⟩
    | some q =>
        obtain ⟨d, hd, hin⟩ := h.owned q howner (hkept q howner)
        have hpq : p ≠ q := by
          rintro rfl
          obtain rfl : c = d := Option.some.inj (hc.symm.trans hd)
          simp [AcceptCall.InLock, hpc] at hin
        have hfrees : s.Frees inetAddr q := frees_inLock hd howner hin
        obtain ⟨is, s', his, hrun, hfree, hothers⟩ := hfrees
        exact ⟨is, s', fun i hi => ⟨q, hpq.symm, his i hi⟩, hrun, (hothers p hpq).trans hc,
          .inl hfree⟩

end Pool

/-- **Processes that share a listening socket.** Whatever they do in whatever order, signals,
failures of `fcntl` and the end of processes included, they are at `accept` one at a time, no
process polls its connection while it has the lock, and a process that waits for the lock can
get it. -/
theorem osAccept_excludes {ι : Type*} [DecidableEq ι] (inetAddr : List UInt8 → UInt32)
    {is : List (PoolInput ι)} {s : Pool ι}
    (hrun : Runs (PoolSteps inetAddr) Pool.init is s) : s.Exclusive inetAddr := by
  have hguards : s.Guards :=
    hrun.invariant (fun _ _ _ h hstep => h.step hstep) Pool.guards_init
  apply hguards.exclusive
  apply hrun.invariant (fun _ _ _ h hstep => Pool.isCall_step h hstep)
  intro p c hc
  cases hc

/-- While the first process polls the connection it has accepted, the second one is at
`accept`. -/
theorem osAccept_excludes_two :
    ∃ is s, Runs (PoolSteps fun _ => 0) (Pool.init : Pool Bool) is s ∧
      (s.calls false).map (·.pc) = some .keeper ∧ (s.calls true).map (·.pc) = some .accept ∧
      s.owner = some true ∧ s.Exclusive fun _ => 0 := by
  have hexec : (exec (Pool.step fun _ => 0) (Pool.init : Pool Bool)
      [.call false false none ⟨.inet, 0⟩ none false, .call true true none ⟨.inet, 0⟩ none false,
        .acquire true .eintr, .return true, .call true false none ⟨.inet, 0⟩ none false,
        .acquire false .ok, .own false .run, .own false (.accept (.ok (5, ⟨.unix, 0⟩))),
        .acquire true .eintr, .own false .run, .release false .eintr, .release false .ok,
        .acquire true .ok, .own true .run]).map
        (fun s => ((s.calls false).map (·.pc), (s.calls true).map (·.pc), s.owner)) =
      some (some .keeper, some .accept, some true) := by decide +kernel
  obtain ⟨s, hs, hends⟩ := Option.map_eq_some_iff.mp hexec
  have hrun : Runs (PoolSteps fun _ => 0) Pool.init _ s := .of_exec (fun _ _ _ h => h) hs
  obtain ⟨hfirst, hends⟩ := Prod.mk.inj hends
  obtain ⟨hsecond, howner⟩ := Prod.mk.inj hends
  exact ⟨_, s, hrun, hfirst, hsecond, howner, osAccept_excludes _ hrun⟩

end FastCgi
