import FastCgi.Os.AsyncIo

/-!
The counters of posted events, and what becomes of an event.

An operation is registered, then reported by `select`, then dispatched; or
its descriptor is closed. `Lifecycle` is that order, and the record of a
run is checked against it for every descriptor. `OS_Close` and
`OS_CloseRead` do not count down: a run that never closes a descriptor
whose event is posted keeps the counters exact.
-/

namespace FastCgi.OsUnix

open Machine

/-! ### The life of an operation -/

/-- What has become of an operation on a descriptor. -/
inductive Lifecycle where
  | idle
  | registered (op : AioInfo)
  | reported (op : AioInfo)

namespace Lifecycle

/-- A descriptor is registered when it is idle, reported when it is registered and
dispatched when it is reported, with the operation that was registered. -/
def next (dir : Direction) (fd : ℕ) (l : Lifecycle) : AsyncEvent → Option Lifecycle
  | .registered d op =>
      if d = dir ∧ op.fd = fd then
        match l with
        | .idle => some (.registered op)
        | _ => none
      else some l
  | .selected rep =>
      if fd ∈ rep dir then
        match l with
        | .registered op => some (.reported op)
        | _ => none
      else some l
  | .dispatched d op =>
      if d = dir ∧ op.fd = fd then
        match l with
        | .reported op' => if op = op' then some .idle else none
        | _ => none
      else some l
  | .closed fd' => if fd' = fd then some .idle else some l
  | .readCancelled fd' => if dir = .read ∧ fd' = fd then some .idle else some l
  | .returned _ _ => some l

end Lifecycle

namespace AsyncIo

variable {s t : AsyncIo}

/-- The operation that is registered for a descriptor. -/
def op (s : AsyncIo) (dir : Direction) (fd : ℕ) : Option AioInfo :=
  if aioIx dir fd < s.asyncIoTableSize ∧ (s.asyncIoTable (aioIx dir fd)).inUse = true then
    some (s.asyncIoTable (aioIx dir fd))
  else none

/-- An event is posted for a registered operation. -/
def Pending (s : AsyncIo) (dir : Direction) (fd : ℕ) : Prop :=
  fd ∈ s.fdSetPost dir ∧ (s.op dir fd).isSome = true

instance (s : AsyncIo) (dir : Direction) (fd : ℕ) : Decidable (s.Pending dir fd) :=
  inferInstanceAs (Decidable (_ ∧ _))

def lifecycle (s : AsyncIo) (dir : Direction) (fd : ℕ) : Lifecycle :=
  match s.op dir fd with
  | none => .idle
  | some e => if fd ∈ s.fdSetPost dir then .reported e else .registered e

theorem aioIx_inj {d dir : Direction} {x fd : ℕ} :
    aioIx d x = aioIx dir fd ↔ d = dir ∧ x = fd := by
  cases d <;> cases dir <;> simp only [aioIx, reduceCtorEq, true_and, false_and, iff_false] <;>
    omega

theorem op_eq_some {dir : Direction} {fd : ℕ} {e : AioInfo} :
    s.op dir fd = some e ↔
      aioIx dir fd < s.asyncIoTableSize ∧ e.inUse = true ∧ s.asyncIoTable (aioIx dir fd) = e := by
  rw [op]
  split
  · next h =>
      rw [Option.some.injEq]
      constructor
      · rintro rfl
        exact ⟨h.1, h.2, rfl⟩
      · exact fun h' => h'.2.2
  · next h =>
      constructor
      · intro h'
        exact nomatch h'
      · rintro ⟨hix, huse, rfl⟩
        exact absurd ⟨hix, huse⟩ h

/-- An entry is filled in, or emptied. -/
theorem op_setEntry {dir : Direction} {fd : ℕ} (hix : aioIx dir fd < s.asyncIoTableSize)
    (e : AioInfo) (d : Direction) (x : ℕ) :
    (s.setEntry (aioIx dir fd) e).op d x =
      if d = dir ∧ x = fd then (if e.inUse = true then some e else none) else s.op d x := by
  by_cases hsame : d = dir ∧ x = fd
  · obtain ⟨rfl, rfl⟩ := hsame
    simp [op, setEntry, hix]
  · have hne : aioIx d x ≠ aioIx dir fd := fun h => hsame (aioIx_inj.mp h)
    simp [op, setEntry, hne, hsame]

/-- Growing the table registers nothing. -/
theorem GrownTo.op_eq (h : s.GrownTo t) (d : Direction) (x : ℕ) : t.op d x = s.op d x := by
  rw [op, op]
  by_cases hold : aioIx d x < s.asyncIoTableSize
  · have hnew : aioIx d x < t.asyncIoTableSize := hold.trans_le h.size_le
    simp only [h.kept _ hold, hold, hnew]
  · by_cases hnew : aioIx d x < t.asyncIoTableSize
    · simp [h.fresh _ (Nat.le_of_not_lt hold) hnew, hold, AioInfo.zero]
    · simp [hold, hnew]

theorem mem_addFd {dir d : Direction} {fd x : ℕ} :
    x ∈ (s.addFd dir fd).fdSet d ↔ x ∈ s.fdSet d ∨ d = dir ∧ x = fd := by
  by_cases hd : d = dir
  · subst hd
    simp only [addFd, Function.update_self, Finset.mem_insert, true_and, or_comm]
  · simp [addFd, hd]

theorem mem_update_erase_iff {f : Direction → Finset ℕ} {dir d : Direction} {fd x : ℕ} :
    x ∈ Function.update f dir ((f dir).erase fd) d ↔ x ∈ f d ∧ ¬(d = dir ∧ x = fd) := by
  by_cases hd : d = dir
  · subst hd
    simp only [Function.update_self, Finset.mem_erase, true_and, ne_eq, and_comm]
  · simp [hd]

/-! ### The invariant -/

/-- What holds of the sets, the table, the counters and the record between the calls and
within `OS_DoIo`. -/
structure Kept (s : AsyncIo) : Prop where
  sized : s.Sized
  listed : ∀ dir fd, fd ∈ s.fdSet dir ↔ (s.op dir fd).isSome = true ∧ fd ∉ s.fdSetPost dir
  posted : ∀ dir fd, fd ∈ s.fdSetPost dir → (s.op dir fd).isSome = true
  named : ∀ dir fd e, s.op dir fd = some e →
    e.fd = fd ∧ (fd : ℤ) ≤ s.maxFd ∧ s.asyncIoInUse = true
  counted : ∀ dir, s.numPosted dir = (s.fdSetPost dir).card
  history : ∀ dir fd, exec (Lifecycle.next dir fd) .idle s.log = some (s.lifecycle dir fd)
  selects : ∀ selected, .returned selected 0 ∈ s.log → selected = true
  calling : ∀ call ∈ s.calls, 0 < call.dispatched

/-- Between the calls: what is posted comes after the descriptor whose callback runs, and
nothing is when `OS_DoIo` has just returned. -/
structure Tidy (s : AsyncIo) : Prop extends s.Kept where
  ahead : ∀ dir fd, fd ∈ s.fdSetPost dir →
    ∃ call ∈ s.calls.head?, aioIx call.dir call.fd < aioIx dir fd
  settled : ∀ selected n, s.log.getLast? = some (.returned selected n) →
    ∀ dir, s.fdSetPost dir = ∅

theorem tidy_osLibInit : osLibInit.Tidy where
  sized := sized_osLibInit
  listed dir fd := by simp [osLibInit, op, AioInfo.zero]
  posted dir fd h := by simp [osLibInit] at h
  named dir fd e h := by simp [osLibInit, op, AioInfo.zero] at h
  counted dir := rfl
  history dir fd := by simp [osLibInit, lifecycle, op, AioInfo.zero, exec]
  selects _ h := by simp [osLibInit] at h
  calling _ h := by simp [osLibInit] at h
  ahead dir fd h := by simp [osLibInit] at h
  settled _ _ h := by simp [osLibInit] at h

theorem Kept.history_note (h : s.Kept) {e : AsyncEvent} (hlog : t.log = s.log ++ [e])
    (hnext : ∀ dir fd,
      Lifecycle.next dir fd (s.lifecycle dir fd) e = some (t.lifecycle dir fd)) (dir : Direction)
    (fd : ℕ) : exec (Lifecycle.next dir fd) .idle t.log = some (t.lifecycle dir fd) := by
  rw [hlog, exec_concat, h.history]
  exact hnext dir fd

theorem Kept.selects_note (h : s.Kept) {e : AsyncEvent} (hlog : t.log = s.log ++ [e])
    (he : ∀ selected, e = .returned selected 0 → selected = true) (selected : Bool)
    (hmem : .returned selected 0 ∈ t.log) : selected = true := by
  rw [hlog, List.mem_append, List.mem_singleton] at hmem
  rcases hmem with hmem | hmem
  · exact h.selects selected hmem
  · exact he selected hmem.symm

/-- An event other than the return of `OS_DoIo` is noted. -/
theorem settled_note {e : AsyncEvent} (hlog : t.log = s.log ++ [e])
    (he : ∀ selected n, e ≠ .returned selected n) (selected : Bool) (n : ℕ)
    (hlast : t.log.getLast? = some (.returned selected n)) (dir : Direction) :
    t.fdSetPost dir = ∅ := by
  rw [hlog, List.getLast?_concat] at hlast
  exact absurd (Option.some.inj hlast) (he selected n)

/-! ### Registering -/

theorem Tidy.useFd (h : s.Tidy) (fd : ℕ) : (s.useFd fd).Tidy :=
  { h with
    sized := h.sized.mono (Nat.le_refl _) fun _ _ hx => hx
    named := fun dir x e he => by
      obtain ⟨hfd, hle, -⟩ := h.named dir x e he
      refine ⟨hfd, ?_, rfl⟩
      simp only [AsyncIo.useFd]
      split <;> omega }

theorem Tidy.grow (h : s.Tidy) (hgrown : s.GrownTo t) : t.Tidy := by
  have hfdSet : t.fdSet = s.fdSet := by rw [hgrown.eq]
  have hpost : t.fdSetPost = s.fdSetPost := by rw [hgrown.eq]
  have hnum : t.numPosted = s.numPosted := by rw [hgrown.eq]
  have hmax : t.maxFd = s.maxFd := by rw [hgrown.eq]
  have huse : t.asyncIoInUse = s.asyncIoInUse := by rw [hgrown.eq]
  have hcalls : t.calls = s.calls := by rw [hgrown.eq]
  have hlog : t.log = s.log := by rw [hgrown.eq]
  refine ⟨⟨?_, ?_, ?_, ?_, ?_, ?_, ?_, ?_⟩, ?_, ?_⟩
  · exact h.sized.mono hgrown.size_le fun d x hx => by rwa [hfdSet, hpost] at hx
  · intro dir fd
    rw [hgrown.op_eq, hfdSet, hpost]
    exact h.listed dir fd
  · intro dir fd hfd
    rw [hgrown.op_eq]
    exact h.posted dir fd (by rwa [hpost] at hfd)
  · intro dir fd e he
    rw [hmax, huse]
    exact h.named dir fd e (by rwa [hgrown.op_eq] at he)
  · intro dir
    rw [hnum, hpost]
    exact h.counted dir
  · intro dir fd
    rw [lifecycle, hgrown.op_eq, hpost, hlog]
    exact h.history dir fd
  · intro selected hmem
    exact h.selects selected (by rwa [hlog] at hmem)
  · intro call hcall
    exact h.calling call (by rwa [hcalls] at hcall)
  · intro dir fd hfd
    rw [hcalls]
    exact h.ahead dir fd (by rwa [hpost] at hfd)
  · intro selected n hlast dir
    rw [hpost]
    exact h.settled selected n (by rwa [hlog] at hlast) dir

/-- The entry of a descriptor that is idle is filled in. -/
theorem Tidy.register (h : s.Tidy) {dir : Direction} {fd : ℕ} {a : AioArgs}
    (huse : s.asyncIoInUse = true) (hmax : (fd : ℤ) ≤ s.maxFd)
    (hix : aioIx dir fd < s.asyncIoTableSize) (hok : s.register dir fd a = .ok t) : t.Tidy := by
  have hsized : Bounded True (.ok t) := hok ▸ h.sized.register hix a
  rw [AsyncIo.register, entry_of_lt hix] at hok
  dsimp only at hok
  split at hok
  · cases hok
  · next hfree =>
      have hidle : s.op dir fd = none := by simp [op, hfree]
      have hnot : fd ∉ s.fdSetPost dir := fun hfd => by simpa [hidle] using h.posted dir fd hfd
      obtain rfl := Except.ok.inj hok
      set u := ((s.setEntry (aioIx dir fd) (a.info fd)).addFd dir fd).note
        (.registered dir (a.info fd)) with hu
      have hop (d : Direction) (x : ℕ) :
          u.op d x = if d = dir ∧ x = fd then some (a.info fd) else s.op d x :=
        op_setEntry hix _ d x
      have hfdSet (d : Direction) (x : ℕ) :
          x ∈ u.fdSet d ↔ x ∈ s.fdSet d ∨ d = dir ∧ x = fd := mem_addFd
      have hpost : u.fdSetPost = s.fdSetPost := rfl
      refine ⟨⟨hsized.2, fun d x => ?_, fun d x hx => ?_, fun d x e he => ?_, h.counted,
        h.history_note rfl fun d x => ?_, h.selects_note rfl (fun _ he => by cases he), h.calling⟩, h.ahead,
        settled_note (s := s) rfl (fun _ _ he => by cases he)⟩
      · rw [hop, hfdSet, hpost, h.listed]
        by_cases hsame : d = dir ∧ x = fd
        · obtain ⟨rfl, rfl⟩ := hsame
          simp [hnot]
        · simp [hsame]
      · rw [hop]
        split
        · rfl
        · exact h.posted d x hx
      · rw [hop] at he
        split at he
        · next hsame =>
            obtain rfl := Option.some.inj he
            exact ⟨hsame.2.symm, hsame.2 ▸ hmax, huse⟩
        · exact h.named d x e he
      · by_cases hsame : d = dir ∧ x = fd
        · obtain ⟨rfl, rfl⟩ := hsame
          simp [Lifecycle.next, lifecycle, hop, hidle, hpost, hnot, AioArgs.info]
        · have hother : ¬(dir = d ∧ fd = x) := fun heq => hsame ⟨heq.1.symm, heq.2.symm⟩
          simp [Lifecycle.next, lifecycle, hop, hpost, hsame, hother, AioArgs.info]

/-! ### Closing -/

/-- An operation is forgotten, its posted event too; the counters stay. -/
structure Cancelled (s t : AsyncIo) (dir : Direction) (fd : ℕ) : Prop where
  op_eq : ∀ d x, t.op d x = if d = dir ∧ x = fd then none else s.op d x
  mem_fdSet : ∀ d x, x ∈ t.fdSet d ↔ x ∈ s.fdSet d ∧ ¬(d = dir ∧ x = fd)
  mem_post : ∀ d x, x ∈ t.fdSetPost d ↔ x ∈ s.fdSetPost d ∧ ¬(d = dir ∧ x = fd)
  use_eq : t.asyncIoInUse = s.asyncIoInUse
  numPosted_eq : t.numPosted = s.numPosted
  maxFd_eq : t.maxFd = s.maxFd
  calls_eq : t.calls = s.calls
  log_eq : t.log = s.log

theorem cancelled_cancel {dir : Direction} {fd : ℕ} (hok : s.cancel dir fd = .ok t) :
    s.Cancelled t dir fd := by
  have hix : aioIx dir fd < s.asyncIoTableSize := by
    by_contra hge
    rw [cancel, entry_of_ge (Nat.le_of_not_lt hge)] at hok
    cases hok
  rw [cancel, entry_of_lt hix] at hok
  obtain rfl := Except.ok.inj hok
  dsimp only
  split
  · refine ⟨fun d x => ?_, fun d x => mem_update_erase_iff, fun d x => mem_update_erase_iff,
      rfl, rfl, rfl, rfl, rfl⟩
    exact (op_setEntry (s := (s.clearFd dir fd).clearPost dir fd) hix _ d x).trans (by rfl)
  · next hfree =>
      refine ⟨fun d x => ?_, fun d x => mem_update_erase_iff, fun d x => mem_update_erase_iff,
        rfl, rfl, rfl, rfl, rfl⟩
      split
      · next hsame =>
          obtain ⟨rfl, rfl⟩ := hsame
          exact if_neg fun h => hfree h.2
      · rfl

/-- Operations are forgotten, none of which has an event posted. -/
theorem Tidy.forget (h : s.Tidy) (gone : Direction → ℕ → Prop) [∀ d x, Decidable (gone d x)]
    (hsized : t.Sized) (hop : ∀ d x, t.op d x = if gone d x then none else s.op d x)
    (hfdSet : ∀ d x, x ∈ t.fdSet d ↔ x ∈ s.fdSet d ∧ ¬gone d x)
    (hpost : t.fdSetPost = s.fdSetPost) (hgone : ∀ d x, gone d x → x ∉ s.fdSetPost d)
    (hmax : ∀ d x e, s.op d x = some e → ¬gone d x → (x : ℤ) ≤ t.maxFd)
    (huse : t.asyncIoInUse = s.asyncIoInUse) (hnum : t.numPosted = s.numPosted)
    (hcalls : t.calls = s.calls) {e : AsyncEvent} (hlog : t.log = s.log ++ [e])
    (he : ∀ selected n, e ≠ .returned selected n)
    (hnext : ∀ d x l, Lifecycle.next d x l e = some (if gone d x then .idle else l)) : t.Tidy := by
  refine ⟨⟨hsized, fun d x => ?_, fun d x hx => ?_, fun d x e he => ?_, fun d => ?_,
    h.history_note hlog fun d x => ?_,
    h.selects_note hlog fun selected heq => absurd heq (he selected 0),
    fun call hcall => h.calling call (hcalls ▸ hcall)⟩, fun d x hx => ?_,
    settled_note hlog he⟩
  · rw [hfdSet, hop, hpost, h.listed]
    by_cases hx : gone d x <;> simp [hx]
  · rw [hpost] at hx
    rw [hop, if_neg fun hg => hgone d x hg hx]
    exact h.posted d x hx
  · rw [hop] at he
    split at he
    · exact nomatch he
    · next hx => exact ⟨(h.named d x e he).1, hmax d x e he hx, huse ▸ (h.named d x e he).2.2⟩
  · rw [hnum, hpost]
    exact h.counted d
  · rw [hnext, lifecycle, lifecycle, hop, hpost]
    by_cases hx : gone d x <;> simp [hx]
  · rw [hcalls]
    exact h.ahead d x (by rwa [hpost] at hx)

/-- Both operations of a descriptor are forgotten, if any has ever been registered. -/
theorem osClose_cases {fd : ℕ} (hok : s.osClose fd = .ok t) :
    (∃ u v, s.Cancelled u .read fd ∧ u.Cancelled v .write fd ∧
      t = (v.dropFd fd).note (.closed fd)) ∨
      ¬s.asyncIoInUse = true ∧ t = s.note (.closed fd) := by
  rw [AsyncIo.osClose] at hok
  split at hok
  · cases hcancel : s.cancel .read fd with
    | error halt =>
        rw [hcancel] at hok
        cases hok
    | ok u =>
        rw [hcancel] at hok
        dsimp only at hok
        cases hcancel' : u.cancel .write fd with
        | error halt =>
            rw [hcancel'] at hok
            cases hok
        | ok v =>
            rw [hcancel'] at hok
            obtain rfl := Except.ok.inj hok
            exact .inl ⟨u, v, cancelled_cancel hcancel, cancelled_cancel hcancel', rfl⟩
  · next huse =>
      obtain rfl := Except.ok.inj hok
      exact .inr ⟨huse, rfl⟩

theorem next_closed (d : Direction) (x fd : ℕ) (l : Lifecycle) :
    Lifecycle.next d x l (.closed fd) = some (if x = fd then .idle else l) := by
  simp only [Lifecycle.next, eq_comm]
  split <;> rfl

theorem Tidy.osClose (h : s.Tidy) {fd : ℕ} (hread : ¬s.Pending .read fd)
    (hwrite : ¬s.Pending .write fd) (hok : s.osClose fd = .ok t) : t.Tidy := by
  have hsized : Bounded _ (.ok t) := hok ▸ h.sized.osClose fd
  have hnot (d : Direction) : fd ∉ s.fdSetPost d := by
    cases d with
    | read => exact fun hfd => hread ⟨hfd, h.posted .read fd hfd⟩
    | write => exact fun hfd => hwrite ⟨hfd, h.posted .write fd hfd⟩
  rcases osClose_cases hok with ⟨u, v, hu, hv, rfl⟩ | ⟨huse, rfl⟩
  · have hmax : v.maxFd = s.maxFd := hv.maxFd_eq.trans hu.maxFd_eq
    refine h.forget (fun _ x => x = fd) hsized.2 (fun d x => ?_) (fun d x => ?_)
      ?_ (fun d x hx => hx ▸ hnot d) (fun d x e he hx => ?_) ?_ ?_ ?_ (e := .closed fd)
      ?_ (fun _ _ he => by cases he) fun d x l => next_closed d x fd l
    · change v.op d x = _
      rw [hv.op_eq, hu.op_eq]
      cases d <;> simp
    · change x ∈ v.fdSet d ↔ _
      rw [hv.mem_fdSet, hu.mem_fdSet]
      cases d <;> simp
    · change v.fdSetPost = _
      ext d x
      rw [hv.mem_post, hu.mem_post]
      constructor
      · exact fun hx => hx.1.1
      · intro hx
        have hne : x ≠ fd := fun heq => hnot d (heq ▸ hx)
        exact ⟨⟨hx, fun heq => hne heq.2⟩, fun heq => hne heq.2⟩
    · have hle := (h.named d x e he).2.1
      simp only [note, dropFd, hmax]
      split <;> omega
    · exact hv.use_eq.trans hu.use_eq
    · exact hv.numPosted_eq.trans hu.numPosted_eq
    · exact hv.calls_eq.trans hu.calls_eq
    · exact congrArg (· ++ [AsyncEvent.closed fd]) (hv.log_eq.trans hu.log_eq)
  · -- nothing has been registered yet
    have hidle (d : Direction) (x : ℕ) : s.op d x = none := by
      cases hx : s.op d x with
      | none => rfl
      | some e => exact absurd (h.named d x e hx).2.2 huse
    refine h.forget (fun _ x => x = fd) hsized.2 (fun d x => ?_) (fun d x => ?_) rfl
      (fun d x hx => hx ▸ hnot d) (fun d x e he => by simp [hidle] at he) rfl rfl rfl rfl
      (fun _ _ he => by cases he) fun d x l => next_closed d x fd l
    · change s.op d x = _
      simp [hidle]
    · change x ∈ s.fdSet d ↔ _
      simp [h.listed, hidle]

theorem Tidy.osCloseRead (h : s.Tidy) {fd : ℕ} (hread : ¬s.Pending .read fd)
    (hok : s.osCloseRead fd = .ok t) : t.Tidy := by
  have hsized : Bounded _ (.ok t) := hok ▸ h.sized.osCloseRead fd
  have hix := hsized.1
  have hnot : fd ∉ s.fdSetPost .read := fun hfd => hread ⟨hfd, h.posted .read fd hfd⟩
  rw [AsyncIo.osCloseRead, entry_of_lt hix] at hok
  obtain rfl := Except.ok.inj hok
  dsimp only at hsized ⊢
  split at hsized
  · next huse =>
      rw [if_pos huse]
      refine h.forget (fun d x => d = .read ∧ x = fd) hsized.2 (fun d x => ?_)
        (fun d x => mem_update_erase_iff) rfl (fun d x hx => ?_)
        (fun d x e he _ => (h.named d x e he).2.1) rfl rfl rfl rfl
        (fun _ _ he => by cases he) (fun d x l => ?_)
      · exact (op_setEntry (s := s.note (.readCancelled fd)) hix _ d x).trans (by rfl)
      · rw [hx.1, hx.2]
        exact hnot
      · simp only [Lifecycle.next, eq_comm]
        split <;> rfl
  · next huse =>
      rw [if_neg huse]
      have hidle : s.op .read fd = none := if_neg fun h' => huse h'.2
      have hlisted := h.listed .read fd
      rw [hidle] at hlisted
      refine h.forget (fun d x => d = .read ∧ x = fd) hsized.2 (fun d x => ?_)
        (fun d x => ?_) rfl (fun d x hx => ?_)
        (fun d x e he _ => (h.named d x e he).2.1) rfl rfl rfl rfl
        (fun _ _ he => by cases he) (fun d x l => ?_)
      · split
        · next hsame =>
            rw [hsame.1, hsame.2]
            exact hidle
        · rfl
      · refine ⟨fun hx => ⟨hx, ?_⟩, And.left⟩
        rintro ⟨rfl, rfl⟩
        exact absurd (hlisted.mp hx).1 (by simp)
      · rw [hx.1, hx.2]
        exact hnot
      · simp only [Lifecycle.next, eq_comm]
        split <;> rfl

/-! ### Dispatching -/

theorem Kept.post (h : s.Kept) (sel : Direction → Finset ℕ) : (s.post sel).Kept := by
  have hreported (d : Direction) (x : ℕ) (hx : x ∈ s.reported sel d) : x ∈ s.fdSet d := by
    simp only [reported, Finset.mem_inter] at hx
    exact hx.1.1
  refine ⟨h.sized.post sel, fun d x => ?_, fun d x hx => ?_, h.named, fun d => ?_,
    h.history_note rfl fun d x => ?_, h.selects_note rfl (fun _ he => by cases he), h.calling⟩
  · simp only [AsyncIo.post, Finset.mem_sdiff, Finset.mem_union, h.listed]
    change _ ↔ (s.op d x).isSome = true ∧ _
    tauto
  · simp only [AsyncIo.post, Finset.mem_union] at hx
    change (s.op d x).isSome = true
    rcases hx with hx | hx
    · exact h.posted d x hx
    · exact ((h.listed d x).mp (hreported d x hx)).1
  · have hdisjoint : Disjoint (s.fdSetPost d) (s.reported sel d) := by
      rw [Finset.disjoint_left]
      intro x hx hx'
      exact ((h.listed d x).mp (hreported d x hx')).2 hx
    simp only [AsyncIo.post, h.counted, Finset.card_union_of_disjoint hdisjoint]
    push_cast
    rfl
  · have hop : (s.post sel).op d x = s.op d x := rfl
    have hmem : x ∈ (s.post sel).fdSetPost d ↔ x ∈ s.fdSetPost d ∨ x ∈ s.reported sel d := by
      simp only [AsyncIo.post, Finset.mem_union]
    by_cases hx : x ∈ s.reported sel d
    · obtain ⟨hreg, hnot⟩ := (h.listed d x).mp (hreported d x hx)
      obtain ⟨e, he⟩ := Option.isSome_iff_exists.mp hreg
      simp [Lifecycle.next, lifecycle, hop, hmem, hx, hnot, he]
    · simp [Lifecycle.next, lifecycle, hop, hmem, hx]

theorem Kept.isPosted (h : s.Kept) (dir : Direction) (fd : ℕ) :
    s.isPosted dir fd = .ok (decide (fd ∈ s.fdSetPost dir)) := by
  rw [AsyncIo.isPosted]
  split
  · next hfd =>
      obtain ⟨e, he⟩ := Option.isSome_iff_exists.mp (h.posted dir fd hfd)
      obtain ⟨hix, huse, rfl⟩ := op_eq_some.mp he
      rw [entry_of_lt hix, decide_eq_true hfd]
      exact congrArg Except.ok huse
  · next hfd => rw [decide_eq_false hfd]

/-- The first of the posted events is dispatched. -/
theorem Kept.dispatch (h : s.Kept) {dir : Direction} {fd : ℕ} (hfd : fd ∈ s.fdSetPost dir)
    (hfirst : ∀ d x, x ∈ s.fdSetPost d → aioIx dir fd ≤ aioIx d x) (selected : Bool)
    (dispatched : ℕ) : (s.dispatch dir fd selected dispatched).Tidy := by
  obtain ⟨e, he⟩ := Option.isSome_iff_exists.mp (h.posted dir fd hfd)
  obtain ⟨hix, huse, htable⟩ := op_eq_some.mp he
  set t := s.dispatch dir fd selected dispatched with ht
  have hop (d : Direction) (x : ℕ) : t.op d x = if d = dir ∧ x = fd then none else s.op d x :=
    (op_setEntry (s := s.clearPost dir fd) hix _ d x).trans (by rfl)
  have hpost (d : Direction) (x : ℕ) :
      x ∈ t.fdSetPost d ↔ x ∈ s.fdSetPost d ∧ ¬(d = dir ∧ x = fd) := mem_update_erase_iff
  have hfdSet : t.fdSet = s.fdSet := rfl
  have hlog : t.log = s.log ++ [.dispatched dir e] := by
    simp only [ht, AsyncIo.dispatch, htable]
    rfl
  refine ⟨⟨h.sized.dispatch dir fd selected dispatched, fun d x => ?_, fun d x hx => ?_,
    fun d x e' he' => ?_, fun d => ?_, h.history_note hlog fun d x => ?_,
    h.selects_note hlog nofun, fun call hcall => ?_⟩, fun d x hx => ?_,
    settled_note hlog nofun⟩
  · rw [hfdSet, hop, hpost, h.listed]
    by_cases hsame : d = dir ∧ x = fd
    · simp [hsame, hfd]
    · simp [hsame]
  · rw [hpost] at hx
    rw [hop, if_neg hx.2]
    exact h.posted d x hx.1
  · rw [hop] at he'
    split at he'
    · exact nomatch he'
    · exact h.named d x e' he'
  · by_cases hd : d = dir
    · subst hd
      have hcard : (((s.fdSetPost d).erase fd).card : ℤ) = (s.fdSetPost d).card - 1 := by
        rw [Finset.card_erase_of_mem hfd]
        have := Finset.card_pos.mpr ⟨fd, hfd⟩
        omega
      simp only [ht, AsyncIo.dispatch, clearPost, setEntry, Function.update_self, hcard, h.counted]
    · simp only [ht, AsyncIo.dispatch, clearPost, setEntry, Function.update_of_ne hd]
      exact h.counted d
  · have hown := (h.named dir fd e he).1
    by_cases hsame : d = dir ∧ x = fd
    · obtain ⟨rfl, rfl⟩ := hsame
      simp [Lifecycle.next, lifecycle, hop, he, hfd, hown]
    · have hother : ¬(dir = d ∧ fd = x) := fun heq => hsame ⟨heq.1.symm, heq.2.symm⟩
      simp [Lifecycle.next, lifecycle, hop, hpost, hsame, hother, hown]
  · rcases List.mem_cons.mp hcall with rfl | hcall
    · exact Nat.succ_pos dispatched
    · exact h.calling call hcall
  · -- what is left is not the event that is dispatched, and so comes after it
    rw [hpost] at hx
    have hne : aioIx d x ≠ aioIx dir fd := fun heq => hx.2 (aioIx_inj.mp heq)
    exact ⟨_, rfl, Nat.lt_of_le_of_ne (hfirst d x hx.1) hne.symm⟩

/-- `OS_DoIo` returns: nothing is posted. -/
theorem Kept.returned (h : s.Kept) (hempty : ∀ dir, s.fdSetPost dir = ∅) {selected : Bool}
    {dispatched : ℕ} (hselected : dispatched = 0 → selected = true) :
    (s.note (.returned selected dispatched)).Tidy := by
  refine ⟨{ h with
    sized := h.sized.mono (Nat.le_refl _) fun _ _ hx => hx
    history := h.history_note rfl fun d x => rfl
    selects := h.selects_note rfl fun b heq => ?_ }, fun d x hx => ?_, fun _ _ _ => hempty⟩
  · injection heq with hb hn
    exact hb ▸ hselected hn
  · rw [show (s.note _).fdSetPost = s.fdSetPost from rfl, hempty] at hx
    exact absurd hx (Finset.notMem_empty x)

/-- **The scan** finds the first of the posted events that are still to come. -/
theorem Kept.scan (h : s.Kept) (selected : Bool) (dispatched : ℕ) {n fd : ℕ}
    (hrange : ∀ d x, x ∈ s.fdSetPost d → fd ≤ x ∧ x < fd + n) :
    (∀ d, s.fdSetPost d = ∅) ∧
        s.scan selected dispatched n fd = .ok (s.note (.returned selected dispatched)) ∨
      ∃ dir x, x ∈ s.fdSetPost dir ∧ (∀ d y, y ∈ s.fdSetPost d → aioIx dir x ≤ aioIx d y) ∧
        s.scan selected dispatched n fd = .ok (s.dispatch dir x selected dispatched) := by
  induction n generalizing fd with
  | zero =>
      refine .inl ⟨fun d => Finset.eq_empty_of_forall_notMem fun x hx => ?_, rfl⟩
      have := hrange d x hx
      omega
  | succ n ih =>
      rw [AsyncIo.scan, h.isPosted, h.isPosted]
      by_cases hread : fd ∈ s.fdSetPost .read
      · refine .inr ⟨.read, fd, hread, fun d y hy => ?_, by rw [decide_eq_true hread]; rfl⟩
        have := (hrange d y hy).1
        cases d <;> simp only [aioIx] <;> omega
      by_cases hwrite : fd ∈ s.fdSetPost .write
      · refine .inr ⟨.write, fd, hwrite, fun d y hy => ?_, by
          rw [decide_eq_false hread, decide_eq_true hwrite]; rfl⟩
        have := (hrange d y hy).1
        cases d with
        | read =>
            have hne : y ≠ fd := fun heq => hread (heq ▸ hy)
            simp only [aioIx]
            omega
        | write =>
            simp only [aioIx]
            omega
      · have hrest : ∀ d x, x ∈ s.fdSetPost d → fd + 1 ≤ x ∧ x < fd + 1 + n := by
          intro d x hx
          have := hrange d x hx
          have hne : x ≠ fd := by
            rintro rfl
            cases d with
            | read => exact hread hx
            | write => exact hwrite hx
          omega
        rw [decide_eq_false hread, decide_eq_false hwrite]
        exact ih hrest

theorem Kept.scanFrom (h : s.Kept) {selected : Bool} {dispatched fd : ℕ}
    (hfrom : ∀ d x, x ∈ s.fdSetPost d → fd ≤ x)
    (hselected : dispatched = 0 → (∀ d, s.fdSetPost d = ∅) → selected = true)
    (hok : s.scanFrom selected dispatched fd = .ok t) : t.Tidy := by
  have hrange : ∀ d x, x ∈ s.fdSetPost d → fd ≤ x ∧ x < fd + (s.maxFd + 1 - fd).toNat := by
    intro d x hx
    obtain ⟨e, he⟩ := Option.isSome_iff_exists.mp (h.posted d x hx)
    have hle := (h.named d x e he).2.1
    have hge := hfrom d x hx
    omega
  rw [AsyncIo.scanFrom] at hok
  rcases h.scan selected dispatched hrange with ⟨hempty, hscan⟩ | ⟨dir, x, hx, hfirst, hscan⟩
  · obtain rfl := Except.ok.inj (hscan.symm.trans hok)
    exact h.returned hempty fun hn => hselected hn hempty
  · obtain rfl := Except.ok.inj (hscan.symm.trans hok)
    exact h.dispatch hx hfirst selected dispatched

/-- The counters say whether something is posted. -/
theorem Kept.idle_iff (h : s.Kept) : s.Idle ↔ ∀ d, s.fdSetPost d = ∅ := by
  simp only [Idle, h.counted, Int.natCast_eq_zero, Finset.card_eq_zero]
  constructor
  · rintro ⟨hread, hwrite⟩ d
    cases d with
    | read => exact hread
    | write => exact hwrite
  · exact fun hempty => ⟨hempty .read, hempty .write⟩

theorem Kept.osDoIo (h : s.Kept) {select : Except ℤ (Direction → Finset ℕ)}
    (hok : s.osDoIo select = .ok t) : t.Tidy := by
  have huse : { s with asyncIoInUse := true }.Kept :=
    { h with
      sized := h.sized.mono (Nat.le_refl _) fun _ _ hx => hx
      named := fun d x e he => ⟨(h.named d x e he).1, (h.named d x e he).2.1, rfl⟩ }
  simp only [AsyncIo.osDoIo] at hok
  split at hok
  · cases select with
    | error errno => cases hok
    | ok sel =>
        have hpost := huse.post sel
        dsimp only at hok
        split at hok
        · next hidle =>
            obtain rfl := Except.ok.inj hok
            exact hpost.returned (hpost.idle_iff.mp hidle) fun _ => rfl
        · exact hpost.scanFrom (fun _ _ _ => Nat.zero_le _) (fun _ _ => rfl) hok
  · next hidle =>
      refine huse.scanFrom (fun _ _ _ => Nat.zero_le _) (fun _ hempty => ?_) hok
      exact absurd (huse.idle_iff.mpr hempty) hidle

/-- A callback returns. -/
theorem Tidy.resume (h : s.Tidy) {call : DoIoCall} {calls : List DoIoCall}
    (hcalls : s.calls = call :: calls) (hok : { s with calls := calls }.resume call = .ok t) :
    t.Tidy := by
  have hpop : { s with calls := calls }.Kept :=
    { h with
      sized := h.sized.mono (Nat.le_refl _) fun _ _ hx => hx
      calling := fun c hc => h.calling c (hcalls ▸ List.mem_cons_of_mem _ hc) }
  have hahead : ∀ d x, x ∈ s.fdSetPost d → aioIx call.dir call.fd < aioIx d x := by
    intro d x hx
    obtain ⟨c, hc, hlt⟩ := h.ahead d x hx
    rw [hcalls] at hc
    obtain rfl := Option.some.inj hc
    exact hlt
  have hcount : call.dispatched ≠ 0 := by
    have := h.calling call (hcalls ▸ List.mem_cons_self)
    omega
  rw [AsyncIo.resume] at hok
  split at hok
  · next hdir =>
      rw [hpop.isPosted] at hok
      by_cases hwrite : call.fd ∈ s.fdSetPost .write
      · rw [decide_eq_true hwrite] at hok
        obtain rfl := Except.ok.inj hok
        refine hpop.dispatch hwrite (fun d x hx => ?_) call.selected call.dispatched
        have hlt := hahead d x hx
        rw [hdir] at hlt
        simp only [aioIx] at hlt ⊢
        omega
      · rw [decide_eq_false hwrite] at hok
        refine hpop.scanFrom (fun d x hx => ?_) (fun hn => absurd hn hcount) hok
        have hlt := hahead d x hx
        rw [hdir] at hlt
        cases d with
        | read =>
            simp only [aioIx] at hlt
            omega
        | write =>
            have hne : x ≠ call.fd := fun heq => hwrite (heq ▸ hx)
            simp only [aioIx] at hlt
            omega
  · next hdir =>
      refine hpop.scanFrom (fun d x hx => ?_) (fun hn => absurd hn hcount) hok
      have hlt := hahead d x hx
      rw [hdir] at hlt
      cases d <;> simp only [aioIx] at hlt <;> omega

/-! ### Runs -/

/-- A descriptor that is closed has no event posted. -/
def KeepsPosted (s : AsyncIo) : AsyncInput → Prop
  | .close fd => ¬s.Pending .read fd ∧ ¬s.Pending .write fd
  | .closeRead fd => ¬s.Pending .read fd
  | _ => True

instance (s : AsyncIo) : ∀ i, Decidable (s.KeepsPosted i)
  | .close _ => inferInstanceAs (Decidable (_ ∧ _))
  | .closeRead _ => inferInstanceAs (Decidable (¬_))
  | .asyncReadStdin _ => .isTrue trivial
  | .async .. => .isTrue trivial
  | .doIo _ => .isTrue trivial
  | .callbackReturns => .isTrue trivial

/-- **One step.** -/
theorem Tidy.step (h : s.Tidy) {i : AsyncInput} (hkeeps : s.KeepsPosted i)
    (hstep : AsyncSteps s i t) : t.Tidy := by
  have hsize (fd : ℕ) : 0 < (s.useFd fd).asyncIoTableSize :=
    Nat.lt_of_lt_of_le (by decide) h.sized.size
  have hmax (fd : ℕ) : (fd : ℤ) ≤ (s.useFd fd).maxFd := by
    simp only [AsyncIo.useFd]
    split <;> omega
  cases i with
  | asyncReadStdin a =>
      have hok := Option.some.inj hstep
      have hix : aioIx .read 0 < (s.useFd 0).asyncIoTableSize := hsize 0
      exact (h.useFd 0).register rfl (hmax 0) hix hok
  | async dir fd a =>
      obtain ⟨u, hgrow, hix, hgrown⟩ := growFor_spec (hsize fd) (aioIx dir fd)
      simp only [AsyncSteps, AsyncIo.step, osAsync, hgrow, Option.map_some,
        Option.some.injEq] at hstep
      have huse : u.asyncIoInUse = true := by rw [hgrown.eq]; rfl
      have hle : (fd : ℤ) ≤ u.maxFd := by rw [hgrown.eq]; exact hmax fd
      exact ((h.useFd fd).grow hgrown).register huse hle hix hstep
  | close fd => exact h.osClose hkeeps.1 hkeeps.2 (Option.some.inj hstep)
  | closeRead fd => exact h.osCloseRead hkeeps (Option.some.inj hstep)
  | doIo select => exact h.toKept.osDoIo (Option.some.inj hstep)
  | callbackReturns =>
      rw [AsyncSteps, AsyncIo.step] at hstep
      split at hstep
      · cases hstep
      · next call calls hcalls => exact h.resume hcalls (Option.some.inj hstep)

/-- What is exact about a state that a run has reached. -/
structure Exact (s : AsyncIo) : Prop where
  counted : ∀ dir,
    s.numPosted dir = ((s.fdSetPost dir).filter fun fd => (s.op dir fd).isSome = true).card
  selects : ∀ selected, .returned selected 0 ∈ s.log → selected = true
  lives : ∀ dir fd, ∃ l, exec (Lifecycle.next dir fd) .idle s.log = some l ∧
    ((∃ selected n, s.log.getLast? = some (.returned selected n)) ∨ s.calls = [] →
      ∀ op, l ≠ .reported op)

theorem Tidy.exact (h : s.Tidy) : s.Exact where
  counted dir := by
    rw [h.counted, Finset.filter_true_of_mem fun fd => h.posted dir fd]
  selects := h.selects
  lives dir fd := by
    refine ⟨_, h.history dir fd, fun hend => ?_⟩
    have hempty : s.fdSetPost dir = ∅ := by
      rcases hend with ⟨selected, n, hlast⟩ | hcalls
      · exact h.settled selected n hlast dir
      · refine Finset.eq_empty_of_forall_notMem fun x hx => ?_
        obtain ⟨call, hcall, -⟩ := h.ahead dir x hx
        rw [hcalls] at hcall
        exact nomatch hcall
    intro op
    rw [lifecycle, hempty]
    split <;> simp

end AsyncIo

/-- **The counters of posted events are exact** in every run in which no descriptor is closed
whose event is posted. So an `OS_DoIo` without a callback has called `select`; an operation
is dispatched after it is reported, once, and not after its descriptor is closed; and when
`OS_DoIo` returns, what was reported has been dispatched. -/
theorem postedEvents_exact {is : List AsyncInput} {s : AsyncIo}
    (hrun : Runs (Guarded AsyncIo.KeepsPosted AsyncSteps) osLibInit is s) : s.Exact :=
  (hrun.invariant (fun _ _ _ h hstep => h.step hstep.1 hstep.2) AsyncIo.tidy_osLibInit).exact

/-- A read and a write of descriptor 3, both reported and dispatched; then it is closed. -/
theorem postedEvents_exact_readWrite :
    ∃ s, Runs (Guarded AsyncIo.KeepsPosted AsyncSteps) osLibInit
        [.async .read 3 ⟨0, 0, 8, 1, 0⟩, .async .write 3 ⟨0, 0, 8, 1, 0⟩,
          .doIo (.ok fun _ => {3}), .callbackReturns, .callbackReturns, .close 3] s ∧
      s.log.length = 7 ∧ s.Exact :=
  have hrun : Runs (Guarded AsyncIo.KeepsPosted AsyncSteps) osLibInit
      [.async .read 3 ⟨0, 0, 8, 1, 0⟩, .async .write 3 ⟨0, 0, 8, 1, 0⟩,
        .doIo (.ok fun _ => {3}), .callbackReturns, .callbackReturns, .close 3] _ :=
    .of_exec_guardStep (fun _ _ _ => asyncSteps_of_asyncStep) rfl
  ⟨_, hrun, rfl, postedEvents_exact hrun⟩

/-- Two reads are reported, and the callback of the first closes the descriptor of the
second: nothing is posted, the counter is 1, and `OS_DoIo` returns without `select`. -/
theorem postedEvents_inexact :
    ∃ s, Runs AsyncSteps osLibInit
        [.async .read 3 ⟨0, 0, 8, 1, 0⟩, .async .read 4 ⟨0, 0, 8, 1, 0⟩,
          .doIo (.ok fun _ => {3, 4}), .close 4, .callbackReturns, .doIo (.ok fun _ => ∅)] s ∧
      s.log.getLast? = some (.returned false 0) ∧ s.numPosted .read = 1 ∧
      ((s.fdSetPost .read).filter fun fd => (s.op .read fd).isSome = true).card = 0 :=
  ⟨_, .of_exec (fun _ _ _ => asyncSteps_of_asyncStep) rfl, rfl, rfl, rfl⟩

end FastCgi.OsUnix
