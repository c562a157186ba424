import Mathlib.Order.Basic

/-!
Loops with a fuel bound, and the one rule by which they are proved.

A loop of an imperative program is a *body* that either goes round again
with a new state or leaves the loop with a result; a body that itself
fails to return is `none`. `run` executes the body at most `fuel` times.
The rule `run_total` asks for an invariant and a variant: it gives
termination and partial correctness together, and says which amounts of
fuel are enough, so that a caller never has to compare two fuels.
-/

namespace BoundedLoop

/-- What one execution of a loop body ends with. -/
inductive Pass (σ ρ : Type*) where
  | again (s : σ)
  | done (r : ρ)

variable {σ ρ : Type*}

/-- At most `fuel` executions of `body`; `none` when they are not enough. -/
def run (body : σ → Option (Pass σ ρ)) : ℕ → σ → Option ρ
  | 0, _ => none
  | fuel + 1, s =>
      match body s with
      | none => none
      | some (.again s') => run body fuel s'
      | some (.done r) => some r

theorem run_again {body : σ → Option (Pass σ ρ)} {fuel : ℕ} {s s' : σ}
    (h : body s = some (.again s')) : run body (fuel + 1) s = run body fuel s' := by
  simp only [run, h]

theorem run_done {body : σ → Option (Pass σ ρ)} {fuel : ℕ} {s : σ} {r : ρ}
    (h : body s = some (.done r)) : run body (fuel + 1) s = some r := by
  simp only [run, h]

/-- **The loop rule**, with a variant that is part of the invariant: under `I n` every pass
either leaves the loop with `P` or goes round again with `I m` for a smaller `m`; then every
fuel above `n` leaves the loop with `P`. -/
theorem run_total_measured {body : σ → Option (Pass σ ρ)} (I : ℕ → σ → Prop) (P : ρ → Prop)
    (hstep : ∀ n s, I n s →
      (∃ r, body s = some (.done r) ∧ P r) ∨
        ∃ s' m, body s = some (.again s') ∧ I m s' ∧ m < n)
    {fuel n : ℕ} {s : σ} (hI : I n s) (hfuel : n < fuel) :
    ∃ r, run body fuel s = some r ∧ P r := by
  induction fuel generalizing n s with
  | zero => omega
  | succ fuel ih =>
      rcases hstep n s hI with ⟨r, hr, hP⟩ | ⟨s', m, hs', hI', hm⟩
      · exact ⟨r, run_done hr, hP⟩
      · rw [run_again hs']
        exact ih hI' (by omega)

/-- **The loop rule.** Under the invariant `I` every pass either leaves
the loop with `P` or goes round again with `I` and a smaller variant `μ`;
then every fuel above the variant leaves the loop with `P`. -/
theorem run_total {body : σ → Option (Pass σ ρ)} (I : σ → Prop) (P : ρ → Prop) (μ : σ → ℕ)
    (hstep : ∀ s, I s →
      (∃ r, body s = some (.done r) ∧ P r) ∨
        ∃ s', body s = some (.again s') ∧ I s' ∧ μ s' < μ s)
    {fuel : ℕ} {s : σ} (hI : I s) (hfuel : μ s < fuel) :
    ∃ r, run body fuel s = some r ∧ P r := by
  refine run_total_measured (fun n s => I s ∧ μ s = n) P ?_ ⟨hI, rfl⟩ hfuel
  rintro n s ⟨hI, rfl⟩
  rcases hstep s hI with hdone | ⟨s', hs', hI', hμ⟩
  · exact .inl hdone
  · exact .inr ⟨s', μ s', hs', ⟨hI', rfl⟩, hμ⟩

/-- What a pass ends with: `I` where the loop goes round again, `P` where it is left. -/
def Pass.Holds (I : σ → Prop) (P : ρ → Prop) : Pass σ ρ → Prop
  | .again s => I s
  | .done r => P r

/-- **The loop rule without a variant.** What every pass that returns keeps holds
wherever the loop is left. -/
theorem run_invariant {body : σ → Option (Pass σ ρ)} {I : σ → Prop} {P : ρ → Prop}
    (hstep : ∀ s p, I s → body s = some p → p.Holds I P) {fuel : ℕ} {s : σ} {r : ρ} (hI : I s)
    (h : run body fuel s = some r) : P r := by
  induction fuel generalizing s with
  | zero => exact nomatch h
  | succ fuel ih =>
      cases hbody : body s with
      | none =>
          simp only [run, hbody] at h
          exact nomatch h
      | some p =>
          have hpass := hstep s p hI hbody
          cases p with
          | again s' =>
              rw [run_again hbody] at h
              exact ih hpass h
          | done r' =>
              rw [run_done hbody] at h
              obtain rfl := Option.some.inj h
              exact hpass

/-! ### Two loops that go together -/

variable {ρ' : Type*}

/-- The pass of a loop whose result is read through `f`. -/
def Pass.map (f : ρ → ρ') : Pass σ ρ → Pass σ ρ'
  | .again s => .again s
  | .done r => .done (f r)

variable {σ' : Type*}

/-- The pass of a loop whose states and results are read through `g` and `f`. -/
def Pass.bimap (g : σ → σ') (f : ρ → ρ') : Pass σ ρ → Pass σ' ρ'
  | .again s => .again (g s)
  | .done r => .done (f r)

/-- **A loop read through `g` and `f`**: where the bodies commute with them, the runs do. -/
theorem run_bimap {body : σ → Option (Pass σ ρ)} {body' : σ' → Option (Pass σ' ρ')}
    {I : σ → Prop} (g : σ → σ') (f : ρ → ρ')
    (hbody : ∀ s, I s → body' (g s) = (body s).map (Pass.bimap g f))
    (hstep : ∀ s s', I s → body s = some (.again s') → I s') {fuel : ℕ} {s : σ} (hI : I s) :
    run body' fuel (g s) = (run body fuel s).map f := by
  induction fuel generalizing s with
  | zero => rfl
  | succ fuel ih =>
      have hs := hbody s hI
      cases hpass : body s with
      | none =>
          rw [hpass] at hs
          simp only [run, hpass, hs, Option.map_none]
      | some p =>
          rw [hpass] at hs
          cases p with
          | again s' =>
              rw [run_again hpass, run_again hs]
              exact ih (hstep s s' hI hpass)
          | done r =>
              rw [run_done hpass, run_done hs]
              rfl

/-- **Two bodies that agree where the invariant holds** run alike. -/
theorem run_map {body : σ → Option (Pass σ ρ)} {body' : σ → Option (Pass σ ρ')} {I : σ → Prop}
    (f : ρ → ρ') (hbody : ∀ s, I s → body' s = (body s).map (Pass.map f))
    (hstep : ∀ s s', I s → body s = some (.again s') → I s') {fuel : ℕ} {s : σ} (hI : I s) :
    run body' fuel s = (run body fuel s).map f := by
  refine run_bimap id f (fun s hs => (hbody s hs).trans ?_) hstep hI
  congr 1

/-- Two passes that end alike: with states that `R` relates, or with results that `Q` relates. -/
def Pass.Rel (R : σ → σ' → Prop) (Q : ρ → ρ' → Prop) : Pass σ ρ → Pass σ' ρ' → Prop
  | .again s, .again s' => R s s'
  | .done r, .done r' => Q r r'
  | _, _ => False

theorem Pass.rel_bimap (g : σ → σ') (f : ρ → ρ') (p : Pass σ ρ) :
    p.Rel (fun s s' => s' = g s) (fun r r' => r' = f r) (p.bimap g f) := by
  cases p <;> rfl

/-- **Two loops in lockstep.** Where related states have related passes, the runs from related
states end with related results. -/
theorem run_rel {body : σ → Option (Pass σ ρ)} {body' : σ' → Option (Pass σ' ρ')}
    {R : σ → σ' → Prop} {Q : ρ → ρ' → Prop}
    (hbody : ∀ s s' p, R s s' → body s = some p → ∃ p', body' s' = some p' ∧ p.Rel R Q p')
    {fuel : ℕ} {s : σ} {s' : σ'} {r : ρ} (hR : R s s') (h : run body fuel s = some r) :
    ∃ r', run body' fuel s' = some r' ∧ Q r r' := by
  induction fuel generalizing s s' with
  | zero => exact nomatch h
  | succ fuel ih =>
      cases hpass : body s with
      | none =>
          simp only [run, hpass] at h
          exact nomatch h
      | some p =>
          obtain ⟨p', hpass', hrel⟩ := hbody s s' p hR hpass
          cases p with
          | again t =>
              cases p' with
              | again t' =>
                  rw [run_again hpass] at h
                  rw [run_again hpass']
                  exact ih hrel h
              | done r' => exact nomatch hrel
          | done r₀ =>
              cases p' with
              | again t' => exact nomatch hrel
              | done r' =>
                  rw [run_done hpass] at h
                  obtain rfl := Option.some.inj h
                  exact ⟨r', run_done hpass', hrel⟩

end BoundedLoop
