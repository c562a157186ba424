import Mathlib.Tactic.Common

/-!
Runs of a transition system that is driven by inputs.

`Runs step s is s'` says that the inputs `is` take `s` to `s'`. A property
of all the states of a run is an invariant: it holds at the start and every
step keeps it (`Runs.invariant`). Where only some steps keep it, the runs
whose steps are all of that kind are runs of a smaller relation
(`Guarded`), so the same rule covers them.
-/

namespace Machine

variable {σ ι : Type*}

/-- The inputs `is` take `s` to `s'`. -/
inductive Runs (step : σ → ι → σ → Prop) : σ → List ι → σ → Prop
  | nil {s : σ} : Runs step s [] s
  | cons {s t u : σ} {i : ι} {is : List ι} (h : step s i t) (ht : Runs step t is u) :
      Runs step s (i :: is) u

/-- The steps that are taken in a state and with an input that meet `good`. -/
def Guarded (good : σ → ι → Prop) (step : σ → ι → σ → Prop) : σ → ι → σ → Prop :=
  fun s i t => good s i ∧ step s i t

variable {step : σ → ι → σ → Prop} {s t u : σ} {is js : List ι}

theorem Runs.single {i : ι} (h : step s i t) : Runs step s [i] t := .cons h .nil

theorem Runs.append (h : Runs step s is t) (h' : Runs step t js u) :
    Runs step s (is ++ js) u := by
  induction h with
  | nil => exact h'
  | cons h _ ih => exact .cons h (ih h')

/-- **The rule for runs.** What every step keeps, a run keeps. -/
theorem Runs.invariant {I : σ → Prop} (hstep : ∀ s i t, I s → step s i t → I t) (hs : I s)
    (h : Runs step s is t) : I t := by
  induction h with
  | nil => exact hs
  | cons h _ ih => exact ih (hstep _ _ _ hs h)

/-- A run of a relation is a run of every larger one. -/
theorem Runs.mono {step' : σ → ι → σ → Prop} (hle : ∀ s i t, step s i t → step' s i t)
    (h : Runs step s is t) : Runs step' s is t := by
  induction h with
  | nil => exact .nil
  | cons h _ ih => exact .cons (hle _ _ _ h) ih

/-- **The rule for two machines.** Where every step of one is followed by a step of the other,
on inputs that `S` relates, between states that `R` relates, every run is followed by a run. -/
theorem Runs.simulates {σ' ι' : Type*} {step' : σ' → ι' → σ' → Prop} {R : σ → σ' → Prop}
    {S : ι → ι' → Prop}
    (hstep : ∀ s s' i i' t, R s s' → S i i' → step s i t → ∃ t', step' s' i' t' ∧ R t t')
    {s' : σ'} {is' : List ι'} (hs : R s s') (his : List.Forall₂ S is is') (h : Runs step s is t) :
    ∃ t', Runs step' s' is' t' ∧ R t t' := by
  induction h generalizing s' is' with
  | nil =>
      cases his
      exact ⟨s', .nil, hs⟩
  | cons h _ ih =>
      cases his with
      | cons hi hrest =>
          obtain ⟨u', hu, hR⟩ := hstep _ _ _ _ _ hs hi h
          obtain ⟨t', ht, hend⟩ := ih hR hrest
          exact ⟨t', .cons hu ht, hend⟩

/-- A machine whose steps are determined has one run on each sequence of inputs. -/
theorem Runs.unique (hdet : ∀ s i t u, step s i t → step s i u → t = u)
    (h : Runs step s is t) (h' : Runs step s is u) : t = u := by
  induction h with
  | nil =>
      cases h'
      rfl
  | cons h _ ih =>
      cases h' with
      | cons h₂ hrest =>
          obtain rfl := hdet _ _ _ _ h h₂
          exact ih hrest

/-- **The runs that stay in `P`.** Where a step out of `P` ends in `P` exactly if `good` allows
it, they are the runs whose steps are all allowed. -/
theorem Runs.guarded_iff {I P : σ → Prop} {good : σ → ι → Prop}
    (hdet : ∀ s i t u, step s i t → step s i u → t = u)
    (hinv : ∀ s i t, I s → step s i t → I t)
    (hgood : ∀ s i t, I s → P s → step s i t → (P t ↔ good s i)) (hs : I s) (hP : P s)
    (h : Runs step s is t) :
    (∀ js u, js <+: is → Runs step s js u → P u) ↔ Runs (Guarded good step) s is t := by
  induction h with
  | nil =>
      refine ⟨fun _ => .nil, fun _ js u hjs hu => ?_⟩
      obtain rfl := List.prefix_nil.mp hjs
      cases hu
      exact hP
  | @cons s t u i is hstep _ ih =>
      have hinvt := hinv s i t hs hstep
      constructor
      · intro hall
        have hPt : P t := hall [i] t ⟨is, rfl⟩ (.single hstep)
        refine .cons ⟨(hgood s i t hs hP hstep).mp hPt, hstep⟩ ?_
        refine (ih hinvt hPt).mp fun js v hjs hv => ?_
        exact hall (i :: js) v (List.cons_prefix_cons.mpr ⟨rfl, hjs⟩) (.cons hstep hv)
      · rintro (_ | ⟨⟨hallowed, hstep'⟩, hrest⟩) js v hjs hv
        obtain rfl := hdet s i _ _ hstep hstep'
        have hPt := (hgood s i _ hs hP hstep).mpr hallowed
        cases hv with
        | nil => exact hP
        | cons hfirst hv =>
            obtain ⟨rfl, htail⟩ := List.cons_prefix_cons.mp hjs
            obtain rfl := hdet s _ _ _ hstep hfirst
            exact (ih hinvt hPt).mpr hrest _ v htail hv

/-- The run of a machine whose steps are a partial function, if it gets to the end. -/
def exec (step : σ → ι → Option σ) : σ → List ι → Option σ
  | s, [] => some s
  | s, i :: is => (step s i).bind fun t => exec step t is

theorem exec_concat (step : σ → ι → Option σ) (s : σ) (is : List ι) (i : ι) :
    exec step s (is ++ [i]) = (exec step s is).bind fun t => step t i := by
  induction is generalizing s with
  | nil => cases h : step s i <;> simp [exec, h]
  | cons j is ih =>
      cases h : step s j with
      | none => simp [exec, h]
      | some u => simpa [exec, h] using ih u

/-- A step of `f` that is refused where `good` does not hold. -/
def guardStep (good : σ → ι → Prop) [∀ s i, Decidable (good s i)] (f : σ → ι → Option σ) (s : σ)
    (i : ι) : Option σ := if good s i then f s i else none

theorem Runs.of_exec {f : σ → ι → Option σ} (hf : ∀ s i t, f s i = some t → step s i t)
    (h : exec f s is = some t) : Runs step s is t := by
  induction is generalizing s with
  | nil =>
      obtain rfl := Option.some.inj h
      exact .nil
  | cons i is ih =>
      obtain ⟨u, hu, h⟩ := Option.bind_eq_some_iff.mp h
      exact .cons (hf s i u hu) (ih h)

/-- A run whose steps are checked one by one is a run of guarded steps. -/
theorem Runs.of_exec_guardStep {good : σ → ι → Prop} [∀ s i, Decidable (good s i)]
    {f : σ → ι → Option σ} (hf : ∀ s i t, f s i = some t → step s i t)
    (h : exec (guardStep good f) s is = some t) : Runs (Guarded good step) s is t := by
  refine .of_exec (fun s i t hstep => ?_) h
  rw [guardStep] at hstep
  split at hstep
  · exact ⟨‹_›, hf s i t hstep⟩
  · exact nomatch hstep

end Machine
