import Mathlib.Tactic.Common

/-!
Actions that can fail, one after the other.

An action returns whether it succeeded, and the state after it in either
case; `none` is an action that does not return. `attempt` takes the actions
of a list in turn and stops at the first that fails.

A machine may put off what its actions do to the state below it. What that
state is once everything put off has been done is `settle`. If an action
changes it as the direct action does, and one that fails leaves it where the
direct action failed, so does every list of actions (`Defers.attempt`).
-/

namespace Attempts

variable {α σ τ : Type*}

/-- What comes after an action: `f` if it succeeded. -/
def andThen (f : τ → Option (Bool × τ)) (r : Bool × τ) : Option (Bool × τ) :=
  if r.1 then f r.2 else some r

@[simp] theorem andThen_true (f : τ → Option (Bool × τ)) (t : τ) : andThen f (true, t) = f t := rfl

@[simp] theorem andThen_false (f : τ → Option (Bool × τ)) (t : τ) :
    andThen f (false, t) = some (false, t) := rfl

/-- The actions in turn, up to the first that fails; `false` if one did. -/
def attempt (act : α → σ → Option (Bool × σ)) : List α → σ → Option (Bool × σ)
  | [], s => some (true, s)
  | a :: as, s => (act a s).bind (andThen (attempt act as))

theorem bind_andThen_assoc (x : Option (Bool × τ)) (f g : τ → Option (Bool × τ)) :
    (x.bind (andThen f)).bind (andThen g) = x.bind (andThen fun t => (f t).bind (andThen g)) := by
  rcases x with _ | ⟨_ | _, t⟩
  · rfl
  · rfl
  · rfl

theorem bind_attempt_nil (act : α → τ → Option (Bool × τ)) (x : Option (Bool × τ)) :
    x.bind (andThen (attempt act [])) = x := by
  rcases x with _ | ⟨_ | _, t⟩
  · rfl
  · rfl
  · rfl

theorem bind_attempt_cons (act : α → τ → Option (Bool × τ)) (a : α) (as : List α)
    (x : Option (Bool × τ)) :
    x.bind (andThen (attempt act (a :: as))) =
      (x.bind (andThen (act a))).bind (andThen (attempt act as)) := by
  rw [bind_andThen_assoc]
  rfl

/-- An action in `s` that returns `ok` and `s'` is the direct action `f`, put off. It keeps `I`;
if it fails, nothing of it has been put off, and `Broken` holds. -/
structure Defers (settle : σ → Option (Bool × τ)) (below : σ → τ) (I Broken : σ → Prop)
    (f : τ → Option (Bool × τ)) (s : σ) (ok : Bool) (s' : σ) : Prop where
  settles : (settle s).bind (andThen f) = if ok then settle s' else some (false, below s')
  keeps : ok = true → I s'
  breaks : ok = false → Broken s'

variable {settle : σ → Option (Bool × τ)} {below : σ → τ} {I Broken : σ → Prop}

/-- **The rule for actions that are put off.** -/
theorem Defers.attempt {act : α → σ → Option (Bool × σ)} {direct : α → τ → Option (Bool × τ)}
    {as : List α}
    (hstep : ∀ a ∈ as, ∀ s, I s →
      ∃ ok s', act a s = some (ok, s') ∧ Defers settle below I Broken (direct a) s ok s')
    {s : σ} (hs : I s) :
    ∃ ok s', Attempts.attempt act as s = some (ok, s') ∧
      Defers settle below I Broken (Attempts.attempt direct as) s ok s' := by
  induction as generalizing s with
  | nil => exact ⟨true, s, rfl, bind_attempt_nil direct _, fun _ => hs, fun hok => by cases hok⟩
  | cons a as ih =>
      obtain ⟨ok, t, hact, hfirst⟩ := hstep a List.mem_cons_self s hs
      rw [Attempts.attempt, hact, Option.bind_some]
      cases ok with
      | false =>
          refine ⟨false, t, rfl, ?_, (fun hok => by cases hok), hfirst.breaks⟩
          rw [bind_attempt_cons, hfirst.settles]
          rfl
      | true =>
          obtain ⟨ok, u, hrest, hlast⟩ :=
            ih (fun b hb => hstep b (List.mem_cons_of_mem a hb)) (hfirst.keeps rfl)
          refine ⟨ok, u, hrest, ?_, hlast.keeps, hlast.breaks⟩
          rw [bind_attempt_cons, hfirst.settles, if_pos rfl]
          exact hlast.settles

end Attempts
