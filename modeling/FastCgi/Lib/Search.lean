import Mathlib.Data.List.Infix
import Mathlib.Tactic.Common

/-!
The first occurrence of one list in another, as a search from the front
finds it.

Where a text is made of pieces with elements between them that the pattern
does not have, an occurrence lies in one piece, and the first one is the
first one of the first piece that has any.
-/

namespace Search

variable {α : Type*} {pat text rest : List α} {a : α}

/-- The text does not go on with an element of the pattern. -/
def Barrier (pat rest : List α) : Prop := ∀ a, rest.head? = some a → a ∉ pat

/-- An occurrence does not reach over a barrier. -/
theorem prefix_append_iff (h : Barrier pat rest) : pat <+: text ++ rest ↔ pat <+: text := by
  constructor
  · intro hfront
    rcases List.prefix_or_prefix_of_prefix hfront (List.prefix_append text rest) with hle | hge
    · exact hle
    · obtain ⟨past, rfl⟩ := hge
      have hover : past <+: rest := (List.prefix_append_right_inj text).mp hfront
      cases past with
      | nil => simp
      | cons a past =>
          obtain ⟨tail, rfl⟩ := hover
          exact absurd (by simp) (h a rfl)
  · exact fun hfront => hfront.trans (List.prefix_append text rest)

variable [DecidableEq α]

/-- Where `pat` occurs first in the text. -/
def firstAt (pat : List α) : List α → Option ℕ
  | [] => if pat = [] then some 0 else none
  | a :: text => if pat <+: a :: text then some 0 else (firstAt pat text).map (· + 1)

theorem firstAt_eq_none_iff : firstAt pat text = none ↔ ¬pat <:+: text := by
  induction text with
  | nil => simp [firstAt]
  | cons a text ih =>
      rw [firstAt, List.infix_cons_iff]
      split
      · next h => simp [h]
      · next h => simp [h, ih]

theorem prefix_drop_of_firstAt {p : ℕ} (h : firstAt pat text = some p) :
    pat <+: text.drop p := by
  induction text generalizing p with
  | nil =>
      rw [firstAt] at h
      split at h
      · next hnil => simp [hnil]
      · cases h
  | cons a text ih =>
      rw [firstAt] at h
      split at h
      · next hfront =>
          cases h
          exact hfront
      · obtain ⟨q, hq, rfl⟩ := Option.map_eq_some_iff.mp h
        exact ih hq

theorem firstAt_self_append (h : pat ≠ []) (rest : List α) :
    firstAt pat (pat ++ rest) = some 0 := by
  cases pat with
  | nil => exact absurd rfl h
  | cons a pat =>
      rw [List.cons_append, firstAt]
      exact if_pos (List.prefix_append (a :: pat) rest)

theorem firstAt_cons_of_notMem (hne : pat ≠ []) (ha : a ∉ pat) :
    firstAt pat (a :: text) = (firstAt pat text).map (· + 1) := by
  rw [firstAt, if_neg]
  intro hfront
  cases pat with
  | nil => exact hne rfl
  | cons b pat =>
      obtain ⟨rfl, -⟩ := List.cons_prefix_cons.mp hfront
      exact ha List.mem_cons_self

/-- The first occurrence is the first one of the piece, or it is behind the piece. -/
theorem firstAt_append (hne : pat ≠ []) (h : Barrier pat rest) :
    firstAt pat (text ++ rest) =
      (firstAt pat text).or ((firstAt pat rest).map (· + text.length)) := by
  induction text with
  | nil => simp [firstAt, hne]
  | cons a text ih =>
      rw [List.cons_append, firstAt, firstAt, ← List.cons_append]
      simp only [prefix_append_iff h]
      split
      · rfl
      · rw [ih]
        cases firstAt pat text <;> simp [Function.comp_def, Nat.add_assoc]

end Search
