import Mathlib.Data.List.Infix

/-!
Lines of a list, of a bounded length.

`takeLine p m xs` is the first line of `xs`: up to the first element that
meets `p`, which is part of it, and at most `m` elements. `cut p m xs` are
all the lines, one behind the other. They are those pieces of `xs` of at
most `m` elements that go on as long as they can (`Broken`).
-/

namespace Lines

variable {α : Type*} {p : α → Bool} {m : ℕ} {xs : List α}

/-- The first line. -/
def takeLine (p : α → Bool) : ℕ → List α → List α
  | 0, _ => []
  | _ + 1, [] => []
  | m + 1, x :: xs => if p x then [x] else x :: takeLine p m xs

@[simp] theorem takeLine_nil (p : α → Bool) (m : ℕ) : takeLine p m [] = [] := by
  cases m with
  | zero => rfl
  | succ m => rfl

theorem takeLine_prefix (p : α → Bool) (m : ℕ) (xs : List α) : takeLine p m xs <+: xs := by
  induction m generalizing xs with
  | zero => exact List.nil_prefix
  | succ m ih =>
      cases xs with
      | nil => exact List.nil_prefix
      | cons x xs =>
          rw [takeLine]
          split
          · exact ⟨xs, rfl⟩
          · exact List.cons_prefix_cons.mpr ⟨rfl, ih xs⟩

theorem takeLine_append_drop (p : α → Bool) (m : ℕ) (xs : List α) :
    takeLine p m xs ++ xs.drop (takeLine p m xs).length = xs := by
  obtain ⟨ys, hys⟩ := takeLine_prefix p m xs
  calc takeLine p m xs ++ xs.drop (takeLine p m xs).length
      = takeLine p m xs ++ (takeLine p m xs ++ ys).drop (takeLine p m xs).length := by rw [hys]
    _ = xs := by rw [List.drop_left, hys]

theorem takeLine_length_le (p : α → Bool) (m : ℕ) (xs : List α) :
    (takeLine p m xs).length ≤ m := by
  induction m generalizing xs with
  | zero => exact Nat.le_refl 0
  | succ m ih =>
      cases xs with
      | nil => exact Nat.zero_le _
      | cons x xs =>
          rw [takeLine]
          split
          · exact Nat.succ_le_succ (Nat.zero_le m)
          · exact Nat.succ_le_succ (ih xs)

theorem takeLine_eq_nil_iff : takeLine p m xs = [] ↔ m = 0 ∨ xs = [] := by
  cases m with
  | zero => simp [takeLine]
  | succ m =>
      cases xs with
      | nil => simp
      | cons x xs =>
          rw [takeLine]
          split
          · simp
          · simp

theorem takeLine_length_pos (hm : 0 < m) (hxs : xs ≠ []) : 0 < (takeLine p m xs).length := by
  rw [List.length_pos_iff, Ne, takeLine_eq_nil_iff]
  rintro (hzero | hnil)
  · omega
  · exact hxs hnil

/-- A line of at most `m` elements. -/
structure IsLine (p : α → Bool) (m : ℕ) (line : List α) : Prop where
  ne_nil : line ≠ []
  length_le : line.length ≤ m
  /-- No element but the last meets `p`. -/
  inside : ∀ x ∈ line.dropLast, p x = false

/-- A line that another one follows. -/
structure Broken (p : α → Bool) (m : ℕ) (line : List α) : Prop extends IsLine p m line where
  /-- It is full, or its last element meets `p`. -/
  ends : line.length = m ∨ ∃ x, line.getLast? = some x ∧ p x = true

theorem takeLine_inside (p : α → Bool) (m : ℕ) (xs : List α) :
    ∀ x ∈ (takeLine p m xs).dropLast, p x = false := by
  induction m generalizing xs with
  | zero => exact fun x hx => absurd hx List.not_mem_nil
  | succ m ih =>
      cases xs with
      | nil => exact fun x hx => absurd hx List.not_mem_nil
      | cons x xs =>
          rw [takeLine]
          split
          · exact fun y hy => absurd hy List.not_mem_nil
          · next hx =>
              intro y hy
              by_cases hnil : takeLine p m xs = []
              · rw [hnil] at hy
                exact absurd hy List.not_mem_nil
              · rw [List.dropLast_cons_of_ne_nil hnil, List.mem_cons] at hy
                rcases hy with rfl | hy
                · exact Bool.eq_false_iff.mpr hx
                · exact ih xs y hy

theorem isLine_takeLine (hm : 0 < m) (hxs : xs ≠ []) : IsLine p m (takeLine p m xs) where
  ne_nil := List.length_pos_iff.mp (takeLine_length_pos hm hxs)
  length_le := takeLine_length_le p m xs
  inside := takeLine_inside p m xs

/-- The first line goes on as long as it can. -/
theorem takeLine_ends (p : α → Bool) (m : ℕ) (xs : List α) :
    (takeLine p m xs).length = m ∨ (∃ x, (takeLine p m xs).getLast? = some x ∧ p x = true) ∨
      takeLine p m xs = xs := by
  induction m generalizing xs with
  | zero => exact .inl rfl
  | succ m ih =>
      cases xs with
      | nil => exact .inr (.inr rfl)
      | cons x xs =>
          rw [takeLine]
          split
          · next hx => exact .inr (.inl ⟨x, rfl, hx⟩)
          · rcases ih xs with hlen | ⟨y, hlast, hy⟩ | hall
            · exact .inl (congrArg Nat.succ hlen)
            · exact .inr (.inl ⟨y, by rw [List.getLast?_cons, hlast]; rfl, hy⟩)
            · exact .inr (.inr (congrArg (List.cons x) hall))

/-- All the lines. -/
def cut (p : α → Bool) (m : ℕ) (xs : List α) : List (List α) :=
  if _h : 0 < m ∧ xs ≠ [] then
    takeLine p m xs :: cut p m (xs.drop (takeLine p m xs).length)
  else []
termination_by xs.length
decreasing_by
  have hlen := takeLine_length_pos (p := p) _h.1 _h.2
  have hpos := List.length_pos_iff.mpr _h.2
  rw [List.length_drop]
  omega

theorem cut_nil (p : α → Bool) (m : ℕ) : cut p m [] = [] := by
  rw [cut, dif_neg (by simp)]

theorem cut_of_ne_nil (hm : 0 < m) (hxs : xs ≠ []) :
    cut p m xs = takeLine p m xs :: cut p m (xs.drop (takeLine p m xs).length) := by
  rw [cut, dif_pos ⟨hm, hxs⟩]

/-- **The rule for lines**, which are taken off the front one by one. -/
theorem lines_induction {P : List α → Prop} (p : α → Bool) (hm : 0 < m) (hnil : P [])
    (hline : ∀ xs, xs ≠ [] → P (xs.drop (takeLine p m xs).length) → P xs) (xs : List α) : P xs := by
  induction hn : xs.length using Nat.strong_induction_on generalizing xs with
  | _ n ih =>
      by_cases hxs : xs = []
      · rw [hxs]
        exact hnil
      · apply hline xs hxs
        have hlen := takeLine_length_pos (p := p) hm hxs
        have hpos := List.length_pos_iff.mpr hxs
        apply ih _ _ _ rfl
        rw [List.length_drop]
        omega

/-- **Nothing is lost** between two lines. -/
theorem flatten_cut (hm : 0 < m) (xs : List α) : (cut p m xs).flatten = xs := by
  induction xs using lines_induction p hm with
  | hnil => rw [cut_nil, List.flatten_nil]
  | hline xs hxs ih => rw [cut_of_ne_nil hm hxs, List.flatten_cons, ih, takeLine_append_drop]

theorem isLine_of_mem_cut (hm : 0 < m) (xs : List α) : ∀ line ∈ cut p m xs, IsLine p m line := by
  induction xs using lines_induction p hm with
  | hnil =>
      rw [cut_nil]
      exact fun line hline => absurd hline List.not_mem_nil
  | hline xs hxs ih =>
      rw [cut_of_ne_nil hm hxs, List.forall_mem_cons]
      exact ⟨isLine_takeLine hm hxs, ih⟩

/-- **Every line but the last** goes on as long as it can. -/
theorem broken_of_mem_cut (hm : 0 < m) (xs : List α) :
    ∀ line ∈ (cut p m xs).dropLast, Broken p m line := by
  induction xs using lines_induction p hm with
  | hnil =>
      rw [cut_nil]
      exact fun line hline => absurd hline List.not_mem_nil
  | hline xs hxs ih =>
      rw [cut_of_ne_nil hm hxs]
      by_cases hlast : cut p m (xs.drop (takeLine p m xs).length) = []
      · rw [hlast]
        exact fun line hline => absurd hline List.not_mem_nil
      · rw [List.dropLast_cons_of_ne_nil hlast, List.forall_mem_cons]
        refine ⟨⟨isLine_takeLine hm hxs, ?_⟩, ih⟩
        rcases takeLine_ends p m xs with hlen | hend | hall
        · exact .inl hlen
        · exact .inr hend
        · rw [hall, List.drop_length, cut_nil] at hlast
          exact absurd rfl hlast

end Lines
