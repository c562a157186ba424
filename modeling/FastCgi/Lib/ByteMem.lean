import Mathlib.Data.List.Basic
import Mathlib.Tactic.Common

/-!
Memory as a function from offsets to cells, and the two operations a
buffer needs: copying a list in and copying a stretch out.

A buffer of a C program is a stretch of memory addressed by offsets from
its base; cells nobody has stored to keep whatever they held before. The
lemmas below let a proof read a stretch back out of a chain of stores
without ever looking at a single cell.
-/

namespace ByteMem

variable {α : Type*}

/-- The `n` cells from offset `i` on. -/
def slice (m : ℕ → α) (i : ℕ) : ℕ → List α
  | 0 => []
  | n + 1 => m i :: slice m (i + 1) n

/-- `memcpy` of a list to offset `i`. -/
def store (m : ℕ → α) (i : ℕ) (xs : List α) : ℕ → α :=
  fun k => if k < i then m k else (xs[k - i]?).getD (m k)

@[simp] theorem slice_zero (m : ℕ → α) (i : ℕ) : slice m i 0 = [] := rfl

@[simp] theorem length_slice (m : ℕ → α) (i n : ℕ) : (slice m i n).length = n := by
  induction n generalizing i with
  | zero => rfl
  | succ n ih => simp [slice, ih]

@[simp] theorem slice_eq_nil_iff {m : ℕ → α} {i n : ℕ} : slice m i n = [] ↔ n = 0 := by
  rw [← List.length_eq_zero_iff, length_slice]

theorem slice_add (m : ℕ → α) (i a b : ℕ) :
    slice m i (a + b) = slice m i a ++ slice m (i + a) b := by
  induction a generalizing i with
  | zero => simp
  | succ a ih =>
      rw [Nat.succ_add, slice, slice, ih, List.cons_append]
      congr 3
      omega

theorem slice_of_pos {m : ℕ → α} {i n : ℕ} (h : 0 < n) :
    slice m i n = m i :: slice m (i + 1) (n - 1) := by
  obtain ⟨n, rfl⟩ := Nat.exists_eq_add_of_lt h
  simp [slice]

theorem take_slice (m : ℕ → α) (i : ℕ) {k n : ℕ} (h : k ≤ n) :
    (slice m i n).take k = slice m i k := by
  obtain ⟨d, rfl⟩ := Nat.exists_eq_add_of_le h
  rw [slice_add, List.take_left' (length_slice m i k)]

theorem drop_slice (m : ℕ → α) (i : ℕ) {k n : ℕ} (h : k ≤ n) :
    (slice m i n).drop k = slice m (i + k) (n - k) := by
  obtain ⟨d, rfl⟩ := Nat.exists_eq_add_of_le h
  rw [slice_add, List.drop_left' (length_slice m i k), Nat.add_sub_cancel_left]

theorem slice_congr {m m' : ℕ → α} {i n : ℕ} (h : ∀ k, i ≤ k → k < i + n → m k = m' k) :
    slice m i n = slice m' i n := by
  induction n generalizing i with
  | zero => rfl
  | succ n ih =>
      rw [slice, slice, h i (by omega) (by omega),
        ih fun k h₁ h₂ => h k (by omega) (by omega)]

/-- Equal stretches agree in every cell. -/
theorem cell_of_slice {m m' : ℕ → α} {i n k : ℕ} (h : slice m i n = slice m' i n) (hle : i ≤ k)
    (hlt : k < i + n) : m k = m' k := by
  induction n generalizing i with
  | zero => omega
  | succ n ih =>
      rw [slice, slice] at h
      obtain ⟨hhead, htail⟩ := List.cons.inj h
      rcases Nat.eq_or_lt_of_le hle with rfl | hgt
      · exact hhead
      · exact ih htail hgt (by omega)

theorem store_of_lt {m : ℕ → α} {i k : ℕ} (xs : List α) (h : k < i) : store m i xs k = m k := by
  simp [store, h]

theorem store_of_ge {m : ℕ → α} {i k : ℕ} {xs : List α} (h : i + xs.length ≤ k) :
    store m i xs k = m k := by
  have hk : ¬k < i := by omega
  rw [store, if_neg hk, List.getElem?_eq_none (by omega), Option.getD_none]

/-- Two memories agree where the same has been stored, and elsewhere if they did before. -/
theorem store_congr {m m' : ℕ → α} {i k : ℕ} {xs : List α}
    (h : k < i ∨ i + xs.length ≤ k → m k = m' k) : store m i xs k = store m' i xs k := by
  by_cases hlt : k < i
  · rw [store_of_lt xs hlt, store_of_lt xs hlt]
    exact h (.inl hlt)
  · by_cases hge : i + xs.length ≤ k
    · rw [store_of_ge hge, store_of_ge hge]
      exact h (.inr hge)
    · have hin : k - i < xs.length := by omega
      simp only [store, if_neg hlt, List.getElem?_eq_getElem hin, Option.getD_some]

@[simp] theorem store_nil (m : ℕ → α) (i : ℕ) : store m i [] = m := by
  funext k
  simp [store]

/-- A store just past another one. -/
theorem store_store (m : ℕ → α) (i : ℕ) (xs ys : List α) :
    store (store m i xs) (i + xs.length) ys = store m i (xs ++ ys) := by
  funext k
  by_cases hk : k < i + xs.length
  · rw [store_of_lt ys hk, store, store]
    split
    · rfl
    · rw [List.getElem?_append_left (by omega)]
  · have hi : ¬k < i := by omega
    rw [store, if_neg hk, store_of_ge (by omega), store, if_neg hi,
      List.getElem?_append_right (by omega), Nat.sub_sub]

/-- What was stored is what is read back. -/
@[simp] theorem slice_store (m : ℕ → α) (i : ℕ) (xs : List α) :
    slice (store m i xs) i xs.length = xs := by
  suffices H : ∀ (ys : List α) (j : ℕ), i ≤ j → xs.drop (j - i) = ys →
      slice (store m i xs) j ys.length = ys by
    exact H xs i (Nat.le_refl i) (by simp)
  intro ys
  induction ys with
  | nil => intro j _ _; rfl
  | cons y ys ih =>
      intro j hj hdrop
      have hget : xs[j - i]? = some y := by
        have := congrArg (·[0]?) hdrop
        simpa using this
      have hcell : store m i xs j = y := by
        rw [store, if_neg (by omega), hget, Option.getD_some]
      rw [List.length_cons, slice, hcell, ih (j + 1) (by omega)]
      rw [show j + 1 - i = (j - i) + 1 by omega, ← List.drop_drop, hdrop, List.drop_one,
        List.tail_cons]

theorem slice_store_before {m : ℕ → α} {i j n : ℕ} (xs : List α) (h : j + n ≤ i) :
    slice (store m i xs) j n = slice m j n :=
  slice_congr fun _ _ h₂ => store_of_lt xs (by omega)

theorem slice_store_after {m : ℕ → α} {i j n : ℕ} {xs : List α} (h : i + xs.length ≤ j) :
    slice (store m i xs) j n = slice m j n :=
  slice_congr fun _ h₁ _ => store_of_ge (by omega)

/-- A store just past a stretch extends it. -/
theorem slice_store_append {m : ℕ → α} {i n : ℕ} (xs : List α) :
    slice (store m (i + n) xs) i (n + xs.length) = slice m i n ++ xs := by
  rw [slice_add, slice_store_before xs (Nat.le_refl _), slice_store]

/-- A store at the front of a stretch. -/
theorem slice_store_front {m : ℕ → α} {i n : ℕ} (xs : List α) :
    slice (store m i xs) i (xs.length + n) = xs ++ slice m (i + xs.length) n := by
  rw [slice_add, slice_store, slice_store_after (Nat.le_refl _)]

end ByteMem
