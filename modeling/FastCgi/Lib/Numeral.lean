import Mathlib.Data.Nat.Digits.Lemmas
import Mathlib.Tactic.Common

/-!
Numerals as strings of characters: the digits of a number with the most
significant one first, and the number that a string of decimal digits
stands for.
-/

namespace Numeral

/-- The character of a digit. -/
def digitChar (upper : Bool) (d : ℕ) : UInt8 :=
  UInt8.ofNat (if d < 10 then 48 + d else if upper then 55 + d else 87 + d)

/-- The digits of `n` in base `b`; there are none for 0. -/
def numeral (b : ℕ) (upper : Bool) (n : ℕ) : List UInt8 :=
  (Nat.digits b n).reverse.map (digitChar upper)

def isDecimal (c : UInt8) : Bool := 48 ≤ c.toNat && c.toNat ≤ 57

/-- The number that decimal digits stand for. -/
def readDecimal (s : List UInt8) : ℕ := Nat.ofDigits 10 (s.reverse.map fun c => c.toNat - 48)

/-- How a number is printed. -/
def decimal (n : ℕ) : List UInt8 := if n = 0 then [48] else numeral 10 false n

theorem toNat_digitChar {d : ℕ} (h : d < 10) (upper : Bool) :
    (digitChar upper d).toNat = 48 + d := by
  rw [digitChar, if_pos h, UInt8.toNat_ofNat']
  omega

theorem isDecimal_digitChar {d : ℕ} (h : d < 10) (upper : Bool) :
    isDecimal (digitChar upper d) = true := by
  simp only [isDecimal, toNat_digitChar h, Bool.and_eq_true, decide_eq_true_eq]
  omega

theorem length_numeral_le {b k n : ℕ} (hb : 1 < b) (upper : Bool) (h : n < b ^ k) :
    (numeral b upper n).length ≤ k := by
  rw [numeral, List.length_map, List.length_reverse]
  exact (Nat.digits_length_le_iff hb n).mpr h

theorem readDecimal_numeral (upper : Bool) (n : ℕ) : readDecimal (numeral 10 upper n) = n := by
  have hdigits : ((Nat.digits 10 n).map fun d => (digitChar upper d).toNat - 48) =
      Nat.digits 10 n := by
    conv_rhs => rw [← List.map_id (Nat.digits 10 n)]
    apply List.map_congr_left
    intro d hd
    rw [toNat_digitChar (Nat.digits_lt_base (by decide) hd), Nat.add_sub_cancel_left, id]
  rw [readDecimal, numeral, ← List.map_reverse, List.reverse_reverse, List.map_map]
  exact (congrArg (Nat.ofDigits 10) hdigits).trans (Nat.ofDigits_digits 10 n)

theorem isDecimal_of_mem_numeral {upper : Bool} {n : ℕ} {c : UInt8} (h : c ∈ numeral 10 upper n) :
    isDecimal c = true := by
  obtain ⟨d, hd, rfl⟩ := List.mem_map.mp h
  exact isDecimal_digitChar (Nat.digits_lt_base (by decide) (List.mem_reverse.mp hd)) upper

theorem readDecimal_lt (s : List UInt8) (h : ∀ c ∈ s, isDecimal c = true) :
    readDecimal s < 10 ^ s.length := by
  have hlt : ∀ d ∈ s.reverse.map fun c => c.toNat - 48, d < 10 := by
    intro d hd
    obtain ⟨c, hc, rfl⟩ := List.mem_map.mp hd
    have hdec := h c (List.mem_reverse.mp hc)
    simp only [isDecimal, Bool.and_eq_true, decide_eq_true_eq] at hdec
    omega
  have hof := Nat.ofDigits_lt_base_pow_length (by decide) hlt
  rwa [List.length_map, List.length_reverse] at hof

/-- A numeral does not start with 0. -/
theorem head_numeral_ne {upper : Bool} {n : ℕ} {c : UInt8} {s : List UInt8}
    (h : numeral 10 upper n = c :: s) : c ≠ 48 := by
  have hn : n ≠ 0 := by
    rintro rfl
    rw [numeral, Nat.digits_zero] at h
    cases h
  have hne : Nat.digits 10 n ≠ [] := Nat.digits_ne_nil_iff_ne_zero.mpr hn
  have hlast : (Nat.digits 10 n).reverse =
      (Nat.digits 10 n).getLast hne :: (Nat.digits 10 n).dropLast.reverse := by
    conv_lhs => rw [← List.dropLast_append_getLast hne]
    rw [List.reverse_append, List.reverse_singleton, List.singleton_append]
  rw [numeral, hlast, List.map_cons] at h
  obtain ⟨rfl, -⟩ := List.cons_eq_cons.mp h
  intro heq
  have hchar := toNat_digitChar (Nat.digits_lt_base (by decide) (List.getLast_mem hne)) upper
  rw [heq] at hchar
  have hzero := Nat.getLast_digit_ne_zero 10 hn
  have hcode : (48 : UInt8).toNat = 48 := rfl
  omega

theorem decimal_spec (n : ℕ) :
    (∀ c ∈ decimal n, isDecimal c = true) ∧ readDecimal (decimal n) = n := by
  rw [decimal]
  split
  · next hn => exact ⟨List.forall_mem_singleton.mpr rfl, hn ▸ rfl⟩
  · exact ⟨fun c hc => isDecimal_of_mem_numeral hc, readDecimal_numeral false n⟩

theorem length_decimal_le {n k : ℕ} (h : n < 10 ^ (k + 1)) : (decimal n).length ≤ k + 1 := by
  rw [decimal]
  split
  · exact Nat.le_add_left 1 k
  · exact length_numeral_le (by decide) false h

end Numeral
