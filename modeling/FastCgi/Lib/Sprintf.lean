import FastCgi.Lib.Numeral

/-!
What `sprintf` of ISO C writes for a format string that is a single
conversion specification, without the NUL that follows.

A specification is flags, a minimum field width, a precision, a length
modifier and a conversion specifier. What it gives for a value is a front
(a sign or a prefix) and a body, filled up to the width
(`length_render`). A pointer is written as glibc does.
-/

namespace Sprintf

open Numeral

/-- The code of a character. -/
abbrev code (c : Char) : UInt8 := UInt8.ofNat c.toNat

def flagChars : List UInt8 := ['-', '0', '+', ' ', '#'].map code

def isFlag (c : UInt8) : Bool := flagChars.contains c

/-! ### Conversion specifications -/

/-- A conversion specification; the length modifier is part of the value. -/
structure Spec where
  flags : List UInt8
  width : ℕ
  precision : Option ℕ
  conv : UInt8
  deriving DecidableEq

/-- What a format string says. -/
def parse (fmt : List UInt8) : Spec :=
  let p := (fmt.drop 1).dropWhile isFlag
  let q := p.dropWhile isDecimal
  { flags := (fmt.drop 1).takeWhile isFlag
    width := readDecimal (p.takeWhile isDecimal)
    precision :=
      if q.head? = some (code '.') then some (readDecimal ((q.drop 1).takeWhile isDecimal))
      else none
    conv := fmt.getLastD 0 }

/-- The text of a precision. -/
inductive PrecisionText : Option ℕ → List UInt8 → Prop
  | none : PrecisionText none []
  | some {ds : List UInt8} (h : ∀ c ∈ ds, isDecimal c = true) :
      PrecisionText (some (readDecimal ds)) (code '.' :: ds)

/-- A length modifier and a conversion specifier are no continuation of what is before. -/
def Stops (tail : List UInt8) : Prop :=
  ∃ c rest, tail = c :: rest ∧ isFlag c = false ∧ isDecimal c = false ∧ c ≠ code '.'

theorem span_append {p : UInt8 → Bool} {l l' : List UInt8} (h : ∀ c ∈ l, p c = true)
    (h' : ∀ c rest, l' = c :: rest → p c = false) :
    (l ++ l').takeWhile p = l ∧ (l ++ l').dropWhile p = l' := by
  rw [List.takeWhile_append_of_pos h, List.dropWhile_append_of_pos h]
  cases l' with
  | nil => simp
  | cons c rest =>
      have hc := h' c rest rfl
      simp [hc]

theorem isFlag_eq_false {c : UInt8} (hd : isDecimal c = true) (hz : c ≠ 48) :
    isFlag c = false := by
  rw [Bool.eq_false_iff]
  intro hc
  have hmem : c ∈ flagChars := by simpa [isFlag] using hc
  simp only [flagChars, List.map_cons, List.map_nil, List.mem_cons, List.not_mem_nil,
    or_false] at hmem
  rcases hmem with rfl | rfl | rfl | rfl | rfl
  · exact absurd hd (by decide)
  · exact hz rfl
  · exact absurd hd (by decide)
  · exact absurd hd (by decide)
  · exact absurd hd (by decide)

/-- **The specification that a format string is built from.** -/
theorem parse_eq {flags digits pt tail : List UInt8} {p : Option ℕ}
    (hf : ∀ c ∈ flags, isFlag c = true) (hd : ∀ c ∈ digits, isDecimal c = true)
    (hz : ∀ rest, digits ≠ 48 :: rest) (hp : PrecisionText p pt) (ht : Stops tail) :
    parse (code '%' :: (flags ++ (digits ++ (pt ++ tail)))) =
      { flags := flags, width := readDecimal digits, precision := p, conv := tail.getLastD 0 } := by
  obtain ⟨t, rest, rfl, htf, htd, htdot⟩ := ht
  -- what follows the digits is a dot or the tail
  have hnext : ∀ c s, pt ++ t :: rest = c :: s → isFlag c = false ∧ isDecimal c = false := by
    intro c s hcs
    cases hp with
    | none =>
        obtain ⟨rfl, -⟩ := List.cons_eq_cons.mp hcs
        exact ⟨htf, htd⟩
    | some h =>
        obtain ⟨rfl, -⟩ := List.cons_eq_cons.mp hcs
        decide
  have hflags : ∀ c s, digits ++ (pt ++ t :: rest) = c :: s → isFlag c = false := by
    intro c s hcs
    match digits with
    | [] => exact (hnext c s hcs).1
    | d :: ds =>
        obtain ⟨rfl, -⟩ := List.cons_eq_cons.mp hcs
        exact isFlag_eq_false (hd d List.mem_cons_self) fun heq => hz ds (by rw [heq])
  obtain ⟨htake, hdrop⟩ := span_append hf hflags
  obtain ⟨htake', hdrop'⟩ := span_append hd fun c s hcs => (hnext c s hcs).2
  have hlast : (code '%' :: (flags ++ (digits ++ (pt ++ t :: rest)))).getLastD 0 =
      (t :: rest).getLastD 0 := by
    have happend : code '%' :: (flags ++ (digits ++ (pt ++ t :: rest))) =
        (code '%' :: (flags ++ (digits ++ pt))) ++ (t :: rest) := by simp
    rw [happend, List.getLastD_eq_getLast?, List.getLastD_eq_getLast?, List.getLast?_append]
    simp [List.getLast?_cons]
  simp only [parse, List.drop_one, List.tail_cons, htake, hdrop, htake', hdrop', hlast,
    Spec.mk.injEq, true_and, and_true]
  cases hp with
  | none => exact if_neg fun h => htdot (Option.some.inj h)
  | some h =>
      have hstop : ∀ c s, t :: rest = c :: s → isDecimal c = false := by
        intro c s hcs
        obtain ⟨rfl, -⟩ := List.cons_eq_cons.mp hcs
        exact htd
      rw [List.cons_append, List.head?_cons, if_pos rfl, List.tail_cons,
        (span_append h hstop).1]

/-! ### Values -/

/-- What is written: a signed or an unsigned number, a character, a string or a pointer. -/
inductive Value where
  | signed (n : ℤ)
  | unsigned (n : ℕ)
  | char (c : UInt8)
  | string (s : List UInt8)
  | pointer (n : ℕ)
  deriving DecidableEq

/-- A number has a precision, and may be filled with zeros. -/
def Value.isNumber : Value → Bool
  | .signed _ | .unsigned _ | .pointer _ => true
  | .char _ | .string _ => false

def Spec.has (spec : Spec) (c : Char) : Bool := spec.flags.contains (code c)

/-- The base of an unsigned conversion. -/
def Spec.base (spec : Spec) : ℕ :=
  if spec.conv = code 'o' then 8
  else if spec.conv = code 'x' ∨ spec.conv = code 'X' then 16
  else 10

/-- Digits, with zeros in front up to the precision. -/
def Spec.withPrecision (spec : Spec) (digits : List UInt8) : List UInt8 :=
  List.replicate (spec.precision.getD 1 - digits.length) (code '0') ++ digits

/-- The sign or the prefix. -/
def Spec.front (spec : Spec) : Value → List UInt8
  | .signed n =>
      if n < 0 then [code '-']
      else if spec.has '+' then [code '+']
      else if spec.has ' ' then [code ' ']
      else []
  | .unsigned n =>
      if spec.has '#' ∧ n ≠ 0 ∧ spec.base = 16 then [code '0', spec.conv] else []
  | .char _ | .string _ => []
  | .pointer n => if n = 0 then [] else [code '0', code 'x']

def Spec.body (spec : Spec) : Value → List UInt8
  | .signed n => spec.withPrecision (numeral 10 false n.natAbs)
  | .unsigned n =>
      let digits := spec.withPrecision (numeral spec.base (spec.conv = code 'X') n)
      if spec.has '#' ∧ spec.conv = code 'o' ∧ digits.head? ≠ some (code '0') then
        code '0' :: digits
      else digits
  | .char c => [c]
  | .string s =>
      match spec.precision with
      | none => s
      | some k => s.take k
  | .pointer n =>
      if n = 0 then ['(', 'n', 'i', 'l', ')'].map code
      else spec.withPrecision (numeral 16 false n)

/-- The text for a value. -/
def render (spec : Spec) (v : Value) : List UInt8 :=
  let text := spec.front v ++ spec.body v
  let fill := spec.width - text.length
  if spec.has '-' then text ++ List.replicate fill (code ' ')
  else if spec.has '0' ∧ v.isNumber ∧ spec.precision = none then
    spec.front v ++ (List.replicate fill (code '0') ++ spec.body v)
  else List.replicate fill (code ' ') ++ text

/-- `sprintf`. -/
def sprintf (fmt : List UInt8) (v : Value) : List UInt8 := render (parse fmt) v

theorem Spec.withPrecision_numeral {spec : Spec} (h : spec.precision = none) (n : ℕ) :
    spec.withPrecision (numeral 10 false n) = decimal n := by
  rw [withPrecision, h, decimal]
  split
  · next hn =>
      subst hn
      decide
  · next hn =>
      -- a number that is not 0 has a digit
      have hne : (numeral 10 false n).length ≠ 0 := by
        rw [numeral, List.length_map, List.length_reverse]
        exact fun h => hn (Nat.digits_eq_nil_iff_eq_zero.mp (List.length_eq_zero_iff.mp h))
      rw [Option.getD_none, Nat.sub_eq_zero_of_le (Nat.pos_of_ne_zero hne)]
      rfl

/-- `%d` gives the sign and the digits. -/
theorem sprintf_d (n : ℤ) :
    sprintf [code '%', code 'd'] (.signed n) =
      (if n < 0 then [code '-'] else []) ++ decimal n.natAbs := by
  have hparse : parse [code '%', code 'd'] =
      { flags := [], width := 0, precision := none, conv := code 'd' } := by decide
  rw [sprintf, hparse]
  simp [render, Spec.front, Spec.body, Spec.has, Spec.withPrecision_numeral]

/-- The text of a minimum field width as an argument gives it: a `-` or a 0 in front of the
digits is read as a flag. -/
def WidthDigits (n : ℕ) (text : List UInt8) : Prop :=
  ∃ flags digits, text = flags ++ digits ∧ (∀ c ∈ flags, isFlag c = true) ∧
    (∀ c ∈ digits, isDecimal c = true) ∧ (∀ rest, digits ≠ 48 :: rest) ∧ readDecimal digits = n

theorem widthDigits_nil : WidthDigits 0 [] :=
  ⟨[], [], rfl, fun _ hc => (nomatch hc), fun _ hc => (nomatch hc), fun _ h => (nomatch h), rfl⟩

theorem length_sprintf_le {n : ℤ} (h : n.natAbs ≤ 999999) :
    (sprintf [code '%', code 'd'] (.signed n)).length ≤ 7 := by
  have hdecimal : (decimal n.natAbs).length ≤ 6 :=
    length_decimal_le (k := 5) (Nat.lt_of_le_of_lt h (by decide))
  rw [sprintf_d, List.length_append]
  split
  · rw [List.length_singleton]
    omega
  · rw [List.length_nil]
    omega

/-! ### Lengths -/

/-- The length without the minimum field width. -/
def Spec.length (spec : Spec) (v : Value) : ℕ := (spec.front v).length + (spec.body v).length

/-- **The text is as long as its parts, and at least as long as the width.** -/
theorem length_render (spec : Spec) (v : Value) :
    (render spec v).length = max spec.width (spec.length v) := by
  simp only [render, Spec.length]
  split
  · simp only [List.length_append, List.length_replicate]
    omega
  · split <;>
      · simp only [List.length_append, List.length_replicate]
        omega

theorem Spec.length_withPrecision (spec : Spec) (digits : List UInt8) :
    (spec.withPrecision digits).length = max (spec.precision.getD 1) digits.length := by
  rw [withPrecision, List.length_append, List.length_replicate]
  omega

/-- The numbers that 64 bits hold. -/
def Value.Fits64 : Value → Prop
  | .signed n => n.natAbs ≤ 2 ^ 63
  | .unsigned n => n < 2 ^ 64
  | .pointer n => n < 2 ^ 64
  | .char _ | .string _ => True

theorem Spec.one_lt_base (spec : Spec) : 1 < spec.base := by
  rw [Spec.base]
  split
  · decide
  · split <;> decide

theorem Spec.two_pow_le_base (spec : Spec) : 2 ^ 64 ≤ spec.base ^ 22 := by
  rw [Spec.base]
  split
  · decide
  · split <;> decide

/-- **A number of 64 bits** takes at most 22 digits or the precision, and 3 characters. -/
theorem Spec.length_le {spec : Spec} {v : Value} (hv : v.Fits64) (hn : v.isNumber = true) :
    spec.length v ≤ max (spec.precision.getD 1) 22 + 3 := by
  cases v with
  | signed n =>
      have hdigits : (numeral 10 false n.natAbs).length ≤ 22 :=
        length_numeral_le (by decide) false (Nat.lt_of_le_of_lt hv (by decide))
      have hfront : (spec.front (.signed n)).length ≤ 1 := by
        simp only [Spec.front]
        split
        · decide
        · split
          · decide
          · split <;> decide
      have hbody : (spec.body (.signed n)).length = _ :=
        spec.length_withPrecision (numeral 10 false n.natAbs)
      rw [Spec.length, hbody]
      omega
  | unsigned n =>
      have hdigits : (numeral spec.base (spec.conv = code 'X') n).length ≤ 22 :=
        length_numeral_le spec.one_lt_base _ (Nat.lt_of_lt_of_le hv spec.two_pow_le_base)
      have hfront : (spec.front (.unsigned n)).length ≤ 2 := by
        simp only [Spec.front]
        split <;> simp
      have hbody : (spec.body (.unsigned n)).length ≤
          (spec.withPrecision (numeral spec.base (spec.conv = code 'X') n)).length + 1 := by
        simp only [Spec.body]
        split
        · rw [List.length_cons]
        · exact Nat.le_succ _
      rw [spec.length_withPrecision] at hbody
      rw [Spec.length]
      omega
  | pointer n =>
      have hdigits : (numeral 16 false n).length ≤ 22 :=
        length_numeral_le (by decide) false (Nat.lt_of_lt_of_le hv (by decide))
      have hfront : (spec.front (.pointer n)).length ≤ 2 := by
        simp only [Spec.front]
        split <;> simp
      have hbody : (spec.body (.pointer n)).length ≤ max (spec.precision.getD 1) 22 := by
        simp only [Spec.body]
        split
        · simp
        · rw [spec.length_withPrecision]
          omega
      rw [Spec.length]
      omega
  | char c => cases hn
  | string s => cases hn

end Sprintf
