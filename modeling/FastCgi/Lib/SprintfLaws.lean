import FastCgi.Lib.Sprintf

/-!
Laws of `sprintf`.

A text depends on the flags only as a set, and on the flags that fill only
where there is a width (`render_congr`); the sign of a minimum field width
that an argument gives is one of them (`WidthSign.render`). A precision of 0
in the place of none never makes a text longer (`length_render_zero_le`), and
`Spec.IgnoresZero` says when it makes no difference (`render_zero_eq_iff`).
-/

namespace Sprintf

open Numeral

variable {spec spec' : Spec} {v : Value}

/-! ### What a text depends on -/

theorem render_eq_text (h : spec.width ≤ spec.length v) :
    render spec v = spec.front v ++ spec.body v := by
  have hfill : spec.width - (spec.front v ++ spec.body v).length = 0 := by
    rw [List.length_append]
    exact Nat.sub_eq_zero_of_le h
  simp only [render, hfill, List.replicate_zero, List.append_nil, List.nil_append, ite_self]

/-- The parts of a specification that the text without the width depends on. -/
structure Spec.Alike (spec spec' : Spec) : Prop where
  precision : spec.precision = spec'.precision
  conv : spec.conv = spec'.conv
  plus : spec.has '+' = spec'.has '+'
  space : spec.has ' ' = spec'.has ' '
  alternative : spec.has '#' = spec'.has '#'

theorem Spec.Alike.base (h : spec.Alike spec') : spec.base = spec'.base := by
  rw [Spec.base, Spec.base, h.conv]

theorem Spec.Alike.front (h : spec.Alike spec') (v : Value) : spec.front v = spec'.front v := by
  cases v <;> simp only [Spec.front, h.plus, h.space, h.alternative, h.base, h.conv]

theorem Spec.Alike.body (h : spec.Alike spec') (v : Value) : spec.body v = spec'.body v := by
  cases v with
  | unsigned n =>
      simp only [Spec.body, Spec.withPrecision, h.precision, h.alternative, h.base, h.conv]
      congr 1
  | signed n | pointer n => simp only [Spec.body, Spec.withPrecision, h.precision]
  | char c | string s => simp only [Spec.body, h.precision]

/-- **The flags are a set**, and those that fill matter only where there is a width. -/
theorem render_congr (h : spec.Alike spec') (hw : spec.width = spec'.width)
    (hfill : spec.width = 0 ∨ spec.has '-' = spec'.has '-' ∧ spec.has '0' = spec'.has '0')
    (v : Value) : render spec v = render spec' v := by
  rcases hfill with hzero | ⟨hleft, hzeros⟩
  · rw [render_eq_text (hzero ▸ Nat.zero_le _), render_eq_text (hw ▸ hzero ▸ Nat.zero_le _),
      h.front, h.body]
  · simp only [render, h.front, h.body, h.precision, hw, hleft, hzeros]

/-! ### A width that an argument gives -/

/-- The flag in front of the digits of a width: the sign of one below 0, and 0 itself. -/
inductive WidthSign : ℤ → List UInt8 → Prop
  | none {n : ℤ} (h : 0 ≤ n) : WidthSign n []
  | minus {n : ℤ} (h : n < 0) : WidthSign n [code '-']
  | zero : WidthSign 0 [code '0']

/-- The flags with the one that a width below 0 stands for. -/
def signedFlags (flags : List UInt8) (width : ℤ) : List UInt8 :=
  if width < 0 then code '-' :: flags else flags

theorem WidthSign.isFlag {n : ℤ} {signs : List UInt8} (h : WidthSign n signs) :
    ∀ c ∈ signs, isFlag c = true := by
  cases h with
  | none => exact fun _ hc => (List.not_mem_nil hc).elim
  | minus => exact List.forall_mem_singleton.mpr rfl
  | zero => exact List.forall_mem_singleton.mpr rfl

/-- **The text of a width is read as the width**: with its sign as a flag and its size. -/
theorem WidthSign.render {w : ℤ} {signs : List UInt8} (h : WidthSign w signs)
    (flags : List UInt8) (precision : Option ℕ) (conv : UInt8) (v : Value) :
    render ⟨flags ++ signs, w.natAbs, precision, conv⟩ v =
      render ⟨signedFlags flags w, w.natAbs, precision, conv⟩ v := by
  let spec (fs : List UInt8) : Spec := ⟨fs, w.natAbs, precision, conv⟩
  show Sprintf.render (spec (flags ++ signs)) v = Sprintf.render (spec (signedFlags flags w)) v
  cases h with
  | none h => rw [signedFlags, if_neg (Int.not_lt.mpr h), List.append_nil]
  | minus h =>
      have hcomm : ∀ c, (spec (flags ++ [code '-'])).has c = (spec (code '-' :: flags)).has c := by
        intro c
        simp [spec, Spec.has, or_comm]
      have halike : (spec (flags ++ [code '-'])).Alike (spec (code '-' :: flags)) :=
        ⟨rfl, rfl, hcomm '+', hcomm ' ', hcomm '#'⟩
      rw [signedFlags, if_pos h]
      exact render_congr halike rfl (.inr ⟨hcomm '-', hcomm '0'⟩) v
  | zero =>
      have hhas : ∀ c : Char, code c ≠ code '0' →
          (spec (flags ++ [code '0'])).has c = (spec flags).has c := by
        intro c hc
        simp only [spec, Spec.has, List.contains_eq_mem, List.mem_append, List.mem_singleton, hc,
          or_false]
      have halike : (spec (flags ++ [code '0'])).Alike (spec flags) :=
        ⟨rfl, rfl, hhas '+' (by decide), hhas ' ' (by decide), hhas '#' (by decide)⟩
      rw [signedFlags, if_neg (by decide)]
      exact render_congr halike rfl (.inl rfl) v

/-- The text of a width: its sign as a flag, and its digits. -/
def SignedDigits (n : ℤ) (text : List UInt8) : Prop :=
  ∃ signs digits, text = signs ++ digits ∧ WidthSign n signs ∧
    (∀ c ∈ digits, isDecimal c = true) ∧ (∀ rest, digits ≠ 48 :: rest) ∧
    readDecimal digits = n.natAbs

theorem signedDigits_sprintf (n : ℤ) :
    SignedDigits n (sprintf [code '%', code 'd'] (.signed n)) := by
  rw [sprintf_d, decimal]
  by_cases hz : n = 0
  · subst hz
    exact ⟨[code '0'], [], by decide, .zero, fun _ hc => (List.not_mem_nil hc).elim,
      fun _ h => (List.cons_ne_nil _ _ h.symm).elim, rfl⟩
  · rw [if_neg (Int.natAbs_ne_zero.mpr hz)]
    refine ⟨_, numeral 10 false n.natAbs, rfl, ?_, fun c hc => isDecimal_of_mem_numeral hc,
      fun rest h => head_numeral_ne h rfl, readDecimal_numeral _ _⟩
    split
    · next hneg => exact .minus hneg
    · next hpos => exact .none (Int.not_lt.mp hpos)

/-! ### Characters of a text -/

/-- A character of a text fills, or is one of the text without the width. -/
theorem mem_render {c : UInt8} (h : c ∈ render spec v) :
    c = code ' ' ∨ c = code '0' ∨ c ∈ spec.front v ∨ c ∈ spec.body v := by
  simp only [render] at h
  split at h
  · simp only [List.mem_append, List.mem_replicate] at h
    tauto
  · split at h
    · simp only [List.mem_append, List.mem_replicate] at h
      tauto
    · simp only [List.mem_append, List.mem_replicate] at h
      tauto

/-- A character of a numeral is no blank and not NUL. -/
theorem le_of_mem_numeral {b n : ℕ} {upper : Bool} (hb : 1 < b) (hb' : b ≤ 16) {c : UInt8}
    (h : c ∈ numeral b upper n) : 48 ≤ c.toNat := by
  obtain ⟨d, hd, rfl⟩ := List.mem_map.mp h
  have hlt := Nat.digits_lt_base hb (List.mem_reverse.mp hd)
  rw [digitChar, UInt8.toNat_ofNat']
  split
  · omega
  · split <;> omega

theorem Spec.base_le (spec : Spec) : spec.base ≤ 16 := by
  rw [Spec.base]
  split
  · decide
  · split <;> decide

theorem Spec.le_of_mem_withPrecision {digits : List UInt8} {c : UInt8}
    (hd : ∀ c ∈ digits, 48 ≤ c.toNat) (h : c ∈ spec.withPrecision digits) : 48 ≤ c.toNat := by
  rcases List.mem_append.mp h with h | h
  · rw [List.eq_of_mem_replicate h]
    decide
  · exact hd c h

/-- The text of a number has no NUL. -/
theorem Spec.zero_not_mem_body (hn : v.isNumber = true) : (0 : UInt8) ∉ spec.body v := by
  have hne : ∀ c : UInt8, 48 ≤ c.toNat → c ≠ 0 := by
    rintro c hc rfl
    exact absurd hc (by decide)
  have hdigits : ∀ {b n : ℕ} {upper : Bool}, 1 < b → b ≤ 16 →
      (0 : UInt8) ∉ spec.withPrecision (numeral b upper n) := fun hb hb' h =>
    hne 0 (le_of_mem_withPrecision (fun c hc => le_of_mem_numeral hb hb' hc) h) rfl
  cases v with
  | signed n => exact hdigits (by decide) (by decide)
  | unsigned n =>
      have hd : (0 : UInt8) ∉
          spec.withPrecision (numeral spec.base (spec.conv = code 'X') n) :=
        hdigits spec.one_lt_base spec.base_le
      simp only [Spec.body]
      split
      · exact List.not_mem_cons_of_ne_of_not_mem (by decide) hd
      · exact hd
  | pointer n =>
      simp only [Spec.body]
      split
      · decide
      · exact hdigits (by decide) (by decide)
  | char c => cases hn
  | string s => cases hn

theorem Spec.zero_not_mem_front (hc : spec.conv ≠ 0) (v : Value) : (0 : UInt8) ∉ spec.front v := by
  cases v with
  | signed n =>
      simp only [Spec.front]
      split
      · decide
      · split
        · decide
        · split <;> decide
  | unsigned n =>
      simp only [Spec.front]
      split
      · exact List.not_mem_cons_of_ne_of_not_mem (by decide)
          (List.not_mem_cons_of_ne_of_not_mem hc.symm (List.not_mem_nil))
      · exact List.not_mem_nil
  | char c => exact List.not_mem_nil
  | string s => exact List.not_mem_nil
  | pointer n =>
      simp only [Spec.front]
      split <;> decide

/-- A value that is no NUL and has none. -/
def Value.NoNul : Value → Prop
  | .char c => c ≠ 0
  | .string s => (0 : UInt8) ∉ s
  | .signed _ | .unsigned _ | .pointer _ => True

/-- **A text has a NUL** only where its value has one. -/
theorem zero_not_mem_render (hc : spec.conv ≠ 0) (hv : v.NoNul) : (0 : UInt8) ∉ render spec v := by
  have hbody : (0 : UInt8) ∉ spec.body v := by
    cases v with
    | char c => exact List.not_mem_cons_of_ne_of_not_mem (Ne.symm hv) List.not_mem_nil
    | string s =>
        simp only [Spec.body]
        split
        · exact hv
        · exact fun h => hv (List.mem_of_mem_take h)
    | signed n | unsigned n | pointer n => exact Spec.zero_not_mem_body rfl
  intro h
  rcases mem_render h with h | h | h | h
  · exact absurd h (by decide)
  · exact absurd h (by decide)
  · exact Spec.zero_not_mem_front hc v h
  · exact hbody h

/-! ### A precision of 0 -/

/-- The specification with a precision of 0. -/
def Spec.zeroPrecision (spec : Spec) : Spec := { spec with precision := some 0 }

/-- The number is filled with zeros up to the width. -/
def Spec.FillsZeros (spec : Spec) (v : Value) : Prop :=
  spec.has '0' = true ∧ spec.has '-' = false ∧ spec.length v < spec.width

/-- A precision of 0 makes no difference. -/
def Spec.IgnoresZero (spec : Spec) : Value → Prop
  | .signed n => n ≠ 0 ∧ ¬spec.FillsZeros (.signed n)
  | .unsigned n =>
      (n ≠ 0 ∨ spec.has '#' = true ∧ spec.conv = code 'o') ∧ ¬spec.FillsZeros (.unsigned n)
  | .pointer n => ¬spec.FillsZeros (.pointer n)
  | .char _ => True
  | .string s => s.length ≤ spec.width ∧ ∀ c ∈ s, c = code ' '

theorem Spec.front_zeroPrecision (spec : Spec) (v : Value) :
    spec.zeroPrecision.front v = spec.front v := by
  cases v <;> rfl

theorem numeral_ne_nil {b n : ℕ} (upper : Bool) (hn : n ≠ 0) : numeral b upper n ≠ [] := by
  rw [numeral, ne_eq, List.map_eq_nil_iff, List.reverse_eq_nil_iff]
  exact Nat.digits_ne_nil_iff_ne_zero.mpr hn

/-- Where there is a digit, there is one without a precision too. -/
theorem Spec.withPrecision_zero (h : spec.precision = none) {digits : List UInt8}
    (hd : digits ≠ []) : spec.zeroPrecision.withPrecision digits = spec.withPrecision digits := by
  have hpos := List.length_pos_iff.mpr hd
  simp only [withPrecision, zeroPrecision, h, Option.getD_some, Option.getD_none,
    Nat.sub_eq_zero_of_le (Nat.zero_le digits.length), Nat.sub_eq_zero_of_le hpos]

theorem Spec.length_zeroPrecision (hbody : spec.zeroPrecision.body v = spec.body v) :
    spec.zeroPrecision.length v = spec.length v := by
  rw [Spec.length, Spec.length, hbody, spec.front_zeroPrecision]

/-- With the same characters, the texts differ where zeros fill the number up: the one with a
precision has more blanks. -/
theorem render_zero_eq_iff_of_body (h : spec.precision = none) (hn : v.isNumber = true)
    (hbody : spec.zeroPrecision.body v = spec.body v) :
    render spec.zeroPrecision v = render spec v ↔ ¬spec.FillsZeros v := by
  by_cases hfills : spec.FillsZeros v
  · have hlt : spec.length v < spec.width := hfills.2.2
    have hzeros : render spec v = spec.front v ++
        (List.replicate (spec.width - spec.length v) (code '0') ++ spec.body v) := by
      simp only [render, hfills.1, hfills.2.1, hn, h, Spec.length, List.length_append]
      rfl
    have hblanks : render spec.zeroPrecision v =
        List.replicate (spec.width - spec.length v) (code ' ') ++
          (spec.front v ++ spec.body v) := by
      have hleft : spec.zeroPrecision.has '-' = false := hfills.2.1
      have hsome : spec.zeroPrecision.precision ≠ none := Option.some_ne_none 0
      simp only [render, hleft, hsome, Spec.length, List.length_append, hbody,
        spec.front_zeroPrecision, and_false, if_false]
      rfl
    refine iff_of_false (fun heq => ?_) (not_not.mpr hfills)
    have hcount := congrArg (List.count (code ' ')) (hblanks.symm.trans (heq.trans hzeros))
    rw [List.count_append, List.count_append, List.count_append, List.count_append,
      List.count_replicate_self, List.count_replicate, if_neg (by decide)] at hcount
    omega
  · refine iff_of_true ?_ hfills
    by_cases hwide : spec.length v < spec.width
    · have hblank : spec.has '-' = true ∨ spec.has '0' = false := by
        by_contra hno
        rw [not_or, Bool.not_eq_true, Bool.not_eq_false] at hno
        exact hfills ⟨hno.2, hno.1, hwide⟩
      have hhas : ∀ c, spec.zeroPrecision.has c = spec.has c := fun _ => rfl
      have hwidth : spec.zeroPrecision.width = spec.width := rfl
      rcases hblank with hleft | hzero
      · simp only [render, hhas, hwidth, hleft, hbody, spec.front_zeroPrecision, if_true]
      · simp only [render, hhas, hwidth, hzero, hbody, spec.front_zeroPrecision,
          Bool.false_eq_true, false_and, if_false]
    · have hle : spec.width ≤ spec.length v := Nat.not_lt.mp hwide
      rw [render_eq_text hle, render_eq_text (by rwa [Spec.length_zeroPrecision hbody]), hbody,
        spec.front_zeroPrecision]

theorem mem_render_of_body {c : UInt8} (h : c ∈ spec.body v) : c ∈ render spec v := by
  simp only [render]
  split
  · exact List.mem_append_left _ (List.mem_append_right _ h)
  · split
    · exact List.mem_append_right _ (List.mem_append_right _ h)
    · exact List.mem_append_right _ (List.mem_append_right _ h)

/-- Zeros do not fill where there is a precision. -/
theorem mem_render_zeroPrecision {c : UInt8} (h : c ∈ render spec.zeroPrecision v) :
    c = code ' ' ∨ c ∈ spec.front v ∨ c ∈ spec.zeroPrecision.body v := by
  have hsome : spec.zeroPrecision.precision ≠ none := Option.some_ne_none 0
  simp only [render, hsome, and_false, if_false, spec.front_zeroPrecision] at h
  split at h
  · simp only [List.mem_append, List.mem_replicate] at h
    tauto
  · simp only [List.mem_append, List.mem_replicate] at h
    tauto

/-- A digit of the one body that the other does not have. -/
theorem render_zero_ne {c : UInt8} (hc : c ≠ code ' ') (hbody : c ∈ spec.body v)
    (hfront : c ∉ spec.front v) (hbody' : c ∉ spec.zeroPrecision.body v) :
    render spec.zeroPrecision v ≠ render spec v := by
  intro heq
  have hmem : c ∈ render spec.zeroPrecision v := heq ▸ mem_render_of_body hbody
  rcases mem_render_zeroPrecision hmem with h | h | h
  · exact hc h
  · exact hfront h
  · exact hbody' h

theorem render_zero_string (spec : Spec) (s : List UInt8) :
    render spec.zeroPrecision (.string s) = List.replicate spec.width (code ' ') := by
  have hhas : spec.zeroPrecision.width = spec.width := rfl
  have hbody : spec.zeroPrecision.body (.string s) = [] := s.take_zero
  have hfront : spec.zeroPrecision.front (.string s) = [] := rfl
  simp only [render, hbody, hfront, hhas, Value.isNumber, List.append_nil, List.nil_append,
    List.length_nil, Nat.sub_zero, Bool.false_eq_true, false_and, and_false, if_false, ite_self]

/-- A string is all blanks, and not longer than the width. -/
theorem render_zero_string_iff (h : spec.precision = none) (s : List UInt8) :
    render spec.zeroPrecision (.string s) = render spec (.string s) ↔
      spec.IgnoresZero (.string s) := by
  have hbody : spec.body (.string s) = s := by simp only [Spec.body, h]
  rw [render_zero_string]
  constructor
  · intro heq
    refine ⟨?_, fun c hc => ?_⟩
    · have hlen := congrArg List.length heq
      rw [List.length_replicate, length_render, Spec.length, hbody] at hlen
      omega
    · have hmem : c ∈ List.replicate spec.width (code ' ') :=
        heq ▸ mem_render_of_body (hbody.symm ▸ hc)
      exact List.eq_of_mem_replicate hmem
  · rintro ⟨hlen, hblank⟩
    refine (List.eq_replicate_iff.mpr ⟨?_, fun c hc => ?_⟩).symm
    · rw [length_render, Spec.length, hbody]
      show max spec.width (0 + s.length) = spec.width
      omega
    · have hfront : spec.front (.string s) = [] := rfl
      simp only [render, hbody, hfront, Value.isNumber, Bool.false_eq_true, false_and, and_false,
        if_false, List.nil_append] at hc
      split at hc
      · rcases List.mem_append.mp hc with hc | hc
        · exact hblank c hc
        · exact List.eq_of_mem_replicate hc
      · rcases List.mem_append.mp hc with hc | hc
        · exact List.eq_of_mem_replicate hc
        · exact hblank c hc

theorem numeral_zero (b : ℕ) (upper : Bool) : numeral b upper 0 = [] := by
  rw [numeral, Nat.digits_zero]
  rfl

section

variable (h : spec.precision = none)
include h

/-- The body of 0, which is a digit; with a precision of 0 it is left to `#o`. -/
theorem Spec.body_zero : spec.body (.unsigned 0) = [code '0'] ∧
    spec.zeroPrecision.body (.unsigned 0) =
      if spec.has '#' = true ∧ spec.conv = code 'o' then [code '0'] else [] := by
  have hdigit : spec.withPrecision [] = [code '0'] := by
    rw [Spec.withPrecision, h]
    rfl
  have hnil : spec.zeroPrecision.withPrecision [] = [] := rfl
  have hhas : spec.zeroPrecision.has '#' = spec.has '#' := rfl
  have hconv : spec.zeroPrecision.conv = spec.conv := rfl
  constructor
  · simp only [Spec.body, numeral_zero, hdigit]
    exact if_neg fun ho => ho.2.2 rfl
  · simp only [Spec.body, numeral_zero, hnil, hhas, hconv, List.head?_nil, ne_eq,
      reduceCtorEq, not_false_eq_true, and_true]

/-- Of a number that is not 0 the body stays. -/
theorem Spec.body_zeroPrecision_number {n : ℕ} (hn : n ≠ 0) :
    spec.zeroPrecision.body (.unsigned n) = spec.body (.unsigned n) := by
  have hsame : spec.zeroPrecision.withPrecision (numeral spec.base (spec.conv = code 'X') n) =
      spec.withPrecision (numeral spec.base (spec.conv = code 'X') n) :=
    Spec.withPrecision_zero h (numeral_ne_nil _ hn)
  have hbase : spec.zeroPrecision.base = spec.base := rfl
  have hhas : spec.zeroPrecision.has '#' = spec.has '#' := rfl
  have hconv : spec.zeroPrecision.conv = spec.conv := rfl
  simp only [Spec.body, hbase, hhas, hconv, hsame]

theorem Spec.body_zeroPrecision_pointer (n : ℕ) :
    spec.zeroPrecision.body (.pointer n) = spec.body (.pointer n) := by
  simp only [Spec.body]
  split
  · rfl
  · next hn => exact Spec.withPrecision_zero h (numeral_ne_nil false hn)

/-- The body stays, or it is gone. -/
theorem Spec.body_zeroPrecision (v : Value) :
    spec.zeroPrecision.body v = spec.body v ∨ spec.zeroPrecision.body v = [] := by
  cases v with
  | signed n =>
      by_cases hn : n = 0
      · subst hn
        exact .inr rfl
      · exact .inl (Spec.withPrecision_zero h (numeral_ne_nil false (Int.natAbs_ne_zero.mpr hn)))
  | unsigned n =>
      by_cases hn : n = 0
      · subst hn
        obtain ⟨hbody, hbody'⟩ := Spec.body_zero h
        rw [hbody, hbody']
        split
        · exact .inl rfl
        · exact .inr rfl
      · exact .inl (Spec.body_zeroPrecision_number h hn)
  | char c => exact .inl rfl
  | string s => exact .inr s.take_zero
  | pointer n => exact .inl (Spec.body_zeroPrecision_pointer h n)

/-- **A precision of 0 makes no text longer.** -/
theorem length_render_zero_le (v : Value) :
    (render spec.zeroPrecision v).length ≤ (render spec v).length := by
  have hbody : (spec.zeroPrecision.body v).length ≤ (spec.body v).length := by
    rcases Spec.body_zeroPrecision h v with hv | hv
    · rw [hv]
    · rw [hv]
      exact Nat.zero_le _
  rw [length_render, length_render, Spec.length, Spec.length, spec.front_zeroPrecision]
  exact max_le_max le_rfl (Nat.add_le_add_left hbody _)

/-- **When a precision of 0 makes no difference.** -/
theorem render_zero_eq_iff (v : Value) :
    render spec.zeroPrecision v = render spec v ↔ spec.IgnoresZero v := by
  cases v with
  | signed n =>
      by_cases hn : n = 0
      · subst hn
        refine iff_of_false (render_zero_ne (c := code '0') (by decide) ?_ ?_ ?_)
          fun hi => hi.1 rfl
        · rw [Spec.body, Int.natAbs_zero, numeral_zero, Spec.withPrecision, h]
          exact List.mem_singleton_self _
        · simp only [Spec.front, if_neg (Int.lt_irrefl 0)]
          split
          · decide
          · split <;> decide
        · exact List.not_mem_nil
      · have hbody : spec.zeroPrecision.body (.signed n) = spec.body (.signed n) :=
          Spec.withPrecision_zero h (numeral_ne_nil false (Int.natAbs_ne_zero.mpr hn))
        exact (render_zero_eq_iff_of_body h rfl hbody).trans (and_iff_right hn).symm
  | unsigned n =>
      by_cases hn : n = 0
      · subst hn
        obtain ⟨hbody, hbody'⟩ := Spec.body_zero h
        by_cases ho : spec.has '#' = true ∧ spec.conv = code 'o'
        · rw [if_pos ho] at hbody'
          exact (render_zero_eq_iff_of_body h rfl (hbody'.trans hbody.symm)).trans
            (and_iff_right (.inr ho)).symm
        · rw [if_neg ho] at hbody'
          refine iff_of_false (render_zero_ne (c := code '0') (by decide) ?_ ?_ ?_) ?_
          · rw [hbody]
            exact List.mem_singleton_self _
          · simp [Spec.front]
          · rw [hbody']
            exact List.not_mem_nil
          · rintro ⟨hd | hd, -⟩
            · exact hd rfl
            · exact ho hd
      · exact (render_zero_eq_iff_of_body h rfl (Spec.body_zeroPrecision_number h hn)).trans
          (and_iff_right (.inl hn)).symm
  | char c =>
      refine iff_of_true ?_ trivial
      simp only [render, Value.isNumber, Bool.false_eq_true, false_and, and_false, if_false]
      rfl
  | string s => exact render_zero_string_iff h s
  | pointer n => exact render_zero_eq_iff_of_body h rfl (Spec.body_zeroPrecision_pointer h n)

end

end Sprintf
