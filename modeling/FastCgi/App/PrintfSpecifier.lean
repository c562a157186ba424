import FastCgi.App.VFPrintF
import FastCgi.Lib.SprintfLaws

/-!
The conversion specifications of a format, and the scan of the slow path.

`Says` is the grammar of what follows a `%`, with the limits of the scan and
the arguments that stand for a width or a precision; a `Directive` is what
such a text says. The scan finds every directive (`scanSpecifier_complete`),
finds nothing else, and does not write over the end of `fmtBuff`
(`scanSpecifier_sound`); only `abs` of the smallest `int` is a fault.
-/

namespace FastCgi

open Numeral Sprintf

/-! ### Directives -/

/-- The text of a minimum field width, with the arguments before and behind it. -/
inductive WidthText : List UInt8 → List Arg → ℤ → List Arg → Prop
  | digits {ds : List UInt8} {args : List Arg} (hd : ∀ c ∈ ds, isDecimal c = true)
      (hz : ∀ rest, ds ≠ 48 :: rest) (hlen : ds.length ≤ 6) :
      WidthText ds args (readDecimal ds) args
  | star {n : CInt} {args : List Arg} (h : n.toInt.natAbs ≤ 999999) :
      WidthText [code '*'] (.int n :: args) n.toInt args

/-- The text of a precision; one below 0 counts as 0. -/
inductive PrecisionArg : List UInt8 → List Arg → Option ℕ → List Arg → Prop
  | none {args : List Arg} : PrecisionArg [] args none args
  | digits {ds : List UInt8} {args : List Arg} (hd : ∀ c ∈ ds, isDecimal c = true)
      (hlen : ds.length ≤ 6) : PrecisionArg (code '.' :: ds) args (some (readDecimal ds)) args
  | star {n : CInt} {args : List Arg} (h : n.toInt ≤ 999999) :
      PrecisionArg [code '.', code '*'] (.int n :: args) (some n.toInt.toNat) args

/-- The text of a size modifier. -/
inductive ModifierText : List UInt8 → UInt8 → Prop
  | none : ModifierText [] (code ' ')
  | one {c : UInt8} (h : c = code 'l' ∨ c = code 'L' ∨ c = code 'h') : ModifierText [c] c
  | longLong : ModifierText [code 'l', code 'l'] (code 'L')

/-- A conversion with an argument. -/
def Converts (op : UInt8) : Prop := op ∈ numberOps ∨ op = code 's'

instance (op : UInt8) : Decidable (Converts op) := inferInstanceAs (Decidable (_ ∨ _))

/-- What a conversion specification says: the width, which is 0 where there is none and
below 0 where an argument says so, and the arguments from the one on that is converted. -/
structure Directive where
  width : ℤ
  precision : Option ℕ
  sizeModifier : UInt8
  op : UInt8
  args : List Arg

/-- What follows a `%` and the arguments say the directive. -/
inductive Says : List UInt8 → List Arg → Directive → Prop
  | intro {flags wt pt mt rest : List UInt8} {args args₁ args₂ : List Arg} {w : ℤ}
      {p : Option ℕ} {m op : UInt8} (hflags : ∀ c ∈ flags, isFlag c = true)
      (hlen : flags.length ≤ 5) (hw : WidthText wt args w args₁)
      (hp : PrecisionArg pt args₁ p args₂) (hm : ModifierText mt m) (hop : Converts op) :
      Says (flags ++ (wt ++ (pt ++ (mt ++ op :: rest)))) args
        { width := w, precision := p, sizeModifier := m, op := op, args := args₂ }

/-- The width is an argument, and the smallest `int`. -/
def MinWidth (p : List UInt8) (args : List Arg) : Prop :=
  ∃ flags rest args', p = flags ++ code '*' :: rest ∧ (∀ c ∈ flags, isFlag c = true) ∧
    flags.length ≤ 5 ∧ args = .int intMin :: args'

/-- What the scan finds is the directive. -/
structure SlowSpecifier.Gives (spec : SlowSpecifier) (d : Directive) : Prop where
  op : spec.op = d.op
  sizeModifier : spec.sizeModifier = d.sizeModifier
  args : spec.args = d.args
  minWidth : spec.minWidth.toInt = d.width
  width_le : d.width.natAbs ≤ 999999
  precision : spec.precision.toInt = d.precision.elim (-1) (Nat.cast (R := ℤ))
  precision_le : ∀ k ∈ d.precision, k ≤ 999999
  fmtBuff : ∃ flags, parse spec.fmtBuff =
    { flags := flags, width := d.width.natAbs, precision := d.precision, conv := d.op }

/-! ### Calls that are not a fault -/

/-- The result has the property; or there is none, and that is no fault. -/
def Harmless {α : Type} (P : α → Prop) : Except Abort α → Prop
  | .ok a => P a
  | .error abort => abort.isFault = false

theorem Harmless.bind {α β : Type} {P : α → Prop} {Q : β → Prop} {x : Except Abort α}
    {f : α → Except Abort β} (hx : Harmless P x) (hf : ∀ a, x = .ok a → P a → Harmless Q (f a)) :
    Harmless Q (x >>= f) := by
  cases x with
  | error abort => exact hx
  | ok a => exact hf a rfl hx

/-! ### The characters of a directive -/

/-- A character that flags, a width or a precision can start with. -/
def Opens (c : UInt8) : Prop :=
  isFlag c = true ∨ isDecimal c = true ∨ c = code '*' ∨ c = code '.'

instance (c : UInt8) : Decidable (Opens c) := inferInstanceAs (Decidable (_ ∨ _ ∨ _ ∨ _))

/-- The characters with a meaning of their own right behind a `%`. -/
def letters : List UInt8 :=
  numberOps ++ ['s', 'f', 'n', 'e', 'E', 'g', 'G', '%', 'l', 'L', 'h'].map code ++ [0]

theorem not_opens {c : UInt8} (h : c ∈ letters) : ¬Opens c := by
  have hall : (letters.all fun c => !decide (Opens c)) = true := by decide
  simpa using List.all_eq_true.mp hall c h

theorem Converts.mem_letters {op : UInt8} (h : Converts op) : op ∈ letters := by
  rcases h with h | rfl
  · exact List.mem_append_left _ (List.mem_append_left _ h)
  · decide

theorem Converts.ne_modifier {op : UInt8} (h : Converts op) :
    op ≠ code 'l' ∧ op ≠ code 'L' ∧ op ≠ code 'h' := by
  refine ⟨?_, ?_, ?_⟩ <;>
    · rintro rfl
      exact absurd h (by decide)

/-- What follows the precision. -/
theorem ModifierText.not_opens {mt rest p : List UInt8} {m op c : UInt8}
    (hm : ModifierText mt m) (hop : Converts op) (h : mt ++ op :: rest = c :: p) : ¬Opens c := by
  have hc : c ∈ letters := by
    cases hm with
    | none =>
        obtain ⟨rfl, -⟩ := List.cons_eq_cons.mp h
        exact hop.mem_letters
    | one hl =>
        obtain ⟨rfl, -⟩ := List.cons_eq_cons.mp h
        rcases hl with rfl | rfl | rfl <;> decide
    | longLong =>
        obtain ⟨rfl, -⟩ := List.cons_eq_cons.mp h
        decide
  exact FastCgi.not_opens hc

/-- What follows the width. -/
theorem PrecisionArg.head {pt tail p : List UInt8} {args args' : List Arg} {k : Option ℕ}
    {c : UInt8} (hp : PrecisionArg pt args k args') (ht : ∀ c p, tail = c :: p → ¬Opens c)
    (h : pt ++ tail = c :: p) : isFlag c = false ∧ isDecimal c = false ∧ c ≠ code '*' := by
  cases hp with
  | none =>
      have hc := ht c p h
      simp only [Opens, not_or, Bool.not_eq_true] at hc
      exact ⟨hc.1, hc.2.1, hc.2.2.1⟩
  | digits =>
      obtain ⟨rfl, -⟩ := List.cons_eq_cons.mp h
      decide
  | star =>
      obtain ⟨rfl, -⟩ := List.cons_eq_cons.mp h
      decide

/-- What follows the flags. -/
theorem WidthText.head {wt tail p : List UInt8} {args args' : List Arg} {w : ℤ} {c : UInt8}
    (hw : WidthText wt args w args') (ht : ∀ c p, tail = c :: p → isFlag c = false)
    (h : wt ++ tail = c :: p) : isFlag c = false := by
  cases hw with
  | digits hd hz _ =>
      match wt with
      | [] => exact ht c p h
      | d :: ds =>
          obtain ⟨rfl, -⟩ := List.cons_eq_cons.mp h
          exact isFlag_eq_false (hd d List.mem_cons_self) fun heq => hz ds (by rw [heq])
  | star =>
      obtain ⟨rfl, -⟩ := List.cons_eq_cons.mp h
      decide

/-! ### The scan of a directive -/

theorem copyAndAdvance_append {fmt l p : List UInt8} {args : List Arg}
    (h : fmt.length + l.length ≤ fmtBuffLen) :
    copyAndAdvance ⟨fmt, l ++ p, args⟩ l.length = .ok ⟨fmt ++ l, p, args⟩ := by
  rw [copyAndAdvance, if_pos h]
  simp

theorem copyAndAdvance_one {fmt p : List UInt8} {args : List Arg} {c : UInt8}
    (h : fmt.length ≤ 24) :
    copyAndAdvance ⟨fmt, c :: p, args⟩ 1 = .ok ⟨fmt ++ [c], p, args⟩ :=
  copyAndAdvance_append (l := [c]) (by rw [fmtBuffLen, List.length_singleton]; omega)

theorem copyAndAdvance_two {fmt p : List UInt8} {args : List Arg} {c d : UInt8}
    (h : fmt.length ≤ 23) :
    copyAndAdvance ⟨fmt, c :: d :: p, args⟩ 2 = .ok ⟨fmt ++ [c, d], p, args⟩ :=
  copyAndAdvance_append (l := [c, d]) (by
    rw [fmtBuffLen, List.length_cons, List.length_singleton]
    omega)

theorem scanFlags_append {flags p : List UInt8} (fmt : List UInt8) (args : List Arg)
    (hfmt : fmt.length ≤ 1) (hf : ∀ c ∈ flags, isFlag c = true) (hlen : flags.length ≤ 5)
    (hp : ∀ c rest, p = c :: rest → isFlag c = false) :
    scanFlags ⟨fmt, flags ++ p, args⟩ = .ok ⟨fmt ++ flags, p, args⟩ := by
  rw [scanFlags]
  simp only [(span_append hf hp).1, if_neg (Nat.not_lt.mpr hlen)]
  exact copyAndAdvance_append (by rw [fmtBuffLen]; omega)

theorem Scan.char_ne {fmt p : List UInt8} {args : List Arg} {d : UInt8}
    (hp : ∀ rest, p ≠ d :: rest) (hd : d ≠ 0) : Scan.char ⟨fmt, p, args⟩ ≠ d := by
  rintro rfl
  cases p with
  | nil => exact hd rfl
  | cons c rest => exact hp rest rfl

theorem sprintf_natCast (n : ℕ) : sprintf [code '%', code 'd'] (.signed n) = decimal n := by
  rw [sprintf_d, if_neg (by omega), Int.natAbs_natCast, List.nil_append]

theorem copyInt_star {fmt p : List UInt8} {n : ℤ} {args args' : List Arg} {c : UInt8}
    (hfmt : fmt.length ≤ 14) (hn : n.natAbs ≤ 999999) :
    copyInt ⟨fmt, c :: p, args⟩ n args' =
      .ok ⟨fmt ++ sprintf [code '%', code 'd'] (.signed n), p, args'⟩ := by
  have hlen := length_sprintf_le hn
  rw [copyInt, if_pos (by rw [fmtBuffLen]; dsimp only; omega)]
  rfl

theorem toInt_ofNat_lt {n : ℕ} (h : n ≤ intMax) : (BitVec.ofNat 32 n).toInt = n := by
  rw [intMax] at h
  rw [BitVec.toInt_ofNat', Int.bmod_eq_of_le (by omega) (by omega)]

theorem readDecimal_le {ds : List UInt8} (hd : ∀ c ∈ ds, isDecimal c = true)
    (hlen : ds.length ≤ 6) : readDecimal ds ≤ 999999 := by
  have hlt := readDecimal_lt ds hd
  have hpow : 10 ^ ds.length ≤ 10 ^ 6 := Nat.pow_le_pow_right (by decide) hlen
  omega

theorem scanWidth_digits {ds p : List UInt8} (hd : ∀ c ∈ ds, isDecimal c = true)
    (hlen : ds.length ≤ 6) (hp : ∀ c rest, p = c :: rest → isDecimal c = false)
    (hstar : ds = [] → ∀ rest, p ≠ code '*' :: rest) (fmt : List UInt8) (args : List Arg)
    (hfmt : fmt.length ≤ 6) :
    scanWidth ⟨fmt, ds ++ p, args⟩ =
      .ok (BitVec.ofNat 32 (readDecimal ds), ⟨fmt ++ ds, p, args⟩) := by
  have htake := (span_append hd hp).1
  simp only [scanWidth, htake]
  split
  · next hnil =>
      obtain rfl := List.length_eq_zero_iff.mp hnil
      rw [List.nil_append, if_neg (Scan.char_ne (hstar rfl) (by decide)), List.append_nil]
      rfl
  · rw [copyAndAdvance_append (by rw [fmtBuffLen]; omega)]
    rfl

theorem scanWidth_star {n : CInt} (h : n.toInt.natAbs ≤ 999999) (fmt p : List UInt8)
    (args : List Arg) (hfmt : fmt.length ≤ 6) :
    scanWidth ⟨fmt, code '*' :: p, .int n :: args⟩ =
      .ok (n, ⟨fmt ++ sprintf [code '%', code 'd'] (.signed n.toInt), p, args⟩) := by
  have hmin : n ≠ intMin := by
    rintro rfl
    revert h
    decide
  have hchar : Scan.char ⟨fmt, code '*' :: p, .int n :: args⟩ = code '*' := rfl
  have hnil : (List.takeWhile isDecimal (code '*' :: p)).length = 0 := rfl
  simp only [scanWidth, hnil, hchar, if_true, vaInt, if_neg hmin]
  rw [if_neg (Nat.not_lt.mpr h), copyInt_star (Nat.le_trans hfmt (by decide)) h]
  rfl

/-- The width, as the scan finds it and as it is in `fmtBuff`. -/
theorem scanWidth_complete {wt p : List UInt8} {args args' : List Arg} {w : ℤ}
    (hw : WidthText wt args w args') (fmt : List UInt8) (hfmt : fmt.length ≤ 6)
    (hp : ∀ c rest, p = c :: rest → isDecimal c = false ∧ c ≠ code '*') :
    ∃ minWidth text, scanWidth ⟨fmt, wt ++ p, args⟩ = .ok (minWidth, ⟨fmt ++ text, p, args'⟩) ∧
      minWidth.toInt = w ∧ w.natAbs ≤ 999999 ∧ text.length ≤ 7 ∧ SignedDigits w text := by
  cases hw with
  | digits hd hz hlen =>
      have hle := readDecimal_le hd hlen
      have htext : SignedDigits (readDecimal wt) wt :=
        ⟨[], wt, rfl, .none (Int.natCast_nonneg _), hd, hz, rfl⟩
      have hstar : ∀ rest, p ≠ code '*' :: rest := fun rest h => (hp _ rest h).2 rfl
      exact ⟨_, wt, scanWidth_digits hd hlen (fun c rest h => (hp c rest h).1) (fun _ => hstar)
        fmt args hfmt, toInt_ofNat_lt (by rw [intMax]; omega), hle, Nat.le_succ_of_le hlen, htext⟩
  | star h =>
      exact ⟨_, _, scanWidth_star h fmt p args' hfmt, rfl, h, length_sprintf_le h,
        signedDigits_sprintf _⟩

theorem scanPrecision_none {p : List UInt8} (hp : ∀ rest, p ≠ code '.' :: rest)
    (fmt : List UInt8) (args : List Arg) :
    scanPrecision ⟨fmt, p, args⟩ = .ok (-1, ⟨fmt, p, args⟩) := by
  rw [scanPrecision, if_neg (Scan.char_ne hp (by decide))]

theorem scanPrecision_digits {ds p : List UInt8} (hd : ∀ c ∈ ds, isDecimal c = true)
    (hlen : ds.length ≤ 6) (hp : ∀ c rest, p = c :: rest → isDecimal c = false)
    (hstar : ds = [] → ∀ rest, p ≠ code '*' :: rest) (fmt : List UInt8) (args : List Arg)
    (hfmt : fmt.length ≤ 13) :
    scanPrecision ⟨fmt, code '.' :: (ds ++ p), args⟩ =
      .ok (BitVec.ofNat 32 (readDecimal ds), ⟨fmt ++ code '.' :: ds, p, args⟩) := by
  have htake := (span_append hd hp).1
  rw [scanPrecision, if_pos (by rfl), copyAndAdvance_one (Nat.le_trans hfmt (by decide))]
  simp only [scanPrecisionValue, htake]
  split
  · next hnil =>
      obtain rfl := List.length_eq_zero_iff.mp hnil
      rw [List.nil_append, if_neg (Scan.char_ne (hstar rfl) (by decide))]
      rfl
  · rw [copyAndAdvance_append, List.append_assoc]
    · rfl
    · rw [fmtBuffLen, List.length_append, List.length_singleton]
      omega

/-- A precision below 0 is written as 0. -/
theorem scanPrecision_star {n : CInt} (h : n.toInt ≤ 999999) (fmt p : List UInt8)
    (args : List Arg) (hfmt : fmt.length ≤ 13) :
    ∃ precision, precision.toInt = (n.toInt.toNat : ℤ) ∧
      scanPrecision ⟨fmt, code '.' :: code '*' :: p, .int n :: args⟩ =
        .ok (precision, ⟨fmt ++ code '.' :: decimal n.toInt.toNat, p, args⟩) := by
  have hclamp : (if n.toInt < 0 then 0 else n : CInt).toInt = (n.toInt.toNat : ℤ) := by
    split
    · next hneg =>
        rw [Int.toNat_of_nonpos (by omega)]
        rfl
    · next hpos => rw [Int.toNat_of_nonneg (by omega)]
  have hle : n.toInt.toNat ≤ 999999 := by omega
  have hchar : Scan.char ⟨fmt ++ [code '.'], code '*' :: p, .int n :: args⟩ = code '*' := rfl
  have hnil : (List.takeWhile isDecimal (code '*' :: p)).length = 0 := rfl
  refine ⟨if n.toInt < 0 then 0 else n, hclamp, ?_⟩
  rw [scanPrecision, if_pos (by rfl), copyAndAdvance_one (Nat.le_trans hfmt (by decide))]
  simp only [scanPrecisionValue, hnil, hchar, if_true, vaInt, hclamp]
  rw [if_neg (by omega), copyInt_star, sprintf_natCast, List.append_assoc]
  · rfl
  · rw [List.length_append, List.length_singleton]
    omega
  · rwa [Int.natAbs_natCast]

/-- The precision, as the scan finds it and as it is in `fmtBuff`. -/
theorem scanPrecision_complete {pt p : List UInt8} {args args' : List Arg} {k : Option ℕ}
    (hk : PrecisionArg pt args k args') (fmt : List UInt8) (hfmt : fmt.length ≤ 13)
    (hp : ∀ c rest, p = c :: rest → ¬Opens c) :
    ∃ precision text,
      scanPrecision ⟨fmt, pt ++ p, args⟩ = .ok (precision, ⟨fmt ++ text, p, args'⟩) ∧
      precision.toInt = k.elim (-1) (Nat.cast (R := ℤ)) ∧ (∀ n ∈ k, n ≤ 999999) ∧
      text.length ≤ 7 ∧ PrecisionText k text := by
  have hne : ∀ d, Opens d → ∀ rest, p ≠ d :: rest := fun d hd rest h => hp d rest h hd
  cases hk with
  | none =>
      refine ⟨-1, [], ?_, by decide, fun _ h => (nomatch h), Nat.zero_le 7, .none⟩
      rw [List.nil_append, List.append_nil]
      exact scanPrecision_none (hne _ (by decide)) fmt args
  | digits hd hlen =>
      rename_i ds
      have hle := readDecimal_le hd hlen
      have hstop : ∀ c rest, p = c :: rest → isDecimal c = false := by
        intro c rest h
        have hc := hp c rest h
        simp only [Opens, not_or, Bool.not_eq_true] at hc
        exact hc.2.1
      refine ⟨_, code '.' :: ds, scanPrecision_digits hd hlen hstop (fun _ => hne _ (by decide))
        fmt args hfmt, toInt_ofNat_lt (by rw [intMax]; omega), ?_, ?_, .some hd⟩
      · rintro n hn
        obtain rfl := Option.some.inj hn
        exact hle
      · rw [List.length_cons]
        omega
  | star h =>
      rename_i n
      obtain ⟨precision, hpr, hscan⟩ := scanPrecision_star h fmt p args' hfmt
      obtain ⟨hdec, hread⟩ := decimal_spec n.toInt.toNat
      have htext : PrecisionText (some n.toInt.toNat) (code '.' :: decimal n.toInt.toNat) := by
        have hsome := PrecisionText.some hdec
        rwa [hread] at hsome
      refine ⟨precision, _, hscan, hpr, ?_, ?_, htext⟩
      · rintro k hk
        obtain rfl := Option.some.inj hk
        omega
      · have hlen := length_decimal_le (n := n.toInt.toNat) (k := 5) (by omega)
        rw [List.length_cons]
        omega

/-- The size modifier. -/
theorem scanModifier_complete {mt : List UInt8} {m op : UInt8} (hm : ModifierText mt m)
    (hop : Converts op) (fmt rest : List UInt8) (args : List Arg) (hfmt : fmt.length ≤ 21) :
    scanModifier ⟨fmt, mt ++ op :: rest, args⟩ = .ok (m, ⟨fmt ++ mt, op :: rest, args⟩) := by
  have hl := hop.ne_modifier
  have hchar : ∀ c q, Scan.char ⟨fmt, c :: q, args⟩ = c := fun _ _ => rfl
  cases hm with
  | none =>
      have hother : ¬(op = code 'l' ∨ op = code 'L' ∨ op = code 'h') :=
        fun h => h.elim hl.1 fun h => h.elim hl.2.1 hl.2.2
      rw [scanModifier, List.nil_append, hchar, if_neg (fun h => hl.1 h.1), if_neg hother,
        List.append_nil]
  | one h =>
      rw [scanModifier, List.singleton_append, hchar, if_neg (fun hll => hl.1 hll.2), if_pos h,
        copyAndAdvance_one (Nat.le_trans hfmt (by decide))]
      rfl
  | longLong =>
      rw [scanModifier, if_pos ⟨rfl, rfl⟩, List.cons_append, List.singleton_append,
        copyAndAdvance_two (Nat.le_trans hfmt (by decide))]
      rfl

theorem scanOp_cons (op : UInt8) (fmt rest : List UInt8) (args : List Arg)
    (hfmt : fmt.length ≤ 23) :
    scanOp ⟨fmt, op :: rest, args⟩ = .ok (op, ⟨fmt ++ [op], rest, args⟩) := by
  rw [scanOp, copyAndAdvance_one (Nat.le_succ_of_le hfmt)]
  dsimp only
  rw [if_pos]
  · rfl
  · rw [fmtBuffLen, List.length_append, List.length_singleton]
    omega

theorem ModifierText.length_le {mt : List UInt8} {m : UInt8} (hm : ModifierText mt m) :
    mt.length ≤ 2 := by
  cases hm with
  | none => exact Nat.zero_le 2
  | one => exact Nat.le_succ 1
  | longLong => exact Nat.le_refl 2

theorem ModifierText.stops {mt : List UInt8} {m op : UInt8} (hm : ModifierText mt m)
    (hop : Converts op) : Stops (mt ++ [op]) := by
  obtain ⟨c, rest, heq⟩ : ∃ c rest, mt ++ [op] = c :: rest :=
    List.exists_cons_of_ne_nil (List.append_ne_nil_of_right_ne_nil mt (List.cons_ne_nil op []))
  have hc := hm.not_opens hop heq
  simp only [Opens, not_or, Bool.not_eq_true] at hc
  exact ⟨c, rest, heq, hc.1, hc.2.1, hc.2.2.2⟩

/-- What `sprintf` finds in the format string that the scan makes. -/
theorem parse_fmtBuff_eq {flags signs digits text' mt : List UInt8} {k : Option ℕ} {m op : UInt8}
    (hf : ∀ c ∈ flags, isFlag c = true) (hs : ∀ c ∈ signs, isFlag c = true)
    (hd : ∀ c ∈ digits, isDecimal c = true) (hz : ∀ rest, digits ≠ 48 :: rest)
    (hk : PrecisionText k text') (hm : ModifierText mt m) (hop : Converts op) :
    parse ([code '%'] ++ flags ++ (signs ++ digits) ++ text' ++ mt ++ [op]) =
      { flags := flags ++ signs, width := readDecimal digits, precision := k, conv := op } := by
  have hall : ∀ c ∈ flags ++ signs, isFlag c = true := fun c hc =>
    (List.mem_append.mp hc).elim (hf c) (hs c)
  have hsplit : [code '%'] ++ flags ++ (signs ++ digits) ++ text' ++ mt ++ [op] =
      code '%' :: ((flags ++ signs) ++ (digits ++ (text' ++ (mt ++ [op])))) := by simp
  rw [hsplit, parse_eq hall hd hz hk (hm.stops hop), List.getLastD_concat]

theorem parse_fmtBuff {flags text text' mt : List UInt8} {w : ℕ} {k : Option ℕ} {m op : UInt8}
    (hf : ∀ c ∈ flags, isFlag c = true) (hw : WidthDigits w text) (hk : PrecisionText k text')
    (hm : ModifierText mt m) (hop : Converts op) :
    ∃ flags', parse ([code '%'] ++ flags ++ text ++ text' ++ mt ++ [op]) =
      { flags := flags', width := w, precision := k, conv := op } := by
  obtain ⟨signs, digits, rfl, hsigns, hdigits, hz, rfl⟩ := hw
  exact ⟨flags ++ signs, parse_fmtBuff_eq hf hsigns hdigits hz hk hm hop⟩

/-- **The scan of a directive** whose parts are given: what it finds, and the flags that it
leaves for `sprintf`. -/
theorem scanSpecifier_parts {percentPtr flags wt pt mt rest : List UInt8}
    {args args₁ args₂ : List Arg} {w : ℤ} {k : Option ℕ} {m op : UInt8}
    (hp : percentPtr.drop 1 = flags ++ (wt ++ (pt ++ (mt ++ op :: rest))))
    (hflags : ∀ c ∈ flags, isFlag c = true) (hlen : flags.length ≤ 5)
    (hw : WidthText wt args w args₁) (hk : PrecisionArg pt args₁ k args₂)
    (hm : ModifierText mt m) (hop : Converts op) :
    ∃ spec signs, scanSpecifier percentPtr args = .ok spec ∧ spec.rest = rest ∧
      spec.Gives { width := w, precision := k, sizeModifier := m, op := op, args := args₂ } ∧
      WidthSign w signs ∧ parse spec.fmtBuff =
        { flags := flags ++ signs, width := w.natAbs, precision := k, conv := op } := by
  have hmod : ∀ c q, mt ++ op :: rest = c :: q → ¬Opens c := fun c q => hm.not_opens hop
  have hprec := fun c q h => hk.head (c := c) (p := q) hmod h
  have hwidth := fun c q h => hw.head (c := c) (p := q) (fun c q h => (hprec c q h).1) h
  have hmlen := hm.length_le
  have h₁ := scanFlags_append [code '%'] args (Nat.le_refl 1) hflags hlen hwidth
  obtain ⟨minWidth, text, h₂, hmin, hmin_le, htext, hdigits⟩ :=
    scanWidth_complete hw ([code '%'] ++ flags)
      (by rw [List.length_append, List.length_singleton]; omega) fun c q h => (hprec c q h).2
  obtain ⟨precision, text', h₃, hpr, hpr_le, htext', hpt⟩ :=
    scanPrecision_complete hk ([code '%'] ++ flags ++ text)
      (by simp only [List.length_append, List.length_singleton]; omega) hmod
  have h₄ := scanModifier_complete hm hop ([code '%'] ++ flags ++ text ++ text') rest args₂
    (by simp only [List.length_append, List.length_singleton]; omega)
  have h₅ := scanOp_cons op ([code '%'] ++ flags ++ text ++ text' ++ mt) rest args₂
    (by simp only [List.length_append, List.length_singleton]; omega)
  obtain ⟨signs, digits, rfl, hsign, hd, hz, hread⟩ := hdigits
  have hparse := parse_fmtBuff_eq hflags hsign.isFlag hd hz hpt hm hop
  rw [hread] at hparse
  simp only [scanSpecifier, hp, h₁, h₂, h₃, h₄, h₅, bind, Except.bind, pure, Except.pure]
  exact ⟨_, signs, rfl, rfl, ⟨rfl, rfl, rfl, hmin, hmin_le, hpr, hpr_le, _, hparse⟩, hsign, hparse⟩

/-- **The scan finds every directive.** -/
theorem scanSpecifier_complete {percentPtr : List UInt8} {args : List Arg} {d : Directive}
    (h : Says (percentPtr.drop 1) args d) :
    ∃ spec, scanSpecifier percentPtr args = .ok spec ∧ spec.Gives d := by
  generalize hp : percentPtr.drop 1 = p at h
  cases h with
  | intro hflags hlen hw hk hm hop =>
      obtain ⟨spec, -, hscan, -, hgives, -⟩ := scanSpecifier_parts hp hflags hlen hw hk hm hop
      exact ⟨spec, hscan, hgives⟩

/-- `abs` of the smallest `int`. -/
theorem scanSpecifier_minWidth {percentPtr : List UInt8} {args : List Arg}
    (h : MinWidth (percentPtr.drop 1) args) :
    scanSpecifier percentPtr args = .error .intOverflow := by
  obtain ⟨flags, rest, args', hp, hflags, hlen, rfl⟩ := h
  have hstar : ∀ c q, code '*' :: rest = c :: q → isFlag c = false := by
    rintro c q h
    obtain ⟨rfl, -⟩ := List.cons_eq_cons.mp h
    decide
  have h₁ := scanFlags_append [code '%'] (.int intMin :: args') (Nat.le_refl 1) hflags hlen hstar
  have h₂ : scanWidth ⟨[code '%'] ++ flags, code '*' :: rest, .int intMin :: args'⟩ =
      .error .intOverflow := rfl
  simp only [scanSpecifier, hp, h₁, h₂, bind, Except.bind]

/-! ### Nothing but directives -/

/-- The longest prefix of characters of a kind. -/
theorem exists_span (p : UInt8 → Bool) (l : List UInt8) :
    ∃ l₁ l₂, l = l₁ ++ l₂ ∧ (∀ c ∈ l₁, p c = true) ∧ ∀ c rest, l₂ = c :: rest → p c = false := by
  refine ⟨l.takeWhile p, l.dropWhile p, List.takeWhile_append_dropWhile.symm,
    List.all_eq_true.mp List.all_takeWhile, ?_⟩
  intro c rest h
  have hhead := List.head?_dropWhile_not p l
  rw [h] at hhead
  exact hhead

/-- The scan goes over `text`, for which `k` characters are copied at most. -/
structure Scan.Over (s : Scan) (text : List UInt8) (k : ℕ) (s' : Scan) : Prop where
  p : s.p = text ++ s'.p
  fmt : s'.fmt.length ≤ s.fmt.length + k

theorem Scan.over_append {fmt p copied : List UInt8} {args args' : List Arg} {k : ℕ}
    (text : List UInt8) (h : copied.length ≤ k) :
    Scan.Over ⟨fmt, text ++ p, args⟩ text k ⟨fmt ++ copied, p, args'⟩ := by
  refine ⟨rfl, ?_⟩
  rw [List.length_append]
  exact Nat.add_le_add_left h fmt.length

theorem scanFlags_sound {s : Scan} (hfmt : s.fmt.length ≤ 1) :
    Harmless (fun s' => ∃ flags, (∀ c ∈ flags, isFlag c = true) ∧ flags.length ≤ 5 ∧
      s.Over flags 5 s' ∧ s'.args = s.args ∧ ∀ c rest, s'.p = c :: rest → isFlag c = false)
      (scanFlags s) := by
  obtain ⟨fmt, p, args⟩ := s
  obtain ⟨flags, q, rfl, hf, hq⟩ := exists_span isFlag p
  by_cases hlen : flags.length ≤ 5
  · rw [scanFlags_append fmt args hfmt hf hlen hq]
    exact ⟨flags, hf, hlen, Scan.over_append flags hlen, rfl, hq⟩
  · simp only [scanFlags, (span_append hf hq).1, if_pos (Nat.not_le.mp hlen)]
    rfl

theorem scanWidth_sound {s : Scan} (hfmt : s.fmt.length ≤ 6)
    (hflag : ∀ c rest, s.p = c :: rest → isFlag c = false)
    (hmin : ∀ rest args, s.p = code '*' :: rest → s.args ≠ .int intMin :: args) :
    Harmless (fun x => ∃ wt, WidthText wt s.args x.1.toInt x.2.args ∧ s.Over wt 7 x.2)
      (scanWidth s) := by
  obtain ⟨fmt, p, args⟩ := s
  by_cases hstar : ∃ rest, p = code '*' :: rest
  · obtain ⟨rest, rfl⟩ := hstar
    have hchar : Scan.char ⟨fmt, code '*' :: rest, args⟩ = code '*' := rfl
    have hnil : (List.takeWhile isDecimal (code '*' :: rest)).length = 0 := rfl
    match args with
    | .int n :: args =>
        by_cases hn : n.toInt.natAbs ≤ 999999
        · rw [scanWidth_star hn fmt rest args hfmt]
          exact ⟨[code '*'], .star hn, Scan.over_append [code '*'] (length_sprintf_le hn)⟩
        · have hne : n ≠ intMin := by
            rintro rfl
            exact hmin rest args rfl rfl
          simp only [scanWidth, hnil, hchar, if_true, vaInt, if_neg hne]
          rw [if_pos (Nat.not_le.mp hn)]
          rfl
    | [] | .long _ :: _ | .string _ :: _ | .pointer _ :: _ =>
        simp only [scanWidth, hnil, hchar, if_true, vaInt]
        rfl
  · obtain ⟨ds, q, rfl, hd, hq⟩ := exists_span isDecimal p
    by_cases hlen : ds.length ≤ 6
    · have hle := readDecimal_le hd hlen
      have hz : ∀ rest, ds ≠ 48 :: rest := by
        rintro rest rfl
        exact absurd (hflag 48 (rest ++ q) rfl) (by decide)
      have hnext : ds = [] → ∀ rest, q ≠ code '*' :: rest := by
        rintro rfl rest rfl
        exact hstar ⟨rest, rfl⟩
      have hw : WidthText ds args (readDecimal ds) args := .digits hd hz hlen
      rw [scanWidth_digits hd hlen hq hnext fmt args hfmt]
      rw [← toInt_ofNat_lt (by rw [intMax]; omega)] at hw
      exact ⟨ds, hw, Scan.over_append ds (Nat.le_succ_of_le hlen)⟩
    · have hne : ds.length ≠ 0 := by omega
      simp only [scanWidth, (span_append hd hq).1, if_neg hne, if_neg hlen]
      rfl

theorem scanPrecision_sound {s : Scan} (hfmt : s.fmt.length ≤ 13) :
    Harmless (fun x => ∃ pt k, PrecisionArg pt s.args k x.2.args ∧ s.Over pt 7 x.2)
      (scanPrecision s) := by
  obtain ⟨fmt, p, args⟩ := s
  by_cases hdot : ∃ q, p = code '.' :: q
  · obtain ⟨q, rfl⟩ := hdot
    by_cases hstar : ∃ rest, q = code '*' :: rest
    · obtain ⟨rest, rfl⟩ := hstar
      have hchar : Scan.char ⟨fmt ++ [code '.'], code '*' :: rest, args⟩ = code '*' := rfl
      have hnil : (List.takeWhile isDecimal (code '*' :: rest)).length = 0 := rfl
      match args with
      | .int n :: args =>
          by_cases hn : n.toInt ≤ 999999
          · obtain ⟨precision, -, hscan⟩ := scanPrecision_star hn fmt rest args hfmt
            have hlen := length_decimal_le (n := n.toInt.toNat) (k := 5) (by omega)
            rw [hscan]
            exact ⟨_, _, .star hn,
              Scan.over_append [code '.', code '*'] (Nat.succ_le_succ hlen)⟩
          · have hpos : ¬n.toInt < 0 := by omega
            rw [scanPrecision, if_pos (by rfl), copyAndAdvance_one (Nat.le_trans hfmt (by decide))]
            simp only [scanPrecisionValue, hnil, hchar, if_true, vaInt, if_neg hpos]
            rw [if_pos (Int.not_le.mp hn)]
            rfl
      | [] | .long _ :: _ | .string _ :: _ | .pointer _ :: _ =>
          rw [scanPrecision, if_pos (by rfl), copyAndAdvance_one (Nat.le_trans hfmt (by decide))]
          simp only [scanPrecisionValue, hnil, hchar, if_true, vaInt]
          rfl
    · obtain ⟨ds, q, rfl, hd, hq⟩ := exists_span isDecimal q
      by_cases hlen : ds.length ≤ 6
      · have hnext : ds = [] → ∀ rest, q ≠ code '*' :: rest := by
          rintro rfl rest rfl
          exact hstar ⟨rest, rfl⟩
        rw [scanPrecision_digits hd hlen hq hnext fmt args hfmt]
        exact ⟨_, _, .digits hd hlen,
          Scan.over_append (code '.' :: ds) (Nat.succ_le_succ hlen)⟩
      · have hne : ds.length ≠ 0 := by omega
        rw [scanPrecision, if_pos (by rfl), copyAndAdvance_one (Nat.le_trans hfmt (by decide))]
        simp only [scanPrecisionValue, (span_append hd hq).1, if_neg hne, if_neg hlen]
        rfl
  · rw [scanPrecision_none (fun rest h => hdot ⟨rest, h⟩)]
    exact ⟨[], none, .none, rfl, Nat.le_add_right _ 7⟩

theorem scanModifier_sound {s : Scan} (hfmt : s.fmt.length ≤ 20) :
    Harmless (fun x => ∃ mt, ModifierText mt x.1 ∧ s.Over mt 2 x.2 ∧ x.2.args = s.args)
      (scanModifier s) := by
  obtain ⟨fmt, p, args⟩ := s
  have hnone : (⟨fmt, p, args⟩ : Scan).Over [] 2 ⟨fmt, p, args⟩ := ⟨rfl, Nat.le_add_right _ 2⟩
  match p with
  | [] => exact ⟨[], .none, hnone, rfl⟩
  | c :: q =>
      have hchar : Scan.char ⟨fmt, c :: q, args⟩ = c := rfl
      rw [scanModifier, hchar]
      split
      · next hll =>
          obtain ⟨rfl, hl⟩ := hll
          match q with
          | [] => exact absurd hl (by decide : (0 : UInt8) ≠ code 'l')
          | d :: q =>
              obtain rfl : d = code 'l' := hl
              rw [copyAndAdvance_two (Nat.le_trans hfmt (by decide))]
              exact ⟨_, .longLong, Scan.over_append [code 'l', code 'l'] (Nat.le_refl 2), rfl⟩
      · split
        · next hone =>
            rw [copyAndAdvance_one (Nat.le_trans hfmt (by decide))]
            exact ⟨[c], .one hone, Scan.over_append [c] (Nat.le_succ 1), rfl⟩
        · exact ⟨[], .none, hnone, rfl⟩

theorem scanOp_sound {s : Scan} (hfmt : s.fmt.length ≤ 22) :
    Harmless (fun x => x.2.args = s.args ∧ x.2.p = s.p.drop 1 ∧ s.p.headD 0 = x.1)
      (scanOp s) := by
  have hlen : (s.p.take 1).length ≤ 1 := List.length_take_le 1 s.p
  have hcopy : copyAndAdvance s 1 = .ok { s with fmt := s.fmt ++ s.p.take 1, p := s.p.drop 1 } := by
    rw [copyAndAdvance, if_pos (by rw [fmtBuffLen]; omega)]
  rw [scanOp, hcopy]
  dsimp only
  rw [if_pos]
  · exact ⟨rfl, rfl, rfl⟩
  · rw [fmtBuffLen, List.length_append]
    omega

/-- **The scan finds nothing but directives**, and does not write over the end of `fmtBuff`. -/
theorem scanSpecifier_sound {percentPtr : List UInt8} {args : List Arg} (hne : percentPtr ≠ [])
    (hmin : ¬MinWidth (percentPtr.drop 1) args) :
    Harmless (fun spec => spec.rest.length < percentPtr.length ∧
      (Converts spec.op → ∃ d, Says (percentPtr.drop 1) args d ∧ spec.Gives d))
      (scanSpecifier percentPtr args) := by
  have hfound : Harmless (fun spec => spec.rest.length < percentPtr.length ∧
      (Converts spec.op → ∃ d, Says (percentPtr.drop 1) args d))
      (scanSpecifier percentPtr args) := by
    rw [scanSpecifier]
    have hstart : Scan.fmt ⟨[code '%'], percentPtr.drop 1, args⟩ = [code '%'] := rfl
    refine (scanFlags_sound (Nat.le_of_eq (congrArg List.length hstart))).bind ?_
    rintro s₁ - ⟨flags, hflags, hlen, ho₁, hargs₁, hnext⟩
    have hfmt₁ : s₁.fmt.length ≤ 6 := ho₁.fmt
    refine (scanWidth_sound hfmt₁ hnext ?_).bind ?_
    · intro rest args' hstar hargs
      exact hmin ⟨flags, rest, args', by rw [← hstar]; exact ho₁.p, hflags, hlen,
        hargs₁.symm.trans hargs⟩
    rintro ⟨minWidth, s₂⟩ - ⟨wt, hw, ho₂⟩
    have hfmt₂ : s₂.fmt.length ≤ 13 := Nat.le_trans ho₂.fmt (Nat.add_le_add_right hfmt₁ 7)
    refine (scanPrecision_sound hfmt₂).bind ?_
    rintro ⟨precision, s₃⟩ - ⟨pt, k, hk, ho₃⟩
    have hfmt₃ : s₃.fmt.length ≤ 20 := Nat.le_trans ho₃.fmt (Nat.add_le_add_right hfmt₂ 7)
    refine (scanModifier_sound hfmt₃).bind ?_
    rintro ⟨m, s₄⟩ - ⟨mt, hm, ho₄, hargs₄⟩
    have hfmt₄ : s₄.fmt.length ≤ 22 := Nat.le_trans ho₄.fmt (Nat.add_le_add_right hfmt₃ 2)
    refine (scanOp_sound hfmt₄).bind ?_
    rintro ⟨op, s₅⟩ - ⟨hargs₅, hrest, hop⟩
    -- what the five parts have taken, put together, is the front of the format
    have hp : percentPtr.drop 1 = flags ++ (wt ++ (pt ++ (mt ++ s₄.p))) := by
      rw [← ho₄.p, ← ho₃.p, ← ho₂.p]
      exact ho₁.p
    constructor
    · have hlength := congrArg List.length hp
      have hpos := List.length_pos_iff.mpr hne
      have hdrop := congrArg List.length hrest
      simp only [List.length_append, List.length_drop] at hlength hdrop
      show s₅.p.length < percentPtr.length
      omega
    · intro (hconv : Converts op)
      obtain ⟨rest, hcons⟩ : ∃ rest, s₄.p = op :: rest := by
        cases hp₄ : s₄.p with
        | nil =>
            rw [hp₄] at hop
            obtain rfl : (0 : UInt8) = op := hop
            exact absurd hconv (by decide)
        | cons c rest =>
            rw [hp₄] at hop
            obtain rfl : c = op := hop
            exact ⟨rest, rfl⟩
      rw [hcons] at hp
      rw [hargs₁] at hw
      rw [hp]
      exact ⟨_, .intro hflags hlen hw hk hm hconv⟩
  cases hscan : scanSpecifier percentPtr args with
  | error abort =>
      rw [hscan] at hfound
      exact hfound
  | ok spec =>
      rw [hscan] at hfound
      refine ⟨hfound.1, fun hop => ?_⟩
      obtain ⟨d, hd⟩ := hfound.2 hop
      obtain ⟨spec', hscan', hgives⟩ := scanSpecifier_complete hd
      obtain rfl := Except.ok.inj (hscan.symm.trans hscan')
      exact ⟨d, hd, hgives⟩

end FastCgi
