import FastCgi.App.PrintfSpecifier

/-!
When a conversion of `FCGX_VFPrintF` fits the buffers.

The bound on the buffering is the larger of the width and of what the
conversion takes without one, with 10 characters to spare. It has no room
for the NUL behind a text that is as long as its width, and it takes a
negative width, which fills to the right, for less than none. `Entry.Fits`
says when the text fits all the same; a conversion that starts from there
is no fault (`conversion_harmless`), and every other one is
(`conversion_faults`).
-/

namespace FastCgi

open BoundedLoop Numeral Sprintf

/-! ### When the text fits -/

/-- The characters that a directive is taken for, besides its width. -/
inductive Directive.Reckons (d : Directive) : ℕ → Prop
  | number {v : Value} {args : List Arg} (hop : d.op ∈ numberOps)
      (harg : numberArg d.op d.sizeModifier d.args = .ok (v, args)) :
      Reckons d (max (d.precision.getD 0) 46)
  | string {s : Option CString} {args : List Arg} (hop : d.op = code 's')
      (hm : d.sizeModifier = code ' ') (hargs : d.args = .string s :: args) :
      Reckons d (d.precision.elim (charPtrArg s).bytes.length (min (charPtrArg s).bytes.length))

/-- The length of the buffer for `n` characters and a width. -/
def room (auxBuffLen width : ℤ) (n : ℕ) : ℤ :=
  if max (n + 10 : ℤ) width ≤ 100 then 100 else max auxBuffLen (max (n + 10 : ℤ) width)

/-- The text of the conversion fits. -/
structure Entry.Fits (e : Entry) : Prop where
  /-- `abs` has a result. -/
  not_minWidth : ¬MinWidth (e.percentPtr.drop 1) e.args
  /-- A plain `%s` does not make `buffCount + 1` overflow. -/
  plain : ∀ s args rest, e.percentPtr.drop 1 = code 's' :: rest →
    e.args = .string (some s) :: args → s.bytes.length % 2 ^ 32 ≠ intMax
  /-- Behind flags, a width or a precision. -/
  room : ∀ d n, Says (e.percentPtr.drop 1) e.args d → Opens (e.percentPtr.getD 1 0) →
    d.Reckons n → n + 10 ≤ intMax ∧ d.width.natAbs < room e.auxBuffLen.toInt d.width n

/-! ### The arithmetic of the bound -/

theorem toInt_maxInt (a b : CInt) : (maxInt a b).toInt = max a.toInt b.toInt := by
  rw [maxInt]
  split <;> omega

theorem addInt_eq {a b : CInt} (hb : 0 ≤ b.toInt) (h : a.toInt + b.toInt ≤ (intMax : ℤ)) :
    addInt a b = .ok (a + b) ∧ (a + b).toInt = a.toInt + b.toInt := by
  have ha := BitVec.le_toInt a
  have hmax : (intMax : ℤ) = 2147483647 := rfl
  rw [addInt, if_pos h, BitVec.toInt_add, Int.bmod_eq_of_le (by omega) (by omega)]
  exact ⟨rfl, rfl⟩

theorem cInt_le (n : CInt) : n.toInt ≤ (intMax : ℤ) := by
  have h := BitVec.toInt_lt (x := n)
  have hmax : (intMax : ℤ) = 2147483647 := rfl
  omega

theorem allocate_room {auxBuffLen buffReqd minWidth : CInt} {n : ℕ}
    (h : buffReqd.toInt = (n + 10 : ℤ)) :
    (allocate auxBuffLen (maxInt buffReqd minWidth)).1.toInt =
      room auxBuffLen.toInt minWidth.toInt n := by
  have hbuff : printfBuffLen.toInt = 100 := by decide
  rw [allocate, room, ← h, ← toInt_maxInt, hbuff]
  split
  · exact hbuff
  · dsimp only
    split <;> omega

/-! ### The length of a text -/

/-- The value of a conversion of `numberOps`. -/
def NumberValue (v : Value) : Prop := v.Fits64 ∧ (v.isNumber = true ∨ ∃ c, v = .char c)

theorem Harmless.map {α β : Type} {P : α → Prop} {Q : β → Prop} {x : Except Abort α} {f : α → β}
    (hx : Harmless P x) (hf : ∀ a, P a → Q (f a)) : Harmless Q (x.map f) := by
  cases x with
  | error abort => exact hx
  | ok a => exact hf a hx

theorem vaInt_harmless (args : List Arg) : Harmless (fun _ => True) (vaInt args) := by
  match args with
  | .int n :: args => trivial
  | [] | .long _ :: _ | .string _ :: _ | .pointer _ :: _ => rfl

theorem vaLong_harmless (args : List Arg) : Harmless (fun _ => True) (vaLong args) := by
  match args with
  | .long n :: args => trivial
  | [] | .int _ :: _ | .string _ :: _ | .pointer _ :: _ => rfl

theorem vaPointer_harmless (args : List Arg) : Harmless (fun _ => True) (vaPointer args) := by
  match args with
  | .pointer n :: args => trivial
  | [] | .int _ :: _ | .long _ :: _ | .string _ :: _ => rfl

theorem fits64_signed {w : ℕ} (n : BitVec w) (hw : w ≤ 64) : NumberValue (.signed n.toInt) := by
  have hlt := BitVec.toInt_lt (x := n)
  have hle := BitVec.le_toInt n
  have hpow : 2 ^ (w - 1) ≤ 2 ^ 63 := Nat.pow_le_pow_right (by decide) (by omega)
  have hcast : (2 : ℤ) ^ (w - 1) = ((2 ^ (w - 1) : ℕ) : ℤ) := (Nat.cast_pow 2 (w - 1)).symm
  rw [hcast] at hlt hle
  refine ⟨?_, .inl rfl⟩
  show n.toInt.natAbs ≤ 2 ^ 63
  omega

theorem fits64_unsigned {w : ℕ} (n : BitVec w) (hw : w ≤ 64) :
    NumberValue (.unsigned n.toNat) := by
  refine ⟨?_, .inl rfl⟩
  exact Nat.lt_of_lt_of_le n.isLt (Nat.pow_le_pow_right (by decide) hw)

theorem signedArg_harmless (m : UInt8) (args : List Arg) :
    Harmless (fun x => NumberValue x.1) (signedArg m args) := by
  rw [signedArg]
  split
  · exact (vaInt_harmless args).map fun x _ => fits64_signed x.1 (by decide)
  · split
    · exact (vaLong_harmless args).map fun x _ => fits64_signed x.1 (by decide)
    · split
      · exact (vaInt_harmless args).map fun x _ => fits64_signed _ (by decide)
      · rfl

theorem unsignedArg_harmless (m : UInt8) (args : List Arg) :
    Harmless (fun x => NumberValue x.1) (unsignedArg m args) := by
  rw [unsignedArg]
  split
  · exact (vaInt_harmless args).map fun x _ => fits64_unsigned x.1 (by decide)
  · split
    · exact (vaLong_harmless args).map fun x _ => fits64_unsigned x.1 (by decide)
    · split
      · exact (vaInt_harmless args).map fun x _ => fits64_unsigned _ (by decide)
      · rfl

theorem numberArg_harmless (op m : UInt8) (args : List Arg) :
    Harmless (fun x => NumberValue x.1) (numberArg op m args) := by
  rw [numberArg]
  split
  · exact signedArg_harmless m args
  · split
    · split
      · exact (vaInt_harmless args).map fun x _ => ⟨trivial, .inr ⟨_, rfl⟩⟩
      · rfl
    · split
      · split
        · exact (vaPointer_harmless args).map fun x _ => ⟨x.1.isLt, .inl rfl⟩
        · rfl
      · exact unsignedArg_harmless m args

/-- The text of a number or a character. -/
theorem length_number {fmt flags : List UInt8} {w : ℕ} {k : Option ℕ} {op : UInt8} {v : Value}
    (hparse : parse fmt = { flags := flags, width := w, precision := k, conv := op })
    (hv : NumberValue v) :
    ∃ l, (sprintf fmt v).length = max w l ∧ l ≤ max (k.getD 0) 46 + 3 := by
  refine ⟨_, by rw [sprintf, hparse, length_render], ?_⟩
  obtain ⟨hfits, hnumber | ⟨c, rfl⟩⟩ := hv
  · have hlen : Spec.length { flags := flags, width := w, precision := k, conv := op } v ≤
        max (k.getD 1) 22 + 3 := Spec.length_le hfits hnumber
    have hk : k.getD 1 ≤ max (k.getD 0) 46 := by
      cases k with
      | none => decide
      | some k => exact Nat.le_max_left k 46
    omega
  · show 0 + 1 ≤ _
    omega

/-- The text of a string. -/
theorem length_string {fmt flags : List UInt8} {w : ℕ} {k : Option ℕ} {op : UInt8}
    (hparse : parse fmt = { flags := flags, width := w, precision := k, conv := op })
    (s : List UInt8) :
    (sprintf fmt (.string s)).length = max w (k.elim s.length (min s.length)) := by
  rw [sprintf, hparse, length_render]
  cases k with
  | none =>
      simp only [Spec.length, Spec.front, Spec.body, List.length_nil, Nat.zero_add, Option.elim]
  | some k =>
      simp only [Spec.length, Spec.front, Spec.body, List.length_nil, Nat.zero_add, Option.elim,
        List.length_take, Nat.min_comm]

/-! ### The fast path -/

/-- What stands in `fmtBuff` on the fast path. -/
theorem fastSpecifier_fmtBuff (percentPtr : List UInt8) :
    ∃ mt, ModifierText mt (fastSpecifier percentPtr).sizeModifier ∧
      (fastSpecifier percentPtr).fmtBuff = code '%' :: (mt ++ [(fastSpecifier percentPtr).op]) := by
  simp only [fastSpecifier]
  split
  · exact ⟨[code 'l', code 'l'], .longLong, rfl⟩
  · split
    · next h => exact ⟨_, .one h, rfl⟩
    · exact ⟨[], .none, rfl⟩

theorem fastSpecifier_rest {percentPtr : List UInt8} (h : percentPtr ≠ []) :
    (fastSpecifier percentPtr).rest.length < percentPtr.length := by
  have hpos := List.length_pos_iff.mpr h
  simp only [fastSpecifier]
  split
  · rw [List.length_drop]
    omega
  · split <;>
      · rw [List.length_drop]
        omega

/-- What the fast path finds in a specification with a length modifier only. -/
theorem fastSpecifier_eq {a : UInt8} {mt rest : List UInt8} {m op : UInt8}
    (hm : ModifierText mt m) (hop : Converts op) :
    fastSpecifier (a :: (mt ++ op :: rest)) =
      { fmtBuff := code '%' :: (mt ++ [op]), sizeModifier := m, op := op, rest := rest } := by
  obtain ⟨hl, hL, hh⟩ := hop.ne_modifier
  cases hm with
  | none =>
      have hne : ¬(op = code 'l' ∨ op = code 'L' ∨ op = code 'h') := fun h =>
        h.elim hl fun h => h.elim hL hh
      simp only [fastSpecifier, List.nil_append, List.getD_cons_succ, List.getD_cons_zero,
        if_neg (fun h : op = code 'l' ∧ _ => hl h.1), if_neg hne, List.drop_succ_cons,
        List.drop_zero]
  | one hm =>
      simp only [fastSpecifier, List.singleton_append, List.getD_cons_succ,
        List.getD_cons_zero, if_neg (fun h : _ ∧ op = code 'l' => hl h.2), if_pos hm,
        List.drop_succ_cons, List.drop_zero]
  | longLong => rfl

theorem fastSpecifier_op {percentPtr mt rest : List UInt8} {m op : UInt8}
    (hm : ModifierText mt m) (hop : Converts op) (h : percentPtr.drop 1 = mt ++ op :: rest) :
    (fastSpecifier percentPtr).op = op := by
  match percentPtr with
  | [] => exact absurd h.symm (List.append_ne_nil_of_right_ne_nil mt (List.cons_ne_nil op rest))
  | a :: q =>
      obtain rfl : q = mt ++ op :: rest := h
      rw [fastSpecifier_eq hm hop]

/-- What a conversion leaves fits. -/
def Output.Ends (o : Output) : Prop := o.buffCount.toInt < o.buffLen.toInt

theorem sprintfBuff_fits {buffLen : CInt} {fmt : List UInt8} {v : Value} (args : List Arg)
    (h : ((sprintf fmt v).length : ℤ) + 1 ≤ buffLen.toInt) :
    ∃ o, sprintfBuff buffLen fmt v args = .ok o ∧ o.Ends := by
  have hmax := cInt_le buffLen
  have hlen := (List.takeWhile_prefix (· ≠ (0 : UInt8)) (l := sprintf fmt v)).length_le
  rw [sprintfBuff, if_pos h]
  refine ⟨_, rfl, ?_⟩
  show (BitVec.ofNat 32 _).toInt < buffLen.toInt
  rw [toInt_ofNat_lt (by omega)]
  omega

/-- There is no width on the fast path, and no precision. -/
theorem fastSpecifier_parse {percentPtr : List UInt8}
    (hop : Converts (fastSpecifier percentPtr).op) :
    ∃ flags, parse (fastSpecifier percentPtr).fmtBuff =
      { flags := flags, width := 0, precision := none, conv := (fastSpecifier percentPtr).op } := by
  obtain ⟨mt, hm, hfmt⟩ := fastSpecifier_fmtBuff percentPtr
  have hflags : ∀ c ∈ ([] : List UInt8), isFlag c = true := fun _ hc => (nomatch hc)
  rw [hfmt]
  exact parse_fmtBuff hflags widthDigits_nil .none hm hop

theorem fastSpecifier_plain {percentPtr : List UInt8}
    (hop : (fastSpecifier percentPtr).op = code 's') (hm : (fastSpecifier percentPtr).sizeModifier = code ' ') :
    ∃ rest, percentPtr.drop 1 = code 's' :: rest := by
  have hmod : ∀ c, c = code 'l' ∨ c = code 'L' ∨ c = code 'h' → c ≠ code ' ' := by
    rintro c (rfl | rfl | rfl) <;> decide
  simp only [fastSpecifier] at hop hm
  split at hm
  · exact absurd hm (by decide : code 'L' ≠ code ' ')
  · next hll =>
      rw [if_neg hll] at hop
      split at hm
      · next hone => exact absurd hm (hmod _ hone)
      · next hone =>
          rw [if_neg hone] at hop
          match percentPtr with
          | [] => exact absurd hop (by decide)
          | [_] => exact absurd hop (by decide : (0 : UInt8) ≠ code 's')
          | _ :: c :: rest => exact ⟨rest, by rw [show c = code 's' from hop]; rfl⟩

/-- `buffLen = buffCount + 1`. -/
theorem directString_ends {s : CString} (h : s.bytes.length % 2 ^ 32 ≠ intMax) (args : List Arg) :
    ∃ o, directString (.string (some s) :: args) = .ok o ∧ o.Ends := by
  have hmax : (intMax : ℤ) = 2147483647 := rfl
  have hcount : (BitVec.ofNat 32 s.bytes.length).toInt + (1 : CInt).toInt ≤ (intMax : ℤ) := by
    have hone : (1 : CInt).toInt = 1 := by decide
    have hnat := BitVec.toNat_ofNat s.bytes.length 32
    rw [intMax] at h
    rw [BitVec.toInt_eq_toNat_cond, hone, hnat]
    split <;> omega
  obtain ⟨hadd, hsum⟩ := addInt_eq (by decide) hcount
  refine ⟨_, by rw [directString, hadd]; rfl, ?_⟩
  show (BitVec.ofNat 32 s.bytes.length).toInt < (BitVec.ofNat 32 s.bytes.length + 1).toInt
  rw [hsum]
  exact Int.lt_succ _

theorem directString_overflow {s : CString} (h : s.bytes.length % 2 ^ 32 = intMax)
    (args : List Arg) : directString (.string (some s) :: args) = .error .intOverflow := by
  have hone : (1 : CInt).toInt = 1 := by decide
  have hnat := BitVec.toNat_ofNat s.bytes.length 32
  have hmax : (intMax : ℤ) = 2147483647 := rfl
  rw [intMax] at h
  rw [directString, addInt, if_neg]
  · rfl
  · rw [BitVec.toInt_eq_toNat_cond, hone, hnat, h, hmax]
    decide

theorem performOp_number {fastPath : Bool} {spec : Specifier} {s : Option CString}
    {buffLen : CInt} {args : List Arg} (hop : spec.op ∈ numberOps) :
    performOp fastPath spec s buffLen args =
      (numberArg spec.op spec.sizeModifier args).bind fun x =>
        (sprintfBuff buffLen spec.fmtBuff x.1 x.2).map some := by
  simp only [performOp, if_pos hop]
  cases numberArg spec.op spec.sizeModifier args <;> rfl

theorem map_ends {x : Except Abort Output} (h : Harmless Output.Ends x) :
    Harmless (fun r => ∀ o ∈ r, o.Ends) (x.map some) :=
  h.map fun o ho o' ho' => by
    obtain rfl := Option.some.inj ho'
    exact ho

/-- The conversions of the fast path fit `buff`. -/
theorem performOp_fast {percentPtr : List UInt8} {args : List Arg}
    (hplain : ∀ s args' rest, percentPtr.drop 1 = code 's' :: rest →
      args = .string (some s) :: args' → s.bytes.length % 2 ^ 32 ≠ intMax) :
    Harmless (fun r => ∀ o ∈ r, o.Ends)
      (performOp true (fastSpecifier percentPtr) none printfBuffLen args) := by
  by_cases hnumber : (fastSpecifier percentPtr).op ∈ numberOps
  · rw [performOp_number hnumber]
    refine (numberArg_harmless _ _ args).bind ?_
    rintro ⟨v, args'⟩ - hv
    obtain ⟨flags, hparse⟩ := fastSpecifier_parse (.inl hnumber)
    obtain ⟨l, hlen, hle⟩ := length_number hparse hv
    have hfits : ((sprintf (fastSpecifier percentPtr).fmtBuff v).length : ℤ) + 1 ≤
        printfBuffLen.toInt := by
      rw [hlen, show printfBuffLen.toInt = 100 by decide]
      rw [Option.getD_none] at hle
      omega
    obtain ⟨o, ho, hends⟩ := sprintfBuff_fits args' hfits
    apply map_ends
    rw [ho]
    exact hends
  · simp only [performOp, if_neg hnumber, if_true]
    split
    · next hs =>
        split
        · rfl
        · next hm =>
            obtain ⟨rest, hrest⟩ := fastSpecifier_plain hs (not_not.mp hm)
            apply map_ends
            match args with
            | .string (some s) :: args =>
                obtain ⟨o, ho, hends⟩ := directString_ends (hplain s args rest hrest rfl) args
                rw [ho]
                exact hends
            | [] | .string none :: _ | .int _ :: _ | .long _ :: _ | .pointer _ :: _ => rfl
    · have hnone : ∀ o ∈ (none : Option Output), o.Ends := fun _ ho => nomatch ho
      split
      · exact hnone
      · split
        · rfl
        · split
          · split
            · rfl
            · intro o ho
              obtain rfl := Option.some.inj ho
              exact (by decide : (1 : CInt).toInt < printfBuffLen.toInt)
          · split
            · rfl
            · exact hnone

/-- Flags, a width or a precision make the fast path fail. -/
theorem performOp_opens {percentPtr : List UInt8} (h : Opens (percentPtr.getD 1 0))
    (args : List Arg) :
    performOp true (fastSpecifier percentPtr) none printfBuffLen args = .ok none := by
  have hne : ∀ c ∈ letters, percentPtr.getD 1 0 ≠ c := by
    rintro c hc rfl
    exact not_opens hc h
  have hl := hne (code 'l') (by decide)
  have hmod : ¬(percentPtr.getD 1 0 = code 'l' ∨ percentPtr.getD 1 0 = code 'L' ∨
      percentPtr.getD 1 0 = code 'h') := fun h =>
    h.elim hl fun h => h.elim (hne _ (by decide)) (hne _ (by decide))
  have hop : (fastSpecifier percentPtr).op = percentPtr.getD 1 0 := by
    simp only [fastSpecifier, if_neg (fun h : _ ∧ _ => hl h.1), if_neg hmod]
  have hnumber : percentPtr.getD 1 0 ∉ numberOps := fun h =>
    hne _ (List.mem_append_left _ (List.mem_append_left _ h)) rfl
  have hout : ¬(percentPtr.getD 1 0 = code 'n' ∨ percentPtr.getD 1 0 ∈ outsideOps) := by
    rintro (h | h)
    · exact hne _ (by decide) h
    · have hsub : (outsideOps.all fun c => decide (c ∈ letters)) = true := by decide
      exact hne _ (of_decide_eq_true (List.all_eq_true.mp hsub _ h)) rfl
  simp only [performOp, hop, if_neg hnumber, if_neg (hne (code 's') (by decide)),
    if_neg (hne (code 'f') (by decide)), if_neg hout, if_neg (hne (code '%') (by decide)),
    if_neg (hne 0 (by decide))]

theorem getD_of_drop {percentPtr q : List UInt8} {c : UInt8} (h : percentPtr.drop 1 = c :: q) :
    percentPtr.getD 1 0 = c := by
  match percentPtr with
  | [] => cases h
  | _ :: p =>
      obtain rfl : p = c :: q := h
      rfl

/-- Flags, a width or a precision open a specification; without them there is none. -/
theorem plain_or_opens {flags wt pt : List UInt8} {args args₁ args₂ : List Arg} {w : ℤ}
    {k : Option ℕ} (hflags : ∀ c ∈ flags, isFlag c = true) (hw : WidthText wt args w args₁)
    (hk : PrecisionArg pt args₁ k args₂) :
    (flags = [] ∧ wt = [] ∧ pt = []) ∨ ∃ c q, flags ++ (wt ++ pt) = c :: q ∧ Opens c := by
  match flags with
  | c :: flags => exact .inr ⟨c, _, rfl, .inl (hflags c List.mem_cons_self)⟩
  | [] =>
      cases hw with
      | star => exact .inr ⟨_, _, rfl, .inr (.inr (.inl rfl))⟩
      | digits hd hz hlen =>
          match wt with
          | c :: ds => exact .inr ⟨c, _, rfl, .inr (.inl (hd c List.mem_cons_self))⟩
          | [] =>
              cases hk with
              | none => exact .inl ⟨rfl, rfl, rfl⟩
              | digits => exact .inr ⟨_, _, rfl, .inr (.inr (.inr rfl))⟩
              | star => exact .inr ⟨_, _, rfl, .inr (.inr (.inr rfl))⟩

/-- A directive that starts with its modifier has nothing else. -/
theorem Says.plain {p : List UInt8} {args : List Arg} {d : Directive} (h : Says p args d)
    (hp : ∀ c q, p = c :: q → ¬Opens c) :
    ∃ mt m rest, ModifierText mt m ∧ Converts d.op ∧ p = mt ++ d.op :: rest := by
  cases h with
  | intro hflags hlen hw hk hm hop =>
      rename_i flags wt pt mt rest args₁ args₂ w k m op
      rcases plain_or_opens hflags hw hk with ⟨rfl, rfl, rfl⟩ | ⟨c, q, hcq, hopens⟩
      · exact ⟨mt, m, rest, hm, hop, rfl⟩
      · refine absurd hopens (hp c (q ++ (mt ++ op :: rest)) ?_)
        rw [← List.cons_append, ← hcq]
        simp only [List.append_assoc]

/-- The fast path fails for no other directive. -/
theorem opens_of_performOp {percentPtr : List UInt8} {args : List Arg} {d : Directive}
    (hnone : performOp true (fastSpecifier percentPtr) none printfBuffLen args = .ok none)
    (hd : Says (percentPtr.drop 1) args d) : Opens (percentPtr.getD 1 0) := by
  by_contra hopens
  obtain ⟨mt, m, rest, hm, hop, hp⟩ := hd.plain fun c q h => by rwa [← getD_of_drop h]
  have hfast := fastSpecifier_op hm hop hp
  have hmap : ∀ x : Except Abort Output, x.map some ≠ .ok none := by
    rintro (abort | o) h
    · cases h
    · cases h
  rcases hop with hnumber | hs
  · rw [performOp_number (by rwa [hfast])] at hnone
    cases hnum : numberArg (fastSpecifier percentPtr).op
        (fastSpecifier percentPtr).sizeModifier args with
    | error abort =>
        rw [hnum] at hnone
        cases hnone
    | ok x =>
        rw [hnum] at hnone
        exact hmap _ hnone
  · rw [hs] at hfast
    simp only [performOp, hfast, if_neg (by decide : code 's' ∉ numberOps), if_true] at hnone
    split at hnone
    · cases hnone
    · exact hmap _ hnone

/-! ### The slow path -/

theorem SlowSpecifier.Gives.precision_eq {spec : SlowSpecifier} {d : Directive}
    (h : spec.Gives d) :
    (spec.precision = -1 ↔ d.precision = none) ∧ ∀ k ∈ d.precision, spec.precision.toNat = k := by
  have hpr := h.precision
  cases hk : d.precision with
  | none =>
      rw [hk] at hpr
      refine ⟨⟨fun _ => rfl, fun _ => BitVec.eq_of_toInt_eq hpr⟩, fun _ h => nomatch h⟩
  | some k =>
      rw [hk] at hpr
      have hcast : spec.precision.toInt = k := hpr
      refine ⟨⟨fun hneg => ?_, fun h => nomatch h⟩, ?_⟩
      · have hone : (-1 : CInt).toInt = -1 := by decide
        rw [hneg, hone] at hcast
        omega
      · rintro k' hk'
        obtain rfl := Option.some.inj hk'
        rw [BitVec.toInt_eq_toNat_cond] at hcast
        split at hcast <;> omega

/-- What the slow path has before it allocates the buffer: the bound, the value to write and
the length of its text. -/
structure SlowSpecifier.Writes (spec : SlowSpecifier) (width n : ℕ) (b : CInt)
    (s : Option CString) (args : List Arg) (v : Value) (args' : List Arg) (l : ℕ) : Prop where
  bound : boundBuffer spec = .ok (b, s, args)
  toInt_bound : n ≤ intMax → b.toInt = n
  performOp : ∀ buffLen, performOp false spec.toSpecifier s buffLen args =
    (sprintfBuff buffLen spec.fmtBuff v args').map some
  length : (sprintf spec.fmtBuff v).length = max width l
  length_le : l ≤ n + 3
  length_eq : intMax < n + 10 → l = n

theorem Directive.Reckons.writes {spec : SlowSpecifier} {d : Directive} {n : ℕ}
    (hn : d.Reckons n) (hg : spec.Gives d) :
    ∃ b s args v args' l, spec.Writes d.width.natAbs n b s args v args' l := by
  obtain ⟨flags, hparse⟩ := hg.fmtBuff
  cases hn with
  | number hop harg =>
      rename_i v args'
      have hv := numberArg_harmless d.op d.sizeModifier d.args
      rw [harg] at hv
      obtain ⟨l, hlen, hle⟩ := length_number hparse hv
      have hle46 : max (d.precision.getD 0) 46 ≤ 999999 := by
        cases hk : d.precision with
        | none => decide
        | some k =>
            have hk_le := hg.precision_le k hk
            exact Nat.max_le.mpr ⟨hk_le, by decide⟩
      have hmax : intMax = 2147483647 := rfl
      refine ⟨maxInt spec.precision 46, none, spec.args, v, args', l, ?_, ?_, ?_, hlen, hle, ?_⟩
      · rw [boundBuffer, if_pos (by rwa [hg.op])]
      · intro _
        rw [toInt_maxInt, hg.precision, show (46 : CInt).toInt = 46 by decide]
        cases d.precision with
        | none => rfl
        | some k => exact (Nat.cast_max k 46).symm
      · intro buffLen
        rw [performOp_number (by rwa [hg.op]), hg.op, hg.sizeModifier, hg.args, harg]
        rfl
      · intro hbig
        omega
  | string hop hm hargs =>
      rename_i s args
      have hs : spec.op = code 's' := hg.op.trans hop
      have hmod : spec.sizeModifier = code ' ' := hg.sizeModifier.trans hm
      obtain ⟨hnone, hsome⟩ := hg.precision_eq
      have hcount : (if spec.precision = -1 then (charPtrArg s).bytes.length
          else min (charPtrArg s).bytes.length spec.precision.toNat) =
            d.precision.elim (charPtrArg s).bytes.length (min (charPtrArg s).bytes.length) := by
        cases hk : d.precision with
        | none => rw [if_pos (hnone.mpr hk)]; rfl
        | some k =>
            rw [if_neg (fun h => by rw [hnone.mp h] at hk; cases hk), hsome k hk]
            rfl
      refine ⟨_, some (charPtrArg s), args, .string (charPtrArg s).bytes, args, _, ?_, toInt_ofNat_lt,
        ?_, length_string hparse _, Nat.le_add_right _ 3, fun _ => rfl⟩
      · rw [boundBuffer, if_neg (by rw [hs]; decide), if_pos hs, hg.args, hargs]
        simp only [hmod, hcount, ne_eq, not_true_eq_false, if_false]
      · intro buffLen
        simp only [FastCgi.performOp, hs, hmod, if_neg (by decide : code 's' ∉ numberOps), if_true,
          ne_eq, not_true_eq_false, if_false]
        rfl

/-- The slow path with the buffer that it allocates. -/
theorem slowPath_eq {e : Entry} {spec : SlowSpecifier} {b r : CInt} {s : Option CString}
    {args args' : List Arg} {v : Value}
    (hscan : scanSpecifier e.percentPtr e.args = .ok spec)
    (hbound : boundBuffer spec = .ok (b, s, args))
    (hop : ∀ buffLen, performOp false spec.toSpecifier s buffLen args =
      (sprintfBuff buffLen spec.fmtBuff v args').map some) (hadd : addInt b 10 = .ok r) :
    slowPath e =
      (sprintfBuff (allocate e.auxBuffLen (maxInt r spec.minWidth)).1 spec.fmtBuff v args').map
        fun out => { out := out, next :=
          ⟨spec.rest, out.args, (allocate e.auxBuffLen (maxInt r spec.minWidth)).2⟩ } := by
  simp only [slowPath, hscan, hbound, hadd, hop, bind, Except.bind]
  cases sprintfBuff (allocate e.auxBuffLen (maxInt r spec.minWidth)).1 spec.fmtBuff v args' <;> rfl

section

variable {e : Entry} {spec : SlowSpecifier} {d : Directive} {n : ℕ}
  (hscan : scanSpecifier e.percentPtr e.args = .ok spec) (hg : spec.Gives d) (hn : d.Reckons n)
include hscan hg hn

/-- **The text fits** where the width leaves room for the NUL. -/
theorem slowPath_fits (hn_le : n + 10 ≤ intMax)
    (hroom : d.width.natAbs < room e.auxBuffLen.toInt d.width n) :
    ∃ r, slowPath e = .ok r ∧ r.out.Ends ∧ r.next.percentPtr = spec.rest := by
  obtain ⟨b, s, args, v, args', l, hw⟩ := hn.writes hg
  have hb := hw.toInt_bound (by omega)
  have hten : (10 : CInt).toInt = 10 := by decide
  obtain ⟨hadd, hsum⟩ := addInt_eq (a := b) (b := 10) (by decide) (by rw [hb, hten]; omega)
  rw [hb, hten] at hsum
  have hlen : ((sprintf spec.fmtBuff v).length : ℤ) + 1 ≤
      (allocate e.auxBuffLen (maxInt (b + 10) spec.minWidth)).1.toInt := by
    have hle := hw.length_le
    have hroom_le : (n + 10 : ℤ) ≤ room e.auxBuffLen.toInt d.width n := by
      rw [room]
      split <;> omega
    rw [allocate_room hsum, hg.minWidth, hw.length]
    omega
  obtain ⟨o, ho, hends⟩ := sprintfBuff_fits args' hlen
  rw [slowPath_eq hscan hw.bound hw.performOp hadd, ho]
  exact ⟨_, rfl, hends, rfl⟩

/-- **The text does not fit**, or an `int` overflows, where it does not. -/
theorem slowPath_overflow
    (h : ¬(n + 10 ≤ intMax ∧ (d.width.natAbs : ℤ) < room e.auxBuffLen.toInt d.width n)) :
    ∃ abort, slowPath e = .error abort ∧ abort.isFault = true := by
  obtain ⟨b, s, args, v, args', l, hw⟩ := hn.writes hg
  have hten : (10 : CInt).toInt = 10 := by decide
  by_cases hsum : b.toInt + (10 : CInt).toInt ≤ (intMax : ℤ)
  · obtain ⟨hadd, hsum'⟩ := addInt_eq (by decide) hsum
    have hlen : ¬((sprintf spec.fmtBuff v).length : ℤ) + 1 ≤
        (allocate e.auxBuffLen (maxInt (b + 10) spec.minWidth)).1.toInt := by
      rw [hw.length]
      by_cases hn_le : n + 10 ≤ intMax
      · rw [hw.toInt_bound (by omega), hten] at hsum'
        have hroom := fun hlt => h ⟨hn_le, hlt⟩
        rw [allocate_room hsum', hg.minWidth]
        omega
      · -- the buffer has the length of an `int`, and the text does not
        have hl := hw.length_eq (by omega)
        have hbuff := cInt_le (allocate e.auxBuffLen (maxInt (b + 10) spec.minWidth)).1
        have hbound := hw.toInt_bound
        omega
    rw [slowPath_eq hscan hw.bound hw.performOp hadd, sprintfBuff]
    simp only [if_neg hlen]
    exact ⟨.buffOverflow, rfl, rfl⟩
  · refine ⟨.intOverflow, ?_, rfl⟩
    simp only [slowPath, hscan, hw.bound, addInt, if_neg hsum, bind, Except.bind]

end

/-- What the slow path finds and does not reckon with ends it, and is no fault. -/
theorem slowPath_unreckoned {e : Entry} {spec : SlowSpecifier}
    (hscan : scanSpecifier e.percentPtr e.args = .ok spec)
    (h : Converts spec.op → ∃ d, spec.Gives d ∧ ∀ n, ¬d.Reckons n) :
    ∃ abort, slowPath e = .error abort ∧ abort.isFault = false := by
  have hbound : ∀ abort, boundBuffer spec = .error abort → slowPath e = .error abort := by
    intro abort hb
    simp only [slowPath, hscan, hb, bind, Except.bind]
  by_cases hnumber : spec.op ∈ numberOps
  · obtain ⟨d, hg, hn⟩ := h (.inl hnumber)
    have harg := numberArg_harmless spec.op spec.sizeModifier spec.args
    cases hnum : numberArg spec.op spec.sizeModifier spec.args with
    | ok x =>
        rw [hg.op, hg.sizeModifier, hg.args] at hnum
        exact absurd (.number (hg.op ▸ hnumber) hnum) (hn _)
    | error abort =>
        rw [hnum] at harg
        have hb : boundBuffer spec = .ok (maxInt spec.precision 46, none, spec.args) := by
          rw [boundBuffer, if_pos hnumber]
        -- the bound of a number is small, so it is the argument that ends the conversion
        have hle : (maxInt spec.precision 46).toInt + (10 : CInt).toInt ≤ (intMax : ℤ) := by
          have hpr := hg.precision
          have hpr_le := hg.precision_le
          have hmax : (intMax : ℤ) = 2147483647 := rfl
          rw [toInt_maxInt, show (46 : CInt).toInt = 46 by decide,
            show (10 : CInt).toInt = 10 by decide]
          cases hk : d.precision with
          | none =>
              rw [hk, Option.elim] at hpr
              omega
          | some k =>
              rw [hk, Option.elim] at hpr
              have hk_le := hpr_le k hk
              omega
        refine ⟨abort, ?_, harg⟩
        simp only [slowPath, hscan, hb, (addInt_eq (by decide) hle).1,
          performOp_number hnumber, hnum, bind, Except.bind]
  · by_cases hs : spec.op = code 's'
    · obtain ⟨d, hg, hn⟩ := h (.inr hs)
      refine ⟨.outside, hbound _ ?_, rfl⟩
      rw [boundBuffer, if_neg hnumber, if_pos hs]
      split
      · next s args hargs =>
          have hm : spec.sizeModifier ≠ code ' ' := by
            intro hm
            exact hn _ (.string (hg.op.symm.trans hs) (hg.sizeModifier.symm.trans hm)
              (hg.args.symm.trans hargs))
          rw [if_pos hm]
      · rfl
    · by_cases hout : spec.op = code 'f' ∨ spec.op ∈ outsideOps
      · refine ⟨.outside, hbound _ ?_, rfl⟩
        rw [boundBuffer, if_neg hnumber, if_neg hs, if_pos hout]
      · refine ⟨.errorReturn, hbound _ ?_, rfl⟩
        rw [boundBuffer, if_neg hnumber, if_neg hs, if_neg hout]

/-- From an entry that fits, the slow path is no fault. -/
theorem slowPath_harmless {e : Entry} (hne : e.percentPtr ≠ []) (hf : e.Fits)
    (hopens : ∀ d, Says (e.percentPtr.drop 1) e.args d → Opens (e.percentPtr.getD 1 0)) :
    Harmless (fun r => r.out.Ends ∧ r.next.percentPtr.length < e.percentPtr.length)
      (slowPath e) := by
  have hsound := scanSpecifier_sound hne hf.not_minWidth
  cases hscan : scanSpecifier e.percentPtr e.args with
  | error abort =>
      rw [hscan] at hsound
      have hslow : slowPath e = .error abort := by
        simp only [slowPath, hscan, bind, Except.bind]
      rw [hslow]
      exact hsound
  | ok spec =>
      rw [hscan] at hsound
      obtain ⟨hrest, hdirective⟩ := hsound
      by_cases hreckons : ∃ d n, Says (e.percentPtr.drop 1) e.args d ∧ spec.Gives d ∧ d.Reckons n
      · obtain ⟨d, n, hd, hg, hn⟩ := hreckons
        obtain ⟨hn_le, hroom⟩ := hf.room d n hd (hopens d hd) hn
        obtain ⟨r, hr, hends, hnext⟩ := slowPath_fits hscan hg hn hn_le hroom
        rw [hr]
        exact ⟨hends, hnext ▸ hrest⟩
      · obtain ⟨abort, habort, hfault⟩ := slowPath_unreckoned hscan fun hop => by
          obtain ⟨d, hd, hg⟩ := hdirective hop
          exact ⟨d, hg, fun n hn => hreckons ⟨d, n, hd, hg, hn⟩⟩
        rw [habort]
        exact hfault

/-! ### A conversion -/

theorem conversion_fast {e : Entry} {o : Output}
    (h : performOp true (fastSpecifier e.percentPtr) none printfBuffLen e.args = .ok (some o))
    (ho : o.Ends) :
    conversion e = .ok { out := o, next := ⟨(fastSpecifier e.percentPtr).rest, o.args,
      e.auxBuffLen⟩ } := by
  simp only [conversion, h, bind, Except.bind]
  exact if_pos ho

theorem conversion_slow {e : Entry}
    (h : performOp true (fastSpecifier e.percentPtr) none printfBuffLen e.args = .ok none) :
    conversion e = slowPath e >>= fun r =>
      if r.out.buffCount.toInt < r.out.buffLen.toInt then .ok r else .error .assertion := by
  simp only [conversion, h, bind, Except.bind]
  rfl

/-- **A conversion from an entry that fits** is no fault. -/
theorem conversion_harmless {e : Entry} (hne : e.percentPtr ≠ []) (hf : e.Fits) :
    Harmless (fun r => r.next.percentPtr.length < e.percentPtr.length) (conversion e) := by
  have hfast := performOp_fast hf.plain
  cases hop : performOp true (fastSpecifier e.percentPtr) none printfBuffLen e.args with
  | error abort =>
      rw [hop] at hfast
      have hconv : conversion e = .error abort := by
        simp only [conversion, hop, bind, Except.bind]
      rw [hconv]
      exact hfast
  | ok r =>
      rw [hop] at hfast
      cases r with
      | some o =>
          rw [conversion_fast hop (hfast o rfl)]
          exact fastSpecifier_rest hne
      | none =>
          rw [conversion_slow hop]
          refine (slowPath_harmless hne hf fun d => opens_of_performOp hop).bind ?_
          rintro r - ⟨hends, hlt⟩
          have hcount : r.out.buffCount.toInt < r.out.buffLen.toInt := hends
          rw [if_pos hcount]
          exact hlt

theorem MinWidth.opens {percentPtr : List UInt8} {args : List Arg}
    (h : MinWidth (percentPtr.drop 1) args) : Opens (percentPtr.getD 1 0) := by
  obtain ⟨flags, rest, args', hp, hflags, -, -⟩ := h
  match flags with
  | [] =>
      rw [getD_of_drop hp]
      exact .inr (.inr (.inl rfl))
  | c :: flags =>
      rw [getD_of_drop hp]
      exact .inl (hflags c List.mem_cons_self)

theorem conversion_slow_error {e : Entry} {abort : Abort} (h : Opens (e.percentPtr.getD 1 0))
    (hslow : slowPath e = .error abort) : conversion e = .error abort := by
  rw [conversion_slow (performOp_opens h e.args), hslow]
  rfl

/-- **A conversion from any other entry** is a fault. -/
theorem conversion_faults {e : Entry} (hf : ¬e.Fits) :
    ∃ abort, conversion e = .error abort ∧ abort.isFault = true := by
  by_contra hno
  refine hf ⟨fun hmin => hno ?_, fun s args rest hp hargs hmax => hno ?_,
    fun d n hd hopens hn => ?_⟩
  · have hslow : slowPath e = .error .intOverflow := by
      simp only [slowPath, scanSpecifier_minWidth hmin, bind, Except.bind]
    exact ⟨.intOverflow, conversion_slow_error hmin.opens hslow, rfl⟩
  · have hfast : performOp true (fastSpecifier e.percentPtr) none printfBuffLen e.args =
        .error .intOverflow := by
      have hchar := getD_of_drop hp
      have hs : (fastSpecifier e.percentPtr).op = code 's' ∧
          (fastSpecifier e.percentPtr).sizeModifier = code ' ' := by
        simp only [fastSpecifier, hchar]
        exact ⟨rfl, rfl⟩
      simp only [performOp, hs.1, hs.2, if_neg (by decide : code 's' ∉ numberOps), if_true,
        ne_eq, not_true_eq_false, if_false, hargs, directString_overflow hmax]
      rfl
    refine ⟨.intOverflow, ?_, rfl⟩
    simp only [conversion, hfast, bind, Except.bind]
  · by_contra hroom
    apply hno
    obtain ⟨spec, hscan, hg⟩ := scanSpecifier_complete hd
    obtain ⟨abort, hslow, hfault⟩ := slowPath_overflow hscan hg hn hroom
    exact ⟨abort, conversion_slow_error hopens hslow, hfault⟩

end FastCgi
