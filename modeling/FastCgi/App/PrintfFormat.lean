import FastCgi.App.PrintfConversion
import Mathlib.Data.List.TakeWhile

/-!
What ISO C says of a format, and what a conversion of `FCGX_VFPrintF` leaves.

`ReadsFormat` is how ISO C reads a format with its arguments: characters and
conversions, each of which takes the arguments of its `*` and its own. A
conversion writes `Conv.text`. The code makes a precision below 0 a precision
of 0, where ISO C takes it for none, and it takes a text from `sprintf` up to
its first NUL; so it leaves `Conv.printed` (`conversion_prints`), which is
never longer and is the same where the conversion is `Conv.Exact`
(`Conv.printed_eq_text_iff`).
-/

namespace FastCgi

open BoundedLoop Numeral Sprintf

/-! ### What ISO C says -/

/-- A conversion with the value of its argument. The precision is as the format or its argument
has it. -/
structure Conv where
  flags : List UInt8
  width : ℤ
  precision : Option ℤ
  op : UInt8
  value : Value

/-- What `sprintf` is told: a width below 0 is a `-` flag and a width, and a precision below 0 is
taken as if there were none. -/
def Conv.spec (d : Conv) : Spec where
  flags := signedFlags d.flags d.width
  width := d.width.natAbs
  precision := d.precision.bind fun n => if n < 0 then none else some n.toNat
  conv := d.op

def Conv.text (d : Conv) : List UInt8 := render d.spec d.value

/-- What a format is made of; `%%` is the character `%`. -/
inductive Piece where
  | char (c : UInt8)
  | conv (d : Conv)

def Piece.text : Piece → List UInt8
  | .char c => [c]
  | .conv d => d.text

/-- What ISO C specifies for the format. -/
def isoText (ps : List Piece) : List UInt8 := ps.flatMap Piece.text

/-- The text of a precision, as ISO C reads it. -/
inductive IsoPrecision : List UInt8 → List Arg → Option ℤ → List Arg → Prop
  | none {args : List Arg} : IsoPrecision [] args none args
  | digits {ds : List UInt8} {args : List Arg} (hd : ∀ c ∈ ds, isDecimal c = true)
      (hlen : ds.length ≤ 6) : IsoPrecision (code '.' :: ds) args (some (readDecimal ds)) args
  | star {n : CInt} {args : List Arg} (h : n.toInt.natAbs ≤ 999999) :
      IsoPrecision [code '.', code '*'] (.int n :: args) (some n.toInt) args

/-- The unsigned conversions. -/
def unsignedOps : List UInt8 := ['u', 'o', 'x', 'X'].map code

/-- The argument of a conversion with its length modifier, and its value. -/
inductive ArgValue : UInt8 → List UInt8 → Arg → Value → Prop
  | int {op : UInt8} {n : CInt} (hop : op = code 'd' ∨ op = code 'i') :
      ArgValue op [] (.int n) (.signed n.toInt)
  | short {op : UInt8} {n : CInt} (hop : op = code 'd' ∨ op = code 'i') :
      ArgValue op [code 'h'] (.int n) (.signed (n.setWidth 16).toInt)
  | long {op : UInt8} {n : BitVec 64} {mt : List UInt8} (hop : op = code 'd' ∨ op = code 'i')
      (hm : mt = [code 'l'] ∨ mt = [code 'l', code 'l']) :
      ArgValue op mt (.long n) (.signed n.toInt)
  | unsignedInt {op : UInt8} {n : CInt} (hop : op ∈ unsignedOps) :
      ArgValue op [] (.int n) (.unsigned n.toNat)
  | unsignedShort {op : UInt8} {n : CInt} (hop : op ∈ unsignedOps) :
      ArgValue op [code 'h'] (.int n) (.unsigned (n.setWidth 16).toNat)
  | unsignedLong {op : UInt8} {n : BitVec 64} {mt : List UInt8} (hop : op ∈ unsignedOps)
      (hm : mt = [code 'l'] ∨ mt = [code 'l', code 'l']) :
      ArgValue op mt (.long n) (.unsigned n.toNat)
  | char {n : CInt} : ArgValue (code 'c') [] (.int n) (.char (UInt8.ofNat n.toNat))
  | pointer {n : BitVec 64} : ArgValue (code 'p') [] (.pointer n) (.pointer n.toNat)
  | string {s : CString} : ArgValue (code 's') [] (.string (some s)) (.string s.bytes)

/-- What follows a `%` with its arguments is a conversion, and what is left behind it. -/
inductive ReadsConv : List UInt8 → List Arg → Conv → List UInt8 → List Arg → Prop
  | intro {flags wt pt mt rest : List UInt8} {args args₁ args₂ : List Arg} {w : ℤ}
      {p : Option ℤ} {op : UInt8} {a : Arg} {v : Value}
      (hflags : ∀ c ∈ flags, isFlag c = true) (hlen : flags.length ≤ 5)
      (hw : WidthText wt args w args₁) (hp : IsoPrecision pt args₁ p (a :: args₂))
      (ha : ArgValue op mt a v) :
      ReadsConv (flags ++ (wt ++ (pt ++ (mt ++ op :: rest)))) args
        { flags := flags, width := w, precision := p, op := op, value := v } rest args₂

/-- **How ISO C reads a format** with its arguments; there may be more of these. -/
inductive ReadsFormat : List UInt8 → List Arg → List Piece → Prop
  | nil {args : List Arg} : ReadsFormat [] args []
  | char {c : UInt8} {format : List UInt8} {args : List Arg} {ps : List Piece}
      (hc : c ≠ code '%') (h : ReadsFormat format args ps) : ReadsFormat (c :: format) args (.char c :: ps)
  | percent {format : List UInt8} {args : List Arg} {ps : List Piece}
      (h : ReadsFormat format args ps) :
      ReadsFormat (code '%' :: code '%' :: format) args (.char (code '%') :: ps)
  | conv {format rest : List UInt8} {args args' : List Arg} {d : Conv} {ps : List Piece}
      (hd : ReadsConv format args d rest args') (h : ReadsFormat rest args' ps) :
      ReadsFormat (code '%' :: format) args (.conv d :: ps)

/-! ### What the code leaves -/

/-- What the code tells `sprintf`. -/
def Conv.fmtBuff (d : Conv) : Spec where
  flags := signedFlags d.flags d.width
  width := d.width.natAbs
  precision := d.precision.map Int.toNat
  conv := d.op

/-- What a conversion leaves at `buffPtr`, up to the first NUL. -/
def Conv.printed (d : Conv) : List UInt8 := (render d.fmtBuff d.value).takeWhile (· ≠ 0)

def Piece.printed : Piece → List UInt8
  | .char c => [c]
  | .conv d => d.printed

/-- What the code puts on the stream. -/
def printedText (ps : List Piece) : List UInt8 := ps.flatMap Piece.printed

theorem printedText_cons (p : Piece) (ps : List Piece) :
    printedText (p :: ps) = p.printed ++ printedText ps := List.flatMap_cons

/-- **The code writes what ISO C specifies**: the value is no NUL, and a precision that an
argument makes negative is as good as one of 0. -/
def Conv.Exact (d : Conv) : Prop :=
  d.value ≠ .char 0 ∧ ((∃ n ∈ d.precision, n < 0) → d.spec.IgnoresZero d.value)

theorem IsoPrecision.precisionArg {pt : List UInt8} {args args' : List Arg} {p : Option ℤ}
    (h : IsoPrecision pt args p args') : PrecisionArg pt args (p.map Int.toNat) args' := by
  cases h with
  | none => exact .none
  | digits hd hlen => exact .digits hd hlen
  | star h => exact .star (by omega)

/-- The conversion is one of those with an argument, and its value is what the code reads. -/
theorem ArgValue.cases {op : UInt8} {mt : List UInt8} {a : Arg} {v : Value}
    (h : ArgValue op mt a v) :
    ∃ m, ModifierText mt m ∧
      ((op ∈ numberOps ∧ ∀ args, numberArg op m (a :: args) = .ok (v, args)) ∨
        (op = code 's' ∧ m = code ' ' ∧ ∃ s : CString, a = .string (some s) ∧
          v = .string s.bytes)) := by
  have hsigned : ∀ {op}, op = code 'd' ∨ op = code 'i' → op ∈ numberOps ∧
      ∀ m args, numberArg op m args = signedArg m args := by
    rintro op (rfl | rfl)
    · exact ⟨by decide, fun m args => rfl⟩
    · exact ⟨by decide, fun m args => rfl⟩
  have hunsigned : ∀ {op}, op ∈ unsignedOps → op ∈ numberOps ∧
      ∀ m args, numberArg op m args = unsignedArg m args := by
    intro op hop
    simp only [unsignedOps, List.map_cons, List.map_nil, List.mem_cons, List.not_mem_nil,
      or_false] at hop
    rcases hop with rfl | rfl | rfl | rfl <;> exact ⟨by decide, fun m args => rfl⟩
  cases h with
  | int hop =>
      exact ⟨_, .none, .inl ⟨(hsigned hop).1, fun args => (hsigned hop).2 _ _⟩⟩
  | short hop =>
      exact ⟨_, .one (.inr (.inr rfl)), .inl ⟨(hsigned hop).1, fun args => (hsigned hop).2 _ _⟩⟩
  | long hop hm =>
      rcases hm with rfl | rfl
      · exact ⟨_, .one (.inl rfl), .inl ⟨(hsigned hop).1, fun args => (hsigned hop).2 _ _⟩⟩
      · exact ⟨_, .longLong, .inl ⟨(hsigned hop).1, fun args => (hsigned hop).2 _ _⟩⟩
  | unsignedInt hop =>
      exact ⟨_, .none, .inl ⟨(hunsigned hop).1, fun args => (hunsigned hop).2 _ _⟩⟩
  | unsignedShort hop =>
      exact ⟨_, .one (.inr (.inr rfl)),
        .inl ⟨(hunsigned hop).1, fun args => (hunsigned hop).2 _ _⟩⟩
  | unsignedLong hop hm =>
      rcases hm with rfl | rfl
      · exact ⟨_, .one (.inl rfl), .inl ⟨(hunsigned hop).1, fun args => (hunsigned hop).2 _ _⟩⟩
      · exact ⟨_, .longLong, .inl ⟨(hunsigned hop).1, fun args => (hunsigned hop).2 _ _⟩⟩
  | char => exact ⟨_, .none, .inl ⟨by decide, fun args => rfl⟩⟩
  | pointer => exact ⟨_, .none, .inl ⟨by decide, fun args => rfl⟩⟩
  | string => exact ⟨_, .none, .inr ⟨rfl, rfl, _, rfl, rfl⟩⟩

/-- What every conversion that is read has. -/
structure Conv.Read (d : Conv) : Prop where
  op : d.op ≠ 0
  value : d.value ≠ .char 0 → d.value.NoNul

theorem ReadsConv.read {p rest : List UInt8} {args args' : List Arg} {d : Conv}
    (h : ReadsConv p args d rest args') : d.Read := by
  cases h with
  | intro hflags hlen hw hp ha =>
      obtain ⟨m, -, hcases⟩ := ha.cases
      constructor
      · rintro (rfl : _ = (0 : UInt8))
        rcases hcases with ⟨hop, -⟩ | ⟨hop, -⟩
        · exact absurd hop (by decide)
        · exact absurd hop (by decide)
      · intro hne
        cases ha with
        | char => exact fun h => hne (congrArg Value.char h)
        | @string s => exact s.noNul
        | int | short | long | unsignedInt | unsignedShort | unsignedLong | pointer => trivial

section

variable {d : Conv}

theorem Conv.fmtBuff_eq (d : Conv) :
    (∃ n ∈ d.precision, n < 0) ∧ d.spec.precision = none ∧ d.fmtBuff = d.spec.zeroPrecision ∨
      (¬∃ n ∈ d.precision, n < 0) ∧ d.fmtBuff = d.spec := by
  obtain ⟨flags, width, precision, op, value⟩ := d
  cases precision with
  | none => exact .inr ⟨fun ⟨_, h, _⟩ => (nomatch h), rfl⟩
  | some n =>
      by_cases hn : n < 0
      · have hzero : n.toNat = 0 := Int.toNat_of_nonpos (Int.le_of_lt hn)
        refine .inl ⟨⟨n, rfl, hn⟩, ?_, ?_⟩
        · simp only [spec, Option.bind_some, if_pos hn]
        · simp only [fmtBuff, spec, Spec.zeroPrecision, Option.map_some, hzero]
      · refine .inr ⟨?_, ?_⟩
        · rintro ⟨k, hk, hneg⟩
          obtain rfl := Option.some.inj hk
          exact hn hneg
        · simp only [fmtBuff, spec, Option.map_some, Option.bind_some, if_neg hn]

theorem Conv.length_render_le (d : Conv) :
    (render d.fmtBuff d.value).length ≤ d.text.length := by
  rcases d.fmtBuff_eq with ⟨-, hnone, heq⟩ | ⟨-, heq⟩
  · rw [heq]
    exact length_render_zero_le hnone d.value
  · rw [heq]
    exact le_rfl

/-- **The code puts no more than ISO C.** -/
theorem Conv.length_printed_le (d : Conv) : d.printed.length ≤ d.text.length :=
  Nat.le_trans (List.takeWhile_prefix _).length_le d.length_render_le

theorem Piece.length_printed_le (p : Piece) : p.printed.length ≤ p.text.length := by
  cases p with
  | char c => exact le_rfl
  | conv d => exact d.length_printed_le

/-- **When a conversion is the one of ISO C.** -/
theorem Conv.printed_eq_text_iff (h : d.Read) : d.printed = d.text ↔ d.Exact := by
  by_cases hzero : d.value = .char 0
  · refine iff_of_false (fun heq => ?_) fun hexact => hexact.1 hzero
    have hmem : (0 : UInt8) ∈ d.text := by
      refine mem_render_of_body ?_
      rw [hzero]
      exact List.mem_singleton_self _
    rw [← heq] at hmem
    have hne := List.mem_takeWhile_imp (p := fun c : UInt8 => decide (c ≠ 0)) hmem
    exact of_decide_eq_true hne rfl
  · have hwhole : d.printed = render d.fmtBuff d.value := by
      have hnul : (0 : UInt8) ∉ render d.fmtBuff d.value :=
        zero_not_mem_render h.op (h.value hzero)
      refine List.takeWhile_eq_self_iff.mpr fun c hc => decide_eq_true ?_
      rintro rfl
      exact hnul hc
    rw [hwhole, Conv.Exact, and_iff_right hzero]
    rcases d.fmtBuff_eq with ⟨hneg, hnone, heq⟩ | ⟨hpos, heq⟩
    · rw [heq]
      exact (render_zero_eq_iff hnone d.value).trans ⟨fun hi _ => hi, fun hi => hi hneg⟩
    · rw [heq]
      exact iff_of_true rfl fun hneg => absurd hneg hpos

end

/-! ### One conversion -/

/-- What is left at `buffPtr` is this text. -/
structure Output.Puts (o : Output) (text : List UInt8) : Prop where
  count : o.buffCount.toInt = text.length
  take : o.text.take text.length = text

/-- The conversion leaves this text, and the call goes on from there; or it is a fault. -/
def Prints (text rest : List UInt8) (args : List Arg) : Except Abort Converted → Prop
  | .ok r => r.out.Puts text ∧ r.next.percentPtr = rest ∧ r.next.args = args
  | .error abort => abort.isFault = true

/-- The assertion behind the two paths. -/
def checkCount (r : Converted) : Except Abort Converted :=
  if r.out.buffCount.toInt < r.out.buffLen.toInt then .ok r else .error .assertion

theorem Prints.checkCount {text rest : List UInt8} {args : List Arg}
    {x : Except Abort Converted} (h : Prints text rest args x) :
    Prints text rest args (x >>= checkCount) := by
  cases x with
  | error abort => exact h
  | ok r =>
      show Prints text rest args (FastCgi.checkCount r)
      rw [FastCgi.checkCount]
      split
      · exact h
      · exact rfl

theorem sprintfBuff_prints (buffLen : CInt) (fmt : List UInt8) (v : Value) (rest : List UInt8)
    (args : List Arg) (next : Output → Entry)
    (hnext : ∀ o, (next o).percentPtr = rest ∧ (next o).args = o.args) :
    Prints ((sprintf fmt v).takeWhile (· ≠ 0)) rest args
      ((sprintfBuff buffLen fmt v args).map fun out => { out := out, next := next out }) := by
  have hmax := cInt_le buffLen
  have hprefix := List.takeWhile_prefix (· ≠ (0 : UInt8)) (l := sprintf fmt v)
  have hlen := hprefix.length_le
  rw [sprintfBuff]
  split
  · next hfits =>
      refine ⟨⟨toInt_ofNat_lt (by omega), ?_⟩, hnext _⟩
      exact (List.prefix_iff_eq_take.mp hprefix).symm
  · exact rfl

/-- `%s` on the fast path. -/
theorem directString_prints (s : CString) (rest : List UInt8) (args : List Arg)
    (next : Output → Entry)
    (hnext : ∀ o, (next o).percentPtr = rest ∧ (next o).args = o.args)
    (hlen : s.bytes.length ≤ intMax) :
    Prints s.bytes rest args
      ((directString (.string (some s) :: args)).map fun out =>
        { out := out, next := next out }) := by
  rw [directString]
  simp only [addInt]
  split
  · refine ⟨⟨toInt_ofNat_lt hlen, ?_⟩, hnext _⟩
    exact List.take_length
  · exact rfl

/-- Where the fast path performs the conversion. -/
theorem conversion_fast_eq {e : Entry} {x : Except Abort Output}
    (h : performOp true (fastSpecifier e.percentPtr) none printfBuffLen e.args = x.map some) :
    conversion e = (x.map fun out =>
      { out := out, next := ⟨(fastSpecifier e.percentPtr).rest, out.args, e.auxBuffLen⟩ }) >>=
        checkCount := by
  simp only [conversion, h, bind, Except.bind]
  cases x <;> rfl

/-- A directive without flags, width and precision. -/
theorem conversion_prints_plain {e : Entry} {c m op : UInt8} {mt rest : List UInt8} {a : Arg}
    {args : List Arg} {v : Value} (hp : e.percentPtr = c :: (mt ++ op :: rest))
    (hargs : e.args = a :: args) (hm : ModifierText mt m)
    (ha : (op ∈ numberOps ∧ ∀ args, numberArg op m (a :: args) = .ok (v, args)) ∨
      (op = code 's' ∧ m = code ' ' ∧ ∃ s : CString, a = .string (some s) ∧ v = .string s.bytes))
    (hlen : (Conv.printed ⟨[], 0, none, op, v⟩).length ≤ intMax) :
    Prints (Conv.printed ⟨[], 0, none, op, v⟩) rest args (conversion e) := by
  have hop : Converts op := ha.imp And.left And.left
  have hfast : fastSpecifier e.percentPtr =
      { fmtBuff := code '%' :: (mt ++ [op]), sizeModifier := m, op := op, rest := rest } := by
    rw [hp, fastSpecifier_eq hm hop]
  rcases ha with ⟨hnumber, harg⟩ | ⟨rfl, rfl, s, rfl, rfl⟩
  · have hperform : performOp true (fastSpecifier e.percentPtr) none printfBuffLen e.args =
        (sprintfBuff printfBuffLen (code '%' :: (mt ++ [op])) v args).map some := by
      rw [hfast, performOp_number hnumber, hargs, harg]
      rfl
    have hnil : ∀ (p : UInt8 → Bool), ∀ c ∈ ([] : List UInt8), p c = true := fun _ _ h => nomatch h
    have hparse : parse ([code '%'] ++ [] ++ ([] ++ []) ++ [] ++ mt ++ [op]) =
        { flags := [] ++ [], width := readDecimal [], precision := none, conv := op } :=
      parse_fmtBuff_eq (hnil isFlag) (hnil isFlag) (hnil isDecimal) (fun _ h => nomatch h) .none
        hm hop
    replace hparse : parse (code '%' :: (mt ++ [op])) =
        { flags := [], width := 0, precision := none, conv := op } := hparse
    have hprints := sprintfBuff_prints printfBuffLen (code '%' :: (mt ++ [op])) v rest args
      (fun o => ⟨rest, o.args, e.auxBuffLen⟩) fun o => ⟨rfl, rfl⟩
    rw [sprintf, hparse] at hprints
    rw [conversion_fast_eq hperform, hfast]
    exact hprints.checkCount
  · have hperform : performOp true (fastSpecifier e.percentPtr) none printfBuffLen e.args =
        (directString (.string (some s) :: args)).map some := by
      rw [hfast, hargs]
      rfl
    have hprinted : Conv.printed ⟨[], 0, none, code 's', .string s.bytes⟩ = s.bytes := by
      have hrender : render (Conv.fmtBuff ⟨[], 0, none, code 's', .string s.bytes⟩)
          (.string s.bytes) = s.bytes := render_eq_text (Nat.zero_le _)
      rw [Conv.printed, hrender]
      refine List.takeWhile_eq_self_iff.mpr fun c hc => decide_eq_true ?_
      rintro rfl
      exact s.noNul hc
    rw [hprinted] at hlen ⊢
    have hprints := directString_prints s rest args (fun o => ⟨rest, o.args, e.auxBuffLen⟩)
      (fun o => ⟨rfl, rfl⟩) hlen
    rw [conversion_fast_eq hperform, hfast]
    exact hprints.checkCount

/-- A directive with flags, a width or a precision. -/
theorem conversion_prints_opens {e : Entry} {c : UInt8} {flags wt pt mt rest : List UInt8}
    {args₁ args : List Arg} {w : ℤ} {k : Option ℕ} {m op : UInt8} {a : Arg} {v : Value}
    (hp : e.percentPtr = c :: (flags ++ (wt ++ (pt ++ (mt ++ op :: rest)))))
    (hopens : Opens (e.percentPtr.getD 1 0)) (hflags : ∀ c ∈ flags, isFlag c = true)
    (hlen : flags.length ≤ 5) (hw : WidthText wt e.args w args₁)
    (hk : PrecisionArg pt args₁ k (a :: args)) (hm : ModifierText mt m)
    (ha : (op ∈ numberOps ∧ ∀ args, numberArg op m (a :: args) = .ok (v, args)) ∨
      (op = code 's' ∧ m = code ' ' ∧ ∃ s : CString, a = .string (some s) ∧ v = .string s.bytes)) :
    Prints ((render ⟨signedFlags flags w, w.natAbs, k, op⟩ v).takeWhile (· ≠ 0)) rest args
      (conversion e) := by
  have hop : Converts op := ha.imp And.left And.left
  have hdrop : e.percentPtr.drop 1 = flags ++ (wt ++ (pt ++ (mt ++ op :: rest))) := by
    rw [hp]
    rfl
  obtain ⟨spec, signs, hscan, hrest, hg, hsign, hparse⟩ :=
    scanSpecifier_parts hdrop hflags hlen hw hk hm hop
  have hsprintf : sprintf spec.fmtBuff v = render ⟨signedFlags flags w, w.natAbs, k, op⟩ v := by
    rw [sprintf, hparse, hsign.render]
  have hfound : ∃ b s args', boundBuffer spec = .ok (b, s, args') ∧
      ∀ buffLen, performOp false spec.toSpecifier s buffLen args' =
        (sprintfBuff buffLen spec.fmtBuff v args).map some := by
    rcases ha with ⟨hnumber, harg⟩ | ⟨rfl, rfl, s, rfl, rfl⟩
    · refine ⟨maxInt spec.precision 46, none, spec.args, ?_, fun buffLen => ?_⟩
      · rw [boundBuffer, if_pos (by rwa [hg.op])]
      · rw [performOp_number (by rwa [hg.op]), hg.op, hg.sizeModifier, hg.args, harg]
        rfl
    · have hs : spec.op = code 's' := hg.op
      have hmod : spec.sizeModifier = code ' ' := hg.sizeModifier
      refine ⟨BitVec.ofNat 32 (if spec.precision = -1 then s.bytes.length else
        min s.bytes.length spec.precision.toNat), some s, args, ?_, fun buffLen => ?_⟩
      · rw [boundBuffer, if_neg (by rw [hs]; decide), if_pos hs, hg.args]
        simp only [hmod, ne_eq, not_true_eq_false, if_false]
        rfl
      · simp only [performOp, hs, hmod, if_neg (by decide : code 's' ∉ numberOps), if_true,
          ne_eq, not_true_eq_false, if_false]
        rfl
  obtain ⟨b, s, args', hbound, hperform⟩ := hfound
  have hslow : Prints ((sprintf spec.fmtBuff v).takeWhile (· ≠ 0)) rest args (slowPath e) := by
    by_cases hsum : b.toInt + (10 : CInt).toInt ≤ (intMax : ℤ)
    · rw [slowPath_eq hscan hbound hperform (addInt_eq (by decide) hsum).1]
      exact sprintfBuff_prints _ _ _ _ _ _ fun o => ⟨hrest, rfl⟩
    · have hover : slowPath e = .error .intOverflow := by
        simp only [slowPath, hscan, hbound, addInt, if_neg hsum, bind, Except.bind]
      rw [hover]
      exact rfl
  rw [conversion_slow (performOp_opens hopens e.args), ← hsprintf]
  exact hslow.checkCount

/-- **What a conversion leaves**, where it is no fault. -/
theorem conversion_prints {e : Entry} {c : UInt8} {p rest : List UInt8} {args : List Arg}
    {d : Conv} (hp : e.percentPtr = c :: p) (hd : ReadsConv p e.args d rest args)
    (hlen : d.printed.length ≤ intMax) : Prints d.printed rest args (conversion e) := by
  generalize hargs : e.args = args₀ at hd
  cases hd with
  | intro hflags hlength hw hpr ha =>
      rename_i flags wt pt mt args₁ w k op a v
      obtain ⟨m, hm, hcases⟩ := ha.cases
      have hk := hpr.precisionArg
      rcases plain_or_opens hflags hw hk with ⟨rfl, rfl, rfl⟩ | ⟨c', q, hcq, hopens⟩
      · cases hw with
        | digits =>
            cases hpr with
            | none => exact conversion_prints_plain hp hargs hm hcases hlen
      · have hget : e.percentPtr.getD 1 0 = c' := by
          have hsplit : flags ++ (wt ++ (pt ++ (mt ++ op :: rest))) =
              c' :: (q ++ (mt ++ op :: rest)) := by
            rw [← List.cons_append, ← hcq]
            simp only [List.append_assoc]
          rw [hp, hsplit]
          rfl
        exact conversion_prints_opens hp (hget ▸ hopens) hflags hlength (hargs ▸ hw) hk hm hcases

/-- `%%`. -/
theorem conversion_percent {e : Entry} {c : UInt8} {rest : List UInt8}
    (hp : e.percentPtr = c :: code '%' :: rest) :
    Prints [code '%'] rest e.args (conversion e) := by
  have hfast : fastSpecifier e.percentPtr =
      { fmtBuff := [code '%', code '%'], sizeModifier := code ' ', op := code '%'
        rest := rest } := by
    rw [hp]
    rfl
  have hperform : performOp true (fastSpecifier e.percentPtr) none printfBuffLen e.args =
      .ok (some { text := [code '%'], buffCount := 1, buffLen := printfBuffLen
                  args := e.args }) := by
    rw [hfast]
    rfl
  have hends : (1 : CInt).toInt < printfBuffLen.toInt := by decide
  rw [conversion_fast hperform hends, hfast]
  exact ⟨⟨(by decide : (1 : CInt).toInt = 1), rfl⟩, rfl, rfl⟩

end FastCgi
