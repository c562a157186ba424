import FastCgi.Protocol.Record
import Mathlib.Tactic.Ring

/-!
Name-value pairs (`doc/fcgi-spec.html`, section 3.4): the grammar as a
relation, and a parser that reads it from the left.

`Encodes bs ps` is the grammar: every pair is its two lengths, each in one
byte below 128 or in four bytes with the top bit set, then that many bytes
of name and of value. `parsePairs` reads pairs until the bytes run out or
until a pair is bad, and keeps what it has read so far: this is what the
library's `ReadParams` does with the bytes of a stream. The two meet in
`encodes_iff`, up to the bound `INT_MAX` that `ReadParams` puts on a length.
-/

namespace FastCgi

/-- `INT_MAX` of the C implementation. -/
abbrev intMax : ℕ := 2147483647

/-- The conversion to an `int` keeps what is one. -/
theorem bmod_of_le_intMax {n : ℕ} (h : n ≤ intMax) : Int.bmod n 4294967296 = n := by
  have hmax : n ≤ 2147483647 := h
  rw [Int.bmod_def]
  omega

structure NameValue where
  name : List UInt8
  value : List UInt8
  deriving DecidableEq, Repr

/-- The ASCII code of `=`. -/
abbrev equalSign : UInt8 := 61

/-- The environment entry of a pair: a NUL-terminated `name=value`. -/
def NameValue.entry (p : NameValue) : List UInt8 := p.name ++ equalSign :: (p.value ++ [0])

/-- A name that a C string can hold in front of an `=`. -/
def PlainName (name : List UInt8) : Prop := 0 ∉ name ∧ equalSign ∉ name

/-- The number in four bytes of which the first has its top bit set. -/
def longLen (b₃ b₂ b₁ b₀ : UInt8) : ℕ :=
  ((b₃.toNat &&& 0x7f) <<< 24) + (b₂.toNat <<< 16) + (b₁.toNat <<< 8) + b₀.toNat

theorem longLen_eq (b₃ b₂ b₁ b₀ : UInt8) :
    longLen b₃ b₂ b₁ b₀ =
      b₃.toNat % 128 * 2 ^ 24 + b₂.toNat * 2 ^ 16 + b₁.toNat * 2 ^ 8 + b₀.toNat := by
  simp only [longLen, Nat.shiftLeft_eq]
  rw [show (0x7f : ℕ) = 2 ^ 7 - 1 from rfl, Nat.and_two_pow_sub_one_eq_mod]

theorem longLen_le (b₃ b₂ b₁ b₀ : UInt8) : longLen b₃ b₂ b₁ b₀ ≤ intMax := by
  have h2 := b₂.toNat_lt
  have h1 := b₁.toNat_lt
  have h0 := b₀.toNat_lt
  rw [longLen_eq, show intMax = 2147483647 from rfl]
  omega

theorem and_0x80_ne_zero : ∀ n < 256, (n &&& 0x80 ≠ 0 ↔ 128 ≤ n) := by decide +kernel

theorem topBit_iff (b : UInt8) : b.toNat &&& 0x80 ≠ 0 ↔ 128 ≤ b.toNat :=
  and_0x80_ne_zero _ b.toNat_lt

/-! ### The grammar -/

/-- `bs` is a coding of the length `n`. -/
inductive LenCode : ℕ → List UInt8 → Prop
  | short {b : UInt8} (h : b.toNat < 128) : LenCode b.toNat [b]
  | long {b₃ b₂ b₁ b₀ : UInt8} (h : 128 ≤ b₃.toNat) :
      LenCode (longLen b₃ b₂ b₁ b₀) [b₃, b₂, b₁, b₀]

theorem LenCode.ne_nil {n : ℕ} {l : List UInt8} (h : LenCode n l) : l ≠ [] := by
  cases h <;> simp

/-- `bs` is a coding of the list of pairs `ps`. -/
inductive Encodes : List UInt8 → List NameValue → Prop
  | nil : Encodes [] []
  | cons {p : NameValue} {ln lv rest : List UInt8} {ps : List NameValue}
      (hn : LenCode p.name.length ln) (hv : LenCode p.value.length lv) (h : Encodes rest ps) :
      Encodes (ln ++ (lv ++ (p.name ++ (p.value ++ rest)))) (p :: ps)

theorem Encodes.append {bs bs' : List UInt8} {ps ps' : List NameValue} (h : Encodes bs ps)
    (h' : Encodes bs' ps') : Encodes (bs ++ bs') (ps ++ ps') := by
  induction h with
  | nil => exact h'
  | cons hn hv _ ih => simpa [List.append_assoc] using Encodes.cons hn hv ih

/-! ### The parser -/

/-- Why a pair cannot be read: the bytes run out in the middle of it, or one
of its lengths is too large; then some bytes are not read. -/
inductive BadPair where
  | truncated
  | tooLong (rest : List UInt8)
  deriving DecidableEq, Repr

/-- The three bytes that follow a first byte with its top bit set. -/
def parseLongLen (b : UInt8) : List UInt8 → Except BadPair (ℕ × List UInt8)
  | b₂ :: b₁ :: b₀ :: rest =>
      if intMax ≤ longLen b b₂ b₁ b₀ then .error (.tooLong rest)
      else .ok (longLen b b₂ b₁ b₀, rest)
  | _ => .error .truncated

/-- A length, after its first byte. -/
def parseLenAfter (b : UInt8) (bs : List UInt8) : Except BadPair (ℕ × List UInt8) :=
  if b.toNat &&& 0x80 ≠ 0 then parseLongLen b bs else .ok (b.toNat, bs)

def parseLen : List UInt8 → Except BadPair (ℕ × List UInt8)
  | [] => .error .truncated
  | b :: bs => parseLenAfter b bs

/-- The name and the value, once their lengths are known. -/
def parseNameValue (n m : ℕ) (bs : List UInt8) : Except BadPair (NameValue × List UInt8) :=
  if bs.length < n + m then .error .truncated
  else .ok (⟨bs.take n, (bs.drop n).take m⟩, (bs.drop n).drop m)

/-- One pair, after the first byte of its name length. -/
def parsePairAfter (b : UInt8) (bs : List UInt8) : Except BadPair (NameValue × List UInt8) :=
  match parseLenAfter b bs with
  | .error e => .error e
  | .ok (n, bs) =>
      match parseLen bs with
      | .error e => .error e
      | .ok (m, bs) => parseNameValue n m bs

def parsePairsAux : ℕ → List UInt8 → List NameValue × Option BadPair
  | _, [] => ([], none)
  | 0, _ => ([], none)
  | fuel + 1, b :: bs =>
      match parsePairAfter b bs with
      | .error e => ([], some e)
      | .ok (p, rest) => (p :: (parsePairsAux fuel rest).1, (parsePairsAux fuel rest).2)

/-- The pairs at the front of `bs`, and the bad pair that ends them, if any. -/
def parsePairs (bs : List UInt8) : List NameValue × Option BadPair :=
  parsePairsAux bs.length bs

theorem parseLongLen_eq_ok {b : UInt8} {bs rest : List UInt8} {n : ℕ}
    (h : parseLongLen b bs = .ok (n, rest)) :
    ∃ b₂ b₁ b₀, bs = b₂ :: b₁ :: b₀ :: rest ∧ n = longLen b b₂ b₁ b₀ ∧ n < intMax := by
  match bs with
  | [] | [_] | [_, _] => simp [parseLongLen] at h
  | b₂ :: b₁ :: b₀ :: bs =>
      rw [parseLongLen] at h
      split at h
      · simp at h
      · next hlt =>
          simp only [Except.ok.injEq, Prod.mk.injEq] at h
          obtain ⟨rfl, rfl⟩ := h
          exact ⟨b₂, b₁, b₀, rfl, rfl, Nat.lt_of_not_le hlt⟩

theorem length_of_parseLenAfter {b : UInt8} {bs rest : List UInt8} {n : ℕ}
    (h : parseLenAfter b bs = .ok (n, rest)) : rest.length ≤ bs.length := by
  rw [parseLenAfter] at h
  split at h
  · obtain ⟨b₂, b₁, b₀, rfl, -, -⟩ := parseLongLen_eq_ok h
    simp only [List.length_cons]
    omega
  · simp only [Except.ok.injEq, Prod.mk.injEq] at h
    simp [← h.2]

theorem length_of_parseLen {bs rest : List UInt8} {n : ℕ} (h : parseLen bs = .ok (n, rest)) :
    rest.length < bs.length := by
  match bs with
  | [] => simp [parseLen] at h
  | b :: bs =>
      have := length_of_parseLenAfter h
      simp only [List.length_cons]
      omega

theorem length_of_parseNameValue {n m : ℕ} {bs rest : List UInt8} {p : NameValue}
    (h : parseNameValue n m bs = .ok (p, rest)) : rest.length ≤ bs.length := by
  rw [parseNameValue] at h
  split at h
  · simp at h
  · simp only [Except.ok.injEq, Prod.mk.injEq] at h
    simp only [← h.2, List.length_drop]
    omega

theorem length_of_parsePairAfter {b : UInt8} {bs rest : List UInt8} {p : NameValue}
    (h : parsePairAfter b bs = .ok (p, rest)) : rest.length < bs.length := by
  rw [parsePairAfter] at h
  split at h
  · simp at h
  · next n bs₁ h₁ =>
      split at h
      · simp at h
      · next m bs₂ h₂ =>
          have := length_of_parseLenAfter h₁
          have := length_of_parseLen h₂
          have := length_of_parseNameValue h
          omega

theorem parsePairsAux_eq {fuel : ℕ} {bs : List UInt8} (h : bs.length ≤ fuel) :
    parsePairsAux fuel bs = parsePairs bs := by
  suffices H : ∀ (k fuel fuel' : ℕ) (bs : List UInt8), bs.length ≤ fuel → bs.length ≤ fuel' →
      bs.length ≤ k → parsePairsAux fuel bs = parsePairsAux fuel' bs by
    exact H bs.length fuel bs.length bs h le_rfl le_rfl
  intro k
  induction k with
  | zero =>
      intro fuel fuel' bs _ _ hk
      rw [List.length_eq_zero_iff.mp (by omega : bs.length = 0)]
      simp [parsePairsAux]
  | succ k ih =>
      intro fuel fuel' bs hf hf' hk
      match bs, fuel, fuel' with
      | [], _, _ => simp [parsePairsAux]
      | b :: bs, fuel + 1, fuel' + 1 =>
          simp only [List.length_cons] at hf hf' hk
          rw [parsePairsAux, parsePairsAux]
          split
          · rfl
          · next p rest hp =>
              have hlen := length_of_parsePairAfter hp
              rw [ih fuel fuel' rest (by omega) (by omega) (by omega)]

@[simp] theorem parsePairs_nil : parsePairs [] = ([], none) := rfl

theorem parsePairs_of_error {b : UInt8} {bs : List UInt8} {e : BadPair}
    (h : parsePairAfter b bs = .error e) : parsePairs (b :: bs) = ([], some e) := by
  rw [parsePairs, List.length_cons, parsePairsAux, h]

theorem parsePairs_of_ok {b : UInt8} {bs rest : List UInt8} {p : NameValue}
    (h : parsePairAfter b bs = .ok (p, rest)) :
    parsePairs (b :: bs) = (p :: (parsePairs rest).1, (parsePairs rest).2) := by
  have hlen := length_of_parsePairAfter h
  rw [parsePairs, List.length_cons, parsePairsAux, h]
  simp only [parsePairsAux_eq (show rest.length ≤ bs.length by omega)]

/-! ### The parser reads the grammar -/

theorem parseLen_of_lenCode {n : ℕ} {l : List UInt8} (h : LenCode n l) (hn : n < intMax)
    (rest : List UInt8) : parseLen (l ++ rest) = .ok (n, rest) := by
  cases h with
  | short h =>
      rw [List.singleton_append, parseLen, parseLenAfter, if_neg]
      rw [topBit_iff]
      omega
  | long h =>
      rw [List.cons_append, parseLen, parseLenAfter, if_pos ((topBit_iff _).mpr h)]
      exact if_neg (by omega)

theorem lenCode_of_parseLen {bs rest : List UInt8} {n : ℕ} (h : parseLen bs = .ok (n, rest)) :
    ∃ l, LenCode n l ∧ n < intMax ∧ bs = l ++ rest := by
  match bs with
  | [] => simp [parseLen] at h
  | b :: bs =>
      rw [parseLen, parseLenAfter] at h
      split at h
      · next htop =>
          obtain ⟨b₂, b₁, b₀, rfl, rfl, hlt⟩ := parseLongLen_eq_ok h
          exact ⟨_, .long ((topBit_iff b).mp htop), hlt, rfl⟩
      · next htop =>
          simp only [Except.ok.injEq, Prod.mk.injEq] at h
          obtain ⟨rfl, rfl⟩ := h
          rw [topBit_iff] at htop
          exact ⟨[b], .short (by omega), Nat.lt_of_lt_of_le b.toNat_lt (by decide), rfl⟩

theorem parsePairs_of_lenCode {p : NameValue} {ln lv : List UInt8}
    (hn : LenCode p.name.length ln) (hv : LenCode p.value.length lv)
    (hnb : p.name.length < intMax) (hvb : p.value.length < intMax) (rest : List UInt8) :
    parsePairs (ln ++ (lv ++ (p.name ++ (p.value ++ rest)))) =
      (p :: (parsePairs rest).1, (parsePairs rest).2) := by
  have hlen := parseLen_of_lenCode hn hnb (lv ++ (p.name ++ (p.value ++ rest)))
  obtain ⟨b, l, rfl⟩ := List.exists_cons_of_ne_nil hn.ne_nil
  rw [List.cons_append, parseLen] at hlen
  rw [List.cons_append]
  refine parsePairs_of_ok ?_
  rw [parsePairAfter, hlen]
  simp only [parseLen_of_lenCode hv hvb]
  rw [parseNameValue, if_neg (by simp), List.take_left' rfl, List.drop_left' rfl,
    List.take_left' rfl, List.drop_left' rfl]

theorem lenCode_of_parsePairAfter {b : UInt8} {bs rest : List UInt8} {p : NameValue}
    (h : parsePairAfter b bs = .ok (p, rest)) :
    ∃ ln lv, LenCode p.name.length ln ∧ LenCode p.value.length lv ∧
      p.name.length < intMax ∧ p.value.length < intMax ∧
      b :: bs = ln ++ (lv ++ (p.name ++ (p.value ++ rest))) := by
  rw [parsePairAfter] at h
  split at h
  · simp at h
  · next n bs₁ h₁ =>
      split at h
      · simp at h
      · next m bs₂ h₂ =>
          rw [parseNameValue] at h
          split at h
          · simp at h
          · next hlen =>
              simp only [Except.ok.injEq, Prod.mk.injEq] at h
              obtain ⟨rfl, rfl⟩ := h
              obtain ⟨ln, hln, hn, hbs⟩ := @lenCode_of_parseLen (b :: bs) _ _ h₁
              obtain ⟨lv, hlv, hm, rfl⟩ := lenCode_of_parseLen h₂
              have hname : (bs₂.take n).length = n := by
                rw [List.length_take]
                omega
              have hvalue : ((bs₂.drop n).take m).length = m := by
                rw [List.length_take, List.length_drop]
                omega
              refine ⟨ln, lv, by rwa [hname], by rwa [hvalue], by rwa [hname], by rwa [hvalue], ?_⟩
              rw [List.take_append_drop, List.take_append_drop, hbs]

/-- The pairs whose lengths `ReadParams` accepts. -/
def ShortPairs (ps : List NameValue) : Prop :=
  ∀ p ∈ ps, p.name.length < intMax ∧ p.value.length < intMax

/-- **The parser completes exactly on the grammar**, and then it has read the
coded pairs. -/
theorem encodes_iff {bs : List UInt8} {ps : List NameValue} :
    parsePairs bs = (ps, none) ↔ Encodes bs ps ∧ ShortPairs ps := by
  constructor
  · intro h
    induction hk : bs.length using Nat.strong_induction_on generalizing bs ps with
    | _ k ih =>
        match bs with
        | [] =>
            simp only [parsePairs_nil, Prod.mk.injEq, and_true] at h
            subst h
            exact ⟨.nil, by simp [ShortPairs]⟩
        | b :: bs =>
            cases hp : parsePairAfter b bs with
            | error e => simp [parsePairs_of_error hp] at h
            | ok pr =>
                obtain ⟨p, rest⟩ := pr
                simp only [parsePairs_of_ok hp, Prod.mk.injEq] at h
                obtain ⟨hps, hend⟩ := h
                subst hps
                have hlen := length_of_parsePairAfter hp
                rw [List.length_cons] at hk
                obtain ⟨henc, hshort⟩ := ih rest.length (by omega) (Prod.ext rfl hend) rfl
                obtain ⟨ln, lv, hn, hv, hnb, hvb, hbs⟩ := lenCode_of_parsePairAfter hp
                refine ⟨hbs ▸ .cons hn hv henc, ?_⟩
                intro q hq
                rcases List.mem_cons.mp hq with rfl | hq
                · exact ⟨hnb, hvb⟩
                · exact hshort q hq
  · rintro ⟨henc, hshort⟩
    induction henc with
    | nil => rfl
    | @cons p ln lv rest ps hn hv _ ih =>
        have hp := hshort p (by simp)
        rw [parsePairs_of_lenCode hn hv hp.1 hp.2 rest,
          ih fun q hq => hshort q (by simp [hq])]

/-! ### What is no list of pairs -/

/-- `bs` starts with a coding of the pair `p`, and `rest` is behind it. -/
def PairAt (p : NameValue) (bs rest : List UInt8) : Prop :=
  ∃ ln lv, LenCode p.name.length ln ∧ LenCode p.value.length lv ∧
    p.name.length < intMax ∧ p.value.length < intMax ∧
    bs = ln ++ (lv ++ (p.name ++ (p.value ++ rest)))

/-- There are bytes, and they do not start with a complete pair. -/
def NoPair (bs : List UInt8) : Prop := bs ≠ [] ∧ ∀ p rest, ¬PairAt p bs rest

theorem noPair_of_error {b : UInt8} {bs : List UInt8} {e : BadPair}
    (h : parsePairAfter b bs = .error e) : NoPair (b :: bs) := by
  refine ⟨List.cons_ne_nil b bs, fun p rest hpair => ?_⟩
  obtain ⟨ln, lv, hn, hv, hnb, hvb, heq⟩ := hpair
  have hparse := parsePairs_of_lenCode hn hv hnb hvb rest
  rw [← heq, parsePairs_of_error h] at hparse
  cases hparse

/-- **The parser stops at the first bad pair**, with the pairs in front of it. -/
theorem parsePairs_bad {bs : List UInt8} {ps : List NameValue} {bad : BadPair}
    (h : parsePairs bs = (ps, some bad)) :
    ∃ xs rest, bs = xs ++ rest ∧ Encodes xs ps ∧ ShortPairs ps ∧ NoPair rest := by
  induction hk : bs.length using Nat.strong_induction_on generalizing bs ps with
  | _ k ih =>
      cases bs with
      | nil => cases h
      | cons b bs =>
          cases hp : parsePairAfter b bs with
          | error e =>
              rw [parsePairs_of_error hp] at h
              cases h
              exact ⟨[], b :: bs, rfl, .nil, fun q hq => (List.not_mem_nil hq).elim,
                noPair_of_error hp⟩
          | ok pr =>
              obtain ⟨p, rest⟩ := pr
              rw [parsePairs_of_ok hp] at h
              obtain ⟨rfl, hend⟩ := Prod.mk.inj h
              have hlen := length_of_parsePairAfter hp
              rw [List.length_cons] at hk
              obtain ⟨xs, rest', hrest, henc, hshort, hno⟩ :=
                ih rest.length (by omega) (Prod.ext rfl hend) rfl
              obtain ⟨ln, lv, hn, hv, hnb, hvb, hbs⟩ := lenCode_of_parsePairAfter hp
              refine ⟨_, rest', ?_, .cons hn hv henc, ?_, hno⟩
              · rw [hbs, hrest]
                simp only [List.append_assoc]
              · intro q hq
                rcases List.mem_cons.mp hq with rfl | hmem
                · exact ⟨hnb, hvb⟩
                · exact hshort q hmem

/-- The lengths in bytes that are no longer than `INT_MAX` are all accepted. -/
theorem Encodes.short {bs : List UInt8} {ps : List NameValue} (h : Encodes bs ps)
    (hlen : bs.length < intMax) : ShortPairs ps := by
  induction h with
  | nil => exact fun q hq => (List.not_mem_nil hq).elim
  | @cons p ln lv rest ps hn hv _ ih =>
      simp only [List.length_append] at hlen
      intro q hq
      rcases List.mem_cons.mp hq with rfl | hmem
      · exact ⟨by omega, by omega⟩
      · exact ih (by omega) q hmem

end FastCgi
