import FastCgi.Java.InputStream

/-!
What the `read` methods of the Java reader return, from what `fill` does.

`Supplies fill I` are the laws of a fill procedure under which a stream in
`I bs` delivers the bytes `bs` and then reports the end. They are used twice:
for the content of a record under `eorStop`, which `readParams` reads, and
for the content of a whole stream.
-/

namespace FastCgi

namespace Java

open ByteMem BoundedLoop

namespace InChan

/-- The end of the stream is reported, now and by every later call. -/
structure AtEnd (c : InChan) : Prop where
  rdNext_eq : c.stream.rdNext = c.stream.stop
  isClosed : c.stream.isClosed = true

/-- `rdNext += m`. -/
def advance (m : ℤ) (c : InChan) : InChan :=
  { c with stream := { c.stream with rdNext := c.stream.rdNext + m } }

/-- The bytes between `rdNext` and `stop` are in the buffer, and `bs` starts with them. -/
structure Front (bs : List UInt8) (c : InChan) : Prop where
  nonneg : 0 ≤ c.stream.rdNext
  le_stop : c.stream.rdNext ≤ c.stream.stop
  stop_le : c.stream.stop ≤ c.stream.buffLen
  isPrefix :
    slice c.stream.buff c.stream.rdNext.toNat (c.stream.stop - c.stream.rdNext).toNat <+: bs

/-- The laws of a fill procedure: in `I bs` the stream delivers `bs`. -/
structure Supplies (fill : InChan → Option InChan) (I : List UInt8 → InChan → Prop) : Prop where
  front : ∀ {bs c}, I bs c → c.Front bs
  advance : ∀ {bs c m}, I bs c → 0 ≤ m → m ≤ c.stream.stop - c.stream.rdNext →
    I (bs.drop m.toNat) (c.advance m)
  atEnd : ∀ {bs c}, I bs c → c.AtEnd → bs = []
  fill : ∀ {bs c}, I bs c → c.stream.rdNext = c.stream.stop → c.stream.isClosed = false →
    ∃ c', fill c = some c' ∧ I bs c' ∧
      (c'.stream.rdNext = c'.stream.stop → c'.stream.isClosed = true)
  length_le : ∀ {bs c}, I bs c → bs.length ≤ c.unread.length

variable {fill : InChan → Option InChan} {I : List UInt8 → InChan → Prop} {bs : List UInt8}
  {c : InChan}

/-! ### `read` -/

theorem Front.take {m : ℤ} (h : c.Front bs) (hle : m ≤ c.stream.stop - c.stream.rdNext) :
    slice c.stream.buff c.stream.rdNext.toNat m.toNat = bs.take m.toNat := by
  obtain ⟨rest, hrest⟩ := h.isPrefix
  have hle' : m.toNat ≤ (c.stream.stop - c.stream.rdNext).toNat := Int.toNat_le_toNat hle
  rw [← hrest, List.take_append_of_le_length (by rwa [length_slice]), take_slice _ _ hle']

theorem Front.takeBytes {m : ℤ} (h : c.Front bs) (hm : 0 ≤ m)
    (hle : m ≤ c.stream.stop - c.stream.rdNext) :
    c.takeBytes m = some (bs.take m.toNat, c.advance m) := by
  have hroom := h.stop_le
  rw [InChan.takeBytes, if_pos ⟨hm, h.nonneg, by omega⟩, h.take hle]
  rfl

theorem Front.takeByte (h : c.Front bs) (hne : c.stream.rdNext ≠ c.stream.stop) :
    c.takeByte = some (bs.head?, c.advance 1) ∧ bs ≠ [] := by
  have hnonneg := h.nonneg
  have hle := h.le_stop
  have hroom := h.stop_le
  have hone := h.take (m := 1) (by omega)
  cases bs with
  | nil => exact nomatch hone
  | cons b bs =>
      obtain ⟨hb, -⟩ := List.cons.inj hone
      rw [InChan.takeByte, if_pos ⟨hnonneg, by omega⟩, hb]
      exact ⟨rfl, List.cons_ne_nil _ _⟩

/-- A byte is read, or the end reported. -/
theorem Supplies.read (h : Supplies fill I) (hI : I bs c) :
    ∃ c', c.read fill = some (bs.head?, c') ∧ I bs.tail c' ∧ (bs = [] → c'.AtEnd) := by
  have hbyte : ∀ {c : InChan}, I bs c → c.stream.rdNext ≠ c.stream.stop →
      ∃ c', c.takeByte = some (bs.head?, c') ∧ I bs.tail c' ∧ (bs = [] → c'.AtEnd) := by
    intro c hI hne
    have hle := (h.front hI).le_stop
    obtain ⟨htake, hnil⟩ := (h.front hI).takeByte hne
    refine ⟨c.advance 1, htake, ?_, fun hbs => absurd hbs hnil⟩
    have hrest := h.advance (m := 1) hI (by omega) (by omega)
    rwa [show (1 : ℤ).toNat = 1 from rfl, List.drop_one] at hrest
  rw [InChan.read]
  by_cases hne : c.stream.rdNext ≠ c.stream.stop
  · rw [if_pos hne]
    exact hbyte hI hne
  · rw [if_neg hne]
    have heq := not_not.mp hne
    by_cases hclosed : c.stream.isClosed = true
    · have hend : c.AtEnd := ⟨heq, hclosed⟩
      have hnil := h.atEnd hI hend
      subst hnil
      rw [if_pos hclosed]
      exact ⟨c, rfl, hI, fun _ => hend⟩
    · rw [if_neg hclosed]
      obtain ⟨c', hfill, hI', hstop⟩ := h.fill hI heq (by simpa using hclosed)
      simp only [hfill]
      by_cases hne' : c'.stream.rdNext ≠ c'.stream.stop
      · rw [if_pos hne']
        exact hbyte hI' hne'
      · rw [if_neg hne']
        have heq' := not_not.mp hne'
        have hend : c'.AtEnd := ⟨heq', hstop heq'⟩
        have hnil := h.atEnd hI' hend
        subst hnil
        exact ⟨c', rfl, hI', fun _ => hend⟩

/-! ### `read` into an array -/

/-- The loop of `read`: some bytes have been moved, and the stream delivers the rest. -/
structure Moving (I : List UInt8 → InChan → Prop) (bs : List UInt8) (len : ℕ)
    (x : List UInt8 × InChan) : Prop where
  lt : x.1.length < len
  rest : ∃ rest, bs = x.1 ++ rest ∧ I rest x.2

/-- The loop is left with what was asked for, or with what there is. -/
structure Moved (I : List UInt8 → InChan → Prop) (bs : List UInt8) (len : ℕ)
    (r : List UInt8 × InChan) : Prop where
  bytes : r.1 = bs.take len
  rest : I (bs.drop len) r.2
  short : bs.length < len → r.2.AtEnd

/-- Another pass is needed only to fill the empty buffer. -/
def waiting (c : InChan) : ℕ :=
  if c.stream.rdNext = c.stream.stop ∧ c.stream.isClosed = false then 1 else 0

theorem Supplies.readFill (h : Supplies fill I) {len : ℕ} {x : List UInt8 × InChan}
    (hx : Moving I bs len x) (heq : x.2.stream.rdNext = x.2.stream.stop) :
    (∃ r, readFill fill x = some (.done r) ∧ Moved I bs len r) ∨
      ∃ x', readFill fill x = some (.again x') ∧ Moving I bs len x' ∧ x'.1 = x.1 ∧
        x'.2.waiting = 0 := by
  obtain ⟨hlt, rest, hrest, hI⟩ := hx
  rw [InChan.readFill]
  by_cases hclosed : x.2.stream.isClosed = true
  · have hnil := h.atEnd hI ⟨heq, hclosed⟩
    subst hnil
    rw [List.append_nil] at hrest
    rw [if_pos hclosed]
    refine .inl ⟨x, rfl, ?_, ?_, fun _ => ⟨heq, hclosed⟩⟩
    · rw [hrest, List.take_of_length_le hlt.le]
    · rw [hrest, List.drop_eq_nil_of_le hlt.le]
      exact hI
  · rw [if_neg hclosed]
    obtain ⟨c', hfill, hI', hstop⟩ := h.fill hI heq (by simpa using hclosed)
    simp only [hfill]
    refine .inr ⟨(x.1, c'), rfl, ⟨hlt, rest, hrest, hI'⟩, rfl, ?_⟩
    rw [waiting, if_neg]
    rintro ⟨heq', hopen⟩
    rw [hstop heq'] at hopen
    exact nomatch hopen

/-- One pass moves a byte or fills the buffer. -/
theorem Supplies.readBytesBody (h : Supplies fill I) {len : ℕ} {x : List UInt8 × InChan}
    (hx : Moving I bs len x) :
    (∃ r, readBytesBody fill len x = some (.done r) ∧ Moved I bs len r) ∨
      ∃ x', readBytesBody fill len x = some (.again x') ∧ Moving I bs len x' ∧
        len - x'.1.length + x'.2.waiting < len - x.1.length + x.2.waiting := by
  by_cases hne : x.2.stream.rdNext ≠ x.2.stream.stop
  · obtain ⟨hlt, rest, hrest, hI⟩ := hx
    have hfront := h.front hI
    have hle := hfront.le_stop
    obtain ⟨m, hm⟩ : ∃ m, min ((len : ℤ) - x.1.length) (x.2.stream.stop - x.2.stream.rdNext) = m :=
      ⟨_, rfl⟩
    have hpos : 0 < m := by omega
    have hmle : m ≤ x.2.stream.stop - x.2.stream.rdNext := by omega
    have hlen : (rest.take m.toNat).length = m.toNat := by
      rw [← hfront.take hmle, length_slice]
    have hmoved : bs = x.1 ++ rest.take m.toNat ++ rest.drop m.toNat := by
      rw [List.append_assoc, List.take_append_drop, hrest]
    have hI' := h.advance hI hpos.le hmle
    simp only [InChan.readBytesBody, if_pos hne, hm, hfront.takeBytes hpos.le hmle]
    -- `m` bytes are moved; either they are the last ones asked for, or the buffer is empty
    by_cases hall : ((x.1 ++ rest.take m.toNat).length : ℤ) = len
    · rw [if_pos hall]
      have hall' : (x.1 ++ rest.take m.toNat).length = len := by exact_mod_cast hall
      refine .inl ⟨_, rfl, ?_, ?_, fun hshort => ?_⟩
      · rw [hmoved, List.take_left' hall']
      · rwa [hmoved, List.drop_left' hall']
      · rw [hmoved, List.length_append, hall'] at hshort
        omega
    · rw [if_neg hall]
      rw [List.length_append, hlen, Nat.cast_add, Int.toNat_of_nonneg hpos.le] at hall
      have hx' : Moving I bs len (x.1 ++ rest.take m.toNat, x.2.advance m) := by
        refine ⟨?_, _, hmoved, hI'⟩
        rw [List.length_append, hlen]
        omega
      have hstop : (x.2.advance m).stream.rdNext = (x.2.advance m).stream.stop := by
        show x.2.stream.rdNext + m = x.2.stream.stop
        omega
      rcases h.readFill hx' hstop with hdone | ⟨x'', hagain, hx'', hfirst, hwait⟩
      · exact .inl hdone
      · refine .inr ⟨x'', hagain, hx'', ?_⟩
        rw [hfirst, hwait, List.length_append, hlen]
        omega
  · have heq := not_not.mp hne
    rw [InChan.readBytesBody, if_neg hne]
    rcases h.readFill hx heq with hdone | ⟨x', hagain, hx', hfirst, hwait⟩
    · exact .inl hdone
    · by_cases hclosed : x.2.stream.isClosed = true
      · rw [InChan.readFill, if_pos hclosed] at hagain
        exact nomatch hagain
      · refine .inr ⟨x', hagain, hx', ?_⟩
        have hone : x.2.waiting = 1 := by
          rw [waiting, if_pos ⟨heq, by simpa using hclosed⟩]
        rw [hfirst, hwait, hone]
        omega

/-- An array is filled as far as the bytes go. -/
theorem Supplies.readBytes (h : Supplies fill I) (hI : I bs c) (len : ℤ) :
    ∃ c', c.readBytes fill len = some (bs.take len.toNat, c') ∧ I (bs.drop len.toNat) c' ∧
      (bs.length < len.toNat → c'.AtEnd) := by
  rw [InChan.readBytes]
  by_cases hnone : len ≤ 0
  · rw [if_pos hnone, Int.toNat_of_nonpos hnone]
    exact ⟨c, rfl, hI, fun hshort => absurd hshort (Nat.not_lt_zero _)⟩
  · rw [if_neg hnone]
    by_cases hfast : len ≤ c.stream.stop - c.stream.rdNext
    · rw [if_pos hfast]
      refine ⟨c.advance len, (h.front hI).takeBytes (by omega) hfast,
        h.advance hI (by omega) hfast, fun hshort => ?_⟩
      have hlen := congrArg List.length ((h.front hI).take hfast)
      rw [length_slice, List.length_take] at hlen
      omega
    · rw [if_neg hfast]
      obtain ⟨n, rfl⟩ := Int.eq_ofNat_of_zero_le (show 0 ≤ len by omega)
      have hstart : Moving I bs n ([], c) := ⟨by simp only [List.length_nil]; omega, bs, rfl, hI⟩
      have hwait : c.waiting ≤ 1 := by
        rw [waiting]
        split <;> omega
      have hfuel : n - ([] : List UInt8).length + c.waiting <
          (n : ℤ).toNat + c.unread.length + 2 := by
        rw [List.length_nil, Int.toNat_natCast]
        omega
      obtain ⟨r, hrun, hmoved⟩ := run_total (Moving I bs n) (Moved I bs n)
        (fun x => n - x.1.length + x.2.waiting) (fun x hx => h.readBytesBody hx) hstart hfuel
      refine ⟨r.2, ?_, hmoved.rest, hmoved.short⟩
      rw [hrun, Int.toNat_natCast, ← hmoved.bytes]

/-! ### `readParams` -/

theorem joinLen_eq (b₃ b₂ b₁ b₀ : UInt8) : joinLen b₃ b₂ b₁ b₀ = longLen b₃ b₂ b₁ b₀ := by
  have h₂ := b₂.toNat_lt
  have h₁ := b₁.toNat_lt
  have h₀ := b₀.toNat_lt
  have hor : ∀ a b k : ℕ, b < 2 ^ k → a <<< k ||| b = a <<< k + b := fun a b k hb =>
    (Nat.shiftLeft_add_eq_or_of_lt hb a).symm
  have hsplit : ∀ a b k j : ℕ, a <<< (k + j) + b <<< j = (a <<< k + b) <<< j := by
    intro a b k j
    rw [Nat.shiftLeft_eq, Nat.shiftLeft_eq, Nat.shiftLeft_eq, Nat.shiftLeft_eq, Nat.pow_add,
      Nat.add_mul, Nat.mul_assoc]
  rw [joinLen, longLen]
  rw [hor _ (b₂.toNat <<< 16) 24 (by rw [Nat.shiftLeft_eq]; omega)]
  rw [hsplit _ _ 8 16, hor _ (b₁.toNat <<< 8) 16 (by rw [Nat.shiftLeft_eq]; omega)]
  rw [hsplit _ _ 8 8, hor _ b₀.toNat 8 h₀]

/-- A length is read as it is parsed, or the bytes run out. -/
def LengthRead (I : List UInt8 → InChan → Prop) (bs : List UInt8)
    (parsed : Except BadPair (ℕ × List UInt8)) (result : Option (Option ℕ × InChan)) : Prop :=
  (∃ n rest c, result = some (some n, c) ∧ I rest c ∧ rest.length ≤ bs.length ∧
    parsed = if intMax ≤ n then .error (.tooLong rest) else .ok (n, rest)) ∨
  ∃ c e, result = some (none, c) ∧ I [] c ∧ c.AtEnd ∧ parsed = .error e

theorem Supplies.readLength (h : Supplies fill I) (hI : I bs c) (b : UInt8) :
    LengthRead I bs (parseLenAfter b bs) (readLength fill b c) := by
  rw [InChan.readLength, parseLenAfter]
  by_cases htop : b.toNat &&& 0x80 ≠ 0
  · rw [if_pos htop, if_pos htop]
    obtain ⟨c', hread, hI', hshort⟩ := h.readBytes hI 3
    rw [hread]
    rcases bs with _ | ⟨b₂, _ | ⟨b₁, _ | ⟨b₀, rest⟩⟩⟩
    · exact .inr ⟨c', .truncated, rfl, hI', hshort (by simp), rfl⟩
    · exact .inr ⟨c', .truncated, rfl, hI', hshort (by simp), rfl⟩
    · exact .inr ⟨c', .truncated, rfl, hI', hshort (by simp), rfl⟩
    · refine .inl ⟨joinLen b b₂ b₁ b₀, rest, c', rfl, hI', ?_, ?_⟩
      · simp only [List.length_cons]
        omega
      · rw [joinLen_eq, parseLongLen]
  · rw [if_neg htop, if_neg htop]
    have hshort : ¬intMax ≤ b.toNat := by
      have hlt := b.toNat_lt
      rw [show intMax = 2147483647 from rfl]
      omega
    exact .inl ⟨b.toNat, bs, c, rfl, hI, le_rfl, (if_neg hshort).symm⟩

theorem Supplies.readValueLen (h : Supplies fill I) (hI : I bs c) :
    LengthRead I bs (parseLen bs) (readValueLen fill c) := by
  obtain ⟨c', hread, hI', hend⟩ := h.read hI
  rw [InChan.readValueLen, hread]
  cases bs with
  | nil => exact .inr ⟨c', .truncated, rfl, hI', hend rfl, rfl⟩
  | cons b bs =>
      rcases h.readLength hI' b with ⟨n, rest, c'', hread, hI'', hle, hparse⟩ | hbad
      · exact .inl ⟨n, rest, c'', hread, hI'', hle.trans (Nat.le_succ _), hparse⟩
      · exact .inr hbad

/-- The name and the value are read, or the bytes run out. -/
theorem Supplies.readNameValue (h : Supplies fill I) (hI : I bs c) (n m : ℕ) :
    if bs.length < n + m then
      ∃ c', readNameValue fill n m c = some (none, c') ∧ I [] c' ∧ c'.AtEnd
    else
      ∃ c', readNameValue fill n m c = some (some ⟨bs.take n, (bs.drop n).take m⟩, c') ∧
        I ((bs.drop n).drop m) c' := by
  obtain ⟨c₁, hname, hI₁, hshort₁⟩ := h.readBytes hI n
  rw [Int.toNat_natCast] at hname hI₁ hshort₁
  obtain ⟨c₂, hvalue, hI₂, hshort₂⟩ := h.readBytes hI₁ m
  rw [Int.toNat_natCast] at hvalue hI₂ hshort₂
  simp only [InChan.readNameValue, hname]
  split
  · next hlt =>
      by_cases hn : bs.length < n
      · rw [if_pos (by rw [List.length_take]; omega)]
        rw [List.drop_eq_nil_of_le hn.le] at hI₁
        exact ⟨c₁, rfl, hI₁, hshort₁ hn⟩
      · have hm : (bs.drop n).length < m := by
          rw [List.length_drop]
          omega
        rw [if_neg (by rw [List.length_take]; omega), hvalue]
        simp only
        rw [if_pos (by rw [List.length_take]; omega)]
        rw [List.drop_eq_nil_of_le hm.le] at hI₂
        exact ⟨c₂, rfl, hI₂, hshort₂ hm⟩
  · next hle =>
      rw [if_neg (by rw [List.length_take]; omega), hvalue]
      simp only
      rw [if_neg (by rw [List.length_take, List.length_drop]; omega)]
      exact ⟨c₂, rfl, hI₂⟩

/-- A pair is read as it is parsed, or the bytes run out. -/
theorem Supplies.readPair (h : Supplies fill I) (hI : I bs c) (hlen : bs.length < intMax)
    (b : UInt8) :
    (∃ p rest c', readPair fill b c = some (some p, c') ∧ I rest c' ∧
      parsePairAfter b bs = .ok (p, rest)) ∨
    ∃ c' e, readPair fill b c = some (none, c') ∧ I [] c' ∧ c'.AtEnd ∧
      parsePairAfter b bs = .error e := by
  rw [InChan.readPair, parsePairAfter]
  rcases h.readLength hI b with
    ⟨n, bs₁, c₁, hread₁, hI₁, hle₁, hparse₁⟩ | ⟨c₁, e, hread₁, hI₁, hend, hparse₁⟩
  · rw [hread₁]
    rcases h.readValueLen hI₁ with
      ⟨m, bs₂, c₂, hread₂, hI₂, hle₂, hparse₂⟩ | ⟨c₂, e, hread₂, hI₂, hend, hparse₂⟩
    · have hvalue := h.readNameValue hI₂ n m
      simp only [hread₂]
      by_cases hshort : bs₂.length < n + m
      · rw [if_pos hshort] at hvalue
        obtain ⟨c₃, hread₃, hI₃, hend⟩ := hvalue
        by_cases hn : intMax ≤ n
        · exact .inr ⟨c₃, .tooLong bs₁, hread₃, hI₃, hend, by rw [hparse₁, if_pos hn]⟩
        · by_cases hm : intMax ≤ m
          · refine .inr ⟨c₃, .tooLong bs₂, hread₃, hI₃, hend, ?_⟩
            rw [hparse₁, if_neg hn]
            simp only [hparse₂]
            rw [if_pos hm]
          · refine .inr ⟨c₃, .truncated, hread₃, hI₃, hend, ?_⟩
            rw [hparse₁, if_neg hn]
            simp only [hparse₂]
            rw [if_neg hm]
            exact if_pos hshort
      · rw [if_neg hshort] at hvalue
        obtain ⟨c₃, hread₃, hI₃⟩ := hvalue
        refine .inl ⟨_, _, c₃, hread₃, hI₃, ?_⟩
        rw [hparse₁, if_neg (by omega)]
        simp only [hparse₂]
        rw [if_neg (by omega)]
        exact if_neg hshort
    · simp only [hread₂]
      by_cases hn : intMax ≤ n
      · exact .inr ⟨c₂, .tooLong bs₁, rfl, hI₂, hend, by rw [hparse₁, if_pos hn]⟩
      · refine .inr ⟨c₂, e, rfl, hI₂, hend, ?_⟩
        rw [hparse₁, if_neg hn]
        simp only [hparse₂]
  · exact .inr ⟨c₁, e, by rw [hread₁], hI₁, hend, by rw [hparse₁]⟩

/-- The loop of `readParams`: the pairs so far are the front of what is parsed. -/
structure ReadingParams (I : List UInt8 → InChan → Prop) (props : List NameValue)
    (bs rest : List UInt8) (x : List NameValue × InChan) : Prop where
  holds : I rest x.2
  length_le : rest.length ≤ bs.length
  pairs : x.1 ++ (parsePairs rest).1 = props ++ (parsePairs bs).1
  bad : (parsePairs rest).2 = (parsePairs bs).2

/-- What `readParams` returns where the stream delivers `bs`. -/
structure ParamsRead (I : List UInt8 → InChan → Prop) (props : List NameValue)
    (bs : List UInt8) (r : ℤ × List NameValue × InChan) : Prop where
  good : (parsePairs bs).2 = none →
    r.2.1 = props ++ (parsePairs bs).1 ∧ I [] r.2.2 ∧ r.2.2.AtEnd
  bad : (parsePairs bs).2 ≠ none →
    ∃ c, I [] c ∧ c.AtEnd ∧ r.2.2 = c.setFcgiError fcgxParamsError

/-- One pass reads a pair, or leaves the loop. -/
theorem Supplies.readParamsBody (h : Supplies fill I) {props : List NameValue}
    {rest : List UInt8} {x : List NameValue × InChan} (hlen : bs.length < intMax)
    (hx : ReadingParams I props bs rest x) :
    (∃ r, readParamsBody fill x = some (.done r) ∧ ParamsRead I props bs r) ∨
      ∃ x' rest', readParamsBody fill x = some (.again x') ∧
        ReadingParams I props bs rest' x' ∧ rest'.length < rest.length := by
  obtain ⟨hI, hle, hpairs, hbad⟩ := hx
  obtain ⟨c₁, hread₁, hI₁, hend₁⟩ := h.read hI
  simp only [InChan.readParamsBody, hread₁]
  cases rest with
  | nil =>
      rw [parsePairs_nil] at hpairs hbad
      rw [List.append_nil] at hpairs
      exact .inl ⟨_, rfl, fun _ => ⟨hpairs, hI₁, hend₁ rfl⟩, fun hne => absurd hbad.symm hne⟩
  | cons b rest =>
      rw [List.length_cons] at hle ⊢
      rw [List.tail_cons] at hI₁
      rw [List.head?_cons]
      rcases h.readPair hI₁ (by omega) b with
        ⟨p, rest', c₂, hread₂, hI₂, hparse⟩ | ⟨c₂, e, hread₂, hI₂, hend₂, hparse⟩
      · have hlt := length_of_parsePairAfter hparse
        rw [parsePairs_of_ok hparse] at hpairs hbad
        simp only [hread₂]
        refine .inr ⟨_, rest', rfl, ⟨hI₂, by omega, ?_, hbad⟩, by omega⟩
        rw [← hpairs, List.append_assoc]
        rfl
      · rw [parsePairs_of_error hparse] at hbad
        simp only [hread₂]
        refine .inl ⟨_, rfl, fun hgood => ?_, fun _ => ⟨c₂, hI₂, hend₂, rfl⟩⟩
        rw [hgood] at hbad
        exact nomatch hbad

/-- **The pairs of the stream are read**, up to the first that is not complete. -/
theorem Supplies.readParams (h : Supplies fill I) (hI : I bs c) (hlen : bs.length < intMax)
    (props : List NameValue) :
    ∃ r, readParams fill props c = some r ∧ ParamsRead I props bs r := by
  rw [InChan.readParams]
  refine run_total_measured
    (fun n x => ∃ rest, ReadingParams I props bs rest x ∧ rest.length = n) _ ?_
    ⟨bs, ⟨hI, le_rfl, rfl, rfl⟩, rfl⟩ (Nat.lt_succ_of_le (h.length_le hI))
  rintro n x ⟨rest, hx, rfl⟩
  rcases h.readParamsBody hlen hx with hdone | ⟨x', rest', hagain, hx', hlt⟩
  · exact .inl hdone
  · exact .inr ⟨x', rest'.length, hagain, ⟨rest', hx', rfl⟩, hlt⟩

end InChan

end Java

end FastCgi
