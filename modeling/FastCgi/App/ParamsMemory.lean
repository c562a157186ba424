import FastCgi.App.GetParam
import FastCgi.App.ParamsVector
import Mathlib.Data.List.Forall2

/-!
The parameters of a request in memory.

`FCGX_Accept_r` and `ReadParams` put strings into the vector that they have
allocated themselves. Then the vector in memory represents the vector of
strings that the model of `ReadParams` computes with (`Represents`), and
`FreeParams` takes away all the blocks that have been allocated for it, and
no others (`putStrings_represents`). The invariant `Owns` says which blocks
these are; `realloc` may move the vector at any call of `PutParam`.
-/

namespace FastCgi.Vec

open BlockHeap

/-! ### The vector of strings -/

/-- The string `s`, its NUL included, is where `x` points. -/
def PointsTo (h : Heap Word) (x : Option ℕ) (s : List UInt8) : Prop :=
  ∃ a, x = some a ∧ h.block a = some (s.map fun c => some (.char c))

/-- The vector in memory is the vector `q`, whose slots are the strings themselves. -/
structure Represents (h : Heap Word) (p : Params) (q : FastCgi.Params) : Prop where
  length : p.length = q.length
  cur : p.cur = ⟨p.vec, q.cur⟩
  null : ∀ i ≤ q.cur, q.vec i = none → h.load ⟨p.vec, i⟩ = some (.ptr none)
  string : ∀ i ≤ q.cur, ∀ s, q.vec i = some s →
    ∃ x, h.load ⟨p.vec, i⟩ = some (.ptr x) ∧ PointsTo h x s

section Strings

variable {h : Heap Word} {p : Params} {xs : List (Option ℕ)} {k : ℕ} {strs : List (List UInt8)}

theorem IsList.load (hl : IsList h p xs) {i : ℕ} (hi : i ≤ xs.length) :
    h.load ⟨p.vec, i⟩ = some (.ptr xs[i]?.join) := by
  obtain ⟨rest, hblock⟩ := hl.null
  rw [Heap.load, hblock, Option.bind_some, if_pos (Int.natCast_nonneg i), Int.toNat_natCast]
  rcases hi.lt_or_eq with hlt | rfl
  · rw [List.getElem?_append_left (by rwa [length_cellsOf]), cellsOf, List.getElem?_map,
      List.getElem?_eq_getElem hlt]
    rfl
  · rw [List.getElem?_append_right (length_cellsOf xs).le, length_cellsOf, Nat.sub_self,
      List.getElem?_eq_none le_rfl]
    rfl

/-- The vector of strings after these have been put. -/
def putAll (k : ℕ) (strs : List (List UInt8)) : FastCgi.Params :=
  strs.foldl FastCgi.putParam (FastCgi.newParams k)

theorem putAll_spec (hk : 1 ≤ k) (strs : List (List UInt8)) :
    (putAll k strs).cur = strs.length ∧
      (∀ i ≤ strs.length, (putAll k strs).vec i = strs[i]?) ∧
      LeastDoubling k strs.length (putAll k strs).length := by
  induction strs using List.reverseRecOn with
  | nil => exact ⟨rfl, fun i _ => rfl, .zero (by exact_mod_cast hk)⟩
  | append_singleton strs s ih =>
      obtain ⟨hcur, hvec, hlen⟩ := ih
      have hput : putAll k (strs ++ [s]) = FastCgi.putParam (putAll k strs) s := by
        rw [putAll, List.foldl_append]
        rfl
      rw [hput, List.length_append, List.length_singleton]
      refine ⟨?_, fun i hi => ?_, ?_⟩
      · rw [FastCgi.putParam, hcur]
      · show ByteMem.store (putAll k strs).vec (putAll k strs).cur [some s, none] i = _
        rw [hcur, ByteMem.store]
        split
        · next hlt => rw [hvec i hlt.le, List.getElem?_append_left hlt]
        · next hge =>
            rw [List.getElem?_append_right (not_lt.mp hge)]
            rcases (show i = strs.length ∨ i = strs.length + 1 by omega) with rfl | rfl
            · rw [Nat.sub_self]
              rfl
            · rw [Nat.add_sub_cancel_left]
              rfl
      · have hsucc := hlen.succ (by exact_mod_cast hk)
        have hgrown : ((FastCgi.putParam (putAll k strs) s).length : ℤ) =
            grownLength (putAll k strs).length (strs.length + 1 : ℕ) := by
          rw [grownLength, FastCgi.putParam, hcur]
          dsimp only
          split <;> split <;> omega
        rw [hgrown]
        exact hsucc

/-- **The vector in memory and the vector of strings go together**: whatever strings the
pointers of the list point to, the vector is the one these strings have been put into. -/
theorem Tracks.represents (hk : 1 ≤ k) (ht : Tracks k xs (p, h))
    (hstrs : List.Forall₂ (PointsTo h) xs strs) : Represents h p (putAll k strs) := by
  obtain ⟨hcur, hvec, hlen⟩ := putAll_spec hk strs
  have hcount : xs.length = strs.length := hstrs.length_eq
  have hd : LeastDoubling k strs.length p.length := hcount ▸ ht.length
  refine ⟨hd.unique hlen, by rw [ht.isList.cur, hcount, hcur], fun i hi hnone => ?_,
    fun i hi s hs => ?_⟩
  · rw [hcur] at hi
    rw [hvec i hi, List.getElem?_eq_none_iff] at hnone
    rw [ht.isList.load (hcount ▸ hi), List.getElem?_eq_none (hcount ▸ hnone)]
    rfl
  · rw [hcur] at hi
    rw [hvec i hi, List.getElem?_eq_some_iff] at hs
    obtain ⟨hlt, rfl⟩ := hs
    have hlt' : i < xs.length := hcount ▸ hlt
    refine ⟨xs[i], ?_, hstrs.get hlt' hlt⟩
    rw [ht.isList.load (hcount ▸ hi), List.getElem?_eq_getElem hlt']
    rfl

end Strings

/-! ### Strings of its own -/

/-- What `FCGX_Accept_r` and `ReadParams` do with a string: `Malloc`, the stores of its
characters, `PutParam`. -/
def putString (A : Allocator Word) (s : List UInt8) (p : Params) (h : Heap Word) :
    Option (Params × Heap Word) :=
  let nameValue := A.malloc h s.length
  putParam A (some nameValue.1) p
    (nameValue.2.insert nameValue.1 (s.map fun c => some (.char c)))

/-- They do it with all these strings. -/
def putStrings (A : Allocator Word) : List (List UInt8) → Params → Heap Word →
    Option (Params × Heap Word)
  | [], p, h => some (p, h)
  | s :: strs, p, h => (putString A s p h).bind fun r => putStrings A strs r.1 r.2

/-- In a memory that was `h₀`, the blocks `as` and those of the vector are new, and the strings
are in `as`. -/
structure Owns (h₀ : Heap Word) (k : ℤ) (as : List ℕ) (strs : List (List UInt8)) (p : Params)
    (h : Heap Word) : Prop where
  tracks : Tracks k (as.map some) (p, h)
  owned : Owned h p as
  strings : List.Forall₂ (PointsTo h) (as.map some) strs
  new : ∀ b ∈ as ++ [p.vec, p.self], h₀.block b = none
  others : ∀ b, b ∉ as ++ [p.vec, p.self] → h.block b = h₀.block b

section Own

variable {A : Allocator Word} {h₀ h h' : Heap Word} {p p' : Params} {k : ℤ} {as : List ℕ}
  {strs : List (List UInt8)} {a : ℕ} {s : List UInt8}

theorem InRange.mono {m m' : ℕ} (hr : InRange k m) (hle : m' ≤ m) : InRange k m' := by
  obtain ⟨j, hlt, hmax⟩ := hr
  exact ⟨j, by omega, hmax⟩

/-- All of these blocks are there. -/
theorem Owns.live (ho : Owns h₀ k as strs p h) {b : ℕ} (hb : b ∈ as ++ [p.vec, p.self]) :
    (h.block b).isSome := by
  rcases List.mem_append.mp hb with hmem | hmem
  · exact ho.owned.live b hmem
  · rcases List.mem_pair.mp hmem with rfl | rfl
    · obtain ⟨rest, hblock⟩ := ho.tracks.isList.null
      rw [hblock]
      rfl
    · exact ho.tracks.isList.self_live

theorem PointsTo.congr {x : Option ℕ} (hp : PointsTo h x s)
    (hblock : ∀ b, x = some b → h'.block b = h.block b) : PointsTo h' x s := by
  obtain ⟨b, hx, hb⟩ := hp
  exact ⟨b, hx, (hblock b hx).trans hb⟩

theorem pointsTo_congr (hs : List.Forall₂ (PointsTo h) (as.map some) strs)
    (hblock : ∀ b ∈ as, h'.block b = h.block b) :
    List.Forall₂ (PointsTo h') (as.map some) strs := by
  induction as generalizing strs with
  | nil =>
      cases hs
      exact .nil
  | cons a as ih =>
      cases hs with
      | cons hfirst hrest =>
          refine .cons (hfirst.congr fun b hb => ?_) (ih hrest fun b hb => ?_)
          · rw [← Option.some.inj hb]
            exact hblock a List.mem_cons_self
          · exact hblock b (List.mem_cons_of_mem a hb)

/-- A block that was not there is none of these. -/
theorem Owns.notMem (ho : Owns h₀ k as strs p h) (hnone : h.block a = none) :
    a ∉ as ++ [p.vec, p.self] := fun hmem => by
  have hlive := ho.live hmem
  rw [hnone] at hlive
  cases hlive

/-- Another string is owned. -/
theorem Owned.concat (ho : Owned h p as) (hnot : a ∉ as ++ [p.vec, p.self])
    (hlive : ∀ b ∈ as ++ [a], (h'.block b).isSome) : Owned h' p (as ++ [a]) := by
  refine ⟨?_, hlive⟩
  rw [List.append_assoc]
  exact List.nodup_middle.mpr (List.nodup_cons.mpr ⟨hnot, ho.nodup⟩)

theorem Owned.block_eq (ho : Owned h p as) (hf : Frame p h p' h') (ha : a ∈ as) :
    h'.block a = h.block a :=
  hf.block_of_live (ho.live a ha) fun heq => ho.vec_notMem (heq ▸ ha)

/-- What is owned stays owned when the vector is changed or moved. -/
theorem Owned.frame (ho : Owned h p as) (hf : Frame p h p' h') (hne : p'.self ≠ p'.vec) :
    Owned h' p' as := by
  have hvec : p'.vec ∉ as := fun hmem =>
    hf.vec_ne (ho.live _ hmem) (fun heq => ho.vec_notMem (heq ▸ hmem)) rfl
  have hself : p'.self ∉ as := hf.self ▸ ho.self_notMem
  refine ⟨List.nodup_append.mpr ⟨(List.nodup_append.mp ho.nodup).1, ?_, fun b hb c hc => ?_⟩,
    fun b hb => ?_⟩
  · simpa using hne.symm
  · rcases List.mem_pair.mp hc with rfl | rfl
    · exact fun heq => hvec (heq ▸ hb)
    · exact fun heq => hself (heq ▸ hb)
  · rw [ho.block_eq hf hb]
    exact ho.live b hb

/-- The vector is what it was when another block has been allocated. -/
theorem Owns.tracks_of_new {h₁ : Heap Word} (ho : Owns h₀ k as strs p h)
    (hnone : h.block a = none) (hothers : ∀ b, b ≠ a → h₁.block b = h.block b) :
    Tracks k (as.map some) (p, h₁) := by
  have hold : ∀ b ∈ as ++ [p.vec, p.self], h₁.block b = h.block b := fun b hb =>
    hothers b fun heq => ho.notMem hnone (heq ▸ hb)
  exact ⟨ho.tracks.isList.congr (hold _ (by simp)) (hold _ (by simp)), ho.tracks.length,
    ho.tracks.max⟩

/-- A new string is put, which is the only block that has been added to the memory. -/
theorem Owns.put {h₁ : Heap Word} (hk : 1 ≤ k) (ho : Owns h₀ k as strs p h)
    (hnone : h.block a = none) (hstring : PointsTo h₁ (some a) s)
    (hothers : ∀ b, b ≠ a → h₁.block b = h.block b)
    (hput : putParam A (some a) p h₁ = some (p', h')) :
    Owns h₀ k (as ++ [a]) (strs ++ [s]) p' h' := by
  have hnot := ho.notMem hnone
  have hold : ∀ b ∈ as, h₁.block b = h.block b := fun b hb =>
    hothers b fun heq => hnot (heq ▸ List.mem_append_left _ hb)
  obtain ⟨ht', hf⟩ := ((ho.tracks_of_new hnone hothers).putParam hk (some a)).2 _ _ hput
  have ho₁ : Owned h₁ p (as ++ [a]) := by
    refine ho.owned.concat hnot fun b hb => ?_
    rcases List.mem_append.mp hb with hmem | hmem
    · rw [hold b hmem]
      exact ho.owned.live b hmem
    · obtain ⟨c, hc, hblock⟩ := hstring
      rw [List.mem_singleton.mp hmem, Option.some.inj hc, hblock]
      rfl
  have ho' : Owned h' p' (as ++ [a]) := ho₁.frame hf ht'.isList.self_ne
  -- where the vector has moved, there was nothing before
  have hmoved : p'.vec ≠ p.vec → h₀.block p'.vec = none := fun hne => by
    have hout : p'.vec ∉ as ++ [p.vec, p.self] := fun hmem => by
      rcases List.mem_append.mp hmem with hmem | hmem
      · exact ho'.vec_notMem (List.mem_append_left _ hmem)
      · rcases List.mem_pair.mp hmem with heq | heq
        · exact hne heq
        · exact ht'.isList.self_ne (hf.self.trans heq.symm)
    have hne_a : p'.vec ≠ a := fun heq => ho'.vec_notMem (by simp [heq])
    rw [← ho.others _ hout, ← hothers _ hne_a, (hf.moved hne).1]
  refine ⟨by rw [List.map_append]; exact ht', ho', ?_, fun b hb => ?_, fun b hb => ?_⟩
  · rw [List.map_append]
    refine List.rel_append (pointsTo_congr ho.strings fun b hb => ?_)
      (.cons (hstring.congr fun b hb => ?_) .nil)
    · rw [ho₁.block_eq hf (List.mem_append_left _ hb), hold b hb]
    · rw [← Option.some.inj hb]
      exact ho₁.block_eq hf (by simp)
  · rcases List.mem_append.mp hb with hmem | hmem
    · rcases List.mem_append.mp hmem with hmem | hmem
      · exact ho.new b (List.mem_append_left _ hmem)
      · rw [List.mem_singleton.mp hmem, ← ho.others a hnot, hnone]
    · rcases List.mem_pair.mp hmem with rfl | rfl
      · by_cases hvec : p'.vec = p.vec
        · rw [hvec]
          exact ho.new _ (by simp)
        · exact hmoved hvec
      · rw [hf.self]
        exact ho.new _ (by simp)
  · simp only [List.mem_append, List.mem_singleton, List.mem_pair, not_or] at hb
    obtain ⟨⟨hb, hba⟩, hbvec, hbself⟩ := hb
    rw [hf.self] at hbself
    by_cases hvec : b = p.vec
    · subst hvec
      rw [(hf.moved (Ne.symm hbvec)).2, ho.new _ (by simp)]
    · rw [hf.block b hvec hbvec, hothers b hba, ho.others b (by simp [hb, hvec, hbself])]

/-- One string of the loop. -/
theorem Owns.putString (hk : 1 ≤ k) (ho : Owns h₀ k as strs p h)
    (hfit : InRange k (as.length + 1)) :
    ∃ a p' h', Vec.putString A s p h = some (p', h') ∧
      Owns h₀ k (as ++ [a]) (strs ++ [s]) p' h' := by
  let nameValue := A.malloc h s.length
  let h₁ := nameValue.2.insert nameValue.1 (s.map fun c => some (.char c))
  have hstring : PointsTo h₁ (some nameValue.1) s := ⟨_, rfl, Heap.block_insert_self⟩
  have hothers : ∀ b, b ≠ nameValue.1 → h₁.block b = h.block b := fun b hne =>
    (Heap.block_insert_of_ne hne).trans (Allocator.block_malloc_of_ne hne)
  have ht₁ := ho.tracks_of_new Allocator.block_malloc_fst hothers
  obtain ⟨⟨p', h'⟩, hput⟩ := Option.isSome_iff_exists.mp
    ((ht₁.putParam (A := A) hk (some nameValue.1)).1.mpr (by rwa [List.length_map]))
  exact ⟨nameValue.1, p', h', hput,
    ho.put hk Allocator.block_malloc_fst hstring hothers hput⟩

theorem Owns.putStrings (hk : 1 ≤ k) (ho : Owns h₀ k as strs p h) (more : List (List UInt8))
    (hfit : InRange k (as.length + more.length)) :
    ∃ as' p' h', Vec.putStrings A more p h = some (p', h') ∧
      Owns h₀ k as' (strs ++ more) p' h' := by
  induction more generalizing as strs p h with
  | nil => exact ⟨as, p, h, rfl, by rwa [List.append_nil]⟩
  | cons s more ih =>
      rw [List.length_cons] at hfit
      obtain ⟨a, p₁, h₁, hput, ho₁⟩ := ho.putString (A := A) (s := s) hk (hfit.mono (by omega))
      obtain ⟨as', p', h', hrest, ho'⟩ := ih ho₁ (by
        rw [List.length_append, List.length_singleton]
        exact hfit.mono (by omega))
      refine ⟨as', p', h', ?_, by rwa [List.append_assoc] at ho'⟩
      rw [Vec.putStrings, hput, Option.bind_some, hrest]

/-- `FreeParams` leaves the memory as it was before `NewParams`. -/
theorem Owns.freeParams (ho : Owns h₀ k as strs p h) :
    ∃ h', Vec.freeParams (some p) h = some (none, h') ∧ ∀ b, h'.block b = h₀.block b := by
  obtain ⟨h', hfree, hf⟩ := freeParams_spec ho.tracks.isList ho.owned
  rw [List.append_assoc] at hf
  refine ⟨h', hfree, fun b => ?_⟩
  by_cases hb : b ∈ as ++ [p.vec, p.self]
  · rw [hf.dead b hb, ho.new b hb]
  · rw [hf.other b hb, ho.others b hb]

end Own

/-- **The parameters of a request in memory.** As long as the vector is an `int` long, `NewParams`
and a `PutParam` of every string, each in a block of its own, make a vector that represents the
one of the strings; `FreeParams` then leaves no block and takes away none that was there. -/
theorem putStrings_represents (A : Allocator Word) (h₀ : Heap Word) {k : ℕ} (hk : 1 ≤ k)
    {strs : List (List UInt8)} (hfit : InRange k strs.length) :
    ∃ p₀ h₁ p h h', newParams A k h₀ = some (p₀, h₁) ∧ putStrings A strs p₀ h₁ = some (p, h) ∧
      Represents h p (putAll k strs) ∧ freeParams (some p) h = some (none, h') ∧
      ∀ b, h'.block b = h₀.block b := by
  have hk' : (1 : ℤ) ≤ k := by exact_mod_cast hk
  obtain ⟨p₀, h₁, hnew, hl, hlen, hfresh, hothers⟩ := newParams_spec A h₀ hk'
  have hmax : (k : ℤ) ≤ intMax :=
    (LeastDoubling.zero hk').inRange_iff.mp (hfit.mono (Nat.zero_le _))
  have ho₀ : Owns h₀ k [] [] p₀ h₁ :=
    { tracks := ⟨hl, hlen.symm ▸ .zero hk', hlen.symm ▸ hmax⟩
      owned := ⟨by simpa using hl.self_ne.symm, fun a ha => absurd ha List.not_mem_nil⟩
      strings := .nil
      new := hfresh
      others := hothers }
  obtain ⟨as, p, h, hput, ho⟩ := ho₀.putStrings hk' strs (by simpa using hfit)
  obtain ⟨h', hfree, hback⟩ := ho.freeParams
  exact ⟨p₀, h₁, p, h, h', hnew, hput, ho.tracks.represents hk ho.strings, hfree, hback⟩

/-- The same for the parameters that are read with a request. -/
theorem readRequest_represents (A : Allocator Word) (h₀ : Heap Word) {c c' : Chan}
    {params : FastCgi.Params} (hread : readRequest c = some (some params, c'))
    (hfit : InRange 30 params.cur) :
    ∃ strs p₀ h₁ p h h', newParams A 30 h₀ = some (p₀, h₁) ∧
      putStrings A strs p₀ h₁ = some (p, h) ∧ Represents h p params ∧
      freeParams (some p) h = some (none, h') ∧ ∀ b, h'.block b = h₀.block b := by
  obtain ⟨strs, rfl⟩ := readRequest_puts hread
  have hcur : (putAll 30 strs).cur = strs.length := (putAll_spec (by decide) strs).1
  rw [show (strs.foldl FastCgi.putParam (FastCgi.newParams 30)).cur = _ from hcur] at hfit
  exact ⟨strs, putStrings_represents A h₀ (by decide) hfit⟩

/-- The parameters of a request that says nothing of itself: they are its role. -/
theorem readRequest_represents_plain :
    ∃ params c', readRequest (openReader { idleRequest with os := .sending plainRequest [] [] }) =
        some (some params, c') ∧
      ∃ strs p₀ h₁ p h h', newParams .behind 30 .empty = some (p₀, h₁) ∧
        putStrings .behind strs p₀ h₁ = some (p, h) ∧ Represents h p params ∧
        freeParams (some p) h = some (none, h') ∧ ∀ b, h'.block b = Heap.empty.block b := by
  have hcur : ((readRequest (openReader { idleRequest with os := .sending plainRequest [] [] })).map
      fun x => x.1.map FastCgi.Params.cur) = some (some 1) := by
    decide +kernel
  obtain ⟨⟨x, c'⟩, hread, hx⟩ := Option.map_eq_some_iff.mp hcur
  obtain ⟨params, rfl, hparams⟩ := Option.map_eq_some_iff.mp hx
  have hfit : InRange 30 params.cur := ⟨0, by rw [hparams]; decide, by decide⟩
  exact ⟨params, c', hread, readRequest_represents .behind .empty hread hfit⟩

end FastCgi.Vec
