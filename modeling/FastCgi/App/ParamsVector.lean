import FastCgi.App.Reader
import FastCgi.Lib.BlockHeap
import FastCgi.Lib.Runs
import Mathlib.Algebra.Order.Ring.Int
import Mathlib.Data.List.Nodup

/-!
The vector of parameters in the memory of the program (`NewParams`,
`PutParam` and `FreeParams` of `libfcgi/fcgiapp.c`).

`putParam` stores before it compares the number of pointers with the length
of the vector, and only then makes room. Both of its stores are below the
length because the vector is never full when a call returns (`IsList.room`):
there is a cell for the pointer, and behind it either one for the `NULL` or
a vector twice as long.
-/

namespace FastCgi.Vec

open BlockHeap BoundedLoop

/-- What a cell holds: a character, or a `char *`. -/
inductive Word where
  | char (c : UInt8)
  | ptr (a : Option ℕ)
  deriving DecidableEq

/-- `Params`, which is itself a block, at the address `self`. -/
structure Params where
  self : ℕ
  vec : ℕ
  length : ℤ
  cur : Loc

/-- The value of an `int` to which a difference of pointers is assigned. -/
def toInt (n : ℤ) : ℤ := Int.bmod n 4294967296

/-- `NewParams`. -/
def newParams (A : Allocator Word) (length : ℤ) (h : Heap Word) : Option (Params × Heap Word) :=
  -- as a `size_t`, a negative length is more than there is memory
  if length < 0 then none
  else
    let result := A.malloc h 1
    let vec := A.malloc result.2 length.toNat
    (vec.2.store ⟨vec.1, 0⟩ (.ptr none)).map fun h =>
      ({ self := result.1, vec := vec.1, length := length, cur := ⟨vec.1, 0⟩ }, h)

/-- `if(size >= paramsPtr->length)` of `PutParam`; the product must be an
`int`. -/
def grow (A : Allocator Word) (size : ℤ) (p : Params) (h : Heap Word) :
    Option (Params × Heap Word) :=
  if p.length ≤ size then
    if p.length * 2 ≤ intMax then
      (A.realloc h p.vec (p.length * 2).toNat).map fun vec =>
        ({ p with length := p.length * 2, vec := vec.1, cur := ⟨vec.1, size⟩ }, vec.2)
    else none
  else some (p, h)

/-- `PutParam`. -/
def putParam (A : Allocator Word) (nameValue : Option ℕ) (p : Params) (h : Heap Word) :
    Option (Params × Heap Word) :=
  (h.store p.cur (.ptr nameValue)).bind fun h =>
    let cur : Loc := ⟨p.cur.block, p.cur.offset + 1⟩
    -- pointers into two blocks have no difference
    if cur.block = p.vec then
      (grow A (toInt cur.offset) { p with cur := cur } h).bind fun r =>
        (r.2.store r.1.cur (.ptr none)).map fun h => (r.1, h)
    else none

/-- `free` of a `char *`. -/
def freePtr (h : Heap Word) : Option ℕ → Option (Heap Word)
  | none => some h
  | some a => h.free a

/-- One pass of `for (p = paramsPtr->vec; p < paramsPtr->cur; p++)`. -/
def freeBody (cur : Loc) (x : Loc × Heap Word) : Option (Pass (Loc × Heap Word) (Heap Word)) :=
  if x.1.block = cur.block then
    if x.1.offset < cur.offset then
      match x.2.load x.1 with
      | some (.ptr a) =>
          (freePtr x.2 a).map fun h => .again (⟨x.1.block, x.1.offset + 1⟩, h)
      | _ => none
    else some (.done x.2)
  else none

/-- `FreeParams`, with `*paramsPtrPtr` before and after. -/
def freeParams (paramsPtr : Option Params) (h : Heap Word) :
    Option (Option Params × Heap Word) :=
  match paramsPtr with
  | none => some (none, h)
  | some p =>
      (run (freeBody p.cur) (p.cur.offset.toNat + 1) (⟨p.vec, 0⟩, h)).bind fun h =>
        ((h.free p.vec).bind fun h => h.free p.self).map fun h => (none, h)

/-! ### The vector as a list -/

/-- The cells in which these pointers are. -/
def cellsOf (xs : List (Option ℕ)) : List (Option Word) := xs.map fun x => some (.ptr x)

@[simp] theorem length_cellsOf (xs : List (Option ℕ)) : (cellsOf xs).length = xs.length :=
  List.length_map _

@[simp] theorem cellsOf_append (xs ys : List (Option ℕ)) :
    cellsOf (xs ++ ys) = cellsOf xs ++ cellsOf ys := List.map_append

@[simp] theorem cellsOf_cons (x : Option ℕ) (xs : List (Option ℕ)) :
    cellsOf (x :: xs) = some (.ptr x) :: cellsOf xs := rfl

@[simp] theorem cellsOf_nil : cellsOf [] = [] := rfl

/-- The pointers `xs` are in the vector, and `cur` is behind them. -/
structure Stored (h : Heap Word) (p : Params) (xs : List (Option ℕ)) : Prop where
  /-- The block of the vector has `length` cells, and they begin with the pointers. -/
  cells : ∃ rest, h.block p.vec = some (cellsOf xs ++ rest) ∧
    ((cellsOf xs ++ rest).length : ℤ) = p.length
  cur : p.cur = ⟨p.vec, xs.length⟩
  self_live : (h.block p.self).isSome
  self_ne : p.self ≠ p.vec

/-- **The vector is a list**: the pointers, a `NULL` behind them at `cur`,
and the length is more than their number. -/
structure IsList (h : Heap Word) (p : Params) (xs : List (Option ℕ)) : Prop
    extends Stored h p xs where
  null : ∃ rest, h.block p.vec = some (cellsOf xs ++ some (.ptr none) :: rest)
  room : xs.length < p.length

/-- Only the block of the vector changes; where it moves, no block was, and none is where it
comes from. -/
structure Frame (p : Params) (h : Heap Word) (p' : Params) (h' : Heap Word) : Prop where
  self : p'.self = p.self
  moved : p'.vec ≠ p.vec → h.block p'.vec = none ∧ h'.block p.vec = none
  block : ∀ b, b ≠ p.vec → b ≠ p'.vec → h'.block b = h.block b

section Calls

variable {A : Allocator Word} {h h' h'' : Heap Word} {p p' p'' : Params} {xs : List (Option ℕ)}

theorem Frame.refl (p : Params) (h : Heap Word) : Frame p h p h :=
  ⟨rfl, fun hne => absurd rfl hne, fun _ _ _ => rfl⟩

theorem Frame.vec_ne (hf : Frame p h p' h') {b : ℕ} (hlive : (h.block b).isSome)
    (hne : b ≠ p.vec) : b ≠ p'.vec := by
  rintro rfl
  rw [(hf.moved hne).1] at hlive
  cases hlive

theorem Frame.block_of_live (hf : Frame p h p' h') {b : ℕ} (hlive : (h.block b).isSome)
    (hne : b ≠ p.vec) : h'.block b = h.block b := hf.block b hne (hf.vec_ne hlive hne)

theorem Frame.trans (hf : Frame p h p' h') (hf' : Frame p' h' p'' h'') :
    Frame p h p'' h'' := by
  refine ⟨hf'.self.trans hf.self, fun hne => ⟨?_, ?_⟩, fun b hb hb'' => ?_⟩
  · by_cases hvec : p''.vec = p'.vec
    · rw [hvec] at hne ⊢
      exact (hf.moved hne).1
    · rw [← hf.block _ hne hvec]
      exact (hf'.moved hvec).1
  · by_cases hvec : p'.vec = p.vec
    · rw [← hvec] at hne ⊢
      exact (hf'.moved hne).2
    · rw [hf'.block _ (Ne.symm hvec) (Ne.symm hne)]
      exact (hf.moved hvec).2
  · by_cases hvec : b = p'.vec
    · subst hvec
      rw [(hf.moved hb).1, (hf'.moved (Ne.symm hb'')).2]
    · rw [hf'.block b hvec hb'', hf.block b hb hvec]

/-- The frame of a store into the vector. -/
theorem Frame.store {cells : List (Option Word)} {l : Loc} :
    Frame p h { p with cur := l } (h.insert p.vec cells) :=
  ⟨rfl, fun hne => absurd rfl hne, fun _ hne _ => Heap.block_insert_of_ne hne⟩

theorem Stored.block (hs : Stored h p xs) : p.cur.block = p.vec := by rw [hs.cur]

theorem Stored.offset (hs : Stored h p xs) : p.cur.offset = xs.length := by rw [hs.cur]

/-- Where there is room, the `NULL` can be stored. -/
theorem Stored.terminate (hs : Stored h p xs) (hroom : xs.length < p.length) :
    ∃ h', h.store p.cur (.ptr none) = some h' ∧ IsList h' p xs ∧ Frame p h p h' := by
  obtain ⟨rest, hblock, hlen⟩ := hs.cells
  cases rest with
  | nil =>
      rw [List.append_nil, length_cellsOf] at hlen
      omega
  | cons y rest =>
      have hstore := Heap.store_cell hblock (.ptr none)
      rw [length_cellsOf, ← hs.cur] at hstore
      have hcells : ((cellsOf xs ++ some (.ptr none) :: rest).length : ℤ) = p.length := by
        rw [← hlen, List.length_append, List.length_append, List.length_cons, List.length_cons]
      exact ⟨_, hstore, ⟨⟨⟨_, Heap.block_insert_self, hcells⟩, hs.cur,
        by rw [Heap.block_insert_of_ne hs.self_ne]; exact hs.self_live, hs.self_ne⟩,
        ⟨rest, Heap.block_insert_self⟩, hroom⟩, .store⟩

/-- The first store of `PutParam`. -/
theorem IsList.put (hl : IsList h p xs) (x : Option ℕ) :
    ∃ h', h.store p.cur (.ptr x) = some h' ∧
      Stored h' { p with cur := ⟨p.vec, (xs ++ [x]).length⟩ } (xs ++ [x]) ∧
      Frame p h { p with cur := ⟨p.vec, (xs ++ [x]).length⟩ } h' := by
  obtain ⟨rest, hblock⟩ := hl.null
  obtain ⟨rest', hblock', hlen⟩ := hl.cells
  rw [← Option.some.inj (hblock.symm.trans hblock')] at hlen
  have hstore := Heap.store_cell hblock (.ptr x)
  rw [length_cellsOf, ← hl.cur] at hstore
  have hcells : cellsOf (xs ++ [x]) ++ rest = cellsOf xs ++ some (.ptr x) :: rest := by simp
  have hlen' : ((cellsOf (xs ++ [x]) ++ rest).length : ℤ) = p.length := by
    rw [hcells, ← hlen, List.length_append, List.length_append, List.length_cons,
      List.length_cons]
  refine ⟨_, hstore, ⟨⟨rest, ?_, hlen'⟩, rfl, ?_, hl.self_ne⟩, .store⟩
  · rw [hcells]
    exact Heap.block_insert_self
  · rw [Heap.block_insert_of_ne hl.self_ne]
    exact hl.self_live

/-- The length of the vector when it holds `size` pointers. -/
def grownLength (length size : ℤ) : ℤ := if length ≤ size then length * 2 else length

/-- The vector has room again when it has grown. -/
theorem Stored.grow (hs : Stored h p xs) (hpos : 0 < xs.length)
    (hfit : grownLength p.length xs.length ≤ intMax) :
    ∃ p' h', grow A xs.length p h = some (p', h') ∧ Stored h' p' xs ∧
      p'.length = grownLength p.length xs.length ∧ xs.length < p'.length ∧ Frame p h p' h' := by
  rw [grownLength] at hfit ⊢
  by_cases hfull : p.length ≤ xs.length
  · rw [if_pos hfull] at hfit ⊢
    obtain ⟨rest, hblock, hlen⟩ := hs.cells
    rw [List.length_append, length_cellsOf] at hlen
    have hn : (cellsOf xs ++ rest).length ≤ (p.length * 2).toNat := by
      rw [List.length_append, length_cellsOf]
      omega
    have hcells : ((cellsOf xs ++ (rest ++ List.replicate
        ((p.length * 2).toNat - (cellsOf xs ++ rest).length) none)).length : ℤ) =
          p.length * 2 := by
      rw [← List.append_assoc, List.length_append, List.length_replicate]
      omega
    rw [Vec.grow, if_pos hfull, if_pos hfit, Allocator.realloc_grow hblock hn]
    have hframe : Frame p h
        { p with length := p.length * 2, vec := A.move h p.vec (p.length * 2).toNat
                 cur := ⟨A.move h p.vec (p.length * 2).toNat, xs.length⟩ }
        ((h.erase p.vec).insert (A.move h p.vec (p.length * 2).toNat) (cellsOf xs ++ rest ++
          List.replicate ((p.length * 2).toNat - (cellsOf xs ++ rest).length) none)) := by
      refine ⟨rfl, fun hne => ⟨Allocator.block_move hne, ?_⟩, fun b hb hb' => ?_⟩
      · rw [Heap.block_insert_of_ne hne.symm, Heap.block_erase_self]
      · rw [Heap.block_insert_of_ne hb', Heap.block_erase_of_ne hb]
    have hroom : (xs.length : ℤ) < p.length * 2 := by omega
    refine ⟨_, _, rfl, ⟨⟨_, ?_, hcells⟩, rfl, ?_, hframe.vec_ne hs.self_live hs.self_ne⟩, rfl,
      hroom, hframe⟩
    · rw [← List.append_assoc]
      exact Heap.block_insert_self
    · rw [hframe.block_of_live hs.self_live hs.self_ne]
      exact hs.self_live
  · rw [if_neg hfull]
    exact ⟨p, h, if_neg hfull, hs, rfl, by omega, .refl p h⟩

theorem grow_eq_none {size : ℤ} (hover : intMax < grownLength p.length size)
    (hmax : p.length ≤ intMax) : grow A size p h = none := by
  rw [grownLength] at hover
  split at hover
  · next hfull => rw [grow, if_pos hfull, if_neg (by omega)]
  · omega

/-- **`PutParam` adds a pointer to the list**, as long as the length that is
needed is an `int`. -/
theorem putParam_spec (hl : IsList h p xs) (hmax : p.length ≤ intMax) (x : Option ℕ) :
    (grownLength p.length (xs ++ [x]).length ≤ intMax →
        ∃ p' h', putParam A x p h = some (p', h') ∧ IsList h' p' (xs ++ [x]) ∧
          p'.length = grownLength p.length (xs ++ [x]).length ∧ Frame p h p' h') ∧
      (intMax < grownLength p.length (xs ++ [x]).length → putParam A x p h = none) := by
  obtain ⟨h₁, hput, hs, hf₁⟩ := hl.put x
  have hcur : p.cur.offset + 1 = ((xs ++ [x]).length : ℕ) := by
    rw [hl.offset, List.length_append, List.length_singleton]
    rfl
  have hsize : toInt ((xs ++ [x]).length : ℕ) = ((xs ++ [x]).length : ℕ) := by
    have hroom := hl.room
    refine bmod_of_le_intMax ?_
    rw [List.length_append, List.length_singleton]
    omega
  have heq : putParam A x p h =
      (grow A (xs ++ [x]).length { p with cur := ⟨p.vec, (xs ++ [x]).length⟩ } h₁).bind
        fun r => (r.2.store r.1.cur (.ptr none)).map fun h => (r.1, h) := by
    rw [putParam, hput, Option.bind_some]
    simp only [hl.block, hcur, hsize, if_true]
  rw [heq]
  constructor
  · intro hfit
    obtain ⟨p', h₂, hgrow, hs', hlen, hroom, hf₂⟩ := hs.grow (A := A) (by simp) hfit
    obtain ⟨h', hnull, hl', hf'⟩ := hs'.terminate hroom
    exact ⟨p', h', by simp only [hgrow, Option.bind_some, hnull, Option.map_some], hl', hlen,
      (hf₁.trans hf₂).trans hf'⟩
  · intro hover
    have hgrow := grow_eq_none (A := A) (h := h₁)
      (p := { p with cur := ⟨p.vec, (xs ++ [x]).length⟩ }) hover hmax
    rw [hgrow, Option.bind_none]

/-- **`NewParams` is an empty list**, in two blocks of its own. -/
theorem newParams_spec (A : Allocator Word) (h : Heap Word) {k : ℤ} (hk : 1 ≤ k) :
    ∃ p h', newParams A k h = some (p, h') ∧ IsList h' p [] ∧ p.length = k ∧
      (∀ b ∈ [p.vec, p.self], h.block b = none) ∧
      ∀ b, b ∉ [p.vec, p.self] → h'.block b = h.block b := by
  have hlive : ((A.malloc h 1).2.block (A.malloc h 1).1).isSome := by
    rw [Allocator.block_malloc_self]
    rfl
  let vec := A.malloc (A.malloc h 1).2 k.toNat
  let p : Params := { self := (A.malloc h 1).1, vec := vec.1, length := k, cur := ⟨vec.1, 0⟩ }
  have hne : p.self ≠ p.vec := Allocator.ne_malloc_of_live hlive
  have hlen : ((cellsOf [] ++ List.replicate k.toNat none).length : ℤ) = p.length := by
    rw [cellsOf_nil, List.nil_append, List.length_replicate, Int.toNat_of_nonneg (by omega)]
  have hs : Stored vec.2 p [] :=
    ⟨⟨_, Allocator.block_malloc_self, hlen⟩, rfl,
      by rw [Allocator.block_malloc_of_ne hne]; exact hlive, hne⟩
  obtain ⟨h', hnull, hl, hf⟩ := hs.terminate hk
  refine ⟨p, h', ?_, hl, rfl, fun b hb => ?_, fun b hb => ?_⟩
  · rw [newParams, if_neg (by omega)]
    show (vec.2.store p.cur (.ptr none)).map (fun h => (p, h)) = some (p, h')
    rw [hnull, Option.map_some]
  · rcases List.mem_pair.mp hb with rfl | rfl
    · rw [← Allocator.block_malloc_of_ne hne.symm]
      exact Allocator.block_malloc_fst
    · exact Allocator.block_malloc_fst
  · obtain ⟨hvec, hself⟩ := not_or.mp (mt List.mem_pair.mpr hb)
    rw [hf.block b hvec hvec, Allocator.block_malloc_of_ne hvec,
      Allocator.block_malloc_of_ne hself]

end Calls

/-! ### The length -/

/-- `length` is `k`, doubled until it is more than `m`. -/
structure LeastDoubling (k : ℤ) (m : ℕ) (length : ℤ) : Prop where
  doubling : ∃ j : ℕ, length = k * 2 ^ j
  lt : m < length
  least : ∀ j : ℕ, m < k * 2 ^ j → length ≤ k * 2 ^ j

/-- The length a vector of `m` pointers needs is an `int`, if its first length is `k`. -/
def InRange (k : ℤ) (m : ℕ) : Prop := ∃ j : ℕ, m < k * 2 ^ j ∧ k * 2 ^ j ≤ intMax

section Lengths

variable {k length length' : ℤ} {m : ℕ}

theorem LeastDoubling.zero (hk : 1 ≤ k) : LeastDoubling k 0 k where
  doubling := ⟨0, by rw [pow_zero, mul_one]⟩
  lt := hk
  least j _ := le_mul_of_one_le_right (by omega) (one_le_pow₀ (by decide))

/-- One pointer more. -/
theorem LeastDoubling.succ (hk : 1 ≤ k) (hd : LeastDoubling k m length) :
    LeastDoubling k (m + 1) (grownLength length (m + 1 : ℕ)) := by
  have hlt := hd.lt
  rw [grownLength]
  by_cases hfull : length ≤ (m + 1 : ℕ)
  · rw [if_pos hfull]
    obtain ⟨i, rfl⟩ := hd.doubling
    refine ⟨⟨i + 1, by rw [pow_succ, mul_assoc]⟩, by omega, fun j hj => ?_⟩
    have hpow : (2 : ℤ) ^ i < 2 ^ j := lt_of_mul_lt_mul_left (hfull.trans_lt hj) (by omega)
    have hij : i + 1 ≤ j := (pow_lt_pow_iff_right₀ (by decide)).mp hpow
    calc
      k * 2 ^ i * 2 = k * 2 ^ (i + 1) := by rw [pow_succ, mul_assoc]
      _ ≤ k * 2 ^ j := mul_le_mul_of_nonneg_left (pow_le_pow_right₀ (by decide) hij) (by omega)
  · rw [if_neg hfull]
    exact ⟨hd.doubling, by omega, fun j hj => hd.least j (by omega)⟩

theorem LeastDoubling.unique (hd : LeastDoubling k m length) (hd' : LeastDoubling k m length') :
    length = length' := by
  obtain ⟨i, hi⟩ := hd.doubling
  obtain ⟨j, hj⟩ := hd'.doubling
  refine le_antisymm ?_ ?_
  · rw [hj]
    exact hd.least j (hj ▸ hd'.lt)
  · rw [hi]
    exact hd'.least i (hi ▸ hd.lt)

theorem LeastDoubling.inRange_iff (hd : LeastDoubling k m length) :
    InRange k m ↔ length ≤ intMax := by
  constructor
  · rintro ⟨j, hlt, hmax⟩
    exact (hd.least j hlt).trans hmax
  · intro hmax
    obtain ⟨j, hj⟩ := hd.doubling
    exact ⟨j, hj ▸ hd.lt, hj ▸ hmax⟩

end Lengths

/-! ### Any number of calls -/

/-- What happens to a vector: a call of `PutParam`, or anything the program does elsewhere. -/
inductive Event where
  | put (nameValue : Option ℕ)
  | other

/-- The pointers that are put. -/
def puts : List Event → List (Option ℕ)
  | [] => []
  | .put x :: es => x :: puts es
  | .other :: es => puts es

/-- One event; elsewhere the program may allocate, free and store as it likes, in all blocks
but the two of the vector. -/
inductive Step (A : Allocator Word) : Params × Heap Word → Event → Params × Heap Word → Prop
  | put {p p' : Params} {h h' : Heap Word} {x : Option ℕ}
      (hput : putParam A x p h = some (p', h')) : Step A (p, h) (.put x) (p', h')
  | other {p : Params} {h h' : Heap Word} (hvec : h'.block p.vec = h.block p.vec)
      (hself : h'.block p.self = h.block p.self) : Step A (p, h) .other (p, h')

/-- The invariant of a vector whose first length was `k`. -/
structure Tracks (k : ℤ) (xs : List (Option ℕ)) (s : Params × Heap Word) : Prop where
  isList : IsList s.2 s.1 xs
  length : LeastDoubling k xs.length s.1.length
  max : s.1.length ≤ intMax

section Runs

variable {A : Allocator Word} {k : ℤ} {h h' : Heap Word} {p p' : Params} {xs : List (Option ℕ)}
  {s t : Params × Heap Word}

theorem IsList.congr (hl : IsList h p xs) (hvec : h'.block p.vec = h.block p.vec)
    (hself : h'.block p.self = h.block p.self) : IsList h' p xs where
  cells := by
    rw [hvec]
    exact hl.cells
  cur := hl.cur
  self_live := by
    rw [hself]
    exact hl.self_live
  self_ne := hl.self_ne
  null := by
    rw [hvec]
    exact hl.null
  room := hl.room

/-- When `PutParam` is defined, and what it does then. -/
theorem Tracks.putParam (hk : 1 ≤ k) (ht : Tracks k xs (p, h)) (x : Option ℕ) :
    ((putParam A x p h).isSome ↔ InRange k (xs.length + 1)) ∧
      ∀ p' h', putParam A x p h = some (p', h') →
        Tracks k (xs ++ [x]) (p', h') ∧ Frame p h p' h' := by
  obtain ⟨hfits, hover⟩ := putParam_spec (A := A) ht.isList ht.max x
  have hd : LeastDoubling k (xs ++ [x]).length (grownLength p.length (xs ++ [x]).length) := by
    rw [List.length_append, List.length_singleton]
    exact ht.length.succ hk
  have hcount : (xs ++ [x]).length = xs.length + 1 := List.length_append
  rw [← hcount, hd.inRange_iff]
  by_cases hmax : grownLength p.length (xs ++ [x]).length ≤ intMax
  · obtain ⟨q, g, hput, hl, hlen, hf⟩ := hfits hmax
    refine ⟨iff_of_true (by rw [hput]; rfl) hmax, fun p' h' hput' => ?_⟩
    cases hput.symm.trans hput'
    exact ⟨⟨hl, hlen ▸ hd, hlen ▸ hmax⟩, hf⟩
  · have hnone := hover (not_le.mp hmax)
    refine ⟨iff_of_false (by rw [hnone]; exact Bool.false_ne_true) hmax,
      fun p' h' hput' => ?_⟩
    cases hnone.symm.trans hput'

theorem Tracks.run (hk : 1 ≤ k) {es : List Event} (ht : Tracks k xs s)
    (hrun : Machine.Runs (Step A) s es t) : Tracks k (xs ++ puts es) t := by
  induction hrun generalizing xs with
  | nil =>
      rw [puts, List.append_nil]
      exact ht
  | cons hstep _ ih =>
      cases hstep with
      | put hput =>
          have hnext := ih ((ht.putParam hk _).2 _ _ hput).1
          rw [List.append_assoc] at hnext
          exact hnext
      | other hvec hself =>
          exact ih ⟨ht.isList.congr hvec hself, ht.length, ht.max⟩

end Runs

/-! ### Freeing it -/

/-- The strings of the vector are blocks that have been allocated, no two of
them the same and none of them a block of the vector. -/
structure Owned (h : Heap Word) (p : Params) (as : List ℕ) : Prop where
  nodup : (as ++ [p.vec, p.self]).Nodup
  live : ∀ a ∈ as, (h.block a).isSome

section Free

variable {h h' : Heap Word} {p : Params} {xs : List (Option ℕ)} {as done rest : List ℕ} {a : ℕ}

theorem Owned.vec_notMem (ho : Owned h p as) : p.vec ∉ as := fun hmem =>
  (List.nodup_append.mp ho.nodup).2.2 _ hmem _ List.mem_cons_self rfl

theorem Owned.self_notMem (ho : Owned h p as) : p.self ∉ as := fun hmem =>
  (List.nodup_append.mp ho.nodup).2.2 _ hmem _ (by simp) rfl

/-- A pass in front of a string frees it. -/
theorem freeBody_string (hl : IsList h p (as.map some)) (ho : Owned h p as)
    (has : as = done ++ a :: rest) (hf : Heap.Freed h h' done) :
    ∃ h'', freeBody p.cur (⟨p.vec, done.length⟩, h') =
        some (.again (⟨p.vec, (done ++ [a]).length⟩, h'')) ∧ Heap.Freed h h'' (done ++ [a]) := by
  have hnodup : as.Nodup := (List.nodup_append.mp ho.nodup).1
  have hvec : p.vec ∉ done := fun hmem =>
    ho.vec_notMem (has ▸ List.mem_append_left _ hmem)
  have ha : a ∉ done := fun hmem => by
    rw [has] at hnodup
    exact (List.nodup_append.mp hnodup).2.2 a hmem a List.mem_cons_self rfl
  obtain ⟨tail, hblock, -⟩ := hl.cells
  rw [has, List.map_append, cellsOf_append, List.append_assoc] at hblock
  have hload := Heap.load_cell ((hf.other p.vec hvec).trans hblock)
  rw [length_cellsOf, List.length_map] at hload
  have hlive : (h.block a).isSome := ho.live a (has ▸ List.mem_append_right _ List.mem_cons_self)
  obtain ⟨h'', hfree, hf'⟩ := hf.concat hlive ha
  refine ⟨h'', ?_, hf'⟩
  have hlt : (done.length : ℤ) < p.cur.offset := by
    rw [hl.offset, List.length_map, has, List.length_append, List.length_cons]
    omega
  rw [freeBody, if_pos hl.block.symm, if_pos hlt, hload]
  show (h'.free a).map _ = _
  rw [hfree, List.length_append]
  rfl

/-- The loop of `FreeParams` frees the strings in the order of the list. -/
theorem run_freeBody (hl : IsList h p (as.map some)) (ho : Owned h p as) :
    ∃ h', run (freeBody p.cur) (p.cur.offset.toNat + 1) (⟨p.vec, 0⟩, h) = some h' ∧
      Heap.Freed h h' as := by
  have hoffset : p.cur.offset = as.length := by rw [hl.offset, List.length_map]
  refine run_total
    (fun x => ∃ done rest, as = done ++ rest ∧ x.1 = ⟨p.vec, done.length⟩ ∧ Heap.Freed h x.2 done)
    (fun h' => Heap.Freed h h' as) (fun x => (p.cur.offset - x.1.offset).toNat) ?_
    ⟨[], as, rfl, rfl, .nil h⟩ (by simp)
  rintro ⟨l, h'⟩ ⟨done, rest, has, rfl, hf⟩
  cases rest with
  | nil =>
      rw [List.append_nil] at has
      refine .inl ⟨h', ?_, has ▸ hf⟩
      rw [freeBody, if_pos hl.block.symm, if_neg (by rw [hoffset, has]; exact lt_irrefl _)]
  | cons a rest =>
      obtain ⟨h'', hbody, hf'⟩ := freeBody_string hl ho has hf
      refine .inr ⟨_, hbody, ⟨done ++ [a], rest, by rw [has]; simp, rfl, hf'⟩, ?_⟩
      rw [hoffset, has]
      simp only [List.length_append, List.length_cons, List.length_nil]
      omega

/-- **`FreeParams` frees the strings**, then the vector, then the `Params`. -/
theorem freeParams_spec (hl : IsList h p (as.map some)) (ho : Owned h p as) :
    ∃ h', freeParams (some p) h = some (none, h') ∧ Heap.Freed h h' (as ++ [p.vec] ++ [p.self]) := by
  obtain ⟨tail, hblock⟩ := hl.null
  obtain ⟨h₁, hrun, hf⟩ := run_freeBody hl ho
  obtain ⟨h₂, hvec, hf₂⟩ := hf.concat (by rw [hblock]; rfl) ho.vec_notMem
  obtain ⟨h₃, hself, hf₃⟩ := hf₂.concat hl.self_live (by
    rw [List.mem_append, List.mem_singleton]
    exact not_or.mpr ⟨ho.self_notMem, hl.self_ne⟩)
  refine ⟨h₃, ?_, hf₃⟩
  rw [freeParams, hrun, Option.bind_some, hvec, Option.bind_some, hself, Option.map_some]

end Free

/-- **`Params` represents a list.** `NewParams` is defined, and after any number of calls of
`PutParam` the vector holds the pointers that have been put; the next call is defined, which
means that its stores are below the length, exactly if the length it needs is an `int`. At any
time `FreeParams` frees each string once. -/
theorem newParams_isList (A : Allocator Word) (h₀ : Heap Word) {k : ℤ} (hk : 1 ≤ k)
    (hmax : k ≤ intMax) :
    ∃ p₀ h₁, newParams A k h₀ = some (p₀, h₁) ∧
      ∀ es p h, Machine.Runs (Step A) (p₀, h₁) es (p, h) →
        IsList h p (puts es) ∧
        (∀ x, (putParam A x p h).isSome ↔ InRange k ((puts es).length + 1)) ∧
        ∀ as, puts es = as.map some → Owned h p as →
          ∃ h' frees, freeParams (some p) h = some (none, h') ∧ h'.freed = h.freed ++ frees ∧
            ∀ a ∈ as, frees.count a = 1 ∧ h'.block a = none := by
  obtain ⟨p₀, h₁, hnew, hl, hlen, -⟩ := newParams_spec A h₀ hk
  have ht : Tracks k [] (p₀, h₁) := ⟨hl, hlen.symm ▸ .zero hk, hlen.symm ▸ hmax⟩
  refine ⟨p₀, h₁, hnew, fun es p h hrun => ?_⟩
  have hend : Tracks k (puts es) (p, h) := ht.run hk hrun
  refine ⟨hend.isList, fun x => (hend.putParam hk x).1, fun as has ho => ?_⟩
  obtain ⟨h', hfree, hf⟩ := freeParams_spec (has ▸ hend.isList) ho
  refine ⟨h', _, hfree, hf.freed, fun a ha => ⟨?_, hf.dead a (by simp [ha])⟩⟩
  rw [List.append_assoc]
  exact List.count_eq_one_of_mem ho.nodup (List.mem_append_left _ ha)

/-- Two strings in memory. -/
def twoStrings : Heap Word :=
  (Heap.empty.insert 0 [some (.char 65), some (.char 61), some (.char 0)]).insert 1
    [some (.char 66), some (.char 61), some (.char 0)]

/-- They are put into a vector that has room for the `NULL` only. -/
def twoPuts : Option (Params × Heap Word) :=
  (newParams .behind 1 twoStrings).bind fun s =>
    (putParam .behind (some 0) s.1 s.2).bind fun s => putParam .behind (some 1) s.1 s.2

theorem newParams_isList_two : ∃ p h, twoPuts = some (p, h) ∧ IsList h p [some 0, some 1] ∧
    ∃ h' frees, freeParams (some p) h = some (none, h') ∧ h'.freed = h.freed ++ frees ∧
      ∀ a ∈ [0, 1], frees.count a = 1 ∧ h'.block a = none := by
  obtain ⟨p₀, h₁, hnew, hall⟩ :=
    newParams_isList .behind twoStrings (k := 1) (by decide) (by decide)
  obtain ⟨⟨p₁, g₁⟩, hput₁⟩ := Option.isSome_iff_exists.mp
    (((hall [] p₀ h₁ .nil).2.1 (some 0)).mpr ⟨1, by decide, by decide⟩)
  have hrun₁ : Machine.Runs (Step .behind) (p₀, h₁) [.put (some 0)] (p₁, g₁) :=
    .single (.put hput₁)
  obtain ⟨⟨p₂, g₂⟩, hput₂⟩ := Option.isSome_iff_exists.mp
    (((hall _ p₁ g₁ hrun₁).2.1 (some 1)).mpr ⟨2, by decide, by decide⟩)
  have hrun₂ := hrun₁.append (.single (.put hput₂))
  have htwo : twoPuts = some (p₂, g₂) := by
    rw [twoPuts, hnew, Option.bind_some, hput₁, Option.bind_some, hput₂]
  obtain ⟨hl, -, hfrees⟩ := hall _ p₂ g₂ hrun₂
  have hblocks : twoPuts.map (fun s =>
      (s.1.vec, s.1.self, (s.2.block 0).isSome, (s.2.block 1).isSome)) =
        some (5, 2, true, true) := by decide
  rw [htwo] at hblocks
  simp only [Option.map_some, Option.some.injEq, Prod.mk.injEq] at hblocks
  obtain ⟨hvec, hself, hlive₀, hlive₁⟩ := hblocks
  have ho : Owned g₂ p₂ [0, 1] := by
    refine ⟨by rw [hvec, hself]; decide, fun a ha => ?_⟩
    rcases List.mem_pair.mp ha with rfl | rfl
    · exact hlive₀
    · exact hlive₁
  exact ⟨p₂, g₂, htwo, hl, hfrees [0, 1] rfl ho⟩

end FastCgi.Vec
