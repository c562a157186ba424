import Mathlib.Data.Int.Notation
import Mathlib.Data.List.Basic
import Mathlib.Tactic.Common

/-!
The heap of a C program, as blocks of cells.

Every block has an address of its own, and a pointer is the address of a
block and an offset into it. A cell that nobody has stored to has no value.
An operation is `none` where C leaves its behaviour undefined: a store that
is not below the length of the block, the second `free` of a block.

Where an allocation puts its block is the choice of the `Allocator`, which
takes no address that is in use. What holds for every allocator holds
however often `realloc` moves a block.
-/

namespace BlockHeap

/-- The blocks that are allocated, and the addresses `free` has been called
with so far. -/
structure Heap (α : Type*) where
  block : ℕ → Option (List (Option α))
  freed : List ℕ
  top : ℕ
  /-- No block is at `top` or behind it. -/
  block_top : ∀ a, top ≤ a → block a = none

/-- A pointer into a block. -/
structure Loc where
  block : ℕ
  offset : ℤ
  deriving DecidableEq

variable {α : Type*}

namespace Heap

def empty : Heap α :=
  { block := fun _ => none, freed := [], top := 0, block_top := fun _ _ => rfl }

/-- The block at `a` is now these cells. -/
def insert (h : Heap α) (a : ℕ) (cells : List (Option α)) : Heap α where
  block b := if b = a then some cells else h.block b
  freed := h.freed
  top := max h.top (a + 1)
  block_top b hb := by
    rw [if_neg (by omega)]
    exact h.block_top b (by omega)

/-- There is no block at `a` any more. -/
def erase (h : Heap α) (a : ℕ) : Heap α where
  block b := if b = a then none else h.block b
  freed := h.freed
  top := h.top
  block_top b hb := by
    split
    · rfl
    · exact h.block_top b hb

/-- `*l = v`, below the length of the block. -/
def store (h : Heap α) (l : Loc) (v : α) : Option (Heap α) :=
  (h.block l.block).bind fun cells =>
    if 0 ≤ l.offset ∧ l.offset < cells.length then
      some (h.insert l.block (cells.set l.offset.toNat (some v)))
    else none

/-- `*l`. -/
def load (h : Heap α) (l : Loc) : Option α :=
  (h.block l.block).bind fun cells =>
    if 0 ≤ l.offset then cells[l.offset.toNat]?.join else none

/-- `free`, of a block that has not been freed yet. -/
def free (h : Heap α) (a : ℕ) : Option (Heap α) :=
  if (h.block a).isSome then some { h.erase a with freed := h.freed ++ [a] } else none

variable {h h' : Heap α} {a b : ℕ} {l : Loc} {v : α} {cells pre post : List (Option α)}

@[simp] theorem block_insert_self : (h.insert a cells).block a = some cells := if_pos rfl

theorem block_insert_of_ne (hne : b ≠ a) : (h.insert a cells).block b = h.block b := if_neg hne

@[simp] theorem block_erase_self : (h.erase a).block a = none := if_pos rfl

theorem block_erase_of_ne (hne : b ≠ a) : (h.erase a).block b = h.block b := if_neg hne

/-- A store replaces one cell. -/
theorem store_cell {x : Option α} (hblock : h.block a = some (pre ++ x :: post)) (v : α) :
    h.store ⟨a, pre.length⟩ v = some (h.insert a (pre ++ some v :: post)) := by
  have hlen : (0 : ℤ) ≤ pre.length ∧ (pre.length : ℤ) < (pre ++ x :: post).length := by
    rw [List.length_append, List.length_cons]
    omega
  rw [store, hblock, Option.bind_some, if_pos hlen, Int.toNat_natCast,
    List.set_append_right _ _ (Nat.le_refl _), Nat.sub_self, List.set_cons_zero]

theorem load_cell {x : Option α} (hblock : h.block a = some (pre ++ x :: post)) :
    h.load ⟨a, pre.length⟩ = x := by
  rw [load, hblock, Option.bind_some, if_pos (Int.natCast_nonneg _), Int.toNat_natCast,
    List.getElem?_append_right (Nat.le_refl _), Nat.sub_self, List.getElem?_cons_zero, Option.join_some]

/-- `free` has been called with these addresses, in this order, and nothing
else has happened. -/
structure Freed (h h' : Heap α) (as : List ℕ) : Prop where
  freed : h'.freed = h.freed ++ as
  dead : ∀ a ∈ as, h'.block a = none
  other : ∀ b, b ∉ as → h'.block b = h.block b

theorem Freed.nil (h : Heap α) : Freed h h [] :=
  ⟨(List.append_nil _).symm, fun _ ha => absurd ha List.not_mem_nil, fun _ _ => rfl⟩

/-- Another block can be freed if it was there and has not been freed. -/
theorem Freed.concat {as : List ℕ} (hf : Freed h h' as) (hlive : (h.block a).isSome)
    (ha : a ∉ as) : ∃ h'', h'.free a = some h'' ∧ Freed h h'' (as ++ [a]) := by
  refine ⟨_, if_pos (by rw [hf.other a ha]; exact hlive), ?_, fun b hb => ?_, fun b hb => ?_⟩
  · show h'.freed ++ [a] = _
    rw [hf.freed, List.append_assoc]
  · show (if b = a then none else h'.block b) = none
    split
    · rfl
    · next hne =>
        rcases List.mem_append.mp hb with hmem | hmem
        · exact hf.dead b hmem
        · exact absurd (List.mem_singleton.mp hmem) hne
  · rw [List.mem_append, not_or] at hb
    have hne : b ≠ a := fun heq => hb.2 (List.mem_singleton.mpr heq)
    exact (block_erase_of_ne hne).trans (hf.other b hb.1)

end Heap

/-- Where `malloc` puts a block of `n` cells and where `realloc` puts the
block at `a` when it is to have `n` cells: at an address that is not in use,
or where it was. -/
structure Allocator (α : Type*) where
  place : Heap α → ℕ → ℕ
  place_fresh : ∀ (h : Heap α) (n : ℕ), h.block (place h n) = none
  move : Heap α → ℕ → ℕ → ℕ
  move_fresh : ∀ (h : Heap α) (a n : ℕ), move h a n = a ∨ h.block (move h a n) = none

namespace Allocator

/-- `malloc`. -/
def malloc (A : Allocator α) (h : Heap α) (n : ℕ) : ℕ × Heap α :=
  (A.place h n, h.insert (A.place h n) (List.replicate n none))

/-- `realloc`: the block keeps what fits into `n` cells. -/
def realloc (A : Allocator α) (h : Heap α) (a n : ℕ) : Option (ℕ × Heap α) :=
  (h.block a).map fun cells =>
    (A.move h a n,
      (h.erase a).insert (A.move h a n) (cells.take n ++ List.replicate (n - cells.length) none))

/-- Every block is put behind all the others, at `realloc` too. -/
def behind : Allocator α where
  place h _ := h.top
  place_fresh h _ := h.block_top _ (Nat.le_refl _)
  move h _ _ := h.top
  move_fresh h _ _ := .inr (h.block_top _ (Nat.le_refl _))

variable {A : Allocator α} {h : Heap α} {a b n : ℕ} {cells : List (Option α)}

theorem block_malloc_fst : h.block (A.malloc h n).1 = none := A.place_fresh h n

theorem block_malloc_self : (A.malloc h n).2.block (A.malloc h n).1 = some (List.replicate n none) :=
  Heap.block_insert_self

theorem block_malloc_of_ne (hne : b ≠ (A.malloc h n).1) : (A.malloc h n).2.block b = h.block b :=
  Heap.block_insert_of_ne hne

/-- A new block is none of those that were there. -/
theorem ne_malloc_of_live (hlive : (h.block b).isSome) : b ≠ (A.malloc h n).1 := by
  rintro rfl
  rw [block_malloc_fst] at hlive
  cases hlive

/-- Where a block moves, none was. -/
theorem block_move (hne : A.move h a n ≠ a) : h.block (A.move h a n) = none :=
  (A.move_fresh h a n).resolve_left hne

/-- `realloc` to a larger block, which keeps all the cells. -/
theorem realloc_grow (hblock : h.block a = some cells) (hn : cells.length ≤ n) :
    A.realloc h a n = some (A.move h a n,
      (h.erase a).insert (A.move h a n) (cells ++ List.replicate (n - cells.length) none)) := by
  rw [realloc, hblock, Option.map_some, List.take_of_length_le hn]

end Allocator

end BlockHeap
