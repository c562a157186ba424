import FastCgi.Java.EndsCleanly

/-!
`skip` of the Java reader.

It reads from the socket into an array that it drops, past the buffer of the
stream and the records: what is in the buffer is still delivered afterwards,
and what is dropped is whatever comes next on the wire.
-/

namespace FastCgi

namespace Java

open ByteMem

/-- The cast `(int)n`. -/
def castInt (n : ℤ) : ℤ := Int.bmod n 4294967296

/-- `in.read(data)` of an array of `len` bytes: what is left of a chunk comes with the next
call. -/
def FileInputStream.readArray (len : ℕ) (inp : FileInputStream) : Option (ℤ × FileInputStream) :=
  if len = 0 then some (0, inp)
  else
    match inp.chunks, inp.atEnd with
    | chunk :: chunks, _ =>
        if chunk.length ≤ len then some (chunk.length, { inp with chunks := chunks })
        else some (len, { inp with chunks := chunk.drop len :: chunks })
    | [], .eof => some (-1, inp)
    | [], .ioException => none

namespace InChan

/-- `skip`. -/
def skip (n : ℤ) (c : InChan) : Option (ℤ × InChan) :=
  if castInt n < 0 then none
  else (c.inp.readArray (castInt n).toNat).map fun x => (x.1, { c with inp := x.2 })

/-- Skipping is reading and discarding: `k` bytes of the stream are passed, and later calls get
what they would get behind `k` calls of `read`. -/
def SkipsContent (c : InChan) (n : ℤ) : Prop :=
  ∃ (bs : List UInt8) (c' d : InChan), c.skip n = some ((bs.length : ℤ), c') ∧ (bs.length : ℤ) ≤ n ∧
    c.performAll (List.replicate bs.length .read) = some (bs.map fun b => .byte (some b), d) ∧
    ∀ calls, (c'.performAll calls).map Prod.fst = (d.performAll calls).map Prod.fst

/-! ### When it does -/

theorem castInt_eq_zero_iff (n : ℤ) : castInt n = 0 ↔ n % 4294967296 = 0 := by
  rw [castInt, Int.bmod]
  omega

/-- Nothing is read, and nothing changes. -/
theorem skip_of_castInt_eq_zero {n : ℤ} (h : castInt n = 0) (c : InChan) :
    c.skip n = some (0, c) := by
  rw [skip, h, if_neg (lt_irrefl 0)]
  rfl

/-- At the end of the source there is no count to return: the array has a negative length, or
`in.read` returns -1. -/
theorem skip_atEof {n : ℤ} (h : castInt n ≠ 0) (c : InChan) {count : ℤ} {c' : InChan}
    (hskip : { c with inp := ⟨[], .eof⟩ }.skip n = some (count, c')) : count = -1 := by
  rw [skip] at hskip
  by_cases hneg : castInt n < 0
  · rw [if_pos hneg] at hskip
    cases hskip
  · have hlen : (castInt n).toNat ≠ 0 := by omega
    rw [if_neg hneg, FileInputStream.readArray, if_neg hlen] at hskip
    cases hskip
    rfl

end InChan

/-- **Skipping is reading and discarding only where there is nothing to skip**: whatever the
state of the stream is, `skip` passes content on every wire exactly if the cast of `n` is 0. -/
theorem skip_passesContent_iff (c : InChan) {n : ℤ} (hn : 0 ≤ n) :
    (∀ inp, { c with inp := inp }.SkipsContent n) ↔ n % 4294967296 = 0 := by
  rw [← InChan.castInt_eq_zero_iff]
  constructor
  · intro h
    by_contra hne
    obtain ⟨bs, c', d, hskip, -⟩ := h ⟨[], .eof⟩
    have hcount := InChan.skip_atEof hne c hskip
    omega
  · intro h inp
    exact ⟨[], _, _, InChan.skip_of_castInt_eq_zero h _, hn, rfl, fun calls => rfl⟩

/-- Two records of standard input and its end, in three chunks. -/
def threeChunks : InChan :=
  stdinFrom [[1, 5, 0, 1, 0, 2, 0, 0, 65, 66], [1, 5, 0, 1, 0, 1, 0, 0, 67], [1, 5, 0, 1, 0, 0, 0, 0]]
    .eof

theorem skip_passesContent_wrap : threeChunks.SkipsContent 4294967296 :=
  (skip_passesContent_iff threeChunks (by decide)).mpr (by decide) threeChunks.inp

/-- Behind the first byte of the content, `skip` eats the header of the next record: it returns
8 where two bytes are left, the byte in the buffer is still delivered, and then the byte of the
second record is taken for the version of a header. -/
theorem skip_eatsHeader :
    ((threeChunks.perform .read).bind fun x => (x.2.skip 8).bind fun y =>
        (y.2.performAll [.read, .read]).map fun z => (x.1, y.1, z.1, z.2.stream.errno)) =
        some (.byte (some 65), 8, [.byte (some 66), .byte none], fcgxUnsupportedVersion) ∧
      ((threeChunks.perform .read).bind fun x =>
        (x.2.performAll (List.replicate 8 .read)).map Prod.fst) =
        some ([.byte (some 66), .byte (some 67)] ++ List.replicate 6 (.byte none)) ∧
      ¬ ∀ (c : InChan) (n : ℤ), 0 ≤ n → c.SkipsContent n := by
  refine ⟨by decide +kernel, by decide +kernel, fun h => ?_⟩
  obtain ⟨x, hx⟩ : ∃ x, threeChunks.perform .read = some x :=
    Option.isSome_iff_exists.mp (by decide +kernel)
  have hskip : ((threeChunks.perform .read).bind fun x => (x.2.skip 8).map Prod.fst) = some 8 := by
    decide +kernel
  have hreads : ((threeChunks.perform .read).bind fun x =>
      (x.2.performAll (List.replicate 8 .read)).map Prod.fst) =
        some ([.byte (some 66), .byte (some 67)] ++ List.replicate 6 (.byte none)) := by
    decide +kernel
  obtain ⟨bs, c', d, hskips, -, hbytes, -⟩ := h x.2 8 (by decide)
  rw [hx, Option.bind_some, hskips, Option.map_some, Option.some_inj] at hskip
  have hlen : bs.length = 8 := Int.ofNat.inj hskip
  rw [hx, Option.bind_some, ← hlen, hbytes, Option.map_some, Option.some_inj] at hreads
  have hthird : (bs.map fun b => Reply.byte (some b))[2]? = some (.byte none) :=
    congrArg (fun l => l[2]?) hreads
  rw [List.getElem?_map, List.getElem?_eq_getElem (by omega)] at hthird
  cases hthird

end Java

end FastCgi
