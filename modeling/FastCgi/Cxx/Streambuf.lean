import FastCgi.App.FilterData

/-!
The C++ stream buffer over a `FCGX_Stream` (`libfcgi/fcgio.cpp`), for input.

`fcgi_streambuf` moves the pointers of the get area of `std::streambuf` by
hand. The area starts at `buf`, so its pointers are offsets from there; a
buffer of size 0 is none. What the base class does is what the standard
says: `sbumpc` and `sgetc` look at the get area first, `in_avail` is 0
when nothing is left in it, and the `xsgetn` of the base class is as many
calls of `sbumpc`.
-/

namespace FastCgi

open ByteMem

/-! ### The stream buffer -/

/-- The conversion of a `streamsize` to `int`. -/
def toInt (n : ℕ) : ℤ := Int.bmod n 4294967296

/-- `fcgi_streambuf`, with the get area of its base class. -/
structure Streambuf where
  fcgx : Chan
  buf : ℕ → UInt8
  bufsize : ℕ
  gptr : ℕ
  egptr : ℕ

/-- The constructor, which calls `init` and by it `setbuf` and `reset`. -/
def newStreambuf (fcgx : Chan) (buf : ℕ → UInt8) (bufsize : ℕ) : Streambuf :=
  { fcgx := fcgx, buf := buf, bufsize := bufsize, gptr := 0, egptr := 0 }

/-- The operations of a client. -/
inductive GetOp where
  | sbumpc
  | sgetc
  | sgetn (n : ℕ)
  deriving DecidableEq

namespace Streambuf

/-- `in_avail`. -/
def inAvail (s : Streambuf) : ℕ := s.egptr - s.gptr

def gbump (s : Streambuf) (n : ℕ) : Streambuf := { s with gptr := s.gptr + n }

/-- `(unsigned char) *gptr()`. -/
def current (s : Streambuf) : List UInt8 := [s.buf s.gptr]

/-- `FCGX_GetStr(eback(), this->bufsize, this->fcgx)`, and `setg` when it has read something. -/
def fill (s : Streambuf) : Option (ℕ × Streambuf) :=
  (fcgxGetStr fillBuffProc (toInt s.bufsize) s.fcgx).map fun x =>
    if x.1.length = 0 then (0, { s with fcgx := x.2 })
    else
      (x.1.length,
        { s with fcgx := x.2, buf := store s.buf 0 x.1, gptr := 0, egptr := x.1.length })

/-- `underflow`: the current byte; `[]` is EOF. -/
def underflow (s : Streambuf) : Option (List UInt8 × Streambuf) :=
  if s.bufsize ≠ 0 then
    if s.inAvail = 0 then
      (s.fill).map fun x => if x.1 = 0 then ([], x.2) else (x.2.current, x.2)
    else some (s.current, s)
  else
    match fcgxGetChar fillBuffProc s.fcgx with
    | none => none
    | some (none, c) => some ([], { s with fcgx := c })
    | some (some b, c) =>
        some (if (fcgxUnGetChar b c).1 then [b] else [], { s with fcgx := (fcgxUnGetChar b c).2 })

/-- `uflow`. -/
def uflow (s : Streambuf) : Option (List UInt8 × Streambuf) :=
  if s.bufsize ≠ 0 then s.underflow.map fun x => (x.1, x.2.gbump 1)
  else (fcgxGetChar fillBuffProc s.fcgx).map fun x => (x.1.toList, { s with fcgx := x.2 })

/-- `sbumpc` of the base class. -/
def sbumpc (s : Streambuf) : Option (List UInt8 × Streambuf) :=
  if s.gptr < s.egptr then some (s.current, s.gbump 1) else s.uflow

/-- `sgetc` of the base class. -/
def sgetc (s : Streambuf) : Option (List UInt8 × Streambuf) :=
  if s.gptr < s.egptr then some (s.current, s) else s.underflow

/-- `xsgetn` of the base class: `sbumpc` until `n` bytes are there or it returns EOF. -/
def baseXsgetn (s : Streambuf) : ℕ → Option (List UInt8 × Streambuf)
  | 0 => some ([], s)
  | n + 1 =>
      match s.sbumpc with
      | none => none
      | some ([], s') => some ([], s')
      | some (bs, s') => (s'.baseXsgetn n).map fun x => (bs ++ x.1, x.2)

/-- `xsgetn`. -/
def xsgetn (s : Streambuf) (n : ℕ) : Option (List UInt8 × Streambuf) :=
  if s.bufsize ≠ 0 then s.baseXsgetn n
  else
    (fcgxGetStr fillBuffProc (toInt n) s.fcgx).map fun x => (x.1, { s with fcgx := x.2 })

end Streambuf

namespace GetOp

/-- What an operation returns: the bytes; `[]` is EOF. -/
def perform : GetOp → Streambuf → Option (List UInt8 × Streambuf)
  | .sbumpc, s => s.sbumpc
  | .sgetc, s => s.sgetc
  | .sgetn n, s => s.xsgetn n

/-- The bytes an operation asks for. -/
def asked : GetOp → ℕ
  | .sbumpc => 1
  | .sgetc => 1
  | .sgetn n => n

/-- The bytes it takes off the stream, where there are so many. -/
def taken : GetOp → ℕ
  | .sbumpc => 1
  | .sgetc => 0
  | .sgetn n => n

/-- The sizes that reach `FCGX_GetStr` as they are. -/
def FitsInt : GetOp → Prop
  | .sgetn n => n ≤ intMax
  | _ => True

theorem taken_le_asked (op : GetOp) : op.taken ≤ op.asked := by
  cases op <;> simp [taken, asked]

end GetOp

/-- What each operation returns, and the buffer after it. -/
def performGets : List GetOp → Streambuf → Option (List (List UInt8 × Streambuf))
  | [], _ => some []
  | op :: ops, s =>
      match op.perform s with
      | none => none
      | some x => (performGets ops x.2).map fun xs => x :: xs

/-- What the operations return on a stream whose bytes are `bs`. -/
def readOff : List GetOp → List UInt8 → List (List UInt8)
  | [], _ => []
  | op :: ops, bs => bs.take op.asked :: readOff ops (bs.drop op.taken)

/-! ### The stream below -/

/-- What is between `rdNext` and `stop` can be pushed back behind the mark. -/
def Chan.MarkBehind (c : Chan) : Prop :=
  c.stream.isClosed = false → c.stream.rdNext < c.stream.stop → c.stream.stopUnget ≤ c.stream.rdNext

theorem markBehind_readInvariant : ReadInvariant fillBuffProc Chan.MarkBehind where
  takeBytes m c hc ho hlt := by
    have hmark := hc ho (Nat.lt_of_le_of_lt (Nat.le_add_right _ m) hlt)
    exact Nat.le_trans hmark (Nat.le_add_right _ m)
  setError c _ ho := nomatch ho
  fill c c' _ _ _ := by
    split
    · next hclosed => exact fun ho => by rw [hclosed] at ho; cases ho
    · exact fun _ _ => Nat.le_refl _

/-- A stream whose bytes are `bs`. -/
def Chan.Stocked (c : Chan) (bs : List UInt8) : Prop :=
  c.Readable ∧ c.MarkBehind ∧ (∃ e, Delivers c.view bs e) ∨
    c.stream.isClosed = true ∧ bs = []

/-- `FCGX_GetStr` takes the bytes off. -/
theorem Chan.Stocked.getStr {c : Chan} {bs : List UInt8} (h : c.Stocked bs) (n : ℕ) :
    ∃ c', fcgxGetStr fillBuffProc n c = some (bs.take n, c') ∧ c'.Stocked (bs.drop n) := by
  rcases h with ⟨ho, hmark, e, hd⟩ | ⟨hclosed, rfl⟩
  · obtain ⟨⟨xs, c'⟩, hget, hgot⟩ := (ReadCall.getStr n).perform_spec ho.toOpen ho.eorStop hd
    have hmark' : c'.MarkBehind := markBehind_readInvariant.getStr hmark hget
    rcases hgot with ⟨hlen, hxs, ho', hr⟩ | ⟨hlen, hxs, hclosed, hview⟩
    · obtain rfl : xs = bs.take n := hxs
      refine ⟨c', hget, .inl ⟨⟨ho', ?_, ?_⟩, hmark', e, hr.rest ?_⟩⟩
      · exact hr.eorStop.trans ho.eorStop
      · exact hr.skip_eq ho.skip
      · change Delivers c.view (bs.take n ++ bs.drop n) e
        rwa [List.take_append_drop]
    · obtain rfl : xs = bs := hxs
      have hn : xs.length ≤ n := Nat.le_of_lt hlen
      rw [List.take_of_length_le hn, List.drop_of_length_le hn]
      exact ⟨c', hget, .inr ⟨hclosed.isClosed, rfl⟩⟩
  · refine ⟨c, ?_, .inr ⟨hclosed, List.drop_nil⟩⟩
    rw [fcgxGetStr, if_pos (by simp [hclosed]), List.take_nil]

/-- A byte that `FCGX_GetChar` returns has just been taken from the buffer. -/
theorem fcgxGetChar_marked {fill : Chan → Option Chan} {c c' : Chan} {b : UInt8}
    (hle : c.stream.rdNext ≤ c.stream.stop) (hopen : c.stream.isClosed = false)
    (hmark : c.MarkBehind) (h : fcgxGetChar fill c = some (some b, c')) :
    c'.stream.stopUnget < c'.stream.rdNext := by
  generalize hx : some b = x at h
  cases getsChar_fcgxGetChar h with
  | refused => cases hx
  | buffered _ hne => exact Nat.lt_succ_of_le (hmark hopen (Nat.lt_of_le_of_ne hle hne))
  | ended => cases hx
  | filled => exact Nat.lt_succ_self _

/-- `FCGX_GetChar` takes a byte off, and `FCGX_UnGetChar` puts it back. -/
theorem Chan.Stocked.getChar {c : Chan} {bs : List UInt8} (h : c.Stocked bs) :
    ∃ c', fcgxGetChar fillBuffProc c = some (bs.head?, c') ∧ c'.Stocked (bs.drop 1) ∧
      ∀ b, bs.head? = some b →
        (fcgxUnGetChar b c').1 = true ∧ (fcgxUnGetChar b c').2.Stocked bs := by
  rcases h with ⟨ho, hmark, e, hd⟩ | ⟨hclosed, rfl⟩
  · have hf : FillSpec fillBuffProc c.stream.eorStop := by
      rw [ho.eorStop]
      exact fillSpec_fillBuffProc
    cases bs with
    | nil =>
        obtain ⟨c', hget, hclosed, -⟩ := fcgxGetChar_eof hf ho.toOpen hd
        exact ⟨c', hget, .inr ⟨hclosed.isClosed, rfl⟩, fun b hb => nomatch hb⟩
    | cons b bs =>
        obtain ⟨c', hget, ho', hr⟩ := fcgxGetChar_byte hf ho.toOpen hd
        have hlt := fcgxGetChar_marked ho.rdNext_le_stop ho.isClosed hmark hget
        have hskip : c'.stream.skip = false := hr.skip_eq ho.skip
        have hd' : Delivers c'.view bs e := hr.rest hd
        have hreadable : c'.Readable := ⟨ho', hr.eorStop.trans ho.eorStop, hskip⟩
        refine ⟨c', hget, .inl ⟨hreadable, markBehind_readInvariant.getChar hmark hget, e, hd'⟩, ?_⟩
        intro b' hb'
        obtain rfl : b = b' := Option.some.inj hb'
        have hun : fcgxUnGetChar b c' = (true, c'.pushed b) := by
          rw [fcgxUnGetChar, if_neg (by
            simp only [ho'.isClosed, ho'.isReader, Bool.not_true, Bool.or_self, Bool.false_or,
              decide_eq_true_eq]
            omega)]
          rfl
        rw [hun]
        refine ⟨rfl, .inl ⟨⟨ho'.pushed hskip b, hreadable.eorStop, hskip⟩, fun _ _ => ?_, e, ?_⟩⟩
        · exact Nat.le_sub_one_of_lt hlt
        · rw [view_pushed ho' b (Nat.zero_lt_of_lt hlt)]
          exact hd'.push hskip b
  · refine ⟨c, ?_, .inr ⟨hclosed, rfl⟩, fun b hb => nomatch hb⟩
    rw [fcgxGetChar, if_pos (by simp [hclosed])]
    rfl

/-! ### Without a buffer -/

theorem toInt_of_le {n : ℕ} (h : n ≤ intMax) : toInt n = n := bmod_of_le_intMax h

theorem toInt_le (n : ℕ) : toInt n ≤ intMax := by
  have hle : toInt n ≤ (2147483647 : ℕ) := by
    unfold toInt
    rw [Int.bmod_def]
    omega
  exact hle

namespace Streambuf

variable {s s' : Streambuf} {bs : List UInt8} {len : ℕ}

/-- A stream buffer without a buffer, over a stream whose bytes are `bs`. -/
structure Direct (s : Streambuf) (bs : List UInt8) : Prop where
  bufsize : s.bufsize = 0
  empty : ¬s.gptr < s.egptr
  stocked : s.fcgx.Stocked bs

theorem Direct.perform (h : s.Direct bs) {op : GetOp} (hop : op.FitsInt) :
    ∃ s', op.perform s = some (bs.take op.asked, s') ∧ s'.Direct (bs.drop op.taken) := by
  have hnone : ¬s.bufsize ≠ 0 := not_not_intro h.bufsize
  cases op with
  | sbumpc =>
      obtain ⟨c', hget, hc', -⟩ := h.stocked.getChar
      refine ⟨{ s with fcgx := c' }, ?_, h.bufsize, h.empty, hc'⟩
      rw [GetOp.perform, sbumpc, if_neg h.empty, uflow, if_neg hnone, hget]
      cases bs <;> rfl
  | sgetc =>
      obtain ⟨c', hget, hc', hback⟩ := h.stocked.getChar
      rw [GetOp.perform, sgetc, if_neg h.empty, underflow, if_neg hnone, hget]
      cases bs with
      | nil => exact ⟨_, rfl, h.bufsize, h.empty, hc'⟩
      | cons b bs =>
          obtain ⟨hok, hc''⟩ := hback b rfl
          refine ⟨{ s with fcgx := (fcgxUnGetChar b c').2 }, ?_, h.bufsize, h.empty, hc''⟩
          simp only [List.head?_cons, hok, if_true]
          rfl
  | sgetn n =>
      obtain ⟨c', hget, hc'⟩ := h.stocked.getStr n
      refine ⟨{ s with fcgx := c' }, ?_, h.bufsize, h.empty, hc'⟩
      rw [GetOp.perform, xsgetn, if_neg hnone, toInt_of_le hop, hget]
      rfl

/-- A size that does not fit is cut off: fewer bytes are returned. -/
theorem Direct.perform_short (h : s.Direct bs) {n : ℕ} (hn : ¬n ≤ intMax) {x : List UInt8}
    (hx : (GetOp.sgetn n).perform s = some (x, s')) : x.length < n := by
  have hle := toInt_le n
  rw [GetOp.perform, xsgetn, if_neg (not_not_intro h.bufsize)] at hx
  obtain ⟨⟨y, c'⟩, hget, heq⟩ := Option.map_eq_some_iff.mp hx
  obtain rfl : y = x := congrArg Prod.fst heq
  by_cases hpos : 0 < toInt n
  · obtain ⟨m, hm⟩ : ∃ m : ℕ, toInt n = m := ⟨_, (Int.toNat_of_nonneg hpos.le).symm⟩
    obtain ⟨c'', hget', -⟩ := h.stocked.getStr m
    rw [hm, hget'] at hget
    obtain rfl := congrArg Prod.fst (Option.some.inj hget)
    rw [List.length_take]
    omega
  · rw [fcgxGetStr, if_pos (by simp only [Bool.or_eq_true, decide_eq_true_eq]; omega)] at hget
    obtain rfl := congrArg Prod.fst (Option.some.inj hget)
    rw [List.length_nil]
    omega

theorem Direct.performGets (h : s.Direct bs) {ops : List GetOp}
    (hops : ∀ op ∈ ops, op.FitsInt) :
    ∃ xs, performGets ops s = some xs ∧ xs.map Prod.fst = readOff ops bs := by
  induction ops generalizing s bs with
  | nil => exact ⟨[], rfl, rfl⟩
  | cons op ops ih =>
      obtain ⟨s', hop, h'⟩ := h.perform (hops op List.mem_cons_self)
      obtain ⟨xs, hxs, hres⟩ := ih h' fun o ho => hops o (List.mem_cons_of_mem op ho)
      refine ⟨(bs.take op.asked, s') :: xs, ?_, ?_⟩
      · rw [FastCgi.performGets, hop]
        simp only [hxs, Option.map_some]
      · rw [List.map_cons, hres, readOff]

/-- Where it reads off the stream, and there is enough, every size has fitted. -/
theorem Direct.fitsInt (h : s.Direct bs) {ops : List GetOp}
    {xs : List (List UInt8 × Streambuf)} (hxs : FastCgi.performGets ops s = some xs)
    (hres : xs.map Prod.fst = readOff ops bs) (hlen : (ops.map GetOp.taken).sum ≤ bs.length) :
    ∀ op ∈ ops, op.FitsInt := by
  induction ops generalizing s bs xs with
  | nil => exact fun _ hop => nomatch hop
  | cons op ops ih =>
      rw [List.map_cons, List.sum_cons] at hlen
      rw [FastCgi.performGets] at hxs
      split at hxs
      · cases hxs
      · next x hop =>
          obtain ⟨ys, hys, rfl⟩ := Option.map_eq_some_iff.mp hxs
          rw [List.map_cons, readOff, List.cons.injEq] at hres
          have hfits : op.FitsInt := by
            cases op with
            | sbumpc => trivial
            | sgetc => trivial
            | sgetn n =>
                by_contra hn
                have hop : (GetOp.sgetn n).perform s = some (x.1, x.2) := hop
                have hshort := h.perform_short hn hop
                rw [hres.1, List.length_take] at hshort
                simp only [GetOp.asked, GetOp.taken] at hshort hlen
                omega
          obtain ⟨s', hop', h'⟩ := h.perform hfits
          obtain rfl := Option.some.inj (hop.symm.trans hop')
          have hrest := ih h' hys hres.2 (by rw [List.length_drop]; omega)
          intro o ho
          rcases List.mem_cons.mp ho with rfl | ho
          · exact hfits
          · exact hrest o ho

/-! ### With a buffer -/

/-- A stream buffer of size `len` whose bytes are `bs`: those of the get area, then those of
the stream. -/
structure Buffering (len : ℕ) (s : Streambuf) (bs : List UInt8) : Prop where
  size : s.bufsize = len
  fits : 1 ≤ toInt s.bufsize
  egptr_le : s.egptr ≤ s.bufsize
  rest : ∃ rest, s.fcgx.Stocked rest ∧ bs = slice s.buf s.gptr (s.egptr - s.gptr) ++ rest

/-- The get area is as the base class expects it. -/
def Sane (s : Streambuf) : Prop := s.gptr ≤ s.egptr

theorem Buffering.bufsize_ne (h : Buffering len s bs) : s.bufsize ≠ 0 := by
  intro hzero
  have hfits := h.fits
  rw [hzero] at hfits
  exact absurd hfits (by decide)

theorem toInt_toNat_le {n : ℕ} (h : 1 ≤ toInt n) : (toInt n).toNat ≤ n := by
  by_cases hn : n ≤ intMax
  · rw [toInt_of_le hn, Int.toNat_natCast]
  · have := toInt_le n
    omega

/-- The get area is empty: the stream is read, and there is a byte unless it has ended. -/
theorem Buffering.underflow (h : Buffering len s bs) (hempty : ¬s.gptr < s.egptr) :
    ∃ s', s.underflow = some (bs.take 1, s') ∧ Buffering len s' bs ∧
      (bs ≠ [] → s'.gptr < s'.egptr) ∧ (bs = [] → s'.gptr = s.gptr ∧ s'.egptr = s.egptr) := by
  obtain ⟨rest, hstocked, hbs⟩ := h.rest
  have hnone : s.egptr - s.gptr = 0 := by omega
  rw [hnone, slice_zero, List.nil_append] at hbs
  subst hbs
  have hfits := h.fits
  obtain ⟨m, hm⟩ : ∃ m : ℕ, toInt s.bufsize = m := ⟨_, (Int.toNat_of_nonneg (by omega)).symm⟩
  have hm_le : m ≤ s.bufsize := by
    have := toInt_toNat_le hfits
    rwa [hm, Int.toNat_natCast] at this
  obtain ⟨c', hget, hc'⟩ := hstocked.getStr m
  rw [Streambuf.underflow, if_pos h.bufsize_ne, if_pos (show s.inAvail = 0 from hnone),
    fill, hm, hget]
  cases bs with
  | nil =>
      rw [List.take_nil, List.drop_nil] at *
      refine ⟨{ s with fcgx := c' }, rfl, ⟨h.size, h.fits, h.egptr_le, [], hc', ?_⟩, fun hne => ?_,
        fun _ => ⟨rfl, rfl⟩⟩
      · show [] = slice s.buf s.gptr (s.egptr - s.gptr) ++ []
        rw [hnone]
        rfl
      · exact absurd rfl hne
  | cons b bs =>
      have hlen : 0 < ((b :: bs).take m).length := by
        rw [List.length_take, List.length_cons]
        omega
      have hlen' : ((b :: bs).take m).length ≤ m := List.length_take_le m _
      let t : Streambuf :=
        { s with
          fcgx := c', buf := store s.buf 0 ((b :: bs).take m), gptr := 0
          egptr := ((b :: bs).take m).length }
      have ht : slice t.buf t.gptr (t.egptr - t.gptr) = (b :: bs).take m := by
        show slice (store s.buf 0 ((b :: bs).take m)) 0 (((b :: bs).take m).length - 0) = _
        rw [Nat.sub_zero, slice_store]
      refine ⟨t, ?_, ⟨h.size, h.fits, ?_, _, hc', ?_⟩, fun _ => hlen, fun hnil => nomatch hnil⟩
      · have hcur : t.current = (b :: bs).take 1 := by
          have hone := congrArg (List.take 1) ht
          rw [take_slice _ _ (show 1 ≤ t.egptr - t.gptr from hlen), List.take_take,
            Nat.min_eq_left (by omega)] at hone
          exact hone
        simp only [Option.map_some, if_neg (Nat.ne_of_gt hlen)]
        exact congrArg (fun x => some (x, t)) hcur
      · exact hlen'.trans hm_le
      · rw [ht, List.take_append_drop]

/-- The get area is not empty. -/
theorem Buffering.current (h : Buffering len s bs) (hlt : s.gptr < s.egptr) :
    s.current = bs.take 1 ∧ bs ≠ [] ∧ Buffering len (s.gbump 1) (bs.drop 1) := by
  obtain ⟨rest, hstocked, rfl⟩ := h.rest
  rw [slice_of_pos (by omega)]
  refine ⟨rfl, List.cons_ne_nil _ _, h.size, h.fits, h.egptr_le, rest, hstocked, ?_⟩
  show _ = slice s.buf (s.gptr + 1) (s.egptr - (s.gptr + 1)) ++ rest
  rw [Nat.sub_add_eq]
  rfl

theorem Buffering.sbumpc (h : Buffering len s bs) :
    ∃ s', s.sbumpc = some (bs.take 1, s') ∧ Buffering len s' (bs.drop 1) ∧
      (bs ≠ [] → s'.Sane) ∧ (bs = [] → ¬s'.Sane) := by
  rw [Streambuf.sbumpc]
  split
  · next hlt =>
      obtain ⟨hcur, hne, h'⟩ := h.current hlt
      exact ⟨s.gbump 1, by rw [hcur], h', fun _ => hlt, fun hnil => absurd hnil hne⟩
  · next hempty =>
      obtain ⟨t, hunder, ht, hbyte, hend⟩ := h.underflow hempty
      rw [uflow, if_pos h.bufsize_ne, hunder]
      refine ⟨t.gbump 1, rfl, ?_⟩
      cases bs with
      | nil =>
          obtain ⟨hg, he⟩ := hend rfl
          obtain ⟨rest, hstocked, hrest⟩ := ht.rest
          -- `gbump(1)` although there is no byte
          refine ⟨⟨ht.size, ht.fits, ht.egptr_le, rest, hstocked, ?_⟩, fun hne => absurd rfl hne, fun _ => ?_⟩
          · show [] = slice t.buf (t.gptr + 1) (t.egptr - (t.gptr + 1)) ++ rest
            have hzero : t.egptr - t.gptr = 0 := by omega
            rw [hzero] at hrest
            rw [show t.egptr - (t.gptr + 1) = 0 by omega]
            exact hrest
          · show ¬t.gptr + 1 ≤ t.egptr
            omega
      | cons b bs =>
          have hlt := hbyte (List.cons_ne_nil b bs)
          exact ⟨(ht.current hlt).2.2, fun _ => hlt, fun hnil => nomatch hnil⟩

theorem Buffering.sgetc (h : Buffering len s bs) :
    ∃ s', s.sgetc = some (bs.take 1, s') ∧ Buffering len s' bs ∧ (s.Sane → s'.Sane) := by
  rw [Streambuf.sgetc]
  split
  · next hlt => exact ⟨s, by rw [(h.current hlt).1], h, id⟩
  · next hempty =>
      obtain ⟨t, hunder, ht, hbyte, hend⟩ := h.underflow hempty
      refine ⟨t, hunder, ht, fun hsane => ?_⟩
      by_cases hnil : bs = []
      · obtain ⟨hg, he⟩ := hend hnil
        rw [Sane, hg, he]
        exact hsane
      · exact (hbyte hnil).le

theorem Buffering.baseXsgetn (h : Buffering len s bs) (n : ℕ) :
    ∃ s', s.baseXsgetn n = some (bs.take n, s') ∧ Buffering len s' (bs.drop n) ∧
      (n ≤ bs.length → s.Sane → s'.Sane) ∧ (bs.length < n → ¬s'.Sane) := by
  induction n generalizing s bs with
  | zero => exact ⟨s, rfl, h, fun _ => id, fun hlt => absurd hlt (Nat.not_lt_zero _)⟩
  | succ n ih =>
      obtain ⟨t, hbump, ht, hsane, hbad⟩ := h.sbumpc
      rw [Streambuf.baseXsgetn, hbump]
      cases bs with
      | nil => exact ⟨t, rfl, ht, fun hlt => absurd hlt (Nat.not_succ_le_zero n), fun _ => hbad rfl⟩
      | cons b bs =>
          obtain ⟨u, hrest, hu, hsane', hbad'⟩ := ih ht
          refine ⟨u, ?_, hu, fun hle _ => ?_, fun hlt => hbad' (Nat.lt_of_succ_lt_succ hlt)⟩
          · change (t.baseXsgetn n).map _ = _
            rw [hrest]
            rfl
          · exact hsane' (Nat.le_of_succ_le_succ hle) (hsane (List.cons_ne_nil b bs))

/-- **One operation.** -/
theorem Buffering.perform (h : Buffering len s bs) (op : GetOp) :
    ∃ s', op.perform s = some (bs.take op.asked, s') ∧ Buffering len s' (bs.drop op.taken) ∧
      (op.taken ≤ bs.length → s.Sane → s'.Sane) ∧ (bs.length < op.taken → ¬s'.Sane) := by
  cases op with
  | sbumpc =>
      obtain ⟨t, hbump, ht, hsane, hbad⟩ := h.sbumpc
      refine ⟨t, hbump, ht, fun hle _ => hsane ?_, fun hlt => hbad ?_⟩
      · exact List.length_pos_iff.mp hle
      · exact List.length_eq_zero_iff.mp (Nat.lt_one_iff.mp hlt)
  | sgetc =>
      obtain ⟨t, hget, ht, hsane⟩ := h.sgetc
      exact ⟨t, hget, ht, fun _ => hsane, fun hlt => absurd hlt (Nat.not_lt_zero _)⟩
  | sgetn n =>
      obtain ⟨t, hget, ht, hsane, hbad⟩ := h.baseXsgetn n
      refine ⟨t, ?_, ht, hsane, hbad⟩
      rw [GetOp.perform, xsgetn, if_pos h.bufsize_ne, hget]
      rfl

theorem Buffering.performGets (h : Buffering len s bs) (ops : List GetOp) :
    ∃ xs, performGets ops s = some xs ∧ xs.map Prod.fst = readOff ops bs ∧
      (∀ x ∈ xs, x.2.egptr ≤ len) ∧
      (s.Sane → ((∀ x ∈ xs, x.2.Sane) ↔ (ops.map GetOp.taken).sum ≤ bs.length)) := by
  induction ops generalizing s bs with
  | nil =>
      refine ⟨[], rfl, rfl, fun x hx => ?_, fun _ => ⟨fun _ => Nat.zero_le _, fun _ x hx => ?_⟩⟩
      · exact absurd hx List.not_mem_nil
      · exact absurd hx List.not_mem_nil
  | cons op ops ih =>
      obtain ⟨t, hop, ht, hsane, hbad⟩ := h.perform op
      obtain ⟨xs, hxs, hres, hle, hiff⟩ := ih ht
      refine ⟨(bs.take op.asked, t) :: xs, ?_, ?_, ?_, fun hs => ?_⟩
      · rw [FastCgi.performGets, hop]
        simp only [hxs, Option.map_some]
      · rw [List.map_cons, hres, readOff]
      · exact List.forall_mem_cons.mpr ⟨ht.size ▸ ht.egptr_le, hle⟩
      · rw [List.forall_mem_cons, List.map_cons, List.sum_cons]
        rw [List.length_drop] at hiff
        constructor
        · rintro ⟨hts, hall⟩
          have hroom : op.taken ≤ bs.length := Nat.le_of_not_lt fun hlt => hbad hlt hts
          have := (hiff hts).mp hall
          omega
        · intro hsum
          have hts := hsane (by omega) hs
          exact ⟨hts, (hiff hts).mpr (by omega)⟩

/-! ### A size that `int` does not hold -/

/-- A stream buffer whose size `FCGX_GetStr` takes for none. -/
structure Starved (len : ℕ) (s : Streambuf) : Prop where
  size : s.bufsize = len
  bufsize : s.bufsize ≠ 0
  none_fits : ¬1 ≤ toInt s.bufsize
  empty : ¬s.gptr < s.egptr
  egptr_eq : s.egptr = 0

theorem Starved.underflow (h : Starved len s) : s.underflow = some ([], s) := by
  have hnone : s.inAvail = 0 := by
    have := h.empty
    rw [inAvail]
    omega
  have hfill : s.fill = some (0, s) := by
    have := h.none_fits
    rw [fill, fcgxGetStr, if_pos (by simp only [Bool.or_eq_true, decide_eq_true_eq]; omega)]
    rfl
  rw [Streambuf.underflow, if_pos h.bufsize, if_pos hnone, hfill]
  rfl

theorem Starved.sbumpc (h : Starved len s) : s.sbumpc = some ([], s.gbump 1) := by
  rw [Streambuf.sbumpc, if_neg h.empty, uflow, if_pos h.bufsize, h.underflow]
  rfl

theorem Starved.gbump (h : Starved len s) : Starved len (s.gbump 1) ∧ ¬(s.gbump 1).Sane := by
  have hempty := h.empty
  refine ⟨⟨h.size, h.bufsize, h.none_fits, ?_, h.egptr_eq⟩, ?_⟩
  · show ¬s.gptr + 1 < s.egptr
    omega
  · show ¬s.gptr + 1 ≤ s.egptr
    omega

/-- Every operation returns EOF. -/
theorem Starved.perform (h : Starved len s) (op : GetOp) :
    ∃ s', op.perform s = some ([], s') ∧ Starved len s' ∧ (op.taken = 0 → s' = s) ∧
      (op.taken ≠ 0 → ¬s'.Sane) := by
  cases op with
  | sbumpc =>
      obtain ⟨h', hbad⟩ := h.gbump
      exact ⟨_, h.sbumpc, h', fun hzero => absurd hzero (Nat.succ_ne_zero _), fun _ => hbad⟩
  | sgetc =>
      refine ⟨s, ?_, h, fun _ => rfl, fun hne => absurd rfl hne⟩
      rw [GetOp.perform, Streambuf.sgetc, if_neg h.empty, h.underflow]
  | sgetn n =>
      rw [GetOp.perform, xsgetn, if_pos h.bufsize]
      cases n with
      | zero => exact ⟨s, rfl, h, fun _ => rfl, fun hne => absurd rfl hne⟩
      | succ n =>
          obtain ⟨h', hbad⟩ := h.gbump
          refine ⟨s.gbump 1, ?_, h', fun hzero => absurd hzero (Nat.succ_ne_zero _), fun _ => hbad⟩
          rw [Streambuf.baseXsgetn, h.sbumpc]

theorem Starved.performGets (h : Starved len s) (ops : List GetOp) :
    ∃ xs, performGets ops s = some xs ∧ xs.map Prod.fst = ops.map (fun _ => []) ∧
      (∀ x ∈ xs, x.2.egptr ≤ len) ∧
      (s.Sane → ((∀ x ∈ xs, x.2.Sane) ↔ (ops.map GetOp.taken).sum = 0)) := by
  induction ops generalizing s with
  | nil =>
      refine ⟨[], rfl, rfl, fun x hx => ?_, fun _ => ⟨fun _ => rfl, fun _ x hx => ?_⟩⟩
      · exact absurd hx List.not_mem_nil
      · exact absurd hx List.not_mem_nil
  | cons op ops ih =>
      obtain ⟨t, hop, ht, hsame, hbad⟩ := h.perform op
      obtain ⟨xs, hxs, hres, hle, hiff⟩ := ih ht
      refine ⟨([], t) :: xs, ?_, ?_, ?_, fun hs => ?_⟩
      · rw [FastCgi.performGets, hop]
        simp only [hxs, Option.map_some]
      · rw [List.map_cons, hres, List.map_cons]
      · refine List.forall_mem_cons.mpr ⟨?_, hle⟩
        rw [ht.egptr_eq]
        exact Nat.zero_le _
      · rw [List.forall_mem_cons, List.map_cons, List.sum_cons]
        constructor
        · rintro ⟨hts, hall⟩
          have hzero : op.taken = 0 := by
            by_contra hne
            exact hbad hne hts
          rw [hzero, (hiff hts).mp hall]
        · intro hsum
          have hts : t.Sane := by rwa [hsame (by omega)]
          exact ⟨hts, (hiff hts).mpr (by omega)⟩

end Streambuf

/-- Nothing is read off where nothing is asked for, or nothing is there. -/
theorem readOff_eq_nothing (ops : List GetOp) (bs : List UInt8) :
    readOff ops bs = ops.map (fun _ => []) ↔ bs = [] ∨ ∀ op ∈ ops, op.asked = 0 := by
  induction ops generalizing bs with
  | nil => simp [readOff]
  | cons op ops ih =>
      rw [readOff, List.map_cons, List.cons.injEq, ih, List.forall_mem_cons, List.take_eq_nil_iff]
      have hle := op.taken_le_asked
      constructor
      · rintro ⟨hzero | hnil, hrest⟩
        · rw [show op.taken = 0 by omega, List.drop_zero] at hrest
          exact hrest.imp_right fun hall => ⟨hzero, hall⟩
        · exact .inl hnil
      · rintro (hnil | ⟨hzero, hall⟩)
        · exact ⟨.inr hnil, .inl (by rw [hnil, List.drop_nil])⟩
        · exact ⟨.inl hzero, .inr hall⟩

theorem sum_taken_eq_zero {ops : List GetOp} (h : ∀ op ∈ ops, op.asked = 0) :
    (ops.map GetOp.taken).sum = 0 := by
  rw [List.sum_eq_zero_iff_forall_eq_nat]
  intro n hn
  obtain ⟨op, hop, rfl⟩ := List.mem_map.mp hn
  have := op.taken_le_asked
  have := h op hop
  omega

/-! ### The buffered view of the stream -/

/-- With a buffer of size `bufsize` the operations keep the get area in order, return the bytes
`bs` of the stream, and return what they return without a buffer. -/
def FaithfulBuffer (c : Chan) (bs : List UInt8) (buf : ℕ → UInt8) (bufsize : ℕ)
    (ops : List GetOp) : Prop :=
  ∃ xs ys, performGets ops (newStreambuf c buf bufsize) = some xs ∧
    performGets ops (newStreambuf c buf 0) = some ys ∧
    (∀ x ∈ xs, x.2.gptr ≤ x.2.egptr ∧ x.2.egptr ≤ bufsize) ∧
    xs.map Prod.fst = readOff ops bs ∧ xs.map Prod.fst = ys.map Prod.fst

/-- No operation takes more than is there, and `int` holds the sizes that are used. -/
def WithinStream (bs : List UInt8) (bufsize : ℕ) (ops : List GetOp) : Prop :=
  (ops.map GetOp.taken).sum ≤ bs.length ∧ (∀ op ∈ ops, op.FitsInt) ∧
    (1 ≤ toInt bufsize ∨ bs = [] ∨ ∀ op ∈ ops, op.asked = 0)

theorem Chan.Stocked.faithful_iff {c : Chan} {bs : List UInt8} (h : c.Stocked bs)
    (buf : ℕ → UInt8) {bufsize : ℕ} (hpos : 0 < bufsize) (ops : List GetOp) :
    FaithfulBuffer c bs buf bufsize ops ↔ WithinStream bs bufsize ops := by
  have hdirect : (newStreambuf c buf 0).Direct bs := ⟨rfl, Nat.lt_irrefl 0, h⟩
  have hsane : (newStreambuf c buf bufsize).Sane := Nat.le_refl 0
  -- what the buffered run does, whether or not `int` holds the size
  obtain ⟨xs, hxs, hle, hiff⟩ : ∃ xs,
      performGets ops (newStreambuf c buf bufsize) = some xs ∧ (∀ x ∈ xs, x.2.egptr ≤ bufsize) ∧
        ((∀ x ∈ xs, x.2.Sane) ∧ xs.map Prod.fst = readOff ops bs ↔
          (ops.map GetOp.taken).sum ≤ bs.length ∧
            (1 ≤ toInt bufsize ∨ bs = [] ∨ ∀ op ∈ ops, op.asked = 0)) := by
    by_cases hfits : 1 ≤ toInt bufsize
    · have hbuffering : Streambuf.Buffering bufsize (newStreambuf c buf bufsize) bs :=
        ⟨rfl, hfits, Nat.zero_le _, bs, h, rfl⟩
      obtain ⟨xs, hxs, hres, hle, hiff⟩ := hbuffering.performGets ops
      refine ⟨xs, hxs, hle, ?_⟩
      rw [hiff hsane]
      exact and_congr_right fun _ => ⟨fun _ => .inl hfits, fun _ => hres⟩
    · have hstarved : Streambuf.Starved bufsize (newStreambuf c buf bufsize) :=
        ⟨rfl, Nat.ne_of_gt hpos, hfits, Nat.lt_irrefl 0, rfl⟩
      obtain ⟨xs, hxs, hres, hle, hiff⟩ := hstarved.performGets ops
      refine ⟨xs, hxs, hle, ?_⟩
      rw [hiff hsane, hres, eq_comm (b := readOff ops bs), readOff_eq_nothing]
      constructor
      · rintro ⟨hzero, hnothing⟩
        exact ⟨hzero ▸ Nat.zero_le _, .inr hnothing⟩
      · rintro ⟨hsum, hfits' | hnil | hall⟩
        · exact absurd hfits' hfits
        · rw [hnil, List.length_nil] at hsum
          exact ⟨Nat.le_zero.mp hsum, .inl hnil⟩
        · exact ⟨sum_taken_eq_zero hall, .inr hall⟩
  constructor
  · rintro ⟨xs', ys, hxs', hys, hptrs, hres, hsame⟩
    obtain rfl := Option.some.inj (hxs.symm.trans hxs')
    obtain ⟨hsum, hsize⟩ := hiff.mp ⟨fun x hx => (hptrs x hx).1, hres⟩
    exact ⟨hsum, hdirect.fitsInt hys (hsame.symm.trans hres) hsum, hsize⟩
  · rintro ⟨hsum, hfits, hsize⟩
    obtain ⟨hptrs, hres⟩ := hiff.mpr ⟨hsum, hsize⟩
    obtain ⟨ys, hys, hres'⟩ := hdirect.performGets hfits
    exact ⟨xs, ys, hxs, hys, fun x hx => ⟨hptrs x hx, hle x hx⟩, hres, hres.trans hres'.symm⟩

/-- **The buffered stream buffer shows the stream of an accepted request as it is** exactly
where no operation asks for more than is left, so that `uflow` does not go past the end, and
`int` holds the sizes. -/
theorem streambuf_faithful_iff {lib : Bool} {pending rest : List Connection} {r r' : Request}
    {s : Stream} (h : fcgxAcceptR lib pending r = some (0, r', rest)) (hs : r'.inStream = some s)
    (buf : ℕ → UInt8) {bufsize : ℕ} (hpos : 0 < bufsize) (ops : List GetOp) :
    ∃ bs e, Delivers (r'.chan s).view bs e ∧
      (FaithfulBuffer (r'.chan s) bs buf bufsize ops ↔ WithinStream bs bufsize ops) := by
  obtain ⟨r₁, -, hacc⟩ := fcgxAcceptR_ok h
  have hat := acceptConnection_atStdin hacc hs
  obtain ⟨bs, e, hd⟩ := delivers_total (v := (r'.chan s).view) hat.isBeginProcessed
  have hreadable : (r'.chan s).Readable := ⟨hat.toBetween.toOpen, hat.eorStop, hat.skip⟩
  have hmark : (r'.chan s).MarkBehind := fun _ hlt => by
    have heq := hat.rdNext_eq
    omega
  exact ⟨bs, e, hd, Chan.Stocked.faithful_iff (.inl ⟨hreadable, hmark, e, hd⟩) buf hpos ops⟩

/-- A filter request with two bytes of `FCGI_STDIN`, read through a buffer of one byte. -/
theorem streambuf_faithful_iff_two :
    ∃ r' s, fcgxAcceptR true [.ok (.sending filterWire [4, 9] [])] idleRequest = some (0, r', []) ∧
      r'.inStream = some s ∧
      ∃ bs e, Delivers (r'.chan s).view bs e ∧
        (FaithfulBuffer (r'.chan s) bs (fun _ => 0) 1 [.sgetc, .sbumpc, .sgetn 1] ↔
          WithinStream bs 1 [.sgetc, .sbumpc, .sgetn 1]) := by
  have hrun : (fcgxAcceptR true [.ok (.sending filterWire [4, 9] [])] idleRequest).map
      (fun x => (x.1, x.2.1.inStream.isSome, x.2.2.length)) = some (0, true, 0) := by
    decide +kernel
  obtain ⟨⟨rc, r', rest⟩, hacc, hval⟩ := Option.map_eq_some_iff.mp hrun
  simp only [Prod.mk.injEq, List.length_eq_zero_iff] at hval
  obtain ⟨rfl, hin, rfl⟩ := hval
  obtain ⟨s, hs⟩ := Option.isSome_iff_exists.mp hin
  exact ⟨r', s, hacc, hs, streambuf_faithful_iff hacc hs _ Nat.zero_lt_one _⟩

/-- The third `sbumpc` finds the end of the two bytes, and leaves `gptr` behind `egptr`. -/
theorem streambuf_past_end :
    ∃ r' s xs, fcgxAcceptR true [.ok (.sending filterWire [] [])] idleRequest =
        some (0, r', []) ∧ r'.inStream = some s ∧
      performGets [.sbumpc, .sbumpc, .sbumpc] (newStreambuf (r'.chan s) (fun _ => 0) 4) =
        some xs ∧
      ∃ x ∈ xs, ¬x.2.gptr ≤ x.2.egptr := by
  have hrun : ((fcgxAcceptR true [.ok (.sending filterWire [] [])] idleRequest).bind fun x =>
      x.2.1.inStream.bind fun s =>
        (performGets [.sbumpc, .sbumpc, .sbumpc]
          (newStreambuf (x.2.1.chan s) (fun _ => 0) 4)).map fun xs =>
            ((x.1, x.2.2.length), xs.map fun y => (y.1, y.2.gptr, y.2.egptr))) =
      some ((0, 0), [([65], 1, 2), ([66], 2, 2), ([], 3, 2)]) := by
    decide +kernel
  obtain ⟨⟨rc, r', rest⟩, hacc, hval⟩ := Option.bind_eq_some_iff.mp hrun
  obtain ⟨s, hs, hval⟩ := Option.bind_eq_some_iff.mp hval
  obtain ⟨xs, hxs, hval⟩ := Option.map_eq_some_iff.mp hval
  obtain ⟨hresult, hptrs⟩ := Prod.mk.inj hval
  simp only [Prod.mk.injEq, List.length_eq_zero_iff] at hresult
  obtain ⟨rfl, rfl⟩ := hresult
  refine ⟨r', s, xs, hacc, hs, hxs, ?_⟩
  have hlast : ([], 3, 2) ∈ xs.map fun y => (y.1, y.2.gptr, y.2.egptr) := by
    rw [hptrs]
    simp
  obtain ⟨y, hy, hyval⟩ := List.mem_map.mp hlast
  simp only [Prod.mk.injEq] at hyval
  exact ⟨y, hy, by omega⟩

end FastCgi
