import FastCgi.App.RefusedWrites
import FastCgi.Cxx.Streambuf
import FastCgi.Lib.Attempts

/-!
The C++ stream buffer over a `FCGX_Stream` (`libfcgi/fcgio.cpp`), for output.

The put area is the buffer from `buf` on, so that `pptr` is the number of
bytes in it. What the base class does is what the standard says: `sputc`
stores a byte if there is room and calls `overflow` otherwise, and the
`xsputn` of the base class is as many calls of `sputc`.

An `ostream` stops at the first operation that fails. Up to there the stream
buffer only puts off what the calls of `FCGX_PutChar`, `FCGX_PutStr` and
`FCGX_FFlush` themselves do, and its destructor makes up for it
(`streambuf_puts_off`).
-/

namespace FastCgi

open ByteMem Attempts

/-! ### The put area -/

/-- `fcgi_streambuf`, with the put area of its base class beside the get area. -/
structure OutStreambuf extends Streambuf where
  pptr : ℕ
  pptr_le : pptr ≤ bufsize
  /-- So that `int plen` holds the length of the put area. -/
  bufsize_le : bufsize ≤ intMax

/-- The constructor, which calls `init` and by it `setbuf` and `reset`. -/
def newOutStreambuf (fcgx : Chan) (buf : ℕ → UInt8) {bufsize : ℕ} (hsize : bufsize ≤ intMax) :
    OutStreambuf :=
  { newStreambuf fcgx buf bufsize with
    pptr := 0, pptr_le := Nat.zero_le bufsize, bufsize_le := hsize }

namespace OutStreambuf

/-- What `FCGX_PutStr` and `FCGX_PutChar` do to the stream below. -/
def setFcgx (s : OutStreambuf) (c : Chan) : OutStreambuf := { s with fcgx := c }

/-- `*pptr() = b; pbump(1)`. -/
def push (s : OutStreambuf) (b : UInt8) (h : s.pptr < s.bufsize) : OutStreambuf :=
  { s with buf := store s.buf s.pptr [b], pptr := s.pptr + 1, pptr_le := h }

/-- `pbump(-plen)`. -/
def drop (s : OutStreambuf) : OutStreambuf := { s with pptr := 0, pptr_le := Nat.zero_le s.bufsize }

/-- The bytes of the put area. -/
def pending (s : OutStreambuf) : List UInt8 := slice s.buf 0 s.pptr

/-- The put area goes to the stream; `false` if `FCGX_PutStr` does not return `plen`. -/
def putPending (s : OutStreambuf) : Option (Bool × OutStreambuf) :=
  if s.bufsize ≠ 0 ∧ s.pptr ≠ 0 then
    (fcgxPutStr s.pending s.fcgx).map fun (x : ℤ × Chan) =>
      if x.1 ≠ s.pptr then (false, s.setFcgx x.2) else (true, (s.setFcgx x.2).drop)
  else some (true, s)

/-- `overflow`; without a byte it is `overflow(EOF)`, and -1 is EOF. -/
def overflow (b : Option UInt8) (s : OutStreambuf) : Option (ℤ × OutStreambuf) :=
  match s.putPending with
  | none => none
  | some (false, s) => some (-1, s)
  | some (true, s) =>
      match b with
      | none => some (0, s)
      | some b => (fcgxPutChar b s.fcgx).map fun x => (if x.1 then 0 else -1, s.setFcgx x.2)

/-- `sync`. -/
def sync (s : OutStreambuf) : Option (ℤ × OutStreambuf) :=
  match s.overflow none with
  | none => none
  | some (rc, s) =>
      if rc ≠ 0 then some (-1, s)
      else if (fcgxFFlush s.fcgx).1 ≠ 0 then some (-1, s.setFcgx (fcgxFFlush s.fcgx).2)
      else some (0, s.setFcgx (fcgxFFlush s.fcgx).2)

/-- `sputc` of the base class. -/
def sputc (b : UInt8) (s : OutStreambuf) : Option (ℤ × OutStreambuf) :=
  if h : s.pptr < s.bufsize then some (b.toNat, s.push b h) else s.overflow (some b)

/-- `xsputn` of the base class: `sputc` of the bytes in turn, until it returns EOF; the number
of bytes for which it did not. -/
def baseXsputn : List UInt8 → OutStreambuf → Option (ℕ × OutStreambuf)
  | [], s => some (0, s)
  | b :: str, s =>
      match s.sputc b with
      | none => none
      | some (rc, s) =>
          if rc = -1 then some (0, s) else (baseXsputn str s).map fun x => (x.1 + 1, x.2)

/-- `FCGX_PutStr((char *) s, (int) n, this->fcgx)`; the `memcpy` of a negative number of bytes
is undefined. -/
def putInt (str : List UInt8) (s : OutStreambuf) : Option (ℤ × OutStreambuf) :=
  if toInt str.length < 0 then none
  else
    (fcgxPutStr (str.take (toInt str.length).toNat) s.fcgx).map fun x => (x.1, s.setFcgx x.2)

/-- `xsputn`. -/
def xsputn (str : List UInt8) (s : OutStreambuf) : Option (ℤ × OutStreambuf) :=
  if s.bufsize ≠ 0 then (s.baseXsputn str).map fun x => ((x.1 : ℤ), x.2) else s.putInt str

/-- The destructor: the stream that it leaves. -/
def destroy (s : OutStreambuf) : Option Chan := (s.overflow none).map fun x => x.2.fcgx

end OutStreambuf

/-- The operations of a client. -/
inductive PutOp where
  | sputc (b : UInt8)
  | sputn (str : List UInt8)
  | pubsync
  deriving DecidableEq

namespace PutOp

/-- An operation, and whether it succeeded as an `ostream` sees it. -/
def perform : PutOp → OutStreambuf → Option (Bool × OutStreambuf)
  | .sputc b, s => (s.sputc b).map fun x => (decide (x.1 ≠ -1), x.2)
  | .sputn str, s => (s.xsputn str).map fun (x : ℤ × OutStreambuf) => (decide (x.1 = str.length), x.2)
  | .pubsync, s => s.sync.map fun x => (decide (x.1 ≠ -1), x.2)

/-- The calls of the library that do the same. -/
def direct : PutOp → Chan → Option (Bool × Chan)
  | .sputc b, c => fcgxPutChar b c
  | .sputn str, c => attempt fcgxPutChar str c
  | .pubsync, c => some (decide ((fcgxFFlush c).1 = 0), (fcgxFFlush c).2)

/-- The sizes that reach `FCGX_PutStr` as they are. -/
def FitsInt : PutOp → Prop
  | .sputn str => str.length ≤ intMax
  | _ => True

end PutOp

/-! ### A put that fails -/

theorem putChars_singleton (b : UInt8) (c : Chan) : putChars [b] c = fcgxPutChar b c := by
  rw [putChars]
  rcases fcgxPutChar b c with _ | ⟨_ | _, c'⟩
  · rfl
  · rfl
  · rfl

theorem attempt_fcgxPutChar (str : List UInt8) (c : Chan) :
    attempt fcgxPutChar str c = putChars str c := by
  induction str generalizing c with
  | nil => rfl
  | cons b str ih =>
      rw [attempt, putChars]
      rcases fcgxPutChar b c with _ | ⟨_ | _, c'⟩
      · rfl
      · rfl
      · exact ih c'

theorem fcgxPutChar_total {c : Chan} (h : c.stream.IsWriter) (b : UInt8) :
    ∃ ok c', fcgxPutChar b c = some (ok, c') ∧ c'.stream.IsWriter := by
  obtain ⟨ok, c', hput, hwriter, -⟩ := putChars_total h [b]
  exact ⟨ok, c', putChars_singleton b c ▸ hput, hwriter⟩

theorem fcgxFFlush_isWriter {c : Chan} (h : c.stream.IsWriter) :
    (fcgxFFlush c).2.stream.IsWriter := by
  rw [fcgxFFlush]
  split
  · exact h
  · next hopen =>
      have hopen' : c.stream.isClosed = false := by
        rw [h.isReader, Bool.or_false, Bool.not_eq_true] at hopen
        exact hopen
      exact (emptyBuffProc_grows h (h.wasFCloseCalled hopen')).isWriter

theorem fcgxPutChar_shut {b : UInt8} {c c' : Chan} (h : c.stream.IsWriter)
    (hput : fcgxPutChar b c = some (false, c')) : c'.stream.Shut := by
  obtain ⟨ok, c'', hput', hwriter⟩ := fcgxPutChar_total h b
  obtain ⟨rfl, rfl⟩ := Prod.mk.inj (Option.some.inj (hput.symm.trans hput'))
  rw [fcgxPutChar] at hput
  split at hput
  · cases hput
  · next hfull =>
      rw [not_not] at hfull
      split at hput
      · next hclosed =>
          cases hput
          rw [h.isReader, Bool.or_false] at hclosed
          exact ⟨h.isReader, hclosed, hfull⟩
      · simp only at hput
        split at hput
        · cases hput
        · next hfull' =>
            split at hput
            · next hclosed =>
                cases hput
                exact ⟨hwriter.isReader, hclosed, not_not.mp hfull'⟩
            · cases hput

/-- What cannot be put leaves a closed stream without room. -/
theorem putChars_shut {str : List UInt8} {c c' : Chan} (h : c.stream.IsWriter)
    (hput : putChars str c = some (false, c')) : c'.stream.Shut := by
  induction str generalizing c with
  | nil => cases hput
  | cons b str ih =>
      rw [putChars] at hput
      split at hput
      · cases hput
      · next hchar =>
          cases hput
          exact fcgxPutChar_shut h hchar
      · next c₁ hchar =>
          obtain ⟨ok, c₂, hchar', hwriter⟩ := fcgxPutChar_total h b
          obtain ⟨rfl, rfl⟩ := Prod.mk.inj (Option.some.inj (hchar.symm.trans hchar'))
          exact ih hwriter hput

/-! ### What is put off -/

namespace OutStreambuf

variable {s s' : OutStreambuf} {size : ℕ}

/-- The stream once the put area has been put. -/
def settle (s : OutStreambuf) : Option (Bool × Chan) := putChars s.pending s.fcgx

/-- A put area of the given size, over a writer. -/
structure Buffers (size : ℕ) (s : OutStreambuf) : Prop where
  isWriter : s.fcgx.stream.IsWriter
  bufsize : s.bufsize = size

/-- Nothing that is left in the put area reaches the stream any more. -/
def Cut (s : OutStreambuf) : Prop := s.pptr = 0 ∨ s.fcgx.stream.Shut

/-- An operation that puts off what `f` does. -/
def PutsOff (size : ℕ) (f : Chan → Option (Bool × Chan)) (s : OutStreambuf) (ok : Bool)
    (s' : OutStreambuf) : Prop :=
  Defers settle (fun t => t.fcgx) (Buffers size) Cut f s ok s'

theorem pending_empty (h : s.pptr = 0) : s.pending = [] := by
  rw [pending, h, slice_zero]

theorem settle_empty (h : s.pptr = 0) : s.settle = some (true, s.fcgx) := by
  rw [settle, pending_empty h]
  rfl

/-- **The put area goes to the stream** as its bytes would one by one. -/
theorem Buffers.putPending (h : Buffers size s) :
    ∃ ok s', s.putPending = some (ok, s') ∧ s.settle = some (ok, s'.fcgx) ∧
      Buffers size s' ∧ (ok = true → s'.pptr = 0) ∧ (ok = false → s'.fcgx.stream.Shut) := by
  rw [OutStreambuf.putPending]
  split
  · obtain ⟨ok, c, hchars, hwriter, hput⟩ := putChars_total h.isWriter s.pending
    have hlen : (s.pending.length : ℤ) = s.pptr := by rw [pending, length_slice]
    rw [hput, Option.map_some]
    cases ok with
    | false =>
        refine ⟨false, s.setFcgx c, ?_, hchars, ⟨hwriter, h.bufsize⟩, (fun hok => by cases hok),
          fun _ => putChars_shut h.isWriter hchars⟩
        have hne : (-1 : ℤ) ≠ s.pptr := by omega
        simp [hne]
    | true =>
        refine ⟨true, (s.setFcgx c).drop, ?_, hchars, ⟨hwriter, h.bufsize⟩, fun _ => rfl,
          fun hok => by cases hok⟩
        simp [hlen]
  · next hnone =>
      have hempty : s.pptr = 0 := by
        by_contra hne
        have := s.pptr_le
        exact hnone ⟨by omega, hne⟩
      exact ⟨true, s, rfl, settle_empty hempty, h, fun _ => hempty, fun hok => by cases hok⟩

/-- **`overflow`** with a byte puts the byte behind those of the put area. -/
theorem Buffers.overflow_byte (h : Buffers size s) (b : UInt8) :
    ∃ ok s', s.overflow (some b) = some (if ok then 0 else -1, s') ∧
      PutsOff size (fcgxPutChar b) s ok s' := by
  obtain ⟨ok, t, hput, hsettle, ht, hempty, hshut⟩ := h.putPending
  rw [overflow, hput]
  cases ok with
  | false =>
      refine ⟨false, t, rfl, ?_, (fun hok => by cases hok), fun _ => .inr (hshut rfl)⟩
      rw [hsettle]
      rfl
  | true =>
      obtain ⟨ok, c, hchar, hwriter⟩ := fcgxPutChar_total ht.isWriter b
      refine ⟨ok, t.setFcgx c, ?_, ?_, fun _ => ⟨hwriter, ht.bufsize⟩, fun _ => .inl (hempty rfl)⟩
      · simp only [hchar, Option.map_some]
      · have hsettle' : (t.setFcgx c).settle = some (true, c) := settle_empty (hempty rfl)
        rw [hsettle, Option.bind_some, andThen_true, hchar, hsettle']
        cases ok with
        | false => rfl
        | true => rfl

/-- `overflow(EOF)` empties the put area. -/
theorem Buffers.overflow_eof (h : Buffers size s) :
    ∃ ok s', s.overflow none = some (if ok then 0 else -1, s') ∧ Buffers size s' ∧
      s.settle = some (ok, s'.fcgx) ∧ (ok = true → s'.pptr = 0) ∧ (ok = false → s'.Cut) := by
  obtain ⟨ok, t, hput, hsettle, ht, hempty, hshut⟩ := h.putPending
  rw [overflow, hput]
  cases ok with
  | false => exact ⟨false, t, rfl, ht, hsettle, hempty, fun hok => .inr (hshut hok)⟩
  | true => exact ⟨true, t, rfl, ht, hsettle, hempty, fun hok => by cases hok⟩

theorem Buffers.sputc (h : Buffers size s) (b : UInt8) :
    ∃ rc s', s.sputc b = some (rc, s') ∧
      PutsOff size (fcgxPutChar b) s (decide (rc ≠ -1)) s' := by
  rw [OutStreambuf.sputc]
  split
  · next hroom =>
      refine ⟨b.toNat, s.push b hroom, rfl, ?_, fun _ => ⟨h.isWriter, h.bufsize⟩, fun hok => ?_⟩
      · have hrc : (b.toNat : ℤ) ≠ -1 := by omega
        have hpending : (s.push b hroom).pending = s.pending ++ [b] := by
          have := slice_store_append (m := s.buf) (i := 0) (n := s.pptr) [b]
          rwa [Nat.zero_add] at this
        rw [decide_eq_true hrc, if_pos rfl]
        show _ = putChars (s.push b hroom).pending s.fcgx
        rw [hpending, putChars_append]
        exact congrArg _ (funext fun r => by rw [andThen, putChars_singleton])
      · have hrc : (b.toNat : ℤ) ≠ -1 := by omega
        exact absurd hrc (of_decide_eq_false hok)
  · obtain ⟨ok, s', hover, hputs⟩ := h.overflow_byte b
    refine ⟨_, s', hover, ?_⟩
    cases ok with
    | false => exact hputs
    | true => exact hputs

/-- `xsputn` of the base class puts a block off byte by byte. -/
theorem Buffers.baseXsputn (h : Buffers size s) (str : List UInt8) :
    ∃ n s', s.baseXsputn str = some (n, s') ∧
      PutsOff size (attempt fcgxPutChar str) s (decide (n = str.length)) s' := by
  induction str generalizing s with
  | nil => exact ⟨0, s, rfl, bind_attempt_nil _ _, fun _ => h, fun hok => by cases hok⟩
  | cons b str ih =>
      obtain ⟨rc, t, hput, hfirst⟩ := h.sputc b
      rw [OutStreambuf.baseXsputn, hput]
      by_cases hrc : rc = -1
      · have hok : decide (rc ≠ -1) = false := decide_eq_false (not_not_intro hrc)
        rw [hok] at hfirst
        refine ⟨0, t, if_pos hrc, ?_, (fun hok => by cases hok), fun _ => hfirst.breaks rfl⟩
        rw [bind_attempt_cons, hfirst.settles]
        rfl
      · have hok : decide (rc ≠ -1) = true := decide_eq_true hrc
        rw [hok] at hfirst
        obtain ⟨n, u, hrest, hlast⟩ := ih (hfirst.keeps rfl)
        have hlen : decide (n + 1 = (b :: str).length) = decide (n = str.length) := by
          simp
        refine ⟨n + 1, u, ?_, ?_, hlen ▸ hlast.keeps, hlen ▸ hlast.breaks⟩
        · simp only [if_neg hrc, hrest, Option.map_some]
        · rw [bind_attempt_cons, hfirst.settles, hlen]
          exact hlast.settles

/-- What goes to the stream at once, there being no buffer. -/
theorem Buffers.putsOff_unbuffered (h : Buffers 0 s) {f : Chan → Option (Bool × Chan)}
    {ok : Bool} {c : Chan} (hf : f s.fcgx = some (ok, c)) (hwriter : c.stream.IsWriter) :
    PutsOff 0 f s ok (s.setFcgx c) := by
  have hpptr : s.pptr = 0 := by
    have := s.pptr_le
    have := h.bufsize
    omega
  have hsettle : (s.setFcgx c).settle = some (true, c) := settle_empty hpptr
  refine ⟨?_, fun _ => ⟨hwriter, h.bufsize⟩, fun _ => .inl hpptr⟩
  rw [settle_empty hpptr, Option.bind_some, andThen_true, hf, hsettle]
  cases ok with
  | false => rfl
  | true => rfl

/-- **One operation** puts off what the call of the library does. -/
theorem Buffers.perform (h : Buffers size s) {op : PutOp} (hop : size = 0 → op.FitsInt) :
    ∃ ok s', op.perform s = some (ok, s') ∧ PutsOff size op.direct s ok s' := by
  cases op with
  | sputc b =>
      obtain ⟨rc, s', hput, hputs⟩ := h.sputc b
      exact ⟨_, s', by rw [PutOp.perform, hput, Option.map_some], hputs⟩
  | sputn str =>
      by_cases hsize : size = 0
      · subst hsize
        obtain ⟨ok, c, hchars, hwriter, hput⟩ := putChars_total h.isWriter str
        have hlen : toInt str.length = str.length := toInt_of_le (hop rfl)
        have hint : s.putInt str = some (if ok then (str.length : ℤ) else -1, s.setFcgx c) := by
          rw [putInt, hlen, if_neg (by omega), Int.toNat_natCast, List.take_length, hput]
          rfl
        have hresult : PutsOff 0 (attempt fcgxPutChar str) s ok (s.setFcgx c) :=
          h.putsOff_unbuffered (by rw [attempt_fcgxPutChar, hchars]) hwriter
        refine ⟨ok, s.setFcgx c, ?_, hresult⟩
        rw [PutOp.perform, xsputn, if_neg (not_not_intro h.bufsize), hint]
        cases ok with
        | false => simp
        | true => simp
      · obtain ⟨n, s', hput, hputs⟩ := h.baseXsputn str
        refine ⟨_, s', ?_, hputs⟩
        rw [PutOp.perform, xsputn, if_pos (h.bufsize ▸ hsize), hput]
        simp
  | pubsync =>
      obtain ⟨ok, t, hover, ht, hsettle, hempty, hcut⟩ := h.overflow_eof
      rw [PutOp.perform, OutStreambuf.sync, hover]
      cases ok with
      | false =>
          refine ⟨false, t, rfl, ?_, (fun hok => by cases hok), fun _ => hcut rfl⟩
          rw [hsettle]
          rfl
      | true =>
          let c := (fcgxFFlush t.fcgx).2
          have hwriter : c.stream.IsWriter := fcgxFFlush_isWriter ht.isWriter
          have hsettle' : (t.setFcgx c).settle = some (true, c) := settle_empty (hempty rfl)
          have hflush : (PutOp.pubsync).direct t.fcgx =
              some (decide ((fcgxFFlush t.fcgx).1 = 0), c) := rfl
          refine ⟨decide ((fcgxFFlush t.fcgx).1 = 0), t.setFcgx c, ?_, ?_,
            fun _ => ⟨hwriter, ht.bufsize⟩, fun _ => .inl (hempty rfl)⟩
          · by_cases hrc : (fcgxFFlush t.fcgx).1 = 0
            · simp [hrc, c]
            · simp [hrc, c]
          · rw [hsettle, Option.bind_some, andThen_true, hflush, hsettle']
            by_cases hrc : (fcgxFFlush t.fcgx).1 = 0
            · simp [hrc]
            · simp [hrc]
              rfl

/-- The destructor does what has been put off. -/
theorem Buffers.destroy {c : Chan} {ok : Bool} (h : Buffers size s)
    (hsettle : s.settle = some (ok, c)) : s.destroy = some c := by
  obtain ⟨ok', t, hover, -, hsettle', -⟩ := h.overflow_eof
  rw [hsettle] at hsettle'
  cases hsettle'
  rw [OutStreambuf.destroy, hover]
  rfl

/-- It changes nothing any more where an operation has failed. -/
theorem Cut.destroy (h : s.Cut) : s.destroy = some s.fcgx := by
  by_cases hempty : s.bufsize ≠ 0 ∧ s.pptr ≠ 0
  · have hshut : s.fcgx.stream.Shut := h.resolve_left hempty.2
    have hne : s.pending ≠ [] := by
      rw [pending, Ne, slice_eq_nil_iff]
      exact hempty.2
    have hput : fcgxPutStr s.pending s.fcgx = some (-1, s.fcgx) := hshut.putStr hne _ _
    have hlen : (-1 : ℤ) ≠ s.pptr := by omega
    simp [OutStreambuf.destroy, overflow, OutStreambuf.putPending, hempty, hput, hlen, setFcgx]
  · simp [OutStreambuf.destroy, overflow, OutStreambuf.putPending, hempty]

end OutStreambuf

/-! ### Whole runs -/

/-- **A stream buffer only puts off.** For any operations on a stream buffer over a writer, up
to the first that fails, and the destructor: the stream ends as the calls of the library
themselves leave it, up to the first that fails. If none of these fails, no operation does; and
if no operation does and nothing is left in the put area, none of these does. -/
theorem streambuf_puts_off {c : Chan} (hc : c.stream.IsWriter) (buf : ℕ → UInt8) {bufsize : ℕ}
    (hsize : bufsize ≤ intMax) {ops : List PutOp} (hops : bufsize = 0 → ∀ op ∈ ops, op.FitsInt) :
    ∃ ok s ok' c', attempt PutOp.perform ops (newOutStreambuf c buf hsize) = some (ok, s) ∧
      attempt PutOp.direct ops c = some (ok', c') ∧ s.destroy = some c' ∧
      (ok' = true → ok = true) ∧ (ok = true → s.pptr = 0 → ok' = true) := by
  have hnew : OutStreambuf.Buffers bufsize (newOutStreambuf c buf hsize) := ⟨hc, rfl⟩
  have hstep : ∀ op ∈ ops, ∀ s : OutStreambuf, s.Buffers bufsize →
      ∃ ok s', op.perform s = some (ok, s') ∧ s.PutsOff bufsize op.direct ok s' :=
    fun op hop s hs => hs.perform fun hzero => hops hzero op hop
  obtain ⟨ok, s, hrun, hputs⟩ := Defers.attempt hstep hnew
  have hdirect : attempt PutOp.direct ops c = if ok then s.settle else some (false, s.fcgx) :=
    hputs.settles
  cases ok with
  | false =>
      exact ⟨false, s, false, s.fcgx, hrun, hdirect, (hputs.breaks rfl).destroy,
        fun hok => hok, fun hok => by cases hok⟩
  | true =>
      have hs := hputs.keeps rfl
      obtain ⟨ok', c', hsettle, -⟩ := putChars_total hs.isWriter s.pending
      refine ⟨true, s, ok', c', hrun, hdirect.trans hsettle, hs.destroy hsettle, fun _ => rfl,
        fun _ hempty => ?_⟩
      obtain ⟨rfl, -⟩ := Prod.mk.inj (Option.some.inj (hsettle.symm.trans
        (OutStreambuf.settle_empty hempty)))
      rfl

/-- Five operations through a buffer of eight bytes; the second `OS_Write` fails, in the destructor. -/
theorem streambuf_puts_off_fails :
    ∃ ok s ok' c', attempt PutOp.perform
        [.sputn (List.replicate 20 1), .pubsync, .sputn (List.replicate 23 2), .sputc 3, .sputc 4]
        (newOutStreambuf narrowWriter (fun _ => 0) (show 8 ≤ intMax by decide)) = some (ok, s) ∧
      attempt PutOp.direct
        [.sputn (List.replicate 20 1), .pubsync, .sputn (List.replicate 23 2), .sputc 3, .sputc 4]
        narrowWriter = some (ok', c') ∧ s.destroy = some c' ∧
      (ok' = true → ok = true) ∧ (ok = true → s.pptr = 0 → ok' = true) :=
  streambuf_puts_off (holding_newStream ..).toIsWriter _ _ fun hzero => by cases hzero

end FastCgi
