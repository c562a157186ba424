import FastCgi.Java.ReaderLaws
import FastCgi.Java.StreamScan

/-!
The stages of `fill` of the Java reader, and its loop in step with the scan
of the wire.

`Spans c r e` says which bytes of the buffer are not consumed, and the lemmas
about the stages say which of them a stage passes. `Waits fin bs headerBuf c`
is the loop in step with a scan that delivers `bs` from the bytes to come,
and `Streams fin bs c` the stream between two calls of a `read`.
-/

namespace FastCgi

namespace Java

open ByteMem BoundedLoop

namespace InChan

/-! ### The buffer -/

/-- The unconsumed bytes of the buffer are those from `r` to `e`, and the chunks to come fit. -/
structure Spans (c : InChan) (r e : ℕ) : Prop where
  rdNext : c.stream.rdNext = r
  buffStop : c.stream.buffStop = e
  le : r ≤ e
  le_buffLen : e ≤ c.stream.buffLen
  chunks : ∀ chunk ∈ c.inp.chunks, chunk ≠ [] ∧ chunk.length ≤ c.stream.buffLen

variable {c c' : InChan} {r e : ℕ}

theorem Spans.unread (h : c.Spans r e) :
    c.unread = slice c.stream.buff r (e - r) ++ c.inp.chunks.flatten := by
  rw [InChan.unread, h.rdNext, h.buffStop, Int.toNat_natCast]
  congr 2
  omega

/-- The next `k` bytes are those of the buffer. -/
theorem Spans.unread_split (h : c.Spans r e) (h' : c'.Spans (r + k) e) (hk : k ≤ e - r)
    (hbuff : c'.stream.buff = c.stream.buff) (hinp : c'.inp = c.inp) :
    c.unread = slice c.stream.buff r k ++ c'.unread := by
  rw [h.unread, h'.unread, hbuff, hinp, ← List.append_assoc, ← slice_add]
  congr 2
  omega

/-- The fields that `refill` leaves as they are. -/
structure Same (c c' : InChan) : Prop where
  contentLen : c'.stream.contentLen = c.stream.contentLen
  paddingLen : c'.stream.paddingLen = c.stream.paddingLen
  skip : c'.stream.skip = c.stream.skip
  eorStop : c'.stream.eorStop = c.stream.eorStop
  type : c'.stream.type = c.stream.type
  isClosed : c'.stream.isClosed = c.stream.isClosed
  errno : c'.stream.errno = c.stream.errno
  request : c'.request = c.request
  socket : c'.socket = c.socket
  atEnd : c'.inp.atEnd = c.inp.atEnd

/-- Where there is a byte to come, it is in the buffer after `refill`. -/
theorem Spans.refill_next (h : c.Spans r e) (hne : c.unread ≠ []) :
    ∃ c' r' e', refill c = .next c' ∧ c'.Spans r' e' ∧ r' < e' ∧ c'.unread = c.unread ∧
      c.Same c' := by
  rw [refill, h.rdNext, h.buffStop]
  by_cases heq : r = e
  · subst heq
    have hunread := h.unread
    rw [Nat.sub_self, slice_zero, List.nil_append] at hunread
    rw [if_pos rfl, FileInputStream.read]
    match hchunks : c.inp.chunks with
    | [] =>
        rw [hunread, hchunks] at hne
        exact absurd rfl hne
    | chunk :: chunks =>
        have hall := h.chunks
        rw [hchunks] at hall
        obtain ⟨hpos, hfits⟩ := hall chunk List.mem_cons_self
        have hlen := List.length_pos_iff.mpr hpos
        simp only
        rw [if_neg (by omega)]
        refine ⟨_, 0, chunk.length, rfl, ⟨rfl, rfl, Nat.zero_le _, hfits, ?_⟩, hlen, ?_,
          ⟨rfl, rfl, rfl, rfl, rfl, rfl, rfl, rfl, rfl, rfl⟩⟩
        · exact fun chunk' hmem => hall chunk' (List.mem_cons_of_mem _ hmem)
        · rw [hunread, hchunks, List.flatten_cons, InChan.unread]
          simp only [Int.toNat_zero, sub_zero, Int.toNat_natCast, slice_store]
  · rw [if_neg (by exact_mod_cast heq)]
    exact ⟨c, r, e, rfl, h, Nat.lt_of_le_of_ne h.le heq, rfl,
      ⟨rfl, rfl, rfl, rfl, rfl, rfl, rfl, rfl, rfl, rfl⟩⟩

/-- Where no byte is to come, `refill` meets the end of the source. -/
theorem Spans.refill_end (h : c.Spans r e) (hnil : c.unread = [])
    (hend : c.inp.atEnd = .ioException) : refill c = .leave c.setException := by
  have hunread := h.unread
  rw [hnil] at hunread
  obtain ⟨hbuff, hchunks⟩ := List.append_eq_nil_iff.mp hunread.symm
  rw [slice_eq_nil_iff] at hbuff
  have hle := h.le
  obtain rfl : r = e := by omega
  have hnone : c.inp.chunks = [] := by
    refine List.eq_nil_iff_forall_not_mem.mpr fun chunk hmem => ?_
    exact (h.chunks chunk hmem).1 (List.flatten_eq_nil_iff.mp hchunks chunk hmem)
  rw [refill, h.rdNext, h.buffStop, if_pos rfl, FileInputStream.read, hnone, hend]

/-! ### Between two calls -/

/-- What is up to `stop` is read. -/
def toStop (c : InChan) : InChan :=
  { c with stream := { c.stream with rdNext := c.stream.stop } }

/-- Between two calls of a `read`: the bytes up to `stop` are delivered and then those the loop
of `fill` delivers according to `P`; or the end is reported, and `E` holds. -/
inductive Reading (P : List UInt8 → InChan → Prop) (E : InChan → Prop) :
    List UInt8 → InChan → Prop
  | live {bs rest : List UInt8} {c : InChan} {r k : ℕ} (hr : c.stream.rdNext = r)
      (hk : c.stream.stop = k) (hle : r ≤ k) (hbs : bs = slice c.stream.buff r (k - r) ++ rest)
      (h : P rest c.toStop) : Reading P E bs c
  | ended {c : InChan} (hend : c.AtEnd) (hspans : ∃ r e, c.Spans r e) (h : E c) :
      Reading P E [] c

/-- After a call of `fill`: there is content to deliver, or the stream is closed. -/
structure Filled (P : List UInt8 → InChan → Prop) (E : InChan → Prop) (bs : List UInt8)
    (c : InChan) : Prop where
  reading : Reading P E bs c
  stop : c.stream.rdNext = c.stream.stop → c.stream.isClosed = true

theorem toStop_of_eq (h : c.stream.rdNext = c.stream.stop) : c.toStop = c := by
  rw [toStop, ← h]

/-- A procedure that fills the buffer where the loop is at `P` obeys the laws. -/
theorem supplies_reading {fill : InChan → Option InChan} {P : List UInt8 → InChan → Prop}
    {E : InChan → Prop}
    (hP : ∀ {bs c}, P bs c →
      (∃ r e, c.Spans r e) ∧ c.stream.isClosed = false ∧ bs.length ≤ c.unread.length)
    (hfill : ∀ {bs c}, P bs c → c.stream.rdNext = c.stream.stop →
      ∃ c', fill c = some c' ∧ Filled P E bs c') :
    Supplies fill (Reading P E) where
  front := by
    intro bs c hI
    cases hI with
    | @live bs rest c r k hr hk hle hbs h =>
        obtain ⟨⟨r', e', hspans⟩, -, -⟩ := hP h
        obtain ⟨hr', he', hle', hroom, -⟩ := hspans
        have hk' : c.stream.stop = r' := hr'
        have hroom' : e' ≤ c.stream.buffLen := hroom
        refine ⟨by omega, by omega, by omega, ⟨rest, ?_⟩⟩
        rw [hbs, hr, hk, Int.toNat_natCast]
        congr 2
        omega
    | ended hend hspans h =>
        obtain ⟨r, e, hr, he, hle, hroom, -⟩ := hspans
        have hstop := hend.rdNext_eq
        refine ⟨by omega, by omega, by omega, ?_⟩
        rw [← hstop, sub_self, Int.toNat_zero, slice_zero]
  advance := by
    intro bs c m hI hm hle
    cases hI with
    | @live bs rest c r k hr hk hrk hbs h =>
        obtain ⟨m, rfl⟩ := Int.eq_ofNat_of_zero_le hm
        rw [hr, hk] at hle
        have hm' : m ≤ k - r := by omega
        refine .live (r := r + m) (k := k) ?_ hk (by omega) ?_ h
        · show c.stream.rdNext + m = _
          rw [hr, Nat.cast_add]
        · rw [hbs, Int.toNat_natCast, List.drop_append_of_le_length (by rwa [length_slice]),
            drop_slice _ _ hm', Nat.sub_sub]
          rfl
    | ended hend hspans h =>
        have hstop := hend.rdNext_eq
        obtain rfl : m = 0 := by omega
        rw [List.drop_nil, show c.advance 0 = c by rw [InChan.advance, add_zero]]
        exact .ended hend hspans h
  atEnd := by
    intro bs c hI hend
    cases hI with
    | live hr hk hle hbs h =>
        obtain ⟨-, hopen, -⟩ := hP h
        exact nomatch hend.isClosed.symm.trans hopen
    | ended => rfl
  fill := by
    intro bs c hI hstop hopen
    cases hI with
    | @live bs rest c r k hr hk hle hbs h =>
        rw [toStop_of_eq hstop] at h
        obtain rfl : r = k := by omega
        rw [Nat.sub_self, slice_zero, List.nil_append] at hbs
        subst hbs
        obtain ⟨c', hrun, hfilled⟩ := hfill h hstop
        exact ⟨c', hrun, hfilled.reading, hfilled.stop⟩
    | ended hend => exact nomatch hend.isClosed.symm.trans hopen
  length_le := by
    intro bs c hI
    cases hI with
    | @live bs rest c r k hr hk hle hbs h =>
        obtain ⟨⟨r', e', hspans⟩, -, hlen⟩ := hP h
        have hunread := hspans.unread
        obtain ⟨hr', he', hle', -, -⟩ := hspans
        have hk' : c.stream.stop = r' := hr'
        have he'' : c.stream.buffStop = e' := he'
        have hlen' := congrArg List.length hunread
        rw [List.length_append, length_slice] at hlen'
        rw [hbs, List.length_append, length_slice, InChan.unread, List.length_append, length_slice,
          hr, he'']
        have hsame : c.toStop.inp = c.inp := rfl
        rw [hsame] at hlen'
        omega
    | ended => exact Nat.zero_le _

/-! ### The stages -/

/-- What the stream knows of the current record. -/
structure InRecord (st : FcgiInputStream) (eor : Bool) (n p : ℕ) (skip : Bool) : Prop where
  eorStop : st.eorStop = eor
  contentLen : st.contentLen = n
  paddingLen : st.paddingLen = p
  skip : st.skip = skip

/-- `k` bytes of the buffer have been passed. -/
structure Steps (c c' : InChan) (r e k : ℕ) : Prop where
  spans : c'.Spans (r + k) e
  le : k ≤ e - r
  buff : c'.stream.buff = c.stream.buff
  inp : c'.inp = c.inp
  type : c'.stream.type = c.stream.type
  isClosed : c'.stream.isClosed = c.stream.isClosed
  errno : c'.stream.errno = c.stream.errno
  request : c'.request = c.request
  socket : c'.socket = c.socket

theorem Steps.unread {k : ℕ} (h : c.Steps c' r e k) (hspans : c.Spans r e) :
    c.unread = slice c.stream.buff r k ++ c'.unread :=
  hspans.unread_split h.spans h.le h.buff h.inp

/-- The bytes passed are the next ones of the wire. -/
theorem Steps.taken {k : ℕ} (h : c.Steps c' r e k) (hspans : c.Spans r e) :
    ∃ l, slice c.stream.buff r k = l ∧ l.length = k ∧ c.unread = l ++ c'.unread ∧
      c'.unread.length + k = c.unread.length := by
  have hunread := h.unread hspans
  refine ⟨slice c.stream.buff r k, rfl, length_slice .., hunread, ?_⟩
  rw [hunread, List.length_append, length_slice, Nat.add_comm]

theorem passContent_none {eor skip : Bool} {p : ℕ} (h : InRecord c.stream eor 0 p skip) :
    passContent c = .next c := by
  simp only [passContent, h.contentLen, Nat.cast_zero, lt_irrefl, if_false]

theorem passContent_deliver {eor : Bool} {n p : ℕ} (h : InRecord c.stream eor n p false)
    (hspans : c.Spans r e) (hn : 0 < n) :
    ∃ c', passContent c = .leave c' ∧ c.Steps c'.toStop r e (min n (e - r)) ∧
      InRecord c'.toStop.stream eor (n - min n (e - r)) p false ∧ c'.stream.rdNext = r ∧
      c'.stream.stop = (r + min n (e - r) : ℕ) := by
  have hle := hspans.le
  have hcount : min (n : ℤ) (e - r) = (min n (e - r) : ℕ) := by omega
  obtain ⟨k, hk⟩ : ∃ k, min n (e - r) = k := ⟨_, rfl⟩
  rw [hk] at hcount ⊢
  simp only [passContent, h.contentLen, h.skip, hspans.rdNext, hspans.buffStop, hcount,
    Bool.not_false, if_true]
  rw [if_pos (by exact_mod_cast hn)]
  have hchunks := hspans.chunks
  have hroom := hspans.le_buffLen
  refine ⟨_, rfl, ⟨⟨?_, rfl, by omega, hroom, hchunks⟩, by omega, rfl, rfl, rfl, rfl, rfl, rfl,
    rfl⟩, ⟨h.eorStop, ?_, h.paddingLen, rfl⟩, rfl, ?_⟩
  · exact (Nat.cast_add r k).symm
  · exact (Nat.cast_sub (by omega)).symm
  · exact (Nat.cast_add r k).symm

theorem passContent_skip {eor : Bool} {n p : ℕ} (h : InRecord c.stream eor n p true)
    (hspans : c.Spans r e) (hn : 0 < n) :
    ∃ c', passContent c = (if min n (e - r) < n then .loop c' else .next c') ∧
      c.Steps c' r e (min n (e - r)) ∧
      InRecord c'.stream eor (n - min n (e - r)) p (decide (min n (e - r) < n)) := by
  have hle := hspans.le
  have hcount : min (n : ℤ) (e - r) = (min n (e - r) : ℕ) := by omega
  obtain ⟨k, hk⟩ : ∃ k, min n (e - r) = k := ⟨_, rfl⟩
  rw [hk] at hcount ⊢
  simp only [passContent, h.contentLen, h.skip, hspans.rdNext, hspans.buffStop, hcount,
    Bool.not_true, Bool.false_eq_true, if_false]
  rw [if_pos (by exact_mod_cast hn)]
  have hchunks := hspans.chunks
  have hroom := hspans.le_buffLen
  by_cases hlt : k < n
  · rw [if_pos (by omega), decide_eq_true hlt]
    refine ⟨_, (if_pos hlt).symm, ⟨⟨?_, rfl, by omega, hroom, hchunks⟩, by omega, rfl, rfl, rfl,
      rfl, rfl, rfl, rfl⟩, ⟨h.eorStop, ?_, h.paddingLen, rfl⟩⟩
    · exact (Nat.cast_add r k).symm
    · exact (Nat.cast_sub hlt.le).symm
  · rw [if_neg (by omega), decide_eq_false hlt]
    refine ⟨_, (if_neg hlt).symm, ⟨⟨?_, rfl, by omega, hroom, hchunks⟩, by omega, rfl, rfl, rfl,
      rfl, rfl, rfl, rfl⟩, ⟨h.eorStop, ?_, h.paddingLen, rfl⟩⟩
    · exact (Nat.cast_add r k).symm
    · exact (Nat.cast_sub (by omega)).symm

theorem passPadding_none {eor skip : Bool} {n : ℕ} (h : InRecord c.stream eor n 0 skip) :
    passPadding c = .next c := by
  simp only [passPadding, h.paddingLen, Nat.cast_zero, lt_irrefl, if_false]

theorem passPadding_skip {eor skip : Bool} {n p : ℕ} (h : InRecord c.stream eor n p skip)
    (hspans : c.Spans r e) (hp : 0 < p) :
    ∃ c', passPadding c = (if min p (e - r) < p then .loop c' else .next c') ∧
      c.Steps c' r e (min p (e - r)) ∧ InRecord c'.stream eor n (p - min p (e - r)) skip := by
  have hle := hspans.le
  have hcount : min (p : ℤ) (e - r) = (min p (e - r) : ℕ) := by omega
  obtain ⟨k, hk⟩ : ∃ k, min p (e - r) = k := ⟨_, rfl⟩
  rw [hk] at hcount ⊢
  simp only [passPadding, h.paddingLen, hspans.rdNext, hspans.buffStop, hcount]
  rw [if_pos (by exact_mod_cast hp)]
  have hchunks := hspans.chunks
  have hroom := hspans.le_buffLen
  refine ⟨{ c with
      stream := { c.stream with paddingLen := p - k, rdNext := r + k, buffStop := e } }, ?_,
    ⟨⟨?_, rfl, by omega, hroom, hchunks⟩, by omega, rfl, rfl, rfl, rfl, rfl, rfl, rfl⟩,
    ⟨h.eorStop, h.contentLen, ?_, h.skip⟩⟩
  · by_cases hlt : k < p
    · rw [if_pos (by omega), if_pos hlt]
    · rw [if_neg (by omega), if_neg hlt]
  · exact (Nat.cast_add r k).symm
  · exact (Nat.cast_sub (by omega)).symm

/-! ### The loop and the scan -/

/-- The fields of the record that go with a phase of the scan. -/
def Matches (stale : Bool) (headerBuf : List UInt8) (st : FcgiInputStream) : Phase → Prop
  | .header got => InRecord st false 0 0 stale ∧ headerBuf = got ∧ got.length < 8
  | .content n p => InRecord st false n p false ∧ 0 < n ∧ stale = false ∧ headerBuf = []
  | .skipping n p => InRecord st false n p true ∧ 0 < n ∧ stale = false ∧ headerBuf = []
  | .values _ n p => InRecord st true n p stale ∧ (0 < n → stale = false) ∧ headerBuf = []
  | .padding p => InRecord st false 0 p stale ∧ 0 < p ∧ headerBuf = []
  | .finished _ => False

/-- The request and the socket are those of the scan, and nothing has failed. -/
structure Follows (s : Scan) (c : InChan) : Prop where
  requestID : c.request.requestID = s.requestID
  type : c.stream.type = s.type
  socket : c.socket = s.socket
  isOpen : c.stream.isClosed = false
  noError : c.stream.errno = 0

/-- The loop is in step with the scan `s`, which delivers `bs` from the bytes to come. -/
structure InStep (fin : Prop) (s : Scan) (bs headerBuf : List UInt8) (c : InChan) : Prop where
  phase : Matches s.stale headerBuf c.stream s.phase
  follows : Follows s c
  spans : ∃ r e, c.Spans r e
  marked : s.marked = true → c.stream.rdNext = c.stream.stop
  yields : s.Yields c.inp.atEnd c.unread bs fin

/-- The loop of `fill` is about to deliver `bs`. -/
def Waits (fin : Prop) (bs headerBuf : List UInt8) (c : InChan) : Prop :=
  c.stream.eorStop = false ∧ ∃ s, InStep fin s bs headerBuf c

/-- An error or an exception is recorded, unless `fin` holds. -/
def Recorded (fin : Prop) (c : InChan) : Prop :=
  fin ∨ c.stream.errno ≠ 0 ∨ c.stream.errex = true

/-- Between two calls of a `read`, the stream delivers `bs` and then reports the end. -/
abbrev Streams (fin : Prop) : List UInt8 → InChan → Prop :=
  Reading (fun bs c => Waits fin bs [] c) (Recorded fin)

/-- After a call of `fill`. -/
abbrev StreamFilled (fin : Prop) : List UInt8 → InChan → Prop :=
  Filled (fun bs c => Waits fin bs [] c) (Recorded fin)

/-- A pass leaves the loop with the buffer filled, or goes round with fewer than `N` bytes to
come. -/
abbrev Passed (fin : Prop) (bs : List UInt8) (N : ℕ) : Pass (List UInt8 × InChan) InChan → Prop :=
  Pass.Holds (fun x => Waits fin bs x.1 x.2 ∧ x.2.unread.length < N) (StreamFilled fin bs)

variable {s t : Scan} {fin : Prop} {bs headerBuf : List UInt8}

theorem Follows.steps {k : ℕ} (h : Follows s c) (hsteps : c.Steps c' r e k)
    (hid : t.requestID = s.requestID) (htype : t.type = s.type) (hsocket : t.socket = s.socket) :
    Follows t c' where
  requestID := by rw [hsteps.request, hid, h.requestID]
  type := by rw [hsteps.type, htype, h.type]
  socket := by rw [hsteps.socket, hsocket, h.socket]
  isOpen := by rw [hsteps.isClosed, h.isOpen]
  noError := by rw [hsteps.errno, h.noError]

theorem Follows.same (h : Follows s c) (hsame : c.Same c') : Follows s c' where
  requestID := by rw [hsame.request, h.requestID]
  type := by rw [hsame.type, h.type]
  socket := by rw [hsame.socket, h.socket]
  isOpen := by rw [hsame.isClosed, h.isOpen]
  noError := by rw [hsame.errno, h.noError]

theorem InRecord.same {eor skip : Bool} {n p : ℕ} (h : InRecord c.stream eor n p skip)
    (hsame : c.Same c') : InRecord c'.stream eor n p skip where
  eorStop := by rw [hsame.eorStop, h.eorStop]
  contentLen := by rw [hsame.contentLen, h.contentLen]
  paddingLen := by rw [hsame.paddingLen, h.paddingLen]
  skip := by rw [hsame.skip, h.skip]

/-- An error where `stop` has been set ends the stream. -/
theorem filled_setFcgiError {errnum : ℤ} (hspans : ∃ r e, c.Spans r e)
    (hstop : c.stream.rdNext = c.stream.stop) (hne : errnum ≠ 0) :
    StreamFilled fin [] (c.setFcgiError errnum) := by
  obtain ⟨r, e, hrdNext, hbuffStop, hle, hroom, hchunks⟩ := hspans
  refine ⟨.ended ⟨hstop, rfl⟩ ⟨r, e, hrdNext, hbuffStop, hle, hroom, hchunks⟩ (.inr (.inl ?_)),
    fun _ => rfl⟩
  show (if c.stream.errno = 0 then errnum else c.stream.errno) ≠ 0
  split
  · exact hne
  · assumption

/-- So does an exception. -/
theorem filled_setException (hspans : ∃ r e, c.Spans r e)
    (hstop : c.stream.rdNext = c.stream.stop) : StreamFilled fin [] c.setException := by
  obtain ⟨r, e, hrdNext, hbuffStop, hle, hroom, hchunks⟩ := hspans
  exact ⟨.ended ⟨hstop, rfl⟩ ⟨r, e, hrdNext, hbuffStop, hle, hroom, hchunks⟩ (.inr (.inr rfl)),
    fun _ => rfl⟩

end InChan

end Java

end FastCgi
