import FastCgi.App.ReaderView

/-!
The readers of `Reader.lean` do what their views say.

`Chan.view` forgets the buffer, the offsets and the chunks. `FillSpec`
says that a fill procedure goes where `advance` goes; everything that
reads through a stream (`FCGX_GetChar`, `FCGX_GetStr`, `ReadParams`)
is stated here, over any such fill procedure, with `Delivers` and
`Reads`, in which no chunk occurs. That `FillBuffProc` is one is proved
in `FillRefinement.lean`.
-/

namespace FastCgi

open ByteMem BoundedLoop

/-! ### Readers and their views -/

/-- The view of a reader between two calls. -/
def Chan.view (c : Chan) : View :=
  { input := c.unread
    contentLen :=
      if c.stream.isClosed then 0 else c.stream.contentLen + (c.stream.stop - c.stream.rdNext)
    paddingLen := if c.stream.isClosed then 0 else c.stream.paddingLen
    skip := c.stream.skip
    eorStop := c.stream.eorStop
    closed := c.stream.isClosed
    type := c.stream.type
    errno := c.stream.fcgiErrno
    req := c.req
    os := c.os.writeSide }

/-- The view of a reader inside the fill loop, where `hdr` has arrived of a
header and `stop` is not looked at. -/
def Chan.fillView (hdr : List UInt8) (c : Chan) : View :=
  { input := hdr ++ c.unread
    contentLen := c.stream.contentLen
    paddingLen := c.stream.paddingLen
    skip := c.stream.skip
    eorStop := c.stream.eorStop
    closed := c.stream.isClosed
    type := c.stream.type
    errno := c.stream.fcgiErrno
    req := c.req
    os := c.os.writeSide }

/-- The offsets of a reader's buffer. -/
structure Chan.Buffered (c : Chan) : Prop where
  isReader : c.stream.isReader = true
  rdNext_le : c.stream.rdNext ≤ c.stream.buffStop
  buffStop_le : c.stream.buffStop ≤ c.stream.bufflen
  bufflen_pos : 0 < c.stream.bufflen

/-- A reader that can be read from. -/
structure Chan.Open (c : Chan) : Prop extends c.Buffered where
  isClosed : c.stream.isClosed = false
  rdNext_le_stop : c.stream.rdNext ≤ c.stream.stop
  stop_le : c.stream.stop ≤ c.stream.buffStop
  /-- What is between `rdNext` and `stop` is there to be delivered. -/
  deliver : c.stream.rdNext < c.stream.stop → c.stream.skip = false

/-- A reader at the end of its stream. -/
structure Chan.Closed (c : Chan) : Prop extends c.Buffered where
  isClosed : c.stream.isClosed = true
  /-- Without an error, the end is the end of a record. -/
  contentLen : c.stream.fcgiErrno = 0 → c.stream.contentLen = 0
  paddingLen : c.stream.fcgiErrno = 0 → c.stream.eorStop = true → c.stream.paddingLen = 0

/-- What a call of the fill procedure leaves behind. -/
def Chan.Outcome (s : Stop) (c : Chan) : Prop :=
  match s with
  | .ready => c.Open ∧ c.stream.rdNext < c.stream.stop
  | .begun => c.Open ∧ c.stream.rdNext = c.stream.stop
  | .closed => c.Closed

/-- The reader is where `advance` has led. -/
structure Chan.Settled (r : Stop × View) (c : Chan) : Prop where
  view_eq : c.view = r.2
  outcome : c.Outcome r.1

/-- A fill procedure that does what `advance` says, for readers with this
`eorStop`. -/
def FillSpec (fill : Chan → Option Chan) (eor : Bool) : Prop :=
  ∀ c : Chan, c.Open → c.stream.rdNext = c.stream.stop → c.stream.eorStop = eor →
    ∃ c', fill c = some c' ∧ c'.Settled (advance c.view)

theorem Chan.view_eq_fillView {c : Chan} (hc : c.stream.isClosed = false)
    (hs : c.stream.stop ≤ c.stream.rdNext) : c.view = c.fillView [] := by
  simp [Chan.view, Chan.fillView, hc, Nat.sub_eq_zero_of_le hs]

theorem Chan.Buffered.setError {c : Chan} (h : c.Buffered) (e : ℤ) : (c.setError e).Buffered :=
  ⟨h.isReader, h.rdNext_le, h.buffStop_le, h.bufflen_pos⟩

theorem errno_setError_ne_zero {c : Chan} {e : ℤ} (he : e ≠ 0) :
    (c.setError e).stream.fcgiErrno ≠ 0 := by
  simp only [Chan.setError, FastCgi.setError]
  split <;> assumption

theorem Chan.Buffered.closed_setError {c : Chan} (h : c.Buffered) {e : ℤ} (he : e ≠ 0) :
    (c.setError e).Closed where
  toBuffered := h.setError e
  isClosed := rfl
  contentLen h0 := absurd h0 (errno_setError_ne_zero he)
  paddingLen h0 := absurd h0 (errno_setError_ne_zero he)

theorem view_setError (c : Chan) (e : ℤ) : (c.setError e).view = c.view.setError e := by
  simp only [Chan.view, Chan.setError, FastCgi.setError, View.setError, Chan.unread, if_true]
  congr

theorem readError_ne_zero (e : Option Errno) : readError e ≠ 0 := by
  cases e with
  | none => exact (by decide : fcgxProtocolError ≠ 0)
  | some e => exact ne_of_gt e.2

/-! ### Moving `rdNext` -/

/-- `stream->rdNext += k`. -/
def Chan.moveNext (c : Chan) (k : ℕ) : Chan :=
  { c with stream := { c.stream with rdNext := c.stream.rdNext + k } }

theorem slice_append_incoming {c : Chan} {k : ℕ}
    (h : k ≤ c.stream.buffStop - c.stream.rdNext) :
    slice c.stream.buff (c.stream.rdNext + k) (c.stream.buffStop - (c.stream.rdNext + k)) ++
      c.os.incoming = c.unread.drop k := by
  rw [Chan.unread, List.drop_append_of_le_length (by simpa using h), drop_slice _ _ h,
    Nat.sub_add_eq]

theorem unread_moveNext {c : Chan} {k : ℕ} (h : k ≤ c.stream.buffStop - c.stream.rdNext) :
    (c.moveNext k).unread = c.unread.drop k := slice_append_incoming h

theorem slice_eq_take_unread {c : Chan} {k : ℕ} (h : k ≤ c.stream.buffStop - c.stream.rdNext) :
    slice c.stream.buff c.stream.rdNext k = c.unread.take k := by
  rw [Chan.unread, List.take_append_of_le_length (by simpa using h), take_slice _ _ h]

theorem le_length_unread (c : Chan) : c.stream.buffStop - c.stream.rdNext ≤ c.unread.length := by
  simp [Chan.unread]

theorem Chan.Buffered.moveNext {c : Chan} (hb : c.Buffered) {k : ℕ}
    (h : k ≤ c.stream.buffStop - c.stream.rdNext) : (c.moveNext k).Buffered where
  isReader := hb.isReader
  rdNext_le := by
    have := hb.rdNext_le
    simp only [Chan.moveNext]
    omega
  buffStop_le := hb.buffStop_le
  bufflen_pos := hb.bufflen_pos

/-! ### Reading bytes -/

/-- `memcpy` from the buffer of an open reader consumes content. -/
theorem takeBytes_spec {c : Chan} (ho : c.Open) {m : ℕ} (hm : m ≤ c.stream.stop - c.stream.rdNext) :
    (takeBytes m c).1 = c.view.input.take m ∧ (takeBytes m c).2.Open ∧
      (takeBytes m c).2.view = c.view.consume m := by
  have hstop := ho.stop_le
  have hle := ho.rdNext_le_stop
  have hmb : m ≤ c.stream.buffStop - c.stream.rdNext := by omega
  refine ⟨slice_eq_take_unread hmb, ⟨ho.toBuffered.moveNext hmb, ho.isClosed, ?_, hstop, ?_⟩, ?_⟩
  · show c.stream.rdNext + m ≤ c.stream.stop
    omega
  · intro (hlt : c.stream.rdNext + m < c.stream.stop)
    exact ho.deliver (by omega)
  · have hdrop := unread_moveNext hmb
    simp only [Chan.view, takeBytes, View.consume, ho.isClosed, Bool.false_eq_true, if_false,
      ← hdrop, View.mk.injEq, and_true]
    exact ⟨rfl, by omega⟩

/-- The content between `rdNext` and `stop` is the front of what the view can
deliver. -/
theorem reads_takeBytes {c : Chan} (ho : c.Open) {m : ℕ}
    (hm : m ≤ c.stream.stop - c.stream.rdNext) :
    Reads c.view (takeBytes m c).1 (takeBytes m c).2.view := by
  obtain ⟨hbytes, -, hview⟩ := takeBytes_spec ho hm
  rw [hbytes, hview]
  have hlen := le_length_unread c
  have hstop := ho.stop_le
  have hin : c.view.input.length = c.unread.length := rfl
  cases m with
  | zero => exact .nil
  | succ m =>
      refine .segment (ho.deliver (by omega)) ?_ (by omega)
      simp only [Chan.view, ho.isClosed, Bool.false_eq_true, if_false]
      omega

/-- Of what a stream delivers, those bytes are the front. -/
theorem delivers_takeBytes {c : Chan} (ho : c.Open) {m : ℕ}
    (hm : m ≤ c.stream.stop - c.stream.rdNext) {bs : List UInt8} {e : View}
    (hd : Delivers c.view bs e) :
    ∃ bs', bs = (takeBytes m c).1 ++ bs' ∧ Delivers (takeBytes m c).2.view bs' e := by
  obtain ⟨hbytes, -, hview⟩ := takeBytes_spec ho hm
  rw [hbytes, hview]
  have hlen := le_length_unread c
  have hstop := ho.stop_le
  have hin : c.view.input.length = c.unread.length := rfl
  cases m with
  | zero => exact ⟨bs, by simp, hd⟩
  | succ m =>
      refine hd.split (ho.deliver (by omega)) ?_ (by omega)
      simp only [Chan.view, ho.isClosed, Bool.false_eq_true, if_false]
      omega

theorem takeByte_eq (c : Chan) :
    takeByte c = (some (c.stream.buff c.stream.rdNext), (takeBytes 1 c).2) := rfl

/-- The next byte of a stream that has one in its buffer. -/
theorem takeByte_spec {c : Chan} (ho : c.Open) (hlt : c.stream.rdNext < c.stream.stop) {b : UInt8}
    {bs : List UInt8} {e : View} (hd : Delivers c.view (b :: bs) e) :
    (takeByte c).1 = some b ∧ (takeByte c).2.Open ∧ Reads c.view [b] (takeByte c).2.view := by
  have hm : 1 ≤ c.stream.stop - c.stream.rdNext := by omega
  obtain ⟨bs', hbs, -⟩ := delivers_takeBytes ho hm hd
  have hread := reads_takeBytes ho hm
  have hone : (takeBytes 1 c).1 = [c.stream.buff c.stream.rdNext] := rfl
  rw [hone, List.singleton_append, List.cons.injEq] at hbs
  rw [hone, ← hbs.1] at hread
  rw [takeByte_eq, hbs.1]
  exact ⟨rfl, (takeBytes_spec ho hm).2.1, hbs.1 ▸ hread⟩

theorem Chan.Open.markUnget {c : Chan} (ho : c.Open) : (markUnget c).Open :=
  ⟨⟨ho.isReader, ho.rdNext_le, ho.buffStop_le, ho.bufflen_pos⟩, ho.isClosed, ho.rdNext_le_stop,
    ho.stop_le, ho.deliver⟩

theorem view_markUnget (c : Chan) : (markUnget c).view = c.view := rfl

/-- A fill that finds a byte. -/
theorem FillSpec.ready {fill : Chan → Option Chan} {c : Chan} {w : View}
    (hf : FillSpec fill c.stream.eorStop) (ho : c.Open) (hs : c.stream.rdNext = c.stream.stop)
    (h : advance c.view = (.ready, w)) :
    ∃ c', fill c = some c' ∧ c'.Open ∧ c'.stream.rdNext < c'.stream.stop ∧ c'.view = w := by
  obtain ⟨c', hfill, hset⟩ := hf c ho hs rfl
  rw [h] at hset
  exact ⟨c', hfill, hset.outcome.1, hset.outcome.2, hset.view_eq⟩

/-- A fill that finds the end of the stream. -/
theorem FillSpec.closed {fill : Chan → Option Chan} {c : Chan} {w : View}
    (hf : FillSpec fill c.stream.eorStop) (ho : c.Open) (hs : c.stream.rdNext = c.stream.stop)
    (h : advance c.view = (.closed, w)) :
    ∃ c', fill c = some c' ∧ c'.Closed ∧ c'.view = w := by
  obtain ⟨c', hfill, hset⟩ := hf c ho hs rfl
  rw [h] at hset
  exact ⟨c', hfill, hset.outcome, hset.view_eq⟩

/-- A stream that has nothing in its buffer and nothing to deliver. -/
theorem Delivers.nothing_buffered {c : Chan} {e : View} (ho : c.Open)
    (hd : Delivers c.view [] e) : c.stream.rdNext = c.stream.stop := by
  have hle := ho.rdNext_le_stop
  by_contra hne
  obtain ⟨bs', hbs, -⟩ := delivers_takeBytes ho (m := 1) (by omega) hd
  cases hbs

/-- `FCGX_GetChar` returns the next byte. -/
theorem fcgxGetChar_byte {fill : Chan → Option Chan} {c : Chan} {b : UInt8} {bs : List UInt8}
    {e : View} (hf : FillSpec fill c.stream.eorStop) (ho : c.Open)
    (hd : Delivers c.view (b :: bs) e) :
    ∃ c', fcgxGetChar fill c = some (some b, c') ∧ c'.Open ∧ Reads c.view [b] c'.view := by
  have hguard : ¬(c.stream.isClosed || !c.stream.isReader) = true := by
    simp [ho.isClosed, ho.isReader]
  rw [fcgxGetChar, if_neg hguard]
  have hle := ho.rdNext_le_stop
  by_cases hs : c.stream.rdNext = c.stream.stop
  · rw [if_neg (by simp [hs])]
    obtain ⟨w, hadv⟩ : ∃ w, advance c.view = (.ready, w) := by
      cases hd with
      | byte h _ _ => exact ⟨_, h⟩
    obtain ⟨c', hfill, ho', hlt, hview⟩ := hf.ready ho hs hadv
    have hd' : Delivers (markUnget c').view (b :: bs) e := by
      rw [view_markUnget, hview]
      exact hd.advanced hadv
    obtain ⟨hb, hopen, hread⟩ := takeByte_spec ho'.markUnget hlt hd'
    rw [hfill]
    simp only [ho'.isClosed, Bool.false_eq_true, if_false]
    rw [if_pos (Nat.ne_of_lt hlt)]
    rw [view_markUnget, hview] at hread
    exact ⟨_, congrArg some (Prod.ext hb rfl), hopen, .of_advance hadv hread⟩
  · rw [if_pos hs]
    obtain ⟨hb, hopen, hread⟩ := takeByte_spec ho (by omega) hd
    exact ⟨_, congrArg some (Prod.ext hb rfl), hopen, hread⟩

/-- `FCGX_GetChar` reports the end of the stream. -/
theorem fcgxGetChar_eof {fill : Chan → Option Chan} {c : Chan} {e : View}
    (hf : FillSpec fill c.stream.eorStop) (ho : c.Open) (hd : Delivers c.view [] e) :
    ∃ c', fcgxGetChar fill c = some (none, c') ∧ c'.Closed ∧ c'.view = e := by
  have hguard : ¬(c.stream.isClosed || !c.stream.isReader) = true := by
    simp [ho.isClosed, ho.isReader]
  have hs := hd.nothing_buffered ho
  rw [fcgxGetChar, if_neg hguard, if_neg (by simp [hs])]
  cases hd with
  | stop h =>
      obtain ⟨c', hfill, hclosed, hview⟩ := hf.closed ho hs h
      rw [hfill]
      simp only [hclosed.isClosed, if_true]
      exact ⟨c', rfl, hclosed, hview⟩

/-- The state of the loop of `FCGX_GetStr`, for a stream with view `v` that
delivers `bs`: the bytes in `str` are the front of `bs`. -/
structure Getting (eor : Bool) (v : View) (bs : List UInt8) (e : View) (x : List UInt8 × Chan) :
    Prop where
  isOpen : x.2.Open
  eorStop : x.2.stream.eorStop = eor
  /-- Whatever is read next continues what has been read. -/
  reads : ∀ xs w, xs ≠ [] → Reads x.2.view xs w → Reads v (x.1 ++ xs) w
  rest : ∃ bs', bs = x.1 ++ bs' ∧ Delivers x.2.view bs' e

/-- What `FCGX_GetStr` of `n` bytes ends with. -/
def GotStr (n : ℕ) (v : View) (bs : List UInt8) (e : View) (y : List UInt8 × Chan) : Prop :=
  n ≤ bs.length ∧ y.1 = bs.take n ∧ y.2.Open ∧ Reads v (bs.take n) y.2.view ∨
    bs.length < n ∧ y.1 = bs ∧ y.2.Closed ∧ y.2.view = e

theorem length_takeBytes (m : ℕ) (c : Chan) : (takeBytes m c).1.length = m := length_slice _ _ _

/-- What is there of the `n` bytes is copied. -/
theorem Getting.take {eor : Bool} {v e : View} {bs : List UInt8} {x : List UInt8 × Chan} {m : ℕ}
    (h : Getting eor v bs e x) (hm : m ≤ x.2.stream.stop - x.2.stream.rdNext) :
    Getting eor v bs e (x.1 ++ (takeBytes m x.2).1, (takeBytes m x.2).2) := by
  obtain ⟨bs', rfl, hd⟩ := h.rest
  obtain ⟨bs'', rfl, hd'⟩ := delivers_takeBytes h.isOpen hm hd
  refine ⟨(takeBytes_spec h.isOpen hm).2.1, h.eorStop, ?_, bs'', by simp, hd'⟩
  intro xs w hne hr
  rw [List.append_assoc]
  exact h.reads _ _ (by simp [hne]) ((reads_takeBytes h.isOpen hm).trans hr)

/-- The last of the `n` bytes are copied. -/
theorem Getting.done {eor : Bool} {v e : View} {bs : List UInt8} {x : List UInt8 × Chan} {n : ℕ}
    (h : Getting eor v bs e x) (hn : x.1.length < n)
    (hm : n - x.1.length ≤ x.2.stream.stop - x.2.stream.rdNext) :
    GotStr n v bs e
      (x.1 ++ (takeBytes (n - x.1.length) x.2).1, (takeBytes (n - x.1.length) x.2).2) := by
  have htaken := h.take hm
  obtain ⟨bs', hbs, -⟩ := htaken.rest
  have hlen := length_takeBytes (n - x.1.length) x.2
  have hn' : (x.1 ++ (takeBytes (n - x.1.length) x.2).1).length = n := by
    rw [List.length_append, hlen]
    omega
  have htake : bs.take n = x.1 ++ (takeBytes (n - x.1.length) x.2).1 := by
    rw [hbs, List.take_left' hn']
  refine .inl ⟨?_, htake.symm, htaken.isOpen, ?_⟩
  · have := congrArg List.length hbs
    rw [List.length_append, hn'] at this
    omega
  · rw [htake]
    refine h.reads _ _ ?_ (reads_takeBytes h.isOpen hm)
    rw [← List.length_pos_iff, hlen]
    omega

/-- The passes still to come. -/
def getStrVariant (n : ℕ) (x : List UInt8 × Chan) : ℕ :=
  (n - x.1.length) + if x.2.stream.rdNext = x.2.stream.stop then 1 else 0

/-- What one pass of the loop of `FCGX_GetStr` ends with. -/
def GetStrPass (eor : Bool) (v : View) (bs : List UInt8) (e : View) (n bound : ℕ)
    (p : Option (Pass (List UInt8 × Chan) (List UInt8 × Chan))) : Prop :=
  (∃ y, p = some (.done y) ∧ GotStr n v bs e y) ∨
    ∃ y, p = some (.again y) ∧ (Getting eor v bs e y ∧ y.1.length < n) ∧ getStrVariant n y < bound

/-- One fill, when nothing is left in the buffer. -/
theorem getStrFill_spec {fill : Chan → Option Chan} {eor : Bool} {v e : View} {bs : List UInt8}
    {n : ℕ} {y : List UInt8 × Chan} (hf : FillSpec fill eor) (h : Getting eor v bs e y)
    (hlt : y.1.length < n) (hs : y.2.stream.rdNext = y.2.stream.stop) :
    GetStrPass eor v bs e n (n - y.1.length + 1) (getStrFill fill y) := by
  obtain ⟨bs', rfl, hd⟩ := h.rest
  have hf' : FillSpec fill y.2.stream.eorStop := h.eorStop ▸ hf
  have hguard : ¬(y.2.stream.isClosed || !y.2.stream.isReader) = true := by
    simp [h.isOpen.isClosed, h.isOpen.isReader]
  rw [getStrFill, if_neg hguard]
  cases hd with
  | stop hadv =>
      obtain ⟨c, hfill, hclosed, hview⟩ := hf'.closed h.isOpen hs hadv
      refine .inl ⟨(y.1, c), ?_, .inr ⟨by simpa using hlt, by simp, hclosed, hview⟩⟩
      simp only [hfill, hclosed.isClosed, if_true]
  | @byte _ w _ b bs' input hadv hb ht =>
      obtain ⟨c, hfill, hopen, hready, hview⟩ := hf'.ready h.isOpen hs hadv
      have he := advance_eorStop y.2.view
      rw [hadv] at he
      have hce : c.view.eorStop = y.2.view.eorStop := by rw [hview, he]
      refine .inr ⟨(y.1, markUnget c), ?_,
        ⟨⟨hopen.markUnget, hce.trans h.eorStop, ?_, b :: bs', rfl, ?_⟩, hlt⟩, ?_⟩
      · simp only [hfill, hopen.isClosed, Bool.false_eq_true, if_false]
      · intro xs u hne hr
        rw [view_markUnget, hview] at hr
        refine h.reads xs u hne ?_
        obtain ⟨x, xs, rfl⟩ := List.exists_cons_of_ne_nil hne
        exact .of_advance hadv hr
      · rw [view_markUnget, hview]
        exact .byte (advance_ready (ready_of_advance hadv)) hb ht
      · have hne : ¬(markUnget c).stream.rdNext = (markUnget c).stream.stop := Nat.ne_of_lt hready
        rw [getStrVariant, if_neg hne]
        exact Nat.lt_succ_self _

theorem getStrBody_spec {fill : Chan → Option Chan} {eor : Bool} {v e : View} {bs : List UInt8}
    {n : ℕ} (hf : FillSpec fill eor) {x : List UInt8 × Chan} (h : Getting eor v bs e x)
    (hlt : x.1.length < n) :
    GetStrPass eor v bs e n (getStrVariant n x) (getStrBody fill n x) := by
  have hle := h.isOpen.rdNext_le_stop
  unfold getStrBody
  dsimp only
  split
  · next hs =>
      rw [getStrVariant, if_pos hs]
      exact getStrFill_spec hf h hlt hs
  · next hs =>
      rw [List.length_append, length_takeBytes]
      split
      · next hn =>
          have hall : n - x.1.length ≤ x.2.stream.stop - x.2.stream.rdNext := by omega
          rw [Nat.min_eq_left hall]
          exact .inl ⟨_, rfl, h.done hlt hall⟩
      · next hn =>
          have hpart : x.2.stream.stop - x.2.stream.rdNext ≤ n - x.1.length := by omega
          rw [Nat.min_eq_right hpart] at hn ⊢
          have hlen : (x.1 ++ (takeBytes (x.2.stream.stop - x.2.stream.rdNext) x.2).1).length =
              x.1.length + (x.2.stream.stop - x.2.stream.rdNext) := by
            rw [List.length_append, length_takeBytes]
          have hpass := getStrFill_spec hf (h.take (Nat.le_refl _)) (n := n)
            (by rw [hlen]; omega) (Nat.add_sub_of_le hle)
          rw [hlen] at hpass
          rw [getStrVariant, if_neg hs]
          rcases hpass with ⟨y, hy, hgot⟩ | ⟨y, hy, hget, hvar⟩
          · exact .inl ⟨y, hy, hgot⟩
          · exact .inr ⟨y, hy, hget, by omega⟩

/-- **`FCGX_GetStr`** returns the next `n` bytes, or all that are left and the
end of the stream. -/
theorem fcgxGetStr_spec {fill : Chan → Option Chan} {c : Chan} {bs : List UInt8} {e : View}
    (hf : FillSpec fill c.stream.eorStop) (ho : c.Open) (hd : Delivers c.view bs e) (n : ℕ) :
    ∃ y, fcgxGetStr fill n c = some y ∧ GotStr n c.view bs e y := by
  have hguard : ¬(c.stream.isClosed || !c.stream.isReader) = true := by
    simp [ho.isClosed, ho.isReader]
  by_cases h0 : n = 0
  · subst h0
    exact ⟨([], c), by simp [fcgxGetStr], .inl ⟨Nat.zero_le _, rfl, ho, .nil⟩⟩
  · have hget : Getting c.stream.eorStop c.view bs e ([], c) :=
      ⟨ho, rfl, fun xs w _ hr => hr, bs, rfl, hd⟩
    have hguard' : ¬(c.stream.isClosed || !c.stream.isReader || ((n : ℤ) ≤ 0 : Bool)) = true := by
      simp [ho.isClosed, ho.isReader, h0]
    rw [fcgxGetStr, if_neg hguard', Int.toNat_natCast]
    split
    · next hall => exact ⟨_, rfl, hget.done (by simp only [List.length_nil]; omega) hall⟩
    · have hpos : ([] : List UInt8).length < n := by
        rw [List.length_nil]
        omega
      refine run_total (fun x => Getting c.stream.eorStop c.view bs e x ∧ x.1.length < n) _
        (getStrVariant n) (fun x hx => getStrBody_spec hf hx.1 hx.2) ⟨hget, hpos⟩ ?_
      simp only [getStrVariant, List.length_nil]
      split <;> omega

/-! ### Parameters -/

/-- Of the bytes `bs` that a stream with view `v` delivers, all but `rest` have
been read. -/
def ReadTo (v : View) (bs rest : List UInt8) (c : Chan) : Prop :=
  c.Open ∧ ∃ xs, bs = xs ++ rest ∧ Reads v xs c.view

/-- Reading a part of a pair does what parsing it says. -/
def PartSpec {α : Type} (v : View) (bs : List UInt8) (e : View) (read : Option (Option α × Chan))
    (parse : Except BadPair (α × List UInt8)) : Prop :=
  match parse with
  | .ok (a, rest) => ∃ c, read = some (some a, c) ∧ ReadTo v bs rest c
  | .error .truncated => ∃ c, read = some (none, c) ∧ c.Closed ∧ c.view = e
  | .error (.tooLong rest) => ∃ c, read = some (none, c) ∧ ReadTo v bs rest c

theorem ReadTo.refl {c : Chan} (ho : c.Open) (bs : List UInt8) : ReadTo c.view bs bs c :=
  ⟨ho, [], rfl, .nil⟩

theorem ReadTo.trans {v : View} {bs rest rest' : List UInt8} {c c' : Chan}
    (h : ReadTo v bs rest c) (h' : ReadTo c.view rest rest' c') : ReadTo v bs rest' c' := by
  obtain ⟨-, xs, rfl, hr⟩ := h
  obtain ⟨ho, ys, rfl, hr'⟩ := h'
  exact ⟨ho, xs ++ ys, by simp, hr.trans hr'⟩

theorem ReadTo.delivers {v e : View} {bs rest : List UInt8} {c : Chan} (h : ReadTo v bs rest c)
    (hd : Delivers v bs e) : Delivers c.view rest e := by
  obtain ⟨-, xs, rfl, hr⟩ := h
  exact hr.rest hd

theorem ReadTo.eorStop {v : View} {bs rest : List UInt8} {c : Chan} (h : ReadTo v bs rest c) :
    c.stream.eorStop = v.eorStop := by
  obtain ⟨-, xs, rfl, hr⟩ := h
  exact hr.eorStop

theorem ReadTo.input_lt {v : View} {bs rest : List UInt8} {c : Chan} (h : ReadTo v bs rest c)
    (hlt : rest.length < bs.length) : c.unread.length < v.input.length := by
  obtain ⟨-, xs, rfl, hr⟩ := h
  have hle : c.unread.length + xs.length ≤ v.input.length := hr.input_le
  rw [List.length_append] at hlt
  omega

/-- A part that is read from where another one ended. -/
theorem PartSpec.of_readTo {α : Type} {v e : View} {bs rest : List UInt8} {c : Chan}
    {read : Option (Option α × Chan)} {parse : Except BadPair (α × List UInt8)}
    (h : ReadTo v bs rest c) (hp : PartSpec c.view rest e read parse) :
    PartSpec v bs e read parse := by
  unfold PartSpec at hp ⊢
  split
  · obtain ⟨c', hread, hto⟩ := hp
    exact ⟨c', hread, h.trans hto⟩
  · exact hp
  · obtain ⟨c', hread, hto⟩ := hp
    exact ⟨c', hread, h.trans hto⟩

/-- A string of a known length, as a part. -/
theorem fcgxGetStr_readTo {fill : Chan → Option Chan} {c : Chan} {bs : List UInt8} {e : View}
    (hf : FillSpec fill c.stream.eorStop) (ho : c.Open) (hd : Delivers c.view bs e) {n : ℕ}
    (hn : n ≤ bs.length) :
    ∃ c', fcgxGetStr fill n c = some (bs.take n, c') ∧ ReadTo c.view bs (bs.drop n) c' := by
  obtain ⟨⟨y, c'⟩, hget, ⟨-, rfl, ho', hr⟩ | ⟨hlt, -⟩⟩ := fcgxGetStr_spec hf ho hd n
  · exact ⟨c', hget, ho', bs.take n, (List.take_append_drop n bs).symm, hr⟩
  · omega

theorem fcgxGetStr_short {fill : Chan → Option Chan} {c : Chan} {bs : List UInt8} {e : View}
    (hf : FillSpec fill c.stream.eorStop) (ho : c.Open) (hd : Delivers c.view bs e) {n : ℕ}
    (hn : bs.length < n) :
    ∃ c', fcgxGetStr fill n c = some (bs, c') ∧ c'.Closed ∧ c'.view = e := by
  obtain ⟨⟨y, c'⟩, hget, ⟨hle, -⟩ | ⟨-, rfl, hclosed, hview⟩⟩ := fcgxGetStr_spec hf ho hd n
  · omega
  · exact ⟨c', hget, hclosed, hview⟩

theorem readLength_spec {fill : Chan → Option Chan} {c : Chan} {bs : List UInt8} {e : View}
    (hf : FillSpec fill c.stream.eorStop) (ho : c.Open) (hd : Delivers c.view bs e) (b : UInt8) :
    PartSpec c.view bs e (readLength fill b c) (parseLenAfter b bs) := by
  rw [readLength, parseLenAfter]
  split
  · have hshort (hlen : bs.length < 3) : ∃ c', fcgxGetStr fill 3 c = some (bs, c') ∧
        c'.Closed ∧ c'.view = e := by
      obtain ⟨c', hget, hclosed, hview⟩ := fcgxGetStr_short hf ho hd hlen
      rw [show ((3 : ℕ) : ℤ) = 3 from rfl] at hget
      exact ⟨c', hget, hclosed, hview⟩
    rcases bs with _ | ⟨b₂, _ | ⟨b₁, _ | ⟨b₀, rest⟩⟩⟩
    · obtain ⟨c', hget, hend⟩ := hshort (by simp)
      exact ⟨c', by rw [hget], hend⟩
    · obtain ⟨c', hget, hend⟩ := hshort (by simp)
      exact ⟨c', by rw [hget], hend⟩
    · obtain ⟨c', hget, hend⟩ := hshort (by simp)
      exact ⟨c', by rw [hget], hend⟩
    · obtain ⟨c', hget, hto⟩ := fcgxGetStr_readTo hf ho hd (n := 3) (by simp)
      have hsize : ¬sizeMax ≤ longLen b b₂ b₁ b₀ := by
        have hle := longLen_le b b₂ b₁ b₀
        rw [show intMax = 2147483647 from rfl] at hle
        rw [show sizeMax = 2 ^ 64 - 1 from rfl]
        omega
      rw [show ((3 : ℕ) : ℤ) = 3 from rfl] at hget
      rw [hget, parseLongLen]
      simp only [List.take_succ_cons, List.take_zero, hsize, or_false]
      split
      · exact ⟨c', rfl, hto⟩
      · exact ⟨c', rfl, hto⟩
  · exact ⟨c, rfl, .refl ho bs⟩

theorem readNameValue_spec {fill : Chan → Option Chan} {c : Chan} {bs : List UInt8} {e : View}
    (hf : FillSpec fill c.stream.eorStop) (ho : c.Open) (hd : Delivers c.view bs e) {n m : ℕ}
    (hn : n < intMax) (hm : m < intMax) :
    PartSpec c.view bs e (readNameValue fill n m c) (parseNameValue n m bs) := by
  have htotal : ¬((n + m + 2) % (sizeMax + 1) < n ∨ (n + m + 2) % (sizeMax + 1) < m) := by
    rw [show intMax = 2147483647 from rfl] at hn hm
    rw [show sizeMax + 1 = 2 ^ 64 from rfl, Nat.mod_eq_of_lt (by omega)]
    omega
  rw [readNameValue]
  simp only [if_neg htotal]
  rw [parseNameValue]
  by_cases hname : bs.length < n
  · obtain ⟨c', hget, hclosed, hview⟩ := fcgxGetStr_short hf ho hd hname
    rw [if_pos (by omega), hget]
    exact ⟨c', if_pos (by omega), hclosed, hview⟩
  · obtain ⟨c', hget, hto⟩ := fcgxGetStr_readTo hf ho hd (n := n) (by omega)
    have hlen : (bs.take n).length = n := by
      rw [List.length_take]
      omega
    have hf' : FillSpec fill c'.stream.eorStop := by
      rw [hto.eorStop]
      exact hf
    rw [hget]
    simp only [hlen, ne_eq, not_true_eq_false, if_false]
    by_cases hvalue : (bs.drop n).length < m
    · obtain ⟨c'', hget', hclosed, hview⟩ := fcgxGetStr_short hf' hto.1 (hto.delivers hd) hvalue
      rw [List.length_drop] at hvalue
      rw [if_pos (by omega), hget']
      refine ⟨c'', if_pos ?_, hclosed, hview⟩
      rw [List.length_drop]
      omega
    · obtain ⟨c'', hget', hto'⟩ := fcgxGetStr_readTo hf' hto.1 (hto.delivers hd) (n := m) (by omega)
      have hlen' : ((bs.drop n).take m).length = m := by
        rw [List.length_take]
        omega
      rw [List.length_drop] at hvalue
      rw [if_neg (by omega), hget']
      exact ⟨c'', if_neg (by simp only [hlen', not_true_eq_false, not_false_eq_true]),
        hto.trans hto'⟩

theorem readPair_spec {fill : Chan → Option Chan} {c : Chan} {bs : List UInt8} {e : View}
    (hf : FillSpec fill c.stream.eorStop) (ho : c.Open) (hd : Delivers c.view bs e) (b : UInt8) :
    PartSpec c.view bs e (readPair fill b c) (parsePairAfter b bs) := by
  have hname := readLength_spec hf ho hd b
  rw [readPair, parsePairAfter]
  cases hp : parseLenAfter b bs with
  | error bad =>
      rw [hp] at hname
      cases bad with
      | truncated =>
          obtain ⟨c', hread, hrest⟩ := hname
          exact ⟨c', by rw [hread], hrest⟩
      | tooLong rest =>
          obtain ⟨c', hread, hrest⟩ := hname
          exact ⟨c', by rw [hread], hrest⟩
  | ok r =>
      obtain ⟨n, rest⟩ := r
      rw [hp] at hname
      obtain ⟨c', hread, hto⟩ := hname
      have hnlt : n < intMax := by
        obtain ⟨-, -, hlt, -⟩ := @lenCode_of_parseLen (b :: bs) _ _ hp
        exact hlt
      have hd' := hto.delivers hd
      have hf' : FillSpec fill c'.stream.eorStop := by
        rw [hto.eorStop]
        exact hf
      simp only [hread]
      refine .of_readTo hto ?_
      cases rest with
      | nil =>
          obtain ⟨c'', hget, hclosed, hview⟩ := fcgxGetChar_eof hf' hto.1 hd'
          exact ⟨c'', by simp only [hget], hclosed, hview⟩
      | cons b' rest =>
          obtain ⟨c'', hget, ho'', hr⟩ := fcgxGetChar_byte hf' hto.1 hd'
          -- the first byte of the second length
          have hto' : ReadTo c'.view (b' :: rest) rest c'' := ⟨ho'', [b'], rfl, hr⟩
          have hd'' := hto'.delivers hd'
          have hf'' : FillSpec fill c''.stream.eorStop := by
            rw [hto'.eorStop]
            exact hf'
          have hvalue := readLength_spec hf'' ho'' hd'' b'
          simp only [hget, parseLen]
          refine .of_readTo hto' ?_
          cases hp' : parseLenAfter b' rest with
          | error bad =>
              rw [hp'] at hvalue
              cases bad with
              | truncated =>
                  obtain ⟨c₃, hread', hrest⟩ := hvalue
                  exact ⟨c₃, by simp only [hread'], hrest⟩
              | tooLong rest' =>
                  obtain ⟨c₃, hread', hrest⟩ := hvalue
                  exact ⟨c₃, by simp only [hread'], hrest⟩
          | ok r' =>
              obtain ⟨m, rest'⟩ := r'
              rw [hp'] at hvalue
              obtain ⟨c₃, hread', hto₃⟩ := hvalue
              have hmlt : m < intMax := by
                obtain ⟨-, -, hlt, -⟩ := @lenCode_of_parseLen (b' :: rest) _ _ hp'
                exact hlt
              have hf₃ : FillSpec fill c₃.stream.eorStop := by
                rw [hto₃.eorStop]
                exact hf''
              simp only [hread']
              exact .of_readTo hto₃
                (readNameValue_spec hf₃ hto₃.1 (hto₃.delivers hd'') hnlt hmlt)

@[simp] theorem entries_newParams (n : ℕ) : (newParams n).entries = [] := rfl

@[simp] theorem entries_putParam (p : Params) (x : List UInt8) :
    (putParam p x).entries = p.entries ++ [x] := by
  have hslice : slice (putParam p x).vec 0 (putParam p x).cur = slice p.vec 0 p.cur ++ [some x] := by
    show slice (store p.vec p.cur [some x, none]) 0 (p.cur + 1) = _
    rw [slice_add, slice_store_before _ (by omega), Nat.zero_add]
    simp [slice, store]
  simp [Params.entries, hslice]

/-- What `ReadParams` ends with, on a stream with view `v` that delivers `bs`. -/
structure ParamsRead (v : View) (bs : List UInt8) (e : View) (p : Params)
    (r : ℤ × Params × Chan) : Prop where
  closed : r.2.2.Closed
  entries : r.2.1.entries = p.entries ++ (parsePairs bs).1.map NameValue.entry
  result : match (parsePairs bs).2 with
    | none => r.1 = 0 ∧ r.2.2.view = e
    | some .truncated => r.1 = -1 ∧ r.2.2.view = e.setError fcgxParamsError
    | some (.tooLong rest) => r.1 = -1 ∧ ∃ w xs, bs = xs ++ rest ∧ Reads v xs w ∧
        r.2.2.view = w.setError fcgxParamsError

/-- The state of the loop of `ReadParams`. -/
structure ReadingParams (v : View) (bs : List UInt8) (p : Params) (x : Params × Chan) : Prop where
  rest : ∃ bs', ReadTo v bs bs' x.2 ∧ (parsePairs bs).2 = (parsePairs bs').2 ∧
    p.entries ++ (parsePairs bs).1.map NameValue.entry =
      x.1.entries ++ (parsePairs bs').1.map NameValue.entry

theorem readParamsBody_spec {fill : Chan → Option Chan} {v e : View} {bs : List UInt8} {p : Params}
    (hf : FillSpec fill v.eorStop) (hd : Delivers v bs e) {x : Params × Chan}
    (h : ReadingParams v bs p x) :
    (∃ r, readParamsBody fill x = some (.done r) ∧ ParamsRead v bs e p r) ∨
      ∃ x', readParamsBody fill x = some (.again x') ∧ ReadingParams v bs p x' ∧
        x'.2.unread.length < x.2.unread.length := by
  obtain ⟨bs', hto, hbad, hentries⟩ := h.rest
  have hd' := hto.delivers hd
  have hf' : FillSpec fill x.2.stream.eorStop := by
    rw [hto.eorStop]
    exact hf
  unfold readParamsBody
  match bs' with
  | [] =>
      obtain ⟨c', hget, hclosed, hview⟩ := fcgxGetChar_eof hf' hto.1 hd'
      rw [parsePairs_nil] at hbad hentries
      refine .inl ⟨(0, x.1, c'), by simp only [hget], hclosed, by simpa using hentries.symm, ?_⟩
      rw [hbad]
      exact ⟨rfl, hview⟩
  | b :: bs' =>
      obtain ⟨c', hget, ho', hr⟩ := fcgxGetChar_byte hf' hto.1 hd'
      have hto' : ReadTo x.2.view (b :: bs') bs' c' := ⟨ho', [b], rfl, hr⟩
      have hf'' : FillSpec fill c'.stream.eorStop := by
        rw [hto'.eorStop]
        exact hf'
      have hpair := PartSpec.of_readTo hto' (readPair_spec hf'' ho' (hto'.delivers hd') b)
      simp only [hget]
      cases hp : parsePairAfter b bs' with
      | error bad =>
          rw [hp] at hpair
          rw [parsePairs_of_error hp] at hbad hentries
          cases bad with
          | truncated =>
              obtain ⟨c'', hread, hclosed, hview⟩ := hpair
              refine .inl ⟨(-1, x.1, c''.setError fcgxParamsError), by simp only [hread],
                hclosed.toBuffered.closed_setError (by decide), by simpa using hentries.symm, ?_⟩
              rw [hbad]
              exact ⟨rfl, by rw [view_setError, hview]⟩
          | tooLong rest =>
              obtain ⟨c'', hread, hto''⟩ := hpair
              refine .inl ⟨(-1, x.1, c''.setError fcgxParamsError), by simp only [hread],
                hto''.1.toBuffered.closed_setError (by decide), by simpa using hentries.symm, ?_⟩
              obtain ⟨-, xs, hbs, hreads⟩ := hto.trans hto''
              rw [hbad]
              exact ⟨rfl, c''.view, xs, hbs, hreads, view_setError _ _⟩
      | ok q =>
          obtain ⟨q, rest⟩ := q
          rw [hp] at hpair
          rw [parsePairs_of_ok hp] at hbad hentries
          obtain ⟨c'', hread, hto''⟩ := hpair
          refine .inr ⟨(putParam x.1 q.entry, c''), by simp only [hread],
            ⟨rest, hto.trans hto'', hbad, ?_⟩, hto''.input_lt ?_⟩
          · rw [hentries]
            simp
          · have := length_of_parsePairAfter hp
            rw [List.length_cons]
            omega

/-- **`ReadParams`** reads the pairs that the bytes of the stream code. -/
theorem readParams_spec {fill : Chan → Option Chan} {c : Chan} {bs : List UInt8} {e : View}
    (hf : FillSpec fill c.stream.eorStop) (ho : c.Open) (hd : Delivers c.view bs e) (p : Params) :
    ∃ r, readParams fill p c = some r ∧ ParamsRead c.view bs e p r :=
  run_total (ReadingParams c.view bs p) (ParamsRead c.view bs e p) (fun x => x.2.unread.length)
    (fun _ hx => readParamsBody_spec hf hd hx) ⟨⟨bs, .refl ho bs, rfl, rfl⟩⟩ (Nat.lt_succ_self _)

end FastCgi
