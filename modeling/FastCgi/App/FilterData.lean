import FastCgi.App.RecordEnds
import FastCgi.App.Session

/-!
`FCGX_StartFilterData` and the end of `FCGI_STDIN`.

A filter reads its `FCGI_STDIN` stream, may push bytes back, and calls
`FCGX_StartFilterData` to go on with `FCGI_DATA`. That function looks at
`isClosed` and the type of the stream only, and a stream is closed both at
its end and by every error, so the two are told apart by `FCGI_errno`
alone (`startFilterData_sound_iff`).
-/

namespace FastCgi

open ByteMem BoundedLoop

/-! ### Where a reader stands in its buffer -/

/-- A header that leaves the stream to its own records changes the lengths only. -/
theorem processHeader_streamRecord {fill : Chan → Option Chan} {header : Header} {c c' : Chan}
    (h : processHeader fill header c = some (.streamRecord, c')) : c' = c.startRecord header := by
  cases interprets_processHeader h with
  | multiplexed _ _ hsend => rcases sendReply_status hsend with h | ⟨e, h⟩ <;> cases h
  | query _ _ hsend => rcases sendReply_status hsend with h | ⟨e, h⟩ <;> cases h
  | unknown _ hsend => rcases sendReply_status hsend with h | ⟨e, h⟩ <;> cases h
  | own => rfl

/-- A stream that has been closed without an error stands behind a header. -/
structure Chan.Ahead (c : Chan) : Prop where
  eorStop : c.stream.eorStop = false
  rdNext_pos : c.stream.isClosed = true → c.stream.fcgiErrno = 0 → 0 < c.stream.rdNext

theorem Chan.Ahead.of_open {c : Chan} (he : c.stream.eorStop = false)
    (ho : c.stream.isClosed = false) : c.Ahead :=
  ⟨he, fun h => by rw [ho] at h; cases h⟩

theorem Chan.Ahead.of_errno {c : Chan} (he : c.stream.eorStop = false)
    (herrno : c.stream.fcgiErrno ≠ 0) : c.Ahead :=
  ⟨he, fun _ h => absurd h herrno⟩

/-- The part of the header that has arrived is not all of it, and the stream is open. -/
def Collecting (hdr : List UInt8) (c : Chan) : Prop :=
  hdr.length < 8 ∧ c.stream.isClosed = false ∧ c.stream.eorStop = false

theorem passHeader_ahead {fill : Chan → Option Chan} {hdr : List UInt8} {c : Chan}
    {p : Pass (List UInt8 × Chan) Chan} (hc : Collecting hdr c)
    (h : passHeader fill hdr c = some p) : p.Holds (fun y => Collecting y.1 y.2) Chan.Ahead := by
  obtain ⟨hlt, hopen, heor⟩ := hc
  simp only [passHeader] at h
  split at h
  · next hshort =>
      cases h
      exact ⟨hshort, hopen, heor⟩
  · next hwhole =>
      rw [List.length_append, length_slice] at hwhole
      split at h
      · cases h
      · next status c₁ hheader =>
          cases status with
          | streamRecord =>
              have hmoved := processHeader_streamRecord hheader
              rw [onStatus] at h
              split at h <;> cases h
              · refine ⟨rfl, fun _ _ => ?_⟩
                -- the last bytes of the header are in the buffer
                rw [hmoved]
                show 0 < c.stream.rdNext + min (8 - hdr.length) (c.stream.buffStop - c.stream.rdNext)
                omega
              · exact ⟨Nat.zero_lt_succ 7, rfl, rfl⟩
          | skip =>
              cases h
              exact ⟨Nat.zero_lt_succ 7, rfl, rfl⟩
          | beginRecord =>
              cases h
              exact .of_open rfl rfl
          | mgmtRecord =>
              cases h
              exact ⟨Nat.zero_lt_succ 7, rfl, rfl⟩
          | error e =>
              rw [onStatus] at h
              split at h
              · next he =>
                  cases h
                  exact .of_errno rfl (errno_setError_ne_zero (by omega))
              · cases h

section Stages

variable {hdr : List UInt8} {c : Chan}

theorem refill_ahead (hc : Collecting hdr c) :
    (refill c).Holds (Collecting hdr) Chan.Ahead := by
  rw [refill]
  split
  · split
    · exact .of_errno hc.2.2 (errno_setError_ne_zero (readError_ne_zero _))
    · split
      · exact .of_errno hc.2.2 (errno_setError_ne_zero (by decide))
      · exact hc
  · exact hc

theorem passContent_ahead (hc : Collecting hdr c) :
    (passContent c).Holds (Collecting hdr) Chan.Ahead := by
  simp only [passContent]
  split
  · split
    · exact .of_open hc.2.2 hc.2.1
    · split <;> exact hc
  · exact hc

theorem passPadding_ahead (hc : Collecting hdr c) :
    (passPadding c).Holds (Collecting hdr) Chan.Ahead := by
  simp only [passPadding]
  split
  · split <;> exact hc
  · exact hc

theorem checkEor_ahead (hc : Collecting hdr c) :
    (checkEor c).Holds (Collecting hdr) Chan.Ahead := by
  rw [checkEor, if_neg (by rw [hc.2.2]; decide)]
  exact hc

end Stages

theorem fillBuffProc_ahead {c c' : Chan} (ho : c.stream.isClosed = false)
    (he : c.stream.eorStop = false) (h : fillBuffProc c = some c') : c'.Ahead := by
  have hstart : Collecting [] c := ⟨Nat.zero_lt_succ 7, ho, he⟩
  refine run_invariant (I := fun x : List UInt8 × Chan => Collecting x.1 x.2) (P := Chan.Ahead)
    (fun x p hx hp => ?_) hstart h
  exact fillBuffProcBody_rule (fun _ => refill_ahead) (fun _ => passContent_ahead)
    (fun _ => passPadding_ahead) (fun _ => checkEor_ahead) (fun _ => passHeader_ahead) hx hp

theorem ahead_readInvariant : ReadInvariant fillBuffProc Chan.Ahead where
  takeBytes m c hc := by
    refine ⟨hc.eorStop, fun hclosed herrno => ?_⟩
    have hpos := hc.rdNext_pos hclosed herrno
    exact Nat.add_pos_left hpos m
  setError c hc := .of_errno hc.eorStop (errno_setError_ne_zero (by decide))
  fill c c' ho hc h := by
    have hahead := fillBuffProc_ahead ho hc.eorStop h
    split
    · exact hahead
    · exact ⟨hahead.eorStop, hahead.rdNext_pos⟩

/-- A request is accepted with its input stream behind the header that has ended the
`FCGI_PARAMS` stream. -/
theorem acceptConnection_rdNext {r r' : Request} {s : Stream}
    (h : acceptConnection r = some (true, r')) (hs : r'.inStream = some s) :
    s.fcgiErrno = 0 → 0 < s.rdNext := by
  obtain ⟨params, c, hread, rfl⟩ := acceptConnection_ok h
  obtain rfl := Option.some.inj hs
  obtain ⟨res, c', hspec, -, hres⟩ := readRequest_spec (fresh_openReader r)
  rw [hread] at hspec
  obtain ⟨rfl, rfl⟩ := Prod.mk.inj (Option.some.inj hspec)
  have hclosed : c.Closed := by
    rcases hres with ⟨-, -, -, -, -, -, hclosed⟩ | ⟨hnone, -⟩
    · exact hclosed
    · cases hnone
  rw [readRequest] at hread
  split at hread
  · cases hread
  · split at hread
    · cases hread
    · split at hread
      · cases hread
      · rw [readEnvironment] at hread
        split at hread
        · cases hread
        · next hparams =>
            obtain rfl := (Prod.mk.inj (Option.some.inj hread)).2
            have hahead := ahead_readInvariant.readParams (.of_open rfl rfl) hparams
            exact hahead.rdNext_pos hclosed.isClosed

/-! ### Pushing bytes back -/

/-- At the start of the buffer of an open stream there is the mark, or something to
deliver. -/
def Chan.Marked (c : Chan) : Prop :=
  c.stream.isClosed = false → c.stream.rdNext = 0 → c.stream.stopUnget = 0 ∨ 0 < c.stream.stop

theorem marked_readInvariant : ReadInvariant fillBuffProc Chan.Marked where
  takeBytes m c hc ho hpos := hc ho (Nat.eq_zero_of_add_eq_zero_right hpos)
  setError c _ ho := nomatch ho
  fill c c' _ _ _ := by
    split
    · next hclosed => exact fun ho => by rw [hclosed] at ho; cases ho
    · exact fun _ hpos => .inl hpos

theorem ReadCall.perform_invariant {I : Chan → Prop} (hI : ReadInvariant fillBuffProc I)
    {call : ReadCall} {c c' : Chan} {bs : List UInt8} (hc : I c)
    (h : call.perform c = some (bs, c')) : I c' := by
  cases call with
  | getChar =>
      obtain ⟨⟨x, c₁⟩, hget, heq⟩ := Option.map_eq_some_iff.mp h
      obtain rfl : c₁ = c' := congrArg Prod.snd heq
      exact hI.getChar hc hget
  | getStr n => exact hI.getStr hc h

/-- A byte in front of what is delivered. -/
theorem Delivers.push {v e : View} {bs : List UInt8} (hs : v.skip = false)
    (hd : Delivers v bs e) (b : UInt8) :
    Delivers { v with input := b :: v.input, contentLen := v.contentLen + 1 } (b :: bs) e :=
  .byte (advance_ready ⟨Nat.succ_pos _, hs, List.cons_ne_nil _ _⟩) rfl hd

/-- Another byte in place of the first one. -/
theorem Delivers.replace {v e : View} {bs : List UInt8} (hr : v.Ready)
    (hd : Delivers v bs e) (b : UInt8) :
    ∃ bs', Delivers { v with input := b :: v.input.drop 1 } bs' e := by
  have hadv := advance_ready hr
  cases hd with
  | stop h =>
      rw [hadv] at h
      cases h
  | @byte _ _ _ x bs input h hb ht =>
      rw [hadv] at h
      cases h
      refine ⟨b :: bs, .byte (advance_ready ⟨hr.1, hr.2.1, List.cons_ne_nil _ _⟩) rfl ?_⟩
      have hview : ({ v with input := b :: v.input.drop 1 } : View).consume 1 = v.consume 1 := by
        simp [View.consume]
      rw [hview]
      exact ht

/-- An open stream, as it is between two calls of a client. -/
structure Chan.Readable (c : Chan) : Prop extends c.Open where
  eorStop : c.stream.eorStop = false
  skip : c.stream.skip = false

/-- An open stream that ends in view `e`. -/
structure Reading (e : View) (c : Chan) : Prop extends c.Readable where
  marked : c.Marked
  delivers : ∃ bs, Delivers c.view bs e

/-- The channel with `b` stored in front of `rdNext`. -/
def Chan.pushed (c : Chan) (b : UInt8) : Chan :=
  { c with stream := { c.stream with
      rdNext := c.stream.rdNext - 1, buff := store c.stream.buff (c.stream.rdNext - 1) [b] } }

theorem fcgxUnGetChar_cases (b : UInt8) (c : Chan) :
    (fcgxUnGetChar b c).2 = c ∨
      c.stream.isClosed = false ∧ c.stream.rdNext ≠ c.stream.stopUnget ∧
        (fcgxUnGetChar b c).2 = c.pushed b := by
  rw [fcgxUnGetChar]
  split
  · exact .inl rfl
  · next h =>
      refine .inr ⟨?_, ?_, rfl⟩
      · exact isClosed_of_readable fun hclosed => h (by simp_all)
      · exact fun heq => h (by simp [heq])

theorem unread_pushed (c : Chan) (b : UInt8) (hle : c.stream.rdNext - 1 < c.stream.buffStop) :
    (c.pushed b).unread =
      b :: slice c.stream.buff (c.stream.rdNext - 1 + 1)
        (c.stream.buffStop - (c.stream.rdNext - 1 + 1)) ++ c.os.incoming := by
  have hlen : c.stream.buffStop - (c.stream.rdNext - 1) =
      [b].length + (c.stream.buffStop - (c.stream.rdNext - 1 + 1)) := by
    rw [List.length_singleton]
    omega
  show slice (store c.stream.buff (c.stream.rdNext - 1) [b]) (c.stream.rdNext - 1)
    (c.stream.buffStop - (c.stream.rdNext - 1)) ++ c.os.incoming = _
  rw [hlen, slice_store_front]
  rfl

/-- Where a byte has been consumed from the buffer, the new one is put in front of the
bytes to come. -/
theorem view_pushed {c : Chan} (ho : c.Open) (b : UInt8) (hpos : 0 < c.stream.rdNext) :
    (c.pushed b).view =
      { c.view with input := b :: c.view.input, contentLen := c.view.contentLen + 1 } := by
  have hle := ho.rdNext_le
  have hstop := ho.rdNext_le_stop
  have hunread : (c.pushed b).unread = b :: c.unread := by
    rw [unread_pushed c b (by omega), Nat.sub_add_cancel hpos]
    rfl
  have hcontent : c.stream.contentLen + (c.stream.stop - (c.stream.rdNext - 1)) =
      c.stream.contentLen + (c.stream.stop - c.stream.rdNext) + 1 := by omega
  simp only [Chan.view, hunread]
  simp only [Chan.pushed, ho.isClosed, Bool.false_eq_true, if_false, hcontent]

/-- At the start of the buffer the new byte takes the place of the first one. -/
theorem view_pushed_start {c : Chan} (ho : c.Open) (b : UInt8) (hpos : c.stream.rdNext = 0)
    (hlt : 0 < c.stream.stop) :
    (c.pushed b).view = { c.view with input := b :: c.view.input.drop 1 } := by
  have hle := ho.stop_le
  have hunread : (c.pushed b).unread = b :: c.unread.drop 1 := by
    rw [unread_pushed c b (by omega), ← unread_moveNext (by omega), hpos]
    show _ = b :: (slice c.stream.buff (c.stream.rdNext + 1)
      (c.stream.buffStop - (c.stream.rdNext + 1)) ++ c.os.incoming)
    rw [hpos]
    rfl
  simp only [Chan.view, hunread]
  simp only [Chan.pushed, ho.isClosed, Bool.false_eq_true, if_false, hpos]

theorem Chan.Open.pushed {c : Chan} (ho : c.Open) (hs : c.stream.skip = false) (b : UInt8) :
    (c.pushed b).Open where
  isReader := ho.isReader
  rdNext_le := Nat.le_trans (Nat.sub_le _ _) ho.rdNext_le
  buffStop_le := ho.buffStop_le
  bufflen_pos := ho.bufflen_pos
  isClosed := ho.isClosed
  rdNext_le_stop := Nat.le_trans (Nat.sub_le _ _) ho.rdNext_le_stop
  stop_le := ho.stop_le
  deliver _ := hs

/-- `FCGX_UnGetChar` does not change where the stream ends. -/
theorem Reading.unGetChar {e : View} {c : Chan} (h : Reading e c) (b : UInt8) :
    Reading e (fcgxUnGetChar b c).2 := by
  rcases fcgxUnGetChar_cases b c with heq | ⟨hopen, hmark, heq⟩
  · rw [heq]
    exact h
  · rw [heq]
    obtain ⟨bs, hd⟩ := h.delivers
    refine ⟨⟨h.toOpen.pushed h.skip b, h.eorStop, h.skip⟩, ?_, ?_⟩
    · intro _ hpos
      have hstop := h.rdNext_le_stop
      rcases Nat.eq_zero_or_pos c.stream.rdNext with hzero | hlt
      · exact h.marked hopen hzero
      · exact .inr (Nat.lt_of_lt_of_le hlt hstop)
    · rcases Nat.eq_zero_or_pos c.stream.rdNext with hzero | hlt
      · -- the mark is not at the start of the buffer, so there is something to deliver
        have hstop : 0 < c.stream.stop := by
          rcases h.marked hopen hzero with hunget | hlt
          · exact absurd (hzero.trans hunget.symm) hmark
          · exact hlt
        have hready : c.view.Ready := by
          have hle := h.stop_le
          have hlen := le_length_unread c
          refine ⟨?_, h.skip, ?_⟩
          · simp only [Chan.view, h.isClosed, Bool.false_eq_true, if_false]
            omega
          · intro hnil
            have hunread : c.unread.length = 0 := congrArg List.length hnil
            omega
        rw [view_pushed_start h.toOpen b hzero hstop]
        exact hd.replace hready b
      · rw [view_pushed h.toOpen b hlt]
        exact ⟨_, hd.push h.skip b⟩

/-! ### Calls on the input stream -/

/-- The calls a filter makes on its input stream. -/
inductive InputCall where
  | read (call : ReadCall)
  | unGetChar (b : UInt8)
  | startFilterData
  deriving DecidableEq

/-- A call of `FCGX_StartFilterData`: the stream before it, and what it returns. -/
structure FilterStart where
  chan : Chan
  rc : ℤ

/-- The stream after a call, and the call if it is one of `FCGX_StartFilterData`. -/
def InputCall.perform : InputCall → Chan → Option (List FilterStart × Chan)
  | .read call, c => (call.perform c).map fun x => ([], x.2)
  | .unGetChar b, c => some ([], (fcgxUnGetChar b c).2)
  | .startFilterData, c => some ([⟨c, (fcgxStartFilterData c).1⟩], (fcgxStartFilterData c).2)

/-- The calls of `FCGX_StartFilterData` among those of a sequence, and the stream after
them. -/
def performInput : List InputCall → Chan → Option (List FilterStart × Chan)
  | [], c => some ([], c)
  | call :: calls, c =>
      match call.perform c with
      | none => none
      | some (starts, c) => (performInput calls c).map fun x => (starts ++ x.1, x.2)

/-- A request that `FCGX_StartFilterData` is for. -/
structure Chan.Filters (c : Chan) : Prop where
  isBeginProcessed : c.req.isBeginProcessed = true
  role : c.req.role = fcgiFilter

theorem Chan.Filters.kept {c c' : Chan} (h : c.Filters) (hk : c.req.Kept c'.req) : c'.Filters := by
  obtain ⟨n, hreq⟩ := hk.begun h.isBeginProcessed
  exact ⟨by rw [hreq]; exact h.isBeginProcessed, by rw [hreq]; exact h.role⟩

/-- A stream on which no more `FCGX_StartFilterData` should succeed: it has failed, or it is
at `FCGI_DATA` already. -/
structure Chan.Spent (c : Chan) : Prop where
  usable : c.Readable ∨ c.Closed
  never : c.stream.fcgiErrno ≠ 0 ∨ c.stream.type = fcgiData

/-- Where the input stream of a filter is, when its `FCGI_STDIN` stream ends in view `e`. -/
inductive Phase (e : View) (c : Chan) : Prop
  | reading (h : Reading e c)
  | ended (h : c.Closed) (hview : c.view = e) (herrno : e.errno = 0)
  | spent (h : c.Spent)

theorem Phase.buffered {e : View} {c : Chan} (h : Phase e c) : c.Buffered := by
  cases h with
  | reading h => exact h.toBuffered
  | ended h _ _ => exact h.toBuffered
  | spent h => exact h.usable.elim (·.toBuffered) (·.toBuffered)

/-- One call, on a stream that can be read from. -/
theorem Chan.Readable.perform {c : Chan} (h : c.Readable) {bs : List UInt8} {e : View}
    (hd : Delivers c.view bs e) (call : ReadCall) :
    ∃ xs c', call.perform c = some (xs, c') ∧
      (c'.Readable ∧ (∃ bs', Delivers c'.view bs' e) ∨ c'.Closed ∧ c'.view = e) := by
  obtain ⟨⟨xs, c'⟩, hcall, ⟨hlen, -, ho, hr⟩ | ⟨-, -, hclosed, hview⟩⟩ :=
    call.perform_spec h.toOpen h.eorStop hd
  · refine ⟨xs, c', hcall, .inl ⟨⟨ho, hr.eorStop.trans h.eorStop, hr.skip_eq h.skip⟩, ?_⟩⟩
    exact ⟨_, hr.rest (by rwa [List.take_append_drop])⟩
  · exact ⟨xs, c', hcall, .inr ⟨hclosed, hview⟩⟩

theorem Chan.Spent.read {c : Chan} (h : c.Spent) (hf : c.Filters) (call : ReadCall) :
    ∃ xs c', call.perform c = some (xs, c') ∧ c'.Spent := by
  have hnever : ∀ {xs c'}, call.perform c = some (xs, c') →
      c'.stream.fcgiErrno ≠ 0 ∨ c'.stream.type = fcgiData := by
    intro xs c' hcall
    have hkept := ReadCall.perform_kept hcall
    exact h.never.imp hkept.errno hkept.type.trans
  rcases h.usable with ho | hclosed
  · obtain ⟨bs, e, hd⟩ := delivers_total (v := c.view) hf.isBeginProcessed
    obtain ⟨xs, c', hcall, hend⟩ := ho.perform hd call
    exact ⟨xs, c', hcall, hend.imp And.left And.left, hnever hcall⟩
  · exact ⟨[], c, ReadCall.perform_closed hclosed.isClosed call, .inr hclosed, h.never⟩

theorem Chan.Spent.unGetChar {c : Chan} (h : c.Spent) (b : UInt8) :
    (fcgxUnGetChar b c).2.Spent := by
  rcases fcgxUnGetChar_cases b c with heq | ⟨hopen, -, heq⟩
  · rw [heq]
    exact h
  · rw [heq]
    refine ⟨.inl ?_, h.never⟩
    rcases h.usable with ho | hclosed
    · exact ⟨ho.toOpen.pushed ho.skip b, ho.eorStop, ho.skip⟩
    · rw [hclosed.isClosed] at hopen
      cases hopen

/-- After `FCGX_StartFilterData`, whatever it returned. -/
theorem spent_startFilterData {c : Chan} (h : c.Buffered) : (fcgxStartFilterData c).2.Spent := by
  rw [fcgxStartFilterData]
  split
  · exact ⟨.inr (h.closed_setError (by decide)), .inl (errno_setError_ne_zero (by decide))⟩
  · exact ⟨.inl ⟨open_setReaderType h fcgiData, rfl, rfl⟩, .inr rfl⟩

/-- One call. -/
theorem Phase.perform {e : View} {c : Chan} (h : Phase e c) (hf : c.Filters) (call : InputCall) :
    ∃ starts c', call.perform c = some (starts, c') ∧ Phase e c' ∧ c'.Filters ∧
      ∀ s ∈ starts, s = ⟨c, (fcgxStartFilterData c).1⟩ := by
  cases call with
  | read call =>
      suffices hread : ∃ xs c', call.perform c = some (xs, c') ∧ Phase e c' by
        obtain ⟨xs, c', hcall, hphase⟩ := hread
        refine ⟨[], c', by rw [InputCall.perform, hcall]; rfl, hphase, ?_, fun _ hs => nomatch hs⟩
        exact hf.kept (ReadCall.perform_kept hcall).req
      cases h with
      | reading h =>
          obtain ⟨bs, hd⟩ := h.delivers
          obtain ⟨xs, c', hcall, hend⟩ := h.toReadable.perform hd call
          refine ⟨xs, c', hcall, ?_⟩
          rcases hend with ⟨ho, hd'⟩ | ⟨hclosed, hview⟩
          · exact .reading
              ⟨ho, ReadCall.perform_invariant marked_readInvariant h.marked hcall, hd'⟩
          · by_cases herrno : e.errno = 0
            · exact .ended hclosed hview herrno
            · rw [← hview] at herrno
              exact .spent ⟨.inr hclosed, .inl herrno⟩
      | ended hclosed hview herrno =>
          exact ⟨[], c, ReadCall.perform_closed hclosed.isClosed call,
            .ended hclosed hview herrno⟩
      | spent h =>
          obtain ⟨xs, c', hcall, hspent⟩ := h.read hf call
          exact ⟨xs, c', hcall, .spent hspent⟩
  | unGetChar b =>
      refine ⟨[], _, rfl, ?_, ?_, fun _ hs => nomatch hs⟩
      · cases h with
        | reading h => exact .reading (h.unGetChar b)
        | ended hclosed hview herrno =>
            rcases fcgxUnGetChar_cases b c with heq | ⟨hopen, -, -⟩
            · rw [heq]
              exact .ended hclosed hview herrno
            · rw [hclosed.isClosed] at hopen
              cases hopen
        | spent h => exact .spent (h.unGetChar b)
      · apply hf.kept
        rcases fcgxUnGetChar_cases b c with heq | ⟨-, -, heq⟩ <;>
          · rw [heq]
            exact .refl _
  | startFilterData =>
      refine ⟨_, _, rfl, .spent (spent_startFilterData h.buffered), ?_, fun s hs => ?_⟩
      · apply hf.kept
        rw [fcgxStartFilterData]
        split <;> exact .refl _
      · exact List.mem_singleton.mp hs

/-- A sequence of calls. -/
theorem Phase.performInput {e : View} {c : Chan} (h : Phase e c) (hf : c.Filters)
    (calls : List InputCall) :
    ∃ starts c', performInput calls c = some (starts, c') ∧
      ∀ s ∈ starts, Phase e s.chan ∧ s.chan.Filters ∧ s.rc = (fcgxStartFilterData s.chan).1 := by
  induction calls generalizing c with
  | nil => exact ⟨[], c, rfl, fun _ hs => nomatch hs⟩
  | cons call calls ih =>
      obtain ⟨starts, c₁, hcall, h₁, hf₁, hstarts⟩ := h.perform hf call
      obtain ⟨starts', c', hcalls, hstarts'⟩ := ih h₁ hf₁
      refine ⟨starts ++ starts', c', by rw [FastCgi.performInput, hcall]; simp [hcalls], ?_⟩
      intro s hs
      rcases List.mem_append.mp hs with hs | hs
      · obtain rfl := hstarts s hs
        exact ⟨h, hf, rfl⟩
      · exact hstarts' s hs

/-! ### When `FCGX_StartFilterData` succeeds -/

/-- The stream is a `FCGI_STDIN` stream that an error has closed. -/
def Chan.StdinFailed (c : Chan) : Prop :=
  c.stream.isClosed = true ∧ c.stream.type = fcgiStdin ∧ c.stream.fcgiErrno ≠ 0

theorem startFilterData_eq_zero {c : Chan} (hf : c.Filters) (hr : c.stream.isReader = true) :
    (fcgxStartFilterData c).1 = 0 ↔ c.stream.isClosed = true ∧ c.stream.type = fcgiStdin := by
  have hrole := hf.role
  rw [fcgxStartFilterData]
  split
  · next hfail =>
      refine ⟨fun h => absurd (show (-1 : ℤ) = 0 from h) (by decide), fun hfailed => ?_⟩
      obtain ⟨hclosed, htype⟩ := hfailed
      simp [hrole, hr, hclosed, htype] at hfail
  · next hok =>
      refine ⟨fun _ => ?_, fun _ => rfl⟩
      simp only [hrole, hr, ne_eq, not_true_eq_false, decide_false, Bool.not_true, Bool.false_or,
        Bool.or_eq_true, Bool.not_eq_true', decide_eq_true_eq, not_or, not_not,
        Bool.not_eq_false] at hok
      exact hok

/-- On a stream that is spent it succeeds only where `FCGI_STDIN` has failed. -/
theorem Chan.Spent.rc_ne_zero {c : Chan} (h : c.Spent) (hf : c.Filters) (hg : ¬c.StdinFailed) :
    (fcgxStartFilterData c).1 ≠ 0 := by
  intro hrc
  have hr : c.stream.isReader = true := h.usable.elim (·.isReader) (·.isReader)
  obtain ⟨hclosed, htype⟩ := (startFilterData_eq_zero hf hr).mp hrc
  rcases h.never with herrno | hdata
  · exact hg ⟨hclosed, htype, herrno⟩
  · exact absurd (hdata.symm.trans htype) (by decide)

theorem Chan.Spent.perform {c c' : Chan} {call : InputCall} {starts : List FilterStart}
    (h : c.Spent) (hf : c.Filters) (hcall : call.perform c = some (starts, c')) : c'.Spent := by
  cases call with
  | read call =>
      obtain ⟨xs, c₁, hread, hspent⟩ := h.read hf call
      rw [InputCall.perform, hread] at hcall
      obtain rfl := congrArg Prod.snd (Option.some.inj hcall)
      exact hspent
  | unGetChar b =>
      obtain rfl := congrArg Prod.snd (Option.some.inj hcall)
      exact h.unGetChar b
  | startFilterData =>
      obtain rfl := congrArg Prod.snd (Option.some.inj hcall)
      exact spent_startFilterData (h.usable.elim (·.toBuffered) (·.toBuffered))

theorem performInput_cons {call : InputCall} {calls : List InputCall} {c c' : Chan}
    {starts : List FilterStart} (h : performInput (call :: calls) c = some (starts, c')) :
    ∃ first c₁ later, call.perform c = some (first, c₁) ∧
      performInput calls c₁ = some (later, c') ∧ starts = first ++ later := by
  rw [performInput] at h
  split at h
  · cases h
  · next first c₁ hcall =>
      obtain ⟨⟨later, c₂⟩, hcalls, heq⟩ := Option.map_eq_some_iff.mp h
      cases heq
      exact ⟨first, c₁, later, hcall, hcalls, rfl⟩

theorem Chan.Spent.performInput {c c' : Chan} {calls : List InputCall} {starts : List FilterStart}
    (h : c.Spent) (hf : c.Filters) (hcalls : performInput calls c = some (starts, c'))
    (hg : ∀ s ∈ starts, ¬s.chan.StdinFailed) : ∀ s ∈ starts, s.rc ≠ 0 := by
  induction calls generalizing c starts with
  | nil =>
      cases hcalls
      exact fun _ hs => nomatch hs
  | cons call calls ih =>
      obtain ⟨first, c₁, later, hcall, hlater, rfl⟩ := performInput_cons hcalls
      obtain ⟨first', c₁', hcall', -, hf₁, hfirst⟩ := (Phase.spent (e := c.view) h).perform hf call
      rw [hcall] at hcall'
      cases hcall'
      intro s hs
      rcases List.mem_append.mp hs with hs' | hs'
      · have hgood := hg s hs
        obtain rfl := hfirst s hs'
        exact h.rc_ne_zero hf hgood
      · exact ih (h.perform hf hcall) hf₁ hlater
          (fun s hs => hg s (List.mem_append_right first hs)) s hs'

/-- After one call of `FCGX_StartFilterData`, no other one succeeds. -/
theorem Phase.once {e : View} {c c' : Chan} {calls : List InputCall} {starts : List FilterStart}
    (h : Phase e c) (hf : c.Filters) (hcalls : FastCgi.performInput calls c = some (starts, c'))
    (hg : ∀ s ∈ starts, ¬s.chan.StdinFailed) : starts.Pairwise fun _ s' => s'.rc ≠ 0 := by
  induction calls generalizing c starts with
  | nil =>
      cases hcalls
      exact .nil
  | cons call calls ih =>
      obtain ⟨first, c₁, later, hcall, hlater, rfl⟩ := performInput_cons hcalls
      obtain ⟨first', c₁', hcall', h₁, hf₁, -⟩ := h.perform hf call
      rw [hcall] at hcall'
      cases hcall'
      have hg' : ∀ s ∈ later, ¬s.chan.StdinFailed :=
        fun s hs => hg s (List.mem_append_right first hs)
      have hpairs := ih h₁ hf₁ hlater hg'
      cases call with
      | read call =>
          obtain ⟨x, -, heq⟩ := Option.map_eq_some_iff.mp hcall
          obtain rfl := congrArg Prod.fst heq
          exact hpairs
      | unGetChar b =>
          obtain rfl := congrArg Prod.fst (Option.some.inj hcall)
          exact hpairs
      | startFilterData =>
          obtain rfl := congrArg Prod.fst (Option.some.inj hcall)
          obtain rfl := congrArg Prod.snd (Option.some.inj hcall)
          have hspent := spent_startFilterData h.buffered
          exact List.pairwise_cons.mpr ⟨hspent.performInput hf₁ hlater hg', hpairs⟩

/-- The empty `FCGI_STDIN` record of the request is among what the reader has consumed
since it was `start`. -/
def StdinEnded (start c : Chan) : Prop :=
  ∃ rs header rest, start.unread = encodeAll rs ++ (Header.bytes header ++ rest) ∧
    header.Ends fcgiStdin start.req.requestId ∧ c.unread <:+ rest

/-- What `FCGX_StartFilterData` promises of the calls on a stream that was `start`. -/
structure SoundStarts (start : Chan) (starts : List FilterStart) : Prop where
  /-- It succeeds at the end of `FCGI_STDIN` only, and without an error. -/
  atEnd : ∀ s ∈ starts, s.rc = 0 → s.chan.stream.fcgiErrno = 0 ∧ StdinEnded start s.chan
  /-- Where it has failed it succeeds only once that end has been reached since. -/
  afterFailure : starts.Pairwise fun s s' =>
    s.rc = -1 → s'.rc = 0 → StdinEnded start s'.chan ∧ ¬StdinEnded start s.chan

/-- The input stream of an accepted request starts in one of the phases. -/
theorem phase_accepted {r r' : Request} {s : Stream} (h : acceptConnection r = some (true, r'))
    (hs : r'.inStream = some s) :
    ∃ bs e, Delivers (r'.chan s).view bs e ∧ Phase e (r'.chan s) := by
  have hat := acceptConnection_atStdin h hs
  obtain ⟨bs, e, hd⟩ := delivers_total (v := (r'.chan s).view) hat.isBeginProcessed
  have hreadable : (r'.chan s).Readable := ⟨hat.toBetween.toOpen, hat.eorStop, hat.skip⟩
  refine ⟨bs, e, hd, ?_⟩
  by_cases herrno : s.fcgiErrno = 0
  · have hpos := acceptConnection_rdNext h hs herrno
    refine .reading ⟨hreadable, fun _ hzero => ?_, bs, hd⟩
    exact absurd (show s.rdNext = 0 from hzero) (by omega)
  · exact .spent ⟨.inl hreadable, .inl herrno⟩

/-- **`FCGX_StartFilterData` and the end of `FCGI_STDIN`.** For an accepted filter request,
whatever the wire and the chunks, every sequence of calls returns, and the promise is kept
exactly where `FCGX_StartFilterData` is not called on a `FCGI_STDIN` stream that an error
has closed. -/
theorem startFilterData_sound_iff {lib : Bool} {pending rest : List Connection} {r r' : Request}
    {s : Stream} (h : fcgxAcceptR lib pending r = some (0, r', rest))
    (hrole : r'.req.role = fcgiFilter) (hs : r'.inStream = some s) (calls : List InputCall) :
    ∃ starts c, performInput calls (r'.chan s) = some (starts, c) ∧
      (SoundStarts (r'.chan s) starts ↔ ∀ x ∈ starts, ¬x.chan.StdinFailed) := by
  obtain ⟨r₁, -, hacc⟩ := fcgxAcceptR_ok h
  have hat := acceptConnection_atStdin hacc hs
  obtain ⟨bs, e, hd, hphase⟩ := phase_accepted hacc hs
  have hf : (r'.chan s).Filters := ⟨hat.isBeginProcessed, hrole⟩
  obtain ⟨starts, c, hcalls, hstarts⟩ := hphase.performInput hf calls
  refine ⟨starts, c, hcalls, fun hsound x hx hfailed => ?_, fun hg => ⟨fun x hx hrc => ?_, ?_⟩⟩
  · obtain ⟨hph, hfx, hrc⟩ := hstarts x hx
    have hzero := (startFilterData_eq_zero hfx hph.buffered.isReader).mpr ⟨hfailed.1, hfailed.2.1⟩
    exact hfailed.2.2 (hsound.atEnd x hx (hrc.trans hzero)).1
  · obtain ⟨hph, hfx, hrc'⟩ := hstarts x hx
    have hzero := (startFilterData_eq_zero hfx hph.buffered.isReader).mp (hrc'.symm.trans hrc)
    have herrno : x.chan.stream.fcgiErrno = 0 := by
      by_contra hne
      exact hg x hx ⟨hzero.1, hzero.2, hne⟩
    refine ⟨herrno, ?_⟩
    cases hph with
    | reading h =>
        rw [h.isClosed] at hzero
        cases hzero.1
    | spent h => exact absurd (hrc'.symm.trans hrc) (h.rc_ne_zero hfx (hg x hx))
    | ended _ hview herrno =>
        have hb := hat.toAtBoundary.view_boundary
        have htype : (r'.chan s).view.type = fcgiStdin := hat.type
        rw [Chan.view_facing] at hd
        obtain ⟨rs, header, hwire, hends⟩ := ends_of_errno hb hat.isBeginProcessed
          (by rw [htype]; decide) hat.requestId hd herrno
        rw [htype] at hends
        have hunread : x.chan.unread = e.input := congrArg View.input hview
        exact ⟨rs, header, e.input, hwire, hends, by rw [hunread]⟩
  · have hpairs := hphase.once hf hcalls hg
    exact hpairs.imp fun hne _ hrc => absurd hrc hne

/-- A filter request with two bytes of `FCGI_STDIN`. -/
def filterWire : List UInt8 :=
  encodeAll
    [shortRecord fcgiBeginRequest 1 [0, 3, 0, 0, 0, 0, 0, 0] (by decide),
      shortRecord fcgiParams 1 [] nil_content_le, shortRecord fcgiStdin 1 [65, 66] twoBytes_le,
      shortRecord fcgiStdin 1 [] nil_content_le, shortRecord fcgiData 1 [] nil_content_le]

theorem startFilterData_sound_iff_two :
    ∃ r' s, fcgxAcceptR true [.ok (.sending filterWire [4, 9] [])] idleRequest = some (0, r', []) ∧
      r'.inStream = some s ∧
      ∃ starts c, performInput [.read .getChar, .unGetChar 67, .read (.getStr 9), .startFilterData,
          .read .getChar, .startFilterData] (r'.chan s) = some (starts, c) ∧
        (SoundStarts (r'.chan s) starts ↔ ∀ x ∈ starts, ¬x.chan.StdinFailed) := by
  have hrun : (fcgxAcceptR true [.ok (.sending filterWire [4, 9] [])] idleRequest).map
      (fun x => (x.1, x.2.1.req.role, x.2.1.inStream.isSome, x.2.2.length)) =
      some (0, fcgiFilter, true, 0) := by decide +kernel
  obtain ⟨⟨rc, r', rest⟩, hacc, hval⟩ := Option.map_eq_some_iff.mp hrun
  simp only [Prod.mk.injEq, List.length_eq_zero_iff] at hval
  obtain ⟨rfl, hrole, hin, rfl⟩ := hval
  obtain ⟨s, hs⟩ := Option.isSome_iff_exists.mp hin
  exact ⟨r', s, hacc, hs, startFilterData_sound_iff hacc hrole hs _⟩

/-- `FCGX_StartFilterData` is called twice before anything has been read: the first call
fails, and by that closes the stream; the second one succeeds. -/
theorem startFilterData_after_failure :
    ∃ r' s, fcgxAcceptR true [.ok (.sending filterWire [] [])] idleRequest = some (0, r', []) ∧
      r'.req.role = fcgiFilter ∧ r'.inStream = some s ∧
      ∃ starts c, performInput [.startFilterData, .startFilterData] (r'.chan s) =
          some (starts, c) ∧
        starts.map FilterStart.rc = [-1, 0] ∧ ¬SoundStarts (r'.chan s) starts := by
  have hrun : ((fcgxAcceptR true [.ok (.sending filterWire [] [])] idleRequest).bind fun x =>
      x.2.1.inStream.bind fun s =>
        (performInput [.startFilterData, .startFilterData] (x.2.1.chan s)).map fun y =>
          ((x.1, x.2.1.req.role, x.2.2.length),
            y.1.map fun z => (z.rc, z.chan.stream.fcgiErrno))) =
      some ((0, fcgiFilter, 0), [((-1 : ℤ), (0 : ℤ)), (0, fcgxCallSeqError)]) := by
    decide +kernel
  obtain ⟨⟨rc, r', rest⟩, hacc, hval⟩ := Option.bind_eq_some_iff.mp hrun
  obtain ⟨s, hs, hval⟩ := Option.bind_eq_some_iff.mp hval
  obtain ⟨⟨starts, c⟩, hcalls, hval⟩ := Option.map_eq_some_iff.mp hval
  obtain ⟨hresult, hstarts⟩ := Prod.mk.inj hval
  simp only [Prod.mk.injEq, List.length_eq_zero_iff] at hresult
  obtain ⟨rfl, hrole, rfl⟩ := hresult
  have hrcs := congrArg (List.map Prod.fst) hstarts
  rw [List.map_map] at hrcs
  refine ⟨r', s, hacc, hrole, hs, starts, c, hcalls, hrcs, fun hsound => ?_⟩
  -- the second call succeeds with `FCGI_errno` set
  have hsecond : ((0 : ℤ), fcgxCallSeqError) ∈
      starts.map fun z => (z.rc, z.chan.stream.fcgiErrno) := by
    rw [hstarts]
    exact List.mem_cons_of_mem _ (List.mem_singleton.mpr rfl)
  obtain ⟨y, hy, hyval⟩ := List.mem_map.mp hsecond
  obtain ⟨hrc, herrno⟩ := Prod.mk.inj hyval
  exact absurd (herrno.symm.trans (hsound.atEnd y hy hrc).1) (by decide)

end FastCgi
