import FastCgi.App.ByteCalls

/-!
Writing to a stream after an `OS_Write` has failed.

`SetError` closes the stream "so that writes have no effect", but the
functions that put bytes look at `isClosed` only where the buffer has no
room. A flush that fails leaves `wrNext` behind the record that it made. Of
a full buffer that is the end of the buffer, and everything put later is
refused; only `FCGX_FFlush` flushes a buffer that is not full
(`refuses_iff`).
-/

namespace FastCgi

open ByteMem BoundedLoop Machine

/-- `FCGX_PutS`. -/
def fcgxPutS (str : CString) (c : Chan) : Option (ℤ × Chan) := fcgxPutStr str.bytes c

/-! ### The claim on a stream -/

/-- A call on the stream. What happens to the connection and to the request data between two
calls, through the other streams, is left open. -/
def CallSteps (s : Stream) (call : StreamCall) (s' : Stream) : Prop :=
  ∃ req os c', call.perform ⟨s, req, os⟩ = some c' ∧ c'.stream = s'

/-- A call in which an `OS_Write` returns -1. -/
def FailingCall (s : Stream) (call : StreamCall) (s' : Stream) : Prop :=
  ∃ req os c' log, call.perform ⟨s, req, os⟩ = some c' ∧ c'.stream = s' ∧
    c'.os.log = os.log ++ log ∧ ∃ x ∈ log, x.wrote < 0

/-- The bytes of a stream and how many of them are in use. -/
def Stream.SameBytes (s s' : Stream) : Prop := s'.buff = s.buff ∧ s'.wrNext = s.wrNext

/-- Everything that is put is refused. -/
structure Stream.Refuses (s : Stream) : Prop where
  putChar : ∀ b req os, ∃ c, fcgxPutChar b ⟨s, req, os⟩ = some (false, c) ∧ s.SameBytes c.stream
  putStr : ∀ str req os, str ≠ [] →
    ∃ c, fcgxPutStr str ⟨s, req, os⟩ = some (-1, c) ∧ s.SameBytes c.stream
  putS : ∀ (str : CString) req os, str.bytes ≠ [] →
    ∃ c, fcgxPutS str ⟨s, req, os⟩ = some (-1, c) ∧ s.SameBytes c.stream

/-! ### A closed stream without room -/

/-- A closed writer whose buffer has no room. -/
structure Stream.Shut (s : Stream) : Prop where
  isReader : s.isReader = false
  isClosed : s.isClosed = true
  full : s.wrNext = s.stop

theorem Stream.Shut.putChar {s : Stream} (h : s.Shut) (b : UInt8) (req : ReqData) (os : Os) :
    fcgxPutChar b ⟨s, req, os⟩ = some (false, ⟨s, req, os⟩) := by
  simp [fcgxPutChar, h.full, h.isClosed]

theorem Stream.Shut.putStr {s : Stream} (h : s.Shut) {str : List UInt8} (hstr : str ≠ [])
    (req : ReqData) (os : Os) : fcgxPutStr str ⟨s, req, os⟩ = some (-1, ⟨s, req, os⟩) := by
  have hlen : ¬str.length ≤ s.stop - s.wrNext := by
    rw [h.full, Nat.sub_self, Nat.le_zero, List.length_eq_zero_iff]
    exact hstr
  rw [fcgxPutStr, if_neg hlen]
  exact run_done (by simp [putStrBody, putStrEmpty, h.full, h.isClosed])

theorem Stream.Shut.refuses {s : Stream} (h : s.Shut) : s.Refuses where
  putChar b req os := ⟨_, h.putChar b req os, rfl, rfl⟩
  putStr _ req os hstr := ⟨_, h.putStr hstr req os, rfl, rfl⟩
  putS _ req os hstr := ⟨_, h.putStr hstr req os, rfl, rfl⟩

/-- A stream that refuses one byte has no room. -/
theorem Stream.Refuses.full {s : Stream} (h : s.Refuses) (req : ReqData) (os : Os) :
    s.wrNext = s.stop := by
  by_contra hroom
  obtain ⟨c, hput, -⟩ := h.putChar 0 req os
  rw [fcgxPutChar, if_pos hroom] at hput
  cases hput

theorem closeStream_shut {s : Stream} (h : s.isReader = false) : (closeStream s).Shut := by
  rw [closeStream, if_neg (by simp [h])]
  exact ⟨h, rfl, rfl⟩

theorem closeStream_isReader (s : Stream) : (closeStream s).isReader = s.isReader := by
  unfold closeStream
  split <;> rfl

/-- `FCGX_FClose` leaves no room, if it has not been called before. -/
theorem fcgxFClose_shut {c c' : Chan} {rc : ℤ} (h : c.stream.IsWriter)
    (hopen : c.stream.wasFCloseCalled = false) (hclose : fcgxFClose c = some (rc, c')) :
    c'.stream.Shut := by
  obtain ⟨z, c'', hclose', hwriter, -⟩ := fcgxFClose_grows h
  rw [hclose] at hclose'
  cases hclose'
  rw [fcgxFClose, if_neg (by simp [hopen])] at hclose
  split at hclose
  · cases hclose
  · next d hd =>
      cases hclose
      rw [closeChan] at hd
      split at hd
      · cases hd
      · next d' hd' =>
          cases hd
          apply closeStream_shut
          rw [← closeStream_isReader]
          exact hwriter.isReader

/-- No call on the stream gives it room again. -/
theorem Stream.Shut.step {s s' : Stream} {call : StreamCall} (h : s.Shut) (hw : s.IsWriter)
    (hstep : CallSteps s call s') : s'.Shut := by
  obtain ⟨req, os, c', hcall, rfl⟩ := hstep
  cases call with
  | read call =>
      obtain ⟨⟨bs, c₁⟩, hread, rfl⟩ := Option.map_eq_some_iff.mp hcall
      rw [ReadCall.perform_closed h.isClosed] at hread
      cases hread
      exact h
  | unGetChar b =>
      obtain rfl := Option.some.inj hcall
      rw [fcgxUnGetChar, if_pos (by simp [h.isClosed])]
      exact h
  | write call =>
      cases call with
      | putChar b =>
          rw [StreamCall.perform, ClientCall.perform, h.putChar] at hcall
          cases hcall
          exact h
      | putStr str =>
          by_cases hstr : str = []
          · rw [hstr, StreamCall.perform, ClientCall.perform, fcgxPutStr,
              if_pos (by exact Nat.zero_le _), Chan.put_nil] at hcall
            cases hcall
            exact h
          · rw [StreamCall.perform, ClientCall.perform, h.putStr hstr] at hcall
            cases hcall
            exact h
      | fflush =>
          rw [StreamCall.perform, ClientCall.perform, fcgxFFlush, if_pos (by simp [h.isClosed])]
            at hcall
          cases hcall
          exact h
      | fclose =>
          obtain ⟨⟨rc, c₁⟩, hclose, rfl⟩ := Option.map_eq_some_iff.mp hcall
          cases hf : s.wasFCloseCalled with
          | true =>
              rw [fcgxFClose, if_pos (by exact hf)] at hclose
              cases hclose
              exact h
          | false => exact fcgxFClose_shut hw hf hclose
  | startFilterData =>
      obtain rfl := Option.some.inj hcall
      rw [fcgxStartFilterData, if_pos (by simp [h.isReader])]
      exact ⟨h.isReader, rfl, h.full⟩
  | clearError =>
      obtain rfl := Option.some.inj hcall
      exact ⟨h.isReader, h.isClosed, h.full⟩

/-! ### Flushing -/

/-- A writer that puts the application's bytes: only while it is being closed does it put
raw ones. -/
structure Stream.Plain (s : Stream) : Prop extends s.IsWriter where
  rawWrite : s.isClosed = false → s.rawWrite = false

theorem encapsulate_frame (c : Chan) :
    (encapsulate c).os = c.os ∧ (encapsulate c).stream.isClosed = c.stream.isClosed ∧
      (encapsulate c).stream.stop = c.stream.stop ∧
      (encapsulate c).stream.isReader = c.stream.isReader ∧
      (encapsulate c).stream.rawWrite = c.stream.rawWrite := by
  unfold encapsulate
  split
  · exact ⟨rfl, rfl, rfl, rfl, rfl⟩
  · split <;> exact ⟨rfl, rfl, rfl, rfl, rfl⟩

/-- Where the record ends that is made of what has been put. -/
def Stream.recordEnd (s : Stream) : ℕ := s.wrNext + (alignInt8 (s.wrNext - 8) - (s.wrNext - 8))

theorem encapsulate_wrNext {c : Chan} (hraw : c.stream.rawWrite = false) :
    (encapsulate c).stream.wrNext = if 8 < c.stream.wrNext then c.stream.recordEnd else 0 := by
  rw [encapsulate, if_neg (by simp [hraw])]
  show (if 8 < c.stream.wrNext then _ else _ : Chan).stream.wrNext = _
  split
  · show c.stream.wrNext + (List.replicate _ _).length = _
    rw [List.length_replicate]
    rfl
  · rfl

/-- **A flush** sends what is there, or it closes the stream behind the record that it made. -/
theorem emptyBuffProc_cases {c : Chan} (hraw : c.stream.rawWrite = false) :
    ((emptyBuffProc c).stream.isClosed = c.stream.isClosed ∧
        (emptyBuffProc c).stream.rawWrite = false ∧ ∃ bs, c.os.Sent (emptyBuffProc c).os bs) ∨
      (emptyBuffProc c).stream.isClosed = true ∧ 8 < c.stream.wrNext ∧
        (emptyBuffProc c).stream.wrNext = c.stream.recordEnd ∧
        (emptyBuffProc c).stream.stop = c.stream.stop ∧
        (emptyBuffProc c).stream.isReader = c.stream.isReader := by
  obtain ⟨hos, hclosed, hstop, hreader, hraw'⟩ := encapsulate_frame c
  have hnext := encapsulate_wrNext hraw
  by_cases hcontent : 8 < c.stream.wrNext
  · rw [if_pos hcontent] at hnext
    rcases flushBuff_spec (encapsulate c) with ⟨os', hfl, hsent⟩ | ⟨e, os', hfl, -⟩
    · rw [emptyBuffProc, hfl]
      rw [hos] at hsent
      exact .inl ⟨hclosed, hraw'.trans hraw, _, hsent⟩
    · rw [emptyBuffProc, hfl]
      exact .inr ⟨rfl, hcontent, hnext, hstop, hreader⟩
  · -- nothing has been put, so nothing is written
    rw [if_neg hcontent] at hnext
    rw [emptyBuffProc, flushBuff, if_neg (by simp [hnext]), reserveHeader,
      if_neg (by simp [hraw', hraw])]
    refine .inl ⟨hclosed, hraw'.trans hraw, [], ?_⟩
    show c.os.Sent (encapsulate c).os []
    rw [hos]
    exact .refl _

/-- The record ends where the buffer does if there was no room for eight more bytes. -/
theorem Stream.IsWriter.recordEnd_eq_iff {s : Stream} (h : s.IsWriter)
    (hopen : s.wasFCloseCalled = false) (hcontent : 8 < s.wrNext) :
    s.recordEnd = s.stop ↔ s.stop - s.wrNext < 8 := by
  have hle := h.wrNext_le
  have hstop := h.stop_eq hopen
  have hmod := h.bufflen_mod
  unfold Stream.recordEnd alignInt8
  omega

/-- Where `c` can be led: the stream is open and no write has failed, or it is shut. -/
def Chan.OpenOrShut (c c' : Chan) : Prop :=
  c'.stream.Plain ∧ (c'.stream.isClosed = false ∧ (∃ bs, c.os.Sent c'.os bs) ∨ c'.stream.Shut)

theorem fcgxPutChar_openOrShut {c c' : Chan} {b : UInt8} {ok : Bool} (h : c.stream.Plain)
    (hopen : c.stream.isClosed = false) (hput : fcgxPutChar b c = some (ok, c')) :
    c.OpenOrShut c' ∧ (ok = true → c'.stream.isClosed = false) := by
  have hle := h.wrNext_le
  have hraw := h.rawWrite hopen
  rw [fcgxPutChar] at hput
  split at hput
  · next hroom =>
      cases hput
      have hwriter : (c.put [b]).stream.IsWriter := h.toIsWriter.put (by
        rw [List.length_singleton]
        omega)
      exact ⟨⟨⟨hwriter, h.rawWrite⟩, .inl ⟨hopen, [], .refl _⟩⟩, fun _ => hopen⟩
  · next hfull =>
      rw [not_not] at hfull
      rw [if_neg (by simp [hopen, h.isReader])] at hput
      have hf := h.wasFCloseCalled hopen
      have hgrows := emptyBuffProc_grows h.toIsWriter hf
      simp only at hput
      rcases emptyBuffProc_cases hraw with ⟨hopen', hraw', bs, hsent⟩ |
        ⟨hclosed', hcontent, hend, hstop, hreader⟩
      · have hlt := (emptyBuffProc_room h.toIsWriter hf).resolve_left (by simp [hopen', hopen])
        rw [if_pos (Nat.ne_of_lt hlt)] at hput
        cases hput
        have hwriter : ((emptyBuffProc c).put [b]).stream.IsWriter := hgrows.isWriter.put (by
          rw [List.length_singleton]
          omega)
        exact ⟨⟨⟨hwriter, fun _ => hraw'⟩, .inl ⟨hopen'.trans hopen, bs, hsent⟩⟩,
          fun _ => hopen'.trans hopen⟩
      · have hshut : (emptyBuffProc c).stream.wrNext = (emptyBuffProc c).stream.stop := by
          rw [hend, hstop]
          exact (h.recordEnd_eq_iff hf hcontent).mpr (by omega)
        rw [if_neg (by simp [hshut]), if_pos hclosed'] at hput
        cases hput
        refine ⟨⟨⟨hgrows.isWriter, fun ho => ?_⟩, .inr ⟨hreader.trans h.isReader, hclosed', hshut⟩⟩,
          fun hok => by cases hok⟩
        rw [hclosed'] at ho
        cases ho

theorem putChars_openOrShut {str : List UInt8} {c c' : Chan} {ok : Bool} (h : c.stream.Plain)
    (hopen : c.stream.isClosed = false) (hput : putChars str c = some (ok, c')) :
    c.OpenOrShut c' := by
  induction str generalizing c with
  | nil =>
      cases hput
      exact ⟨h, .inl ⟨hopen, [], .refl _⟩⟩
  | cons b str ih =>
      rw [putChars] at hput
      split at hput
      · cases hput
      · next hchar =>
          cases hput
          exact (fcgxPutChar_openOrShut h hopen hchar).1
      · next c₁ hchar =>
          obtain ⟨⟨hplain, hend⟩, hopen₁⟩ := fcgxPutChar_openOrShut h hopen hchar
          obtain ⟨hplain', hend'⟩ := ih hplain (hopen₁ rfl) hput
          refine ⟨hplain', ?_⟩
          rcases hend with ⟨-, bs, hsent⟩ | hshut
          · refine hend'.imp_left fun hopen' => ?_
            obtain ⟨ho, bs', hsent'⟩ := hopen'
            exact ⟨ho, _, hsent.trans hsent'⟩
          · rw [hshut.isClosed] at hopen₁
            cases hopen₁ rfl

/-! ### A closed stream -/

/-- What has been closed stays closed, and `OS_Write` is not called for it. -/
theorem fcgxPutChar_closed {c c' : Chan} {b : UInt8} {ok : Bool}
    (hclosed : c.stream.isClosed = true) (hput : fcgxPutChar b c = some (ok, c')) :
    c'.stream.isClosed = true ∧ c'.os = c.os := by
  rw [fcgxPutChar] at hput
  split at hput
  · cases hput
    exact ⟨hclosed, rfl⟩
  · rw [if_pos (by simp [hclosed])] at hput
    cases hput
    exact ⟨hclosed, rfl⟩

theorem putChars_stays {str : List UInt8} {c c' : Chan} {ok : Bool}
    (hclosed : c.stream.isClosed = true) (hput : putChars str c = some (ok, c')) :
    c'.stream.isClosed = true ∧ c'.os = c.os := by
  induction str generalizing c with
  | nil =>
      cases hput
      exact ⟨hclosed, rfl⟩
  | cons b str ih =>
      rw [putChars] at hput
      split at hput
      · cases hput
      · next hchar =>
          cases hput
          exact fcgxPutChar_closed hclosed hchar
      · next hchar =>
          obtain ⟨hclosed', hos⟩ := fcgxPutChar_closed hclosed hchar
          obtain ⟨hclosed'', hos'⟩ := ih hclosed' hput
          exact ⟨hclosed'', hos'.trans hos⟩

theorem Stream.IsWriter.plain_of_closed {s : Stream} (h : s.IsWriter)
    (hclosed : s.isClosed = true) : s.Plain :=
  ⟨h, fun hopen => by simp [hclosed] at hopen⟩

/-! ### One call -/

/-- A flush of `c` that failed, with `c'` behind the record that it made. -/
structure Chan.FlushFailed (c c' : Chan) : Prop where
  isClosed : c'.stream.isClosed = true
  content : 8 < c.stream.wrNext
  wrNext : c'.stream.wrNext = c.stream.recordEnd
  stop : c'.stream.stop = c.stream.stop
  isReader : c'.stream.isReader = false

theorem putChars_plain {c c' : Chan} {str : List UInt8} {ok : Bool} (h : c.stream.Plain)
    (hput : putChars str c = some (ok, c')) :
    c'.stream.Plain ∧ ((∃ bs, c.os.Sent c'.os bs) ∨ c'.stream.Shut) := by
  cases hclosed : c.stream.isClosed with
  | false =>
      obtain ⟨hplain, hend⟩ := putChars_openOrShut h hclosed hput
      exact ⟨hplain, hend.imp_left And.right⟩
  | true =>
      obtain ⟨hclosed', hos⟩ := putChars_stays hclosed hput
      obtain ⟨ok', c'', hput', hwriter, -⟩ := putChars_total h.toIsWriter str
      rw [hput] at hput'
      cases hput'
      refine ⟨hwriter.plain_of_closed hclosed', .inl ⟨[], ?_⟩⟩
      rw [hos]
      exact .refl _

theorem fcgxFFlush_plain {c : Chan} (h : c.stream.Plain) :
    (fcgxFFlush c).2.stream.Plain ∧
      ((∃ bs, c.os.Sent (fcgxFFlush c).2.os bs) ∨ c.stream.isClosed = false ∧
        c.FlushFailed (fcgxFFlush c).2) := by
  rw [fcgxFFlush]
  cases hclosed : c.stream.isClosed with
  | true => exact ⟨h, .inl ⟨[], .refl _⟩⟩
  | false =>
      rw [if_neg (by simp [h.isReader])]
      have hgrows := emptyBuffProc_grows h.toIsWriter (h.wasFCloseCalled hclosed)
      rcases emptyBuffProc_cases (h.rawWrite hclosed) with ⟨-, hraw, bs, hsent⟩ |
        ⟨hclosed', hcontent, hend, hstop, -⟩
      · exact ⟨⟨hgrows.isWriter, fun _ => hraw⟩, .inl ⟨bs, hsent⟩⟩
      · exact ⟨hgrows.isWriter.plain_of_closed hclosed',
          .inr ⟨rfl, hclosed', hcontent, hend, hstop, hgrows.isWriter.isReader⟩⟩

/-- **One call** on a writer. If an `OS_Write` fails in it, it leaves the stream without room,
or it is `FCGX_FFlush`. -/
theorem ClientCall.perform_plain {c c' : Chan} {call : ClientCall} (h : c.stream.Plain)
    (hcall : call.perform c = some c') :
    c'.stream.Plain ∧ ((∃ bs, c.os.Sent c'.os bs) ∨ call ≠ .fflush ∧ c'.stream.Shut ∨
      call = .fflush ∧ c.stream.isClosed = false ∧ c.FlushFailed c') := by
  cases call with
  | putChar b =>
      obtain ⟨⟨ok, c₁⟩, hput, rfl⟩ := Option.map_eq_some_iff.mp hcall
      have hone : putChars [b] c = some (ok, c₁) := by
        rw [putChars, hput]
        cases ok <;> rfl
      obtain ⟨hplain, hend⟩ := putChars_plain h hone
      exact ⟨hplain, hend.imp_right fun hshut => .inl ⟨by simp, hshut⟩⟩
  | putStr str =>
      obtain ⟨⟨n, c₁⟩, hput, rfl⟩ := Option.map_eq_some_iff.mp hcall
      obtain ⟨ok, c'', hchars, -, hput'⟩ := putChars_total h.toIsWriter str
      rw [hput] at hput'
      cases hput'
      obtain ⟨hplain, hend⟩ := putChars_plain h hchars
      exact ⟨hplain, hend.imp_right fun hshut => .inl ⟨by simp, hshut⟩⟩
  | fflush =>
      obtain rfl := Option.some.inj hcall
      obtain ⟨hplain, hend⟩ := fcgxFFlush_plain h
      exact ⟨hplain, hend.imp_right fun hfailed => .inr ⟨rfl, hfailed⟩⟩
  | fclose =>
      obtain ⟨⟨rc, c₁⟩, hclose, rfl⟩ := Option.map_eq_some_iff.mp hcall
      cases hf : c.stream.wasFCloseCalled with
      | true =>
          rw [fcgxFClose, if_pos hf] at hclose
          cases hclose
          exact ⟨h, .inl ⟨[], .refl _⟩⟩
      | false =>
          have hshut := fcgxFClose_shut h.toIsWriter hf hclose
          obtain ⟨z, c'', hclose', hwriter, -⟩ := fcgxFClose_grows h.toIsWriter
          rw [hclose] at hclose'
          cases hclose'
          exact ⟨hwriter.plain_of_closed hshut.isClosed, .inr (.inl ⟨by simp, hshut⟩)⟩

theorem StreamCall.perform_plain {c c' : Chan} {call : StreamCall} (h : c.stream.Plain)
    (hcall : call.perform c = some c') :
    c'.stream.Plain ∧ ((∃ bs, c.os.Sent c'.os bs) ∨ call ≠ .write .fflush ∧ c'.stream.Shut ∨
      call = .write .fflush ∧ c.stream.isClosed = false ∧ c.FlushFailed c') := by
  cases call with
  | read call =>
      obtain ⟨⟨bs, c₁⟩, hread, rfl⟩ := Option.map_eq_some_iff.mp hcall
      have hsame : c₁ = c := by
        cases call with
        | getChar => simp_all [ReadCall.perform, fcgxGetChar, h.isReader]
        | getStr n => simp_all [ReadCall.perform, fcgxGetStr, h.isReader]
      rw [hsame]
      exact ⟨h, .inl ⟨[], .refl _⟩⟩
  | unGetChar b =>
      obtain rfl := Option.some.inj hcall
      rw [fcgxUnGetChar, if_pos (by simp [h.isReader])]
      exact ⟨h, .inl ⟨[], .refl _⟩⟩
  | write call =>
      simpa using ClientCall.perform_plain h hcall
  | startFilterData =>
      obtain rfl := Option.some.inj hcall
      rw [fcgxStartFilterData, if_pos (by simp [h.isReader])]
      have hwriter : (c.setError fcgxCallSeqError).stream.IsWriter :=
        ⟨h.isReader, h.wrNext_le, h.stop_eq, fun _ => rfl, h.bufflen_mod, h.bufflen_ge,
          h.bufflen_le⟩
      exact ⟨hwriter.plain_of_closed rfl, .inl ⟨[], .refl _⟩⟩
  | clearError =>
      obtain rfl := Option.some.inj hcall
      have hwriter : (fcgxClearError c).stream.IsWriter :=
        ⟨h.isReader, h.wrNext_le, h.stop_eq, h.isClosed, h.bufflen_mod, h.bufflen_ge,
          h.bufflen_le⟩
      exact ⟨⟨hwriter, h.rawWrite⟩, .inl ⟨[], .refl _⟩⟩

/-! ### Runs -/

theorem CallSteps.plain {s s' : Stream} {call : StreamCall} (h : s.Plain)
    (hstep : CallSteps s call s') : s'.Plain := by
  obtain ⟨req, os, c', hcall, rfl⟩ := hstep
  exact (StreamCall.perform_plain (c := ⟨s, req, os⟩) h hcall).1

theorem plain_newStream (mBuff : ℕ) (stale : ℕ → UInt8) (bufflen : ℤ) (streamType : ℕ) :
    (newStream mBuff stale bufflen false streamType).Plain :=
  ⟨(holding_newStream mBuff stale bufflen streamType).toIsWriter, fun _ => rfl⟩

/-- In every later state of a stream that is shut, it is shut. -/
theorem Stream.Shut.runs {s t : Stream} {calls : List StreamCall} (h : s.Shut) (hs : s.Plain)
    (hrun : Runs CallSteps s calls t) : t.Shut := by
  have hboth : t.Shut ∧ t.Plain :=
    hrun.invariant (I := fun s => s.Shut ∧ s.Plain)
      (fun _ _ _ h hstep => ⟨h.1.step h.2.toIsWriter hstep, hstep.plain h.2⟩) ⟨h, hs⟩
  exact hboth.1

theorem Os.Sent.not_failed {os os' : Os} {bs : List UInt8} {log : List WriteCall}
    (h : os.Sent os' bs) (hlog : os'.log = os.log ++ log) : ¬∃ x ∈ log, x.wrote < 0 := by
  rintro ⟨x, hx, hneg⟩
  obtain ⟨log', hlog', hok, -, -⟩ := h
  rw [hlog, List.append_cancel_left_eq] at hlog'
  rw [hlog'] at hx
  have hle := hok x hx
  omega

/-- What a call leaves in which an `OS_Write` fails. -/
theorem FailingCall.cases {s s' : Stream} {call : StreamCall} (h : s.Plain)
    (hfail : FailingCall s call s') :
    s'.Plain ∧ (call ≠ .write .fflush ∧ s'.Shut ∨ call = .write .fflush ∧ s'.isClosed = true ∧
      (s'.wrNext = s'.stop ↔ s.stop - s.wrNext < 8)) := by
  obtain ⟨req, os, c', log, hcall, rfl, hlog, hneg⟩ := hfail
  obtain ⟨hplain, hend⟩ := StreamCall.perform_plain (c := ⟨s, req, os⟩) h hcall
  refine ⟨hplain, ?_⟩
  rcases hend with ⟨bs, hsent⟩ | hshut | ⟨rfl, hopen, hfailed⟩
  · exact absurd hneg (hsent.not_failed hlog)
  · exact .inl hshut
  · refine .inr ⟨rfl, hfailed.isClosed, ?_⟩
    rw [hfailed.wrNext, hfailed.stop]
    exact h.toIsWriter.recordEnd_eq_iff (h.wasFCloseCalled hopen) hfailed.content

/-- **Writes after a failure.** After a call on a stream that `NewStream` has made, in which an
`OS_Write` has failed, everything that is put is refused for ever, if and only if the call was
not an `FCGX_FFlush` of a buffer with room for eight more bytes. -/
theorem refuses_iff {mBuff : ℕ} {stale : ℕ → UInt8} {bufflen : ℤ} {streamType : ℕ}
    {before : List StreamCall} {s s' : Stream} {call : StreamCall}
    (hrun : Runs CallSteps (newStream mBuff stale bufflen false streamType) before s)
    (hfail : FailingCall s call s') :
    (∀ later t, Runs CallSteps s' later t → t.Refuses) ↔
      (call = .write .fflush → s.stop - s.wrNext < 8) := by
  have h : s.Plain :=
    hrun.invariant (fun _ _ _ h hstep => hstep.plain h) (plain_newStream ..)
  obtain ⟨hplain, hend⟩ := hfail.cases h
  constructor
  · rintro hall rfl
    obtain ⟨req, os, -⟩ := hfail
    have hfull : s'.wrNext = s'.stop := (hall [] s' .nil).full req os
    rcases hend with ⟨hcall, -⟩ | ⟨-, -, hiff⟩
    · exact absurd rfl hcall
    · exact hiff.mp hfull
  · intro hcond later t hlater
    have hshut : s'.Shut := by
      rcases hend with ⟨-, hshut⟩ | ⟨hcall, hclosed, hiff⟩
      · exact hshut
      · exact ⟨hplain.isReader, hclosed, hiff.mpr (hcond hcall)⟩
    exact (hshut.runs hplain hlater).refuses

/-- A new writer on a connection that takes nothing. -/
def brokenWriter : Chan := { narrowWriter with os := .sending [] [] [.fail epipe] }

theorem failingCall_of_log {c c' : Chan} {call : StreamCall} (hcall : call.perform c = some c')
    (hlog : c.os.log = []) (hfail : (c'.os.log.any fun x => x.wrote < 0) = true) :
    FailingCall c.stream call c'.stream := by
  refine ⟨c.req, c.os, c', c'.os.log, hcall, rfl, by rw [hlog, List.nil_append], ?_⟩
  simpa using hfail

/-- The buffer is full when the flush fails. -/
theorem refuses_iff_full :
    ∃ s s', Runs CallSteps (newStream 16 (fun _ => 0) 32 false fcgiStdout)
        [.write (.putStr (List.replicate 24 1))] s ∧ FailingCall s (.write (.putChar 2)) s' ∧
      ∀ later t, Runs CallSteps s' later t → t.Refuses := by
  have hends : ((StreamCall.write (.putStr (List.replicate 24 1))).perform brokenWriter).bind
      (fun c => ((StreamCall.write (.putChar 2)).perform c).map
        fun c' => (c.os.log, c'.os.log.any fun x => x.wrote < 0)) = some ([], true) := by
    decide +kernel
  obtain ⟨c, hfirst, hends⟩ := Option.bind_eq_some_iff.mp hends
  obtain ⟨c', hsecond, hlog⟩ := Option.map_eq_some_iff.mp hends
  obtain ⟨hempty, hneg⟩ := Prod.ext_iff.mp hlog
  have hrun : Runs CallSteps (newStream 16 (fun _ => 0) 32 false fcgiStdout)
      [.write (.putStr (List.replicate 24 1))] c.stream := .single ⟨_, _, c, hfirst, rfl⟩
  have hfail := failingCall_of_log hsecond hempty hneg
  exact ⟨_, _, hrun, hfail, (refuses_iff hrun hfail).mpr fun h => by cases h⟩

/-- After an `FCGX_FFlush` of one byte that failed, the next byte is put into the buffer. -/
theorem refuses_not_flushed :
    ¬∀ (s s' : Stream) (before later : List StreamCall) (call : StreamCall) (t : Stream),
      Runs CallSteps (newStream 16 (fun _ => 0) 32 false fcgiStdout) before s →
        FailingCall s call s' → Runs CallSteps s' later t → t.Refuses := by
  intro hall
  have hends : ((StreamCall.write (.putChar 65)).perform brokenWriter).bind
      (fun c => ((StreamCall.write .fflush).perform c).map
        fun c' => (c.os.log, (c'.os.log.any fun x => x.wrote < 0),
          c'.stream.wrNext, c'.stream.stop)) = some ([], true, 16, 32) := by
    decide +kernel
  obtain ⟨c, hfirst, hends⟩ := Option.bind_eq_some_iff.mp hends
  obtain ⟨c', hsecond, hlog⟩ := Option.map_eq_some_iff.mp hends
  simp only [Prod.mk.injEq] at hlog
  obtain ⟨hempty, hneg, hnext, hstop⟩ := hlog
  have hrefuses := hall c.stream c'.stream [.write (.putChar 65)] [] (.write .fflush) c'.stream
    (.single ⟨_, _, c, hfirst, rfl⟩) (failingCall_of_log hsecond hempty hneg) .nil
  have hfull := hrefuses.full c'.req c'.os
  omega

end FastCgi
