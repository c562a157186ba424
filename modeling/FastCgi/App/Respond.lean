import FastCgi.App.Accept
import FastCgi.App.WriterSpec

/-!
Whole responses: any interleaving of `FCGX_PutChar`, `FCGX_PutStr`,
`FCGX_FFlush` and `FCGX_FClose` on the two writers of an accepted request,
and `FCGX_Finish_r`.

Until the first `OS_Write` that fails, the request follows the relation
`Response` (`OnTrack`); from then on only what had gone out before is
known (`Derailed`). One call keeps this (`perform_step`), so every
sequence of calls does (`performWrites_state`).
-/

namespace FastCgi

open ByteMem

/-! ### Calls on the writers of a request -/

/-- The calls by which an application writes. -/
inductive ClientCall where
  | putChar (b : UInt8)
  | putStr (str : List UInt8)
  | fflush
  | fclose
  deriving DecidableEq, Repr

/-- The bytes a call puts. -/
def ClientCall.bytes : ClientCall → List UInt8
  | .putChar b => [b]
  | .putStr str => str
  | .fflush => []
  | .fclose => []

/-- The writer after a call. -/
def ClientCall.perform (call : ClientCall) (c : Chan) : Option Chan :=
  match call with
  | .putChar b => (fcgxPutChar b c).map Prod.snd
  | .putStr str => (fcgxPutStr str c).map Prod.snd
  | .fflush => some (fcgxFFlush c).2
  | .fclose => (fcgxFClose c).map Prod.snd

def Request.writer (r : Request) : Writer → Option Stream
  | .out => r.out
  | .err => r.err

/-- A stream of the request and what it refers to are put back. -/
def Request.putBack (r : Request) (w : Writer) (c : Chan) : Request :=
  match w with
  | .out => { r with out := some c.stream, req := c.req, os := c.os }
  | .err => { r with err := some c.stream, req := c.req, os := c.os }

def Request.perform (r : Request) (w : Writer) (call : ClientCall) : Option Request :=
  match r.writer w with
  | none => none
  | some s => (call.perform (r.chan s)).map (r.putBack w)

def performWrites : List (Writer × ClientCall) → Request → Option Request
  | [], r => some r
  | (w, call) :: calls, r =>
      match r.perform w call with
      | none => none
      | some r => performWrites calls r

/-- The calls of an application, and `FCGX_Finish_r`. -/
def respond (calls : List (Writer × ClientCall)) (r : Request) : Option Request :=
  match performWrites calls r with
  | none => none
  | some r => fcgxFinishR r

/-- The bytes put on a writer before it is closed. -/
def given (w : Writer) : List (Writer × ClientCall) → List UInt8
  | [] => []
  | (w', call) :: calls =>
      if w' = w then if call = .fclose then [] else call.bytes ++ given w calls
      else given w calls

@[simp] theorem Request.writer_putBack (r : Request) (w : Writer) (c : Chan) :
    (r.putBack w c).writer w = some c.stream := by cases w <;> rfl

theorem Request.writer_putBack_ne (r : Request) {w w' : Writer} (h : w' ≠ w) (c : Chan) :
    (r.putBack w c).writer w' = r.writer w' := by
  cases w <;> cases w' <;> first | rfl | exact absurd rfl h

@[simp] theorem Request.putBack_os (r : Request) (w : Writer) (c : Chan) :
    (r.putBack w c).os = c.os := by cases w <;> rfl

@[simp] theorem Request.putBack_req (r : Request) (w : Writer) (c : Chan) :
    (r.putBack w c).req = c.req := by cases w <;> rfl

@[simp] theorem Request.putBack_inStream (r : Request) (w : Writer) (c : Chan) :
    (r.putBack w c).inStream = r.inStream := by cases w <;> rfl

/-! ### One call on one writer -/

/-- Whatever has happened, a call returns and only adds to what went out. -/
theorem ClientCall.perform_grows {c : Chan} (h : c.stream.IsWriter) (call : ClientCall) :
    ∃ c', call.perform c = some c' ∧ c'.stream.IsWriter ∧ c.os.log <+: c'.os.log := by
  cases call with
  | putChar b =>
      obtain ⟨z, c', hput, hg⟩ := fcgxPutStr_grows h [b]
      obtain ⟨z', c'', hput', ok, hchar⟩ := fcgxPutChar_eq h b
      rw [hput] at hput'
      cases hput'
      exact ⟨c', by rw [ClientCall.perform, hchar]; rfl, hg.isWriter, hg.log⟩
  | putStr str =>
      obtain ⟨z, c', hput, hg⟩ := fcgxPutStr_grows h str
      exact ⟨c', by rw [ClientCall.perform, hput]; rfl, hg.isWriter, hg.log⟩
  | fflush =>
      rw [ClientCall.perform, fcgxFFlush]
      split
      · exact ⟨c, rfl, h, List.prefix_refl _⟩
      · next hopen =>
          have hc : c.stream.isClosed = false := by
            rw [h.isReader, Bool.or_false] at hopen
            exact Bool.eq_false_iff.mpr hopen
          have hg := emptyBuffProc_grows h (h.wasFCloseCalled hc)
          exact ⟨_, rfl, hg.isWriter, hg.log⟩
  | fclose =>
      obtain ⟨z, c', hclose, hw, hlog⟩ := fcgxFClose_grows h
      exact ⟨c', by rw [ClientCall.perform, hclose]; rfl, hw, hlog⟩

theorem Chan.put_nil (c : Chan) : c.put [] = c := by simp [Chan.put]

/-- A writer that has been closed does not change any more. -/
theorem ClientCall.perform_finished {c : Chan} (h : c.stream.Finished) (call : ClientCall) :
    call.perform c = some c := by
  have hclosed := h.isClosed h.wasFCloseCalled
  have hstr : ∀ str, ∃ z, fcgxPutStr str c = some (z, c) := by
    intro str
    by_cases hnil : str = []
    · exact ⟨0, by rw [hnil, fcgxPutStr, if_pos (by exact Nat.zero_le _), Chan.put_nil]; rfl⟩
    · have hslow : ¬str.length ≤ c.stream.stop - c.stream.wrNext := by
        rw [h.wrNext_eq, Nat.sub_self, Nat.le_zero, List.length_eq_zero_iff]
        exact hnil
      exact ⟨-1, by
        rw [fcgxPutStr, if_neg hslow]
        exact BoundedLoop.run_done (by simp [putStrBody, putStrEmpty, h.wrNext_eq, hclosed])⟩
  cases call with
  | putChar b => simp [ClientCall.perform, fcgxPutChar, h.wrNext_eq, hclosed]
  | putStr str =>
      obtain ⟨z, hput⟩ := hstr str
      rw [ClientCall.perform, hput]
      rfl
  | fflush => simp [ClientCall.perform, fcgxFFlush, hclosed]
  | fclose => simp [ClientCall.perform, fcgxFClose, h.wasFCloseCalled]

/-- A call that puts or flushes, on an open writer. -/
theorem ClientCall.perform_holding {c : Chan} {pending : List UInt8}
    (h : c.stream.Holding pending) (hf : c.Fits) {call : ClientCall} (hcall : call ≠ .fclose) :
    ∃ c' recs, call.perform c = some c' ∧ c'.stream.IsWriter ∧
      ContentRecords c.stream.type c.req.requestId recs ∧
      ((∃ p, contents recs ++ p = pending ++ call.bytes ∧ c.Wrote c' recs p) ∨
        contents recs <+: pending ++ call.bytes ∧ c.os.Cut c'.os (encodeAll recs)) := by
  cases call with
  | putChar b =>
      obtain ⟨z, c', recs, hput, hg, hrecs, hend⟩ := fcgxPutStr_holding h hf [b]
      obtain ⟨z', c'', hput', ok, hchar⟩ := fcgxPutChar_eq h.toIsWriter b
      rw [hput] at hput'
      cases hput'
      exact ⟨c', recs, by rw [ClientCall.perform, hchar]; rfl, hg.isWriter, hrecs, hend⟩
  | putStr str =>
      obtain ⟨z, c', recs, hput, hg, hrecs, hend⟩ := fcgxPutStr_holding h hf str
      exact ⟨c', recs, by rw [ClientCall.perform, hput]; rfl, hg.isWriter, hrecs, hend⟩
  | fflush =>
      obtain ⟨recs, ⟨hrecs, hcont, -, -⟩, hend⟩ := emptyBuffProc_holding h hf
      have hg := emptyBuffProc_grows h.toIsWriter (h.wasFCloseCalled h.isOpen)
      refine ⟨emptyBuffProc c, recs, ?_, hg.isWriter, hrecs, hend.imp ?_ ?_⟩
      · simp [ClientCall.perform, fcgxFFlush, h.isOpen, h.isReader]
      · exact fun hw => ⟨[], by simp [hcont, ClientCall.bytes], hw⟩
      · exact fun hcut => ⟨by simp [hcont, ClientCall.bytes], hcut⟩
  | fclose => exact absurd rfl hcall

/-! ### The request -/

/-- The writer `w`, on which `sent` has gone out and `pending` is held. -/
def WriterState (s : Stream) (w : Writer) (isOpen : Bool) (sent pending : List UInt8) : Prop :=
  s.type = w.type ∧
    if isOpen then s.Holding pending ∧ s.isAnythingWritten = decide (sent ≠ [])
    else s.Finished ∧ pending = []

/-- The number of open writers. -/
def openWriters (isOpen : Writer → Bool) : ℤ :=
  (if isOpen .out then 1 else 0) + if isOpen .err then 1 else 0

/-- Since `r₀` the records `recs` have gone out, and no `OS_Write` has failed. -/
structure OnTrack (r₀ r : Request) (recs : List Record) (sent pending : Writer → List UInt8)
    (isOpen : Writer → Bool) : Prop where
  response : Response r₀.req.requestId r₀.req.appStatus recs sent isOpen
  went : r₀.os.Sent r.os (encodeAll recs)
  req : r.req = { r₀.req with nWriters := openWriters isOpen }
  writer : ∀ w, ∃ s, r.writer w = some s ∧ WriterState s w (isOpen w) (sent w) (pending w)

/-- An `OS_Write` has failed, and before it a front part of a response went out
whose content is a front part of what was put. -/
structure Derailed (r₀ r : Request) (put : Writer → List UInt8) : Prop where
  cut : ∃ recs sent isOpen, Response r₀.req.requestId r₀.req.appStatus recs sent isOpen ∧
    (∀ w, sent w <+: put w) ∧ r₀.os.Cut r.os (encodeAll recs)
  writer : ∀ w, ∃ s, r.writer w = some s ∧ s.IsWriter

/-- What is known of a request since `r₀`, when `put` has been put on its writers
and those in `isOpen` have not been closed. -/
def Request.State (r₀ r : Request) (put : Writer → List UInt8) (isOpen : Writer → Bool) : Prop :=
  r.inStream = r₀.inStream ∧
    ((∃ recs sent pending, OnTrack r₀ r recs sent pending isOpen ∧
        ∀ w, sent w ++ pending w = put w) ∨
      Derailed r₀ r put)

/-- What has been put after a call. -/
def putAfter (put : Writer → List UInt8) (isOpen : Writer → Bool) (w : Writer)
    (call : ClientCall) : Writer → List UInt8 :=
  if isOpen w then Function.update put w (put w ++ call.bytes) else put

/-- Which writers are open after a call. -/
def openAfter (isOpen : Writer → Bool) (w : Writer) (call : ClientCall) : Writer → Bool :=
  if call = .fclose then Function.update isOpen w false else isOpen

theorem prefix_putAfter (put : Writer → List UInt8) (isOpen : Writer → Bool) (w w' : Writer)
    (call : ClientCall) : put w' <+: putAfter put isOpen w call w' := by
  unfold putAfter
  split
  · by_cases hw : w' = w
    · subst hw
      rw [Function.update_self]
      exact List.prefix_append _ _
    · rw [Function.update_of_ne hw]
  · exact List.prefix_refl _

/-- The writers other than the one that is called are not touched. -/
theorem OnTrack.writer_ne {r₀ r : Request} {recs : List Record} {sent pending : Writer → List UInt8}
    {isOpen : Writer → Bool} (h : OnTrack r₀ r recs sent pending isOpen) {w w' : Writer}
    (hne : w' ≠ w) (c : Chan) {sent' pending' : Writer → List UInt8} {isOpen' : Writer → Bool}
    (hsent : sent' w' = sent w') (hpending : pending' w' = pending w')
    (hopen : isOpen' w' = isOpen w') :
    ∃ s, (r.putBack w c).writer w' = some s ∧
      WriterState s w' (isOpen' w') (sent' w') (pending' w') := by
  rw [Request.writer_putBack_ne r hne, hsent, hpending, hopen]
  exact h.writer w'

theorem openWriters_update {isOpen : Writer → Bool} {w : Writer} (ho : isOpen w = true) :
    openWriters (Function.update isOpen w false) = openWriters isOpen - 1 ∧
      (openWriters isOpen = 1 ↔ isOpen w.other = false) := by
  cases w with
  | out =>
      cases herr : isOpen .err <;> simp [openWriters, Function.update, ho, herr, Writer.other]
  | err =>
      cases hout : isOpen .out <;> simp [openWriters, Function.update, ho, hout, Writer.other]

theorem Request.putBack_chan {r : Request} {w : Writer} {s : Stream} (h : r.writer w = some s) :
    r.putBack w (r.chan s) = r := by
  cases w with
  | out =>
      have h' : r.out = some s := h
      rw [Request.putBack, Request.chan, ← h']
  | err =>
      have h' : r.err = some s := h
      rw [Request.putBack, Request.chan, ← h']

section Step

variable {r₀ r : Request} {recs : List Record} {sent pending : Writer → List UInt8}
  {isOpen : Writer → Bool} {w : Writer} {s : Stream} {call : ClientCall}

/-- Whether there has been content, after some more. -/
theorem anything_append {type requestId : ℕ} {more : List Record} {anything : Bool}
    {content : List UInt8} (hmore : ContentRecords type requestId more)
    (h : anything = decide (content ≠ [])) :
    (anything || decide (more ≠ [])) = decide (content ++ contents more ≠ []) := by
  have hiff := hmore.eq_nil_iff
  rw [h]
  by_cases hc : content = []
  · simp [hc, hiff]
  · simp [hc]

/-- **One call on an open writer**: some records of its content go out, and those that end the
stream and the request where it is closed, or an `OS_Write` fails. -/
theorem ClientCall.perform_open {c : Chan} {pending : List UInt8}
    (hresp : Response c.req.requestId c.req.appStatus recs sent isOpen)
    (hcount : c.req.nWriters = openWriters isOpen) (hid : c.req.requestId < 65536)
    (ho : isOpen w = true) (hstate : WriterState c.stream w true (sent w) pending)
    (call : ClientCall) :
    ∃ c' more bs pending', call.perform c = some c' ∧
      Response c.req.requestId c.req.appStatus (recs ++ more)
        (Function.update sent w (sent w ++ bs)) (openAfter isOpen w call) ∧
      (c.os.Sent c'.os (encodeAll more) ∧
          c'.req = { c.req with nWriters := openWriters (openAfter isOpen w call) } ∧
          WriterState c'.stream w (openAfter isOpen w call w) (sent w ++ bs) pending' ∧
          bs ++ pending' = pending ++ call.bytes ∨
        c'.stream.IsWriter ∧ bs <+: pending ++ call.bytes ∧ c.os.Cut c'.os (encodeAll more)) := by
  obtain ⟨htype, hholding, hany⟩ := hstate
  have hf : c.Fits := ⟨htype ▸ w.type_lt, hid⟩
  by_cases hcall : call = .fclose
  · subst hcall
    obtain ⟨z, c', more, hclose, hw, ⟨hmore, hcont, -, -⟩, hend⟩ := fcgxFClose_holding hholding hf
    obtain ⟨hopen, hlast⟩ := openWriters_update ho
    -- the records of the closing call are those of the relation
    have hanything : (c.stream.isAnythingWritten || decide (more ≠ [])) =
        decide (sent w ++ contents more ≠ []) := anything_append hmore hany
    have hends : decide (openWriters isOpen = 1) = !isOpen w.other := by
      cases hother : isOpen w.other
      · simpa using hlast.mpr hother
      · simpa [hother] using mt hlast.mp
    have hnext := (hresp.content ho (htype ▸ hmore)).close ho
    rw [Function.update_self, List.append_assoc, List.append_assoc, ← List.append_assoc more] at hnext
    rw [hanything, hcount, htype, hends] at hend
    rw [openAfter, if_pos rfl]
    refine ⟨c', _, contents more, [], by rw [ClientCall.perform, hclose]; rfl, hnext,
      hend.imp ?_ ?_⟩
    · rintro ⟨hsent, hreq, hfin, htype'⟩
      refine ⟨hsent, by rw [hreq, hopen], ⟨htype', ?_⟩, ?_⟩
      · rw [Function.update_self, if_neg (by decide)]
        exact ⟨hfin, rfl⟩
      · rw [hcont, ClientCall.bytes]
    · intro hcut
      exact ⟨hw, by rw [hcont, ClientCall.bytes, List.append_nil], hcut⟩
  · obtain ⟨c', more, hperform, hw, hmore, hend⟩ := ClientCall.perform_holding hholding hf hcall
    rw [openAfter, if_neg hcall]
    have hnext := hresp.content ho (htype ▸ hmore)
    rcases hend with ⟨p, hp, hwrote⟩ | ⟨hp, hcut⟩
    · refine ⟨c', more, contents more, p, hperform, hnext, .inl ⟨hwrote.sent, ?_,
        ⟨hwrote.type.trans htype, ?_⟩, hp⟩⟩
      · rw [hwrote.req, ← hcount]
      · rw [if_pos ho]
        refine ⟨hwrote.holding, ?_⟩
        rw [hwrote.isAnythingWritten]
        exact anything_append hmore hany
    · exact ⟨c', more, contents more, [], hperform, hnext, .inr ⟨hw, hp, hcut⟩⟩

end Step

theorem openAfter_of_ne (isOpen : Writer → Bool) {w w' : Writer} (hne : w' ≠ w)
    (call : ClientCall) : openAfter isOpen w call w' = isOpen w' := by
  unfold openAfter
  split
  · exact Function.update_of_ne hne ..
  · rfl

/-- A call during which an `OS_Write` fails derails the request. -/
theorem OnTrack.derailed {r₀ r : Request} {recs : List Record} {sent pending : Writer → List UInt8}
    {isOpen : Writer → Bool} {w : Writer} {call : ClientCall} {put : Writer → List UInt8}
    (h : OnTrack r₀ r recs sent pending isOpen) (hput : ∀ w, sent w ++ pending w = put w)
    (ho : isOpen w = true) {c : Chan} {isOpen' : Writer → Bool} (hw : c.stream.IsWriter)
    {recs' : List Record} {bs : List UInt8}
    (hresp : Response r₀.req.requestId r₀.req.appStatus recs'
      (Function.update sent w (sent w ++ bs)) isOpen')
    (hpre : bs <+: pending w ++ call.bytes) (hcut : r₀.os.Cut c.os (encodeAll recs')) :
    Derailed r₀ (r.putBack w c) (putAfter put isOpen w call) := by
  refine ⟨⟨recs', _, isOpen', hresp, fun w' => ?_, by rwa [Request.putBack_os]⟩, fun w' => ?_⟩
  · by_cases hw' : w' = w
    · rw [hw', putAfter, if_pos ho, Function.update_self, Function.update_self, ← hput,
        List.append_assoc, List.prefix_append_right_inj]
      exact hpre
    · rw [putAfter, if_pos ho, Function.update_of_ne hw', Function.update_of_ne hw', ← hput]
      exact List.prefix_append _ _
  · by_cases hw' : w' = w
    · rw [hw']
      exact ⟨c.stream, Request.writer_putBack .., hw⟩
    · rw [Request.writer_putBack_ne r hw']
      obtain ⟨s', hs', -, hstate'⟩ := h.writer w'
      refine ⟨s', hs', ?_⟩
      split at hstate'
      · exact hstate'.1.toIsWriter
      · exact hstate'.1.toIsWriter

/-- What has been put is what has gone out and what is held, after a call as before it. -/
theorem sum_putAfter {sent pending put : Writer → List UInt8} {isOpen : Writer → Bool} {w : Writer}
    {call : ClientCall} {bs pending' : List UInt8} (hput : ∀ w, sent w ++ pending w = put w)
    (ho : isOpen w = true) (hsum : bs ++ pending' = pending w ++ call.bytes) (w' : Writer) :
    Function.update sent w (sent w ++ bs) w' ++ Function.update pending w pending' w' =
      putAfter put isOpen w call w' := by
  rw [putAfter, if_pos ho]
  by_cases hw' : w' = w
  · rw [hw', Function.update_self, Function.update_self, Function.update_self, List.append_assoc,
      hsum, ← List.append_assoc, hput]
  · rw [Function.update_of_ne hw', Function.update_of_ne hw', Function.update_of_ne hw', hput]

/-- One call on a request on track. -/
theorem OnTrack.perform_state {r₀ r : Request} {recs : List Record}
    {sent pending put : Writer → List UInt8} {isOpen : Writer → Bool}
    (hid : r₀.req.requestId < 65536) (h : OnTrack r₀ r recs sent pending isOpen)
    (hin : r.inStream = r₀.inStream) (hput : ∀ w, sent w ++ pending w = put w) (w : Writer)
    (call : ClientCall) :
    ∃ r', r.perform w call = some r' ∧
      r₀.State r' (putAfter put isOpen w call) (openAfter isOpen w call) := by
  obtain ⟨s, hs, hstate⟩ := h.writer w
  cases ho : isOpen w with
  | true =>
      have hreqId : (r.chan s).req.requestId = r₀.req.requestId := by rw [Request.chan, h.req]
      have happ : (r.chan s).req.appStatus = r₀.req.appStatus := by rw [Request.chan, h.req]
      have hcount : (r.chan s).req.nWriters = openWriters isOpen := by rw [Request.chan, h.req]
      obtain ⟨c, more, bs, pending', hperform, hresp, hend⟩ :=
        ClientCall.perform_open (c := r.chan s) (by rw [hreqId, happ]; exact h.response) hcount
          (by rwa [hreqId]) ho (ho ▸ hstate) call
      rw [hreqId, happ] at hresp
      refine ⟨r.putBack w c, by rw [Request.perform, hs]; simp [hperform],
        (Request.putBack_inStream ..).trans hin, ?_⟩
      rcases hend with ⟨hsent, hreq, hstate', hsum⟩ | ⟨hw, hpre, hcut⟩
      · refine .inl ⟨_, _, Function.update pending w pending', ⟨hresp, ?_, ?_, fun w' => ?_⟩,
          sum_putAfter hput ho hsum⟩
        · rw [encodeAll_append, Request.putBack_os]
          exact h.went.trans hsent
        · rw [Request.putBack_req, hreq, Request.chan, h.req]
        · by_cases hw' : w' = w
          · subst hw'
            refine ⟨c.stream, Request.writer_putBack .., ?_⟩
            rw [Function.update_self, Function.update_self]
            exact hstate'
          · exact h.writer_ne hw' c (Function.update_of_ne hw' ..) (Function.update_of_ne hw' ..)
              (openAfter_of_ne isOpen hw' call)
      · refine .inr (h.derailed hput ho hw hresp hpre ?_)
        rw [encodeAll_append]
        exact h.went.cut hcut
  | false =>
      obtain ⟨htype, hstate⟩ := hstate
      rw [ho, if_neg (by decide)] at hstate
      have hopen : openAfter isOpen w call = isOpen := by
        unfold openAfter
        split
        · rw [← ho, Function.update_eq_self]
        · rfl
      refine ⟨r, ?_, hin, .inl ⟨recs, sent, pending, by rwa [hopen], ?_⟩⟩
      · rw [Request.perform, hs]
        simp [ClientCall.perform_finished (c := r.chan s) hstate.1, Request.putBack_chan hs]
      · rw [putAfter, if_neg (by simp [ho])]
        exact hput

/-- One call on a request that has been derailed. -/
theorem Derailed.perform {r₀ r : Request} {put : Writer → List UInt8} (isOpen : Writer → Bool)
    (h : Derailed r₀ r put) (w : Writer) (call : ClientCall) :
    ∃ r', r.perform w call = some r' ∧ r'.inStream = r.inStream ∧
      Derailed r₀ r' (putAfter put isOpen w call) := by
  obtain ⟨s, hs, hw⟩ := h.writer w
  obtain ⟨c, hperform, hw', hlog⟩ := ClientCall.perform_grows (c := r.chan s) hw call
  obtain ⟨recs, sent, isOpen', hresp, hpre, hcut⟩ := h.cut
  refine ⟨r.putBack w c, by rw [Request.perform, hs]; simp [hperform],
    Request.putBack_inStream .., ⟨recs, sent, isOpen', hresp, ?_, ?_⟩, fun w' => ?_⟩
  · exact fun w' => (hpre w').trans (prefix_putAfter put isOpen w w' call)
  · rw [Request.putBack_os]
    exact hcut.grow hlog
  · by_cases hw'' : w' = w
    · rw [hw'']
      exact ⟨c.stream, Request.writer_putBack .., hw'⟩
    · rw [Request.writer_putBack_ne r hw'']
      exact h.writer w'

/-- **One call** keeps what is known of a request. -/
theorem perform_state {r₀ r : Request} {put : Writer → List UInt8} {isOpen : Writer → Bool}
    (hid : r₀.req.requestId < 65536) (h : r₀.State r put isOpen) (w : Writer)
    (call : ClientCall) :
    ∃ r', r.perform w call = some r' ∧
      r₀.State r' (putAfter put isOpen w call) (openAfter isOpen w call) := by
  obtain ⟨hin, ⟨recs, sent, pending, htrack, hput⟩ | hder⟩ := h
  · exact htrack.perform_state hid hin hput w call
  · obtain ⟨r', hr', hin', hder'⟩ := hder.perform isOpen w call
    exact ⟨r', hr', hin'.trans hin, .inr hder'⟩

/-- **Any sequence of calls.** -/
theorem performWrites_state {r₀ r : Request} {put : Writer → List UInt8} {isOpen : Writer → Bool}
    (hid : r₀.req.requestId < 65536) (h : r₀.State r put isOpen)
    (calls : List (Writer × ClientCall)) :
    ∃ r' put' isOpen', performWrites calls r = some r' ∧ r₀.State r' put' isOpen' ∧
      ∀ w, put' w = put w ++ if isOpen w then given w calls else [] := by
  induction calls generalizing r put isOpen with
  | nil => exact ⟨r, put, isOpen, rfl, h, fun w => by simp [given]⟩
  | cons x calls ih =>
      obtain ⟨w, call⟩ := x
      obtain ⟨r₁, hr₁, h₁⟩ := perform_state hid h w call
      obtain ⟨r', put', isOpen', hr', h', hput⟩ := ih h₁
      refine ⟨r', put', isOpen', by rw [performWrites, hr₁]; exact hr', h', fun w' => ?_⟩
      rw [hput w', given]
      by_cases hw : w = w'
      · subst hw
        rw [if_pos rfl]
        cases ho : isOpen w with
        | true =>
            rw [putAfter, if_pos ho, Function.update_self, if_pos rfl]
            by_cases hcall : call = .fclose
            · subst hcall
              simp [openAfter, ClientCall.bytes]
            · rw [openAfter, if_neg hcall, if_neg hcall, ho, if_pos rfl, List.append_assoc]
        | false =>
            have hclosed : openAfter isOpen w call w = false := by
              unfold openAfter
              split
              · exact Function.update_self ..
              · exact ho
            simp [putAfter, ho, hclosed]
      · rw [if_neg hw]
        have hsame := openAfter_of_ne isOpen (Ne.symm hw) call
        have hput' : putAfter put isOpen w call w' = put w' := by
          unfold putAfter
          split
          · exact Function.update_of_ne (Ne.symm hw) ..
          · rfl
        rw [hsame, hput']

/-! ### Finishing -/

theorem closeErr_of_perform {r r' : Request} (h : r.perform .err .fclose = some r') :
    ∃ rc, closeErr r = some (rc, r') := by
  unfold Request.perform Request.writer at h
  unfold closeErr
  cases herr : r.err with
  | none => simp [herr] at h
  | some s =>
      rw [herr] at h
      cases hclose : fcgxFClose (r.chan s) with
      | none => simp [ClientCall.perform, hclose] at h
      | some x =>
          simp only [ClientCall.perform, hclose, Option.map_some, Option.some.injEq] at h
          subst h
          exact ⟨x.1, by simp [fcgxFCloseOpt, hclose, Request.putBack]⟩

theorem closeOut_of_perform {r r' : Request} (h : r.perform .out .fclose = some r') :
    ∃ rc, closeOut r = some (rc, r') := by
  unfold Request.perform Request.writer at h
  unfold closeOut
  cases hout : r.out with
  | none => simp [hout] at h
  | some s =>
      rw [hout] at h
      cases hclose : fcgxFClose (r.chan s) with
      | none => simp [ClientCall.perform, hclose] at h
      | some x =>
          simp only [ClientCall.perform, hclose, Option.map_some, Option.some.injEq] at h
          subst h
          exact ⟨x.1, by simp [fcgxFCloseOpt, hclose, Request.putBack]⟩

/-- `FCGX_Finish_r` closes both writers. -/
theorem fcgxFinishR_state {r₀ r : Request} {put : Writer → List UInt8} {isOpen : Writer → Bool}
    (hid : r₀.req.requestId < 65536) (hin : r₀.inStream ≠ none) (h : r₀.State r put isOpen) :
    ∃ r' r'', fcgxFinishR r = some r' ∧ r'.os = r''.os ∧ r₀.State r'' put fun _ => false := by
  have hkeep : ∀ (put : Writer → List UInt8) (isOpen : Writer → Bool) (w : Writer),
      putAfter put isOpen w .fclose = put := by
    intro put isOpen w
    unfold putAfter
    split
    · simp [ClientCall.bytes, Function.update_eq_self]
    · rfl
  obtain ⟨r₁, hr₁, h₁⟩ := perform_state hid h .err .fclose
  obtain ⟨r₂, hr₂, h₂⟩ := perform_state hid h₁ .out .fclose
  obtain ⟨rc, herr⟩ := closeErr_of_perform hr₁
  obtain ⟨rc', hout⟩ := closeOut_of_perform hr₂
  rw [hkeep, hkeep] at h₂
  have hboth : openAfter (openAfter isOpen .err .fclose) .out .fclose = fun _ => false := by
    funext w
    cases w <;> simp [openAfter, Function.update]
  rw [hboth] at h₂
  have hin' : r.inStream ≠ none := h.1 ▸ hin
  obtain ⟨s, hs⟩ := Option.ne_none_iff_exists'.mp hin'
  refine ⟨fcgxFree r₂ (!r.req.keepConnection || rc ≠ 0 || rc' ≠ 0 || s.fcgiErrno ≠ 0), r₂, ?_, rfl,
    h₂⟩
  simp only [fcgxFinishR, hs, herr, hout]

/-! ### Accepted requests -/

/-- A writer that `NewWriter` has made. -/
theorem holding_newStream (mBuff : ℕ) (stale : ℕ → UInt8) (bufflen : ℤ) (streamType : ℕ) :
    (newStream mBuff stale bufflen false streamType).Holding [] := by
  have hn : 32 ≤ (min (max bufflen 32) 65536).toNat := by omega
  have hn' : (min (max bufflen 32) 65536).toNat ≤ 65536 := by omega
  have hlen : ∃ len, len % 8 = 0 ∧ 24 ≤ len ∧ len ≤ 65536 ∧
      (newStream mBuff stale bufflen false streamType).bufflen = len := by
    refine ⟨_, ?_, ?_, ?_, rfl⟩ <;>
      simp only [newStream, alignInt8, fcgiMaxLength] <;> split <;> omega
  obtain ⟨len, hmod, hge, hle, hbufflen⟩ := hlen
  refine ⟨⟨rfl, ?_, fun _ => rfl, (fun hf => by cases hf), ?_, ?_, ?_⟩, rfl, rfl, rfl, rfl⟩
  · show 8 ≤ (newStream mBuff stale bufflen false streamType).bufflen
    omega
  · rw [hbufflen, hmod]
  · rw [hbufflen]
    exact hge
  · rw [hbufflen]
    exact hle

/-- A request that has just been built. -/
theorem state_buildRequest (r : Request) (c : Chan) (params : Params) :
    (buildRequest r c params).State (buildRequest r c params) (fun _ => []) fun _ => true := by
  refine ⟨rfl, .inl ⟨[], fun _ => [], fun _ => [], ⟨.start, .refl _, rfl, fun w => ?_⟩,
    fun _ => rfl⟩⟩
  cases w with
  | out => exact ⟨_, rfl, rfl, holding_newStream .., rfl⟩
  | err => exact ⟨_, rfl, rfl, holding_newStream .., rfl⟩

/-- **Any response** of a request on which nothing has been put yet: it is complete, or it is cut
where the first `OS_Write` fails. -/
theorem respond_of_state {r₀ : Request} (h : r₀.State r₀ (fun _ => []) fun _ => true)
    (hid : r₀.req.requestId < 65536) (hin : r₀.inStream ≠ none)
    (calls : List (Writer × ClientCall)) :
    ∃ r', respond calls r₀ = some r' ∧
      ((∃ recs sent isOpen, Response r₀.req.requestId r₀.req.appStatus recs sent isOpen ∧
          (∀ w, isOpen w = false) ∧ (∀ w, sent w = given w calls) ∧
          r₀.os.Sent r'.os (encodeAll recs)) ∨
        ∃ recs sent isOpen, Response r₀.req.requestId r₀.req.appStatus recs sent isOpen ∧
          (∀ w, sent w <+: given w calls) ∧ r₀.os.Cut r'.os (encodeAll recs)) := by
  obtain ⟨r₁, put, isOpen, hcalls, h₁, hput⟩ := performWrites_state hid h calls
  obtain ⟨r', r₂, hfin, hos, -, hend⟩ := fcgxFinishR_state hid hin h₁
  refine ⟨r', by rw [respond, hcalls]; exact hfin, ?_⟩
  simp only [List.nil_append, if_true] at hput
  rw [hos]
  rcases hend with ⟨recs, sent, pending, htrack, hsum⟩ | hder
  · refine .inl ⟨recs, sent, _, htrack.response, fun _ => rfl, fun w => ?_, htrack.went⟩
    obtain ⟨s, -, -, hstate⟩ := htrack.writer w
    rw [if_neg (by decide)] at hstate
    rw [← hput, ← hsum, hstate.2, List.append_nil]
  · obtain ⟨recs, sent, isOpen', hresp, hpre, hcut⟩ := hder.cut
    exact .inr ⟨recs, sent, isOpen', hresp, fun w => hput w ▸ hpre w, hcut⟩

/-- The response to an accepted request. -/
theorem respond_spec {r r₀ : Request} (h : acceptConnection r = some (true, r₀))
    (calls : List (Writer × ClientCall)) :
    ∃ r', respond calls r₀ = some r' ∧
      ((∃ recs sent isOpen, Response r₀.req.requestId r₀.req.appStatus recs sent isOpen ∧
          (∀ w, isOpen w = false) ∧ (∀ w, sent w = given w calls) ∧
          r₀.os.Sent r'.os (encodeAll recs)) ∨
        ∃ recs sent isOpen, Response r₀.req.requestId r₀.req.appStatus recs sent isOpen ∧
          (∀ w, sent w <+: given w calls) ∧ r₀.os.Cut r'.os (encodeAll recs)) := by
  have hid := acceptConnection_requestId h
  obtain ⟨params, c, -, rfl⟩ := acceptConnection_ok h
  exact respond_of_state (state_buildRequest r c params) hid (Option.some_ne_none _) calls

/-! ### Responses whose writes do not fail -/

/-- **Framing.** When no `OS_Write` fails, what any sequence of calls on the writers
of an accepted request and `FCGX_Finish_r` send is a well-framed response. -/
theorem respond_wellFramed {lib : Bool} {pending rest : List Connection} {r r₀ : Request}
    (h : fcgxAcceptR lib pending r = some (0, r₀, rest)) (hwrites : r₀.os.NeverFails)
    (calls : List (Writer × ClientCall)) :
    ∃ r' log recs, respond calls r₀ = some r' ∧ r'.os.log = r₀.os.log ++ log ∧
      accepted log = encodeAll recs ∧
      WellFramed r₀.req.requestId r₀.req.appStatus (fun w => given w calls) recs := by
  obtain ⟨r₁, -, hacc⟩ := fcgxAcceptR_ok h
  obtain ⟨r', hresp, ⟨recs, sent, isOpen, hrecs, hclosed, hsent, hgone⟩ | hcut⟩ :=
    respond_spec hacc calls
  · obtain ⟨log, hlog, -, haccepted, -⟩ := hgone
    have hall : sent = fun w => given w calls := funext hsent
    exact ⟨r', log, recs, hresp, hlog, haccepted,
      hall ▸ hrecs.wellFramed (acceptConnection_requestId hacc) hclosed⟩
  · obtain ⟨recs, sent, isOpen, -, -, hfails, -⟩ := hcut
    exact absurd hwrites hfails

theorem respond_wellFramed_plain :
    ∃ r₀, fcgxAcceptR true [.ok (.sending plainRequest [] [.accept 2])] idleRequest =
        some (0, r₀, []) ∧
      ∃ r' log recs,
        respond [(.err, .putStr [69, 33]), (.out, .putChar 65), (.out, .fclose)] r₀ = some r' ∧
        r'.os.log = r₀.os.log ++ log ∧ accepted log = encodeAll recs ∧
        WellFramed r₀.req.requestId r₀.req.appStatus
          (fun w => given w [(.err, .putStr [69, 33]), (.out, .putChar 65), (.out, .fclose)])
          recs := by
  have hrun : (fcgxAcceptR true [.ok (.sending plainRequest [] [.accept 2])] idleRequest).map
      (fun x => (x.1, x.2.1.os.writeEnd, x.2.1.os.writeResults, x.2.2.length)) =
        some (0, none, [.accept 2], 0) := by decide +kernel
  obtain ⟨⟨rc, r₀, rest⟩, haccept, hval⟩ := Option.map_eq_some_iff.mp hrun
  simp only [Prod.mk.injEq, List.length_eq_zero_iff] at hval
  obtain ⟨rfl, hend, hresults, rfl⟩ := hval
  have hwrites : r₀.os.NeverFails := ⟨hend, by simp [hresults]⟩
  exact ⟨r₀, haccept, respond_wellFramed haccept hwrites _⟩

/-! ### Responses whose writes may fail -/

/-- Bytes that are the front of complete records of the request in which nothing
that was put occurs twice. -/
def Survives (requestId : ℕ) (put : Writer → List UInt8) (bytes : List UInt8) : Prop :=
  ∃ recs, bytes <+: encodeAll recs ∧
    (∀ r ∈ recs, r.requestId.toNat = requestId ∧
      ((∃ w : Writer, r.type.toNat = w.type) ∨ r.type.toNat = fcgiEndRequest)) ∧
    ∀ w : Writer, List.Sublist (contents (ofType w.type recs)) (put w)

/-- Once an `OS_Write` has failed, the later ones fail too. -/
def FailsForGood (log : List WriteCall) : Prop :=
  ∀ pre call post, log = pre ++ call :: post → call.wrote < 0 → ∀ x ∈ post, x.wrote < 0

theorem accepted_eq_nil {log : List WriteCall} (h : ∀ x ∈ log, x.wrote < 0) : accepted log = [] := by
  induction log with
  | nil => rfl
  | cons x log ih =>
      have hx : x.wrote.toNat = 0 := Int.toNat_of_nonpos (h x (List.mem_cons_self ..)).le
      have hrest := ih fun y hy => h y (List.mem_cons_of_mem _ hy)
      show x.buf.take x.wrote.toNat ++ accepted log = []
      rw [hx, hrest]
      rfl

theorem Response.survives {requestId : ℕ} {appStatus : ℤ} {recs : List Record}
    {sent put : Writer → List UInt8} {isOpen : Writer → Bool}
    (h : Response requestId appStatus recs sent isOpen) (hid : requestId < 65536)
    (hput : ∀ w, sent w <+: put w) {bytes : List UInt8} (hbytes : bytes <+: encodeAll recs) :
    Survives requestId put bytes :=
  ⟨recs, hbytes, fun r hr => ⟨h.requestId_eq hid r hr, h.type_eq r hr⟩, fun w => by
    rw [h.content_eq w]
    exact (hput w).sublist⟩

/-- **Failing writes.** In every run in which no `OS_Write` succeeds after one has
failed, what went out is the front of correct records. -/
theorem respond_survives {lib : Bool} {pending rest : List Connection} {r r₀ : Request}
    (h : fcgxAcceptR lib pending r = some (0, r₀, rest)) (calls : List (Writer × ClientCall)) :
    ∃ r' log, respond calls r₀ = some r' ∧ r'.os.log = r₀.os.log ++ log ∧
      (FailsForGood log → Survives r₀.req.requestId (fun w => given w calls) (accepted log)) := by
  obtain ⟨r₁, -, hacc⟩ := fcgxAcceptR_ok h
  have hid := acceptConnection_requestId hacc
  obtain ⟨r', hresp, ⟨recs, sent, isOpen, hrecs, -, hsent, hgone⟩ | hcut⟩ :=
    respond_spec hacc calls
  · obtain ⟨log, hlog, -, haccepted, -⟩ := hgone
    refine ⟨r', log, hresp, hlog, fun _ => hrecs.survives hid (fun w => ?_) ?_⟩
    · rw [hsent]
    · rw [haccepted]
  · obtain ⟨recs, sent, isOpen, hrecs, hsent, -, pre, call, post, hlog, -, hfail, hpre⟩ := hcut
    refine ⟨r', _, hresp, hlog, fun hgood => hrecs.survives hid hsent ?_⟩
    have hpost := hgood pre call post rfl hfail
    have hnothing : accepted (call :: post) = [] := accepted_eq_nil fun x hx =>
      (List.mem_cons.mp hx).elim (fun he => he ▸ hfail) (hpost x)
    rw [accepted_append, hnothing, List.append_nil]
    exact hpre

/-- A write of a record fails after nine bytes, and `FCGX_FClose` sends the buffer
again: the reader finds the second header in the padding of the first record. -/
theorem respond_resends :
    ¬∀ (lib : Bool) (pending rest : List Connection) (r r₀ r' : Request)
      (calls : List (Writer × ClientCall)) (log : List WriteCall),
      fcgxAcceptR lib pending r = some (0, r₀, rest) → respond calls r₀ = some r' →
        r'.os.log = r₀.os.log ++ log →
        Survives r₀.req.requestId (fun w => given w calls) (accepted log) := by
  intro hall
  let results : List WriteResult := [.accept 8, .fail ⟨32, by decide⟩]
  let sent : List UInt8 :=
    [1, 6, 0, 1, 0, 1, 7, 0, 65,
      1, 6, 0, 1, 0, 8, 0, 0, 65, 0, 0, 0, 0, 0, 0, 0,
      1, 6, 0, 1, 0, 0, 0, 0,
      1, 3, 0, 1, 0, 8, 0, 0, 0, 0, 0, 0, 0, 0, 0, 0]
  have hrun : (fcgxAcceptR true [.ok (.sending plainRequest [] results)] idleRequest).bind
      (fun x => (respond [(.out, .putChar 65), (.out, .fflush)] x.2.1).map fun r' =>
        (x.1, x.2.1.os.log, accepted r'.os.log)) = some (0, [], sent) := by decide +kernel
  obtain ⟨⟨rc, r₀, rest⟩, haccept, hmap⟩ := Option.bind_eq_some_iff.mp hrun
  obtain ⟨r', hresp, hval⟩ := Option.map_eq_some_iff.mp hmap
  simp only [Prod.mk.injEq] at hval
  obtain ⟨rfl, hlog, hsent⟩ := hval
  obtain ⟨recs, hpre, -⟩ := hall _ _ _ _ _ _ _ r'.os.log haccept hresp (by rw [hlog]; rfl)
  rw [hsent] at hpre
  obtain ⟨r₁, recs₁, -, hheader, hpre₁⟩ := header_of_prefix hpre (by decide)
  have hcontent : r₁.content.length = 1 := by
    rw [← r₁.header_contentLength, hheader]
    decide
  have hpadding : r₁.padding.length = 7 := by
    rw [← r₁.header_paddingLength, hheader]
    decide
  rw [hcontent, hpadding] at hpre₁
  obtain ⟨r₂, -, -, hheader₂, -⟩ := header_of_prefix hpre₁ (by decide)
  have hversion : r₂.header.version = 0 := by
    rw [hheader₂]
    decide
  rw [Record.header_version] at hversion
  exact absurd hversion (by decide)

theorem respond_survives_plain :
    ∃ r₀, fcgxAcceptR true [.ok (.sending plainRequest [] [])] idleRequest = some (0, r₀, []) ∧
      ∃ r' log, respond [(.out, .putChar 65)] r₀ = some r' ∧ r'.os.log = r₀.os.log ++ log ∧
        (FailsForGood log →
          Survives r₀.req.requestId (fun w => given w [(.out, .putChar 65)]) (accepted log)) := by
  have hrun : (fcgxAcceptR true [.ok (.sending plainRequest [] [])] idleRequest).map
      (fun x => (x.1, x.2.2.length)) = some (0, 0) := by decide +kernel
  obtain ⟨⟨rc, r₀, rest⟩, haccept, hval⟩ := Option.map_eq_some_iff.mp hrun
  simp only [Prod.mk.injEq, List.length_eq_zero_iff] at hval
  obtain ⟨rfl, rfl⟩ := hval
  exact ⟨r₀, haccept, respond_survives haccept _⟩

end FastCgi
