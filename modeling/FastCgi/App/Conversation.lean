import FastCgi.App.ByteCalls
import FastCgi.App.StaleMemory

/-!
What an application says on its connections.

The replies of the reader and the records of the two writers go out on one
descriptor, in whatever order the application reads and writes. A
`Dialogue` is what a web server is to make of that: on each connection the
answers to the requests, one behind the other, of which the last one may
not be complete. In every session in which no `OS_Write` fails whole
messages go out on each connection, and without the replies they are the
answers of a dialogue that the same calls lead to (`session_conversation`).
-/

namespace FastCgi

open ByteMem BoundedLoop Machine

/-! ### Messages -/

/-- What goes out on a connection: a reply of the reader, or a record of a writer. -/
inductive Message where
  | reply (bytes : List UInt8) (isReply : IsReply bytes)
  | record (r : Record)

def Message.bytes : Message → List UInt8
  | .reply bytes _ => bytes
  | .record r => r.encode

def Message.written : Message → List Record
  | .reply _ _ => []
  | .record r => [r]

def messageBytes (ms : List Message) : List UInt8 := ms.flatMap Message.bytes

/-- The records of the writers. -/
def written (ms : List Message) : List Record := ms.flatMap Message.written

@[simp] theorem messageBytes_append (ms ms' : List Message) :
    messageBytes (ms ++ ms') = messageBytes ms ++ messageBytes ms' := List.flatMap_append

@[simp] theorem written_append (ms ms' : List Message) :
    written (ms ++ ms') = written ms ++ written ms' := List.flatMap_append

@[simp] theorem messageBytes_records (recs : List Record) :
    messageBytes (recs.map .record) = encodeAll recs := by
  induction recs with
  | nil => rfl
  | cons r recs ih =>
      rw [encodeAll_cons, ← ih]
      rfl

@[simp] theorem written_records (recs : List Record) : written (recs.map .record) = recs := by
  induction recs with
  | nil => rfl
  | cons r recs ih =>
      show r :: written (recs.map .record) = r :: recs
      rw [ih]

/-! ### Reading -/

/-- What reading sends are replies, and of the request it leaves what the writers use. -/
structure Chan.Replies (c c' : Chan) : Prop where
  sent : c.os.NeverFails → ∃ ms, written ms = [] ∧ c.os.Sent c'.os (messageBytes ms)
  begun : c.req.isBeginProcessed = true → c'.req = c.req
  appStatus : c'.req.appStatus = c.req.appStatus
  isReader : c'.stream.isReader = c.stream.isReader

theorem Chan.Replies.of_eq {c c' : Chan} (hos : c'.os = c.os) (hreq : c'.req = c.req)
    (hreader : c'.stream.isReader = c.stream.isReader) : c.Replies c' where
  sent _ := ⟨[], rfl, hos ▸ .refl _⟩
  begun _ := hreq
  appStatus := by rw [hreq]
  isReader := hreader

theorem Chan.Replies.refl (c : Chan) : c.Replies c := .of_eq rfl rfl rfl

theorem Os.Sent.neverFails {os os' : Os} {bs : List UInt8} (h : os.Sent os' bs)
    (hwrites : os.NeverFails) : os'.NeverFails := by
  obtain ⟨log, -, -, -, hkept⟩ := h
  exact hkept hwrites

theorem Os.Sent.accepted {os os' : Os} {bs : List UInt8} (h : os.Sent os' bs) :
    accepted os'.log = accepted os.log ++ bs := by
  obtain ⟨log, hlog, -, hacc, -⟩ := h
  rw [hlog, accepted_append, hacc]

theorem Chan.Replies.trans {c c' c'' : Chan} (h : c.Replies c') (h' : c'.Replies c'') :
    c.Replies c'' where
  sent hwrites := by
    obtain ⟨ms, hms, hsent⟩ := h.sent hwrites
    obtain ⟨ms', hms', hsent'⟩ := h'.sent (hsent.neverFails hwrites)
    refine ⟨ms ++ ms', by rw [written_append, hms, hms', List.append_nil], ?_⟩
    rw [messageBytes_append]
    exact hsent.trans hsent'
  begun hbegun := by
    have hreq := h.begun hbegun
    rw [h'.begun (by rw [hreq]; exact hbegun), hreq]
  appStatus := h'.appStatus.trans h.appStatus
  isReader := h'.isReader.trans h.isReader

theorem osRead_sent (os : Os) (len : ℕ) : os.Sent (osRead os len).2 [] := by
  unfold osRead
  split
  · exact .refl os
  · exact ⟨[], by simp, by simp, rfl, id⟩

theorem readFrame_replies : ReadFrame Chan.Replies where
  refl := .refl
  trans := .trans
  stream _ _ _ hreader _ := .of_eq rfl rfl hreader
  read c len := ⟨fun _ => ⟨[], rfl, osRead_sent c.os len⟩, fun _ => rfl, rfl, rfl⟩
  reply c reply hreply := by
    refine ⟨fun hwrites => ⟨[.reply reply hreply], rfl, ?_⟩, fun _ => rfl, rfl, rfl⟩
    have hbytes : messageBytes [.reply reply hreply] = reply := List.flatMap_singleton ..
    rw [hbytes]
    rcases FastCgi.writeItAll_sent c.os reply with ⟨-, hsent⟩ | ⟨e, -, hfails, -⟩
    · exact hsent
    · exact absurd hwrites hfails
  setRequestId c id hawait := by
    refine ⟨fun _ => ⟨[], rfl, .refl _⟩, fun hbegun => ?_, rfl, rfl⟩
    rw [hawait] at hbegun
    cases hbegun
  begins c d body hawait h := by
    refine ⟨h.sent, fun hbegun => ?_, h.appStatus, h.isReader⟩
    rw [hawait] at hbegun
    cases hbegun

theorem setReaderType_replies (c : Chan) (streamType : ℕ) :
    c.Replies (c.setReaderType streamType) := .of_eq rfl rfl rfl

/-- **Any call on a reader** sends replies. -/
theorem StreamCall.perform_replies {call : StreamCall} {c c' : Chan}
    (hreader : c.stream.isReader = true) (h : call.perform c = some c') : c.Replies c' := by
  cases call with
  | read call =>
      obtain ⟨⟨bs, d⟩, hread, rfl⟩ := Option.map_eq_some_iff.mp h
      have hI := readFrame_replies.readInvariant (readFrame_replies.fillBuffProcAt 2) c
      cases call with
      | getChar =>
          obtain ⟨⟨x, d'⟩, hget, heq⟩ := Option.map_eq_some_iff.mp hread
          obtain rfl : d' = d := congrArg Prod.snd heq
          exact hI.getChar (.refl c) hget
      | getStr n => exact hI.getStr (.refl c) hread
  | unGetChar b =>
      obtain rfl := Option.some.inj h
      simp only [fcgxUnGetChar]
      split
      · exact .refl c
      · exact .of_eq rfl rfl rfl
  | write call =>
      rcases call.perform_reader hreader h with ⟨buff, wrNext, rfl⟩ | rfl
      · exact .of_eq rfl rfl rfl
      · refine .of_eq rfl rfl ?_
        rw [closeStream, if_pos hreader]
  | startFilterData =>
      obtain rfl := Option.some.inj h
      rw [fcgxStartFilterData]
      split
      · exact .of_eq rfl rfl rfl
      · exact setReaderType_replies c fcgiData
  | clearError =>
      obtain rfl := Option.some.inj h
      exact .of_eq rfl rfl rfl

/-- What a writer does with a call that is not for it. -/
theorem StreamCall.perform_writer {call : StreamCall} {c c' : Chan}
    (hreader : c.stream.isReader = false) (hwrite : ∀ call', call ≠ .write call')
    (hfilter : call ≠ .startFilterData) (h : call.perform c = some c') :
    c' = c ∨ c' = fcgxClearError c := by
  cases call with
  | read call =>
      obtain ⟨⟨bs, d⟩, hread, rfl⟩ := Option.map_eq_some_iff.mp h
      cases call with
      | getChar =>
          obtain ⟨⟨x, d'⟩, hget, heq⟩ := Option.map_eq_some_iff.mp hread
          obtain rfl : d' = d := congrArg Prod.snd heq
          rw [fcgxGetChar, if_pos (by simp [hreader])] at hget
          cases hget
          exact .inl rfl
      | getStr n =>
          rw [ReadCall.perform, fcgxGetStr, if_pos (by simp [hreader])] at hread
          cases hread
          exact .inl rfl
  | unGetChar b =>
      obtain rfl := Option.some.inj h
      exact .inl (by simp [fcgxUnGetChar, hreader])
  | write call => exact absurd rfl (hwrite call)
  | startFilterData => exact absurd rfl hfilter
  | clearError => exact .inr (Option.some.inj h).symm

/-! ### Answers -/

/-- What an application says to a request: the bytes it puts on its writers, and the status it
sets before it closes the last one. -/
structure Answer where
  requestId : ℕ
  status : ℤ
  put : Writer → List UInt8
  isOpen : Writer → Bool

def Answer.start (requestId : ℕ) (status : ℤ) : Answer :=
  { requestId := requestId, status := status, put := fun _ => [], isOpen := fun _ => true }

def Answer.write (a : Answer) (w : Writer) (call : ClientCall) : Answer :=
  { a with put := putAfter a.put a.isOpen w call, isOpen := openAfter a.isOpen w call }

/-- The status of an answer that is complete stays. -/
def Answer.setStatus (a : Answer) (status : ℤ) : Answer :=
  if a.isOpen .out || a.isOpen .err then { a with status := status } else a

def Answer.finish (a : Answer) : Answer := (a.write .err .fclose).write .out .fclose

/-- The answer after a call on a stream: it is given by what is put on the writers. -/
def Answer.call (a : Answer) : RequestStream → StreamCall → Answer
  | .out, .write call => a.write .out call
  | .err, .write call => a.write .err call
  | _, _ => a

/-- The whole answer. -/
def Answer.Complete (a : Answer) (recs : List Record) : Prop :=
  WellFramed a.requestId a.status a.put recs

/-- What has gone out of an answer, if there is one. -/
def Begun : Option Answer → List Record → Prop
  | none, recs => recs = []
  | some a, recs => ∃ sent, Response a.requestId a.status recs sent a.isOpen ∧
      ∀ w, sent w <+: a.put w

theorem Answer.write_closed {a : Answer} {w : Writer} (h : a.isOpen w = false)
    (call : ClientCall) : a.write w call = a := by
  have hopen : openAfter a.isOpen w call = a.isOpen := by
    unfold openAfter
    split
    · rw [← h, Function.update_eq_self]
    · rfl
  rw [Answer.write, hopen, putAfter, if_neg (by simp [h])]

theorem Answer.setStatus_open {a : Answer} {w : Writer} (h : a.isOpen w = true) (status : ℤ) :
    a.setStatus status = { a with status := status } := by
  refine if_pos ?_
  cases w with
  | out => simp [h]
  | err => simp [h]

/-- The status matters only where the last writer is closed. -/
theorem Response.restatus {requestId : ℕ} {appStatus appStatus' : ℤ} {recs : List Record}
    {sent : Writer → List UInt8} {isOpen : Writer → Bool}
    (h : Response requestId appStatus recs sent isOpen) {w : Writer} (ho : isOpen w = true) :
    Response requestId appStatus' recs sent isOpen := by
  induction h generalizing w with
  | start => exact .start
  | content h ho' hm ih => exact (ih ho).content ho' hm
  | @close recs sent isOpen w' h ho' ih =>
      have hne : w ≠ w' := by
        rintro rfl
        rw [Function.update_self] at ho
        cases ho
      have hother : isOpen w'.other = true := by
        rw [Function.update_of_ne hne] at ho
        rw [← ho]
        congr 1
        cases w <;> cases w' <;> first | rfl | exact absurd rfl hne
      have hends : endRecords requestId appStatus (!isOpen w'.other) =
          endRecords requestId appStatus' (!isOpen w'.other) := by
        rw [hother]
        rfl
      rw [hends]
      exact (ih ho').close ho'

/-! ### A request that is being answered -/

/-- Of the answer `a` the request has sent the records `recs`, with `sent` on the writers, and
holds `pending`. -/
structure Request.Answering (r : Request) (a : Answer) (recs : List Record)
    (sent pending : Writer → List UInt8) : Prop where
  response : Response a.requestId a.status recs sent a.isOpen
  put : ∀ w, sent w ++ pending w = a.put w
  requestId : r.req.requestId = a.requestId
  requestId_lt : a.requestId < 65536
  begun : r.req.isBeginProcessed = true
  status : ∀ w, a.isOpen w = true → r.req.appStatus = a.status
  nWriters : r.req.nWriters = openWriters a.isOpen
  writer : ∀ w, ∃ s, r.writer w = some s ∧ WriterState s w (a.isOpen w) (sent w) (pending w)
  input : ∃ s, r.inStream = some s ∧ s.isReader = true

section Answering

variable {r : Request} {a : Answer} {recs : List Record} {sent pending : Writer → List UInt8}

/-- What has gone out is a front part of what has been put. -/
theorem Request.Answering.begun_of (h : r.Answering a recs sent pending) : Begun (some a) recs :=
  ⟨sent, h.response, fun w => h.put w ▸ List.prefix_append (sent w) (pending w)⟩

/-- **Writing.** -/
theorem Request.Answering.write (h : r.Answering a recs sent pending)
    (hwrites : r.os.NeverFails) (w : Writer) (call : ClientCall) :
    ∃ r' more sent' pending', r.perform w call = some r' ∧
      r.os.Sent r'.os (encodeAll more) ∧ r'.req.appStatus = r.req.appStatus ∧
      r'.inStream = r.inStream ∧ r'.Answering (a.write w call) (recs ++ more) sent' pending' := by
  obtain ⟨s, hs, hstate⟩ := h.writer w
  cases ho : a.isOpen w with
  | false =>
      have hfin := hstate.2
      rw [ho, if_neg (by decide)] at hfin
      refine ⟨r, [], sent, pending, ?_, .refl _, rfl, rfl, ?_⟩
      · rw [Request.perform, hs]
        simp [ClientCall.perform_finished (c := r.chan s) hfin.1, Request.putBack_chan hs]
      · rw [Answer.write_closed ho, List.append_nil]
        exact h
  | true =>
      have hresp : Response (r.chan s).req.requestId (r.chan s).req.appStatus recs sent a.isOpen := by
        rw [Request.chan, h.requestId, h.status w ho]
        exact h.response
      obtain ⟨c, more, bs, pending', hperform, hresp', hend⟩ :=
        ClientCall.perform_open (c := r.chan s) hresp h.nWriters
          (by rw [Request.chan, h.requestId]; exact h.requestId_lt) ho (ho ▸ hstate) call
      rcases hend with ⟨hsent, hreq, hstate', hsum⟩ | ⟨-, -, hfails, -⟩
      · refine ⟨r.putBack w c, more, Function.update sent w (sent w ++ bs),
          Function.update pending w pending', ?_, ?_, ?_, Request.putBack_inStream .., ?_⟩
        · rw [Request.perform, hs]
          simp [hperform]
        · rwa [Request.putBack_os]
        · rw [Request.putBack_req, hreq, Request.chan]
        · rw [Request.chan, h.requestId, h.status w ho] at hresp'
          refine ⟨hresp', sum_putAfter h.put ho hsum, ?_, h.requestId_lt, ?_, fun w' ho' => ?_, ?_,
            fun w' => ?_, ?_⟩
          · rw [Request.putBack_req, hreq]
            exact h.requestId
          · rw [Request.putBack_req, hreq]
            exact h.begun
          · rw [Request.putBack_req, hreq]
            exact h.status w ho
          · rw [Request.putBack_req, hreq]
            rfl
          · by_cases hw' : w' = w
            · subst hw'
              refine ⟨c.stream, Request.writer_putBack .., ?_⟩
              rw [Function.update_self, Function.update_self]
              exact hstate'
            · have hopen : (a.write w call).isOpen w' = a.isOpen w' :=
                openAfter_of_ne a.isOpen hw' call
              rw [Request.writer_putBack_ne r hw', Function.update_of_ne hw',
                Function.update_of_ne hw', hopen]
              exact h.writer w'
          · rw [Request.putBack_inStream]
            exact h.input
      · exact absurd hwrites hfails

/-- **Reading**, and what else is called on the input stream. -/
theorem Request.Answering.input_call (h : r.Answering a recs sent pending)
    (hwrites : r.os.NeverFails) {call : StreamCall} {r' : Request}
    (hcall : r.streamCall .input call = some r') :
    ∃ ms, written ms = [] ∧ r.os.Sent r'.os (messageBytes ms) ∧
      r'.req.appStatus = r.req.appStatus ∧ r'.Answering a recs sent pending := by
  obtain ⟨s, hs, hreader⟩ := h.input
  obtain ⟨s', hs', hperform⟩ := Option.bind_eq_some_iff.mp hcall
  obtain rfl : s' = s := Option.some.inj (hs'.symm.trans hs)
  obtain ⟨c, hc, rfl⟩ := Option.map_eq_some_iff.mp hperform
  have hreplies := StreamCall.perform_replies (c := r.chan s') hreader hc
  obtain ⟨ms, hms, hsent⟩ := hreplies.sent hwrites
  have hreq : c.req = r.req := hreplies.begun h.begun
  refine ⟨ms, hms, hsent, hreplies.appStatus, h.response, h.put, ?_, h.requestId_lt, ?_, ?_, ?_,
    fun w => ?_, c.stream, rfl, hreplies.isReader.trans hreader⟩
  · exact (congrArg ReqData.requestId hreq).trans h.requestId
  · exact (congrArg ReqData.isBeginProcessed hreq).trans h.begun
  · exact fun w ho => (congrArg ReqData.appStatus hreq).trans (h.status w ho)
  · exact (congrArg ReqData.nWriters hreq).trans h.nWriters
  · obtain ⟨t, ht, hstate⟩ := h.writer w
    cases w with
    | out => exact ⟨t, ht, hstate⟩
    | err => exact ⟨t, ht, hstate⟩

theorem WriterState.clearError {c : Chan} {w : Writer} {isOpen : Bool} {sent pending : List UInt8}
    (h : WriterState c.stream w isOpen sent pending) :
    WriterState (fcgxClearError c).stream w isOpen sent pending := by
  have hwriter (hw : c.stream.IsWriter) : (fcgxClearError c).stream.IsWriter :=
    ⟨hw.isReader, hw.wrNext_le, hw.stop_eq, hw.isClosed, hw.bufflen_mod, hw.bufflen_ge,
      hw.bufflen_le⟩
  cases isOpen with
  | true =>
      obtain ⟨htype, hholding, hany⟩ := h
      exact ⟨htype, ⟨hwriter hholding.toIsWriter, hholding.isOpen, hholding.rawWrite,
        hholding.wrNext_eq, hholding.content⟩, hany⟩
  | false =>
      obtain ⟨htype, hfin, hnil⟩ := h
      exact ⟨htype, ⟨hwriter hfin.toIsWriter, hfin.wasFCloseCalled, hfin.wrNext_eq⟩, hnil⟩

/-- The stream that a writer of the request is. -/
def Writer.stream : Writer → RequestStream
  | .out => .out
  | .err => .err

theorem Request.streamCall_write (r : Request) (w : Writer) (call : ClientCall) :
    r.streamCall w.stream (.write call) = r.perform w call := by
  cases w with
  | out =>
      show r.out.bind _ = _
      rw [Request.perform, Request.writer]
      cases r.out <;> rfl
  | err =>
      show r.err.bind _ = _
      rw [Request.perform, Request.writer]
      cases r.err <;> rfl

/-- A writer on which something is called that does not write. -/
theorem Request.Answering.other_call (h : r.Answering a recs sent pending) (w : Writer)
    {call : StreamCall} {r' : Request} (hwrite : ∀ call', call ≠ .write call')
    (hfilter : call ≠ .startFilterData) (hcall : r.streamCall w.stream call = some r') :
    r'.os = r.os ∧ r'.req = r.req ∧ r'.Answering a recs sent pending := by
  obtain ⟨s, hs, hstate⟩ := h.writer w
  have hreader : s.isReader = false := by
    have hstate := hstate.2
    split at hstate
    · exact hstate.1.isReader
    · exact hstate.1.isReader
  have hstream : r.stream w.stream = some s := by cases w <;> exact hs
  rw [Request.streamCall, hstream] at hcall
  obtain ⟨c, hc, rfl⟩ := Option.map_eq_some_iff.mp hcall
  have hsame : c.os = r.os ∧ c.req = r.req ∧
      WriterState c.stream w (a.isOpen w) (sent w) (pending w) := by
    rcases StreamCall.perform_writer (c := r.chan s) hreader hwrite hfilter hc with rfl | rfl
    · exact ⟨rfl, rfl, hstate⟩
    · exact ⟨rfl, rfl, WriterState.clearError (c := r.chan s) hstate⟩
  obtain ⟨hos, hreq, hstate'⟩ := hsame
  have hput : r.putStream w.stream c = r.putBack w c := by cases w <;> rfl
  rw [hput]
  refine ⟨by rw [Request.putBack_os, hos], by rw [Request.putBack_req, hreq], h.response, h.put,
    ?_, h.requestId_lt, ?_, ?_, ?_, fun w' => ?_, ?_⟩
  · rw [Request.putBack_req, hreq]
    exact h.requestId
  · rw [Request.putBack_req, hreq]
    exact h.begun
  · rw [Request.putBack_req, hreq]
    exact h.status
  · rw [Request.putBack_req, hreq]
    exact h.nWriters
  · by_cases hw' : w' = w
    · subst hw'
      exact ⟨c.stream, Request.writer_putBack .., hstate'⟩
    · rw [Request.writer_putBack_ne r hw']
      exact h.writer w'
  · rw [Request.putBack_inStream]
    exact h.input

/-- **Setting the status.** -/
theorem Request.Answering.setStatus (h : r.Answering a recs sent pending) (status : ℤ) :
    (fcgxSetExitStatus status r).Answering (a.setStatus status) recs sent pending := by
  by_cases ho : ∃ w, a.isOpen w = true
  · obtain ⟨w, ho⟩ := ho
    rw [Answer.setStatus_open ho]
    exact ⟨h.response.restatus ho, h.put, h.requestId, h.requestId_lt, h.begun, fun _ _ => rfl,
      h.nWriters, h.writer, h.input⟩
  · have hclosed (w : Writer) : a.isOpen w = false := Bool.eq_false_iff.mpr fun hw => ho ⟨w, hw⟩
    have hstatus : a.setStatus status = a := if_neg (by simp [hclosed])
    rw [hstatus]
    exact ⟨h.response, h.put, h.requestId, h.requestId_lt, h.begun,
      fun w hw => absurd hw (by simp [hclosed]), h.nWriters, h.writer, h.input⟩

/-- **`FCGX_Finish_r`** completes the answer. -/
theorem Request.Answering.finish (h : r.Answering a recs sent pending)
    (hwrites : r.os.NeverFails) {r' : Request} (hfin : fcgxFinishR r = some r') :
    ∃ more, r.os.Sent r'.os (encodeAll more) ∧ r'.req.appStatus = r.req.appStatus ∧
      (r'.inStream = none ∧ r'.out = none ∧ r'.err = none) ∧
      a.finish.Complete (recs ++ more) := by
  obtain ⟨r₁, more₁, sent₁, pending₁, hr₁, hsent₁, happ₁, -, h₁⟩ := h.write hwrites .err .fclose
  obtain ⟨r₂, more₂, sent₂, pending₂, hr₂, hsent₂, happ₂, -, h₂⟩ :=
    h₁.write (hsent₁.neverFails hwrites) .out .fclose
  obtain ⟨rc, herr⟩ := closeErr_of_perform hr₁
  obtain ⟨rc', hout⟩ := closeOut_of_perform hr₂
  obtain ⟨s, hs, -⟩ := h.input
  simp only [fcgxFinishR, hs, herr, hout] at hfin
  cases hfin
  have hclosed (w : Writer) : a.finish.isOpen w = false := by
    cases w <;> simp [Answer.finish, Answer.write, openAfter, Function.update]
  refine ⟨more₁ ++ more₂, ?_, happ₂.trans happ₁, ⟨rfl, rfl, rfl⟩, ?_⟩
  · rw [encodeAll_append]
    exact hsent₁.trans hsent₂
  · rw [← List.append_assoc]
    have hframed := h₂.response.wellFramed h₂.requestId_lt hclosed
    have hput : sent₂ = a.finish.put := by
      ext1 w
      obtain ⟨t, -, hstate⟩ := h₂.writer w
      have hpending := hstate.2
      rw [show ((a.write .err .fclose).write .out .fclose).isOpen w = false from hclosed w,
        if_neg (by decide)] at hpending
      rw [← List.append_nil (sent₂ w), ← hpending.2]
      exact h₂.put w
    rw [hput] at hframed
    exact hframed

end Answering

/-! ### Dialogues -/

/-- What an application has said: on the connections it has left, and on the present one. -/
structure Dialogue where
  past : List (List Answer)
  done : List Answer
  current : Option Answer
  /-- The status that was set last, which the next request starts with. -/
  status : ℤ

def Dialogue.start : Dialogue := { past := [], done := [], current := none, status := 0 }

def Dialogue.finish (d : Dialogue) : Dialogue :=
  { d with done := d.done ++ (d.current.map Answer.finish).toList, current := none }

/-- A new connection. -/
def Dialogue.connect (d : Dialogue) : Dialogue := { d with past := d.past ++ [d.done], done := [] }

def Dialogue.begin (d : Dialogue) (requestId : ℕ) : Dialogue :=
  { d with current := some (.start requestId d.status) }

/-- A request comes on the connection, on another one, or on none. -/
inductive Dialogue.Accepts : Dialogue → Dialogue → Prop
  | failed {d : Dialogue} : Accepts d d
  | begun {d : Dialogue} (requestId : ℕ) : Accepts d (d.begin requestId)
  | connect {d d' : Dialogue} (h : Accepts d.connect d') : Accepts d d'

/-- The calls of an application, as its documentation has them. -/
inductive Dialogue.Steps : Dialogue → SessionCall → Dialogue → Prop
  | accept {d d' : Dialogue} {pending : List Connection} (h : d.finish.Accepts d') :
      Steps d (.accept pending) d'
  | finish {d : Dialogue} : Steps d .finish d.finish
  | setExitStatus {d : Dialogue} {a : Answer} {status : ℤ} (h : d.current = some a) :
      Steps d (.setExitStatus status)
        { d with current := some (a.setStatus status), status := status }
  | stream {d : Dialogue} {a : Answer} {which : RequestStream} {call : StreamCall}
      (h : d.current = some a) :
      Steps d (.stream which call) { d with current := some (a.call which call) }

/-- What has gone out on a connection are whole messages, and the records among them are those of
the answers. -/
def Tells (done : List Answer) (current : Option Answer) (bytes : List UInt8) : Prop :=
  ∃ ms whole recs, bytes = messageBytes ms ∧ written ms = whole.flatten ++ recs ∧
    List.Forall₂ Answer.Complete done whole ∧ Begun current recs

/-- The calls that are for a stream of their kind, and connections that take what is written. -/
def SessionCall.Proper : SessionCall → Prop
  | .accept pending => ∀ os, .ok os ∈ pending → os.NeverFails ∧ os.log = []
  | .finish => True
  | .setExitStatus _ => True
  | .stream which call => which = .input ∨ call ≠ .startFilterData

/-- The request that is being answered, if there is one. -/
def Request.Speaks (r : Request) (done : List Answer) : Option Answer → Prop
  | none => r.inStream = none ∧ r.out = none ∧ r.err = none ∧ Tells done none (accepted r.os.log)
  | some a => ∃ ms whole recs sent pending, accepted r.os.log = messageBytes ms ∧
      written ms = whole.flatten ++ recs ∧ List.Forall₂ Answer.Complete done whole ∧
      r.Answering a recs sent pending

/-- The session has said what is in the dialogue. -/
structure Session.Tells (s : Session) (d : Dialogue) : Prop where
  past : List.Forall₂ (fun answers log => FastCgi.Tells answers none (accepted log)) d.past s.left
  speaks : s.request.Speaks d.done d.current
  status : s.request.req.appStatus = d.status
  neverFails : s.request.os.NeverFails

theorem Tells.append {done : List Answer} {current : Option Answer} {bytes : List UInt8}
    (h : Tells done current bytes) {ms : List Message} (hms : written ms = []) :
    Tells done current (bytes ++ messageBytes ms) := by
  obtain ⟨ms', whole, recs, rfl, hwritten, hdone, hbegun⟩ := h
  refine ⟨ms' ++ ms, whole, recs, (messageBytes_append ms' ms).symm, ?_, hdone, hbegun⟩
  rw [written_append, hms, List.append_nil, hwritten]

theorem Request.Speaks.tells {r : Request} {done : List Answer} {current : Option Answer}
    (h : r.Speaks done current) : Tells done current (accepted r.os.log) := by
  cases current with
  | none => exact h.2.2.2
  | some a =>
      obtain ⟨ms, whole, recs, sent, pending, hbytes, hwritten, hdone, hanswering⟩ := h
      exact ⟨ms, whole, recs, hbytes, hwritten, hdone, hanswering.begun_of⟩

section Steps

variable {r r' : Request} {done : List Answer} {a : Answer}

/-- **A call on a stream.** -/
theorem Request.Speaks.streamCall (h : r.Speaks done (some a)) (hwrites : r.os.NeverFails)
    {which : RequestStream} {call : StreamCall} (hproper : which = .input ∨ call ≠ .startFilterData)
    (hcall : r.streamCall which call = some r') :
    r'.Speaks done (some (a.call which call)) ∧ r'.req.appStatus = r.req.appStatus ∧
      r'.os.NeverFails := by
  obtain ⟨ms, whole, recs, sent, pending, hbytes, hwritten, hdone, hanswering⟩ := h
  have hwriter : ∀ w : Writer, which = w.stream →
      r'.Speaks done (some (a.call which call)) ∧ r'.req.appStatus = r.req.appStatus ∧
        r'.os.NeverFails := by
    rintro w rfl
    by_cases hwrite : ∃ call', call = .write call'
    · obtain ⟨call', rfl⟩ := hwrite
      rw [Request.streamCall_write] at hcall
      obtain ⟨r₁, more, sent', pending', hr₁, hsent, happ, -, hanswering'⟩ :=
        hanswering.write hwrites w call'
      obtain rfl : r₁ = r' := Option.some.inj (hr₁.symm.trans hcall)
      have ha : a.call w.stream (.write call') = a.write w call' := by cases w <;> rfl
      rw [ha]
      refine ⟨⟨ms ++ more.map .record, whole, recs ++ more, sent', pending', ?_, ?_, hdone,
        hanswering'⟩, happ, hsent.neverFails hwrites⟩
      · rw [hsent.accepted, hbytes, messageBytes_append, messageBytes_records]
      · rw [written_append, hwritten, written_records, List.append_assoc]
    · have hne (call' : ClientCall) : call ≠ .write call' := fun h => hwrite ⟨call', h⟩
      have hfilter : call ≠ .startFilterData := by
        rcases hproper with h | h
        · cases w <;> cases h
        · exact h
      obtain ⟨hos, hreq, hanswering'⟩ := hanswering.other_call w hne hfilter hcall
      have ha : a.call w.stream call = a := by
        cases call with
        | write call' => exact absurd rfl (hne call')
        | read call => cases w <;> rfl
        | unGetChar b => cases w <;> rfl
        | startFilterData => cases w <;> rfl
        | clearError => cases w <;> rfl
      rw [ha, hos, hreq]
      exact ⟨⟨ms, whole, recs, sent, pending, by rw [hos, hbytes], hwritten, hdone, hanswering'⟩,
        rfl, hwrites⟩
  cases which with
  | input =>
      obtain ⟨ms', hms', hsent, happ, hanswering'⟩ := hanswering.input_call hwrites hcall
      refine ⟨⟨ms ++ ms', whole, recs, sent, pending, ?_, ?_, hdone, hanswering'⟩, happ,
        hsent.neverFails hwrites⟩
      · rw [hsent.accepted, hbytes, messageBytes_append]
      · rw [written_append, hms', List.append_nil, hwritten]
  | out => exact hwriter .out rfl
  | err => exact hwriter .err rfl

/-- **`FCGX_Finish_r`.** -/
theorem Request.Speaks.finish {current : Option Answer} (h : r.Speaks done current)
    (hwrites : r.os.NeverFails) (hfin : fcgxFinishR r = some r') :
    r'.Speaks (done ++ (current.map Answer.finish).toList) none ∧
      r'.req.appStatus = r.req.appStatus ∧ r'.os.NeverFails := by
  cases current with
  | none =>
      obtain ⟨hin, hout, herr, htells⟩ := h
      rw [fcgxFinishR, hin] at hfin
      cases hfin
      refine ⟨⟨rfl, rfl, rfl, ?_⟩, rfl, hwrites⟩
      rw [Option.map_none, Option.toList_none, List.append_nil]
      exact htells
  | some a =>
      obtain ⟨ms, whole, recs, sent, pending, hbytes, hwritten, hdone, hanswering⟩ := h
      obtain ⟨more, hsent, happ, hstreams, hcomplete⟩ := hanswering.finish hwrites hfin
      refine ⟨⟨hstreams.1, hstreams.2.1, hstreams.2.2, ms ++ more.map .record,
        whole ++ [recs ++ more], [], ?_, ?_, ?_, rfl⟩, happ, hsent.neverFails hwrites⟩
      · rw [hsent.accepted, hbytes, messageBytes_append, messageBytes_records]
      · simp [hwritten]
      · exact List.rel_append hdone (.cons hcomplete .nil)

/-- **Accepting** on a connection: replies go out, and a request begins its answer or none. -/
theorem Request.Speaks.acceptConnection (h : r.Speaks done none) (hwrites : r.os.NeverFails)
    {ok : Bool} (hacc : acceptConnection r = some (ok, r')) :
    r'.Speaks done (if ok then some (.start r'.req.requestId r.req.appStatus) else none) ∧
      r'.req.appStatus = r.req.appStatus ∧ r'.os.NeverFails := by
  obtain ⟨hin, hout, herr, htells⟩ := h
  have hread : ∀ x c, readRequest (openReader r) = some (x, c) →
      (∃ ms, written ms = [] ∧ r.os.Sent c.os (messageBytes ms)) ∧
        c.req.appStatus = r.req.appStatus ∧ c.stream.isReader = true := by
    intro x c hread
    have hreplies := readFrame_replies.readRequest setReaderType_replies hread
    exact ⟨hreplies.sent hwrites, hreplies.appStatus, hreplies.isReader⟩
  cases ok with
  | false =>
      rw [FastCgi.acceptConnection] at hacc
      split at hacc
      · cases hacc
      · cases hacc
      · next c hnone =>
          obtain ⟨⟨ms, hms, hsent⟩, happ, -⟩ := hread none c hnone
          cases hacc
          refine ⟨⟨rfl, rfl, rfl, ?_⟩, happ, hsent.neverFails hwrites⟩
          show Tells done none (accepted c.os.log)
          rw [hsent.accepted]
          exact htells.append hms
  | true =>
      have hid := acceptConnection_requestId hacc
      obtain ⟨params, c, hsome, rfl⟩ := acceptConnection_ok hacc
      obtain ⟨⟨ms, hms, hsent⟩, happ, hreader⟩ := hread (some params) c hsome
      have hbegun : c.req.isBeginProcessed = true :=
        (acceptConnection_atStdin hacc rfl).isBeginProcessed
      obtain ⟨ms', whole, recs, hbytes, hwritten, hdone, rfl⟩ := htells
      refine ⟨⟨ms' ++ ms, whole, [], fun _ => [], fun _ => [], ?_, ?_, hdone, .start, fun _ => rfl,
        rfl, hid, hbegun, fun _ _ => happ, rfl, fun w => ?_, _, rfl, hreader⟩, happ,
        hsent.neverFails hwrites⟩
      · show accepted c.os.log = _
        rw [hsent.accepted, hbytes, messageBytes_append]
      · rw [written_append, hms, List.append_nil, hwritten]
      · cases w with
        | out => exact ⟨_, rfl, rfl, holding_newStream .., rfl⟩
        | err => exact ⟨_, rfl, rfl, holding_newStream .., rfl⟩

end Steps

/-! ### Sessions -/

section Sessions

variable {s s' : Session} {d : Dialogue}

theorem Session.Tells.inMemory (h : s.Tells d) (stale : ℕ → UInt8) :
    Session.Tells ⟨s.request.inMemory stale, s.left⟩ d := by
  refine ⟨h.past, ?_, h.status, h.neverFails⟩
  have hspeaks := h.speaks
  cases hcurrent : d.current with
  | none =>
      rw [hcurrent] at hspeaks
      exact hspeaks
  | some a =>
      rw [hcurrent] at hspeaks
      obtain ⟨ms, whole, recs, sent, pending, hbytes, hwritten, hdone, ha⟩ := hspeaks
      refine ⟨ms, whole, recs, sent, pending, hbytes, hwritten, hdone, ha.response, ha.put,
        ha.requestId, ha.requestId_lt, ha.begun, ha.status, ha.nWriters, fun w => ?_, ha.input⟩
      cases w with
      | out => exact ha.writer .out
      | err => exact ha.writer .err

/-- A request on the present connection. -/
theorem Session.Tells.acceptConnection (h : s.Tells d) (hidle : d.current = none) {ok : Bool}
    {r : Request} (hacc : acceptConnection s.request = some (ok, r)) :
    Session.Tells ⟨r, s.left⟩ (if ok then d.begin r.req.requestId else d) := by
  have hspeaks := h.speaks
  rw [hidle] at hspeaks
  obtain ⟨hspeaks', happ, hwrites⟩ := hspeaks.acceptConnection h.neverFails hacc
  cases ok with
  | true =>
      rw [h.status] at hspeaks'
      exact ⟨h.past, hspeaks', happ.trans h.status, hwrites⟩
  | false =>
      rw [if_neg (by decide)] at hspeaks' ⊢
      exact ⟨h.past, by rw [hidle]; exact hspeaks', happ.trans h.status, hwrites⟩

/-- The loop of `FCGX_Accept_r`, over the connections that are given up. -/
theorem Session.Tells.acceptLoop {pending : List Connection} (h : s.Tells d)
    (hidle : d.current = none)
    (hproper : ∀ os, .ok os ∈ pending → os.NeverFails ∧ os.log = []) {x : AcceptResult}
    (hacc : acceptLoopWith fillBuffProc pending s.request = some x) :
    ∃ d', d.Accepts d' ∧ Session.Tells ⟨x.1.2.1, s.left ++ x.2⟩ d' := by
  induction pending generalizing s d x with
  | nil => cases hacc
  | cons peer pending ih =>
      have hrest (os : Os) (hos : .ok os ∈ pending) : os.NeverFails ∧ os.log = [] :=
        hproper os (List.mem_cons_of_mem _ hos)
      cases peer with
      | error errno =>
          cases hacc
          refine ⟨d, .failed, ?_⟩
          rw [List.append_nil]
          exact h
      | ok os =>
          obtain ⟨hwrites, hlog⟩ := hproper os List.mem_cons_self
          -- the present connection is left, with what has been said on it
          have hspeaks := h.speaks
          rw [hidle] at hspeaks
          have hconnect : Session.Tells
              ⟨{ s.request with os := os, isOpen := true }, s.left ++ [s.request.os.log]⟩
              d.connect := by
            refine ⟨List.rel_append h.past (.cons hspeaks.tells .nil), ?_, h.status, hwrites⟩
            show Request.Speaks _ [] d.current
            rw [hidle]
            refine ⟨hspeaks.1, hspeaks.2.1, hspeaks.2.2.1, [], [], [], ?_, rfl, .nil, rfl⟩
            show accepted os.log = _
            rw [hlog]
            rfl
          rw [acceptLoopWith] at hacc
          split at hacc
          · cases hacc
          · next r₁ hconn =>
              cases hacc
              exact ⟨_, .connect (.begun _), hconnect.acceptConnection hidle hconn⟩
          · next r₁ hconn =>
              obtain ⟨y, hloop, rfl⟩ := Option.map_eq_some_iff.mp hacc
              have hgivenUp := hconnect.acceptConnection hidle hconn
              obtain ⟨d', haccepts, htells⟩ := ih hgivenUp hidle hrest hloop
              refine ⟨d', .connect haccepts, ?_⟩
              rw [List.append_assoc] at htells
              exact htells

/-- **One call.** -/
theorem Session.Tells.call (h : s.Tells d) {call : SessionCall} (hproper : call.Proper)
    {y : Request × List (List WriteCall)}
    (hcall : s.request.callWith fillBuffProc call = some y) :
    ∃ d', Dialogue.Steps d call d' ∧ Session.Tells ⟨y.1, s.left ++ y.2⟩ d' := by
  cases call with
  | accept pending =>
      obtain ⟨x, hacc, hrest⟩ := Option.bind_eq_some_iff.mp hcall
      split at hrest
      · cases hrest
        rw [acceptWith] at hacc
        split at hacc
        · cases hacc
        · next r₀ hfin =>
            obtain ⟨hspeaks, happ, hwrites⟩ := h.speaks.finish h.neverFails hfin
            have hfinished : Session.Tells ⟨r₀, s.left⟩ d.finish :=
              ⟨h.past, hspeaks, happ.trans h.status, hwrites⟩
            split at hacc
            · obtain ⟨d', haccepts, htells⟩ := hfinished.acceptLoop rfl hproper hacc
              exact ⟨d', .accept haccepts, htells⟩
            · split at hacc
              · cases hacc
              · next r₁ hconn =>
                  cases hacc
                  refine ⟨_, .accept (.begun r₁.req.requestId), ?_⟩
                  rw [List.append_nil]
                  exact hfinished.acceptConnection rfl hconn
              · next r₁ hconn =>
                  have hgivenUp := hfinished.acceptConnection rfl hconn
                  obtain ⟨d', haccepts, htells⟩ := hgivenUp.acceptLoop rfl hproper hacc
                  exact ⟨d', .accept haccepts, htells⟩
      · cases hrest
  | finish =>
      obtain ⟨r₁, hfin, rfl⟩ := Option.map_eq_some_iff.mp hcall
      obtain ⟨hspeaks, happ, hwrites⟩ := h.speaks.finish h.neverFails hfin
      rw [List.append_nil]
      exact ⟨_, .finish, h.past, hspeaks, happ.trans h.status, hwrites⟩
  | setExitStatus status =>
      obtain ⟨t, ht, rfl⟩ := Option.map_eq_some_iff.mp hcall
      have hspeaks := h.speaks
      cases hcurrent : d.current with
      | none =>
          rw [hcurrent] at hspeaks
          rw [hspeaks.1] at ht
          cases ht
      | some a =>
          rw [hcurrent] at hspeaks
          obtain ⟨ms, whole, recs, sent, pending, hbytes, hwritten, hdone, ha⟩ := hspeaks
          rw [List.append_nil]
          exact ⟨_, .setExitStatus hcurrent, h.past, ⟨ms, whole, recs, sent, pending, hbytes,
            hwritten, hdone, ha.setStatus status⟩, rfl, h.neverFails⟩
  | stream which call =>
      have hstream : (s.request.streamCall which call).map (fun r => (r, ([] : List (List WriteCall))))
          = some y := by
        rw [Request.callWith] at hcall
        rw [Request.streamCall, Option.map_bind, ← hcall]
        congr 1
        funext t
        rw [StreamCall.performWith_fillBuffProc, Function.comp, Option.map_map]
        rfl
      obtain ⟨r₁, hr₁, rfl⟩ := Option.map_eq_some_iff.mp hstream
      have hspeaks := h.speaks
      cases hcurrent : d.current with
      | none =>
          rw [hcurrent] at hspeaks
          obtain ⟨hin, hout, herr, -⟩ := hspeaks
          have hnone : s.request.stream which = none := by cases which <;> assumption
          rw [Request.streamCall, hnone] at hr₁
          cases hr₁
      | some a =>
          rw [hcurrent] at hspeaks
          obtain ⟨hspeaks', happ, hwrites⟩ := hspeaks.streamCall h.neverFails hproper hr₁
          rw [List.append_nil]
          exact ⟨_, .stream hcurrent, h.past, hspeaks', happ.trans h.status, hwrites⟩

/-- A session is followed by a dialogue, call by call. -/
theorem Session.tells_of_runs {os : Os} (hwrites : os.NeverFails) (hlog : os.log = [])
    (mBuffIn mBuffOut mBuffErr : ℕ) {calls : List CallIn} (hproper : ∀ x ∈ calls, x.1.Proper)
    (h : Runs Session.Steps (newSession os mBuffIn mBuffOut mBuffErr) calls s) :
    ∃ d, Runs Dialogue.Steps .start (calls.map Prod.fst) d ∧ s.Tells d := by
  have hstart : (newSession os mBuffIn mBuffOut mBuffErr).Tells .start := by
    refine ⟨.nil, ⟨rfl, rfl, rfl, [], [], [], ?_, rfl, .nil, rfl⟩, rfl, hwrites⟩
    show accepted os.log = _
    rw [hlog]
    rfl
  have hstep : ∀ (s : Session) (d : Dialogue) (x : CallIn) (call : SessionCall) (t : Session),
      s.Tells d → x.1 = call ∧ x.1.Proper → Session.Steps s x t →
        ∃ d', Dialogue.Steps d call d' ∧ t.Tells d' := by
    rintro s d x _ t htells ⟨rfl, hproper⟩ hstep
    obtain ⟨y, hcall, rfl⟩ := Option.map_eq_some_iff.mp hstep
    exact (htells.inMemory x.2).call hproper hcall
  have hcalls : List.Forall₂ (fun (x : CallIn) call => x.1 = call ∧ x.1.Proper) calls
      (calls.map Prod.fst) :=
    List.forall₂_map_right_iff.mpr (List.forall₂_same.mpr fun x hx => ⟨rfl, hproper x hx⟩)
  exact Runs.simulates hstep hstart hcalls h

/-- **Every session is a conversation.** Whatever its peers send and however the application
reads and writes, what goes out on its connections, while no `OS_Write` fails, are whole
messages; without the replies they are the answers that its calls give, one behind the other. -/
theorem session_conversation {os : Os} (hwrites : os.NeverFails) (hlog : os.log = [])
    (mBuffIn mBuffOut mBuffErr : ℕ) {calls : List CallIn} (hproper : ∀ x ∈ calls, x.1.Proper)
    (h : Runs Session.Steps (newSession os mBuffIn mBuffOut mBuffErr) calls s) :
    ∃ d, Runs Dialogue.Steps .start (calls.map Prod.fst) d ∧
      List.Forall₂ (fun answers log => Tells answers none (accepted log)) d.past s.left ∧
      Tells d.done d.current (accepted s.request.os.log) ∧
      ∀ a, d.current = some a → s.request.req.requestId = a.requestId := by
  obtain ⟨d, hrun, htells⟩ :=
    Session.tells_of_runs hwrites hlog mBuffIn mBuffOut mBuffErr hproper h
  refine ⟨d, hrun, htells.past, htells.speaks.tells, fun a ha => ?_⟩
  have hspeaks := htells.speaks
  rw [ha] at hspeaks
  obtain ⟨ms, whole, recs, sent, pending, -, -, -, hanswering⟩ := hspeaks
  exact hanswering.requestId

end Sessions

/-- A peer that sends a management record of an unknown type, and a request. -/
def curiousPeer : Os := .sending ([1, 9, 0, 0, 0, 0, 0, 0] ++ plainRequest) [3, 6] [.accept 2]

/-- The application answers it, and reads meanwhile. -/
def politeCalls : List CallIn :=
  [.accept [.ok curiousPeer], .stream .out (.write (.putStr [104, 105])),
    .stream .input (.read (.getStr 10)), .setExitStatus 3, .stream .err (.write .fclose),
    .finish].map fun call => (call, fun _ => 0)

/-- The unknown record is answered, then the request. -/
theorem session_conversation_polite :
    ∃ s, Runs Session.Steps (newSession (.sending [] [] []) 0 0 0) politeCalls s ∧
      ∃ d, Runs Dialogue.Steps .start (politeCalls.map Prod.fst) d ∧
        List.Forall₂ (fun answers log => Tells answers none (accepted log)) d.past s.left ∧
        Tells d.done d.current (accepted s.request.os.log) ∧
        ∀ a, d.current = some a → s.request.req.requestId = a.requestId := by
  have hsome : (exec (Session.step fillBuffProc) (newSession (.sending [] [] []) 0 0 0)
      politeCalls).isSome = true := by
    decide +kernel
  obtain ⟨s, hs⟩ := Option.isSome_iff_exists.mp hsome
  have hrun : Runs Session.Steps (newSession (.sending [] [] []) 0 0 0) politeCalls s :=
    .of_exec (fun _ _ _ h => h) hs
  have hproper : ∀ x ∈ politeCalls, x.1.Proper := by
    intro x hx
    simp only [politeCalls, List.map_cons, List.map_nil, List.mem_cons, List.not_mem_nil,
      or_false] at hx
    rcases hx with rfl | rfl | rfl | rfl | rfl | rfl
    · intro os hos
      obtain rfl : os = curiousPeer := by simpa using hos
      exact ⟨⟨rfl, by simp [curiousPeer, Os.sending]⟩, rfl⟩
    · exact .inr (by decide)
    · exact .inl rfl
    · trivial
    · exact .inr (by decide)
    · trivial
  exact ⟨s, hrun, session_conversation ⟨rfl, by simp [Os.sending]⟩ rfl 0 0 0 hproper hrun⟩

end FastCgi
