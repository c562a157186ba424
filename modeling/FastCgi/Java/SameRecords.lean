import FastCgi.Java.OutputStream

/-!
The writers of the C library and of the Java package, side by side.

While they are open the two hold the same content behind the room for a
header, so they are full at the same moment and make the same records;
only C pads them (`Alongside`). When they are closed their buffers differ
by the padding, and so do the stretches in which these go out; there the
two are compared by the records that each of them sends (`close_holding`,
`fcgxFClose_holding`).
-/

namespace FastCgi

namespace Java

open ByteMem BoundedLoop

/-! ### The output streams of a request -/

/-- The two output streams of a request in Java, which share its socket. -/
structure OutputStreams where
  outStream : FcgiOutputStream
  errStream : FcgiOutputStream
  request : FcgiRequest
  socket : FileOutputStream

namespace OutputStreams

def stream (j : OutputStreams) : Writer → FcgiOutputStream
  | .out => j.outStream
  | .err => j.errStream

def chan (j : OutputStreams) (w : Writer) : OutChan :=
  { stream := j.stream w, request := j.request, out := j.socket }

/-- A stream and what it refers to are put back. -/
def putBack (j : OutputStreams) (w : Writer) (c : OutChan) : OutputStreams :=
  match w with
  | .out => { j with outStream := c.stream, request := c.request, socket := c.out }
  | .err => { j with errStream := c.stream, request := c.request, socket := c.out }

def perform (j : OutputStreams) (w : Writer) (call : ClientCall) : Option OutputStreams :=
  (Java.perform call (j.chan w)).map (j.putBack w)

def performWrites : List (Writer × ClientCall) → OutputStreams → Option OutputStreams
  | [], j => some j
  | (w, call) :: calls, j => (j.perform w call).bind (performWrites calls)

@[simp] theorem stream_putBack (j : OutputStreams) (w : Writer) (c : OutChan) :
    (j.putBack w c).stream w = c.stream := by cases w <;> rfl

theorem stream_putBack_ne (j : OutputStreams) {w w' : Writer} (h : w' ≠ w) (c : OutChan) :
    (j.putBack w c).stream w' = j.stream w' := by
  cases w <;> cases w' <;> first | rfl | exact absurd rfl h

@[simp] theorem socket_putBack (j : OutputStreams) (w : Writer) (c : OutChan) :
    (j.putBack w c).socket = c.out := by cases w <;> rfl

@[simp] theorem request_putBack (j : OutputStreams) (w : Writer) (c : OutChan) :
    (j.putBack w c).request = c.request := by cases w <;> rfl

end OutputStreams

/-! ### Two streams side by side -/

/-- What the streams of C and Java read of their request is the same. -/
structure SameRequest (req : ReqData) (q : FcgiRequest) : Prop where
  requestId : req.requestId = q.requestID
  appStatus : req.appStatus = q.appStatus
  nWriters : req.nWriters = q.numWriters

/-- Two streams that are open and hold the same, or that are both closed. -/
inductive Twins (s : Stream) (t : FcgiOutputStream) : Prop
  | holding {pending : List UInt8} (h : s.Holding pending) (h' : t.Holding pending)
      (hstop : s.stop = t.stop) (hany : s.isAnythingWritten = t.isAnythingWritten)
  | finished (h : s.Finished) (h' : t.Finished)

/-- Since `c` and `j` both streams have sent the same records, but for the padding. -/
def SameSent (c c' : Chan) (j j' : OutChan) : Prop :=
  ∃ recs recs', c.os.Sent c'.os (encodeAll recs) ∧ j.out.Sent j'.out (encodeAll recs') ∧
    recs.map Record.unpadded = recs'.map Record.unpadded

/-- Since `c` and `j` both streams have sent the same records, and they hold the same. -/
def Alongside (c : Chan) (j : OutChan) (c' : Chan) (j' : OutChan) : Prop :=
  ∃ recs recs' pending, c.Wrote c' recs pending ∧ j.Wrote j' recs' pending ∧
    recs.map Record.unpadded = recs'.map Record.unpadded ∧ c'.stream.stop = j'.stream.stop

section Together

variable {c : Chan} {j : OutChan}

theorem Alongside.wrNext_eq {c' : Chan} {j' : OutChan} (h : Alongside c j c' j') :
    c'.stream.wrNext = j'.stream.wrNext ∧ c'.stream.stop = j'.stream.stop := by
  obtain ⟨recs, recs', pending, hw, hw', -, hstop⟩ := h
  exact ⟨hw.holding.wrNext_eq.trans hw'.holding.wrNext_eq.symm, hstop⟩

theorem Alongside.put {c' : Chan} {j' : OutChan} (h : Alongside c j c' j') {bs : List UInt8}
    (hroom : bs.length ≤ c'.stream.stop - c'.stream.wrNext) :
    Alongside c j (c'.put bs) (j'.put bs) := by
  obtain ⟨hnext, hstop⟩ := h.wrNext_eq
  obtain ⟨recs, recs', pending, hw, hw', hsame, -⟩ := h
  refine ⟨recs, recs', pending ++ bs, hw.put hroom, hw'.put ?_, hsame, hstop⟩
  rwa [← hnext, ← hstop]

theorem emptyBuffProc_stop (c : Chan) : (emptyBuffProc c).stream.stop = c.stream.stop := by
  have henc : (encapsulate c).stream.stop = c.stream.stop := by
    rw [FastCgi.encapsulate]
    split
    · rfl
    · split <;> rfl
  rw [emptyBuffProc, ← henc]
  rcases flushBuff_spec (encapsulate c) with ⟨os', hflush, -⟩ | ⟨e, os', hflush, -⟩ <;>
    · rw [hflush]
      rfl

/-- What two streams have to have in common before they go on side by side. -/
structure Paired (c : Chan) (j : OutChan) : Prop where
  type : c.stream.type = j.stream.type
  request : SameRequest c.req j.request
  fits : c.Fits
  neverFails : c.os.NeverFails
  neverThrows : j.out.NeverThrows

theorem Paired.fits_java (h : Paired c j) : j.Fits :=
  ⟨h.type ▸ h.fits.type_lt, h.request.requestId ▸ h.fits.requestId_lt⟩

/-- The two buffers go out at the same moment, as the same record. -/
theorem Alongside.empty {c' : Chan} {j' : OutChan} (hp : Paired c j) (h : Alongside c j c' j') :
    Alongside c j (emptyBuffProc c') j'.empty := by
  obtain ⟨-, hstop⟩ := h.wrNext_eq
  obtain ⟨recs, recs', pending, hw, hw', hsame, -⟩ := h
  obtain ⟨log, -, -, -, hnever⟩ := hw.sent
  obtain ⟨more, hblock, hsent | hcut⟩ := emptyBuffProc_holding hw.holding (hw.fits hp.fits)
  · obtain ⟨more', hblock', hsent'⟩ :=
      empty_holding hw'.holding (hw'.fits hp.fits_java) hw'.sent.neverThrows
    have htype : j'.stream.type = c'.stream.type := by rw [hw'.type, hw.type, hp.type]
    have hid : j'.request.requestID = c'.req.requestId := by
      rw [hw'.request, hw.req, hp.request.requestId]
    rw [htype, hid] at hblock'
    refine ⟨recs ++ more, recs' ++ more', [], hw.trans hsent, hw'.trans hsent', ?_, ?_⟩
    · rw [List.map_append, List.map_append, hsame, hblock.unpadded_eq hblock']
    · rw [emptyBuffProc_stop, hsent'.stop, hstop]
  · exact absurd (hnever hp.neverFails) hcut.1

theorem Alongside.isOpen {c' : Chan} {j' : OutChan} (h : Alongside c j c' j') :
    (c'.stream.isClosed || c'.stream.isReader) = false ∧ j'.stream.isClosed = false := by
  obtain ⟨recs, recs', pending, hw, hw', -⟩ := h
  exact ⟨by rw [hw.holding.isOpen, hw.holding.isReader]; rfl, hw'.holding.isOpen⟩

/-! ### Putting bytes -/

/-- How the loops of `FCGX_PutStr` and of `write` go on: both streams have been given the same
number of bytes. -/
def LoopAlongside (c : Chan) (j : OutChan) (x : ℕ × Chan) (y : ℕ × OutChan) : Prop :=
  x.1 = y.1 ∧ Alongside c j x.2 y.2

theorem putStrEmpty_alongside (hp : Paired c j) {x : ℕ × Chan} {y : ℕ × OutChan}
    {p : Pass (ℕ × Chan) (ℤ × Chan)} (h : LoopAlongside c j x y)
    (hpass : putStrEmpty x = some p) :
    p.Rel (LoopAlongside c j) (fun r r' => Alongside c j r.2 r'.2) (OutChan.writeEmpty y) := by
  obtain ⟨hopen, hopen'⟩ := h.2.isOpen
  rw [putStrEmpty, hopen, if_neg (by decide)] at hpass
  obtain rfl := Option.some.inj hpass
  rw [OutChan.writeEmpty, hopen', if_neg (by decide)]
  exact ⟨h.1, h.2.empty hp⟩

/-- One pass: both loops store the same bytes, and go round again together. -/
theorem putStrBody_alongside (hp : Paired c j) (str : List UInt8) {x : ℕ × Chan}
    {y : ℕ × OutChan} {p : Pass (ℕ × Chan) (ℤ × Chan)} (h : LoopAlongside c j x y)
    (hpass : putStrBody str x = some p) :
    ∃ p', OutChan.writeBody str y = some p' ∧
      p.Rel (LoopAlongside c j) (fun r r' => Alongside c j r.2 r'.2) p' := by
  obtain ⟨k, c'⟩ := x
  obtain ⟨k', j'⟩ := y
  obtain ⟨rfl, h⟩ : k = k' ∧ Alongside c j c' j' := h
  obtain ⟨hnext, hstop⟩ := h.wrNext_eq
  let m := min (str.length - k) (c'.stream.stop - c'.stream.wrNext)
  have hbody : OutChan.writeBody str (k, j') =
      if c'.stream.wrNext = c'.stream.stop then some (OutChan.writeEmpty (k, j'))
      else if k + m = str.length then some (.done (true, j'.put ((str.drop k).take m)))
      else some (OutChan.writeEmpty (k + m, j'.put ((str.drop k).take m))) := by
    simp only [OutChan.writeBody, m, hnext, hstop]
  have hput : Alongside c j (c'.put ((str.drop k).take m)) (j'.put ((str.drop k).take m)) := by
    apply h.put
    rw [List.length_take]
    omega
  rw [hbody]
  rw [putStrBody] at hpass
  split at hpass
  · next hfull =>
      rw [if_pos hfull]
      exact ⟨_, rfl, putStrEmpty_alongside hp ⟨rfl, h⟩ hpass⟩
  · next hroom =>
      rw [if_neg hroom]
      split at hpass
      · next hall =>
          rw [if_pos hall]
          obtain rfl := Option.some.inj hpass
          exact ⟨_, rfl, hput⟩
      · next hmore =>
          rw [if_neg hmore]
          exact ⟨_, rfl, putStrEmpty_alongside hp ⟨rfl, hput⟩ hpass⟩

/-- **`FCGX_PutStr` and `write` of an array** go on side by side. -/
theorem fcgxPutStr_alongside (hp : Paired c j) {c' : Chan} {j' : OutChan}
    (h : Alongside c j c' j') (str : List UInt8) {z : ℤ} {c'' : Chan}
    (hput : fcgxPutStr str c' = some (z, c'')) :
    ∃ ok j'', j'.writeBytes str = some (ok, j'') ∧ Alongside c j c'' j'' := by
  obtain ⟨hnext, hstop⟩ := h.wrNext_eq
  rw [OutChan.writeBytes, ← hnext, ← hstop]
  rw [fcgxPutStr] at hput
  split at hput
  · next hroom =>
      rw [if_pos hroom]
      obtain rfl := congrArg Prod.snd (Option.some.inj hput)
      exact ⟨_, _, rfl, h.put hroom⟩
  · next hslow =>
      rw [if_neg hslow]
      obtain ⟨⟨ok, j''⟩, hrun, hrel⟩ := run_rel
        (fun _ _ _ hx hpass => putStrBody_alongside hp str hx hpass)
        (show LoopAlongside c j (0, c') (0, j') from ⟨rfl, h⟩) hput
      exact ⟨ok, j'', hrun, hrel⟩

/-- `FCGX_PutChar` and `write` of a byte. -/
theorem fcgxPutChar_alongside (hp : Paired c j) {c' : Chan} {j' : OutChan}
    (h : Alongside c j c' j') (b : UInt8) {ok : Bool} {c'' : Chan}
    (hput : fcgxPutChar b c' = some (ok, c'')) : Alongside c j c'' (j'.write b).2 := by
  obtain ⟨hnext, hstop⟩ := h.wrNext_eq
  obtain ⟨hopen, hopen'⟩ := h.isOpen
  have hone : ∀ {d : Chan} {e : OutChan}, Alongside c j d e → d.stream.wrNext ≠ d.stream.stop →
      Alongside c j (d.put [b]) (e.put [b]) := by
    intro d e hd hne
    have hle : d.stream.wrNext ≤ d.stream.stop := by
      obtain ⟨recs, recs', pending, hw, -⟩ := hd
      exact hw.holding.wrNext_le
    apply hd.put
    rw [List.length_singleton]
    omega
  rw [OutChan.write, ← hnext, ← hstop]
  rw [fcgxPutChar, hopen] at hput
  split at hput
  · next hroom =>
      rw [if_pos hroom]
      obtain rfl := congrArg Prod.snd (Option.some.inj hput)
      exact hone h hroom
  · next hfull =>
      have hempty := h.empty hp
      obtain ⟨hnext', hstop'⟩ := hempty.wrNext_eq
      obtain ⟨hopen'', -⟩ := hempty.isOpen
      rw [Bool.or_eq_false_iff] at hopen''
      rw [if_neg (by decide)] at hput
      rw [if_neg hfull, hopen', if_neg (by decide)]
      dsimp only at hput ⊢
      rw [← hnext', ← hstop']
      split at hput
      · next hroom =>
          rw [if_pos hroom]
          obtain rfl := congrArg Prod.snd (Option.some.inj hput)
          exact hone hempty hroom
      · rw [hopen''.1, if_neg (by decide)] at hput
        cases hput

/-! ### One call -/

/-- Two streams after a call on both. -/
structure Together (c : Chan) (j : OutChan) (c' : Chan) (j' : OutChan) : Prop where
  twins : Twins c'.stream j'.stream
  type : c'.stream.type = c.stream.type
  paired : Paired c' j'
  sent : SameSent c c' j j'

theorem Paired.sent {c' : Chan} {j' : OutChan} (h : Paired c j)
    (htype : c'.stream.type = c.stream.type) (htype' : j'.stream.type = j.stream.type)
    (hreq : SameRequest c'.req j'.request) (hid : c'.req.requestId = c.req.requestId)
    (hsent : SameSent c c' j j') : Paired c' j' := by
  obtain ⟨recs, recs', ⟨log, -, -, -, hnever⟩, hsent', -⟩ := hsent
  refine ⟨by rw [htype, htype', h.type], hreq, ⟨?_, ?_⟩, hnever h.neverFails, hsent'.neverThrows⟩
  · rw [htype]
    exact h.fits.type_lt
  · rw [hid]
    exact h.fits.requestId_lt

theorem Alongside.together (hp : Paired c j)
    (hany : c.stream.isAnythingWritten = j.stream.isAnythingWritten) {c' : Chan} {j' : OutChan}
    (h : Alongside c j c' j') : Together c j c' j' := by
  obtain ⟨recs, recs', pending, hw, hw', hsame, hstop⟩ := h
  have hsent : SameSent c c' j j' := ⟨recs, recs', hw.sent, hw'.sent, hsame⟩
  have hnil : recs = [] ↔ recs' = [] := by
    rw [← List.map_eq_nil_iff, hsame, List.map_eq_nil_iff]
  refine ⟨.holding hw.holding hw'.holding hstop ?_, hw.type, ?_, hsent⟩
  · rw [hw.isAnythingWritten, hw'.isAnythingWritten, hany]
    simp only [ne_eq, hnil]
  · refine hp.sent hw.type hw'.type ?_ (by rw [hw.req]) hsent
    rw [hw.req, hw'.request]
    exact hp.request

/-- A call on two streams that are open and hold the same. -/
theorem perform_holding (hp : Paired c j) {pending : List UInt8} (h : c.stream.Holding pending)
    (h' : j.stream.Holding pending) (hstop : c.stream.stop = j.stream.stop)
    (hany : c.stream.isAnythingWritten = j.stream.isAnythingWritten) (call : ClientCall) :
    ∃ c' j', call.perform c = some c' ∧ perform call j = some j' ∧ Together c j c' j' := by
  have hstart : Alongside c j c j :=
    ⟨[], [], pending, .refl h, .refl h' hp.neverThrows, rfl, hstop⟩
  cases call with
  | putChar b =>
      obtain ⟨z, c', -, ok, hput⟩ := fcgxPutChar_eq h.toIsWriter b
      refine ⟨c', (j.write b).2, ?_, rfl, (fcgxPutChar_alongside hp hstart b hput).together hp hany⟩
      rw [ClientCall.perform, hput]
      rfl
  | putStr str =>
      obtain ⟨z, c', hput, -⟩ := fcgxPutStr_grows h.toIsWriter str
      obtain ⟨ok, j', hwrite, hend⟩ := fcgxPutStr_alongside hp hstart str hput
      refine ⟨c', j', ?_, ?_, hend.together hp hany⟩
      · rw [ClientCall.perform, hput]
        rfl
      · rw [perform, hwrite]
        rfl
  | fflush =>
      refine ⟨emptyBuffProc c, j.empty, ?_, ?_, (hstart.empty hp).together hp hany⟩
      · simp [ClientCall.perform, fcgxFFlush, h.isOpen, h.isReader]
      · simp [perform, OutChan.flush, h'.isOpen]
  | fclose =>
      obtain ⟨z, c', recs, hclose, -, hblock, hend⟩ := fcgxFClose_holding h hp.fits
      obtain ⟨j', recs', hclose', hblock', hsent', hreq', hfin', htype'⟩ :=
        close_holding h' hp.fits_java hp.neverThrows
      obtain ⟨hsent, hreq, hfin, htype⟩ := hend.resolve_right fun hcut => hcut.1 hp.neverFails
      -- the two have put the same content into their last record, if there was any
      rw [← hp.type, ← hp.request.requestId] at hblock' hsent'
      rw [← hany, ← hp.request.appStatus, ← hp.request.nWriters] at hsent'
      have hsame := hblock.unpadded_eq hblock'
      have hnil : recs = [] ↔ recs' = [] := by
        rw [← List.map_eq_nil_iff, hsame, List.map_eq_nil_iff]
      have hboth : SameSent c c' j j' := by
        refine ⟨_, _, hsent, hsent', ?_⟩
        simp only [List.map_append, hsame, ne_eq, hnil]
      refine ⟨c', j', ?_, ?_, .finished hfin hfin', htype, ?_, hboth⟩
      · rw [ClientCall.perform, hclose]
        rfl
      · rw [perform, hclose']
        rfl
      · refine hp.sent htype htype' ?_ (by rw [hreq]) hboth
        rw [hreq, hreq']
        exact ⟨hp.request.requestId, hp.request.appStatus,
          congrArg (· - 1) hp.request.nWriters⟩

/-- **One call** on two streams side by side. -/
theorem Twins.perform (h : Twins c.stream j.stream) (hp : Paired c j) (call : ClientCall) :
    ∃ c' j', call.perform c = some c' ∧ perform call j = some j' ∧ Together c j c' j' := by
  cases h with
  | holding h h' hstop hany => exact perform_holding hp h h' hstop hany call
  | finished h h' =>
      refine ⟨c, j, ClientCall.perform_finished h call, perform_finished h' call,
        .finished h h', rfl, hp, [], [], .refl _, .refl hp.neverThrows, rfl⟩

end Together

/-! ### Whole runs -/

/-- The writers of a C request and the output streams of a Java request, side by side. -/
structure SideBySide (r : Request) (j : OutputStreams) : Prop where
  request : SameRequest r.req j.request
  requestId_lt : r.req.requestId < 65536
  neverFails : r.os.NeverFails
  neverThrows : j.socket.NeverThrows
  writer : ∀ w, ∃ s, r.writer w = some s ∧ s.type = w.type ∧ (j.stream w).type = w.type ∧
    Twins s (j.stream w)

theorem SideBySide.perform {r : Request} {j : OutputStreams} (h : SideBySide r j) (w : Writer)
    (call : ClientCall) :
    ∃ r' j', r.perform w call = some r' ∧ j.perform w call = some j' ∧ SideBySide r' j' ∧
      ∃ recs recs', r.os.Sent r'.os (encodeAll recs) ∧ j.socket.Sent j'.socket (encodeAll recs') ∧
        recs.map Record.unpadded = recs'.map Record.unpadded := by
  obtain ⟨s, hs, htype, htype', htwins⟩ := h.writer w
  have hp : Paired (r.chan s) (j.chan w) :=
    ⟨htype.trans htype'.symm, h.request, ⟨htype ▸ w.type_lt, h.requestId_lt⟩, h.neverFails,
      h.neverThrows⟩
  obtain ⟨c, d, hcall, hcall', hend⟩ := Twins.perform (c := r.chan s) (j := j.chan w) htwins hp call
  refine ⟨r.putBack w c, j.putBack w d, ?_, ?_, ⟨?_, ?_, ?_, ?_, fun w' => ?_⟩, ?_⟩
  · rw [Request.perform, hs]
    simp only [hcall, Option.map_some]
  · rw [OutputStreams.perform, hcall', Option.map_some]
  · rw [Request.putBack_req, OutputStreams.request_putBack]
    exact hend.paired.request
  · rw [Request.putBack_req]
    exact hend.paired.fits.requestId_lt
  · rw [Request.putBack_os]
    exact hend.paired.neverFails
  · rw [OutputStreams.socket_putBack]
    exact hend.paired.neverThrows
  · by_cases hw : w' = w
    · subst hw
      have hctype : c.stream.type = w'.type := hend.type.trans htype
      rw [OutputStreams.stream_putBack]
      exact ⟨c.stream, Request.writer_putBack .., hctype, hend.paired.type ▸ hctype, hend.twins⟩
    · rw [Request.writer_putBack_ne r hw, j.stream_putBack_ne hw]
      exact h.writer w'
  · obtain ⟨recs, recs', hsent, hsent', hsame⟩ := hend.sent
    refine ⟨recs, recs', ?_, ?_, hsame⟩
    · rwa [Request.putBack_os]
    · rwa [OutputStreams.socket_putBack]

/-- What two requests have sent since they were side by side. -/
theorem SideBySide.performWrites {r : Request} {j : OutputStreams} (h : SideBySide r j)
    (calls : List (Writer × ClientCall)) :
    ∃ r' j' recs recs', performWrites calls r = some r' ∧ j.performWrites calls = some j' ∧
      r.os.Sent r'.os (encodeAll recs) ∧ j.socket.Sent j'.socket (encodeAll recs') ∧
      recs.map Record.unpadded = recs'.map Record.unpadded := by
  induction calls generalizing r j with
  | nil => exact ⟨r, j, [], [], rfl, rfl, .refl _, .refl h.neverThrows, rfl⟩
  | cons call calls ih =>
      obtain ⟨w, call⟩ := call
      obtain ⟨r₁, j₁, hcall, hcall', h₁, recs, recs', hsent, hsent', hsame⟩ := h.perform w call
      obtain ⟨r', j', more, more', hcalls, hcalls', hmore, hmore', hsame'⟩ := ih h₁
      refine ⟨r', j', recs ++ more, recs' ++ more', ?_, ?_, ?_, ?_, ?_⟩
      · rw [FastCgi.performWrites, hcall]
        exact hcalls
      · rw [OutputStreams.performWrites, hcall']
        exact hcalls'
      · rw [encodeAll_append]
        exact hsent.trans hmore
      · rw [encodeAll_append]
        exact hsent'.trans hmore'
      · rw [List.map_append, List.map_append, hsame, hsame']

/-- The writers of a request and the output streams of one in Java, as they are made: for the
same request and with buffers of the same lengths, on descriptors that do not fail. -/
structure MadeAlike (len : Writer → ℕ) (r : Request) (j : OutputStreams) : Prop where
  len_mod : ∀ w, len w % 8 = 0
  len_ge : ∀ w, 32 ≤ len w
  len_le : ∀ w, len w ≤ 65528
  requestId_lt : r.req.requestId < 65536
  request : SameRequest r.req j.request
  writer : ∀ w, ∃ mBuff stale, alignPtr8 mBuff = mBuff ∧
    r.writer w = some (newStream mBuff stale (len w) false w.type)
  stream : ∀ w, j.stream w = newOutputStream (len w) w.type
  neverFails : r.os.NeverFails
  neverThrows : j.socket.NeverThrows

theorem newStream_stop {mBuff len type : ℕ} {stale : ℕ → UInt8} (halign : alignPtr8 mBuff = mBuff)
    (hmod : len % 8 = 0) (hge : 32 ≤ len) (hle : len ≤ 65528) :
    (newStream mBuff stale len false type).stop = len := by
  have hmax : (min (max (len : ℤ) 32) (fcgiMaxLength + 1)).toNat = len := by
    have : fcgiMaxLength = 65535 := rfl
    omega
  simp only [newStream, halign, ne_eq, not_true_eq_false, if_false, hmax, alignInt8]
  show (len + 7) / 8 * 8 = len
  omega

theorem holding_newOutputStream {len : ℕ} (hge : 32 ≤ len) (type : ℕ) :
    (newOutputStream len type).Holding [] where
  isOpen := rfl
  rawWrite := rfl
  wrNext_le := by
    show 8 ≤ min len 65535
    omega
  stop_le := Nat.min_le_right _ _
  stop_ge := by
    show 24 ≤ min len 65535
    omega
  wrNext_eq := rfl
  content := rfl

theorem MadeAlike.sideBySide {len : Writer → ℕ} {r : Request} {j : OutputStreams}
    (h : MadeAlike len r j) : SideBySide r j where
  request := h.request
  requestId_lt := h.requestId_lt
  neverFails := h.neverFails
  neverThrows := h.neverThrows
  writer w := by
    obtain ⟨mBuff, stale, halign, hs⟩ := h.writer w
    refine ⟨_, hs, rfl, by rw [h.stream]; rfl, ?_⟩
    rw [h.stream]
    refine .holding (holding_newStream ..) (holding_newOutputStream (h.len_ge w) _) ?_ rfl
    have hle := h.len_le w
    rw [newStream_stop halign (h.len_mod w) (h.len_ge w) hle]
    show len w = min (len w) 65535
    omega

/-- **The Java writer and the C writer send the same records**: whatever is put on the two
streams of a request, in whatever order they are flushed and closed, what goes out parses into
the same types, request ids and contents, and only the padding differs. -/
theorem java_sameRecords {len : Writer → ℕ} {r : Request} {j : OutputStreams}
    (h : MadeAlike len r j) (calls : List (Writer × ClientCall)) :
    ∃ r' j' recs recs', performWrites calls r = some r' ∧ j.performWrites calls = some j' ∧
      r.os.Sent r'.os (encodeAll recs) ∧ j.socket.Sent j'.socket (encodeAll recs') ∧
      recs.map Record.unpadded = recs'.map Record.unpadded :=
  h.sideBySide.performWrites calls

/-- Request 1 with two writers, whose buffers hold 32 and 40 bytes. -/
def shortWriters : Request :=
  { idleRequest with
    req := { idleRequest.req with requestId := 1, nWriters := 2 }
    out := some (newStream 16 (fun _ => 0) 32 false fcgiStdout)
    err := some (newStream 64 (fun _ => 0) 40 false fcgiStderr)
    os := .sending [] [] [.accept 4] }

/-- The same request in Java. -/
def shortOutputStreams : OutputStreams :=
  { outStream := newOutputStream 32 fcgiStdout
    errStream := newOutputStream 40 fcgiStderr
    request := { requestID := 1, appStatus := 0, numWriters := 2 }
    socket := { written := [], results := [none] } }

theorem java_sameRecords_two :
    ∃ r' j' recs recs',
      performWrites [(.out, .putStr (List.replicate 60 65)), (.err, .putChar 66), (.out, .fflush),
        (.err, .fclose), (.out, .fclose)] shortWriters = some r' ∧
      shortOutputStreams.performWrites [(.out, .putStr (List.replicate 60 65)),
        (.err, .putChar 66), (.out, .fflush), (.err, .fclose), (.out, .fclose)] = some j' ∧
      shortWriters.os.Sent r'.os (encodeAll recs) ∧
      shortOutputStreams.socket.Sent j'.socket (encodeAll recs') ∧
      recs.map Record.unpadded = recs'.map Record.unpadded := by
  let len (w : Writer) : ℕ := match w with
    | .out => 32
    | .err => 40
  have h : MadeAlike len shortWriters shortOutputStreams := by
    refine ⟨?_, ?_, ?_, by decide, ⟨rfl, rfl, rfl⟩, ?_, ?_, ?_, ?_⟩
    · exact fun w => by cases w <;> decide
    · exact fun w => by cases w <;> decide
    · exact fun w => by cases w <;> decide
    · intro w
      cases w with
      | out => exact ⟨16, fun _ => 0, rfl, rfl⟩
      | err => exact ⟨64, fun _ => 0, rfl, rfl⟩
    · exact fun w => by cases w <;> rfl
    · exact ⟨rfl, fun e he => by simp [shortWriters, Os.sending] at he⟩
    · exact fun k hk => by simp [shortOutputStreams] at hk
  exact java_sameRecords h _

end Java

end FastCgi
