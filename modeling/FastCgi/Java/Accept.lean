import FastCgi.App.GetParam
import FastCgi.App.Padding
import FastCgi.Java.OwnRecords

/-!
Requests in Java (`FCGIAccept` of `java/FCGIInterface.java`) and in C.

`fcgiAccept` finishes the request before, takes a connection and reads the
role and the parameters from it. Like `FCGX_Accept_r` it is a loop, but it
tries one new connection only: behind that it returns.

Where the records of a request have no padding that `setReaderType` forgets,
both libraries accept the same requests, and the application reads the same
from them, however the bytes arrive in each (`java_sameRequests`).
-/

namespace FastCgi

namespace Java

open ByteMem BoundedLoop

/-! ### `FCGIAccept` -/

/-- A connection: what comes from the server, and what goes to it. -/
structure Socket where
  inp : FileInputStream
  out : FileOutputStream

/-- `FCGIRequest`; what is `null` is `none`. `params` is what has been put, in order; the default
properties behind it are left out. -/
structure WholeRequest where
  request : InRequest
  inStream : Option FcgiInputStream
  errStream : Option FcgiOutputStream
  params : List NameValue
  socket : Option Socket

/-- `new FCGIRequest()`. -/
def newRequest : WholeRequest :=
  { request :=
      { requestID := 0, appStatus := 0, numWriters := 0, isBeginProcessed := false
        keepConnection := false, role := 0, outStream := none }
    inStream := none
    errStream := none
    params := []
    socket := none }

/-- `System.err.close()` or `System.out.close()`, which swallows an exception; the bytes that have
been written there have gone to the stream before. -/
def closeStream (s : Option FcgiOutputStream) (request : InRequest) (out : FileOutputStream) :
    Option (Option FcgiOutputStream × InRequest × FileOutputStream) :=
  match s with
  | none => some (none, request, out)
  | some s =>
      (OutChan.close { stream := s, request := request.toFcgiRequest, out := out }).map fun x =>
        (some x.2.stream, { request with toFcgiRequest := x.2.request }, x.2.out)

namespace WholeRequest

/-- Both streams are closed. -/
def closeStreams (j : WholeRequest) (s : Socket) : Option WholeRequest :=
  match closeStream j.errStream j.request s.out with
  | none => none
  | some (err, request, out) =>
      match closeStream request.outStream request out with
      | none => none
      | some (outStream, request, out) =>
          some { j with
            request := { request with outStream := outStream }
            errStream := err
            socket := some { s with out := out } }

/-- `prevRequestfailed`. -/
def failed (s : FcgiInputStream) : Bool := s.errno ≠ 0 || s.errex

/-- Complete the previous request; `none` inside is `request = null`. Without a socket the streams
have been closed before, and `request.socket.close()` throws an exception. -/
def finish (j : WholeRequest) : Option (Option WholeRequest) :=
  match j.inStream, j.socket with
  | some inStream, some s =>
      (j.closeStreams s).map fun j =>
        if failed inStream then none
        else some (if j.request.keepConnection then j else { j with socket := none })
  | some inStream, none =>
      if failed inStream || !j.request.keepConnection then none else some (some j)
  | none, _ => none

/-- `isBeginProcessed = false; inStream = new FCGIInputStream(..., 8192, 0, request)`. -/
def openReader (j : WholeRequest) (s : Socket) : InChan :=
  { stream := newInputStream 8192 0, request := { j.request with isBeginProcessed := false }
    inp := s.inp, socket := s.out }

/-- The request with a stream and what it refers to. -/
def putBack (j : WholeRequest) (c : InChan) : WholeRequest :=
  { j with
    request := c.request, inStream := some c.stream
    socket := some { inp := c.inp, out := c.socket } }

/-- The value of `ROLE`; other roles are not served. -/
def roleName (role : ℕ) : Option (List UInt8) :=
  if role = fcgiResponder then some (ascii ['R', 'E', 'S', 'P', 'O', 'N', 'D', 'E', 'R'])
  else if role = fcgiAuthorizer then
    some (ascii ['A', 'U', 'T', 'H', 'O', 'R', 'I', 'Z', 'E', 'R'])
  else if role = fcgiFilter then some (ascii ['F', 'I', 'L', 'T', 'E', 'R'])
  else none

/-- The key of the role. -/
def roleKey : List UInt8 := ascii ['R', 'O', 'L', 'E']

/-- Set up the objects for the new request, whose stream is that of `c`. -/
def setUp (j : WholeRequest) (c : InChan) : Option (ℤ × WholeRequest) :=
  match roleName c.request.role with
  | none => some (-1, { j.putBack c with params := [] })
  | some name =>
      match (c.setReaderType fcgiParams).readParams InChan.fill [⟨roleKey, name⟩] with
      | none => none
      | some (rc, params, c) =>
          if rc < 0 then some (-1, { j.putBack c with params := params })
          else
            let c := c.setReaderType fcgiStdin
            some (0, { j.putBack c with
              request := { c.request with
                numWriters := 2, outStream := some (newOutputStream 8192 fcgiStdout) }
              errStream := some (newOutputStream 512 fcgiStderr)
              params := params })

/-- `srvSocket.accept()`, and the pass of the loop for this connection. -/
def acceptNew (j : WholeRequest) :
    List (Option Socket) → Option (ℤ × Option WholeRequest × List (Option Socket))
  | [] => none
  | none :: pending => some (-1, none, pending)
  | some s :: pending =>
      match InChan.fill (j.openReader s) with
      | none => none
      | some c =>
          if c.request.isBeginProcessed then
            (j.setUp c).map fun x => (x.1, some x.2, pending)
          else some (-1, some { j.putBack c with socket := none }, pending)

/-- The loop, from a request that has been finished. -/
def acceptLoop (j : WholeRequest) (pending : List (Option Socket)) :
    Option (ℤ × Option WholeRequest × List (Option Socket)) :=
  match j.socket with
  | none => j.acceptNew pending
  | some s =>
      match InChan.fill (j.openReader s) with
      | none => none
      | some c =>
          if c.request.isBeginProcessed then
            (j.setUp c).map fun x => (x.1, some x.2, pending)
          else { j.putBack c with socket := none }.acceptNew pending

end WholeRequest

/-- `FCGIAccept`, with the variable `request` of `FCGIInterface` before and after it; `pending` is
what the next calls of `srvSocket.accept` return, where `none` is an exception. -/
def fcgiAccept (request : Option WholeRequest) (pending : List (Option Socket)) :
    Option (ℤ × Option WholeRequest × List (Option Socket)) :=
  match request with
  | none => newRequest.acceptLoop pending
  | some j =>
      match j.finish with
      | none => none
      | some none => some (-1, none, pending)
      | some (some j) => j.acceptLoop pending

/-! ### The record that begins a request -/

/-- What the record says about the request. -/
def InRequest.begun (b : Record) (request : InRequest) : InRequest :=
  { request with
    requestID := b.requestId.toNat
    keepConnection := ((b.content.getD 2 0).toNat &&& fcgiKeepConn) ≠ 0
    role := (b.content.getD 0 0).toNat <<< 8 ||| (b.content.getD 1 0).toNat
    isBeginProcessed := true }

namespace InChan

variable {c start : InChan} {r e : ℕ} {b : Record} {rest headerBuf : List UInt8}

/-- The loop of `fill` before the first header. -/
structure Beginning (start : InChan) (b : Record) (rest headerBuf : List UInt8) (c : InChan) :
    Prop where
  kept : Undisturbed start c
  isOpen : c.stream.isClosed = false
  spans : ∃ r e, c.Spans r e
  inRecord : InRecord c.stream false 0 0 false
  got : headerBuf.length < 8
  unread : headerBuf ++ c.unread = b.header.bytes ++ (b.content ++ rest)

/-- The request has begun. -/
structure Begun (start : InChan) (b : Record) (rest : List UInt8) (c : InChan) : Prop where
  spans : ∃ r e, c.Spans r e
  request : c.request = start.request.begun b
  errno : c.stream.errno = start.stream.errno
  socket : c.socket = start.socket
  unread : c.unread = rest

/-- A stream in front of the body delivers it. -/
theorem InBody.reading {bs : List UInt8} (h : InBody start rest bs c)
    (hstop : c.stream.rdNext = c.stream.stop) :
    Reading (InBody start rest) (LeftAt start rest) bs c := by
  obtain ⟨r, e, hspans⟩ := h.spans
  refine .live hspans.rdNext (hstop ▸ hspans.rdNext) le_rfl ?_ (by rwa [toStop_of_eq hstop])
  rw [Nat.sub_self, slice_zero, List.nil_append]

theorem readBegin_body (d : ℕ) {requestID : ℕ} (hrest : rest ≠ []) {body : List UInt8}
    (hlen : body.length = 8)
    (hstart : start = { c with request := { c.request with requestID := requestID } })
    (hbody : InBody start rest body start) (hstop : start.stream.rdNext = start.stream.stop) :
    ∃ c', readBegin (fillAt (d + 1)) requestID c = some (.beginRecord, c'.begin body) ∧
      LeftAt start rest c' ∧ ∃ r e, c'.Spans r e := by
  obtain ⟨c', hread, hreading, -⟩ :=
    (supplies_body d start hrest).readBytes (hbody.reading hstop) 8
  have hall : body.take (8 : ℤ).toNat = body := List.take_of_length_le hlen.le
  have hnone : body.drop (8 : ℤ).toNat = [] := List.drop_eq_nil_of_le hlen.le
  rw [hall] at hread
  rw [hnone] at hreading
  obtain ⟨hleft, hspans⟩ := hreading.leftAt
  refine ⟨c', ?_, hleft, hspans⟩
  simp only [readBegin, ← hstart, hread, hlen, ne_eq, not_true_eq_false, if_false]

/-- `processHeader` reads the body of the record. -/
theorem processHeader_begun (d : ℕ) (hb : b.Begins) (hpad : b.padding = []) (hrest : rest ≠ [])
    (hkept : Undisturbed start c) (hopen : c.stream.isClosed = false) (hspans : c.Spans r e)
    (hrec : InRecord c.stream false 0 0 false) (hbegun : start.request.isBeginProcessed = false)
    (hunread : c.unread = b.content ++ rest) :
    ∃ c', processHeader (fillAt (d + 1)) b.header c.enterRecord = some (.beginRecord, c') ∧
      Begun start b rest c'.leaveRecord := by
  obtain ⟨htype, herrno, hrequest, hsocket⟩ := hkept
  obtain ⟨hr, he, hle, hroom, hchunks⟩ := hspans
  obtain ⟨c₁, hc₁⟩ : ∃ c₁, c.enterRecord.startRecord b.header = c₁ := ⟨_, rfl⟩
  have hlen : c₁.stream.contentLen = b.content.length := by
    rw [← b.header_contentLength, ← hc₁]
    rfl
  have hnone : c₁.stream.paddingLen = (0 : ℕ) := by
    rw [← List.length_nil, ← hpad, ← b.header_paddingLength, ← hc₁]
    rfl
  have hnew : c₁.request.isBeginProcessed = false := by
    rw [← hbegun, ← hrequest, ← hc₁]
    rfl
  obtain ⟨c₂, hc₂⟩ : ∃ c₂ : InChan, c₂ = { c₁ with
      request := { c₁.request with requestID := b.requestId.toNat } } := ⟨_, rfl⟩
  have hsame : c₂.stream = c₁.stream ∧ c₂.unread = c.unread ∧ c₂.inp = c.inp ∧
      c₂.request = { start.request with requestID := b.requestId.toNat } ∧
      c₂.socket = start.socket := by
    rw [hc₂, ← hrequest, ← hsocket, ← hc₁]
    exact ⟨rfl, rfl, rfl, rfl, rfl⟩
  obtain ⟨hstream₂, hunread₂, hinp₂, hrequest₂, hsocket₂⟩ := hsame
  have hspans₂ : c₂.Spans r e := by
    rw [hc₂, ← hc₁]
    exact ⟨hr, he, hle, hroom, hchunks⟩
  have hstream₁ : c₁.stream.eorStop = true ∧ c₁.stream.skip = false ∧
      c₁.stream.isClosed = false ∧ c₁.stream.errno = start.stream.errno ∧
      c₁.stream.rdNext = c₁.stream.stop := by
    rw [← hc₁]
    exact ⟨rfl, hrec.skip, hopen, herrno, rfl⟩
  obtain ⟨heor, hskip, hopen₁, herrno₁, hstop⟩ := hstream₁
  rw [← hstream₂] at heor hskip hopen₁ herrno₁ hstop hnone
  have hbody : InBody c₂ rest b.content c₂ :=
    ⟨⟨rfl, rfl, rfl, rfl⟩, hopen₁, ⟨r, e, hspans₂⟩, ⟨heor, hstream₂ ▸ hlen, hnone, hskip⟩,
      hunread₂.trans hunread⟩
  obtain ⟨c', hread, ⟨⟨-, herrno', hrequest', hsocket'⟩, hleft⟩, r', e', hspans'⟩ :=
    readBegin_body d hrest hb.length_content hc₂ hbody hstop
  refine ⟨c'.begin b.content, ?_, ?_⟩
  · have hgood : ¬ (b.requestId.toNat = 0 ∨ c₁.stream.contentLen ≠ 8) := by
      rw [hlen, hb.length_content]
      rintro (hzero | hne)
      · exact hb.id_ne_null hzero
      · exact hne rfl
    rw [processHeader, if_neg (by simp), dispatchHeader, b.header_type, hb.type_eq, if_pos rfl,
      b.header_requestId, hc₁, processBeginRecord, if_neg hgood, hnew, if_neg Bool.false_ne_true]
    exact hread
  · obtain ⟨hr', he', hle', hroom', hchunks'⟩ := hspans'
    refine ⟨⟨r', e', hr', he', hle', hroom', hchunks'⟩, ?_, herrno'.trans herrno₁,
      hsocket'.trans hsocket₂, hleft⟩
    show (c'.begin b.content).request = _
    rw [begin, hrequest', hrequest₂]
    rfl

/-- One pass of the loop of `fill`: bytes of the header arrive, or the request begins. -/
theorem fillBody_begun (d : ℕ) (hb : b.Begins) (hpad : b.padding = []) (hrest : rest ≠ [])
    (hbegun : start.request.isBeginProcessed = false) (h : Beginning start b rest headerBuf c) :
    ∃ pass, fillBody (fillAt (d + 1)) (headerBuf, c) = some pass ∧
      pass.Holds (fun x => Beginning start b rest x.1 x.2 ∧ x.2.unread.length < c.unread.length)
        (Begun start b rest) := by
  obtain ⟨hkept, hopen, ⟨r, e, hspans⟩, hrec, hgot, hunread⟩ := h
  have hne : c.unread ≠ [] := by
    intro hnil
    have hlen := congrArg List.length hunread
    rw [hnil, List.append_nil, List.length_append, Header.length_bytes] at hlen
    omega
  obtain ⟨c₁, r₁, e₁, hrefill, hspans₁, hlt, hunread₁, hsame⟩ := hspans.refill_next hne
  have hkept₁ := hkept.same hsame
  have hopen₁ : c₁.stream.isClosed = false := hsame.isClosed.trans hopen
  have hrec₁ := hrec.same hsame
  rw [← hunread₁] at hunread ⊢
  obtain ⟨c₂, k, hsteps, hrec₂, hpos, hgoes⟩ :=
    passHeader_collects (fillAt (d + 1)) hspans₁ hrec₁ hgot hunread
  have hless : c₂.unread.length + k = c₁.unread.length :=
    (hsteps.taken hspans₁).choose_spec.2.2.2
  have hopen₂ : c₂.stream.isClosed = false := hsteps.isClosed.trans hopen₁
  simp only [fillBody, hrefill, passContent_none hrec₁, passEnd, passPadding_none hrec₁,
    checkEor_stream hrec₁.eorStop]
  rcases hgoes with ⟨got', hpass, hgot', hwire⟩ | ⟨hpass, hleft⟩
  · have hk := hpos hlt
    refine ⟨_, hpass, ⟨hkept₁.steps hsteps, hopen₂, ⟨_, _, hsteps.spans⟩, hrec₂, hgot', hwire⟩, ?_⟩
    show c₂.unread.length < c₁.unread.length
    omega
  · obtain ⟨c', hprocess, hbegins⟩ := processHeader_begun d hb hpad hrest (hkept₁.steps hsteps)
      hopen₂ hsteps.spans hrec₂ hbegun hleft
    exact ⟨.done c'.leaveRecord, by rw [hpass, hprocess]; rfl, hbegins⟩

/-- **The request begins** with the first call of `fill`. -/
theorem fill_begun (hb : b.Begins) (hpad : b.padding = []) (hrest : rest ≠ [])
    (hbegun : start.request.isBeginProcessed = false) (hopen : start.stream.isClosed = false)
    (hspans : ∃ r e, start.Spans r e) (hrec : InRecord start.stream false 0 0 false)
    (hunread : start.unread = b.encode ++ rest) :
    ∃ c', InChan.fill start = some c' ∧ Begun start b rest c' := by
  rw [encode_append_eq, hpad, List.nil_append] at hunread
  have hstart : Beginning start b rest [] start :=
    ⟨⟨rfl, rfl, rfl, rfl⟩, hopen, hspans, hrec, Nat.zero_lt_succ 7, hunread⟩
  refine run_total_measured (n := start.unread.length)
    (fun n x => Beginning start b rest x.1 x.2 ∧ x.2.unread.length = n) _ ?_ ⟨hstart, rfl⟩
    (by omega)
  rintro n ⟨headerBuf, c⟩ ⟨h, rfl⟩
  obtain ⟨pass, hpass, hpassed⟩ := fillBody_begun 0 hb hpad hrest hbegun h
  cases pass with
  | done c' => exact .inl ⟨c', hpass, hpassed⟩
  | again x => exact .inr ⟨x, x.2.unread.length, hpass, ⟨hpassed.1, rfl⟩, hpassed.2⟩

/-! ### The streams of the request -/

/-- `setReaderType` in front of the records of a stream: they are what is read next. -/
theorem reading_setReaderType {T R : ℕ} (q : StreamRecords T R) {tail : List UInt8}
    (hspans : ∃ r e, c.Spans r e) (hid : c.request.requestID = R)
    (hunread : c.unread = q.wire ++ tail) :
    Reading (fun bs d => Awaits (c.setReaderType T) q.last tail bs [] d)
      (EndedBy (c.setReaderType T) q.last tail) q.content (c.setReaderType T) := by
  obtain ⟨r, e, hr, he, hle, hroom, hchunks⟩ := hspans
  subst hid
  refine .live hr hr le_rfl (by rw [Nat.sub_self, slice_zero, List.nil_append]) ?_
  rw [toStop_of_eq rfl]
  refine ⟨⟨rfl, rfl, rfl, rfl⟩, rfl, ⟨r, e, hr, he, hle, hroom, hchunks⟩, Nat.zero_lt_succ 7, [], [],
    q.records, ⟨rfl, rfl, rfl, rfl⟩, .inl rfl, ?_, q.own, rfl⟩
  show c.unread = _
  rw [hunread, StreamRecords.wire, List.append_assoc]
  rfl

theorem supplies_setReaderType {T R : ℕ} (q : StreamRecords T R) (tail : List UInt8)
    (hT : T ≠ fcgiBeginRequest) (hR : R ≠ fcgiNullRequestId) (hid : c.request.requestID = R) :
    Supplies InChan.fill (Reading (fun bs d => Awaits (c.setReaderType T) q.last tail bs [] d)
      (EndedBy (c.setReaderType T) q.last tail)) := by
  subst hid
  have hbegin : (c.setReaderType T).stream.type ≠ fcgiBeginRequest := hT
  exact supplies_own hbegin hR q.ends 1

/-- At its end the stream is behind its last record. -/
theorem Reading.endedBy {last : Record} {tail : List UInt8}
    (h : Reading (fun bs d => Awaits start last tail bs [] d) (EndedBy start last tail) [] c)
    (hend : c.AtEnd) : EndedBy start last tail c ∧ ∃ r e, c.Spans r e := by
  cases h with
  | live _ _ _ _ h => exact absurd (hend.isClosed.symm.trans h.isOpen) (by decide)
  | ended _ hspans h => exact ⟨h, hspans⟩

/-- The return code of `readParams`. -/
theorem Supplies.readParams_code {I : List UInt8 → InChan → Prop} {bs : List UInt8}
    (h : Supplies InChan.fill I) (hI : I bs c) (hlen : bs.length < intMax) (props : List NameValue)
    {x : ℤ × List NameValue × InChan} (hrun : c.readParams InChan.fill props = some x) :
    x.1 = if (parsePairs bs).2 = none then 0 else -1 := by
  apply run_invariant (I := fun x => ∃ rest, ReadingParams I props bs rest x) _
    ⟨bs, hI, le_rfl, rfl, rfl⟩ hrun
  rintro x p ⟨rest, hx⟩ hpass
  rcases h.readParamsBody hlen hx with ⟨y, hdone, -⟩ | ⟨x', rest', hagain, hx', -⟩
  · obtain rfl := Option.some.inj (hpass.symm.trans hdone)
    obtain ⟨hholds, hle, -, hbad⟩ := hx
    obtain ⟨c₁, hread, hI₁, -⟩ := h.read hholds
    simp only [InChan.readParamsBody, hread] at hdone
    show y.1 = _
    cases rest with
    | nil =>
        rw [← hbad, parsePairs_nil, if_pos rfl]
        cases hdone
        rfl
    | cons b rest =>
        rw [List.tail_cons] at hI₁
        rw [List.length_cons] at hle
        rw [List.head?_cons] at hdone
        rcases h.readPair hI₁ (by omega) b with
          ⟨p, rest', c₂, hpair, -, -⟩ | ⟨c₂, e, hpair, -, -, hparse⟩
        · simp only [hpair] at hdone
          cases hdone
        · simp only [hpair] at hdone
          rw [← hbad, parsePairs_of_error hparse, if_neg (by simp)]
          cases hdone
          rfl
  · obtain rfl := Option.some.inj (hpass.symm.trans hagain)
    exact ⟨rest', hx'⟩

end InChan

theorem roleStr_eq (role : ℕ) : roleStr role =
    (WholeRequest.roleName role).map fun name => NameValue.entry ⟨fcgiRole, name⟩ := by
  rw [roleStr, WholeRequest.roleName]
  split
  · rfl
  · split
    · rfl
    · split <;> rfl

/-! ### The same request in both libraries -/

/-- The call of a `read` method that corresponds to a call of the C library. -/
def javaCall : ReadCall → InCall
  | .getChar => .read
  | .getStr n => .readBytes n

/-- The result that corresponds to the bytes which the call of the C library returns. -/
def javaReply (call : ReadCall) (bs : List UInt8) : Reply :=
  match call with
  | .getChar => .byte bs.head?
  | .getStr _ => .bytes bs

theorem replies_javaCall (calls : List ReadCall) (bs : List UInt8) :
    replies bs (calls.map javaCall) =
      List.zipWith javaReply calls (chop (calls.map ReadCall.wanted) bs) := by
  induction calls generalizing bs with
  | nil => rfl
  | cons call calls ih =>
      cases call with
      | getChar =>
          have hhead : bs.head? = (bs.take 1).head? := by cases bs <;> rfl
          simp only [List.map_cons, replies, chop, List.zipWith_cons_cons, ih]
          simp only [javaCall, javaReply, InCall.reply, InCall.asked, ReadCall.wanted, ← hhead]
      | getStr n =>
          simp only [List.map_cons, replies, chop, List.zipWith_cons_cons, ih]
          rfl

/-- The input stream of a request with what it refers to. -/
def WholeRequest.chan (j : WholeRequest) : Option InChan :=
  match j.inStream, j.socket with
  | some stream, some s =>
      some { stream := stream, request := j.request, inp := s.inp, socket := s.out }
  | _, _ => none

/-- The application finds the same request: its data, its parameters, and what it reads. -/
structure SameServed (r : Request) (j : WholeRequest) : Prop where
  requestID : j.request.requestID = r.req.requestId
  role : j.request.role = r.req.role
  keepConnection : j.request.keepConnection = r.req.keepConnection
  params : ∃ name pairs, j.params = ⟨WholeRequest.roleKey, name⟩ :: pairs ∧
    ∃ envp, r.envp = some envp ∧
      envp.entries = NameValue.entry ⟨fcgiRole, name⟩ :: pairs.map NameValue.entry
  reads : ∃ s c, r.inStream = some s ∧ j.chan = some c ∧ ∀ calls : List ReadCall,
    ∃ out s' c', performAll calls (r.chan s) = some (out, s') ∧
      c.performAll (calls.map javaCall) = some (List.zipWith javaReply calls out, c')

/-- The socket brings these bytes, in chunks that the buffer of the stream holds. -/
structure Socket.Brings (s : Socket) (wire : List UInt8) : Prop where
  chunks : ∀ chunk ∈ s.inp.chunks, chunk ≠ [] ∧ chunk.length ≤ 8192
  flatten : s.inp.chunks.flatten = wire

/-- The variable `request` of an application that keeps no connection open. -/
def Idle : Option WholeRequest → Prop
  | none => True
  | some j => ∃ j', j.finish = some (some j') ∧ j'.socket = none

/-- `FCGIAccept`, with the first connection that `srvSocket.accept` returns. -/
theorem fcgiAccept_idle {request : Option WholeRequest} (h : Idle request)
    (pending : List (Option Socket)) :
    ∃ j : WholeRequest, fcgiAccept request pending = j.acceptNew pending := by
  cases request with
  | none => exact ⟨newRequest, rfl⟩
  | some j =>
      obtain ⟨j', hfinish, hsocket⟩ := h
      refine ⟨j', ?_⟩
      simp only [fcgiAccept, hfinish, WholeRequest.acceptLoop, hsocket]

theorem environment_some {q : RequestRecords} {env : List (List UInt8)}
    (h : q.environment = some env) :
    ∃ name, WholeRequest.roleName q.roleNumber = some name ∧ (parsePairs q.params.content).2 = none ∧
      env = NameValue.entry ⟨fcgiRole, name⟩ ::
        (parsePairs q.params.content).1.map NameValue.entry := by
  rw [RequestRecords.environment, roleStr_eq] at h
  cases hname : WholeRequest.roleName q.roleNumber with
  | none =>
      rw [hname] at h
      cases h
  | some name =>
      rw [hname, Option.map_some] at h
      rcases hparse : parsePairs q.params.content with ⟨ps, bad⟩
      rw [hparse] at h
      cases bad with
      | none =>
          cases h
          exact ⟨name, rfl, rfl, rfl⟩
      | some bad => cases h

theorem environment_none {q : RequestRecords} (h : q.environment = none) :
    WholeRequest.roleName q.roleNumber = none ∨ (parsePairs q.params.content).2 ≠ none := by
  rw [RequestRecords.environment, roleStr_eq] at h
  cases hname : WholeRequest.roleName q.roleNumber with
  | none => exact .inl rfl
  | some name =>
      rw [hname, Option.map_some] at h
      rcases hparse : parsePairs q.params.content with ⟨ps, bad⟩
      rw [hparse] at h
      cases bad with
      | none => cases h
      | some bad => exact .inr (by simp)

section Serving

open InChan

variable {q : RequestRecords} {j : WholeRequest} {c : InChan}

/-- Behind the record that begins the request the parameters are read, and the stream is at the
start of `FCGI_STDIN`. -/
theorem setUp_served (hpad : q.params.last.padding = []) (hlen : q.params.content.length < intMax)
    (hspans : ∃ r e, c.Spans r e) (hid : c.request.requestID = q.begin.requestId.toNat)
    (hrole : c.request.role = q.roleNumber) (hunread : c.unread = q.params.wire ++ q.body) :
    (∃ name, WholeRequest.roleName q.roleNumber = some name ∧ (parsePairs q.params.content).2 = none ∧
      ∃ j' c', j.setUp c = some (0, j') ∧
        j'.request = { c.request with
          numWriters := 2, outStream := some (newOutputStream 8192 fcgiStdout) } ∧
        j'.params = ⟨WholeRequest.roleKey, name⟩ :: (parsePairs q.params.content).1 ∧
        j'.chan = some c' ∧ ∀ calls, ∃ c'', c'.performAll calls =
          some (replies q.stdin.content calls, c'')) ∨
    (WholeRequest.roleName q.roleNumber = none ∨ (parsePairs q.params.content).2 ≠ none) ∧
      ∃ j', j.setUp c = some (-1, j') := by
  rw [WholeRequest.setUp, hrole]
  cases hname : WholeRequest.roleName q.roleNumber with
  | none => exact .inr ⟨.inl rfl, _, rfl⟩
  | some name =>
      have hreading := reading_setReaderType q.params hspans hid hunread
      have hsupplies := supplies_setReaderType q.params q.body (by decide) q.begins.id_ne_null hid
      obtain ⟨⟨rc, params, c₁⟩, hrun, hgood, hbad⟩ :=
        hsupplies.readParams hreading hlen [⟨WholeRequest.roleKey, name⟩]
      have hcode := hsupplies.readParams_code hreading hlen _ hrun
      simp only [hrun]
      by_cases hparse : (parsePairs q.params.content).2 = none
      · rw [if_pos hparse] at hcode
        obtain rfl : rc = 0 := hcode
        obtain ⟨hparams, hend, hatEnd⟩ := hgood hparse
        obtain ⟨⟨⟨-, -, hrequest, -⟩, hunread₁⟩, hspans₁⟩ := hend.endedBy hatEnd
        rw [hpad, List.nil_append] at hunread₁
        -- the request is that of the record, but for what belongs to the writers
        obtain ⟨c₂, hc₂⟩ : ∃ c₂ : InChan, c₂ = { c₁ with
            request := { c₁.request with
              numWriters := 2, outStream := some (newOutputStream 8192 fcgiStdout) } } := ⟨_, rfl⟩
        have hrequest₁ : c₁.request = c.request := hrequest
        have hid₂ : c₂.request.requestID = q.begin.requestId.toNat := by
          rw [hc₂, ← hid, ← hrequest₁]
        have hspans₂ : ∃ r e, c₂.Spans r e := by
          obtain ⟨r, e, hr, he, hle, hroom, hchunks⟩ := hspans₁
          rw [hc₂]
          exact ⟨r, e, hr, he, hle, hroom, hchunks⟩
        have hunread₂ : c₂.unread = q.stdin.wire ++ q.rest := by
          rw [hc₂]
          exact hunread₁
        have hstdin := supplies_setReaderType q.stdin q.rest (by decide) q.begins.id_ne_null hid₂
        refine .inl ⟨name, rfl, hparse, _, c₂.setReaderType fcgiStdin, rfl, ?_, hparams, ?_,
          hstdin.performAll (reading_setReaderType q.stdin hspans₂ hid₂ hunread₂)⟩
        · rw [← hrequest₁]
          rfl
        · rw [hc₂]
          rfl
      · rw [if_neg hparse] at hcode
        obtain rfl : rc = -1 := hcode
        exact .inr ⟨.inr hparse, _, rfl⟩

/-- A connection with the request on it. -/
theorem acceptNew_served (hbegin : q.begin.padding = []) (hpad : q.params.last.padding = [])
    (hlen : q.params.content.length < intMax) {s : Socket} (hs : s.Brings q.wire)
    (j : WholeRequest) (pending : List (Option Socket)) :
    (∃ name, WholeRequest.roleName q.roleNumber = some name ∧ (parsePairs q.params.content).2 = none ∧
      ∃ j' c, j.acceptNew (some s :: pending) = some (0, some j', pending) ∧
        j'.request.requestID = q.begin.requestId.toNat ∧ j'.request.role = q.roleNumber ∧
        j'.request.keepConnection =
          decide (((q.begin.content.getD 2 0).toNat &&& fcgiKeepConn) ≠ 0) ∧
        j'.params = ⟨WholeRequest.roleKey, name⟩ :: (parsePairs q.params.content).1 ∧
        j'.chan = some c ∧ ∀ calls, ∃ c', c.performAll calls =
          some (replies q.stdin.content calls, c')) ∨
    (WholeRequest.roleName q.roleNumber = none ∨ (parsePairs q.params.content).2 ≠ none) ∧
      ∃ j', j.acceptNew (some s :: pending) = some (-1, some j', pending) := by
  have hspans : (j.openReader s).Spans 0 0 := ⟨rfl, rfl, le_rfl, Nat.zero_le _, hs.chunks⟩
  have hunread : (j.openReader s).unread = q.begin.encode ++ (q.params.wire ++ q.body) := by
    rw [hspans.unread, Nat.sub_self, slice_zero, List.nil_append]
    exact hs.flatten
  have hrest : q.params.wire ++ q.body ≠ [] := by
    rw [StreamRecords.wire]
    simp [Record.encode_ne_nil]
  obtain ⟨c, hfill, hspans', hrequest, -, -, hleft⟩ :=
    fill_begun q.begins hbegin hrest rfl rfl ⟨0, 0, hspans⟩ ⟨rfl, rfl, rfl, rfl⟩ hunread
  have hbegun : c.request.isBeginProcessed = true := by
    rw [hrequest]
    rfl
  have hid : c.request.requestID = q.begin.requestId.toNat := by
    rw [hrequest]
    rfl
  have hrole : c.request.role = q.roleNumber := by
    rw [hrequest, RequestRecords.roleNumber, Record.roleNumber]
    exact (Nat.shiftLeft_add_eq_or_of_lt (q.begin.content.getD 1 0).toNat_lt _).symm
  have hkeep : c.request.keepConnection =
      decide (((q.begin.content.getD 2 0).toNat &&& fcgiKeepConn) ≠ 0) := by
    rw [hrequest]
    rfl
  simp only [WholeRequest.acceptNew, hfill, hbegun, if_true]
  rcases setUp_served hpad hlen hspans' hid hrole hleft with
    ⟨name, hname, hparse, j', c', hsetUp, hrequest', hparams, hchan, hreads⟩ | ⟨hnone, j', hsetUp⟩
  · refine .inl ⟨name, hname, hparse, j', c', by rw [hsetUp]; rfl, ?_, ?_, ?_, hparams, hchan, hreads⟩
    · rw [hrequest']
      exact hid
    · rw [hrequest']
      exact hrole
    · rw [hrequest']
      exact hkeep
  · exact .inr ⟨hnone, j', by rw [hsetUp]; rfl⟩

end Serving

end Java

end FastCgi
