import FastCgi.App.Stream
import FastCgi.Lib.BoundedLoop
import FastCgi.Protocol.NameValue

/-!
The reading half of `libfcgi/fcgiapp.c`: `FCGX_GetChar`, `FCGX_GetStr`,
`FCGX_UnGetChar`, `ReadParams`, the `Process*` functions and
`FillBuffProc`.

`FillBuffProc` and the functions that read through a stream call each
other: a header is interpreted by reading the record's content from the
stream itself, with `eorStop` set. The functions that read take the fill
procedure as a parameter, as the stream carries it in `fillBuffProc`, and
`fillBuffProcAt d` is the fill procedure that allows `d` nested calls of
itself. A result `none` stands for a call that does not return: a failed
`ASSERT`, a loop that does not end, or a nesting deeper than allowed.
-/

namespace FastCgi

open ByteMem BoundedLoop

/-! ### Reading bytes -/

/-- `*stream->rdNext++`. -/
def takeByte (c : Chan) : Option UInt8 × Chan :=
  (some (c.stream.buff c.stream.rdNext),
    { c with stream := { c.stream with rdNext := c.stream.rdNext + 1 } })

/-- `stream->stopUnget = stream->rdNext`. -/
def markUnget (c : Chan) : Chan :=
  { c with stream := { c.stream with stopUnget := c.stream.rdNext } }

/-- `FCGX_GetChar`; `none` is EOF. -/
def fcgxGetChar (fill : Chan → Option Chan) (c : Chan) : Option (Option UInt8 × Chan) :=
  if c.stream.isClosed || !c.stream.isReader then some (none, c)
  else if c.stream.rdNext ≠ c.stream.stop then some (takeByte c)
  else
    match fill c with
    | none => none
    | some c =>
        if c.stream.isClosed then some (none, c)
        else if c.stream.rdNext ≠ c.stream.stop then some (takeByte (markUnget c))
        else none

/-- How `FCGX_GetChar` ends, with `x` and the channel behind it. -/
inductive GetsChar (fill : Chan → Option Chan) (c : Chan) : Option UInt8 → Chan → Prop
  | refused (hguard : (c.stream.isClosed || !c.stream.isReader) = true) : GetsChar fill c none c
  | buffered (hopen : c.stream.isClosed = false) (hne : c.stream.rdNext ≠ c.stream.stop) :
      GetsChar fill c (takeByte c).1 (takeByte c).2
  | ended {d : Chan} (hopen : c.stream.isClosed = false) (hempty : c.stream.rdNext = c.stream.stop)
      (hfill : fill c = some d) (hclosed : d.stream.isClosed = true) : GetsChar fill c none d
  | filled {c₁ : Chan} (hopen : c.stream.isClosed = false)
      (hempty : c.stream.rdNext = c.stream.stop) (hfill : fill c = some c₁)
      (hopen₁ : c₁.stream.isClosed = false) (hne : c₁.stream.rdNext ≠ c₁.stream.stop) :
      GetsChar fill c (takeByte (markUnget c₁)).1 (takeByte (markUnget c₁)).2

theorem isClosed_of_readable {s : Stream} (h : ¬(s.isClosed || !s.isReader) = true) :
    s.isClosed = false := by
  cases hclosed : s.isClosed with
  | false => rfl
  | true => exact absurd (by rw [hclosed, Bool.true_or]) h

theorem getsChar_fcgxGetChar {fill : Chan → Option Chan} {c d : Chan} {x : Option UInt8}
    (h : fcgxGetChar fill c = some (x, d)) : GetsChar fill c x d := by
  rw [fcgxGetChar] at h
  split at h
  · next hguard =>
      cases h
      exact .refused hguard
  · next hguard =>
      have hopen := isClosed_of_readable hguard
      split at h
      · next hne =>
          cases h
          exact .buffered hopen hne
      · next hempty =>
          have hempty := Decidable.not_not.mp hempty
          split at h
          · cases h
          · next hfill =>
              split at h
              · next hclosed =>
                  cases h
                  exact .ended hopen hempty hfill hclosed
              · next hopen₁ =>
                  split at h
                  · next hne =>
                      cases h
                      exact .filled hopen hempty hfill (Bool.eq_false_iff.mpr hopen₁) hne
                  · cases h

/-- `memcpy(str, stream->rdNext, m); stream->rdNext += m`. -/
def takeBytes (m : ℕ) (c : Chan) : List UInt8 × Chan :=
  (slice c.stream.buff c.stream.rdNext m,
    { c with stream := { c.stream with rdNext := c.stream.rdNext + m } })

/-- The general case of `FCGX_GetStr`, with the bytes stored in `str` so far:
the second half of a pass of `for (;;)`. -/
def getStrFill (fill : Chan → Option Chan) (y : List UInt8 × Chan) :
    Option (Pass (List UInt8 × Chan) (List UInt8 × Chan)) :=
  if y.2.stream.isClosed || !y.2.stream.isReader then some (.done y)
  else
    match fill y.2 with
    | none => none
    | some c => if c.stream.isClosed then some (.done (y.1, c)) else some (.again (y.1, markUnget c))

/-- One pass of `for (;;)`. -/
def getStrBody (fill : Chan → Option Chan) (n : ℕ) (x : List UInt8 × Chan) :
    Option (Pass (List UInt8 × Chan) (List UInt8 × Chan)) :=
  let m := min (n - x.1.length) (x.2.stream.stop - x.2.stream.rdNext)
  let y := (x.1 ++ (takeBytes m x.2).1, (takeBytes m x.2).2)
  if x.2.stream.rdNext = x.2.stream.stop then getStrFill fill x
  else if y.1.length = n then some (.done y)
  else getStrFill fill y

/-- `FCGX_GetStr`: the bytes stored in `str`, whose number is the return value. -/
def fcgxGetStr (fill : Chan → Option Chan) (n : ℤ) (c : Chan) : Option (List UInt8 × Chan) :=
  if c.stream.isClosed || !c.stream.isReader || n ≤ 0 then some ([], c)
  else if n.toNat ≤ c.stream.stop - c.stream.rdNext then some (takeBytes n.toNat c)
  else run (getStrBody fill n.toNat) (n.toNat + 2) ([], c)

/-- `FCGX_UnGetChar` of a byte; `false` is EOF. Where C would store in front of the buffer,
which a stale mark allows, the offset stays 0. -/
def fcgxUnGetChar (b : UInt8) (c : Chan) : Bool × Chan :=
  let s := c.stream
  if s.isClosed || !s.isReader || s.rdNext = s.stopUnget then (false, c)
  else
    (true, { c with
      stream := { s with rdNext := s.rdNext - 1, buff := store s.buff (s.rdNext - 1) [b] } })

/-- The bytes the stream has not consumed: those of the buffer, then those
that no `OS_Read` has delivered yet. -/
def Chan.unread (c : Chan) : List UInt8 :=
  slice c.stream.buff c.stream.rdNext (c.stream.buffStop - c.stream.rdNext) ++ c.os.incoming

/-! ### Parameters -/

/-- `Params`. A slot of `vec` holds `NULL` or a string with its NUL; the slots
past `cur` are never read. -/
structure Params where
  vec : ℕ → Option (List UInt8)
  length : ℕ
  cur : ℕ

/-- `NewParams`. -/
def newParams (length : ℕ) : Params := { vec := fun _ => none, length := length, cur := 0 }

/-- `PutParam`. -/
def putParam (p : Params) (nameValue : List UInt8) : Params :=
  let size := p.cur + 1
  { vec := store p.vec p.cur [some nameValue, none]
    length := if p.length ≤ size then p.length * 2 else p.length
    cur := size }

/-- The strings of the vector. -/
def Params.entries (p : Params) : List (List UInt8) := (slice p.vec 0 p.cur).filterMap id

/-- `SIZE_MAX` on the 64-bit platforms. -/
abbrev sizeMax : ℕ := 2 ^ 64 - 1

/-- A length whose first byte is `b`; `none` where `ReadParams` reports
`FCGX_PARAMS_ERROR`. -/
def readLength (fill : Chan → Option Chan) (b : UInt8) (c : Chan) : Option (Option ℕ × Chan) :=
  if b.toNat &&& 0x80 ≠ 0 then
    match fcgxGetStr fill 3 c with
    | none => none
    | some ([b₂, b₁, b₀], c) =>
        if intMax ≤ longLen b b₂ b₁ b₀ ∨ sizeMax ≤ longLen b b₂ b₁ b₀ then some (none, c)
        else some (some (longLen b b₂ b₁ b₀), c)
    | some (_, c) => some (none, c)
  else some (some b.toNat, c)

/-- The name and the value, once their lengths are known. -/
def readNameValue (fill : Chan → Option Chan) (nameLen valueLen : ℕ) (c : Chan) :
    Option (Option NameValue × Chan) :=
  let totalLen := (nameLen + valueLen + 2) % (sizeMax + 1)
  if totalLen < nameLen ∨ totalLen < valueLen then some (none, c)
  else
    match fcgxGetStr fill nameLen c with
    | none => none
    | some (name, c) =>
        if name.length ≠ nameLen then some (none, c)
        else
          match fcgxGetStr fill valueLen c with
          | none => none
          | some (value, c) =>
              if value.length ≠ valueLen then some (none, c) else some (some ⟨name, value⟩, c)

/-- One pair, after the first byte `b` of its name length. -/
def readPair (fill : Chan → Option Chan) (b : UInt8) (c : Chan) :
    Option (Option NameValue × Chan) :=
  match readLength fill b c with
  | none => none
  | some (none, c) => some (none, c)
  | some (some nameLen, c) =>
      match fcgxGetChar fill c with
      | none => none
      | some (none, c) => some (none, c)
      | some (some b', c) =>
          match readLength fill b' c with
          | none => none
          | some (none, c) => some (none, c)
          | some (some valueLen, c) => readNameValue fill nameLen valueLen c

/-- One pass of `while((nameLen = FCGX_GetChar(stream)) != EOF)`. -/
def readParamsBody (fill : Chan → Option Chan) (x : Params × Chan) :
    Option (Pass (Params × Chan) (ℤ × Params × Chan)) :=
  match fcgxGetChar fill x.2 with
  | none => none
  | some (none, c) => some (.done (0, x.1, c))
  | some (some b, c) =>
      match readPair fill b c with
      | none => none
      | some (none, c) => some (.done (-1, x.1, c.setError fcgxParamsError))
      | some (some p, c) => some (.again (putParam x.1 p.entry, c))

/-- `ReadParams`. -/
def readParams (fill : Chan → Option Chan) (p : Params) (c : Chan) :
    Option (ℤ × Params × Chan) :=
  run (readParamsBody fill) (c.unread.length + 1) (p, c)

/-! ### Interpreting headers -/

/-- The return codes of the `Process*` functions. -/
inductive Status where
  | streamRecord
  | skip
  | beginRecord
  | mgmtRecord
  | error (e : ℤ)
  deriving DecidableEq, Repr

/-- `write_it_all` of a reply, and `SetError` when it fails. -/
def sendReply (reply : List UInt8) (ok : Status) (c : Chan) : Status × Chan :=
  match writeItAll c.os reply with
  | (.error e, os) => (.error (-1), { c with os := os }.setError e)
  | (.ok (), os) => (ok, { c with os := os })

def ascii (s : List Char) : List UInt8 := s.map fun ch => UInt8.ofNat ch.toNat

/-- `FCGI_MAX_CONNS`. -/
def fcgiMaxConns : List UInt8 :=
  ascii ['F', 'C', 'G', 'I', '_', 'M', 'A', 'X', '_', 'C', 'O', 'N', 'N', 'S']

/-- `FCGI_MAX_REQS`. -/
def fcgiMaxReqs : List UInt8 :=
  ascii ['F', 'C', 'G', 'I', '_', 'M', 'A', 'X', '_', 'R', 'E', 'Q', 'S']

/-- `FCGI_MPXS_CONNS`. -/
def fcgiMpxsConns : List UInt8 :=
  ascii ['F', 'C', 'G', 'I', '_', 'M', 'P', 'X', 'S', '_', 'C', 'O', 'N', 'N', 'S']

/-- The value the library reports for a variable it knows. -/
def variableValue (name : List UInt8) : Option UInt8 :=
  if name = fcgiMaxConns then some 0x31
  else if name = fcgiMaxReqs then some 0x31
  else if name = fcgiMpxsConns then some 0x30
  else none

/-- One pass over the parsed entries: the `response` array and `responseP`.
The name is the C string up to the first `=`. -/
def replyStep (x : (ℕ → UInt8) × ℕ) (nameValue : List UInt8) : (ℕ → UInt8) × ℕ :=
  let name := nameValue.takeWhile fun b => b ≠ 0 ∧ b ≠ equalSign
  match variableValue name with
  | none => x
  | some value =>
      (store x.1 x.2 (UInt8.ofNat name.length :: 1 :: (name ++ [value, 0])),
        x.2 + (name.length + 3))

/-- The bytes of the `FCGI_GET_VALUES_RESULT` record that answers a query.
`stack` is what the `response` array holds before. -/
def getValuesReply (stack : ℕ → UInt8) (query : List (List UInt8)) : List UInt8 :=
  let x := query.foldl replyStep (stack, fcgiHeaderLen)
  let len := x.2 - fcgiHeaderLen
  let paddedLen := alignInt8 len
  let header := makeHeader fcgiGetValuesResult fcgiNullRequestId len (paddedLen - len)
  slice (store x.1 0 header.bytes) 0 (fcgiHeaderLen + paddedLen)

/-- The `FCGI_UNKNOWN_TYPE` record that answers other management records. -/
def unknownTypeReply (type : ℕ) : List UInt8 :=
  (makeHeader fcgiUnknownType fcgiNullRequestId 8 0).bytes ++ makeUnknownTypeBody type

/-- `ProcessManagementRecord`. The `response` array is taken to be large
enough. -/
def processManagementRecord (fill : Chan → Option Chan) (type : ℕ) (c : Chan) :
    Option (Status × Chan) :=
  if type = fcgiGetValues then
    match readParams fill (newParams 3) c with
    | none => none
    | some (_, params, c) =>
        if c.stream.fcgiErrno ≠ 0 ∨ c.stream.contentLen ≠ 0 then
          some (.error fcgxProtocolError, c)
        else some (sendReply (getValuesReply c.os.stale params.entries) .mgmtRecord c)
  else some (sendReply (unknownTypeReply type) .mgmtRecord c)

/-- The `FCGI_END_REQUEST` record with `protocolStatus = FCGI_CANT_MPX_CONN`. -/
def cantMpxReply (requestId : ℕ) : List UInt8 :=
  (makeHeader fcgiEndRequest requestId 8 0).bytes ++ makeEndRequestBody 0 fcgiCantMpxConn

/-- `data->reqDataPtr->requestId = requestId`. -/
def Chan.setRequestId (c : Chan) (requestId : ℕ) : Chan :=
  { c with req := { c.req with requestId := requestId } }

/-- What a `FCGI_BeginRequestBody` says about the request. -/
def ReqData.begin (r : ReqData) (body : List UInt8) : ReqData :=
  { r with
    keepConnection := ((body.getD 2 0).toNat &&& fcgiKeepConn) ≠ 0
    role := ((body.getD 0 0).toNat <<< 8) + (body.getD 1 0).toNat
    isBeginProcessed := true }

/-- Accept this new request: read the record body. -/
def readBegin (fill : Chan → Option Chan) (c : Chan) : Option (Status × Chan) :=
  match fcgxGetStr fill 8 c with
  | none => none
  | some (body, c) =>
      if body.length ≠ 8 then some (.error fcgxProtocolError, c)
      else some (.beginRecord, { c with req := c.req.begin body })

/-- `ProcessBeginRecord`. -/
def processBeginRecord (fill : Chan → Option Chan) (requestId : ℕ) (c : Chan) :
    Option (Status × Chan) :=
  if requestId = 0 ∨ c.stream.contentLen ≠ 8 then some (.error fcgxProtocolError, c)
  else if c.req.isBeginProcessed then some (sendReply (cantMpxReply requestId) .skip c)
  else readBegin fill (c.setRequestId requestId)

/-- The lengths of a header go to the stream. -/
def Chan.startRecord (c : Chan) (header : Header) : Chan :=
  { c with
    stream := { c.stream with
      contentLen := header.contentLength, paddingLen := header.paddingLength.toNat } }

/-- `ProcessHeader`, for a header of the right version whose lengths are
stored. -/
def dispatchHeader (fill : Chan → Option Chan) (header : Header) (c : Chan) :
    Option (Status × Chan) :=
  if header.type.toNat = fcgiBeginRequest then processBeginRecord fill header.requestId c
  else if header.requestId = fcgiNullRequestId then
    processManagementRecord fill header.type.toNat c
  else if header.requestId ≠ c.req.requestId then some (.skip, c)
  else if header.type.toNat ≠ c.stream.type then some (.error fcgxProtocolError, c)
  else some (.streamRecord, c)

/-- `ProcessHeader`. -/
def processHeader (fill : Chan → Option Chan) (header : Header) (c : Chan) :
    Option (Status × Chan) :=
  if header.version ≠ fcgiVersion1 then some (.error fcgxUnsupportedVersion, c)
  else dispatchHeader fill header (c.startRecord header)

/-- How `ProcessHeader` ends on each kind of header, with `status` and the channel `d`. -/
inductive Interprets (fill : Chan → Option Chan) (header : Header) (c : Chan) :
    Status → Chan → Prop
  | otherVersion (hversion : header.version ≠ fcgiVersion1) :
      Interprets fill header c (.error fcgxUnsupportedVersion) c
  | malformed (htype : header.type.toNat = fcgiBeginRequest)
      (hbad : header.requestId = 0 ∨ header.contentLength ≠ 8) :
      Interprets fill header c (.error fcgxProtocolError) (c.startRecord header)
  | multiplexed {status : Status} {d : Chan} (htype : header.type.toNat = fcgiBeginRequest)
      (hbegun : c.req.isBeginProcessed = true)
      (hsend : sendReply (cantMpxReply header.requestId) .skip (c.startRecord header) = (status, d)) :
      Interprets fill header c status d
  | cutBody {body : List UInt8} {d : Chan} (hawait : c.req.isBeginProcessed = false)
      (hget : fcgxGetStr fill 8 ((c.startRecord header).setRequestId header.requestId) =
        some (body, d)) (hlen : body.length ≠ 8) :
      Interprets fill header c (.error fcgxProtocolError) d
  | begins {body : List UInt8} {d : Chan} (hawait : c.req.isBeginProcessed = false)
      (hget : fcgxGetStr fill 8 ((c.startRecord header).setRequestId header.requestId) =
        some (body, d)) (hlen : body.length = 8) :
      Interprets fill header c .beginRecord { d with req := d.req.begin body }
  | badQuery {rc : ℤ} {params : Params} {d : Chan} (htype : header.type.toNat = fcgiGetValues)
      (hread : readParams fill (newParams 3) (c.startRecord header) = some (rc, params, d))
      (hbad : d.stream.fcgiErrno ≠ 0 ∨ d.stream.contentLen ≠ 0) :
      Interprets fill header c (.error fcgxProtocolError) d
  | query {rc : ℤ} {params : Params} {c₁ d : Chan} {status : Status}
      (htype : header.type.toNat = fcgiGetValues)
      (hread : readParams fill (newParams 3) (c.startRecord header) = some (rc, params, c₁))
      (hsend : sendReply (getValuesReply c₁.os.stale params.entries) .mgmtRecord c₁ =
        (status, d)) : Interprets fill header c status d
  | unknown {status : Status} {d : Chan} (hid : header.requestId = fcgiNullRequestId)
      (hsend : sendReply (unknownTypeReply header.type.toNat) .mgmtRecord (c.startRecord header) =
        (status, d)) : Interprets fill header c status d
  | foreign (hid : header.requestId ≠ c.req.requestId) :
      Interprets fill header c .skip (c.startRecord header)
  | otherType (htype : header.type.toNat ≠ c.stream.type) :
      Interprets fill header c (.error fcgxProtocolError) (c.startRecord header)
  | own (hid : header.requestId = c.req.requestId) (htype : header.type.toNat = c.stream.type) :
      Interprets fill header c .streamRecord (c.startRecord header)

section Interprets

variable {fill : Chan → Option Chan} {header : Header} {c d : Chan} {status : Status}

theorem interprets_begin (htype : header.type.toNat = fcgiBeginRequest)
    (h : processBeginRecord fill header.requestId (c.startRecord header) = some (status, d)) :
    Interprets fill header c status d := by
  rw [processBeginRecord] at h
  split at h
  · next hbad =>
      cases h
      exact .malformed htype hbad
  · split at h
    · next hbegun => exact .multiplexed htype hbegun (Option.some.inj h)
    · next hawait =>
        have hawait : c.req.isBeginProcessed = false := by simpa [Chan.startRecord] using hawait
        rw [readBegin] at h
        split at h
        · cases h
        · next hget =>
            split at h
            · next hlen =>
                cases h
                exact .cutBody hawait hget hlen
            · next hlen =>
                cases h
                exact .begins hawait hget (Decidable.not_not.mp hlen)

theorem interprets_management (hid : header.requestId = fcgiNullRequestId)
    (h : processManagementRecord fill header.type.toNat (c.startRecord header) =
      some (status, d)) : Interprets fill header c status d := by
  rw [processManagementRecord] at h
  split at h
  · next htype =>
      split at h
      · cases h
      · next hread =>
          split at h
          · next hbad =>
              cases h
              exact .badQuery htype hread hbad
          · exact .query htype hread (Option.some.inj h)
  · exact .unknown hid (Option.some.inj h)

theorem interprets_processHeader (h : processHeader fill header c = some (status, d)) :
    Interprets fill header c status d := by
  rw [processHeader] at h
  split at h
  · next hversion =>
      cases h
      exact .otherVersion hversion
  · rw [dispatchHeader] at h
    split at h
    · next htype => exact interprets_begin htype h
    · split at h
      · next hid => exact interprets_management hid h
      · split at h
        · next hid =>
            cases h
            exact .foreign hid
        · next hid =>
            split at h
            · next htype =>
                cases h
                exact .otherType htype
            · next htype =>
                cases h
                exact .own (Decidable.not_not.mp hid) (Decidable.not_not.mp htype)

theorem sendReply_fst (reply : List UInt8) (ok : Status) (c : Chan) :
    (sendReply reply ok c).1 = ok ∨ ∃ e, (sendReply reply ok c).1 = .error e := by
  rw [sendReply]
  split
  · exact .inr ⟨-1, rfl⟩
  · exact .inl rfl

/-- A reply leads to the status that was asked for, or to an error. -/
theorem sendReply_status {reply : List UInt8} {ok : Status}
    (h : sendReply reply ok c = (status, d)) : status = ok ∨ ∃ e, status = .error e := by
  have hfst := sendReply_fst reply ok c
  rwa [h] at hfst

end Interprets

/-! ### Filling the buffer -/

/-- How one stage of the loop of `FillBuffProc` ends: `return`, `continue`, or
on to the next stage. -/
inductive Stage where
  | leave (c : Chan)
  | loop (c : Chan)
  | next (c : Chan)

/-- The error that a failed `OS_Read` sets. -/
def readError (e : Option Errno) : ℤ :=
  match e with
  | none => fcgxProtocolError
  | some e => e

/-- If `data->buff` is empty, do a read. -/
def refill (c : Chan) : Stage :=
  if c.stream.rdNext = c.stream.buffStop then
    match osRead c.os c.stream.bufflen with
    | (.error e, os) => .leave ({ c with os := os }.setError (readError e))
    | (.ok chunk, os) =>
        if chunk = [] then .leave ({ c with os := os }.setError fcgxProtocolError)
        else
          .next { c with
            os := os
            stream := { c.stream with
              buff := store c.stream.buff 0 chunk, rdNext := 0, buffStop := chunk.length } }
  else .next c

/-- Deliver, or skip, the content bytes that are present. -/
def passContent (c : Chan) : Stage :=
  let s := c.stream
  if 0 < s.contentLen then
    let count := min s.contentLen (s.buffStop - s.rdNext)
    if !s.skip then
      .leave { c with
        stream := { s with
          contentLen := s.contentLen - count, stop := s.rdNext + count,
          wrNext := s.rdNext + count } }
    else if 0 < s.contentLen - count then
      .loop { c with
        stream := { s with contentLen := s.contentLen - count, rdNext := s.rdNext + count } }
    else
      .next { c with
        stream := { s with
          contentLen := s.contentLen - count, rdNext := s.rdNext + count, skip := false } }
  else .next c

/-- Skip over the padding bytes that are present. -/
def passPadding (c : Chan) : Stage :=
  let s := c.stream
  if 0 < s.paddingLen then
    let count := min s.paddingLen (s.buffStop - s.rdNext)
    let c' := { c with
      stream := { s with paddingLen := s.paddingLen - count, rdNext := s.rdNext + count } }
    if 0 < s.paddingLen - count then .loop c' else .next c'
  else .next c

/-- All done with the current record: in a call from `ProcessHeader`, deliver
EOF. -/
def checkEor (c : Chan) : Stage :=
  if c.stream.eorStop then
    .leave { c with stream := { c.stream with stop := c.stream.rdNext, isClosed := true } }
  else .next c

/-- `data->eorStop = TRUE; stream->stop = stream->rdNext`. -/
def enterRecord (c : Chan) : Chan :=
  { c with stream := { c.stream with eorStop := true, stop := c.stream.rdNext } }

/-- `data->eorStop = FALSE; stream->isClosed = FALSE`. -/
def leaveRecord (c : Chan) : Chan :=
  { c with stream := { c.stream with eorStop := false, isClosed := false } }

/-- The `switch(status)` after `ProcessHeader`. -/
def onStatus (status : Status) (c : Chan) : Option (Pass (List UInt8 × Chan) Chan) :=
  match status with
  | .streamRecord =>
      if c.stream.contentLen = 0 then
        some (.done { c with
          stream := { c.stream with
            wrNext := c.stream.rdNext, stop := c.stream.rdNext, isClosed := true } })
      else some (.again ([], c))
  | .skip => some (.again ([], { c with stream := { c.stream with skip := true } }))
  | .beginRecord => some (.done c)
  | .mgmtRecord => some (.again ([], c))
  | .error e => if e < 0 then some (.done (c.setError e)) else none

/-- Fill the header with bytes from the input buffer and, once it is complete,
interpret it. -/
def passHeader (fill : Chan → Option Chan) (hdr : List UInt8) (c : Chan) :
    Option (Pass (List UInt8 × Chan) Chan) :=
  let s := c.stream
  let count := min (8 - hdr.length) (s.buffStop - s.rdNext)
  let hdr' := hdr ++ slice s.buff s.rdNext count
  let c' := { c with stream := { s with rdNext := s.rdNext + count } }
  if hdr'.length < 8 then some (.again (hdr', c'))
  else
    match processHeader fill (Header.ofBytes hdr') (enterRecord c') with
    | none => none
    | some (status, c'') => onStatus status (leaveRecord c'')

/-- One pass of the `for (;;)` of `FillBuffProc`; `x.1` is the part of the
header that has arrived. -/
def fillBuffProcBody (fill : Chan → Option Chan) (x : List UInt8 × Chan) :
    Option (Pass (List UInt8 × Chan) Chan) :=
  match refill x.2 with
  | .leave c => some (.done c)
  | .loop c => some (.again (x.1, c))
  | .next c =>
      match passContent c with
      | .leave c => some (.done c)
      | .loop c => some (.again (x.1, c))
      | .next c =>
          match passPadding c with
          | .leave c => some (.done c)
          | .loop c => some (.again (x.1, c))
          | .next c =>
              match checkEor c with
              | .leave c => some (.done c)
              | .loop c => some (.again (x.1, c))
              | .next c => passHeader fill x.1 c

/-- `FillBuffProc` with at most `d` calls of it on the stack. -/
def fillBuffProcAt : ℕ → Chan → Option Chan
  | 0, _ => none
  | d + 1, c => run (fillBuffProcBody (fillBuffProcAt d)) (c.unread.length + 1) ([], c)

/-- `FillBuffProc`. Two calls on the stack are enough: under `eorStop` it
returns before it looks at a header. -/
def fillBuffProc (c : Chan) : Option Chan := fillBuffProcAt 2 c

end FastCgi
