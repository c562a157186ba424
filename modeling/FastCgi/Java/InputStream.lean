import FastCgi.App.Reader
import FastCgi.Java.OutputStream

/-!
The Java reader (`java/FCGIInputStream.java`), with what it uses of
`java/FCGIMessage.java`.

It is the reading half of `fcgiapp.c` once more. The indices and the lengths
are integers, since `in.read` reports the end of the source as the count -1.
A result `none` stands for a call that does not return: an exception that no
`catch` takes (an array index out of range, a `null`), a loop that does not
end, or a nesting deeper than allowed. An `IOException` of the source or of
the socket is caught where the code catches it.
-/

namespace FastCgi

namespace Java

open ByteMem BoundedLoop

/-! ### The source -/

/-- What `read` does once all bytes have come: it returns -1, or it throws an `IOException`. -/
inductive SourceEnd where
  | eof
  | ioException
  deriving DecidableEq, Repr

/-- The `FileInputStream` of the socket: the bytes that each of the next calls of `read` stores,
and how it ends. -/
structure FileInputStream where
  chunks : List (List UInt8)
  atEnd : SourceEnd

/-- `in.read(buff, 0, buffLen)`: the count and the bytes, or `none` for an `IOException`. -/
def FileInputStream.read (inp : FileInputStream) : Option (ℤ × List UInt8) × FileInputStream :=
  match inp.chunks, inp.atEnd with
  | chunk :: chunks, _ => (some (chunk.length, chunk), { inp with chunks := chunks })
  | [], .eof => (some (-1, []), inp)
  | [], .ioException => (none, inp)

/-! ### The stream -/

/-- `FCGIInputStream`. The array `buff` has `buffLen` bytes. -/
structure FcgiInputStream where
  rdNext : ℤ
  stop : ℤ
  isClosed : Bool
  errno : ℤ
  /-- There is an exception in `errex`. -/
  errex : Bool
  buff : ℕ → UInt8
  buffLen : ℕ
  buffStop : ℤ
  type : ℕ
  contentLen : ℤ
  paddingLen : ℤ
  skip : Bool
  eorStop : Bool

/-- The constructor. -/
def newInputStream (bufLen streamType : ℕ) : FcgiInputStream :=
  { rdNext := 0
    stop := 0
    isClosed := false
    errno := 0
    errex := false
    buff := fun _ => 0
    buffLen := min bufLen fcgiMaxLength
    buffStop := 0
    type := streamType
    contentLen := 0
    paddingLen := 0
    skip := false
    eorStop := false }

/-- The part of `FCGIRequest` that an input stream refers to; `none` is the `outStream` that is
still `null`. -/
structure InRequest extends FcgiRequest where
  isBeginProcessed : Bool
  keepConnection : Bool
  role : ℕ
  outStream : Option FcgiOutputStream

/-- A stream with the request and the two sides of the socket it refers to. -/
structure InChan where
  stream : FcgiInputStream
  request : InRequest
  inp : FileInputStream
  socket : FileOutputStream

namespace InChan

/-- `setFCGIError`. -/
def setFcgiError (c : InChan) (errnum : ℤ) : InChan :=
  { c with
    stream := { c.stream with
      errno := if c.stream.errno = 0 then errnum else c.stream.errno, isClosed := true } }

/-- `setException`. -/
def setException (c : InChan) : InChan :=
  { c with stream := { c.stream with errex := true, isClosed := true } }

/-- `setReaderType`. -/
def setReaderType (c : InChan) (streamType : ℕ) : InChan :=
  { c with
    stream := { c.stream with
      type := streamType, eorStop := false, skip := false, contentLen := 0, paddingLen := 0,
      stop := c.stream.rdNext, isClosed := false } }

/-- The bytes the stream has not consumed: those of the buffer, then those that no call of
`in.read` has delivered yet. -/
def unread (c : InChan) : List UInt8 :=
  slice c.stream.buff c.stream.rdNext.toNat (c.stream.buffStop - c.stream.rdNext).toNat ++
    c.inp.chunks.flatten

/-! ### Reading bytes -/

/-- `buff[rdNext++] & 0xff`. -/
def takeByte (c : InChan) : Option (Option UInt8 × InChan) :=
  if 0 ≤ c.stream.rdNext ∧ c.stream.rdNext < c.stream.buffLen then
    some (some (c.stream.buff c.stream.rdNext.toNat),
      { c with stream := { c.stream with rdNext := c.stream.rdNext + 1 } })
  else none

/-- `read` of a byte; `none` is -1. -/
def read (fill : InChan → Option InChan) (c : InChan) : Option (Option UInt8 × InChan) :=
  if c.stream.rdNext ≠ c.stream.stop then takeByte c
  else if c.stream.isClosed then some (none, c)
  else
    match fill c with
    | none => none
    | some c => if c.stream.rdNext ≠ c.stream.stop then takeByte c else some (none, c)

/-- `System.arraycopy(buff, rdNext, b, off, m); rdNext += m`. -/
def takeBytes (m : ℤ) (c : InChan) : Option (List UInt8 × InChan) :=
  if 0 ≤ m ∧ 0 ≤ c.stream.rdNext ∧ c.stream.rdNext + m ≤ c.stream.buffLen then
    some (slice c.stream.buff c.stream.rdNext.toNat m.toNat,
      { c with stream := { c.stream with rdNext := c.stream.rdNext + m } })
  else none

/-- The second half of a pass of the loop of `read`, with the bytes moved so far. -/
def readFill (fill : InChan → Option InChan) (x : List UInt8 × InChan) :
    Option (Pass (List UInt8 × InChan) (List UInt8 × InChan)) :=
  if x.2.stream.isClosed then some (.done x)
  else
    match fill x.2 with
    | none => none
    | some c => some (.again (x.1, c))

/-- One pass. -/
def readBytesBody (fill : InChan → Option InChan) (len : ℤ) (x : List UInt8 × InChan) :
    Option (Pass (List UInt8 × InChan) (List UInt8 × InChan)) :=
  if x.2.stream.rdNext ≠ x.2.stream.stop then
    match takeBytes (min (len - x.1.length) (x.2.stream.stop - x.2.stream.rdNext)) x.2 with
    | none => none
    | some (bs, c) =>
        if ((x.1 ++ bs).length : ℤ) = len then some (.done (x.1 ++ bs, c))
        else readFill fill (x.1 ++ bs, c)
  else readFill fill x

/-- `read` into an array: the bytes moved, whose number is the result. -/
def readBytes (fill : InChan → Option InChan) (len : ℤ) (c : InChan) :
    Option (List UInt8 × InChan) :=
  if len ≤ 0 then some ([], c)
  else if len ≤ c.stream.stop - c.stream.rdNext then takeBytes len c
  else run (readBytesBody fill len) (len.toNat + c.unread.length + 2) ([], c)

/-! ### Parameters -/

/-- A length of four bytes. -/
def joinLen (b₃ b₂ b₁ b₀ : UInt8) : ℕ :=
  (b₃.toNat &&& 0x7f) <<< 24 ||| b₂.toNat <<< 16 ||| b₁.toNat <<< 8 ||| b₀.toNat

/-- A length whose first byte is `b`; `none` where `readParams` reports
`def_FCGIParamsError`. -/
def readLength (fill : InChan → Option InChan) (b : UInt8) (c : InChan) :
    Option (Option ℕ × InChan) :=
  if b.toNat &&& 0x80 ≠ 0 then
    match readBytes fill 3 c with
    | none => none
    | some ([b₂, b₁, b₀], c) => some (some (joinLen b b₂ b₁ b₀), c)
    | some (_, c) => some (none, c)
  else some (some b.toNat, c)

/-- The name and the value, once their lengths are known. -/
def readNameValue (fill : InChan → Option InChan) (nameLen valueLen : ℕ) (c : InChan) :
    Option (Option NameValue × InChan) :=
  match readBytes fill nameLen c with
  | none => none
  | some (name, c) =>
      if name.length ≠ nameLen then some (none, c)
      else
        match readBytes fill valueLen c with
        | none => none
        | some (value, c) =>
            if value.length ≠ valueLen then some (none, c) else some (some ⟨name, value⟩, c)

/-- The length of the value, from its first byte on. -/
def readValueLen (fill : InChan → Option InChan) (c : InChan) : Option (Option ℕ × InChan) :=
  match read fill c with
  | none => none
  | some (none, c) => some (none, c)
  | some (some b, c) => readLength fill b c

/-- One pair, after the first byte `b` of its name length. -/
def readPair (fill : InChan → Option InChan) (b : UInt8) (c : InChan) :
    Option (Option NameValue × InChan) :=
  match readLength fill b c with
  | none => none
  | some (none, c) => some (none, c)
  | some (some nameLen, c) =>
      match readValueLen fill c with
      | none => none
      | some (none, c) => some (none, c)
      | some (some valueLen, c) => readNameValue fill nameLen valueLen c

/-- One pass of `while ((nameLen = in.read()) != -1)`. -/
def readParamsBody (fill : InChan → Option InChan) (x : List NameValue × InChan) :
    Option (Pass (List NameValue × InChan) (ℤ × List NameValue × InChan)) :=
  match read fill x.2 with
  | none => none
  | some (none, c) => some (.done (0, x.1, c))
  | some (some b, c) =>
      match readPair fill b c with
      | none => none
      | some (none, c) => some (.done (-1, x.1, c.setFcgiError fcgxParamsError))
      | some (some p, c) => some (.again (x.1 ++ [p], c))

/-- `readParams`; the `Properties` are the pairs in the order they were put. -/
def readParams (fill : InChan → Option InChan) (props : List NameValue) (c : InChan) :
    Option (ℤ × List NameValue × InChan) :=
  run (readParamsBody fill) (c.unread.length + 1) (props, c)

end InChan

/-! ### Management records -/

/-- The length of a string in a message. -/
def putLen (n : ℕ) : List UInt8 :=
  if n < 0x80 then [UInt8.ofNat n]
  else
    [UInt8.ofNat ((n >>> 24 ||| 0x80) &&& 0xff), UInt8.ofNat ((n >>> 16) &&& 0xff),
      UInt8.ofNat ((n >>> 8) &&& 0xff), UInt8.ofNat n]

/-- `makeNameVal`. -/
def makeNameVal (name value : List UInt8) (dest : ℕ → UInt8) (pos : ℕ) : ℕ → UInt8 :=
  store dest pos (putLen name.length ++ (putLen value.length ++ (name ++ value)))

def containsKey (props : List NameValue) (key : List UInt8) : Bool :=
  props.any fun p => decide (p.name = key)

/-- The pairs of the response. The name `FCGI_MPXS_CONNS` is never asked for: the last test is
for `FCGI_MAX_CONNS` again. -/
def putValues (props : List NameValue) (response : ℕ → UInt8) (wrndx : ℕ) : ℕ → UInt8 :=
  if containsKey props fcgiMaxConns then makeNameVal fcgiMaxConns [0x31] response wrndx
  else if containsKey props fcgiMaxReqs then makeNameVal fcgiMaxReqs [0x31] response wrndx
  else if containsKey props fcgiMaxConns then makeNameVal fcgiMpxsConns [0x30] response wrndx
  else response

/-- The response to `FCGI_GET_VALUES`. The index `wrndx` is the byte `response[8]` of the new
array, not 8, so the header covers the pairs and its length is -8. -/
def getValuesResponse (props : List NameValue) : List UInt8 :=
  let response : ℕ → UInt8 := fun _ => 0
  let wrndx := (response fcgiHeaderLen).toNat
  let len : ℤ := wrndx - fcgiHeaderLen
  let header := makeHeader fcgiGetValuesResult fcgiNullRequestId (len % 65536).toNat (64 - wrndx)
  slice (store (putValues props response wrndx) 0 header) 0 16

/-- The response to other management records. -/
def unknownTypeResponse (type : ℕ) : List UInt8 :=
  makeHeader fcgiUnknownType fcgiNullRequestId 8 0 ++ makeUnknownTypeBody type

namespace InChan

/-- `in.request.socket.getOutputStream().write(response, 0, 16)`. -/
def sendResponse (response : List UInt8) (c : InChan) : Status × InChan :=
  match c.socket.write response with
  | (false, socket) => (.error (-1), { c with socket := socket })
  | (true, socket) => (.mgmtRecord, { c with socket := socket })

/-- What follows the reading of the variables that are asked for. -/
def answerParams (props : List NameValue) (c : InChan) : Status × InChan :=
  if c.stream.errno ≠ 0 ∨ c.stream.contentLen ≠ 0 then (.error fcgxProtocolError, c)
  else sendResponse (getValuesResponse props) c

/-- `processManagementRecord`. -/
def processManagementRecord (fill : InChan → Option InChan) (type : ℕ) (c : InChan) :
    Option (Status × InChan) :=
  if type = fcgiGetValues then
    match readParams fill [] c with
    | none => none
    | some (_, props, c) => some (answerParams props c)
  else some (sendResponse (unknownTypeResponse type) c)

/-! ### Begin records -/

/-- The stream `request.outStream` with what it refers to. -/
def outChan (s : FcgiOutputStream) (c : InChan) : OutChan :=
  { stream := s, request := c.request.toFcgiRequest, out := c.socket }

/-- What a call on `request.outStream` has changed. -/
def putOut (o : OutChan) (c : InChan) : InChan :=
  { c with
    request := { c.request with toFcgiRequest := o.request, outStream := some o.stream }
    socket := o.out }

/-- The `FCGI_END_REQUEST` record with `FCGI_CANT_MPX_CONN` is written to the output stream;
`false` is an exception there. -/
def writeCantMpx (requestID : ℕ) (c : InChan) : Option (Bool × InChan) :=
  match c.request.outStream with
  | none => none
  | some s =>
      match (c.outChan s).writeBytes
          (makeHeader fcgiEndRequest requestID 8 0 ++ makeEndrequestBody 0 fcgiCantMpxConn) with
      | none => none
      | some (false, o) => some (false, c.putOut o.setException)
      | some (true, o) => some (true, c.putOut o)

/-- What a body of a begin record says about the request. -/
def begin (body : List UInt8) (c : InChan) : InChan :=
  { c with
    request := { c.request with
      keepConnection := ((body.getD 2 0).toNat &&& fcgiKeepConn) ≠ 0
      role := (body.getD 0 0).toNat <<< 8 ||| (body.getD 1 0).toNat
      isBeginProcessed := true } }

/-- Accept this new request: read the record body. -/
def readBegin (fill : InChan → Option InChan) (requestID : ℕ) (c : InChan) :
    Option (Status × InChan) :=
  match readBytes fill 8 { c with request := { c.request with requestID := requestID } } with
  | none => none
  | some (body, c) =>
      if body.length ≠ 8 then some (.error fcgxProtocolError, c)
      else some (.beginRecord, c.begin body)

/-- `processBeginRecord`. A second begin record is refused and then accepted. -/
def processBeginRecord (fill : InChan → Option InChan) (requestID : ℕ) (c : InChan) :
    Option (Status × InChan) :=
  if requestID = 0 ∨ c.stream.contentLen ≠ 8 then some (.error fcgxProtocolError, c)
  else if c.request.isBeginProcessed then
    match writeCantMpx requestID c with
    | none => none
    | some (false, c) => some (.error (-1), c)
    | some (true, c) => readBegin fill requestID c
  else readBegin fill requestID c

/-! ### Interpreting headers -/

/-- The lengths of a header go to the stream. -/
def startRecord (c : InChan) (header : Header) : InChan :=
  { c with
    stream := { c.stream with
      contentLen := header.contentLength, paddingLen := header.paddingLength.toNat } }

/-- `processHeader`, for a header of the right version whose lengths are stored. -/
def dispatchHeader (fill : InChan → Option InChan) (header : Header) (c : InChan) :
    Option (Status × InChan) :=
  if header.type.toNat = fcgiBeginRequest then processBeginRecord fill header.requestId c
  else if header.requestId = fcgiNullRequestId then
    processManagementRecord fill header.type.toNat c
  else if header.requestId ≠ c.request.requestID then some (.skip, c)
  else if header.type.toNat ≠ c.stream.type then some (.error fcgxProtocolError, c)
  else some (.streamRecord, c)

/-- `processHeader`. -/
def processHeader (fill : InChan → Option InChan) (header : Header) (c : InChan) :
    Option (Status × InChan) :=
  if header.version ≠ fcgiVersion1 then some (.error fcgxUnsupportedVersion, c)
  else dispatchHeader fill header (c.startRecord header)

/-! ### Filling the buffer -/

/-- How one stage of the loop of `fill` ends: `return`, `continue`, or on to the next stage. -/
inductive Stage where
  | leave (c : InChan)
  | loop (c : InChan)
  | next (c : InChan)

/-- If the buffer is empty, do a read. The end of the source, -1, counts as bytes read. -/
def refill (c : InChan) : Stage :=
  if c.stream.rdNext = c.stream.buffStop then
    match c.inp.read with
    | (none, inp) => .leave { c with inp := inp }.setException
    | (some (count, chunk), inp) =>
        if count = 0 then .leave ({ c with inp := inp }.setFcgiError fcgxProtocolError)
        else
          .next { c with
            inp := inp
            stream := { c.stream with
              buff := store c.stream.buff 0 chunk, rdNext := 0, buffStop := count } }
  else .next c

/-- Deliver, or skip, the content bytes that are present. -/
def passContent (c : InChan) : Stage :=
  let s := c.stream
  if 0 < s.contentLen then
    let count := min s.contentLen (s.buffStop - s.rdNext)
    if !s.skip then
      .leave { c with
        stream := { s with contentLen := s.contentLen - count, stop := s.rdNext + count } }
    else if 0 < s.contentLen - count then
      .loop { c with
        stream := { s with contentLen := s.contentLen - count, rdNext := s.rdNext + count } }
    else
      .next { c with
        stream := { s with
          contentLen := s.contentLen - count, rdNext := s.rdNext + count, skip := false } }
  else .next c

/-- Skip over the padding bytes that are present. -/
def passPadding (c : InChan) : Stage :=
  let s := c.stream
  if 0 < s.paddingLen then
    let count := min s.paddingLen (s.buffStop - s.rdNext)
    let c' := { c with
      stream := { s with paddingLen := s.paddingLen - count, rdNext := s.rdNext + count } }
    if 0 < s.paddingLen - count then .loop c' else .next c'
  else .next c

/-- All done with the current record: in a call from `processHeader`, deliver EOF. -/
def checkEor (c : InChan) : Stage :=
  if c.stream.eorStop then
    .leave { c with stream := { c.stream with stop := c.stream.rdNext, isClosed := true } }
  else .next c

/-- `eorStop = true; stop = rdNext`. -/
def enterRecord (c : InChan) : InChan :=
  { c with stream := { c.stream with eorStop := true, stop := c.stream.rdNext } }

/-- `eorStop = false; isClosed = false`. -/
def leaveRecord (c : InChan) : InChan :=
  { c with stream := { c.stream with eorStop := false, isClosed := false } }

/-- The `switch (status)` after `processHeader`. -/
def onStatus (status : Status) (c : InChan) : Pass (List UInt8 × InChan) InChan :=
  match status with
  | .streamRecord =>
      if c.stream.contentLen = 0 then
        .done { c with stream := { c.stream with stop := c.stream.rdNext, isClosed := true } }
      else .again ([], c)
  | .skip => .again ([], { c with stream := { c.stream with skip := true } })
  | .beginRecord => .done c
  | .mgmtRecord => .again ([], c)
  | .error e => .done (c.setFcgiError e)

/-- Fill the header with bytes from the buffer and, once it is complete, interpret it. -/
def passHeader (fill : InChan → Option InChan) (headerBuf : List UInt8) (c : InChan) :
    Option (Pass (List UInt8 × InChan) InChan) :=
  match takeBytes (min (8 - headerBuf.length) (c.stream.buffStop - c.stream.rdNext)) c with
  | none => none
  | some (bs, c) =>
      if (headerBuf ++ bs).length < 8 then some (.again (headerBuf ++ bs, c))
      else
        match processHeader fill (Header.ofBytes (headerBuf ++ bs)) (enterRecord c) with
        | none => none
        | some (status, c) => some (onStatus status (leaveRecord c))

/-- The part of a pass behind the content of a record. -/
def passEnd (fill : InChan → Option InChan) (headerBuf : List UInt8) (c : InChan) :
    Option (Pass (List UInt8 × InChan) InChan) :=
  match passPadding c with
  | .leave c => some (.done c)
  | .loop c => some (.again (headerBuf, c))
  | .next c =>
      match checkEor c with
      | .leave c => some (.done c)
      | .loop c => some (.again (headerBuf, c))
      | .next c => passHeader fill headerBuf c

/-- One pass of the loop of `fill`. -/
def fillBody (fill : InChan → Option InChan) (x : List UInt8 × InChan) :
    Option (Pass (List UInt8 × InChan) InChan) :=
  match refill x.2 with
  | .leave c => some (.done c)
  | .loop c => some (.again (x.1, c))
  | .next c =>
      match passContent c with
      | .leave c => some (.done c)
      | .loop c => some (.again (x.1, c))
      | .next c => passEnd fill x.1 c

/-- `fill`, with at most `d` calls inside one another. -/
def fillAt : ℕ → InChan → Option InChan
  | 0, _ => none
  | d + 1, c => run (fillBody (fillAt d)) (c.unread.length + 2) ([], c)

/-- `fill`. A call from `processHeader` finds `eorStop` set and interprets no header. -/
def fill (c : InChan) : Option InChan := fillAt 2 c

end InChan

/-! ### Calls -/

/-- A call of one of the two `read` methods. -/
inductive InCall where
  | read
  | readBytes (len : ℤ)
  deriving DecidableEq, Repr

/-- What the call returns: a byte or -1, or the bytes moved. -/
inductive Reply where
  | byte (b : Option UInt8)
  | bytes (bs : List UInt8)
  deriving DecidableEq, Repr

namespace InChan

def perform (call : InCall) (c : InChan) : Option (Reply × InChan) :=
  match call with
  | .read => (read fill c).map fun x => (.byte x.1, x.2)
  | .readBytes len => (readBytes fill len c).map fun x => (.bytes x.1, x.2)

def performAll : List InCall → InChan → Option (List Reply × InChan)
  | [], c => some ([], c)
  | call :: calls, c =>
      match c.perform call with
      | none => none
      | some (reply, c) => (performAll calls c).map fun x => (reply :: x.1, x.2)

end InChan

end Java

end FastCgi
