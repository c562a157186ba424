import FastCgi.App.Stream
import FastCgi.Lib.BoundedLoop

/-!
The writing half of `libfcgi/fcgiapp.c`: `EmptyBuffProc`,
`WriteCloseRecords`, `FCGX_PutChar`, `FCGX_PutStr`, `FCGX_FFlush` and
`FCGX_FClose`.

The buffer of a writer starts with room for a header; `wrNext` is the
offset behind the last byte put. `EmptyBuffProc` with `doClose` calls
`WriteCloseRecords`, which puts its records with `FCGX_PutStr`, which
calls `EmptyBuffProc` without `doClose`; so the recursion is two calls
deep, and the two uses of `EmptyBuffProc` are two definitions.
-/

namespace FastCgi

open ByteMem BoundedLoop

/-- `memcpy(stream->wrNext, str, n); stream->wrNext += n`. -/
def Chan.put (c : Chan) (bs : List UInt8) : Chan :=
  { c with
    stream := { c.stream with
      buff := store c.stream.buff c.stream.wrNext bs, wrNext := c.stream.wrNext + bs.length } }

/-- The buffered content gets a header and its padding. -/
def makeRecord (c : Chan) : Chan :=
  let cLen := c.stream.wrNext - fcgiHeaderLen
  let eLen := alignInt8 cLen
  let header := makeHeader c.stream.type c.req.requestId cLen (eLen - cLen)
  let padded := c.put (List.replicate (eLen - cLen) 0)
  { padded with stream := { padded.stream with buff := store padded.stream.buff 0 header.bytes } }

/-- If the buffer contains stream data, fill in the header; otherwise reclaim
the space reserved for it. -/
def encapsulate (c : Chan) : Chan :=
  if c.stream.rawWrite then c
  else if fcgiHeaderLen < c.stream.wrNext then makeRecord c
  else { c with stream := { c.stream with wrNext := 0 } }

/-- The buffer is empty. -/
def reserveHeader (c : Chan) : Chan :=
  if c.stream.rawWrite then c
  else { c with stream := { c.stream with wrNext := c.stream.wrNext + fcgiHeaderLen } }

/-- The buffer goes to the descriptor. -/
def writeBuff (c : Chan) : Chan :=
  let buf := slice c.stream.buff 0 c.stream.wrNext
  let c := { c with stream := { c.stream with isAnythingWritten := true } }
  match writeItAll c.os buf with
  | (.error e, os) => { c with os := os }.setError e
  | (.ok (), os) => reserveHeader { c with os := os, stream := { c.stream with wrNext := 0 } }

/-- The second half of `EmptyBuffProc`. -/
def flushBuff (c : Chan) : Chan :=
  if c.stream.wrNext ≠ 0 then writeBuff c else reserveHeader c

/-- `EmptyBuffProc(stream, FALSE)`. -/
def emptyBuffProc (c : Chan) : Chan := flushBuff (encapsulate c)

/-- `FCGX_PutChar`; `false` is EOF. -/
def fcgxPutChar (b : UInt8) (c : Chan) : Option (Bool × Chan) :=
  if c.stream.wrNext ≠ c.stream.stop then some (true, c.put [b])
  else if c.stream.isClosed || c.stream.isReader then some (false, c)
  else
    let c := emptyBuffProc c
    if c.stream.wrNext ≠ c.stream.stop then some (true, c.put [b])
    else if c.stream.isClosed then some (false, c)
    else none

/-- The general case of `FCGX_PutStr`, with the number of bytes moved so far: the
second half of a pass of `for (;;)`. -/
def putStrEmpty (x : ℕ × Chan) : Option (Pass (ℕ × Chan) (ℤ × Chan)) :=
  if x.2.stream.isClosed || x.2.stream.isReader then some (.done (-1, x.2))
  else some (.again (x.1, emptyBuffProc x.2))

/-- One pass of `for (;;)`. -/
def putStrBody (str : List UInt8) (x : ℕ × Chan) : Option (Pass (ℕ × Chan) (ℤ × Chan)) :=
  let m := min (str.length - x.1) (x.2.stream.stop - x.2.stream.wrNext)
  let y := (x.1 + m, x.2.put ((str.drop x.1).take m))
  if x.2.stream.wrNext = x.2.stream.stop then putStrEmpty x
  else if y.1 = str.length then some (.done (str.length, y.2))
  else putStrEmpty y

/-- `FCGX_PutStr`. -/
def fcgxPutStr (str : List UInt8) (c : Chan) : Option (ℤ × Chan) :=
  if str.length ≤ c.stream.stop - c.stream.wrNext then some (str.length, c.put str)
  else run (putStrBody str) (str.length + 2) (0, c)

/-- The header that ends a stream. -/
def eofHeader (c : Chan) : List UInt8 := (makeHeader c.stream.type c.req.requestId 0 0).bytes

/-- The `FCGI_END_REQUEST` record of the request. -/
def endRequestRecord (c : Chan) : List UInt8 :=
  (makeHeader fcgiEndRequest c.req.requestId 8 0).bytes ++
    makeEndRequestBody c.req.appStatus fcgiRequestComplete

/-- Generate EOF for stream content if needed. -/
def writeEof (c : Chan) : Option Chan :=
  if c.stream.type = fcgiStderr ∧ c.stream.wrNext = 0 ∧ c.stream.isAnythingWritten = false then
    some c
  else (fcgxPutStr (eofHeader c) c).map Prod.snd

/-- Generate `FCGI_END_REQUEST` record if needed. -/
def writeEndRequest (c : Chan) : Option Chan :=
  if c.req.nWriters = 1 then (fcgxPutStr (endRequestRecord c) c).map Prod.snd else some c

/-- `data->rawWrite = TRUE`. -/
def enterRawWrite (c : Chan) : Chan := { c with stream := { c.stream with rawWrite := true } }

/-- `data->reqDataPtr->nWriters--`. -/
def Chan.leaveWriter (c : Chan) : Chan :=
  { c with req := { c.req with nWriters := c.req.nWriters - 1 } }

/-- `WriteCloseRecords`. -/
def writeCloseRecords (c : Chan) : Option Chan :=
  match writeEof (enterRawWrite c) with
  | none => none
  | some c => (writeEndRequest c).map Chan.leaveWriter

/-- `EmptyBuffProc(stream, TRUE)`. -/
def emptyBuffProcClose (c : Chan) : Option Chan :=
  (writeCloseRecords (encapsulate c)).map flushBuff

/-- `FCGX_FFlush`. -/
def fcgxFFlush (c : Chan) : ℤ × Chan :=
  if c.stream.isClosed || c.stream.isReader then (0, c)
  else
    let c := emptyBuffProc c
    (if c.stream.isClosed then -1 else 0, c)

/-- What `FCGX_FClose` does to the offsets once the buffer is empty. -/
def closeStream (s : Stream) : Stream :=
  if s.isReader then
    { s with wasFCloseCalled := true, isClosed := true, wrNext := s.rdNext, stop := s.rdNext }
  else { s with wasFCloseCalled := true, isClosed := true, rdNext := s.wrNext, stop := s.wrNext }

/-- `FCGX_FClose`, of a stream that has not been closed. -/
def closeChan (c : Chan) : Option Chan :=
  match if c.stream.isReader then some c else emptyBuffProcClose c with
  | none => none
  | some c => some { c with stream := closeStream c.stream }

/-- `FCGX_FClose`. -/
def fcgxFClose (c : Chan) : Option (ℤ × Chan) :=
  match if c.stream.wasFCloseCalled then some c else closeChan c with
  | none => none
  | some c => some (if c.stream.fcgiErrno = 0 then 0 else -1, c)

end FastCgi
