import FastCgi.App.Reader
import FastCgi.App.Writer

/-!
Requests (`libfcgi/fcgiapp.c`): `FCGX_Finish_r`, `FCGX_Free`,
`FCGX_Accept_r` and `FCGX_StartFilterData`.

The three streams of a request refer to one descriptor and one
`FCGX_Request`. A call on one of them takes the stream out together with
the shared part (`Chan`) and puts both back. The connections that
`OS_Accept` will return are a list; a call that would wait for one more
does not return.
-/

namespace FastCgi

/-- `FCGX_Request`. The connection is `os`; it is the descriptor `ipcFd` while
`isOpen`. -/
structure Request where
  req : ReqData
  inStream : Option Stream
  out : Option Stream
  err : Option Stream
  paramsPtr : Option Params
  envp : Option Params
  isOpen : Bool
  os : Os
  /-- The addresses of the blocks that `malloc` returns for the three buffers. -/
  mBuffIn : ℕ
  mBuffOut : ℕ
  mBuffErr : ℕ

/-- A stream of the request, with what it refers to. -/
def Request.chan (r : Request) (s : Stream) : Chan := { stream := s, req := r.req, os := r.os }

/-! ### Finishing a request -/

/-- `FCGX_FClose` of a stream that may be `NULL`. -/
def fcgxFCloseOpt (r : Request) : Option Stream → Option (ℤ × Option Stream × Request)
  | none => some (0, none, r)
  | some s =>
      match fcgxFClose (r.chan s) with
      | none => none
      | some (rc, c) => some (rc, some c.stream, { r with req := c.req, os := c.os })

/-- `FCGX_FClose(reqDataPtr->err)`. -/
def closeErr (r : Request) : Option (ℤ × Request) :=
  (fcgxFCloseOpt r r.err).map fun x => (x.1, { x.2.2 with err := x.2.1 })

/-- `FCGX_FClose(reqDataPtr->out)`. -/
def closeOut (r : Request) : Option (ℤ × Request) :=
  (fcgxFCloseOpt r r.out).map fun x => (x.1, { x.2.2 with out := x.2.1 })

/-- `FCGX_Free`. -/
def fcgxFree (r : Request) (close : Bool) : Request :=
  { r with
    inStream := none, out := none, err := none, paramsPtr := none
    isOpen := if close then false else r.isOpen }

/-- `FCGX_Finish_r`. -/
def fcgxFinishR (r : Request) : Option Request :=
  match r.inStream with
  | none => some (fcgxFree r (!r.req.keepConnection))
  | some s =>
      match closeErr r with
      | none => none
      | some (rc, r₁) =>
          match closeOut r₁ with
          | none => none
          | some (rc', r₂) =>
              some (fcgxFree r₂
                (!r.req.keepConnection || rc ≠ 0 || rc' ≠ 0 || s.fcgiErrno ≠ 0))

/-! ### Accepting a request -/

/-- `"FCGI_ROLE=RESPONDER"` and its fellows; other roles are not served. -/
def roleStr (role : ℕ) : Option (List UInt8) :=
  let fcgiRole := ascii ['F', 'C', 'G', 'I', '_', 'R', 'O', 'L', 'E', '=']
  if role = fcgiResponder then
    some (fcgiRole ++ ascii ['R', 'E', 'S', 'P', 'O', 'N', 'D', 'E', 'R'] ++ [0])
  else if role = fcgiAuthorizer then
    some (fcgiRole ++ ascii ['A', 'U', 'T', 'H', 'O', 'R', 'I', 'Z', 'E', 'R'] ++ [0])
  else if role = fcgiFilter then some (fcgiRole ++ ascii ['F', 'I', 'L', 'T', 'E', 'R'] ++ [0])
  else none

/-- `SetReaderType` on the stream of a channel. -/
def Chan.setReaderType (c : Chan) (streamType : ℕ) : Chan :=
  { c with stream := FastCgi.setReaderType c.stream streamType }

/-- `SetReaderType(in, FCGI_PARAMS)` and `ReadParams`; `none` is an error. -/
def readEnvironment (role : List UInt8) (c : Chan) : Option (Option Params × Chan) :=
  match readParams fillBuffProc (putParam (newParams 30) role) (c.setReaderType fcgiParams) with
  | none => none
  | some (rc, params, c) => some (if 0 ≤ rc then some params else none, c)

/-- Read the role and the environment from a reader that has just been made;
`none` stands for `goto TryAgain`. -/
def readRequest (c : Chan) : Option (Option Params × Chan) :=
  match fillBuffProc c with
  | none => none
  | some c =>
      if c.req.isBeginProcessed = false then some (none, c)
      else
        match roleStr c.req.role with
        | none => some (none, c)
        | some role => readEnvironment role c

/-- `isBeginProcessed = FALSE; in = NewReader(reqDataPtr, 8192, 0)`. -/
def openReader (r : Request) : Chan :=
  { stream := newStream r.mBuffIn r.os.stale 8192 true 0
    req := { r.req with isBeginProcessed := false }
    os := r.os }

/-- The remaining data structures of the new request. -/
def buildRequest (r : Request) (c : Chan) (params : Params) : Request :=
  { r with
    req := { c.req with nWriters := 2 }
    inStream := some (setReaderType c.stream fcgiStdin)
    out := some (newStream r.mBuffOut c.os.stale 8192 false fcgiStdout)
    err := some (newStream r.mBuffErr c.os.stale 512 false fcgiStderr)
    paramsPtr := some params
    envp := some params
    os := c.os }

/-- One pass of the loop of `FCGX_Accept_r`, on an open connection: the request,
and whether it has been accepted. -/
def acceptConnection (r : Request) : Option (Bool × Request) :=
  match readRequest (openReader r) with
  | none => none
  | some (some params, c) => some (true, buildRequest r c params)
  | some (none, c) => some (false, fcgxFree { r with req := c.req, os := c.os } true)

/-- What `OS_Accept` returns: a connection, or -1 and the value of `errno`. -/
abbrev Connection := Except ℤ Os

/-- The loop of `FCGX_Accept_r` from a request without a connection. -/
def acceptLoop : List Connection → Request → Option (ℤ × Request × List Connection)
  | [], _ => none
  | .error errno :: pending, r => some (if 0 < errno then -errno else -9999, r, pending)
  | .ok os :: pending, r =>
      match acceptConnection { r with os := os, isOpen := true } with
      | none => none
      | some (true, r) => some (0, r, pending)
      | some (false, r) => acceptLoop pending r

/-- How the loop of `FCGX_Accept_r` ends, behind any number of connections given up. -/
inductive LoopEnds : List Connection → Request → ℤ → Request → List Connection → Prop
  | failed {errno : ℤ} {pending : List Connection} {r : Request} :
      LoopEnds (.error errno :: pending) r (if 0 < errno then -errno else -9999) r pending
  | accepted {os : Os} {pending : List Connection} {r r' : Request}
      (hacc : acceptConnection { r with os := os, isOpen := true } = some (true, r')) :
      LoopEnds (.ok os :: pending) r 0 r' pending
  | givenUp {os : Os} {pending rest : List Connection} {r r₁ r' : Request} {rc : ℤ}
      (hacc : acceptConnection { r with os := os, isOpen := true } = some (false, r₁))
      (hloop : LoopEnds pending r₁ rc r' rest) : LoopEnds (.ok os :: pending) r rc r' rest

theorem loopEnds_acceptLoop {pending rest : List Connection} {r r' : Request} {rc : ℤ}
    (h : acceptLoop pending r = some (rc, r', rest)) : LoopEnds pending r rc r' rest := by
  induction pending generalizing r with
  | nil => cases h
  | cons x pending ih =>
      cases x with
      | error errno =>
          cases h
          exact .failed
      | ok os =>
          rw [acceptLoop] at h
          split at h
          · cases h
          · next hacc =>
              cases h
              exact .accepted hacc
          · next hacc => exact .givenUp hacc (ih h)

/-- `FCGX_Accept_r`. -/
def fcgxAcceptR (libInitialized : Bool) (pending : List Connection) (r : Request) :
    Option (ℤ × Request × List Connection) :=
  if !libInitialized then some (-9998, r, pending)
  else
    match fcgxFinishR r with
    | none => none
    | some r =>
        if !r.isOpen then acceptLoop pending r
        else
          match acceptConnection r with
          | none => none
          | some (true, r) => some (0, r, pending)
          | some (false, r) => acceptLoop pending r

/-- How `FCGX_Accept_r` ends: without `FCGX_Init`, on the connection that was kept open, or
in the loop. -/
inductive Request.AcceptEnds (r : Request) (pending : List Connection) :
    ℤ → Request → List Connection → Prop
  | uninitialized : r.AcceptEnds pending (-9998) r pending
  | kept {r₀ r' : Request} (hfin : fcgxFinishR r = some r₀) (hopen : r₀.isOpen = true)
      (hacc : acceptConnection r₀ = some (true, r')) : r.AcceptEnds pending 0 r' pending
  | fresh {r₀ r' : Request} {rc : ℤ} {rest : List Connection} (hfin : fcgxFinishR r = some r₀)
      (hclosed : r₀.isOpen = false) (hloop : LoopEnds pending r₀ rc r' rest) :
      r.AcceptEnds pending rc r' rest
  | givenUp {r₀ r₁ r' : Request} {rc : ℤ} {rest : List Connection}
      (hfin : fcgxFinishR r = some r₀) (hopen : r₀.isOpen = true)
      (hacc : acceptConnection r₀ = some (false, r₁)) (hloop : LoopEnds pending r₁ rc r' rest) :
      r.AcceptEnds pending rc r' rest

theorem acceptEnds_fcgxAcceptR {lib : Bool} {pending rest : List Connection} {r r' : Request}
    {rc : ℤ} (h : fcgxAcceptR lib pending r = some (rc, r', rest)) :
    r.AcceptEnds pending rc r' rest := by
  rw [fcgxAcceptR] at h
  split at h
  · cases h
    exact .uninitialized
  · split at h
    · cases h
    · next r₀ hfin =>
        split at h
        · next hclosed =>
            exact .fresh hfin (by simpa using hclosed) (loopEnds_acceptLoop h)
        · next hopen =>
            have hopen : r₀.isOpen = true := by simpa using hopen
            split at h
            · cases h
            · next hacc =>
                cases h
                exact .kept hfin hopen hacc
            · next hacc => exact .givenUp hfin hopen hacc (loopEnds_acceptLoop h)

/-- `FCGX_InitRequest`, for a process whose memory holds `os.stale`. -/
def fcgxInitRequest (os : Os) (mBuffIn mBuffOut mBuffErr : ℕ) : Request :=
  { req :=
      { requestId := 0, role := 0, isBeginProcessed := false, keepConnection := false
        appStatus := 0, nWriters := 0 }
    inStream := none, out := none, err := none, paramsPtr := none, envp := none
    isOpen := false, os := os, mBuffIn := mBuffIn, mBuffOut := mBuffOut, mBuffErr := mBuffErr }

/-- `FCGX_StartFilterData`. -/
def fcgxStartFilterData (c : Chan) : ℤ × Chan :=
  if c.req.role ≠ fcgiFilter || !c.stream.isReader || !c.stream.isClosed ||
      c.stream.type ≠ fcgiStdin then
    (-1, c.setError fcgxCallSeqError)
  else (0, c.setReaderType fcgiData)

end FastCgi
