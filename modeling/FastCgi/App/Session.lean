import FastCgi.App.RequestData
import FastCgi.App.Respond

/-!
What an application does with one `FCGX_Request`: it accepts and finishes
requests, calls the functions of the three streams in between, and sets
the exit status.

Nothing is asked of the order of the calls or of the streams they are
made on, but that a stream exists when it is used. `FCGX_Init` has been
called; without it `FCGX_Accept_r` does nothing.
-/

namespace FastCgi

open ByteMem

/-- `FCGX_ClearError`. -/
def fcgxClearError (c : Chan) : Chan := { c with stream := { c.stream with fcgiErrno := 0 } }

/-- The calls on a stream. -/
inductive StreamCall where
  | read (call : ReadCall)
  | unGetChar (b : UInt8)
  | write (call : ClientCall)
  | startFilterData
  | clearError
  deriving DecidableEq

def StreamCall.perform (call : StreamCall) (c : Chan) : Option Chan :=
  match call with
  | .read call => (call.perform c).map Prod.snd
  | .unGetChar b => some (fcgxUnGetChar b c).2
  | .write call => call.perform c
  | .startFilterData => some (fcgxStartFilterData c).2
  | .clearError => some (fcgxClearError c)

/-- The streams of a request. -/
inductive RequestStream where
  | input
  | out
  | err
  deriving DecidableEq

def Request.stream (r : Request) : RequestStream → Option Stream
  | .input => r.inStream
  | .out => r.out
  | .err => r.err

/-- A stream of the request and what it refers to are put back. -/
def Request.putStream (r : Request) (which : RequestStream) (c : Chan) : Request :=
  match which with
  | .input => { r with inStream := some c.stream, req := c.req, os := c.os }
  | .out => { r with out := some c.stream, req := c.req, os := c.os }
  | .err => { r with err := some c.stream, req := c.req, os := c.os }

/-- `FCGX_SetExitStatus`. -/
def fcgxSetExitStatus (status : ℤ) (r : Request) : Request :=
  { r with req := { r.req with appStatus := status } }

/-- The calls of an application. `FCGX_Accept_r` is called with the connections that
`OS_Accept` returns to it. -/
inductive SessionCall where
  | accept (pending : List Connection)
  | finish
  | setExitStatus (status : ℤ)
  | stream (which : RequestStream) (call : StreamCall)

/-- A call on a stream of the request. -/
def Request.streamCall (r : Request) (which : RequestStream) (call : StreamCall) :
    Option Request :=
  (r.stream which).bind fun s => (call.perform (r.chan s)).map (r.putStream which)

/-- The request after a call. -/
def Request.call (r : Request) : SessionCall → Option Request
  | .accept pending =>
      (fcgxAcceptR true pending r).bind fun x => if x.2.2 = [] then some x.2.1 else none
  | .finish => fcgxFinishR r
  | .setExitStatus status => r.inStream.map fun _ => fcgxSetExitStatus status r
  | .stream which call => r.streamCall which call

/-! ### What the calls leave of the request data -/

theorem ReadCall.perform_kept {call : ReadCall} {c c' : Chan} {bs : List UInt8}
    (h : call.perform c = some (bs, c')) : c.Kept c' := by
  have hkeeps := fillFrame_kept.readInvariant keeps_fillBuffProc c
  cases call with
  | getChar =>
      obtain ⟨⟨x, c₁⟩, hget, heq⟩ := Option.map_eq_some_iff.mp h
      obtain rfl : c₁ = c' := congrArg Prod.snd heq
      exact hkeeps.getChar (.refl c) hget
  | getStr n => exact hkeeps.getStr (.refl c) h

/-- What writing keeps, and `FCGX_FClose` too, every call on a writer keeps. -/
theorem ClientCall.perform_keeps {I : Chan → Prop} (hI : WriteInvariant I)
    (hleave : ∀ c, I c → I c.leaveWriter) {call : ClientCall} {c c' : Chan} (hc : I c)
    (h : call.perform c = some c') : I c' := by
  cases call with
  | putChar b =>
      obtain ⟨⟨ok, c₁⟩, hput, rfl⟩ := Option.map_eq_some_iff.mp h
      exact hI.putChar hc hput
  | putStr str =>
      obtain ⟨⟨n, c₁⟩, hput, rfl⟩ := Option.map_eq_some_iff.mp h
      exact hI.putStr hc hput
  | fflush =>
      obtain rfl := Option.some.inj h
      exact hI.fflush hc
  | fclose =>
      obtain ⟨⟨rc, c₁⟩, hclose, rfl⟩ := Option.map_eq_some_iff.mp h
      exact hI.fclose hleave hc hclose

theorem ClientCall.perform_req {call : ClientCall} {c c' : Chan} (h : call.perform c = some c') :
    c.req.SameButWriters c'.req :=
  ClientCall.perform_keeps (writeInvariant_sameButWriters c.req) (fun _ hc => hc.leaveWriter)
    (.refl _) h

theorem StreamCall.perform_kept {call : StreamCall} {c c' : Chan} (h : call.perform c = some c') :
    c.req.Kept c'.req := by
  cases call with
  | read call =>
      obtain ⟨⟨bs, c₁⟩, hread, rfl⟩ := Option.map_eq_some_iff.mp h
      exact (ReadCall.perform_kept hread).req
  | unGetChar b =>
      obtain rfl := Option.some.inj h
      simp only [fcgxUnGetChar]
      split <;> exact .refl _
  | write call => exact (ClientCall.perform_req h).kept
  | startFilterData =>
      obtain rfl := Option.some.inj h
      rw [fcgxStartFilterData]
      split <;> exact .refl _
  | clearError =>
      obtain rfl := Option.some.inj h
      exact .refl _

theorem Request.streamCall_kept {r r' : Request} {which : RequestStream} {call : StreamCall}
    (h : r.streamCall which call = some r') : r.req.Kept r'.req := by
  obtain ⟨s, -, h⟩ := Option.bind_eq_some_iff.mp h
  obtain ⟨c, hc, rfl⟩ := Option.map_eq_some_iff.mp h
  have hkept := StreamCall.perform_kept hc
  cases which <;> exact hkept

theorem fcgxFCloseOpt_req {r r' : Request} {s s' : Option Stream} {rc : ℤ}
    (h : fcgxFCloseOpt r s = some (rc, s', r')) : r.req.SameButWriters r'.req := by
  cases s with
  | none =>
      cases h
      exact .refl _
  | some s =>
      simp only [fcgxFCloseOpt] at h
      split at h
      · cases h
      · next hclosed =>
          have hreq := fcgxFClose_req hclosed
          cases h
          exact hreq

theorem closeErr_req {r r' : Request} {rc : ℤ} (h : closeErr r = some (rc, r')) :
    r.req.SameButWriters r'.req := by
  obtain ⟨⟨rc', s, r₁⟩, hclose, heq⟩ := Option.map_eq_some_iff.mp h
  have hreq := fcgxFCloseOpt_req hclose
  obtain rfl := congrArg Prod.snd heq
  exact hreq

theorem closeOut_req {r r' : Request} {rc : ℤ} (h : closeOut r = some (rc, r')) :
    r.req.SameButWriters r'.req := by
  obtain ⟨⟨rc', s, r₁⟩, hclose, heq⟩ := Option.map_eq_some_iff.mp h
  have hreq := fcgxFCloseOpt_req hclose
  obtain rfl := congrArg Prod.snd heq
  exact hreq

theorem fcgxFinishR_req {r r' : Request} (h : fcgxFinishR r = some r') :
    r.req.SameButWriters r'.req := by
  rw [fcgxFinishR] at h
  split at h
  · obtain rfl := Option.some.inj h
    exact .refl _
  · split at h
    · cases h
    · next herr =>
        split at h
        · cases h
        · next hout =>
            have hreq := (closeErr_req herr).trans (closeOut_req hout)
            obtain rfl := Option.some.inj h
            exact hreq

theorem readRequest_appStatus {c c' : Chan} {x : Option Params}
    (h : readRequest c = some (x, c')) : c'.req.appStatus = c.req.appStatus := by
  rw [readRequest] at h
  split at h
  · cases h
  · next c₁ hfill =>
      have hkept := (keepsData_fillBuffProc c c₁ hfill).appStatus
      split at h
      · cases h
        exact hkept
      · split at h
        · cases h
          exact hkept
        · rw [readEnvironment] at h
          split at h
          · cases h
          · next hread =>
              cases h
              exact (readParams_kept hread).req.appStatus.trans hkept

theorem acceptConnection_appStatus {r r' : Request} {ok : Bool}
    (h : acceptConnection r = some (ok, r')) : r'.req.appStatus = r.req.appStatus := by
  rw [acceptConnection] at h
  split at h
  · cases h
  · next hread =>
      cases h
      exact readRequest_appStatus hread
  · next hread =>
      cases h
      exact readRequest_appStatus hread

theorem LoopEnds.appStatus {pending rest : List Connection} {r r' : Request} {rc : ℤ}
    (h : LoopEnds pending r rc r' rest) : r'.req.appStatus = r.req.appStatus := by
  induction h with
  | failed => rfl
  | accepted hacc =>
      have hkept := acceptConnection_appStatus hacc
      exact hkept
  | givenUp hacc _ ih =>
      have hkept := acceptConnection_appStatus hacc
      exact ih.trans hkept

/-- `FCGX_Accept_r` leaves the exit status as it was. -/
theorem fcgxAcceptR_appStatus {lib : Bool} {pending rest : List Connection} {r r' : Request}
    {rc : ℤ} (h : fcgxAcceptR lib pending r = some (rc, r', rest)) :
    r'.req.appStatus = r.req.appStatus := by
  cases acceptEnds_fcgxAcceptR h with
  | uninitialized => rfl
  | kept hfin _ hacc =>
      exact (acceptConnection_appStatus hacc).trans (fcgxFinishR_req hfin).kept.appStatus
  | fresh hfin _ hloop => exact hloop.appStatus.trans (fcgxFinishR_req hfin).kept.appStatus
  | givenUp hfin _ hacc hloop =>
      calc r'.req.appStatus
      _ = _ := hloop.appStatus
      _ = _ := acceptConnection_appStatus hacc
      _ = r.req.appStatus := (fcgxFinishR_req hfin).kept.appStatus

end FastCgi
