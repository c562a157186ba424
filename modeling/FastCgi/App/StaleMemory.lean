import FastCgi.App.StoredCells
import FastCgi.Lib.Runs

/-!
What the web server sees of the memory of the process.

Two runs of an application are compared: the peers send the same and the
calls are the same, but uninitialised memory holds something else, in the
buffers of the streams and on the stack. `EmptyBuffProc` sends no byte of
it, since it makes the header and clears the padding (`Chan.SameWhole`).
The reply of `ProcessManagementRecord` has padding that nobody has cleared.
In the runs in which it sends no such reply every call of `OS_Write` gets
the same bytes (`writes_same`); a query for `FCGI_MAX_CONNS` is enough for
six bytes of the stack to be sent (`writes_differ`).

The calls are those of `Session.lean`, with a procedure in the place of
`FillBuffProc`. The records of the connections that `FCGX_Accept_r` leaves
are kept.
-/

namespace FastCgi

open ByteMem BoundedLoop Machine

/-! ### The calls of an application -/

/-- `readEnvironment`. -/
def readEnvironmentWith (fill : Chan → Option Chan) (role : List UInt8) (c : Chan) :
    Option (Option Params × Chan) :=
  match readParams fill (putParam (newParams 30) role) (c.setReaderType fcgiParams) with
  | none => none
  | some (rc, params, c) => some (if 0 ≤ rc then some params else none, c)

/-- `readRequest`. -/
def readRequestWith (fill : Chan → Option Chan) (c : Chan) : Option (Option Params × Chan) :=
  match fill c with
  | none => none
  | some c =>
      if c.req.isBeginProcessed = false then some (none, c)
      else
        match roleStr c.req.role with
        | none => some (none, c)
        | some role => readEnvironmentWith fill role c

/-- `acceptConnection`. -/
def acceptConnectionWith (fill : Chan → Option Chan) (r : Request) : Option (Bool × Request) :=
  match readRequestWith fill (openReader r) with
  | none => none
  | some (some params, c) => some (true, buildRequest r c params)
  | some (none, c) => some (false, fcgxFree { r with req := c.req, os := c.os } true)

/-- What `FCGX_Accept_r` returns, with the records of the connections it has left. -/
abbrev AcceptResult := (ℤ × Request × List Connection) × List (List WriteCall)

/-- `acceptLoop`. A new connection takes the place of the one before. -/
def acceptLoopWith (fill : Chan → Option Chan) : List Connection → Request → Option AcceptResult
  | [], _ => none
  | .error errno :: pending, r => some ((if 0 < errno then -errno else -9999, r, pending), [])
  | .ok os :: pending, r =>
      match acceptConnectionWith fill { r with os := os, isOpen := true } with
      | none => none
      | some (true, r₁) => some ((0, r₁, pending), [r.os.log])
      | some (false, r₁) =>
          (acceptLoopWith fill pending r₁).map fun x => (x.1, r.os.log :: x.2)

/-- `FCGX_Accept_r`, once `FCGX_Init` has been called. -/
def acceptWith (fill : Chan → Option Chan) (pending : List Connection) (r : Request) :
    Option AcceptResult :=
  match fcgxFinishR r with
  | none => none
  | some r =>
      if !r.isOpen then acceptLoopWith fill pending r
      else
        match acceptConnectionWith fill r with
        | none => none
        | some (true, r) => some ((0, r, pending), [])
        | some (false, r) => acceptLoopWith fill pending r

/-- `Request.call`, with the records of the connections that are left in it. -/
def Request.callWith (fill : Chan → Option Chan) (r : Request) :
    SessionCall → Option (Request × List (List WriteCall))
  | .accept pending =>
      (acceptWith fill pending r).bind fun x => if x.1.2.2 = [] then some (x.1.2.1, x.2) else none
  | .finish => (fcgxFinishR r).map fun r' => (r', [])
  | .setExitStatus status => r.inStream.map fun _ => (fcgxSetExitStatus status r, [])
  | .stream which call =>
      (r.stream which).bind fun s =>
        (call.performWith fill (r.chan s)).map fun c => (r.putStream which c, [])

theorem acceptLoopWith_fillBuffProc (pending : List Connection) (r : Request) :
    (acceptLoopWith fillBuffProc pending r).map Prod.fst = acceptLoop pending r := by
  induction pending generalizing r with
  | nil => rfl
  | cons x pending ih =>
      cases x with
      | error errno => rfl
      | ok os =>
          have hacc : acceptConnectionWith fillBuffProc { r with os := os, isOpen := true } =
              acceptConnection { r with os := os, isOpen := true } := rfl
          rw [acceptLoopWith, acceptLoop, hacc]
          rcases acceptConnection { r with os := os, isOpen := true } with _ | ⟨_ | _, r₁⟩
          · rfl
          · show ((acceptLoopWith fillBuffProc pending r₁).map _).map Prod.fst =
              acceptLoop pending r₁
            rw [Option.map_map, ← ih r₁]
            rfl
          · rfl

theorem acceptWith_fillBuffProc (pending : List Connection) (r : Request) :
    (acceptWith fillBuffProc pending r).map Prod.fst = fcgxAcceptR true pending r := by
  rw [acceptWith, fcgxAcceptR]
  cases fcgxFinishR r with
  | none => rfl
  | some r₀ =>
      simp only [Bool.not_true, Bool.false_eq_true, if_false]
      split
      · exact acceptLoopWith_fillBuffProc pending r₀
      · have hacc : acceptConnectionWith fillBuffProc r₀ = acceptConnection r₀ := rfl
        rw [hacc]
        rcases acceptConnection r₀ with _ | ⟨_ | _, r₁⟩
        · rfl
        · exact acceptLoopWith_fillBuffProc pending r₁
        · rfl

/-- **With `FillBuffProc`** these are the calls of an application. -/
theorem Request.callWith_fillBuffProc (r : Request) (call : SessionCall) :
    (r.callWith fillBuffProc call).map Prod.fst = r.call call := by
  cases call with
  | accept pending =>
      rw [Request.callWith, Request.call, ← acceptWith_fillBuffProc]
      cases acceptWith fillBuffProc pending r with
      | none => rfl
      | some x =>
          simp only [Option.bind_some, Option.map_some]
          split <;> rfl
  | finish =>
      rw [Request.callWith, Request.call]
      cases fcgxFinishR r <;> rfl
  | setExitStatus status =>
      rw [Request.callWith, Request.call]
      cases r.inStream <;> rfl
  | stream which call =>
      rw [Request.callWith, Request.call, Request.streamCall]
      cases r.stream which with
      | none => rfl
      | some s =>
          simp only [Option.bind_some, StreamCall.performWith_fillBuffProc]
          cases call.perform (r.chan s) <;> rfl

/-! ### Requests in two memories -/

/-- The requests differ at most in memory that nobody has stored to. -/
def Request.SameStored (r r' : Request) : Prop :=
  ∃ inStream out err os,
    r' = { r with inStream := inStream, out := out, err := err, os := os } ∧
      Option.Rel Stream.SameStored r.inStream inStream ∧ Option.Rel Stream.SameStored r.out out ∧
        Option.Rel Stream.SameStored r.err err ∧ r.os.SameButStale os

/-- The same connections, in two memories. -/
def SamePeers : Connection → Connection → Prop
  | .ok os, .ok os' => os.SameButStale os'
  | .error errno, .error errno' => errno' = errno
  | _, _ => False

/-- The same call, in two memories. -/
inductive SessionCall.SamePeers : SessionCall → SessionCall → Prop
  | accept {pending pending' : List Connection}
      (h : List.Forall₂ FastCgi.SamePeers pending pending') :
      SamePeers (.accept pending) (.accept pending')
  | finish : SamePeers .finish .finish
  | setExitStatus (status : ℤ) : SamePeers (.setExitStatus status) (.setExitStatus status)
  | stream (which : RequestStream) (call : StreamCall) :
      SamePeers (.stream which call) (.stream which call)

theorem SessionCall.SamePeers.refl (call : SessionCall) : call.SamePeers call := by
  cases call with
  | accept pending =>
      refine .accept (List.forall₂_same.mpr fun x _ => ?_)
      cases x with
      | error errno => rfl
      | ok os => rfl
  | finish => exact .finish
  | setExitStatus status => exact .setExitStatus status
  | stream which call => exact .stream which call

/-! ### One call in two memories -/

section Calls

variable {r r' r₁ : Request} {c c' d : Chan}

theorem Request.SameStored.req (h : r.SameStored r') : r'.req = r.req := by
  obtain ⟨_, _, _, _, rfl, -⟩ := h
  rfl

theorem Request.SameStored.os (h : r.SameStored r') : r.os.SameButStale r'.os := by
  obtain ⟨_, _, _, _, rfl, -, -, -, hos⟩ := h
  exact hos

theorem Request.SameStored.chan (h : r.SameStored r') {s s' : Stream} (hs : s.SameStored s') :
    (r.chan s).SameStored (r'.chan s') := ⟨hs, h.req, h.os⟩

theorem Request.SameStored.stream (h : r.SameStored r') (which : RequestStream) :
    Option.Rel Stream.SameStored (r.stream which) (r'.stream which) := by
  obtain ⟨_, _, _, _, rfl, hin, hout, herr, -⟩ := h
  cases which with
  | input => exact hin
  | out => exact hout
  | err => exact herr

theorem Request.SameStored.putStream (h : r.SameStored r') (which : RequestStream)
    (hc : c.SameStored c') : (r.putStream which c).SameStored (r'.putStream which c') := by
  obtain ⟨_, _, _, _, rfl, hin, hout, herr, -⟩ := h
  have hreq := hc.req
  cases which with
  | input =>
      rw [putStream, putStream, hreq]
      exact ⟨_, _, _, _, rfl, .some hc.stream, hout, herr, hc.os⟩
  | out =>
      rw [putStream, putStream, hreq]
      exact ⟨_, _, _, _, rfl, hin, .some hc.stream, herr, hc.os⟩
  | err =>
      rw [putStream, putStream, hreq]
      exact ⟨_, _, _, _, rfl, hin, hout, .some hc.stream, hc.os⟩

/-- What a stream refers to is put back. -/
theorem Request.SameStored.withChan (h : r.SameStored r') (hc : c.SameStored c') :
    Request.SameStored { r with req := c.req, os := c.os }
      { r' with req := c'.req, os := c'.os } := by
  obtain ⟨_, _, _, _, rfl, hin, hout, herr, -⟩ := h
  rw [hc.req]
  exact ⟨_, _, _, _, rfl, hin, hout, herr, hc.os⟩

theorem Request.SameStored.fclose (h : r.SameStored r') {s s' t : Option Stream} {rc : ℤ}
    (hs : Option.Rel Stream.SameStored s s') (hclose : fcgxFCloseOpt r s = some (rc, t, r₁)) :
    ∃ t' r₁', fcgxFCloseOpt r' s' = some (rc, t', r₁') ∧ Option.Rel Stream.SameStored t t' ∧
      r₁.SameStored r₁' := by
  cases hs with
  | none =>
      cases hclose
      exact ⟨none, r', rfl, .none, h⟩
  | some hs =>
      rw [fcgxFCloseOpt] at hclose ⊢
      split at hclose
      · cases hclose
      · next rc c hcall =>
          cases hclose
          obtain ⟨c', hcall', hc⟩ := (h.chan hs).fclose hcall
          rw [hcall']
          exact ⟨_, _, rfl, .some hc.stream, h.withChan hc⟩

theorem Request.SameStored.closeErr (h : r.SameStored r') {rc : ℤ}
    (hclose : closeErr r = some (rc, r₁)) :
    ∃ r₁', closeErr r' = some (rc, r₁') ∧ r₁.SameStored r₁' := by
  obtain ⟨⟨rc, t, r₂⟩, hfclose, heq⟩ := Option.map_eq_some_iff.mp hclose
  obtain ⟨rfl, rfl⟩ := Prod.ext_iff.mp heq
  have hs : Option.Rel Stream.SameStored r.err r'.err := h.stream .err
  obtain ⟨t', r₂', hfclose', ht, hr⟩ := h.fclose hs hfclose
  refine ⟨{ r₂' with err := t' }, by rw [FastCgi.closeErr, hfclose']; rfl, ?_⟩
  obtain ⟨_, _, _, _, rfl, hin, hout, -, hos⟩ := hr
  exact ⟨_, _, _, _, rfl, hin, hout, ht, hos⟩

theorem Request.SameStored.closeOut (h : r.SameStored r') {rc : ℤ}
    (hclose : closeOut r = some (rc, r₁)) :
    ∃ r₁', closeOut r' = some (rc, r₁') ∧ r₁.SameStored r₁' := by
  obtain ⟨⟨rc, t, r₂⟩, hfclose, heq⟩ := Option.map_eq_some_iff.mp hclose
  obtain ⟨rfl, rfl⟩ := Prod.ext_iff.mp heq
  have hs : Option.Rel Stream.SameStored r.out r'.out := h.stream .out
  obtain ⟨t', r₂', hfclose', ht, hr⟩ := h.fclose hs hfclose
  refine ⟨{ r₂' with out := t' }, by rw [FastCgi.closeOut, hfclose']; rfl, ?_⟩
  obtain ⟨_, _, _, _, rfl, hin, -, herr, hos⟩ := hr
  exact ⟨_, _, _, _, rfl, hin, ht, herr, hos⟩

theorem Request.SameStored.fcgxFree (h : r.SameStored r') (close : Bool) :
    (fcgxFree r close).SameStored (fcgxFree r' close) := by
  obtain ⟨_, _, _, _, rfl, -, -, -, hos⟩ := h
  exact ⟨none, none, none, _, rfl, .none, .none, .none, hos⟩

/-- **`FCGX_Finish_r`.** -/
theorem Request.SameStored.finish (h : r.SameStored r') (hfin : fcgxFinishR r = some r₁) :
    ∃ r₁', fcgxFinishR r' = some r₁' ∧ r₁.SameStored r₁' := by
  have hs : Option.Rel Stream.SameStored r.inStream r'.inStream := h.stream .input
  rw [fcgxFinishR] at hfin ⊢
  rw [h.req]
  generalize r.inStream = s at hs hfin
  generalize r'.inStream = s' at hs
  cases hs with
  | none =>
      cases hfin
      exact ⟨_, rfl, h.fcgxFree _⟩
  | @some s s' hs =>
      have herrno : s'.fcgiErrno = s.fcgiErrno := by rw [hs.eq]
      simp only at hfin ⊢
      split at hfin
      · cases hfin
      · next herr =>
          obtain ⟨r₂', herr', h₂⟩ := h.closeErr herr
          rw [herr']
          simp only
          split at hfin
          · cases hfin
          · next hout =>
              obtain ⟨r₃', hout', h₃⟩ := h₂.closeOut hout
              cases hfin
              rw [hout', herrno]
              exact ⟨_, rfl, h₃.fcgxFree _⟩

/-- A new stream holds nothing. -/
theorem newStream_sameStored (mBuff : ℕ) (stale stale' : ℕ → UInt8) (bufflen : ℤ) (isReader : Bool)
    (streamType : ℕ) :
    (newStream mBuff stale bufflen isReader streamType).SameStored
      (newStream mBuff stale' bufflen isReader streamType) := by
  refine ⟨rfl, fun k hk => ?_, ?_⟩
  · cases isReader with
    | true =>
        rw [Stream.stored_reader rfl] at hk
        exact absurd hk.2 (Nat.not_lt_zero k)
    | false =>
        rw [Stream.stored_writer rfl] at hk
        exact absurd hk.1 (Nat.not_lt.mpr (hk.2 rfl))
  · intro hreader
    obtain rfl : isReader = true := hreader
    exact ⟨Nat.le_refl 0, fun _ => ⟨Nat.le_refl 0, Nat.le_refl 0⟩⟩

theorem Request.SameStored.openReader (h : r.SameStored r') :
    (openReader r).ReadTwins (openReader r') := by
  obtain ⟨_, _, _, _, rfl, -, -, -, hos⟩ := h
  exact ⟨rfl, newStream_sameStored _ _ _ _ _ _, rfl, hos⟩

theorem Chan.ReadTwins.readEnvironment (h : c.ReadTwins c') {role : List UInt8} {x : Option Params}
    (hread : readEnvironmentWith coveredFill role c = some (x, d)) :
    SameResult ReadTwins x d (readEnvironmentWith fillBuffProc role c') := by
  rw [readEnvironmentWith] at hread ⊢
  split at hread
  · cases hread
  · next rc params c₁ hparams =>
      have hset : (c.setReaderType fcgiParams).ReadTwins (c'.setReaderType fcgiParams) :=
        ⟨h.1, h.2.setReaderType h.1 fcgiParams⟩
      obtain ⟨c₁', hparams', h₁⟩ := readsSame_coveredFill.readParams hset hparams
      cases hread
      rw [hparams']
      exact ⟨c₁', rfl, h₁⟩

theorem Chan.ReadTwins.readRequest (h : c.ReadTwins c') (hopen : c.stream.isClosed = false)
    {x : Option Params} (hread : readRequestWith coveredFill c = some (x, d)) :
    SameResult ReadTwins x d (readRequestWith fillBuffProc c') := by
  rw [readRequestWith] at hread ⊢
  split at hread
  · cases hread
  · next c₁ hfill =>
      obtain ⟨c₁', hfill', h₁⟩ := readsSame_coveredFill.fill h hopen hfill
      rw [hfill']
      simp only
      rw [h₁.2.req]
      split at hread
      · next hnone =>
          cases hread
          rw [if_pos hnone]
          exact ⟨c₁', rfl, h₁⟩
      · next hbegun =>
          rw [if_neg hbegun]
          cases hrole : roleStr c₁.req.role with
          | none =>
              rw [hrole] at hread
              cases hread
              exact ⟨c₁', rfl, h₁⟩
          | some role =>
              rw [hrole] at hread
              exact h₁.readEnvironment hread

theorem Request.SameStored.buildRequest (h : r.SameStored r') (hc : c.ReadTwins c')
    (params : Params) : (buildRequest r c params).SameStored (buildRequest r' c' params) := by
  obtain ⟨_, _, _, _, rfl, -, -, -, -⟩ := h
  have hin := (hc.2.setReaderType hc.1 fcgiStdin).stream
  rw [FastCgi.buildRequest, FastCgi.buildRequest, hc.2.req]
  exact ⟨_, _, _, _, rfl, .some hin, .some (newStream_sameStored _ _ _ _ _ _),
    .some (newStream_sameStored _ _ _ _ _ _), hc.2.os⟩

theorem Request.SameStored.acceptConnection (h : r.SameStored r') {ok : Bool}
    (hacc : acceptConnectionWith coveredFill r = some (ok, r₁)) :
    ∃ r₁', acceptConnectionWith fillBuffProc r' = some (ok, r₁') ∧ r₁.SameStored r₁' := by
  rw [acceptConnectionWith] at hacc ⊢
  cases hread : readRequestWith coveredFill (FastCgi.openReader r) with
  | none =>
      rw [hread] at hacc
      cases hacc
  | some y =>
      obtain ⟨x, d⟩ := y
      obtain ⟨d', hread', hd⟩ := h.openReader.readRequest rfl hread
      rw [hread] at hacc
      rw [hread']
      cases x with
      | none =>
          cases hacc
          exact ⟨_, rfl, (h.withChan hd.2).fcgxFree true⟩
      | some params =>
          cases hacc
          exact ⟨_, rfl, h.buildRequest hd params⟩

/-- A new connection takes the place of the one before. -/
theorem Request.SameStored.connect (h : r.SameStored r') {os os' : Os} (hos : os.SameButStale os') :
    Request.SameStored { r with os := os, isOpen := true }
      { r' with os := os', isOpen := true } := by
  obtain ⟨_, _, _, _, rfl, hin, hout, herr, -⟩ := h
  exact ⟨_, _, _, _, rfl, hin, hout, herr, hos⟩

/-- What `FCGX_Accept_r` returns in two memories. -/
def SameAcceptResult (x x' : AcceptResult) : Prop :=
  x'.1.1 = x.1.1 ∧ x.1.2.1.SameStored x'.1.2.1 ∧ (x.1.2.2 = [] → x'.1.2.2 = []) ∧ x'.2 = x.2

theorem acceptLoop_sameStored {pending pending' : List Connection}
    (hpeers : List.Forall₂ SamePeers pending pending') (h : r.SameStored r') {x : AcceptResult}
    (hacc : acceptLoopWith coveredFill pending r = some x) :
    ∃ x', acceptLoopWith fillBuffProc pending' r' = some x' ∧ SameAcceptResult x x' := by
  induction hpeers generalizing r r' x with
  | nil => cases hacc
  | @cons peer peer' pending pending' hpeer hrest ih =>
      have hnil : pending = [] → pending' = [] := by
        rintro rfl
        cases hrest
        rfl
      cases peer with
      | error errno =>
          cases peer' with
          | ok os => exact hpeer.elim
          | error errno' =>
              obtain rfl : errno' = errno := hpeer
              cases hacc
              exact ⟨_, rfl, rfl, h, hnil, rfl⟩
      | ok os =>
          cases peer' with
          | error errno => exact hpeer.elim
          | ok os' =>
              have hlog : r'.os.log = r.os.log := by rw [h.os]
              rw [acceptLoopWith] at hacc ⊢
              split at hacc
              · cases hacc
              · next r₁ hconn =>
                  obtain ⟨r₁', hconn', h₁⟩ := (h.connect hpeer).acceptConnection hconn
                  cases hacc
                  rw [hconn', hlog]
                  exact ⟨_, rfl, rfl, h₁, hnil, rfl⟩
              · next r₁ hconn =>
                  obtain ⟨r₁', hconn', h₁⟩ := (h.connect hpeer).acceptConnection hconn
                  obtain ⟨y, hloop, rfl⟩ := Option.map_eq_some_iff.mp hacc
                  obtain ⟨y', hloop', hrc, hsame, hleft, hlogs⟩ := ih h₁ hloop
                  rw [hconn', hlog]
                  exact ⟨(y'.1, r.os.log :: y'.2), by simp only [hloop', Option.map_some], hrc,
                    hsame, hleft, by rw [hlogs]⟩

theorem accept_sameStored {pending pending' : List Connection}
    (hpeers : List.Forall₂ SamePeers pending pending') (h : r.SameStored r') {x : AcceptResult}
    (hacc : acceptWith coveredFill pending r = some x) :
    ∃ x', acceptWith fillBuffProc pending' r' = some x' ∧ SameAcceptResult x x' := by
  rw [acceptWith] at hacc ⊢
  split at hacc
  · cases hacc
  · next r₀ hfin =>
      obtain ⟨r₀', hfin', h₀⟩ := h.finish hfin
      have hisOpen : r₀'.isOpen = r₀.isOpen := by
        obtain ⟨_, _, _, _, rfl, -⟩ := h₀
        rfl
      rw [hfin']
      simp only
      rw [hisOpen]
      split at hacc
      · next hclosed =>
          rw [if_pos hclosed]
          exact acceptLoop_sameStored hpeers h₀ hacc
      · next hopen =>
          rw [if_neg hopen]
          split at hacc
          · cases hacc
          · next r₁ hconn =>
              obtain ⟨r₁', hconn', h₁⟩ := h₀.acceptConnection hconn
              cases hacc
              rw [hconn']
              refine ⟨_, rfl, rfl, h₁, ?_, rfl⟩
              rintro rfl
              cases hpeers
              rfl
          · next r₁ hconn =>
              obtain ⟨r₁', hconn', h₁⟩ := h₀.acceptConnection hconn
              rw [hconn']
              exact acceptLoop_sameStored hpeers h₁ hacc

/-- **A call in another memory**, where the replies that are sent in it show none of it. -/
theorem Request.SameStored.call (h : r.SameStored r') {call call' : SessionCall}
    (hcall : call.SamePeers call') {logs : List (List WriteCall)}
    (hcovered : r.callWith coveredFill call = some (r₁, logs)) :
    ∃ r₁', r'.callWith fillBuffProc call' = some (r₁', logs) ∧ r₁.SameStored r₁' := by
  cases hcall with
  | @accept pending pending' hpeers =>
      obtain ⟨x, hacc, hrest⟩ := Option.bind_eq_some_iff.mp hcovered
      obtain ⟨x', hacc', -, hsame, hleft, hlogs⟩ := accept_sameStored hpeers h hacc
      split at hrest
      · next hnil =>
          cases hrest
          exact ⟨x'.1.2.1, by rw [Request.callWith, hacc', Option.bind_some, if_pos (hleft hnil),
            hlogs], hsame⟩
      · cases hrest
  | finish =>
      obtain ⟨r₂, hfin, heq⟩ := Option.map_eq_some_iff.mp hcovered
      cases heq
      obtain ⟨r₂', hfin', h₂⟩ := h.finish hfin
      exact ⟨r₂', by rw [Request.callWith, hfin']; rfl, h₂⟩
  | setExitStatus status =>
      obtain ⟨s, hs, heq⟩ := Option.map_eq_some_iff.mp hcovered
      cases heq
      have hin : Option.Rel Stream.SameStored r.inStream r'.inStream := h.stream .input
      rw [hs] at hin
      obtain ⟨s', hs'⟩ : ∃ s', r'.inStream = some s' := by
        generalize r'.inStream = t at hin
        cases hin
        exact ⟨_, rfl⟩
      refine ⟨fcgxSetExitStatus status r', by rw [Request.callWith, hs']; rfl, ?_⟩
      obtain ⟨_, _, _, _, rfl, hin, hout, herr, hos⟩ := h
      exact ⟨_, _, _, _, rfl, hin, hout, herr, hos⟩
  | stream which call =>
      obtain ⟨s, hs, hrest⟩ := Option.bind_eq_some_iff.mp hcovered
      obtain ⟨c, hperform, heq⟩ := Option.map_eq_some_iff.mp hrest
      cases heq
      have hstream := h.stream which
      rw [hs] at hstream
      obtain ⟨s', hs', hsame⟩ : ∃ s', r'.stream which = some s' ∧ s.SameStored s' := by
        generalize r'.stream which = t at hstream
        cases hstream with
        | some hsame => exact ⟨_, rfl, hsame⟩
      obtain ⟨c', hperform', hc⟩ := (h.chan hsame).call hperform
      refine ⟨r'.putStream which c', ?_, h.putStream which hc⟩
      rw [Request.callWith, hs', Option.bind_some, StreamCall.performWith_fillBuffProc, hperform']
      rfl

end Calls

/-! ### Runs -/

/-- The request in a process whose uninitialised memory holds something else. -/
def Request.inMemory (r : Request) (stale : ℕ → UInt8) : Request :=
  { r with os := { r.os with stale := stale } }

/-- A request, and the records of the connections it has left. -/
structure Session where
  request : Request
  left : List (List WriteCall)

/-- Every call of `OS_Write` so far, connection by connection. -/
def Session.writes (s : Session) : List (List WriteCall) := s.left ++ [s.request.os.log]

/-- A call of the application, and what uninitialised memory holds when it is made. -/
abbrev CallIn := SessionCall × (ℕ → UInt8)

/-- One call, with a procedure in the place of `FillBuffProc`. -/
def Session.step (fill : Chan → Option Chan) (s : Session) (x : CallIn) : Option Session :=
  ((s.request.inMemory x.2).callWith fill x.1).map fun y => ⟨y.1, s.left ++ y.2⟩

/-- A call takes one session to another one. -/
def Session.Steps (s : Session) (x : CallIn) (t : Session) : Prop :=
  s.step fillBuffProc x = some t

/-- No reply that is sent in the call shows the memory. -/
def Session.Covered (s : Session) (x : CallIn) : Prop := (s.step coveredFill x).isSome = true

instance (s : Session) (x : CallIn) : Decidable (s.Covered x) := instDecidableEqBool _ _

/-- `FCGX_InitRequest`. -/
def newSession (os : Os) (mBuffIn mBuffOut mBuffErr : ℕ) : Session :=
  ⟨fcgxInitRequest os mBuffIn mBuffOut mBuffErr, []⟩

/-- **The steps are those of the application.** -/
theorem Session.step_request (s : Session) (x : CallIn) :
    (s.step fillBuffProc x).map Session.request = (s.request.inMemory x.2).call x.1 := by
  rw [Session.step, Option.map_map, ← Request.callWith_fillBuffProc]
  rfl

/-- The requests differ at most in memory that nobody has stored to. -/
def Session.SameStored (s s' : Session) : Prop :=
  s.request.SameStored s'.request ∧ s'.left = s.left

theorem rel_trans_left {x y z : Option Stream} (h : Option.Rel Stream.SameStored x y)
    (h' : Option.Rel Stream.SameStored x z) : Option.Rel Stream.SameStored y z := by
  cases h with
  | none =>
      cases h'
      exact .none
  | some h =>
      cases h' with
      | some h' => exact .some (h.trans_left h')

theorem Request.SameStored.trans_left {r r₁ r₂ : Request} (h₁ : r.SameStored r₁)
    (h₂ : r.SameStored r₂) : r₁.SameStored r₂ := by
  obtain ⟨_, _, _, _, rfl, hin, hout, herr, hos⟩ := h₁
  obtain ⟨_, _, _, _, rfl, hin', hout', herr', hos'⟩ := h₂
  exact ⟨_, _, _, _, rfl, rel_trans_left hin hin', rel_trans_left hout hout',
    rel_trans_left herr herr', hos.trans_left hos'⟩

theorem Request.SameStored.inMemory {r r' : Request} (h : r.SameStored r')
    (stale stale' : ℕ → UInt8) : (r.inMemory stale).SameStored (r'.inMemory stale') := by
  obtain ⟨_, _, _, os', rfl, hin, hout, herr, hos⟩ := h
  refine ⟨_, _, _, _, rfl, hin, hout, herr, ?_⟩
  rw [Os.SameButStale] at hos
  rw [hos]
  rfl

theorem Session.SameStored.writes {s s' : Session} (h : s.SameStored s') :
    s'.writes = s.writes := by
  have hlog : s'.request.os.log = s.request.os.log := by rw [h.1.os]
  rw [Session.writes, Session.writes, h.2, hlog]

/-- **One step.** What is sent in it is sent in every memory. -/
theorem Session.SameStored.step {s s' t : Session} {x x' : CallIn} (h : s.SameStored s')
    (hx : x.1.SamePeers x'.1) (hcovered : s.Covered x) (hstep : s.Steps x t) :
    ∃ t', s'.Steps x' t' ∧ t.SameStored t' := by
  obtain ⟨u, hu⟩ := Option.isSome_iff_exists.mp hcovered
  obtain ⟨⟨r₀, logs⟩, hcall, rfl⟩ := Option.map_eq_some_iff.mp hu
  -- both requests are compared with the one in which `coveredFill` has been called
  have hself : (s.request.inMemory x.2).SameStored (s.request.inMemory x.2) := by
    obtain ⟨_, _, _, _, -, hin, hout, herr, -⟩ := h.1
    have hrefl {a b : Option Stream} (hab : Option.Rel Stream.SameStored a b) :
        Option.Rel Stream.SameStored a a := by
      cases hab with
      | none => exact .none
      | some hab => exact .some ⟨rfl, fun _ _ => rfl, hab.ordered⟩
    exact ⟨_, _, _, _, rfl, hrefl hin, hrefl hout, hrefl herr, rfl⟩
  obtain ⟨r₁, hcall₁, h₁⟩ := hself.call (.refl x.1) hcall
  obtain ⟨r₂, hcall₂, h₂⟩ := (h.1.inMemory x.2 x'.2).call hx hcall
  obtain rfl : ⟨r₁, s.left ++ logs⟩ = t := by
    rw [Session.Steps, Session.step, hcall₁] at hstep
    exact Option.some.inj hstep
  refine ⟨⟨r₂, s'.left ++ logs⟩, ?_, h₁.trans_left h₂, by rw [h.2]⟩
  rw [Session.Steps, Session.step, hcall₂]
  rfl

/-- **No stale memory is sent** in a run whose replies to queries are padded with no more than
the NUL that is printed behind them: whatever memory held, every call of `OS_Write` gets the
same bytes. -/
theorem writes_same {os os' : Os} (hos : os.SameButStale os') (mBuffIn mBuffOut mBuffErr : ℕ)
    {calls calls' : List CallIn}
    (hcalls : List.Forall₂ (fun x x' => x.1.SamePeers x'.1) calls calls') {s : Session}
    (h : Runs (Guarded Session.Covered Session.Steps)
      (newSession os mBuffIn mBuffOut mBuffErr) calls s) :
    (∃ s', Runs Session.Steps (newSession os' mBuffIn mBuffOut mBuffErr) calls' s') ∧
      ∀ s', Runs Session.Steps (newSession os' mBuffIn mBuffOut mBuffErr) calls' s' →
        s'.writes = s.writes := by
  have hstart : (newSession os mBuffIn mBuffOut mBuffErr).SameStored
      (newSession os' mBuffIn mBuffOut mBuffErr) :=
    ⟨⟨none, none, none, os', rfl, .none, .none, .none, hos⟩, rfl⟩
  obtain ⟨s₁, hrun, hsame⟩ := Runs.simulates (R := Session.SameStored)
    (S := fun (x x' : CallIn) => x.1.SamePeers x'.1)
    (fun _ _ _ _ _ hR hx hstep => hR.step hx hstep.1 hstep.2) hstart hcalls h
  refine ⟨⟨s₁, hrun⟩, fun s' hs' => ?_⟩
  have hdet : ∀ s x t u, Session.Steps s x t → Session.Steps s x u → t = u := by
    intro s x t u ht hu
    exact Option.some.inj (ht.symm.trans hu)
  rw [Runs.unique hdet hs' hrun]
  exact hsame.writes

/-- A peer that sends a query for one variable, and a byte behind it. -/
def askingPeer (name : List UInt8) (h : name.length ≤ 15) (b : UInt8) : Os :=
  { Os.sending ((dataRecord fcgiGetValues fcgiNullRequestId
      ([UInt8.ofNat name.length, 0] ++ name) [] (by simp; omega) length_noPadding).encode ++ [1])
      [] [] with stale := fun _ => b }

/-- The application accepts this connection and no other one. -/
def askedCalls (name : List UInt8) (h : name.length ≤ 15) (b : UInt8) : List CallIn :=
  [(.accept [.ok (askingPeer name h b), .error 0], fun _ => b)]

/-- A process whose memory is filled with `b`. -/
def filledSession (b : UInt8) : Session :=
  newSession { Os.sending [] [] [] with stale := fun _ => b } 0 0 0

theorem filledSession_os (b b' : UInt8) :
    (filledSession b).request.os.SameButStale (filledSession b').request.os := rfl

theorem askedCalls_samePeers (name : List UInt8) (h : name.length ≤ 15) (b b' : UInt8) :
    List.Forall₂ (fun x x' : CallIn => x.1.SamePeers x'.1) (askedCalls name h b)
      (askedCalls name h b') :=
  .cons (.accept (.cons rfl (.cons rfl .nil))) .nil

/-- The answer for `FCGI_MAX_REQS` has sixteen bytes. -/
theorem writes_same_maxReqs :
    ∃ s, Runs (Guarded Session.Covered Session.Steps) (filledSession 0)
        (askedCalls fcgiMaxReqs (by decide) 0) s ∧
      (∃ s', Runs Session.Steps (filledSession 1) (askedCalls fcgiMaxReqs (by decide) 1) s') ∧
      ∀ s', Runs Session.Steps (filledSession 1) (askedCalls fcgiMaxReqs (by decide) 1) s' →
        s'.writes = s.writes := by
  have hsome : (exec (guardStep Session.Covered (Session.step fillBuffProc)) (filledSession 0)
      (askedCalls fcgiMaxReqs (by decide) 0)).isSome = true := by
    decide +kernel
  obtain ⟨s, hs⟩ := Option.isSome_iff_exists.mp hsome
  have hrun : Runs (Guarded Session.Covered Session.Steps) _ _ s :=
    .of_exec_guardStep (fun _ _ _ h => h) hs
  exact ⟨s, hrun, writes_same (filledSession_os 0 1) 0 0 0 (askedCalls_samePeers _ _ 0 1) hrun⟩

/-- **Six bytes of the stack** are sent behind the answer for `FCGI_MAX_CONNS`. -/
theorem writes_differ :
    ¬∀ (os os' : Os) (mBuffIn mBuffOut mBuffErr : ℕ) (calls calls' : List CallIn)
      (s s' : Session), os.SameButStale os' →
        List.Forall₂ (fun x x' => x.1.SamePeers x'.1) calls calls' →
        Runs Session.Steps (newSession os mBuffIn mBuffOut mBuffErr) calls s →
        Runs Session.Steps (newSession os' mBuffIn mBuffOut mBuffErr) calls' s' →
        s'.writes = s.writes := by
  intro hall
  let sent (b : UInt8) : List WriteCall :=
    [⟨(makeHeader fcgiGetValuesResult fcgiNullRequestId 17 7).bytes ++
      ([14, 1] ++ fcgiMaxConns ++ [0x31] ++ [0, b, b, b, b, b, b]), 32⟩]
  have hzero : (exec (Session.step fillBuffProc) (filledSession 0)
      (askedCalls fcgiMaxConns (by decide) 0)).map Session.writes = some [[], sent 0] := by
    decide +kernel
  have hone : (exec (Session.step fillBuffProc) (filledSession 1)
      (askedCalls fcgiMaxConns (by decide) 1)).map Session.writes = some [[], sent 1] := by
    decide +kernel
  obtain ⟨s, hs, hwrites⟩ := Option.map_eq_some_iff.mp hzero
  obtain ⟨s', hs', hwrites'⟩ := Option.map_eq_some_iff.mp hone
  have hsame := hall _ _ 0 0 0 _ _ s s' (filledSession_os 0 1) (askedCalls_samePeers _ _ 0 1)
    (.of_exec (fun _ _ _ h => h) hs) (.of_exec (fun _ _ _ h => h) hs')
  rw [hwrites, hwrites'] at hsame
  exact absurd hsame (by decide)

end FastCgi
