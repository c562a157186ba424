import FastCgi.App.RequestWire
import FastCgi.App.Session
import FastCgi.Lib.Runs

/-!
Several requests on one connection.

A peer that keeps the connection sends the next request when
`FCGX_Finish_r` has ended the last one, of which records may still be on
their way then. What the old reader has buffered goes with it; what
`OS_Read` has not delivered comes to the reader of the next request, which
knows the old request id and nothing of where a record starts. So the
requests of a connection do not disturb each other where `OS_Read` has
delivered each of them (`keepAlive_served`), and a record of an old request
that it has not delivered ends the connection (`acceptConnection_leftover`).
-/

namespace FastCgi

open ByteMem Machine

/-! ### The turns of a connection -/

/-- What an application does before `FCGX_Finish_r`, to which it leaves the closing of its
streams: so the `FCGI_END_REQUEST` record goes out there. -/
inductive TurnCall where
  | read (call : ReadCall)
  | write (w : Writer) (call : ClientCall) (keeps : call ≠ .fclose)

/-- How many bytes a call asks for, if it reads. -/
def TurnCall.wanted : TurnCall → List ℕ
  | .read call => [call.wanted]
  | .write .. => []

/-- What the call returns, if it reads, and the request after it. -/
def TurnCall.perform : TurnCall → Request → Option (List (List UInt8) × Request)
  | .read call, r => r.inStream.bind fun s =>
      (call.perform (r.chan s)).map fun x => ([x.1], r.putStream .input x.2)
  | .write w call _, r => (r.perform w call).map fun r => ([], r)

def performTurn : List TurnCall → Request → Option (List (List UInt8) × Request)
  | [], r => some ([], r)
  | call :: calls, r => (call.perform r).bind fun x =>
      (performTurn calls x.2).map fun y => (x.1 ++ y.1, y.2)

/-- A request, and what the application does with it. -/
structure Turn where
  request : RequestRecords
  calls : List TurnCall

/-- What an application sees of a request. -/
structure Served where
  role : ℕ
  env : List (List UInt8)
  stdin : List (List UInt8)
  deriving DecidableEq

/-- `FCGX_Accept_r` and the calls of the turn; `none` where it does not return 0. -/
def serveTurn (pending : List Connection) (t : Turn) (r : Request) : Option (Served × Request) :=
  (fcgxAcceptR true pending r).bind fun x =>
    if x.1 = 0 then x.2.1.envp.bind fun params =>
      (performTurn t.calls x.2.1).map fun y =>
        ({ role := x.2.1.req.role, env := params.entries, stdin := y.1 }, y.2)
    else none

/-- A connection in use: the request, and what has been served on the connection. -/
structure KeepAlive where
  request : Request
  served : List (Option Served)

/-- Turn `t` is served. -/
def KeepAlive.serve (k : KeepAlive) (pending : List Connection) (t : Turn) : KeepAlive :=
  match serveTurn pending t k.request with
  | none => { k with served := k.served ++ [none] }
  | some (x, r) => { request := r, served := k.served ++ [some x] }

/-- The first turn, on the connection `os`. -/
def KeepAlive.start (r : Request) (os : Os) (t : Turn) : KeepAlive :=
  KeepAlive.serve { request := r, served := [] }
    [.ok { os with incoming := t.request.wire }] t

/-- The peer sends. -/
def Request.receive (r : Request) (wire : List UInt8) : Request :=
  { r with os := { r.os with incoming := r.os.incoming ++ wire } }

/-- `FCGX_Finish_r` ends the last request; then the peer sends the next one, and turn `t`
is served. -/
def KeepAlive.next (k : KeepAlive) (t : Turn) : KeepAlive :=
  match fcgxFinishR k.request with
  | none => { k with served := k.served ++ [none] }
  | some r => { k with request := r.receive t.request.wire }.serve [] t

/-- The steps of a connection. -/
def KeepAlive.Steps (k : KeepAlive) (t : Turn) (k' : KeepAlive) : Prop := k' = k.next t

/-- The `FCGI_KEEP_CONN` flag. -/
def RequestRecords.keepsConnection (q : RequestRecords) : Prop :=
  (q.begin.content.getD 2 0).toNat &&& fcgiKeepConn ≠ 0

/-- The request has a role that is served and an environment, and keeps the connection. -/
structure Turn.WellFormed (t : Turn) : Prop where
  environment : t.request.environment.isSome = true
  keepsConnection : t.request.keepsConnection

/-- What an application should see of the request. -/
def Turn.expected (t : Turn) : Option Served :=
  t.request.environment.map fun env =>
    { role := t.request.roleNumber, env := env
      stdin := chop (t.calls.flatMap TurnCall.wanted) t.request.stdin.content }

/-- No padding is left where the reader goes on to the next stream. -/
structure RequestRecords.StartsUnpadded (q : RequestRecords) : Prop where
  begin : q.begin.padding = []
  params : q.params.last.padding = []

/-- `OS_Read` has delivered every byte of the last request, and the next one has no padding
where the reader goes on to the next stream. -/
structure KeepAlive.Undisturbed (k : KeepAlive) (t : Turn) : Prop where
  delivered : k.request.os.incoming = []
  unpadded : t.request.StartsUnpadded

/-! ### One turn -/

/-- The view with other request data and another connection behind it. -/
theorem Streaming.shared {v : View} {bs : List UInt8} {last : Record} {tail : List UInt8}
    {req : ReqData} {os : Os} (h : Streaming v bs last tail)
    (hid : req.requestId = v.req.requestId) :
    Streaming { v with req := req, os := os } bs last tail := by
  obtain ⟨content, padding, records, hinput, hc, hp, hown, hbs⟩ := h.rest
  refine ⟨h.skip, h.eorStop, h.closed, h.type_ne, ?_, ?_, content, padding, records, hinput, hc,
    hp, ?_, hbs⟩
  · show req.requestId ≠ fcgiNullRequestId
    rw [hid]
    exact h.id_ne_null
  · show last.Ends v.type req.requestId
    rw [hid]
    exact h.ends
  · show ∀ r ∈ records, r.Own v.type req.requestId
    rw [hid]
    exact hown

/-- The input stream of a request: `bs` is still to be delivered. -/
def InputLeft (q : RequestRecords) (bs : List UInt8) (c : Chan) : Prop :=
  c.Open ∧ Streaming c.view bs q.stdin.last q.rest ∨ bs = [] ∧ c.stream.isClosed = true

/-- Request `q` is being served without an error, and `bs` is left of its `FCGI_STDIN`. -/
structure Serving (q : RequestRecords) (bs : List UInt8) (r : Request) : Prop where
  keepConnection : r.req.keepConnection = true
  isOpen : r.isOpen = true
  writes : r.os.NeverFails
  writer : ∀ w, ∃ s, r.writer w = some s ∧ s.IsWriter ∧ s.fcgiErrno = 0
  input : ∃ s, r.inStream = some s ∧ s.fcgiErrno = 0 ∧ InputLeft q bs (r.chan s)

section OneTurn

variable {q : RequestRecords} {bs : List UInt8} {r : Request}

/-- A call that reads. -/
theorem Serving.read (h : Serving q bs r) (call : ReadCall) :
    ∃ r', (TurnCall.read call).perform r = some ([bs.take call.wanted], r') ∧
      Serving q (bs.drop call.wanted) r' := by
  obtain ⟨s, hs, herrno, hleft⟩ := h.input
  suffices hread : ∃ c, call.perform (r.chan s) = some (bs.take call.wanted, c) ∧
      c.req = r.req ∧ c.os.writeSide = r.os.writeSide ∧ c.stream.fcgiErrno = 0 ∧
      InputLeft q (bs.drop call.wanted) c by
    obtain ⟨c, hcall, hreq, hos, herrno', hleft'⟩ := hread
    refine ⟨r.putStream .input c, by simp [TurnCall.perform, hs, hcall], ?_⟩
    have hwrites : c.os.writeSide.NeverFails := by
      rw [hos]
      exact h.writes
    exact
      { keepConnection := by
          show c.req.keepConnection = true
          rw [hreq]
          exact h.keepConnection
        isOpen := h.isOpen
        writes := hwrites
        writer := fun w => by
          obtain ⟨s', hs', hw⟩ := h.writer w
          exact ⟨s', by cases w <;> exact hs', hw⟩
        input := ⟨c.stream, rfl, herrno', hleft'⟩ }
  rcases hleft with ⟨hopen, hstream⟩ | ⟨rfl, hclosed⟩
  · have heor : s.eorStop = false := hstream.eorStop
    obtain ⟨⟨y, c⟩, hcall, hgot⟩ := call.perform_spec hopen heor hstream.delivers
    rcases hgot with ⟨-, hy, hopen', hreads⟩ | ⟨hlt, hy, hclosed, hview⟩
    · dsimp only at hy hopen' hreads
      have hwhole : Streaming (r.chan s).view (bs.take call.wanted ++ bs.drop call.wanted)
          q.stdin.last q.rest := by
        rw [List.take_append_drop]
        exact hstream
      obtain ⟨hrest, hended⟩ := hwhole.reads hreads
      have herrno' : c.stream.fcgiErrno = s.fcgiErrno := congrArg View.errno hended
      exact ⟨c, by rw [hcall, hy], congrArg View.req hended, congrArg View.os hended,
        herrno'.trans herrno, .inl ⟨hopen', hrest⟩⟩
    · dsimp only at hy hclosed hview
      have hle := Nat.le_of_lt hlt
      have herrno' : c.stream.fcgiErrno = s.fcgiErrno := congrArg View.errno hview
      refine ⟨c, by rw [hcall, hy, List.take_of_length_le hle], congrArg View.req hview,
        congrArg View.os hview, herrno'.trans herrno, .inr ⟨?_, hclosed.isClosed⟩⟩
      exact List.drop_eq_nil_of_le hle
  · exact ⟨r.chan s, by rw [ReadCall.perform_closed hclosed, List.take_nil], rfl, rfl, herrno,
      .inr ⟨List.drop_nil, hclosed⟩⟩

/-- What a writer without an error does, where no write fails. -/
structure Healthy (r : Request) (c : Chan) : Prop where
  errno : c.stream.fcgiErrno = 0
  writes : c.os.NeverFails
  incoming : c.os.incoming = r.os.incoming
  req : r.req.SameButWriters c.req

theorem writeInvariant_healthy (r : Request) : WriteInvariant (Healthy r) where
  stream _ _ hc herrno _ _ := ⟨herrno.trans hc.errno, hc.writes, hc.incoming, hc.req⟩
  sent c buf os hc hwrite := by
    obtain ⟨rs, log, hrs, -, hok⟩ := writeItAll_ok hc.writes buf
    obtain rfl : _ = os := (Prod.mk.inj (hok.symm.trans hwrite)).2
    exact ⟨hc.errno, ⟨hc.writes.1, hrs⟩, hc.incoming, hc.req⟩
  failed c buf e os hc hwrite := by
    obtain ⟨rs, log, -, -, hok⟩ := writeItAll_ok hc.writes buf
    rw [hok] at hwrite
    cases (Prod.mk.inj hwrite).1

theorem Healthy.leaveWriter {c : Chan} (h : Healthy r c) : Healthy r c.leaveWriter :=
  ⟨h.errno, h.writes, h.incoming, h.req.leaveWriter⟩

theorem Serving.healthy (h : Serving q bs r) {s : Stream} (herrno : s.fcgiErrno = 0) :
    Healthy r (r.chan s) := ⟨herrno, h.writes, rfl, .refl _⟩

/-- A call that writes. -/
theorem Serving.write (h : Serving q bs r) (w : Writer) (call : ClientCall) :
    ∃ r', r.perform w call = some r' ∧ Serving q bs r' := by
  obtain ⟨s, hs, hw, herrno⟩ := h.writer w
  obtain ⟨c, hcall, hw', -⟩ := ClientCall.perform_grows (c := r.chan s) hw call
  have hc : Healthy r c := ClientCall.perform_keeps (writeInvariant_healthy r)
    (fun _ hc => hc.leaveWriter) (h.healthy herrno) hcall
  obtain ⟨n, hreq⟩ := hc.req
  refine ⟨r.putBack w c, by simp [Request.perform, hs, hcall], ?_⟩
  exact
    { keepConnection := by
        rw [Request.putBack_req, hreq]
        exact h.keepConnection
      isOpen := by
        cases w <;> exact h.isOpen
      writes := by
        rw [Request.putBack_os]
        exact hc.writes
      writer := fun w' => by
        by_cases hne : w' = w
        · rw [hne]
          exact ⟨c.stream, Request.writer_putBack .., hw', hc.errno⟩
        · rw [Request.writer_putBack_ne r hne]
          exact h.writer w'
      input := by
        obtain ⟨s', hs', herrno', hleft⟩ := h.input
        refine ⟨s', (Request.putBack_inStream ..).trans hs', herrno', ?_⟩
        have hunread : ((r.putBack w c).chan s').unread = (r.chan s').unread := by
          show _ ++ (r.putBack w c).os.incoming = _ ++ r.os.incoming
          rw [Request.putBack_os, hc.incoming]
          rfl
        rcases hleft with ⟨hopen, hstream⟩ | ⟨hnil, hclosed⟩
        · refine .inl ⟨⟨⟨hopen.isReader, hopen.rdNext_le, hopen.buffStop_le, hopen.bufflen_pos⟩,
            hopen.isClosed, hopen.rdNext_le_stop, hopen.stop_le, hopen.deliver⟩, ?_⟩
          have hview : ((r.putBack w c).chan s').view = { (r.chan s').view with
              req := (r.putBack w c).req, os := (r.putBack w c).os.writeSide } := by
            rw [Chan.view, hunread]
            rfl
          rw [hview]
          refine hstream.shared ?_
          rw [Request.putBack_req, hreq]
          rfl
        · exact .inr ⟨hnil, hclosed⟩ }

/-- **The calls of a turn.** -/
theorem Serving.performTurn (h : Serving q bs r) (calls : List TurnCall) :
    ∃ r' bs', performTurn calls r = some (chop (calls.flatMap TurnCall.wanted) bs, r') ∧
      Serving q bs' r' := by
  induction calls generalizing bs r with
  | nil => exact ⟨r, bs, rfl, h⟩
  | cons call calls ih =>
      cases call with
      | read call =>
          obtain ⟨r₁, hcall, h₁⟩ := h.read call
          obtain ⟨r', bs', hcalls, h'⟩ := ih h₁
          exact ⟨r', bs', by simp [FastCgi.performTurn, hcall, hcalls, TurnCall.wanted, chop], h'⟩
      | write w call keeps =>
          obtain ⟨r₁, hcall, h₁⟩ := h.write w call
          obtain ⟨r', bs', hcalls, h'⟩ := ih h₁
          exact ⟨r', bs', by
            simp [FastCgi.performTurn, TurnCall.perform, hcall, hcalls, TurnCall.wanted], h'⟩

end OneTurn

/-! ### From one turn to the next -/

section NextTurn

variable {q : RequestRecords} {bs : List UInt8} {r : Request}

/-- `FCGX_FClose` of a writer without an error. -/
theorem Healthy.fclose {c : Chan} (h : Healthy r c) (hw : c.stream.IsWriter) :
    ∃ c', fcgxFClose c = some (0, c') ∧ Healthy r c' := by
  obtain ⟨z, c', hclose, -⟩ := fcgxFClose_grows hw
  have hc' := (writeInvariant_healthy r).fclose (fun _ hc => hc.leaveWriter) h hclose
  have hz : z = if c'.stream.fcgiErrno = 0 then 0 else -1 := by
    rw [fcgxFClose] at hclose
    split at hclose
    · cases hclose
    · cases hclose
      rfl
  rw [if_pos hc'.errno] at hz
  exact ⟨c', by rw [hclose, hz], hc'⟩

/-- **`FCGX_Finish_r`** keeps the connection, and what `OS_Read` has not delivered. -/
theorem Serving.finish (h : Serving q bs r) :
    ∃ r', fcgxFinishR r = some r' ∧ r'.inStream = none ∧ r'.isOpen = true ∧
      r'.req.keepConnection = true ∧ r'.os.NeverFails ∧ r'.os.incoming = r.os.incoming := by
  obtain ⟨s, hs, herrno, -⟩ := h.input
  obtain ⟨se, hse, hwe, herre⟩ := h.writer .err
  obtain ⟨so, hso, hwo, herro⟩ := h.writer .out
  obtain ⟨ce, hclose, hce⟩ := (h.healthy herre).fclose hwe
  let r₁ : Request := { r with req := ce.req, os := ce.os, err := some ce.stream }
  have herr : closeErr r = some (0, r₁) := by
    have hse' : r.err = some se := hse
    simp [closeErr, fcgxFCloseOpt, hse', hclose, r₁]
  have hstart : Healthy r (r₁.chan so) := ⟨herro, hce.writes, hce.incoming, hce.req⟩
  obtain ⟨co, hclose', hco⟩ := hstart.fclose hwo
  let r₂ : Request := { r₁ with req := co.req, os := co.os, out := some co.stream }
  have hout : closeOut r₁ = some (0, r₂) := by
    have hso' : r₁.out = some so := hso
    simp [closeOut, fcgxFCloseOpt, hso', hclose', r₂]
  have hfin : fcgxFinishR r = some (fcgxFree r₂ false) := by
    simp [fcgxFinishR, hs, herr, hout, h.keepConnection, herrno]
  obtain ⟨n, hreq⟩ := hco.req
  refine ⟨_, hfin, rfl, h.isOpen, ?_, hco.writes, hco.incoming⟩
  · show co.req.keepConnection = true
    rw [hreq]
    exact h.keepConnection

/-- `FCGX_Accept_r` of a request that is finished and keeps its connection. -/
theorem accept_of_kept (hin : r.inStream = none) (hopen : r.isOpen = true)
    (hkeep : r.req.keepConnection = true) {pending : List Connection} {r' : Request}
    (hacc : acceptConnection (fcgxFree r false) = some (true, r')) :
    fcgxAcceptR true pending r = some (0, r', pending) := by
  have hfin : fcgxFinishR r = some (fcgxFree r false) := by simp [fcgxFinishR, hin, hkeep]
  have hopen' : (fcgxFree r false).isOpen = true := hopen
  rw [fcgxAcceptR, if_neg (by decide), hfin]
  simp only [hopen', Bool.not_true, Bool.false_eq_true, if_false, hacc]

/-- A well-formed request at the front of the connection is accepted, and served. -/
theorem serving_of_accepted {t : Turn} (ht : t.WellFormed) (hpad : t.request.StartsUnpadded)
    (hopen : r.isOpen = true) (hwrites : r.os.NeverFails)
    (hwire : r.os.incoming = t.request.wire) :
    ∃ r' env params, acceptConnection r = some (true, r') ∧
      Serving t.request t.request.stdin.content r' ∧ t.request.environment = some env ∧
      r'.envp = some params ∧ params.entries = env ∧ r'.req.role = t.request.roleNumber := by
  rcases acceptConnection_wire t.request hpad.begin hwire with ⟨-, r', s, hacc, h⟩ | ⟨hnone, -⟩
  · obtain ⟨params, henvp, henv⟩ := h.envp
    refine ⟨r', params.entries, params, hacc, ?_, henv, henvp, rfl, h.role⟩
    have hwrites' : r'.os.writeSide.NeverFails := by
      rw [h.writeSide]
      exact hwrites
    exact
      { keepConnection := by
          rw [h.req]
          exact decide_eq_true ht.keepsConnection
        isOpen := h.isOpen.trans hopen
        writes := hwrites'
        writer := fun w => by
          obtain ⟨params', c, -, rfl⟩ := acceptConnection_ok hacc
          cases w with
          | out => exact ⟨_, rfl, (holding_newStream ..).toIsWriter, rfl⟩
          | err => exact ⟨_, rfl, (holding_newStream ..).toIsWriter, rfl⟩
        input := ⟨s, h.inStream, h.errno, .inl ⟨h.readable.toOpen, h.streaming hpad.params⟩⟩ }
  · have henv := ht.environment
    rw [hnone] at henv
    cases henv

/-- A turn in which the request is accepted. -/
theorem serveTurn_of_accepted {t : Turn} {pending rest : List Connection} {r' : Request}
    {env : List (List UInt8)} {params : Params}
    (hacc : fcgxAcceptR true pending r = some (0, r', rest))
    (h : Serving t.request t.request.stdin.content r') (henv : t.request.environment = some env)
    (henvp : r'.envp = some params) (hentries : params.entries = env)
    (hrole : r'.req.role = t.request.roleNumber) :
    ∃ x r'' bs, serveTurn pending t r = some (x, r'') ∧ t.expected = some x ∧
      Serving t.request bs r'' := by
  obtain ⟨r'', bs, hcalls, h'⟩ := h.performTurn t.calls
  refine ⟨_, r'', bs, ?_, by rw [Turn.expected, henv]; rfl, h'⟩
  rw [serveTurn, hacc]
  simp only [Option.bind_some, if_true, henvp, hcalls, Option.map_some, hrole, hentries]

end NextTurn

/-- A record of the last request that `OS_Read` has not delivered is not ignored: the new
reader takes the id of the last request for its own, and finds a record that does not
belong there. -/
theorem acceptConnection_leftover {r : Request} {h : Header} {tail : List UInt8}
    (hwire : r.os.incoming = h.bytes ++ tail) (hversion : h.version = fcgiVersion1)
    (htype : h.type.toNat ≠ fcgiBeginRequest) (htype' : h.type.toNat ≠ 0)
    (hid : h.requestId = r.req.requestId) (hne : h.requestId ≠ fcgiNullRequestId) :
    ∃ r', acceptConnection r = some (false, r') := by
  have hview : (openReader r).view = (openReader r).view.facing (h.bytes ++ tail) := by
    rw [← hwire]
    rfl
  let v : View := { (openReader r).view with input := tail, eorStop := true }
  have hdispatch : processHeaderView h v = (.error fcgxProtocolError, v.startRecord h) := by
    rw [processHeaderView, if_neg (not_not_intro hversion), dispatchView, if_neg htype,
      if_neg hne, if_neg (by exact not_not_intro hid), if_pos (by exact htype')]
  have hadv := (openReader_boundary r).advance_bytes h tail
  rw [← hview, hdispatch] at hadv
  obtain ⟨res, c, hread, -, ⟨-, role, ps, -, -, ha, -⟩ | ⟨rfl, -⟩⟩ :=
    readRequest_spec (fresh_openReader r)
  · have hbegun := ha.begun
    rw [hadv] at hbegun
    cases hbegun
  · exact ⟨_, by rw [acceptConnection, hread]⟩

/-! ### The requests of a connection -/

/-- Some request is being served, and every turn so far was as it should be. -/
structure KeepAlive.Inv (ts : List Turn) (k : KeepAlive) : Prop where
  served : k.served = ts.map Turn.expected
  serving : ∃ q bs, Serving q bs k.request

theorem KeepAlive.Inv.of_serveTurn {k : KeepAlive} {ts : List Turn} {pending : List Connection}
    {t : Turn} (hk : k.served = ts.map Turn.expected)
    (h : ∃ x r bs, serveTurn pending t k.request = some (x, r) ∧ t.expected = some x ∧
      Serving t.request bs r) : (k.serve pending t).Inv (ts ++ [t]) := by
  obtain ⟨x, r, bs, hturn, hx, hserving⟩ := h
  rw [KeepAlive.serve, hturn]
  exact ⟨by simp [hk, hx], t.request, bs, hserving⟩

/-- The first turn. -/
theorem KeepAlive.inv_start {r : Request} (hidle : r.Idle) {os : Os} (hwrites : os.NeverFails)
    {t : Turn} (ht : t.WellFormed) (hpad : t.request.StartsUnpadded) :
    (KeepAlive.start r os t).Inv [t] := by
  obtain ⟨r₁, hos, hopen, haccept⟩ := accept_of_idle hidle { os with incoming := t.request.wire } []
  have hwrites₁ : r₁.os.NeverFails := by
    rw [hos]
    exact hwrites
  obtain ⟨r', env, params, hacc, hserving, henv, henvp, hentries, hrole⟩ :=
    serving_of_accepted ht hpad hopen hwrites₁ (by rw [hos])
  refine @KeepAlive.Inv.of_serveTurn _ [] _ _ rfl ?_
  exact serveTurn_of_accepted (haccept true r' hacc) hserving henv henvp hentries hrole

/-- **One more turn.** -/
theorem KeepAlive.Inv.next {ts : List Turn} {k : KeepAlive} (h : k.Inv ts) {t : Turn}
    (ht : t.WellFormed) (hk : k.Undisturbed t) : (k.next t).Inv (ts ++ [t]) := by
  obtain ⟨q, bs, hserving⟩ := h.serving
  obtain ⟨r₁, hfin, hin, hopen, hkeep, hwrites, hincoming⟩ := hserving.finish
  let r₂ : Request := fcgxFree (r₁.receive t.request.wire) false
  have hwire : r₂.os.incoming = t.request.wire := by
    show r₁.os.incoming ++ t.request.wire = _
    rw [hincoming, hk.delivered, List.nil_append]
  obtain ⟨r', env, params, hacc, hserving', henv, henvp, hentries, hrole⟩ :=
    serving_of_accepted (r := r₂) ht hk.unpadded hopen hwrites hwire
  rw [KeepAlive.next, hfin]
  refine KeepAlive.Inv.of_serveTurn h.served ?_
  have haccept : fcgxAcceptR true [] (r₁.receive t.request.wire) = some (0, r', []) :=
    accept_of_kept (r := r₁.receive t.request.wire) hin hopen hkeep hacc
  exact serveTurn_of_accepted haccept hserving' henv henvp hentries hrole

/-- **Kept-alive requests do not disturb each other** in every run in which `OS_Read` has
delivered each request before it is finished: `FCGX_Accept_r` returns 0 once for each
request, in order, and the application sees its role, its environment and its
`FCGI_STDIN`. -/
theorem keepAlive_served {r : Request} (hidle : r.Idle) {os : Os} (hwrites : os.NeverFails)
    {t : Turn} {ts : List Turn} (hwell : ∀ t' ∈ t :: ts, t'.WellFormed)
    (hpad : t.request.StartsUnpadded) {k : KeepAlive}
    (h : Runs (Guarded KeepAlive.Undisturbed KeepAlive.Steps) (KeepAlive.start r os t) ts k) :
    k.served = (t :: ts).map Turn.expected := by
  suffices hinv : ∀ (done : List Turn) (k₀ : KeepAlive), k₀.Inv done →
      Runs (Guarded KeepAlive.Undisturbed KeepAlive.Steps) k₀ ts k → k.Inv (done ++ ts) from
    (hinv [t] _ (KeepAlive.inv_start hidle hwrites (hwell t List.mem_cons_self) hpad) h).served
  have hall : ∀ t' ∈ ts, t'.WellFormed := fun t' ht' => hwell t' (List.mem_cons_of_mem t ht')
  intro done k₀ hinv hruns
  clear h hwell
  induction hruns generalizing done with
  | nil =>
      rw [List.append_nil]
      exact hinv
  | @cons k₀ k₁ k₂ t' ts' hstep _ ih =>
      obtain ⟨hgood, rfl⟩ := hstep
      have hnext := hinv.next (hall t' List.mem_cons_self) hgood
      have hlast := ih (fun t'' ht'' => hall t'' (List.mem_cons_of_mem t' ht'')) _ hnext
      rwa [List.append_assoc] at hlast

/-- A request of a responder with two bytes of `FCGI_STDIN` that keeps the connection. -/
def keepAliveRequest : RequestRecords where
  begin := shortRecord fcgiBeginRequest 1 [0, 1, 1, 0, 0, 0, 0, 0] (by decide)
  begins := ⟨rfl, by decide, rfl⟩
  params :=
    { records := [], last := shortRecord fcgiParams 1 [] nil_content_le
      own := fun _ hr => nomatch hr
      ends := ⟨rfl, rfl, rfl⟩ }
  stdin :=
    { records := [shortRecord fcgiStdin 1 [65, 66] twoBytes_le]
      last := shortRecord fcgiStdin 1 [] nil_content_le
      own := fun r hr => by
        rw [List.mem_singleton.mp hr]
        exact ⟨rfl, rfl, by decide⟩
      ends := ⟨rfl, rfl, rfl⟩ }
  data :=
    { records := [], last := shortRecord fcgiData 1 [] nil_content_le
      own := fun _ hr => nomatch hr
      ends := ⟨rfl, rfl, rfl⟩ }

theorem wellFormed_keepAliveRequest (calls : List TurnCall) : Turn.WellFormed ⟨keepAliveRequest, calls⟩ where
  environment := by
    show keepAliveRequest.environment.isSome = true
    decide +kernel
  keepsConnection := by
    show (1 : ℕ) &&& fcgiKeepConn ≠ 0
    decide

/-- The first request is answered, and finished, with `FCGI_STDIN` unread in the buffer. -/
theorem keepAlive_served_two :
    ∃ k, Runs (Guarded KeepAlive.Undisturbed KeepAlive.Steps)
        (KeepAlive.start idleRequest (.sending [] [] [.accept 2])
          ⟨keepAliveRequest, [.write .out (.putChar 65) (by decide)]⟩)
        [⟨keepAliveRequest, [.read (.getStr 9)]⟩] k ∧
      k.served = [⟨keepAliveRequest, [.write .out (.putChar 65) (by decide)]⟩,
        ⟨keepAliveRequest, [.read (.getStr 9)]⟩].map Turn.expected := by
  let t : Turn := ⟨keepAliveRequest, [.write .out (.putChar 65) (by decide)]⟩
  let t' : Turn := ⟨keepAliveRequest, [.read (.getStr 9)]⟩
  let os : Os := .sending [] [] [.accept 2]
  have hpad : keepAliveRequest.StartsUnpadded := ⟨rfl, rfl⟩
  have hdelivered : (KeepAlive.start idleRequest os t).request.os.incoming = [] := by
    decide +kernel
  have hruns : Runs (Guarded KeepAlive.Undisturbed KeepAlive.Steps)
      (KeepAlive.start idleRequest os t) [t'] ((KeepAlive.start idleRequest os t).next t') :=
    .cons ⟨⟨hdelivered, hpad⟩, rfl⟩ .nil
  refine ⟨_, hruns, keepAlive_served ⟨_, rfl, rfl⟩ ⟨rfl, by simp [os, Os.sending]⟩ ?_ hpad hruns⟩
  intro t'' ht''
  rcases List.mem_cons.mp ht'' with rfl | ht''
  · exact wellFormed_keepAliveRequest _
  · rw [List.mem_singleton.mp ht'']
    exact wellFormed_keepAliveRequest _

/-- `OS_Read` delivers the first request up to its `FCGI_STDIN` records, of which the
application reads nothing: the second request is not accepted. -/
theorem keepAlive_leftover :
    ¬∀ (r : Request) (os : Os) (t : Turn) (ts : List Turn) (k : KeepAlive), r.Idle →
      os.NeverFails → (∀ t' ∈ t :: ts, t'.WellFormed) →
      (∀ t' ∈ t :: ts, t'.request.StartsUnpadded) →
      Runs KeepAlive.Steps (KeepAlive.start r os t) ts k →
      k.served = (t :: ts).map Turn.expected := by
  intro hall
  let t : Turn := ⟨keepAliveRequest, []⟩
  have hmem : ∀ t' ∈ [t, t], t' = t := by simp
  have hserved := hall idleRequest (.sending [] [15, 7] []) t [t] _ ⟨_, rfl, rfl⟩
    ⟨rfl, by simp [Os.sending]⟩
    (fun t' ht' => by
      rw [hmem t' ht']
      exact wellFormed_keepAliveRequest _)
    (fun t' ht' => by
      rw [hmem t' ht']
      exact ⟨rfl, rfl⟩)
    (.cons rfl .nil)
  have hrun : ((KeepAlive.start idleRequest (.sending [] [15, 7] []) t).next t).served.map
      Option.isSome = [true, false] := by decide +kernel
  have hexpected : ([t, t].map Turn.expected).map Option.isSome = [true, true] := by decide
  rw [hserved, hexpected] at hrun
  exact absurd hrun (by decide)

end FastCgi
