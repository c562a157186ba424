import FastCgi.App.Session
import FastCgi.Lib.Runs

/-!
Whose exit status an `FCGI_END_REQUEST` record carries.

`appStatus` is in the `FCGX_Request`, which outlives the requests that it
serves. A `StatusRun` is a session with three records of what has
happened: the status that was set for the present request, the one that
was set last before it, and every `FCGI_END_REQUEST` record that the last
writer of a request has put, as `Chan.closingRecord` follows `FCGX_FClose`
to the point where it does.
-/

namespace FastCgi

open Machine

/-- The `FCGI_END_REQUEST` record that `FCGX_FClose` puts, if it does. -/
def Chan.closingRecord (c : Chan) : Option (List UInt8) :=
  if c.stream.wasFCloseCalled || c.stream.isReader then none
  else
    (writeEof (enterRawWrite (encapsulate c))).bind fun c =>
      if c.req.nWriters = 1 then some (endRequestRecord c) else none

/-- The streams that `FCGX_Finish_r` closes, in order, as it comes to them. -/
def Request.finishCloses (r : Request) : List Chan :=
  if r.inStream.isNone then []
  else
    (r.err.map r.chan).toList ++
      ((closeErr r).bind fun x => x.2.out.map x.2.chan).toList

/-- The streams that a call closes. -/
def Request.closes (r : Request) : SessionCall → List Chan
  | .accept _ => r.finishCloses
  | .finish => r.finishCloses
  | .setExitStatus _ => []
  | .stream which call => if call = .write .fclose then ((r.stream which).map r.chan).toList else []

/-- An `FCGI_END_REQUEST` record, the id of its request, and the status that was set last for
that request when the record was put. -/
structure Ending where
  record : List UInt8
  requestId : ℕ
  status : Option ℤ
  deriving DecidableEq

/-- A session and what has happened in it. -/
structure StatusRun where
  request : Request
  /-- The last status since `FCGX_Accept_r` returned. -/
  status : Option ℤ
  /-- The last status before that. -/
  earlier : Option ℤ
  endings : List Ending

/-- The records that a call puts to end the request. -/
def StatusRun.ends (s : StatusRun) (call : SessionCall) : List Ending :=
  (s.request.closes call).filterMap fun c =>
    c.closingRecord.map fun record => ⟨record, c.req.requestId, s.status⟩

/-- One call. -/
def StatusRun.step (s : StatusRun) (call : SessionCall) : Option StatusRun :=
  (s.request.call call).map fun r =>
    let endings := s.endings ++ s.ends call
    match call with
    | .accept _ => ⟨r, none, s.status <|> s.earlier, endings⟩
    | .setExitStatus status => ⟨r, some status, s.earlier, endings⟩
    | _ => ⟨r, s.status, s.earlier, endings⟩

/-- A request that `FCGX_InitRequest` has set up. -/
def StatusRun.init (os : Os) (mBuffIn mBuffOut mBuffErr : ℕ) : StatusRun :=
  ⟨fcgxInitRequest os mBuffIn mBuffOut mBuffErr, none, none, []⟩

/-- The steps of a session. -/
def StatusSteps (s : StatusRun) (call : SessionCall) (s' : StatusRun) : Prop :=
  s.step call = some s'

/-- The record that ends a request with this status. -/
def endRequestBytes (requestId : ℕ) (appStatus : ℤ) : List UInt8 :=
  (makeHeader fcgiEndRequest requestId 8 0).bytes ++
    makeEndRequestBody appStatus fcgiRequestComplete

/-- **Every request ends with its own status**: the last one that was set for it, or 0. -/
def StatusRun.OwnStatus (s : StatusRun) : Prop :=
  ∀ e ∈ s.endings, e.record = endRequestBytes e.requestId (e.status.getD 0)

/-- A request that is ended has set a status, or the last status before it was 0. -/
def StatusRun.EndsSettled (s : StatusRun) (call : SessionCall) : Prop :=
  s.ends call = [] ∨ s.status.isSome ∨ s.earlier.getD 0 = 0

instance (s : StatusRun) (call : SessionCall) : Decidable (s.EndsSettled call) :=
  inferInstanceAs (Decidable (_ ∨ _ ∨ _))

/-! ### The record that is put -/

/-- The record carries the status of the request data, and it is the last writer's. -/
theorem Chan.closingRecord_eq {c : Chan} {record : List UInt8}
    (h : c.closingRecord = some record) :
    record = endRequestBytes c.req.requestId c.req.appStatus ∧ c.req.nWriters = 1 := by
  rw [Chan.closingRecord] at h
  split at h
  · exact nomatch h
  · obtain ⟨c₁, heof, h⟩ := Option.bind_eq_some_iff.mp h
    have hI := writeInvariant_req c.req
    have hraw : (enterRawWrite (encapsulate c)).req = c.req := hI.encapsulate rfl
    have hreq : c₁.req = c.req := hI.writeEof hraw heof
    rw [hreq] at h
    split at h
    · next hlast =>
        obtain rfl := Option.some.inj h
        exact ⟨by rw [endRequestRecord, endRequestBytes, hreq], hlast⟩
    · exact nomatch h

/-- What `FCGX_FClose` of a writer in good order sends ends with the record. -/
theorem Chan.closingRecord_sent {c : Chan} {pending record : List UInt8}
    (h : c.stream.Holding pending) (hf : c.Fits) (hrecord : c.closingRecord = some record) :
    ∃ z c' front, fcgxFClose c = some (z, c') ∧
      (c.os.Sent c'.os (front ++ record) ∨ c.os.Cut c'.os (front ++ record)) := by
  obtain ⟨rfl, hlast⟩ := Chan.closingRecord_eq hrecord
  have hend : encodeAll (endRecords c.req.requestId c.req.appStatus (decide (c.req.nWriters = 1))) =
      endRequestBytes c.req.requestId c.req.appStatus := by
    rw [hlast, endRecords, if_pos (by decide), encodeAll_cons, encodeAll_nil, List.append_nil,
      encode_endRecord hf]
    rfl
  obtain ⟨z, c', recs, hclose, -, -, hsent⟩ := fcgxFClose_holding h hf
  rw [encodeAll_append, hend] at hsent
  exact ⟨z, c', _, hclose, hsent.imp_left And.left⟩

/-- The status that a stream finds when it is closed. -/
theorem Request.closes_appStatus {r : Request} {call : SessionCall} {c : Chan}
    (h : c ∈ r.closes call) : c.req.appStatus = r.req.appStatus := by
  have hchan : ∀ {r : Request} {s : Option Stream} {c : Chan}, c ∈ (s.map r.chan).toList →
      c.req = r.req := by
    intro r s c hc
    obtain ⟨s, -, rfl⟩ := Option.map_eq_some_iff.mp (Option.mem_toList.mp hc)
    rfl
  have hfinish : c ∈ r.finishCloses → c.req.appStatus = r.req.appStatus := by
    intro hc
    rw [Request.finishCloses] at hc
    split at hc
    · exact absurd hc List.not_mem_nil
    · rcases List.mem_append.mp hc with hc | hc
      · rw [hchan hc]
      · obtain ⟨⟨rc, r₁⟩, herr, hc⟩ := Option.bind_eq_some_iff.mp (Option.mem_toList.mp hc)
        rw [hchan (Option.mem_toList.mpr hc)]
        exact (closeErr_req herr).kept.appStatus
  cases call with
  | accept pending => exact hfinish h
  | finish => exact hfinish h
  | setExitStatus status => exact absurd h List.not_mem_nil
  | stream which call =>
      rw [Request.closes] at h
      split at h
      · rw [hchan h]
      · exact absurd h List.not_mem_nil

theorem StatusRun.ends_record {s : StatusRun} {call : SessionCall} {e : Ending}
    (h : e ∈ s.ends call) :
    e.record = endRequestBytes e.requestId s.request.req.appStatus ∧ e.status = s.status := by
  obtain ⟨c, hc, he⟩ := List.mem_filterMap.mp h
  obtain ⟨record, hrecord, rfl⟩ := Option.map_eq_some_iff.mp he
  exact ⟨by rw [(Chan.closingRecord_eq hrecord).1, Request.closes_appStatus hc], rfl⟩

/-! ### Whole runs -/

/-- The request data hold the status that was set last, for this request or before. -/
structure StatusRun.Inv (s : StatusRun) : Prop where
  appStatus : s.request.req.appStatus = (s.status <|> s.earlier).getD 0
  own : s.OwnStatus

/-- What a call does to the status. -/
theorem Request.call_appStatus {r r' : Request} {call : SessionCall} (h : r.call call = some r') :
    r'.req.appStatus =
      match call with
      | .setExitStatus status => status
      | _ => r.req.appStatus := by
  cases call with
  | accept pending =>
      obtain ⟨⟨rc, r₁, rest⟩, haccept, h⟩ := Option.bind_eq_some_iff.mp h
      split at h
      · obtain rfl := Option.some.inj h
        exact fcgxAcceptR_appStatus haccept
      · exact nomatch h
  | finish => exact (fcgxFinishR_req h).kept.appStatus
  | setExitStatus status =>
      obtain ⟨s, -, rfl⟩ := Option.map_eq_some_iff.mp h
      rfl
  | stream which call => exact (Request.streamCall_kept h).appStatus

/-- **One call.** -/
theorem StatusRun.Inv.step {s s' : StatusRun} {call : SessionCall} (h : s.Inv)
    (hgood : s.EndsSettled call) (hstep : StatusSteps s call s') : s'.Inv := by
  obtain ⟨r, hr, hs'⟩ := Option.map_eq_some_iff.mp hstep
  have hstatus := Request.call_appStatus hr
  have hown : ∀ e ∈ s.endings ++ s.ends call,
      e.record = endRequestBytes e.requestId (e.status.getD 0) := by
    intro e he
    rcases List.mem_append.mp he with hold | hnew
    · exact h.own e hold
    · obtain ⟨hrecord, hset⟩ := StatusRun.ends_record hnew
      rw [hrecord, h.appStatus, hset]
      rcases hgood with hnone | hsome | hzero
      · rw [hnone] at hnew
        exact absurd hnew List.not_mem_nil
      · obtain ⟨a, ha⟩ := Option.isSome_iff_exists.mp hsome
        rw [ha]
        rfl
      · -- nothing was set for this request, and what was left behind is 0
        cases hcur : s.status with
        | some a => rfl
        | none => exact congrArg (endRequestBytes e.requestId) hzero
  cases call with
  | accept pending =>
      subst hs'
      exact ⟨hstatus.trans h.appStatus, hown⟩
  | setExitStatus status =>
      subst hs'
      exact ⟨hstatus, hown⟩
  | finish =>
      subst hs'
      exact ⟨hstatus.trans h.appStatus, hown⟩
  | stream which call =>
      subst hs'
      exact ⟨hstatus.trans h.appStatus, hown⟩

end FastCgi
