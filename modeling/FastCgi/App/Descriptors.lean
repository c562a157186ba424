import FastCgi.App.Session
import FastCgi.Lib.Runs

/-!
The descriptors of the connections.

`Request` tells only whether a connection is open. Here `FCGX_Accept_r`,
`FCGX_Finish_r` and `FCGX_Free` are written down once more with `ipcFd`
and a record of what `OS_Accept` has returned and what `OS_IpcClose` was
called with; `Ledger.request_call` says that they are the same functions.
`Balanced` is what the record looks like: every descriptor is closed once,
and before the next one is accepted.
-/

namespace FastCgi

open ByteMem Machine

/-- What happens to descriptors. -/
inductive FdEvent where
  | accepted (fd : ℕ)
  | closed (fd : ℤ)
  deriving DecidableEq

/-- What `OS_Accept` returns: a descriptor and its connection, or -1 and the value of
`errno`. -/
abbrev Accepted := Except ℤ (ℕ × Os)

/-- The same without the descriptor. -/
def Accepted.connection (a : Accepted) : Connection := a.map Prod.snd

/-- The request with its descriptor. -/
structure Ledger where
  request : Request
  ipcFd : ℤ
  events : List FdEvent
  /-- The 16 bytes of the record that began the request. -/
  beginRecord : List UInt8

/-- The last 16 bytes that `FillBuffProc` has consumed when it returns in a new reader. -/
def Request.beginRecord (r : Request) : List UInt8 :=
  match fillBuffProc (openReader r) with
  | none => []
  | some c =>
      let consumed := r.os.incoming.take (r.os.incoming.length - c.unread.length)
      consumed.drop (consumed.length - 16)

/-- `FCGX_Free`. -/
def Ledger.free (l : Ledger) (close : Bool) : Ledger :=
  { l with
    request := fcgxFree l.request close
    ipcFd := if close then -1 else l.ipcFd
    events := if close then l.events ++ [.closed l.ipcFd] else l.events }

/-- `FCGX_Finish_r`. -/
def Ledger.finish (l : Ledger) : Option Ledger :=
  match l.request.inStream with
  | none => some (l.free (!l.request.req.keepConnection))
  | some s =>
      match closeErr l.request with
      | none => none
      | some (rc, r₁) =>
          match closeOut r₁ with
          | none => none
          | some (rc', r₂) =>
              some ({ l with request := r₂ }.free
                (!l.request.req.keepConnection || rc ≠ 0 || rc' ≠ 0 || s.fcgiErrno ≠ 0))

/-- One pass of the loop of `FCGX_Accept_r`, on an open connection. -/
def Ledger.acceptConnection (l : Ledger) : Option (Bool × Ledger) :=
  match readRequest (openReader l.request) with
  | none => none
  | some (some params, c) =>
      some (true, { l with
        request := buildRequest l.request c params, beginRecord := l.request.beginRecord })
  | some (none, c) =>
      some (false, { l with request := { l.request with req := c.req, os := c.os } }.free true)

/-- `reqDataPtr->ipcFd = OS_Accept(...)`. -/
def Ledger.connect (l : Ledger) (fd : ℕ) (os : Os) : Ledger :=
  { l with
    request := { l.request with os := os, isOpen := true }
    ipcFd := fd
    events := l.events ++ [.accepted fd] }

/-- The loop of `FCGX_Accept_r` from a request without a connection. -/
def Ledger.acceptLoop : List Accepted → Ledger → Option (ℤ × Ledger × List Accepted)
  | [], _ => none
  | .error errno :: pending, l =>
      some (if 0 < errno then -errno else -9999, { l with ipcFd := -1 }, pending)
  | .ok (fd, os) :: pending, l =>
      match (l.connect fd os).acceptConnection with
      | none => none
      | some (true, l) => some (0, l, pending)
      | some (false, l) => acceptLoop pending l

/-- `FCGX_Accept_r`. -/
def Ledger.acceptR (pending : List Accepted) (l : Ledger) :
    Option (ℤ × Ledger × List Accepted) :=
  match l.finish with
  | none => none
  | some l =>
      if l.ipcFd < 0 then Ledger.acceptLoop pending l
      else
        match l.acceptConnection with
        | none => none
        | some (true, l) => some (0, l, pending)
        | some (false, l) => Ledger.acceptLoop pending l

/-- The calls of an application. -/
inductive LedgerCall where
  | accept (pending : List Accepted)
  | finish
  | setExitStatus (status : ℤ)
  | stream (which : RequestStream) (call : StreamCall)

/-- One call. -/
def Ledger.call (l : Ledger) : LedgerCall → Option Ledger
  | .accept pending =>
      (l.acceptR pending).bind fun x => if x.2.2 = [] then some x.2.1 else none
  | .finish => l.finish
  | .setExitStatus status =>
      l.request.inStream.map fun _ => { l with request := fcgxSetExitStatus status l.request }
  | .stream which call =>
      (l.request.streamCall which call).map fun r => { l with request := r }

/-- A request that `FCGX_InitRequest` has set up. -/
def Ledger.init (os : Os) (mBuffIn mBuffOut mBuffErr : ℕ) : Ledger :=
  ⟨fcgxInitRequest os mBuffIn mBuffOut mBuffErr, -1, [], []⟩

/-- The steps of a session. -/
def LedgerSteps (l : Ledger) (call : LedgerCall) (l' : Ledger) : Prop := l.call call = some l'

/-! ### What the functions do -/

theorem Ledger.finish_cases {l l' : Ledger} (h : l.finish = some l') :
    l.request.inStream = none ∧ l' = l.free (!l.request.req.keepConnection) ∨
      ∃ s rc r₁ rc' r₂, l.request.inStream = some s ∧ closeErr l.request = some (rc, r₁) ∧
        closeOut r₁ = some (rc', r₂) ∧
        l' = { l with request := r₂ }.free
          (!l.request.req.keepConnection || rc ≠ 0 || rc' ≠ 0 || s.fcgiErrno ≠ 0) := by
  rw [Ledger.finish] at h
  split at h
  · next hnone => exact .inl ⟨hnone, (Option.some.inj h).symm⟩
  · next s hin =>
      split at h
      · exact nomatch h
      · next rc r₁ herr =>
          split at h
          · exact nomatch h
          · next rc' r₂ hout => exact .inr ⟨s, rc, r₁, rc', r₂, hin, herr, hout,
              (Option.some.inj h).symm⟩

theorem Ledger.acceptConnection_cases {l l' : Ledger} {ok : Bool}
    (h : l.acceptConnection = some (ok, l')) :
    (∃ params c, readRequest (openReader l.request) = some (some params, c) ∧ ok = true ∧
        l' = { l with
          request := buildRequest l.request c params, beginRecord := l.request.beginRecord }) ∨
      ∃ r : Request, ok = false ∧ l' = { l with request := r }.free true := by
  rw [Ledger.acceptConnection] at h
  split at h
  · exact nomatch h
  · next params c hread =>
      cases h
      exact .inl ⟨params, c, hread, rfl, rfl⟩
  · next c hread =>
      cases h
      exact .inr ⟨_, rfl, rfl⟩

/-! ### The record of events -/

/-- The descriptors that are accepted are closed in turn; `fd` is the one that is open, or -1.
To close -1 does nothing. -/
inductive Balanced : List FdEvent → ℤ → Prop
  | nil : Balanced [] (-1)
  | accepted {log : List FdEvent} {fd : ℕ} (h : Balanced log (-1)) :
      Balanced (log ++ [.accepted fd]) fd
  | closed {log : List FdEvent} {fd : ℕ} (h : Balanced log fd) :
      Balanced (log ++ [.closed fd]) (-1)
  | noop {log : List FdEvent} (h : Balanced log (-1)) : Balanced (log ++ [.closed (-1)]) (-1)

theorem Balanced.cases_fd {log : List FdEvent} {fd : ℤ} (h : Balanced log fd) :
    fd = -1 ∨ ∃ n : ℕ, fd = n := by
  cases h with
  | accepted h => exact .inr ⟨_, rfl⟩
  | nil | closed _ | noop _ => exact .inl rfl

theorem Balanced.close {log : List FdEvent} {fd : ℤ} (h : Balanced log fd) :
    Balanced (log ++ [.closed fd]) (-1) := by
  rcases h.cases_fd with rfl | ⟨n, rfl⟩
  · exact .noop h
  · exact .closed h

/-- The descriptors that have been accepted. -/
def acceptedFds (log : List FdEvent) : List ℕ :=
  log.filterMap fun
    | .accepted fd => some fd
    | .closed _ => none

@[simp] theorem acceptedFds_accepted (log : List FdEvent) (fd : ℕ) :
    acceptedFds (log ++ [.accepted fd]) = acceptedFds log ++ [fd] := by
  simp [acceptedFds]

@[simp] theorem acceptedFds_closed (log : List FdEvent) (fd : ℤ) :
    acceptedFds (log ++ [.closed fd]) = acceptedFds log := by
  simp [acceptedFds]

/-- The descriptor that is open has been accepted, and what has been closed too. -/
theorem Balanced.mem {log : List FdEvent} {fd : ℤ} (h : Balanced log fd) {d : ℕ}
    (hd : fd = d ∨ .closed d ∈ log) : d ∈ acceptedFds log := by
  induction h generalizing d with
  | nil => exact hd.elim (fun h => absurd h (by omega)) (fun h => absurd h List.not_mem_nil)
  | @accepted log fd _ ih =>
      rw [acceptedFds_accepted, List.mem_append, List.mem_singleton]
      rcases hd with hd | hd
      · exact .inr (by omega)
      · refine .inl (ih (.inr ?_))
        simpa using hd
  | @closed log fd _ ih =>
      rw [acceptedFds_closed]
      rcases hd with hd | hd
      · exact absurd hd (by omega)
      · rcases List.mem_append.mp hd with hd | hd
        · exact ih (.inr hd)
        · refine ih (.inl ?_)
          simpa using (List.mem_singleton.mp hd).symm
  | @noop log _ ih =>
      rw [acceptedFds_closed]
      rcases hd with hd | hd
      · exact absurd hd (by omega)
      · refine ih (.inr ?_)
        rcases List.mem_append.mp hd with hd | hd
        · exact hd
        · exact absurd (List.mem_singleton.mp hd) (by simp)

/-- Descriptors that are fresh are closed once, all but the one that is open. -/
theorem Balanced.count {log : List FdEvent} {fd : ℤ} (h : Balanced log fd)
    (hfresh : (acceptedFds log).Nodup) {d : ℕ} (hd : d ∈ acceptedFds log) :
    log.count (.closed d) = if fd = d then 0 else 1 := by
  induction h generalizing d with
  | nil => exact absurd hd List.not_mem_nil
  | @accepted log fd h ih =>
      rw [acceptedFds_accepted] at hd hfresh
      obtain ⟨hfresh, -, hnew⟩ := List.nodup_append.mp hfresh
      rw [List.count_append, List.count_singleton, if_neg (by simp)]
      rcases List.mem_append.mp hd with hd | hd
      · have hne : d ≠ fd := hnew d hd fd (List.mem_singleton_self fd)
        rw [ih hfresh hd, if_neg (by omega), if_neg (by omega)]
      · obtain rfl := List.mem_singleton.mp hd
        rw [if_pos rfl, List.count_eq_zero.mpr fun hmem => ?_]
        exact hnew d (h.mem (.inr hmem)) d (List.mem_singleton_self d) rfl
  | @closed log fd h ih =>
      rw [acceptedFds_closed] at hd hfresh
      have hone : ¬ (-1 : ℤ) = d := by omega
      rw [List.count_append, List.count_singleton, ih hfresh hd, if_neg hone]
      by_cases heq : (fd : ℤ) = d
      · rw [if_pos heq, heq, if_pos (by simp)]
      · rw [if_neg heq, if_neg (by simpa using heq)]
  | @noop log h ih =>
      rw [acceptedFds_closed] at hd hfresh
      have hone : ¬ (-1 : ℤ) = d := by omega
      rw [List.count_append, List.count_singleton, ih hfresh hd, if_neg hone,
        if_neg (by simp)]

/-! ### What every call keeps -/

/-- A request that is being served: its connection is open, and `beginRecord` is the record
that began it. -/
structure Ledger.InRequest (l : Ledger) : Prop where
  isOpen : 0 ≤ l.ipcFd
  begun : l.request.req.isBeginProcessed = true
  record : ∃ header body, l.beginRecord = header.bytes ++ body ∧
    BeginsWith header body l.request.req

structure Ledger.Inv (l : Ledger) : Prop where
  balanced : Balanced l.events l.ipcFd
  tied : l.request.isOpen = decide (0 ≤ l.ipcFd)
  inRequest : l.request.inStream.isSome = true → l.InRequest

theorem BeginsWith.kept {header : Header} {body : List UInt8} {q q' : ReqData}
    (h : BeginsWith header body q) (hbegun : q.isBeginProcessed = true) (hkept : q.Kept q') :
    BeginsWith header body q' := by
  obtain ⟨q₀, rfl⟩ := h.req
  obtain ⟨n, rfl⟩ := hkept.begun hbegun
  exact ⟨h.version, h.type, h.requestId, h.contentLength, h.length, { q₀ with nWriters := n }, rfl⟩

theorem Ledger.InRequest.kept {l : Ledger} (h : l.InRequest) {r : Request}
    (hkept : l.request.req.Kept r.req) : Ledger.InRequest { l with request := r } := by
  obtain ⟨header, body, hrecord, hbegins⟩ := h.record
  refine ⟨h.isOpen, ?_, header, body, hrecord, hbegins.kept h.begun hkept⟩
  obtain ⟨n, hr⟩ := hkept.begun h.begun
  show r.req.isBeginProcessed = true
  rw [hr]
  exact h.begun

theorem Ledger.Inv.free {l : Ledger} (h : Balanced l.events l.ipcFd) {close : Bool}
    (htied : l.request.isOpen = decide (0 ≤ l.ipcFd)) : (l.free close).Inv := by
  cases close with
  | true => exact ⟨h.close, rfl, fun hin => nomatch hin⟩
  | false => exact ⟨h, htied, fun hin => nomatch hin⟩

theorem fcgxFCloseOpt_isOpen {r r' : Request} {s s' : Option Stream} {rc : ℤ}
    (h : fcgxFCloseOpt r s = some (rc, s', r')) : r'.isOpen = r.isOpen := by
  cases s with
  | none =>
      cases h
      rfl
  | some s =>
      simp only [fcgxFCloseOpt] at h
      split at h
      · cases h
      · cases h
        rfl

theorem closeErr_isOpen {r r' : Request} {rc : ℤ} (h : closeErr r = some (rc, r')) :
    r'.isOpen = r.isOpen := by
  obtain ⟨⟨rc', s, r₁⟩, hclose, heq⟩ := Option.map_eq_some_iff.mp h
  have hopen := fcgxFCloseOpt_isOpen hclose
  obtain rfl := congrArg Prod.snd heq
  exact hopen

theorem closeOut_isOpen {r r' : Request} {rc : ℤ} (h : closeOut r = some (rc, r')) :
    r'.isOpen = r.isOpen := by
  obtain ⟨⟨rc', s, r₁⟩, hclose, heq⟩ := Option.map_eq_some_iff.mp h
  have hopen := fcgxFCloseOpt_isOpen hclose
  obtain rfl := congrArg Prod.snd heq
  exact hopen

theorem Ledger.Inv.finish {l l' : Ledger} (h : l.Inv) (hfin : l.finish = some l') :
    l'.Inv ∧ l'.request.inStream = none := by
  rcases Ledger.finish_cases hfin with ⟨-, rfl⟩ | ⟨s, rc, r₁, rc', r₂, -, herr, hout, rfl⟩
  · exact ⟨.free h.balanced h.tied, rfl⟩
  · refine ⟨.free (l := { l with request := r₂ }) h.balanced ?_, rfl⟩
    show r₂.isOpen = _
    rw [closeOut_isOpen hout, closeErr_isOpen herr, h.tied]

/-- The record that began a request is the one in `beginRecord`. -/
theorem readRequest_beginRecord {r : Request} {params : Params} {c : Chan}
    (h : readRequest (openReader r) = some (some params, c)) :
    c.req.isBeginProcessed = true ∧ ∃ header body, r.beginRecord = header.bytes ++ body ∧
      BeginsWith header body c.req := by
  have hfresh := fresh_openReader r
  obtain ⟨c₁, hfill, hview, -⟩ :=
    fillSpec_fillBuffProc _ hfresh.toOpen hfresh.rdNext_eq hfresh.eorStop
  have hreq : c₁.req = (advance (openReader r).view).2.req := congrArg View.req hview
  have hunread : c₁.unread = (advance (openReader r).view).2.input := congrArg View.input hview
  have hincoming : (openReader r).view.input = r.os.incoming := by
    simp [Chan.view, Chan.unread, openReader, newStream]
  rw [readRequest, hfill] at h
  simp only at h
  split at h
  · cases h
  · next hbegun =>
      have hbegun : c₁.req.isBeginProcessed = true := by simpa using hbegun
      have hkept : c₁.req.Kept c.req := by
        split at h
        · cases h
        · rw [readEnvironment] at h
          split at h
          · cases h
          · next hread =>
              have hkept := (readParams_kept hread).req
              obtain rfl := congrArg Prod.snd (Option.some.inj h)
              exact hkept
      have hadv : advance (openReader r).view = (.begun, (advance (openReader r).view).2) := by
        rcases advance_unbegun (v := (openReader r).view) hfresh.isBeginProcessed with
          ⟨hst, -⟩ | ⟨-, hnot⟩
        · exact Prod.ext hst rfl
        · rw [← hreq, hbegun] at hnot
          cases hnot
      obtain ⟨pre, header, body, hinput, hbegins⟩ :=
        advance_beginsWith hfresh.isBeginProcessed hadv
      rw [hincoming, ← hunread] at hinput
      rw [← hreq] at hbegins
      refine ⟨?_, header, body, ?_, hbegins.kept hbegun hkept⟩
      · obtain ⟨n, hn⟩ := hkept.begun hbegun
        rw [hn]
        exact hbegun
      · have hlen := hbegins.length
        have hconsumed : r.os.incoming.take (r.os.incoming.length - c₁.unread.length) =
            pre ++ (header.bytes ++ body) := by
          rw [hinput, List.length_append, Nat.add_sub_cancel, List.take_left]
        rw [Request.beginRecord, hfill]
        simp only [hconsumed]
        rw [List.length_append, List.length_append, header.length_bytes, hlen]
        exact List.drop_left

theorem Ledger.Inv.acceptConnection {l l' : Ledger} {ok : Bool} (h : l.Inv)
    (hopen : 0 ≤ l.ipcFd) (hacc : l.acceptConnection = some (ok, l')) :
    l'.Inv ∧ (ok = false → l'.request.inStream = none ∧ l'.ipcFd < 0) := by
  rcases Ledger.acceptConnection_cases hacc with ⟨params, c, hread, rfl, rfl⟩ | ⟨r, rfl, rfl⟩
  · obtain ⟨hbegun, header, body, hrecord, hbegins⟩ := readRequest_beginRecord hread
    have hkept : c.req.Kept { c.req with nWriters := 2 } := ReqData.SameButWriters.kept ⟨2, rfl⟩
    exact ⟨⟨h.balanced, h.tied, fun _ => ⟨hopen, hbegun, header, body, hrecord,
      hbegins.kept hbegun hkept⟩⟩, fun hfalse => nomatch hfalse⟩
  · exact ⟨⟨h.balanced.close, rfl, fun hin => nomatch hin⟩,
      fun _ => ⟨rfl, show (-1 : ℤ) < 0 by decide⟩⟩

theorem Ledger.Inv.acceptLoop {pending rest : List Accepted} {l l' : Ledger} {rc : ℤ} (h : l.Inv)
    (hidle : l.request.inStream = none) (hclosed : l.ipcFd < 0)
    (hacc : Ledger.acceptLoop pending l = some (rc, l', rest)) : l'.Inv := by
  have hfd : l.ipcFd = -1 := by
    rcases h.balanced.cases_fd with hfd | ⟨n, hfd⟩
    · exact hfd
    · omega
  induction pending generalizing l with
  | nil => cases hacc
  | cons a pending ih =>
      cases a with
      | error errno =>
          cases hacc
          refine ⟨?_, ?_, fun hin => ?_⟩
          · exact hfd ▸ h.balanced
          · exact hfd ▸ h.tied
          · rw [hidle] at hin
            exact nomatch hin
      | ok x =>
          obtain ⟨fd, os⟩ := x
          have hconnect : (l.connect fd os).Inv := by
            refine ⟨?_, ?_, fun hin => ?_⟩
            · exact .accepted (hfd ▸ h.balanced)
            · exact (decide_eq_true (Int.natCast_nonneg fd)).symm
            · rw [show (l.connect fd os).request.inStream = l.request.inStream from rfl, hidle]
                at hin
              exact nomatch hin
          rw [Ledger.acceptLoop] at hacc
          split at hacc
          · cases hacc
          · next l₁ hone =>
              have hinv := hconnect.acceptConnection (Int.natCast_nonneg fd) hone
              cases hacc
              exact hinv.1
          · next l₁ hone =>
              have hinv := hconnect.acceptConnection (Int.natCast_nonneg fd) hone
              obtain ⟨hidle', hclosed'⟩ := hinv.2 rfl
              refine ih hinv.1 hidle' hclosed' hacc ?_
              rcases hinv.1.balanced.cases_fd with hfd | ⟨n, hfd⟩
              · exact hfd
              · omega

theorem Ledger.Inv.acceptR {pending rest : List Accepted} {l l' : Ledger} {rc : ℤ} (h : l.Inv)
    (hacc : l.acceptR pending = some (rc, l', rest)) : l'.Inv := by
  rw [Ledger.acceptR] at hacc
  split at hacc
  · cases hacc
  · next l₁ hfin =>
      obtain ⟨hinv, hidle⟩ := h.finish hfin
      split at hacc
      · next hclosed => exact hinv.acceptLoop hidle hclosed hacc
      · next hopen =>
          split at hacc
          · cases hacc
          · next l₂ hone =>
              have hinv' := hinv.acceptConnection (by omega) hone
              cases hacc
              exact hinv'.1
          · next l₂ hone =>
              have hinv' := hinv.acceptConnection (by omega) hone
              exact hinv'.1.acceptLoop (hinv'.2 rfl).1 (hinv'.2 rfl).2 hacc

theorem Request.streamCall_frame {r r' : Request} {which : RequestStream} {call : StreamCall}
    (h : r.streamCall which call = some r') :
    r'.isOpen = r.isOpen ∧ (r'.inStream.isSome = true → r.inStream.isSome = true) := by
  obtain ⟨s, hs, h⟩ := Option.bind_eq_some_iff.mp h
  obtain ⟨c, -, rfl⟩ := Option.map_eq_some_iff.mp h
  cases which with
  | input => exact ⟨rfl, fun _ => Option.isSome_iff_exists.mpr ⟨s, hs⟩⟩
  | out => exact ⟨rfl, id⟩
  | err => exact ⟨rfl, id⟩

/-- **One call.** -/
theorem Ledger.Inv.call {l l' : Ledger} {call : LedgerCall} (h : l.Inv)
    (hcall : l.call call = some l') : l'.Inv := by
  cases call with
  | accept pending =>
      obtain ⟨⟨rc, l₁, rest⟩, hacc, hcall⟩ := Option.bind_eq_some_iff.mp hcall
      split at hcall
      · obtain rfl := Option.some.inj hcall
        exact h.acceptR hacc
      · exact nomatch hcall
  | finish => exact (h.finish hcall).1
  | setExitStatus status =>
      obtain ⟨s, hs, rfl⟩ := Option.map_eq_some_iff.mp hcall
      refine ⟨h.balanced, h.tied, fun hin => ?_⟩
      obtain ⟨header, body, hrecord, hbegins⟩ := (h.inRequest hin).record
      obtain ⟨q, hq⟩ := hbegins.req
      refine ⟨(h.inRequest hin).isOpen, (h.inRequest hin).begun, header, body, hrecord,
        hbegins.version, hbegins.type, hbegins.requestId, hbegins.contentLength, hbegins.length,
        { q with appStatus := status }, ?_⟩
      show { l.request.req with appStatus := status } = _
      rw [hq]
      rfl
  | stream which call =>
      obtain ⟨r, hr, rfl⟩ := Option.map_eq_some_iff.mp hcall
      obtain ⟨hopen, hin⟩ := Request.streamCall_frame hr
      refine ⟨h.balanced, hopen.trans h.tied, fun hsome => ?_⟩
      exact (h.inRequest (hin hsome)).kept (Request.streamCall_kept hr)

/-! ### The same functions -/

/-- The call without descriptors. -/
def LedgerCall.session : LedgerCall → SessionCall
  | .accept pending => .accept (pending.map Accepted.connection)
  | .finish => .finish
  | .setExitStatus status => .setExitStatus status
  | .stream which call => .stream which call

theorem Ledger.request_finish (l : Ledger) :
    l.finish.map Ledger.request = fcgxFinishR l.request := by
  cases hin : l.request.inStream with
  | none =>
      simp only [Ledger.finish, fcgxFinishR, hin]
      rfl
  | some s =>
      simp only [Ledger.finish, fcgxFinishR, hin]
      cases closeErr l.request with
      | none => rfl
      | some x => cases hout : closeOut x.2 <;> simp only [hout] <;> rfl

theorem Ledger.request_acceptConnection (l : Ledger) :
    l.acceptConnection.map (fun x => (x.1, x.2.request)) =
      FastCgi.acceptConnection l.request := by
  rw [Ledger.acceptConnection, FastCgi.acceptConnection]
  rcases readRequest (openReader l.request) with _ | ⟨_ | params, c⟩ <;> rfl

theorem Ledger.request_acceptLoop (pending : List Accepted) (l : Ledger) :
    (Ledger.acceptLoop pending l).map
        (fun x => (x.1, x.2.1.request, x.2.2.map Accepted.connection)) =
      FastCgi.acceptLoop (pending.map Accepted.connection) l.request := by
  induction pending generalizing l with
  | nil => rfl
  | cons a pending ih =>
      cases a with
      | error errno => rfl
      | ok x =>
          obtain ⟨fd, os⟩ := x
          have hacc : (l.connect fd os).acceptConnection.map (fun x => (x.1, x.2.request)) =
              FastCgi.acceptConnection { l.request with os := os, isOpen := true } :=
            (l.connect fd os).request_acceptConnection
          simp only [Ledger.acceptLoop, List.map_cons, Accepted.connection, Except.map,
            FastCgi.acceptLoop, ← hacc]
          rcases (l.connect fd os).acceptConnection with _ | ⟨_ | _, l₁⟩
          · rfl
          · exact ih l₁
          · rfl

theorem Ledger.request_acceptR {l : Ledger} (h : l.Inv) (pending : List Accepted) :
    (l.acceptR pending).map (fun x => (x.1, x.2.1.request, x.2.2.map Accepted.connection)) =
      fcgxAcceptR true (pending.map Accepted.connection) l.request := by
  rw [Ledger.acceptR, fcgxAcceptR, ← l.request_finish]
  cases hfin : l.finish with
  | none => rfl
  | some l₁ =>
      have htied := (h.finish hfin).1.tied
      have hacc := l₁.request_acceptConnection
      simp only [Option.map_some, htied, ← hacc]
      by_cases hclosed : l₁.ipcFd < 0
      · rw [if_pos hclosed, if_neg (by decide), if_pos (by simpa using hclosed)]
        exact l₁.request_acceptLoop pending
      · rw [if_neg hclosed, if_neg (by decide), if_neg (by simpa using hclosed)]
        rcases l₁.acceptConnection with _ | ⟨_ | _, l₂⟩
        · rfl
        · exact l₂.request_acceptLoop pending
        · rfl

/-- **The ledger keeps account of the calls of `Session`** and changes nothing about them. -/
theorem Ledger.request_call {l l' : Ledger} {call : LedgerCall} (h : l.Inv)
    (hcall : l.call call = some l') : l.request.call call.session = some l'.request := by
  cases call with
  | accept pending =>
      have hacc := Ledger.request_acceptR h pending
      obtain ⟨⟨rc, l₁, rest⟩, hone, hcall⟩ := Option.bind_eq_some_iff.mp hcall
      rw [hone, Option.map_some] at hacc
      split at hcall
      · next hrest =>
          obtain rfl := Option.some.inj hcall
          have hrest : rest = [] := hrest
          rw [LedgerCall.session, Request.call, ← hacc, Option.bind_some, hrest]
          rfl
      · exact nomatch hcall
  | finish =>
      rw [LedgerCall.session, Request.call, ← l.request_finish]
      exact congrArg (Option.map Ledger.request) hcall
  | setExitStatus status =>
      obtain ⟨s, hs, rfl⟩ := Option.map_eq_some_iff.mp hcall
      rw [LedgerCall.session, Request.call, hs]
      rfl
  | stream which call =>
      obtain ⟨r, hr, rfl⟩ := Option.map_eq_some_iff.mp hcall
      exact hr

/-! ### Whole runs -/

/-- `FCGI_KEEP_CONN` is set in the record that began the request. -/
def Ledger.KeepConn (l : Ledger) : Prop :=
  (l.beginRecord.getD 10 0).toNat &&& fcgiKeepConn ≠ 0

/-- **Descriptors are neither leaked nor closed twice**, whether or not the numbers are used
again; where they are fresh each of them is closed at most once. -/
structure Ledger.Sound (l : Ledger) : Prop where
  balanced : Balanced l.events l.ipcFd
  once : (acceptedFds l.events).Nodup → ∀ d ∈ acceptedFds l.events, l.events.count (.closed d) ≤ 1
  current : (acceptedFds l.events).Nodup → ∀ d ∈ acceptedFds l.events,
    .closed d ∉ l.events ↔ l.ipcFd = d
  single : (acceptedFds l.events).Nodup → ∀ d ∈ acceptedFds l.events, ∀ d' ∈ acceptedFds l.events,
    .closed d ∉ l.events → .closed d' ∉ l.events → d = d'
  /-- A request that is served has an open connection, and began with `beginRecord`. -/
  inRequest : l.request.inStream.isSome = true → l.InRequest
  /-- What `FCGX_Finish_r` leaves open. -/
  finish : ∀ s l', l.request.inStream = some s → l.finish = some l' →
    ∃ rc r₁ rc' r₂, closeErr l.request = some (rc, r₁) ∧ closeOut r₁ = some (rc', r₂) ∧
      (l'.ipcFd = l.ipcFd ↔ l.KeepConn ∧ rc = 0 ∧ rc' = 0 ∧ s.fcgiErrno = 0)

/-- The flag is the one that the request data hold. -/
theorem Ledger.InRequest.keepConn {l : Ledger} (h : l.InRequest) :
    l.KeepConn ↔ l.request.req.keepConnection = true := by
  obtain ⟨header, body, hrecord, hbegins⟩ := h.record
  obtain ⟨q, hq⟩ := hbegins.req
  have hflag : l.beginRecord.getD 10 0 = body.getD 2 0 := by
    rw [hrecord]
    rfl
  rw [Ledger.KeepConn, hflag, hq]
  simp [ReqData.begin]

/-- `FCGX_Free` leaves a connection open if it is not told to close it. -/
theorem Ledger.free_ipcFd {l : Ledger} (h : 0 ≤ l.ipcFd) {close : Bool} :
    (l.free close).ipcFd = l.ipcFd ↔ close = false := by
  cases close with
  | true =>
      refine iff_of_false (fun heq => ?_) (by decide)
      have heq : -1 = l.ipcFd := heq
      omega
  | false => exact iff_of_true rfl rfl

theorem Ledger.Inv.sound {l : Ledger} (h : l.Inv) : l.Sound where
  balanced := h.balanced
  once hfresh d hd := by
    rw [h.balanced.count hfresh hd]
    split <;> decide
  current hfresh d hd := by
    have hcount := h.balanced.count hfresh hd
    rw [← List.count_eq_zero, hcount]
    by_cases heq : l.ipcFd = d
    · simp [heq]
    · simp [heq]
  single hfresh d hd d' hd' hopen hopen' := by
    have hfd := h.balanced.count hfresh hd
    have hfd' := h.balanced.count hfresh hd'
    rw [List.count_eq_zero.mpr hopen] at hfd
    rw [List.count_eq_zero.mpr hopen'] at hfd'
    split at hfd
    · next heq =>
        split at hfd'
        · next heq' => exact Int.ofNat_inj.mp (heq.symm.trans heq')
        · exact nomatch hfd'
    · exact nomatch hfd
  inRequest := h.inRequest
  finish s l' hin hfin := by
    have hserved := h.inRequest (by rw [hin]; rfl)
    rcases Ledger.finish_cases hfin with ⟨hnone, -⟩ | ⟨s', rc, r₁, rc', r₂, hin', herr, hout, rfl⟩
    · rw [hin] at hnone
      exact nomatch hnone
    · obtain rfl := Option.some.inj (hin.symm.trans hin')
      refine ⟨rc, r₁, rc', r₂, herr, hout, ?_⟩
      rw [hserved.keepConn, Ledger.free_ipcFd (l := { l with request := r₂ }) hserved.isOpen]
      simp [and_assoc]

/-- A request without parameters that asks for its connection to be kept. -/
def keptRequest : List UInt8 :=
  [1, 1, 0, 1, 0, 8, 0, 0, 0, 1, 1, 0, 0, 0, 0, 0, 1, 4, 0, 1, 0, 0, 0, 0]

/-- **Descriptors over whole runs.** -/
theorem descriptors_sound (os : Os) (mBuffIn mBuffOut mBuffErr : ℕ) (calls : List LedgerCall)
    (l : Ledger) (h : Runs LedgerSteps (Ledger.init os mBuffIn mBuffOut mBuffErr) calls l) :
    l.Sound := by
  have hinit : (Ledger.init os mBuffIn mBuffOut mBuffErr).Inv :=
    ⟨.nil, rfl, fun hin => Bool.noConfusion hin⟩
  exact (h.invariant (fun _ _ _ hinv hstep => hinv.call hstep) hinit).sound

/-- A connection that is not kept, one that fails, and one that is kept through two calls. -/
theorem descriptors_sound_three :
    ∃ l, Runs LedgerSteps (Ledger.init (.sending [] [] []) 0 0 0)
        [.accept [.ok (5, .sending plainRequest [] [])], .stream .input (.read .getChar), .finish,
          .accept [.ok (6, .sending [] [] []), .ok (7, .sending keptRequest [] [])],
          .setExitStatus 1, .finish, .finish] l ∧
      l.ipcFd = 7 ∧ l.events = [.closed (-1), .accepted 5, .closed 5, .closed (-1), .accepted 6,
        .closed 6, .accepted 7] ∧ l.Sound := by
  have hexec : (exec Ledger.call (Ledger.init (.sending [] [] []) 0 0 0)
      [.accept [.ok (5, .sending plainRequest [] [])], .stream .input (.read .getChar), .finish,
        .accept [.ok (6, .sending [] [] []), .ok (7, .sending keptRequest [] [])],
        .setExitStatus 1, .finish, .finish]).map (fun l => (l.ipcFd, l.events)) =
      some (7, [.closed (-1), .accepted 5, .closed 5, .closed (-1), .accepted 6, .closed 6,
        .accepted 7]) := by
    decide +kernel
  obtain ⟨l, hl, heq⟩ := Option.map_eq_some_iff.mp hexec
  obtain ⟨hfd, hevents⟩ := Prod.mk.inj heq
  have hrun : Runs LedgerSteps _ _ l := .of_exec (fun _ _ _ h => h) hl
  exact ⟨l, hrun, hfd, hevents, descriptors_sound _ _ _ _ _ _ hrun⟩

end FastCgi
