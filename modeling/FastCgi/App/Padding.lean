import FastCgi.App.RequestWire
import Mathlib.Data.List.Forall2

/-!
The padding of the records of a request.

A client that reads the streams of a request to their ends should see the
contents of its records, and nothing of their padding. It does not where
`SetReaderType` goes on to the next stream: padding that is still to be
skipped is forgotten there (`padding_transparent_iff`).
-/

namespace FastCgi

open ByteMem

/-! ### Reading the streams of a request -/

/-- What a client sees of a request: its environment, what the calls on `FCGI_STDIN`
return, what `FCGX_StartFilterData` and the calls on `FCGI_DATA` return, for a filter, and
`FCGX_GetError` at the end. -/
structure Outcome where
  env : List (List UInt8)
  stdin : List (List UInt8)
  start : Option ℤ
  data : List (List UInt8)
  errno : ℤ
  deriving DecidableEq

/-- `FCGX_StartFilterData`, and calls on the `FCGI_DATA` stream. -/
def readData (calls : List ReadCall) (env : List (List UInt8)) (x : List (List UInt8) × Chan) :
    Option Outcome :=
  (performAll calls (fcgxStartFilterData x.2).2).map fun y =>
    { env := env, stdin := x.1, start := some (fcgxStartFilterData x.2).1, data := y.1
      errno := y.2.stream.fcgiErrno }

/-- Calls on the streams of an accepted request. -/
def readStreams (calls calls' : List ReadCall) (r : Request) : Option Outcome :=
  r.inStream.bind fun s => r.envp.bind fun params =>
    (performAll calls (r.chan s)).bind fun x =>
      if r.req.role = fcgiFilter then readData calls' params.entries x
      else some
        { env := params.entries, stdin := x.1, start := none, data := []
          errno := x.2.stream.fcgiErrno }

/-- `FCGX_Accept_r` gets the connection `os` from `OS_Accept`, and the streams of the
request are read. Where the request is not accepted there is no outcome:
`FCGX_Accept_r` waits for another connection. -/
def serve (r : Request) (os : Os) (calls calls' : List ReadCall) : Option Outcome :=
  (fcgxAcceptR true [.ok os] r).bind fun x =>
    if x.1 = 0 then readStreams calls calls' x.2.1 else none

/-- Serving is reading from the one connection there is. -/
theorem serve_of_idle {r : Request} (h : r.Idle) (os : Os) (calls calls' : List ReadCall) :
    ∃ r₁, r₁.os = os ∧ ∀ ok r', acceptConnection r₁ = some (ok, r') →
      serve r os calls calls' = if ok then readStreams calls calls' r' else none := by
  obtain ⟨r₁, hos, -, haccept⟩ := accept_of_idle h os []
  refine ⟨r₁, hos, fun ok r' hacc => ?_⟩
  rw [serve, haccept ok r' hacc]
  cases ok <;> rfl

section Calls

variable {c : Chan}

theorem performAll_kept {calls : List ReadCall} {x : List (List UInt8)} {c' : Chan}
    (h : performAll calls c = some (x, c')) : c.Kept c' := by
  induction calls generalizing c x with
  | nil =>
      cases h
      exact .refl _
  | cons call calls ih =>
      rw [performAll] at h
      split at h
      · cases h
      · next xs c₁ hcall =>
          obtain ⟨⟨y, c₂⟩, hcalls, heq⟩ := Option.map_eq_some_iff.mp h
          obtain rfl := congrArg Prod.snd heq
          exact (ReadCall.perform_kept hcall).trans (ih hcalls)

/-- Calls on a stream that has not been taken away. -/
theorem performAll_total (h : c.Readable ∨ c.Closed) (hbegun : c.req.isBeginProcessed = true)
    (calls : List ReadCall) :
    ∃ x c', performAll calls c = some (x, c') ∧ (c'.Readable ∨ c'.Closed) ∧ c.Kept c' := by
  induction calls generalizing c with
  | nil => exact ⟨[], c, rfl, h, .refl c⟩
  | cons call calls ih =>
      obtain ⟨xs, c₁, hcall, h₁⟩ : ∃ xs c₁, call.perform c = some (xs, c₁) ∧
          (c₁.Readable ∨ c₁.Closed) := by
        rcases h with ho | hclosed
        · obtain ⟨bs, e, hd⟩ := delivers_total (v := c.view) hbegun
          obtain ⟨xs, c₁, hcall, hend⟩ := ho.perform hd call
          exact ⟨xs, c₁, hcall, hend.imp And.left And.left⟩
        · exact ⟨[], c, ReadCall.perform_closed hclosed.isClosed call, .inr hclosed⟩
      have hkept := ReadCall.perform_kept hcall
      obtain ⟨n, hreq⟩ := hkept.req.begun hbegun
      obtain ⟨x, c', hcalls, h', hkept'⟩ := ih h₁ (by rw [hreq]; exact hbegun)
      exact ⟨xs :: x, c', by simp [performAll, hcall, hcalls], h', hkept.trans hkept'⟩

/-- An error that is there when a client starts to read is there at the end. -/
theorem readStreams_errno {r : Request} {s : Stream} (h : r.AtStdin s) (hs : r.inStream = some s)
    {params : Params} (henvp : r.envp = some params) {calls calls' : List ReadCall}
    (herrno : ∀ x c', performAll calls (r.chan s) = some (x, c') →
      c'.stream.fcgiErrno ≠ 0 ∨
        r.req.role = fcgiFilter ∧ ∀ y c'', performAll calls' (fcgxStartFilterData c').2 =
          some (y, c'') → c''.stream.fcgiErrno ≠ 0) :
    ∃ o, readStreams calls calls' r = some o ∧ o.errno ≠ 0 := by
  have hreadable : (r.chan s).Readable := ⟨h.toBetween.toOpen, h.eorStop, h.skip⟩
  obtain ⟨x, c, hcalls, hend, hkept⟩ :=
    performAll_total (.inl hreadable) h.isBeginProcessed calls
  have hcases := herrno x c hcalls
  rw [readStreams, hs, henvp]
  simp only [Option.bind_some, hcalls]
  split
  · have hbuff : c.Buffered := hend.elim (·.toBuffered) (·.toBuffered)
    have hbegun : (fcgxStartFilterData c).2.req.isBeginProcessed = true := by
      obtain ⟨n, hreq⟩ := hkept.req.begun h.isBeginProcessed
      rw [fcgxStartFilterData]
      split <;>
        · show c.req.isBeginProcessed = true
          rw [hreq]
          exact h.isBeginProcessed
    obtain ⟨y, c', hdata, -, hkept'⟩ :=
      performAll_total (spent_startFilterData hbuff).usable hbegun calls'
    refine ⟨_, by rw [readData, hdata]; rfl, ?_⟩
    rcases hcases with hne | ⟨-, hne⟩
    · apply hkept'.errno
      rw [fcgxStartFilterData]
      split
      · exact (Chan.Kept.setError c fcgxCallSeqError).errno hne
      · exact hne
    · exact hne y c' hdata
  · next hrole =>
      refine ⟨_, rfl, ?_⟩
      rcases hcases with hne | ⟨hfilter, -⟩
      · exact hne
      · exact absurd hfilter hrole

end Calls

/-! ### What the records stand for -/

namespace RequestRecords

/-- The results that the contents of the records stand for. -/
def outcome (q : RequestRecords) (calls calls' : List ReadCall) : Option Outcome :=
  q.environment.map fun env =>
    if q.roleNumber ≠ fcgiFilter then
      { env := env, stdin := chop (calls.map ReadCall.wanted) q.stdin.content, start := none
        data := [], errno := 0 }
    else if q.stdin.content.length < (calls.map ReadCall.wanted).sum then
      { env := env, stdin := chop (calls.map ReadCall.wanted) q.stdin.content, start := some 0
        data := chop (calls'.map ReadCall.wanted) q.data.content, errno := 0 }
    else
      { env := env, stdin := chop (calls.map ReadCall.wanted) q.stdin.content, start := some (-1)
        data := chop (calls'.map ReadCall.wanted) [], errno := fcgxCallSeqError }

/-- No padding is left where the reader goes on to the next stream: behind the record that
begins the request, if its role is served, behind the one that ends `FCGI_PARAMS`, if the
request is accepted, and for a filter behind the one that ends `FCGI_STDIN`. -/
def HandsOver (q : RequestRecords) : Prop :=
  (roleStr q.roleNumber).isSome = true → q.begin.padding = [] ∧
    (q.environment.isSome = true → q.params.last.padding = [] ∧
      (q.roleNumber = fcgiFilter → q.stdin.last.padding = []))

end RequestRecords

section Records

variable {q : RequestRecords} {calls calls' : List ReadCall}

theorem startFilterData_closed {c : Chan} (hclosed : c.Closed) (hf : c.Filters)
    (htype : c.stream.type = fcgiStdin) :
    fcgxStartFilterData c = (0, c.setReaderType fcgiData) := by
  have hrc := (startFilterData_eq_zero hf hclosed.isReader).mpr ⟨hclosed.isClosed, htype⟩
  rw [fcgxStartFilterData] at hrc ⊢
  split
  · next h =>
      rw [if_pos h] at hrc
      cases hrc
  · rfl

/-- The `FCGI_DATA` stream of a filter, behind the end of `FCGI_STDIN`. -/
theorem readData_closed {c : Chan} (hclosed : c.Closed) (hf : c.Filters)
    (htype : c.stream.type = fcgiStdin) (herrno : c.stream.fcgiErrno = 0)
    (hreq : c.req.requestId = q.begin.requestId.toNat) (hwire : c.unread = q.data.wire)
    (calls : List ReadCall) (env : List (List UInt8)) (stdin : List (List UInt8)) :
    readData calls env (stdin, c) = some
      { env := env, stdin := stdin, start := some 0
        data := chop (calls.map ReadCall.wanted) q.data.content, errno := 0 } := by
  have hstart := startFilterData_closed hclosed hf htype
  have hopen := open_setReaderType hclosed.toBuffered fcgiData
  have hstream : Streaming (c.setReaderType fcgiData).view q.data.content q.data.last [] := by
    rw [view_setReaderType]
    refine q.data.streaming ⟨rfl, rfl, rfl, rfl⟩ rfl rfl hreq (by decide) q.begins.id_ne_null ?_
    rw [List.append_nil]
    exact hwire
  obtain ⟨c', hcalls, hend⟩ := performAll_spec hopen rfl hstream.delivers calls
  have herrno' : c'.stream.fcgiErrno = 0 := by
    rcases hend with ⟨-, -, hview⟩ | ⟨-, -, hsame⟩
    · have hlast : c'.stream.fcgiErrno = c.stream.fcgiErrno := congrArg View.errno hview
      rw [hlast, herrno]
    · exact hsame.trans herrno
  simp only [readData, hstart, hcalls, Option.map_some, herrno']

/-- `FCGX_StartFilterData` before the end of `FCGI_STDIN`. -/
theorem readData_open {c : Chan} (hopen : c.stream.isClosed = false)
    (herrno : c.stream.fcgiErrno = 0) (calls : List ReadCall) (env : List (List UInt8))
    (stdin : List (List UInt8)) :
    readData calls env (stdin, c) = some
      { env := env, stdin := stdin, start := some (-1)
        data := chop (calls.map ReadCall.wanted) [], errno := fcgxCallSeqError } := by
  have hstart : fcgxStartFilterData c = (-1, c.setError fcgxCallSeqError) := by
    rw [fcgxStartFilterData, if_pos (by simp [hopen])]
  have hcalls := performAll_closed (c := c.setError fcgxCallSeqError) rfl calls
  have herrno' : (c.setError fcgxCallSeqError).stream.fcgiErrno = fcgxCallSeqError := if_pos herrno
  simp only [readData, hstart, hcalls, Option.map_some, herrno']

/-- What a client reads of an accepted request, where nothing is left behind the
`FCGI_PARAMS` stream. -/
theorem AcceptedAs.readStreams {r r' : Request} {s : Stream}
    (h : AcceptedAs q (q.params.last.padding ++ q.body) r r' s) (hpad : q.params.last.padding = [])
    (hfilter : q.roleNumber = fcgiFilter → q.stdin.last.padding = [])
    (calls calls' : List ReadCall) : readStreams calls calls' r' = q.outcome calls calls' := by
  have hstream := h.streaming hpad
  have hreadable := h.readable
  obtain ⟨params, henvp, henv⟩ := h.envp
  obtain ⟨c, hcalls, hend⟩ := performAll_spec hreadable.toOpen h.eorStop hstream.delivers calls
  obtain ⟨x, c₁, hcalls', hlast, hkept⟩ :=
    performAll_total (.inl hreadable) h.isBeginProcessed calls
  obtain ⟨rfl, rfl⟩ := Prod.mk.inj (Option.some.inj (hcalls'.symm.trans hcalls))
  have herrno : c₁.stream.fcgiErrno = 0 := by
    rcases hend with ⟨-, -, hview⟩ | ⟨-, -, hsame⟩
    · have hlast : c₁.stream.fcgiErrno = s.fcgiErrno := congrArg View.errno hview
      rw [hlast, h.errno]
    · exact hsame.trans h.errno
  rw [FastCgi.readStreams, h.inStream, henvp, RequestRecords.outcome, henv]
  simp only [Option.bind_some, hcalls, Option.map_some, h.role]
  by_cases hrole : q.roleNumber = fcgiFilter
  · rw [if_pos hrole, if_neg (not_not_intro hrole)]
    rcases hend with ⟨hlt, hclosed, hview⟩ | ⟨hle, hopen, -⟩
    · rw [if_pos hlt]
      have hreq : c₁.req = r'.req := congrArg View.req hview
      have hcclosed : c₁.Closed := by
        rcases hlast with ho | hc
        · rw [ho.isClosed] at hclosed
          cases hclosed
        · exact hc
      refine readData_closed hcclosed ⟨?_, ?_⟩ ?_ herrno ?_ ?_ calls' _ _
      · rw [hreq]
        exact h.isBeginProcessed
      · rw [hreq, h.role, hrole]
      · exact (congrArg View.type hview).trans h.type
      · rw [hreq, h.req]
        rfl
      · have hunread : c₁.unread = q.stdin.last.padding ++ q.rest := congrArg View.input hview
        rw [hunread, hfilter hrole, List.nil_append, RequestRecords.rest, if_pos hrole]
    · rw [if_neg (Nat.not_lt.mpr hle)]
      exact readData_open hopen herrno calls' _ _
  · rw [if_neg hrole, if_pos hrole, herrno]

/-- **A request that hands over** is read as its records say, for every chunking. -/
theorem serve_wire (hq : q.HandsOver) {r : Request} {os : Os} (hidle : r.Idle)
    (hwire : os.incoming = q.wire) (calls calls' : List ReadCall) :
    serve r os calls calls' = q.outcome calls calls' := by
  obtain ⟨r₁, hos, hserve⟩ := serve_of_idle hidle os calls calls'
  have hincoming : r₁.os.incoming = q.wire := by rw [hos, hwire]
  cases hserved : roleStr q.roleNumber with
  | none =>
      have hnone : q.environment = none := by rw [RequestRecords.environment, hserved]
      have hadv := advance_openReader q.begins hincoming
      obtain ⟨bs, e, hd⟩ := delivers_total (v := ((openReader r₁).view.begun q.begin
        (q.params.wire ++ q.body)).setReaderType fcgiParams) rfl
      obtain ⟨r', hacc⟩ := acceptConnection_rejects hadv hd (.inl hserved)
      rw [hserve false r' hacc, RequestRecords.outcome, hnone]
      rfl
  | some role =>
      obtain ⟨hbegin, hrest⟩ := hq (by rw [hserved]; rfl)
      rcases acceptConnection_wire q hbegin hincoming with ⟨henv, r', s, hacc, h⟩ | ⟨hnone, r', hacc⟩
      · obtain ⟨hparams, hfilter⟩ := hrest henv
        rw [hserve true r' hacc, if_pos rfl]
        exact h.readStreams hparams hfilter calls calls'
      · rw [hserve false r' hacc, RequestRecords.outcome, hnone]
        rfl

end Records

/-! ### Padding that is left behind -/

/-- Bytes that do not start with the version are no header. -/
theorem advance_bad_version {v : View} (hb : v.Boundary) {b : UInt8} {post : List UInt8}
    (hinput : v.input = b :: post) (hversion : b ≠ fcgiVersion1) (hlen : 8 ≤ v.input.length) :
    ∃ e, advance v = (.closed, e) ∧ e.errno ≠ 0 := by
  obtain ⟨h, tail, hwire⟩ := exists_header hlen
  have hfirst : h.version = b := by
    have hfront : h.version :: (h.bytes.drop 1 ++ tail) = b :: post := hwire.symm.trans hinput
    exact (List.cons_eq_cons.mp hfront).1
  have hadv := hb.advance_bytes h tail
  rw [processHeaderView, if_pos (by rwa [hfirst])] at hadv
  have hv : v = v.facing (h.bytes ++ tail) := by
    rw [← hwire]
    rfl
  rw [hv]
  exact ⟨_, hadv, setError_errno_pos _ (by decide)⟩

/-- Where a stream starts with them, every call that asks for a byte fails. -/
theorem performAll_bad_version {c : Chan} (h : c.Readable) (hb : c.view.Boundary) {b : UInt8}
    {post : List UInt8} (hinput : c.unread = b :: post) (hversion : b ≠ fcgiVersion1)
    (hlen : 8 ≤ c.unread.length) {calls : List ReadCall}
    (hcalls : 0 < (calls.map ReadCall.wanted).sum) {x : List (List UInt8)} {c' : Chan}
    (hperform : performAll calls c = some (x, c')) : c'.stream.fcgiErrno ≠ 0 := by
  obtain ⟨e, hadv, herrno⟩ := advance_bad_version hb hinput hversion hlen
  obtain ⟨c₁, hcalls', hend⟩ := performAll_spec h.toOpen h.eorStop (.stop hadv) calls
  rw [hperform] at hcalls'
  obtain ⟨-, rfl⟩ := Prod.mk.inj (Option.some.inj hcalls')
  rcases hend with ⟨-, -, hview⟩ | ⟨hle, -⟩
  · have hlast : c'.stream.fcgiErrno = e.errno := congrArg View.errno hview
    rwa [hlast]
  · rw [List.length_nil] at hle
    omega

theorem length_wire_le {T R : ℕ} (s : StreamRecords T R) : 8 ≤ s.wire.length := by
  rw [StreamRecords.wire, List.length_append, Record.length_encode]
  omega

section LeftBehind

variable {q : RequestRecords} {r : Request} {os : Os} {calls calls' : List ReadCall} {b : UInt8}
  {p : List UInt8}

/-- Padding behind the record that begins the request. -/
theorem serve_padded_begin (hpad : q.begin.padding = b :: p) (hversion : b ≠ fcgiVersion1)
    (hrole : (roleStr q.roleNumber).isSome = true) (hidle : r.Idle) (hwire : os.incoming = q.wire) :
    ∃ o, serve r os calls calls' = some o ∧ o.errno ≠ 0 := by
  obtain ⟨r₁, hos, hserve⟩ := serve_of_idle hidle os calls calls'
  obtain ⟨role, hrole⟩ := Option.isSome_iff_exists.mp hrole
  have hadv := advance_openReader (r := r₁) q.begins (by rw [hos, hwire]; rfl)
  let u : View := ((openReader r₁).view.begun q.begin (q.params.wire ++ q.body)).setReaderType
    fcgiParams
  have hinput : u.input = b :: (p ++ (q.params.wire ++ q.body)) := by
    show q.begin.padding ++ (q.params.wire ++ q.body) = _
    rw [hpad, List.cons_append]
  have hlen : 8 ≤ u.input.length := by
    have hlen := length_wire_le q.params
    rw [hinput, List.length_cons, List.length_append, List.length_append]
    omega
  obtain ⟨e, hend, herrno⟩ := advance_bad_version ⟨rfl, rfl, rfl, rfl⟩ hinput hversion hlen
  obtain ⟨params, c, hacc, -, -, hview⟩ := acceptConnection_of_begun hadv (.stop hend) hrole rfl
  rw [hserve true _ hacc, if_pos rfl]
  have hstart : c.stream.fcgiErrno ≠ 0 := by
    have hlast : c.stream.fcgiErrno = e.errno := congrArg View.errno hview
    rwa [hlast]
  exact readStreams_errno (acceptConnection_atStdin hacc rfl) rfl rfl
    fun x c' hcalls => .inl ((performAll_kept hcalls).errno hstart)

/-- Padding behind the record that ends the `FCGI_PARAMS` stream. -/
theorem serve_padded_params (hbegin : q.begin.padding = []) (henv : q.environment.isSome = true)
    (hpad : q.params.last.padding = b :: p) (hversion : b ≠ fcgiVersion1)
    (hcalls : 0 < (calls.map ReadCall.wanted).sum) (hidle : r.Idle)
    (hwire : os.incoming = q.wire) : ∃ o, serve r os calls calls' = some o ∧ o.errno ≠ 0 := by
  obtain ⟨r₁, hos, hserve⟩ := serve_of_idle hidle os calls calls'
  rcases acceptConnection_wire q (r := r₁) hbegin (by rw [hos, hwire]; rfl) with
    ⟨-, r', s, hacc, h⟩ | ⟨hnone, -⟩
  · rw [hserve true _ hacc, if_pos rfl]
    obtain ⟨params, henvp, -⟩ := h.envp
    have hunread := h.unread
    rw [hpad, List.cons_append] at hunread
    have hlen : 8 ≤ (r'.chan s).unread.length := by
      have hlen := length_wire_le q.stdin
      rw [hunread, RequestRecords.body, List.length_cons, List.length_append, List.length_append]
      omega
    exact readStreams_errno h.toAtStdin h.inStream henvp fun x c' hperform =>
      .inl (performAll_bad_version h.readable h.view_boundary hunread hversion hlen hcalls hperform)
  · rw [hnone] at henv
    cases henv

/-- Padding behind the record that ends the `FCGI_STDIN` stream of a filter. -/
theorem serve_padded_stdin (hbegin : q.begin.padding = []) (henv : q.environment.isSome = true)
    (hparams : q.params.last.padding = []) (hrole : q.roleNumber = fcgiFilter)
    (hpad : q.stdin.last.padding = b :: p) (hversion : b ≠ fcgiVersion1)
    (hcalls : q.stdin.content.length < (calls.map ReadCall.wanted).sum)
    (hcalls' : 0 < (calls'.map ReadCall.wanted).sum) (hidle : r.Idle)
    (hwire : os.incoming = q.wire) : ∃ o, serve r os calls calls' = some o ∧ o.errno ≠ 0 := by
  obtain ⟨r₁, hos, hserve⟩ := serve_of_idle hidle os calls calls'
  rcases acceptConnection_wire q (r := r₁) hbegin (by rw [hos, hwire]; rfl) with
    ⟨-, r', s, hacc, h⟩ | ⟨hnone, -⟩
  · rw [hserve true _ hacc, if_pos rfl]
    obtain ⟨params, henvp, -⟩ := h.envp
    refine readStreams_errno h.toAtStdin h.inStream henvp fun x c hperform => ?_
    obtain ⟨x', c₁, hperform', hend, -⟩ :=
      performAll_total (.inl h.readable) h.isBeginProcessed calls
    obtain ⟨-, rfl⟩ := Prod.mk.inj (Option.some.inj (hperform'.symm.trans hperform))
    obtain ⟨c₂, hperform', hlast⟩ :=
      performAll_spec h.readable.toOpen h.eorStop (h.streaming hparams).delivers calls
    obtain ⟨-, rfl⟩ := Prod.mk.inj (Option.some.inj (hperform'.symm.trans hperform))
    refine .inr ⟨h.role.trans hrole, fun y c' hdata => ?_⟩
    rcases hlast with ⟨-, hclosed, hview⟩ | ⟨hle, -⟩
    · have hc₂ : c₂.Closed := by
        rcases hend with ho | hc
        · rw [ho.isClosed] at hclosed
          cases hclosed
        · exact hc
      have hreq : c₂.req = r'.req := congrArg View.req hview
      have hf : c₂.Filters := by
        refine ⟨?_, ?_⟩
        · rw [hreq]
          exact h.isBeginProcessed
        · rw [hreq, h.role, hrole]
      rw [startFilterData_closed hc₂ hf ((congrArg View.type hview).trans h.type)] at hdata
      have hunread : c₂.unread = b :: (p ++ q.data.wire) := by
        have hinput : c₂.unread = q.stdin.last.padding ++ q.rest := congrArg View.input hview
        rw [hinput, hpad, RequestRecords.rest, if_pos hrole, List.cons_append]
      have hlen : 8 ≤ c₂.unread.length := by
        have hlen := length_wire_le q.data
        rw [hunread, List.length_cons, List.length_append]
        omega
      have hboundary : (c₂.setReaderType fcgiData).view.Boundary := by
        rw [view_setReaderType]
        exact ⟨rfl, rfl, rfl, rfl⟩
      exact performAll_bad_version ⟨open_setReaderType hc₂.toBuffered fcgiData, rfl, rfl⟩ hboundary
        hunread hversion hlen hcalls' hdata
    · omega
  · rw [hnone] at henv
    cases henv

end LeftBehind

/-! ### Requests with the same records -/

/-- The padding is not part of what a record says. -/
structure Record.SameButPadding (r r' : Record) : Prop where
  type : r.type = r'.type
  requestId : r.requestId = r'.requestId
  content : r.content = r'.content

/-- Record by record. -/
structure StreamRecords.Rel (P : Record → Record → Prop) {T R R' : ℕ} (s : StreamRecords T R)
    (s' : StreamRecords T R') : Prop where
  records : List.Forall₂ P s.records s'.records
  last : P s.last s'.last

/-- Record by record. -/
structure RequestRecords.Rel (P : Record → Record → Prop) (q q' : RequestRecords) : Prop where
  begin : P q.begin q'.begin
  params : q.params.Rel P q'.params
  stdin : q.stdin.Rel P q'.stdin
  data : q.data.Rel P q'.data

/-- Two requests whose records differ in their padding only. -/
def RequestRecords.SameRecords : RequestRecords → RequestRecords → Prop :=
  RequestRecords.Rel Record.SameButPadding

/-- The lengths of the padding are the same too. -/
def RequestRecords.PaddedLike : RequestRecords → RequestRecords → Prop :=
  RequestRecords.Rel fun r r' => r.SameButPadding r' ∧ r.padding.length = r'.padding.length

/-- On whatever connections and in whatever chunks they arrive, all calls return the same
for the two requests. -/
def RequestRecords.SameResults (q q' : RequestRecords) : Prop :=
  ∀ (r r' : Request) (os os' : Os) (calls calls' : List ReadCall), r.Idle → r'.Idle →
    os.incoming = q.wire → os'.incoming = q'.wire →
    serve r os calls calls' = serve r' os' calls calls'

theorem contents_of_forall₂ {rs rs' : List Record} (h : List.Forall₂ Record.SameButPadding rs rs') :
    contents rs = contents rs' := by
  induction h with
  | nil => rfl
  | cons hr _ ih => exact congrArg₂ (· ++ ·) hr.content ih

section Same

variable {q q' : RequestRecords} {P : Record → Record → Prop}

theorem RequestRecords.Rel.mono {P' : Record → Record → Prop} (h : q.Rel P q')
    (hle : ∀ r r', P r r' → P' r r') : q.Rel P' q' where
  begin := hle _ _ h.begin
  params := ⟨h.params.records.imp hle, hle _ _ h.params.last⟩
  stdin := ⟨h.stdin.records.imp hle, hle _ _ h.stdin.last⟩
  data := ⟨h.data.records.imp hle, hle _ _ h.data.last⟩

theorem RequestRecords.PaddedLike.sameRecords (h : q.PaddedLike q') : q.SameRecords q' :=
  h.mono fun _ _ h => h.1

theorem RequestRecords.SameRecords.roleNumber (h : q.SameRecords q') :
    q.roleNumber = q'.roleNumber := by
  rw [RequestRecords.roleNumber, Record.roleNumber, h.begin.content]
  rfl

theorem RequestRecords.SameRecords.environment (h : q.SameRecords q') :
    q.environment = q'.environment := by
  have hparams : q.params.content = q'.params.content := contents_of_forall₂ h.params.records
  rw [RequestRecords.environment, RequestRecords.environment, h.roleNumber, hparams]

/-- The outcome is that of the records. -/
theorem RequestRecords.SameRecords.outcome (h : q.SameRecords q') (calls calls' : List ReadCall) :
    q.outcome calls calls' = q'.outcome calls calls' := by
  have hstdin : q.stdin.content = q'.stdin.content := contents_of_forall₂ h.stdin.records
  have hdata : q.data.content = q'.data.content := contents_of_forall₂ h.data.records
  rw [RequestRecords.outcome, RequestRecords.outcome, h.environment, h.roleNumber, hstdin, hdata]

theorem RequestRecords.PaddedLike.handsOver (h : q.PaddedLike q') (hq : q.HandsOver) :
    q'.HandsOver := by
  have hnil : ∀ {r r' : Record}, r.SameButPadding r' ∧ r.padding.length = r'.padding.length →
      r.padding = [] → r'.padding = [] := by
    intro r r' hr hpad
    rw [hpad] at hr
    exact List.length_eq_zero_iff.mp hr.2.symm
  intro hrole
  rw [← h.sameRecords.roleNumber] at hrole
  obtain ⟨hbegin, hrest⟩ := hq hrole
  refine ⟨hnil h.begin hbegin, fun henv => ?_⟩
  rw [← h.sameRecords.environment] at henv
  obtain ⟨hparams, hstdin⟩ := hrest henv
  refine ⟨hnil h.params.last hparams, fun hfilter => ?_⟩
  rw [← h.sameRecords.roleNumber] at hfilter
  exact hnil h.stdin.last (hstdin hfilter)

end Same

/-! ### Other padding -/

/-- The record with other padding, not longer than before. -/
def Record.repad (f : List UInt8 → List UInt8) (hf : ∀ p, (f p).length ≤ p.length) (r : Record) :
    Record :=
  { r with padding := f r.padding, padding_le := Nat.le_trans (hf r.padding) r.padding_le }

def StreamRecords.repad (f : List UInt8 → List UInt8) (hf : ∀ p, (f p).length ≤ p.length)
    {T R : ℕ} (s : StreamRecords T R) : StreamRecords T R where
  records := s.records.map (Record.repad f hf)
  last := s.last.repad f hf
  own r hr := by
    obtain ⟨r', hr', rfl⟩ := List.mem_map.mp hr
    exact s.own r' hr'
  ends := s.ends

def RequestRecords.repad (f : List UInt8 → List UInt8) (hf : ∀ p, (f p).length ≤ p.length)
    (q : RequestRecords) : RequestRecords where
  begin := q.begin.repad f hf
  begins := ⟨q.begins.type_eq, q.begins.id_ne_null, q.begins.length_content⟩
  params := q.params.repad f hf
  stdin := q.stdin.repad f hf
  data := q.data.repad f hf

theorem RequestRecords.rel_repad {f : List UInt8 → List UInt8} {hf : ∀ p, (f p).length ≤ p.length}
    {P : Record → Record → Prop} (h : ∀ r : Record, P r (r.repad f hf)) (q : RequestRecords) :
    q.Rel P (q.repad f hf) := by
  have hall : ∀ rs : List Record, List.Forall₂ P rs (rs.map (Record.repad f hf)) := by
    intro rs
    induction rs with
    | nil => exact .nil
    | cons r rs ih => exact .cons (h r) ih
  exact ⟨h _, ⟨hall _, h _⟩, ⟨hall _, h _⟩, ⟨hall _, h _⟩⟩

/-- The request without padding. -/
def RequestRecords.unpadded (q : RequestRecords) : RequestRecords :=
  q.repad (fun _ => []) fun _ => Nat.zero_le _

/-- The request with padding of the same lengths, all 0. -/
def RequestRecords.zeroPadded (q : RequestRecords) : RequestRecords :=
  q.repad (fun p => List.replicate p.length 0) fun _ => by rw [List.length_replicate]

/-- Where a request does not hand over, its padding can be chosen so that a client that
reads both streams to their ends learns of an error. -/
theorem zeroPadded_errno {q : RequestRecords} (hq : ¬q.HandsOver) {r : Request} {os : Os}
    {calls calls' : List ReadCall} (hcalls : q.stdin.content.length < (calls.map ReadCall.wanted).sum)
    (hcalls' : 0 < (calls'.map ReadCall.wanted).sum) (hidle : r.Idle)
    (hwire : os.incoming = q.zeroPadded.wire) :
    ∃ o, serve r os calls calls' = some o ∧ o.errno ≠ 0 := by
  have hsame : q.SameRecords q.zeroPadded := RequestRecords.rel_repad (fun _ => ⟨rfl, rfl, rfl⟩) q
  have hzero : ∀ {x : Record} {y : List UInt8}, y = List.replicate x.padding.length 0 →
      y = [] ∧ x.padding = [] ∨ ∃ p, y = 0 :: p := by
    intro x y hy
    cases hpad : x.padding with
    | nil => exact .inl ⟨by rw [hy, hpad]; rfl, rfl⟩
    | cons b p => exact .inr ⟨List.replicate p.length 0, by rw [hy, hpad]; rfl⟩
  have hversion : (0 : UInt8) ≠ fcgiVersion1 := by decide
  rw [RequestRecords.HandsOver, Classical.not_imp] at hq
  obtain ⟨hrole, hq⟩ := hq
  rw [hsame.roleNumber] at hrole
  rcases hzero (y := q.zeroPadded.begin.padding) rfl with ⟨hbegin, hnil⟩ | ⟨p, hpad⟩
  · rw [not_and_or, Classical.not_imp] at hq
    obtain ⟨henv, hq⟩ := hq.resolve_left (not_not_intro hnil)
    rw [hsame.environment] at henv
    rcases hzero (y := q.zeroPadded.params.last.padding) rfl with ⟨hparams, hnil⟩ | ⟨p, hpad⟩
    · rw [not_and_or, Classical.not_imp] at hq
      obtain ⟨hfilter, hq⟩ := hq.resolve_left (not_not_intro hnil)
      rw [hsame.roleNumber] at hfilter
      rcases hzero (y := q.zeroPadded.stdin.last.padding) rfl with ⟨-, hnil⟩ | ⟨p, hpad⟩
      · exact absurd hnil hq
      · have hlen : q.stdin.content = q.zeroPadded.stdin.content :=
          contents_of_forall₂ hsame.stdin.records
        rw [hlen] at hcalls
        exact serve_padded_stdin hbegin henv hparams hfilter hpad hversion hcalls hcalls' hidle hwire
    · exact serve_padded_params hbegin henv hpad hversion (by omega) hidle hwire
  · exact serve_padded_begin hpad hversion hrole hidle hwire

/-- **The padding of a request is transparent exactly where it hands over**: whatever the
bytes of the padding and the chunks, all calls return what they return for the same records
with other padding that hands over, such as none. -/
theorem padding_transparent_iff (q : RequestRecords) :
    (∀ q₁ q₂, q.PaddedLike q₁ → q.SameRecords q₂ → q₂.HandsOver → q₁.SameResults q₂) ↔
      q.HandsOver := by
  refine ⟨fun h => ?_, fun hq q₁ q₂ h₁ h₂ hq₂ r r' os os' calls calls' hidle hidle' hos hos' => ?_⟩
  · by_contra hq
    let calls : List ReadCall := [.getStr (q.stdin.content.length + 1)]
    let calls' : List ReadCall := [.getStr (q.data.content.length + 1)]
    have hcalls : (calls.map ReadCall.wanted).sum = q.stdin.content.length + 1 := by
      simp [calls, ReadCall.wanted]
    have hcalls' : (calls'.map ReadCall.wanted).sum = q.data.content.length + 1 := by
      simp [calls', ReadCall.wanted]
    have hidle := idle_fcgxInitRequest (.sending [] [] []) 0 0 0
    obtain ⟨o, ho, herrno⟩ := zeroPadded_errno hq (by omega : _ < (calls.map _).sum)
      (by omega : 0 < (calls'.map _).sum) hidle
      (show (Os.sending q.zeroPadded.wire [] []).incoming = q.zeroPadded.wire from rfl)
    have hsame : q.SameRecords q.unpadded := RequestRecords.rel_repad (fun _ => ⟨rfl, rfl, rfl⟩) q
    have hunpadded : q.unpadded.HandsOver := fun _ => ⟨rfl, fun _ => ⟨rfl, fun _ => rfl⟩⟩
    have hresults := h q.zeroPadded q.unpadded
      (RequestRecords.rel_repad (fun r => ⟨⟨rfl, rfl, rfl⟩, (List.length_replicate ..).symm⟩) q)
      hsame hunpadded _ _ (.sending q.zeroPadded.wire [] []) (.sending q.unpadded.wire [] []) calls
      calls' hidle hidle rfl rfl
    rw [ho, serve_wire hunpadded hidle rfl, ← hsame.outcome, RequestRecords.outcome] at hresults
    obtain ⟨env, -, heq⟩ := Option.map_eq_some_iff.mp hresults.symm
    apply herrno
    rw [← heq]
    split
    · rfl
    · rw [if_pos (by omega)]
  · rw [serve_wire (h₁.handsOver hq) hidle hos, serve_wire hq₂ hidle' hos',
      ← h₁.sameRecords.outcome, ← h₂.outcome]

/-- A request with one pair, and `padding` behind its first record. -/
def onePair (padding : List UInt8) (h : padding.length ≤ 255) : RequestRecords where
  begin := { shortRecord fcgiBeginRequest 1 [0, 1, 0, 0, 0, 0, 0, 0] beginBody_le with
    padding := padding, padding_le := h }
  begins := ⟨rfl, (by decide : (1 : UInt16).toNat ≠ fcgiNullRequestId), rfl⟩
  params :=
    { records := [shortRecord fcgiParams 1 [1, 1, 65, 66] (by decide)]
      last := shortRecord fcgiParams 1 [] nil_content_le
      own := fun r hr => by
        rw [List.mem_singleton.mp hr]
        exact ⟨rfl, rfl, by decide⟩
      ends := ⟨rfl, rfl, rfl⟩ }
  stdin :=
    { records := [], last := shortRecord fcgiStdin 1 [] nil_content_le
      own := fun _ hr => nomatch hr
      ends := ⟨rfl, rfl, rfl⟩ }
  data :=
    { records := [], last := shortRecord fcgiData 1 [] nil_content_le
      own := fun _ hr => nomatch hr
      ends := ⟨rfl, rfl, rfl⟩ }

/-- With padding behind the record that begins the request, `FCGX_Accept_r` returns an
environment without the pair. -/
theorem padded_begin_differs : ¬∀ q q' : RequestRecords, q.SameRecords q' → q.SameResults q' := by
  intro hall
  let q := onePair [] (by decide)
  let q' := onePair [0, 0, 0, 0, 0, 0, 0, 0] (by decide)
  have hrefl : ∀ {T R : ℕ} (s : StreamRecords T R), s.Rel Record.SameButPadding s := fun s =>
    ⟨List.forall₂_same.mpr fun _ _ => ⟨rfl, rfl, rfl⟩, ⟨rfl, rfl, rfl⟩⟩
  have hsame : q.SameRecords q' := ⟨⟨rfl, rfl, rfl⟩, hrefl _, hrefl _, hrefl _⟩
  have hidle : idleRequest.Idle := ⟨_, rfl, rfl⟩
  have hresults := hall q q' hsame idleRequest idleRequest (.sending q.wire [] [])
    (.sending q'.wire [] []) [] [] hidle hidle rfl rfl
  have hplain : (serve idleRequest (.sending q.wire [] []) [] []).map
      (fun o => (o.env.length, o.errno)) = some (2, 0) := by decide +kernel
  have hpadded : (serve idleRequest (.sending q'.wire [] []) [] []).map
      (fun o => (o.env.length, o.errno)) = some (1, fcgxUnsupportedVersion) := by decide +kernel
  rw [hresults, hpadded] at hplain
  exact absurd hplain (by decide)

end FastCgi
