import FastCgi.App.Environment
import FastCgi.App.FilterData
import FastCgi.Protocol.Response

/-!
Whole requests on the wire.

A request is sent as a record that begins it and as streams of records,
each ended by an empty record (`RequestRecords`). `Streaming` says what is
left of a stream for a reader in the middle of it, whatever has been sent
on the connection meanwhile. `acceptConnection_wire` is what
`FCGX_Accept_r` makes of the first two parts of a request, for every
chunking.
-/

namespace FastCgi

open ByteMem

/-! ### What is left of a stream -/

/-- The view at the end of a stream that the record `last` ends, with `tail` behind it. -/
def View.endedBy (v : View) (last : Record) (tail : List UInt8) : View :=
  { v with input := last.padding ++ tail, contentLen := 0, paddingLen := 0, closed := true }

/-- A reader in the middle of a stream: `bs` is still to be delivered, in the rest of a
record and in whole records, and then the record `last` ends the stream. -/
structure Streaming (v : View) (bs : List UInt8) (last : Record) (tail : List UInt8) : Prop where
  skip : v.skip = false
  eorStop : v.eorStop = false
  closed : v.closed = false
  type_ne : v.type ≠ fcgiBeginRequest
  id_ne_null : v.req.requestId ≠ fcgiNullRequestId
  ends : last.Ends v.type v.req.requestId
  rest : ∃ content padding records,
    v.input = content ++ (padding ++ (encodeAll records ++ (last.encode ++ tail))) ∧
      v.contentLen = content.length ∧ v.paddingLen = padding.length ∧
      (∀ r ∈ records, r.Own v.type v.req.requestId) ∧ bs = content ++ contents records

section Streaming

variable {v w : View} {bs : List UInt8} {last : Record} {tail : List UInt8}

/-- Between two records. -/
theorem Streaming.of_records (hb : v.Boundary) (hs : v.skip = false)
    (htype : v.type ≠ fcgiBeginRequest) (hid : v.req.requestId ≠ fcgiNullRequestId)
    {records : List Record} (hown : ∀ r ∈ records, r.Own v.type v.req.requestId)
    (hlast : last.Ends v.type v.req.requestId)
    (hinput : v.input = encodeAll records ++ (last.encode ++ tail)) :
    Streaming v (contents records) last tail :=
  ⟨hs, hb.eorStop, hb.closed, htype, hid, hlast, [], [], records, hinput, hb.contentLen,
    hb.paddingLen, hown, rfl⟩

/-- A record of the stream is entered. -/
theorem View.Boundary.enters_own (hb : v.Boundary) (htype : v.type ≠ fcgiBeginRequest)
    (hid : v.req.requestId ≠ fcgiNullRequestId) {r : Record} (hr : r.Own v.type v.req.requestId)
    (post : List UInt8) : advance (v.facing (r.encode ++ post)) = advance (v.inRecord r post) := by
  obtain ⟨ht, hreq, hne⟩ := hr
  have hdispatch : dispatchView r.header (v.entered r post) = (.streamRecord, v.entered r post) := by
    rw [dispatchView, Record.header_type, Record.header_requestId, if_neg (by rwa [ht]),
      if_neg (by rwa [hreq]), if_neg (by exact not_not_intro hreq),
      if_neg (by exact not_not_intro ht)]
  rw [hb.advance_record, hdispatch, hb.leaveRecord_entered]
  exact if_neg (by simpa [View.inRecord] using hne)

/-- The rest of a record's padding is passed. -/
theorem Streaming.advance_eq_facing {padding post : List UInt8} (h : Streaming v bs last tail)
    (hinput : v.input = padding ++ post) (hc : v.contentLen = 0)
    (hp : v.paddingLen = padding.length) :
    advance v = advance (({ v with contentLen := 0, paddingLen := 0 } : View).facing post) := by
  rw [advance_padding hc h.eorStop (by rw [hinput, hp]; simp)]
  simp [View.facing, hinput, hp, hc]

/-- The next byte of the stream is delivered. -/
theorem Streaming.advance_cons {b : UInt8} (h : Streaming v (b :: bs) last tail) :
    ∃ v' input, advance v = (.ready, v') ∧ v'.input = b :: input ∧
      Streaming (v'.consume 1) bs last tail ∧
      (v'.consume 1).endedBy last tail = v.endedBy last tail := by
  obtain ⟨content, padding, records, hinput, hc, hp, hown, hbs⟩ := h.rest
  cases content with
  | cons x content =>
      obtain ⟨rfl, rfl⟩ := List.cons_eq_cons.mp hbs
      refine ⟨v, _, advance_ready ⟨by simp [hc], h.skip, by simp [hinput]⟩, hinput, ?_, rfl⟩
      exact ⟨h.skip, h.eorStop, h.closed, h.type_ne, h.id_ne_null, h.ends, content, padding,
        records, by simp [hinput], by simp [hc], hp, hown, rfl⟩
  | nil =>
      rw [List.nil_append] at hinput
      cases records with
      | nil => cases hbs
      | cons r records =>
          have hr := hown r List.mem_cons_self
          have hb : ({ v with contentLen := 0, paddingLen := 0 } : View).Boundary :=
            ⟨rfl, rfl, h.eorStop, h.closed⟩
          have hcontents : b :: bs = r.content ++ contents records := hbs
          match hcontent : r.content with
          | [] => exact absurd hcontent hr.2.2
          | x :: content =>
              rw [hcontent] at hcontents
              obtain ⟨rfl, rfl⟩ := List.cons_eq_cons.mp hcontents
              refine ⟨View.inRecord { v with contentLen := 0, paddingLen := 0 } r
                (encodeAll records ++ (last.encode ++ tail)),
                content ++ (r.padding ++ (encodeAll records ++ (last.encode ++ tail))),
                ?_, ?_, ?_, rfl⟩
              · rw [h.advance_eq_facing hinput hc hp, encodeAll_cons, List.append_assoc,
                  hb.enters_own h.type_ne h.id_ne_null hr]
                exact advance_ready ⟨by simp [View.inRecord, hcontent], h.skip,
                  by simp [View.inRecord, hcontent]⟩
              · simp only [View.inRecord, hcontent, List.cons_append]
              · exact ⟨h.skip, h.eorStop, h.closed, h.type_ne, h.id_ne_null, h.ends, content,
                  r.padding, records, by simp [View.inRecord, hcontent],
                  by simp [View.inRecord, hcontent], rfl,
                  fun r' hr' => hown r' (List.mem_cons_of_mem r hr'), rfl⟩

theorem contents_eq_nil {T R : ℕ} {records : List Record} (hown : ∀ r ∈ records, r.Own T R)
    (h : contents records = []) : records = [] := by
  cases records with
  | nil => rfl
  | cons r records =>
      have hne := (hown r List.mem_cons_self).2.2
      exact absurd (List.append_eq_nil_iff.mp h).1 hne

/-- The stream ends. -/
theorem Streaming.advance_nil (h : Streaming v [] last tail) :
    advance v = (.closed, v.endedBy last tail) := by
  obtain ⟨content, padding, records, hinput, hc, hp, hown, hbs⟩ := h.rest
  obtain ⟨rfl, hcontents⟩ := List.append_eq_nil_iff.mp hbs.symm
  obtain rfl := contents_eq_nil hown hcontents
  rw [List.nil_append] at hinput
  have hb : ({ v with contentLen := 0, paddingLen := 0 } : View).Boundary :=
    ⟨rfl, rfl, h.eorStop, h.closed⟩
  rw [h.advance_eq_facing hinput hc hp, encodeAll_nil, List.nil_append]
  exact hb.ends h.type_ne h.id_ne_null h.ends tail

/-- **A stream is delivered**, and ends without an error of its own. -/
theorem Streaming.delivers (h : Streaming v bs last tail) :
    Delivers v bs (v.endedBy last tail) := by
  induction bs generalizing v with
  | nil => exact .stop h.advance_nil
  | cons b bs ih =>
      obtain ⟨v', input, hadv, hinput, hrest, hended⟩ := h.advance_cons
      have hd := ih hrest
      rw [hended] at hd
      exact .byte hadv hinput hd

/-- Reading leaves the rest of the stream. -/
theorem Streaming.reads {xs ys : List UInt8} (h : Streaming v (xs ++ ys) last tail)
    (hr : Reads v xs w) :
    Streaming w ys last tail ∧ w.endedBy last tail = v.endedBy last tail := by
  induction hr with
  | nil => exact ⟨h, rfl⟩
  | cons hadv hb _ ih =>
      obtain ⟨v', input, hadv', -, hrest, hended⟩ := h.advance_cons
      rw [hadv] at hadv'
      obtain ⟨-, rfl⟩ := Prod.mk.inj hadv'
      obtain ⟨hw, hwended⟩ := ih hrest
      exact ⟨hw, hwended.trans hended⟩

end Streaming

/-! ### Accepting a connection -/

section Accepting

variable {r : Request} {u e : View} {bs : List UInt8}

/-- What a request is accepted with, once its first two parts are known. -/
theorem acceptConnection_of_begun (hadv : advance (openReader r).view = (.begun, u))
    (hd : Delivers (u.setReaderType fcgiParams) bs e) {role : List UInt8} {ps : List NameValue}
    (hrole : roleStr u.req.role = some role) (hps : parsePairs bs = (ps, none)) :
    ∃ params c, acceptConnection r = some (true, buildRequest r c params) ∧
      params.entries = role :: ps.map NameValue.entry ∧ c.Closed ∧ c.view = e := by
  have haccepts : Accepts (openReader r).view role ps e := by
    refine ⟨by rw [hadv], by rw [hadv]; exact hrole, bs, ?_, hps⟩
    rw [hadv]
    exact hd
  obtain ⟨res, c, hread, -, ⟨params, role', ps', rfl, hentries, ha, hclosed⟩ | ⟨-, hnone⟩⟩ :=
    readRequest_spec (fresh_openReader r)
  · have hview := haccepts.unique ha
    have hrole' := ha.role_eq
    obtain ⟨bs', hd', hps'⟩ := ha.params
    rw [hadv] at hrole' hd'
    obtain rfl := Option.some.inj (hrole.symm.trans hrole')
    obtain ⟨rfl, -⟩ := hd.unique hd'
    obtain ⟨rfl, -⟩ := Prod.mk.inj (hps.symm.trans hps')
    exact ⟨params, c, by rw [acceptConnection, hread], hentries, hclosed, hview.symm⟩
  · exact absurd haccepts (hnone _ _ _)

/-- A request with a role that is not served, or with bad pairs, is not accepted. -/
theorem acceptConnection_rejects (hadv : advance (openReader r).view = (.begun, u))
    (hd : Delivers (u.setReaderType fcgiParams) bs e)
    (h : roleStr u.req.role = none ∨ (parsePairs bs).2 ≠ none) :
    ∃ r', acceptConnection r = some (false, r') := by
  obtain ⟨res, c, hread, -, ⟨-, role, ps, -, -, ha, -⟩ | ⟨rfl, -⟩⟩ :=
    readRequest_spec (fresh_openReader r)
  · have hrole := ha.role_eq
    obtain ⟨bs', hd', hps⟩ := ha.params
    rw [hadv] at hrole hd'
    obtain ⟨rfl, -⟩ := hd.unique hd'
    rcases h with hnone | hbad
    · rw [hnone] at hrole
      cases hrole
    · rw [hps] at hbad
      exact absurd rfl hbad
  · exact ⟨_, by rw [acceptConnection, hread]⟩

/-- A request that keeps no connection open. -/
def Request.Idle (r : Request) : Prop := ∃ r₀, fcgxFinishR r = some r₀ ∧ r₀.isOpen = false

theorem idle_fcgxInitRequest (os : Os) (mBuffIn mBuffOut mBuffErr : ℕ) :
    (fcgxInitRequest os mBuffIn mBuffOut mBuffErr).Idle := ⟨_, rfl, rfl⟩

/-- `FCGX_Accept_r`, with the first connection that `OS_Accept` returns. -/
theorem accept_of_idle (h : r.Idle) (os : Os) (pending : List Connection) :
    ∃ r₁, r₁.os = os ∧ r₁.isOpen = true ∧ ∀ ok r', acceptConnection r₁ = some (ok, r') →
      fcgxAcceptR true (.ok os :: pending) r =
        if ok then some (0, r', pending) else acceptLoop pending r' := by
  obtain ⟨r₀, hfin, hopen⟩ := h
  refine ⟨{ r₀ with os := os, isOpen := true }, rfl, rfl, fun ok r' hacc => ?_⟩
  rw [fcgxAcceptR, if_neg (by decide), hfin]
  simp only [hopen, Bool.not_false, if_true, acceptLoop, hacc]
  cases ok <;> rfl

theorem openReader_boundary (r : Request) : (openReader r).view.Boundary := ⟨rfl, rfl, rfl, rfl⟩

/-- The reader comes to a record that begins a request, at the front of the connection. -/
theorem advance_openReader {b : Record} {post : List UInt8} (hb : b.Begins)
    (hwire : r.os.incoming = b.encode ++ post) :
    advance (openReader r).view = (.begun, (openReader r).view.begun b post) := by
  have hview : (openReader r).view = (openReader r).view.facing (b.encode ++ post) := by
    rw [← hwire]
    rfl
  rw [hview, advance_begun (openReader_boundary r) rfl rfl hb]
  rfl

end Accepting

/-! ### Requests -/

/-- The records of the stream of type `T` of request `R`: they have content, and an empty
one ends the stream. -/
structure StreamRecords (T R : ℕ) where
  records : List Record
  last : Record
  own : ∀ r ∈ records, r.Own T R
  ends : last.Ends T R

namespace StreamRecords

variable {T R : ℕ}

def content (s : StreamRecords T R) : List UInt8 := contents s.records

def wire (s : StreamRecords T R) : List UInt8 := encodeAll s.records ++ s.last.encode

/-- A reader between two records, at the start of the stream. -/
theorem streaming {v : View} (s : StreamRecords T R) {tail : List UInt8} (hb : v.Boundary)
    (hs : v.skip = false) (htype : v.type = T) (hreq : v.req.requestId = R)
    (hT : T ≠ fcgiBeginRequest) (hR : R ≠ fcgiNullRequestId) (hinput : v.input = s.wire ++ tail) :
    Streaming v s.content s.last tail := by
  subst htype hreq
  exact .of_records hb hs hT hR s.own s.ends (by rw [hinput, wire, List.append_assoc])

end StreamRecords

/-- The role that a record which begins a request asks for. -/
def Record.roleNumber (b : Record) : ℕ :=
  ((b.content.getD 0 0).toNat <<< 8) + (b.content.getD 1 0).toNat

/-- The records of a request. The last stream is sent to filters only. -/
structure RequestRecords where
  begin : Record
  begins : begin.Begins
  params : StreamRecords fcgiParams begin.requestId.toNat
  stdin : StreamRecords fcgiStdin begin.requestId.toNat
  data : StreamRecords fcgiData begin.requestId.toNat

namespace RequestRecords

def roleNumber (q : RequestRecords) : ℕ := q.begin.roleNumber

/-- The bytes behind the `FCGI_STDIN` stream. -/
def rest (q : RequestRecords) : List UInt8 :=
  if q.roleNumber = fcgiFilter then q.data.wire else []

/-- The bytes behind the `FCGI_PARAMS` stream. -/
def body (q : RequestRecords) : List UInt8 := q.stdin.wire ++ q.rest

def wire (q : RequestRecords) : List UInt8 := q.begin.encode ++ (q.params.wire ++ q.body)

/-- The entries of the environment: the role, if it is served, and the pairs, if the
`FCGI_PARAMS` content can be parsed. -/
def environment (q : RequestRecords) : Option (List (List UInt8)) :=
  match roleStr q.roleNumber, parsePairs q.params.content with
  | some role, (ps, none) => some (role :: ps.map NameValue.entry)
  | _, _ => none

/-- The request data of an accepted request. -/
def reqData (q : RequestRecords) (old : ReqData) : ReqData :=
  { ({ old with isBeginProcessed := false, requestId := q.begin.requestId.toNat } :
      ReqData).begin q.begin.content with nWriters := 2 }

end RequestRecords

/-- What `FCGX_Accept_r` has made of `r` when it has accepted the request `q` on its
connection: `s` is the input stream, and `tail` is left of the wire. -/
structure AcceptedAs (q : RequestRecords) (tail : List UInt8) (r r' : Request) (s : Stream) :
    Prop extends r'.AtStdin s where
  inStream : r'.inStream = some s
  envp : ∃ params, r'.envp = some params ∧ q.environment = some params.entries
  req : r'.req = q.reqData r.req
  unread : (r'.chan s).unread = tail
  errno : s.fcgiErrno = 0
  isOpen : r'.isOpen = r.isOpen
  writeSide : r'.os.writeSide = r.os.writeSide
  out : ∃ o, r'.out = some o ∧ o.fcgiErrno = 0
  err : ∃ o, r'.err = some o ∧ o.fcgiErrno = 0

/-- **Accepting a request.** Whatever the chunks, a request without padding behind its first
record is accepted where it has an environment, and only there. -/
theorem acceptConnection_wire (q : RequestRecords) {r : Request} {tail : List UInt8}
    (hpad : q.begin.padding = [])
    (hwire : r.os.incoming = q.begin.encode ++ (q.params.wire ++ tail)) :
    (q.environment.isSome = true ∧ ∃ r' s, acceptConnection r = some (true, r') ∧
      AcceptedAs q (q.params.last.padding ++ tail) r r' s) ∨
    q.environment = none ∧ ∃ r', acceptConnection r = some (false, r') := by
  have hadv := advance_openReader q.begins hwire
  let u : View := (openReader r).view.begun q.begin (q.params.wire ++ tail)
  have hstream : Streaming (u.setReaderType fcgiParams) q.params.content q.params.last tail := by
    refine q.params.streaming ⟨rfl, rfl, rfl, rfl⟩ rfl rfl rfl (by decide) q.begins.id_ne_null ?_
    show q.begin.padding ++ (q.params.wire ++ tail) = _
    rw [hpad, List.nil_append]
  have hd := hstream.delivers
  cases hserved : roleStr q.roleNumber with
  | none =>
      refine .inr ⟨by rw [RequestRecords.environment, hserved], ?_⟩
      exact acceptConnection_rejects hadv hd (.inl (by rw [← hserved]; rfl))
  | some role =>
      rcases hparse : parsePairs q.params.content with ⟨ps, bad⟩
      cases bad with
      | some bad =>
          refine .inr ⟨by rw [RequestRecords.environment, hserved, hparse], ?_⟩
          exact acceptConnection_rejects hadv hd (.inr (by rw [hparse]; simp))
      | none =>
          have henv : q.environment = some (role :: ps.map NameValue.entry) := by
            rw [RequestRecords.environment, hserved, hparse]
          obtain ⟨params, c, hacc, hentries, hclosed, hview⟩ :=
            acceptConnection_of_begun hadv hd (by rw [← hserved]; rfl) hparse
          refine .inl ⟨by rw [henv]; rfl, _, setReaderType c.stream fcgiStdin, hacc, ?_⟩
          have hreq : c.req = _ := congrArg View.req hview
          exact
            { acceptConnection_atStdin hacc rfl with
              inStream := rfl
              envp := ⟨params, rfl, by rw [henv, hentries]⟩
              req := by
                show { c.req with nWriters := 2 } = _
                rw [hreq]
                rfl
              unread := congrArg View.input hview
              errno := congrArg View.errno hview
              isOpen := rfl
              writeSide := congrArg View.os hview
              out := ⟨_, rfl, rfl⟩
              err := ⟨_, rfl, rfl⟩ }

/-- Without padding behind the `FCGI_PARAMS` stream, its input stream is at the start of
`FCGI_STDIN`. -/
theorem AcceptedAs.streaming {q : RequestRecords} {r r' : Request} {s : Stream}
    (h : AcceptedAs q (q.params.last.padding ++ q.body) r r' s) (hpad : q.params.last.padding = []) :
    Streaming (r'.chan s).view q.stdin.content q.stdin.last q.rest := by
  have hreq : r'.req.requestId = q.begin.requestId.toNat := by
    rw [h.req]
    rfl
  refine q.stdin.streaming h.view_boundary h.skip h.type hreq (by decide) q.begins.id_ne_null ?_
  have hunread := h.unread
  rwa [hpad, List.nil_append] at hunread

theorem AcceptedAs.readable {q : RequestRecords} {tail : List UInt8} {r r' : Request} {s : Stream}
    (h : AcceptedAs q tail r r' s) : (r'.chan s).Readable :=
  ⟨h.toBetween.toOpen, h.eorStop, h.skip⟩

theorem AcceptedAs.role {q : RequestRecords} {tail : List UInt8} {r r' : Request} {s : Stream}
    (h : AcceptedAs q tail r r' s) : r'.req.role = q.roleNumber := by
  rw [h.req]
  rfl

end FastCgi
