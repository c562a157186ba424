import FastCgi.App.Reassembly
import FastCgi.App.Request

/-!
What `FCGX_Accept_r` reads from one connection.

In views, accepting is two steps: `advance` from the first byte to the
beginning of a request, and reading the pairs that the `FCGI_PARAMS`
stream delivers (`Accepts`). `readRequest_spec` says that this is what the
library does, for every chunking. `accepted_of_fcgxAcceptR` takes a
successful call apart.
-/

namespace FastCgi

/-! ### Readers at the start of a stream -/

/-- `SetReaderType`. -/
def View.setReaderType (v : View) (streamType : ℕ) : View :=
  { v with
    contentLen := 0, paddingLen := 0, skip := false, eorStop := false, closed := false
    type := streamType }

theorem view_setReaderType (c : Chan) (streamType : ℕ) :
    (c.setReaderType streamType).view = c.view.setReaderType streamType := by
  simp [Chan.view, Chan.setReaderType, setReaderType, View.setReaderType, Chan.unread]

theorem open_setReaderType {c : Chan} (h : c.Buffered) (streamType : ℕ) :
    (c.setReaderType streamType).Open where
  isReader := h.isReader
  rdNext_le := h.rdNext_le
  buffStop_le := h.buffStop_le
  bufflen_pos := h.bufflen_pos
  isClosed := rfl
  rdNext_le_stop := Nat.le_refl _
  stop_le := h.rdNext_le
  deliver hlt := absurd hlt (Nat.lt_irrefl _)

theorem Chan.Outcome.buffered {s : Stop} {c : Chan} (h : c.Outcome s) : c.Buffered := by
  cases s with
  | ready => exact h.1.toBuffered
  | begun => exact h.1.toBuffered
  | closed => exact h.toBuffered

/-- A reader that `NewReader` has made. -/
structure Chan.Fresh (c : Chan) : Prop extends c.Open where
  rdNext_eq : c.stream.rdNext = c.stream.stop
  eorStop : c.stream.eorStop = false
  isBeginProcessed : c.req.isBeginProcessed = false

theorem fresh_openReader (r : Request) : (openReader r).Fresh where
  isReader := rfl
  rdNext_le := Nat.le_refl _
  buffStop_le := Nat.zero_le _
  bufflen_pos := by
    simp only [openReader, newStream]
    split <;> decide
  isClosed := rfl
  rdNext_le_stop := Nat.le_refl _
  stop_le := Nat.le_refl _
  deliver hlt := absurd hlt (Nat.lt_irrefl _)
  rdNext_eq := rfl
  eorStop := rfl
  isBeginProcessed := rfl

/-! ### The beginning of a request -/

/-- A header begins a request, with the id it carries, or it begins none. -/
theorem HeaderStep.unbegun {header : Header} {v : View} {x : Status × View}
    (hstep : HeaderStep header v x) (h : v.req.isBeginProcessed = false) :
    x.1 = .beginRecord ∧ x.2.req.isBeginProcessed = true ∧
        x.2.req.requestId = header.requestId ∨
      x.1 ≠ .beginRecord ∧ x.2.req.isBeginProcessed = false := by
  cases hstep with
  | otherVersion => exact .inr ⟨by simp, h⟩
  | malformed => exact .inr ⟨by simp, h⟩
  | multiplexed _ hbegun =>
      rw [h] at hbegun
      cases hbegun
  | cutBody hu =>
      refine .inr ⟨by simp, ?_⟩
      rw [eorContent_req, hu]
      exact h
  | @begins u hu =>
      refine .inl ⟨rfl, rfl, ?_⟩
      show (advanceEor u).2.req.requestId = header.requestId
      rw [advanceEor_req, hu]
      rfl
  | badQuery =>
      refine .inr ⟨by simp, ?_⟩
      rw [readQuery_req]
      exact h
  | query hq =>
      refine .inr ⟨sendReplyView_ne_begin _ (by simp), ?_⟩
      rw [sendReplyView_req, hq, readQuery_req]
      exact h
  | unknown =>
      refine .inr ⟨sendReplyView_ne_begin _ (by simp), ?_⟩
      rw [sendReplyView_req]
      exact h
  | foreign => exact .inr ⟨by simp, h⟩
  | otherType => exact .inr ⟨by simp, h⟩
  | own => exact .inr ⟨by simp, h⟩

theorem processHeaderView_unbegun (header : Header) {v : View}
    (h : v.req.isBeginProcessed = false) :
    (processHeaderView header v).1 = .beginRecord ∧
        (processHeaderView header v).2.req.isBeginProcessed = true ∧
        (processHeaderView header v).2.req.requestId = header.requestId ∨
      (processHeaderView header v).1 ≠ .beginRecord ∧
        (processHeaderView header v).2.req.isBeginProcessed = false :=
  (headerStep header v).unbegun h

/-- `advance` ends with `begun` exactly where a request has begun. -/
theorem advance_unbegun {v : View} (h : v.req.isBeginProcessed = false) :
    (advance v).1 = .begun ∧ (advance v).2.req.isBeginProcessed = true ∧
        (advance v).2.req.requestId < 65536 ∨
      (advance v).1 ≠ .begun ∧ (advance v).2.req.isBeginProcessed = false := by
  refine advance_rule (I := fun w => w.req.isBeginProcessed = false)
    (P := fun s w => s = .begun ∧ w.req.isBeginProcessed = true ∧ w.req.requestId < 65536 ∨
      s ≠ .begun ∧ w.req.isBeginProcessed = false) h
    (fun _ _ hv hw => (congrArg _ hw.2.2.2.2.1).trans hv) (fun _ hw _ => .inr ⟨by simp, hw⟩)
    (fun _ _ hv _ hr _ _ => .inr ⟨by simp, (congrArg _ hr).trans hv⟩)
    (fun _ hw _ => .inr ⟨by simp, hw⟩) ?_
  intro w header hw _ _
  have hcases := processHeaderView_unbegun header (v := w.enterRecord) hw
  unfold StatusRule
  rcases hcases with ⟨hst, hbegun, hid⟩ | ⟨hst, hreq⟩
  · rw [hst]
    refine .inl ⟨rfl, hbegun, ?_⟩
    show (processHeaderView header w.enterRecord).2.req.requestId < 65536
    rw [hid]
    exact header.requestId_lt
  · split
    · split
      · exact .inr ⟨by simp, hreq⟩
      · exact hreq
    · exact hreq
    · next h' => exact absurd h' hst
    · exact hreq
    · exact .inr ⟨by simp, hreq⟩

/-! ### The record that begins a request -/

/-- The stages stop, or hand on a view that is further down the same input. -/
theorem onInput_cases (h : View → Stop × View) (v : View) :
    (∃ w, onInput h v = (.ready, w) ∧ w = v) ∨ (∃ w : View, onInput h v = (.closed, w.readFails)) ∨
      ∃ n skip, onInput h v = h { v with
        input := v.input.drop n, contentLen := 0, paddingLen := 0, skip := skip } := by
  have hpad : ∀ u : View, u.contentLen = 0 →
      (∃ w : View, onPadding h u = (.closed, w.readFails)) ∨
        onPadding h u = h { u with
          input := u.input.drop u.paddingLen, contentLen := 0, paddingLen := 0 } := by
    intro u hc
    rw [onPadding]
    split
    · exact .inl ⟨_, rfl⟩
    · refine .inr ?_
      rw [← hc]
  rw [onInput]
  split
  · exact .inr (.inl ⟨_, rfl⟩)
  · rw [onContent]
    split
    · next hc => exact .inr ((hpad v hc).imp_right fun h => ⟨_, v.skip, h⟩)
    · split
      · exact .inl ⟨v, rfl, rfl⟩
      · split
        · exact .inr (.inl ⟨_, rfl⟩)
        · refine .inr ((hpad _ rfl).imp_right fun h => ⟨v.contentLen + v.paddingLen, false, ?_⟩)
          rw [h, List.drop_drop]

theorem advanceEor_suffix (v : View) : (advanceEor v).2.input <:+ v.input := by
  rw [advanceEor]
  rcases onInput_cases (fun v => (.closed, { v with closed := true })) v with
    ⟨w, hready, rfl⟩ | ⟨w, hfail⟩ | ⟨n, skip, hend⟩
  · rw [hready]
  · rw [hfail]
    exact List.nil_suffix
  · rw [hend]
    exact List.drop_suffix n v.input

theorem eorContent_suffix (v : View) : (eorContent v).2.input <:+ v.input := by
  have h := advanceEor_suffix v
  rw [eorContent]
  split
  · next w hw =>
      rw [hw] at h
      exact ((advanceEor_suffix _).trans (List.drop_suffix _ _)).trans h
  · next hw =>
      rw [hw] at h
      exact h

theorem readQuery_suffix (v : View) : (readQuery v).2.input <:+ v.input := by
  rw [readQuery]
  split
  · exact eorContent_suffix v
  · exact eorContent_suffix v
  · exact (List.drop_suffix _ _).trans (advanceEor_suffix v)

/-- The body that is read is the one behind the header. -/
theorem eorContent_body {v : View} (hc : v.contentLen = 8) (h : (eorContent v).1.length = 8) :
    8 ≤ v.input.length ∧ (eorContent v).1 = v.input.take 8 ∧ (advanceEor v).2 = v := by
  have hready : v.Ready := by
    by_contra hready
    rw [eorContent_of_not_ready hready] at h
    cases h
  have hbody : (eorContent v).1 = v.input.take (min 8 v.input.length) := by
    rw [eorContent_ready hready, View.present, hc]
  have hle : 8 ≤ v.input.length := by
    rw [hbody, List.length_take] at h
    omega
  refine ⟨hle, ?_, ?_⟩
  · rw [hbody, Nat.min_eq_left hle]
  · rw [advanceEor_ready hready]

/-- A header leaves the input behind it, and where it begins a request its body. -/
theorem HeaderStep.suffix {header : Header} {v : View} {x : Status × View}
    (h : HeaderStep header v x) : x.2.input <:+ v.input := by
  cases h with
  | otherVersion => exact List.suffix_refl _
  | malformed => exact List.suffix_refl _
  | multiplexed =>
      rw [sendReplyView_input]
      exact List.suffix_refl _
  | cutBody hu =>
      subst hu
      exact eorContent_suffix ((v.startRecord header).setRequestId header.requestId)
  | begins hu =>
      subst hu
      exact (List.drop_suffix _ _).trans
        (advanceEor_suffix ((v.startRecord header).setRequestId header.requestId))
  | badQuery => exact readQuery_suffix (v.startRecord header)
  | query hq =>
      subst hq
      rw [sendReplyView_input]
      exact readQuery_suffix (v.startRecord header)
  | unknown =>
      rw [sendReplyView_input]
      exact List.suffix_refl _
  | foreign => exact List.suffix_refl _
  | otherType => exact List.suffix_refl _
  | own => exact List.suffix_refl _

theorem processHeaderView_suffix (header : Header) (v : View) :
    (processHeaderView header v).2.input <:+ v.input :=
  (headerStep header v).suffix

/-- A record that begins a request, with its body. -/
structure BeginsWith (header : Header) (body : List UInt8) (q' : ReqData) : Prop where
  version : header.version = fcgiVersion1
  type : header.type.toNat = fcgiBeginRequest
  requestId : header.requestId ≠ fcgiNullRequestId
  contentLength : header.contentLength = 8
  length : body.length = 8
  req : ∃ q : ReqData, q' = { q with requestId := header.requestId }.begin body

theorem HeaderStep.beginsWith {header : Header} {v : View} {x : Status × View}
    (hstep : HeaderStep header v x) (h : x.1 = .beginRecord) :
    ∃ body, v.input = body ++ x.2.input ∧ BeginsWith header body x.2.req := by
  cases hstep with
  | otherVersion => cases h
  | malformed => cases h
  | multiplexed => exact absurd h (sendReplyView_ne_begin _ (by simp))
  | cutBody => cases h
  | @begins u hu hversion htype hid hcontent _ hlen =>
      subst hu
      obtain ⟨hle, hbody, hadv⟩ := eorContent_body
        (v := (v.startRecord header).setRequestId header.requestId) hcontent hlen
      rw [hbody, hadv]
      refine ⟨v.input.take 8, (List.take_append_drop 8 v.input).symm, hversion, htype, hid, hcontent,
        ?_, v.req, rfl⟩
      have hle : 8 ≤ v.input.length := hle
      rw [List.length_take]
      omega
  | badQuery => cases h
  | query => exact absurd h (sendReplyView_ne_begin _ (by simp))
  | unknown => exact absurd h (sendReplyView_ne_begin _ (by simp))
  | foreign => cases h
  | otherType => cases h
  | own => cases h

theorem processHeaderView_beginsWith (header : Header) {v : View}
    (h : (processHeaderView header v).1 = .beginRecord) :
    ∃ body, v.input = body ++ (processHeaderView header v).2.input ∧
      BeginsWith header body (processHeaderView header v).2.req :=
  (headerStep header v).beginsWith h

/-- **The record that begins the request** ends where the reader is when it has begun. -/
theorem advance_beginsWith {v u : View} (hawait : v.req.isBeginProcessed = false)
    (h : advance v = (.begun, u)) :
    ∃ pre header body, v.input = pre ++ (header.bytes ++ body) ++ u.input ∧
      BeginsWith header body u.req := by
  induction hn : v.input.length using Nat.strong_induction_on generalizing v with
  | _ n ih =>
      rw [advance_eq] at h
      rcases onInput_cases (onHeader advance) v with ⟨w, hready, -⟩ | ⟨w, hfail⟩ | ⟨k, skip, hend⟩
      · rw [hready] at h
        cases h
      · rw [hfail] at h
        cases h
      · rw [hend] at h
        generalize hw : ({ v with
          input := v.input.drop k, contentLen := 0, paddingLen := 0, skip := skip } : View) = w at h
        have hinput : w.input <:+ v.input := by
          rw [← hw]
          exact List.drop_suffix k v.input
        have hawait' : w.req.isBeginProcessed = false := by rwa [← hw]
        obtain ⟨front, hfront⟩ := hinput
        rw [onHeader] at h
        split at h
        · cases h
        · split at h
          · cases h
          · next hlen =>
              have hheader : w.input =
                  (Header.ofBytes (w.input.take 8)).bytes ++ w.enterRecord.input := by
                rw [Header.bytes_ofBytes (by rw [List.length_take]; omega), View.enterRecord,
                  List.take_append_drop]
              have hle := processHeaderView_enterRecord_le (Header.ofBytes (w.input.take 8)) hlen
              generalize Header.ofBytes (w.input.take 8) = header at *
              have hbegins := processHeaderView_beginsWith header (v := w.enterRecord)
              have hcases := processHeaderView_unbegun header (v := w.enterRecord) hawait'
              have hsuffix := processHeaderView_suffix header w.enterRecord
              generalize processHeaderView header w.enterRecord = r at *
              obtain ⟨status, t⟩ := r
              -- behind any other header the loop goes on, with the rest of the same input
              have hloop : ∀ t' : View, t'.input = t.input → t'.req = t.req →
                  status ≠ .beginRecord → advance t' = (.begun, u) →
                  ∃ pre header body, v.input = pre ++ (header.bytes ++ body) ++ u.input ∧
                    BeginsWith header body u.req := by
                intro t' hinput hreq hne hadv
                have hnot : t'.req.isBeginProcessed = false := by
                  rw [hreq]
                  exact hcases.elim (fun hbegun => absurd hbegun.1 hne) And.right
                have hlt : t'.input.length < n := by
                  have hv := congrArg List.length hfront
                  rw [List.length_append] at hv
                  simp only at hle
                  rw [hinput]
                  omega
                obtain ⟨pre, header', body, hrest, hbegins⟩ := ih _ hlt hnot hadv rfl
                obtain ⟨skipped, hskipped⟩ := hsuffix
                refine ⟨front ++ (header.bytes ++ skipped) ++ pre, header', body, ?_, hbegins⟩
                rw [← hfront, hheader, ← hskipped, ← hinput, hrest]
                simp only [List.append_assoc]
              cases status with
              | streamRecord =>
                  simp only [onStatusView] at h
                  split at h
                  · cases h
                  · exact hloop t.leaveRecord rfl rfl (by simp) h
              | skip => exact hloop { t.leaveRecord with skip := true } rfl rfl (by simp) h
              | mgmtRecord => exact hloop t.leaveRecord rfl rfl (by simp) h
              | error e => cases h
              | beginRecord =>
                  obtain ⟨body, hbody, hbegins⟩ := hbegins rfl
                  obtain rfl := congrArg Prod.snd h
                  refine ⟨front, header, body, ?_, hbegins⟩
                  rw [← hfront, hheader, hbody, List.append_assoc, List.append_assoc]
                  rfl

/-! ### Accepting -/

/-- A view from which a request is accepted, with this role and these pairs; the
`FCGI_PARAMS` stream ends in view `e`. -/
structure Accepts (v : View) (role : List UInt8) (ps : List NameValue) (e : View) : Prop where
  begun : (advance v).1 = .begun
  role_eq : roleStr (advance v).2.req.role = some role
  params : ∃ bs, Delivers ((advance v).2.setReaderType fcgiParams) bs e ∧ parsePairs bs = (ps, none)

/-- **Reading the role and the environment.** -/
theorem readRequest_spec {c : Chan} (h : c.Fresh) :
    ∃ res c', readRequest c = some (res, c') ∧ c'.Buffered ∧
      ((∃ params role ps, res = some params ∧ params.entries = role :: ps.map NameValue.entry ∧
          Accepts c.view role ps c'.view ∧ c'.Closed) ∨
        res = none ∧ ∀ role ps e, ¬Accepts c.view role ps e) := by
  obtain ⟨c₁, hfill, hview, hout⟩ := fillSpec_fillBuffProc c h.toOpen h.rdNext_eq h.eorStop
  have hreq : c₁.req = (advance c.view).2.req := congrArg View.req hview
  have hfresh : c.view.req.isBeginProcessed = false := h.isBeginProcessed
  unfold readRequest
  simp only [hfill, hreq]
  rcases advance_unbegun hfresh with ⟨hst, hbegun, -⟩ | ⟨hst, hbegun⟩
  · rw [if_neg (by simp [hbegun])]
    cases hrole : roleStr (advance c.view).2.req.role with
    | none =>
        refine ⟨none, c₁, rfl, hout.buffered, .inr ⟨rfl, fun role ps e ha => ?_⟩⟩
        rw [ha.role_eq] at hrole
        cases hrole
    | some role =>
        let c₂ := c₁.setReaderType fcgiParams
        have hopen : c₂.Open := open_setReaderType hout.buffered fcgiParams
        have hview₂ : c₂.view = (advance c.view).2.setReaderType fcgiParams := by
          rw [view_setReaderType, hview]
        have hbegun₂ : c₂.view.req.isBeginProcessed = true := by
          rw [hview₂]
          exact hbegun
        obtain ⟨bs, e, hd⟩ := delivers_total hbegun₂
        have hf : FillSpec fillBuffProc c₂.stream.eorStop := fillSpec_fillBuffProc
        obtain ⟨⟨rc, params, c₃⟩, hread, hparams⟩ :=
          readParams_spec hf hopen hd (putParam (newParams 30) role)
        have hclosed := hparams.closed
        have hentries := hparams.entries
        have hres := hparams.result
        rw [hview₂] at hd
        simp only [readEnvironment]
        rw [hread]
        rw [entries_putParam, entries_newParams, List.nil_append] at hentries
        refine ⟨_, c₃, rfl, hclosed.toBuffered, ?_⟩
        cases hbad : (parsePairs bs).2 with
        | none =>
            simp only [hbad] at hres
            obtain ⟨rfl, hlast⟩ := hres
            refine .inl ⟨params, role, (parsePairs bs).1, by simp, hentries, ?_, hclosed⟩
            refine ⟨hst, hrole, bs, ?_, Prod.ext rfl hbad⟩
            rw [hlast]
            exact hd
        | some bad =>
            refine .inr ⟨?_, ?_⟩
            · have hneg : rc = -1 := by
                simp only [hbad] at hres
                cases bad with
                | truncated => exact hres.1
                | tooLong rest => exact hres.1
              simp [hneg]
            · rintro role' ps e' ⟨-, -, bs', hd', hpairs⟩
              obtain ⟨rfl, -⟩ := hd.unique hd'
              rw [hpairs] at hbad
              cases hbad
  · rw [if_pos hbegun]
    exact ⟨none, c₁, rfl, hout.buffered, .inr ⟨rfl, fun role ps e ha => hst ha.begun⟩⟩

/-- A connection on which `FCGX_Accept_r` may read: the one that was kept open, or
one that is waiting. -/
def Request.Offers (r : Request) (pending : List Connection) (r₁ : Request) : Prop :=
  ∃ r₀, fcgxFinishR r = some r₀ ∧
    (r₁ = r₀ ∧ r₀.isOpen = true ∨ ∃ os, Except.ok os ∈ pending ∧ r₁.os = os ∧ r₁.isOpen = true)

theorem acceptConnection_ok {r r' : Request} (h : acceptConnection r = some (true, r')) :
    ∃ params c, readRequest (openReader r) = some (some params, c) ∧
      r' = buildRequest r c params := by
  unfold acceptConnection at h
  split at h
  · cases h
  · next params c hread =>
      cases h
      exact ⟨params, c, hread, rfl⟩
  · cases h

/-- Where the loop ends with 0, it has taken a connection and accepted the request there. -/
theorem LoopEnds.ok {pending rest : List Connection} {r r' : Request} {rc : ℤ}
    (h : LoopEnds pending r rc r' rest) (hrc : rc = 0) :
    rest.length < pending.length ∧ ∃ os r₁, Except.ok os ∈ pending ∧ r₁.os = os ∧
      r₁.isOpen = true ∧ acceptConnection r₁ = some (true, r') := by
  induction h with
  | failed => split at hrc <;> omega
  | accepted hacc => exact ⟨Nat.lt_succ_self _, _, _, List.mem_cons_self .., rfl, rfl, hacc⟩
  | givenUp _ _ ih =>
      obtain ⟨hlt, os, r₁, hmem, hrest⟩ := ih hrc
      exact ⟨Nat.lt_succ_of_lt hlt, os, r₁, List.mem_cons_of_mem _ hmem, hrest⟩

/-- **What a successful `FCGX_Accept_r` has done**: it has read the request from a
connection that was offered. -/
theorem fcgxAcceptR_ok {lib : Bool} {pending rest : List Connection} {r r' : Request}
    (h : fcgxAcceptR lib pending r = some (0, r', rest)) :
    ∃ r₁, r.Offers pending r₁ ∧ acceptConnection r₁ = some (true, r') := by
  generalize hrc : (0 : ℤ) = rc at h
  cases acceptEnds_fcgxAcceptR h with
  | uninitialized => cases hrc
  | kept hfin hopen hacc => exact ⟨_, ⟨_, hfin, .inl ⟨rfl, hopen⟩⟩, hacc⟩
  | fresh hfin _ hloop =>
      obtain ⟨-, os, r₁, hmem, hos, hopen, hacc⟩ := hloop.ok hrc.symm
      exact ⟨r₁, ⟨_, hfin, .inr ⟨os, hmem, hos, hopen⟩⟩, hacc⟩
  | givenUp hfin _ _ hloop =>
      obtain ⟨-, os, r₁, hmem, hos, hopen, hacc⟩ := hloop.ok hrc.symm
      exact ⟨r₁, ⟨_, hfin, .inr ⟨os, hmem, hos, hopen⟩⟩, hacc⟩

/-- The id of an accepted request fits a header. -/
theorem acceptConnection_requestId {r r' : Request} (h : acceptConnection r = some (true, r')) :
    r'.req.requestId < 65536 := by
  obtain ⟨params, c, hread, rfl⟩ := acceptConnection_ok h
  have hfresh := fresh_openReader r
  obtain ⟨res, c', hread', -, ⟨params', role, ps, rfl, -, ha, -⟩ | ⟨rfl, -⟩⟩ :=
    readRequest_spec hfresh
  · rw [hread] at hread'
    cases hread'
    obtain ⟨bs, hd, -⟩ := ha.params
    rcases advance_unbegun (v := (openReader r).view) hfresh.isBeginProcessed with
      ⟨-, hbegun, hid⟩ | ⟨hst, -⟩
    · have hreq : c.req = (advance (openReader r).view).2.req := hd.req_eq hbegun
      show c.req.requestId < 65536
      rw [hreq]
      exact hid
    · exact absurd ha.begun hst
  · rw [hread] at hread'
    cases hread'

/-- The input stream of an accepted request is at the start of `FCGI_STDIN`. -/
structure Request.AtStdin (r : Request) (s : Stream) : Prop extends (r.chan s).AtBoundary where
  type : s.type = fcgiStdin
  isBeginProcessed : r.req.isBeginProcessed = true
  requestId : r.req.requestId ≠ fcgiNullRequestId

theorem acceptConnection_atStdin {r r' : Request} {s : Stream}
    (h : acceptConnection r = some (true, r')) (hs : r'.inStream = some s) : r'.AtStdin s := by
  obtain ⟨params, c, hread, rfl⟩ := acceptConnection_ok h
  obtain rfl := Option.some.inj hs
  have hfresh := fresh_openReader r
  obtain ⟨res, c', hread', hbuff, hres⟩ := readRequest_spec hfresh
  rw [hread] at hread'
  obtain ⟨rfl, rfl⟩ := Prod.mk.inj (Option.some.inj hread')
  rcases hres with ⟨-, role, ps, -, -, ha, -⟩ | ⟨hnone, -⟩
  · obtain ⟨bs, hd, -⟩ := ha.params
    have hbegun : advance (openReader r).view = (.begun, (advance (openReader r).view).2) :=
      Prod.ext ha.begun rfl
    obtain ⟨-, header, body, -, hbegins⟩ := advance_beginsWith hfresh.isBeginProcessed hbegun
    obtain ⟨q, hq⟩ := hbegins.req
    have hreq : c.req = (advance (openReader r).view).2.req :=
      hd.req_eq (congrArg ReqData.isBeginProcessed hq)
    have hq' : c.req = ({ q with requestId := header.requestId } : ReqData).begin body := hreq.trans hq
    refine ⟨?_, rfl, ?_, ?_⟩
    · have hat := atBoundary_setReaderType hbuff fcgiStdin
      exact { hat with }
    · exact congrArg ReqData.isBeginProcessed hq'
    · intro hid
      exact hbegins.requestId ((congrArg ReqData.requestId hq').symm.trans hid)
  · cases hnone

/-- A connection on which a request without parameters is sent. -/
def plainRequest : List UInt8 :=
  [1, 1, 0, 1, 0, 8, 0, 0, 0, 1, 0, 0, 0, 0, 0, 0, 1, 4, 0, 1, 0, 0, 0, 0]

/-- A request for `FCGX_Accept_r`. -/
def idleRequest : Request := fcgxInitRequest (.sending [] [] []) 0 0 0

end FastCgi
