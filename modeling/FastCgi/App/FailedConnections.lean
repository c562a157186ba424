import FastCgi.App.Session
import FastCgi.App.Unseen

/-!
What a failed connection leaves behind.

`FCGX_Accept_r` gives a connection up where a read fails, the protocol is
broken, the role is not served or the parameters are bad, and goes on with
the next one. `FCGX_Free` takes the streams and the parameters away; the
id, the role and the flags of the request stay as the failed connection has
set them. They are looked at when a header is interpreted, and the record
that begins a request overwrites them first
(`fcgxAcceptR_afterFailed`) — if it is a good one: where it is malformed,
the connection fails in turn, and what an earlier one has left is still
there (`fcgxAcceptR_malformedBegin`).
-/

namespace FastCgi

open ByteMem

/-! ### The record that begins a request -/

/-- The id, the role and the flags of a request are overwritten when it begins. -/
theorem ReqData.begin_congr {q q' : ReqData} (happ : q'.appStatus = q.appStatus)
    (hwriters : q'.nWriters = q.nWriters) (id : ℕ) (body : List UInt8) :
    ({ q' with requestId := id } : ReqData).begin body =
      ({ q with requestId := id } : ReqData).begin body := by
  simp only [ReqData.begin, happ, hwriters]

section Begins

variable {r : Record} {c c₁ d : Chan} {post : List UInt8}

/-- Reading a record to its end leaves the request data. -/
theorem getStr_eor_req {n : ℤ} {bs : List UInt8} {k : ℕ} (heor : c.stream.eorStop = true)
    (hget : fcgxGetStr (fillBuffProcAt k) n c = some (bs, d)) : d.req = c.req := by
  have hsame := (ignores_eor (f := fun _ => c.req) (p := id) k).getStr heor n
  rw [show c.alter (fun _ => c.req) id = c from rfl, hget] at hsame
  have hd : d = d.alter (fun _ => c.req) id := congrArg Prod.snd (Option.some.inj hsame)
  rw [hd]

theorem firstHeader_req {header : Header} (h : firstHeader c = some (header, d)) :
    d.req = c.req := by
  have hsame := firstHeader_alter (f := fun _ => c.req) (p := id) c
  rw [show c.alter (fun _ => c.req) id = c from rfl, h] at hsame
  have hd : d = d.alter (fun _ => c.req) id := congrArg Prod.snd (Option.some.inj hsame)
  rw [hd]

/-- `FillBuffProc` in front of a record that begins a request: it reads the body and
returns. -/
theorem fillBuffProc_begin {body : List UInt8} (hr : r.Begins)
    (hheader : firstHeader c = some (r.header, c₁)) (hawait : c.req.isBeginProcessed = false)
    (hget : fcgxGetStr (fillBuffProcAt 1) 8
      ((c₁.startRecord r.header).setRequestId r.requestId.toNat) = some (body, d))
    (hlen : body.length = 8) :
    fillBuffProc c = some (leaveRecord { d with req := d.req.begin body }) := by
  obtain ⟨fuel, hrun⟩ := run_firstHeader (fillBuffProcAt 1) (Option.join_eq_some_iff.mp hheader)
  have hreq := firstHeader_req hheader
  have hcontent : (c₁.startRecord r.header).stream.contentLen = 8 :=
    r.header_contentLength.trans hr.length_content
  have hprocess : processHeader (fillBuffProcAt 1) r.header c₁ =
      some (.beginRecord, { d with req := d.req.begin body }) := by
    rw [processHeader, if_neg (not_not_intro r.header_version), dispatchHeader,
      if_pos (r.header_type ▸ hr.type_eq), r.header_requestId, processBeginRecord,
      if_neg (by rw [hcontent]; simp [hr.id_ne_null]),
      if_neg (by rw [show (c₁.startRecord r.header).req = c.req from hreq]; simp [hawait]),
      readBegin, hget]
    simp only
    rw [if_neg (not_not_intro hlen)]
  refine hrun.trans ?_
  rw [hprocess]
  rfl

/-- **A record that begins a request overwrites** what has been left of an earlier one. -/
theorem fillBuffProc_overwrites (hb : c.Between) (hv : c.view.Boundary)
    (hskip : c.stream.skip = false) (hawait : c.req.isBeginProcessed = false) (hr : r.Begins)
    (hwire : c.unread = r.encode ++ post) {q : ReqData} (happ : q.appStatus = c.req.appStatus)
    (hwriters : q.nWriters = c.req.nWriters) (hq : q.isBeginProcessed = false) :
    fillBuffProc { c with req := q } = fillBuffProc c := by
  obtain ⟨c₁, hheader, hstart, hentered, -⟩ := enters_record hb hv hwire
  obtain ⟨c₂, hc₂⟩ : ∃ c₂, c₂ = (c₁.startRecord r.header).setRequestId r.requestId.toNat :=
    ⟨_, rfl⟩
  have heor : c₂.stream.eorStop = true := by
    rw [hc₂]
    exact congrArg View.eorStop hentered
  have hview : c₂.view = (c.view.setRequestId r.requestId.toNat).entered r post := by
    rw [hc₂]
    exact congrArg (fun v => View.setRequestId v r.requestId.toNat) hentered
  have hcontent : c₂.stream.contentLen = 8 := by
    rw [hc₂]
    exact r.header_contentLength.trans hr.length_content
  -- the body is there, and it is read
  have hbetween : c₂.Between := hc₂ ▸ hstart.setRequestId _
  obtain ⟨⟨status, d'⟩, hread, hproc⟩ :=
    readBegin_spec (fillSpec_eorStop 0) hbetween heor hcontent
  have hbody : (eorContent c₂.view).1.length = 8 := by
    rw [hview, eorContent_begins hskip hr, hr.length_content]
  have hstatus : status = .beginRecord := by
    have heq := hproc.status_eq
    rwa [readBeginView, if_neg (not_not_intro hbody)] at heq
  obtain ⟨body, d, hget, hlen⟩ : ∃ body d,
      fcgxGetStr (fillBuffProcAt 1) 8 c₂ = some (body, d) ∧ body.length = 8 := by
    rw [readBegin] at hread
    split at hread
    · cases hread
    · next body d hget =>
        split at hread
        · obtain rfl : Status.error fcgxProtocolError = status :=
            congrArg Prod.fst (Option.some.inj hread)
          cases hstatus
        · next hlen => exact ⟨body, d, hget, Decidable.not_not.mp hlen⟩
  -- the other stream takes the same steps, with its own request data
  have hheader' : firstHeader { c with req := q } = some (r.header, { c₁ with req := q }) := by
    have hsame := firstHeader_alter (f := fun _ => q) (p := id) c
    rwa [hheader] at hsame
  have hget' : fcgxGetStr (fillBuffProcAt 1) 8
      ((Chan.startRecord { c₁ with req := q } r.header).setRequestId r.requestId.toNat) =
        some (body, { d with req := { q with requestId := r.requestId.toNat } }) := by
    have hsame := (ignores_eor (f := fun _ => { q with requestId := r.requestId.toNat })
      (p := id) 1).getStr heor 8
    rw [hget, hc₂] at hsame
    exact hsame
  have hreq : d.req = { c.req with requestId := r.requestId.toNat } := by
    have hreq₁ := firstHeader_req hheader
    rw [getStr_eor_req heor hget, hc₂]
    show ({ c₁.req with requestId := r.requestId.toNat } : ReqData) = _
    rw [hreq₁]
  rw [fillBuffProc_begin hr hheader' hq hget' hlen,
    fillBuffProc_begin hr hheader hawait (hc₂ ▸ hget) hlen, hreq]
  dsimp only
  rw [ReqData.begin_congr happ hwriters]

end Begins

/-! ### What a failed connection leaves -/

/-- The exit status and the number of writers. -/
def Chan.SameCounts (c c' : Chan) : Prop :=
  c'.req.appStatus = c.req.appStatus ∧ c'.req.nWriters = c.req.nWriters

theorem fillFrame_sameCounts : FillFrame Chan.SameCounts where
  refl _ := ⟨rfl, rfl⟩
  trans h h' := ⟨h'.1.trans h.1, h'.2.trans h.2⟩
  stream _ _ _ _ _ := ⟨rfl, rfl⟩
  os _ _ := ⟨rfl, rfl⟩
  setRequestId _ _ _ := ⟨rfl, rfl⟩
  begins _ _ _ _ h := h

theorem readRequest_sameCounts {c c' : Chan} {x : Option Params}
    (h : readRequest c = some (x, c')) : c.SameCounts c' :=
  fillFrame_sameCounts.readFrame.readRequest (fun _ _ => ⟨rfl, rfl⟩) h

/-- The two differ at most in what a failed connection changes: its descriptor, the streams and
parameters, which are gone, and what has been read of the begun request. -/
structure Request.SameButConnection (r r' : Request) : Prop where
  appStatus : r'.req.appStatus = r.req.appStatus
  nWriters : r'.req.nWriters = r.req.nWriters
  envp : r'.envp = r.envp
  mBuffs : r'.mBuffIn = r.mBuffIn ∧ r'.mBuffOut = r.mBuffOut ∧ r'.mBuffErr = r.mBuffErr

theorem Request.SameButConnection.refl (r : Request) : r.SameButConnection r :=
  ⟨rfl, rfl, rfl, rfl, rfl, rfl⟩

theorem Request.SameButConnection.trans {r r' r'' : Request} (h : r.SameButConnection r')
    (h' : r'.SameButConnection r'') : r.SameButConnection r'' :=
  ⟨h'.appStatus.trans h.appStatus, h'.nWriters.trans h.nWriters, h'.envp.trans h.envp,
    h'.mBuffs.1.trans h.mBuffs.1, h'.mBuffs.2.1.trans h.mBuffs.2.1,
    h'.mBuffs.2.2.trans h.mBuffs.2.2⟩

theorem acceptConnection_failed {r r' : Request} (h : acceptConnection r = some (false, r')) :
    r.SameButConnection r' := by
  rw [acceptConnection] at h
  split at h
  · cases h
  · cases h
  · next c hread =>
      have hcounts := readRequest_sameCounts hread
      cases h
      exact ⟨hcounts.1, hcounts.2, rfl, rfl, rfl, rfl⟩

/-- The connections in a row that `FCGX_Accept_r` gives up, from a request that is finished. -/
inductive GivesUp : List Os → Request → Request → Prop
  | nil {r : Request} : GivesUp [] r r
  | cons {os : Os} {failed : List Os} {r r₁ r' : Request}
      (hacc : acceptConnection { r with os := os, isOpen := true } = some (false, r₁))
      (hrest : GivesUp failed r₁ r') : GivesUp (os :: failed) r r'

theorem GivesUp.same {failed : List Os} {r r' : Request} (h : GivesUp failed r r') :
    r.SameButConnection r' := by
  induction h with
  | nil => exact .refl _
  | cons hacc _ ih =>
      have hone := acceptConnection_failed hacc
      exact .trans ⟨hone.appStatus, hone.nWriters, hone.envp, hone.mBuffs⟩ ih

theorem GivesUp.acceptLoop {failed : List Os} {r r' : Request} (h : GivesUp failed r r')
    (pending : List Connection) :
    acceptLoop (failed.map .ok ++ pending) r = acceptLoop pending r' := by
  induction h with
  | nil => rfl
  | cons hacc _ ih =>
      rw [List.map_cons, List.cons_append, FastCgi.acceptLoop, hacc]
      exact ih

/-! ### The next connection -/

/-- The first record on the connection begins a request. -/
def Os.Begins (os : Os) : Prop := ∃ r post, r.Begins ∧ os.incoming = Record.encode r ++ post

/-- A connection whose first record begins a request is treated alike, whatever has been there
before it. -/
theorem acceptConnection_congr {r r' : Request} (h : r.SameButConnection r') {os : Os}
    (hos : os.Begins) :
    acceptConnection { r' with os := os, isOpen := true } =
      acceptConnection { r with os := os, isOpen := true } := by
  obtain ⟨first, post, hbegins, hwire⟩ := hos
  obtain ⟨happ, hwriters, henvp, hin, hout, herr⟩ := h
  obtain ⟨c, hc⟩ : ∃ c, c = openReader { r with os := os, isOpen := true } := ⟨_, rfl⟩
  have hfresh : c.Fresh := hc ▸ fresh_openReader _
  have hunread : c.unread = first.encode ++ post := by
    rw [hc, ← hwire]
    simp [Chan.unread, openReader, newStream]
  have hopen : openReader { r' with os := os, isOpen := true } =
      { c with req := { r'.req with isBeginProcessed := false } } := by
    rw [hc, openReader, openReader]
    dsimp only
    rw [hin]
  have hfill : fillBuffProc { c with req := { r'.req with isBeginProcessed := false } } =
      fillBuffProc c := by
    refine fillBuffProc_overwrites ⟨hfresh.toBuffered, hfresh.isClosed, hfresh.rdNext_eq⟩ ?_ ?_
      hfresh.isBeginProcessed hbegins hunread ?_ ?_ rfl <;> rw [hc]
    · exact ⟨rfl, rfl, rfl, rfl⟩
    · rfl
    · exact happ
    · exact hwriters
  have hread : readRequest (openReader { r' with os := os, isOpen := true }) =
      readRequest (openReader { r with os := os, isOpen := true }) := by
    rw [hopen, ← hc, readRequest, readRequest, hfill]
  rw [acceptConnection, acceptConnection, hread]
  rcases readRequest (openReader { r with os := os, isOpen := true }) with _ | ⟨_ | params, d⟩
  · rfl
  · simp only [fcgxFree, henvp, hin, hout, herr]
  · simp only [buildRequest, hin, hout, herr]

/-! ### `FCGX_Accept_r` -/

/-- The request as it would be without its connection. -/
def Request.disconnected (r : Request) : Request := { r with isOpen := false }

theorem fcgxFCloseOpt_disconnected (r : Request) (s : Option Stream) :
    fcgxFCloseOpt r.disconnected s =
      (fcgxFCloseOpt r s).map fun x => (x.1, x.2.1, x.2.2.disconnected) := by
  cases s with
  | none => rfl
  | some s =>
      simp only [fcgxFCloseOpt, Request.chan, Request.disconnected]
      rcases fcgxFClose { stream := s, req := r.req, os := r.os } with _ | ⟨rc, c⟩ <;> rfl

theorem closeErr_disconnected (r : Request) :
    closeErr r.disconnected = (closeErr r).map fun x => (x.1, x.2.disconnected) := by
  rw [closeErr, closeErr, fcgxFCloseOpt_disconnected, show r.disconnected.err = r.err from rfl]
  rcases fcgxFCloseOpt r r.err with _ | ⟨rc, s, r'⟩ <;> rfl

theorem closeOut_disconnected (r : Request) :
    closeOut r.disconnected = (closeOut r).map fun x => (x.1, x.2.disconnected) := by
  rw [closeOut, closeOut, fcgxFCloseOpt_disconnected, show r.disconnected.out = r.out from rfl]
  rcases fcgxFCloseOpt r r.out with _ | ⟨rc, s, r'⟩ <;> rfl

theorem fcgxFree_disconnected (r : Request) (close : Bool) :
    fcgxFree r.disconnected close = (fcgxFree r close).disconnected := by
  simp only [fcgxFree, Request.disconnected, ite_self]

theorem fcgxFinishR_disconnected {r r₀ : Request} (h : fcgxFinishR r = some r₀) :
    fcgxFinishR r.disconnected = some r₀.disconnected := by
  rw [fcgxFinishR] at h ⊢
  rw [show r.disconnected.inStream = r.inStream from rfl,
    show r.disconnected.req = r.req from rfl, closeErr_disconnected]
  split at h
  · cases h
    exact congrArg some (fcgxFree_disconnected r _)
  · split at h
    · cases h
    · next herr =>
        split at h
        · cases h
        · next hout =>
            cases h
            simp only [herr, Option.map_some, closeOut_disconnected, hout, fcgxFree_disconnected]

/-- The connection that was kept open, if there is one, is given up. -/
def GivesUpKept (r₀ r₁ : Request) : Prop :=
  if r₀.isOpen then acceptConnection r₀ = some (false, r₁) else r₁ = r₀

theorem GivesUpKept.same {r₀ r₁ : Request} (h : GivesUpKept r₀ r₁) : r₀.SameButConnection r₁ := by
  rw [GivesUpKept] at h
  split at h
  · exact acceptConnection_failed h
  · exact h ▸ .refl r₀

theorem fcgxAcceptR_kept {r r₀ r₁ : Request} (hfin : fcgxFinishR r = some r₀)
    (hkept : GivesUpKept r₀ r₁) (pending : List Connection) :
    fcgxAcceptR true pending r = acceptLoop pending r₁ := by
  rw [fcgxAcceptR, hfin]
  rw [GivesUpKept] at hkept
  cases hopen : r₀.isOpen with
  | false =>
      rw [hopen] at hkept
      obtain rfl : r₁ = r₀ := hkept
      simp [hopen]
  | true =>
      rw [hopen, if_pos rfl] at hkept
      simp [hopen, hkept]

/-- **Failed connections leave no trace.** Where a connection that was kept open, and then those
in `failed`, are given up, `FCGX_Accept_r` returns what it returns from the next one if that is
the first, and leaves the same request, if the first record on it begins a request. -/
theorem fcgxAcceptR_afterFailed {r r₀ r₁ r₂ : Request} {failed : List Os} {last : Os}
    (hfin : fcgxFinishR r = some r₀) (hkept : GivesUpKept r₀ r₁)
    (hfailed : GivesUp failed r₁ r₂) (hlast : last.Begins) (rest : List Connection) :
    fcgxAcceptR true (failed.map .ok ++ .ok last :: rest) r =
      fcgxAcceptR true (.ok last :: rest) r.disconnected := by
  have hsame := hkept.same.trans hfailed.same
  have hfirst : fcgxAcceptR true (.ok last :: rest) r.disconnected =
      acceptLoop (.ok last :: rest) r₀.disconnected :=
    fcgxAcceptR_kept (fcgxFinishR_disconnected hfin) rfl _
  rw [fcgxAcceptR_kept hfin hkept, hfailed.acceptLoop, hfirst, acceptLoop, acceptLoop,
    acceptConnection_congr hsame hlast]
  rfl

/-- A connection that begins request 5, whose role is not served, to be kept. -/
def unknownRole : Os := .sending [1, 1, 0, 5, 0, 8, 0, 0, 0, 9, 1, 0, 0, 0, 0, 0] [3] []

theorem givesUp_unknownRole : ∃ r, GivesUp [unknownRole] idleRequest r := by
  have hsome : (acceptConnection { idleRequest with os := unknownRole, isOpen := true }).map
      Prod.fst = some false := by decide +kernel
  obtain ⟨⟨ok, r⟩, hacc, rfl⟩ := Option.map_eq_some_iff.mp hsome
  exact ⟨r, .cons hacc .nil⟩

theorem fcgxAcceptR_afterFailed_unknownRole :
    (Os.sending plainRequest [] []).Begins ∧
      fcgxAcceptR true [.ok unknownRole, .ok (.sending plainRequest [] [])] idleRequest =
        fcgxAcceptR true [.ok (.sending plainRequest [] [])] idleRequest.disconnected := by
  have hbegins : (Os.sending plainRequest [] []).Begins :=
    ⟨⟨1, 1, [0, 1, 0, 0, 0, 0, 0, 0], [], 0, by decide, by decide⟩, [1, 4, 0, 1, 0, 0, 0, 0],
      ⟨by decide, by decide, rfl⟩, by decide⟩
  obtain ⟨r, hfailed⟩ := givesUp_unknownRole
  have hfin : fcgxFinishR idleRequest = some idleRequest := rfl
  exact ⟨hbegins, fcgxAcceptR_afterFailed hfin rfl hfailed hbegins []⟩

/-- A record of type `FCGI_BEGIN_REQUEST` with the request id 0. -/
def malformedBegin : Os := .sending [1, 1, 0, 0, 0, 8, 0, 0, 0, 1, 0, 0, 0, 0, 0, 0] [] []

/-- Behind it an error of `OS_Accept` ends the call; the id, the role and the flags of the
request are those that the first connection has left. -/
theorem fcgxAcceptR_malformedBegin :
    (∃ r, GivesUp [unknownRole] idleRequest r) ∧
      (fcgxAcceptR true [.ok unknownRole, .ok malformedBegin, .error 4] idleRequest).map
        (fun x => (x.1, x.2.1.req.requestId, x.2.1.req.role, x.2.1.req.keepConnection)) =
          some (-4, 5, 9, true) ∧
      (fcgxAcceptR true [.ok malformedBegin, .error 4] idleRequest).map
        (fun x => (x.1, x.2.1.req.requestId, x.2.1.req.role, x.2.1.req.keepConnection)) =
          some (-4, 0, 0, false) :=
  ⟨givesUp_unknownRole, by decide +kernel, by decide +kernel⟩

end FastCgi
