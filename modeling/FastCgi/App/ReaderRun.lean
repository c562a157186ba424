import FastCgi.App.RecordSteps

/-!
Whole runs of a reader: any sequence of `FCGX_GetChar` and `FCGX_GetStr`
calls.

A reader whose request has begun always comes to the end of its stream
(`delivers_total`), and a sequence of calls cuts what it delivers into
pieces (`performAll_spec`). So two readers that deliver the same bytes
and end with the same error cannot be told apart by reading
(`sameReads_of_delivers`).
-/

namespace FastCgi

/-! ### What reading keeps -/

theorem advanceEor_req (v : View) : (advanceEor v).2.req = v.req :=
  onInput_induct (fun _ w => w.req = v.req) (fun _ => rfl) (fun _ _ hr _ _ => hr)
    fun _ hw => hw.2.2.2.2.1

theorem eorContent_req (v : View) : (eorContent v).2.req = v.req := by
  have h := advanceEor_req v
  unfold eorContent
  split
  · next w hw =>
      rw [hw] at h
      exact (advanceEor_req (w.consume w.present)).trans h
  · next hw =>
      rw [hw] at h
      exact h

theorem readQuery_req (v : View) : (readQuery v).2.req = v.req := by
  unfold readQuery
  split
  · exact eorContent_req v
  · exact eorContent_req v
  · exact advanceEor_req v

theorem advanceEor_os (v : View) : (advanceEor v).2.os = v.os :=
  onInput_induct (fun _ w => w.os = v.os) (fun _ => rfl) (fun _ _ _ _ ho => ho)
    fun _ hw => hw.2.2.2.2.2.2.2

theorem eorContent_os (v : View) : (eorContent v).2.os = v.os := by
  by_cases hr : v.Ready
  · rw [eorContent_ready hr]
    exact advanceEor_os (v.consume v.present)
  · rw [eorContent_of_not_ready hr]
    exact advanceEor_os v

theorem readQuery_os (v : View) : (readQuery v).2.os = v.os := by
  rw [readQuery]
  rcases parsePairs (eorContent v).1 with ⟨ps, _ | _ | rest⟩
  · exact eorContent_os v
  · exact eorContent_os v
  · exact advanceEor_os v

theorem setError_errno_ne_zero {v : View} (e : ℤ) (h : v.errno ≠ 0) :
    (v.setError e).errno ≠ 0 := by
  rw [setError_errno_of_ne_zero e h]
  exact h

theorem advanceEor_errno {v : View} (h : v.errno ≠ 0) : (advanceEor v).2.errno ≠ 0 :=
  onInput_induct (fun _ w => w.errno ≠ 0) (fun _ => h) (fun w _ _ _ _ => readFails_errno_ne_zero w)
    fun w hw => by
      have : w.errno = v.errno := hw.2.2.2.2.2.2.1
      rw [this]
      exact h

theorem eorContent_errno {v : View} (h : v.errno ≠ 0) : (eorContent v).2.errno ≠ 0 := by
  have h' := advanceEor_errno h
  unfold eorContent
  split
  · next w hw =>
      rw [hw] at h'
      exact advanceEor_errno (v := w.consume w.present) h'
  · next hw =>
      rw [hw] at h'
      exact h'

/-- An error that is set before a query is read is still set after it. -/
theorem readQuery_errno {v : View} (h : v.errno ≠ 0) : (readQuery v).2.errno ≠ 0 := by
  unfold readQuery
  split
  · exact eorContent_errno h
  · exact setError_errno_ne_zero _ (eorContent_errno h)
  · exact setError_errno_ne_zero _ (advanceEor_errno h)

theorem sendReplyView_keeps {v : View} {reply : List UInt8} {ok : Status}
    (h : ∀ e, (sendReplyView reply ok v).1 ≠ .error e) :
    (sendReplyView reply ok v).2.errno = v.errno := by
  revert h
  unfold sendReplyView
  split
  · intro h
    exact absurd rfl (h _)
  · intro _
    rfl

theorem sendReplyView_req (v : View) (reply : List UInt8) (ok : Status) :
    (sendReplyView reply ok v).2.req = v.req := by
  unfold sendReplyView
  split <;> rfl

/-- Where the stream stays open no error has been set. -/
theorem HeaderStep.errno {header : Header} {v : View} {x : Status × View}
    (hstep : HeaderStep header v x) (h : ∀ e, x.1 ≠ .error e) : x.2.errno = v.errno := by
  cases hstep with
  | otherVersion => exact absurd rfl (h _)
  | malformed => exact absurd rfl (h _)
  | multiplexed => exact sendReplyView_keeps h
  | cutBody => exact absurd rfl (h _)
  | @begins u hu _ _ _ _ _ hlen =>
      have hready : u.Ready := by
        by_contra hr
        rw [eorContent_of_not_ready hr] at hlen
        cases hlen
      rw [advanceEor_ready hready, hu]
      rfl
  | badQuery => exact absurd rfl (h _)
  | query hq _ herrno =>
      have hzero : v.errno = 0 := by
        by_contra hne
        rw [hq] at herrno
        exact readQuery_errno (v := v.startRecord header) hne herrno
      rw [sendReplyView_keeps h, herrno, hzero]
  | unknown => exact sendReplyView_keeps h
  | foreign => rfl
  | otherType => exact absurd rfl (h _)
  | own => rfl

theorem processHeaderView_errno {header : Header} {v : View}
    (h : ∀ e, (processHeaderView header v).1 ≠ .error e) :
    (processHeaderView header v).2.errno = v.errno :=
  (headerStep header v).errno h

/-- Once a request has begun no header begins another one or changes it. -/
theorem HeaderStep.begun {header : Header} {v : View} {x : Status × View}
    (hstep : HeaderStep header v x) (h : v.req.isBeginProcessed = true) :
    x.2.req = v.req ∧ x.1 ≠ .beginRecord := by
  cases hstep with
  | otherVersion => exact ⟨rfl, by simp⟩
  | malformed => exact ⟨rfl, by simp⟩
  | multiplexed => exact ⟨sendReplyView_req _ _ _, sendReplyView_ne_begin _ (by simp)⟩
  | cutBody _ hawait =>
      rw [h] at hawait
      cases hawait
  | begins _ _ _ _ _ hawait =>
      rw [h] at hawait
      cases hawait
  | badQuery => exact ⟨readQuery_req (v.startRecord header), by simp⟩
  | query hq =>
      subst hq
      exact ⟨(sendReplyView_req _ _ _).trans (readQuery_req (v.startRecord header)),
        sendReplyView_ne_begin _ (by simp)⟩
  | unknown => exact ⟨sendReplyView_req _ _ _, sendReplyView_ne_begin _ (by simp)⟩
  | foreign => exact ⟨rfl, by simp⟩
  | otherType => exact ⟨rfl, by simp⟩
  | own => exact ⟨rfl, by simp⟩

theorem processHeaderView_begun (header : Header) {v : View}
    (h : v.req.isBeginProcessed = true) :
    (processHeaderView header v).2.req = v.req ∧
      (processHeaderView header v).1 ≠ .beginRecord :=
  (headerStep header v).begun h

theorem advance_req {v : View} (h : v.req.isBeginProcessed = true) :
    (advance v).2.req = v.req ∧ (advance v).1 ≠ .begun := by
  refine advance_rule (I := fun w => w.req = v.req) (P := fun s w => w.req = v.req ∧ s ≠ .begun)
    rfl (fun _ _ hv hw => hw.2.2.2.2.1.trans hv) (fun _ hw _ => ⟨hw, by simp⟩)
    (fun _ _ hv _ hr _ _ => ⟨hr.trans hv, by simp⟩) (fun _ hw _ => ⟨hw, by simp⟩) ?_
  intro w header hw _ _
  have hbegun : w.enterRecord.req.isBeginProcessed = true := (congrArg _ hw).trans h
  obtain ⟨hreq, hne⟩ := processHeaderView_begun header hbegun
  have hlast : (processHeaderView header w.enterRecord).2.req = v.req := hreq.trans hw
  unfold StatusRule
  split
  · split
    · exact ⟨hlast, by simp⟩
    · exact hlast
  · exact hlast
  · next hst => exact absurd hst hne
  · exact hlast
  · exact ⟨hlast, by simp⟩

/-- Reading to the end leaves the request as it was. -/
theorem Delivers.req_eq {v e : View} {bs : List UInt8} (hd : Delivers v bs e)
    (h : v.req.isBeginProcessed = true) : e.req = v.req := by
  induction hd with
  | stop hadv =>
      have hreq := (advance_req h).1
      rwa [hadv] at hreq
  | byte hadv _ _ ih =>
      have hreq := (advance_req h).1
      rw [hadv] at hreq
      have hlast := ih ((congrArg ReqData.isBeginProcessed hreq).trans h)
      exact hlast.trans hreq

/-- Where the stream is not closed no error has been set on the way. -/
theorem advance_open_errno {v : View} (h : (advance v).1 ≠ .closed) :
    (advance v).2.errno = v.errno := by
  revert h
  refine advance_rule (I := fun w => w.errno = v.errno)
    (P := fun s w => s ≠ .closed → w.errno = v.errno) rfl
    (fun _ _ hv hw => hw.2.2.2.2.2.2.1.trans hv) (fun _ hw _ _ => hw)
    (fun _ _ _ _ _ _ _ hs => absurd rfl hs) (fun _ _ _ hs => absurd rfl hs) ?_
  intro w header hw _ _
  have hkeep : (∀ e, (processHeaderView header w.enterRecord).1 ≠ .error e) →
      (processHeaderView header w.enterRecord).2.errno = v.errno :=
    fun h => (processHeaderView_errno h).trans hw
  unfold StatusRule
  split
  · next hst =>
      split
      · exact fun hs => absurd rfl hs
      · exact hkeep (by simp [hst])
  · next hst => exact hkeep (by simp [hst])
  · next hst => exact fun _ => hkeep (by simp [hst])
  · next hst => exact hkeep (by simp [hst])
  · exact fun hs => absurd rfl hs

/-- Where a byte can be delivered no error has been set on the way. -/
theorem advance_errno {v w : View} (h : advance v = (.ready, w)) : w.errno = v.errno := by
  have hkeep := advance_open_errno (v := v) (by rw [h]; simp)
  rwa [h] at hkeep

theorem Reads.errno_eq {v w : View} {bs : List UInt8} (h : Reads v bs w) : w.errno = v.errno := by
  induction h with
  | nil => rfl
  | @cons v v' w b bs input h _ _ ih =>
      have hone : v'.errno = v.errno := advance_errno h
      exact ih.trans hone

/-- A byte is delivered only where nothing is to be skipped. -/
theorem Reads.skip_eq {v w : View} {bs : List UInt8} (h : Reads v bs w) (hs : v.skip = false) :
    w.skip = false := by
  induction h with
  | nil => exact hs
  | cons h _ _ ih => exact ih (ready_of_advance h).2.1

/-- **A reader whose request has begun comes to the end of its stream.** -/
theorem delivers_total {v : View} (h : v.req.isBeginProcessed = true) :
    ∃ bs e, Delivers v bs e := by
  induction hn : v.input.length using Nat.strong_induction_on generalizing v with
  | _ n ih =>
      obtain ⟨hreq, hne⟩ := advance_req h
      have hle := advance_input_le v
      rcases hadv : advance v with ⟨_ | _ | _, w⟩
      · have hready := ready_of_advance hadv
        rw [hadv] at hreq hle
        obtain ⟨b, input, hinput⟩ := List.exists_cons_of_ne_nil hready.2.2
        have hlen : (w.consume 1).input.length < n := by
          rw [hinput, List.length_cons] at hle
          rw [View.consume_input, hinput, List.drop_one, List.tail_cons]
          omega
        have hreq' : (w.consume 1).req.isBeginProcessed = true := by
          show w.req.isBeginProcessed = true
          rw [hreq]
          exact h
        obtain ⟨bs, e, hd⟩ := ih _ hlen hreq' rfl
        exact ⟨b :: bs, e, .byte hadv hinput hd⟩
      · rw [hadv] at hne
        exact absurd rfl hne
      · exact ⟨[], w, .stop hadv⟩

/-! ### Calls -/

/-- The calls by which a client reads. -/
inductive ReadCall where
  | getChar
  | getStr (n : ℤ)
  deriving DecidableEq, Repr

/-- How many bytes a call asks for. -/
def ReadCall.wanted : ReadCall → ℕ
  | .getChar => 1
  | .getStr n => n.toNat

/-- The bytes a call returns; `FCGX_GetChar` returns none at EOF. -/
def ReadCall.perform (call : ReadCall) (c : Chan) : Option (List UInt8 × Chan) :=
  match call with
  | .getChar => (fcgxGetChar fillBuffProc c).map fun x => (x.1.toList, x.2)
  | .getStr n => fcgxGetStr fillBuffProc n c

/-- What the calls of a sequence return, and the stream after them. -/
def performAll : List ReadCall → Chan → Option (List (List UInt8) × Chan)
  | [], c => some ([], c)
  | call :: calls, c =>
      match call.perform c with
      | none => none
      | some (bs, c) => (performAll calls c).map fun x => (bs :: x.1, x.2)

/-- The pieces of `bs` that calls for these numbers of bytes return: what is
asked for, as far as it is there. -/
def chop : List ℕ → List UInt8 → List (List UInt8)
  | [], _ => []
  | n :: ns, bs => bs.take n :: chop ns (bs.drop n)

/-- A reader at the end of its stream returns nothing any more. -/
theorem ReadCall.perform_closed {c : Chan} (h : c.stream.isClosed = true) (call : ReadCall) :
    call.perform c = some ([], c) := by
  cases call with
  | getChar => simp [ReadCall.perform, fcgxGetChar, h]
  | getStr n => simp [ReadCall.perform, fcgxGetStr, h]

theorem performAll_closed {c : Chan} (h : c.stream.isClosed = true) (calls : List ReadCall) :
    performAll calls c = some (chop (calls.map ReadCall.wanted) [], c) := by
  induction calls with
  | nil => rfl
  | cons call calls ih => simp [performAll, ReadCall.perform_closed h, ih, chop]

/-- One call, on an open stream that delivers `bs`. -/
theorem ReadCall.perform_spec {c : Chan} {bs : List UInt8} {e : View} (ho : c.Open)
    (he : c.stream.eorStop = false) (hd : Delivers c.view bs e) (call : ReadCall) :
    ∃ y, call.perform c = some y ∧ GotStr call.wanted c.view bs e y := by
  have hf : FillSpec fillBuffProc c.stream.eorStop := by
    rw [he]
    exact fillSpec_fillBuffProc
  cases call with
  | getChar =>
      match bs with
      | [] =>
          obtain ⟨c', hget, hclosed, hview⟩ := fcgxGetChar_eof hf ho hd
          exact ⟨([], c'), by simp [ReadCall.perform, hget],
            .inr ⟨by simp [ReadCall.wanted], rfl, hclosed, hview⟩⟩
      | b :: bs =>
          obtain ⟨c', hget, ho', hr⟩ := fcgxGetChar_byte hf ho hd
          exact ⟨([b], c'), by simp [ReadCall.perform, hget],
            .inl ⟨by simp [ReadCall.wanted], rfl, ho', hr⟩⟩
  | getStr n =>
      rcases Int.le_total n 0 with hn | hn
      · refine ⟨([], c), by simp [ReadCall.perform, fcgxGetStr, hn], .inl ?_⟩
        rw [ReadCall.wanted, Int.toNat_of_nonpos hn]
        exact ⟨Nat.zero_le _, rfl, ho, .nil⟩
      · obtain ⟨y, hget, hgot⟩ := fcgxGetStr_spec hf ho hd n.toNat
        rw [Int.toNat_of_nonneg hn] at hget
        exact ⟨y, hget, hgot⟩

/-- **A sequence of calls** cuts into pieces what the stream delivers. No error
is set before more has been asked for than there is, and then the stream is
closed in the view that `Delivers` says. -/
theorem performAll_spec {c : Chan} {bs : List UInt8} {e : View} (ho : c.Open)
    (he : c.stream.eorStop = false) (hd : Delivers c.view bs e) (calls : List ReadCall) :
    ∃ c', performAll calls c = some (chop (calls.map ReadCall.wanted) bs, c') ∧
      (bs.length < (calls.map ReadCall.wanted).sum ∧ c'.stream.isClosed = true ∧ c'.view = e ∨
        (calls.map ReadCall.wanted).sum ≤ bs.length ∧ c'.stream.isClosed = false ∧
          c'.stream.fcgiErrno = c.stream.fcgiErrno) := by
  induction calls generalizing c bs with
  | nil => exact ⟨c, rfl, .inr ⟨Nat.zero_le _, ho.isClosed, rfl⟩⟩
  | cons call calls ih =>
      obtain ⟨⟨y, c₁⟩, hcall, ⟨hlen, hy, ho₁, hr⟩ | ⟨hlen, hy, hclosed, hview⟩⟩ :=
        call.perform_spec ho he hd
      · dsimp only at hy ho₁ hr
        have hrest : Delivers c₁.view (bs.drop call.wanted) e :=
          hr.rest (by rwa [List.take_append_drop])
        obtain ⟨c', hall, hend⟩ := ih ho₁ (hr.eorStop.trans he) hrest
        have herrno : c₁.stream.fcgiErrno = c.stream.fcgiErrno := hr.errno_eq
        rw [herrno, List.length_drop] at hend
        refine ⟨c', by simp [performAll, hcall, hall, chop, hy], ?_⟩
        rw [List.map_cons, List.sum_cons]
        exact hend.imp (And.imp_left (by omega)) (And.imp_left (by omega))
      · dsimp only at hy hclosed hview
        refine ⟨c₁, ?_, .inl ⟨?_, hclosed.isClosed, hview⟩⟩
        on_goal 2 =>
          rw [List.map_cons, List.sum_cons]
          omega
        have hdrop : bs.drop call.wanted = [] := List.drop_eq_nil_of_le (Nat.le_of_lt hlen)
        have htake : bs.take call.wanted = bs := List.take_of_length_le (Nat.le_of_lt hlen)
        simp [performAll, hcall, performAll_closed hclosed.isClosed, chop, hy, hdrop, htake]

/-- What a client sees of a reader: what every sequence of calls returns, and
`FCGX_GetError` after it. -/
def Chan.observe (c : Chan) (calls : List ReadCall) : Option (List (List UInt8) × ℤ) :=
  (performAll calls c).map fun x => (x.1, x.2.stream.fcgiErrno)

/-- Two readers that no sequence of calls tells apart. -/
def Chan.SameReads (c c' : Chan) : Prop := ∀ calls, c.observe calls = c'.observe calls

/-- Readers that deliver the same bytes and end with the same error. -/
theorem sameReads_of_delivers {c c' : Chan} {bs : List UInt8} {e e' : View} (ho : c.Open)
    (ho' : c'.Open) (he : c.stream.eorStop = false) (he' : c'.stream.eorStop = false)
    (herrno : c.stream.fcgiErrno = c'.stream.fcgiErrno) (hd : Delivers c.view bs e)
    (hd' : Delivers c'.view bs e') (hend : e.errno = e'.errno) : c.SameReads c' := by
  intro calls
  obtain ⟨d, hall, hlast⟩ := performAll_spec ho he hd calls
  obtain ⟨d', hall', hlast'⟩ := performAll_spec ho' he' hd' calls
  have hsame : d.stream.fcgiErrno = d'.stream.fcgiErrno := by
    rcases hlast with ⟨hlt, -, hview⟩ | ⟨hle, -, herr⟩
    · rcases hlast' with ⟨-, -, hview'⟩ | ⟨hle', -, -⟩
      · calc d.view.errno = e.errno := by rw [hview]
          _ = e'.errno := hend
          _ = d'.view.errno := by rw [hview']
      · omega
    · rcases hlast' with ⟨hlt', -, -⟩ | ⟨-, -, herr'⟩
      · omega
      · rw [herr, herr', herrno]
  rw [Chan.observe, Chan.observe, hall, hall', Option.map_some, Option.map_some, hsame]

/-- Readers that cannot be told apart deliver the same bytes and end with the
same error. -/
theorem delivers_of_sameReads {c c' : Chan} {bs bs' : List UInt8} {e e' : View} (ho : c.Open)
    (ho' : c'.Open) (he : c.stream.eorStop = false) (he' : c'.stream.eorStop = false)
    (hd : Delivers c.view bs e) (hd' : Delivers c'.view bs' e') (h : c.SameReads c') :
    bs = bs' ∧ e.errno = e'.errno := by
  let n := bs.length + bs'.length + 1
  obtain ⟨d, hall, hlast⟩ := performAll_spec ho he hd [.getStr n]
  obtain ⟨d', hall', hlast'⟩ := performAll_spec ho' he' hd' [.getStr n]
  have hobs := h [.getStr n]
  rw [Chan.observe, Chan.observe, hall, hall'] at hobs
  have htake : bs.take n = bs := List.take_of_length_le (by omega)
  have htake' : bs'.take n = bs' := List.take_of_length_le (by omega)
  simp only [List.map_cons, List.map_nil, ReadCall.wanted, Int.toNat_natCast, chop, htake, htake',
    Option.map_some, Option.some.injEq, Prod.mk.injEq, List.cons.injEq, and_true,
    List.sum_cons, List.sum_nil] at hobs hlast hlast'
  obtain ⟨-, -, hview⟩ := hlast.resolve_right (by omega)
  obtain ⟨-, -, hview'⟩ := hlast'.resolve_right (by omega)
  refine ⟨hobs.1, ?_⟩
  calc e.errno = d.stream.fcgiErrno := by rw [← hview]; rfl
    _ = d'.stream.fcgiErrno := hobs.2
    _ = e'.errno := by rw [← hview']; rfl

end FastCgi
