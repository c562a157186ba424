import FastCgi.Java.FillStages

/-!
`fill` of the Java reader against the scan of the wire.

One pass of the loop keeps in step with the scan or leaves the loop
(`fillBody_passed`), and so `fill` obeys the laws of `ReaderLaws.lean` for
the content of the stream (`supplies_stream`). The calls of `fill` from
`readParams`, which reads the content of a record, obey them for that content
(`supplies_query`).
-/

namespace FastCgi

namespace Java

open ByteMem BoundedLoop

namespace InChan

variable {c c' : InChan} {r e : ℕ} {s t : Scan} {fin : Prop} {bs headerBuf : List UInt8}

/-! ### The content of a record -/

/-- The loop of `fill` under `eorStop`: `rest` is what it still delivers of the content `query`
of a record, and behind the record the stream delivers `obs`. At most `N` bytes are to come. -/
def Querying (fin : Prop) (obs query : List UInt8) (N : ℕ) (rest : List UInt8) (c : InChan) :
    Prop :=
  ∃ s q n p, s.phase = .values q n p ∧ InStep fin s obs [] c ∧ rest = c.unread.take n ∧
    query = q ++ rest ∧ c.unread.length ≤ N

/-- How the content of a record ends: with the record, or with the source. -/
inductive QueryEnd (fin : Prop) (obs query : List UInt8) (N : ℕ) (c : InChan) : Prop where
  | complete {s : Scan} (hrec : InRecord c.stream true 0 0 s.stale)
      (hfollows : Follows s c.leaveRecord) (hmarked : s.marked = true)
      (hyields : (s.answer query).Yields c.inp.atEnd c.unread obs fin)
      (hle : c.unread.length ≤ N)
  | broken {n p : ℕ} {skip : Bool} (hrec : InRecord c.stream true n p skip)
      (herrno : c.stream.errno = 0) (hunread : c.unread = []) (hobs : obs = [])
      (hatEnd : c.inp.atEnd = .ioException)

/-- With the end of the record the query is complete. -/
theorem checkEor_complete {query obs : List UInt8} {N : ℕ} (hspans : c.Spans r e)
    (hrec : InRecord c.stream true 0 0 s.stale) (hfollows : Follows s c)
    (hmarked : s.marked = true) (hyields : (s.answer query).Yields c.inp.atEnd c.unread obs fin)
    (hN : c.unread.length ≤ N) :
    ∃ c', checkEor c = .leave c' ∧
      Filled (Querying fin obs query N) (QueryEnd fin obs query N) [] c' := by
  obtain ⟨hr, he, hle, hroom, hchunks⟩ := hspans
  obtain ⟨hid, htype, hsocket, -, hnone⟩ := hfollows
  refine ⟨{ c with stream := { c.stream with stop := c.stream.rdNext, isClosed := true } }, ?_,
    .ended ⟨rfl, rfl⟩ ⟨r, e, hr, he, hle, hroom, hchunks⟩ ?_, fun _ => rfl⟩
  · rw [checkEor, if_pos hrec.eorStop]
  · exact .complete ⟨hrec.eorStop, hrec.contentLen, hrec.paddingLen, hrec.skip⟩
      ⟨hid, htype, hsocket, rfl, hnone⟩ hmarked hyields hN

variable {obs query rest q : List UInt8} {n p k N : ℕ}

/-- Content of the record is delivered. -/
theorem passContent_query (hphase : s.phase = .values q n p) (hspans : c.Spans r e) (hlt : r < e)
    (hrec : InRecord c.stream true n p s.stale) (hstale : 0 < n → s.stale = false)
    (hfollows : Follows s c) (hyields : s.Yields c.inp.atEnd c.unread obs fin) (hn : 0 < n)
    (hN : c.unread.length ≤ N) :
    ∃ c', passContent c = .leave c' ∧
      Filled (Querying fin obs (q ++ c.unread.take n) N)
        (QueryEnd fin obs (q ++ c.unread.take n) N) (c.unread.take n) c' := by
  rw [hstale hn] at hrec
  obtain ⟨c', hpass, hsteps, hrec', hr, hk⟩ := passContent_deliver hrec hspans hn
  obtain ⟨k, hmin⟩ : ∃ k, min n (e - r) = k := ⟨_, rfl⟩
  rw [hmin] at hsteps hrec' hk
  obtain ⟨l, hl, hlen, hunread, hless⟩ := hsteps.taken hspans
  have hbuff : c'.stream.buff = c.stream.buff := hsteps.buff
  have hne : l ≠ [] := List.length_pos_iff.mp (by omega)
  have htake : c.unread.take n = l ++ c'.toStop.unread.take (n - k) := by
    rw [hunread, List.take_append, hlen, List.take_of_length_le (by omega)]
  obtain ⟨hafter, hcontent⟩ := Scan.after_values hphase hne (by omega)
  rw [hunread, ← hsteps.inp] at hyields
  have hrest := hyields.pass hafter hcontent
  rw [hlen] at hrest
  have hquerying : Querying fin obs (q ++ c.unread.take n) N (c'.toStop.unread.take (n - k))
      c'.toStop := by
    refine ⟨{ s with phase := .values (q ++ l) (n - k) p, marked := true }, q ++ l, n - k, p, rfl,
      ⟨⟨?_, fun _ => hstale hn, rfl⟩, hfollows.steps hsteps rfl rfl rfl, ⟨_, _, hsteps.spans⟩,
        fun _ => rfl, hrest⟩, rfl, ?_, by omega⟩
    · rw [show s.stale = false from hstale hn]
      exact hrec'
    · rw [htake, List.append_assoc]
  refine ⟨c', hpass, .live hr hk (Nat.le_add_right r k) ?_ hquerying, fun hstop => ?_⟩
  · rw [htake, hbuff, Nat.add_sub_cancel_left, hl]
  · rw [hr, hk] at hstop
    omega

/-- Padding of the record is skipped. -/
theorem passPadding_query {obs : List UInt8} (hphase : s.phase = .values query 0 p)
    (hspans : c.Spans r e) (hlt : r < e) (hrec : InRecord c.stream true 0 p s.stale)
    (hfollows : Follows s c) (hyields : s.Yields c.inp.atEnd c.unread obs fin)
    (hN : c.unread.length ≤ N) :
    (∃ c', passPadding c = .loop c' ∧ Querying fin obs query N [] c' ∧
      c'.unread.length < c.unread.length) ∨
    ∃ c' c'', passPadding c = .next c' ∧ checkEor c' = .leave c'' ∧
      Filled (Querying fin obs query N) (QueryEnd fin obs query N) [] c'' := by
  rcases Nat.eq_zero_or_pos p with rfl | hp
  · -- without padding the end is seen with the byte behind it
    have hne : c.unread ≠ [] := by
      rw [hspans.unread, ne_eq, List.append_eq_nil_iff, slice_eq_nil_iff]
      omega
    have hanswer := hyields.answered hphase hne
    obtain ⟨c', heor, hfilled⟩ := checkEor_complete (s := { s with marked := true }) hspans hrec
      ⟨hfollows.requestID, hfollows.type, hfollows.socket, hfollows.isOpen, hfollows.noError⟩ rfl
      hanswer hN
    exact .inr ⟨c, c', passPadding_none hrec, heor, hfilled⟩
  · obtain ⟨c', hpass, hsteps, hrec'⟩ := passPadding_skip hrec hspans hp
    obtain ⟨k, hmin⟩ : ∃ k, min p (e - r) = k := ⟨_, rfl⟩
    rw [hmin] at hpass hsteps hrec'
    obtain ⟨l, -, hlen, hunread, hless⟩ := hsteps.taken hspans
    have hne : l ≠ [] := List.length_pos_iff.mp (by omega)
    rw [hunread, ← hsteps.inp] at hyields
    by_cases hshort : k < p
    · obtain ⟨hafter, hcontent⟩ := Scan.after_values_padding hphase hne (by omega)
      have hrest := hyields.pass hafter hcontent
      rw [hlen] at hrest
      rw [if_pos hshort] at hpass
      refine .inl ⟨c', hpass, ⟨{ s with phase := .values query 0 (p - k), marked := false }, query,
        0, p - k, rfl, ⟨⟨hrec', nofun, rfl⟩, hfollows.steps hsteps rfl rfl rfl,
          ⟨_, _, hsteps.spans⟩, nofun, hrest⟩, rfl, ?_, by omega⟩, by omega⟩
      rw [List.append_nil]
    · obtain rfl : l.length = p := by omega
      obtain ⟨hafter, hcontent⟩ := Scan.after_values_end hphase hne
      have hrest := hyields.pass hafter hcontent
      rw [if_neg hshort] at hpass
      rw [show l.length - k = 0 by omega] at hrec'
      obtain ⟨c'', heor, hfilled⟩ := checkEor_complete (N := N) (s := { s with marked := true })
        hsteps.spans hrec' (hfollows.steps hsteps rfl rfl rfl) rfl hrest (by omega)
      exact .inr ⟨c', c'', hpass, heor, hfilled⟩

/-- One pass delivers content of the record, or skips padding of it, or reports its end. -/
theorem fillBody_query (fill : InChan → Option InChan) (h : Querying fin obs query N rest c) :
    (∃ c', fillBody fill ([], c) = some (.done c') ∧
      Filled (Querying fin obs query N) (QueryEnd fin obs query N) rest c') ∨
    ∃ c', fillBody fill ([], c) = some (.again ([], c')) ∧ Querying fin obs query N rest c' ∧
      c'.unread.length < c.unread.length := by
  obtain ⟨s, q, n, p, hphase, hstep, hrest, hquery, hN⟩ := h
  obtain ⟨hmatches, hfollows, ⟨r, e, hspans⟩, hmarked, hyields⟩ := hstep
  rw [hphase] at hmatches
  obtain ⟨hrec, hstale, -⟩ := hmatches
  by_cases hnil : c.unread = []
  · -- the source ends
    have hsound := hyields.sound
    rw [hnil, Scan.sound_nil] at hsound
    rcases hsound with ⟨f, hf⟩ | ⟨hatEnd, hmark⟩
    · rw [hphase] at hf
      exact nomatch hf
    · rw [hnil, List.take_nil] at hrest
      subst hrest
      have hobs : obs = [] := by rw [← hyields.content_eq, hnil, Scan.content]
      rw [fillBody, hspans.refill_end hnil hatEnd]
      obtain ⟨hr, he, hle, hroom, hchunks⟩ := hspans
      refine .inl ⟨_, rfl, .ended ⟨hmarked hmark, rfl⟩ ⟨r, e, hr, he, hle, hroom, hchunks⟩ ?_,
        fun _ => rfl⟩
      exact .broken ⟨hrec.eorStop, hrec.contentLen, hrec.paddingLen, hrec.skip⟩ hfollows.noError
        hnil hobs hatEnd
  · obtain ⟨c₁, r₁, e₁, hrefill, hspans₁, hlt, hunread, hsame⟩ := hspans.refill_next hnil
    have hrec₁ := hrec.same hsame
    have hfollows₁ := hfollows.same hsame
    rw [← hsame.atEnd, ← hunread] at hyields
    rw [← hunread] at hrest hN
    simp only [fillBody, hrefill]
    rcases Nat.eq_zero_or_pos n with rfl | hn
    · rw [List.take_zero] at hrest
      subst hrest
      rw [List.append_nil] at hquery
      subst hquery
      simp only [passContent_none hrec₁, passEnd]
      rcases passPadding_query hphase hspans₁ hlt hrec₁ hfollows₁ hyields hN with
        ⟨c', hpass, hquerying, hless⟩ | ⟨c', c'', hpass, heor, hfilled⟩
      · rw [hpass]
        exact .inr ⟨c', rfl, hquerying, hunread ▸ hless⟩
      · simp only [hpass, heor]
        exact .inl ⟨c'', rfl, hfilled⟩
    · obtain ⟨c', hpass, hfilled⟩ :=
        passContent_query hphase hspans₁ hlt hrec₁ hstale hfollows₁ hyields hn hN
      rw [← hrest, ← hquery] at hfilled
      rw [hpass]
      exact .inl ⟨c', rfl, hfilled⟩

theorem Querying.length_le (h : Querying fin obs query N rest c) :
    (∃ r e, c.Spans r e) ∧ c.stream.isClosed = false ∧ rest.length ≤ c.unread.length := by
  obtain ⟨s, q, n, p, -, hstep, rfl, -, -⟩ := h
  exact ⟨hstep.spans, hstep.follows.isOpen, by rw [List.length_take]; omega⟩

/-- **The calls of `fill` inside a record** supply its content and then the end. -/
theorem supplies_query (d : ℕ) (fin : Prop) (obs query : List UInt8) (N : ℕ) :
    Supplies (fillAt (d + 1)) (Reading (Querying fin obs query N) (QueryEnd fin obs query N)) := by
  apply supplies_reading Querying.length_le
  intro rest c h _
  refine run_total_measured (n := c.unread.length)
    (fun n x => x.1 = [] ∧ Querying fin obs query N rest x.2 ∧ x.2.unread.length = n) _ ?_
    ⟨rfl, h, rfl⟩ (by omega)
  rintro n ⟨headerBuf, c⟩ ⟨rfl, h, rfl⟩
  rcases fillBody_query (fillAt d) h with hdone | ⟨c', hagain, hquerying, hlt⟩
  · exact .inl hdone
  · exact .inr ⟨([], c'), c'.unread.length, hagain, ⟨rfl, hquerying, rfl⟩, hlt⟩

/-! ### Interpreting a header -/

/-- The padding behind the content, if there is any. -/
theorem matches_closing {stale : Bool} {st : FcgiInputStream} (h : InRecord st false 0 p stale) :
    Matches stale [] st (.closing p) := by
  rw [Phase.closing]
  split
  · next hp =>
      subst hp
      exact ⟨h, rfl, by decide⟩
  · exact ⟨h, by omega, rfl⟩

/-- Content that is to be passed over, if there is any. -/
theorem matches_passing {stale : Bool} (skip : Bool) {st : FcgiInputStream}
    (h : InRecord st false n p skip) (hskip : if n = 0 then skip = stale else skip = true)
    (hstale : n ≠ 0 → stale = false) : Matches stale [] st (.passing n p) := by
  rw [Phase.passing]
  by_cases hn : n = 0
  · subst hn
    rw [if_pos rfl] at hskip ⊢
    subst hskip
    exact matches_closing h
  · rw [if_neg hn] at hskip ⊢
    subst hskip
    exact ⟨h, by omega, hstale hn, rfl⟩

theorem eq_nil_of_finished {f : Finish} {atEnd : SourceEnd} {w : List UInt8} (h : s.phase = .finished f)
    (hyields : s.Yields atEnd w bs fin) : bs = [] := by
  rw [← hyields.content_eq, Scan.content_finished h]

/-- A response goes out and the loop goes on, or the stream ends. -/
theorem sendResponse_passed {response : List UInt8} (phase : Phase)
    (hspans : ∃ r e, c.Spans r e) (hstop : c.stream.rdNext = c.stream.stop)
    (hfollows : Follows s c.leaveRecord) (hmatches : Matches s.stale [] c.leaveRecord.stream phase)
    (hyields : (s.respond response phase).Yields c.inp.atEnd c.unread bs fin)
    (hlt : c.unread.length < N) :
    Passed fin bs N
      (onStatus (sendResponse response c).1 (sendResponse response c).2.leaveRecord) := by
  obtain ⟨hid, htype, hsocket, hopen, hnone⟩ := hfollows
  obtain ⟨r, e, hr, he, hle, hroom, hchunks⟩ := hspans
  rw [sendResponse, show c.socket = s.socket from hsocket]
  rw [Scan.respond] at hyields
  obtain ⟨⟨ok, socket⟩, hwrite⟩ : ∃ x, s.socket.write response = x := ⟨_, rfl⟩
  rw [hwrite] at hyields ⊢
  cases ok with
  | false =>
      obtain rfl := eq_nil_of_finished rfl hyields
      exact filled_setFcgiError ⟨r, e, hr, he, hle, hroom, hchunks⟩ hstop (by decide)
  | true =>
      refine ⟨⟨rfl, { s with socket := socket, phase := phase }, ⟨hmatches, ?_, ?_, fun _ => hstop,
        hyields⟩⟩, hlt⟩
      · exact ⟨hid, htype, rfl, hopen, hnone⟩
      · exact ⟨r, e, hr, he, hle, hroom, hchunks⟩

/-- A query that can be parsed is answered where it is complete. -/
theorem answerParams_good {props : List NameValue} (hend : c.AtEnd) (hspans : ∃ r e, c.Spans r e)
    (hquery : QueryEnd fin obs query N c) (hparse : parsePairs query = (props, none)) :
    Passed fin obs (N + 1)
      (onStatus (answerParams props c).1 (answerParams props c).2.leaveRecord) := by
  cases hquery with
  | @complete s hrec hfollows hmarked hyields hle =>
      have hzero : ¬(c.stream.errno ≠ 0 ∨ c.stream.contentLen ≠ 0) := by
        rw [hrec.contentLen, show c.stream.errno = 0 from hfollows.noError]
        decide
      rw [Scan.answer, hparse] at hyields
      rw [answerParams, if_neg hzero]
      refine sendResponse_passed (.header []) hspans hend.rdNext_eq hfollows ?_ hyields
        (Nat.lt_succ_of_le hle)
      exact ⟨⟨rfl, hrec.contentLen, hrec.paddingLen, hrec.skip⟩, rfl, by decide⟩
  | @broken n p skip hrec herrno hunread hobs hatEnd =>
      subst hobs
      rw [answerParams, herrno, hrec.contentLen]
      by_cases hzero : n = 0
      · -- the record is complete, and the loop will meet the end of the source once more
        subst hzero
        rw [if_neg (by decide)]
        have hmatches : Matches skip [] c.leaveRecord.stream (.closing p) :=
          matches_closing ⟨rfl, hrec.contentLen, hrec.paddingLen, hrec.skip⟩
        refine sendResponse_passed (.closing p)
          (s := ⟨.closing p, c.request.requestID, c.stream.type, c.socket, skip, true⟩)
          hspans hend.rdNext_eq ⟨rfl, rfl, rfl, rfl, herrno⟩ hmatches ?_ ?_
        · rw [hunread]
          refine ⟨Scan.sound_nil.mpr (.inr ⟨hatEnd, ?_⟩), rfl, ?_⟩
          · rw [Scan.respond]
            split <;> rfl
          · rw [Scan.after_nil, Scan.respond]
            split
            · intro hmarked
              cases hmarked
            · simp only [Phase.closing]
              split <;> intro hmarked <;> cases hmarked
        · rw [hunread]
          exact Nat.succ_pos _
      · rw [if_pos (.inr (by exact_mod_cast hzero))]
        obtain ⟨r, e, hr, he, hle, hroom, hchunks⟩ := hspans
        exact filled_setFcgiError ⟨r, e, hr, he, hle, hroom, hchunks⟩ hend.rdNext_eq (by decide)

/-- A query that cannot be parsed ends the stream. -/
theorem answerParams_bad {props : List NameValue} (hend : c.AtEnd) (hspans : ∃ r e, c.Spans r e)
    (hquery : QueryEnd fin obs query N c) (hparse : (parsePairs query).2 ≠ none) :
    Passed fin obs (N + 1)
      (onStatus (answerParams props (c.setFcgiError fcgxParamsError)).1
        (answerParams props (c.setFcgiError fcgxParamsError)).2.leaveRecord) := by
  obtain rfl : obs = [] := by
    cases hquery with
    | @complete s hrec hfollows hmarked hyields hle =>
        refine eq_nil_of_finished (s := s.answer query) (f := .failed) ?_ hyields
        rw [Scan.answer]
        split
        · next hgood => exact absurd (congrArg Prod.snd hgood) hparse
        · rfl
    | broken _ _ _ hobs _ => exact hobs
  have herrno : (c.setFcgiError fcgxParamsError).stream.errno ≠ 0 := by
    show (if c.stream.errno = 0 then fcgxParamsError else c.stream.errno) ≠ 0
    split
    · decide
    · assumption
  rw [answerParams, if_pos (.inl herrno)]
  obtain ⟨r, e, hr, he, hle, hroom, hchunks⟩ := hspans
  exact filled_setFcgiError ⟨r, e, hr, he, hle, hroom, hchunks⟩ hend.rdNext_eq (by decide)

theorem Reading.queryEnd (h : Reading (Querying fin obs query N) (QueryEnd fin obs query N) rest c)
    (hend : c.AtEnd) : (∃ r e, c.Spans r e) ∧ QueryEnd fin obs query N c := by
  cases h with
  | live hr hk hle hbs h => exact nomatch hend.isClosed.symm.trans h.length_le.2.1
  | ended _ hspans h => exact ⟨hspans, h⟩

/-- A `FCGI_GET_VALUES` record is answered, or ends the stream. -/
theorem processQuery_passed (d : ℕ) (hphase : s.phase = .values [] n p)
    (hstep : InStep fin s obs [] c) (hn : n < intMax) (hstop : c.stream.rdNext = c.stream.stop) :
    ∃ x, processManagementRecord (fillAt (d + 1)) fcgiGetValues c = some x ∧
      Passed fin obs (c.unread.length + 1) (onStatus x.1 x.2.leaveRecord) := by
  obtain ⟨r, e, hspans⟩ := hstep.spans
  have hlen : (c.unread.take n).length < intMax := by
    rw [List.length_take]
    omega
  have hstart : Reading (Querying fin obs (c.unread.take n) c.unread.length)
      (QueryEnd fin obs (c.unread.take n) c.unread.length) (c.unread.take n) c := by
    have hbs : c.unread.take n = slice c.stream.buff r (r - r) ++ c.unread.take n := by
      rw [Nat.sub_self, slice_zero, List.nil_append]
    refine .live hspans.rdNext (hstop ▸ hspans.rdNext) le_rfl hbs ?_
    rw [toStop_of_eq hstop]
    exact ⟨s, [], n, p, hphase, hstep, rfl, rfl, le_rfl⟩
  obtain ⟨⟨status, props, c'⟩, hrun, hgood, hbad⟩ :=
    (supplies_query d fin obs (c.unread.take n) c.unread.length).readParams hstart hlen []
  refine ⟨answerParams props c', by rw [processManagementRecord, if_pos rfl, hrun], ?_⟩
  by_cases hparse : (parsePairs (c.unread.take n)).2 = none
  · obtain ⟨hprops, hreading, hend⟩ := hgood hparse
    rw [List.nil_append] at hprops
    obtain ⟨hspans', hquery⟩ := hreading.queryEnd hend
    exact answerParams_good hend hspans' hquery (Prod.ext hprops.symm hparse)
  · obtain ⟨c₁, hreading, hend, hc'⟩ := hbad hparse
    obtain ⟨hspans', hquery⟩ := hreading.queryEnd hend
    rw [show c' = c₁.setFcgiError fcgxParamsError from hc']
    exact answerParams_bad hend hspans' hquery hparse

/-- The stream behind a header of the right version. -/
structure Entered (s : Scan) (header : Header) (c : InChan) : Prop where
  spans : ∃ r e, c.Spans r e
  stop : c.stream.rdNext = c.stream.stop
  inRecord :
    InRecord c.stream true header.contentLength header.paddingLength.toNat s.stale
  follows : Follows s c

section Entered

variable {header : Header} (h : Entered s header c)
include h

theorem Entered.leave : (∃ r e, c.leaveRecord.Spans r e) ∧ Follows s c.leaveRecord := by
  obtain ⟨r, e, hr, he, hle, hroom, hchunks⟩ := h.spans
  obtain ⟨hid, htype, hsocket, -, hnone⟩ := h.follows
  exact ⟨⟨r, e, hr, he, hle, hroom, hchunks⟩, ⟨hid, htype, hsocket, rfl, hnone⟩⟩

/-- A record that ends the scan ends the stream with an error. -/
theorem Entered.error {errnum : ℤ} {f : Finish} (hne : errnum ≠ 0) (hover : t.phase = .finished f)
    (hyields : t.Yields c.inp.atEnd c.unread bs fin) :
    Passed fin bs N (onStatus (.error errnum) c.leaveRecord) := by
  obtain rfl := eq_nil_of_finished hover hyields
  exact filled_setFcgiError h.leave.1 h.stop hne

/-- The record of another request is skipped. -/
theorem Entered.skip
    (hyields : Scan.Yields
      { s with
        phase := .passing header.contentLength header.paddingLength.toNat
        stale := header.contentLength = 0 } c.inp.atEnd c.unread bs fin) :
    Passed fin bs (c.unread.length + 1) (onStatus .skip c.leaveRecord) := by
  obtain ⟨⟨r, e, hr, he, hle, hroom, hchunks⟩, hid, htype, hsocket, hopen, hnone⟩ := h.leave
  have hrec : InRecord { c.leaveRecord.stream with skip := true } false header.contentLength
      header.paddingLength.toNat true :=
    ⟨rfl, h.inRecord.contentLen, h.inRecord.paddingLen, rfl⟩
  have hskip : if header.contentLength = 0 then true = decide (header.contentLength = 0)
      else true = true := by
    split
    · next hzero => exact (decide_eq_true hzero).symm
    · rfl
  exact ⟨⟨rfl, { s with
      phase := .passing header.contentLength header.paddingLength.toNat
      stale := header.contentLength = 0 },
    ⟨matches_passing _ hrec hskip fun hne => decide_eq_false hne,
      ⟨hid, htype, hsocket, hopen, hnone⟩, ⟨r, e, hr, he, hle, hroom, hchunks⟩,
      fun _ => h.stop, hyields⟩⟩, Nat.lt_succ_self _⟩

/-- A record of the stream is delivered, or it ends the stream. -/
theorem Entered.streamRecord (hstale : header.contentLength ≠ 0 → s.stale = false)
    (hyields : Scan.Yields
      (if header.contentLength = 0 then s.goto (.finished .endOfStream)
        else s.goto (.content header.contentLength header.paddingLength.toNat))
      c.inp.atEnd c.unread bs fin) :
    Passed fin bs (c.unread.length + 1) (onStatus .streamRecord c.leaveRecord) := by
  obtain ⟨⟨r, e, hr, he, hle, hroom, hchunks⟩, hid, htype, hsocket, hopen, hnone⟩ := h.leave
  have hlen : c.leaveRecord.stream.contentLen = header.contentLength := h.inRecord.contentLen
  rw [onStatus, hlen]
  by_cases hzero : header.contentLength = 0
  · rw [if_pos hzero] at hyields
    rw [if_pos (by exact_mod_cast hzero)]
    obtain rfl := eq_nil_of_finished rfl hyields
    refine ⟨.ended ⟨rfl, rfl⟩ ⟨r, e, hr, he, hle, hroom, hchunks⟩ (.inl (hyields.finish ?_)),
      fun _ => rfl⟩
    rw [Scan.after_finished rfl]
    rfl
  · rw [if_neg hzero] at hyields
    rw [if_neg (by exact_mod_cast hzero)]
    have hfresh := hstale hzero
    exact ⟨⟨rfl, s.goto (.content header.contentLength header.paddingLength.toNat),
      ⟨⟨⟨rfl, hlen, h.inRecord.paddingLen, h.inRecord.skip.trans hfresh⟩, Nat.pos_of_ne_zero hzero,
        hfresh, rfl⟩, ⟨hid, htype, hsocket, hopen, hnone⟩, ⟨r, e, hr, he, hle, hroom, hchunks⟩,
        fun _ => h.stop, hyields⟩⟩, Nat.lt_succ_self _⟩

/-- A management record is answered, or it ends the stream. -/
theorem Entered.management (d : ℕ) (hstale : header.contentLength ≠ 0 → s.stale = false)
    (hknown : header.type.toNat ≠ fcgiGetValues → header.contentLength = 0)
    (hyields : Scan.Yields
      (if header.type.toNat = fcgiGetValues then
        s.goto (.values [] header.contentLength header.paddingLength.toNat)
      else
        s.respond (unknownTypeResponse header.type.toNat)
          (.passing header.contentLength header.paddingLength.toNat))
      c.inp.atEnd c.unread bs fin) :
    ∃ x, processManagementRecord (fillAt (d + 1)) header.type.toNat c = some x ∧
      Passed fin bs (c.unread.length + 1) (onStatus x.1 x.2.leaveRecord) := by
  by_cases hvalues : header.type.toNat = fcgiGetValues
  · rw [if_pos hvalues] at hyields
    have hlen := header.contentLength_le
    obtain ⟨hid, htype, hsocket, hopen, hnone⟩ := h.follows
    rw [hvalues]
    refine processQuery_passed d
      (s := s.goto (.values [] header.contentLength header.paddingLength.toNat)) rfl
      ⟨⟨h.inRecord, fun hn => hstale (Nat.ne_of_gt hn), rfl⟩,
        ⟨hid, htype, hsocket, hopen, hnone⟩, h.spans, fun _ => h.stop, hyields⟩ ?_ h.stop
    rw [show intMax = 2147483647 from rfl]
    omega
  · rw [if_neg hvalues] at hyields
    rw [processManagementRecord, if_neg hvalues]
    have hzero := hknown hvalues
    refine ⟨_, rfl, sendResponse_passed _ h.spans h.stop h.leave.2
      (matches_passing s.stale ?_ (by rw [if_pos hzero]) fun hne => absurd hzero hne)
      hyields (Nat.lt_succ_self _)⟩
    exact ⟨rfl, h.inRecord.contentLen, h.inRecord.paddingLen, h.inRecord.skip⟩

end Entered

/-- **A header is interpreted as the scan does it**, or it ends the stream. -/
theorem processHeader_passed (d : ℕ) {header : Header} (hspans : ∃ r e, c.Spans r e)
    (hrec : InRecord c.stream false 0 0 s.stale) (hfollows : Follows s c)
    (hyields : (s.enter header).Yields c.inp.atEnd c.unread bs fin)
    (hadmits : header.version = fcgiVersion1 → s.Admits header) :
    ∃ x, processHeader (fillAt (d + 1)) header c.enterRecord = some x ∧
      Passed fin bs (c.unread.length + 1) (onStatus x.1 x.2.leaveRecord) := by
  obtain ⟨r, e, hr, he, hle, hroom, hchunks⟩ := hspans
  obtain ⟨hid, htype, hsocket, hopen, hnone⟩ := hfollows
  rw [processHeader]
  rw [Scan.enter] at hyields
  by_cases hversion : header.version ≠ fcgiVersion1
  · rw [if_pos hversion] at hyields ⊢
    obtain rfl := eq_nil_of_finished rfl hyields
    exact ⟨_, rfl, filled_setFcgiError ⟨r, e, hr, he, hle, hroom, hchunks⟩ rfl (by decide)⟩
  rw [if_neg hversion] at hyields ⊢
  obtain ⟨hbegin, hmanagement, hstale⟩ := hadmits (not_not.mp hversion)
  have hentered : Entered s header (c.enterRecord.startRecord header) :=
    ⟨⟨r, e, hr, he, hle, hroom, hchunks⟩, rfl, ⟨rfl, rfl, rfl, hrec.skip⟩,
      ⟨hid, htype, hsocket, hopen, hnone⟩⟩
  rw [dispatchHeader]
  by_cases hfirst : header.type.toNat = fcgiBeginRequest
  · -- only a malformed begin record is admitted
    have hbad := hbegin hfirst
    rw [if_pos hfirst, if_pos hbad] at hyields
    rw [if_pos hfirst, processBeginRecord, if_pos (by
      rw [hentered.inRecord.contentLen]
      exact_mod_cast hbad)]
    exact ⟨_, rfl, hentered.error (by decide) rfl hyields⟩
  rw [if_neg hfirst] at hyields ⊢
  have hfresh : header.requestId = fcgiNullRequestId ∨ header.requestId = s.requestID →
      header.contentLength ≠ 0 → s.stale = false := by
    intro hid hne
    by_contra hs
    obtain ⟨hnull, hown⟩ := hstale (by simpa using hs) hne
    exact hid.elim hnull hown
  by_cases hnull : header.requestId = fcgiNullRequestId
  · rw [if_pos hnull] at hyields ⊢
    exact hentered.management d (hfresh (.inl hnull)) (hmanagement hnull hfirst) hyields
  rw [if_neg hnull] at hyields ⊢
  rw [show (c.enterRecord.startRecord header).request.requestID = s.requestID from hid,
    show (c.enterRecord.startRecord header).stream.type = s.type from htype]
  by_cases hother : header.requestId ≠ s.requestID
  · rw [if_pos hother] at hyields ⊢
    exact ⟨_, rfl, hentered.skip hyields⟩
  rw [if_neg hother] at hyields ⊢
  by_cases hwrong : header.type.toNat ≠ s.type
  · rw [if_pos hwrong] at hyields ⊢
    exact ⟨_, rfl, hentered.error (by decide) rfl hyields⟩
  · rw [if_neg hwrong] at hyields ⊢
    exact ⟨_, rfl, hentered.streamRecord (hfresh (.inr (not_not.mp hother))) hyields⟩

/-! ### One pass -/

theorem Passed.mono {M : ℕ} {pass : Pass (List UInt8 × InChan) InChan}
    (h : Passed fin bs N pass) (hle : N ≤ M) : Passed fin bs M pass := by
  cases pass with
  | again x => exact ⟨h.1, h.2.trans_le hle⟩
  | done c => exact h

/-- The loop goes round with bytes passed and no byte of the next header marked. -/
theorem passed_again (heor : c.stream.eorStop = false)
    (hphase : Matches s.stale headerBuf c.stream s.phase) (hfollows : Follows s c)
    (hspans : ∃ r e, c.Spans r e) (hmarked : s.marked = false)
    (hyields : s.Yields c.inp.atEnd c.unread bs fin) (hlt : c.unread.length < N) :
    Passed fin bs N (.again (headerBuf, c)) := by
  refine ⟨⟨heor, s, hphase, hfollows, hspans, fun htrue => ?_, hyields⟩, hlt⟩
  rw [hmarked] at htrue
  cases htrue

/-- Bytes of the buffer are copied out. -/
theorem Spans.takeBytes (h : c.Spans r e) (hk : k ≤ e - r) :
    c.takeBytes k = some (slice c.stream.buff r k, c.advance k) ∧
      c.Steps (c.advance k) r e k := by
  obtain ⟨hr, he, hle, hroom, hchunks⟩ := h
  rw [InChan.takeBytes, InChan.advance, hr, if_pos ⟨by omega, by omega, by omega⟩,
    Int.toNat_natCast, Int.toNat_natCast]
  exact ⟨rfl, ⟨(Nat.cast_add r k).symm, he, by omega, hroom, hchunks⟩, hk, rfl, rfl, rfl, rfl, rfl,
    rfl, rfl⟩

/-- A pass ends in a header. If no byte has been passed before, there is one in the buffer. -/
theorem passHeader_passed (d : ℕ) {got : List UInt8} (hphase : s.phase = .header got)
    (hgot : got.length < 8) (hspans : c.Spans r e) (hrec : InRecord c.stream false 0 0 s.stale)
    (hfollows : Follows s c) (hyields : s.Yields c.inp.atEnd c.unread bs fin)
    (hN : s.marked = false ∧ c.unread.length < N ∨ r < e ∧ c.unread.length ≤ N) :
    ∃ pass, passHeader (fillAt (d + 1)) got c = some pass ∧ Passed fin bs N pass := by
  have hle := hspans.le
  obtain ⟨k, hk⟩ : ∃ k, min (8 - got.length) (e - r) = k := ⟨_, rfl⟩
  have hcount : min (8 - (got.length : ℤ)) (c.stream.buffStop - c.stream.rdNext) = (k : ℕ) := by
    rw [hspans.buffStop, hspans.rdNext]
    omega
  obtain ⟨htake, hsteps⟩ := hspans.takeBytes (k := k) (by omega)
  rw [passHeader, hcount, htake]
  obtain ⟨l, hl, hlen, hunread, hless⟩ := hsteps.taken hspans
  rw [hl]
  have hlength : (got ++ l).length = got.length + k := by rw [List.length_append, hlen]
  have hrec' : InRecord (c.advance k).stream false 0 0 s.stale :=
    ⟨hrec.eorStop, hrec.contentLen, hrec.paddingLen, hrec.skip⟩
  rw [hunread, ← hsteps.inp] at hyields
  by_cases hshort : got.length + k < 8
  · simp only [hlength, if_pos hshort]
    refine ⟨_, rfl, ?_⟩
    rcases Nat.eq_zero_or_pos k with rfl | hpos
    · -- the bytes passed before were the last of the buffer
      obtain rfl := List.length_eq_zero_iff.mp hlen
      obtain ⟨hunmarked, hlt⟩ := hN.resolve_right (by omega)
      have hphase' : Matches s.stale got (c.advance (0 : ℕ)).stream s.phase := by
        rw [hphase]
        exact ⟨hrec', rfl, hgot⟩
      rw [List.append_nil]
      exact passed_again hrec.eorStop hphase' (hfollows.steps hsteps rfl rfl rfl)
        ⟨_, _, hsteps.spans⟩ hunmarked (hyields.pass rfl rfl) (by omega)
    · obtain ⟨hafter, hcontent⟩ := Scan.after_header (l := l) hphase
        (List.length_pos_iff.mp (by omega)) (by omega)
      exact passed_again (s := { s with phase := .header (got ++ l), marked := false })
        hrec.eorStop ⟨hrec', rfl, by omega⟩ (hfollows.steps hsteps rfl rfl rfl)
        ⟨_, _, hsteps.spans⟩ rfl (hyields.pass hafter hcontent) (by omega)
  · have hne : l ≠ [] := List.length_pos_iff.mp (by omega)
    have height : got.length + l.length = 8 := by omega
    obtain ⟨hafter, hcontent⟩ := Scan.after_enter hphase hne height
    have hadmits := fun hversion => hyields.sound.admits hphase hne height hversion
    obtain ⟨x, hprocess, hpassed⟩ := processHeader_passed d (s := { s with marked := true })
      ⟨_, _, hsteps.spans⟩ hrec' (hfollows.steps hsteps rfl rfl rfl) (hyields.pass hafter hcontent)
      fun hversion => ⟨(hadmits hversion).begin, (hadmits hversion).management,
        (hadmits hversion).stale⟩
    simp only [hlength, if_neg hshort, hprocess]
    exact ⟨_, rfl, hpassed.mono (by omega)⟩

theorem checkEor_stream (heor : c.stream.eorStop = false) : checkEor c = .next c := by
  rw [checkEor, heor, if_neg Bool.false_ne_true]

/-- Padding is skipped, and the loop goes round or on to the next header. -/
theorem passPadding_passed (d : ℕ) (hphase : s.phase = .padding p) (hspans : c.Spans r e)
    (hrec : InRecord c.stream false 0 p s.stale) (hpos : 0 < p) (hfollows : Follows s c)
    (hyields : s.Yields c.inp.atEnd c.unread bs fin)
    (hN : s.marked = false ∧ c.unread.length < N ∨ r < e ∧ c.unread.length ≤ N) :
    (∃ c', passPadding c = .loop c' ∧ Passed fin bs N (.again ([], c'))) ∨
    ∃ c' pass, passPadding c = .next c' ∧ c'.stream.eorStop = false ∧
      passHeader (fillAt (d + 1)) [] c' = some pass ∧ Passed fin bs N pass := by
  obtain ⟨c', hpass, hsteps, hrec'⟩ := passPadding_skip hrec hspans hpos
  obtain ⟨k, hmin⟩ : ∃ k, min p (e - r) = k := ⟨_, rfl⟩
  rw [hmin] at hpass hsteps hrec'
  obtain ⟨l, -, hlen, hunread, hless⟩ := hsteps.taken hspans
  rw [hunread, ← hsteps.inp] at hyields
  rcases Nat.eq_zero_or_pos k with rfl | hk
  · -- the bytes passed before were the last of the buffer
    obtain rfl := List.length_eq_zero_iff.mp hlen
    obtain ⟨hunmarked, hlt⟩ := hN.resolve_right (by omega)
    have hphase' : Matches s.stale [] c'.stream s.phase := by
      rw [hphase]
      exact ⟨hrec', hpos, rfl⟩
    rw [if_pos hpos] at hpass
    exact .inl ⟨c', hpass, passed_again hrec'.eorStop hphase' (hfollows.steps hsteps rfl rfl rfl)
      ⟨_, _, hsteps.spans⟩ hunmarked (hyields.pass rfl rfl) (by omega)⟩
  · obtain ⟨hafter, hnone⟩ := Scan.after_padding (l := l) hphase
      (List.length_pos_iff.mp (by omega)) (by omega)
    have hrest := hyields.pass hafter hnone
    rw [hlen] at hrest
    by_cases hshort : k < p
    · have hphase' : Phase.closing (p - k) = .padding (p - k) := if_neg (by omega)
      rw [hphase'] at hrest
      rw [if_pos hshort] at hpass
      exact .inl ⟨c', hpass, passed_again (s := { s with phase := .padding (p - k), marked := false })
        hrec'.eorStop ⟨hrec', by omega, rfl⟩ (hfollows.steps hsteps rfl rfl rfl)
        ⟨_, _, hsteps.spans⟩ rfl hrest (by omega)⟩
    · have hphase' : Phase.closing (p - k) = .header [] := if_pos (by omega)
      rw [hphase'] at hrest
      rw [show p - k = 0 by omega] at hrec'
      rw [if_neg hshort] at hpass
      obtain ⟨pass, hheader, hpassed⟩ := passHeader_passed d (N := N)
        (s := { s with phase := .header [], marked := false }) rfl (by decide) hsteps.spans hrec'
        (hfollows.steps hsteps rfl rfl rfl) hrest (.inl ⟨rfl, by omega⟩)
      exact .inr ⟨c', pass, hpass, hrec'.eorStop, hheader, hpassed⟩

/-- A pass behind the content of a record. -/
theorem passEnd_passed (d : ℕ) (hphase : Matches s.stale headerBuf c.stream s.phase)
    (hcontent : c.stream.contentLen = 0) (heor : c.stream.eorStop = false)
    (hspans : c.Spans r e) (hfollows : Follows s c)
    (hyields : s.Yields c.inp.atEnd c.unread bs fin)
    (hN : s.marked = false ∧ c.unread.length < N ∨ r < e ∧ c.unread.length ≤ N) :
    ∃ pass, passEnd (fillAt (d + 1)) headerBuf c = some pass ∧ Passed fin bs N pass := by
  cases hp : s.phase with
  | header got =>
      rw [hp] at hphase
      obtain ⟨hrec, rfl, hgot⟩ := hphase
      simp only [passEnd, passPadding_none hrec, checkEor_stream heor]
      exact passHeader_passed d hp hgot hspans hrec hfollows hyields hN
  | padding p =>
      rw [hp] at hphase
      obtain ⟨hrec, hpos, rfl⟩ := hphase
      rw [passEnd]
      rcases passPadding_passed d hp hspans hrec hpos hfollows hyields hN with
        ⟨c', hpass, hpassed⟩ | ⟨c', pass, hpass, heor', hheader, hpassed⟩
      · rw [hpass]
        exact ⟨_, rfl, hpassed⟩
      · simp only [hpass, checkEor_stream heor', hheader]
        exact ⟨_, rfl, hpassed⟩
  | content n p =>
      rw [hp] at hphase
      obtain ⟨hrec, hpos, -⟩ := hphase
      rw [hrec.contentLen] at hcontent
      omega
  | skipping n p =>
      rw [hp] at hphase
      obtain ⟨hrec, hpos, -⟩ := hphase
      rw [hrec.contentLen] at hcontent
      omega
  | values query n p =>
      rw [hp] at hphase
      exact nomatch heor.symm.trans hphase.1.eorStop
  | finished f =>
      rw [hp] at hphase
      exact hphase.elim

/-- Content of the stream is delivered. -/
theorem passContent_stream (hphase : s.phase = .content n p) (hspans : c.Spans r e) (hlt : r < e)
    (hrec : InRecord c.stream false n p false) (hn : 0 < n) (hstale : s.stale = false)
    (hfollows : Follows s c) (hyields : s.Yields c.inp.atEnd c.unread bs fin) :
    ∃ c', passContent c = .leave c' ∧ StreamFilled fin bs c' := by
  obtain ⟨c', hpass, hsteps, hrec', hr, hk⟩ := passContent_deliver hrec hspans hn
  obtain ⟨k, hmin⟩ : ∃ k, min n (e - r) = k := ⟨_, rfl⟩
  rw [hmin] at hsteps hrec' hk
  obtain ⟨l, hl, hlen, hunread, -⟩ := hsteps.taken hspans
  have hbuff : c'.stream.buff = c.stream.buff := hsteps.buff
  rw [hunread, ← hsteps.inp] at hyields
  obtain ⟨hafter, hcontent⟩ := Scan.after_content (l := l) hphase
    (List.length_pos_iff.mp (by omega)) (by omega)
  obtain ⟨rest, hbs, hrest⟩ := hyields.deliver hafter hcontent
  rw [hlen] at hrest
  have hphase' : Matches s.stale [] c'.toStop.stream
      (if n ≤ k then .closing p else .content (n - k) p) := by
    by_cases hall : n ≤ k
    · rw [if_pos hall]
      rw [show n - k = 0 by omega] at hrec'
      exact matches_closing (hstale ▸ hrec')
    · rw [if_neg hall]
      exact ⟨hrec', by omega, hstale, rfl⟩
  have hwaits : Waits fin rest [] c'.toStop :=
    ⟨hrec'.eorStop, { s with
        phase := if n ≤ k then .closing p else .content (n - k) p, marked := true },
      ⟨hphase', hfollows.steps hsteps rfl rfl rfl, ⟨_, _, hsteps.spans⟩, fun _ => rfl, hrest⟩⟩
  refine ⟨c', hpass, .live hr hk (Nat.le_add_right r k) ?_ hwaits, fun hstop => ?_⟩
  · rw [hbs, hbuff, Nat.add_sub_cancel_left, hl]
  · rw [hr, hk] at hstop
    omega

/-- Content that is skipped is passed over, and the loop goes round or on to the padding. -/
theorem passContent_skipping (d : ℕ) (hphase : s.phase = .skipping n p) (hspans : c.Spans r e)
    (hlt : r < e) (hrec : InRecord c.stream false n p true) (hn : 0 < n) (hstale : s.stale = false)
    (hfollows : Follows s c) (hyields : s.Yields c.inp.atEnd c.unread bs fin) :
    (∃ c', passContent c = .loop c' ∧ Passed fin bs c.unread.length (.again ([], c'))) ∨
    ∃ c' pass, passContent c = .next c' ∧ passEnd (fillAt (d + 1)) [] c' = some pass ∧
      Passed fin bs c.unread.length pass := by
  obtain ⟨c', hpass, hsteps, hrec'⟩ := passContent_skip hrec hspans hn
  obtain ⟨k, hmin⟩ : ∃ k, min n (e - r) = k := ⟨_, rfl⟩
  rw [hmin] at hpass hsteps hrec'
  obtain ⟨l, -, hlen, hunread, hless⟩ := hsteps.taken hspans
  rw [hunread, ← hsteps.inp] at hyields
  obtain ⟨hafter, hnone⟩ := Scan.after_skipping (l := l) hphase
    (List.length_pos_iff.mp (by omega)) (by omega)
  have hrest := hyields.pass hafter hnone
  rw [hlen] at hrest
  -- the skip flag is cleared together with the last byte of the content
  have hphase' : Matches s.stale [] c'.stream (.passing (n - k) p) := by
    refine matches_passing _ hrec' ?_ fun _ => hstale
    by_cases hall : n - k = 0
    · rw [if_pos hall, hstale, decide_eq_false (by omega)]
    · rw [if_neg hall, decide_eq_true (by omega)]
  have hfollows' : Follows { s with phase := .passing (n - k) p, marked := false } c' :=
    hfollows.steps hsteps rfl rfl rfl
  by_cases hshort : k < n
  · rw [if_pos hshort] at hpass
    exact .inl ⟨c', hpass, passed_again hrec'.eorStop hphase' hfollows' ⟨_, _, hsteps.spans⟩ rfl
      hrest (by omega)⟩
  · rw [if_neg hshort] at hpass
    have hzero : c'.stream.contentLen = 0 := by
      rw [hrec'.contentLen, show n - k = 0 by omega, Nat.cast_zero]
    have hless' : c'.unread.length < c.unread.length := by omega
    obtain ⟨pass, hend, hpassed⟩ := passEnd_passed d hphase' hzero hrec'.eorStop hsteps.spans
      hfollows' hrest (.inl ⟨rfl, hless'⟩)
    exact .inr ⟨c', pass, hpass, hend, hpassed⟩

/-- **One pass of the loop of `fill`** keeps in step with the scan, or leaves the loop with the
buffer filled. -/
theorem fillBody_passed (d : ℕ) (h : Waits fin bs headerBuf c) :
    ∃ pass, fillBody (fillAt (d + 1)) (headerBuf, c) = some pass ∧
      Passed fin bs c.unread.length pass := by
  obtain ⟨heor, s, hphase, hfollows, ⟨r, e, hspans⟩, hmarked, hyields⟩ := h
  by_cases hnil : c.unread = []
  · -- the source ends
    have hsound := hyields.sound
    rw [hnil, Scan.sound_nil] at hsound
    rcases hsound with ⟨f, hf⟩ | ⟨hatEnd, hmark⟩
    · rw [hf] at hphase
      exact hphase.elim
    · obtain rfl : bs = [] := by rw [← hyields.content_eq, hnil, Scan.content]
      rw [fillBody, hspans.refill_end hnil hatEnd]
      exact ⟨_, rfl, filled_setException ⟨r, e, hspans⟩ (hmarked hmark)⟩
  obtain ⟨c₁, r₁, e₁, hrefill, hspans₁, hlt, hunread, hsame⟩ := hspans.refill_next hnil
  have hfollows₁ := hfollows.same hsame
  have heor₁ : c₁.stream.eorStop = false := hsame.eorStop.trans heor
  have hphase₁ : Matches s.stale headerBuf c₁.stream s.phase := by
    cases hp : s.phase <;> rw [hp] at hphase
    case finished => exact hphase
    all_goals exact ⟨hphase.1.same hsame, hphase.2⟩
  rw [← hsame.atEnd, ← hunread] at hyields
  rw [← hunread]
  simp only [fillBody, hrefill]
  cases hp : s.phase with
  | header got =>
      rw [hp] at hphase₁
      rw [passContent_none hphase₁.1]
      exact passEnd_passed d (hp ▸ hphase₁) hphase₁.1.contentLen heor₁ hspans₁ hfollows₁ hyields
        (.inr ⟨hlt, le_rfl⟩)
  | padding p =>
      rw [hp] at hphase₁
      rw [passContent_none hphase₁.1]
      exact passEnd_passed d (hp ▸ hphase₁) hphase₁.1.contentLen heor₁ hspans₁ hfollows₁ hyields
        (.inr ⟨hlt, le_rfl⟩)
  | content n p =>
      rw [hp] at hphase₁
      obtain ⟨hrec, hn, hstale, -⟩ := hphase₁
      obtain ⟨c', hpass, hfilled⟩ :=
        passContent_stream hp hspans₁ hlt hrec hn hstale hfollows₁ hyields
      rw [hpass]
      exact ⟨_, rfl, hfilled⟩
  | skipping n p =>
      rw [hp] at hphase₁
      obtain ⟨hrec, hn, hstale, rfl⟩ := hphase₁
      rcases passContent_skipping d hp hspans₁ hlt hrec hn hstale hfollows₁ hyields with
        ⟨c', hpass, hpassed⟩ | ⟨c', pass, hpass, hend, hpassed⟩
      · rw [hpass]
        exact ⟨_, rfl, hpassed⟩
      · simp only [hpass, hend]
        exact ⟨_, rfl, hpassed⟩
  | values query n p =>
      rw [hp] at hphase₁
      cases heor₁.symm.trans hphase₁.1.eorStop
  | finished f =>
      rw [hp] at hphase₁
      exact hphase₁.elim

theorem Waits.length_le (h : Waits fin bs headerBuf c) :
    (∃ r e, c.Spans r e) ∧ c.stream.isClosed = false ∧ bs.length ≤ c.unread.length := by
  obtain ⟨-, s, hstep⟩ := h
  refine ⟨hstep.spans, hstep.follows.isOpen, ?_⟩
  rw [← hstep.yields.content_eq]
  exact s.length_content_le _

/-- **`fill` supplies the content of the stream** and then the end. -/
theorem supplies_stream (fin : Prop) : Supplies fill (Streams fin) := by
  apply supplies_reading Waits.length_le
  intro bs c h _
  refine run_total_measured (n := c.unread.length)
    (fun n x => Waits fin bs x.1 x.2 ∧ x.2.unread.length = n) _ ?_ ⟨h, rfl⟩ (by omega)
  rintro n ⟨headerBuf, c⟩ ⟨h, rfl⟩
  obtain ⟨pass, hpass, hpassed⟩ := fillBody_passed 0 h
  cases pass with
  | done c' => exact .inl ⟨c', hpass, hpassed⟩
  | again x => exact .inr ⟨x, x.2.unread.length, hpass, ⟨hpassed.1, rfl⟩, hpassed.2⟩

end InChan

end Java

end FastCgi
