import FastCgi.App.Reassembly
import FastCgi.Java.EndsCleanly

/-!
The Java reader on the records of its own stream.

On a wire that holds the records of the stream, an empty record that ends it,
and whatever is behind that, `fill` supplies the contents of the records and
then the end, and it leaves what is behind the empty record (`supplies_own`).
Inside the record that begins a request it supplies the body of that record
(`supplies_body`).
-/

namespace FastCgi

namespace Java

open ByteMem BoundedLoop

namespace InChan

variable {c c' start : InChan} {r e k N : ℕ} {bs headerBuf : List UInt8}

/-! ### Calls -/

section Calls

variable {I : List UInt8 → InChan → Prop}

/-- A call takes its bytes from the front of what the stream delivers. -/
theorem Supplies.perform (h : Supplies InChan.fill I) (hI : I bs c) (call : InCall) :
    ∃ c', c.perform call = some (call.reply bs, c') ∧ I (bs.drop call.asked) c' := by
  cases call with
  | read =>
      obtain ⟨c', hread, hI', -⟩ := h.read hI
      rw [← List.drop_one] at hI'
      exact ⟨c', by rw [InChan.perform, hread]; rfl, hI'⟩
  | readBytes len =>
      obtain ⟨c', hread, hI', -⟩ := h.readBytes hI len
      exact ⟨c', by rw [InChan.perform, hread]; rfl, hI'⟩

theorem Supplies.performAll (h : Supplies InChan.fill I) (hI : I bs c) (calls : List InCall) :
    ∃ c', c.performAll calls = some (replies bs calls, c') := by
  induction calls generalizing bs c with
  | nil => exact ⟨c, rfl⟩
  | cons call calls ih =>
      obtain ⟨c₁, hperform, hI₁⟩ := h.perform hI call
      obtain ⟨c₂, hrest⟩ := ih hI₁
      exact ⟨c₂, by simp only [InChan.performAll, hperform, hrest, Option.map_some, replies]⟩

end Calls

/-! ### What the stages keep -/

/-- The request, the socket and the stream are those of `start`, up to what has been read. -/
structure Undisturbed (start c : InChan) : Prop where
  type : c.stream.type = start.stream.type
  errno : c.stream.errno = start.stream.errno
  request : c.request = start.request
  socket : c.socket = start.socket

theorem Undisturbed.steps (h : Undisturbed start c) (hsteps : c.Steps c' r e k) :
    Undisturbed start c' where
  type := hsteps.type.trans h.type
  errno := hsteps.errno.trans h.errno
  request := hsteps.request.trans h.request
  socket := hsteps.socket.trans h.socket

theorem Undisturbed.same (h : Undisturbed start c) (hsame : c.Same c') : Undisturbed start c' where
  type := hsame.type.trans h.type
  errno := hsame.errno.trans h.errno
  request := hsame.request.trans h.request
  socket := hsame.socket.trans h.socket

/-- Bytes are taken off the front of what is to come. -/
theorem Steps.rest {front rest : List UInt8} (h : c.Steps c' r e k) (hspans : c.Spans r e)
    (hunread : c.unread = front ++ rest) (hk : k ≤ front.length) :
    slice c.stream.buff r k = front.take k ∧ c'.unread = front.drop k ++ rest := by
  obtain ⟨l, hl, hlen, hsplit, -⟩ := h.taken hspans
  have heq : l ++ c'.unread = front.take k ++ (front.drop k ++ rest) := by
    rw [← hsplit, hunread, ← List.append_assoc, List.take_append_drop]
  obtain ⟨htake, hdrop⟩ := List.append_inj heq (by rw [hlen, List.length_take]; omega)
  exact ⟨hl.trans htake, hdrop⟩

/-! ### Headers -/

/-- A pass takes the bytes of the header that are in the buffer, and interprets a header that is
complete. -/
theorem passHeader_collects (fill : InChan → Option InChan) (hspans : c.Spans r e)
    (hrec : InRecord c.stream false 0 0 false) {got more : List UInt8} (hgot : got.length < 8)
    {header : Header} (hwire : got ++ c.unread = header.bytes ++ more) :
    ∃ c' k, c.Steps c' r e k ∧ InRecord c'.stream false 0 0 false ∧ (r < e → 0 < k) ∧
      ((∃ got', passHeader fill got c = some (.again (got', c')) ∧ got'.length < 8 ∧
          got' ++ c'.unread = header.bytes ++ more) ∨
        passHeader fill got c = (processHeader fill header c'.enterRecord).map
          (fun x => onStatus x.1 x.2.leaveRecord) ∧ c'.unread = more) := by
  have hle := hspans.le
  obtain ⟨k, hk⟩ : ∃ k, min (8 - got.length) (e - r) = k := ⟨_, rfl⟩
  have hcount : min (8 - (got.length : ℤ)) (c.stream.buffStop - c.stream.rdNext) = (k : ℕ) := by
    rw [hspans.buffStop, hspans.rdNext]
    omega
  obtain ⟨htake, hsteps⟩ := hspans.takeBytes (k := k) (by omega)
  obtain ⟨l, hl, hlen, hunread, -⟩ := hsteps.taken hspans
  have hlength : (got ++ l).length = got.length + k := by rw [List.length_append, hlen]
  rw [hunread, ← List.append_assoc] at hwire
  refine ⟨c.advance k, k, hsteps, ⟨hrec.eorStop, hrec.contentLen, hrec.paddingLen, hrec.skip⟩,
    fun hlt => by omega, ?_⟩
  rw [passHeader, hcount, htake, hl]
  by_cases hshort : got.length + k < 8
  · simp only [hlength, if_pos hshort]
    exact .inl ⟨got ++ l, rfl, hlength.trans_lt hshort, hwire⟩
  · obtain ⟨hheader, hrest⟩ := List.append_inj hwire (by rw [hlength, header.length_bytes]; omega)
    simp only [hheader, Header.length_bytes, lt_irrefl, if_false, Header.ofBytes_bytes]
    refine .inr ⟨?_, hrest⟩
    cases processHeader fill header (c.advance k).enterRecord with
    | none => rfl
    | some x => rfl

/-! ### The stream -/

/-- The loop of `fill` is about to deliver `bs`: there is a rest of the current record, then there
are the records of the stream, of which some bytes of a header may have arrived, and then `last`
and `tail`. -/
structure Awaits (start : InChan) (last : Record) (tail bs headerBuf : List UInt8) (c : InChan) :
    Prop where
  kept : Undisturbed start c
  isOpen : c.stream.isClosed = false
  spans : ∃ r e, c.Spans r e
  got : headerBuf.length < 8
  ahead : ∃ content padding records,
    InRecord c.stream false content.length padding.length false ∧
      (headerBuf = [] ∨ content = [] ∧ padding = []) ∧
      headerBuf ++ c.unread =
        content ++ (padding ++ (encodeAll records ++ (last.encode ++ tail))) ∧
      (∀ q ∈ records, q.Own start.stream.type start.request.requestID) ∧
      bs = content ++ contents records

/-- The stream has ended with the record `last`. -/
structure EndedBy (start : InChan) (last : Record) (tail : List UInt8) (c : InChan) : Prop where
  kept : Undisturbed start c
  unread : c.unread = last.padding ++ tail

/-- A pass leaves the loop with the buffer filled, or goes round with fewer than `N` bytes to
come. -/
abbrev OwnPassed (start : InChan) (last : Record) (tail bs : List UInt8) (N : ℕ) :
    Pass (List UInt8 × InChan) InChan → Prop :=
  Pass.Holds (fun x => Awaits start last tail bs x.1 x.2 ∧ x.2.unread.length < N)
    (Filled (fun bs c => Awaits start last tail bs [] c) (EndedBy start last tail) bs)

variable {last : Record} {tail : List UInt8} {records : List Record}

theorem length_contents_le (records : List Record) :
    (contents records).length ≤ (encodeAll records).length := by
  induction records with
  | nil => exact le_rfl
  | cons q records ih =>
      rw [contents, List.flatMap_cons, ← contents, encodeAll_cons, List.length_append,
        List.length_append, q.length_encode]
      omega

/-- The header of a record of the stream. -/
theorem processHeader_streamRecord (fill : InChan → Option InChan) {q : Record}
    (htype : q.type.toNat = c.stream.type) (hid : q.requestId.toNat = c.request.requestID)
    (hbegin : c.stream.type ≠ fcgiBeginRequest) (hnull : c.request.requestID ≠ fcgiNullRequestId) :
    processHeader fill q.header c = some (.streamRecord, c.startRecord q.header) := by
  have htype' : (c.startRecord q.header).stream.type = c.stream.type := rfl
  have hid' : (c.startRecord q.header).request.requestID = c.request.requestID := rfl
  rw [processHeader, if_neg (by simp), dispatchHeader, q.header_type, q.header_requestId, htype, hid,
    if_neg hbegin, if_neg hnull, if_neg (not_not.mpr hid'.symm), if_neg (not_not.mpr htype'.symm)]

section Own

variable (hbegin : start.stream.type ≠ fcgiBeginRequest)
  (hnull : start.request.requestID ≠ fcgiNullRequestId)
  (hlast : last.Ends start.stream.type start.request.requestID)
include hbegin hnull hlast

/-- A header of the stream has arrived: its content comes next, or the stream ends. -/
theorem header_own (fill : InChan → Option InChan) (hkept : Undisturbed start c)
    (hspans : c.Spans r e) (hrec : InRecord c.stream false 0 0 false)
    (hown : ∀ q ∈ records, q.Own start.stream.type start.request.requestID) {header : Header}
    (hwire : header.bytes ++ c.unread = encodeAll records ++ (last.encode ++ tail))
    (hN : c.unread.length < N) :
    ∃ x, processHeader fill header c.enterRecord = some x ∧
      OwnPassed start last tail (contents records) N (onStatus x.1 x.2.leaveRecord) := by
  obtain ⟨hr, he, hle, hroom, hchunks⟩ := hspans
  obtain ⟨htype, herrno, hrequest, hsocket⟩ := hkept
  have hid : c.enterRecord.request.requestID = start.request.requestID :=
    congrArg (fun request => request.requestID) hrequest
  have hbegin' : c.enterRecord.stream.type ≠ fcgiBeginRequest := fun h => hbegin (htype ▸ h)
  have hnull' : c.enterRecord.request.requestID ≠ fcgiNullRequestId :=
    fun h => hnull (hid ▸ h)
  cases records with
  | nil =>
      rw [encodeAll_nil, List.nil_append, encode_append_eq] at hwire
      obtain ⟨rfl, hunread⟩ := header_append_inj hwire
      obtain ⟨hlasttype, hlastid, hnone⟩ := hlast
      refine ⟨_, processHeader_streamRecord fill (hlasttype.trans htype.symm)
        (hlastid.trans hid.symm) hbegin' hnull', ?_⟩
      have hlen : (c.enterRecord.startRecord last.header).leaveRecord.stream.contentLen = 0 := by
        show ((last.header.contentLength : ℕ) : ℤ) = 0
        rw [last.header_contentLength, hnone]
        rfl
      rw [onStatus, if_pos hlen]
      rw [hnone, List.nil_append] at hunread
      exact ⟨.ended ⟨rfl, rfl⟩ ⟨r, e, hr, he, hle, hroom, hchunks⟩
        ⟨⟨htype, herrno, hrequest, hsocket⟩, hunread⟩, fun _ => rfl⟩
  | cons q records =>
      rw [encodeAll_cons, List.append_assoc, encode_append_eq] at hwire
      obtain ⟨rfl, hunread⟩ := header_append_inj hwire
      obtain ⟨hqtype, hqid, hne⟩ := hown q List.mem_cons_self
      refine ⟨_, processHeader_streamRecord fill (hqtype.trans htype.symm)
        (hqid.trans hid.symm) hbegin' hnull', ?_⟩
      have hlen : (c.enterRecord.startRecord q.header).leaveRecord.stream.contentLen =
          q.content.length := by
        show ((q.header.contentLength : ℕ) : ℤ) = _
        rw [q.header_contentLength]
      have hpos := List.length_pos_iff.mpr hne
      rw [onStatus, if_neg (by rw [hlen]; omega)]
      refine ⟨⟨⟨htype, herrno, hrequest, hsocket⟩, rfl, ⟨r, e, hr, he, hle, hroom, hchunks⟩,
        Nat.zero_lt_succ 7, q.content, q.padding, records, ⟨rfl, hlen, ?_, hrec.skip⟩, .inl rfl, hunread,
        fun q' hq' => hown q' (List.mem_cons_of_mem _ hq'), rfl⟩, hN⟩
      show ((q.header.paddingLength.toNat : ℕ) : ℤ) = _
      rw [q.header_paddingLength]

/-- A pass ends in a header. If no byte has been passed before, there is one in the buffer. -/
theorem passHeader_own (fill : InChan → Option InChan) (hkept : Undisturbed start c)
    (hopen : c.stream.isClosed = false) (hspans : c.Spans r e)
    (hrec : InRecord c.stream false 0 0 false) {got : List UInt8} (hgot : got.length < 8)
    (hown : ∀ q ∈ records, q.Own start.stream.type start.request.requestID)
    (hwire : got ++ c.unread = encodeAll records ++ (last.encode ++ tail))
    (hN : c.unread.length < N ∨ r < e ∧ c.unread.length ≤ N) :
    ∃ pass, passHeader fill got c = some pass ∧
      OwnPassed start last tail (contents records) N pass := by
  have height : 8 ≤ (got ++ c.unread).length := by
    simp only [hwire, List.length_append, Record.length_encode]
    omega
  obtain ⟨header, more, hheader⟩ := exists_header height
  rw [hheader] at hwire
  obtain ⟨c', k, hsteps, hrec', hpos, hgoes⟩ := passHeader_collects fill hspans hrec hgot hheader
  have hopen' : c'.stream.isClosed = false := hsteps.isClosed.trans hopen
  have hless : c'.unread.length + k = c.unread.length := (hsteps.taken hspans).choose_spec.2.2.2
  have hN' : c'.unread.length < N := by
    rcases hN with hlt | ⟨hlt, hle⟩
    · omega
    · have := hpos hlt
      omega
  rcases hgoes with ⟨got', hpass, hgot', hrest⟩ | ⟨hpass, hrest⟩
  · rw [← hrest] at hwire
    exact ⟨_, hpass, ⟨hkept.steps hsteps, hopen', ⟨_, _, hsteps.spans⟩, hgot', [], [], records,
      hrec', .inr ⟨rfl, rfl⟩, hwire, hown, rfl⟩, hN'⟩
  · rw [← hrest] at hwire
    obtain ⟨x, hprocess, hpassed⟩ := header_own hbegin hnull hlast fill
      (hkept.steps hsteps) hsteps.spans hrec' hown hwire hN'
    exact ⟨_, by rw [hpass, hprocess]; rfl, hpassed⟩

/-- A pass behind the content of a record. -/
theorem passEnd_own (fill : InChan → Option InChan) (hkept : Undisturbed start c)
    (hopen : c.stream.isClosed = false) (hspans : c.Spans r e) (hlt : r < e)
    {padding : List UInt8} (hrec : InRecord c.stream false 0 padding.length false)
    (hgot : headerBuf.length < 8) (hpadding : headerBuf = [] ∨ padding = [])
    (hown : ∀ q ∈ records, q.Own start.stream.type start.request.requestID)
    (hwire : headerBuf ++ c.unread = padding ++ (encodeAll records ++ (last.encode ++ tail))) :
    ∃ pass, passEnd fill headerBuf c = some pass ∧
      OwnPassed start last tail (contents records) c.unread.length pass := by
  rw [passEnd]
  rcases Nat.eq_zero_or_pos padding.length with hzero | hpos
  · obtain rfl := List.length_eq_zero_iff.mp hzero
    simp only [passPadding_none hrec, checkEor_stream hrec.eorStop]
    exact passHeader_own hbegin hnull hlast fill hkept hopen hspans hrec hgot hown hwire
      (.inr ⟨hlt, le_rfl⟩)
  · obtain rfl := hpadding.resolve_right (List.length_pos_iff.mp hpos)
    obtain ⟨c', hpass, hsteps, hrec'⟩ := passPadding_skip hrec hspans hpos
    obtain ⟨k, hmin⟩ : ∃ k, min padding.length (e - r) = k := ⟨_, rfl⟩
    rw [hmin] at hpass hsteps hrec'
    have hless : c'.unread.length + k = c.unread.length :=
      (hsteps.taken hspans).choose_spec.2.2.2
    obtain ⟨-, hrest⟩ := hsteps.rest hspans hwire (by omega)
    have hopen' : c'.stream.isClosed = false := hsteps.isClosed.trans hopen
    by_cases hshort : k < padding.length
    · rw [if_pos hshort] at hpass
      simp only [hpass]
      refine ⟨_, rfl, ⟨hkept.steps hsteps, hopen', ⟨_, _, hsteps.spans⟩, hgot, [],
        padding.drop k, records, ?_, .inl rfl, hrest, hown, rfl⟩, ?_⟩
      · rw [List.length_drop]
        exact hrec'
      · show c'.unread.length < c.unread.length
        omega
    · rw [if_neg hshort] at hpass
      rw [List.drop_eq_nil_of_le (by omega), List.nil_append] at hrest
      rw [show padding.length - k = 0 by omega] at hrec'
      simp only [hpass, checkEor_stream hrec'.eorStop]
      exact passHeader_own hbegin hnull hlast fill (hkept.steps hsteps) hopen' hsteps.spans hrec'
        hgot hown hrest (.inl (by omega))

/-- **One pass of the loop of `fill`** delivers content of the stream, ends the stream or gets on
to it. -/
theorem fillBody_own (fill : InChan → Option InChan) (h : Awaits start last tail bs headerBuf c) :
    ∃ pass, fillBody fill (headerBuf, c) = some pass ∧
      OwnPassed start last tail bs c.unread.length pass := by
  obtain ⟨hkept, hopen, ⟨r, e, hspans⟩, hgot, content, padding, records, hrec, hempty, hwire, hown,
    rfl⟩ := h
  have hne : c.unread ≠ [] := by
    intro hnil
    have hlen := congrArg List.length hwire
    rw [hnil, List.append_nil] at hlen
    simp only [List.length_append, Record.length_encode] at hlen
    omega
  obtain ⟨c₁, r₁, e₁, hrefill, hspans₁, hlt, hunread, hsame⟩ := hspans.refill_next hne
  have hkept₁ := hkept.same hsame
  have hopen₁ : c₁.stream.isClosed = false := hsame.isClosed.trans hopen
  have hrec₁ := hrec.same hsame
  rw [← hunread] at hwire
  rw [← hunread]
  simp only [fillBody, hrefill]
  rcases Nat.eq_zero_or_pos content.length with hzero | hpos
  · obtain rfl := List.length_eq_zero_iff.mp hzero
    simp only [passContent_none hrec₁]
    exact passEnd_own hbegin hnull hlast fill hkept₁ hopen₁ hspans₁ hlt hrec₁ hgot
      (hempty.imp id And.right) hown hwire
  · obtain rfl := hempty.resolve_right fun hnil => by rw [hnil.1] at hpos; exact absurd hpos (by simp)
    obtain ⟨c', hpass, hsteps, hrec', hr, hk⟩ := passContent_deliver hrec₁ hspans₁ hpos
    obtain ⟨k, hmin⟩ : ∃ k, min content.length (e₁ - r₁) = k := ⟨_, rfl⟩
    rw [hmin] at hsteps hrec' hk
    obtain ⟨htaken, hrest⟩ := hsteps.rest hspans₁ hwire (by omega)
    have hbuff : c'.stream.buff = c₁.stream.buff := hsteps.buff
    have hawaits : Awaits start last tail (content.drop k ++ contents records) [] c'.toStop :=
      ⟨hkept₁.steps hsteps, hsteps.isClosed.trans hopen₁, ⟨_, _, hsteps.spans⟩, hgot,
        content.drop k, padding, records, by rw [List.length_drop]; exact hrec', .inl rfl, hrest,
        hown, rfl⟩
    simp only [hpass]
    refine ⟨_, rfl, .live hr hk (Nat.le_add_right r₁ k) ?_ hawaits, fun hstop => ?_⟩
    · rw [hbuff, Nat.add_sub_cancel_left, htaken, ← List.append_assoc, List.take_append_drop]
    · rw [hr, hk] at hstop
      omega

omit hbegin hnull hlast in
theorem Awaits.length_le (h : Awaits start last tail bs headerBuf c) :
    (∃ r e, c.Spans r e) ∧ c.stream.isClosed = false ∧
      (headerBuf = [] → bs.length ≤ c.unread.length) := by
  obtain ⟨hkept, hopen, hspans, hgot, content, padding, records, hrec, hempty, hwire, hown, rfl⟩ := h
  refine ⟨hspans, hopen, fun hnil => ?_⟩
  have hlen := congrArg List.length hwire
  rw [hnil, List.nil_append] at hlen
  have hcontents := length_contents_le records
  simp only [List.length_append] at hlen ⊢
  omega

/-- **`fill` supplies the contents of the records** and then the end. -/
theorem supplies_own (d : ℕ) : Supplies (fillAt (d + 1))
    (Reading (fun bs c => Awaits start last tail bs [] c) (EndedBy start last tail)) := by
  apply supplies_reading
  · intro bs c h
    obtain ⟨hspans, hopen, hlen⟩ := h.length_le
    exact ⟨hspans, hopen, hlen rfl⟩
  · intro bs c h _
    refine run_total_measured (n := c.unread.length)
      (fun n x => Awaits start last tail bs x.1 x.2 ∧ x.2.unread.length = n) _ ?_ ⟨h, rfl⟩
      (by omega)
    rintro n ⟨headerBuf, c⟩ ⟨h, rfl⟩
    obtain ⟨pass, hpass, hpassed⟩ := fillBody_own hbegin hnull hlast (fillAt d) h
    cases pass with
    | done c' => exact .inl ⟨c', hpass, hpassed⟩
    | again x => exact .inr ⟨x, x.2.unread.length, hpass, ⟨hpassed.1, rfl⟩, hpassed.2⟩

end Own

/-! ### The record that begins a request -/

/-- The loop of `fill` under `eorStop`: the record, which has no padding, has `bs` left, and behind
it there is `rest`. -/
structure InBody (start : InChan) (rest bs : List UInt8) (c : InChan) : Prop where
  kept : Undisturbed start c
  isOpen : c.stream.isClosed = false
  spans : ∃ r e, c.Spans r e
  inRecord : InRecord c.stream true bs.length 0 false
  unread : c.unread = bs ++ rest

/-- The body has been read. -/
structure LeftAt (start : InChan) (rest : List UInt8) (c : InChan) : Prop where
  kept : Undisturbed start c
  unread : c.unread = rest

variable {rest : List UInt8}

/-- One pass delivers bytes of the body, or reports its end. -/
theorem fillBody_body (fill : InChan → Option InChan) (hrest : rest ≠ [])
    (h : InBody start rest bs c) :
    ∃ c', fillBody fill ([], c) = some (.done c') ∧
      Filled (InBody start rest) (LeftAt start rest) bs c' := by
  obtain ⟨hkept, hopen, ⟨r, e, hspans⟩, hrec, hunread⟩ := h
  have hne : c.unread ≠ [] := fun hnil => hrest (List.append_eq_nil_iff.mp (hunread ▸ hnil)).2
  obtain ⟨c₁, r₁, e₁, hrefill, hspans₁, hlt, hunread₁, hsame⟩ := hspans.refill_next hne
  have hkept₁ := hkept.same hsame
  have hrec₁ := hrec.same hsame
  rw [← hunread₁] at hunread
  simp only [fillBody, hrefill]
  rcases Nat.eq_zero_or_pos bs.length with hzero | hpos
  · obtain rfl := List.length_eq_zero_iff.mp hzero
    have heor : checkEor c₁ = .leave { c₁ with
        stream := { c₁.stream with stop := c₁.stream.rdNext, isClosed := true } } := by
      rw [checkEor, if_pos hrec₁.eorStop]
    obtain ⟨hr, he, hle, hroom, hchunks⟩ := hspans₁
    obtain ⟨htype, herrno, hrequest, hsocket⟩ := hkept₁
    simp only [passContent_none hrec₁, passEnd, passPadding_none hrec₁, heor]
    exact ⟨_, rfl, .ended ⟨rfl, rfl⟩ ⟨r₁, e₁, hr, he, hle, hroom, hchunks⟩
      ⟨⟨htype, herrno, hrequest, hsocket⟩, hunread⟩, fun _ => rfl⟩
  · obtain ⟨c', hpass, hsteps, hrec', hr, hk⟩ := passContent_deliver hrec₁ hspans₁ hpos
    obtain ⟨k, hmin⟩ : ∃ k, min bs.length (e₁ - r₁) = k := ⟨_, rfl⟩
    rw [hmin] at hsteps hrec' hk
    obtain ⟨htaken, hleft⟩ := hsteps.rest hspans₁ hunread (by omega)
    have hbuff : c'.stream.buff = c₁.stream.buff := hsteps.buff
    have hbody : InBody start rest (bs.drop k) c'.toStop :=
      ⟨hkept₁.steps hsteps, hsteps.isClosed.trans (hsame.isClosed.trans hopen),
        ⟨_, _, hsteps.spans⟩, by rw [List.length_drop]; exact hrec', hleft⟩
    simp only [hpass]
    refine ⟨_, rfl, .live hr hk (Nat.le_add_right r₁ k) ?_ hbody, fun hstop => ?_⟩
    · rw [hbuff, Nat.add_sub_cancel_left, htaken, List.take_append_drop]
    · rw [hr, hk] at hstop
      omega

/-- **The calls of `fill` inside the record** supply its body and then the end. -/
theorem supplies_body (d : ℕ) (start : InChan) (hrest : rest ≠ []) :
    Supplies (fillAt (d + 1)) (Reading (InBody start rest) (LeftAt start rest)) := by
  apply supplies_reading
  · intro bs c h
    refine ⟨h.spans, h.isOpen, ?_⟩
    rw [h.unread, List.length_append]
    exact Nat.le_add_right _ _
  · intro bs c h _
    obtain ⟨c', hpass, hfilled⟩ := fillBody_body (fillAt d) hrest h
    exact ⟨c', run_done hpass, hfilled⟩

/-- Where nothing is left of the body, the stream is behind it. -/
theorem Reading.leftAt (h : Reading (InBody start rest) (LeftAt start rest) [] c) :
    LeftAt start rest c ∧ ∃ r e, c.Spans r e := by
  generalize hbs : ([] : List UInt8) = bs at h
  cases h with
  | @live _ more _ r k hr hk hle hsplit hbody =>
      rw [← hbs] at hsplit
      obtain ⟨hslice, rfl⟩ := List.append_eq_nil_iff.mp hsplit.symm
      rw [slice_eq_nil_iff] at hslice
      have hstop : c.toStop = c := toStop_of_eq (by rw [hr, hk]; omega)
      rw [hstop] at hbody
      exact ⟨⟨hbody.kept, hbody.unread⟩, hbody.spans⟩
  | ended _ hspans hleft => exact ⟨hleft, hspans⟩

end InChan

end Java

end FastCgi
