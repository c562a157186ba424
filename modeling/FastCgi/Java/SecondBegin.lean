import FastCgi.Java.EndsCleanly
import FastCgi.Java.InsideRecord

/-!
A second `FCGI_BEGIN_REQUEST` record on a connection of the Java library.

`processBeginRecord` means to refuse it, as the C library does, but it gives
the refusal to the output stream of the active request, and then goes on to
accept the new request. If the output stream throws an exception, the record
has not gone out; if it does not, the active request has lost its id
(`begin_not_refused`).
-/

namespace FastCgi

namespace Java

open ByteMem BoundedLoop

/-! ### An output stream that throws an exception -/

/-- What a stream has sent since `c`: the front of a sequence of records of its type, and all of
it while it is open. -/
structure OutChan.Streamed (c c' : OutChan) : Prop where
  fits : c'.Fits
  type : c'.stream.type = c.stream.type
  sent : ∃ recs sent, c'.out.written = c.out.written ++ sent ∧ sent <+: encodeAll recs ∧
    (∀ r ∈ recs, r.type.toNat = c.stream.type) ∧
    (c'.stream.isClosed = true ∨ (∃ pending, c'.stream.Holding pending) ∧ sent = encodeAll recs)

variable {c c' : OutChan}

theorem OutChan.Streamed.refl (hf : c.Fits)
    (h : c.stream.isClosed = true ∨ ∃ pending, c.stream.Holding pending) : c.Streamed c :=
  ⟨hf, rfl, [], [], (List.append_nil _).symm, List.prefix_rfl, fun _ hr => absurd hr List.not_mem_nil,
    h.imp_right fun h => ⟨h, rfl⟩⟩

theorem OutChan.Streamed.put (h : c.Streamed c') {bs : List UInt8}
    (hroom : bs.length ≤ c'.stream.stop - c'.stream.wrNext) : c.Streamed (c'.put bs) := by
  obtain ⟨⟨htype, hid⟩, hsame, recs, sent, hwritten, hle, hrecs, hend⟩ := h
  refine ⟨⟨htype, hid⟩, hsame, recs, sent, hwritten, hle, hrecs, ?_⟩
  rcases hend with hclosed | ⟨⟨pending, hholding⟩, hall⟩
  · exact .inl hclosed
  · exact .inr ⟨⟨pending ++ bs, hholding.put hroom⟩, hall⟩

/-- An open stream whose buffer is empty. -/
theorem holding_reserveHeader {s : FcgiOutputStream} {pending : List UInt8} (h : s.Holding pending)
    (hsame : c.stream.isClosed = s.isClosed ∧ c.stream.rawWrite = s.rawWrite ∧
      c.stream.stop = s.stop) (hzero : c.stream.wrNext = 0) :
    c.reserveHeader.stream.Holding [] := by
  obtain ⟨hclosed, hraw, hstop⟩ := hsame
  have hge := h.stop_ge
  have hle := h.stop_le
  rw [OutChan.reserveHeader, if_neg (by rw [hraw, h.rawWrite]; decide)]
  refine ⟨hclosed.trans h.isOpen, hraw.trans h.rawWrite, ?_, ?_, ?_, ?_, rfl⟩
  · show c.stream.wrNext + 8 ≤ c.stream.stop
    omega
  · show c.stream.stop ≤ 65535
    omega
  · show 24 ≤ c.stream.stop
    omega
  · show c.stream.wrNext + 8 = 8
    omega

theorem out_reserveHeader (c : OutChan) : c.reserveHeader.out = c.out := by
  rw [OutChan.reserveHeader]
  split <;> rfl

theorem type_reserveHeader (c : OutChan) : c.reserveHeader.stream.type = c.stream.type := by
  rw [OutChan.reserveHeader]
  split <;> rfl

theorem request_reserveHeader (c : OutChan) : c.reserveHeader.request = c.request := by
  rw [OutChan.reserveHeader]
  split <;> rfl

/-- `empty` of a stream that is still open. -/
theorem OutChan.Streamed.empty (h : c.Streamed c') (hopen : c'.stream.isClosed ≠ true) :
    c.Streamed c'.empty := by
  obtain ⟨hf, hsame, recs, sent, hwritten, -, hrecs, hend⟩ := h
  obtain ⟨⟨pending, hholding⟩, rfl⟩ := hend.resolve_left hopen
  obtain ⟨recs', buff, wrNext, hblock, hbytes, -, henc⟩ := encapsulate_holding hholding hf
  have hrecs' : ∀ r ∈ recs ++ recs', r.type.toNat = c.stream.type := by
    intro r hr
    rcases List.mem_append.mp hr with hr | hr
    · exact hrecs r hr
    · exact (hblock.records r hr).1.trans hsame
  rw [OutChan.empty, henc, OutChan.flushBuff]
  by_cases hne : wrNext ≠ 0
  · rw [if_pos hne, OutChan.writeBuff]
    rcases c'.out.write_cases (slice buff 0 wrNext) with
      ⟨out, hwrite, hout, -⟩ | ⟨k, out, hwrite, hout, -⟩
    · simp only [hwrite]
      refine ⟨⟨?_, ?_⟩, ?_, recs ++ recs', encodeAll (recs ++ recs'), ?_, List.prefix_rfl, hrecs',
        .inr ⟨⟨[], holding_reserveHeader hholding ⟨rfl, rfl, rfl⟩ rfl⟩, rfl⟩⟩
      · rw [type_reserveHeader]
        exact hf.type_lt
      · rw [request_reserveHeader]
        exact hf.requestID_lt
      · rw [type_reserveHeader]
        exact hsame
      · rw [out_reserveHeader]
        rw [hwritten, hbytes, List.append_assoc, ← encodeAll_append] at hout
        exact hout
    · -- the exception cuts the record short, and closes the stream
      simp only [hwrite]
      refine ⟨⟨hf.type_lt, hf.requestID_lt⟩, hsame, recs ++ recs',
        encodeAll recs ++ (slice buff 0 wrNext).take k, ?_, ?_,
        hrecs', .inl rfl⟩
      · rw [hwritten, List.append_assoc] at hout
        exact hout
      · rw [encodeAll_append, hbytes]
        exact (List.prefix_append_right_inj _).mpr (List.take_prefix k _)
  · have hzero : wrNext = 0 := not_not.mp hne
    rw [if_neg hne]
    refine ⟨⟨?_, ?_⟩, ?_, recs, encodeAll recs, ?_, List.prefix_rfl, hrecs,
      .inr ⟨⟨[], holding_reserveHeader hholding ⟨rfl, rfl, rfl⟩ hzero⟩, rfl⟩⟩
    · rw [type_reserveHeader]
      exact hf.type_lt
    · rw [request_reserveHeader]
      exact hf.requestID_lt
    · rw [type_reserveHeader]
      exact hsame
    · rw [out_reserveHeader]
      exact hwritten

/-- **A call of `write`**, whether it throws an exception or not, sends records of the stream. -/
theorem writeBytes_streamed {b : List UInt8} {ok : Bool} (hf : c.Fits)
    (h : c.stream.isClosed = true ∨ ∃ pending, c.stream.Holding pending)
    (hrun : c.writeBytes b = some (ok, c')) : c.Streamed c' := by
  have hstart := OutChan.Streamed.refl hf h
  rw [OutChan.writeBytes] at hrun
  split at hrun
  · next hroom =>
      cases hrun
      exact hstart.put hroom
  · refine run_invariant (I := fun x : ℕ × OutChan => c.Streamed x.2)
      (P := fun r : Bool × OutChan => c.Streamed r.2) ?_ hstart hrun
    intro x p hx hpass
    have hempty : ∀ y : ℕ × OutChan, c.Streamed y.2 → (OutChan.writeEmpty y).Holds
        (fun x : ℕ × OutChan => c.Streamed x.2) (fun r : Bool × OutChan => c.Streamed r.2) := by
      intro y hy
      rw [OutChan.writeEmpty]
      split
      · exact hy
      · next hopen => exact hy.empty hopen
    have hput : c.Streamed (x.2.put ((b.drop x.1).take
        (min (b.length - x.1) (x.2.stream.stop - x.2.stream.wrNext)))) := by
      apply hx.put
      rw [List.length_take]
      omega
    dsimp only [OutChan.writeBody] at hpass
    split at hpass
    · cases hpass
      exact hempty x hx
    · split at hpass
      · cases hpass
        exact hput
      · cases hpass
        exact hempty _ hput

/-- Whole records at the front of a sequence of records are among them. -/
theorem mem_of_encode_front {recs pre : List Record} {r : Record}
    (h : encodeAll pre ++ r.encode <+: encodeAll recs) : r ∈ recs := by
  induction pre generalizing recs with
  | nil =>
      obtain ⟨post, hpost⟩ := h
      cases recs with
      | nil => exact absurd (List.append_eq_nil_iff.mp hpost).1 (by simp [Record.encode_ne_nil])
      | cons r' recs =>
          obtain ⟨rfl, -⟩ := encode_append_inj hpost
          exact List.mem_cons_self
  | cons r₀ pre ih =>
      obtain ⟨post, hpost⟩ := h
      rw [encodeAll_cons, List.append_assoc, List.append_assoc] at hpost
      cases recs with
      | nil => exact absurd (List.append_eq_nil_iff.mp hpost).1 r₀.encode_ne_nil
      | cons r' recs =>
          obtain ⟨rfl, hrest⟩ := encode_append_inj hpost
          exact List.mem_cons_of_mem _ (ih ⟨post, by rw [List.append_assoc]; exact hrest⟩)

/-! ### The second begin record -/

/-- An active request: its output stream, if there is one yet, is between two calls. -/
structure InRequest.Active (r : InRequest) : Prop where
  isBeginProcessed : r.isBeginProcessed = true
  requestID_lt : r.requestID < 65536
  outStream : ∀ s, r.outStream = some s →
    s.type = fcgiStdout ∧ (s.isClosed = true ∨ ∃ pending, s.Holding pending)

/-- The record with which a second request is refused. -/
def cantMpxRecord (requestID : ℕ) : Record :=
  dataRecord fcgiEndRequest requestID (makeEndRequestBody 0 fcgiCantMpxConn) []
    (makeEndRequestBody_le 0 fcgiCantMpxConn) nil_padding_le

/-- A request is refused: the active one is as it was, and the refusal is on the socket, behind
whole records. -/
structure Refuses (c c' : InChan) (id : ℕ) : Prop where
  requestID : c'.request.requestID = c.request.requestID
  role : c'.request.role = c.request.role
  keepConnection : c'.request.keepConnection = c.request.keepConnection
  refusal : ∃ recs rest,
    c'.socket.written = c.socket.written ++ (encodeAll recs ++ ((cantMpxRecord id).encode ++ rest))

namespace InChan

variable {c c' start : InChan} {requestID : ℕ} {q : Record}

/-- What has become of an active request whose output stream was given the refusal of another:
it has lost its id, or only records of the output stream are on the socket. -/
inductive Disturbed (start : InChan) (requestID : ℕ) (c : InChan) : Prop
  | replaced (h : c.request.requestID = requestID)
  | thrown (recs : List Record) (sent : List UInt8)
      (hwritten : c.socket.written = start.socket.written ++ sent) (hsent : sent <+: encodeAll recs)
      (htype : ∀ r ∈ recs, r.type.toNat = fcgiStdout)

theorem Disturbed.not_refuses (h : Disturbed start requestID c)
    (hother : requestID ≠ start.request.requestID) : ¬Refuses start c requestID := by
  rintro ⟨hid, -, -, pre, rest, hrefusal⟩
  cases h with
  | replaced h => exact hother (h.symm.trans hid)
  | thrown recs sent hwritten hsent htype =>
      have hsent' : encodeAll pre ++ (cantMpxRecord requestID).encode <+: encodeAll recs := by
        refine List.IsPrefix.trans ⟨rest, ?_⟩ hsent
        rw [List.append_assoc]
        exact List.append_cancel_left (hrefusal.symm.trans hwritten)
      have hstdout := htype _ (mem_of_encode_front hsent')
      have hend : (cantMpxRecord requestID).type.toNat = fcgiEndRequest := rfl
      rw [hend] at hstdout
      exact absurd hstdout (by decide)

/-- The refusal is given to the output stream. -/
theorem writeCantMpx_disturbed {ok : Bool} (h : c.request.Active)
    (hwrite : c.writeCantMpx requestID = some (ok, c')) :
    (ok = false → Disturbed c requestID c') ∧ c'.stream = c.stream := by
  rw [writeCantMpx] at hwrite
  split at hwrite
  · cases hwrite
  · next s hs =>
      obtain ⟨htype, hready⟩ := h.outStream s hs
      have hf : (c.outChan s).Fits := ⟨by rw [outChan, htype]; decide, h.requestID_lt⟩
      split at hwrite
      · cases hwrite
      · next o hrun =>
          cases hwrite
          obtain ⟨-, -, recs, sent, hwritten, hsent, hrecs, -⟩ := writeBytes_streamed hf hready hrun
          exact ⟨fun _ => .thrown recs sent hwritten hsent fun r hr => (hrecs r hr).trans htype, rfl⟩
      · cases hwrite
        exact ⟨nofun, rfl⟩

/-- The new request is accepted. -/
theorem readBegin_replaces {status : Status} (d : ℕ) (heor : c.stream.eorStop = true)
    (hread : c.readBegin (fillAt d) requestID = some (status, c')) :
    c'.request.requestID = requestID ∧ (status = .beginRecord ∨ ∃ e, status = .error e) := by
  rw [readBegin] at hread
  split at hread
  · cases hread
  · next body c₁ hbody =>
      have hinside := Inside.readBytes
        (staysInside_fillAt { c with request := { c.request with requestID := requestID } } d)
        ⟨rfl, rfl, heor⟩ hbody
      have hid : c₁.request.requestID = requestID := by rw [hinside.request_eq]
      split at hread
      · cases hread
        exact ⟨hid, .inr ⟨_, rfl⟩⟩
      · cases hread
        exact ⟨hid, .inl rfl⟩

/-- **A second begin record is not refused.** -/
theorem processBeginRecord_disturbed {status : Status} (d : ℕ) (h : c.request.Active)
    (heor : c.stream.eorStop = true) (hid : requestID ≠ 0) (hlen : c.stream.contentLen = 8)
    (hprocess : c.processBeginRecord (fillAt d) requestID = some (status, c')) :
    Disturbed c requestID c' ∧ (status = .beginRecord ∨ ∃ e, status = .error e) := by
  rw [processBeginRecord, if_neg (by simp [hid, hlen]), if_pos h.isBeginProcessed] at hprocess
  split at hprocess
  · cases hprocess
  · next c₁ hwrite =>
      cases hprocess
      exact ⟨(writeCantMpx_disturbed h hwrite).1 rfl, .inr ⟨_, rfl⟩⟩
  · next c₁ hwrite =>
      have hstream := (writeCantMpx_disturbed h hwrite).2
      obtain ⟨hreplaced, hstatus⟩ := readBegin_replaces d (hstream ▸ heor) hprocess
      exact ⟨.replaced hreplaced, hstatus⟩

/-! ### The record on the wire -/

/-- The stream meets the record `q` next, behind padding that is still there. -/
structure Meets (q : Record) (post : List UInt8) (c : InChan) : Prop where
  spans : ∃ r e, c.Spans r e
  unread : ∃ pad skip, InRecord c.stream false 0 pad.length skip ∧
    c.unread = pad ++ (q.encode ++ post)

/-- The loop of `fill` on its way through the header of `q`. -/
structure Meeting (start : InChan) (q : Record) (post : List UInt8) (x : List UInt8 × InChan) :
    Prop where
  request_eq : x.2.request = start.request
  socket_eq : x.2.socket = start.socket
  spans : ∃ r e, x.2.Spans r e
  unread : ∃ pad skip rest, InRecord x.2.stream false 0 pad.length skip ∧
    x.2.unread = pad ++ rest ∧ x.1 ++ rest = q.encode ++ post ∧ x.1.length < 8

variable {post headerBuf rest : List UInt8} {r e : ℕ} {skip : Bool}
  {p : Pass (List UInt8 × InChan) InChan}

/-- What a pass leads to. -/
abbrev MeetsDisturbed (start : InChan) (q : Record) (post : List UInt8) :
    Pass (List UInt8 × InChan) InChan → Prop :=
  Pass.Holds (Meeting start q post) (Disturbed start q.requestId.toNat)

theorem Disturbed.congr (h : Disturbed start requestID c) (hrequest : c'.request = c.request)
    (hsocket : c'.socket = c.socket) : Disturbed start requestID c' := by
  cases h with
  | replaced h => exact .replaced (hrequest ▸ h)
  | thrown recs sent hwritten hsent htype =>
      exact .thrown recs sent (hsocket ▸ hwritten) hsent htype

/-- With its last byte the header is interpreted. -/
theorem passHeader_meeting (d : ℕ) (hactive : start.request.Active) (hbegins : q.Begins)
    (hrequest : c.request = start.request) (hsocket : c.socket = start.socket)
    (hspans : c.Spans r e) (hrec : InRecord c.stream false 0 0 skip)
    (hwire : headerBuf ++ c.unread = q.encode ++ post) (hlt : headerBuf.length < 8)
    (hpass : passHeader (fillAt d) headerBuf c = some p) : MeetsDisturbed start q post p := by
  have hle := hspans.le
  obtain ⟨k, hk⟩ : ∃ k, min (8 - headerBuf.length) (e - r) = k := ⟨_, rfl⟩
  have hcount :
      min (8 - (headerBuf.length : ℤ)) (c.stream.buffStop - c.stream.rdNext) = (k : ℕ) := by
    rw [hspans.buffStop, hspans.rdNext]
    omega
  obtain ⟨htake, hsteps⟩ := hspans.takeBytes (k := k) (by omega)
  obtain ⟨l, hl, hlen, hunread, -⟩ := hsteps.taken hspans
  rw [passHeader, hcount, htake, hl] at hpass
  rw [hunread, ← List.append_assoc] at hwire
  have hrec' : InRecord (c.advance k).stream false 0 0 skip :=
    ⟨hrec.eorStop, hrec.contentLen, hrec.paddingLen, hrec.skip⟩
  by_cases hshort : (headerBuf ++ l).length < 8
  · simp only [if_pos hshort] at hpass
    cases hpass
    exact ⟨hrequest, hsocket, ⟨_, _, hsteps.spans⟩, [], skip, _, hrec', rfl, hwire, hshort⟩
  · simp only [if_neg hshort] at hpass
    have height : (headerBuf ++ l).length = 8 := by
      rw [List.length_append] at hshort ⊢
      omega
    have hheader : Header.ofBytes (headerBuf ++ l) = q.header := by
      rw [encode_append_eq, ← Header.bytes_ofBytes height] at hwire
      exact (header_append_inj hwire).1
    rw [hheader, processHeader, if_neg (not_not.mpr q.header_version), dispatchHeader,
      if_pos (by rw [q.header_type, hbegins.type_eq]), q.header_requestId] at hpass
    split at hpass
    · cases hpass
    · next status c₁ hprocess =>
        obtain ⟨hdisturbed, hstatus⟩ := processBeginRecord_disturbed d
          (c := (c.advance k).enterRecord.startRecord q.header) (hrequest ▸ hactive) rfl
          hbegins.id_ne_null (by
            show (q.header.contentLength : ℤ) = 8
            rw [q.header_contentLength, hbegins.length_content]
            rfl) hprocess
        cases hpass
        have hstart : Disturbed start q.requestId.toNat c₁ := by
          cases hdisturbed with
          | replaced h => exact .replaced h
          | thrown recs sent hwritten hsent htype =>
              exact .thrown recs sent (hwritten.trans (by rw [← hsocket]; rfl)) hsent htype
        rcases hstatus with rfl | ⟨e, rfl⟩ <;> exact hstart.congr rfl rfl

/-- One pass of the loop. -/
theorem fillBody_meeting (d : ℕ) (hactive : start.request.Active) (hbegins : q.Begins)
    {x : List UInt8 × InChan} (h : Meeting start q post x)
    (hpass : fillBody (fillAt d) x = some p) : MeetsDisturbed start q post p := by
  obtain ⟨hrequest, hsocket, ⟨r, e, hspans⟩, pad, skip, rest, hrec, hunread, hwire, hlt⟩ := h
  have hne : x.2.unread ≠ [] := by
    rw [hunread]
    intro hnil
    have hlen := congrArg List.length hwire
    rw [(List.append_eq_nil_iff.mp hnil).2, List.append_nil, List.length_append,
      Record.length_encode] at hlen
    omega
  obtain ⟨c₁, r₁, e₁, hrefill, hspans₁, hlt₁, hunread₁, hsame⟩ := hspans.refill_next hne
  have hrec₁ := hrec.same hsame
  rw [hunread] at hunread₁
  simp only [fillBody, hrefill, passContent_none hrec₁, passEnd] at hpass
  by_cases hpad : pad.length = 0
  · obtain rfl := List.length_eq_zero_iff.mp hpad
    simp only [passPadding_none hrec₁, checkEor, hrec₁.eorStop, Bool.false_eq_true, if_false]
      at hpass
    refine passHeader_meeting d hactive hbegins (hsame.request.trans hrequest)
      (hsame.socket.trans hsocket) hspans₁ hrec₁ ?_ hlt hpass
    rw [hunread₁]
    exact hwire
  · obtain ⟨c₂, hpadding, hsteps, hrec₂⟩ := passPadding_skip hrec₁ hspans₁ (by omega)
    obtain ⟨k, hk⟩ : ∃ k, min pad.length (e₁ - r₁) = k := ⟨_, rfl⟩
    rw [hk] at hpadding hsteps hrec₂
    have hrequest₂ := hsteps.request.trans (hsame.request.trans hrequest)
    have hsocket₂ := hsteps.socket.trans (hsame.socket.trans hsocket)
    obtain ⟨l, -, hlen, htaken, -⟩ := hsteps.taken hspans₁
    have hrest : c₂.unread = pad.drop k ++ rest := by
      have hdrop := congrArg (List.drop k) (htaken.symm.trans hunread₁)
      rwa [List.drop_left' hlen, List.drop_append_of_le_length (by omega)] at hdrop
    rw [← List.length_drop] at hrec₂
    rw [hpadding] at hpass
    by_cases hmore : k < pad.length
    · simp only [if_pos hmore] at hpass
      cases hpass
      exact ⟨hrequest₂, hsocket₂, ⟨_, _, hsteps.spans⟩, _, skip, rest, hrec₂, hrest, hwire, hlt⟩
    · have hnil : pad.drop k = [] := List.drop_eq_nil_of_le (by omega)
      rw [hnil] at hrec₂ hrest
      simp only [if_neg hmore, checkEor, hrec₂.eorStop, Bool.false_eq_true, if_false] at hpass
      refine passHeader_meeting d hactive hbegins hrequest₂ hsocket₂ hsteps.spans hrec₂ ?_ hlt hpass
      rw [hrest]
      exact hwire

end InChan

/-- **The Java library refuses no second request.** Whatever the state of the active request and
its streams, when `fill` meets the begin record of another one, in any chunks, the active request
is not left as it was with the refusal on the socket. -/
theorem begin_not_refused {c : InChan} {q : Record} {post : List UInt8}
    (hactive : c.request.Active) (hmeets : InChan.Meets q post c) (hbegins : q.Begins)
    (hother : q.requestId.toNat ≠ c.request.requestID) :
    ¬∃ c', InChan.fill c = some c' ∧ Refuses c c' q.requestId.toNat := by
  rintro ⟨c', hfill, hrefuses⟩
  obtain ⟨hspans, pad, skip, hrec, hunread⟩ := hmeets
  have hstart : InChan.Meeting c q post ([], c) :=
    ⟨rfl, rfl, hspans, pad, skip, _, hrec, hunread, rfl, Nat.zero_lt_succ 7⟩
  have hdisturbed : InChan.Disturbed c q.requestId.toNat c' :=
    run_invariant (I := InChan.Meeting c q post) (P := InChan.Disturbed c q.requestId.toNat)
      (fun _ _ hx hpass => InChan.fillBody_meeting 1 hactive hbegins hx hpass) hstart hfill
  exact hdisturbed.not_refuses hother hrefuses

theorem secondBody_le : ([0, 1, 1, 0, 0, 0, 0, 0] : List UInt8).length ≤ 65535 := by decide

/-- The record that begins request 2. -/
def secondBegin : Record :=
  { type := 1, requestId := 2, content := [0, 1, 1, 0, 0, 0, 0, 0], padding := [], reserved := 0
    content_le := secondBody_le, padding_le := nil_padding_le }

/-- Request 1 is active with 16 bytes of room in its output stream; the begin record comes in two
chunks, and content of request 1 behind it. -/
def activeReader : InChan :=
  let c := stdinFrom [[1, 1, 0, 2, 0, 8], [0, 0, 0, 1, 1, 0, 0, 0, 0, 0, 1, 5, 0, 1, 0, 1, 0, 0, 65]]
    .ioException
  { c with request := { c.request with outStream := some (newOutputStream 24 fcgiStdout) } }

theorem begin_not_refused_active :
    ¬∃ c', InChan.fill activeReader = some c' ∧
      Refuses activeReader c' secondBegin.requestId.toNat := by
  have hmeets : InChan.Meets secondBegin [1, 5, 0, 1, 0, 1, 0, 0, 65] activeReader :=
    ⟨⟨0, 0, rfl, rfl, le_rfl, Nat.zero_le _, by decide⟩, [], false, ⟨rfl, rfl, rfl, rfl⟩,
      by decide +kernel⟩
  refine begin_not_refused ⟨rfl, by decide, fun s hs => ?_⟩ hmeets ⟨rfl, by decide, rfl⟩ (by decide)
  cases hs
  exact ⟨rfl, .inr ⟨[], rfl, rfl, by decide, by decide, by decide, rfl, rfl⟩⟩

/-- The active request has become request 2, the refusal is content of its output, and a read
reports the end where there is content of request 1. -/
theorem begin_takesOver :
    activeReader.request.requestID = 1 ∧
      (InChan.fill activeReader).map (fun c => (c.request.requestID, c.socket.written,
        c.request.outStream.map fun s => slice s.buff 8 (s.wrNext - 8))) =
          some (2, [], some (cantMpxRecord 2).encode) ∧
      (activeReader.performAll [.read]).map Prod.fst = some [.byte none] := by
  decide +kernel

end Java

end FastCgi
