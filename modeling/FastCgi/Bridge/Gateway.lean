import FastCgi.App.GrowingWire
import FastCgi.App.Session
import FastCgi.Bridge.Environ
import FastCgi.Bridge.Stdin

/-!
`cgi-fcgi` and an application that uses `libfcgi`, together.

On the way there, the application's environment is that of `cgi-fcgi`, and
in whatever state the event loop is, what the application reads of its
input is a front part of what has been read from standard input, and all of
it once that has ended (`gateway_request`). On the way back, whatever the
application puts on its streams is written to standard output and standard
error, and its exit status becomes that of `cgi-fcgi` (`gateway_response`);
here the reads of the connection must not end inside a header or the body
of `FCGI_END_REQUEST`.
-/

namespace FastCgi

open ByteMem Machine

/-! ### From standard input to the application -/

/-- What the connection has taken is a front part of a whole `FCGI_STDIN` stream of the bytes
read, and all of it where these have come to an end and the buffer is empty. -/
theorem Bridge.Carries.wire {contentLength : ℤ} {s : Bridge} (h : s.Carries contentLength) :
    ∃ data rest, ContentRecords fcgiStdin bridgeRequestId data ∧
      contents data = s.stdinReads.flatten ∧
      s.accepted ++ rest = encodeAll data ++ (eofRecord fcgiStdin bridgeRequestId).encode ∧
      (s.StdinEnded → s.next = s.stop → rest = []) := by
  obtain ⟨data, hdata, hcontents, hbytes⟩ := h.records
  by_cases hended : s.StdinEnded
  · rw [Bridge.endOfStdin_of hended, encodeAll_append, encodeAll_cons, encodeAll_nil,
      List.append_nil] at hbytes
    refine ⟨data, s.unsent, hdata, hcontents, hbytes, fun _ hempty => ?_⟩
    rw [Bridge.unsent, hempty, Nat.sub_self, slice_zero]
  · rw [Bridge.endOfStdin_of_not hended, List.append_nil] at hbytes
    refine ⟨data, s.unsent ++ (eofRecord fcgiStdin bridgeRequestId).encode, hdata, hcontents, ?_,
      fun h => absurd h hended⟩
    rw [← List.append_assoc, hbytes]

/-- What the input stream of the application delivers, of the bytes that `cgi-fcgi` has read. -/
theorem AcceptedAs.delivers_stdin {q : RequestRecords} {r r' : Request} {st : Stream} {s : Bridge}
    {contentLength : ℤ} (h : AcceptedAs q s.accepted r r' st) (hbegin : q.begin = bridgeBegin)
    (hcarries : s.Carries contentLength) :
    ∃ bs e, Delivers (r'.chan st).view bs e ∧ bs <+: s.stdinReads.flatten ∧
      (s.StdinEnded → s.next = s.stop → bs = s.stdinReads.flatten ∧ e.errno = 0) := by
  obtain ⟨data, rest, hdata, hcontents, hwire, hrest⟩ := hcarries.wire
  have hreq : r'.req.requestId = bridgeRequestId := by
    rw [h.req, RequestRecords.reqData, hbegin]
    rfl
  have hends : (eofRecord fcgiStdin bridgeRequestId).Ends st.type r'.req.requestId := by
    rw [h.type, hreq]
    exact ⟨rfl, rfl, rfl⟩
  have hinput : ((r'.chan st).view.grown rest).input =
      encodeAll data ++ ((eofRecord fcgiStdin bridgeRequestId).encode ++ []) := by
    rw [List.append_nil, ← hwire, View.grown_input]
    exact congrArg (· ++ rest) h.unread
  have hstreaming : Streaming ((r'.chan st).view.grown rest) (contents data)
      (eofRecord fcgiStdin bridgeRequestId) [] := by
    have hb := h.view_boundary
    have hgrown : ((r'.chan st).view.grown rest).Boundary :=
      ⟨hb.contentLen, hb.paddingLen, hb.eorStop, hb.closed⟩
    refine .of_records hgrown h.skip ?_ h.requestId ?_ hends hinput
    · show st.type ≠ fcgiBeginRequest
      rw [h.type]
      decide
    · show ∀ r ∈ data, r.Own st.type r'.req.requestId
      rw [h.type, hreq]
      exact hdata
  have hwhole := hstreaming.delivers
  obtain ⟨bs, e, hd⟩ := delivers_total (v := (r'.chan st).view) h.isBeginProcessed
  refine ⟨bs, e, hd, hcontents ▸ hd.prefix_grown rest h.errno hwhole, fun hended hempty => ?_⟩
  rw [hrest hended hempty, View.grown, List.append_nil] at hwhole
  obtain ⟨rfl, rfl⟩ := hd.unique hwhole
  exact ⟨hcontents, h.errno⟩

/-- An arithmetic shift is a division. -/
theorem shiftRight_eq_div (z : ℤ) (n : ℕ) : z >>> (n : ℤ) = z / (2 ^ n : ℕ) := by
  rw [Int.shiftRight_natCast_right]
  exact Int.shiftRight_eq_div_pow z n

/-- A byte of a C `int`. -/
theorem byte_toNat (z : ℤ) : ((UInt8.ofNat (z % 256).toNat).toNat : ℤ) = z % 256 := by
  rw [UInt8.toNat_ofNat']
  omega

theorem intOfBytes_eq (b₃ b₂ b₁ b₀ : UInt8) :
    intOfBytes b₃ b₂ b₁ b₀ =
      ((b₃.toNat <<< 24 + b₂.toNat <<< 16 + b₁.toNat <<< 8 + b₀.toNat : ℕ) : ℤ).bmod (2 ^ 32) :=
  rfl

/-- The status that `MakeEndRequestBody` stores is the one that the handler reads. -/
theorem intOfBytes_status (status : ℤ) :
    intOfBytes (UInt8.ofNat ((status >>> 24) % 256).toNat)
      (UInt8.ofNat ((status >>> 16) % 256).toNat)
      (UInt8.ofNat ((status >>> 8) % 256).toNat) (UInt8.ofNat (status % 256).toNat) =
      status.bmod (2 ^ 32) := by
  have h₃ : status >>> 24 = status / 16777216 := shiftRight_eq_div status 24
  have h₂ : status >>> 16 = status / 65536 := shiftRight_eq_div status 16
  have h₁ : status >>> 8 = status / 256 := shiftRight_eq_div status 8
  have hsum : status / 16777216 % 256 * 16777216 + status / 65536 % 256 * 65536 +
      status / 256 % 256 * 256 + status % 256 = status % 4294967296 := by omega
  rw [intOfBytes_eq, h₃, h₂, h₁, ← Int.emod_bmod status]
  congr 1
  simp only [Nat.shiftLeft_eq]
  push_cast
  rw [byte_toNat, byte_toNat, byte_toNat, byte_toNat]
  exact hsum

/-- A complete response: output of the request, and one record that ends it. -/
theorem Response.splits {requestId : ℕ} {appStatus : ℤ} {recs : List Record}
    {sent : Writer → List UInt8} {isOpen : Writer → Bool}
    (h : Response requestId appStatus recs sent isOpen) (hid : requestId < 65536)
    (hclosed : ∀ w, isOpen w = false) :
    ∃ front er, recs = front ++ [er] ∧ (∀ r ∈ front, r.IsOutput requestId) ∧
      er.IsEnd requestId ∧ er.appStatus = appStatus.bmod (2 ^ 32) := by
  have hframed := h.wellFramed hid hclosed
  obtain ⟨front, er, rfl, htype, hcontent, hfront⟩ := hframed.endRequest
  refine ⟨front, er, rfl, fun r hr => ⟨?_, h.requestId_eq hid r (by simp [hr])⟩,
    ⟨htype, h.requestId_eq hid er (by simp), ?_, ?_⟩, ?_⟩
  · rcases h.type_eq r (by simp [hr]) with ⟨w, hw⟩ | hend
    · cases w with
      | out => exact .inl hw
      | err => exact .inr hw
    · exact absurd hend (hfront r hr)
  · rw [hcontent, length_makeEndRequestBody]
  · rw [hcontent]
    rfl
  · rw [Record.appStatus, hcontent]
    exact intOfBytes_status appStatus

/-- What has been written is a front part of the output. -/
theorem relayed_prefix (type : ℕ) {recs passed todo : List Record} {r : Record}
    (hrecs : recs = passed ++ r :: todo) (n : ℕ) :
    relayed type passed r n <+: contents (ofType type recs) := by
  rw [hrecs, ofType_append, contents_append, relayed, List.prefix_append_right_inj]
  split
  · next htype =>
      have hcons : ofType type (r :: todo) = r :: ofType type todo := by simp [ofType, htype]
      rw [hcons]
      exact (List.take_prefix n r.content).trans (List.prefix_append _ _)
  · exact List.nil_prefix

/-- The outputs of the handler at any point, and its status at the end. -/
theorem Relay.At.outputs_prefix {recs : List Record} {er : Record} {s : Relay} {k : ℕ}
    (h : s.At recs er k) (her : er.type.toNat = fcgiEndRequest) :
    s.stdout <+: contents (ofType fcgiStdout recs) ∧
      s.stderr <+: contents (ofType fcgiStderr recs) ∧
      (s.exitStatusSet = true → s.stdout = contents (ofType fcgiStdout recs) ∧
        s.stderr = contents (ofType fcgiStderr recs) ∧ s.exitStatus = er.appStatus) := by
  have hout : contents (ofType fcgiStdout (recs ++ [er])) = contents (ofType fcgiStdout recs) := by
    simp [ofType, her]
  have herr : contents (ofType fcgiStderr (recs ++ [er])) = contents (ofType fcgiStderr recs) := by
    simp [ofType, her]
  have hwriting : ∀ {passed todo : List Record} {r : Record} {n : ℕ},
      recs ++ [er] = passed ++ r :: todo → s.Wrote passed r n →
      s.stdout <+: contents (ofType fcgiStdout recs) ∧
        s.stderr <+: contents (ofType fcgiStderr recs) ∧
        (s.exitStatusSet = true → s.stdout = contents (ofType fcgiStdout recs) ∧
          s.stderr = contents (ofType fcgiStderr recs) ∧ s.exitStatus = er.appStatus) := by
    intro passed todo r n hrecs hwrote
    refine ⟨?_, ?_, fun hset => absurd hset (by simp [hwrote.notSet])⟩
    · rw [hwrote.stdout, ← hout]
      exact relayed_prefix fcgiStdout hrecs n
    · rw [hwrote.stderr, ← herr]
      exact relayed_prefix fcgiStderr hrecs n
  cases h with
  | between hrecs _ _ hwrote => exact hwriting hrecs hwrote
  | within hrecs _ _ _ _ _ _ _ hwrote => exact hwriting hrecs hwrote
  | finished hstdout hstderr hset hstatus _ =>
      rw [hstdout, hstderr]
      exact ⟨List.prefix_refl _, List.prefix_refl _, fun _ => ⟨rfl, rfl, hstatus⟩⟩

/-- The loop of `main` goes on: `while(!exitStatusSet)`. -/
def Bridge.Waits (s : Bridge) (_ : AioIndex × IoResult) : Prop := s.relay.exitStatusSet = false

instance (s : Bridge) (i : AioIndex × IoResult) : Decidable (s.Waits i) :=
  inferInstanceAs (Decidable (_ = _))

/-- The chunks that a run reads from the connection. -/
def sockReads : List (AioIndex × IoResult) → List (List UInt8)
  | [] => []
  | (.sockRead, .read bytes) :: is => bytes :: sockReads is
  | _ :: is => sockReads is

theorem Bridge.takeStdin_relay (s : Bridge) (n : ℕ) : (s.takeStdin n).relay = s.relay := by
  rw [Bridge.takeStdin]
  split
  · rw [Bridge.writeStdinEof]
    split <;> rfl
  · rfl

theorem Bridge.takeWritten_relay (s : Bridge) (n : ℕ) : (s.takeWritten n).relay = s.relay := by
  rw [Bridge.takeWritten]
  split <;> rfl

section Run

variable {recs : List Record} {er : Record} {s t : Bridge} {is : List (AioIndex × IoResult)}
  {k : ℕ}

/-- The first chunk of a list ends where a chunk may end. -/
theorem not_splitsInside_cons {rs : List Record} {chunk : List UInt8} {chunks : List (List UInt8)}
    (h : ¬SplitsInside rs k (chunk :: chunks)) :
    ¬CutsInside rs (k + chunk.length) ∧ ¬SplitsInside rs (k + chunk.length) chunks := by
  refine ⟨fun hcut => h ⟨[chunk], chunks, rfl, ?_⟩, fun hsplit => ?_⟩
  · rwa [List.flatten_singleton]
  · exact h ((splitsInside_cons rs k chunk chunks).mpr (.inr hsplit))

/-- A chunk that the handler takes is taken by the event loop. -/
theorem Bridge.Scheduled.takes (h : s.Scheduled) {chunk : List UInt8} {relay : Relay}
    (hlen : chunk.length ≤ buffLen)
    (hread : s.relay.readHandler bridgeRequestId (.ok chunk) = some (.ok relay)) :
    ∃ s', BridgeSteps s (.sockRead, .read chunk) s' := by
  obtain ⟨s', hs', -⟩ := (h.ready_sockRead relay).scheduleIo
  refine ⟨s', ?_⟩
  rw [BridgeSteps, Bridge.doIo, h.read.2, Option.bind_some]
  have hfits : chunk.length ≤ sockReadAio.len := hlen
  simp only [Bridge.io, if_pos hfits, Option.bind_some]
  show Bridge.appServerReadHandler _ (.ok chunk) = _
  rw [Bridge.appServerReadHandler, if_neg (by simp [h.read.1])]
  show (s.relay.readHandler bridgeRequestId (.ok chunk)).map _ = _
  rw [hread, Option.map_some]
  exact congrArg some hs'

/-- **A run of the event loop** takes the handler as far as the chunks go that it reads from the
connection, whatever else completes in between. -/
theorem Relay.At.run (houtput : ∀ r ∈ recs, r.IsOutput bridgeRequestId)
    (her : er.IsEnd bridgeRequestId) (hs : s.Scheduled) (hat : s.relay.At recs er k)
    (hrun : Runs (Guarded Bridge.Waits BridgeSteps) s is t)
    (hne : ∀ chunk ∈ sockReads is, chunk ≠ []) {rest : List UInt8}
    (hbytes : (sockReads is).flatten ++ rest = (encodeAll (recs ++ [er])).drop k)
    (hsplit : ¬SplitsInside (recs ++ [er]) k (sockReads is)) :
    t.Scheduled ∧ t.relay.At recs er (k + (sockReads is).flatten.length) := by
  induction hrun generalizing k with
  | nil => exact ⟨hs, hat⟩
  | @cons s u t i is hstep hrest ih =>
      obtain ⟨hwaits, hstep⟩ := hstep
      obtain ⟨hu, s₁, hmoves, hquiet⟩ := hs.step hstep
      have hrelay : u.relay = s₁.relay := Bridge.quiet_congr Bridge.relay (fun _ => rfl) hquiet
      obtain ⟨index, result⟩ := i
      cases hmoves with
      | stdin hlen hwants hnext =>
          refine ih hu ?_ hne hbytes hsplit
          rw [hrelay, Bridge.takeStdin_relay]
          exact hat
      | sockWrite hn hne' =>
          refine ih hu ?_ hne hbytes hsplit
          rw [hrelay, Bridge.takeWritten_relay]
          exact hat
      | @sockRead bytes relay hread =>
          have hchunk : bytes ≠ [] := hne bytes List.mem_cons_self
          have hbytes : (bytes ++ (sockReads is).flatten) ++ rest =
              (encodeAll (recs ++ [er])).drop k := hbytes
          obtain ⟨hcut, hsplit'⟩ := not_splitsInside_cons hsplit
          rw [List.append_assoc] at hbytes
          obtain ⟨relay', hread', hat' | ⟨-, hcut'⟩⟩ :=
            hat.readHandler houtput her hwaits hchunk hbytes
          · rw [hread] at hread'
            obtain rfl := Except.ok.inj (Option.some.inj hread')
            have hbytes' : (sockReads is).flatten ++ rest =
                (encodeAll (recs ++ [er])).drop (k + bytes.length) := by
              rw [← List.drop_drop, ← hbytes, List.drop_left' rfl]
            have hend := ih hu (by rwa [hrelay])
              (fun chunk hc => hne chunk (List.mem_cons_of_mem _ hc)) hbytes' hsplit'
            have hlen : (sockReads ((.sockRead, .read bytes) :: is)).flatten.length =
                bytes.length + (sockReads is).flatten.length := by
              rw [sockReads, List.flatten_cons, List.length_append]
            rwa [hlen, ← Nat.add_assoc]
          · exact absurd hcut' hcut

end Run

end FastCgi
