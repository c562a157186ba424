import FastCgi.Bridge.EventLoop

/-!
What `cgi-fcgi` makes of its standard input.

The buffer `fromWS` is filled by `WebServerReadHandler` and `WriteStdinEof`
and emptied by `AppServerWriteHandler`, in whatever order the operations
complete. `Bridge.Carries` is the invariant: what the connection has taken
and what is still to be sent are records, whose content is what the reads
have delivered. The memory of the buffer has no end in the model, so that
the bounds of the C array are results (`Bridge.InBounds`).
-/

namespace FastCgi

open ByteMem Machine

/-- The bytes of `fromWS` that are still to be sent. -/
def Bridge.unsent (s : Bridge) : List UInt8 := slice s.buff s.next (s.stop - s.next)

/-- The end of standard input is reached: `CONTENT_LENGTH` bytes are read, or a read has
delivered nothing. -/
def Bridge.StdinEnded (s : Bridge) : Prop := s.bytesToRead ≤ 0 ∨ [] ∈ s.stdinReads

instance (s : Bridge) : Decidable s.StdinEnded := inferInstanceAs (Decidable (_ ∨ _))

/-- The record that ends the stream, once it has ended. -/
def Bridge.endOfStdin (s : Bridge) : List Record :=
  if s.StdinEnded then [eofRecord fcgiStdin bridgeRequestId] else []

/-- What is sent and what is to be sent are the records of standard input. -/
structure Bridge.Carries (contentLength : ℤ) (s : Bridge) : Prop where
  records : ∃ data, ContentRecords fcgiStdin bridgeRequestId data ∧
    contents data = s.stdinReads.flatten ∧
    s.accepted ++ s.unsent = encodeAll (data ++ s.endOfStdin)
  sent : s.stdinEofSent = true ↔ s.bytesToRead ≤ 0
  eof : s.webServerReadHandlerEOF = true ↔ [] ∈ s.stdinReads
  count : s.bytesToRead = contentLength - s.stdinReads.flatten.length

section Carries

variable {contentLength : ℤ} {s s' : Bridge}

theorem Bridge.Carries.congr (h : s.Carries contentLength) (hquiet : s'.quiet = s.quiet) :
    s'.Carries contentLength := by
  have hs : s.quiet.Carries contentLength := ⟨h.records, h.sent, h.eof, h.count⟩
  rw [← hquiet] at hs
  exact ⟨hs.records, hs.sent, hs.eof, hs.count⟩

/-- The bytes that `MakeHeader` stores for the empty record. -/
theorem encode_stdinEof :
    (eofRecord fcgiStdin bridgeRequestId).encode =
      (makeHeader fcgiStdin bridgeRequestId 0 0).bytes := by
  rw [eofRecord, encode_dataRecord (by decide) (by decide)]
  simp

/-- A header at the front of the buffer and the content behind it. -/
theorem slice_header_content (m : ℕ → UInt8) (h : Header) (bytes : List UInt8) :
    slice (store (store m fcgiHeaderLen bytes) 0 h.bytes) 0 (fcgiHeaderLen + bytes.length) =
      h.bytes ++ bytes := by
  have hfront : slice (store (store m 8 bytes) 0 h.bytes) 0 8 = h.bytes :=
    slice_store (store m 8 bytes) 0 h.bytes
  have hback : slice (store (store m 8 bytes) 0 h.bytes) 8 bytes.length = bytes := by
    rw [slice_store_after (by rw [h.length_bytes]), slice_store]
  rw [slice_add, hfront, Nat.zero_add, hback]

/-- `WriteStdinEof` where the end mark is still due. -/
theorem Bridge.unsent_writeStdinEof (hle : s.next ≤ s.stop) (hsent : s.stdinEofSent = false) :
    s.writeStdinEof.unsent = s.unsent ++ (eofRecord fcgiStdin bridgeRequestId).encode := by
  have hstore : s.next + (s.stop - s.next) = s.stop := Nat.add_sub_cancel' hle
  rw [Bridge.writeStdinEof, if_neg (by simp [hsent]), encode_stdinEof]
  show slice (store s.buff s.stop _) s.next (s.stop + 8 - s.next) = _
  rw [show s.stop + 8 - s.next = (s.stop - s.next) + 8 by omega]
  have happend := slice_store_append (m := s.buff) (i := s.next) (n := s.stop - s.next)
    (makeHeader fcgiStdin bridgeRequestId 0 0).bytes
  rwa [hstore] at happend

@[simp] theorem Bridge.writeStdinEof_accepted (s : Bridge) :
    s.writeStdinEof.accepted = s.accepted := by
  rw [Bridge.writeStdinEof]
  split <;> rfl

@[simp] theorem Bridge.writeStdinEof_stdinReads (s : Bridge) :
    s.writeStdinEof.stdinReads = s.stdinReads := by
  rw [Bridge.writeStdinEof]
  split <;> rfl

@[simp] theorem Bridge.writeStdinEof_bytesToRead (s : Bridge) :
    s.writeStdinEof.bytesToRead = s.bytesToRead := by
  rw [Bridge.writeStdinEof]
  split <;> rfl

@[simp] theorem Bridge.writeStdinEof_webServerReadHandlerEOF (s : Bridge) :
    s.writeStdinEof.webServerReadHandlerEOF = s.webServerReadHandlerEOF := by
  rw [Bridge.writeStdinEof]
  split <;> rfl

@[simp] theorem Bridge.writeStdinEof_stdinEofSent (s : Bridge) :
    s.writeStdinEof.stdinEofSent = true := by
  rw [Bridge.writeStdinEof]
  split
  · next hsent => exact hsent
  · rfl

theorem stdin_content_le {bytes : List UInt8} (h : bytes.length ≤ buffLen - fcgiHeaderLen) :
    bytes.length ≤ 65535 := Nat.le_trans h (by decide)

/-- The record of the bytes of one read. -/
def stdinRecord (bytes : List UInt8) (h : bytes.length ≤ buffLen - fcgiHeaderLen) : Record :=
  dataRecord fcgiStdin bridgeRequestId bytes [] (stdin_content_le h) nil_padding_le

theorem encode_stdinRecord {bytes : List UInt8} (h : bytes.length ≤ buffLen - fcgiHeaderLen) :
    (stdinRecord bytes h).encode =
      (makeHeader fcgiStdin bridgeRequestId bytes.length 0).bytes ++ bytes := by
  rw [stdinRecord, encode_dataRecord (by decide) (by decide), List.append_nil]
  rfl

/-- Bytes are written. -/
theorem Bridge.Carries.takeWritten (h : s.Carries contentLength) {n : ℕ}
    (hn : n ≤ s.stop - s.next) :
    (Bridge.takeWritten { s with accepted := s.accepted ++ slice s.buff s.next n } n).Carries
      contentLength := by
  obtain ⟨⟨data, hdata, hcontents, hbytes⟩, hsent, heof, hcount⟩ := h
  rw [Bridge.takeWritten]
  split
  · next hlt =>
      refine ⟨⟨data, hdata, hcontents, ?_⟩, hsent, heof, hcount⟩
      refine Eq.trans ?_ hbytes
      show (s.accepted ++ slice s.buff s.next n) ++
        slice s.buff (s.next + n) (s.stop - (s.next + n)) = _
      rw [List.append_assoc, ← slice_add, Bridge.unsent,
        show n + (s.stop - (s.next + n)) = s.stop - s.next by omega]
  · next hge =>
      have hall : n = s.stop - s.next := by
        have hge : ¬ n < s.stop - s.next := hge
        omega
      refine ⟨⟨data, hdata, hcontents, ?_⟩, hsent, heof, hcount⟩
      refine Eq.trans ?_ hbytes
      show (s.accepted ++ slice s.buff s.next n) ++ [] = _
      rw [List.append_nil, Bridge.unsent, ← hall]

theorem Bridge.not_stdinEnded (hwants : s.WantsStdin)
    (heof : s.webServerReadHandlerEOF = true ↔ [] ∈ s.stdinReads) : ¬ s.StdinEnded := by
  rintro (hdone | hnil)
  · exact absurd hwants.2.1 (by omega)
  · exact absurd (heof.mpr hnil) (by simp [hwants.2.2])

theorem Bridge.endOfStdin_of (h : s.StdinEnded) :
    s.endOfStdin = [eofRecord fcgiStdin bridgeRequestId] := if_pos h

theorem Bridge.endOfStdin_of_not (h : ¬ s.StdinEnded) : s.endOfStdin = [] := if_neg h

theorem contentRecords_stdinRecord {bytes : List UInt8}
    (hlen : bytes.length ≤ buffLen - fcgiHeaderLen) (hne : bytes ≠ []) :
    ContentRecords fcgiStdin bridgeRequestId [stdinRecord bytes hlen] := by
  intro r hr
  obtain rfl := List.mem_singleton.mp hr
  exact ⟨rfl, rfl, hne⟩

/-- `p` is `s` with the bytes of one more read in its empty buffer, as a record. -/
structure Bridge.Puts (s p : Bridge) (bytes : List UInt8)
    (hlen : bytes.length ≤ buffLen - fcgiHeaderLen) : Prop where
  unsent : p.unsent = (stdinRecord bytes hlen).encode
  bytesToRead : p.bytesToRead = s.bytesToRead - bytes.length
  stdinReads : p.stdinReads = s.stdinReads ++ [bytes]
  accepted : p.accepted = s.accepted
  stdinEofSent : p.stdinEofSent = s.stdinEofSent
  readEof : p.webServerReadHandlerEOF = true ↔ bytes = []
  next_le : p.next ≤ p.stop

theorem Bridge.puts_putStdin (hnext : s.next = 0) {bytes : List UInt8}
    (hlen : bytes.length ≤ buffLen - fcgiHeaderLen) :
    s.Puts (Bridge.putStdin { s with
      buff := store s.buff fcgiHeaderLen bytes, stdinReads := s.stdinReads ++ [bytes] }
      bytes.length) bytes hlen where
  unsent := by
    rw [encode_stdinRecord, ← slice_header_content s.buff]
    show slice _ s.next (fcgiHeaderLen + bytes.length - s.next) = _
    rw [hnext, Nat.sub_zero]
    rfl
  bytesToRead := rfl
  stdinReads := rfl
  accepted := rfl
  stdinEofSent := rfl
  readEof := by
    show (bytes.length == 0) = true ↔ _
    rw [beq_iff_eq, List.length_eq_zero_iff]
  next_le := by
    show s.next ≤ _
    rw [hnext]
    exact Nat.zero_le _

/-- The end mark that `WriteStdinEof` adds where all is read. -/
theorem Bridge.Carries.writeStdinEof (data : List Record)
    (hdata : ContentRecords fcgiStdin bridgeRequestId data)
    (hcontents : contents data = s.stdinReads.flatten)
    (hbytes : s.accepted ++ s.unsent = encodeAll data) (hle : s.next ≤ s.stop)
    (hsent : s.stdinEofSent = false) (hdone : s.bytesToRead ≤ 0)
    (heof : s.webServerReadHandlerEOF = true ↔ [] ∈ s.stdinReads)
    (hcount : s.bytesToRead = contentLength - s.stdinReads.flatten.length) :
    s.writeStdinEof.Carries contentLength := by
  have hended : s.writeStdinEof.StdinEnded := .inl (by simpa using hdone)
  refine ⟨⟨data, hdata, by simpa using hcontents, ?_⟩, by simpa using hdone, by simpa using heof,
    by simpa using hcount⟩
  rw [Bridge.unsent_writeStdinEof hle hsent, Bridge.endOfStdin_of hended,
    Bridge.writeStdinEof_accepted, ← List.append_assoc, hbytes, encodeAll_append, encodeAll_cons,
    encodeAll_nil, List.append_nil]

/-- What is in the buffer after a read, behind all that has been taken before. -/
theorem Bridge.Puts.bytes {p : Bridge} {bytes : List UInt8}
    {hlen : bytes.length ≤ buffLen - fcgiHeaderLen} (h : s.Puts p bytes hlen) {data : List Record}
    (haccepted : s.accepted = encodeAll data) :
    p.accepted ++ p.unsent = encodeAll (data ++ [stdinRecord bytes hlen]) := by
  rw [h.unsent, h.accepted, haccepted, encodeAll_append, encodeAll_cons, encodeAll_nil,
    List.append_nil]

theorem contents_stdinRecord {data : List Record} {reads : List (List UInt8)} {bytes : List UInt8}
    (hlen : bytes.length ≤ buffLen - fcgiHeaderLen) (hcontents : contents data = reads.flatten) :
    contents (data ++ [stdinRecord bytes hlen]) = (reads ++ [bytes]).flatten := by
  rw [contents_append, hcontents, List.flatten_append, List.flatten_singleton]
  simp [contents, stdinRecord, dataRecord]

/-- Bytes are read. -/
theorem Bridge.Carries.takeStdin (h : s.Carries contentLength) (hwants : s.WantsStdin)
    (hnext : s.next = 0) {bytes : List UInt8} (hlen : bytes.length ≤ buffLen - fcgiHeaderLen) :
    (Bridge.takeStdin { s with
      buff := store s.buff fcgiHeaderLen bytes, stdinReads := s.stdinReads ++ [bytes] }
      bytes.length).Carries contentLength := by
  obtain ⟨⟨data, hdata, hcontents, hbytes⟩, hsent, heof, hcount⟩ := h
  have hopen := Bridge.not_stdinEnded hwants heof
  have hmore := hwants.2.1
  have hnotSent : s.stdinEofSent = false := by
    by_contra hs
    exact absurd (hsent.mp (by simpa using hs)) (by omega)
  have hnone : [] ∉ s.stdinReads := fun hnil => hopen (.inr hnil)
  -- nothing is left in the buffer, so all that came before has been taken
  have haccepted : s.accepted = encodeAll data := by
    have hunsent : s.unsent = [] := by
      rw [Bridge.unsent, ← hwants.1, Nat.sub_self, slice_zero]
    rwa [hunsent, List.append_nil, Bridge.endOfStdin_of_not hopen, List.append_nil] at hbytes
  have hputs := s.puts_putStdin hnext hlen
  rw [Bridge.takeStdin]
  generalize Bridge.putStdin _ _ = p at *
  have hbytes' := hputs.bytes haccepted
  have hcontents' : contents (data ++ [stdinRecord bytes hlen]) = p.stdinReads.flatten := by
    rw [hputs.stdinReads]
    exact contents_stdinRecord hlen hcontents
  have hcount' : p.bytesToRead = contentLength - p.stdinReads.flatten.length := by
    rw [hputs.bytesToRead, hputs.stdinReads, List.flatten_append, List.length_append,
      List.flatten_singleton, hcount]
    push_cast
    omega
  have heof' : p.webServerReadHandlerEOF = true ↔ [] ∈ p.stdinReads := by
    rw [hputs.readEof, hputs.stdinReads, List.mem_append, List.mem_singleton]
    exact ⟨fun hnil => .inr hnil.symm, fun hmem => (hmem.resolve_left hnone).symm⟩
  have hnotSent' : p.stdinEofSent = false := hputs.stdinEofSent.trans hnotSent
  have hdata' (hne : bytes ≠ []) : ContentRecords fcgiStdin bridgeRequestId
      (data ++ [stdinRecord bytes hlen]) := hdata.append (contentRecords_stdinRecord hlen hne)
  split
  · -- all of it is read, and the end mark follows the last bytes
    next hdone =>
      have hne : bytes ≠ [] := by
        rintro rfl
        rw [hputs.bytesToRead, List.length_nil] at hdone
        exact absurd hmore (by push_cast at hdone; omega)
      exact .writeStdinEof _ (hdata' hne) hcontents' hbytes' hputs.next_le hnotSent' hdone heof'
        hcount'
  · next hrest =>
      have hsent' : p.stdinEofSent = true ↔ p.bytesToRead ≤ 0 :=
        iff_of_false (by simp [hnotSent']) hrest
      by_cases hne : bytes = []
      · -- a read that delivers nothing is itself the end mark
        subst hne
        have hended : p.StdinEnded := .inr (by simp [hputs.stdinReads])
        refine ⟨⟨data, hdata, ?_, ?_⟩, hsent', heof', hcount'⟩
        · rw [hcontents, hputs.stdinReads]
          simp
        · rw [hbytes', Bridge.endOfStdin_of hended]
          rfl
      · have hopen' : ¬ p.StdinEnded := by
          rintro (hdone | hnil)
          · exact hrest hdone
          · rw [hputs.stdinReads, List.mem_append, List.mem_singleton] at hnil
            exact hnil.elim hnone (fun heq => hne heq.symm)
        refine ⟨⟨data ++ [stdinRecord bytes hlen], hdata' hne, hcontents', ?_⟩, hsent', heof',
          hcount'⟩
        rw [hbytes', Bridge.endOfStdin_of_not hopen', List.append_nil]

/-- **The invariant is kept** by every operation. -/
theorem Bridge.Carries.moves (h : s.Carries contentLength) {index : AioIndex} {result : IoResult}
    {s₁ : Bridge} (hmoves : s.Moves index result s₁) : s₁.Carries contentLength := by
  cases hmoves with
  | stdin hlen hwants hnext => exact h.takeStdin hwants hnext hlen
  | sockRead _ => exact ⟨h.records, h.sent, h.eof, h.count⟩
  | sockWrite hn _ => exact h.takeWritten hn

theorem bridgeBegin_carries (contentLength : ℤ) :
    (Bridge.begin contentLength).Carries contentLength := by
  rw [Bridge.begin]
  split
  · next hnone =>
      exact .writeStdinEof [] contentRecords_nil rfl rfl (Nat.le_refl 0) rfl hnone
        (by simp [Bridge.init]) (by simp [Bridge.init])
  · next hmore =>
      have hopen : ¬ (Bridge.init contentLength).StdinEnded := by
        rintro (hdone | hnil)
        · exact hmore hdone
        · exact absurd hnil List.not_mem_nil
      refine ⟨⟨[], contentRecords_nil, rfl, ?_⟩, iff_of_false (by simp [Bridge.init]) hmore,
        by simp [Bridge.init], by simp [Bridge.init]⟩
      rw [Bridge.endOfStdin_of_not hopen]
      rfl

end Carries

/-- What a run of the event loop reaches. -/
theorem bridgeStart_invariant (contentLength : ℤ) :
    ∃ s₀, bridgeStart contentLength = .ok s₀ ∧ ∀ is s, Runs BridgeSteps s₀ is s →
      s.Scheduled ∧ s.Carries contentLength := by
  obtain ⟨s₀, hs₀, h₀, hquiet⟩ := bridgeStart_scheduled contentLength
  refine ⟨s₀, hs₀, fun is s hrun => ?_⟩
  have hstep : ∀ s i t, s.Scheduled ∧ s.Carries contentLength → BridgeSteps s i t →
      t.Scheduled ∧ t.Carries contentLength := by
    rintro s i t ⟨hscheduled, hcarries⟩ hstep
    obtain ⟨hscheduled', s₁, hmoves, hquiet⟩ := hscheduled.step hstep
    exact ⟨hscheduled', (hcarries.moves hmoves).congr hquiet⟩
  exact hrun.invariant (I := fun s => s.Scheduled ∧ s.Carries contentLength) hstep
    ⟨h₀, (bridgeBegin_carries contentLength).congr hquiet⟩

/-! ### The relay of standard input -/

/-- The records of a state: `records` are what the connection has taken and what is still
to be sent, and they carry what is read. -/
structure Bridge.StdinRelayed (s : Bridge) (records : List Record) : Prop where
  bytes : s.accepted ++ s.unsent = encodeAll records
  stream : ∀ r ∈ records, r.type.toNat = fcgiStdin ∧ r.requestId.toNat = bridgeRequestId
  contents : contents records = s.stdinReads.flatten
  /-- Only the last one can be empty. -/
  empty : ∀ r ∈ records.dropLast, r.content ≠ []
  /-- Once the end is reached there is one that is. -/
  ended : s.StdinEnded → (records.filter fun r => r.content.isEmpty).length = 1

theorem Bridge.Carries.stdinRelayed {contentLength : ℤ} {s : Bridge} (h : s.Carries contentLength) :
    ∃ records, s.StdinRelayed records := by
  obtain ⟨data, hdata, hcontents, hbytes⟩ := h.records
  have hfull : data.filter (fun r => r.content.isEmpty) = [] := by
    apply List.filter_eq_nil_iff.mpr
    intro r hr hempty
    exact (hdata r hr).2.2 (List.isEmpty_iff.mp hempty)
  by_cases hended : s.StdinEnded
  · rw [Bridge.endOfStdin_of hended] at hbytes
    refine ⟨_, hbytes, ?_, ?_, ?_, fun _ => ?_⟩
    · intro r hr
      rcases List.mem_append.mp hr with hr | hr
      · exact ⟨(hdata r hr).1, (hdata r hr).2.1⟩
      · obtain rfl := List.mem_singleton.mp hr
        exact ⟨rfl, rfl⟩
    · rw [contents_append, hcontents]
      exact List.append_nil _
    · rw [List.dropLast_concat]
      exact fun r hr => (hdata r hr).2.2
    · rw [List.filter_append, hfull]
      rfl
  · rw [Bridge.endOfStdin_of_not hended, List.append_nil] at hbytes
    exact ⟨data, hbytes, fun r hr => ⟨(hdata r hr).1, (hdata r hr).2.1⟩, hcontents,
      fun r hr => (hdata r (List.dropLast_subset _ hr)).2.2, fun h => absurd h hended⟩

/-- **Standard input is relayed** whole, once and in order, over whole runs. -/
theorem bridge_relays_stdin (contentLength : ℤ) :
    ∃ s₀, bridgeStart contentLength = .ok s₀ ∧
      ∀ is s, Runs BridgeSteps s₀ is s → ∃ records, s.StdinRelayed records := by
  obtain ⟨s₀, hs₀, hruns⟩ := bridgeStart_invariant contentLength
  exact ⟨s₀, hs₀, fun is s hrun => (hruns is s hrun).2.stdinRelayed⟩

/-- Both ends of a stream of two bytes: the last byte is read, and its record is cut by a
write. -/
theorem bridge_relays_stdin_two :
    ∃ s₀ s, bridgeStart 2 = .ok s₀ ∧
      Runs BridgeSteps s₀ [(.stdinRead, .read [65]), (.sockWrite, .wrote 9),
        (.stdinRead, .read [66]), (.sockWrite, .wrote 3)] s ∧
      ∃ records, s.StdinRelayed records := by
  obtain ⟨s₀, hs₀, hruns⟩ := bridge_relays_stdin 2
  have hexec : ((bridgeStart 2).toOption.bind fun s =>
      exec bridgeStep s [(.stdinRead, .read [65]), (.sockWrite, .wrote 9),
        (.stdinRead, .read [66]), (.sockWrite, .wrote 3)]).isSome = true := by
    decide +kernel
  rw [hs₀] at hexec
  obtain ⟨s, hs⟩ := Option.isSome_iff_exists.mp hexec
  have hrun := Runs.of_exec (fun _ _ _ => bridgeSteps_of_bridgeStep) hs
  exact ⟨s₀, s, hs₀, hrun, hruns _ s hrun⟩

/-! ### What the reads must keep to -/

/-- A read of standard input, where `bytesToRead` bytes are still to come, delivers an
amount that is good. -/
def Bridge.ReadsWithin (good : ℤ → ℕ → Prop) (s : Bridge) : AioIndex × IoResult → Prop
  | (.stdinRead, .read bytes) => good s.bytesToRead bytes.length
  | _ => True

instance (good : ℤ → ℕ → Prop) [∀ rest n, Decidable (good rest n)] (s : Bridge) :
    ∀ i, Decidable (s.ReadsWithin good i)
  | (.stdinRead, .read bytes) => inferInstanceAs (Decidable (good s.bytesToRead bytes.length))
  | (.stdinRead, .failed _) | (.stdinRead, .wrote _) => isTrue trivial
  | (.sockRead, _) | (.sockWrite, _) => isTrue trivial

/-- Where the last bytes are read, there is room for the end mark behind them. -/
def EofFits (rest : ℤ) (n : ℕ) : Prop := n < rest ∨ n ≤ buffLen - 2 * fcgiHeaderLen

instance : ∀ rest n, Decidable (EofFits rest n) := fun _ _ => inferInstanceAs (Decidable (_ ∨ _))

/-- **The buffer holds** what the pointers span and every header that is stored. -/
structure Bridge.InBounds (s : Bridge) : Prop where
  next : s.next ≤ s.stop
  stop : s.stop ≤ buffLen
  stores : ∀ offset ∈ s.headerStores, offset + fcgiHeaderLen ≤ buffLen

theorem Bridge.InBounds.congr {s s' : Bridge} (h : s.InBounds) (hquiet : s'.quiet = s.quiet) :
    s'.InBounds := by
  have hs : s.quiet.InBounds := ⟨h.next, h.stop, h.stores⟩
  rw [← hquiet] at hs
  exact ⟨hs.next, hs.stop, hs.stores⟩

theorem Bridge.InBounds.writeStdinEof {s : Bridge} (h : s.InBounds)
    (hroom : s.stop + fcgiHeaderLen ≤ buffLen) : s.writeStdinEof.InBounds := by
  rw [Bridge.writeStdinEof]
  split
  · exact h
  · refine ⟨h.next.trans (Nat.le_add_right ..), hroom, fun offset hoffset => ?_⟩
    rcases List.mem_append.mp hoffset with hold | hnew
    · exact h.stores offset hold
    · rwa [List.mem_singleton.mp hnew]

theorem Bridge.InBounds.putStdin {s : Bridge} (h : s.InBounds) (hnext : s.next = 0) {n : ℕ}
    (hn : n ≤ buffLen - fcgiHeaderLen) : (s.putStdin n).InBounds := by
  refine ⟨?_, ?_, fun offset hoffset => ?_⟩
  · show s.next ≤ fcgiHeaderLen + n
    omega
  · have hn : n ≤ 8184 := hn
    show 8 + n ≤ 8192
    omega
  · rcases List.mem_append.mp hoffset with hold | hnew
    · exact h.stores offset hold
    · rw [List.mem_singleton.mp hnew]
      decide

theorem Bridge.InBounds.moves {s s₁ : Bridge} (h : s.InBounds) {index : AioIndex}
    {result : IoResult} (hgood : s.ReadsWithin EofFits (index, result))
    (hmoves : s.Moves index result s₁) : s₁.InBounds := by
  cases hmoves with
  | @stdin bytes hlen hwants hnext =>
      have hread : Bridge.InBounds { s with
        buff := store s.buff fcgiHeaderLen bytes, stdinReads := s.stdinReads ++ [bytes] } :=
        ⟨h.next, h.stop, h.stores⟩
      have hput := hread.putStdin hnext hlen
      rw [Bridge.takeStdin]
      split
      · next hdone =>
          -- the end mark is stored behind the bytes that are read
          apply hput.writeStdinEof
          have hdone : s.bytesToRead - bytes.length ≤ 0 := hdone
          have hfits : (bytes.length : ℤ) < s.bytesToRead ∨ bytes.length ≤ 8176 := hgood
          show 8 + bytes.length + 8 ≤ 8192
          omega
      · exact hput
  | sockRead _ => exact ⟨h.next, h.stop, h.stores⟩
  | @sockWrite n hn _ =>
      have hnext := h.next
      rw [Bridge.takeWritten]
      split
      · next hlt =>
          refine ⟨?_, h.stop, h.stores⟩
          show s.next + n ≤ s.stop
          omega
      · exact ⟨Nat.le_refl 0, Nat.zero_le _, h.stores⟩

theorem bridgeBegin_inBounds (contentLength : ℤ) : (Bridge.begin contentLength).InBounds := by
  have hinit : (Bridge.init contentLength).InBounds :=
    ⟨Nat.le_refl 0, Nat.zero_le _, fun _ h => absurd h List.not_mem_nil⟩
  rw [Bridge.begin]
  split
  · exact hinit.writeStdinEof (show 0 + 8 ≤ 8192 by decide)
  · exact hinit

/-- **The buffer of standard input** is kept within in every run in which no read of more than
`BUFFLEN - 2 * sizeof(FCGI_Header)` bytes reaches the end of `CONTENT_LENGTH`. -/
theorem bridge_inBounds (contentLength : ℤ) :
    ∃ s₀, bridgeStart contentLength = .ok s₀ ∧
      ∀ is s, Runs (Guarded (Bridge.ReadsWithin EofFits) BridgeSteps) s₀ is s → s.InBounds := by
  obtain ⟨s₀, hs₀, h₀, hquiet⟩ := bridgeStart_scheduled contentLength
  refine ⟨s₀, hs₀, fun is s hrun => ?_⟩
  have hstep : ∀ s i t, s.Scheduled ∧ s.InBounds →
      Guarded (Bridge.ReadsWithin EofFits) BridgeSteps s i t → t.Scheduled ∧ t.InBounds := by
    rintro s i t ⟨hscheduled, hbounds⟩ ⟨hgood, hstep⟩
    obtain ⟨hscheduled', s₁, hmoves, hquiet⟩ := hscheduled.step hstep
    exact ⟨hscheduled', (hbounds.moves hgood hmoves).congr hquiet⟩
  exact (hrun.invariant (I := fun s => s.Scheduled ∧ s.InBounds) hstep
    ⟨h₀, (bridgeBegin_inBounds contentLength).congr hquiet⟩).2

theorem bridge_inBounds_two :
    ∃ s₀ s, bridgeStart 2 = .ok s₀ ∧
      Runs (Guarded (Bridge.ReadsWithin EofFits) BridgeSteps) s₀
        [(.stdinRead, .read [65, 66]), (.sockWrite, .wrote 9)] s ∧ s.InBounds := by
  obtain ⟨s₀, hs₀, hruns⟩ := bridge_inBounds 2
  have hexec : ((bridgeStart 2).toOption.bind fun s =>
      exec (guardStep (Bridge.ReadsWithin EofFits) bridgeStep) s
        [(.stdinRead, .read [65, 66]), (.sockWrite, .wrote 9)]).isSome = true := by
    decide +kernel
  rw [hs₀] at hexec
  obtain ⟨s, hs⟩ := Option.isSome_iff_exists.mp hexec
  have hrun := Runs.of_exec_guardStep (fun _ _ _ => bridgeSteps_of_bridgeStep) hs
  exact ⟨s₀, s, hs₀, hrun, hruns _ s hrun⟩

/-- One read that fills the buffer and is all of `CONTENT_LENGTH`: the end mark goes
behind the end of the buffer. -/
theorem bridge_overflows :
    ∃ s₀ is s, bridgeStart 8184 = .ok s₀ ∧ Runs BridgeSteps s₀ is s ∧
      s.stop = buffLen + fcgiHeaderLen ∧ buffLen ∈ s.headerStores ∧ ¬ s.InBounds := by
  obtain ⟨s₀, hs₀, -⟩ := bridgeStart_scheduled 8184
  have hexec : ((bridgeStart 8184).toOption.bind fun s =>
      exec bridgeStep s [(.stdinRead, .read (List.replicate 8184 0))]).map
        (fun s => (s.stop, s.headerStores)) = some (8200, [0, 8192]) := by
    decide +kernel
  rw [hs₀] at hexec
  obtain ⟨s, hs, hstop⟩ := Option.map_eq_some_iff.mp hexec
  obtain ⟨hstop, hstores⟩ := Prod.mk.inj hstop
  refine ⟨s₀, _, s, hs₀, .of_exec (fun _ _ _ => bridgeSteps_of_bridgeStep) hs, hstop,
    by simp [hstores], fun h => ?_⟩
  have hle : s.stop ≤ 8192 := h.stop
  omega

/-! ### `CONTENT_LENGTH` -/

/-- **At most `CONTENT_LENGTH` bytes** are in the records of standard input. -/
def Bridge.ForwardsAtMost (contentLength : ℤ) (s : Bridge) : Prop :=
  ∃ records, s.StdinRelayed records ∧ ((contents records).length : ℤ) ≤ max contentLength 0

theorem Bridge.Carries.forwardsAtMost {contentLength : ℤ} {s : Bridge}
    (h : s.Carries contentLength) (hrest : 0 ≤ s.bytesToRead ∨ s.stdinReads.flatten = []) :
    s.ForwardsAtMost contentLength := by
  obtain ⟨records, hrecords⟩ := h.stdinRelayed
  refine ⟨records, hrecords, ?_⟩
  rw [hrecords.contents]
  have hcount := h.count
  rcases hrest with hrest | hnone
  · omega
  · rw [hnone]
    show (0 : ℤ) ≤ max contentLength 0
    omega

/-- Bytes are read only while there are some to come. -/
theorem Bridge.Moves.rest {s s₁ : Bridge} {index : AioIndex} {result : IoResult}
    (hmoves : s.Moves index result s₁)
    (hgood : s.ReadsWithin (fun rest n => n ≤ rest) (index, result))
    (hrest : 0 ≤ s.bytesToRead ∨ s.stdinReads.flatten = []) :
    0 ≤ s₁.bytesToRead ∨ s₁.stdinReads.flatten = [] := by
  cases hmoves with
  | @stdin bytes hlen hwants hnext =>
      refine .inl ?_
      have hgood : (bytes.length : ℤ) ≤ s.bytesToRead := hgood
      have hread : 0 ≤ s.bytesToRead - bytes.length := by omega
      rw [Bridge.takeStdin]
      split
      · rw [Bridge.writeStdinEof_bytesToRead]
        exact hread
      · exact hread
  | sockRead _ => exact hrest
  | sockWrite _ _ =>
      rw [Bridge.takeWritten]
      split <;> exact hrest

/-- **What is forwarded** stays within `CONTENT_LENGTH` in every run in which no read delivers
more than what is still to come. -/
theorem bridge_forwardsAtMost (contentLength : ℤ) :
    ∃ s₀, bridgeStart contentLength = .ok s₀ ∧
      ∀ is s, Runs (Guarded (Bridge.ReadsWithin fun rest n => n ≤ rest) BridgeSteps) s₀ is s →
        s.ForwardsAtMost contentLength := by
  obtain ⟨s₀, hs₀, h₀, hquiet⟩ := bridgeStart_scheduled contentLength
  refine ⟨s₀, hs₀, fun is s hrun => ?_⟩
  have hcarries := (bridgeBegin_carries contentLength).congr hquiet
  have hreads : s₀.stdinReads = (Bridge.begin contentLength).stdinReads :=
    Bridge.quiet_congr Bridge.stdinReads (fun _ => rfl) hquiet
  have hnone : s₀.stdinReads.flatten = [] := by
    rw [hreads, Bridge.begin]
    split
    · rw [Bridge.writeStdinEof_stdinReads]
      rfl
    · rfl
  have hstep : ∀ s i t,
      s.Scheduled ∧ s.Carries contentLength ∧ (0 ≤ s.bytesToRead ∨ s.stdinReads.flatten = []) →
      Guarded (Bridge.ReadsWithin fun rest n => n ≤ rest) BridgeSteps s i t →
      t.Scheduled ∧ t.Carries contentLength ∧
        (0 ≤ t.bytesToRead ∨ t.stdinReads.flatten = []) := by
    rintro s i t ⟨hscheduled, hcarries, hrest⟩ ⟨hgood, hstep⟩
    obtain ⟨hscheduled', s₁, hmoves, hquiet⟩ := hscheduled.step hstep
    refine ⟨hscheduled', (hcarries.moves hmoves).congr hquiet, ?_⟩
    rw [Bridge.quiet_congr Bridge.bytesToRead (fun _ => rfl) hquiet,
      Bridge.quiet_congr Bridge.stdinReads (fun _ => rfl) hquiet]
    exact hmoves.rest hgood hrest
  have hall := hrun.invariant (I := fun s => s.Scheduled ∧ s.Carries contentLength ∧
    (0 ≤ s.bytesToRead ∨ s.stdinReads.flatten = [])) hstep ⟨h₀, hcarries, .inr hnone⟩
  exact hall.2.1.forwardsAtMost hall.2.2

theorem bridge_forwardsAtMost_two :
    ∃ s₀ s, bridgeStart 2 = .ok s₀ ∧
      Runs (Guarded (Bridge.ReadsWithin fun rest n => n ≤ rest) BridgeSteps) s₀
        [(.stdinRead, .read [65, 66]), (.sockWrite, .wrote 9)] s ∧ s.ForwardsAtMost 2 := by
  obtain ⟨s₀, hs₀, hruns⟩ := bridge_forwardsAtMost 2
  have hexec : ((bridgeStart 2).toOption.bind fun s =>
      exec (guardStep (Bridge.ReadsWithin fun rest n => n ≤ rest) bridgeStep) s
        [(.stdinRead, .read [65, 66]), (.sockWrite, .wrote 9)]).isSome = true := by
    decide +kernel
  rw [hs₀] at hexec
  obtain ⟨s, hs⟩ := Option.isSome_iff_exists.mp hexec
  have hrun := Runs.of_exec_guardStep (fun _ _ _ => bridgeSteps_of_bridgeStep) hs
  exact ⟨s₀, s, hs₀, hrun, hruns _ s hrun⟩

/-- The length of the read is that of the buffer, and two bytes are there to be read. -/
theorem bridge_forwards_more :
    ∃ s₀ is s, bridgeStart 1 = .ok s₀ ∧ Runs BridgeSteps s₀ is s ∧ ¬ s.ForwardsAtMost 1 := by
  obtain ⟨s₀, hs₀, -⟩ := bridgeStart_scheduled 1
  have hexec : ((bridgeStart 1).toOption.bind fun s =>
      exec bridgeStep s [(.stdinRead, .read [65, 66])]).map Bridge.stdinReads =
        some [[65, 66]] := by
    decide +kernel
  rw [hs₀] at hexec
  obtain ⟨s, hs, hreads⟩ := Option.map_eq_some_iff.mp hexec
  refine ⟨s₀, _, s, hs₀, .of_exec (fun _ _ _ => bridgeSteps_of_bridgeStep) hs, ?_⟩
  rintro ⟨records, hrecords, hle⟩
  rw [hrecords.contents, hreads] at hle
  exact absurd hle (by decide)

end FastCgi
