import FastCgi.App.CoveredReplies
import FastCgi.App.Session

/-!
What the calls on a stream look at in memory.

A reader looks at the bytes between `rdNext` and `buffStop`, which
`OS_Read` has stored; a writer looks at the bytes in front of `wrNext`,
which have been put, but for the header, for which there is room and
nothing else until `EmptyBuffProc` makes it. So two streams that agree in
these cells (`Stream.SameStored`), in processes whose memory differs, are
told apart by no call: every call takes them to two streams that agree
again. Only a reply to a query may look further; a reader is therefore
followed with `coveredFill` on one side and `FillBuffProc` on the other.
-/

namespace FastCgi

open ByteMem BoundedLoop

/-! ### The relation -/

/-- The cells of the buffer that have been stored to. -/
def Stream.Stored (s : Stream) (k : ℕ) : Prop :=
  if s.isReader then s.rdNext ≤ k ∧ k < s.buffStop
  else k < s.wrNext ∧ (s.rawWrite = false → fcgiHeaderLen ≤ k)

theorem Stream.stored_reader {s : Stream} (h : s.isReader = true) {k : ℕ} :
    s.Stored k ↔ s.rdNext ≤ k ∧ k < s.buffStop := by
  rw [Stream.Stored, if_pos h]

theorem Stream.stored_writer {s : Stream} (h : s.isReader = false) {k : ℕ} :
    s.Stored k ↔ k < s.wrNext ∧ (s.rawWrite = false → fcgiHeaderLen ≤ k) := by
  rw [Stream.Stored, h, if_neg Bool.false_ne_true]

/-- What is to be delivered is in the buffer. -/
def Stream.Ordered (s : Stream) : Prop :=
  s.isReader = true → s.rdNext ≤ s.buffStop ∧
    (s.isClosed = false → s.rdNext ≤ s.stop ∧ s.stop ≤ s.buffStop)

/-- The two differ at most in cells that nobody has stored to. -/
structure Stream.SameStored (s s' : Stream) : Prop where
  eq : s' = { s with buff := s'.buff }
  cells : ∀ k, s.Stored k → s'.buff k = s.buff k
  ordered : s.Ordered

/-- The two differ at most in what uninitialised memory holds. -/
def Os.SameButStale (os os' : Os) : Prop := os' = { os with stale := os'.stale }

structure Chan.SameStored (c c' : Chan) : Prop where
  stream : c.stream.SameStored c'.stream
  req : c'.req = c.req
  os : c.os.SameButStale c'.os

/-- The channel in another memory. -/
abbrev Chan.inMemory (c : Chan) (buff stale : ℕ → UInt8) : Chan :=
  { c with stream := { c.stream with buff := buff }, os := { c.os with stale := stale } }

theorem Chan.SameStored.exists {c c' : Chan} (h : c.SameStored c') :
    ∃ buff stale, c' = c.inMemory buff stale ∧ (∀ k, c.stream.Stored k → buff k = c.stream.buff k) ∧
      c.stream.Ordered := by
  obtain ⟨⟨hs, hcells, hordered⟩, hreq, hos⟩ := h
  rcases c' with ⟨s', req', os'⟩
  refine ⟨s'.buff, os'.stale, ?_, hcells, hordered⟩
  obtain rfl : req' = c.req := hreq
  exact congrArg₂ (fun s os => (⟨s, c.req, os⟩ : Chan)) hs hos

theorem Chan.SameStored.intro {c : Chan} {buff stale : ℕ → UInt8}
    (hcells : ∀ k, c.stream.Stored k → buff k = c.stream.buff k) (hordered : c.stream.Ordered) :
    c.SameStored (c.inMemory buff stale) := ⟨⟨rfl, hcells, hordered⟩, rfl, rfl⟩

/-- What two streams share with a third one they share. -/
theorem Stream.SameStored.trans_left {s s₁ s₂ : Stream} (h₁ : s.SameStored s₁)
    (h₂ : s.SameStored s₂) : s₁.SameStored s₂ := by
  obtain ⟨heq₁, hcells₁, hordered⟩ := h₁
  obtain ⟨heq₂, hcells₂, -⟩ := h₂
  have hstored : ∀ k, s₁.Stored k → s.Stored k := by
    rw [heq₁]
    exact fun _ => id
  refine ⟨?_, fun k hk => ?_, ?_⟩
  · rw [heq₁, heq₂]
  · rw [hcells₁ k (hstored k hk), hcells₂ k (hstored k hk)]
  · rw [heq₁]
    exact hordered

theorem Os.SameButStale.trans_left {os os₁ os₂ : Os} (h₁ : os.SameButStale os₁)
    (h₂ : os.SameButStale os₂) : os₁.SameButStale os₂ := by
  rw [Os.SameButStale] at h₁ h₂ ⊢
  rw [h₁, h₂]

/-! ### Reading -/

/-- Two readers, before a function that reads. -/
def Chan.ReadTwins (c c' : Chan) : Prop := c.stream.isReader = true ∧ c.SameStored c'

/-- Apart from uninitialised memory, two such readers differ where nothing is to be read. -/
theorem readTwins_iff {c c' : Chan} :
    c.ReadTwins c' ↔
      c.stream.isReader = true ∧ ∃ stale, (c.alter id fun _ => stale).ReadsAlike c' := by
  constructor
  · rintro ⟨hreader, h⟩
    obtain ⟨buff, stale, rfl, hcells, hordered⟩ := h.exists
    obtain ⟨hle, hopen⟩ := hordered hreader
    exact ⟨hreader, stale, ⟨⟨buff, rfl, fun k hk hlt =>
      hcells k ((Stream.stored_reader hreader).mpr ⟨hk, hlt⟩)⟩, hle⟩, hopen⟩
  · rintro ⟨hreader, stale, ⟨⟨buff, rfl, hcells⟩, hle⟩, hopen⟩
    refine ⟨hreader, .intro (fun k hk => ?_) fun _ => ⟨hle, hopen⟩⟩
    obtain ⟨hk, hlt⟩ := (Stream.stored_reader (s := c.stream) hreader).mp hk
    exact hcells k hk hlt

theorem fillFrame_isReader :
    FillFrame fun c c' => c'.stream.isReader = c.stream.isReader where
  refl _ := rfl
  trans h h' := h'.trans h
  stream _ _ _ hreader _ := hreader
  os _ _ := rfl
  setRequestId _ _ _ := rfl
  begins _ _ _ _ h := h

/-- **Reading** with replies that show no memory. -/
theorem readsSame_coveredFill : ReadsSame Chan.ReadTwins coveredFill fillBuffProc where
  fields h := by
    obtain ⟨-, stale, h⟩ := readTwins_iff.mp h
    exact h.fields
  unread h := by
    obtain ⟨-, stale, h⟩ := readTwins_iff.mp h
    exact h.same.unread_eq
  rdNext_le h hopen := (h.2.stream.ordered h.1).2 hopen |>.1
  takeBytes h hopen _ hm := by
    obtain ⟨hreader, stale, h⟩ := readTwins_iff.mp h
    obtain ⟨hbytes, htaken⟩ := h.takeBytes hopen hm
    exact ⟨hbytes, readTwins_iff.mpr ⟨hreader, stale, htaken⟩⟩
  markUnget h := by
    obtain ⟨hreader, stale, h⟩ := readTwins_iff.mp h
    exact readTwins_iff.mpr ⟨hreader, stale, h.markUnget⟩
  setError h e := by
    obtain ⟨hreader, stale, h⟩ := readTwins_iff.mp h
    exact readTwins_iff.mpr ⟨hreader, stale, h.setError e⟩
  fill {c c'} h hopen d hfill := by
    obtain ⟨hreader, stale, h⟩ := readTwins_iff.mp h
    obtain ⟨d', hfill', hd⟩ :=
      keepsAlike_fillBuffProc _ _ _ h hopen (fillBuffProc_alter (p := fun _ => stale) hfill)
    have hkept := fillFrame_isReader.fillBuffProcAt 2 _ _ (fillBuffProc_of_covered hfill)
    exact ⟨d', hfill', readTwins_iff.mpr ⟨hkept.trans hreader, stale, hd⟩⟩

/-! ### Writing -/

/-- Two writers whose header is made. -/
structure Chan.SameWhole (c c' : Chan) : Prop extends c.SameStored c' where
  isReader : c.stream.isReader = false
  whole : ∀ k < c.stream.wrNext, c'.stream.buff k = c.stream.buff k

/-- A writer is in order. -/
theorem Stream.ordered_writer {s : Stream} (h : s.isReader = false) : s.Ordered := by
  intro hreader
  rw [h] at hreader
  cases hreader

theorem Chan.SameWhole.intro {c : Chan} {buff stale : ℕ → UInt8}
    (hwriter : c.stream.isReader = false)
    (hwhole : ∀ k < c.stream.wrNext, buff k = c.stream.buff k) :
    c.SameWhole (c.inMemory buff stale) where
  toSameStored := .intro (fun k hk => hwhole k ((Stream.stored_writer hwriter).mp hk).1)
    (Stream.ordered_writer hwriter)
  isReader := hwriter
  whole := hwhole

section Writing

variable {c c' d : Chan}

theorem Chan.SameStored.put (h : c.SameStored c') (bs : List UInt8) :
    (c.put bs).SameStored (c'.put bs) := by
  obtain ⟨buff, stale, rfl, hcells, hordered⟩ := h.exists
  have hput : ∀ k, (c.put bs).stream.Stored k →
      store buff c.stream.wrNext bs k = (c.put bs).stream.buff k := by
    intro k hk
    refine store_congr fun houtside => hcells k ?_
    cases hreader : c.stream.isReader with
    | true =>
        rw [Stream.stored_reader (s := (c.put bs).stream) hreader] at hk
        exact (Stream.stored_reader hreader).mpr hk
    | false =>
        obtain ⟨hlt, hheader⟩ := (Stream.stored_writer (s := (c.put bs).stream) hreader).mp hk
        have hlt : k < c.stream.wrNext + bs.length := hlt
        exact (Stream.stored_writer hreader).mpr ⟨by omega, hheader⟩
  exact .intro (c := c.put bs) hput hordered

/-- **The header is made**, and the padding: every byte in front of `wrNext` has been stored. -/
theorem Chan.SameStored.makeRecord (h : c.SameStored c') (hwriter : c.stream.isReader = false) :
    (makeRecord c).SameWhole (makeRecord c') := by
  obtain ⟨buff, stale, rfl, hcells, -⟩ := h.exists
  obtain ⟨padding, hpadding⟩ : ∃ padding, padding = List.replicate
    (alignInt8 (c.stream.wrNext - fcgiHeaderLen) - (c.stream.wrNext - fcgiHeaderLen))
    (0 : UInt8) := ⟨_, rfl⟩
  obtain ⟨header, hheader⟩ : ∃ header : Header, header = makeHeader c.stream.type c.req.requestId
    (c.stream.wrNext - fcgiHeaderLen)
    (alignInt8 (c.stream.wrNext - fcgiHeaderLen) - (c.stream.wrNext - fcgiHeaderLen)) := ⟨_, rfl⟩
  have hmade (b : ℕ → UInt8) (os : Os) :
      FastCgi.makeRecord { c with stream := { c.stream with buff := b }, os := os } =
        { c with
          stream := { c.stream with
            buff := store (store b c.stream.wrNext padding) 0 header.bytes
            wrNext := c.stream.wrNext + padding.length }
          os := os } := by
    rw [hpadding, hheader]
    rfl
  have hfirst : FastCgi.makeRecord c = _ := hmade c.stream.buff c.os
  have hsecond : FastCgi.makeRecord (c.inMemory buff stale) = _ :=
    hmade buff { c.os with stale := stale }
  rw [hfirst, hsecond]
  refine .intro hwriter fun k (hk : k < c.stream.wrNext + padding.length) => ?_
  refine store_congr fun hbehind => store_congr fun houtside => hcells k ?_
  rw [Header.length_bytes] at hbehind
  exact (Stream.stored_writer hwriter).mpr ⟨by omega, fun _ => by rw [fcgiHeaderLen]; omega⟩

theorem Chan.SameStored.encapsulate (h : c.SameStored c') (hwriter : c.stream.isReader = false) :
    (encapsulate c).SameWhole (encapsulate c') := by
  have hmade := h.makeRecord hwriter
  obtain ⟨buff, stale, rfl, hcells, -⟩ := h.exists
  unfold FastCgi.encapsulate
  split
  · next hraw =>
      refine .intro hwriter fun k hk => hcells k ?_
      refine (Stream.stored_writer hwriter).mpr ⟨hk, fun hnot => ?_⟩
      rw [hraw] at hnot
      cases hnot
  · split
    · exact hmade
    · exact .intro hwriter fun k hk => absurd hk (Nat.not_lt_zero k)

/-- **The buffer goes out**: the bytes are the same. -/
theorem Chan.SameWhole.flushBuff (h : c.SameWhole c') :
    (flushBuff c).SameStored (flushBuff c') := by
  have hwriter := h.isReader
  have hwhole := h.whole
  obtain ⟨buff, stale, rfl, -, -⟩ := h.toSameStored.exists
  have hordered {s : Stream} (hs : s.isReader = c.stream.isReader) : s.Ordered :=
    Stream.ordered_writer (hs.trans hwriter)
  have hbuf : slice buff 0 c.stream.wrNext = slice c.stream.buff 0 c.stream.wrNext :=
    slice_congr fun k _ hk => hwhole k (by omega)
  -- room for a header is reserved in an empty buffer
  have hreserve (s : Stream) (hs : s.isReader = c.stream.isReader) (hzero : s.wrNext = 0)
      (os : Os) : (reserveHeader { c with stream := s, os := os }).SameStored
        (reserveHeader (Chan.inMemory { c with stream := s, os := os } buff stale)) := by
    unfold reserveHeader
    split
    · refine .intro (fun k hk => ?_) (hordered hs)
      have hlt := ((Stream.stored_writer (hs.trans hwriter)).mp hk).1
      rw [hzero] at hlt
      exact absurd hlt (Nat.not_lt_zero k)
    · next hraw =>
        refine .intro (fun k hk => ?_) (hordered hs)
        obtain ⟨hlt, hheader⟩ := (Stream.stored_writer
          (s := { s with wrNext := s.wrNext + fcgiHeaderLen }) (hs.trans hwriter)).mp hk
        have hlt : k < s.wrNext + fcgiHeaderLen := hlt
        have hge := hheader (Bool.eq_false_iff.mpr hraw)
        omega
  unfold FastCgi.flushBuff
  split
  · simp only [writeBuff, writeItAll_stale, hbuf]
    rcases writeItAll c.os (slice c.stream.buff 0 c.stream.wrNext) with ⟨e | u, os⟩
    · refine .intro (fun k hk => hwhole k ?_) (hordered rfl)
      exact ((Stream.stored_writer hwriter).mp hk).1
    · exact hreserve { c.stream with isAnythingWritten := true, wrNext := 0 } rfl rfl os
  · next hzero => exact hreserve c.stream rfl (not_not.mp hzero) c.os

theorem Chan.SameStored.emptyBuffProc (h : c.SameStored c') (hwriter : c.stream.isReader = false) :
    (emptyBuffProc c).SameStored (emptyBuffProc c') := (h.encapsulate hwriter).flushBuff

/-- The fields that decide what is done next. -/
theorem Chan.SameStored.fields (h : c.SameStored c') :
    c'.stream.wrNext = c.stream.wrNext ∧ c'.stream.stop = c.stream.stop ∧
      c'.stream.isClosed = c.stream.isClosed ∧ c'.stream.isReader = c.stream.isReader := by
  obtain ⟨buff, stale, rfl, -, -⟩ := h.exists
  exact ⟨rfl, rfl, rfl, rfl⟩

/-- What the writing functions ask before they call `EmptyBuffProc`. -/
theorem isReader_of_writable {s : Stream} (h : ¬(s.isClosed || s.isReader) = true) :
    s.isReader = false := by
  rw [Bool.or_eq_true, not_or] at h
  exact Bool.eq_false_iff.mpr h.2

theorem Chan.SameStored.putChar (h : c.SameStored c') {b : UInt8} {ok : Bool}
    (hput : fcgxPutChar b c = some (ok, d)) : SameResult SameStored ok d (fcgxPutChar b c') := by
  obtain ⟨hnext, hstop, hclosed, hreader⟩ := h.fields
  rw [fcgxPutChar] at hput ⊢
  rw [hnext, hstop, hclosed, hreader]
  split at hput
  · next hroom =>
      cases hput
      rw [if_pos hroom]
      exact ⟨_, rfl, h.put [b]⟩
  · next hfull =>
      rw [if_neg hfull]
      split at hput
      · next hguard =>
          cases hput
          rw [if_pos hguard]
          exact ⟨c', rfl, h⟩
      · next hguard =>
          have h₁ := h.emptyBuffProc (isReader_of_writable hguard)
          obtain ⟨hnext₁, hstop₁, hclosed₁, -⟩ := h₁.fields
          rw [if_neg hguard]
          simp only at hput ⊢
          rw [hnext₁, hstop₁, hclosed₁]
          split at hput
          · next hroom =>
              cases hput
              rw [if_pos hroom]
              exact ⟨_, rfl, h₁.put [b]⟩
          · next hfull₁ =>
              rw [if_neg hfull₁]
              split at hput
              · next hend =>
                  cases hput
                  rw [if_pos hend]
                  exact ⟨_, rfl, h₁⟩
              · cases hput

theorem putStrEmpty_sameStored {x x' : ℕ × Chan} (h : PairAlike Chan.SameStored x x')
    {p : Pass (ℕ × Chan) (ℤ × Chan)} (hput : putStrEmpty x = some p) :
    ∃ p', putStrEmpty x' = some p' ∧
      p.Rel (PairAlike Chan.SameStored) (PairAlike Chan.SameStored) p' := by
  obtain ⟨hcount, hsame⟩ := h
  obtain ⟨-, -, hclosed, hreader⟩ := hsame.fields
  rw [putStrEmpty] at hput ⊢
  rw [hclosed, hreader]
  split at hput
  · next hguard =>
      cases hput
      rw [if_pos hguard]
      exact ⟨_, rfl, rfl, hsame⟩
  · next hguard =>
      cases hput
      rw [if_neg hguard]
      exact ⟨_, rfl, hcount, hsame.emptyBuffProc (isReader_of_writable hguard)⟩

theorem putStrBody_sameStored (str : List UInt8) {x x' : ℕ × Chan}
    (h : PairAlike Chan.SameStored x x') {p : Pass (ℕ × Chan) (ℤ × Chan)}
    (hput : putStrBody str x = some p) :
    ∃ p', putStrBody str x' = some p' ∧
      p.Rel (PairAlike Chan.SameStored) (PairAlike Chan.SameStored) p' := by
  obtain ⟨hcount, hsame⟩ := h
  obtain ⟨hnext, hstop, -, -⟩ := hsame.fields
  have hmoved (bs : List UInt8) (n : ℕ) :
      PairAlike Chan.SameStored (n, x.2.put bs) (n, x'.2.put bs) := ⟨rfl, hsame.put bs⟩
  rw [putStrBody] at hput ⊢
  rw [hnext, hstop, hcount]
  simp only at hput ⊢
  split at hput
  · next hfull =>
      rw [if_pos hfull]
      exact putStrEmpty_sameStored ⟨hcount, hsame⟩ hput
  · next hroom =>
      rw [if_neg hroom]
      split at hput
      · next hall =>
          cases hput
          rw [if_pos hall]
          exact ⟨_, rfl, rfl, hsame.put _⟩
      · next hmore =>
          rw [if_neg hmore]
          exact putStrEmpty_sameStored (hmoved _ _) hput

theorem Chan.SameStored.putStr (h : c.SameStored c') {str : List UInt8} {n : ℤ}
    (hput : fcgxPutStr str c = some (n, d)) : SameResult SameStored n d (fcgxPutStr str c') := by
  obtain ⟨hnext, hstop, -, -⟩ := h.fields
  rw [fcgxPutStr] at hput ⊢
  rw [hnext, hstop]
  split at hput
  · next hroom =>
      cases hput
      rw [if_pos hroom]
      exact ⟨_, rfl, h.put str⟩
  · next hmore =>
      rw [if_neg hmore]
      have hstart : PairAlike Chan.SameStored (0, c) (0, c') := ⟨rfl, h⟩
      obtain ⟨⟨n', d'⟩, hrun, rfl, hd⟩ :=
        run_rel (R := PairAlike SameStored) (Q := PairAlike SameStored)
          (fun _ _ _ hx hpass => putStrBody_sameStored str hx hpass) hstart hput
      exact ⟨d', hrun, hd⟩

/-! ### Closing -/

theorem Chan.SameStored.writeEof (h : c.SameStored c') (heof : writeEof c = some d) :
    ∃ d', writeEof c' = some d' ∧ d.SameStored d' := by
  have hfields : c'.stream.type = c.stream.type ∧ c'.stream.wrNext = c.stream.wrNext ∧
      c'.stream.isAnythingWritten = c.stream.isAnythingWritten ∧ eofHeader c' = eofHeader c := by
    obtain ⟨buff, stale, rfl, -, -⟩ := h.exists
    exact ⟨rfl, rfl, rfl, rfl⟩
  rw [FastCgi.writeEof] at heof ⊢
  rw [hfields.1, hfields.2.1, hfields.2.2.1, hfields.2.2.2]
  split at heof
  · next hnone =>
      cases heof
      rw [if_pos hnone]
      exact ⟨c', rfl, h⟩
  · next hsome =>
      rw [if_neg hsome]
      obtain ⟨⟨n, e⟩, hput, rfl⟩ := Option.map_eq_some_iff.mp heof
      obtain ⟨e', hput', he⟩ := h.putStr hput
      exact ⟨e', by rw [hput']; rfl, he⟩

theorem Chan.SameStored.writeEndRequest (h : c.SameStored c') (hend : writeEndRequest c = some d) :
    ∃ d', writeEndRequest c' = some d' ∧ d.SameStored d' := by
  have hreq := h.req
  have hrecord : endRequestRecord c' = endRequestRecord c := by
    rw [endRequestRecord, endRequestRecord, hreq]
  rw [FastCgi.writeEndRequest] at hend ⊢
  rw [hreq, hrecord]
  split at hend
  · next hlast =>
      rw [if_pos hlast]
      obtain ⟨⟨n, e⟩, hput, rfl⟩ := Option.map_eq_some_iff.mp hend
      obtain ⟨e', hput', he⟩ := h.putStr hput
      exact ⟨e', by rw [hput']; rfl, he⟩
  · next hmore =>
      cases hend
      rw [if_neg hmore]
      exact ⟨c', rfl, h⟩

/-- A writer that only `FCGX_FClose` still writes to. -/
def Chan.RawWriter (c : Chan) : Prop := c.stream.isReader = false ∧ c.stream.rawWrite = true

theorem writeInvariant_rawWriter : WriteInvariant Chan.RawWriter where
  stream _ _ hc _ hreader hraw := ⟨hreader.trans hc.1, hraw hc.2⟩
  sent _ _ _ hc _ := hc
  failed _ _ _ _ hc _ := hc

/-- In such a writer there is no room for a header. -/
theorem Chan.SameStored.sameWhole (h : c.SameStored c') (hraw : c.RawWriter) :
    c.SameWhole c' where
  toSameStored := h
  isReader := hraw.1
  whole k hk := h.stream.cells k ((Stream.stored_writer hraw.1).mpr ⟨hk, fun hnot => by
    rw [hraw.2] at hnot
    cases hnot⟩)

theorem Chan.SameWhole.writeCloseRecords (h : c.SameWhole c')
    (hclose : writeCloseRecords c = some d) :
    ∃ d', writeCloseRecords c' = some d' ∧ d.SameWhole d' := by
  have hraw : (enterRawWrite c).RawWriter := ⟨h.isReader, rfl⟩
  have hentered : (enterRawWrite c).SameStored (enterRawWrite c') := by
    have hwhole := h.whole
    obtain ⟨buff, stale, rfl, -, -⟩ := h.toSameStored.exists
    exact .intro (fun k hk => hwhole k ((Stream.stored_writer hraw.1).mp hk).1)
      (Stream.ordered_writer hraw.1)
  rw [FastCgi.writeCloseRecords] at hclose ⊢
  split at hclose
  · cases hclose
  · next c₁ heof =>
      obtain ⟨c₁', heof', h₁⟩ := hentered.writeEof heof
      obtain ⟨c₂, hend, rfl⟩ := Option.map_eq_some_iff.mp hclose
      obtain ⟨c₂', hend', h₂⟩ := h₁.writeEndRequest hend
      have hraw₂ : c₂.RawWriter := writeInvariant_rawWriter.writeEndRequest
        (writeInvariant_rawWriter.writeEof hraw heof) hend
      rw [heof']
      refine ⟨c₂'.leaveWriter, by simp only [hend', Option.map_some], ?_⟩
      have hleft : c₂.leaveWriter.SameStored c₂'.leaveWriter :=
        ⟨h₂.stream, by rw [leaveWriter, leaveWriter, h₂.req], h₂.os⟩
      exact hleft.sameWhole hraw₂

theorem Chan.SameStored.closeChan (h : c.SameStored c') (hclose : closeChan c = some d) :
    ∃ d', closeChan c' = some d' ∧ d.SameStored d' := by
  have hreader : c'.stream.isReader = c.stream.isReader := h.fields.2.2.2
  -- nothing more is stored once the buffer is empty
  have hends {e e' : Chan} (he : e.SameStored e') :
      Chan.SameStored { e with stream := closeStream e.stream }
        { e' with stream := closeStream e'.stream } := by
    obtain ⟨buff, stale, rfl, hcells, hordered⟩ := he.exists
    unfold closeStream
    split
    · next hisReader =>
        refine .intro (fun k hk => hcells k ?_) fun _ => ⟨(hordered hisReader).1, ?_⟩
        · exact (Stream.stored_reader hisReader).mpr ((Stream.stored_reader (s := { e.stream with
            wasFCloseCalled := true, isClosed := true, wrNext := e.stream.rdNext
            stop := e.stream.rdNext }) hisReader).mp hk)
        · intro hopen
          cases hopen
    · next hwriter =>
        rw [Bool.not_eq_true] at hwriter
        refine .intro (fun k hk => hcells k ?_) (Stream.ordered_writer hwriter)
        exact (Stream.stored_writer hwriter).mpr ((Stream.stored_writer (s := { e.stream with
          wasFCloseCalled := true, isClosed := true, rdNext := e.stream.wrNext
          stop := e.stream.wrNext }) hwriter).mp hk)
  rw [FastCgi.closeChan] at hclose ⊢
  rw [hreader]
  split at hclose
  · cases hclose
  · next c₁ hempty =>
      cases hclose
      obtain ⟨c₁', hempty', h₁⟩ : ∃ c₁', (if c.stream.isReader then some c'
          else emptyBuffProcClose c') = some c₁' ∧ c₁.SameStored c₁' := by
        split at hempty
        · next hisReader =>
            cases hempty
            rw [if_pos hisReader]
            exact ⟨c', rfl, h⟩
        · next hwriter =>
            rw [if_neg hwriter]
            obtain ⟨c₂, hrecords, rfl⟩ := Option.map_eq_some_iff.mp hempty
            obtain ⟨c₂', hrecords', h₂⟩ :=
              (h.encapsulate (Bool.eq_false_iff.mpr hwriter)).writeCloseRecords hrecords
            exact ⟨FastCgi.flushBuff c₂', by rw [emptyBuffProcClose, hrecords']; rfl, h₂.flushBuff⟩
      rw [hempty']
      exact ⟨_, rfl, hends h₁⟩

theorem Chan.SameStored.fclose (h : c.SameStored c') {rc : ℤ}
    (hclose : fcgxFClose c = some (rc, d)) : SameResult SameStored rc d (fcgxFClose c') := by
  have hcalled : c'.stream.wasFCloseCalled = c.stream.wasFCloseCalled := by
    obtain ⟨buff, stale, rfl, -, -⟩ := h.exists
    rfl
  rw [fcgxFClose] at hclose ⊢
  rw [hcalled]
  split at hclose
  · cases hclose
  · next c₁ hchan =>
      obtain ⟨c₁', hchan', h₁⟩ : ∃ c₁', (if c.stream.wasFCloseCalled then some c'
          else FastCgi.closeChan c') = some c₁' ∧ c₁.SameStored c₁' := by
        split at hchan
        · next honce =>
            cases hchan
            rw [if_pos honce]
            exact ⟨c', rfl, h⟩
        · next hfirst =>
            rw [if_neg hfirst]
            exact h.closeChan hchan
      have herrno : c₁'.stream.fcgiErrno = c₁.stream.fcgiErrno := by
        obtain ⟨buff, stale, rfl, -, -⟩ := h₁.exists
        rfl
      cases hclose
      rw [hchan']
      exact ⟨c₁', by simp only [herrno], h₁⟩

theorem Chan.SameStored.fflush (h : c.SameStored c') :
    (fcgxFFlush c).2.SameStored (fcgxFFlush c').2 := by
  obtain ⟨-, -, hclosed, hreader⟩ := h.fields
  rw [fcgxFFlush, fcgxFFlush, hclosed, hreader]
  split
  · exact h
  · next hguard => exact h.emptyBuffProc (isReader_of_writable hguard)

end Writing

/-! ### Any call -/

/-- A call that reads, with a procedure in the place of `FillBuffProc`. -/
def ReadCall.performWith (fill : Chan → Option Chan) (call : ReadCall) (c : Chan) :
    Option (List UInt8 × Chan) :=
  match call with
  | .getChar => (fcgxGetChar fill c).map fun x => (x.1.toList, x.2)
  | .getStr n => fcgxGetStr fill n c

/-- A call on a stream, with a procedure in the place of `FillBuffProc`. -/
def StreamCall.performWith (fill : Chan → Option Chan) (call : StreamCall) (c : Chan) :
    Option Chan :=
  match call with
  | .read call => (call.performWith fill c).map Prod.snd
  | .unGetChar b => some (fcgxUnGetChar b c).2
  | .write call => call.perform c
  | .startFilterData => some (fcgxStartFilterData c).2
  | .clearError => some (fcgxClearError c)

theorem StreamCall.performWith_fillBuffProc (call : StreamCall) (c : Chan) :
    call.performWith fillBuffProc c = call.perform c := by
  cases call with
  | read call => cases call <;> rfl
  | unGetChar b | write call | startFilterData | clearError => rfl

section Calls

variable {c c' d : Chan}

namespace Chan.SameStored

theorem setReaderType (h : c.SameStored c') (hreader : c.stream.isReader = true)
    (streamType : ℕ) : (c.setReaderType streamType).SameStored (c'.setReaderType streamType) := by
  obtain ⟨buff, stale, rfl, hcells, hordered⟩ := h.exists
  have hle := (hordered hreader).1
  refine .intro (c := c.setReaderType streamType) (fun k hk => hcells k ?_)
    fun _ => ⟨hle, fun _ => ⟨Nat.le_refl _, hle⟩⟩
  rw [Stream.stored_reader (s := (c.setReaderType streamType).stream) hreader] at hk
  exact (Stream.stored_reader hreader).mpr hk

theorem setError (h : c.SameStored c') (e : ℤ) : (c.setError e).SameStored (c'.setError e) := by
  obtain ⟨buff, stale, rfl, hcells, hordered⟩ := h.exists
  refine .intro (c := c.setError e) (fun k hk => hcells k hk)
    fun hreader => ⟨(hordered hreader).1, fun hopen => ?_⟩
  cases hopen

theorem unGetChar (h : c.SameStored c') (b : UInt8) :
    (fcgxUnGetChar b c).2.SameStored (fcgxUnGetChar b c').2 := by
  obtain ⟨buff, stale, rfl, hcells, hordered⟩ := h.exists
  unfold fcgxUnGetChar
  simp only
  split
  · exact h
  · next hguard =>
      simp only [Bool.or_eq_true, Bool.not_eq_true', decide_eq_true_eq, not_or,
        Bool.not_eq_false] at hguard
      obtain ⟨⟨hopen, hreader⟩, -⟩ := hguard
      rw [Bool.not_eq_true] at hopen
      obtain ⟨hle, hstop⟩ := hordered hreader
      have hpushed : ∀ k, c.stream.rdNext - 1 ≤ k ∧ k < c.stream.buffStop →
          store buff (c.stream.rdNext - 1) [b] k =
            store c.stream.buff (c.stream.rdNext - 1) [b] k := by
        intro k hk
        refine store_congr fun houtside => hcells k ((Stream.stored_reader hreader).mpr ?_)
        rw [List.length_singleton] at houtside
        omega
      refine .intro (fun k hk => hpushed k ?_) fun _ => ?_
      · rwa [Stream.stored_reader (s := { c.stream with rdNext := c.stream.rdNext - 1, buff := _ })
          hreader] at hk
      · show c.stream.rdNext - 1 ≤ c.stream.buffStop ∧ (c.stream.isClosed = false →
          c.stream.rdNext - 1 ≤ c.stream.stop ∧ c.stream.stop ≤ c.stream.buffStop)
        have hopened := hstop hopen
        omega

theorem startFilterData (h : c.SameStored c') :
    (fcgxStartFilterData c).2.SameStored (fcgxStartFilterData c').2 := by
  have herror := h.setError fcgxCallSeqError
  have htype := fun hreader => h.setReaderType hreader fcgiData
  obtain ⟨buff, stale, rfl, -, -⟩ := h.exists
  unfold fcgxStartFilterData
  split
  · exact herror
  · next hguard =>
      refine htype ?_
      simp only [Bool.or_eq_true, not_or, Bool.not_eq_true', Bool.not_eq_false] at hguard
      exact hguard.1.1.2

/-- **Any call on a stream**, where the replies that are sent in it show no memory. -/
theorem call (h : c.SameStored c') {call : StreamCall}
    (hcall : call.performWith coveredFill c = some d) :
    ∃ d', call.perform c' = some d' ∧ d.SameStored d' := by
  cases call with
  | read call =>
      obtain ⟨⟨bs, d₁⟩, hread, rfl⟩ := Option.map_eq_some_iff.mp hcall
      cases hreader : c.stream.isReader with
      | true =>
          cases call with
          | getChar =>
              obtain ⟨⟨x, d₂⟩, hget, heq⟩ := Option.map_eq_some_iff.mp hread
              obtain rfl : d₂ = d₁ := congrArg Prod.snd heq
              obtain ⟨d', hget', hd⟩ := readsSame_coveredFill.getChar ⟨hreader, h⟩ hget
              exact ⟨d', by rw [StreamCall.perform, ReadCall.perform, hget']; rfl, hd.2⟩
          | getStr n =>
              obtain ⟨d', hget', hd⟩ := readsSame_coveredFill.getStr ⟨hreader, h⟩ hread
              exact ⟨d', by rw [StreamCall.perform, ReadCall.perform, hget']; rfl, hd.2⟩
      | false =>
          -- a writer is refused
          have hreader' : c'.stream.isReader = false := h.fields.2.2.2.trans hreader
          refine ⟨c', ?_, ?_⟩
          · cases call with
            | getChar => simp [StreamCall.perform, ReadCall.perform, fcgxGetChar, hreader']
            | getStr n => simp [StreamCall.perform, ReadCall.perform, fcgxGetStr, hreader']
          · cases call with
            | getChar =>
                simp [ReadCall.performWith, fcgxGetChar, hreader] at hread
                rw [← hread.2]
                exact h
            | getStr n =>
                simp [ReadCall.performWith, fcgxGetStr, hreader] at hread
                rw [← hread.2]
                exact h
  | unGetChar b =>
      cases hcall
      exact ⟨_, rfl, h.unGetChar b⟩
  | write call =>
      cases call with
      | putChar b =>
          obtain ⟨⟨ok, d₁⟩, hput, rfl⟩ := Option.map_eq_some_iff.mp hcall
          obtain ⟨d', hput', hd⟩ := h.putChar hput
          exact ⟨d', by rw [StreamCall.perform, ClientCall.perform, hput']; rfl, hd⟩
      | putStr str =>
          obtain ⟨⟨n, d₁⟩, hput, rfl⟩ := Option.map_eq_some_iff.mp hcall
          obtain ⟨d', hput', hd⟩ := h.putStr hput
          exact ⟨d', by rw [StreamCall.perform, ClientCall.perform, hput']; rfl, hd⟩
      | fflush =>
          cases hcall
          exact ⟨_, rfl, h.fflush⟩
      | fclose =>
          obtain ⟨⟨rc, d₁⟩, hclose, rfl⟩ := Option.map_eq_some_iff.mp hcall
          obtain ⟨d', hclose', hd⟩ := h.fclose hclose
          exact ⟨d', by rw [StreamCall.perform, ClientCall.perform, hclose']; rfl, hd⟩
  | startFilterData =>
      cases hcall
      exact ⟨_, rfl, h.startFilterData⟩
  | clearError =>
      cases hcall
      obtain ⟨buff, stale, rfl, hcells, hordered⟩ := h.exists
      exact ⟨_, rfl, .intro (c := fcgxClearError c) hcells hordered⟩

end Chan.SameStored

end Calls

end FastCgi
