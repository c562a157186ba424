import FastCgi.App.WriterSteps
import FastCgi.Protocol.Response

/-!
What an open writer sends, in records.

An open writer holds content behind the room for a header
(`Stream.Holding`), and every call sends whole records of that content or
is cut (`Chan.Wrote`). While it is being closed the buffer is raw
(`Stream.Raw`), and the records that end the stream and the request may be
split over several writes; only their bytes are followed there.
-/

namespace FastCgi

open ByteMem BoundedLoop

/-! ### Writers that hold content -/

/-- An open writer with this content in its buffer. -/
structure Stream.Holding (s : Stream) (pending : List UInt8) : Prop extends s.IsWriter where
  isOpen : s.isClosed = false
  rawWrite : s.rawWrite = false
  wrNext_eq : s.wrNext = 8 + pending.length
  content : slice s.buff 8 pending.length = pending

/-- A writer that goes from one state to the other has sent these records and
holds this content. -/
structure Chan.Wrote (c c' : Chan) (recs : List Record) (pending : List UInt8) : Prop where
  holding : c'.stream.Holding pending
  sent : c.os.Sent c'.os (encodeAll recs)
  isAnythingWritten :
    c'.stream.isAnythingWritten = (c.stream.isAnythingWritten || decide (recs ≠ []))
  type : c'.stream.type = c.stream.type
  req : c'.req = c.req

theorem Chan.Wrote.refl {c : Chan} {pending : List UInt8} (h : c.stream.Holding pending) :
    c.Wrote c [] pending := ⟨h, .refl _, by simp, rfl, rfl⟩

theorem Chan.Wrote.trans {c c' c'' : Chan} {recs recs' : List Record} {p p' : List UInt8}
    (h : c.Wrote c' recs p) (h' : c'.Wrote c'' recs' p') : c.Wrote c'' (recs ++ recs') p' where
  holding := h'.holding
  sent := by
    rw [encodeAll_append]
    exact h.sent.trans h'.sent
  isAnythingWritten := by
    rw [h'.isAnythingWritten, h.isAnythingWritten, Bool.or_assoc]
    cases recs <;> simp
  type := h'.type.trans h.type
  req := h'.req.trans h.req

theorem Stream.Holding.put {c : Chan} {pending : List UInt8} (h : c.stream.Holding pending)
    {bs : List UInt8} (hroom : bs.length ≤ c.stream.stop - c.stream.wrNext) :
    (c.put bs).stream.Holding (pending ++ bs) where
  toIsWriter := h.toIsWriter.put hroom
  isOpen := h.isOpen
  rawWrite := h.rawWrite
  wrNext_eq := by
    show c.stream.wrNext + bs.length = _
    rw [h.wrNext_eq, List.length_append, Nat.add_assoc]
  content := by
    show slice (store c.stream.buff c.stream.wrNext bs) 8 _ = _
    rw [h.wrNext_eq, List.length_append, slice_store_append, h.content]

theorem Chan.Wrote.put {c c' : Chan} {recs : List Record} {pending : List UInt8}
    (h : c.Wrote c' recs pending) {bs : List UInt8}
    (hroom : bs.length ≤ c'.stream.stop - c'.stream.wrNext) :
    c.Wrote (c'.put bs) recs (pending ++ bs) :=
  ⟨h.holding.put hroom, h.sent, h.isAnythingWritten, h.type, h.req⟩

/-- What has to be known of a writer's request and type so that they fit a
header. -/
structure Chan.Fits (c : Chan) : Prop where
  type_lt : c.stream.type < 256
  requestId_lt : c.req.requestId < 65536

theorem Chan.Wrote.fits {c c' : Chan} {recs : List Record} {pending : List UInt8}
    (h : c.Wrote c' recs pending) (hf : c.Fits) : c'.Fits :=
  ⟨h.type ▸ hf.type_lt, h.req ▸ hf.requestId_lt⟩

/-- The content gets a header and becomes a record, if there is any. -/
theorem encapsulate_holding {c : Chan} {pending : List UInt8} (h : c.stream.Holding pending)
    (hf : c.Fits) :
    ∃ recs buff wrNext, OneBlock c.stream.type c.req.requestId pending recs ∧
      slice buff 0 wrNext = encodeAll recs ∧
      encapsulate c = { c with stream := { c.stream with buff := buff, wrNext := wrNext } } := by
  have hnext := h.wrNext_eq
  have hlen : pending.length ≤ 65535 := by
    have h1 := h.wrNext_le
    have h2 := h.stop_eq (h.wasFCloseCalled h.isOpen)
    have h3 := h.bufflen_le
    omega
  have hpad := alignInt8_sub_le pending.length
  by_cases hnil : pending = []
  · subst hnil
    refine ⟨[], c.stream.buff, 0, ⟨contentRecords_nil, rfl, Nat.zero_le _, nofun⟩, rfl, ?_⟩
    rw [encapsulate, if_neg (by simp [h.rawWrite]), if_neg (by rw [hnext]; decide)]
  · have hpos : 0 < pending.length := List.length_pos_iff.mpr hnil
    have hcLen : c.stream.wrNext - fcgiHeaderLen = pending.length := by
      rw [hnext]
      exact Nat.add_sub_cancel_left 8 _
    let zeros : List UInt8 := List.replicate (alignInt8 pending.length - pending.length) 0
    have hzeros : zeros.length = alignInt8 pending.length - pending.length := by simp [zeros]
    let r := dataRecord c.stream.type c.req.requestId pending zeros hlen (by omega)
    let header := makeHeader c.stream.type c.req.requestId pending.length
      (alignInt8 pending.length - pending.length)
    refine ⟨[r], store (store c.stream.buff c.stream.wrNext zeros) 0 header.bytes,
      c.stream.wrNext + zeros.length,
      ⟨fun r' hr' => ?_, by simp [contents, r, dataRecord], Nat.le_refl 1, ?_⟩, ?_, ?_⟩
    on_goal 2 =>
      intro r' hr'
      rw [List.mem_singleton.mp hr']
      rfl
    · rw [List.mem_singleton.mp hr']
      exact ⟨dataRecord_type hf.type_lt, dataRecord_requestId hf.requestId_lt, hnil⟩
    -- the header goes in front of the content, where `NewStream` has left eight bytes free
    · have hbody : slice (store c.stream.buff c.stream.wrNext zeros) 8
          (pending.length + zeros.length) = pending ++ zeros := by
        rw [hnext, slice_store_append, h.content]
      have hrec : r.encode = header.bytes ++ (pending ++ zeros) := by
        rw [encode_dataRecord hf.type_lt hf.requestId_lt, hzeros]
      calc slice (store (store c.stream.buff c.stream.wrNext zeros) 0 header.bytes) 0
            (c.stream.wrNext + zeros.length)
          = slice (store (store c.stream.buff c.stream.wrNext zeros) 0 header.bytes) 0
              (8 + (pending.length + zeros.length)) := by rw [hnext, Nat.add_assoc]
        _ = header.bytes ++ (pending ++ zeros) := by
            rw [slice_add, ← hbody, Nat.zero_add]
            exact congrArg₂ (· ++ ·) (slice_store _ 0 header.bytes)
              (slice_store_after (Nat.le_refl header.bytes.length))
        _ = encodeAll [r] := by rw [← hrec, encodeAll_cons, encodeAll_nil, List.append_nil]
    · have hlt : fcgiHeaderLen < c.stream.wrNext := by
        rw [hnext]
        exact Nat.lt_add_of_pos_right hpos
      rw [encapsulate, if_neg (by simp [h.rawWrite]), if_pos hlt]
      simp only [makeRecord, Chan.put, hcLen]
      rfl

/-- **`EmptyBuffProc`** sends what an open writer holds, as one record. -/
theorem emptyBuffProc_holding {c : Chan} {pending : List UInt8} (h : c.stream.Holding pending)
    (hf : c.Fits) :
    ∃ recs, OneBlock c.stream.type c.req.requestId pending recs ∧
      (c.Wrote (emptyBuffProc c) recs [] ∨ c.os.Cut (emptyBuffProc c).os (encodeAll recs)) := by
  obtain ⟨recs, buff, wrNext, hblock, hbytes, henc⟩ := encapsulate_holding h hf
  have hgrows := emptyBuffProc_grows h.toIsWriter (h.wasFCloseCalled h.isOpen)
  have hany : (wrNext ≠ 0) = (recs ≠ []) := by
    rw [Ne, Ne, ← encodeAll_eq_nil_iff, ← hbytes, slice_eq_nil_iff]
  refine ⟨recs, hblock, ?_⟩
  unfold emptyBuffProc at hgrows ⊢
  rcases flushBuff_spec (encapsulate c) with ⟨os', hfl, hsent⟩ | ⟨e, os', hfl, hcut⟩
  · rw [hfl] at hgrows ⊢
    rw [henc] at hgrows hsent ⊢
    refine .inl ⟨⟨hgrows.isWriter, h.isOpen, h.rawWrite, ?_, rfl⟩, by rw [← hbytes]; exact hsent,
      ?_, rfl, rfl⟩
    · simp [Stream.emptied, h.rawWrite]
    · simp only [Stream.emptied, hany]
  · rw [hfl]
    rw [henc] at hcut
    exact .inr (hbytes ▸ hcut)

/-- **`FCGX_PutStr`** on an open writer: all bytes are put, and whole records of
content go out. -/
theorem fcgxPutStr_holding {c : Chan} {pending : List UInt8} (h : c.stream.Holding pending)
    (hf : c.Fits) (str : List UInt8) :
    ∃ z c' recs, fcgxPutStr str c = some (z, c') ∧ c.Grows c' ∧
      ContentRecords c.stream.type c.req.requestId recs ∧
      ((∃ p, contents recs ++ p = pending ++ str ∧ c.Wrote c' recs p) ∨
        contents recs <+: pending ++ str ∧ c.os.Cut c'.os (encodeAll recs)) := by
  -- `k` bytes are put: they are in the records that went out or pending, or a write has failed
  let I (k : ℕ) (c' : Chan) : Prop := c.Grows c' ∧
    ∃ recs, ContentRecords c.stream.type c.req.requestId recs ∧
      ((∃ p, contents recs ++ p = pending ++ str.take k ∧ c.Wrote c' recs p) ∨
        contents recs <+: pending ++ str ∧ c.os.Cut c'.os (encodeAll recs))
  have hput : ∀ k m c', I k c' → k + m ≤ str.length → m ≤ c'.stream.stop - c'.stream.wrNext →
      I (k + m) (c'.put ((str.drop k).take m)) := by
    rintro k m c' ⟨hg, recs, hrecs, hend⟩ hkm hm
    have hroom : ((str.drop k).take m).length ≤ c'.stream.stop - c'.stream.wrNext := by
      rw [List.length_take]
      omega
    refine ⟨hg.trans (.put hg.isWriter hroom), recs, hrecs, hend.imp ?_ id⟩
    rintro ⟨p, hp, hw⟩
    refine ⟨p ++ (str.drop k).take m, ?_, hw.put hroom⟩
    rw [← List.append_assoc, hp, List.append_assoc, ← List.take_add]
  have hempty : ∀ k c', I k c' → c'.stream.isClosed = false → I k (emptyBuffProc c') := by
    rintro k c' ⟨hg, recs, hrecs, hend⟩ hc
    have hg' := emptyBuffProc_grows hg.isWriter (hg.isWriter.wasFCloseCalled hc)
    refine ⟨hg.trans hg', ?_⟩
    rcases hend with ⟨p, hp, hw⟩ | ⟨hp, hcut⟩
    · obtain ⟨recs', ⟨hrecs', hcont, -, -⟩, hend'⟩ := emptyBuffProc_holding hw.holding (hw.fits hf)
      rw [hw.type, hw.req] at hrecs'
      have hall : contents (recs ++ recs') = pending ++ str.take k := by
        rw [contents_append, hcont, hp]
      refine ⟨recs ++ recs', hrecs.append hrecs', ?_⟩
      rcases hend' with hw' | hcut
      · exact .inl ⟨[], by rw [hall, List.append_nil], hw.trans hw'⟩
      · refine .inr ⟨?_, ?_⟩
        · rw [hall, List.prefix_append_right_inj]
          exact List.take_prefix k str
        · rw [encodeAll_append]
          exact hw.sent.cut hcut
    · exact ⟨recs, hrecs, .inr ⟨hp, hcut.grow hg'.log⟩⟩
  have h0 : I 0 c := ⟨.refl h.toIsWriter, [], contentRecords_nil, .inl ⟨pending, by simp, .refl h⟩⟩
  obtain ⟨z, c', hrun, hend⟩ := fcgxPutStr_rule _ (fun _ _ hI => hI.1.isWriter) hput hempty h0
  refine ⟨z, c', ?_⟩
  rcases hend with ⟨-, hg, recs, hrecs, hI⟩ | ⟨-, hclosed, k, hg, recs, hrecs, hI⟩
  · rw [List.take_length] at hI
    exact ⟨recs, hrun, hg, hrecs, hI⟩
  · refine ⟨recs, hrun, hg, hrecs, .inr (hI.resolve_left ?_)⟩
    rintro ⟨p, -, hw⟩
    have hopen := hw.holding.isOpen
    dsimp only at hclosed
    rw [hclosed] at hopen
    exact Bool.noConfusion hopen

/-- Where `FCGX_PutStr` does not return the number of bytes, the stream is closed. -/
theorem fcgxPutStr_result {str : List UInt8} {c c' : Chan} {z : ℤ}
    (h : fcgxPutStr str c = some (z, c')) :
    z = str.length ∨ (c'.stream.isClosed || c'.stream.isReader) = true := by
  let P (y : ℤ × Chan) : Prop :=
    y.1 = str.length ∨ (y.2.stream.isClosed || y.2.stream.isReader) = true
  have hempty : ∀ (x : ℕ × Chan) (p : Pass (ℕ × Chan) (ℤ × Chan)), putStrEmpty x = some p →
      p.Holds (fun _ => True) P := by
    intro x p hp
    rw [putStrEmpty] at hp
    split at hp
    · next hclosed =>
        cases hp
        exact .inr hclosed
    · cases hp
      trivial
  rw [fcgxPutStr] at h
  split at h
  · cases h
    exact .inl rfl
  · refine run_invariant (I := fun _ => True) (P := P) (fun x p _ hp => ?_) trivial h
    simp only [putStrBody] at hp
    split at hp
    · exact hempty _ p hp
    · split at hp
      · cases hp
        exact .inl rfl
      · exact hempty _ p hp

/-- What `FCGX_PutStr` puts on a writer, where no write fails. -/
theorem fcgxPutStr_puts {c : Chan} {pending : List UInt8} (h : c.stream.Holding pending)
    (hf : c.Fits) (hwrites : c.os.NeverFails) (str : List UInt8) :
    ∃ c' recs p, fcgxPutStr str c = some ((str.length : ℤ), c') ∧
      ContentRecords c.stream.type c.req.requestId recs ∧
      contents recs ++ p = pending ++ str ∧ c.Wrote c' recs p := by
  obtain ⟨z, c₁, recs, hput, -, hrecs, ⟨p, hp, hw⟩ | ⟨-, hcut⟩⟩ := fcgxPutStr_holding h hf str
  · have hz : z = str.length := by
      refine (fcgxPutStr_result hput).resolve_right fun hclosed => ?_
      rw [hw.holding.isOpen, hw.holding.isReader] at hclosed
      cases hclosed
    rw [hz] at hput
    exact ⟨c₁, recs, p, hput, hrecs, hp, hw⟩
  · exact absurd hwrites hcut.1

/-! ### Closing a writer, in any state -/

theorem Chan.Grows.enterRawWrite {c : Chan} (h : c.stream.IsWriter) :
    c.Grows (FastCgi.enterRawWrite c) :=
  ⟨h.setWrNext rfl rfl rfl id rfl h.wrNext_le, rfl, List.prefix_refl _⟩

theorem writeEof_grows {c : Chan} (h : c.stream.IsWriter) :
    ∃ c', writeEof c = some c' ∧ c.Grows c' := by
  unfold writeEof
  split
  · exact ⟨c, rfl, .refl h⟩
  · obtain ⟨z, c', hput, hg⟩ := fcgxPutStr_grows h (eofHeader c)
    exact ⟨c', by rw [hput]; rfl, hg⟩

theorem writeEndRequest_grows {c : Chan} (h : c.stream.IsWriter) :
    ∃ c', writeEndRequest c = some c' ∧ c.Grows c' := by
  unfold writeEndRequest
  split
  · obtain ⟨z, c', hput, hg⟩ := fcgxPutStr_grows h (endRequestRecord c)
    exact ⟨c', by rw [hput]; rfl, hg⟩
  · exact ⟨c, rfl, .refl h⟩

theorem closeStream_eq {s : Stream} (h : s.isReader = false) :
    closeStream s =
      { s with wasFCloseCalled := true, isClosed := true, rdNext := s.wrNext, stop := s.wrNext } := by
  rw [closeStream, if_neg (by simp [h])]

theorem Stream.IsWriter.closeStream {s : Stream} (h : s.IsWriter) :
    (closeStream s).IsWriter := by
  rw [closeStream_eq h.isReader]
  exact ⟨h.isReader, Nat.le_refl _, (fun hf => nomatch hf), fun _ => rfl, h.bufflen_mod,
    h.bufflen_ge, h.bufflen_le⟩

/-- `FCGX_FClose` returns, and leaves a closed writer behind. -/
theorem fcgxFClose_grows {c : Chan} (h : c.stream.IsWriter) :
    ∃ z c', fcgxFClose c = some (z, c') ∧ c'.stream.IsWriter ∧ c.os.log <+: c'.os.log := by
  by_cases hopen : c.stream.wasFCloseCalled = true
  · exact ⟨_, c, by rw [fcgxFClose, if_pos hopen], h, List.prefix_refl _⟩
  · rw [fcgxFClose, if_neg hopen]
    rw [Bool.not_eq_true] at hopen
    have henc := encapsulate_grows h hopen
    have hraw := henc.trans (.enterRawWrite henc.isWriter)
    obtain ⟨c₁, heof, hg₁⟩ := writeEof_grows hraw.isWriter
    obtain ⟨c₂, hend, hg₂⟩ := writeEndRequest_grows hg₁.isWriter
    have hg₃ : c.Grows c₂.leaveWriter :=
      let hg := (hraw.trans hg₁).trans hg₂
      ⟨hg.isWriter, hg.wasFCloseCalled, hg.log⟩
    have hg := hg₃.trans (flushBuff_grows hg₃.isWriter (hg₃.wasFCloseCalled.trans hopen))
    let d := flushBuff c₂.leaveWriter
    have hclose : closeChan c = some { d with stream := closeStream d.stream } := by
      simp [closeChan, h.isReader, emptyBuffProcClose, writeCloseRecords, heof, hend, d]
    exact ⟨_, { d with stream := closeStream d.stream }, by rw [hclose], hg.isWriter.closeStream,
      hg.log⟩

/-! ### Closing an open writer -/

/-- An open writer in raw mode: all of its buffer goes out as it is. -/
structure Stream.Raw (s : Stream) (bytes : List UInt8) : Prop extends s.IsWriter where
  isOpen : s.isClosed = false
  rawWrite : s.rawWrite = true
  wrNext_eq : s.wrNext = bytes.length
  content : slice s.buff 0 bytes.length = bytes

/-- A writer in raw mode has sent `out` since, and holds `bytes`. -/
structure Chan.RawWrote (c c' : Chan) (out bytes : List UInt8) : Prop where
  raw : c'.stream.Raw bytes
  sent : c.os.Sent c'.os out
  type : c'.stream.type = c.stream.type
  req : c'.req = c.req

/-- A writer that is being closed has sent `target` or holds the rest of it, or
has been cut. -/
def Chan.Closing (c c' : Chan) (target : List UInt8) : Prop :=
  c.Grows c' ∧ ((∃ out bytes, out ++ bytes = target ∧ c.RawWrote c' out bytes) ∨
    c.os.Cut c'.os target)

theorem Stream.Raw.put {c : Chan} {bytes : List UInt8} (h : c.stream.Raw bytes) {bs : List UInt8}
    (hroom : bs.length ≤ c.stream.stop - c.stream.wrNext) : (c.put bs).stream.Raw (bytes ++ bs) where
  toIsWriter := h.toIsWriter.put hroom
  isOpen := h.isOpen
  rawWrite := h.rawWrite
  wrNext_eq := by
    show c.stream.wrNext + bs.length = _
    rw [h.wrNext_eq, List.length_append]
  content := by
    show slice (store c.stream.buff c.stream.wrNext bs) 0 _ = _
    have happ := slice_store_append (m := c.stream.buff) (i := 0) (n := bytes.length) bs
    rw [Nat.zero_add, h.content] at happ
    rw [h.wrNext_eq, List.length_append, happ]

/-- The raw buffer goes out, or it is cut. -/
theorem flushBuff_raw {c c' : Chan} {target : List UInt8} (h : c.Closing c' target)
    (hopen : c.stream.wasFCloseCalled = false) :
    c.Grows (flushBuff c') ∧ (c.RawWrote (flushBuff c') target [] ∨
      c.os.Cut (flushBuff c').os target) := by
  obtain ⟨hg, h⟩ := h
  have hg' := flushBuff_grows hg.isWriter (hg.wasFCloseCalled.trans hopen)
  refine ⟨hg.trans hg', ?_⟩
  rcases h with ⟨out, bytes, htarget, hraw⟩ | hcut
  · have hbytes : slice c'.stream.buff 0 c'.stream.wrNext = bytes := by
      rw [hraw.raw.wrNext_eq, hraw.raw.content]
    rcases flushBuff_spec c' with ⟨os', hfl, hsent⟩ | ⟨e, os', hfl, hcut⟩
    · rw [hfl] at hg' ⊢
      rw [hbytes] at hsent
      refine .inl ⟨⟨hg'.isWriter, hraw.raw.isOpen, hraw.raw.rawWrite, ?_, rfl⟩,
        htarget ▸ hraw.sent.trans hsent, hraw.type, hraw.req⟩
      simp [Stream.emptied, hraw.raw.rawWrite]
    · rw [hfl]
      rw [hbytes] at hcut
      exact .inr (htarget ▸ hraw.sent.cut hcut)
  · exact .inr (hcut.grow hg'.log)

theorem Chan.Closing.mono {c c' : Chan} {target : List UInt8} (hg : c.Grows c')
    (hcut : c.os.Cut c'.os target) (more : List UInt8) : c.Closing c' (target ++ more) :=
  ⟨hg, .inr (hcut.mono (List.prefix_append _ _))⟩

/-- `FCGX_PutStr` in raw mode. -/
theorem fcgxPutStr_closing {c c' : Chan} {target : List UInt8} (h : c.Closing c' target)
    (hopen : c.stream.wasFCloseCalled = false) (str : List UInt8) :
    ∃ z c'', fcgxPutStr str c' = some (z, c'') ∧ c.Closing c'' (target ++ str) := by
  let I (k : ℕ) (d : Chan) : Prop := c.Closing d (target ++ str.take k)
  have hput : ∀ k m d, I k d → k + m ≤ str.length → m ≤ d.stream.stop - d.stream.wrNext →
      I (k + m) (d.put ((str.drop k).take m)) := by
    rintro k m d ⟨hg, hend⟩ hkm hm
    have hroom : ((str.drop k).take m).length ≤ d.stream.stop - d.stream.wrNext := by
      rw [List.length_take]
      omega
    refine ⟨hg.trans (.put hg.isWriter hroom), ?_⟩
    rw [List.take_add, ← List.append_assoc]
    refine hend.imp ?_ fun hcut => hcut.mono (List.prefix_append _ _)
    rintro ⟨out, bytes, htarget, hraw⟩
    refine ⟨out, bytes ++ (str.drop k).take m, by rw [← List.append_assoc, htarget], ?_⟩
    exact ⟨hraw.raw.put hroom, hraw.sent, hraw.type, hraw.req⟩
  have hempty : ∀ k d, I k d → d.stream.isClosed = false → I k (emptyBuffProc d) := by
    rintro k d hd hc
    have hg := emptyBuffProc_grows hd.1.isWriter (hd.1.isWriter.wasFCloseCalled hc)
    rcases hd.2 with ⟨out, bytes, htarget, hraw⟩ | hcut
    · have hsame : emptyBuffProc d = flushBuff d := by
        rw [emptyBuffProc, encapsulate, if_pos hraw.raw.rawWrite]
      obtain ⟨hg', hend⟩ := flushBuff_raw hd hopen
      rw [hsame]
      exact ⟨hg', hend.imp (fun hw => ⟨_, [], List.append_nil _, hw⟩) id⟩
    · exact ⟨hd.1.trans hg, .inr (hcut.grow hg.log)⟩
  have h0 : I 0 c' := by
    show c.Closing c' (target ++ str.take 0)
    rwa [List.take_zero, List.append_nil]
  obtain ⟨z, c'', hrun, hend⟩ := fcgxPutStr_rule _ (fun _ _ hI => hI.1.isWriter) hput hempty h0
  refine ⟨z, c'', hrun, ?_⟩
  rcases hend with ⟨-, hI⟩ | ⟨-, hclosed, k, hI⟩
  · have hI' : c.Closing c'' (target ++ str.take str.length) := hI
    rwa [List.take_length] at hI'
  · rcases hI.2 with ⟨out, bytes, -, hraw⟩ | hcut
    · have hopen' := hraw.raw.isOpen
      dsimp only at hclosed
      rw [hclosed] at hopen'
      exact Bool.noConfusion hopen'
    · exact ⟨hI.1, .inr (hcut.mono
        ((List.prefix_append_right_inj target).mpr (List.take_prefix k str)))⟩

theorem encode_eofRecord {c : Chan} (hf : c.Fits) :
    (eofRecord c.stream.type c.req.requestId).encode = eofHeader c := by
  rw [eofRecord, encode_dataRecord hf.type_lt hf.requestId_lt]
  rfl

theorem encode_endRecord {c : Chan} (hf : c.Fits) :
    (endRecord c.req.requestId c.req.appStatus).encode = endRequestRecord c := by
  rw [endRecord, encode_dataRecord (by decide) hf.requestId_lt, List.append_nil]
  rfl

/-- A writer that `FCGX_FClose` has closed. -/
structure Stream.Finished (s : Stream) : Prop extends s.IsWriter where
  wasFCloseCalled : s.wasFCloseCalled = true
  wrNext_eq : s.wrNext = s.stop

theorem Chan.Closing.cut {c c' c'' : Chan} {target : List UInt8} (hg : c.Grows c')
    (hcut : c.os.Cut c'.os target) (h : c'.Grows c'') (more : List UInt8) :
    c.Closing c'' (target ++ more) :=
  ⟨hg.trans h, .inr ((hcut.grow h.log).mono (List.prefix_append _ _))⟩

/-- An open writer enters raw mode with its content as one record. -/
theorem enterRawWrite_closing {c : Chan} {pending : List UInt8} (h : c.stream.Holding pending)
    (hf : c.Fits) :
    ∃ recs, OneBlock c.stream.type c.req.requestId pending recs ∧
      c.Closing (enterRawWrite (encapsulate c)) (encodeAll recs) ∧
      (enterRawWrite (encapsulate c)).stream.type = c.stream.type ∧
      (enterRawWrite (encapsulate c)).req = c.req ∧
      (enterRawWrite (encapsulate c)).stream.isAnythingWritten = c.stream.isAnythingWritten ∧
      ((enterRawWrite (encapsulate c)).stream.wrNext = 0 ↔ recs = []) := by
  obtain ⟨recs, buff, wrNext, hblock, hbytes, henc⟩ := encapsulate_holding h hf
  have hg := encapsulate_grows h.toIsWriter (h.wasFCloseCalled h.isOpen)
  have hg' := hg.trans (.enterRawWrite hg.isWriter)
  rw [henc] at hg' ⊢
  have hlen : wrNext = (encodeAll recs).length := by rw [← hbytes, length_slice]
  refine ⟨recs, hblock, ⟨hg', .inl ⟨[], encodeAll recs, rfl, ?_⟩⟩, rfl, rfl, rfl, ?_⟩
  · exact ⟨⟨hg'.isWriter, h.isOpen, rfl, hlen, hlen ▸ hbytes⟩, .refl _, rfl, rfl⟩
  · show wrNext = 0 ↔ recs = []
    rw [hlen, List.length_eq_zero_iff, encodeAll_eq_nil_iff]

/-- The writer puts the record that ends its stream. -/
theorem writeEof_closing {c e : Chan} {recs : List Record} (hf : c.Fits)
    (hopen : c.stream.wasFCloseCalled = false) (h : c.Closing e (encodeAll recs))
    (htype : e.stream.type = c.stream.type) (hreq : e.req = c.req)
    (hany : e.stream.isAnythingWritten = c.stream.isAnythingWritten)
    (hnext : e.stream.wrNext = 0 ↔ recs = []) :
    ∃ c', writeEof e = some c' ∧ c.Closing c' (encodeAll (recs ++
      eofRecords c.stream.type c.req.requestId
        (c.stream.isAnythingWritten || decide (recs ≠ [])))) := by
  have hsilent : (c.stream.isAnythingWritten || decide (recs ≠ [])) = false ↔
      e.stream.wrNext = 0 ∧ e.stream.isAnythingWritten = false := by
    rw [Bool.or_eq_false_iff, decide_eq_false_iff_not, not_not, hnext, hany, and_comm]
  by_cases hquiet : c.stream.type = fcgiStderr ∧ e.stream.wrNext = 0 ∧
      e.stream.isAnythingWritten = false
  · rw [writeEof, if_pos (by rwa [htype]), eofRecords, if_pos ⟨hquiet.1, hsilent.mpr hquiet.2⟩]
    exact ⟨e, rfl, by rwa [List.append_nil]⟩
  · rw [writeEof, if_neg (by rwa [htype]), eofRecords,
      if_neg fun hq => hquiet ⟨hq.1, hsilent.mp hq.2⟩]
    obtain ⟨z, c', hput, hc'⟩ := fcgxPutStr_closing h hopen (eofHeader e)
    refine ⟨c', by rw [hput]; rfl, ?_⟩
    have hsame : eofHeader e = eofHeader c := by rw [eofHeader, eofHeader, htype, hreq]
    rw [encodeAll_append, encodeAll_cons, encodeAll_nil, List.append_nil, encode_eofRecord hf,
      ← hsame]
    exact hc'

/-- The last writer puts the record that ends the request. -/
theorem writeEndRequest_closing {c c₁ : Chan} {recs : List Record} (hf : c.Fits)
    (hopen : c.stream.wasFCloseCalled = false) (h : c.Closing c₁ (encodeAll recs)) :
    ∃ c', writeEndRequest c₁ = some c' ∧ c.Closing c' (encodeAll (recs ++
      endRecords c.req.requestId c.req.appStatus (decide (c.req.nWriters = 1)))) := by
  rw [encodeAll_append]
  obtain ⟨hg, ⟨out, bytes, htarget, hraw⟩ | hcut⟩ := h
  · unfold writeEndRequest endRecords
    rw [hraw.req]
    simp only [decide_eq_true_eq]
    split
    · obtain ⟨z, c', hput, hc'⟩ :=
        fcgxPutStr_closing ⟨hg, .inl ⟨out, bytes, htarget, hraw⟩⟩ hopen (endRequestRecord c₁)
      refine ⟨c', by rw [hput]; rfl, ?_⟩
      have hsame : endRequestRecord c₁ = endRequestRecord c := by
        rw [endRequestRecord, endRequestRecord, hraw.req]
      rw [encodeAll_cons, encodeAll_nil, List.append_nil, encode_endRecord hf, ← hsame]
      exact hc'
    · rw [encodeAll_nil, List.append_nil]
      exact ⟨c₁, rfl, hg, .inl ⟨out, bytes, htarget, hraw⟩⟩
  · obtain ⟨c', hend, hg'⟩ := writeEndRequest_grows hg.isWriter
    exact ⟨c', hend, .cut hg hcut hg' _⟩

theorem flushBuff_leaveWriter (c : Chan) :
    flushBuff c.leaveWriter = (flushBuff c).leaveWriter := by
  unfold flushBuff
  by_cases hne : c.stream.wrNext ≠ 0
  · rw [if_pos hne, if_pos (by exact hne)]
    unfold writeBuff
    rcases hw : writeItAll c.os (slice c.stream.buff 0 c.stream.wrNext) with ⟨e | u, os⟩
    · simp only [Chan.leaveWriter, hw]
      rfl
    · by_cases hraw : c.stream.rawWrite = true <;>
        simp [Chan.leaveWriter, hw, reserveHeader, hraw]
  · rw [if_neg hne, if_neg (by exact hne)]
    by_cases hraw : c.stream.rawWrite = true <;> simp [Chan.leaveWriter, reserveHeader, hraw]

/-- **`FCGX_FClose`** of an open writer sends what it holds, the end of the
stream, and with the last writer the end of the request. -/
theorem fcgxFClose_holding {c : Chan} {pending : List UInt8} (h : c.stream.Holding pending)
    (hf : c.Fits) :
    ∃ z c' recs, fcgxFClose c = some (z, c') ∧ c'.stream.IsWriter ∧
      OneBlock c.stream.type c.req.requestId pending recs ∧
      (c.os.Sent c'.os (encodeAll ((recs ++ eofRecords c.stream.type c.req.requestId
            (c.stream.isAnythingWritten || decide (recs ≠ []))) ++
          endRecords c.req.requestId c.req.appStatus (decide (c.req.nWriters = 1)))) ∧
        c'.req = { c.req with nWriters := c.req.nWriters - 1 } ∧ c'.stream.Finished ∧
        c'.stream.type = c.stream.type ∨
      c.os.Cut c'.os (encodeAll ((recs ++ eofRecords c.stream.type c.req.requestId
            (c.stream.isAnythingWritten || decide (recs ≠ []))) ++
          endRecords c.req.requestId c.req.appStatus (decide (c.req.nWriters = 1))))) := by
  have hopen := h.wasFCloseCalled h.isOpen
  obtain ⟨recs, hblock, hclosing, htype, hreq, hany, hnext⟩ := enterRawWrite_closing h hf
  obtain ⟨c₁, heof, hc₁⟩ := writeEof_closing hf hopen hclosing htype hreq hany hnext
  obtain ⟨c₂, hend, hc₂⟩ := writeEndRequest_closing hf hopen hc₁
  obtain ⟨hg, hlast⟩ := flushBuff_raw hc₂ hopen
  let d := (flushBuff c₂).leaveWriter
  have hclose : closeChan c = some { d with stream := closeStream d.stream } := by
    simp [closeChan, h.isReader, emptyBuffProcClose, writeCloseRecords, heof, hend, d,
      flushBuff_leaveWriter]
  have hcall : fcgxFClose c =
      some (if (closeStream d.stream).fcgiErrno = 0 then 0 else -1,
        { d with stream := closeStream d.stream }) := by
    rw [fcgxFClose, if_neg (by simp [hopen]), hclose]
  have hw : (closeStream d.stream).IsWriter := hg.isWriter.closeStream
  refine ⟨_, { d with stream := closeStream d.stream }, recs, hcall, hw, hblock,
    hlast.imp ?_ id⟩
  intro hraw
  have heq : closeStream d.stream = _ := closeStream_eq (s := d.stream) hg.isWriter.isReader
  refine ⟨hraw.sent, ?_, ⟨hw, ?_, ?_⟩, ?_⟩
  · show { (flushBuff c₂).req with nWriters := (flushBuff c₂).req.nWriters - 1 } = _
    rw [hraw.req]
  · rw [heq]
  · rw [heq]
  · rw [heq]
    exact hraw.type

end FastCgi
