import FastCgi.App.Writer

/-!
What one call on a writer sends, whatever `OS_Write` does.

A call either sends all it means to (`Os.Sent`), or some `OS_Write` fails
in it; then only what went out before the first failure is described
(`Os.Cut`), since nothing that the call does afterwards can be relied on.
An open writer holds content behind the room for a header
(`Stream.Holding`); while it is being closed the whole buffer is raw
bytes (`Stream.Raw`). `fcgxPutStr_rule` is the one induction over the loop
of `FCGX_PutStr`.
-/

namespace FastCgi

open ByteMem BoundedLoop

/-! ### What goes out -/

/-- `bs` went out, and no `OS_Write` failed. -/
def Os.Sent (os os' : Os) (bs : List UInt8) : Prop :=
  ∃ log, os'.log = os.log ++ log ∧ (∀ x ∈ log, 0 ≤ x.wrote) ∧ accepted log = bs ∧
    (os.NeverFails → os'.NeverFails)

/-- An `OS_Write` failed, and before the first that did only a front part of
`bs` went out. -/
def Os.Cut (os os' : Os) (bs : List UInt8) : Prop :=
  ¬os.NeverFails ∧ ∃ pre call post, os'.log = os.log ++ (pre ++ call :: post) ∧
    (∀ x ∈ pre, 0 ≤ x.wrote) ∧ call.wrote < 0 ∧ accepted pre <+: bs

theorem Os.Sent.refl (os : Os) : os.Sent os [] := ⟨[], by simp, by simp, rfl, id⟩

theorem Os.Sent.trans {os os' os'' : Os} {bs bs' : List UInt8} (h : os.Sent os' bs)
    (h' : os'.Sent os'' bs') : os.Sent os'' (bs ++ bs') := by
  obtain ⟨log, hlog, hok, hacc, hnf⟩ := h
  obtain ⟨log', hlog', hok', hacc', hnf'⟩ := h'
  refine ⟨log ++ log', by rw [hlog', hlog, List.append_assoc], fun x hx => ?_, ?_, hnf' ∘ hnf⟩
  · exact (List.mem_append.mp hx).elim (hok x) (hok' x)
  · rw [accepted_append, hacc, hacc']

theorem Os.Sent.cut {os os' os'' : Os} {bs bs' : List UInt8} (h : os.Sent os' bs)
    (h' : os'.Cut os'' bs') : os.Cut os'' (bs ++ bs') := by
  obtain ⟨log, hlog, hok, hacc, hnf⟩ := h
  obtain ⟨hf, pre, call, post, hlog', hok', hneg, hpre⟩ := h'
  refine ⟨hf ∘ hnf, log ++ pre, call, post, ?_, fun x hx => ?_, hneg, ?_⟩
  · rw [hlog', hlog]
    simp only [List.append_assoc]
  · exact (List.mem_append.mp hx).elim (hok x) (hok' x)
  · rw [accepted_append, hacc]
    exact (List.prefix_append_right_inj bs).mpr hpre

theorem Os.Cut.mono {os os' : Os} {bs bs' : List UInt8} (h : os.Cut os' bs) (hle : bs <+: bs') :
    os.Cut os' bs' := by
  obtain ⟨hf, pre, call, post, hlog, hok, hneg, hpre⟩ := h
  exact ⟨hf, pre, call, post, hlog, hok, hneg, hpre.trans hle⟩

/-- What happens after the first failure does not matter. -/
theorem Os.Cut.grow {os os' os'' : Os} {bs : List UInt8} (h : os.Cut os' bs)
    (hlog : os'.log <+: os''.log) : os.Cut os'' bs := by
  obtain ⟨hf, pre, call, post, hlog', hok, hneg, hpre⟩ := h
  obtain ⟨more, hmore⟩ := hlog
  refine ⟨hf, pre, call, post ++ more, ?_, hok, hneg, hpre⟩
  rw [← hmore, hlog']
  simp only [List.append_assoc, List.cons_append]

theorem Os.Sent.log {os os' : Os} {bs : List UInt8} (h : os.Sent os' bs) : os.log <+: os'.log := by
  obtain ⟨log, hlog, -⟩ := h
  exact ⟨log, hlog.symm⟩

theorem Os.Cut.log {os os' : Os} {bs : List UInt8} (h : os.Cut os' bs) : os.log <+: os'.log := by
  obtain ⟨-, pre, call, post, hlog, -⟩ := h
  exact ⟨_, hlog.symm⟩

/-- One call of `OS_Write`: it takes some bytes, or it fails. -/
theorem osWrite_sent (os : Os) {buf : List UInt8} (hbuf : buf ≠ []) :
    (∃ n, 0 < n ∧ n ≤ buf.length ∧ (osWrite os buf).1 = .ok n ∧
        os.Sent (osWrite os buf).2 (buf.take n)) ∨
      ∃ e, (osWrite os buf).1 = .error e ∧ os.Cut (osWrite os buf).2 [] := by
  by_cases hnf : os.NeverFails
  · obtain ⟨n, rs, hn0, hn, hrs, hw⟩ := osWrite_ok hnf hbuf
    refine .inl ⟨n, hn0, hn, by rw [hw], [⟨buf, n⟩], by rw [hw], by simp, by simp, fun _ => ?_⟩
    rw [hw]
    exact ⟨hnf.1, hrs⟩
  · obtain ⟨rs, ⟨n, hn0, hn, hw⟩ | ⟨e, hw⟩⟩ := osWrite_cases os hbuf
    · exact .inl ⟨n, hn0, hn, by rw [hw], [⟨buf, n⟩], by rw [hw], by simp, by simp,
        fun h => absurd h hnf⟩
    · refine .inr ⟨e, by rw [hw], hnf, [], ⟨buf, -1⟩, [], by rw [hw]; rfl, by simp, ?_, ?_⟩
      · exact (by decide : (-1 : ℤ) < 0)
      · simp

theorem writeItAllLoop_sent {fuel : ℕ} {os : Os} {buf : List UInt8} (hfuel : buf.length ≤ fuel) :
    (writeItAllLoop fuel os buf).1 = .ok () ∧ os.Sent (writeItAllLoop fuel os buf).2 buf ∨
      ∃ e, (writeItAllLoop fuel os buf).1 = .error e ∧
        os.Cut (writeItAllLoop fuel os buf).2 buf := by
  induction fuel generalizing os buf with
  | zero =>
      have hnil : buf = [] := List.length_eq_zero_iff.mp (by omega)
      rw [hnil]
      exact .inl ⟨rfl, .refl os⟩
  | succ fuel ih =>
      by_cases hne : buf = []
      · rw [hne]
        exact .inl ⟨rfl, .refl os⟩
      · rw [writeItAllLoop, if_neg hne]
        rcases osWrite_sent os hne with ⟨n, hn0, hn, hres, hsent⟩ | ⟨e, hres, hcut⟩
        · rcases hw : osWrite os buf with ⟨res, os'⟩
          rw [hw] at hres hsent
          dsimp only at hres hsent
          subst hres
          dsimp only
          have hdone : buf.take n ++ buf.drop n = buf := List.take_append_drop n buf
          rcases @ih os' (buf.drop n) (by rw [List.length_drop]; omega) with
            ⟨hok, hrest⟩ | ⟨e, herr, hcut⟩
          · exact .inl ⟨hok, by simpa only [hdone] using hsent.trans hrest⟩
          · exact .inr ⟨e, herr, by simpa only [hdone] using hsent.cut hcut⟩
        · rcases hw : osWrite os buf with ⟨res, os'⟩
          rw [hw] at hres hcut
          dsimp only at hres hcut
          subst hres
          exact .inr ⟨e, rfl, hcut.mono List.nil_prefix⟩

/-- `write_it_all` sends everything, or it is cut. -/
theorem writeItAll_sent (os : Os) (buf : List UInt8) :
    (writeItAll os buf).1 = .ok () ∧ os.Sent (writeItAll os buf).2 buf ∨
      ∃ e, (writeItAll os buf).1 = .error e ∧ os.Cut (writeItAll os buf).2 buf :=
  writeItAllLoop_sent (Nat.le_refl _)

/-! ### Writers in any state -/

/-- The offsets of a writer, in whatever state it is. -/
structure Stream.IsWriter (s : Stream) : Prop where
  isReader : s.isReader = false
  wrNext_le : s.wrNext ≤ s.stop
  /-- Until `FCGX_FClose` the whole buffer is in use. -/
  stop_eq : s.wasFCloseCalled = false → s.stop = s.bufflen
  isClosed : s.wasFCloseCalled = true → s.isClosed = true
  bufflen_mod : s.bufflen % 8 = 0
  bufflen_ge : 24 ≤ s.bufflen
  bufflen_le : s.bufflen ≤ 65536

/-- What a call on a writer keeps, whether or not it fails. -/
structure Chan.Grows (c c' : Chan) : Prop where
  isWriter : c'.stream.IsWriter
  wasFCloseCalled : c'.stream.wasFCloseCalled = c.stream.wasFCloseCalled
  log : c.os.log <+: c'.os.log

theorem Chan.Grows.refl {c : Chan} (h : c.stream.IsWriter) : c.Grows c :=
  ⟨h, rfl, List.prefix_refl _⟩

theorem Chan.Grows.trans {c c' c'' : Chan} (h : c.Grows c') (h' : c'.Grows c'') : c.Grows c'' :=
  ⟨h'.isWriter, h'.wasFCloseCalled.trans h.wasFCloseCalled, h.log.trans h'.log⟩

theorem le_alignInt8 (n : ℕ) : n ≤ alignInt8 n := by
  unfold alignInt8
  omega

theorem alignInt8_sub_le (n : ℕ) : alignInt8 n - n ≤ 7 := by
  unfold alignInt8
  omega

/-- Padding does not overflow a buffer whose size is a multiple of 8. -/
theorem alignInt8_le {n m : ℕ} (h : n ≤ m) (hm : m % 8 = 0) : alignInt8 n ≤ m := by
  unfold alignInt8
  omega

theorem Stream.IsWriter.put {c : Chan} (h : c.stream.IsWriter) {bs : List UInt8}
    (hroom : bs.length ≤ c.stream.stop - c.stream.wrNext) : (c.put bs).stream.IsWriter where
  isReader := h.isReader
  wrNext_le := by
    have := h.wrNext_le
    show c.stream.wrNext + bs.length ≤ c.stream.stop
    omega
  stop_eq := h.stop_eq
  isClosed := h.isClosed
  bufflen_mod := h.bufflen_mod
  bufflen_ge := h.bufflen_ge
  bufflen_le := h.bufflen_le

theorem Chan.Grows.put {c : Chan} (h : c.stream.IsWriter) {bs : List UInt8}
    (hroom : bs.length ≤ c.stream.stop - c.stream.wrNext) : c.Grows (c.put bs) :=
  ⟨h.put hroom, rfl, List.prefix_refl _⟩

/-- A change of the last byte put, within the buffer. -/
theorem Stream.IsWriter.setWrNext {s s' : Stream} (h : s.IsWriter) (hr : s'.isReader = s.isReader)
    (hstop : s'.stop = s.stop) (hf : s'.wasFCloseCalled = s.wasFCloseCalled)
    (hc : s.isClosed = true → s'.isClosed = true) (hb : s'.bufflen = s.bufflen)
    (hw : s'.wrNext ≤ s.stop) : s'.IsWriter where
  isReader := hr.trans h.isReader
  wrNext_le := by rwa [hstop]
  stop_eq hf' := by rw [hstop, hb, h.stop_eq (hf ▸ hf')]
  isClosed hf' := hc (h.isClosed (hf ▸ hf'))
  bufflen_mod := hb ▸ h.bufflen_mod
  bufflen_ge := hb ▸ h.bufflen_ge
  bufflen_le := hb ▸ h.bufflen_le

theorem encapsulate_grows {c : Chan} (h : c.stream.IsWriter)
    (hopen : c.stream.wasFCloseCalled = false) : c.Grows (encapsulate c) := by
  have hstop := h.stop_eq hopen
  have hle := h.wrNext_le
  have hmod := h.bufflen_mod
  unfold encapsulate
  split
  · exact .refl h
  · split
    · next hlt =>
        refine ⟨h.setWrNext rfl rfl rfl id rfl ?_, rfl, List.prefix_refl _⟩
        have hfit := alignInt8_le (n := c.stream.wrNext - 8) (m := c.stream.bufflen - 8)
          (by omega) (by omega)
        show c.stream.wrNext + (List.replicate (alignInt8 (c.stream.wrNext - 8) -
          (c.stream.wrNext - 8)) 0).length ≤ c.stream.stop
        have hlt' : 8 < c.stream.wrNext := hlt
        rw [List.length_replicate]
        omega
    · exact ⟨h.setWrNext rfl rfl rfl id rfl (Nat.zero_le _), rfl, List.prefix_refl _⟩

/-- The stream once its buffer has gone out. -/
def Stream.emptied (s : Stream) : Stream :=
  { s with
    wrNext := if s.rawWrite then 0 else fcgiHeaderLen
    isAnythingWritten := s.isAnythingWritten || s.wrNext ≠ 0 }

/-- **The buffer goes out, or it is cut.** -/
theorem flushBuff_spec (c : Chan) :
    (∃ os', flushBuff c = { c with stream := c.stream.emptied, os := os' } ∧
        c.os.Sent os' (slice c.stream.buff 0 c.stream.wrNext)) ∨
      ∃ (e : ℤ) (os' : Os),
        flushBuff c =
          { c with stream := setError { c.stream with isAnythingWritten := true } e, os := os' } ∧
        c.os.Cut os' (slice c.stream.buff 0 c.stream.wrNext) := by
  unfold flushBuff
  split
  · next hne =>
      unfold writeBuff
      rcases writeItAll_sent c.os (slice c.stream.buff 0 c.stream.wrNext) with
        ⟨hok, hsent⟩ | ⟨e, herr, hcut⟩
      · rcases hw : writeItAll c.os (slice c.stream.buff 0 c.stream.wrNext) with ⟨res, os'⟩
        rw [hw] at hok hsent
        dsimp only at hok hsent
        subst hok
        refine .inl ⟨os', ?_, hsent⟩
        by_cases hraw : c.stream.rawWrite = true <;>
          simp [hw, reserveHeader, Stream.emptied, hraw, hne]
      · rcases hw : writeItAll c.os (slice c.stream.buff 0 c.stream.wrNext) with ⟨res, os'⟩
        rw [hw] at herr hcut
        dsimp only at herr hcut
        subst herr
        exact .inr ⟨e, os', by simp only [hw]; rfl, hcut⟩
  · next hzero =>
      have hz : c.stream.wrNext = 0 := not_not.mp hzero
      refine .inl ⟨c.os, ?_, by rw [hz]; exact .refl _⟩
      rcases c with ⟨s, req, os⟩
      cases s
      dsimp only at hz
      subst hz
      simp only [reserveHeader, Stream.emptied]
      split <;> simp

theorem flushBuff_grows {c : Chan} (h : c.stream.IsWriter)
    (hopen : c.stream.wasFCloseCalled = false) : c.Grows (flushBuff c) := by
  have hstop := h.stop_eq hopen
  have hge := h.bufflen_ge
  rcases flushBuff_spec c with ⟨os', hfl, hsent⟩ | ⟨e, os', hfl, hcut⟩
  · rw [hfl]
    refine ⟨h.setWrNext rfl rfl rfl id rfl ?_, rfl, hsent.log⟩
    show (if c.stream.rawWrite then 0 else 8) ≤ c.stream.stop
    split <;> omega
  · rw [hfl]
    exact ⟨h.setWrNext rfl rfl rfl (fun _ => rfl) rfl h.wrNext_le, rfl, hcut.log⟩

theorem emptyBuffProc_grows {c : Chan} (h : c.stream.IsWriter)
    (hopen : c.stream.wasFCloseCalled = false) : c.Grows (emptyBuffProc c) := by
  have henc := encapsulate_grows h hopen
  exact henc.trans (flushBuff_grows henc.isWriter (henc.wasFCloseCalled.trans hopen))

/-- A stream that is not closed has not been closed by `FCGX_FClose`. -/
theorem Stream.IsWriter.wasFCloseCalled {s : Stream} (h : s.IsWriter) (hc : s.isClosed = false) :
    s.wasFCloseCalled = false := by
  rw [← Bool.not_eq_true]
  intro hf
  rw [h.isClosed hf] at hc
  exact Bool.noConfusion hc

/-- A buffer that has gone out has room again. -/
theorem emptyBuffProc_room {c : Chan} (h : c.stream.IsWriter)
    (hopen : c.stream.wasFCloseCalled = false) :
    (emptyBuffProc c).stream.isClosed = true ∨
      (emptyBuffProc c).stream.wrNext < (emptyBuffProc c).stream.stop := by
  have henc := encapsulate_grows h hopen
  have hstop := henc.isWriter.stop_eq (henc.wasFCloseCalled.trans hopen)
  have hge := henc.isWriter.bufflen_ge
  unfold emptyBuffProc
  rcases flushBuff_spec (encapsulate c) with ⟨os', hfl, -⟩ | ⟨e, os', hfl, -⟩
  · rw [hfl]
    refine .inr ?_
    show (if (encapsulate c).stream.rawWrite then 0 else 8) < (encapsulate c).stream.stop
    split <;> omega
  · rw [hfl]
    exact .inl rfl

/-! ### Putting bytes -/

/-- 1 when nothing can be stored before the buffer is emptied. -/
def Stream.waits (s : Stream) : ℕ := if s.isClosed = false ∧ s.wrNext = s.stop then 1 else 0

theorem Stream.waits_le (s : Stream) : s.waits ≤ 1 := by
  unfold Stream.waits
  split <;> omega

theorem emptyBuffProc_waits {c : Chan} (h : c.stream.IsWriter) (hc : c.stream.isClosed = false) :
    (emptyBuffProc c).stream.waits = 0 := by
  rw [Stream.waits, if_neg]
  rintro ⟨hopen, hfull⟩
  rcases emptyBuffProc_room h (h.wasFCloseCalled hc) with hclosed | hlt
  · rw [hopen] at hclosed
    exact Bool.noConfusion hclosed
  · omega

section Putting

variable {str : List UInt8} {I : ℕ → Chan → Prop}

/-- How `FCGX_PutStr` ends: with all bytes put, or on a closed stream. -/
def PutEnds (n : ℕ) (I : ℕ → Chan → Prop) (r : ℤ × Chan) : Prop :=
  r.1 = n ∧ I n r.2 ∨ r.1 = -1 ∧ r.2.stream.isClosed = true ∧ ∃ k, I k r.2

variable (str) in
theorem putStrEmpty_cases (hw : ∀ k c, I k c → c.stream.IsWriter)
    (hempty : ∀ k c, I k c → c.stream.isClosed = false → I k (emptyBuffProc c)) {k : ℕ} {c : Chan}
    (hI : I k c) :
    (∃ r, putStrEmpty (k, c) = some (.done r) ∧ PutEnds str.length I r) ∨
      putStrEmpty (k, c) = some (.again (k, emptyBuffProc c)) ∧ I k (emptyBuffProc c) ∧
        (emptyBuffProc c).stream.waits = 0 ∧ c.stream.isClosed = false := by
  by_cases hc : c.stream.isClosed = true
  · exact .inl ⟨(-1, c), by simp [putStrEmpty, hc], .inr ⟨rfl, hc, k, hI⟩⟩
  · rw [Bool.not_eq_true] at hc
    exact .inr ⟨by simp [putStrEmpty, hc, (hw k c hI).isReader], hempty k c hI hc,
      emptyBuffProc_waits (hw k c hI) hc, hc⟩

/-- One pass: it ends the loop, or fewer bytes are left, or the buffer has been
emptied. -/
theorem putStrBody_step (hw : ∀ k c, I k c → c.stream.IsWriter)
    (hput : ∀ k m c, I k c → k + m ≤ str.length → m ≤ c.stream.stop - c.stream.wrNext →
      I (k + m) (c.put ((str.drop k).take m)))
    (hempty : ∀ k c, I k c → c.stream.isClosed = false → I k (emptyBuffProc c))
    {k : ℕ} {c : Chan} (hk : k < str.length) (hI : I k c) :
    (∃ r, putStrBody str (k, c) = some (.done r) ∧ PutEnds str.length I r) ∨
      ∃ j c', putStrBody str (k, c) = some (.again (j, c')) ∧ (j < str.length ∧ I j c') ∧
        str.length - j + c'.stream.waits < str.length - k + c.stream.waits := by
  have hle := (hw k c hI).wrNext_le
  by_cases hfull : c.stream.wrNext = c.stream.stop
  · rw [putStrBody, if_pos hfull]
    rcases putStrEmpty_cases str hw hempty hI with ⟨r, hr, hend⟩ | ⟨hy, hI', hwait, hc⟩
    · exact .inl ⟨r, hr, hend⟩
    · refine .inr ⟨k, emptyBuffProc c, hy, ⟨hk, hI'⟩, ?_⟩
      have : c.stream.waits = 1 := if_pos ⟨hc, hfull⟩
      omega
  · let m := min (str.length - k) (c.stream.stop - c.stream.wrNext)
    have hI' : I (k + m) (c.put ((str.drop k).take m)) :=
      hput k m c hI (by omega) (Nat.min_le_right _ _)
    rw [putStrBody, if_neg hfull]
    by_cases hall : k + m = str.length
    · rw [hall] at hI'
      rw [if_pos (by exact hall)]
      exact .inl ⟨_, rfl, .inl ⟨rfl, hI'⟩⟩
    · rw [if_neg (by exact hall)]
      rcases putStrEmpty_cases str hw hempty hI' with
        ⟨r, hr, hend⟩ | ⟨hy, hI'', hwait, -⟩
      · exact .inl ⟨r, hr, hend⟩
      · refine .inr ⟨k + m, _, hy, ⟨by omega, hI''⟩, ?_⟩
        omega

variable (str) in
/-- **The rule for `FCGX_PutStr`.** An invariant `I k` of a writer into which `k`
bytes have been put, kept by storing some more and by emptying the buffer,
holds at the end. -/
theorem fcgxPutStr_rule {c : Chan} (hw : ∀ k c, I k c → c.stream.IsWriter)
    (hput : ∀ k m c, I k c → k + m ≤ str.length → m ≤ c.stream.stop - c.stream.wrNext →
      I (k + m) (c.put ((str.drop k).take m)))
    (hempty : ∀ k c, I k c → c.stream.isClosed = false → I k (emptyBuffProc c)) (h0 : I 0 c) :
    ∃ z c', fcgxPutStr str c = some (z, c') ∧ PutEnds str.length I (z, c') := by
  unfold fcgxPutStr
  split
  · next hfast =>
      have h := hput 0 str.length c h0 (by omega) hfast
      rw [Nat.zero_add, List.drop_zero, List.take_length] at h
      exact ⟨_, _, rfl, .inl ⟨rfl, h⟩⟩
  · next hslow =>
      have hstep : ∀ x : ℕ × Chan, (x.1 < str.length ∧ I x.1 x.2) →
          (∃ r, putStrBody str x = some (.done r) ∧ PutEnds str.length I r) ∨
            ∃ y, putStrBody str x = some (.again y) ∧ (y.1 < str.length ∧ I y.1 y.2) ∧
              str.length - y.1 + y.2.stream.waits < str.length - x.1 + x.2.stream.waits := by
        rintro ⟨k, c⟩ ⟨hk, hI⟩
        exact (putStrBody_step hw hput hempty hk hI).imp_right
          fun ⟨j, c', hy, hI', hlt⟩ => ⟨(j, c'), hy, hI', hlt⟩
      have hwait := c.stream.waits_le
      obtain ⟨⟨z, c'⟩, hrun, hz⟩ : ∃ x, run (putStrBody str) (str.length + 2) (0, c) = some x ∧
          PutEnds str.length I x :=
        run_total (fun x => x.1 < str.length ∧ I x.1 x.2) (PutEnds str.length I)
          (fun x => str.length - x.1 + x.2.stream.waits) hstep
          ⟨by dsimp only; omega, h0⟩ (by dsimp only; omega)
      exact ⟨z, c', hrun, hz⟩

end Putting

theorem fcgxPutStr_grows {c : Chan} (h : c.stream.IsWriter) (str : List UInt8) :
    ∃ z c', fcgxPutStr str c = some (z, c') ∧ c.Grows c' := by
  obtain ⟨z, c', hput, hend⟩ := fcgxPutStr_rule str (I := fun _ c' => c.Grows c')
    (fun _ _ hI => hI.isWriter)
    (fun k m c' hI hk hm => hI.trans (.put hI.isWriter (by
      rw [List.length_take, List.length_drop]
      omega)))
    (fun _ c' hI hc => hI.trans (emptyBuffProc_grows hI.isWriter (hI.isWriter.wasFCloseCalled hc)))
    (.refl h)
  refine ⟨z, c', hput, ?_⟩
  rcases hend with ⟨-, hI⟩ | ⟨-, -, k, hI⟩
  · exact hI
  · exact hI

/-- `FCGX_PutChar` puts what `FCGX_PutStr` of one byte puts. -/
theorem fcgxPutChar_eq {c : Chan} (h : c.stream.IsWriter) (b : UInt8) :
    ∃ z c', fcgxPutStr [b] c = some (z, c') ∧ ∃ ok, fcgxPutChar b c = some (ok, c') := by
  have hle := h.wrNext_le
  by_cases hroom : c.stream.wrNext = c.stream.stop
  · have hslow : ¬[b].length ≤ c.stream.stop - c.stream.wrNext := by simp [hroom]
    rw [fcgxPutStr, if_neg hslow]
    by_cases hc : c.stream.isClosed = true
    · refine ⟨-1, c, run_done ?_, false, ?_⟩
      · simp [putStrBody, putStrEmpty, hroom, hc]
      · simp [fcgxPutChar, hroom, hc]
    · rw [Bool.not_eq_true] at hc
      have hpass : putStrBody [b] (0, c) = some (.again (0, emptyBuffProc c)) := by
        simp [putStrBody, putStrEmpty, hroom, hc, h.isReader]
      rw [run_again hpass]
      by_cases hroom' : (emptyBuffProc c).stream.wrNext = (emptyBuffProc c).stream.stop
      · have hclosed := (emptyBuffProc_room h (h.wasFCloseCalled hc)).resolve_right (by omega)
        refine ⟨-1, emptyBuffProc c, run_done ?_, false, ?_⟩
        · simp [putStrBody, putStrEmpty, hroom', hclosed]
        · simp [fcgxPutChar, hroom, hc, h.isReader, hroom', hclosed]
      · have hle' := (emptyBuffProc_grows h (h.wasFCloseCalled hc)).isWriter.wrNext_le
        have hone : min 1 ((emptyBuffProc c).stream.stop - (emptyBuffProc c).stream.wrNext) = 1 := by
          omega
        refine ⟨1, (emptyBuffProc c).put [b], run_done ?_, true, ?_⟩
        · simp [putStrBody, hroom', hone]
        · simp [fcgxPutChar, hroom, hc, h.isReader, hroom']
  · have hfast : [b].length ≤ c.stream.stop - c.stream.wrNext := by
      rw [List.length_singleton]
      omega
    rw [fcgxPutStr, if_pos hfast]
    exact ⟨_, _, rfl, true, by simp [fcgxPutChar, hroom]⟩

end FastCgi
