import FastCgi.App.ReaderTotal
import FastCgi.Lib.Runs

/-!
The pointers of a reader, and the mark of `FCGX_UnGetChar`.

The functions that read put the mark at `rdNext` after every fill that
leaves the stream open, and `FCGX_UnGetChar` never goes behind it. A fill
that ends the stream leaves the mark where it was, although it may have
restarted the buffer; and `SetReaderType`, which opens the stream again,
does not move the mark either. So the pointers are in order over a whole
run exactly if the mark is not ahead whenever a stream is opened again
(`pointersSound_iff`).
-/

namespace FastCgi

open ByteMem Machine

/-- The pointers of an open stream; that they are not in front of the buffer is their type. -/
structure Chan.Ordered (c : Chan) : Prop where
  stopUnget_le : c.stream.stopUnget ≤ c.stream.rdNext
  rdNext_le : c.stream.rdNext ≤ c.stream.stop
  stop_le : c.stream.stop ≤ c.stream.buffStop
  buffStop_le : c.stream.buffStop ≤ c.stream.bufflen

/-- A call on the input stream takes a channel to another one. -/
def InputSteps (c : Chan) (call : InputCall) (c' : Chan) : Prop :=
  (call.perform c).map Prod.snd = some c'

/-- What the pointers are relied on for in the run of `calls` from `start`. -/
structure PointersSound (start : Chan) (calls : List InputCall) : Prop where
  /-- They are in order wherever the stream is open. -/
  ordered : ∀ pre c, pre <+: calls → Runs InputSteps start pre c →
    c.stream.isClosed = false → c.Ordered
  /-- `FCGX_UnGetChar` does not store in front of the buffer. -/
  inside : ∀ pre b c, pre ++ [.unGetChar b] <+: calls → Runs InputSteps start pre c →
    (fcgxUnGetChar b c).1 = true → 0 < c.stream.rdNext

/-- `FCGX_StartFilterData` opens the stream again only where the mark is not ahead. -/
def MarkKept (c : Chan) (call : InputCall) : Prop :=
  call = .startFilterData → c.req.role = fcgiFilter → c.stream.isClosed = true →
    c.stream.type = fcgiStdin → c.stream.stopUnget ≤ c.stream.rdNext

instance (c : Chan) (call : InputCall) : Decidable (MarkKept c call) :=
  inferInstanceAs (Decidable (_ → _ → _ → _ → _))

/-! ### One call -/

/-- In an open stream the mark is not ahead. -/
def Chan.MarkedBehind (c : Chan) : Prop :=
  c.stream.isClosed = false → c.stream.stopUnget ≤ c.stream.rdNext

theorem markedBehind_readInvariant : ReadInvariant fillBuffProc Chan.MarkedBehind where
  takeBytes m c hc ho := Nat.le_trans (hc ho) (Nat.le_add_right _ m)
  setError c _ ho := nomatch ho
  fill c c' _ _ _ := by
    split
    · next hclosed => exact fun ho => nomatch hclosed.symm.trans ho
    · exact fun _ => Nat.le_refl _

theorem Chan.MarkedBehind.unGetChar {c : Chan} (h : c.MarkedBehind) (b : UInt8) :
    (fcgxUnGetChar b c).2.MarkedBehind := by
  rcases fcgxUnGetChar_cases b c with heq | ⟨hopen, hmark, heq⟩
  · rw [heq]
    exact h
  · rw [heq]
    intro _
    have hle := h hopen
    exact Nat.le_sub_one_of_lt (Nat.lt_of_le_of_ne hle (Ne.symm hmark))

/-- The other pointers are in order in any case. -/
theorem Chan.Serving.ordered_iff {c : Chan} (h : c.Serving) :
    (c.stream.isClosed = false → c.Ordered) ↔ c.MarkedBehind := by
  refine ⟨fun hordered ho => (hordered ho).stopUnget_le, fun hmark ho => ?_⟩
  rcases h.usable with hopen | hclosed
  · exact ⟨hmark ho, hopen.rdNext_le_stop, hopen.stop_le, hopen.buffStop_le⟩
  · rw [hclosed.isClosed] at ho
    cases ho

theorem Chan.Serving.inputSteps {c c' : Chan} {call : InputCall} (h : c.Serving)
    (hstep : InputSteps c call c') : c'.Serving := by
  obtain ⟨starts, c₁, hcall, h'⟩ := h.perform call
  rw [InputSteps, hcall] at hstep
  obtain rfl : c₁ = c' := Option.some.inj hstep
  exact h'

/-- **One call.** The mark stays behind, unless `FCGX_StartFilterData` opens a stream in which
it is ahead. -/
theorem Chan.MarkedBehind.step_iff {c c' : Chan} {call : InputCall} (hs : c.Serving)
    (h : c.MarkedBehind) (hstep : InputSteps c call c') : c'.MarkedBehind ↔ MarkKept c call := by
  cases call with
  | read call =>
      obtain ⟨⟨starts, c₁⟩, hcall, rfl⟩ := Option.map_eq_some_iff.mp hstep
      obtain ⟨⟨bs, c₂⟩, hread, heq⟩ := Option.map_eq_some_iff.mp hcall
      obtain rfl : c₂ = c₁ := congrArg Prod.snd heq
      have hmark := ReadCall.perform_invariant markedBehind_readInvariant h hread
      exact iff_of_true hmark fun hopens => by cases hopens
  | unGetChar b =>
      obtain rfl := Option.some.inj hstep
      exact iff_of_true (h.unGetChar b) fun hopens => by cases hopens
  | startFilterData =>
      obtain rfl := Option.some.inj hstep
      have hreader := hs.buffered.isReader
      show (fcgxStartFilterData c).2.MarkedBehind ↔ _
      rw [fcgxStartFilterData]
      split
      · next hfails =>
          refine iff_of_true (fun ho => by cases ho) fun _ hrole hclosed htype => ?_
          simp [hrole, hreader, hclosed, htype] at hfails
      · next hopens =>
          simp only [hreader, ne_eq, Bool.not_true, Bool.or_false, Bool.or_eq_true,
            decide_eq_true_eq, Bool.not_eq_true', not_or, not_not, Bool.not_eq_false] at hopens
          exact ⟨fun hmark _ _ _ _ => hmark rfl,
            fun hkept _ => hkept rfl hopens.1.1 hopens.1.2 hopens.2⟩

/-! ### Whole runs -/

theorem Chan.Serving.runs {c : Chan} (h : c.Serving) (calls : List InputCall) :
    ∃ c', Runs InputSteps c calls c' := by
  induction calls generalizing c with
  | nil => exact ⟨c, .nil⟩
  | cons call calls ih =>
      obtain ⟨starts, c₁, hcall, h₁⟩ := h.perform call
      obtain ⟨c', hrun⟩ := ih h₁
      refine ⟨c', .cons ?_ hrun⟩
      rw [InputSteps, hcall]
      rfl

theorem Chan.Serving.of_runs {c c' : Chan} {calls : List InputCall} (h : c.Serving)
    (hrun : Runs InputSteps c calls c') : c'.Serving :=
  hrun.invariant (I := Chan.Serving) (fun _ _ _ hs hstep => hs.inputSteps hstep) h

/-- The pointers are sound if the mark stays behind. -/
theorem Chan.Serving.pointersSound_perform {c : Chan} (h : c.Serving) (calls : List InputCall) :
    PointersSound c calls ↔
      ∀ pre c', pre <+: calls → Runs InputSteps c pre c' → c'.MarkedBehind := by
  constructor
  · intro hsound pre c' hpre hrun
    exact (h.of_runs hrun).ordered_iff.mp (hsound.ordered pre c' hpre hrun)
  · intro hmarks
    refine ⟨fun pre c' hpre hrun => ?_, fun pre b c' hpre hrun hpushed => ?_⟩
    · exact (h.of_runs hrun).ordered_iff.mpr (hmarks pre c' hpre hrun)
    · have hmark := hmarks pre c' ((List.prefix_append pre _).trans hpre) hrun
      rw [fcgxUnGetChar] at hpushed
      split at hpushed
      · cases hpushed
      · next hno =>
          simp only [Bool.or_eq_true, Bool.not_eq_true', decide_eq_true_eq, not_or,
            Bool.not_eq_true] at hno
          have hle := hmark hno.1.1
          omega

/-- **The pointers of a reader over whole runs.** On the input stream of an accepted request,
whatever the wire and the chunks, they are sound exactly if the mark is not ahead when
`FCGX_Accept_r` opens the stream for `FCGI_STDIN` (`c` is the reader at that moment) nor when
`FCGX_StartFilterData` opens it for `FCGI_DATA`. -/
theorem pointersSound_iff {lib : Bool} {pending rest : List Connection} {r r' : Request}
    {s : Stream} (h : fcgxAcceptR lib pending r = some (0, r', rest))
    (hs : r'.inStream = some s) (calls : List InputCall) :
    ∃ r₁ params c last, r.Offers pending r₁ ∧
      readRequest (openReader r₁) = some (some params, c) ∧ r' = buildRequest r₁ c params ∧
      Runs InputSteps (r'.chan s) calls last ∧
      (PointersSound (r'.chan s) calls ↔
        c.stream.stopUnget ≤ c.stream.rdNext ∧
          Runs (Guarded MarkKept InputSteps) (r'.chan s) calls last) := by
  obtain ⟨r₁, hoffers, hacc⟩ := fcgxAcceptR_ok h
  have hserving := serving_accepted hacc hs
  obtain ⟨params, c, hread, rfl⟩ := acceptConnection_ok hacc
  obtain ⟨last, hrun⟩ := hserving.runs calls
  refine ⟨r₁, params, c, last, hoffers, hread, rfl, hrun, ?_⟩
  rw [hserving.pointersSound_perform]
  -- `SetReaderType` moves neither the mark nor `rdNext`
  have hstart : ((buildRequest r₁ c params).chan s).MarkedBehind ↔
      c.stream.stopUnget ≤ c.stream.rdNext := by
    obtain rfl := Option.some.inj hs
    exact ⟨fun hmark => hmark rfl, fun hle _ => hle⟩
  have hruns (hmark : ((buildRequest r₁ c params).chan s).MarkedBehind) :
      (∀ pre c', pre <+: calls → Runs InputSteps ((buildRequest r₁ c params).chan s) pre c' →
        c'.MarkedBehind) ↔
      Runs (Guarded MarkKept InputSteps) ((buildRequest r₁ c params).chan s) calls last := by
    apply Runs.guarded_iff (I := Chan.Serving) _ _ _ hserving hmark hrun
    · exact fun _ _ _ _ hstep hstep' => Option.some.inj (hstep.symm.trans hstep')
    · exact fun _ _ _ hinv hstep => hinv.inputSteps hstep
    · exact fun _ _ _ hinv hmark hstep => hmark.step_iff hinv hstep
  constructor
  · intro hmarks
    have hmark := hmarks [] _ (List.nil_prefix) .nil
    exact ⟨hstart.mp hmark, (hruns hmark).mp hmarks⟩
  · rintro ⟨hle, hguarded⟩
    exact (hruns (hstart.mpr hle)).mpr hguarded

/-- The input is pushed back to the mark, and read again. -/
theorem pointersSound_iff_two :
    ∃ r' s, fcgxAcceptR true [.ok (.sending filterWire [4, 9] [])] idleRequest = some (0, r', []) ∧
      r'.inStream = some s ∧
      ∃ r₁ params c last,
        idleRequest.Offers [.ok (.sending filterWire [4, 9] [])] r₁ ∧
        readRequest (openReader r₁) = some (some params, c) ∧ r' = buildRequest r₁ c params ∧
        Runs InputSteps (r'.chan s)
          [.read (.getStr 2), .unGetChar 67, .read (.getStr 9), .startFilterData] last ∧
        (PointersSound (r'.chan s)
            [.read (.getStr 2), .unGetChar 67, .read (.getStr 9), .startFilterData] ↔
          c.stream.stopUnget ≤ c.stream.rdNext ∧
            Runs (Guarded MarkKept InputSteps) (r'.chan s)
              [.read (.getStr 2), .unGetChar 67, .read (.getStr 9), .startFilterData] last) := by
  have hrun : (fcgxAcceptR true [.ok (.sending filterWire [4, 9] [])] idleRequest).map
      (fun x => (x.1, x.2.1.inStream.isSome, x.2.2.length)) = some (0, true, 0) := by
    decide +kernel
  obtain ⟨⟨rc, r', rest⟩, hacc, hval⟩ := Option.map_eq_some_iff.mp hrun
  simp only [Prod.mk.injEq, List.length_eq_zero_iff] at hval
  obtain ⟨rfl, hin, rfl⟩ := hval
  obtain ⟨s, hs⟩ := Option.isSome_iff_exists.mp hin
  exact ⟨r', s, hacc, hs, pointersSound_iff hacc hs _⟩

/-- A request with one parameter. -/
def parameterWire : List UInt8 :=
  encodeAll
    [shortRecord fcgiBeginRequest 1 [0, 1, 0, 0, 0, 0, 0, 0] beginBody_le,
      shortRecord fcgiParams 1 [1, 0, 65] (by decide), shortRecord fcgiParams 1 [] nil_content_le,
      shortRecord fcgiStdin 1 [] nil_content_le]

/-- **The mark stays behind in the old buffer.** The parameter ends the first chunk, and the
second chunk is the record that ends `FCGI_PARAMS`: the stream is opened for `FCGI_STDIN` with
the mark 16 bytes ahead of `rdNext`, and the ninth `FCGX_UnGetChar` stores in front of the
buffer. -/
theorem unGetChar_outside :
    ∃ r' s, fcgxAcceptR true [.ok (.sending parameterWire [26, 7] [])] idleRequest =
        some (0, r', []) ∧
      r'.inStream = some s ∧ s.isClosed = false ∧ s.rdNext = 8 ∧ s.stopUnget = 24 ∧
      ¬PointersSound (r'.chan s) [] ∧
      ∃ c, Runs InputSteps (r'.chan s) (List.replicate 8 (.unGetChar 0)) c ∧
        c.stream.rdNext = 0 ∧ (fcgxUnGetChar 0 c).1 = true := by
  have hrun : ((fcgxAcceptR true [.ok (.sending parameterWire [26, 7] [])] idleRequest).bind
      fun x => x.2.1.inStream.bind fun s =>
        (exec (fun c (call : InputCall) => (call.perform c).map Prod.snd) (x.2.1.chan s)
          (List.replicate 8 (.unGetChar 0))).map fun c =>
            ((x.1, x.2.2.length), (s.isClosed, s.rdNext, s.stopUnget), c.stream.rdNext,
              (fcgxUnGetChar 0 c).1)) =
      some ((0, 0), (false, 8, 24), 0, true) := by
    decide +kernel
  obtain ⟨⟨rc, r', rest⟩, hacc, hval⟩ := Option.bind_eq_some_iff.mp hrun
  obtain ⟨s, hs, hval⟩ := Option.bind_eq_some_iff.mp hval
  obtain ⟨c, hexec, hval⟩ := Option.map_eq_some_iff.mp hval
  simp only [Prod.mk.injEq, List.length_eq_zero_iff] at hval
  obtain ⟨⟨rfl, rfl⟩, ⟨hopen, hnext, hmark⟩, hzero, hpushed⟩ := hval
  refine ⟨r', s, hacc, hs, hopen, hnext, hmark, fun hsound => ?_, c, ?_, hzero, hpushed⟩
  · have hordered := hsound.ordered [] _ (List.nil_prefix) .nil hopen
    have hle : s.stopUnget ≤ s.rdNext := hordered.stopUnget_le
    omega
  · exact .of_exec (fun _ _ _ h => h) hexec

end FastCgi
