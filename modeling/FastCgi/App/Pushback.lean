import FastCgi.App.ByteCalls
import FastCgi.App.ReadFootprint
import FastCgi.App.UngetMark

/-!
The character of pushback that `FCGX_UnGetChar` guarantees.

The mark may be stale where a stream was opened again, but it never lies in
the unread bytes above `rdNext` (`Chan.MarkApart`), so after a byte has
been consumed it is not at `rdNext`, and the byte can be pushed back. What
is pushed back goes to a cell behind everything that is still to be read,
so once it has been read again the two streams differ in that cell only.
-/

namespace FastCgi

open ByteMem BoundedLoop Machine

/-! ### The calls -/

/-- What a call returns: the bytes it stores, and its value. -/
def InputCall.answer : InputCall → Chan → Option ((List UInt8 × ℤ) × Chan)
  | .read call, c => (call.perform c).map fun x => ((x.1, x.1.length), x.2)
  | .unGetChar b, c =>
      some (([], if (fcgxUnGetChar b c).1 then (b.toNat : ℤ) else -1), (fcgxUnGetChar b c).2)
  | .startFilterData, c => some (([], (fcgxStartFilterData c).1), (fcgxStartFilterData c).2)

/-- What the calls of a sequence return. -/
def answers : List InputCall → Chan → Option (List (List UInt8 × ℤ))
  | [], _ => some []
  | call :: calls, c => (call.answer c).bind fun x => (answers calls x.2).map (x.1 :: ·)

/-- `FCGX_UnGetChar` does not store below the start of the buffer. -/
def PushesInside (c : Chan) (call : InputCall) : Prop :=
  ∀ b, call = .unGetChar b → (fcgxUnGetChar b c).1 = true → 0 < c.stream.rdNext

/-! ### Where the mark is -/

/-- In an open stream the mark is not in the unread bytes above `rdNext`. -/
def Chan.MarkApart (c : Chan) : Prop :=
  c.stream.isClosed = false → c.stream.rdNext < c.stream.stopUnget →
    c.stream.stop < c.stream.stopUnget

theorem markApart_readInvariant : ReadInvariant fillBuffProc Chan.MarkApart where
  takeBytes m c hc ho hlt := hc ho (Nat.lt_of_le_of_lt (Nat.le_add_right _ m) hlt)
  setError c _ ho := by cases ho
  fill c c' _ _ _ := by
    split
    · next hclosed =>
        intro ho
        rw [hclosed] at ho
        cases ho
    · intro _ hlt
      exact absurd hlt (Nat.lt_irrefl _)

theorem Chan.MarkApart.unGetChar {c : Chan} (h : c.MarkApart) (b : UInt8) :
    (fcgxUnGetChar b c).2.MarkApart := by
  rcases fcgxUnGetChar_cases b c with heq | ⟨hopen, hmark, heq⟩
  · rw [heq]
    exact h
  · rw [heq]
    intro _ (hlt : c.stream.rdNext - 1 < c.stream.stopUnget)
    -- the mark is not at `rdNext`, so it is ahead of `rdNext` too
    exact h hopen (by omega)

theorem Chan.MarkApart.step {c c' : Chan} {call : InputCall} (h : c.MarkApart)
    (hstep : InputSteps c call c') : c'.MarkApart := by
  cases call with
  | read call =>
      obtain ⟨⟨starts, c₁⟩, hcall, rfl⟩ := Option.map_eq_some_iff.mp hstep
      obtain ⟨⟨bs, c₂⟩, hread, heq⟩ := Option.map_eq_some_iff.mp hcall
      obtain rfl : c₂ = c₁ := congrArg Prod.snd heq
      exact ReadCall.perform_invariant markApart_readInvariant h hread
  | unGetChar b =>
      obtain rfl := Option.some.inj hstep
      exact h.unGetChar b
  | startFilterData =>
      obtain rfl := Option.some.inj hstep
      show (fcgxStartFilterData c).2.MarkApart
      rw [fcgxStartFilterData]
      split
      · intro ho
        cases ho
      · intro _ hlt
        exact hlt

/-- A stream of which a byte has just been consumed. -/
structure Chan.Consumed (c : Chan) : Prop where
  readable : c.Readable
  rdNext_pos : 0 < c.stream.rdNext
  mark : c.stream.rdNext ≠ c.stream.stopUnget

theorem consumed_takeByte {c : Chan} (hr : c.Readable) (hlt : c.stream.rdNext < c.stream.stop)
    (hmark : c.stream.rdNext + 1 ≠ c.stream.stopUnget) : (takeByte c).2.Consumed := by
  obtain ⟨-, ho, -⟩ := takeBytes_spec hr.toOpen (m := 1) (by omega)
  exact ⟨⟨ho, hr.eorStop, hr.skip⟩, Nat.succ_pos _, hmark⟩

theorem consumed_getChar {c d : Chan} {b : UInt8} (hu : c.Usable) (h : c.MarkApart)
    (hget : fcgxGetChar fillBuffProc c = some (some b, d)) : d.Consumed := by
  generalize hx : some b = x at hget
  cases getsChar_fcgxGetChar hget with
  | refused => cases hx
  | buffered hopen hne =>
      have hr := hu.readable hopen
      have hle := hr.rdNext_le_stop
      refine consumed_takeByte hr (by omega) fun heq => ?_
      have hahead := h hopen (by omega)
      omega
  | ended => cases hx
  | @filled c₁ hopen hempty hfill hopen₁ _ =>
      -- the mark has just been set at `rdNext`
      obtain ⟨hu₁, hlt⟩ := feeds_fillBuffProc.fill c c₁ hu hopen hempty hfill hopen₁
      exact consumed_takeByte (hu₁.readable hopen₁) hlt (Nat.succ_ne_self _)

/-- EOF is returned of a closed stream only. -/
theorem isClosed_of_getChar {c d : Chan} (hu : c.Usable)
    (hget : fcgxGetChar fillBuffProc c = some (none, d)) : d.stream.isClosed = true := by
  have hreader := hu.buffered.isReader
  generalize hx : (none : Option UInt8) = x at hget
  cases getsChar_fcgxGetChar hget with
  | refused hguard => simpa [hreader] using hguard
  | buffered => cases hx
  | ended _ _ _ hclosed => exact hclosed
  | filled => cases hx

/-- The last of the bytes that were got is consumed where the stream is still open. -/
theorem consumed_getChars {n : ℕ} {c d : Chan} {bs : List UInt8} (hu : c.Usable)
    (h : c.MarkApart) (hget : getChars fillBuffProc n c = some (bs, d)) (hbs : bs ≠ [])
    (hopen : d.stream.isClosed = false) : d.Consumed := by
  induction n generalizing c bs with
  | zero =>
      cases hget
      exact absurd rfl hbs
  | succ n ih =>
      rw [getChars] at hget
      split at hget
      · cases hget
      · cases hget
        exact absurd rfl hbs
      · next b c₁ hchar =>
          obtain ⟨⟨bs', d'⟩, hrest, heq⟩ := Option.map_eq_some_iff.mp hget
          obtain ⟨rfl, rfl⟩ := Prod.ext_iff.mp heq
          have hu₁ : c₁.Usable := by
            have hcall : StreamCall.perform (.read .getChar) c = some c₁ := by
              simp [StreamCall.perform, ReadCall.perform, hchar]
            exact hu.streamCall hcall
          have h₁ : c₁.MarkApart := markApart_readInvariant.getChar h hchar
          by_cases hnil : bs' = []
          · -- no call follows this one, or the next one closes the stream
            cases n with
            | zero =>
                cases hrest
                exact consumed_getChar hu h hchar
            | succ n =>
                rw [getChars] at hrest
                split at hrest
                · cases hrest
                · next hend =>
                    cases hrest
                    rw [isClosed_of_getChar hu₁ hend] at hopen
                    cases hopen
                · obtain ⟨x, -, heq'⟩ := Option.map_eq_some_iff.mp hrest
                  rw [hnil] at heq'
                  cases heq'
          · exact ih hu₁ h₁ hrest hnil

theorem ReadCall.perform_consumed {call : ReadCall} {c d : Chan} {bs : List UInt8} (hu : c.Usable)
    (h : c.MarkApart) (hcall : call.perform c = some (bs, d)) (hbs : bs ≠ [])
    (hopen : ∀ n, call = .getStr n → d.stream.isClosed = false) : d.Consumed := by
  cases call with
  | getChar =>
      obtain ⟨⟨x, d'⟩, hget, heq⟩ := Option.map_eq_some_iff.mp hcall
      obtain ⟨rfl, rfl⟩ := Prod.ext_iff.mp heq
      cases x with
      | none => exact absurd rfl hbs
      | some b => exact consumed_getChar hu h hget
  | getStr n =>
      rcases Int.le_total n 0 with hn | hn
      · rw [ReadCall.perform, fcgxGetStr, if_pos (by simp [hn])] at hcall
        cases hcall
        exact absurd rfl hbs
      · obtain ⟨k, rfl⟩ := Int.eq_ofNat_of_zero_le hn
        have hget := (fcgxGetStr_eq_getChars feeds_fillBuffProc hu k).symm.trans hcall
        exact consumed_getChars hu h hget hbs (hopen _ rfl)

/-! ### Calls on two streams that differ behind `rdNext` -/

theorem Chan.Serving.readsAlike {c c' : Chan} (h : c.Serving) (hsame : c.SameAhead c') :
    c.ReadsAlike c' := by
  refine ⟨⟨hsame, h.buffered.rdNext_le⟩, fun hopen => ?_⟩
  have hr := h.toUsable.readable hopen
  exact ⟨hr.rdNext_le_stop, hr.stop_le⟩

theorem Chan.SameAhead.unGetChar {c c' : Chan} (h : c.SameAhead c') (b : UInt8) :
    (fcgxUnGetChar b c').1 = (fcgxUnGetChar b c).1 ∧
      (fcgxUnGetChar b c).2.SameAhead (fcgxUnGetChar b c').2 := by
  have hsame := h
  obtain ⟨buff, rfl, hcells⟩ := h
  by_cases hguard : (c.stream.isClosed || !c.stream.isReader ||
      decide (c.stream.rdNext = c.stream.stopUnget)) = true
  · rw [fcgxUnGetChar, fcgxUnGetChar]
    rw [if_pos hguard, if_pos (by exact hguard)]
    exact ⟨rfl, hsame⟩
  · rw [fcgxUnGetChar, fcgxUnGetChar]
    rw [if_neg hguard, if_neg (by exact hguard)]
    refine ⟨rfl, store buff (c.stream.rdNext - 1) [b], rfl, ?_⟩
    intro k (hk : c.stream.rdNext - 1 ≤ k) (hlt : k < c.stream.buffStop)
    show store buff (c.stream.rdNext - 1) [b] k = store c.stream.buff (c.stream.rdNext - 1) [b] k
    rcases Nat.eq_or_lt_of_le hk with rfl | hafter
    · simp [store]
    · have hbehind : c.stream.rdNext - 1 + [b].length ≤ k := hafter
      rw [store_of_ge hbehind, store_of_ge hbehind]
      exact hcells k (by omega) hlt

theorem Chan.SameAhead.startFilterData {c c' : Chan} (h : c.SameAhead c') :
    (fcgxStartFilterData c').1 = (fcgxStartFilterData c).1 ∧
      (fcgxStartFilterData c).2.SameAhead (fcgxStartFilterData c').2 := by
  have hsame := h
  obtain ⟨buff, rfl, hcells⟩ := h
  rw [fcgxStartFilterData, fcgxStartFilterData]
  split
  · next hfails =>
      rw [if_pos (by exact hfails)]
      exact ⟨rfl, hsame.setError _⟩
  · next hopens =>
      rw [if_neg (by exact hopens)]
      exact ⟨rfl, buff, rfl, hcells⟩

/-- One call. -/
theorem InputCall.answer_alike (call : InputCall) {c c' : Chan} (h : c.Serving)
    (hsame : c.SameAhead c') :
    ∃ x d d', call.answer c = some (x, d) ∧ call.answer c' = some (x, d') ∧ d.Serving ∧
      d.SameAhead d' := by
  cases call with
  | read call =>
      obtain ⟨bs, d, hcall, hd⟩ := h.read call
      have halike := h.readsAlike hsame
      obtain ⟨d', hcall', hrel⟩ : ∃ d', call.perform c' = some (bs, d') ∧ d.ReadsAlike d' := by
        cases call with
        | getChar =>
            obtain ⟨⟨x, d₁⟩, hget, heq⟩ := Option.map_eq_some_iff.mp hcall
            obtain ⟨rfl, rfl⟩ := Prod.ext_iff.mp heq
            obtain ⟨d', hget', hrel⟩ := keepsAlike_fillBuffProc.readsSame.getChar halike hget
            exact ⟨d', by rw [ReadCall.perform, hget']; rfl, hrel⟩
        | getStr n => exact keepsAlike_fillBuffProc.readsSame.getStr halike hcall
      refine ⟨(bs, bs.length), d, d', ?_, ?_, hd, hrel.same⟩
      · rw [InputCall.answer, hcall]
        rfl
      · rw [InputCall.answer, hcall']
        rfl
  | unGetChar b =>
      obtain ⟨hok, hrest⟩ := hsame.unGetChar b
      refine ⟨_, _, _, rfl, ?_, h.unGetChar b, hrest⟩
      rw [InputCall.answer, hok]
  | startFilterData =>
      obtain ⟨hrc, hrest⟩ := hsame.startFilterData
      refine ⟨_, _, _, rfl, ?_, h.startFilterData, hrest⟩
      rw [InputCall.answer, hrc]

/-- Any calls. -/
theorem answers_alike {c c' : Chan} (h : c.Serving) (hsame : c.SameAhead c')
    (calls : List InputCall) : ∃ xs, answers calls c = some xs ∧ answers calls c' = some xs := by
  induction calls generalizing c c' with
  | nil => exact ⟨[], rfl, rfl⟩
  | cons call calls ih =>
      obtain ⟨x, d, d', hcall, hcall', hd, hrel⟩ := call.answer_alike h hsame
      obtain ⟨xs, hxs, hxs'⟩ := ih hd hrel
      refine ⟨x :: xs, ?_, ?_⟩
      · rw [answers, hcall]
        simp [hxs]
      · rw [answers, hcall']
        simp [hxs']

/-! ### The guarantee -/

/-- A byte pushed back is read again, and then the streams are the same ahead. -/
theorem Chan.Consumed.pushback {c : Chan} (h : c.Consumed) (b : UInt8) :
    fcgxUnGetChar b c = (true, c.pushed b) ∧
      ∃ d, fcgxGetChar fillBuffProc (c.pushed b) = some (some b, d) ∧ c.SameAhead d := by
  have hpos := h.rdNext_pos
  have hle := h.readable.rdNext_le_stop
  have hpush : fcgxUnGetChar b c = (true, c.pushed b) := by
    rw [fcgxUnGetChar]
    rw [if_neg (by simp [h.readable.isClosed, h.readable.isReader, h.mark])]
    rfl
  refine ⟨hpush, (takeBytes 1 (c.pushed b)).2, ?_, ?_⟩
  · have hopen : (c.pushed b).stream.isClosed = false := h.readable.isClosed
    have hreader : (c.pushed b).stream.isReader = true := h.readable.isReader
    have hne : (c.pushed b).stream.rdNext ≠ (c.pushed b).stream.stop := by
      show c.stream.rdNext - 1 ≠ c.stream.stop
      omega
    rw [fcgxGetChar, if_neg (by simp [hopen, hreader]), if_pos hne, takeByte_eq]
    simp [Chan.pushed, store]
  · refine ⟨store c.stream.buff (c.stream.rdNext - 1) [b], ?_, fun k hk _ => ?_⟩
    · have hnext : c.stream.rdNext - 1 + 1 = c.stream.rdNext := by omega
      simp only [takeBytes, Chan.pushed, Chan.withBuff, hnext]
    · exact store_of_ge (by
        rw [List.length_singleton]
        omega)

/-- **One character of pushback.** After any calls on the input stream of an accepted request,
none of which stored below the start of the buffer: a byte that `FCGX_GetChar` has returned,
or the last one that `FCGX_GetStr` has stored without coming to the end of the stream, can be
replaced by `FCGX_UnGetChar`; it is read next, and then nothing is to be noticed of it. -/
theorem unGetChar_available {lib : Bool} {pending rest : List Connection} {r r' : Request}
    {s : Stream} {calls : List InputCall} {c d : Chan} {call : ReadCall} {bs : List UInt8}
    (h : fcgxAcceptR lib pending r = some (0, r', rest)) (hs : r'.inStream = some s)
    (hrun : Runs (Guarded PushesInside InputSteps) (r'.chan s) calls c)
    (hcall : call.perform c = some (bs, d)) (hbs : bs ≠ [])
    (hopen : ∀ n, call = .getStr n → d.stream.isClosed = false) (b : UInt8) :
    ∃ d₁ d₂, fcgxUnGetChar b d = (true, d₁) ∧ fcgxGetChar fillBuffProc d₁ = some (some b, d₂) ∧
      ∀ later, ∃ xs, answers later d = some xs ∧ answers later d₂ = some xs := by
  obtain ⟨r₁, -, hacc⟩ := fcgxAcceptR_ok h
  have hstart := serving_accepted hacc hs
  have hmark : (r'.chan s).MarkApart := by
    obtain ⟨params, c₀, -, rfl⟩ := acceptConnection_ok hacc
    obtain rfl := Option.some.inj hs
    -- `SetReaderType` leaves nothing unread below `stop`
    intro _ hlt
    exact hlt
  have hsteps : Runs InputSteps (r'.chan s) calls c := hrun.mono fun _ _ _ hstep => hstep.2
  have hserving := hstart.of_runs hsteps
  have hapart : c.MarkApart :=
    hsteps.invariant (I := Chan.MarkApart) (fun _ _ _ hc hstep => hc.step hstep) hmark
  have hconsumed := call.perform_consumed hserving.toUsable hapart hcall hbs hopen
  obtain ⟨hpush, d₂, hget, hsame⟩ := hconsumed.pushback b
  obtain ⟨xs, d', hcall', hd⟩ := hserving.read call
  rw [hcall] at hcall'
  cases hcall'
  exact ⟨d.pushed b, d₂, hpush, hget, fun later => answers_alike hd hsame later⟩

/-- The byte that was pushed back first is read, and replaced by another one. -/
theorem unGetChar_available_two :
    ∃ r' s c d,
      fcgxAcceptR true [.ok (.sending filterWire [4, 9] [])] idleRequest = some (0, r', []) ∧
      r'.inStream = some s ∧
      Runs (Guarded PushesInside InputSteps) (r'.chan s) [.read (.getStr 1), .unGetChar 67] c ∧
      ReadCall.perform .getChar c = some ([67], d) ∧
      ∃ d₁ d₂, fcgxUnGetChar 68 d = (true, d₁) ∧
        fcgxGetChar fillBuffProc d₁ = some (some 68, d₂) ∧
        ∀ later, ∃ xs, answers later d = some xs ∧ answers later d₂ = some xs := by
  have hends : ((fcgxAcceptR true [.ok (.sending filterWire [4, 9] [])] idleRequest).bind
      fun x => x.2.1.inStream.bind fun s =>
        (ReadCall.perform (.getStr 1) (x.2.1.chan s)).bind fun y =>
          (ReadCall.perform .getChar (fcgxUnGetChar 67 y.2).2).map fun z =>
            ((x.1, x.2.2.length), y.2.stream.rdNext, z.1)) =
      some ((0, 0), 18, [67]) := by
    decide +kernel
  obtain ⟨⟨rc, r', rest⟩, hacc, hval⟩ := Option.bind_eq_some_iff.mp hends
  obtain ⟨s, hs, hval⟩ := Option.bind_eq_some_iff.mp hval
  obtain ⟨⟨bs, c₀⟩, hfirst, hval⟩ := Option.bind_eq_some_iff.mp hval
  obtain ⟨⟨bs', d⟩, hsecond, hval⟩ := Option.map_eq_some_iff.mp hval
  simp only [Prod.mk.injEq, List.length_eq_zero_iff] at hval
  obtain ⟨⟨rfl, rfl⟩, hnext, rfl⟩ := hval
  have hread : InputSteps (r'.chan s) (.read (.getStr 1)) c₀ := by
    rw [InputSteps, InputCall.perform, hfirst]
    rfl
  have hrun : Runs (Guarded PushesInside InputSteps) (r'.chan s)
      [.read (.getStr 1), .unGetChar 67] (fcgxUnGetChar 67 c₀).2 := by
    refine .cons ⟨fun b hcall => ?_, hread⟩ (.single ⟨fun b _ _ => ?_, rfl⟩)
    · cases hcall
    · show 0 < c₀.stream.rdNext
      omega
  refine ⟨r', s, _, d, hacc, hs, hrun, hsecond, ?_⟩
  exact unGetChar_available hacc hs hrun hsecond (List.cons_ne_nil _ _)
    (fun n hcall => by cases hcall) 68

end FastCgi
