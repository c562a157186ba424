import FastCgi.App.QueryReads

/-!
What reading does not look at.

`Chan.alter` puts other request data behind a stream, in a process whose
memory holds something else. The functions that read do not look at either,
so they do with the altered channel what they do with the channel, and the
result is altered in the same way: each lemma moves `alter` from the
argument of a function to its result. A fill under `eorStop` reads a record
to its end and is one of these functions; any other fill interprets headers,
which is where the request data matter.
-/

namespace FastCgi

open ByteMem BoundedLoop

/-- The channel with other request data, where memory holds something else. -/
abbrev Chan.alter (f : ReqData → ReqData) (p : (ℕ → UInt8) → ℕ → UInt8) (c : Chan) : Chan :=
  { c with req := f c.req, os := { c.os with stale := p c.os.stale } }

/-- The same in the result of a function. -/
abbrev alterSnd {α : Type} (f : ReqData → ReqData) (p : (ℕ → UInt8) → ℕ → UInt8) (x : α × Chan) :
    α × Chan :=
  (x.1, x.2.alter f p)

variable {f : ReqData → ReqData} {p : (ℕ → UInt8) → ℕ → UInt8}

/-- A fill procedure that does not look at what is altered, where `I` holds. -/
structure Ignores (f : ReqData → ReqData) (p : (ℕ → UInt8) → ℕ → UInt8)
    (fillProc : Chan → Option Chan) (I : Chan → Prop) : Prop extends ReadInvariant fillProc I where
  fill_alter : ∀ c, I c → fillProc (c.alter f p) = (fillProc c).map (Chan.alter f p)

namespace Ignores

variable {fill : Chan → Option Chan} {I : Chan → Prop} {c : Chan}

theorem getChar (h : Ignores f p fill I) (hc : I c) :
    fcgxGetChar fill (c.alter f p) = (fcgxGetChar fill c).map (alterSnd f p) := by
  simp only [fcgxGetChar, h.fill_alter c hc]
  split
  · rfl
  · split
    · rfl
    · cases fill c with
      | none => rfl
      | some d =>
          simp only [Option.map_some]
          split
          · rfl
          · split <;> rfl

theorem getStrFill (h : Ignores f p fill I) {y : List UInt8 × Chan} (hy : I y.2) :
    getStrFill fill (alterSnd f p y) =
      (getStrFill fill y).map (Pass.bimap (alterSnd f p) (alterSnd f p)) := by
  simp only [FastCgi.getStrFill, h.fill_alter y.2 hy]
  split
  · rfl
  · cases fill y.2 with
    | none => rfl
    | some d =>
        simp only [Option.map_some]
        split <;> rfl

theorem getStrBody (h : Ignores f p fill I) (n : ℕ) {x : List UInt8 × Chan} (hx : I x.2) :
    getStrBody fill n (alterSnd f p x) =
      (getStrBody fill n x).map (Pass.bimap (alterSnd f p) (alterSnd f p)) := by
  obtain ⟨m, hm⟩ : ∃ m, min (n - x.1.length) (x.2.stream.stop - x.2.stream.rdNext) = m := ⟨_, rfl⟩
  have htaken := h.takeBytes m x.2 hx
  rw [FastCgi.getStrBody, FastCgi.getStrBody]
  dsimp only
  rw [hm]
  by_cases hempty : x.2.stream.rdNext = x.2.stream.stop
  · rw [if_pos hempty, if_pos hempty]
    exact h.getStrFill hx
  · rw [if_neg hempty, if_neg hempty]
    by_cases hall : (x.1 ++ (FastCgi.takeBytes m x.2).1).length = n
    · rw [if_pos (by exact hall), if_pos hall]
      rfl
    · rw [if_neg (by exact hall), if_neg hall]
      exact h.getStrFill (y := (x.1 ++ _, (FastCgi.takeBytes m x.2).2)) htaken

theorem getStr (h : Ignores f p fill I) (hc : I c) (n : ℤ) :
    fcgxGetStr fill n (c.alter f p) = (fcgxGetStr fill n c).map (alterSnd f p) := by
  simp only [fcgxGetStr]
  split
  · rfl
  · split
    · rfl
    · have hstart : I (([], c) : List UInt8 × Chan).2 := hc
      exact run_bimap (I := fun x => I x.2) (alterSnd f p) (alterSnd f p)
        (fun _ hx => h.getStrBody n.toNat hx)
        (fun _ x' hx hpass => show I x'.2 from h.toReadInvariant.getStrBody hx hpass) hstart

theorem readLength (h : Ignores f p fill I) (hc : I c) (b : UInt8) :
    readLength fill b (c.alter f p) = (readLength fill b c).map (alterSnd f p) := by
  simp only [FastCgi.readLength, h.getStr hc]
  split
  · rcases fcgxGetStr fill 3 c with _ | ⟨_ | ⟨b₂, _ | ⟨b₁, _ | ⟨b₀, _ | ⟨b', bs⟩⟩⟩⟩, d⟩
    case isTrue.some.cons.cons.cons.nil =>
      simp only [Option.map_some]
      split <;> rfl
    all_goals rfl
  · rfl

theorem readNameValue (h : Ignores f p fill I) (hc : I c) (nameLen valueLen : ℕ) :
    readNameValue fill nameLen valueLen (c.alter f p) =
      (readNameValue fill nameLen valueLen c).map (alterSnd f p) := by
  simp only [FastCgi.readNameValue, h.getStr hc]
  split
  · rfl
  · cases hname : fcgxGetStr fill nameLen c with
    | none => rfl
    | some x =>
        have hx := h.toReadInvariant.getStr hc hname
        simp only [Option.map_some, h.getStr hx]
        split
        · rfl
        · cases fcgxGetStr fill valueLen x.2 with
          | none => rfl
          | some y =>
              simp only [Option.map_some]
              split <;> rfl

theorem readPair (h : Ignores f p fill I) (hc : I c) (b : UInt8) :
    readPair fill b (c.alter f p) = (readPair fill b c).map (alterSnd f p) := by
  simp only [FastCgi.readPair, h.readLength hc]
  cases hname : FastCgi.readLength fill b c with
  | none => rfl
  | some x =>
      obtain ⟨_ | nameLen, c₁⟩ := x
      · rfl
      · have hc₁ := h.toReadInvariant.readLength hc hname
        simp only [Option.map_some, h.getChar hc₁]
        cases hget : fcgxGetChar fill c₁ with
        | none => rfl
        | some y =>
            obtain ⟨_ | b', c₂⟩ := y
            · rfl
            · have hc₂ := h.toReadInvariant.getChar hc₁ hget
              simp only [Option.map_some, h.readLength hc₂]
              cases hvalue : FastCgi.readLength fill b' c₂ with
              | none => rfl
              | some z =>
                  obtain ⟨_ | valueLen, c₃⟩ := z
                  · rfl
                  · exact h.readNameValue (h.toReadInvariant.readLength hc₂ hvalue) _ _

theorem readParamsBody (h : Ignores f p fill I) {x : Params × Chan} (hx : I x.2) :
    readParamsBody fill (alterSnd f p x) =
      (readParamsBody fill x).map
        (Pass.bimap (alterSnd f p) fun y => (y.1, y.2.1, y.2.2.alter f p)) := by
  simp only [FastCgi.readParamsBody, h.getChar hx]
  cases hget : fcgxGetChar fill x.2 with
  | none => rfl
  | some y =>
      obtain ⟨_ | b, c₁⟩ := y
      · rfl
      · have hc₁ := h.toReadInvariant.getChar hx hget
        simp only [Option.map_some, h.readPair hc₁]
        rcases FastCgi.readPair fill b c₁ with _ | ⟨_ | pair, c₂⟩ <;> rfl

theorem readParams (h : Ignores f p fill I) (hc : I c) (params : Params) :
    readParams fill params (c.alter f p) =
      (readParams fill params c).map fun y => (y.1, y.2.1, y.2.2.alter f p) := by
  have hstart : I (params, c).2 := hc
  exact run_bimap (I := fun x => I x.2) (alterSnd f p) _ (fun _ hx => h.readParamsBody hx)
    (fun _ x' hx hpass => show I x'.2 from h.toReadInvariant.readParamsBody hx hpass) hstart

end Ignores

/-! ### Filling the buffer -/

/-- A stage with what it ends with changed. -/
def Stage.map (g : Chan → Chan) : Stage → Stage
  | .leave c => .leave (g c)
  | .loop c => .loop (g c)
  | .next c => .next (g c)

theorem Stage.map_bind {g : Chan → Chan} {k : Chan → Stage} (hk : ∀ c, k (g c) = (k c).map g)
    (s : Stage) : (s.map g).bind k = (s.bind k).map g := by
  cases s with
  | leave c | loop c => rfl
  | next c => exact hk c

theorem osRead_stale (os : Os) (stale : ℕ → UInt8) (len : ℕ) :
    osRead { os with stale := stale } len =
      ((osRead os len).1, { (osRead os len).2 with stale := stale }) := by
  unfold osRead
  dsimp only
  split <;> rfl

theorem osRead_keeps_stale (os : Os) (len : ℕ) : (osRead os len).2.stale = os.stale := by
  unfold osRead
  split <;> rfl

theorem refill_alter (c : Chan) : refill (c.alter f p) = (refill c).map (Chan.alter f p) := by
  simp only [refill, osRead_stale]
  have hstale := osRead_keeps_stale c.os c.stream.bufflen
  split
  · rw [← hstale]
    rcases osRead c.os c.stream.bufflen with ⟨e | chunk, os⟩
    · rfl
    · dsimp only
      split <;> rfl
  · rfl

theorem passContent_alter (c : Chan) :
    passContent (c.alter f p) = (passContent c).map (Chan.alter f p) := by
  simp only [passContent]
  split
  · split
    · rfl
    · split <;> rfl
  · rfl

theorem passPadding_alter (c : Chan) :
    passPadding (c.alter f p) = (passPadding c).map (Chan.alter f p) := by
  simp only [passPadding]
  split
  · split <;> rfl
  · rfl

theorem checkEor_alter (c : Chan) : checkEor (c.alter f p) = (checkEor c).map (Chan.alter f p) := by
  simp only [checkEor]
  split <;> rfl

theorem beforeHeader_alter (c : Chan) :
    beforeHeader (c.alter f p) = (beforeHeader c).map (Chan.alter f p) := by
  rw [beforeHeader, refill_alter, Stage.map_bind passContent_alter,
    Stage.map_bind passPadding_alter, Stage.map_bind checkEor_alter]
  rfl

/-! ### Inside a record -/

/-- Under `eorStop` the loop ends before a header. -/
theorem beforeHeader_eor {c : Chan} (h : c.stream.eorStop = true) :
    (beforeHeader c).Ends (fun c => c.stream.eorStop = true) (fun _ => False)
      (fun c => c.stream.eorStop = true) := by
  let Eor : Chan → Prop := fun c => c.stream.eorStop = true
  have hrefill : (refill c).Ends Eor Eor Eor := by
    rw [refill]
    split
    · split
      · exact h
      · split <;> exact h
    · exact h
  have hcontent : ∀ c, Eor c → (passContent c).Ends Eor Eor Eor := by
    intro c hc
    simp only [passContent]
    split
    · split
      · exact hc
      · split <;> exact hc
    · exact hc
  have hpadding : ∀ c, Eor c → (passPadding c).Ends Eor Eor Eor := by
    intro c hc
    simp only [passPadding]
    split
    · split <;> exact hc
    · exact hc
  have heor : ∀ c, Eor c → (checkEor c).Ends Eor (fun _ => False) Eor := by
    intro c hc
    rw [checkEor, if_pos hc]
    exact hc
  exact ((hrefill.bind hcontent).bind hpadding).bind heor

theorem fill_eor {d : ℕ} {c c' : Chan} (h : c.stream.eorStop = true)
    (hfill : fillBuffProcAt d c = some c') : c'.stream.eorStop = true := by
  cases d with
  | zero => cases hfill
  | succ d => exact fill_rule (I := fun c => c.stream.eorStop = true) (fun _ => beforeHeader_eor) h hfill

theorem fillBuffProcBody_alter {fill : Chan → Option Chan} {x : List UInt8 × Chan}
    (h : x.2.stream.eorStop = true) :
    fillBuffProcBody fill (alterSnd f p x) =
      (fillBuffProcBody fill x).map (Pass.bimap (alterSnd f p) (Chan.alter f p)) := by
  have hends := beforeHeader_eor h
  rw [fillBuffProcBody_eq, fillBuffProcBody_eq, beforeHeader_alter]
  cases hstage : beforeHeader x.2 with
  | leave c | loop c => rfl
  | next c =>
      rw [hstage] at hends
      exact hends.elim

/-- **Reading inside a record** looks at neither. -/
theorem ignores_eor (d : ℕ) :
    Ignores f p (fillBuffProcAt d) (fun c => c.stream.eorStop = true) where
  takeBytes _ _ h := h
  setError _ h := h
  fill c c' _ h hfill := by
    have hkept := fill_eor h hfill
    split
    · exact hkept
    · exact hkept
  fill_alter c h := by
    cases d with
    | zero => rfl
    | succ d =>
        have hstart : (([], c) : List UInt8 × Chan).2.stream.eorStop = true := h
        refine run_bimap (I := fun x => x.2.stream.eorStop = true) (alterSnd f p) (Chan.alter f p)
          (fun _ hx => fillBuffProcBody_alter hx) (fun x x' hx hpass => ?_) hstart
        have hends := beforeHeader_eor hx
        rw [fillBuffProcBody_eq] at hpass
        cases hstage : beforeHeader x.2 with
        | leave c₁ =>
            rw [hstage] at hpass
            cases hpass
        | loop c₁ =>
            rw [hstage] at hpass hends
            cases hpass
            exact hends
        | next c₁ =>
            rw [hstage] at hends
            exact hends.elim

/-! ### Up to the first header -/

theorem headerBody_alter (x : List UInt8 × Chan) :
    headerBody (alterSnd f p x) =
      (headerBody x).map (Pass.bimap (alterSnd f p) (Option.map (alterSnd f p))) := by
  rw [headerBody, headerBody, beforeHeader_alter]
  cases beforeHeader x.2 with
  | leave c | loop c => rfl
  | next c =>
      dsimp only [Stage.map]
      by_cases hshort : (collectHeader x.1 c).1.length < 8
      · rw [if_pos hshort, if_pos (by exact hshort)]
        rfl
      · rw [if_neg hshort, if_neg (by exact hshort)]
        rfl

theorem firstHeader_alter (c : Chan) :
    firstHeader (c.alter f p) = (firstHeader c).map (alterSnd f p) := by
  rw [firstHeader, firstHeader]
  have hrun : run headerBody (c.unread.length + 1) (alterSnd f p ([], c)) =
      (run headerBody (c.unread.length + 1) ([], c)).map (Option.map (alterSnd f p)) :=
    run_bimap (I := fun _ => True) (alterSnd f p) (Option.map (alterSnd f p))
      (fun x _ => headerBody_alter x) (fun _ _ _ _ => trivial) trivial
  rw [show alterSnd f p (([] : List UInt8), c) = ([], c.alter f p) from rfl] at hrun
  rw [show (c.alter f p).unread = c.unread from rfl, hrun]
  rcases run headerBody (c.unread.length + 1) ([], c) with _ | _ | y <;> rfl

end FastCgi
