import FastCgi.App.Request

/-!
Properties that reading keeps.

What reads through a stream consumes bytes of the buffer, reports a bad
pair, and calls the fill procedure. A property of channels that these
keep (`ReadInvariant`) is kept by `FCGX_GetChar`, `FCGX_GetStr` and
`ReadParams`, in whatever state the stream is; the proofs follow the
text of the functions and know nothing of their purpose.
-/

namespace FastCgi

open ByteMem BoundedLoop

/-- A property that the steps of the reading functions keep. A fill that leaves the
stream open is followed by a new mark for `FCGX_UnGetChar`. -/
structure ReadInvariant (fill : Chan → Option Chan) (I : Chan → Prop) : Prop where
  takeBytes : ∀ (m : ℕ) (c : Chan), I c → I (takeBytes m c).2
  setError : ∀ c : Chan, I c → I (c.setError fcgxParamsError)
  fill : ∀ c c' : Chan, c.stream.isClosed = false → I c → fill c = some c' →
    if c'.stream.isClosed then I c' else I (markUnget c')

namespace ReadInvariant

variable {fill : Chan → Option Chan} {I : Chan → Prop} {c c' : Chan}

theorem getChar (hI : ReadInvariant fill I) {x : Option UInt8} (hc : I c)
    (h : fcgxGetChar fill c = some (x, c')) : I c' := by
  cases getsChar_fcgxGetChar h with
  | refused => exact hc
  | buffered => exact hI.takeBytes 1 c hc
  | ended hopen _ hfill hclosed =>
      have hkept := hI.fill c c' hopen hc hfill
      rwa [if_pos hclosed] at hkept
  | @filled c₁ hopen _ hfill hopen₁ _ =>
      have hkept := hI.fill c c₁ hopen hc hfill
      rw [if_neg (by simp [hopen₁])] at hkept
      exact hI.takeBytes 1 _ hkept

theorem getStrFill (hI : ReadInvariant fill I) {y : List UInt8 × Chan}
    {p : Pass (List UInt8 × Chan) (List UInt8 × Chan)} (hy : I y.2)
    (h : getStrFill fill y = some p) : p.Holds (fun x => I x.2) (fun x => I x.2) := by
  rw [FastCgi.getStrFill] at h
  split at h
  · cases h
    exact hy
  · next hopen =>
      split at h
      · cases h
      · next c₁ hc₁ =>
          have hkept := hI.fill y.2 c₁ (isClosed_of_readable hopen) hy hc₁
          split at h
          · next hclosed =>
              cases h
              rwa [if_pos hclosed] at hkept
          · next hclosed =>
              cases h
              rwa [if_neg hclosed] at hkept

theorem getStrBody (hI : ReadInvariant fill I) {n : ℕ} {x : List UInt8 × Chan}
    {p : Pass (List UInt8 × Chan) (List UInt8 × Chan)} (hx : I x.2)
    (hp : getStrBody fill n x = some p) : p.Holds (fun x => I x.2) (fun x => I x.2) := by
  rw [FastCgi.getStrBody] at hp
  split at hp
  · exact hI.getStrFill hx hp
  · have hcopied := hI.takeBytes (min (n - x.1.length)
      (x.2.stream.stop - x.2.stream.rdNext)) x.2 hx
    split at hp
    · cases hp
      exact hcopied
    · exact hI.getStrFill (y := (x.1 ++ _, (FastCgi.takeBytes _ x.2).2)) hcopied hp

theorem getStr (hI : ReadInvariant fill I) {n : ℤ} {bs : List UInt8} (hc : I c)
    (h : fcgxGetStr fill n c = some (bs, c')) : I c' := by
  rw [fcgxGetStr] at h
  split at h
  · cases h
    exact hc
  · split at h
    · cases h
      exact hI.takeBytes _ c hc
    · exact run_invariant (I := fun x => I x.2) (P := fun x => I x.2)
        (fun _ _ hx hp => hI.getStrBody hx hp) hc h

theorem readLength (hI : ReadInvariant fill I) {b : UInt8} {x : Option ℕ} (hc : I c)
    (h : readLength fill b c = some (x, c')) : I c' := by
  rw [FastCgi.readLength] at h
  split at h
  · split at h
    · cases h
    · next hget =>
        have hkept := hI.getStr hc hget
        split at h <;>
          · cases h
            exact hkept
    · next hget =>
        have hkept := hI.getStr hc hget
        cases h
        exact hkept
  · cases h
    exact hc

theorem readNameValue (hI : ReadInvariant fill I) {nameLen valueLen : ℕ} {x : Option NameValue}
    (hc : I c) (h : readNameValue fill nameLen valueLen c = some (x, c')) : I c' := by
  rw [FastCgi.readNameValue] at h
  split at h
  · cases h
    exact hc
  · split at h
    · cases h
    · next hname =>
        have hkept := hI.getStr hc hname
        split at h
        · cases h
          exact hkept
        · split at h
          · cases h
          · next hvalue =>
              have hkept' := hI.getStr hkept hvalue
              split at h <;>
                · cases h
                  exact hkept'

theorem readPair (hI : ReadInvariant fill I) {b : UInt8} {x : Option NameValue} (hc : I c)
    (h : readPair fill b c = some (x, c')) : I c' := by
  rw [FastCgi.readPair] at h
  split at h
  · cases h
  · next hname =>
      cases h
      exact hI.readLength hc hname
  · next hname =>
      have hkept := hI.readLength hc hname
      split at h
      · cases h
      · next hget =>
          cases h
          exact hI.getChar hkept hget
      · next hget =>
          have hkept' := hI.getChar hkept hget
          split at h
          · cases h
          · next hvalue =>
              cases h
              exact hI.readLength hkept' hvalue
          · next hvalue => exact hI.readNameValue (hI.readLength hkept' hvalue) h

theorem readParamsBody (hI : ReadInvariant fill I) {x : Params × Chan}
    {pass : Pass (Params × Chan) (ℤ × Params × Chan)} (hx : I x.2)
    (h : readParamsBody fill x = some pass) : pass.Holds (fun x => I x.2) (fun y => I y.2.2) := by
  rw [FastCgi.readParamsBody] at h
  split at h
  · cases h
  · next hget =>
      cases h
      exact hI.getChar hx hget
  · next hget =>
      have hkept := hI.getChar hx hget
      split at h
      · cases h
      · next hpair =>
          cases h
          exact hI.setError _ (hI.readPair hkept hpair)
      · next hpair =>
          have hkept' := hI.readPair hkept hpair
          cases h
          exact hkept'

theorem readParams (hI : ReadInvariant fill I) {p p' : Params} {rc : ℤ} (hc : I c)
    (h : readParams fill p c = some (rc, p', c')) : I c' :=
  run_invariant (I := fun x => I x.2) (P := fun y => I y.2.2)
    (fun _ _ hx hpass => hI.readParamsBody hx hpass) hc h

end ReadInvariant

end FastCgi
