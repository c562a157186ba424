import FastCgi.App.PrintfConversion
import FastCgi.App.Respond

/-!
When the buffers of `FCGX_VFPrintF` are large enough.

A call is a run of conversions, and what each starts from is on record. The
run ends without a fault if and only if all of them start from an entry
that fits (`vfPrintF_fits`).
-/

namespace FastCgi

open BoundedLoop Numeral Sprintf

/-! ### The call -/

/-- No write is over the end of a buffer, no assertion fails and no `int` overflows. -/
def PrintfEnd.Safe (r : PrintfEnd) : Prop := ∀ abort ∈ r.abort, abort.isFault = false

/-- What a part of a pass ends with: `I` where the call goes on, `P` where it ends. -/
def Goes (I : Printf → Prop) (P : PrintfEnd → Prop) : Except PrintfEnd Printf → Prop
  | .ok s => I s
  | .error r => P r

variable {s : Printf} {x : Except PrintfEnd Printf}

theorem Printf.put_goes {text : List UInt8} (h : s.put text = some x) :
    Goes (fun s' => s'.conversions = s.conversions ∧ s'.entry = s.entry)
      (fun r => r.conversions = s.conversions ∧ r.Safe) x := by
  rw [put] at h
  split at h
  · cases h
  · split at h
    · obtain rfl := Option.some.inj h
      refine ⟨rfl, ?_⟩
      rintro abort habort
      obtain rfl := Option.some.inj habort
      rfl
    · obtain rfl := Option.some.inj h
      exact ⟨rfl, rfl⟩

theorem Printf.putText_goes (h : s.putText = some x) :
    Goes (fun s' => s'.conversions = s.conversions ∧
        s'.entry.percentPtr.length ≤ s.entry.percentPtr.length)
      (fun r => r.conversions = s.conversions ∧ r.Safe) x := by
  simp only [putText] at h
  split at h
  · obtain rfl := Option.some.inj h
    exact ⟨rfl, le_rfl⟩
  · obtain ⟨y, hput, rfl⟩ := Option.map_eq_some_iff.mp h
    have hgoes := put_goes hput
    cases y with
    | error r => exact hgoes
    | ok s' => exact ⟨hgoes.1, (List.dropWhile_suffix _).length_le⟩

theorem fits_of_conversion {e : Entry} {r : Converted} (h : conversion e = .ok r) : e.Fits := by
  by_contra hf
  obtain ⟨abort, habort, -⟩ := conversion_faults hf
  rw [habort] at h
  cases h

/-- **One conversion.** The call goes on from an entry that fits. -/
theorem Printf.convert_goes (hfits : ∀ e ∈ s.conversions, e.Fits) (hne : s.entry.percentPtr ≠ [])
    (h : s.convert = some x) :
    Goes (fun s' => (∀ e ∈ s'.conversions, e.Fits) ∧
        s'.entry.percentPtr.length < s.entry.percentPtr.length)
      (fun r => r.Safe ↔ ∀ e ∈ r.conversions, e.Fits) x := by
  have hall : s.entry.Fits → ∀ e ∈ s.conversions ++ [s.entry], e.Fits := by
    intro hentry e he
    rcases List.mem_append.mp he with he | he
    · exact hfits e he
    · obtain rfl := List.mem_singleton.mp he
      exact hentry
  simp only [convert] at h
  split at h
  · next abort hconv =>
      obtain rfl := Option.some.inj h
      constructor
      · intro hsafe
        by_contra hf
        have hentry : ¬s.entry.Fits := fun hentry => hf (hall hentry)
        obtain ⟨abort', habort', hfault⟩ := conversion_faults hentry
        obtain rfl := Except.error.inj (hconv.symm.trans habort')
        rw [hsafe abort rfl] at hfault
        cases hfault
      · intro hf a ha
        obtain rfl := Option.some.inj ha
        have hentry := hf s.entry (List.mem_append_right _ (List.mem_singleton_self _))
        have hharmless := conversion_harmless hne hentry
        rw [hconv] at hharmless
        exact hharmless
  · next r hconv =>
      have hentry := fits_of_conversion hconv
      have hharmless := conversion_harmless hne hentry
      rw [hconv] at hharmless
      have hconversions := hall hentry
      split at h
      · have hgoes := put_goes h
        cases x with
        | error e => exact ⟨fun _ => hgoes.1 ▸ hconversions, fun _ => hgoes.2⟩
        | ok s' =>
            refine ⟨hgoes.1 ▸ hconversions, ?_⟩
            rw [hgoes.2]
            exact hharmless
      · split at h
        · obtain rfl := Option.some.inj h
          refine ⟨fun _ => hconversions, fun _ a ha => ?_⟩
          obtain rfl := Option.some.inj ha
          rfl
        · obtain rfl := Option.some.inj h
          exact ⟨hconversions, hharmless⟩

/-- **One pass.** -/
theorem vfPrintFBody_holds {p : Pass Printf PrintfEnd} (hfits : ∀ e ∈ s.conversions, e.Fits)
    (h : vfPrintFBody s = some p) :
    p.Holds (fun s' => (∀ e ∈ s'.conversions, e.Fits) ∧
        s'.entry.percentPtr.length < s.entry.percentPtr.length)
      (fun r => r.Safe ↔ ∀ e ∈ r.conversions, e.Fits) := by
  have hleave : ∀ s' : Printf, s'.conversions = s.conversions →
      ((s'.leave none).Safe ↔ ∀ e ∈ (s'.leave none).conversions, e.Fits) := fun s' hs' =>
    ⟨fun _ => show ∀ e ∈ s'.conversions, e.Fits by rwa [hs'], fun _ _ ha => nomatch ha⟩
  rw [vfPrintFBody] at h
  split at h
  · obtain rfl := Option.some.inj h
    exact hleave s rfl
  · split at h
    · cases h
    · next r hput =>
        obtain rfl := Option.some.inj h
        obtain ⟨hconv, hsafe⟩ : r.conversions = s.conversions ∧ r.Safe := Printf.putText_goes hput
        exact ⟨fun _ => by rwa [hconv], fun _ => hsafe⟩
    · next s' hput =>
        obtain ⟨hconv, hle⟩ : s'.conversions = s.conversions ∧ _ := Printf.putText_goes hput
        split at h
        · obtain rfl := Option.some.inj h
          exact hleave s' hconv
        · next hne =>
            have hgoes := fun x hx => Printf.convert_goes (x := x) (by rwa [hconv]) hne hx
            split at h
            · cases h
            · next r hconvert =>
                obtain rfl := Option.some.inj h
                exact hgoes _ hconvert
            · next s'' hconvert =>
                obtain rfl := Option.some.inj h
                obtain ⟨hf, hlt⟩ := hgoes _ hconvert
                exact ⟨hf, Nat.lt_of_lt_of_le hlt hle⟩

/-! ### The call returns -/

theorem Printf.put_writer (hw : s.chan.stream.IsWriter) (text : List UInt8) :
    ∃ x, s.put text = some x ∧ Goes (fun s' => s'.chan.stream.IsWriter) (fun _ => True) x := by
  obtain ⟨z, c, hput, hgrows⟩ := fcgxPutStr_grows hw text
  simp only [put, hput]
  split
  · exact ⟨_, rfl, trivial⟩
  · exact ⟨_, rfl, hgrows.isWriter⟩

theorem Printf.putText_writer (hw : s.chan.stream.IsWriter) :
    ∃ x, s.putText = some x ∧ Goes (fun s' => s'.chan.stream.IsWriter) (fun _ => True) x := by
  simp only [putText]
  split
  · exact ⟨_, rfl, hw⟩
  · obtain ⟨x, hput, hx⟩ := put_writer hw (s.entry.percentPtr.takeWhile (· ≠ code '%'))
    rw [hput]
    refine ⟨_, rfl, ?_⟩
    cases x with
    | error r => trivial
    | ok s' => exact hx

theorem Printf.convert_writer (hw : s.chan.stream.IsWriter) :
    ∃ x, s.convert = some x ∧ Goes (fun s' => s'.chan.stream.IsWriter) (fun _ => True) x := by
  simp only [convert]
  split
  · exact ⟨_, rfl, trivial⟩
  · next r hconv =>
      split
      · exact put_writer (by exact hw) _
      · split
        · exact ⟨_, rfl, trivial⟩
        · exact ⟨_, rfl, hw⟩

theorem vfPrintFBody_writer (hw : s.chan.stream.IsWriter) :
    ∃ p, vfPrintFBody s = some p ∧
      p.Holds (fun s' => s'.chan.stream.IsWriter) (fun _ => True) := by
  rw [vfPrintFBody]
  split
  · exact ⟨_, rfl, trivial⟩
  · obtain ⟨x, hput, hx⟩ := Printf.putText_writer hw
    rw [hput]
    cases x with
    | error r => exact ⟨_, rfl, trivial⟩
    | ok s' =>
        dsimp only
        split
        · exact ⟨_, rfl, trivial⟩
        · obtain ⟨y, hconvert, hy⟩ := Printf.convert_writer hx
          rw [hconvert]
          cases y with
          | error r => exact ⟨_, rfl, trivial⟩
          | ok s'' => exact ⟨_, rfl, hy⟩

/-- `FCGX_VFPrintF` returns, on a stream that is written. -/
theorem fcgxVFPrintF_returns (format : CString) (args : List Arg) {c : Chan}
    (hw : c.stream.IsWriter) : ∃ r, fcgxVFPrintF format args c = some r := by
  have hstep : ∀ s : Printf, (∀ e ∈ s.conversions, e.Fits) ∧ s.chan.stream.IsWriter →
      (∃ r, vfPrintFBody s = some (.done r) ∧ True) ∨
        ∃ s', vfPrintFBody s = some (.again s') ∧
          ((∀ e ∈ s'.conversions, e.Fits) ∧ s'.chan.stream.IsWriter) ∧
            s'.entry.percentPtr.length < s.entry.percentPtr.length := by
    rintro s ⟨hfits, hwriter⟩
    obtain ⟨p, hp, hgoes⟩ := vfPrintFBody_writer hwriter
    have hholds := vfPrintFBody_holds hfits hp
    rw [hp]
    cases p with
    | done r => exact .inl ⟨r, rfl, trivial⟩
    | again s' => exact .inr ⟨s', rfl, ⟨hholds.1, hgoes⟩, hholds.2⟩
  have hstart : ∀ e ∈ ([] : List Entry), e.Fits := fun _ he => (nomatch he)
  obtain ⟨r, hr, -⟩ := run_total _ _ _ hstep
    (s := { entry := ⟨format.bytes, args, 0⟩, streamCount := 0, chan := c, conversions := [] })
    ⟨hstart, hw⟩ (Nat.lt_succ_self format.bytes.length)
  exact ⟨r, hr⟩

/-- **When the buffers of `FCGX_VFPrintF` are large enough**: no write of a call is over the end
of a buffer, no assertion fails and no `int` overflows if and only if every conversion of the
call starts from an entry that fits. On a stream that is written the call returns. -/
theorem vfPrintF_fits (format : CString) (args : List Arg) (c : Chan) :
    (∀ r, fcgxVFPrintF format args c = some r → (r.Safe ↔ ∀ e ∈ r.conversions, e.Fits)) ∧
      (c.stream.IsWriter → ∃ r, fcgxVFPrintF format args c = some r) := by
  refine ⟨fun r hr => ?_, fcgxVFPrintF_returns format args⟩
  have hstart : ∀ e ∈ ([] : List Entry), e.Fits := fun _ he => (nomatch he)
  refine run_invariant (I := fun s : Printf => ∀ e ∈ s.conversions, e.Fits)
    (P := fun r => r.Safe ↔ ∀ e ∈ r.conversions, e.Fits) (fun s p hs hp => ?_) hstart hr
  have hholds := vfPrintFBody_holds hs hp
  cases p with
  | done r => exact hholds
  | again s' => exact hholds.1

/-- A writer with a buffer of 64 bytes. -/
def printWriter : Chan :=
  { stream := newStream 16 (fun _ => 0) 64 false fcgiStdout
    req := idleRequest.req
    os := .sending [] [] [] }

def fiveWide : CString := { bytes := [code '%', code '5', code 'd'], noNul := by decide }

theorem vfPrintF_fits_fiveWide :
    ∃ r, fcgxVFPrintF fiveWide [.int 42] printWriter = some r ∧ r.Safe ∧ r.streamCount = 5 ∧
      ∀ e ∈ r.conversions, e.Fits := by
  have hends : (fcgxVFPrintF fiveWide [.int 42] printWriter).map
      (fun r => (r.abort, r.streamCount)) = some (none, 5) := by
    decide +kernel
  obtain ⟨hfits, hreturns⟩ := vfPrintF_fits fiveWide [.int 42] printWriter
  obtain ⟨r, hr⟩ := hreturns (holding_newStream ..).toIsWriter
  rw [hr] at hends
  obtain ⟨habort, hcount⟩ := Prod.ext_iff.mp (Option.some.inj hends)
  have hsafe : r.Safe := by
    rw [PrintfEnd.Safe, show r.abort = none from habort]
    exact fun _ ha => nomatch ha
  exact ⟨r, hr, hsafe, hcount, (hfits r hr).mp hsafe⟩

/-- The width takes all of `buff`, and the NUL does not fit. -/
def hundredWide : CString :=
  { bytes := [code '%', code '1', code '0', code '0', code 'd'], noNul := by decide }

theorem vfPrintF_overflows :
    ¬∀ (format : CString) (args : List Arg) (c : Chan) (r : PrintfEnd),
      c.stream.IsWriter → fcgxVFPrintF format args c = some r → r.Safe := by
  intro hsafe
  have hends : (fcgxVFPrintF hundredWide [.int 5] printWriter).map PrintfEnd.abort =
      some (some .buffOverflow) := by
    decide +kernel
  obtain ⟨r, hr, habort⟩ := Option.map_eq_some_iff.mp hends
  have hfault := hsafe hundredWide [.int 5] printWriter r (holding_newStream ..).toIsWriter hr
    .buffOverflow habort
  cases hfault

end FastCgi
