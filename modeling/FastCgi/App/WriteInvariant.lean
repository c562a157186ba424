import FastCgi.App.Writer

/-!
Properties that writing keeps.

A writer changes its buffer and its offsets, and hands the buffer to
`write_it_all`, which succeeds or sets an error. A property of channels
that these keep (`WriteInvariant`) is kept by everything a writer does, in
whatever state the stream is; only `FCGX_FClose` touches the request data
besides. Writing makes no reader of a writer, and once `rawWrite` is set it
stays set.
-/

namespace FastCgi

open ByteMem BoundedLoop

/-- A property that the steps of the writing functions keep. -/
structure WriteInvariant (I : Chan → Prop) : Prop where
  stream : ∀ (c : Chan) (s : Stream), I c → s.fcgiErrno = c.stream.fcgiErrno →
    s.isReader = c.stream.isReader → (c.stream.rawWrite = true → s.rawWrite = true) →
      I { c with stream := s }
  sent : ∀ (c : Chan) (buf : List UInt8) (os : Os), I c → writeItAll c.os buf = (.ok (), os) →
    I { c with os := os }
  failed : ∀ (c : Chan) (buf : List UInt8) (e : Errno) (os : Os), I c →
    writeItAll c.os buf = (.error e, os) → I ({ c with os := os }.setError e)

namespace WriteInvariant

variable {I : Chan → Prop} {c c' : Chan}

theorem put (hI : WriteInvariant I) (hc : I c) (bs : List UInt8) : I (c.put bs) :=
  hI.stream c _ hc rfl rfl id

theorem encapsulate (hI : WriteInvariant I) (hc : I c) : I (encapsulate c) := by
  rw [FastCgi.encapsulate]
  split
  · exact hc
  · split
    · exact hI.stream c _ hc rfl rfl id
    · exact hI.stream c _ hc rfl rfl id

theorem reserveHeader (hI : WriteInvariant I) (hc : I c) : I (reserveHeader c) := by
  rw [FastCgi.reserveHeader]
  split
  · exact hc
  · exact hI.stream c _ hc rfl rfl id

theorem writeBuff (hI : WriteInvariant I) (hc : I c) : I (writeBuff c) := by
  have hstart : I { c with stream := { c.stream with isAnythingWritten := true } } :=
    hI.stream c _ hc rfl rfl id
  simp only [FastCgi.writeBuff]
  split
  · next e os hwrite => exact hI.failed _ _ e os hstart hwrite
  · next os hwrite =>
      apply hI.reserveHeader
      exact hI.stream _ _ (hI.sent _ _ os hstart hwrite) rfl rfl id

theorem flushBuff (hI : WriteInvariant I) (hc : I c) : I (flushBuff c) := by
  rw [FastCgi.flushBuff]
  split
  · exact hI.writeBuff hc
  · exact hI.reserveHeader hc

theorem emptyBuffProc (hI : WriteInvariant I) (hc : I c) : I (emptyBuffProc c) :=
  hI.flushBuff (hI.encapsulate hc)

theorem putChar (hI : WriteInvariant I) (hc : I c) {b : UInt8} {ok : Bool}
    (h : fcgxPutChar b c = some (ok, c')) : I c' := by
  rw [fcgxPutChar] at h
  split at h
  · cases h
    exact hI.put hc [b]
  · split at h
    · cases h
      exact hc
    · simp only at h
      split at h
      · cases h
        exact hI.put (hI.emptyBuffProc hc) [b]
      · split at h
        · cases h
          exact hI.emptyBuffProc hc
        · cases h

theorem putStrEmpty (hI : WriteInvariant I) {x : ℕ × Chan} {p : Pass (ℕ × Chan) (ℤ × Chan)}
    (hx : I x.2) (h : putStrEmpty x = some p) : p.Holds (fun y => I y.2) (fun y => I y.2) := by
  rw [FastCgi.putStrEmpty] at h
  split at h
  · cases h
    exact hx
  · cases h
    exact hI.emptyBuffProc hx

theorem putStr (hI : WriteInvariant I) (hc : I c) {str : List UInt8} {n : ℤ}
    (h : fcgxPutStr str c = some (n, c')) : I c' := by
  rw [fcgxPutStr] at h
  split at h
  · cases h
    exact hI.put hc str
  · refine run_invariant (I := fun x => I x.2) (P := fun y => I y.2) (fun x p hx hp => ?_) hc h
    simp only [putStrBody] at hp
    split at hp
    · exact hI.putStrEmpty hx hp
    · have hput := hI.put hx ((str.drop x.1).take
        (min (str.length - x.1) (x.2.stream.stop - x.2.stream.wrNext)))
      split at hp
      · cases hp
        exact hput
      · exact hI.putStrEmpty (x := (_, x.2.put _)) hput hp

theorem fflush (hI : WriteInvariant I) (hc : I c) : I (fcgxFFlush c).2 := by
  rw [fcgxFFlush]
  split
  · exact hc
  · exact hI.emptyBuffProc hc

theorem writeEof (hI : WriteInvariant I) (hc : I c) (h : writeEof c = some c') : I c' := by
  rw [FastCgi.writeEof] at h
  split at h
  · cases h
    exact hc
  · obtain ⟨⟨n, c₁⟩, hput, rfl⟩ := Option.map_eq_some_iff.mp h
    exact hI.putStr hc hput

theorem writeEndRequest (hI : WriteInvariant I) (hc : I c) (h : writeEndRequest c = some c') :
    I c' := by
  rw [FastCgi.writeEndRequest] at h
  split at h
  · obtain ⟨⟨n, c₁⟩, hput, rfl⟩ := Option.map_eq_some_iff.mp h
    exact hI.putStr hc hput
  · cases h
    exact hc

/-- A property that does not depend on the number of writers is kept by `FCGX_FClose`. -/
theorem fclose (hI : WriteInvariant I) (hleave : ∀ c, I c → I c.leaveWriter) (hc : I c) {rc : ℤ}
    (h : fcgxFClose c = some (rc, c')) : I c' := by
  rw [fcgxFClose] at h
  split at h
  · cases h
  · next c₁ hclose =>
      obtain rfl : c₁ = c' := congrArg Prod.snd (Option.some.inj h)
      split at hclose
      · cases hclose
        exact hc
      · rw [closeChan] at hclose
        split at hclose
        · cases hclose
        · next c₂ hempty =>
            cases hclose
            suffices h₂ : I c₂ by
              refine hI.stream c₂ _ h₂ ?_ ?_ ?_
              · rw [closeStream]
                split <;> rfl
              · rw [closeStream]
                split <;> rfl
              · rw [closeStream]
                split <;> exact id
            split at hempty
            · cases hempty
              exact hc
            · obtain ⟨c₃, hrecords, rfl⟩ := Option.map_eq_some_iff.mp hempty
              apply hI.flushBuff
              rw [writeCloseRecords] at hrecords
              split at hrecords
              · cases hrecords
              · next c₄ heof =>
                  obtain ⟨c₅, hend, rfl⟩ := Option.map_eq_some_iff.mp hrecords
                  have hraw : I (enterRawWrite (FastCgi.encapsulate c)) :=
                    hI.stream _ _ (hI.encapsulate hc) rfl rfl fun _ => rfl
                  exact hleave _ (hI.writeEndRequest (hI.writeEof hraw heof) hend)

end WriteInvariant

end FastCgi
