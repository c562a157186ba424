import FastCgi.Java.InputStream

/-!
The Java reader inside a record that it interprets itself.

While `eorStop` is set no header is read, so what `processHeader` reads of
the content of a begin or a management record changes neither the request
nor the socket (`Inside`).
-/

namespace FastCgi

namespace Java

open BoundedLoop

namespace InChan

/-- The stream is inside a record that `processHeader` interprets, and the request and the socket
are as they were. -/
structure Inside (c start : InChan) : Prop where
  request_eq : c.request = start.request
  socket_eq : c.socket = start.socket
  eorStop : c.stream.eorStop = true

variable {start : InChan} {fill : InChan → Option InChan} {c c' : InChan}

/-- A fill procedure that reads nothing but the content of the record. -/
def StaysInside (start : InChan) (fill : InChan → Option InChan) : Prop :=
  ∀ c c', c.Inside start → fill c = some c' → c'.Inside start

theorem Inside.setFcgiError (h : c.Inside start) (errnum : ℤ) :
    (c.setFcgiError errnum).Inside start := ⟨h.request_eq, h.socket_eq, h.eorStop⟩

theorem Inside.takeByte {b : Option UInt8} (h : c.Inside start) (htake : c.takeByte = some (b, c')) :
    c'.Inside start := by
  rw [InChan.takeByte] at htake
  split at htake
  · cases htake
    exact ⟨h.request_eq, h.socket_eq, h.eorStop⟩
  · cases htake

theorem Inside.takeBytes {m : ℤ} {bs : List UInt8} (h : c.Inside start)
    (htake : c.takeBytes m = some (bs, c')) : c'.Inside start := by
  rw [InChan.takeBytes] at htake
  split at htake
  · cases htake
    exact ⟨h.request_eq, h.socket_eq, h.eorStop⟩
  · cases htake

section Reads

variable (hfill : StaysInside start fill)
include hfill

theorem Inside.read {b : Option UInt8} (h : c.Inside start) (hread : c.read fill = some (b, c')) :
    c'.Inside start := by
  rw [InChan.read] at hread
  split at hread
  · exact h.takeByte hread
  · split at hread
    · cases hread
      exact h
    · split at hread
      · cases hread
      · next c₁ hc₁ =>
          have h₁ := hfill c c₁ h hc₁
          split at hread
          · exact h₁.takeByte hread
          · cases hread
            exact h₁

/-- The second half of a pass. -/
theorem Inside.readFill {x : List UInt8 × InChan} {p : Pass (List UInt8 × InChan) (List UInt8 × InChan)}
    (h : x.2.Inside start) (hpass : InChan.readFill fill x = some p) :
    p.Holds (fun y => y.2.Inside start) (fun y => y.2.Inside start) := by
  rw [InChan.readFill] at hpass
  split at hpass
  · cases hpass
    exact h
  · split at hpass
    · cases hpass
    · next c₁ hc₁ =>
        cases hpass
        exact hfill _ c₁ h hc₁

theorem Inside.readBytes {len : ℤ} {bs : List UInt8} (h : c.Inside start)
    (hread : c.readBytes fill len = some (bs, c')) : c'.Inside start := by
  rw [InChan.readBytes] at hread
  split at hread
  · cases hread
    exact h
  · split at hread
    · exact h.takeBytes hread
    · refine run_invariant (I := fun x => x.2.Inside start) (P := fun x => x.2.Inside start) ?_ h
        hread
      intro x p hx hpass
      rw [readBytesBody] at hpass
      split at hpass
      · split at hpass
        · cases hpass
        · next bs₁ c₁ htake =>
            have h₁ := hx.takeBytes htake
            split at hpass
            · cases hpass
              exact h₁
            · exact Inside.readFill hfill h₁ hpass
      · exact Inside.readFill hfill hx hpass

theorem Inside.readLength {b : UInt8} {n : Option ℕ} (h : c.Inside start)
    (hread : c.readLength fill b = some (n, c')) : c'.Inside start := by
  rw [InChan.readLength] at hread
  split at hread
  · split at hread
    · cases hread
    · next c₁ hc₁ =>
        cases hread
        exact h.readBytes hfill hc₁
    · next c₁ hc₁ =>
        cases hread
        exact h.readBytes hfill hc₁
  · cases hread
    exact h

theorem Inside.readValueLen {n : Option ℕ} (h : c.Inside start)
    (hread : c.readValueLen fill = some (n, c')) : c'.Inside start := by
  rw [InChan.readValueLen] at hread
  split at hread
  · cases hread
  · next c₁ hc₁ =>
      cases hread
      exact h.read hfill hc₁
  · next b c₁ hc₁ => exact (h.read hfill hc₁).readLength hfill hread

theorem Inside.readNameValue {n m : ℕ} {p : Option NameValue} (h : c.Inside start)
    (hread : c.readNameValue fill n m = some (p, c')) : c'.Inside start := by
  rw [InChan.readNameValue] at hread
  split at hread
  · cases hread
  · next name c₁ hc₁ =>
      have h₁ := h.readBytes hfill hc₁
      split at hread
      · cases hread
        exact h₁
      · split at hread
        · cases hread
        · next value c₂ hc₂ =>
            have h₂ := h₁.readBytes hfill hc₂
            split at hread <;> cases hread <;> exact h₂

theorem Inside.readPair {b : UInt8} {p : Option NameValue} (h : c.Inside start)
    (hread : c.readPair fill b = some (p, c')) : c'.Inside start := by
  rw [InChan.readPair] at hread
  split at hread
  · cases hread
  · next c₁ hc₁ =>
      cases hread
      exact h.readLength hfill hc₁
  · next n c₁ hc₁ =>
      have h₁ := h.readLength hfill hc₁
      split at hread
      · cases hread
      · next c₂ hc₂ =>
          cases hread
          exact h₁.readValueLen hfill hc₂
      · next m c₂ hc₂ => exact (h₁.readValueLen hfill hc₂).readNameValue hfill hread

theorem Inside.readParams {props : List NameValue} {r : ℤ × List NameValue × InChan}
    (h : c.Inside start) (hread : c.readParams fill props = some r) : r.2.2.Inside start := by
  refine run_invariant (I := fun x => x.2.Inside start) (P := fun r => r.2.2.Inside start) ?_ h
    hread
  intro x p hx hpass
  rw [readParamsBody] at hpass
  split at hpass
  · cases hpass
  · next c₁ hc₁ =>
      cases hpass
      exact hx.read hfill hc₁
  · next b c₁ hc₁ =>
      have h₁ := hx.read hfill hc₁
      split at hpass
      · cases hpass
      · next c₂ hc₂ =>
          cases hpass
          exact (h₁.readPair hfill hc₂).setFcgiError _
      · next p c₂ hc₂ =>
          cases hpass
          exact h₁.readPair hfill hc₂

end Reads

/-! ### `fill` inside a record -/

/-- What a stage of `fill` keeps. -/
def Stage.Holds (I : InChan → Prop) : Stage → Prop
  | .leave c | .loop c | .next c => I c

theorem Inside.refill (h : c.Inside start) : (InChan.refill c).Holds (·.Inside start) := by
  rw [InChan.refill]
  split
  · split
    · exact ⟨h.request_eq, h.socket_eq, h.eorStop⟩
    · split <;> exact ⟨h.request_eq, h.socket_eq, h.eorStop⟩
  · exact h

theorem Inside.passContent (h : c.Inside start) : (InChan.passContent c).Holds (·.Inside start) := by
  dsimp only [InChan.passContent]
  split
  · split
    · exact ⟨h.request_eq, h.socket_eq, h.eorStop⟩
    · split <;> exact ⟨h.request_eq, h.socket_eq, h.eorStop⟩
  · exact h

theorem Inside.passPadding (h : c.Inside start) : (InChan.passPadding c).Holds (·.Inside start) := by
  dsimp only [InChan.passPadding]
  split
  · split <;> exact ⟨h.request_eq, h.socket_eq, h.eorStop⟩
  · exact h

/-- Inside a record no header is read: the end of the record is the end of the stream. -/
theorem Inside.fillBody {x : List UInt8 × InChan} {p : Pass (List UInt8 × InChan) InChan}
    (h : x.2.Inside start) (hpass : InChan.fillBody fill x = some p) :
    p.Holds (fun y => y.2.Inside start) (·.Inside start) := by
  have hrefill := h.refill
  rw [InChan.fillBody] at hpass
  split at hpass <;> rename_i c₁ hc₁ <;> rw [hc₁] at hrefill
  · cases hpass
    exact hrefill
  · cases hpass
    exact hrefill
  · have hcontent := Inside.passContent hrefill
    split at hpass <;> rename_i c₂ hc₂ <;> rw [hc₂] at hcontent
    · cases hpass
      exact hcontent
    · cases hpass
      exact hcontent
    · have hpadding := Inside.passPadding hcontent
      rw [passEnd] at hpass
      split at hpass <;> rename_i c₃ hc₃ <;> rw [hc₃] at hpadding
      · cases hpass
        exact hpadding
      · cases hpass
        exact hpadding
      · have heor : c₃.stream.eorStop = true := hpadding.eorStop
        rw [checkEor, if_pos heor] at hpass
        cases hpass
        exact ⟨hpadding.request_eq, hpadding.socket_eq, hpadding.eorStop⟩

theorem staysInside_fillAt (start : InChan) (d : ℕ) : StaysInside start (fillAt d) := by
  intro c c' h hfill
  cases d with
  | zero => cases hfill
  | succ d =>
      exact run_invariant (I := fun y => y.2.Inside start) (P := (·.Inside start))
        (fun _ _ hx hpass => Inside.fillBody hx hpass) h hfill

end InChan

end Java

end FastCgi
