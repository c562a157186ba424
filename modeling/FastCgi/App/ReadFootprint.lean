import FastCgi.App.FilterData
import FastCgi.App.QueryReads

/-!
What a reader reads of its buffer.

Between `rdNext` and `buffStop` are the bytes that have not been consumed;
nothing that reads looks at another cell of the buffer. So two streams
that differ in the other cells only (`Chan.SameAhead`) are read alike, and
stay so: every function that reads takes them to streams that differ in
such cells only. The functions come in the order of `Reader.lean`; the
proofs run the second stream along the branches that the first one takes.
For the functions that call a fill procedure this is done once for any
relation that such a procedure respects (`ReadsSame`).

Where `FillBuffProc` accepts a new request it returns whatever `stop` there
is; that is in order because the body of the request has been read, so the
stream is still open (`processHeader_begins`).
-/

namespace FastCgi

open ByteMem BoundedLoop

/-- The channel with another content of the buffer. -/
def Chan.withBuff (c : Chan) (buff : ℕ → UInt8) : Chan :=
  { c with stream := { c.stream with buff := buff } }

/-- The two differ at most in cells of the buffer that hold no byte to come. -/
def Chan.SameAhead (c c' : Chan) : Prop :=
  ∃ buff, c' = c.withBuff buff ∧
    ∀ k, c.stream.rdNext ≤ k → k < c.stream.buffStop → buff k = c.stream.buff k

namespace Chan.SameAhead

variable {c c' : Chan}

theorem refl (c : Chan) : c.SameAhead c := ⟨c.stream.buff, rfl, fun _ _ _ => rfl⟩

theorem slice_eq (h : c.SameAhead c') {n : ℕ} (hn : n ≤ c.stream.buffStop - c.stream.rdNext) :
    slice c'.stream.buff c'.stream.rdNext n = slice c.stream.buff c.stream.rdNext n := by
  obtain ⟨buff, rfl, hcells⟩ := h
  apply slice_congr
  intro k (hk : c.stream.rdNext ≤ k) (hlt : k < c.stream.rdNext + n)
  exact hcells k hk (by omega)

theorem unread_eq (h : c.SameAhead c') : c'.unread = c.unread := by
  have hslice := h.slice_eq (Nat.le_refl _)
  obtain ⟨buff, rfl, -⟩ := h
  rw [Chan.unread, Chan.unread]
  exact congrArg (· ++ c.os.incoming) hslice

/-- A change of the rest of the stream that brings no cell into view. -/
theorem update (h : c.SameAhead c') (f : Stream → Stream)
    (hf : ∀ s buff, f { s with buff := buff } = { f s with buff := buff })
    (hbuff : (f c.stream).buff = c.stream.buff)
    (hnext : c.stream.rdNext ≤ (f c.stream).rdNext)
    (hstop : (f c.stream).buffStop ≤ c.stream.buffStop) (req : ReqData) (os : Os) :
    Chan.SameAhead ⟨f c.stream, req, os⟩ ⟨f c'.stream, req, os⟩ := by
  obtain ⟨buff, rfl, hcells⟩ := h
  refine ⟨buff, ?_, fun k hk hlt => ?_⟩
  · rw [Chan.withBuff, Chan.withBuff, hf]
  · rw [hbuff]
    exact hcells k (Nat.le_trans hnext hk) (Nat.lt_of_lt_of_le hlt hstop)

/-- The same with the request data and the connection as they are. -/
theorem stream (h : c.SameAhead c') (f : Stream → Stream)
    (hf : ∀ s buff, f { s with buff := buff } = { f s with buff := buff })
    (hbuff : (f c.stream).buff = c.stream.buff)
    (hnext : c.stream.rdNext ≤ (f c.stream).rdNext)
    (hstop : (f c.stream).buffStop ≤ c.stream.buffStop) :
    Chan.SameAhead { c with stream := f c.stream } { c' with stream := f c'.stream } := by
  have hreq : c'.req = c.req ∧ c'.os = c.os := by
    obtain ⟨buff, rfl, -⟩ := h
    exact ⟨rfl, rfl⟩
  rw [hreq.1, hreq.2]
  exact h.update f hf hbuff hnext hstop c.req c.os

theorem os (h : c.SameAhead c') (os : Os) :
    Chan.SameAhead { c with os := os } { c' with os := os } := by
  obtain ⟨buff, rfl, hcells⟩ := h
  exact ⟨buff, rfl, hcells⟩

theorem setError (h : c.SameAhead c') (e : ℤ) : (c.setError e).SameAhead (c'.setError e) := by
  obtain ⟨buff, rfl, hcells⟩ := h
  exact ⟨buff, rfl, hcells⟩

end Chan.SameAhead

/-! ### The relations -/

/-- Two streams inside the loop of `FillBuffProc`. -/
structure Chan.FillsAlike (c c' : Chan) : Prop where
  same : c.SameAhead c'
  rdNext_le : c.stream.rdNext ≤ c.stream.buffStop

/-- Two streams that are read from. -/
structure Chan.ReadsAlike (c c' : Chan) : Prop extends c.FillsAlike c' where
  ordered : c.stream.isClosed = false →
    c.stream.rdNext ≤ c.stream.stop ∧ c.stream.stop ≤ c.stream.buffStop

/-- A fill procedure that does not tell such streams apart. -/
def KeepsAlike (fill : Chan → Option Chan) : Prop :=
  ∀ c c' d, c.ReadsAlike c' → c.stream.isClosed = false → fill c = some d →
    ∃ d', fill c' = some d' ∧ d.ReadsAlike d'

/-- What a function that reads returns. -/
def SameResult {α : Type} (R : Chan → Chan → Prop) (x : α) (d : Chan) (r : Option (α × Chan)) :
    Prop := ∃ d', r = some (x, d') ∧ R d d'

/-! ### Reading from related streams

Reading with one fill procedure from a stream and with another one from a stream that `R`
relates to it gives the same bytes. -/

/-- What the functions that read ask of a relation. -/
structure ReadsSame (R : Chan → Chan → Prop) (fill fill' : Chan → Option Chan) : Prop where
  fields : ∀ {c c'}, R c c' →
    c'.stream.isClosed = c.stream.isClosed ∧ c'.stream.isReader = c.stream.isReader ∧
      c'.stream.rdNext = c.stream.rdNext ∧ c'.stream.stop = c.stream.stop
  unread : ∀ {c c'}, R c c' → c'.unread = c.unread
  rdNext_le : ∀ {c c'}, R c c' → c.stream.isClosed = false → c.stream.rdNext ≤ c.stream.stop
  takeBytes : ∀ {c c'}, R c c' → c.stream.isClosed = false →
    ∀ {m}, m ≤ c.stream.stop - c.stream.rdNext →
      (takeBytes m c').1 = (takeBytes m c).1 ∧ R (takeBytes m c).2 (takeBytes m c').2
  markUnget : ∀ {c c'}, R c c' → R (markUnget c) (markUnget c')
  setError : ∀ {c c'}, R c c' → ∀ e, R (c.setError e) (c'.setError e)
  fill : ∀ {c c'}, R c c' → c.stream.isClosed = false → ∀ {d}, fill c = some d →
    ∃ d', fill' c' = some d' ∧ R d d'

/-- Two passes of a loop, with what it has collected. -/
def PairAlike {α : Type} (R : Chan → Chan → Prop) (x x' : α × Chan) : Prop :=
  x'.1 = x.1 ∧ R x.2 x'.2

section Reading

variable {R : Chan → Chan → Prop} {fill fill' : Chan → Option Chan} {c c' d : Chan}

namespace ReadsSame

theorem takeByte (hr : ReadsSame R fill fill') (h : R c c') (hopen : c.stream.isClosed = false)
    (hne : c.stream.rdNext ≠ c.stream.stop) {x : Option UInt8} (htake : takeByte c = (x, d)) :
    SameResult R x d (some (FastCgi.takeByte c')) := by
  have hle := hr.rdNext_le h hopen
  obtain ⟨hbytes, htaken⟩ := hr.takeBytes h hopen (m := 1) (by omega)
  have hhead : (FastCgi.takeByte c').1 = (FastCgi.takeByte c).1 := congrArg List.head? hbytes
  obtain ⟨rfl, rfl⟩ := Prod.ext_iff.mp htake
  exact ⟨(FastCgi.takeByte c').2, congrArg some (Prod.ext hhead rfl), htaken⟩

theorem getChar (hr : ReadsSame R fill fill') (h : R c c') {x : Option UInt8}
    (hget : fcgxGetChar fill c = some (x, d)) : SameResult R x d (fcgxGetChar fill' c') := by
  obtain ⟨hclosed, hreader, hnext, hstop⟩ := hr.fields h
  rw [fcgxGetChar] at hget ⊢
  rw [hclosed, hreader, hnext, hstop]
  split at hget
  · next hguard =>
      cases hget
      rw [if_pos hguard]
      exact ⟨c', rfl, h⟩
  · next hguard =>
      have hopen := isClosed_of_readable hguard
      rw [if_neg hguard]
      split at hget
      · next hne =>
          rw [if_pos hne]
          exact hr.takeByte h hopen hne (Option.some.inj hget)
      · next heq =>
          rw [if_neg heq]
          split at hget
          · cases hget
          · next c₁ hc₁ =>
              obtain ⟨c₁', hc₁', h₁⟩ := hr.fill h hopen hc₁
              obtain ⟨hclosed₁, -, hnext₁, hstop₁⟩ := hr.fields h₁
              rw [hc₁']
              simp only
              rw [hclosed₁, hnext₁, hstop₁]
              split at hget
              · next hend =>
                  cases hget
                  rw [if_pos hend]
                  exact ⟨c₁', rfl, h₁⟩
              · next hopen₁ =>
                  rw [Bool.not_eq_true] at hopen₁
                  rw [if_neg (by simp [hopen₁])]
                  split at hget
                  · next hne =>
                      rw [if_pos hne]
                      exact hr.takeByte (hr.markUnget h₁) hopen₁ hne (Option.some.inj hget)
                  · cases hget

theorem getStrFill (hr : ReadsSame R fill fill') {bs : List UInt8} (h : R c c')
    {p : Pass (List UInt8 × Chan) (List UInt8 × Chan)} (hget : getStrFill fill (bs, c) = some p) :
    ∃ p', FastCgi.getStrFill fill' (bs, c') = some p' ∧
      p.Rel (fun x x' => PairAlike R x x' ∧ x.2.stream.isClosed = false) (PairAlike R) p' := by
  obtain ⟨hclosed, hreader, -, -⟩ := hr.fields h
  rw [FastCgi.getStrFill] at hget ⊢
  simp only at hget ⊢
  rw [hclosed, hreader]
  split at hget
  · next hguard =>
      cases hget
      rw [if_pos hguard]
      exact ⟨_, rfl, rfl, h⟩
  · next hguard =>
      rw [if_neg hguard]
      split at hget
      · cases hget
      · next c₁ hc₁ =>
          obtain ⟨c₁', hc₁', h₁⟩ := hr.fill h (isClosed_of_readable hguard) hc₁
          rw [hc₁']
          simp only
          rw [(hr.fields h₁).1]
          split at hget
          · next hend =>
              cases hget
              rw [if_pos hend]
              exact ⟨_, rfl, rfl, h₁⟩
          · next hopen₁ =>
              cases hget
              rw [if_neg hopen₁]
              exact ⟨_, rfl, ⟨rfl, hr.markUnget h₁⟩, Bool.eq_false_iff.mpr hopen₁⟩

theorem getStrBody (hr : ReadsSame R fill fill') {n : ℕ} {x x' : List UInt8 × Chan}
    (hbytes : x'.1 = x.1) (h : R x.2 x'.2) (hopen : x.2.stream.isClosed = false)
    {p : Pass (List UInt8 × Chan) (List UInt8 × Chan)} (hget : getStrBody fill n x = some p) :
    ∃ p', FastCgi.getStrBody fill' n x' = some p' ∧
      p.Rel (fun x x' => PairAlike R x x' ∧ x.2.stream.isClosed = false) (PairAlike R) p' := by
  obtain ⟨-, -, hnext, hstop⟩ := hr.fields h
  rw [FastCgi.getStrBody] at hget ⊢
  rw [hnext, hstop, hbytes]
  simp only at hget ⊢
  split at hget
  · next hempty =>
      rw [if_pos hempty]
      rcases x with ⟨bs, c⟩
      rcases x' with ⟨bs', c'⟩
      obtain rfl : bs' = bs := hbytes
      exact hr.getStrFill h hget
  · next hne =>
      rw [if_neg hne]
      obtain ⟨htaken, hrest⟩ := hr.takeBytes h hopen (Nat.min_le_right (n - x.1.length) _)
      rw [htaken]
      split at hget
      · next hall =>
          rw [if_pos hall]
          cases hget
          exact ⟨_, rfl, rfl, hrest⟩
      · next hmore =>
          rw [if_neg hmore]
          exact hr.getStrFill hrest hget

theorem getStr (hr : ReadsSame R fill fill') (h : R c c') {n : ℤ} {bs : List UInt8}
    (hget : fcgxGetStr fill n c = some (bs, d)) : SameResult R bs d (fcgxGetStr fill' n c') := by
  obtain ⟨hclosed, hreader, hnext, hstop⟩ := hr.fields h
  rw [fcgxGetStr] at hget ⊢
  rw [hclosed, hreader, hnext, hstop]
  split at hget
  · next hguard =>
      cases hget
      rw [if_pos hguard]
      exact ⟨c', rfl, h⟩
  · next hguard =>
      have hopen : c.stream.isClosed = false := by
        apply isClosed_of_readable
        intro hbad
        exact hguard (by rw [hbad]; rfl)
      rw [if_neg hguard]
      split at hget
      · next hfast =>
          rw [if_pos hfast]
          obtain ⟨hbytes, htaken⟩ := hr.takeBytes h hopen hfast
          obtain ⟨rfl, rfl⟩ := Prod.ext_iff.mp (Option.some.inj hget)
          exact ⟨(FastCgi.takeBytes n.toNat c').2, congrArg some (Prod.ext hbytes rfl), htaken⟩
      · next hslow =>
          rw [if_neg hslow]
          have hstart : PairAlike R (([] : List UInt8), c) ([], c') := ⟨rfl, h⟩
          obtain ⟨⟨bs', d'⟩, hrun, rfl, hrel⟩ :=
            run_rel (R := fun x x' => PairAlike R x x' ∧ x.2.stream.isClosed = false)
              (Q := PairAlike R)
              (fun x x' p hx hp => hr.getStrBody hx.1.1 hx.1.2 hx.2 hp) ⟨hstart, hopen⟩ hget
          exact ⟨d', hrun, hrel⟩

theorem readLength (hr : ReadsSame R fill fill') (h : R c c') {b : UInt8} {x : Option ℕ}
    (hread : readLength fill b c = some (x, d)) : SameResult R x d (readLength fill' b c') := by
  rw [FastCgi.readLength] at hread ⊢
  split at hread
  · next hlong =>
      rw [if_pos hlong]
      split at hread
      · cases hread
      · next b₂ b₁ b₀ c₁ hget =>
          obtain ⟨c₁', hget', h₁⟩ := hr.getStr h hget
          rw [hget']
          simp only
          split at hread
          · next hbad =>
              cases hread
              rw [if_pos hbad]
              exact ⟨c₁', rfl, h₁⟩
          · next hgood =>
              cases hread
              rw [if_neg hgood]
              exact ⟨c₁', rfl, h₁⟩
      · next bs c₁ hshort hget =>
          obtain ⟨c₁', hget', h₁⟩ := hr.getStr h hget
          cases hread
          rw [hget']
          refine ⟨c₁', ?_, h₁⟩
          split
          · next heq => cases heq
          · next heq =>
              cases heq
              exact (hshort _ _ _ rfl).elim
          · next heq =>
              cases heq
              rfl
  · next hshort =>
      cases hread
      rw [if_neg hshort]
      exact ⟨c', rfl, h⟩

theorem readNameValue (hr : ReadsSame R fill fill') (h : R c c') {nameLen valueLen : ℕ}
    {x : Option NameValue} (hread : readNameValue fill nameLen valueLen c = some (x, d)) :
    SameResult R x d (readNameValue fill' nameLen valueLen c') := by
  rw [FastCgi.readNameValue] at hread ⊢
  split at hread
  · next hbad =>
      cases hread
      rw [if_pos hbad]
      exact ⟨c', rfl, h⟩
  · next hgood =>
      rw [if_neg hgood]
      split at hread
      · cases hread
      · next name c₁ hname =>
          obtain ⟨c₁', hname', h₁⟩ := hr.getStr h hname
          rw [hname']
          simp only
          split at hread
          · next hlen =>
              cases hread
              rw [if_pos hlen]
              exact ⟨c₁', rfl, h₁⟩
          · next hlen =>
              rw [if_neg hlen]
              split at hread
              · cases hread
              · next value c₂ hvalue =>
                  obtain ⟨c₂', hvalue', h₂⟩ := hr.getStr h₁ hvalue
                  rw [hvalue']
                  simp only
                  split at hread
                  · next hlen' =>
                      cases hread
                      rw [if_pos hlen']
                      exact ⟨c₂', rfl, h₂⟩
                  · next hlen' =>
                      cases hread
                      rw [if_neg hlen']
                      exact ⟨c₂', rfl, h₂⟩

theorem readPair (hr : ReadsSame R fill fill') (h : R c c') {b : UInt8} {x : Option NameValue}
    (hread : readPair fill b c = some (x, d)) : SameResult R x d (readPair fill' b c') := by
  rw [FastCgi.readPair] at hread ⊢
  split at hread
  · cases hread
  · next c₁ hname =>
      obtain ⟨c₁', hname', h₁⟩ := hr.readLength h hname
      cases hread
      rw [hname']
      exact ⟨c₁', rfl, h₁⟩
  · next nameLen c₁ hname =>
      obtain ⟨c₁', hname', h₁⟩ := hr.readLength h hname
      rw [hname']
      simp only
      split at hread
      · cases hread
      · next c₂ hget =>
          obtain ⟨c₂', hget', h₂⟩ := hr.getChar h₁ hget
          cases hread
          rw [hget']
          exact ⟨c₂', rfl, h₂⟩
      · next b' c₂ hget =>
          obtain ⟨c₂', hget', h₂⟩ := hr.getChar h₁ hget
          rw [hget']
          simp only
          split at hread
          · cases hread
          · next c₃ hvalue =>
              obtain ⟨c₃', hvalue', h₃⟩ := hr.readLength h₂ hvalue
              cases hread
              rw [hvalue']
              exact ⟨c₃', rfl, h₃⟩
          · next valueLen c₃ hvalue =>
              obtain ⟨c₃', hvalue', h₃⟩ := hr.readLength h₂ hvalue
              rw [hvalue']
              exact hr.readNameValue h₃ hread

theorem readParamsBody (hr : ReadsSame R fill fill') {x x' : Params × Chan} (h : PairAlike R x x')
    {pass : Pass (Params × Chan) (ℤ × Params × Chan)}
    (hpass : readParamsBody fill x = some pass) :
    ∃ pass', FastCgi.readParamsBody fill' x' = some pass' ∧
      pass.Rel (PairAlike R) (fun y y' => y'.1 = y.1 ∧ PairAlike R y.2 y'.2) pass' := by
  rcases x with ⟨p, c⟩
  rcases x' with ⟨p', c'⟩
  obtain ⟨rfl, h⟩ := h
  rw [FastCgi.readParamsBody] at hpass ⊢
  simp only at hpass ⊢
  split at hpass
  · cases hpass
  · next c₁ hget =>
      obtain ⟨c₁', hget', h₁⟩ := hr.getChar h hget
      cases hpass
      rw [hget']
      exact ⟨_, rfl, rfl, rfl, h₁⟩
  · next b c₁ hget =>
      obtain ⟨c₁', hget', h₁⟩ := hr.getChar h hget
      rw [hget']
      simp only
      split at hpass
      · cases hpass
      · next c₂ hpair =>
          obtain ⟨c₂', hpair', h₂⟩ := hr.readPair h₁ hpair
          cases hpass
          rw [hpair']
          exact ⟨_, rfl, rfl, rfl, hr.setError h₂ _⟩
      · next nv c₂ hpair =>
          obtain ⟨c₂', hpair', h₂⟩ := hr.readPair h₁ hpair
          cases hpass
          rw [hpair']
          exact ⟨_, rfl, rfl, h₂⟩

theorem readParams (hr : ReadsSame R fill fill') (h : R c c') {p p' : Params} {rc : ℤ}
    (hread : readParams fill p c = some (rc, p', d)) :
    ∃ d', FastCgi.readParams fill' p c' = some (rc, p', d') ∧ R d d' := by
  rw [FastCgi.readParams] at hread ⊢
  rw [hr.unread h]
  have hstart : PairAlike R (p, c) (p, c') := ⟨rfl, h⟩
  obtain ⟨⟨rc', q, d'⟩, hrun, rfl, rfl, hrel⟩ :=
    run_rel (R := PairAlike R)
        (Q := fun (y y' : ℤ × Params × Chan) => y'.1 = y.1 ∧ PairAlike R y.2 y'.2)
      (fun _ _ _ hx hpass => hr.readParamsBody hx hpass) hstart hread
  exact ⟨d', hrun, hrel⟩

end ReadsSame

end Reading

/-! ### Reading a buffer -/

section Buffers

variable {fill : Chan → Option Chan} {c c' : Chan}

namespace Chan.ReadsAlike

/-- The fields that decide what is done next. -/
theorem fields (h : c.ReadsAlike c') :
    c'.stream.isClosed = c.stream.isClosed ∧ c'.stream.isReader = c.stream.isReader ∧
      c'.stream.rdNext = c.stream.rdNext ∧ c'.stream.stop = c.stream.stop := by
  obtain ⟨buff, rfl, -⟩ := h.same
  exact ⟨rfl, rfl, rfl, rfl⟩

theorem takeBytes (h : c.ReadsAlike c') (hopen : c.stream.isClosed = false) {m : ℕ}
    (hm : m ≤ c.stream.stop - c.stream.rdNext) :
    (takeBytes m c').1 = (takeBytes m c).1 ∧
      (FastCgi.takeBytes m c).2.ReadsAlike (FastCgi.takeBytes m c').2 := by
  obtain ⟨hle, hstop⟩ := h.ordered hopen
  refine ⟨h.same.slice_eq (by omega), ⟨⟨?_, ?_⟩, fun _ => ⟨?_, hstop⟩⟩⟩
  · exact h.same.stream (fun s => { s with rdNext := s.rdNext + m }) (fun _ _ => rfl) rfl
      (Nat.le_add_right _ m) (Nat.le_refl _)
  · show c.stream.rdNext + m ≤ c.stream.buffStop
    omega
  · show c.stream.rdNext + m ≤ c.stream.stop
    omega

theorem markUnget (h : c.ReadsAlike c') : (markUnget c).ReadsAlike (FastCgi.markUnget c') where
  same := h.same.stream (fun s => { s with stopUnget := s.rdNext }) (fun _ _ => rfl) rfl
    (Nat.le_refl _) (Nat.le_refl _)
  rdNext_le := h.rdNext_le
  ordered := h.ordered

theorem withReq (h : c.ReadsAlike c') (f : ReqData → ReqData) :
    Chan.ReadsAlike { c with req := f c.req } { c' with req := f c'.req } := by
  obtain ⟨⟨⟨buff, rfl, hcells⟩, hle⟩, hordered⟩ := h
  exact ⟨⟨⟨buff, rfl, hcells⟩, hle⟩, hordered⟩

theorem setError (h : c.ReadsAlike c') (e : ℤ) : (c.setError e).ReadsAlike (c'.setError e) where
  same := h.same.setError e
  rdNext_le := h.rdNext_le
  ordered hopen := by cases hopen

end Chan.ReadsAlike

theorem KeepsAlike.readsSame (hfill : KeepsAlike fill) :
    ReadsSame Chan.ReadsAlike fill fill where
  fields h := h.fields
  unread h := h.same.unread_eq
  rdNext_le h hopen := (h.ordered hopen).1
  takeBytes h hopen _ hm := h.takeBytes hopen hm
  markUnget h := h.markUnget
  setError h e := h.setError e
  fill h hopen _ hd := hfill _ _ _ h hopen hd

end Buffers

/-! ### Headers -/

section Headers

variable {fill : Chan → Option Chan} {c c' d : Chan} {status : Status}

namespace Chan.ReadsAlike

theorem sendReply (h : c.ReadsAlike c') {reply : List UInt8} {ok : Status}
    (hsend : sendReply reply ok c = (status, d)) :
    SameResult Chan.ReadsAlike status d (some (FastCgi.sendReply reply ok c')) := by
  have hos : c'.os = c.os := by
    obtain ⟨buff, rfl, -⟩ := h.same
    rfl
  rw [FastCgi.sendReply] at hsend ⊢
  rw [hos]
  split at hsend
  · next e os hwrite =>
      cases hsend
      refine ⟨_, rfl, ⟨(h.same.os os).setError e, h.rdNext_le⟩, ?_⟩
      intro hopen
      cases hopen
  · next os hwrite =>
      cases hsend
      exact ⟨_, rfl, ⟨h.same.os os, h.rdNext_le⟩, h.ordered⟩

theorem processManagementRecord (hfill : KeepsAlike fill) (h : c.ReadsAlike c') {type : ℕ}
    (hproc : processManagementRecord fill type c = some (status, d)) :
    SameResult Chan.ReadsAlike status d (processManagementRecord fill type c') := by
  rw [FastCgi.processManagementRecord] at hproc ⊢
  split at hproc
  · next hget =>
      rw [if_pos hget]
      split at hproc
      · cases hproc
      · next rc params c₁ hread =>
          obtain ⟨c₁', hread', h₁⟩ := hfill.readsSame.readParams h hread
          have hfields : c₁'.stream.fcgiErrno = c₁.stream.fcgiErrno ∧
              c₁'.stream.contentLen = c₁.stream.contentLen ∧ c₁'.os = c₁.os := by
            obtain ⟨buff, rfl, -⟩ := h₁.same
            exact ⟨rfl, rfl, rfl⟩
          rw [hread']
          simp only
          rw [hfields.1, hfields.2.1, hfields.2.2]
          split at hproc
          · next hbad =>
              cases hproc
              rw [if_pos hbad]
              exact ⟨c₁', rfl, h₁⟩
          · next hgood =>
              rw [if_neg hgood]
              exact h₁.sendReply (Option.some.inj hproc)
  · next hother =>
      rw [if_neg hother]
      exact h.sendReply (Option.some.inj hproc)

theorem readBegin (hfill : KeepsAlike fill) (h : c.ReadsAlike c')
    (hread : readBegin fill c = some (status, d)) :
    SameResult Chan.ReadsAlike status d (readBegin fill c') := by
  rw [FastCgi.readBegin] at hread ⊢
  split at hread
  · cases hread
  · next body c₁ hget =>
      obtain ⟨c₁', hget', h₁⟩ := hfill.readsSame.getStr h hget
      rw [hget']
      simp only
      split at hread
      · next hlen =>
          cases hread
          rw [if_pos hlen]
          exact ⟨c₁', rfl, h₁⟩
      · next hlen =>
          cases hread
          rw [if_neg hlen]
          exact ⟨_, rfl, h₁.withReq fun req => req.begin body⟩

theorem processBeginRecord (hfill : KeepsAlike fill) (h : c.ReadsAlike c') {requestId : ℕ}
    (hproc : processBeginRecord fill requestId c = some (status, d)) :
    SameResult Chan.ReadsAlike status d (processBeginRecord fill requestId c') := by
  have hfields : c'.stream.contentLen = c.stream.contentLen ∧ c'.req = c.req := by
    obtain ⟨buff, rfl, -⟩ := h.same
    exact ⟨rfl, rfl⟩
  rw [FastCgi.processBeginRecord] at hproc ⊢
  rw [hfields.1, hfields.2]
  split at hproc
  · next hbad =>
      cases hproc
      rw [if_pos hbad]
      exact ⟨c', rfl, h⟩
  · next hgood =>
      rw [if_neg hgood]
      split at hproc
      · next hbegun =>
          rw [if_pos hbegun]
          exact h.sendReply (Option.some.inj hproc)
      · next hawait =>
          rw [if_neg hawait]
          exact (h.withReq fun req => { req with requestId := requestId }).readBegin hfill hproc

theorem processHeader (hfill : KeepsAlike fill) (h : c.ReadsAlike c') {header : Header}
    (hproc : processHeader fill header c = some (status, d)) :
    SameResult Chan.ReadsAlike status d (processHeader fill header c') := by
  have hstart : (c.startRecord header).ReadsAlike (c'.startRecord header) := by
    refine ⟨⟨?_, h.rdNext_le⟩, h.ordered⟩
    exact h.same.stream
      (fun s => { s with
        contentLen := header.contentLength, paddingLen := header.paddingLength.toNat })
      (fun _ _ => rfl) rfl (Nat.le_refl _) (Nat.le_refl _)
  have hfields : (c'.startRecord header).req.requestId = (c.startRecord header).req.requestId ∧
      (c'.startRecord header).stream.type = (c.startRecord header).stream.type := by
    obtain ⟨buff, rfl, -⟩ := h.same
    exact ⟨rfl, rfl⟩
  rw [FastCgi.processHeader] at hproc ⊢
  split at hproc
  · next hversion =>
      cases hproc
      rw [if_pos hversion]
      exact ⟨c', rfl, h⟩
  · next hversion =>
      rw [if_neg hversion]
      rw [dispatchHeader] at hproc ⊢
      rw [hfields.1, hfields.2]
      split at hproc
      · next hbegin =>
          rw [if_pos hbegin]
          exact hstart.processBeginRecord hfill hproc
      · next hbegin =>
          rw [if_neg hbegin]
          split at hproc
          · next hnull =>
              rw [if_pos hnull]
              exact hstart.processManagementRecord hfill hproc
          · next hnull =>
              rw [if_neg hnull]
              split at hproc
              · next hother =>
                  cases hproc
                  rw [if_pos hother]
                  exact ⟨_, rfl, hstart⟩
              · next hown =>
                  rw [if_neg hown]
                  split at hproc
                  · next htype =>
                      cases hproc
                      rw [if_pos htype]
                      exact ⟨_, rfl, hstart⟩
                  · next htype =>
                      cases hproc
                      rw [if_neg htype]
                      exact ⟨_, rfl, hstart⟩

end Chan.ReadsAlike

/-- What has been read in full has not met the end. -/
theorem getStr_open {n : ℕ} (hn : 0 < n) {bs : List UInt8}
    (hget : fcgxGetStr fill n c = some (bs, d)) (hlen : bs.length = n) :
    d.stream.isClosed = false := by
  let I (x : List UInt8 × Chan) : Prop := x.1.length < n ∧ x.2.stream.isClosed = false
  let P (x : List UInt8 × Chan) : Prop := x.1.length = n → x.2.stream.isClosed = false
  have hfilled : ∀ {y : List UInt8 × Chan} {p : Pass (List UInt8 × Chan) (List UInt8 × Chan)},
      y.1.length < n → getStrFill fill y = some p → p.Holds I P := by
    intro y p hlt hpass
    rw [getStrFill] at hpass
    split at hpass
    · cases hpass
      exact fun hall => absurd hall (Nat.ne_of_lt hlt)
    · split at hpass
      · cases hpass
      · split at hpass
        · cases hpass
          exact fun hall => absurd hall (Nat.ne_of_lt hlt)
        · next hopen =>
            cases hpass
            exact ⟨hlt, Bool.eq_false_iff.mpr hopen⟩
  rw [fcgxGetStr] at hget
  split at hget
  · cases hget
    exact absurd hlen (Nat.ne_of_lt hn)
  · next hguard =>
      have hopen : c.stream.isClosed = false := by
        apply isClosed_of_readable
        intro hbad
        exact hguard (by rw [hbad]; rfl)
      rw [Int.toNat_natCast] at hget
      split at hget
      · cases hget
        exact hopen
      · refine run_invariant (I := I) (P := P) (fun x p hx hpass => ?_)
          (show I ([], c) from ⟨hn, hopen⟩) hget hlen
        dsimp only [getStrBody] at hpass
        split at hpass
        · exact hfilled hx.1 hpass
        · split at hpass
          · cases hpass
            exact fun _ => hx.2
          · next hmore =>
              have hle : (x.1 ++ (takeBytes (min (n - x.1.length)
                  (x.2.stream.stop - x.2.stream.rdNext)) x.2).1).length ≤ n := by
                have hx₁ := hx.1
                rw [List.length_append, takeBytes, length_slice]
                omega
              exact hfilled (Nat.lt_of_le_of_ne hle hmore) hpass

/-- A header that begins a request leaves the stream open. -/
theorem processHeader_begins {header : Header}
    (hproc : processHeader fill header c = some (.beginRecord, d)) :
    d.stream.isClosed = false := by
  cases interprets_processHeader hproc with
  | multiplexed _ _ hsend => rcases sendReply_status hsend with h | ⟨e, h⟩ <;> cases h
  | @begins body d _ hget hlen =>
      have hopen : d.stream.isClosed = false :=
        getStr_open (n := 8) (by decide) hget hlen
      exact hopen
  | query _ _ hsend => rcases sendReply_status hsend with h | ⟨e, h⟩ <;> cases h
  | unknown _ hsend => rcases sendReply_status hsend with h | ⟨e, h⟩ <;> cases h

end Headers

/-! ### The fill procedure -/

/-- Two stages that end alike. -/
def Stage.Alike : Stage → Stage → Prop
  | .leave c, .leave c' => c.ReadsAlike c'
  | .loop c, .loop c' => c.FillsAlike c'
  | .next c, .next c' => c.FillsAlike c'
  | _, _ => False

theorem Stage.Alike.bind {s s' : Stage} (h : s.Alike s') {f : Chan → Stage}
    (hf : ∀ c c' : Chan, c.FillsAlike c' → (f c).Alike (f c')) : (s.bind f).Alike (s'.bind f) := by
  cases s <;> cases s' <;> first | exact h.elim | exact hf _ _ h | exact h

section Filling

variable {fill : Chan → Option Chan} {c c' d : Chan}

/-- A stream that is closed can be in whatever order. -/
theorem Chan.FillsAlike.closed (h : c.FillsAlike c') (hclosed : c.stream.isClosed = true) :
    c.ReadsAlike c' := by
  refine ⟨h, fun hopen => ?_⟩
  rw [hclosed] at hopen
  cases hopen

theorem Chan.FillsAlike.setError (h : c.FillsAlike c') (e : ℤ) :
    (c.setError e).ReadsAlike (c'.setError e) :=
  Chan.FillsAlike.closed ⟨h.same.setError e, h.rdNext_le⟩ rfl

/-- Bytes of the buffer are passed. -/
theorem Chan.FillsAlike.stream (h : c.FillsAlike c') (f : Stream → Stream)
    (hf : ∀ s buff, f { s with buff := buff } = { f s with buff := buff })
    (hbuff : (f c.stream).buff = c.stream.buff) (hnext : c.stream.rdNext ≤ (f c.stream).rdNext)
    (hstop : (f c.stream).buffStop = c.stream.buffStop)
    (hle : (f c.stream).rdNext ≤ c.stream.buffStop) :
    Chan.FillsAlike { c with stream := f c.stream } { c' with stream := f c'.stream } where
  same := h.same.stream f hf hbuff hnext (Nat.le_of_eq hstop)
  rdNext_le := by rwa [hstop]

theorem refill_alike (h : c.FillsAlike c') : (refill c).Alike (refill c') := by
  obtain ⟨buff, rfl, hcells⟩ := h.same
  unfold refill
  by_cases hempty : c.stream.rdNext = c.stream.buffStop
  · rw [if_pos hempty, if_pos (by exact hempty)]
    -- both read from the same connection
    obtain ⟨res, os, hread⟩ : ∃ res os, osRead c.os c.stream.bufflen = (res, os) := ⟨_, _, rfl⟩
    have hread' : osRead (c.withBuff buff).os (c.withBuff buff).stream.bufflen = (res, os) := hread
    rw [hread, hread']
    cases res with
    | error e =>
        exact Chan.FillsAlike.setError ⟨h.same.os os, h.rdNext_le⟩ _
    | ok chunk =>
        simp only
        split
        · exact Chan.FillsAlike.setError ⟨h.same.os os, h.rdNext_le⟩ _
        · refine ⟨⟨store buff 0 chunk, rfl, fun k _ (hlt : k < chunk.length) => ?_⟩,
            Nat.zero_le _⟩
          have hk : ¬k < 0 := Nat.not_lt_zero k
          simp only [store, if_neg hk, Nat.sub_zero, List.getElem?_eq_getElem hlt,
            Option.getD_some]
  · rw [if_neg hempty, if_neg (by exact hempty)]
    exact h

theorem passContent_alike (h : c.FillsAlike c') : (passContent c).Alike (passContent c') := by
  have hle := h.rdNext_le
  have hsame := h.same
  have hpassed : c.stream.rdNext + min c.stream.contentLen
      (c.stream.buffStop - c.stream.rdNext) ≤ c.stream.buffStop := by omega
  obtain ⟨buff, rfl, -⟩ := h.same
  unfold passContent
  simp only
  by_cases hlen : 0 < c.stream.contentLen
  · rw [if_pos hlen, if_pos (show 0 < (c.withBuff buff).stream.contentLen from hlen)]
    by_cases hskip : (!c.stream.skip) = true
    · rw [if_pos hskip, if_pos (show (!(c.withBuff buff).stream.skip) = true from hskip)]
      refine ⟨⟨?_, hle⟩, fun _ => ⟨Nat.le_add_right _ _, hpassed⟩⟩
      exact hsame.stream (fun s => { s with
        contentLen := s.contentLen - min s.contentLen (s.buffStop - s.rdNext)
        stop := s.rdNext + min s.contentLen (s.buffStop - s.rdNext)
        wrNext := s.rdNext + min s.contentLen (s.buffStop - s.rdNext) })
        (fun _ _ => rfl) rfl (Nat.le_refl _) (Nat.le_refl _)
    · rw [if_neg hskip, if_neg (show ¬(!(c.withBuff buff).stream.skip) = true from hskip)]
      by_cases hmore : 0 < c.stream.contentLen - min c.stream.contentLen
          (c.stream.buffStop - c.stream.rdNext)
      · rw [if_pos hmore, if_pos (by exact hmore)]
        exact h.stream (fun s => { s with
          contentLen := s.contentLen - min s.contentLen (s.buffStop - s.rdNext)
          rdNext := s.rdNext + min s.contentLen (s.buffStop - s.rdNext) })
          (fun _ _ => rfl) rfl (Nat.le_add_right _ _) rfl hpassed
      · rw [if_neg hmore, if_neg (by exact hmore)]
        exact h.stream (fun s => { s with
          contentLen := s.contentLen - min s.contentLen (s.buffStop - s.rdNext)
          rdNext := s.rdNext + min s.contentLen (s.buffStop - s.rdNext), skip := false })
          (fun _ _ => rfl) rfl (Nat.le_add_right _ _) rfl hpassed
  · rw [if_neg hlen, if_neg (show ¬0 < (c.withBuff buff).stream.contentLen from hlen)]
    exact h

theorem passPadding_alike (h : c.FillsAlike c') : (passPadding c).Alike (passPadding c') := by
  have hle := h.rdNext_le
  have hpassed : c.stream.rdNext + min c.stream.paddingLen
      (c.stream.buffStop - c.stream.rdNext) ≤ c.stream.buffStop := by omega
  have hrel := h.stream (fun s => { s with
      paddingLen := s.paddingLen - min s.paddingLen (s.buffStop - s.rdNext)
      rdNext := s.rdNext + min s.paddingLen (s.buffStop - s.rdNext) })
    (fun _ _ => rfl) rfl (Nat.le_add_right _ _) rfl hpassed
  obtain ⟨buff, rfl, -⟩ := h.same
  unfold passPadding
  simp only
  by_cases hlen : 0 < c.stream.paddingLen
  · rw [if_pos hlen, if_pos (show 0 < (c.withBuff buff).stream.paddingLen from hlen)]
    by_cases hmore : 0 < c.stream.paddingLen - min c.stream.paddingLen
        (c.stream.buffStop - c.stream.rdNext)
    · rw [if_pos hmore, if_pos (by exact hmore)]
      exact hrel
    · rw [if_neg hmore, if_neg (by exact hmore)]
      exact hrel
  · rw [if_neg hlen, if_neg (show ¬0 < (c.withBuff buff).stream.paddingLen from hlen)]
    exact h

theorem checkEor_alike (h : c.FillsAlike c') : (checkEor c).Alike (checkEor c') := by
  have heor : c'.stream.eorStop = c.stream.eorStop := by
    obtain ⟨buff, rfl, -⟩ := h.same
    rfl
  unfold checkEor
  rw [heor]
  split
  · refine Chan.FillsAlike.closed ?_ rfl
    exact h.stream (fun s => { s with stop := s.rdNext, isClosed := true }) (fun _ _ => rfl) rfl
      (Nat.le_refl _) rfl h.rdNext_le
  · exact h

theorem beforeHeader_alike (h : c.FillsAlike c') : (beforeHeader c).Alike (beforeHeader c') :=
  (((refill_alike h).bind fun _ _ => passContent_alike).bind fun _ _ => passPadding_alike).bind
    fun _ _ => checkEor_alike

theorem enterRecord_alike (h : c.FillsAlike c') (n : ℕ)
    (hn : n ≤ c.stream.buffStop - c.stream.rdNext) :
    (enterRecord (c.moveNext n)).ReadsAlike (enterRecord (c'.moveNext n)) := by
  have hle := h.rdNext_le
  have hnext : c.stream.rdNext + n ≤ c.stream.buffStop := by omega
  have hrel := h.stream
    (fun s => { s with rdNext := s.rdNext + n, eorStop := true, stop := s.rdNext + n })
    (fun _ _ => rfl) rfl (Nat.le_add_right _ n) rfl hnext
  exact ⟨hrel, fun _ => ⟨Nat.le_refl _, hnext⟩⟩

/-- What follows `ProcessHeader`. -/
theorem onStatus_alike {status : Status} (hreads : c.ReadsAlike c')
    (hbegin : status = .beginRecord → c.stream.isClosed = false)
    {p : Pass (List UInt8 × Chan) Chan} (hpass : onStatus status (leaveRecord c) = some p) :
    ∃ p', onStatus status (leaveRecord c') = some p' ∧
      p.Rel (fun x x' => x'.1 = x.1 ∧ x.2.FillsAlike x'.2) Chan.ReadsAlike p' := by
  have h := hreads.toFillsAlike
  have hleft : (leaveRecord c).FillsAlike (leaveRecord c') :=
    h.stream (fun s => { s with eorStop := false, isClosed := false }) (fun _ _ => rfl) rfl
      (Nat.le_refl _) rfl h.rdNext_le
  have hcontent : (leaveRecord c').stream.contentLen = (leaveRecord c).stream.contentLen := by
    obtain ⟨buff, rfl, -⟩ := h.same
    rfl
  cases status with
  | streamRecord =>
      rw [onStatus] at hpass ⊢
      rw [hcontent]
      split at hpass
      · next hzero =>
          cases hpass
          rw [if_pos hzero]
          refine ⟨_, rfl, Chan.FillsAlike.closed ?_ rfl⟩
          exact hleft.stream (fun s => { s with
            wrNext := s.rdNext, stop := s.rdNext, isClosed := true }) (fun _ _ => rfl) rfl
            (Nat.le_refl _) rfl h.rdNext_le
      · next hzero =>
          cases hpass
          rw [if_neg hzero]
          exact ⟨_, rfl, rfl, hleft⟩
  | skip =>
      cases hpass
      refine ⟨_, rfl, rfl, ?_⟩
      exact hleft.stream (fun s => { s with skip := true }) (fun _ _ => rfl) rfl
        (Nat.le_refl _) rfl h.rdNext_le
  | beginRecord =>
      cases hpass
      exact ⟨_, rfl, hleft, fun _ => hreads.ordered (hbegin rfl)⟩
  | mgmtRecord =>
      cases hpass
      exact ⟨_, rfl, rfl, hleft⟩
  | error e =>
      rw [onStatus] at hpass ⊢
      split at hpass
      · next hneg =>
          cases hpass
          rw [if_pos hneg]
          exact ⟨_, rfl, hleft.setError e⟩
      · cases hpass

theorem passHeader_alike (hfill : KeepsAlike fill) {hdr : List UInt8}
    (h : c.FillsAlike c') {p : Pass (List UInt8 × Chan) Chan}
    (hpass : passHeader fill hdr c = some p) :
    ∃ p', passHeader fill hdr c' = some p' ∧
      p.Rel (fun x x' => x'.1 = x.1 ∧ x.2.FillsAlike x'.2) Chan.ReadsAlike p' := by
  obtain ⟨n, hn⟩ : ∃ n, n = min (8 - hdr.length) (c.stream.buffStop - c.stream.rdNext) := ⟨_, rfl⟩
  have hcollect : collectHeader hdr c =
      (hdr ++ slice c.stream.buff c.stream.rdNext n, c.moveNext n) := by
    rw [hn]
    rfl
  have hcollect' : collectHeader hdr c' =
      (hdr ++ slice c.stream.buff c.stream.rdNext n, c'.moveNext n) := by
    rw [← h.same.slice_eq (by omega), hn]
    obtain ⟨buff, rfl, -⟩ := h.same
    rfl
  have hheader := enterRecord_alike h n (by omega)
  rw [passHeader_eq, hcollect] at hpass
  rw [passHeader_eq, hcollect']
  split at hpass
  · next hshort =>
      cases hpass
      rw [if_pos hshort]
      refine ⟨_, rfl, rfl, ?_⟩
      have hle := h.rdNext_le
      exact h.stream (fun s => { s with rdNext := s.rdNext + n }) (fun _ _ => rfl) rfl
        (Nat.le_add_right _ n) rfl (by dsimp only; omega)
  · next hfull =>
      rw [if_neg hfull]
      split at hpass
      · cases hpass
      · next status d hproc =>
          obtain ⟨d', hproc', hrel⟩ := hheader.processHeader hfill hproc
          rw [hproc']
          refine onStatus_alike hrel ?_ hpass
          rintro rfl
          exact processHeader_begins hproc

theorem fillBuffProcBody_alike (hfill : KeepsAlike fill) {x x' : List UInt8 × Chan}
    (hhdr : x'.1 = x.1) (h : x.2.FillsAlike x'.2) {p : Pass (List UInt8 × Chan) Chan}
    (hpass : fillBuffProcBody fill x = some p) :
    ∃ p', fillBuffProcBody fill x' = some p' ∧
      p.Rel (fun x x' => x'.1 = x.1 ∧ x.2.FillsAlike x'.2) Chan.ReadsAlike p' := by
  have hstage := beforeHeader_alike h
  rw [fillBuffProcBody_eq] at hpass ⊢
  cases hs : beforeHeader x.2 with
  | leave c =>
      rw [hs] at hpass hstage
      cases hs' : beforeHeader x'.2 with
      | leave c' =>
          rw [hs'] at hstage
          cases hpass
          exact ⟨_, rfl, hstage⟩
      | loop c' | next c' =>
          rw [hs'] at hstage
          exact hstage.elim
  | loop c =>
      rw [hs] at hpass hstage
      cases hs' : beforeHeader x'.2 with
      | loop c' =>
          rw [hs'] at hstage
          cases hpass
          exact ⟨_, rfl, hhdr, hstage⟩
      | leave c' | next c' =>
          rw [hs'] at hstage
          exact hstage.elim
  | next c =>
      rw [hs] at hpass hstage
      cases hs' : beforeHeader x'.2 with
      | next c' =>
          rw [hs'] at hstage
          simp only
          rw [hhdr]
          exact passHeader_alike hfill hstage hpass
      | leave c' | loop c' =>
          rw [hs'] at hstage
          exact hstage.elim

theorem keepsAlike_fillBuffProcAt (d : ℕ) : KeepsAlike (fillBuffProcAt d) := by
  induction d with
  | zero =>
      intro c c' e _ _ hrun
      cases hrun
  | succ d ih =>
      intro c c' e h _ hrun
      rw [fillBuffProcAt] at hrun ⊢
      rw [h.same.unread_eq]
      exact run_rel (R := fun x x' => x'.1 = x.1 ∧ x.2.FillsAlike x'.2)
        (fun _ _ _ hx hpass => fillBuffProcBody_alike ih hx.1 hx.2 hpass)
        (show _ ∧ _ from ⟨rfl, h.toFillsAlike⟩) hrun

/-- **`FillBuffProc` reads only what is ahead.** -/
theorem keepsAlike_fillBuffProc : KeepsAlike fillBuffProc := keepsAlike_fillBuffProcAt 2

end Filling

end FastCgi
