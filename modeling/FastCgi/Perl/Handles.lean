import FastCgi.Perl.Programs

/-!
Perl programs whose objects have handles of their own.

`sv_magic` leaves a handle alone that is tied already, so an object whose
handles are in use binds itself without being tied to them, and unties them
from the other object when it is finished. Where no two objects share a handle
and the program does not tie the handles itself, a handle is tied to the stream
of its own request exactly as long as this is bound (`perl_handles`).
-/

namespace FastCgi

namespace Perl

open ByteMem Machine

/-! ### One object -/

/-- The handles of the object are tied to its streams as long as it is bound, and to nothing else
otherwise. -/
def OwnTies (i : ℕ) (x : FcgpRequest × Process) : Prop :=
  ∀ which, x.2.magic (x.1.gv which) = if x.1.bound then some (.stream i which) else none

section Objects

variable {i : ℕ} {x y : FcgpRequest × Process} {l : Option CoreCall} {calls : List CoreCall}
  {r : FcgpRequest} {p : Process}

theorem untied_self (r : FcgpRequest) (p : Process) (which : RequestStream) :
    (p.untied r).magic (r.gv which) = none := by
  rw [Option.eq_none_iff_forall_ne_some]
  exact fun t ht => (untied_magic ht).2 which rfl

theorem untied_of_ne {handle : ℕ} (h : ∀ which, r.gv which ≠ handle) :
    (p.untied r).magic handle = p.magic handle := by
  have hin : handle ≠ r.gv .input := (h .input).symm
  have hout : handle ≠ r.gv .out := (h .out).symm
  have herr : handle ≠ r.gv .err := (h .err).symm
  simp only [Process.untied, Function.update_of_ne herr, Function.update_of_ne hout,
    Function.update_of_ne hin]

theorem tieAt_self {magic : ℕ → Option Tie} {handle : ℕ} (h : magic handle = none) (t : Tie) :
    tieAt magic handle t handle = some t := by
  rw [tieAt, Function.update_self, h, Option.getD_none]

theorem tieAt_of_ne {magic : ℕ → Option Tie} {k handle : ℕ} (h : handle ≠ k) (t : Tie) :
    tieAt magic k t handle = magic handle := Function.update_of_ne h ..

theorem tiedTo_self (hinj : Function.Injective r.gv) (hnone : ∀ which, p.magic (r.gv which) = none)
    (which : RequestStream) : (p.tiedTo i r).magic (r.gv which) = some (.stream i which) := by
  have hinout : r.gv .input ≠ r.gv .out := hinj.ne (by decide)
  have hinerr : r.gv .input ≠ r.gv .err := hinj.ne (by decide)
  have houterr : r.gv .out ≠ r.gv .err := hinj.ne (by decide)
  simp only [Process.tiedTo]
  cases which with
  | input =>
      refine tieAt_self ?_ _
      rw [tieAt_of_ne hinerr, tieAt_of_ne hinout]
      exact hnone .input
  | out =>
      rw [tieAt_of_ne hinout.symm, tieAt_of_ne houterr]
      exact tieAt_self (hnone .out) _
  | err =>
      rw [tieAt_of_ne hinerr.symm]
      refine tieAt_self ?_ _
      rw [tieAt_of_ne houterr.symm]
      exact hnone .err

theorem tiedTo_of_ne {handle : ℕ} (h : ∀ which, r.gv which ≠ handle) :
    (p.tiedTo i r).magic handle = p.magic handle := by
  simp only [Process.tiedTo, tieAt_of_ne (h .input).symm, tieAt_of_ne (h .err).symm,
    tieAt_of_ne (h .out).symm]

/-- Other handles are left alone. -/
theorem Change.frame (hchange : Change i x l y) {handle : ℕ}
    (h : ∀ which, x.1.gv which ≠ handle) : y.2.magic handle = x.2.magic handle := by
  cases hchange with
  | cgi | free | refused | stream => rfl
  | undoBinding | finish => exact untied_of_ne h
  | bind | accepted => exact tiedTo_of_ne h

theorem Does.frame (hdoes : Does i x calls y) {handle : ℕ} (h : ∀ which, x.1.gv which ≠ handle) :
    y.2.magic handle = x.2.magic handle := by
  obtain ⟨labels, hruns, -⟩ := hdoes
  have hframe := hruns.invariant
    (I := fun z => z.1.gv = x.1.gv ∧ z.2.magic handle = x.2.magic handle)
    (fun z l z' ih hchange => ?_) ⟨rfl, rfl⟩
  · exact hframe.2
  · refine ⟨(Change.sameRefs hchange).gv.trans ih.1, ?_⟩
    rw [Change.frame hchange fun which => by rw [ih.1]; exact h which]
    exact ih.2

/-- **A change keeps the handles of the object tied** to its streams as long as it is bound. -/
theorem Change.ownTies (hinv : x.1.Inv) (hinj : Function.Injective x.1.gv) (h : OwnTies i x)
    (hchange : Change i x l y) : OwnTies i y := by
  intro which
  cases hchange with
  | cgi isCGI beenHere => exact h which
  | undoBinding hacc => exact untied_self _ _ which
  | @bind r p hacc hbound =>
      refine tiedTo_self hinj (fun w => ?_) which
      rw [h w, if_neg (Bool.eq_false_iff.mp hbound)]
  | finish hacc hbound hq => exact untied_self _ _ which
  | free hacc hbound => exact h which
  | refused hacc hr hrc => exact h which
  | @accepted r p pending rc o hacc hr hrc hashes =>
      have hbound : r.bound = false := hinv.bound_eq hacc
      refine tiedTo_self hinj (fun w => ?_) which
      rw [h w, if_neg (Bool.eq_false_iff.mp hbound)]
  | stream hq => exact h which

theorem Does.ownTies (hdoes : Does i x calls y) (hinv : x.1.Inv) (hinj : Function.Injective x.1.gv)
    (h : OwnTies i x) : OwnTies i y := by
  obtain ⟨labels, hruns, -⟩ := hdoes
  have hties := hruns.invariant (I := fun z => z.1.Inv ∧ z.1.gv = x.1.gv ∧ OwnTies i z)
    (fun z l z' ih hchange => ?_) ⟨hinv, rfl, h⟩
  · exact hties.2.2
  · obtain ⟨hz, hgv, hties⟩ := ih
    exact ⟨FcgpRequest.Inv.change hz hchange, (Change.sameRefs hchange).gv.trans hgv,
      Change.ownTies hz (by rw [hgv]; exact hinj) hties hchange⟩

end Objects

/-! ### Programs -/

/-- No two objects share a handle, and the handles are tied to the streams of their own
requests. -/
structure Process.OwnHandles (p : Process) : Prop where
  injective : ∀ i r, p.requests i = some r → Function.Injective r.gv
  apart : ∀ i j r r' which which', p.requests i = some r → p.requests j = some r' → i ≠ j →
    r.gv which ≠ r'.gv which'
  ties : ∀ i r, p.requests i = some r → OwnTies i (r, p)

/-- A handle of the object `i`. -/
def Process.handle (p : Process) (i : ℕ) (which : RequestStream) : Option ℕ :=
  (p.requests i).map fun r => r.gv which

/-- The program makes objects with new handles, and does not tie them itself. -/
def Process.Separate (p : Process) : Op → Prop
  | .request gv _ _ _ _ _ => (∀ which which', gv which = gv which' → which = which') ∧
      (∀ which, p.magic (gv which) = none) ∧
      ∀ which, ∀ i < p.next, ∀ which', p.handle i which' ≠ some (gv which)
  | .tie handle | .untie handle => ∀ i < p.next, ∀ which, p.handle i which ≠ some handle
  | _ => True

instance (p : Process) : ∀ op, Decidable (p.Separate op)
  | .request _ _ _ _ _ _ => inferInstanceAs (Decidable (_ ∧ _ ∧ _))
  | .tie _ | .untie _ => inferInstanceAs (Decidable (∀ i < p.next, ∀ which, p.handle i which ≠ _))
  | .accept _ _ _ | .finish _ | .flush _ | .detach _ | .attach _ | .startFilterData _ | .destroy _
  | .call _ _ | .make _ | .take _ | .drop _ => instDecidableTrue

section Programs

variable {p p' : Process} {r r' : FcgpRequest} {i : ℕ} {op : Op}

/-- **An object that has changed** is stored. -/
theorem Process.OwnHandles.put (h : p.OwnHandles) (hinv : p.Inv) (hr : p.requests i = some r)
    {calls : List CoreCall} (hdoes : Does i (r, p) calls (r', p')) : (p'.put i r').OwnHandles := by
  have hsame := hdoes.sameRefs
  have hgv : r'.gv = r.gv := hsame.gv
  have hother {j : ℕ} (hj : j ≠ i) : (p'.put i r').requests j = p.requests j :=
    (p'.put_of_ne hj r').trans (congrFun hsame.requests j)
  -- an object that is stored has the handles of one that was there before
  have hbefore {j : ℕ} {r₁ : FcgpRequest} (hj : (p'.put i r').requests j = some r₁) :
      ∃ r₀, p.requests j = some r₀ ∧ r₁.gv = r₀.gv := by
    by_cases heq : j = i
    · subst heq
      obtain rfl : r' = r₁ := Option.some.inj ((p'.put_self j r').symm.trans hj)
      exact ⟨r, hr, hgv⟩
    · exact ⟨r₁, (hother heq).symm.trans hj, rfl⟩
  refine ⟨fun j r₁ hj => ?_, fun j k r₁ r₂ which which' hj hk hne => ?_, fun j r₁ hj => ?_⟩
  · obtain ⟨r₀, hr₀, hgv₀⟩ := hbefore hj
    rw [hgv₀]
    exact h.injective j r₀ hr₀
  · obtain ⟨r₀, hr₀, hgv₀⟩ := hbefore hj
    obtain ⟨r₀', hr₀', hgv₀'⟩ := hbefore hk
    rw [hgv₀, hgv₀']
    exact h.apart j k r₀ r₀' which which' hr₀ hr₀' hne
  · by_cases heq : j = i
    · subst heq
      obtain rfl : r' = r₁ := Option.some.inj ((p'.put_self j r').symm.trans hj)
      exact hdoes.ownTies (hinv.request j r hr) (h.injective j r hr) (h.ties j r hr)
    · have hj₀ : p.requests j = some r₁ := (hother heq).symm.trans hj
      intro which
      have hframe : p'.magic (r₁.gv which) = p.magic (r₁.gv which) :=
        hdoes.frame fun which' => h.apart i j r r₁ which' which hr hj₀ (Ne.symm heq)
      exact hframe.trans (h.ties j r₁ hj₀ which)

theorem Process.Inv.gv_ne (h : p.Inv) (hr : p.requests i = some r) {handle : ℕ}
    (hne : ∀ j < p.next, ∀ which, p.handle j which ≠ some handle) (which : RequestStream) :
    r.gv which ≠ handle := by
  rintro rfl
  refine hne i (h.lt i r hr) which ?_
  rw [Process.handle, hr, Option.map_some]

/-- The objects are the same ones, or fewer, and their handles are tied as they were. -/
theorem Process.OwnHandles.of_kept (h : p.OwnHandles)
    (hrequests : ∀ j r, p'.requests j = some r → p.requests j = some r)
    (hmagic : ∀ j r which, p'.requests j = some r →
      p'.magic (r.gv which) = p.magic (r.gv which)) : p'.OwnHandles where
  injective j r hr := h.injective j r (hrequests j r hr)
  apart j k r r' which which' hr hr' :=
    h.apart j k r r' which which' (hrequests j r hr) (hrequests k r' hr')
  ties j r hr which := (hmagic j r which hr).trans (h.ties j r (hrequests j r hr) which)

/-- **A new object.** -/
theorem Process.OwnHandles.newRequest (h : p.OwnHandles) (hinv : p.Inv)
    {gv : RequestStream → ℕ} {env : ℕ} {socket : ℤ} {mBuffIn mBuffOut mBuffErr : ℕ}
    (hsep : p.Separate (.request gv env socket mBuffIn mBuffOut mBuffErr))
    (hstep : p.step (.request gv env socket mBuffIn mBuffOut mBuffErr) = some p') :
    p'.OwnHandles := by
  obtain ⟨hinj, huntied, hnew⟩ := hsep
  have hapart {j : ℕ} {r : FcgpRequest} (hj : p.requests j = some r)
      (which which' : RequestStream) : r.gv which ≠ gv which' := hinv.gv_ne hj (hnew which') which
  obtain ⟨r₀, hinv₀, hgv₀, hacc₀, -, hmade⟩ :=
    newRequest_step p gv env socket mBuffIn mBuffOut mBuffErr
  obtain rfl := Option.some.inj (hmade.symm.trans hstep)
  have hcases {j : ℕ} {r : FcgpRequest} (hj : (p.put p.next r₀).requests j = some r) :
      p.requests j = some r ∧ j ≠ p.next ∨ j = p.next ∧ r.gv = gv ∧ r.bound = false := by
    by_cases heq : j = p.next
    · subst heq
      obtain rfl := Option.some.inj ((p.put_self _ r₀).symm.trans hj)
      exact .inr ⟨rfl, hgv₀, hinv₀.bound_eq hacc₀⟩
    · exact .inl ⟨(p.put_of_ne heq r₀).symm.trans hj, heq⟩
  refine ⟨fun j r hj => ?_, fun j k r r' which which' hj hk hne => ?_, fun j r hj which => ?_⟩
  · obtain ⟨hj, -⟩ | ⟨-, hgv, -⟩ := hcases hj
    · exact h.injective j r hj
    · rw [hgv]
      exact hinj
  · obtain ⟨hj, -⟩ | ⟨rfl, hgv, -⟩ := hcases hj
    · obtain ⟨hk, -⟩ | ⟨-, hgv', -⟩ := hcases hk
      · exact h.apart j k r r' which which' hj hk hne
      · rw [hgv']
        exact hapart hj which which'
    · obtain ⟨hk, -⟩ | ⟨rfl, -⟩ := hcases hk
      · rw [hgv]
        exact (hapart hk which' which).symm
      · exact absurd rfl hne
  · show p.magic (r.gv which) = if r.bound then some (.stream j which) else none
    obtain ⟨hj, -⟩ | ⟨-, hgv, hbound⟩ := hcases hj
    · exact h.ties j r hj which
    · rw [hgv, hbound, huntied which]
      rfl

/-- **Every operation** leaves the objects their own handles. -/
theorem Process.OwnHandles.step (h : p.OwnHandles) (hinv : p.Inv) (hsep : p.Separate op)
    (hstep : p.Steps op p') : p'.OwnHandles := by
  have hinv' := hinv.step hstep
  cases ht : op.target with
  | some i =>
      obtain ⟨r, y, hr, hdoes, rfl⟩ := hinv.object_step ht hstep
      exact h.put hinv hr hdoes
  | none =>
      obtain ⟨hallows, hstep⟩ := hstep
      cases op with
      | accept | finish | flush | detach | attach | startFilterData => cases ht
      | request => exact h.newRequest hinv hsep hstep
      | destroy i =>
          obtain ⟨r, hr⟩ := Option.isSome_iff_exists.mp hallows
          obtain ⟨p₁, y, hdrops, hdoes, -, rfl⟩ := hinv.destroy_step hr hstep
          have hsame := hdoes.sameRefs
          have hstill {j : ℕ} {r' : FcgpRequest}
              (hj : Function.update y.2.requests i none j = some r') :
              j ≠ i ∧ p.requests j = some r' := by
            have hne : j ≠ i := by
              rintro rfl
              rw [Function.update_self] at hj
              cases hj
            rw [Function.update_of_ne hne, hsame.requests, hdrops.requests] at hj
            exact ⟨hne, hj⟩
          refine h.of_kept (fun j r' hj => (hstill hj).2) fun j r' which hj => ?_
          obtain ⟨hne, hj'⟩ := hstill hj
          have halive : p₁.refcnt (r'.gv which) ≠ 0 := by
            have halive : y.2.refcnt (r'.gv which) ≠ 0 := hinv'.alive hj which
            rwa [hsame.refcnt] at halive
          show y.2.magic (r'.gv which) = p.magic (r'.gv which)
          rw [← hdrops.kept _ halive]
          exact hdoes.frame fun which' => h.apart i j r r' which' which hr hj' hne.symm
      | call handle call =>
          obtain ⟨-, hcall⟩ | ⟨i, which, r, r', -, hr, hchange, hcall⟩ :=
            hinv.callHandle hallows call
          · obtain rfl := Option.some.inj (hcall.symm.trans hstep)
            exact h
          · obtain rfl := Option.some.inj (hcall.symm.trans hstep)
            exact h.put hinv hr hchange.does
      | make a =>
          obtain rfl := Option.some.inj hstep
          refine h.of_kept (fun _ _ hr => hr) fun j r which hr => Function.update_of_ne ?_ ..
          rintro rfl
          exact hinv.alive hr which hallows
      | take a =>
          obtain rfl := Option.some.inj hstep
          exact h.of_kept (fun _ _ hr => hr) fun _ _ _ _ => rfl
      | drop a =>
          have hrefs := hinv.refs a
          have hheld : p.held a ≠ 0 := hallows
          obtain ⟨p₁, hp₁, hdrops⟩ := svRefcntDec_drops (p := p) (a := a) (by omega)
          rw [Process.step, hp₁, Option.map_some] at hstep
          obtain rfl := Option.some.inj hstep
          have hstill {j : ℕ} {r : FcgpRequest} (hj : p₁.requests j = some r) :
              p.requests j = some r := by rwa [hdrops.requests] at hj
          exact h.of_kept (fun j r hj => hstill hj) fun j r which hj =>
            hdrops.kept _ (hinv'.alive hj which)
      | tie handle | untie handle =>
          obtain rfl := Option.some.inj hstep
          exact h.of_kept (fun _ _ hr => hr) fun j r which hr =>
            Function.update_of_ne (hinv.gv_ne hr hsep which) ..

end Programs

theorem ownHandles_start : Process.start.OwnHandles where
  injective i r hr := by cases hr
  apart i j r r' which which' hr := by cases hr
  ties i r hr := by cases hr

/-- **The handles of an object.** In every run of a program whose objects have handles of their own,
a call through a handle of an object goes to the stream of its request as long as the object is
bound, and to the file of the process otherwise. -/
theorem perl_handles {ops : List Op} {p : Process}
    (h : Runs (Guarded Process.Separate Process.Steps) Process.start ops p) {i : ℕ}
    {r : FcgpRequest} (hr : p.requests i = some r) (which : RequestStream) (call : MethodCall) :
    if r.bound then ∃ r', r.callStream which call.streamCall = some r' ∧
        p.step (.call (r.gv which) call) = some (p.put i r')
      else p.step (.call (r.gv which) call) = some p := by
  obtain ⟨hinv, hown⟩ := h.invariant (I := fun p => p.Inv ∧ p.OwnHandles)
    (fun p op p' hp hstep => ⟨hp.1.step hstep.2, hp.2.step hp.1 hstep.1 hstep.2⟩)
    ⟨inv_start, ownHandles_start⟩
  have hmagic : p.magic (r.gv which) = if r.bound then some (.stream i which) else none :=
    hown.ties i r hr which
  have halive : p.refcnt (r.gv which) ≠ 0 := hinv.alive hr which
  split
  · next hbound =>
      rw [if_pos hbound] at hmagic
      obtain ⟨r', hr', -⟩ := (hinv.request i r hr).callStream (p := p) (i := i)
        ((hinv.request i r hr).bound hbound) which call.streamCall
      refine ⟨r', hr', ?_⟩
      rw [Process.step, Process.callHandle, if_neg halive, hmagic]
      simp only [hr, Option.bind_some, hr', Option.map_some]
  · next hbound =>
      rw [if_neg hbound] at hmagic
      rw [Process.step, Process.callHandle, if_neg halive, hmagic]

/-- Two objects that serve at the same time. -/
def twoObjectsOps : List Op :=
  (List.range 8).map .make ++
    [.request (fun | .input => 0 | .out => 1 | .err => 2) 3 0 0 0 0,
      .request (fun | .input => 4 | .out => 5 | .err => 6) 7 5 0 0 0,
      .accept 0 false [.ok (.sending plainRequest [] [])],
      .accept 1 false [.ok (.sending plainRequest [] [])], .detach 0]

theorem perl_handles_two :
    ∃ p r r' r'', Runs (Guarded Process.Separate Process.Steps) Process.start twoObjectsOps p ∧
      p.requests 0 = some r ∧ p.requests 1 = some r' ∧ p.step (.call (r.gv .out) .fflush) = some p ∧
      p.step (.call (r'.gv .out) .fflush) = some (p.put 1 r'') := by
  have hrun : (exec (guardStep Process.Separate (guardStep Process.Allows Process.step))
      Process.start twoObjectsOps).map
        (fun p => ((p.requests 0).map (·.bound), (p.requests 1).map (·.bound))) =
      some (some false, some true) := by
    decide +kernel
  obtain ⟨p, hp, hstate⟩ := Option.map_eq_some_iff.mp hrun
  simp only [Prod.mk.injEq, Option.map_eq_some_iff] at hstate
  obtain ⟨⟨r, hr, hbound⟩, r', hr', hbound'⟩ := hstate
  have hruns : Runs (Guarded Process.Separate Process.Steps) Process.start twoObjectsOps p := by
    refine .of_exec_guardStep (fun s op t h => ?_) hp
    rw [guardStep] at h
    split at h
    · exact ⟨‹_›, h⟩
    · cases h
  have hcall := perl_handles hruns hr .out .fflush
  have hcall' := perl_handles hruns hr' .out .fflush
  rw [hbound, if_neg Bool.false_ne_true] at hcall
  rw [hbound', if_pos rfl] at hcall'
  obtain ⟨r'', -, hcall'⟩ := hcall'
  exact ⟨p, r, r', r'', hruns, hr, hr', hcall, hcall'⟩

end Perl

end FastCgi
