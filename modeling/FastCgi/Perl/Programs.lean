import FastCgi.Perl.Changes
import Mathlib.Algebra.BigOperators.Group.Finset.Basic
import Mathlib.Algebra.Order.BigOperators.Group.Finset

/-!
Programs that use the Perl binding.

A program may have any number of request objects, with handles of their own
or not, and do with them and with its references to the handles what it
likes. Whatever it does, no handle is tied to a stream that has been freed
(`Process.Inv`), and every operation returns but two (`perl_total`): `Accept`
of a request with a name that hides its `=`, and `DESTROY` of an object that
is bound to a handle that nothing else refers to. `FCGI_Release_Request` drops
its references before `FCGI_Finish` has untied the handles.
-/

namespace FastCgi

namespace Perl

open ByteMem Machine

/-! ### Processes in order -/

/-- The references of the object `i` to `a`. -/
def Process.slotCount (p : Process) (a i : ℕ) : ℕ :=
  (p.requests i).elim 0 fun r => r.slots.count a

theorem Process.slotCount_congr {p p' : Process} (h : p'.requests = p.requests) (a : ℕ) :
    p'.slotCount a = p.slotCount a := by
  ext1 i
  rw [Process.slotCount, Process.slotCount, h]

/-- The counts are right, the objects are in order, and a handle that is tied to a stream of a
request is a handle of this request, which is bound. -/
structure Process.Inv (p : Process) : Prop where
  refs : ∀ a, p.refcnt a = p.held a + ∑ i ∈ Finset.range p.next, p.slotCount a i
  lt : ∀ i r, p.requests i = some r → i < p.next
  request : ∀ i r, p.requests i = some r → r.Inv
  tied : ∀ h i which, p.magic h = some (.stream i which) →
    ∃ r, p.requests i = some r ∧ r.bound = true ∧ r.gv which = h

section Processes

variable {p p' : Process} {r r' : FcgpRequest} {i : ℕ}

theorem Process.Inv.count_le (h : p.Inv) (hr : p.requests i = some r) (a : ℕ) :
    r.slots.count a ≤ p.refcnt a := by
  have hcount : p.slotCount a i = r.slots.count a := by
    rw [Process.slotCount, hr]
    rfl
  have hle : p.slotCount a i ≤ ∑ j ∈ Finset.range p.next, p.slotCount a j :=
    Finset.single_le_sum (fun _ _ => Nat.zero_le _) (Finset.mem_range.mpr (h.lt i r hr))
  have hrefs := h.refs a
  omega

theorem FcgpRequest.gv_mem_slots (r : FcgpRequest) (which : RequestStream) :
    r.gv which ∈ r.slots := by cases which <;> simp [FcgpRequest.slots]

/-- **An object's handles are there.** -/
theorem Process.Inv.alive (h : p.Inv) (hr : p.requests i = some r) : p.Alive r := by
  intro which hzero
  have hle := h.count_le hr (r.gv which)
  have hpos : 0 < r.slots.count (r.gv which) := List.count_pos_iff.mpr (r.gv_mem_slots which)
  omega

theorem Process.Inv.tiesOwn (h : p.Inv) (hr : p.requests i = some r) : TiesOwn i (r, p) := by
  intro handle which hm
  obtain ⟨r', hr', hbound, hgv⟩ := h.tied handle i which hm
  obtain rfl : r' = r := Option.some.inj (hr'.symm.trans hr)
  exact ⟨hbound, hgv⟩

/-- **An object that has changed** is stored. -/
theorem Process.Inv.put (h : p.Inv) (hr : p.requests i = some r) {calls : List CoreCall}
    (hdoes : Does i (r, p) calls (r', p')) : (p'.put i r').Inv := by
  have hsame := hdoes.sameRefs
  have hlt : i < p.next := h.lt i r hr
  have hr' : r'.Inv := FcgpRequest.Inv.does (h.request i r hr) hdoes
  have hother {j : ℕ} (hj : j ≠ i) : (p'.put i r').requests j = p.requests j :=
    (p'.put_of_ne hj r').trans (congrFun hsame.requests j)
  have hslots (a : ℕ) : (p'.put i r').slotCount a = p.slotCount a := by
    ext1 j
    by_cases hj : j = i
    · subst hj
      rw [Process.slotCount, Process.slotCount, p'.put_self, hr]
      have hgv : r'.gv = r.gv := hsame.gv
      have henv : r'.hvEnv = r.hvEnv := hsame.hvEnv
      simp only [Option.elim_some, FcgpRequest.slots, hgv, henv]
    · rw [Process.slotCount, Process.slotCount, hother hj]
  refine ⟨fun a => ?_, fun j r₁ hj => ?_, fun j r₁ hj => ?_, fun handle j which hm => ?_⟩
  · show p'.refcnt a = p'.held a + ∑ j ∈ Finset.range p'.next, (p'.put i r').slotCount a j
    rw [hslots, hsame.refcnt, hsame.held, hsame.next]
    exact h.refs a
  · show j < p'.next
    rw [hsame.next]
    by_cases heq : j = i
    · subst heq
      exact hlt
    · exact h.lt j r₁ ((hother heq).symm.trans hj)
  · by_cases heq : j = i
    · subst heq
      obtain rfl : r' = r₁ := Option.some.inj ((p'.put_self j r').symm.trans hj)
      exact hr'
    · exact h.request j r₁ ((hother heq).symm.trans hj)
  · by_cases heq : j = i
    · subst heq
      obtain ⟨hbound, hgv⟩ := hdoes.tiesOwn (h.tiesOwn hr) handle which hm
      exact ⟨r', p'.put_self j r', hbound, hgv⟩
    · obtain ⟨r₁, hr₁, hbound, hgv⟩ := h.tied handle j which (hdoes.others heq hm)
      exact ⟨r₁, (hother heq).trans hr₁, hbound, hgv⟩

end Processes

/-! ### Calls through handles, and references -/

section Handles

variable {p p' : Process} {r r' : FcgpRequest} {i : ℕ}

/-- **A handle that is tied to a stream of a request** is tied to one that is there: the request
is accepted and bound, and the stream has not been freed. -/
theorem Process.Inv.tied_live (h : p.Inv) {handle : ℕ} {which : RequestStream}
    (hm : p.magic handle = some (.stream i which)) :
    ∃ r b, p.requests i = some r ∧ r.accepted = true ∧ r.bound = true ∧ r.gv which = handle ∧
      r.sv which = some b ∧ r.requestPtr.stream which = some b ∧ b ∉ r.requestPtr.freed := by
  obtain ⟨r, hr, hbound, hgv⟩ := h.tied handle i which hm
  have hinv := h.request i r hr
  have hacc := hinv.bound hbound
  obtain ⟨b, hsv, hstream⟩ := hinv.serving hacc which
  have hmem : b ∈ r.requestPtr.blocks := Owned.mem_blocks.mpr (.inl ⟨which, hstream⟩)
  exact ⟨r, b, hr, hacc, hbound, hgv, hsv, hstream, (hinv.owned.blocks b hmem).2⟩

/-- **A call in a method of a handle** returns. -/
theorem Process.Inv.callHandle (h : p.Inv) {handle : ℕ} (halive : p.refcnt handle ≠ 0)
    (call : MethodCall) :
    (∀ i which, p.magic handle ≠ some (.stream i which)) ∧ p.callHandle handle call = some p ∨
      ∃ i which r r', p.magic handle = some (.stream i which) ∧ p.requests i = some r ∧
        Change i (r, p) (some (.session (.stream which call.streamCall))) (r', p) ∧
        p.callHandle handle call = some (p.put i r') := by
  rw [Process.callHandle, if_neg halive]
  split
  · next i which hm =>
      obtain ⟨r, b, hr, hacc, -⟩ := h.tied_live hm
      obtain ⟨r', hr', hchange, -⟩ :=
        (h.request i r hr).callStream (p := p) (i := i) hacc which call.streamCall
      exact .inr ⟨i, which, r, r', hm, hr, hchange, by rw [hr, Option.bind_some, hr',
        Option.map_some]⟩
  · next hm =>
      refine .inl ⟨fun i which heq => ?_, rfl⟩
      rw [hm] at heq
      cases heq
  · next hm =>
      refine .inl ⟨fun i which heq => ?_, rfl⟩
      rw [hm] at heq
      cases heq

/-- The references `as` have been dropped. -/
structure Process.Drops (p p' : Process) (as : List ℕ) : Prop where
  requests : p'.requests = p.requests
  next : p'.next = p.next
  held : p'.held = p.held
  refcnt : ∀ a, p'.refcnt a + as.count a = p.refcnt a
  magic : ∀ h t, p'.magic h = some t → p.magic h = some t
  /-- What is still there is tied as it was. -/
  kept : ∀ h, p'.refcnt h ≠ 0 → p'.magic h = p.magic h

theorem svRefcntDec_drops {a : ℕ} (h : p.refcnt a ≠ 0) :
    ∃ p', p.svRefcntDec a = some p' ∧ p.Drops p' [a] := by
  have hcount (n : ℕ) (hn : p.refcnt a = n + 1) (b : ℕ) :
      Function.update p.refcnt a n b + [a].count b = p.refcnt b := by
    by_cases hb : b = a
    · subst hb
      rw [Function.update_self, List.count_singleton_self, hn]
    · rw [Function.update_of_ne hb, List.count_singleton, if_neg (by simpa using Ne.symm hb),
        Nat.add_zero]
  rw [Process.svRefcntDec]
  split
  · next hzero => exact absurd hzero h
  · next hone =>
      refine ⟨_, rfl, rfl, rfl, rfl, hcount 0 hone, fun h' t hm => (update_none_eq_some hm).2,
        fun h' hne => Function.update_of_ne (fun heq => hne ?_) ..⟩
      rw [heq]
      exact Function.update_self ..
  · next n hn =>
      exact ⟨_, rfl, rfl, rfl, rfl, hcount (n + 1) hn, fun _ _ hm => hm, fun _ _ => rfl⟩

/-- **References are dropped** one behind the other. -/
theorem foldlM_svRefcntDec (as : List ℕ) (h : ∀ a, as.count a ≤ p.refcnt a) :
    ∃ p', as.foldlM Process.svRefcntDec p = some p' ∧ p.Drops p' as := by
  induction as generalizing p with
  | nil => exact ⟨p, rfl, rfl, rfl, rfl, fun _ => rfl, fun _ _ hm => hm, fun _ _ => rfl⟩
  | cons a as ih =>
      have hpos : p.refcnt a ≠ 0 := by
        have hle := h a
        rw [List.count_cons_self] at hle
        omega
      obtain ⟨p₁, hp₁, hdrops₁⟩ := svRefcntDec_drops hpos
      have hle (b : ℕ) : as.count b ≤ p₁.refcnt b := by
        have hle := h b
        have hcount := hdrops₁.refcnt b
        rw [List.count_cons] at hle
        rw [List.count_singleton] at hcount
        omega
      obtain ⟨p', hp', hdrops⟩ := ih hle
      refine ⟨p', by rw [List.foldlM_cons, hp₁]; exact hp', hdrops.requests.trans hdrops₁.requests,
        hdrops.next.trans hdrops₁.next, hdrops.held.trans hdrops₁.held, fun b => ?_,
        fun h' t hm => hdrops₁.magic h' t (hdrops.magic h' t hm), fun h' hne => ?_⟩
      · have hcount₁ := hdrops₁.refcnt b
        have hcount := hdrops.refcnt b
        rw [List.count_cons]
        rw [List.count_singleton] at hcount₁
        omega
      · have hcount := hdrops.refcnt h'
        exact (hdrops.kept h' hne).trans (hdrops₁.kept h' (by omega))

/-- **`drop`**: a reference of the program. -/
theorem Process.Inv.drop (h : p.Inv) {a : ℕ} (hheld : p.held a ≠ 0) :
    ∃ p', p.step (.drop a) = some p' ∧ p'.Inv := by
  have hrefs := h.refs a
  obtain ⟨p₁, hp₁, hdrops⟩ := svRefcntDec_drops (p := p) (a := a) (by omega)
  refine ⟨_, by rw [Process.step, hp₁]; rfl, fun b => ?_, fun j r hj => ?_, fun j r hj => ?_,
    fun h' j which hm => ?_⟩
  · have hcount := hdrops.refcnt b
    have hrefs := h.refs b
    show p₁.refcnt b = Function.update p₁.held a (p₁.held a - 1) b +
      ∑ j ∈ Finset.range p₁.next, p₁.slotCount b j
    rw [Process.slotCount_congr hdrops.requests, hdrops.next, hdrops.held]
    by_cases hb : b = a
    · subst hb
      rw [List.count_singleton_self] at hcount
      rw [Function.update_self]
      omega
    · rw [List.count_singleton, if_neg (by simpa using Ne.symm hb)] at hcount
      rw [Function.update_of_ne hb]
      omega
  · show j < p₁.next
    rw [hdrops.next]
    exact h.lt j r (hdrops.requests ▸ hj)
  · exact h.request j r (hdrops.requests ▸ hj)
  · obtain ⟨r, hr, hbound, hgv⟩ := h.tied h' j which (hdrops.magic _ _ hm)
    exact ⟨r, by rw [← hr]; exact congrFun hdrops.requests j, hbound, hgv⟩

/-- **`take`**: one more reference. -/
theorem Process.Inv.take (h : p.Inv) (a : ℕ) : ∃ p', p.step (.take a) = some p' ∧ p'.Inv := by
  refine ⟨_, rfl, fun b => ?_, h.lt, h.request, h.tied⟩
  have hrefs := h.refs b
  show Function.update p.refcnt a (p.refcnt a + 1) b =
    Function.update p.held a (p.held a + 1) b + ∑ j ∈ Finset.range p.next, p.slotCount b j
  by_cases hb : b = a
  · subst hb
    rw [Function.update_self, Function.update_self]
    omega
  · rw [Function.update_of_ne hb, Function.update_of_ne hb]
    exact hrefs

/-- **`make`**: a handle or a hash where there was none. -/
theorem Process.Inv.make (h : p.Inv) {a : ℕ} (hzero : p.refcnt a = 0) :
    ∃ p', p.step (.make a) = some p' ∧ p'.Inv := by
  refine ⟨_, rfl, fun b => ?_, h.lt, h.request, fun h' j which hm => ?_⟩
  · have hrefs := h.refs b
    show Function.update p.refcnt a 1 b =
      Function.update p.held a 1 b + ∑ j ∈ Finset.range p.next, p.slotCount b j
    by_cases hb : b = a
    · subst hb
      rw [Function.update_self, Function.update_self]
      omega
    · rw [Function.update_of_ne hb, Function.update_of_ne hb]
      exact hrefs
  · exact h.tied h' j which (update_none_eq_some hm).2

/-- **`tie`** and **`untie`** of the program. -/
theorem Process.Inv.setMagic (h : p.Inv) (handle : ℕ) {t : Option Tie}
    (ht : ∀ j which, t ≠ some (.stream j which)) :
    Process.Inv { p with magic := Function.update p.magic handle t } := by
  refine ⟨h.refs, h.lt, h.request, fun h' j which hm => ?_⟩
  by_cases heq : h' = handle
  · subst heq
    have hm : Function.update p.magic h' t h' = some (.stream j which) := hm
    rw [Function.update_self] at hm
    exact absurd hm (ht j which)
  · have hm : Function.update p.magic handle t h' = some (.stream j which) := hm
    rw [Function.update_of_ne heq] at hm
    exact h.tied h' j which hm

end Handles

/-! ### `FCGI_Request` and `DESTROY` -/

section Objects

variable {p p' : Process} {r r' : FcgpRequest} {i : ℕ}

theorem svRefcntInc_eq (p : Process) (a : ℕ) :
    p.svRefcntInc a = { p with refcnt := fun b => p.refcnt b + [a].count b } := by
  have hrefcnt : Function.update p.refcnt a (p.refcnt a + 1) =
      fun b => p.refcnt b + [a].count b := by
    ext1 b
    by_cases hb : b = a
    · subst hb
      rw [Function.update_self, List.count_singleton_self]
    · rw [Function.update_of_ne hb, List.count_singleton, if_neg (by simpa using Ne.symm hb),
        Nat.add_zero]
  rw [Process.svRefcntInc, hrefcnt]

/-- References are taken one behind the other. -/
theorem foldl_svRefcntInc (as : List ℕ) (p : Process) :
    as.foldl Process.svRefcntInc p = { p with refcnt := fun b => p.refcnt b + as.count b } := by
  induction as generalizing p with
  | nil => rfl
  | cons a as ih =>
      rw [List.foldl_cons, ih, svRefcntInc_eq]
      have hcount (b : ℕ) : p.refcnt b + [a].count b + as.count b =
          p.refcnt b + (a :: as).count b := by
        rw [Nat.add_assoc, ← List.count_append]
        rfl
      simp only [hcount]

/-- What `FCGI_Request` leaves: a new object, and a reference to each of its slots. -/
theorem newRequest_step (p : Process) (gv : RequestStream → ℕ) (env : ℕ) (socket : ℤ)
    (mBuffIn mBuffOut mBuffErr : ℕ) :
    ∃ r : FcgpRequest, r.Inv ∧ r.gv = gv ∧ r.accepted = false ∧
      r.requestPtr.request = fcgxInitRequest (.sending [] [] []) mBuffIn mBuffOut mBuffErr ∧
      p.step (.request gv env socket mBuffIn mBuffOut mBuffErr) =
        some { p.put p.next r with
          next := p.next + 1, refcnt := fun a => p.refcnt a + r.slots.count a } := by
  obtain ⟨r, p₁, hmade⟩ : ∃ r p₁, fcgiRequest gv env socket mBuffIn mBuffOut mBuffErr p = (r, p₁) :=
    ⟨_, _, rfl⟩
  have hp₁ : p₁ = r.slots.foldl Process.svRefcntInc p := by
    cases hmade
    rfl
  have hinv : r.Inv := by
    cases hmade
    refine ⟨fun hb => ?_, ⟨fun b hb => ?_, fun b hb => ?_, fun _ => ⟨fun which => ?_, rfl⟩⟩,
      .of_none rfl rfl rfl, fun which => ?_, fun hacc => ?_, fun _ which => ?_⟩
    · cases hb
    · exact absurd hb List.not_mem_nil
    · exact absurd hb List.not_mem_nil
    · cases which <;> rfl
    · cases which <;> rfl
    · cases hacc
    · cases which <;> rfl
  have hnew : r.gv = gv ∧ r.accepted = false ∧
      r.requestPtr.request = fcgxInitRequest (.sending [] [] []) mBuffIn mBuffOut mBuffErr := by
    cases hmade
    exact ⟨rfl, rfl, rfl⟩
  rw [foldl_svRefcntInc] at hp₁
  exact ⟨r, hinv, hnew.1, hnew.2.1, hnew.2.2, by rw [Process.step, hmade, hp₁]; rfl⟩

/-- **`FCGI_Request`** makes an object that is in order. -/
theorem Process.Inv.newRequest (h : p.Inv) (gv : RequestStream → ℕ) (env : ℕ) (socket : ℤ)
    (mBuffIn mBuffOut mBuffErr : ℕ) :
    ∃ p', p.step (.request gv env socket mBuffIn mBuffOut mBuffErr) = some p' ∧ p'.Inv := by
  obtain ⟨r, hinv, -, -, -, hstep⟩ :=
    newRequest_step p gv env socket mBuffIn mBuffOut mBuffErr
  have hother {j : ℕ} (hj : j ≠ p.next) : (p.put p.next r).requests j = p.requests j :=
    p.put_of_ne hj r
  refine ⟨_, hstep, fun a => ?_, fun j r' hj => ?_, fun j r' hj => ?_, fun h' j which hm => ?_⟩
  · have hrefs := h.refs a
    have hnew : (p.put p.next r).slotCount a p.next = r.slots.count a := by
      rw [Process.slotCount, p.put_self]
      rfl
    have hold : ∑ j ∈ Finset.range p.next, (p.put p.next r).slotCount a j =
        ∑ j ∈ Finset.range p.next, p.slotCount a j := by
      refine Finset.sum_congr rfl fun j hj => ?_
      have hne : j ≠ p.next := (Finset.mem_range.mp hj).ne
      rw [Process.slotCount, Process.slotCount, hother hne]
    show p.refcnt a + r.slots.count a =
      p.held a + ∑ j ∈ Finset.range (p.next + 1), (p.put p.next r).slotCount a j
    rw [Finset.sum_range_succ, hold, hnew]
    omega
  · show j < p.next + 1
    by_cases heq : j = p.next
    · omega
    · have hlt := h.lt j r' ((hother heq).symm.trans hj)
      omega
  · by_cases heq : j = p.next
    · subst heq
      have hj : (p.put p.next r).requests p.next = some r' := hj
      rw [p.put_self] at hj
      cases hj
      exact hinv
    · exact h.request j r' ((hother heq).symm.trans hj)
  · obtain ⟨r', hr', hbound, hgv⟩ := h.tied h' j which hm
    have hne : j ≠ p.next := (h.lt j r' hr').ne
    exact ⟨r', (hother hne).trans hr', hbound, hgv⟩

theorem fcgiReleaseRequest_eq (r : FcgpRequest) (p : Process) :
    fcgiReleaseRequest r p = (r.slots.foldlM Process.svRefcntDec p).bind (fcgiFinish r) := by
  simp [fcgiReleaseRequest, FcgpRequest.slots, List.foldlM, Option.bind_assoc]

/-- An object that nothing is tied to is removed, with its references. -/
theorem Process.Inv.remove (h : p.Inv) (hr : p.requests i = some r)
    (hrequests : p'.requests = p.requests) (hnext : p'.next = p.next) (hheld : p'.held = p.held)
    (hrefcnt : ∀ a, p'.refcnt a + r.slots.count a = p.refcnt a)
    (huntied : ∀ handle which, p'.magic handle ≠ some (.stream i which))
    (hmagic : ∀ handle j which, j ≠ i → p'.magic handle = some (.stream j which) →
      p.magic handle = some (.stream j which)) :
    Process.Inv { p' with requests := Function.update p'.requests i none } := by
  rw [hrequests]
  have hother {j : ℕ} (hj : j ≠ i) : Function.update p.requests i none j = p.requests j :=
    Function.update_of_ne hj ..
  have hstill {j : ℕ} {r' : FcgpRequest} (hj : Function.update p.requests i none j = some r') :
      j ≠ i ∧ p.requests j = some r' := by
    have hne : j ≠ i := by
      rintro rfl
      rw [Function.update_self] at hj
      cases hj
    exact ⟨hne, (hother hne).symm.trans hj⟩
  refine ⟨fun a => ?_, fun j r' hj => ?_, fun j r' hj => h.request j r' (hstill hj).2,
    fun h' j which hm => ?_⟩
  · set p₂ : Process := { p' with requests := Function.update p.requests i none } with hp₂
    have hi : i ∈ Finset.range p.next := Finset.mem_range.mpr (h.lt i r hr)
    have hgone : p₂.slotCount a i = 0 := by
      rw [Process.slotCount, hp₂]
      simp only [Function.update_self, Option.elim_none]
    have hsum : ∑ j ∈ Finset.range p.next, p₂.slotCount a j + r.slots.count a =
        ∑ j ∈ Finset.range p.next, p.slotCount a j := by
      have hcount : p.slotCount a i = r.slots.count a := by
        rw [Process.slotCount, hr]
        rfl
      rw [← Finset.sum_erase _ hgone, ← Finset.sum_erase_add _ _ hi, hcount]
      congr 1
      refine Finset.sum_congr rfl fun j hj => ?_
      have hne : j ≠ i := (Finset.mem_erase.mp hj).1
      rw [Process.slotCount, Process.slotCount, hp₂]
      simp only [hother hne]
    have hrefs := h.refs a
    have hcount := hrefcnt a
    show p'.refcnt a = p'.held a + ∑ j ∈ Finset.range p'.next, p₂.slotCount a j
    rw [hheld, hnext]
    omega
  · show j < p'.next
    rw [hnext]
    exact h.lt j r' (hstill hj).2
  · have hne : j ≠ i := by
      rintro rfl
      exact huntied h' which hm
    obtain ⟨r', hr', hbound, hgv⟩ := h.tied h' j which (hmagic h' j which hne hm)
    exact ⟨r', (hother hne).trans hr', hbound, hgv⟩

/-- `DESTROY` drops the references `r.slots`, and then calls `FCGI_Finish`. -/
theorem Process.Inv.destroy_eq (h : p.Inv) (hr : p.requests i = some r) :
    ∃ p₁, p.Drops p₁ r.slots ∧ p.step (.destroy i) = (fcgiFinish r p₁).map fun x =>
      { x.2 with requests := Function.update x.2.requests i none } := by
  obtain ⟨p₁, hp₁, hdrops⟩ := foldlM_svRefcntDec (p := p) r.slots (h.count_le hr)
  refine ⟨p₁, hdrops, ?_⟩
  rw [Process.step, Process.onRequest, hr, Option.bind_some, fcgiReleaseRequest_eq, hp₁,
    Option.bind_some, Option.map_map]
  congr 1
  ext1 x
  simp [Process.put, Function.update_idem]

/-- **`DESTROY`** returns unless the request is bound and has the last reference to one of its
handles. -/
theorem Process.Inv.destroy_isSome (h : p.Inv) (hr : p.requests i = some r) :
    (p.step (.destroy i)).isSome = true ↔ (r.bound = true →
      ∀ which, p.refcnt (r.gv which) ≠ r.slots.count (r.gv which)) := by
  obtain ⟨p₁, hdrops, hstep⟩ := h.destroy_eq hr
  have halive : p₁.Alive r ↔ ∀ which, p.refcnt (r.gv which) ≠ r.slots.count (r.gv which) := by
    refine forall_congr' fun which => ?_
    have hcount := hdrops.refcnt (r.gv which)
    omega
  rw [hstep, Option.isSome_map, ← halive]
  constructor
  · intro hsome hbound
    by_contra hdead
    rw [fcgiFinish, (h.request i r hr).bound hbound, hbound, fcgiUndoBinding_dead hdead] at hsome
    cases hsome
  · intro hall
    obtain ⟨y, hfin, -⟩ := (h.request i r hr).finish (i := i) hall
    rw [hfin]
    rfl

/-- What `DESTROY` leaves: the object has been finished behind the references. -/
theorem Process.Inv.destroy_step (h : p.Inv) (hr : p.requests i = some r)
    (hstep : p.step (.destroy i) = some p') :
    ∃ p₁ y, p.Drops p₁ r.slots ∧ Does i (r, p₁) r.finishCalls y ∧ y.1.accepted = false ∧
      p' = { y.2 with requests := Function.update y.2.requests i none } := by
  have hreturns := (h.destroy_isSome hr).mp (by rw [hstep]; rfl)
  obtain ⟨p₁, hdrops, heq⟩ := h.destroy_eq hr
  have halive : r.bound = true → p₁.Alive r := fun hbound which => by
    have hcount := hdrops.refcnt (r.gv which)
    have hne := hreturns hbound which
    omega
  obtain ⟨y, hfin, hdoes, hacc⟩ := (h.request i r hr).finish (i := i) halive
  rw [hstep, hfin] at heq
  exact ⟨p₁, y, hdrops, hdoes, hacc, Option.some.inj heq⟩

/-- **`DESTROY`** leaves a process in order. -/
theorem Process.Inv.destroy (h : p.Inv) (hr : p.requests i = some r)
    (hstep : p.step (.destroy i) = some p') : p'.Inv := by
  obtain ⟨p₁, ⟨r', p₂⟩, hdrops, hdoes, hacc, rfl⟩ := h.destroy_step hr hstep
  have hsame := hdoes.sameRefs
  have hinv' : r'.Inv := FcgpRequest.Inv.does (h.request i r hr) hdoes
  have hties : TiesOwn i (r, p₁) := fun handle which hm =>
    h.tiesOwn hr handle which (hdrops.magic _ _ hm)
  have huntied (handle : ℕ) (which : RequestStream) :
      p₂.magic handle ≠ some (.stream i which) := fun hm => by
    have hbound := (hdoes.tiesOwn hties handle which hm).1
    rw [hinv'.bound_eq hacc] at hbound
    cases hbound
  refine h.remove hr (hsame.requests.trans hdrops.requests) (hsame.next.trans hdrops.next)
    (hsame.held.trans hdrops.held) (fun a => ?_) huntied fun handle j which hj hm => ?_
  · rw [hsame.refcnt]
    exact hdrops.refcnt a
  · exact hdrops.magic _ _ (hdoes.others hj hm)

end Objects

/-! ### Programs -/

/-- What can go wrong: `FCGX_Accept_r` gives an environment with a string without `=`, or
`DESTROY` unties handles after the last reference to one of them has been dropped, its own. -/
def Process.Fails (p : Process) : Op → Prop
  | .accept i fcgxIsCGI pending => ∃ r, p.requests i = some r ∧
      (fcgiIsFastCGI fcgxIsCGI r p).1 = true ∧
      ¬Passes (acceptedEnvironment pending r (fcgiIsFastCGI fcgxIsCGI r p).2)
  | .destroy i => ∃ r, p.requests i = some r ∧ r.bound = true ∧
      ∃ which, p.refcnt (r.gv which) = r.slots.count (r.gv which)
  | _ => False

/-- `OS_Accept` fails when there is no connection left. -/
def Op.Answered : Op → Prop
  | .accept _ _ pending => ∃ pre errno, pending = pre ++ [.error errno]
  | _ => True

/-- The object of an operation that leaves it there. -/
def Op.target : Op → Option ℕ
  | .accept i _ _ | .finish i | .flush i | .detach i | .attach i | .startFilterData i => some i
  | _ => none

/-- The calls that an operation makes on the object `i`. -/
def Process.callsOn (p : Process) (i : ℕ) (op : Op) : List CoreCall :=
  match p.requests i with
  | none => []
  | some r =>
      match op with
      | .accept j fcgxIsCGI pending =>
          if j = i then
            match fcgiAccept fcgxIsCGI pending i r p with
            | none => []
            | some (_, _, _, rest) => r.acceptCalls p fcgxIsCGI pending rest
          else []
      | .finish j => if j = i then r.finishCalls else []
      | .flush j => if j = i then r.flushCalls else []
      | .startFilterData j => if j = i then r.filterCalls else []
      | .call handle call =>
          match p.magic handle with
          | some (.stream j which) =>
              if j = i then [.session (.stream which call.streamCall)] else []
          | _ => []
      | _ => []

section Programs

variable {p p' : Process} {r : FcgpRequest} {i : ℕ} {op : Op}

/-- The function returns, with these calls. -/
def FcgpRequest.Returns (r : FcgpRequest) (p : Process) (i : ℕ) (calls : List CoreCall)
    (f : FcgpRequest → Process → Option (FcgpRequest × Process)) : Prop :=
  ∃ y, f r p = some y ∧ Does i (r, p) calls y

/-- **The operations on an object** but `Accept` return. -/
theorem Process.Inv.object_returns (h : p.Inv) (ht : op.target = some i)
    (haccept : ∀ fcgxIsCGI pending, op ≠ .accept i fcgxIsCGI pending)
    (hr : p.requests i = some r) :
    ∃ f, p.step op = p.onRequest i f ∧ r.Returns p i (p.callsOn i op) f := by
  have hinv := h.request i r hr
  cases op with
  | accept j fcgxIsCGI pending =>
      cases ht
      exact absurd rfl (haccept fcgxIsCGI pending)
  | finish j =>
      cases ht
      obtain ⟨y, hy, hdoes, -⟩ := hinv.finish (i := i) fun _ => h.alive hr
      exact ⟨_, rfl, y, hy, by simpa only [Process.callsOn, hr, if_true] using hdoes⟩
  | flush j =>
      cases ht
      obtain ⟨r', hr', hdoes⟩ := hinv.flush (p := p) (i := i)
      refine ⟨fun r p => (fcgiFlush r).map fun r => (r, p), rfl, (r', p), ?_, ?_⟩
      · simp only [hr', Option.map_some]
      · simpa only [Process.callsOn, hr, if_true] using hdoes
  | detach j =>
      cases ht
      obtain ⟨y, hy, hdoes⟩ := FcgpRequest.detach_does (i := i) (h.alive hr)
      exact ⟨_, rfl, y, hy, by simpa only [Process.callsOn, hr] using hdoes⟩
  | attach j =>
      cases ht
      obtain ⟨y, hy, hdoes⟩ := FcgpRequest.attach_does (i := i) (h.alive hr)
      exact ⟨_, rfl, y, hy, by simpa only [Process.callsOn, hr] using hdoes⟩
  | startFilterData j =>
      cases ht
      obtain ⟨r', hr', hdoes⟩ := hinv.startFilterData (p := p) (i := i)
      refine ⟨fun r p => (fcgiStartFilterData r).map fun r => (r, p), rfl, (r', p), ?_, ?_⟩
      · simp only [hr', Option.map_some]
      · simpa only [Process.callsOn, hr, if_true] using hdoes
  | request | destroy | call | make | take | drop | tie | untie => cases ht

/-- **An operation on an object** changes it. -/
theorem Process.Inv.object_step (h : p.Inv) (ht : op.target = some i) (hstep : p.Steps op p') :
    ∃ r y, p.requests i = some r ∧ Does i (r, p) (p.callsOn i op) y ∧ p' = y.2.put i y.1 := by
  obtain ⟨hallows, hstep⟩ := hstep
  have hsome : (p.requests i).isSome = true := by
    cases op <;> cases ht <;> exact hallows
  obtain ⟨r, hr⟩ := Option.isSome_iff_exists.mp hsome
  by_cases haccept : ∀ fcgxIsCGI pending, op ≠ .accept i fcgxIsCGI pending
  · obtain ⟨f, hf, y, hy, hdoes⟩ := h.object_returns ht haccept hr
    rw [hf, Process.onRequest, hr, Option.bind_some, hy] at hstep
    exact ⟨r, y, hr, hdoes, (Option.some.inj hstep).symm⟩
  · push Not at haccept
    obtain ⟨fcgxIsCGI, pending, rfl⟩ := haccept
    rw [Process.step, Process.onRequest, hr, Option.bind_some] at hstep
    obtain ⟨y, hy, rfl⟩ := Option.map_eq_some_iff.mp hstep
    obtain ⟨⟨rc, r', p₁, rest⟩, hacc, rfl⟩ := Option.map_eq_some_iff.mp hy
    have hdoes := ((h.request i r hr).accept (h.alive hr) fcgxIsCGI pending).1 rc r' p₁ rest hacc
    exact ⟨r, _, hr, by simpa only [Process.callsOn, hr, if_true, hacc] using hdoes, rfl⟩

/-- **Every operation** that returns keeps the process in order. -/
theorem Process.Inv.step (h : p.Inv) (hstep : p.Steps op p') : p'.Inv := by
  have hkeep (hx : ∃ p', p.step op = some p' ∧ p'.Inv) : p'.Inv := by
    obtain ⟨x, hx, hinv⟩ := hx
    obtain rfl : x = p' := Option.some.inj (hx.symm.trans hstep.2)
    exact hinv
  cases ht : op.target with
  | some i =>
      obtain ⟨r, y, hr, hdoes, rfl⟩ := h.object_step ht hstep
      exact h.put hr hdoes
  | none =>
      cases op with
      | accept | finish | flush | detach | attach | startFilterData => cases ht
      | request gv env socket mBuffIn mBuffOut mBuffErr => exact hkeep (h.newRequest ..)
      | destroy i =>
          obtain ⟨r, hr⟩ := Option.isSome_iff_exists.mp hstep.1
          exact h.destroy hr hstep.2
      | call handle call =>
          obtain ⟨-, hcall⟩ | ⟨i, which, r, r', -, hr, hchange, hcall⟩ := h.callHandle hstep.1 call
          · exact hkeep ⟨p, hcall, h⟩
          · exact hkeep ⟨_, hcall, h.put hr hchange.does⟩
      | make a => exact hkeep (h.make hstep.1)
      | take a => exact hkeep (h.take a)
      | drop a => exact hkeep (h.drop hstep.1)
      | tie handle =>
          refine hkeep ⟨_, rfl, h.setMagic handle fun j which heq => ?_⟩
          cases heq
      | untie handle =>
          refine hkeep ⟨_, rfl, h.setMagic handle fun j which heq => ?_⟩
          cases heq

/-- **The operations that return** are all but those two. -/
theorem Process.Inv.returns_iff (h : p.Inv) (hallows : p.Allows op) (hanswered : op.Answered) :
    (p.step op).isSome = true ↔ ¬p.Fails op := by
  have htotal (hx : ∃ p', p.step op = some p') (hnot : ¬p.Fails op) :
      (p.step op).isSome = true ↔ ¬p.Fails op := by
    obtain ⟨p', hp'⟩ := hx
    rw [hp']
    exact ⟨fun _ => hnot, fun _ => rfl⟩
  have hobject (i : ℕ) (ht : op.target = some i) (hi : (p.requests i).isSome = true)
      (haccept : ∀ fcgxIsCGI pending, op ≠ .accept i fcgxIsCGI pending) :
      ∃ p', p.step op = some p' := by
    obtain ⟨r, hr⟩ := Option.isSome_iff_exists.mp hi
    obtain ⟨f, hf, y, hy, -⟩ := h.object_returns ht haccept hr
    exact ⟨_, by rw [hf, Process.onRequest, hr, Option.bind_some, hy, Option.map_some]⟩
  cases op with
  | accept i fcgxIsCGI pending =>
      obtain ⟨r, hr⟩ := Option.isSome_iff_exists.mp hallows
      obtain ⟨pre, errno, hpre⟩ := hanswered
      rw [Process.step, Process.onRequest, hr, Option.bind_some, Option.isSome_map,
        Option.isSome_map,
        ((h.request i r hr).accept (i := i) (h.alive hr) fcgxIsCGI pending).2 pre errno hpre]
      simp only [Process.Fails, hr, Option.some.injEq, exists_eq_left', not_and, not_not]
  | destroy i =>
      obtain ⟨r, hr⟩ := Option.isSome_iff_exists.mp hallows
      rw [h.destroy_isSome hr]
      simp only [Process.Fails, hr, Option.some.injEq, exists_eq_left', not_and, not_exists]
  | finish i | flush i | detach i | attach i | startFilterData i =>
      refine htotal (hobject i rfl hallows fun _ _ heq => ?_) id
      cases heq
  | call handle call =>
      obtain ⟨-, hcall⟩ | ⟨i, which, r, r', -, -, -, hcall⟩ := h.callHandle hallows call
      · exact htotal ⟨_, hcall⟩ id
      · exact htotal ⟨_, hcall⟩ id
  | drop a =>
      obtain ⟨p', hp', -⟩ := h.drop hallows
      exact htotal ⟨p', hp'⟩ id
  | request | make | take | tie | untie => exact htotal ⟨_, rfl⟩ id

theorem inv_start : Process.start.Inv where
  refs a := by simp [Process.start, Process.slotCount]
  lt i r hr := by cases hr
  request i r hr := by cases hr
  tied h i which hm := by cases hm

end Programs

/-- A program whose handles go out of scope before the object, which then has the last reference
to the first of them. -/
def leavingOps : List Op :=
  [.make 0, .make 1, .make 2, .make 3,
    .request (fun | .input => 0 | .out => 1 | .err => 2) 3 0 0 0 0,
    .accept 0 false [.ok (.sending plainRequest [] [])], .call 1 (.putStr [104, 105]), .drop 0]

end Perl

end FastCgi
