import FastCgi.App.SessionTotal
import FastCgi.Perl.Requests

/-!
What the functions of the Perl binding do to an object and its handles.

Every function is a sequence of a few changes (`Change`), with a call on the
`FCGX_Request` in some of them. An object stays in order under each
(`FcgpRequest.Inv.change`), and the handles that are tied to its streams are
its own as long as it is bound (`Change.tiesOwn`). In an object that is in
order every function returns, while the handles that it needs are there and
the assertion of `populate_env` holds; `Does` says with which calls.
-/

namespace FastCgi

namespace Perl

open ByteMem Machine

/-! ### The streams of a request and their blocks -/

/-- There are blocks for the streams of the request, and for no others. -/
def Linked (o : Owned) : Prop :=
  ∀ which, (o.stream which).isSome = (o.request.stream which).isSome

theorem linked_freed (o : Owned) {r : Request} (h : ∀ which, r.stream which = none) :
    Linked (o.free r) := by
  intro which
  show ((o.free r).stream which).isSome = (r.stream which).isSome
  rw [h which]
  cases which <;> rfl

theorem stream_fcgxFree (r : Request) (close : Bool) (which : RequestStream) :
    (fcgxFree r close).stream which = none := by cases which <;> rfl

theorem linked_finish {o o' : Owned} (h : o.finish = some o') : Linked o' := by
  obtain ⟨r, hfin, rfl⟩ := Option.map_eq_some_iff.mp h
  apply linked_freed
  rw [fcgxFinishR] at hfin
  split at hfin
  · cases hfin
    exact stream_fcgxFree _ _
  · split at hfin
    · cases hfin
    · split at hfin
      · cases hfin
      · cases hfin
        exact stream_fcgxFree _ _

theorem linked_acceptConnection {o o' : Owned} {ok : Bool}
    (h : o.acceptConnection = some (ok, o')) :
    Linked o' ∧ (ok = true → (∀ which, (o'.stream which).isSome = true) ∧
      o'.request.envp.isSome = true) := by
  rw [Owned.acceptConnection] at h
  split at h
  · cases h
  · next r hacc =>
      cases h
      obtain ⟨params, c, -, rfl⟩ := acceptConnection_ok hacc
      exact ⟨fun which => by cases which <;> rfl,
        fun _ => ⟨fun which => by cases which <;> rfl, rfl⟩⟩
  · next r hacc =>
      cases h
      refine ⟨?_, fun hok => by cases hok⟩
      rw [FastCgi.acceptConnection] at hacc
      split at hacc
      · cases hacc
      · cases hacc
      · cases hacc
        exact linked_freed _ (stream_fcgxFree _ _)

theorem linked_acceptLoop {pending rest : List Connection} {o o' : Owned} {rc : ℤ}
    (hlinked : Linked o) (h : Owned.acceptLoop pending o = some (rc, o', rest)) :
    Linked o' ∧ (¬rc < 0 → (∀ which, (o'.stream which).isSome = true) ∧
      o'.request.envp.isSome = true) := by
  induction pending generalizing o with
  | nil => cases h
  | cons a pending ih =>
      cases a with
      | error errno =>
          cases h
          refine ⟨hlinked, fun hrc => absurd ?_ hrc⟩
          split <;> omega
      | ok os =>
          rw [Owned.acceptLoop] at h
          split at h
          · cases h
          · next o₁ hacc =>
              cases h
              obtain ⟨hlinked', hsome⟩ := linked_acceptConnection hacc
              exact ⟨hlinked', fun _ => hsome rfl⟩
          · next o₁ hacc => exact ih (linked_acceptConnection hacc).1 h

theorem linked_acceptR {pending rest : List Connection} {o o' : Owned} {rc : ℤ}
    (h : o.acceptR pending = some (rc, o', rest)) :
    Linked o' ∧ (¬rc < 0 → (∀ which, (o'.stream which).isSome = true) ∧
      o'.request.envp.isSome = true) := by
  rw [Owned.acceptR] at h
  split at h
  · cases h
  · next o₁ hfin =>
      have hlinked := linked_finish hfin
      split at h
      · exact linked_acceptLoop hlinked h
      · split at h
        · cases h
        · next o₂ hacc =>
            cases h
            obtain ⟨hlinked', hsome⟩ := linked_acceptConnection hacc
            exact ⟨hlinked', fun _ => hsome rfl⟩
        · next o₂ hacc => exact linked_acceptLoop (linked_acceptConnection hacc).1 h

theorem streamCall_isSome {r r' : Request} {which : RequestStream} {call : StreamCall}
    (h : r.streamCall which call = some r') (which' : RequestStream) :
    (r'.stream which').isSome = (r.stream which').isSome := by
  obtain ⟨s, hs, h⟩ := Option.bind_eq_some_iff.mp h
  obtain ⟨c, -, rfl⟩ := Option.map_eq_some_iff.mp h
  by_cases heq : which' = which
  · subst heq
    rw [hs]
    cases which' <;> rfl
  · cases which <;> cases which' <;> first | rfl | exact absurd rfl heq

/-! ### Requests -/

/-- A request object that is in order. -/
structure FcgpRequest.Inv (r : FcgpRequest) : Prop where
  bound : r.bound = true → r.accepted = true
  owned : r.requestPtr.Inv
  inOrder : r.requestPtr.request.InOrder
  linked : Linked r.requestPtr
  /-- The objects that the handles are tied to have the streams of the request. -/
  serving : r.accepted = true → ∀ which, ∃ b, r.sv which = some b ∧
    r.requestPtr.stream which = some b
  idle : r.accepted = false → ∀ which, r.requestPtr.stream which = none

section Requests

variable {r r' : FcgpRequest}

theorem FcgpRequest.Inv.bound_eq (h : r.Inv) (hacc : r.accepted = false) : r.bound = false := by
  refine Bool.eq_false_iff.mpr fun hbound => ?_
  rw [h.bound hbound] at hacc
  cases hacc

theorem FcgpRequest.Inv.withRequest (h : r.Inv) {q : Request} {which : RequestStream}
    {call : StreamCall} (hq : r.requestPtr.request.streamCall which call = some q)
    (hs : (r.requestPtr.request.stream which).isSome = true) :
    FcgpRequest.Inv { r with requestPtr := { r.requestPtr with request := q } } where
  bound := h.bound
  owned := ⟨h.owned.freed_lt, h.owned.blocks, fun hnone => ⟨(h.owned.idle hnone).stream,
    (h.owned.idle hnone).paramsPtr⟩⟩
  inOrder := by
    obtain ⟨s, hs⟩ := Option.isSome_iff_exists.mp hs
    obtain ⟨q', hq', hinOrder⟩ := h.inOrder.streamCall hs call
    obtain rfl : q' = q := Option.some.inj (hq'.symm.trans hq)
    exact hinOrder
  linked which' := (h.linked which').trans (streamCall_isSome hq which').symm
  serving := h.serving
  idle := h.idle

/-- **`FCGX_Accept_r`**, called for a request that is not accepted. -/
theorem FcgpRequest.Inv.acceptR (h : r.Inv) (hacc : r.accepted = false)
    {pending rest : List Connection} {rc : ℤ} {o : Owned}
    (hr : r.requestPtr.acceptR pending = some (rc, o, rest)) :
    (rc < 0 → FcgpRequest.Inv { r with requestPtr := o }) ∧
      (¬rc < 0 → o.request.envp.isSome = true ∧ FcgpRequest.Inv
        { r with requestPtr := o, sv := o.stream, bound := true, accepted := true }) := by
  obtain ⟨hends, -⟩ := h.owned.acceptR hr
  obtain ⟨hlinked, hsome⟩ := linked_acceptR hr
  have hinOrder : o.request.InOrder := by
    have hreq := r.requestPtr.request_acceptR pending
    rw [hr, Option.map_some] at hreq
    exact h.inOrder.acceptR hreq.symm
  refine ⟨fun hrc => ?_, fun hrc => ⟨(hsome hrc).2, ?_⟩⟩
  · refine ⟨fun hb => ?_, hends.inv, hinOrder, hlinked, fun ha => ?_, fun _ => ?_⟩
    · have hb : r.bound = true := hb
      rw [h.bound_eq hacc] at hb
      cases hb
    · rw [show r.accepted = true from ha] at hacc
      cases hacc
    · obtain ⟨hrc', -⟩ | ⟨-, hidle, -⟩ := hends.ends
      · omega
      · exact hidle.stream
  · refine ⟨fun _ => rfl, hends.inv, hinOrder, hlinked, fun _ which => ?_, fun ha => ?_⟩
    · obtain ⟨b, hb⟩ := Option.isSome_iff_exists.mp ((hsome hrc).1 which)
      exact ⟨b, hb, hb⟩
    · cases ha

end Requests

/-! ### What the functions do -/

/-- The handles of the request are there. -/
def Process.Alive (p : Process) (r : FcgpRequest) : Prop := ∀ which, p.refcnt (r.gv which) ≠ 0

/-- The handle is tied, unless it was. -/
def tieAt (magic : ℕ → Option Tie) (h : ℕ) (t : Tie) : ℕ → Option Tie :=
  Function.update magic h (some ((magic h).getD t))

/-- The handles of the request are not tied any more. -/
def Process.untied (p : Process) (r : FcgpRequest) : Process :=
  { p with magic := Function.update (Function.update (Function.update p.magic (r.gv .input) none)
      (r.gv .out) none) (r.gv .err) none }

/-- The handles of the request are tied, those that were not to its own streams. -/
def Process.tiedTo (p : Process) (i : ℕ) (r : FcgpRequest) : Process :=
  { p with magic := tieAt (tieAt (tieAt p.magic (r.gv .out) (.stream i .out))
      (r.gv .err) (.stream i .err)) (r.gv .input) (.stream i .input) }

section Functions

variable {r r' : FcgpRequest} {p p' : Process} {i : ℕ}

theorem update_none_eq_some {magic : ℕ → Option Tie} {k h : ℕ} {t : Tie}
    (hm : Function.update magic k none h = some t) : h ≠ k ∧ magic h = some t := by
  by_cases heq : h = k
  · subst heq
    rw [Function.update_self] at hm
    cases hm
  · rw [Function.update_of_ne heq] at hm
    exact ⟨heq, hm⟩

/-- What is tied behind it was tied before. -/
theorem untied_magic {h : ℕ} {t : Tie} (hm : (p.untied r).magic h = some t) :
    p.magic h = some t ∧ ∀ which, r.gv which ≠ h := by
  obtain ⟨herr, hm⟩ := update_none_eq_some hm
  obtain ⟨hout, hm⟩ := update_none_eq_some hm
  obtain ⟨hin, hm⟩ := update_none_eq_some hm
  refine ⟨hm, fun which => ?_⟩
  cases which with
  | input => exact hin.symm
  | out => exact hout.symm
  | err => exact herr.symm

theorem tieAt_eq_some {magic : ℕ → Option Tie} {k h : ℕ} {t t' : Tie}
    (hm : tieAt magic k t h = some t') : magic h = some t' ∨ k = h ∧ t' = t := by
  by_cases heq : h = k
  · subst heq
    rw [tieAt, Function.update_self] at hm
    cases hmagic : magic h with
    | none =>
        rw [hmagic] at hm
        cases hm
        exact .inr ⟨rfl, rfl⟩
    | some t₀ =>
        rw [hmagic] at hm
        exact .inl hm
  · rw [tieAt, Function.update_of_ne heq] at hm
    exact .inl hm

/-- What is tied behind it was tied before, or is tied to a stream of the request. -/
theorem tiedTo_magic {h : ℕ} {t : Tie} (hm : (p.tiedTo i r).magic h = some t) :
    p.magic h = some t ∨ ∃ which, r.gv which = h ∧ t = .stream i which := by
  obtain hm | ⟨heq, ht⟩ := tieAt_eq_some hm
  · obtain hm | ⟨heq, ht⟩ := tieAt_eq_some hm
    · obtain hm | ⟨heq, ht⟩ := tieAt_eq_some hm
      · exact .inl hm
      · exact .inr ⟨_, heq, ht⟩
    · exact .inr ⟨_, heq, ht⟩
  · exact .inr ⟨_, heq, ht⟩

theorem fcgiUndoBinding_alive (h : p.Alive r) :
    fcgiUndoBinding r p = some ({ r with bound := false }, p.untied r) := by
  simp [fcgiUndoBinding, Process.svUnmagic, h .input, h .out, h .err, Process.untied]

/-- A handle that has been freed makes `FCGI_UndoBinding` fail. -/
theorem fcgiUndoBinding_dead (h : ¬p.Alive r) : fcgiUndoBinding r p = none := by
  obtain ⟨which, hdead⟩ := not_forall.mp h
  have hdead : p.refcnt (r.gv which) = 0 := not_not.mp hdead
  by_cases hin : p.refcnt (r.gv .input) = 0
  · simp [fcgiUndoBinding, Process.svUnmagic, hin]
  · by_cases hout : p.refcnt (r.gv .out) = 0
    · simp [fcgiUndoBinding, Process.svUnmagic, hin, hout]
    · have herr : p.refcnt (r.gv .err) = 0 := by
        cases which with
        | input => exact absurd hdead hin
        | out => exact absurd hdead hout
        | err => exact hdead
      simp [fcgiUndoBinding, Process.svUnmagic, hin, hout, herr]

theorem fcgiBind_alive (h : p.Alive r) :
    fcgiBind i r p = some ({ r with bound := true }, p.tiedTo i r) := by
  simp [fcgiBind, Process.svMagic, h .input, h .out, h .err, Process.tiedTo, tieAt]

end Functions

/-! ### Changes -/

/-- The calls on an `FCGX_Request`: those of a session, and `FCGX_Free` that closes the
connection. -/
inductive CoreCall where
  | session (call : SessionCall)
  | free

/-- What the functions do to the object `i` and to the interpreter, and the call that they make. -/
inductive Change (i : ℕ) :
    FcgpRequest × Process → Option CoreCall → FcgpRequest × Process → Prop
  | cgi {r : FcgpRequest} {p : Process} (isCGI : Option Bool) (beenHere : Bool) :
      Change i (r, p) none (r, { p with isCGI := isCGI, beenHere := beenHere })
  | undoBinding {r : FcgpRequest} {p : Process} (hacc : r.accepted = true) :
      Change i (r, p) none ({ r with bound := false }, p.untied r)
  | bind {r : FcgpRequest} {p : Process} (hacc : r.accepted = true) (hbound : r.bound = false) :
      Change i (r, p) none ({ r with bound := true }, p.tiedTo i r)
  | finish {r : FcgpRequest} {p : Process} {q : Request} (hacc : r.accepted = true)
      (hbound : r.bound = true) (hq : fcgxFinishR r.requestPtr.request = some q) :
      Change i (r, p) (some (.session .finish))
        ({ r with bound := false, requestPtr := r.requestPtr.free q, accepted := false },
          p.untied r)
  | free {r : FcgpRequest} {p : Process} (hacc : r.accepted = true) (hbound : r.bound = false) :
      Change i (r, p) (some .free)
        ({ r with
          requestPtr := r.requestPtr.free (fcgxFree r.requestPtr.request true)
          accepted := false }, p)
  | refused {r : FcgpRequest} {p : Process} {pending : List Connection} {rc : ℤ} {o : Owned}
      (hacc : r.accepted = false) (hr : r.requestPtr.acceptR pending = some (rc, o, []))
      (hrc : rc < 0) :
      Change i (r, p) (some (.session (.accept pending))) ({ r with requestPtr := o }, p)
  | accepted {r : FcgpRequest} {p : Process} {pending : List Connection} {rc : ℤ} {o : Owned}
      (hacc : r.accepted = false) (hr : r.requestPtr.acceptR pending = some (rc, o, []))
      (hrc : ¬rc < 0) (hashes : ℕ → Hv) :
      Change i (r, p) (some (.session (.accept pending)))
        ({ r with requestPtr := o, sv := o.stream, bound := true, accepted := true },
          { p.tiedTo i r with hashes := hashes })
  | stream {r : FcgpRequest} {p : Process} {which : RequestStream} {call : StreamCall} {q : Request}
      (hq : r.requestPtr.request.streamCall which call = some q) :
      Change i (r, p) (some (.session (.stream which call)))
        ({ r with requestPtr := { r.requestPtr with request := q } }, p)

/-- Changes one behind the other, with these calls. -/
def Does (i : ℕ) (x : FcgpRequest × Process) (calls : List CoreCall) (y : FcgpRequest × Process) :
    Prop :=
  ∃ labels, Runs (Change i) x labels y ∧ labels.filterMap id = calls

/-- Nothing has been done to what the object refers to, to the counts and to other objects. -/
structure SameRefs (x y : FcgpRequest × Process) : Prop where
  gv : y.1.gv = x.1.gv
  hvEnv : y.1.hvEnv = x.1.hvEnv
  requests : y.2.requests = x.2.requests
  next : y.2.next = x.2.next
  refcnt : y.2.refcnt = x.2.refcnt
  held : y.2.held = x.2.held

/-- The handles that are tied to streams of the object are handles of it, and it is bound. -/
def TiesOwn (i : ℕ) (x : FcgpRequest × Process) : Prop :=
  ∀ handle which, x.2.magic handle = some (.stream i which) →
    x.1.bound = true ∧ x.1.gv which = handle

section Changes

variable {i : ℕ} {x y z : FcgpRequest × Process} {l : Option CoreCall} {calls : List CoreCall}

theorem Does.refl (i : ℕ) (x : FcgpRequest × Process) : Does i x [] x := ⟨[], .nil, rfl⟩

theorem Change.does (h : Change i x l y) : Does i x l.toList y :=
  ⟨[l], .single h, by cases l <;> rfl⟩

theorem Does.trans {calls calls' : List CoreCall} (h : Does i x calls y) (h' : Does i y calls' z) :
    Does i x (calls ++ calls') z := by
  obtain ⟨labels, hruns, rfl⟩ := h
  obtain ⟨labels', hruns', rfl⟩ := h'
  exact ⟨labels ++ labels', hruns.append hruns', List.filterMap_append⟩

theorem Change.sameRefs (h : Change i x l y) : SameRefs x y := by
  cases h <;> exact ⟨rfl, rfl, rfl, rfl, rfl, rfl⟩

theorem Does.sameRefs (h : Does i x calls y) : SameRefs x y := by
  obtain ⟨labels, hruns, -⟩ := h
  refine hruns.invariant (I := SameRefs x) (fun z l z' ih hchange => ?_)
    ⟨rfl, rfl, rfl, rfl, rfl, rfl⟩
  have hsame := Change.sameRefs hchange
  exact ⟨hsame.gv.trans ih.gv, hsame.hvEnv.trans ih.hvEnv, hsame.requests.trans ih.requests,
    hsame.next.trans ih.next, hsame.refcnt.trans ih.refcnt, hsame.held.trans ih.held⟩

/-- **An object stays in order.** -/
theorem FcgpRequest.Inv.change (h : x.1.Inv) (hchange : Change i x l y) : y.1.Inv := by
  cases hchange with
  | cgi isCGI beenHere => exact h
  | undoBinding hacc =>
      refine ⟨fun hb => ?_, h.owned, h.inOrder, h.linked, h.serving, h.idle⟩
      cases hb
  | bind hacc hbound => exact ⟨fun _ => hacc, h.owned, h.inOrder, h.linked, h.serving, h.idle⟩
  | @finish r p q hacc hbound hq =>
      obtain ⟨q', hq', hinOrder⟩ := h.inOrder.finish
      obtain rfl : q' = q := Option.some.inj (hq'.symm.trans hq)
      have hfin : r.requestPtr.finish = some (r.requestPtr.free q') := by
        rw [Owned.finish, hq, Option.map_some]
      obtain ⟨howned, hidle, -⟩ := h.owned.finish hfin
      refine ⟨fun hb => ?_, howned, hinOrder, linked_finish hfin, fun ha => ?_,
        fun _ => hidle.stream⟩
      · cases hb
      · cases ha
  | @free r p hacc hbound =>
      have hidle := r.requestPtr.idle_free (fcgxFree r.requestPtr.request true)
      refine ⟨fun hb => ?_, hidle.inv ?_, .fcgxFree _ _, linked_freed _ (stream_fcgxFree _ _),
        fun ha => ?_, fun _ => hidle.stream⟩
      · rw [show r.bound = true from hb] at hbound
        cases hbound
      · exact Owned.free_freed_lt h.owned.freed_lt (fun b hb => (h.owned.blocks b hb).1) _
      · cases ha
  | refused hacc hr hrc => exact (h.acceptR hacc hr).1 hrc
  | accepted hacc hr hrc hashes => exact ((h.acceptR hacc hr).2 hrc).2
  | stream hq =>
      obtain ⟨s, hs, -⟩ := Option.bind_eq_some_iff.mp hq
      exact h.withRequest hq (by rw [hs]; rfl)

theorem FcgpRequest.Inv.does (h : x.1.Inv) (hdoes : Does i x calls y) : y.1.Inv := by
  obtain ⟨labels, hruns, -⟩ := hdoes
  exact hruns.invariant (I := fun z => z.1.Inv) (fun _ _ _ => FcgpRequest.Inv.change) h

/-- **The ties of the object.** -/
theorem Change.tiesOwn (hchange : Change i x l y) (h : TiesOwn i x) : TiesOwn i y := by
  intro handle which hm
  cases hchange with
  | cgi isCGI beenHere => exact h handle which hm
  | undoBinding hacc | finish hacc hbound hq =>
      obtain ⟨hm, hother⟩ := untied_magic hm
      exact absurd (h handle which hm).2 (hother which)
  | bind hacc hbound =>
      obtain hm | ⟨which', hgv, heq⟩ := tiedTo_magic hm
      · exact ⟨rfl, (h handle which hm).2⟩
      · cases heq
        exact ⟨rfl, hgv⟩
  | accepted hacc hr hrc hashes =>
      obtain hm | ⟨which', hgv, heq⟩ := tiedTo_magic hm
      · exact ⟨rfl, (h handle which hm).2⟩
      · cases heq
        exact ⟨rfl, hgv⟩
  | free hacc hbound => exact h handle which hm
  | refused hacc hr hrc => exact h handle which hm
  | stream hq => exact h handle which hm

theorem Does.tiesOwn (hdoes : Does i x calls y) (h : TiesOwn i x) : TiesOwn i y := by
  obtain ⟨labels, hruns, -⟩ := hdoes
  exact hruns.invariant (fun _ _ _ hz hchange => Change.tiesOwn hchange hz) h

/-- Nothing is tied to other things than streams of the object. -/
theorem Change.others (hchange : Change i x l y) {handle : ℕ} {t : Tie}
    (hm : y.2.magic handle = some t) :
    x.2.magic handle = some t ∨ ∃ which, t = .stream i which := by
  cases hchange with
  | cgi isCGI beenHere | free hacc hbound | refused hacc hr hrc | stream hq => exact .inl hm
  | undoBinding hacc | finish hacc hbound hq => exact .inl (untied_magic hm).1
  | bind hacc hbound | accepted hacc hr hrc hashes =>
      obtain hm | ⟨which, -, heq⟩ := tiedTo_magic hm
      · exact .inl hm
      · exact .inr ⟨which, heq⟩

theorem Does.others (hdoes : Does i x calls y) {handle j : ℕ} {which : RequestStream}
    (hj : j ≠ i) (hm : y.2.magic handle = some (.stream j which)) :
    x.2.magic handle = some (.stream j which) := by
  obtain ⟨labels, hruns, -⟩ := hdoes
  refine hruns.invariant (I := fun z => z.2.magic handle = some (.stream j which) →
    x.2.magic handle = some (.stream j which)) (fun z l z' ih hchange hm => ?_) id hm
  obtain hm | ⟨which', heq⟩ := Change.others hchange hm
  · exact ih hm
  · cases heq
    exact absurd rfl hj

end Changes

/-! ### The functions -/

/-- The calls of `FCGI_Finish`. -/
def FcgpRequest.finishCalls (r : FcgpRequest) : List CoreCall :=
  if r.accepted then if r.bound then [.session .finish] else [.free] else []

/-- The calls of `FCGI_Flush`. -/
def FcgpRequest.flushCalls (r : FcgpRequest) : List CoreCall :=
  if r.bound then
    [.session (.stream .out (.write .fflush)), .session (.stream .err (.write .fflush))]
  else []

/-- The calls of `FCGI_StartFilterData`. -/
def FcgpRequest.filterCalls (r : FcgpRequest) : List CoreCall :=
  if (r.requestPtr.stream .input).isSome then [.session (.stream .input .startFilterData)] else []

section Calls

variable {r r' : FcgpRequest} {p p' : Process} {i : ℕ}

/-- **`FCGI_Finish`** returns while the handles that it unties are there. -/
theorem FcgpRequest.Inv.finish (h : r.Inv) (halive : r.bound = true → p.Alive r) :
    ∃ y, fcgiFinish r p = some y ∧ Does i (r, p) r.finishCalls y ∧ y.1.accepted = false := by
  rw [fcgiFinish, FcgpRequest.finishCalls]
  cases hacc : r.accepted with
  | false => exact ⟨_, rfl, .refl i _, hacc⟩
  | true =>
      rw [Bool.not_true, if_neg Bool.false_ne_true, if_pos rfl]
      by_cases hbound : r.bound = true
      · obtain ⟨q, hq, -⟩ := h.inOrder.finish
        have hfin : r.requestPtr.finish = some (r.requestPtr.free q) := by
          rw [Owned.finish, hq, Option.map_some]
        simp only [hbound, if_true, fcgiUndoBinding_alive (halive hbound), Option.bind_some, hfin,
          Option.map_some]
        exact ⟨_, rfl, (Change.finish hacc hbound hq).does, rfl⟩
      · rw [if_neg hbound, if_neg hbound]
        exact ⟨_, rfl, (Change.free hacc (Bool.eq_false_iff.mpr hbound)).does, rfl⟩

/-- **`Detach`** returns. -/
theorem FcgpRequest.detach_does (halive : p.Alive r) :
    ∃ y, Perl.detach r p = some y ∧ Does i (r, p) [] y := by
  rw [Perl.detach]
  split
  · next hguard =>
      rw [fcgiUndoBinding_alive halive]
      exact ⟨_, rfl, (Change.undoBinding (Bool.and_eq_true_iff.mp hguard).1).does⟩
  · exact ⟨_, rfl, .refl i _⟩

/-- **`Attach`** returns. -/
theorem FcgpRequest.attach_does (halive : p.Alive r) :
    ∃ y, Perl.attach i r p = some y ∧ Does i (r, p) [] y := by
  rw [Perl.attach]
  split
  · next hguard =>
      obtain ⟨hacc, hbound⟩ := Bool.and_eq_true_iff.mp hguard
      rw [fcgiBind_alive halive]
      exact ⟨_, rfl, (Change.bind hacc (by simpa using hbound)).does⟩
  · exact ⟨_, rfl, .refl i _⟩

/-- **A call on a stream of an accepted request** returns. -/
theorem FcgpRequest.Inv.callStream (h : r.Inv) (hacc : r.accepted = true) (which : RequestStream)
    (call : StreamCall) :
    ∃ r', r.callStream which call = some r' ∧
      Change i (r, p) (some (.session (.stream which call))) (r', p) ∧ r'.accepted = true := by
  obtain ⟨b, hsv, hstream⟩ := h.serving hacc which
  have hsome : (r.requestPtr.request.stream which).isSome = true := by
    rw [← h.linked which, hstream]
    rfl
  obtain ⟨s, hs⟩ := Option.isSome_iff_exists.mp hsome
  obtain ⟨q, hq, -⟩ := h.inOrder.streamCall hs call
  refine ⟨_, ?_, .stream hq, hacc⟩
  rw [FcgpRequest.callStream, hsv]
  simp only [hstream, if_true, hq, Option.map_some]

/-- **`FCGI_Flush`** returns. -/
theorem FcgpRequest.Inv.flush (h : r.Inv) :
    ∃ r', fcgiFlush r = some r' ∧ Does i (r, p) r.flushCalls (r', p) := by
  rw [fcgiFlush, FcgpRequest.flushCalls]
  by_cases hbound : r.bound = true
  · obtain ⟨r₁, hr₁, hchange₁, hacc₁⟩ :=
      h.callStream (i := i) (p := p) (h.bound hbound) .out (.write .fflush)
    have hinv₁ : r₁.Inv := FcgpRequest.Inv.change h hchange₁
    obtain ⟨r₂, hr₂, hchange₂, -⟩ :=
      hinv₁.callStream (i := i) (p := p) hacc₁ .err (.write .fflush)
    rw [hbound, Bool.not_true, if_neg Bool.false_ne_true, if_pos rfl, hr₁, Option.bind_some]
    exact ⟨r₂, hr₂, hchange₁.does.trans hchange₂.does⟩
  · rw [Bool.eq_false_iff.mpr hbound]
    exact ⟨r, rfl, .refl i _⟩

/-- **`FCGI_StartFilterData`** returns. -/
theorem FcgpRequest.Inv.startFilterData (h : r.Inv) :
    ∃ r', fcgiStartFilterData r = some r' ∧ Does i (r, p) r.filterCalls (r', p) := by
  rw [fcgiStartFilterData, FcgpRequest.filterCalls]
  cases hb : r.requestPtr.stream .input with
  | none => exact ⟨r, rfl, .refl i _⟩
  | some b =>
      have hsome : (r.requestPtr.request.stream .input).isSome = true := by
        rw [← h.linked .input, hb]
        rfl
      obtain ⟨s, hs⟩ := Option.isSome_iff_exists.mp hsome
      obtain ⟨q, hq, -⟩ := h.inOrder.streamCall hs .startFilterData
      simp only [hq]
      exact ⟨_, rfl, (Change.stream hq).does⟩

end Calls

/-! ### `FCGI_Accept` -/

/-- The environment that `FCGX_Accept_r` gives to `FCGI_Accept`, if it accepts a request. -/
def acceptedEnvironment (pending : List Connection) (r : FcgpRequest) (p : Process) :
    Option Params :=
  (fcgiFinish r p).bind fun (r, _) => (r.requestPtr.acceptR pending).bind fun (rc, o, _) =>
    if rc < 0 then none else o.request.envp

/-- `populate_env` passes this environment. -/
def Passes (envp : Option Params) : Prop :=
  ∀ params, envp = some params → ∀ s ∈ params.entries, equalSign ∈ cBytes s

/-- The calls of `FCGI_Accept`, which leaves `rest` of the connections. -/
def FcgpRequest.acceptCalls (r : FcgpRequest) (p : Process) (fcgxIsCGI : Bool)
    (pending rest : List Connection) : List CoreCall :=
  if (fcgiIsFastCGI fcgxIsCGI r p).1 then
    r.finishCalls ++ [.session (.accept (pending.take (pending.length - rest.length)))]
  else []

section Accepting

variable {r r' : FcgpRequest} {p p' : Process} {i : ℕ}

/-- What `FCGX_Accept_r` does not take of the connections makes no difference. -/
theorem acceptLoop_take {pending rest : List Connection} {o o' : Owned} {rc : ℤ}
    (h : Owned.acceptLoop pending o = some (rc, o', rest)) :
    ∃ pre, pending = pre ++ rest ∧ Owned.acceptLoop pre o = some (rc, o', []) := by
  induction pending generalizing o with
  | nil => cases h
  | cons a pending ih =>
      cases a with
      | error errno =>
          cases h
          exact ⟨[.error errno], rfl, rfl⟩
      | ok os =>
          rw [Owned.acceptLoop] at h
          split at h
          · cases h
          · next o₁ hacc =>
              cases h
              exact ⟨[.ok os], rfl, by rw [Owned.acceptLoop, hacc]⟩
          · next o₁ hacc =>
              obtain ⟨pre, rfl, hpre⟩ := ih h
              exact ⟨.ok os :: pre, rfl, by rw [Owned.acceptLoop, hacc]; exact hpre⟩

theorem acceptR_take {pending rest : List Connection} {o o' : Owned} {rc : ℤ}
    (h : o.acceptR pending = some (rc, o', rest)) :
    o.acceptR (pending.take (pending.length - rest.length)) = some (rc, o', []) := by
  have hpre : ∃ pre, pending = pre ++ rest ∧ o.acceptR pre = some (rc, o', []) := by
    rw [Owned.acceptR] at h
    split at h
    · cases h
    · next o₁ hfin =>
        split at h
        · next hclosed =>
            obtain ⟨pre, hpending, hpre⟩ := acceptLoop_take h
            refine ⟨pre, hpending, ?_⟩
            simp only [Owned.acceptR, hfin, if_pos hclosed]
            exact hpre
        · next hopen =>
            split at h
            · cases h
            · next o₂ hacc =>
                cases h
                refine ⟨[], rfl, ?_⟩
                simp only [Owned.acceptR, hfin, if_neg hopen, hacc]
            · next o₂ hacc =>
                obtain ⟨pre, hpending, hpre⟩ := acceptLoop_take h
                refine ⟨pre, hpending, ?_⟩
                simp only [Owned.acceptR, hfin, if_neg hopen, hacc]
                exact hpre
  obtain ⟨pre, rfl, hpre⟩ := hpre
  rw [List.length_append, Nat.add_sub_cancel, List.take_left]
  exact hpre

/-- What `FCGI_IsFastCGI` finds out is all that it changes. -/
theorem fcgiIsFastCGI_snd (fcgxIsCGI : Bool) (r : FcgpRequest) (p : Process) :
    ∃ isCGI, (fcgiIsFastCGI fcgxIsCGI r p).2 = { p with isCGI := isCGI } := by
  rw [fcgiIsFastCGI]
  split
  · split
    · exact ⟨_, rfl⟩
    · exact ⟨_, rfl⟩
  · exact ⟨_, rfl⟩

/-- **Behind `FCGX_Accept_r`** the assertion of `populate_env` decides. -/
theorem FcgpRequest.Inv.accepted (h : r.Inv) (hacc : r.accepted = false) (halive : p.Alive r)
    {pending rest : List Connection} {rc : ℤ} {o : Owned}
    (hr : r.requestPtr.acceptR pending = some (rc, o, rest)) :
    ((fcgiAccepted i rc { r with requestPtr := o } p).isSome = true ↔
        Passes (if rc < 0 then none else o.request.envp)) ∧
      ∀ rc' y, fcgiAccepted i rc { r with requestPtr := o } p = some (rc', y) →
        Does i (r, p) [.session (.accept (pending.take (pending.length - rest.length)))] y := by
  have htake := acceptR_take hr
  by_cases hrc : rc < 0
  · refine ⟨by simp [fcgiAccepted, hrc, Passes], fun rc' y hdone => ?_⟩
    rw [fcgiAccepted, if_pos hrc] at hdone
    cases hdone
    exact (Change.refused hacc htake hrc).does
  · obtain ⟨envp, henvp⟩ := Option.isSome_iff_exists.mp ((h.acceptR hacc hr).2 hrc).1
    have hpass : Passes (if rc < 0 then none else o.request.envp) ↔
        (populateEnv envp.entries (p.hashes r.hvEnv)).isSome = true := by
      rw [if_neg hrc, henvp, populateEnv, storeStrings_isSome]
      exact ⟨fun hall => hall envp rfl, fun hall params hparams => Option.some.inj hparams ▸ hall⟩
    rw [hpass, fcgiAccepted, if_neg hrc]
    simp only [henvp]
    cases hpop : populateEnv envp.entries (p.hashes r.hvEnv) with
    | none =>
        refine ⟨Iff.rfl, fun rc' y hdone => ?_⟩
        cases hdone
    | some hv =>
        have halive' : Process.Alive { p with hashes := Function.update p.hashes r.hvEnv hv }
            { r with requestPtr := o, sv := o.stream } := fun which => halive which
        simp only [fcgiBind_alive halive', Option.map_some]
        refine ⟨by simp, fun rc' y hdone => ?_⟩
        cases hdone
        exact (Change.accepted hacc htake hrc _).does

/-- **`FCGI_Accept`** returns, when a connection can be accepted or `OS_Accept` fails, unless
`populate_env` finds a string without `=`. -/
theorem FcgpRequest.Inv.accept (h : r.Inv) (halive : p.Alive r) (fcgxIsCGI : Bool)
    (pending : List Connection) :
    (∀ rc r' p' rest, fcgiAccept fcgxIsCGI pending i r p = some (rc, r', p', rest) →
        Does i (r, p) (r.acceptCalls p fcgxIsCGI pending rest) (r', p')) ∧
      ∀ pre errno, pending = pre ++ [.error errno] →
        ((fcgiAccept fcgxIsCGI pending i r p).isSome = true ↔
          ((fcgiIsFastCGI fcgxIsCGI r p).1 = true →
            Passes (acceptedEnvironment pending r (fcgiIsFastCGI fcgxIsCGI r p).2))) := by
  obtain ⟨isCGI, hp₀⟩ := fcgiIsFastCGI_snd fcgxIsCGI r p
  unfold FcgpRequest.acceptCalls
  rw [hp₀]
  generalize hfast : fcgiIsFastCGI fcgxIsCGI r p = fast at hp₀
  obtain ⟨fast, p₀⟩ := fast
  obtain rfl : p₀ = { p with isCGI := isCGI } := hp₀
  have hfirst : Does i (r, p) [] (r, { p with isCGI := isCGI }) :=
    (Change.cgi isCGI p.beenHere).does
  rw [fcgiAccept, hfast]
  cases fast with
  | false =>
      refine ⟨fun rc r' p' rest hdone => ?_, fun pre errno hpre => ?_⟩
      · simp only at hdone
        split at hdone
        · cases hdone
          exact hfirst
        · cases hdone
          exact (Change.cgi isCGI true).does
      · simp only
        split <;> simp
  | true =>
      -- the object has been finished: `r₁` and `p₁`
      obtain ⟨⟨r₁, p₁⟩, hfin, hdoes, hacc₁⟩ :=
        h.finish (i := i) (p := { p with isCGI := isCGI }) fun _ => halive
      have hinv₁ : r₁.Inv := FcgpRequest.Inv.does h hdoes
      have halive₁ : p₁.Alive r₁ := by
        intro which
        have hsame := hdoes.sameRefs
        rw [hsame.refcnt, hsame.gv]
        exact halive which
      simp only [acceptedEnvironment, hfin, Option.bind_some]
      refine ⟨fun rc r' p' rest hdone => ?_, fun pre errno hpre => ?_⟩
      · obtain ⟨⟨acceptResult, o, rest'⟩, hacceptR, hdone⟩ := Option.bind_eq_some_iff.mp hdone
        obtain ⟨⟨rc', y⟩, haccepted, heq⟩ := Option.map_eq_some_iff.mp hdone
        cases heq
        exact (hfirst.trans hdoes).trans ((hinv₁.accepted hacc₁ halive₁ hacceptR).2 _ _ haccepted)
      · obtain ⟨rc, q, rest, hacceptR, -⟩ := hinv₁.inOrder.accept pre errno
        rw [← hpre, ← Owned.request_acceptR] at hacceptR
        obtain ⟨⟨rc', o, rest'⟩, hacceptR, -⟩ := Option.map_eq_some_iff.mp hacceptR
        have hspec := (hinv₁.accepted (i := i) hacc₁ halive₁ hacceptR).1
        simp only [hacceptR, Option.bind_some, Option.isSome_map, hspec, forall_const]

end Accepting

end Perl

end FastCgi
