import FastCgi.App.Conversation
import FastCgi.Perl.Programs

/-!
The requests of a Perl program are sessions.

`callsAlong` are the calls that a run makes on the `FCGX_Request` of an
object: those of the functions of the binding on this object, and those
through the handles that are tied to its streams, by whatever the program does
with other objects in between. The request is what these calls make of it, and
where the object is never finished while it is detached, they are a session;
its connections carry a conversation (`perl_dialogues`).
-/

namespace FastCgi

namespace Perl

open ByteMem Machine

/-! ### The calls of a run -/

/-- A call on an `FCGX_Request`. -/
def coreCall (q : Request) : CoreCall → Option Request
  | .session call => q.call call
  | .free => some (fcgxFree q true)

/-- The calls on a request, one behind the other. -/
abbrev CoreRuns : Request → List CoreCall → Request → Prop :=
  Runs fun q call q' => coreCall q call = some q'

/-- The calls that the operations make on the object `i`. -/
def callsAlong (i : ℕ) : Process → List Op → List CoreCall
  | _, [] => []
  | p, op :: ops =>
      p.callsOn i op ++
        match p.step op with
        | none => []
        | some p' => callsAlong i p' ops

section Calls

variable {i : ℕ} {x y : FcgpRequest × Process} {l : Option CoreCall} {calls : List CoreCall}
  {p p' : Process} {op : Op} {r : FcgpRequest}

/-- **A change** makes of the request what its call makes of it. -/
theorem Change.core (h : Change i x l y) :
    CoreRuns x.1.requestPtr.request l.toList y.1.requestPtr.request := by
  cases h with
  | cgi | undoBinding | bind => exact .nil
  | finish hacc hbound hq => exact .single hq
  | free => exact .single rfl
  | @refused r p pending rc o hacc hr hrc | @accepted r p pending rc o hacc hr hrc hashes =>
      have hcall := r.requestPtr.request_acceptR pending
      rw [hr, Option.map_some] at hcall
      refine .single ?_
      rw [coreCall, Request.call, ← hcall]
      rfl
  | stream hq => exact .single hq

theorem Does.core (h : Does i x calls y) :
    CoreRuns x.1.requestPtr.request calls y.1.requestPtr.request := by
  obtain ⟨labels, hruns, rfl⟩ := h
  induction hruns with
  | nil => exact .nil
  | @cons x y z l labels hchange _ ih =>
      have hcore := (Change.core hchange).append ih
      cases l with
      | none => exact hcore
      | some call => exact hcore

/-- The calls on streams are for streams of their kind. -/
theorem callsOn_proper {which : RequestStream} {call : StreamCall}
    (h : .session (.stream which call) ∈ p.callsOn i op) :
    which = .input ∨ call ≠ .startFilterData := by
  rw [Process.callsOn] at h
  split at h
  · cases h
  · next r hr =>
      have hfinish : .session (.stream which call) ∉ r.finishCalls := by
        rw [FcgpRequest.finishCalls]
        split
        · split <;> simp
        · simp
      split at h
      · split at h
        · split at h
          · cases h
          · next rest hacc =>
              rw [FcgpRequest.acceptCalls] at h
              split at h
              · simp [hfinish] at h
              · cases h
        · cases h
      · split at h
        · exact absurd h hfinish
        · cases h
      · split at h
        · rw [FcgpRequest.flushCalls] at h
          split at h
          · simp only [List.mem_cons, CoreCall.session.injEq, SessionCall.stream.injEq,
              List.not_mem_nil, or_false] at h
            rcases h with ⟨-, rfl⟩ | ⟨-, rfl⟩
            · exact .inr (by decide)
            · exact .inr (by decide)
          · cases h
        · cases h
      · split at h
        · rw [FcgpRequest.filterCalls] at h
          split at h
          · simp only [List.mem_singleton, CoreCall.session.injEq, SessionCall.stream.injEq] at h
            exact .inl h.1
          · cases h
        · cases h
      · next handle call' =>
          split at h
          · split at h
            · simp only [List.mem_singleton, CoreCall.session.injEq, SessionCall.stream.injEq] at h
              rw [h.2]
              cases call' <;> simp [MethodCall.streamCall]
            · cases h
          · cases h
      · cases h

theorem callsAlong_proper {ops : List Op} {which : RequestStream} {call : StreamCall}
    (h : .session (.stream which call) ∈ callsAlong i p ops) :
    which = .input ∨ call ≠ .startFilterData := by
  induction ops generalizing p with
  | nil => cases h
  | cons op ops ih =>
      rw [callsAlong, List.mem_append] at h
      rcases h with h | h
      · exact callsOn_proper h
      · split at h
        · cases h
        · exact ih h

end Calls

/-! ### The request of an object -/

section Objects

variable {i j : ℕ} {p p' : Process} {r : FcgpRequest} {op : Op} {ops : List Op}

/-- An operation on another object makes no call on this one. -/
theorem callsOn_other (ht : op.target = some j) (hj : j ≠ i) : p.callsOn i op = [] := by
  rw [Process.callsOn]
  cases op <;> cases ht <;> split <;> simp [hj]

/-- A new object, as `FCGI_Request` leaves it. -/
def FcgpRequest.IsNew (r : FcgpRequest) : Prop :=
  ∃ mBuffIn mBuffOut mBuffErr,
    r.requestPtr.request = fcgxInitRequest (.sending [] [] []) mBuffIn mBuffOut mBuffErr

/-- What a step does to the object `i` that is there, or was not there yet. -/
inductive StepOf (i : ℕ) (p : Process) (op : Op) (p' : Process) : Prop
  | kept {r r' : FcgpRequest} (hr : p.requests i = some r) (hr' : p'.requests i = some r')
      (hcore : CoreRuns r.requestPtr.request (p.callsOn i op) r'.requestPtr.request)
  | made {r : FcgpRequest} (hi : i = p.next) (hnone : p.requests i = none)
      (hr : p'.requests i = some r) (hnew : r.IsNew)
  | none (hgone : p'.requests i = none) (hnext : i < p.next → i < p'.next)

/-- The operation has left the object alone. -/
theorem StepOf.of_eq (hrequests : p'.requests i = p.requests i)
    (hnext : p.next ≤ p'.next) (hcalls : p.callsOn i op = []) : StepOf i p op p' := by
  cases hi : p.requests i with
  | none => exact .none (hrequests.trans hi) fun hlt => hlt.trans_le hnext
  | some r =>
      refine .kept hi (hrequests.trans hi) ?_
      rw [hcalls]
      exact .nil

/-- **The step of a program**, seen by one object. -/
theorem Process.Inv.stepOf (h : p.Inv) (hstep : p.Steps op p') (i : ℕ) : StepOf i p op p' := by
  cases ht : op.target with
  | some j =>
      obtain ⟨r, y, hr, hdoes, rfl⟩ := h.object_step ht hstep
      by_cases hj : j = i
      · subst hj
        exact .kept hr (y.2.put_self j y.1) hdoes.core
      · have hsame := hdoes.sameRefs
        refine .of_eq ?_ hsame.next.ge (callsOn_other ht hj)
        rw [y.2.put_of_ne (Ne.symm hj), hsame.requests]
  | none =>
      obtain ⟨hallows, hstep⟩ := hstep
      have hquiet (hcalls : ∀ r, p.requests i = some r → p.callsOn i op = []) :
          p.callsOn i op = [] := by
        cases hi : p.requests i with
        | none => rw [Process.callsOn, hi]
        | some r => exact hcalls r hi
      cases op with
      | accept | finish | flush | detach | attach | startFilterData => cases ht
      | request gv env socket mBuffIn mBuffOut mBuffErr =>
          obtain ⟨r, -, -, -, hnew, hmade⟩ :=
            newRequest_step p gv env socket mBuffIn mBuffOut mBuffErr
          obtain rfl := Option.some.inj (hmade.symm.trans hstep)
          by_cases hi : i = p.next
          · subst hi
            refine .made rfl ?_ (p.put_self p.next r) ⟨_, _, _, hnew⟩
            rw [Option.eq_none_iff_forall_ne_some]
            exact fun r' hr' => absurd (h.lt _ r' hr') (lt_irrefl _)
          · refine .of_eq (p.put_of_ne hi r) (Nat.le_succ _) (hquiet fun r' hr' => ?_)
            rw [Process.callsOn, hr']
      | destroy j =>
          obtain ⟨r, hr⟩ := Option.isSome_iff_exists.mp hallows
          obtain ⟨p₁, y, hdrops, hdoes, -, rfl⟩ := h.destroy_step hr hstep
          have hsame := hdoes.sameRefs
          have hnext : y.2.next = p.next := hsame.next.trans hdrops.next
          by_cases hi : i = j
          · subst hi
            exact .none (Function.update_self ..) fun hlt => hlt.trans_eq hnext.symm
          · refine .of_eq ?_ hnext.ge (hquiet fun r' hr' => by rw [Process.callsOn, hr'])
            exact (Function.update_of_ne hi ..).trans
              (congrFun (hsame.requests.trans hdrops.requests) i)
      | call handle call =>
          obtain ⟨huntied, hcall⟩ | ⟨j, which, r, r', hm, hr, hchange, hcall⟩ :=
            h.callHandle hallows call
          · obtain rfl := Option.some.inj (hcall.symm.trans hstep)
            refine .of_eq rfl le_rfl (hquiet fun r hr => ?_)
            rw [Process.callsOn, hr]
            -- the case of a stream is excluded by `huntied`
            simp only
          · obtain rfl := Option.some.inj (hcall.symm.trans hstep)
            by_cases hj : j = i
            · subst hj
              refine .kept hr (p.put_self j r') ?_
              have hcalls : p.callsOn j (.call handle call) =
                  [.session (.stream which call.streamCall)] := by
                simp only [Process.callsOn, hr, hm, if_true]
              rw [hcalls]
              exact hchange.core
            · refine .of_eq (p.put_of_ne (Ne.symm hj) r') le_rfl (hquiet fun r₁ hr₁ => ?_)
              simp only [Process.callsOn, hr₁, hm, if_neg hj]
      | drop a =>
          have hrefs := h.refs a
          have hheld : p.held a ≠ 0 := hallows
          obtain ⟨p₁, hp₁, hdrops⟩ := svRefcntDec_drops (p := p) (a := a) (by omega)
          rw [Process.step, hp₁, Option.map_some] at hstep
          obtain rfl := Option.some.inj hstep
          exact .of_eq (congrFun hdrops.requests i) hdrops.next.ge
            (hquiet fun r hr => by rw [Process.callsOn, hr])
      | make a | take a | tie handle | untie handle =>
          obtain rfl := Option.some.inj hstep
          exact .of_eq rfl le_rfl (hquiet fun r hr => by rw [Process.callsOn, hr])

/-- **The request of an object** is what the calls of the run have made of it. -/
theorem Process.Inv.coreRuns (h : p.Inv) (hruns : Runs Process.Steps p ops p')
    (hr' : p'.requests i = some r) :
    (∀ r₀, p.requests i = some r₀ →
        CoreRuns r₀.requestPtr.request (callsAlong i p ops) r.requestPtr.request) ∧
      (p.requests i = none → p.next ≤ i ∧ ∃ r₀ : FcgpRequest, r₀.IsNew ∧
        CoreRuns r₀.requestPtr.request (callsAlong i p ops) r.requestPtr.request) := by
  induction hruns with
  | nil =>
      refine ⟨fun r₀ hr₀ => ?_, fun hnone => ?_⟩
      · obtain rfl := Option.some.inj (hr₀.symm.trans hr')
        exact .nil
      · rw [hnone] at hr'
        cases hr'
  | @cons p p₁ p' op ops hstep _ ih =>
      have ih := ih (h.step hstep) hr'
      have halong : callsAlong i p (op :: ops) = p.callsOn i op ++ callsAlong i p₁ ops := by
        rw [callsAlong, hstep.2]
      rw [halong]
      cases h.stepOf hstep i with
      | @kept r₀ r₁ hr₀ hr₁ hcore =>
          refine ⟨fun r₀' hr₀' => ?_, fun hnone => ?_⟩
          · obtain rfl := Option.some.inj (hr₀'.symm.trans hr₀)
            exact hcore.append (ih.1 r₁ hr₁)
          · rw [hnone] at hr₀
            cases hr₀
      | @made r₁ hi hnone hr₁ hnew =>
          refine ⟨fun r₀ hr₀ => ?_, fun _ => ⟨hi.ge, r₁, hnew, ?_⟩⟩
          · rw [hnone] at hr₀
            cases hr₀
          · rw [Process.callsOn, hnone]
            exact ih.1 r₁ hr₁
      | none hgone hnext =>
          obtain ⟨hle, r₁, hnew, hcore⟩ := ih.2 hgone
          have hnot : ¬i < p.next := fun hlt => absurd (hnext hlt) (by omega)
          refine ⟨fun r₀ hr₀ => absurd (h.lt i r₀ hr₀) hnot, fun hnone => ⟨by omega, r₁, hnew, ?_⟩⟩
          rw [Process.callsOn, hnone]
          exact hcore

end Objects

/-! ### Sessions -/

/-- The calls of a session on a request are a run of the session. -/
theorem runs_session {cs : List SessionCall} {s : Session} {q : Request}
    (h : CoreRuns s.request (cs.map .session) q) :
    ∃ calls t, calls.map Prod.fst = cs ∧ Runs Session.Steps s calls t ∧ t.request = q := by
  induction cs generalizing s with
  | nil =>
      cases h
      exact ⟨[], s, rfl, .nil, rfl⟩
  | cons c cs ih =>
      cases h with
      | @cons _ q₁ _ _ _ hcall hrest =>
          have hstep := s.step_request (c, s.request.os.stale)
          have hcall : (s.request.inMemory s.request.os.stale).call c = some q₁ := hcall
          rw [hcall] at hstep
          obtain ⟨s₁, hs₁, rfl⟩ := Option.map_eq_some_iff.mp hstep
          obtain ⟨calls, t, rfl, hruns, ht⟩ := ih hrest
          exact ⟨(c, s.request.os.stale) :: calls, t, rfl, .cons hs₁ hruns, ht⟩

/-- A request is answered as long as its object is accepted. -/
theorem FcgpRequest.Inv.current_isSome {r : FcgpRequest} (h : r.Inv) {s : Session} {d : Dialogue}
    (htells : s.Tells d) (hs : s.request = r.requestPtr.request) :
    d.current.isSome = r.accepted := by
  have hspeaks := htells.speaks
  rw [hs] at hspeaks
  have hlinked := h.linked .input
  cases hcurrent : d.current with
  | none =>
      rw [hcurrent] at hspeaks
      refine (Bool.eq_false_iff.mpr fun hacc => ?_).symm
      obtain ⟨b, -, hb⟩ := h.serving hacc .input
      rw [hb, show r.requestPtr.request.stream .input = none from hspeaks.1] at hlinked
      cases hlinked
  | some a =>
      rw [hcurrent] at hspeaks
      obtain ⟨ms, whole, recs, sent, pending, -, -, -, hanswering⟩ := hspeaks
      obtain ⟨stream, hstream, -⟩ := hanswering.input
      cases hacc : r.accepted with
      | true => rfl
      | false =>
          have hstream : r.requestPtr.request.stream .input = some stream := hstream
          rw [h.idle hacc .input, hstream] at hlinked
          cases hlinked

/-- **The requests of a Perl program are sessions.** In every run, whatever the program does with
other objects, the `FCGX_Request` of an object is what the calls on it make of it. Unless the object
is finished while it is detached, these are the calls of a session, and what goes out on its
connections are whole messages that answer its requests, one behind the other; one of them is not
complete as long as the object is accepted. -/
theorem perl_dialogues {ops : List Op} {p : Process}
    (h : Runs Process.Steps Process.start ops p) {i : ℕ} {r : FcgpRequest}
    (hr : p.requests i = some r) :
    ∃ mBuffIn mBuffOut mBuffErr,
      CoreRuns (fcgxInitRequest (.sending [] [] []) mBuffIn mBuffOut mBuffErr)
          (callsAlong i .start ops) r.requestPtr.request ∧
        ∀ cs : List SessionCall, callsAlong i .start ops = cs.map .session →
          (∀ pending, .accept pending ∈ cs → ∀ os, .ok os ∈ pending → os.NeverFails ∧ os.log = []) →
            ∃ calls s d, calls.map Prod.fst = cs ∧
              Runs Session.Steps (newSession (.sending [] [] []) mBuffIn mBuffOut mBuffErr)
                calls s ∧
              s.request = r.requestPtr.request ∧ Runs Dialogue.Steps .start cs d ∧
              List.Forall₂ (fun answers log => Tells answers none (accepted log)) d.past s.left ∧
              Tells d.done d.current (accepted r.requestPtr.request.os.log) ∧
              d.current.isSome = r.accepted := by
  have hinv : p.Inv := h.invariant (fun _ _ _ hs hstep => Process.Inv.step hs hstep) inv_start
  obtain ⟨-, r₀, ⟨mBuffIn, mBuffOut, mBuffErr, hnew⟩, hcore⟩ := (inv_start.coreRuns h hr).2 rfl
  rw [hnew] at hcore
  refine ⟨mBuffIn, mBuffOut, mBuffErr, hcore, fun cs hcs hwrites => ?_⟩
  rw [hcs] at hcore
  obtain ⟨calls, s, rfl, hruns, hs⟩ :=
    runs_session (s := newSession (.sending [] [] []) mBuffIn mBuffOut mBuffErr) hcore
  have hproper : ∀ x ∈ calls, x.1.Proper := by
    rintro ⟨call, stale⟩ hx
    have hmem : call ∈ calls.map Prod.fst := List.mem_map_of_mem (f := Prod.fst) hx
    cases call with
    | accept pending => exact hwrites pending hmem
    | finish => exact trivial
    | setExitStatus status => exact trivial
    | stream which call =>
        have hmem : .session (.stream which call) ∈ callsAlong i .start ops := by
          rw [hcs]
          exact List.mem_map_of_mem hmem
        exact callsAlong_proper hmem
  have hnever : (Os.sending [] [] []).NeverFails := ⟨rfl, by simp [Os.sending]⟩
  obtain ⟨d, hdialogue, htells⟩ :=
    Session.tells_of_runs hnever rfl mBuffIn mBuffOut mBuffErr hproper hruns
  refine ⟨calls, s, d, rfl, hruns, hs, hdialogue, htells.past, ?_,
    (hinv.request i r hr).current_isSome htells hs⟩
  rw [← hs]
  exact htells.speaks.tells

/-- A program that writes an answer and leaves the handle for a while. -/
def answeringOps : List Op :=
  (List.range 4).map .make ++
    [.request (fun | .input => 0 | .out => 1 | .err => 2) 3 0 0 0 0,
      .accept 0 false [.ok (.sending plainRequest [] [])], .call 1 (.putStr [104]), .detach 0,
      .call 1 (.putStr [97]), .attach 0, .call 1 (.putStr [105]), .finish 0]

/-- The calls that come to its request. -/
def answeringCalls : List SessionCall :=
  [.accept [.ok (.sending plainRequest [] [])], .stream .out (.write (.putStr [104])),
    .stream .out (.write (.putStr [105])), .finish]

theorem perl_dialogues_answering :
    ∃ p r, ∃ (s : Session) (d : Dialogue),
      Runs Process.Steps Process.start answeringOps p ∧ p.requests 0 = some r ∧
      s.request = r.requestPtr.request ∧ Runs Dialogue.Steps .start answeringCalls d ∧
      List.Forall₂ (fun answers log => Tells answers none (accepted log)) d.past s.left ∧
      Tells d.done none (accepted r.requestPtr.request.os.log) := by
  have hrun : (exec (guardStep Process.Allows Process.step) Process.start answeringOps).map
      (fun p => (p.requests 0).map fun r => r.accepted) = some (some false) := by
    decide +kernel
  obtain ⟨p, hp, hstate⟩ := Option.map_eq_some_iff.mp hrun
  obtain ⟨r, hr, hacc⟩ := Option.map_eq_some_iff.mp hstate
  have hruns : Runs Process.Steps Process.start answeringOps p :=
    .of_exec_guardStep (fun _ _ _ h => h) hp
  have hcalls : callsAlong 0 .start answeringOps = answeringCalls.map .session := by
    with_unfolding_all rfl
  have hwrites : ∀ pending, .accept pending ∈ answeringCalls → ∀ os, .ok os ∈ pending →
      os.NeverFails ∧ os.log = [] := by
    intro pending hpending os hos
    obtain rfl : pending = [.ok (.sending plainRequest [] [])] := by
      simpa [answeringCalls] using hpending
    obtain rfl : os = .sending plainRequest [] [] := by simpa using hos
    exact ⟨⟨rfl, by simp [Os.sending]⟩, rfl⟩
  obtain ⟨_, _, _, -, hsessions⟩ := perl_dialogues hruns hr
  obtain ⟨calls, s, d, -, -, hs, hdialogue, hpast, htells, hcurrent⟩ :=
    hsessions answeringCalls hcalls hwrites
  rw [hacc, Option.isSome_eq_false_iff, Option.isNone_iff_eq_none] at hcurrent
  rw [hcurrent] at htells
  exact ⟨p, r, s, d, hruns, hr, hs, hdialogue, hpast, htells⟩

end Perl

end FastCgi
