import FastCgi.App.Session
import FastCgi.Lib.Runs

/-!
The stdio layer (`libfcgi/fcgi_stdio.c`): `FCGI_Accept` and `FCGI_Finish`.

The layer serves `the_request` and keeps pointers of its own to the streams
and the parameters of it. `Owned` is `the_request` with the blocks that its
pointers refer to and the blocks that have been freed;
`Owned.request_acceptR` says that its functions are those of `Request`.
`FcgiStdio.Safe` is what the pointers of both layers should refer to, and
`stdio_safe_iff` says in which runs they do.
-/

namespace FastCgi

open ByteMem Machine

/-! ### Who owns what -/

/-- `the_request` and the blocks that it points to. A block is a number that `malloc` gives
out once. -/
structure Owned where
  request : Request
  inStream : Option ℕ
  out : Option ℕ
  err : Option ℕ
  /-- The block of `paramsPtr->vec`. -/
  paramsPtr : Option ℕ
  envp : Option ℕ
  freed : List ℕ
  /-- The block that `malloc` returns next. -/
  next : ℕ

/-- What `FCGX_Free` frees. -/
def Owned.blocks (o : Owned) : List ℕ :=
  o.inStream.toList ++ o.out.toList ++ o.err.toList ++ o.paramsPtr.toList

/-- `FCGX_Free`, which makes `r` of the request. It sets to `NULL` what it frees; `envp` is
not touched. -/
def Owned.free (o : Owned) (r : Request) : Owned :=
  { o with
    request := r
    inStream := none, out := none, err := none, paramsPtr := none
    freed := o.freed ++ o.blocks }

/-- `FCGX_Finish_r`. -/
def Owned.finish (o : Owned) : Option Owned := (fcgxFinishR o.request).map o.free

/-- `FCGX_Accept_r` calls `NewParams` on this connection. -/
def Request.getsParams (r : Request) : Bool :=
  match fillBuffProc (openReader r) with
  | none => false
  | some c => c.req.isBeginProcessed && (roleStr c.req.role).isSome

/-- One pass of the loop of `FCGX_Accept_r`, on an open connection. -/
def Owned.acceptConnection (o : Owned) : Option (Bool × Owned) :=
  match FastCgi.acceptConnection o.request with
  | none => none
  | some (true, r) =>
      some (true, { o with
        request := r
        inStream := some o.next, paramsPtr := some (o.next + 1)
        out := some (o.next + 2), err := some (o.next + 3)
        envp := some (o.next + 1)
        next := o.next + 4 })
  | some (false, r) =>
      some (false, { o with
        inStream := some o.next
        paramsPtr := if o.request.getsParams then some (o.next + 1) else none
        next := o.next + 2 }.free r)

/-- `reqDataPtr->ipcFd = OS_Accept(...)`. -/
def Owned.connect (o : Owned) (os : Os) : Owned :=
  { o with request := { o.request with os := os, isOpen := true } }

/-- The loop of `FCGX_Accept_r` from a request without a connection. -/
def Owned.acceptLoop : List Connection → Owned → Option (ℤ × Owned × List Connection)
  | [], _ => none
  | .error errno :: pending, o => some (if 0 < errno then -errno else -9999, o, pending)
  | .ok os :: pending, o =>
      match (o.connect os).acceptConnection with
      | none => none
      | some (true, o) => some (0, o, pending)
      | some (false, o) => acceptLoop pending o

/-- `FCGX_Accept_r`. -/
def Owned.acceptR (pending : List Connection) (o : Owned) :
    Option (ℤ × Owned × List Connection) :=
  match o.finish with
  | none => none
  | some o =>
      if !o.request.isOpen then Owned.acceptLoop pending o
      else
        match o.acceptConnection with
        | none => none
        | some (true, o) => some (0, o, pending)
        | some (false, o) => Owned.acceptLoop pending o

/-! ### The wrapper -/

/-- The streams of the C library. -/
inductive StdFile where
  | stdin
  | stdout
  | stderr
  deriving DecidableEq

/-- `FCGI_FILE`. -/
structure FcgiFile where
  stdioStream : Option StdFile
  fcgxStream : Option ℕ
  deriving DecidableEq

/-- What `environ` is: the environment that the process was given, or what the layer has
assigned. -/
inductive Environ where
  | process
  | assigned (envp : Option ℕ)
  deriving DecidableEq

/-- The variables of `fcgi_stdio.c`, and `environ`. -/
structure FcgiStdio where
  acceptCalled : Bool
  isCGI : Bool
  stdin : FcgiFile
  stdout : FcgiFile
  stderr : FcgiFile
  environ : Environ
  owned : Owned

/-- `FCGI_Accept`, where `FCGX_IsCGI` returns `fcgxIsCGI` and `OS_Accept` what is pending. -/
def fcgiAccept (fcgxIsCGI : Bool) (pending : List Connection) (f : FcgiStdio) :
    Option (ℤ × FcgiStdio × List Connection) :=
  if f.acceptCalled && f.isCGI then some (-1, f, pending)
  else
    let f := if f.acceptCalled then f else { f with isCGI := fcgxIsCGI, acceptCalled := true }
    if f.isCGI then
      some (0, { f with
        stdin := ⟨some .stdin, none⟩
        stdout := ⟨some .stdout, none⟩
        stderr := ⟨some .stderr, none⟩ }, pending)
    else
      match f.owned.acceptR pending with
      | none => none
      | some (acceptResult, o, pending) =>
          if acceptResult < 0 then some (acceptResult, { f with owned := o }, pending)
          else
            some (0, { f with
              stdin := ⟨none, o.inStream⟩
              stdout := ⟨none, o.out⟩
              stderr := ⟨none, o.err⟩
              environ := .assigned o.envp
              owned := o }, pending)

/-- `FCGI_Finish`. -/
def fcgiFinish (f : FcgiStdio) : Option FcgiStdio :=
  if !f.acceptCalled || f.isCGI then some f
  else
    f.owned.finish.map fun o => { f with
      stdin := { f.stdin with fcgxStream := none }
      stdout := { f.stdout with fcgxStream := none }
      stderr := { f.stderr with fcgxStream := none }
      environ := .assigned none
      owned := o }

def FcgiStdio.file (f : FcgiStdio) : RequestStream → FcgiFile
  | .input => f.stdin
  | .out => f.stdout
  | .err => f.stderr

def Owned.stream (o : Owned) : RequestStream → Option ℕ
  | .input => o.inStream
  | .out => o.out
  | .err => o.err

/-- A call on one of the three files that is passed on to its `fcgx_stream`. On a file
without one nothing happens to the request; on a stream that is not one of the request there
is no telling. -/
def FcgiStdio.streamCall (f : FcgiStdio) (which : RequestStream) (call : StreamCall) :
    Option FcgiStdio :=
  match (f.file which).fcgxStream with
  | none => some f
  | some b =>
      if f.owned.stream which = some b then
        (f.owned.request.streamCall which call).map fun r =>
          { f with owned := { f.owned with request := r } }
      else none

/-- The calls of an application. -/
inductive StdioCall where
  | accept (pending : List Connection)
  | finish
  | stream (which : RequestStream) (call : StreamCall)

/-- One call, in a process for which `FCGX_IsCGI` returns `fcgxIsCGI`. -/
def FcgiStdio.call (fcgxIsCGI : Bool) (f : FcgiStdio) : StdioCall → Option FcgiStdio
  | .accept pending =>
      (fcgiAccept fcgxIsCGI pending f).bind fun x => if x.2.2 = [] then some x.2.1 else none
  | .finish => fcgiFinish f
  | .stream which call => f.streamCall which call

/-- Before the first call, with `the_request` as `FCGX_Init` sets it up. -/
def FcgiStdio.init (os : Os) (mBuffIn mBuffOut mBuffErr : ℕ) : FcgiStdio where
  acceptCalled := false
  isCGI := false
  stdin := ⟨none, none⟩
  stdout := ⟨none, none⟩
  stderr := ⟨none, none⟩
  environ := .process
  owned :=
    { request := fcgxInitRequest os mBuffIn mBuffOut mBuffErr
      inStream := none, out := none, err := none, paramsPtr := none, envp := none
      freed := [], next := 0 }

/-- The steps of an application. -/
def StdioSteps (fcgxIsCGI : Bool) (f : FcgiStdio) (call : StdioCall) (f' : FcgiStdio) : Prop :=
  f.call fcgxIsCGI call = some f'

/-! ### What the pointers should refer to -/

/-- The pointer `p` is `NULL` or the pointer `own` of the request, and what it refers to has
not been freed. -/
def Owned.Valid (o : Owned) (p own : Option ℕ) : Prop :=
  ∀ b, p = some b → own = some b ∧ b ∉ o.freed

/-- **No pointer refers to a finished request.** -/
structure FcgiStdio.Safe (f : FcgiStdio) : Prop where
  stream : ∀ which, f.owned.Valid (f.file which).fcgxStream (f.owned.stream which)
  environ : ∀ p, f.environ = .assigned p → f.owned.Valid p f.owned.paramsPtr
  /-- The environment of the process is only there as long as no request has been. -/
  process : f.environ = .process → f.owned.envp = none
  envp : f.owned.Valid f.owned.envp f.owned.paramsPtr

/-- The calls that keep the pointers safe: until a request has been accepted every call, and
after it no `FCGI_Finish`, and `FCGI_Accept` if `OS_Accept` does not fail. -/
def FcgiStdio.Allows (f : FcgiStdio) : StdioCall → Prop
  | .accept pending => f.owned.envp = none ∨ ∀ a ∈ pending, a.isOk = true
  | .finish => f.owned.envp = none
  | .stream _ _ => True

instance (f : FcgiStdio) (call : StdioCall) : Decidable (f.Allows call) := by
  cases call <;> unfold FcgiStdio.Allows <;> infer_instance

/-! ### What the functions of the request do -/

/-- No request is being served. -/
structure Owned.Idle (o : Owned) : Prop where
  stream : ∀ which, o.stream which = none
  paramsPtr : o.paramsPtr = none

/-- The blocks that the request points to have not been freed, and before the first request
there are none. -/
structure Owned.Inv (o : Owned) : Prop where
  freed_lt : ∀ b ∈ o.freed, b < o.next
  blocks : ∀ b ∈ o.blocks, b < o.next ∧ b ∉ o.freed
  idle : o.envp = none → o.Idle

/-- A request is being served, and `envp` is its parameters. -/
def Owned.Serving (o : Owned) : Prop := o.envp = o.paramsPtr

theorem Owned.mem_blocks {o : Owned} {b : ℕ} :
    b ∈ o.blocks ↔ (∃ which, o.stream which = some b) ∨ o.paramsPtr = some b := by
  simp only [Owned.blocks, List.mem_append, Option.mem_toList]
  constructor
  · rintro (((h | h) | h) | h)
    · exact .inl ⟨.input, h⟩
    · exact .inl ⟨.out, h⟩
    · exact .inl ⟨.err, h⟩
    · exact .inr h
  · rintro (⟨which, h⟩ | h)
    · cases which with
      | input => exact .inl (.inl (.inl h))
      | out => exact .inl (.inl (.inr h))
      | err => exact .inl (.inr h)
    · exact .inr h

theorem Owned.Idle.not_mem {o : Owned} (h : o.Idle) (b : ℕ) : b ∉ o.blocks := by
  rw [Owned.mem_blocks]
  rintro (⟨which, hb⟩ | hb)
  · exact nomatch (h.stream which).symm.trans hb
  · exact nomatch h.paramsPtr.symm.trans hb

theorem Owned.idle_free (o : Owned) (r : Request) : (o.free r).Idle :=
  ⟨fun which => by cases which <;> rfl, rfl⟩

/-- What has been freed are the blocks that were below `next`. -/
theorem Owned.Idle.inv {o : Owned} (h : o.Idle) (hfreed : ∀ b ∈ o.freed, b < o.next) :
    o.Inv where
  freed_lt := hfreed
  blocks b hb := absurd hb (h.not_mem b)
  idle _ := h

theorem Owned.free_freed_lt {o : Owned} (hfreed : ∀ b ∈ o.freed, b < o.next)
    (hblocks : ∀ b ∈ o.blocks, b < o.next) (r : Request) :
    ∀ b ∈ (o.free r).freed, b < (o.free r).next := by
  intro b hb
  rcases List.mem_append.mp hb with hb | hb
  · exact hfreed b hb
  · exact hblocks b hb

/-- **`FCGX_Finish_r`** frees the request and leaves `envp` as it was. -/
theorem Owned.Inv.finish {o o' : Owned} (h : o.Inv) (hfin : o.finish = some o') :
    o'.Inv ∧ o'.Idle ∧ o'.envp = o.envp ∧ ∀ b ∈ o.blocks, b ∈ o'.freed := by
  obtain ⟨r, -, rfl⟩ := Option.map_eq_some_iff.mp hfin
  have hidle := o.idle_free r
  refine ⟨hidle.inv ?_, hidle, rfl, fun b hb => List.mem_append_right _ hb⟩
  exact Owned.free_freed_lt h.freed_lt (fun b hb => (h.blocks b hb).1) r

/-- A new request has new blocks; a connection without one leaves nothing behind. -/
theorem Owned.acceptConnection_cases {o o' : Owned} {ok : Bool} (h : o.Inv) (hidle : o.Idle)
    (hacc : o.acceptConnection = some (ok, o')) :
    o'.Inv ∧ (∀ b ∈ o.freed, b ∈ o'.freed) ∧
      (ok = true ∧ o'.Serving ∨ ok = false ∧ o'.Idle ∧ o'.envp = o.envp) := by
  rw [Owned.acceptConnection] at hacc
  split at hacc
  · cases hacc
  · next r hone =>
      cases hacc
      -- four new blocks: the three streams and the parameters
      have hfresh : ∀ {b k : ℕ}, some (o.next + k) = some b → k < 4 →
          b < o.next + 4 ∧ b ∉ o.freed := by
        rintro b k hb hk
        obtain rfl := Option.some.inj hb
        refine ⟨by omega, fun hmem => ?_⟩
        have hlt := h.freed_lt _ hmem
        omega
      refine ⟨⟨fun b hb => ?_, fun b hb => ?_, nofun⟩, fun b hb => hb,
        .inl ⟨rfl, rfl⟩⟩
      · have hlt := h.freed_lt b hb
        show b < o.next + 4
        omega
      · rcases Owned.mem_blocks.mp hb with ⟨which, hb⟩ | hb
        · cases which with
          | input => exact hfresh (k := 0) hb (by decide)
          | out => exact hfresh hb (by decide)
          | err => exact hfresh hb (by decide)
        · exact hfresh hb (by decide)
  · next r hone =>
      cases hacc
      have hidle' := Owned.idle_free { o with
        inStream := some o.next
        paramsPtr := if o.request.getsParams then some (o.next + 1) else none
        next := o.next + 2 } r
      refine ⟨hidle'.inv (Owned.free_freed_lt (fun b hb => ?_) (fun b hb => ?_) r),
        fun b hb => List.mem_append_left _ hb, .inr ⟨rfl, hidle', rfl⟩⟩
      · have hlt := h.freed_lt b hb
        show b < o.next + 2
        omega
      · show b < o.next + 2
        rcases Owned.mem_blocks.mp hb with ⟨which, hb⟩ | hb
        · cases which with
          | input =>
              have hb : some o.next = some b := hb
              have hb := Option.some.inj hb
              omega
          | out => exact nomatch (hidle.stream .out).symm.trans hb
          | err => exact nomatch (hidle.stream .err).symm.trans hb
        · have hb : (if o.request.getsParams then some (o.next + 1) else none) = some b := hb
          split at hb
          · have hb := Option.some.inj hb
            omega
          · exact nomatch hb

/-- How `FCGX_Accept_r` can end: with a request, before `OS_Accept` has failed, or without
one, with the failure. -/
structure Owned.AcceptEnds (o o' : Owned) (rc : ℤ) (pending rest : List Connection) : Prop where
  inv : o'.Inv
  freed : ∀ b ∈ o.freed, b ∈ o'.freed
  ends : (rc = 0 ∧ o'.Serving ∧ ∃ pre, pending = pre ++ rest ∧ ∀ a ∈ pre, a.isOk = true) ∨
    rc < 0 ∧ o'.Idle ∧ o'.envp = o.envp ∧ ∃ pre errno, pending = pre ++ .error errno :: rest

theorem Owned.acceptLoop_ends {pending rest : List Connection} {o o' : Owned} {rc : ℤ}
    (h : o.Inv) (hidle : o.Idle) (hacc : Owned.acceptLoop pending o = some (rc, o', rest)) :
    o.AcceptEnds o' rc pending rest := by
  induction pending generalizing o with
  | nil => cases hacc
  | cons a pending ih =>
      cases a with
      | error errno =>
          cases hacc
          refine ⟨h, fun b hb => hb, .inr ⟨?_, hidle, rfl, [], errno, rfl⟩⟩
          split <;> omega
      | ok os =>
          rw [Owned.acceptLoop] at hacc
          have hidle' : (o.connect os).Idle := ⟨hidle.stream, hidle.paramsPtr⟩
          have hinv : (o.connect os).Inv := ⟨h.freed_lt, h.blocks, fun _ => hidle'⟩
          split at hacc
          · cases hacc
          · next o₁ hone =>
              obtain ⟨hinv₁, hfreed, ⟨-, hserving⟩ | ⟨hok, -⟩⟩ :=
                Owned.acceptConnection_cases hinv hidle' hone
              · cases hacc
                refine ⟨hinv₁, hfreed, .inl ⟨rfl, hserving, [.ok os], rfl, fun a ha => ?_⟩⟩
                obtain rfl := List.mem_singleton.mp ha
                rfl
              · exact nomatch hok
          · next o₁ hone =>
              obtain ⟨hinv₁, hfreed, ⟨hok, -⟩ | ⟨-, hidle₁, henvp⟩⟩ :=
                Owned.acceptConnection_cases hinv hidle' hone
              · exact nomatch hok
              · obtain ⟨hinv₂, hfreed₂, hends⟩ := ih hinv₁ hidle₁ hacc
                refine ⟨hinv₂, fun b hb => hfreed₂ b (hfreed b hb), ?_⟩
                rcases hends with ⟨hrc, hserving, pre, hpre, hok⟩ |
                  ⟨hrc, hidle₂, henvp₂, pre, errno, hpre⟩
                · refine .inl ⟨hrc, hserving, .ok os :: pre, by rw [hpre]; rfl, fun a ha => ?_⟩
                  rcases List.mem_cons.mp ha with rfl | ha
                  · rfl
                  · exact hok a ha
                · exact .inr ⟨hrc, hidle₂, henvp₂.trans henvp, .ok os :: pre, errno,
                    by rw [hpre]; rfl⟩

/-- **`FCGX_Accept_r`.** The request that was served has been freed, however the call ends. -/
theorem Owned.Inv.acceptR {pending rest : List Connection} {o o' : Owned} {rc : ℤ} (h : o.Inv)
    (hacc : o.acceptR pending = some (rc, o', rest)) :
    o.AcceptEnds o' rc pending rest ∧ ∀ b ∈ o.blocks, b ∈ o'.freed := by
  rw [Owned.acceptR] at hacc
  split at hacc
  · cases hacc
  · next o₁ hfin =>
      obtain ⟨hinv, hidle, henvp, hblocks⟩ := h.finish hfin
      have hkept : ∀ b ∈ o.freed, b ∈ o₁.freed := by
        obtain ⟨r, -, rfl⟩ := Option.map_eq_some_iff.mp hfin
        exact fun b hb => List.mem_append_left _ hb
      split at hacc
      · obtain ⟨hinv', hfreed, hends⟩ := Owned.acceptLoop_ends hinv hidle hacc
        rw [henvp] at hends
        exact ⟨⟨hinv', fun b hb => hfreed b (hkept b hb), hends⟩,
          fun b hb => hfreed b (hblocks b hb)⟩
      · split at hacc
        · cases hacc
        · next o₂ hone =>
            obtain ⟨hinv', hfreed, ⟨-, hserving⟩ | ⟨hok, -⟩⟩ :=
              Owned.acceptConnection_cases hinv hidle hone
            · cases hacc
              exact ⟨⟨hinv', fun b hb => hfreed b (hkept b hb),
                .inl ⟨rfl, hserving, [], rfl, fun a ha => nomatch ha⟩⟩,
                fun b hb => hfreed b (hblocks b hb)⟩
            · exact nomatch hok
        · next o₂ hone =>
            obtain ⟨hinv₂, hfreed₂, ⟨hok, -⟩ | ⟨-, hidle₂, henvp₂⟩⟩ :=
              Owned.acceptConnection_cases hinv hidle hone
            · exact nomatch hok
            · obtain ⟨hinv', hfreed, hends⟩ := Owned.acceptLoop_ends hinv₂ hidle₂ hacc
              rw [henvp₂, henvp] at hends
              exact ⟨⟨hinv', fun b hb => hfreed b (hfreed₂ b (hkept b hb)), hends⟩,
                fun b hb => hfreed b (hfreed₂ b (hblocks b hb))⟩

/-! ### The same functions -/

theorem Owned.request_finish (o : Owned) : o.finish.map Owned.request = fcgxFinishR o.request := by
  rw [Owned.finish, Option.map_map]
  exact Option.map_id'

theorem Owned.request_acceptConnection (o : Owned) :
    o.acceptConnection.map (fun x => (x.1, x.2.request)) =
      FastCgi.acceptConnection o.request := by
  rw [Owned.acceptConnection]
  rcases FastCgi.acceptConnection o.request with _ | ⟨_ | _, r⟩ <;> rfl

theorem Owned.request_acceptLoop (pending : List Connection) (o : Owned) :
    (Owned.acceptLoop pending o).map (fun x => (x.1, x.2.1.request, x.2.2)) =
      FastCgi.acceptLoop pending o.request := by
  induction pending generalizing o with
  | nil => rfl
  | cons a pending ih =>
      cases a with
      | error errno => rfl
      | ok os =>
          have hacc : (o.connect os).acceptConnection.map (fun x => (x.1, x.2.request)) =
              FastCgi.acceptConnection { o.request with os := os, isOpen := true } :=
            (o.connect os).request_acceptConnection
          simp only [Owned.acceptLoop, FastCgi.acceptLoop, ← hacc]
          rcases (o.connect os).acceptConnection with _ | ⟨_ | _, o₁⟩
          · rfl
          · exact ih o₁
          · rfl

/-- **To keep account of the blocks changes nothing** about `FCGX_Accept_r`. -/
theorem Owned.request_acceptR (pending : List Connection) (o : Owned) :
    (o.acceptR pending).map (fun x => (x.1, x.2.1.request, x.2.2)) =
      fcgxAcceptR true pending o.request := by
  rw [Owned.acceptR, fcgxAcceptR, ← o.request_finish]
  cases o.finish with
  | none => rfl
  | some o₁ =>
      have hacc := o₁.request_acceptConnection
      simp only [Option.map_some, ← hacc]
      by_cases hclosed : (!o₁.request.isOpen) = true
      · rw [if_pos hclosed, if_neg (by decide), if_pos hclosed]
        exact o₁.request_acceptLoop pending
      · rw [if_neg hclosed, if_neg (by decide), if_neg hclosed]
        rcases o₁.acceptConnection with _ | ⟨_ | _, o₂⟩
        · rfl
        · exact o₂.request_acceptLoop pending
        · rfl

/-! ### What the wrapper does -/

/-- In CGI mode, and before the first call, there is no request. -/
structure FcgiStdio.Inv (f : FcgiStdio) : Prop where
  owned : f.owned.Inv
  quiet : f.acceptCalled = false ∨ f.isCGI = true → f.owned.envp = none

/-- **What `FCGI_Accept` can do**: nothing, set up the files for CGI, or pass on what
`FCGX_Accept` does and copy the pointers unless that has failed. -/
theorem fcgiAccept_cases {fcgxIsCGI : Bool} {pending rest : List Connection} {f f' : FcgiStdio}
    {rc : ℤ} (h : fcgiAccept fcgxIsCGI pending f = some (rc, f', rest)) :
    (f.isCGI = true ∧ f' = f) ∨
    (f.acceptCalled = false ∧ f'.owned = f.owned ∧ f'.environ = f.environ ∧
      ∀ which, (f'.file which).fcgxStream = none) ∨
    ∃ acceptResult, f.owned.acceptR pending = some (acceptResult, f'.owned, rest) ∧
      f'.acceptCalled = true ∧ f'.isCGI = false ∧
      (acceptResult < 0 ∧ (∀ which, f'.file which = f.file which) ∧ f'.environ = f.environ ∨
        ¬acceptResult < 0 ∧ (∀ which, (f'.file which).fcgxStream = f'.owned.stream which) ∧
          f'.environ = .assigned f'.owned.envp) := by
  rw [fcgiAccept] at h
  split at h
  · next hagain =>
      cases h
      exact .inl ⟨(Bool.and_eq_true_iff.mp hagain).2, rfl⟩
  · next hagain =>
      -- `g` is the state in which it is known whether this is CGI
      generalize hg : (if f.acceptCalled = true then f
        else { f with isCGI := fcgxIsCGI, acceptCalled := true }) = g at h
      have hcalled : g.acceptCalled = true := by
        rw [← hg]
        split
        · assumption
        · rfl
      have howned : g.owned = f.owned := by rw [← hg]; split <;> rfl
      have henviron : g.environ = f.environ := by rw [← hg]; split <;> rfl
      have hfile : ∀ which, g.file which = f.file which := by
        intro which
        rw [← hg]
        split
        · rfl
        · cases which <;> rfl
      simp only at h
      split at h
      · next hcgi =>
          cases h
          refine .inr (.inl ⟨?_, howned, henviron, fun which => by cases which <;> rfl⟩)
          rw [← hg] at hcgi
          split at hcgi
          · next hf => exact absurd (Bool.and_eq_true_iff.mpr ⟨hf, hcgi⟩) hagain
          · next hf => exact Bool.eq_false_iff.mpr hf
      · next hcgi =>
          have hcgi : g.isCGI = false := Bool.eq_false_iff.mpr hcgi
          rw [howned] at h
          split at h
          · cases h
          · next rc o rest hacc =>
              split at h
              · next hneg =>
                  cases h
                  refine .inr (.inr ⟨_, hacc, hcalled, hcgi,
                    .inl ⟨hneg, fun which => ?_, henviron⟩⟩)
                  rw [← hfile which]
                  cases which <;> rfl
              · next hpos =>
                  cases h
                  exact .inr (.inr ⟨_, hacc, hcalled, hcgi,
                    .inr ⟨hpos, fun which => by cases which <;> rfl, rfl⟩⟩)

theorem fcgiFinish_cases {f f' : FcgiStdio} (h : fcgiFinish f = some f') :
    ((f.acceptCalled = false ∨ f.isCGI = true) ∧ f' = f) ∨
    f.owned.finish = some f'.owned ∧ f'.acceptCalled = true ∧ f'.isCGI = false ∧
      f'.environ = .assigned none ∧ ∀ which, (f'.file which).fcgxStream = none := by
  rw [fcgiFinish] at h
  split at h
  · next hidle =>
      cases h
      refine .inl ⟨?_, rfl⟩
      simpa using hidle
  · next hserving =>
      obtain ⟨o, hfin, rfl⟩ := Option.map_eq_some_iff.mp h
      simp only [Bool.or_eq_true, Bool.not_eq_true', not_or, Bool.not_eq_true,
        Bool.not_eq_false] at hserving
      exact .inr ⟨hfin, hserving.1, hserving.2, rfl, fun which => by cases which <;> rfl⟩

theorem FcgiStdio.streamCall_cases {f f' : FcgiStdio} {which : RequestStream} {call : StreamCall}
    (h : f.streamCall which call = some f') :
    ∃ r, f' = { f with owned := { f.owned with request := r } } := by
  rw [FcgiStdio.streamCall] at h
  split at h
  · cases h
    exact ⟨_, rfl⟩
  · split at h
    · obtain ⟨r, -, rfl⟩ := Option.map_eq_some_iff.mp h
      exact ⟨r, rfl⟩
    · cases h

/-! ### One call -/

theorem Owned.Valid.null (o : Owned) (own : Option ℕ) : o.Valid none own := nofun

/-- A block of the request may be pointed to. -/
theorem Owned.Inv.valid {o : Owned} (h : o.Inv) {p : Option ℕ}
    (hp : ∀ b, p = some b → b ∈ o.blocks) : o.Valid p p :=
  fun b hb => ⟨hb, (h.blocks b (hp b hb)).2⟩

/-- A pointer to a request that is not there is `NULL`. -/
theorem Owned.Valid.eq_none {o : Owned} {p own : Option ℕ} (h : o.Valid p own)
    (hown : own = none) : p = none :=
  Option.eq_none_iff_forall_ne_some.mpr fun b hb => nomatch hown.symm.trans (h b hb).1

/-- Where no request has been accepted all pointers are `NULL`. -/
theorem FcgiStdio.Safe.null {f : FcgiStdio} (h : f.Safe) (hinv : f.Inv)
    (henvp : f.owned.envp = none) :
    (∀ which, (f.file which).fcgxStream = none) ∧ ∀ p, f.environ = .assigned p → p = none :=
  ⟨fun which => (h.stream which).eq_none ((hinv.owned.idle henvp).stream which),
    fun p hp => (h.environ p hp).eq_none (hinv.owned.idle henvp).paramsPtr⟩

/-- Pointers that are all `NULL` are safe. -/
theorem FcgiStdio.Safe.of_null {f : FcgiStdio} (hstream : ∀ which, (f.file which).fcgxStream = none)
    (henviron : ∀ p, f.environ = .assigned p → p = none) (henvp : f.owned.envp = none) :
    f.Safe where
  stream which := hstream which ▸ .null _ _
  environ p hp := henviron p hp ▸ .null _ _
  process _ := henvp
  envp := henvp ▸ .null _ _

/-- `envp` of a request that has been finished is not safe. -/
theorem FcgiStdio.not_safe {f : FcgiStdio} (hidle : f.owned.Idle) (henvp : f.owned.envp ≠ none) :
    ¬f.Safe := fun h => henvp (h.envp.eq_none hidle.paramsPtr)

theorem FcgiStdio.Inv.call {fcgxIsCGI : Bool} {f f' : FcgiStdio} {call : StdioCall} (h : f.Inv)
    (hcall : f.call fcgxIsCGI call = some f') : f'.Inv := by
  cases call with
  | accept pending =>
      obtain ⟨⟨rc, f₁, rest⟩, hacc, hcall⟩ := Option.bind_eq_some_iff.mp hcall
      split at hcall
      · obtain rfl := Option.some.inj hcall
        rcases fcgiAccept_cases hacc with ⟨-, rfl⟩ | ⟨hfirst, howned, -⟩ |
          ⟨_, hacc, hcalled, hcgi, -⟩
        · exact h
        · exact ⟨howned ▸ h.owned, fun _ => howned ▸ h.quiet (.inl hfirst)⟩
        · refine ⟨(h.owned.acceptR hacc).1.inv, ?_⟩
          rintro (hfalse | htrue)
          · exact nomatch hcalled.symm.trans hfalse
          · exact nomatch hcgi.symm.trans htrue
      · exact nomatch hcall
  | finish =>
      rcases fcgiFinish_cases hcall with ⟨-, rfl⟩ | ⟨hfin, hcalled, hcgi, -⟩
      · exact h
      · refine ⟨(h.owned.finish hfin).1, ?_⟩
        rintro (hfalse | htrue)
        · exact nomatch hcalled.symm.trans hfalse
        · exact nomatch hcgi.symm.trans htrue
  | stream which call =>
      obtain ⟨r, rfl⟩ := FcgiStdio.streamCall_cases hcall
      exact ⟨⟨h.owned.freed_lt, h.owned.blocks, fun hnone =>
        ⟨(h.owned.idle hnone).stream, (h.owned.idle hnone).paramsPtr⟩⟩, h.quiet⟩

theorem FcgiStdio.Safe.accept {fcgxIsCGI : Bool} {pending : List Connection} {f f' : FcgiStdio}
    {rc : ℤ} (h : f.Safe) (hinv : f.Inv)
    (hacc : fcgiAccept fcgxIsCGI pending f = some (rc, f', [])) :
    f'.Safe ↔ f.Allows (.accept pending) := by
  rcases fcgiAccept_cases hacc with ⟨hcgi, rfl⟩ | ⟨hfirst, howned, henviron, hnull⟩ |
    ⟨_, hacc, -, -, hcopied⟩
  · exact iff_of_true h (.inl (hinv.quiet (.inr hcgi)))
  · have henvp := hinv.quiet (.inl hfirst)
    refine iff_of_true (.of_null hnull ?_ (howned ▸ henvp)) (.inl henvp)
    exact fun p hp => (h.null hinv henvp).2 p (henviron ▸ hp)
  · obtain ⟨hinv', -, ⟨hrc, hserving, pre, hpre, hok⟩ | ⟨hrc, hidle, hkept, pre, errno, hpre⟩⟩ :=
      (hinv.owned.acceptR hacc).1
    · -- the copies are those of the new request
      obtain ⟨hneg, -⟩ | ⟨-, hstream, henviron⟩ := hcopied
      · omega
      · have hparams : f'.owned.Valid f'.owned.envp f'.owned.paramsPtr := by
          rw [show f'.owned.envp = f'.owned.paramsPtr from hserving]
          exact hinv'.valid fun b hb => Owned.mem_blocks.mpr (.inr hb)
        refine iff_of_true ⟨fun which => ?_, fun p hp => ?_, fun hp => ?_, hparams⟩ (.inr ?_)
        · rw [hstream which]
          exact hinv'.valid fun b hb => Owned.mem_blocks.mpr (.inl ⟨which, hb⟩)
        · obtain rfl : f'.owned.envp = p := Environ.assigned.inj (henviron.symm.trans hp)
          exact hparams
        · exact nomatch henviron.symm.trans hp
        · rw [hpre, List.append_nil]
          exact hok
    · -- nothing is copied, and there is no request any more
      obtain ⟨-, hfile, henviron⟩ | ⟨hneg, -⟩ := hcopied
      · constructor
        · intro hsafe
          refine .inl (Decidable.not_not.mp fun henvp => ?_)
          exact FcgiStdio.not_safe hidle (hkept ▸ henvp) hsafe
        · rintro (henvp | hok)
          · obtain ⟨hnull, hnull'⟩ := h.null hinv henvp
            refine .of_null (fun which => ?_) (fun p hp => ?_) (hkept ▸ henvp)
            · rw [hfile which, hnull which]
            · exact hnull' p (henviron ▸ hp)
          · exact nomatch hok (.error errno) (hpre ▸ List.mem_append_right _ List.mem_cons_self)
      · omega

theorem FcgiStdio.Safe.finish {f f' : FcgiStdio} (h : f.Safe) (hinv : f.Inv)
    (hfin : fcgiFinish f = some f') : f'.Safe ↔ f.Allows .finish := by
  rcases fcgiFinish_cases hfin with ⟨hquiet, rfl⟩ | ⟨hfin, -, -, henviron, hnull⟩
  · exact iff_of_true h (hinv.quiet hquiet)
  · obtain ⟨-, hidle, hkept, -⟩ := hinv.owned.finish hfin
    constructor
    · exact fun hsafe => Decidable.not_not.mp fun henvp =>
        FcgiStdio.not_safe hidle (hkept ▸ henvp) hsafe
    · intro henvp
      refine .of_null hnull (fun p hp => ?_) (hkept.trans henvp)
      exact (Environ.assigned.inj (henviron.symm.trans hp)).symm

/-- **One call.** Out of a safe state exactly the calls of `FcgiStdio.Allows` end in one. -/
theorem FcgiStdio.Safe.call_iff {fcgxIsCGI : Bool} {f f' : FcgiStdio} {call : StdioCall}
    (h : f.Safe) (hinv : f.Inv) (hcall : f.call fcgxIsCGI call = some f') :
    f'.Safe ↔ f.Allows call := by
  cases call with
  | accept pending =>
      obtain ⟨⟨rc, f₁, rest⟩, hacc, hcall⟩ := Option.bind_eq_some_iff.mp hcall
      split at hcall
      · next hrest =>
          obtain rfl := Option.some.inj hcall
          obtain rfl : rest = [] := hrest
          exact h.accept hinv hacc
      · exact nomatch hcall
  | finish => exact h.finish hinv hcall
  | stream which call =>
      obtain ⟨r, rfl⟩ := FcgiStdio.streamCall_cases hcall
      exact iff_of_true ⟨h.stream, h.environ, h.process, h.envp⟩ trivial

/-! ### Whole runs -/

/-- **The stdio layer over whole runs.** All the states of a run are safe exactly if it takes
only the steps of `FcgiStdio.Allows`. -/
theorem stdio_safe_iff (os : Os) (mBuffIn mBuffOut mBuffErr : ℕ) (fcgxIsCGI : Bool)
    (calls : List StdioCall) (f : FcgiStdio)
    (h : Runs (StdioSteps fcgxIsCGI) (.init os mBuffIn mBuffOut mBuffErr) calls f) :
    (∀ pre g, pre <+: calls →
        Runs (StdioSteps fcgxIsCGI) (.init os mBuffIn mBuffOut mBuffErr) pre g → g.Safe) ↔
      Runs (Guarded FcgiStdio.Allows (StdioSteps fcgxIsCGI))
        (.init os mBuffIn mBuffOut mBuffErr) calls f := by
  have hidle : (FcgiStdio.init os mBuffIn mBuffOut mBuffErr).owned.Idle :=
    ⟨fun which => by cases which <;> rfl, rfl⟩
  refine Runs.guarded_iff (I := FcgiStdio.Inv) ?_ (fun _ _ _ hinv hstep => hinv.call hstep)
    (fun _ _ _ hinv hsafe hstep => hsafe.call_iff hinv hstep) ?_ ?_ h
  · exact fun f call g g' hg hg' => Option.some.inj (hg.symm.trans hg')
  · exact ⟨hidle.inv nofun, fun _ => rfl⟩
  · exact .of_null (fun which => by cases which <;> rfl) nofun rfl

/-- An application that accepts again after a connection that fails. -/
theorem stdio_safe_iff_two :
    ∃ f, Runs (StdioSteps false) (.init (.sending [] [] []) 0 0 0)
        [.accept [.ok (.sending plainRequest [] [])], .stream .input (.read .getChar),
          .accept [.ok (.sending [] [] []), .ok (.sending plainRequest [] [])]] f ∧
      ∀ pre g, pre <+: [StdioCall.accept [.ok (.sending plainRequest [] [])],
          .stream .input (.read .getChar),
          .accept [.ok (.sending [] [] []), .ok (.sending plainRequest [] [])]] →
        Runs (StdioSteps false) (.init (.sending [] [] []) 0 0 0) pre g → g.Safe := by
  have hexec : (exec (guardStep FcgiStdio.Allows (FcgiStdio.call false))
      (.init (.sending [] [] []) 0 0 0)
      [.accept [.ok (.sending plainRequest [] [])], .stream .input (.read .getChar),
        .accept [.ok (.sending [] [] []), .ok (.sending plainRequest [] [])]]).isSome = true := by
    decide +kernel
  obtain ⟨f, hf⟩ := Option.isSome_iff_exists.mp hexec
  have hsteps : ∀ f call f', FcgiStdio.call false f call = some f' → StdioSteps false f call f' :=
    fun _ _ _ h => h
  have hguarded := Runs.of_exec_guardStep hsteps hf
  have hrun := hguarded.mono fun _ _ _ h => h.2
  exact ⟨f, hrun, (stdio_safe_iff _ _ _ _ _ _ _ hrun).mpr hguarded⟩

/-- **The stdio layer exposes a finished request**: all its pointers after an `FCGI_Accept` that
fails, and `envp` after `FCGI_Finish`. -/
theorem stdio_exposes_finished :
    (∃ f, Runs (StdioSteps false) (.init (.sending [] [] []) 0 0 0)
        [.accept [.ok (.sending plainRequest [] [])], .accept [.error 4]] f ∧
      f.stdin = ⟨none, some 0⟩ ∧ f.stdout = ⟨none, some 2⟩ ∧ f.stderr = ⟨none, some 3⟩ ∧
      f.environ = .assigned (some 1) ∧ f.owned.envp = some 1 ∧ f.owned.freed = [0, 2, 3, 1] ∧
      ¬f.Safe) ∧
    ∃ f, Runs (StdioSteps false) (.init (.sending [] [] []) 0 0 0)
        [.accept [.ok (.sending plainRequest [] [])], .finish] f ∧
      f.environ = .assigned none ∧ f.owned.envp = some 1 ∧ f.owned.freed = [0, 2, 3, 1] ∧
      ¬f.Safe := by
  have hfailed : (exec (FcgiStdio.call false) (.init (.sending [] [] []) 0 0 0)
      [.accept [.ok (.sending plainRequest [] [])], .accept [.error 4]]).map
        (fun f => ([f.stdin, f.stdout, f.stderr], f.environ, f.owned.envp, f.owned.freed)) =
      some ([⟨none, some 0⟩, ⟨none, some 2⟩, ⟨none, some 3⟩], .assigned (some 1), some 1,
        [0, 2, 3, 1]) := by
    decide +kernel
  have hfinished : (exec (FcgiStdio.call false) (.init (.sending [] [] []) 0 0 0)
      [.accept [.ok (.sending plainRequest [] [])], .finish]).map
        (fun f => (f.environ, f.owned.envp, f.owned.freed)) =
      some (.assigned none, some 1, [0, 2, 3, 1]) := by
    decide +kernel
  -- block 1 is the parameters of the request that has been finished
  have hfreed : ∀ f : FcgiStdio, f.owned.envp = some 1 → f.owned.freed = [0, 2, 3, 1] →
      ¬f.Safe := by
    intro f henvp hfreed hsafe
    refine (hsafe.envp 1 henvp).2 ?_
    rw [hfreed]
    decide
  constructor
  · obtain ⟨f, hf, heq⟩ := Option.map_eq_some_iff.mp hfailed
    simp only [Prod.mk.injEq, List.cons.injEq] at heq
    obtain ⟨⟨hin, hout, herr, -⟩, henviron, henvp, hblocks⟩ := heq
    exact ⟨f, .of_exec (fun _ _ _ h => h) hf, hin, hout, herr, henviron, henvp, hblocks,
      hfreed f henvp hblocks⟩
  · obtain ⟨f, hf, heq⟩ := Option.map_eq_some_iff.mp hfinished
    simp only [Prod.mk.injEq] at heq
    obtain ⟨henviron, henvp, hblocks⟩ := heq
    exact ⟨f, .of_exec (fun _ _ _ h => h) hf, henviron, henvp, hblocks, hfreed f henvp hblocks⟩

end FastCgi
