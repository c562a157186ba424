import FastCgi.App.Stdio
import FastCgi.Perl.PopulateEnv

/-!
The request objects of the Perl binding (`perl/FCGI.xs`).

A program has any number of `FCGI` objects. Each ties its three file handles
to the streams of its request as long as the request is accepted and bound,
and several objects may share handles. The handles and the hashes are
counted, and an object keeps one reference to each of its four.

What the Perl interpreter does is modelled as far as the binding relies on
it: `sv_magic` leaves a handle alone that is tied already, and what loses its
last reference is freed with its magic. An operation is `none` where it uses
something that has been freed, and where an assertion fails.
-/

namespace FastCgi

namespace Perl

open ByteMem Machine

/-! ### The data -/

/-- What a handle is tied to: the object of class `FCGI::Stream` for a stream of a request, or an
object of the program. -/
inductive Tie where
  | stream (request : ℕ) (which : RequestStream)
  | other
  deriving DecidableEq

/-- `FCGP_Request` with the `FCGX_Request` that it points to. The handles and the hash are
addresses. -/
structure FcgpRequest where
  accepted : Bool
  bound : Bool
  /-- What `sv_setiv` has stored in `svin`, `svout` and `sverr`. -/
  sv : RequestStream → Option ℕ
  gv : RequestStream → ℕ
  hvEnv : ℕ
  requestPtr : Owned
  listenSock : ℤ

/-- What the object keeps a reference to. -/
def FcgpRequest.slots (r : FcgpRequest) : List ℕ := [r.gv .input, r.gv .out, r.gv .err, r.hvEnv]

/-- The interpreter and the static variables of `FCGI.xs`. -/
structure Process where
  requests : ℕ → Option FcgpRequest
  /-- The number of the next request. -/
  next : ℕ
  /-- `SvREFCNT` of handles and hashes; what has none is free. -/
  refcnt : ℕ → ℕ
  /-- The references that the program itself has. -/
  held : ℕ → ℕ
  /-- The `'q'` magic of a handle. -/
  magic : ℕ → Option Tie
  hashes : ℕ → Hv
  /-- `isCGI` of `FCGI_IsFastCGI`; `none` stands for -1. -/
  isCGI : Option Bool
  /-- `been_here` of `FCGI_Accept`. -/
  beenHere : Bool

/-- Before the first object. -/
def Process.start : Process where
  requests _ := none
  next := 0
  refcnt _ := 0
  held _ := 0
  magic _ := none
  hashes _ _ := none
  isCGI := none
  beenHere := false

/-! ### The interpreter -/

/-- `SvREFCNT_inc`. -/
def Process.svRefcntInc (p : Process) (a : ℕ) : Process :=
  { p with refcnt := Function.update p.refcnt a (p.refcnt a + 1) }

/-- `SvREFCNT_dec`. -/
def Process.svRefcntDec (p : Process) (a : ℕ) : Option Process :=
  match p.refcnt a with
  | 0 => none
  | 1 => some { p with
      refcnt := Function.update p.refcnt a 0, magic := Function.update p.magic a none }
  | n + 2 => some { p with refcnt := Function.update p.refcnt a (n + 1) }

/-- `sv_magic` with `'q'`. -/
def Process.svMagic (p : Process) (h : ℕ) (t : Tie) : Option Process :=
  if p.refcnt h = 0 then none
  else some { p with magic := Function.update p.magic h (some ((p.magic h).getD t)) }

/-- `sv_unmagic` with `'q'`. -/
def Process.svUnmagic (p : Process) (h : ℕ) : Option Process :=
  if p.refcnt h = 0 then none else some { p with magic := Function.update p.magic h none }

/-- The request is stored. -/
def Process.put (p : Process) (i : ℕ) (r : FcgpRequest) : Process :=
  { p with requests := Function.update p.requests i (some r) }

theorem Process.put_self (p : Process) (i : ℕ) (r : FcgpRequest) :
    (p.put i r).requests i = some r := Function.update_self ..

theorem Process.put_of_ne (p : Process) {i j : ℕ} (hj : j ≠ i) (r : FcgpRequest) :
    (p.put i r).requests j = p.requests j := Function.update_of_ne hj ..

/-! ### The functions of the binding -/

/-- `FCGI_UndoBinding`. -/
def fcgiUndoBinding (r : FcgpRequest) (p : Process) : Option (FcgpRequest × Process) :=
  (p.svUnmagic (r.gv .input)).bind fun p =>
    (p.svUnmagic (r.gv .out)).bind fun p =>
      (p.svUnmagic (r.gv .err)).map fun p => ({ r with bound := false }, p)

/-- `FCGI_Bind` of the request `i`. -/
def fcgiBind (i : ℕ) (r : FcgpRequest) (p : Process) : Option (FcgpRequest × Process) :=
  (p.svMagic (r.gv .out) (.stream i .out)).bind fun p =>
    (p.svMagic (r.gv .err) (.stream i .err)).bind fun p =>
      (p.svMagic (r.gv .input) (.stream i .input)).map fun p => ({ r with bound := true }, p)

/-- A call with the pointer that is stored for the stream; there is no telling what it does if
that is not a stream of the request. -/
def FcgpRequest.callStream (r : FcgpRequest) (which : RequestStream) (call : StreamCall) :
    Option FcgpRequest :=
  match r.sv which with
  | none => none
  | some b =>
      if r.requestPtr.stream which = some b then
        (r.requestPtr.request.streamCall which call).map fun q =>
          { r with requestPtr := { r.requestPtr with request := q } }
      else none

/-- `FCGI_Flush`. -/
def fcgiFlush (r : FcgpRequest) : Option FcgpRequest :=
  if !r.bound then some r
  else (r.callStream .out (.write .fflush)).bind fun r => r.callStream .err (.write .fflush)

/-- `FCGI_Finish`. -/
def fcgiFinish (r : FcgpRequest) (p : Process) : Option (FcgpRequest × Process) :=
  if !r.accepted then some (r, p)
  else if r.bound then
    (fcgiUndoBinding r p).bind fun (r, p) =>
      r.requestPtr.finish.map fun o => ({ r with requestPtr := o, accepted := false }, p)
  else
    let o := r.requestPtr.free (fcgxFree r.requestPtr.request true)
    some ({ r with requestPtr := o, accepted := false }, p)

/-- `FCGI_LISTENSOCK_FILENO`. -/
abbrev fcgiListensockFileno : ℤ := 0

/-- `FCGI_IsFastCGI`, where `FCGX_IsCGI` returns `fcgxIsCGI`. -/
def fcgiIsFastCGI (fcgxIsCGI : Bool) (r : FcgpRequest) (p : Process) : Bool × Process :=
  if r.listenSock = fcgiListensockFileno then
    match p.isCGI with
    | none => (!fcgxIsCGI, { p with isCGI := some fcgxIsCGI })
    | some isCGI => (!isCGI, p)
  else (true, p)

/-- `FCGI_Accept` behind `FCGX_Accept_r`, which has returned `acceptResult`. -/
def fcgiAccepted (i : ℕ) (acceptResult : ℤ) (r : FcgpRequest) (p : Process) :
    Option (ℤ × FcgpRequest × Process) :=
  if acceptResult < 0 then some (acceptResult, r, p)
  else
    match r.requestPtr.request.envp with
    | none => none
    | some envp =>
        match populateEnv envp.entries (p.hashes r.hvEnv) with
        | none => none
        | some hv =>
            let p := { p with hashes := Function.update p.hashes r.hvEnv hv }
            (fcgiBind i { r with sv := r.requestPtr.stream } p).map fun (r, p) =>
              (0, { r with accepted := true }, p)

/-- `FCGI_Accept` of the request `i`, where `OS_Accept` returns what is pending. -/
def fcgiAccept (fcgxIsCGI : Bool) (pending : List Connection) (i : ℕ) (r : FcgpRequest)
    (p : Process) : Option (ℤ × FcgpRequest × Process × List Connection) :=
  match fcgiIsFastCGI fcgxIsCGI r p with
  | (false, p) =>
      if p.beenHere then some (-1, r, p, pending)
      else some (0, r, { p with beenHere := true }, pending)
  | (true, p) =>
      (fcgiFinish r p).bind fun (r, p) =>
        (r.requestPtr.acceptR pending).bind fun (acceptResult, o, pending) =>
          (fcgiAccepted i acceptResult { r with requestPtr := o } p).map fun (rc, r, p) =>
            (rc, r, p, pending)

/-- `FCGI_StartFilterData`. -/
def fcgiStartFilterData (r : FcgpRequest) : Option FcgpRequest :=
  match r.requestPtr.stream .input with
  | none => some r
  | some _ =>
      (r.requestPtr.request.streamCall .input .startFilterData).map fun q =>
        { r with requestPtr := { r.requestPtr with request := q } }

/-- `Detach`. -/
def detach (r : FcgpRequest) (p : Process) : Option (FcgpRequest × Process) :=
  if r.accepted && r.bound then fcgiUndoBinding r p else some (r, p)

/-- `Attach` of the request `i`. -/
def attach (i : ℕ) (r : FcgpRequest) (p : Process) : Option (FcgpRequest × Process) :=
  if r.accepted && !r.bound then fcgiBind i r p else some (r, p)

/-- `FCGI_Request`. The addresses are those of the buffers that the request will get. -/
def fcgiRequest (gv : RequestStream → ℕ) (env : ℕ) (socket : ℤ) (mBuffIn mBuffOut mBuffErr : ℕ)
    (p : Process) : FcgpRequest × Process :=
  ({ accepted := false, bound := false, sv := fun _ => none, gv := gv, hvEnv := env
     requestPtr :=
      { request := fcgxInitRequest (.sending [] [] []) mBuffIn mBuffOut mBuffErr
        inStream := none, out := none, err := none, paramsPtr := none, envp := none
        freed := [], next := 0 }
     listenSock := socket },
   (((p.svRefcntInc (gv .input)).svRefcntInc (gv .out)).svRefcntInc (gv .err)).svRefcntInc env)

/-- `FCGI_Release_Request`. -/
def fcgiReleaseRequest (r : FcgpRequest) (p : Process) : Option (FcgpRequest × Process) :=
  (p.svRefcntDec (r.gv .input)).bind fun p =>
    (p.svRefcntDec (r.gv .out)).bind fun p =>
      (p.svRefcntDec (r.gv .err)).bind fun p =>
        (p.svRefcntDec r.hvEnv).bind fun p => fcgiFinish r p

/-! ### Programs -/

/-- The calls that the methods of `FCGI::Stream` make: `FCGX_PutStr` in `PRINT` and `WRITE`,
`FCGX_FFlush` in `PRINT`, `FCGX_GetStr` in `READ`, `FCGX_GetChar` in `GETC`, and `FCGX_FClose` in
`CLOSE`. -/
inductive MethodCall where
  | putStr (str : List UInt8)
  | fflush
  | getStr (n : ℕ)
  | getChar
  | fclose
  deriving DecidableEq

def MethodCall.streamCall : MethodCall → StreamCall
  | .putStr str => .write (.putStr str)
  | .fflush => .write .fflush
  | .getStr n => .read (.getStr n)
  | .getChar => .read .getChar
  | .fclose => .write .fclose

/-- A call in a method of the object that the handle `h` is tied to. Without one the handle is a
file of the process. -/
def Process.callHandle (p : Process) (h : ℕ) (call : MethodCall) : Option Process :=
  if p.refcnt h = 0 then none
  else
    match p.magic h with
    | some (.stream i which) =>
        (p.requests i).bind fun r => (r.callStream which call.streamCall).map (p.put i)
    | some .other => some p
    | none => some p

/-- What a program does: the functions of the binding, calls through handles, and with its
handles and hashes that it makes one, takes and drops references, and ties it itself. -/
inductive Op where
  | request (gv : RequestStream → ℕ) (env : ℕ) (socket : ℤ) (mBuffIn mBuffOut mBuffErr : ℕ)
  | accept (i : ℕ) (fcgxIsCGI : Bool) (pending : List Connection)
  | finish (i : ℕ)
  | flush (i : ℕ)
  | detach (i : ℕ)
  | attach (i : ℕ)
  | startFilterData (i : ℕ)
  | destroy (i : ℕ)
  | call (h : ℕ) (call : MethodCall)
  | make (a : ℕ)
  | take (a : ℕ)
  | drop (a : ℕ)
  | tie (h : ℕ)
  | untie (h : ℕ)

/-- An operation on the request `i`. -/
def Process.onRequest (p : Process) (i : ℕ)
    (f : FcgpRequest → Process → Option (FcgpRequest × Process)) : Option Process :=
  (p.requests i).bind fun r => (f r p).map fun (r, p) => p.put i r

def Process.step (p : Process) : Op → Option Process
  | .request gv env socket mBuffIn mBuffOut mBuffErr =>
      let (r, p) := fcgiRequest gv env socket mBuffIn mBuffOut mBuffErr p
      some { p.put p.next r with next := p.next + 1 }
  | .accept i fcgxIsCGI pending =>
      p.onRequest i fun r p =>
        (fcgiAccept fcgxIsCGI pending i r p).map fun x => (x.2.1, x.2.2.1)
  | .finish i => p.onRequest i fcgiFinish
  | .flush i => p.onRequest i fun r p => (fcgiFlush r).map fun r => (r, p)
  | .detach i => p.onRequest i Perl.detach
  | .attach i => p.onRequest i (Perl.attach i)
  | .startFilterData i => p.onRequest i fun r p => (fcgiStartFilterData r).map fun r => (r, p)
  | .destroy i =>
      (p.onRequest i fcgiReleaseRequest).map fun p =>
        { p with requests := Function.update p.requests i none }
  | .call h call => p.callHandle h call
  | .make a =>
      some { p with
        refcnt := Function.update p.refcnt a 1, held := Function.update p.held a 1
        magic := Function.update p.magic a none
        hashes := Function.update p.hashes a fun _ => none }
  | .take a => some { p.svRefcntInc a with held := Function.update p.held a (p.held a + 1) }
  | .drop a =>
      (p.svRefcntDec a).map fun p => { p with held := Function.update p.held a (p.held a - 1) }
  | .tie h => some { p with magic := Function.update p.magic h (some .other) }
  | .untie h => some { p with magic := Function.update p.magic h none }

/-- A program has the object that it uses, and a reference to each handle and hash. It makes
one where nothing is. -/
def Process.Allows (p : Process) : Op → Prop
  | .request gv env _ _ _ _ => (∀ which, p.refcnt (gv which) ≠ 0) ∧ p.refcnt env ≠ 0
  | .accept i _ _ | .finish i | .flush i | .detach i | .attach i | .startFilterData i
  | .destroy i => (p.requests i).isSome = true
  | .call h _ | .take h | .tie h | .untie h => p.refcnt h ≠ 0
  | .make a => p.refcnt a = 0
  | .drop a => p.held a ≠ 0

theorem forall_stream {P : RequestStream → Prop} :
    (∀ which, P which) ↔ P .input ∧ P .out ∧ P .err := by
  refine ⟨fun h => ⟨h _, h _, h _⟩, fun h which => ?_⟩
  cases which with
  | input => exact h.1
  | out => exact h.2.1
  | err => exact h.2.2

instance {P : RequestStream → Prop} [DecidablePred P] : Decidable (∀ which, P which) :=
  decidable_of_iff (P .input ∧ P .out ∧ P .err) forall_stream.symm

instance (p : Process) (op : Op) : Decidable (p.Allows op) := by
  cases op <;> unfold Process.Allows <;> infer_instance

/-- The steps of a program. -/
def Process.Steps : Process → Op → Process → Prop :=
  Guarded Process.Allows fun p op p' => p.step op = some p'

end Perl

end FastCgi
