import FastCgi.App.ByteCalls
import FastCgi.App.StaleMemory

/-!
Sessions that cannot get stuck.

`reader_total` and the bounds of a writer are about streams that are used
for what they are. Nothing keeps an application from reading from a
writer, from writing to a reader, from `FCGX_StartFilterData` on its
output, or from going on after an error that it has cleared. Whatever it
does, and whatever the descriptors do, the input stream stays usable and
the writers stay writers (`Request.InOrder`), and from there every call
returns (`session_total`).
-/

namespace FastCgi

open ByteMem BoundedLoop Machine

/-! ### A call on a stream of the other kind -/

/-- A writing call on a reader returns. -/
theorem ClientCall.perform_reader_total (call : ClientCall) {c : Chan}
    (hreader : c.stream.isReader = true) : ∃ c', call.perform c = some c' := by
  have hguard : (c.stream.isClosed || c.stream.isReader) = true := by simp [hreader]
  cases call with
  | putChar b =>
      rw [ClientCall.perform, fcgxPutChar, if_pos hguard]
      split
      · exact ⟨_, rfl⟩
      · exact ⟨_, rfl⟩
  | putStr str =>
      have hleave (x : ℕ × Chan) (hx : x.2.stream.isReader = true) :
          putStrEmpty x = some (.done (-1, x.2)) := by simp [putStrEmpty, hx]
      have hbody : ∃ y, putStrBody str (0, c) = some (.done y) := by
        rw [putStrBody]
        split
        · exact ⟨_, hleave (0, c) hreader⟩
        · split
          · exact ⟨_, rfl⟩
          · exact ⟨_, hleave (_, c.put _) hreader⟩
      obtain ⟨y, hy⟩ := hbody
      rw [ClientCall.perform, fcgxPutStr]
      split
      · exact ⟨_, rfl⟩
      · exact ⟨y.2, by rw [run_done hy]; rfl⟩
  | fflush => exact ⟨_, rfl⟩
  | fclose =>
      have hclose : ∃ d, (if c.stream.wasFCloseCalled then some c else closeChan c) = some d := by
        rw [closeChan, if_pos hreader]
        split
        · exact ⟨_, rfl⟩
        · exact ⟨_, rfl⟩
      obtain ⟨d, hd⟩ := hclose
      exact ⟨d, by rw [ClientCall.perform, fcgxFClose, hd]; rfl⟩

/-- **Any call on the input stream** returns. -/
theorem Chan.Usable.total {c : Chan} (h : c.Usable) (call : StreamCall) :
    ∃ c', call.perform c = some c' := by
  cases call with
  | read call =>
      rcases h.state with ho | ⟨-, hclosed⟩
      · have hserving : c.Serving := ⟨h.isBeginProcessed, .inl ho⟩
        obtain ⟨xs, c', hcall, -⟩ := hserving.read call
        exact ⟨c', by rw [StreamCall.perform, hcall]; rfl⟩
      · exact ⟨c, by rw [StreamCall.perform, ReadCall.perform_closed hclosed]; rfl⟩
  | unGetChar b => exact ⟨_, rfl⟩
  | write call => exact call.perform_reader_total h.buffered.isReader
  | startFilterData => exact ⟨_, rfl⟩
  | clearError => exact ⟨_, rfl⟩

/-- A writer with another error, or none, and closed or not as its buffer allows. -/
theorem Stream.IsWriter.withError {s : Stream} (h : s.IsWriter) (e : ℤ) {isClosed : Bool}
    (hclosed : s.isClosed = true → isClosed = true) :
    Stream.IsWriter { s with fcgiErrno := e, isClosed := isClosed } where
  isReader := h.isReader
  wrNext_le := h.wrNext_le
  stop_eq := h.stop_eq
  isClosed hcalled := hclosed (h.isClosed hcalled)
  bufflen_mod := h.bufflen_mod
  bufflen_ge := h.bufflen_ge
  bufflen_le := h.bufflen_le

/-- **Any call on a writer** returns, and leaves a writer. -/
theorem Stream.IsWriter.total {c : Chan} (h : c.stream.IsWriter) (call : StreamCall) :
    ∃ c', call.perform c = some c' ∧ c'.stream.IsWriter := by
  have hguard : (c.stream.isClosed || !c.stream.isReader) = true := by simp [h.isReader]
  cases call with
  | read call =>
      cases call with
      | getChar =>
          exact ⟨c, by rw [StreamCall.perform, ReadCall.perform, fcgxGetChar, if_pos hguard]; rfl, h⟩
      | getStr n =>
          refine ⟨c, ?_, h⟩
          rw [StreamCall.perform, ReadCall.perform, fcgxGetStr, if_pos (by simp [h.isReader])]
          rfl
  | unGetChar b => exact ⟨c, by simp [StreamCall.perform, fcgxUnGetChar, h.isReader], h⟩
  | write call =>
      obtain ⟨c', hcall, hw, -⟩ := call.perform_grows h
      exact ⟨c', hcall, hw⟩
  | startFilterData =>
      refine ⟨c.setError fcgxCallSeqError, ?_, h.withError _ fun _ => rfl⟩
      rw [StreamCall.perform, fcgxStartFilterData, if_pos (by simp [h.isReader])]
  | clearError => exact ⟨_, rfl, h.withError 0 id⟩

/-! ### The requests of a session -/

/-- The streams of the request, if it has any, are what they are made for. -/
structure Request.InOrder (r : Request) : Prop where
  input : r.InputUsable
  writers : ∀ w s, r.writer w = some s → s.IsWriter

section Requests

variable {r r' : Request}

theorem Request.InOrder.of_none (hin : r.inStream = none) (hout : r.out = none)
    (herr : r.err = none) : r.InOrder where
  input s hs := by
    rw [hin] at hs
    cases hs
  writers w s hs := by
    cases w with
    | out =>
        have hs : r.out = some s := hs
        rw [hout] at hs
        cases hs
    | err =>
        have hs : r.err = some s := hs
        rw [herr] at hs
        cases hs

theorem Request.InOrder.fcgxFree (r : Request) (close : Bool) : (fcgxFree r close).InOrder :=
  .of_none rfl rfl rfl

/-- **A call on a stream.** -/
theorem Request.InOrder.streamCall (h : r.InOrder) {which : RequestStream} {s : Stream}
    (hs : r.stream which = some s) (call : StreamCall) :
    ∃ r', r.streamCall which call = some r' ∧ r'.InOrder := by
  have hreturns : ∃ c, call.perform (r.chan s) = some c ∧
      (which ≠ .input → c.stream.IsWriter) := by
    cases which with
    | input =>
        obtain ⟨c, hc⟩ := (h.input s hs).total call
        exact ⟨c, hc, fun hne => absurd rfl hne⟩
    | out =>
        obtain ⟨c, hc, hw⟩ := (h.writers .out s hs).total (c := r.chan s) call
        exact ⟨c, hc, fun _ => hw⟩
    | err =>
        obtain ⟨c, hc, hw⟩ := (h.writers .err s hs).total (c := r.chan s) call
        exact ⟨c, hc, fun _ => hw⟩
  obtain ⟨c, hc, hwriter⟩ := hreturns
  have hcall : r.streamCall which call = some (r.putStream which c) := by
    rw [Request.streamCall, hs, Option.bind_some, hc, Option.map_some]
  have hstep : StreamSteps r (which, call) (r.putStream which c) := hcall
  refine ⟨r.putStream which c, hcall, ⟨h.input.step hstep, ?_⟩⟩
  intro w t ht
  cases which with
  | input => exact h.writers w t (by cases w <;> exact ht)
  | out =>
      cases w with
      | out =>
          cases ht
          exact hwriter (by decide)
      | err => exact h.writers .err t ht
  | err =>
      cases w with
      | out => exact h.writers .out t ht
      | err =>
          cases ht
          exact hwriter (by decide)

/-- Closing a writer that is there or not. -/
theorem fcgxFCloseOpt_total (r : Request) {s : Option Stream} (h : ∀ t, s = some t → t.IsWriter) :
    ∃ rc s' r', fcgxFCloseOpt r s = some (rc, s', r') ∧ r'.out = r.out := by
  cases s with
  | none => exact ⟨0, none, r, rfl, rfl⟩
  | some t =>
      obtain ⟨rc, c, hclose, -⟩ := fcgxFClose_grows (c := r.chan t) (h t rfl)
      exact ⟨rc, some c.stream, { r with req := c.req, os := c.os }, by rw [fcgxFCloseOpt, hclose],
        rfl⟩

/-- **`FCGX_Finish_r`.** -/
theorem Request.InOrder.finish (h : r.InOrder) : ∃ r', fcgxFinishR r = some r' ∧ r'.InOrder := by
  obtain ⟨rc, s₁, r₁, hclose₁, hout₁⟩ := fcgxFCloseOpt_total r (h.writers .err)
  have herr : closeErr r = some (rc, { r₁ with err := s₁ }) := by
    rw [closeErr, show fcgxFCloseOpt r r.err = some (rc, s₁, r₁) from hclose₁]
    rfl
  obtain ⟨rc', s₂, r₂, hclose₂, -⟩ := fcgxFCloseOpt_total { r₁ with err := s₁ }
    (s := r₁.out) fun t ht => h.writers .out t (hout₁.symm.trans ht)
  have hout : closeOut { r₁ with err := s₁ } = some (rc', { r₂ with out := s₂ }) := by
    rw [closeOut, hclose₂]
    rfl
  rw [fcgxFinishR, herr]
  simp only [hout]
  split
  · exact ⟨_, rfl, .fcgxFree _ _⟩
  · exact ⟨_, rfl, .fcgxFree _ _⟩

theorem acceptConnection_total (r : Request) :
    ∃ ok r', acceptConnection r = some (ok, r') ∧ r'.InOrder := by
  obtain ⟨res, c, hread, -⟩ := readRequest_spec (fresh_openReader r)
  cases res with
  | none => exact ⟨false, _, by rw [acceptConnection, hread], .fcgxFree _ _⟩
  | some params =>
      have hacc : acceptConnection r = some (true, buildRequest r c params) := by
        rw [acceptConnection, hread]
      refine ⟨true, _, hacc, ⟨fun s hs => (serving_accepted hacc hs).toUsable, fun w s hs => ?_⟩⟩
      cases w with
      | out =>
          cases hs
          exact (holding_newStream ..).toIsWriter
      | err =>
          cases hs
          exact (holding_newStream ..).toIsWriter

theorem inOrder_of_accepted {ok : Bool} (h : acceptConnection r = some (ok, r')) : r'.InOrder := by
  obtain ⟨ok', r₁, hacc, h₁⟩ := acceptConnection_total r
  rw [h] at hacc
  cases hacc
  exact h₁

theorem inOrder_of_finished (h : r.InOrder) (hfin : fcgxFinishR r = some r') : r'.InOrder := by
  obtain ⟨r₁, hfin₁, h₁⟩ := h.finish
  rw [hfin] at hfin₁
  cases hfin₁
  exact h₁

theorem LoopEnds.inOrder {pending rest : List Connection} {rc : ℤ}
    (hloop : LoopEnds pending r rc r' rest) (h : r.InOrder) : r'.InOrder := by
  induction hloop with
  | failed => exact h
  | accepted hacc => exact inOrder_of_accepted hacc
  | givenUp hacc _ ih => exact ih (inOrder_of_accepted hacc)

/-- The loop of `FCGX_Accept_r`, until `OS_Accept` fails at the latest. -/
theorem acceptLoop_total (pending : List Connection) (errno : ℤ) (h : r.InOrder) :
    ∃ rc r' rest, acceptLoop (pending ++ [.error errno]) r = some (rc, r', rest) ∧ r'.InOrder := by
  induction pending generalizing r with
  | nil => exact ⟨_, r, [], rfl, h⟩
  | cons peer pending ih =>
      cases peer with
      | error e => exact ⟨_, r, _, rfl, h⟩
      | ok os =>
          obtain ⟨ok, r₁, hacc, h₁⟩ := acceptConnection_total { r with os := os, isOpen := true }
          cases ok with
          | true => exact ⟨0, r₁, _, by rw [List.cons_append, acceptLoop, hacc], h₁⟩
          | false =>
              obtain ⟨rc, r', rest, hloop, h'⟩ := ih h₁
              exact ⟨rc, r', rest, by rw [List.cons_append, acceptLoop, hacc]; exact hloop, h'⟩

/-- **`FCGX_Accept_r`.** -/
theorem Request.InOrder.accept (h : r.InOrder) (pending : List Connection) (errno : ℤ) :
    ∃ rc r' rest, fcgxAcceptR true (pending ++ [.error errno]) r = some (rc, r', rest) ∧
      r'.InOrder := by
  obtain ⟨r₀, hfin, h₀⟩ := h.finish
  rw [fcgxAcceptR, if_neg (by decide), hfin]
  simp only
  split
  · exact acceptLoop_total pending errno h₀
  · obtain ⟨ok, r₁, hacc, h₁⟩ := acceptConnection_total r₀
    rw [hacc]
    cases ok with
    | true => exact ⟨0, r₁, _, rfl, h₁⟩
    | false => exact acceptLoop_total pending errno h₁

/-- However `FCGX_Accept_r` ends. -/
theorem Request.InOrder.acceptR {pending rest : List Connection} {rc : ℤ} (h : r.InOrder)
    (hacc : fcgxAcceptR true pending r = some (rc, r', rest)) : r'.InOrder := by
  cases acceptEnds_fcgxAcceptR hacc with
  | uninitialized => exact h
  | kept hfin hopen hconn => exact inOrder_of_accepted hconn
  | fresh hfin hclosed hloop => exact hloop.inOrder (inOrder_of_finished h hfin)
  | givenUp hfin hopen hconn hloop => exact hloop.inOrder (inOrder_of_accepted hconn)

end Requests

/-! ### Sessions -/

theorem Request.InOrder.inMemory {r : Request} (h : r.InOrder) (stale : ℕ → UInt8) :
    (r.inMemory stale).InOrder where
  input s hs := (h.input s hs).of_stream rfl (h.input s hs).isBeginProcessed
  writers w s hs := h.writers w s (by cases w <;> exact hs)

/-- One call of a session. -/
theorem Request.InOrder.call {r r' : Request} {call : SessionCall} (h : r.InOrder)
    (hcall : r.call call = some r') : r'.InOrder := by
  cases call with
  | accept pending =>
      obtain ⟨⟨rc, r₁, rest⟩, hacc, hrest⟩ := Option.bind_eq_some_iff.mp hcall
      split at hrest
      · next hnil =>
          cases hrest
          exact h.acceptR hacc
      · cases hrest
  | finish => exact inOrder_of_finished h hcall
  | setExitStatus status =>
      obtain ⟨s, hs, rfl⟩ := Option.map_eq_some_iff.mp hcall
      exact ⟨fun t ht => (h.input t ht).of_stream rfl (h.input t ht).isBeginProcessed,
        fun w t ht => h.writers w t (by cases w <;> exact ht)⟩
  | stream which call =>
      obtain ⟨s, hs, -⟩ := Option.bind_eq_some_iff.mp hcall
      obtain ⟨r₁, hr₁, h₁⟩ := h.streamCall hs call
      obtain rfl : r₁ = r' := Option.some.inj (hr₁.symm.trans hcall)
      exact h₁

/-- An application that mistakes its streams: it reads its output, writes its input and clears the
error that it has made. -/
def mistakenCalls : List CallIn :=
  [.accept [.ok (.sending plainRequest [] [.fail epipe])], .stream .out (.read (.getStr 5)),
    .stream .out .startFilterData, .stream .out .clearError, .stream .out (.write (.putStr [1, 2])),
    .stream .input (.write .fclose), .stream .input (.write (.putChar 7)),
    .stream .err .startFilterData].map fun call => (call, fun _ => 0)

end FastCgi
