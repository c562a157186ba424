import FastCgi.App.Stream
import FastCgi.Bridge.Relay

/-!
`AppServerReadHandler` with what `OS_Write` does.

The handler offers each piece of content to `OS_Write` once and looks at the
sign of the count it returns; what a short count leaves of the piece is gone.
`Relay` keeps the bytes that are offered, the two descriptors here keep the
calls. The handler of `Relay` is what is left of this one when the counts are
forgotten.
-/

namespace FastCgi

open BoundedLoop

/-- The globals of the handler, and the descriptors `STDOUT_FILENO` and `STDERR_FILENO`. -/
structure RelayIo where
  relay : Relay
  out : Os
  err : Os

namespace RelayIo

/-- The content of `FCGI_STDOUT` and `FCGI_STDERR`: `if(OS_Write(outFD, ptr, count) < 0)`. -/
def writeContent (s : RelayIo) (fromAS : List UInt8) : Except Halt (RelayIo × List UInt8) :=
  let ptr := (getPtr s.relay.contentLen fromAS).1
  let (relay, fromAS) := s.relay.writeContent fromAS
  if ptr = [] then .ok ({ s with relay := relay }, fromAS)
  else if s.relay.head.type.toNat = fcgiStdout then
    match osWrite s.out ptr with
    | (.error errno, _) => .error (.exit errno)
    | (.ok _, out) => .ok ({ s with relay := relay, out := out }, fromAS)
  else
    match osWrite s.err ptr with
    | (.error errno, _) => .error (.exit errno)
    | (.ok _, err) => .ok ({ s with relay := relay, err := err }, fromAS)

/-- One round of the loop. -/
def round (requestId : ℕ) (s : RelayIo) (fromAS : List UInt8) :
    Except Halt (RelayIo × List UInt8) :=
  if s.relay.headerLen < fcgiHeaderLen then
    (s.relay.completeHeader requestId fromAS).map fun (relay, fromAS) =>
      ({ s with relay := relay }, fromAS)
  else if s.relay.head.type.toNat = fcgiStdout ∨ s.relay.head.type.toNat = fcgiStderr then
    (s.writeContent fromAS).map fun (s, fromAS) =>
      ({ s with relay := (s.relay.skipPadding fromAS).1 }, (s.relay.skipPadding fromAS).2)
  else if s.relay.head.type.toNat = fcgiEndRequest then
    (s.relay.endRequest fromAS).map fun (relay, fromAS) =>
      ({ s with relay := (relay.skipPadding fromAS).1 }, (relay.skipPadding fromAS).2)
  else .error (.exit fcgxProtocolError)

/-- `while(fromAS.next != fromAS.stop)`. -/
def pass (requestId : ℕ) (x : RelayIo × List UInt8) :
    Option (Pass (RelayIo × List UInt8) (Except Halt RelayIo)) :=
  if x.2 = [] then some (.done (.ok x.1))
  else
    match x.1.round requestId x.2 with
    | .ok x' => some (.again x')
    | .error h => some (.done (.error h))

/-- `AppServerReadHandler`, up to `ScheduleIo`. -/
def readHandler (requestId : ℕ) (s : RelayIo) :
    Except ℤ (List UInt8) → Option (Except Halt RelayIo)
  | .error errno => some (.error (.exit errno))
  | .ok [] =>
      if 0 < s.relay.headerLen ∨ 0 < s.relay.paddingLen then
        some (.error (.exit fcgxProtocolError))
      else
        some (.error (.exit (if s.relay.exitStatusSet then s.relay.exitStatus
          else fcgxProtocolError)))
  | .ok chunk => run (pass requestId) (2 * chunk.length + 2) (s, chunk)

/-- The reads one after the other. -/
def readAll (requestId : ℕ) : RelayIo → List (List UInt8) → Option (Except Halt RelayIo)
  | s, [] => some (.ok s)
  | s, chunk :: chunks =>
      if s.relay.exitStatusSet then some (.ok s)
      else
        match s.readHandler requestId (.ok chunk) with
        | some (.ok s') => s'.readAll requestId chunks
        | r => r

/-- The program when it starts: nothing has been written yet. -/
def init (out err : Os) : RelayIo :=
  { relay := .init, out := { out with log := [] }, err := { err with log := [] } }

end RelayIo

/-! ### Offered and accepted -/

/-- The bytes that `OS_Write` was called with, in order. -/
def offered (log : List WriteCall) : List UInt8 := log.flatMap WriteCall.buf

@[simp] theorem offered_append (l l' : List WriteCall) :
    offered (l ++ l') = offered l ++ offered l' := by simp [offered]

/-- Every call has taken something between nothing and all of what it was offered. -/
def Counted (log : List WriteCall) : Prop :=
  ∀ w ∈ log, 0 ≤ w.wrote ∧ w.wrote ≤ w.buf.length

theorem length_accepted_le {log : List WriteCall} (h : Counted log) :
    (accepted log).length ≤ (offered log).length := by
  induction log with
  | nil => exact Nat.le_refl 0
  | cons w log ih =>
      have hrest := ih fun x hx => h x (List.mem_cons_of_mem w hx)
      have hlen : (w.buf.take w.wrote.toNat).length ≤ w.buf.length := List.length_take_le' ..
      simp only [accepted, offered, List.flatMap_cons, List.length_append] at hrest ⊢
      omega

/-- **What is accepted is what is offered exactly if no count is short.** -/
theorem accepted_eq_offered_iff {log : List WriteCall} (h : Counted log) :
    accepted log = offered log ↔ ∀ w ∈ log, w.wrote = w.buf.length := by
  induction log with
  | nil => simp [accepted, offered]
  | cons w log ih =>
      have hrest : Counted log := fun x hx => h x (List.mem_cons_of_mem w hx)
      obtain ⟨hpos, hle⟩ := h w List.mem_cons_self
      have hlen := length_accepted_le hrest
      have haccepted : accepted (w :: log) = w.buf.take w.wrote.toNat ++ accepted log := rfl
      have hoffered : offered (w :: log) = w.buf ++ offered log := rfl
      rw [haccepted, hoffered, List.forall_mem_cons, ← ih hrest]
      constructor
      · intro heq
        have htotal := congrArg List.length heq
        simp only [List.length_append, List.length_take] at htotal
        have hfull : w.wrote.toNat = w.buf.length := by omega
        refine ⟨by omega, ?_⟩
        rwa [hfull, List.take_length, List.append_cancel_left_eq] at heq
      · rintro ⟨hfull, hlog⟩
        rw [hfull, Int.toNat_natCast, List.take_length, hlog]

/-- A call of `OS_Write` on a descriptor that does not fail. -/
theorem osWrite_counted {os : Os} (h : os.NeverFails) (hlog : Counted os.log)
    {buf : List UInt8} (hbuf : buf ≠ []) :
    ∃ n os', osWrite os buf = (.ok n, os') ∧ os'.NeverFails ∧ Counted os'.log ∧
      offered os'.log = offered os.log ++ buf := by
  obtain ⟨n, rs, -, hn, hrs, hwrite⟩ := osWrite_ok h hbuf
  refine ⟨n, _, hwrite, ⟨h.1, hrs⟩, fun w hw => ?_, by simp [offered]⟩
  rcases List.mem_append.mp hw with hw | hw
  · exact hlog w hw
  · obtain rfl := List.mem_singleton.mp hw
    exact ⟨Int.natCast_nonneg n, Int.ofNat_le.mpr hn⟩

/-! ### The handler without the counts -/

/-- The descriptors have been offered what `Relay` keeps, and do not fail. -/
structure RelayIo.Offers (s : RelayIo) : Prop where
  outOk : s.out.NeverFails
  errOk : s.err.NeverFails
  outCounted : Counted s.out.log
  errCounted : Counted s.err.log
  stdout : offered s.out.log = s.relay.stdout
  stderr : offered s.err.log = s.relay.stderr

section Round

variable {requestId : ℕ} {s : RelayIo} {fromAS : List UInt8}

/-- A change of the globals that leaves the outputs. -/
theorem RelayIo.Offers.setRelay (h : s.Offers) {relay : Relay}
    (hout : relay.stdout = s.relay.stdout) (herr : relay.stderr = s.relay.stderr) :
    RelayIo.Offers { s with relay := relay } where
  outOk := h.outOk
  errOk := h.errOk
  outCounted := h.outCounted
  errCounted := h.errCounted
  stdout := h.stdout.trans hout.symm
  stderr := h.stderr.trans herr.symm

theorem Relay.skipPadding_outputs (r : Relay) (fromAS : List UInt8) :
    (r.skipPadding fromAS).1.stdout = r.stdout ∧ (r.skipPadding fromAS).1.stderr = r.stderr := by
  rw [Relay.skipPadding]
  split
  · exact ⟨rfl, rfl⟩
  · dsimp only
    split <;> exact ⟨rfl, rfl⟩

theorem Relay.completeHeader_outputs {r : Relay} {x : Relay × List UInt8}
    (h : r.completeHeader requestId fromAS = .ok x) :
    x.1.stdout = r.stdout ∧ x.1.stderr = r.stderr := by
  simp only [Relay.completeHeader] at h
  split at h
  · cases h
  · obtain ⟨header, -, h⟩ := bind_ok h
    split at h
    · cases h
      exact ⟨rfl, rfl⟩
    · split at h
      · cases h
      · split at h
        · cases h
        · cases h
          exact ⟨rfl, rfl⟩

theorem Relay.endRequest_outputs {r : Relay} {x : Relay × List UInt8}
    (h : r.endRequest fromAS = .ok x) : x.1.stdout = r.stdout ∧ x.1.stderr = r.stderr := by
  rw [Relay.endRequest] at h
  split at h
  · cases h
  · obtain ⟨r', hbody, rfl⟩ := map_ok h
    obtain ⟨erBody, -, hfinish⟩ := bind_ok hbody
    rw [Relay.finishRequest] at hfinish
    split at hfinish
    · cases hfinish
      exact ⟨rfl, rfl⟩
    · split at hfinish
      · cases hfinish
      · cases hfinish
        exact ⟨rfl, rfl⟩

/-- Whatever the counts are, the content is offered and the handler goes on. -/
theorem RelayIo.Offers.writeContent (h : s.Offers) (fromAS : List UInt8) :
    ∃ s', s.writeContent fromAS = .ok (s', (s.relay.writeContent fromAS).2) ∧
      s'.relay = (s.relay.writeContent fromAS).1 ∧ s'.Offers := by
  have hrelay : (s.relay.writeContent fromAS).1 =
      if s.relay.head.type.toNat = fcgiStdout then
        { s.relay with
          contentLen := s.relay.contentLen - (fromAS.take s.relay.contentLen).length
          stdout := s.relay.stdout ++ fromAS.take s.relay.contentLen }
      else
        { s.relay with
          contentLen := s.relay.contentLen - (fromAS.take s.relay.contentLen).length
          stderr := s.relay.stderr ++ fromAS.take s.relay.contentLen } := rfl
  rw [RelayIo.writeContent]
  simp only
  split
  · next hnil =>
      have hnil : fromAS.take s.relay.contentLen = [] := hnil
      refine ⟨_, rfl, rfl, h.setRelay ?_ ?_⟩ <;> rw [hrelay, hnil] <;> split <;> simp
  · next hne =>
      split
      · next htype =>
          obtain ⟨n, out, hwrite, hok, hcounted, hoffered⟩ :=
            osWrite_counted h.outOk h.outCounted hne
          rw [hwrite]
          refine ⟨_, rfl, rfl, hok, h.errOk, hcounted, h.errCounted, ?_, ?_⟩
          · rw [hrelay, if_pos htype, hoffered, h.stdout]
          · rw [hrelay, if_pos htype]
            exact h.stderr
      · next htype =>
          obtain ⟨n, err, hwrite, hok, hcounted, hoffered⟩ :=
            osWrite_counted h.errOk h.errCounted hne
          rw [hwrite]
          refine ⟨_, rfl, rfl, h.outOk, hok, h.outCounted, hcounted, ?_, ?_⟩
          · rw [hrelay, if_neg htype]
            exact h.stdout
          · rw [hrelay, if_neg htype, hoffered, h.stderr]

/-- Two computations that halt alike, or return values that `R` relates. -/
def SameHalt {α β : Type*} (R : α → β → Prop) : Except Halt α → Except Halt β → Prop
  | .ok a, .ok b => R a b
  | .error h, .error h' => h = h'
  | _, _ => False

theorem SameHalt.map {α β : Type*} {R : α → β → Prop} {e : Except Halt α} {f : α → β}
    (h : ∀ a, e = .ok a → R a (f a)) : SameHalt R e (e.map f) := by
  cases e with
  | error halt => exact rfl
  | ok a => exact h a rfl

/-- The loop over a chunk, with and without the descriptors. -/
def SameRelay (x : Relay × List UInt8) (y : RelayIo × List UInt8) : Prop :=
  y.1.relay = x.1 ∧ y.2 = x.2 ∧ y.1.Offers

/-- A round of `Relay`, and the same round with the descriptors. -/
theorem RelayIo.Offers.round (h : s.Offers) (fromAS : List UInt8) :
    SameHalt SameRelay (s.relay.round requestId fromAS) (s.round requestId fromAS) := by
  rw [Relay.round, RelayIo.round]
  split
  · refine SameHalt.map fun x hheader => ?_
    obtain ⟨hout, herr⟩ := Relay.completeHeader_outputs hheader
    exact ⟨rfl, rfl, h.setRelay hout herr⟩
  · split
    · obtain ⟨s', hwrite, hrelay, hoffers⟩ := h.writeContent fromAS
      obtain ⟨hout, herr⟩ := Relay.skipPadding_outputs s'.relay (s.relay.writeContent fromAS).2
      rw [hwrite]
      refine ⟨?_, ?_, hoffers.setRelay hout herr⟩
      · exact congrArg (fun r => (r.skipPadding (s.relay.writeContent fromAS).2).1) hrelay
      · exact congrArg (fun r => (r.skipPadding (s.relay.writeContent fromAS).2).2) hrelay
    · split
      · cases hbody : s.relay.endRequest fromAS with
        | error halt => exact rfl
        | ok x =>
            obtain ⟨hout, herr⟩ := Relay.endRequest_outputs hbody
            obtain ⟨hout', herr'⟩ := Relay.skipPadding_outputs x.1 x.2
            exact ⟨rfl, rfl, h.setRelay (hout'.trans hout) (herr'.trans herr)⟩
      · exact rfl

theorem RelayIo.pass_same {x : Relay × List UInt8} {y : RelayIo × List UInt8}
    (h : SameRelay x y) {p : Pass (Relay × List UInt8) (Except Halt Relay)}
    (hpass : Relay.pass requestId x = some p) :
    ∃ p', RelayIo.pass requestId y = some p' ∧
      p.Rel SameRelay (SameHalt fun r s => s.relay = r ∧ s.Offers) p' := by
  obtain ⟨hrelay, hbytes, hoffers⟩ := h
  have hround : SameHalt SameRelay (y.1.relay.round requestId x.2) (y.1.round requestId x.2) :=
    hoffers.round x.2
  rw [Relay.pass] at hpass
  rw [RelayIo.pass, hbytes]
  rw [hrelay] at hround
  split at hpass
  · next hempty =>
      cases hpass
      rw [if_pos hempty]
      exact ⟨_, rfl, hrelay, hoffers⟩
  · next hne =>
      rw [if_neg hne]
      cases hleft : x.1.round requestId x.2 with
      | ok x' =>
          rw [hleft] at hpass hround
          cases hright : y.1.round requestId x.2 with
          | ok y' =>
              rw [hright] at hround
              cases hpass
              exact ⟨_, rfl, hround⟩
          | error halt =>
              rw [hright] at hround
              exact hround.elim
      | error halt =>
          rw [hleft] at hpass hround
          cases hright : y.1.round requestId x.2 with
          | ok y' =>
              rw [hright] at hround
              exact hround.elim
          | error halt' =>
              rw [hright] at hround
              cases hpass
              exact ⟨_, rfl, hround⟩

/-- A call of the handler that returns, and the same call with the descriptors. -/
theorem RelayIo.Offers.readHandler (h : s.Offers) {chunk : List UInt8} {r : Relay}
    (hread : s.relay.readHandler requestId (.ok chunk) = some (.ok r)) :
    ∃ s', s.readHandler requestId (.ok chunk) = some (.ok s') ∧ s'.relay = r ∧ s'.Offers := by
  cases chunk with
  | nil =>
      rw [Relay.readHandler] at hread
      split at hread <;> cases hread
  | cons b chunk =>
      obtain ⟨e, hrun, hsame⟩ := run_rel (R := SameRelay) (fun _ _ _ hx hp => pass_same hx hp)
        (show SameRelay (s.relay, b :: chunk) (s, b :: chunk) from ⟨rfl, rfl, h⟩) hread
      cases e with
      | error halt => exact hsame.elim
      | ok s' => exact ⟨s', hrun, hsame⟩

/-- The reads one after the other. -/
theorem RelayIo.Offers.readAll (h : s.Offers) {chunks : List (List UInt8)} {r : Relay}
    (hread : s.relay.readAll requestId chunks = some (.ok r)) :
    ∃ s', s.readAll requestId chunks = some (.ok s') ∧ s'.relay = r ∧ s'.Offers := by
  induction chunks generalizing s with
  | nil =>
      cases hread
      exact ⟨s, rfl, rfl, h⟩
  | cons chunk chunks ih =>
      rw [Relay.readAll] at hread
      rw [RelayIo.readAll]
      split at hread
      · next hset =>
          cases hread
          rw [if_pos hset]
          exact ⟨s, rfl, rfl, h⟩
      · next hset =>
          rw [if_neg hset]
          split at hread
          · next r₁ hr₁ =>
              obtain ⟨s₁, hs₁, rfl, hoffers⟩ := h.readHandler hr₁
              rw [hs₁]
              exact ih hoffers hread
          · next hother =>
              exact absurd hread (hother r)

end Round

/-! ### Records that arrive -/

section Arrival

variable {requestId : ℕ} {recs : List Record} {er : Record} {s : Relay}

/-- The handler called with chunks that end nowhere inside a header or the last body. -/
theorem Relay.At.readAll_whole (houtput : ∀ r ∈ recs, r.IsOutput requestId)
    (her : er.IsEnd requestId) {chunks : List (List UInt8)} (hne : ∀ chunk ∈ chunks, chunk ≠ [])
    {k : ℕ} (hat : s.At recs er k) {rest : List UInt8}
    (hbytes : chunks.flatten ++ rest = (encodeAll (recs ++ [er])).drop k)
    (hwhole : ¬SplitsInside (recs ++ [er]) k chunks) :
    ∃ s' k', s.readAll requestId chunks = some (.ok s') ∧ s'.At recs er k' ∧
      (s'.exitStatusSet = true ∨ k' = k + chunks.flatten.length) := by
  induction chunks generalizing s k with
  | nil => exact ⟨s, k, rfl, hat, .inr rfl⟩
  | cons chunk chunks ih =>
      rw [splitsInside_cons, not_or] at hwhole
      rw [Relay.readAll]
      by_cases hset : s.exitStatusSet
      · rw [if_pos hset]
        exact ⟨s, k, rfl, hat, .inl hset⟩
      · rw [if_neg hset]
        rw [List.flatten_cons, List.append_assoc] at hbytes
        obtain ⟨s₁, hread, hat₁ | ⟨-, hcut⟩⟩ :=
          hat.readHandler houtput her (by simpa using hset) (hne chunk (by simp)) hbytes
        · rw [hread]
          obtain ⟨s', k', hall, hat', hend⟩ :=
            ih (fun c hc => hne c (List.mem_cons_of_mem _ hc)) hat₁
              (by rw [← List.drop_drop, ← hbytes, List.drop_left' rfl]) hwhole.2
          refine ⟨s', k', hall, hat', ?_⟩
          rwa [List.flatten_cons, List.length_append, ← Nat.add_assoc]
        · exact absurd ⟨[], chunks, rfl, by simpa using hcut⟩ hwhole.2

/-- The records of output go on behind the record at hand, where one is. -/
theorem recs_eq_of_cons {passed todo : List Record} {r r' : Record}
    (hrecs : recs ++ [er] = passed ++ r :: r' :: todo) : ∃ mid, recs = passed ++ r :: mid := by
  obtain ⟨mid, x, hmid⟩ : ∃ mid x, r' :: todo = mid ++ [x] :=
    ⟨_, _, (List.dropLast_append_getLast (List.cons_ne_nil r' todo)).symm⟩
  rw [hmid, ← List.cons_append, ← List.append_assoc] at hrecs
  exact ⟨mid, (List.append_inj' hrecs rfl).1⟩

/-- Behind all the records of output the outputs are their contents. -/
theorem Relay.At.outputs {k : ℕ} (houtput : ∀ r ∈ recs, r.IsOutput requestId)
    (her : er.IsEnd requestId) (hat : s.At recs er k)
    (hk : s.exitStatusSet = true ∨ (encodeAll recs).length ≤ k) :
    s.stdout = contents (ofType fcgiStdout recs) ∧
      s.stderr = contents (ofType fcgiStderr recs) := by
  have hlast : ∀ {n : ℕ}, s.Wrote recs er n → s.stdout = contents (ofType fcgiStdout recs) ∧
      s.stderr = contents (ofType fcgiStderr recs) := by
    intro n hwrote
    refine ⟨hwrote.stdout.trans ?_, hwrote.stderr.trans ?_⟩
    · rw [relayed, if_neg (by rw [her.1]; decide), List.append_nil]
    · rw [relayed, if_neg (by rw [her.1]; decide), List.append_nil]
  cases hat with
  | between hrecs _ _ hwrote =>
      rcases record_cases houtput hrecs with ⟨-, r', todo', rfl⟩ | ⟨rfl, -, rfl⟩
      · obtain ⟨mid, rfl⟩ := recs_eq_of_cons hrecs
        rcases hk with hset | hk
        · rw [hwrote.notSet] at hset
          cases hset
        · rw [encodeAll_append, encodeAll_cons, List.length_append, List.length_append,
            Record.length_encode] at hk
          omega
      · exact hlast hwrote
  | @within passed todo r n hrecs _ _ _ _ hn _ _ hwrote =>
      rcases record_cases houtput hrecs with ⟨-, r', todo', rfl⟩ | ⟨rfl, -, rfl⟩
      · obtain ⟨mid, rfl⟩ := recs_eq_of_cons hrecs
        rcases hk with hset | hk
        · rw [hwrote.notSet] at hset
          cases hset
        · -- the record at hand is the last one of output, and all of it is read
          rw [encodeAll_append, encodeAll_cons, List.length_append, List.length_append,
            Record.length_encode] at hk
          have hk : _ + (8 + r.content.length + r.padding.length + (encodeAll mid).length) ≤
            (encodeAll passed).length + 8 + n := hk
          cases mid with
          | nil =>
              obtain ⟨hstdout, hstderr, -⟩ := hwrote.next er (by omega)
              exact hlast (n := 0) ⟨hstdout, hstderr, hwrote.notSet⟩
          | cons x mid =>
              rw [encodeAll_cons, List.length_append, Record.length_encode] at hk
              omega
      · exact hlast hwrote
  | finished hstdout hstderr => exact ⟨hstdout, hstderr⟩

end Arrival

/-- The bytes accepted on the descriptors are the contents of the records. -/
def RelayIo.WritesAll (s : RelayIo) (recs : List Record) : Prop :=
  accepted s.out.log = contents (ofType fcgiStdout recs) ∧
    accepted s.err.log = contents (ofType fcgiStderr recs)

/-- **The bridge writes all output exactly if no count is short.** The records have arrived, and
perhaps some or all of the record that ends the request. -/
theorem bridge_writesAll_iff (requestId : ℕ) {recs : List Record} {er : Record}
    (houtput : ∀ r ∈ recs, r.IsOutput requestId) (her : er.IsEnd requestId)
    {chunks : List (List UInt8)} (hne : ∀ chunk ∈ chunks, chunk ≠ [])
    (harrived : encodeAll recs <+: chunks.flatten)
    (hfront : chunks.flatten <+: encodeAll (recs ++ [er]))
    (hwhole : ¬SplitsInside (recs ++ [er]) 0 chunks) {out err : Os} (hout : out.NeverFails)
    (herr : err.NeverFails) :
    ∃ s, (RelayIo.init out err).readAll requestId chunks = some (.ok s) ∧
      (s.WritesAll recs ↔ ∀ w ∈ s.out.log ++ s.err.log, w.wrote = w.buf.length) := by
  obtain ⟨rest, hbytes⟩ := hfront
  replace hbytes : [] ++ chunks.flatten ++ rest = encodeAll (recs ++ [er]) := by simpa using hbytes
  obtain ⟨r, k, hread, hat, hend⟩ := (Relay.init_at recs er).readAll_whole houtput her hne
    hbytes hwhole
  have hnone : Counted [] := fun w hw => absurd hw List.not_mem_nil
  have hoffers : (RelayIo.init out err).Offers := ⟨hout, herr, hnone, hnone, rfl, rfl⟩
  obtain ⟨s, hs, rfl, hs'⟩ := hoffers.readAll hread
  obtain ⟨hstdout, hstderr⟩ := hat.outputs houtput her (hend.imp_right fun hk => by
    rw [hk, Nat.zero_add]
    exact harrived.length_le)
  refine ⟨s, hs, ?_⟩
  rw [RelayIo.WritesAll, ← hstdout, ← hstderr, ← hs'.stdout, ← hs'.stderr,
    accepted_eq_offered_iff hs'.outCounted, accepted_eq_offered_iff hs'.errCounted,
    List.forall_mem_append]

/-- Output `AB` for request 1. -/
def outputAB : Record := dataRecord fcgiStdout 1 [65, 66] [] (by decide) nil_padding_le

theorem isOutput_outputAB : ∀ r ∈ [outputAB], r.IsOutput 1 := by
  intro r hr
  obtain rfl := List.mem_singleton.mp hr
  exact ⟨.inl rfl, rfl⟩

theorem not_splitsInside_outputAB :
    ¬SplitsInside ([outputAB] ++ [endA]) 0 [encodeAll [outputAB, endA]] := by
  rw [splitsInside_cons]
  rintro (hcut | ⟨pre, post, heq, hcut⟩)
  · exact not_cutsInside_zero _ hcut
  · obtain ⟨rfl, rfl⟩ := List.append_eq_nil_iff.mp heq.symm
    exact absurd hcut.lt (by decide)

/-- Standard output takes one byte of two. -/
theorem bridge_shortWrite :
    ¬∃ s, (RelayIo.init (.sending [] [] [.accept 0]) (.sending [] [] [])).readAll 1
      [encodeAll [outputAB, endA]] = some (.ok s) ∧ s.WritesAll [outputAB] := by
  rintro ⟨s, hs, hwrites, -⟩
  have hrun : ((RelayIo.init (.sending [] [] [.accept 0]) (.sending [] [] [])).readAll 1
      [encodeAll [outputAB, endA]]).map (fun e => e.toOption.map fun s => accepted s.out.log) =
        some (some [65]) := by decide +kernel
  rw [hs] at hrun
  have haccepted : accepted s.out.log = [65] := Option.some.inj (Option.some.inj hrun)
  rw [haccepted] at hwrites
  exact absurd hwrites (by decide)

theorem bridge_writesAll_iff_two :
    ∃ s, (RelayIo.init (.sending [] [] []) (.sending [] [] [])).readAll 1
      [encodeAll [outputAB, endA]] = some (.ok s) ∧
        (s.WritesAll [outputAB] ↔ ∀ w ∈ s.out.log ++ s.err.log, w.wrote = w.buf.length) :=
  bridge_writesAll_iff 1 isOutput_outputAB ⟨rfl, rfl, rfl, rfl⟩ (by decide)
    (by simp [List.prefix_append]) (by simp) not_splitsInside_outputAB ⟨rfl, by simp [Os.sending]⟩
    ⟨rfl, by simp [Os.sending]⟩

end FastCgi
