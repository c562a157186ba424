import FastCgi.Lib.BoundedLoop
import FastCgi.Lib.ByteMem
import FastCgi.Protocol.Response
import Mathlib.Algebra.Group.Nat.Defs

/-!
`AppServerReadHandler` of `cgi-fcgi/cgi-fcgi.c`, from the application's
records to standard output and standard error.

The handler is called with the chunks that a read of the connection
delivers. The record at hand, its header and the body of an
`FCGI_END_REQUEST` are globals, so that a chunk may end anywhere. The two
`memcpy` that fill them are modelled with the pointer arithmetic of the
source, which counts in objects and not in bytes; a store that is not
within its object has no meaning in C and ends the run (`Halt.outside`).
`OS_Write` is taken to write everything.
-/

namespace FastCgi

open BoundedLoop ByteMem

/-- How the program ends. -/
inductive Halt where
  | exit (code : ℤ)
  | assertFailed
  | outside
  deriving DecidableEq

/-- The globals of `AppServerReadHandler`, and what has been written. -/
structure Relay where
  header : ℕ → UInt8
  headerLen : ℕ
  contentLen : ℕ
  paddingLen : ℕ
  erBody : ℕ → UInt8
  readingEndRequestBody : Bool
  exitStatus : ℤ
  exitStatusSet : Bool
  stdout : List UInt8
  stderr : List UInt8

/-- The globals when the program starts. -/
def Relay.init : Relay :=
  { header := fun _ => 0, headerLen := 0, contentLen := 0, paddingLen := 0, erBody := fun _ => 0
    readingEndRequestBody := false, exitStatus := 0, exitStatusSet := false, stdout := []
    stderr := [] }

/-- `sizeof(FCGI_EndRequestBody)`. -/
abbrev sizeofEndRequestBody : ℕ := 8

/-- `GetPtr`: the bytes it hands out, and what it leaves. -/
abbrev getPtr (n : ℕ) (fromAS : List UInt8) : List UInt8 × List UInt8 :=
  (fromAS.take n, fromAS.drop n)

/-- `memcpy` into an object of `size` bytes. -/
def memcpy (size : ℕ) (obj : ℕ → UInt8) (offset : ℕ) (bytes : List UInt8) :
    Except Halt (ℕ → UInt8) :=
  if offset + bytes.length ≤ size then .ok (store obj offset bytes) else .error .outside

/-- The global `header` as an `FCGI_Header`. -/
def Relay.head (s : Relay) : Header := Header.ofBytes (slice s.header 0 fcgiHeaderLen)

/-- Four bytes, most significant first, in an `int`. -/
def intOfBytes (b₃ b₂ b₁ b₀ : UInt8) : ℤ :=
  ((b₃.toNat <<< 24 + b₂.toNat <<< 16 + b₁.toNat <<< 8 + b₀.toNat : ℕ) : ℤ).bmod (2 ^ 32)

/-- The status that `erBody` holds. -/
def Relay.appStatus (s : Relay) : ℤ :=
  intOfBytes (s.erBody 0) (s.erBody 1) (s.erBody 2) (s.erBody 3)

/-- "First priority is to complete the header." The `break` on a header that is not
complete leaves nothing in the buffer. -/
def Relay.completeHeader (requestId : ℕ) (s : Relay) (fromAS : List UInt8) :
    Except Halt (Relay × List UInt8) :=
  let (ptr, fromAS) := getPtr (fcgiHeaderLen - s.headerLen) fromAS
  if ptr = [] then .error .assertFailed
  else
    -- `&header + headerLen`
    (memcpy fcgiHeaderLen s.header (fcgiHeaderLen * s.headerLen) ptr).bind fun header =>
      let s := { s with header := header, headerLen := s.headerLen + ptr.length }
      if s.headerLen < fcgiHeaderLen then .ok (s, fromAS)
      else if s.head.version ≠ fcgiVersion1 then .error (.exit fcgxUnsupportedVersion)
      else if s.head.requestId ≠ requestId then .error (.exit fcgxProtocolError)
      else .ok ({ s with
        contentLen := s.head.contentLength, paddingLen := s.head.paddingLength.toNat }, fromAS)

/-- The content of `FCGI_STDOUT` and `FCGI_STDERR`. -/
def Relay.writeContent (s : Relay) (fromAS : List UInt8) : Relay × List UInt8 :=
  let (ptr, fromAS) := getPtr s.contentLen fromAS
  let s := { s with contentLen := s.contentLen - ptr.length }
  (if s.head.type.toNat = fcgiStdout then { s with stdout := s.stdout ++ ptr }
   else { s with stderr := s.stderr ++ ptr }, fromAS)

/-- What follows the last byte of the body of `FCGI_END_REQUEST`. -/
def Relay.finishRequest (s : Relay) : Except Halt Relay :=
  if s.contentLen ≠ 0 then .ok s
  else if (s.erBody 4).toNat ≠ fcgiRequestComplete then .error (.exit fcgxProtocolError)
  else .ok { s with
    exitStatus := s.appStatus, exitStatusSet := true, readingEndRequestBody := false }

/-- The content of `FCGI_END_REQUEST`. -/
def Relay.endRequest (s : Relay) (fromAS : List UInt8) : Except Halt (Relay × List UInt8) :=
  if s.readingEndRequestBody = false ∧ s.contentLen ≠ sizeofEndRequestBody then
    .error (.exit fcgxProtocolError)
  else
    let (ptr, fromAS) := getPtr s.contentLen fromAS
    -- `&erBody + sizeof(erBody) - contentLen`
    let copied :=
      if ptr = [] then .ok s.erBody
      else memcpy sizeofEndRequestBody s.erBody
        (sizeofEndRequestBody * (sizeofEndRequestBody - s.contentLen)) ptr
    (copied.bind fun erBody => Relay.finishRequest { s with
      erBody := erBody, readingEndRequestBody := true
      contentLen := s.contentLen - ptr.length }).map (·, fromAS)

/-- The padding, and the end of the record. -/
def Relay.skipPadding (s : Relay) (fromAS : List UInt8) : Relay × List UInt8 :=
  if s.contentLen ≠ 0 then (s, fromAS)
  else
    let (ptr, fromAS) := getPtr s.paddingLen fromAS
    let s := { s with paddingLen := s.paddingLen - ptr.length }
    (if s.paddingLen = 0 then { s with headerLen := 0 } else s, fromAS)

/-- One round of the loop of `AppServerReadHandler`. -/
def Relay.round (requestId : ℕ) (s : Relay) (fromAS : List UInt8) :
    Except Halt (Relay × List UInt8) :=
  if s.headerLen < fcgiHeaderLen then s.completeHeader requestId fromAS
  else if s.head.type.toNat = fcgiStdout ∨ s.head.type.toNat = fcgiStderr then
    let (s, fromAS) := s.writeContent fromAS
    .ok (s.skipPadding fromAS)
  else if s.head.type.toNat = fcgiEndRequest then
    (s.endRequest fromAS).map fun (s, fromAS) => s.skipPadding fromAS
  else .error (.exit fcgxProtocolError)

/-- `while(fromAS.next != fromAS.stop)`. -/
def Relay.pass (requestId : ℕ) (x : Relay × List UInt8) :
    Option (Pass (Relay × List UInt8) (Except Halt Relay)) :=
  if x.2 = [] then some (.done (.ok x.1))
  else
    match x.1.round requestId x.2 with
    | .ok x' => some (.again x')
    | .error h => some (.done (.error h))

/-- `AppServerReadHandler` with what the read has delivered, up to `ScheduleIo`. An error
of the read comes with its number. -/
def Relay.readHandler (requestId : ℕ) (s : Relay) :
    Except ℤ (List UInt8) → Option (Except Halt Relay)
  | .error errno => some (.error (.exit errno))
  | .ok [] =>
      if 0 < s.headerLen ∨ 0 < s.paddingLen then some (.error (.exit fcgxProtocolError))
      else some (.error (.exit (if s.exitStatusSet then s.exitStatus else fcgxProtocolError)))
  | .ok chunk => run (Relay.pass requestId) (2 * chunk.length + 2) (s, chunk)

/-- The reads one after the other, until the loop of `main` ends. -/
def Relay.readAll (requestId : ℕ) : Relay → List (List UInt8) → Option (Except Halt Relay)
  | s, [] => some (.ok s)
  | s, chunk :: chunks =>
      if s.exitStatusSet then some (.ok s)
      else
        match s.readHandler requestId (.ok chunk) with
        | some (.ok s') => s'.readAll requestId chunks
        | r => r

/-! ### The loop ends -/

section Loop

variable {requestId : ℕ} {s : Relay} {fromAS : List UInt8}

/-- 1 where the header is complete. A round that takes nothing ends a record. -/
def Relay.inRecord (s : Relay) : ℕ := if s.headerLen < fcgiHeaderLen then 0 else 1

theorem Relay.inRecord_le (s : Relay) : s.inRecord ≤ 1 := by
  rw [Relay.inRecord]
  split <;> omega

/-- A round that takes something. -/
theorem less_of_taken {a b : ℕ} {s' : Relay} (h : a < b) :
    2 * a + s'.inRecord < 2 * b + s.inRecord := by
  have hle := s'.inRecord_le
  omega

/-- Behind the content: something has been taken, or the record is over. -/
theorem Relay.skipPadding_less (hne : fromAS ≠ []) {n : ℕ}
    (hcontentLen : s.contentLen = n - (fromAS.take n).length) :
    2 * (s.skipPadding (fromAS.drop n)).2.length + (s.skipPadding (fromAS.drop n)).1.inRecord <
      2 * fromAS.length + 1 := by
  have hpos := List.length_pos_iff.mpr hne
  have hdrop : (fromAS.drop n).length = fromAS.length - n := List.length_drop
  rw [List.length_take] at hcontentLen
  rw [Relay.skipPadding]
  by_cases hmore : s.contentLen = 0
  · rw [if_neg (not_not.mpr hmore)]
    have hrest : ((fromAS.drop n).drop s.paddingLen).length = fromAS.length - n - s.paddingLen := by
      rw [List.length_drop, hdrop]
    have hskipped : ((fromAS.drop n).take s.paddingLen).length =
        min s.paddingLen (fromAS.length - n) := by rw [List.length_take, hdrop]
    simp only [hskipped]
    split
    · next hover =>
        show 2 * ((fromAS.drop n).drop s.paddingLen).length + 0 < _
        omega
    · next hover =>
        have hle := Relay.inRecord_le { s with
          paddingLen := s.paddingLen - min s.paddingLen (fromAS.length - n) }
        show 2 * ((fromAS.drop n).drop s.paddingLen).length + _ < _
        omega
  · rw [if_pos hmore]
    have hle := s.inRecord_le
    show 2 * (fromAS.drop n).length + s.inRecord < _
    omega

theorem Relay.writeContent_frame (s : Relay) (fromAS : List UInt8) :
    (s.writeContent fromAS).1.headerLen = s.headerLen ∧
      (s.writeContent fromAS).1.head = s.head ∧
      (s.writeContent fromAS).1.contentLen = s.contentLen - (fromAS.take s.contentLen).length ∧
      (s.writeContent fromAS).1.paddingLen = s.paddingLen ∧
      (s.writeContent fromAS).1.readingEndRequestBody = s.readingEndRequestBody ∧
      (s.writeContent fromAS).2 = fromAS.drop s.contentLen := by
  simp only [Relay.writeContent]
  split <;> exact ⟨rfl, rfl, rfl, rfl, rfl, trivial⟩

theorem bind_ok {ε α β : Type*} {e : Except ε α} {f : α → Except ε β} {b : β}
    (h : e.bind f = .ok b) : ∃ a, e = .ok a ∧ f a = .ok b := by
  cases e with
  | error _ => exact nomatch h
  | ok a => exact ⟨a, rfl, h⟩

theorem map_ok {ε α β : Type*} {e : Except ε α} {f : α → β} {b : β} (h : e.map f = .ok b) :
    ∃ a, e = .ok a ∧ f a = b := by
  cases e with
  | error _ => exact nomatch h
  | ok a => exact ⟨a, rfl, Except.ok.inj h⟩

theorem Relay.completeHeader_frame {x : Relay × List UInt8}
    (h : s.completeHeader requestId fromAS = .ok x) :
    x.2 = fromAS.drop (fcgiHeaderLen - s.headerLen) := by
  simp only [Relay.completeHeader] at h
  split at h
  · exact nomatch h
  · obtain ⟨header, -, h⟩ := bind_ok h
    split at h
    · exact (Except.ok.inj h) ▸ rfl
    · split at h
      · exact nomatch h
      · split at h
        · exact nomatch h
        · exact (Except.ok.inj h) ▸ rfl

theorem Relay.finishRequest_frame {s' : Relay} (h : s.finishRequest = .ok s') :
    s'.contentLen = s.contentLen := by
  rw [Relay.finishRequest] at h
  split at h
  · exact (Except.ok.inj h) ▸ rfl
  · split at h
    · exact nomatch h
    · exact (Except.ok.inj h) ▸ rfl

theorem Relay.endRequest_frame {x : Relay × List UInt8} (h : s.endRequest fromAS = .ok x) :
    x.1.contentLen = s.contentLen - (fromAS.take s.contentLen).length ∧
      x.2 = fromAS.drop s.contentLen := by
  rw [Relay.endRequest] at h
  split at h
  · exact nomatch h
  · obtain ⟨s', hbody, rfl⟩ := map_ok h
    obtain ⟨erBody, -, hfinish⟩ := bind_ok hbody
    exact ⟨Relay.finishRequest_frame hfinish, rfl⟩

/-- Every round takes something or ends a record. -/
theorem Relay.round_less (hne : fromAS ≠ []) {x : Relay × List UInt8}
    (hround : s.round requestId fromAS = .ok x) :
    2 * x.2.length + x.1.inRecord < 2 * fromAS.length + s.inRecord := by
  have hpos := List.length_pos_iff.mpr hne
  rw [Relay.round] at hround
  split at hround
  · next hlt =>
      have hlt : s.headerLen < 8 := hlt
      apply less_of_taken
      rw [Relay.completeHeader_frame hround, List.length_drop]
      show fromAS.length - (8 - s.headerLen) < _
      omega
  · next hge =>
      have hin : s.inRecord = 1 := by rw [Relay.inRecord, if_neg hge]
      rw [hin]
      split at hround
      · have hx : (s.writeContent fromAS).1.skipPadding (s.writeContent fromAS).2 = x :=
          Except.ok.inj hround
        obtain ⟨-, -, hcontentLen, -, -, hbuf⟩ := s.writeContent_frame fromAS
        rw [← hx, hbuf]
        exact Relay.skipPadding_less hne hcontentLen
      · split at hround
        · obtain ⟨⟨s', fromAS'⟩, hend, rfl⟩ := map_ok hround
          obtain ⟨hcontentLen, hbuf⟩ := Relay.endRequest_frame hend
          obtain rfl : fromAS' = _ := hbuf
          exact Relay.skipPadding_less hne hcontentLen
        · exact nomatch hround

theorem bind_ne_error {ε α β : Type*} {e : Except ε α} {f : α → Except ε β} {x : ε}
    (he : e ≠ .error x) (hf : ∀ a, f a ≠ .error x) : e.bind f ≠ .error x := by
  cases e with
  | error y =>
      intro h
      exact he (congrArg Except.error (Except.error.inj h))
  | ok a => exact hf a

theorem map_ne_error {ε α β : Type*} {e : Except ε α} {f : α → β} {x : ε}
    (he : e ≠ .error x) : e.map f ≠ .error x := by
  cases e with
  | error y =>
      intro h
      exact he (congrArg Except.error (Except.error.inj h))
  | ok a => exact fun h => nomatch h

theorem memcpy_ne_assert (size : ℕ) (obj : ℕ → UInt8) (offset : ℕ) (bytes : List UInt8) :
    memcpy size obj offset bytes ≠ .error .assertFailed := by
  rw [memcpy]
  split <;> simp

theorem Relay.finishRequest_ne_assert (s : Relay) : s.finishRequest ≠ .error .assertFailed := by
  rw [Relay.finishRequest]
  split
  · simp
  · split <;> simp

/-- `assert(count > 0)` holds. -/
theorem Relay.completeHeader_ne_assert (hne : fromAS ≠ []) (hlt : s.headerLen < fcgiHeaderLen) :
    s.completeHeader requestId fromAS ≠ .error .assertFailed := by
  have hlt : s.headerLen < 8 := hlt
  have htake : fromAS.take (fcgiHeaderLen - s.headerLen) ≠ [] := by
    show fromAS.take (8 - s.headerLen) ≠ []
    simp [hne]
    omega
  simp only [Relay.completeHeader, if_neg htake]
  apply bind_ne_error (memcpy_ne_assert _ _ _ _)
  intro header
  split
  · simp
  · split
    · simp
    · split <;> simp

theorem Relay.endRequest_ne_assert (s : Relay) (fromAS : List UInt8) :
    s.endRequest fromAS ≠ .error .assertFailed := by
  simp only [Relay.endRequest]
  split
  · simp
  · apply map_ne_error
    apply bind_ne_error
    · split
      · simp
      · exact memcpy_ne_assert _ _ _ _
    · exact fun erBody => Relay.finishRequest_ne_assert _

theorem Relay.round_ne_assert (hne : fromAS ≠ []) :
    s.round requestId fromAS ≠ .error .assertFailed := by
  rw [Relay.round]
  split
  · next hlt => exact Relay.completeHeader_ne_assert hne hlt
  · split
    · simp
    · split
      · exact map_ne_error (s.endRequest_ne_assert fromAS)
      · simp

/-- **The handler returns or exits.** No assertion of it fails, and its loop ends. -/
theorem Relay.readHandler_total (requestId : ℕ) (s : Relay) (result : Except ℤ (List UInt8)) :
    ∃ r, s.readHandler requestId result = some r ∧ r ≠ .error .assertFailed := by
  match result with
  | .error errno => exact ⟨_, rfl, by simp⟩
  | .ok [] =>
      rw [Relay.readHandler]
      split <;> exact ⟨_, rfl, by simp⟩
  | .ok (b :: bs) =>
      have hstep : ∀ x : Relay × List UInt8, True →
          (∃ r, Relay.pass requestId x = some (.done r) ∧ r ≠ .error .assertFailed) ∨
            ∃ x', Relay.pass requestId x = some (.again x') ∧ True ∧
              2 * x'.2.length + x'.1.inRecord < 2 * x.2.length + x.1.inRecord := by
        intro x _
        rw [Relay.pass]
        split
        · exact .inl ⟨_, rfl, by simp⟩
        · next hne =>
            cases hround : x.1.round requestId x.2 with
            | error h =>
                have hassert := @Relay.round_ne_assert requestId x.1 x.2 hne
                refine .inl ⟨_, rfl, fun heq => hassert ?_⟩
                rw [hround, Except.error.inj heq]
            | ok x' => exact .inr ⟨x', rfl, trivial, Relay.round_less hne hround⟩
      have hfuel : 2 * (b :: bs).length + s.inRecord < 2 * (b :: bs).length + 2 := by
        have := s.inRecord_le
        omega
      exact run_total (fun _ => True) _ (fun x => 2 * x.2.length + x.1.inRecord) hstep
        (s := (s, b :: bs)) trivial hfuel

end Loop

/-! ### What is to be relayed -/

/-- The record carries output of the request. -/
def Record.IsOutput (requestId : ℕ) (r : Record) : Prop :=
  (r.type.toNat = fcgiStdout ∨ r.type.toNat = fcgiStderr) ∧ r.requestId.toNat = requestId

/-- The record ends the request, which is complete. -/
def Record.IsEnd (requestId : ℕ) (r : Record) : Prop :=
  r.type.toNat = fcgiEndRequest ∧ r.requestId.toNat = requestId ∧
    r.content.length = sizeofEndRequestBody ∧ (r.content.getD 4 0).toNat = fcgiRequestComplete

/-- The status in the body of an `FCGI_END_REQUEST`. -/
def Record.appStatus (r : Record) : ℤ :=
  intOfBytes (r.content.getD 0 0) (r.content.getD 1 0) (r.content.getD 2 0) (r.content.getD 3 0)

/-- The first `k` bytes of the records end inside a header or inside the body of an
`FCGI_END_REQUEST`. -/
def CutsInside : List Record → ℕ → Prop
  | [], _ => False
  | r :: rs, k =>
      if k < r.encode.length then
        (0 < k ∧ k < fcgiHeaderLen) ∨
          (r.type.toNat = fcgiEndRequest ∧ fcgiHeaderLen < k ∧
            k < fcgiHeaderLen + sizeofEndRequestBody)
      else CutsInside rs (k - r.encode.length)

theorem cutsInside_append (passed rs : List Record) (k : ℕ) :
    CutsInside (passed ++ rs) ((encodeAll passed).length + k) ↔ CutsInside rs k := by
  induction passed with
  | nil => simp
  | cons r passed ih =>
      rw [List.cons_append, CutsInside, encodeAll_cons, List.length_append, if_neg (by omega),
        show r.encode.length + (encodeAll passed).length + k - r.encode.length =
          (encodeAll passed).length + k by omega, ih]

/-- The output of the records, and of the first `n` bytes behind the header of the
record after them. -/
def relayed (type : ℕ) (passed : List Record) (r : Record) (n : ℕ) : List UInt8 :=
  contents (ofType type passed) ++ if r.type.toNat = type then r.content.take n else []

/-- The outputs are in order as far as the record `r` and `n` bytes behind its header. -/
structure Relay.Wrote (s : Relay) (passed : List Record) (r : Record) (n : ℕ) : Prop where
  stdout : s.stdout = relayed fcgiStdout passed r n
  stderr : s.stderr = relayed fcgiStderr passed r n
  notSet : s.exitStatusSet = false

/-- What the handler has made of the first `k` bytes of the records. -/
inductive Relay.At (recs : List Record) (er : Record) : Relay → ℕ → Prop
  /-- The next byte is the first of a header. -/
  | between {s : Relay} {passed todo : List Record} {r : Record}
      (hrecs : recs ++ [er] = passed ++ r :: todo) (hheaderLen : s.headerLen = 0)
      (hreading : s.readingEndRequestBody = false) (hwrote : s.Wrote passed r 0) :
      Relay.At recs er s (encodeAll passed).length
  /-- The header is read, and `n` bytes of what follows it. -/
  | within {s : Relay} {passed todo : List Record} {r : Record} {n : ℕ}
      (hrecs : recs ++ [er] = passed ++ r :: todo) (hheaderLen : s.headerLen = fcgiHeaderLen)
      (hhead : s.head = r.header) (hcontentLen : s.contentLen = r.content.length - n)
      (hpaddingLen : s.paddingLen = r.padding.length - (n - r.content.length))
      (hn : n ≤ r.content.length + r.padding.length)
      (hreading : s.readingEndRequestBody = false)
      (hend : r.type.toNat = fcgiEndRequest → n = 0)
      (hwrote : s.Wrote passed r n) :
      Relay.At recs er s ((encodeAll passed).length + fcgiHeaderLen + n)
  /-- The body of the last record is read, and perhaps some of its padding. -/
  | finished {s : Relay} {k : ℕ} (hstdout : s.stdout = contents (ofType fcgiStdout recs))
      (hstderr : s.stderr = contents (ofType fcgiStderr recs)) (hset : s.exitStatusSet = true)
      (hstatus : s.exitStatus = er.appStatus)
      (hk : (encodeAll recs).length + fcgiHeaderLen + sizeofEndRequestBody ≤ k) :
      Relay.At recs er s k

/-- The handler holds the beginning of a header, or of the body of `FCGI_END_REQUEST`. -/
def Relay.Torn (s : Relay) : Prop :=
  s.exitStatusSet = false ∧
    ((0 < s.headerLen ∧ s.headerLen < fcgiHeaderLen) ∨
      (s.headerLen = fcgiHeaderLen ∧ s.head.type.toNat = fcgiEndRequest ∧
        s.readingEndRequestBody = true ∧ 0 < s.contentLen ∧ s.contentLen < sizeofEndRequestBody))

section Round

variable {requestId : ℕ} {recs : List Record} {er : Record} {s : Relay}

/-- The record at hand carries output and others follow it, or it is the last one. -/
theorem record_cases (houtput : ∀ r ∈ recs, r.IsOutput requestId) {passed todo : List Record}
    {r : Record} (hrecs : recs ++ [er] = passed ++ r :: todo) :
    (r.IsOutput requestId ∧ ∃ r' todo', todo = r' :: todo') ∨
      (r = er ∧ todo = [] ∧ passed = recs) := by
  rcases List.eq_nil_or_concat todo with rfl | ⟨todo', x, rfl⟩
  · obtain ⟨hpassed, hr⟩ := List.append_inj' hrecs rfl
    exact .inr ⟨(List.cons.inj hr).1.symm, rfl, hpassed.symm⟩
  · rw [List.concat_eq_append, ← List.cons_append, ← List.append_assoc] at hrecs
    obtain ⟨hrecs, -⟩ := List.append_inj' hrecs rfl
    refine .inl ⟨houtput r (by simp [hrecs]), ?_⟩
    cases todo' with
    | nil => exact ⟨x, [], rfl⟩
    | cons r' todo' => exact ⟨r', todo'.concat x, rfl⟩

theorem drop_between (passed todo : List Record) (r : Record) :
    (encodeAll (passed ++ r :: todo)).drop (encodeAll passed).length = encodeAll (r :: todo) := by
  rw [encodeAll_append, List.drop_left' rfl]

theorem drop_within (passed todo : List Record) (r : Record) {n : ℕ}
    (hn : n ≤ r.content.length + r.padding.length) :
    (encodeAll (passed ++ r :: todo)).drop ((encodeAll passed).length + fcgiHeaderLen + n) =
      (r.content ++ r.padding).drop n ++ encodeAll todo := by
  rw [encodeAll_append, Nat.add_assoc, ← List.drop_drop, List.drop_left' rfl, encodeAll_cons,
    Record.encode, List.append_assoc, ← List.drop_drop, List.drop_left' r.header.length_bytes,
    List.drop_append_of_le_length (by simpa using hn)]

/-- What one round of the loop may come to: it goes on behind some bytes, or the buffer
ends where it must not. -/
def Relay.Goes (recs : List Record) (er : Record) (k : ℕ) (fromAS : List UInt8)
    (x : Relay × List UInt8) : Prop :=
  (∃ j, x.1.At recs er (k + j) ∧ j ≤ fromAS.length ∧ x.2 = fromAS.drop j ∧
      (x.1.exitStatusSet = true → x.2 = [])) ∨
    (x.2 = [] ∧ x.1.Torn ∧ CutsInside (recs ++ [er]) (k + fromAS.length))

/-- A buffer that is used up where it may end. -/
theorem Relay.At.usedUp {k : ℕ} {fromAS : List UInt8} {x : Relay × List UInt8}
    (hat : x.1.At recs er (k + fromAS.length)) (hempty : x.2 = []) :
    Relay.Goes recs er k fromAS x := by
  refine .inl ⟨fromAS.length, hat, Nat.le_refl _, ?_, fun _ => hempty⟩
  rw [hempty, List.drop_length]

/-- A round on what an earlier one has left. -/
theorem Relay.Goes.append {k j : ℕ} {fromAS : List UInt8} {x : Relay × List UInt8}
    (hj : j ≤ fromAS.length) (h : Relay.Goes recs er (k + j) (fromAS.drop j) x) :
    Relay.Goes recs er k fromAS x := by
  have hlen : (fromAS.drop j).length = fromAS.length - j := List.length_drop
  rcases h with ⟨i, hat, hi, hx, hdone⟩ | ⟨hempty, htorn, hcut⟩
  · refine .inl ⟨j + i, by rwa [← Nat.add_assoc], by omega, ?_, hdone⟩
    rw [hx, List.drop_drop]
  · refine .inr ⟨hempty, htorn, ?_⟩
    rwa [hlen, Nat.add_assoc, Nat.add_sub_cancel' hj] at hcut

theorem memcpy_zero {size : ℕ} {obj : ℕ → UInt8} {bytes : List UInt8} (h : bytes.length ≤ size) :
    memcpy size obj 0 bytes = .ok (store obj 0 bytes) := by
  rw [memcpy, if_pos (by omega)]

theorem memcpy_outside {size offset : ℕ} {obj : ℕ → UInt8} {bytes : List UInt8}
    (h : size < offset + bytes.length) : memcpy size obj offset bytes = .error .outside := by
  rw [memcpy, if_neg (by omega)]

/-- **A round that reads a header.** -/
theorem Relay.completeHeader_goes (hid : ∀ r ∈ recs ++ [er], r.requestId.toNat = requestId)
    {passed todo : List Record} {r : Record} (hrecs : recs ++ [er] = passed ++ r :: todo)
    (hheaderLen : s.headerLen = 0) (hreading : s.readingEndRequestBody = false)
    (hwrote : s.Wrote passed r 0) {fromAS rest : List UInt8} (hne : fromAS ≠ [])
    (hbytes : fromAS ++ rest = encodeAll (r :: todo)) :
    ∃ x, s.completeHeader requestId fromAS = .ok x ∧
      Relay.Goes recs er (encodeAll passed).length fromAS x := by
  have hpos := List.length_pos_iff.mpr hne
  have htake : fromAS.take fcgiHeaderLen ≠ [] := by simpa using hne
  have hlen8 : (fromAS.take fcgiHeaderLen).length = min 8 fromAS.length := List.length_take
  rw [Relay.completeHeader]
  simp only [hheaderLen, Nat.sub_zero, if_neg htake, Nat.mul_zero, Nat.zero_add]
  rw [memcpy_zero (List.length_take_le ..)]
  simp only [Except.bind, hlen8]
  by_cases hlen : fromAS.length < 8
  · -- the buffer ends inside the header
    have hdrop : fromAS.drop fcgiHeaderLen = [] := List.drop_eq_nil_of_le hlen.le
    have hmin : min 8 fromAS.length < 8 := by omega
    rw [if_pos hmin]
    refine ⟨_, rfl, .inr ⟨hdrop, ⟨hwrote.notSet, .inl ⟨?_, hmin⟩⟩, ?_⟩⟩
    · show 0 < min 8 fromAS.length
      omega
    · rw [hrecs, cutsInside_append, CutsInside, if_pos (by rw [r.length_encode]; omega)]
      exact .inl ⟨hpos, hlen⟩
  · have hmin : ¬ min 8 fromAS.length < 8 := by omega
    have hptr : fromAS.take fcgiHeaderLen = r.header.bytes := by
      calc fromAS.take 8 = (fromAS ++ rest).take 8 :=
            (List.take_append_of_le_length (by omega)).symm
        _ = r.header.bytes := by
            rw [hbytes, encodeAll_cons, Record.encode, List.append_assoc]
            exact List.take_left' r.header.length_bytes
    have hslice : slice (store s.header 0 (fromAS.take fcgiHeaderLen)) 0 fcgiHeaderLen =
        r.header.bytes := by
      rw [hptr]
      exact slice_store s.header 0 r.header.bytes
    rw [if_neg hmin]
    simp only [Relay.head, hslice, Header.ofBytes_bytes, r.header_version, r.header_requestId,
      hid r (by rw [hrecs]; simp), ne_eq, not_true_eq_false, if_false]
    refine ⟨_, rfl, .inl ⟨8, ?_, by omega, rfl, fun hset => ?_⟩⟩
    · refine Relay.At.within (n := 0) hrecs ?_ ?_ ?_ ?_ (by omega) hreading (fun _ => rfl) ?_
      · show min 8 fromAS.length = 8
        omega
      · simp only [Relay.head, hslice, Header.ofBytes_bytes]
      · exact r.header_contentLength
      · rw [Nat.zero_sub, Nat.sub_zero]
        exact r.header_paddingLength
      · exact ⟨hwrote.stdout, hwrote.stderr, hwrote.notSet⟩
    · exact absurd hset (by simp [hwrote.notSet])

/-- What has been taken of a buffer that starts the rest of a record. -/
theorem take_of_rest {fromAS rest front back : List UInt8} (hbytes : fromAS ++ rest = front ++ back) :
    fromAS.take front.length = front.take fromAS.length := by
  rcases Nat.le_total fromAS.length front.length with hle | hle
  · rw [List.take_of_length_le hle]
    calc fromAS = (fromAS ++ rest).take fromAS.length := (List.take_left' rfl).symm
      _ = front.take fromAS.length := by rw [hbytes, List.take_append_of_le_length hle]
  · rw [List.take_of_length_le hle]
    calc fromAS.take front.length = (fromAS ++ rest).take front.length :=
          (List.take_append_of_le_length hle).symm
      _ = front := by rw [hbytes, List.take_left' rfl]

/-- The record is over. -/
theorem relayed_next (type : ℕ) (passed : List Record) (r r' : Record) {n : ℕ}
    (hn : r.content.length ≤ n) :
    relayed type passed r n = relayed type (passed ++ [r]) r' 0 := by
  rw [relayed, relayed, List.take_of_length_le hn, List.take_zero, ite_self, List.append_nil,
    ofType_append, contents_append]
  congr 1
  by_cases htype : r.type.toNat = type <;> simp [ofType, contents, htype]

theorem Relay.Wrote.next {passed : List Record} {r : Record} {n : ℕ} (h : s.Wrote passed r n)
    (r' : Record) (hn : r.content.length ≤ n) : s.Wrote (passed ++ [r]) r' 0 where
  stdout := h.stdout.trans (relayed_next fcgiStdout passed r r' hn)
  stderr := h.stderr.trans (relayed_next fcgiStderr passed r r' hn)
  notSet := h.notSet

/-- Padding leaves the outputs as they are. -/
theorem Relay.Wrote.padding {passed : List Record} {r : Record} {n n' : ℕ}
    (h : s.Wrote passed r n) (hn : r.content.length ≤ n) (hn' : r.content.length ≤ n') :
    s.Wrote passed r n' := by
  have htake : r.content.take n = r.content.take n' := by
    rw [List.take_of_length_le hn, List.take_of_length_le hn']
  refine ⟨?_, ?_, h.notSet⟩
  · rw [h.stdout, relayed, relayed, htake]
  · rw [h.stderr, relayed, relayed, htake]

/-- More of the content of the record. -/
theorem relayed_add (type : ℕ) (passed : List Record) (r : Record) (n a : ℕ) :
    relayed type passed r (n + a) =
      relayed type passed r n ++ if r.type.toNat = type then (r.content.drop n).take a else [] := by
  rw [relayed, relayed, List.append_assoc]
  congr 1
  split
  · exact List.take_add
  · rfl

/-- The content that is at hand is written. -/
theorem Relay.writeContent_wrote {passed : List Record} {r : Record} {n : ℕ}
    (htype : r.type.toNat = fcgiStdout ∨ r.type.toNat = fcgiStderr) (hhead : s.head = r.header)
    (hcontentLen : s.contentLen = r.content.length - n) (hwrote : s.Wrote passed r n)
    {fromAS rest tail : List UInt8} (hbytes : fromAS ++ rest = r.content.drop n ++ tail) :
    (s.writeContent fromAS).1.Wrote passed r (n + min (r.content.length - n) fromAS.length) := by
  have htake : fromAS.take s.contentLen =
      (r.content.drop n).take (min (r.content.length - n) fromAS.length) := by
    rw [hcontentLen, ← List.length_drop, take_of_rest hbytes, Nat.min_comm]
    exact List.take_eq_take_min
  have hstdout := relayed_add fcgiStdout passed r n (min (r.content.length - n) fromAS.length)
  have hstderr := relayed_add fcgiStderr passed r n (min (r.content.length - n) fromAS.length)
  have hhead' : (Relay.head { s with contentLen := s.contentLen - (fromAS.take s.contentLen).length }) =
      r.header := hhead
  simp only [Relay.writeContent, hhead', r.header_type]
  rcases htype with htype | htype
  · rw [if_pos htype]
    rw [if_pos htype] at hstdout
    rw [if_neg (by rw [htype]; decide), List.append_nil] at hstderr
    refine ⟨?_, ?_, hwrote.notSet⟩
    · rw [hstdout, ← hwrote.stdout, ← htake]
    · rw [hstderr, ← hwrote.stderr]
  · rw [if_neg (by rw [htype]; decide)]
    rw [if_neg (by rw [htype]; decide), List.append_nil] at hstdout
    rw [if_pos htype] at hstderr
    refine ⟨?_, ?_, hwrote.notSet⟩
    · rw [hstdout, ← hwrote.stdout]
    · rw [hstderr, ← hwrote.stderr, ← htake]

/-- **A round that writes content.** -/
theorem Relay.writeContent_goes {passed todo : List Record} {r r' : Record} {n : ℕ}
    (hrecs : recs ++ [er] = passed ++ r :: r' :: todo)
    (htype : r.type.toNat = fcgiStdout ∨ r.type.toNat = fcgiStderr)
    (hheaderLen : s.headerLen = fcgiHeaderLen) (hhead : s.head = r.header)
    (hcontentLen : s.contentLen = r.content.length - n)
    (hpaddingLen : s.paddingLen = r.padding.length - (n - r.content.length))
    (hn : n ≤ r.content.length + r.padding.length)
    (hreading : s.readingEndRequestBody = false) (hwrote : s.Wrote passed r n)
    {fromAS rest : List UInt8} (hne : fromAS ≠ [])
    (hbytes : fromAS ++ rest = (r.content ++ r.padding).drop n ++ encodeAll (r' :: todo)) :
    Relay.Goes recs er ((encodeAll passed).length + fcgiHeaderLen + n) fromAS
      ((s.writeContent fromAS).1.skipPadding (s.writeContent fromAS).2) := by
  have hpos := List.length_pos_iff.mpr hne
  have hwrote' := s.writeContent_wrote htype hhead hcontentLen hwrote
    (by rw [hbytes, List.drop_append, List.append_assoc])
  obtain ⟨hheaderLen', hhead', hcontentLen', hpaddingLen', hreading', hbuf⟩ :=
    s.writeContent_frame fromAS
  rw [List.length_take] at hcontentLen'
  have hnotEnd : r.type.toNat ≠ fcgiEndRequest := by
    rcases htype with h | h <;> rw [h] <;> decide
  generalize (s.writeContent fromAS).1 = s₁ at *
  generalize (s.writeContent fromAS).2 = fromAS₁ at *
  subst hbuf
  rw [hcontentLen] at hcontentLen' ⊢
  rw [Relay.skipPadding]
  by_cases hmore : s₁.contentLen = 0
  · rw [if_neg (not_not.mpr hmore)]
    simp only [List.length_take, List.length_drop, List.drop_drop]
    have hall : r.content.length - n ≤ fromAS.length := by omega
    rw [Nat.min_eq_left hall] at hwrote'
    by_cases hlast : s₁.paddingLen -
        min s₁.paddingLen (fromAS.length - (r.content.length - n)) = 0
    · -- the record is over
      rw [if_pos hlast]
      have hk : (encodeAll passed).length + fcgiHeaderLen + n +
          (r.content.length - n + s₁.paddingLen) = (encodeAll (passed ++ [r])).length := by
        rw [encodeAll_append, List.length_append, encodeAll_cons, encodeAll_nil, List.append_nil,
          r.length_encode]
        show _ + 8 + n + _ = _
        omega
      refine .inl ⟨r.content.length - n + s₁.paddingLen, ?_, by omega, rfl, fun hset => ?_⟩
      · rw [hk]
        have hrecs' : recs ++ [er] = (passed ++ [r]) ++ r' :: todo := by rw [hrecs]; simp
        obtain ⟨hstdout, hstderr, hnotSet⟩ := hwrote'.next r' (by omega)
        exact Relay.At.between hrecs' rfl (hreading'.trans hreading) ⟨hstdout, hstderr, hnotSet⟩
      · exact absurd hset (by simp [hwrote'.notSet])
    · -- padding is still to come, so the buffer is used up
      rw [if_neg hlast]
      refine Relay.At.usedUp ?_ (List.drop_eq_nil_of_le (by omega))
      rw [Nat.add_assoc _ n]
      obtain ⟨hstdout, hstderr, hnotSet⟩ := hwrote'.padding (by omega)
        (show r.content.length ≤ n + fromAS.length by omega)
      refine Relay.At.within hrecs (hheaderLen'.trans hheaderLen) (hhead'.trans hhead) ?_ ?_
        (by omega) (hreading'.trans hreading) (fun h => absurd h hnotEnd)
        ⟨hstdout, hstderr, hnotSet⟩
      · show s₁.contentLen = _
        omega
      · show s₁.paddingLen - _ = _
        omega
  · -- content is still to come, so the buffer is used up
    rw [if_pos hmore]
    have hmin : min (r.content.length - n) fromAS.length = fromAS.length := by omega
    rw [hmin] at hwrote' hcontentLen'
    refine Relay.At.usedUp ?_ (List.drop_eq_nil_of_le (by omega))
    rw [Nat.add_assoc _ n]
    refine Relay.At.within hrecs (hheaderLen'.trans hheaderLen) (hhead'.trans hhead) ?_ ?_
      (by omega) (hreading'.trans hreading) (fun h => absurd h hnotEnd) hwrote'
    · show s₁.contentLen = _
      omega
    · rw [hpaddingLen', hpaddingLen]
      omega

theorem store_zero {m : ℕ → UInt8} {xs : List UInt8} {k : ℕ} (h : k < xs.length) :
    store m 0 xs k = xs.getD k 0 := by
  simp [store, List.getElem?_eq_getElem h]

/-- A body that is complete ends the request. -/
theorem Relay.finishRequest_end (her : er.IsEnd requestId) (hcontentLen : s.contentLen = 0)
    {m : ℕ → UInt8} (hbody : s.erBody = store m 0 er.content) :
    s.finishRequest = .ok { s with
      exitStatus := er.appStatus, exitStatusSet := true, readingEndRequestBody := false } := by
  obtain ⟨-, -, hlen, hcomplete⟩ := her
  have hlen : er.content.length = 8 := hlen
  have hcell : ∀ k < 8, s.erBody k = er.content.getD k 0 := fun k hk => by
    rw [hbody, store_zero (by omega)]
  have hstatus : s.appStatus = er.appStatus := by
    rw [Relay.appStatus, Record.appStatus, hcell 0 (by omega), hcell 1 (by omega),
      hcell 2 (by omega), hcell 3 (by omega)]
  rw [Relay.finishRequest, if_neg (not_not.mpr hcontentLen), hcell 4 (by omega),
    if_neg (not_not.mpr hcomplete), hstatus]

/-- **A round that ends the request.** -/
theorem Relay.endRequest_goes (her : er.IsEnd requestId) (hheaderLen : s.headerLen = fcgiHeaderLen)
    (hhead : s.head = er.header) (hcontentLen : s.contentLen = er.content.length)
    (hpaddingLen : s.paddingLen = er.padding.length) (hwrote : s.Wrote recs er 0)
    {fromAS rest : List UInt8} (hne : fromAS ≠ []) (hbytes : fromAS ++ rest = er.content ++ er.padding) :
    ∃ x, ((s.endRequest fromAS).map fun (s, fromAS) => s.skipPadding fromAS) = .ok x ∧
      Relay.Goes recs er ((encodeAll recs).length + fcgiHeaderLen + 0) fromAS x := by
  have hpos := List.length_pos_iff.mpr hne
  have hlen : er.content.length = 8 := her.2.2.1
  have hcontentLen8 : s.contentLen = 8 := by omega
  have htake : fromAS.take 8 ≠ [] := by simpa using hne
  have hlen8 : (fromAS.take 8).length = min 8 fromAS.length := List.length_take
  have htotal := congrArg List.length hbytes
  rw [List.length_append, List.length_append] at htotal
  rw [Relay.endRequest, if_neg (fun h => h.2 hcontentLen8)]
  simp only [hcontentLen8, if_neg htake, Nat.sub_self, Nat.mul_zero]
  rw [memcpy_zero (List.length_take_le ..)]
  simp only [Except.bind, hlen8]
  by_cases hshort : fromAS.length < 8
  · -- the buffer ends inside the body
    have hdrop : fromAS.drop 8 = [] := List.drop_eq_nil_of_le hshort.le
    have hmore : 8 - min 8 fromAS.length ≠ 0 := by omega
    rw [Relay.finishRequest, if_pos hmore]
    simp only [Except.map, Relay.skipPadding, if_pos hmore]
    refine ⟨_, rfl, .inr ⟨hdrop, ⟨hwrote.notSet, .inr ⟨hheaderLen, ?_, rfl, ?_, ?_⟩⟩, ?_⟩⟩
    · show s.head.type.toNat = _
      rw [hhead, er.header_type]
      exact her.1
    · exact Nat.pos_of_ne_zero hmore
    · show 8 - min 8 fromAS.length < 8
      omega
    · rw [Nat.add_assoc _ 0, Nat.zero_add, Nat.add_assoc, cutsInside_append, CutsInside,
        if_pos (by rw [er.length_encode]; show 8 + _ < _; omega)]
      refine .inr ⟨her.1, by omega, ?_⟩
      show 8 + fromAS.length < 8 + 8
      omega
  · have hptr : fromAS.take 8 = er.content := by
      rw [← hlen, take_of_rest hbytes, List.take_of_length_le (by omega)]
    rw [Relay.finishRequest_end her (by show 8 - min 8 fromAS.length = 0; omega)
      (by rw [hptr])]
    simp only [Except.map, Relay.skipPadding]
    rw [if_neg (by show ¬ 8 - min 8 fromAS.length ≠ 0; omega)]
    have hempty : (fromAS.drop 8).drop s.paddingLen = [] := by
      rw [List.drop_drop]
      exact List.drop_eq_nil_of_le (by omega)
    refine ⟨_, rfl, Relay.At.usedUp ?_ hempty⟩
    have hstdout : s.stdout = contents (ofType fcgiStdout recs) := by
      rw [hwrote.stdout, relayed, List.take_zero, ite_self, List.append_nil]
    have hstderr : s.stderr = contents (ofType fcgiStderr recs) := by
      rw [hwrote.stderr, relayed, List.take_zero, ite_self, List.append_nil]
    have hk : (encodeAll recs).length + fcgiHeaderLen + sizeofEndRequestBody ≤
        (encodeAll recs).length + fcgiHeaderLen + 0 + fromAS.length := by
      show _ + 8 + 8 ≤ _ + 8 + 0 + _
      omega
    split
    · refine Relay.At.finished hstdout hstderr rfl ?_ hk
      dsimp only
    · refine Relay.At.finished hstdout hstderr rfl ?_ hk
      dsimp only

/-- **A round of the loop.** -/
theorem Relay.At.round (houtput : ∀ r ∈ recs, r.IsOutput requestId) (her : er.IsEnd requestId)
    {k : ℕ} (hat : s.At recs er k) (hset : s.exitStatusSet = false) {fromAS rest : List UInt8}
    (hne : fromAS ≠ []) (hbytes : fromAS ++ rest = (encodeAll (recs ++ [er])).drop k) :
    ∃ x, s.round requestId fromAS = .ok x ∧ Relay.Goes recs er k fromAS x := by
  have hid : ∀ r ∈ recs ++ [er], r.requestId.toNat = requestId := fun r hr =>
    (List.mem_append.mp hr).elim (fun hr => (houtput r hr).2)
      (fun hr => List.mem_singleton.mp hr ▸ her.2.1)
  cases hat with
  | between hrecs hheaderLen hreading hwrote =>
      rw [hrecs, drop_between] at hbytes
      rw [Relay.round, hheaderLen, if_pos (by decide)]
      exact Relay.completeHeader_goes hid hrecs hheaderLen hreading hwrote hne hbytes
  | within hrecs hheaderLen hhead hcontentLen hpaddingLen hn hreading hend hwrote =>
      rw [hrecs, drop_within _ _ _ hn] at hbytes
      rw [Relay.round, hheaderLen, if_neg (Nat.lt_irrefl _), hhead]
      simp only [Record.header_type]
      rcases record_cases houtput hrecs with ⟨⟨htype, -⟩, r', todo', rfl⟩ | ⟨rfl, rfl, rfl⟩
      · rw [if_pos htype]
        exact ⟨_, rfl, Relay.writeContent_goes hrecs htype hheaderLen hhead hcontentLen hpaddingLen
          hn hreading hwrote hne hbytes⟩
      · obtain rfl := hend her.1
        rw [if_neg (by rw [her.1]; decide), if_pos her.1]
        rw [List.drop_zero, encodeAll_nil, List.append_nil] at hbytes
        exact Relay.endRequest_goes her hheaderLen hhead hcontentLen
          (hpaddingLen.trans (by rw [Nat.zero_sub, Nat.sub_zero])) hwrote hne hbytes
  | finished _ _ hset' => exact absurd hset' (by simp [hset])

/-- Where the handler is when it returns: behind the chunk, or torn by its end. -/
def Relay.Ends (recs : List Record) (er : Record) (k : ℕ) (s : Relay) : Prop :=
  s.At recs er k ∨ (s.Torn ∧ CutsInside (recs ++ [er]) k)

/-- A pass of the loop that is under way on a chunk. -/
theorem Relay.Goes.pass (houtput : ∀ r ∈ recs, r.IsOutput requestId) (her : er.IsEnd requestId)
    {k : ℕ} {chunk rest : List UInt8} {x : Relay × List UInt8}
    (hbytes : chunk ++ rest = (encodeAll (recs ++ [er])).drop k)
    (h : Relay.Goes recs er k chunk x) :
    (∃ s', Relay.pass requestId x = some (.done (.ok s')) ∧
        s'.Ends recs er (k + chunk.length)) ∨
      ∃ x', Relay.pass requestId x = some (.again x') ∧ Relay.Goes recs er k chunk x' ∧
        2 * x'.2.length + x'.1.inRecord < 2 * x.2.length + x.1.inRecord := by
  rw [Relay.pass]
  rcases h with ⟨j, hat, hj, hx, hdone⟩ | ⟨hempty, htorn, hcut⟩
  · by_cases hempty : x.2 = []
    · have hj : j = chunk.length := by
        have hle := List.drop_eq_nil_iff.mp (hx.symm.trans hempty)
        omega
      rw [if_pos hempty]
      exact .inl ⟨x.1, rfl, .inl (hj ▸ hat)⟩
    · have hbytes' : x.2 ++ rest = (encodeAll (recs ++ [er])).drop (k + j) := by
        rw [hx, ← List.drop_drop, ← hbytes, List.drop_append_of_le_length hj]
      have hset : x.1.exitStatusSet = false := by
        by_contra hset
        exact hempty (hdone (by simpa using hset))
      obtain ⟨x', hround, hgoes⟩ := hat.round houtput her hset hempty hbytes'
      rw [hx] at hgoes
      rw [if_neg hempty, hround]
      exact .inr ⟨x', rfl, hgoes.append hj, Relay.round_less hempty hround⟩
  · rw [if_pos hempty]
    exact .inl ⟨x.1, rfl, .inr ⟨htorn, hcut⟩⟩

/-- **A call of the handler.** A chunk that ends where a chunk may end is taken; one that
ends inside a header, or inside the body of `FCGI_END_REQUEST`, leaves it torn. -/
theorem Relay.At.readHandler (houtput : ∀ r ∈ recs, r.IsOutput requestId)
    (her : er.IsEnd requestId) {k : ℕ} (hat : s.At recs er k) (hset : s.exitStatusSet = false)
    {chunk rest : List UInt8} (hne : chunk ≠ [])
    (hbytes : chunk ++ rest = (encodeAll (recs ++ [er])).drop k) :
    ∃ s', s.readHandler requestId (.ok chunk) = some (.ok s') ∧
      (s'.At recs er (k + chunk.length) ∨
        (s'.Torn ∧ CutsInside (recs ++ [er]) (k + chunk.length))) := by
  let P : Except Halt Relay → Prop := fun r => ∃ s', r = .ok s' ∧
    s'.Ends recs er (k + chunk.length)
  have hstep : ∀ x, Relay.Goes recs er k chunk x →
      (∃ r, Relay.pass requestId x = some (.done r) ∧ P r) ∨
        ∃ x', Relay.pass requestId x = some (.again x') ∧ Relay.Goes recs er k chunk x' ∧
          2 * x'.2.length + x'.1.inRecord < 2 * x.2.length + x.1.inRecord := by
    intro x hgoes
    rcases hgoes.pass houtput her hbytes with ⟨s', hpass, hends⟩ | hagain
    · exact .inl ⟨_, hpass, s', rfl, hends⟩
    · exact .inr hagain
  have hgoes : Relay.Goes recs er k chunk (s, chunk) :=
    .inl ⟨0, hat, Nat.zero_le _, rfl, fun h => absurd h (by simp [hset])⟩
  have hfuel : 2 * chunk.length + s.inRecord < 2 * chunk.length + 2 := by
    have := s.inRecord_le
    omega
  obtain ⟨r, hrun, s', rfl, hs'⟩ := run_total (Relay.Goes recs er k chunk) P _ hstep hgoes hfuel
  cases chunk with
  | nil => exact absurd rfl hne
  | cons b bs => exact ⟨s', hrun, hs'⟩

/-- **The next chunk after a torn one.** The rest goes to an address outside the object. -/
theorem Relay.Torn.readHandler (htorn : s.Torn) {chunk : List UInt8} (hne : chunk ≠ []) :
    s.readHandler requestId (.ok chunk) = some (.error .outside) := by
  have hpos := List.length_pos_iff.mpr hne
  have hround : s.round requestId chunk = .error .outside := by
    obtain ⟨-, ⟨h0, h8⟩ | ⟨h8, htype, hreading, h0, hlt⟩⟩ := htorn
    · rw [Relay.round, if_pos h8, Relay.completeHeader]
      have h8 : s.headerLen < 8 := h8
      have htake : chunk.take (fcgiHeaderLen - s.headerLen) ≠ [] := by
        show chunk.take (8 - s.headerLen) ≠ []
        simp [hne]
        omega
      simp only
      rw [if_neg htake, memcpy_outside (by
        show 8 < 8 * s.headerLen + _
        have := List.length_pos_iff.mpr htake
        omega)]
      rfl
    · rw [Relay.round, h8, if_neg (Nat.lt_irrefl _), if_neg (by rw [htype]; decide), if_pos htype,
        Relay.endRequest, if_neg (by simp [hreading])]
      have hlt : s.contentLen < 8 := hlt
      have htake : chunk.take s.contentLen ≠ [] := by
        simp [hne]
        omega
      simp only [if_neg htake]
      rw [memcpy_outside (by
        show 8 < 8 * (8 - s.contentLen) + _
        have := List.length_pos_iff.mpr htake
        omega)]
      rfl
  cases chunk with
  | nil => exact absurd rfl hne
  | cons b bs =>
      refine run_done ?_
      rw [Relay.pass, if_neg (List.cons_ne_nil b bs), hround]

/-- A chunk ends inside a header, or inside the body of `FCGI_END_REQUEST`. -/
def SplitsInside (recs : List Record) (k : ℕ) (chunks : List (List UInt8)) : Prop :=
  ∃ pre post, chunks = pre ++ post ∧ CutsInside recs (k + pre.flatten.length)

theorem not_cutsInside_zero (rs : List Record) : ¬ CutsInside rs 0 := by
  cases rs with
  | nil => exact id
  | cons r rs =>
      rw [CutsInside, if_pos (by rw [r.length_encode]; omega)]
      simp

theorem CutsInside.lt {rs : List Record} {k : ℕ} (h : CutsInside rs k) :
    k < (encodeAll rs).length := by
  induction rs generalizing k with
  | nil => exact h.elim
  | cons r rs ih =>
      rw [encodeAll_cons, List.length_append]
      rw [CutsInside] at h
      split at h
      · omega
      · have := ih h
        omega

/-- Behind the body of the last record nothing is torn any more. -/
theorem not_cutsInside_of_ge {k : ℕ}
    (hk : (encodeAll recs).length + fcgiHeaderLen + sizeofEndRequestBody ≤ k) :
    ¬ CutsInside (recs ++ [er]) k := by
  obtain ⟨d, rfl⟩ := Nat.exists_eq_add_of_le hk
  rw [Nat.add_assoc, Nat.add_assoc, cutsInside_append, CutsInside]
  split
  · rintro (⟨-, h⟩ | ⟨-, -, h⟩)
    · exact absurd h (by show ¬ 8 + (8 + d) < 8; omega)
    · exact absurd h (by show ¬ 8 + (8 + d) < 8 + 8; omega)
  · exact id

theorem Relay.At.not_cutsInside {k : ℕ} (hat : s.At recs er k) :
    ¬ CutsInside (recs ++ [er]) k := by
  cases hat with
  | between hrecs =>
      rw [hrecs, ← Nat.add_zero (encodeAll _).length, cutsInside_append]
      exact not_cutsInside_zero _
  | @within passed todo r n hrecs _ _ _ _ hn _ hend =>
      rw [hrecs, Nat.add_assoc, cutsInside_append, CutsInside]
      have hend : r.type.toNat = fcgiEndRequest → n = 0 := hend
      split
      · rintro (⟨-, h⟩ | ⟨htype, h, -⟩)
        · exact absurd h (by show ¬ 8 + n < 8; omega)
        · exact absurd h (by show ¬ 8 < 8 + n; have := hend htype; omega)
      · have hzero : fcgiHeaderLen + n - r.encode.length = 0 := by
          rw [r.length_encode]
          show 8 + n - _ = 0
          omega
        rw [hzero]
        exact not_cutsInside_zero _
  | finished _ _ _ _ hk => exact not_cutsInside_of_ge hk

/-- Before the body of the last record is read there is something to come. -/
theorem Relay.At.lt (houtput : ∀ r ∈ recs, r.IsOutput requestId) (her : er.IsEnd requestId)
    {k : ℕ} (hat : s.At recs er k) (hset : s.exitStatusSet = false) :
    k < (encodeAll (recs ++ [er])).length := by
  cases hat with
  | between hrecs =>
      rw [hrecs, encodeAll_append, List.length_append, encodeAll_cons, List.length_append,
        Record.length_encode]
      omega
  | @within passed todo r n hrecs _ _ _ _ hn _ hend =>
      rw [hrecs, encodeAll_append, List.length_append, encodeAll_cons, List.length_append,
        Record.length_encode]
      show _ + 8 + n < _
      rcases record_cases houtput hrecs with ⟨-, r', todo', rfl⟩ | ⟨rfl, rfl, rfl⟩
      · rw [encodeAll_cons, List.length_append, Record.length_encode]
        omega
      · obtain rfl := hend her.1
        have hlen : r.content.length = 8 := her.2.2.1
        omega
  | finished _ _ hset' => exact absurd hset' (by simp [hset])

theorem Relay.At.ge_of_set {k : ℕ} (hat : s.At recs er k) (hset : s.exitStatusSet = true) :
    (encodeAll recs).length + fcgiHeaderLen + sizeofEndRequestBody ≤ k := by
  cases hat with
  | between _ _ _ hwrote => exact absurd hset (by simp [hwrote.notSet])
  | within _ _ _ _ _ _ _ _ hwrote => exact absurd hset (by simp [hwrote.notSet])
  | finished _ _ _ _ hk => exact hk

theorem splitsInside_cons (rs : List Record) (k : ℕ) (chunk : List UInt8)
    (chunks : List (List UInt8)) :
    SplitsInside rs k (chunk :: chunks) ↔
      CutsInside rs k ∨ SplitsInside rs (k + chunk.length) chunks := by
  constructor
  · rintro ⟨pre, post, heq, hcut⟩
    cases pre with
    | nil => exact .inl hcut
    | cons c pre =>
        obtain ⟨rfl, rfl⟩ := List.cons.inj heq
        refine .inr ⟨pre, post, rfl, ?_⟩
        rwa [List.flatten_cons, List.length_append, ← Nat.add_assoc] at hcut
  · rintro (hcut | ⟨pre, post, rfl, hcut⟩)
    · exact ⟨[], _, rfl, hcut⟩
    · refine ⟨chunk :: pre, post, rfl, ?_⟩
      rwa [List.flatten_cons, List.length_append, ← Nat.add_assoc]

/-- The handler called with one chunk after the other. -/
theorem Relay.At.readAll (houtput : ∀ r ∈ recs, r.IsOutput requestId) (her : er.IsEnd requestId)
    {chunks : List (List UInt8)} (hne : ∀ chunk ∈ chunks, chunk ≠ []) {k : ℕ}
    (hat : s.At recs er k) (hbytes : chunks.flatten = (encodeAll (recs ++ [er])).drop k) :
    (SplitsInside (recs ++ [er]) k chunks ∧ s.readAll requestId chunks = some (.error .outside)) ∨
      (¬ SplitsInside (recs ++ [er]) k chunks ∧ ∃ s' k', s.readAll requestId chunks = some (.ok s') ∧
        s'.At recs er k' ∧ s'.exitStatusSet = true) := by
  induction chunks generalizing s k with
  | nil =>
      refine .inr ⟨?_, s, k, rfl, hat, ?_⟩
      · rintro ⟨pre, post, heq, hcut⟩
        obtain ⟨rfl, rfl⟩ := List.append_eq_nil_iff.mp heq.symm
        exact hat.not_cutsInside hcut
      · by_contra hset
        have hlt := hat.lt houtput her (by simpa using hset)
        have hge := List.drop_eq_nil_iff.mp hbytes.symm
        omega
  | cons chunk chunks ih =>
      rw [Relay.readAll, splitsInside_cons]
      by_cases hset : s.exitStatusSet
      · rw [if_pos hset]
        refine .inr ⟨?_, s, k, rfl, hat, hset⟩
        have hk := hat.ge_of_set hset
        rintro (hcut | ⟨pre, post, -, hcut⟩)
        · exact not_cutsInside_of_ge hk hcut
        · exact not_cutsInside_of_ge (by omega) hcut
      · rw [if_neg hset]
        have hset : s.exitStatusSet = false := by simpa using hset
        obtain ⟨s', hread, hs'⟩ := hat.readHandler houtput her hset (hne chunk (by simp)) hbytes
        rw [hread]
        have hbytes' : chunks.flatten = (encodeAll (recs ++ [er])).drop (k + chunk.length) := by
          rw [← List.drop_drop, ← hbytes, List.flatten_cons, List.drop_left' rfl]
        rcases hs' with hat' | ⟨htorn, hcut⟩
        · have hno := hat.not_cutsInside
          simp only [hno, false_or]
          exact ih (fun c hc => hne c (List.mem_cons_of_mem _ hc)) hat' hbytes'
        · -- the record is not over, so another chunk comes
          cases chunks with
          | nil =>
              have hge := List.drop_eq_nil_iff.mp hbytes'.symm
              exact absurd hcut.lt (by omega)
          | cons next chunks =>
              refine .inl ⟨.inr ⟨[], _, rfl, hcut⟩, ?_⟩
              simp only [Relay.readAll, htorn.1, Bool.false_eq_true, if_false,
                htorn.readHandler (hne next (by simp))]

end Round

/-- The outputs are the contents of the records, and the program ends with the status of
the last one. -/
def Relays (requestId : ℕ) (recs : List Record) (er : Record) (chunks : List (List UInt8)) :
    Prop :=
  ∃ s, Relay.init.readAll requestId chunks = some (.ok s) ∧
    s.stdout = contents (ofType fcgiStdout recs) ∧ s.stderr = contents (ofType fcgiStderr recs) ∧
    s.exitStatusSet = true ∧ s.exitStatus = er.appStatus

theorem Relay.init_at (recs : List Record) (er : Record) : Relay.init.At recs er 0 := by
  have hwrote : ∀ r : Record, Relay.init.Wrote [] r 0 := fun r =>
    ⟨by simp [relayed, ofType, Relay.init], by simp [relayed, ofType, Relay.init], rfl⟩
  cases recs with
  | nil => exact Relay.At.between (show [] ++ [er] = [] ++ er :: [] from rfl) rfl rfl (hwrote er)
  | cons r recs =>
      exact Relay.At.between (show r :: recs ++ [er] = [] ++ r :: (recs ++ [er]) from rfl) rfl rfl
        (hwrote r)

/-- **The relay and the boundaries of its reads.** Output is relayed to its end exactly if
no read ends inside a header or inside the body of `FCGI_END_REQUEST`. -/
theorem relays_iff (requestId : ℕ) {recs : List Record} {er : Record}
    (houtput : ∀ r ∈ recs, r.IsOutput requestId) (her : er.IsEnd requestId)
    {chunks : List (List UInt8)} (hne : ∀ chunk ∈ chunks, chunk ≠ [])
    (hbytes : chunks.flatten = encodeAll (recs ++ [er])) :
    Relays requestId recs er chunks ↔ ¬ SplitsInside (recs ++ [er]) 0 chunks := by
  rcases (Relay.init_at recs er).readAll houtput her hne (by simpa using hbytes) with
    ⟨hsplit, hread⟩ | ⟨hsplit, s, k, hread, hat, hset⟩
  · refine iff_of_false ?_ (not_not.mpr hsplit)
    rintro ⟨s, hs, -⟩
    rw [hread] at hs
    exact nomatch hs
  · refine iff_of_true ⟨s, hread, ?_⟩ hsplit
    cases hat with
    | between _ _ _ hwrote => exact absurd hset (by simp [hwrote.notSet])
    | within _ _ _ _ _ _ _ _ hwrote => exact absurd hset (by simp [hwrote.notSet])
    | finished hstdout hstderr _ hstatus _ => exact ⟨hstdout, hstderr, hset, hstatus⟩

/-- Output `A` for request 1, and its end with the status 3. -/
def outputA : Record := dataRecord fcgiStdout 1 [65] [] (by decide) nil_padding_le

def endA : Record :=
  dataRecord fcgiEndRequest 1 [0, 0, 0, 3, 0, 0, 0, 0] [] (by decide) nil_padding_le

theorem relays_whole : Relays 1 [outputA] endA [encodeAll [outputA, endA]] := by
  have hsplit : ¬ SplitsInside ([outputA] ++ [endA]) 0 [encodeAll [outputA, endA]] := by
    rw [splitsInside_cons]
    rintro (hcut | ⟨pre, post, heq, hcut⟩)
    · exact not_cutsInside_zero _ hcut
    · obtain ⟨rfl, rfl⟩ := List.append_eq_nil_iff.mp heq.symm
      exact absurd hcut.lt (by decide)
  have houtput : ∀ r ∈ [outputA], r.IsOutput 1 := fun r hr => by
    obtain rfl := List.mem_singleton.mp hr
    exact ⟨.inl rfl, rfl⟩
  exact (relays_iff 1 houtput ⟨rfl, rfl, rfl, rfl⟩ (by decide) (by simp)).mpr hsplit

/-- The first read ends behind the third byte of a header. -/
theorem relays_torn :
    ¬ Relays 1 [outputA] endA
      [(encodeAll [outputA, endA]).take 3, (encodeAll [outputA, endA]).drop 3] := by
  rintro ⟨s, hs, -⟩
  have hrun : (Relay.init.readAll 1
      [(encodeAll [outputA, endA]).take 3, (encodeAll [outputA, endA]).drop 3]).map Except.isOk =
      some false := by decide +kernel
  rw [hs] at hrun
  exact nomatch hrun

end FastCgi
