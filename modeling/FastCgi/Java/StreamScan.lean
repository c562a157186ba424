import FastCgi.Java.InputStream
import FastCgi.Lib.Runs

/-!
The content of a stream on the wire, and the wires the Java reader copes with.

`Scan` reads the wire byte by byte, without a buffer, and says which bytes
are content of the stream of one request: records of other requests are
skipped, management records are answered, a second begin record is refused,
and what is malformed ends the stream. `Scan.Sound` are the wires on which
the reader of `InputStream.lean` does the same. Two fields of the state are
there for it: `marked`, whether the last byte is one after which the reader
sets `stop`, and `stale`, whether it goes on skipping after an empty record.
-/

namespace FastCgi

namespace Java

open Machine

/-- Why there is no more content: the empty record of the stream has come, or something failed. -/
inductive Finish where
  | endOfStream
  | failed
  deriving DecidableEq, Repr

/-- Where in a record the next byte is. A record has `n` bytes of content and `p` of padding to
come; `query` is the content so far of a `FCGI_GET_VALUES` record. -/
inductive Phase where
  | header (got : List UInt8)
  | content (n p : ℕ)
  | skipping (n p : ℕ)
  | values (query : List UInt8) (n p : ℕ)
  | padding (p : ℕ)
  | finished (f : Finish)
  deriving DecidableEq, Repr

/-- After the content. -/
def Phase.closing (p : ℕ) : Phase := if p = 0 then .header [] else .padding p

/-- In content that is not delivered. -/
def Phase.passing (n p : ℕ) : Phase := if n = 0 then .closing p else .skipping n p

/-- The scan of the stream `type` of the request `requestID`. -/
structure Scan where
  phase : Phase
  requestID : ℕ
  type : ℕ
  socket : FileOutputStream
  /-- An empty record of another request has come, and no record with content since. -/
  stale : Bool
  /-- The last byte ended a header, or was content of the stream, or ended a management record. -/
  marked : Bool

namespace Scan

/-! ### One byte -/

def goto (s : Scan) (phase : Phase) : Scan := { s with phase := phase }

/-- A response goes out, or the stream ends. -/
def respond (s : Scan) (response : List UInt8) (phase : Phase) : Scan :=
  match s.socket.write response with
  | (false, socket) => { s with socket := socket, phase := .finished .failed }
  | (true, socket) => { s with socket := socket, phase := phase }

/-- A query is answered if it can be parsed. -/
def answer (s : Scan) (query : List UInt8) : Scan :=
  match parsePairs query with
  | (ps, none) => s.respond (getValuesResponse ps) (.header [])
  | (_, some _) => s.goto (.finished .failed)

/-- What a header says about the bytes behind it. -/
def enter (s : Scan) (h : Header) : Scan :=
  let n := h.contentLength
  let p := h.paddingLength.toNat
  if h.version ≠ fcgiVersion1 then s.goto (.finished .failed)
  else if h.type.toNat = fcgiBeginRequest then
    if h.requestId = 0 ∨ n ≠ 8 then s.goto (.finished .failed) else s.goto (.skipping 8 p)
  else if h.requestId = fcgiNullRequestId then
    if h.type.toNat = fcgiGetValues then s.goto (.values [] n p)
    else s.respond (unknownTypeResponse h.type.toNat) (.passing n p)
  else if h.requestId ≠ s.requestID then { s with phase := .passing n p, stale := n = 0 }
  else if h.type.toNat ≠ s.type then s.goto (.finished .failed)
  else if n = 0 then s.goto (.finished .endOfStream)
  else s.goto (.content n p)

/-- A byte of a header. -/
def headerByte (s : Scan) (got : List UInt8) (b : UInt8) : Scan :=
  if got.length < 7 then { s with phase := .header (got ++ [b]), marked := false }
  else enter { s with marked := true } (Header.ofBytes (got ++ [b]))

/-- The next byte. That a query without padding is complete is seen with the byte behind it. -/
def step (s : Scan) (b : UInt8) : Scan :=
  match s.phase with
  | .header got => s.headerByte got b
  | .content n p =>
      { s with phase := if n ≤ 1 then .closing p else .content (n - 1) p, marked := true }
  | .skipping n p => { s with phase := .passing (n - 1) p, marked := false }
  | .values query (n + 1) p => { s with phase := .values (query ++ [b]) n p, marked := true }
  | .values query 0 (p + 1) =>
      if p = 0 then answer { s with marked := true } query
      else { s with phase := .values query 0 p, marked := false }
  | .values query 0 0 =>
      let t := answer { s with marked := true } query
      match t.phase with
      | .header _ => t.headerByte [] b
      | _ => t
  | .padding p => { s with phase := .closing (p - 1), marked := false }
  | .finished _ => s

/-- What the byte delivers. -/
def out (s : Scan) (b : UInt8) : List UInt8 :=
  match s.phase with
  | .content _ _ => [b]
  | _ => []

/-! ### A wire -/

/-- After the bytes `w`. -/
def after (s : Scan) (w : List UInt8) : Scan := w.foldl step s

/-- The content of the stream among the bytes `w`. -/
def content : Scan → List UInt8 → List UInt8
  | _, [] => []
  | s, b :: w => s.out b ++ content (s.step b) w

@[simp] theorem after_nil (s : Scan) : s.after [] = s := rfl

@[simp] theorem after_cons (s : Scan) (b : UInt8) (w : List UInt8) :
    s.after (b :: w) = (s.step b).after w := rfl

theorem after_append (s : Scan) (l w : List UInt8) :
    s.after (l ++ w) = (s.after l).after w := by
  rw [after, List.foldl_append]
  rfl

theorem content_append (s : Scan) (l w : List UInt8) :
    s.content (l ++ w) = s.content l ++ (s.after l).content w := by
  induction l generalizing s with
  | nil => rfl
  | cons b l ih =>
      rw [List.cons_append, content, content, ih, List.append_assoc]
      rfl

theorem length_content_le (s : Scan) (w : List UInt8) : (s.content w).length ≤ w.length := by
  induction w generalizing s with
  | nil => exact le_rfl
  | cons b w ih =>
      have hout : (s.out b).length ≤ 1 := by
        rw [out]
        split <;> simp
      rw [content, List.length_append, List.length_cons]
      have := ih (s.step b)
      omega

/-! ### The wires the reader copes with -/

/-- A header the reader treats as it should: no second begin record, no content in a management
record that is not understood, and after an empty record of another request no content that is
not to be skipped. -/
structure Admits (s : Scan) (h : Header) : Prop where
  begin : h.type.toNat = fcgiBeginRequest → h.requestId = 0 ∨ h.contentLength ≠ 8
  management : h.requestId = fcgiNullRequestId → h.type.toNat ≠ fcgiBeginRequest →
    h.type.toNat ≠ fcgiGetValues → h.contentLength = 0
  stale : s.stale = true → h.contentLength ≠ 0 →
    h.requestId ≠ fcgiNullRequestId ∧ h.requestId ≠ s.requestID

instance (s : Scan) (h : Header) : Decidable (s.Admits h) :=
  decidable_of_iff
    ((h.type.toNat = fcgiBeginRequest → h.requestId = 0 ∨ h.contentLength ≠ 8) ∧
      (h.requestId = fcgiNullRequestId → h.type.toNat ≠ fcgiBeginRequest →
        h.type.toNat ≠ fcgiGetValues → h.contentLength = 0) ∧
      (s.stale = true → h.contentLength ≠ 0 →
        h.requestId ≠ fcgiNullRequestId ∧ h.requestId ≠ s.requestID))
    ⟨fun ⟨hb, hm, hs⟩ => ⟨hb, hm, hs⟩, fun ⟨hb, hm, hs⟩ => ⟨hb, hm, hs⟩⟩

/-- A byte the reader copes with: one that does not complete a header of the version, or
completes one it treats as it should. -/
def Allows (s : Scan) (b : UInt8) : Prop :=
  ∀ got, s.phase = .header got → got.length = 7 →
    (Header.ofBytes (got ++ [b])).version = fcgiVersion1 → s.Admits (Header.ofBytes (got ++ [b]))

instance (s : Scan) (b : UInt8) : Decidable (s.Allows b) :=
  match hp : s.phase with
  | .header got =>
      decidable_of_iff
        (got.length = 7 → (Header.ofBytes (got ++ [b])).version = fcgiVersion1 →
          s.Admits (Header.ofBytes (got ++ [b])))
        ⟨fun h got' hgot' => by cases hp.symm.trans hgot'; exact h, fun h => h got hp⟩
  | .content _ _ | .skipping _ _ | .values _ _ _ | .padding _ | .finished _ =>
      isTrue fun _ hgot => nomatch hp.symm.trans hgot

/-- The end of the source is not seen, or it is an exception after a byte where the reader has
set `stop`. -/
def EndsWell (atEnd : SourceEnd) (s : Scan) : Prop :=
  (∃ f, s.phase = .finished f) ∨ atEnd = .ioException ∧ s.marked = true

/-- The scan of `w` takes steps the reader copes with only, and ends where it does. -/
def Sound (atEnd : SourceEnd) (s : Scan) (w : List UInt8) : Prop :=
  ∃ t, Runs (Guarded Allows fun s b t => s.step b = t) s w t ∧ t.EndsWell atEnd

/-- A wire whose bytes are checked one by one. -/
theorem Sound.of_exec {atEnd : SourceEnd} {s : Scan} {w : List UInt8}
    (h : (exec (guardStep Allows fun s b => some (s.step b)) s w).any
      (fun t => decide (atEnd = .ioException) && t.marked) = true) : s.Sound atEnd w := by
  obtain ⟨t, hrun, hend⟩ := (Option.any_eq_true _ _).mp h
  rw [Bool.and_eq_true, decide_eq_true_iff] at hend
  exact ⟨t, .of_exec_guardStep (fun _ _ _ hstep => Option.some.inj hstep) hrun, .inr hend⟩

theorem sound_nil {atEnd : SourceEnd} {s : Scan} : s.Sound atEnd [] ↔ s.EndsWell atEnd := by
  constructor
  · rintro ⟨t, hrun, hend⟩
    cases hrun
    exact hend
  · exact fun h => ⟨s, .nil, h⟩

theorem sound_cons {atEnd : SourceEnd} {s : Scan} {b : UInt8} {w : List UInt8} :
    s.Sound atEnd (b :: w) ↔ s.Allows b ∧ (s.step b).Sound atEnd w := by
  constructor
  · rintro ⟨t, hrun, hend⟩
    cases hrun with
    | cons h hrun =>
        obtain ⟨hallows, rfl⟩ := h
        exact ⟨hallows, t, hrun, hend⟩
  · rintro ⟨hallows, t, hrun, hend⟩
    exact ⟨t, .cons ⟨hallows, rfl⟩ hrun, hend⟩

theorem Sound.after {atEnd : SourceEnd} {s : Scan} {l w : List UInt8}
    (h : s.Sound atEnd (l ++ w)) : (s.after l).Sound atEnd w := by
  induction l generalizing s with
  | nil => exact h
  | cons b l ih => exact ih (sound_cons.mp h).2

/-- The scan of the bytes to come, `w`: they are sound, `bs` is delivered from them, and the
stream ends by itself only if `fin` holds. -/
structure Yields (s : Scan) (atEnd : SourceEnd) (w bs : List UInt8) (fin : Prop) : Prop where
  sound : s.Sound atEnd w
  content_eq : s.content w = bs
  finish : (s.after w).phase = .finished .endOfStream → fin

variable {s t : Scan} {atEnd : SourceEnd} {l w bs : List UInt8} {fin : Prop}

/-- Bytes that deliver nothing are passed. -/
theorem Yields.pass (h : s.Yields atEnd (l ++ w) bs fin) (ht : s.after l = t)
    (hl : s.content l = []) : t.Yields atEnd w bs fin := by
  subst ht
  refine ⟨h.sound.after, ?_, fun hw => h.finish (by rwa [after_append])⟩
  rw [← h.content_eq, content_append, hl, List.nil_append]

/-- Bytes of content are delivered. -/
theorem Yields.deliver (h : s.Yields atEnd (l ++ w) bs fin) (ht : s.after l = t)
    (hl : s.content l = l) : ∃ bs', bs = l ++ bs' ∧ t.Yields atEnd w bs' fin := by
  subst ht
  refine ⟨(s.after l).content w, ?_, h.sound.after, rfl, fun hw => h.finish ?_⟩
  · rw [← h.content_eq, content_append, hl]
  · rwa [after_append]

/-! ### Stretches of a wire -/

/-- Once the stream is over nothing happens. -/
theorem step_finished {f : Finish} (h : s.phase = .finished f) (b : UInt8) : s.step b = s := by
  simp only [step, h]

theorem after_finished {f : Finish} (h : s.phase = .finished f) (w : List UInt8) : s.after w = s := by
  induction w with
  | nil => rfl
  | cons b w ih => rw [after_cons, step_finished h, ih]

theorem content_finished {f : Finish} (h : s.phase = .finished f) (w : List UInt8) :
    s.content w = [] := by
  induction w with
  | nil => rfl
  | cons b w ih => simp only [content, step_finished h, ih, out, h, List.append_nil]

/-- A stretch of content. -/
theorem after_content {n p : ℕ} (h : s.phase = .content n p) (hl : l ≠ [])
    (hle : l.length ≤ n) :
    s.after l = { s with
      phase := if n ≤ l.length then .closing p else .content (n - l.length) p, marked := true } ∧
      s.content l = l := by
  induction l generalizing s n with
  | nil => exact absurd rfl hl
  | cons b l ih =>
      have hstep : s.step b =
          { s with phase := if n ≤ 1 then .closing p else .content (n - 1) p, marked := true } := by
        simp only [step, h]
      have hout : s.out b = [b] := by simp only [out, h]
      rw [List.length_cons] at hle ⊢
      rw [after_cons, content, hstep, hout]
      cases l with
      | nil => exact ⟨rfl, rfl⟩
      | cons b' l =>
          rw [List.length_cons] at hle
          have hn : ¬n ≤ 1 := by omega
          rw [if_neg hn]
          obtain ⟨hafter, hcontent⟩ := @ih { s with phase := .content (n - 1) p, marked := true }
            (n - 1) rfl (List.cons_ne_nil _ _) (by rw [List.length_cons]; omega)
          rw [hafter, hcontent]
          refine ⟨?_, rfl⟩
          rw [Nat.sub_sub, Nat.add_comm 1]
          simp only [Nat.sub_le_iff_le_add]

/-- A stretch of content that is not delivered. -/
theorem after_skipping {n p : ℕ} (h : s.phase = .skipping n p) (hl : l ≠ [])
    (hle : l.length ≤ n) :
    s.after l = { s with phase := .passing (n - l.length) p, marked := false } ∧
      s.content l = [] := by
  induction l generalizing s n with
  | nil => exact absurd rfl hl
  | cons b l ih =>
      have hstep : s.step b = { s with phase := .passing (n - 1) p, marked := false } := by
        simp only [step, h]
      have hout : s.out b = [] := by simp only [out, h]
      rw [List.length_cons] at hle ⊢
      rw [after_cons, content, hstep, hout]
      cases l with
      | nil => exact ⟨rfl, rfl⟩
      | cons b' l =>
          rw [List.length_cons] at hle
          have hpass : Phase.passing (n - 1) p = .skipping (n - 1) p := if_neg (by omega)
          rw [hpass]
          obtain ⟨hafter, hcontent⟩ := @ih { s with phase := .skipping (n - 1) p, marked := false }
            (n - 1) rfl (List.cons_ne_nil _ _) (by rw [List.length_cons]; omega)
          rw [hafter, hcontent]
          exact ⟨by rw [Nat.sub_sub, Nat.add_comm 1], rfl⟩

/-- A stretch of padding. -/
theorem after_padding {p : ℕ} (h : s.phase = .padding p) (hl : l ≠ []) (hle : l.length ≤ p) :
    s.after l = { s with phase := .closing (p - l.length), marked := false } ∧
      s.content l = [] := by
  induction l generalizing s p with
  | nil => exact absurd rfl hl
  | cons b l ih =>
      have hstep : s.step b = { s with phase := .closing (p - 1), marked := false } := by
        simp only [step, h]
      have hout : s.out b = [] := by simp only [out, h]
      rw [List.length_cons] at hle ⊢
      rw [after_cons, content, hstep, hout]
      cases l with
      | nil => exact ⟨rfl, rfl⟩
      | cons b' l =>
          rw [List.length_cons] at hle
          have hclose : Phase.closing (p - 1) = .padding (p - 1) := if_neg (by omega)
          rw [hclose]
          obtain ⟨hafter, hcontent⟩ := @ih { s with phase := .padding (p - 1), marked := false }
            (p - 1) rfl (List.cons_ne_nil _ _) (by rw [List.length_cons]; omega)
          rw [hafter, hcontent]
          exact ⟨by rw [Nat.sub_sub, Nat.add_comm 1], rfl⟩

/-- A stretch of a header that does not complete it. -/
theorem after_header {got : List UInt8} (h : s.phase = .header got) (hl : l ≠ [])
    (hlt : got.length + l.length < 8) :
    s.after l = { s with phase := .header (got ++ l), marked := false } ∧ s.content l = [] := by
  induction l generalizing s got with
  | nil => exact absurd rfl hl
  | cons b l ih =>
      rw [List.length_cons] at hlt
      have hstep : s.step b = { s with phase := .header (got ++ [b]), marked := false } := by
        simp only [step, h, headerByte, if_pos (show got.length < 7 by omega)]
      have hout : s.out b = [] := by simp only [out, h]
      rw [after_cons, content, hstep, hout]
      cases l with
      | nil => exact ⟨rfl, rfl⟩
      | cons b' l =>
          obtain ⟨hafter, hcontent⟩ := @ih { s with phase := .header (got ++ [b]), marked := false }
            (got ++ [b]) rfl (List.cons_ne_nil _ _)
            (by rw [List.length_append, List.length_singleton]; omega)
          rw [hafter, hcontent]
          exact ⟨by rw [List.append_assoc]; rfl, rfl⟩

/-- The rest of a header. -/
theorem after_enter {got : List UInt8} (h : s.phase = .header got) (hl : l ≠ [])
    (hlen : got.length + l.length = 8) :
    s.after l = enter { s with marked := true } (Header.ofBytes (got ++ l)) ∧
      s.content l = [] := by
  obtain ⟨l, b, rfl⟩ := List.eq_nil_or_concat l |>.resolve_left hl
  rw [List.concat_eq_append, List.length_append, List.length_singleton] at hlen
  have hlast : ∀ t : Scan, t.phase = .header (got ++ l) →
      t.step b = enter { t with marked := true } (Header.ofBytes (got ++ l ++ [b])) := by
    intro t ht
    have hseven : ¬(got ++ l).length < 7 := by
      rw [List.length_append]
      omega
    simp only [step, ht, headerByte, if_neg hseven]
  rw [List.concat_eq_append, after_append, content_append, ← List.append_assoc]
  cases l with
  | nil =>
      rw [List.append_nil] at hlast ⊢
      rw [after_nil, content, after_cons, hlast s h, after_nil]
      exact ⟨rfl, by simp only [content, out, h, List.append_nil]⟩
  | cons b' l =>
      rw [List.length_cons] at hlen
      obtain ⟨hafter, hcontent⟩ := after_header h (List.cons_ne_nil b' l)
        (by rw [List.length_cons]; omega)
      rw [hafter, hcontent, after_cons, after_nil, hlast _ rfl]
      exact ⟨rfl, rfl⟩

/-- The header that is completed is one the reader treats as it should. -/
theorem Sound.admits {got : List UInt8} (h : s.Sound atEnd (l ++ w))
    (hphase : s.phase = .header got) (hl : l ≠ []) (hlen : got.length + l.length = 8)
    (hversion : (Header.ofBytes (got ++ l)).version = fcgiVersion1) :
    s.Admits (Header.ofBytes (got ++ l)) := by
  obtain ⟨l, b, rfl⟩ := List.eq_nil_or_concat l |>.resolve_left hl
  rw [List.concat_eq_append, List.length_append, List.length_singleton] at hlen
  rw [List.concat_eq_append, ← List.append_assoc] at hversion ⊢
  rw [List.concat_eq_append, List.append_assoc] at h
  have hseven : (got ++ l).length = 7 := by
    rw [List.length_append]
    omega
  have hallows := (sound_cons.mp h.after).1
  cases l with
  | nil =>
      rw [List.append_nil] at hversion hseven ⊢
      exact hallows got hphase hseven hversion
  | cons b' l =>
      rw [List.length_cons] at hlen
      rw [(after_header hphase (List.cons_ne_nil b' l) (by rw [List.length_cons]; omega)).1]
        at hallows
      obtain ⟨hbegin, hmanagement, hstale⟩ := hallows _ rfl hseven hversion
      exact ⟨hbegin, hmanagement, hstale⟩

/-- A stretch of a query. -/
theorem after_values {query : List UInt8} {n p : ℕ} (h : s.phase = .values query n p)
    (hl : l ≠ []) (hle : l.length ≤ n) :
    s.after l = { s with phase := .values (query ++ l) (n - l.length) p, marked := true } ∧
      s.content l = [] := by
  induction l generalizing s query n with
  | nil => exact absurd rfl hl
  | cons b l ih =>
      rw [List.length_cons] at hle ⊢
      obtain ⟨n, rfl⟩ : ∃ m, n = m + 1 := ⟨n - 1, by omega⟩
      have hstep : s.step b = { s with phase := .values (query ++ [b]) n p, marked := true } := by
        simp only [step, h]
      have hout : s.out b = [] := by simp only [out, h]
      rw [after_cons, content, hstep, hout]
      cases l with
      | nil => exact ⟨rfl, rfl⟩
      | cons b' l =>
          obtain ⟨hafter, hcontent⟩ :=
            @ih { s with phase := .values (query ++ [b]) n p, marked := true } _ n rfl
              (List.cons_ne_nil _ _) (by omega)
          rw [hafter, hcontent, Nat.add_sub_add_right, List.append_assoc]
          exact ⟨rfl, rfl⟩

/-- A stretch of the padding of a query that does not complete it. -/
theorem after_values_padding {query : List UInt8} {p : ℕ} (h : s.phase = .values query 0 p)
    (hl : l ≠ []) (hlt : l.length < p) :
    s.after l = { s with phase := .values query 0 (p - l.length), marked := false } ∧
      s.content l = [] := by
  induction l generalizing s p with
  | nil => exact absurd rfl hl
  | cons b l ih =>
      rw [List.length_cons] at hlt ⊢
      obtain ⟨p, rfl⟩ : ∃ m, p = m + 1 := ⟨p - 1, by omega⟩
      have hstep : s.step b = { s with phase := .values query 0 p, marked := false } := by
        simp only [step, h, if_neg (show p ≠ 0 by omega)]
      have hout : s.out b = [] := by simp only [out, h]
      rw [after_cons, content, hstep, hout]
      cases l with
      | nil => exact ⟨rfl, rfl⟩
      | cons b' l =>
          obtain ⟨hafter, hcontent⟩ :=
            @ih { s with phase := .values query 0 p, marked := false } p rfl
              (List.cons_ne_nil _ _) (by omega)
          rw [hafter, hcontent, Nat.add_sub_add_right]
          exact ⟨rfl, rfl⟩

/-- The rest of the padding of a query. -/
theorem after_values_end {query : List UInt8} (h : s.phase = .values query 0 l.length)
    (hl : l ≠ []) : s.after l = answer { s with marked := true } query ∧ s.content l = [] := by
  obtain ⟨l, b, rfl⟩ := List.eq_nil_or_concat l |>.resolve_left hl
  rw [List.concat_eq_append] at h ⊢
  rw [List.length_append, List.length_singleton] at h
  have hlast : ∀ t : Scan, t.phase = .values query 0 1 →
      t.step b = answer { t with marked := true } query ∧ t.out b = [] := by
    intro t ht
    simp only [step, out, ht, if_true, and_self]
  rw [after_append, content_append]
  cases l with
  | nil => simp only [after_nil, content, after_cons, hlast s h, List.append_nil, and_self]
  | cons b' l =>
      obtain ⟨hafter, hcontent⟩ := after_values_padding h (List.cons_ne_nil b' l) (by omega)
      rw [Nat.add_sub_cancel_left] at hafter
      rw [hafter, hcontent, after_cons, after_nil, content, (hlast _ rfl).1, (hlast _ rfl).2]
      exact ⟨rfl, rfl⟩

/-- A query is answered between two records, or the stream is over. -/
theorem answer_phase (s : Scan) (query : List UInt8) :
    (s.answer query).phase = .header [] ∨ (s.answer query).phase = .finished .failed := by
  rw [answer]
  split
  · rw [respond]
    split
    · exact .inr rfl
    · exact .inl rfl
  · exact .inr rfl

theorem step_values {query : List UInt8} (h : s.phase = .values query 0 0) (b : UInt8) :
    s.step b =
      match (answer { s with marked := true } query).phase with
      | .header _ => (answer { s with marked := true } query).headerByte [] b
      | _ => answer { s with marked := true } query := by
  rw [step]
  split <;> rename_i heq <;> rw [h] at heq <;> cases heq
  rfl

/-- With the byte behind it a query without padding is seen to be complete. -/
theorem Yields.answered {query : List UInt8} (h : s.Yields atEnd w bs fin)
    (hphase : s.phase = .values query 0 0) (hw : w ≠ []) :
    (answer { s with marked := true } query).Yields atEnd w bs fin := by
  obtain ⟨b, w, rfl⟩ := List.exists_cons_of_ne_nil hw
  obtain ⟨t, ht⟩ : ∃ t, answer { s with marked := true } query = t := ⟨_, rfl⟩
  have hcases := answer_phase { s with marked := true } query
  have hmatch := step_values hphase b
  rw [ht] at hcases hmatch ⊢
  have hstep : s.step b = t.step b := by
    rw [hmatch]
    rcases hcases with h' | h' <;> simp only [step, h']
  have hout : s.out b = t.out b := by
    simp only [out, hphase]
    rcases hcases with h' | h' <;> rw [h']
  refine ⟨sound_cons.mpr ⟨?_, ?_⟩, ?_, ?_⟩
  · intro got hgot hlen
    rcases hcases with h' | h' <;> rw [h'] at hgot <;> cases hgot
    exact absurd hlen (by decide)
  · rw [← hstep]
    exact (sound_cons.mp h.sound).2
  · rw [← h.content_eq, content, content, hstep, hout]
  · intro hover
    rw [after_cons, ← hstep] at hover
    exact h.finish hover

end Scan

end Java

end FastCgi
