import FastCgi.Protocol.Record
import Mathlib.Logic.Function.Basic

/-!
The responses of an application, as sequences of records.

An application sends the content of its output and of its error stream in
records of either kind, in any order; each stream is closed once, by an
empty record (an error stream that was not used is closed by none), and
when both are closed `FCGI_END_REQUEST` ends the response. `Response` is
this protocol as an inductive relation over the records sent so far, and
`WellFramed` says what a complete response is for its reader.
-/

namespace FastCgi

/-! ### Records of one stream -/

/-- Non-empty records of one stream of one request. -/
def ContentRecords (type requestId : ℕ) (recs : List Record) : Prop :=
  ∀ r ∈ recs, r.type.toNat = type ∧ r.requestId.toNat = requestId ∧ r.content ≠ []

/-- The content of some records. -/
def contents (recs : List Record) : List UInt8 := recs.flatMap Record.content

/-- The records of one type. -/
def ofType (type : ℕ) (recs : List Record) : List Record :=
  recs.filter fun r => r.type.toNat = type

@[simp] theorem contents_nil : contents [] = [] := rfl

@[simp] theorem contents_append (recs recs' : List Record) :
    contents (recs ++ recs') = contents recs ++ contents recs' := by simp [contents]

@[simp] theorem ofType_append (type : ℕ) (recs recs' : List Record) :
    ofType type (recs ++ recs') = ofType type recs ++ ofType type recs' := by simp [ofType]

theorem contentRecords_nil {type requestId : ℕ} : ContentRecords type requestId [] := by
  simp [ContentRecords]

theorem ContentRecords.append {type requestId : ℕ} {recs recs' : List Record}
    (h : ContentRecords type requestId recs) (h' : ContentRecords type requestId recs') :
    ContentRecords type requestId (recs ++ recs') := fun r hr =>
  (List.mem_append.mp hr).elim (h r) (h' r)

theorem ContentRecords.eq_nil_iff {type requestId : ℕ} {recs : List Record}
    (h : ContentRecords type requestId recs) : contents recs = [] ↔ recs = [] := by
  cases recs with
  | nil => simp
  | cons r recs =>
      have := (h r (List.mem_cons_self ..)).2.2
      simp [contents, this]

theorem encodeAll_eq_nil_iff (recs : List Record) : encodeAll recs = [] ↔ recs = [] := by
  cases recs with
  | nil => simp
  | cons r recs => simp [Record.encode_ne_nil]

theorem ContentRecords.ofType_eq {type requestId : ℕ} {recs : List Record}
    (h : ContentRecords type requestId recs) : ofType type recs = recs :=
  List.filter_eq_self.mpr fun r hr => by simp [(h r hr).1]

theorem ContentRecords.ofType_ne {type type' requestId : ℕ} {recs : List Record}
    (h : ContentRecords type requestId recs) (hne : type ≠ type') : ofType type' recs = [] :=
  List.filter_eq_nil_iff.mpr fun r hr => by simp [(h r hr).1, hne]

/-- The records of one stretch of content: one, or none where there is no content. -/
structure OneBlock (type requestId : ℕ) (content : List UInt8) (recs : List Record) : Prop where
  records : ContentRecords type requestId recs
  contents_eq : contents recs = content
  length_le : recs.length ≤ 1
  reserved : ∀ r ∈ recs, r.reserved = 0

/-- A record with its padding left out. -/
def Record.unpadded (r : Record) : Record := { r with padding := [], padding_le := nil_padding_le }

/-- There is one way to send some content, but for the padding. -/
theorem OneBlock.unpadded_eq {type requestId : ℕ} {content : List UInt8} {recs recs' : List Record}
    (h : OneBlock type requestId content recs) (h' : OneBlock type requestId content recs') :
    recs.map Record.unpadded = recs'.map Record.unpadded := by
  have hcontents : contents recs = contents recs' := h.contents_eq.trans h'.contents_eq.symm
  have hlen := h.length_le
  have hlen' := h'.length_le
  rcases recs with _ | ⟨r, _ | ⟨x, recs⟩⟩
  · rcases recs' with _ | ⟨r', recs'⟩
    · rfl
    · exact absurd (h'.records.eq_nil_iff.mp hcontents.symm) (List.cons_ne_nil _ _)
  · rcases recs' with _ | ⟨r', _ | ⟨x', recs'⟩⟩
    · exact absurd (h.records.eq_nil_iff.mp hcontents) (List.cons_ne_nil _ _)
    · obtain ⟨htype, hid, -⟩ := h.records r (List.mem_singleton.mpr rfl)
      obtain ⟨htype', hid', -⟩ := h'.records r' (List.mem_singleton.mpr rfl)
      have hr : r.type = r'.type := UInt8.toNat_inj.mp (htype.trans htype'.symm)
      have hi : r.requestId = r'.requestId := UInt16.toNat_inj.mp (hid.trans hid'.symm)
      have hres : r.reserved = r'.reserved := by
        rw [h.reserved r (List.mem_singleton.mpr rfl), h'.reserved r' (List.mem_singleton.mpr rfl)]
      have hc : r.content = r'.content := by simpa [contents] using hcontents
      simp only [List.map_cons, List.map_nil, Record.unpadded, hr, hi, hres, hc]
    · simp at hlen'
  · simp at hlen

/-! ### The records that end a stream and a request -/

/-- The empty record that ends a stream. -/
def eofRecord (type requestId : ℕ) : Record :=
  dataRecord type requestId [] [] nil_content_le nil_padding_le

/-- The `FCGI_END_REQUEST` record of a complete request. -/
def endRecord (requestId : ℕ) (appStatus : ℤ) : Record :=
  dataRecord fcgiEndRequest requestId (makeEndRequestBody appStatus fcgiRequestComplete) []
    (makeEndRequestBody_le appStatus fcgiRequestComplete) nil_padding_le

/-- The records that end a stream on which there has been some content or not:
nothing ends an error stream that has not been used. -/
def eofRecords (type requestId : ℕ) (anything : Bool) : List Record :=
  if type = fcgiStderr ∧ anything = false then [] else [eofRecord type requestId]

/-- The records that end the request, when its last writer is closed. -/
def endRecords (requestId : ℕ) (appStatus : ℤ) (last : Bool) : List Record :=
  if last then [endRecord requestId appStatus] else []

theorem mem_eofRecords {type requestId : ℕ} {anything : Bool} {r : Record}
    (h : r ∈ eofRecords type requestId anything) : r = eofRecord type requestId := by
  unfold eofRecords at h
  split at h
  · exact absurd h (List.not_mem_nil)
  · exact List.mem_singleton.mp h

theorem mem_endRecords {requestId : ℕ} {appStatus : ℤ} {last : Bool} {r : Record}
    (h : r ∈ endRecords requestId appStatus last) : r = endRecord requestId appStatus := by
  unfold endRecords at h
  split at h
  · exact List.mem_singleton.mp h
  · exact absurd h (List.not_mem_nil)

/-! ### Responses -/

/-- The two streams an application writes. -/
inductive Writer where
  | out
  | err
  deriving DecidableEq, Repr

def Writer.type : Writer → ℕ
  | .out => fcgiStdout
  | .err => fcgiStderr

def Writer.other : Writer → Writer
  | .out => .err
  | .err => .out

theorem Writer.type_lt (w : Writer) : w.type < 256 := by cases w <;> decide

theorem Writer.type_inj {w w' : Writer} (h : w.type = w'.type) : w = w' := by
  cases w <;> cases w' <;> first | rfl | exact absurd h (by decide)

theorem Writer.type_ne_endRequest (w : Writer) : w.type ≠ fcgiEndRequest := by
  cases w <;> decide

/-- `recs` is what an application may have sent when it has written `sent` on the
streams of which some are open. -/
inductive Response (requestId : ℕ) (appStatus : ℤ) :
    List Record → (Writer → List UInt8) → (Writer → Bool) → Prop
  | start : Response requestId appStatus [] (fun _ => []) (fun _ => true)
  | content {recs : List Record} {sent : Writer → List UInt8} {isOpen : Writer → Bool} {w : Writer}
      {more : List Record} (h : Response requestId appStatus recs sent isOpen)
      (ho : isOpen w = true) (hm : ContentRecords w.type requestId more) :
      Response requestId appStatus (recs ++ more)
        (Function.update sent w (sent w ++ contents more)) isOpen
  | close {recs : List Record} {sent : Writer → List UInt8} {isOpen : Writer → Bool} {w : Writer}
      (h : Response requestId appStatus recs sent isOpen) (ho : isOpen w = true) :
      Response requestId appStatus
        ((recs ++ eofRecords w.type requestId (decide (sent w ≠ []))) ++
          endRecords requestId appStatus (!isOpen w.other)) sent (Function.update isOpen w false)

/-- What the reader of a response may rely on. -/
structure WellFramed (requestId : ℕ) (appStatus : ℤ) (given : Writer → List UInt8)
    (recs : List Record) : Prop where
  requestId_eq : ∀ r ∈ recs, r.requestId.toNat = requestId
  content : ∀ w : Writer, contents (ofType w.type recs) = given w
  /-- One empty record ends the output stream. -/
  outEof : ∃ cs eof, ofType fcgiStdout recs = cs ++ [eof] ∧ eof.content = [] ∧
    ∀ r ∈ cs, r.content ≠ []
  /-- One empty record ends the error stream, if there was something on it. -/
  errEof : ∃ cs eofs, ofType fcgiStderr recs = cs ++ eofs ∧
    eofs.length = (if given .err = [] then 0 else 1) ∧ (∀ r ∈ eofs, r.content = []) ∧
    ∀ r ∈ cs, r.content ≠ []
  endRequest : ∃ front last, recs = front ++ [last] ∧ last.type.toNat = fcgiEndRequest ∧
    last.content = makeEndRequestBody appStatus fcgiRequestComplete ∧
    ∀ r ∈ front, r.type.toNat ≠ fcgiEndRequest

section Responses

variable {requestId : ℕ} {appStatus : ℤ} {recs : List Record} {sent : Writer → List UInt8}
  {isOpen : Writer → Bool}

theorem ofType_eofRecords (w : Writer) (anything : Bool) :
    ofType w.type (eofRecords w.type requestId anything) =
      eofRecords w.type requestId anything :=
  List.filter_eq_self.mpr fun r hr => by
    rw [mem_eofRecords hr, eofRecord, dataRecord_type w.type_lt]
    simp

theorem ofType_eofRecords_ne {w w' : Writer} (hne : w ≠ w') (anything : Bool) :
    ofType w'.type (eofRecords w.type requestId anything) = [] :=
  List.filter_eq_nil_iff.mpr fun r hr => by
    rw [mem_eofRecords hr, eofRecord, dataRecord_type w.type_lt]
    simpa using fun h => hne (Writer.type_inj h)

theorem ofType_endRecords (w : Writer) (last : Bool) :
    ofType w.type (endRecords requestId appStatus last) = [] :=
  List.filter_eq_nil_iff.mpr fun r hr => by
    rw [mem_endRecords hr, endRecord, dataRecord_type (by decide)]
    simpa using w.type_ne_endRequest.symm

/-- Every record of a response is one of the request. -/
theorem Response.requestId_eq (h : Response requestId appStatus recs sent isOpen)
    (hid : requestId < 65536) : ∀ r ∈ recs, r.requestId.toNat = requestId := by
  induction h with
  | start => simp
  | content h ho hm ih =>
      intro r hr
      exact (List.mem_append.mp hr).elim (ih r) fun hr => (hm r hr).2.1
  | close h ho ih =>
      intro r hr
      rcases List.mem_append.mp hr with hr | hr
      · rcases List.mem_append.mp hr with hr | hr
        · exact ih r hr
        · rw [mem_eofRecords hr]
          exact dataRecord_requestId hid
      · rw [mem_endRecords hr]
        exact dataRecord_requestId hid

/-- The types of the records of a response. -/
theorem Response.type_eq (h : Response requestId appStatus recs sent isOpen) :
    ∀ r ∈ recs, (∃ w : Writer, r.type.toNat = w.type) ∨ r.type.toNat = fcgiEndRequest := by
  induction h with
  | start => simp
  | content h ho hm ih =>
      intro r hr
      exact (List.mem_append.mp hr).elim (ih r) fun hr => .inl ⟨_, (hm r hr).1⟩
  | @close recs sent isOpen w h ho ih =>
      intro r hr
      rcases List.mem_append.mp hr with hr | hr
      · rcases List.mem_append.mp hr with hr | hr
        · exact ih r hr
        · rw [mem_eofRecords hr]
          exact .inl ⟨w, dataRecord_type w.type_lt⟩
      · rw [mem_endRecords hr]
        exact .inr (dataRecord_type (by decide))

/-- The records of one stream: its content, and what ends it once it is closed. -/
theorem Response.ofType_eq (h : Response requestId appStatus recs sent isOpen) (w : Writer) :
    ∃ cs, ofType w.type recs =
        cs ++ (if isOpen w then [] else eofRecords w.type requestId (decide (sent w ≠ []))) ∧
      ContentRecords w.type requestId cs ∧ contents cs = sent w := by
  induction h with
  | start => exact ⟨[], rfl, contentRecords_nil, rfl⟩
  | @content recs sent isOpen w' more h ho hm ih =>
      obtain ⟨cs, hcs, hrecs, hcont⟩ := ih
      rw [ofType_append, hcs]
      by_cases hw : w' = w
      · subst hw
        refine ⟨cs ++ more, ?_, hrecs.append hm, ?_⟩
        · rw [ho, hm.ofType_eq]
          simp
        · rw [contents_append, hcont, Function.update_self]
      · refine ⟨cs, ?_, hrecs, ?_⟩
        · rw [hm.ofType_ne fun h => hw (Writer.type_inj h), List.append_nil,
            Function.update_of_ne (Ne.symm hw)]
        · rw [hcont, Function.update_of_ne (Ne.symm hw)]
  | @close recs sent isOpen w' h ho ih =>
      obtain ⟨cs, hcs, hrecs, hcont⟩ := ih
      rw [ofType_append, ofType_append, hcs, ofType_endRecords, List.append_nil]
      refine ⟨cs, ?_, hrecs, hcont⟩
      by_cases hw : w' = w
      · subst hw
        rw [ho, Function.update_self, ofType_eofRecords]
        simp
      · rw [ofType_eofRecords_ne hw, List.append_nil, Function.update_of_ne (Ne.symm hw)]

/-- `FCGI_END_REQUEST` comes last, once both streams are closed. -/
theorem Response.endRequest (h : Response requestId appStatus recs sent isOpen) :
    ∃ front, recs = front ++
        endRecords requestId appStatus (!isOpen .out && !isOpen .err) ∧
      ∀ r ∈ front, r.type.toNat ≠ fcgiEndRequest := by
  have hopen : ∀ {isOpen : Writer → Bool} {w : Writer}, isOpen w = true →
      (!isOpen .out && !isOpen .err) = false := by
    intro isOpen w ho
    cases w with
    | out => simp [ho]
    | err => simp [ho]
  induction h with
  | start => exact ⟨[], rfl, by simp⟩
  | @content recs sent isOpen w more h ho hm ih =>
      obtain ⟨front, hfront, hne⟩ := ih
      rw [hopen ho, endRecords, if_neg (by decide), List.append_nil] at hfront
      subst hfront
      refine ⟨recs ++ more, ?_, fun r hr => ?_⟩
      · rw [hopen ho, endRecords, if_neg (by decide), List.append_nil]
      · rcases List.mem_append.mp hr with hr | hr
        · exact hne r hr
        · rw [(hm r hr).1]
          exact w.type_ne_endRequest
  | @close recs sent isOpen w h ho ih =>
      obtain ⟨front, hfront, hne⟩ := ih
      rw [hopen ho, endRecords, if_neg (by decide), List.append_nil] at hfront
      subst hfront
      refine ⟨recs ++ eofRecords w.type requestId (decide (sent w ≠ [])), ?_, fun r hr => ?_⟩
      · congr 2
        cases w with
        | out => simp [Writer.other]
        | err => simp [Writer.other]
      · rcases List.mem_append.mp hr with hr | hr
        · exact hne r hr
        · rw [mem_eofRecords hr, eofRecord, dataRecord_type w.type_lt]
          exact w.type_ne_endRequest

/-- What has been written on a stream is the content of its records. -/
theorem Response.content_eq (h : Response requestId appStatus recs sent isOpen) (w : Writer) :
    contents (ofType w.type recs) = sent w := by
  obtain ⟨cs, hcs, -, hcont⟩ := h.ofType_eq w
  have hend : contents (if isOpen w then [] else
      eofRecords w.type requestId (decide (sent w ≠ []))) = [] := by
    split
    · rfl
    · unfold eofRecords
      split <;> rfl
  rw [hcs, contents_append, hcont, hend, List.append_nil]

/-- **A response on which both streams are closed is well framed.** -/
theorem Response.wellFramed (h : Response requestId appStatus recs sent isOpen)
    (hid : requestId < 65536) (hclosed : ∀ w, isOpen w = false) :
    WellFramed requestId appStatus sent recs where
  requestId_eq := h.requestId_eq hid
  content := h.content_eq
  outEof := by
    obtain ⟨cs, hcs, hrecs, -⟩ := h.ofType_eq .out
    rw [hclosed, if_neg (by decide), eofRecords, if_neg (fun h => absurd h.1 (by decide))] at hcs
    exact ⟨cs, _, hcs, rfl, fun r hr => (hrecs r hr).2.2⟩
  errEof := by
    obtain ⟨cs, hcs, hrecs, -⟩ := h.ofType_eq .err
    rw [hclosed, if_neg (by decide)] at hcs
    refine ⟨cs, _, hcs, ?_, fun r hr => ?_, fun r hr => (hrecs r hr).2.2⟩
    · unfold eofRecords
      by_cases hnil : sent .err = []
      · rw [if_pos ⟨rfl, by simpa using hnil⟩, if_pos hnil]
        rfl
      · rw [if_neg (fun h => hnil (by simpa using h.2)), if_neg hnil]
        rfl
    · rw [mem_eofRecords hr]
      rfl
  endRequest := by
    obtain ⟨front, hfront, hne⟩ := h.endRequest
    rw [hclosed, hclosed, endRecords, if_pos (by decide)] at hfront
    exact ⟨front, _, hfront, dataRecord_type (by decide), rfl, hne⟩

end Responses

end FastCgi
