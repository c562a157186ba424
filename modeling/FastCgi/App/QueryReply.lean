import FastCgi.App.ParamsGrammar
import FastCgi.App.QueryReads
import FastCgi.App.ReaderTotal
import Mathlib.Data.List.Perm.Subperm

/-!
The answer to `FCGI_GET_VALUES`.

`ProcessManagementRecord` prints the variables that it knows one behind the
other into `response`, which has 64 bytes. Three of them fit, in whatever
order, and four do not; but nothing keeps a peer from asking for one of them
more than once (`response_inside_iff`). Where the answer fits, it is the
record that the specification asks for, unless the content of the query is
not read at all (`query_answered_iff`).
-/

namespace FastCgi

open ByteMem

/-! ### The text of the answer -/

/-- What `strchr` and the `'\0'` put in its place leave of an entry. -/
def entryName (nameValue : List UInt8) : List UInt8 :=
  nameValue.takeWhile fun b => b ≠ 0 ∧ b ≠ equalSign

/-- The pair that is printed for an entry, if it is known. -/
def entryAnswer (nameValue : List UInt8) : Option NameValue :=
  (variableValue (entryName nameValue)).map fun value => ⟨entryName nameValue, [value]⟩

/-- The pairs that are printed for the entries. -/
def replyPairs (query : List (List UInt8)) : List NameValue := query.filterMap entryAnswer

/-- A pair with lengths below 128. -/
def NameValue.text (p : NameValue) : List UInt8 :=
  UInt8.ofNat p.name.length :: UInt8.ofNat p.value.length :: (p.name ++ p.value)

def pairsText (ps : List NameValue) : List UInt8 := ps.flatMap NameValue.text

@[simp] theorem pairsText_nil : pairsText [] = [] := rfl

@[simp] theorem pairsText_cons (p : NameValue) (ps : List NameValue) :
    pairsText (p :: ps) = p.text ++ pairsText ps := rfl

theorem NameValue.length_text (p : NameValue) :
    p.text.length = p.name.length + p.value.length + 2 := by
  simp only [NameValue.text, List.length_cons, List.length_append]

theorem replyPairs_cons (e : List UInt8) (query : List (List UInt8)) :
    replyPairs (e :: query) = (entryAnswer e).toList ++ replyPairs query := by
  rw [replyPairs, List.filterMap_cons]
  cases entryAnswer e <;> rfl

/-- The names that are known have between 13 and 15 bytes. -/
theorem length_of_variableValue {name : List UInt8} {value : UInt8}
    (h : variableValue name = some value) : 13 ≤ name.length ∧ name.length ≤ 15 := by
  rw [variableValue] at h
  split at h
  · next hname =>
      rw [hname]
      decide
  · split at h
    · next hname =>
        rw [hname]
        decide
    · split at h
      · next hname =>
          rw [hname]
          decide
      · cases h

theorem length_of_entryAnswer {e : List UInt8} {p : NameValue} (h : entryAnswer e = some p) :
    13 ≤ p.name.length ∧ p.name.length ≤ 15 ∧ p.value.length = 1 := by
  obtain ⟨value, hvalue, rfl⟩ := Option.map_eq_some_iff.mp h
  obtain ⟨hge, hle⟩ := length_of_variableValue hvalue
  exact ⟨hge, hle, rfl⟩

/-- Every answer has 16 to 18 bytes. -/
theorem length_pairsText_replyPairs (query : List (List UInt8)) :
    16 * (replyPairs query).length ≤ (pairsText (replyPairs query)).length ∧
      (pairsText (replyPairs query)).length ≤ 18 * (replyPairs query).length := by
  induction query with
  | nil => exact ⟨Nat.le_refl _, Nat.le_refl _⟩
  | cons e query ih =>
      rw [replyPairs_cons]
      cases hp : entryAnswer e with
      | none => exact ih
      | some p =>
          obtain ⟨hge, hle, hvalue⟩ := length_of_entryAnswer hp
          have htext := p.length_text
          simp only [Option.toList_some, List.singleton_append, pairsText_cons, List.length_append,
            List.length_cons]
          omega

/-- The text decodes to the pairs. -/
theorem encodes_pairsText_replyPairs (query : List (List UInt8)) :
    Encodes (pairsText (replyPairs query)) (replyPairs query) := by
  induction query with
  | nil => exact .nil
  | cons e query ih =>
      rw [replyPairs_cons]
      cases hp : entryAnswer e with
      | none => exact ih
      | some p =>
          obtain ⟨-, hle, hvalue⟩ := length_of_entryAnswer hp
          have hname : (UInt8.ofNat p.name.length).toNat = p.name.length :=
            toNat_ofNat_of_lt (by omega)
          have hone : (UInt8.ofNat p.value.length).toNat = p.value.length :=
            toNat_ofNat_of_lt (by omega)
          have hn : LenCode p.name.length [UInt8.ofNat p.name.length] := by
            have hcode : LenCode _ [UInt8.ofNat p.name.length] := .short (by omega)
            rwa [hname] at hcode
          have hv : LenCode p.value.length [UInt8.ofNat p.value.length] := by
            have hcode : LenCode _ [UInt8.ofNat p.value.length] := .short (by omega)
            rwa [hone] at hcode
          have hcons := Encodes.cons hn hv ih
          simpa only [Option.toList_some, List.singleton_append, pairsText_cons, NameValue.text,
            List.cons_append, List.nil_append, List.append_assoc] using hcons

/-! ### What is printed -/

theorem replyStep_none {e : List UInt8} (h : entryAnswer e = none) (x : (ℕ → UInt8) × ℕ) :
    replyStep x e = x := by
  have hnone : variableValue (entryName e) = none := Option.map_eq_none_iff.mp h
  rw [entryName] at hnone
  simp only [replyStep, hnone]

/-- The pair is printed, and a NUL behind it. -/
theorem replyStep_some {e : List UInt8} {p : NameValue} (h : entryAnswer e = some p)
    (x : (ℕ → UInt8) × ℕ) :
    replyStep x e = (store x.1 x.2 (p.text ++ [0]), x.2 + p.text.length) := by
  obtain ⟨value, hvalue, rfl⟩ := Option.map_eq_some_iff.mp h
  rw [entryName] at hvalue
  simp only [replyStep, hvalue, NameValue.text, entryName]
  simp

/-- **The loop** prints the text of the answers behind what is in front of it. -/
theorem replySteps (query : List (List UInt8)) (x : (ℕ → UInt8) × ℕ) :
    (query.foldl replyStep x).2 = x.2 + (pairsText (replyPairs query)).length ∧
      slice (query.foldl replyStep x).1 x.2 (pairsText (replyPairs query)).length =
        pairsText (replyPairs query) ∧
      ∀ k < x.2, (query.foldl replyStep x).1 k = x.1 k := by
  induction query generalizing x with
  | nil => exact ⟨rfl, rfl, fun _ _ => rfl⟩
  | cons e query ih =>
      rw [List.foldl_cons, replyPairs_cons]
      cases hp : entryAnswer e with
      | none =>
          rw [replyStep_none hp]
          exact ih x
      | some p =>
          rw [replyStep_some hp]
          obtain ⟨hend, htext, hbefore⟩ := ih (store x.1 x.2 (p.text ++ [0]), x.2 + p.text.length)
          simp only [Option.toList_some, List.singleton_append, pairsText_cons, List.length_append]
          refine ⟨by rw [hend, Nat.add_assoc], ?_, fun k hk => ?_⟩
          · -- what comes later is printed over the NUL and behind it
            have hfront : slice (query.foldl replyStep
                (store x.1 x.2 (p.text ++ [0]), x.2 + p.text.length)).1 x.2 p.text.length =
                p.text := by
              rw [slice_congr fun k _ hk => hbefore k hk, ← store_store, slice_store_before _ (by rfl),
                slice_store]
            rw [slice_add, hfront, htext]
          · rw [hbefore k (Nat.lt_of_lt_of_le hk (Nat.le_add_right _ _))]
            exact store_of_lt _ hk

/-- The reply has room for the text and is filled up to eight bytes. -/
theorem length_getValuesReply (stack : ℕ → UInt8) (query : List (List UInt8)) :
    (getValuesReply stack query).length = 8 + alignInt8 (pairsText (replyPairs query)).length := by
  obtain ⟨hend, -, -⟩ := replySteps query (stack, fcgiHeaderLen)
  simp only [getValuesReply, length_slice, hend, Nat.add_sub_cancel_left]

/-- **The reply is a record** with the text as its content. -/
theorem getValuesReply_eq_encode (stack : ℕ → UInt8) {query : List (List UInt8)}
    (hlen : (pairsText (replyPairs query)).length ≤ 65535) :
    ∃ reply : Record, getValuesReply stack query = reply.encode ∧
      reply.type.toNat = fcgiGetValuesResult ∧ reply.requestId.toNat = fcgiNullRequestId ∧
      reply.content = pairsText (replyPairs query) ∧
      (reply.content.length + reply.padding.length) % 8 = 0 := by
  obtain ⟨hend, htext, -⟩ := replySteps query (stack, fcgiHeaderLen)
  obtain ⟨x, hx⟩ : ∃ x, x = query.foldl replyStep (stack, fcgiHeaderLen) := ⟨_, rfl⟩
  obtain ⟨len, hlen'⟩ : ∃ len, len = (pairsText (replyPairs query)).length := ⟨_, rfl⟩
  rw [← hx, ← hlen'] at hend htext
  have hle := le_alignInt8 len
  have hsub := alignInt8_sub_le len
  have hmod : alignInt8 len % 8 = 0 := by
    unfold alignInt8
    omega
  have hpadding : (slice x.1 (8 + len) (alignInt8 len - len)).length ≤ 255 := by
    rw [length_slice]
    omega
  refine ⟨dataRecord fcgiGetValuesResult fcgiNullRequestId (pairsText (replyPairs query))
    (slice x.1 (8 + len) (alignInt8 len - len)) hlen hpadding, ?_, rfl, rfl, rfl, ?_⟩
  · rw [encode_dataRecord (by decide) (by decide), length_slice, ← hlen']
    have hcontent : slice x.1 8 (alignInt8 len) =
        pairsText (replyPairs query) ++ slice x.1 (8 + len) (alignInt8 len - len) := by
      rw [← htext, ← slice_add, Nat.add_sub_cancel' hle]
    rw [← hcontent]
    simp only [getValuesReply, ← hx, hend, Nat.add_sub_cancel_left]
    -- the header is put in front of what has been printed
    exact slice_store_front (makeHeader _ _ _ _).bytes
  · show ((pairsText (replyPairs query)).length + (slice _ _ _).length) % 8 = 0
    rw [length_slice, ← hlen', Nat.add_sub_cancel' hle, hmod]

/-! ### What is read of a query -/

/-- A `FCGI_GET_VALUES` record. -/
structure Record.Asks (q : Record) : Prop where
  type : q.type.toNat = fcgiGetValues
  requestId : q.requestId.toNat = fcgiNullRequestId

section Query

variable {c : Chan} {q : Record} {post : List UInt8}

/-- The call of `ReadParams` in `ProcessManagementRecord`, where `FillBuffProc` comes to `q`. -/
theorem query_read (h : c.Between) (hv : c.view.Boundary) (hwire : c.unread = q.encode ++ post) :
    ∃ c₁ rc params c', firstHeader c = some (q.header, c₁) ∧
      readParams (fillBuffProcAt 1) (newParams 3) (c₁.startRecord q.header) =
        some (rc, params, c') ∧
      c'.Closed ∧ c'.view = (readQuery (c.view.entered q post)).2 ∧
      params.entries = (readQuery (c.view.entered q post)).1.map NameValue.entry := by
  obtain ⟨c₁, hheader, hstart, hentered, -⟩ := enters_record h hv hwire
  have heor : (c₁.startRecord q.header).stream.eorStop = true := congrArg View.eorStop hentered
  obtain ⟨rc, params, c', hread, hclosed, hview, hentries⟩ :=
    readParams_query (fillSpec_eorStop 0) hstart.toOpen heor (newParams 3) (entries_newParams 3)
  rw [hentered] at hview hentries
  exact ⟨c₁, rc, params, c', hheader, hread, hclosed, hview, hentries⟩

theorem readQuery_list {v : View} {ps : List NameValue}
    (h : parsePairs (v.visible q) = (ps, none)) :
    readQuery (v.entered q post) = (ps, (eorContent (v.entered q post)).2) := by
  rw [readQuery, eorContent_fst, h]

theorem readQuery_bad {v : View} (h : (parsePairs (v.visible q)).2 ≠ none) :
    (readQuery (v.entered q post)).2.errno ≠ 0 := by
  rw [readQuery, eorContent_fst]
  rcases hparse : parsePairs (v.visible q) with ⟨ps, _ | _ | rest⟩
  · exact absurd (congrArg Prod.snd hparse) h
  · exact setError_errno_pos _ (by decide)
  · exact setError_errno_pos _ (by decide)

/-- The record ends with an error of the stream, or because the peer sends nothing behind a
record without padding. -/
theorem errno_ended_iff (hv : c.view.Boundary)
    (hskip : ¬(c.stream.skip = true ∧ q.content ≠ [])) :
    (eorContent (c.view.entered q post)).2.errno = 0 ↔
      c.stream.fcgiErrno = 0 ∧ ¬(q.padding = [] ∧ post = []) := by
  by_cases hend : q.padding = [] ∧ post = []
  · obtain ⟨hpadding, rfl⟩ := hend
    refine iff_of_false ?_ fun hboth => hboth.2 ⟨hpadding, rfl⟩
    rcases (eorContent_entered_nil hv hpadding).2 with ⟨hskipped, -⟩ | ⟨herrno, -⟩
    · exact absurd hskipped hskip
    · rw [herrno]
      exact readFails_errno_ne_zero _
  · have hmore : q.padding ++ post ≠ [] := fun hnil => hend (List.append_eq_nil_iff.mp hnil)
    rw [eorContent_entered hv hmore, and_iff_left hend]
    rfl

end Query

/-! ### The array -/

/-- The indices of `response` to which the entries are printed, with the NUL of `sprintf`. -/
def printedAt : ℕ → List (List UInt8) → List ℕ
  | _, [] => []
  | responseP, e :: query =>
      match entryAnswer e with
      | none => printedAt responseP query
      | some p =>
          List.range' responseP (p.text.length + 1) ++ printedAt (responseP + p.text.length) query

/-- Nothing is printed elsewhere. -/
theorem replySteps_elsewhere {query : List (List UInt8)} {x : (ℕ → UInt8) × ℕ} {k : ℕ}
    (hk : k ∉ printedAt x.2 query) : (query.foldl replyStep x).1 k = x.1 k := by
  induction query generalizing x with
  | nil => rfl
  | cons e query ih =>
      rw [List.foldl_cons]
      rw [printedAt] at hk
      cases hp : entryAnswer e with
      | none =>
          rw [hp] at hk
          rw [replyStep_none hp]
          exact ih hk
      | some p =>
          rw [hp] at hk
          simp only [List.mem_append, List.mem_range'_1, not_or] at hk
          rw [replyStep_some hp, ih hk.2]
          by_cases hlt : k < x.2
          · exact store_of_lt _ hlt
          · apply store_of_ge
            rw [List.length_append, List.length_singleton]
            omega

/-- Something is printed at the end of the text, and nothing behind that. -/
theorem printedAt_lt_iff {query : List (List UInt8)} {i n : ℕ} :
    (∀ k ∈ printedAt i query, k < n) ↔
      replyPairs query = [] ∨ i + (pairsText (replyPairs query)).length < n := by
  induction query generalizing i with
  | nil => exact iff_of_true (fun _ hk => (List.not_mem_nil hk).elim) (.inl rfl)
  | cons e query ih =>
      rw [printedAt, replyPairs_cons]
      cases hp : entryAnswer e with
      | none => exact ih
      | some p =>
          simp only [List.mem_append, or_imp, forall_and, ih, List.mem_range'_1,
            Option.toList_some, List.singleton_append, List.cons_ne_nil, false_or, pairsText_cons,
            List.length_append]
          constructor
          · rintro ⟨hfirst, hrest⟩
            have hlast := hfirst (i + p.text.length) (by omega)
            rcases hrest with hnil | hrest
            · rw [hnil]
              exact hlast
            · omega
          · intro hlt
            exact ⟨fun k hk => by omega, .inr (by omega)⟩

/-- The indices of `response` that a call of `ProcessManagementRecord` for a query uses: those
that are printed to, and those of the bytes that are passed to `write_it_all`, the header among
them. -/
def responseIndices (fill : Chan → Option Chan) (c : Chan) : Option (List ℕ) :=
  match readParams fill (newParams 3) c with
  | none => none
  | some (_, params, c) =>
      if c.stream.fcgiErrno ≠ 0 ∨ c.stream.contentLen ≠ 0 then some []
      else some (printedAt fcgiHeaderLen params.entries ++
        List.range (getValuesReply c.os.stale params.entries).length)

/-- **Three answers fit**, and four do not. -/
theorem indices_lt_iff (stack : ℕ → UInt8) (query : List (List UInt8)) :
    (∀ i ∈ printedAt fcgiHeaderLen query ++ List.range (getValuesReply stack query).length,
        i < responseSize) ↔ (replyPairs query).length ≤ 3 := by
  obtain ⟨hge, hle⟩ := length_pairsText_replyPairs query
  have hreply := length_getValuesReply stack query
  simp only [List.mem_append, or_imp, forall_and, printedAt_lt_iff, List.mem_range]
  show (replyPairs query = [] ∨ 8 + (pairsText (replyPairs query)).length < 64) ∧
    (∀ i < (getValuesReply stack query).length, i < 64) ↔ _
  constructor
  · rintro ⟨hnil | hlt, -⟩
    · rw [hnil]
      exact Nat.zero_le 3
    · omega
  · intro hthree
    refine ⟨.inr (by omega), fun i hi => ?_⟩
    rw [hreply] at hi
    unfold alignInt8 at hi
    omega

theorem visible_of_skipped {c : Chan} {q : Record} (hskip : c.stream.skip = true) :
    c.view.visible q = [] := if_pos hskip

/-- The content that is read of a record of which the content is not skipped. -/
theorem visible_of_not_skipped {c : Chan} {q : Record}
    (hskip : ¬(c.stream.skip = true ∧ q.content ≠ [])) : c.view.visible q = q.content := by
  rw [View.visible]
  split
  · next hs =>
      by_contra hne
      exact hskip ⟨hs, Ne.symm hne⟩
  · rfl

/-- **The reply inside of its array.** Where `FillBuffProc` comes to a query of complete pairs,
`ProcessManagementRecord` stays inside of `response` if and only if at most three of the names
are known, or it does not get to the reply, or the content of the query is skipped. -/
theorem response_inside_iff {c : Chan} {q : Record} {post : List UInt8} {ps : List NameValue}
    (h : c.Between) (hv : c.view.Boundary) (hwire : c.unread = q.encode ++ post)
    (hps : PairList q.content ps) :
    ∃ c₁ indices, firstHeader c = some (q.header, c₁) ∧
      responseIndices (fillBuffProcAt 1) (c₁.startRecord q.header) = some indices ∧
      ((∀ i ∈ indices, i < responseSize) ↔
        (replyPairs (ps.map NameValue.entry)).length ≤ 3 ∨ c.stream.fcgiErrno ≠ 0 ∨
          (q.padding = [] ∧ post = []) ∨ c.stream.skip = true ∧ q.content ≠ []) := by
  obtain ⟨c₁, rc, params, c', hheader, hread, hclosed, hview, hentries⟩ := query_read h hv hwire
  have hindices : responseIndices (fillBuffProcAt 1) (c₁.startRecord q.header) =
      some (if c'.stream.fcgiErrno ≠ 0 ∨ c'.stream.contentLen ≠ 0 then [] else
        printedAt fcgiHeaderLen params.entries ++
          List.range (getValuesReply c'.os.stale params.entries).length) := by
    rw [responseIndices, hread]
    simp only
    split <;> rfl
  refine ⟨c₁, _, hheader, hindices, ?_⟩
  have herrno : c'.stream.fcgiErrno = (readQuery (c.view.entered q post)).2.errno :=
    congrArg View.errno hview
  by_cases hskip : c.stream.skip = true ∧ q.content ≠ []
  · -- nothing is read, so that nothing is printed
    refine iff_of_true ?_ (.inr (.inr (.inr hskip)))
    have hnothing : parsePairs (c.view.visible q) = ([], none) := by
      rw [visible_of_skipped hskip.1, parsePairs_nil]
    rw [readQuery_list hnothing] at hentries
    rw [hentries]
    split
    · exact fun i hi => (List.not_mem_nil hi).elim
    · exact (indices_lt_iff _ _).mpr (Nat.zero_le 3)
  · have hlist : parsePairs (c.view.visible q) = (ps, none) := by
      rw [visible_of_not_skipped hskip]
      exact pairList_iff.mp hps
    rw [readQuery_list hlist] at hentries herrno
    have hzero : c'.stream.fcgiErrno = 0 ↔
        c.stream.fcgiErrno = 0 ∧ ¬(q.padding = [] ∧ post = []) := by
      rw [herrno]
      exact errno_ended_iff hv hskip
    by_cases hanswered : c'.stream.fcgiErrno = 0
    · obtain ⟨hno, hends⟩ := hzero.mp hanswered
      rw [if_neg (by simp [hanswered, hclosed.contentLen hanswered]), indices_lt_iff, hentries]
      simp [hno, hends, hskip]
    · -- the query is refused
      rw [if_pos (.inl hanswered)]
      refine iff_of_true (fun i hi => (List.not_mem_nil hi).elim) (.inr ?_)
      by_contra hnot
      simp only [not_or, not_not] at hnot
      exact hanswered (hzero.mpr ⟨hnot.1, hnot.2.1⟩)

/-- The same variable `n` times. -/
def repeatedPairs : ℕ → List UInt8
  | 0 => []
  | n + 1 => [13, 0] ++ (fcgiMaxReqs ++ repeatedPairs n)

theorem length_repeatedPairs {n : ℕ} (h : n ≤ 4) : (repeatedPairs n).length ≤ 65535 := by
  have hlen : (repeatedPairs n).length = 15 * n := by
    clear h
    induction n with
    | zero => rfl
    | succ n ih =>
        have hname : fcgiMaxReqs.length = 13 := rfl
        simp only [repeatedPairs, List.length_append, ih, hname, List.length_cons, List.length_nil]
        omega
  omega

theorem length_noPadding : ([] : List UInt8).length ≤ 255 := by decide

/-- A query for it. -/
def repeatedQuery (n : ℕ) (h : n ≤ 4) : Record :=
  dataRecord fcgiGetValues fcgiNullRequestId (repeatedPairs n) [] (length_repeatedPairs h)
    length_noPadding

/-- A reader of `FCGI_STDIN` in front of the query, with one byte behind it. -/
def repeatedReader (n : ℕ) (h : n ≤ 4) : Chan :=
  stdinReader (.sending ((repeatedQuery n h).encode ++ [1]) [6, 3] [])

theorem unread_repeatedReader (n : ℕ) (h : n ≤ 4) :
    (repeatedReader n h).unread = (repeatedQuery n h).encode ++ [1] := by
  simp [Chan.unread, repeatedReader, stdinReader, setReaderType, newStream, Os.sending]

theorem repeatedReader_atBoundary (n : ℕ) (h : n ≤ 4) : (repeatedReader n h).AtBoundary :=
  stdinReader_atBoundary _

theorem parsePairs_three :
    parsePairs (repeatedPairs 3) = (List.replicate 3 ⟨fcgiMaxReqs, []⟩, none) := by
  decide +kernel

theorem parsePairs_four :
    parsePairs (repeatedPairs 4) = (List.replicate 4 ⟨fcgiMaxReqs, []⟩, none) := by
  decide +kernel

theorem response_inside_iff_three :
    ∃ c₁ indices, firstHeader (repeatedReader 3 (by decide)) =
        some ((repeatedQuery 3 (by decide)).header, c₁) ∧
      responseIndices (fillBuffProcAt 1) (c₁.startRecord (repeatedQuery 3 (by decide)).header) =
        some indices ∧ ∀ i ∈ indices, i < responseSize := by
  have hboundary := repeatedReader_atBoundary 3 (by decide)
  obtain ⟨c₁, indices, hheader, hindices, hiff⟩ := response_inside_iff hboundary.toBetween
    hboundary.view_boundary (unread_repeatedReader 3 (by decide)) (pairList_iff.mpr parsePairs_three)
  exact ⟨c₁, indices, hheader, hindices, hiff.mpr (.inl (by decide))⟩

/-- Asked for one variable four times, `ProcessManagementRecord` prints behind the end of
`response`. -/
theorem response_overflows :
    ¬∀ (c : Chan) (q : Record) (post : List UInt8) (ps : List NameValue), c.Between →
      c.view.Boundary → c.unread = q.encode ++ post → PairList q.content ps →
      ∀ c₁ indices, firstHeader c = some (q.header, c₁) →
        responseIndices (fillBuffProcAt 1) (c₁.startRecord q.header) = some indices →
        ∀ i ∈ indices, i < responseSize := by
  intro hall
  have hboundary := repeatedReader_atBoundary 4 (by decide)
  have hends : (firstHeader (repeatedReader 4 (by decide))).bind (fun x =>
      (responseIndices (fillBuffProcAt 1) (x.2.startRecord x.1)).map fun indices =>
        (x.1, indices.contains 68)) = some ((repeatedQuery 4 (by decide)).header, true) := by
    decide +kernel
  obtain ⟨⟨header, c₁⟩, hheader, hends⟩ := Option.bind_eq_some_iff.mp hends
  obtain ⟨indices, hindices, hlast⟩ := Option.map_eq_some_iff.mp hends
  obtain ⟨rfl, hmem⟩ := Prod.mk.inj hlast
  have hlt := hall _ _ _ _ hboundary.toBetween hboundary.view_boundary
    (unread_repeatedReader 4 (by decide)) (pairList_iff.mpr parsePairs_four) c₁ indices hheader
    hindices 68 (List.contains_iff_mem.mp hmem)
  exact absurd hlt (by decide)

/-! ### The answer as a whole -/

/-- The variables asked for that are known, with their values. -/
def knownPairs (ps : List NameValue) : List NameValue :=
  ps.filterMap fun p => (variableValue p.name).map fun value => ⟨p.name, [value]⟩

/-- No name of a query is lost or found by the C strings, and none that is known is repeated. -/
structure PlainQuery (ps : List NameValue) : Prop where
  plain : ∀ p ∈ ps, PlainName p.name
  once : ((knownPairs ps).map NameValue.name).Nodup

/-- The query is answered as the specification says: what it asks for and is known, or an error
if it is no list of pairs. -/
structure AnswersQuery (q : Record) (os : Os) (status : Status) (c' : Chan) : Prop where
  complete : ∀ ps, PairList q.content ps → status = .mgmtRecord ∧
    ∃ reply : Record, accepted c'.os.log = accepted os.log ++ reply.encode ∧
      reply.type.toNat = fcgiGetValuesResult ∧ reply.requestId.toNat = fcgiNullRequestId ∧
      (reply.content.length + reply.padding.length) % 8 = 0 ∧
      Encodes reply.content (knownPairs ps)
  incomplete : (¬∃ ps, PairList q.content ps) →
    status = .error fcgxProtocolError ∧ c'.os.log = os.log

theorem entryName_entry {p : NameValue} (h : PlainName p.name) : entryName p.entry = p.name := by
  rw [entryName, NameValue.entry, List.takeWhile_append_of_pos]
  · simp [equalSign]
  · intro b hb
    have hzero : b ≠ 0 := fun heq => h.1 (heq ▸ hb)
    have hequal : b ≠ equalSign := fun heq => h.2 (heq ▸ hb)
    simp [hzero, hequal]

theorem knownPairs_cons (p : NameValue) (ps : List NameValue) :
    knownPairs (p :: ps) =
      ((variableValue p.name).map fun value => (⟨p.name, [value]⟩ : NameValue)).toList ++
        knownPairs ps := by
  rw [knownPairs, List.filterMap_cons]
  cases variableValue p.name <;> rfl

theorem replyPairs_entries {ps : List NameValue} (h : ∀ p ∈ ps, PlainName p.name) :
    replyPairs (ps.map NameValue.entry) = knownPairs ps := by
  induction ps with
  | nil => rfl
  | cons p ps ih =>
      have hname := entryName_entry (h p List.mem_cons_self)
      have hrest := ih fun p' hp' => h p' (List.mem_cons_of_mem p hp')
      rw [List.map_cons, replyPairs_cons, hrest, entryAnswer, hname, knownPairs_cons]

theorem mem_names_of_variableValue {name : List UInt8} {value : UInt8}
    (h : variableValue name = some value) :
    name ∈ [fcgiMaxConns, fcgiMaxReqs, fcgiMpxsConns] := by
  rw [variableValue] at h
  split at h
  · next hname => simp [hname]
  · split at h
    · next hname => simp [hname]
    · split at h
      · next hname => simp [hname]
      · cases h

theorem PlainQuery.length_le {ps : List NameValue} (h : PlainQuery ps) :
    (knownPairs ps).length ≤ 3 := by
  have hsub : (knownPairs ps).map NameValue.name ⊆ [fcgiMaxConns, fcgiMaxReqs, fcgiMpxsConns] := by
    intro name hmem
    obtain ⟨p, hp, rfl⟩ := List.mem_map.mp hmem
    obtain ⟨p', -, hknown⟩ := List.mem_filterMap.mp hp
    obtain ⟨value, hvalue, rfl⟩ := Option.map_eq_some_iff.mp hknown
    exact mem_names_of_variableValue hvalue
  have hle := (h.once.subperm hsub).length_le
  rwa [List.length_map] at hle

theorem PlainQuery.content_le {ps : List NameValue} (h : PlainQuery ps) :
    (pairsText (replyPairs (ps.map NameValue.entry))).length ≤ 65535 := by
  have hle := h.length_le
  obtain ⟨-, htext⟩ := length_pairsText_replyPairs (ps.map NameValue.entry)
  rw [replyPairs_entries h.plain] at htext ⊢
  omega

/-- What `ProcessManagementRecord` does with the pairs it has read, if no write fails. -/
theorem processManagementRecord_of_read {fill : Chan → Option Chan} {c c' : Chan} {rc : ℤ}
    {params : Params} (hread : readParams fill (newParams 3) c = some (rc, params, c'))
    (hclosed : c'.Closed) (hwrites : c'.os.NeverFails) :
    (c'.stream.fcgiErrno ≠ 0 ∧ processManagementRecord fill fcgiGetValues c =
        some (.error fcgxProtocolError, c')) ∨
      c'.stream.fcgiErrno = 0 ∧ ∃ d, processManagementRecord fill fcgiGetValues c =
        some (.mgmtRecord, d) ∧
        accepted d.os.log = accepted c'.os.log ++ getValuesReply c'.os.stale params.entries := by
  rw [processManagementRecord, if_pos rfl, hread]
  by_cases herrno : c'.stream.fcgiErrno = 0
  · refine .inr ⟨herrno, ?_⟩
    obtain ⟨rs, log, -, hlog, hwrite⟩ :=
      writeItAll_ok hwrites (getValuesReply c'.os.stale params.entries)
    simp only
    rw [if_neg (by simp [herrno, hclosed.contentLen herrno]), sendReply, hwrite]
    exact ⟨_, rfl, by rw [accepted_append, hlog]⟩
  · refine .inl ⟨herrno, ?_⟩
    simp only
    rw [if_pos (.inl herrno)]

theorem encodes_nil_iff {ps : List NameValue} : Encodes [] ps ↔ ps = [] := by
  constructor
  · intro h
    generalize hbs : ([] : List UInt8) = bs at h
    cases h with
    | nil => rfl
    | cons hn _ _ => exact absurd (List.append_eq_nil_iff.mp hbs.symm).1 hn.ne_nil
  · rintro rfl
    exact .nil

theorem answersQuery_refused {q : Record} {os : Os} {c' : Chan} (hlog : c'.os.log = os.log) :
    AnswersQuery q os (.error fcgxProtocolError) c' ↔ ¬∃ ps, PairList q.content ps := by
  constructor
  · rintro hanswers ⟨ps, hps⟩
    cases (hanswers.complete ps hps).1
  · intro hno
    exact ⟨fun ps hps => absurd ⟨ps, hps⟩ hno, fun _ => ⟨rfl, hlog⟩⟩

theorem answersQuery_sent {q reply : Record} {os : Os} {c' : Chan}
    (hlog : accepted c'.os.log = accepted os.log ++ reply.encode)
    (htype : reply.type.toNat = fcgiGetValuesResult)
    (hid : reply.requestId.toNat = fcgiNullRequestId)
    (hmod : (reply.content.length + reply.padding.length) % 8 = 0) :
    AnswersQuery q os .mgmtRecord c' ↔
      ∃ ps, PairList q.content ps ∧ Encodes reply.content (knownPairs ps) := by
  constructor
  · intro hanswers
    by_cases hlist : ∃ ps, PairList q.content ps
    · obtain ⟨ps, hps⟩ := hlist
      obtain ⟨-, reply', hlog', -, -, -, hencodes⟩ := hanswers.complete ps hps
      have heq : reply.encode ++ [] = reply'.encode ++ [] := by
        rw [List.append_nil, List.append_nil]
        exact List.append_cancel_left (hlog.symm.trans hlog')
      obtain ⟨rfl, -⟩ := encode_append_inj heq
      exact ⟨ps, hps, hencodes⟩
    · cases (hanswers.incomplete hlist).1
  · rintro ⟨ps, hps, hencodes⟩
    refine ⟨fun ps' hps' => ⟨rfl, reply, hlog, htype, hid, hmod, ?_⟩, fun hno => ?_⟩
    · rw [hps'.unique hps]
      exact hencodes
    · exact absurd ⟨ps, hps⟩ hno

section Answered

variable {c d : Chan} {q : Record} {post : List UInt8}

/-- What of a query is read is a list of pairs if the query is one, or is skipped. -/
theorem lists_of_pairList {ps : List NameValue} (hps : PairList q.content ps) :
    ∃ vs, parsePairs (c.view.visible q) = (vs, none) := by
  by_cases hskip : c.stream.skip = true ∧ q.content ≠ []
  · exact ⟨[], by rw [visible_of_skipped hskip.1, parsePairs_nil]⟩
  · exact ⟨ps, by rw [visible_of_not_skipped hskip, pairList_iff.mp hps]⟩

/-- A query of which a list of pairs is read ends without an error of its own. -/
theorem readQuery_list_errno (hv : c.view.Boundary) (hpost : post ≠ []) {vs : List NameValue}
    (hvs : parsePairs (c.view.visible q) = (vs, none)) :
    (readQuery (c.view.entered q post)).1 = vs ∧
      (readQuery (c.view.entered q post)).2.errno = c.stream.fcgiErrno := by
  have hmore : q.padding ++ post ≠ [] := fun hnil => hpost (List.append_eq_nil_iff.mp hnil).2
  rw [readQuery_list hvs, eorContent_entered hv hmore]
  exact ⟨rfl, rfl⟩

/-- The query is refused, as it has to be, where it is no list of pairs. -/
theorem refused_iff (hv : c.view.Boundary) (hpost : post ≠ [])
    (herrno : (readQuery (c.view.entered q post)).2.errno ≠ 0) :
    (¬∃ ps, PairList q.content ps) ↔
      (∀ ps, PairList q.content ps →
        c.stream.fcgiErrno = 0 ∧ (c.stream.skip = false ∨ knownPairs ps = [])) ∧
      ((¬∃ ps, PairList q.content ps) → c.stream.fcgiErrno ≠ 0 ∨ c.stream.skip = false) := by
  constructor
  · intro hno
    refine ⟨fun ps hps => absurd ⟨ps, hps⟩ hno, fun _ => ?_⟩
    cases hskip : c.stream.skip with
    | false => exact .inr rfl
    | true =>
        -- nothing is read of the query, so that the error is an old one
        have hnothing : parsePairs (c.view.visible q) = ([], none) := by
          rw [visible_of_skipped hskip, parsePairs_nil]
        rw [(readQuery_list_errno hv hpost hnothing).2] at herrno
        exact .inl herrno
  · rintro ⟨hcomplete, -⟩ ⟨ps, hps⟩
    obtain ⟨vs, hvs⟩ := lists_of_pairList (c := c) hps
    exact herrno ((readQuery_list_errno hv hpost hvs).2.trans (hcomplete ps hps).1)

/-- The whole query has been read, and its answer goes out. -/
theorem answersQuery_whole {ps : List NameValue} (hps : PairList q.content ps)
    (hquery : PlainQuery ps) {os : Os} {stack : ℕ → UInt8}
    (hsent : accepted d.os.log =
      accepted os.log ++ getValuesReply stack (ps.map NameValue.entry)) :
    AnswersQuery q os .mgmtRecord d := by
  obtain ⟨reply, hreply, htype, hid, hcontent, hmod⟩ :=
    getValuesReply_eq_encode stack hquery.content_le
  rw [hreply] at hsent
  refine (answersQuery_sent hsent htype hid hmod).mpr ⟨ps, hps, ?_⟩
  rw [hcontent, ← replyPairs_entries hquery.plain]
  exact encodes_pairsText_replyPairs _

/-- Nothing has been read of the query, and the reply is empty. -/
theorem answersQuery_empty {os : Os} {stack : ℕ → UInt8}
    (hsent : accepted d.os.log = accepted os.log ++ getValuesReply stack []) :
    AnswersQuery q os .mgmtRecord d ↔ ∃ ps, PairList q.content ps ∧ knownPairs ps = [] := by
  have hshort : (pairsText (replyPairs [])).length ≤ 65535 := Nat.zero_le _
  obtain ⟨reply, hreply, htype, hid, hcontent, hmod⟩ := getValuesReply_eq_encode stack hshort
  rw [hreply] at hsent
  have hempty : reply.content = [] := hcontent
  rw [answersQuery_sent hsent htype hid hmod, hempty]
  simp only [encodes_nil_iff]

/-- **The answer to a query.** Where `FillBuffProc` comes to a query that has been received
with something behind it, `ProcessManagementRecord` answers as the specification says if and
only if the stream has had no error and the content is not skipped; a query that asks for
nothing known may be skipped, and one that is no list of pairs be met with an old error. -/
theorem query_answered_iff {c : Chan} {q : Record} {post : List UInt8} (h : c.Between)
    (hv : c.view.Boundary) (hq : q.Asks) (hwire : c.unread = q.encode ++ post) (hpost : post ≠ [])
    (hwrites : c.os.NeverFails) (hplain : ∀ ps, PairList q.content ps → PlainQuery ps) :
    ∃ c₁ status c', firstHeader c = some (q.header, c₁) ∧
      processManagementRecord (fillBuffProcAt 1) q.type.toNat (c₁.startRecord q.header) =
        some (status, c') ∧
      (AnswersQuery q c.os status c' ↔
        (∀ ps, PairList q.content ps →
          c.stream.fcgiErrno = 0 ∧ (c.stream.skip = false ∨ knownPairs ps = [])) ∧
        ((¬∃ ps, PairList q.content ps) → c.stream.fcgiErrno ≠ 0 ∨ c.stream.skip = false)) := by
  obtain ⟨c₁, rc, params, c', hheader, hread, hclosed, hview, hentries⟩ := query_read h hv hwire
  have herrno : c'.stream.fcgiErrno = (readQuery (c.view.entered q post)).2.errno :=
    congrArg View.errno hview
  have hside : c'.os.writeSide = c.os.writeSide :=
    (congrArg View.os hview).trans (readQuery_os _)
  have hlog : c'.os.writeSide.log = c.os.writeSide.log := congrArg Os.log hside
  change c'.os.log = c.os.log at hlog
  have hwrites' : c'.os.NeverFails := by
    have hfails : c'.os.writeSide.NeverFails := by
      rw [hside]
      exact hwrites
    exact hfails
  rw [hq.type]
  rcases processManagementRecord_of_read hread hclosed hwrites' with ⟨hne, hprocess⟩ |
    ⟨hzero, d, hprocess, hsent⟩
  · rw [herrno] at hne
    exact ⟨c₁, _, c', hheader, hprocess,
      (answersQuery_refused hlog).trans (refused_iff hv hpost hne)⟩
  · refine ⟨c₁, _, d, hheader, hprocess, ?_⟩
    obtain ⟨vs, hvs⟩ : ∃ vs, parsePairs (c.view.visible q) = (vs, none) := by
      by_contra hno
      have hbad : (parsePairs (c.view.visible q)).2 ≠ none := fun hnone =>
        hno ⟨_, Prod.ext rfl hnone⟩
      exact readQuery_bad hbad (herrno.symm.trans hzero)
    obtain ⟨hpairs, hkept⟩ := readQuery_list_errno hv hpost hvs
    rw [hentries, hpairs, hlog] at hsent
    have herr : c.stream.fcgiErrno = 0 := hkept.symm.trans (herrno.symm.trans hzero)
    cases hskip : c.stream.skip with
    | false =>
        -- the whole list has been read
        rw [visible_of_not_skipped (by simp [hskip]), ← pairList_iff] at hvs
        exact iff_of_true (answersQuery_whole hvs (hplain vs hvs) hsent)
          ⟨fun ps _ => ⟨herr, .inl rfl⟩, fun _ => .inr rfl⟩
    | true =>
        rw [visible_of_skipped hskip, parsePairs_nil] at hvs
        cases hvs
        rw [answersQuery_empty hsent]
        constructor
        · rintro ⟨ps, hps, hknown⟩
          refine ⟨fun ps' hps' => ⟨herr, .inr ?_⟩, fun hno => absurd ⟨ps, hps⟩ hno⟩
          rw [hps'.unique hps, hknown]
        · rintro ⟨hcomplete, hincomplete⟩
          by_cases hsome : ∃ ps, PairList q.content ps
          · obtain ⟨ps, hps⟩ := hsome
            exact ⟨ps, hps, (hcomplete ps hps).2.resolve_left (by simp)⟩
          · rcases hincomplete hsome with hne | hfalse
            · exact absurd herr hne
            · cases hfalse

end Answered

theorem parsePairs_once : parsePairs (repeatedPairs 1) = ([⟨fcgiMaxReqs, []⟩], none) := by
  decide +kernel

theorem plainQuery_once {ps : List NameValue} (h : PairList (repeatedPairs 1) ps) :
    PlainQuery ps := by
  obtain rfl := h.unique (pairList_iff.mpr parsePairs_once)
  refine ⟨fun p hp => ?_, by decide⟩
  obtain rfl := List.mem_singleton.mp hp
  exact ⟨by decide, by decide⟩

theorem query_answered_iff_once :
    ∃ c₁ status c', firstHeader (repeatedReader 1 (by decide)) =
        some ((repeatedQuery 1 (by decide)).header, c₁) ∧
      processManagementRecord (fillBuffProcAt 1) (repeatedQuery 1 (by decide)).type.toNat
          (c₁.startRecord (repeatedQuery 1 (by decide)).header) = some (status, c') ∧
      AnswersQuery (repeatedQuery 1 (by decide)) (repeatedReader 1 (by decide)).os status c' := by
  have hboundary := repeatedReader_atBoundary 1 (by decide)
  obtain ⟨c₁, status, c', hheader, hprocess, hiff⟩ := query_answered_iff hboundary.toBetween
    hboundary.view_boundary ⟨rfl, rfl⟩ (unread_repeatedReader 1 (by decide)) (List.cons_ne_nil 1 [])
    ⟨rfl, by simp [repeatedReader, stdinReader, Os.sending]⟩ fun ps hps => plainQuery_once hps
  exact ⟨c₁, status, c', hheader, hprocess,
    hiff.mpr ⟨fun ps _ => ⟨rfl, .inl rfl⟩, fun _ => .inr rfl⟩⟩

/-- The reader with the skip flag that an empty record of another request leaves. -/
def skippingReader : Chan :=
  { repeatedReader 1 (Nat.le_add_left 1 3) with
    stream := { (repeatedReader 1 (Nat.le_add_left 1 3)).stream with skip := true } }

/-- **A query behind an empty record of another request is answered as if it asked for
nothing**: the flag that says to skip the content of that record is still set. -/
theorem query_skipped :
    (fillBuffProc (stdinReader (.sending ((shortRecord fcgiStdout 2 [] (by decide)).encode ++
        ((repeatedQuery 1 (by decide)).encode ++ [1])) [] []))).map (fun c => accepted c.os.log) =
      some (makeHeader fcgiGetValuesResult fcgiNullRequestId 0 0).bytes ∧
    ¬∀ (c : Chan) (q : Record) (post : List UInt8), c.Between → c.view.Boundary → q.Asks →
      c.unread = q.encode ++ post → post ≠ [] → c.os.NeverFails →
      (∀ ps, PairList q.content ps → PlainQuery ps) →
      ∀ c₁ status c', firstHeader c = some (q.header, c₁) →
        processManagementRecord (fillBuffProcAt 1) q.type.toNat (c₁.startRecord q.header) =
          some (status, c') → AnswersQuery q c.os status c' := by
  refine ⟨by decide +kernel, fun hall => ?_⟩
  have hb := repeatedReader_atBoundary 1 (by decide)
  have hends : (firstHeader skippingReader).bind (fun x =>
      (processManagementRecord (fillBuffProcAt 1) 9 (x.2.startRecord x.1)).map fun y =>
        (x.1, (accepted y.2.os.log).length)) = some ((repeatedQuery 1 (by decide)).header, 8) := by
    decide +kernel
  obtain ⟨⟨header, c₁⟩, hheader, hends⟩ := Option.bind_eq_some_iff.mp hends
  obtain ⟨⟨status, c'⟩, hprocess, hlast⟩ := Option.map_eq_some_iff.mp hends
  obtain ⟨rfl, hsent⟩ := Prod.mk.inj hlast
  have hanswers := hall skippingReader (repeatedQuery 1 (by decide)) [1]
    ⟨⟨hb.isReader, hb.rdNext_le, hb.buffStop_le, hb.bufflen_pos⟩, hb.isClosed, hb.rdNext_eq⟩
    ⟨rfl, rfl, rfl, rfl⟩ ⟨rfl, rfl⟩ (unread_repeatedReader 1 (by decide)) (List.cons_ne_nil 1 [])
    ⟨rfl, by simp [skippingReader, repeatedReader, stdinReader, Os.sending]⟩
    (fun ps hps => plainQuery_once hps) c₁ status c' hheader hprocess
  obtain ⟨-, reply, hlog, -, -, -, hencodes⟩ :=
    hanswers.complete _ (pairList_iff.mpr parsePairs_once)
  have hlength := congrArg List.length hlog
  have hstart : accepted skippingReader.os.log = [] := rfl
  rw [hsent, hstart, List.nil_append, reply.length_encode] at hlength
  have hempty : reply.content = [] := List.length_eq_zero_iff.mp (by omega)
  rw [hempty, encodes_nil_iff] at hencodes
  cases hencodes

end FastCgi
