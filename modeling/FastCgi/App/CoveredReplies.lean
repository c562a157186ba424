import FastCgi.App.QueryReply
import FastCgi.App.ReadFootprint
import FastCgi.App.Unseen

/-!
What `FillBuffProc` sends of the memory it finds.

`ProcessManagementRecord` prints the answer to a query into an array that
nobody has cleared, and the bytes that pad the record are sent as they are
there. The first of them is the NUL that `sprintf` puts behind the last
pair; the others are whatever the stack holds. So the reply is the same in
every memory exactly where it is padded with at most one byte
(`getValuesReply_same_iff`).

`coveredFill` is `FillBuffProc` as long as all its replies are of that kind.
Where it returns, what `FillBuffProc` does is the same in every memory
(`fillBuffProc_stale`): no other function of the reader looks at memory
that has not been stored to.
-/

namespace FastCgi

open ByteMem BoundedLoop

/-! ### The reply -/

/-- The padding is at most the NUL behind the last pair. -/
def CoveredReply (query : List (List UInt8)) : Prop :=
  alignInt8 (pairsText (replyPairs query)).length ≤ (pairsText (replyPairs query)).length + 1

instance (query : List (List UInt8)) : Decidable (CoveredReply query) := Nat.decLe _ _

/-- Printing keeps two arrays equal where they are. -/
theorem replySteps_agree {query : List (List UInt8)} {m m' : ℕ → UInt8} {i k : ℕ}
    (h : m k = m' k) :
    (query.foldl replyStep (m, i)).1 k = (query.foldl replyStep (m', i)).1 k := by
  induction query generalizing m m' i with
  | nil => exact h
  | cons e query ih =>
      rw [List.foldl_cons, List.foldl_cons]
      cases hp : entryAnswer e with
      | none =>
          rw [replyStep_none hp, replyStep_none hp]
          exact ih h
      | some p =>
          rw [replyStep_some hp, replyStep_some hp]
          exact ih (store_congr fun _ => h)

/-- **What is printed** is in the array whatever was there before, with the NUL behind it. -/
theorem replySteps_printed {query : List (List UInt8)} {m m' : ℕ → UInt8} {i k : ℕ} (hle : i ≤ k)
    (hlt : k < i + (pairsText (replyPairs query)).length ∨
      replyPairs query ≠ [] ∧ k = i + (pairsText (replyPairs query)).length) :
    (query.foldl replyStep (m, i)).1 k = (query.foldl replyStep (m', i)).1 k := by
  induction query generalizing m m' i with
  | nil =>
      simp [replyPairs] at hlt
      omega
  | cons e query ih =>
      rw [List.foldl_cons, List.foldl_cons]
      rw [replyPairs_cons] at hlt
      cases hp : entryAnswer e with
      | none =>
          rw [hp] at hlt
          rw [replyStep_none hp, replyStep_none hp]
          exact ih hle hlt
      | some p =>
          rw [hp] at hlt
          rw [replyStep_some hp, replyStep_some hp]
          simp only [Option.toList_some, List.singleton_append, pairsText_cons,
            List.length_append] at hlt
          by_cases hfirst : k ≤ i + p.text.length
          · refine replySteps_agree (store_congr ?_)
            rw [List.length_append, List.length_singleton]
            omega
          · refine ih (by omega) ?_
            by_cases hnil : replyPairs query = []
            · simp [hnil] at hlt
              omega
            · rw [and_iff_right hnil]
              omega

/-- **When the reply shows the memory.** -/
theorem getValuesReply_same_iff (query : List (List UInt8)) :
    (∀ stack stack', getValuesReply stack query = getValuesReply stack' query) ↔
      CoveredReply query := by
  obtain ⟨n, hn⟩ : ∃ n, n = (pairsText (replyPairs query)).length := ⟨_, rfl⟩
  have hend (stack : ℕ → UInt8) : (query.foldl replyStep (stack, fcgiHeaderLen)).2 = 8 + n := by
    rw [hn]
    exact (replySteps query (stack, fcgiHeaderLen)).1
  have hreply (stack : ℕ → UInt8) : getValuesReply stack query =
      slice (store (query.foldl replyStep (stack, fcgiHeaderLen)).1 0
        (makeHeader fcgiGetValuesResult fcgiNullRequestId n (alignInt8 n - n)).bytes) 0
        (8 + alignInt8 n) := by
    simp only [getValuesReply, hend, fcgiHeaderLen, Nat.add_sub_cancel_left]
  rw [CoveredReply, ← hn]
  constructor
  · intro hsame
    by_contra hmore
    -- the byte behind the NUL is sent as it is
    have hpairs : replyPairs query ≠ [] := by
      intro hnil
      rw [hnil] at hn
      subst hn
      exact hmore (by decide)
    have hcell (stack : ℕ → UInt8) : (query.foldl replyStep (stack, fcgiHeaderLen)).1 (8 + n + 1) =
        stack (8 + n + 1) := by
      refine replySteps_elsewhere fun hmem => ?_
      have hlt := (printedAt_lt_iff (i := fcgiHeaderLen) (n := 8 + n + 1)).mpr
        (.inr (by rw [← hn]; exact Nat.lt_succ_self _)) _ hmem
      exact Nat.lt_irrefl _ hlt
    have hsent := hsame (fun _ => 0) (fun _ => 1)
    rw [hreply, hreply] at hsent
    have hbyte := cell_of_slice hsent (Nat.zero_le (8 + n + 1)) (by omega)
    rw [store_of_ge (by rw [Header.length_bytes]; omega),
      store_of_ge (by rw [Header.length_bytes]; omega), hcell, hcell] at hbyte
    exact absurd hbyte (by decide)
  · intro hcovered stack stack'
    rw [hreply, hreply]
    refine slice_congr fun k _ hk => store_congr fun houtside => ?_
    rw [Header.length_bytes] at houtside
    refine replySteps_printed (by rw [fcgiHeaderLen]; omega) ?_
    rw [← hn, fcgiHeaderLen]
    by_cases hnil : replyPairs query = []
    · rw [hnil] at hn
      subst hn
      exact absurd hk (by simp [alignInt8]; omega)
    · rw [and_iff_right hnil]
      omega

/-! ### Sending in another memory -/

variable {p : (ℕ → UInt8) → ℕ → UInt8}

theorem osWrite_stale (os : Os) (stale : ℕ → UInt8) (buf : List UInt8) :
    osWrite { os with stale := stale } buf =
      ((osWrite os buf).1, { (osWrite os buf).2 with stale := stale }) := by
  unfold osWrite
  dsimp only
  split
  · split <;> rfl
  · rfl
  · rfl

theorem writeItAllLoop_stale (fuel : ℕ) (os : Os) (stale : ℕ → UInt8) (buf : List UInt8) :
    writeItAllLoop fuel { os with stale := stale } buf =
      ((writeItAllLoop fuel os buf).1, { (writeItAllLoop fuel os buf).2 with stale := stale }) := by
  induction fuel generalizing os buf with
  | zero => rfl
  | succ fuel ih =>
      simp only [writeItAllLoop, osWrite_stale]
      split
      · rfl
      · rcases osWrite os buf with ⟨_ | n, os'⟩
        · rfl
        · exact ih os' _

theorem writeItAll_stale (os : Os) (stale : ℕ → UInt8) (buf : List UInt8) :
    writeItAll { os with stale := stale } buf =
      ((writeItAll os buf).1, { (writeItAll os buf).2 with stale := stale }) :=
  writeItAllLoop_stale _ os stale buf

theorem sendReply_alter (reply : List UInt8) (ok : Status) (c : Chan) :
    sendReply reply ok (c.alter id p) = alterSnd id p (sendReply reply ok c) := by
  obtain ⟨rs, log, hframe⟩ := writeItAllLoop_frame reply.length c.os reply
  have hstale : (writeItAll c.os reply).2.stale = c.os.stale := by
    rw [writeItAll, hframe]
  simp only [sendReply, writeItAll_stale]
  rw [← hstale]
  rcases writeItAll c.os reply with ⟨e | u, os⟩ <;> rfl

/-! ### Headers -/

/-- The entries of the query that `ProcessHeader` answers. -/
def headerQuery (fill : Chan → Option Chan) (header : Header) (c : Chan) :
    Option (List (List UInt8)) :=
  if header.version = fcgiVersion1 ∧ header.type.toNat = fcgiGetValues ∧
      header.requestId = fcgiNullRequestId then
    match readParams fill (newParams 3) (c.startRecord header) with
    | none => none
    | some (_, params, d) =>
        if d.stream.fcgiErrno ≠ 0 ∨ d.stream.contentLen ≠ 0 then none else some params.entries
  else none

section Headers

variable {fill : Chan → Option Chan} {c : Chan} {I : Chan → Prop}

theorem processManagementRecord_alter (hfill : Ignores id p fill I) (hc : I c) {type : ℕ}
    (hcovered : ∀ rc params d, type = fcgiGetValues →
      readParams fill (newParams 3) c = some (rc, params, d) → d.stream.fcgiErrno = 0 →
        d.stream.contentLen = 0 → CoveredReply params.entries) :
    processManagementRecord fill type (c.alter id p) =
      (processManagementRecord fill type c).map (alterSnd id p) := by
  simp only [processManagementRecord, hfill.readParams hc, sendReply_alter]
  split
  · next htype =>
      cases hread : readParams fill (newParams 3) c with
      | none => rfl
      | some x =>
          obtain ⟨rc, params, d⟩ := x
          simp only [Option.map_some]
          by_cases hbad : d.stream.fcgiErrno ≠ 0 ∨ d.stream.contentLen ≠ 0
          · rw [if_pos hbad, if_pos hbad]
            rfl
          · rw [if_neg hbad, if_neg hbad]
            obtain ⟨herrno, hlen⟩ := not_or.mp hbad
            have hreply := (getValuesReply_same_iff params.entries).mpr
              (hcovered rc params d htype hread (not_not.mp herrno) (not_not.mp hlen))
              (p d.os.stale) d.os.stale
            exact congrArg some
              ((congrArg (fun reply => sendReply reply .mgmtRecord (d.alter id p)) hreply).trans
                (sendReply_alter _ _ d))
  · rfl

theorem readBegin_alter (hfill : Ignores id p fill I) (hc : I c) :
    readBegin fill (c.alter id p) = (readBegin fill c).map (alterSnd id p) := by
  simp only [readBegin, hfill.getStr hc]
  cases fcgxGetStr fill 8 c with
  | none => rfl
  | some x =>
      simp only [Option.map_some]
      split <;> rfl

theorem processBeginRecord_alter (hfill : Ignores id p fill I)
    (hI : ∀ c id, I c → I (c.setRequestId id)) (hc : I c) (requestId : ℕ) :
    processBeginRecord fill requestId (c.alter id p) =
      (processBeginRecord fill requestId c).map (alterSnd id p) := by
  have hbegin := readBegin_alter hfill (hI c requestId hc)
  simp only [processBeginRecord, sendReply_alter]
  split
  · rfl
  · split
    · next hbegun =>
        rw [if_pos (by exact hbegun)]
        rfl
    · next hawait =>
        rw [if_neg (by exact hawait)]
        exact hbegin

theorem processHeader_alter (hfill : Ignores id p fill I)
    (hI : ∀ c id, I c → I (c.setRequestId id)) {header : Header} (hc : I (c.startRecord header))
    (hcovered : ∀ query, headerQuery fill header c = some query → CoveredReply query) :
    processHeader fill header (c.alter id p) =
      (processHeader fill header c).map (alterSnd id p) := by
  have hbegin := processBeginRecord_alter hfill hI hc header.requestId
  have hid : ((c.alter id p).startRecord header).req.requestId =
      (c.startRecord header).req.requestId := rfl
  have htype : ((c.alter id p).startRecord header).stream.type =
      (c.startRecord header).stream.type := rfl
  simp only [processHeader, dispatchHeader, hid, htype]
  split
  · rfl
  · next hversion =>
      split
      · exact hbegin
      · split
        · next hid =>
            refine processManagementRecord_alter hfill hc
              fun rc params d htype hread herrno hlen => ?_
            refine hcovered params.entries ?_
            rw [headerQuery, if_pos ⟨not_not.mp hversion, htype, hid⟩, hread]
            simp [herrno, hlen]
        · split
          · rfl
          · split <;> rfl

end Headers

/-! ### The fill procedure -/

theorem onStatus_alter (status : Status) (c : Chan) :
    onStatus status (leaveRecord (c.alter id p)) =
      (onStatus status (leaveRecord c)).map (Pass.bimap (alterSnd id p) (Chan.alter id p)) := by
  cases status with
  | streamRecord =>
      simp only [onStatus]
      split
      · next hzero =>
          rw [if_pos (by exact hzero)]
          rfl
      · next hzero =>
          rw [if_neg (by exact hzero)]
          rfl
  | error e =>
      simp only [onStatus]
      split <;> rfl
  | skip | beginRecord | mgmtRecord => rfl

/-- The entries of the query that is answered in a pass of the loop of `FillBuffProc`. -/
def passQuery (x : List UInt8 × Chan) : Option (List (List UInt8)) :=
  match headerBody x with
  | some (.done (some (header, c))) => headerQuery (fillBuffProcAt 1) header c
  | _ => none

/-- One pass of the loop of `FillBuffProc`, unless it sends a reply that shows the memory. -/
def coveredBody (x : List UInt8 × Chan) : Option (Pass (List UInt8 × Chan) Chan) :=
  if ∀ query ∈ passQuery x, CoveredReply query then fillBuffProcBody (fillBuffProcAt 1) x else none

/-- `FillBuffProc`, as long as it sends no reply that shows the memory. -/
def coveredFill (c : Chan) : Option Chan := run coveredBody (c.unread.length + 1) ([], c)

/-- **One pass in another memory.** -/
theorem coveredBody_alter {x : List UInt8 × Chan} {pass : Pass (List UInt8 × Chan) Chan}
    (h : coveredBody x = some pass) :
    fillBuffProcBody (fillBuffProcAt 1) (alterSnd id p x) =
      some (pass.bimap (alterSnd id p) (Chan.alter id p)) := by
  rw [coveredBody] at h
  split at h
  · next hcovered =>
      rw [fillBuffProcBody_eq] at h
      rw [fillBuffProcBody_eq, beforeHeader_alter]
      cases hstage : beforeHeader x.2 with
      | leave c | loop c =>
          rw [hstage] at h
          cases h
          rfl
      | next c =>
          simp only [hstage, passHeader_eq] at h
          simp only [Stage.map, passHeader_eq]
          by_cases hshort : (collectHeader x.1 c).1.length < 8
          · rw [if_pos hshort] at h
            rw [if_pos (by exact hshort)]
            cases h
            rfl
          · rw [if_neg hshort] at h
            rw [if_neg (by exact hshort)]
            have hcontent : ∀ query, headerQuery (fillBuffProcAt 1)
                (Header.ofBytes (collectHeader x.1 c).1) (enterRecord (collectHeader x.1 c).2) =
                  some query → CoveredReply query := by
              intro query hquery
              refine hcovered query ?_
              simp only [passQuery, headerBody, hstage, if_neg hshort]
              exact hquery
            have hheader := processHeader_alter (p := p) (ignores_eor 1) (fun _ _ hc => hc) rfl
              hcontent
            split at h
            · cases h
            · next status d hproc =>
                rw [hproc] at hheader
                have hstatus := onStatus_alter (p := p) status d
                rw [h] at hstatus
                split
                · next hnone => cases hheader.symm.trans hnone
                · next hsome =>
                    cases Option.some.inj (hheader.symm.trans hsome)
                    exact hstatus
  · cases h

/-- **In another memory** `FillBuffProc` does the same, as long as it sends no reply that shows
the memory. -/
theorem fillBuffProc_alter {c d : Chan} (h : coveredFill c = some d) :
    fillBuffProc (c.alter id p) = some (d.alter id p) := by
  have hpass : ∀ (x x' : List UInt8 × Chan) (pass : Pass (List UInt8 × Chan) Chan),
      x' = alterSnd id p x → coveredBody x = some pass →
        ∃ pass', fillBuffProcBody (fillBuffProcAt 1) x' = some pass' ∧
          pass.Rel (fun y y' => y' = alterSnd id p y) (fun e e' => e' = e.alter id p) pass' := by
    rintro x _ pass rfl hcovered
    exact ⟨_, coveredBody_alter hcovered, pass.rel_bimap _ _⟩
  obtain ⟨d', hrun, rfl⟩ := run_rel hpass (s := ([], c)) rfl h
  exact hrun

theorem fillBuffProc_of_covered {c d : Chan} (h : coveredFill c = some d) :
    fillBuffProc c = some d := fillBuffProc_alter (p := id) h

end FastCgi
