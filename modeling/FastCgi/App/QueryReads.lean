import FastCgi.App.ReadInvariant
import FastCgi.App.Reassembly

/-!
When a query is answered.

`FillBuffProc` is taken apart up to the first header that it hands to
`ProcessHeader` (`firstHeader`), and `ProcessManagementRecord` up to the
reply that it passes to `write_it_all` (`queryReply`), so that there is a
state to look at: `fillBuffProc_firstReply` puts the parts together again.
`Os.ReadsWhile` tells when the calls of `OS_Read` were made.
-/

namespace FastCgi

open ByteMem BoundedLoop

/-! ### When the connection has been read -/

/-- Some calls of `OS_Read`, of at most `len` bytes each; each of them was made while more than
`r` bytes of what the peer sends had not been delivered. -/
inductive Os.ReadsWhile (len r : ℕ) : Os → Os → Prop
  | refl (os : Os) : Os.ReadsWhile len r os os
  | read {os os₁ os₂ : Os} {chunk : List UInt8} (hr : r < os.incoming.length)
      (hread : osRead os len = (.ok chunk, os₁)) (h : Os.ReadsWhile len r os₁ os₂) :
      Os.ReadsWhile len r os os₂

/-- Some chunk ends where `r` bytes of what the peer sends are left. -/
def Os.CutAt (len r : ℕ) (os : Os) : Prop :=
  ∃ os', Os.ReadsWhile len r os os' ∧ os'.incoming.length = r

namespace Os.ReadsWhile

variable {len r r' : ℕ} {os os₁ os₂ : Os}

theorem snoc (h : Os.ReadsWhile len r os os₁) (hr : r < os₁.incoming.length) {chunk : List UInt8}
    (hread : osRead os₁ len = (.ok chunk, os₂)) : Os.ReadsWhile len r os os₂ := by
  induction h with
  | refl os => exact .read hr hread (.refl _)
  | read hr' hread' _ ih => exact .read hr' hread' (ih hr hread)

theorem mono (h : Os.ReadsWhile len r os os₁) (hle : r' ≤ r) : Os.ReadsWhile len r' os os₁ := by
  induction h with
  | refl os => exact .refl os
  | read hr hread _ ih => exact .read (Nat.lt_of_le_of_lt hle hr) hread ih

/-- There is one state in which the bytes up to the last `r` have just been delivered. -/
theorem unique (h : Os.ReadsWhile len r os os₁) (h' : Os.ReadsWhile len r os os₂)
    (hle : os₁.incoming.length ≤ r) (hle' : os₂.incoming.length ≤ r) : os₁ = os₂ := by
  induction h with
  | refl os =>
      cases h' with
      | refl _ => rfl
      | read hr _ _ => omega
  | read hr hread h ih =>
      cases h' with
      | refl _ => omega
      | read _ hread' h' =>
          rw [hread] at hread'
          obtain rfl := congrArg Prod.snd hread'
          exact ih h' hle

end Os.ReadsWhile

theorem osRead_shorter {os os' : Os} {len : ℕ} {chunk : List UInt8} (hlen : 0 < len)
    (h : osRead os len = (.ok chunk, os')) : os'.incoming.length < os.incoming.length := by
  by_cases hnil : os.incoming = []
  · rw [osRead_of_nil hnil] at h
    cases h
  · obtain ⟨chunk', rest, sizes, hne, -, hsplit, hread⟩ := osRead_of_ne_nil hnil hlen
    rw [hread] at h
    obtain rfl := congrArg Prod.snd h
    have hpos := List.length_pos_iff.mpr hne
    show rest.length < _
    rw [hsplit, List.length_append]
    omega

/-- Every call was made before the last of what it has delivered was there. -/
theorem Os.ReadsWhile.tight {len r : ℕ} {os os' : Os} (hlen : 0 < len)
    (h : Os.ReadsWhile len r os os') :
    Os.ReadsWhile len os'.incoming.length os os' ∧
      os'.incoming.length ≤ os.incoming.length := by
  induction h with
  | refl os => exact ⟨.refl os, Nat.le_refl _⟩
  | read _ hread _ ih =>
      have hlt := osRead_shorter hlen hread
      exact ⟨.read (by omega) hread ih.1, by omega⟩

/-! ### `FillBuffProc` up to a header -/

/-- A stage after another one. -/
def Stage.bind (s : Stage) (f : Chan → Stage) : Stage :=
  match s with
  | .leave c => .leave c
  | .loop c => .loop c
  | .next c => f c

/-- What a stage ends with. -/
def Stage.Ends (Loop Next Leave : Chan → Prop) : Stage → Prop
  | .leave c => Leave c
  | .loop c => Loop c
  | .next c => Next c

theorem Stage.Ends.bind {s : Stage} {f : Chan → Stage} {Loop Next Next' Leave : Chan → Prop}
    (h : s.Ends Loop Next Leave) (hf : ∀ c, Next c → (f c).Ends Loop Next' Leave) :
    (s.bind f).Ends Loop Next' Leave := by
  cases s with
  | leave c => exact h
  | loop c => exact h
  | next c => exact hf c h

/-- A pass of the loop of `FillBuffProc` as far as the header. -/
def beforeHeader (c : Chan) : Stage :=
  (((refill c).bind passContent).bind passPadding).bind checkEor

theorem fillBuffProcBody_eq (fill : Chan → Option Chan) (x : List UInt8 × Chan) :
    fillBuffProcBody fill x =
      match beforeHeader x.2 with
      | .leave c => some (.done c)
      | .loop c => some (.again (x.1, c))
      | .next c => passHeader fill x.1 c := by
  rw [fillBuffProcBody, beforeHeader]
  cases refill x.2 with
  | leave c | loop c => rfl
  | next c₁ =>
      simp only [Stage.bind]
      cases passContent c₁ with
      | leave c | loop c => rfl
      | next c₂ =>
          simp only
          cases passPadding c₂ with
          | leave c | loop c => rfl
          | next c₃ => cases hcheck : checkEor c₃ <;> simp only [hcheck]

/-- The bytes of the header that are in the buffer are taken. -/
def collectHeader (hdr : List UInt8) (c : Chan) : List UInt8 × Chan :=
  let count := min (8 - hdr.length) (c.stream.buffStop - c.stream.rdNext)
  (hdr ++ slice c.stream.buff c.stream.rdNext count, c.moveNext count)

theorem passHeader_eq (fill : Chan → Option Chan) (hdr : List UInt8) (c : Chan) :
    passHeader fill hdr c =
      if (collectHeader hdr c).1.length < 8 then some (.again (collectHeader hdr c))
      else
        match processHeader fill (Header.ofBytes (collectHeader hdr c).1)
          (enterRecord (collectHeader hdr c).2) with
        | none => none
        | some (status, c') => onStatus status (leaveRecord c') := rfl

/-- A pass that stops where `ProcessHeader` is called. -/
def headerBody (x : List UInt8 × Chan) :
    Option (Pass (List UInt8 × Chan) (Option (Header × Chan))) :=
  match beforeHeader x.2 with
  | .leave _ => some (.done none)
  | .loop c => some (.again (x.1, c))
  | .next c =>
      let y := collectHeader x.1 c
      if y.1.length < 8 then some (.again y)
      else some (.done (some (Header.ofBytes y.1, enterRecord y.2)))

/-- The first header that `FillBuffProc` hands to `ProcessHeader`, and the state in which it
does. -/
def firstHeader (c : Chan) : Option (Header × Chan) :=
  (run headerBody (c.unread.length + 1) ([], c)).join

/-- `FillBuffProc` from where `ProcessHeader` has returned. -/
def afterHeader (fill : Chan → Option Chan) (fuel : ℕ) :
    Option (Status × Chan) → Option Chan
  | none => none
  | some (status, c) =>
      match onStatus status (leaveRecord c) with
      | none => none
      | some (.done c) => some c
      | some (.again x) => run (fillBuffProcBody fill) fuel x

theorem run_firstHeader (fill : Chan → Option Chan) {fuel : ℕ} {x : List UInt8 × Chan}
    {header : Header} {c : Chan} (h : run headerBody fuel x = some (some (header, c))) :
    ∃ fuel', run (fillBuffProcBody fill) fuel x =
      afterHeader fill fuel' (processHeader fill header c) := by
  induction fuel generalizing x with
  | zero => cases h
  | succ fuel ih =>
      have hbody := fillBuffProcBody_eq fill x
      cases hstage : beforeHeader x.2 with
      | leave c₁ =>
          simp only [run, headerBody, hstage] at h
          cases h
      | loop c₁ =>
          simp only [run, headerBody, hstage] at h
          simp only [hstage] at hbody
          rw [run_again hbody]
          exact ih h
      | next c₁ =>
          simp only [hstage, passHeader_eq] at hbody
          by_cases hshort : (collectHeader x.1 c₁).1.length < 8
          · simp only [run, headerBody, hstage, hshort, if_true] at h
            rw [if_pos hshort] at hbody
            rw [run_again hbody]
            exact ih h
          · simp only [run, headerBody, hstage, hshort, if_false] at h
            obtain ⟨rfl, rfl⟩ := Prod.mk.inj (Option.some.inj (Option.some.inj h))
            rw [if_neg hshort] at hbody
            refine ⟨fuel, ?_⟩
            simp only [run, hbody]
            rcases processHeader fill (Header.ofBytes (collectHeader x.1 c₁).1)
              (enterRecord (collectHeader x.1 c₁).2) with _ | ⟨status, c'⟩
            · rfl
            · simp only [afterHeader]
              rcases onStatus status (leaveRecord c') with _ | _ | _ <;> rfl

/-! ### `ProcessManagementRecord` up to the reply -/

/-- What `ProcessManagementRecord` passes to `write_it_all` for a query, and the state in
which it does. -/
def queryReply (fill : Chan → Option Chan) (c : Chan) : Option (List UInt8 × Chan) :=
  match readParams fill (newParams 3) c with
  | none => none
  | some (_, params, c) =>
      if c.stream.fcgiErrno ≠ 0 ∨ c.stream.contentLen ≠ 0 then none
      else some (getValuesReply c.os.stale params.entries, c)

theorem processManagementRecord_of_reply {fill : Chan → Option Chan} {c c' : Chan}
    {reply : List UInt8} (h : queryReply fill c = some (reply, c')) :
    processManagementRecord fill fcgiGetValues c = some (sendReply reply .mgmtRecord c') := by
  rw [queryReply] at h
  rw [processManagementRecord, if_pos rfl]
  cases hread : readParams fill (newParams 3) c with
  | none =>
      rw [hread] at h
      cases h
  | some x =>
      rw [hread] at h
      dsimp only at h ⊢
      split at h
      · cases h
      · next hok =>
          obtain ⟨rfl, rfl⟩ := Prod.mk.inj (Option.some.inj h)
          rw [if_neg hok]

/-- The reply that `FillBuffProc` passes to `write_it_all` where a query is the first record
that it comes to, and the state in which it does. -/
def Chan.firstReply (c : Chan) : Option (List UInt8 × Chan) :=
  match firstHeader c with
  | none => none
  | some (header, c) =>
      if header.version = fcgiVersion1 ∧ header.type.toNat = fcgiGetValues ∧
          header.requestId = fcgiNullRequestId then
        queryReply (fillBuffProcAt 1) (c.startRecord header)
      else none

/-- **The reply is what `FillBuffProc` sends**, and after it the loop goes on. -/
theorem fillBuffProc_firstReply {c c' : Chan} {reply : List UInt8}
    (h : c.firstReply = some (reply, c')) :
    ∃ fuel, fillBuffProc c =
      afterHeader (fillBuffProcAt 1) fuel (some (sendReply reply .mgmtRecord c')) := by
  rw [Chan.firstReply] at h
  split at h
  · cases h
  · next header c₁ hheader =>
      split at h
      · next hquery =>
          obtain ⟨hversion, htype, hid⟩ := hquery
          obtain ⟨fuel, hrun⟩ := run_firstHeader (fillBuffProcAt 1)
            (Option.join_eq_some_iff.mp hheader)
          refine ⟨fuel, hrun.trans ?_⟩
          rw [processHeader, if_neg (not_not_intro hversion), dispatchHeader, htype,
            if_neg (by decide), if_pos hid, processManagementRecord_of_reply h]
      · cases h

/-! ### When the buffer is refilled -/

theorem length_unread (c : Chan) :
    c.unread.length = (c.stream.buffStop - c.stream.rdNext) + c.os.incoming.length := by
  rw [Chan.unread, List.length_append, length_slice]

/-- The channel with a chunk in its buffer. -/
def Chan.refilled (c : Chan) (chunk : List UInt8) (os : Os) : Chan :=
  { c with
    os := os
    stream := { c.stream with
      buff := store c.stream.buff 0 chunk, rdNext := 0, buffStop := chunk.length } }

/-- An empty buffer is refilled if the peer has sent more; a buffer that is not empty is left
alone. -/
theorem refill_cases {c : Chan} (hlen : 0 < c.stream.bufflen) :
    c.stream.rdNext ≠ c.stream.buffStop ∧ refill c = .next c ∨
    c.stream.rdNext = c.stream.buffStop ∧
      (c.os.incoming = [] ∧ refill c = .leave (c.setError (readError c.os.readEnd)) ∨
        ∃ chunk os', chunk ≠ [] ∧ chunk.length ≤ c.stream.bufflen ∧
          osRead c.os c.stream.bufflen = (.ok chunk, os') ∧
          c.os.incoming = chunk ++ os'.incoming ∧ os'.writeSide = c.os.writeSide ∧
          refill c = .next (c.refilled chunk os')) := by
  rw [refill]
  split
  · next hempty =>
      refine .inr ⟨hempty, ?_⟩
      by_cases hnil : c.os.incoming = []
      · rw [osRead_of_nil hnil]
        exact .inl ⟨hnil, rfl⟩
      · obtain ⟨chunk, rest, sizes, hne, hle, hsplit, hread⟩ := osRead_of_ne_nil hnil hlen
        rw [hread]
        simp only [if_neg hne]
        exact .inr ⟨chunk, _, hne, hle, rfl, hsplit, Os.writeSide_congr rfl rfl rfl rfl rfl, rfl⟩
  · next hne => exact .inl ⟨hne, rfl⟩

theorem unread_refilled {c : Chan} {chunk : List UInt8} {os : Os}
    (hempty : c.stream.rdNext = c.stream.buffStop) (hsplit : c.os.incoming = chunk ++ os.incoming) :
    (c.refilled chunk os).unread = c.unread := by
  have hunread : c.unread = c.os.incoming := by simp [Chan.unread, hempty]
  rw [hunread, hsplit]
  show slice (store c.stream.buff 0 chunk) 0 (chunk.length - 0) ++ os.incoming = _
  rw [Nat.sub_zero, slice_store]

/-- A fill under `eorStop` does not get to a header. -/
theorem fill_rule {I P : Chan → Prop}
    (hstep : ∀ c, I c → (beforeHeader c).Ends I (fun _ => False) P) {d : ℕ} {c c' : Chan}
    (hc : I c) (h : fillBuffProcAt (d + 1) c = some c') : P c' := by
  refine run_invariant (I := fun x => I x.2) (P := P) (fun x p hx hp => ?_) hc h
  have hends := hstep x.2 hx
  rw [fillBuffProcBody_eq] at hp
  generalize beforeHeader x.2 = stage at hp hends
  cases stage with
  | leave c₁ =>
      cases hp
      exact hends
  | loop c₁ =>
      cases hp
      exact hends
  | next c₁ => exact hends.elim

/-! ### Reading the content of a record -/

/-- A reader inside a record, between two calls, has been refilled only for bytes that have
been consumed since; after a call that has found a byte or the end, that one may be missing. -/
structure Chan.Lazy (os : Os) (len : ℕ) (c : Chan) : Prop where
  bufflen : c.stream.bufflen = len
  eorStop : c.stream.eorStop = true
  reads : ∃ u, Os.ReadsWhile len u os c.os ∧ (c.unread.length ≤ u ∨ c.unread.length ≤ u + 1 ∧
    (c.stream.isClosed = true ∨
      c.stream.rdNext < c.stream.stop ∧ c.stream.stop ≤ c.stream.buffStop))

/-- The same inside a fill. -/
structure Chan.LazyFill (os : Os) (len : ℕ) (c : Chan) : Prop where
  bufflen : c.stream.bufflen = len
  eorStop : c.stream.eorStop = true
  reads : ∃ u, Os.ReadsWhile len u os c.os ∧ c.unread.length ≤ u + 1

section Lazy

variable {os : Os} {len : ℕ}

theorem Chan.Lazy.toLazyFill {c : Chan} (h : c.Lazy os len) : c.LazyFill os len := by
  obtain ⟨u, hreads, hle⟩ := h.reads
  exact ⟨h.bufflen, h.eorStop, u, hreads, hle.elim (fun hle => by omega) And.left⟩

theorem refill_lazy (hlen : 0 < len) {c : Chan} (h : c.LazyFill os len) :
    (refill c).Ends (Chan.LazyFill os len) (Chan.LazyFill os len) (Chan.Lazy os len) := by
  obtain ⟨hbufflen, heor, u, hreads, hle⟩ := h
  rcases refill_cases (c := c) (hbufflen ▸ hlen) with ⟨-, heq⟩ | ⟨hempty, ⟨-, heq⟩ |
    ⟨chunk, os', hne, -, hread, hsplit, -, heq⟩⟩
  · rw [heq]
    exact ⟨hbufflen, heor, u, hreads, hle⟩
  · rw [heq]
    exact ⟨hbufflen, heor, u, hreads, .inr ⟨hle, .inl rfl⟩⟩
  · have hunread := unread_refilled hempty hsplit
    have hlength := length_unread c
    have hpos := List.length_pos_iff.mpr hne
    have hin := congrArg List.length hsplit
    rw [List.length_append] at hin
    rw [hbufflen] at hread
    rw [heq]
    refine ⟨hbufflen, heor, c.os.incoming.length - 1,
      (hreads.mono (by omega)).snoc (by omega) hread, ?_⟩
    rw [hunread]
    omega

theorem passContent_lazy (hlen : 0 < len) {c : Chan} (h : c.LazyFill os len) :
    (passContent c).Ends (Chan.LazyFill os len) (Chan.LazyFill os len) (Chan.Lazy os len) := by
  obtain ⟨hbufflen, heor, u, hreads, hle⟩ := h
  rw [length_unread] at hle
  simp only [passContent]
  split
  · next hcontent =>
      split
      · refine ⟨hbufflen, heor, ?_⟩
        rw [length_unread]
        by_cases hlt : c.stream.rdNext < c.stream.buffStop
        · refine ⟨u, hreads, .inr ⟨hle, .inr ⟨?_, ?_⟩⟩⟩ <;> dsimp only <;> omega
        · refine ⟨_, (hreads.tight hlen).1, .inl ?_⟩
          dsimp only
          omega
      · split <;>
          · refine ⟨hbufflen, heor, u, hreads, ?_⟩
            rw [length_unread]
            dsimp only
            omega
  · exact ⟨hbufflen, heor, u, hreads, by rwa [length_unread]⟩

theorem passPadding_lazy {c : Chan} (h : c.LazyFill os len) :
    (passPadding c).Ends (Chan.LazyFill os len) (Chan.LazyFill os len) (Chan.Lazy os len) := by
  obtain ⟨hbufflen, heor, u, hreads, hle⟩ := h
  rw [length_unread] at hle
  simp only [passPadding]
  split
  · split <;>
      · refine ⟨hbufflen, heor, u, hreads, ?_⟩
        rw [length_unread]
        dsimp only
        omega
  · exact ⟨hbufflen, heor, u, hreads, by rwa [length_unread]⟩

theorem checkEor_lazy {c : Chan} (h : c.LazyFill os len) :
    (checkEor c).Ends (Chan.LazyFill os len) (fun _ => False) (Chan.Lazy os len) := by
  obtain ⟨hbufflen, heor, u, hreads, hle⟩ := h
  rw [checkEor, if_pos heor]
  exact ⟨hbufflen, heor, u, hreads, .inr ⟨hle, .inl rfl⟩⟩

theorem fill_lazy (hlen : 0 < len) {d : ℕ} {c c' : Chan} (h : c.LazyFill os len)
    (hfill : fillBuffProcAt (d + 1) c = some c') : c'.Lazy os len := by
  refine fill_rule (fun c hc => ?_) h hfill
  exact (((refill_lazy hlen hc).bind fun _ => passContent_lazy hlen).bind
    fun _ => passPadding_lazy).bind fun _ => checkEor_lazy

theorem lazy_readInvariant (hlen : 0 < len) (d : ℕ) :
    ReadInvariant (fillBuffProcAt (d + 1)) (Chan.Lazy os len) where
  takeBytes m c hc := by
    obtain ⟨hbufflen, heor, u, hreads, hle⟩ := hc
    refine ⟨hbufflen, heor, u, hreads, ?_⟩
    rw [length_unread] at hle ⊢
    simp only [takeBytes]
    rcases hle with hle | ⟨hle, hclosed | hlt⟩
    · exact .inl (by omega)
    · exact .inr ⟨by omega, .inl hclosed⟩
    · cases m with
      | zero => exact .inr ⟨by omega, .inr hlt⟩
      | succ m => exact .inl (by omega)
  setError c hc := by
    obtain ⟨u, hreads, hle⟩ := (hc.toLazyFill).reads
    exact ⟨hc.bufflen, hc.eorStop, u, hreads, .inr ⟨hle, .inl rfl⟩⟩
  fill c c' _ hc hfill := by
    have hlazy := fill_lazy hlen (hc.toLazyFill) hfill
    split
    · exact hlazy
    · exact ⟨hlazy.bufflen, hlazy.eorStop, hlazy.reads⟩

end Lazy

/-! ### The end of a record -/

/-- A reader in a record of which only bytes are left that are not delivered, with `r` bytes
behind it. It has not been refilled for those. -/
structure Chan.Leaving (os : Os) (len r : ℕ) (c : Chan) : Prop where
  bufflen : c.stream.bufflen = len
  eorStop : c.stream.eorStop = true
  rdNext_le : c.stream.rdNext ≤ c.stream.buffStop
  skip : c.stream.skip = true ∨ c.stream.contentLen = 0
  unread : c.unread.length = c.stream.contentLen + c.stream.paddingLen + r
  reads : Os.ReadsWhile len r os c.os

/-- The same where some bytes are left. -/
def Chan.InRest (os : Os) (len r : ℕ) (c : Chan) : Prop :=
  c.Leaving os len r ∧ 0 < c.stream.contentLen + c.stream.paddingLen

section Leaving

variable {os : Os} {len r : ℕ}

theorem refill_leaving (hlen : 0 < len) {c : Chan} (h : c.InRest os len r) :
    (refill c).Ends (Chan.InRest os len r) (Chan.Leaving os len r)
      (fun c => Os.ReadsWhile len r os c.os) := by
  obtain ⟨⟨hbufflen, heor, hle, hskip, hunread, hreads⟩, hpos⟩ := h
  have hlength := length_unread c
  rcases refill_cases (c := c) (hbufflen ▸ hlen) with ⟨-, heq⟩ | ⟨hempty, ⟨-, heq⟩ |
    ⟨chunk, os', -, -, hread, hsplit, -, heq⟩⟩
  · rw [heq]
    exact ⟨hbufflen, heor, hle, hskip, hunread, hreads⟩
  · rw [heq]
    exact hreads
  · rw [hbufflen] at hread
    rw [heq]
    refine ⟨hbufflen, heor, Nat.zero_le _, hskip, ?_, hreads.snoc (by omega) hread⟩
    rw [unread_refilled hempty hsplit]
    exact hunread

theorem passContent_leaving {c : Chan} (h : c.Leaving os len r) :
    (passContent c).Ends (Chan.InRest os len r) (Chan.Leaving os len r)
      (fun c => Os.ReadsWhile len r os c.os) := by
  obtain ⟨hbufflen, heor, hle, hskip, hunread, hreads⟩ := h
  rw [length_unread] at hunread
  simp only [passContent]
  split
  · next hcontent =>
      split
      · exact hreads
      · next hnoskip =>
          have hskip : c.stream.skip = true := by simpa using hnoskip
          split
          · next hmore =>
              refine ⟨⟨hbufflen, heor, ?_, .inl hskip, ?_, hreads⟩, ?_⟩
              · dsimp only
                omega
              · rw [length_unread]
                dsimp only
                omega
              · dsimp only
                omega
          · refine ⟨hbufflen, heor, ?_, .inr ?_, ?_, hreads⟩
            · dsimp only
              omega
            · dsimp only
              omega
            · rw [length_unread]
              dsimp only
              omega
  · exact ⟨hbufflen, heor, hle, hskip, by rwa [length_unread], hreads⟩

theorem passPadding_leaving {c : Chan} (h : c.Leaving os len r) :
    (passPadding c).Ends (Chan.InRest os len r) (Chan.Leaving os len r)
      (fun c => Os.ReadsWhile len r os c.os) := by
  obtain ⟨hbufflen, heor, hle, hskip, hunread, hreads⟩ := h
  rw [length_unread] at hunread
  simp only [passPadding]
  split
  · have hleaving : ({ c with
        stream := { c.stream with
          paddingLen := c.stream.paddingLen -
            min c.stream.paddingLen (c.stream.buffStop - c.stream.rdNext)
          rdNext := c.stream.rdNext +
            min c.stream.paddingLen (c.stream.buffStop - c.stream.rdNext) } } : Chan).Leaving
        os len r := by
      refine ⟨hbufflen, heor, ?_, hskip, ?_, hreads⟩
      · dsimp only
        omega
      · rw [length_unread]
        dsimp only
        omega
    split
    · next hmore =>
        refine ⟨hleaving, ?_⟩
        dsimp only
        omega
    · exact hleaving
  · exact ⟨hbufflen, heor, hle, hskip, by rwa [length_unread], hreads⟩

/-- **While something of the record is left**, the fill that ends it is made without a read
behind it. -/
theorem fill_inRest (hlen : 0 < len) {d : ℕ} {c c' : Chan} (h : c.InRest os len r)
    (hfill : fillBuffProcAt (d + 1) c = some c') : Os.ReadsWhile len r os c'.os := by
  refine fill_rule (I := Chan.InRest os len r) (P := fun c => Os.ReadsWhile len r os c.os)
    (fun c hc => ?_) h hfill
  refine (((refill_leaving hlen hc).bind fun _ => passContent_leaving).bind
    fun _ => passPadding_leaving).bind fun c hc => ?_
  rw [checkEor, if_pos hc.eorStop]
  exact hc.reads

end Leaving

/-- `checkEor` at the end of a record under `eorStop`. -/
def Chan.endRecord (c : Chan) : Chan :=
  { c with stream := { c.stream with stop := c.stream.rdNext, isClosed := true } }

theorem beforeHeader_atEnd {c c₁ : Chan} (h : refill c = .next c₁)
    (heor : c₁.stream.eorStop = true) (hcontent : c₁.stream.contentLen = 0)
    (hpadding : c₁.stream.paddingLen = 0) : beforeHeader c = .leave c₁.endRecord := by
  rw [beforeHeader, h]
  simp [passContent, passPadding, checkEor, Stage.bind, heor, hcontent, hpadding, Chan.endRecord]

theorem fill_of_leave {d : ℕ} {c c' c₁ : Chan} (h : beforeHeader c = .leave c₁)
    (hfill : fillBuffProcAt (d + 1) c = some c') : c' = c₁ := by
  have hbody := fillBuffProcBody_eq (fillBuffProcAt d) ([], c)
  simp only [h] at hbody
  rw [fillBuffProcAt, run_done hbody] at hfill
  exact (Option.some.inj hfill).symm

/-- **Where nothing of the record is left**, the fill that ends it reads if the buffer is
empty. -/
theorem fill_atEnd {d : ℕ} {c c' : Chan} (hlen : 0 < c.stream.bufflen)
    (heor : c.stream.eorStop = true) (hcontent : c.stream.contentLen = 0)
    (hpadding : c.stream.paddingLen = 0) (hfill : fillBuffProcAt (d + 1) c = some c') :
    c.stream.rdNext ≠ c.stream.buffStop ∧ c'.os = c.os ∨
      c.stream.rdNext = c.stream.buffStop ∧ (c'.stream.fcgiErrno ≠ 0 ∨
        ∃ chunk, osRead c.os c.stream.bufflen = (.ok chunk, c'.os)) := by
  rcases refill_cases hlen with ⟨hne, heq⟩ | ⟨hempty, ⟨-, heq⟩ |
    ⟨chunk, os', -, -, hread, -, -, heq⟩⟩
  · obtain rfl := fill_of_leave (beforeHeader_atEnd heq heor hcontent hpadding) hfill
    exact .inl ⟨hne, rfl⟩
  · have hleave : beforeHeader c = .leave (c.setError (readError c.os.readEnd)) := by
      rw [beforeHeader, heq]
      rfl
    obtain rfl := fill_of_leave hleave hfill
    exact .inr ⟨hempty, .inl (errno_setError_ne_zero (readError_ne_zero _))⟩
  · obtain rfl := fill_of_leave (beforeHeader_atEnd heq heor hcontent hpadding) hfill
    exact .inr ⟨hempty, .inr ⟨chunk, hread⟩⟩

/-! ### The header of a query -/

/-- The bytes of the header that have arrived, in a reader between two records with view `v`,
and the reads that have been made for them. -/
structure AtHeader (v : View) (os : Os) (len : ℕ) (x : List UInt8 × Chan) : Prop
    extends x.2.Buffered where
  view_eq : x.2.fillView x.1 = v
  hdr_lt : x.1.length < 8
  bufflen : x.2.stream.bufflen = len
  reads : Os.ReadsWhile len (v.input.length - 8) os x.2.os

theorem beforeHeader_between {c : Chan} (hcontent : c.stream.contentLen = 0)
    (hpadding : c.stream.paddingLen = 0) (heor : c.stream.eorStop = false)
    (hlen : 0 < c.stream.bufflen) : beforeHeader c = refill c := by
  have hrest : ∀ c₁ : Chan, c₁.stream.eorStop = false → c₁.stream.contentLen = 0 →
      c₁.stream.paddingLen = 0 → ((passContent c₁).bind passPadding).bind checkEor = .next c₁ := by
    intro c₁ he hc hp
    simp [passContent, passPadding, checkEor, Stage.bind, he, hc, hp]
  rw [beforeHeader]
  rcases refill_cases hlen with ⟨-, heq⟩ | ⟨-, ⟨-, heq⟩ | ⟨chunk, os', -, -, -, -, -, heq⟩⟩
  · rw [heq]
    exact hrest c heor hcontent hpadding
  · rw [heq]
    rfl
  · rw [heq]
    exact hrest (c.refilled chunk os') heor hcontent hpadding

/-- A refill while the header is not there finds more bytes of it. -/
theorem AtHeader.refill {v : View} {os : Os} {len : ℕ} {x : List UInt8 × Chan}
    (h : AtHeader v os len x) (hv : v.Boundary) (hlong : 8 ≤ v.input.length) :
    ∃ c, beforeHeader x.2 = .next c ∧ AtHeader v os len (x.1, c) ∧
      c.stream.rdNext < c.stream.buffStop ∧ c.unread = x.2.unread := by
  have hinput : (x.1 ++ x.2.unread).length = v.input.length := by rw [← h.view_eq]; rfl
  have hcontent : x.2.stream.contentLen = 0 := by rw [← hv.contentLen, ← h.view_eq]; rfl
  have hpadding : x.2.stream.paddingLen = 0 := by rw [← hv.paddingLen, ← h.view_eq]; rfl
  have heor : x.2.stream.eorStop = false := by rw [← hv.eorStop, ← h.view_eq]; rfl
  have hlength := length_unread x.2
  have hlt := h.hdr_lt
  rw [List.length_append] at hinput
  rw [beforeHeader_between hcontent hpadding heor h.bufflen_pos]
  rcases refill_cases h.bufflen_pos with ⟨hne, heq⟩ | ⟨hempty, ⟨hnil, -⟩ |
    ⟨chunk, os', hne, hle, hread, hsplit, hside, heq⟩⟩
  · have hle := h.rdNext_le
    exact ⟨x.2, heq, h, by omega, rfl⟩
  · rw [hnil, List.length_nil] at hlength
    omega
  · have hunread := unread_refilled hempty hsplit
    rw [h.bufflen] at hread
    refine ⟨x.2.refilled chunk os', heq, ⟨⟨h.isReader, Nat.zero_le _, hle, h.bufflen_pos⟩, ?_, hlt,
      h.bufflen, h.reads.snoc ?_ hread⟩, List.length_pos_iff.mpr hne, hunread⟩
    · rw [← h.view_eq]
      simp only [Chan.fillView, hunread]
      rw [show (x.2.refilled chunk os').os.writeSide = x.2.os.writeSide from hside]
      rfl
    · omega

theorem fillView_collectHeader {hdr : List UInt8} {c : Chan} :
    (collectHeader hdr c).2.fillView (collectHeader hdr c).1 = c.fillView hdr := by
  have hle : min (8 - hdr.length) (c.stream.buffStop - c.stream.rdNext) ≤
      c.stream.buffStop - c.stream.rdNext := Nat.min_le_right _ _
  have hinput : (collectHeader hdr c).1 ++ (collectHeader hdr c).2.unread = hdr ++ c.unread := by
    rw [collectHeader]
    simp only
    rw [unread_moveNext hle, slice_eq_take_unread hle, List.append_assoc, List.take_append_drop]
  simp only [Chan.fillView, hinput]
  rfl

/-- What `ProcessHeader` is called with at the end of a header that stands in front of a view,
and in which state. -/
def HeaderCall (v : View) (os : Os) (len : ℕ) (y : Option (Header × Chan)) : Prop :=
  ∃ c, y = some (Header.ofBytes (v.input.take 8), c) ∧ c.Between ∧ c.view = v.enterRecord ∧
    c.stream.bufflen = len ∧ Os.ReadsWhile len (v.input.length - 8) os c.os

/-- One pass: there are more bytes of the header, or all of them. -/
theorem AtHeader.step {v : View} {os : Os} {len : ℕ} {x : List UInt8 × Chan}
    (h : AtHeader v os len x) (hv : v.Boundary) (hlong : 8 ≤ v.input.length) :
    (∃ y, headerBody x = some (.done y) ∧ HeaderCall v os len y) ∨
      ∃ x', headerBody x = some (.again x') ∧ AtHeader v os len x' ∧
        x'.2.unread.length < x.2.unread.length := by
  obtain ⟨c, hstage, hat, hlt, hunread⟩ := h.refill hv hlong
  have hhdr : x.1.length < 8 := hat.hdr_lt
  have hle : min (8 - x.1.length) (c.stream.buffStop - c.stream.rdNext) ≤
      c.stream.buffStop - c.stream.rdNext := Nat.min_le_right _ _
  have hbuf : (collectHeader x.1 c).2.Buffered := hat.toBuffered.moveNext hle
  have hview := fillView_collectHeader.trans hat.view_eq
  have hlength : (collectHeader x.1 c).1.length =
      x.1.length + min (8 - x.1.length) (c.stream.buffStop - c.stream.rdNext) := by
    rw [collectHeader, List.length_append, length_slice]
  by_cases hshort : (collectHeader x.1 c).1.length < 8
  · refine .inr ⟨collectHeader x.1 c, ?_, ⟨hbuf, hview, hshort, hat.bufflen, hat.reads⟩, ?_⟩
    · simp only [headerBody, hstage, if_pos hshort]
    · have hmoved : (collectHeader x.1 c).2.unread = c.unread.drop _ := unread_moveNext hle
      have hpos := le_length_unread c
      rw [hmoved, hunread, List.length_drop, ← hunread]
      omega
  · have hlen8 : (collectHeader x.1 c).1.length = 8 := by omega
    have hinput : (collectHeader x.1 c).1 ++ (collectHeader x.1 c).2.unread = v.input :=
      congrArg View.input hview
    have htake : v.input.take 8 = (collectHeader x.1 c).1 := by
      rw [← hinput, List.take_left' hlen8]
    have hdrop : v.input.drop 8 = (collectHeader x.1 c).2.unread := by
      rw [← hinput, List.drop_left' hlen8]
    have hclosed : (collectHeader x.1 c).2.stream.isClosed = false :=
      (congrArg View.closed hview).trans hv.closed
    refine .inl ⟨some (Header.ofBytes (v.input.take 8), enterRecord (collectHeader x.1 c).2), ?_,
      _, rfl, ⟨⟨hbuf.isReader, hbuf.rdNext_le, hbuf.buffStop_le, hbuf.bufflen_pos⟩, hclosed, rfl⟩,
      ?_, hat.bufflen, hat.reads⟩
    · simp only [headerBody, hstage, if_neg hshort, htake]
    · rw [View.enterRecord, hdrop, ← hview]
      simp only [Chan.view, enterRecord, Chan.fillView, hclosed]
      simp [Chan.unread]

/-- **The header of the first record.** `ProcessHeader` is called with it, and every read was
made before it was there. -/
theorem firstHeader_of_boundary {c : Chan} (h : c.Between) (hv : c.view.Boundary)
    (hlong : 8 ≤ c.unread.length) :
    HeaderCall c.view c.os c.stream.bufflen (firstHeader c) := by
  have hview : c.view = c.fillView [] :=
    Chan.view_eq_fillView h.isClosed (Nat.le_of_eq h.rdNext_eq.symm)
  have hstart : AtHeader c.view c.os c.stream.bufflen ([], c) :=
    ⟨h.toBuffered, hview.symm, Nat.zero_lt_succ 7, rfl, .refl _⟩
  obtain ⟨y, hy, hcall⟩ := run_total (AtHeader c.view c.os c.stream.bufflen)
    (HeaderCall c.view c.os c.stream.bufflen) (fun x => x.2.unread.length)
    (fun _ hx => hx.step hv hlong) hstart (Nat.lt_succ_self _)
  rw [firstHeader, hy]
  exact hcall

/-! ### The last pass of `ReadParams` -/

/-- `ReadParams` that returns 0 has ended with an `FCGX_GetChar` that found the end of the
stream. -/
theorem readParams_last {fill : Chan → Option Chan} {I : Chan → Prop} (hI : ReadInvariant fill I)
    {c c' : Chan} {bs : List UInt8} {e : View} {p p' : Params} (hf : FillSpec fill c.stream.eorStop)
    (ho : c.Open) (hd : Delivers c.view bs e) (hc : I c)
    (h : readParams fill p c = some (0, p', c')) :
    ∃ s, I s ∧ ReadTo c.view bs [] s ∧ fcgxGetChar fill s = some (none, c') := by
  have hlast := run_invariant (I := fun x : Params × Chan => I x.2 ∧ ReadingParams c.view bs p x)
    (P := fun y : ℤ × Params × Chan => y.1 = 0 →
      ∃ s, I s ∧ ReadTo c.view bs [] s ∧ fcgxGetChar fill s = some (none, y.2.2))
    (fun x pass hx hpass => ?_) ⟨hc, bs, .refl ho bs, rfl, rfl⟩ h
  · exact hlast rfl
  · have hkept := hI.readParamsBody hx.1 hpass
    cases pass with
    | again x' =>
        refine ⟨hkept, ?_⟩
        rcases readParamsBody_spec hf hd hx.2 with ⟨r, hr, -⟩ | ⟨x'', hx'', hreading, -⟩
        · cases hpass.symm.trans hr
        · cases hpass.symm.trans hx''
          exact hreading
    | done y =>
        intro hrc
        obtain ⟨bs', hto, -⟩ := hx.2.rest
        rw [readParamsBody] at hpass
        split at hpass
        · cases hpass
        · next hget =>
            cases hpass
            cases bs' with
            | nil => exact ⟨x.2, hx.1, hto, hget⟩
            | cons b bs' =>
                have hf' : FillSpec fill x.2.stream.eorStop := hto.eorStop ▸ hf
                obtain ⟨c₁, hbyte, -⟩ := fcgxGetChar_byte hf' hto.1 (hto.delivers hd)
                cases hget.symm.trans hbyte
        · split at hpass
          · cases hpass
          · cases hpass
            cases hrc
          · cases hpass

/-! ### Queries -/

/-- A query with nothing but complete pairs. -/
structure Record.Query (q : Record) : Prop where
  type : q.type.toNat = fcgiGetValues
  requestId : q.requestId.toNat = fcgiNullRequestId
  pairs : (parsePairs q.content).2 = none

/-- The query that is in front of what `c` has not consumed, with `r` bytes behind it, is
answered: no call of `OS_Read` has failed when the reply is passed to `write_it_all`, and none
has been made since the one that delivered the last byte of the query. -/
def Chan.AnswersAtOnce (c : Chan) (r : ℕ) : Prop :=
  ∃ reply c', c.firstReply = some (reply, c') ∧ c'.stream.fcgiErrno = 0 ∧
    Os.ReadsWhile c.stream.bufflen r c.os c'.os

/-- The bytes of the record that nothing delivers. -/
def View.rest (v : View) (q : Record) : ℕ :=
  (if v.skip then q.content.length else 0) + q.padding.length

theorem View.rest_pos (v : View) (q : Record) :
    0 < v.rest q ↔ q.padding ≠ [] ∨ v.skip = true ∧ q.content ≠ [] := by
  rw [View.rest, ← List.length_pos_iff, ← List.length_pos_iff]
  cases v.skip with
  | true =>
      simp only [if_true, true_and]
      omega
  | false => simp

/-- The view of a reader that has read the content of a record. -/
theorem view_of_read {v w : View} {q : Record} {post : List UInt8}
    (h : Reads (v.entered q post) (v.visible q) w) :
    (w.skip = true ∨ w.contentLen = 0) ∧ w.contentLen + w.paddingLen = v.rest q ∧
      w.input.length = w.contentLen + w.paddingLen + post.length := by
  have hentered : (v.entered q post).skip = v.skip := rfl
  by_cases hnil : v.visible q = []
  · rw [hnil] at h
    cases h
    have hcontent : v.skip = true ∨ q.content = [] := by
      rw [View.visible] at hnil
      split at hnil
      · next hskip => exact .inl hskip
      · exact .inr hnil
    refine ⟨hcontent.imp_right fun hc => by simp [View.entered, View.inRecord, hc], ?_, ?_⟩
    · rcases hcontent with hskip | hc
      · simp [View.entered, View.inRecord, View.rest, hskip]
      · simp [View.entered, View.inRecord, View.rest, hc]
    · simp [View.entered, View.inRecord, Nat.add_assoc]
  · have hskip : v.skip = false := by
      rw [View.visible] at hnil
      split at hnil
      · exact absurd rfl hnil
      · next hskip => exact Bool.eq_false_iff.mpr hskip
    have hvis : v.visible q = q.content := by rw [View.visible, hskip]; rfl
    rw [hvis] at hnil h
    have hready : (v.entered q post).Ready :=
      ⟨List.length_pos_iff.mpr hnil, hskip, by simp [View.entered, View.inRecord, hnil]⟩
    have hcontent : (eorContent (v.entered q post)).1 = q.content := by
      rw [eorContent_ready hready]
      simp [View.present, View.entered, View.inRecord]
    have hall : (eorContent (v.entered q post)).1 = q.content ++ [] := by
      rw [hcontent, List.append_nil]
    have hw := h.eor_view hall (by rwa [hcontent])
    rw [advanceEor_ready hready] at hw
    subst hw
    refine ⟨.inr ?_, ?_, ?_⟩
    · simp [View.consume, View.entered, View.inRecord]
    · simp [View.consume, View.entered, View.inRecord, View.rest, hskip]
    · simp [View.consume, View.entered, View.inRecord]

/-- The run of `FillBuffProc` over a query: the last `FCGX_GetChar` of `ReadParams` is made in
`s`, and the fill in it ends in `c'`. -/
structure QueryEnds (c : Chan) (q : Record) (post : List UInt8) (s c' : Chan) : Prop where
  reply : ∃ reply, c.firstReply =
    if c'.stream.fcgiErrno ≠ 0 ∨ c'.stream.contentLen ≠ 0 then none else some (reply, c')
  closed : c'.Closed
  view_eq : c'.view = (eorContent (c.view.entered q post)).2
  lazy : s.Lazy c.os c.stream.bufflen
  isOpen : s.Open
  rdNext_eq : s.stream.rdNext = s.stream.stop
  reads : Reads (c.view.entered q post) (c.view.visible q) s.view
  fill : fillBuffProcAt 1 s = some c'

section Query

variable {c : Chan} {q : Record} {post : List UInt8}

theorem parsePairs_visible (hq : q.Query) (v : View) : (parsePairs (v.visible q)).2 = none := by
  rw [View.visible]
  split
  · rfl
  · exact hq.pairs

theorem eorContent_fst (v : View) (q : Record) (post : List UInt8) :
    (eorContent (v.entered q post)).1 = v.visible q := by
  by_cases hready : (v.entered q post).Ready
  · have hskip : v.skip = false := hready.2.1
    rw [eorContent_ready hready, View.visible, hskip]
    simp [View.present, View.entered, View.inRecord]
  · rw [eorContent_of_not_ready hready, View.visible]
    split
    · rfl
    · next hskip =>
        by_contra hne
        refine hready ⟨List.length_pos_iff.mpr (Ne.symm hne), Bool.eq_false_iff.mpr hskip, ?_⟩
        simp [View.entered, View.inRecord, Ne.symm hne]

theorem Chan.Between.view_startRecord {c : Chan} (h : c.Between) (header : Header) :
    (c.startRecord header).view = c.view.startRecord header := by
  simp [Chan.view, Chan.startRecord, View.startRecord, h.isClosed, h.rdNext_eq, Chan.unread]

/-- `FillBuffProc` in front of a record: `ProcessHeader` is called with its header, and no read
was made before it that was not needed for it. -/
theorem enters_record (h : c.Between) (hv : c.view.Boundary)
    (hwire : c.unread = q.encode ++ post) :
    ∃ c₁, firstHeader c = some (q.header, c₁) ∧ (c₁.startRecord q.header).Between ∧
      (c₁.startRecord q.header).view = c.view.entered q post ∧
      (c₁.startRecord q.header).Lazy c.os c.stream.bufflen := by
  have hlong : 8 ≤ c.unread.length := by
    rw [hwire, List.length_append, q.length_encode]
    omega
  obtain ⟨c₁, hheader, hbt, hview, hbufflen, hreads⟩ := firstHeader_of_boundary h hv hlong
  have hinput : c.view.input = q.header.bytes ++ (q.content ++ (q.padding ++ post)) := by
    show c.unread = _
    rw [hwire, Record.encode, List.append_assoc, List.append_assoc]
  rw [hinput, List.take_left' q.header.length_bytes, Header.ofBytes_bytes] at hheader
  have hstart : (c₁.startRecord q.header).Between :=
    ⟨⟨hbt.isReader, hbt.rdNext_le, hbt.buffStop_le, hbt.bufflen_pos⟩, hbt.isClosed, hbt.rdNext_eq⟩
  have hentered : (c₁.startRecord q.header).view = c.view.entered q post := by
    rw [hbt.view_startRecord, hview]
    simp [View.enterRecord, View.startRecord, View.entered, View.inRecord, hinput,
      List.drop_left' q.header.length_bytes]
  have heor : (c₁.startRecord q.header).stream.eorStop = true := congrArg View.eorStop hentered
  refine ⟨c₁, hheader, hstart, hentered, hbufflen, heor, _, hreads, .inl ?_⟩
  have hunread : c₁.unread = c.view.input.drop 8 := congrArg View.input hview
  show c₁.unread.length ≤ _
  rw [hunread, List.length_drop]

/-- **`FillBuffProc` in front of a query.** -/
theorem query_ends (h : c.Between) (hv : c.view.Boundary) (hq : q.Query)
    (hwire : c.unread = q.encode ++ post) : ∃ s c', QueryEnds c q post s c' := by
  obtain ⟨c₁, hheader, hstart, hentered, hlazy⟩ := enters_record h hv hwire
  have heor : (c₁.startRecord q.header).stream.eorStop = true := congrArg View.eorStop hentered
  have hf : FillSpec (fillBuffProcAt 1) (c₁.startRecord q.header).stream.eorStop := by
    rw [heor]
    exact fillSpec_eorStop 0
  have hd : Delivers (c₁.startRecord q.header).view (c.view.visible q)
      (eorContent (c.view.entered q post)).2 := by
    rw [hentered, ← eorContent_fst c.view q post]
    exact delivers_eor rfl
  obtain ⟨⟨rc, params, c'⟩, hread, hparams⟩ := readParams_spec hf hstart.toOpen hd (newParams 3)
  have hresult := hparams.result
  rw [parsePairs_visible hq] at hresult
  obtain ⟨rfl, hend⟩ : rc = 0 ∧ c'.view = _ := hresult
  obtain ⟨s, hs, hto, hget⟩ := readParams_last (lazy_readInvariant h.bufflen_pos 0) hf
    hstart.toOpen hd hlazy hread
  have hds := hto.delivers hd
  have hrdNext := hds.nothing_buffered hto.1
  obtain ⟨hopen, xs, hxs, hsreads⟩ := hto
  rw [List.append_nil] at hxs
  rw [hentered, ← hxs] at hsreads
  refine ⟨s, c', ⟨getValuesReply c'.os.stale params.entries, ?_⟩, hparams.closed, hend, hs,
    hopen, hrdNext, hsreads, ?_⟩
  · have hquery : q.header.version = fcgiVersion1 ∧ q.header.type.toNat = fcgiGetValues ∧
        q.header.requestId = fcgiNullRequestId :=
      ⟨q.header_version, by rw [q.header_type]; exact hq.type,
        q.header_requestId.trans hq.requestId⟩
    rw [Chan.firstReply, hheader]
    simp only
    rw [if_pos hquery, queryReply, hread]
  · have hguard : ¬(s.stream.isClosed || !s.stream.isReader) = true := by
      simp [hopen.isClosed, hopen.isReader]
    generalize hx : (none : Option UInt8) = x at hget
    cases getsChar_fcgxGetChar hget with
    | refused hrefused => exact absurd hrefused hguard
    | buffered _ hne => exact absurd hrdNext hne
    | ended _ _ hfill _ => exact hfill
    | filled => cases hx

/-- Where something is left of the record behind what is delivered, or something follows it,
the end of the record is found without an error. -/
theorem errno_ended (hv : c.view.Boundary) (hmore : 0 < c.view.rest q ∨ post ≠ []) :
    (eorContent (c.view.entered q post)).2.errno = c.stream.fcgiErrno := by
  by_cases hpadding : q.padding ++ post = []
  · rw [List.append_eq_nil_iff] at hpadding
    have hrest := hmore.resolve_right (not_not_intro hpadding.2)
    simp only [View.rest, hpadding.1, List.length_nil, Nat.add_zero] at hrest
    split at hrest
    · next hskip =>
        rw [eorContent_entered_skip hv (List.length_pos_iff.mp hrest) hskip]
        rfl
    · omega
  · rw [eorContent_entered hv hpadding]
    rfl

theorem QueryEnds.answers_iff {s c' : Chan} (h : QueryEnds c q post s c') (r : ℕ) :
    c.AnswersAtOnce r ↔
      c'.stream.fcgiErrno = 0 ∧ Os.ReadsWhile c.stream.bufflen r c.os c'.os := by
  obtain ⟨reply, hreply⟩ := h.reply
  by_cases herrno : c'.stream.fcgiErrno = 0
  · have hok : ¬(c'.stream.fcgiErrno ≠ 0 ∨ c'.stream.contentLen ≠ 0) := by
      simp [herrno, h.closed.contentLen herrno]
    rw [if_neg hok] at hreply
    constructor
    · rintro ⟨reply', c'', hreply', herrno', hreads⟩
      cases hreply.symm.trans hreply'
      exact ⟨herrno', hreads⟩
    · exact fun ⟨herrno', hreads⟩ => ⟨reply, c', hreply, herrno', hreads⟩
  · rw [if_pos (.inl herrno)] at hreply
    refine iff_of_false ?_ fun hboth => herrno hboth.1
    rintro ⟨reply', c'', hreply', -⟩
    cases hreply.symm.trans hreply'

/-- **When a query is answered from the record itself.** -/
theorem query_answersAtOnce_iff (h : c.Between) (hv : c.view.Boundary) (hq : q.Query)
    (hwire : c.unread = q.encode ++ post) :
    c.AnswersAtOnce post.length ↔
      c.stream.fcgiErrno = 0 ∧
        (q.padding ≠ [] ∨ c.stream.skip = true ∧ q.content ≠ [] ∨
          ¬Os.CutAt c.stream.bufflen post.length c.os) := by
  obtain ⟨s, c', hends⟩ := query_ends h hv hq hwire
  obtain ⟨hskip, hrest, hinput⟩ := view_of_read hends.reads
  have hcontent : s.view.contentLen = s.stream.contentLen := by
    simp [Chan.view, hends.isOpen.isClosed, hends.rdNext_eq]
  have hpadding : s.view.paddingLen = s.stream.paddingLen := by
    simp [Chan.view, hends.isOpen.isClosed]
  rw [hcontent, hpadding] at hrest hinput
  rw [hcontent] at hskip
  have hinput : s.unread.length = _ := hinput
  have herrno : c'.stream.fcgiErrno = _ := congrArg View.errno hends.view_eq
  -- between two calls no read has been made for what is still to come
  obtain ⟨u, hreads, hle | ⟨-, hclosed | hlt⟩⟩ := hends.lazy.reads
  rotate_left
  · cases hends.isOpen.isClosed.symm.trans hclosed
  · have heq := hends.rdNext_eq
    omega
  replace hreads : Os.ReadsWhile c.stream.bufflen post.length c.os s.os :=
    hreads.mono (by omega)
  have hpos : q.padding ≠ [] ∨ c.stream.skip = true ∧ q.content ≠ [] ↔ 0 < c.view.rest q :=
    (c.view.rest_pos q).symm
  rw [hends.answers_iff, ← or_assoc, hpos]
  by_cases hleft : 0 < c.view.rest q
  · have hrun : Os.ReadsWhile c.stream.bufflen post.length c.os c'.os :=
      fill_inRest h.bufflen_pos ⟨⟨hends.lazy.bufflen, hends.lazy.eorStop,
        hends.isOpen.rdNext_le, hskip, hinput, hreads⟩, by omega⟩ hends.fill
    rw [herrno, errno_ended hv (.inl hleft)]
    exact and_congr_right fun _ => iff_of_true hrun (.inl hleft)
  · have hlength := length_unread s
    rcases fill_atEnd hends.isOpen.bufflen_pos hends.lazy.eorStop (by omega) (by omega)
      hends.fill with ⟨hne, hos⟩ | ⟨hempty, hread⟩
    · -- the chunk goes on behind the query
      have hbuffered := hends.isOpen.rdNext_le
      have hpost : post ≠ [] := by
        rw [← List.length_pos_iff]
        omega
      rw [herrno, errno_ended hv (.inr hpost), hos]
      refine and_congr_right fun _ => iff_of_true hreads (.inr ?_)
      rintro ⟨os', hcut, hlen⟩
      have heq := hreads.unique hcut (by omega) (by omega)
      rw [← heq] at hlen
      omega
    · -- the chunk ends with the query
      have hcut : Os.CutAt c.stream.bufflen post.length c.os := ⟨s.os, hreads, by omega⟩
      refine iff_of_false ?_ fun hboth => hboth.2.elim hleft (not_not_intro hcut)
      rintro ⟨hzero, hrun⟩
      obtain ⟨chunk, hread⟩ := hread.resolve_left (not_not_intro hzero)
      have hshorter := osRead_shorter hends.isOpen.bufflen_pos hread
      have heq := hreads.unique hrun (by omega) (by omega)
      rw [← heq] at hshorter
      omega

end Query

/-- A query for `FCGI_MPXS_CONNS`, with one byte of padding or none. -/
def mpxsQuery (padding : List UInt8) (h : padding.length ≤ 255) : Record :=
  dataRecord fcgiGetValues fcgiNullRequestId ([15, 0] ++ fcgiMpxsConns) padding (by decide) h

theorem query_mpxsQuery (padding : List UInt8) (h : padding.length ≤ 255) :
    (mpxsQuery padding h).Query where
  type := rfl
  requestId := rfl
  pairs := by
    show (parsePairs ([15, 0] ++ fcgiMpxsConns)).2 = none
    decide

/-- A query with padding that arrives byte by byte, and nothing behind it. -/
theorem query_answersAtOnce_iff_padded :
    (stdinReader (.sending (mpxsQuery [0] (by decide)).encode (List.replicate 26 0)
      [])).AnswersAtOnce 0 := by
  have hwire : (stdinReader (.sending (mpxsQuery [0] (by decide)).encode (List.replicate 26 0)
      [])).unread = (mpxsQuery [0] (by decide)).encode ++ [] := by
    simp [Chan.unread, stdinReader, setReaderType, newStream, Os.sending]
  have hboundary := stdinReader_atBoundary
    (.sending (mpxsQuery [0] (by decide)).encode (List.replicate 26 0) [])
  exact (query_answersAtOnce_iff hboundary.toBetween hboundary.view_boundary
    (query_mpxsQuery [0] (by decide)) hwire).mpr ⟨rfl, .inl (by decide)⟩

/-- A reader of a query without padding and of two bytes that arrive in a chunk of their own. -/
def mpxsReader : Chan :=
  stdinReader (.sending ((mpxsQuery [] nil_padding_le).encode ++ [1, 2]) [24, 1] [])

/-- **A query without padding is not answered from the record**: where the peer closes behind
it there is no reply, and where it goes on in a chunk of its own that chunk is read first. -/
theorem query_waits :
    (stdinReader (.sending (mpxsQuery [] (by decide)).encode [] [])).firstReply = none ∧
      mpxsReader.firstReply.map (fun x => x.2.os.incoming) = some [] ∧
      ¬mpxsReader.AnswersAtOnce 2 := by
  have hreply : mpxsReader.firstReply.map (fun x => x.2.os.incoming) = some [] := by
    decide +kernel
  refine ⟨Option.isNone_iff_eq_none.mp (by decide +kernel), hreply, ?_⟩
  rintro ⟨reply, c', heq, -, hreads⟩
  rw [heq] at hreply
  have hempty : c'.os.incoming = [] := Option.some.inj hreply
  -- the first chunk is the query, and the next one is read while 2 bytes are missing
  generalize hos : mpxsReader.os = os at hreads
  cases hreads with
  | refl _ =>
      have hsome : mpxsReader.os.incoming ≠ [] := by decide
      exact hsome (hos ▸ hempty)
  | @read _ os₁ _ _ _ hread hreads =>
      have hrest : (osRead mpxsReader.os mpxsReader.stream.bufflen).2.incoming = [1, 2] := by
        decide
      rw [hos, hread] at hrest
      have hrest : os₁.incoming = [1, 2] := hrest
      cases hreads with
      | refl _ => exact nomatch hempty.symm.trans hrest
      | read hr _ _ =>
          rw [hrest] at hr
          exact absurd hr (by decide)

end FastCgi
