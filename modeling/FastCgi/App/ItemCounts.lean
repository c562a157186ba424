import FastCgi.App.RefusedWrites

/-!
`FCGI_fread` and `FCGI_fwrite` (`libfcgi/fcgi_stdio.c`).

They divide the `int` that `FCGX_GetStr` or `FCGX_PutStr` returns by the
`size_t` that is the size of an item. For -1, the EOF of `FCGX_PutStr`, that
is a huge number. So the count of `FCGI_fread` is right on every stream, and
that of `FCGI_fwrite` where all bytes can be put (`items_counted_iff`), which
is a matter of the room in the buffer and of what `OS_Write` takes.
-/

namespace FastCgi

open ByteMem BoundedLoop

/-! ### The calls -/

/-- An `int` as a `size_t`. -/
def sizeT (n : ℤ) : ℕ := (n % 18446744073709551616).toNat

/-- `size * nmemb`, passed as an `int`. -/
def byteCount (size nmemb : ℕ) : ℤ := Int.bmod (size * nmemb % 18446744073709551616 : ℕ) 4294967296

/-- `FCGI_FILE`, with the streams its pointers refer to; those of the C library are of the
type `σ`. -/
structure FcgiFilePtr (σ : Type*) where
  stdioStream : Option σ
  fcgxStream : Option Chan

variable {σ : Type*}

/-- `FCGI_fread`, where `fread` is that of the C library: the count, and the bytes stored
at `ptr`. -/
def fcgiFread (fread : ℕ → ℕ → σ → ℕ × List UInt8 × σ) (size nmemb : ℕ) (fp : FcgiFilePtr σ) :
    Option (ℕ × List UInt8 × FcgiFilePtr σ) :=
  match fp.stdioStream, fp.fcgxStream with
  | some s, _ =>
      let (n, bs, s) := fread size nmemb s
      some (n, bs, { fp with stdioStream := some s })
  | none, some c =>
      if size * nmemb % 18446744073709551616 = 0 then some (0, [], fp)
      else
        match fcgxGetStr fillBuffProc (byteCount size nmemb) c with
        | none => none
        | some (bs, c) => some (sizeT bs.length / size, bs, { fp with fcgxStream := some c })
  | none, none => some (sizeT (-1), [], fp)

/-- `FCGI_fwrite` of what is at `ptr`; `none` is a negative number of bytes, which
`FCGX_PutStr` would copy. -/
def fcgiFwrite (fwrite : (ℕ → UInt8) → ℕ → ℕ → σ → ℕ × σ) (ptr : ℕ → UInt8) (size nmemb : ℕ)
    (fp : FcgiFilePtr σ) : Option (ℕ × FcgiFilePtr σ) :=
  match fp.stdioStream, fp.fcgxStream with
  | some s, _ =>
      let (n, s) := fwrite ptr size nmemb s
      some (n, { fp with stdioStream := some s })
  | none, some c =>
      if size * nmemb % 18446744073709551616 = 0 then some (0, fp)
      else if byteCount size nmemb < 0 then none
      else
        match fcgxPutStr (slice ptr 0 (byteCount size nmemb).toNat) c with
        | none => none
        | some (n, c) => some (sizeT n / size, { fp with fcgxStream := some c })
  | none, none => some (sizeT (-1), fp)

/-- A FastCGI stream. -/
def fcgxFile (c : Chan) : FcgiFilePtr σ := { stdioStream := none, fcgxStream := some c }

theorem byteCount_eq {size nmemb : ℕ} (hint : size * nmemb ≤ intMax) :
    size * nmemb % 18446744073709551616 = size * nmemb ∧
      byteCount size nmemb = (size * nmemb : ℕ) := by
  have hmax : size * nmemb ≤ 2147483647 := hint
  have hmod : size * nmemb % 18446744073709551616 = size * nmemb := by omega
  refine ⟨hmod, ?_⟩
  unfold byteCount
  rw [hmod]
  exact bmod_of_le_intMax hmax

/-! ### Reading -/

/-- The end of the stream, or an error on it, has been met. -/
def Chan.MetEnd (c : Chan) : Prop := c.stream.isClosed = true ∨ c.stream.isReader = false

/-- At most `n` bytes have been read, and fewer only if the end was met. -/
structure ReadUpTo (n : ℕ) (bs : List UInt8) (c : Chan) : Prop where
  length_le : bs.length ≤ n
  short : bs.length < n → c.MetEnd

theorem getStrFill_upTo {fill : Chan → Option Chan} {n : ℕ} {y : List UInt8 × Chan}
    {p : Pass (List UInt8 × Chan) (List UInt8 × Chan)} (hle : y.1.length ≤ n)
    (hpass : getStrFill fill y = some p) :
    p.Holds (fun x => x.1.length ≤ n) fun x => ReadUpTo n x.1 x.2 := by
  rw [getStrFill] at hpass
  split at hpass
  · next hend =>
      cases hpass
      refine ⟨hle, fun _ => ?_⟩
      rcases Bool.or_eq_true_iff.mp hend with hclosed | hwriter
      · exact .inl hclosed
      · exact .inr (by simpa using hwriter)
  · split at hpass
    · cases hpass
    · next c hfill =>
        split at hpass
        · next hclosed =>
            cases hpass
            exact ⟨hle, fun _ => .inl hclosed⟩
        · cases hpass
          exact hle

theorem fcgxGetStr_upTo {fill : Chan → Option Chan} {n : ℕ} {c c' : Chan} {bs : List UInt8}
    (hget : fcgxGetStr fill n c = some (bs, c')) : ReadUpTo n bs c' := by
  rw [fcgxGetStr] at hget
  split at hget
  · next hend =>
      cases hget
      refine ⟨Nat.zero_le n, fun hlt => ?_⟩
      have hpos : ¬(n : ℤ) ≤ 0 := by
        rw [List.length_nil] at hlt
        omega
      rw [decide_eq_false hpos, Bool.or_false, Bool.or_eq_true_iff] at hend
      exact hend.imp_right fun hwriter => by simpa using hwriter
  · rw [Int.toNat_natCast] at hget
    split at hget
    · cases hget
      have hlen : (takeBytes n c).1.length = n := length_takeBytes n c
      exact ⟨hlen.le, fun hlt => absurd hlen (Nat.ne_of_lt hlt)⟩
    · refine run_invariant (I := fun x => x.1.length ≤ n) (P := fun x => ReadUpTo n x.1 x.2) ?_
        (Nat.zero_le n) hget
      intro x p hle hpass
      dsimp only [getStrBody] at hpass
      split at hpass
      · exact getStrFill_upTo hle hpass
      · split at hpass
        · next hall =>
            cases hpass
            exact ⟨hall.le, fun hlt => absurd hall (Nat.ne_of_lt hlt)⟩
        · refine getStrFill_upTo ?_ hpass
          dsimp only
          rw [List.length_append, length_takeBytes]
          omega

/-! ### Writing -/

/-- What is left of the results of `OS_Write` behind a write of `len` bytes by `write_it_all`;
`none` if a call fails. -/
def sendResults (writeEnd : Option Errno) : ℕ → List WriteResult → Option (List WriteResult)
  | 0, rs => some rs
  | _ + 1, [] => if writeEnd = none then some [] else none
  | len + 1, .accept k :: rs => sendResults writeEnd (len - k) rs
  | _ + 1, .fail _ :: _ => none

/-- So many writes of `len` bytes go through. -/
def sendsBlocks (writeEnd : Option Errno) (len : ℕ) : ℕ → List WriteResult → Bool
  | 0, _ => true
  | n + 1, rs =>
      match sendResults writeEnd len rs with
      | none => false
      | some rs => sendsBlocks writeEnd len n rs

/-- How often the buffer has to go out before there is room for `n` bytes more. -/
def Stream.flushes (s : Stream) (n : ℕ) : ℕ :=
  (n - (s.stop - s.wrNext) + (s.stop - 8 - 1)) / (s.stop - 8)

/-- There is room for `n` bytes, or the stream is an open writer and `OS_Write` takes the full
buffers that have to go out before there is. -/
def Chan.HasRoom (c : Chan) (n : ℕ) : Prop :=
  n ≤ c.stream.stop - c.stream.wrNext ∨
    c.stream.isReader = false ∧ c.stream.isClosed = false ∧
      sendsBlocks c.os.writeEnd c.stream.stop (c.stream.flushes n) c.os.writeResults = true

@[simp] theorem sendResults_zero (writeEnd : Option Errno) (rs : List WriteResult) :
    sendResults writeEnd 0 rs = some rs := by
  cases rs with
  | nil => rfl
  | cons r rs => cases r <;> rfl

theorem writeItAllLoop_nil (fuel : ℕ) (os : Os) : writeItAllLoop fuel os [] = (.ok (), os) := by
  cases fuel <;> rfl

/-- **`write_it_all`** goes through where the results say so. -/
theorem writeItAllLoop_results {fuel : ℕ} {os : Os} {buf : List UInt8} (hfuel : buf.length ≤ fuel) :
    (∀ rs, sendResults os.writeEnd buf.length os.writeResults = some rs →
        (writeItAllLoop fuel os buf).1 = .ok () ∧
          (writeItAllLoop fuel os buf).2.writeResults = rs) ∧
      (sendResults os.writeEnd buf.length os.writeResults = none →
        ∃ e, (writeItAllLoop fuel os buf).1 = .error e) := by
  induction fuel generalizing os buf with
  | zero =>
      obtain rfl := List.length_eq_zero_iff.mp (Nat.le_zero.mp hfuel)
      rw [List.length_nil, sendResults_zero]
      exact ⟨fun rs hrs => ⟨rfl, Option.some.inj hrs⟩, fun hnone => by cases hnone⟩
  | succ fuel ih =>
      cases buf with
      | nil =>
          rw [List.length_nil, sendResults_zero]
          exact ⟨fun rs hrs => ⟨rfl, Option.some.inj hrs⟩, fun hnone => by cases hnone⟩
      | cons b buf =>
          rw [List.length_cons] at hfuel
          rw [writeItAllLoop, if_neg (List.cons_ne_nil b buf), osWrite]
          cases hrs : os.writeResults with
          | nil =>
              cases hend : os.writeEnd with
              | none =>
                  dsimp only
                  rw [List.drop_length, writeItAllLoop_nil]
                  exact ⟨fun rs hsome => ⟨rfl, Option.some.inj hsome⟩, fun hnone => by cases hnone⟩
              | some e => exact ⟨fun rs hsome => (by cases hsome), fun _ => ⟨e, rfl⟩⟩
          | cons result rs =>
              cases result with
              | fail e => exact ⟨fun rs hsome => (by cases hsome), fun _ => ⟨e, rfl⟩⟩
              | accept k =>
                  have hleft : ((b :: buf).drop (min (k + 1) (b :: buf).length)).length =
                      buf.length - k := by
                    rw [List.length_drop, List.length_cons]
                    omega
                  have hrest := @ih { os with
                    writeResults := rs
                    log := os.log ++ [⟨b :: buf, (min (k + 1) (b :: buf).length : ℕ)⟩] }
                    ((b :: buf).drop (min (k + 1) (b :: buf).length)) (by omega)
                  rw [hleft] at hrest
                  exact hrest

theorem writeItAll_results {os : Os} {buf : List UInt8} {n : ℕ} (hlen : buf.length = n) :
    (∀ rs, sendResults os.writeEnd n os.writeResults = some rs →
        (writeItAll os buf).1 = .ok () ∧ (writeItAll os buf).2.writeResults = rs) ∧
      (sendResults os.writeEnd n os.writeResults = none →
        ∃ e, (writeItAll os buf).1 = .error e) := by
  subst hlen
  exact writeItAllLoop_results (Nat.le_refl _)

/-- A full buffer goes out, or its flush closes the stream. -/
theorem emptyBuffProc_full {c : Chan} (h : c.stream.Plain) (hopen : c.stream.isClosed = false)
    (hfull : c.stream.wrNext = c.stream.stop) :
    (∀ rs, sendResults c.os.writeEnd c.stream.stop c.os.writeResults = some rs →
        (emptyBuffProc c).stream.Plain ∧ (emptyBuffProc c).stream.isClosed = false ∧
          (emptyBuffProc c).stream.wrNext = 8 ∧
          (emptyBuffProc c).stream.stop = c.stream.stop ∧
          (emptyBuffProc c).os.writeResults = rs ∧
          (emptyBuffProc c).os.writeEnd = c.os.writeEnd) ∧
      (sendResults c.os.writeEnd c.stream.stop c.os.writeResults = none →
        (emptyBuffProc c).stream.isClosed = true ∧
          (emptyBuffProc c).stream.wrNext = (emptyBuffProc c).stream.stop) := by
  have hraw := h.rawWrite hopen
  have hfclose := h.wasFCloseCalled hopen
  have hstop := h.stop_eq hfclose
  have hge := h.bufflen_ge
  have hwriter := (emptyBuffProc_grows h.toIsWriter hfclose).isWriter
  obtain ⟨hos, hclosed, hstop', -, hraw'⟩ := encapsulate_frame c
  have hcontent : 8 < c.stream.wrNext := by omega
  have hend : (encapsulate c).stream.wrNext = c.stream.stop := by
    rw [encapsulate_wrNext hraw, if_pos hcontent]
    exact (h.recordEnd_eq_iff hfclose hcontent).mpr (by omega)
  obtain ⟨buf, hbuf⟩ : ∃ buf, slice (encapsulate c).stream.buff 0 c.stream.stop = buf := ⟨_, rfl⟩
  have hlen : buf.length = c.stream.stop := by rw [← hbuf, length_slice]
  have hresults := @writeItAll_results c.os _ _ hlen
  obtain ⟨hgoes, hfails⟩ := hresults
  obtain ⟨rs', log', hframe⟩ := writeItAllLoop_frame buf.length c.os buf
  rw [← writeItAll] at hframe
  have hwrite : emptyBuffProc c = writeBuff (encapsulate c) := by
    rw [emptyBuffProc, flushBuff, if_pos (by rw [hend]; omega)]
  have hcall : writeItAll (encapsulate c).os
      (slice (encapsulate c).stream.buff 0 (encapsulate c).stream.wrNext) =
        writeItAll c.os buf := by
    rw [hend, hos, hbuf]
  rcases hx : writeItAll c.os buf with ⟨res, os'⟩
  rw [hx] at hgoes hfails hframe hcall
  dsimp only at hgoes hfails hframe
  rw [writeBuff] at hwrite
  simp only [hcall] at hwrite
  refine ⟨fun rs hrs => ?_, fun hnone => ?_⟩
  · obtain ⟨rfl, rfl⟩ := hgoes rs hrs
    simp only [reserveHeader, hraw', hraw, Bool.false_eq_true, if_false] at hwrite
    rw [hwrite] at hwriter ⊢
    refine ⟨⟨hwriter, fun _ => rfl⟩, hclosed.trans hopen, rfl, hstop', rfl, ?_⟩
    rw [hframe]
  · obtain ⟨e, rfl⟩ := hfails hnone
    rw [hwrite]
    exact ⟨rfl, hend.trans hstop'.symm⟩

theorem ceilDiv_succ {d len : ℕ} (hlen : 0 < len) (hd : 0 < d) :
    (d + (len - 1)) / len = (d - len + (len - 1)) / len + 1 := by
  by_cases hle : d ≤ len
  · have hsum : d + (len - 1) = d - 1 + len := by omega
    rw [hsum, Nat.add_div_right _ hlen, Nat.div_eq_of_lt (by omega), Nat.div_eq_of_lt (by omega)]
  · have hsum : d + (len - 1) = d - len + (len - 1) + len := by omega
    rw [hsum, Nat.add_div_right _ hlen]

theorem Stream.flushes_eq_zero_iff {s : Stream} (hstop : 8 < s.stop) {n : ℕ} :
    s.flushes n = 0 ↔ n ≤ s.stop - s.wrNext := by
  have hlen : 0 < s.stop - 8 := by omega
  rw [Stream.flushes]
  constructor
  · intro hzero
    by_contra hlt
    rw [ceilDiv_succ hlen (by omega)] at hzero
    exact absurd hzero (Nat.succ_ne_zero _)
  · intro hle
    rw [Nat.sub_eq_zero_of_le hle, Nat.zero_add, Nat.div_eq_of_lt (by omega)]

/-- One flush less is needed once a full buffer has gone out. -/
theorem Stream.flushes_emptied {s s' : Stream} (hstop : 8 < s.stop) (hsame : s'.stop = s.stop)
    (hnext : s'.wrNext = 8) {n : ℕ} (hlt : s.stop - s.wrNext < n) :
    s.flushes n = s'.flushes (n - (s.stop - s.wrNext)) + 1 := by
  rw [Stream.flushes, Stream.flushes, hsame, hnext]
  exact ceilDiv_succ (by omega) (by omega)

/-- Bytes for which there is no room at once: the buffer is filled. -/
theorem putChars_noRoom {c : Chan} (h : c.stream.Plain) {str : List UInt8}
    (hlt : c.stream.stop - c.stream.wrNext < str.length) :
    ∃ c₁ rest, putChars str c = putChars rest c₁ ∧ rest ≠ [] ∧
      rest.length = str.length - (c.stream.stop - c.stream.wrNext) ∧ c₁.stream.Plain ∧
      c₁.stream.isClosed = c.stream.isClosed ∧ c₁.stream.wrNext = c₁.stream.stop ∧
      c₁.stream.stop = c.stream.stop ∧ c₁.os = c.os := by
  have hle := h.wrNext_le
  obtain ⟨room, hroom⟩ : ∃ room, c.stream.stop - c.stream.wrNext = room := ⟨_, rfl⟩
  rw [hroom] at hlt ⊢
  have hlen : (str.take room).length = room := by
    rw [List.length_take]
    omega
  refine ⟨c.put (str.take room), str.drop room, ?_, ?_, List.length_drop,
    ⟨h.put (by omega), h.rawWrite⟩, rfl, ?_, rfl, rfl⟩
  · rw [← List.take_append_drop room str, putChars_append, putChars_room hle (by omega),
      List.take_append_drop]
    rfl
  · simpa using hlt
  · show c.stream.wrNext + (str.take room).length = c.stream.stop
    omega

/-- The bytes are all put into an open stream exactly if the full buffers go out. -/
theorem putChars_open_iff {c : Chan} (h : c.stream.Plain) (hopen : c.stream.isClosed = false)
    {str : List UInt8} {n : ℕ} (hn : c.stream.flushes str.length = n) :
    (∃ c', putChars str c = some (true, c')) ↔
      sendsBlocks c.os.writeEnd c.stream.stop n c.os.writeResults = true := by
  have hstop : 8 < c.stream.stop := by
    have hge := h.bufflen_ge
    rw [h.stop_eq (h.wasFCloseCalled hopen)]
    omega
  induction n generalizing c str with
  | zero =>
      have hle := (Stream.flushes_eq_zero_iff hstop).mp hn
      rw [sendsBlocks, putChars_room h.wrNext_le hle]
      exact ⟨fun _ => rfl, fun _ => ⟨_, rfl⟩⟩
  | succ n ih =>
      have hlt : c.stream.stop - c.stream.wrNext < str.length := by
        by_contra hle
        rw [(Stream.flushes_eq_zero_iff hstop).mpr (Nat.le_of_not_lt hle)] at hn
        cases hn
      obtain ⟨c₁, rest, hput, hrest, hlen, h₁, hopen₁, hfull₁, hstop₁, hos₁⟩ :=
        putChars_noRoom h hlt
      obtain ⟨hgoes, hfails⟩ := emptyBuffProc_full h₁ (hopen₁.trans hopen) hfull₁
      rw [hstop₁, hos₁] at hgoes hfails
      rw [hput, putChars_empty h₁.toIsWriter hrest hfull₁ (hopen₁.trans hopen), sendsBlocks]
      cases hsend : sendResults c.os.writeEnd c.stream.stop c.os.writeResults with
      | none =>
          obtain ⟨hclosed₂, hfull₂⟩ := hfails hsend
          rw [putChars_closed hrest hfull₂ hclosed₂]
          simp
      | some rs =>
          obtain ⟨h₂, hopen₂, hnext₂, hstop₂, hrs₂, hend₂⟩ := hgoes rs hsend
          have hn₂ : (emptyBuffProc c₁).stream.flushes rest.length = n := by
            rw [Stream.flushes_emptied hstop hstop₂ hnext₂ hlt, ← hlen] at hn
            exact Nat.succ.inj hn
          have hrec := ih h₂ hopen₂ hn₂ (hstop₂ ▸ hstop)
          rwa [hstop₂, hrs₂, hend₂] at hrec

/-- **The bytes are all put exactly if there is room for them**, at once or when full buffers
have gone out. -/
theorem putChars_iff {c : Chan} (h : c.stream.Plain) {str : List UInt8} :
    (∃ c', putChars str c = some (true, c')) ↔ c.HasRoom str.length := by
  rw [Chan.HasRoom]
  by_cases hle : str.length ≤ c.stream.stop - c.stream.wrNext
  · rw [putChars_room h.wrNext_le hle]
    exact ⟨fun _ => .inl hle, fun _ => ⟨_, rfl⟩⟩
  · rw [or_iff_right hle, and_iff_right h.isReader]
    cases hclosed : c.stream.isClosed with
    | false =>
        rw [putChars_open_iff h hclosed rfl]
        simp
    | true =>
        obtain ⟨c₁, rest, hput, hrest, -, -, hclosed₁, hfull₁, -, -⟩ :=
          putChars_noRoom h (Nat.lt_of_not_le hle)
        rw [hput, putChars_closed hrest hfull₁ (hclosed₁.trans hclosed)]
        simp

/-! ### The counts -/

/-- The count of `FCGI_fread`: no more items than asked for or stored, and fewer than asked for
exactly if the end was met before. -/
def ReadCounted (size nmemb : ℕ) (r : Option (ℕ × List UInt8 × FcgiFilePtr σ)) : Prop :=
  ∃ k bs c', r = some (k, bs, fcgxFile c') ∧ k ≤ nmemb ∧ k * size ≤ bs.length ∧
    (k < nmemb ↔ bs.length < size * nmemb ∧ c'.MetEnd)

/-- The count of `FCGI_fwrite` on the stream `c`: no more items than asked for, and fewer
exactly if not all bytes were put. -/
def WriteCounted (ptr : ℕ → UInt8) (size nmemb : ℕ) (c : Chan)
    (r : Option (ℕ × FcgiFilePtr σ)) : Prop :=
  ∃ k c', r = some (k, fcgxFile c') ∧ k ≤ nmemb ∧
    (k = nmemb ↔ putChars (slice ptr 0 (size * nmemb)) c = some (true, c'))

theorem sizeT_natCast {n : ℕ} (h : n ≤ intMax) : sizeT n = n := by
  have hmax : n ≤ 2147483647 := h
  rw [sizeT]
  omega

/-- -1 stands for more items than can be asked for. -/
theorem lt_sizeT_neg {size nmemb : ℕ} (hsize : 1 ≤ size) (hitems : 1 ≤ nmemb)
    (hint : size * nmemb ≤ intMax) : nmemb < sizeT (-1) / size := by
  have hmax : size * nmemb ≤ 2147483647 := hint
  have hsize' : size ≤ 2147483647 := le_trans (Nat.le_mul_of_pos_right size hitems) hmax
  have hone : sizeT (-1) = 18446744073709551615 := by decide
  rw [Nat.lt_div_iff_mul_lt hsize, hone]
  rw [Nat.mul_comm]
  omega

variable {fread : ℕ → ℕ → σ → ℕ × List UInt8 × σ} {fwrite : (ℕ → UInt8) → ℕ → ℕ → σ → ℕ × σ}
  {size nmemb : ℕ} {c : Chan}

/-- A FastCGI stream in any state that calls lead to: the input stream of a request, or a
writer. -/
def Chan.AnyStream (c : Chan) : Prop := c.Usable ∨ c.stream.Plain

theorem fcgxGetStr_total (h : c.AnyStream) (n : ℕ) : ∃ x, fcgxGetStr fillBuffProc n c = some x := by
  rcases h with husable | hplain
  · rcases husable.state with ho | ⟨-, hclosed⟩
    · have hserving : c.Serving := ⟨husable.isBeginProcessed, .inl ho⟩
      exact hserving.returns.getStr n
    · exact ⟨_, ReadCall.perform_closed hclosed (.getStr n)⟩
  · refine ⟨([], c), ?_⟩
    rw [fcgxGetStr, if_pos (by simp [hplain.isReader])]

/-- **`FCGI_fread` counts right.** -/
theorem fcgiFread_counted (h : c.AnyStream) (hsize : 1 ≤ size) (hitems : 1 ≤ nmemb)
    (hint : size * nmemb ≤ intMax) : ReadCounted size nmemb (fcgiFread fread size nmemb (fcgxFile c)) := by
  obtain ⟨hmod, hcount⟩ := byteCount_eq hint
  have hpos : 0 < size * nmemb := Nat.mul_pos hsize hitems
  obtain ⟨⟨bs, c'⟩, hget⟩ := fcgxGetStr_total h (size * nmemb)
  obtain ⟨hle, hshort⟩ := fcgxGetStr_upTo hget
  refine ⟨bs.length / size, bs, c', ?_, ?_, Nat.div_mul_le_self _ _, ?_⟩
  · simp only [fcgiFread, fcgxFile, hmod, if_neg (Nat.ne_of_gt hpos), hcount, hget,
      sizeT_natCast (hle.trans hint)]
  · exact Nat.div_le_of_le_mul hle
  · rw [Nat.div_lt_iff_lt_mul hsize, Nat.mul_comm nmemb size]
    exact ⟨fun hlt => ⟨hlt, hshort hlt⟩, And.left⟩

/-- A reader takes what fits into its buffer, or refuses. -/
theorem fcgxPutStr_noRoom {str : List UInt8} (hreader : c.stream.isReader = true)
    (hlt : c.stream.stop - c.stream.wrNext < str.length) :
    ∃ c', fcgxPutStr str c = some (-1, c') := by
  have hleave (x : ℕ × Chan) (hx : x.2.stream.isReader = true) :
      putStrEmpty x = some (.done (-1, x.2)) := by simp [putStrEmpty, hx]
  obtain ⟨c', hpass⟩ : ∃ c', putStrBody str (0, c) = some (.done (-1, c')) := by
    dsimp only [putStrBody]
    by_cases hfull : c.stream.wrNext = c.stream.stop
    · rw [if_pos hfull]
      exact ⟨_, hleave (0, c) hreader⟩
    · rw [if_neg hfull, if_neg (by omega)]
      exact ⟨_, hleave (_, c.put _) hreader⟩
  rw [fcgxPutStr, if_neg (Nat.not_le_of_lt hlt)]
  exact ⟨c', run_done hpass⟩

/-- The result of `FCGX_PutStr`: the bytes are all put, or it is EOF. -/
theorem fcgxPutStr_hasRoom (h : c.AnyStream) {str : List UInt8} (hstr : str ≠ []) :
    (∃ c', fcgxPutStr str c = some ((str.length : ℤ), c') ∧ putChars str c = some (true, c') ∧
        c.HasRoom str.length) ∨
      ∃ c', fcgxPutStr str c = some (-1, c') ∧ ¬c.HasRoom str.length := by
  have hpos := List.length_pos_iff.mpr hstr
  rcases h with husable | hplain
  · have hreader := husable.buffered.isReader
    have hroom : c.HasRoom str.length ↔ str.length ≤ c.stream.stop - c.stream.wrNext := by
      rw [Chan.HasRoom, hreader]
      simp
    rw [hroom]
    by_cases hle : str.length ≤ c.stream.stop - c.stream.wrNext
    · refine .inl ⟨c.put str, ?_, putChars_room (by omega) hle, hle⟩
      rw [fcgxPutStr, if_pos hle]
    · obtain ⟨c', hput⟩ := fcgxPutStr_noRoom hreader (Nat.lt_of_not_le hle)
      exact .inr ⟨c', hput, hle⟩
  · rw [← putChars_iff hplain]
    obtain ⟨ok, c', hchars, -, hput⟩ := putChars_total hplain.toIsWriter str
    cases ok with
    | true => exact .inl ⟨c', hput, hchars, c', hchars⟩
    | false =>
        refine .inr ⟨c', hput, ?_⟩
        rintro ⟨c'', htrue⟩
        rw [hchars] at htrue
        cases htrue

/-- **`FCGI_fwrite` counts right exactly if there is room.** -/
theorem fcgiFwrite_counted_iff (h : c.AnyStream) (hsize : 1 ≤ size) (hitems : 1 ≤ nmemb)
    (hint : size * nmemb ≤ intMax) (ptr : ℕ → UInt8) :
    WriteCounted ptr size nmemb c (fcgiFwrite fwrite ptr size nmemb (fcgxFile c)) ↔
      c.HasRoom (size * nmemb) := by
  obtain ⟨hmod, hcount⟩ := byteCount_eq hint
  have hpos : 0 < size * nmemb := Nat.mul_pos hsize hitems
  have hlen : (slice ptr 0 (size * nmemb)).length = size * nmemb := length_slice ..
  have hstr : slice ptr 0 (size * nmemb) ≠ [] := List.length_pos_iff.mp (by omega)
  have hresult : ∀ z c', fcgxPutStr (slice ptr 0 (size * nmemb)) c = some (z, c') →
      fcgiFwrite fwrite ptr size nmemb (fcgxFile c) = some (sizeT z / size, fcgxFile c') := by
    intro z c' hput
    simp only [fcgiFwrite, fcgxFile, hmod, if_neg (Nat.ne_of_gt hpos), hcount,
      if_neg (Int.not_lt.mpr (Int.natCast_nonneg (size * nmemb))), Int.toNat_natCast, hput]
  rw [WriteCounted]
  rcases fcgxPutStr_hasRoom h hstr with ⟨c', hput, hchars, hroom⟩ | ⟨c', hput, hroom⟩
  · rw [hlen] at hput hroom
    refine ⟨fun _ => hroom, fun _ => ⟨nmemb, c', ?_, Nat.le_refl _, fun _ => hchars, fun _ => rfl⟩⟩
    rw [hresult _ _ hput, sizeT_natCast hint, Nat.mul_div_cancel_left _ hsize]
  · rw [hlen] at hroom
    refine ⟨?_, fun htrue => absurd htrue hroom⟩
    rintro ⟨k, c'', hrun, hle, -⟩
    rw [hresult _ _ hput] at hrun
    obtain ⟨rfl, -⟩ := Prod.mk.inj (Option.some.inj hrun)
    exact absurd hle (Nat.not_le_of_lt (lt_sizeT_neg hsize hitems hint))

/-- **The counts of items.** That of `FCGI_fread` is right on every stream, and that of
`FCGI_fwrite` exactly where there is room for the bytes or `OS_Write` takes what has to go out
for it. -/
theorem items_counted_iff (fread : ℕ → ℕ → σ → ℕ × List UInt8 × σ)
    (fwrite : (ℕ → UInt8) → ℕ → ℕ → σ → ℕ × σ) (h : c.AnyStream) (hsize : 1 ≤ size)
    (hitems : 1 ≤ nmemb) (hint : size * nmemb ≤ intMax) (ptr : ℕ → UInt8) :
    ReadCounted size nmemb (fcgiFread fread size nmemb (fcgxFile c)) ∧
      (WriteCounted ptr size nmemb c (fcgiFwrite fwrite ptr size nmemb (fcgxFile c)) ↔
        c.HasRoom (size * nmemb)) :=
  ⟨fcgiFread_counted h hsize hitems hint, fcgiFwrite_counted_iff h hsize hitems hint ptr⟩

/-- A writer with the smallest buffer, on a connection that takes one write. -/
theorem items_counted_iff_narrow :
    ReadCounted 4 9 (fcgiFread (fun _ _ (s : Unit) => (0, [], s)) 4 9 (fcgxFile narrowWriter)) ∧
      (WriteCounted (fun _ => 65) 4 9 narrowWriter
          (fcgiFwrite (fun _ _ _ (s : Unit) => (0, s)) (fun _ => 65) 4 9 (fcgxFile narrowWriter)) ↔
        narrowWriter.HasRoom (4 * 9)) :=
  items_counted_iff _ _ (.inr (plain_newStream 16 (fun _ => 0) 32 fcgiStdout)) (by decide) (by decide)
    (by decide) _

/-- On a closed stream one byte is not put, and the count is 2^64 - 1. -/
theorem fcgiFwrite_closed :
    ((fcgxFClose narrowWriter).bind fun x => fcgiFwrite (fun _ _ _ (s : Unit) => (0, s))
        (fun _ => 65) 1 1 (fcgxFile x.2)).map Prod.fst = some 18446744073709551615 := by
  decide +kernel

end FastCgi
