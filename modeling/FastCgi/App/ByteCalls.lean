import FastCgi.App.ReaderTotal

/-!
`FCGX_PutStr` and `FCGX_GetStr` against `FCGX_PutChar` and `FCGX_GetChar`.

The calls that move a block have a fast path, copy what fits and go round
again. They do what the calls for single bytes do one after the other, up
to the first that returns EOF: the same state of the stream, the same calls
of the operating system (`fcgxPutStr_bytewise`, `fcgxGetStr_bytewise`). On
both sides the induction is on the passes of the loop, and a pass is a
stretch of bytes followed by at most one call of the buffer procedure.
-/

namespace FastCgi

open ByteMem BoundedLoop Machine

/-! ### Putting -/

/-- `FCGX_PutChar` of the bytes in turn, until a call returns EOF; `false` if one did. -/
def putChars : List UInt8 → Chan → Option (Bool × Chan)
  | [], c => some (true, c)
  | b :: bs, c =>
      match fcgxPutChar b c with
      | none => none
      | some (false, c) => some (false, c)
      | some (true, c) => putChars bs c

/-- `FCGX_PutStr` of the blocks in turn, until a call returns EOF; `false` if one did. -/
def putBlocks : List (List UInt8) → Chan → Option (Bool × Chan)
  | [], c => some (true, c)
  | str :: strs, c =>
      match fcgxPutStr str c with
      | none => none
      | some (n, c) => if n = -1 then some (false, c) else putBlocks strs c

/-- The return value of `FCGX_PutStr`, for `n` bytes all of which were put or not. -/
def putResult (n : ℕ) (r : Bool × Chan) : ℤ × Chan := (if r.1 then n else -1, r.2)

theorem putChars_append (xs ys : List UInt8) (c : Chan) :
    putChars (xs ++ ys) c =
      (putChars xs c).bind fun r => if r.1 then putChars ys r.2 else some r := by
  induction xs generalizing c with
  | nil => rfl
  | cons b xs ih =>
      rw [List.cons_append, putChars, putChars]
      rcases fcgxPutChar b c with _ | ⟨_ | _, c'⟩
      · rfl
      · rfl
      · exact ih c'

theorem Chan.put_put (c : Chan) (xs ys : List UInt8) : (c.put xs).put ys = c.put (xs ++ ys) := by
  simp only [Chan.put, store_store, List.length_append, Nat.add_assoc]

/-- Bytes for which there is room are stored. -/
theorem putChars_room {bs : List UInt8} {c : Chan} (hle : c.stream.wrNext ≤ c.stream.stop)
    (h : bs.length ≤ c.stream.stop - c.stream.wrNext) :
    putChars bs c = some (true, c.put bs) := by
  induction bs generalizing c with
  | nil => rw [putChars, Chan.put_nil]
  | cons b bs ih =>
      rw [List.length_cons] at h
      have hput : fcgxPutChar b c = some (true, c.put [b]) := by
        rw [fcgxPutChar, if_pos (by omega)]
      have hnext : (c.put [b]).stream.wrNext = c.stream.wrNext + 1 := rfl
      have hstop : (c.put [b]).stream.stop = c.stream.stop := rfl
      rw [putChars, hput]
      simp only
      rw [ih (by omega) (by omega), Chan.put_put, List.singleton_append]

theorem putChars_closed {bs : List UInt8} {c : Chan} (hbs : bs ≠ [])
    (hfull : c.stream.wrNext = c.stream.stop) (hclosed : c.stream.isClosed = true) :
    putChars bs c = some (false, c) := by
  obtain ⟨b, bs, rfl⟩ := List.exists_cons_of_ne_nil hbs
  have hput : fcgxPutChar b c = some (false, c) := by simp [fcgxPutChar, hfull, hclosed]
  rw [putChars, hput]

/-- In a full buffer `FCGX_PutChar` starts with the call of `EmptyBuffProc` that
`FCGX_PutStr` makes. -/
theorem putChars_empty {bs : List UInt8} {c : Chan} (h : c.stream.IsWriter) (hbs : bs ≠ [])
    (hfull : c.stream.wrNext = c.stream.stop) (hopen : c.stream.isClosed = false) :
    putChars bs c = putChars bs (emptyBuffProc c) := by
  obtain ⟨b, bs, rfl⟩ := List.exists_cons_of_ne_nil hbs
  have hput : fcgxPutChar b c = fcgxPutChar b (emptyBuffProc c) := by
    have hroom := emptyBuffProc_room h (h.wasFCloseCalled hopen)
    rw [fcgxPutChar, if_neg (by simp [hfull]), if_neg (by simp [hopen, h.isReader]), fcgxPutChar]
    simp only
    split
    · rfl
    · next hfull' =>
        have hclosed := hroom.resolve_right (by omega)
        simp [hclosed]
  rw [putChars, putChars, hput]

/-- A pass of `FCGX_PutStr` that comes to `putStrEmpty` with a full buffer and bytes left. -/
theorem run_putStrEmpty {str : List UInt8} {fuel k : ℕ} {c : Chan} {x : ℕ × Chan}
    (hpass : putStrBody str x = putStrEmpty (k, c)) (h : c.stream.IsWriter) (hk : k < str.length)
    (hfull : c.stream.wrNext = c.stream.stop)
    (ih : c.stream.isClosed = false → run (putStrBody str) fuel (k, emptyBuffProc c) =
      (putChars (str.drop k) (emptyBuffProc c)).map (putResult str.length)) :
    run (putStrBody str) (fuel + 1) x = (putChars (str.drop k) c).map (putResult str.length) := by
  have hbs : str.drop k ≠ [] := by simpa using hk
  cases hclosed : c.stream.isClosed with
  | true =>
      have hdone : putStrEmpty (k, c) = some (.done (-1, c)) := by simp [putStrEmpty, hclosed]
      rw [run_done (hpass.trans hdone), putChars_closed hbs hfull hclosed]
      rfl
  | false =>
      have hagain : putStrEmpty (k, c) = some (.again (k, emptyBuffProc c)) := by
        simp [putStrEmpty, hclosed, h.isReader]
      rw [run_again (hpass.trans hagain), putChars_empty h hbs hfull hclosed]
      exact ih hclosed

/-- The loop of `FCGX_PutStr`, after `k` bytes. -/
theorem run_putStrBody {str : List UInt8} {fuel k : ℕ} {c : Chan} (h : c.stream.IsWriter)
    (hk : k < str.length) (hfuel : str.length - k + c.stream.waits < fuel) :
    run (putStrBody str) fuel (k, c) =
      (putChars (str.drop k) c).map (putResult str.length) := by
  induction fuel generalizing k c with
  | zero => omega
  | succ fuel ih =>
      have hle := h.wrNext_le
      by_cases hfull : c.stream.wrNext = c.stream.stop
      · have hpass : putStrBody str (k, c) = putStrEmpty (k, c) := by rw [putStrBody, if_pos hfull]
        apply run_putStrEmpty hpass h hk hfull
        intro hopen
        have hwaits := emptyBuffProc_waits h hopen
        have hone : c.stream.waits = 1 := if_pos ⟨hopen, hfull⟩
        exact ih (emptyBuffProc_grows h (h.wasFCloseCalled hopen)).isWriter hk (by omega)
      · obtain ⟨m, hm⟩ : ∃ m, m = min (str.length - k) (c.stream.stop - c.stream.wrNext) := ⟨_, rfl⟩
        obtain ⟨c', hc'⟩ : ∃ c', c' = c.put ((str.drop k).take m) := ⟨_, rfl⟩
        have hlen : ((str.drop k).take m).length = m := by
          rw [List.length_take, List.length_drop]
          omega
        have hwriter : c'.stream.IsWriter := by
          rw [hc']
          exact h.put (by omega)
        -- what this pass stores, and what is left to the passes after it
        have hchars : putChars (str.drop k) c = putChars (str.drop (k + m)) c' := by
          rw [← List.take_append_drop m (str.drop k), putChars_append,
            putChars_room hle (by omega), List.drop_drop, hc']
          rfl
        have hbody : putStrBody str (k, c) =
            if k + m = str.length then some (.done (str.length, c')) else
              putStrEmpty (k + m, c') := by
          rw [putStrBody, if_neg hfull, hc', hm]
        by_cases hall : k + m = str.length
        · rw [if_pos hall] at hbody
          rw [run_done hbody, hchars, hall, List.drop_length]
          rfl
        · rw [if_neg hall] at hbody
          have hfull' : c'.stream.wrNext = c'.stream.stop := by
            rw [hc']
            show c.stream.wrNext + ((str.drop k).take m).length = c.stream.stop
            omega
          rw [hchars]
          apply run_putStrEmpty hbody hwriter (by omega) hfull'
          intro hopen
          have hwaits := emptyBuffProc_waits hwriter hopen
          exact ih (emptyBuffProc_grows hwriter (hwriter.wasFCloseCalled hopen)).isWriter
            (by omega) (by omega)

theorem fcgxPutStr_eq_putChars {c : Chan} (h : c.stream.IsWriter) (str : List UInt8) :
    fcgxPutStr str c = (putChars str c).map (putResult str.length) := by
  rw [fcgxPutStr]
  split
  · next hfast =>
      rw [putChars_room h.wrNext_le hfast]
      rfl
  · next hslow =>
      have hwait := c.stream.waits_le
      rw [run_putStrBody h (by omega) (by omega), List.drop_zero]

theorem putChars_total {c : Chan} (h : c.stream.IsWriter) (str : List UInt8) :
    ∃ ok c', putChars str c = some (ok, c') ∧ c'.stream.IsWriter ∧
      fcgxPutStr str c = some (if ok then (str.length : ℤ) else -1, c') := by
  obtain ⟨z, c', hput, hgrows⟩ := fcgxPutStr_grows h str
  have hchars := fcgxPutStr_eq_putChars h str
  rw [hput] at hchars
  obtain ⟨⟨ok, c''⟩, hput', heq⟩ := Option.map_eq_some_iff.mp hchars.symm
  obtain ⟨rfl, rfl⟩ := Prod.ext_iff.mp heq
  exact ⟨ok, c'', hput', hgrows.isWriter, hput⟩

theorem putBlocks_eq_putChars {c : Chan} (h : c.stream.IsWriter) (strs : List (List UInt8)) :
    putBlocks strs c = putChars strs.flatten c := by
  induction strs generalizing c with
  | nil => rfl
  | cons str strs ih =>
      obtain ⟨ok, c', hchars, hwriter, hput⟩ := putChars_total h str
      rw [putBlocks, hput, List.flatten_cons, putChars_append, hchars]
      cases ok with
      | false => rfl
      | true =>
          have hne : ¬(str.length : ℤ) = -1 := by omega
          simp only [if_true, if_neg hne, Option.bind_some]
          exact ih hwriter

/-- **A block is put like its bytes**, whatever state the writer is in and whatever `OS_Write`
does: the same state of the stream and the same calls of `OS_Write`, which are part of the
state of the channel. So the records do not depend on how the output is divided into calls. -/
theorem fcgxPutStr_bytewise {c : Chan} (h : c.stream.IsWriter) :
    (∀ str, ∃ ok c', putChars str c = some (ok, c') ∧
        fcgxPutStr str c = some (if ok then (str.length : ℤ) else -1, c')) ∧
      ∀ strs, putBlocks strs c = putChars strs.flatten c := by
  refine ⟨fun str => ?_, putBlocks_eq_putChars h⟩
  obtain ⟨ok, c', hchars, -, hput⟩ := putChars_total h str
  exact ⟨ok, c', hchars, hput⟩

theorem epipe_pos : (0 : ℤ) < 32 := by decide

/-- `EPIPE`. -/
def epipe : Errno := ⟨32, epipe_pos⟩

/-- A writer with the smallest buffer, on a connection that takes the first write only. -/
def narrowWriter : Chan :=
  { stream := newStream 16 (fun _ => 0) 32 false fcgiStdout
    req := idleRequest.req
    os := .sending [] [] [.accept 40, .fail epipe] }

/-- Three blocks for two buffers: the second flush fails. -/
theorem fcgxPutStr_bytewise_fails :
    ((∀ str, ∃ ok c', putChars str narrowWriter = some (ok, c') ∧
        fcgxPutStr str narrowWriter = some (if ok then (str.length : ℤ) else -1, c')) ∧
      ∀ strs, putBlocks strs narrowWriter = putChars strs.flatten narrowWriter) ∧
    (putBlocks [List.replicate 20 1, List.replicate 20 2, List.replicate 20 3] narrowWriter).map
      (fun r => (r.1, r.2.os.log.length, r.2.stream.wrNext)) = some (false, 2, 32) :=
  ⟨fcgxPutStr_bytewise (holding_newStream ..).toIsWriter, by decide +kernel⟩

/-! ### Getting -/

/-- `FCGX_GetChar` until `n` bytes were returned or a call returned EOF: the bytes. -/
def getChars (fill : Chan → Option Chan) : ℕ → Chan → Option (List UInt8 × Chan)
  | 0, c => some ([], c)
  | n + 1, c =>
      match fcgxGetChar fill c with
      | none => none
      | some (none, c) => some ([], c)
      | some (some b, c) => (getChars fill n c).map fun x => (b :: x.1, x.2)

/-- The channels on which the fill procedure leaves something to read, or ends the stream. -/
structure Feeds (fill : Chan → Option Chan) (I : Chan → Prop) : Prop where
  isReader : ∀ c, I c → c.stream.isReader = true
  ordered : ∀ c, I c → c.stream.isClosed = false → c.stream.rdNext ≤ c.stream.stop
  take : ∀ m c, I c → c.stream.isClosed = false → m ≤ c.stream.stop - c.stream.rdNext →
    I (takeBytes m c).2
  fill : ∀ c c', I c → c.stream.isClosed = false → c.stream.rdNext = c.stream.stop →
    fill c = some c' → c'.stream.isClosed = false →
      I (markUnget c') ∧ c'.stream.rdNext < c'.stream.stop

section Getting

variable {fill : Chan → Option Chan} {I : Chan → Prop} {c : Chan}

theorem getChars_closed (hclosed : c.stream.isClosed = true) (n : ℕ) :
    getChars fill n c = some ([], c) := by
  cases n with
  | zero => rfl
  | succ n =>
      have hget : fcgxGetChar fill c = some (none, c) := by simp [fcgxGetChar, hclosed]
      rw [getChars, hget]

/-- Bytes that are in the buffer are taken. -/
theorem getChars_take (hF : Feeds fill I) (hc : I c) (hopen : c.stream.isClosed = false) {m : ℕ}
    (hm : m ≤ c.stream.stop - c.stream.rdNext) (n : ℕ) :
    getChars fill (m + n) c =
      (getChars fill n (takeBytes m c).2).map fun x => ((takeBytes m c).1 ++ x.1, x.2) := by
  induction m generalizing c with
  | zero =>
      rw [Nat.zero_add]
      exact Option.map_id'.symm
  | succ m ih =>
      have hle := hF.ordered c hc hopen
      have hget : fcgxGetChar fill c =
          some (some (c.stream.buff c.stream.rdNext), (takeBytes 1 c).2) := by
        rw [fcgxGetChar, if_neg (by simp [hopen, hF.isReader c hc]), if_pos (by omega), takeByte_eq]
      have hnext : m ≤ (takeBytes 1 c).2.stream.stop - (takeBytes 1 c).2.stream.rdNext := by
        show m ≤ c.stream.stop - (c.stream.rdNext + 1)
        omega
      rw [Nat.succ_add, getChars, hget]
      simp only
      rw [ih (hF.take 1 c hc hopen (by omega)) hopen hnext]
      have htwice : (takeBytes m (takeBytes 1 c).2).2 = (takeBytes (m + 1) c).2 := by
        simp only [takeBytes, Nat.add_assoc, Nat.add_comm 1 m]
      rw [htwice, Option.map_map]
      rfl

/-- A fill is the first thing `FCGX_GetChar` does where the buffer is empty. -/
theorem getChars_fill (hF : Feeds fill I) (hc : I c) (hopen : c.stream.isClosed = false)
    (hempty : c.stream.rdNext = c.stream.stop) {n : ℕ} (hn : 0 < n) :
    getChars fill n c = (fill c).bind fun c' =>
      if c'.stream.isClosed then some ([], c') else getChars fill n (markUnget c') := by
  obtain ⟨n, rfl⟩ := Nat.exists_eq_add_of_lt hn
  rw [Nat.zero_add, getChars, fcgxGetChar, if_neg (by simp [hopen, hF.isReader c hc]),
    if_neg (by simp [hempty])]
  cases hfill : fill c with
  | none => rfl
  | some c' =>
      cases hclosed : c'.stream.isClosed with
      | true => simp [hclosed]
      | false =>
          obtain ⟨hmarked, hlt⟩ := hF.fill c c' hc hopen hempty hfill hclosed
          have hget : fcgxGetChar fill (markUnget c') = some (takeByte (markUnget c')) := by
            have hopen' : (markUnget c').stream.isClosed = false := hclosed
            have hne : (markUnget c').stream.rdNext ≠ (markUnget c').stream.stop :=
              Nat.ne_of_lt hlt
            rw [fcgxGetChar, if_neg (by simp [hopen', hF.isReader _ hmarked]), if_pos hne]
          simp only [hclosed, Bool.false_eq_true, if_false, Option.bind_some]
          rw [getChars, hget, if_pos (Nat.ne_of_lt hlt)]

/-- 1 where nothing can be taken before a fill. -/
def Stream.awaits (s : Stream) : ℕ := if s.rdNext = s.stop then 1 else 0

theorem run_getStrFill (hF : Feeds fill I) {fuel n : ℕ} {x y : List UInt8 × Chan}
    (hpass : getStrBody fill n x = getStrFill fill y) (hy : I y.2) (hlt : y.1.length < n)
    (hopen : y.2.stream.isClosed = false) (hempty : y.2.stream.rdNext = y.2.stream.stop)
    (ih : ∀ c', I c' → c'.stream.isClosed = false → c'.stream.rdNext < c'.stream.stop →
      run (getStrBody fill n) fuel (y.1, c') =
        (getChars fill (n - y.1.length) c').map fun z => (y.1 ++ z.1, z.2)) :
    run (getStrBody fill n) (fuel + 1) x =
      (getChars fill (n - y.1.length) y.2).map fun z => (y.1 ++ z.1, z.2) := by
  rw [getChars_fill hF hy hopen hempty (Nat.sub_pos_of_lt hlt)]
  rw [getStrFill, if_neg (by simp [hopen, hF.isReader _ hy])] at hpass
  cases hfill : fill y.2 with
  | none =>
      rw [hfill] at hpass
      simp only [run, hpass, Option.bind_none, Option.map_none]
  | some c' =>
      rw [hfill] at hpass
      cases hclosed : c'.stream.isClosed with
      | true =>
          simp only [hclosed, if_true] at hpass
          rw [run_done hpass]
          simp [hclosed]
      | false =>
          obtain ⟨hmarked, hroom⟩ := hF.fill y.2 c' hy hopen hempty hfill hclosed
          simp only [hclosed, Bool.false_eq_true, if_false] at hpass
          rw [run_again hpass, ih (markUnget c') hmarked hclosed hroom]
          simp [hclosed]

/-- The loop of `FCGX_GetStr`, with `x.1` in `str`. -/
theorem run_getStrBody (hF : Feeds fill I) {fuel n : ℕ} {x : List UInt8 × Chan} (hx : I x.2)
    (hopen : x.2.stream.isClosed = false) (hlt : x.1.length < n)
    (hfuel : n - x.1.length + x.2.stream.awaits < fuel) :
    run (getStrBody fill n) fuel x =
      (getChars fill (n - x.1.length) x.2).map fun z => (x.1 ++ z.1, z.2) := by
  induction fuel generalizing x with
  | zero => omega
  | succ fuel ih =>
      have hle := hF.ordered x.2 hx hopen
      by_cases hempty : x.2.stream.rdNext = x.2.stream.stop
      · have hpass : getStrBody fill n x = getStrFill fill x := by rw [getStrBody, if_pos hempty]
        apply run_getStrFill hF hpass hx hlt hopen hempty
        intro c' hc' hopen' hroom
        have hone : x.2.stream.awaits = 1 := if_pos hempty
        have hzero : c'.stream.awaits = 0 := if_neg (Nat.ne_of_lt hroom)
        exact ih hc' hopen' hlt (by dsimp only; omega)
      · obtain ⟨m, hm⟩ : ∃ m, m = min (n - x.1.length) (x.2.stream.stop - x.2.stream.rdNext) :=
          ⟨_, rfl⟩
        obtain ⟨y, hy⟩ : ∃ y, y = (x.1 ++ (takeBytes m x.2).1, (takeBytes m x.2).2) := ⟨_, rfl⟩
        have hlen : y.1.length = x.1.length + m := by
          rw [hy, List.length_append, length_takeBytes]
        have hkept : I y.2 := by
          rw [hy]
          exact hF.take m x.2 hx hopen (by omega)
        have hopen' : y.2.stream.isClosed = false := by
          rw [hy]
          exact hopen
        -- what this pass copies, and what is left to the passes after it
        have hchars : (getChars fill (n - x.1.length) x.2).map (fun z => (x.1 ++ z.1, z.2)) =
            (getChars fill (n - y.1.length) y.2).map fun z => (y.1 ++ z.1, z.2) := by
          have hsum : n - x.1.length = m + (n - y.1.length) := by omega
          rw [hsum, getChars_take hF hx hopen (by omega), Option.map_map, hy]
          simp only [Function.comp_def, List.append_assoc]
        have hbody : getStrBody fill n x =
            if y.1.length = n then some (.done y) else getStrFill fill y := by
          rw [getStrBody, if_neg hempty, hy, hm]
        rw [hchars]
        by_cases hall : y.1.length = n
        · rw [if_pos hall] at hbody
          rw [run_done hbody, hall, Nat.sub_self]
          simp [getChars]
        · rw [if_neg hall] at hbody
          have hempty' : y.2.stream.rdNext = y.2.stream.stop := by
            rw [hy]
            show x.2.stream.rdNext + m = x.2.stream.stop
            omega
          apply run_getStrFill hF hbody hkept (by omega) hopen' hempty'
          intro c' hc' hopen'' hroom
          have hzero : c'.stream.awaits = 0 := if_neg (Nat.ne_of_lt hroom)
          exact ih hc' hopen'' (by dsimp only; omega) (by dsimp only; omega)

theorem fcgxGetStr_eq_getChars (hF : Feeds fill I) (hc : I c) (n : ℕ) :
    fcgxGetStr fill n c = getChars fill n c := by
  rw [fcgxGetStr]
  cases hopen : c.stream.isClosed with
  | true =>
      rw [getChars_closed hopen]
      rfl
  | false =>
      rcases Nat.eq_zero_or_pos n with rfl | hn
      · simp [getChars]
      · have hle := hF.ordered c hc hopen
        rw [if_neg (by simp [hF.isReader c hc]; omega), Int.toNat_natCast]
        split
        · next hfast =>
            have htake := getChars_take hF hc hopen hfast 0
            rw [Nat.add_zero] at htake
            rw [htake]
            simp [getChars]
        · next hslow =>
            have hawaits : c.stream.awaits ≤ 1 := by
              unfold Stream.awaits
              split <;> omega
            rw [run_getStrBody hF (x := ([], c)) hc hopen hn (by dsimp only [List.length_nil]; omega)]
            simp

end Getting

/-! ### The input stream of a request -/

/-- The input stream of a request that has begun, whatever has been called on it: errors may
have been cleared, and `FCGX_FClose` may have ended it. -/
structure Chan.Usable (c : Chan) : Prop where
  isBeginProcessed : c.req.isBeginProcessed = true
  state : c.Readable ∨ c.Buffered ∧ c.stream.isClosed = true

theorem Chan.Serving.toUsable {c : Chan} (h : c.Serving) : c.Usable :=
  ⟨h.isBeginProcessed, h.usable.imp_right fun hclosed => ⟨hclosed.toBuffered, hclosed.isClosed⟩⟩

theorem Chan.Usable.buffered {c : Chan} (h : c.Usable) : c.Buffered :=
  h.state.elim (·.toBuffered) And.left

theorem Chan.Usable.readable {c : Chan} (h : c.Usable) (hopen : c.stream.isClosed = false) :
    c.Readable := by
  refine h.state.resolve_right fun hclosed => ?_
  rw [hclosed.2] at hopen
  cases hopen

/-- Only the stream matters, and that the request has begun. -/
theorem Chan.Usable.of_stream {c c' : Chan} (h : c.Usable) (hstream : c'.stream = c.stream)
    (hbegun : c'.req.isBeginProcessed = true) : c'.Usable := by
  rcases c with ⟨s, req, os⟩
  rcases c' with ⟨s', req', os'⟩
  obtain rfl : s' = s := hstream
  refine ⟨hbegun, ?_⟩
  rcases h.state with ho | ⟨hb, hclosed⟩
  · exact .inl ⟨⟨⟨ho.isReader, ho.rdNext_le, ho.buffStop_le, ho.bufflen_pos⟩, ho.isClosed,
      ho.rdNext_le_stop, ho.stop_le, ho.deliver⟩, ho.eorStop, ho.skip⟩
  · exact .inr ⟨⟨hb.isReader, hb.rdNext_le, hb.buffStop_le, hb.bufflen_pos⟩, hclosed⟩

theorem feeds_fillBuffProc : Feeds fillBuffProc Chan.Usable where
  isReader _ h := h.buffered.isReader
  ordered _ h hopen := (h.readable hopen).rdNext_le_stop
  take m c h hopen hm := by
    have hr := h.readable hopen
    obtain ⟨-, ho, -⟩ := takeBytes_spec hr.toOpen hm
    exact ⟨h.isBeginProcessed, .inl ⟨ho, hr.eorStop, hr.skip⟩⟩
  fill c c' h hopen hempty hfill hopen' := by
    have hr := h.readable hopen
    obtain ⟨c'', hfill', hset⟩ := fillSpec_fillBuffProc c hr.toOpen hempty hr.eorStop
    obtain rfl := Option.some.inj (hfill.symm.trans hfill')
    obtain ⟨hreq, hbegun⟩ := advance_req (v := c.view) h.isBeginProcessed
    have heor := advance_eorStop c.view
    rcases hadv : advance c.view with ⟨stop, w⟩
    rw [hadv] at hset hreq hbegun heor
    cases stop with
    | ready =>
        obtain ⟨ho, hlt⟩ := hset.outcome
        have hskip : c'.view.skip = false := by
          rw [hset.view_eq]
          exact (ready_of_advance hadv).2.1
        rw [← hset.view_eq] at hreq heor
        refine ⟨⟨?_, .inl ⟨ho.markUnget, heor.trans hr.eorStop, hskip⟩⟩, hlt⟩
        show c'.view.req.isBeginProcessed = true
        rw [hreq]
        exact h.isBeginProcessed
    | begun => exact absurd rfl hbegun
    | closed =>
        rw [(show c'.Closed from hset.outcome).isClosed] at hopen'
        cases hopen'

/-- An entry in the record of the calls that no `OS_Write` leaves, with the number of bytes
that no `OS_Read` has delivered. -/
def Chan.noted (c : Chan) : Chan :=
  { c with os := { c.os with log := c.os.log ++ [⟨[], c.os.incoming.length⟩] } }

/-- `FillBuffProc` with its calls on record; what it reads is determined by where it starts. -/
def notedFill (c : Chan) : Option Chan := fillBuffProc c.noted

theorem feeds_notedFill : Feeds notedFill Chan.Usable where
  isReader := feeds_fillBuffProc.isReader
  ordered := feeds_fillBuffProc.ordered
  take := feeds_fillBuffProc.take
  fill c c' h hopen hempty hfill hopen' :=
    feeds_fillBuffProc.fill c.noted c' (h.of_stream rfl h.isBeginProcessed) hopen hempty hfill hopen'

/-- What a writing call may do to a reader: it stores what the offsets of a writer allow, or
closes it. -/
def Chan.PutsOrCloses (c c' : Chan) : Prop :=
  (∃ buff wrNext, c' = { c with stream := { c.stream with buff := buff, wrNext := wrNext } }) ∨
    c' = { c with stream := closeStream c.stream }

theorem Chan.PutsOrCloses.same (c : Chan) : c.PutsOrCloses c :=
  .inl ⟨c.stream.buff, c.stream.wrNext, rfl⟩

theorem fcgxPutChar_reader {b : UInt8} {c c' : Chan} {ok : Bool}
    (hreader : c.stream.isReader = true) (h : fcgxPutChar b c = some (ok, c')) :
    c.PutsOrCloses c' := by
  rw [fcgxPutChar] at h
  split at h
  · cases h
    exact .inl ⟨_, _, rfl⟩
  · rw [if_pos (by simp [hreader])] at h
    cases h
    exact .same c

theorem fcgxPutStr_reader {str : List UInt8} {c c' : Chan} {n : ℤ}
    (hreader : c.stream.isReader = true) (h : fcgxPutStr str c = some (n, c')) :
    c.PutsOrCloses c' := by
  rw [fcgxPutStr] at h
  have hleave (x : ℕ × Chan) (hx : x.2.stream.isReader = true) :
      putStrEmpty x = some (.done (-1, x.2)) := by simp [putStrEmpty, hx]
  split at h
  · cases h
    exact .inl ⟨_, _, rfl⟩
  · -- the loop is left in its first pass, at the latest where the buffer is to be emptied
    rw [run, putStrBody] at h
    simp only [hleave (0, c) hreader, hleave (_, c.put _) hreader] at h
    split at h
    · cases h
    · next hpass =>
        split at hpass
        · cases hpass
        · split at hpass <;> cases hpass
    · next hpass =>
        cases h
        split at hpass
        · cases hpass
          exact .same c
        · split at hpass <;>
            · cases hpass
              exact .inl ⟨_, _, rfl⟩

theorem fcgxFClose_reader {c c' : Chan} {rc : ℤ} (hreader : c.stream.isReader = true)
    (h : fcgxFClose c = some (rc, c')) : c.PutsOrCloses c' := by
  rw [fcgxFClose] at h
  split at h
  · cases h
  · next c₂ hc₂ =>
      cases h
      split at hc₂
      · cases hc₂
        exact .same c
      · rw [closeChan, if_pos hreader] at hc₂
        cases hc₂
        exact .inr rfl

/-- A writing call on a reader stores at most what the offsets of a writer allow, or closes it. -/
theorem ClientCall.perform_reader {call : ClientCall} {c c' : Chan}
    (hreader : c.stream.isReader = true) (h : call.perform c = some c') :
    (∃ buff wrNext, c' = { c with stream := { c.stream with buff := buff, wrNext := wrNext } }) ∨
      c' = { c with stream := closeStream c.stream } := by
  cases call with
  | putChar b =>
      obtain ⟨⟨ok, c₁⟩, hput, rfl⟩ := Option.map_eq_some_iff.mp h
      exact fcgxPutChar_reader hreader hput
  | putStr str =>
      obtain ⟨⟨n, c₁⟩, hput, rfl⟩ := Option.map_eq_some_iff.mp h
      exact fcgxPutStr_reader hreader hput
  | fflush =>
      obtain rfl := Option.some.inj h
      rw [fcgxFFlush, if_pos (by simp [hreader])]
      exact Chan.PutsOrCloses.same c
  | fclose =>
      obtain ⟨⟨rc, c₁⟩, hclose, rfl⟩ := Option.map_eq_some_iff.mp h
      exact fcgxFClose_reader hreader hclose

theorem Chan.Usable.write {call : ClientCall} {c c' : Chan} (h : c.Usable)
    (hcall : call.perform c = some c') : c'.Usable := by
  have hb := h.buffered
  rcases call.perform_reader hb.isReader hcall with ⟨buff, wrNext, rfl⟩ | rfl
  · refine ⟨h.isBeginProcessed, ?_⟩
    rcases h.state with ho | ⟨-, hclosed⟩
    · exact .inl ⟨⟨⟨hb.isReader, hb.rdNext_le, hb.buffStop_le, hb.bufflen_pos⟩, ho.isClosed,
        ho.rdNext_le_stop, ho.stop_le, ho.deliver⟩, ho.eorStop, ho.skip⟩
    · exact .inr ⟨⟨hb.isReader, hb.rdNext_le, hb.buffStop_le, hb.bufflen_pos⟩, hclosed⟩
  · have hclose : closeStream c.stream = { c.stream with
        wasFCloseCalled := true, isClosed := true, wrNext := c.stream.rdNext
        stop := c.stream.rdNext } := by
      rw [closeStream, if_pos hb.isReader]
    refine ⟨h.isBeginProcessed, .inr ?_⟩
    rw [hclose]
    exact ⟨⟨hb.isReader, hb.rdNext_le, hb.buffStop_le, hb.bufflen_pos⟩, rfl⟩

/-- One call on the stream. -/
theorem Chan.Usable.streamCall {call : StreamCall} {c c' : Chan} (h : c.Usable)
    (hcall : call.perform c = some c') : c'.Usable := by
  cases call with
  | read call =>
      obtain ⟨⟨bs, c₁⟩, hread, rfl⟩ := Option.map_eq_some_iff.mp hcall
      rcases h.state with ho | ⟨-, hclosed⟩
      · have hserving : c.Serving := ⟨h.isBeginProcessed, .inl ho⟩
        obtain ⟨xs, c₂, hread', h'⟩ := hserving.read call
        rw [hread] at hread'
        cases hread'
        exact h'.toUsable
      · rw [ReadCall.perform_closed hclosed] at hread
        cases hread
        exact h
  | unGetChar b =>
      obtain rfl := Option.some.inj hcall
      rcases h.state with ho | ⟨-, hclosed⟩
      · have hserving : c.Serving := ⟨h.isBeginProcessed, .inl ho⟩
        exact (hserving.unGetChar b).toUsable
      · rw [fcgxUnGetChar, if_pos (by simp [hclosed])]
        exact h
  | write call => exact h.write hcall
  | startFilterData =>
      obtain rfl := Option.some.inj hcall
      refine ⟨?_, ?_⟩
      · rw [fcgxStartFilterData]
        split <;> exact h.isBeginProcessed
      · exact (spent_startFilterData h.buffered).usable.imp_right
          fun hclosed => ⟨hclosed.toBuffered, hclosed.isClosed⟩
  | clearError =>
      obtain rfl := Option.some.inj hcall
      refine ⟨h.isBeginProcessed, ?_⟩
      rcases h.state with ho | ⟨hb, hclosed⟩
      · exact .inl ⟨⟨⟨ho.isReader, ho.rdNext_le, ho.buffStop_le, ho.bufflen_pos⟩, ho.isClosed,
          ho.rdNext_le_stop, ho.stop_le, ho.deliver⟩, ho.eorStop, ho.skip⟩
      · exact .inr ⟨⟨hb.isReader, hb.rdNext_le, hb.buffStop_le, hb.bufflen_pos⟩, hclosed⟩

/-- A call on one of the streams of a request. -/
def StreamSteps (r : Request) (call : RequestStream × StreamCall) (r' : Request) : Prop :=
  r.streamCall call.1 call.2 = some r'

/-- The input stream of the request can be used. -/
def Request.InputUsable (r : Request) : Prop := ∀ s, r.inStream = some s → (r.chan s).Usable

theorem Request.InputUsable.step {r r' : Request} {call : RequestStream × StreamCall}
    (h : r.InputUsable) (hstep : StreamSteps r call r') : r'.InputUsable := by
  rcases call with ⟨which, call⟩
  have hkept : r.req.Kept r'.req := Request.streamCall_kept hstep
  obtain ⟨s, hs, hcall⟩ := Option.bind_eq_some_iff.mp hstep
  obtain ⟨c, hc, rfl⟩ := Option.map_eq_some_iff.mp hcall
  intro s' hs'
  -- a call on a writer leaves the input stream as it was, and the request begun
  have hother (hr : r.inStream = some s') : Chan.Usable ⟨s', c.req, c.os⟩ := by
    have hin := h s' hr
    obtain ⟨n, hreq⟩ := hkept.begun hin.isBeginProcessed
    refine hin.of_stream rfl ?_
    have hreq' : c.req = { r.req with nWriters := n } := by cases which <;> exact hreq
    rw [hreq']
    exact hin.isBeginProcessed
  cases which with
  | input =>
      obtain rfl := Option.some.inj hs'
      exact (h s hs).streamCall hc
  | out => exact hother hs'
  | err => exact hother hs'

theorem Request.InputUsable.runs {r r' : Request} {calls : List (RequestStream × StreamCall)}
    (h : r.InputUsable) (hrun : Runs StreamSteps r calls r') : r'.InputUsable :=
  hrun.invariant (I := Request.InputUsable) (fun _ _ _ hr hstep => hr.step hstep) h

/-- **A block is got like its bytes**, from the input stream of an accepted request after any
calls on its streams, for whatever is still to come and however it is cut: the same bytes, the
same state of the channel, and the same calls of `FillBuffProc`, in which `OS_Read` is called. -/
theorem fcgxGetStr_bytewise {lib : Bool} {pending rest : List Connection} {r r₀ r' : Request}
    {calls : List (RequestStream × StreamCall)} {s : Stream}
    (h : fcgxAcceptR lib pending r = some (0, r₀, rest)) (hrun : Runs StreamSteps r₀ calls r')
    (hs : r'.inStream = some s) (n : ℕ) :
    (∃ bs c, getChars fillBuffProc n (r'.chan s) = some (bs, c) ∧
        fcgxGetStr fillBuffProc n (r'.chan s) = some (bs, c)) ∧
      fcgxGetStr notedFill n (r'.chan s) = getChars notedFill n (r'.chan s) := by
  obtain ⟨r₁, -, hacc⟩ := fcgxAcceptR_ok h
  have hstart : r₀.InputUsable := fun s hs => (serving_accepted hacc hs).toUsable
  have husable := hstart.runs hrun s hs
  refine ⟨?_, fcgxGetStr_eq_getChars feeds_notedFill husable n⟩
  obtain ⟨⟨bs, c⟩, hget⟩ : ∃ x, fcgxGetStr fillBuffProc n (r'.chan s) = some x := by
    rcases husable.state with ho | ⟨-, hclosed⟩
    · have hserving : (r'.chan s).Serving := ⟨husable.isBeginProcessed, .inl ho⟩
      exact hserving.returns.getStr n
    · exact ⟨_, ReadCall.perform_closed hclosed (.getStr n)⟩
  have heq := fcgxGetStr_eq_getChars feeds_fillBuffProc husable n
  exact ⟨bs, c, heq.symm.trans hget, hget⟩

/-- The second of two bytes, which are in different chunks, and the end of the stream. -/
theorem fcgxGetStr_bytewise_two :
    ∃ r₀ r' s,
      fcgxAcceptR true [.ok (.sending filterWire [40, 0] [])] idleRequest = some (0, r₀, []) ∧
      Runs StreamSteps r₀ [(.input, .read .getChar)] r' ∧ r'.inStream = some s ∧
      ((∃ bs c, getChars fillBuffProc (9 : ℕ) (r'.chan s) = some (bs, c) ∧
          fcgxGetStr fillBuffProc (9 : ℕ) (r'.chan s) = some (bs, c)) ∧
        fcgxGetStr notedFill (9 : ℕ) (r'.chan s) = getChars notedFill (9 : ℕ) (r'.chan s)) ∧
      (getChars fillBuffProc 9 (r'.chan s)).map (fun x => (x.1, x.2.stream.isClosed)) =
        some ([66], true) := by
  have hends : ((fcgxAcceptR true [.ok (.sending filterWire [40, 0] [])] idleRequest).bind
      fun x => (x.2.1.streamCall .input (.read .getChar)).bind fun r' => r'.inStream.bind fun s =>
        (getChars fillBuffProc 9 (r'.chan s)).map fun y =>
          ((x.1, x.2.2.length), (y.1, y.2.stream.isClosed))) =
      some ((0, 0), ([66], true)) := by
    decide +kernel
  obtain ⟨⟨rc, r₀, rest⟩, hacc, hval⟩ := Option.bind_eq_some_iff.mp hends
  obtain ⟨r', hcall, hval⟩ := Option.bind_eq_some_iff.mp hval
  obtain ⟨s, hs, hval⟩ := Option.bind_eq_some_iff.mp hval
  obtain ⟨y, hget, hval⟩ := Option.map_eq_some_iff.mp hval
  obtain ⟨hfirst, hlast⟩ := Prod.ext_iff.mp hval
  obtain ⟨rfl, hrest⟩ := Prod.ext_iff.mp hfirst
  obtain rfl := List.length_eq_zero_iff.mp hrest
  have hrun : Runs StreamSteps r₀ [(.input, .read .getChar)] r' := .single hcall
  refine ⟨r₀, r', s, hacc, hrun, hs, fcgxGetStr_bytewise hacc hrun hs 9, ?_⟩
  rw [hget]
  exact congrArg some hlast

end FastCgi
