import FastCgi.App.ItemCounts
import FastCgi.Cxx.Streambuf
import FastCgi.Lib.Lines

/-!
Reading lines: `FCGX_GetLine` (`libfcgi/fcgiapp.c`), and `FCGI_fgetc`,
`FCGI_ungetc`, `FCGI_fgets` and `FCGI_gets` (`libfcgi/fcgi_stdio.c`).

`FCGX_GetLine` stops behind a newline, and where the array is full but for
the terminating zero. So calls with an array of the same size return the
lines of the stream (`Lines.cut`), whatever the records and the chunks in
which they have arrived; and they can be mixed with calls that do not read
lines (`text_answers`).
-/

namespace FastCgi

open BoundedLoop Lines

/-! ### The calls -/

/-- `'\n'`. -/
def isNewline (b : UInt8) : Bool := b = 10

/-- The loop of `FCGX_GetLine`, with room for `n` bytes: the bytes that it stores. -/
def getLineLoop (fill : Chan → Option Chan) : ℕ → Chan → Option (List UInt8 × Chan)
  | 0, c => some ([], c)
  | n + 1, c =>
      match fcgxGetChar fill c with
      | none => none
      | some (none, c) => some ([], c)
      | some (some b, c) =>
          if isNewline b then some ([b], c)
          else (getLineLoop fill n c).map fun x => (b :: x.1, x.2)

/-- `FCGX_GetLine`: the bytes at `str`, or nothing for `NULL`, which it returns if EOF is the
first thing that it reads. -/
def fcgxGetLine (fill : Chan → Option Chan) (n : ℤ) (c : Chan) :
    Option (Option (List UInt8) × Chan) :=
  (getLineLoop fill (n - 1).toNat c).map fun x =>
    (if 0 < n - 1 ∧ x.1 = [] then none else some (x.1 ++ [0]), x.2)

/-- The functions of the C library. -/
structure StdioLib (σ : Type*) where
  fgetc : σ → Option UInt8 × σ
  ungetc : UInt8 → σ → Bool × σ
  fgets : ℤ → σ → Option (List UInt8) × σ

variable {σ : Type*}

/-- `FCGI_fgetc`; without a byte it is EOF. `FCGI_getchar` is `FCGI_fgetc` of `FCGI_stdin`. -/
def fcgiFgetc (lib : StdioLib σ) (fp : FcgiFilePtr σ) : Option (Option UInt8 × FcgiFilePtr σ) :=
  match fp.stdioStream, fp.fcgxStream with
  | some s, _ => some ((lib.fgetc s).1, { fp with stdioStream := some (lib.fgetc s).2 })
  | none, some c =>
      (fcgxGetChar fillBuffProc c).map fun x => (x.1, { fp with fcgxStream := some x.2 })
  | none, none => some (none, fp)

/-- `FCGI_ungetc`; `false` is EOF. -/
def fcgiUngetc (lib : StdioLib σ) (b : UInt8) (fp : FcgiFilePtr σ) : Bool × FcgiFilePtr σ :=
  match fp.stdioStream, fp.fcgxStream with
  | some s, _ => ((lib.ungetc b s).1, { fp with stdioStream := some (lib.ungetc b s).2 })
  | none, some c => ((fcgxUnGetChar b c).1, { fp with fcgxStream := some (fcgxUnGetChar b c).2 })
  | none, none => (false, fp)

/-- A byte is read, and pushed back if it can be. -/
def peek (lib : StdioLib σ) (fp : FcgiFilePtr σ) : Option (Option UInt8 × FcgiFilePtr σ) :=
  (fcgiFgetc lib fp).map fun x =>
    match x.1 with
    | none => x
    | some b =>
        (if (fcgiUngetc lib b x.2).1 then some b else none, (fcgiUngetc lib b x.2).2)

/-- `FCGI_fgets`. -/
def fcgiFgets (lib : StdioLib σ) (size : ℤ) (fp : FcgiFilePtr σ) :
    Option (Option (List UInt8) × FcgiFilePtr σ) :=
  match fp.stdioStream, fp.fcgxStream with
  | some s, _ =>
      some ((lib.fgets size s).1, { fp with stdioStream := some (lib.fgets size s).2 })
  | none, some c =>
      (fcgxGetLine fillBuffProc size c).map fun x => (x.1, { fp with fcgxStream := some x.2 })
  | none, none => some (none, fp)

/-- One pass of the loop of `FCGI_gets`, with what has been stored at `str`. -/
def getsBody (lib : StdioLib σ) (x : List UInt8 × FcgiFilePtr σ) :
    Option (Pass (List UInt8 × FcgiFilePtr σ) (Option (List UInt8) × FcgiFilePtr σ)) :=
  (fcgiFgetc lib x.2).map fun y =>
    match y.1 with
    | none => .done (if x.1 = [] then none else some (x.1 ++ [0]), y.2)
    | some b => if isNewline b then .done (some (x.1 ++ [0]), y.2) else .again (x.1 ++ [b], y.2)

/-- `FCGI_gets`, of a line of less than `fuel` bytes. -/
def fcgiGets (lib : StdioLib σ) (fuel : ℕ) (fp : FcgiFilePtr σ) :
    Option (Option (List UInt8) × FcgiFilePtr σ) :=
  run (getsBody lib) fuel ([], fp)

/-- The calls that read text. -/
inductive TextCall where
  | fgetc
  | peek
  | fgets (size : ℤ)
  | gets
  deriving DecidableEq

namespace TextCall

/-- The bytes that a call returns or stores; none for EOF and `NULL`. -/
def perform (lib : StdioLib σ) (fuel : ℕ) (fp : FcgiFilePtr σ) :
    TextCall → Option (Option (List UInt8) × FcgiFilePtr σ)
  | .fgetc => (fcgiFgetc lib fp).map fun x => (x.1.map fun b => [b], x.2)
  | .peek => (FastCgi.peek lib fp).map fun x => (x.1.map fun b => [b], x.2)
  | .fgets size => fcgiFgets lib size fp
  | .gets => fcgiGets lib fuel fp

/-- What the call should return on a stream whose bytes are `bs`. -/
def answer (bs : List UInt8) : TextCall → Option (List UInt8)
  | .fgetc => bs.head?.map fun b => [b]
  | .peek => bs.head?.map fun b => [b]
  | .fgets size =>
      if 1 < size ∧ bs = [] then none else some (takeLine isNewline (size - 1).toNat bs ++ [0])
  | .gets => if bs = [] then none else some (bs.takeWhile (fun b => !isNewline b) ++ [0])

/-- How many bytes it should take off the stream. -/
def taken (bs : List UInt8) : TextCall → ℕ
  | .fgetc => 1
  | .peek => 0
  | .fgets size => (takeLine isNewline (size - 1).toNat bs).length
  | .gets => (takeLine isNewline bs.length bs).length

end TextCall

/-- What each call returns. -/
def performTexts (lib : StdioLib σ) (fuel : ℕ) :
    List TextCall → FcgiFilePtr σ → Option (List (Option (List UInt8)) × FcgiFilePtr σ)
  | [], fp => some ([], fp)
  | call :: calls, fp =>
      match call.perform lib fuel fp with
      | none => none
      | some (y, fp) => (performTexts lib fuel calls fp).map fun x => (y :: x.1, x.2)

/-- What the calls should return on a stream whose bytes are `bs`. -/
def answerAll : List TextCall → List UInt8 → List (Option (List UInt8))
  | [], _ => []
  | call :: calls, bs => call.answer bs :: answerAll calls (bs.drop (call.taken bs))

/-! ### One call -/

section Calls

variable {c : Chan} {bs : List UInt8}

/-- The loop stores a line. -/
theorem Chan.Stocked.getLineLoop (h : c.Stocked bs) (n : ℕ) :
    ∃ c', getLineLoop fillBuffProc n c = some (takeLine isNewline n bs, c') ∧
      c'.Stocked (bs.drop (takeLine isNewline n bs).length) := by
  induction n generalizing c bs with
  | zero => exact ⟨c, rfl, h⟩
  | succ n ih =>
      obtain ⟨c₁, hget, hc₁, -⟩ := h.getChar
      rw [FastCgi.getLineLoop, hget]
      cases bs with
      | nil => exact ⟨c₁, rfl, hc₁⟩
      | cons b bs =>
          simp only [List.head?_cons, takeLine]
          split
          · exact ⟨c₁, rfl, hc₁⟩
          · obtain ⟨c', hloop, hc'⟩ := ih hc₁
            exact ⟨c', by rw [List.drop_one, List.tail_cons] at hloop; rw [hloop]; rfl, hc'⟩

theorem Chan.Stocked.getLine (h : c.Stocked bs) (n : ℤ) :
    ∃ c', fcgxGetLine fillBuffProc n c = some ((TextCall.fgets n).answer bs, c') ∧
      c'.Stocked (bs.drop ((TextCall.fgets n).taken bs)) := by
  obtain ⟨c', hloop, hc'⟩ := h.getLineLoop (n - 1).toNat
  refine ⟨c', ?_, hc'⟩
  rw [fcgxGetLine, hloop, Option.map_some, TextCall.answer]
  have hiff : (0 < n - 1 ∧ takeLine isNewline (n - 1).toNat bs = []) ↔ 1 < n ∧ bs = [] := by
    rw [takeLine_eq_nil_iff]
    constructor
    · rintro ⟨hn, hzero | hnil⟩
      · omega
      · exact ⟨by omega, hnil⟩
    · rintro ⟨hn, hnil⟩
      exact ⟨by omega, .inr hnil⟩
  simp only [hiff]

/-- The loop of `FCGI_gets`, with `str` stored. -/
theorem Chan.Stocked.getsLoop (h : c.Stocked bs) (lib : StdioLib σ) {fuel : ℕ}
    (hfuel : bs.length < fuel) (str : List UInt8) :
    ∃ c', run (getsBody lib) fuel (str, fcgxFile c) =
        some (if str = [] ∧ bs = [] then none
          else some (str ++ bs.takeWhile (fun b => !isNewline b) ++ [0]), fcgxFile c') ∧
      c'.Stocked (bs.drop (takeLine isNewline bs.length bs).length) := by
  induction bs generalizing c fuel str with
  | nil =>
      obtain ⟨fuel, rfl⟩ := Nat.exists_eq_add_of_lt hfuel
      obtain ⟨c₁, hget, hc₁, -⟩ := h.getChar
      refine ⟨c₁, run_done ?_, hc₁⟩
      rw [getsBody, fcgiFgetc, fcgxFile]
      simp [hget, fcgxFile]
  | cons b bs ih =>
      obtain ⟨fuel, rfl⟩ := Nat.exists_eq_add_of_lt hfuel
      obtain ⟨c₁, hget, hc₁, -⟩ := h.getChar
      have hbody : getsBody lib (str, fcgxFile c) =
          some (if isNewline b then .done (some (str ++ [0]), fcgxFile c₁)
            else .again (str ++ [b], fcgxFile c₁)) := by
        rw [getsBody, fcgiFgetc, fcgxFile]
        simp [hget, fcgxFile]
      cases hb : isNewline b with
      | true =>
          rw [hb] at hbody
          refine ⟨c₁, ?_, ?_⟩
          · rw [run_done hbody]
            simp [hb]
          · rw [List.length_cons, takeLine, if_pos hb]
            exact hc₁
      | false =>
          rw [hb] at hbody
          have hlen : bs.length < (b :: bs).length + fuel := by
            rw [List.length_cons]
            omega
          obtain ⟨c', hrun, hc'⟩ := ih hc₁ hlen (str ++ [b])
          refine ⟨c', ?_, ?_⟩
          · rw [run_again hbody, hrun]
            simp [hb]
          · rw [List.length_cons, takeLine, if_neg (by simp [hb])]
            exact hc'

/-- **One call** returns what it should, and takes as much off the stream. -/
theorem Chan.Stocked.text (h : c.Stocked bs) (lib : StdioLib σ) {fuel : ℕ}
    (hfuel : bs.length < fuel) (call : TextCall) :
    ∃ c', call.perform lib fuel (fcgxFile c) = some (call.answer bs, fcgxFile c') ∧
      c'.Stocked (bs.drop (call.taken bs)) := by
  cases call with
  | fgetc =>
      obtain ⟨c', hget, hc', -⟩ := h.getChar
      refine ⟨c', ?_, hc'⟩
      rw [TextCall.perform, fcgiFgetc, fcgxFile]
      simp [hget, fcgxFile, TextCall.answer]
  | peek =>
      obtain ⟨c', hget, hc', hback⟩ := h.getChar
      cases bs with
      | nil =>
          refine ⟨c', ?_, hc'⟩
          rw [TextCall.perform, FastCgi.peek, fcgiFgetc, fcgxFile]
          simp [hget, fcgxFile, TextCall.answer]
      | cons b bs =>
          obtain ⟨hok, hc''⟩ := hback b rfl
          refine ⟨(fcgxUnGetChar b c').2, ?_, hc''⟩
          rw [TextCall.perform, FastCgi.peek, fcgiFgetc, fcgxFile]
          simp [hget, fcgiUngetc, hok, fcgxFile, TextCall.answer]
  | fgets size =>
      obtain ⟨c', hget, hc'⟩ := h.getLine size
      refine ⟨c', ?_, hc'⟩
      rw [TextCall.perform, fcgiFgets, fcgxFile]
      simp [hget, fcgxFile]
  | gets =>
      obtain ⟨c', hrun, hc'⟩ := h.getsLoop lib hfuel []
      refine ⟨c', ?_, hc'⟩
      rw [TextCall.perform, fcgiGets, hrun]
      simp [TextCall.answer]

/-- **Any calls.** -/
theorem Chan.Stocked.texts (h : c.Stocked bs) (lib : StdioLib σ) {fuel : ℕ}
    (hfuel : bs.length < fuel) (calls : List TextCall) :
    ∃ c', performTexts lib fuel calls (fcgxFile c) = some (answerAll calls bs, fcgxFile c') := by
  induction calls generalizing c bs with
  | nil => exact ⟨c, rfl⟩
  | cons call calls ih =>
      obtain ⟨c₁, hcall, hc₁⟩ := h.text lib hfuel call
      have hlen : (bs.drop (call.taken bs)).length < fuel := by
        rw [List.length_drop]
        omega
      obtain ⟨c', hcalls⟩ := ih hc₁ hlen
      refine ⟨c', ?_⟩
      rw [performTexts, hcall]
      simp only [hcalls, Option.map_some, answerAll]

end Calls

/-! ### Lines -/

/-- What `FCGI_fgets` should return with the same size every time: the lines of the stream, and
then `NULL`. -/
theorem answerAll_fgets {n : ℤ} (hn : 1 < n) (k : ℕ) (bs : List UInt8) :
    answerAll (List.replicate k (.fgets n)) bs =
      ((cut isNewline (n - 1).toNat bs).map (fun line => some (line ++ [0])) ++
        List.replicate k none).take k := by
  have hpos : 0 < (n - 1).toNat := by omega
  induction k generalizing bs with
  | zero => rfl
  | succ k ih =>
      rw [List.replicate_succ, answerAll, ih]
      by_cases hnil : bs = []
      · -- the stream has ended: `NULL` from here on
        subst hnil
        rw [TextCall.answer, if_pos ⟨hn, rfl⟩, List.drop_nil, cut_nil, List.replicate_succ]
        simp
      · rw [TextCall.answer, if_neg fun h => hnil h.2, TextCall.taken, cut_of_ne_nil hpos hnil,
          List.map_cons, List.cons_append, List.take_succ_cons, List.cons.injEq]
        refine ⟨rfl, ?_⟩
        rw [List.take_append, List.take_append, List.take_replicate, List.take_replicate]
        congr 2
        omega

/-- **The lines of an accepted request.** Whatever the records and the chunks in which the standard
input has arrived, calls that read text return what they should on its bytes; and calls of
`FCGI_fgets` with a size of more than one return its lines, one behind the other. -/
theorem text_answers {lib : Bool} {pending rest : List Connection} {r r' : Request} {s : Stream}
    (h : fcgxAcceptR lib pending r = some (0, r', rest)) (hs : r'.inStream = some s)
    (stdio : StdioLib σ) :
    ∃ bs e, Delivers (r'.chan s).view bs e ∧ ∀ fuel, bs.length < fuel →
      (∀ calls, ∃ c', performTexts stdio fuel calls (fcgxFile (r'.chan s)) =
        some (answerAll calls bs, fcgxFile c')) ∧
      ∀ n : ℤ, 1 < n → ∀ k, ∃ c',
        performTexts stdio fuel (List.replicate k (.fgets n)) (fcgxFile (r'.chan s)) =
          some (((cut isNewline (n - 1).toNat bs).map (fun line => some (line ++ [0])) ++
            List.replicate k none).take k, fcgxFile c') := by
  obtain ⟨r₁, -, hacc⟩ := fcgxAcceptR_ok h
  have hat := acceptConnection_atStdin hacc hs
  obtain ⟨bs, e, hd⟩ := delivers_total (v := (r'.chan s).view) hat.isBeginProcessed
  have hreadable : (r'.chan s).Readable := ⟨hat.toBetween.toOpen, hat.eorStop, hat.skip⟩
  have hmark : (r'.chan s).MarkBehind := fun _ hlt => by
    have heq := hat.rdNext_eq
    omega
  have hstocked : (r'.chan s).Stocked bs := .inl ⟨hreadable, hmark, e, hd⟩
  refine ⟨bs, e, hd, fun fuel hfuel => ⟨fun calls => hstocked.texts stdio hfuel calls,
    fun n hn k => ?_⟩⟩
  rw [← answerAll_fgets hn]
  exact hstocked.texts stdio hfuel _

/-- A C library whose files are empty. -/
def emptyFiles : StdioLib Unit where
  fgetc s := (none, s)
  ungetc _ s := (false, s)
  fgets _ s := (none, s)

/-- A filter request with two bytes of `FCGI_STDIN`, which are looked at before they are read. -/
theorem text_answers_two :
    ∃ r' s, fcgxAcceptR true [.ok (.sending filterWire [4, 9] [])] idleRequest = some (0, r', []) ∧
      r'.inStream = some s ∧
      ∃ bs e, Delivers (r'.chan s).view bs e ∧ ∀ fuel, bs.length < fuel →
        ∃ c', performTexts emptyFiles fuel [.peek, .fgets 2, .gets] (fcgxFile (r'.chan s)) =
          some (answerAll [.peek, .fgets 2, .gets] bs, fcgxFile c') := by
  have hrun : (fcgxAcceptR true [.ok (.sending filterWire [4, 9] [])] idleRequest).map
      (fun x => (x.1, x.2.1.inStream.isSome, x.2.2.length)) = some (0, true, 0) := by
    decide +kernel
  obtain ⟨⟨rc, r', rest⟩, hacc, hval⟩ := Option.map_eq_some_iff.mp hrun
  simp only [Prod.mk.injEq, List.length_eq_zero_iff] at hval
  obtain ⟨rfl, hin, rfl⟩ := hval
  obtain ⟨s, hs⟩ := Option.isSome_iff_exists.mp hin
  obtain ⟨bs, e, hd, hall⟩ := text_answers hacc hs emptyFiles
  exact ⟨r', s, hacc, hs, bs, e, hd, fun fuel hfuel => (hall fuel hfuel).1 _⟩

end FastCgi
