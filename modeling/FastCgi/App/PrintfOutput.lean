import FastCgi.App.PrintfFormat
import FastCgi.App.PrintfBounds

/-!
`FCGX_VFPrintF` against `printf` of ISO C.

`Chan.PutOn` says which bytes have been put on an open writer between two
states: those that went out as content of records, and those that are
pending. A call that is no fault puts `printedText` and returns its length
(`fcgxVFPrintF_prints`). No part of that is longer than the one of ISO C, so
the two texts are equal exactly where every conversion is
(`printedText_eq_iff`); `vfPrintF_iso_iff` puts the two together.
-/

namespace FastCgi

open BoundedLoop Numeral Sprintf

/-! ### The bytes put on a writer -/

/-- These bytes have been put on an open writer: they are in the records that went out, behind
what was pending before, or pending. -/
def Chan.PutOn (c c' : Chan) (bs : List UInt8) : Prop :=
  ∃ pending recs p, c.stream.Holding pending ∧ c.Wrote c' recs p ∧
    ContentRecords c.stream.type c.req.requestId recs ∧ contents recs ++ p = pending ++ bs

theorem Os.Sent.unique {os os' : Os} {bs bs' : List UInt8} (h : os.Sent os' bs)
    (h' : os.Sent os' bs') : bs = bs' := by
  obtain ⟨log, hlog, -, hacc, -⟩ := h
  obtain ⟨log', hlog', -, hacc', -⟩ := h'
  rw [← hacc, ← hacc', List.append_cancel_left (hlog.symm.trans hlog')]

theorem Stream.Holding.unique {s : Stream} {p p' : List UInt8} (h : s.Holding p)
    (h' : s.Holding p') : p = p' := by
  have hlen : p.length = p'.length := Nat.add_left_cancel (h.wrNext_eq.symm.trans h'.wrNext_eq)
  rw [← h.content, ← h'.content, hlen]

/-- There is one answer to what has been put. -/
theorem Chan.PutOn.unique {c c' : Chan} {bs bs' : List UInt8} (h : c.PutOn c' bs)
    (h' : c.PutOn c' bs') : bs = bs' := by
  obtain ⟨pending, recs, p, hpending, hw, -, heq⟩ := h
  obtain ⟨pending', recs', p', hpending', hw', -, heq'⟩ := h'
  obtain rfl := hpending.unique hpending'
  obtain rfl := hw.holding.unique hw'.holding
  obtain rfl := encodeAll_inj (hw.sent.unique hw'.sent)
  exact List.append_cancel_left (heq.symm.trans heq')

theorem Chan.PutOn.refl {c : Chan} {pending : List UInt8} (h : c.stream.Holding pending) :
    c.PutOn c [] :=
  ⟨pending, [], pending, h, .refl h, contentRecords_nil, (List.append_nil pending).symm⟩

section

variable {c : Chan} (hf : c.Fits) (hwrites : c.os.NeverFails)
include hf hwrites

/-- `FCGX_PutStr` puts its bytes. -/
theorem Chan.PutOn.putStr {c₁ : Chan} {bs : List UInt8} (h : c.PutOn c₁ bs) (str : List UInt8) :
    ∃ c₂, fcgxPutStr str c₁ = some ((str.length : ℤ), c₂) ∧ c.PutOn c₂ (bs ++ str) := by
  obtain ⟨pending, recs, p, hpending, hw, hrecs, heq⟩ := h
  obtain ⟨log, -, -, -, hnever⟩ := hw.sent
  obtain ⟨c₂, recs', p', hput, hrecs', heq', hw'⟩ :=
    fcgxPutStr_puts hw.holding (hw.fits hf) (hnever hwrites) str
  rw [hw.type, hw.req] at hrecs'
  refine ⟨c₂, hput, pending, recs ++ recs', p', hpending, hw.trans hw', hrecs.append hrecs', ?_⟩
  rw [contents_append, List.append_assoc, heq', ← List.append_assoc, heq, List.append_assoc]

/-! ### The call -/

/-- A call that has put these bytes and counted them. -/
structure Printf.Did (c : Chan) (bs : List UInt8) (s : Printf) : Prop where
  putOn : c.PutOn s.chan bs
  streamCount : s.streamCount = bs.length

theorem Printf.Did.put {bs : List UInt8} {s : Printf} (h : s.Did c bs) (text : List UInt8) :
    ∃ s', s.put text = some (.ok s') ∧ s'.Did c (bs ++ text) ∧ s'.entry = s.entry := by
  obtain ⟨c₂, hput, hput₂⟩ := h.putOn.putStr hf hwrites text
  have hpos : ¬((text.length : ℤ) < 0) := Int.not_lt.mpr (Int.natCast_nonneg _)
  refine ⟨{ s with chan := c₂, streamCount := s.streamCount + text.length }, ?_,
    ⟨hput₂, ?_⟩, rfl⟩
  · simp only [Printf.put, hput, if_neg hpos]
  · show s.streamCount + text.length = _
    rw [h.streamCount, List.length_append, Nat.cast_add]

/-- The characters before the next `%`. -/
theorem Printf.Did.putText {bs : List UInt8} {s : Printf} (h : s.Did c bs) :
    ∃ s', s.putText = some (.ok s') ∧
      s'.Did c (bs ++ s.entry.percentPtr.takeWhile (· ≠ code '%')) ∧
      s'.entry.percentPtr = s.entry.percentPtr.dropWhile (· ≠ code '%') ∧
      s'.entry.args = s.entry.args := by
  simp only [Printf.putText]
  split
  · next hnil =>
      have hsplit := List.takeWhile_append_dropWhile (p := (· ≠ code '%'))
        (l := s.entry.percentPtr)
      rw [hnil, List.nil_append] at hsplit
      exact ⟨s, rfl, by rwa [hnil, List.append_nil], hsplit.symm, rfl⟩
  · obtain ⟨s', hput, hdid, hentry⟩ :=
      h.put hf hwrites (s.entry.percentPtr.takeWhile (· ≠ code '%'))
    rw [hput]
    have hargs : s'.entry.args = s.entry.args := congrArg Entry.args hentry
    exact ⟨_, rfl, ⟨hdid.putOn, hdid.streamCount⟩, rfl, hargs⟩

/-- A conversion that leaves this text. -/
theorem Printf.Did.convert {bs text rest : List UInt8} {args : List Arg} {s : Printf}
    {x : Except PrintfEnd Printf} (h : s.Did c bs)
    (hprints : Prints text rest args (conversion s.entry)) (hx : s.convert = some x) :
    Goes (fun s' => s'.Did c (bs ++ text) ∧ s'.entry.percentPtr = rest ∧ s'.entry.args = args)
      (fun r => ¬r.Safe) x := by
  simp only [Printf.convert] at hx
  split at hx
  · next abort habort =>
      obtain rfl := Option.some.inj hx
      rw [habort] at hprints
      intro hsafe
      have hfault := hsafe abort rfl
      rw [show abort.isFault = true from hprints] at hfault
      cases hfault
  · next r hr =>
      rw [hr] at hprints
      obtain ⟨hputs, hrest, hargs⟩ := hprints
      have hcount := hputs.count
      split at hx
      · have htext : r.out.text.take r.out.buffCount.toNat = text := by
          have hnat : r.out.buffCount.toNat = text.length := by
            rw [BitVec.toInt_eq_toNat_cond] at hcount
            split at hcount <;> omega
          rw [hnat, hputs.take]
        rw [htext] at hx
        have hdid : Printf.Did c bs
            { s with conversions := s.conversions ++ [s.entry], entry := r.next } :=
          ⟨h.putOn, h.streamCount⟩
        obtain ⟨s', hput, hdid', hentry⟩ := hdid.put hf hwrites text
        obtain rfl := Option.some.inj (hput.symm.trans hx)
        exact ⟨hdid', by rw [hentry]; exact hrest, by rw [hentry]; exact hargs⟩
      · have hnil : text = [] := List.length_eq_zero_iff.mp (by omega)
        subst hnil
        rw [if_neg (by rw [hcount]; decide)] at hx
        obtain rfl := Option.some.inj hx
        rw [List.append_nil]
        exact ⟨⟨h.putOn, h.streamCount⟩, hrest, hargs⟩

end

theorem takeWhile_dropWhile_eq_nil (p : UInt8 → Bool) (l : List UInt8) :
    (l.dropWhile p).takeWhile p = [] := by
  have hhead := List.head?_dropWhile_not p l
  cases hdrop : l.dropWhile p with
  | nil => rfl
  | cons c rest =>
      rw [hdrop] at hhead
      exact List.takeWhile_cons_of_neg (by rw [show p c = false from hhead]; decide)

/-- The characters before the next `%`, and what follows them. -/
theorem ReadsFormat.split {format : List UInt8} {args : List Arg} {ps : List Piece}
    (h : ReadsFormat format args ps) :
    ∃ ps', ReadsFormat (format.dropWhile (· ≠ code '%')) args ps' ∧
      printedText ps = format.takeWhile (· ≠ code '%') ++ printedText ps' := by
  induction h with
  | nil => exact ⟨[], .nil, rfl⟩
  | char hc h ih =>
      obtain ⟨ps', hps', htext⟩ := ih
      refine ⟨ps', ?_, ?_⟩
      · rwa [List.dropWhile_cons, if_pos (decide_eq_true hc)]
      · rw [List.takeWhile_cons, if_pos (decide_eq_true hc), List.cons_append, ← htext,
          printedText_cons]
        rfl
  | percent h => exact ⟨_, .percent h, rfl⟩
  | conv hd h => exact ⟨_, .conv hd h, rfl⟩

/-- What a call is at: it has put a part of the whole, and the rest is still to be read. -/
def Printf.At (c : Chan) (all : List UInt8) (s : Printf) : Prop :=
  ∃ bs ps, s.Did c bs ∧ ReadsFormat s.entry.percentPtr s.entry.args ps ∧
    bs ++ printedText ps = all

/-- A call that is no fault has put the whole and returns its length. -/
def PrintfEnd.Put (c : Chan) (all : List UInt8) (r : PrintfEnd) : Prop :=
  r.Safe → c.PutOn r.chan all ∧ r.streamCount = all.length

section

variable {c : Chan} (hf : c.Fits) (hwrites : c.os.NeverFails) {all : List UInt8}
  (hall : all.length ≤ intMax)
include hf hwrites hall

/-- One conversion of a call. -/
theorem Printf.At.convert {s : Printf} {x : Except PrintfEnd Printf} (h : s.At c all)
    (hnext : s.entry.percentPtr.takeWhile (· ≠ code '%') = []) (hne : s.entry.percentPtr ≠ [])
    (hx : s.convert = some x) : Goes (Printf.At c all) (PrintfEnd.Put c all) x := by
  obtain ⟨bs, ps, hdid, hreads, hrest⟩ := h
  -- the text of the conversion, and what is read behind it
  have hgoes : ∀ {text rest : List UInt8} {args : List Arg} {ps' : List Piece},
      Prints text rest args (conversion s.entry) → ReadsFormat rest args ps' →
      bs ++ text ++ printedText ps' = all → Goes (Printf.At c all) (PrintfEnd.Put c all) x := by
    intro text rest args ps' hprints hread hsum
    have hgoes := hdid.convert hf hwrites hprints hx
    cases x with
    | error r => exact fun hsafe => absurd hsafe hgoes
    | ok s' =>
        obtain ⟨hdid', hp, hargs⟩ := hgoes
        exact ⟨bs ++ text, ps', hdid', by rwa [hp, hargs], hsum⟩
  generalize hp : s.entry.percentPtr = format at hreads hnext hne
  generalize hargs : s.entry.args = args at hreads
  cases hreads with
  | nil => exact absurd rfl hne
  | char hc h =>
      rw [List.takeWhile_cons, if_pos (decide_eq_true hc)] at hnext
      cases hnext
  | percent h =>
      rw [← hargs] at h
      exact hgoes (conversion_percent hp) h (by rw [List.append_assoc]; exact hrest)
  | @conv _ _ _ _ d _ hd h =>
      rw [← hargs] at hd
      have hle : d.printed.length ≤ intMax := by
        have hlen := congrArg List.length hrest
        rw [printedText_cons, List.length_append, List.length_append] at hlen
        have hpiece : (Piece.conv d).printed.length ≤ intMax := by omega
        exact hpiece
      exact hgoes (conversion_prints hp hd hle) h (by rw [List.append_assoc]; exact hrest)

/-- One pass of a call. -/
theorem Printf.At.body {s : Printf} {p : Pass Printf PrintfEnd} (h : s.At c all)
    (hp : vfPrintFBody s = some p) : p.Holds (Printf.At c all) (PrintfEnd.Put c all) := by
  have hleave : ∀ {s : Printf}, s.At c all → s.entry.percentPtr = [] →
      (s.leave none).Put c all := by
    rintro s ⟨bs, ps, hdid, hreads, hrest⟩ hnil -
    rw [hnil] at hreads
    cases hreads
    obtain rfl : bs = all := by rwa [printedText, List.flatMap_nil, List.append_nil] at hrest
    exact ⟨hdid.putOn, hdid.streamCount⟩
  rw [vfPrintFBody] at hp
  split at hp
  · next hnil =>
      obtain rfl := Option.some.inj hp
      exact hleave h hnil
  · obtain ⟨bs, ps, hdid, hreads, hrest⟩ := h
    obtain ⟨ps', hreads', htext⟩ := hreads.split
    obtain ⟨s', hput, hdid', hptr, hargs⟩ := hdid.putText hf hwrites
    have hat : s'.At c all := by
      refine ⟨_, ps', hdid', by rwa [hptr, hargs], ?_⟩
      rw [List.append_assoc, ← htext, hrest]
    have hnext : s'.entry.percentPtr.takeWhile (· ≠ code '%') = [] := by
      rw [hptr]
      exact takeWhile_dropWhile_eq_nil _ _
    rw [hput] at hp
    dsimp only at hp
    split at hp
    · next hnil =>
        obtain rfl := Option.some.inj hp
        exact hleave hat hnil
    · next hne =>
        split at hp
        · cases hp
        · next r hconvert =>
            obtain rfl := Option.some.inj hp
            exact hat.convert hf hwrites hall hnext hne hconvert
        · next s'' hconvert =>
            obtain rfl := Option.some.inj hp
            exact hat.convert hf hwrites hall hnext hne hconvert

/-- **What a call puts**, where it is no fault. -/
theorem fcgxVFPrintF_prints {pending : List UInt8} (hc : c.stream.Holding pending)
    {format : CString} {args : List Arg} {ps : List Piece} {r : PrintfEnd}
    (h : ReadsFormat format.bytes args ps) (htext : printedText ps = all)
    (hr : fcgxVFPrintF format args c = some r) : r.Put c all := by
  refine run_invariant (I := Printf.At c all) (P := PrintfEnd.Put c all)
    (fun s p hs hp => hs.body hf hwrites hall hp) ?_ hr
  exact ⟨[], ps, ⟨.refl hc, rfl⟩, h, htext⟩

end

/-! ### Against ISO C -/

/-- The code puts no more than ISO C specifies. -/
theorem length_printedText_le (ps : List Piece) :
    (printedText ps).length ≤ (isoText ps).length := by
  induction ps with
  | nil => exact le_rfl
  | cons p ps ih =>
      have hp := p.length_printed_le
      rw [printedText_cons, isoText, List.flatMap_cons, List.length_append, List.length_append]
      exact Nat.add_le_add hp ih

/-- **The texts are equal where all their parts are**, since no part is longer. -/
theorem printedText_eq_isoText_iff (ps : List Piece) :
    printedText ps = isoText ps ↔ ∀ p ∈ ps, p.printed = p.text := by
  induction ps with
  | nil => exact iff_of_true rfl fun _ hp => nomatch hp
  | cons p ps ih =>
      rw [printedText_cons, isoText, List.flatMap_cons, List.forall_mem_cons, ← ih]
      constructor
      · intro heq
        have hlen := congrArg List.length heq
        have hp := p.length_printed_le
        have hps := length_printedText_le ps
        rw [List.length_append, List.length_append] at hlen
        exact List.append_inj heq (by rw [isoText] at hps; omega)
      · rintro ⟨hp, hps⟩
        rw [hp, hps, isoText]

/-- The conversions of a format that is read. -/
theorem ReadsFormat.read {format : List UInt8} {args : List Arg} {ps : List Piece}
    (h : ReadsFormat format args ps) : ∀ d, .conv d ∈ ps → d.Read := by
  induction h with
  | nil => exact fun d hd => nomatch hd
  | char hc h ih =>
      intro d hd
      exact ih d ((List.mem_cons.mp hd).resolve_left nofun)
  | percent h ih =>
      intro d hd
      exact ih d ((List.mem_cons.mp hd).resolve_left nofun)
  | conv hd h ih =>
      intro d hmem
      rcases List.mem_cons.mp hmem with heq | hmem
      · obtain rfl := Piece.conv.inj heq
        exact hd.read
      · exact ih d hmem

theorem ReadsFormat.printed_iff {format : List UInt8} {args : List Arg} {ps : List Piece}
    (h : ReadsFormat format args ps) :
    (∀ p ∈ ps, p.printed = p.text) ↔ ∀ d, .conv d ∈ ps → d.Exact := by
  constructor
  · intro hall d hd
    exact (Conv.printed_eq_text_iff (h.read d hd)).mp (hall _ hd)
  · intro hexact p hp
    cases p with
    | char c => rfl
    | conv d => exact (Conv.printed_eq_text_iff (h.read d hp)).mpr (hexact d hp)

/-- The call has put this text, and what it returns, an `int`, is the number of its bytes. -/
def PrintfEnd.Renders (r : PrintfEnd) (c : Chan) (text : List UInt8) : Prop :=
  c.PutOn r.chan text ∧ r.streamCount = text.length ∧ text.length ≤ intMax

/-- **When `FCGX_VFPrintF` renders like `printf`**: on an open writer, with buffers that are large
enough and where no write fails, a call puts what ISO C specifies and returns the number of its
bytes if and only if every conversion is exact and an `int` holds that number. -/
theorem vfPrintF_iso_iff {c : Chan} {pending : List UInt8} (hc : c.stream.Holding pending)
    (hf : c.Fits) (hwrites : c.os.NeverFails) {format : CString} {args : List Arg}
    {ps : List Piece} (h : ReadsFormat format.bytes args ps) :
    ∃ r, fcgxVFPrintF format args c = some r ∧
      (r.Safe → (r.Renders c (isoText ps) ↔
        (∀ d, .conv d ∈ ps → d.Exact) ∧ (isoText ps).length ≤ intMax)) := by
  obtain ⟨r, hr⟩ := fcgxVFPrintF_returns format args hc.toIsWriter
  refine ⟨r, hr, fun hsafe => ?_⟩
  rw [← h.printed_iff, ← printedText_eq_isoText_iff, PrintfEnd.Renders, ← and_assoc]
  refine and_congr_left fun hmax => ?_
  have hall := Nat.le_trans (length_printedText_le ps) hmax
  obtain ⟨hput, hcount⟩ := fcgxVFPrintF_prints hf hwrites hall hc h rfl hr hsafe
  constructor
  · rintro ⟨hput', -⟩
    exact hput.unique hput'
  · intro heq
    rw [← heq]
    exact ⟨hput, hcount⟩

theorem printWriter_holding : printWriter.stream.Holding [] := holding_newStream ..

theorem printWriter_fits : printWriter.Fits :=
  ⟨(by decide : fcgiStdout < 256), (by decide : idleRequest.req.requestId < 65536)⟩

theorem printWriter_neverFails : printWriter.os.NeverFails := ⟨rfl, fun _ h => nomatch h⟩

/-- What `%5d` is for 42. -/
def fiveWideConv : Conv :=
  { flags := [], width := 5, precision := none, op := code 'd', value := .signed 42 }

theorem readsFormat_fiveWide :
    ReadsFormat fiveWide.bytes [.int 42] [.conv fiveWideConv] := by
  have hwidth : WidthText [code '5'] [.int 42] (readDecimal [code '5']) [.int 42] :=
    .digits (by simp [isDecimal]) (fun _ h => absurd (List.cons_eq_cons.mp h).1 (by decide))
      (by decide)
  have hconv : ReadsConv ([] ++ ([code '5'] ++ ([] ++ ([] ++ [code 'd'])))) [.int 42]
      fiveWideConv [] [] :=
    .intro (fun _ h => by cases h) (Nat.zero_le 5) hwidth .none (.int (.inl rfl))
  exact .conv hconv .nil

theorem vfPrintF_iso_iff_fiveWide :
    ∃ r, fcgxVFPrintF fiveWide [.int 42] printWriter = some r ∧
      r.Renders printWriter ([' ', ' ', ' ', '4', '2'].map code) := by
  obtain ⟨r, hr, hiff⟩ := vfPrintF_iso_iff printWriter_holding printWriter_fits
    printWriter_neverFails readsFormat_fiveWide
  have hends : (fcgxVFPrintF fiveWide [.int 42] printWriter).map PrintfEnd.abort = some none := by
    decide +kernel
  rw [hr] at hends
  have hsafe : r.Safe := by
    rw [PrintfEnd.Safe, show r.abort = none from Option.some.inj hends]
    exact fun _ ha => by cases ha
  have htext : isoText [.conv fiveWideConv] = [' ', ' ', ' ', '4', '2'].map code := by
    decide +kernel
  refine ⟨r, hr, htext ▸ (hiff hsafe).mpr ⟨fun d hd => ?_, ?_⟩⟩
  · obtain rfl := Piece.conv.inj (List.mem_singleton.mp hd)
    exact ⟨fun h => (by cases h), fun ⟨_, h, _⟩ => (by cases h)⟩
  · rw [htext]
    decide

def anyLength : CString :=
  { bytes := ['%', '.', '*', 's'].map code, noNul := by decide }

def threeLetters : CString := { bytes := ['a', 'b', 'c'].map code, noNul := by decide }

/-- What `%.*s` is for -1 and these letters. -/
def anyLengthConv : Conv :=
  { flags := [], width := 0, precision := some (-1 : CInt).toInt, op := code 's'
    value := .string threeLetters.bytes }

theorem readsFormat_anyLength :
    ReadsFormat anyLength.bytes [.int (-1), .string (some threeLetters)]
      [.conv anyLengthConv] := by
  have hwidth : WidthText [] [.int (-1), .string (some threeLetters)] (readDecimal [])
      [.int (-1), .string (some threeLetters)] :=
    .digits (fun _ h => by cases h) (fun _ h => by cases h) (Nat.zero_le 6)
  have hconv : ReadsConv ([] ++ ([] ++ ([code '.', code '*'] ++ ([] ++ [code 's']))))
      [.int (-1), .string (some threeLetters)] anyLengthConv [] [] :=
    .intro (fun _ h => by cases h) (Nat.zero_le 5) hwidth (.star (by decide)) .string
  exact .conv hconv .nil

/-- A precision below 0 is none, and the code makes it 0. -/
theorem vfPrintF_negativePrecision :
    ¬∀ (c : Chan) (pending : List UInt8) (format : CString) (args : List Arg) (ps : List Piece),
      c.stream.Holding pending → c.Fits → c.os.NeverFails → ReadsFormat format.bytes args ps →
      ∃ r, fcgxVFPrintF format args c = some r ∧ (r.Safe → r.Renders c (isoText ps)) := by
  intro hclaim
  obtain ⟨r, hr, hrenders⟩ := hclaim printWriter [] anyLength _ _ printWriter_holding
    printWriter_fits printWriter_neverFails readsFormat_anyLength
  have hends : (fcgxVFPrintF anyLength [.int (-1), .string (some threeLetters)] printWriter).map
      (fun r => (r.abort, r.streamCount)) = some (none, 0) := by
    decide +kernel
  rw [hr] at hends
  obtain ⟨habort, hcount⟩ := Prod.ext_iff.mp (Option.some.inj hends)
  have hsafe : r.Safe := by
    rw [PrintfEnd.Safe, show r.abort = none from habort]
    exact fun _ ha => by cases ha
  obtain ⟨-, hlength, -⟩ := hrenders hsafe
  have hthree : (isoText [.conv anyLengthConv]).length = 3 := by decide +kernel
  rw [show r.streamCount = 0 from hcount, hthree] at hlength
  exact absurd hlength (by decide)

end FastCgi
