import FastCgi.App.RequestWire

/-!
`ReadParams` against the grammar of name-value pairs.

The relation `Encodes` says what a list of pairs looks like, without saying
how it is read. On a stream that ends properly, `ReadParams` accepts the
bytes that code a list of pairs and no others, whatever lengths, chunks and
records they come in (`readParams_grammar`); what it has put into the vector
by then are the pairs in front of the first bad one.
-/

namespace FastCgi

/-- The fill procedure of the reader: `FillBuffProc`, which under `eorStop` is called from
itself. -/
def Chan.FillsWith (c : Chan) (fill : Chan → Option Chan) : Prop :=
  c.stream.eorStop = false ∧ fill = fillBuffProc ∨
    c.stream.eorStop = true ∧ ∃ d, fill = fillBuffProcAt (d + 1)

theorem Chan.FillsWith.spec {c : Chan} {fill : Chan → Option Chan} (h : c.FillsWith fill) :
    FillSpec fill c.stream.eorStop := by
  rcases h with ⟨heor, rfl⟩ | ⟨heor, d, rfl⟩
  · rw [heor]
    exact fillSpec_fillBuffProc
  · rw [heor]
    exact fillSpec_eorStop d

/-- `bs` is a list of pairs, with lengths that `ReadParams` accepts. -/
def PairList (bs : List UInt8) (ps : List NameValue) : Prop := Encodes bs ps ∧ ShortPairs ps

/-- What `ReadParams` ends with, on a stream of `bs` on which the error was `errno` before.
`SetError` preserves only the first error. -/
structure GrammarRead (bs : List UInt8) (errno : ℤ) (p : Params) (rc : ℤ) (p' : Params)
    (c' : Chan) : Prop where
  accepts : rc = 0 ↔ ∃ ps, PairList bs ps
  appends : ∀ ps, PairList bs ps → p'.entries = p.entries ++ ps.map NameValue.entry
  rejects : (¬∃ ps, PairList bs ps) → rc = -1 ∧
    c'.stream.fcgiErrno = (if errno = 0 then fcgxParamsError else errno) ∧
    ∃ xs rest ps, bs = xs ++ rest ∧ PairList xs ps ∧ NoPair rest ∧
      p'.entries = p.entries ++ ps.map NameValue.entry

theorem pairList_iff {bs : List UInt8} {ps : List NameValue} :
    PairList bs ps ↔ parsePairs bs = (ps, none) := encodes_iff.symm

/-- A list of pairs is read in one way. -/
theorem PairList.unique {bs : List UInt8} {ps ps' : List NameValue} (h : PairList bs ps)
    (h' : PairList bs ps') : ps = ps' := by
  rw [pairList_iff] at h h'
  exact (Prod.mk.inj (h.symm.trans h')).1

/-- **`ReadParams` accepts the grammar.** The stream delivers `bs` and ends without an error of
its own; the pairs are appended in order to what is in the vector. -/
theorem readParams_grammar {fill : Chan → Option Chan} {c : Chan} {bs : List UInt8} {e : View}
    (hfill : c.FillsWith fill) (ho : c.Open) (hd : Delivers c.view bs e)
    (hend : e.errno = c.stream.fcgiErrno) (p : Params) :
    ∃ rc p' c', readParams fill p c = some (rc, p', c') ∧
      GrammarRead bs c.stream.fcgiErrno p rc p' c' := by
  obtain ⟨⟨rc, p', c'⟩, hread, -, hentries, hresult⟩ := readParams_spec hfill.spec ho hd p
  refine ⟨rc, p', c', hread, ?_⟩
  rcases hparse : parsePairs bs with ⟨ps, bad⟩
  rw [hparse] at hentries hresult
  cases bad with
  | none =>
      have hlist : PairList bs ps := pairList_iff.mpr hparse
      refine ⟨iff_of_true hresult.1 ⟨ps, hlist⟩, fun ps' hlist' => ?_, fun hno => ?_⟩
      · rw [hlist'.unique hlist]
        exact hentries
      · exact absurd ⟨ps, hlist⟩ hno
  | some bad =>
      have hno : ¬∃ ps, PairList bs ps := by
        rintro ⟨ps', hlist⟩
        rw [pairList_iff, hparse] at hlist
        cases hlist
      have hreject : rc = -1 ∧ c'.stream.fcgiErrno =
          (if c.stream.fcgiErrno = 0 then fcgxParamsError else c.stream.fcgiErrno) := by
        cases bad with
        | truncated =>
            obtain ⟨hrc, hview⟩ := hresult
            refine ⟨hrc, (congrArg View.errno hview).trans ?_⟩
            rw [← hend]
            rfl
        | tooLong rest =>
            obtain ⟨hrc, w, xs, -, hreads, hview⟩ := hresult
            refine ⟨hrc, (congrArg View.errno hview).trans ?_⟩
            have hw : w.errno = c.stream.fcgiErrno := hreads.errno_eq
            rw [← hw]
            rfl
      obtain ⟨xs, rest, hbs, henc, hshort, hrest⟩ := parsePairs_bad hparse
      refine ⟨iff_of_false (by rw [hreject.1]; decide) hno, fun ps' hlist => absurd ⟨ps', hlist⟩ hno,
        fun _ => ⟨hreject.1, hreject.2, xs, rest, ps, hbs, ⟨henc, hshort⟩, hrest, hentries⟩⟩

/-- A reader at the start of the `FCGI_PARAMS` stream of request 1, for examples. -/
def paramsReader (os : Os) : Chan :=
  { stdinReader os with
    stream := setReaderType (newStream 0 os.stale 8192 true fcgiBeginRequest) fcgiParams }

theorem paramsReader_atBoundary (os : Os) : (paramsReader os).AtBoundary :=
  atBoundary_setReaderType (c := { stdinReader os with
    stream := newStream 0 os.stale 8192 true fcgiBeginRequest })
    ⟨rfl, Nat.le_refl 0, Nat.zero_le _, (by decide : 0 < 8192)⟩ fcgiParams

/-- The pair `A=B`, which two records share, and a value of which one byte is missing. -/
def cutPairs : List Record :=
  [shortRecord fcgiParams 1 [1, 1, 65] (by decide),
    shortRecord fcgiParams 1 [66, 1, 2, 67, 68] (by decide)]

/-- The wire of `cutPairs`, in chunks of four, one and five bytes and the rest. -/
def cutWire : Os :=
  .sending (encodeAll cutPairs ++ ((shortRecord fcgiParams 1 [] nil_content_le).encode ++ []))
    [3, 0, 4] []

theorem readParams_grammar_cut :
    ∃ rc p' c', readParams fillBuffProc (newParams 30) (paramsReader cutWire) = some (rc, p', c') ∧
      GrammarRead [1, 1, 65, 66, 1, 2, 67, 68] 0 (newParams 30) rc p' c' := by
  have hb := paramsReader_atBoundary cutWire
  have hown : ∀ r ∈ cutPairs, r.Own fcgiParams 1 := by
    intro r hr
    rcases List.mem_pair.mp hr with rfl | rfl
    · exact ⟨by decide, by decide, by decide⟩
    · exact ⟨by decide, by decide, by decide⟩
  have hstream : Streaming (paramsReader cutWire).view (contents cutPairs)
      (shortRecord fcgiParams 1 [] (by decide)) [] :=
    .of_records hb.view_boundary rfl (by decide) (by decide) hown
      ⟨by decide, by decide, by decide⟩ (by simp [Chan.view, Chan.unread, paramsReader, stdinReader,
        setReaderType, newStream, Os.sending, cutWire])
  exact readParams_grammar (.inl ⟨rfl, rfl⟩) hb.toBetween.toOpen hstream.delivers rfl (newParams 30)

end FastCgi
