import FastCgi.Lib.BoundedLoop
import FastCgi.Lib.ByteMem
import Mathlib.Data.List.DropRight

/-!
The command file of the bridge (`cgi-fcgi/cgi-fcgi.c`): what `ParseArgs` does
with the file named by `-f`.

A line is read into the array `line`, cut at its newline, trimmed from the
back and split at its spaces, all in place. The array has `BUFSIZ` cells and
a pointer into it is an offset; an access outside of it is a `LineFault`, and
so is one outside of `av`. `malloc` returns a block.
-/

namespace FastCgi

open ByteMem BoundedLoop

/-- An access outside of an array: below `line`, behind it, or in `av`. -/
inductive LineFault where
  | underrun
  | overrun
  | av
  deriving DecidableEq

/-- `MAXARGS`. -/
abbrev maxArgs : ℕ := 16

abbrev newline : UInt8 := 10

abbrev space : UInt8 := 32

/-- The arguments that the file gives: `ac` and `av`. -/
structure Argv where
  ac : ℕ
  av : ℕ → Option (List UInt8)

/-- `ac = 1`, behind the loop that clears `av`. -/
def Argv.start : Argv := { ac := 1, av := fun _ => none }

/-- `strcpy(av[ac++], arg)`. -/
def Argv.push (a : Argv) (arg : List UInt8) : Except LineFault Argv :=
  if a.ac < maxArgs then .ok { ac := a.ac + 1, av := Function.update a.av a.ac (some arg) }
  else .error .av

/-- A blank that is trimmed. -/
def isBlank (c : UInt8) : Bool := c = space || c = 9

/-- `line[0] == '#'`. -/
def isComment (l : List UInt8) : Bool := l.head? = some 35

section Line

variable (bufsiz : ℕ)

/-- The C string from `line[i]` on. The reads stay in the array only if its NUL does. -/
def stringAt (line : ℕ → UInt8) (i : ℕ) : Except LineFault (List UInt8) :=
  let cells := slice line i (bufsiz - i)
  if 0 ∈ cells then .ok (cells.takeWhile (· ≠ 0)) else .error .overrun

/-- `line[i] = 0`. -/
def cutAt (line : ℕ → UInt8) (i : ℕ) : Except LineFault (ℕ → UInt8) :=
  if i < bufsiz then .ok (store line i [0]) else .error .overrun

/-- `while(*tp1 == ' ' || *tp1 == '\t') *tp1-- = 0`, from `tp1 = line + n - 1` on. -/
def trim (line : ℕ → UInt8) : ℕ → Except LineFault (ℕ → UInt8)
  | 0 => .error .underrun
  | n + 1 =>
      if bufsiz ≤ n then .error .overrun
      else if isBlank (line n) then trim (store line n [0]) n
      else .ok line

/-- `fgets(line, BUFSIZ, fp)`: the bytes up to the next newline, as far as they fit, and a
NUL. -/
def fgets (content : List UInt8) (line : ℕ → UInt8) : Option (List UInt8 × (ℕ → UInt8)) :=
  let front := content.takeWhile (· ≠ newline)
  let got := (front ++ (content.drop front.length).take 1).take (bufsiz - 1)
  if got = [] then none else some (content.drop got.length, store line 0 (got ++ [0]))

/-- `strrchr(s, '\n') - s`. -/
def lastNewline (s : List UInt8) : Option ℕ :=
  (s.reverse.idxOf? newline).map fun k => s.length - 1 - k

/-- One round of `while(tp1)`, with `tp1 = line + i`: `none` is `exit`, and otherwise there
is the next `tp1`, which may be `NULL`. -/
def splitRound (line : ℕ → UInt8) (i : ℕ) (a : Argv) :
    Except LineFault (Option ((ℕ → UInt8) × Option ℕ × Argv)) := do
  let s ← stringAt bufsiz line i
  let line ← match s.idxOf? space with
    | none => pure line
    | some k => cutAt bufsiz line (i + k)
  if maxArgs ≤ a.ac then return none
  let arg ← stringAt bufsiz line i
  let a ← a.push arg
  return some (line, (s.idxOf? space).map (i + · + 1), a)

def splitBody (x : (ℕ → UInt8) × ℕ × Argv) :
    Option (Pass ((ℕ → UInt8) × ℕ × Argv) (Except LineFault (Option ((ℕ → UInt8) × Argv)))) :=
  match splitRound bufsiz x.1 x.2.1 x.2.2 with
  | .error fault => some (.done (.error fault))
  | .ok none => some (.done (.ok none))
  | .ok (some (line, none, a)) => some (.done (.ok (some (line, a))))
  | .ok (some (line, some i, a)) => some (.again (line, i, a))

/-- `tp1 = line; while(tp1)`: `none` inside is `exit`. -/
def splitLine (line : ℕ → UInt8) (a : Argv) :
    Option (Except LineFault (Option ((ℕ → UInt8) × Argv))) :=
  run (splitBody bufsiz) (bufsiz + 1) (line, 0, a)

/-- How the reading of the file ends: with the recursive call of `ParseArgs`, with
`return 1`, or with `exit(-1)`. -/
inductive FileEnd where
  | parseArgs (a : Argv)
  | lineTooLong
  | tooManyArgs

/-- One pass of the loop over the file. -/
def fileBody (x : List UInt8 × (ℕ → UInt8) × Argv) :
    Option (Pass (List UInt8 × (ℕ → UInt8) × Argv) (Except LineFault FileEnd)) :=
  match fgets bufsiz x.1 x.2.1 with
  | none => some (.done (.ok (.parseArgs x.2.2)))
  | some (content, line) =>
      if line 0 = 35 then some (.again (content, line, x.2.2))
      else
        match stringAt bufsiz line 0 with
        | .error fault => some (.done (.error fault))
        | .ok s =>
            match lastNewline s with
            | none => some (.done (.ok .lineTooLong))
            | some n =>
                match (cutAt bufsiz line n).bind fun line => trim bufsiz line n with
                | .error fault => some (.done (.error fault))
                | .ok line =>
                    (splitLine bufsiz line x.2.2).map fun
                      | .error fault => .done (.error fault)
                      | .ok none => .done (.ok .tooManyArgs)
                      | .ok (some (line, a)) => .again (content, line, a)

/-- `ParseArgs` on the file named by `-f`, up to the recursive call. -/
def parseArgsFile (content : List UInt8) (line : ℕ → UInt8) : Option (Except LineFault FileEnd) :=
  run (fileBody bufsiz) (content.length + 1) (content, line, .start)

end Line

/-! ### What the file says -/

/-- The file with these lines. -/
def fileOf (lines : List (List UInt8)) : List UInt8 := lines.flatMap (· ++ [newline])

/-- The space-separated pieces of a line, its trailing blanks removed. -/
def linePieces (l : List UInt8) : List (List UInt8) := (l.rdropWhile isBlank).splitOn space

/-- Those of the lines that are not comments. -/
def filePieces (lines : List (List UInt8)) : List (List UInt8) :=
  (lines.filter fun l => !isComment l).flatMap linePieces

/-- No access leaves an array, and the recursive call, if it is made, is given the pieces. -/
def Tokenised (lines : List (List UInt8)) : Option (Except LineFault FileEnd) → Prop
  | some (.ok (.parseArgs a)) =>
      a.ac = 1 + (filePieces lines).length ∧
        slice a.av 1 (filePieces lines).length = (filePieces lines).map some
  | some (.ok _) => True
  | _ => False

/-- Every line that is trimmed has a character that is not blank; `ac` counts the arguments.
A line with a NUL ends the reading before it is trimmed, and so do too many arguments. -/
def TrimsInside : ℕ → List (List UInt8) → Prop
  | _, [] => True
  | ac, l :: lines =>
      if isComment l then TrimsInside ac lines
      else 0 ∈ l ∨ (∃ c ∈ l, isBlank c = false) ∧
        (maxArgs < ac + (linePieces l).length ∨ TrimsInside (ac + (linePieces l).length) lines)

/-! ### Strings in the array -/

section Strings

variable {bufsiz : ℕ} {line : ℕ → UInt8} {i n : ℕ} {t : List UInt8}

/-- The string `t` and its NUL stand at `line[i]`. -/
structure HoldsString (bufsiz : ℕ) (line : ℕ → UInt8) (i : ℕ) (t : List UInt8) : Prop where
  cells : slice line i t.length = t
  nul : line (i + t.length) = 0
  noNul : 0 ∉ t
  inside : i + t.length < bufsiz

theorem HoldsString.stringAt (h : HoldsString bufsiz line i t) :
    stringAt bufsiz line i = .ok t := by
  have hsplit : slice line i (bufsiz - i) =
      t ++ 0 :: slice line (i + t.length + 1) (bufsiz - i - t.length - 1) := by
    have hlen : bufsiz - i = t.length + (bufsiz - i - t.length) := by
      have hinside := h.inside
      omega
    rw [hlen, slice_add, h.cells, slice_of_pos (by have := h.inside; omega), h.nul]
    congr 3
    omega
  rw [FastCgi.stringAt, hsplit]
  simp only [List.mem_append, List.mem_cons, true_or, or_true, if_true]
  rw [List.takeWhile_append_of_pos]
  · simp
  · intro c hc
    have hne : c ≠ 0 := fun heq => h.noNul (heq ▸ hc)
    simp [hne]

/-- A string that is cut at one of its characters: its front, and what is behind. -/
theorem HoldsString.cut {u v : List UInt8} {c : UInt8}
    (h : HoldsString bufsiz line i (u ++ c :: v)) :
    cutAt bufsiz line (i + u.length) = .ok (store line (i + u.length) [0]) ∧
      HoldsString bufsiz (store line (i + u.length) [0]) i u ∧
      HoldsString bufsiz (store line (i + u.length) [0]) (i + u.length + 1) v := by
  have hinside := h.inside
  have hcells := h.cells
  have hnul := h.nul
  have hlen : (u ++ c :: v).length = u.length + (1 + v.length) := by
    simp only [List.length_append, List.length_cons]
    omega
  rw [hlen] at hinside hcells hnul
  rw [slice_add, slice_add, slice, slice_zero, List.singleton_append] at hcells
  obtain ⟨hu, hcv⟩ := List.append_inj hcells (length_slice ..)
  obtain ⟨-, hv⟩ := List.cons.inj hcv
  refine ⟨if_pos (by omega), ⟨?_, ?_, ?_, by omega⟩, ⟨?_, ?_, ?_, by omega⟩⟩
  · rw [slice_store_before [0] (Nat.le_refl _), hu]
  · simp [store]
  · exact fun hmem => h.noNul (List.mem_append_left _ hmem)
  · rw [slice_store_after (by simp), hv]
  · rw [store_of_ge (by simp only [List.length_singleton]; omega), ← hnul]
    congr 1
    omega
  · exact fun hmem => h.noNul (List.mem_append_right _ (List.mem_cons_of_mem c hmem))

theorem idxOf?_append_cons {u v : List UInt8} {c : UInt8} (h : c ∉ u) :
    (u ++ c :: v).idxOf? c = some u.length := by
  rw [List.idxOf?, List.findIdx?_append, List.findIdx?_eq_none_iff.mpr]
  · simp [List.findIdx?_cons]
  · intro x hx
    rw [beq_eq_false_iff_ne]
    rintro rfl
    exact h hx

/-! ### Splitting -/

/-- The arguments behind these pieces; `none` where there are too many. -/
def Argv.pushAll (a : Argv) : List (List UInt8) → Option Argv
  | [] => some a
  | piece :: pieces =>
      if maxArgs ≤ a.ac then none
      else Argv.pushAll
        { ac := a.ac + 1, av := Function.update a.av a.ac (some piece) } pieces

theorem Argv.push_eq {a : Argv} (h : ¬maxArgs ≤ a.ac) (arg : List UInt8) :
    a.push arg = .ok { ac := a.ac + 1, av := Function.update a.av a.ac (some arg) } :=
  if_pos (Nat.lt_of_not_le h)

/-- The last piece of a line. -/
theorem splitBody_last (h : HoldsString bufsiz line i t) (ht : space ∉ t) (a : Argv) :
    splitBody bufsiz (line, i, a) =
      some (.done (.ok ((a.pushAll [t]).map fun a => (line, a)))) := by
  have hnone : t.idxOf? space = none := List.idxOf?_eq_none_iff.mpr ht
  rw [splitBody, splitRound, h.stringAt]
  simp only [bind, Except.bind, hnone, pure, Except.pure, Argv.pushAll]
  by_cases hfull : maxArgs ≤ a.ac
  · simp only [if_pos hfull, Option.map_none]
  · simp only [if_neg hfull, h.stringAt, Argv.push_eq hfull, Option.map_none, Option.map_some]

/-- A piece with a space behind it. -/
theorem splitBody_piece {u v : List UInt8} (h : HoldsString bufsiz line i (u ++ space :: v))
    (hu : space ∉ u) (a : Argv) :
    HoldsString bufsiz (store line (i + u.length) [0]) (i + u.length + 1) v ∧
      splitBody bufsiz (line, i, a) = some (if maxArgs ≤ a.ac then .done (.ok none)
        else .again (store line (i + u.length) [0], i + u.length + 1,
          { ac := a.ac + 1, av := Function.update a.av a.ac (some u) })) := by
  obtain ⟨hcut, hfront, hback⟩ := h.cut
  refine ⟨hback, ?_⟩
  rw [splitBody, splitRound, h.stringAt]
  simp only [bind, Except.bind, idxOf?_append_cons hu, hcut, pure, Except.pure]
  by_cases hfull : maxArgs ≤ a.ac
  · simp only [if_pos hfull]
  · simp only [if_neg hfull, hfront.stringAt, Argv.push_eq hfull, Option.map_some]

theorem splitOn_space_append {u : List UInt8} (hu : space ∉ u) (v : List UInt8) :
    (u ++ space :: v).splitOn space = u :: v.splitOn space := by
  rw [List.splitOn, List.splitOn, List.splitOnP_append_cons_of_forall_mem _ space (by simp)]
  intro x hx
  rw [beq_eq_false_iff_ne]
  rintro rfl
  exact hu hx

theorem splitOn_space_self (ht : space ∉ t) : t.splitOn space = [t] := by
  rw [List.splitOn, List.splitOnP_eq_singleton]
  intro x hx
  rw [beq_eq_false_iff_ne]
  rintro rfl
  exact ht hx

/-- The loop pushes the pieces of the string. -/
theorem run_splitBody {fuel : ℕ} (h : HoldsString bufsiz line i t) (hfuel : t.length < fuel)
    (a : Argv) :
    ∃ line', run (splitBody bufsiz) fuel (line, i, a) =
      some (.ok ((a.pushAll (t.splitOn space)).map fun a => (line', a))) := by
  induction fuel generalizing line i t a with
  | zero => omega
  | succ fuel ih =>
      by_cases hspace : space ∈ t
      · obtain ⟨u, v, rfl, hu⟩ := List.eq_append_cons_of_mem hspace
        obtain ⟨hback, hbody⟩ := splitBody_piece h hu a
        rw [splitOn_space_append hu, Argv.pushAll]
        split
        · next hfull =>
            rw [if_pos hfull] at hbody
            exact ⟨line, run_done hbody⟩
        · next hroom =>
            rw [if_neg hroom] at hbody
            rw [run_again hbody]
            refine ih hback ?_ _
            simp only [List.length_append, List.length_cons] at hfuel
            omega
      · rw [splitOn_space_self hspace]
        exact ⟨line, run_done (splitBody_last h hspace a)⟩

theorem splitLine_eq (h : HoldsString bufsiz line 0 t) (a : Argv) :
    ∃ line', splitLine bufsiz line a =
      some (.ok ((a.pushAll (t.splitOn space)).map fun a => (line', a))) :=
  run_splitBody h (by have := h.inside; omega) a

/-! ### Trimming -/

/-- The last character of a string that stands at the front of the array. -/
theorem HoldsString.last {c : UInt8} (h : HoldsString bufsiz line 0 (t ++ [c])) :
    line t.length = c ∧ HoldsString bufsiz (store line t.length [0]) 0 t := by
  have hcells := h.cells
  rw [List.length_append, slice_add] at hcells
  obtain ⟨-, hlast⟩ := List.append_inj hcells (length_slice ..)
  have hcut := (HoldsString.cut (v := []) h).2.1
  rw [Nat.zero_add] at hcut hlast
  exact ⟨(List.cons.inj hlast).1, hcut⟩

/-- Nothing stops the pointer in a line of blanks. -/
theorem trim_blank (h : HoldsString bufsiz line 0 t) (hblank : ∀ c ∈ t, isBlank c = true) :
    trim bufsiz line t.length = .error .underrun := by
  induction t using List.reverseRecOn generalizing line with
  | nil => rfl
  | append_singleton t c ih =>
      have hinside := h.inside
      obtain ⟨hlast, hfront⟩ := h.last
      simp only [List.length_append, List.length_singleton] at hinside ⊢
      rw [trim, if_neg (by omega), hlast, if_pos (hblank c (by simp))]
      exact ih hfront fun x hx => hblank x (List.mem_append_left _ hx)

/-- Elsewhere the trailing blanks are cut off. -/
theorem trim_text (h : HoldsString bufsiz line 0 t) (htext : ∃ c ∈ t, isBlank c = false) :
    ∃ line', trim bufsiz line t.length = .ok line' ∧
      HoldsString bufsiz line' 0 (t.rdropWhile isBlank) := by
  induction t using List.reverseRecOn generalizing line with
  | nil =>
      obtain ⟨c, hc, -⟩ := htext
      cases hc
  | append_singleton t c ih =>
      have hinside := h.inside
      obtain ⟨hlast, hfront⟩ := h.last
      simp only [List.length_append, List.length_singleton] at hinside ⊢
      rw [trim, if_neg (by omega), hlast]
      by_cases hc : isBlank c = true
      · rw [if_pos hc, List.rdropWhile_concat_pos _ _ _ hc]
        refine ih hfront ?_
        obtain ⟨x, hx, hnot⟩ := htext
        rcases List.mem_append.mp hx with hx | hx
        · exact ⟨x, hx, hnot⟩
        · rw [List.mem_singleton.mp hx, hc] at hnot
          cases hnot
      · rw [if_neg hc, List.rdropWhile_concat_neg _ _ _ hc]
        exact ⟨line, rfl, h⟩

/-! ### One line of the file -/

/-- `fgets` of a line that fits. -/
theorem fgets_line {l : List UInt8} (hl : newline ∉ l) (hlen : l.length + 1 < bufsiz)
    (rest : List UInt8) (line : ℕ → UInt8) :
    fgets bufsiz (l ++ newline :: rest) line =
      some (rest, store line 0 (l ++ [newline] ++ [0])) := by
  have hfront : (l ++ newline :: rest).takeWhile (· ≠ newline) = l := by
    rw [List.takeWhile_append_of_pos]
    · simp
    · intro c hc
      have hne : c ≠ newline := fun heq => hl (heq ▸ hc)
      simp [hne]
  have hgot : (l ++ ((l ++ newline :: rest).drop l.length).take 1).take (bufsiz - 1) =
      l ++ [newline] := by
    rw [List.drop_left, List.take_of_length_le]
    · simp
    · simp only [List.take_succ_cons, List.take_zero, List.length_append, List.length_singleton]
      omega
  rw [fgets]
  simp only [hfront, hgot]
  rw [if_neg (by simp)]
  simp

/-- The array behind `fgets`, with the line up to its first NUL. -/
theorem holdsString_line {u v : List UInt8} (hu : 0 ∉ u) (hlen : u.length < bufsiz)
    (line : ℕ → UInt8) : HoldsString bufsiz (store line 0 (u ++ 0 :: v)) 0 u where
  cells := by
    have hall := slice_store line 0 (u ++ 0 :: v)
    rw [List.length_append, slice_add] at hall
    exact (List.append_inj hall (length_slice ..)).1
  nul := by simp [store]
  noNul := hu
  inside := by omega

theorem lastNewline_line {l : List UInt8} : lastNewline (l ++ [newline]) = some l.length := by
  simp [lastNewline, List.idxOf?, List.findIdx?_cons]

theorem lastNewline_none {u : List UInt8} (h : newline ∉ u) : lastNewline u = none := by
  rw [lastNewline, List.idxOf?_eq_none_iff.mpr (by simpa using h), Option.map_none]

/-- A line that is a comment. -/
theorem fileBody_comment {l : List UInt8} (hl : newline ∉ l) (hlen : l.length + 1 < bufsiz)
    (hcomment : isComment l = true) (rest : List UInt8) (line : ℕ → UInt8) (a : Argv) :
    ∃ line', fileBody bufsiz (l ++ newline :: rest, line, a) = some (.again (rest, line', a)) := by
  have hhead : store line 0 (l ++ [newline] ++ [0]) 0 = 35 := by
    cases l with
    | nil => cases hcomment
    | cons c l =>
        have hc : c = 35 := by simpa [isComment] using hcomment
        simp [store, hc]
  rw [fileBody, fgets_line hl hlen]
  simp only
  rw [if_pos hhead]
  exact ⟨_, rfl⟩

theorem head_ne {l : List UInt8} (hcomment : ¬isComment l = true) (line : ℕ → UInt8) :
    store line 0 (l ++ [newline] ++ [0]) 0 ≠ 35 := by
  cases l with
  | nil =>
      have hne : newline ≠ 35 := by decide
      simpa [store] using hne
  | cons c l =>
      have hc : c ≠ 35 := by simpa [isComment] using hcomment
      simpa [store] using hc

/-- A line with a NUL: its newline is not found. -/
theorem fileBody_nul {l : List UInt8} (hl : newline ∉ l) (hlen : l.length + 1 < bufsiz)
    (hcomment : ¬isComment l = true) (hnul : 0 ∈ l) (rest : List UInt8) (line : ℕ → UInt8)
    (a : Argv) :
    fileBody bufsiz (l ++ newline :: rest, line, a) = some (.done (.ok .lineTooLong)) := by
  obtain ⟨u, v, rfl, hu⟩ := List.eq_append_cons_of_mem hnul
  have hcells : u ++ 0 :: v ++ [newline] ++ [0] = u ++ 0 :: (v ++ [newline] ++ [0]) := by simp
  have hstring : HoldsString bufsiz (store line 0 (u ++ 0 :: v ++ [newline] ++ [0])) 0 u := by
    rw [hcells]
    refine holdsString_line hu ?_ line
    simp only [List.length_append, List.length_cons] at hlen
    omega
  have hnone : lastNewline u = none := lastNewline_none fun hmem => hl (List.mem_append_left _ hmem)
  rw [fileBody, fgets_line hl hlen]
  simp only
  rw [if_neg (head_ne hcomment line), hstring.stringAt]
  simp only [hnone]

/-- Any other line is trimmed: past the front of the array, or to a text that is split. -/
theorem fileBody_text {l : List UInt8} (hl : newline ∉ l) (hlen : l.length + 1 < bufsiz)
    (hcomment : ¬isComment l = true) (hnul : 0 ∉ l) (rest : List UInt8) (line : ℕ → UInt8)
    (a : Argv) :
    ((∀ c ∈ l, isBlank c = true) ∧ fileBody bufsiz (l ++ newline :: rest, line, a) =
        some (.done (.error .underrun))) ∨
      (∃ c ∈ l, isBlank c = false) ∧
        ∃ line', fileBody bufsiz (l ++ newline :: rest, line, a) =
          some (match a.pushAll (linePieces l) with
            | none => .done (.ok .tooManyArgs)
            | some a => .again (rest, line', a)) := by
  have hfull : HoldsString bufsiz (store line 0 (l ++ [newline] ++ [0])) 0 (l ++ [newline]) := by
    refine holdsString_line (v := []) ?_ (by simpa using hlen) line
    intro hmem
    rcases List.mem_append.mp hmem with hmem | hmem
    · exact hnul hmem
    · have hne : (0 : UInt8) ≠ newline := by decide
      exact hne (List.mem_singleton.mp hmem)
  obtain ⟨hcut, hcutLine, -⟩ := HoldsString.cut (v := []) hfull
  rw [Nat.zero_add] at hcut hcutLine
  rw [fileBody, fgets_line hl hlen]
  simp only
  rw [if_neg (head_ne hcomment line), hfull.stringAt]
  simp only [lastNewline_line, hcut, Except.bind]
  by_cases htext : ∃ c ∈ l, isBlank c = false
  · obtain ⟨line', htrim, htrimmed⟩ := trim_text hcutLine htext
    obtain ⟨line'', hsplit⟩ := splitLine_eq htrimmed a
    refine .inr ⟨htext, line'', ?_⟩
    rw [htrim]
    rw [← linePieces] at hsplit
    simp only [hsplit, Option.map_some]
    cases a.pushAll (linePieces l) <;> rfl
  · have hblank : ∀ c ∈ l, isBlank c = true := fun c hc => by
      by_contra hnot
      exact htext ⟨c, hc, by simpa using hnot⟩
    refine .inl ⟨hblank, ?_⟩
    rw [trim_blank hcutLine hblank]

end Strings

/-! ### The whole file -/

theorem Argv.pushAll_append (a : Argv) (ps qs : List (List UInt8)) :
    a.pushAll (ps ++ qs) = (a.pushAll ps).bind fun a => a.pushAll qs := by
  induction ps generalizing a with
  | nil => rfl
  | cons p ps ih =>
      rw [List.cons_append, Argv.pushAll, Argv.pushAll]
      split
      · rfl
      · exact ih _

/-- What the arguments are behind pieces that fit. -/
theorem Argv.pushAll_some {a a' : Argv} {ps : List (List UInt8)} (h : a.pushAll ps = some a') :
    a'.ac = a.ac + ps.length ∧ slice a'.av a.ac ps.length = ps.map some ∧
      ∀ k < a.ac, a'.av k = a.av k := by
  induction ps generalizing a with
  | nil =>
      cases h
      exact ⟨rfl, rfl, fun _ _ => rfl⟩
  | cons p ps ih =>
      rw [Argv.pushAll] at h
      split at h
      · cases h
      · obtain ⟨hac, hslice, hbelow⟩ := ih h
        simp only at hac hslice hbelow
        refine ⟨?_, ?_, fun k hk => ?_⟩
        · rw [hac, List.length_cons]
          omega
        · rw [List.length_cons, slice, hslice, hbelow a.ac (Nat.lt_succ_self _),
            Function.update_self, List.map_cons]
        · rw [hbelow k (by omega), Function.update_of_ne (by omega)]

theorem Argv.pushAll_eq_none_iff {a : Argv} {ps : List (List UInt8)} (h : ps ≠ []) :
    a.pushAll ps = none ↔ maxArgs < a.ac + ps.length := by
  induction ps generalizing a with
  | nil => exact absurd rfl h
  | cons p ps ih =>
      rw [Argv.pushAll]
      split
      · next hfull =>
          simp only [List.length_cons, true_iff]
          omega
      · next hroom =>
          cases ps with
          | nil =>
              simp only [Argv.pushAll, reduceCtorEq, List.length_singleton, false_iff]
              omega
          | cons q ps =>
              rw [ih (List.cons_ne_nil q ps)]
              simp only [List.length_cons]
              omega

theorem linePieces_ne_nil (l : List UInt8) : linePieces l ≠ [] := List.splitOnP_ne_nil _ _

/-- How the reading of these lines ends, from the arguments `a` on. -/
def EndsAs (a : Argv) (lines : List (List UInt8)) : Except LineFault FileEnd → Prop
  | .ok (.parseArgs a') => TrimsInside a.ac lines ∧ a.pushAll (filePieces lines) = some a'
  | .ok _ => TrimsInside a.ac lines
  | .error _ => ¬TrimsInside a.ac lines

/-- The loop over the file, by induction on its lines. -/
theorem run_fileBody {bufsiz : ℕ} {lines : List (List UInt8)}
    (h : ∀ l ∈ lines, newline ∉ l ∧ l.length + 1 < bufsiz) {fuel : ℕ}
    (hfuel : (fileOf lines).length < fuel) (line : ℕ → UInt8) (a : Argv) :
    ∃ r, run (fileBody bufsiz) fuel (fileOf lines, line, a) = some r ∧ EndsAs a lines r := by
  induction lines generalizing fuel line a with
  | nil =>
      obtain ⟨fuel, rfl⟩ := Nat.exists_eq_add_one_of_ne_zero (Nat.ne_zero_of_lt hfuel)
      have hend : fileBody bufsiz (fileOf [], line, a) = some (.done (.ok (.parseArgs a))) := by
        simp [fileBody, fgets, fileOf]
      exact ⟨.ok (.parseArgs a), run_done hend, trivial, rfl⟩
  | cons l lines ih =>
      obtain ⟨hl, hlen⟩ := h l List.mem_cons_self
      have hlines := fun x hx => h x (List.mem_cons_of_mem l hx)
      have hfile : fileOf (l :: lines) = l ++ newline :: fileOf lines := by simp [fileOf]
      rw [hfile] at hfuel ⊢
      obtain ⟨fuel, rfl⟩ := Nat.exists_eq_add_one_of_ne_zero (Nat.ne_zero_of_lt hfuel)
      have hfuel' : (fileOf lines).length < fuel := by
        simp only [List.length_append, List.length_cons] at hfuel
        omega
      by_cases hcomment : isComment l = true
      · obtain ⟨line', hbody⟩ := fileBody_comment hl hlen hcomment (fileOf lines) line a
        obtain ⟨r, hrun, hends⟩ := ih hlines hfuel' line' a
        refine ⟨r, (run_again hbody).trans hrun, ?_⟩
        have hpieces : filePieces (l :: lines) = filePieces lines := by
          simp [filePieces, hcomment]
        have htrims : TrimsInside a.ac (l :: lines) = TrimsInside a.ac lines := if_pos hcomment
        unfold EndsAs
        rw [hpieces, htrims]
        exact hends
      · by_cases hnul : 0 ∈ l
        · refine ⟨_, run_done (fileBody_nul hl hlen hcomment hnul _ line a), ?_⟩
          show TrimsInside a.ac (l :: lines)
          rw [TrimsInside, if_neg hcomment]
          exact .inl hnul
        · have htrims : TrimsInside a.ac (l :: lines) ↔ (∃ c ∈ l, isBlank c = false) ∧
              (maxArgs < a.ac + (linePieces l).length ∨
                TrimsInside (a.ac + (linePieces l).length) lines) := by
            rw [TrimsInside, if_neg hcomment, or_iff_right hnul]
          have hpieces : filePieces (l :: lines) = linePieces l ++ filePieces lines := by
            simp [filePieces, hcomment]
          rcases fileBody_text hl hlen hcomment hnul (fileOf lines) line a with
            ⟨hblank, hbody⟩ | ⟨htext, line', hbody⟩
          · refine ⟨_, run_done hbody, ?_⟩
            show ¬TrimsInside a.ac (l :: lines)
            rw [htrims]
            rintro ⟨⟨c, hc, hnot⟩, -⟩
            rw [hblank c hc] at hnot
            cases hnot
          · cases hpush : a.pushAll (linePieces l) with
            | none =>
                rw [hpush] at hbody
                refine ⟨_, run_done hbody, ?_⟩
                show TrimsInside a.ac (l :: lines)
                rw [htrims]
                exact ⟨htext, .inl ((Argv.pushAll_eq_none_iff (linePieces_ne_nil l)).mp hpush)⟩
            | some a₁ =>
                rw [hpush] at hbody
                obtain ⟨r, hrun, hends⟩ := ih hlines hfuel' line' a₁
                have hac := (Argv.pushAll_some hpush).1
                have hroom : ¬maxArgs < a.ac + (linePieces l).length := by
                  rw [← Argv.pushAll_eq_none_iff (linePieces_ne_nil l), hpush]
                  exact Option.some_ne_none a₁
                have htrims' : TrimsInside a.ac (l :: lines) ↔ TrimsInside a₁.ac lines := by
                  rw [htrims, hac, and_iff_right htext, or_iff_right hroom]
                refine ⟨r, (run_again hbody).trans hrun, ?_⟩
                unfold EndsAs at hends ⊢
                rw [hpieces, Argv.pushAll_append, hpush, htrims']
                exact hends

/-- **The tokeniser stays inside its arrays, and passes the pieces on, exactly when no line that
it trims is blank.** -/
theorem parseArgsFile_tokenised_iff {bufsiz : ℕ} {lines : List (List UInt8)}
    (h : ∀ l ∈ lines, newline ∉ l ∧ l.length + 1 < bufsiz) (line : ℕ → UInt8) :
    Tokenised lines (parseArgsFile bufsiz (fileOf lines) line) ↔ TrimsInside 1 lines := by
  obtain ⟨r, hrun, hends⟩ := run_fileBody h (Nat.lt_succ_self _) line Argv.start
  rw [parseArgsFile, hrun]
  rcases r with fault | (a | - | -)
  · exact iff_of_false id hends
  · obtain ⟨hac, hslice, -⟩ := Argv.pushAll_some hends.2
    exact iff_of_true ⟨hac, hslice⟩ hends.1
  · exact iff_of_true trivial hends
  · exact iff_of_true trivial hends

/-- A file with one blank line; `BUFSIZ` is 512. -/
theorem blankLine_underruns :
    ¬Tokenised [[]] (parseArgsFile 512 (fileOf [[]]) fun _ => 0) := by
  have hrun : parseArgsFile 512 (fileOf [[]]) (fun _ => 0) = some (.error .underrun) := rfl
  rw [hrun]
  exact id

/-- A comment, and a line with two spaces between its words and blanks behind them. -/
def twoLines : List (List UInt8) := [[35, 32, 97], [45, 97, 32, 32, 98, 9, 32]]

theorem parseArgsFile_tokenised_iff_two :
    Tokenised twoLines (parseArgsFile 512 (fileOf twoLines) fun _ => 0) ∧
      filePieces twoLines = [[45, 97], [], [98]] := by
  have hlines : ∀ l ∈ twoLines, newline ∉ l ∧ l.length + 1 < 512 := by decide
  have htrims : TrimsInside 1 twoLines := by
    refine .inr ⟨⟨45, by decide, by decide⟩, .inr trivial⟩
  exact ⟨(parseArgsFile_tokenised_iff hlines fun _ => 0).mpr htrims, by decide⟩

end FastCgi
