import FastCgi.App.Environment

/-!
The environment of an accepted request as an array of strings.

A name or a value of `FCGI_PARAMS` may hold any bytes; `ReadParams` copies
them into memory with an `=` between them and a NUL behind them, and from
then on they are read as C strings, up to the first NUL, in an array that
the first `NULL` ends. `FCGX_GetParam` returns the first value of a name
(`fcgxGetParam_entries`).
-/

namespace FastCgi

open ByteMem BoundedLoop

/-! ### C strings in memory -/

/-- The bytes of the string at the front of `mem`. -/
def cBytes (mem : List UInt8) : List UInt8 := mem.takeWhile (· ≠ 0)

/-- `strncmp(s, t, n) == 0`. -/
def strncmpEq : List UInt8 → List UInt8 → ℕ → Bool
  | _, _, 0 => true
  | a :: s, b :: t, n + 1 => a == b && (a == 0 || strncmpEq s t n)
  | _, _, _ + 1 => false

/-- `strchr(mem, b) - mem`. -/
def strchr (mem : List UInt8) (b : UInt8) : Option ℕ := (cBytes mem).findIdx? (· == b)

/-- `FCGX_GetParam`, of the strings in front of the `NULL` of `envp`: the memory from the
value on. -/
def fcgxGetParam (name : CString) : List (List UInt8) → Option (List UInt8)
  | [] => none
  | p :: envp =>
      let len := name.bytes.length
      if strncmpEq (name.bytes ++ [0]) p len = true ∧ p[len]? = some equalSign then
        some (p.drop (len + 1))
      else fcgxGetParam name envp

theorem cBytes_append_nul {bs : List UInt8} (h : 0 ∉ bs) (rest : List UInt8) :
    cBytes (bs ++ 0 :: rest) = bs := by
  rw [cBytes, List.takeWhile_append_of_pos]
  · simp
  · intro b hb
    have hne : b ≠ 0 := fun heq => h (heq ▸ hb)
    simp [hne]

/-- A string is compared up to its NUL. -/
theorem strncmpEq_iff {s t : List UInt8} (h : 0 ∉ s) :
    strncmpEq (s ++ [0]) t s.length = true ↔ s <+: t := by
  induction s generalizing t with
  | nil => simp [strncmpEq]
  | cons a s ih =>
      have ha : a ≠ 0 := fun heq => h (by simp [heq])
      cases t with
      | nil => simp [strncmpEq]
      | cons b t =>
          have hs : 0 ∉ s := fun hmem => h (List.mem_cons_of_mem a hmem)
          simp [strncmpEq, ha, ih hs, List.cons_prefix_cons]

/-- Two names are read back from in front of their `=`. -/
theorem name_inj {xs ys zs ws : List UInt8} (hx : equalSign ∉ xs) (hy : equalSign ∉ ys)
    (h : xs ++ equalSign :: zs = ys ++ equalSign :: ws) : xs = ys ∧ zs = ws := by
  induction xs generalizing ys with
  | nil =>
      cases ys with
      | nil => exact ⟨rfl, (List.cons.inj h).2⟩
      | cons y ys => exact absurd (by simp [(List.cons.inj h).1]) hy
  | cons x xs ih =>
      cases ys with
      | nil => exact absurd (by simp [(List.cons.inj h).1]) hx
      | cons y ys =>
          obtain ⟨rfl, hrest⟩ := List.cons.inj h
          obtain ⟨rfl, rfl⟩ := ih (fun hmem => hx (List.mem_cons_of_mem x hmem))
            (fun hmem => hy (List.mem_cons_of_mem x hmem)) hrest
          exact ⟨rfl, rfl⟩

/-! ### The first value of a name -/

/-- The value of the first pair with the name. -/
def firstValue (ps : List NameValue) (name : List UInt8) : Option (List UInt8) :=
  (ps.find? fun p => p.name = name).map NameValue.value

/-- The entry of a pair is found under its name, and no other name is. -/
theorem entry_matches_iff {p : NameValue} (hp : PlainName p.name) {name : CString}
    (hname : equalSign ∉ name.bytes) :
    strncmpEq (name.bytes ++ [0]) p.entry name.bytes.length = true ∧
      p.entry[name.bytes.length]? = some equalSign ↔ p.name = name.bytes := by
  rw [strncmpEq_iff name.noNul]
  constructor
  · rintro ⟨⟨rest, hrest⟩, hequal⟩
    rw [← hrest, List.getElem?_append_right (Nat.le_refl _), Nat.sub_self] at hequal
    obtain ⟨rest, rfl⟩ : ∃ rest', rest = equalSign :: rest' := by
      cases rest with
      | nil => cases hequal
      | cons b rest =>
          obtain rfl := Option.some.inj hequal
          exact ⟨rest, rfl⟩
    exact (name_inj hname hp.2 hrest).1.symm
  · intro heq
    rw [NameValue.entry, heq, List.getElem?_append_right (Nat.le_refl _), Nat.sub_self]
    exact ⟨List.prefix_append _ _, rfl⟩

/-- **`FCGX_GetParam`** returns the first value. -/
theorem fcgxGetParam_entries {ps : List NameValue}
    (h : ∀ p ∈ ps, PlainName p.name ∧ 0 ∉ p.value) {name : CString}
    (hname : equalSign ∉ name.bytes) :
    (fcgxGetParam name (ps.map NameValue.entry)).map cBytes = firstValue ps name.bytes := by
  induction ps with
  | nil => rfl
  | cons p ps ih =>
      obtain ⟨hp, hvalue⟩ := h p List.mem_cons_self
      have hrest := ih fun p' hp' => h p' (List.mem_cons_of_mem p hp')
      rw [List.map_cons, fcgxGetParam]
      simp only [entry_matches_iff hp hname]
      rw [firstValue, List.find?_cons]
      split
      · next heq =>
          have hdrop : p.entry.drop (name.bytes.length + 1) = p.value ++ [0] := by
            rw [NameValue.entry, heq, ← List.drop_drop, List.drop_left' rfl]
            rfl
          simp only [heq, decide_true, Option.map_some, hdrop, cBytes_append_nul hvalue]
      · next hne =>
          simp only [hne, decide_false]
          exact hrest

/-! ### The role -/

/-- The name of the entry of the role. -/
def fcgiRole : List UInt8 := ascii ['F', 'C', 'G', 'I', '_', 'R', 'O', 'L', 'E']

theorem plainName_fcgiRole : PlainName fcgiRole := ⟨by decide, by decide⟩

theorem roleStr_entry {role : ℕ} {s : List UInt8} (h : roleStr role = some s) :
    ∃ value, s = NameValue.entry ⟨fcgiRole, value⟩ ∧ 0 ∉ value := by
  unfold roleStr at h
  split at h
  · obtain rfl := Option.some.inj h
    exact ⟨ascii ['R', 'E', 'S', 'P', 'O', 'N', 'D', 'E', 'R'], rfl, by decide⟩
  · split at h
    · obtain rfl := Option.some.inj h
      exact ⟨ascii ['A', 'U', 'T', 'H', 'O', 'R', 'I', 'Z', 'E', 'R'], rfl, by decide⟩
    · split at h
      · obtain rfl := Option.some.inj h
        exact ⟨ascii ['F', 'I', 'L', 'T', 'E', 'R'], rfl, by decide⟩
      · cases h

/-- `FCGX_GetParam` finds the role, whatever strings are behind it. -/
theorem fcgxGetParam_role {value : List UInt8} (hvalue : 0 ∉ value) (envp : List (List UInt8)) :
    (fcgxGetParam ⟨fcgiRole, plainName_fcgiRole.1⟩
      (NameValue.entry ⟨fcgiRole, value⟩ :: envp)).map cBytes = some value := by
  have hmatch := (@entry_matches_iff ⟨fcgiRole, value⟩ plainName_fcgiRole
    ⟨fcgiRole, plainName_fcgiRole.1⟩ plainName_fcgiRole.2).mpr rfl
  have hdrop : (NameValue.entry ⟨fcgiRole, value⟩).drop (fcgiRole.length + 1) =
      value ++ 0 :: [] := by
    rw [NameValue.entry, ← List.drop_drop, List.drop_left' rfl]
    rfl
  rw [fcgxGetParam]
  simp only [if_pos hmatch, Option.map_some, hdrop, cBytes_append_nul hvalue]

/-! ### The array -/

/-- The strings in front of the first `NULL` of the array. -/
def Params.strings (p : Params) : List (List UInt8) :=
  ((slice p.vec 0 (p.cur + 1)).takeWhile Option.isSome).filterMap id

/-- The array ends behind the strings that have been put into it. -/
structure Params.Terminated (p : Params) : Prop where
  strings : ∀ x ∈ slice p.vec 0 p.cur, x.isSome = true
  null : p.vec p.cur = none

theorem terminated_newParams (n : ℕ) : (newParams n).Terminated :=
  ⟨fun _ hx => (List.not_mem_nil hx).elim, rfl⟩

theorem Params.Terminated.putParam {p : Params} (h : p.Terminated) (x : List UInt8) :
    (putParam p x).Terminated := by
  have hslice : slice (FastCgi.putParam p x).vec 0 (p.cur + 1) =
      slice p.vec 0 p.cur ++ [some x] := by
    show slice (store p.vec p.cur [some x, none]) 0 (p.cur + 1) = _
    rw [slice_add, slice_store_before _ (by omega), Nat.zero_add]
    simp [slice, store]
  refine ⟨fun y hy => ?_, ?_⟩
  · have hmem : y ∈ slice p.vec 0 p.cur ++ [some x] := hslice ▸ hy
    rcases List.mem_append.mp hmem with hmem | hmem
    · exact h.strings y hmem
    · obtain rfl := List.mem_singleton.mp hmem
      rfl
  · show store p.vec p.cur [some x, none] (p.cur + 1) = none
    simp [store]

theorem Params.Terminated.strings_eq {p : Params} (h : p.Terminated) : p.strings = p.entries := by
  have hslice : slice p.vec 0 (p.cur + 1) = slice p.vec 0 p.cur ++ [none] := by
    rw [slice_add, Nat.zero_add, slice, h.null]
    rfl
  rw [Params.strings, hslice, List.takeWhile_append_of_pos h.strings]
  simp [Params.entries]

theorem Params.Terminated.puts {p : Params} (h : p.Terminated) (strs : List (List UInt8)) :
    (strs.foldl FastCgi.putParam p).Terminated := by
  induction strs generalizing p with
  | nil => exact h
  | cons x strs ih => exact ih (h.putParam x)

/-- All that `ReadParams` does with the parameters is to put strings. -/
theorem readParams_puts {fill : Chan → Option Chan} {p p' : Params} {c c' : Chan} {rc : ℤ}
    (h : readParams fill p c = some (rc, p', c')) : ∃ strs : List (List UInt8), p' = strs.foldl putParam p := by
  refine run_invariant
    (I := fun x : Params × Chan => ∃ strs : List (List UInt8), x.1 = strs.foldl putParam p)
    (P := fun r : ℤ × Params × Chan => ∃ strs : List (List UInt8), r.2.1 = strs.foldl putParam p)
    (fun x pass hx hpass => ?_) ⟨[], rfl⟩ h
  rw [readParamsBody] at hpass
  split at hpass
  · cases hpass
  · cases hpass
    exact hx
  · split at hpass
    · cases hpass
    · cases hpass
      exact hx
    · next pair _ _ =>
        cases hpass
        obtain ⟨strs, hstrs⟩ := hx
        refine ⟨strs ++ [pair.entry], ?_⟩
        rw [List.foldl_append, ← hstrs]
        rfl

/-- The parameters of a request are strings put into the vector that `NewParams` has made. -/
theorem readRequest_puts {c c' : Chan} {params : Params}
    (h : readRequest c = some (some params, c')) :
    ∃ strs : List (List UInt8), params = strs.foldl putParam (newParams 30) := by
  rw [readRequest] at h
  split at h
  · cases h
  · split at h
    · cases h
    · split at h
      · cases h
      · next _ role _ =>
          rw [readEnvironment] at h
          split at h
          · cases h
          · next hread =>
              obtain ⟨strs, hstrs⟩ := readParams_puts hread
              obtain ⟨hsome, -⟩ := Prod.mk.inj (Option.some.inj h)
              split at hsome
              · cases hsome
                exact ⟨role :: strs, hstrs⟩
              · cases hsome

theorem readRequest_terminated {c c' : Chan} {params : Params}
    (h : readRequest c = some (some params, c')) : params.Terminated := by
  obtain ⟨strs, rfl⟩ := readRequest_puts h
  exact (terminated_newParams 30).puts strs

/-- What `r'` was accepted with from the connection of `r₁`: the role that the record which
begins it asks for, the pairs that its `FCGI_PARAMS` stream codes, and the array of both. -/
structure EnvironmentRead (r₁ r' : Request) (role : List UInt8) (ps : List NameValue)
    (params : Params) : Prop where
  accepts : ∃ e, Accepts (openReader r₁).view role ps e
  envp : r'.envp = some params
  strings : params.strings = role :: ps.map NameValue.entry

/-- **The environment of an accepted request.** -/
theorem accepted_environment {lib : Bool} {pending rest : List Connection} {r r' : Request}
    (h : fcgxAcceptR lib pending r = some (0, r', rest)) :
    ∃ r₁ role ps params, r.Offers pending r₁ ∧ acceptConnection r₁ = some (true, r') ∧
      EnvironmentRead r₁ r' role ps params := by
  obtain ⟨r₁, hoffers, hacc⟩ := fcgxAcceptR_ok h
  obtain ⟨params, c, hread, rfl⟩ := acceptConnection_ok hacc
  obtain ⟨res, c', hread', -, ⟨params', role, ps, rfl, hentries, ha, -⟩ | ⟨rfl, -⟩⟩ :=
    readRequest_spec (fresh_openReader r₁)
  · rw [hread] at hread'
    cases hread'
    refine ⟨r₁, role, ps, params, hoffers, hacc, ⟨_, ha⟩, rfl, ?_⟩
    rw [(readRequest_terminated hread).strings_eq, hentries]
  · rw [hread] at hread'
    cases hread'

/-- The role of an accepted request is the first pair of its environment. -/
theorem EnvironmentRead.role_pair {r₁ r' : Request} {role : List UInt8} {ps : List NameValue}
    {params : Params} (h : EnvironmentRead r₁ r' role ps params) :
    ∃ value, role = NameValue.entry ⟨fcgiRole, value⟩ ∧ 0 ∉ value := by
  obtain ⟨e, ha⟩ := h.accepts
  exact roleStr_entry ha.role_eq

end FastCgi
