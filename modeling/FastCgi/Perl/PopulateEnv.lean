import FastCgi.App.GetParam

/-!
The environment of a request in the Perl binding (`perl/FCGI.xs`).

`populate_env` stores the array of an accepted request into a hash, string by
string: a later string replaces an earlier one, where `FCGX_GetParam` returns
the first. It takes every string for a `name=value`, which the array only
holds if no name has a NUL in front of its first `=`
(`name_value_strings_iff`); of the pairs that pass, the hash has the last value
of each name and `FCGX_GetParam` the first (`lookups_of_pairs`).
-/

namespace FastCgi

namespace Perl

/-! ### The hash -/

/-- A hash: the value that is stored under each key. -/
abbrev Hv := List UInt8 → Option (List UInt8)

/-- `hv_clear`. -/
def hvClear (_ : Hv) : Hv := fun _ => none

/-- `hv_store`. -/
def hvStore (hv : Hv) (key val : List UInt8) : Hv := Function.update hv key (some val)

/-- The loop of `populate_env` over the strings in front of the `NULL`; at `none` the
assertion `p1 != NULL` has failed. -/
def storeStrings : List (List UInt8) → Hv → Option Hv
  | [], hv => some hv
  | p :: envp, hv =>
      match strchr p equalSign with
      | none => none
      | some p1 => storeStrings envp (hvStore hv (p.take p1) (cBytes (p.drop (p1 + 1))))

/-- `populate_env`. -/
def populateEnv (envp : List (List UInt8)) (hv : Hv) : Option Hv := storeStrings envp (hvClear hv)

/-! ### What is stored -/

/-- The key of a string: the bytes in front of its first `=`. -/
def stringKey (s : List UInt8) : List UInt8 := (cBytes s).takeWhile (· ≠ equalSign)

/-- The value of a string: the bytes behind its first `=`. -/
def stringValue (s : List UInt8) : List UInt8 := cBytes (s.drop ((stringKey s).length + 1))

/-- The last string with the key. -/
def lastString (envp : List (List UInt8)) (key : List UInt8) : Option (List UInt8) :=
  envp.reverse.find? fun s => stringKey s = key

theorem take_stringKey (s : List UInt8) : s.take (stringKey s).length = stringKey s := by
  have hprefix : stringKey s <+: s :=
    (List.takeWhile_prefix _).trans (List.takeWhile_prefix _)
  exact (List.prefix_iff_eq_take.mp hprefix).symm

theorem strchr_equalSign {s : List UInt8} (h : equalSign ∈ cBytes s) :
    strchr s equalSign = some (stringKey s).length := by
  rw [strchr, stringKey]
  revert h
  induction cBytes s with
  | nil => exact fun h => absurd h List.not_mem_nil
  | cons b bs ih =>
      intro h
      rw [List.findIdx?_cons, List.takeWhile_cons]
      by_cases hb : b = equalSign
      · simp [hb]
      · have hmem : equalSign ∈ bs := (List.mem_cons.mp h).resolve_left fun heq => hb heq.symm
        simp [hb, ih hmem]

theorem strchr_none_iff {s : List UInt8} : strchr s equalSign = none ↔ equalSign ∉ cBytes s := by
  simp only [strchr, List.findIdx?_eq_none_iff, beq_eq_false_iff_ne]
  exact ⟨fun h hmem => h _ hmem rfl, fun h b hb heq => h (heq ▸ hb)⟩

/-- The assertion holds exactly for the strings with an `=`. -/
theorem storeStrings_isSome {envp : List (List UInt8)} {hv : Hv} :
    (storeStrings envp hv).isSome = true ↔ ∀ s ∈ envp, equalSign ∈ cBytes s := by
  induction envp generalizing hv with
  | nil => simp [storeStrings]
  | cons s envp ih =>
      rw [storeStrings, List.forall_mem_cons]
      split
      · next hnone => simp [strchr_none_iff.mp hnone]
      · next p1 hsome =>
          have hmem : equalSign ∈ cBytes s := by
            by_contra hnot
            rw [strchr_none_iff.mpr hnot] at hsome
            cases hsome
          rw [ih]
          exact ⟨fun h => ⟨hmem, h⟩, And.right⟩

theorem lastString_cons (s : List UInt8) (envp : List (List UInt8)) (key : List UInt8) :
    lastString (s :: envp) key =
      (lastString envp key).or (if stringKey s = key then some s else none) := by
  rw [lastString, List.reverse_cons, List.find?_append, lastString, List.find?_singleton]
  by_cases hkey : stringKey s = key <;> simp [hkey]

/-- A later string replaces an earlier one. -/
theorem storeStrings_apply {envp : List (List UInt8)} {hv hash : Hv}
    (h : storeStrings envp hv = some hash) (key : List UInt8) :
    hash key = ((lastString envp key).map stringValue).or (hv key) := by
  induction envp generalizing hv with
  | nil =>
      cases h
      rfl
  | cons s envp ih =>
      rw [storeStrings] at h
      split at h
      · cases h
      · next p1 hsome =>
          have hmem : equalSign ∈ cBytes s := by
            by_contra hnot
            rw [strchr_none_iff.mpr hnot] at hsome
            cases hsome
          obtain rfl := Option.some.inj (hsome.symm.trans (strchr_equalSign hmem))
          rw [ih h, take_stringKey, lastString_cons]
          cases lastString envp key with
          | some s' => rfl
          | none =>
              by_cases hkey : stringKey s = key
              · simp [hvStore, hkey, stringValue]
              · simp [hvStore, hkey, Function.update_of_ne (Ne.symm hkey)]

/-- **The hash of an environment.** -/
theorem populateEnv_apply {envp : List (List UInt8)} {hv hash : Hv}
    (h : populateEnv envp hv = some hash) (key : List UInt8) :
    hash key = (lastString envp key).map stringValue := by
  rw [storeStrings_apply h]
  exact Option.or_none

/-! ### Strings of pairs -/

/-- An `=` is left of the entry of the name, read as a C string: no NUL stands in front of
the first `=`. -/
def EqualShows (name : List UInt8) : Prop := 0 ∉ name ∨ equalSign ∈ cBytes name

theorem equalShows_iff (xs zs : List UInt8) :
    equalSign ∈ cBytes (xs ++ equalSign :: zs) ↔ EqualShows xs := by
  induction xs with
  | nil =>
      have hne : equalSign ≠ 0 := by decide
      simp [cBytes, EqualShows, hne]
  | cons x xs ih =>
      by_cases hx : x = 0
      · simp [cBytes, EqualShows, hx]
      · simp only [cBytes, EqualShows] at ih
        simp only [cBytes, EqualShows, List.cons_append, List.takeWhile_cons, List.mem_cons,
          ne_eq, hx, not_false_eq_true, decide_true, if_true, ih, Ne.symm hx, false_or]
        exact or_left_comm

/-- The strings of pairs all pass exactly if an `=` is left of each. -/
theorem entries_pass_iff (ps : List NameValue) :
    (∀ s ∈ ps.map NameValue.entry, equalSign ∈ cBytes s) ↔ ∀ p ∈ ps, EqualShows p.name := by
  rw [List.forall_mem_map]
  exact forall₂_congr fun p _ => equalShows_iff p.name _

/-- A pair is read back from its entry. -/
theorem entry_read {p : NameValue} (hp : PlainName p.name) (hvalue : 0 ∉ p.value) :
    stringKey p.entry = p.name ∧ stringValue p.entry = p.value := by
  have hentry : p.entry = (p.name ++ equalSign :: p.value) ++ 0 :: [] := by
    simp [NameValue.entry]
  have hbytes : cBytes p.entry = p.name ++ equalSign :: p.value := by
    have hne : (0 : UInt8) ≠ equalSign := by decide
    rw [hentry, cBytes_append_nul]
    simp [hp.1, hvalue, hne]
  have hkey : stringKey p.entry = p.name := by
    rw [stringKey, hbytes, List.takeWhile_append_of_pos]
    · simp
    · intro b hb
      have hne : b ≠ equalSign := fun heq => hp.2 (heq ▸ hb)
      simp [hne]
  refine ⟨hkey, ?_⟩
  have hdrop : p.entry.drop (p.name.length + 1) = p.value ++ 0 :: [] := by
    rw [NameValue.entry, ← List.drop_drop, List.drop_left' rfl]
    rfl
  rw [stringValue, hkey, hdrop, cBytes_append_nul hvalue]

/-- The value of the last pair with the name. -/
def lastValue (ps : List NameValue) (name : List UInt8) : Option (List UInt8) :=
  firstValue ps.reverse name

theorem find_stringKey {ps : List NameValue} (h : ∀ p ∈ ps, PlainName p.name ∧ 0 ∉ p.value)
    (name : List UInt8) :
    ((ps.map NameValue.entry).find? fun s => stringKey s = name).map stringValue =
      firstValue ps name := by
  induction ps with
  | nil => rfl
  | cons p ps ih =>
      obtain ⟨hp, hvalue⟩ := h p List.mem_cons_self
      obtain ⟨hkey, hread⟩ := entry_read hp hvalue
      have hrest := ih fun p' hp' => h p' (List.mem_cons_of_mem p hp')
      rw [List.map_cons, firstValue, List.find?_cons, List.find?_cons, hkey]
      split
      · exact congrArg some hread
      · exact hrest

/-- The hash has the last value of each name. -/
theorem lastString_entries {ps : List NameValue} (h : ∀ p ∈ ps, PlainName p.name ∧ 0 ∉ p.value)
    (name : List UInt8) :
    (lastString (ps.map NameValue.entry) name).map stringValue = lastValue ps name := by
  rw [lastString, ← List.map_reverse]
  exact find_stringKey (fun p hp => h p (List.mem_reverse.mp hp)) name

/-! ### The role -/

/-- The hash has the role exactly if the strings of the peer leave it. -/
theorem role_kept_iff {value : List UInt8} (hvalue : 0 ∉ value) {envp : List (List UInt8)}
    {hv hash : Hv} (h : populateEnv (NameValue.entry ⟨fcgiRole, value⟩ :: envp) hv = some hash) :
    hash fcgiRole = some value ↔
      ∀ s, lastString envp fcgiRole = some s → stringValue s = value := by
  obtain ⟨hkey, hread⟩ := entry_read (p := ⟨fcgiRole, value⟩) plainName_fcgiRole hvalue
  rw [populateEnv_apply h, lastString_cons, if_pos hkey]
  cases lastString envp fcgiRole with
  | none => simp [hread]
  | some s => simp

/-! ### Accepted requests -/

/-- A responder's request with one `FCGI_PARAMS` record. -/
def paramsRequest (content : List UInt8) : List UInt8 :=
  (makeHeader fcgiBeginRequest 1 8 0).bytes ++ [0, 1, 0, 0, 0, 0, 0, 0] ++
    (makeHeader fcgiParams 1 content.length 0).bytes ++ content ++
    (makeHeader fcgiParams 1 0 0).bytes

/-- The value of `FCGI_ROLE` for that request. -/
def responder : List UInt8 := ascii ['R', 'E', 'S', 'P', 'O', 'N', 'D', 'E', 'R']

/-- The result of `FCGX_Accept_r` where it is 0, with the environment. -/
theorem accepted_of_run {pending : List Connection} {x : List (List UInt8)}
    (h : (fcgxAcceptR true pending idleRequest).map
      (fun x => (x.1, x.2.1.envp.map Params.strings, x.2.2.length)) = some (0, some x, 0)) :
    ∃ r' params, fcgxAcceptR true pending idleRequest = some (0, r', []) ∧
      r'.envp = some params ∧ params.strings = x := by
  obtain ⟨⟨rc, r', rest⟩, hacc, hval⟩ := Option.map_eq_some_iff.mp h
  simp only [Prod.mk.injEq, List.length_eq_zero_iff] at hval
  obtain ⟨rfl, henvp, rfl⟩ := hval
  obtain ⟨params, hparams, rfl⟩ := Option.map_eq_some_iff.mp henvp
  exact ⟨r', params, hacc, hparams, rfl⟩

section Accepted

variable {lib : Bool} {pending rest : List Connection} {r r' : Request}

/-- **The strings of an accepted environment** all have the form `name=value`, and pass the
assertion of `populate_env`, exactly if no name has a NUL in front of its first `=`. -/
theorem name_value_strings_iff (h : fcgxAcceptR lib pending r = some (0, r', rest)) (hv : Hv) :
    ∃ r₁ role ps params, r.Offers pending r₁ ∧ EnvironmentRead r₁ r' role ps params ∧
      ((∀ s ∈ params.strings, equalSign ∈ cBytes s) ↔ ∀ p ∈ ps, EqualShows p.name) ∧
      ((populateEnv params.strings hv).isSome = true ↔ ∀ p ∈ ps, EqualShows p.name) := by
  obtain ⟨r₁, role, ps, params, hoffers, -, henv⟩ := accepted_environment h
  obtain ⟨value, rfl, -⟩ := henv.role_pair
  have hstrings : (∀ s ∈ params.strings, equalSign ∈ cBytes s) ↔
      ∀ p ∈ ps, EqualShows p.name := by
    rw [henv.strings, List.forall_mem_cons, entries_pass_iff]
    exact and_iff_right ((equalShows_iff fcgiRole _).mpr (.inl plainName_fcgiRole.1))
  exact ⟨r₁, _, ps, params, hoffers, henv, hstrings, storeStrings_isSome.trans hstrings⟩

/-- Two pairs with one name pass. -/
theorem name_value_strings_iff_two :
    ∃ r', fcgxAcceptR true
        [.ok (.sending (paramsRequest [1, 1, 65, 66, 1, 1, 65, 67]) [5] [])] idleRequest =
          some (0, r', []) ∧
      ∃ r₁ role ps params,
        idleRequest.Offers
          [.ok (.sending (paramsRequest [1, 1, 65, 66, 1, 1, 65, 67]) [5] [])] r₁ ∧
        EnvironmentRead r₁ r' role ps params ∧
        ((∀ s ∈ params.strings, equalSign ∈ cBytes s) ↔ ∀ p ∈ ps, EqualShows p.name) ∧
        ((populateEnv params.strings fun _ => none).isSome = true ↔
          ∀ p ∈ ps, EqualShows p.name) := by
  have hrun : (fcgxAcceptR true
      [.ok (.sending (paramsRequest [1, 1, 65, 66, 1, 1, 65, 67]) [5] [])] idleRequest).map
        (fun x => (x.1, x.2.1.envp.map Params.strings, x.2.2.length)) =
      some (0, some (NameValue.entry ⟨fcgiRole, responder⟩ ::
        [NameValue.entry ⟨[65], [66]⟩, NameValue.entry ⟨[65], [67]⟩]), 0) := by
    decide +kernel
  obtain ⟨r', -, hacc, -⟩ := accepted_of_run hrun
  exact ⟨r', hacc, name_value_strings_iff hacc _⟩

/-- **A name that is a NUL.** The environment of the request has a string that is empty when
it is read as a C string, and the assertion of `populate_env` fails. -/
theorem name_without_equal :
    ∃ r' params, fcgxAcceptR true [.ok (.sending (paramsRequest [1, 0, 0]) [] [])] idleRequest =
        some (0, r', []) ∧
      r'.envp = some params ∧ (∃ s ∈ params.strings, equalSign ∉ cBytes s) ∧
      ∀ hv, populateEnv params.strings hv = none := by
  have hrun : (fcgxAcceptR true [.ok (.sending (paramsRequest [1, 0, 0]) [] [])] idleRequest).map
        (fun x => (x.1, x.2.1.envp.map Params.strings, x.2.2.length)) =
      some (0, some [NameValue.entry ⟨fcgiRole, responder⟩, NameValue.entry ⟨[0], []⟩], 0) := by
    decide +kernel
  obtain ⟨r', params, hacc, henvp, hstrings⟩ := accepted_of_run hrun
  refine ⟨r', params, hacc, henvp, ?_⟩
  rw [hstrings]
  exact ⟨⟨NameValue.entry ⟨[0], []⟩, by simp, by decide⟩, fun _ => rfl⟩

/-- **The two lookups of an accepted environment.** `FCGX_GetParam` finds the role, and the
hash has it exactly if the last string with that key, of those that the peer has sent, has the
same value. If the pairs can be held by C strings, `FCGX_GetParam` returns the first value of a
name and the hash has the last. -/
theorem lookups_of_pairs (h : fcgxAcceptR lib pending r = some (0, r', rest)) (hv : Hv) :
    ∃ r₁ value ps params, r.Offers pending r₁ ∧
      EnvironmentRead r₁ r' (NameValue.entry ⟨fcgiRole, value⟩) ps params ∧
      (fcgxGetParam ⟨fcgiRole, plainName_fcgiRole.1⟩ params.strings).map cBytes = some value ∧
      (∀ hash, populateEnv params.strings hv = some hash →
        (hash fcgiRole = some value ↔
          ∀ s, lastString (ps.map NameValue.entry) fcgiRole = some s → stringValue s = value)) ∧
      ((∀ p ∈ ps, PlainName p.name ∧ 0 ∉ p.value) →
        ∃ hash, populateEnv params.strings hv = some hash ∧
          ∀ name : CString, equalSign ∉ name.bytes →
            (fcgxGetParam name params.strings).map cBytes =
                firstValue (⟨fcgiRole, value⟩ :: ps) name.bytes ∧
              hash name.bytes = lastValue (⟨fcgiRole, value⟩ :: ps) name.bytes ∧
              ((fcgxGetParam name params.strings).map cBytes = hash name.bytes ↔
                firstValue (⟨fcgiRole, value⟩ :: ps) name.bytes =
                  lastValue (⟨fcgiRole, value⟩ :: ps) name.bytes)) := by
  obtain ⟨r₁, role, ps, params, hoffers, -, henv⟩ := accepted_environment h
  obtain ⟨value, rfl, hvalue⟩ := henv.role_pair
  have hstrings := henv.strings
  refine ⟨r₁, value, ps, params, hoffers, henv, ?_, ?_, ?_⟩
  · rw [hstrings]
    exact fcgxGetParam_role hvalue _
  · intro hash hhash
    rw [hstrings] at hhash
    exact role_kept_iff hvalue hhash
  · intro hplain
    have hpairs : ∀ p ∈ (⟨fcgiRole, value⟩ : NameValue) :: ps, PlainName p.name ∧ 0 ∉ p.value := by
      intro p hp
      rcases List.mem_cons.mp hp with rfl | hmem
      · exact ⟨plainName_fcgiRole, hvalue⟩
      · exact hplain p hmem
    have hall : params.strings = ((⟨fcgiRole, value⟩ : NameValue) :: ps).map NameValue.entry := by
      rw [hstrings, List.map_cons]
    -- a pair without a NUL in its name passes the assertion
    have hpass : (populateEnv params.strings hv).isSome = true := by
      rw [populateEnv, storeStrings_isSome, hall, entries_pass_iff]
      exact fun p hp => .inl (hpairs p hp).1.1
    obtain ⟨hash, hhash⟩ := Option.isSome_iff_exists.mp hpass
    refine ⟨hash, hhash, fun name hname => ?_⟩
    have hget := fcgxGetParam_entries hpairs hname
    have hlast : hash name.bytes = lastValue (⟨fcgiRole, value⟩ :: ps) name.bytes := by
      rw [populateEnv_apply hhash, hall]
      exact lastString_entries hpairs name.bytes
    rw [← hall] at hget
    rw [hget, hlast]
    exact ⟨rfl, rfl, Iff.rfl⟩

/-- A name that is sent twice, and one that is sent once. -/
theorem lookups_of_pairs_two :
    ∃ r', fcgxAcceptR true
        [.ok (.sending (paramsRequest [1, 1, 65, 66, 1, 0, 67, 1, 1, 65, 66]) [5] [])]
          idleRequest = some (0, r', []) ∧
      ∃ r₁ value ps params,
        idleRequest.Offers
          [.ok (.sending (paramsRequest [1, 1, 65, 66, 1, 0, 67, 1, 1, 65, 66]) [5] [])] r₁ ∧
        EnvironmentRead r₁ r' (NameValue.entry ⟨fcgiRole, value⟩) ps params ∧
        (fcgxGetParam ⟨fcgiRole, plainName_fcgiRole.1⟩ params.strings).map cBytes = some value ∧
        (∀ hash, populateEnv params.strings (fun _ => none) = some hash →
          (hash fcgiRole = some value ↔
            ∀ s, lastString (ps.map NameValue.entry) fcgiRole = some s → stringValue s = value)) ∧
        ((∀ p ∈ ps, PlainName p.name ∧ 0 ∉ p.value) →
          ∃ hash, populateEnv params.strings (fun _ => none) = some hash ∧
            ∀ name : CString, equalSign ∉ name.bytes →
              (fcgxGetParam name params.strings).map cBytes =
                  firstValue (⟨fcgiRole, value⟩ :: ps) name.bytes ∧
                hash name.bytes = lastValue (⟨fcgiRole, value⟩ :: ps) name.bytes ∧
                ((fcgxGetParam name params.strings).map cBytes = hash name.bytes ↔
                  firstValue (⟨fcgiRole, value⟩ :: ps) name.bytes =
                    lastValue (⟨fcgiRole, value⟩ :: ps) name.bytes)) := by
  have hrun : (fcgxAcceptR true
      [.ok (.sending (paramsRequest [1, 1, 65, 66, 1, 0, 67, 1, 1, 65, 66]) [5] [])]
        idleRequest).map (fun x => (x.1, x.2.1.envp.map Params.strings, x.2.2.length)) =
      some (0, some (NameValue.entry ⟨fcgiRole, responder⟩ ::
        [NameValue.entry ⟨[65], [66]⟩, NameValue.entry ⟨[67], []⟩,
          NameValue.entry ⟨[65], [66]⟩]), 0) := by
    decide +kernel
  obtain ⟨r', -, hacc, -⟩ := accepted_of_run hrun
  exact ⟨r', hacc, lookups_of_pairs hacc _⟩

/-- **Names that are sent again.** After `A=B` comes `A=C`, and after the role a `FCGI_ROLE`
of the peer: `FCGX_GetParam` returns what comes first, the hash has what comes last. -/
theorem lookups_differ :
    ∃ r' params hash,
      fcgxAcceptR true
          [.ok (.sending
            (paramsRequest ([1, 1, 65, 66, 1, 1, 65, 67, 9, 1] ++ fcgiRole ++ [88])) [] [])]
          idleRequest = some (0, r', []) ∧
      r'.envp = some params ∧ populateEnv params.strings (fun _ => none) = some hash ∧
      (fcgxGetParam ⟨[65], by decide⟩ params.strings).map cBytes = some [66] ∧
      hash [65] = some [67] ∧
      (fcgxGetParam ⟨fcgiRole, plainName_fcgiRole.1⟩ params.strings).map cBytes =
        some responder ∧
      hash fcgiRole = some [88] := by
  have hrun : (fcgxAcceptR true
      [.ok (.sending
        (paramsRequest ([1, 1, 65, 66, 1, 1, 65, 67, 9, 1] ++ fcgiRole ++ [88])) [] [])]
      idleRequest).map (fun x => (x.1, x.2.1.envp.map Params.strings, x.2.2.length)) =
      some (0, some [NameValue.entry ⟨fcgiRole, responder⟩, NameValue.entry ⟨[65], [66]⟩,
        NameValue.entry ⟨[65], [67]⟩, NameValue.entry ⟨fcgiRole, [88]⟩], 0) := by
    decide +kernel
  obtain ⟨r', params, hacc, henvp, hstrings⟩ := accepted_of_run hrun
  have hvalues : (populateEnv params.strings fun _ => none).map
      (fun hash => (hash [65], hash fcgiRole)) = some (some [67], some [88]) := by
    rw [hstrings]
    decide +kernel
  obtain ⟨hash, hhash, hval⟩ := Option.map_eq_some_iff.mp hvalues
  obtain ⟨hlast, hrole⟩ := Prod.mk.inj hval
  refine ⟨r', params, hash, hacc, henvp, hhash, ?_, hlast, ?_, hrole⟩
  · rw [hstrings]
    decide +kernel
  · rw [hstrings]
    exact fcgxGetParam_role (by decide) _

end Accepted

end Perl

end FastCgi
