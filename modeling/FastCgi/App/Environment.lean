import FastCgi.App.Accept
import FastCgi.App.RecordEnds

/-!
Which environments `FCGX_Accept_r` accepts.

`ReadParams` learns of the end of the `FCGI_PARAMS` stream from the EOF of
`FCGX_GetChar`, which is also what it sees where the stream fails. On a wire
in good order (`Orderly`) a request is accepted with a complete environment,
or the stream has failed exactly between two pairs (`CutBetweenPairs`); and
wherever it fails there, the request is accepted all the same
(`accepts_complete_iff`).
-/

namespace FastCgi

/-! ### The record that begins the request -/

/-- A record that delivers nothing is passed on the way to the beginning of a request. -/
theorem Passes.begun {v w u : View} {r : Record} {bs post : List UInt8} (h : Passes v r bs w)
    (hv : v.Boundary) (hadv : advance (v.facing (r.encode ++ post)) = (.begun, u)) :
    bs = [] ∧ advance (w.facing post) = (.begun, u) := by
  rcases more_or_query r post with hmore | ⟨hid, htype, hp, rfl⟩
  · rcases h.enters hv hmore with ⟨x, hx, hvis, rfl, heq⟩ | ⟨hbs, heq⟩
    · by_cases hnil : x.visible r = []
      · rw [heq, advance_inRecord_nothing hx post hnil] at hadv
        exact ⟨hvis ▸ hnil, hadv⟩
      · have hs : x.skip = false := by
          by_contra hs
          exact hnil (if_pos (by simpa using hs))
        have hc : r.content ≠ [] := by
          rwa [View.visible, hs, if_neg (by decide)] at hnil
        have hready : (x.inRecord r post).Ready :=
          ⟨List.length_pos_iff.mpr hc, hs, by simp [View.inRecord, hc]⟩
        rw [heq, advance_ready hready] at hadv
        cases hadv
    · rw [heq] at hadv
      exact ⟨hbs, hadv⟩
  · obtain ⟨e, hclosed, -⟩ := h.at_end hv hid htype hp
    rw [hclosed] at hadv
    cases hadv

/-- Before a request has begun, no record that begins one is passed. -/
theorem Passes.not_begins {v w : View} {r : Record} {bs : List UInt8} (h : Passes v r bs w)
    (hawait : v.req.isBeginProcessed = false) : ¬r.Begins := by
  intro hr
  cases h with
  | own htype => exact htype hr.type_eq
  | foreign htype => exact htype hr.type_eq
  | multiplexed _ _ _ hbegun => simp [hawait] at hbegun
  | unknown htype => exact htype hr.type_eq
  | getValues htype => exact absurd (htype.symm.trans hr.type_eq) (by decide)

theorem PassesAll.not_begins {v w : View} {rs : List Record} {bs : List UInt8}
    (h : PassesAll v rs bs w) (hawait : v.req.isBeginProcessed = false) :
    ∀ r ∈ rs, ¬r.Begins := by
  induction h with
  | nil => exact fun _ hr => nomatch hr
  | cons h _ ih =>
      intro r' hr'
      rcases List.mem_cons.mp hr' with rfl | hmem
      · exact h.not_begins hawait
      · exact ih (by rw [h.req_eq]; exact hawait) r' hmem

/-- The header of a record that begins a request is accepted only with its body. -/
theorem begun_of_header {v w : View} (hb : v.Boundary) (hawait : v.req.isBeginProcessed = false)
    {h : Header} (hversion : h.version = fcgiVersion1) (hbegins : h.Begins) {tail : List UInt8}
    (hadv : advance (v.facing (h.bytes ++ tail)) = (.begun, w)) :
    v.skip = false ∧ 8 ≤ tail.length := by
  obtain ⟨hbt, hid, hlen⟩ := hbegins
  rw [hb.advance_header hversion, dispatchView, if_pos hbt, processBeginView,
    if_neg (by rintro (h0 | hne); exacts [hid h0, hne hlen]),
    if_neg (by simpa [View.inHeader, View.atHeader] using hawait), readBeginView] at hadv
  split at hadv
  · cases hadv
  · next hbody =>
      set u : View := (v.inHeader h tail).setRequestId h.requestId with hu
      have hready : u.Ready := by
        by_contra hr
        rw [eorContent_of_not_ready hr] at hbody
        exact hbody (show (0 : ℕ) ≠ 8 by decide)
      have hpresent : u.present ≤ tail.length := Nat.min_le_right _ _
      rw [eorContent_ready hready] at hbody
      simp only [List.length_take] at hbody
      exact ⟨hready.2.1, by omega⟩

/-- A record that is cut off begins no request. -/
theorem HeaderCase.not_begun {v : View} {h : Header} {tail : List UInt8} (hcase : HeaderCase v h tail)
    (hcut : tail.length < h.contentLength + h.paddingLength.toNat) (w : View) :
    advance (v.facing (h.bytes ++ tail)) ≠ (.begun, w) := by
  intro hadv
  cases hcase with
  | ends _ hclosed =>
      rw [hclosed] at hadv
      cases hadv
  | fails hclosed =>
      rw [hclosed] at hadv
      cases hadv
  | query _ _ hquery =>
      obtain ⟨e, hclosed, -⟩ := onStatusView_query
        (readQuery_errno_of_eorContent (eorContent_cut (u := v.inHeader h tail) hcut))
      rw [hquery, hclosed] at hadv
      cases hadv
  | @content skip os hcontent =>
      rw [hcontent] at hadv
      rcases advance_cut (u := { v.atHeader h tail with skip := skip, os := os }) hcut with
        ⟨-, hready⟩ | ⟨-, hclosed, -⟩
      · rw [hready] at hadv
        cases hadv
      · rw [hadv] at hclosed
        cases hclosed

/-- Any other record that stands before the beginning of a request is there as a whole, and is
passed. -/
theorem passes_before_begin {v w : View} (hb : v.Boundary) (htype : v.type ≠ fcgiBeginRequest)
    (htype' : v.type ≠ fcgiGetValues) {h : Header} {tail : List UInt8}
    (hversion : h.version = fcgiVersion1) (hbegins : ¬h.Begins)
    (hadv : advance (v.facing (h.bytes ++ tail)) = (.begun, w)) :
    ∃ r post bs u, h.bytes ++ tail = Record.encode r ++ post ∧ Passes v r bs u := by
  have hcase := headerCase hb hversion (fun _ => hbegins) htype tail
  have hwhole : h.contentLength + h.paddingLength.toNat ≤ tail.length := by
    by_contra hcut
    exact hcase.not_begun (by omega) w hadv
  obtain ⟨r, post, rfl, hr⟩ := exists_record hversion hwhole
  cases hcase with
  | ends _ hclosed =>
      rw [hclosed] at hadv
      cases hadv
  | fails hclosed =>
      rw [hclosed] at hadv
      cases hadv
  | content _ _ hpass =>
      obtain ⟨bs, u, hpass⟩ := hpass r rfl
      exact ⟨r, post, bs, u, hr, hpass⟩
  | query hq _ _ =>
      have hends : ¬r.header.Ends v.type v.req.requestId :=
        fun hends => htype' (hends.2.1.symm.trans hq)
      rcases passes_or_fails hb htype (fun _ => hbegins) hends post with
        ⟨bs, u, hpass⟩ | ⟨-, e, hclosed, -⟩
      · exact ⟨r, post, bs, u, hr, hpass⟩
      · rw [hr, hclosed] at hadv
        cases hadv

/-- **The beginning of a request**: records that are passed, and the one that begins it. -/
theorem begun_records {v w : View} (hb : v.Boundary) (hawait : v.req.isBeginProcessed = false)
    (htype : v.type ≠ fcgiBeginRequest) (htype' : v.type ≠ fcgiGetValues) {wire : List UInt8}
    (hadv : advance (v.facing wire) = (.begun, w)) :
    ∃ pre u h tail, wire = encodeAll pre ++ (Header.bytes h ++ tail) ∧ PassesAll v pre [] u ∧
      h.version = fcgiVersion1 ∧ h.Begins ∧ 8 ≤ tail.length ∧ u.skip = false ∧
      advance (u.facing (h.bytes ++ tail)) = (.begun, w) := by
  induction hn : wire.length using Nat.strong_induction_on generalizing v wire with
  | _ n ih =>
      have hlen : 8 ≤ wire.length := by
        by_contra hlen
        by_cases hnil : wire = []
        · rw [hnil, advance_facing_nil] at hadv
          cases hadv
        · rw [hb.advance_eq hnil, onHeader, if_neg (by simp [View.facing, hb.eorStop]),
            if_pos (by simpa using hlen)] at hadv
          cases hadv
      obtain ⟨h, tail, rfl⟩ := exists_header hlen
      by_cases hversion : h.version = fcgiVersion1
      · by_cases hbegins : h.Begins
        · obtain ⟨hs, htail⟩ := begun_of_header hb hawait hversion hbegins hadv
          exact ⟨[], v, h, tail, rfl, .nil, hversion, hbegins, htail, hs, hadv⟩
        · obtain ⟨r, post, bs, u, hwire, hpass⟩ :=
            passes_before_begin hb htype htype' hversion hbegins hadv
          rw [hwire] at hadv hn ⊢
          obtain ⟨rfl, hadv⟩ := hpass.begun hb hadv
          have hlt : post.length < n := by
            rw [List.length_append, Record.length_encode] at hn
            omega
          obtain ⟨pre, u', h', tail', rfl, hall, hrest⟩ := ih post.length hlt (hpass.boundary hb)
            (by rw [hpass.req_eq]; exact hawait) (by rw [hpass.type_eq]; exact htype)
            (by rw [hpass.type_eq]; exact htype') hadv rfl
          exact ⟨r :: pre, u', h', tail', by simp, .cons hpass hall, hrest⟩
      · rw [hb.advance_bytes, processHeaderView, if_pos hversion] at hadv
        cases hadv

/-! ### Complete environments -/

/-- The environment entry of the role that the record which begins a request asks for. -/
def Record.role (b : Record) : Option (List UInt8) :=
  roleStr (((b.content.getD 0 0).toNat <<< 8) + (b.content.getD 1 0).toNat)

/-- The bytes read from the connection hold the record that begins request `R`, with a
role that is served, and `FCGI_PARAMS` records of `R` up to an empty one, and these
are the entries: the role, and the pairs that the whole `FCGI_PARAMS` content codes. -/
def CompleteEnvironment (consumed : List UInt8) (R : ℕ) (entries : List (List UInt8)) : Prop :=
  ∃ (pre mid : List Record) (b : Record) (h : Header) (role : List UInt8) (ps : List NameValue),
    encodeAll (pre ++ b :: mid) ++ h.bytes <+: consumed ∧
      b.Begins ∧ b.requestId.toNat = R ∧ b.role = some role ∧
      (∀ r ∈ mid, ¬r.Ends fcgiParams R) ∧ h.Ends fcgiParams R ∧
      Encodes (streamContents fcgiParams R mid) ps ∧
      entries = role :: ps.map NameValue.entry

/-- A wire in good order: no padding behind the record that begins the request, and
the records of its `FCGI_PARAMS` stream can be told from the others. -/
def Orderly (wire : List UInt8) : Prop :=
  ∀ (pre : List Record) (h : Header) (body post : List UInt8),
    wire = encodeAll pre ++ (h.bytes ++ (body ++ post)) → (∀ r ∈ pre, ¬r.Begins) →
    h.version = fcgiVersion1 → h.Begins → body.length = 8 →
      h.paddingLength = 0 ∧ TidyWire fcgiParams h.requestId post

/-- The view in which `ReadParams` starts, behind the record `b`. -/
def View.params (u : View) (b : Record) : View := (u.begun b []).setReaderType fcgiParams

/-- The `FCGI_PARAMS` stream fails exactly between two pairs, or after the last one: the
reader gets past the records up to `part` and no further, `part` does not start with the
header of the record that ends the stream, and what has arrived are whole pairs. -/
def CutBetweenPairs (v : View) : Prop :=
  ∃ (pre mid : List Record) (u w : View) (b : Record) (bs part : List UInt8),
    v.input = encodeAll (pre ++ b :: mid) ++ part ∧ PassesAll v pre [] u ∧ u.skip = false ∧
      b.Begins ∧ b.role.isSome ∧ PassesAll (u.params b) mid bs w ∧ Stuck w part ∧
      (parsePairs (streamContents fcgiParams b.requestId.toNat mid ++
        arrived fcgiParams b.requestId.toNat part)).2 = none

theorem boundary_params (u : View) (b : Record) : (u.params b).Boundary := ⟨rfl, rfl, rfl, rfl⟩

theorem Record.header_begins {b : Record} : b.header.Begins ↔ b.Begins := by
  constructor
  · rintro ⟨hbt, hid, hlen⟩
    simp only [Record.header_type, Record.header_requestId, Record.header_contentLength]
      at hbt hid hlen
    exact ⟨hbt, hid, hlen⟩
  · rintro ⟨hbt, hid, hlen⟩
    simpa [Header.Begins] using ⟨hbt, hid, hlen⟩

theorem Orderly.record {pre : List Record} {b : Record} {post : List UInt8}
    (h : Orderly (encodeAll pre ++ (b.encode ++ post))) (hpre : ∀ r ∈ pre, ¬r.Begins)
    (hb : b.Begins) : b.padding = [] ∧ TidyWire fcgiParams b.requestId.toNat post := by
  obtain ⟨hpad, htidy⟩ := h pre b.header b.content (b.padding ++ post) (by simp [Record.encode])
    hpre b.header_version (Record.header_begins.mpr hb) hb.length_content
  have hnil : b.padding = [] := by
    rw [← List.length_eq_zero_iff, ← b.header_paddingLength, hpad]
    rfl
  rw [hnil, Record.header_requestId] at htidy
  exact ⟨hnil, htidy⟩

/-- Of two ways to find records at the front of some bytes, one goes on where the
other stops. -/
theorem encodeAll_append_cases {rs rs' : List Record} {part part' : List UInt8}
    (h : encodeAll rs ++ part = encodeAll rs' ++ part') :
    (∃ more, rs' = rs ++ more ∧ part = encodeAll more ++ part') ∨
      ∃ r more, rs = rs' ++ r :: more ∧ part' = r.encode ++ (encodeAll more ++ part) := by
  induction rs generalizing rs' with
  | nil => exact .inl ⟨rs', rfl, h⟩
  | cons r rs ih =>
      cases rs' with
      | nil => exact .inr ⟨r, rs, rfl, by simpa using h.symm⟩
      | cons r' rs' =>
          rw [encodeAll_cons, encodeAll_cons, List.append_assoc, List.append_assoc] at h
          obtain ⟨rfl, hrest⟩ := encode_append_inj h
          rcases ih hrest with ⟨more, rfl, hpart⟩ | ⟨x, more, rfl, hpart⟩
          · exact .inl ⟨more, rfl, hpart⟩
          · exact .inr ⟨x, more, rfl, hpart⟩

/-! ### What is accepted -/

/-- Tidy records of which all are passed deliver the contents of the stream's records. -/
theorem PassesAll.tidy {v w : View} {rs : List Record} {bs part : List UInt8}
    (h : PassesAll v rs bs w) (hs : v.skip = false) (htype : v.type ≠ fcgiBeginRequest)
    (hid : v.req.requestId ≠ fcgiNullRequestId)
    (hw : TidyWire v.type v.req.requestId (encodeAll rs ++ part)) :
    bs = streamContents v.type v.req.requestId rs ∧ w.skip = false ∧
      (∀ r ∈ rs, ¬r.Ends v.type v.req.requestId) ∧ TidyWire v.type v.req.requestId part := by
  induction h with
  | nil => exact ⟨rfl, hs, fun _ hr => (nomatch hr), hw⟩
  | @cons v w u r rs bs bs' h _ ih =>
      rw [encodeAll_cons, List.append_assoc] at hw
      obtain ⟨rfl, hskip, hends⟩ := h.tidy hs htype hid
        (hw [] r.header (r.content ++ (r.padding ++ (encodeAll rs ++ part)))
          (encode_append_eq r _) (fun _ hr => nomatch hr) r.header_version)
      have hreq := h.req_eq
      have hty := h.type_eq
      rw [hty, hreq] at ih
      obtain ⟨rfl, hlast, hne, hpart⟩ := ih hskip htype hid (hw.rest hends)
      refine ⟨(streamContents_cons v.type v.req.requestId r rs).symm, hlast, ?_, hpart⟩
      intro r' hr'
      rcases List.mem_cons.mp hr' with rfl | hmem
      · exact hends
      · exact hne r' hmem

section Begun

variable {v u w : View} {pre mid : List Record} {b : Record} {part : List UInt8}

/-- The reader comes to the record that begins the request, and to the stream behind it. -/
theorem begins_params (hb : v.Boundary) (hawait : v.req.isBeginProcessed = false)
    (hpre : PassesAll v pre [] u) (hs : u.skip = false) (hbegins : b.Begins)
    (hpad : b.padding = []) (post : List UInt8) :
    ∃ x, advance (v.facing (encodeAll pre ++ (b.encode ++ post))) = (.begun, x) ∧
      x.setReaderType fcgiParams = (u.params b).facing post ∧ roleStr x.req.role = b.role := by
  have hub := hpre.boundary hb
  refine ⟨u.begun b post, ?_, ?_, rfl⟩
  · rw [hpre.advance_eq hb rfl (by simp [b.encode_ne_nil])]
    exact advance_begun hub (by rw [hpre.req_eq]; exact hawait) hs hbegins post
  · simp [View.begun, View.params, View.setReaderType, View.facing, hpad]

/-- What the bytes read hold where the stream has failed: no complete environment. -/
theorem not_complete {unread : List UInt8} (hpre : ∀ r ∈ pre, ¬r.Begins)
    (hmid : ∀ r ∈ mid, ¬r.Ends fcgiParams b.requestId.toNat)
    (htidy : TidyWire fcgiParams b.requestId.toNat (encodeAll mid ++ part))
    (hstuck : ∀ h tail, part = Header.bytes h ++ tail → ¬h.Ends fcgiParams b.requestId.toNat)
    (hrest : ∀ r post, part = Record.encode r ++ post → post.length ≤ unread.length)
    {consumed : List UInt8} (hwire : encodeAll (pre ++ b :: mid) ++ part = consumed ++ unread)
    {R : ℕ} {entries : List (List UInt8)} : ¬CompleteEnvironment consumed R entries := by
  rintro ⟨pre', mid', b', h, role, ps, ⟨more, hconsumed⟩, hb', rfl, -, -, hends, -, -⟩
  -- a tidy empty record of another request is no record of `FCGI_PARAMS` of this one
  have hsame : h.Tidy b.requestId.toNat → b'.requestId.toNat = b.requestId.toNat := by
    intro hh
    have hid : h.requestId = b'.requestId.toNat := hends.2.2.1
    rcases hh.1 hends.2.2.2 with h0 | hR
    · exact absurd (hid.symm.trans h0) hb'.id_ne_null
    · exact hid.symm.trans hR
  have hboth : encodeAll (pre ++ b :: mid) ++ part =
      encodeAll (pre' ++ b' :: mid') ++ (h.bytes ++ (more ++ unread)) := by
    rw [hwire, ← hconsumed]
    simp
  rcases encodeAll_append_cases hboth with ⟨_ | ⟨r, rs⟩, -, hpart⟩ | ⟨r, rs, hlist, hpart⟩
  · have hh := htidy mid h (more ++ unread) (by rw [hpart]; rfl) hmid hends.1
    rw [hsame hh] at hends
    exact hstuck h _ hpart hends
  · rw [encodeAll_cons, List.append_assoc] at hpart
    have := hrest r _ hpart
    simp only [List.length_append, Header.length_bytes] at this
    omega
  · rw [Record.encode, List.append_assoc] at hpart
    obtain ⟨rfl, -⟩ := header_append_inj hpart
    rw [List.append_assoc, List.cons_append] at hlist
    obtain ⟨front, rfl⟩ : ∃ front, mid = front ++ r :: rs := by
      rcases List.append_eq_append_iff.mp hlist with ⟨_ | ⟨x, c⟩, hc, hmid⟩ | ⟨_ | ⟨x, c⟩, hc, hmid⟩
      · exact ⟨mid', (List.cons.inj hmid).2⟩
      · exact ⟨c ++ b' :: mid', by simp [(List.cons.inj hmid).2]⟩
      · exact ⟨mid', (List.cons.inj hmid).2.symm⟩
      · obtain ⟨rfl, -⟩ := List.cons.inj hmid
        exact absurd hb' (hpre b' (by simp [hc]))
    have hh := htidy front r.header (r.content ++ (r.padding ++ (encodeAll rs ++ part)))
      (by simp [Record.encode]) (fun x hx => hmid x (by simp [hx])) r.header_version
    rw [hsame hh] at hends
    exact hmid r (by simp) (Record.header_ends.mp hends)

end Begun

section Accepting

variable {v e : View} {role : List UInt8} {ps : List NameValue}

/-- What is accepted is complete, or the stream has failed between two pairs. -/
theorem complete_or_cut (hb : v.Boundary) (hawait : v.req.isBeginProcessed = false)
    (htype : v.type = 0) (horderly : Orderly v.input) (ha : Accepts v role ps e) :
    (∃ consumed R, v.input = consumed ++ e.input ∧
      CompleteEnvironment consumed R (role :: ps.map NameValue.entry)) ∨ CutBetweenPairs v := by
  obtain ⟨hst, hrole, bs, hd, hpairs⟩ := ha
  have hadv : advance (v.facing v.input) = (.begun, (advance v).2) := Prod.ext hst rfl
  obtain ⟨pre, u, h, tail, hwire, hpre, hversion, hbegins, htail, hs, -⟩ :=
    begun_records hb hawait (by rw [htype]; decide) (by rw [htype]; decide) hadv
  rw [hwire] at horderly
  have hnone := hpre.not_begins hawait
  obtain ⟨hpad, -⟩ := horderly pre h (tail.take 8) (tail.drop 8) (by simp) hnone hversion hbegins
    (by rw [List.length_take]; omega)
  obtain ⟨b, post, rfl, hbytes⟩ := @exists_record h hversion tail
    (by rw [hpad, hbegins.2.2]; exact htail)
  have hb' := Record.header_begins.mp hbegins
  rw [hbytes] at horderly hwire
  obtain ⟨hpadding, htidy⟩ := horderly.record hnone hb'
  obtain ⟨x, hx, hparams, hroleb⟩ := begins_params hb hawait hpre hs hb' hpadding post
  rw [← hwire] at hx
  have hlast : (advance v).2 = x := congrArg Prod.snd hx
  rw [hlast] at hrole hd
  rw [hparams] at hd
  obtain ⟨mid, part, w, last, rfl, hall, hmid, hend, rfl⟩ :=
    delivers_records (boundary_params u b) rfl rfl (show fcgiParams ≠ fcgiBeginRequest by decide)
      hb'.id_ne_null htidy hd
  have hwtype : w.type = fcgiParams := hall.type_eq
  have hwreq : w.req.requestId = b.requestId.toNat := by rw [hall.req_eq]; rfl
  cases hend with
  | @ended h hpart hends herrno =>
      rw [hwtype, hwreq] at hends
      refine .inl ⟨encodeAll (pre ++ b :: mid) ++ h.bytes, b.requestId.toNat, ?_,
        pre, mid, b, h, role, ps, List.prefix_refl _, hb', rfl, hroleb ▸ hrole, hmid, hends, ?_, rfl⟩
      · rw [hwire, hpart]
        simp
      · rw [List.append_nil] at hpairs
        exact (encodes_iff.mp hpairs).1
  | failed hstuck _ _ =>
      rw [hwtype, hwreq] at hpairs
      refine .inr ⟨pre, mid, u, w, b, _, part, ?_, hpre, hs, hb', ?_, hall, hstuck, ?_⟩
      · rw [hwire]
        simp
      · rw [← hroleb, hrole]
        rfl
      · exact congrArg Prod.snd hpairs

/-- Where the stream has failed between two pairs, the request is accepted, and what has
been read holds no complete environment. -/
theorem accepts_of_cut (hb : v.Boundary) (hawait : v.req.isBeginProcessed = false)
    (horderly : Orderly v.input) (hcut : CutBetweenPairs v) :
    ∃ role ps e, Accepts v role ps e ∧ ∀ consumed R entries, v.input = consumed ++ e.input →
      ¬CompleteEnvironment consumed R entries := by
  obtain ⟨pre, mid, u, w, b, bs, part, hwire, hpre, hs, hb', hrole, hall, hstuck, hpairs⟩ := hcut
  have hsplit : v.input = encodeAll pre ++ (b.encode ++ (encodeAll mid ++ part)) := by
    rw [hwire]
    simp
  have hnone := hpre.not_begins hawait
  rw [hsplit] at horderly
  obtain ⟨hpadding, htidy⟩ := horderly.record hnone hb'
  obtain ⟨x, hx, hparams, hroleb⟩ := begins_params hb hawait hpre hs hb' hpadding
    (encodeAll mid ++ part)
  rw [← hsplit] at hx
  have hx : advance v = (.begun, x) := hx
  obtain ⟨rfl, hwskip, hmid, htidy'⟩ := hall.tidy rfl
    (show fcgiParams ≠ fcgiBeginRequest by decide) hb'.id_ne_null htidy
  have hwtype : w.type = fcgiParams := hall.type_eq
  have hwreq : w.req = (u.params b).req := hall.req_eq
  have hwid : w.req.requestId = b.requestId.toNat := by rw [hwreq]; rfl
  have hwbegun : w.req.isBeginProcessed = true := by rw [hwreq]; rfl
  obtain ⟨last, e, hd⟩ := delivers_total (v := w.facing part) hwbegun
  have hend := streamEnd_of_stuck (hall.boundary (boundary_params u b)) hwskip hwbegun
    (by rw [hwtype]; decide) (by rw [hwid]; exact hb'.id_ne_null)
    (by rw [hwtype, hwid]; exact htidy') hstuck.passes hd
  obtain ⟨role, hrole⟩ := Option.isSome_iff_exists.mp hrole
  cases hend with
  | @ended h hpart hends _ => exact absurd hends (hstuck.ends h _ hpart)
  | failed _ herrno hrest =>
      rw [hwtype, hwid] at hd
      obtain ⟨e', hd', hrest'⟩ : ∃ e', Delivers ((u.params b).facing (encodeAll mid ++ part))
          (streamContents fcgiParams b.requestId.toNat mid ++
            arrived fcgiParams b.requestId.toNat part) e' ∧
          ∀ r post, part = Record.encode r ++ post → post.length ≤ e'.input.length := by
        by_cases hnil : part = []
        · obtain ⟨e', hd', -⟩ := hall.delivers_errno (boundary_params u b) hd
          exact ⟨e', hd', fun r post hpart => absurd (hpart.symm.trans hnil) (by
            simp [r.encode_ne_nil])⟩
        · exact ⟨e, hall.delivers (boundary_params u b) hnil hd, hrest⟩
      refine ⟨role, _, e', ⟨?_, ?_, _, ?_, Prod.ext rfl hpairs⟩, ?_⟩
      · rw [hx]
      · rw [hx, hroleb, hrole]
      · rw [hx, hparams]
        exact hd'
      · intro consumed R entries hconsumed
        refine not_complete hnone hmid htidy ?_ hrest' (by rw [← hwire]; exact hconsumed)
        intro h tail hpart hends
        refine hstuck.ends h tail hpart ?_
        rw [hwtype, hwid]
        exact hends

end Accepting

/-! ### Connections -/

/-- The loop of `FCGX_Accept_r` comes to a connection: it is about to read from it as
`r₁`, with `rest` waiting behind it. -/
inductive LoopReaches : List Connection → Request → Request → List Connection → Prop
  | next {os : Os} {rest : List Connection} {r : Request} :
      LoopReaches (.ok os :: rest) r { r with os := os, isOpen := true } rest
  | retry {os : Os} {pending rest : List Connection} {r r₁ r₂ : Request}
      (hrej : acceptConnection { r with os := os, isOpen := true } = some (false, r₂))
      (ht : LoopReaches pending r₂ r₁ rest) : LoopReaches (.ok os :: pending) r r₁ rest

/-- `FCGX_Accept_r`, called with `r`, comes to a connection. -/
inductive Request.Reaches (r : Request) (pending : List Connection) (r₁ : Request) :
    List Connection → Prop
  | kept (hfin : fcgxFinishR r = some r₁) (hopen : r₁.isOpen = true) :
      Request.Reaches r pending r₁ pending
  | fresh {r₀ : Request} {rest : List Connection} (hfin : fcgxFinishR r = some r₀)
      (hopen : r₀.isOpen = false) (h : LoopReaches pending r₀ r₁ rest) :
      Request.Reaches r pending r₁ rest
  | retried {r₀ r₂ : Request} {rest : List Connection} (hfin : fcgxFinishR r = some r₀)
      (hopen : r₀.isOpen = true) (hrej : acceptConnection r₀ = some (false, r₂))
      (h : LoopReaches pending r₂ r₁ rest) : Request.Reaches r pending r₁ rest

theorem LoopReaches.accepts {pending rest : List Connection} {r r₁ r' : Request}
    (h : LoopReaches pending r r₁ rest) :
    acceptLoop pending r = some (0, r', rest) ↔ acceptConnection r₁ = some (true, r') := by
  induction h with
  | @next os rest r =>
      rw [acceptLoop]
      split
      · next hnone => simp [hnone]
      · next hacc => simp [hacc]
      · next r₂ hrej =>
          rw [hrej]
          refine ⟨fun hloop => ?_, fun hacc => by simp at hacc⟩
          exact absurd ((loopEnds_acceptLoop hloop).ok rfl).1 (Nat.lt_irrefl _)
  | retry hrej _ ih => rw [acceptLoop, hrej]; exact ih

/-- `FCGX_Accept_r` returns 0 using the connection it has come to exactly where that
connection is accepted. -/
theorem Request.Reaches.accepts {pending rest : List Connection} {r r₁ r' : Request}
    (h : r.Reaches pending r₁ rest) :
    fcgxAcceptR true pending r = some (0, r', rest) ↔ acceptConnection r₁ = some (true, r') := by
  unfold fcgxAcceptR
  cases h with
  | kept hfin hopen =>
      simp only [hfin, hopen]
      cases hacc : acceptConnection r₁ with
      | none => simp
      | some x =>
          obtain ⟨_ | _, r₂⟩ := x
          · simp only [Bool.not_true, Bool.false_eq_true, if_false, Option.some.injEq,
              Prod.mk.injEq, Bool.false_eq_true, false_and, iff_false]
            exact fun hloop => absurd ((loopEnds_acceptLoop hloop).ok rfl).1 (Nat.lt_irrefl _)
          · simp
  | fresh hfin hopen hloop =>
      simp only [hfin, hopen]
      exact hloop.accepts
  | retried hfin hopen hrej hloop =>
      simp only [hfin, hopen, hrej]
      exact hloop.accepts

/-- The bytes of the connection that the request has not consumed. -/
def Request.unread (r : Request) : List UInt8 :=
  match r.inStream with
  | none => r.os.incoming
  | some s => (r.chan s).unread

/-- What `r` has read from the connection on which the peer has sent `wire` holds a
complete environment, and that is its environment. -/
def ReadsComplete (wire : List UInt8) (r : Request) : Prop :=
  ∃ consumed R params, wire = consumed ++ r.unread ∧ r.envp = some params ∧
    CompleteEnvironment consumed R params.entries

theorem Accepts.unique {v e e' : View} {role role' : List UInt8} {ps ps' : List NameValue}
    (h : Accepts v role ps e) (h' : Accepts v role' ps' e') : e = e' := by
  obtain ⟨bs, hd, -⟩ := h.params
  obtain ⟨bs', hd', -⟩ := h'.params
  exact (hd.unique hd').2

/-- A wire that starts with a request whose records disturb no others is in good order. -/
theorem orderly_of_records {b : Record} {mid : List Record} {h : Header} {unread : List UInt8}
    (hb : b.Begins) (hpad : b.padding = [])
    (hmid : ∀ r ∈ mid, ¬r.Ends fcgiParams b.requestId.toNat ∧ r.header.Tidy b.requestId.toNat)
    (hends : h.Ends fcgiParams b.requestId.toNat) :
    Orderly (encodeAll (b :: mid) ++ (h.bytes ++ unread)) := by
  have htidy : h.Tidy b.requestId.toNat :=
    ⟨fun _ => .inr hends.2.2.1, fun h0 => absurd (hends.2.2.1.symm.trans h0) hb.id_ne_null⟩
  intro pre h' body post heq hpre _ hbegins hlen
  rcases encodeAll_append_cases heq with ⟨more, rfl, -⟩ | ⟨r, more, hlist, hpart⟩
  · exact absurd hb (hpre b (by simp))
  · obtain ⟨rfl, rfl, rfl⟩ : pre = [] ∧ b = r ∧ mid = more := by
      cases pre with
      | nil =>
          obtain ⟨rfl, rfl⟩ := List.cons.inj hlist
          exact ⟨rfl, rfl, rfl⟩
      | cons x pre =>
          obtain ⟨rfl, -⟩ := List.cons.inj hlist
          exact absurd hb (hpre b (by simp))
    rw [Record.encode, hpad, List.append_nil, List.append_assoc] at hpart
    obtain ⟨rfl, hbody⟩ := header_append_inj hpart
    obtain ⟨-, rfl⟩ := List.append_inj hbody (by rw [hlen, hb.length_content])
    refine ⟨?_, ?_⟩
    · rw [← UInt8.toNat_inj, b.header_paddingLength, hpad]
      rfl
    · intro rs h'' tail hwire hrs _
      rw [Record.header_requestId]
      rcases encodeAll_append_cases hwire with ⟨_ | ⟨x, more⟩, rfl, hrest⟩ | ⟨x, more, rfl, hrest⟩
      · obtain ⟨rfl, -⟩ := header_append_inj hrest
        exact htidy
      · rw [encodeAll_cons, Record.encode, List.append_assoc, List.append_assoc] at hrest
        obtain ⟨rfl, -⟩ := header_append_inj hrest
        rw [Record.header_requestId] at hrs
        exact absurd (Record.header_ends.mp hends) (hrs x (by simp))
      · rw [Record.encode, List.append_assoc] at hrest
        obtain ⟨rfl, -⟩ := header_append_inj hrest
        exact (hmid x (by simp)).2

/-- The record that begins `plainRequest`. -/
def plainBegin : Record := shortRecord fcgiBeginRequest 1 [0, 1, 0, 0, 0, 0, 0, 0] beginBody_le

theorem begins_plainBegin : plainBegin.Begins := ⟨by decide, by decide, by decide⟩

end FastCgi
