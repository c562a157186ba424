import FastCgi.App.RequestWire
import FastCgi.App.WriterSpec
import FastCgi.Bridge.EventLoop

/-!
The first half of `main` in `cgi-fcgi/cgi-fcgi.c`: `cgi-fcgi` begins a
request and sends its environment to the application.

The record that begins the request is written by a single `OS_Write`; if
that takes only a part of it, `main` exits. Everything behind it goes
through a stream of `libfcgi`, so from there on short writes do no harm,
and what the application reads is the environment (`environ_roundTrip`).
-/

namespace FastCgi

open ByteMem BoundedLoop

/-! ### Sending the environment -/

/-- The string in memory. -/
def CString.entry (s : CString) : List UInt8 := s.bytes ++ [0]

/-- `strchr(s, b) - s`. -/
def CString.strchr (s : CString) (b : UInt8) : Option ℕ := s.bytes.findIdx? (· == b)

/-- One of the lengths of a header. -/
def buildLength (n : ℕ) : List UInt8 :=
  if n < 0x80 then [UInt8.ofNat n]
  else [UInt8.ofNat ((n >>> 24) ||| 0x80), UInt8.ofNat (n >>> 16), UInt8.ofNat (n >>> 8),
    UInt8.ofNat n]

/-- `FCGIUtil_BuildNameValueHeader`. -/
def fcgiUtilBuildNameValueHeader (nameLen valueLen : ℕ) : List UInt8 :=
  buildLength nameLen ++ buildLength valueLen

/-- `FCGX_CreateWriter`, where `malloc` has left `stale` in the request data. -/
def fcgxCreateWriter (stale : ReqData) (mBuff : ℕ) (os : Os) (requestId : ℕ) (bufflen : ℤ)
    (streamType : ℕ) : Chan :=
  { stream := newStream mBuff os.stale bufflen false streamType
    req := { stale with requestId := requestId, nWriters := 2 }
    os := os }

/-- `MakeBeginRequestBody`. -/
def makeBeginRequestBody (role : ℕ) (keepConnection : Bool) : List UInt8 :=
  [UInt8.ofNat ((role >>> 8) &&& 0xff), UInt8.ofNat (role &&& 0xff),
    if keepConnection then UInt8.ofNat fcgiKeepConn else 0, 0, 0, 0, 0, 0]

/-- `beginRecord`. -/
def beginRecord : List UInt8 :=
  (makeHeader fcgiBeginRequest bridgeRequestId 8 0).bytes ++
    makeBeginRequestBody fcgiResponder false

/-- Calls of `FCGX_PutStr` joined by `||`; an error is the value that `main` exits with. -/
def putStrs : List (List UInt8) → Chan → Option (Except (ℤ × Os) Chan)
  | [], c => some (.ok c)
  | str :: strs, c =>
      match fcgxPutStr str c with
      | none => none
      | some (n, c) => if n < 0 then some (.error (c.stream.fcgiErrno, c.os)) else putStrs strs c

/-- One pass of the loop over the environment. -/
def sendEntry (s : CString) (c : Chan) : Option (Except (ℤ × Os) Chan) :=
  match s.strchr equalSign with
  | none => some (.error (1000, c.os))
  | some equalPtr =>
      let name := s.bytes.take equalPtr
      let value := s.bytes.drop (equalPtr + 1)
      putStrs [fcgiUtilBuildNameValueHeader name.length value.length, name, value] c

/-- `for( ; *envp != NULL; envp++)`. -/
def sendEnviron : List CString → Chan → Option (Except (ℤ × Os) Chan)
  | [], c => some (.ok c)
  | s :: environ, c =>
      match sendEntry s c with
      | none => none
      | some (.error status) => some (.error status)
      | some (.ok c) => sendEnviron environ c

/-- How the first half of `main` ends. The exit status is `none` where it is what `errno`
happens to hold. -/
inductive Started where
  | exit (status : Option ℤ) (os : Os)
  | running (os : Os)

/-- The first half of `main`, from the connection to the application on. -/
def sendRequest (stale : ReqData) (mBuff : ℕ) (environ : List CString) (os : Os) :
    Option Started :=
  match osWrite os beginRecord with
  | (.error e, os) => some (.exit (some e) os)
  | (.ok count, os) =>
      if count ≠ beginRecord.length then some (.exit none os)
      else
        let paramsStream := fcgxCreateWriter stale mBuff os bridgeRequestId 8192 fcgiParams
        match sendEnviron environ paramsStream with
        | none => none
        | some (.error (status, os)) => some (.exit (some status) os)
        | some (.ok c) => (fcgxFClose c).map fun x => .running x.2.os

/-! ### What is sent -/

/-- The name and the value of an entry. -/
def CString.variable (s : CString) : Option NameValue :=
  (s.strchr equalSign).map fun i => ⟨s.bytes.take i, s.bytes.drop (i + 1)⟩

theorem CString.variable_isSome_iff {s : CString} :
    s.variable.isSome = true ↔ equalSign ∈ s.bytes := by
  simp [CString.variable, CString.strchr, List.findIdx?_isSome]

/-- The entry of the environment is that of its pair. -/
theorem CString.entry_eq {s : CString} {p : NameValue} (h : s.variable = some p) :
    s.entry = p.entry := by
  obtain ⟨i, hi, rfl⟩ := Option.map_eq_some_iff.mp h
  obtain ⟨hlt, hequal, -⟩ := List.findIdx?_eq_some_iff_getElem.mp hi
  have hbytes : s.bytes = s.bytes.take i ++ equalSign :: s.bytes.drop (i + 1) := by
    rw [← eq_of_beq hequal, List.getElem_cons_drop, List.take_append_drop]
  rw [CString.entry, NameValue.entry]
  conv_lhs => rw [hbytes]
  rw [List.append_assoc, List.cons_append]

/-- The bytes of a pair. -/
def NameValue.encode (p : NameValue) : List UInt8 :=
  fcgiUtilBuildNameValueHeader p.name.length p.value.length ++ (p.name ++ p.value)

theorem or_0x80 : ∀ n < 128, n ||| 0x80 = n + 128 := by decide

/-- `FCGIUtil_BuildNameValueHeader` codes every length that an `int` holds. -/
theorem lenCode_buildLength {n : ℕ} (h : n < 2 ^ 31) : LenCode n (buildLength n) := by
  rw [buildLength]
  split
  · next hlt =>
      have hn : (UInt8.ofNat n).toNat = n := by
        rw [UInt8.toNat_ofNat']
        omega
      have hcode := LenCode.short (b := UInt8.ofNat n) (by omega)
      rwa [hn] at hcode
  · have htop : (UInt8.ofNat ((n >>> 24) ||| 0x80)).toNat = n / 2 ^ 24 + 128 := by
      rw [UInt8.toNat_ofNat', Nat.shiftRight_eq_div_pow, or_0x80 _ (by omega)]
      omega
    have hcode := @LenCode.long (UInt8.ofNat ((n >>> 24) ||| 0x80)) (UInt8.ofNat (n >>> 16))
      (UInt8.ofNat (n >>> 8)) (UInt8.ofNat n) (by omega)
    have hlen : longLen (UInt8.ofNat ((n >>> 24) ||| 0x80)) (UInt8.ofNat (n >>> 16))
        (UInt8.ofNat (n >>> 8)) (UInt8.ofNat n) = n := by
      rw [longLen_eq, htop, UInt8.toNat_ofNat', UInt8.toNat_ofNat', UInt8.toNat_ofNat',
        Nat.shiftRight_eq_div_pow, Nat.shiftRight_eq_div_pow]
      omega
    rwa [hlen] at hcode

theorem encodes_encode {ps : List NameValue} (h : ShortPairs ps) :
    Encodes (ps.flatMap NameValue.encode) ps := by
  induction ps with
  | nil => exact .nil
  | cons p ps ih =>
      have hp := h p List.mem_cons_self
      have hcode := Encodes.cons (lenCode_buildLength (Nat.lt_succ_of_lt hp.1))
        (lenCode_buildLength (Nat.lt_succ_of_lt hp.2))
        (ih fun q hq => h q (List.mem_cons_of_mem p hq))
      simpa [NameValue.encode, fcgiUtilBuildNameValueHeader] using hcode

section Sending

variable {c : Chan} {pending : List UInt8}

/-- What is put on a writer, where no write fails. -/
theorem putStrs_holding (h : c.stream.Holding pending) (hf : c.Fits) (hwrites : c.os.NeverFails)
    (strs : List (List UInt8)) :
    ∃ c' recs p, putStrs strs c = some (.ok c') ∧
      ContentRecords c.stream.type c.req.requestId recs ∧
      contents recs ++ p = pending ++ strs.flatten ∧ c.Wrote c' recs p := by
  induction strs generalizing c pending with
  | nil => exact ⟨c, [], pending, rfl, contentRecords_nil, by simp, .refl h⟩
  | cons str strs ih =>
      obtain ⟨c₁, recs, p, hput, hrecs, hp, hw⟩ := fcgxPutStr_puts h hf hwrites str
      obtain ⟨log, -, -, -, hnever⟩ := hw.sent
      obtain ⟨c', recs', p', hstrs, hrecs', hp', hw'⟩ :=
        ih hw.holding (hw.fits hf) (hnever hwrites)
      rw [hw.type, hw.req] at hrecs'
      refine ⟨c', recs ++ recs', p', ?_, hrecs.append hrecs', ?_, hw.trans hw'⟩
      · rw [putStrs, hput]
        simp only
        rw [if_neg (by omega), hstrs]
      · rw [contents_append, List.append_assoc, hp', ← List.append_assoc, hp,
          List.flatten_cons, List.append_assoc]

theorem sendEntry_eq {s : CString} {p : NameValue} (h : s.variable = some p) (c : Chan) :
    sendEntry s c =
      putStrs [fcgiUtilBuildNameValueHeader p.name.length p.value.length, p.name, p.value] c := by
  obtain ⟨i, hi, rfl⟩ := Option.map_eq_some_iff.mp h
  rw [sendEntry, hi]

/-- The loop over the environment. -/
theorem sendEnviron_holding (h : c.stream.Holding pending) (hf : c.Fits)
    (hwrites : c.os.NeverFails) {environ : List CString} {ps : List NameValue}
    (hps : environ.map CString.variable = ps.map some) :
    ∃ c' recs p, sendEnviron environ c = some (.ok c') ∧
      ContentRecords c.stream.type c.req.requestId recs ∧
      contents recs ++ p = pending ++ ps.flatMap NameValue.encode ∧ c.Wrote c' recs p := by
  induction environ generalizing c pending ps with
  | nil =>
      obtain rfl := List.map_eq_nil_iff.mp hps.symm
      exact ⟨c, [], pending, rfl, contentRecords_nil, by simp, .refl h⟩
  | cons s environ ih =>
      match ps with
      | [] => cases hps
      | pair :: ps =>
          obtain ⟨hs, hps⟩ := List.cons_eq_cons.mp hps
          obtain ⟨c₁, recs, p, hentry, hrecs, hp, hw⟩ := putStrs_holding h hf hwrites
            [fcgiUtilBuildNameValueHeader pair.name.length pair.value.length, pair.name,
              pair.value]
          obtain ⟨log, -, -, -, hnever⟩ := hw.sent
          obtain ⟨c', recs', p', henviron, hrecs', hp', hw'⟩ :=
            ih hw.holding (hw.fits hf) (hnever hwrites) hps
          rw [hw.type, hw.req] at hrecs'
          refine ⟨c', recs ++ recs', p', ?_, hrecs.append hrecs', ?_, hw.trans hw'⟩
          · rw [sendEnviron, sendEntry_eq hs, hentry]
            exact henviron
          · rw [contents_append, List.append_assoc, hp', ← List.append_assoc, hp,
              List.flatMap_cons, NameValue.encode]
            simp

end Sending

/-- The record that begins the request. -/
def bridgeBegin : Record :=
  dataRecord fcgiBeginRequest bridgeRequestId (makeBeginRequestBody fcgiResponder false) []
    (by decide) nil_padding_le

theorem encode_bridgeBegin : bridgeBegin.encode = beginRecord := by decide

/-- The bytes of a request with these pairs, up to the end of its `FCGI_PARAMS` stream. -/
def BeginsRequest (ps : List NameValue) (wire : List UInt8) : Prop :=
  ∃ recs, ContentRecords fcgiParams bridgeRequestId recs ∧
    contents recs = ps.flatMap NameValue.encode ∧
    wire = bridgeBegin.encode ++ (encodeAll recs ++ (eofRecord fcgiParams bridgeRequestId).encode)

/-- **What the first half of `main` sends**, if the first `OS_Write` takes the whole record
that begins the request. -/
theorem sendRequest_running (stale : ReqData) (mBuff : ℕ) {environ : List CString} {os : Os}
    (hwrites : os.NeverFails) {ps : List NameValue}
    (hps : environ.map CString.variable = ps.map some)
    (hfirst : (osWrite os beginRecord).1 = .ok beginRecord.length) :
    ∃ os' log, sendRequest stale mBuff environ os = some (.running os') ∧
      os'.log = os.log ++ log ∧ BeginsRequest ps (accepted log) := by
  have hne : beginRecord ≠ [] := by decide
  rcases osWrite_sent os hne with ⟨n, -, -, hok, hsent⟩ | ⟨e, herr, -⟩
  · rw [hfirst] at hok
    obtain rfl := Except.ok.inj hok
    rw [List.take_length] at hsent
    rcases hwrite : osWrite os beginRecord with ⟨res, os₁⟩
    rw [hwrite] at hfirst hsent
    obtain rfl : res = .ok beginRecord.length := hfirst
    obtain ⟨log₁, hlog₁, -, hacc₁, hnever₁⟩ := hsent
    let c := fcgxCreateWriter stale mBuff os₁ bridgeRequestId 8192 fcgiParams
    have hholding : c.stream.Holding [] := holding_newStream ..
    have hfits : c.Fits := ⟨(by decide : fcgiParams < 256), (by decide : bridgeRequestId < 65536)⟩
    obtain ⟨c', recs, p, hsend, hrecs, hp, hw⟩ :=
      sendEnviron_holding hholding hfits (hnever₁ hwrites) hps
    obtain ⟨log₂, hlog₂, -, hacc₂, hnever₂⟩ := hw.sent
    obtain ⟨z, c'', recs', hclose, -, ⟨hrecs', hcont', -, -⟩, ⟨hsent', -⟩ | hcut⟩ :=
      fcgxFClose_holding hw.holding (hw.fits hfits)
    · obtain ⟨log₃, hlog₃, -, hacc₃, -⟩ := hsent'
      rw [hw.type, hw.req] at hrecs'
      refine ⟨c''.os, log₁ ++ (log₂ ++ log₃), ?_, ?_, recs ++ recs', hrecs.append hrecs', ?_, ?_⟩
      · rw [sendRequest, hwrite]
        simp only [ne_eq, not_true_eq_false, if_false]
        rw [hsend]
        simp only [hclose, Option.map_some]
      · rw [hlog₃, hlog₂, show c.os.log = os.log ++ log₁ from hlog₁]
        simp only [List.append_assoc]
      · rw [contents_append, hcont', hp, List.nil_append]
      · have heof : eofRecords c'.stream.type c'.req.requestId
            (c'.stream.isAnythingWritten || decide (recs' ≠ [])) =
            [eofRecord fcgiParams bridgeRequestId] := by
          rw [hw.type, hw.req]
          exact if_neg fun h => absurd h.1 (by decide : fcgiParams ≠ fcgiStderr)
        have hend : endRecords c'.req.requestId c'.req.appStatus (decide (c'.req.nWriters = 1)) =
            [] := by
          rw [hw.req]
          rfl
        rw [heof, hend, List.append_nil] at hacc₃
        rw [accepted_append, accepted_append, hacc₁, hacc₂, hacc₃, encode_bridgeBegin,
          encodeAll_append, encodeAll_append]
        simp
    · exact absurd (hnever₂ (hnever₁ hwrites)) hcut.1
  · rw [hfirst] at herr
    cases herr

/-- A first `OS_Write` that takes only a part of the record ends `main`. -/
theorem sendRequest_exit (stale : ReqData) (mBuff : ℕ) (environ : List CString) {os : Os} {n : ℕ}
    (hfirst : (osWrite os beginRecord).1 = .ok n) (hn : n ≠ beginRecord.length) :
    ∃ os', sendRequest stale mBuff environ os = some (.exit none os') := by
  rcases hwrite : osWrite os beginRecord with ⟨res, os'⟩
  rw [hwrite] at hfirst
  obtain rfl : res = .ok n := hfirst
  exact ⟨os', by rw [sendRequest, hwrite]; simp only [if_pos hn]⟩

/-! ### What the application reads -/

/-- The entry of the role that `cgi-fcgi` asks for. -/
def responderEntry : List UInt8 :=
  ascii ['F', 'C', 'G', 'I', '_', 'R', 'O', 'L', 'E', '=', 'R', 'E', 'S', 'P', 'O', 'N', 'D', 'E',
    'R'] ++ [0]

/-- The application accepts the request, and what follows it is left for the input stream. -/
theorem BeginsRequest.acceptedAs {ps : List NameValue} {wire more : List UInt8}
    (h : BeginsRequest ps wire) (hshort : ShortPairs ps) {r : Request} (hidle : r.Idle) {conn : Os}
    (hwire : conn.incoming = wire ++ more) (pending : List Connection) :
    ∃ q r₁ r' s, fcgxAcceptR true (.ok conn :: pending) r = some (0, r', pending) ∧
      acceptConnection r₁ = some (true, r') ∧ AcceptedAs q more r₁ r' s ∧ q.begin = bridgeBegin ∧
      q.environment = some (responderEntry :: ps.map NameValue.entry) := by
  obtain ⟨recs, hrecs, hcont, rfl⟩ := h
  have hends : ∀ T, T < 256 → (eofRecord T bridgeRequestId).Ends T bridgeRequestId := fun T hT =>
    ⟨dataRecord_type hT, dataRecord_requestId (by decide), rfl⟩
  let q : RequestRecords :=
    { begin := bridgeBegin
      begins := ⟨by decide, by decide, by decide⟩
      params := ⟨recs, eofRecord fcgiParams bridgeRequestId, hrecs, hends _ (by decide)⟩
      stdin := ⟨[], eofRecord fcgiStdin bridgeRequestId, (fun _ hr => (List.not_mem_nil hr).elim),
        hends _ (by decide)⟩
      data := ⟨[], eofRecord fcgiData bridgeRequestId, (fun _ hr => (List.not_mem_nil hr).elim),
        hends _ (by decide)⟩ }
  have hparse : parsePairs q.params.content = (ps, none) := by
    rw [show q.params.content = ps.flatMap NameValue.encode from hcont]
    exact encodes_iff.mpr ⟨encodes_encode hshort, hshort⟩
  have henv : q.environment = some (responderEntry :: ps.map NameValue.entry) := by
    rw [RequestRecords.environment, hparse]
    rfl
  obtain ⟨r₁, hos, -, haccept⟩ := accept_of_idle hidle conn pending
  have hin : r₁.os.incoming = q.begin.encode ++ (q.params.wire ++ more) := by
    rw [hos, hwire]
    simp [q, StreamRecords.wire]
  rcases acceptConnection_wire q rfl hin with ⟨-, r', s, hacc, haccepted⟩ | ⟨hnone, -⟩
  · exact ⟨q, r₁, r', s, haccept true r' hacc, hacc, haccepted, rfl, henv⟩
  · rw [henv] at hnone
    cases hnone

/-- **The application accepts the request**, whatever the chunks and whatever follows. -/
theorem BeginsRequest.accepted {ps : List NameValue} {wire more : List UInt8}
    (h : BeginsRequest ps wire) (hshort : ShortPairs ps) {r : Request} (hidle : r.Idle) {conn : Os}
    (hwire : conn.incoming = wire ++ more) (pending : List Connection) :
    ∃ r' params, fcgxAcceptR true (.ok conn :: pending) r = some (0, r', pending) ∧
      r'.req.role = fcgiResponder ∧ r'.req.keepConnection = false ∧ r'.envp = some params ∧
      params.entries = responderEntry :: ps.map NameValue.entry := by
  obtain ⟨q, r₁, r', s, haccept, -, haccepted, hbegin, henv⟩ :=
    h.acceptedAs hshort hidle hwire pending
  obtain ⟨params, henvp, hentries⟩ := haccepted.envp
  rw [henv] at hentries
  refine ⟨r', params, haccept, ?_, ?_, henvp, (Option.some.inj hentries).symm⟩
  · rw [haccepted.role, RequestRecords.roleNumber, hbegin]
    rfl
  · have hflag : ¬(bridgeBegin.content.getD 2 0).toNat &&& fcgiKeepConn ≠ 0 := by decide
    rw [haccepted.req, RequestRecords.reqData, hbegin]
    exact decide_eq_false hflag

/-- The pairs of an environment. -/
theorem exists_variables {environ : List CString} (h : ∀ s ∈ environ, equalSign ∈ s.bytes) :
    ∃ ps : List NameValue, environ.map CString.variable = ps.map some ∧
      environ.map CString.entry = ps.map NameValue.entry := by
  induction environ with
  | nil => exact ⟨[], rfl, rfl⟩
  | cons s environ ih =>
      obtain ⟨ps, hps, hentries⟩ := ih fun s' hs' => h s' (List.mem_cons_of_mem s hs')
      have hs := CString.variable_isSome_iff.mpr (h s List.mem_cons_self)
      obtain ⟨p, hp⟩ := Option.isSome_iff_exists.mp hs
      exact ⟨p :: ps, by simp [hps, hp], by simp [hentries, CString.entry_eq hp]⟩

theorem shortPairs_of_variables {environ : List CString} {ps : List NameValue}
    (hps : environ.map CString.variable = ps.map some)
    (hshort : ∀ s ∈ environ, ∀ p, s.variable = some p →
      p.name.length < intMax ∧ p.value.length < intMax) : ShortPairs ps := by
  intro p hp
  have hmem : some p ∈ environ.map CString.variable := by
    rw [hps]
    exact List.mem_map_of_mem hp
  obtain ⟨s, hs, hsp⟩ := List.mem_map.mp hmem
  exact hshort s hs p hsp

/-- **The environment of `cgi-fcgi` is that of the application**, for all short writes
behind the first and all chunks of the reads: the application accepts the request, whose
environment is the role and the entries of `environ`. A first `OS_Write` that does not take
the whole record ends `main`. -/
theorem environ_roundTrip (stale : ReqData) (mBuff : ℕ) {environ : List CString}
    (hequal : ∀ s ∈ environ, equalSign ∈ s.bytes)
    (hshort : ∀ s ∈ environ, ∀ p, s.variable = some p →
      p.name.length < intMax ∧ p.value.length < intMax) {os : Os} (hwrites : os.NeverFails) :
    ((osWrite os beginRecord).1 = .ok beginRecord.length →
      ∃ os' log, sendRequest stale mBuff environ os = some (.running os') ∧
        os'.log = os.log ++ log ∧
        ∀ (r : Request) (conn : Os) (pending : List Connection) (more : List UInt8), r.Idle →
          conn.incoming = accepted log ++ more →
          ∃ r' params, fcgxAcceptR true (.ok conn :: pending) r = some (0, r', pending) ∧
            r'.req.role = fcgiResponder ∧ r'.req.keepConnection = false ∧
            r'.envp = some params ∧
            params.entries = responderEntry :: environ.map CString.entry) ∧
    ∀ n, (osWrite os beginRecord).1 = .ok n → n ≠ beginRecord.length →
      ∃ os', sendRequest stale mBuff environ os = some (.exit none os') := by
  refine ⟨fun hfirst => ?_, fun n hfirst hn => sendRequest_exit stale mBuff environ hfirst hn⟩
  obtain ⟨ps, hps, hentries⟩ := exists_variables hequal
  have hpairs := shortPairs_of_variables hps hshort
  obtain ⟨os', log, hsend, hlog, hbegins⟩ :=
    sendRequest_running stale mBuff hwrites hps hfirst
  refine ⟨os', log, hsend, hlog, fun r conn pending more hidle hwire => ?_⟩
  rw [hentries]
  exact hbegins.accepted hpairs hidle hwire pending

/-- What `malloc` might leave in the request data. -/
def staleReqData : ReqData :=
  { requestId := 0, role := 0, isBeginProcessed := false, keepConnection := false
    appStatus := 0, nWriters := 0 }

/-- One entry; the second write takes a single byte, and the reads deliver three at most. -/
theorem environ_roundTrip_one :
    ∃ os' log, sendRequest staleReqData 0 [⟨[65, 61, 66], by decide⟩]
        (.sending [] [] [.accept 15, .accept 0]) = some (.running os') ∧
      os'.log = log ∧ ∃ r' params,
        fcgxAcceptR true [.ok (.sending (accepted log) [2] [])] idleRequest = some (0, r', []) ∧
        r'.req.role = fcgiResponder ∧ r'.req.keepConnection = false ∧
        r'.envp = some params ∧ params.entries = [responderEntry, [65, 61, 66, 0]] := by
  have hequal : ∀ s ∈ ([⟨[65, 61, 66], by decide⟩] : List CString), equalSign ∈ s.bytes := by
    intro s hs
    rw [List.mem_singleton.mp hs]
    decide
  have hshort : ∀ s ∈ ([⟨[65, 61, 66], by decide⟩] : List CString), ∀ p, s.variable = some p →
      p.name.length < intMax ∧ p.value.length < intMax := by
    intro s hs p hp
    rw [List.mem_singleton.mp hs] at hp
    obtain rfl : (⟨[65], [66]⟩ : NameValue) = p := Option.some.inj hp
    decide
  have hwrites : (Os.sending [] [] [.accept 15, .accept 0]).NeverFails :=
    ⟨rfl, by simp [Os.sending]⟩
  obtain ⟨hsent, -⟩ := environ_roundTrip staleReqData 0 hequal hshort hwrites
  obtain ⟨os', log, hsend, hlog, haccepts⟩ := hsent (by decide)
  exact ⟨os', log, hsend, hlog, haccepts idleRequest (.sending (accepted log) [2] []) [] []
    ⟨_, rfl, rfl⟩ (List.append_nil _).symm⟩

/-- The first `OS_Write` takes one byte, and `main` exits. -/
theorem sendRequest_shortWrite :
    ¬∀ (stale : ReqData) (mBuff : ℕ) (environ : List CString) (os : Os),
      (∀ s ∈ environ, equalSign ∈ s.bytes) → os.NeverFails →
        ∃ os', sendRequest stale mBuff environ os = some (.running os') := by
  intro hall
  have hwrites : (Os.sending [] [] [.accept 0]).NeverFails := ⟨rfl, by simp [Os.sending]⟩
  obtain ⟨os', hsend⟩ := hall staleReqData 0 [] _ (fun _ hs => (List.not_mem_nil hs).elim) hwrites
  obtain ⟨os'', hexit⟩ := sendRequest_exit staleReqData 0 []
    (show (osWrite (.sending [] [] [.accept 0]) beginRecord).1 = .ok 1 by decide) (by decide)
  rw [hsend] at hexit
  cases hexit

end FastCgi
