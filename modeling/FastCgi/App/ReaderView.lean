import FastCgi.App.Reader

/-!
What a reader can still deliver, whichever buffer the bytes are in.

A `View` is a reader without its buffer and without the chunks: the bytes
not yet consumed, the rest of the current record, and what the calls of
the operating system will do. `advance` runs over headers, padding and
skipped content to the next byte that can be delivered, and says whether
there is one (`Stop`); `Delivers v bs e` says that a reader with view `v`
delivers exactly the bytes `bs` and then reports the end of the stream in
view `e`. The readers of `Reader.lean` are related to views in
`ReaderRefinement.lean`.
-/

namespace FastCgi

open ByteMem

/-- A reader, up to the buffer and the chunks. In `os` nothing is left to
read: the bytes to come are in `input`. Of a closed reader the lengths are
not kept: nothing looks at them until `SetReaderType` resets them. -/
structure View where
  input : List UInt8
  contentLen : ℕ
  paddingLen : ℕ
  skip : Bool
  eorStop : Bool
  closed : Bool
  type : ℕ
  errno : ℤ
  req : ReqData
  os : Os

/-- How `advance` ends: a content byte can be delivered, or a request has
begun, or the stream is closed. -/
inductive Stop where
  | ready
  | begun
  | closed
  deriving DecidableEq, Repr

/-- `SetError`. -/
def View.setError (v : View) (e : ℤ) : View :=
  { v with
    errno := if v.errno = 0 then e else v.errno, closed := true, contentLen := 0, paddingLen := 0 }

/-- The read that finds nothing left fails. -/
def View.readFails (v : View) : View := { v with input := [] }.setError (readError v.os.readEnd)

/-- `k` content bytes are delivered. -/
def View.consume (v : View) (k : ℕ) : View :=
  { v with input := v.input.drop k, contentLen := v.contentLen - k }

/-- Some content byte can be delivered. -/
def View.Ready (v : View) : Prop := 0 < v.contentLen ∧ v.skip = false ∧ v.input ≠ []

/-! ### The stages -/

/-- Skip the padding, and go on with `h`. -/
def onPadding (h : View → Stop × View) (v : View) : Stop × View :=
  if v.input.length < v.paddingLen then (.closed, v.readFails)
  else h { v with input := v.input.drop v.paddingLen, paddingLen := 0 }

/-- Stop at content that can be delivered, skip content that cannot. -/
def onContent (h : View → Stop × View) (v : View) : Stop × View :=
  if v.contentLen = 0 then onPadding h v
  else if v.skip = false then (.ready, v)
  else if v.input.length < v.contentLen then (.closed, v.readFails)
  else onPadding h { v with input := v.input.drop v.contentLen, contentLen := 0, skip := false }

/-- From the top of the loop. -/
def onInput (h : View → Stop × View) (v : View) : Stop × View :=
  if v.input = [] then (.closed, v.readFails) else onContent h v

/-- `advance` under `eorStop`: the end of the record is the end of the stream. -/
def advanceEor (v : View) : Stop × View := onInput (fun v => (.closed, { v with closed := true })) v

/-- How many content bytes of the record are there. -/
def View.present (v : View) : ℕ := min v.contentLen v.input.length

/-- What is delivered under `eorStop`, and the view at the end. -/
def eorContent (v : View) : List UInt8 × View :=
  match advanceEor v with
  | (.ready, w) => (w.input.take w.present, (advanceEor (w.consume w.present)).2)
  | (_, w) => ([], w)

/-! ### Interpreting headers -/

def sendReplyView (reply : List UInt8) (ok : Status) (v : View) : Status × View :=
  match writeItAll v.os reply with
  | (.error e, os) => (.error (-1), { v with os := os }.setError e)
  | (.ok (), os) => (ok, { v with os := os })

/-- The query of a `FCGI_GET_VALUES` record is read to its end, or up to a
length that is too large. -/
def readQuery (v : View) : List NameValue × View :=
  match parsePairs (eorContent v).1 with
  | (ps, none) => (ps, (eorContent v).2)
  | (ps, some .truncated) => (ps, (eorContent v).2.setError fcgxParamsError)
  | (ps, some (.tooLong rest)) =>
      (ps, ((advanceEor v).2.consume ((eorContent v).1.length - rest.length)).setError
        fcgxParamsError)

/-- The answer to a query. -/
def answerQuery (query : List NameValue × View) : Status × View :=
  if query.2.errno ≠ 0 then (.error fcgxProtocolError, query.2)
  else
    sendReplyView
      (getValuesReply query.2.os.stale (query.1.map NameValue.entry)) .mgmtRecord query.2

def processManagementView (type : ℕ) (v : View) : Status × View :=
  if type = fcgiGetValues then answerQuery (readQuery v)
  else sendReplyView (unknownTypeReply type) .mgmtRecord v

def View.setRequestId (v : View) (requestId : ℕ) : View :=
  { v with req := { v.req with requestId := requestId } }

def View.begin (v : View) (body : List UInt8) : View := { v with req := v.req.begin body }

def readBeginView (v : View) : Status × View :=
  if (eorContent v).1.length ≠ 8 then (.error fcgxProtocolError, (eorContent v).2)
  else (.beginRecord, ((advanceEor v).2.consume 8).begin (eorContent v).1)

def processBeginView (requestId : ℕ) (v : View) : Status × View :=
  if requestId = 0 ∨ v.contentLen ≠ 8 then (.error fcgxProtocolError, v)
  else if v.req.isBeginProcessed then sendReplyView (cantMpxReply requestId) .skip v
  else readBeginView (v.setRequestId requestId)

def View.startRecord (v : View) (header : Header) : View :=
  { v with contentLen := header.contentLength, paddingLen := header.paddingLength.toNat }

def dispatchView (header : Header) (v : View) : Status × View :=
  if header.type.toNat = fcgiBeginRequest then processBeginView header.requestId v
  else if header.requestId = fcgiNullRequestId then processManagementView header.type.toNat v
  else if header.requestId ≠ v.req.requestId then (.skip, v)
  else if header.type.toNat ≠ v.type then (.error fcgxProtocolError, v)
  else (.streamRecord, v)

def processHeaderView (header : Header) (v : View) : Status × View :=
  if header.version ≠ fcgiVersion1 then (.error fcgxUnsupportedVersion, v)
  else dispatchView header (v.startRecord header)

/-- The header at the front of the input is taken, and `eorStop` set. -/
def View.enterRecord (v : View) : View := { v with input := v.input.drop 8, eorStop := true }

def View.leaveRecord (v : View) : View := { v with eorStop := false, closed := false }

/-- What follows a header, where `k` goes round the loop again. -/
def onStatusView (k : View → Stop × View) (status : Status) (v : View) : Stop × View :=
  match status with
  | .streamRecord =>
      if v.contentLen = 0 then (.closed, { v with closed := true, paddingLen := 0 }) else k v
  | .skip => k { v with skip := true }
  | .beginRecord => (.begun, v)
  | .mgmtRecord => k v
  | .error e => (.closed, v.setError e)

/-- The end of a record: the end of the stream under `eorStop`, otherwise the
next header. -/
def onHeader (k : View → Stop × View) (v : View) : Stop × View :=
  if v.eorStop then (.closed, { v with closed := true })
  else if v.input.length < 8 then (.closed, v.readFails)
  else
    onStatusView k (processHeaderView (Header.ofBytes (v.input.take 8)) v.enterRecord).1
      (processHeaderView (Header.ofBytes (v.input.take 8)) v.enterRecord).2.leaveRecord

def advanceAux : ℕ → View → Stop × View
  | 0, v => (.closed, v.readFails)
  | fuel + 1, v => onInput (onHeader (advanceAux fuel)) v

/-- Run to the next content byte that can be delivered, to the beginning of a
request, or to the end of the stream. -/
def advance (v : View) : Stop × View := advanceAux (v.input.length + 1) v

/-- A reader in view `v` delivers `bs` and then reports the end of the stream
in view `e`. -/
inductive Delivers : View → List UInt8 → View → Prop
  | stop {v e : View} (h : advance v = (.closed, e)) : Delivers v [] e
  | byte {v v' e : View} {b : UInt8} {bs input : List UInt8} (h : advance v = (.ready, v'))
      (hb : v'.input = b :: input) (ht : Delivers (v'.consume 1) bs e) : Delivers v (b :: bs) e

/-- A reader in view `v` delivers `bs` and is then in view `w`. -/
inductive Reads : View → List UInt8 → View → Prop
  | nil {v : View} : Reads v [] v
  | cons {v v' w : View} {b : UInt8} {bs input : List UInt8} (h : advance v = (.ready, v'))
      (hb : v'.input = b :: input) (ht : Reads (v'.consume 1) bs w) : Reads v (b :: bs) w

/-! ### Simple facts about views -/

@[simp] theorem View.setError_input (v : View) (e : ℤ) : (v.setError e).input = v.input := rfl
@[simp] theorem View.setError_eorStop (v : View) (e : ℤ) :
    (v.setError e).eorStop = v.eorStop := rfl
@[simp] theorem View.setError_req (v : View) (e : ℤ) : (v.setError e).req = v.req := rfl
@[simp] theorem View.setError_os (v : View) (e : ℤ) : (v.setError e).os = v.os := rfl
@[simp] theorem View.setError_closed (v : View) (e : ℤ) : (v.setError e).closed = true := rfl
@[simp] theorem View.readFails_input (v : View) : v.readFails.input = [] := rfl
@[simp] theorem View.readFails_eorStop (v : View) : v.readFails.eorStop = v.eorStop := rfl
@[simp] theorem View.readFails_req (v : View) : v.readFails.req = v.req := rfl
@[simp] theorem View.readFails_os (v : View) : v.readFails.os = v.os := rfl
@[simp] theorem View.readFails_closed (v : View) : v.readFails.closed = true := rfl
@[simp] theorem View.consume_zero (v : View) : v.consume 0 = v := rfl
@[simp] theorem View.consume_input (v : View) (k : ℕ) :
    (v.consume k).input = v.input.drop k := rfl
@[simp] theorem View.consume_contentLen (v : View) (k : ℕ) :
    (v.consume k).contentLen = v.contentLen - k := rfl

theorem View.consume_add (v : View) (j k : ℕ) : (v.consume j).consume k = v.consume (j + k) := by
  simp [View.consume, List.drop_drop, Nat.sub_sub]

/-- Where the stages stop, the continuation does not matter. -/
theorem onInput_ready {h : View → Stop × View} {v : View} (hr : v.Ready) :
    onInput h v = (.ready, v) := by
  obtain ⟨hc, hs, hi⟩ := hr
  rw [onInput, if_neg hi, onContent, if_neg (by omega), if_pos hs]

/-! ### What the stages keep

Each stage hands its continuation a view with no more input than before,
between two records and in the same mode; that is all the facts about
`advance` need. -/

/-- The views a stage hands on: not longer than `v`, at the end of a record. -/
def View.Within (v w : View) : Prop :=
  w.input.length ≤ v.input.length ∧ w.contentLen = 0 ∧ w.paddingLen = 0 ∧
    w.eorStop = v.eorStop ∧ w.req = v.req ∧ w.type = v.type ∧ w.errno = v.errno ∧ w.os = v.os

theorem onPadding_congr {h h' : View → Stop × View} {v : View} (hc : v.contentLen = 0)
    (hh : ∀ w, v.Within w → h w = h' w) : onPadding h v = onPadding h' v := by
  unfold onPadding
  split
  · rfl
  · exact hh _ ⟨by simp, hc, rfl, rfl, rfl, rfl, rfl, rfl⟩

theorem onInput_congr {h h' : View → Stop × View} {v : View}
    (hh : ∀ w, v.Within w → h w = h' w) : onInput h v = onInput h' v := by
  unfold onInput
  split
  · rfl
  · unfold onContent
    split
    · next hc => exact onPadding_congr hc hh
    · split
      · rfl
      · split
        · rfl
        · refine onPadding_congr rfl fun w hw => hh w ⟨?_, hw.2⟩
          have := hw.1
          simp only [List.length_drop] at this
          omega

/-- A property of the result of the stages, from the same property of the
three ways to stop and of the continuation. -/
theorem onInput_induct {h : View → Stop × View} {v : View} (P : Stop → View → Prop)
    (hready : v.Ready → P .ready v)
    (hfail : ∀ w : View, w.eorStop = v.eorStop → w.req = v.req → w.errno = v.errno →
      w.os = v.os → P .closed w.readFails)
    (hh : ∀ w, v.Within w → P (h w).1 (h w).2) : P (onInput h v).1 (onInput h v).2 := by
  have hpad : ∀ u : View, u.input.length ≤ v.input.length → u.contentLen = 0 →
      u.eorStop = v.eorStop → u.req = v.req → u.type = v.type → u.errno = v.errno →
      u.os = v.os → P (onPadding h u).1 (onPadding h u).2 := by
    intro u hlen hc he hr ht hn ho
    unfold onPadding
    split
    · exact hfail _ he hr hn ho
    · refine hh _ ⟨?_, hc, rfl, he, hr, ht, hn, ho⟩
      simp only [List.length_drop]
      omega
  unfold onInput
  split
  · exact hfail _ rfl rfl rfl rfl
  · next hi =>
      unfold onContent
      split
      · next hc => exact hpad v (Nat.le_refl _) hc rfl rfl rfl rfl rfl
      · next hc =>
          split
          · next hs => exact hready ⟨by omega, hs, hi⟩
          · split
            · exact hfail _ rfl rfl rfl rfl
            · refine hpad _ ?_ rfl rfl rfl rfl rfl rfl
              simp

theorem onInput_input_le {h : View → Stop × View} {v : View}
    (hh : ∀ w, v.Within w → (h w).2.input.length ≤ w.input.length) :
    (onInput h v).2.input.length ≤ v.input.length :=
  onInput_induct (fun _ w => w.input.length ≤ v.input.length) (fun _ => Nat.le_refl _)
    (fun w _ _ _ _ => by simp) fun w hw => (hh w hw).trans hw.1

theorem advanceEor_input_le (v : View) : (advanceEor v).2.input.length ≤ v.input.length :=
  onInput_input_le fun _ _ => Nat.le_refl _

theorem eorContent_input_le (v : View) : (eorContent v).2.input.length ≤ v.input.length := by
  have h := advanceEor_input_le v
  unfold eorContent
  split
  · next w hw =>
      rw [hw] at h
      calc (advanceEor (w.consume w.present)).2.input.length
          ≤ (w.consume w.present).input.length := advanceEor_input_le _
        _ ≤ w.input.length := by simp
        _ ≤ v.input.length := h
  · next hw =>
      rw [hw] at h
      exact h

theorem sendReplyView_input (reply : List UInt8) (ok : Status) (v : View) :
    (sendReplyView reply ok v).2.input = v.input := by
  unfold sendReplyView
  split <;> rfl

theorem readQuery_input_le (v : View) : (readQuery v).2.input.length ≤ v.input.length := by
  unfold readQuery
  split
  · exact eorContent_input_le v
  · exact eorContent_input_le v
  · simp only [View.setError_input, View.consume_input, List.length_drop]
    exact (Nat.sub_le _ _).trans (advanceEor_input_le v)

theorem sendReplyView_ne_begin {reply : List UInt8} {ok : Status} (v : View)
    (hok : ok ≠ .beginRecord) : (sendReplyView reply ok v).1 ≠ .beginRecord := by
  unfold sendReplyView
  split
  · intro h
    cases h
  · exact hok

/-- What `ProcessHeader` comes to, for each kind of header. -/
inductive HeaderStep (header : Header) (v : View) : Status × View → Prop
  | otherVersion (hversion : header.version ≠ fcgiVersion1) :
      HeaderStep header v (.error fcgxUnsupportedVersion, v)
  | malformed (htype : header.type.toNat = fcgiBeginRequest)
      (hbad : header.requestId = 0 ∨ header.contentLength ≠ 8) :
      HeaderStep header v (.error fcgxProtocolError, v.startRecord header)
  | multiplexed (htype : header.type.toNat = fcgiBeginRequest)
      (hbegun : v.req.isBeginProcessed = true) :
      HeaderStep header v (sendReplyView (cantMpxReply header.requestId) .skip
        (v.startRecord header))
  | cutBody {u : View} (hu : u = (v.startRecord header).setRequestId header.requestId)
      (hawait : v.req.isBeginProcessed = false) (hlen : (eorContent u).1.length ≠ 8) :
      HeaderStep header v (.error fcgxProtocolError, (eorContent u).2)
  | begins {u : View} (hu : u = (v.startRecord header).setRequestId header.requestId)
      (hversion : header.version = fcgiVersion1) (htype : header.type.toNat = fcgiBeginRequest)
      (hid : header.requestId ≠ fcgiNullRequestId) (hcontent : header.contentLength = 8)
      (hawait : v.req.isBeginProcessed = false) (hlen : (eorContent u).1.length = 8) :
      HeaderStep header v (.beginRecord, ((advanceEor u).2.consume 8).begin (eorContent u).1)
  | badQuery (htype : header.type.toNat = fcgiGetValues)
      (herrno : (readQuery (v.startRecord header)).2.errno ≠ 0) :
      HeaderStep header v (.error fcgxProtocolError, (readQuery (v.startRecord header)).2)
  | query {q : List NameValue × View} (hq : q = readQuery (v.startRecord header))
      (htype : header.type.toNat = fcgiGetValues) (herrno : q.2.errno = 0) :
      HeaderStep header v (sendReplyView
        (getValuesReply q.2.os.stale (q.1.map NameValue.entry)) .mgmtRecord q.2)
  | unknown (hid : header.requestId = fcgiNullRequestId) :
      HeaderStep header v (sendReplyView (unknownTypeReply header.type.toNat) .mgmtRecord
        (v.startRecord header))
  | foreign (hid : header.requestId ≠ v.req.requestId) :
      HeaderStep header v (.skip, v.startRecord header)
  | otherType (htype : header.type.toNat ≠ v.type) :
      HeaderStep header v (.error fcgxProtocolError, v.startRecord header)
  | own (hid : header.requestId = v.req.requestId) (htype : header.type.toNat = v.type) :
      HeaderStep header v (.streamRecord, v.startRecord header)

theorem headerStep_begin {header : Header} {v : View} (hversion : header.version = fcgiVersion1)
    (htype : header.type.toNat = fcgiBeginRequest) :
    HeaderStep header v (processBeginView header.requestId (v.startRecord header)) := by
  rw [processBeginView]
  split
  · next hbad => exact .malformed htype hbad
  · next hgood =>
      have hid : header.requestId ≠ 0 := fun hzero => hgood (.inl hzero)
      have hcontent : header.contentLength = 8 := by
        by_contra hne
        exact hgood (.inr hne)
      split
      · next hbegun => exact .multiplexed htype hbegun
      · next hawait =>
          have hawait : v.req.isBeginProcessed = false := by
            simpa [View.startRecord] using hawait
          rw [readBeginView]
          split
          · next hlen => exact .cutBody rfl hawait hlen
          · next hlen =>
              exact .begins rfl hversion htype hid hcontent hawait (not_not.mp hlen)

theorem headerStep_management {header : Header} {v : View}
    (hid : header.requestId = fcgiNullRequestId) :
    HeaderStep header v (processManagementView header.type.toNat (v.startRecord header)) := by
  rw [processManagementView]
  split
  · next htype =>
      rw [answerQuery]
      split
      · next herrno => exact .badQuery htype herrno
      · next herrno => exact .query rfl htype (not_not.mp herrno)
  · exact .unknown hid

/-- **`ProcessHeader`** does one of these. -/
theorem headerStep (header : Header) (v : View) :
    HeaderStep header v (processHeaderView header v) := by
  rw [processHeaderView]
  split
  · next hversion => exact .otherVersion hversion
  · next hversion =>
      rw [dispatchView]
      split
      · next htype => exact headerStep_begin (not_not.mp hversion) htype
      · split
        · next hid => exact headerStep_management hid
        · split
          · next hid => exact .foreign hid
          · next hid =>
              split
              · next htype => exact .otherType htype
              · next htype => exact .own (not_not.mp hid) (not_not.mp htype)

theorem HeaderStep.input_le {header : Header} {v : View} {x : Status × View}
    (h : HeaderStep header v x) : x.2.input.length ≤ v.input.length := by
  cases h with
  | otherVersion => exact Nat.le_refl _
  | malformed => exact Nat.le_refl _
  | multiplexed => rw [sendReplyView_input]; exact Nat.le_refl _
  | cutBody hu =>
      subst hu
      exact eorContent_input_le ((v.startRecord header).setRequestId header.requestId)
  | begins hu =>
      subst hu
      simp only [View.begin, View.consume_input, List.length_drop]
      exact (Nat.sub_le _ _).trans
        (advanceEor_input_le ((v.startRecord header).setRequestId header.requestId))
  | badQuery => exact readQuery_input_le (v.startRecord header)
  | query hq =>
      subst hq
      rw [sendReplyView_input]
      exact readQuery_input_le (v.startRecord header)
  | unknown => rw [sendReplyView_input]; exact Nat.le_refl _
  | foreign => exact Nat.le_refl _
  | otherType => exact Nat.le_refl _
  | own => exact Nat.le_refl _

theorem processHeaderView_input_le (header : Header) (v : View) :
    (processHeaderView header v).2.input.length ≤ v.input.length :=
  (headerStep header v).input_le

/-- After a header the loop goes on with at least its eight bytes less. -/
theorem processHeaderView_enterRecord_le (header : Header) {v : View}
    (h : ¬v.input.length < 8) :
    (processHeaderView header v.enterRecord).2.input.length + 8 ≤ v.input.length := by
  have hle := processHeaderView_input_le header v.enterRecord
  simp only [View.enterRecord, List.length_drop] at hle ⊢
  omega

theorem onHeader_congr {k k' : View → Stop × View} {v : View}
    (hk : ∀ w : View, w.input.length + 8 ≤ v.input.length → k w = k' w) :
    onHeader k v = onHeader k' v := by
  unfold onHeader
  split
  · rfl
  · split
    · rfl
    · next hlen =>
        have hle := processHeaderView_enterRecord_le (Header.ofBytes (v.input.take 8)) hlen
        unfold onStatusView
        split
        · split
          · rfl
          · exact hk _ hle
        · exact hk _ hle
        · rfl
        · exact hk _ hle
        · rfl

theorem advanceAux_eq {n m : ℕ} {v : View} (hn : v.input.length < n) (hm : v.input.length < m) :
    advanceAux n v = advanceAux m v := by
  induction n generalizing m v with
  | zero => omega
  | succ n ih =>
      match m, hm with
      | m + 1, hm =>
          rw [advanceAux, advanceAux]
          refine onInput_congr fun w hw => onHeader_congr fun u hu => ?_
          have := hw.1
          exact ih (by omega) (by omega)

/-- `advance` goes round the loop. -/
theorem advance_eq (v : View) : advance v = onInput (onHeader advance) v := by
  rw [advance, advanceAux]
  refine onInput_congr fun w hw => onHeader_congr fun u hu => ?_
  have := hw.1
  exact advanceAux_eq (by omega) (by omega)

theorem advance_ready {v : View} (h : v.Ready) : advance v = (.ready, v) := by
  rw [advance_eq, onInput_ready h]

/-- Under `eorStop` no header is looked at. -/
theorem advance_eor {v : View} (h : v.eorStop = true) : advance v = advanceEor v := by
  rw [advance_eq, advanceEor]
  refine onInput_congr fun w hw => ?_
  rw [onHeader, if_pos (hw.2.2.2.1.trans h)]

/-- What has to be shown of a header: `I` where the loop goes on, `P` where it
ends. -/
def StatusRule (I : View → Prop) (P : Stop → View → Prop) (status : Status) (v : View) : Prop :=
  match status with
  | .streamRecord =>
      if v.contentLen = 0 then P .closed { v with closed := true, paddingLen := 0 } else I v
  | .skip => I { v with skip := true }
  | .beginRecord => P .begun v
  | .mgmtRecord => I v
  | .error e => P .closed (v.setError e)

/-- **The rule for `advance`**: an invariant `I` that the stages and the
headers keep, and what follows from it wherever `advance` ends. -/
theorem advance_rule {I : View → Prop} {P : Stop → View → Prop} {v : View} (hI : I v)
    (hstage : ∀ v w : View, I v → v.Within w → I w)
    (hready : ∀ w : View, I w → w.Ready → P .ready w)
    (hfail : ∀ v w : View, I v → w.eorStop = v.eorStop → w.req = v.req → w.errno = v.errno →
      w.os = v.os → P .closed w.readFails)
    (heor : ∀ w : View, I w → w.eorStop = true → P .closed { w with closed := true })
    (hstatus : ∀ (w : View) (header : Header), I w → w.eorStop = false → ¬w.input.length < 8 →
      StatusRule I P (processHeaderView header w.enterRecord).1
        (processHeaderView header w.enterRecord).2.leaveRecord) :
    P (advance v).1 (advance v).2 := by
  induction hn : v.input.length using Nat.strong_induction_on generalizing v with
  | _ n ih =>
      rw [advance_eq]
      refine onInput_induct P (hready v hI) (fun w he hr hn ho => hfail v w hI he hr hn ho) ?_
      intro w hw
      have hle := hw.1
      have hwI := hstage v w hI hw
      unfold onHeader
      split
      · next he => exact heor w hwI he
      · next he =>
          split
          · exact hfail w w hwI rfl rfl rfl rfl
          · next hlen =>
              have hle' := processHeaderView_enterRecord_le (Header.ofBytes (w.input.take 8)) hlen
              have hrule := hstatus w (Header.ofBytes (w.input.take 8)) hwI (by simpa using he) hlen
              generalize (processHeaderView (Header.ofBytes (w.input.take 8)) w.enterRecord) = r
                at hle' hrule ⊢
              obtain ⟨status, u⟩ := r
              have hlt : u.input.length < n := by
                simp only at hle'
                omega
              cases status with
              | streamRecord =>
                  by_cases hc : u.leaveRecord.contentLen = 0
                  · simpa only [StatusRule, onStatusView, if_pos hc] using hrule
                  · simp only [StatusRule, onStatusView, if_neg hc] at hrule ⊢
                    exact ih _ hlt hrule rfl
              | skip => exact ih _ hlt hrule rfl
              | beginRecord => exact hrule
              | mgmtRecord => exact ih _ hlt hrule rfl
              | error e => exact hrule

theorem advance_input_le (v : View) : (advance v).2.input.length ≤ v.input.length := by
  refine advance_rule (I := fun w => w.input.length ≤ v.input.length)
    (P := fun _ w => w.input.length ≤ v.input.length) (Nat.le_refl _)
    (fun _ _ h hw => hw.1.trans h) (fun _ h _ => h) (fun _ _ _ _ _ _ _ => Nat.zero_le _)
    (fun _ h _ => h) ?_
  intro w header hle _ hlen
  have hle' := processHeaderView_enterRecord_le header hlen
  have hlast : (processHeaderView header w.enterRecord).2.input.length ≤ v.input.length := by omega
  unfold StatusRule
  split
  · split <;> exact hlast
  all_goals exact hlast

theorem advanceEor_eorStop (v : View) : (advanceEor v).2.eorStop = v.eorStop :=
  onInput_induct (fun _ w => w.eorStop = v.eorStop) (fun _ => rfl) (fun _ he _ _ _ => he)
    fun _ hw => hw.2.2.2.1

theorem advance_eorStop (v : View) : (advance v).2.eorStop = v.eorStop := by
  refine advance_rule (I := fun w => w.eorStop = v.eorStop)
    (P := fun _ w => w.eorStop = v.eorStop) rfl (fun _ _ h hw => hw.2.2.2.1.trans h)
    (fun _ h _ => h) (fun _ _ h he _ _ _ => he.trans h) (fun _ h _ => h) ?_
  intro w header h he _
  have hv : false = v.eorStop := he.symm.trans h
  unfold StatusRule
  split
  · split <;> exact hv
  all_goals exact hv

theorem eorContent_eorStop (v : View) : (eorContent v).2.eorStop = v.eorStop := by
  have h := advanceEor_eorStop v
  unfold eorContent
  split
  · next w hw =>
      rw [hw] at h
      exact (advanceEor_eorStop (w.consume w.present)).trans h
  · next hw =>
      rw [hw] at h
      exact h

theorem readQuery_eorStop (v : View) : (readQuery v).2.eorStop = v.eorStop := by
  unfold readQuery
  split
  · exact eorContent_eorStop v
  · exact eorContent_eorStop v
  · exact advanceEor_eorStop v

/-- Where `advance` stops with `ready`, a content byte can be delivered. -/
theorem ready_of_advance {v w : View} (h : advance v = (.ready, w)) : w.Ready := by
  suffices H : (advance v).1 = .ready → (advance v).2.Ready by
    rw [h] at H
    exact H rfl
  refine advance_rule (I := fun _ => True) (P := fun s w => s = .ready → w.Ready) trivial
    (fun _ _ _ _ => trivial) (fun _ _ hr _ => hr) (fun _ _ _ _ _ _ _ h => nomatch h)
    (fun _ _ _ h => nomatch h) ?_
  intro w header _ _ _
  unfold StatusRule
  split
  · split
    · exact fun h => nomatch h
    · trivial
  · trivial
  · exact fun h => nomatch h
  · trivial
  · exact fun h => nomatch h

/-! ### Delivering -/

theorem Delivers.of_advance {v w e : View} {bs : List UInt8} (h : advance v = (.ready, w))
    (hd : Delivers w bs e) : Delivers v bs e := by
  have hw := advance_ready (ready_of_advance h)
  cases hd with
  | stop he => rw [hw] at he; cases he
  | byte h' hb ht =>
      rw [hw] at h'
      cases h'
      exact .byte h hb ht

theorem Delivers.advanced {v w e : View} {bs : List UInt8} (h : advance v = (.ready, w))
    (hd : Delivers v bs e) : Delivers w bs e := by
  have hw := advance_ready (ready_of_advance h)
  cases hd with
  | stop he => rw [h] at he; cases he
  | byte h' hb ht =>
      rw [h] at h'
      cases h'
      exact .byte hw hb ht

/-- Content that is present is delivered in one piece. -/
theorem Reads.segment {v : View} {k : ℕ} (hs : v.skip = false) (hc : k ≤ v.contentLen)
    (hi : k ≤ v.input.length) : Reads v (v.input.take k) (v.consume k) := by
  induction k generalizing v with
  | zero => exact .nil
  | succ k ih =>
      match hinput : v.input with
      | [] => simp [hinput] at hi
      | b :: input =>
          have hready : v.Ready := ⟨by omega, hs, by simp [hinput]⟩
          rw [hinput, List.length_cons] at hi
          refine .cons (advance_ready hready) hinput ?_
          have hseg := ih (v := v.consume 1) hs (by simp; omega) (by simp [hinput]; omega)
          rw [View.consume_add, Nat.add_comm] at hseg
          simpa [hinput] using hseg

theorem Reads.trans {v w u : View} {bs bs' : List UInt8} (h : Reads v bs w)
    (h' : Reads w bs' u) : Reads v (bs ++ bs') u := by
  induction h with
  | nil => exact h'
  | cons h hb _ ih => exact .cons h hb (ih h')

theorem Reads.of_advance {v w u : View} {b : UInt8} {bs : List UInt8}
    (h : advance v = (.ready, w)) (hr : Reads w (b :: bs) u) : Reads v (b :: bs) u := by
  cases hr with
  | cons h' hb ht =>
      rw [advance_ready (ready_of_advance h)] at h'
      cases h'
      exact .cons h hb ht

/-- Every byte delivered is a byte of input consumed. -/
theorem Reads.input_le {v w : View} {bs : List UInt8} (h : Reads v bs w) :
    w.input.length + bs.length ≤ v.input.length := by
  induction h with
  | nil => simp
  | @cons v v' w b bs input h hb _ ih =>
      have hle := advance_input_le v
      rw [h, hb, List.length_cons] at hle
      rw [View.consume_input, hb, List.drop_one, List.tail_cons] at ih
      rw [List.length_cons]
      omega

theorem Reads.eorStop {v w : View} {bs : List UInt8} (h : Reads v bs w) :
    w.eorStop = v.eorStop := by
  induction h with
  | nil => rfl
  | @cons v v' w b bs input h _ _ ih =>
      have he := advance_eorStop v
      rw [h] at he
      exact ih.trans he

theorem Reads.delivers {v w e : View} {bs bs' : List UInt8} (h : Reads v bs w)
    (hd : Delivers w bs' e) : Delivers v (bs ++ bs') e := by
  induction h with
  | nil => exact hd
  | cons h hb _ ih => exact .byte h hb (ih hd)

/-- After the front of what a stream delivers comes the rest. -/
theorem Reads.rest {v w e : View} {bs bs' : List UInt8} (h : Reads v bs w)
    (hd : Delivers v (bs ++ bs') e) : Delivers w bs' e := by
  induction h with
  | nil => exact hd
  | cons h hb _ ih =>
      cases hd with
      | byte h' hb' ht =>
          rw [h] at h'
          cases h'
          rw [hb] at hb'
          cases hb'
          exact ih ht

/-- Where a reader stands is determined by the bytes read. -/
theorem Reads.unique {v w w' : View} {bs : List UInt8} (h : Reads v bs w) (h' : Reads v bs w') :
    w = w' := by
  induction h with
  | nil =>
      cases h' with
      | nil => rfl
  | cons h hb _ ih =>
      cases h' with
      | cons h' hb' ht' =>
          rw [h] at h'
          cases h'
          rw [hb] at hb'
          cases hb'
          exact ih ht'

/-- Conversely, what a stream delivers can be read in two parts. -/
theorem Delivers.take {v e : View} {bs bs' : List UInt8} (h : Delivers v (bs ++ bs') e) :
    ∃ w, Reads v bs w ∧ Delivers w bs' e := by
  induction bs generalizing v with
  | nil => exact ⟨v, .nil, h⟩
  | cons b bs ih =>
      cases h with
      | byte h hb ht =>
          obtain ⟨w, hr, hd⟩ := ih ht
          exact ⟨w, .cons h hb hr, hd⟩

/-- What a stream delivers starts with the content that is present. -/
theorem Delivers.split {v e : View} {k : ℕ} {bs : List UInt8} (hs : v.skip = false)
    (hc : k ≤ v.contentLen) (hi : k ≤ v.input.length) (hd : Delivers v bs e) :
    ∃ bs', bs = v.input.take k ++ bs' ∧ Delivers (v.consume k) bs' e := by
  induction k generalizing v bs with
  | zero => exact ⟨bs, by simp, hd⟩
  | succ k ih =>
      match hinput : v.input with
      | [] => simp [hinput] at hi
      | b :: input =>
          have hready : v.Ready := ⟨by omega, hs, by simp [hinput]⟩
          rw [hinput, List.length_cons] at hi
          have hadv := advance_ready hready
          cases hd with
          | stop h => rw [hadv] at h; cases h
          | byte h hb ht =>
              rw [hadv] at h
              cases h
              rw [hinput] at hb
              cases hb
              obtain ⟨bs', rfl, hd'⟩ := ih (v := v.consume 1) hs (by simp; omega)
                (by simp [hinput]; omega) ht
              rw [View.consume_add, Nat.add_comm] at hd'
              exact ⟨bs', by simp [hinput], hd'⟩

/-- What a reader delivers is determined by its view. -/
theorem Delivers.unique {v e e' : View} {bs bs' : List UInt8} (h : Delivers v bs e)
    (h' : Delivers v bs' e') : bs = bs' ∧ e = e' := by
  induction h generalizing bs' e' with
  | stop h =>
      cases h' with
      | stop h' => rw [h] at h'; cases h'; exact ⟨rfl, rfl⟩
      | byte h' => rw [h] at h'; cases h'
  | byte h hb _ ih =>
      cases h' with
      | stop h' => rw [h] at h'; cases h'
      | byte h' hb' ht' =>
          rw [h] at h'
          cases h'
          rw [hb] at hb'
          cases hb'
          obtain ⟨rfl, rfl⟩ := ih ht'
          exact ⟨rfl, rfl⟩

theorem advanceEor_ready {v : View} (h : v.Ready) : advanceEor v = (.ready, v) := onInput_ready h

theorem advanceEor_of_not_ready {v : View} (h : ¬v.Ready) : (advanceEor v).1 = .closed :=
  onInput_induct (fun s _ => s = .closed) (fun hr => absurd hr h) (fun _ _ _ _ _ => rfl)
    fun _ _ => rfl

theorem eorContent_ready {v : View} (h : v.Ready) :
    eorContent v = (v.input.take v.present, (advanceEor (v.consume v.present)).2) := by
  rw [eorContent, advanceEor_ready h]

theorem eorContent_of_not_ready {v : View} (h : ¬v.Ready) :
    eorContent v = ([], (advanceEor v).2) := by
  have hclosed := advanceEor_of_not_ready h
  unfold eorContent
  split
  · next w hw => rw [hw] at hclosed; cases hclosed
  · next hw => rw [hw]

/-- Once the content that is there is consumed, no byte can be delivered. -/
theorem not_ready_consume_present (v : View) : ¬(v.consume v.present).Ready := by
  rintro ⟨hc, -, hi⟩
  rw [View.consume_contentLen] at hc
  rw [View.consume_input, ne_eq, List.drop_eq_nil_iff] at hi
  unfold View.present at hc hi
  omega

/-- Under `eorStop` a reader delivers what is there of the record. -/
theorem delivers_eor {v : View} (he : v.eorStop = true) :
    Delivers v (eorContent v).1 (eorContent v).2 := by
  have hstop : ∀ w : View, w.eorStop = true → ¬w.Ready → Delivers w [] (advanceEor w).2 := by
    intro w hw hr
    exact .stop (by rw [advance_eor hw]; exact Prod.ext (advanceEor_of_not_ready hr) rfl)
  by_cases hr : v.Ready
  · rw [eorContent_ready hr]
    have hend := hstop (v.consume v.present) he (not_ready_consume_present v)
    have h := (Reads.segment (k := v.present) hr.2.1 (Nat.min_le_left _ _)
      (Nat.min_le_right _ _)).delivers hend
    rwa [List.append_nil] at h
  · rw [eorContent_of_not_ready hr]
    exact hstop v he hr

end FastCgi
