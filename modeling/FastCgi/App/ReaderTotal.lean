import FastCgi.App.FilterData
import FastCgi.App.WriterBounds

/-!
Readers always return.

A call that does not return is `none` in the model of the reader: its
`ASSERT` fails, its loop does not end, or `FillBuffProc` is called inside
a call of it that is inside another one. The functions that answer a
header rely on `MakeHeader`, whose assertions are tested in `Checked`.

Once a request has begun every header leads to more of its stream or to
its end, so a stream of a request is open and between two records, inside
the content of one, or closed (`Chan.Serving`), and from each of these a
call returns (`Chan.Serving.returns`).
-/

namespace FastCgi

open ByteMem BoundedLoop

/-! ### The answers to headers -/

/-- `sizeof(response)` in `ProcessManagementRecord`. -/
abbrev responseSize : ℕ := 64

/-- The pairs of the answer to a query end inside the `response` array. -/
def ReplyFits (stack : ℕ → UInt8) (query : List (List UInt8)) : Prop :=
  (query.foldl replyStep (stack, fcgiHeaderLen)).2 ≤ responseSize

instance (stack : ℕ → UInt8) (query : List (List UInt8)) : Decidable (ReplyFits stack query) :=
  inferInstanceAs (Decidable (_ ≤ _))

namespace Checked

/-- The answer to `FCGI_GET_VALUES`. -/
def getValuesReply (stack : ℕ → UInt8) (query : List (List UInt8)) :
    Except WriterFault (List UInt8) := do
  let x := query.foldl replyStep (stack, fcgiHeaderLen)
  let len := x.2 - fcgiHeaderLen
  let paddedLen := alignInt8 len
  let header ← makeHeader fcgiGetValuesResult fcgiNullRequestId len ((paddedLen : ℤ) - len)
  return slice (store x.1 0 header.bytes) 0 (fcgiHeaderLen + paddedLen)

/-- The answer to other management records. -/
def unknownTypeReply (type : ℕ) : Except WriterFault (List UInt8) := do
  let header ← makeHeader fcgiUnknownType fcgiNullRequestId 8 0
  return header.bytes ++ makeUnknownTypeBody type

/-- The answer to a second `FCGI_BEGIN_REQUEST`. -/
def cantMpxReply (requestId : ℕ) : Except WriterFault (List UInt8) := do
  let header ← makeHeader fcgiEndRequest requestId 8 0
  return header.bytes ++ makeEndRequestBody 0 fcgiCantMpxConn

end Checked

theorem checked_getValuesReply {stack : ℕ → UInt8} {query : List (List UInt8)}
    (h : ReplyFits stack query) :
    Checked.getValuesReply stack query = .ok (getValuesReply stack query) := by
  have hsize : (query.foldl replyStep (stack, fcgiHeaderLen)).2 ≤ 64 := h
  obtain ⟨len, hlen⟩ : ∃ len,
      (query.foldl replyStep (stack, fcgiHeaderLen)).2 - fcgiHeaderLen = len := ⟨_, rfl⟩
  have hle := le_alignInt8 len
  have hpadding := alignInt8_sub_le len
  have hheader : Checked.makeHeader fcgiGetValuesResult fcgiNullRequestId len
      ((alignInt8 len : ℤ) - len) =
      .ok (makeHeader fcgiGetValuesResult fcgiNullRequestId len (alignInt8 len - len)) := by
    rw [← Nat.cast_sub hle]
    exact checked_makeHeader _ _ _ _ (by omega) (by omega)
  simp only [Checked.getValuesReply, hlen, hheader, getValuesReply]
  rfl

theorem checked_unknownTypeReply (type : ℕ) :
    Checked.unknownTypeReply type = .ok (unknownTypeReply type) := rfl

theorem checked_cantMpxReply (requestId : ℕ) :
    Checked.cantMpxReply requestId = .ok (cantMpxReply requestId) := rfl

/-! ### Calls on the stream of a request -/

/-- Every call that reads from the stream returns. -/
structure Chan.Returns (c : Chan) : Prop where
  getChar : ∃ x, fcgxGetChar fillBuffProc c = some x
  getStr : ∀ n : ℤ, ∃ x, fcgxGetStr fillBuffProc n c = some x
  readParams : ∀ p : Params, ∃ x, readParams fillBuffProc p c = some x

/-- A stream of a request that has begun, between two calls. -/
structure Chan.Serving (c : Chan) : Prop where
  isBeginProcessed : c.req.isBeginProcessed = true
  usable : c.Readable ∨ c.Closed

theorem Chan.Serving.buffered {c : Chan} (h : c.Serving) : c.Buffered :=
  h.usable.elim (·.toBuffered) (·.toBuffered)

/-- At the end of a stream there is no pair to read. -/
theorem readParams_closed {fill : Chan → Option Chan} {c : Chan} (h : c.stream.isClosed = true)
    (p : Params) : readParams fill p c = some (0, p, c) := by
  have hget : fcgxGetChar fill c = some (none, c) := by simp [fcgxGetChar, h]
  have hbody : readParamsBody fill (p, c) = some (.done (0, p, c)) := by
    simp only [readParamsBody, hget]
  rw [readParams, run, hbody]

theorem Chan.Serving.readParams {c : Chan} (h : c.Serving) (p : Params) :
    ∃ x, FastCgi.readParams fillBuffProc p c = some x := by
  rcases h.usable with ho | hclosed
  · obtain ⟨bs, e, hd⟩ := delivers_total (v := c.view) h.isBeginProcessed
    have hf : FillSpec fillBuffProc c.stream.eorStop := by
      rw [ho.eorStop]
      exact fillSpec_fillBuffProc
    obtain ⟨x, hread, -⟩ := readParams_spec hf ho.toOpen hd p
    exact ⟨x, hread⟩
  · exact ⟨_, readParams_closed hclosed.isClosed p⟩

theorem Chan.Serving.read {c : Chan} (h : c.Serving) (call : ReadCall) :
    ∃ xs c', call.perform c = some (xs, c') ∧ c'.Serving := by
  suffices hread : ∃ xs c', call.perform c = some (xs, c') ∧ (c'.Readable ∨ c'.Closed) by
    obtain ⟨xs, c', hcall, husable⟩ := hread
    obtain ⟨n, hreq⟩ := (ReadCall.perform_kept hcall).req.begun h.isBeginProcessed
    refine ⟨xs, c', hcall, ?_, husable⟩
    rw [hreq]
    exact h.isBeginProcessed
  rcases h.usable with ho | hclosed
  · obtain ⟨bs, e, hd⟩ := delivers_total (v := c.view) h.isBeginProcessed
    obtain ⟨xs, c', hcall, hend⟩ := ho.perform hd call
    exact ⟨xs, c', hcall, hend.imp And.left And.left⟩
  · exact ⟨[], c, ReadCall.perform_closed hclosed.isClosed call, .inr hclosed⟩

theorem Chan.Serving.returns {c : Chan} (h : c.Serving) : c.Returns where
  getChar := by
    obtain ⟨xs, c', hcall, -⟩ := h.read .getChar
    obtain ⟨x, hget, -⟩ := Option.map_eq_some_iff.mp hcall
    exact ⟨x, hget⟩
  getStr n := by
    obtain ⟨xs, c', hcall, -⟩ := h.read (.getStr n)
    exact ⟨(xs, c'), hcall⟩
  readParams := h.readParams

theorem Chan.Serving.unGetChar {c : Chan} (h : c.Serving) (b : UInt8) :
    (fcgxUnGetChar b c).2.Serving := by
  rcases fcgxUnGetChar_cases b c with heq | ⟨hopen, -, heq⟩
  · rw [heq]
    exact h
  · rw [heq]
    refine ⟨h.isBeginProcessed, .inl ?_⟩
    rcases h.usable with ho | hclosed
    · exact ⟨ho.toOpen.pushed ho.skip b, ho.eorStop, ho.skip⟩
    · rw [hclosed.isClosed] at hopen
      cases hopen

theorem Chan.Serving.startFilterData {c : Chan} (h : c.Serving) :
    (fcgxStartFilterData c).2.Serving := by
  refine ⟨?_, (spent_startFilterData h.buffered).usable⟩
  rw [fcgxStartFilterData]
  split <;> exact h.isBeginProcessed

/-- One call. -/
theorem Chan.Serving.perform {c : Chan} (h : c.Serving) (call : InputCall) :
    ∃ starts c', call.perform c = some (starts, c') ∧ c'.Serving := by
  cases call with
  | read call =>
      obtain ⟨xs, c', hcall, h'⟩ := h.read call
      refine ⟨[], c', ?_, h'⟩
      rw [InputCall.perform, hcall]
      rfl
  | unGetChar b => exact ⟨_, _, rfl, h.unGetChar b⟩
  | startFilterData => exact ⟨_, _, rfl, h.startFilterData⟩

/-- A sequence of calls. -/
theorem Chan.Serving.performInput {c : Chan} (h : c.Serving) (calls : List InputCall) :
    ∃ starts c', performInput calls c = some (starts, c') ∧ c'.Serving := by
  induction calls generalizing c with
  | nil => exact ⟨[], c, rfl, h⟩
  | cons call calls ih =>
      obtain ⟨starts, c₁, hcall, h₁⟩ := h.perform call
      obtain ⟨starts', c', hcalls, h'⟩ := ih h₁
      refine ⟨starts ++ starts', c', ?_, h'⟩
      rw [FastCgi.performInput, hcall]
      simp only [hcalls, Option.map_some]

theorem serving_accepted {r r' : Request} {s : Stream} (h : acceptConnection r = some (true, r'))
    (hs : r'.inStream = some s) : (r'.chan s).Serving := by
  have hat := acceptConnection_atStdin h hs
  exact ⟨hat.isBeginProcessed, .inl ⟨hat.toBetween.toOpen, hat.eorStop, hat.skip⟩⟩

/-! ### The reader returns -/

/-- What is promised of the reader of a request, on the connection that it has. -/
structure ReaderTotal (r : Request) : Prop where
  /-- The call of `FillBuffProc` in `FCGX_Accept_r`, and all that it reads after that. -/
  fill : ∃ c, fillBuffProc (openReader r) = some c
  accept : ∃ x, acceptConnection r = some x
  /-- The calls on the input stream of the request it accepts, whatever has been called on
  it before. -/
  calls : ∀ r' s, acceptConnection r = some (true, r') → r'.inStream = some s →
    ∀ calls, ∃ starts c, performInput calls (r'.chan s) = some (starts, c) ∧ c.Returns
  /-- The assertions of `MakeHeader`. -/
  unknownType : ∀ type, Checked.unknownTypeReply type = .ok (unknownTypeReply type)
  cantMpx : ∀ requestId, Checked.cantMpxReply requestId = .ok (cantMpxReply requestId)
  getValues : ∀ stack query, ReplyFits stack query →
    Checked.getValuesReply stack query = .ok (getValuesReply stack query)

/-- **The reader always returns**, whatever the peer sends, however it is cut into chunks,
whatever `OS_Read` returns at its end and whatever the writes of the answers return. -/
theorem reader_total (r : Request) : ReaderTotal r where
  fill := by
    have hfresh := fresh_openReader r
    obtain ⟨c, hfill, -⟩ :=
      fillSpec_fillBuffProc (openReader r) hfresh.toOpen hfresh.rdNext_eq hfresh.eorStop
    exact ⟨c, hfill⟩
  accept := by
    obtain ⟨res, c, hread, -⟩ := readRequest_spec (fresh_openReader r)
    rw [acceptConnection, hread]
    cases res with
    | none => exact ⟨_, rfl⟩
    | some params => exact ⟨_, rfl⟩
  calls r' s hacc hs calls := by
    obtain ⟨starts, c, hcalls, h⟩ := (serving_accepted hacc hs).performInput calls
    exact ⟨starts, c, hcalls, h.returns⟩
  unknownType := checked_unknownTypeReply
  cantMpx := checked_cantMpxReply
  getValues _ _ := checked_getValuesReply

end FastCgi
