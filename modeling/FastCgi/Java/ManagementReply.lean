import FastCgi.App.QueryReply
import FastCgi.Java.EndsCleanly
import FastCgi.Java.InsideRecord

/-!
What the Java library writes in answer to a management record.

The response to `FCGI_GET_VALUES` announces 65528 bytes of content and 64 of
padding, and 16 bytes of it go out, so there is never a record on the socket
(`prefix_not_encode`). The other management types are answered as they should
be (`management_answered_iff`).
-/

namespace FastCgi

namespace Java

open ByteMem

/-! ### What goes out -/

/-- The next call of `write` takes `n` bytes, even if it throws an exception then. -/
def FileOutputStream.Takes (out : FileOutputStream) (n : ℕ) : Prop :=
  ∀ k rs, out.results = some k :: rs → n ≤ k

theorem FileOutputStream.written_write (out : FileOutputStream) (bs : List UInt8) :
    ∃ k, (out.write bs).2.written = out.written ++ bs.take k ∧ (bs.length ≤ k ↔ out.Takes bs.length) := by
  rcases out.write_cases bs with ⟨out', hwrite, hout, -, hres⟩ | ⟨k, out', hwrite, hout, rs, hres⟩
  · exact ⟨bs.length, by rw [hwrite, hout, List.take_length],
      fun _ k rs hk => absurd hk (hres k rs), fun _ => le_rfl⟩
  · refine ⟨k, by rw [hwrite, hout], fun hle k' rs' hk => ?_, fun htakes => htakes k rs hres⟩
    rw [hres] at hk
    cases hk
    exact hle

/-- The response to a management record that is not understood is a record. -/
def unknownTypeRecord (type : ℕ) : Record :=
  dataRecord fcgiUnknownType fcgiNullRequestId (makeUnknownTypeBody type) []
    (by rw [length_makeUnknownTypeBody]; decide) nil_padding_le

theorem unknownTypeResponse_eq (type : ℕ) :
    unknownTypeResponse type = (unknownTypeRecord type).encode := by
  rw [unknownTypeRecord, encode_dataRecord (by decide) (by decide), List.append_nil]
  rfl

/-- The header of the response to a query. -/
theorem getValuesResponse_header (props : List NameValue) :
    ∃ tail, getValuesResponse props =
      (FastCgi.makeHeader fcgiGetValuesResult fcgiNullRequestId 65528 64).bytes ++ tail ∧
      tail.length = 8 := by
  refine ⟨(getValuesResponse props).drop 8, ?_, ?_⟩
  · exact (List.take_append_drop 8 _).symm
  · rw [List.length_drop, getValuesResponse, length_slice]

/-- **The response to a query is no record**, and neither is what an exception leaves of it. -/
theorem prefix_not_encode {props : List NameValue} {bs : List UInt8}
    (h : bs <+: getValuesResponse props) (r : Record) : r.encode ≠ bs := by
  intro heq
  obtain ⟨tail, htail, hlen⟩ := getValuesResponse_header props
  obtain ⟨rest, hrest⟩ := h
  rw [← heq, htail, encode_append_eq] at hrest
  obtain ⟨hheader, hcontent⟩ := header_append_inj hrest
  have hlong : r.content.length = 65528 := by
    rw [← r.header_contentLength, hheader]
    exact makeHeader_contentLength (by decide)
  have hshort := congrArg List.length hcontent
  rw [List.length_append, hlen, hlong] at hshort
  omega

/-! ### Management records -/

/-- The answer to the management record `q` that the specification asks for: one record, which
holds the variables that are asked for and known, or names the type. -/
def Answers (q : Record) (socket socket' : FileOutputStream) : Prop :=
  ∃ reply : Record, socket'.written = socket.written ++ reply.encode ∧
    reply.requestId.toNat = fcgiNullRequestId ∧
    if q.type.toNat = fcgiGetValues then
      reply.type.toNat = fcgiGetValuesResult ∧
        ∀ ps, Encodes q.content ps →
          ∃ answers, Encodes reply.content answers ∧ answers.Perm (knownPairs ps)
    else
      reply.type.toNat = fcgiUnknownType ∧
        reply.content = makeUnknownTypeBody q.type.toNat

/-- What an answer has written. -/
theorem sendResponse_written (response : List UInt8) (c : InChan) :
    ∃ k, (c.sendResponse response).2.socket.written = c.socket.written ++ response.take k ∧
      (response.length ≤ k ↔ c.socket.Takes response.length) := by
  obtain ⟨k, hwritten, hk⟩ := c.socket.written_write response
  refine ⟨k, ?_, hk⟩
  rw [← hwritten, InChan.sendResponse]
  split <;> next hwrite => rw [hwrite]

/-- What a query has had written is the front of the response, if anything. -/
theorem answerParams_written (props : List NameValue) (c : InChan) :
    ∃ bs, bs <+: getValuesResponse props ∧
      (c.answerParams props).2.socket.written = c.socket.written ++ bs := by
  rw [InChan.answerParams]
  split
  · exact ⟨[], List.nil_prefix, (List.append_nil _).symm⟩
  · obtain ⟨k, hwritten, -⟩ := sendResponse_written (getValuesResponse props) c
    exact ⟨_, List.take_prefix k _, hwritten⟩

/-- **Management records are answered except for `FCGI_GET_VALUES`**: behind the header of `q`,
whatever is in the buffer and still to come, the answer is the one that is asked for exactly if
the type is another one and the socket takes the 16 bytes. -/
theorem management_answered_iff (c : InChan) (q : Record) :
    (∃ status c', InChan.processManagementRecord InChan.fill q.type.toNat
        (c.enterRecord.startRecord q.header) = some (status, c') ∧ Answers q c.socket c'.socket) ↔
      q.type.toNat ≠ fcgiGetValues ∧ c.socket.Takes 16 := by
  rw [InChan.processManagementRecord]
  by_cases hvalues : q.type.toNat = fcgiGetValues
  · rw [if_pos hvalues]
    refine ⟨?_, fun h => absurd hvalues h.1⟩
    rintro ⟨status, c', hrun, reply, hwritten, -⟩
    split at hrun
    · cases hrun
    · next rc props c₁ hread =>
        have hinside := InChan.Inside.readParams (InChan.staysInside_fillAt c 2)
          (c := c.enterRecord.startRecord q.header) ⟨rfl, rfl, rfl⟩ hread
        obtain ⟨bs, hfront, hbs⟩ := answerParams_written props c₁
        rw [Option.some.inj hrun, hwritten, hinside.socket_eq] at hbs
        exact absurd (List.append_cancel_left hbs) (prefix_not_encode hfront reply)
  · rw [if_neg hvalues]
    obtain ⟨k, hwritten, hk⟩ := sendResponse_written (unknownTypeResponse q.type.toNat)
      (c.enterRecord.startRecord q.header)
    rw [unknownTypeResponse_eq] at hwritten hk ⊢
    have hlen : (unknownTypeRecord q.type.toNat).encode.length = 16 := by
      rw [Record.length_encode]
      rfl
    rw [hlen] at hk
    constructor
    · rintro ⟨status, c', hrun, reply, hreply, -, hanswer⟩
      rw [if_neg hvalues] at hanswer
      rw [Option.some.inj hrun, hreply] at hwritten
      have htake := congrArg List.length (List.append_cancel_left hwritten)
      rw [Record.length_encode, hanswer.2, length_makeUnknownTypeBody, List.length_take, hlen]
        at htake
      exact ⟨hvalues, hk.mp (by omega)⟩
    · rintro ⟨-, htakes⟩
      refine ⟨_, _, rfl, unknownTypeRecord q.type.toNat, ?_, rfl, ?_⟩
      · rw [List.take_of_length_le (hlen ▸ hk.mpr htakes)] at hwritten
        exact hwritten
      · rw [if_neg hvalues]
        exact ⟨rfl, rfl⟩

/-- A management record with this content. -/
def managementRecord (type : UInt8) (content : List UInt8) (hle : content.length ≤ 65535) : Record :=
  { type := type, requestId := 0, content := content, padding := [], reserved := 0
    content_le := hle, padding_le := nil_padding_le }

/-- The stream behind the header of that record, whose content comes next. -/
def askedReader (content : List UInt8) : InChan := stdinFrom [content] .ioException

/-- `FCGI_MAX_REQS` is asked for, and what goes out is a header for 65528 bytes and the eight
bytes of the array behind it. -/
theorem management_unanswered :
    Encodes (13 :: 0 :: fcgiMaxReqs) [⟨fcgiMaxReqs, []⟩] ∧
      (InChan.processManagementRecord InChan.fill fcgiGetValues
          ((askedReader (13 :: 0 :: fcgiMaxReqs)).enterRecord.startRecord
            (managementRecord 9 (13 :: 0 :: fcgiMaxReqs) (by decide)).header)).map
        (fun x => (x.1, x.2.socket.written)) =
          some (.mgmtRecord, [1, 10, 0, 0, 255, 248, 64, 0, 65, 88, 95, 82, 69, 81, 83, 49]) ∧
      ∀ reply : Record,
        reply.encode ≠ [1, 10, 0, 0, 255, 248, 64, 0, 65, 88, 95, 82, 69, 81, 83, 49] := by
  have hresponse : [1, 10, 0, 0, 255, 248, 64, 0, 65, 88, 95, 82, 69, 81, 83, 49] <+:
      getValuesResponse [⟨fcgiMaxReqs, []⟩] := ⟨[], by decide +kernel⟩
  exact ⟨(encodes_iff.mp (by decide +kernel)).1, by decide +kernel, prefix_not_encode hresponse⟩

end Java

end FastCgi
