import Mathlib.Data.Int.Bitwise
import Mathlib.Data.Int.Notation
import Mathlib.Data.List.Infix
import Mathlib.Tactic.Common

/-!
The record layer of the protocol, from `include/fastcgi.h` and the
`MakeHeader` of `libfcgi/fcgiapp.c` and `cgi-fcgi/cgi-fcgi.c` (the two
are the same function).

`Header` is `FCGI_Header`: eight unsigned bytes, so its layout in memory
is the list of its fields. `Record` is the abstract notion: a version-1
record with its content and padding, whose two length bounds are fields,
so that a record that cannot be framed cannot be built. `Record.encode`
is its wire form, and `Header.ofBytes_encode` and the `header_*` lemmas
say that the fields read back by the code are the ones it was built with.
-/

namespace FastCgi

/-! ### Constants -/

abbrev fcgiMaxLength : ℕ := 0xffff
abbrev fcgiHeaderLen : ℕ := 8
abbrev fcgiVersion1 : UInt8 := 1

abbrev fcgiBeginRequest : ℕ := 1
abbrev fcgiEndRequest : ℕ := 3
abbrev fcgiParams : ℕ := 4
abbrev fcgiStdin : ℕ := 5
abbrev fcgiStdout : ℕ := 6
abbrev fcgiStderr : ℕ := 7
abbrev fcgiData : ℕ := 8
abbrev fcgiGetValues : ℕ := 9
abbrev fcgiGetValuesResult : ℕ := 10
abbrev fcgiUnknownType : ℕ := 11

abbrev fcgiNullRequestId : ℕ := 0

abbrev fcgiKeepConn : ℕ := 1

abbrev fcgiResponder : ℕ := 1
abbrev fcgiAuthorizer : ℕ := 2
abbrev fcgiFilter : ℕ := 3

abbrev fcgiRequestComplete : ℕ := 0
abbrev fcgiCantMpxConn : ℕ := 1

/-- `FCGX_UNSUPPORTED_VERSION` and its fellows, from `include/fcgiapp.h`. -/
abbrev fcgxUnsupportedVersion : ℤ := -2
abbrev fcgxProtocolError : ℤ := -3
abbrev fcgxParamsError : ℤ := -4
abbrev fcgxCallSeqError : ℤ := -5

/-! ### Headers -/

/-- `FCGI_Header`. -/
structure Header where
  version : UInt8
  type : UInt8
  requestIdB1 : UInt8
  requestIdB0 : UInt8
  contentLengthB1 : UInt8
  contentLengthB0 : UInt8
  paddingLength : UInt8
  reserved : UInt8
  deriving DecidableEq, Repr

/-- The eight bytes of a header in memory. -/
def Header.bytes (h : Header) : List UInt8 :=
  [h.version, h.type, h.requestIdB1, h.requestIdB0, h.contentLengthB1, h.contentLengthB0,
    h.paddingLength, h.reserved]

/-- The header that eight bytes of memory are; missing bytes read as 0. -/
def Header.ofBytes (bs : List UInt8) : Header :=
  { version := bs.getD 0 0, type := bs.getD 1 0, requestIdB1 := bs.getD 2 0,
    requestIdB0 := bs.getD 3 0, contentLengthB1 := bs.getD 4 0, contentLengthB0 := bs.getD 5 0,
    paddingLength := bs.getD 6 0, reserved := bs.getD 7 0 }

/-- `(header.requestIdB1 << 8) + header.requestIdB0`. -/
def Header.requestId (h : Header) : ℕ := (h.requestIdB1.toNat <<< 8) + h.requestIdB0.toNat

/-- `(header.contentLengthB1 << 8) + header.contentLengthB0`. -/
def Header.contentLength (h : Header) : ℕ :=
  (h.contentLengthB1.toNat <<< 8) + h.contentLengthB0.toNat

@[simp] theorem Header.length_bytes (h : Header) : h.bytes.length = 8 := rfl

@[simp] theorem Header.ofBytes_bytes (h : Header) : Header.ofBytes h.bytes = h := rfl

/-- Only the first eight bytes matter. -/
@[simp] theorem Header.ofBytes_bytes_append (h : Header) (bs : List UInt8) :
    Header.ofBytes (h.bytes ++ bs) = h := rfl

theorem Header.bytes_ofBytes {bs : List UInt8} (h : bs.length = 8) :
    (Header.ofBytes bs).bytes = bs := by
  match bs, h with
  | [_, _, _, _, _, _, _, _], _ => rfl

/-- `MakeHeader`. Its two assertions, `contentLength ≤ FCGI_MAX_LENGTH` and
`paddingLength ≤ 0xff`, are stated where it is called. -/
def makeHeader (type requestId contentLength paddingLength : ℕ) : Header :=
  { version := fcgiVersion1
    type := UInt8.ofNat type
    requestIdB1 := UInt8.ofNat ((requestId >>> 8) &&& 0xff)
    requestIdB0 := UInt8.ofNat (requestId &&& 0xff)
    contentLengthB1 := UInt8.ofNat ((contentLength >>> 8) &&& 0xff)
    contentLengthB0 := UInt8.ofNat (contentLength &&& 0xff)
    paddingLength := UInt8.ofNat paddingLength
    reserved := 0 }

theorem and_0xff (n : ℕ) : n &&& 0xff = n % 256 := Nat.and_two_pow_sub_one_eq_mod n 8

theorem toNat_ofNat_of_lt {n : ℕ} (h : n < 256) : (UInt8.ofNat n).toNat = n := by
  rw [UInt8.toNat_ofNat', Nat.mod_eq_of_lt h]

/-- Two bytes, most significant first, make up a number below `2 ^ 16`. -/
theorem ofNat_shift_add {n : ℕ} (h : n < 65536) :
    ((UInt8.ofNat ((n >>> 8) &&& 0xff)).toNat <<< 8) + (UInt8.ofNat (n &&& 0xff)).toNat = n := by
  rw [and_0xff, and_0xff, toNat_ofNat_of_lt (by omega), toNat_ofNat_of_lt (by omega),
    Nat.shiftRight_eq_div_pow, Nat.shiftLeft_eq]
  omega

theorem makeHeader_contentLength {t id c p : ℕ} (h : c ≤ 65535) :
    (makeHeader t id c p).contentLength = c := ofNat_shift_add (by omega)

theorem Header.requestId_lt (h : Header) : h.requestId < 65536 := by
  have h1 := h.requestIdB1.toNat_lt
  have h0 := h.requestIdB0.toNat_lt
  rw [Header.requestId, Nat.shiftLeft_eq]
  omega

theorem Header.contentLength_le (h : Header) : h.contentLength ≤ 65535 := by
  have h1 := h.contentLengthB1.toNat_lt
  have h0 := h.contentLengthB0.toNat_lt
  rw [Header.contentLength, Nat.shiftLeft_eq]
  omega

theorem Header.paddingLength_le (h : Header) : h.paddingLength.toNat ≤ 255 := by
  have := h.paddingLength.toNat_lt
  omega

/-- A number made up of two bytes has them as its digits. -/
theorem digits_shift_add (b₁ b₀ : UInt8) :
    UInt8.ofNat ((((b₁.toNat <<< 8) + b₀.toNat) >>> 8) &&& 0xff) = b₁ ∧
      UInt8.ofNat (((b₁.toNat <<< 8) + b₀.toNat) &&& 0xff) = b₀ := by
  have h1 := b₁.toNat_lt
  have h0 := b₀.toNat_lt
  rw [and_0xff, and_0xff, Nat.shiftRight_eq_div_pow, Nat.shiftLeft_eq]
  rw [show (b₁.toNat * 2 ^ 8 + b₀.toNat) / 2 ^ 8 % 256 = b₁.toNat by omega,
    show (b₁.toNat * 2 ^ 8 + b₀.toNat) % 256 = b₀.toNat by omega]
  exact ⟨UInt8.ofNat_toNat, UInt8.ofNat_toNat⟩

/-- `MakeHeader` gives back a header from its fields. -/
theorem makeHeader_fields {h : Header} (hversion : h.version = fcgiVersion1) :
    { makeHeader h.type.toNat h.requestId h.contentLength h.paddingLength.toNat with
      reserved := h.reserved } = h := by
  obtain ⟨hi1, hi0⟩ := digits_shift_add h.requestIdB1 h.requestIdB0
  obtain ⟨hc1, hc0⟩ := digits_shift_add h.contentLengthB1 h.contentLengthB0
  obtain ⟨version, type, i1, i0, c1, c0, padding, reserved⟩ := h
  obtain rfl : version = fcgiVersion1 := hversion
  simp only [makeHeader, Header.requestId, Header.contentLength, hi1, hi0, hc1, hc0,
    UInt8.ofNat_toNat]

/-! ### Records -/

/-- A version-1 record. The bounds are those of its two length fields. -/
structure Record where
  type : UInt8
  requestId : UInt16
  content : List UInt8
  padding : List UInt8
  reserved : UInt8
  content_le : content.length ≤ 65535
  padding_le : padding.length ≤ 255
  deriving DecidableEq

/-- The header of a record. -/
def Record.header (r : Record) : Header :=
  { makeHeader r.type.toNat r.requestId.toNat r.content.length r.padding.length with
    reserved := r.reserved }

/-- The bytes of a record on the wire. -/
def Record.encode (r : Record) : List UInt8 := r.header.bytes ++ (r.content ++ r.padding)

/-- The bytes of a sequence of records. -/
def encodeAll (rs : List Record) : List UInt8 := rs.flatMap Record.encode

@[simp] theorem encodeAll_nil : encodeAll [] = [] := rfl

@[simp] theorem encodeAll_cons (r : Record) (rs : List Record) :
    encodeAll (r :: rs) = r.encode ++ encodeAll rs := rfl

@[simp] theorem encodeAll_append (rs rs' : List Record) :
    encodeAll (rs ++ rs') = encodeAll rs ++ encodeAll rs' := by
  simp [encodeAll]

@[simp] theorem Record.header_version (r : Record) : r.header.version = fcgiVersion1 := rfl

@[simp] theorem Record.header_type (r : Record) : r.header.type = r.type := by
  simp [Record.header, makeHeader]

@[simp] theorem Record.header_reserved (r : Record) : r.header.reserved = r.reserved := rfl

@[simp] theorem Record.header_requestId (r : Record) :
    r.header.requestId = r.requestId.toNat := ofNat_shift_add r.requestId.toNat_lt

@[simp] theorem Record.header_contentLength (r : Record) :
    r.header.contentLength = r.content.length :=
  ofNat_shift_add (by have := r.content_le; omega)

@[simp] theorem Record.header_paddingLength (r : Record) :
    r.header.paddingLength.toNat = r.padding.length :=
  toNat_ofNat_of_lt (by have := r.padding_le; omega)

@[simp] theorem Record.length_encode (r : Record) :
    r.encode.length = 8 + r.content.length + r.padding.length := by
  simp [Record.encode, Nat.add_assoc]

theorem Record.encode_ne_nil (r : Record) : r.encode ≠ [] := by
  simp [Record.encode, Header.bytes]

theorem Header.ofBytes_take (bs : List UInt8) : Header.ofBytes (bs.take 8) = Header.ofBytes bs := by
  match bs with
  | [] | [_] | [_, _] | [_, _, _] | [_, _, _, _] | [_, _, _, _, _] | [_, _, _, _, _, _]
  | [_, _, _, _, _, _, _] | _ :: _ :: _ :: _ :: _ :: _ :: _ :: _ :: _ => rfl

/-! ### Reading a record off the wire -/

theorem header_append_inj {h h' : Header} {tail tail' : List UInt8}
    (heq : h.bytes ++ tail = h'.bytes ++ tail') : h = h' ∧ tail = tail' := by
  have hheader : h = h' := congrArg Header.ofBytes heq
  subst hheader
  exact ⟨rfl, List.append_cancel_left heq⟩

/-- A record on the wire starts with its header. -/
theorem encode_append_eq (r : Record) (post : List UInt8) :
    r.encode ++ post = r.header.bytes ++ (r.content ++ (r.padding ++ post)) := by
  rw [Record.encode, List.append_assoc, List.append_assoc]

/-- A record on the wire says itself where it ends. -/
theorem encode_append_inj {r r' : Record} {post post' : List UInt8}
    (heq : r.encode ++ post = r'.encode ++ post') : r = r' ∧ post = post' := by
  simp only [Record.encode, List.append_assoc] at heq
  obtain ⟨hheader, htail⟩ := header_append_inj heq
  have hc : r.content.length = r'.content.length := by
    rw [← r.header_contentLength, hheader, r'.header_contentLength]
  have hp : r.padding.length = r'.padding.length := by
    rw [← r.header_paddingLength, hheader, r'.header_paddingLength]
  obtain ⟨hcontent, htail⟩ := List.append_inj htail hc
  obtain ⟨hpadding, hpost⟩ := List.append_inj htail hp
  have ht : r.type = r'.type := by rw [← r.header_type, hheader, r'.header_type]
  have hid : r.requestId = r'.requestId := by
    rw [← UInt16.toNat_inj, ← r.header_requestId, hheader, r'.header_requestId]
  have hres : r.reserved = r'.reserved := by
    rw [← r.header_reserved, hheader, r'.header_reserved]
  cases r
  cases r'
  simp_all

/-- The bytes of a sequence of records say which records they are. -/
theorem encodeAll_inj {rs rs' : List Record} (heq : encodeAll rs = encodeAll rs') : rs = rs' := by
  induction rs generalizing rs' with
  | nil =>
      cases rs' with
      | nil => rfl
      | cons r' rs' =>
          exact absurd (List.append_eq_nil_iff.mp heq.symm).1 r'.encode_ne_nil
  | cons r rs ih =>
      cases rs' with
      | nil => exact absurd (List.append_eq_nil_iff.mp heq).1 r.encode_ne_nil
      | cons r' rs' =>
          obtain ⟨rfl, htail⟩ := encode_append_inj heq
          rw [ih htail]

/-- Bytes that are long enough start with a header. -/
theorem exists_header {part : List UInt8} (h : 8 ≤ part.length) :
    ∃ (hdr : Header) (tail : List UInt8), part = hdr.bytes ++ tail := by
  refine ⟨Header.ofBytes (part.take 8), part.drop 8, ?_⟩
  rw [Header.bytes_ofBytes (by rw [List.length_take]; omega), List.take_append_drop]

/-- Behind a header there is the rest of a whole record, or there is not. -/
theorem exists_record {h : Header} (hversion : h.version = fcgiVersion1) {tail : List UInt8}
    (hlen : h.contentLength + h.paddingLength.toNat ≤ tail.length) :
    ∃ (r : Record) (post : List UInt8), r.header = h ∧ h.bytes ++ tail = r.encode ++ post := by
  have hc := h.contentLength_le
  have hp := h.paddingLength_le
  let r : Record :=
    { type := h.type, requestId := UInt16.ofNat h.requestId, content := tail.take h.contentLength
      padding := (tail.drop h.contentLength).take h.paddingLength.toNat, reserved := h.reserved
      content_le := by rw [List.length_take]; omega
      padding_le := by rw [List.length_take]; omega }
  have hcontent : r.content.length = h.contentLength := by
    show (tail.take h.contentLength).length = _
    rw [List.length_take]
    omega
  have hpadding : r.padding.length = h.paddingLength.toNat := by
    show ((tail.drop h.contentLength).take _).length = _
    rw [List.length_take, List.length_drop]
    omega
  have hid : (UInt16.ofNat h.requestId).toNat = h.requestId := by
    rw [UInt16.toNat_ofNat', Nat.mod_eq_of_lt h.requestId_lt]
  have hheader : r.header = h := by
    rw [Record.header, hcontent, hpadding, hid]
    exact makeHeader_fields hversion
  refine ⟨r, (tail.drop h.contentLength).drop h.paddingLength.toNat, hheader, ?_⟩
  rw [Record.encode, hheader, List.append_assoc, List.append_assoc]
  show h.bytes ++ tail = h.bytes ++ (tail.take h.contentLength ++ (_ ++ _))
  rw [List.take_append_drop, List.take_append_drop]

/-- What a front part of a sequence of records starts with. -/
theorem header_of_prefix {bs : List UInt8} {rs : List Record} (h : bs <+: encodeAll rs)
    (hlen : 8 ≤ bs.length) :
    ∃ r rs', rs = r :: rs' ∧ r.header = Header.ofBytes bs ∧
      bs.drop (8 + r.content.length + r.padding.length) <+: encodeAll rs' := by
  cases rs with
  | nil =>
      have hnil : bs = [] := List.prefix_nil.mp h
      simp [hnil] at hlen
  | cons r rs =>
      refine ⟨r, rs, rfl, ?_, ?_⟩
      · obtain ⟨more, hmore⟩ := h
        have htake : bs.take 8 = r.header.bytes := by
          calc bs.take 8 = (bs ++ more).take 8 := (List.take_append_of_le_length hlen).symm
            _ = r.header.bytes := by
              rw [hmore, encodeAll_cons, Record.encode, List.append_assoc]
              exact List.take_left' r.header.length_bytes
        rw [← Header.ofBytes_take, htake, Header.ofBytes_bytes]
      · have hdrop := List.IsPrefix.drop h (8 + r.content.length + r.padding.length)
        rwa [encodeAll_cons, List.drop_left' r.length_encode] at hdrop

/-- The record that `MakeHeader` announces. -/
def dataRecord (type requestId : ℕ) (content padding : List UInt8)
    (hc : content.length ≤ 65535) (hp : padding.length ≤ 255) : Record :=
  { type := UInt8.ofNat type, requestId := UInt16.ofNat requestId, content := content
    padding := padding, reserved := 0, content_le := hc, padding_le := hp }

theorem nil_content_le : ([] : List UInt8).length ≤ 65535 := Nat.zero_le _

theorem nil_padding_le : ([] : List UInt8).length ≤ 255 := Nat.zero_le _

section DataRecord

variable {type requestId : ℕ} {content padding : List UInt8} {hc : content.length ≤ 65535}
  {hp : padding.length ≤ 255}

theorem dataRecord_type (h : type < 256) :
    (dataRecord type requestId content padding hc hp).type.toNat = type := toNat_ofNat_of_lt h

theorem dataRecord_requestId (h : requestId < 65536) :
    (dataRecord type requestId content padding hc hp).requestId.toNat = requestId := by
  rw [dataRecord, UInt16.toNat_ofNat', Nat.mod_eq_of_lt h]

theorem encode_dataRecord (ht : type < 256) (hid : requestId < 65536) :
    (dataRecord type requestId content padding hc hp).encode =
      (makeHeader type requestId content.length padding.length).bytes ++ (content ++ padding) := by
  rw [Record.encode, Record.header, dataRecord_type ht, dataRecord_requestId hid]
  rfl

end DataRecord

/-! ### Request bodies -/

/-- `FCGI_EndRequestBody`, as `MakeEndRequestBody` fills it in. The status is
a C `int`; its four bytes are those of its two's complement. -/
def makeEndRequestBody (appStatus : ℤ) (protocolStatus : ℕ) : List UInt8 :=
  [UInt8.ofNat ((appStatus >>> 24) % 256).toNat, UInt8.ofNat ((appStatus >>> 16) % 256).toNat,
    UInt8.ofNat ((appStatus >>> 8) % 256).toNat, UInt8.ofNat (appStatus % 256).toNat,
    UInt8.ofNat protocolStatus, 0, 0, 0]

@[simp] theorem length_makeEndRequestBody (a : ℤ) (p : ℕ) :
    (makeEndRequestBody a p).length = 8 := rfl

theorem makeEndRequestBody_le (a : ℤ) (p : ℕ) : (makeEndRequestBody a p).length ≤ 65535 := by
  rw [length_makeEndRequestBody]
  decide

/-- `FCGI_UnknownTypeBody`, as `MakeUnknownTypeBody` fills it in. -/
def makeUnknownTypeBody (type : ℕ) : List UInt8 := [UInt8.ofNat type, 0, 0, 0, 0, 0, 0, 0]

@[simp] theorem length_makeUnknownTypeBody (t : ℕ) : (makeUnknownTypeBody t).length = 8 := rfl

end FastCgi
