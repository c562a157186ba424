import FastCgi.App.Writer
import FastCgi.Protocol.NameValue
import FastCgi.Lib.Sprintf

/-!
`FCGX_VFPrintF` of `libfcgi/fcgiapp.c`.

The buffers have the lengths they have in the source. A write that does not
fit, an assertion that fails and an overflow of an `int` end the call
(`Abort`), so "the buffers are large enough" is a statement about how calls
end. The conversions of floating point numbers and `n` are left out: a call
that comes to one of them ends there.

A conversion specification that has flags, a width or a precision fails on
the fast path and is scanned again on the slow path, which bounds the
buffering. What each conversion starts from is recorded (`Entry`).
-/

namespace FastCgi

open BoundedLoop Numeral Sprintf

/-! ### Arguments and outcomes -/

/-- A value of type `int`. -/
abbrev CInt := BitVec 32

def intMin : CInt := 0x80000000

/-- An argument of the call. `long` and `long long` have 64 bits. -/
inductive Arg where
  | int (n : CInt)
  | long (n : BitVec 64)
  | string (s : Option CString)
  | pointer (n : BitVec 64)

/-- What ends a call before the end of its format. -/
inductive Abort where
  /-- `goto ErrorReturn`. -/
  | errorReturn
  /-- `sprintf` writes over the end of the buffer. -/
  | buffOverflow
  /-- The format string that is built does not fit `fmtBuff`. -/
  | fmtBuffOverflow
  /-- `ASSERT(buffCount < buffLen)` fails. -/
  | assertion
  /-- An `int` overflows. -/
  | intOverflow
  /-- A conversion that is left out, or an argument that is not the one that is read. -/
  | outside
  deriving DecidableEq

/-- The function does not do what it is there for. -/
def Abort.isFault : Abort → Bool
  | .errorReturn | .outside => false
  | .buffOverflow | .fmtBuffOverflow | .assertion | .intOverflow => true

/-- `max`. -/
def maxInt (a b : CInt) : CInt := if b.toInt < a.toInt then a else b

/-- `a + b`, where `b` is positive. -/
def addInt (a b : CInt) : Except Abort CInt :=
  if a.toInt + b.toInt ≤ (intMax : ℤ) then .ok (a + b) else .error .intOverflow

/-- The next argument, which is an `int`. -/
def vaInt : List Arg → Except Abort (CInt × List Arg)
  | .int n :: args => .ok (n, args)
  | _ => .error .outside

/-- The next argument, which is a `long` or a `long long`. -/
def vaLong : List Arg → Except Abort (BitVec 64 × List Arg)
  | .long n :: args => .ok (n, args)
  | _ => .error .outside

/-- The next argument, which is a `void *`. -/
def vaPointer : List Arg → Except Abort (BitVec 64 × List Arg)
  | .pointer n :: args => .ok (n, args)
  | _ => .error .outside

/-! ### The scan of the slow path -/

def printfBuffLen : CInt := 100

def fmtBuffLen : ℕ := 25

/-- What is in `fmtBuff` before `fmtBuffPtr`, what `p` points to, and the arguments. -/
structure Scan where
  fmt : List UInt8
  p : List UInt8
  args : List Arg

/-- `*p`. -/
def Scan.char (s : Scan) : UInt8 := s.p.headD 0

/-- `CopyAndAdvance`. -/
def copyAndAdvance (s : Scan) (n : ℕ) : Except Abort Scan :=
  if s.fmt.length + n ≤ fmtBuffLen then
    .ok { s with fmt := s.fmt ++ s.p.take n, p := s.p.drop n }
  else .error .fmtBuffOverflow

/-- `sprintf(fmtBuffPtr, "%d", n)`, of an argument that `*` stands for. -/
def copyInt (s : Scan) (n : ℤ) (args : List Arg) : Except Abort Scan :=
  let text := sprintf [code '%', code 'd'] (.signed n)
  if s.fmt.length + text.length + 1 ≤ fmtBuffLen then
    .ok { fmt := s.fmt ++ text, p := s.p.drop 1, args := args }
  else .error .fmtBuffOverflow

/-- Scan flags. -/
def scanFlags (s : Scan) : Except Abort Scan :=
  let n := (s.p.takeWhile isFlag).length
  if n > 5 then .error .errorReturn else copyAndAdvance s n

/-- Scan minimum field width. -/
def scanWidth (s : Scan) : Except Abort (CInt × Scan) :=
  let digits := s.p.takeWhile isDecimal
  let n := digits.length
  if n = 0 then
    if s.char = code '*' then
      match vaInt s.args with
      | .error abort => .error abort
      | .ok (minWidth, args) =>
          -- `abs(minWidth)`
          if minWidth = intMin then .error .intOverflow
          else if minWidth.toInt.natAbs > 999999 then .error .errorReturn
          else (copyInt s minWidth.toInt args).map fun s => (minWidth, s)
    else .ok (0, s)
  else if n ≤ 6 then
    (copyAndAdvance s n).map fun s => (BitVec.ofNat 32 (readDecimal digits), s)
  else .error .errorReturn

/-- What follows the dot of a precision. -/
def scanPrecisionValue (s : Scan) : Except Abort (CInt × Scan) :=
  let digits := s.p.takeWhile isDecimal
  let n := digits.length
  if n = 0 then
    if s.char = code '*' then
      match vaInt s.args with
      | .error abort => .error abort
      | .ok (precision, args) =>
          let precision := if precision.toInt < 0 then 0 else precision
          if precision.toInt > 999999 then .error .errorReturn
          else (copyInt s precision.toInt args).map fun s => (precision, s)
    else .ok (0, s)
  else if n ≤ 6 then
    (copyAndAdvance s n).map fun s => (BitVec.ofNat 32 (readDecimal digits), s)
  else .error .errorReturn

/-- Scan precision. -/
def scanPrecision (s : Scan) : Except Abort (CInt × Scan) :=
  if s.char = code '.' then
    match copyAndAdvance s 1 with
    | .error abort => .error abort
    | .ok s => scanPrecisionValue s
  else .ok (-1, s)

/-- Scan size modifier. -/
def scanModifier (s : Scan) : Except Abort (UInt8 × Scan) :=
  if s.char = code 'l' ∧ s.p.getD 1 0 = code 'l' then
    (copyAndAdvance s 2).map fun s => (code 'L', s)
  else if s.char = code 'l' ∨ s.char = code 'L' ∨ s.char = code 'h' then
    (copyAndAdvance s 1).map fun s' => (s.char, s')
  else .ok (code ' ', s)

/-- A conversion specifier: the format string for `sprintf`, what it says, and what
follows it in the format. -/
structure Specifier where
  fmtBuff : List UInt8
  sizeModifier : UInt8
  op : UInt8
  rest : List UInt8

/-- What the scan finds besides; `precision` is -1 where there is none. -/
structure SlowSpecifier extends Specifier where
  minWidth : CInt
  precision : CInt
  args : List Arg

/-- Scan conversion operation; the assertion is about the NUL that follows. -/
def scanOp (s : Scan) : Except Abort (UInt8 × Scan) :=
  match copyAndAdvance s 1 with
  | .error abort => .error abort
  | .ok s' => if s'.fmt.length < fmtBuffLen then .ok (s.char, s') else .error .fmtBuffOverflow

/-- Scan the conversion specifier and construct a new format string. -/
def scanSpecifier (percentPtr : List UInt8) (args : List Arg) : Except Abort SlowSpecifier := do
  let s ← scanFlags { fmt := [code '%'], p := percentPtr.drop 1, args := args }
  let (minWidth, s) ← scanWidth s
  let (precision, s) ← scanPrecision s
  let (sizeModifier, s) ← scanModifier s
  let (op, s) ← scanOp s
  return { fmtBuff := s.fmt, sizeModifier := sizeModifier, op := op, rest := s.p
           minWidth := minWidth, precision := precision, args := s.args }

/-! ### The size of the buffer -/

/-- The conversions of numbers, of characters and of pointers. -/
def numberOps : List UInt8 := ['d', 'i', 'u', 'o', 'x', 'X', 'c', 'p'].map code

/-- The conversions that are left out. -/
def outsideOps : List UInt8 := ['e', 'E', 'g', 'G'].map code

/-- `charPtrArg`, for the argument of `s`. -/
def charPtrArg : Option CString → CString
  | some s => s
  | none => { bytes := ['(', 'n', 'u', 'l', 'l', ')'].map code, noNul := by decide }

/-- Bound the required buffer size; for `s` with the argument that has to be examined.
The argument of `ls` is not a `char *`. -/
def boundBuffer (spec : SlowSpecifier) : Except Abort (CInt × Option CString × List Arg) :=
  if spec.op ∈ numberOps then .ok (maxInt spec.precision 46, none, spec.args)
  else if spec.op = code 's' then
    match spec.args with
    | .string s :: args =>
        if spec.sizeModifier ≠ code ' ' then .error .outside
        else
          let strlen := (charPtrArg s).bytes.length
          let buffReqd := if spec.precision = -1 then strlen else min strlen spec.precision.toNat
          .ok (BitVec.ofNat 32 buffReqd, some (charPtrArg s), args)
    | _ => .error .outside
  else if spec.op = code 'f' ∨ spec.op ∈ outsideOps then .error .outside
  else .error .errorReturn

/-- Allocate the buffer: the length of the buffer in use and that of the auxiliary one,
which is 0 while there is none. -/
def allocate (auxBuffLen buffReqd : CInt) : CInt × CInt :=
  if buffReqd.toInt ≤ printfBuffLen.toInt then (printfBuffLen, auxBuffLen)
  else
    let auxBuffLen := if auxBuffLen.toInt < buffReqd.toInt then buffReqd else auxBuffLen
    (auxBuffLen, auxBuffLen)

/-! ### The conversions -/

/-- `d` and `i`. -/
def signedArg (sizeModifier : UInt8) (args : List Arg) : Except Abort (Value × List Arg) :=
  if sizeModifier = code ' ' then (vaInt args).map fun x => (.signed x.1.toInt, x.2)
  else if sizeModifier = code 'l' ∨ sizeModifier = code 'L' then
    (vaLong args).map fun x => (.signed x.1.toInt, x.2)
  else if sizeModifier = code 'h' then
    (vaInt args).map fun x => (.signed (x.1.setWidth 16).toInt, x.2)
  else .error .errorReturn

/-- `u`, `o`, `x` and `X`. -/
def unsignedArg (sizeModifier : UInt8) (args : List Arg) : Except Abort (Value × List Arg) :=
  if sizeModifier = code ' ' then (vaInt args).map fun x => (.unsigned x.1.toNat, x.2)
  else if sizeModifier = code 'l' ∨ sizeModifier = code 'L' then
    (vaLong args).map fun x => (.unsigned x.1.toNat, x.2)
  else if sizeModifier = code 'h' then
    (vaInt args).map fun x => (.unsigned (x.1.setWidth 16).toNat, x.2)
  else .error .errorReturn

/-- The argument of a conversion of `numberOps`. -/
def numberArg (op sizeModifier : UInt8) (args : List Arg) : Except Abort (Value × List Arg) :=
  if op = code 'd' ∨ op = code 'i' then signedArg sizeModifier args
  else if op = code 'c' then
    if sizeModifier = code ' ' then
      (vaInt args).map fun x => (.char (UInt8.ofNat x.1.toNat), x.2)
    else .error .errorReturn
  else if op = code 'p' then
    if sizeModifier = code ' ' then (vaPointer args).map fun x => (.pointer x.1.toNat, x.2)
    else .error .errorReturn
  else unsignedArg sizeModifier args

/-- What a conversion leaves at `buffPtr`. -/
structure Output where
  text : List UInt8
  buffCount : CInt
  buffLen : CInt
  args : List Arg

/-- `sprintf(buffPtr, fmtBuff, …); buffCount = strlen(buffPtr)`. -/
def sprintfBuff (buffLen : CInt) (fmtBuff : List UInt8) (v : Value) (args : List Arg) :
    Except Abort Output :=
  let text := sprintf fmtBuff v
  if (text.length : ℤ) + 1 ≤ buffLen.toInt then
    .ok { text := text, buffCount := BitVec.ofNat 32 (text.takeWhile (· ≠ 0)).length
          buffLen := buffLen, args := args }
  else .error .buffOverflow

/-- `s` on the fast path, which bypasses the buffer. -/
def directString : List Arg → Except Abort Output
  | .string (some s) :: args =>
      let buffCount := BitVec.ofNat 32 s.bytes.length
      (addInt buffCount 1).map fun buffLen =>
        { text := s.bytes, buffCount := buffCount, buffLen := buffLen, args := args }
  | _ => .error .outside

/-- The switch over `op`: `none` is `performedOp == FALSE`. On the slow path the argument
of `s` has been read. -/
def performOp (fastPath : Bool) (spec : Specifier) (charPtrArg : Option CString) (buffLen : CInt)
    (args : List Arg) : Except Abort (Option Output) :=
  if spec.op ∈ numberOps then
    match numberArg spec.op spec.sizeModifier args with
    | .error abort => .error abort
    | .ok (v, args) => (sprintfBuff buffLen spec.fmtBuff v args).map some
  else if spec.op = code 's' then
    if spec.sizeModifier ≠ code ' ' then .error .errorReturn
    else if fastPath then (directString args).map some
    else
      match charPtrArg with
      | none => .error .outside
      | some s => (sprintfBuff buffLen spec.fmtBuff (.string s.bytes) args).map some
  else if spec.op = code 'f' then if fastPath then .ok none else .error .outside
  else if spec.op = code 'n' ∨ spec.op ∈ outsideOps then .error .outside
  else if spec.op = code '%' then
    if spec.sizeModifier ≠ code ' ' then .error .errorReturn
    else .ok (some { text := [code '%'], buffCount := 1, buffLen := buffLen, args := args })
  else if spec.op = 0 then .error .errorReturn
  else .ok none

/-! ### The call -/

/-- What a conversion starts from: the format from its `%` on, the arguments that are left,
and the length of the auxiliary buffer. -/
structure Entry where
  percentPtr : List UInt8
  args : List Arg
  auxBuffLen : CInt

/-- A conversion that is done, and where the next one starts. -/
structure Converted where
  out : Output
  next : Entry

/-- Scan optimistically. -/
def fastSpecifier (percentPtr : List UInt8) : Specifier :=
  let char := fun i => percentPtr.getD i 0
  if char 1 = code 'l' ∧ char 2 = code 'l' then
    { fmtBuff := [code '%', code 'l', code 'l', char 3], sizeModifier := code 'L', op := char 3
      rest := percentPtr.drop 4 }
  else if char 1 = code 'l' ∨ char 1 = code 'L' ∨ char 1 = code 'h' then
    { fmtBuff := [code '%', char 1, char 2], sizeModifier := char 1, op := char 2
      rest := percentPtr.drop 3 }
  else
    { fmtBuff := [code '%', char 1], sizeModifier := code ' ', op := char 1
      rest := percentPtr.drop 2 }

/-- The slow path. -/
def slowPath (e : Entry) : Except Abort Converted := do
  let spec ← scanSpecifier e.percentPtr e.args
  let (bound, charPtrArg, args) ← boundBuffer spec
  let buffReqd ← addInt bound 10
  let (buffLen, auxBuffLen) := allocate e.auxBuffLen (maxInt buffReqd spec.minWidth)
  match ← performOp false spec.toSpecifier charPtrArg buffLen args with
  | none => .error .errorReturn
  | some out => return { out := out, next := ⟨spec.rest, out.args, auxBuffLen⟩ }

/-- The loop over the fast and the slow path, and the assertion behind it. -/
def conversion (e : Entry) : Except Abort Converted := do
  let spec := fastSpecifier e.percentPtr
  let r ← match ← performOp true spec none printfBuffLen e.args with
    | some out => .ok { out := out, next := ⟨spec.rest, out.args, e.auxBuffLen⟩ }
    | none => slowPath e
  if r.out.buffCount.toInt < r.out.buffLen.toInt then return r else .error .assertion

/-- The state of the loop over the format: `f` and the arguments, the stream, and the
conversions so far. -/
structure Printf where
  entry : Entry
  streamCount : ℤ
  chan : Chan
  conversions : List Entry

/-- How a call ends; `abort` is `none` at the end of the format. -/
structure PrintfEnd where
  abort : Option Abort
  streamCount : ℤ
  chan : Chan
  conversions : List Entry

/-- The end of a call: an error makes the result -1. -/
def Printf.leave (s : Printf) (abort : Option Abort) : PrintfEnd :=
  { abort := abort, streamCount := if abort = none then s.streamCount else -1, chan := s.chan
    conversions := s.conversions }

/-- `FCGX_PutStr` of the next characters. -/
def Printf.put (s : Printf) (text : List UInt8) : Option (Except PrintfEnd Printf) :=
  match fcgxPutStr text s.chan with
  | none => none
  | some (n, c) =>
      let s := { s with chan := c }
      if n < 0 then some (.error (s.leave (some .errorReturn)))
      else some (.ok { s with streamCount := s.streamCount + text.length })

/-- The characters before the next `%`. -/
def Printf.putText (s : Printf) : Option (Except PrintfEnd Printf) :=
  let text := s.entry.percentPtr.takeWhile (· ≠ code '%')
  if text = [] then some (.ok s)
  else
    let rest := s.entry.percentPtr.dropWhile (· ≠ code '%')
    (s.put text).map fun x => x.map fun s => { s with entry := { s.entry with percentPtr := rest } }

/-- The conversion specification at `%`. -/
def Printf.convert (s : Printf) : Option (Except PrintfEnd Printf) :=
  let s := { s with conversions := s.conversions ++ [s.entry] }
  match conversion s.entry with
  | .error abort => some (.error (s.leave (some abort)))
  | .ok r =>
      let s := { s with entry := r.next }
      if 0 < r.out.buffCount.toInt then s.put (r.out.text.take r.out.buffCount.toNat)
      else if r.out.buffCount.toInt < 0 then some (.error (s.leave (some .errorReturn)))
      else some (.ok s)

/-- One pass of `while (f != fStop)`. -/
def vfPrintFBody (s : Printf) : Option (Pass Printf PrintfEnd) :=
  if s.entry.percentPtr = [] then some (.done (s.leave none))
  else
    match s.putText with
    | none => none
    | some (.error e) => some (.done e)
    | some (.ok s) =>
        if s.entry.percentPtr = [] then some (.done (s.leave none))
        else
          match s.convert with
          | none => none
          | some (.error e) => some (.done e)
          | some (.ok s) => some (.again s)

/-- `FCGX_VFPrintF`. -/
def fcgxVFPrintF (format : CString) (args : List Arg) (c : Chan) : Option PrintfEnd :=
  run vfPrintFBody (format.bytes.length + 1)
    { entry := ⟨format.bytes, args, 0⟩, streamCount := 0, chan := c, conversions := [] }

end FastCgi
