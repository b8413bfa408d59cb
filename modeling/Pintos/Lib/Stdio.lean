import Pintos.Foundation.Records
import Pintos.Kernel.Machine

/-! Formatted output, and integers read back from text. -/

namespace Pintos.Lib

open Pintos.Foundation Function

def ascii (c : Char) : Byte := .ofNat 8 c.toNat

def bytesOf (s : String) : List Byte := s.toList.map ascii

def int32 (x : Int) : Int := x.bmod (2 ^ 32)

def isdigit (c : Byte) : Bool := 0x30 ≤ c.toNat ∧ c.toNat ≤ 0x39

def isspace (c : Byte) : Bool :=
  c = ascii ' ' ∨ c = 0x0c ∨ c = ascii '\n' ∨ c = ascii '\r' ∨ c = ascii '\t' ∨ c = 0x0b

abbrev CString := { s : List Byte // 0 ∉ s }

inductive PrintFault
  | formatEnd
  | argument
  | buffer
  | unfinished
  deriving DecidableEq

abbrev PrintM := Except PrintFault

/-- A pointer into a string: the bytes from there to its null byte, or a place beyond that. -/
inductive Cursor
  | within (text : List Byte)
  | past

def Cursor.read : Cursor → PrintM Byte
  | .within (c :: _) => return c
  | .within [] => return 0
  | .past => throw .formatEnd

def Cursor.next : Cursor → Cursor
  | .within (_ :: text) => .within text
  | _ => .past

def Cursor.length : Cursor → Nat
  | .within text => text.length
  | .past => 0

/-- Arguments of one and of two machine words, and pointers to strings. -/
inductive Arg
  | word (w : BitVec 32)
  | dword (d : BitVec 64)
  | string (s : Option (List Byte))
  deriving DecidableEq

def vaWord : List Arg → PrintM (BitVec 32 × List Arg)
  | .word w :: args => return (w, args)
  | _ => throw .argument

def vaDword : List Arg → PrintM (BitVec 64 × List Arg)
  | .dword d :: args => return (d, args)
  | _ => throw .argument

def vaString : List Arg → PrintM (Option (List Byte) × List Arg)
  | .string s :: args => return (s, args)
  | _ => throw .argument

inductive Flag
  | minus
  | plus
  | space
  | pound
  | zero
  | group
  deriving DecidableEq

inductive IntType
  | char
  | short
  | int
  | intmax
  | long
  | longlong
  | ptrdifft
  | sizet
  deriving DecidableEq

structure Conversion where
  flags : Flag → Bool
  width : Int
  precision : Int
  type : IntType

structure IntegerBase where
  base : Nat
  digits : List Byte
  x : Option Byte
  group : Nat

def baseD : IntegerBase where
  base := 10
  digits := bytesOf "0123456789"
  x := none
  group := 3

def baseO : IntegerBase where
  base := 8
  digits := bytesOf "01234567"
  x := none
  group := 3

def baseLowerX : IntegerBase where
  base := 16
  digits := bytesOf "0123456789abcdef"
  x := some (ascii 'x')
  group := 4

def baseUpperX : IntegerBase where
  base := 16
  digits := bytesOf "0123456789ABCDEF"
  x := some (ascii 'X')
  group := 4

section Parsing

def Flag.byte : Flag → Byte
  | .minus => ascii '-'
  | .plus => ascii '+'
  | .space => ascii ' '
  | .pound => ascii '#'
  | .zero => ascii '0'
  | .group => 0x27

def flagOf (c : Byte) : Option Flag :=
  [Flag.minus, .plus, .space, .pound, .zero, .group].find? fun f => f.byte = c

def flagLoop : Nat → Cursor → (Flag → Bool) → PrintM ((Flag → Bool) × Cursor)
  | 0, _, _ => throw .unfinished
  | fuel + 1, format, flags => do
    match flagOf (← format.read) with
    | some f => flagLoop fuel format.next (update flags f true)
    | none => return (flags, format)

def parseFlags (format : Cursor) : PrintM ((Flag → Bool) × Cursor) := do
  let (flags, format) ← flagLoop (format.length + 1) format fun _ => false
  let flags := if flags .minus then update flags .zero false else flags
  let flags := if flags .plus then update flags .space false else flags
  return (flags, format)

def digitLoop : Nat → Cursor → Int → PrintM (Int × Cursor)
  | 0, _, _ => throw .unfinished
  | fuel + 1, format, n => do
    let c ← format.read
    if isdigit c then digitLoop fuel format.next (int32 (n * 10 + c.toNat - 0x30))
    else return (n, format)

def parseNumber (format : Cursor) (args : List Arg) : PrintM (Int × Cursor × List Arg) := do
  if (← format.read) = ascii '*' then
    let (w, args) ← vaWord args
    return (w.toInt, format.next, args)
  else
    let (n, format) ← digitLoop (format.length + 1) format 0
    return (n, format, args)

def parsePrecision (format : Cursor) (args : List Arg) : PrintM (Int × Cursor × List Arg) := do
  if (← format.read) = ascii '.' then
    let (precision, format, args) ← parseNumber format.next args
    return (if precision < 0 then -1 else precision, format, args)
  else return (-1, format, args)

def parseType (format : Cursor) : PrintM (IntType × Cursor) := do
  let c ← format.read
  if c = ascii 'h' then
    if (← format.next.read) = ascii 'h' then return (.char, format.next.next) else return (.short, format.next)
  else if c = ascii 'j' then return (.intmax, format.next)
  else if c = ascii 'l' then
    if (← format.next.read) = ascii 'l' then return (.longlong, format.next.next) else return (.long, format.next)
  else if c = ascii 't' then return (.ptrdifft, format.next)
  else if c = ascii 'z' then return (.sizet, format.next)
  else return (.int, format)

def parseConversion (format : Cursor) (args : List Arg) : PrintM (Conversion × Cursor × List Arg) := do
  let (flags, format) ← parseFlags format
  let (width, format, args) ← parseNumber format args
  let flags := if width < 0 then update flags .minus true else flags
  let width := if width < 0 then int32 (-width) else width
  let (precision, format, args) ← parsePrecision format args
  let flags := if 0 ≤ precision then update flags .zero false else flags
  let (type, format) ← parseType format
  return ({ flags, width, precision, type }, format, args)

end Parsing

section Formatting

def signOf (c : Conversion) (isSigned negative : Bool) : Option Byte :=
  if isSigned then
    if c.flags .plus then some (if negative then ascii '-' else ascii '+')
    else if c.flags .space then some (if negative then ascii '-' else ascii ' ')
    else if negative then some (ascii '-')
    else none
  else none

def xOf (b : IntegerBase) (c : Conversion) (value : Nat) : Option Byte :=
  if c.flags .pound && value ≠ 0 then b.x else none

def bufSize : Nat := 64

/-- The buffer holds the byte before `cp` first. -/
def push (buf : List Byte) (c : Byte) : PrintM (List Byte) :=
  if buf.length < bufSize then return c :: buf else throw .buffer

def pushComma (b : IntegerBase) (c : Conversion) (digitCnt : Nat) (buf : List Byte) : PrintM (List Byte) :=
  if c.flags .group && 0 < digitCnt && digitCnt % b.group = 0 then push buf (ascii ',') else return buf

def accumulate (b : IntegerBase) (c : Conversion) : Nat → Nat → Nat → List Byte → PrintM (List Byte)
  | _, 0, _, buf => return buf
  | 0, _, _, _ => throw .unfinished
  | fuel + 1, value, digitCnt, buf => do
    let buf ← pushComma b c digitCnt buf
    let buf ← push buf (b.digits.getD (value % b.base) 0)
    accumulate b c fuel (value / b.base) (digitCnt + 1) buf

def zeroLoop : Nat → Int → List Byte → PrintM (List Byte)
  | 0, _, _ => throw .unfinished
  | fuel + 1, precision, buf =>
    if buf.length < precision ∧ buf.length < bufSize - 1 then do zeroLoop fuel precision (← push buf (ascii '0'))
    else return buf

def pushOctalZero (b : IntegerBase) (c : Conversion) (buf : List Byte) : PrintM (List Byte) :=
  if c.flags .pound ∧ b.base = 8 ∧ buf.head? ≠ some (ascii '0') then push buf (ascii '0') else return buf

def integerDigits (value : Nat) (b : IntegerBase) (c : Conversion) : PrintM (List Byte) := do
  let buf ← accumulate b c bufSize value 0 []
  let buf ← zeroLoop bufSize (if c.precision < 0 then 1 else c.precision) buf
  pushOctalZero b c buf

def padCnt (c : Conversion) (digits : List Byte) (x sign : Option Byte) : Nat :=
  (int32 (c.width - digits.length - (if x.isSome then 2 else 0) - (if sign.isSome then 1 else 0))).toNat

def outputDup (ch : Byte) (cnt : Nat) : List Byte := List.replicate cnt ch

def formatInteger (value : Nat) (isSigned negative : Bool) (b : IntegerBase) (c : Conversion) :
    PrintM (List Byte) := do
  let sign := signOf c isSigned negative
  let x := xOf b c value
  let digits ← integerDigits value b c
  let cnt := padCnt c digits x sign
  return (if !c.flags .minus && !c.flags .zero then outputDup (ascii ' ') cnt else []) ++ sign.toList ++
    (x.elim [] fun x => [ascii '0', x]) ++ (if c.flags .zero then outputDup (ascii '0') cnt else []) ++ digits ++
    (if c.flags .minus then outputDup (ascii ' ') cnt else [])

def formatString (string : List Byte) (length : Int) (c : Conversion) : List Byte :=
  (if length < c.width ∧ c.flags .minus = false then outputDup (ascii ' ') (c.width - length).toNat else []) ++
    string.take length.toNat ++
    (if length < c.width ∧ c.flags .minus = true then outputDup (ascii ' ') (c.width - length).toNat else [])

def strnlen (string : List Byte) (maxlen : Nat) : Nat := min (cstring string).length maxlen

def signedArg (type : IntType) (args : List Arg) : PrintM (BitVec 64 × List Arg) :=
  match type with
  | .intmax | .longlong => vaDword args
  | .char => do let (w, args) ← vaWord args; return ((w.setWidth 8).signExtend 64, args)
  | .short => do let (w, args) ← vaWord args; return ((w.setWidth 16).signExtend 64, args)
  | .int | .long | .ptrdifft => do let (w, args) ← vaWord args; return (w.signExtend 64, args)
  | .sizet => do
    let (w, args) ← vaWord args
    let value := w.setWidth 64
    return (if 0xffffffff / 2 < value.toNat then value - 0xffffffff#64 - 1#64 else value, args)

def unsignedArg (type : IntType) (args : List Arg) : PrintM (BitVec 64 × List Arg) :=
  match type with
  | .intmax | .longlong => vaDword args
  | .char => do let (w, args) ← vaWord args; return ((w.setWidth 8).setWidth 64, args)
  | .short => do let (w, args) ← vaWord args; return ((w.setWidth 16).setWidth 64, args)
  | .int | .long | .sizet => do let (w, args) ← vaWord args; return (w.setWidth 64, args)
  | .ptrdifft => do let (w, args) ← vaWord args; return (w.signExtend 64 &&& 0xffffffff#64, args)

/-- `nested` stands for the calls of `__printf`. -/
def convert (nested : List Byte → List Arg → PrintM (List Byte)) (c : Conversion) (conv : Byte) (args : List Arg) :
    PrintM (List Byte × List Arg) := do
  if conv = ascii 'd' ∨ conv = ascii 'i' then
    let (value, args) ← signedArg c.type args
    let negative := value.slt 0#64
    return (← formatInteger (if negative then -value else value).toNat true negative baseD c, args)
  else if conv = ascii 'o' then
    let (value, args) ← unsignedArg c.type args
    return (← formatInteger value.toNat false false baseO c, args)
  else if conv = ascii 'u' then
    let (value, args) ← unsignedArg c.type args
    return (← formatInteger value.toNat false false baseD c, args)
  else if conv = ascii 'x' then
    let (value, args) ← unsignedArg c.type args
    return (← formatInteger value.toNat false false baseLowerX c, args)
  else if conv = ascii 'X' then
    let (value, args) ← unsignedArg c.type args
    return (← formatInteger value.toNat false false baseUpperX c, args)
  else if conv = ascii 'c' then
    let (w, args) ← vaWord args
    return (formatString [w.setWidth 8] 1 c, args)
  else if conv = ascii 's' then
    let (s, args) ← vaString args
    let s := s.getD (bytesOf "(null)")
    return (formatString s (int32 (strnlen s (c.precision % 2 ^ 32).toNat)) c, args)
  else if conv = ascii 'p' then
    let (w, args) ← vaWord args
    return (← formatInteger w.toNat false false baseLowerX { c with flags := fun f => f = .pound }, args)
  else if conv ∈ bytesOf "feEgGn" then
    return (← nested (bytesOf "<<no %%%c in kernel>>") [.word (conv.signExtend 32)], args)
  else return (← nested (bytesOf "<<no %%%c conversion>>") [.word (conv.signExtend 32)], args)

end Formatting

def vprintfLoop : Nat → Cursor → List Arg → PrintM (List Byte)
  | 0, _, _ => throw .unfinished
  | fuel + 1, format, args => do
    let c ← format.read
    if c = 0 then return []
    else if c ≠ ascii '%' then return c :: (← vprintfLoop fuel format.next args)
    else
      let format := format.next
      if (← format.read) = ascii '%' then return ascii '%' :: (← vprintfLoop fuel format.next args)
      else
        let (c, format, args) ← parseConversion format args
        let (out, args) ← convert (fun text args => vprintfLoop fuel (.within text) args) c (← format.read) args
        return out ++ (← vprintfLoop fuel format.next args)

/-- The fuel is enough for the format and for the calls of `__printf` in it. -/
def vprintf (format : CString) (args : List Arg) : PrintM (List Byte) :=
  vprintfLoop (format.val.length + 33) (.within format.val) args

structure VsnprintfAux where
  buffer : List Byte
  p : Nat
  length : Int
  maxLength : Int

def VsnprintfAux.store (aux : VsnprintfAux) (c : Byte) : PrintM VsnprintfAux :=
  if aux.p < aux.buffer.length then return { aux with buffer := overlay aux.buffer aux.p [c] } else throw .buffer

def vsnprintfHelper (aux : VsnprintfAux) (c : Byte) : PrintM VsnprintfAux := do
  if aux.length < aux.maxLength then
    let stored ← aux.store c
    return { stored with p := aux.p + 1, length := int32 (aux.length + 1) }
  else return { aux with length := int32 (aux.length + 1) }

def vsnprintf (buffer : List Byte) (bufSize : Nat) (format : CString) (args : List Arg) :
    PrintM (Int × List Byte) := do
  let out ← vprintf format args
  let maxLength := if 0 < bufSize then int32 (bufSize - 1) else 0
  let aux ← out.foldlM vsnprintfHelper { buffer, p := 0, length := 0, maxLength }
  if 0 < bufSize then return (aux.length, (← aux.store 0).buffer) else return (aux.length, aux.buffer)

def snprintf (buffer : List Byte) (bufSize : Nat) (format : CString) (args : List Arg) : PrintM (Int × List Byte) :=
  vsnprintf buffer bufSize format args

section Atoi

def atoiSign : List Byte → Bool × List Byte
  | [] => (false, [])
  | c :: s => if c = ascii '+' then (false, s) else if c = ascii '-' then (true, s) else (false, c :: s)

def atoi (s : List Byte) : Int :=
  let (negative, s) := atoiSign (s.dropWhile isspace)
  let value := (s.takeWhile isdigit).foldl (fun value c => int32 (value * 10 - (c.toNat - 0x30))) 0
  if negative then value else int32 (-value)

end Atoi

end Pintos.Lib
