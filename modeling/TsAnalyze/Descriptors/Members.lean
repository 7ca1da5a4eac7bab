import TsAnalyze.Descriptors.Callbacks
import TsAnalyze.Shared.Bits

set_option autoImplicit false

namespace TsAnalyze.Descriptors

open Memory Tables

inductive IntType
  | uint8
  | uint16
  | uint32
  | uint64
deriving DecidableEq

def IntType.size : IntType → Nat
  | .uint8 => 1
  | .uint16 => 2
  | .uint32 => 4
  | .uint64 => 8

-- TS_READ8, TS_READ16, TS_READ32 and TS_READ64
def IntType.read (type : IntType) (buf : Block) (offset : Nat) : Option Nat :=
  match type with
  | .uint8 => (read8 buf offset).map UInt8.toNat
  | .uint16 => read16 buf offset
  | .uint32 => read32 buf offset
  | .uint64 => read64 buf offset

-- a type that is copied as it stands: its fields and their bits in the order of its memory
abbrev CType := List (String × Nat)

def CType.size (type : CType) : Nat :=
  (type.map Prod.snd).sum / 8

-- a cell that nothing has been written to counts as 0
def cellBytes (cells : Block) : List UInt8 :=
  cells.map fun cell => cell.getD 0

-- The whole type is fetched. Bytes behind the field are masked away, whatever they hold; a field
-- that the type does not hold is shifted by a negative number.
def readBitField (type : IntType) (buf : Block) (offset bitlen off : Nat) : Option Nat :=
  let cells := (buf.drop offset).take type.size
  if cells.length = type.size ∧ off + bitlen ≤ 8 * type.size ∧
      (cells.take ((off + bitlen + 7) / 8)).all Option.isSome then
    some (readBits (8 * type.size) (Bits.bigEndian (cellBytes cells)) bitlen off)
  else none

inductive Value
  | scalar (value : Nat)
  | object (bytes : List UInt8)
  | elements (list : List (List UInt8))
  | records (list : List Record)

-- one line of a foreach_..._member list; __mplast_custom parses like __mplast
inductive Member
  | m (type : IntType) (name : String) (bits : Nat)
  | m1 (type : IntType) (name : String)
  | m1Uint24 (name : String)
  | mplast (type : CType) (name : String)
  | mplastCustomSub (callback : Callback) (name : String)
  | mif (type : CType) (name cond : String) (val : Nat)
  | mifCustom (callback : Callback) (name cond : String) (val : Nat)
  | mrangelvCustom (callback : Callback) (name cond : String) (floor ceiling : Nat)
  | mlv (type : CType) (length name : String) (divisor : Nat := 1)
  | mploop (name : String)
  | mploopCustom (callback : Callback) (name : String)

-- the descriptor from its tag on, the length that the caller says and the one in buf[1]
structure Input where
  buf : Block
  len : Nat
  length : Nat

structure Parsing where
  bitsOff : Nat := 0
  bytesOff : Nat := 2
  values : List (String × Value) := []

namespace Parsing

def set (p : Parsing) (name : String) (value : Value) : Parsing :=
  { p with values := p.values ++ [(name, value)] }

def skip (p : Parsing) (bytes : Nat) : Parsing :=
  { p with bytesOff := p.bytesOff + bytes }

-- whole bytes of bits_off are counted in bytes_off
def skipBits (p : Parsing) (bits : Nat) : Parsing :=
  { p with
    bitsOff := (p.bitsOff + bits) % 8
    bytesOff := p.bytesOff + (p.bitsOff + bits) / 8 }

-- a member of the calloc'ed structure that has not been read is 0
def scalar (p : Parsing) (name : String) : Nat :=
  match p.values.find? fun entry => entry.1 = name with
  | some (_, .scalar value) => value
  | some (_, .object [byte]) => byte.toNat
  | _ => 0

end Parsing

def readElement (type : CType) (ptr : Block) : Option (List UInt8 × Nat) :=
  (readBytes ptr 0 type.size).map fun bytes => (bytes, type.size)

-- __mploop: the length is the second byte of every type it is used with
def readLoopElement (ptr : Block) : Option (List UInt8 × Nat) := do
  let first ← read8 ptr 0
  let length ← read8 ptr 1
  let bytes ← readBytes ptr 2 length.toNat
  return (first :: length :: bytes, 2 + length.toNat)

section Loops

variable (input : Input) (p : Parsing) (name : String)

-- A loop that has run past the end only stops where the memory does.
def plastLoop {A : Type} (read : Block → Option (A × Nat)) (value : List A → Value) :
    Option Parsing :=
  (readWhile read (fun off => decide (off ≠ input.length + 2)) input.buf (input.buf.length + 1)
    p.bytesOff []).map fun (list, off) => { p.set name (value list) with bytesOff := off }

-- The count is a uint8_t: the 256th element makes it 0, and realloc frees the array.
def ploopLoop {A : Type} (read : Block → Option (A × Nat)) (more : Nat → Bool)
    (value : List A → Value) : Option Parsing :=
  (readWhile read more input.buf 255 p.bytesOff []).map fun (list, off) =>
    { p.set name (value list) with bytesOff := off }

def callbackOnce (callback : Callback) : Option Parsing :=
  (callback.parse (input.buf.drop p.bytesOff)).map fun (record, size) =>
    (p.set name (.records [record])).skip size

end Loops

/-- What a member's line of a parse function does. -/
def Member.parse (input : Input) (p : Parsing) : Member → Option Parsing
  | .m type name bits =>
      (readBitField type input.buf p.bytesOff bits p.bitsOff).map fun value =>
        (p.set name (.scalar value)).skipBits bits
  | .m1 type name =>
      if p.bytesOff < input.len then
        (type.read input.buf p.bytesOff).map fun value =>
          (p.set name (.scalar value)).skip type.size
      else some p
  | .m1Uint24 name =>
      if p.bytesOff < input.len then
        (readBytes input.buf p.bytesOff 3).map fun bytes => (p.set name (.object bytes)).skip 3
      else some p
  | .mplast type name => plastLoop input p name (readElement type) .elements
  | .mplastCustomSub callback name => plastLoop input p name callback.parse .records
  | .mif type name cond val =>
      if p.scalar cond = val then
        (readBytes input.buf p.bytesOff type.size).map fun bytes =>
          (p.set name (.object bytes)).skip type.size
      else some p
  | .mifCustom callback name cond val =>
      if p.scalar cond = val then callbackOnce input p name callback else some p
  | .mrangelvCustom callback name cond floor ceiling =>
      if floor ≤ p.scalar cond ∧ p.scalar cond ≤ ceiling then callbackOnce input p name callback
      else some p
  | .mlv type length name divisor =>
      (readTimes (readElement type) (p.scalar length / divisor) (input.buf.drop p.bytesOff)).map
        fun (list, size) => (p.set name (.elements list)).skip size
  | .mploop name =>
      ploopLoop input p name readLoopElement (fun off => decide (off ≠ input.len)) .elements
  | .mploopCustom callback name =>
      ploopLoop input p name callback.parse (fun off => decide (off < input.len)) .records

def parseMembers (input : Input) : List Member → Parsing → Option Parsing
  | [], p => some p
  | member :: rest, p => (member.parse input p).bind (parseMembers input rest)

end TsAnalyze.Descriptors
