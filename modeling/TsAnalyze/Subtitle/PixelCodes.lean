import TsAnalyze.Descriptors.Members
import TsAnalyze.Shared.Reading

set_option autoImplicit false

namespace TsAnalyze.Subtitle

open Memory Tables Descriptors

/-- blen and off; pdata stands at pbuf + blen all the time. -/
structure Place where
  blen : Nat := 0
  off : Nat := 0

/-- What the readers write to: the output buffer up to *dec_len, and the static encode of each,
as far as its encode_len. -/
structure PixelOutput where
  data : List UInt8 := []
  encode4 : List UInt8 := []
  encode8 : List UInt8 := []

section Bits

-- CHECK_OFFSET(v)
def Place.check (place : Place) (v : Nat) : Place :=
  if 8 ≤ place.off + v then ⟨place.blen + 1, (place.off + v) % 8⟩
  else ⟨place.blen, place.off + v⟩

-- the bits at pdata, and CHECK_OFFSET of as many
def take (type : IntType) (pbuf : Block) (bitlen : Nat) (place : Place) : Option (Nat × Place) := do
  let bits ← readBitField type pbuf place.blen bitlen place.off
  return (bits, place.check bitlen)

-- the bits of the first byte, wherever pdata stands
def takeFirst (pbuf : Block) (bitlen : Nat) (place : Place) : Option (Nat × Place) := do
  let bits ← readBitField .uint8 pbuf 0 bitlen place.off
  return (bits, place.check bitlen)

-- byte alignment
def Place.aligned (place : Place) : Nat :=
  if place.off ≠ 0 then place.blen + 1 else place.blen

end Bits

-- the buffered pixels: in absolute mode, or one by one
def flush (encode : List UInt8) : List UInt8 :=
  if 2 < encode.length then
    [0, UInt8.ofNat encode.length] ++ encode ++
      List.replicate ((4 - encode.length % 4) % 4) 0
  else encode.flatMap fun pixel => [1, pixel]

section TwoBits

/-- The variables of the loop. -/
structure TwoBitLoop where
  place : Place := {}
  code : List UInt8 := []
  ended : Bool := false

def TwoBitLoop.write (state : TwoBitLoop) (count value : Nat) (place : Place) : TwoBitLoop :=
  { state with place := place, code := state.code ++ List.replicate count (UInt8.ofNat value) }

def read2bitTurn (pbuf : Block) (state : TwoBitLoop) : Option TwoBitLoop := do
  let (nextBits, place) ← takeFirst pbuf 2 state.place
  if nextBits ≠ 0 then return state.write 1 nextBits place
  else
    let (switch1, place) ← take .uint8 pbuf 1 place
    if switch1 = 1 then
      let (nextBits, place) ← takeFirst pbuf 3 place
      let value ← readBitField .uint8 pbuf place.blen 2 place.off
      return state.write (nextBits + 3) value (place.check 3)
    else
      let (switch2, place) ← take .uint8 pbuf 1 place
      if switch2 = 0 then
        let (switch3, place) ← take .uint8 pbuf 2 place
        if switch3 = 2 then
          let (nextBits, place) ← takeFirst pbuf 4 place
          let (value, place) ← take .uint8 pbuf 2 place
          return state.write (nextBits + 12) value place
        else if switch3 = 3 then
          -- assert(off == 0)
          if place.off = 0 then
            let nextBits ← read8 pbuf place.blen
            let (value, place) ← take .uint8 pbuf 2 ⟨place.blen + 1, place.off⟩
            return state.write (nextBits.toNat + 29) value place
          else none
        else return { state with place := place }
      else return { state with place := place }

-- as far as so many turns lead
def read2bitLoop (pbuf : Block) : Nat → TwoBitLoop → Option TwoBitLoop
  | 0, state => if state.ended then some state else none
  | turns + 1, state =>
      if state.ended then some state
      else do
        let state ← read2bitTurn pbuf state
        read2bitLoop pbuf turns state

-- the output is written from data on, not from data + *dec_len
def read2bitPixelCodeString (turns : Nat) (pbuf : Block) (out : PixelOutput) :
    Option (Nat × PixelOutput) := do
  let state ← read2bitLoop pbuf turns {}
  return (state.place.aligned, { out with data := state.code })

end TwoBits

section FourBits

-- a run's length and its pixel, from these many bits; the length is a byte when it is written
def takeRun (pbuf : Block) (bitlen least : Nat) (place : Place) :
    Option (Option (List UInt8) × Place) := do
  let (nextBits, place) ← take .uint16 pbuf bitlen place
  let (value, place) ← take .uint16 pbuf 4 place
  return (some [UInt8.ofNat (nextBits + least), UInt8.ofNat value], place)

-- eight bits are a byte, so that pdata moves on without CHECK_OFFSET
def takeLongRun (pbuf : Block) (place : Place) : Option (Option (List UInt8) × Place) := do
  let nextBits ← readBitField .uint16 pbuf place.blen 8 place.off
  let (value, place) ← take .uint16 pbuf 4 ⟨place.blen + 1, place.off⟩
  return (some [UInt8.ofNat (nextBits + 25), UInt8.ofNat value], place)

-- behind four zero bits: what is written, or nothing at the end of the string
def read4bitZero (pbuf : Block) (place : Place) : Option (Option (List UInt8) × Place) := do
  let (switch1, place) ← take .uint8 pbuf 1 place
  if switch1 = 0 then
    let (nextBits, place) ← take .uint16 pbuf 3 place
    if nextBits ≠ 0 then return (some [UInt8.ofNat (nextBits + 2), 0], place)
    else return (none, place)
  else
    let (switch2, place) ← take .uint8 pbuf 1 place
    if switch2 = 0 then takeRun pbuf 2 4 place
    else
      let (switch3, place) ← take .uint16 pbuf 2 place
      if switch3 = 2 then takeRun pbuf 4 9 place
      else if switch3 = 3 then takeLongRun pbuf place
      else if switch3 = 0 then return (some [1, 0], place)
      else return (some [2, 0], place)

-- Every turn reads four bits at least. A pixel is buffered, and written as it is besides;
-- there is no room for more than 256 of them.
def read4bitLoop (pbuf : Block) :
    Nat → Place → List UInt8 → List UInt8 → Option (Place × List UInt8 × List UInt8)
  | 0, _, _, _ => none
  | turns + 1, place, encode, code => do
      let (nextBits, place) ← take .uint16 pbuf 4 place
      if nextBits ≠ 0 then
        if encode.length < 256 then
          read4bitLoop pbuf turns place (encode ++ [UInt8.ofNat nextBits])
            (code ++ [UInt8.ofNat nextBits])
        else none
      else
        let (written, place) ← read4bitZero pbuf place
        match written with
        | some run => read4bitLoop pbuf turns place [] (code ++ flush encode ++ run)
        | none => return (place, [], code ++ flush encode)

def read4bitPixelCodeString (pbuf : Block) (out : PixelOutput) : Option (Nat × PixelOutput) := do
  let (place, encode, code) ← read4bitLoop pbuf (2 * pbuf.length) {} out.encode4 []
  return (place.aligned, { out with data := out.data ++ code, encode4 := encode })

end FourBits

section EightBits

-- Behind a zero byte. A run of more than two zero pixels is stored over and the pointer moved by one
-- byte only; for a shorter one the loop goes over encode_len, which is 0 here.
def read8bitZero (pbuf : Block) (blen : Nat) : Option (Option (List UInt8) × Nat) := do
  let switch1 ← readBitField .uint8 pbuf blen 1 0
  let nextBits ← readBitField .uint8 pbuf blen 7 1
  if switch1 = 0 then
    if nextBits ≠ 0 then return (some (if 2 < nextBits then [0] else []), blen + 1)
    else return (none, blen + 1)
  else
    let value ← read8 pbuf (blen + 1)
    return (some [UInt8.ofNat nextBits, value], blen + 2)

def read8bitLoop (pbuf : Block) :
    Nat → Nat → List UInt8 → List UInt8 → Option (Nat × List UInt8 × List UInt8)
  | 0, _, _, _ => none
  | turns + 1, blen, encode, code => do
      let nextBits ← read8 pbuf blen
      if nextBits ≠ 0 then
        if encode.length < 256 then
          read8bitLoop pbuf turns (blen + 1) (encode ++ [nextBits]) code
        else none
      else
        let (written, blen) ← read8bitZero pbuf (blen + 1)
        match written with
        | some run => read8bitLoop pbuf turns blen [] (code ++ flush encode ++ run)
        | none => return (blen, [], code ++ flush encode)

-- the output is written from data on
def read8bitPixelCodeString (pbuf : Block) (out : PixelOutput) : Option (Nat × PixelOutput) := do
  let (blen, encode, code) ← read8bitLoop pbuf pbuf.length 0 out.encode8 []
  return (blen, { out with data := code, encode8 := encode })

end EightBits

section SubBlock

-- a table of as many bytes, which nothing uses afterwards
def readMapTable (size : Nat) (pdata : Block) (out : PixelOutput) :
    Allocating (Nat × PixelOutput) := do
  if ← reserve then
    let _ ← readBytes pdata 0 size
    pure (1 + size, out)
  else pure (enomem.toNat, out)

def readPixelDataSubBlock (turns : Nat) (pbuf : Block) (out : PixelOutput) :
    Allocating (Nat × PixelOutput) := do
  let dataType ← read8 pbuf 0
  let pdata := pbuf.drop 1
  if dataType = 0x10 then
    let (blen, out) ← read2bitPixelCodeString turns pdata out
    pure (1 + blen, out)
  else if dataType = 0x11 then
    let (blen, out) ← read4bitPixelCodeString pdata out
    pure (1 + blen, out)
  else if dataType = 0x12 then
    let (blen, out) ← read8bitPixelCodeString pdata out
    pure (1 + blen, out)
  else if dataType = 0x20 then readMapTable 2 pdata out
  else if dataType = 0x21 then readMapTable 4 pdata out
  else if dataType = 0x22 then readMapTable 16 pdata out
  else if dataType = 0xF0 then pure (1, { out with data := out.data ++ [0, 0] })
  else pure (1, out)

-- The sub-blocks of a field, each of a byte at least, written to an output of four times its
-- length; what is returned are top_len and i, or bottom_len and i.
def readFieldLoop (turns : Nat) (pdata : Block) (length : Nat) :
    Nat → Nat → Nat → PixelOutput → Allocating (Nat × Nat × PixelOutput)
  | 0, len, i, out => if len < length then failure else pure (len, i, out)
  | blocks + 1, len, i, out =>
      if len < length then do
        let (slen, out) ← readPixelDataSubBlock turns (pdata.drop len) out
        if out.data.length ≤ 4 * length then
          readFieldLoop turns pdata length blocks (len + slen) (i + 1) out
        else failure
      else pure (len, i, out)

-- the output begins empty
def readField (turns : Nat) (pdata : Block) (length : Nat) (out : PixelOutput) :
    Allocating (Nat × Nat × PixelOutput) :=
  readFieldLoop turns pdata length length 0 0 { out with data := [] }

end SubBlock

end TsAnalyze.Subtitle
