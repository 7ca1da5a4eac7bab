import Mathlib

set_option autoImplicit false

namespace TsAnalyze.Teletext

def popcount (value : UInt8) : Nat :=
  (List.range 8).countP fun i => value.toNat.testBit i

def oddParity8Test (value : UInt8) : Bool :=
  popcount value % 2 = 1

-- REVERSE_BIT clears the bit
def reverseBit (x : UInt8) (v : UInt8) : UInt8 :=
  ~~~(1 <<< v) &&& x

def bits4Lookup (nibble : UInt8) : UInt8 :=
  ([0x0, 0x8, 0x4, 0xc, 0x2, 0xa, 0x6, 0xe, 0x1, 0x9, 0x5, 0xd, 0x3, 0xb, 0x7, 0xf] :
    List UInt8).getD nibble.toNat 0

def reverseByte (n : UInt8) : UInt8 :=
  (bits4Lookup (n &&& 0xf) <<< 4) ||| bits4Lookup (n >>> 4)

-- HAMMING8_DATA, which is also given the -1 of a rejected byte
def hamming8Data (x : Int) : Nat :=
  let low := (x % 256).toNat &&& 0x55
  (low >>> 6) &&& 0x1 ||| (low >>> 3) &&& 0x2 ||| low &&& 0x4 ||| (low <<< 3) &&& 0x8

def decodeHamming8Code (code : UInt8) : Int :=
  let A := oddParity8Test (code &&& 0xC5)
  let B := oddParity8Test (code &&& 0x71)
  let C := oddParity8Test (code &&& 0x5C)
  let D := oddParity8Test (code &&& 0xFF)
  if A && B && C then
    if D then code.toNat
    -- an error in P4
    else (reverseBit code 1).toNat
  else if D then -1
  else if A && B && !C then (reverseBit code 3).toNat
  else if A && C && !B then (reverseBit code 5).toNat
  else if !A && B && C then (reverseBit code 7).toNat
  else if !A && !B && C then (reverseBit code 0).toNat
  else if !A && !C && B then (reverseBit code 2).toNat
  else if A && !B && !C then (reverseBit code 4).toNat
  else (reverseBit code 6).toNat

-- The return value and what it leaves in `*X`: nothing, for a magazine that is rejected.
def decodeHammingAddress (addr : Nat) : Int × Option Nat :=
  let magazine := UInt8.ofNat (addr >>> 8)
  let packet := UInt8.ofNat addr
  let ret := decodeHamming8Code magazine
  if ret < 0 then (-1, none)
  else
    (((hamming8Data ret >>> 3) &&& 0x1 ||| hamming8Data (decodeHamming8Code packet) <<< 1 : Nat),
      some (hamming8Data ret &&& 0x7))

def decodeOddParity (data : UInt8) : Int :=
  if oddParity8Test data then (reverseByte data &&& 0x7F).toNat else -1

/-- A nibble with its protection bits, the first bit transmitted on top. -/
def hammingCode (nibble : Fin 16) : UInt8 :=
  let bit (i : Nat) : Bool := nibble.val.testBit i
  let P1 := !(bit 0 ^^ bit 2 ^^ bit 3)
  let P2 := !(bit 0 ^^ bit 1 ^^ bit 3)
  let P3 := !(bit 0 ^^ bit 1 ^^ bit 2)
  let P4 := !(P1 ^^ bit 0 ^^ P2 ^^ bit 1 ^^ P3 ^^ bit 2 ^^ bit 3)
  UInt8.ofNat (128 * P1.toNat + 64 * (bit 0).toNat + 32 * P2.toNat + 16 * (bit 1).toNat +
    8 * P3.toNat + 4 * (bit 2).toNat + 2 * P4.toNat + (bit 3).toNat)

theorem hamming_decoded (nibble : Fin 16) :
    decodeHamming8Code (hammingCode nibble) = (hammingCode nibble).toNat ∧
      hamming8Data (hammingCode nibble).toNat = nibble := by
  revert nibble
  decide +kernel

/-- A bit of a byte is sent as its opposite. -/
def flipped (code : UInt8) (flip : Option (Fin 8)) : UInt8 :=
  match flip with
  | none => code
  | some bit => code ^^^ (1 <<< UInt8.ofNat bit)

-- A protection bit, or a data bit that was not set.
def Harmless (code : UInt8) (flip : Option (Fin 8)) : Prop :=
  ∀ bit ∈ flip, bit.val % 2 = 1 ∨ code.toNat.testBit bit = false

instance (code : UInt8) (flip : Option (Fin 8)) : Decidable (Harmless code flip) :=
  match flip with
  | none => isTrue (by simp [Harmless])
  | some bit => decidable_of_iff (bit.val % 2 = 1 ∨ code.toNat.testBit bit = false)
      (by simp [Harmless])

/-- No single error is rejected, and the data bits are never more than they were: the correction
clears the bit that it has found. -/
theorem flipped_decoded (nibble : Fin 16) (flip : Option (Fin 8)) :
    0 ≤ decodeHamming8Code (flipped (hammingCode nibble) flip) ∧
      hamming8Data (decodeHamming8Code (flipped (hammingCode nibble) flip)) ≤ nibble ∧
      (hamming8Data (decodeHamming8Code (flipped (hammingCode nibble) flip)) = nibble ↔
        Harmless (hammingCode nibble) flip) := by
  revert nibble flip
  decide +kernel

end TsAnalyze.Teletext
