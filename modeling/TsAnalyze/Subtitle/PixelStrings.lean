import TsAnalyze.Descriptors.BitFields
import TsAnalyze.Subtitle.PixelCodes

set_option autoImplicit false

namespace TsAnalyze.Subtitle

open Memory Tables Descriptors

section Positions

-- the place of the bit at this position
def Place.ofBit (position : Nat) : Place :=
  ⟨position / 8, position % 8⟩

theorem check_ofBit (position v : Nat) (few : v ≤ 8) :
    (Place.ofBit position).check v = Place.ofBit (position + v) := by
  rw [Place.check, Place.ofBit, Place.ofBit]
  dsimp only
  split
  · rw [Place.mk.injEq]
    omega
  · rw [Place.mk.injEq]
    omega

/-- The bits of the bytes from this position on. -/
def From (bytes : List UInt8) (position : Nat) (bits : List Bool) : Prop :=
  (Bits.ofBytes bytes).drop position = bits

theorem From.later {bytes : List UInt8} {position : Nat} {field rest : List Bool}
    (found : From bytes position (field ++ rest)) : From bytes (position + field.length) rest := by
  rw [From, ← List.drop_drop, show (Bits.ofBytes bytes).drop position = field ++ rest from found,
    List.drop_left' rfl]

theorem From.inside {bytes : List UInt8} {position : Nat} {field rest : List Bool}
    (found : From bytes position (field ++ rest)) (some : 0 < field.length) :
    position + field.length ≤ 8 * bytes.length := by
  have size : ((Bits.ofBytes bytes).drop position).length = (field ++ rest).length :=
    congrArg List.length found
  rw [List.length_drop, Bits.ofBytes_length, List.length_append] at size
  omega

variable {bytes : List UInt8} (behind : Block) {position : Nat} {rest : List Bool}

theorem readBitField_from (type : IntType) {field : List Bool}
    (found : From bytes position (field ++ rest)) (some : 0 < field.length)
    (fetched : position / 8 + type.size ≤ (ofBytes bytes ++ behind).length)
    (fits : position % 8 + field.length ≤ 8 * type.size) :
    readBitField type (ofBytes bytes ++ behind) (position / 8) field.length (position % 8) =
      Option.some (Bits.value field) := by
  have inside := found.inside some
  rw [readBitField_known type bytes behind _ _ _ (by omega) fetched fits, Nat.div_add_mod, found,
    List.take_left' rfl]

section Numbers

variable {width number : Nat} (found : From bytes position (Bits.ofNat width number ++ rest))
  (some : 0 < width) (fits : number < 2 ^ width)
include found some fits

-- behind the bits stands a byte at least
theorem read16_number {behind : Block} (more : 0 < behind.length) (few : width ≤ 8) :
    readBitField .uint16 (ofBytes bytes ++ behind) (position / 8) width (position % 8) =
      Option.some number := by
  have inside := found.inside (by rwa [Bits.ofNat_length])
  have read := readBitField_from behind .uint16 found (by rwa [Bits.ofNat_length])
    (by simp only [List.length_append, ofBytes_length, Bits.ofNat_length, IntType.size] at *; omega)
    (by simp only [Bits.ofNat_length, IntType.size]; omega)
  rwa [Bits.ofNat_length, Bits.value_ofNat_fits fits] at read

theorem take16_number {behind : Block} (more : 0 < behind.length) (few : width ≤ 8) :
    take .uint16 (ofBytes bytes ++ behind) width (Place.ofBit position) =
        Option.some (number, Place.ofBit (position + width)) ∧
      From bytes (position + width) rest := by
  have later := found.later
  rw [Bits.ofNat_length] at later
  refine ⟨?_, later⟩
  simp only [take, Place.ofBit, read16_number found some fits more few, Option.bind_eq_bind,
    Option.bind_some]
  rw [← Place.ofBit, check_ofBit position width few]
  rfl

-- bits that do not go beyond their byte
theorem take8_number (within : position % 8 + width ≤ 8) :
    take .uint8 (ofBytes bytes ++ behind) width (Place.ofBit position) =
        Option.some (number, Place.ofBit (position + width)) ∧
      From bytes (position + width) rest := by
  have later := found.later
  have inside := found.inside (by rwa [Bits.ofNat_length])
  have read := readBitField_from behind .uint8 found (by rwa [Bits.ofNat_length])
    (by simp only [List.length_append, ofBytes_length, Bits.ofNat_length, IntType.size] at *; omega)
    (by simp only [Bits.ofNat_length, IntType.size]; omega)
  rw [Bits.ofNat_length] at later read
  rw [Bits.value_ofNat_fits fits] at read
  refine ⟨?_, later⟩
  simp only [take, Place.ofBit, read, Option.bind_eq_bind, Option.bind_some]
  rw [← Place.ofBit, check_ofBit position width (by omega)]
  rfl

end Numbers

end Positions

/-- The bytes are these bits, and what fills the last byte up. -/
def Spells (bytes : List UInt8) (bits : List Bool) : Prop :=
  ∃ stuffing, Bits.ofBytes bytes = bits ++ stuffing ∧ stuffing.length < 8

theorem Spells.aligned {bytes : List UInt8} {bits : List Bool} (spells : Spells bytes bits) :
    (Place.ofBit bits.length).aligned = bytes.length := by
  obtain ⟨stuffing, same, few⟩ := spells
  have size := congrArg List.length same
  rw [Bits.ofBytes_length, List.length_append] at size
  rw [Place.aligned, Place.ofBit]
  dsimp only
  split <;> omega

end TsAnalyze.Subtitle
