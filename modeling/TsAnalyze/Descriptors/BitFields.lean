import TsAnalyze.Descriptors.Members

set_option autoImplicit false

namespace TsAnalyze.Descriptors

open Memory Tables

section ReadBitField

@[simp] theorem cellBytes_ofBytes (bytes : List UInt8) : cellBytes (ofBytes bytes) = bytes := by
  simp [cellBytes, ofBytes]

theorem cellBytes_take (cells : Block) (count : Nat) :
    cellBytes (cells.take count) = (cellBytes cells).take count := by
  simp [cellBytes, List.map_take]

@[simp] theorem cellBytes_append (left right : Block) :
    cellBytes (left ++ right) = cellBytes left ++ cellBytes right := by
  simp [cellBytes]

@[simp] theorem cellBytes_length (cells : Block) : (cellBytes cells).length = cells.length := by
  simp [cellBytes]

theorem take_known (bytes : List UInt8) (behind : Block) (count : Nat)
    (inside : count ≤ bytes.length) :
    ((ofBytes bytes ++ behind).take count).all Option.isSome = true := by
  rw [List.take_append_of_le_length (by simpa using inside), ofBytes_take, ofBytes, List.all_map]
  simp

-- the cells of a type as bits, from the first bit of the field on
theorem readBits_cells (cells : Block) (bitlen off : Nat) (fits : off + bitlen ≤ 8 * cells.length) :
    readBits (8 * cells.length) (Bits.bigEndian (cellBytes cells)) bitlen off =
      Bits.value (((Bits.ofBytes (cellBytes cells)).drop off).take bitlen) := by
  have size : (Bits.ofBytes (cellBytes cells)).length = 8 * cells.length := by simp
  rw [readBits_low, ← Bits.value_ofBytes, ← size]
  exact Bits.value_slice _ _ _ (by omega)

/-- Whatever a type fetches behind a field, the field is what stands in its own bits. -/
theorem readBitField_known (type : IntType) (bytes : List UInt8) (behind : Block)
    (offset bitlen off : Nat) (inside : 8 * offset + (off + bitlen) ≤ 8 * bytes.length)
    (fetched : offset + type.size ≤ (ofBytes bytes ++ behind).length)
    (fits : off + bitlen ≤ 8 * type.size) :
    readBitField type (ofBytes bytes ++ behind) offset bitlen off =
      some (Bits.value (((Bits.ofBytes bytes).drop (8 * offset + off)).take bitlen)) := by
  have here : (ofBytes bytes ++ behind).drop offset = ofBytes (bytes.drop offset) ++ behind := by
    rw [List.drop_append_of_le_length (by simp; omega), ofBytes_drop]
  have cells : (((ofBytes bytes ++ behind).drop offset).take type.size).length = type.size := by
    rw [List.length_take, List.length_drop]
    omega
  have known : ((((ofBytes bytes ++ behind).drop offset).take type.size).take
      ((off + bitlen + 7) / 8)).all Option.isSome = true := by
    rw [here, List.take_take, Nat.min_eq_left (by omega)]
    apply take_known
    rw [List.length_drop]
    omega
  have bits := readBits_cells _ bitlen off (by rw [cells]; exact fits)
  rw [cells] at bits
  rw [readBitField, if_pos ⟨cells, fits, known⟩, bits, here, cellBytes_take, cellBytes_append,
    cellBytes_ofBytes, Bits.ofBytes_take, Bits.ofBytes_append, Bits.ofBytes_drop, List.drop_take,
    List.take_take, Nat.min_eq_left (by omega), List.drop_append_of_le_length (by simp; omega),
    List.take_append_of_le_length (by simp; omega), List.drop_drop]

end ReadBitField

section IntTypes

variable {memory : Block} {bytes : List UInt8} (shows : Shows memory bytes)
include shows

theorem read16_bigEndian (offset : Nat) (inside : offset + 2 ≤ bytes.length) :
    read16 memory offset = some (Bits.bigEndian ((bytes.drop offset).take 2)) := by
  have first := shows offset
  have second := shows (offset + 1)
  rw [List.getElem?_eq_getElem (by omega)] at first second
  rw [read16_eq memory offset _ _ first second, List.drop_eq_getElem_cons (by omega),
    List.drop_eq_getElem_cons (by omega), List.take_succ_cons, List.take_succ_cons, List.take_zero]
  simp only [Bits.bigEndian, List.foldl_cons, List.foldl_nil, Option.some.injEq]
  omega

-- a number of two halves of the same width
omit shows in
theorem bigEndian_halves (offset size : Nat) (inside : offset + size + size ≤ bytes.length) :
    Bits.bigEndian ((bytes.drop offset).take size) <<< (8 * size) |||
      Bits.bigEndian ((bytes.drop (offset + size)).take size) =
        Bits.bigEndian ((bytes.drop offset).take (size + size)) := by
  have low := Bits.bigEndian_lt ((bytes.drop (offset + size)).take size)
  have length : ((bytes.drop (offset + size)).take size).length = size := by
    rw [List.length_take, List.length_drop]
    omega
  rw [length, show 256 = 2 ^ 8 from rfl, ← pow_mul] at low
  rw [← Nat.shiftLeft_add_eq_or_of_lt low, Nat.shiftLeft_eq, List.take_add, List.drop_drop,
    Bits.bigEndian_append, length, show 256 = 2 ^ 8 from rfl, ← pow_mul]

theorem read32_bigEndian (offset : Nat) (inside : offset + 4 ≤ bytes.length) :
    read32 memory offset = some (Bits.bigEndian ((bytes.drop offset).take 4)) := by
  rw [read32, read16_bigEndian shows offset (by omega),
    read16_bigEndian shows (offset + 2) (by omega)]
  exact congrArg some (bigEndian_halves offset 2 (by omega))

theorem read64_bigEndian (offset : Nat) (inside : offset + 8 ≤ bytes.length) :
    read64 memory offset = some (Bits.bigEndian ((bytes.drop offset).take 8)) := by
  rw [read64, read32_bigEndian shows offset (by omega),
    read32_bigEndian shows (offset + 4) (by omega)]
  exact congrArg some (bigEndian_halves offset 4 (by omega))

theorem IntType.read_inside (type : IntType) (offset : Nat)
    (inside : offset + type.size ≤ bytes.length) :
    type.read memory offset = some (Bits.bigEndian ((bytes.drop offset).take type.size)) := by
  cases type with
  | uint8 =>
    have here : offset < bytes.length := inside
    rw [IntType.read, shows, List.getElem?_eq_getElem here, IntType.size,
      List.drop_eq_getElem_cons here, List.take_succ_cons, List.take_zero]
    simp only [Bits.bigEndian, List.foldl_cons, List.foldl_nil, Option.map_some, Nat.mul_zero,
      Nat.zero_add]
  | uint16 => exact read16_bigEndian shows offset inside
  | uint32 => exact read32_bigEndian shows offset inside
  | uint64 => exact read64_bigEndian shows offset inside

theorem IntType.read_isSome (type : IntType) (offset : Nat) :
    (type.read memory offset).isSome = true ↔ offset + type.size ≤ bytes.length := by
  cases type with
  | uint8 =>
    rw [IntType.read, Option.isSome_map, shows, isSome_getElem?, IntType.size]
    rfl
  | uint16 => exact shows.read16_isSome offset
  | uint32 => exact shows.read32_isSome offset
  | uint64 => exact shows.read64_isSome offset

end IntTypes

-- one __m member
structure BitField where
  type : IntType
  name : String
  bits : Nat

def BitField.member (field : BitField) : Member :=
  .m field.type field.name field.bits

def width (fields : List BitField) : Nat :=
  (fields.map BitField.bits).sum

@[simp] theorem width_nil : width [] = 0 := rfl

@[simp] theorem width_cons (field : BitField) (fields : List BitField) :
    width (field :: fields) = field.bits + width fields := by
  simp [width]

-- the widths that __m reads, each at the bit offset at which the member starts
def Fits : Nat → List BitField → Prop
  | _, [] => True
  | bitsOff, field :: rest =>
      1 ≤ field.bits ∧
      (field.bits < 8 * field.type.size ∨ (field.type = .uint8 ∧ field.bits = 8)) ∧
      bitsOff + field.bits ≤ 8 * field.type.size ∧ Fits ((bitsOff + field.bits) % 8) rest

-- every type is fetched from the first `size` bytes
def LongEnough (size : Nat) : Nat → List BitField → Prop
  | _, [] => True
  | position, field :: rest =>
      position / 8 + field.type.size ≤ size ∧ LongEnough size (position + field.bits) rest

def consecutive : List Bool → List BitField → List (String × Value)
  | _, [] => []
  | bits, field :: rest =>
      (field.name, .scalar (Bits.value (bits.take field.bits))) ::
        consecutive (bits.drop field.bits) rest

/-- The parsing has come to this bit of the descriptor. -/
structure Parsing.At (p : Parsing) (position : Nat) : Prop where
  whole : 8 * p.bytesOff + p.bitsOff = position
  below : p.bitsOff < 8

theorem Parsing.At.set {p : Parsing} {position : Nat} (here : p.At position) (name : String)
    (value : Value) : (p.set name value).At position :=
  ⟨here.whole, here.below⟩

theorem Parsing.At.skipBits {p : Parsing} {position : Nat} (here : p.At position) (bits : Nat) :
    (p.skipBits bits).At (position + bits) := by
  have whole := here.whole
  constructor
  · simp only [Parsing.skipBits]
    omega
  · exact Nat.mod_lt _ (by omega)

theorem member_consecutive (input : Input) (bytes : List UInt8) (behind : Block)
    (shown : input.buf = ofBytes bytes ++ behind) (p : Parsing) (position : Nat)
    (here : p.At position) (field : BitField)
    (fits : p.bitsOff + field.bits ≤ 8 * field.type.size)
    (long : position / 8 + field.type.size ≤ bytes.length) :
    field.member.parse input p =
      some ((p.set field.name
        (.scalar (Bits.value (((Bits.ofBytes bytes).drop position).take field.bits)))).skipBits
          field.bits) := by
  have whole := here.whole
  have below := here.below
  have offset : position / 8 = p.bytesOff := by omega
  have read := readBitField_known field.type bytes behind p.bytesOff field.bits p.bitsOff
    (by omega) (by rw [List.length_append, ofBytes_length]; omega) fits
  rw [BitField.member, Member.parse, shown, read, whole]
  rfl

theorem parseMembers_consecutive (input : Input) (bytes : List UInt8) (behind : Block)
    (shown : input.buf = ofBytes bytes ++ behind) (fields : List BitField) (p : Parsing)
    (position : Nat) (here : p.At position) (fits : Fits p.bitsOff fields)
    (long : LongEnough bytes.length position fields) :
    ∃ after, parseMembers input (fields.map BitField.member) p = some after ∧
      after.values = p.values ++ consecutive ((Bits.ofBytes bytes).drop position) fields ∧
      after.At (position + width fields) := by
  induction fields generalizing p position with
  | nil => exact ⟨p, rfl, by simp [consecutive], here⟩
  | cons field fields ih =>
    rcases fits with ⟨-, -, inside, later⟩
    have read := member_consecutive input bytes behind shown p position here field inside long.1
    have moved : ((p.set field.name (.scalar (Bits.value
        (((Bits.ofBytes bytes).drop position).take field.bits)))).skipBits field.bits).At
          (position + field.bits) :=
      (here.set _ _).skipBits field.bits
    rcases ih _ _ moved later long.2 with ⟨after, run, values, there⟩
    refine ⟨after, ?_, ?_, ?_⟩
    · rw [List.map_cons, parseMembers, read, Option.bind_some, run]
    · rw [values, consecutive, List.drop_drop]
      simp [Parsing.set, Parsing.skipBits]
    · rwa [width_cons, ← Nat.add_assoc]

theorem fits_first (bitsOff : Nat) (first second : List BitField)
    (fits : Fits bitsOff (first ++ second)) : Fits bitsOff first := by
  induction first generalizing bitsOff with
  | nil => trivial
  | cons field first ih => exact ⟨fits.1, fits.2.1, fits.2.2.1, ih _ fits.2.2.2⟩

theorem longEnough_first (size position : Nat) (first second : List BitField)
    (long : LongEnough size position (first ++ second)) : LongEnough size position first := by
  induction first generalizing position with
  | nil => trivial
  | cons field first ih => exact ⟨long.1, ih _ long.2⟩

theorem parseMembers_bits (fields : List BitField) (fits : Fits 0 fields) (tag length : UInt8)
    (payload : List UInt8) (long : LongEnough (payload.length + 2) 16 fields) (behind : Block)
    (len : Nat) (first second : List BitField) (split : fields = first ++ second) :
    ∃ p, parseMembers ⟨ofBytes (tag :: length :: payload) ++ behind, len, length.toNat⟩
        (first.map BitField.member) {} = some p ∧
      p.values = consecutive (Bits.ofBytes payload) first ∧
      8 * p.bytesOff + p.bitsOff = 16 + width first ∧ p.bitsOff < 8 := by
  rw [split] at fits long
  have start : Parsing.At {} 16 := ⟨rfl, by decide⟩
  rcases parseMembers_consecutive ⟨ofBytes (tag :: length :: payload) ++ behind, len, length.toNat⟩
      (tag :: length :: payload) behind rfl first {} 16 start (fits_first 0 first second fits)
      (longEnough_first _ 16 first second long) with ⟨p, run, values, there⟩
  refine ⟨p, run, ?_, there.whole, there.below⟩
  have body : (Bits.ofBytes (tag :: length :: payload)).drop 16 = Bits.ofBytes payload :=
    (Bits.ofBytes_drop (tag :: length :: payload) 2).symm
  rw [values, List.nil_append, body]

-- members of three types, the last of which begins in the middle of a byte
def mixedFields : List BitField :=
  [⟨.uint16, "twelve", 12⟩, ⟨.uint8, "four", 4⟩, ⟨.uint64, "three", 3⟩, ⟨.uint64, "thirty", 30⟩]

theorem parseMembers_bits_mixed :
    ∃ p, parseMembers ⟨ofBytes [0x40, 11, 0xAB, 0xCD, 0x20, 0, 0, 0, 0x80, 0, 0, 0, 0], 13, 11⟩
        (mixedFields.map BitField.member) {} = some p ∧
      p.values = consecutive (Bits.ofBytes [0xAB, 0xCD, 0x20, 0, 0, 0, 0x80, 0, 0, 0, 0])
        mixedFields ∧
      8 * p.bytesOff + p.bitsOff = 65 ∧ p.bitsOff < 8 := by
  have fits : Fits 0 mixedFields := by simp [Fits, mixedFields, IntType.size]
  have long : LongEnough 13 16 mixedFields := by simp [LongEnough, mixedFields, IntType.size]
  have whole := parseMembers_bits mixedFields fits 0x40 11
    [0xAB, 0xCD, 0x20, 0, 0, 0, 0x80, 0, 0, 0, 0] long [] 13 mixedFields [] rfl
  rwa [List.append_nil] at whole

end TsAnalyze.Descriptors
