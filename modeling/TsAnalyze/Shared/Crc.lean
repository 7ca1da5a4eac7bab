import TsAnalyze.Shared.Bits

set_option autoImplicit false

namespace Crc

section Register

variable {width : Nat} (generator : BitVec width)

def shiftIn (crc : BitVec width) (bit : Bool) : BitVec width :=
  if crc.msb ^^ bit then (crc <<< 1) ^^^ generator else crc <<< 1

/-- The register after the bits of a message, the most significant bit of the register being the
one that leaves it. -/
def serial (crc : BitVec width) (bits : List Bool) : BitVec width :=
  bits.foldl (shiftIn generator) crc

@[simp] theorem serial_nil (crc : BitVec width) : serial generator crc [] = crc := rfl

@[simp] theorem serial_cons (crc : BitVec width) (bit : Bool) (bits : List Bool) :
    serial generator crc (bit :: bits) = serial generator (shiftIn generator crc bit) bits := rfl

theorem serial_append (crc : BitVec width) (left right : List Bool) :
    serial generator crc (left ++ right) = serial generator (serial generator crc left) right := by
  rw [serial, List.foldl_append]
  rfl

theorem xor_right_comm (first second third : BitVec width) :
    first ^^^ second ^^^ third = first ^^^ third ^^^ second := by
  ac_rfl

theorem xor_common (left right common : BitVec width) :
    (left ^^^ right) = (left ^^^ common) ^^^ (right ^^^ common) := by
  calc left ^^^ right = left ^^^ right ^^^ (common ^^^ common) := by
        rw [BitVec.xor_self, BitVec.xor_zero]
    _ = (left ^^^ common) ^^^ (right ^^^ common) := by ac_rfl

theorem shiftIn_xor (left right : BitVec width) (bit other : Bool) :
    shiftIn generator (left ^^^ right) (bit ^^ other) =
      shiftIn generator left bit ^^^ shiftIn generator right other := by
  have leaving : ((left ^^^ right).msb ^^ (bit ^^ other)) =
      ((left.msb ^^ bit) ^^ (right.msb ^^ other)) := by
    rw [BitVec.msb_xor, Bool.xor_assoc, Bool.xor_left_comm right.msb, ← Bool.xor_assoc]
  rw [shiftIn, leaving, BitVec.shiftLeft_xor_distrib, shiftIn, shiftIn]
  cases left.msb ^^ bit with
  | false =>
    cases right.msb ^^ other with
    | false => rfl
    | true => exact BitVec.xor_assoc _ _ _
  | true =>
    cases right.msb ^^ other with
    | false => exact xor_right_comm _ _ _
    | true => exact xor_common _ _ _

theorem serial_xor (left right : BitVec width) (bits : List Bool) :
    serial generator (left ^^^ right) bits =
      serial generator left bits ^^^
        serial generator right (List.replicate bits.length false) := by
  induction bits generalizing left right with
  | nil => rfl
  | cons bit bits ih =>
    have step := shiftIn_xor generator left right bit false
    rw [Bool.xor_false] at step
    rw [serial_cons, step, ih, List.length_cons, List.replicate_succ, serial_cons, serial_cons]

theorem shiftIn_split (crc : BitVec width) (bit : Bool) :
    shiftIn generator crc bit =
      crc <<< 1 ^^^ shiftIn generator (BitVec.ofNat width 0) (crc.msb ^^ bit) := by
  have quiet : (BitVec.ofNat width 0).msb = false := by simp
  rw [shiftIn, shiftIn, quiet, Bool.false_xor, BitVec.zero_shiftLeft, BitVec.zero_xor]
  split
  · rfl
  · rw [BitVec.xor_zero]

theorem serial_quiet (count : Nat) :
    serial generator (BitVec.ofNat width 0) (List.replicate count false) = BitVec.ofNat width 0 := by
  induction count with
  | zero => rfl
  | succ count ih =>
    have still : shiftIn generator (BitVec.ofNat width 0) false = BitVec.ofNat width 0 := by simp [shiftIn]
    rw [List.replicate_succ, serial_cons, still, ih]

end Register

section Bits

variable {width : Nat}

-- the most significant bits of a word, as many as the count
def firstBits : BitVec width → Nat → List Bool
  | _, 0 => []
  | word, count + 1 => word.msb :: firstBits (word <<< 1) count

@[simp] theorem firstBits_length (word : BitVec width) (count : Nat) :
    (firstBits word count).length = count := by
  induction count generalizing word with
  | zero => rfl
  | succ count ih => rw [firstBits, List.length_cons, ih]

theorem firstBits_add (word : BitVec width) (count more : Nat) :
    firstBits word (count + more) = firstBits word count ++ firstBits (word <<< count) more := by
  induction count generalizing word with
  | zero => simp [firstBits]
  | succ count ih =>
    rw [Nat.succ_add, firstBits, firstBits, ih, ← BitVec.shiftLeft_add, Nat.add_comm 1 count]
    rfl

theorem firstBits_congr {other : Nat} (word : BitVec width) (same : BitVec other) (count : Nat)
    (narrow : count ≤ width) (short : count ≤ other)
    (equal : ∀ position < count, word.getMsbD position = same.getMsbD position) :
    firstBits word count = firstBits same count := by
  induction count generalizing word same with
  | zero => rfl
  | succ count ih =>
    have first := equal 0 (by omega)
    have rest := ih (word <<< 1) (same <<< 1) (by omega) (by omega) (fun position below => by
      have next := equal (position + 1) (by omega)
      simpa [BitVec.getMsbD_shiftLeft, show position < width by omega,
        show position < other by omega] using next)
    rw [firstBits, firstBits, rest, BitVec.msb_eq_getMsbD_zero, BitVec.msb_eq_getMsbD_zero, first]

/-- The bits on top of a word are those of a narrower one. -/
theorem firstBits_top (word : BitVec width) (count : Nat) (inside : count ≤ width) :
    firstBits ((word >>> (width - count)).setWidth count) count = firstBits word count := by
  apply firstBits_congr _ _ _ (Nat.le_refl count) inside
  intro position below
  have place : width - count + (count - 1 - position) = width - 1 - position := by omega
  rw [BitVec.getMsbD_eq_getLsbD, BitVec.getMsbD_eq_getLsbD, BitVec.getLsbD_setWidth,
    BitVec.getLsbD_ushiftRight, place, decide_eq_true below,
    decide_eq_true (by omega : count - 1 - position < count),
    decide_eq_true (by omega : position < width), Bool.true_and, Bool.true_and]

theorem firstBits_xor (left right : BitVec width) (count : Nat) :
    firstBits (left ^^^ right) count =
      List.zipWith Bool.xor (firstBits left count) (firstBits right count) := by
  induction count generalizing left right with
  | zero => rfl
  | succ count ih =>
    rw [firstBits, BitVec.msb_xor, BitVec.shiftLeft_xor_distrib, ih, firstBits, firstBits,
      List.zipWith_cons_cons]

theorem firstBits_zero (count : Nat) :
    firstBits (BitVec.ofNat width 0) count = List.replicate count false := by
  induction count with
  | zero => rfl
  | succ count ih =>
    have msb : (BitVec.ofNat width 0).msb = false := by simp
    rw [firstBits, msb, BitVec.zero_shiftLeft, ih, List.replicate_succ]

end Bits

section Units

variable {width : Nat} (generator : BitVec width)

/-- A register that starts full acts through the bits that leave it. -/
theorem serial_split (crc : BitVec width) (bits : List Bool) :
    serial generator crc bits =
      serial generator (BitVec.ofNat width 0) (List.zipWith Bool.xor (firstBits crc bits.length) bits) ^^^
        crc <<< bits.length := by
  induction bits generalizing crc with
  | nil => simp
  | cons bit bits ih =>
    have alone := serial_xor generator (BitVec.ofNat width 0)
      (shiftIn generator (BitVec.ofNat width 0) (crc.msb ^^ bit))
      (List.zipWith Bool.xor (firstBits (crc <<< 1) bits.length) bits)
    rw [BitVec.zero_xor, List.length_zipWith, firstBits_length, Nat.min_self] at alone
    rw [serial_cons, shiftIn_split, serial_xor, ih, List.length_cons, firstBits,
      List.zipWith_cons_cons, serial_cons, alone, xor_right_comm, ← BitVec.shiftLeft_add,
      Nat.add_comm 1]

/-- A unit of the message in one step. -/
theorem serial_unit {count : Nat} (crc : BitVec width) (unit : BitVec count)
    (inside : count ≤ width) :
    serial generator crc (firstBits unit count) =
      crc <<< count ^^^ serial generator (BitVec.ofNat width 0)
        (firstBits ((crc >>> (width - count)).setWidth count ^^^ unit) count) := by
  rw [serial_split, firstBits_length, firstBits_xor, firstBits_top crc count inside,
    BitVec.xor_comm]

/-- A register that takes in its own bits ends at zero. -/
theorem serial_residue (crc : BitVec width) :
    serial generator crc (firstBits crc width) = BitVec.ofNat width 0 := by
  rw [serial_split, firstBits_length, ← firstBits_xor, BitVec.xor_self, firstBits_zero,
    serial_quiet]
  simp

end Units

end Crc
