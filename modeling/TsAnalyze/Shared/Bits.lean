import Mathlib

set_option autoImplicit false

namespace Bits

def ofByte (byte : UInt8) : List Bool :=
  (List.range 8).map fun i => byte.toNat.testBit (7 - i)

-- the most significant bit of every byte comes first
def ofBytes (bytes : List UInt8) : List Bool :=
  bytes.flatMap ofByte

def value (bits : List Bool) : Nat :=
  bits.foldl (fun number bit => 2 * number + bit.toNat) 0

def bigEndian (bytes : List UInt8) : Nat :=
  bytes.foldl (fun number byte => 256 * number + byte.toNat) 0

-- the low bits of a number, as many as the width
def ofNat : Nat → Nat → List Bool
  | 0, _ => []
  | width + 1, number => number.testBit width :: ofNat width number

theorem byte_all {property : UInt8 → Prop} [DecidablePred property]
    (all : ∀ number : Fin 256, property (UInt8.ofNat number.val)) (byte : UInt8) :
    property byte := by
  have found := all ⟨byte.toNat, byte.toNat_lt⟩
  rwa [UInt8.ofNat_toNat] at found

@[simp] theorem ofByte_length (byte : UInt8) : (ofByte byte).length = 8 := by
  simp [ofByte]

@[simp] theorem ofBytes_nil : ofBytes [] = [] := rfl

@[simp] theorem ofBytes_cons (byte : UInt8) (bytes : List UInt8) :
    ofBytes (byte :: bytes) = ofByte byte ++ ofBytes bytes := rfl

@[simp] theorem ofBytes_append (left right : List UInt8) :
    ofBytes (left ++ right) = ofBytes left ++ ofBytes right := by
  simp [ofBytes]

@[simp] theorem ofBytes_length (bytes : List UInt8) :
    (ofBytes bytes).length = 8 * bytes.length := by
  induction bytes with
  | nil => rfl
  | cons byte bytes ih =>
    simp only [ofBytes_cons, List.length_append, ofByte_length, ih, List.length_cons]
    omega

theorem ofBytes_drop (bytes : List UInt8) (count : Nat) :
    ofBytes (bytes.drop count) = (ofBytes bytes).drop (8 * count) := by
  induction count generalizing bytes with
  | zero => rfl
  | succ count ih =>
    cases bytes with
    | nil => simp
    | cons byte bytes =>
      rw [List.drop_succ_cons, ih, ofBytes_cons, show 8 * (count + 1) = 8 + 8 * count by omega,
        ← List.drop_drop, List.drop_left' (ofByte_length byte)]

theorem ofBytes_take (bytes : List UInt8) (count : Nat) :
    ofBytes (bytes.take count) = (ofBytes bytes).take (8 * count) := by
  induction count generalizing bytes with
  | zero => rfl
  | succ count ih =>
    cases bytes with
    | nil => simp
    | cons byte bytes =>
      have size := ofByte_length byte
      rw [List.take_succ_cons, ofBytes_cons, ih, ofBytes_cons, List.take_append, size,
        List.take_of_length_le (by omega : (ofByte byte).length ≤ 8 * (count + 1)),
        show 8 * (count + 1) - 8 = 8 * count by omega]

@[simp] theorem value_nil : value [] = 0 := rfl

theorem foldl_value (bits : List Bool) (start : Nat) :
    bits.foldl (fun number bit => 2 * number + bit.toNat) start =
      start * 2 ^ bits.length + value bits := by
  induction bits generalizing start with
  | nil => simp
  | cons bit bits ih =>
    rw [value, List.foldl_cons, List.foldl_cons, ih, ih (2 * 0 + bit.toNat), List.length_cons]
    ring

theorem value_append (left right : List Bool) :
    value (left ++ right) = value left * 2 ^ right.length + value right := by
  rw [value, List.foldl_append, foldl_value right]
  rfl

theorem value_lt (bits : List Bool) : value bits < 2 ^ bits.length := by
  induction bits with
  | nil => simp
  | cons bit bits ih =>
    have small := Bool.toNat_le bit
    have split : value (bit :: bits) = bit.toNat * 2 ^ bits.length + value bits := by
      rw [← List.singleton_append, value_append]
      simp [value]
    rw [split, List.length_cons, pow_succ]
    nlinarith

@[simp] theorem ofNat_length (width number : Nat) : (ofNat width number).length = width := by
  induction width with
  | zero => rfl
  | succ width ih => rw [ofNat, List.length_cons, ih]

theorem value_ofNat (width number : Nat) : value (ofNat width number) = number % 2 ^ width := by
  induction width with
  | zero => rw [pow_zero, Nat.mod_one, ofNat, value_nil]
  | succ width ih =>
    have top : (number.testBit width).toNat = number / 2 ^ width % 2 := by
      rw [Nat.testBit_eq_decide_div_mod_eq]
      rcases Nat.mod_two_eq_zero_or_one (number / 2 ^ width) with even | odd <;> simp [*]
    have split : value (ofNat (width + 1) number) =
        (number.testBit width).toNat * 2 ^ width + value (ofNat width number) := by
      rw [ofNat, ← List.singleton_append, value_append, ofNat_length]
      simp [value]
    rw [split, ih, top, Nat.pow_succ, Nat.mod_mul, Nat.mul_comm, Nat.add_comm]

theorem value_ofNat_fits {width number : Nat} (fits : number < 2 ^ width) :
    value (ofNat width number) = number := by
  rw [value_ofNat, Nat.mod_eq_of_lt fits]

theorem value_ofByte (byte : UInt8) : value (ofByte byte) = byte.toNat := by
  revert byte
  apply byte_all
  decide +kernel

theorem foldl_bigEndian (bytes : List UInt8) (start : Nat) :
    bytes.foldl (fun number byte => 256 * number + byte.toNat) start =
      start * 256 ^ bytes.length + bigEndian bytes := by
  induction bytes generalizing start with
  | nil => simp [bigEndian]
  | cons byte bytes ih =>
    rw [bigEndian, List.foldl_cons, List.foldl_cons, ih, ih (256 * 0 + byte.toNat),
      List.length_cons]
    ring

theorem bigEndian_cons (byte : UInt8) (bytes : List UInt8) :
    bigEndian (byte :: bytes) = byte.toNat * 256 ^ bytes.length + bigEndian bytes := by
  rw [bigEndian, List.foldl_cons, foldl_bigEndian]
  simp

theorem bigEndian_append (left right : List UInt8) :
    bigEndian (left ++ right) = bigEndian left * 256 ^ right.length + bigEndian right := by
  rw [bigEndian, List.foldl_append, foldl_bigEndian right]
  rfl

theorem value_ofBytes (bytes : List UInt8) : value (ofBytes bytes) = bigEndian bytes := by
  induction bytes with
  | nil => rfl
  | cons byte bytes ih =>
    rw [ofBytes_cons, value_append, value_ofByte, ih, bigEndian_cons, ofBytes_length, pow_mul,
      show 2 ^ 8 = 256 from rfl]

theorem bigEndian_lt (bytes : List UInt8) : bigEndian bytes < 256 ^ bytes.length := by
  have bound := value_lt (ofBytes bytes)
  rwa [value_ofBytes, ofBytes_length, pow_mul, show 2 ^ 8 = 256 from rfl] at bound

/-- The bits behind the first `off` of a number of `bits.length` bits. -/
theorem value_slice (bits : List Bool) (off count : Nat) (inside : off + count ≤ bits.length) :
    value bits / 2 ^ (bits.length - off - count) % 2 ^ count =
      value ((bits.drop off).take count) := by
  have split : bits = bits.take off ++ ((bits.drop off).take count ++ bits.drop (off + count)) := by
    rw [← List.drop_drop, List.take_append_drop, List.take_append_drop]
  have last : (bits.drop (off + count)).length = bits.length - off - count := by
    rw [List.length_drop]
    omega
  have middle : ((bits.drop off).take count).length = count := by
    rw [List.length_take, List.length_drop]
    omega
  have whole : value bits = (value (bits.take off) * 2 ^ count +
      value ((bits.drop off).take count)) * 2 ^ (bits.length - off - count) +
        value (bits.drop (off + count)) := by
    conv_lhs => rw [split]
    rw [value_append, value_append, List.length_append, middle, last]
    ring
  have low := value_lt (bits.drop (off + count))
  have high := value_lt ((bits.drop off).take count)
  rw [last] at low
  rw [middle] at high
  rw [whole, Nat.add_comm, Nat.add_mul_div_right _ _ (Nat.two_pow_pos _), Nat.div_eq_of_lt low,
    Nat.zero_add, Nat.mul_add_mod_self_right, Nat.mod_eq_of_lt high]

end Bits
