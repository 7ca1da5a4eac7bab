import Mathlib

set_option autoImplicit false

namespace Memory

-- `none` is a cell of an allocated object that nothing has been written to.
abbrev Cell := Option UInt8

abbrev Block := List Cell

def ofBytes (bytes : List UInt8) : Block :=
  bytes.map some

@[simp] theorem ofBytes_length (bytes : List UInt8) : (ofBytes bytes).length = bytes.length := by
  simp [ofBytes]

@[simp] theorem ofBytes_nil : ofBytes [] = [] := rfl

@[simp] theorem ofBytes_cons (byte : UInt8) (bytes : List UInt8) :
    ofBytes (byte :: bytes) = some byte :: ofBytes bytes := rfl

@[simp] theorem ofBytes_append (left right : List UInt8) :
    ofBytes (left ++ right) = ofBytes left ++ ofBytes right := by
  simp [ofBytes]

theorem ofBytes_take (bytes : List UInt8) (count : Nat) :
    (ofBytes bytes).take count = ofBytes (bytes.take count) := by
  simp [ofBytes, List.map_take]

theorem ofBytes_drop (bytes : List UInt8) (count : Nat) :
    (ofBytes bytes).drop count = ofBytes (bytes.drop count) := by
  simp [ofBytes, List.map_drop]

theorem ofBytes_injective : Function.Injective ofBytes :=
  List.map_injective_iff.mpr (Option.some_injective _)

def read8 (memory : Block) (offset : Nat) : Option UInt8 :=
  memory[offset]?.join

def read16 (memory : Block) (offset : Nat) : Option Nat := do
  let high ← read8 memory offset
  let low ← read8 memory (offset + 1)
  return (high.toNat <<< 8) ||| low.toNat

def read32 (memory : Block) (offset : Nat) : Option Nat := do
  let high ← read16 memory offset
  let low ← read16 memory (offset + 2)
  return (high <<< 16) ||| low

def read64 (memory : Block) (offset : Nat) : Option Nat := do
  let high ← read32 memory offset
  let low ← read32 memory (offset + 4)
  return (high <<< 32) ||| low

theorem read8_append_left (left right : Block) (offset : Nat) (inside : offset < left.length) :
    read8 (left ++ right) offset = read8 left offset := by
  simp [read8, List.getElem?_append_left inside]

theorem read8_ofBytes (bytes : List UInt8) (offset : Nat) :
    read8 (ofBytes bytes) offset = bytes[offset]? := by
  rw [read8, ofBytes, List.getElem?_map]
  cases bytes[offset]? <;> rfl

theorem read8_drop (memory : Block) (start offset : Nat) :
    read8 (memory.drop start) offset = read8 memory (start + offset) := by
  simp [read8]

theorem read8_none (memory : Block) (offset : Nat) (outside : memory.length ≤ offset) :
    read8 memory offset = none := by
  simp [read8, outside]

theorem read16_eq (memory : Block) (offset : Nat) (high low : UInt8)
    (first : read8 memory offset = some high) (second : read8 memory (offset + 1) = some low) :
    read16 memory offset = some (high.toNat * 256 + low.toNat) := by
  have below : low.toNat < 2 ^ 8 := low.toNat_lt
  have joined : high.toNat <<< 8 ||| low.toNat = high.toNat * 256 + low.toNat := by
    rw [← Nat.shiftLeft_add_eq_or_of_lt below, Nat.shiftLeft_eq]
  simp only [read16, first, second, Option.bind_eq_bind, Option.bind_some, Option.pure_def, joined]

theorem read16_lt (memory : Block) (offset value : Nat)
    (result : read16 memory offset = some value) : value < 65536 := by
  simp only [read16, Option.bind_eq_bind, Option.bind_eq_some_iff, Option.pure_def,
    Option.some.injEq] at result
  obtain ⟨high, -, low, -, rfl⟩ := result
  have highBound : high.toNat < 256 := high.toNat_lt
  have below : low.toNat < 2 ^ 8 := low.toNat_lt
  rw [← Nat.shiftLeft_add_eq_or_of_lt below, Nat.shiftLeft_eq]
  omega

-- A reader that has succeeded finds the same value whatever lies behind the memory it was given.
def Stable {A : Type} (reader : Block → Option A) : Prop :=
  ∀ memory behind value, reader memory = some value → reader (memory ++ behind) = some value

theorem stable_pure {A : Type} (result : Option A) : Stable fun _ => result := by
  intro memory behind value found
  exact found

theorem stable_bind {A B : Type} (first : Block → Option A) (second : A → Block → Option B)
    (left : Stable first) (right : ∀ found, Stable (second found)) :
    Stable fun memory => (first memory).bind fun found => second found memory := by
  intro memory behind value result
  rcases Option.bind_eq_some_iff.mp result with ⟨found, early, late⟩
  apply Option.bind_eq_some_iff.mpr
  exact ⟨found, left memory behind found early, right found memory behind value late⟩

theorem stable_map {A B : Type} (first : Block → Option A) (f : A → B) (left : Stable first) :
    Stable fun memory => (first memory).map f := by
  intro memory behind value result
  rcases Option.map_eq_some_iff.mp result with ⟨found, early, rfl⟩
  simp [left memory behind found early]

theorem stable_ite {A : Type} (condition : Prop) [Decidable condition]
    (first second : Block → Option A) (left : Stable first) (right : Stable second) :
    Stable fun memory => if condition then first memory else second memory := by
  by_cases holds : condition
  · simpa [holds] using left
  · simpa [holds] using right

theorem stable_read8 (offset : Nat) : Stable fun memory => read8 memory offset := by
  intro memory behind value found
  change read8 memory offset = some value at found
  change read8 (memory ++ behind) offset = some value
  have inside : offset < memory.length := by
    by_contra outside
    rw [read8_none memory offset (by omega)] at found
    cases found
  rwa [read8_append_left memory behind offset inside]

theorem stable_read16 (offset : Nat) : Stable fun memory => read16 memory offset :=
  stable_bind _ _ (stable_read8 _) fun _ => stable_bind _ _ (stable_read8 _) fun _ => stable_pure _

theorem stable_read32 (offset : Nat) : Stable fun memory => read32 memory offset :=
  stable_bind _ _ (stable_read16 _) fun _ => stable_bind _ _ (stable_read16 _) fun _ =>
    stable_pure _

theorem land_low_bits (value width : Nat) : value &&& (2 ^ width - 1) = value % 2 ^ width :=
  Nat.and_two_pow_sub_one_eq_mod value width

/-- An allocated object of a fixed size. -/
structure Region (size : Nat) where
  cells : Block
  sized : cells.length = size

attribute [simp] Region.sized

namespace Region

variable {size : Nat}

def fresh (size : Nat) : Region size :=
  ⟨List.replicate size none, by simp⟩

def zeros (size : Nat) : Region size :=
  ⟨List.replicate size (some 0), by simp⟩

/-- `memcpy` into the object; `none` when either side is accessed out of range. -/
def memcpy (destination : Region size) (position : Int) (source : Block) (count : Int) :
    Option (Region size) :=
  if fits : 0 ≤ position ∧ 0 ≤ count ∧ position + count ≤ size ∧ count ≤ source.length then
    some
      { cells := destination.cells.take position.toNat ++ source.take count.toNat ++
          destination.cells.drop (position.toNat + count.toNat)
        sized := by
          simp only [List.length_append, List.length_take, List.length_drop, destination.sized]
          omega }
  else none

theorem memcpy_isSome (destination : Region size) (position : Int) (source : Block) (count : Int) :
    (destination.memcpy position source count).isSome ↔
      0 ≤ position ∧ 0 ≤ count ∧ position + count ≤ size ∧ count ≤ source.length := by
  simp only [memcpy]
  split <;> simp_all

theorem memcpy_cells (destination : Region size) (position count : Nat) (source : Block)
    (room : position + count ≤ size) (enough : count ≤ source.length) :
    ∃ result, destination.memcpy position source count = some result ∧
      result.cells = destination.cells.take position ++ source.take count ++
        destination.cells.drop (position + count) := by
  have fits : 0 ≤ (position : Int) ∧ 0 ≤ (count : Int) ∧ (position : Int) + count ≤ size ∧
      (count : Int) ≤ source.length := by omega
  rw [memcpy, dif_pos fits]
  exact ⟨_, rfl, rfl⟩

/-- Appending to an object whose first `position` cells are in use. -/
theorem memcpy_extends (destination : Region size) (position count : Nat) (source used : Block)
    (filled : destination.cells.take position = used)
    (room : position + count ≤ size) (enough : count ≤ source.length) :
    ∃ result, destination.memcpy position source count = some result ∧
      result.cells.take (position + count) = used ++ source.take count := by
  obtain ⟨result, copied, cells⟩ := memcpy_cells destination position count source room enough
  have usedLength : used.length = position := by
    rw [← filled, List.length_take, destination.sized]
    omega
  refine ⟨result, copied, ?_⟩
  rw [cells, filled, List.take_append_of_le_length (by simp; omega), List.take_of_length_le]
  simp
  omega

/-- Copying over the whole object. -/
theorem memcpy_whole (destination : Region size) (source : Block) (enough : size ≤ source.length) :
    ∃ copied, destination.memcpy 0 source size = some copied ∧
      copied.cells = source.take size := by
  obtain ⟨copied, copying, cells⟩ := memcpy_cells destination 0 size source (by omega) enough
  refine ⟨copied, copying, ?_⟩
  rw [cells, List.drop_of_length_le (by rw [destination.sized]; omega), List.append_nil]
  rfl

theorem memcpy_whole_cells (destination copied : Region size) (source : Block)
    (copying : destination.memcpy 0 source size = some copied) :
    copied.cells = source.take size := by
  have fits := (memcpy_isSome destination 0 source size).mp (by rw [copying]; rfl)
  obtain ⟨same, again, cells⟩ := memcpy_whole destination source (by omega)
  rw [copying] at again
  rw [Option.some.inj again, cells]

/-- Cells below the position copied to stay as they were. -/
theorem memcpy_keeps (destination result : Region size) (position count : Int) (source : Block)
    (copied : destination.memcpy position source count = some result)
    (keep : Nat) (below : (keep : Int) ≤ position) :
    result.cells.take keep = destination.cells.take keep := by
  simp only [memcpy] at copied
  split at copied
  · rename_i fits
    obtain rfl := Option.some.inj copied
    have shorter : keep ≤ (destination.cells.take position.toNat).length := by
      simp only [List.length_take, destination.sized]
      omega
    simp only [List.append_assoc]
    rw [List.take_append_of_le_length shorter, List.take_take]
    congr 1
    omega
  · cases copied

end Region

end Memory
