import TsAnalyze.Shared.Memory

set_option autoImplicit false

namespace Memory

-- the low 16 bits, high byte first
def encode16 (value : Nat) : List UInt8 :=
  [UInt8.ofNat (value / 256), UInt8.ofNat value]

def encode32 (value : Nat) : List UInt8 :=
  encode16 (value / 2 ^ 16) ++ encode16 value

def encode64 (value : Nat) : List UInt8 :=
  encode16 (value / 2 ^ 48) ++ encode16 (value / 2 ^ 32) ++ encode16 (value / 2 ^ 16) ++
    encode16 value

@[simp] theorem encode16_length (value : Nat) : (encode16 value).length = 2 := rfl

@[simp] theorem encode32_length (value : Nat) : (encode32 value).length = 4 := rfl

@[simp] theorem encode64_length (value : Nat) : (encode64 value).length = 8 := rfl

/-- Two cells hold the low 16 bits of a number. -/
structure Stores16 (memory : Block) (offset value : Nat) : Prop where
  high : read8 memory offset = some (UInt8.ofNat (value / 256))
  low : read8 memory (offset + 1) = some (UInt8.ofNat value)

theorem Stores16.read {memory : Block} {offset value : Nat}
    (stored : Stores16 memory offset value) : read16 memory offset = some (value % 65536) := by
  rw [read16_eq memory offset _ _ stored.high stored.low, UInt8.toNat_ofNat', UInt8.toNat_ofNat']
  congr 1
  omega

theorem Stores16.read_fits {memory : Block} {offset value : Nat}
    (stored : Stores16 memory offset value) (fits : value < 65536) :
    read16 memory offset = some value := by
  rw [stored.read, Nat.mod_eq_of_lt fits]

theorem join_low (high low width : Nat) (below : low < 2 ^ width) :
    (high <<< width) ||| low = high * 2 ^ width + low := by
  rw [← Nat.shiftLeft_add_eq_or_of_lt below, Nat.shiftLeft_eq]

theorem read32_stored (memory : Block) (offset value : Nat)
    (first : Stores16 memory offset (value / 2 ^ 16))
    (second : Stores16 memory (offset + 2) value) :
    read32 memory offset = some (value % 2 ^ 32) := by
  have joined := join_low (value / 2 ^ 16 % 65536) (value % 65536) 16 (by omega)
  simp only [read32, first.read, second.read, Option.bind_eq_bind, Option.bind_some,
    Option.pure_def, joined]
  congr 1
  omega

theorem read64_stored (memory : Block) (offset value : Nat) (fits : value < 2 ^ 64)
    (first : Stores16 memory offset (value / 2 ^ 48))
    (second : Stores16 memory (offset + 2) (value / 2 ^ 32))
    (third : Stores16 memory (offset + 4) (value / 2 ^ 16))
    (fourth : Stores16 memory (offset + 6) value) : read64 memory offset = some value := by
  have upper : Stores16 memory offset (value / 2 ^ 32 / 2 ^ 16) := by
    rwa [Nat.div_div_eq_div_mul, ← pow_add]
  have high := read32_stored memory offset (value / 2 ^ 32) upper second
  have low := read32_stored memory (offset + 4) value third fourth
  have joined := join_low (value / 2 ^ 32 % 2 ^ 32) (value % 2 ^ 32) 32 (by omega)
  simp only [read64, high, low, Option.bind_eq_bind, Option.bind_some, Option.pure_def, joined]
  congr 1
  omega

theorem read32_lt (memory : Block) (offset value : Nat)
    (result : read32 memory offset = some value) : value < 2 ^ 32 := by
  simp only [read32, Option.bind_eq_bind, Option.bind_eq_some_iff, Option.pure_def,
    Option.some.injEq] at result
  rcases result with ⟨high, highRead, low, lowRead, rfl⟩
  have highBound := read16_lt memory _ high highRead
  have lowBound := read16_lt memory _ low lowRead
  rw [join_low high low 16 lowBound]
  omega

theorem read64_lt (memory : Block) (offset value : Nat)
    (result : read64 memory offset = some value) : value < 2 ^ 64 := by
  simp only [read64, Option.bind_eq_bind, Option.bind_eq_some_iff, Option.pure_def,
    Option.some.injEq] at result
  rcases result with ⟨high, highRead, low, lowRead, rfl⟩
  have highBound := read32_lt memory _ high highRead
  have lowBound := read32_lt memory _ low lowRead
  rw [join_low high low 32 lowBound]
  omega

theorem read8_getD (bytes : List UInt8) (offset : Nat) (inside : offset < bytes.length) :
    read8 (ofBytes bytes) offset = some (bytes.getD offset 0) := by
  rw [read8_ofBytes, List.getElem?_eq_getElem inside, List.getD_eq_getElem _ _ inside]

theorem read8_inside (bytes : List UInt8) (offset : Nat) (inside : offset < bytes.length) :
    ∃ value, read8 (ofBytes bytes) offset = some value :=
  ⟨_, read8_getD bytes offset inside⟩

theorem inside_of_read8 (bytes : List UInt8) (offset : Nat) (value : UInt8)
    (found : read8 (ofBytes bytes) offset = some value) : offset < bytes.length := by
  by_contra outside
  rw [read8_none _ _ (by rw [ofBytes_length]; omega)] at found
  cases found

theorem read16_inside (bytes : List UInt8) (offset : Nat) (inside : offset + 1 < bytes.length) :
    ∃ value, read16 (ofBytes bytes) offset = some value := by
  cases read8_inside bytes offset (by omega) with
  | intro high highRead =>
    cases read8_inside bytes (offset + 1) inside with
    | intro low lowRead => exact ⟨_, read16_eq _ _ high low highRead lowRead⟩

theorem inside_of_read16 (bytes : List UInt8) (offset value : Nat)
    (found : read16 (ofBytes bytes) offset = some value) : offset + 1 < bytes.length := by
  rcases Option.bind_eq_some_iff.mp found with ⟨high, -, later⟩
  rcases Option.bind_eq_some_iff.mp later with ⟨low, lowRead, -⟩
  exact inside_of_read8 bytes (offset + 1) low lowRead

-- a field behind bits that the reader masks out
theorem masked (marks value width : Nat) (below : value < 2 ^ width) :
    (marks * 2 ^ width + value) &&& (2 ^ width - 1) = value := by
  rw [land_low_bits, Nat.mul_add_mod_self_right, Nat.mod_eq_of_lt below]

/-- The first cells of the memory hold bytes. -/
def Readable (memory : Block) (count : Nat) : Prop :=
  ∀ offset < count, ∃ byte, read8 memory offset = some byte

section Readable

variable {memory : Block} {count : Nat}

theorem Readable.le (readable : Readable memory count) {less : Nat} (fewer : less ≤ count) :
    Readable memory less :=
  fun offset inside => readable offset (by omega)

theorem Readable.drop (readable : Readable memory count) (start : Nat) :
    Readable (memory.drop start) (count - start) := by
  intro offset inside
  rw [read8_drop]
  exact readable (start + offset) (by omega)

theorem Readable.read16 (readable : Readable memory count) (offset : Nat)
    (inside : offset + 1 < count) : ∃ value, read16 memory offset = some value := by
  obtain ⟨high, highRead⟩ := readable offset (by omega)
  obtain ⟨low, lowRead⟩ := readable (offset + 1) inside
  exact ⟨_, read16_eq memory offset high low highRead lowRead⟩

theorem Readable.length_le (readable : Readable memory count) : count ≤ memory.length := by
  cases count with
  | zero => exact Nat.zero_le _
  | succ count =>
    obtain ⟨byte, found⟩ := readable count (by omega)
    by_contra outside
    rw [read8_none memory count (by omega)] at found
    cases found

theorem defined_bind {A B : Type} {first : Option A} {next : A → Option B}
    (left : ∃ found, first = some found) (right : ∀ found, ∃ result, next found = some result) :
    ∃ result, (first >>= next) = some result := by
  obtain ⟨found, same⟩ := left
  rw [same]
  exact right found

theorem readable_bytes (bytes : List UInt8) (behind : Block) :
    Readable (ofBytes bytes ++ behind) bytes.length := by
  intro offset inside
  rw [read8_append_left _ _ _ (by rwa [ofBytes_length])]
  exact read8_inside bytes offset inside

end Readable

/-- A field of a fixed size. -/
abbrev Raw (size : Nat) :=
  { bytes : List UInt8 // bytes.length = size }

def encodeRaw {size : Nat} (field : Option (Raw size)) : List UInt8 :=
  field.elim [] (·.1)

@[simp] theorem encodeRaw_length {size : Nat} (field : Option (Raw size)) :
    (encodeRaw field).length = if field.isSome = true then size else 0 := by
  cases field with
  | none => rfl
  | some field => exact field.2

theorem raws_length {size : Nat} (fields : List (Raw size)) :
    (fields.flatMap (·.1)).length = size * fields.length := by
  induction fields with
  | nil => rfl
  | cons field fields ih =>
    rw [List.flatMap_cons, List.length_append, ih, field.2, List.length_cons, Nat.mul_succ,
      Nat.add_comm]

-- items that are all encoded in some bytes
theorem length_le_flatMap {A : Type} {encode : A → List UInt8} {items : List A}
    (nonempty : ∀ item ∈ items, 0 < (encode item).length) :
    items.length ≤ (items.flatMap encode).length := by
  have least := List.length_le_sum_of_one_le (items.map fun item => (encode item).length)
    (by simpa [Nat.one_le_iff_ne_zero, Nat.pos_iff_ne_zero] using nonempty)
  rwa [List.length_map, ← List.length_flatMap] at least

end Memory
