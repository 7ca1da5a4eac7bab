import TsAnalyze.Shared.Encoding

set_option autoImplicit false

namespace Memory

def readBytes (memory : Block) (offset : Nat) : Nat → Option (List UInt8)
  | 0 => some []
  | count + 1 => do
      let byte ← read8 memory offset
      let rest ← readBytes memory (offset + 1) count
      return byte :: rest

section Repeated

variable {A : Type} (read : Block → Option (A × Nat))

-- a counted loop over items, each with the bytes it takes
def readTimes : Nat → Block → Option (List A × Nat)
  | 0, _ => some ([], 0)
  | count + 1, memory => do
      let (first, size) ← read memory
      let (rest, later) ← readTimes count (memory.drop size)
      return (first :: rest, size + later)

-- a loop over items from an offset on
def readWhile (more : Nat → Bool) (buf : Block) : Nat → Nat → List A → Option (List A × Nat)
  | 0, off, list => if more off then none else some (list, off)
  | turns + 1, off, list =>
      if more off then do
        let (item, size) ← read (buf.drop off)
        readWhile more buf turns (off + size) (list ++ [item])
      else some (list, off)

end Repeated

theorem readBytes_drop (memory : Block) (start offset count : Nat) :
    readBytes (memory.drop start) offset count = readBytes memory (start + offset) count := by
  induction count generalizing offset with
  | zero => rfl
  | succ count ih => rw [readBytes, readBytes, read8_drop, ih, Nat.add_assoc]

theorem readBytes_length (memory : Block) (offset count : Nat) (bytes : List UInt8)
    (found : readBytes memory offset count = some bytes) : bytes.length = count := by
  induction count generalizing offset bytes with
  | zero =>
    obtain rfl := Option.some.inj found
    rfl
  | succ count ih =>
    rcases Option.bind_eq_some_iff.mp found with ⟨byte, -, later⟩
    rcases Option.bind_eq_some_iff.mp later with ⟨rest, restRead, whole⟩
    rw [← Option.some.inj whole, List.length_cons, ih _ _ restRead]

theorem Readable.readBytes {memory : Block} {size : Nat} (readable : Readable memory size)
    (offset count : Nat) (inside : offset + count ≤ size) :
    ∃ bytes, Memory.readBytes memory offset count = some bytes := by
  induction count generalizing offset with
  | zero => exact ⟨[], rfl⟩
  | succ count ih =>
    obtain ⟨first, firstRead⟩ := readable offset (by omega)
    obtain ⟨rest, restRead⟩ := ih (offset + 1) (by omega)
    exact ⟨first :: rest, by rw [Memory.readBytes, firstRead, restRead]; rfl⟩

theorem readBytes_whole (bytes : List UInt8) (behind : Block) :
    readBytes (ofBytes bytes ++ behind) 0 bytes.length = some bytes := by
  induction bytes with
  | nil => rfl
  | cons byte bytes ih =>
    have rest := readBytes_drop (ofBytes (byte :: bytes) ++ behind) 1 0 bytes.length
    have first : read8 (ofBytes (byte :: bytes) ++ behind) 0 = some byte := rfl
    have dropped : (ofBytes (byte :: bytes) ++ behind).drop 1 = ofBytes bytes ++ behind := rfl
    rw [dropped, ih] at rest
    rw [List.length_cons, readBytes, first, Nat.zero_add, ← rest]
    rfl

/-- What can be read of a memory are these bytes from its start on. -/
def Shows (memory : Block) (bytes : List UInt8) : Prop :=
  ∀ i, read8 memory i = bytes[i]?

theorem shows_ofBytes (bytes : List UInt8) : Shows (ofBytes bytes) bytes :=
  read8_ofBytes bytes

-- cells that nothing has been written to show nothing
theorem shows_sealed (bytes : List UInt8) (count : Nat) :
    Shows (ofBytes bytes ++ List.replicate count none) bytes := by
  intro i
  by_cases inside : i < bytes.length
  · rw [read8_append_left _ _ _ (by simpa using inside), read8_ofBytes]
  · rw [List.getElem?_eq_none (by omega), read8, List.getElem?_append_right (by simp; omega),
      List.getElem?_replicate]
    split <;> rfl

namespace Shows

variable {memory : Block} {bytes : List UInt8} (shows : Shows memory bytes)
include shows

theorem drop (count : Nat) : Shows (memory.drop count) (bytes.drop count) := by
  intro i
  rw [read8_drop, shows, List.getElem?_drop]

theorem read16_same (offset : Nat) : read16 memory offset = read16 (ofBytes bytes) offset := by
  simp only [read16, shows _, read8_ofBytes]

theorem read16_isSome (offset : Nat) :
    (read16 memory offset).isSome = true ↔ offset + 2 ≤ bytes.length := by
  rw [read16, shows, shows]
  constructor
  · intro found
    rcases Option.isSome_iff_exists.mp found with ⟨value, read⟩
    rcases Option.bind_eq_some_iff.mp read with ⟨high, -, later⟩
    rcases Option.bind_eq_some_iff.mp later with ⟨low, lowRead, -⟩
    have second := (List.getElem?_eq_some_iff.mp lowRead).1
    omega
  · intro inside
    rw [List.getElem?_eq_getElem (by omega), List.getElem?_eq_getElem (by omega)]
    rfl

theorem read32_isSome (offset : Nat) :
    (read32 memory offset).isSome = true ↔ offset + 4 ≤ bytes.length := by
  rw [read32]
  constructor
  · intro found
    rcases Option.isSome_iff_exists.mp found with ⟨value, read⟩
    rcases Option.bind_eq_some_iff.mp read with ⟨high, -, later⟩
    rcases Option.bind_eq_some_iff.mp later with ⟨low, lowRead, -⟩
    have second := (shows.read16_isSome (offset + 2)).mp (by rw [lowRead]; rfl)
    omega
  · intro inside
    have first := (shows.read16_isSome offset).mpr (by omega)
    have second := (shows.read16_isSome (offset + 2)).mpr (by omega)
    rcases Option.isSome_iff_exists.mp first with ⟨high, highRead⟩
    rcases Option.isSome_iff_exists.mp second with ⟨low, lowRead⟩
    rw [highRead, lowRead]
    rfl

theorem read64_isSome (offset : Nat) :
    (read64 memory offset).isSome = true ↔ offset + 8 ≤ bytes.length := by
  rw [read64]
  constructor
  · intro found
    rcases Option.isSome_iff_exists.mp found with ⟨value, read⟩
    rcases Option.bind_eq_some_iff.mp read with ⟨high, -, later⟩
    rcases Option.bind_eq_some_iff.mp later with ⟨low, lowRead, -⟩
    have second := (shows.read32_isSome (offset + 4)).mp (by rw [lowRead]; rfl)
    omega
  · intro inside
    have first := (shows.read32_isSome offset).mpr (by omega)
    have second := (shows.read32_isSome (offset + 4)).mpr (by omega)
    rcases Option.isSome_iff_exists.mp first with ⟨high, highRead⟩
    rcases Option.isSome_iff_exists.mp second with ⟨low, lowRead⟩
    rw [highRead, lowRead]
    rfl

theorem readBytes_inside (offset count : Nat) (inside : offset + count ≤ bytes.length) :
    readBytes memory offset count = some ((bytes.drop offset).take count) := by
  induction count generalizing offset with
  | zero => rfl
  | succ count ih =>
    have first : offset < bytes.length := by omega
    rw [readBytes, shows offset, List.getElem?_eq_getElem first, ih (offset + 1) (by omega),
      List.drop_eq_getElem_cons first, List.take_succ_cons]
    rfl

theorem readBytes_isSome (offset count : Nat) (start : offset ≤ bytes.length) :
    (readBytes memory offset count).isSome = true ↔ offset + count ≤ bytes.length := by
  constructor
  · intro found
    induction count generalizing offset with
    | zero => exact start
    | succ count ih =>
      rcases Option.isSome_iff_exists.mp found with ⟨whole, read⟩
      rcases Option.bind_eq_some_iff.mp read with ⟨byte, firstRead, later⟩
      rcases Option.bind_eq_some_iff.mp later with ⟨rest, restRead, -⟩
      rw [shows] at firstRead
      have first := (List.getElem?_eq_some_iff.mp firstRead).1
      have more := ih (offset + 1) first (by rw [restRead]; rfl)
      omega
  · intro inside
    rw [shows.readBytes_inside offset count inside]
    rfl

end Shows

end Memory
