import TsAnalyze.Shared.Reading

set_option autoImplicit false

namespace Memory

-- the bytes that an item takes from its start on, when what is read of it lies in them
abbrev Extent := List UInt8 → Option Nat

def fixed (size : Nat) : Extent := fun bytes =>
  if size ≤ bytes.length then some size else none

-- up to a byte, and as many bytes behind it as it says
def counted (offset : Nat) : Extent := fun bytes => do
  let count ← bytes[offset]?
  fixed (offset + 1 + count.toNat) bytes

def times (extent : Extent) : Nat → Extent
  | 0, _ => some 0
  | count + 1, bytes => do
      let size ← extent bytes
      let later ← times extent count (bytes.drop size)
      return size + later

-- as many items behind the first bytes as these say
def headed (size : Nat) (count : List UInt8 → Option Nat) (item : Extent) : Extent := fun bytes => do
  let items ← count bytes
  let later ← times item items (bytes.drop size)
  return size + later

/-- A reader succeeds, and moves on, as the bytes say that its memory shows. -/
def Sized {A : Type} (read : Block → Option (A × Nat)) (extent : Extent) : Prop :=
  ∀ memory bytes, Shows memory bytes → (read memory).map Prod.snd = extent bytes

/-- Items one after the other that leave nothing over. -/
inductive Tiled (extent : Extent) : List UInt8 → Prop
  | nil : Tiled extent []
  | cons (bytes : List UInt8) (size : Nat) (here : extent bytes = some size)
      (rest : Tiled extent (bytes.drop size)) : Tiled extent bytes

theorem fixed_eq_some (size : Nat) (bytes : List UInt8) (found : Nat) :
    fixed size bytes = some found ↔ size ≤ bytes.length ∧ found = size := by
  rw [fixed]
  split <;> simp_all [eq_comm]

theorem Shows.readBytes_fixed {memory : Block} {bytes : List UInt8} (shows : Shows memory bytes)
    (offset count : Nat) (start : offset ≤ bytes.length) :
    (readBytes memory offset count).map (fun _ => offset + count) = fixed (offset + count) bytes := by
  by_cases inside : offset + count ≤ bytes.length
  · rw [shows.readBytes_inside offset count inside, fixed, if_pos inside, Option.map_some]
  · have outside : readBytes memory offset count = none := by
      rw [← Option.not_isSome_iff_eq_none, shows.readBytes_isSome offset count start]
      exact inside
    rw [outside, fixed, if_neg inside, Option.map_none]

theorem tiled_nil (extent : Extent) : Tiled extent [] :=
  Tiled.nil

theorem tiled_none {extent : Extent} {bytes : List UInt8} (gone : extent bytes = none)
    (tiled : Tiled extent bytes) : bytes = [] := by
  cases tiled with
  | nil => rfl
  | cons _ size here => rw [gone] at here; cases here

theorem tiled_some {extent : Extent} {bytes : List UInt8} {size : Nat}
    (found : extent bytes = some size) : Tiled extent bytes ↔ Tiled extent (bytes.drop size) := by
  constructor
  · intro tiled
    cases tiled with
    | nil => rw [List.drop_nil]; exact Tiled.nil
    | cons _ other here rest =>
      rw [found] at here
      rwa [Option.some.inj here]
  · exact Tiled.cons bytes size found

theorem tiled_fixed (size : Nat) (positive : 0 < size) (bytes : List UInt8) :
    Tiled (fixed size) bytes ↔ size ∣ bytes.length := by
  constructor
  · intro tiled
    induction tiled with
    | nil => exact Nat.dvd_zero size
    | cons bytes found here rest ih =>
      rcases (fixed_eq_some size bytes found).mp here with ⟨inside, rfl⟩
      rw [List.length_drop] at ih
      exact (Nat.dvd_sub_iff_left inside (Nat.dvd_refl _)).mp ih
  · rintro ⟨count, total⟩
    induction count generalizing bytes with
    | zero =>
      rw [List.length_eq_zero_iff.mp total]
      exact Tiled.nil
    | succ count ih =>
      rw [Nat.mul_succ] at total
      refine Tiled.cons bytes size ((fixed_eq_some size bytes size).mpr ⟨by omega, rfl⟩) (ih _ ?_)
      rw [List.length_drop]
      omega

theorem readWhile_stops {A : Type} (read : Block → Option (A × Nat)) (more : Nat → Bool)
    (memory : Block) (turns off : Nat) (list : List A) (stops : more off = false) :
    readWhile read more memory turns off list = some (list, off) := by
  cases turns <;> rw [readWhile, if_neg (by simp [stops])]

section Proper

/-- The least that an item takes; no item takes more than there is. -/
structure Extent.Proper (extent : Extent) (least : Nat) : Prop where
  least_le : ∀ bytes size, extent bytes = some size → least ≤ size
  inside : ∀ bytes size, extent bytes = some size → size ≤ bytes.length
  positive : 0 < least

theorem Extent.Proper.nothing {extent : Extent} {least : Nat} (proper : extent.Proper least) :
    extent [] = none := by
  cases found : extent [] with
  | none => rfl
  | some size =>
    have atLeast := proper.least_le _ _ found
    have inside := proper.inside _ _ found
    have positive := proper.positive
    rw [List.length_nil] at inside
    omega

theorem fixed_proper (size : Nat) (positive : 0 < size) : (fixed size).Proper size where
  least_le bytes found here := ((fixed_eq_some size bytes found).mp here).2.ge
  inside bytes found here := by
    rcases (fixed_eq_some size bytes found).mp here with ⟨inside, rfl⟩
    exact inside
  positive := positive

theorem counted_eq_some (offset : Nat) (bytes : List UInt8) (size : Nat) :
    counted offset bytes = some size ↔
      ∃ count, bytes[offset]? = some count ∧ offset + 1 + count.toNat ≤ bytes.length ∧
        size = offset + 1 + count.toNat := by
  rw [counted, Option.bind_eq_bind, Option.bind_eq_some_iff]
  simp only [fixed_eq_some]

theorem counted_proper (offset : Nat) : (counted offset).Proper (offset + 1) where
  least_le bytes size found := by
    rcases (counted_eq_some offset bytes size).mp found with ⟨count, -, -, rfl⟩
    omega
  inside bytes size found := by
    rcases (counted_eq_some offset bytes size).mp found with ⟨count, -, inside, rfl⟩
    exact inside
  positive := Nat.succ_pos offset

theorem times_inside (extent : Extent)
    (inside : ∀ bytes size, extent bytes = some size → size ≤ bytes.length) (count : Nat)
    (bytes : List UInt8) (total : Nat) (found : times extent count bytes = some total) :
    total ≤ bytes.length := by
  induction count generalizing bytes total with
  | zero =>
    rw [← Option.some.inj found]
    exact Nat.zero_le _
  | succ count ih =>
    rcases Option.bind_eq_some_iff.mp found with ⟨size, here, rest⟩
    rcases Option.bind_eq_some_iff.mp rest with ⟨later, laterFound, sum⟩
    have first := inside bytes size here
    have others := ih _ later laterFound
    rw [List.length_drop] at others
    rw [← Option.some.inj sum]
    omega

theorem headed_proper (size : Nat) (positive : 0 < size) (count : List UInt8 → Option Nat)
    (item : Extent) (counts : ∀ bytes items, count bytes = some items → size ≤ bytes.length)
    (inside : ∀ bytes found, item bytes = some found → found ≤ bytes.length) :
    (headed size count item).Proper size where
  least_le bytes found here := by
    rcases Option.bind_eq_some_iff.mp here with ⟨items, -, rest⟩
    rcases Option.bind_eq_some_iff.mp rest with ⟨later, -, sum⟩
    rw [← Option.some.inj sum]
    exact Nat.le_add_right size later
  inside bytes found here := by
    rcases Option.bind_eq_some_iff.mp here with ⟨items, itemsRead, rest⟩
    rcases Option.bind_eq_some_iff.mp rest with ⟨later, laterFound, sum⟩
    have head := counts bytes items itemsRead
    have others := times_inside item inside items _ later laterFound
    rw [List.length_drop] at others
    rw [← Option.some.inj sum]
    omega
  positive := positive

end Proper

section Loops

variable {A : Type} {read : Block → Option (A × Nat)} {extent : Extent} (sized : Sized read extent)
include sized

theorem Sized.eq_none {memory : Block} {bytes : List UInt8} (shows : Shows memory bytes) :
    read memory = none ↔ extent bytes = none := by
  rw [← sized memory bytes shows, Option.map_eq_none_iff]

theorem Sized.eq_some {memory : Block} {bytes : List UInt8} (shows : Shows memory bytes)
    (found : A × Nat) (ran : read memory = some found) : extent bytes = some found.2 := by
  rw [← sized memory bytes shows, ran, Option.map_some]

theorem Sized.readTimes (count : Nat) : Sized (readTimes read count) (times extent count) := by
  induction count with
  | zero => exact fun _ _ _ => rfl
  | succ count ih =>
    intro memory bytes shows
    rw [Memory.readTimes, times]
    cases ran : read memory with
    | none =>
      rw [(sized.eq_none shows).mp ran]
      rfl
    | some found =>
      rw [sized.eq_some shows found ran]
      have later := ih (memory.drop found.2) (bytes.drop found.2) (shows.drop found.2)
      simp only [Option.bind_eq_bind, Option.bind_some, ← later]
      cases Memory.readTimes read count (memory.drop found.2) <;> rfl

-- a loop that goes on until exactly the end of the bytes
theorem Sized.readWhile_tiled {least : Nat} (proper : extent.Proper least) {memory : Block}
    {bytes : List UInt8} (shows : Shows memory bytes) (more : Nat → Bool)
    (goesOn : ∀ off ≤ bytes.length, more off = true ↔ off ≠ bytes.length) (turns off : Nat)
    (start : off ≤ bytes.length) (enough : bytes.length ≤ off + least * turns) (list : List A)
    (last : Nat) :
    (readWhile read more memory turns off list).map Prod.snd = some last ↔
      Tiled extent (bytes.drop off) ∧ last = bytes.length := by
  induction turns generalizing off list with
  | zero =>
    have same : off = bytes.length := by omega
    have stops : more off = false := by simpa [same] using goesOn off start
    rw [readWhile_stops read more memory 0 off list stops, List.drop_eq_nil_of_le same.ge]
    simp [same, tiled_nil, eq_comm]
  | succ turns ih =>
    by_cases same : off = bytes.length
    · have stops : more off = false := by simpa [same] using goesOn off start
      rw [readWhile_stops read more memory _ off list stops, List.drop_eq_nil_of_le same.ge]
      simp [same, tiled_nil, eq_comm]
    · rw [readWhile, if_pos ((goesOn off start).mpr same)]
      cases ran : read (memory.drop off) with
      | none =>
        have gone := (sized.eq_none (shows.drop off)).mp ran
        constructor
        · intro found
          cases found
        · rintro ⟨tiled, -⟩
          have left := congrArg List.length (tiled_none gone tiled)
          rw [List.length_drop, List.length_nil] at left
          omega
      | some found =>
        have size := sized.eq_some (shows.drop off) found ran
        have atLeast := proper.least_le _ _ size
        have inside := proper.inside _ _ size
        rw [List.length_drop] at inside
        have product : least * (turns + 1) = least * turns + least := Nat.mul_succ least turns
        have later := ih (off + found.2) (by omega) (by omega) (list ++ [found.1])
        rw [tiled_some size, List.drop_drop, ← later]
        rfl

theorem Sized.readWhile_beyond {least : Nat} (proper : extent.Proper least) {memory : Block}
    {bytes : List UInt8} (shows : Shows memory bytes) (more : Nat → Bool) (turns off : Nat)
    (beyond : bytes.length ≤ off) (goesOn : more off = true) (list : List A) :
    readWhile read more memory turns off list = none := by
  cases turns with
  | zero => rw [readWhile, if_pos goesOn]
  | succ turns =>
    have gone : read (memory.drop off) = none := by
      rw [sized.eq_none (shows.drop off), List.drop_eq_nil_of_le beyond]
      exact proper.nothing
    rw [readWhile, if_pos goesOn, gone]
    rfl

end Loops

-- items of one size that are read while less than `limit` bytes have been taken
theorem readWhile_constant {A : Type} (read : Block → Option (A × Nat)) (size touched : Nat)
    (sizePositive : 0 < size) (touches : 0 < touched)
    (each : ∀ memory bytes, Shows memory bytes →
      (read memory).map Prod.snd = if touched ≤ bytes.length then some size else none)
    {memory : Block} {bytes : List UInt8} (shows : Shows memory bytes) (limit turns off : Nat)
    (enough : limit ≤ off + size * turns) (list : List A) :
    (readWhile read (fun l => decide (l < limit)) memory turns off list).isSome = true ↔
      limit ≤ off ∨ off + (limit - off - 1) / size * size + touched ≤ bytes.length := by
  induction turns generalizing off list with
  | zero =>
    rw [readWhile_stops _ _ _ _ _ _ (by simpa using enough)]
    simp [show limit ≤ off by omega]
  | succ turns ih =>
    by_cases done : limit ≤ off
    · rw [readWhile_stops _ _ _ _ _ _ (by simpa using done)]
      simp [done]
    · have here := each (memory.drop off) (bytes.drop off) (shows.drop off)
      have product : size * (turns + 1) = size * turns + size := Nat.mul_succ size turns
      rw [readWhile, if_pos (by simpa using done)]
      rw [List.length_drop] at here
      cases ran : read (memory.drop off) with
      | none =>
        rw [ran, Option.map_none] at here
        have short : ¬touched ≤ bytes.length - off := by
          intro fits
          rw [if_pos fits] at here
          cases here
        simp only [Option.bind_eq_bind, Option.bind_none, Option.isSome_none, Bool.false_eq_true,
          false_iff]
        omega
      | some found =>
        rw [ran, Option.map_some] at here
        have fits : touched ≤ bytes.length - off := by
          by_contra short
          rw [if_neg short] at here
          cases here
        rw [if_pos fits] at here
        have later := ih (off + found.2) (by rw [Option.some.inj here]; omega) (list ++ [found.1])
        simp only [Option.bind_eq_bind, Option.bind_some]
        rw [later, Option.some.inj here]
        by_cases last : limit ≤ off + size
        · have none : (limit - off - 1) / size = 0 := Nat.div_eq_of_lt (by omega)
          rw [none]
          omega
        · have another : (limit - off - 1) / size = (limit - (off + size) - 1) / size + 1 := by
            rw [← Nat.add_div_right _ sizePositive]
            congr 1
            omega
          rw [another, Nat.succ_mul]
          omega

end Memory
