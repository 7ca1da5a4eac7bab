import TsAnalyze.Descriptors.BitFields
import TsAnalyze.Shared.Extent

set_option autoImplicit false

namespace TsAnalyze.Descriptors

open Memory Tables

-- an entry of the linkage loop; the flags are those of the first byte of the structure
def subinfoSize (flags : Nat) : Nat :=
  if readBits 8 flags 2 4 = 3 then 5
  else
    3 + (if readBits 8 flags 2 4 = 1 then 2 else 0) + (if readBits 8 flags 1 6 ≠ 0 then 2 else 0) +
      (if readBits 8 flags 1 7 ≠ 0 then 2 else 0)

-- the third byte of an entry is skipped
def subinfoTouched (flags : Nat) : Nat :=
  if subinfoSize flags = 3 then 2 else subinfoSize flags

def linkageExtent : Extent := fun bytes => do
  let loopLength ← bytes[0]?
  let size := subinfoSize loopLength.toNat
  if loopLength.toNat = 0 ∨
      1 + (loopLength.toNat - 1) / size * size + subinfoTouched loopLength.toNat ≤ bytes.length then
    some (loopLength.toNat + 1)
  else none

def Callback.extent : Callback → Extent
  | .extendEventLinkageInfo => linkageExtent
  | .multilingualNode => counted 3
  | .multilingualServiceNode => fun bytes => do
      let first ← counted 3 bytes
      counted first bytes
  | .cellListDescriptor => headed 10 (fun bytes => bytes[9]?.map (·.toNat / 8)) (fixed 8)
  | .cellFrequencyLinkDescriptor => headed 7 (fun bytes => bytes[6]?.map (·.toNat / 5)) (fixed 5)
  | .compatibilityDescriptor =>
      headed 4 (fun bytes => read16 (ofBytes bytes) 2)
        (headed 11 (fun bytes => bytes[10]?.map UInt8.toNat) (counted 1))
  | .moduleInfoList => headed 2 (fun bytes => read16 (ofBytes bytes) 0) (counted 6)
  | .textInfo => counted 3

section Reads

variable {memory : Block} {bytes : List UInt8} (shows : Shows memory bytes)
include shows

theorem read16_some (offset : Nat) (inside : offset + 2 ≤ bytes.length) :
    ∃ value, read16 memory offset = some value :=
  Option.isSome_iff_exists.mp ((shows.read16_isSome offset).mpr inside)

theorem read32_some (offset : Nat) (inside : offset + 4 ≤ bytes.length) :
    ∃ value, read32 memory offset = some value :=
  Option.isSome_iff_exists.mp ((shows.read32_isSome offset).mpr inside)

theorem read8_some (offset : Nat) (inside : offset < bytes.length) :
    ∃ value, read8 memory offset = some value := by
  rw [shows]
  exact ⟨_, List.getElem?_eq_getElem inside⟩

-- the last eight bits of four bytes are the last byte
theorem read32_last (offset : Nat) :
    (read32 memory offset).map (fun word => readBits 32 word 8 24) =
      bytes[offset + 3]?.map UInt8.toNat := by
  by_cases inside : offset + 4 ≤ bytes.length
  · have last : (bytes.drop offset)[3]? = some bytes[offset + 3] := by
      rw [List.getElem?_drop, List.getElem?_eq_getElem]
    rw [read32_bigEndian shows offset inside, List.getElem?_eq_getElem (by omega), Option.map_some,
      Option.map_some, readBits_low, List.take_add_one, last, Bits.bigEndian_append]
    simp only [Option.toList_some, List.length_singleton, Bits.bigEndian, List.foldl_cons,
      List.foldl_nil, Option.some.injEq]
    have below := bytes[offset + 3].toNat_lt
    omega
  · have outside : read32 memory offset = none := by
      rw [← Option.not_isSome_iff_eq_none, shows.read32_isSome]
      exact inside
    rw [outside, List.getElem?_eq_none (by omega)]
    rfl

theorem read32_last_some (offset word : Nat) (ran : read32 memory offset = some word) :
    ∃ last, bytes[offset + 3]? = some last ∧ readBits 32 word 8 24 = last.toNat := by
  have same := read32_last shows offset
  rw [ran, Option.map_some] at same
  rcases Option.map_eq_some_iff.mp same.symm with ⟨last, found, value⟩
  exact ⟨last, found, value.symm⟩

theorem read32_last_none (offset : Nat) (ran : read32 memory offset = none) :
    bytes[offset + 3]? = none := by
  have same := read32_last shows offset
  rw [ran, Option.map_none] at same
  exact Option.map_eq_none_iff.mp same.symm

end Reads

section Sized

variable {A B : Type}

theorem sized_map {read : Block → Option (A × Nat)} {extent : Extent} (sized : Sized read extent)
    (f : A → B) : Sized (fun buf => (read buf).map (Prod.map f id)) extent := by
  intro memory bytes shows
  rw [← sized memory bytes shows, Option.map_map]
  rfl

-- a language and a text behind its length
theorem sized_text (build : Nat → List UInt8 → A) :
    Sized (fun buf => do
      let word ← read32 buf 0
      let textChar ← readBytes buf 4 (readBits 32 word 8 24)
      return (build word textChar, readBits 32 word 8 24 + 4)) (counted 3) := by
  intro memory bytes shows
  rw [counted]
  dsimp only
  cases ran : read32 memory 0 with
  | none =>
    rw [read32_last_none shows 0 ran]
    rfl
  | some word =>
    rcases read32_last_some shows 0 word ran with ⟨last, found, value⟩
    have inside := (List.getElem?_eq_some_iff.mp found).1
    have text := shows.readBytes_fixed 4 last.toNat (by omega)
    rw [found]
    simp only [Option.bind_eq_bind, Option.bind_some, value, ← text]
    cases readBytes memory 4 last.toNat <;> simp [Nat.add_comm]

-- what is read first says how many items follow it
theorem sized_headed {H : Type} {head : Block → Option (H × Nat)} {item : Block → Option (A × Nat)}
    (size : Nat) {count : List UInt8 → Option Nat} {extent : Extent} (build : H → List A → B)
    (heads : Sized head count) (items : Sized item extent) :
    Sized (fun buf => do
      let (first, number) ← head buf
      let (list, later) ← readTimes item number (buf.drop size)
      return (build first list, size + later)) (headed size count extent) := by
  intro memory bytes shows
  rw [headed]
  dsimp only
  cases ran : head memory with
  | none =>
    rw [(heads.eq_none shows).mp ran]
    rfl
  | some found =>
    have later := items.readTimes found.2 (memory.drop size) (bytes.drop size) (shows.drop size)
    rw [heads.eq_some shows found ran]
    simp only [Option.bind_eq_bind, Option.bind_some, ← later]
    cases readTimes item found.2 (memory.drop size) <;> rfl

-- what stands before a length byte, and the bytes behind it
theorem sized_counted {H : Type} {head : Block → Option H} (offset : Nat)
    (heads : ∀ memory bytes, Shows memory bytes → offset < bytes.length →
      (head memory).isSome = true)
    (build : H → UInt8 → List UInt8 → A) :
    Sized (fun buf => do
      let first ← head buf
      let length ← read8 buf offset
      let bytes ← readBytes buf (offset + 1) length.toNat
      return (build first length bytes, offset + 1 + length.toNat)) (counted offset) := by
  intro memory bytes shows
  rw [counted]
  dsimp only
  rw [shows offset]
  cases found : bytes[offset]? with
  | none => cases head memory <;> rfl
  | some length =>
    have inside := (List.getElem?_eq_some_iff.mp found).1
    rcases Option.isSome_iff_exists.mp (heads memory bytes shows inside) with ⟨first, ran⟩
    have rest := shows.readBytes_fixed (offset + 1) length.toNat (by omega)
    rw [ran]
    simp only [Option.bind_eq_bind, Option.bind_some, ← rest]
    cases readBytes memory (offset + 1) length.toNat <;> rfl

end Sized

section Callbacks

theorem readSubDescriptor_sized : Sized readSubDescriptor (counted 1) := by
  have heads : ∀ memory bytes, Shows memory bytes → 1 < bytes.length →
      (read8 memory 0).isSome = true := by
    intro memory bytes shows inside
    rcases read8_some shows 0 (by omega) with ⟨value, ran⟩
    rw [ran]
    rfl
  exact sized_counted 1 heads SubDescriptor.mk

theorem readModuleInfo_sized : Sized readModuleInfo (counted 6) := by
  have heads : ∀ memory bytes, Shows memory bytes → 6 < bytes.length →
      (do
        let moduleId ← read16 memory 0
        let moduleSize ← read32 memory 2
        return (moduleId, moduleSize)).isSome = true := by
    intro memory bytes shows inside
    rcases read16_some shows 0 (by omega) with ⟨moduleId, ranId⟩
    rcases read32_some shows 2 (by omega) with ⟨moduleSize, ranSize⟩
    rw [ranId, ranSize]
    rfl
  have sized := sized_counted 6 heads fun first length bytes =>
    ModuleInfo.mk first.1 first.2 length bytes
  intro memory bytes shows
  rw [← sized memory bytes shows, readModuleInfo]
  simp [Option.bind_assoc]

theorem readSubcell_sized : Sized readSubcell (fixed 8) := by
  intro memory bytes shows
  rw [readSubcell, Option.map_map, fixed]
  have inside := shows.read64_isSome 0
  cases ran : read64 memory 0 with
  | none =>
    rw [ran] at inside
    rw [if_neg (by simpa using inside)]
    rfl
  | some word =>
    rw [ran] at inside
    rw [if_pos (by simpa using inside)]
    rfl

theorem readSubcellInfo_sized : Sized readSubcellInfo (fixed 5) := by
  intro memory bytes shows
  rw [readSubcellInfo, fixed]
  have inside := shows.read32_isSome 1
  cases ran : read32 memory 1 with
  | none =>
    rw [ran] at inside
    rw [if_neg (by simp at inside; omega)]
    cases read8 memory 0 <;> rfl
  | some word =>
    rw [ran] at inside
    have enough : 1 + 4 ≤ bytes.length := by simpa using inside
    rcases read8_some shows 0 (by omega) with ⟨value, found⟩
    rw [if_pos (by omega), found]
    rfl

theorem readCompatobilitylistDescriptor_sized :
    Sized readCompatobilitylistDescriptor
      (headed 11 (fun bytes => bytes[10]?.map UInt8.toNat) (counted 1)) := by
  have heads : Sized (fun ptr => do
      let type ← read8 ptr 0
      let length ← read8 ptr 1
      let word ← read32 ptr 2
      let model ← read16 ptr 6
      let version ← read16 ptr 8
      let count ← read8 ptr 10
      return ((type, length, word, model, version, count), count.toNat))
      (fun bytes => bytes[10]?.map UInt8.toNat) := by
    intro memory bytes shows
    dsimp only
    rw [shows 10]
    cases found : bytes[10]? with
    | none => simp
    | some count =>
      have inside := (List.getElem?_eq_some_iff.mp found).1
      rcases read8_some shows 0 (by omega) with ⟨type, ranType⟩
      rcases read8_some shows 1 (by omega) with ⟨length, ranLength⟩
      rcases read32_some shows 2 (by omega) with ⟨word, ranWord⟩
      rcases read16_some shows 6 (by omega) with ⟨model, ranModel⟩
      rcases read16_some shows 8 (by omega) with ⟨version, ranVersion⟩
      rw [ranType, ranLength, ranWord, ranModel, ranVersion]
      rfl
  have sized := sized_headed 11 (fun first sub =>
    CompatobilitylistDescriptor.mk first.1 first.2.1 (readBits 32 first.2.2.1 8 0)
      (readBits 32 first.2.2.1 24 8) first.2.2.2.1 first.2.2.2.2.1 first.2.2.2.2.2 sub) heads
    readSubDescriptor_sized
  intro memory bytes shows
  rw [← sized memory bytes shows, readCompatobilitylistDescriptor]
  simp [Option.bind_assoc]

theorem parseCompatibilityDescriptor_sized :
    Sized parseCompatibilityDescriptor (headed 4 (fun bytes => read16 (ofBytes bytes) 2)
      (headed 11 (fun bytes => bytes[10]?.map UInt8.toNat) (counted 1))) := by
  have heads : Sized (fun buf => do
      let length ← read16 buf 0
      let count ← read16 buf 2
      return (length, count)) (fun bytes => read16 (ofBytes bytes) 2) := by
    intro memory bytes shows
    dsimp only
    rw [← shows.read16_same 2]
    have inside := shows.read16_isSome 2
    cases ran : read16 memory 2 with
    | none => simp
    | some count =>
      rw [ran] at inside
      have enough : 2 + 2 ≤ bytes.length := by simpa using inside
      rcases read16_some shows 0 (by omega) with ⟨length, ranLength⟩
      rw [ranLength]
      rfl
  have sized := sized_headed 4 (fun length sub => (length, sub)) heads
    readCompatobilitylistDescriptor_sized
  intro memory bytes shows
  rw [← sized memory bytes shows, parseCompatibilityDescriptor]
  simp [Option.bind_assoc]

theorem parseModuleInfoList_sized :
    Sized parseModuleInfoList (headed 2 (fun bytes => read16 (ofBytes bytes) 0) (counted 6)) := by
  have heads : Sized (fun buf => (read16 buf 0).map fun number => (number, number))
      (fun bytes => read16 (ofBytes bytes) 0) := by
    intro memory bytes shows
    dsimp only
    rw [← shows.read16_same 0]
    cases read16 memory 0 <;> rfl
  have sized := sized_headed 2 (fun number info => ModuleInfoList.mk number info) heads
    readModuleInfo_sized
  intro memory bytes shows
  rw [← sized memory bytes shows, parseModuleInfoList]
  simp [Option.bind_map]

theorem parseCellListDescriptor_sized :
    Sized parseCellListDescriptor
      (headed 10 (fun bytes => bytes[9]?.map (·.toNat / 8)) (fixed 8)) := by
  have heads : Sized (fun buf => do
      let cellId ← read16 buf 0
      let cellLatitude ← read16 buf 2
      let cellLongitude ← read16 buf 4
      let word ← read32 buf 6
      return ((cellId, cellLatitude, cellLongitude, word), readBits 32 word 8 24 / 8))
      (fun bytes => bytes[9]?.map (·.toNat / 8)) := by
    intro memory bytes shows
    dsimp only
    cases ran : read32 memory 6 with
    | none =>
      have outside : bytes[9]? = none := read32_last_none shows 6 ran
      simp [outside]
    | some word =>
      rcases read32_last_some shows 6 word ran with ⟨last, found, value⟩
      have inside := (List.getElem?_eq_some_iff.mp found).1
      rcases read16_some shows 0 (by omega) with ⟨cellId, ranId⟩
      rcases read16_some shows 2 (by omega) with ⟨latitude, ranLatitude⟩
      rcases read16_some shows 4 (by omega) with ⟨longitude, ranLongitude⟩
      change bytes[9]? = some last at found
      rw [ranId, ranLatitude, ranLongitude, found]
      simp [value]
  have sized := sized_headed 10 (fun first subcells => (first, subcells)) heads readSubcell_sized
  intro memory bytes shows
  rw [← sized memory bytes shows, parseCellListDescriptor]
  simp [Option.bind_assoc]

theorem parseCellFrequencyLinkDescriptor_sized :
    Sized parseCellFrequencyLinkDescriptor
      (headed 7 (fun bytes => bytes[6]?.map (·.toNat / 5)) (fixed 5)) := by
  have heads : Sized (fun buf => do
      let cellId ← read16 buf 0
      let frequency ← read32 buf 2
      let loopLength ← read8 buf 6
      return ((cellId, frequency, loopLength), loopLength.toNat / 5))
      (fun bytes => bytes[6]?.map (·.toNat / 5)) := by
    intro memory bytes shows
    dsimp only
    rw [shows 6]
    cases found : bytes[6]? with
    | none => simp
    | some loopLength =>
      have inside := (List.getElem?_eq_some_iff.mp found).1
      rcases read16_some shows 0 (by omega) with ⟨cellId, ranId⟩
      rcases read32_some shows 2 (by omega) with ⟨frequency, ranFrequency⟩
      rw [ranId, ranFrequency]
      rfl
  have sized := sized_headed 7 (fun first subcells => (first, subcells)) heads
    readSubcellInfo_sized
  intro memory bytes shows
  rw [← sized memory bytes shows, parseCellFrequencyLinkDescriptor]
  simp [Option.bind_assoc]

theorem parseMultilingualServiceNode_sized :
    Sized parseMultilingualServiceNode (Callback.extent .multilingualServiceNode) := by
  intro memory bytes shows
  have first := sized_text (fun word text => (word, text)) memory bytes shows
  rw [Callback.extent, parseMultilingualServiceNode]
  dsimp only at first ⊢
  rw [← first]
  cases ran : read32 memory 0 with
  | none => rfl
  | some word =>
    simp only [Option.bind_eq_bind, Option.bind_some]
    cases text : readBytes memory 4 (readBits 32 word 8 24) with
    | none => rfl
    | some textChar =>
      rw [ran] at first
      simp only [Option.bind_eq_bind, Option.bind_some, text] at first
      rcases (counted_eq_some 3 bytes _).mp first.symm with ⟨count, -, inside, total⟩
      simp only [Option.bind_some, Option.pure_def, Option.map_some]
      rw [counted, ← shows, Nat.add_comm 4]
      cases length : read8 memory (readBits 32 word 8 24 + 4) with
      | none => rfl
      | some serviceNameLength =>
        rw [shows] at length
        have start := (List.getElem?_eq_some_iff.mp length).1
        have rest := shows.readBytes_fixed (readBits 32 word 8 24 + 4 + 1) serviceNameLength.toNat
          (by omega)
        simp only [Option.bind_eq_bind, Option.bind_some]
        rw [← rest, show 5 + readBits 32 word 8 24 = readBits 32 word 8 24 + 4 + 1 by omega]
        cases readBytes memory (readBits 32 word 8 24 + 4 + 1) serviceNameLength.toNat <;> rfl

end Callbacks

section Linkage

variable {ptr : Block} {rest : List UInt8} (shows : Shows ptr rest)
include shows

theorem optional16_some (present : Prop) [Decidable present] (l : Nat)
    (inside : present → l + 2 ≤ rest.length) :
    ∃ value, optional16 present ptr l = some (value, if present then l + 2 else l) := by
  by_cases given : present
  · rcases read16_some shows l (inside given) with ⟨value, ran⟩
    exact ⟨some value, by rw [optional16, if_pos given, if_pos given, ran]; rfl⟩
  · exact ⟨none, by rw [optional16, if_neg given, if_neg given]⟩

theorem optional16_none (present : Prop) [Decidable present] (l : Nat) (given : present)
    (outside : ¬l + 2 ≤ rest.length) : optional16 present ptr l = none := by
  have gone : read16 ptr l = none := by
    rw [← Option.not_isSome_iff_eq_none, shows.read16_isSome]
    exact outside
  rw [optional16, if_pos given, gone]
  rfl

-- one of them, and what is read behind it
theorem optional16_sized {A : Type} (present : Prop) [Decidable present] (l : Nat)
    (next : Option Nat × Nat → Option (A × Nat)) (later : Nat → Option Nat)
    (sized : ∀ value behind, (next (value, behind)).map Prod.snd = later behind) :
    ((optional16 present ptr l).bind next).map Prod.snd =
      if present → l + 2 ≤ rest.length then later (if present then l + 2 else l) else none := by
  by_cases inside : present → l + 2 ≤ rest.length
  · rcases optional16_some shows present l inside with ⟨value, ran⟩
    rw [if_pos inside, ran, Option.bind_some, sized]
  · rw [if_neg inside]
    rw [Classical.not_imp] at inside
    rw [optional16_none shows present l inside.1 inside.2]
    rfl

-- three identifiers, each of which may be absent
theorem optionals_sized {A : Type} (first second third : Prop) [Decidable first]
    [Decidable second] [Decidable third] (long : 2 ≤ rest.length)
    (build : Option Nat → Option Nat → Option Nat → A) (size touched : Nat)
    (total : size = 3 + (if first then 2 else 0) + (if second then 2 else 0) +
      (if third then 2 else 0))
    (touches : touched = if size = 3 then 2 else size) :
    (do
      let (a, l) ← optional16 first ptr 3
      let (b, l) ← optional16 second ptr l
      let (c, l) ← optional16 third ptr l
      return (build a b c, l)).map Prod.snd =
        if touched ≤ rest.length then some size else none := by
  refine (optional16_sized shows first 3 _ _ fun a l =>
    optional16_sized shows second l _ _ fun b k =>
      optional16_sized shows third k _ some fun c behind => rfl).trans ?_
  rw [touches, total]
  by_cases one : first <;> by_cases two : second <;> by_cases three : third <;>
    simp only [one, two, three, if_true, if_false, true_implies, false_implies] <;>
    split_ifs <;> first | rfl | omega

omit shows in
theorem subinfoTouched_bounds (flags : Nat) :
    2 ≤ subinfoTouched flags ∧ 3 ≤ subinfoSize flags ∧ subinfoTouched flags ≤ subinfoSize flags := by
  have least : 3 ≤ subinfoSize flags := by
    rw [subinfoSize]
    split <;> omega
  rw [subinfoTouched]
  split <;> omega

theorem readSubinfo_sized (buf : Block) (flags : UInt8) (flagsAt : read8 buf 0 = some flags) :
    (readSubinfo buf ptr).map Prod.snd =
      if subinfoTouched flags.toNat ≤ rest.length then some (subinfoSize flags.toNat) else none := by
  have bounds := subinfoTouched_bounds flags.toNat
  by_cases long : 0 + 2 ≤ rest.length
  · rcases read16_some shows 0 long with ⟨targetEventId, ran⟩
    rw [readSubinfo, ran, flagsAt]
    simp only [Option.bind_eq_bind, Option.bind_some]
    by_cases own : readBits 8 flags.toNat 2 4 = 3
    · have size : subinfoSize flags.toNat = 5 := by rw [subinfoSize, if_pos own]
      have touched : subinfoTouched flags.toNat = 5 := by rw [subinfoTouched, size]; rfl
      have inside := shows.read16_isSome 3
      rw [if_pos own, size, touched]
      cases third : read16 ptr 3 with
      | none =>
        rw [third] at inside
        rw [if_neg (by simpa using inside)]
        rfl
      | some value =>
        rw [third] at inside
        rw [if_pos (by simpa using inside)]
        rfl
    · rw [if_neg own]
      exact optionals_sized shows _ _ _ (by omega) _ _ _ (by rw [subinfoSize, if_neg own]) rfl
  · have gone : read16 ptr 0 = none := by
      rw [← Option.not_isSome_iff_eq_none, shows.read16_isSome]
      exact long
    rw [readSubinfo, gone, if_neg (by omega)]
    rfl

end Linkage

theorem parseExtendEventLinkageInfo_sized : Sized parseExtendEventLinkageInfo linkageExtent := by
  intro memory bytes shown
  rw [parseExtendEventLinkageInfo, linkageExtent]
  dsimp only
  rw [shown 0]
  cases found : bytes[0]? with
  | none => rfl
  | some loopLength =>
    have flagsAt : read8 memory 0 = some loopLength := by rw [shown, found]
    have bounds := subinfoTouched_bounds loopLength.toNat
    have below := loopLength.toNat_lt
    have inside := (List.getElem?_eq_some_iff.mp found).1
    have reads := readWhile_constant (readSubinfo memory) (subinfoSize loopLength.toNat)
      (subinfoTouched loopLength.toNat) (by omega) (by omega)
      (fun _ _ there => readSubinfo_sized there memory loopLength flagsAt) (shown.drop 1)
      loopLength.toNat 256 0 (by omega) []
    rw [List.length_drop, Nat.le_zero, Nat.zero_add, Nat.sub_zero] at reads
    simp only [Option.bind_eq_bind, Option.bind_some]
    cases ran : readWhile (readSubinfo memory) (fun l => decide (l < loopLength.toNat))
        (memory.drop 1) 256 0 [] with
    | none =>
      rw [ran] at reads
      rw [if_neg]
      · rfl
      · intro fits
        have some := reads.mpr (fits.imp id fun there => by omega)
        cases some
    | some list =>
      rw [ran] at reads
      rw [if_pos]
      · rfl
      · exact (reads.mp rfl).imp id fun there => by omega

theorem Callback.sized (callback : Callback) : Sized callback.parse callback.extent := by
  cases callback with
  | extendEventLinkageInfo => exact sized_map parseExtendEventLinkageInfo_sized _
  | multilingualNode =>
    exact sized_map (sized_text fun word text => MultilingualNode.mk (readBits 32 word 24 0)
      (readBits 32 word 8 24) text) _
  | multilingualServiceNode => exact sized_map parseMultilingualServiceNode_sized _
  | cellListDescriptor => exact sized_map parseCellListDescriptor_sized _
  | cellFrequencyLinkDescriptor => exact sized_map parseCellFrequencyLinkDescriptor_sized _
  | compatibilityDescriptor => exact sized_map parseCompatibilityDescriptor_sized _
  | moduleInfoList => exact sized_map parseModuleInfoList_sized _
  | textInfo =>
    exact sized_map (sized_text fun word text => TextInfo.mk (readBits 32 word 24 0)
      (readBits 32 word 8 24) text) _

-- the loops get along with at most 255 of these
theorem Callback.proper (callback : Callback) (other : callback ≠ .extendEventLinkageInfo) :
    ∃ least, 2 ≤ least ∧ callback.extent.Proper least := by
  have byte : ∀ (bytes : List UInt8) (offset items : Nat) (f : UInt8 → Nat),
      bytes[offset]?.map f = some items → offset + 1 ≤ bytes.length := by
    intro bytes offset items f found
    rcases Option.map_eq_some_iff.mp found with ⟨value, read, -⟩
    exact (List.getElem?_eq_some_iff.mp read).1
  have word : ∀ (bytes : List UInt8) (offset items : Nat),
      read16 (ofBytes bytes) offset = some items → offset + 2 ≤ bytes.length := by
    intro bytes offset items found
    exact ((shows_ofBytes bytes).read16_isSome offset).mp (by rw [found]; rfl)
  cases callback with
  | extendEventLinkageInfo => exact absurd rfl other
  | multilingualNode => exact ⟨4, by decide, counted_proper 3⟩
  | multilingualServiceNode =>
    refine ⟨4, by decide, fun bytes size found => ?_, fun bytes size found => ?_, by decide⟩
    · rcases Option.bind_eq_some_iff.mp found with ⟨first, firstFound, rest⟩
      have atLeast := (counted_proper 3).least_le bytes first firstFound
      have later := (counted_proper first).least_le bytes size rest
      omega
    · rcases Option.bind_eq_some_iff.mp found with ⟨first, -, rest⟩
      exact (counted_proper first).inside bytes size rest
  | cellListDescriptor =>
    exact ⟨10, by decide, headed_proper 10 (by decide) _ _ (fun bytes items => byte bytes 9 items _)
      (fixed_proper 8 (by decide)).inside⟩
  | cellFrequencyLinkDescriptor =>
    exact ⟨7, by decide, headed_proper 7 (by decide) _ _ (fun bytes items => byte bytes 6 items _)
      (fixed_proper 5 (by decide)).inside⟩
  | compatibilityDescriptor =>
    have inner := headed_proper 11 (by decide) _ _ (fun bytes items => byte bytes 10 items UInt8.toNat)
      (counted_proper 1).inside
    exact ⟨4, by decide, headed_proper 4 (by decide) _ _ (fun bytes items => word bytes 2 items)
      inner.inside⟩
  | moduleInfoList =>
    exact ⟨2, by decide, headed_proper 2 (by decide) _ _ (fun bytes items => word bytes 0 items)
      (counted_proper 6).inside⟩
  | textInfo => exact ⟨4, by decide, counted_proper 3⟩

end TsAnalyze.Descriptors
