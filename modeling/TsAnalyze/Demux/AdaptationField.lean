import TsAnalyze.Demux.Packet
import TsAnalyze.Shared.Encoding

set_option autoImplicit false

namespace TsAnalyze.Demux

open Memory

-- the pointer only moves through additions
section Moved

variable (memory : Block) (start : Nat)

theorem readPcr_drop (offset : Nat) :
    readPcr (memory.drop start) offset = readPcr memory (start + offset) := by
  simp only [readPcr, read32, read16, read8_drop, Nat.add_assoc]

theorem optionalPcr_drop (present : Bool) (ptr : Nat) :
    optionalPcr present memory (start + ptr) =
      (optionalPcr present (memory.drop start) ptr).map fun found => (found.1, start + found.2) := by
  cases present with
  | false => rfl
  | true =>
    simp only [optionalPcr, if_true, readPcr_drop, Option.map_map]
    rfl

theorem optionalBytes_drop (present : Bool) (ptr : Nat) :
    optionalBytes present memory (start + ptr) =
      (optionalBytes present (memory.drop start) ptr).map fun found => start + found := by
  cases present with
  | false => rfl
  | true =>
    simp only [optionalBytes, if_true, read8_drop, Option.map_map, Function.comp_def,
      Nat.add_assoc]

theorem tsAdaptationFieldProc_drop (len : UInt8) :
    tsAdaptationFieldProc memory start len = tsAdaptationFieldProc (memory.drop start) 0 len := by
  have spliced (flags : UInt8) (ptr : Nat) : (if readBit flags 2 then start + ptr + 1 else start + ptr) =
      start + if readBit flags 2 then ptr + 1 else ptr := by
    split <;> rfl
  simp only [tsAdaptationFieldProc, read8_drop, Nat.add_zero, Nat.zero_add, optionalPcr_drop,
    optionalBytes_drop, spliced, Option.bind_eq_bind, Option.bind_map, Function.comp_def,
    Nat.add_sub_cancel_left, Nat.sub_zero, Option.pure_def]

end Moved

-- the optional fields of a given length
def clocksEnd (flags : UInt8) : Nat :=
  1 + (if readBit flags 4 then 6 else 0) + if readBit flags 3 then 6 else 0

def spliceEnd (flags : UInt8) : Nat :=
  if readBit flags 2 then clocksEnd flags + 1 else clocksEnd flags

def countedEnd (present : Bool) (field : List UInt8) (ptr : Nat) : Option Nat :=
  if present then field[ptr]?.map fun length => ptr + 1 + length.toNat else some ptr

/-- The size of the flagged fields, where the field shows their lengths. -/
def flaggedSize (field : List UInt8) : Option Nat := do
  let flags ← field[0]?
  let ptr ← countedEnd (readBit flags 1) field (spliceEnd flags)
  countedEnd (readBit flags 0) field ptr

theorem flaggedSize_flags {field : List UInt8} {flags : UInt8} (first : field[0]? = some flags) :
    flaggedSize field = (countedEnd (readBit flags 1) field (spliceEnd flags)).bind fun ptr =>
      countedEnd (readBit flags 0) field ptr := by
  simp [flaggedSize, first]

theorem readPcr_inside (bytes : List UInt8) (ptr : Nat) (inside : ptr + 5 < bytes.length) :
    ∃ clock, readPcr (ofBytes bytes) ptr = some clock := by
  cases read16_inside bytes ptr (by omega) with
  | intro high highRead =>
    cases read16_inside bytes (ptr + 2) (by omega) with
    | intro middle middleRead =>
      cases read16_inside bytes (ptr + 4) inside with
      | intro extension extensionRead =>
        have lowRead := read8_getD bytes (ptr + 4) (by omega)
        simp [readPcr, read32, highRead, middleRead, extensionRead, lowRead]

theorem readPcr_outside (field : List UInt8) (offset : Nat) (outside : field.length < offset + 6) :
    readPcr (ofBytes field) offset = none := by
  have last : read8 (ofBytes field) (offset + 5) = none := read8_none _ _ (by simp; omega)
  cases found : readPcr (ofBytes field) offset with
  | none => rfl
  | some clock =>
    obtain ⟨high, -, found⟩ := Option.bind_eq_some_iff.mp found
    obtain ⟨low, -, found⟩ := Option.bind_eq_some_iff.mp found
    obtain ⟨extension, read, -⟩ := Option.bind_eq_some_iff.mp found
    obtain ⟨first, -, read⟩ := Option.bind_eq_some_iff.mp read
    obtain ⟨second, read, -⟩ := Option.bind_eq_some_iff.mp read
    rw [last] at read
    cases read

theorem optionalPcr_inside (present : Bool) (field : List UInt8) (ptr : Nat)
    (inside : ptr + (if present then 6 else 0) ≤ field.length) :
    ∃ clock, optionalPcr present (ofBytes field) ptr =
      some (clock, ptr + if present then 6 else 0) ∧ clock.isSome = present := by
  cases present with
  | false => exact ⟨none, rfl, rfl⟩
  | true =>
    obtain ⟨clock, found⟩ := readPcr_inside field ptr (by
      rw [if_pos rfl] at inside
      omega)
    exact ⟨some clock, by simp [optionalPcr, found], rfl⟩

theorem optionalPcr_found {present : Bool} {field : List UInt8} {ptr behind : Nat}
    {clock : Option PcrClock} (start : ptr ≤ field.length)
    (found : optionalPcr present (ofBytes field) ptr = some (clock, behind)) :
    behind = ptr + (if present then 6 else 0) ∧ behind ≤ field.length := by
  cases present with
  | false =>
    obtain ⟨-, same⟩ := Prod.mk.inj (Option.some.inj found)
    exact ⟨same.symm, same ▸ start⟩
  | true =>
    by_cases inside : ptr + 6 ≤ field.length
    · obtain ⟨read, -, same⟩ := Option.map_eq_some_iff.mp found
      obtain ⟨-, same⟩ := Prod.mk.inj same
      exact ⟨same.symm, same ▸ inside⟩
    · simp [optionalPcr, readPcr_outside field ptr (by omega)] at found

theorem optionalBytes_field (present : Bool) (field : List UInt8) (ptr : Nat) :
    optionalBytes present (ofBytes field) ptr = countedEnd present field ptr := by
  rw [optionalBytes, countedEnd, read8_ofBytes]

/-- The flags byte, the flagged clocks and the flagged lengths lie within the field. -/
def FieldFits (field : List UInt8) : Prop :=
  ∃ flags ∈ field[0]?, clocksEnd flags ≤ field.length ∧ (flaggedSize field).isSome

theorem countedEnd_bound {present : Bool} {field : List UInt8} {ptr found : Nat}
    (counted : countedEnd present field ptr = some found) :
    found = ptr ∨ found ≤ field.length + 255 ∧ ptr < field.length := by
  cases present with
  | false => exact Or.inl (Option.some.inj counted).symm
  | true =>
    obtain ⟨length, read, same⟩ := Option.map_eq_some_iff.mp counted
    obtain ⟨inside, -⟩ := List.getElem?_eq_some_iff.mp read
    have byte := length.toNat_lt
    right
    constructor <;> omega

-- A length byte lies within the field, so the fields end less than 256 bytes behind it.
theorem flaggedSize_bound {field : List UInt8} {flags : UInt8} {size : Nat}
    (first : field[0]? = some flags) (clocks : clocksEnd flags ≤ field.length)
    (found : flaggedSize field = some size) : size ≤ field.length + 255 := by
  rw [flaggedSize_flags first] at found
  obtain ⟨ptr, counted, found⟩ := Option.bind_eq_some_iff.mp found
  have splice : spliceEnd flags ≤ field.length + 1 := by
    unfold spliceEnd
    split <;> omega
  have middle := countedEnd_bound counted
  have last := countedEnd_bound found
  omega

theorem size_remainder {used length : Nat} (short : length ≤ 255) (bound : used ≤ length + 255) :
    (if UInt8.ofNat length - UInt8.ofNat used ≠ 0 then (-1 : Int) else 0) = 0 ↔ used = length := by
  have rest : UInt8.ofNat length - UInt8.ofNat used = 0 ↔ used % 256 = length := by
    rw [UInt8.sub_eq_iff_eq_add, UInt8.zero_add, ← UInt8.toNat_inj, UInt8.toNat_ofNat',
      UInt8.toNat_ofNat']
    omega
  by_cases same : used = length
  · simp [same]
  · have some : UInt8.ofNat length - UInt8.ofNat used ≠ 0 := fun equal => by
      have turned := rest.mp equal
      omega
    simp [some, same]

theorem tsAdaptationFieldProc_clocks {memory : Block} {flags : UInt8} {pcr opcr : Option PcrClock}
    {first second : Nat} (len : UInt8) (flagsRead : read8 memory 0 = some flags)
    (pcrRead : optionalPcr (readBit flags 4) memory 1 = some (pcr, first))
    (opcrRead : optionalPcr (readBit flags 3) memory first = some (opcr, second)) :
    tsAdaptationFieldProc memory 0 len =
      (optionalBytes (readBit flags 1) memory
        (if readBit flags 2 then second + 1 else second)).bind fun ptr =>
          (optionalBytes (readBit flags 0) memory ptr).bind fun ptr =>
            some (pcr, if len - UInt8.ofNat ptr ≠ 0 then -1 else 0) := by
  simp only [tsAdaptationFieldProc, flagsRead, Option.bind_eq_bind, Option.bind_some, Nat.zero_add,
    pcrRead, opcrRead, Nat.sub_zero, Option.pure_def]

theorem tsAdaptationFieldProc_fits {field : List UInt8} {flags : UInt8} {size : Nat}
    (first : field[0]? = some flags) (clocks : clocksEnd flags ≤ field.length)
    (found : flaggedSize field = some size) (len : UInt8) :
    ∃ pcr, tsAdaptationFieldProc (ofBytes field) 0 len =
      some (pcr, if len - UInt8.ofNat size ≠ 0 then -1 else 0) ∧
        pcr.isSome = readBit flags 4 := by
  rw [flaggedSize_flags first] at found
  obtain ⟨ptr, counted, found⟩ := Option.bind_eq_some_iff.mp found
  obtain ⟨pcr, pcrRead, present⟩ := optionalPcr_inside (readBit flags 4) field 1 (by
    unfold clocksEnd at clocks
    omega)
  obtain ⟨opcr, opcrRead, -⟩ := optionalPcr_inside (readBit flags 3) field _ clocks
  refine ⟨pcr, ?_, present⟩
  rw [← optionalBytes_field] at counted found
  have flagsRead : read8 (ofBytes field) 0 = some flags := by rw [read8_ofBytes, first]
  have fields := tsAdaptationFieldProc_clocks len flagsRead pcrRead opcrRead
  rw [fields]
  change (optionalBytes _ _ (spliceEnd flags)).bind _ = _
  rw [counted, Option.bind_some, found, Option.bind_some]

theorem tsAdaptationFieldProc_reads {field : List UInt8} {len : UInt8}
    {result : Option PcrClock × Int}
    (found : tsAdaptationFieldProc (ofBytes field) 0 len = some result) : FieldFits field := by
  obtain ⟨flags, flagsRead, found⟩ := Option.bind_eq_some_iff.mp found
  obtain ⟨⟨pcr, first⟩, pcrRead, found⟩ := Option.bind_eq_some_iff.mp found
  obtain ⟨⟨opcr, second⟩, opcrRead, found⟩ := Option.bind_eq_some_iff.mp found
  obtain ⟨third, privateRead, found⟩ := Option.bind_eq_some_iff.mp found
  obtain ⟨last, extensionRead, -⟩ := Option.bind_eq_some_iff.mp found
  rw [read8_ofBytes] at flagsRead
  obtain ⟨nonempty, -⟩ := List.getElem?_eq_some_iff.mp flagsRead
  obtain ⟨firstEnd, firstInside⟩ := optionalPcr_found (by omega) pcrRead
  obtain ⟨secondEnd, secondInside⟩ := optionalPcr_found firstInside opcrRead
  have clocks : second = clocksEnd flags := by
    rw [secondEnd, firstEnd, clocksEnd]
  rw [clocks, optionalBytes_field] at privateRead
  rw [optionalBytes_field] at extensionRead
  have size : flaggedSize field = some last := by
    rw [flaggedSize_flags flagsRead]
    exact Option.bind_eq_some_iff.mpr ⟨third, privateRead, extensionRead⟩
  exact ⟨flags, flagsRead, clocks ▸ secondInside, by rw [size]; rfl⟩

/-- What holds where the field alone is taken for one: the result depends on no other byte, the
clock of the PID moves only with a PCR in the field, and 0 is returned for a filled field. -/
def FieldOnly (field : List UInt8) : Prop :=
  ∃ pcr ret,
    (∀ front payload : Block, tsAdaptationFieldProc (front ++ (ofBytes field ++ payload))
      front.length (UInt8.ofNat field.length) = some (pcr, ret)) ∧
    (∀ (dev after : PidOps) (pktLen : UInt8) (head : TsHeader),
      head.pcr = pcr.map calcPcrClock → countPacket dev pktLen head = some after →
      (after.pcr, after.bitsIn, after.bitrate) ≠ (dev.pcr, dev.bitsIn, dev.bitrate) →
        7 ≤ field.length ∧ ∃ flags ∈ field[0]?, readBit flags 4 = true) ∧
    (ret = 0 ↔ flaggedSize field = some field.length)

theorem clock_unmoved {dev after : PidOps} {pktLen : UInt8} {head : TsHeader}
    (clock : head.pcr = none) (counted : countPacket dev pktLen head = some after) :
    (after.pcr, after.bitsIn, after.bitrate) = (dev.pcr, dev.bitsIn, dev.bitrate) := by
  rw [countPacket, clock] at counted
  rw [← Option.some.inj counted]
  unfold countError
  split_ifs <;> rfl

theorem fieldOnly_of_fits {field : List UInt8} (short : field.length ≤ 255)
    (fits : FieldFits field) : FieldOnly field := by
  obtain ⟨flags, first, clocks, sized⟩ := fits
  obtain ⟨size, found⟩ := Option.isSome_iff_exists.mp sized
  obtain ⟨pcr, result, present⟩ :=
    tsAdaptationFieldProc_fits first clocks found (UInt8.ofNat field.length)
  refine ⟨pcr, if UInt8.ofNat field.length - UInt8.ofNat size ≠ 0 then -1 else 0, ?_, ?_, ?_⟩
  · intro front payload
    rw [tsAdaptationFieldProc_drop, List.drop_left]
    exact stable_tsAdaptationFieldProc 0 _ _ payload _ result
  · intro dev after pktLen head clock counted moved
    by_cases flagged : readBit flags 4 = true
    · refine ⟨?_, flags, first, flagged⟩
      unfold clocksEnd at clocks
      rw [if_pos flagged] at clocks
      omega
    · have none : pcr = none := by
        rw [← Option.not_isSome_iff_eq_none, present]
        exact flagged
      rw [none] at clock
      exact absurd (clock_unmoved clock counted) moved
  · rw [size_remainder short (flaggedSize_bound first clocks found), found, Option.some.injEq]

/-- The field alone is interpreted exactly if it holds its flags byte, the clocks that the flags
announce and the length bytes of the fields of variable length. -/
theorem fieldOnly_iff (field : List UInt8) (short : field.length ≤ 255) :
    FieldOnly field ↔ FieldFits field := by
  constructor
  · intro only
    obtain ⟨pcr, ret, result, -, -⟩ := only
    have alone := result [] []
    rw [List.nil_append, List.append_nil] at alone
    exact tsAdaptationFieldProc_reads alone
  · exact fieldOnly_of_fits short

theorem fieldOnly_stuffing : FieldOnly [0x00, 0xff] :=
  (fieldOnly_iff [0x00, 0xff] (by decide)).mpr ⟨0x00, rfl, by decide, by decide⟩

-- adaptation_field_length 0: the byte behind it is taken for the flags
theorem empty_field_read : ¬ ∀ field : List UInt8, field.length ≤ 255 → FieldOnly field := by
  intro right
  obtain ⟨pcr, ret, result, -, -⟩ := right [] (by decide)
  have alone := result [] []
  cases alone

end TsAnalyze.Demux
