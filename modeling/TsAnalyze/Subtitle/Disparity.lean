import TsAnalyze.Subtitle.SegmentSyntax

set_option autoImplicit false

namespace TsAnalyze.Subtitle

open Memory Tables

-- the bit of number_of_subregions_minus_1 that is read
def subregionBit (flags : UInt8) : Nat :=
  readBits 8 flags.toNat 1 6

-- the position and the shift of a sub-region
def shiftSize (minus1 : Nat) : Nat :=
  (if minus1 ≠ 0 then 4 else 0) + 2

def sequenceSize (page : Option Nat) : Nat :=
  page.elim 0 fun periods => 5 + 2 * periods

def subRegionSize (page : Option Nat) (minus1 : Nat) : Nat :=
  shiftSize minus1 + sequenceSize page

def regionSize (page : Option Nat) (flags : UInt8) : Nat :=
  1 + (subregionBit flags + 1) * subRegionSize page (subregionBit flags)

/-- division_period_count of a sub-region's own sequence is no less than that of the page. -/
def PeriodsHeld (page : Option Nat) (memory : Block) : Prop :=
  ∀ periods ∈ page, ∃ count, read8 memory 4 = some count ∧ periods ≤ count.toNat

section Readers

theorem readBits_byte (value bitlen off : Nat) (fits : value < 256) :
    readBits 8 (UInt8.ofNat value).toNat bitlen off =
      value / 2 ^ (8 - off - bitlen) % 2 ^ bitlen := by
  rw [readBits_low, UInt8.toNat_ofNat_of_lt' fits]

theorem low_byte (memory : Block) (offset value : Nat) (found : read32 memory offset = some value) :
    ∃ byte, read8 memory (offset + 3) = some byte ∧ readBits 32 value 8 24 = byte.toNat := by
  obtain ⟨high, highRead, later⟩ := Option.bind_eq_some_iff.mp found
  obtain ⟨low, lowRead, same⟩ := Option.bind_eq_some_iff.mp later
  obtain ⟨third, thirdRead, last⟩ := Option.bind_eq_some_iff.mp lowRead
  obtain ⟨fourth, fourthRead, -⟩ := Option.bind_eq_some_iff.mp last
  have sum := read16_eq memory (offset + 2) third fourth thirdRead fourthRead
  obtain rfl := Option.some.inj (lowRead.symm.trans sum)
  obtain rfl := Option.some.inj same
  have bound := fourth.toNat_lt
  have below := third.toNat_lt
  refine ⟨fourth, fourthRead, ?_⟩
  rw [readBits_low, join_low high _ 16 (by omega)]
  omega

theorem readSequenceHead_steps (cursor : Cursor) :
    Steps (readSequenceHead cursor) cursor 5 (fun sequence => ∃ count, read8 cursor.pdata 4 = some count ∧
      sequence.divisionPeriodCount = count.toNat) True := by
  have steps : Steps (readSequenceHead cursor) cursor 5 _ True := steps_readAs fun readable => by
    obtain ⟨length, lengthRead⟩ := readable 0 (by omega)
    obtain ⟨high, highRead⟩ := readable.read16 1 (by omega)
    obtain ⟨low, lowRead⟩ := readable.read16 3 (by omega)
    exact ⟨_, by simp [read32, lengthRead, highRead, lowRead]; rfl⟩
  apply steps.imp
  intro sequence found
  obtain ⟨length, -, later⟩ := Option.bind_eq_some_iff.mp found
  obtain ⟨interval, read, same⟩ := Option.bind_eq_some_iff.mp later
  obtain rfl := Option.some.inj same
  exact low_byte cursor.pdata 1 interval read

theorem readSequence_steps (periods : Nat → Nat) (cursor : Cursor) (count : UInt8)
    (known : read8 cursor.pdata 4 = some count) :
    Steps (readSequence periods cursor) cursor (5 + 2 * periods count.toNat)
      (·.divisionPeriodCount = count.toNat) (periods count.toNat ≤ count.toNat) := by
  have steps : Steps (readSequence periods cursor) cursor (5 + (2 * periods count.toNat + 0))
      (·.divisionPeriodCount = count.toNat)
      (True ∧ periods count.toNat ≤ count.toNat ∧ True ∧ True) := by
    apply steps_bind (readSequenceHead_steps cursor)
    intro sequence found
    obtain ⟨other, read, same⟩ := found
    obtain rfl := Option.some.inj (known.symm.trans read)
    apply steps_required
    dsimp only
    rw [same]
    apply steps_guard
    apply steps_bind (steps_readAs fun readable => readable.readBytes 0 _ (by omega))
    exact fun _ _ => steps_pure rfl
  exact steps.iff (by simp)

theorem readSubSequence_steps (page : Option Nat) (cursor : Cursor) :
    Steps (readSubSequence page cursor) cursor (sequenceSize page) (fun _ => True)
      (PeriodsHeld page cursor.pdata) := by
  cases page with
  | none => exact (steps_pure trivial).iff (by simp [PeriodsHeld])
  | some periods =>
    cases known : read8 cursor.pdata 4 with
    | none =>
      constructor
      · intro readable
        obtain ⟨count, found⟩ := readable 4 (by simp [sequenceSize]; omega)
        exact absurd (known.symm.trans found) (by simp)
      · have lost : Ends (readSequence (fun _ => periods) cursor) fun _ => False := by
          apply ends_bind (readSequenceHead_steps cursor).ends
          intro sequence found
          obtain ⟨count, read, -⟩ := found.2.1
          exact absurd (known.symm.trans read) (by simp)
        exact ends_bind lost fun _ never => never.elim
    | some count =>
      change Steps _ cursor (5 + 2 * periods + 0) _ _
      apply Steps.iff
      · apply steps_bind (readSequence_steps (fun _ => periods) cursor count known)
        exact fun _ _ => steps_pure trivial
      · simp [PeriodsHeld, known]

theorem readPosition_steps (minus1 : Nat) (cursor : Cursor) :
    Steps (readPosition minus1 cursor) cursor (if minus1 ≠ 0 then 4 else 0) (fun _ => True)
      True := by
  rw [readPosition]
  by_cases several : minus1 ≠ 0
  · rw [if_pos several, if_pos several]
    change Steps _ cursor (4 + 0) _ _
    apply Steps.iff
    · apply steps_bind
      · apply steps_readAs
        intro readable
        obtain ⟨horizontal, horizontalRead⟩ := readable.read16 0 (by omega)
        obtain ⟨width, widthRead⟩ := readable.read16 2 (by omega)
        exact ⟨(horizontal, width), by simp [horizontalRead, widthRead]⟩
      · exact fun _ _ => steps_pure trivial
    · rw [and_true]
  · rw [if_neg several, if_neg several]
    exact steps_pure trivial

theorem readShift_steps (cursor : Cursor) :
    Steps (readShift cursor) cursor 2 (fun _ => True) True := by
  have steps : Steps (readShift cursor) cursor 2 _ True := steps_readAs fun readable => by
    obtain ⟨integerPart, integerRead⟩ := readable 0 (by omega)
    obtain ⟨fractionalPart, fractionalRead⟩ := readable 1 (by omega)
    exact ⟨_, by simp [integerRead, fractionalRead]; rfl⟩
  exact steps.imp fun _ _ => trivial

theorem readSubRegion_steps (page : Option Nat) (minus1 : Nat) (cursor : Cursor) :
    Steps (readSubRegion page minus1 cursor) cursor (subRegionSize page minus1) (fun _ => True)
      (PeriodsHeld page (cursor.pdata.drop (shiftSize minus1))) := by
  have total : subRegionSize page minus1 =
      (if minus1 ≠ 0 then 4 else 0) + (2 + (sequenceSize page + 0)) := by
    rw [subRegionSize, shiftSize]
    omega
  rw [total]
  apply Steps.iff
  · apply steps_bind (readPosition_steps minus1 cursor)
    intro position _
    apply steps_bind (readShift_steps _)
    intro shift _
    apply steps_bind (readSubSequence_steps page _)
    exact fun _ _ => steps_pure trivial
  · simp [Cursor.step, shiftSize]

-- division_period_count of each sub-region
def AllHeld (page : Option Nat) (minus1 count : Nat) (memory : Block) : Prop :=
  ∀ i < count, PeriodsHeld page (memory.drop (i * subRegionSize page minus1 + shiftSize minus1))

theorem allHeld_succ (page : Option Nat) (minus1 count : Nat) (memory : Block) :
    AllHeld page minus1 (count + 1) memory ↔
      PeriodsHeld page (memory.drop (shiftSize minus1)) ∧
        AllHeld page minus1 count (memory.drop (subRegionSize page minus1)) := by
  have shifted (i : Nat) : (memory.drop (subRegionSize page minus1)).drop
      (i * subRegionSize page minus1 + shiftSize minus1) =
        memory.drop ((i + 1) * subRegionSize page minus1 + shiftSize minus1) := by
    rw [List.drop_drop, Nat.succ_mul]
    congr 1
    omega
  constructor
  · intro held
    refine ⟨by simpa using held 0 (by omega), fun i inside => ?_⟩
    rw [shifted]
    exact held (i + 1) (by omega)
  · intro held i inside
    cases i with
    | zero => simpa using held.1
    | succ i =>
      rw [← shifted]
      exact held.2 i (by omega)

theorem readSubRegions_steps (page : Option Nat) (minus1 count : Nat) (cursor : Cursor) :
    Steps (readSubRegions page minus1 count cursor) cursor (count * subRegionSize page minus1)
      (fun _ => True) (AllHeld page minus1 count cursor.pdata) := by
  induction count generalizing cursor with
  | zero =>
    rw [Nat.zero_mul]
    exact (steps_pure trivial).iff (by simp [AllHeld])
  | succ count ih =>
    have total : (count + 1) * subRegionSize page minus1 =
        subRegionSize page minus1 + (count * subRegionSize page minus1 + 0) := by
      rw [Nat.succ_mul]
      omega
    rw [total]
    apply Steps.iff
    · apply steps_bind (readSubRegion_steps page minus1 cursor)
      intro first _
      apply steps_bind (ih _)
      exact fun _ _ => steps_pure trivial
    · rw [and_true, allHeld_succ]
      rfl

-- with the bit of the byte behind region_id
theorem readDisparityRegion_steps (page : Option Nat) (cursor : Cursor) (flags : UInt8)
    (known : read8 cursor.pdata 1 = some flags) :
    Steps (readDisparityRegion page cursor) cursor (regionSize page flags) (fun _ => True)
      (AllHeld page (subregionBit flags) (subregionBit flags + 1) (cursor.pdata.drop 1)) := by
  change Steps _ cursor (1 + ((subregionBit flags + 1) *
    subRegionSize page (subregionBit flags) + 0)) _ _
  have next : read8 (cursor.step 1).pdata 0 = some flags := by
    rw [← known]
    exact read8_drop cursor.pdata 1 0
  apply Steps.iff
  · apply steps_required
    apply steps_bind (steps_readAs fun readable => readable 0 (by omega))
    intro regionId _
    apply steps_read next
    apply steps_required
    apply steps_bind (readSubRegions_steps page (subregionBit flags) _ _)
    exact fun _ _ => steps_pure trivial
  · rw [true_and, and_true]
    rfl

end Readers

/-- Bytes that the loop takes for one region. -/
structure Taken (page : Option Nat) (bytes : List UInt8) : Prop where
  sized : bytes.length = regionSize page (bytes.getD 1 0)
  held : AllHeld page (subregionBit (bytes.getD 1 0)) (subregionBit (bytes.getD 1 0) + 1)
    (ofBytes (bytes.drop 1))

/-- The bytes of the regions fall apart into what the loop takes for regions. -/
def Lands (page : Option Nat) (bytes : List UInt8) : Prop :=
  ∃ pieces : List (List UInt8), (∀ piece ∈ pieces, Taken page piece) ∧ pieces.flatten = bytes

section Regions

variable {page : Option Nat}

theorem periodsHeld_append (front behind : Block) (inside : sequenceSize page ≤ front.length) :
    PeriodsHeld page (front ++ behind) ↔ PeriodsHeld page front := by
  cases page with
  | none => simp [PeriodsHeld]
  | some periods =>
    have size : 5 + 2 * periods ≤ front.length := inside
    rw [PeriodsHeld, PeriodsHeld, read8_append_left front behind 4 (by omega)]

theorem allHeld_append (minus1 count : Nat) (front behind : Block)
    (sized : front.length = count * subRegionSize page minus1) :
    AllHeld page minus1 count (front ++ behind) ↔ AllHeld page minus1 count front := by
  apply forall₂_congr
  intro i inside
  have most : (i + 1) * subRegionSize page minus1 ≤ count * subRegionSize page minus1 :=
    Nat.mul_le_mul_right _ inside
  rw [Nat.succ_mul] at most
  have parts : subRegionSize page minus1 = shiftSize minus1 + sequenceSize page := rfl
  rw [List.drop_append_of_le_length (by omega)]
  apply periodsHeld_append
  rw [List.length_drop]
  omega

theorem regionSize_ge (page : Option Nat) (flags : UInt8) : 3 ≤ regionSize page flags := by
  have size : 2 ≤ subRegionSize page (subregionBit flags) := by
    rw [subRegionSize, shiftSize]
    omega
  have product := Nat.mul_le_mul (Nat.le_add_left 1 (subregionBit flags)) size
  rw [regionSize]
  omega

theorem Taken.passes {piece : List UInt8} (taken : Taken page piece) :
    Passes (readDisparityRegion page) piece fun _ => True := by
  have least := regionSize_ge page (piece.getD 1 0)
  have sized := taken.sized
  apply Steps.passes _ taken.held
  intro behind len
  have known : read8 (ofBytes piece ++ behind) 1 = some (piece.getD 1 0) := by
    rw [read8_append_left _ _ _ (by rw [ofBytes_length]; omega)]
    exact read8_getD piece 1 (by omega)
  rw [sized]
  apply (readDisparityRegion_steps page ⟨ofBytes piece ++ behind, len⟩ _ known).iff
  dsimp only
  rw [List.drop_append_of_le_length (by rw [ofBytes_length]; omega), ofBytes_drop]
  apply allHeld_append
  rw [ofBytes_length, List.length_drop, sized, regionSize]
  omega

theorem readDisparityRegion_ends (bytes : List UInt8) (behind : Block) (len : Nat) :
    Ends (readDisparityRegion page ⟨ofBytes bytes ++ behind, len⟩) fun result =>
      ∃ size, result.2 = (Cursor.mk (ofBytes bytes ++ behind) len).step size ∧
        (size ≤ bytes.length → Taken page (bytes.take size)) := by
  cases known : read8 (ofBytes bytes ++ behind) 1 with
  | none =>
    apply ends_bind ends_require
    intro _ _
    apply ends_bind ends_readAs
    intro regionId moved
    apply ends_bind ends_reading
    intro flags found
    rw [moved.1, Cursor.step, read8_drop] at found
    exact absurd (known.symm.trans found) (by simp)
  | some flags =>
    have least := regionSize_ge page flags
    apply (readDisparityRegion_steps page ⟨ofBytes bytes ++ behind, len⟩ flags known).ends.imp
    intro result ended
    refine ⟨regionSize page flags, ended.1, fun inside => ?_⟩
    have front : (bytes.take (regionSize page flags)).length = regionSize page flags :=
      List.length_take_of_le inside
    have split : ofBytes bytes ++ behind = ofBytes (bytes.take (regionSize page flags)) ++
        (ofBytes (bytes.drop (regionSize page flags)) ++ behind) := by
      rw [← List.append_assoc, ← ofBytes_append, List.take_append_drop]
    have second : (bytes.take (regionSize page flags)).getD 1 0 = flags := by
      rw [split, read8_append_left _ _ _ (by rw [ofBytes_length]; omega),
        read8_getD _ 1 (by omega)] at known
      exact Option.some.inj known
    have held := ended.2.2
    dsimp only at held
    rw [split, List.drop_append_of_le_length (by rw [ofBytes_length]; omega), ofBytes_drop,
      allHeld_append _ _ _ _ (by rw [ofBytes_length, List.length_drop, front, regionSize]; omega)]
      at held
    exact ⟨by rw [front, second], by rw [second]; exact held⟩

end Regions

section Loop

variable {page : Option Nat} {bytes : List UInt8} {behind : Block} {len length : Nat}
  (total : len + bytes.length = length)
include total

theorem regionLoop_lands (lands : Lands page bytes) (more : 0 < behind.length) :
    ∃ found, Goes (cursorWhile (fun slen => decide (slen < length)) (readDisparityRegion page)
      length ⟨ofBytes bytes ++ behind, len⟩) (found, ⟨behind, length⟩) := by
  obtain ⟨pieces, taken, same⟩ := lands
  have whole : pieces.flatMap id = bytes := by rwa [List.flatMap_id]
  have nonempty (piece : List UInt8) (listed : piece ∈ pieces) : 0 < piece.length := by
    have least := regionSize_ge page (piece.getD 1 0)
    rw [(taken piece listed).sized]
    omega
  have few : pieces.length ≤ (pieces.flatMap id).length := length_le_flatMap nonempty
  rw [← whole] at total ⊢
  exact goes_while pieces (fun piece listed => (taken piece listed).passes) nonempty length len
    (by omega) total behind more

theorem regionLoop_ends :
    Ends (cursorWhile (fun slen => decide (slen < length)) (readDisparityRegion page) length
      ⟨ofBytes bytes ++ behind, len⟩) fun result => result.2.len = length → Lands page bytes :=
  ends_pieces (fun bytes len => readDisparityRegion_ends bytes behind len) length bytes len total

end Loop

section Signalling

namespace SentSequence

theorem encode_length (sequence : SentSequence) :
    sequence.encode.length = 5 + 2 * sequence.periods.length := by
  simp only [encode, List.length_append, List.length_cons, List.length_nil, sequence.interval.2,
    raws_length]

theorem encode_count (sequence : SentSequence) (behind : Block) :
    read8 (ofBytes sequence.encode ++ behind) 4 =
      some (UInt8.ofNat sequence.periods.length) := by
  obtain ⟨first, second, third, same⟩ := List.length_eq_three.mp sequence.interval.2
  rw [encode, same]
  rfl

theorem readPageSequence_steps (sequence : Option SentSequence) (behind : Block) (len : Nat) :
    Steps (readPageSequence sequence.isSome.toNat
        ⟨ofBytes (sequence.elim [] encode) ++ behind, len⟩)
      ⟨ofBytes (sequence.elim [] encode) ++ behind, len⟩ (sequence.elim [] encode).length
      (fun read => read.map ShiftUpdateSequence.divisionPeriodCount =
        sequence.map (·.periods.length)) True := by
  cases sequence with
  | none => exact steps_pure rfl
  | some sequence =>
    have few : (UInt8.ofNat sequence.periods.length).toNat = sequence.periods.length :=
      UInt8.toNat_ofNat_of_lt' sequence.few
    have size : sequence.encode.length =
        5 + 2 * id (UInt8.ofNat sequence.periods.length).toNat + 0 := by
      rw [few]
      exact sequence.encode_length
    change Steps (readPageSequence 1 ⟨ofBytes sequence.encode ++ behind, len⟩)
      ⟨ofBytes sequence.encode ++ behind, len⟩ sequence.encode.length _ _
    rw [readPageSequence, if_pos rfl, size]
    apply Steps.iff
    · apply steps_bind (readSequence_steps id _ _ (sequence.encode_count behind))
      intro read same
      apply steps_pure
      rw [Option.map_some, same, few]
      rfl
    · simp

end SentSequence

namespace SentDisparity

def pagePeriods (disparity : SentDisparity) : Option Nat :=
  disparity.sequence.map (·.periods.length)

def regionBytes (disparity : SentDisparity) : List UInt8 :=
  disparity.regions.flatMap SentRegion.encode

theorem head_flag (disparity : SentDisparity) :
    readBits 8 (UInt8.ofNat (disparity.version * 2 ^ 4 + disparity.sequence.isSome.toNat * 2 ^ 3 +
      disparity.reserved)).toNat 1 4 = disparity.sequence.isSome.toNat := by
  have version := disparity.versionFits
  have reserved := disparity.reservedFits
  have flag := Bool.toNat_le disparity.sequence.isSome
  rw [readBits_byte _ _ _ (by omega)]
  omega

theorem readDisparityHead_steps (disparity : SentDisparity) (behind : Block) (len : Nat) :
    Steps (readDisparityHead ⟨ofBytes disparity.head ++ behind, len⟩)
      ⟨ofBytes disparity.head ++ behind, len⟩ 2
      (fun read => read.pageFlag = disparity.sequence.isSome.toNat) True := by
  have steps : Steps (readDisparityHead ⟨ofBytes disparity.head ++ behind, len⟩)
      ⟨ofBytes disparity.head ++ behind, len⟩ 2 _ True := steps_readAs fun _ => ⟨_, rfl⟩
  apply steps.imp
  intro read found
  obtain rfl := Option.some.inj found
  exact disparity.head_flag

end SentDisparity

section Parse

variable (disparity : SentDisparity) {behind : Block}

theorem SentDisparity.encode_split :
    ofBytes disparity.encode ++ behind = ofBytes disparity.head ++
      (ofBytes (disparity.sequence.elim [] SentSequence.encode) ++
        (ofBytes disparity.regionBytes ++ behind)) := by
  simp [SentDisparity.encode, SentDisparity.regionBytes]

theorem SentDisparity.encode_total :
    0 + disparity.head.length + (disparity.sequence.elim [] SentSequence.encode).length +
      disparity.regionBytes.length = disparity.encode.length := by
  simp only [SentDisparity.encode, SentDisparity.regionBytes, List.length_append]
  omega

theorem parseDisparitySignalling_goes (lands : Lands disparity.pagePeriods disparity.regionBytes)
    (more : 0 < behind.length) :
    ∃ found, Goes (parseDisparitySignalling disparity.encode.length
      ⟨ofBytes disparity.encode ++ behind, 0⟩) (found, ⟨behind, disparity.encode.length⟩) := by
  rw [disparity.encode_split]
  have some : 0 < (ofBytes disparity.regionBytes ++ behind).length := by
    rw [List.length_append]
    omega
  obtain ⟨head, flag, headGoes⟩ := Steps.passes disparity.readDisparityHead_steps trivial
    (ofBytes (disparity.sequence.elim [] SentSequence.encode) ++
      (ofBytes disparity.regionBytes ++ behind)) 0 (by rw [List.length_append]; omega)
  obtain ⟨sequence, periods, sequenceGoes⟩ := Steps.passes
    (SentSequence.readPageSequence_steps disparity.sequence) trivial
    (ofBytes disparity.regionBytes ++ behind) (0 + disparity.head.length) some
  obtain ⟨regions, loop⟩ := regionLoop_lands disparity.encode_total lands more
  apply Exists.intro
  apply goes_required
  apply goes_bind headGoes
  dsimp only
  rw [flag]
  apply goes_bind sequenceGoes
  dsimp only
  rw [periods]
  exact goes_bind loop (goes_pure _)

theorem parseDisparitySignalling_ends
    (astray : ¬Lands disparity.pagePeriods disparity.regionBytes) :
    Ends (parseDisparitySignalling disparity.encode.length
      ⟨ofBytes disparity.encode ++ behind, 0⟩) fun result =>
        result.2.len ≠ disparity.encode.length := by
  rw [disparity.encode_split]
  apply ends_bind ends_require
  intro _ _
  apply ends_bind (disparity.readDisparityHead_steps _ 0).ends
  intro head ended
  obtain ⟨moved, flag, -⟩ := ended
  rw [show 2 = disparity.head.length from rfl, Cursor.step_bytes] at moved
  dsimp only
  rw [flag, moved]
  apply ends_bind (SentSequence.readPageSequence_steps disparity.sequence _ _).ends
  intro sequence ended
  obtain ⟨moved, periods, -⟩ := ended
  rw [Cursor.step_bytes] at moved
  rw [periods, moved]
  apply ends_bind (regionLoop_ends disparity.encode_total)
  intro regions lands
  exact ends_pure fun exact => astray (lands exact)

end Parse

end Signalling

end TsAnalyze.Subtitle
