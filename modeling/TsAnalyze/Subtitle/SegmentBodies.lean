import TsAnalyze.Subtitle.Disparity

set_option autoImplicit false

namespace TsAnalyze.Subtitle

open Memory Tables

section Compositions

theorem readDisplayHead_passes (display : SentDisplay) :
    Passes readDisplayHead ([UInt8.ofNat (display.version * 2 ^ 4 +
        display.window.isSome.toNat * 2 ^ 3 + display.reserved)] ++ display.size.1)
      fun read => read.displayWindowFlag = display.window.isSome.toNat := by
  have sized : ([UInt8.ofNat (display.version * 2 ^ 4 +
      display.window.isSome.toNat * 2 ^ 3 + display.reserved)] ++ display.size.1).length = 5 := by
    rw [List.length_append, display.size.2]
    rfl
  have passes : Passes readDisplayHead _ _ := passes_fixed sized fun memory readable =>
    defined_bind (readable 0 (by omega)) fun flags =>
    defined_bind (readable.read16 1 (by omega)) fun width =>
    defined_bind (readable.read16 3 (by omega)) fun height => ⟨_, rfl⟩
  apply passes.imp
  intro read found
  obtain ⟨behind, found⟩ := found
  obtain ⟨flags, flagsRead, later⟩ := Option.bind_eq_some_iff.mp found
  obtain ⟨width, -, later⟩ := Option.bind_eq_some_iff.mp later
  obtain ⟨height, -, same⟩ := Option.bind_eq_some_iff.mp later
  obtain rfl := Option.some.inj flagsRead
  obtain rfl := Option.some.inj same
  have version := display.versionFits
  have reserved := display.reservedFits
  have flag := Bool.toNat_le display.window.isSome
  dsimp only
  rw [readBits_byte _ _ _ (by omega)]
  omega

theorem readWindowOf_passes (window : Option (Raw 8)) (dds : DisplayDefinition)
    (flag : dds.displayWindowFlag = window.isSome.toNat) :
    Passes (readWindowOf dds) (encodeRaw window) fun _ => True := by
  cases window with
  | none =>
    have plain : readWindowOf dds = fun cursor => pure (.displayDefinition dds, cursor) := by
      funext cursor
      exact if_neg (by simp [flag])
    rw [plain]
    exact passes_pure trivial
  | some window =>
    have read : readWindowOf dds = fun cursor => readDisplayWindow cursor >>= fun found =>
        pure (.displayDefinition { dds with window := some found.1 }, found.2) := by
      funext cursor
      exact if_pos (by simp [flag])
    have whole : encodeRaw (some window) = window.1 ++ [] := (List.append_nil _).symm
    rw [read, whole]
    apply passes_bind (passes_fixed window.2 fun memory readable =>
      defined_bind (readable.read16 0 (by omega)) fun horizontalMinimum =>
      defined_bind (readable.read16 2 (by omega)) fun horizontalMaximum =>
      defined_bind (readable.read16 4 (by omega)) fun verticalMinimum =>
      defined_bind (readable.read16 6 (by omega)) fun verticalMaximum => ⟨_, rfl⟩)
    intro found _
    dsimp only
    exact passes_pure trivial

theorem parseDisplayDefinition_passes (display : SentDisplay) :
    Passes parseDisplayDefinition display.encode fun _ => True := by
  apply passes_required
  apply passes_bind (readDisplayHead_passes display)
  intro dds flag
  exact readWindowOf_passes display.window dds flag

theorem readPageRegion_passes (region : Raw 6) :
    Passes readPageRegion region.1 fun _ => True := by
  have passes : Passes readPageRegion _ _ := passes_fixed region.2 fun memory readable =>
    defined_bind (readable 0 (by omega)) fun regionId =>
    defined_bind (readable.read16 2 (by omega)) fun horizontal =>
    defined_bind (readable.read16 4 (by omega)) fun vertical => ⟨_, rfl⟩
  exact passes.imp fun _ _ => trivial

theorem readObjectHead_passes (object : SentObject) :
    Passes readObjectHead (object.objectId.1 ++ encode16 (object.objectType * 2 ^ 14 +
        object.position) ++ object.vertical.1) fun read => read.objectType = object.objectType := by
  have sized : (object.objectId.1 ++ encode16 (object.objectType * 2 ^ 14 + object.position) ++
      object.vertical.1).length = 6 := by
    rw [List.length_append, List.length_append, object.objectId.2, object.vertical.2]
    rfl
  have passes : Passes readObjectHead _ _ := passes_fixed sized fun memory readable =>
    defined_bind (readable.read16 0 (by omega)) fun objectId =>
    defined_bind (readable.read16 2 (by omega)) fun horizontal =>
    defined_bind (readable.read16 4 (by omega)) fun vertical => ⟨_, rfl⟩
  apply passes.imp
  intro read found
  obtain ⟨behind, found⟩ := found
  obtain ⟨objectId, -, later⟩ := Option.bind_eq_some_iff.mp found
  obtain ⟨horizontal, horizontalRead, later⟩ := Option.bind_eq_some_iff.mp later
  obtain ⟨vertical, -, same⟩ := Option.bind_eq_some_iff.mp later
  obtain rfl := Option.some.inj same
  have type := object.typeFits
  have position := object.positionFits
  obtain ⟨high, low, id⟩ := List.length_eq_two.mp object.objectId.2
  rw [id] at horizontalRead
  have stored : Stores16 (ofBytes ([high, low] ++ encode16 (object.objectType * 2 ^ 14 +
      object.position) ++ object.vertical.1) ++ behind) 2
        (object.objectType * 2 ^ 14 + object.position) := ⟨rfl, rfl⟩
  rw [stored.read_fits (by omega)] at horizontalRead
  obtain rfl := Option.some.inj horizontalRead
  dsimp only
  rw [readBits_low]
  omega

theorem readPixelCodes_passes (pixelCodes : List UInt8) (object : RegionObject)
    (coded : pixelCodes.length =
      if object.objectType = 1 ∨ object.objectType = 2 then 2 else 0) :
    Passes (readPixelCodes object) pixelCodes fun _ => True := by
  by_cases some : object.objectType = 1 ∨ object.objectType = 2
  · have read : readPixelCodes object = fun cursor => readAs 2 (fun pdata => do
        let foreground ← read8 pdata 0
        let background ← read8 pdata 1
        return (foreground, background)) cursor >>= fun found =>
          pure ({ object with pixelCodes := Option.some found.1 }, found.2) := by
      funext cursor
      exact if_pos some
    rw [if_pos some] at coded
    rw [read, ← List.append_nil pixelCodes]
    apply passes_bind (passes_fixed coded fun memory readable =>
      defined_bind (readable 0 (by omega)) fun foreground =>
      defined_bind (readable 1 (by omega)) fun background => ⟨_, rfl⟩)
    intro found _
    dsimp only
    exact passes_pure trivial
  · have plain : readPixelCodes object = fun cursor => pure (object, cursor) := by
      funext cursor
      exact if_neg some
    rw [if_neg some] at coded
    rw [plain, List.eq_nil_of_length_eq_zero coded]
    exact passes_pure trivial

theorem readRegionObject_passes (object : SentObject) :
    Passes readRegionObject object.encode fun _ => True := by
  apply passes_required
  apply passes_bind (readObjectHead_passes object)
  intro read type
  apply readPixelCodes_passes
  rw [type]
  exact object.coded

end Compositions

section Cluts

theorem readEntryHead_passes (entry : SentEntry) :
    Passes readEntryHead [entry.entryId, UInt8.ofNat (entry.flags * 2 + entry.fullRange.toNat)]
      fun read => read.fullRangeFlag = entry.fullRange.toNat := by
  have sized : [entry.entryId, UInt8.ofNat (entry.flags * 2 + entry.fullRange.toNat)].length = 2 :=
    rfl
  have passes : Passes readEntryHead _ _ :=
    passes_fixed sized fun memory readable =>
      defined_bind (readable 0 (by omega)) fun entryId =>
      defined_bind (readable 1 (by omega)) fun flags => ⟨_, rfl⟩
  apply passes.imp
  intro read found
  obtain ⟨behind, found⟩ := found
  obtain rfl := Option.some.inj found
  have flags := entry.flagsFit
  have fullRange := Bool.toNat_le entry.fullRange
  dsimp only
  rw [readBits_byte _ _ _ (by omega)]
  omega

theorem readColour_passes (fullRange : Bool) (colour : List UInt8)
    (sized : colour.length = if fullRange then 4 else 2) :
    Passes (readColour fullRange.toNat) colour fun _ => True := by
  cases fullRange with
  | false =>
    have passes : Passes readShortColour _ _ := passes_fixed sized fun memory readable =>
      defined_bind (readable.read16 0 (by simp)) fun colour => ⟨_, rfl⟩
    exact passes.imp fun _ _ => trivial
  | true =>
    have passes : Passes readFullColour _ _ := passes_fixed sized fun memory readable =>
      defined_bind (readable 0 (by simp)) fun y =>
      defined_bind (readable 1 (by simp)) fun cr =>
      defined_bind (readable 2 (by simp)) fun cb =>
      defined_bind (readable 3 (by simp)) fun t => ⟨_, rfl⟩
    exact passes.imp fun _ _ => trivial

theorem readClutEntry_passes (entry : SentEntry) :
    Passes readClutEntry entry.encode fun _ => True := by
  apply passes_required
  apply passes_bind (readEntryHead_passes entry)
  intro head flag
  dsimp only
  rw [flag, ← List.append_nil entry.colour]
  apply passes_bind (readColour_passes entry.fullRange entry.colour entry.sized)
  intro colour _
  dsimp only
  exact passes_pure trivial

end Cluts

section Loops

/-- A head, and behind it items up to the end of the segment. -/
theorem head_and_items {A B S : Type} {readHead : Cursor → Segmenting (A × Cursor)}
    {readItem : Cursor → Segmenting (B × Cursor)} {encode : S → List UInt8} {head : List UInt8}
    {items : List S} {fuel : Nat} {behind : Block} {value : A → Prop}
    (headPasses : Passes readHead head value)
    (passes : ∀ item ∈ items, Passes readItem (encode item) fun _ => True)
    (nonempty : ∀ item ∈ items, 0 < (encode item).length) (enough : items.length ≤ fuel)
    (more : 0 < behind.length) :
    ∃ read found, Goes (readHead ⟨ofBytes (head ++ items.flatMap encode) ++ behind, 0⟩)
        (read, ⟨ofBytes (items.flatMap encode) ++ behind, head.length⟩) ∧
      Goes (cursorWhile (fun slen => decide (slen < (head ++ items.flatMap encode).length))
          readItem fuel ⟨ofBytes (items.flatMap encode) ++ behind, head.length⟩)
        (found, ⟨behind, (head ++ items.flatMap encode).length⟩) := by
  obtain ⟨read, -, headGoes⟩ := headPasses (ofBytes (items.flatMap encode) ++ behind) 0
    (by rw [List.length_append]; omega)
  rw [Nat.zero_add] at headGoes
  obtain ⟨found, loop⟩ := goes_while items passes nonempty fuel head.length enough
    List.length_append.symm behind more
  rw [ofBytes_append, List.append_assoc]
  exact ⟨read, found, headGoes, loop⟩

variable {behind : Block} (more : 0 < behind.length)
include more

theorem parsePageComposition_goes (head : Raw 2) (regions : List (Raw 6)) :
    ∃ found, Goes (parsePageComposition (head.1 ++ regions.flatMap (·.1)).length
        ⟨ofBytes (head.1 ++ regions.flatMap (·.1)) ++ behind, 0⟩)
      (found, ⟨behind, (head.1 ++ regions.flatMap (·.1)).length⟩) := by
  have headPasses : Passes readPageHead head.1 _ := passes_fixed head.2 fun memory readable =>
    defined_bind (readable 0 (by omega)) fun pageTimeOut =>
    defined_bind (readable 1 (by omega)) fun flags => ⟨_, rfl⟩
  have room : regions.length ≤ ((head.1 ++ regions.flatMap (·.1)).length - 2) / 6 := by
    rw [List.length_append, head.2, raws_length]
    omega
  obtain ⟨read, found, headGoes, loop⟩ := head_and_items headPasses
    (fun region _ => readPageRegion_passes region) (fun region _ => by rw [region.2]; omega) room
    more
  exact ⟨_, goes_required (goes_bind headGoes (goes_required (goes_bind loop (goes_pure _))))⟩

theorem parseRegionComposition_goes (head : Raw 10) (objects : List SentObject) :
    ∃ found, Goes (parseRegionComposition (head.1 ++ objects.flatMap SentObject.encode).length
        ⟨ofBytes (head.1 ++ objects.flatMap SentObject.encode) ++ behind, 0⟩)
      (found, ⟨behind, (head.1 ++ objects.flatMap SentObject.encode).length⟩) := by
  have headPasses : Passes readRegionHead head.1 _ := passes_fixed head.2 fun memory readable =>
    defined_bind (readable 0 (by omega)) fun regionId =>
    defined_bind (readable 1 (by omega)) fun flags =>
    defined_bind (readable.read16 2 (by omega)) fun width =>
    defined_bind (readable.read16 4 (by omega)) fun height =>
    defined_bind (readable 6 (by omega)) fun depth =>
    defined_bind (readable 7 (by omega)) fun clutId =>
    defined_bind (readable 8 (by omega)) fun code8 =>
    defined_bind (readable 9 (by omega)) fun codes => ⟨_, rfl⟩
  have nonempty (object : SentObject) : 0 < object.encode.length := by
    simp [SentObject.encode]
  have few : objects.length ≤ (head.1 ++ objects.flatMap SentObject.encode).length := by
    rw [List.length_append]
    exact le_add_left (length_le_flatMap fun object _ => nonempty object)
  obtain ⟨read, found, headGoes, loop⟩ := head_and_items headPasses
    (fun object _ => readRegionObject_passes object) (fun object _ => nonempty object) few more
  exact ⟨_, goes_required (goes_bind headGoes (goes_bind loop (goes_pure _)))⟩

theorem parseClutDefinition_goes (head : Raw 2) (entries : List SentEntry) :
    ∃ found, Goes (parseClutDefinition (head.1 ++ entries.flatMap SentEntry.encode).length
        ⟨ofBytes (head.1 ++ entries.flatMap SentEntry.encode) ++ behind, 0⟩)
      (found, ⟨behind, (head.1 ++ entries.flatMap SentEntry.encode).length⟩) := by
  have headPasses : Passes readClutHead head.1 _ := passes_fixed head.2 fun memory readable =>
    defined_bind (readable 0 (by omega)) fun clutId =>
    defined_bind (readable 1 (by omega)) fun flags => ⟨_, rfl⟩
  have nonempty (entry : SentEntry) : 0 < entry.encode.length := by
    simp [SentEntry.encode]
  have few : entries.length ≤ (head.1 ++ entries.flatMap SentEntry.encode).length := by
    rw [List.length_append]
    exact le_add_left (length_le_flatMap fun entry _ => nonempty entry)
  obtain ⟨read, found, headGoes, loop⟩ := head_and_items headPasses
    (fun entry _ => readClutEntry_passes entry) (fun entry _ => nonempty entry) few more
  exact ⟨_, goes_required (goes_bind headGoes (goes_bind loop (goes_pure _)))⟩

end Loops

section AlternativeClut

-- the loop is left four bytes behind the segment at the earliest
theorem parseAlternativeClut_ends (clut : SentAlternative) (cursor : Cursor) :
    Ends (parseAlternativeClut clut.encode.length cursor) fun result =>
      result.2.len ≠ clut.encode.length := by
  have some : 0 < clut.encode.length := by simp [SentAlternative.encode]
  apply ends_bind ends_require
  intro _ _
  apply ends_bind ends_readAs
  intro head _
  apply ends_bind (ends_while _ _ _)
  · intro cluts left
    apply ends_pure
    intro exact
    rw [decide_eq_false_iff_not] at left
    change cluts.2.len = clut.encode.length at exact
    omega
  · intro cursor
    apply ends_bind ends_require
    intro _ _
    apply ends_ite
    · exact fun _ => ends_readAs.imp fun _ _ => trivial
    · exact fun _ => ends_readAs.imp fun _ _ => trivial

end AlternativeClut

section Objects

namespace SentCoding

/-- The field data fits its output; there are no character codes. -/
def Consumed : SentCoding → Prop
  | fields top bottom _ _ _ =>
      FieldFits (4 * (encodeField top).length) [] top ∧
        FieldFits (4 * (encodeField bottom).length) [] bottom
  | characters codes _ => codes = []
  | progressive _ _ _ => True

theorem method_lt (coding : SentCoding) : coding.method < 3 := by
  cases coding <;> simp [method]

end SentCoding

def SentObjectData.head (object : SentObjectData) : List UInt8 :=
  object.objectId.1 ++
    [UInt8.ofNat (object.version * 2 ^ 4 + object.coding.method * 2 ^ 2 + object.low)]

theorem readObjectDataHead_passes (object : SentObjectData) :
    Passes readObjectDataHead object.head
      fun read => read.objectCodingMethod = object.coding.method := by
  obtain ⟨high, low, id⟩ := List.length_eq_two.mp object.objectId.2
  have sized : object.head.length = 3 := by
    rw [SentObjectData.head, id]
    rfl
  have passes : Passes readObjectDataHead _ _ := passes_fixed sized fun memory readable =>
    defined_bind (readable.read16 0 (by omega)) fun objectId =>
    defined_bind (readable 2 (by omega)) fun flags => ⟨_, rfl⟩
  apply passes.imp
  intro read found
  obtain ⟨behind, found⟩ := found
  rw [SentObjectData.head, id] at found
  obtain rfl := Option.some.inj found
  have version := object.versionFits
  have low := object.lowFits
  have method := object.coding.method_lt
  dsimp only
  rw [readBits_byte _ _ _ (by omega)]
  omega

theorem allocatedFor_goes (length : Nat) : Goes (allocatedFor length) () := by
  by_cases some : length ≠ 0
  · exact goes_ite_true some goes_require
  · exact goes_ite_false some (goes_pure _)

theorem allocatedFor_ends (length : Nat) : Ends (allocatedFor length) fun _ => True :=
  ends_ite (fun _ => ends_require) fun _ => ends_pure trivial

section Fields

variable (turns : Nat) {out : PixelOutput} (settled : out.Settled) {behind : Block}
  (more : 0 < behind.length) (blocks : List PixelBlock) (len : Nat)
include settled more

theorem readFieldData_goes (fits : FieldFits (4 * (encodeField blocks).length) [] blocks) :
    ∃ field after, after.Settled ∧ Goes (readFieldData turns (encodeField blocks).length out
      ⟨ofBytes (encodeField blocks) ++ behind, len⟩)
        ((field, after), ⟨behind, len + (encodeField blocks).length⟩) := by
  have read := readField_fits turns more settled blocks fits
  have moved := Cursor.step_bytes (encodeField blocks) behind len
  refine ⟨⟨(encodeField blocks).length, blocks.foldl PixelBlock.after [], blocks.length⟩,
    { out with data := blocks.foldl PixelBlock.after [] },
    ⟨settled.encode4, settled.encode8⟩, ?_⟩
  rw [← moved]
  apply goes_bind (allocatedFor_goes _)
  apply goes_bind (goes_running read)
  exact goes_ite_true rfl (goes_pure _)

theorem readFieldData_lost (lost : ¬FieldFits (4 * (encodeField blocks).length) [] blocks) :
    Ends (readFieldData turns (encodeField blocks).length out
      ⟨ofBytes (encodeField blocks) ++ behind, len⟩) fun _ => False := by
  have never : Ends (running (readField turns (ofBytes (encodeField blocks) ++ behind)
      (encodeField blocks).length out) : Segmenting _) fun _ => False :=
    ends_lost fun heap available => readField_lost turns more settled blocks lost heap available
  apply ends_bind (allocatedFor_ends _)
  intro _ _
  exact ends_bind never fun _ impossible => impossible.elim

end Fields

theorem readFieldLengths_passes (top bottom : Nat) (topFits : top < 65536)
    (bottomFits : bottom < 65536) :
    Passes readFieldLengths (encode16 top ++ encode16 bottom) (· = (top, bottom)) := by
  have sized : (encode16 top ++ encode16 bottom).length = 4 := rfl
  apply passes_readAs sized
  intro behind
  have topStored : Stores16 (ofBytes (encode16 top ++ encode16 bottom) ++ behind) 0 top :=
    ⟨rfl, rfl⟩
  have bottomStored : Stores16 (ofBytes (encode16 top ++ encode16 bottom) ++ behind) 2 bottom :=
    ⟨rfl, rfl⟩
  refine ⟨(top, bottom), rfl, ?_⟩
  rw [topStored.read_fits topFits, bottomStored.read_fits bottomFits]
  rfl

-- the byte behind fields of an even length together
def stuffed (lengths : Nat) (stuffing : UInt8) : List UInt8 :=
  if lengths % 2 = 0 then [stuffing] else []

theorem stuffed_length_le (lengths : Nat) (stuffing : UInt8) :
    (stuffed lengths stuffing).length ≤ 1 := by
  rw [stuffed]
  split <;> simp

theorem checkStuffing_goes (segmentLength lengths len : Nat) (stuffing : UInt8) (behind : Block)
    (short : segmentLength ≤ 8 + lengths) :
    Goes (checkStuffing segmentLength lengths ⟨ofBytes (stuffed lengths stuffing) ++ behind, len⟩)
      ((), ⟨behind, len + (stuffed lengths stuffing).length⟩) := by
  apply goes_ite_true short
  by_cases even : lengths % 2 = 0
  · have one : stuffed lengths stuffing = [stuffing] := if_pos even
    rw [one]
    exact goes_ite_true even (goes_pure _)
  · have none : stuffed lengths stuffing = [] := if_neg even
    rw [none]
    exact goes_ite_false even (goes_pure _)

section FieldPair

variable (turns : Nat) {out : PixelOutput} (settled : out.Settled) {behind : Block}
  (more : 0 < behind.length) (top bottom : List PixelBlock) (stuffing : UInt8)
  (topFits : (encodeField top).length < 65536) (bottomFits : (encodeField bottom).length < 65536)

-- what there is behind both fields
def behindFields (behind : Block) : Block :=
  ofBytes (stuffed ((encodeField top).length + (encodeField bottom).length) stuffing) ++ behind

theorem fields_split :
    ofBytes (SentCoding.fields top bottom stuffing topFits bottomFits).encode ++ behind =
      ofBytes (encode16 (encodeField top).length ++ encode16 (encodeField bottom).length) ++
        (ofBytes (encodeField top) ++ (ofBytes (encodeField bottom) ++
          behindFields top bottom stuffing behind)) := by
  simp [SentCoding.encode, behindFields, stuffed]

theorem fields_total (len : Nat) :
    len + (SentCoding.fields top bottom stuffing topFits bottomFits).encode.length =
      len + 4 + (encodeField top).length + (encodeField bottom).length +
        (stuffed ((encodeField top).length + (encodeField bottom).length) stuffing).length := by
  simp only [SentCoding.encode, stuffed, List.length_append, encode16_length]
  omega

include more

theorem behindFields_pos : 0 < (behindFields top bottom stuffing behind).length := by
  rw [behindFields, List.length_append]
  omega

theorem behindTop_pos :
    0 < (ofBytes (encodeField bottom) ++ behindFields top bottom stuffing behind).length := by
  have last := behindFields_pos more top bottom stuffing
  rw [List.length_append]
  omega

theorem fieldLengths_goes (len : Nat) :
    Goes (readFieldLengths ⟨ofBytes (SentCoding.fields top bottom stuffing topFits
        bottomFits).encode ++ behind, len⟩)
      (((encodeField top).length, (encodeField bottom).length),
        ⟨ofBytes (encodeField top) ++ (ofBytes (encodeField bottom) ++
          behindFields top bottom stuffing behind), len + 4⟩) := by
  have last := behindTop_pos more top bottom stuffing
  rw [fields_split]
  obtain ⟨lengths, rfl, goes⟩ := readFieldLengths_passes (encodeField top).length
    (encodeField bottom).length topFits bottomFits (ofBytes (encodeField top) ++
      (ofBytes (encodeField bottom) ++ behindFields top bottom stuffing behind)) len
    (by rw [List.length_append]; omega)
  exact goes

include settled

theorem readFields_goes (segmentLength len : Nat)
    (fits : (SentCoding.fields top bottom stuffing topFits bottomFits).Consumed)
    (short : segmentLength ≤ 8 + ((encodeField top).length + (encodeField bottom).length)) :
    ∃ coding after, after.Settled ∧ Goes (readFields turns segmentLength out
      ⟨ofBytes (SentCoding.fields top bottom stuffing topFits bottomFits).encode ++ behind, len⟩)
        ((coding, after), ⟨behind,
          len + (SentCoding.fields top bottom stuffing topFits bottomFits).encode.length⟩) := by
  obtain ⟨first, middle, middleSettled, topGoes⟩ := readFieldData_goes turns settled
    (behindTop_pos more top bottom stuffing) top (len + 4) fits.1
  obtain ⟨second, after, afterSettled, bottomGoes⟩ := readFieldData_goes turns middleSettled
    (behindFields_pos more top bottom stuffing) bottom (len + 4 + (encodeField top).length) fits.2
  refine ⟨.fields first second, after, afterSettled, ?_⟩
  rw [fields_total]
  apply goes_bind (fieldLengths_goes more top bottom stuffing topFits bottomFits len)
  apply goes_bind topGoes
  apply goes_bind bottomGoes
  exact goes_bind (checkStuffing_goes segmentLength _ _ stuffing behind short) (goes_pure _)

theorem readFields_lost (segmentLength len : Nat)
    (lost : ¬(SentCoding.fields top bottom stuffing topFits bottomFits).Consumed) :
    Ends (readFields turns segmentLength out
      ⟨ofBytes (SentCoding.fields top bottom stuffing topFits bottomFits).encode ++ behind, len⟩)
        fun _ => False := by
  apply ends_bind (fieldLengths_goes more top bottom stuffing topFits bottomFits len).ends
  rintro _ rfl
  by_cases fits : FieldFits (4 * (encodeField top).length) [] top
  · obtain ⟨first, middle, middleSettled, topGoes⟩ := readFieldData_goes turns settled
      (behindTop_pos more top bottom stuffing) top (len + 4) fits
    apply ends_bind topGoes.ends
    rintro _ rfl
    have bottomLost := readFieldData_lost turns middleSettled
      (behindFields_pos more top bottom stuffing) bottom (len + 4 + (encodeField top).length)
      fun rest => lost ⟨fits, rest⟩
    exact ends_bind bottomLost fun _ impossible => impossible.elim
  · have topLost := readFieldData_lost turns settled (behindTop_pos more top bottom stuffing) top
      (len + 4) fits
    exact ends_bind topLost fun _ impossible => impossible.elim

end FieldPair

section Characters

theorem readNumberOfCodes_passes (number : Nat) (few : number < 256) :
    Passes (readAs 1 (read8 · 0) : Cursor → Segmenting (UInt8 × Cursor)) [UInt8.ofNat number]
      (·.toNat = number) := by
  have sized : [UInt8.ofNat number].length = 1 := rfl
  apply passes_readAs sized
  exact fun _ => ⟨UInt8.ofNat number, UInt8.toNat_ofNat_of_lt' few, rfl⟩

variable (codes : List (Raw 2)) (few : codes.length < 256)

theorem readCharacters_none (few : ([] : List (Raw 2)).length < 256) :
    Passes readCharacters (SentCoding.characters [] few).encode fun _ => True := by
  apply passes_bind (readNumberOfCodes_passes 0 (by decide))
  intro numberOfCodes none behind len _
  have stored : 2 * numberOfCodes.toNat ≤ numberOfCodes.toNat := by omega
  exact ⟨_, trivial, goes_required (goes_ite_true stored (goes_pure _))⟩

-- a code is stored behind the allocated bytes
theorem readCharacters_lost (some : codes ≠ []) (behind : Block) (len : Nat)
    (more : 0 < behind.length) :
    Ends (readCharacters ⟨ofBytes (SentCoding.characters codes few).encode ++ behind, len⟩)
      fun _ => False := by
  have count := List.length_pos_of_ne_nil some
  obtain ⟨numberOfCodes, same, goes⟩ := readNumberOfCodes_passes codes.length few
    (ofBytes (codes.flatMap (·.1)) ++ behind) len (by rw [List.length_append]; omega)
  have split : ofBytes (SentCoding.characters codes few).encode ++ behind =
      ofBytes [UInt8.ofNat codes.length] ++ (ofBytes (codes.flatMap (·.1)) ++ behind) := by
    simp [SentCoding.encode]
  rw [split]
  apply ends_bind goes.ends
  rintro _ rfl
  apply ends_bind ends_require
  intro _ _
  apply ends_ite
  · intro stored
    omega
  · exact fun _ => ends_failure

end Characters

section Progressive

theorem readProgressive_passes (size : Raw 4) (data : List UInt8) (few : data.length < 65536) :
    Passes readProgressive (SentCoding.progressive size data few).encode fun _ => True := by
  have headPasses : Passes readProgressiveHead (size.1 ++ encode16 data.length)
      fun read => read.2.2 = data.length := by
    obtain ⟨w1, w2, h1, h2, same⟩ := List.length_eq_four.mp size.2
    have sized : (size.1 ++ encode16 data.length).length = 6 := by
      rw [List.length_append, size.2]
      rfl
    have passes : Passes readProgressiveHead _ _ := passes_fixed sized fun memory readable =>
      defined_bind (readable.read16 0 (by omega)) fun width =>
      defined_bind (readable.read16 2 (by omega)) fun height =>
      defined_bind (readable.read16 4 (by omega)) fun length => ⟨_, rfl⟩
    apply passes.imp
    intro read found
    obtain ⟨behind, found⟩ := found
    obtain ⟨width, -, later⟩ := Option.bind_eq_some_iff.mp found
    obtain ⟨height, -, later⟩ := Option.bind_eq_some_iff.mp later
    obtain ⟨length, lengthRead, last⟩ := Option.bind_eq_some_iff.mp later
    obtain rfl := Option.some.inj last
    rw [same] at lengthRead
    have stored : Stores16 (ofBytes ([w1, w2, h1, h2] ++ encode16 data.length) ++ behind) 4
        data.length := ⟨rfl, rfl⟩
    rw [stored.read_fits few] at lengthRead
    exact (Option.some.inj lengthRead).symm
  apply passes_bind headPasses
  intro read length
  apply passes_required
  dsimp only
  rw [length]
  have dataPasses : Passes (readAs data.length (readBytes · 0 data.length) :
      Cursor → Segmenting (List UInt8 × Cursor)) data fun _ => True :=
    passes_readAs rfl fun behind => ⟨data, trivial, readBytes_whole data behind⟩
  intro behind len more
  obtain ⟨found, -, goes⟩ := dataPasses behind len more
  exact ⟨_, trivial, goes_bind goes (goes_pure _)⟩

end Progressive

section ObjectData

variable (turns : Nat) {out : PixelOutput} (settled : out.Settled) {behind : Block}
  (more : 0 < behind.length) (object : SentObjectData)

theorem SentObjectData.head_length : object.head.length = 3 := by
  rw [SentObjectData.head, List.length_append, object.objectId.2]
  rfl

theorem SentObjectData.encode_length :
    object.encode.length = 3 + object.coding.encode.length := by
  rw [← object.head_length]
  exact List.length_append

include more

theorem objectHead_goes :
    ∃ read : ObjectData, read.objectCodingMethod = object.coding.method ∧
      Goes (readObjectDataHead ⟨ofBytes object.encode ++ behind, 0⟩)
        (read, ⟨ofBytes object.coding.encode ++ behind, 3⟩) := by
  have rest : 0 < (ofBytes object.coding.encode ++ behind).length := by
    rw [List.length_append]
    omega
  have passes := readObjectDataHead_passes object (ofBytes object.coding.encode ++ behind) 0 rest
  rwa [← List.append_assoc, ← ofBytes_append, object.head_length] at passes

include settled

theorem readCoding_goes (coding : SentCoding) (consumed : coding.Consumed) (read : ObjectData)
    (method : read.objectCodingMethod = coding.method) :
    ∃ found after, after.Settled ∧ Goes (readCoding turns (3 + coding.encode.length) out read
      ⟨ofBytes coding.encode ++ behind, 3⟩)
        ((found, after), ⟨behind, 3 + coding.encode.length⟩) := by
  cases coding with
  | fields top bottom stuffing topFits bottomFits =>
    have total := fields_total top bottom stuffing topFits bottomFits 3
    have last := stuffed_length_le ((encodeField top).length + (encodeField bottom).length) stuffing
    obtain ⟨found, after, kept, goes⟩ := readFields_goes turns settled more top bottom stuffing
      topFits bottomFits (3 + (SentCoding.fields top bottom stuffing topFits
        bottomFits).encode.length) 3 consumed (by omega)
    exact ⟨found, after, kept, goes_ite_true method goes⟩
  | characters codes few =>
    obtain rfl : codes = [] := consumed
    obtain ⟨found, -, goes⟩ := readCharacters_none few behind 3 more
    refine ⟨found, out, settled, ?_⟩
    have first : read.objectCodingMethod = 1 := method
    apply goes_ite_false (by omega)
    exact goes_ite_true method (goes_bind goes (goes_pure _))
  | progressive size data few =>
    obtain ⟨found, -, goes⟩ := readProgressive_passes size data few behind 3 more
    refine ⟨found, out, settled, ?_⟩
    have second : read.objectCodingMethod = 2 := method
    apply goes_ite_false (by omega)
    apply goes_ite_false (by omega)
    exact goes_ite_true method (goes_bind goes (goes_pure _))

theorem readCoding_lost (coding : SentCoding) (lost : ¬coding.Consumed) (read : ObjectData)
    (method : read.objectCodingMethod = coding.method) (segmentLength : Nat) :
    Ends (readCoding turns segmentLength out read ⟨ofBytes coding.encode ++ behind, 3⟩)
      fun _ => False := by
  cases coding with
  | fields top bottom stuffing topFits bottomFits =>
    have zero : read.objectCodingMethod = 0 := method
    rw [readCoding, if_pos zero]
    exact readFields_lost turns settled more top bottom stuffing topFits bottomFits _ 3 lost
  | characters codes few =>
    have first : read.objectCodingMethod = 1 := method
    rw [readCoding, if_neg (by omega), if_pos first]
    exact ends_bind (readCharacters_lost codes few lost behind 3 more)
      fun _ impossible => impossible.elim
  | progressive size data few => exact absurd trivial lost

theorem parseObjectData_goes (consumed : object.coding.Consumed) :
    ∃ data after, after.Settled ∧ Goes (parseObjectData turns object.encode.length out
      ⟨ofBytes object.encode ++ behind, 0⟩) ((data, after), ⟨behind, object.encode.length⟩) := by
  obtain ⟨read, method, headGoes⟩ := objectHead_goes more object
  obtain ⟨coding, after, kept, codingGoes⟩ :=
    readCoding_goes turns settled more object.coding consumed read method
  rw [← object.encode_length] at codingGoes
  exact ⟨_, after, kept,
    goes_required (goes_bind headGoes (goes_bind codingGoes (goes_pure _)))⟩

theorem parseObjectData_lost (lost : ¬object.coding.Consumed) :
    Ends (parseObjectData turns object.encode.length out ⟨ofBytes object.encode ++ behind, 0⟩)
      fun _ => False := by
  obtain ⟨read, method, headGoes⟩ := objectHead_goes more object
  apply ends_bind ends_require
  intro _ _
  apply ends_bind headGoes.ends
  rintro _ rfl
  exact ends_bind (readCoding_lost turns settled more object.coding lost read method _)
    fun _ impossible => impossible.elim

end ObjectData

end Objects

end TsAnalyze.Subtitle
