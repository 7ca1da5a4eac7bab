import TsAnalyze.Psip.MultipleString
import TsAnalyze.Tables.Psi

set_option autoImplicit false

namespace TsAnalyze.Psip

open Memory Tables

variable {D : Type} (ops : DescriptorOps D)

section Mgt

structure DefineTable (D : Type) where
  tableType : Nat
  tableTypePid : Nat
  tableTypeVersionNumber : Nat
  numberBytes : Nat
  tableTypeDescriptorsLength : Nat
  list : List (Descriptor D)

structure Mgt (D : Type) where
  protocolVersion : UInt8 := 0
  tablesDefined : Nat := 0
  tables : Option (List (DefineTable D)) := none
  descriptorsLength : Nat := 0
  list : List (Descriptor D) := []

def readTable (pdata : Block) : Allocating (DefineTable D × Nat) := do
  let tableType ← read16 pdata 0
  let pid ← read16 pdata 2
  let version ← read8 pdata 4
  let numberBytes ← read32 pdata 5
  let word ← read16 pdata 9
  let length := readBits 16 word 12 4
  let list ← parseDescriptors ops [] (pdata.drop 11) length
  pure ({
    tableType := tableType
    tableTypePid := readBits 16 pid 13 3
    tableTypeVersionNumber := readBits 8 version.toNat 5 3
    numberBytes := numberBytes
    tableTypeDescriptorsLength := length
    list := list }, 11 + length)

def decodeMgt : Decoder (Mgt D) := fun _ pdata mgt => do
  freeDescriptors ops ((mgt.tables.getD []).flatMap DefineTable.list)
  freeDescriptors ops mgt.list
  let protocolVersion ← read8 pdata 0
  let tablesDefined ← read16 pdata 1
  if ← reserve then
    let (tables, rest) ← countedLoop (readTable ops) tablesDefined (pdata.drop 3)
    let word ← read16 rest 0
    let length := readBits 16 word 12 4
    let list ← parseDescriptors ops [] (rest.drop 2) length
    pure { content := ⟨protocolVersion, tablesDefined, some tables, length, list⟩ }
  else
    pure {
      content := ⟨protocolVersion, tablesDefined, none, mgt.descriptorsLength, []⟩
      ret := enomem }

end Mgt

section Vct

structure DefineChannel (D : Type) where
  shortName : Region 14
  majorChannelNumber : Nat
  minorChannelNumber : Nat
  modulationMode : Nat
  carrierFrequency : Nat
  channelTsid : Nat
  programNumber : Nat
  etmLocation : Nat
  accessControlled : Nat
  hidden : Nat
  pathSelect : Nat
  outOfBand : Nat
  hideGuide : Nat
  serviceType : Nat
  sourceId : Nat
  descriptorsLength : Nat
  list : List (Descriptor D)

structure Vct (D : Type) where
  protocolVersion : UInt8 := 0
  numChannelsInSection : UInt8 := 0
  channels : Option (List (DefineChannel D)) := none
  additionalDescriptorsLength : Nat := 0
  list : List (Descriptor D) := []

-- "TVCT copies 7*sizeof(uint16_t); CVCT historically copies 7*16"
def shortNameSize (cable : Bool) : Nat :=
  if cable then 7 * 16 else 7 * 2

-- A copy of more than the short_name holds runs past it.
def readChannel (cable : Bool) (pdata : Block) : Allocating (DefineChannel D × Nat) := do
  let size := shortNameSize cable
  let shortName ← (Region.zeros 14).memcpy 0 pdata size
  let fields := pdata.drop size
  let numbers ← read32 fields 0
  let carrierFrequency ← read32 fields 4
  let channelTsid ← read16 fields 8
  let programNumber ← read16 fields 10
  let flags ← read16 fields 12
  let sourceId ← read16 fields 14
  let word ← read16 fields 16
  let length := readBits 16 word 10 6
  let list ← parseDescriptors ops [] (fields.drop 18) length
  pure ({
    shortName := shortName
    majorChannelNumber := readBits 32 numbers 10 4
    minorChannelNumber := readBits 32 numbers 10 14
    modulationMode := readBits 32 numbers 8 24
    carrierFrequency := carrierFrequency
    channelTsid := channelTsid
    programNumber := programNumber
    etmLocation := readBits 16 flags 2 0
    accessControlled := readBits 16 flags 1 2
    hidden := readBits 16 flags 1 3
    pathSelect := if cable then readBits 16 flags 1 4 else 0
    outOfBand := if cable then readBits 16 flags 1 5 else 0
    hideGuide := readBits 16 flags 1 6
    serviceType := readBits 16 flags 6 10
    sourceId := sourceId
    descriptorsLength := length
    list := list }, size + 18 + length)

def decodeVct (cable : Bool) : Decoder (Vct D) := fun _ pdata vct => do
  freeDescriptors ops ((vct.channels.getD []).flatMap DefineChannel.list)
  freeDescriptors ops vct.list
  let protocolVersion ← read8 pdata 0
  let numChannelsInSection ← read8 pdata 1
  if ← reserve then
    let (channels, rest) ←
      countedLoop (readChannel ops cable) numChannelsInSection.toNat (pdata.drop 2)
    let word ← read16 rest 0
    let length := readBits 16 word 10 6
    let list ← parseDescriptors ops [] (rest.drop 2) length
    pure { content := ⟨protocolVersion, numChannelsInSection, some channels, length, list⟩ }
  else
    pure {
      content := ⟨protocolVersion, numChannelsInSection, none, vct.additionalDescriptorsLength, []⟩
      ret := enomem }

end Vct

section Eit

structure DefineEvent (D : Type) where
  eventId : Nat
  startTime : Nat
  etmLocation : Nat
  lengthInSeconds : Nat
  titleLength : Nat
  titleText : MultipleString
  descriptorsLength : Nat
  list : List (Descriptor D)

structure AtscEit (D : Type) where
  protocolVersion : UInt8 := 0
  numEventsInSection : UInt8 := 0
  events : Option (List (DefineEvent D)) := none

def freeEvents : List (DefineEvent D) → Option Unit
  | [] => some ()
  | event :: events => do
      freeMultiString event.titleText
      freeDescriptors ops event.list
      freeEvents events

-- pdata moves on by title_length, whatever the title takes, and not by the descriptors
def readAtscEvent (pdata : Block) : Allocating (DefineEvent D × Nat) := do
  let eventId ← read16 pdata 0
  let startTime ← read32 pdata 2
  let word ← read32 pdata 6
  let titleLength := readBits 32 word 8 24
  let title ← parseMultiString (pdata.drop 10)
  let rest := pdata.drop (10 + titleLength)
  let lengthWord ← read16 rest 0
  let length := readBits 16 lengthWord 12 4
  let list ← parseDescriptors ops [] (rest.drop 2) length
  pure ({
    eventId := readBits 16 eventId 14 2
    startTime := startTime
    etmLocation := readBits 32 word 2 2
    lengthInSeconds := readBits 32 word 20 4
    titleLength := titleLength
    titleText := title.1
    descriptorsLength := length
    list := list }, 12 + titleLength)

def decodeAtscEit : Decoder (AtscEit D) := fun _ pdata eit => do
  freeEvents ops (eit.events.getD [])
  let protocolVersion ← read8 pdata 0
  let numEventsInSection ← read8 pdata 1
  if ← reserve then
    let (events, _) ← countedLoop (readAtscEvent ops) numEventsInSection.toNat (pdata.drop 2)
    pure { content := ⟨protocolVersion, numEventsInSection, some events⟩ }
  else pure { content := ⟨protocolVersion, numEventsInSection, none⟩, ret := enomem }

end Eit

section Rrt

structure DefineRating where
  abbrevRatingValueLength : UInt8 := 0
  abbrevRatingValueText : MultipleString := {}
  ratingValueLength : UInt8 := 0
  ratingValueText : MultipleString := {}

structure DefineDimension where
  dimensionNameLength : UInt8 := 0
  dimensionNameText : MultipleString := {}
  graduatedScale : Nat := 0
  valuesDefined : Nat := 0
  rating : Option (List DefineRating) := none

structure Rrt (D : Type) where
  protocolVersion : UInt8 := 0
  ratingRegionNameLength : UInt8 := 0
  ratingRegionNameText : MultipleString := {}
  dimensionsDefined : UInt8 := 0
  dimensions : Option (List DefineDimension) := none
  descriptorsLength : Nat := 0
  list : List (Descriptor D) := []

-- the elements that a counted loop reaches, each of which has to be allocated
def elements {E : Type} (array : Option (List E)) : Nat → Option (List E)
  | 0 => some []
  | count + 1 => do
      let before ← elements array count
      let element ← (array.getD [])[count]?
      return before ++ [element]

def freeRatings : List DefineRating → Option Unit
  | [] => some ()
  | rating :: ratings => do
      freeMultiString rating.abbrevRatingValueText
      freeMultiString rating.ratingValueText
      freeRatings ratings

def freeDimensions : List DefineDimension → Option Unit
  | [] => some ()
  | dimension :: dimensions => do
      freeMultiString dimension.dimensionNameText
      let ratings ← elements dimension.rating dimension.valuesDefined
      freeRatings ratings
      freeDimensions dimensions

def Rrt.freeContent (rrt : Rrt D) : Option Unit := do
  freeMultiString rrt.ratingRegionNameText
  if rrt.dimensions.isSome then
    let dimensions ← elements rrt.dimensions rrt.dimensionsDefined.toNat
    freeDimensions dimensions
  freeDescriptors ops rrt.list

def readRating (pdata : Block) : Allocating (DefineRating × Nat) := do
  let abbrevLength ← read8 pdata 0
  let abbreviated ← parseMultiString (pdata.drop 1)
  let rest := pdata.drop (1 + abbrevLength.toNat)
  let valueLength ← read8 rest 0
  let value ← parseMultiString (rest.drop 1)
  pure (⟨abbrevLength, abbreviated.1, valueLength, value.1⟩,
    2 + abbrevLength.toNat + valueLength.toNat)

-- and what stands behind the dimension, unless memory ran out for its ratings
def readDimension (pdata : Block) : Allocating (DefineDimension × Option Block) := do
  let nameLength ← read8 pdata 0
  let name ← parseMultiString (pdata.drop 1)
  let behindName := pdata.drop (1 + nameLength.toNat)
  let flags ← read8 behindName 0
  let graduatedScale := readBits 8 flags.toNat 1 3
  let valuesDefined := readBits 8 flags.toNat 4 4
  if ← reserve then
    let (ratings, rest) ← countedLoop readRating valuesDefined (behindName.drop 1)
    pure (⟨nameLength, name.1, graduatedScale, valuesDefined, some ratings⟩, some rest)
  else pure (⟨nameLength, name.1, graduatedScale, valuesDefined, none⟩, none)

def storeElement {E : Type} (array : Option (List E)) (i : Nat) (element : E) :
    Option (List E) := do
  let list ← array
  if i < list.length then some (list.set i element) else none

-- from dimension `i` on; no array has been allocated for them
def dimensionLoop : Nat → Nat → Block → Option (List DefineDimension) →
    Allocating (Option (List DefineDimension) × Option Block)
  | 0, _, pdata, dimensions => pure (dimensions, some pdata)
  | count + 1, i, pdata, dimensions => do
      let (dimension, rest) ← readDimension pdata
      let stored ← storeElement dimensions i dimension
      match rest with
      | some rest => dimensionLoop count (i + 1) rest (some stored)
      | none => pure (some stored, none)

def decodeRrt : Decoder (Rrt D) := fun _ pdata rrt => do
  rrt.freeContent ops
  let protocolVersion ← read8 pdata 0
  let nameLength ← read8 pdata 1
  let name ← parseMultiString (pdata.drop 2)
  let behindName := pdata.drop (2 + nameLength.toNat)
  let dimensionsDefined ← read8 behindName 0
  let (dimensions, rest) ← dimensionLoop dimensionsDefined.toNat 0 (behindName.drop 1)
    rrt.dimensions
  match rest with
  | some rest =>
      let word ← read16 rest 0
      let length := readBits 16 word 10 6
      let list ← parseDescriptors ops [] (rest.drop 2) length
      pure {
        content := ⟨protocolVersion, nameLength, name.1, dimensionsDefined, dimensions, length,
          list⟩ }
  | none =>
      pure {
        content := ⟨protocolVersion, nameLength, name.1, dimensionsDefined, dimensions,
          rrt.descriptorsLength, []⟩
        ret := enomem }

end Rrt

section Stt

structure Stt (D : Type) where
  protocolVersion : UInt8 := 0
  systemTime : Nat := 0
  gpsUtcOffset : UInt8 := 0
  daylightSaving : Nat := 0
  list : List (Descriptor D) := []

-- Neither section_len nor pdata is moved on, and every turn starts the list again.
def sttLoop : Nat → Block → Int → List (Descriptor D) → Allocating (List (Descriptor D))
  | 0, _, sectionLen, list => if 0 < sectionLen then failure else pure list
  | turns + 1, pdata, sectionLen, list =>
      if 0 < sectionLen then do
        let parsed ← parseDescriptors ops [] pdata sectionLen.toNat
        sttLoop turns pdata sectionLen parsed
      else pure list

def decodeStt (turns : Nat) : Decoder (Stt D) := fun header pdata stt => do
  let protocolVersion ← read8 pdata 0
  let systemTime ← read32 pdata 1
  let gpsUtcOffset ← read8 pdata 5
  let daylightSaving ← read16 pdata 6
  freeDescriptors ops stt.list
  let sectionLen := toUInt16 (toUInt16 (header.sectionLength - (5 + 4)) - 8)
  let list ← sttLoop ops turns (pdata.drop 8) sectionLen []
  pure { content := ⟨protocolVersion, systemTime, gpsUtcOffset, daylightSaving, list⟩ }

end Stt

section Dcct

structure DefineDccTerm (D : Type) where
  dccSelectionType : UInt8 := 0
  dccSelectionId : Nat := 0
  dccTermDescriptorsLength : Nat := 0
  list : List (Descriptor D) := []

structure DefineDccTest (D : Type) where
  dccContext : Nat := 0
  dccFromMajorChannelNumber : Nat := 0
  dccFromMinorChannelNumber : Nat := 0
  dccToMajorChannelNumber : Nat := 0
  dccToMinorChannelNumber : Nat := 0
  dccStartTime : Nat := 0
  dccStartTime1 : Nat := 0
  dccEndTime : Nat := 0
  dccTermCount : UInt8 := 0
  dccTerms : Option (List (DefineDccTerm D)) := none
  dccTestDescriptorsLength : Nat := 0
  list : List (Descriptor D) := []

structure Dcct (D : Type) where
  protocolVersion : UInt8 := 0
  dccTestCount : UInt8 := 0
  dccTests : Option (List (DefineDccTest D)) := none
  dccAdditionalDescriptorsLength : Nat := 0
  list : List (Descriptor D) := []

def readDccTerm (pdata : Block) : Allocating (Filled (DefineDccTerm D)) := do
  let selectionType ← read8 pdata 0
  let selectionId ← read64 pdata 1
  let word ← read16 pdata 9
  let length := readBits 16 word 10 6
  let list ← parseDescriptors ops [] (pdata.drop 11) length
  pure ⟨⟨selectionType, selectionId, length, list⟩, 11 + length, true⟩

def readDccTest (pdata : Block) : Allocating (Filled (DefineDccTest D)) := do
  let word ← read64 pdata 0
  let startTime1 ← read16 pdata 8
  let endTime ← read32 pdata 10
  let termCount ← read8 pdata 14
  let test : DefineDccTest D := {
    dccContext := readBits 64 word 1 0
    dccFromMajorChannelNumber := readBits 64 word 10 4
    dccFromMinorChannelNumber := readBits 64 word 10 14
    dccToMajorChannelNumber := readBits 64 word 10 28
    dccToMinorChannelNumber := readBits 64 word 10 38
    dccStartTime := readBits 64 word 16 48
    dccStartTime1 := startTime1
    dccEndTime := endTime
    dccTermCount := termCount }
  if ← reserve then
    let terms ← fillLoop {} (readDccTerm ops) termCount.toNat (pdata.drop 15)
    let rest := pdata.drop (15 + terms.size)
    let lengthWord ← read16 rest 0
    let length := readBits 16 lengthWord 10 6
    let list ← parseDescriptors ops [] (rest.drop 2) length
    pure ⟨{ test with
      dccTerms := some terms.value
      dccTestDescriptorsLength := length
      list := list }, 15 + terms.size + (2 + length), true⟩
  else pure ⟨test, 15, false⟩

def decodeDcct : Decoder (Dcct D) := fun _ pdata dcct => do
  let protocolVersion ← read8 pdata 0
  let testCount ← read8 pdata 1
  if ← reserve then
    let tests ← fillLoop {} (readDccTest ops) testCount.toNat (pdata.drop 2)
    if tests.complete then
      let rest := pdata.drop (2 + tests.size)
      let word ← read16 rest 0
      let length := readBits 16 word 10 6
      let list ← parseDescriptors ops [] (rest.drop 2) length
      pure { content := ⟨protocolVersion, testCount, some tests.value, length, list⟩ }
    else
      pure {
        content := ⟨protocolVersion, testCount, some tests.value,
          dcct.dccAdditionalDescriptorsLength, dcct.list⟩
        ret := enomem }
  else
    pure {
      content := ⟨protocolVersion, testCount, none, dcct.dccAdditionalDescriptorsLength, dcct.list⟩
      ret := enomem }

end Dcct

section Dccsct

/-- What the union of an update holds, by update_type. -/
inductive UpdateData
  | unset
  | genreCategory (code : UInt8) (name : MultipleString)
  | stateLocation (code : UInt8) (text : MultipleString)
  | countyLocation (stateCode : UInt8) (code : Nat) (text : MultipleString)

structure DefineUpdate (D : Type) where
  updateType : UInt8 := 0
  updateDataLength : UInt8 := 0
  data : UpdateData := .unset
  dccsctDescriptorsLength : Nat := 0
  list : List (Descriptor D) := []

structure Dccsct (D : Type) where
  protocolVersion : UInt8 := 0
  updatesDefined : UInt8 := 0
  updates : Option (List (DefineUpdate D)) := none
  dccsctAdditionalDescriptorsLength : Nat := 0
  list : List (Descriptor D) := []

-- the data of an update and the bytes that pdata moves on by, none for an unknown type
def readUpdateData (updateType : UInt8) (pdata : Block) : Allocating (UpdateData × Int) :=
  if updateType = 0x01 then do
    let code ← read8 pdata 0
    let name ← parseMultiString (pdata.drop 1)
    pure (.genreCategory code name.1, 1 + name.2)
  else if updateType = 0x02 then do
    let code ← read8 pdata 0
    let text ← parseMultiString (pdata.drop 1)
    pure (.stateLocation code text.1, 1 + text.2)
  else if updateType = 0x03 then do
    let stateCode ← read8 pdata 0
    let word ← read16 pdata 1
    let text ← parseMultiString (pdata.drop 3)
    pure (.countyLocation stateCode (readBits 16 word 10 6) text.1, 3 + text.2)
  else pure (.unset, 0)

def readUpdate (pdata : Block) : Allocating (DefineUpdate D × Nat) := do
  let updateType ← read8 pdata 0
  let updateDataLength ← read8 pdata 1
  let data ← readUpdateData updateType (pdata.drop 2)
  let rest := pdata.drop (2 + data.2.toNat)
  let word ← read16 rest 0
  let length := readBits 16 word 10 6
  let list ← parseDescriptors ops [] (rest.drop 2) length
  pure (⟨updateType, updateDataLength, data.1, length, list⟩, 2 + data.2.toNat + (2 + length))

def decodeDccsct : Decoder (Dccsct D) := fun _ pdata dccsct => do
  let protocolVersion ← read8 pdata 0
  let updatesDefined ← read8 pdata 1
  if ← reserve then
    let (updates, rest) ← countedLoop (readUpdate ops) updatesDefined.toNat (pdata.drop 2)
    let word ← read16 rest 0
    let length := readBits 16 word 10 6
    let list ← parseDescriptors ops [] (rest.drop 2) length
    pure { content := ⟨protocolVersion, updatesDefined, some updates, length, list⟩ }
  else
    pure {
      content := ⟨protocolVersion, updatesDefined, none,
        dccsct.dccsctAdditionalDescriptorsLength, dccsct.list⟩
      ret := enomem }

end Dccsct

section Plain

theorem readAtscEvent_plain (pdata : Block) : Plain (readAtscEvent ops pdata) := by
  apply plain_bind _ _ (plain_lift _)
  intro eventId
  apply plain_bind _ _ (plain_lift _)
  intro startTime
  apply plain_bind _ _ (plain_lift _)
  intro word
  apply plain_bind _ _ (parseMultiString_plain _)
  intro title
  apply plain_bind _ _ (plain_lift _)
  intro lengthWord
  apply plain_bind _ _ (parseDescriptors_plain ops _ _ _)
  intro list
  exact plain_pure _

theorem readUpdateData_plain (updateType : UInt8) (pdata : Block) :
    Plain (readUpdateData updateType pdata) := by
  apply plain_ite
  · apply plain_bind _ _ (plain_lift _)
    intro code
    apply plain_bind _ _ (parseMultiString_plain _)
    intro name
    exact plain_pure _
  · apply plain_ite
    · apply plain_bind _ _ (plain_lift _)
      intro code
      apply plain_bind _ _ (parseMultiString_plain _)
      intro text
      exact plain_pure _
    · apply plain_ite
      · apply plain_bind _ _ (plain_lift _)
        intro stateCode
        apply plain_bind _ _ (plain_lift _)
        intro word
        apply plain_bind _ _ (parseMultiString_plain _)
        intro text
        exact plain_pure _
      · exact plain_pure _

theorem readUpdate_plain (pdata : Block) : Plain (readUpdate ops pdata) := by
  apply plain_bind _ _ (plain_lift _)
  intro updateType
  apply plain_bind _ _ (plain_lift _)
  intro updateDataLength
  apply plain_bind _ _ (readUpdateData_plain _ _)
  intro data
  apply plain_bind _ _ (plain_lift _)
  intro word
  apply plain_bind _ _ (parseDescriptors_plain ops _ _ _)
  intro list
  exact plain_pure _

end Plain

end TsAnalyze.Psip
