import TsAnalyze.Shared.Returning
import TsAnalyze.Subtitle.PixelCodes

set_option autoImplicit false

namespace TsAnalyze.Subtitle

open Memory Tables

/-- What is kept of the segments' fields. -/
structure DisplayWindow where
  horizontalPositionMinimum : Nat
  horizontalPositionMaximum : Nat
  verticalPositionMinimum : Nat
  verticalPositionMaximum : Nat

structure DisplayDefinition where
  ddsVersionNumber : Nat
  displayWindowFlag : Nat
  displayWidth : Nat
  displayHeight : Nat
  window : Option DisplayWindow := none

structure PageRegion where
  regionId : UInt8
  regionHorizontalAddress : Nat
  regionVerticalAddress : Nat

structure PageComposition where
  pageTimeOut : UInt8
  pageVersionNumber : Nat
  pageState : Nat
  region : List PageRegion := []

structure RegionObject where
  objectId : Nat
  objectType : Nat
  objectProviderFlag : Nat
  objectHorizontalPosition : Nat
  objectVerticalPosition : Nat
  pixelCodes : Option (UInt8 × UInt8) := none

structure RegionComposition where
  regionId : UInt8
  regionVersionNumber : Nat
  regionFillFlag : Nat
  regionWidth : Nat
  regionHeight : Nat
  regionLevelOfCompatibility : Nat
  regionDepth : Nat
  clutId : UInt8
  region8bitPixelCode : UInt8
  region4bitPixelCode : Nat
  region2bitPixelCode : Nat
  object : List RegionObject := []

structure ClutColour where
  y : Nat
  cr : Nat
  cb : Nat
  t : Nat

structure ClutEntry where
  entryId : UInt8
  entry2bitClutFlag : Nat
  entry4bitClutFlag : Nat
  entry8bitClutFlag : Nat
  fullRangeFlag : Nat
  colour : Option ClutColour := none

structure ClutDefinition where
  clutId : UInt8
  clutVersionNumber : Nat
  cluts : List ClutEntry := []

/-- A field's sub-blocks, and their output. -/
structure FieldData where
  length : Nat
  data : List UInt8
  num : Nat

inductive ObjectCoding
  | fields (top bottom : FieldData)
  | characters (numberOfCodes : UInt8)
  | progressive (bitmapWidth bitmapHeight : Nat) (compressedBitmapData : List UInt8)
  | reserved

-- object_id is stored in a byte
structure ObjectData where
  objectId : UInt8
  objectVersionNumber : Nat
  objectCodingMethod : Nat
  nonModifyingColourFlag : Nat
  coding : ObjectCoding := .reserved

structure ShiftUpdateSequence where
  length : UInt8
  intervalDuration : Nat
  divisionPeriodCount : Nat
  periods : List UInt8 := []

structure SubRegion where
  position : Option (Nat × Nat)
  integerPart : UInt8
  fractionalPart : Nat
  subSequence : Option ShiftUpdateSequence

structure DisparityRegion where
  regionId : UInt8
  updateFlag : Nat
  numberOfSubregionsMinus1 : Nat
  subregions : List SubRegion

structure DisparitySignalling where
  dssVersionNumber : Nat
  pageFlag : Nat
  pageDefaultDisparityShift : UInt8
  sequence : Option ShiftUpdateSequence := none
  disparityRegions : List DisparityRegion := []

structure AlternativeEntry where
  luma : Nat
  chroma1 : Nat
  chroma2 : Nat
  t : Nat

structure AlternativeClut where
  clutId : UInt8
  clutVersionNumber : Nat
  clutEntryMaxNumber : Nat
  colourComponentType : Nat
  outputBitDepth : Nat
  dynamicRangeAndColourGamut : UInt8
  cluts : List AlternativeEntry := []

inductive SegmentData
  | displayDefinition (dds : DisplayDefinition)
  | pageComposition (pcs : PageComposition)
  | regionComposition (rcs : RegionComposition)
  | clutDefinition (cds : ClutDefinition)
  | objectData (ods : ObjectData)
  | disparitySignalling (dss : DisparitySignalling)
  | alternativeClut (acs : AlternativeClut)
  | none

/-- A computation with `return ENOMEM` where an allocation fails. -/
abbrev Segmenting := Returning Nat

def allocated : Segmenting Unit :=
  require enomem.toNat

def allocatedFor (length : Nat) : Segmenting Unit :=
  if length ≠ 0 then allocated else pure ()

section Compositions

def readDisplayWindow : Cursor → Segmenting (DisplayWindow × Cursor) :=
  readAs 8 fun pdata => do
    let horizontalMinimum ← read16 pdata 0
    let horizontalMaximum ← read16 pdata 2
    let verticalMinimum ← read16 pdata 4
    let verticalMaximum ← read16 pdata 6
    return ⟨horizontalMinimum, horizontalMaximum, verticalMinimum, verticalMaximum⟩

def readDisplayHead : Cursor → Segmenting (DisplayDefinition × Cursor) :=
  readAs 5 fun pdata => do
    let flags ← read8 pdata 0
    let width ← read16 pdata 1
    let height ← read16 pdata 3
    return {
      ddsVersionNumber := readBits 8 flags.toNat 4 0
      displayWindowFlag := readBits 8 flags.toNat 1 4
      displayWidth := width
      displayHeight := height }

def readWindowOf (dds : DisplayDefinition) (cursor : Cursor) :
    Segmenting (SegmentData × Cursor) :=
  if dds.displayWindowFlag ≠ 0 then do
    let (window, cursor) ← readDisplayWindow cursor
    pure (.displayDefinition { dds with window := some window }, cursor)
  else pure (.displayDefinition dds, cursor)

def parseDisplayDefinition (cursor : Cursor) : Segmenting (SegmentData × Cursor) := do
  allocated
  let (dds, cursor) ← readDisplayHead cursor
  readWindowOf dds cursor

-- a reserved byte is skipped
def readPageRegion : Cursor → Segmenting (PageRegion × Cursor) :=
  readAs 6 fun pdata => do
    let regionId ← read8 pdata 0
    let horizontal ← read16 pdata 2
    let vertical ← read16 pdata 4
    return ⟨regionId, horizontal, vertical⟩

def readPageHead : Cursor → Segmenting (PageComposition × Cursor) :=
  readAs 2 fun pdata => do
    let pageTimeOut ← read8 pdata 0
    let flags ← read8 pdata 1
    return ⟨pageTimeOut, readBits 8 flags.toNat 4 0, readBits 8 flags.toNat 2 4, []⟩

-- as many regions are allocated as the length has room for
def parsePageComposition (segmentLength : Nat) (cursor : Cursor) :
    Segmenting (SegmentData × Cursor) := do
  allocated
  let (pcs, cursor) ← readPageHead cursor
  allocated
  let (region, cursor) ←
    cursorWhile (fun slen => decide (slen < segmentLength)) readPageRegion
      ((segmentLength - 2) / 6) cursor
  pure (.pageComposition { pcs with region := region }, cursor)

def readObjectHead : Cursor → Segmenting (RegionObject × Cursor) :=
  readAs 6 fun pdata => do
    let objectId ← read16 pdata 0
    let horizontal ← read16 pdata 2
    let vertical ← read16 pdata 4
    return {
      objectId := objectId
      objectType := readBits 16 horizontal 2 0
      objectProviderFlag := readBits 16 horizontal 2 2
      objectHorizontalPosition := readBits 16 horizontal 12 4
      objectVerticalPosition := readBits 16 vertical 12 4 }

def readPixelCodes (object : RegionObject) (cursor : Cursor) :
    Segmenting (RegionObject × Cursor) :=
  if object.objectType = 0x01 ∨ object.objectType = 0x02 then do
    let (codes, cursor) ← readAs 2 (fun pdata => do
      let foreground ← read8 pdata 0
      let background ← read8 pdata 1
      return (foreground, background)) cursor
    pure ({ object with pixelCodes := some codes }, cursor)
  else pure (object, cursor)

def readRegionObject (cursor : Cursor) : Segmenting (RegionObject × Cursor) := do
  allocated
  let (object, cursor) ← readObjectHead cursor
  readPixelCodes object cursor

def readRegionHead : Cursor → Segmenting (RegionComposition × Cursor) :=
  readAs 10 fun pdata => do
    let regionId ← read8 pdata 0
    let flags ← read8 pdata 1
    let width ← read16 pdata 2
    let height ← read16 pdata 4
    let depth ← read8 pdata 6
    let clutId ← read8 pdata 7
    let code8 ← read8 pdata 8
    let codes ← read8 pdata 9
    return {
      regionId := regionId
      regionVersionNumber := readBits 8 flags.toNat 4 0
      regionFillFlag := readBits 8 flags.toNat 1 4
      regionWidth := width
      regionHeight := height
      regionLevelOfCompatibility := readBits 8 depth.toNat 3 0
      regionDepth := readBits 8 depth.toNat 3 3
      clutId := clutId
      region8bitPixelCode := code8
      region4bitPixelCode := readBits 8 codes.toNat 4 0
      region2bitPixelCode := readBits 8 codes.toNat 2 4 }

def parseRegionComposition (segmentLength : Nat) (cursor : Cursor) :
    Segmenting (SegmentData × Cursor) := do
  allocated
  let (rcs, cursor) ← readRegionHead cursor
  let (object, cursor) ←
    cursorWhile (fun slen => decide (slen < segmentLength)) readRegionObject segmentLength cursor
  pure (.regionComposition { rcs with object := object }, cursor)

end Compositions

section Cluts

def readEntryHead : Cursor → Segmenting (ClutEntry × Cursor) :=
  readAs 2 fun pdata => do
    let entryId ← read8 pdata 0
    let flags ← read8 pdata 1
    return {
      entryId := entryId
      entry2bitClutFlag := readBits 8 flags.toNat 1 0
      entry4bitClutFlag := readBits 8 flags.toNat 1 1
      entry8bitClutFlag := readBits 8 flags.toNat 1 2
      fullRangeFlag := readBits 8 flags.toNat 1 7 }

def readFullColour : Cursor → Segmenting (ClutColour × Cursor) :=
  readAs 4 fun pdata => do
    let y ← read8 pdata 0
    let cr ← read8 pdata 1
    let cb ← read8 pdata 2
    let t ← read8 pdata 3
    return ⟨y.toNat, cr.toNat, cb.toNat, t.toNat⟩

def readShortColour : Cursor → Segmenting (ClutColour × Cursor) :=
  readAs 2 fun pdata => do
    let colour ← read16 pdata 0
    return ⟨readBits 16 colour 6 0, readBits 16 colour 4 6, readBits 16 colour 4 10,
      readBits 16 colour 2 14⟩

def readColour (fullRangeFlag : Nat) (cursor : Cursor) : Segmenting (ClutColour × Cursor) :=
  if fullRangeFlag ≠ 0 then readFullColour cursor else readShortColour cursor

def readClutEntry (cursor : Cursor) : Segmenting (ClutEntry × Cursor) := do
  allocated
  let (entry, cursor) ← readEntryHead cursor
  let (colour, cursor) ← readColour entry.fullRangeFlag cursor
  pure ({ entry with colour := some colour }, cursor)

def readClutHead : Cursor → Segmenting (ClutDefinition × Cursor) :=
  readAs 2 fun pdata => do
    let clutId ← read8 pdata 0
    let flags ← read8 pdata 1
    return ⟨clutId, readBits 8 flags.toNat 4 0, []⟩

def parseClutDefinition (segmentLength : Nat) (cursor : Cursor) :
    Segmenting (SegmentData × Cursor) := do
  allocated
  let (cds, cursor) ← readClutHead cursor
  let (cluts, cursor) ←
    cursorWhile (fun slen => decide (slen < segmentLength)) readClutEntry segmentLength cursor
  pure (.clutDefinition { cds with cluts := cluts }, cursor)

-- the four values overlap by some bits each
def readTenBitEntry : Cursor → Segmenting (AlternativeEntry × Cursor) :=
  readAs 5 fun pdata => do
    let luma ← read16 pdata 0
    let chroma1 ← read16 pdata 1
    let chroma2 ← read16 pdata 2
    let t ← read16 pdata 3
    return ⟨readBits 16 luma 10 0, readBits 16 chroma1 10 2, readBits 16 chroma2 10 4,
      readBits 16 t 10 2⟩

def readEightBitEntry : Cursor → Segmenting (AlternativeEntry × Cursor) :=
  readAs 4 fun pdata => do
    let luma ← read8 pdata 0
    let chroma1 ← read8 pdata 1
    let chroma2 ← read8 pdata 2
    let t ← read8 pdata 3
    return ⟨luma.toNat, chroma1.toNat, chroma2.toNat, t.toNat⟩

def readAlternativeEntry (outputBitDepth : Nat) (cursor : Cursor) :
    Segmenting (AlternativeEntry × Cursor) := do
  allocated
  if outputBitDepth = 1 then readEightBitEntry cursor else readTenBitEntry cursor

def readAlternativeHead : Cursor → Segmenting (AlternativeClut × Cursor) :=
  readAs 4 fun pdata => do
    let clutId ← read8 pdata 0
    let flags ← read8 pdata 1
    let parameters ← read8 pdata 2
    let gamut ← read8 pdata 3
    return {
      clutId := clutId
      clutVersionNumber := readBits 8 flags.toNat 4 0
      clutEntryMaxNumber := readBits 8 parameters.toNat 2 0
      colourComponentType := readBits 8 parameters.toNat 2 2
      outputBitDepth := readBits 8 parameters.toNat 3 4
      dynamicRangeAndColourGamut := gamut }

-- the loop counts from behind the head
def parseAlternativeClut (segmentLength : Nat) (cursor : Cursor) :
    Segmenting (SegmentData × Cursor) := do
  allocated
  let (acs, cursor) ← readAlternativeHead cursor
  let (cluts, cursor) ←
    cursorWhile (fun slen => decide (slen - 4 < segmentLength))
      (readAlternativeEntry acs.outputBitDepth) (segmentLength + 1) cursor
  pure (.alternativeClut { acs with cluts := cluts }, cursor)

end Cluts

section Objects

def readObjectDataHead : Cursor → Segmenting (ObjectData × Cursor) :=
  readAs 3 fun pdata => do
    let objectId ← read16 pdata 0
    let flags ← read8 pdata 2
    return {
      objectId := UInt8.ofNat objectId
      objectVersionNumber := readBits 8 flags.toNat 4 0
      objectCodingMethod := readBits 8 flags.toNat 2 4
      nonModifyingColourFlag := readBits 8 flags.toNat 1 6 }

def readFieldLengths : Cursor → Segmenting ((Nat × Nat) × Cursor) :=
  readAs 4 fun pdata => do
    let topLength ← read16 pdata 0
    let bottomLength ← read16 pdata 2
    return (topLength, bottomLength)

-- assert(top_len == length) for a field whose output is allocated when it has a length
def readFieldData (turns length : Nat) (out : PixelOutput) (cursor : Cursor) :
    Segmenting ((FieldData × PixelOutput) × Cursor) := do
  allocatedFor length
  let (len, num, out) ← running (readField turns cursor.pdata length out)
  if len = length then pure ((⟨length, out.data, num⟩, out), cursor.step len) else running failure

-- assert(segment_length - 7 - top_len - bottom_len <= 1); a stuffing byte for an even length
def checkStuffing (segmentLength lengths : Nat) (cursor : Cursor) : Segmenting (Unit × Cursor) :=
  if segmentLength ≤ 8 + lengths then
    if lengths % 2 = 0 then pure ((), cursor.step 1) else pure ((), cursor)
  else running failure

def readFields (turns segmentLength : Nat) (out : PixelOutput) (cursor : Cursor) :
    Segmenting ((ObjectCoding × PixelOutput) × Cursor) := do
  let (lengths, cursor) ← readFieldLengths cursor
  let (top, cursor) ← readFieldData turns lengths.1 out cursor
  let (bottom, cursor) ← readFieldData turns lengths.2 top.2 cursor
  let (_, cursor) ← checkStuffing segmentLength (lengths.1 + lengths.2) cursor
  pure ((.fields top.1 bottom.1, bottom.2), cursor)

-- number_of_codes bytes are allocated, and as many codes of two bytes stored
def readCharacters (cursor : Cursor) : Segmenting (ObjectCoding × Cursor) := do
  let (numberOfCodes, cursor) ← readAs 1 (read8 · 0) cursor
  allocated
  if 2 * numberOfCodes.toNat ≤ numberOfCodes.toNat then
    pure (.characters numberOfCodes, cursor)
  else running failure

def readProgressiveHead : Cursor → Segmenting ((Nat × Nat × Nat) × Cursor) :=
  readAs 6 fun pdata => do
    let width ← read16 pdata 0
    let height ← read16 pdata 2
    let length ← read16 pdata 4
    return (width, height, length)

def readProgressive (cursor : Cursor) : Segmenting (ObjectCoding × Cursor) := do
  let ((width, height, length), cursor) ← readProgressiveHead cursor
  allocated
  let (data, cursor) ← readAs length (readBytes · 0 length) cursor
  pure (.progressive width height data, cursor)

def readCoding (turns segmentLength : Nat) (out : PixelOutput) (ods : ObjectData)
    (cursor : Cursor) : Segmenting ((ObjectCoding × PixelOutput) × Cursor) :=
  if ods.objectCodingMethod = 0 then readFields turns segmentLength out cursor
  else if ods.objectCodingMethod = 1 then do
    let (coding, cursor) ← readCharacters cursor
    pure ((coding, out), cursor)
  else if ods.objectCodingMethod = 2 then do
    let (coding, cursor) ← readProgressive cursor
    pure ((coding, out), cursor)
  else pure ((.reserved, out), cursor)

def parseObjectData (turns segmentLength : Nat) (out : PixelOutput) (cursor : Cursor) :
    Segmenting ((SegmentData × PixelOutput) × Cursor) := do
  allocated
  let (ods, cursor) ← readObjectDataHead cursor
  let ((coding, out), cursor) ← readCoding turns segmentLength out ods cursor
  pure ((.objectData { ods with coding := coding }, out), cursor)

end Objects

section Disparity

def readSequenceHead : Cursor → Segmenting (ShiftUpdateSequence × Cursor) :=
  readAs 5 fun pdata => do
    let length ← read8 pdata 0
    let interval ← read32 pdata 1
    return ⟨length, readBits 32 interval 24 0, readBits 32 interval 8 24, []⟩

-- division_period_count periods of two bytes are allocated, and as many as this read
def readSequence (periods : Nat → Nat) (cursor : Cursor) :
    Segmenting (ShiftUpdateSequence × Cursor) := do
  let (sequence, cursor) ← readSequenceHead cursor
  allocated
  let count := periods sequence.divisionPeriodCount
  if count ≤ sequence.divisionPeriodCount then
    let (read, cursor) ← readAs (2 * count) (readBytes · 0 (2 * count)) cursor
    pure ({ sequence with periods := read }, cursor)
  else running failure

def readPosition (minus1 : Nat) (cursor : Cursor) :
    Segmenting (Option (Nat × Nat) × Cursor) :=
  if minus1 ≠ 0 then do
    let (position, cursor) ← readAs 4 (fun pdata => do
      let horizontal ← read16 pdata 0
      let width ← read16 pdata 2
      return (horizontal, width)) cursor
    pure (some position, cursor)
  else pure (none, cursor)

def readShift : Cursor → Segmenting ((UInt8 × Nat) × Cursor) :=
  readAs 2 fun pdata => do
    let integerPart ← read8 pdata 0
    let fractionalPart ← read8 pdata 1
    return (integerPart, readBits 8 fractionalPart.toNat 4 0)

-- under the flag of the page, and with its number of periods
def readSubSequence (page : Option Nat) (cursor : Cursor) :
    Segmenting (Option ShiftUpdateSequence × Cursor) :=
  match page with
  | some periods => do
      let (sequence, cursor) ← readSequence (fun _ => periods) cursor
      pure (some sequence, cursor)
  | none => pure (none, cursor)

def readSubRegion (page : Option Nat) (minus1 : Nat) (cursor : Cursor) :
    Segmenting (SubRegion × Cursor) := do
  let (position, cursor) ← readPosition minus1 cursor
  let (shift, cursor) ← readShift cursor
  let (sequence, cursor) ← readSubSequence page cursor
  pure (⟨position, shift.1, shift.2, sequence⟩, cursor)

def readSubRegions (page : Option Nat) (minus1 : Nat) :
    Nat → Cursor → Segmenting (List SubRegion × Cursor)
  | 0, cursor => pure ([], cursor)
  | count + 1, cursor => do
      let (first, cursor) ← readSubRegion page minus1 cursor
      let (rest, cursor) ← readSubRegions page minus1 count cursor
      pure (first :: rest, cursor)

-- Neither pdata nor slen moves on past the byte of flags; one of the two bits of
-- number_of_subregions_minus_1 is read.
def readDisparityRegion (page : Option Nat) (cursor : Cursor) :
    Segmenting (DisparityRegion × Cursor) := do
  allocated
  let (regionId, cursor) ← readAs 1 (read8 · 0) cursor
  let flags ← reading (read8 cursor.pdata 0)
  let minus1 := readBits 8 flags.toNat 1 6
  allocated
  let (subregions, cursor) ← readSubRegions page minus1 (minus1 + 1) cursor
  pure (⟨regionId, readBits 8 flags.toNat 1 0, minus1, subregions⟩, cursor)

def readDisparityHead : Cursor → Segmenting (DisparitySignalling × Cursor) :=
  readAs 2 fun pdata => do
    let flags ← read8 pdata 0
    let shift ← read8 pdata 1
    return ⟨readBits 8 flags.toNat 4 0, readBits 8 flags.toNat 1 4, shift, none, []⟩

def readPageSequence (pageFlag : Nat) (cursor : Cursor) :
    Segmenting (Option ShiftUpdateSequence × Cursor) :=
  if pageFlag = 1 then do
    let (sequence, cursor) ← readSequence id cursor
    pure (some sequence, cursor)
  else pure (none, cursor)

def parseDisparitySignalling (segmentLength : Nat) (cursor : Cursor) :
    Segmenting (SegmentData × Cursor) := do
  allocated
  let (dss, cursor) ← readDisparityHead cursor
  let (sequence, cursor) ← readPageSequence dss.pageFlag cursor
  let (regions, cursor) ←
    cursorWhile (fun slen => decide (slen < segmentLength))
      (readDisparityRegion (sequence.map ShiftUpdateSequence.divisionPeriodCount)) segmentLength
      cursor
  pure (.disparitySignalling { dss with sequence := sequence, disparityRegions := regions }, cursor)

end Disparity

section Segment

-- the segments that leave the static buffers of the pixel codes alone
def keeping (out : PixelOutput) (parse : Cursor → Segmenting (SegmentData × Cursor))
    (cursor : Cursor) : Segmenting ((SegmentData × PixelOutput) × Cursor) := do
  let (data, cursor) ← parse cursor
  pure ((data, out), cursor)

def parseSegmentData (turns : Nat) (type : UInt8) (segmentLength : Nat) (out : PixelOutput)
    (cursor : Cursor) : Segmenting ((SegmentData × PixelOutput) × Cursor) :=
  if type = 0x14 then keeping out parseDisplayDefinition cursor
  else if type = 0x10 then keeping out (parsePageComposition segmentLength) cursor
  else if type = 0x11 then keeping out (parseRegionComposition segmentLength) cursor
  else if type = 0x12 then keeping out (parseClutDefinition segmentLength) cursor
  else if type = 0x13 then parseObjectData turns segmentLength out cursor
  else if type = 0x15 then keeping out (parseDisparitySignalling segmentLength) cursor
  else if type = 0x16 then keeping out (parseAlternativeClut segmentLength) cursor
  else if type = 0x80 then pure ((.none, out), cursor)
  else pure ((.none, out), cursor.step segmentLength)

-- slen, and what there is to keep unless an allocation has failed
def parseSubSegment (turns : Nat) (pbuf : Block) (type : UInt8) (segmentLength : Nat)
    (out : PixelOutput) : Allocating (Nat × SegmentData × PixelOutput) := do
  match ← (parseSegmentData turns type segmentLength out ⟨pbuf, 0⟩).run with
  | .ok ((data, out), cursor) => pure (cursor.len, data, out)
  | .error ret => pure (ret, .none, out)

/-- A node of seg_list. -/
structure SegmentNode where
  segmentType : UInt8
  pageId : Nat
  segmentLength : Nat
  data : SegmentData

-- assert(h->sync_byte == 0x0F); six bytes
def parseSubtitleSegmentHeader (pbuf : Block) : Option SegmentNode := do
  let syncByte ← read8 pbuf 0
  if syncByte = 0x0F then
    let segmentType ← read8 pbuf 1
    let pageId ← read16 pbuf 2
    let segmentLength ← read16 pbuf 4
    return ⟨segmentType, pageId, segmentLength, .none⟩
  else none

/-- The list, and beside it the static buffers of the pixel codes. -/
structure SubtitlePesData where
  dataIdentifier : UInt8 := 0
  subtitleStreamId : UInt8 := 0
  segList : List SegmentNode := []
  out : PixelOutput := {}

-- a segment, and assert(slen == segment_length); `none` is a node that memory does not last for
def parseNode (turns : Nat) (pdata : Block) (out : PixelOutput) :
    Allocating (Option (SegmentNode × PixelOutput)) := do
  if ← reserve then
    let header ← parseSubtitleSegmentHeader pdata
    let (slen, data, out) ←
      parseSubSegment turns (pdata.drop 6) header.segmentType header.segmentLength out
    if slen = header.segmentLength then pure (some ({ header with data := data }, out))
    else failure
  else pure none

-- each segment takes six bytes at least, so that there are no more of them than bytes
def subtitleLoop (turns : Nat) : Nat → Block → Int → SubtitlePesData →
    Allocating (Int × SubtitlePesData)
  | 0, _, _, _ => failure
  | segments + 1, pdata, segLen, subtitle => do
      let nextBits ← read8 pdata 0
      if nextBits = 0x0F ∧ segLen ≠ 0 then
        match ← parseNode turns pdata subtitle.out with
        | some (node, out) =>
            subtitleLoop turns segments (pdata.drop (6 + node.segmentLength))
              (segLen - 6 - node.segmentLength)
              { subtitle with segList := subtitle.segList ++ [node], out := out }
        | none => pure (enomem, subtitle)
      else pure (0, subtitle)

-- a list from an earlier call is freed
def parseSubtitle (turns : Nat) (pbuf : Block) (len : Int) (subtitle : SubtitlePesData) :
    Allocating (Int × SubtitlePesData) := do
  let dataIdentifier ← read8 pbuf 0
  let subtitleStreamId ← read8 pbuf 1
  let subtitle := { subtitle with
    dataIdentifier := dataIdentifier
    subtitleStreamId := subtitleStreamId
    segList := [] }
  if dataIdentifier ≠ 0x20 ∨ subtitleStreamId ≠ 0x00 then pure (-1, subtitle)
  else subtitleLoop turns pbuf.length (pbuf.drop 2) (len - 2) subtitle

end Segment

end TsAnalyze.Subtitle
