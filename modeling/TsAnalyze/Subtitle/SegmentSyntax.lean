import TsAnalyze.Subtitle.Fields
import TsAnalyze.Subtitle.Segments

set_option autoImplicit false

namespace TsAnalyze.Subtitle

open Memory Tables

/-- A segment's fields as they are sent; what no length depends on is kept as bytes. -/
structure SentDisplay where
  version : Nat
  reserved : Nat
  size : Raw 4
  window : Option (Raw 8)
  versionFits : version < 16
  reservedFits : reserved < 8

structure SentObject where
  objectId : Raw 2
  objectType : Nat
  position : Nat
  vertical : Raw 2
  pixelCodes : List UInt8
  typeFits : objectType < 4
  positionFits : position < 2 ^ 14
  coded : pixelCodes.length = if objectType = 1 ∨ objectType = 2 then 2 else 0

structure SentEntry where
  entryId : UInt8
  flags : Nat
  fullRange : Bool
  colour : List UInt8
  flagsFit : flags < 128
  sized : colour.length = if fullRange then 4 else 2

inductive SentCoding
  | fields (top bottom : List PixelBlock) (stuffing : UInt8)
      (topFits : (encodeField top).length < 65536)
      (bottomFits : (encodeField bottom).length < 65536)
  | characters (codes : List (Raw 2)) (few : codes.length < 256)
  | progressive (size : Raw 4) (data : List UInt8) (few : data.length < 65536)

structure SentObjectData where
  objectId : Raw 2
  version : Nat
  low : Nat
  coding : SentCoding
  versionFits : version < 16
  lowFits : low < 4

structure SentSequence where
  length : UInt8
  interval : Raw 3
  periods : List (Raw 2)
  few : periods.length < 256

structure SentSubRegion where
  position : Raw 4
  shift : Raw 2
  sequence : SentSequence

-- one to four sub-regions, all with a sequence or none
structure SentRegion where
  regionId : UInt8
  sequenced : Bool
  reserved : Nat
  subregions : List SentSubRegion
  reservedFits : reserved < 32
  some : 0 < subregions.length
  few : subregions.length ≤ 4

structure SentDisparity where
  version : Nat
  reserved : Nat
  shift : UInt8
  sequence : Option SentSequence
  regions : List SentRegion
  versionFits : version < 16
  reservedFits : reserved < 8

structure SentAlternative where
  clutId : UInt8
  version : UInt8
  kind : Nat
  outputBitDepth : Nat
  reserved : Nat
  gamut : UInt8
  entries : List (List UInt8)
  kindFits : kind < 16
  depthFits : outputBitDepth < 8
  reservedFits : reserved < 2
  sized : ∀ entry ∈ entries, entry.length = if outputBitDepth = 1 then 4 else 5

inductive SegmentBody
  | displayDefinition (display : SentDisplay)
  | pageComposition (head : Raw 2) (regions : List (Raw 6))
  | regionComposition (head : Raw 10) (objects : List SentObject)
  | clutDefinition (head : Raw 2) (entries : List SentEntry)
  | objectData (object : SentObjectData)
  | disparitySignalling (disparity : SentDisparity)
  | alternativeClut (clut : SentAlternative)
  | endOfDisplaySet

section Encode

def SentDisplay.encode (display : SentDisplay) : List UInt8 :=
  [UInt8.ofNat (display.version * 2 ^ 4 + display.window.isSome.toNat * 2 ^ 3 + display.reserved)] ++
    display.size.1 ++ encodeRaw display.window

def SentObject.encode (object : SentObject) : List UInt8 :=
  object.objectId.1 ++ encode16 (object.objectType * 2 ^ 14 + object.position) ++
    object.vertical.1 ++ object.pixelCodes

def SentEntry.encode (entry : SentEntry) : List UInt8 :=
  [entry.entryId, UInt8.ofNat (entry.flags * 2 + entry.fullRange.toNat)] ++ entry.colour

namespace SentCoding

def method : SentCoding → Nat
  | fields _ _ _ _ _ => 0
  | characters _ _ => 1
  | progressive _ _ _ => 2

-- a byte of stuffing where the fields have an even length together
def encode : SentCoding → List UInt8
  | fields top bottom stuffing _ _ =>
      (encode16 (encodeField top).length ++ encode16 (encodeField bottom).length) ++
        (encodeField top ++ (encodeField bottom ++
          if ((encodeField top).length + (encodeField bottom).length) % 2 = 0 then [stuffing]
          else []))
  | characters codes _ => [UInt8.ofNat codes.length] ++ codes.flatMap (·.1)
  | progressive size data _ => (size.1 ++ encode16 data.length) ++ data

end SentCoding

def SentObjectData.encode (object : SentObjectData) : List UInt8 :=
  object.objectId.1 ++
    [UInt8.ofNat (object.version * 2 ^ 4 + object.coding.method * 2 ^ 2 + object.low)] ++
      object.coding.encode

def SentSequence.encode (sequence : SentSequence) : List UInt8 :=
  ([sequence.length] ++ sequence.interval.1 ++ [UInt8.ofNat sequence.periods.length]) ++
    sequence.periods.flatMap (·.1)

def SentSubRegion.encode (several sequenced : Bool) (subregion : SentSubRegion) : List UInt8 :=
  (if several then subregion.position.1 else []) ++ subregion.shift.1 ++
    if sequenced then subregion.sequence.encode else []

def SentRegion.encode (region : SentRegion) : List UInt8 :=
  [region.regionId, UInt8.ofNat (region.sequenced.toNat * 2 ^ 7 + region.reserved * 2 ^ 2 +
      (region.subregions.length - 1))] ++
    region.subregions.flatMap
      (SentSubRegion.encode (decide (1 < region.subregions.length)) region.sequenced)

namespace SentDisparity

def head (disparity : SentDisparity) : List UInt8 :=
  [UInt8.ofNat (disparity.version * 2 ^ 4 + disparity.sequence.isSome.toNat * 2 ^ 3 +
    disparity.reserved), disparity.shift]

def encode (disparity : SentDisparity) : List UInt8 :=
  disparity.head ++ (disparity.sequence.elim [] SentSequence.encode ++
    disparity.regions.flatMap SentRegion.encode)

end SentDisparity

def SentAlternative.encode (clut : SentAlternative) : List UInt8 :=
  [clut.clutId, clut.version,
    UInt8.ofNat (clut.kind * 2 ^ 4 + clut.outputBitDepth * 2 + clut.reserved), clut.gamut] ++
      clut.entries.flatten

namespace SegmentBody

def type : SegmentBody → UInt8
  | pageComposition _ _ => 0x10
  | regionComposition _ _ => 0x11
  | clutDefinition _ _ => 0x12
  | objectData _ => 0x13
  | displayDefinition _ => 0x14
  | disparitySignalling _ => 0x15
  | alternativeClut _ => 0x16
  | endOfDisplaySet => 0x80

def encode : SegmentBody → List UInt8
  | displayDefinition display => display.encode
  | pageComposition head regions => head.1 ++ regions.flatMap (·.1)
  | regionComposition head objects => head.1 ++ objects.flatMap SentObject.encode
  | clutDefinition head entries => head.1 ++ entries.flatMap SentEntry.encode
  | objectData object => object.encode
  | disparitySignalling disparity => disparity.encode
  | alternativeClut clut => clut.encode
  | endOfDisplaySet => []

end SegmentBody

/-- A segment with the segment_length that its syntax gives. -/
structure Segment where
  pageId : Nat
  body : SegmentBody
  pageFits : pageId < 65536
  bodyFits : body.encode.length < 65536

def Segment.encode (segment : Segment) : List UInt8 :=
  ([0x0F, segment.body.type] ++ encode16 segment.pageId ++ encode16 segment.body.encode.length) ++
    segment.body.encode

-- the PES payload
def encodeSubtitle (segments : List Segment) : List UInt8 :=
  [0x20, 0x00] ++ (segments.flatMap Segment.encode ++ [0xFF])

end Encode

/-- A payload is read to its end with no assertion that fails, and the list holds its segments. -/
def ReadsSubtitle (segments : List Segment) (behind : Block) (subtitle : SubtitlePesData) : Prop :=
  ∃ turns result, Yields (parseSubtitle turns (ofBytes (encodeSubtitle segments) ++ behind)
      (encodeSubtitle segments).length subtitle) (0, result) ∧
    result.segList.map (fun node => (node.segmentType, node.pageId)) =
      segments.map fun segment => (segment.body.type, segment.pageId)

end TsAnalyze.Subtitle
