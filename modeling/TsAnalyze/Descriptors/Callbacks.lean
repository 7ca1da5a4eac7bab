import TsAnalyze.Shared.Reading
import TsAnalyze.Tables.Header

set_option autoImplicit false

namespace TsAnalyze.Descriptors

open Memory Tables

-- `none` is a member that realloc has left as it was
structure ExtendEventLinkageSubinfo where
  targetEventId : Nat
  targetListed : Nat
  eventSimulcast : Nat
  linkType : Nat
  targetIdType : Nat
  originalNetworkIdFlag : Nat
  serviceIdFlag : Nat
  userDefinedId : Option Nat := none
  targetTransportStreamId : Option Nat := none
  targetOriginalNetworkId : Option Nat := none
  targetServiceId : Option Nat := none

structure ExtendEventLinkageInfo where
  loopLength : UInt8
  subinfo : List ExtendEventLinkageSubinfo

structure MultilingualNode where
  iso639LanguageCode : Nat
  nameLength : Nat
  textChar : List UInt8

structure MultilingualServiceNode where
  iso639LanguageCode : Nat
  nameLength : Nat
  textChar : List UInt8
  serviceNameLength : UInt8
  serviceChar : List UInt8

structure SubcellListInfo where
  cellIdExtension : Nat
  subcellLatitude : Nat
  subcellLongitude : Nat
  subcellExtentOfLatitude : Nat
  subcellExtentOfLongitude : Nat

structure CellListNode where
  cellId : Nat
  cellLatitude : Nat
  cellLongitude : Nat
  cellExtentOfLatitude : Nat
  cellExtentOfLongitude : Nat
  subcellInfoLoopLength : Nat
  subcellList : List SubcellListInfo

structure SubcellInfo where
  cellIdExtension : UInt8
  transposerFrequency : Nat

structure CellFrequencyNode where
  cellId : Nat
  frequency : Nat
  subcellInfoLoopLength : UInt8
  subcellInfoList : List SubcellInfo

structure SubDescriptor where
  subDescriptorTag : UInt8
  subDescriptorLength : UInt8
  subDescriptorByte : List UInt8

structure CompatobilitylistDescriptor where
  type : UInt8
  length : UInt8
  specifierType : Nat
  specifierData : Nat
  model : Nat
  version : Nat
  count : UInt8
  sub : List SubDescriptor

structure CompatibilityDescriptor where
  length : Nat
  count : Nat
  sub : List CompatobilitylistDescriptor

structure ModuleInfo where
  moduleId : Nat
  moduleSize : Nat
  moduleInfoLength : UInt8
  moduleInfoByte : List UInt8

structure ModuleInfoList where
  numOfModules : Nat
  info : List ModuleInfo

structure TextInfo where
  iso639LanguageCode : Nat
  textLength : Nat
  textChar : List UInt8

-- an identifier that is there under a condition
def optional16 (present : Prop) [Decidable present] (ptr : Block) (l : Nat) :
    Option (Option Nat × Nat) :=
  if present then (read16 ptr l).map fun value => (some value, l + 2) else some (none, l)

-- the flags come from the start of the structure, not from the entry
def readSubinfo (buf ptr : Block) : Option (ExtendEventLinkageSubinfo × Nat) := do
  let targetEventId ← read16 ptr 0
  let flags ← read8 buf 0
  let info : ExtendEventLinkageSubinfo := {
    targetEventId := targetEventId
    targetListed := readBits 8 flags.toNat 1 0
    eventSimulcast := readBits 8 flags.toNat 1 1
    linkType := readBits 8 flags.toNat 2 2
    targetIdType := readBits 8 flags.toNat 2 4
    originalNetworkIdFlag := readBits 8 flags.toNat 1 6
    serviceIdFlag := readBits 8 flags.toNat 1 7 }
  if info.targetIdType = 3 then
    let userDefinedId ← read16 ptr 3
    return ({ info with userDefinedId := some userDefinedId }, 5)
  else
    let (transport, l) ← optional16 (info.targetIdType = 1) ptr 3
    let (network, l) ← optional16 (info.originalNetworkIdFlag ≠ 0) ptr l
    let (service, l) ← optional16 (info.serviceIdFlag ≠ 0) ptr l
    return ({ info with
      targetTransportStreamId := transport
      targetOriginalNetworkId := network
      targetServiceId := service }, l)

-- the entries may take more than loop_length, the bytes that are skipped
def parseExtendEventLinkageInfo (buf : Block) : Option (ExtendEventLinkageInfo × Nat) := do
  let loopLength ← read8 buf 0
  let (subinfo, _) ← readWhile (readSubinfo buf) (fun l => decide (l < loopLength.toNat))
    (buf.drop 1) 256 0 []
  return (⟨loopLength, subinfo⟩, loopLength.toNat + 1)

def parseMultilingualNode (buf : Block) : Option (MultilingualNode × Nat) := do
  let word ← read32 buf 0
  let nameLength := readBits 32 word 8 24
  let textChar ← readBytes buf 4 nameLength
  return (⟨readBits 32 word 24 0, nameLength, textChar⟩, nameLength + 4)

def parseMultilingualServiceNode (buf : Block) : Option (MultilingualServiceNode × Nat) := do
  let word ← read32 buf 0
  let nameLength := readBits 32 word 8 24
  let textChar ← readBytes buf 4 nameLength
  let serviceNameLength ← read8 buf (4 + nameLength)
  let serviceChar ← readBytes buf (5 + nameLength) serviceNameLength.toNat
  return (⟨readBits 32 word 24 0, nameLength, textChar, serviceNameLength, serviceChar⟩,
    nameLength + 5 + serviceNameLength.toNat)

def readSubcell (ptr : Block) : Option (SubcellListInfo × Nat) :=
  (read64 ptr 0).map fun word =>
    (⟨readBits 64 word 8 0, readBits 64 word 16 8, readBits 64 word 16 24, readBits 64 word 12 40,
      readBits 64 word 12 52⟩, 8)

def parseCellListDescriptor (buf : Block) : Option (CellListNode × Nat) := do
  let cellId ← read16 buf 0
  let cellLatitude ← read16 buf 2
  let cellLongitude ← read16 buf 4
  let word ← read32 buf 6
  let loopLength := readBits 32 word 8 24
  let (subcells, size) ← readTimes readSubcell (loopLength / 8) (buf.drop 10)
  return (⟨cellId, cellLatitude, cellLongitude, readBits 32 word 12 0, readBits 32 word 12 12,
    loopLength, subcells⟩, 10 + size)

def readSubcellInfo (ptr : Block) : Option (SubcellInfo × Nat) := do
  let cellIdExtension ← read8 ptr 0
  let transposerFrequency ← read32 ptr 1
  return (⟨cellIdExtension, transposerFrequency⟩, 5)

def parseCellFrequencyLinkDescriptor (buf : Block) : Option (CellFrequencyNode × Nat) := do
  let cellId ← read16 buf 0
  let frequency ← read32 buf 2
  let loopLength ← read8 buf 6
  let (subcells, size) ← readTimes readSubcellInfo (loopLength.toNat / 5) (buf.drop 7)
  return (⟨cellId, frequency, loopLength, subcells⟩, 7 + size)

def readSubDescriptor (ptr : Block) : Option (SubDescriptor × Nat) := do
  let tag ← read8 ptr 0
  let length ← read8 ptr 1
  let bytes ← readBytes ptr 2 length.toNat
  return (⟨tag, length, bytes⟩, 2 + length.toNat)

def readCompatobilitylistDescriptor (ptr : Block) :
    Option (CompatobilitylistDescriptor × Nat) := do
  let type ← read8 ptr 0
  let length ← read8 ptr 1
  let word ← read32 ptr 2
  let model ← read16 ptr 6
  let version ← read16 ptr 8
  let count ← read8 ptr 10
  let (sub, size) ← readTimes readSubDescriptor count.toNat (ptr.drop 11)
  return (⟨type, length, readBits 32 word 8 0, readBits 32 word 24 8, model, version, count, sub⟩,
    11 + size)

def parseCompatibilityDescriptor (buf : Block) : Option (CompatibilityDescriptor × Nat) := do
  let length ← read16 buf 0
  let count ← read16 buf 2
  let (sub, size) ← readTimes readCompatobilitylistDescriptor count (buf.drop 4)
  return (⟨length, count, sub⟩, 4 + size)

def readModuleInfo (ptr : Block) : Option (ModuleInfo × Nat) := do
  let moduleId ← read16 ptr 0
  let moduleSize ← read32 ptr 2
  let length ← read8 ptr 6
  let bytes ← readBytes ptr 7 length.toNat
  return (⟨moduleId, moduleSize, length, bytes⟩, 7 + length.toNat)

def parseModuleInfoList (buf : Block) : Option (ModuleInfoList × Nat) := do
  let numOfModules ← read16 buf 0
  let (info, size) ← readTimes readModuleInfo numOfModules (buf.drop 2)
  return (⟨numOfModules, info⟩, 2 + size)

def parseTextInfo (buf : Block) : Option (TextInfo × Nat) := do
  let word ← read32 buf 0
  let textLength := readBits 32 word 8 24
  let textChar ← readBytes buf 4 textLength
  return (⟨readBits 32 word 24 0, textLength, textChar⟩, textLength + 4)

-- the functions that the _custom macros are given
inductive Callback
  | extendEventLinkageInfo
  | multilingualNode
  | multilingualServiceNode
  | cellListDescriptor
  | cellFrequencyLinkDescriptor
  | compatibilityDescriptor
  | moduleInfoList
  | textInfo
deriving DecidableEq

inductive Record
  | extendEventLinkageInfo (info : ExtendEventLinkageInfo)
  | multilingualNode (node : MultilingualNode)
  | multilingualServiceNode (node : MultilingualServiceNode)
  | cellListNode (node : CellListNode)
  | cellFrequencyNode (node : CellFrequencyNode)
  | compatibilityDescriptor (descriptor : CompatibilityDescriptor)
  | moduleInfoList (list : ModuleInfoList)
  | textInfo (info : TextInfo)

-- what is filled in, and the bytes that the caller moves on by
def Callback.parse (callback : Callback) (buf : Block) : Option (Record × Nat) :=
  match callback with
  | .extendEventLinkageInfo =>
      (parseExtendEventLinkageInfo buf).map (Prod.map .extendEventLinkageInfo id)
  | .multilingualNode => (parseMultilingualNode buf).map (Prod.map .multilingualNode id)
  | .multilingualServiceNode =>
      (parseMultilingualServiceNode buf).map (Prod.map .multilingualServiceNode id)
  | .cellListDescriptor => (parseCellListDescriptor buf).map (Prod.map .cellListNode id)
  | .cellFrequencyLinkDescriptor =>
      (parseCellFrequencyLinkDescriptor buf).map (Prod.map .cellFrequencyNode id)
  | .compatibilityDescriptor =>
      (parseCompatibilityDescriptor buf).map (Prod.map .compatibilityDescriptor id)
  | .moduleInfoList => (parseModuleInfoList buf).map (Prod.map .moduleInfoList id)
  | .textInfo => (parseTextInfo buf).map (Prod.map .textInfo id)

end TsAnalyze.Descriptors
