import TsAnalyze.Tables.Psi

set_option autoImplicit false

namespace TsAnalyze.Tables

open Memory Demux

structure TransportStreamNode (D : Type) where
  transportStreamId : Nat
  originalNetworkId : Nat
  transportDescriptorsLength : Nat
  list : List (Descriptor D)

structure Nit (D : Type) where
  networkDescriptorsLength : Nat := 0
  list : List (Descriptor D) := []
  transportStreamLoopLength : Nat := 0
  h : List (TransportStreamNode D) := []

structure Bat (D : Type) where
  bouquetId : Nat := 0
  bouquetDescriptorsLength : Nat := 0
  list : List (Descriptor D) := []
  transportStreamLoopLength : Nat := 0
  h : List (TransportStreamNode D) := []

structure ServiceNode (D : Type) where
  serviceId : Nat
  eitScheduleFlag : Nat
  eitPresentFollowingFlag : Nat
  runningStatus : Nat
  freeCaMode : Nat
  descriptorsLoopLength : Nat
  list : List (Descriptor D)

structure Sdt (D : Type) where
  originalNetworkId : Nat := 0
  h : List (ServiceNode D) := []

structure EventNode (D : Type) where
  eventId : Nat
  startTime : Nat
  duration : Nat
  runningStatus : Nat
  freeCaMode : Nat
  descriptorsLoopLength : Nat
  list : List (Descriptor D)

structure Eit (D : Type) where
  transportStreamId : Nat := 0
  originalNetworkId : Nat := 0
  segmentLastSectionNumber : UInt8 := 0
  lastTableId : UInt8 := 0
  h : List (EventNode D) := []

variable {D : Type} (ops : DescriptorOps D)

-- parse_nit leaves the cut to twelve bits to the field, parse_bat masks
def readTransportStream (pdata : Block) : Allocating (TransportStreamNode D × Nat × Nat) := do
  let transportStreamId ← read16 pdata 0
  let originalNetworkId ← read16 pdata 2
  let word ← read16 pdata 4
  let length := word &&& 0xFFF
  let list ← parseDescriptors ops [] (pdata.drop 6) length
  pure (⟨transportStreamId, originalNetworkId, length, list⟩, 6 + length, 6 + length)

-- the two lengths, the descriptors and the transport streams of a NIT or a BAT
structure TransportLoops (D : Type) where
  descriptorsLength : Nat
  list : List (Descriptor D)
  loopLength : Nat
  h : List (TransportStreamNode D)
  ret : Int

def readTransportLoops (sectionLength : Nat) (pdata : Block) :
    Allocating (TransportLoops D) := do
  let word ← read16 pdata 0
  let length := word &&& 0xFFF
  let list ← parseDescriptors ops [] (pdata.drop 2) length
  let rest := pdata.drop (2 + length)
  let loopWord ← read16 rest 0
  let streams := rest.drop 2
  let sectionLen := toInt16 (toInt16 (sectionLength - (5 + 4)) - (4 + length))
  let (h, ret) ← nodeLoop toInt16 (readTransportStream ops) (streams.length + 1) streams
    sectionLen []
  pure ⟨length, list, loopWord &&& 0xFFF, h, ret⟩

-- the descriptors of the old transport streams are not freed
def decodeNit : Decoder (Nit D) := fun header pdata nit => do
  freeDescriptors ops nit.list
  let loops ← readTransportLoops ops header.sectionLength pdata
  pure {
    content := ⟨loops.descriptorsLength, loops.list, loops.loopLength, loops.h⟩
    ret := loops.ret }

def decodeBat : Decoder (Bat D) := fun header pdata bat => do
  freeDescriptors ops bat.list
  let loops ← readTransportLoops ops header.sectionLength pdata
  pure {
    content := ⟨header.tableId, loops.descriptorsLength, loops.list, loops.loopLength, loops.h⟩
    ret := loops.ret }

def readService (pdata : Block) : Allocating (ServiceNode D × Nat × Nat) := do
  let serviceId ← read16 pdata 0
  let flags ← read8 pdata 2
  let word ← read16 pdata 3
  let length := word &&& 0x0FFF
  let list ← parseDescriptors ops [] (pdata.drop 5) length
  pure ({
    serviceId := serviceId
    eitScheduleFlag := (flags.toNat >>> 1) &&& 0x1
    eitPresentFollowingFlag := flags.toNat &&& 0x1
    runningStatus := (word >>> 13) &&& 0x7
    freeCaMode := (word >>> 12) &&& 0x1
    descriptorsLoopLength := length
    list := list }, 5 + length, 5 + length)

def decodeSdt : Decoder (Sdt D) := fun header pdata sdt => do
  freeDescriptors ops (sdt.h.flatMap ServiceNode.list)
  let originalNetworkId ← read16 pdata 0
  let services := pdata.drop 3
  let sectionLen := toInt16 (toInt16 (header.sectionLength - (5 + 4)) - 3)
  let (h, ret) ← nodeLoop toInt16 (readService ops) (services.length + 1) services sectionLen []
  pure { content := ⟨originalNetworkId, h⟩, ret := ret }

-- pdata does not move on by the descriptors; the dump of an event on stderr is left out
def readEvent (pdata : Block) : Allocating (EventNode D × Nat × Nat) := do
  let eventId ← read16 pdata 0
  let time ← read64 pdata 2
  let word ← read16 pdata 10
  let length := readBits 16 word 12 4
  let list ← parseDescriptors ops [] (pdata.drop 12) length
  pure ({
    eventId := eventId
    startTime := readBits 64 time 40 0
    duration := readBits 64 time 24 40
    runningStatus := readBits 16 word 3 0
    freeCaMode := readBits 16 word 1 3
    descriptorsLoopLength := length
    list := list }, 12 + length, 12)

-- the events are added to those already there
def decodeEit : Decoder (Eit D) := fun header pdata eit => do
  let transportStreamId ← read16 pdata 0
  let originalNetworkId ← read16 pdata 2
  let segmentLastSectionNumber ← read8 pdata 4
  let lastTableId ← read8 pdata 5
  let events := pdata.drop 6
  let sectionLen := toUInt16 (toUInt16 (header.sectionLength - (5 + 4)) - 6)
  let (h, ret) ← nodeLoop toUInt16 (readEvent ops) (events.length + 1) events sectionLen eit.h
  pure {
    content := ⟨transportStreamId, originalNetworkId, segmentLastSectionNumber, lastTableId, h⟩
    ret := ret }

section Plain

theorem readTransportStream_plain (pdata : Block) : Plain (readTransportStream ops pdata) := by
  apply plain_bind _ _ (plain_lift _)
  intro transportStreamId
  apply plain_bind _ _ (plain_lift _)
  intro originalNetworkId
  apply plain_bind _ _ (plain_lift _)
  intro word
  apply plain_bind _ _ (parseDescriptors_plain ops _ _ _)
  intro list
  exact plain_pure _

theorem readTransportLoops_plain (sectionLength : Nat) (pdata : Block) :
    Plain (readTransportLoops ops sectionLength pdata) := by
  apply plain_bind _ _ (plain_lift _)
  intro word
  apply plain_bind _ _ (parseDescriptors_plain ops _ _ _)
  intro list
  apply plain_bind _ _ (plain_lift _)
  intro loopWord
  apply plain_bind _ _ (nodeLoop_plain _ _ (readTransportStream_plain ops) _ _ _ _)
  intro nodes
  exact plain_pure _

theorem decodeNit_plain (header : TableHeader) (pdata : Block) (nit : Nit D) :
    Plain (decodeNit ops header pdata nit) := by
  apply plain_bind _ _ (plain_lift _)
  intro freed
  apply plain_bind _ _ (readTransportLoops_plain ops _ _)
  intro loops
  exact plain_pure _

theorem decodeBat_plain (header : TableHeader) (pdata : Block) (bat : Bat D) :
    Plain (decodeBat ops header pdata bat) := by
  apply plain_bind _ _ (plain_lift _)
  intro freed
  apply plain_bind _ _ (readTransportLoops_plain ops _ _)
  intro loops
  exact plain_pure _

theorem readService_plain (pdata : Block) : Plain (readService ops pdata) := by
  apply plain_bind _ _ (plain_lift _)
  intro serviceId
  apply plain_bind _ _ (plain_lift _)
  intro flags
  apply plain_bind _ _ (plain_lift _)
  intro word
  apply plain_bind _ _ (parseDescriptors_plain ops _ _ _)
  intro list
  exact plain_pure _

theorem decodeSdt_plain (header : TableHeader) (pdata : Block) (sdt : Sdt D) :
    Plain (decodeSdt ops header pdata sdt) := by
  apply plain_bind _ _ (plain_lift _)
  intro freed
  apply plain_bind _ _ (plain_lift _)
  intro originalNetworkId
  apply plain_bind _ _ (nodeLoop_plain _ _ (readService_plain ops) _ _ _ _)
  intro nodes
  exact plain_pure _

theorem readEvent_plain (pdata : Block) : Plain (readEvent ops pdata) := by
  apply plain_bind _ _ (plain_lift _)
  intro eventId
  apply plain_bind _ _ (plain_lift _)
  intro time
  apply plain_bind _ _ (plain_lift _)
  intro word
  apply plain_bind _ _ (parseDescriptors_plain ops _ _ _)
  intro list
  exact plain_pure _

theorem decodeEit_plain (header : TableHeader) (pdata : Block) (eit : Eit D) :
    Plain (decodeEit ops header pdata eit) := by
  apply plain_bind _ _ (plain_lift _)
  intro transportStreamId
  apply plain_bind _ _ (plain_lift _)
  intro originalNetworkId
  apply plain_bind _ _ (plain_lift _)
  intro segmentLastSectionNumber
  apply plain_bind _ _ (plain_lift _)
  intro lastTableId
  apply plain_bind _ _ (nodeLoop_plain _ _ (readEvent_plain ops) _ _ _ _)
  intro nodes
  exact plain_pure _

end Plain

end TsAnalyze.Tables
