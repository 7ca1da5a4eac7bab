import TsAnalyze.Tables.DvbSi
import TsAnalyze.Tables.PmtEncoding

set_option autoImplicit false

namespace TsAnalyze.Tables

open Memory Demux

section Labels

variable {D : Type}

structure TransportLabel where
  transportStreamId : Nat
  originalNetworkId : Nat
  descriptors : List (UInt8 × UInt8)

def TransportStreamNode.label (node : TransportStreamNode D) : TransportLabel :=
  ⟨node.transportStreamId, node.originalNetworkId, node.list.map Descriptor.label⟩

structure ServiceLabel where
  serviceId : Nat
  eitScheduleFlag : Nat
  eitPresentFollowingFlag : Nat
  runningStatus : Nat
  freeCaMode : Nat
  descriptors : List (UInt8 × UInt8)

def ServiceNode.label (node : ServiceNode D) : ServiceLabel :=
  ⟨node.serviceId, node.eitScheduleFlag, node.eitPresentFollowingFlag, node.runningStatus,
    node.freeCaMode, node.list.map Descriptor.label⟩

end Labels

variable {D : Type} (ops : DescriptorOps D)

structure TransportStream where
  transportStreamId : Nat
  originalNetworkId : Nat
  idFits : transportStreamId < 65536
  networkFits : originalNetworkId < 65536
  descriptors : List (AcceptedDescriptor ops)

-- what a network and a bouquet have in common
structure Transports where
  descriptors : List (AcceptedDescriptor ops)
  streams : List (TransportStream ops)

structure Service where
  serviceId : Nat
  eitScheduleFlag : Bool
  eitPresentFollowingFlag : Bool
  runningStatus : Nat
  freeCaMode : Bool
  idFits : serviceId < 65536
  statusFits : runningStatus < 8
  descriptors : List (AcceptedDescriptor ops)

variable {ops}

namespace TransportStream

def label (stream : TransportStream ops) : TransportLabel :=
  ⟨stream.transportStreamId, stream.originalNetworkId,
    stream.descriptors.map AcceptedDescriptor.label⟩

def encode (stream : TransportStream ops) : List UInt8 :=
  encode16 stream.transportStreamId ++ encode16 stream.originalNetworkId ++
    encodeLoop 15 stream.descriptors

theorem encode_length (stream : TransportStream ops) :
    stream.encode.length = 6 + (encodeDescriptors stream.descriptors).length := by
  simp only [encode, encodeLoop, List.length_append, encode16_length]
  omega

end TransportStream

namespace Transports

def loop (transports : Transports ops) : List UInt8 :=
  transports.streams.flatMap TransportStream.encode

def body (transports : Transports ops) : List UInt8 :=
  encodeLoop 15 transports.descriptors ++ encode16 (15 * 2 ^ 12 + transports.loop.length) ++
    transports.loop

theorem body_length (transports : Transports ops) :
    transports.body.length =
      4 + (encodeDescriptors transports.descriptors).length + transports.loop.length := by
  simp only [body, encodeLoop, List.length_append, encode16_length]
  omega

end Transports

namespace Service

def label (service : Service ops) : ServiceLabel :=
  ⟨service.serviceId, service.eitScheduleFlag.toNat, service.eitPresentFollowingFlag.toNat,
    service.runningStatus, service.freeCaMode.toNat,
    service.descriptors.map AcceptedDescriptor.label⟩

-- six reserved bits are set
def flags (service : Service ops) : UInt8 :=
  UInt8.ofNat (0xFC + 2 * service.eitScheduleFlag.toNat + service.eitPresentFollowingFlag.toNat)

def encode (service : Service ops) : List UInt8 :=
  encode16 service.serviceId ++ [service.flags] ++
    encodeLoop (2 * service.runningStatus + service.freeCaMode.toNat) service.descriptors

theorem encode_length (service : Service ops) :
    service.encode.length = 5 + (encodeDescriptors service.descriptors).length := by
  simp only [encode, encodeLoop, List.length_append, encode16_length, List.length_singleton]
  omega

end Service

theorem readTransportStream_encoded (stream : TransportStream ops)
    (fits : stream.encode.length ≤ 0x3FD) :
    ReadsNode (readTransportStream ops) TransportStream.encode TransportStream.label
      TransportStreamNode.label stream := by
  rw [stream.encode_length] at fits
  refine ⟨by rw [stream.encode_length]; omega, fun behind => ?_⟩
  cases parseDescriptors_encoded stream.descriptors behind with
  | intro parsed found =>
    let memory := ofBytes stream.encode ++ behind
    have id : Stores16 memory 0 stream.transportStreamId := ⟨rfl, rfl⟩
    have network : Stores16 memory 2 stream.originalNetworkId := ⟨rfl, rfl⟩
    have length : Stores16 memory 4
        (15 * 2 ^ 12 + (encodeDescriptors stream.descriptors).length) := ⟨rfl, rfl⟩
    have lengthMasked : (15 * 2 ^ 12 + (encodeDescriptors stream.descriptors).length) &&& 0xFFF =
        (encodeDescriptors stream.descriptors).length := masked 15 _ 12 (by omega)
    have rest : memory.drop 6 = ofBytes (encodeDescriptors stream.descriptors) ++ behind := by
      simp [memory, TransportStream.encode, encodeLoop, encode16]
    refine ⟨⟨stream.transportStreamId, stream.originalNetworkId,
      (encodeDescriptors stream.descriptors).length, parsed⟩,
      by rw [TransportStreamNode.label, found.1, TransportStream.label], ?_⟩
    rw [stream.encode_length]
    apply yields_read (id.read_fits stream.idFits)
    apply yields_read (network.read_fits stream.networkFits)
    apply yields_read (length.read_fits (by omega))
    dsimp only
    rw [lengthMasked, rest]
    exact yields_bind found.2 (yields_pure _)

/-- The loops say what the transports say. -/
structure Transports.Decoded (transports : Transports ops) (list : List (Descriptor D))
    (h : List (TransportStreamNode D)) : Prop where
  descriptors : list.map Descriptor.label = transports.descriptors.map AcceptedDescriptor.label
  streams : h.map TransportStreamNode.label = transports.streams.map TransportStream.label

theorem readTransportLoops_encoded (transports : Transports ops)
    (fits : transports.body.length + 9 ≤ 0x3FD) (behind : Block) :
    ∃ loops : TransportLoops D, transports.Decoded loops.list loops.h ∧ loops.ret = 0 ∧
      Yields (readTransportLoops ops (transports.body.length + 9)
        (ofBytes transports.body ++ behind)) loops := by
  have size := transports.body_length
  have reads : ∀ stream ∈ transports.streams, ReadsNode (readTransportStream ops)
      TransportStream.encode TransportStream.label TransportStreamNode.label stream := by
    intro stream inside
    have shorter := node_fits TransportStream.encode transports.streams stream inside
    rw [Transports.loop] at size
    exact readTransportStream_encoded stream (by omega)
  let memory := ofBytes transports.body ++ behind
  have length : Stores16 memory 0
      (15 * 2 ^ 12 + (encodeDescriptors transports.descriptors).length) := ⟨rfl, rfl⟩
  have lengthMasked :
      (15 * 2 ^ 12 + (encodeDescriptors transports.descriptors).length) &&& 0xFFF =
      (encodeDescriptors transports.descriptors).length := masked 15 _ 12 (by omega)
  have afterLength : memory.drop 2 = ofBytes (encodeDescriptors transports.descriptors) ++
      (ofBytes (encode16 (15 * 2 ^ 12 + transports.loop.length) ++ transports.loop) ++
        behind) := by
    simp [memory, Transports.body, encodeLoop, encode16]
  have afterList : memory.drop (2 + (encodeDescriptors transports.descriptors).length) =
      ofBytes (encode16 (15 * 2 ^ 12 + transports.loop.length) ++ transports.loop) ++ behind := by
    rw [← List.drop_drop, afterLength]
    exact List.drop_left' (ofBytes_length _)
  have loopLength : Stores16
      (ofBytes (encode16 (15 * 2 ^ 12 + transports.loop.length) ++ transports.loop) ++ behind) 0
      (15 * 2 ^ 12 + transports.loop.length) := ⟨rfl, rfl⟩
  have afterBoth : (ofBytes (encode16 (15 * 2 ^ 12 + transports.loop.length) ++
      transports.loop) ++ behind).drop 2 = ofBytes transports.loop ++ behind := rfl
  have remaining : toInt16 (toInt16 ((transports.body.length + 9 : Nat) - (5 + 4)) -
      (4 + ((encodeDescriptors transports.descriptors).length : Int))) =
      transports.loop.length := by
    rw [show ((transports.body.length + 9 : Nat) - (5 + 4) : Int) = transports.body.length by omega,
      toInt16_fits _ (by omega), toInt16_of_small _ (by omega) (by omega)]
    omega
  cases parseDescriptors_encoded transports.descriptors
      (ofBytes (encode16 (15 * 2 ^ 12 + transports.loop.length) ++ transports.loop) ++ behind) with
  | intro list listed =>
    cases nodeLoop_encoded toInt16 (readTransportStream ops) TransportStream.encode
      TransportStream.label TransportStreamNode.label 0x3FD toInt16_fits behind
      transports.streams reads (by rw [Transports.loop] at size; omega) with
    | intro nodes walked =>
      refine ⟨⟨(encodeDescriptors transports.descriptors).length, list,
        (15 * 2 ^ 12 + transports.loop.length) &&& 0xFFF, nodes, 0⟩,
        ⟨listed.1, walked.1⟩, rfl, ?_⟩
      apply yields_read (length.read_fits (by omega))
      dsimp only
      rw [lengthMasked, afterLength, afterList]
      apply yields_bind listed.2
      apply yields_read (loopLength.read_fits (by omega))
      rw [afterBoth, remaining]
      exact yields_bind walked.2 (yields_pure _)

theorem readService_encoded (service : Service ops) (fits : service.encode.length ≤ 0x3FD) :
    ReadsNode (readService ops) Service.encode Service.label ServiceNode.label service := by
  have statusFits := service.statusFits
  have caFits := Bool.toNat_le service.freeCaMode
  have scheduleFits := Bool.toNat_le service.eitScheduleFlag
  have followingFits := Bool.toNat_le service.eitPresentFollowingFlag
  rw [service.encode_length] at fits
  refine ⟨by rw [service.encode_length]; omega, fun behind => ?_⟩
  cases parseDescriptors_encoded service.descriptors behind with
  | intro parsed found =>
    let memory := ofBytes service.encode ++ behind
    let word := (2 * service.runningStatus + service.freeCaMode.toNat) * 2 ^ 12 +
      (encodeDescriptors service.descriptors).length
    have id : Stores16 memory 0 service.serviceId := ⟨rfl, rfl⟩
    have length : Stores16 memory 3 word := ⟨rfl, rfl⟩
    have lengthMasked : word &&& 0x0FFF = (encodeDescriptors service.descriptors).length :=
      masked _ _ 12 (by omega)
    have status : (word >>> 13) &&& 0x7 = service.runningStatus := by
      rw [Nat.shiftRight_eq_div_pow]
      exact (land_low_bits _ 3).trans (by omega)
    have freeCa : (word >>> 12) &&& 0x1 = service.freeCaMode.toNat := by
      rw [Nat.shiftRight_eq_div_pow]
      exact (land_low_bits _ 1).trans (by omega)
    have schedule : (service.flags.toNat >>> 1) &&& 0x1 = service.eitScheduleFlag.toNat := by
      rw [Nat.shiftRight_eq_div_pow, Service.flags, UInt8.toNat_ofNat']
      exact (land_low_bits _ 1).trans (by omega)
    have following : service.flags.toNat &&& 0x1 = service.eitPresentFollowingFlag.toNat := by
      rw [Service.flags, UInt8.toNat_ofNat']
      exact (land_low_bits _ 1).trans (by omega)
    have rest : memory.drop 5 = ofBytes (encodeDescriptors service.descriptors) ++ behind := by
      simp [memory, Service.encode, encodeLoop, encode16]
    refine ⟨⟨service.serviceId, service.eitScheduleFlag.toNat,
      service.eitPresentFollowingFlag.toNat, service.runningStatus, service.freeCaMode.toNat,
      (encodeDescriptors service.descriptors).length, parsed⟩,
      by rw [ServiceNode.label, found.1, Service.label], ?_⟩
    rw [service.encode_length]
    apply yields_read (id.read_fits service.idFits)
    apply yields_read (show _ = some service.flags from rfl)
    apply yields_read (length.read_fits (by omega))
    dsimp only
    rw [lengthMasked, rest, status, freeCa, schedule, following]
    exact yields_bind found.2 (yields_pure _)

section Sdt

-- the services of a transport stream, which the table_id_extension names
variable (ops) in
structure Services where
  transportStreamId : Nat
  originalNetworkId : Nat
  networkFits : originalNetworkId < 65536
  services : List (Service ops)

def Services.body (services : Services ops) : List UInt8 :=
  encode16 services.originalNetworkId ++ [0xFF] ++ services.services.flatMap Service.encode

/-- The table and its header say what the services say. -/
structure Services.Decoded (services : Services ops) (table : Table (Sdt D)) : Prop where
  transportStreamId : table.header.tableIdExt = services.transportStreamId
  originalNetworkId : table.content.originalNetworkId = services.originalNetworkId
  services : table.content.h.map ServiceNode.label = services.services.map Service.label

theorem parseSdt_encoded (services : Services ops) (envelope : Envelope)
    (stream : envelope.tableIdExt = services.transportStreamId)
    (fits : services.body.length + 9 ≤ 0x3FD) :
    Parses (decodeSdt ops) {} envelope services.body fun table ret =>
      ret = 0 ∧ services.Decoded table := by
  have size : services.body.length = 3 + (services.services.flatMap Service.encode).length := by
    simp only [Services.body, List.length_append, encode16_length, List.length_singleton]
  have reads : ∀ service ∈ services.services,
      ReadsNode (readService ops) Service.encode Service.label ServiceNode.label service := by
    intro service inside
    have shorter := node_fits Service.encode services.services service inside
    exact readService_encoded service (by omega)
  apply parseTable_encoded _ _ _ _ fits
  intro header carries
  let memory := ofBytes services.body ++ envelope.behind
  have network : Stores16 memory 0 services.originalNetworkId := ⟨rfl, rfl⟩
  have rest : memory.drop 3 =
      ofBytes (services.services.flatMap Service.encode) ++ envelope.behind := rfl
  have remaining : toInt16 (toInt16 (header.sectionLength - (5 + 4)) - 3) =
      (services.services.flatMap Service.encode).length := by
    have minuend : (header.sectionLength - (5 + 4) : Int) = services.body.length := by
      rw [carries.sectionLength]
      omega
    rw [minuend, toInt16_fits _ (by omega), toInt16_of_small _ (by omega) (by omega)]
    omega
  cases nodeLoop_encoded toInt16 (readService ops) Service.encode Service.label
    ServiceNode.label 0x3FD toInt16_fits envelope.behind services.services reads (by omega) with
  | intro nodes walked =>
    refine ⟨⟨⟨services.originalNetworkId, nodes⟩, 0, []⟩,
      ⟨rfl, carries.tableIdExt.trans stream, rfl, walked.1⟩, ?_⟩
    apply yields_read (show _ = some () from rfl)
    apply yields_read (network.read_fits services.networkFits)
    rw [rest, remaining]
    exact yields_bind walked.2 (yields_pure _)

def twoServices : Services copyOps where
  transportStreamId := 1
  originalNetworkId := 0x1F
  networkFits := by simp
  services := [⟨0x65, true, false, 4, true, by simp, by simp,
      [.plain 0x48 [1, 0, 1, 0x41] (by simp)]⟩,
    ⟨0x66, false, true, 1, false, by simp, by simp, []⟩]

def dvbEnvelope (tableId : UInt8) (tableIdExt : Nat) (extFits : tableIdExt < 65536) : Envelope :=
  { programEnvelope with
    tableId := tableId, privateBit := true, tableIdExt := tableIdExt, extFits := extFits }

theorem parseSdt_encoded_two :
    Parses (decodeSdt copyOps) {} (dvbEnvelope 0x42 1 (by simp)) twoServices.body
      fun table ret => ret = 0 ∧ twoServices.Decoded table :=
  parseSdt_encoded twoServices (dvbEnvelope 0x42 1 (by simp)) rfl (by decide)

end Sdt

section Nit

-- nit_t with the network_id that is printed
structure NetworkTable (D : Type) extends Nit D where
  networkId : Nat := 0

-- no line of parse_nit writes network_id
variable (ops) in
def decodeNetwork : Decoder (NetworkTable D) := fun header pdata nit => do
  let decoded ← decodeNit ops header pdata nit.toNit
  pure {
    content := { nit with toNit := decoded.content }
    ret := decoded.ret
    registered := decoded.registered }

/-- The table says what the network of this network_id says. -/
structure Transports.DecodedNetwork (transports : Transports ops) (networkId : Nat)
    (nit : NetworkTable D) : Prop where
  networkId : nit.networkId = networkId
  transports : transports.Decoded nit.list nit.h

theorem parseNit_transports (transports : Transports ops) (envelope : Envelope)
    (fits : transports.body.length + 9 ≤ 0x3FD) :
    Parses (decodeNetwork ops) {} envelope transports.body fun table _ =>
      transports.DecodedNetwork 0 table.content := by
  apply parseTable_encoded _ _ _ _ fits
  intro header carries
  cases readTransportLoops_encoded transports fits envelope.behind with
  | intro loops found =>
    let nit : Nit D := ⟨loops.descriptorsLength, loops.list, loops.loopLength, loops.h⟩
    have decoding : Yields (decodeNit ops header (ofBytes transports.body ++ envelope.behind) {})
        ⟨nit, loops.ret, []⟩ := by
      apply yields_read (show _ = some () from rfl)
      rw [carries.sectionLength]
      exact yields_bind found.2.2 (yields_pure _)
    exact ⟨⟨⟨nit, 0⟩, loops.ret, []⟩, ⟨rfl, found.1⟩, yields_bind decoding (yields_pure _)⟩

-- The network_id is right where it is that of a fresh table.
theorem parseNit_encoded_iff (transports : Transports ops) (envelope : Envelope)
    (fits : transports.body.length + 9 ≤ 0x3FD) :
    (Parses (decodeNetwork ops) {} envelope transports.body fun table _ =>
      transports.DecodedNetwork envelope.tableIdExt table.content) ↔ envelope.tableIdExt = 0 := by
  have parses := parseNit_transports transports envelope fits
  constructor
  · intro decodes
    cases decodes.both parses with
    | intro table found =>
      cases found with
      | intro ret both => exact both.1.networkId.symm.trans both.2.networkId
  · intro zero
    rwa [zero]

-- a network name and one transport stream
def oneTransport : Transports copyOps where
  descriptors := [.plain 0x40 [0x4E, 0x45, 0x54] (by simp)]
  streams := [⟨0x0BB8, 0x233A, by simp, by simp, [.plain 0x41 [0, 0x65, 1] (by simp)]⟩]

theorem parseNit_encoded_zero :
    (Parses (decodeNetwork copyOps) {} (dvbEnvelope 0x40 0 (by simp)) oneTransport.body
      fun table _ => oneTransport.DecodedNetwork 0 table.content) ↔ 0 = 0 :=
  parseNit_encoded_iff oneTransport (dvbEnvelope 0x40 0 (by simp)) (by decide)

theorem parseNit_loses_network :
    ¬Parses (decodeNetwork copyOps) {} (dvbEnvelope 0x40 0x3001 (by simp)) oneTransport.body
      fun table _ => oneTransport.DecodedNetwork 0x3001 table.content := by
  intro decodes
  have parses := parseNit_transports oneTransport (dvbEnvelope 0x40 0x3001 (by simp)) (by decide)
  cases decodes.both parses with
  | intro table found =>
    cases found with
    | intro ret both =>
      have same := both.1.networkId.symm.trans both.2.networkId
      simp at same

end Nit

section Bat

/-- The table says what the bouquet of this bouquet_id says. -/
structure Transports.DecodedBouquet (transports : Transports ops) (bouquetId : Nat)
    (bat : Bat D) : Prop where
  bouquetId : bat.bouquetId = bouquetId
  transports : transports.Decoded bat.list bat.h

-- parse_bat takes the table_id for the bouquet_id
theorem parseBat_transports (transports : Transports ops) (envelope : Envelope)
    (fits : transports.body.length + 9 ≤ 0x3FD) :
    Parses (decodeBat ops) {} envelope transports.body fun table _ =>
      transports.DecodedBouquet envelope.tableId.toNat table.content := by
  apply parseTable_encoded _ _ _ _ fits
  intro header carries
  cases readTransportLoops_encoded transports fits envelope.behind with
  | intro loops found =>
    refine ⟨⟨⟨envelope.tableId.toNat, loops.descriptorsLength, loops.list, loops.loopLength,
      loops.h⟩, loops.ret, []⟩, ⟨rfl, found.1⟩, ?_⟩
    apply yields_read (show _ = some () from rfl)
    rw [carries.sectionLength, carries.tableId]
    exact yields_bind found.2.2 (yields_pure _)

theorem parseBat_encoded_iff (transports : Transports ops) (envelope : Envelope)
    (bat : envelope.tableId = 0x4A) (fits : transports.body.length + 9 ≤ 0x3FD) :
    (Parses (decodeBat ops) {} envelope transports.body fun table _ =>
      transports.DecodedBouquet envelope.tableIdExt table.content) ↔
        envelope.tableIdExt = 0x4A := by
  have parses := parseBat_transports transports envelope fits
  rw [bat] at parses
  constructor
  · intro decodes
    cases decodes.both parses with
    | intro table found =>
      cases found with
      | intro ret both => exact both.1.bouquetId.symm.trans both.2.bouquetId
  · intro same
    rwa [same]

theorem parseBat_encoded_same :
    (Parses (decodeBat copyOps) {} (dvbEnvelope 0x4A 0x4A (by simp)) oneTransport.body
      fun table _ => oneTransport.DecodedBouquet 0x4A table.content) ↔ 0x4A = 0x4A :=
  parseBat_encoded_iff oneTransport (dvbEnvelope 0x4A 0x4A (by simp)) rfl (by decide)

theorem parseBat_loses_bouquet :
    ¬Parses (decodeBat copyOps) {} (dvbEnvelope 0x4A 0x1234 (by simp)) oneTransport.body
      fun table _ => oneTransport.DecodedBouquet 0x1234 table.content := by
  intro decodes
  have parses := parseBat_transports oneTransport (dvbEnvelope 0x4A 0x1234 (by simp)) (by decide)
  cases decodes.both parses with
  | intro table found =>
    cases found with
    | intro ret both =>
      have same := both.1.bouquetId.symm.trans both.2.bouquetId
      simp [dvbEnvelope] at same

end Bat

end TsAnalyze.Tables
