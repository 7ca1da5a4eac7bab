import TsAnalyze.Tables.Envelope
import TsAnalyze.Tables.Psi

set_option autoImplicit false

namespace TsAnalyze.Tables

open Memory Demux

-- no length that fits a section wraps
theorem toInt16_fits (value : Nat) (fits : value ≤ 0x3FD) : toInt16 value = value :=
  toInt16_of_small value (by omega) (by omega)

variable {D : Type}

-- what is compared of an elementary stream
structure StreamLabel where
  streamType : UInt8
  elementaryPid : Nat
  descriptors : List (UInt8 × UInt8)

def EsNode.label (pn : EsNode D) : StreamLabel :=
  ⟨pn.streamType, pn.elementaryPid, pn.list.map Descriptor.label⟩

variable (ops : DescriptorOps D)

structure ElementaryStream where
  streamType : UInt8
  elementaryPid : Nat
  pidFits : elementaryPid < 8192
  descriptors : List (AcceptedDescriptor ops)

structure Program where
  programNumber : Nat
  pcrPid : Nat
  pidFits : pcrPid < 8192
  descriptors : List (AcceptedDescriptor ops)
  streams : List (ElementaryStream ops)

variable {ops}

def ElementaryStream.label (stream : ElementaryStream ops) : StreamLabel :=
  ⟨stream.streamType, stream.elementaryPid, stream.descriptors.map AcceptedDescriptor.label⟩

-- reserved bits are set
def ElementaryStream.encode (stream : ElementaryStream ops) : List UInt8 :=
  [stream.streamType] ++ encode16 (7 * 2 ^ 13 + stream.elementaryPid) ++
    encodeLoop 15 stream.descriptors

def Program.body (program : Program ops) : List UInt8 :=
  encode16 (7 * 2 ^ 13 + program.pcrPid) ++ encodeLoop 15 program.descriptors ++
    program.streams.flatMap ElementaryStream.encode

/-- The table says what the program says. -/
structure Program.Decoded (program : Program ops) (pmt : Pmt D) : Prop where
  programNumber : pmt.programNumber = program.programNumber
  pcrPid : pmt.pcrPid = program.pcrPid
  descriptors : pmt.list.map Descriptor.label = program.descriptors.map AcceptedDescriptor.label
  streams : pmt.h.map EsNode.label = program.streams.map ElementaryStream.label

theorem ElementaryStream.encode_length (stream : ElementaryStream ops) :
    stream.encode.length = 5 + (encodeDescriptors stream.descriptors).length := by
  simp only [encode, encodeLoop, List.length_append, encode16_length, List.length_singleton]
  omega

theorem Program.body_length (program : Program ops) :
    program.body.length = 4 + (encodeDescriptors program.descriptors).length +
      (program.streams.flatMap ElementaryStream.encode).length := by
  simp only [body, encodeLoop, List.length_append, encode16_length]
  omega

theorem readEs_encoded (stream : ElementaryStream ops) (fits : stream.encode.length ≤ 0x3FD) :
    ReadsNode (readEs ops) ElementaryStream.encode ElementaryStream.label EsNode.label stream := by
  have pidFits := stream.pidFits
  rw [stream.encode_length] at fits
  refine ⟨by rw [stream.encode_length]; omega, fun behind => ?_⟩
  cases parseDescriptors_encoded stream.descriptors behind with
  | intro parsed found =>
    let memory := ofBytes stream.encode ++ behind
    have pid : Stores16 memory 1 (7 * 2 ^ 13 + stream.elementaryPid) := ⟨rfl, rfl⟩
    have length : Stores16 memory 3
        (15 * 2 ^ 12 + (encodeDescriptors stream.descriptors).length) := ⟨rfl, rfl⟩
    have pidMasked : (7 * 2 ^ 13 + stream.elementaryPid) &&& 0x1FFF = stream.elementaryPid :=
      masked 7 stream.elementaryPid 13 pidFits
    have lengthMasked : (15 * 2 ^ 12 + (encodeDescriptors stream.descriptors).length) &&& 0x0FFF =
        (encodeDescriptors stream.descriptors).length := masked 15 _ 12 (by omega)
    have rest : memory.drop 5 = ofBytes (encodeDescriptors stream.descriptors) ++ behind := by
      simp [memory, ElementaryStream.encode, encodeLoop, encode16]
    refine ⟨⟨stream.streamType, stream.elementaryPid,
      (encodeDescriptors stream.descriptors).length, parsed⟩, by rw [EsNode.label, found.1, ElementaryStream.label], ?_⟩
    rw [stream.encode_length]
    apply yields_read (show _ = some stream.streamType from rfl)
    apply yields_read (pid.read_fits (by omega))
    apply yields_read (length.read_fits (by omega))
    dsimp only
    rw [lengthMasked, pidMasked, rest]
    exact yields_bind found.2 (yields_pure _)

theorem decodePmt_encoded (program : Program ops) (fits : program.body.length + 9 ≤ 0x3FD)
    (envelope : Envelope) (header : TableHeader)
    (carries : header.Carries envelope program.body.length)
    (number : envelope.tableIdExt = program.programNumber) :
    ∃ result : Decoded (Pmt D), program.Decoded result.content ∧ result.ret = 0 ∧
      Yields (decodePmt ops header (ofBytes program.body ++ envelope.behind) {}) result := by
  have pidFits := program.pidFits
  have size := program.body_length
  have reads : ∀ stream ∈ program.streams, ReadsNode (readEs ops) ElementaryStream.encode
      ElementaryStream.label EsNode.label stream := by
    intro stream inside
    have shorter := node_fits ElementaryStream.encode program.streams stream inside
    exact readEs_encoded stream (by omega)
  let memory := ofBytes program.body ++ envelope.behind
  have pcrPid : Stores16 memory 0 (7 * 2 ^ 13 + program.pcrPid) := ⟨rfl, rfl⟩
  have length : Stores16 memory 2
      (15 * 2 ^ 12 + (encodeDescriptors program.descriptors).length) := ⟨rfl, rfl⟩
  have pidMasked : (7 * 2 ^ 13 + program.pcrPid) &&& 0x1FFF = program.pcrPid :=
    masked 7 program.pcrPid 13 pidFits
  have lengthMasked : (15 * 2 ^ 12 + (encodeDescriptors program.descriptors).length) &&& 0x0FFF =
      (encodeDescriptors program.descriptors).length := masked 15 _ 12 (by omega)
  have afterFields : memory.drop 4 = ofBytes (encodeDescriptors program.descriptors) ++
      (ofBytes (program.streams.flatMap ElementaryStream.encode) ++ envelope.behind) := by
    simp [memory, Program.body, encodeLoop, encode16]
  have afterList : memory.drop (4 + (encodeDescriptors program.descriptors).length) =
      ofBytes (program.streams.flatMap ElementaryStream.encode) ++ envelope.behind := by
    rw [← List.drop_drop, afterFields]
    exact List.drop_left' (ofBytes_length _)
  have remaining : toInt16 (toInt16 (toInt16 (header.sectionLength - (5 + 4)) - 2) -
      (2 + ((encodeDescriptors program.descriptors).length : Int))) =
      (program.streams.flatMap ElementaryStream.encode).length := by
    have minuend : (header.sectionLength - (5 + 4) : Int) = program.body.length := by
      rw [carries.sectionLength]
      omega
    rw [minuend, toInt16_fits _ (by omega),
      toInt16_of_small (program.body.length - 2 : Int) (by omega) (by omega),
      toInt16_of_small _ (by omega) (by omega)]
    omega
  cases parseDescriptors_encoded program.descriptors
      (ofBytes (program.streams.flatMap ElementaryStream.encode) ++ envelope.behind) with
  | intro list listed =>
    cases nodeLoop_encoded toInt16 (readEs ops) ElementaryStream.encode ElementaryStream.label
      EsNode.label 0x3FD toInt16_fits envelope.behind program.streams reads
      (by omega) with
    | intro nodes walked =>
      refine ⟨⟨⟨program.programNumber, program.pcrPid,
        (encodeDescriptors program.descriptors).length, list, nodes⟩, 0,
        nodes.flatMap EsNode.registered⟩, ⟨rfl, rfl, listed.1, walked.1⟩, rfl, ?_⟩
      apply yields_read (show _ = some () from rfl)
      apply yields_read (show _ = some () from rfl)
      apply yields_read (pcrPid.read_fits (by omega))
      apply yields_read (length.read_fits (by omega))
      dsimp only
      rw [lengthMasked, pidMasked, afterFields, afterList]
      apply yields_bind listed.2
      rw [remaining]
      apply yields_bind walked.2
      rw [carries.tableIdExt, number]
      exact yields_pure _

-- parse_pmt gives back the program that a section has been made of
theorem parsePmt_encoded (program : Program ops) (envelope : Envelope)
    (number : envelope.tableIdExt = program.programNumber)
    (fits : program.body.length + 9 ≤ 0x3FD) :
    Parses (decodePmt ops) {} envelope program.body fun table ret =>
      ret = 0 ∧ program.Decoded table.content := by
  apply parseTable_encoded _ _ _ _ fits
  intro header carries
  cases decodePmt_encoded program fits envelope header carries number with
  | intro result found => exact ⟨result, ⟨found.2.1, found.1⟩, found.2.2⟩

-- program 1 with the registration of its format and two streams
def twoStreams : Program copyOps where
  programNumber := 1
  pcrPid := 0x100
  pidFits := by simp
  descriptors := [.plain 0x05 [0x48, 0x44, 0x4D, 0x56] (by simp)]
  streams := [⟨0x1B, 0x100, by simp, []⟩,
    ⟨0x0F, 0x101, by simp, [.plain 0x0A [0x65, 0x6E, 0x67, 0] (by simp)]⟩]

def programEnvelope : Envelope where
  tableId := 0x02
  privateBit := false
  tableIdExt := 1
  version := 0
  currentNext := true
  crc := [1, 2, 3, 4]
  extFits := by simp
  versionFits := by simp
  crcSized := rfl

theorem parsePmt_encoded_two :
    Parses (decodePmt copyOps) {} programEnvelope twoStreams.body fun table ret =>
      ret = 0 ∧ twoStreams.Decoded table.content :=
  parsePmt_encoded twoStreams programEnvelope rfl (by decide)

end TsAnalyze.Tables
