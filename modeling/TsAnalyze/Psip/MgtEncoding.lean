import TsAnalyze.Psip.Decoders
import TsAnalyze.Tables.Envelope

set_option autoImplicit false

namespace TsAnalyze.Psip

open Memory Tables

variable {D : Type}

-- what is compared of an entry of the MGT
structure TableLabel where
  tableType : Nat
  pid : Nat
  version : Nat
  numberBytes : Nat
  descriptors : List (UInt8 × UInt8)

def DefineTable.label (table : DefineTable D) : TableLabel :=
  ⟨table.tableType, table.tableTypePid, table.tableTypeVersionNumber, table.numberBytes,
    table.list.map Descriptor.label⟩

variable (ops : DescriptorOps D)

structure TableEntry where
  tableType : Nat
  pid : Nat
  version : Nat
  numberBytes : Nat
  typeFits : tableType < 65536
  pidFits : pid < 8192
  versionFits : version < 32
  bytesFit : numberBytes < 2 ^ 32
  descriptors : List (AcceptedDescriptor ops)

structure MasterGuide where
  protocolVersion : UInt8
  tables : List (TableEntry ops)
  descriptors : List (AcceptedDescriptor ops)

variable {ops}

namespace TableEntry

def label (entry : TableEntry ops) : TableLabel :=
  ⟨entry.tableType, entry.pid, entry.version, entry.numberBytes,
    entry.descriptors.map AcceptedDescriptor.label⟩

-- reserved bits are set
def encode (entry : TableEntry ops) : List UInt8 :=
  encode16 entry.tableType ++ encode16 (7 * 2 ^ 13 + entry.pid) ++
    [UInt8.ofNat (7 * 2 ^ 5 + entry.version)] ++ encode32 entry.numberBytes ++
    encodeLoop 15 entry.descriptors

theorem encode_length (entry : TableEntry ops) :
    entry.encode.length = 11 + (encodeDescriptors entry.descriptors).length := by
  simp only [encode, encodeLoop, List.length_append, encode16_length, encode32_length,
    List.length_singleton]
  omega

end TableEntry

namespace MasterGuide

def body (guide : MasterGuide ops) : List UInt8 :=
  [guide.protocolVersion] ++ encode16 guide.tables.length ++
    guide.tables.flatMap TableEntry.encode ++ encodeLoop 15 guide.descriptors

/-- The table says what the guide says. -/
structure Decoded (guide : MasterGuide ops) (mgt : Mgt D) : Prop where
  protocolVersion : mgt.protocolVersion = guide.protocolVersion
  tablesDefined : mgt.tablesDefined = guide.tables.length
  tables : mgt.tables.map (List.map DefineTable.label) =
    some (guide.tables.map TableEntry.label)
  descriptors : mgt.list.map Descriptor.label = guide.descriptors.map AcceptedDescriptor.label

theorem body_length (guide : MasterGuide ops) :
    guide.body.length = 5 + (guide.tables.flatMap TableEntry.encode).length +
      (encodeDescriptors guide.descriptors).length := by
  simp only [body, encodeLoop, List.length_append, encode16_length, List.length_singleton]
  omega

-- an entry takes eleven bytes at least
theorem tables_few (guide : MasterGuide ops) : guide.tables.length ≤ guide.body.length := by
  have count := nodes_count TableEntry.encode guide.tables fun entry _ => by
    rw [entry.encode_length]
    omega
  rw [guide.body_length]
  omega

end MasterGuide

-- six bits and a ten-bit length, and the descriptors of that length
def encodeShortLoop (list : List (AcceptedDescriptor ops)) : List UInt8 :=
  encode16 (63 * 2 ^ 10 + (encodeDescriptors list).length) ++ encodeDescriptors list

theorem length_bits (marks length width : Nat) (narrow : width ≤ 16) (short : length < 2 ^ width) :
    readBits 16 (marks * 2 ^ width + length) width (16 - width) = length := by
  rw [readBits_low, show 16 - (16 - width) - width = 0 by omega, pow_zero, Nat.div_one,
    Nat.mul_add_mod_self_right, Nat.mod_eq_of_lt short]

-- a length of twelve bits in front of the descriptors
theorem readLoop_encoded (list : List (AcceptedDescriptor ops)) (behind : Block)
    (short : (encodeDescriptors list).length < 2 ^ 12) :
    ∃ word, read16 (ofBytes (encodeLoop 15 list) ++ behind) 0 = some word ∧
      readBits 16 word 12 4 = (encodeDescriptors list).length := by
  have stored : Stores16 (ofBytes (encodeLoop 15 list) ++ behind) 0
      (15 * 2 ^ 12 + (encodeDescriptors list).length) := ⟨rfl, rfl⟩
  exact ⟨_, stored.read_fits (by omega), length_bits 15 _ 12 (by omega) short⟩

theorem readShortLoop_encoded (list : List (AcceptedDescriptor ops)) (behind : Block)
    (short : (encodeDescriptors list).length < 2 ^ 10) :
    ∃ word, read16 (ofBytes (encodeShortLoop list) ++ behind) 0 = some word ∧
      readBits 16 word 10 6 = (encodeDescriptors list).length := by
  have stored : Stores16 (ofBytes (encodeShortLoop list) ++ behind) 0
      (63 * 2 ^ 10 + (encodeDescriptors list).length) := ⟨rfl, rfl⟩
  exact ⟨_, stored.read_fits (by omega), length_bits 63 _ 10 (by omega) short⟩

theorem readTable_encoded (entry : TableEntry ops)
    (short : (encodeDescriptors entry.descriptors).length < 2 ^ 12) :
    ReadsItem (readTable ops) TableEntry.encode TableEntry.label DefineTable.label entry := by
  have pidFits := entry.pidFits
  have versionFits := entry.versionFits
  intro behind
  cases parseDescriptors_encoded entry.descriptors behind with
  | intro parsed found =>
    let memory := ofBytes entry.encode ++ behind
    have type : Stores16 memory 0 entry.tableType := ⟨rfl, rfl⟩
    have pid : Stores16 memory 2 (7 * 2 ^ 13 + entry.pid) := ⟨rfl, rfl⟩
    have bytes : read32 memory 5 = some entry.numberBytes := by
      rw [read32_stored memory 5 entry.numberBytes ⟨rfl, rfl⟩ ⟨rfl, rfl⟩,
        Nat.mod_eq_of_lt entry.bytesFit]
    have length : Stores16 memory 9
        (15 * 2 ^ 12 + (encodeDescriptors entry.descriptors).length) := ⟨rfl, rfl⟩
    have rest : memory.drop 11 = ofBytes (encodeDescriptors entry.descriptors) ++ behind := by
      simp [memory, TableEntry.encode, encodeLoop, encode16, encode32]
    have pidBits : readBits 16 (7 * 2 ^ 13 + entry.pid) 13 3 = entry.pid := by
      rw [readBits_low]
      omega
    have versionBits : readBits 8 (UInt8.ofNat (7 * 2 ^ 5 + entry.version)).toNat 5 3 =
        entry.version := by
      rw [readBits_low, UInt8.toNat_ofNat']
      omega
    have lengthBits : readBits 16 (15 * 2 ^ 12 + (encodeDescriptors entry.descriptors).length)
        12 4 = (encodeDescriptors entry.descriptors).length := length_bits 15 _ 12 (by omega) short
    refine ⟨⟨entry.tableType, entry.pid, entry.version, entry.numberBytes,
      (encodeDescriptors entry.descriptors).length, parsed⟩,
      by rw [DefineTable.label, found.1, TableEntry.label], ?_⟩
    rw [entry.encode_length]
    apply yields_read (type.read_fits entry.typeFits)
    apply yields_read (pid.read_fits (by omega))
    apply yields_read (show _ = some (UInt8.ofNat (7 * 2 ^ 5 + entry.version)) from rfl)
    apply yields_read bytes
    apply yields_read (length.read_fits (by omega))
    dsimp only
    rw [pidBits, versionBits, lengthBits, rest]
    exact yields_bind found.2 (yields_pure _)

theorem decodeMgt_encoded (guide : MasterGuide ops) (fits : guide.body.length + 9 ≤ 0x3FD)
    (header : TableHeader) (behind : Block) :
    ∃ result : Tables.Decoded (Mgt D), guide.Decoded result.content ∧ result.ret = 0 ∧
      Yields (decodeMgt ops header (ofBytes guide.body ++ behind) {}) result := by
  have size := guide.body_length
  have few := guide.tables_few
  have reads : ∀ entry ∈ guide.tables,
      ReadsItem (readTable ops) TableEntry.encode TableEntry.label DefineTable.label entry := by
    intro entry inside
    have shorter := node_fits TableEntry.encode guide.tables entry inside
    rw [entry.encode_length] at shorter
    exact readTable_encoded entry (by omega)
  have defined : Stores16 (ofBytes guide.body ++ behind) 1 guide.tables.length := ⟨rfl, rfl⟩
  have rest : (ofBytes guide.body ++ behind).drop 3 =
      ofBytes (guide.tables.flatMap TableEntry.encode) ++
        (ofBytes (encodeLoop 15 guide.descriptors) ++ behind) := by
    simp [MasterGuide.body, encode16]
  obtain ⟨word, wordRead, length⟩ := readLoop_encoded guide.descriptors behind (by omega)
  have last : (ofBytes (encodeLoop 15 guide.descriptors) ++ behind).drop 2 =
      ofBytes (encodeDescriptors guide.descriptors) ++ behind := rfl
  cases countedLoop_encoded (readTable ops) TableEntry.encode TableEntry.label DefineTable.label
    guide.tables reads (ofBytes (encodeLoop 15 guide.descriptors) ++ behind) with
  | intro tables looped =>
    cases parseDescriptors_encoded guide.descriptors behind with
    | intro list listed =>
      refine ⟨⟨⟨guide.protocolVersion, guide.tables.length, some tables,
        (encodeDescriptors guide.descriptors).length, list⟩, 0, []⟩,
        ⟨rfl, rfl, congrArg some looped.1, listed.1⟩, rfl, ?_⟩
      apply yields_read (show _ = some () from rfl)
      apply yields_read (show _ = some () from rfl)
      apply yields_read (show _ = some guide.protocolVersion from rfl)
      apply yields_read (defined.read_fits (by omega))
      apply yields_allocated
      rw [rest]
      apply yields_bind looped.2
      apply yields_read wordRead
      dsimp only
      rw [length, last]
      exact yields_bind listed.2 (yields_pure _)

-- parse_mgt gives back the guide that a section has been made of
theorem parseMgt_encoded (guide : MasterGuide ops) (envelope : Envelope)
    (fits : guide.body.length + 9 ≤ 0x3FD) :
    Parses (decodeMgt ops) {} envelope guide.body fun table ret =>
      ret = 0 ∧ guide.Decoded table.content := by
  apply parseTable_encoded _ _ _ _ fits
  intro header carries
  cases decodeMgt_encoded guide fits header envelope.behind with
  | intro result found => exact ⟨result, ⟨found.2.1, found.1⟩, found.2.2⟩

-- the TVCT and an EIT, each in a PID of its own
def twoTables : MasterGuide copyOps where
  protocolVersion := 0
  tables := [⟨0, 0x1FFB, 3, 120, by decide, by simp, by simp, by simp, []⟩,
    ⟨0x100, 0x1D00, 7, 77, by simp, by simp, by simp, by simp,
      [.plain 0x80 [0xFF, 0xFF] (by simp)]⟩]
  descriptors := [.plain 0x80 [0xFE] (by simp)]

-- a PSIP section of version 7
def psipEnvelope (tableId : UInt8) : Envelope where
  tableId := tableId
  privateBit := true
  tableIdExt := 0
  version := 7
  currentNext := true
  crc := [0x5A, 0xC3, 0x96, 0x0F]
  extFits := by decide
  versionFits := by simp
  crcSized := rfl

theorem parseMgt_encoded_two :
    Parses (decodeMgt copyOps) {} (psipEnvelope 0xC7) twoTables.body fun table ret =>
      ret = 0 ∧ twoTables.Decoded table.content :=
  parseMgt_encoded twoTables (psipEnvelope 0xC7) (by decide)

end TsAnalyze.Psip
