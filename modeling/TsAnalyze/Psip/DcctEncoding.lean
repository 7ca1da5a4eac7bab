import TsAnalyze.Psip.MgtEncoding

set_option autoImplicit false

namespace TsAnalyze.Psip

open Memory Tables

variable {D : Type}

-- what is compared of a term
structure TermLabel where
  selectionType : UInt8
  selectionId : Nat
  descriptors : List (UInt8 × UInt8)

def DefineDccTerm.label (term : DefineDccTerm D) : TermLabel :=
  ⟨term.dccSelectionType, term.dccSelectionId, term.list.map Descriptor.label⟩

-- what is compared of a test; there is no array of terms where memory ran out
structure TestLabel where
  context : Nat
  fromMajor : Nat
  fromMinor : Nat
  toMajor : Nat
  toMinor : Nat
  startTime : Nat
  startTime1 : Nat
  endTime : Nat
  terms : Option (List TermLabel)
  descriptors : List (UInt8 × UInt8)

def DefineDccTest.label (test : DefineDccTest D) : TestLabel :=
  ⟨test.dccContext, test.dccFromMajorChannelNumber, test.dccFromMinorChannelNumber,
    test.dccToMajorChannelNumber, test.dccToMinorChannelNumber, test.dccStartTime,
    test.dccStartTime1, test.dccEndTime, test.dccTerms.map (List.map DefineDccTerm.label),
    test.list.map Descriptor.label⟩

variable (ops : DescriptorOps D)

structure DccTerm where
  selectionType : UInt8
  selectionId : Nat
  descriptors : List (AcceptedDescriptor ops)
  idFits : selectionId < 2 ^ 64

structure DccTest where
  context : Bool
  fromMajor : Nat
  fromMinor : Nat
  toMajor : Nat
  toMinor : Nat
  startTime : Nat
  endTime : Nat
  terms : List (DccTerm ops)
  descriptors : List (AcceptedDescriptor ops)
  fromMajorFits : fromMajor < 1024
  fromMinorFits : fromMinor < 1024
  toMajorFits : toMajor < 1024
  toMinorFits : toMinor < 1024
  startFits : startTime < 2 ^ 32
  endFits : endTime < 2 ^ 32

structure ChannelChanges where
  protocolVersion : UInt8
  tests : List (DccTest ops)
  additional : List (AcceptedDescriptor ops)

variable {ops}

namespace DccTerm

variable (term : DccTerm ops)

def label : TermLabel :=
  ⟨term.selectionType, term.selectionId, term.descriptors.map AcceptedDescriptor.label⟩

def encode : List UInt8 :=
  [term.selectionType] ++ encode64 term.selectionId ++ encodeShortLoop term.descriptors

theorem encode_length :
    term.encode.length = 11 + (encodeDescriptors term.descriptors).length := by
  simp only [encode, encodeShortLoop, List.length_append, encode16_length, encode64_length,
    List.length_singleton]
  omega

end DccTerm

namespace DccTest

variable (test : DccTest ops)

-- the start time in two halves
def label : TestLabel :=
  ⟨test.context.toNat, test.fromMajor, test.fromMinor, test.toMajor, test.toMinor,
    test.startTime / 2 ^ 16, test.startTime % 2 ^ 16, test.endTime,
    some (test.terms.map DccTerm.label), test.descriptors.map AcceptedDescriptor.label⟩

-- everything up to the upper half of the start time; reserved bits are set
def word : Nat :=
  test.context.toNat * 2 ^ 63 + 7 * 2 ^ 60 + test.fromMajor * 2 ^ 50 + test.fromMinor * 2 ^ 40 +
    15 * 2 ^ 36 + test.toMajor * 2 ^ 26 + test.toMinor * 2 ^ 16 + test.startTime / 2 ^ 16

def encode : List UInt8 :=
  encode64 test.word ++ encode16 test.startTime ++ encode32 test.endTime ++
    [UInt8.ofNat test.terms.length] ++ test.terms.flatMap DccTerm.encode ++
    encodeShortLoop test.descriptors

theorem encode_length : test.encode.length =
    15 + (test.terms.flatMap DccTerm.encode).length +
      (2 + (encodeDescriptors test.descriptors).length) := by
  simp only [encode, encodeShortLoop, List.length_append, encode16_length, encode32_length,
    encode64_length, List.length_singleton]

-- a term takes eleven bytes at least
theorem terms_few : 11 * test.terms.length ≤ (test.terms.flatMap DccTerm.encode).length := by
  apply nodes_size
  intro term _
  rw [term.encode_length]
  omega

theorem word_fields : test.word < 2 ^ 64 ∧
    readBits 64 test.word 1 0 = test.context.toNat ∧
    readBits 64 test.word 10 4 = test.fromMajor ∧
    readBits 64 test.word 10 14 = test.fromMinor ∧
    readBits 64 test.word 10 28 = test.toMajor ∧
    readBits 64 test.word 10 38 = test.toMinor ∧
    readBits 64 test.word 16 48 = test.startTime / 2 ^ 16 := by
  have context := Bool.toNat_le test.context
  have fromMajorFits := test.fromMajorFits
  have fromMinorFits := test.fromMinorFits
  have toMajorFits := test.toMajorFits
  have toMinorFits := test.toMinorFits
  have startFits := test.startFits
  simp only [readBits_low, word]
  omega

end DccTest

namespace ChannelChanges

variable (changes : ChannelChanges ops)

def body : List UInt8 :=
  [changes.protocolVersion, UInt8.ofNat changes.tests.length] ++
    changes.tests.flatMap DccTest.encode ++ encodeShortLoop changes.additional

/-- The table says what the channel changes say. -/
structure Decoded (dcct : Dcct D) : Prop where
  protocolVersion : dcct.protocolVersion = changes.protocolVersion
  tests : dcct.dccTests.map (List.map DefineDccTest.label) =
    some (changes.tests.map DccTest.label)
  additional : dcct.list.map Descriptor.label =
    changes.additional.map AcceptedDescriptor.label

theorem body_length : changes.body.length =
    4 + (changes.tests.flatMap DccTest.encode).length +
      (encodeDescriptors changes.additional).length := by
  simp only [body, encodeShortLoop, List.length_append, encode16_length, List.length_cons,
    List.length_nil]
  omega

theorem tests_few : 17 * changes.tests.length ≤ (changes.tests.flatMap DccTest.encode).length := by
  apply nodes_size
  intro test _
  rw [test.encode_length]
  omega

end ChannelChanges

theorem readDccTerm_encoded (term : DccTerm ops)
    (short : (encodeDescriptors term.descriptors).length < 2 ^ 10) :
    FillsItem (readDccTerm ops) DccTerm.encode DccTerm.label DefineDccTerm.label term := by
  intro behind
  let memory := ofBytes term.encode ++ behind
  have id : read64 memory 1 = some term.selectionId :=
    read64_stored memory 1 term.selectionId term.idFits ⟨rfl, rfl⟩ ⟨rfl, rfl⟩ ⟨rfl, rfl⟩ ⟨rfl, rfl⟩
  have length : Stores16 memory 9
      (63 * 2 ^ 10 + (encodeDescriptors term.descriptors).length) := ⟨rfl, rfl⟩
  have lengthBits : readBits 16 (63 * 2 ^ 10 + (encodeDescriptors term.descriptors).length) 10 6 =
      (encodeDescriptors term.descriptors).length := length_bits 63 _ 10 (by omega) short
  have rest : memory.drop 11 = ofBytes (encodeDescriptors term.descriptors) ++ behind := rfl
  cases parseDescriptors_encoded term.descriptors behind with
  | intro parsed found =>
    refine ⟨⟨term.selectionType, term.selectionId, (encodeDescriptors term.descriptors).length,
      parsed⟩, by rw [DefineDccTerm.label, found.1, DccTerm.label], ?_⟩
    rw [term.encode_length]
    apply yields_read (show _ = some term.selectionType from rfl)
    apply yields_read id
    apply yields_read (length.read_fits (by omega))
    dsimp only
    rw [lengthBits, rest]
    exact yields_bind found.2 (yields_pure _)

theorem readDccTest_encoded (test : DccTest ops) (short : test.encode.length < 2 ^ 10) :
    FillsItem (readDccTest ops) DccTest.encode DccTest.label DefineDccTest.label test := by
  intro behind
  have size := test.encode_length
  have few := test.terms_few
  have count : (UInt8.ofNat test.terms.length).toNat = test.terms.length :=
    byte_of_length test.terms.length (by omega)
  have fields := test.word_fields
  have terms : ∀ term ∈ test.terms,
      FillsItem (readDccTerm ops) DccTerm.encode DccTerm.label DefineDccTerm.label term := by
    intro term inside
    have shorter := node_fits DccTerm.encode test.terms term inside
    rw [term.encode_length] at shorter
    exact readDccTerm_encoded term (by omega)
  let memory := ofBytes test.encode ++ behind
  let tail := ofBytes (encodeShortLoop test.descriptors) ++ behind
  let fixed := encode64 test.word ++ encode16 test.startTime ++ encode32 test.endTime ++
    [UInt8.ofNat test.terms.length]
  have parts : memory = ofBytes fixed ++ (ofBytes (test.terms.flatMap DccTerm.encode) ++ tail) := by
    simp [memory, fixed, tail, DccTest.encode]
  have word : read64 memory 0 = some test.word := by
    rw [parts]
    exact read64_stored _ 0 test.word fields.1 ⟨rfl, rfl⟩ ⟨rfl, rfl⟩ ⟨rfl, rfl⟩ ⟨rfl, rfl⟩
  have startTime1 : Stores16 memory 8 test.startTime := by
    rw [parts]
    exact ⟨rfl, rfl⟩
  have endTime : read32 memory 10 = some test.endTime := by
    rw [parts, read32_stored _ 10 test.endTime ⟨rfl, rfl⟩ ⟨rfl, rfl⟩,
      Nat.mod_eq_of_lt test.endFits]
  have array : memory.drop 15 = ofBytes (test.terms.flatMap DccTerm.encode) ++ tail := by
    rw [parts]
    exact List.drop_left' rfl
  have behindTerms : memory.drop (15 + (test.terms.flatMap DccTerm.encode).length) = tail := by
    rw [← List.drop_drop, array]
    exact List.drop_left' (ofBytes_length _)
  obtain ⟨lengthWord, lengthRead, lengthBits⟩ :=
    readShortLoop_encoded test.descriptors behind (by omega)
  have last : tail.drop 2 = ofBytes (encodeDescriptors test.descriptors) ++ behind := rfl
  cases fillLoop_encoded (readDccTerm ops) DccTerm.encode DccTerm.label DefineDccTerm.label {}
    test.terms terms tail with
  | intro read looped =>
    cases parseDescriptors_encoded test.descriptors behind with
    | intro list listed =>
      refine ⟨⟨test.context.toNat, test.fromMajor, test.fromMinor, test.toMajor, test.toMinor,
        test.startTime / 2 ^ 16, test.startTime % 2 ^ 16, test.endTime,
        UInt8.ofNat test.terms.length, some read, (encodeDescriptors test.descriptors).length,
        list⟩, ?_, ?_⟩
      · rw [DefineDccTest.label, Option.map_some, looped.1, listed.1, DccTest.label]
      · rw [size]
        apply yields_read word
        apply yields_read startTime1.read
        apply yields_read endTime
        apply yields_read (show _ = some (UInt8.ofNat test.terms.length) from rfl)
        apply yields_allocated
        rw [count, array]
        apply yields_bind looped.2
        rw [behindTerms]
        apply yields_read lengthRead
        dsimp only
        rw [lengthBits, last, fields.2.1, fields.2.2.1, fields.2.2.2.1, fields.2.2.2.2.1,
          fields.2.2.2.2.2.1, fields.2.2.2.2.2.2]
        exact yields_bind listed.2 (yields_pure _)

-- parse_dcct gives back the channel changes that a section has been made of
theorem parseDcct_encoded (changes : ChannelChanges ops) (envelope : Envelope)
    (fits : changes.body.length + 9 ≤ 0x3FD) :
    Parses (decodeDcct ops) {} envelope changes.body fun table ret =>
      ret = 0 ∧ changes.Decoded table.content := by
  have size := changes.body_length
  have few := changes.tests_few
  have count := byte_of_length changes.tests.length (by omega)
  have tests : ∀ test ∈ changes.tests,
      FillsItem (readDccTest ops) DccTest.encode DccTest.label DefineDccTest.label test := by
    intro test inside
    have shorter := node_fits DccTest.encode changes.tests test inside
    exact readDccTest_encoded test (by omega)
  apply parseTable_encoded _ _ _ _ fits
  intro header carries
  let memory := ofBytes changes.body ++ envelope.behind
  let tail := ofBytes (encodeShortLoop changes.additional) ++ envelope.behind
  have array : memory.drop 2 = ofBytes (changes.tests.flatMap DccTest.encode) ++ tail := by
    simp [memory, tail, ChannelChanges.body]
  have behindTests : memory.drop (2 + (changes.tests.flatMap DccTest.encode).length) = tail := by
    rw [← List.drop_drop, array]
    exact List.drop_left' (ofBytes_length _)
  obtain ⟨word, wordRead, length⟩ :=
    readShortLoop_encoded changes.additional envelope.behind (by omega)
  have last : tail.drop 2 = ofBytes (encodeDescriptors changes.additional) ++ envelope.behind := rfl
  cases fillLoop_encoded (readDccTest ops) DccTest.encode DccTest.label DefineDccTest.label {}
    changes.tests tests tail with
  | intro read looped =>
    cases parseDescriptors_encoded changes.additional envelope.behind with
    | intro list listed =>
      refine ⟨⟨⟨changes.protocolVersion, UInt8.ofNat changes.tests.length, some read,
        (encodeDescriptors changes.additional).length, list⟩, 0, []⟩,
        ⟨rfl, rfl, congrArg some looped.1, listed.1⟩, ?_⟩
      apply yields_read (show _ = some changes.protocolVersion from rfl)
      apply yields_read (show _ = some (UInt8.ofNat changes.tests.length) from rfl)
      apply yields_allocated
      rw [count, array]
      apply yields_bind looped.2
      apply yields_ite_true rfl
      rw [behindTests]
      apply yields_read wordRead
      dsimp only
      rw [length, last]
      exact yields_bind listed.2 (yields_pure _)

-- from channel 5.1 to 5.2 for those in a state, and an advisory
def oneTest : DccTest copyOps where
  context := true
  fromMajor := 6
  fromMinor := 3
  toMajor := 6
  toMinor := 4
  startTime := 0x4F5C2C08
  endTime := 0x4F5C3A18
  terms := [⟨8, 0x41, [], by decide⟩, ⟨0, 0, [.plain 0xA3 [0x2D] (by decide)], by decide⟩]
  descriptors := [.plain 0xA4 [0x2E, 0x2F] (by decide)]
  fromMajorFits := by decide
  fromMinorFits := by decide
  toMajorFits := by decide
  toMinorFits := by decide
  startFits := by decide
  endFits := by decide

theorem parseDcct_encoded_one :
    Parses (decodeDcct copyOps) {} (psipEnvelope 0xD3)
      (ChannelChanges.body ⟨0, [oneTest, oneTest], []⟩) fun table ret =>
        ret = 0 ∧ ChannelChanges.Decoded ⟨0, [oneTest, oneTest], []⟩ table.content :=
  parseDcct_encoded ⟨0, [oneTest, oneTest], []⟩ (psipEnvelope 0xD3) (by decide)

end TsAnalyze.Psip
