import TsAnalyze.Psip.MgtEncoding

set_option autoImplicit false

namespace TsAnalyze.Psip

open Memory Tables

variable {D : Type}

-- how a host reads a uint16_t from its memory
inductive ByteOrder
  | big
  | little
deriving DecidableEq

namespace ByteOrder

def join : ByteOrder → UInt8 → UInt8 → Nat
  | .big, first, second => first.toNat * 256 + second.toNat
  | .little, first, second => second.toNat * 256 + first.toNat

-- what has become of a code unit that was sent with its high byte first
def seen : ByteOrder → Nat → Nat
  | .big, unit => unit
  | .little, unit => unit % 256 * 256 + unit / 256

def codeUnits (order : ByteOrder) : Block → Option (List Nat)
  | [] => some []
  | some first :: some second :: rest => (order.codeUnits rest).map (order.join first second :: ·)
  | _ => none

/-- The host sees these code units as they were sent. -/
def Keeps (order : ByteOrder) (units : List Nat) : Prop :=
  order = .big ∨ ∀ unit ∈ units, unit / 256 = unit % 256

theorem join_encode16 (order : ByteOrder) (unit : Nat) (fits : unit < 65536) :
    order.join (UInt8.ofNat (unit / 256)) (UInt8.ofNat unit) = order.seen unit := by
  cases order with
  | big =>
    simp only [join, seen, UInt8.toNat_ofNat']
    omega
  | little =>
    simp only [join, seen, UInt8.toNat_ofNat']
    omega

theorem codeUnits_encoded (order : ByteOrder) (units : List Nat)
    (fit : ∀ unit ∈ units, unit < 65536) :
    order.codeUnits (ofBytes (units.flatMap encode16)) = some (units.map order.seen) := by
  induction units with
  | nil => rfl
  | cons unit units ih =>
    have first := order.join_encode16 unit (fit unit List.mem_cons_self)
    have rest := ih fun other inside => fit other (List.mem_cons_of_mem unit inside)
    rw [List.flatMap_cons, ofBytes_append]
    change (order.codeUnits (ofBytes (units.flatMap encode16))).map _ = _
    rw [rest, Option.map_some, first, List.map_cons]

theorem seen_iff (order : ByteOrder) (unit : Nat) :
    order.seen unit = unit ↔ order = .big ∨ unit / 256 = unit % 256 := by
  cases order with
  | big => simp [seen]
  | little =>
    simp only [seen, reduceCtorEq, false_or]
    omega

theorem keeps_iff (order : ByteOrder) (units : List Nat) :
    units.map order.seen = units ↔ order.Keeps units := by
  have each : units.map order.seen = units ↔ ∀ unit ∈ units, order.seen unit = unit := by
    rw [← List.map_inj_left, List.map_id']
  rw [each]
  constructor
  · intro same
    cases order with
    | big => exact Or.inl rfl
    | little =>
      apply Or.inr
      intro unit inside
      simpa using (seen_iff .little unit).mp (same unit inside)
  · intro keeps unit inside
    apply (order.seen_iff unit).mpr
    exact keeps.imp id fun symmetric => symmetric unit inside

end ByteOrder

-- what is compared of a channel; path_select and out_of_band are left 0 in a terrestrial one
structure ChannelLabel where
  shortName : Option (List Nat)
  majorChannelNumber : Nat
  minorChannelNumber : Nat
  modulationMode : Nat
  carrierFrequency : Nat
  channelTsid : Nat
  programNumber : Nat
  etmLocation : Nat
  accessControlled : Nat
  hidden : Nat
  pathSelect : Nat
  outOfBand : Nat
  hideGuide : Nat
  serviceType : Nat
  sourceId : Nat
  descriptors : List (UInt8 × UInt8)

def DefineChannel.label (order : ByteOrder) (channel : DefineChannel D) : ChannelLabel :=
  ⟨order.codeUnits channel.shortName.cells, channel.majorChannelNumber,
    channel.minorChannelNumber, channel.modulationMode, channel.carrierFrequency,
    channel.channelTsid, channel.programNumber, channel.etmLocation, channel.accessControlled,
    channel.hidden, channel.pathSelect, channel.outOfBand, channel.hideGuide,
    channel.serviceType, channel.sourceId, channel.list.map Descriptor.label⟩

variable (ops : DescriptorOps D)

structure Channel where
  shortName : List Nat
  majorChannelNumber : Nat
  minorChannelNumber : Nat
  modulationMode : Nat
  carrierFrequency : Nat
  channelTsid : Nat
  programNumber : Nat
  etmLocation : Nat
  accessControlled : Bool
  hidden : Bool
  pathSelect : Bool
  outOfBand : Bool
  hideGuide : Bool
  serviceType : Nat
  sourceId : Nat
  descriptors : List (AcceptedDescriptor ops)
  sevenUnits : shortName.length = 7
  unitsFit : ∀ unit ∈ shortName, unit < 65536
  majorFits : majorChannelNumber < 1024
  minorFits : minorChannelNumber < 1024
  modulationFits : modulationMode < 256
  carrierFits : carrierFrequency < 2 ^ 32
  tsidFits : channelTsid < 65536
  programFits : programNumber < 65536
  etmFits : etmLocation < 4
  serviceFits : serviceType < 64
  sourceFits : sourceId < 65536

structure VirtualChannels where
  protocolVersion : UInt8
  channels : List (Channel ops)
  additional : List (AcceptedDescriptor ops)

variable {ops}

namespace Channel

variable (channel : Channel ops) (cable : Bool)

-- the channel with its name as the host sees it
def labelSeen (order : ByteOrder) : ChannelLabel :=
  ⟨some (channel.shortName.map order.seen), channel.majorChannelNumber,
    channel.minorChannelNumber, channel.modulationMode, channel.carrierFrequency,
    channel.channelTsid, channel.programNumber, channel.etmLocation,
    channel.accessControlled.toNat, channel.hidden.toNat,
    if cable then channel.pathSelect.toNat else 0, if cable then channel.outOfBand.toNat else 0,
    channel.hideGuide.toNat, channel.serviceType, channel.sourceId,
    channel.descriptors.map AcceptedDescriptor.label⟩

def label : ChannelLabel :=
  channel.labelSeen cable .big

def numbers : Nat :=
  15 * 2 ^ 28 + channel.majorChannelNumber * 2 ^ 18 + channel.minorChannelNumber * 2 ^ 8 +
    channel.modulationMode

-- the two bits behind hidden are reserved in a terrestrial channel
def flags : Nat :=
  channel.etmLocation * 2 ^ 14 + channel.accessControlled.toNat * 2 ^ 13 +
    channel.hidden.toNat * 2 ^ 12 +
    (if cable then channel.pathSelect.toNat * 2 ^ 11 + channel.outOfBand.toNat * 2 ^ 10
      else 3 * 2 ^ 10) +
    channel.hideGuide.toNat * 2 ^ 9 + 7 * 2 ^ 6 + channel.serviceType

-- everything behind the name
def encodeFields : List UInt8 :=
  encode32 channel.numbers ++ encode32 channel.carrierFrequency ++ encode16 channel.channelTsid ++
    encode16 channel.programNumber ++ encode16 (channel.flags cable) ++
    encode16 channel.sourceId ++ encodeShortLoop channel.descriptors

def encode : List UInt8 :=
  channel.shortName.flatMap encode16 ++ channel.encodeFields cable

theorem name_length : (channel.shortName.flatMap encode16).length = 14 := by
  simp [List.length_flatMap, encode16_length, channel.sevenUnits]

theorem encode_length :
    (channel.encode cable).length = 32 + (encodeDescriptors channel.descriptors).length := by
  simp only [encode, encodeFields, encodeShortLoop, List.length_append, encode16_length,
    encode32_length, channel.name_length]
  omega

theorem numbers_fields : channel.numbers < 2 ^ 32 ∧
    readBits 32 channel.numbers 10 4 = channel.majorChannelNumber ∧
    readBits 32 channel.numbers 10 14 = channel.minorChannelNumber ∧
    readBits 32 channel.numbers 8 24 = channel.modulationMode := by
  have majorFits := channel.majorFits
  have minorFits := channel.minorFits
  have modulationFits := channel.modulationFits
  simp only [readBits_low, numbers]
  omega

theorem flags_fields : channel.flags false < 65536 ∧
    readBits 16 (channel.flags false) 2 0 = channel.etmLocation ∧
    readBits 16 (channel.flags false) 1 2 = channel.accessControlled.toNat ∧
    readBits 16 (channel.flags false) 1 3 = channel.hidden.toNat ∧
    readBits 16 (channel.flags false) 1 6 = channel.hideGuide.toNat ∧
    readBits 16 (channel.flags false) 6 10 = channel.serviceType := by
  have etmFits := channel.etmFits
  have serviceFits := channel.serviceFits
  have access := Bool.toNat_le channel.accessControlled
  have hidden := Bool.toNat_le channel.hidden
  have guide := Bool.toNat_le channel.hideGuide
  simp only [readBits_low, flags, Bool.false_eq_true, if_false]
  omega

end Channel

namespace VirtualChannels

variable (table : VirtualChannels ops) (cable : Bool)

def body : List UInt8 :=
  [table.protocolVersion, UInt8.ofNat table.channels.length] ++
    table.channels.flatMap (Channel.encode · cable) ++ encodeShortLoop table.additional

/-- The table holds these channels. -/
structure Holds (order : ByteOrder) (labels : List ChannelLabel) (vct : Vct D) : Prop where
  protocolVersion : vct.protocolVersion = table.protocolVersion
  channels : vct.channels.map (List.map (DefineChannel.label order)) = some labels
  additional : vct.list.map Descriptor.label = table.additional.map AcceptedDescriptor.label

def Decoded (order : ByteOrder) (vct : Vct D) : Prop :=
  table.Holds order (table.channels.map (Channel.label · cable)) vct

theorem body_length : (table.body cable).length =
    4 + (table.channels.flatMap (Channel.encode · cable)).length +
      (encodeDescriptors table.additional).length := by
  simp only [body, encodeShortLoop, List.length_append, encode16_length, List.length_cons,
    List.length_nil]
  omega

-- a channel takes thirty-two bytes at least
theorem channels_few :
    32 * table.channels.length ≤ (table.channels.flatMap (Channel.encode · cable)).length := by
  apply nodes_size
  intro channel _
  rw [channel.encode_length]
  omega

end VirtualChannels

theorem readChannel_encoded (order : ByteOrder) (channel : Channel ops)
    (short : (encodeDescriptors channel.descriptors).length < 2 ^ 10) :
    ReadsItem (readChannel ops false) (Channel.encode · false) (Channel.labelSeen · false order)
      (DefineChannel.label order) channel := by
  intro behind
  have nameSize := channel.name_length
  have numbers := channel.numbers_fields
  have flags := channel.flags_fields
  let memory := ofBytes (channel.encode false) ++ behind
  let fields := ofBytes (channel.encodeFields false) ++ behind
  have split : memory = ofBytes (channel.shortName.flatMap encode16) ++ fields := by
    simp [memory, fields, Channel.encode]
  have afterName : memory.drop 14 = fields := by
    rw [split]
    exact List.drop_left' (by rw [ofBytes_length, nameSize])
  obtain ⟨name, copying, cells⟩ := Region.memcpy_whole (Region.zeros 14) memory (by
    rw [split, List.length_append, ofBytes_length, nameSize]
    omega)
  rw [split, List.take_left' (by rw [ofBytes_length, nameSize])] at cells
  let fixed := encode32 channel.numbers ++ encode32 channel.carrierFrequency ++
    encode16 channel.channelTsid ++ encode16 channel.programNumber ++
    encode16 (channel.flags false) ++ encode16 channel.sourceId
  have parts : fields = ofBytes fixed ++ (ofBytes (encodeShortLoop channel.descriptors) ++ behind) := by
    simp [fields, fixed, Channel.encodeFields]
  have numbersRead : read32 fields 0 = some channel.numbers := by
    rw [parts, read32_stored _ 0 channel.numbers ⟨rfl, rfl⟩ ⟨rfl, rfl⟩, Nat.mod_eq_of_lt numbers.1]
  have carrierRead : read32 fields 4 = some channel.carrierFrequency := by
    rw [parts, read32_stored _ 4 channel.carrierFrequency ⟨rfl, rfl⟩ ⟨rfl, rfl⟩,
      Nat.mod_eq_of_lt channel.carrierFits]
  have tsid : Stores16 fields 8 channel.channelTsid := by
    rw [parts]
    exact ⟨rfl, rfl⟩
  have program : Stores16 fields 10 channel.programNumber := by
    rw [parts]
    exact ⟨rfl, rfl⟩
  have flagBits : Stores16 fields 12 (channel.flags false) := by
    rw [parts]
    exact ⟨rfl, rfl⟩
  have source : Stores16 fields 14 channel.sourceId := by
    rw [parts]
    exact ⟨rfl, rfl⟩
  have length : Stores16 fields 16
      (63 * 2 ^ 10 + (encodeDescriptors channel.descriptors).length) := ⟨rfl, rfl⟩
  have lengthBits : readBits 16 (63 * 2 ^ 10 + (encodeDescriptors channel.descriptors).length)
      10 6 = (encodeDescriptors channel.descriptors).length := length_bits 63 _ 10 (by omega) short
  have rest : fields.drop 18 = ofBytes (encodeDescriptors channel.descriptors) ++ behind := rfl
  cases parseDescriptors_encoded channel.descriptors behind with
  | intro parsed found =>
    refine ⟨⟨name, channel.majorChannelNumber, channel.minorChannelNumber,
      channel.modulationMode, channel.carrierFrequency, channel.channelTsid,
      channel.programNumber, channel.etmLocation, channel.accessControlled.toNat,
      channel.hidden.toNat, 0, 0, channel.hideGuide.toNat, channel.serviceType, channel.sourceId,
      (encodeDescriptors channel.descriptors).length, parsed⟩, ?_, ?_⟩
    · rw [DefineChannel.label, cells, order.codeUnits_encoded _ channel.unitsFit, found.1]
      rfl
    · rw [channel.encode_length]
      apply yields_read copying
      rw [show shortNameSize false = 14 from rfl, afterName]
      apply yields_read numbersRead
      apply yields_read carrierRead
      apply yields_read (tsid.read_fits channel.tsidFits)
      apply yields_read (program.read_fits channel.programFits)
      apply yields_read (flagBits.read_fits flags.1)
      apply yields_read (source.read_fits channel.sourceFits)
      apply yields_read (length.read_fits (by omega))
      dsimp only
      rw [numbers.2.1, numbers.2.2.1, numbers.2.2.2, flags.2.1, flags.2.2.1, flags.2.2.2.1,
        flags.2.2.2.2.1, flags.2.2.2.2.2, lengthBits, rest]
      apply yields_bind found.2
      exact yields_pure _

section Vct

variable (table : VirtualChannels ops) (cable : Bool) (order : ByteOrder) (envelope : Envelope)
  (fits : (table.body cable).length + 9 ≤ 0x3FD)
include fits

-- once every channel is read from its encoding
theorem decodeVct_encoded (expected : Channel ops → ChannelLabel)
    (reads : ∀ channel ∈ table.channels, ReadsItem (readChannel ops cable)
      (Channel.encode · cable) expected (DefineChannel.label order) channel) :
    Parses (decodeVct ops cable) {} envelope (table.body cable) fun read ret =>
      ret = 0 ∧ table.Holds order (table.channels.map expected) read.content := by
  have size := table.body_length cable
  have few := table.channels_few cable
  have count := byte_of_length table.channels.length (by omega)
  apply parseTable_encoded _ _ _ _ fits
  intro header carries
  have rest : (ofBytes (table.body cable) ++ envelope.behind).drop 2 =
      ofBytes (table.channels.flatMap (Channel.encode · cable)) ++
        (ofBytes (encodeShortLoop table.additional) ++ envelope.behind) := by
    simp [VirtualChannels.body]
  obtain ⟨word, wordRead, length⟩ :=
    readShortLoop_encoded table.additional envelope.behind (by omega)
  have last : (ofBytes (encodeShortLoop table.additional) ++ envelope.behind).drop 2 =
      ofBytes (encodeDescriptors table.additional) ++ envelope.behind := rfl
  cases countedLoop_encoded (readChannel ops cable) (Channel.encode · cable) expected
    (DefineChannel.label order) table.channels reads
    (ofBytes (encodeShortLoop table.additional) ++ envelope.behind) with
  | intro channels looped =>
    cases parseDescriptors_encoded table.additional envelope.behind with
    | intro list listed =>
      refine ⟨⟨⟨table.protocolVersion, UInt8.ofNat table.channels.length, some channels,
        (encodeDescriptors table.additional).length, list⟩, 0, []⟩,
        ⟨rfl, rfl, congrArg some looped.1, listed.1⟩, ?_⟩
      apply yields_read (show _ = some () from rfl)
      apply yields_read (show _ = some () from rfl)
      apply yields_read (show _ = some table.protocolVersion from rfl)
      apply yields_read (show _ = some (UInt8.ofNat table.channels.length) from rfl)
      apply yields_allocated
      rw [count, rest]
      apply yields_bind looped.2
      apply yields_read wordRead
      dsimp only
      rw [length, last]
      exact yields_bind listed.2 (yields_pure _)

-- no channel of a cable table can be read
theorem channels_of_cable (read : Table (Vct D) → Int → Prop) (isCable : cable = true)
    (parses : Parses (decodeVct ops cable) {} envelope (table.body cable) read) :
    table.channels = [] := by
  have size := table.body_length cable
  have few := table.channels_few cable
  have count := byte_of_length table.channels.length (by omega)
  obtain ⟨header, carries, given, result, available, decoding, -⟩ := parses.decodes fits
  obtain ⟨freedNodes, -, decoding⟩ := lift_bind decoding
  obtain ⟨freedList, -, decoding⟩ := lift_bind decoding
  obtain ⟨protocolVersion, -, decoding⟩ := lift_bind decoding
  obtain ⟨numChannels, numRead, decoding⟩ := lift_bind decoding
  have number : numChannels = UInt8.ofNat table.channels.length :=
    (Option.some.inj numRead).symm
  have later := allocated_bind available decoding
  obtain ⟨looped, looping, -⟩ := Option.bind_eq_some_iff.mp later.1
  rw [number, count] at looping
  cases channels : table.channels with
  | nil => rfl
  | cons first channels =>
    rw [channels, List.length_cons] at looping
    obtain ⟨read, reading, -⟩ := Option.bind_eq_some_iff.mp looping
    obtain ⟨name, copying, -⟩ := lift_bind reading
    have inside := (Region.memcpy_isSome _ _ _ _).mp (Option.isSome_iff_exists.mpr ⟨name, copying⟩)
    rw [isCable] at inside
    have tooLong : ((shortNameSize true : Nat) : Int) = 112 := rfl
    omega

omit fits in
theorem readChannels_encoded (short : (table.body false).length + 9 ≤ 0x3FD) :
    ∀ channel ∈ table.channels, ReadsItem (readChannel ops false) (Channel.encode · false)
      (Channel.labelSeen · false order) (DefineChannel.label order) channel := by
  intro channel inside
  have size := table.body_length false
  have shorter := node_fits (Channel.encode · false) table.channels channel inside
  rw [channel.encode_length] at shorter
  exact readChannel_encoded order channel (by omega)

omit fits in
theorem labels_seen_iff :
    table.channels.map (Channel.labelSeen · false order) =
        table.channels.map (Channel.label · false) ↔
      ∀ channel ∈ table.channels, order.Keeps channel.shortName := by
  have same : ∀ channel : Channel ops,
      channel.labelSeen false order = channel.label false ↔ order.Keeps channel.shortName := by
    intro channel
    have sent : channel.shortName.map (ByteOrder.seen .big) = channel.shortName := List.map_id _
    rw [← order.keeps_iff, Channel.label, Channel.labelSeen, Channel.labelSeen, sent]
    simp only [ChannelLabel.mk.injEq, Option.some.injEq, and_true]
  rw [List.map_inj_left]
  exact forall₂_congr fun channel _ => same channel

theorem parseVct_encoded_iff :
    (Parses (decodeVct ops cable) {} envelope (table.body cable) fun read ret =>
      ret = 0 ∧ table.Decoded cable order read.content) ↔
    table.channels = [] ∨
      (cable = false ∧ ∀ channel ∈ table.channels, order.Keeps channel.shortName) := by
  constructor
  · intro parses
    cases cable with
    | true => exact Or.inl (channels_of_cable table true envelope fits _ rfl parses)
    | false =>
      have seen := decodeVct_encoded table false order envelope fits _
        (readChannels_encoded table order fits)
      obtain ⟨read, ret, found, wanted⟩ := parses.both seen
      have labels := wanted.2.channels.symm.trans found.2.channels
      exact Or.inr ⟨rfl, (labels_seen_iff table order).mp (Option.some.inj labels)⟩
  · intro condition
    cases condition with
    | inl none =>
      apply decodeVct_encoded table cable order envelope fits
      simp [none]
    | inr kept =>
      obtain ⟨rfl, keeps⟩ := kept
      have seen := decodeVct_encoded table false order envelope fits _
        (readChannels_encoded table order fits)
      rwa [(labels_seen_iff table order).mpr keeps] at seen

end Vct

-- channel 5.1 with the name of seven times the same code unit
def channelNamed (unit : Nat) (fits : unit < 65536) : Channel copyOps where
  shortName := List.replicate 7 unit
  majorChannelNumber := 5
  minorChannelNumber := 1
  modulationMode := 4
  carrierFrequency := 0
  channelTsid := 0x0401
  programNumber := 3
  etmLocation := 2
  accessControlled := false
  hidden := false
  pathSelect := true
  outOfBand := false
  hideGuide := false
  serviceType := 2
  sourceId := 0x0BC9
  descriptors := [.plain 0xA1 [0xE0, 0x31, 0] (by simp)]
  sevenUnits := rfl
  unitsFit := fun other inside => by rwa [List.eq_of_mem_replicate inside]
  majorFits := by simp
  minorFits := by simp
  modulationFits := by simp
  carrierFits := by simp
  tsidFits := by simp
  programFits := by simp
  etmFits := by simp
  serviceFits := by simp
  sourceFits := by simp

def oneChannel (unit : Nat) (fits : unit < 65536) : VirtualChannels copyOps :=
  ⟨0, [channelNamed unit fits], []⟩

-- U+3030 reads the same either way round
theorem parseVct_encoded_symmetric :
    Parses (decodeVct copyOps false) {} (psipEnvelope 0xC8)
      ((oneChannel 0x3030 (by simp)).body false) fun read ret =>
        ret = 0 ∧ (oneChannel 0x3030 (by simp)).Decoded false .little read.content :=
  (parseVct_encoded_iff (oneChannel 0x3030 (by simp)) false .little (psipEnvelope 0xC8)
    (by decide)).mpr (Or.inr ⟨rfl, fun channel inside => by
      obtain rfl := List.mem_singleton.mp inside
      exact Or.inr fun unit same => by rw [List.eq_of_mem_replicate same]⟩)

-- a cable channel runs past its name, and a little-endian host sees U+3100 for a 1
theorem parseVct_misreads :
    (¬Parses (decodeVct copyOps true) {} (psipEnvelope 0xC9)
      ((oneChannel 0x31 (by simp)).body true) fun read ret =>
        ret = 0 ∧ (oneChannel 0x31 (by simp)).Decoded true .big read.content) ∧
    ¬Parses (decodeVct copyOps false) {} (psipEnvelope 0xC8)
      ((oneChannel 0x31 (by simp)).body false) fun read ret =>
        ret = 0 ∧ (oneChannel 0x31 (by simp)).Decoded false .little read.content := by
  constructor
  · intro parses
    have none := channels_of_cable _ true (psipEnvelope 0xC9) (by decide) _ rfl parses
    cases none
  · intro parses
    have seen := decodeVct_encoded (oneChannel 0x31 (by simp)) false .little (psipEnvelope 0xC8)
      (by decide) _ (readChannels_encoded _ .little (by decide))
    obtain ⟨read, ret, found, wanted⟩ := parses.both seen
    have labels := Option.some.inj (wanted.2.channels.symm.trans found.2.channels)
    have kept := (labels_seen_iff _ .little).mp labels (channelNamed 0x31 (by simp))
      List.mem_cons_self
    cases kept with
    | inl big => cases big
    | inr symmetric =>
      have same := symmetric 0x31 List.mem_cons_self
      cases same

end TsAnalyze.Psip
