import TsAnalyze.Pes.Bounds

set_option autoImplicit false

namespace TsAnalyze.Pes

open Memory Tables

-- a field that says its length
abbrev Upto (most : Nat) :=
  { bytes : List UInt8 // bytes.length ≤ most }

/-- The sub-fields of an extension. -/
structure SubFields where
  privateData : Option (Raw 16)
  packHeader : Option (Upto 255)
  sequenceCounter : Option (Raw 2)
  pStdBuffer : Option (Raw 2)
  extensionField : Option (Upto 127)
  reserved : Nat
  reservedFits : reserved < 8

/-- The fields of an optional header; a DTS comes with a PTS only. -/
structure HeaderFields where
  pts : Option (Raw 5)
  dts : Option (Raw 5)
  escr : Option (Raw 6)
  esRate : Option (Raw 3)
  trickMode : Option (Raw 1)
  copyInfo : Option (Raw 1)
  previousCrc : Option (Raw 2)
  extension : Option SubFields
  stamped : dts.isSome = true → pts.isSome = true

-- behind bits that the parser masks out
def encodeUpto {most : Nat} (marks : Nat) (field : Upto most) : List UInt8 :=
  UInt8.ofNat (marks + field.1.length) :: field.1

namespace SubFields

variable (sub : SubFields)

def flags : UInt8 :=
  UInt8.ofNat (sub.privateData.isSome.toNat * 2 ^ 7 + sub.packHeader.isSome.toNat * 2 ^ 6 +
    sub.sequenceCounter.isSome.toNat * 2 ^ 5 + sub.pStdBuffer.isSome.toNat * 2 ^ 4 +
    sub.reserved * 2 + sub.extensionField.isSome.toNat)

def encodeParts : List UInt8 :=
  encodeRaw sub.privateData ++ (sub.packHeader.elim [] (encodeUpto 0) ++
    (encodeRaw sub.sequenceCounter ++ (encodeRaw sub.pStdBuffer ++
      sub.extensionField.elim [] (encodeUpto 0x80))))

def encode : List UInt8 :=
  sub.flags :: sub.encodeParts

end SubFields

namespace HeaderFields

variable (header : HeaderFields)

def flags : UInt8 :=
  UInt8.ofNat (header.pts.isSome.toNat * 2 ^ 7 + header.dts.isSome.toNat * 2 ^ 6 +
    header.escr.isSome.toNat * 2 ^ 5 + header.esRate.isSome.toNat * 2 ^ 4 +
    header.trickMode.isSome.toNat * 2 ^ 3 + header.copyInfo.isSome.toNat * 2 ^ 2 +
    header.previousCrc.isSome.toNat * 2 + header.extension.isSome.toNat)

def encodeFixed : List UInt8 :=
  encodeRaw header.pts ++ (encodeRaw header.dts ++ (encodeRaw header.escr ++
    (encodeRaw header.esRate ++ (encodeRaw header.trickMode ++ (encodeRaw header.copyInfo ++
      encodeRaw header.previousCrc)))))

def encode : List UInt8 :=
  header.encodeFixed ++ header.extension.elim [] SubFields.encode

-- a sequence counter in the extension
def CountsPackets : Prop :=
  ∃ sub, header.extension = some sub ∧ sub.sequenceCounter.isSome = true

end HeaderFields

/-- A packet with an optional header, up to its payload. -/
structure DataPacket where
  streamId : UInt8
  marks : UInt8
  header : HeaderFields
  stuffing : List UInt8
  length : Nat
  headed : streamId ∉ plainStreams ∧ streamId ≠ paddingStream
  headerFits : (header.encode ++ stuffing).length < 256
  covers : 3 + (header.encode ++ stuffing).length ≤ length
  lengthFits : length < 65536

namespace DataPacket

variable (packet : DataPacket)

def headerDataLength : Nat :=
  (packet.header.encode ++ packet.stuffing).length

def front : List UInt8 :=
  [0, 0, 1, packet.streamId] ++ encode16 packet.length ++
    [packet.marks, packet.header.flags, UInt8.ofNat packet.headerDataLength]

def encode : List UInt8 :=
  packet.front ++ (packet.header.encode ++ packet.stuffing)

/-- The callback is given the bytes behind the header, as many as the packet has left. -/
def Delivered (pes : PesTable) (pid : Nat) (payload : Block) : Prop :=
  ∃ result, parsePesPacket pes pid (ofBytes packet.encode ++ payload) = some result ∧
    result.2.1 = some
      ⟨pid, 9 + (packet.headerDataLength : Int), packet.length - (3 + packet.headerDataLength)⟩

end DataPacket

section Sizes

theorem ifSize_raw {size : Nat} (field : Option (Raw size)) (present : Prop) [Decidable present]
    (same : present ↔ field.isSome = true) (behind : Block) :
    ifSize present (fun _ => size) (ofBytes (encodeRaw field) ++ behind) =
      (encodeRaw field).length := by
  rw [encodeRaw_length, ifSize]
  simp only [same]

-- the bits behind the mask say the length of a field
def Masks (marks mask most : Nat) : Prop :=
  ∀ length ≤ most, (marks + length) % 256 &&& mask = length

theorem masks_byte : Masks 0 0xFF 255 := by
  intro length few
  have found := masked 0 length 8 (by omega)
  rw [Nat.zero_mul] at found
  rw [Nat.mod_eq_of_lt (by omega)]
  exact found

theorem masks_marked : Masks 0x80 0x7F 127 := by
  intro length few
  rw [Nat.mod_eq_of_lt (by omega)]
  exact masked 1 length 7 (by omega)

theorem lengthByte_encoded {marks mask most : Nat} (masks : Masks marks mask most)
    (field : Upto most) (behind : Block) :
    1 + lengthByte mask (ofBytes (encodeUpto marks field) ++ behind) =
      (encodeUpto marks field).length := by
  have first : read8 (ofBytes (encodeUpto marks field) ++ behind) 0 =
      some (UInt8.ofNat (marks + field.1.length)) := by
    rw [read8_append_left _ _ _ (by simp [encodeUpto]), read8_ofBytes]
    rfl
  rw [lengthByte, first, Option.getD_some, UInt8.toNat_ofNat', masks _ field.2, encodeUpto,
    List.length_cons, Nat.add_comm]

theorem ifSize_upto {marks mask most : Nat} (masks : Masks marks mask most)
    (field : Option (Upto most)) (present : Prop) [Decidable present]
    (same : present ↔ field.isSome = true) (behind : Block) :
    ifSize present (fun memory => 1 + lengthByte mask memory)
        (ofBytes (field.elim [] (encodeUpto marks)) ++ behind) =
      (field.elim [] (encodeUpto marks)).length :=
  ifSize_encoded _ (fun value => lengthByte_encoded masks value) field present same behind

end Sizes

theorem isSome_bit {A : Type} (field : Option A) (bit : Nat) (same : bit = field.isSome.toNat) :
    bit ≠ 0 ↔ field.isSome = true := by
  rw [same]
  cases field <;> simp

section Flags

theorem SubFields.flags_fields (sub : SubFields) :
    (extensionFlags sub.flags).pesPrivateDataFlag = sub.privateData.isSome.toNat ∧
      (extensionFlags sub.flags).packHeaderFieldFlag = sub.packHeader.isSome.toNat ∧
      (extensionFlags sub.flags).programPacketSequenceCounterFlag =
        sub.sequenceCounter.isSome.toNat ∧
      (extensionFlags sub.flags).pStdBufferFlag = sub.pStdBuffer.isSome.toNat ∧
      (extensionFlags sub.flags).pesExtensionFlag2 = sub.extensionField.isSome.toNat := by
  have privateData := Bool.toNat_le sub.privateData.isSome
  have packHeader := Bool.toNat_le sub.packHeader.isSome
  have sequenceCounter := Bool.toNat_le sub.sequenceCounter.isSome
  have pStdBuffer := Bool.toNat_le sub.pStdBuffer.isSome
  have extensionField := Bool.toNat_le sub.extensionField.isSome
  have reserved := sub.reservedFits
  have bit : ∀ value : Nat, value &&& 0x1 = value % 2 := fun value => Nat.and_one_is_mod value
  simp only [extensionFlags, SubFields.flags, UInt8.toNat_ofNat', Nat.shiftRight_eq_div_pow, bit]
  omega

theorem HeaderFields.flags_fields (header : HeaderFields) :
    readBits 8 header.flags.toNat 2 0 = header.pts.isSome.toNat * 2 + header.dts.isSome.toNat ∧
      readBits 8 header.flags.toNat 1 2 = header.escr.isSome.toNat ∧
      readBits 8 header.flags.toNat 1 3 = header.esRate.isSome.toNat ∧
      readBits 8 header.flags.toNat 1 4 = header.trickMode.isSome.toNat ∧
      readBits 8 header.flags.toNat 1 5 = header.copyInfo.isSome.toNat ∧
      readBits 8 header.flags.toNat 1 6 = header.previousCrc.isSome.toNat ∧
      readBits 8 header.flags.toNat 1 7 = header.extension.isSome.toNat := by
  have pts := Bool.toNat_le header.pts.isSome
  have dts := Bool.toNat_le header.dts.isSome
  have escr := Bool.toNat_le header.escr.isSome
  have esRate := Bool.toNat_le header.esRate.isSome
  have trickMode := Bool.toNat_le header.trickMode.isSome
  have copyInfo := Bool.toNat_le header.copyInfo.isSome
  have previousCrc := Bool.toNat_le header.previousCrc.isSome
  have extension := Bool.toNat_le header.extension.isSome
  simp only [readBits_low, HeaderFields.flags, UInt8.toNat_ofNat']
  omega

-- the two bits of the stamps
theorem stamps (first second : Bool) :
    ((first.toNat * 2 + second.toNat) &&& 0x2 = 0x2 ↔ first = true) ∧
      ((first.toNat * 2 + second.toNat) &&& 0x1 = 0x1 ↔ second = true) := by
  cases first <;> cases second <;> decide

end Flags

section Encoded

theorem SubFields.subSize_encoded (sub : SubFields) (behind : Block) :
    subSize (extensionFlags sub.flags) (ofBytes sub.encodeParts ++ behind) =
      sub.encodeParts.length := by
  obtain ⟨privateData, packHeader, sequenceCounter, pStdBuffer, extensionField⟩ :=
    sub.flags_fields
  simp only [encodeParts, ofBytes_append, List.append_assoc, List.length_append]
  have first := ifSize_raw sub.privateData _ (isSome_bit _ _ privateData)
  have second := ifSize_upto masks_byte sub.packHeader _ (isSome_bit _ _ packHeader)
  have third := ifSize_raw sub.sequenceCounter _ (isSome_bit _ _ sequenceCounter)
  have fourth := ifSize_raw sub.pStdBuffer _ (isSome_bit _ _ pStdBuffer)
  have last := ifSize_upto masks_marked sub.extensionField _ (isSome_bit _ _ extensionField) behind
  rw [subSize, thenSize_encoded _ _ (first _), thenSize_encoded _ _ (second _),
    thenSize_encoded _ _ (third _), thenSize_encoded _ _ (fourth _), last]

theorem SubFields.subLag_flags (sub : SubFields) :
    subLag (extensionFlags sub.flags) = if sub.sequenceCounter.isSome = true then 2 else 0 := by
  obtain ⟨-, -, sequenceCounter, -, -⟩ := sub.flags_fields
  rw [subLag]
  simp only [isSome_bit _ _ sequenceCounter]

/-- What the parser finds in the flags of a header. -/
structure HeaderFields.Flagged (header : HeaderFields) (flags : PesFlags) : Prop where
  ptsDts : flags.ptsDtsFlags = header.pts.isSome.toNat * 2 + header.dts.isSome.toNat
  escr : flags.escrFlag = header.escr.isSome.toNat
  esRate : flags.esRateFlag = header.esRate.isSome.toNat
  trickMode : flags.dsmTrickModeFlag = header.trickMode.isSome.toNat
  copyInfo : flags.additionalCopyInfoFlag = header.copyInfo.isSome.toNat
  previousCrc : flags.pesCrcFlag = header.previousCrc.isSome.toNat
  extension : flags.pesExtensionFlag = header.extension.isSome.toNat

theorem HeaderFields.fixedSize_encoded (header : HeaderFields) (flags : PesFlags)
    (flagged : header.Flagged flags) : fixedSize flags = header.encodeFixed.length := by
  obtain ⟨pts, dts⟩ := stamps header.pts.isSome header.dts.isSome
  rw [fixedSize, flagged.ptsDts]
  simp only [encodeFixed, List.length_append, encodeRaw_length, pts, dts,
    isSome_bit _ _ flagged.escr, isSome_bit _ _ flagged.esRate, isSome_bit _ _ flagged.trickMode,
    isSome_bit _ _ flagged.copyInfo, isSome_bit _ _ flagged.previousCrc]

end Encoded

namespace DataPacket

variable (packet : DataPacket)

theorem front_length : packet.front.length = 9 := rfl

theorem headerDataLength_lt : packet.headerDataLength < 256 :=
  packet.headerFits

theorem read8_front (payload : Block) (offset : Nat) (inside : offset < 9) :
    read8 (ofBytes packet.encode ++ payload) offset = packet.front[offset]? := by
  have size := packet.front_length
  rw [read8_append_left _ _ _ (by rw [ofBytes_length, encode, List.length_append]; omega),
    read8_ofBytes, encode, List.getElem?_append_left (by omega)]

theorem starts (payload : Block) :
    Starts (ofBytes packet.encode ++ payload) packet.streamId packet.length := by
  have stored : Stores16 (ofBytes packet.encode ++ payload) 4 packet.length :=
    ⟨packet.read8_front payload 4 (by omega), packet.read8_front payload 5 (by omega)⟩
  exact ⟨packet.read8_front payload 0 (by omega), packet.read8_front payload 1 (by omega),
    packet.read8_front payload 2 (by omega), packet.read8_front payload 3 (by omega),
    stored.read_fits packet.lengthFits⟩

theorem readFlags_encoded (payload : Block) :
    ∃ flags, readFlags (ofBytes packet.encode ++ payload) = some flags ∧
      packet.header.Flagged flags ∧ flags.pesHeaderDataLength = packet.headerDataLength := by
  have first : read8 (ofBytes packet.encode ++ payload) 6 = some packet.marks :=
    packet.read8_front payload 6 (by omega)
  have second : read8 (ofBytes packet.encode ++ payload) 7 = some packet.header.flags :=
    packet.read8_front payload 7 (by omega)
  have third : read8 (ofBytes packet.encode ++ payload) 8 =
      some (UInt8.ofNat packet.headerDataLength) :=
    packet.read8_front payload 8 (by omega)
  obtain ⟨ptsDts, escr, esRate, trickMode, copyInfo, previousCrc, extension⟩ :=
    packet.header.flags_fields
  simp only [readFlags, first, second, third, Option.bind_eq_bind, Option.bind_some]
  refine ⟨_, rfl, ⟨ptsDts, escr, esRate, trickMode, copyInfo, previousCrc, extension⟩, ?_⟩
  rw [UInt8.toNat_ofNat', Nat.mod_eq_of_lt packet.headerDataLength_lt]

section Extension

variable {packet} {sub : SubFields} (extended : packet.header.extension = some sub)
  (payload : Block)
include extended

theorem encode_extended : packet.encode =
    (packet.front ++ packet.header.encodeFixed) ++
      (sub.flags :: (sub.encodeParts ++ packet.stuffing)) := by
  rw [encode, HeaderFields.encode, extended, Option.elim_some, SubFields.encode]
  simp only [List.append_assoc, List.cons_append]

variable {flags : PesFlags} (flagged : packet.header.Flagged flags)
include flagged

theorem extensionByte_encoded :
    extensionByte flags (ofBytes packet.encode ++ payload) = sub.flags := by
  have size : (packet.front ++ packet.header.encodeFixed).length = 9 + fixedSize flags := by
    rw [List.length_append, front_length, packet.header.fixedSize_encoded flags flagged]
  have found : read8 (ofBytes packet.encode ++ payload) (9 + fixedSize flags) =
      some sub.flags := by
    have inside : 9 + fixedSize flags < packet.encode.length := by
      rw [encode_extended extended, List.length_append, size, List.length_cons]
      omega
    rw [read8_append_left _ _ _ (by rwa [ofBytes_length]), read8_ofBytes,
      encode_extended extended, ← size, List.getElem?_append_right (Nat.le_refl _), Nat.sub_self]
    rfl
  rw [extensionByte, found, Option.getD_some]

theorem subSize_packet :
    subSize (extensionFlags sub.flags)
        ((ofBytes packet.encode ++ payload).drop (10 + fixedSize flags)) =
      sub.encodeParts.length := by
  have size : (packet.front ++ packet.header.encodeFixed ++ [sub.flags]).length =
      10 + fixedSize flags := by
    rw [List.length_append, List.length_append, front_length,
      packet.header.fixedSize_encoded flags flagged, List.length_singleton]
    omega
  have split : packet.encode = (packet.front ++ packet.header.encodeFixed ++ [sub.flags]) ++
      (sub.encodeParts ++ packet.stuffing) := by
    rw [encode_extended extended]
    simp
  rw [split, ofBytes_append, List.append_assoc, List.drop_left' (by rw [ofBytes_length, size]),
    ofBytes_append, List.append_assoc, sub.subSize_encoded]

end Extension

section Header

variable {flags : PesFlags} (flagged : packet.header.Flagged flags) (payload : Block)
include flagged

theorem headerSize_encoded :
    headerSize flags (ofBytes packet.encode ++ payload) = packet.header.encode.length := by
  have fixed := packet.header.fixedSize_encoded flags flagged
  rw [headerSize, HeaderFields.encode, List.length_append, fixed]
  cases extended : packet.header.extension with
  | none => simp [flagged.extension, extended]
  | some sub =>
    have present : flags.pesExtensionFlag ≠ 0 := by
      simp [flagged.extension, extended]
    rw [if_pos present, extensionByte_encoded extended payload flagged, ← fixed,
      subSize_packet extended payload flagged, Option.elim_some, SubFields.encode,
      List.length_cons, Nat.add_comm 1]

theorem headerLag_encoded :
    headerLag flags (ofBytes packet.encode ++ payload) = 0 ↔ ¬packet.header.CountsPackets := by
  rw [headerLag]
  cases extended : packet.header.extension with
  | none => simp [flagged.extension, extended, HeaderFields.CountsPackets]
  | some sub =>
    have present : flags.pesExtensionFlag ≠ 0 := by
      simp [flagged.extension, extended]
    rw [if_pos present, extensionByte_encoded extended payload flagged, sub.subLag_flags]
    simp [HeaderFields.CountsPackets, extended]

end Header

end DataPacket

section Delivered

variable {pes : PesTable} {pid : Nat} {pt : PesStream} (registered : pes.Registered pid pt)
include registered

/-- Where the callback finds its data, for every combination of flags. -/
theorem parsePesPacket_call (packet : DataPacket) (payload : Block) :
    ∃ flags result, packet.header.Flagged flags ∧
      parsePesPacket pes pid (ofBytes packet.encode ++ payload) = some result ∧
      result.2.1 = some
        ⟨pid, (9 + packet.headerDataLength +
            headerLag flags (ofBytes packet.encode ++ payload) : Nat),
          packet.length - (3 + packet.headerDataLength)⟩ := by
  obtain ⟨flags, flagsRead, flagged, headerLength⟩ := packet.readFlags_encoded payload
  have starts := packet.starts payload
  have readable : Readable (ofBytes packet.encode ++ payload)
      (9 + headerSize flags (ofBytes packet.encode ++ payload)) := by
    apply (readable_bytes packet.encode payload).le
    rw [packet.headerSize_encoded flagged, DataPacket.encode, List.length_append,
      packet.front_length, List.length_append]
    omega
  obtain ⟨parsed, content⟩ := parseOptionalHeader_reads
    (pt.started packet.streamId packet.length) _ flags flagsRead readable
  obtain ⟨seen, seenRead, data, length, cb⟩ := parseOptionalHeader_data _ _ parsed content
  rw [flagsRead] at seenRead
  obtain rfl := Option.some.inj seenRead
  have found := parsePesPacket_started registered starts
  rw [parseContent_header _ _ packet.headed, content, Option.map_some] at found
  refine ⟨flags, _, flagged, found, ?_⟩
  have covers := packet.covers
  have fits := packet.lengthFits
  rw [PesStream.started] at length cb
  rw [headerLength] at data length
  dsimp only at length cb
  rw [Int.emod_eq_of_lt (by rw [DataPacket.headerDataLength]; omega) (by omega)] at length
  rw [PesStream.call, cb, registered.cb, if_pos rfl, data, length, Option.map_some]

theorem uncounted_of_delivered (packet : DataPacket) (payload : Block)
    (delivered : packet.Delivered pes pid payload) : ¬packet.header.CountsPackets := by
  obtain ⟨flags, result, flagged, found, called⟩ := parsePesPacket_call registered packet payload
  obtain ⟨same, sameFound, sameCalled⟩ := delivered
  rw [found] at sameFound
  obtain rfl := Option.some.inj sameFound
  rw [called, Option.some.injEq, PesCall.mk.injEq] at sameCalled
  apply (packet.headerLag_encoded flagged payload).mp
  omega

theorem delivered_iff (packet : DataPacket) (payload : Block) :
    packet.Delivered pes pid payload ↔ ¬packet.header.CountsPackets := by
  constructor
  · exact uncounted_of_delivered registered packet payload
  · intro uncounted
    obtain ⟨flags, result, flagged, found, called⟩ :=
      parsePesPacket_call registered packet payload
    refine ⟨result, found, ?_⟩
    rw [called, (packet.headerLag_encoded flagged payload).mpr uncounted]
    simp

end Delivered

-- only a sequence counter in the extension
def countedPacket : DataPacket where
  streamId := 0xE1
  marks := 0x80
  header := {
    pts := none, dts := none, escr := none, esRate := none, trickMode := none, copyInfo := none
    previousCrc := none
    extension := some {
      privateData := none, packHeader := none, sequenceCounter := some ⟨[0x81, 0x80], rfl⟩
      pStdBuffer := none, extensionField := none, reserved := 7, reservedFits := by decide }
    stamped := by decide }
  stuffing := []
  length := 8
  headed := by decide
  headerFits := by decide
  covers := by decide
  lengthFits := by decide

-- a PTS, and a stuffing byte
def stampedPacket : DataPacket where
  streamId := 0xE2
  marks := 0x84
  header := {
    pts := some ⟨[0x21, 0, 1, 0, 1], rfl⟩
    dts := none, escr := none, esRate := none, trickMode := none, copyInfo := none
    previousCrc := none, extension := none
    stamped := by decide }
  stuffing := [0xFF]
  length := 11
  headed := by decide
  headerFits := by decide
  covers := by decide
  lengthFits := by decide

theorem delivered_stamped : stampedPacket.Delivered videoTable 0x100 (ofBytes [0xAA, 0xBB]) :=
  (delivered_iff videoTable_registered stampedPacket (ofBytes [0xAA, 0xBB])).mpr
    (by rintro ⟨sub, found, -⟩; cases found)

theorem delivered_counted : ¬countedPacket.Delivered videoTable 0x100 (ofBytes [0xAA, 0xBB]) :=
  fun delivered => uncounted_of_delivered videoTable_registered countedPacket _ delivered
    ⟨_, rfl, rfl⟩

end TsAnalyze.Pes
