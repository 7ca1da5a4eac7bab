import TsAnalyze.Pes.Payload

set_option autoImplicit false

namespace TsAnalyze.Pes

open Memory Tables

/-- The first six bytes of a packet. -/
structure Starts (pkt : Block) (streamId : UInt8) (length : Nat) : Prop where
  first : read8 pkt 0 = some 0
  second : read8 pkt 1 = some 0
  third : read8 pkt 2 = some 1
  streamId : read8 pkt 3 = some streamId
  length : read16 pkt 4 = some length

-- a stream as the content of its packet is looked at
def PesStream.started (pt : PesStream) (streamId : UInt8) (length : Nat) : PesStream :=
  { pt with packetStartCodePrefix := 1, streamId := streamId, pesPacketLength := length }

section Registered

variable {pes : PesTable} {pid : Nat} {pt : PesStream} (registered : pes.Registered pid pt)
include registered

theorem parsePesPacket_started {pkt : Block} {streamId : UInt8} {length : Nat}
    (starts : Starts pkt streamId length) :
    parsePesPacket pes pid pkt =
      (parseContent (pt.started streamId length) pkt).map fun parsed =>
        ({ pes with list := pes.list.set (pes.pidIndex pid) parsed }, parsed.call pid,
          parsed.pesPacketLength + 6) := by
  have index := registered.index
  have code : (0 : UInt8).toNat <<< 16 ||| (0 : UInt8).toNat <<< 8 ||| (1 : UInt8).toNat = 1 := rfl
  rw [parsePesPacket, if_pos registered.bitmap, if_neg (by omega), registered.entry]
  simp only [parsePes, starts.first, starts.second, starts.third, starts.streamId, starts.length,
    Option.bind_eq_bind, Option.bind_some, code, ne_eq, not_true_eq_false, if_false,
    PesStream.started]
  cases parseContent _ pkt <;> rfl

/-- A call that is made has its data where the content's parser has left the pointer. -/
theorem call_of_content {pkt : Block} {streamId : UInt8} {length : Nat}
    (starts : Starts pkt streamId length) (result : PesTable × Option PesCall × Int)
    (found : parsePesPacket pes pid pkt = some result) :
    ∃ parsed, parseContent (pt.started streamId length) pkt = some parsed ∧
      result.2.1 = parsed.call pid := by
  rw [parsePesPacket_started registered starts] at found
  obtain ⟨parsed, content, same⟩ := Option.map_eq_some_iff.mp found
  exact ⟨parsed, content, by rw [← same]⟩

end Registered

-- the payload of a stream without an optional header
theorem parseContent_plain (pt : PesStream) (pkt : Block) (plain : pt.streamId ∈ plainStreams) :
    parseContent pt pkt = some { pt with pesPacketDataByte := some 6 } :=
  if_pos plain

theorem parseContent_padding (pt : PesStream) (pkt : Block) (padding : pt.streamId = paddingStream) :
    parseContent pt pkt = some { pt with pesPacketDataByte := none } := by
  rw [parseContent, if_neg (by rw [padding]; decide), if_pos padding]

theorem parseContent_header (pt : PesStream) (pkt : Block)
    (headed : pt.streamId ∉ plainStreams ∧ pt.streamId ≠ paddingStream) :
    parseContent pt pkt = parseOptionalHeader pt pkt := by
  rw [parseContent, if_neg headed.1, if_neg headed.2]

section Inside

variable (bytes : List UInt8)

def streamIdOf : UInt8 :=
  bytes.getD 3 0

def lengthOf : Nat :=
  (read16 (ofBytes bytes) 4).getD 0

-- the flag of the sequence counter may be looked for behind the packet
def mostLag (flags : PesFlags) : Nat :=
  if flags.pesExtensionFlag ≠ 0 then
    (read8 (ofBytes bytes) (9 + fixedSize flags)).elim 2 fun b0 => subLag (extensionFlags b0)
  else 0

/-- PES_packet_length covers the optional header, and the packet what PES_packet_length says, with
two bytes to spare where a sequence counter is or may be seen. -/
def PayloadInside : Prop :=
  if streamIdOf bytes ∈ plainStreams then 6 + lengthOf bytes ≤ bytes.length
  else if streamIdOf bytes = paddingStream then True
  else ∃ flags, readFlags (ofBytes bytes) = some flags ∧
    3 + flags.pesHeaderDataLength ≤ lengthOf bytes ∧
      6 + lengthOf bytes + mostLag bytes flags ≤ bytes.length

-- whatever stands behind the bytes in the memory
def CallsInside (pes : PesTable) (pid : Nat) : Prop :=
  ∀ behind result call, parsePesPacket pes pid (ofBytes bytes ++ behind) = some result →
    result.2.1 = some call → 0 ≤ call.data ∧ 0 ≤ call.length ∧
      call.data + call.length ≤ bytes.length

theorem subLag_le (flags : PesExtension) : subLag flags ≤ 2 := by
  rw [subLag]
  split <;> omega

theorem headerLag_le (flags : PesFlags) (behind : Block) :
    headerLag flags (ofBytes bytes ++ behind) ≤ mostLag bytes flags := by
  rw [headerLag, mostLag]
  split
  · cases found : read8 (ofBytes bytes) (9 + fixedSize flags) with
    | none => exact subLag_le _
    | some b0 =>
      have same := stable_read8 (9 + fixedSize flags) (ofBytes bytes) behind b0 found
      dsimp only at same
      rw [extensionByte, same, Option.getD_some, Option.elim_some]
  · exact Nat.le_refl 0

-- bytes behind the packet that look like a sequence counter
def misleading : List UInt8 :=
  List.replicate 512 0xFF

theorem headerLag_misleading (flags : PesFlags) :
    headerLag flags (ofBytes bytes ++ ofBytes misleading) = mostLag bytes flags := by
  have fixed := fixedSize_le flags
  rw [headerLag, mostLag]
  split
  · cases found : read8 (ofBytes bytes) (9 + fixedSize flags) with
    | none =>
      have outside : bytes.length ≤ 9 + fixedSize flags := by
        by_contra inside
        obtain ⟨byte, same⟩ := read8_inside bytes (9 + fixedSize flags) (by omega)
        rw [same] at found
        cases found
      have seen : read8 (ofBytes bytes ++ ofBytes misleading) (9 + fixedSize flags) = some 0xFF := by
        rw [← ofBytes_append, read8_ofBytes, List.getElem?_append_right outside]
        exact List.getElem?_replicate_of_lt (by omega)
      rw [extensionByte, seen, Option.getD_some, Option.elim_none]
      decide
    | some b0 =>
      have same := stable_read8 (9 + fixedSize flags) (ofBytes bytes) (ofBytes misleading) b0 found
      dsimp only at same
      rw [extensionByte, same, Option.getD_some, Option.elim_some]
  · rfl

variable {bytes} (long : 9 ≤ bytes.length)
include long

theorem readFlags_inside (behind : Block) : ∃ flags, readFlags (ofBytes bytes) = some flags ∧
    readFlags (ofBytes bytes ++ behind) = some flags := by
  obtain ⟨first, firstRead⟩ := read8_inside bytes 6 (by omega)
  obtain ⟨second, secondRead⟩ := read8_inside bytes 7 (by omega)
  obtain ⟨third, thirdRead⟩ := read8_inside bytes 8 (by omega)
  have firstSame := stable_read8 6 (ofBytes bytes) behind first firstRead
  have secondSame := stable_read8 7 (ofBytes bytes) behind second secondRead
  have thirdSame := stable_read8 8 (ofBytes bytes) behind third thirdRead
  dsimp only at firstSame secondSame thirdSame
  simp only [readFlags, firstRead, secondRead, thirdRead, firstSame, secondSame, thirdSame,
    Option.bind_eq_bind, Option.bind_some]
  exact ⟨_, rfl, rfl⟩

theorem starts_inside (code : bytes.take 3 = [0, 0, 1]) (behind : Block) :
    Starts (ofBytes bytes ++ behind) (streamIdOf bytes) (lengthOf bytes) := by
  have inCode : ∀ offset < 3, read8 (ofBytes bytes ++ behind) offset = [0, 0, 1][offset]? := by
    intro offset inside
    rw [read8_append_left _ _ _ (by rw [ofBytes_length]; omega), read8_ofBytes, ← code,
      List.getElem?_take_of_lt inside]
  obtain ⟨length, lengthRead⟩ := read16_inside bytes 4 (by omega)
  have lengthSame := stable_read16 4 (ofBytes bytes) behind length lengthRead
  refine ⟨inCode 0 (by omega), inCode 1 (by omega), inCode 2 (by omega), ?_, ?_⟩
  · rw [read8_append_left _ _ _ (by rw [ofBytes_length]; omega), read8_getD bytes 3 (by omega)]
    rfl
  · rw [lengthOf, lengthRead, Option.getD_some]
    exact lengthSame

end Inside

section Calls

variable {pes : PesTable} {pid : Nat} {pt : PesStream} (registered : pes.Registered pid pt)
  (bytes : List UInt8) (long : 9 ≤ bytes.length) (short : bytes.length < 65536)
  (code : bytes.take 3 = [0, 0, 1])
include registered long short code

theorem calls_inside (inside : PayloadInside bytes) : CallsInside bytes pes pid := by
  intro behind result call found called
  have starts := starts_inside long code behind
  obtain ⟨parsed, content, made⟩ := call_of_content registered starts result found
  rw [made, PesStream.call] at called
  rw [PayloadInside] at inside
  by_cases plain : streamIdOf bytes ∈ plainStreams
  · rw [if_pos plain] at inside
    rw [parseContent_plain _ _ plain] at content
    cases content
    simp only [PesStream.started, registered.cb, if_true, Option.map_some,
      Option.some.injEq] at called
    rw [← called]
    dsimp only
    omega
  · rw [if_neg plain] at inside
    by_cases padding : streamIdOf bytes = paddingStream
    · rw [parseContent_padding _ _ padding] at content
      cases content
      simp at called
    · rw [if_neg padding] at inside
      rw [parseContent_header _ _ ⟨plain, padding⟩] at content
      obtain ⟨flags, flagsRead, covered, enough⟩ := inside
      obtain ⟨seen, seenRead, data, length, cb⟩ := parseOptionalHeader_data _ _ parsed content
      obtain ⟨known, knownRead, same⟩ := readFlags_inside long behind
      rw [knownRead] at flagsRead
      rw [same, flagsRead] at seenRead
      obtain rfl := Option.some.inj seenRead
      have lag := headerLag_le bytes flags behind
      have lengthLt := read16_lt _ _ _ starts.length
      rw [PesStream.started] at length cb
      dsimp only at length cb
      rw [Int.emod_eq_of_lt (by omega) (by omega)] at length
      rw [cb, registered.cb, if_pos rfl, data, length, Option.map_some, Option.some.injEq] at called
      rw [← called]
      dsimp only
      omega

theorem inside_of_calls (calls : CallsInside bytes pes pid) : PayloadInside bytes := by
  have starts := starts_inside long code (ofBytes misleading)
  have found := parsePesPacket_started registered starts
  have made := calls (ofBytes misleading)
  rw [found] at made
  rw [PayloadInside]
  by_cases plain : streamIdOf bytes ∈ plainStreams
  · rw [parseContent_plain _ _ plain, Option.map_some] at made
    rw [if_pos plain]
    have inside := made _ ⟨pid, 6, lengthOf bytes⟩ rfl
      (by simp [PesStream.call, PesStream.started, registered.cb])
    dsimp only at inside
    omega
  · rw [if_neg plain]
    by_cases padding : streamIdOf bytes = paddingStream
    · rw [if_pos padding]
      trivial
    · rw [if_neg padding]
      obtain ⟨flags, flagsRead, same⟩ := readFlags_inside long (ofBytes misleading)
      have readable : Readable (ofBytes bytes ++ ofBytes misleading)
          (9 + headerSize flags (ofBytes bytes ++ ofBytes misleading)) := by
        have most := headerSize_le flags (ofBytes bytes ++ ofBytes misleading)
        have all := readable_bytes (bytes ++ misleading) []
        rw [List.append_nil, ofBytes_append, List.length_append] at all
        apply all.le
        have size : misleading.length = 512 := List.length_replicate
        omega
      obtain ⟨parsed, content⟩ := parseOptionalHeader_reads
        (pt.started (streamIdOf bytes) (lengthOf bytes)) _ flags same readable
      obtain ⟨seen, seenRead, data, length, cb⟩ := parseOptionalHeader_data _ _ parsed content
      rw [same] at seenRead
      obtain rfl := Option.some.inj seenRead
      rw [parseContent_header _ _ ⟨plain, padding⟩, content, Option.map_some] at made
      rw [headerLag_misleading] at data
      rw [PesStream.started] at length cb
      dsimp only at length cb
      have inside := made _ ⟨pid, _, parsed.pesPacketLength⟩ rfl (by
        rw [PesStream.call, cb, registered.cb, if_pos rfl, data, Option.map_some])
      rw [length] at inside
      dsimp only at inside
      -- an optional header that is longer than the packet makes the length wrap
      have lengthLt := read16_lt _ _ _ starts.length
      refine ⟨flags, flagsRead, ?_, ?_⟩ <;> omega

theorem callsInside_iff : CallsInside bytes pes pid ↔ PayloadInside bytes :=
  ⟨inside_of_calls registered bytes long short code,
    calls_inside registered bytes long short code⟩

end Calls

-- one video PID with a callback
def videoTable : PesTable :=
  ⟨1, (· = 0x100), fun _ => 0, [{ pid := 0x100, cb := true }]⟩

theorem videoTable_registered : videoTable.Registered 0x100 { pid := 0x100, cb := true } :=
  ⟨rfl, by decide, rfl, rfl⟩

-- three bytes of payload, and a PES_packet_length that goes beyond the packet
def videoPacket (length : UInt8) : List UInt8 :=
  [0, 0, 1, 0xE0, 0, length, 0x80, 0, 0, 0xAA, 0xBB, 0xCC]

theorem callsInside_video : CallsInside (videoPacket 6) videoTable 0x100 :=
  (callsInside_iff videoTable_registered (videoPacket 6) (by decide) (by decide) rfl).mpr
    ⟨_, rfl, by decide, by decide⟩

theorem callsInside_beyond : ¬CallsInside (videoPacket 7) videoTable 0x100 := by
  intro calls
  obtain ⟨flags, flagsRead, -, enough⟩ := inside_of_calls videoTable_registered (videoPacket 7)
    (by decide) (by decide) rfl calls
  have total : 6 + lengthOf (videoPacket 7) ≤ (videoPacket 7).length := by omega
  revert total
  decide

end TsAnalyze.Pes
