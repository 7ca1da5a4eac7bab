import TsAnalyze.Shared.Encoding
import TsAnalyze.Tables.Header

set_option autoImplicit false

namespace TsAnalyze.Pes

open Memory Tables

/-- The pointer buf, as an offset into the packet, and the counter head_len. -/
structure Place where
  buf : Nat
  headLen : Nat

-- a part of the packet's header
abbrev Field (A : Type) := ReaderT Block (StateT Place Option) A

section Fields

variable {A : Type}

-- buf += size; head_len += size - lag;
def field (value : Block → Option A) (size : Block → Nat) (lag : Nat) : Field A :=
  fun pkt place => do
    let memory := pkt.drop place.buf
    let found ← value memory
    return (found, ⟨place.buf + size memory, place.headLen + size memory - lag⟩)

def sized (size : Nat) (value : Block → Option A) : Field A :=
  field value (fun _ => size) 0

def optionally (present : Prop) [Decidable present] (part : Field A) : Field (Option A) :=
  if present then do
    let value ← part
    return some value
  else return none

end Fields

structure PtsDts where
  flag : Nat
  ptsDts1 : Nat
  ptsDts2 : Nat
  ptsDts3 : Nat

structure Escr where
  escrBase1 : Nat
  escrBase2 : Nat
  escrBase3 : Nat
  escrExtension : Nat

structure DsmTrickMode where
  dsmTrickModeControl : Nat
  repCntrl : Nat

structure ProgramPacketSequenceCounter where
  programPacketSequenceCounter : Nat
  mpeg1Mpeg2Identifier : Nat
  originalStuffLength : Nat

structure PStdBuffer where
  pStdBufferScale : Nat
  pStdBufferSize : Nat

structure PesExtension where
  pesPrivateDataFlag : Nat
  packHeaderFieldFlag : Nat
  programPacketSequenceCounterFlag : Nat
  pStdBufferFlag : Nat
  pesExtensionFlag2 : Nat
  pesPrivateData : Option (Region 16) := none
  packHeadLength : Option UInt8 := none
  ppsc : Option ProgramPacketSequenceCounter := none
  pStdBuffer : Option PStdBuffer := none
  pesExtensionFieldLength : Option Nat := none

/-- The two bytes of flags, and PES_header_data_length. -/
structure PesFlags where
  pesScramblingControl : Nat
  pesPriority : Nat
  dataAlignmentIndicator : Nat
  copyright : Nat
  originalOrCopy : Nat
  ptsDtsFlags : Nat
  escrFlag : Nat
  esRateFlag : Nat
  dsmTrickModeFlag : Nat
  additionalCopyInfoFlag : Nat
  pesCrcFlag : Nat
  pesExtensionFlag : Nat
  pesHeaderDataLength : Nat

structure NonPs where
  flags : PesFlags
  pts : Option PtsDts
  dts : Option PtsDts
  escr : Option Escr
  rate : Option Nat
  trickMode : Option DsmTrickMode
  copyInfo : Option Nat
  previousPesPacketCrc : Option Nat
  extension : Option PesExtension

section Header

def readFlags (pkt : Block) : Option PesFlags := do
  let first ← read8 pkt 6
  let second ← read8 pkt 7
  let headerDataLength ← read8 pkt 8
  return {
    pesScramblingControl := readBits 8 first.toNat 2 2
    pesPriority := readBits 8 first.toNat 1 4
    dataAlignmentIndicator := readBits 8 first.toNat 1 5
    copyright := readBits 8 first.toNat 1 6
    originalOrCopy := readBits 8 first.toNat 1 7
    ptsDtsFlags := readBits 8 second.toNat 2 0
    escrFlag := readBits 8 second.toNat 1 2
    esRateFlag := readBits 8 second.toNat 1 3
    dsmTrickModeFlag := readBits 8 second.toNat 1 4
    additionalCopyInfoFlag := readBits 8 second.toNat 1 5
    pesCrcFlag := readBits 8 second.toNat 1 6
    pesExtensionFlag := readBits 8 second.toNat 1 7
    pesHeaderDataLength := headerDataLength.toNat }

def readPtsDts (flag : Nat) : Field PtsDts :=
  sized 5 fun buf => do
    let first ← read8 buf 0
    let second ← read16 buf 1
    let third ← read16 buf 3
    return ⟨flag, readBits 8 first.toNat 3 4, second >>> 1, third >>> 1⟩

def readEscr : Field Escr :=
  sized 6 fun buf => do
    let b0 ← read8 buf 0
    let b1 ← read8 buf 1
    let b2 ← read8 buf 2
    let b3 ← read8 buf 3
    let b4 ← read8 buf 4
    let b5 ← read8 buf 5
    return {
      escrBase1 := (b0.toNat >>> 3) &&& 0x7
      escrBase2 := ((b0.toNat &&& 0x3) <<< 13) ||| (b1.toNat <<< 5) ||| (b2.toNat >>> 3)
      escrBase3 := ((b2.toNat &&& 0x3) <<< 13) ||| (b3.toNat <<< 5) ||| (b4.toNat >>> 3)
      escrExtension := ((b4.toNat &&& 0x3) <<< 8) ||| (b5.toNat >>> 1) }

def readEsRate : Field Nat :=
  sized 3 fun buf => do
    let b0 ← read8 buf 0
    let b1 ← read8 buf 1
    let b2 ← read8 buf 2
    return ((b0.toNat <<< 15) ||| (b1.toNat <<< 7) ||| (b2.toNat >>> 1)) &&& 0x3FFFFF

def readTrickMode : Field DsmTrickMode :=
  sized 1 fun buf => do
    let b0 ← read8 buf 0
    return ⟨b0.toNat >>> 5, b0.toNat &&& 0x1F⟩

def readCopyInfo : Field Nat :=
  sized 1 fun buf => do
    let b0 ← read8 buf 0
    return readBits 8 b0.toNat 7 1

def readPreviousCrc : Field Nat :=
  sized 2 fun buf => read16 buf 0

def extensionFlags (b0 : UInt8) : PesExtension where
  pesPrivateDataFlag := b0.toNat >>> 7
  packHeaderFieldFlag := (b0.toNat >>> 6) &&& 0x1
  programPacketSequenceCounterFlag := (b0.toNat >>> 5) &&& 0x1
  pStdBufferFlag := (b0.toNat >>> 4) &&& 0x1
  pesExtensionFlag2 := b0.toNat &&& 0x1

def readPrivateData : Field (Region 16) :=
  sized 16 fun buf => (Region.zeros 16).memcpy 0 buf 16

-- the first byte of the memory, behind the bits that the mask takes away
def lengthByte (mask : Nat) (buf : Block) : Nat :=
  ((read8 buf 0).getD 0).toNat &&& mask

-- the pack header is not looked at
def readPackHeader : Field UInt8 :=
  field (read8 · 0) (fun buf => 1 + lengthByte 0xFF buf) 0

-- head_len stays where it is
def readSequenceCounter : Field ProgramPacketSequenceCounter :=
  field (fun buf => do
    let b0 ← read8 buf 0
    let b1 ← read8 buf 1
    return ⟨b0.toNat &&& 0x7F, (b1.toNat >>> 6) &&& 0x1, b1.toNat &&& 0x3F⟩) (fun _ => 2) 2

def readPStdBuffer : Field PStdBuffer :=
  sized 2 fun buf => do
    let b0 ← read8 buf 0
    let b1 ← read8 buf 1
    return ⟨(b0.toNat >>> 5) &&& 0x1, ((b0.toNat &&& 0x1F) <<< 8) ||| b1.toNat⟩

def readExtensionField : Field Nat :=
  field (fun buf => do
    let b0 ← read8 buf 0
    return b0.toNat &&& 0x7F) (fun buf => 1 + lengthByte 0x7F buf) 0

-- the sub-fields of an extension with these flags
def readSubFields (flags : PesExtension) : Field PesExtension := do
  let privateData ← optionally (flags.pesPrivateDataFlag ≠ 0) readPrivateData
  let packHeadLength ← optionally (flags.packHeaderFieldFlag ≠ 0) readPackHeader
  let ppsc ← optionally (flags.programPacketSequenceCounterFlag ≠ 0) readSequenceCounter
  let pStdBuffer ← optionally (flags.pStdBufferFlag ≠ 0) readPStdBuffer
  let fieldLength ← optionally (flags.pesExtensionFlag2 ≠ 0) readExtensionField
  return { flags with
    pesPrivateData := privateData
    packHeadLength := packHeadLength
    ppsc := ppsc
    pStdBuffer := pStdBuffer
    pesExtensionFieldLength := fieldLength }

def readExtension : Field PesExtension := do
  let b0 ← sized 1 (read8 · 0)
  readSubFields (extensionFlags b0)

-- what precedes the extension
def readFixed (flags : PesFlags) : Field NonPs := do
  let pts ← optionally (flags.ptsDtsFlags &&& 0x2 = 0x2) (readPtsDts 0x2)
  let dts ← optionally (flags.ptsDtsFlags &&& 0x1 = 0x1) (readPtsDts 0x3)
  let escr ← optionally (flags.escrFlag ≠ 0) readEscr
  let rate ← optionally (flags.esRateFlag ≠ 0) readEsRate
  let trickMode ← optionally (flags.dsmTrickModeFlag ≠ 0) readTrickMode
  let copyInfo ← optionally (flags.additionalCopyInfoFlag ≠ 0) readCopyInfo
  let previousCrc ← optionally (flags.pesCrcFlag ≠ 0) readPreviousCrc
  return ⟨flags, pts, dts, escr, rate, trickMode, copyInfo, previousCrc, none⟩

def readNonPs (flags : PesFlags) : Field NonPs := do
  let fixed ← readFixed flags
  let extension ← optionally (flags.pesExtensionFlag ≠ 0) readExtension
  return { fixed with extension := extension }

end Header

section Packet

-- the streams whose packets are nothing but data, and the padding stream
def plainStreams : List UInt8 :=
  [0xBC, 0xBF, 0xF0, 0xF1, 0xFF, 0xF2, 0xF8]

def paddingStream : UInt8 := 0xBE

/-- What is kept of a PID. The union is its header fields until the pointer is stored over them;
`none` is NULL. -/
structure PesStream where
  pid : Nat
  packetStartCodePrefix : Nat := 0
  streamId : UInt8 := 0
  pesPacketLength : Int := 0
  packetData : Option NonPs := none
  pesPacketDataByte : Option Int := none
  cb : Bool := false

structure PesTable where
  pidNum : Nat
  pidBitmap : Nat → Bool
  pidIndex : Nat → Nat
  list : List PesStream

/-- The PID is registered, and a callback is set for it. -/
structure PesTable.Registered (pes : PesTable) (pid : Nat) (pt : PesStream) : Prop where
  bitmap : pes.pidBitmap pid = true
  index : pes.pidIndex pid < pes.pidNum
  entry : pes.list[pes.pidIndex pid]? = some pt
  cb : pt.cb = true

/-- A call of the callback: where the data starts in the packet, and its length. -/
structure PesCall where
  pid : Nat
  data : Int
  length : Int

-- the fields behind PES_packet_length, for a stream that has an optional header
def parseOptionalHeader (pt : PesStream) (pkt : Block) : Option PesStream := do
  let flags ← readFlags pkt
  let (packetData, place) ← readNonPs flags pkt ⟨9, 9⟩
  let stuffing : Int := 9 + flags.pesHeaderDataLength - place.headLen
  let headLen : Int := place.headLen + stuffing
  return { pt with
    packetData := some packetData
    pesPacketDataByte := some (place.buf + stuffing)
    pesPacketLength := (pt.pesPacketLength - (headLen - 6)) % 65536 }

def parseContent (pt : PesStream) (pkt : Block) : Option PesStream :=
  if pt.streamId ∈ plainStreams then some { pt with pesPacketDataByte := some 6 }
  else if pt.streamId = paddingStream then some { pt with pesPacketDataByte := none }
  else parseOptionalHeader pt pkt

def PesStream.call (pt : PesStream) (pid : Nat) : Option PesCall :=
  if pt.cb then pt.pesPacketDataByte.map fun data => ⟨pid, data, pt.pesPacketLength⟩ else none

-- pes_t, the call of its callback and the return value
def parsePes (pt : PesStream) (pid : Nat) (pkt : Block) : Option (PesStream × Option PesCall × Int) := do
  let b0 ← read8 pkt 0
  let b1 ← read8 pkt 1
  let b2 ← read8 pkt 2
  let pt := { pt with
    packetStartCodePrefix := (b0.toNat <<< 16) ||| (b1.toNat <<< 8) ||| b2.toNat }
  if pt.packetStartCodePrefix ≠ 0x000001 then return (pt, none, -1)
  else
    let streamId ← read8 pkt 3
    let length ← read16 pkt 4
    let pt ← parseContent { pt with streamId := streamId, pesPacketLength := length } pkt
    return (pt, pt.call pid, pt.pesPacketLength + 6)

-- len is not used
def parsePesPacket (pes : PesTable) (pid : Nat) (pkt : Block) :
    Option (PesTable × Option PesCall × Int) :=
  if pes.pidBitmap pid then
    if pes.pidIndex pid > pes.pidNum then some (pes, none, -1)
    else do
      let pt ← pes.list[pes.pidIndex pid]?
      let (parsed, call, ret) ← parsePes pt pid pkt
      return ({ pes with list := pes.list.set (pes.pidIndex pid) parsed }, call, ret)
  else some (pes, none, -1)

end Packet

end TsAnalyze.Pes
