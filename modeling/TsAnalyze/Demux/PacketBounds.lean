import TsAnalyze.Demux.AdaptationField
import TsAnalyze.Input.PacketLoop
import TsAnalyze.Shared.Encoding
import TsAnalyze.Shared.Runs

set_option autoImplicit false

namespace TsAnalyze.Demux

open Memory Input Runs

-- total_len, as long as it says how much of the buffer is in use
def SectionParser.InBuffer (p : SectionParser) : Prop :=
  0 ≤ p.totalLen ∧ p.totalLen ≤ maxSectionBuf

section Reassembly

-- is there a buffer to copy to?
def Copies (p : SectionParser) (malloc : Bool) : Prop :=
  p.buffer.isSome = true ∨ malloc = true

theorem secGetbuf_totalLen (malloc : Bool) (p : SectionParser) :
    (secGetbuf malloc p).1.totalLen = p.totalLen := by
  cases present : p.buffer with
  | none => simp [secGetbuf, present]
  | some known => simp [secGetbuf, present]

theorem secGetbuf_copies (malloc : Bool) (p : SectionParser) :
    (secGetbuf malloc p).2.isSome = true ↔ Copies p malloc := by
  cases present : p.buffer with
  | none => cases malloc <;> simp [secGetbuf, present, Copies]
  | some known => simp [secGetbuf, present, Copies]

/-- A call that reads and copies inside its memory, with total_len inside the buffer. -/
def Safe (result : Option (SectionParser × Return)) : Prop :=
  ∃ found, result = some found ∧ found.1.InBuffer

theorem safe_some (found : SectionParser × Return) : Safe (some found) ↔ found.1.InBuffer := by
  simp [Safe]

theorem safe_none : ¬Safe none := by
  simp [Safe]

theorem safe_copy (pbuf : Region maxSectionBuf) (position count : Int) (source : Block)
    (finish : Region maxSectionBuf → Option (SectionParser × Return))
    (later : 0 ≤ position ∧ position + count ≤ maxSectionBuf → ∀ filled, Safe (finish filled)) :
    Safe ((pbuf.memcpy position source count).bind finish) ↔
      0 ≤ position ∧ 0 ≤ count ∧ position + count ≤ maxSectionBuf ∧ count ≤ source.length := by
  rw [← Region.memcpy_isSome pbuf position source count]
  cases copied : pbuf.memcpy position source count with
  | none => simp [safe_none]
  | some filled =>
    have fits := (Region.memcpy_isSome pbuf position source count).mp (by rw [copied]; rfl)
    simpa using later ⟨fits.1, fits.2.2.1⟩ filled

-- a copy to the place and of the length that the parser says
theorem safe_buffered (p : SectionParser) (malloc : Bool) (position count : SectionParser → Int)
    (source : Block) (unbuffered : SectionParser → Option (SectionParser × Return))
    (finish : SectionParser → Region maxSectionBuf → Option (SectionParser × Return))
    (aside : Safe (unbuffered (secGetbuf malloc p).1))
    (later : 0 ≤ position (secGetbuf malloc p).1 ∧
        position (secGetbuf malloc p).1 + count (secGetbuf malloc p).1 ≤ maxSectionBuf →
      ∀ filled, Safe (finish (secGetbuf malloc p).1 filled)) :
    Safe (match secGetbuf malloc p with
      | (q, none) => unbuffered q
      | (q, some pbuf) => (pbuf.memcpy (position q) source (count q)).bind (finish q)) ↔
    (Copies p malloc →
      0 ≤ position (secGetbuf malloc p).1 ∧ 0 ≤ count (secGetbuf malloc p).1 ∧
        position (secGetbuf malloc p).1 + count (secGetbuf malloc p).1 ≤ maxSectionBuf ∧
        count (secGetbuf malloc p).1 ≤ source.length) := by
  rw [← secGetbuf_copies]
  cases got : secGetbuf malloc p with
  | mk q buffer =>
    rw [got] at aside later
    cases buffer with
    | none => simpa using aside
    | some pbuf => simpa using safe_copy pbuf (position q) (count q) source (finish q) later

-- what section_preproc needs of the payload
def CallFits (p : SectionParser) (start : Bool) (role : PsiOrPes) (malloc : Bool)
    (payload : List UInt8) : Prop :=
  match start, role with
  | true, .psi => 4 + (payload.getD 0 0).toNat ≤ payload.length
  | true, .pes => 6 ≤ payload.length
  | false, .psi =>
      p.totalLen ≠ 0 → Copies p malloc → p.totalLen + payload.length ≤ maxSectionBuf
  | false, .pes =>
      p.limitLen ≠ 0 → Copies p malloc → p.totalLen + payload.length ≤ maxSectionBuf

variable (p : SectionParser) (c : Call) (payload : List UInt8) (data : c.pkt = ofBytes payload)
  (len : c.len = payload.length) (small : payload.length ≤ 255)
include data len small

theorem startPsi_safe :
    Safe (startPsi p c) ↔ 4 + (payload.getD 0 0).toNat ≤ payload.length := by
  constructor
  · intro safe
    rcases safe with ⟨q, found, -⟩
    rcases Option.bind_eq_some_iff.mp found with ⟨pointer, pointerRead, afterPointer⟩
    rcases Option.bind_eq_some_iff.mp afterPointer with ⟨header, headerRead, -⟩
    rw [data] at pointerRead headerRead
    have first := inside_of_read8 payload 0 pointer pointerRead
    rw [read8_getD payload 0 first] at pointerRead
    rw [← Option.some.inj pointerRead] at headerRead
    have last := inside_of_read16 payload _ header headerRead
    omega
  · intro fits
    have pointerRead := read8_getD payload 0 (by omega)
    cases read16_inside payload (2 + (payload.getD 0 0).toNat) (by omega) with
    | intro header headerRead =>
      generalize payload.getD 0 0 = pointer at fits pointerRead headerRead
      rw [← data] at pointerRead headerRead
      have inBuffer : ∀ q : SectionParser, q.totalLen = c.len - 1 - pointer.toNat →
          q.InBuffer := by
        intro q total
        rw [SectionParser.InBuffer, total, len, maxSectionBuf]
        omega
      have readable : (c.pkt.drop (1 + pointer.toNat)).length =
          payload.length - (1 + pointer.toNat) := by
        rw [List.length_drop, data, ofBytes_length]
      simp only [startPsi, pointerRead, headerRead, Option.bind_eq_bind, Option.bind_some,
        Option.pure_def]
      by_cases whole : ((header &&& 0x0FFF : Nat) : Int) + 3 ≤ c.len - 1 - pointer.toNat
      · rw [if_pos whole, safe_some]
        exact inBuffer _ rfl
      · rw [if_neg whole]
        refine (safe_buffered _ _ (fun _ => 0) (fun _ => c.len - 1 - pointer.toNat) _
          (fun q => some (q, stillBuffering))
          (fun q pbuf => some ({ q with buffer := some pbuf }, stillBuffering)) ?_ ?_).mpr ?_
        · rw [safe_some]
          exact inBuffer _ (secGetbuf_totalLen _ _)
        · intro _ filled
          rw [safe_some]
          exact inBuffer _ (secGetbuf_totalLen _ _)
        · intro _
          rw [readable, len, maxSectionBuf]
          omega

theorem startPes_safe : Safe (startPes p c) ↔ 6 ≤ payload.length := by
  constructor
  · intro safe
    rcases safe with ⟨q, found, -⟩
    rcases Option.bind_eq_some_iff.mp found with ⟨length, lengthRead, -⟩
    rw [data] at lengthRead
    have last := inside_of_read16 payload _ length lengthRead
    omega
  · intro fits
    cases read16_inside payload 4 (by omega) with
    | intro length lengthRead =>
      rw [← data] at lengthRead
      have inBuffer : ∀ q : SectionParser, q.totalLen = c.len → q.InBuffer := by
        intro q total
        rw [SectionParser.InBuffer, total, len, maxSectionBuf]
        omega
      simp only [startPes, lengthRead, Option.bind_eq_bind, Option.bind_some, Option.pure_def]
      generalize (if ((length &&& 0xFFFF : Nat) : Int) > 0 then
        ((length &&& 0xFFFF : Nat) : Int) + 6 else ((length &&& 0xFFFF : Nat) : Int)) = limit
      by_cases unlimited : limit = 0
      · rw [if_pos unlimited, safe_some]
        exact inBuffer _ rfl
      · rw [if_neg unlimited]
        by_cases whole : limit ≤ c.len
        · rw [if_pos whole, safe_some]
          exact inBuffer _ rfl
        · rw [if_neg whole]
          refine (safe_buffered _ _ (fun _ => 0) SectionParser.totalLen _
            (fun q => some (q, stillBuffering))
            (fun q pbuf => some ({ q with buffer := some pbuf }, stillBuffering)) ?_ ?_).mpr ?_
          · rw [safe_some]
            exact inBuffer _ (secGetbuf_totalLen _ _)
          · intro _ filled
            rw [safe_some]
            exact inBuffer _ (secGetbuf_totalLen _ _)
          · intro _
            rw [secGetbuf_totalLen, data, ofBytes_length]
            change 0 ≤ (0 : Int) ∧ 0 ≤ (c.len : Int) ∧ 0 + (c.len : Int) ≤ maxSectionBuf ∧
              (c.len : Int) ≤ payload.length
            rw [len, maxSectionBuf]
            omega

variable (held : p.InBuffer)
include held

theorem continued_safe (aside : Return)
    (finish : SectionParser → Region maxSectionBuf → Option (SectionParser × Return))
    (later : 0 ≤ p.totalLen ∧ p.totalLen + c.len ≤ maxSectionBuf →
      ∀ filled, Safe (finish (secGetbuf c.malloc p).1 filled)) :
    Safe (match secGetbuf c.malloc p with
      | (q, none) => some (q, aside)
      | (q, some pbuf) => (pbuf.memcpy q.totalLen c.pkt c.len).bind (finish q)) ↔
    (Copies p c.malloc → p.totalLen + payload.length ≤ maxSectionBuf) := by
  refine (safe_buffered p c.malloc SectionParser.totalLen (fun _ => c.len) c.pkt
    (fun q => some (q, aside)) finish ?_ ?_).trans ?_
  · rw [safe_some, SectionParser.InBuffer, secGetbuf_totalLen]
    exact held
  · rw [secGetbuf_totalLen]
    exact later
  · rw [secGetbuf_totalLen, data, ofBytes_length, len]
    have low := held.1
    exact imp_congr_right fun _ => by omega

theorem continuePsi_safe : Safe (continuePsi p c) ↔
    (p.totalLen ≠ 0 → Copies p c.malloc → p.totalLen + payload.length ≤ maxSectionBuf) := by
  rw [continuePsi]
  by_cases idle : p.totalLen = 0
  · rw [if_pos idle, safe_some]
    simp [idle, held]
  · rw [if_neg idle]
    refine (continued_safe p c payload data len small held stillBuffering _ ?_).trans ?_
    · intro room filled
      dsimp only
      split
      · refine (safe_some _).mpr ?_
        exact ⟨Int.le_refl 0, Int.natCast_nonneg _⟩
      · refine (safe_some _).mpr ?_
        rw [SectionParser.InBuffer, secGetbuf_totalLen]
        exact ⟨Int.add_nonneg room.1 (Int.natCast_nonneg _), room.2⟩
    · simp only [idle, not_false_eq_true, ne_eq, forall_const]

theorem continuePes_safe : Safe (continuePes p c) ↔
    (p.limitLen ≠ 0 → Copies p c.malloc → p.totalLen + payload.length ≤ maxSectionBuf) := by
  rw [continuePes]
  by_cases idle : p.limitLen = 0
  · rw [if_pos idle, safe_some]
    simp [idle, held]
  · rw [if_neg idle]
    refine (continued_safe p c payload data len small held ⟨0, none⟩ _ ?_).trans ?_
    · intro room filled
      dsimp only
      split
      all_goals
        refine (safe_some _).mpr ?_
        rw [SectionParser.InBuffer, secGetbuf_totalLen]
        exact ⟨Int.add_nonneg room.1 (Int.natCast_nonneg _), room.2⟩
    · simp only [idle, not_false_eq_true, ne_eq, forall_const]

/-- Exactly the calls that stay inside the payload and the buffer. -/
theorem sectionPreproc_safe : Safe (sectionPreproc p c) ↔
    CallFits p c.payloadUnitStartIndicator c.psiOrPes c.malloc payload := by
  rw [sectionPreproc]
  cases start : c.payloadUnitStartIndicator with
  | true =>
    cases role : c.psiOrPes with
    | psi => simpa [CallFits] using startPsi_safe _ c payload data len small
    | pes => simpa [CallFits] using startPes_safe _ c payload data len small
  | false =>
    cases role : c.psiOrPes with
    | psi => simpa [CallFits] using continuePsi_safe p c payload data len small held
    | pes => simpa [CallFits] using continuePes_safe p c payload data len small held

end Reassembly

section Adaptation

variable (bytes : List UInt8)

theorem optionalBytes_inside (present : Bool) (ptr : Nat) (inside : ptr < bytes.length) :
    optionalBytes present (ofBytes bytes) ptr =
      some (ptr + if present then 1 + (bytes.getD ptr 0).toNat else 0) := by
  cases present with
  | false => simp [optionalBytes]
  | true =>
    rw [optionalBytes, if_pos rfl, read8_getD bytes ptr inside]
    simp [Nat.add_assoc]

theorem optionalBytes_isSome (present : Bool) (ptr : Nat) :
    (optionalBytes present (ofBytes bytes) ptr).isSome ↔
      (present = true → ptr < bytes.length) := by
  cases present with
  | false => simp [optionalBytes]
  | true =>
    rw [optionalBytes, if_pos rfl, Option.isSome_map, read8_ofBytes]
    simp

theorem splice_eq (present : Bool) (ptr : Nat) :
    (if present then ptr + 1 else ptr) = ptr + if present then 1 else 0 := by
  cases present <;> rfl

-- where the adaptation field that starts at byte 4 has its length of the private data
def privateDataAt (flags : UInt8) : Nat :=
  6 + (if readBit flags 4 then 6 else 0) + (if readBit flags 3 then 6 else 0) +
    (if readBit flags 2 then 1 else 0)

-- and its length of the extension
def extensionAt : Nat :=
  let flags := bytes.getD 5 0
  privateDataAt flags +
    if readBit flags 1 then 1 + (bytes.getD (privateDataAt flags) 0).toNat else 0

/-- Only the length of the extension can stand behind the packet. -/
theorem tsAdaptationFieldProc_isSome (long : 20 ≤ bytes.length) (len : UInt8) :
    (tsAdaptationFieldProc (ofBytes bytes) 5 len).isSome ↔
      (readBit (bytes.getD 5 0) 0 = true → extensionAt bytes < bytes.length) := by
  have flagsRead := read8_getD bytes 5 (by omega)
  rw [extensionAt, privateDataAt]
  generalize bytes.getD 5 0 = flags at flagsRead
  obtain ⟨pcr, pcrRead, -⟩ := optionalPcr_inside (readBit flags 4) bytes 6
    (by split <;> omega)
  obtain ⟨opcr, opcrRead, -⟩ := optionalPcr_inside (readBit flags 3) bytes
    (6 + if readBit flags 4 then 6 else 0) (by split <;> split <;> omega)
  have privateRead := optionalBytes_inside bytes (readBit flags 1)
    (6 + (if readBit flags 4 then 6 else 0) + (if readBit flags 3 then 6 else 0) +
      if readBit flags 2 then 1 else 0)
    (by split <;> split <;> split <;> omega)
  rw [← optionalBytes_isSome]
  simp only [tsAdaptationFieldProc, flagsRead, pcrRead, opcrRead, Option.bind_eq_bind,
    Option.bind_some]
  rw [splice_eq, privateRead]
  simp [Option.isSome_bind, Option.any_true]

end Adaptation

/-- A packet of one of the three sizes that starts with the sync byte. -/
structure SyncedPacket where
  bytes : List UInt8
  sized : bytes.length = tsPacketSize ∨ bytes.length = tsDvhsPacketSize ∨
    bytes.length = tsFecPacketSize
  synced : bytes.getD 0 0 = tsSyncByte

namespace SyncedPacket

variable (packet : SyncedPacket)

def byte (offset : Nat) : UInt8 :=
  packet.bytes.getD offset 0

def adaptationFieldControl : Nat :=
  ((packet.byte 3).toNat >>> 4) &&& 0x3

def Adapted : Prop :=
  packet.adaptationFieldControl = 2 ∨ packet.adaptationFieldControl = 3

instance : Decidable packet.Adapted :=
  inferInstanceAs (Decidable (_ ∨ _))

def payloadAt : Nat :=
  if packet.Adapted then 5 + (packet.byte 4).toNat else 4

def payload : List UInt8 :=
  packet.bytes.drop packet.payloadAt

def head (pcr : Option UInt64) : TsHeader where
  transportErrorIndicator := readBit (packet.byte 1) 7
  payloadUnitStartIndicator := readBit (packet.byte 1) 6
  pid := Fin.ofNat 8192 (((packet.byte 1).toNat * 256 + (packet.byte 2).toNat) &&& 0x1FFF)
  adaptationFieldControl := packet.adaptationFieldControl
  continuityCounter := packet.byte 3 &&& 0x3
  pcr := pcr
  payload := packet.payloadAt

theorem size_bounds : 188 ≤ packet.bytes.length ∧ packet.bytes.length ≤ 204 := by
  have sizes := packet.sized
  simp only [tsPacketSize, tsDvhsPacketSize, tsFecPacketSize] at sizes
  omega

theorem read_byte (offset : Nat) (near : offset < 188) :
    read8 (ofBytes packet.bytes) offset = some (packet.byte offset) :=
  read8_getD packet.bytes offset (by have := packet.size_bounds; omega)

theorem readHeader_eq : readHeader (ofBytes packet.bytes) =
    if packet.Adapted then
      (tsAdaptationFieldProc (ofBytes packet.bytes) 5 (packet.byte 4)).map fun found =>
        some (packet.head (found.1.map calcPcrClock))
    else some (some (packet.head none)) := by
  have word := read16_eq _ 1 _ _ (packet.read_byte 1 (by decide)) (packet.read_byte 2 (by decide))
  simp only [readHeader, packet.read_byte 0 (by decide), packet.read_byte 1 (by decide),
    packet.read_byte 3 (by decide), packet.read_byte 4 (by decide), word, Option.bind_eq_bind,
    Option.bind_some]
  rw [if_neg (not_not_intro (show packet.byte 0 = tsSyncByte from packet.synced))]
  by_cases adapted : packet.Adapted
  · have place : packet.payloadAt = 5 + (packet.byte 4).toNat := if_pos adapted
    refine (if_pos adapted).trans ?_
    rw [if_pos adapted, Option.map_eq_bind]
    simp only [head, place]
    rfl
  · have place : packet.payloadAt = 4 := if_neg adapted
    refine (if_neg adapted).trans ?_
    rw [if_neg adapted]
    simp only [head, place]
    rfl

-- no byte of the adaptation field that is looked at stands behind the packet
def AdaptationInside : Prop :=
  packet.Adapted → readBit (packet.byte 5) 0 = true →
    extensionAt packet.bytes < packet.bytes.length

theorem readHeader_inside : (∃ head, readHeader (ofBytes packet.bytes) = some (some head)) ↔
    packet.AdaptationInside := by
  rw [readHeader_eq, AdaptationInside]
  by_cases adapted : packet.Adapted
  · have long : 20 ≤ packet.bytes.length := by
      have := packet.size_bounds
      omega
    have reads := tsAdaptationFieldProc_isSome packet.bytes long (packet.byte 4)
    rw [if_pos adapted, imp_iff_right adapted]
    refine Iff.trans ?_ reads
    cases tsAdaptationFieldProc (ofBytes packet.bytes) 5 (packet.byte 4) with
    | none => simp
    | some found => simp
  · rw [if_neg adapted]
    simp [adapted]

theorem readHeader_head (head : TsHeader)
    (found : readHeader (ofBytes packet.bytes) = some (some head)) :
    ∃ pcr, head = packet.head pcr := by
  rw [readHeader_eq] at found
  by_cases adapted : packet.Adapted
  · rw [if_pos adapted] at found
    rcases Option.map_eq_some_iff.mp found with ⟨field, -, same⟩
    exact ⟨_, (Option.some.inj same).symm⟩
  · rw [if_neg adapted] at found
    exact ⟨none, (Option.some.inj (Option.some.inj found)).symm⟩

end SyncedPacket

variable {σ : Type}

def TotalsInBuffer (state : Ts σ) : Prop :=
  ∀ pid, (state.sec pid).InBuffer

def receivePacket (env : Environment σ) (state : Ts σ) (packet : SyncedPacket) : Option (Ts σ) :=
  procStep env state (ofBytes packet.bytes) packet.bytes.length

/-- All that ts_proc and section_preproc read and copy for one packet lies inside it. -/
def PacketSafe (env : Environment σ) (state : Ts σ) (packet : SyncedPacket) : Prop :=
  ∃ head, readHeader (ofBytes packet.bytes) = some (some head) ∧
    head.payload ≤ packet.bytes.length ∧
    (¬Stops env state.environment head →
      Safe (sectionPreproc (state.sec head.pid)
        (packetCall env { state with packets := state.packets + 1 } (ofBytes packet.bytes)
          (UInt8.ofNat packet.bytes.length) head)))

/-- The condition on the bytes of one packet and on the parser of its PID. -/
structure PacketInside (env : Environment σ) (state : Ts σ) (packet : SyncedPacket) : Prop where
  adaptation : packet.AdaptationInside
  remaining : packet.payloadAt ≤ packet.bytes.length
  payload : ¬Stops env state.environment (packet.head none) →
    CallFits (state.sec (packet.head none).pid) (packet.head none).payloadUnitStartIndicator
      (psiOrPes env state.environment (packet.head none).pid) (env.malloc (state.packets + 1))
      packet.payload

theorem packet_call_safe (env : Environment σ) (state : Ts σ) (packet : SyncedPacket)
    (held : TotalsInBuffer state) (remaining : packet.payloadAt ≤ packet.bytes.length)
    (pcr : Option UInt64) :
    Safe (sectionPreproc (state.sec (packet.head pcr).pid)
        (packetCall env { state with packets := state.packets + 1 } (ofBytes packet.bytes)
          (UInt8.ofNat packet.bytes.length) (packet.head pcr))) ↔
      CallFits (state.sec (packet.head none).pid) (packet.head none).payloadUnitStartIndicator
        (psiOrPes env state.environment (packet.head none).pid) (env.malloc (state.packets + 1))
        packet.payload := by
  have size := packet.size_bounds
  have left : packet.payload.length = packet.bytes.length - packet.payloadAt :=
    List.length_drop
  refine sectionPreproc_safe _ _ packet.payload ?_ ?_ (by omega) (held _)
  · exact ofBytes_drop packet.bytes packet.payloadAt
  · change (UInt8.ofNat packet.bytes.length - UInt8.ofNat packet.payloadAt).toNat = _
    rw [left, UInt8.toNat_sub, UInt8.toNat_ofNat', UInt8.toNat_ofNat']
    omega

theorem packetSafe_iff (env : Environment σ) (state : Ts σ) (packet : SyncedPacket)
    (held : TotalsInBuffer state) :
    PacketSafe env state packet ↔ PacketInside env state packet := by
  constructor
  · intro safe
    rcases safe with ⟨head, found, remaining, called⟩
    rcases packet.readHeader_head head found with ⟨pcr, rfl⟩
    have call := packet_call_safe env state packet held remaining pcr
    have adaptation := packet.readHeader_inside.mp ⟨_, found⟩
    exact ⟨adaptation, remaining, fun reached => call.mp (called reached)⟩
  · intro inside
    rcases packet.readHeader_inside.mpr inside.adaptation with ⟨head, found⟩
    rcases packet.readHeader_head head found with ⟨pcr, rfl⟩
    have call := packet_call_safe env state packet held inside.remaining pcr
    exact ⟨_, found, inside.remaining, fun reached => call.mpr (inside.payload reached)⟩

theorem receivePacket_kept (env : Environment σ) (state : Ts σ) (packet : SyncedPacket)
    (after : Ts σ) (held : TotalsInBuffer state) (safe : PacketSafe env state packet)
    (taken : receivePacket env state packet = some after) : TotalsInBuffer after := by
  rcases safe with ⟨head, found, -, called⟩
  rcases procStep_cases env state after _ _ taken with
    ⟨same, -, -⟩ | ⟨other, p, r, again, reached, parsed, sec, -⟩
  · rw [TotalsInBuffer, same]
    exact held
  · rw [found] at again
    cases again
    rcases called reached with ⟨result, returned, inBuffer⟩
    rw [parsed] at returned
    cases returned
    intro pid
    rw [sec]
    by_cases same : pid = head.pid
    · rw [same, Function.update_self]
      exact inBuffer
    · rw [Function.update_of_ne same]
      exact held pid

/-- Exactly the streams that ts_proc stays in bounds on. -/
theorem inBounds_iff (env : Environment σ) (environment : σ) (packets : List SyncedPacket) :
    (EachTry (receivePacket env) (PacketSafe env) { environment := environment } packets ∧
        Always (receivePacket env) TotalsInBuffer { environment := environment } packets) ↔
      EachTry (receivePacket env) (PacketInside env) { environment := environment } packets := by
  have start : TotalsInBuffer { environment := environment } :=
    fun _ => ⟨Int.le_refl 0, Int.natCast_nonneg _⟩
  have same := eachTry_iff (receivePacket_kept env) (packetSafe_iff env) _ packets start
  constructor
  · intro bounds
    exact same.mp bounds.1
  · intro inside
    have safe := same.mpr inside
    exact ⟨safe, Always.of_eachTry (receivePacket_kept env) _ packets start safe⟩

-- a demultiplexer with no table and no stream registered
def idle : Environment Unit where
  checkPmtPid := fun _ _ => false
  checkSectionPid := fun _ _ => false
  checkEsPid := fun _ _ => false
  filterProc := fun environment _ _ _ => some environment
  malloc := fun _ => true

theorem overlongPointer_sized :
    (([0x47, 0x40, 0x00, 0x10, 0xFF] : List UInt8) ++ List.replicate 183 0).length = 188 := by
  rw [List.length_append, List.length_replicate]
  rfl

-- a PAT packet whose pointer_field is 255
def overlongPointer : SyncedPacket :=
  ⟨[0x47, 0x40, 0x00, 0x10, 0xFF] ++ List.replicate 183 0, Or.inl overlongPointer_sized, rfl⟩

theorem overlongPointer_outside :
    ¬(EachTry (receivePacket idle) (PacketSafe idle) { environment := () } [overlongPointer] ∧
      Always (receivePacket idle) TotalsInBuffer { environment := () } [overlongPointer]) := by
  rintro ⟨safe, -⟩
  have inside := (packetSafe_iff idle _ overlongPointer
    fun _ => ⟨Int.le_refl 0, Int.natCast_nonneg _⟩).mp safe.1
  have fits := inside.payload (by decide)
  change 4 + 255 ≤ overlongPointer.payload.length at fits
  rw [SyncedPacket.payload, List.length_drop] at fits
  have size := overlongPointer.size_bounds
  omega

end TsAnalyze.Demux
