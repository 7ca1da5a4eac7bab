import TsAnalyze.Demux.SectionPreproc

set_option autoImplicit false

namespace TsAnalyze.Demux

open Memory

def sectionLength (bytes : List UInt8) : Nat :=
  ((bytes.getD 1 0).toNat * 256 + (bytes.getD 2 0).toNat) % 4096

-- the bytes from table_id to the end that section_length announces
def sectionSize (bytes : List UInt8) : Nat :=
  sectionLength bytes + 3

theorem sectionSize_bounds (bytes : List UInt8) :
    3 ≤ sectionSize bytes ∧ sectionSize bytes ≤ 4098 := by
  unfold sectionSize sectionLength
  omega

theorem sectionSize_prefix (head rest : List UInt8) (header : 3 ≤ head.length) :
    sectionSize (head ++ rest) = sectionSize head := by
  match head, header with
  | a :: b :: c :: more, _ => rfl

structure PsiSection where
  bytes : List UInt8
  framed : bytes.length = sectionSize bytes

/-- One payload of a PSI PID as ts_proc hands it to section_preproc. -/
structure Payload where
  start : Bool
  bytes : List UInt8
  continuityCounter : UInt8 := 0
  -- what follows the payload in memory
  behind : Block := []
  -- the `len` of ts_proc is a `uint8_t`
  short : bytes.length ≤ 255

def Payload.call (payload : Payload) : Call where
  pkt := ofBytes payload.bytes ++ payload.behind
  len := payload.bytes.length
  payloadUnitStartIndicator := payload.start
  continuityCounter := payload.continuityCounter

def preproc (p : SectionParser) (payload : Payload) : Option (SectionParser × Return) :=
  sectionPreproc p payload.call

-- the returned length with the bytes it covers
def Return.observe (r : Return) : Int × Option Block :=
  (r.secLen, r.buffering.map (List.take r.secLen.toNat))

@[simp] theorem stillBuffering_observe : stillBuffering.observe = (-1, none) := rfl

theorem observe_whole (limit : Nat) (memory : Block) (small : limit < 32768) :
    Return.observe ⟨toInt16 limit, some memory⟩ = ((limit : Int), some (memory.take limit)) := by
  rw [toInt16_of_small _ (by omega) (by omega)]
  rfl

theorem call_readable (payload : Payload) : payload.call.len ≤ payload.call.pkt.length := by
  simp [Payload.call]

theorem call_taken (payload : Payload) :
    payload.call.pkt.take payload.call.len = ofBytes payload.bytes := by
  simp [Payload.call]

theorem call_read8 (payload : Payload) (offset : Nat) (inside : offset < payload.bytes.length) :
    read8 payload.call.pkt offset = some payload.bytes[offset] := by
  rw [Payload.call, read8_append_left _ _ _ (by simpa using inside), read8_ofBytes,
    List.getElem?_eq_getElem inside]

theorem preproc_start (p : SectionParser) (payload : Payload) (start : payload.start = true) :
    preproc p payload = startPsi { p with cc := payload.continuityCounter } payload.call := by
  simp [preproc, sectionPreproc, Payload.call, start]

theorem preproc_continue (p : SectionParser) (payload : Payload) (start : payload.start = false) :
    preproc p payload = continuePsi p payload.call := by
  simp [preproc, sectionPreproc, Payload.call, start]

def Payload.pointerField (payload : Payload) : Nat :=
  (payload.bytes.getD 0 0).toNat

-- the bytes from the first section that begins in the payload on
def Payload.first (payload : Payload) : List UInt8 :=
  payload.bytes.drop (1 + payload.pointerField)

theorem call_pointerField (payload : Payload) (nonempty : 0 < payload.bytes.length) :
    ∃ field, read8 payload.call.pkt 0 = some field ∧ field.toNat = payload.pointerField := by
  refine ⟨payload.bytes[0], call_read8 payload 0 nonempty, ?_⟩
  rw [Payload.pointerField, List.getD_eq_getElem _ _ nonempty]

-- the length that section_preproc computes from the two bytes behind the table_id
def Payload.limit (payload : Payload) : Option Nat :=
  (read16 payload.call.pkt (2 + payload.pointerField)).map headerLimit

theorem limit_bounds (payload : Payload) (limit : Nat) (known : payload.limit = some limit) :
    3 ≤ limit ∧ limit ≤ 4098 := by
  obtain ⟨fields, -, rfl⟩ := Option.map_eq_some_iff.mp known
  exact headerLimit_bounds fields

theorem limit_of_header (payload : Payload) (header : 3 ≤ payload.first.length) :
    payload.limit = some (sectionSize payload.first) := by
  simp only [Payload.first, List.length_drop] at header
  have second : 2 + payload.pointerField = 1 + payload.pointerField + 1 := by omega
  rw [Payload.limit, read16_eq _ _ _ _ (call_read8 payload _ (by omega)) (call_read8 payload _ (by omega)),
    Option.map_some, headerLimit_eq, sectionSize, sectionLength, Payload.first,
    List.getD_eq_getElem _ _ (by simp; omega), List.getD_eq_getElem _ _ (by simp; omega)]
  simp only [List.getElem_drop, second]

section Start

variable (p : SectionParser) (payload : Payload) (start : payload.start = true)
  (inRange : 1 + payload.pointerField ≤ payload.bytes.length)
  (limit : Nat) (known : payload.limit = some limit)
include start inRange known

theorem preproc_first_whole (whole : limit ≤ payload.first.length) :
    ∃ q r, preproc p payload = some (q, r) ∧
      r.observe = ((limit : Int), some (ofBytes (payload.first.take limit))) ∧
      q.totalLen = payload.first.length ∧ q.limitLen = limit := by
  have size : payload.first.length = payload.bytes.length - (1 + payload.pointerField) :=
    List.length_drop
  obtain ⟨field, pointer, fieldValue⟩ := call_pointerField payload (by omega)
  have bounds := limit_bounds payload limit known
  obtain ⟨fields, read, rfl⟩ := Option.map_eq_some_iff.mp known
  rw [← fieldValue] at read
  have result := startPsi_whole { p with cc := payload.continuityCounter } payload.call field fields
    pointer read (by simp only [Payload.call]; omega)
  refine ⟨_, _, (preproc_start p payload start).trans result, ?_, ?_, rfl⟩
  · rw [observe_whole _ _ (by omega)]
    congr 2
    rw [Payload.call, List.drop_append_of_le_length (by simp; omega), ofBytes_drop, fieldValue,
      ← Payload.first, List.take_append_of_le_length (by simpa using whole), ofBytes_take]
  · simp only [Payload.call]
    omega

theorem preproc_first_partial (long : payload.first.length < limit) :
    ∃ q, preproc p payload = some (q, stillBuffering) ∧ q.limitLen = limit ∧
      q.totalLen = payload.first.length ∧
      (payload.first ≠ [] → Buffering q (ofBytes payload.first)) := by
  have size : payload.first.length = payload.bytes.length - (1 + payload.pointerField) :=
    List.length_drop
  obtain ⟨field, pointer, fieldValue⟩ := call_pointerField payload (by omega)
  have bounds := limit_bounds payload limit known
  obtain ⟨fields, read, rfl⟩ := Option.map_eq_some_iff.mp known
  rw [← fieldValue] at read
  obtain ⟨q, result, total, limitLen, pbuf, buffer, cells⟩ :=
    startPsi_partial { p with cc := payload.continuityCounter } payload.call field fields
      pointer read rfl (by simp only [Payload.call]; omega) (call_readable payload)
      (by simp only [Payload.call]; omega)
  have length : payload.call.len - 1 - field.toNat = payload.first.length := by
    simp only [Payload.call]
    omega
  have totalLen : q.totalLen = payload.first.length := by
    simp only [Payload.call] at total
    omega
  rw [call_taken, fieldValue, ofBytes_drop, ← Payload.first, ← fieldValue, length] at cells
  refine ⟨q, (preproc_start p payload start).trans result, limitLen, totalLen, fun nonempty => ?_⟩
  refine ⟨by simpa using totalLen, ?_, by omega, by omega, pbuf, buffer, by rwa [ofBytes_length]⟩
  intro empty
  have := congrArg List.length empty
  rw [ofBytes_length, List.length_nil] at this
  exact nonempty (List.eq_nil_of_length_eq_zero this)

end Start

section Continue

variable (p : SectionParser) (payload : Payload) (start : payload.start = false)
include start

theorem preproc_idle (idle : p.totalLen = 0) : preproc p payload = some (p, stillBuffering) :=
  (preproc_continue p payload start).trans (continuePsi_idle p payload.call idle)

variable (received : List UInt8) (held : Buffering p (ofBytes received))
include held

theorem preproc_more (short : ((received ++ payload.bytes).length : Int) < p.limitLen) :
    ∃ q, preproc p payload = some (q, stillBuffering) ∧ q.limitLen = p.limitLen ∧
      Buffering q (ofBytes (received ++ payload.bytes)) := by
  obtain ⟨q, result, limit, holds⟩ := continuePsi_more p payload.call (ofBytes received) held rfl
    (call_readable payload) (by have := payload.short; simp only [Payload.call]; omega)
    (by rw [call_taken, ← ofBytes_append, ofBytes_length]; exact short)
  rw [call_taken, ← ofBytes_append] at holds
  exact ⟨q, (preproc_continue p payload start).trans result, limit, holds⟩

theorem preproc_done (limit : Nat) (limitLen : p.limitLen = limit)
    (done : limit ≤ (received ++ payload.bytes).length) :
    ∃ q r, preproc p payload = some (q, r) ∧ q.totalLen = 0 ∧
      r.observe = ((limit : Int), some (ofBytes ((received ++ payload.bytes).take limit))) := by
  obtain ⟨q, memory, result, total, cells⟩ :=
    continuePsi_done p payload.call (ofBytes received) held rfl
      (call_readable payload) (by have := payload.short; simp only [Payload.call]; omega)
      (by rw [call_taken, ← ofBytes_append, ofBytes_length]; omega)
  rw [call_taken, ← ofBytes_append, ofBytes_length] at cells
  have bound := held.limit
  refine ⟨q, _, (preproc_continue p payload start).trans result, total, ?_⟩
  rw [limitLen, observe_whole _ _ (by omega), ← ofBytes_take, ← cells, List.take_take,
    Nat.min_eq_left done]

end Continue

end TsAnalyze.Demux
