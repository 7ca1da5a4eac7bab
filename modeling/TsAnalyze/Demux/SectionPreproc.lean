import TsAnalyze.Shared.Memory
import TsAnalyze.Shared.Keyed

set_option autoImplicit false

namespace TsAnalyze.Demux

open Memory

def maxSectionBuf : Nat := 65535

abbrev Pid := Fin 8192

instance pid_nonempty : NeZero 8192 := ⟨by decide⟩

structure SectionParser where
  totalLen : Int := 0
  limitLen : Int := 0
  cc : UInt8 := 0
  buffer : Option (Region maxSectionBuf) := none
  cap : Nat := 0

inductive PsiOrPes where
  | psi
  | pes
deriving DecidableEq, Repr

/-- The arguments of one `section_preproc` call, and whether a `malloc` made by it succeeds. -/
structure Call where
  -- the memory that can be read from the payload pointer on; the payload is its first `len` bytes
  pkt : Block
  len : Nat
  payloadUnitStartIndicator : Bool
  continuityCounter : UInt8 := 0
  psiOrPes : PsiOrPes := .psi
  malloc : Bool := true

/-- The returned length and the memory `*buffering` points at, `none` for NULL. -/
structure Return where
  secLen : Int
  buffering : Option Block
deriving DecidableEq

def stillBuffering : Return := ⟨-1, none⟩

-- conversion of an `int` to the `int16_t` that section_preproc returns
def toInt16 (value : Int) : Int :=
  Int.bmod value 65536

theorem toInt16_of_small (value : Int) (low : -32768 ≤ value) (high : value < 32768) :
    toInt16 value = value := by
  unfold toInt16
  rw [Int.bmod_def]
  omega

def secGetbuf (malloc : Bool) (p : SectionParser) :
    SectionParser × Option (Region maxSectionBuf) :=
  match p.buffer with
  | some pbuf => (p, some pbuf)
  | none =>
      let buffer := if malloc then some (Region.fresh maxSectionBuf) else none
      ({ p with cap := maxSectionBuf, buffer := buffer }, buffer)

def startPsi (p : SectionParser) (c : Call) : Option (SectionParser × Return) := do
  let pointerField ← read8 c.pkt 0
  let header ← read16 c.pkt (2 + pointerField.toNat)
  let totalLen : Int := c.len - 1 - pointerField.toNat
  let limitLen : Int := (header &&& 0x0FFF : Nat) + 3
  let p := { p with totalLen := totalLen, limitLen := limitLen }
  let first := c.pkt.drop (1 + pointerField.toNat)
  if limitLen ≤ totalLen then
    return (p, ⟨toInt16 limitLen, some first⟩)
  else
    match secGetbuf c.malloc p with
    | (p, none) => return (p, stillBuffering)
    | (p, some pbuf) =>
        let pbuf ← pbuf.memcpy 0 first totalLen
        return ({ p with buffer := some pbuf }, stillBuffering)

def startPes (p : SectionParser) (c : Call) : Option (SectionParser × Return) := do
  let packetLength ← read16 c.pkt 4
  let limitLen : Int := (packetLength &&& 0xFFFF : Nat)
  let limitLen := if limitLen > 0 then limitLen + 6 else limitLen
  let p := { p with totalLen := c.len, limitLen := limitLen }
  if limitLen = 0 then
    return (p, ⟨0, none⟩)
  else if limitLen ≤ p.totalLen then
    return (p, ⟨toInt16 p.totalLen, some c.pkt⟩)
  else
    match secGetbuf c.malloc p with
    | (p, none) => return (p, stillBuffering)
    | (p, some pbuf) =>
        let pbuf ← pbuf.memcpy 0 c.pkt p.totalLen
        return ({ p with buffer := some pbuf }, stillBuffering)

def continuePsi (p : SectionParser) (c : Call) : Option (SectionParser × Return) :=
  if p.totalLen = 0 then
    some (p, stillBuffering)
  else
    match secGetbuf c.malloc p with
    | (p, none) => some (p, stillBuffering)
    | (p, some pbuf) => do
        let pbuf ← pbuf.memcpy p.totalLen c.pkt c.len
        let p := { p with buffer := some pbuf, totalLen := p.totalLen + c.len }
        if p.totalLen ≥ p.limitLen then
          return ({ p with totalLen := 0 }, ⟨toInt16 p.limitLen, some pbuf.cells⟩)
        else
          return (p, stillBuffering)

def continuePes (p : SectionParser) (c : Call) : Option (SectionParser × Return) :=
  if p.limitLen = 0 then
    some (p, ⟨0, none⟩)
  else
    match secGetbuf c.malloc p with
    | (p, none) => some (p, ⟨0, none⟩)
    | (p, some pbuf) => do
        let pbuf ← pbuf.memcpy p.totalLen c.pkt c.len
        let p := { p with buffer := some pbuf, totalLen := p.totalLen + c.len }
        if p.totalLen ≥ p.limitLen then
          return (p, ⟨toInt16 p.limitLen, some pbuf.cells⟩)
        else
          return (p, stillBuffering)

def sectionPreproc (p : SectionParser) (c : Call) : Option (SectionParser × Return) :=
  if c.payloadUnitStartIndicator then
    let p := { p with cc := c.continuityCounter }
    match c.psiOrPes with
    | .psi => startPsi p c
    | .pes => startPes p c
  else
    match c.psiOrPes with
    | .psi => continuePsi p c
    | .pes => continuePes p c

-- conversion of an `int16_t` to the `uint16_t` that filter_proc takes
def toUint16 (value : Int) : Nat :=
  (value % 65536).toNat

-- what ts_proc's test on the returned length passes on to filter_proc
def Return.delivered (r : Return) : Option Block :=
  if r.secLen = -1 ∨ r.secLen = 0 then none
  else r.buffering.map (List.take (toUint16 r.secLen))

@[simp] theorem stillBuffering_delivered : stillBuffering.delivered = none := rfl

theorem toUint16_of_small (value : Nat) (small : value < 65536) : toUint16 value = value := by
  rw [toUint16]
  omega

-- a length from 2^15 on is negative in between
theorem delivered_whole (limit : Nat) (memory : Block) (positive : 0 < limit)
    (small : limit < 65535) :
    Return.delivered ⟨toInt16 limit, some memory⟩ = some (memory.take limit) := by
  have proper : ¬(toInt16 limit = -1 ∨ toInt16 limit = 0) := by
    rw [toInt16, Int.bmod_def]
    omega
  have back : toUint16 (toInt16 limit) = limit := by
    rw [toUint16, toInt16, Int.bmod_def]
    omega
  rw [Return.delivered, if_neg proper, back]
  rfl

def headerLimit (header : Nat) : Nat :=
  (header &&& 0x0FFF) + 3

theorem headerLimit_eq (header : Nat) : headerLimit header = header % 4096 + 3 := by
  exact congrArg (· + 3) (land_low_bits header 12)

theorem headerLimit_bounds (header : Nat) :
    3 ≤ headerLimit header ∧ headerLimit header ≤ 4098 := by
  rw [headerLimit_eq]
  omega

theorem secGetbuf_succeeds (p : SectionParser) :
    ∃ q pbuf, secGetbuf true p = (q, some pbuf) ∧ q.totalLen = p.totalLen ∧
      q.limitLen = p.limitLen ∧ ∀ known, p.buffer = some known → pbuf = known := by
  cases present : p.buffer with
  | none =>
    simp [secGetbuf, present]
  | some known =>
    simp [secGetbuf, present]

/-- The parser holds `received`, the first bytes of a section whose end is still missing. -/
structure Buffering (p : SectionParser) (received : Block) : Prop where
  totalLen : p.totalLen = received.length
  started : received ≠ []
  short : p.totalLen < p.limitLen
  limit : p.limitLen ≤ 4098
  buffer : ∃ pbuf, p.buffer = some pbuf ∧ pbuf.cells.take received.length = received

section Start

variable (p : SectionParser) (c : Call) (pointerField : UInt8) (header : Nat)
  (field : read8 c.pkt 0 = some pointerField)
  (fields : read16 c.pkt (2 + pointerField.toNat) = some header)
include field fields

theorem startPsi_whole (whole : (headerLimit header : Int) ≤ c.len - 1 - pointerField.toNat) :
    startPsi p c = some
      ({ p with
          totalLen := c.len - 1 - pointerField.toNat
          limitLen := headerLimit header },
        ⟨toInt16 (headerLimit header), some (c.pkt.drop (1 + pointerField.toNat))⟩) := by
  have inside : ((header &&& 0x0FFF : Nat) : Int) + 3 ≤ c.len - 1 - pointerField.toNat := by
    simpa [headerLimit] using whole
  simp only [startPsi, field, fields, Option.bind_eq_bind, Option.bind_some, inside, if_true,
    Option.pure_def, headerLimit]
  rfl

theorem startPsi_partial (malloc : c.malloc = true) (inRange : 1 + pointerField.toNat ≤ c.len)
    (readable : c.len ≤ c.pkt.length)
    (short : (c.len : Int) - 1 - pointerField.toNat < headerLimit header) :
    ∃ q, startPsi p c = some (q, stillBuffering) ∧
      q.totalLen = c.len - 1 - pointerField.toNat ∧ q.limitLen = headerLimit header ∧
      ∃ pbuf, q.buffer = some pbuf ∧
        pbuf.cells.take (c.len - 1 - pointerField.toNat) =
          (c.pkt.take c.len).drop (1 + pointerField.toNat) := by
  have outside : ¬((header &&& 0x0FFF : Nat) : Int) + 3 ≤ c.len - 1 - pointerField.toNat := by
    simpa [headerLimit] using short
  obtain ⟨q, pbuf, obtained, total, limit, -⟩ := secGetbuf_succeeds
    { p with totalLen := (c.len : Int) - 1 - pointerField.toNat,
             limitLen := ((header &&& 0x0FFF : Nat) : Int) + 3 }
  have bounds := headerLimit_bounds header
  have size : (c.len : Int) - 1 - pointerField.toNat = (c.len - 1 - pointerField.toNat : Nat) := by
    omega
  obtain ⟨filled, copied, cells⟩ := Region.memcpy_extends pbuf 0 (c.len - 1 - pointerField.toNat)
    (c.pkt.drop (1 + pointerField.toNat)) [] (by simp)
    (by unfold maxSectionBuf; omega) (by simp only [List.length_drop]; omega)
  refine ⟨{ q with buffer := some filled }, ?_, total, by simpa [headerLimit] using limit,
    filled, rfl, ?_⟩
  · simp only [startPsi, field, fields, Option.bind_eq_bind, Option.bind_some, outside, if_false,
      malloc, obtained]
    rw [size, show ((0 : Int)) = ((0 : Nat) : Int) from rfl, copied]
    rfl
  · rw [Nat.zero_add] at cells
    rw [cells, List.nil_append, List.drop_take]
    congr 1
    omega

end Start

section Continue

variable (p : SectionParser) (c : Call)

theorem continuePsi_idle (idle : p.totalLen = 0) :
    continuePsi p c = some (p, stillBuffering) := by
  simp [continuePsi, idle]

variable (received : Block) (held : Buffering p received) (malloc : c.malloc = true)
  (readable : c.len ≤ c.pkt.length) (fits : c.len ≤ 61437)
include held malloc readable fits

theorem continuePsi_copies :
    ∃ q pbuf, continuePsi p c = (if q.totalLen ≥ q.limitLen then
        some ({ q with totalLen := 0 }, ⟨toInt16 q.limitLen, some pbuf.cells⟩)
      else some (q, stillBuffering)) ∧
      q.buffer = some pbuf ∧ q.totalLen = (received ++ c.pkt.take c.len).length ∧
      q.limitLen = p.limitLen ∧
      pbuf.cells.take (received ++ c.pkt.take c.len).length = received ++ c.pkt.take c.len := by
  obtain ⟨known, present, used⟩ := held.buffer
  obtain ⟨q, pbuf, obtained, total, limit, same⟩ := secGetbuf_succeeds p
  obtain rfl := same known present
  have nonzero : p.totalLen ≠ 0 := by
    have := List.length_pos_iff.mpr held.started
    have := held.totalLen
    omega
  have short := held.short
  have bound := held.limit
  have length := held.totalLen
  obtain ⟨filled, copied, cells⟩ := Region.memcpy_extends pbuf received.length c.len c.pkt received
    used (by unfold maxSectionBuf; omega) readable
  refine ⟨{ q with buffer := some filled, totalLen := q.totalLen + c.len }, filled, ?_, rfl, ?_,
    limit, ?_⟩
  · rw [continuePsi, if_neg nonzero, malloc, obtained]
    simp only [total, length, copied, Option.bind_eq_bind, Option.bind_some, Option.pure_def]
  · simp only [total, length, List.length_append, List.length_take, Nat.min_eq_left readable]
    omega
  · rw [List.length_append, List.length_take, Nat.min_eq_left readable, cells]

theorem continuePsi_more (short : ((received ++ c.pkt.take c.len).length : Int) < p.limitLen) :
    ∃ q, continuePsi p c = some (q, stillBuffering) ∧ q.limitLen = p.limitLen ∧
      Buffering q (received ++ c.pkt.take c.len) := by
  obtain ⟨q, pbuf, result, buffer, total, limit, cells⟩ :=
    continuePsi_copies p c received held malloc readable fits
  have unfinished : ¬q.totalLen ≥ q.limitLen := by omega
  rw [if_neg unfinished] at result
  refine ⟨q, result, limit, total, ?_, by omega, ?_, pbuf, buffer, cells⟩
  · simp [held.started]
  · have := held.limit
    omega

theorem continuePsi_done (done : p.limitLen ≤ ((received ++ c.pkt.take c.len).length : Int)) :
    ∃ q memory, continuePsi p c = some (q, ⟨toInt16 p.limitLen, some memory⟩) ∧ q.totalLen = 0 ∧
      memory.take (received ++ c.pkt.take c.len).length = received ++ c.pkt.take c.len := by
  obtain ⟨q, pbuf, result, buffer, total, limit, cells⟩ :=
    continuePsi_copies p c received held malloc readable fits
  have finished : q.totalLen ≥ q.limitLen := by omega
  rw [if_pos finished, show toInt16 q.limitLen = toInt16 p.limitLen by rw [limit]] at result
  exact ⟨{ q with totalLen := 0 }, pbuf.cells, result, rfl, cells⟩

end Continue

end TsAnalyze.Demux
