import TsAnalyze.Demux.PsiPayload

set_option autoImplicit false

namespace TsAnalyze.Demux

open Memory Keyed

def Payload.pesCall (payload : Payload) : Call :=
  { payload.call with psiOrPes := .pes }

def preprocPes (p : SectionParser) (payload : Payload) : Option (SectionParser × Return) :=
  sectionPreproc p payload.pesCall

def pesPacketLength (bytes : List UInt8) : Nat :=
  (bytes.getD 4 0).toNat * 256 + (bytes.getD 5 0).toNat

/-- A PES packet whose length is given, cut into payloads the last of which completes it. -/
structure PesPacket where
  bytes : List UInt8
  bounded : 0 < pesPacketLength bytes
  framed : bytes.length = pesPacketLength bytes + 6
  first : Payload
  rest : List Payload
  starts : first.start = true
  header : 6 ≤ first.bytes.length
  continues : ∀ payload ∈ rest, payload.start = false
  ends : ∀ last ∈ rest.getLast?, last.bytes ≠ []
  cut : first.bytes ++ rest.flatMap Payload.bytes = bytes

def PesPacket.payloads (packet : PesPacket) : List Payload :=
  packet.first :: packet.rest

/-- Passed on once, with the last of its payloads; nothing comes of the payloads behind it. -/
def PesPacket.DeliveredOnce (packet : PesPacket) (p : SectionParser) (more : List Payload) : Prop :=
  ∃ q returns, run preprocPes p (packet.payloads ++ more) = some (q, returns) ∧
    returns.map Return.delivered =
      List.replicate packet.rest.length none ++ some (ofBytes packet.bytes) ::
        List.replicate more.length none

theorem preprocPes_start (p : SectionParser) (payload : Payload) (start : payload.start = true) :
    preprocPes p payload = startPes { p with cc := payload.continuityCounter } payload.pesCall := by
  simp [preprocPes, sectionPreproc, Payload.pesCall, Payload.call, start]

theorem preprocPes_continue (p : SectionParser) (payload : Payload)
    (start : payload.start = false) : preprocPes p payload = continuePes p payload.pesCall := by
  simp [preprocPes, sectionPreproc, Payload.pesCall, Payload.call, start]

theorem length_read (payload : Payload) (header : 6 ≤ payload.bytes.length) :
    read16 payload.pesCall.pkt 4 = some (pesPacketLength payload.bytes) := by
  have high := call_read8 payload 4 (by omega)
  have low := call_read8 payload 5 (by omega)
  rw [pesPacketLength, List.getD_eq_getElem _ _ (by omega), List.getD_eq_getElem _ _ (by omega)]
  exact read16_eq _ _ _ _ high low

theorem pesPacketLength_prefix (head tail : List UInt8) (header : 6 ≤ head.length) :
    pesPacketLength (head ++ tail) = pesPacketLength head := by
  rw [pesPacketLength, pesPacketLength, List.getD_append _ _ _ _ (by omega),
    List.getD_append _ _ _ _ (by omega)]

theorem pesPacketLength_lt (bytes : List UInt8) : pesPacketLength bytes < 65536 := by
  have high : (bytes.getD 4 0).toNat < 256 := UInt8.toNat_lt _
  have low : (bytes.getD 5 0).toNat < 256 := UInt8.toNat_lt _
  rw [pesPacketLength]
  omega

theorem pesPacketLength_masked (bytes : List UInt8) :
    pesPacketLength bytes &&& 0xFFFF = pesPacketLength bytes := by
  rw [show 0xFFFF = 2 ^ 16 - 1 from rfl, land_low_bits]
  exact Nat.mod_eq_of_lt (pesPacketLength_lt bytes)

/-- The parser holds the first bytes of a packet of `limit` bytes. -/
structure Collecting (p : SectionParser) (received : List UInt8) (limit : Nat) : Prop where
  totalLen : p.totalLen = received.length
  limitLen : p.limitLen = limit
  buffer : ∃ pbuf, p.buffer = some pbuf ∧ pbuf.cells.take received.length = ofBytes received

-- the parser once the first payload of a packet has been looked at
def SectionParser.opened (p : SectionParser) (payload : Payload) (limit : Nat) : SectionParser :=
  { p with
    cc := payload.continuityCounter
    totalLen := payload.bytes.length
    limitLen := limit }

section Start

variable (p : SectionParser) (payload : Payload) (start : payload.start = true)
variable (header : 6 ≤ payload.bytes.length)
variable (bounded : 0 < pesPacketLength payload.bytes)

include start header bounded

theorem preprocPes_whole (whole : pesPacketLength payload.bytes + 6 ≤ payload.bytes.length) :
    preprocPes p payload =
      some (p.opened payload (pesPacketLength payload.bytes + 6),
        ⟨toInt16 payload.bytes.length, some payload.pesCall.pkt⟩) := by
  have long : (pesPacketLength payload.bytes : Int) > 0 := by omega
  have nonzero : ¬(pesPacketLength payload.bytes : Int) + 6 = 0 := by omega
  have inside : (pesPacketLength payload.bytes : Int) + 6 ≤ payload.pesCall.len := by
    simp only [Payload.pesCall, Payload.call]
    omega
  rw [preprocPes_start p payload start, startPes, length_read payload header]
  simp only [Option.bind_eq_bind, Option.bind_some, pesPacketLength_masked, if_pos long, if_neg nonzero,
    if_pos inside]
  rfl

theorem preprocPes_partial (short : payload.bytes.length < pesPacketLength payload.bytes + 6) :
    ∃ q, preprocPes p payload = some (q, stillBuffering) ∧
      Collecting q payload.bytes (pesPacketLength payload.bytes + 6) := by
  have long : (pesPacketLength payload.bytes : Int) > 0 := by omega
  have nonzero : ¬(pesPacketLength payload.bytes : Int) + 6 = 0 := by omega
  have outside : ¬(pesPacketLength payload.bytes : Int) + 6 ≤ payload.pesCall.len := by
    simp only [Payload.pesCall, Payload.call]
    omega
  have bound := payload.short
  rcases secGetbuf_succeeds (p.opened payload (pesPacketLength payload.bytes + 6)) with
    ⟨q, pbuf, obtained, total, limit, -⟩
  rcases Region.memcpy_extends pbuf 0 payload.bytes.length payload.pesCall.pkt [] (by simp)
    (by unfold maxSectionBuf; omega) (call_readable payload) with ⟨filled, copied, cells⟩
  rw [Nat.zero_add, List.nil_append] at cells
  have taken : payload.pesCall.pkt.take payload.bytes.length = ofBytes payload.bytes :=
    call_taken payload
  refine ⟨{ q with buffer := some filled }, ?_, total, limit, filled, rfl, cells.trans taken⟩
  rw [preprocPes_start p payload start, startPes, length_read payload header]
  simp only [Option.bind_eq_bind, Option.bind_some, pesPacketLength_masked, if_pos long, if_neg nonzero,
    if_neg outside]
  have given : secGetbuf payload.pesCall.malloc
      { p with
        cc := payload.continuityCounter
        totalLen := (payload.pesCall.len : Int)
        limitLen := (pesPacketLength payload.bytes : Int) + 6 } = (q, some pbuf) := obtained
  simp only [given, total]
  have written : pbuf.memcpy 0 payload.pesCall.pkt payload.bytes.length = some filled := copied
  simp only [SectionParser.opened, written]
  rfl

end Start

section Continue

variable (p : SectionParser) (payload : Payload) (start : payload.start = false)
variable (limit : Nat) (positive : 0 < limit)

include start positive

-- the counter stays where it is after a delivery
theorem preprocPes_again (total : p.totalLen = limit) (limitLen : p.limitLen = limit)
    (small : limit < 65535) (q : SectionParser) (r : Return)
    (result : preprocPes p payload = some (q, r)) : r.delivered ≠ none := by
  have nonzero : ¬p.limitLen = 0 := by omega
  rcases secGetbuf_succeeds p with ⟨opened, pbuf, obtained, openedTotal, openedLimit, -⟩
  have given : secGetbuf payload.pesCall.malloc p = (opened, some pbuf) := obtained
  rw [preprocPes_continue p payload start, continuePes, if_neg nonzero] at result
  simp only [given] at result
  rcases Option.bind_eq_some_iff.mp result with ⟨filled, -, later⟩
  have full : opened.totalLen + payload.pesCall.len ≥ opened.limitLen := by
    rw [openedTotal, openedLimit, total, limitLen]
    omega
  rw [if_pos full, openedLimit, limitLen] at later
  rcases Prod.mk.inj (Option.some.inj later) with ⟨-, rfl⟩
  rw [delivered_whole limit _ positive small]
  exact Option.some_ne_none _

variable (received : List UInt8) (held : Collecting p received limit)

include held

theorem preprocPes_copies (room : received.length + payload.bytes.length ≤ maxSectionBuf) :
    ∃ q pbuf, preprocPes p payload =
        some (q, if limit ≤ (received ++ payload.bytes).length then
          ⟨toInt16 limit, some pbuf.cells⟩ else stillBuffering) ∧
      q.buffer = some pbuf ∧ Collecting q (received ++ payload.bytes) limit := by
  rcases held.buffer with ⟨pbuf, present, used⟩
  have nonzero : ¬p.limitLen = 0 := by
    rw [held.limitLen]
    omega
  have given : secGetbuf payload.pesCall.malloc p = (p, some pbuf) := by rw [secGetbuf, present]
  rcases Region.memcpy_extends pbuf received.length payload.bytes.length payload.pesCall.pkt
    (ofBytes received) used room (call_readable payload) with ⟨filled, copied, cells⟩
  have written : pbuf.memcpy p.totalLen payload.pesCall.pkt payload.pesCall.len = some filled := by
    rw [held.totalLen]
    exact copied
  have taken : payload.pesCall.pkt.take payload.bytes.length = ofBytes payload.bytes :=
    call_taken payload
  have total : p.totalLen + payload.pesCall.len = (received ++ payload.bytes).length := by
    rw [held.totalLen, List.length_append, Nat.cast_add]
    rfl
  refine ⟨{ p with buffer := some filled, totalLen := p.totalLen + payload.pesCall.len }, filled,
    ?_, rfl, total, held.limitLen, filled, rfl, ?_⟩
  · rw [preprocPes_continue p payload start, continuePes, if_neg nonzero]
    simp only [given, written, Option.bind_eq_bind, Option.bind_some, total, held.limitLen, ge_iff_le,
      Nat.cast_le, Option.pure_def]
    split <;> rfl
  · rw [List.length_append, cells, taken, ofBytes_append]

theorem preprocPes_overflows (full : maxSectionBuf < received.length + payload.bytes.length) :
    preprocPes p payload = none := by
  rcases held.buffer with ⟨pbuf, present, used⟩
  have nonzero : ¬p.limitLen = 0 := by
    rw [held.limitLen]
    omega
  have given : secGetbuf payload.pesCall.malloc p = (p, some pbuf) := by rw [secGetbuf, present]
  have size : payload.pesCall.len = payload.bytes.length := rfl
  have outside : pbuf.memcpy p.totalLen payload.pesCall.pkt payload.pesCall.len = none := by
    rw [Region.memcpy, dif_neg]
    rw [held.totalLen, size]
    omega
  rw [preprocPes_continue p payload start, continuePes, if_neg nonzero]
  simp only [given, outside]
  rfl

end Continue

theorem flatMap_pos (rest : List Payload) (nonempty : rest ≠ [])
    (ends : ∀ last ∈ rest.getLast?, last.bytes ≠ []) : 0 < (rest.flatMap Payload.bytes).length := by
  by_contra empty
  have nothing := List.flatMap_eq_nil_iff.mp (List.length_eq_zero_iff.mp (Nat.eq_zero_of_not_pos empty))
  exact ends _ (List.getLast?_eq_some_getLast nonempty) (nothing _ (List.getLast_mem nonempty))

section Rest

variable (p : SectionParser) (received : List UInt8) (rest : List Payload) (limit : Nat)
variable (continues : ∀ payload ∈ rest, payload.start = false)
variable (held : Collecting p received limit)
variable (missing : received.length < limit)
variable (whole : limit = (received ++ rest.flatMap Payload.bytes).length)

include continues held missing whole

theorem preprocPes_rest (nonempty : rest ≠ []) (ends : ∀ last ∈ rest.getLast?, last.bytes ≠ [])
    (room : limit ≤ maxSectionBuf) :
    ∃ q pbuf, run preprocPes p rest =
        some (q, List.replicate (rest.length - 1) stillBuffering ++
          [⟨toInt16 limit, some (Region.cells pbuf)⟩]) ∧
      q.buffer = some pbuf ∧ Collecting q (received ++ rest.flatMap Payload.bytes) limit := by
  induction rest generalizing p received with
  | nil => exact absurd rfl nonempty
  | cons payload more ih =>
    have continued := continues payload (by simp)
    have here : received.length + payload.bytes.length ≤ limit := by
      rw [whole, List.flatMap_cons, List.length_append, List.length_append]
      omega
    rcases preprocPes_copies p payload continued limit (by omega) received held
      (here.trans room) with ⟨q, pbuf, result, buffer, collects⟩
    cases more with
    | nil =>
      have done : limit ≤ (received ++ payload.bytes).length := by simpa using whole.le
      rw [if_pos done] at result
      refine ⟨q, pbuf, run_cons _ _ _ _ _ _ _ _ result rfl, buffer, ?_⟩
      simpa using collects
    | cons next later =>
      have short : (received ++ payload.bytes).length < limit := by
        have left := flatMap_pos (next :: later) (List.cons_ne_nil _ _) (by simpa using ends)
        have total : limit = (received ++ payload.bytes).length +
            ((next :: later).flatMap Payload.bytes).length := by
          rw [whole, List.flatMap_cons, ← List.append_assoc, List.length_append]
        omega
      rw [if_neg (Nat.not_le.mpr short)] at result
      rcases ih q (received ++ payload.bytes)
        (fun other member => continues other (List.mem_cons_of_mem _ member)) collects short
        (by rw [whole, List.flatMap_cons, List.append_assoc]) (List.cons_ne_nil _ _)
        (by simpa using ends) with ⟨final, filled, ran, held, all⟩
      refine ⟨final, filled, ?_, held, ?_⟩
      · rw [run_cons _ _ _ _ _ _ _ _ result ran]
        simp [List.replicate_succ]
      · rw [List.flatMap_cons, ← List.append_assoc]
        exact all

theorem preprocPes_rest_overflows (full : maxSectionBuf < limit) :
    run preprocPes p rest = none := by
  induction rest generalizing p received with
  | nil =>
    rw [List.flatMap_nil, List.append_nil] at whole
    omega
  | cons payload more ih =>
    have continued := continues payload (by simp)
    by_cases room : received.length + payload.bytes.length ≤ maxSectionBuf
    · rcases preprocPes_copies p payload continued limit (by omega) received held room with
        ⟨q, pbuf, result, -, collects⟩
      have later := ih q (received ++ payload.bytes)
        (fun other member => continues other (List.mem_cons_of_mem _ member)) collects
        (by rw [List.length_append]; omega)
        (by rw [whole, List.flatMap_cons, List.append_assoc])
      simp only [run, result, Option.bind_eq_bind, Option.bind_some, later, Option.bind_none]
    · have failed := preprocPes_overflows p payload continued limit (by omega) received held
        (by omega)
      rw [run, failed]
      rfl

end Rest

namespace PesPacket

variable (packet : PesPacket)

def limit : Nat :=
  pesPacketLength packet.bytes + 6

theorem first_length : pesPacketLength packet.first.bytes + 6 = packet.limit := by
  rw [limit, ← packet.cut, pesPacketLength_prefix _ _ packet.header]

theorem single_short (single : packet.rest = []) : packet.limit ≤ 255 := by
  have size : packet.bytes.length = packet.limit := packet.framed
  have cut := packet.cut
  rw [single, List.flatMap_nil, List.append_nil] at cut
  rw [← size, ← cut]
  exact packet.first.short

-- The packet is returned with its last payload, whatever is made of the returned length.
theorem returned (p : SectionParser) (room : packet.rest = [] ∨ packet.limit ≤ maxSectionBuf) :
    ∃ q memory, run preprocPes p packet.payloads =
        some (q, List.replicate packet.rest.length stillBuffering ++
          [⟨toInt16 packet.limit, some memory⟩]) ∧
      memory.take packet.limit = ofBytes packet.bytes ∧
      q.totalLen = packet.limit ∧ q.limitLen = packet.limit := by
  have size : packet.bytes.length = packet.limit := packet.framed
  have fromFirst := packet.first_length
  have bounded : 0 < pesPacketLength packet.first.bytes := by
    have := packet.bounded
    rw [limit] at fromFirst
    omega
  have cut := packet.cut
  cases rest : packet.rest with
  | nil =>
    rw [rest, List.flatMap_nil, List.append_nil] at cut
    have here : packet.first.bytes.length = packet.limit := by rw [cut, size]
    have result := preprocPes_whole p packet.first packet.starts packet.header bounded (by omega)
    rw [fromFirst, here] at result
    refine ⟨p.opened packet.first packet.limit, packet.first.pesCall.pkt, ?_, ?_, ?_, rfl⟩
    · rw [payloads, rest]
      exact run_cons _ _ _ _ _ _ _ _ result rfl
    · rw [← here, ← cut]
      exact call_taken packet.first
    · rw [SectionParser.opened, here]
  | cons next later =>
    have fits := room.resolve_left (by rw [rest]; exact List.cons_ne_nil _ _)
    have left := flatMap_pos packet.rest (by rw [rest]; exact List.cons_ne_nil _ _) packet.ends
    have total : packet.limit = (packet.first.bytes ++ packet.rest.flatMap Payload.bytes).length := by
      rw [cut, size]
    have short : packet.first.bytes.length < packet.limit := by
      rw [total, List.length_append]
      omega
    rcases preprocPes_partial p packet.first packet.starts packet.header bounded (by omega) with
      ⟨q, result, collects⟩
    rw [fromFirst] at collects
    rcases preprocPes_rest q packet.first.bytes packet.rest packet.limit packet.continues collects
      short total (by rw [rest]; exact List.cons_ne_nil _ _) packet.ends fits with
      ⟨final, pbuf, ran, buffer, all⟩
    rcases all.buffer with ⟨held, same, cells⟩
    rw [buffer] at same
    rcases Option.some.inj same with rfl
    rw [cut, size] at cells
    refine ⟨final, pbuf.cells, ?_, cells, ?_, all.limitLen⟩
    · rw [payloads, run_cons _ _ _ _ _ _ _ _ result ran, rest]
      simp [List.replicate_succ]
    · rw [all.totalLen, cut, size]

theorem overflows (p : SectionParser) (several : packet.rest ≠ [])
    (full : maxSectionBuf < packet.limit) : run preprocPes p packet.payloads = none := by
  have size : packet.bytes.length = packet.limit := packet.framed
  have fromFirst := packet.first_length
  have bounded : 0 < pesPacketLength packet.first.bytes := by
    have := packet.bounded
    rw [limit] at fromFirst
    omega
  have left := flatMap_pos packet.rest several packet.ends
  have total : packet.limit = (packet.first.bytes ++ packet.rest.flatMap Payload.bytes).length := by
    rw [packet.cut, size]
  have short : packet.first.bytes.length < packet.limit := by
    rw [total, List.length_append]
    omega
  rcases preprocPes_partial p packet.first packet.starts packet.header bounded (by omega) with
    ⟨q, result, collects⟩
  rw [fromFirst] at collects
  have failed := preprocPes_rest_overflows q packet.first.bytes packet.rest packet.limit
    packet.continues collects short total full
  rw [payloads, run, result, Option.bind_eq_bind, Option.bind_some]
  simp only [failed, Option.bind_eq_bind, Option.bind_none]

theorem deliveredOnce_parts (p : SectionParser) (more : List Payload)
    (once : packet.DeliveredOnce p more) :
    packet.limit ≤ maxSectionBuf ∧ ∃ q memory final late,
      run preprocPes q more = some (final, late) ∧
      q.totalLen = packet.limit ∧ q.limitLen = packet.limit ∧
      Return.delivered ⟨toInt16 packet.limit, some memory⟩ = some (ofBytes packet.bytes) ∧
      late.map Return.delivered = List.replicate more.length none := by
  rcases once with ⟨final, returns, ran, delivered⟩
  rcases run_append_inv _ _ _ _ _ _ ran with ⟨middle, early, late, first, second, rfl⟩
  have room : packet.rest = [] ∨ packet.limit ≤ maxSectionBuf := by
    by_contra neither
    rcases not_or.mp neither with ⟨several, full⟩
    rw [packet.overflows p several (Nat.not_le.mp full)] at first
    cases first
  have fits : packet.limit ≤ maxSectionBuf := by
    rcases room with single | fits
    · exact (packet.single_short single).trans (by decide)
    · exact fits
  rcases packet.returned p room with ⟨q, memory, result, -, total, limitLen⟩
  rcases Prod.mk.inj (Option.some.inj (result.symm.trans first)) with ⟨rfl, rfl⟩
  rw [List.map_append, List.map_append, List.map_replicate, List.append_assoc] at delivered
  rcases List.cons.inj (List.append_cancel_left delivered) with ⟨passed, nothing⟩
  exact ⟨fits, q, memory, final, late, second, total, limitLen, passed, nothing⟩

-- 65535 comes back as -1
theorem deliveredOnce_short (p : SectionParser) (more : List Payload)
    (once : packet.DeliveredOnce p more) : packet.limit < 65535 := by
  rcases packet.deliveredOnce_parts p more once with ⟨fits, q, memory, -, -, -, -, -, passed, -⟩
  by_contra large
  have last : packet.limit = 65535 := le_antisymm fits (Nat.not_lt.mp large)
  rw [last] at passed
  cases passed

theorem deliveredOnce_last (p : SectionParser) (more : List Payload)
    (continuing : ∀ payload ∈ more, payload.start = false)
    (once : packet.DeliveredOnce p more) : more = [] := by
  have small := packet.deliveredOnce_short p more once
  rcases packet.deliveredOnce_parts p more once with
    ⟨-, q, memory, final, late, ran, total, limitLen, -, nothing⟩
  cases more with
  | nil => rfl
  | cons payload others =>
    rcases run_cons_inv _ _ _ _ _ _ ran with ⟨next, r, later, again, -, rfl⟩
    have twice := preprocPes_again q payload (continuing payload (by simp)) packet.limit
      (Nat.succ_pos _) total limitLen small next r again
    exact absurd (List.cons.inj nothing).1 twice

theorem deliveredOnce_alone (p : SectionParser) (small : packet.limit < 65535) :
    packet.DeliveredOnce p [] := by
  rcases packet.returned p (Or.inr (Nat.le_of_lt small)) with ⟨q, memory, result, whole, -, -⟩
  refine ⟨q, _, (List.append_nil packet.payloads).symm ▸ result, ?_⟩
  rw [List.map_append, List.map_replicate, List.map_singleton,
    delivered_whole packet.limit memory (Nat.succ_pos _) small, whole]
  rfl

end PesPacket

/-- A PES packet is passed on once exactly when its length stays below 65529 and no payload of the
PID follows before the next start. -/
theorem pes_deliveredOnce (p : SectionParser) (packet : PesPacket) (more : List Payload)
    (continuing : ∀ payload ∈ more, payload.start = false) :
    packet.DeliveredOnce p more ↔ pesPacketLength packet.bytes ≤ 65528 ∧ more = [] := by
  have limit : packet.limit < 65535 ↔ pesPacketLength packet.bytes ≤ 65528 := by
    rw [PesPacket.limit]
    omega
  rw [← limit]
  constructor
  · intro once
    exact ⟨packet.deliveredOnce_short p more once,
      packet.deliveredOnce_last p more continuing once⟩
  · rintro ⟨small, rfl⟩
    exact packet.deliveredOnce_alone p small

-- one byte behind the header, in a payload of its own
def splitPes : PesPacket where
  bytes := [0, 0, 1, 0xBD, 0, 1, 0x80]
  bounded := by decide
  framed := rfl
  first := ⟨true, [0, 0, 1, 0xBD, 0, 1], 0, [], by decide⟩
  rest := [⟨false, [0x80], 0, [], by decide⟩]
  starts := rfl
  header := by decide
  continues := by simp
  ends := by simp
  cut := rfl

theorem pes_deliveredOnce_split : splitPes.DeliveredOnce {} [] :=
  (pes_deliveredOnce {} splitPes [] (by simp)).mpr ⟨by decide, rfl⟩

def strayPayload : Payload where
  start := false
  bytes := [0xFF]
  short := by decide

theorem pes_delivered_twice :
    ¬∀ (p : SectionParser) (packet : PesPacket) (more : List Payload),
      (∀ payload ∈ more, payload.start = false) → packet.DeliveredOnce p more := by
  intro claim
  have continuing : ∀ payload ∈ [strayPayload], payload.start = false := by simp [strayPayload]
  have once := claim {} splitPes [strayPayload] continuing
  exact absurd (splitPes.deliveredOnce_last {} [strayPayload] continuing once) (by simp)

end TsAnalyze.Demux
