import TsAnalyze.Input.Process

set_option autoImplicit false

namespace TsAnalyze.Input

open Memory Chunks

variable {F : Type}

section Record

variable (size : Nat) (positive : 0 < size)

-- the packets of a byte sequence, as ts_proc is called with them
def packetsOf (bytes : List UInt8) : List Block :=
  (chunks size bytes).map ofBytes

include positive

theorem packets_record (log : List Block) (bytes : List UInt8) (behind : Block) :
    packets record size log (ofBytes bytes ++ behind) bytes.length =
      some (log ++ packetsOf size bytes, ofBytes (remainder size bytes) ++ behind,
        (remainder size bytes).length) := by
  generalize bound : bytes.length = n
  induction n using Nat.strong_induction_on generalizing bytes log with
  | _ n ih =>
    by_cases enough : size ≤ n
    · have shorter : (bytes.drop size).length = n - size := by rw [List.length_drop, bound]
      have cut : size ≤ (ofBytes bytes).length := by rwa [ofBytes_length, bound]
      rw [packets_next record size positive log _ n enough, record, Option.bind_some,
        List.take_append_of_le_length cut, List.drop_append_of_le_length cut, ofBytes_drop,
        ih _ (by omega) _ _ shorter, packetsOf, packetsOf,
        chunks_step size bytes positive (by omega), remainder_step size bytes positive (by omega),
        ofBytes_take, List.map_cons, List.append_assoc, List.singleton_append]
    · rw [packets_short record size log _ n (by omega), packetsOf,
        chunks_short size bytes (by omega), remainder_short size bytes (by omega), bound,
        List.map_nil, List.append_nil]

end Record

/-- All of the stream so far is processed, but for a carried remainder. -/
structure Settled (size : Nat) (stream : List UInt8) (l : Locals (List Block)) : Prop where
  log : l.state = packetsOf size stream
  pktConLen : l.pktConLen = (remainder size stream).length
  pktCon : l.pktCon.cells.take l.pktConLen = ofBytes (remainder size stream)
  underflow : l.underflow = false

/-- The stream so far is processed, or in the carry buffer, or in the current block. -/
structure Holding (size : Nat) (stream : List UInt8) (l : Locals (List Block)) : Prop where
  underflow : l.underflow = false
  held : ∃ done carried block behind, stream = done ++ carried ++ block ∧
    l.state = packetsOf size done ∧ remainder size done = [] ∧
    l.ptr = ofBytes block ++ behind ∧ l.len = block.length ∧
    (carried = [] ∧ l.pktConLen = 0 ∨
      carried.length = size ∧ l.pktConLen = size ∧ l.pktCon.cells.take size = ofBytes carried)

section Carry

variable (size : Nat) (positive : 0 < size) (small : size ≤ tsFecPacketSize)
include positive

theorem keepRest_settled (stream rest : List UInt8) (behind : Block) (l : Locals (List Block))
    (log : l.state = packetsOf size stream) (left : remainder size stream = rest)
    (ptr : l.ptr = ofBytes rest ++ behind) (len : l.len = rest.length) (empty : l.pktConLen = 0)
    (safe : l.underflow = false) (fits : size ≤ tsFecPacketSize) :
    ∃ next, keepRest l = some next ∧ Settled size stream next := by
  by_cases nothing : rest = []
  · subst nothing
    refine ⟨l, by simp [keepRest, len], log, ?_, ?_, safe⟩
    · rw [left, empty]
      rfl
    · rw [left, empty]
      rfl
  · have short : rest.length < size := by
      rw [← left, remainder_length]
      exact Nat.mod_lt _ positive
    rcases Region.memcpy_extends l.pktCon 0 l.len l.ptr [] (by simp) (by omega)
      (by rw [ptr, len]; simp) with ⟨pktCon, copied, cells⟩
    have nonzero : l.len ≠ 0 := by
      rw [len]
      exact fun zero => nothing (List.eq_nil_of_length_eq_zero zero)
    refine ⟨{ l with pktCon := pktCon, pktConLen := l.len }, ?_, log, ?_, ?_, safe⟩
    · rw [keepRest, if_pos nonzero]
      exact congrArg (Option.map _) copied
    · rw [left]
      exact len
    · rw [Nat.zero_add] at cells
      change pktCon.cells.take l.len = ofBytes (remainder size stream)
      rw [cells, left, ptr, len, List.nil_append, List.take_left' (ofBytes_length rest)]

include small

/-- What a round of the loop does before it reads the next block. -/
theorem processBlock_settled (stream : List UInt8) (l : Locals (List Block))
    (holding : Holding size stream l) :
    ∃ next, processBlock record size l = some next ∧ Settled size stream next := by
  rcases holding.held with ⟨done, carried, block, behind, rfl, log, clean, ptr, len, carry⟩
  have first : ∃ middle, processCarried record size l = some middle ∧ middle.ptr = l.ptr ∧
      middle.len = l.len ∧ middle.pktConLen = 0 ∧ middle.underflow = false ∧
      middle.state = packetsOf size (done ++ carried) ∧ remainder size (done ++ carried) = [] := by
    rcases carry with ⟨rfl, empty⟩ | ⟨whole, full, cells⟩
    · have other : l.pktConLen ≠ size := by omega
      rw [List.append_nil]
      exact ⟨l, by rw [processCarried, if_neg other], rfl, rfl, empty, holding.underflow, log, clean⟩
    · rcases chunks_append size positive done carried with ⟨cut, left⟩
      have one := chunks_exact size carried [] positive whole
      have none := remainder_exact size carried [] positive whole
      rw [List.append_nil] at one none
      rw [chunks_short size [] positive] at one
      rw [remainder_short size [] positive] at none
      refine ⟨{ l with state := l.state ++ [l.pktCon.cells.take size], pktConLen := 0 },
        by rw [processCarried, if_pos full]; rfl, rfl, rfl, rfl, holding.underflow, ?_, ?_⟩
      · change l.state ++ [l.pktCon.cells.take size] = _
        rw [log, cells, packetsOf, packetsOf, cut, clean, List.nil_append, one, List.map_append]
        rfl
      · rw [left, clean, List.nil_append, none]
  rcases first with ⟨middle, result, samePtr, sameLen, empty, safe, middleLog, clean⟩
  rcases chunks_append size positive (done ++ carried) block with ⟨cut, left⟩
  rw [clean, List.nil_append] at cut left
  have looped := packets_record size positive middle.state block behind
  rcases keepRest_settled size positive (done ++ carried ++ block) (remainder size block) behind
    { middle with
        state := middle.state ++ packetsOf size block
        ptr := ofBytes (remainder size block) ++ behind
        len := (remainder size block).length }
    (by rw [middleLog, packetsOf, packetsOf, packetsOf, cut, List.map_append]) left rfl rfl empty
    safe small with ⟨next, kept, settled⟩
  refine ⟨next, ?_, settled⟩
  simp only [processBlock, result, samePtr, sameLen, ptr, len, looped, Option.bind_eq_bind,
    Option.bind_some]
  exact kept

/-- A block that holds what is missing of a packet continues the stream. -/
theorem receiveBlock_holding (stream block : List UInt8) (behind : Block)
    (l : Locals (List Block)) (settled : Settled size stream l)
    (inRange : block.length < 18446744073709551616)
    (enough : stream.length % size = 0 ∨ size - stream.length % size ≤ block.length) :
    ∃ next, receiveBlock size l (ofBytes block ++ behind) block.length = some next ∧
      Holding size (stream ++ block) next := by
  rcases chunks_split size positive stream with ⟨done, whole, same, clean⟩
  have length := remainder_length size stream
  have below := Nat.mod_lt stream.length positive
  have log : l.state = packetsOf size done := by rw [settled.log, packetsOf, packetsOf, same]
  by_cases aligned : stream.length % size = 0
  · have nothing : remainder size stream = [] :=
      List.eq_nil_of_length_eq_zero (length.trans aligned)
    have empty : l.pktConLen = 0 := by rw [settled.pktConLen, length, aligned]
    rw [nothing, List.append_nil] at whole
    refine ⟨{ l with ptr := ofBytes block ++ behind, len := block.length }, ?_, settled.underflow, done, [], block,
      behind, ?_, log, clean, rfl, rfl, Or.inl ⟨rfl, empty⟩⟩
    · simp [receiveBlock, empty]
    · rw [List.append_nil, whole]
  · have room : size - stream.length % size ≤ block.length := enough.resolve_left aligned
    have nonzero : l.pktConLen ≠ 0 := by
      rw [settled.pktConLen, length]
      exact aligned
    have missing : subSize size l.pktConLen = size - stream.length % size := by
      rw [settled.pktConLen, length]
      exact subSize_of_le _ _ (by omega) (by unfold tsFecPacketSize at small; omega)
    rcases Region.memcpy_extends l.pktCon l.pktConLen (size - stream.length % size)
      (ofBytes block ++ behind) _ settled.pktCon (by rw [settled.pktConLen, length]; omega)
      (by simp; omega) with ⟨pktCon, copied, cells⟩
    rw [List.take_append_of_le_length (by simpa using room), ofBytes_take, ← ofBytes_append,
      settled.pktConLen, length, show stream.length % size + (size - stream.length % size) = size by
        omega] at cells
    refine ⟨{ l with
        ptr := ofBytes (block.drop (size - stream.length % size)) ++ behind
        len := (block.drop (size - stream.length % size)).length
        pktCon := pktCon
        pktConLen := size }, ?_, settled.underflow, done,
      remainder size stream ++ block.take (size - stream.length % size),
      block.drop (size - stream.length % size), behind, ?_, log, clean, rfl, rfl, Or.inr ?_⟩
    · simp only [receiveBlock, if_pos nonzero, missing, copied, Option.map_some]
      rw [List.drop_append_of_le_length (by simpa using room), ofBytes_drop,
        subSize_of_le _ _ room inRange, List.length_drop, settled.pktConLen, length,
        settled.underflow, decide_eq_false (by omega), decide_eq_false (by omega)]
      rfl
    · rw [List.append_assoc, List.append_assoc, List.take_append_drop, ← List.append_assoc, ← whole]
    · refine ⟨?_, rfl, cells⟩
      rw [List.length_append, length, List.length_take]
      omega

omit small in
-- with nothing behind a block that is too short, the copy leaves the block
theorem receiveBlock_outside (stream block : List UInt8) (l : Locals (List Block))
    (settled : Settled size stream l)
    (short : ¬(stream.length % size = 0 ∨ size - stream.length % size ≤ block.length))
    (inRange : size < 18446744073709551616) : receiveBlock size l (ofBytes block) block.length = none := by
  have length := remainder_length size stream
  have below := Nat.mod_lt stream.length positive
  have nonzero : l.pktConLen ≠ 0 := by
    rw [settled.pktConLen, length]
    omega
  have missing : subSize size l.pktConLen = size - stream.length % size := by
    rw [settled.pktConLen, length]
    exact subSize_of_le _ _ (by omega) inRange
  have fault : l.pktCon.memcpy l.pktConLen (ofBytes block)
      (size - stream.length % size : Nat) = none := by
    rw [← Option.not_isSome_iff_eq_none, Region.memcpy_isSome]
    simp only [ofBytes_length]
    omega
  simp only [receiveBlock, if_pos nonzero, missing, fault, Option.map_none]

-- with more memory behind it, a block that is too short is accepted, and nothing is processed
theorem receiveBlock_readable (stream : List UInt8) (l : Locals (List Block)) (ptr : Block)
    (len : Nat) (settled : Settled size stream l) (readable : size ≤ ptr.length) :
    ∃ next, receiveBlock size l ptr len = some next ∧ next.state = l.state := by
  have length := remainder_length size stream
  have below := Nat.mod_lt stream.length positive
  by_cases empty : l.pktConLen = 0
  · exact ⟨{ l with ptr := ptr, len := len }, by simp [receiveBlock, empty], rfl⟩
  · have carried := settled.pktConLen
    have missing : subSize size l.pktConLen = size - l.pktConLen :=
      subSize_of_le _ _ (by omega) (by unfold tsFecPacketSize at small; omega)
    have fits : (l.pktCon.memcpy l.pktConLen ptr (size - l.pktConLen : Nat)).isSome := by
      rw [Region.memcpy_isSome]
      omega
    rcases Option.isSome_iff_exists.mp fits with ⟨pktCon, copied⟩
    simp only [receiveBlock, if_pos (show l.pktConLen ≠ 0 from empty), missing, copied]
    exact ⟨_, rfl, rfl⟩

end Carry

/-- The first block is recognised as packets of `size` bytes from `start` on. -/
structure Recognised (bytes : List UInt8) (behind : Block) (size start : Nat) : Prop where
  probed : ∃ typ, mpegtsProbe (ofBytes bytes ++ behind) bytes.length = some typ ∧
    tsPktlen typ = some size
  index : startIndex (ofBytes bytes ++ behind) size = some start

theorem recognised_bounds (bytes : List UInt8) (behind : Block) (size start : Nat)
    (recognised : Recognised bytes behind size start) :
    188 ≤ size ∧ size ≤ 204 ∧ 2040 ≤ bytes.length ∧ start < size := by
  rcases recognised.probed with ⟨typ, probed, known⟩
  have bounds := tsPktlen_bounds typ size known
  have enough := mpegtsProbe_enough _ _ typ size probed known
  rcases startIndex_below bytes behind size (by omega) (by omega) with ⟨index, found, below⟩
  rw [recognised.index, Option.some.injEq] at found
  omega

-- a sync byte at every second position suits the largest packet size
theorem recognised_even (bytes : List UInt8) (behind : Block) (enough : 2040 ≤ bytes.length)
    (even : ∀ i, i + 3 < bytes.length → headerAt bytes i = decide (i % 2 = 0)) :
    Recognised bytes behind tsFecPacketSize 0 where
  probed := ⟨2, mpegtsProbe_even bytes behind even bytes.length enough (le_refl _), rfl⟩
  index := startIndex_even bytes behind even tsFecPacketSize rfl (by decide)
    (by unfold tsFecPacketSize; omega)

theorem tsProcess_recognised (ops : IoOps F) (io next : F) (bytes : List UInt8) (behind : Block)
    (size start : Nat) (opened : ops.open_ = some io)
    (read : ops.read io = some (next, some (ofBytes bytes ++ behind, bytes.length)))
    (inRange : bytes.length < 18446744073709551616) (recognised : Recognised bytes behind size start) :
    ∃ l, Holding size (bytes.drop start) l ∧ ∀ rounds, tsProcess ops record rounds [] =
      processLoop record size ops rounds next l := by
  have bounds := recognised_bounds bytes behind size start recognised
  rcases recognised.probed with ⟨typ, probed, known⟩
  refine ⟨{ Locals.initial [] with
      ptr := ofBytes (bytes.drop start) ++ behind
      len := (bytes.drop start).length }, ⟨rfl, [], [], bytes.drop start, behind, rfl, ?_, ?_, rfl,
      rfl, Or.inl ⟨rfl, rfl⟩⟩, ?_⟩
  · rw [packetsOf, chunks_short size [] (by simp; omega)]
    rfl
  · exact remainder_short size [] (by simp; omega)
  · intro rounds
    simp only [tsProcess, opened, read, Option.getD_some, probed, known, recognised.index,
      Option.bind_eq_bind, Option.bind_some]
    rw [List.drop_append_of_le_length (by simp; omega), ofBytes_drop,
      subSize_of_le _ _ (by omega) inRange, List.length_drop, decide_eq_false (by omega)]
    rfl

end TsAnalyze.Input
