import TsAnalyze.Input.Carry

set_option autoImplicit false

namespace TsAnalyze.Input

open Memory Chunks

-- A socket with the datagrams still to come. Only the bytes of the current datagram may be read:
-- what the static buffer holds behind them is left over from earlier ones.
def udpOps (datagrams : List (List UInt8)) : IoOps (List (List UInt8)) where
  open_ := some datagrams
  read
    | [] => none
    | datagram :: rest => some (rest, some (ofBytes datagram, datagram.length))
  end_ _ := 1

/-- ts_process on live input, until it waits for more than has been sent. -/
def udpProcess (datagrams : List (List UInt8)) : Option (Ending × Locals (List Block)) :=
  tsProcess (udpOps datagrams) record datagrams.length []

structure Cutting (stream : List UInt8) where
  datagrams : List (List UInt8)
  whole : datagrams.flatten = stream
  sizes : ∀ datagram ∈ datagrams, datagram ≠ [] ∧ datagram.length ≤ 2048

structure Accepted (datagrams : List (List UInt8)) (size start : Nat) : Prop where
  first : ∃ datagram rest, datagrams = datagram :: rest ∧ Recognised datagram [] size start

/-- Both runs stay inside their buffers, never subtract below zero and see the same packets. -/
structure SameRun (first second : List (List UInt8)) : Prop where
  ran : ∃ left right, udpProcess first = some (.waiting, left) ∧
    udpProcess second = some (.waiting, right) ∧ left.state = right.state ∧
    left.underflow = false ∧ right.underflow = false

-- behind `seen` bytes, every datagram holds what a carried packet still misses
def CompletesFrom (size : Nat) : Nat → List (List UInt8) → Prop
  | _, [] => True
  | seen, datagram :: rest =>
      (seen % size = 0 ∨ size - seen % size ≤ datagram.length) ∧
        CompletesFrom size (seen + datagram.length) rest

def Completes (size start : Nat) : List (List UInt8) → Prop
  | [] => True
  | first :: rest => CompletesFrom size (first.length - start) rest

section Loop

variable (size : Nat) (positive : 0 < size) (small : size ≤ tsFecPacketSize)
  (datagrams : List (List UInt8))
include positive small

theorem udp_loop (rest : List (List UInt8)) (stream : List UInt8) (l : Locals (List Block))
    (holding : Holding size stream l) (sizes : ∀ datagram ∈ rest, datagram.length ≤ 2048) :
    (CompletesFrom size stream.length rest →
      ∃ final, processLoop record size (udpOps datagrams) (rest.length + 1) rest l =
        some (.waiting, final) ∧ Settled size (stream ++ rest.flatten) final) ∧
    (¬CompletesFrom size stream.length rest →
      processLoop record size (udpOps datagrams) (rest.length + 1) rest l = none) := by
  induction rest generalizing stream l with
  | nil =>
    rcases processBlock_settled size positive small stream l holding with ⟨next, result, settled⟩
    constructor
    · intro _
      refine ⟨next, ?_, by simpa using settled⟩
      simp [processLoop, afterRead, result, udpOps]
    · intro short
      exact absurd trivial short
  | cons datagram rest ih =>
    rcases processBlock_settled size positive small stream l holding with ⟨next, result, settled⟩
    have bound : datagram.length ≤ 2048 := sizes datagram (List.mem_cons_self ..)
    have step : processLoop record size (udpOps datagrams) ((datagram :: rest).length + 1)
        (datagram :: rest) l =
        (receiveBlock size next (ofBytes datagram) datagram.length).bind fun l =>
          processLoop record size (udpOps datagrams) (rest.length + 1) rest l := by
      rw [List.length_cons, processLoop, result, Option.bind_some]
      rfl
    by_cases enough : stream.length % size = 0 ∨ size - stream.length % size ≤ datagram.length
    · rcases receiveBlock_holding size positive small stream datagram [] next settled (by omega)
        enough with ⟨received, got, held⟩
      rw [List.append_nil] at got
      rcases ih (stream ++ datagram) received held
        (fun other found => sizes other (List.mem_cons_of_mem _ found)) with ⟨completes, fails⟩
      rw [List.length_append] at completes fails
      rw [step, got, Option.bind_some]
      constructor
      · intro later
        rcases completes later.2 with ⟨final, ended, all⟩
        refine ⟨final, ended, ?_⟩
        rwa [List.flatten_cons, ← List.append_assoc]
      · intro short
        exact fails fun later => short ⟨enough, later⟩
    · constructor
      · intro later
        exact absurd later.1 enough
      · intro _
        rw [step, receiveBlock_outside size positive stream datagram next settled enough
          (by unfold tsFecPacketSize at small; omega)]
        rfl

end Loop

/-- A run over datagrams gets through exactly when each of them completes the carried packet. -/
theorem udpProcess_outcome (datagrams : List (List UInt8)) (size start : Nat)
    (accepted : Accepted datagrams size start)
    (sizes : ∀ datagram ∈ datagrams, datagram.length ≤ 2048) :
    (Completes size start datagrams → ∃ final, udpProcess datagrams = some (.waiting, final) ∧
      Settled size (datagrams.flatten.drop start) final) ∧
    (¬Completes size start datagrams → udpProcess datagrams = none) := by
  rcases accepted.first with ⟨first, rest, rfl, recognised⟩
  have bounds := recognised_bounds first [] size start recognised
  have bound := sizes first (List.mem_cons_self ..)
  rcases tsProcess_recognised (udpOps (first :: rest)) (first :: rest) rest first [] size start rfl
    (by simp [udpOps]) (by omega) recognised with ⟨l, holding, started⟩
  have loop := udp_loop size (by omega) (by unfold tsFecPacketSize; omega) (first :: rest) rest
    (first.drop start) l holding (fun other found => sizes other (List.mem_cons_of_mem _ found))
  rw [List.length_drop, ← List.length_cons (a := first), ← started] at loop
  rw [List.flatten_cons, List.drop_append_of_le_length (by omega)]
  exact loop

theorem udpProcess_chunking (stream : List UInt8) (first second : Cutting stream)
    (size start : Nat) (left : Accepted first.datagrams size start)
    (right : Accepted second.datagrams size start) :
    SameRun first.datagrams second.datagrams ↔
      Completes size start first.datagrams ∧ Completes size start second.datagrams := by
  rcases udpProcess_outcome first.datagrams size start left (fun d found => (first.sizes d found).2)
    with ⟨leftDone, leftFault⟩
  rcases udpProcess_outcome second.datagrams size start right
    (fun d found => (second.sizes d found).2) with ⟨rightDone, rightFault⟩
  constructor
  · rintro ⟨finalLeft, finalRight, ranLeft, ranRight, -⟩
    constructor
    · by_contra short
      rw [leftFault short] at ranLeft
      cases ranLeft
    · by_contra short
      rw [rightFault short] at ranRight
      cases ranRight
  · rintro ⟨completes, completes'⟩
    rcases leftDone completes with ⟨finalLeft, ranLeft, settledLeft⟩
    rcases rightDone completes' with ⟨finalRight, ranRight, settledRight⟩
    refine ⟨finalLeft, finalRight, ranLeft, ranRight, ?_, settledLeft.underflow,
      settledRight.underflow⟩
    rw [settledLeft.log, settledRight.log, first.whole, second.whole]

section Witness

theorem alternating_recognised (length : Nat) (enough : 2040 ≤ length) :
    Recognised (alternating length) [] tsFecPacketSize 0 :=
  recognised_even (alternating length) [] (by simpa using enough)
    fun i inside => alternating_even length i (by simpa using inside)

def cutAtPackets : Cutting (alternating 2448) where
  datagrams := [alternating 2040, alternating 408]
  whole := by decide +kernel
  sizes := by decide +kernel

def cutInsidePacket : Cutting (alternating 2448) where
  datagrams := [alternating 2048, alternating 400]
  whole := by decide +kernel
  sizes := by decide +kernel

def cutTooSmall : Cutting (alternating 2448) where
  datagrams := [alternating 2048, alternating 2, alternating 398]
  whole := by decide +kernel
  sizes := by decide +kernel

theorem cutAtPackets_accepted : Accepted cutAtPackets.datagrams tsFecPacketSize 0 :=
  ⟨_, _, rfl, alternating_recognised 2040 (le_refl _)⟩

theorem cutInsidePacket_accepted : Accepted cutInsidePacket.datagrams tsFecPacketSize 0 :=
  ⟨_, _, rfl, alternating_recognised 2048 (by decide)⟩

theorem cutTooSmall_accepted : Accepted cutTooSmall.datagrams tsFecPacketSize 0 :=
  ⟨_, _, rfl, alternating_recognised 2048 (by decide)⟩

theorem udpProcess_chunking_inside_packet :
    SameRun cutAtPackets.datagrams cutInsidePacket.datagrams :=
  (udpProcess_chunking (alternating 2448) cutAtPackets cutInsidePacket tsFecPacketSize 0
    cutAtPackets_accepted cutInsidePacket_accepted).mpr
    (by simp [Completes, CompletesFrom, cutAtPackets, cutInsidePacket, tsFecPacketSize])

/-- A two-byte datagram behind eight carried bytes of a packet. -/
theorem udpProcess_small_datagram :
    Accepted cutAtPackets.datagrams tsFecPacketSize 0 ∧
      Accepted cutTooSmall.datagrams tsFecPacketSize 0 ∧
      ¬SameRun cutAtPackets.datagrams cutTooSmall.datagrams := by
  refine ⟨cutAtPackets_accepted, cutTooSmall_accepted, ?_⟩
  rintro ⟨left, right, -, ran, -⟩
  have short : ¬Completes tsFecPacketSize 0 cutTooSmall.datagrams := by
    simp [Completes, CompletesFrom, cutTooSmall, tsFecPacketSize]
  have fault := (udpProcess_outcome cutTooSmall.datagrams tsFecPacketSize 0 cutTooSmall_accepted
    (fun d found => (cutTooSmall.sizes d found).2)).2 short
  rw [fault] at ran
  cases ran

end Witness

end TsAnalyze.Input
