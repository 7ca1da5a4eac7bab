import TsAnalyze.Demux.PacketBounds
import TsAnalyze.Demux.Stream

set_option autoImplicit false

namespace TsAnalyze.Demux

open Memory Keyed Input

variable {σ : Type}

-- emit_section of gen_full.c

def payloadMax : Nat := tsPacketSize - 4

/-- What a turn of the loop writes into a packet, behind pointer_field in the first one. -/
structure Chunk where
  first : Bool
  cc : Nat
  data : List UInt8
  short : data.length ≤ payloadMax

def Chunk.header (chunk : Chunk) (pid : Pid) : List UInt8 :=
  [tsSyncByte, UInt8.ofNat (((pid.val >>> 8) &&& 0x1F) ||| if chunk.first then 0x40 else 0),
    UInt8.ofNat (pid.val &&& 0xFF), UInt8.ofNat (0x10 ||| (chunk.cc &&& 0x0F))]

-- the packet has been filled with 0xFF before
def Chunk.filled (chunk : Chunk) : List UInt8 :=
  chunk.data ++ List.replicate (payloadMax - chunk.data.length) 0xFF

theorem Chunk.filled_length (chunk : Chunk) : chunk.filled.length = payloadMax := by
  have short := chunk.short
  simp only [Chunk.filled, List.length_append, List.length_replicate]
  omega

def Chunk.packet (chunk : Chunk) (pid : Pid) : TsPacket where
  bytes := chunk.header pid ++ chunk.filled
  sized := by
    rw [List.length_append, chunk.filled_length]
    rfl

-- pointer_field 0 and 183 bytes, then 184 bytes at a time
def emitChunk (first : Bool) (cc : Nat) (sec : List UInt8) : Chunk where
  first := first
  cc := cc
  data := if first then 0 :: sec.take (payloadMax - 1) else sec.take payloadMax
  short := by
    cases first <;> simp [payloadMax, tsPacketSize]

def emitLoop : Nat → Bool → Nat → List UInt8 → List Chunk
  | 0, _, _, _ => []
  | turns + 1, first, cc, sec =>
      if 0 < sec.length then
        emitChunk first cc sec ::
          emitLoop turns false (cc + 1) (sec.drop (if first then payloadMax - 1 else payloadMax))
      else []

-- a turn takes a byte at least
def emitChunks (cc : Nat) (sec : List UInt8) : List Chunk :=
  emitLoop sec.length true cc sec

def emitSection (pid : Pid) (cc : Nat) (sec : List UInt8) : List TsPacket :=
  (emitChunks cc sec).map fun chunk => chunk.packet pid

def Chunk.payload (chunk : Chunk) : Payload where
  start := chunk.first
  bytes := chunk.filled
  continuityCounter := UInt8.ofNat (0x10 ||| (chunk.cc &&& 0x0F)) &&& 0x3
  short := by
    rw [chunk.filled_length]
    decide

section Header

theorem counter_bits (cc : Nat) :
    ((UInt8.ofNat (0x10 ||| (cc &&& 0x0F))).toNat >>> 4) &&& 0x3 = 1 := by
  have low : cc &&& 0x0F = cc % 16 := land_low_bits cc 4
  have below : cc &&& 0x0F < 16 := low ▸ Nat.mod_lt cc (by decide)
  clear low
  generalize cc &&& 0x0F = low at below
  revert low
  decide

-- the byte with the indicator and the high bits of the PID
def highByte (pid : Pid) (first : Bool) : UInt8 :=
  UInt8.ofNat (((pid.val >>> 8) &&& 0x1F) ||| if first then 0x40 else 0)

theorem highByte_bits (pid : Pid) (first : Bool) :
    readBit (highByte pid first) 6 = first ∧
      (highByte pid first).toNat = pid.val / 256 + if first then 64 else 0 := by
  have high : (pid.val >>> 8) &&& 0x1F = pid.val / 256 := by
    have low : (pid.val >>> 8) &&& 0x1F = (pid.val >>> 8) % 32 := land_low_bits _ 5
    rw [low, Nat.shiftRight_eq_div_pow]
    exact Nat.mod_eq_of_lt (by omega)
  have below : pid.val / 256 < 32 := by omega
  rw [highByte, high]
  generalize pid.val / 256 = hi at below
  revert hi first
  decide

theorem pid_bits (pid : Pid) (first : Bool) :
    Fin.ofNat 8192 (((highByte pid first).toNat * 256 + (UInt8.ofNat (pid.val &&& 0xFF)).toNat) &&&
      0x1FFF) = pid := by
  have byte : pid.val &&& 0xFF = pid.val % 256 := land_low_bits _ 8
  have low : (UInt8.ofNat (pid.val &&& 0xFF)).toNat = pid.val % 256 := by
    rw [byte]
    simp
  have word (value : Nat) : value &&& 0x1FFF = value % 8192 := land_low_bits value 13
  rw [(highByte_bits pid first).2, low, word]
  apply Fin.ext
  simp only [Fin.ofNat]
  split <;> omega

end Header

-- a packet that starts with the sync byte
def Chunk.synced (chunk : Chunk) (pid : Pid) : SyncedPacket where
  bytes := (chunk.packet pid).bytes
  sized := Or.inl (chunk.packet pid).sized
  synced := rfl

theorem Chunk.readHeader (chunk : Chunk) (pid : Pid) :
    Demux.readHeader (ofBytes (chunk.packet pid).bytes) = some (some ((chunk.synced pid).head none)) := by
  have control : (chunk.synced pid).adaptationFieldControl = 1 := counter_bits chunk.cc
  have plain : ¬(chunk.synced pid).Adapted := by
    rw [SyncedPacket.Adapted, control]
    decide
  have reads := (chunk.synced pid).readHeader_eq
  rw [if_neg plain] at reads
  exact reads

theorem Chunk.carrying (chunk : Chunk) (pid : Pid) :
    Carrying (chunk.packet pid) pid chunk.payload := by
  have control : (chunk.synced pid).adaptationFieldControl = 1 := counter_bits chunk.cc
  have plain : ¬(chunk.synced pid).Adapted := by
    rw [SyncedPacket.Adapted, control]
    decide
  have place : (chunk.synced pid).payloadAt = 4 := if_neg plain
  refine ⟨_, chunk.readHeader pid, pid_bits pid chunk.first, rfl, ?_, ?_, ?_, rfl, ?_, rfl⟩
  · rw [noDataByte, SyncedPacket.head, control]
    rfl
  · rw [SyncedPacket.head, place]
    exact Nat.le_of_ble_eq_true rfl
  · exact (highByte_bits pid chunk.first).1
  · rw [TsPacket.payload, SyncedPacket.head, place]
    rfl

section Carried

theorem emitLoop_nil (turns : Nat) (first : Bool) (cc : Nat) : emitLoop turns first cc [] = [] := by
  cases turns <;> rfl

-- the packets behind the first one
theorem emitLoop_carries (turns cc : Nat) (rest : List UInt8) (left : rest ≠ [])
    (enough : rest.length ≤ turns) :
    CarriesRest rest ((emitLoop turns false cc rest).map Chunk.payload) := by
  induction turns generalizing cc rest with
  | zero => exact absurd (List.eq_nil_of_length_eq_zero (Nat.le_zero.mp enough)) left
  | succ turns ih =>
    have some_left := List.length_pos_iff.mpr left
    rw [emitLoop, if_pos some_left, List.map_cons]
    simp only [Bool.false_eq_true, if_false]
    by_cases whole : rest.length ≤ payloadMax
    · rw [List.drop_eq_nil_of_le whole, emitLoop_nil]
      refine ⟨rfl, left, List.replicate (payloadMax - rest.length) 0xFF, ?_⟩
      simp [Chunk.payload, Chunk.filled, emitChunk, List.take_of_length_le whole]
    · have more : rest.drop payloadMax ≠ [] := by
        simp only [ne_eq, List.drop_eq_nil_iff]
        exact whole
      have later := ih (cc + 1) (rest.drop payloadMax) more (by
        rw [List.length_drop, payloadMax, tsPacketSize]
        omega)
      cases found : (emitLoop turns false (cc + 1) (rest.drop payloadMax)).map Chunk.payload with
      | nil =>
        rw [found] at later
        exact later.elim
      | cons next others =>
        rw [found] at later
        refine ⟨rfl, rest.drop payloadMax, ?_, later⟩
        have full : (rest.take payloadMax).length = payloadMax := by
          rw [List.length_take]
          omega
        simp [Chunk.payload, Chunk.filled, emitChunk, full]

theorem emitChunks_carries (cc : Nat) (psi : PsiSection) :
    Carries psi.bytes ((emitChunks cc psi.bytes).map Chunk.payload) := by
  obtain ⟨bytes, framed⟩ := psi
  have bounds := sectionSize_bounds bytes
  have some_left : 0 < bytes.length := by omega
  obtain ⟨turns, size⟩ := Nat.exists_eq_succ_of_ne_zero some_left.ne'
  rw [emitChunks, size, emitLoop, if_pos some_left, List.map_cons]
  simp only [if_true]
  by_cases whole : bytes.length ≤ payloadMax - 1
  · rw [List.drop_eq_nil_of_le whole, emitLoop_nil]
    refine ⟨rfl, List.replicate (payloadMax - (0 :: bytes).length) 0xFF, ?_⟩
    simp [Chunk.payload, Chunk.filled, emitChunk, List.take_of_length_le whole]
  · have more : bytes.drop (payloadMax - 1) ≠ [] := by
      simp only [ne_eq, List.drop_eq_nil_iff]
      exact whole
    have later := emitLoop_carries turns (cc + 1) (bytes.drop (payloadMax - 1)) more (by
      rw [List.length_drop, payloadMax, tsPacketSize]
      omega)
    have full : (bytes.take (payloadMax - 1)).length = payloadMax - 1 := by
      rw [List.length_take]
      omega
    cases found : (emitLoop turns false (cc + 1) (bytes.drop (payloadMax - 1))).map
        Chunk.payload with
    | nil =>
      rw [found] at later
      exact later.elim
    | cons next others =>
      rw [found] at later
      refine ⟨rfl, bytes.take (payloadMax - 1), bytes.drop (payloadMax - 1), ?_, ?_,
        (List.take_append_drop _ _).symm, later⟩
      · have filled : payloadMax - (0 :: bytes.take (payloadMax - 1)).length = 0 := by
          rw [List.length_cons, full]
          rfl
        simp only [Chunk.payload, Chunk.filled, emitChunk, if_true, filled, List.replicate_zero,
          List.append_nil]
      · rw [full]
        decide

end Carried

/-- The sections that a generator writes, each with its PID and the counter that it starts with. -/
structure Emitted where
  pid : Pid
  cc : Nat
  psi : PsiSection

namespace Emitted

def packets (emitted : Emitted) : List TsPacket :=
  emitSection emitted.pid emitted.cc emitted.psi.bytes

def transmission (emitted : Emitted) : Transmission where
  psi := emitted.psi
  payloads := (emitChunks emitted.cc emitted.psi.bytes).map Chunk.payload
  carried := emitChunks_carries emitted.cc emitted.psi

def stream (emitted : Emitted) : List (Pid × Marked) :=
  emitted.transmission.marked.map fun marked => (emitted.pid, marked)

theorem carrying_marked (pid : Pid) (chunks : List Chunk) (marks : List (Option (List UInt8)))
    (sized : chunks.length = marks.length) :
    List.Forall₂ (fun packet event => Carrying packet event.1 event.2.1)
      (chunks.map fun chunk => chunk.packet pid)
      (((chunks.map Chunk.payload).zip marks).map fun marked => (pid, marked)) := by
  induction chunks generalizing marks with
  | nil => exact .nil
  | cons chunk rest ih =>
    cases marks with
    | nil => cases sized
    | cons mark others => exact .cons (chunk.carrying pid) (ih others (Nat.succ.inj sized))

theorem carrying (emitted : Emitted) :
    List.Forall₂ (fun packet event => Carrying packet event.1 event.2.1) emitted.packets
      emitted.stream := by
  have some_payload := emitted.transmission.payloads_pos
  have sized : emitted.transmission.payloads.length =
      (emitChunks emitted.cc emitted.psi.bytes).length := List.length_map _
  refine carrying_marked emitted.pid _ _ ?_
  rw [List.length_append, List.length_replicate, List.length_singleton]
  omega

end Emitted

section Mixed

theorem project_same (pid : Pid) (marked : List Marked) :
    project pid (marked.map fun one => (pid, one)) = marked := by
  simp [project, List.filterMap_map]

theorem project_apart (pid other : Pid) (different : other ≠ pid) (marked : List Marked) :
    project pid (marked.map fun one => (other, one)) = [] := by
  simp [project, List.filterMap_map, different]

theorem project_append (pid : Pid) (front back : List (Pid × Marked)) :
    project pid (front ++ back) = project pid front ++ project pid back :=
  List.filterMap_append

/-- However sections are cut into packets and mixed, filter_proc works on the sections alone. -/
theorem stream_transparent (env : Environment σ) (steady : env.Steady) (state : Ts σ)
    (sent : Pid → List Transmission) (stream : List (Pid × Marked)) (packets : List TsPacket)
    (interleaved : ∀ pid, project pid stream = (sent pid).flatMap Transmission.marked)
    (carrying : List.Forall₂ (fun packet event => Carrying packet event.1 event.2.1) packets stream)
    {final : σ} (stepped : stream.foldlM (sectionStep env) state.environment = some final) :
    ∃ after, procPackets env state packets = some after ∧ after.environment = final ∧
      after.delivered = state.delivered ++ completed stream := by
  refine receive_stream env steady stream state ⟨fun pid => ?_, fun event inside => ?_⟩ carrying stepped
  · rw [interleaved pid]
    exact pending_transmissions _ _
  · obtain ⟨pid, marked⟩ := event
    have mine : marked ∈ project pid stream :=
      List.mem_filterMap.mpr ⟨(pid, marked), inside, if_pos rfl⟩
    rw [interleaved pid] at mine
    obtain ⟨one, -, own⟩ := List.mem_flatMap.mp mine
    intro other only
    rw [List.mem_singleton.mp only]
    exact one.marked_bounded marked own

-- an analysis that counts its sections
def countEnv : Environment Nat where
  checkPmtPid _ _ := false
  checkSectionPid _ _ := false
  checkEsPid _ _ := false
  filterProc sections _ _ _ := some (sections + 1)
  malloc _ := true

theorem countEnv_steady : countEnv.Steady :=
  ⟨fun _ _ _ _ _ found => found, fun _ => rfl⟩

-- a section of two packets
def longPsi : PsiSection where
  bytes := [0, 0xB0, 190] ++ List.replicate 190 0xFF
  framed := by decide +kernel

-- a packet of the first section, the second section, and the rest of the first one
def mixed (one other : Emitted) : List TsPacket :=
  one.packets.take 1 ++ other.packets ++ one.packets.drop 1

def mixedStream (one other : Emitted) : List (Pid × Marked) :=
  one.stream.take 1 ++ other.stream ++ one.stream.drop 1

theorem mixed_carrying (one other : Emitted) :
    List.Forall₂ (fun packet event => Carrying packet event.1 event.2.1) (mixed one other)
      (mixedStream one other) :=
  List.rel_append (List.rel_append (List.forall₂_take 1 one.carrying) other.carrying)
    (List.forall₂_drop 1 one.carrying)

theorem mixed_interleaved (one other : Emitted) (apart : one.pid ≠ other.pid) (pid : Pid) :
    project pid (mixedStream one other) =
      (if pid = one.pid then [one.transmission] else if pid = other.pid then [other.transmission]
        else []).flatMap Transmission.marked := by
  simp only [mixedStream, project_append, Emitted.stream, ← List.map_take, ← List.map_drop]
  by_cases first : pid = one.pid
  · rw [if_pos first, first, project_same, project_same, project_apart _ _ (Ne.symm apart),
      List.append_nil, List.take_append_drop, List.flatMap_singleton]
  · rw [if_neg first, project_apart _ _ (Ne.symm first), project_apart _ _ (Ne.symm first),
      List.nil_append, List.append_nil]
    by_cases second : pid = other.pid
    · rw [if_pos second, second, project_same, List.flatMap_singleton]
    · rw [if_neg second, project_apart _ _ (Ne.symm second), List.flatMap_nil]

theorem stream_transparent_mixed :
    ∃ after, procPackets countEnv { environment := 0 }
        (mixed ⟨0, 0, longPsi⟩ ⟨1, 7, longPsi⟩) = some after ∧ after.environment = 2 := by
  have stepped : (mixedStream ⟨0, 0, longPsi⟩ ⟨1, 7, longPsi⟩).foldlM (sectionStep countEnv) 0 =
      some 2 := by decide +kernel
  obtain ⟨after, ran, final, -⟩ := stream_transparent countEnv countEnv_steady { environment := 0 }
    _ _ _ (mixed_interleaved ⟨0, 0, longPsi⟩ ⟨1, 7, longPsi⟩ (by decide))
    (mixed_carrying ⟨0, 0, longPsi⟩ ⟨1, 7, longPsi⟩) stepped
  exact ⟨after, ran, final⟩

end Mixed

-- pad_null of gen_full.c

def nullChunk : Chunk where
  first := false
  cc := 0
  data := []
  short := Nat.zero_le _

def nullPacket : TsPacket :=
  nullChunk.packet 0x1FFF

def padLoop : Nat → Nat → Nat → List TsPacket
  | 0, _, _ => []
  | turns + 1, pos, minBytes =>
      if pos < minBytes then nullPacket :: padLoop turns (pos + tsPacketSize) minBytes else []

def padNull (pos minBytes : Nat) : List TsPacket :=
  padLoop minBytes pos minBytes

theorem padLoop_null (turns pos minBytes : Nat) :
    ∀ packet ∈ padLoop turns pos minBytes, packet = nullPacket := by
  induction turns generalizing pos with
  | zero => simp [padLoop]
  | succ turns ih =>
    rw [padLoop]
    split
    · intro packet inside
      cases inside with
      | head => rfl
      | tail _ later => exact ih _ packet later
    · simp

/-- What a generator adds to a stream. -/
inductive Write
  | emitSection (emitted : Emitted)
  | padNull (minBytes : Nat)

def Write.packets (pos : Nat) : Write → List TsPacket
  | .emitSection emitted => emitted.packets
  | .padNull minBytes => Demux.padNull pos minBytes

-- the stream behind `pos` bytes that have been written
def generate : Nat → List Write → List TsPacket
  | _, [] => []
  | pos, write :: rest =>
      write.packets pos ++ generate (pos + tsPacketSize * (write.packets pos).length) rest

-- what a stream is for: filter_proc is given its sections
def writeStep (env : Environment σ) (environment : σ) : Write → Option σ
  | .emitSection emitted =>
      if psiOrPes env environment emitted.pid = .psi ∧ emitted.pid.val ≠ nullPid then
        env.filterProc environment emitted.pid (ofBytes emitted.psi.bytes) emitted.psi.bytes.length
      else none
  | .padNull _ => some environment

def Write.delivery : Write → Option Delivery
  | .emitSection emitted =>
      some ⟨emitted.pid, ofBytes emitted.psi.bytes, emitted.psi.bytes.length⟩
  | .padNull _ => none

section Receive

variable (env : Environment σ)

theorem receive_append (state : Ts σ) (packets others : List TsPacket) :
    procPackets env state (packets ++ others) =
      (procPackets env state packets).bind fun middle => procPackets env middle others :=
  List.foldlM_append

theorem receive_null (state : Ts σ) (packets : List TsPacket)
    (null : ∀ packet ∈ packets, packet = nullPacket) :
    ∃ after, procPackets env state packets = some after ∧ after.environment = state.environment ∧
      after.delivered = state.delivered := by
  induction packets generalizing state with
  | nil => exact ⟨state, rfl, rfl, rfl⟩
  | cons packet rest ih =>
    obtain rfl := null packet List.mem_cons_self
    obtain ⟨head, header, pid, noClock, -⟩ := (nullChunk.carrying 0x1FFF).header
    obtain ⟨dev, counted⟩ : ∃ dev,
        countPacket (state.pidDev head.pid) (UInt8.ofNat tsPacketSize) head = some dev := by
      rw [countPacket, noClock]
      exact ⟨_, rfl⟩
    have stops : Stops env state.environment head := Or.inl (Or.inr (by rw [pid]; rfl))
    have here : procStep env state (ofBytes nullPacket.bytes) tsPacketSize =
        some (state.count head.pid dev) := by
      rw [nullPacket, procStep_header env state _ _ head header, counted, Option.bind_some,
        if_pos stops]
    obtain ⟨after, ran, environment, delivered⟩ := ih (state.count head.pid dev)
      fun other inside => null other (List.mem_cons_of_mem _ inside)
    refine ⟨after, ?_, environment, delivered⟩
    rw [procPackets, List.foldlM_cons, here]
    exact ran

variable {env}

-- the marks decide what a stream of one PID does
theorem fold_marked {environment : σ} {pid : Pid}
    (psi : psiOrPes env environment pid = .psi ∧ pid.val ≠ nullPid) (bytes : List UInt8)
    (count : Nat) (marked : List Marked)
    (marks : marked.map Prod.snd = List.replicate count none ++ [some bytes]) :
    (marked.map fun one => (pid, one)).foldlM (sectionStep env) environment =
      env.filterProc environment pid (ofBytes bytes) bytes.length := by
  induction count generalizing marked with
  | zero =>
    obtain ⟨one, rfl, mark⟩ := List.map_eq_singleton_iff.mp marks
    rw [List.map_singleton, List.foldlM_cons, sectionStep, if_pos psi, mark]
    exact bind_pure _
  | succ count ih =>
    obtain ⟨one, rest, rfl, mark, later⟩ := List.map_eq_cons_iff.mp marks
    rw [List.map_cons, List.foldlM_cons, sectionStep, if_pos psi, mark]
    exact ih rest later

theorem completed_marked (pid : Pid) (bytes : List UInt8) (count : Nat) (marked : List Marked)
    (marks : marked.map Prod.snd = List.replicate count none ++ [some bytes]) :
    completed (marked.map fun one => (pid, one)) = [⟨pid, ofBytes bytes, bytes.length⟩] := by
  have second : completed (marked.map fun one => (pid, one)) =
      (marked.map Prod.snd).filterMap fun mark =>
        mark.map fun bytes => (⟨pid, ofBytes bytes, bytes.length⟩ : Delivery) := by
    rw [completed, List.filterMap_map, List.filterMap_map]
    rfl
  rw [second, marks, List.filterMap_append, List.filterMap_replicate_of_none rfl]
  rfl

theorem Transmission.marks (sent : Transmission) : sent.marked.map Prod.snd =
    List.replicate (sent.payloads.length - 1) none ++ [some sent.psi.bytes] := by
  have some_payload := sent.payloads_pos
  refine List.map_snd_zip ?_
  simp
  omega

theorem receive_emitted (steady : env.Steady) (state : Ts σ) (emitted : Emitted) {final : σ}
    (stepped : writeStep env state.environment (.emitSection emitted) = some final) :
    ∃ after, procPackets env state emitted.packets = some after ∧ after.environment = final ∧
      after.delivered = state.delivered ++ [⟨emitted.pid, ofBytes emitted.psi.bytes,
        emitted.psi.bytes.length⟩] := by
  have marks := emitted.transmission.marks
  rw [writeStep] at stepped
  split at stepped
  · rename_i psi
    have receiving : Receiving state emitted.stream := by
      refine ⟨fun pid => ?_, fun event inside => ?_⟩
      · by_cases own : emitted.pid = pid
        · have pending := pending_transmissions (state.sec pid) [emitted.transmission]
          rw [List.flatMap_singleton] at pending
          rwa [Emitted.stream, own, project_same]
        · rw [Emitted.stream, project_apart pid _ own]
          exact ⟨_, _, rfl, rfl⟩
      · obtain ⟨marked, member, rfl⟩ := List.mem_map.mp inside
        intro other only
        rw [List.mem_singleton.mp only]
        exact emitted.transmission.marked_bounded marked member
    obtain ⟨after, ran, environment, delivered⟩ :=
      receive_stream env steady emitted.stream state receiving emitted.carrying
        ((fold_marked psi _ _ _ marks).trans stepped)
    exact ⟨after, ran, environment,
      delivered.trans (congrArg _ (completed_marked emitted.pid _ _ _ marks))⟩
  · cases stepped

theorem writes_run (steady : env.Steady) (writes : List Write) (pos : Nat) (state : Ts σ)
    {final : σ} (stepped : writes.foldlM (writeStep env) state.environment = some final) :
    ∃ after, procPackets env state (generate pos writes) = some after ∧ after.environment = final ∧
      after.delivered = state.delivered ++ writes.filterMap Write.delivery := by
  induction writes generalizing pos state with
  | nil =>
    refine ⟨state, rfl, Option.some.inj stepped, ?_⟩
    rw [List.filterMap_nil, List.append_nil]
  | cons write rest ih =>
    rw [List.foldlM_cons] at stepped
    obtain ⟨next, here, later⟩ := Option.bind_eq_some_iff.mp stepped
    obtain ⟨middle, ran, environment, delivered⟩ : ∃ middle,
        procPackets env state (write.packets pos) = some middle ∧ middle.environment = next ∧
          middle.delivered = state.delivered ++ write.delivery.toList := by
      cases write with
      | emitSection emitted => exact receive_emitted steady state emitted here
      | padNull minBytes =>
        obtain ⟨middle, ran, environment, delivered⟩ :=
          receive_null env state (padNull pos minBytes) (padLoop_null _ _ _)
        refine ⟨middle, ran, environment.trans (Option.some.inj here), ?_⟩
        rw [delivered]
        exact (List.append_nil _).symm
    rw [← environment] at later
    obtain ⟨after, others, last, all⟩ := ih (pos + tsPacketSize * (write.packets pos).length) middle
      later
    refine ⟨after, ?_, last, ?_⟩
    · rw [generate, receive_append, ran]
      exact others
    · rw [all, delivered, List.append_assoc]
      cases write with
      | emitSection emitted => rfl
      | padNull minBytes => rfl

/-- ts_proc does with a generated stream what filter_proc does with its sections. -/
theorem generated_analysed (steady : env.Steady) (writes : List Write) (state : Ts σ) {final : σ}
    (stepped : writes.foldlM (writeStep env) state.environment = some final) :
    ∃ after, procPackets env state (generate 0 writes) = some after ∧ after.environment = final ∧
      after.delivered = state.delivered ++ writes.filterMap Write.delivery :=
  writes_run steady writes 0 state stepped

-- a section, null packets up to 2040 bytes, and another one
def paddedWrites : List Write :=
  [.emitSection ⟨0, 0, longPsi⟩, .padNull 2040, .emitSection ⟨1, 0, longPsi⟩]

theorem generated_analysed_padded :
    ∃ after, procPackets countEnv { environment := 0 } (generate 0 paddedWrites) = some after ∧
      after.environment = 2 ∧ after.delivered.map Delivery.pid = [0, 1] := by
  have stepped : paddedWrites.foldlM (writeStep countEnv) 0 = some 2 := by decide +kernel
  obtain ⟨after, ran, final, delivered⟩ :=
    generated_analysed countEnv_steady paddedWrites { environment := 0 } stepped
  exact ⟨after, ran, final, by rw [delivered]; rfl⟩

end Receive

end TsAnalyze.Demux
