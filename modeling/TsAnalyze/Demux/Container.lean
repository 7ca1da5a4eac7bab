import TsAnalyze.Demux.Packet
import TsAnalyze.Demux.PsiPayload
import TsAnalyze.Input.PacketLoop

set_option autoImplicit false

namespace TsAnalyze.Demux

open Memory Input

structure TsPacket where
  bytes : List UInt8
  sized : bytes.length = tsPacketSize

variable {σ : Type}

def TsPacket.payload (packet : TsPacket) (head : TsHeader) : List UInt8 :=
  packet.bytes.drop head.payload

-- the first section of a PSI payload, by its pointer_field and its section_length
def firstSection (payload : List UInt8) : List UInt8 :=
  let first := payload.drop (1 + (payload.getD 0 0).toNat)
  first.take (sectionSize first)

-- The first section lies in the packet, and filter_proc looks at nothing behind it.
structure WholeSection (env : Environment σ) (environment : σ) (pid : Pid)
    (payload : List UInt8) : Prop where
  inside : 1 + (payload.getD 0 0).toNat + sectionSize (payload.drop (1 + (payload.getD 0 0).toNat)) ≤
    payload.length
  filtered : ∀ behind,
    env.filterProc environment pid (ofBytes (firstSection payload) ++ behind)
        (firstSection payload).length =
      env.filterProc environment pid (ofBytes (firstSection payload)) (firstSection payload).length

-- What section_preproc does with the payload needs no byte of a second packet.
def Unbuffered (env : Environment σ) (state : Ts σ) (packet : TsPacket) (head : TsHeader) : Prop :=
  match psiOrPes env state.environment head.pid, head.payloadUnitStartIndicator with
  | .psi, true => WholeSection env state.environment head.pid (packet.payload head)
  | .psi, false => (state.sec head.pid).totalLen = 0
  | .pes, true => 6 ≤ (packet.payload head).length ∧ (packet.payload head).getD 4 0 = 0 ∧
      (packet.payload head).getD 5 0 = 0
  | .pes, false => (state.sec head.pid).limitLen = 0

/-- The condition on one packet and on the state before it. -/
def Unmixed (env : Environment σ) (state : Ts σ) (packet : TsPacket) : Prop :=
  match readHeader (ofBytes packet.bytes) with
  | none => False
  | some none => True
  | some (some head) => Stops env state.environment head ∨ Unbuffered env state packet head

def StartsSection (env : Environment σ) (state : Ts σ) (head : TsHeader) : Prop :=
  psiOrPes env state.environment head.pid = .psi ∧ head.payloadUnitStartIndicator = true

-- The packet hands nothing to filter_proc, and its clock moves on.
def Silent (env : Environment σ) (state : Ts σ) (packet : TsPacket) : Prop :=
  match readHeader (ofBytes packet.bytes) with
  | some (some head) =>
      (Stops env state.environment head ∨ ¬StartsSection env state head) ∧
      ∀ pcr, head.pcr = some pcr → pcr ≠ (state.pidDev head.pid).pcr
  | _ => True

inductive Container where
  | ts
  | dvhsFollowed
  | dvhsPreceded
  | fec

def Container.extra : Container → Nat
  | .ts => 0
  | .dvhsFollowed | .dvhsPreceded => 4
  | .fec => 16

def Container.size (container : Container) : Nat :=
  tsPacketSize + container.extra

structure Framed (container : Container) where
  packet : TsPacket
  extra : List UInt8
  sized : extra.length = container.extra

def Framed.bytes {container : Container} (frame : Framed container) : List UInt8 :=
  match container with
  | .dvhsPreceded => frame.extra ++ frame.packet.bytes
  | _ => frame.packet.bytes ++ frame.extra

-- how far the first sync byte is from the start
def Container.lead : Container → Nat
  | .dvhsPreceded => 4
  | _ => 0

def presented {container : Container} (frames : List (Framed container)) : List UInt8 :=
  (frames.flatMap Framed.bytes).drop container.lead

def plain (packets : List TsPacket) : List UInt8 :=
  packets.flatMap TsPacket.bytes

def present (env : Environment σ) (tsPktlen : Nat) (state : Ts σ) (bytes : List UInt8) :
    Option (Ts σ) :=
  (packets (procStep env) tsPktlen state (ofBytes bytes) bytes.length).map Prod.fst

/-- Every packet of a plain run meets the condition at the state it is processed in. -/
def UnmixedRun (env : Environment σ) (container : Container) : Ts σ → List TsPacket → Prop
  | _, [] => True
  | state, packet :: rest =>
      Unmixed env state packet ∧
      (container = .dvhsPreceded → rest = [] → Silent env state packet) ∧
      ∀ next, procStep env state (ofBytes (plain (packet :: rest))) tsPacketSize = some next →
        UnmixedRun env container next rest

-- What two runs over different containers agree on.
structure Related (left right : Ts σ) : Prop where
  environment : left.environment = right.environment
  delivered : left.delivered = right.delivered
  pcr : ∀ pid, (left.pidDev pid).pcr = (right.pidDev pid).pcr
  limitLen : ∀ pid, (left.sec pid).limitLen = (right.sec pid).limitLen
  idle : ∀ pid, (left.sec pid).totalLen = 0 ↔ (right.sec pid).totalLen = 0

theorem countPacket_related (dev other : PidOps) (pktLen pktLen' : UInt8) (head : TsHeader)
    (same : dev.pcr = other.pcr) :
    Option.Rel (fun left right => left.pcr = right.pcr) (countPacket dev pktLen head)
      (countPacket other pktLen' head) := by
  unfold countPacket
  cases head.pcr with
  | none =>
    apply Option.Rel.some
    rw [countError_pcr, countError_pcr]
    exact same
  | some pcr =>
    simp only [calcBitrate, ← same]
    split
    · exact Option.Rel.none
    · apply Option.Rel.some
      rw [countError_pcr, countError_pcr]

theorem firstSection_length (payload : List UInt8)
    (inside : 1 + (payload.getD 0 0).toNat +
      sectionSize (payload.drop (1 + (payload.getD 0 0).toNat)) ≤ payload.length) :
    (firstSection payload).length =
      sectionSize (payload.drop (1 + (payload.getD 0 0).toNat)) := by
  simp only [firstSection, List.length_take, List.length_drop]
  omega

section Parser

variable (p : SectionParser) (c : Call) (payload : List UInt8) (behind : Block)
  (pkt : c.pkt = ofBytes payload ++ behind)
include pkt

theorem read8_payload (offset : Nat) (inside : offset < payload.length) :
    read8 c.pkt offset = some (payload.getD offset 0) := by
  rw [pkt, read8_append_left _ _ _ (by simpa using inside), read8_ofBytes,
    List.getElem?_eq_getElem inside, List.getD_eq_getElem _ _ inside]

variable (long : payload.length ≤ c.len)
include long

theorem startPsi_inside (inside : 1 + (payload.getD 0 0).toNat +
    sectionSize (payload.drop (1 + (payload.getD 0 0).toNat)) ≤ payload.length) :
    ∃ q rest, startPsi p c = some (q, ⟨(firstSection payload).length,
        some (ofBytes (firstSection payload) ++ rest)⟩) ∧
      q.limitLen = (firstSection payload).length ∧ q.totalLen ≠ 0 := by
  generalize pointer : (payload.getD 0 0).toNat = start at inside
  have bounds := sectionSize_bounds (payload.drop (1 + start))
  have length := firstSection_length payload (by rw [pointer]; exact inside)
  rw [pointer] at length
  have header : read16 c.pkt (2 + (payload.getD 0 0).toNat) =
      some ((payload.getD (start + 2) 0).toNat * 256 + (payload.getD (start + 3) 0).toNat) := by
    rw [pointer, Nat.add_comm 2 start]
    exact read16_eq _ _ _ _ (read8_payload c payload behind pkt _ (by omega))
      (read8_payload c payload behind pkt _ (by omega))
  have limit : headerLimit ((payload.getD (start + 2) 0).toNat * 256 +
      (payload.getD (start + 3) 0).toNat) = (firstSection payload).length := by
    rw [length, headerLimit_eq, sectionSize, sectionLength]
    simp only [List.getD_eq_getElem?_getD, List.getElem?_drop]
    rw [show 1 + start + 1 = start + 2 by omega, show 1 + start + 2 = start + 3 by omega]
  have result := startPsi_whole p c _ _ (read8_payload c payload behind pkt 0 (by omega)) header
    (by rw [limit, length, pointer]; omega)
  rw [limit, pointer, toInt16_of_small _ (by omega) (by omega), pkt,
    List.drop_append_of_le_length (by simp; omega), ofBytes_drop] at result
  refine ⟨{ p with totalLen := c.len - 1 - start, limitLen := (firstSection payload).length },
    ofBytes ((payload.drop (1 + start)).drop (sectionSize (payload.drop (1 + start)))) ++ behind,
    result.trans ?_, rfl, ?_⟩
  · rw [firstSection, pointer, ← List.append_assoc, ← ofBytes_append, List.take_append_drop]
  · change (c.len : Int) - 1 - start ≠ 0
    omega

theorem startPes_unlimited (enough : 6 ≤ payload.length) (high : payload.getD 4 0 = 0)
    (low : payload.getD 5 0 = 0) :
    ∃ q, startPes p c = some (q, ⟨0, none⟩) ∧ q.limitLen = 0 ∧ q.totalLen ≠ 0 := by
  have fields : read16 c.pkt 4 = some 0 := by
    rw [read16_eq _ _ _ _ (read8_payload c payload behind pkt 4 (by omega))
      (read8_payload c payload behind pkt 5 (by omega)), high, low]
    rfl
  refine ⟨{ p with totalLen := c.len, limitLen := 0 }, ?_, rfl, ?_⟩
  · simp [startPes, fields]
  · change (c.len : Int) ≠ 0
    omega

end Parser

theorem continuePes_unlimited (p : SectionParser) (c : Call) (unlimited : p.limitLen = 0) :
    continuePes p c = some (p, ⟨0, none⟩) := by
  simp [continuePes, unlimited]

-- what a section_preproc call comes to, whatever lies behind the packet
structure Settled (result : Option (SectionParser × Return)) (limitLen : Int) (idle : Prop)
    (handed : Option (List UInt8)) : Prop where
  defined : ∃ q r, result = some (q, r) ∧ q.limitLen = limitLen ∧ (q.totalLen = 0 ↔ idle) ∧
    match handed with
    | none => r.secLen = -1 ∨ r.secLen = 0
    | some bytes => 3 ≤ bytes.length ∧ bytes.length < 65536 ∧
        ∃ rest, r = ⟨bytes.length, some (ofBytes bytes ++ rest)⟩

-- the same call made behind other packets, and its outcome
def SettledCalls (env : Environment σ) (state : Ts σ) (packet : TsPacket) (head : TsHeader)
    (limitLen : Int) (idle : Prop) (handed : Option (List UInt8)) : Prop :=
  ∀ p c behind, c.pkt = ofBytes (packet.payload head) ++ behind →
    (packet.payload head).length ≤ c.len →
    c.payloadUnitStartIndicator = head.payloadUnitStartIndicator →
    c.psiOrPes = psiOrPes env state.environment head.pid →
    p.limitLen = (state.sec head.pid).limitLen →
    (p.totalLen = 0 ↔ (state.sec head.pid).totalLen = 0) →
    Settled (sectionPreproc p c) limitLen idle handed

theorem unbuffered_settled (env : Environment σ) (state : Ts σ) (packet : TsPacket)
    (head : TsHeader) (unbuffered : Unbuffered env state packet head) :
    ∃ limitLen idle handed, SettledCalls env state packet head limitLen idle handed ∧
      (¬StartsSection env state head → handed = none) ∧
      ∀ bytes, handed = some bytes → ∀ behind,
        env.filterProc state.environment head.pid (ofBytes bytes ++ behind) bytes.length =
          env.filterProc state.environment head.pid (ofBytes bytes) bytes.length := by
  unfold Unbuffered at unbuffered
  split at unbuffered
  · rename_i kind start
    refine ⟨(firstSection (packet.payload head)).length, False,
      some (firstSection (packet.payload head)), ?_, fun other => absurd ⟨kind, start⟩ other, ?_⟩
    · intro p c behind pkt long indicator psi limit idle
      rcases startPsi_inside { p with cc := c.continuityCounter } c _ behind pkt long
        unbuffered.inside with ⟨q, rest, result, limitLen, nonzero⟩
      have size := firstSection_length _ unbuffered.inside
      have bounds := sectionSize_bounds
        ((packet.payload head).drop (1 + ((packet.payload head).getD 0 0).toNat))
      refine ⟨q, _, ?_, limitLen, iff_of_false nonzero id, by omega, by omega, rest, rfl⟩
      simpa [sectionPreproc, indicator, start, psi, kind] using result
    · rintro bytes ⟨rfl⟩
      exact unbuffered.filtered
  · rename_i kind start
    refine ⟨(state.sec head.pid).limitLen, True, none, ?_, fun _ => rfl, by simp⟩
    intro p c behind pkt long indicator psi limit idle
    have stopped := idle.mpr unbuffered
    refine ⟨p, stillBuffering, ?_, limit, iff_of_true stopped trivial, Or.inl rfl⟩
    simpa [sectionPreproc, indicator, start, psi, kind] using continuePsi_idle p c stopped
  · rename_i kind start
    rcases unbuffered with ⟨enough, high, low⟩
    refine ⟨0, False, none, ?_, fun _ => rfl, by simp⟩
    intro p c behind pkt long indicator psi limit idle
    rcases startPes_unlimited { p with cc := c.continuityCounter } c _ behind pkt long enough high
      low with ⟨q, result, limitLen, nonzero⟩
    refine ⟨q, ⟨0, none⟩, ?_, limitLen, iff_of_false nonzero id, Or.inr rfl⟩
    simpa [sectionPreproc, indicator, start, psi, kind] using result
  · rename_i kind start
    refine ⟨(state.sec head.pid).limitLen, (state.sec head.pid).totalLen = 0, none, ?_, fun _ => rfl, by simp⟩
    intro p c behind pkt long indicator psi limit idle
    refine ⟨p, ⟨0, none⟩, ?_, limit, idle, Or.inr rfl⟩
    simpa [sectionPreproc, indicator, start, psi, kind] using
      continuePes_unlimited p c (limit.trans unbuffered)

theorem deliver_settled (env : Environment σ) (left right : Ts σ) (pid : Pid)
    (related : Related left right) (result result' : Option (SectionParser × Return))
    (limitLen : Int) (idle : Prop) (handed : Option (List UInt8))
    (filtered : ∀ bytes, handed = some bytes → ∀ behind,
      env.filterProc left.environment pid (ofBytes bytes ++ behind) bytes.length =
        env.filterProc left.environment pid (ofBytes bytes) bytes.length)
    (settled : Settled result limitLen idle handed)
    (settled' : Settled result' limitLen idle handed) :
    Option.Rel Related
      (result.bind fun (p, r) =>
        deliver env { left with sec := Function.update left.sec pid p } pid r)
      (result'.bind fun (p, r) =>
        deliver env { right with sec := Function.update right.sec pid p } pid r) := by
  rcases settled.defined with ⟨q, r, rfl, limit, zero, hands⟩
  rcases settled'.defined with ⟨q', r', rfl, limit', zero', hands'⟩
  have limits : ∀ other, (Function.update left.sec pid q other).limitLen =
      (Function.update right.sec pid q' other).limitLen := by
    intro other
    by_cases same : other = pid
    · subst same
      simp [limit, limit']
    · simp [same, related.limitLen]
  have idles : ∀ other, (Function.update left.sec pid q other).totalLen = 0 ↔
      (Function.update right.sec pid q' other).totalLen = 0 := by
    intro other
    by_cases same : other = pid
    · subst same
      simp [zero, zero']
    · simp [same, related.idle]
  cases handed with
  | none =>
    simp only [Option.bind_some, deliver, if_pos hands, if_pos hands']
    exact Option.Rel.some ⟨related.environment, related.delivered, related.pcr, limits, idles⟩
  | some bytes =>
    rcases hands with ⟨long, short, rest, rfl⟩
    rcases hands' with ⟨-, -, rest', rfl⟩
    have proper : ¬((bytes.length : Int) = -1 ∨ (bytes.length : Int) = 0) := by omega
    have filterProc := filtered bytes rfl
    simp only [Option.bind_some, deliver, if_neg proper, ← related.environment, filterProc,
      toUint16_of_small _ short, Option.bind_eq_bind]
    cases env.filterProc left.environment pid (ofBytes bytes) bytes.length with
    | none => exact Option.Rel.none
    | some environment =>
      apply Option.Rel.some
      refine ⟨rfl, ?_, ?_, limits, idles⟩
      · simp [related.delivered]
      · intro other
        by_cases same : other = pid
        · subst same
          simp [related.pcr]
        · simp [same, related.pcr]

theorem packetCall_pkt (env : Environment σ) (state : Ts σ) (packet : TsPacket) (behind : Block)
    (len : UInt8) (head : TsHeader) :
    ∃ rest, (packetCall env state (ofBytes packet.bytes ++ behind) len head).pkt =
      ofBytes (packet.payload head) ++ rest := by
  refine ⟨behind.drop (head.payload - (ofBytes packet.bytes).length), ?_⟩
  rw [packetCall, List.drop_append, ofBytes_drop, TsPacket.payload]

theorem packetCall_len (env : Environment σ) (state : Ts σ) (packet : TsPacket) (data : Block)
    (size : Nat) (enough : tsPacketSize ≤ size) (small : size < 256) (head : TsHeader) :
    (packet.payload head).length ≤ (packetCall env state data (UInt8.ofNat size) head).len := by
  simp only [TsPacket.payload, List.length_drop, packet.sized, packetCall]
  by_cases inside : head.payload < tsPacketSize
  · have below : (UInt8.ofNat head.payload).toNat = head.payload := by
      simp [tsPacketSize] at *
      omega
    have whole : (UInt8.ofNat size).toNat = size := by
      simp
      omega
    rw [UInt8.toNat_sub_of_le _ _ (by rw [UInt8.le_iff_toNat_le, below, whole]; omega), below, whole]
    omega
  · omega

theorem counted_related (left right : Ts σ) (related : Related left right) (pid : Pid)
    (dev dev' : PidOps) (pcr : dev.pcr = dev'.pcr) :
    Related (left.count pid dev) (right.count pid dev') := by
  refine ⟨related.environment, related.delivered, ?_, related.limitLen, related.idle⟩
  intro other
  by_cases same : other = pid
  · subst same
    simp [Ts.count, pcr]
  · simp [Ts.count, same, related.pcr]

section Packet

variable (env : Environment σ) (left right : Ts σ) (packet : TsPacket) (head : TsHeader)

theorem procSection_related (related : Related left right)
    (unbuffered : Unbuffered env left packet head) (size size' : Nat)
    (enough : tsPacketSize ≤ size) (small : size < 256) (enough' : tsPacketSize ≤ size')
    (small' : size' < 256) (behind behind' : Block) :
    Option.Rel Related
      (procSection env left (ofBytes packet.bytes ++ behind) (UInt8.ofNat size) head)
      (procSection env right (ofBytes packet.bytes ++ behind') (UInt8.ofNat size') head) := by
  rcases unbuffered_settled env left packet head unbuffered with
    ⟨limitLen, idle, handed, calls, -, filtered⟩
  rcases packetCall_pkt env left packet behind (UInt8.ofNat size) head with ⟨rest, pkt⟩
  rcases packetCall_pkt env right packet behind' (UInt8.ofNat size') head with ⟨rest', pkt'⟩
  apply deliver_settled env left right head.pid related _ _ limitLen idle handed filtered
  · exact calls _ _ rest pkt (packetCall_len env left packet _ size enough small head) rfl rfl rfl
      Iff.rfl
  · apply calls _ _ rest' pkt' (packetCall_len env right packet _ size' enough' small' head) rfl
    · simp only [packetCall, related.environment]
    · exact (related.limitLen head.pid).symm
    · exact (related.idle head.pid).symm

theorem procSection_silent (unbuffered : Unbuffered env left packet head)
    (silent : ¬StartsSection env left head) :
    ∃ next, procSection env left (ofBytes packet.bytes) (UInt8.ofNat tsPacketSize) head =
        some next ∧ next.delivered = left.delivered := by
  rcases unbuffered_settled env left packet head unbuffered with
    ⟨limitLen, idle, handed, calls, nothing, -⟩
  rw [nothing silent] at calls
  rcases packetCall_pkt env left packet [] (UInt8.ofNat tsPacketSize) head with ⟨rest, pkt⟩
  rw [List.append_nil] at pkt
  rcases (calls (left.sec head.pid) _ rest pkt (packetCall_len env left packet _ tsPacketSize
    (le_refl _) (by decide) head) rfl rfl rfl Iff.rfl).defined with ⟨q, r, result, -, -, none⟩
  refine ⟨{ left with sec := Function.update left.sec head.pid q }, ?_, rfl⟩
  rw [procSection, result]
  exact if_pos none

/-- One packet, wherever it lies, takes related states to related states. -/
theorem procStep_related (related : Related left right) (unmixed : Unmixed env left packet)
    (size size' : Nat) (enough : tsPacketSize ≤ size) (small : size < 256)
    (enough' : tsPacketSize ≤ size') (small' : size' < 256) (behind behind' : Block) :
    Option.Rel Related (procStep env left (ofBytes packet.bytes ++ behind) size)
      (procStep env right (ofBytes packet.bytes ++ behind') size') := by
  unfold Unmixed at unmixed
  cases found : readHeader (ofBytes packet.bytes) with
  | none => simp [found] at unmixed
  | some header =>
    have here := stable_readHeader _ behind _ found
    have there := stable_readHeader _ behind' _ found
    cases header with
    | none =>
      rw [procStep_unsynchronised env left _ _ here, procStep_unsynchronised env right _ _ there]
      apply Option.Rel.some
      exact ⟨related.environment, related.delivered, related.pcr, related.limitLen, related.idle⟩
    | some head =>
      simp only [found] at unmixed
      have devs := countPacket_related (left.pidDev head.pid) (right.pidDev head.pid)
        (UInt8.ofNat size) (UInt8.ofNat size') head (related.pcr head.pid)
      rw [procStep_header env left _ _ head here, procStep_header env right _ _ head there]
      generalize countPacket (left.pidDev head.pid) (UInt8.ofNat size) head = dev at devs ⊢
      generalize countPacket (right.pidDev head.pid) (UInt8.ofNat size') head = dev' at devs ⊢
      cases devs with
      | none => exact Option.Rel.none
      | some pcr =>
        have counted := counted_related left right related head.pid _ _ pcr
        simp only [Option.bind_some, ← related.environment]
        by_cases stops : Stops env left.environment head
        · rw [if_pos stops, if_pos stops]
          exact Option.Rel.some counted
        · rw [if_neg stops, if_neg stops]
          exact procSection_related env _ _ packet head counted (unmixed.resolve_left stops) size
            size' enough small enough' small' behind behind'

theorem countPacket_defined (dev : PidOps) (pktLen : UInt8)
    (moved : ∀ pcr, head.pcr = some pcr → pcr ≠ dev.pcr) :
    ∃ next, countPacket dev pktLen head = some next := by
  unfold countPacket
  cases clock : head.pcr with
  | none => exact ⟨_, rfl⟩
  | some pcr =>
    have apart : ¬pcr - dev.pcr = 0 := by
      intro zero
      have same := UInt64.sub_add_cancel pcr dev.pcr
      rw [zero, UInt64.zero_add] at same
      exact moved pcr clock same.symm
    simp [calcBitrate, apart]

theorem procStep_silent (unmixed : Unmixed env left packet) (silent : Silent env left packet) :
    ∃ next, procStep env left (ofBytes packet.bytes) tsPacketSize = some next ∧
      next.delivered = left.delivered := by
  unfold Unmixed at unmixed
  unfold Silent at silent
  cases found : readHeader (ofBytes packet.bytes) with
  | none => simp [found] at unmixed
  | some header =>
    cases header with
    | none => exact ⟨_, procStep_unsynchronised env left _ _ found, rfl⟩
    | some head =>
      simp only [found] at unmixed silent
      rcases silent with ⟨quiet, moved⟩
      rcases countPacket_defined head (left.pidDev head.pid) (UInt8.ofNat tsPacketSize) moved with
        ⟨dev, counted⟩
      rw [procStep_header env left _ _ head found, counted, Option.bind_some]
      by_cases stops : Stops env left.environment head
      · rw [if_pos stops]
        exact ⟨_, rfl, rfl⟩
      · rw [if_neg stops]
        exact procSection_silent env (left.count head.pid dev) packet head
          (unmixed.resolve_left stops) (quiet.resolve_left stops)

end Packet

theorem plain_cons (packet : TsPacket) (rest : List TsPacket) :
    plain (packet :: rest) = packet.bytes ++ plain rest := rfl

theorem container_size (container : Container) :
    tsPacketSize ≤ container.size ∧ container.size < 256 := by
  cases container <;> decide

theorem presented_preceded (frame : Framed .dvhsPreceded) (rest : List (Framed .dvhsPreceded)) :
    presented (frame :: rest) = frame.packet.bytes ++ rest.flatMap Framed.bytes := by
  have sized : frame.extra.length = 4 := frame.sized
  simp only [presented, List.flatMap_cons, Framed.bytes, Container.lead]
  rw [List.append_assoc, List.drop_left' sized]

theorem presented_followed {container : Container} (followed : container ≠ .dvhsPreceded)
    (frame : Framed container) (rest : List (Framed container)) :
    presented (frame :: rest) = frame.packet.bytes ++ (frame.extra ++ presented rest) := by
  have lead : container.lead = 0 := by
    cases container <;> first | rfl | exact absurd rfl followed
  have bytes : frame.bytes = frame.packet.bytes ++ frame.extra := by
    cases container <;> first | rfl | exact absurd rfl followed
  simp [presented, lead, bytes]

-- the first packet of a container stream, what stands behind it, and where the next one begins
theorem presented_cons {container : Container} (frame : Framed container)
    (rest : List (Framed container)) :
    ∃ behind, presented (frame :: rest) = frame.packet.bytes ++ behind ∧
      (presented (frame :: rest)).drop container.size = presented rest ∧
      (container = .dvhsPreceded ∧ rest = [] ∨
        container.size ≤ (presented (frame :: rest)).length) := by
  have length := frame.packet.sized
  by_cases preceded : container = .dvhsPreceded
  · subst preceded
    have whole := presented_preceded frame rest
    refine ⟨_, whole, ?_, ?_⟩
    · rw [whole, Container.size, ← List.drop_drop, List.drop_left' length]
      rfl
    · cases rest with
      | nil => exact Or.inl ⟨rfl, rfl⟩
      | cons next rest =>
        right
        have size : next.extra.length = 4 := next.sized
        rw [whole, List.length_append, List.flatMap_cons, List.length_append, Framed.bytes,
          List.length_append, length, Container.size, Container.extra, size]
        omega
  · have whole := presented_followed preceded frame rest
    refine ⟨_, whole, ?_, Or.inr ?_⟩
    · rw [whole, Container.size, ← List.drop_drop, List.drop_left' length,
        List.drop_left' frame.sized]
    · rw [whole, List.length_append, List.length_append, length, frame.sized, Container.size]
      omega

theorem present_nil (env : Environment σ) (container : Container) (state : Ts σ) :
    present env container.size state (presented ([] : List (Framed container))) = some state := by
  have positive : 0 < container.size := by cases container <;> decide
  rw [present, packets_short _ _ _ _ _ (by simpa [presented] using positive)]
  rfl

theorem present_next (env : Environment σ) (tsPktlen : Nat) (positive : 0 < tsPktlen)
    (state : Ts σ) (bytes : List UInt8) (enough : tsPktlen ≤ bytes.length) :
    present env tsPktlen state bytes =
      (procStep env state (ofBytes bytes) tsPktlen).bind fun next =>
        present env tsPktlen next (bytes.drop tsPktlen) := by
  rw [present, packets_next _ _ positive _ _ _ enough, Option.map_bind]
  congr 1
  funext next
  rw [Function.comp_apply, present, ofBytes_drop, List.length_drop]

theorem present_plain_nil (env : Environment σ) (state : Ts σ) :
    present env tsPacketSize state (plain []) = some state :=
  present_nil env .ts state

theorem present_plain (env : Environment σ) (state : Ts σ) (packet : TsPacket)
    (rest : List TsPacket) :
    present env tsPacketSize state (plain (packet :: rest)) =
      (procStep env state (ofBytes (plain (packet :: rest))) tsPacketSize).bind fun next =>
        present env tsPacketSize next (plain rest) := by
  rw [present_next env tsPacketSize (by decide) _ _ (by simp [plain_cons, packet.sized]),
    plain_cons, List.drop_left' packet.sized]

/-- The runs over the two presentations stay related up to their end. -/
theorem present_related (env : Environment σ) (container : Container) (left right : Ts σ)
    (related : Related left right) (frames : List (Framed container))
    (unmixed : UnmixedRun env container left (frames.map Framed.packet)) :
    Option.Rel (fun first second => first.delivered = second.delivered)
      (present env tsPacketSize left (plain (frames.map Framed.packet)))
      (present env container.size right (presented frames)) := by
  induction frames generalizing left right with
  | nil =>
    rw [present_nil env container right, List.map_nil, present_plain_nil]
    exact Option.Rel.some related.delivered
  | cons frame rest ih =>
    rcases unmixed with ⟨here, last, later⟩
    rcases presented_cons frame rest with ⟨behind, whole, dropped, enough⟩
    rw [List.map_cons, present_plain]
    rcases enough with ⟨preceded, ended⟩ | enough
    · subst ended
      subst preceded
      rcases procStep_silent env left frame.packet here (last rfl rfl) with
        ⟨next, result, delivered⟩
      have short : (presented [frame]).length < Container.dvhsPreceded.size := by
        rw [presented_preceded, List.flatMap_nil, List.append_nil, frame.packet.sized]
        decide
      have left' : present env tsPacketSize left (plain [frame.packet]) = some next := by
        rw [present_plain, plain_cons, show plain [] = [] from rfl, List.append_nil, result]
        exact present_plain_nil env next
      have right' : present env Container.dvhsPreceded.size right (presented [frame]) =
          some right := by
        rw [present, packets_short _ _ _ _ _ short]
        rfl
      rw [List.map_nil, ← present_plain, left', right']
      exact Option.Rel.some (delivered.trans related.delivered)
    · have sizes := container_size container
      rw [present_next env container.size (by have := sizes.1; unfold tsPacketSize at this; omega)
        right _ enough, dropped, whole]
      have step := procStep_related env left right frame.packet related here tsPacketSize
        container.size (le_refl _) (by decide) sizes.1 sizes.2
        (ofBytes (plain (rest.map Framed.packet))) (ofBytes behind)
      rw [← ofBytes_append, ← ofBytes_append, ← plain_cons] at step
      generalize outcome : procStep env left
        (ofBytes (plain (frame.packet :: rest.map Framed.packet))) tsPacketSize = first at step ⊢
      generalize procStep env right (ofBytes (frame.packet.bytes ++ behind)) container.size =
        second at step ⊢
      cases step with
      | none => exact Option.Rel.none
      | @some next next' stepped => exact ih next next' stepped (later next outcome)

-- what filter_proc has been given in the end
def filterCalls (env : Environment σ) (tsPktlen : Nat) (state : Ts σ) (bytes : List UInt8) :
    Option (List Delivery) :=
  (present env tsPktlen state bytes).map Ts.delivered

-- a downstream with no PMT, no private sections and no stream, whose parsers keep nothing
def bareEnvironment : Environment Unit where
  checkPmtPid _ _ := false
  checkSectionPid _ _ := false
  checkEsPid _ _ := false
  filterProc state _ _ _ := some state
  malloc _ := true

-- a packet of PID 0 without adaptation field, its payload filled up to the end of the packet
def patPacket (start : Bool) (payload : List UInt8) (fill : UInt8)
    (fits : payload.length ≤ 184) : TsPacket where
  bytes := [0x47, if start then 0x40 else 0x00, 0x00, 0x10] ++ payload ++
    List.replicate (184 - payload.length) fill
  sized := by
    simp [tsPacketSize]
    omega

def withParity (packet : TsPacket) : Framed .fec :=
  ⟨packet, List.replicate 16 0xEE, rfl⟩

end TsAnalyze.Demux
