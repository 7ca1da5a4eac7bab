import TsAnalyze.Demux.Container
import TsAnalyze.Demux.Reassembly

set_option autoImplicit false

namespace TsAnalyze.Demux

open Memory Keyed Input

variable {σ : Type}

/-- A payload with the section whose last byte it carries. -/
abbrev Marked := Payload × Option (List UInt8)

def Transmission.marked (sent : Transmission) : List Marked :=
  sent.payloads.zip (List.replicate (sent.payloads.length - 1) none ++ [some sent.psi.bytes])

-- what section_preproc returns for it
def outcome : Option (List UInt8) → Int × Option Block
  | none => (-1, none)
  | some bytes => ((bytes.length : Int), some (ofBytes bytes))

theorem Transmission.payloads_pos (sent : Transmission) : 0 < sent.payloads.length := by
  have carried := sent.carried
  cases found : sent.payloads with
  | nil =>
    rw [found] at carried
    exact carried.elim
  | cons first rest => exact Nat.succ_pos _

theorem Transmission.marked_payloads (sent : Transmission) :
    sent.marked.map Prod.fst = sent.payloads := by
  have some_payload := sent.payloads_pos
  refine List.map_fst_zip ?_
  simp
  omega

theorem Transmission.marked_outcomes (sent : Transmission) :
    sent.marked.map (fun marked => outcome marked.2) = sent.expected := by
  have some_payload := sent.payloads_pos
  have whole : 3 + sectionLength sent.psi.bytes = sent.psi.bytes.length := by
    rw [sent.psi.framed, sectionSize, Nat.add_comm]
  have second : sent.marked.map Prod.snd =
      List.replicate (sent.payloads.length - 1) none ++ [some sent.psi.bytes] := by
    refine List.map_snd_zip ?_
    simp
    omega
  calc sent.marked.map (fun marked => outcome marked.2)
      = (sent.marked.map Prod.snd).map outcome := by rw [List.map_map]; rfl
    _ = sent.expected := by
      rw [second, Transmission.expected, whole, List.map_append, List.map_replicate]
      rfl

/-- A packet of a PSI PID, without a clock, that carries this payload. -/
structure Carrying (packet : TsPacket) (pid : Pid) (payload : Payload) : Prop where
  header : ∃ head, readHeader (ofBytes packet.bytes) = some (some head) ∧
    head.pid = pid ∧ head.pcr = none ∧ noDataByte head = false ∧ head.payload ≤ tsPacketSize ∧
    head.payloadUnitStartIndicator = payload.start ∧
    head.continuityCounter = payload.continuityCounter ∧
    packet.payload head = payload.bytes ∧ payload.behind = []

/-- filter_proc looks at nothing behind a section, and memory does not run out. -/
structure Environment.Steady (env : Environment σ) : Prop where
  filtered : ∀ environment pid bytes behind after,
    env.filterProc environment pid (ofBytes bytes) bytes.length = some after →
    env.filterProc environment pid (ofBytes bytes ++ behind) bytes.length = some after
  available : ∀ number, env.malloc number = true

/-- What a packet of a stream is for: more of a section, or the section itself to filter_proc. -/
def sectionStep (env : Environment σ) (environment : σ) (event : Pid × Marked) : Option σ :=
  if psiOrPes env environment event.1 = .psi ∧ event.1.val ≠ nullPid then
    match event.2.2 with
    | none => some environment
    | some bytes => env.filterProc environment event.1 (ofBytes bytes) bytes.length
  else none

def Bounded (left : List Marked) : Prop :=
  ∀ marked ∈ left, ∀ bytes, marked.2 = some bytes → 3 ≤ bytes.length ∧ bytes.length ≤ 4098

theorem Transmission.marked_bounded (sent : Transmission) : Bounded sent.marked := by
  intro marked inside bytes section_
  have second := (List.of_mem_zip (a := marked.1) (b := marked.2) inside).2
  rw [section_] at second
  obtain rfl : bytes = sent.psi.bytes := by simpa using second
  rw [sent.psi.framed]
  exact sectionSize_bounds _

-- what the parser of a PID is going to return for the packets that are left
def Pending (p : SectionParser) (left : List Marked) : Prop :=
  ∃ q returns, run preproc p (left.map Prod.fst) = some (q, returns) ∧
    returns.map Return.observe = left.map fun marked => outcome marked.2

theorem pending_transmissions (p : SectionParser) (sent : List Transmission) :
    Pending p (sent.flatMap Transmission.marked) := by
  obtain ⟨q, returns, ran, observed⟩ := preproc_transmissions p sent
  refine ⟨q, returns, ?_, ?_⟩
  · rw [List.map_flatMap]
    simpa only [Transmission.marked_payloads] using ran
  · rw [observed, List.map_flatMap]
    simp only [Transmission.marked_outcomes]

theorem pending_next {p : SectionParser} {marked : Marked} {left : List Marked}
    (pending : Pending p (marked :: left)) :
    ∃ next r, preproc p marked.1 = some (next, r) ∧ r.observe = outcome marked.2 ∧
      Pending next left := by
  obtain ⟨q, returns, ran, observed⟩ := pending
  rw [List.map_cons] at ran
  obtain ⟨next, r, later, first, rest, rfl⟩ := run_cons_inv _ _ _ _ _ _ ran
  rw [List.map_cons, List.map_cons] at observed
  exact ⟨next, r, first, (List.cons.inj observed).1, q, later, rest, (List.cons.inj observed).2⟩

theorem carried_call (env : Environment σ) (steady : env.Steady) (state : Ts σ)
    {packet : TsPacket} {pid : Pid} {payload : Payload} {head : TsHeader}
    (same : head.pid = pid) (inside : head.payload ≤ tsPacketSize)
    (start : head.payloadUnitStartIndicator = payload.start)
    (counter : head.continuityCounter = payload.continuityCounter)
    (carried : packet.payload head = payload.bytes) (alone : payload.behind = [])
    (psi : psiOrPes env state.environment pid = .psi) :
    packetCall env state (ofBytes packet.bytes) (UInt8.ofNat tsPacketSize) head = payload.call := by
  have size : (UInt8.ofNat tsPacketSize - UInt8.ofNat head.payload).toNat = payload.bytes.length := by
    have size := congrArg List.length carried
    rw [TsPacket.payload, List.length_drop, packet.sized] at size
    rw [tsPacketSize] at inside size ⊢
    have below : (UInt8.ofNat head.payload).toNat = head.payload := by
      simp
      omega
    rw [UInt8.toNat_sub_of_le _ _ (by rw [UInt8.le_iff_toNat_le, below]; simp; omega), below, ← size]
    rfl
  rw [packetCall, Payload.call, size, start, counter, same, psi, steady.available, ofBytes_drop,
    ← TsPacket.payload, carried, alone, List.append_nil]

-- the memory of a return covers the section, with what lies behind it
theorem observed_section {r : Return} {bytes : List UInt8}
    (observed : r.observe = outcome (some bytes)) :
    r.secLen = bytes.length ∧ ∃ behind, r.buffering = some (ofBytes bytes ++ behind) := by
  obtain ⟨length, memory⟩ := Prod.mk.inj observed
  refine ⟨length, ?_⟩
  obtain ⟨cells, buffered, taken⟩ := Option.map_eq_some_iff.mp memory
  refine ⟨cells.drop bytes.length, ?_⟩
  rw [length, Int.toNat_natCast] at taken
  rw [buffered, ← taken, List.take_append_drop]

-- what filter_proc has been given of a stream
def completed (stream : List (Pid × Marked)) : List Delivery :=
  stream.filterMap fun event => event.2.2.map fun bytes => ⟨event.1, ofBytes bytes, bytes.length⟩

theorem deliver_marked (env : Environment σ) (steady : env.Steady) (state : Ts σ) {pid : Pid}
    {r : Return} {marked : Marked} {next : σ} (observed : r.observe = outcome marked.2)
    (bounded : Bounded [marked])
    (stepped : sectionStep env state.environment (pid, marked) = some next) :
    ∃ after, deliver env state pid r = some after ∧ after.environment = next ∧
      after.sec = state.sec ∧ after.delivered = state.delivered ++ completed [(pid, marked)] := by
  obtain ⟨payload, mark⟩ := marked
  rw [sectionStep] at stepped
  split at stepped
  · cases mark with
    | none =>
      obtain rfl := Option.some.inj stepped
      have more : r.secLen = -1 ∨ r.secLen = 0 := Or.inl (congrArg Prod.fst observed)
      exact ⟨state, if_pos more, rfl, rfl, (List.append_nil _).symm⟩
    | some bytes =>
      obtain ⟨length, behind, buffered⟩ := observed_section observed
      have sized := bounded _ (List.mem_singleton_self _) bytes rfl
      have proper : ¬(r.secLen = -1 ∨ r.secLen = 0) := by omega
      have small : toUint16 r.secLen = bytes.length := by
        rw [length]
        exact toUint16_of_small _ (by omega)
      have given := steady.filtered _ _ _ behind _ stepped
      have delivers : deliver env state pid r = some { state with
          pidDev := Function.update state.pidDev pid
            { state.pidDev pid with sectionsIn := (state.pidDev pid).sectionsIn + 1 }
          environment := next
          delivered := state.delivered ++
            [⟨pid, (ofBytes bytes ++ behind).take bytes.length, bytes.length⟩] } := by
        rw [deliver, if_neg proper, buffered, small]
        simp only [Option.bind_eq_bind, Option.bind_some, given]
        rfl
      refine ⟨_, delivers, rfl, rfl, ?_⟩
      simp [completed]
  · cases stepped

/-- The packets that are left take every parser to the sections that are marked on them. -/
structure Receiving (state : Ts σ) (left : List (Pid × Marked)) : Prop where
  pending : ∀ pid, Pending (state.sec pid) (project pid left)
  bounded : ∀ event ∈ left, Bounded [event.2]

theorem receive_packet (env : Environment σ) (steady : env.Steady) {state : Ts σ}
    {event : Pid × Marked} {left : List (Pid × Marked)} {next : σ}
    (receiving : Receiving state (event :: left)) {packet : TsPacket}
    (carrying : Carrying packet event.1 event.2.1)
    (stepped : sectionStep env state.environment event = some next) :
    ∃ after, procStep env state (ofBytes packet.bytes) tsPacketSize = some after ∧
      after.environment = next ∧ after.delivered = state.delivered ++ completed [event] ∧
      Receiving after left := by
  obtain ⟨pid, marked⟩ := event
  obtain ⟨head, header, rfl, noClock, full, inside, start, counter, carried, alone⟩ :=
    carrying.header
  have mine := receiving.pending head.pid
  rw [project_cons_same] at mine
  obtain ⟨q, r, parsed, observed, rest⟩ := pending_next mine
  have psi : psiOrPes env state.environment head.pid = .psi ∧ head.pid.val ≠ nullPid := by
    rw [sectionStep] at stepped
    split at stepped
    · assumption
    · cases stepped
  have runs : ¬Stops env state.environment head := by
    rw [Stops, unreferenced, psi.1, full]
    simp [psi.2]
  obtain ⟨dev, counted⟩ : ∃ dev, countPacket (state.pidDev head.pid) (UInt8.ofNat tsPacketSize) head =
      some dev := by
    rw [countPacket, noClock]
    exact ⟨_, rfl⟩
  have call := carried_call env steady (state.count head.pid dev) rfl inside start counter carried
    alone psi.1
  obtain ⟨after, delivers, environment, sec, delivered⟩ := deliver_marked env steady
    { state.count head.pid dev with sec := Function.update state.sec head.pid q } observed
    (receiving.bounded _ List.mem_cons_self) stepped
  refine ⟨after, ?_, environment, delivered, fun pid => ?_, fun event also => ?_⟩
  · rw [procStep_header env state _ _ head header, counted, Option.bind_some, if_neg runs,
      procSection, call]
    exact Option.bind_eq_some_iff.mpr ⟨(q, r), parsed, delivers⟩
  · rw [sec]
    dsimp only
    by_cases this : pid = head.pid
    · subst this
      rw [Function.update_self]
      exact rest
    · have other := receiving.pending pid
      rw [project_cons_other _ _ _ _ (Ne.symm this)] at other
      rwa [Function.update_of_ne this]
  · exact receiving.bounded event (List.mem_cons_of_mem _ also)

-- ts_proc for a packet after the other
def procPackets (env : Environment σ) (state : Ts σ) (packets : List TsPacket) : Option (Ts σ) :=
  packets.foldlM (fun state packet => procStep env state (ofBytes packet.bytes) tsPacketSize) state

theorem receive_stream (env : Environment σ) (steady : env.Steady) (stream : List (Pid × Marked))
    {packets : List TsPacket} (state : Ts σ) {final : σ} (receiving : Receiving state stream)
    (carrying : List.Forall₂ (fun packet event => Carrying packet event.1 event.2.1) packets stream)
    (stepped : stream.foldlM (sectionStep env) state.environment = some final) :
    ∃ after, procPackets env state packets = some after ∧ after.environment = final ∧
      after.delivered = state.delivered ++ completed stream := by
  induction stream generalizing packets state with
  | nil =>
    cases carrying
    exact ⟨state, rfl, Option.some.inj stepped, (List.append_nil _).symm⟩
  | cons event rest ih =>
    cases carrying with
    | cons first later =>
      rw [List.foldlM_cons] at stepped
      obtain ⟨next, here, there⟩ := Option.bind_eq_some_iff.mp stepped
      obtain ⟨middle, taken, environment, delivered, remaining⟩ :=
        receive_packet env steady receiving first here
      rw [← environment] at there
      obtain ⟨after, ran, final, all⟩ := ih middle remaining later there
      refine ⟨after, ?_, final, ?_⟩
      · rw [procPackets, List.foldlM_cons, taken]
        exact ran
      · have parts : completed (event :: rest) = completed [event] ++ completed rest :=
          List.filterMap_append (l := [event])
        rw [all, delivered, List.append_assoc, parts]

end TsAnalyze.Demux
