import TsAnalyze.Tables.Announced

set_option autoImplicit false

namespace TsAnalyze.Tables

open Memory Demux Filters

variable {D P O : Type} {ops : DescriptorOps D} {outside : Outside P O}

/-- A PAT, and the PMTs of programs that it announces. -/
structure Broadcast (ops : DescriptorOps D) where
  entries : List ProgramNode
  ext : UInt16
  version : UInt8
  current : UInt8
  cc : Nat
  slots : List (Slot ops)
  announcing : Announcing entries
  fits : (encodePat entries).length + 9 ≤ 0x3FD
  -- 30 and 31 are read as the version of no table
  early : version.toNat % 32 < 30
  apart : (entries.map ProgramNode.programMapPid).Nodup
  listed : ∀ announced ∈ sentIn slots, announced.entry ∈ entries
  separate : OwnPids (sentIn slots)
  unreserved : ∀ announced ∈ sentIn slots, announced.pid ∉ tableFilters.map TableFilter.pid

namespace Broadcast

variable (broadcast : Broadcast ops)

def envelope : Envelope :=
  Generator.envelope 0 broadcast.ext broadcast.version broadcast.current
    (encodePat broadcast.entries)

def pat : Emitted where
  pid := 0
  cc := broadcast.cc
  psi := Generator.psi 0 broadcast.ext broadcast.version broadcast.current 0 0
    (encodePat broadcast.entries) (by have := broadcast.fits; omega)

def writes : List Write :=
  .emitSection broadcast.pat :: broadcast.slots.map Slot.write

theorem pat_bytes :
    broadcast.pat.psi.bytes = broadcast.envelope.encode (encodePat broadcast.entries) :=
  Generator.secBuild_envelope _ _ _ _ _ (by have := broadcast.fits; omega)

-- the entry of a program, and nothing else on its PID
theorem split_at (announced : Announced ops) (sent : announced ∈ sentIn broadcast.slots) :
    ∃ front back, broadcast.entries = front ++ announced.entry :: back ∧
      ∀ other ∈ front ++ back, announced.pid ≠ Fin.ofNat 8192 other.programMapPid := by
  obtain ⟨front, back, split⟩ := List.mem_iff_append.mp (broadcast.listed announced sent)
  refine ⟨front, back, split, fun other inside same => ?_⟩
  have apart := broadcast.apart
  have member : other ∈ broadcast.entries := by
    rw [split]
    simp only [List.mem_append, List.mem_cons] at inside ⊢
    exact inside.imp_right Or.inr
  have own : announced.pid.val = other.programMapPid := by
    rw [same]
    exact Nat.mod_eq_of_lt (broadcast.announcing.fit other member).2
  rw [split, List.map_append, List.map_cons, List.nodup_middle, List.nodup_cons,
    ← List.map_append] at apart
  apply apart.1
  rw [show announced.entry.programMapPid = other.programMapPid from own]
  exact List.mem_map_of_mem inside

variable (outside) in
theorem awaits (state : Analysis D P O) (coherent : Coherent state.pids.filters)
    (announced : Announced ops) (sent : announced ∈ sentIn broadcast.slots)
    (unused : state.pids.filters.order announced.pid = []) :
    let after := state.performAll outside (pmtRegistrations broadcast.entries)
    (after.pids.filters.order announced.pid).map entry = [pmtEntry] ∧
      after.pids.pmtBitmap announced.pid.val = true := by
  obtain ⟨front, back, split, others⟩ := broadcast.split_at announced sent
  have elsewhere (entries : List ProgramNode) (state : Analysis D P O)
      (among : ∀ other ∈ entries, other ∈ front ++ back) :
      Untouched announced.pid state.pids
        (state.performAll outside (pmtRegistrations entries)).pids := by
    refine performAll_elsewhere outside _ state announced.pid fun registration inside => ?_
    obtain ⟨other, member, rfl⟩ := List.mem_map.mp inside
    exact others other (among other member)
  have proper : announced.pid.val ≠ nitPid := by
    intro same
    apply broadcast.unreserved announced sent
    rw [Fin.ext (show announced.pid.val = (0x10 : Pid).val from same)]
    decide
  have early := elsewhere front state fun _ inside => List.mem_append_left _ inside
  have late := elsewhere back
    ((state.performAll outside (pmtRegistrations front)).perform outside (.pmt announced.pid.val))
    fun _ inside => List.mem_append_right _ inside
  have given := registerPmtOps_awaits (state.performAll outside (pmtRegistrations front)).pids
    announced.pid proper (early.order.trans unused) (performAll_coherent outside _ state coherent)
  have parts : state.performAll outside (pmtRegistrations broadcast.entries) =
      (((state.performAll outside (pmtRegistrations front)).perform outside
        (.pmt announced.pid.val)).performAll outside (pmtRegistrations back)) := by
    rw [split, pmtRegistrations, List.map_append, performAll_append]
    rfl
  rw [parts]
  exact ⟨late.order ▸ given.1, late.bit.trans given.2⟩

-- before the first packet, with no PID chosen on the command line
structure Started (state : Analysis D P O) : Prop where
  coherent : Coherent state.pids.filters
  order : ∀ pid, (state.pids.filters.order pid).map entry =
    (tableFilters.filter fun filter => filter.pid = pid).map TableFilter.entry
  pat : state.pat = { heap := Heap.empty }
  cleared : ∀ pid, state.tables (.pmt pid) = { table := { content := {} } }

theorem started_initial (psip : P) (streams : O) :
    Started (Analysis.initial (fun _ => false) psip streams : Analysis D P O) := by
  have order := init_order (fun _ => false) tableFilters (by rw [chosenFilters_none]; rfl)
    (by decide)
  have pids : (Analysis.initial (fun _ => false) psip streams : Analysis D P O).pids =
      Pids.init fun _ => false := rfl
  refine ⟨?_, ?_, rfl, fun _ => rfl⟩
  · rw [pids]
    exact order.1
  · rw [pids]
    exact order.2

variable (outside) in
theorem pat_step (detail : Bool) (state : Analysis D P O) (started : Started state) :
    ∃ (next : Analysis D P O) (table : Table Pat),
      writeStep (environment ops outside detail) state (.emitSection broadcast.pat) = some next ∧
      Coherent next.pids.filters ∧ next.pat.active = some table ∧
      table.content.h = broadcast.entries ∧
      ∀ announced ∈ sentIn broadcast.slots, Awaiting next announced.pid := by
  have early : broadcast.envelope.version < 30 := broadcast.early
  obtain ⟨after, table, parsed, registered, active, content⟩ :=
    patProc_announces broadcast.announcing broadcast.envelope broadcast.fits early state.pat
      (by rw [started.pat]; exact Heap.empty_available) (by rw [started.pat])
  have first : read8 (ofBytes (broadcast.envelope.encode (encodePat broadcast.entries))) 0 =
      some 0 := rfl
  have psi : psiOrPes (environment ops outside detail) state 0 = .psi :=
    if_pos (Or.inl (by decide))
  have fresh : after.registered.drop state.pat.registered.length =
      pmtRegistrations broadcast.entries := by
    rw [registered]
    exact List.drop_left
  have done : writeStep (environment ops outside detail) state (.emitSection broadcast.pat) =
      some (Analysis.performAll outside { state with pat := after }
        (pmtRegistrations broadcast.entries)) := by
    rw [writeStep, if_pos ⟨psi, (by decide : (0 : Pid).val ≠ nullPid)⟩, broadcast.pat_bytes]
    refine (filterProc_only state started.coherent 0 _ _ 0 (.table .pat) first
      (started.order 0)).trans ?_
    rw [call_proc _ _ _ _ _ (by decide), Analysis.tableProc, Analysis.patProc, parsed,
      Option.map_some, fresh]
  refine ⟨_, table, done, performAll_coherent outside _ _ started.coherent, ?_, ?_, ?_⟩
  · rw [← (performAll_same outside .pat _ _).pat rfl]
    exact active
  · rw [content]
    exact programsOf_distinct _ broadcast.announcing.distinct
  · intro announced sent
    have unused : state.pids.filters.order announced.pid = [] := by
      have order := started.order announced.pid
      have none : tableFilters.filter (fun filter => filter.pid = announced.pid) = [] := by
        rw [List.filter_eq_nil_iff]
        intro filter listed same
        apply broadcast.unreserved announced sent
        rw [← of_decide_eq_true same]
        exact List.mem_map_of_mem listed
      rw [none, List.map_nil, List.map_eq_nil_iff] at order
      exact order
    have awaits := broadcast.awaits outside { state with pat := after }
      started.coherent announced sent unused
    refine ⟨awaits.1, awaits.2, ?_⟩
    rw [← (performAll_same outside .pmt _ _).tables (.pmt announced.pid) rfl]
    exact started.cleared announced.pid

end Broadcast

-- handlers that keep nothing
def silent : Outside Unit Unit where
  atscPsipProc psip _ _ := some psip
  scteProc streams _ _ _ := some streams
  pesProc streams _ _ _ := some streams
  registers streams _ := streams

theorem silent_settled : silent.Settled :=
  ⟨fun _ _ => stable_pure _, fun _ _ _ => stable_pure _, fun _ _ _ => stable_pure _⟩

theorem plainOps_settled : plainOps.Settled :=
  fun _ _ => stable_pure _

-- one stream and one descriptor of 200 bytes, so that the PMT takes two packets
def longProgram (number : Nat) : Program plainOps where
  programNumber := number
  pcrPid := 0x300
  pidFits := by decide
  descriptors := [⟨0x05, List.replicate 200 7, List.length_replicate.le.trans (by decide), fun _ => rfl⟩]
  streams := [⟨0x1B, 0x300, by decide, []⟩]

def sentProgram (number : Nat) (pid : Pid) (small : number ≤ 2) : Announced plainOps where
  pid := pid
  program := longProgram number
  version := 3
  current := 1
  cc := 0
  numbered := Nat.lt_of_le_of_lt small (by decide)
  fits := (by decide +kernel : (longProgram 0).body.length + 9 ≤ 0x3FD)

-- two programs, whose PMTs come in the other order
def twoSlots : List (Slot plainOps) :=
  [.inl (sentProgram 2 0x200 (by decide)), .inr 2040, .inl (sentProgram 1 0x100 (by decide))]

theorem twoSlots_sent : sentIn twoSlots =
    [sentProgram 2 0x200 (by decide), sentProgram 1 0x100 (by decide)] :=
  rfl

theorem twoSlots_own : OwnPids (sentIn twoSlots) where
  once := by simp [twoSlots_sent, sentProgram]
  proper := by simp [twoSlots_sent, sentProgram, nullPid]
  streams := by simp [twoSlots_sent, sentProgram, longProgram]

-- a network PID before them
def twoPrograms : Broadcast plainOps where
  entries := [⟨0, 0x10⟩, ⟨1, 0x100⟩, ⟨2, 0x200⟩]
  ext := 1
  version := 0
  current := 1
  cc := 0
  slots := twoSlots
  announcing := ⟨by simp [ProgramNode.Fits], by simp, by decide⟩
  fits := by decide
  early := by decide
  apart := by decide
  listed := by simp [twoSlots_sent, Announced.entry, sentProgram, longProgram]
  separate := twoSlots_own
  unreserved := by simp [twoSlots_sent, sentProgram, tableFilters]

end TsAnalyze.Tables
