import TsAnalyze.Tables.Generator
import TsAnalyze.Tables.PatEncoding
import TsAnalyze.Tables.Selection
import TsAnalyze.Tables.Steady

set_option autoImplicit false

namespace TsAnalyze.Tables

open Memory Demux Filters

variable {D P O : Type}

section Pat

-- a PAT that says one thing of each program, and nothing that stops the loop
structure Announcing (entries : List ProgramNode) : Prop where
  fit : ∀ entry ∈ entries, entry.Fits
  proper : ∀ entry ∈ entries, entry.programNumber ≠ 0xFFFF
  distinct : (entries.map ProgramNode.programNumber).Nodup

theorem Announcing.rest {entry : ProgramNode} {entries : List ProgramNode}
    (announcing : Announcing (entry :: entries)) : Announcing entries where
  fit other inside := announcing.fit other (List.mem_cons_of_mem _ inside)
  proper other inside := announcing.proper other (List.mem_cons_of_mem _ inside)
  distinct := (List.nodup_cons.mp announcing.distinct).2

def pmtRegistrations (entries : List ProgramNode) : List Registration :=
  entries.map fun entry => .pmt entry.programMapPid

-- one turn for one entry, and one registration
theorem patLoop_announces {entries : List ProgramNode} (announcing : Announcing entries)
    (size : (encodePat entries).length ≤ 0x3FD) (behind : Block) (turns : Nat)
    (enough : entries.length ≤ turns) (before : List ProgramNode)
    (unseen : ∀ entry ∈ entries, entry.programNumber ∉ before.map ProgramNode.programNumber)
    (registered : List Registration) :
    Yields (patLoop turns (ofBytes (encodePat entries) ++ behind) (encodePat entries).length
      (programsOf before) registered)
      ⟨programsOf (before ++ entries), 0, registered ++ pmtRegistrations entries⟩ := by
  induction entries generalizing turns before registered with
  | nil =>
    rw [List.append_nil, pmtRegistrations, List.map_nil, List.append_nil]
    cases turns <;> exact yields_pure _
  | cons entry entries ih =>
    cases turns with
    | zero => simp at enough
    | succ turns =>
      have here := announcing.fit entry List.mem_cons_self
      have fresh := unseen entry List.mem_cons_self
      have more : (encodePat (entry :: entries)).length = 4 + (encodePat entries).length := by
        simp only [encodePat, List.flatMap_cons, List.length_append, ProgramNode.encode,
          encode16_length]
      have number : Stores16 (ofBytes (encodePat (entry :: entries)) ++ behind) 0
          entry.programNumber := ⟨rfl, rfl⟩
      have pid : Stores16 (ofBytes (encodePat (entry :: entries)) ++ behind) 2
          (7 * 2 ^ 13 + entry.programMapPid) := ⟨rfl, rfl⟩
      have pidMasked : (7 * 2 ^ 13 + entry.programMapPid) &&& 0x1FFF = entry.programMapPid :=
        masked 7 entry.programMapPid 13 here.2
      have remaining : toUInt16 ((encodePat (entry :: entries)).length - 4) =
          (encodePat entries).length := by
        rw [show ((encodePat (entry :: entries)).length - 4 : Int) = (encodePat entries).length by
          omega, toUInt16_of_small _ (by omega) (by omega)]
      have later := ih announcing.rest (by omega) turns (by simpa using enough) (before ++ [entry])
        (by
          intro other inside again
          rw [List.map_append, List.map_singleton] at again
          cases List.mem_append.mp again with
          | inl old => exact unseen other (List.mem_cons_of_mem _ inside) old
          | inr same =>
            have distinct := (List.nodup_cons.mp announcing.distinct).1
            rw [← List.mem_singleton.mp same] at distinct
            exact distinct (List.mem_map_of_mem inside))
        (registered ++ [.pmt entry.programMapPid])
      rw [List.append_assoc, List.append_assoc] at later
      rw [patLoop]
      apply yields_ite_true (by omega)
      apply yields_read (number.read_fits here.1)
      apply yields_read (pid.read_fits (by have := here.2; omega))
      dsimp only
      rw [pidMasked, remaining]
      apply yields_ite_false (announcing.proper entry List.mem_cons_self)
      apply yields_ite_false (by simpa [programsOf] using fresh)
      apply yields_allocated
      rw [← programsOf_new before entry fresh]
      exact later

theorem programsOf_distinct (entries : List ProgramNode)
    (distinct : (entries.map ProgramNode.programNumber).Nodup) :
    (programsOf entries).h = entries := by
  induction entries using List.reverseRecOn with
  | nil => rw [programsOf_nil]
  | append_singleton before entry ih =>
    rw [List.map_append, List.map_singleton, List.nodup_append] at distinct
    have fresh : entry.programNumber ∉ before.map ProgramNode.programNumber := fun seen =>
      distinct.2.2 _ seen _ (List.mem_singleton_self _) rfl
    rw [programsOf_new before entry fresh, Pat.add, ih distinct.1]

theorem patProc_announces {entries : List ProgramNode} (announcing : Announcing entries)
    (envelope : Envelope) (fits : (encodePat entries).length + 9 ≤ 0x3FD)
    (early : envelope.version < 30) (versions : Versions Pat) (available : versions.heap.Available)
    (unopened : versions.active = none) :
    ∃ after table, Tables.patProc versions (ofBytes (envelope.encode (encodePat entries)))
        (envelope.encode (encodePat entries)).length = some after ∧
      after.registered = versions.registered ++ pmtRegistrations entries ∧
      after.active = some table ∧ table.content = programsOf entries := by
  have count := nodes_count ProgramNode.encode entries fun entry _ => Nat.zero_lt_succ 3
  have turns : entries.length ≤
      (ofBytes (encodePat entries) ++ envelope.behind).length + 1 := by
    rw [List.length_append, ofBytes_length, encodePat]
    omega
  have check := check_initial envelope entries fits
  rw [if_neg (by omega)] at check
  have current : versions.counted.curVersion = 0x1F := by
    rw [Versions.curVersion, Versions.counted, unopened]
  have room : versions.heap.reserve.1 = true := available _
  obtain ⟨header, carries, given, givenAvailable, parsed⟩ :=
    parseTable_fresh decodePat versions.heap.reserve.2 (available.of_succeeds rfl)
      { header := { versionNumber := 0x1F }, content := {} } (bitmap64Get_empty 0) rfl envelope
      (encodePat entries) fits
  have data : toUInt16 (header.sectionLength - (5 + 4)) = (encodePat entries).length := by
    rw [carries.sectionLength,
      show ((((encodePat entries).length + 9 : Nat) : Int) - (5 + 4)) =
        (encodePat entries).length by omega, toUInt16_of_small _ (by omega) (by omega)]
  have decodes : Yields (decodePat header (ofBytes (encodePat entries) ++ envelope.behind) {})
      ⟨programsOf ([] ++ entries), 0, [] ++ pmtRegistrations entries⟩ := by
    rw [decodePat, data, ← programsOf_nil]
    exact patLoop_announces announcing (by omega) _ _ turns [] (by simp) []
  obtain ⟨after, decoding, -⟩ := decodes given givenAvailable
  rw [decoding] at parsed
  have ran : parsePat versions.counted (ofBytes (envelope.encode (encodePat entries)))
      (envelope.encode (encodePat entries)).length =
      some ({ versions.counted.open {} with
        heap := after
        active := some ⟨header, programsOf entries⟩
        registered := versions.registered ++ pmtRegistrations entries }, 0) := by
    rw [parsePat, parseVersioned, current, check]
    simp only [Option.bind_eq_bind, Option.bind_some, if_true]
    rw [if_pos (show versions.counted.heap.reserve.1 = true from room)]
    simp only [Versions.parse, Versions.open]
    rw [show versions.counted.heap.reserve.2 = versions.heap.reserve.2 from rfl, parsed]
    rfl
  have done : Tables.patProc versions (ofBytes (envelope.encode (encodePat entries)))
      (envelope.encode (encodePat entries)).length = _ := congrArg (Option.map Prod.fst) ran
  exact ⟨_, ⟨header, programsOf entries⟩, done, rfl, rfl, rfl⟩

end Pat

section Elsewhere

def Registration.pid : Registration → Nat
  | .pmt pid => pid
  | .section pid => pid
  | .scte pid => pid
  | .pes pid _ => pid
  | .pesData pid _ _ => pid

/-- Nothing about this PID that decides what becomes of its PMT has changed. -/
structure Untouched (pid : Pid) (before after : Pids) : Prop where
  order : after.filters.order pid = before.filters.order pid
  bit : after.pmtBitmap pid.val = before.pmtBitmap pid.val

theorem Untouched.refl (pid : Pid) (pids : Pids) : Untouched pid pids pids :=
  ⟨rfl, rfl⟩

theorem Untouched.trans {pid : Pid} {first second third : Pids}
    (left : Untouched pid first second) (right : Untouched pid second third) :
    Untouched pid first third :=
  ⟨right.order.trans left.order, right.bit.trans left.bit⟩

theorem initFilter_elsewhere (filters : Client Callback) (pid other : Pid) (tableid mask : UInt8)
    (func : Callback) (different : other ≠ pid) :
    (initFilter filters pid tableid mask func).order other = filters.order other := by
  rcases register_cases filters pid (tableParam tableid mask) func true with
    failed | ⟨-, cap, handle, registered⟩
  · rw [initFilter, failed]
  · rw [initFilter, registered]
    exact Function.update_of_ne different _ _

theorem registerSectionOps_elsewhere (pids : Pids) (number : Nat) (tableid : UInt8)
    (callback : Callback) (pid : Pid) (different : pid ≠ Fin.ofNat 8192 number) :
    Untouched pid pids (pids.registerSectionOps number tableid callback) := by
  rw [Pids.registerSectionOps]
  split
  · exact Untouched.refl _ _
  · split
    · exact Untouched.refl _ _
    · exact ⟨initFilter_elsewhere _ _ _ _ _ _ different, rfl⟩

theorem perform_elsewhere (pids : Pids) (registration : Registration) (pid : Pid)
    (different : pid ≠ Fin.ofNat 8192 registration.pid) :
    Untouched pid pids (pids.perform registration) := by
  cases registration with
  | pmt number =>
    rw [Pids.perform, Pids.registerPmtOps]
    split
    · exact Untouched.refl _ _
    · refine ⟨initFilter_elsewhere _ _ _ _ _ _ different, Function.update_of_ne ?_ _ _⟩
      intro same
      apply different
      rw [← same]
      exact (Fin.ofNat_val_eq_self pid).symm
  | «section» number => exact registerSectionOps_elsewhere pids number _ _ pid different
  | scte number =>
    rw [Pids.perform, Pids.registerScteOps]
    split
    · exact Untouched.refl _ _
    · split
      · exact Untouched.refl _ _
      · have later := registerSectionOps_elsewhere
          { pids with scteBitmap := Function.update pids.scteBitmap number true
                      sctePidNum := pids.sctePidNum + 1 } number scteSpliceTid .scte pid different
        exact ⟨later.order, later.bit⟩
  | pes number streamType =>
    rw [Pids.perform, Pids.registerPesOps]
    split
    · exact Untouched.refl _ _
    · exact ⟨initFilter_elsewhere _ _ _ _ _ _ different, rfl⟩
  | pesData number streamType tag => exact Untouched.refl _ _

variable (outside : Outside P O)

theorem performAll_elsewhere (registered : List Registration) (state : Analysis D P O) (pid : Pid)
    (different : ∀ registration ∈ registered, pid ≠ Fin.ofNat 8192 registration.pid) :
    Untouched pid state.pids (state.performAll outside registered).pids := by
  induction registered generalizing state with
  | nil => exact Untouched.refl _ _
  | cons registration rest ih =>
    have here := perform_elsewhere state.pids registration pid
      (different registration List.mem_cons_self)
    exact here.trans (ih (state.perform outside registration)
      fun other inside => different other (List.mem_cons_of_mem _ inside))

theorem performAll_append (first second : List Registration) (state : Analysis D P O) :
    state.performAll outside (first ++ second) =
      (state.performAll outside first).performAll outside second :=
  List.foldl_append

theorem performAll_coherent (registered : List Registration) (state : Analysis D P O)
    (coherent : Coherent state.pids.filters) :
    Coherent (state.performAll outside registered).pids.filters :=
  (performAll_widened outside registered state fun registration _ filter adds =>
    registration.adds_dynamic filter adds).coherent coherent

theorem registerPmtOps_awaits (pids : Pids) (pid : Pid) (proper : pid.val ≠ nitPid)
    (unused : pids.filters.order pid = []) (coherent : Coherent pids.filters) :
    ((pids.registerPmtOps pid.val).filters.order pid).map entry = [pmtEntry] ∧
      (pids.registerPmtOps pid.val).pmtBitmap pid.val = true := by
  have room : (pids.filters.pidFilter pid).slots.length < numFilterMax := by
    rw [coherent.slots, unused]
    decide
  rw [Pids.registerPmtOps, if_neg proper]
  simp only [Fin.ofNat_val_eq_self, Function.update_self, initFilter_order _ _ _ _ _ room, unused]
  exact ⟨rfl, trivial⟩

end Elsewhere

section Dispatch

variable {ops : DescriptorOps D} {outside : Outside P O}

theorem rebuild_single (slot : Filters.Filter Callback) (hd : FilterHead Callback)
    (single : hd.slots = [slot]) (exactly : slot.para.exact = true) :
    (filterRebuild hd).multi = false := by
  have vacant : ¬noSlot ≠ noSlot := not_not_intro rfl
  rw [filterRebuild, single]
  simp only [rebuildLoop, rebuildSlot, exactly, if_true, if_neg vacant]

-- the only filter of a PID, for a table_id
theorem filterProc_only (state : Analysis D P O) (coherent : Coherent state.pids.filters)
    (pid : Pid) (pkt : Block) (len : Nat) (tableId : UInt8) (callback : Callback)
    (first : read8 pkt 0 = some tableId)
    (only : (state.pids.filters.order pid).map entry = [(tableParam tableId 0xFF, callback)]) :
    state.filterProc ops outside pid pkt len = state.call ops outside pid pkt len callback := by
  obtain ⟨registered, order, named⟩ := List.map_eq_singleton_iff.mp only
  have para : registered.para = tableParam tableId 0xFF := congrArg Prod.fst named
  have given : registered.callback = callback := congrArg Prod.snd named
  have slots : (state.pids.filters.pidFilter pid).slots = [registered.filter] := by
    rw [coherent.slots, order, List.map_singleton]
  have exactly : registered.filter.para.exact = true := by
    rw [Registered.filter, Filter.set, para]
    rfl
  have rebuilt : state.pids.filters.pidFilter pid =
      filterRebuild (state.pids.filters.pidFilter pid) :=
    (coherent.rebuilt pid).resolve_left (by simp [slots])
  have plain : ¬(state.pids.filters.pidFilter pid).multi = true := by
    rw [rebuilt, rebuild_single _ _ slots exactly]
    exact Bool.false_ne_true
  have selected : registered.selects tableId = true := by
    rw [Registered.selects, para, FilterParam.selects, beq_iff_eq]
    exact UInt8.and_comm _ _
  obtain ⟨-, -, ret, called⟩ := coherent.dispatches pid pkt tableId first
  rw [order, List.filter_cons_of_pos selected, List.filter_nil, List.map_singleton, given] at called
  rw [Analysis.filterProc, if_neg plain, called]
  exact bind_pure (state.call ops outside pid pkt len callback)

theorem call_proc (state : Analysis D P O) (pid : Pid) (pkt : Block) (len : Nat) (proc : TableProc)
    (named : proc ≠ .default) : state.call ops outside pid pkt len (.table proc) =
      state.tableProc ops outside pid pkt len proc := by
  cases proc <;> first | rfl | exact absurd rfl named

end Dispatch

section Broadcast

variable {ops : DescriptorOps D}

/-- A program with the PID on which its PMT is sent. -/
structure Announced (ops : DescriptorOps D) where
  pid : Pid
  program : Program ops
  version : UInt8
  current : UInt8
  cc : Nat
  numbered : program.programNumber < 65536
  fits : program.body.length + 9 ≤ 0x3FD

namespace Announced

def entry (announced : Announced ops) : ProgramNode :=
  ⟨announced.program.programNumber, announced.pid.val⟩

def envelope (announced : Announced ops) : Envelope :=
  Generator.envelope pmtTid (UInt16.ofNat announced.program.programNumber) announced.version
    announced.current announced.program.body

def emitted (announced : Announced ops) : Emitted where
  pid := announced.pid
  cc := announced.cc
  psi := Generator.psi pmtTid (UInt16.ofNat announced.program.programNumber) announced.version
    announced.current 0 0 announced.program.body (by have := announced.fits; omega)

theorem bytes (announced : Announced ops) :
    announced.emitted.psi.bytes = announced.envelope.encode announced.program.body :=
  Generator.secBuild_envelope _ _ _ _ _ (by have := announced.fits; omega)

theorem number (announced : Announced ops) :
    announced.envelope.tableIdExt = announced.program.programNumber :=
  UInt16.toNat_ofNat_of_lt' announced.numbered

end Announced

-- the PMT of this PID has been announced and has not come
structure Awaiting (state : Analysis D P O) (pid : Pid) : Prop where
  order : (state.pids.filters.order pid).map entry = [pmtEntry]
  bit : state.pids.pmtBitmap pid.val = true
  cleared : state.tables (.pmt pid) = { table := { content := {} } }

theorem decodePmt_registers (header : TableHeader) (pdata : Block) (pmt : Pmt D) (heap : Heap)
    (result : Decoded (Pmt D) × Heap) (found : decodePmt ops header pdata pmt heap = some result) :
    result.1.registered = result.1.content.h.flatMap EsNode.registered := by
  obtain ⟨-, -, found⟩ := lift_bind found
  obtain ⟨-, -, found⟩ := lift_bind found
  obtain ⟨pcrPid, -, found⟩ := lift_bind found
  obtain ⟨length, -, found⟩ := lift_bind found
  obtain ⟨⟨list, middle⟩, -, found⟩ := Option.bind_eq_some_iff.mp found
  obtain ⟨⟨nodes, last⟩, -, found⟩ := Option.bind_eq_some_iff.mp found
  obtain rfl := Option.some.inj found
  rfl

theorem registered_pid (pn : EsNode D) (registration : Registration)
    (inside : registration ∈ pn.registered) : registration.pid = pn.elementaryPid := by
  rw [EsNode.registered] at inside
  split_ifs at inside <;> simp only [List.mem_cons, List.not_mem_nil, or_false] at inside
  all_goals rcases inside with rfl | rfl <;> rfl

theorem decoded_pids {program : Program ops} {pmt : Pmt D} (decoded : program.Decoded pmt)
    (registration : Registration) (inside : registration ∈ pmt.h.flatMap EsNode.registered) :
    ∃ stream ∈ program.streams, registration.pid = stream.elementaryPid := by
  obtain ⟨pn, node, own⟩ := List.mem_flatMap.mp inside
  have listed : pn.label ∈ program.streams.map ElementaryStream.label :=
    decoded.streams ▸ List.mem_map_of_mem node
  obtain ⟨stream, member, same⟩ := List.mem_map.mp listed
  refine ⟨stream, member, (registered_pid pn registration own).trans ?_⟩
  exact (congrArg StreamLabel.elementaryPid same).symm

variable (outside : Outside P O)

theorem filterProc_pmt (state : Analysis D P O) (coherent : Coherent state.pids.filters)
    (announced : Announced ops) (awaiting : Awaiting state announced.pid) :
    ∃ (held : Held (Table (Pmt D))) (registered : List Registration),
      state.filterProc ops outside announced.pid (ofBytes announced.emitted.psi.bytes)
          announced.emitted.psi.bytes.length =
        some (Analysis.performAll outside
          { state with tables := Function.update state.tables (.pmt announced.pid) held }
          registered) ∧
      announced.program.Decoded held.table.content ∧
      ∀ registration ∈ registered, ∃ stream ∈ announced.program.streams,
        registration.pid = stream.elementaryPid := by
  rw [announced.bytes]
  have first : read8 (ofBytes (announced.envelope.encode announced.program.body)) 0 =
      some pmtTid := rfl
  obtain ⟨header, carries, given, givenAvailable, parsed⟩ :=
    parseTable_fresh (decodePmt ops) Heap.empty Heap.empty_available { content := {} }
      (bitmap64Get_empty 0) rfl announced.envelope announced.program.body announced.fits
  obtain ⟨result, decoded, -, yields⟩ := decodePmt_encoded announced.program announced.fits
    announced.envelope header carries announced.number
  obtain ⟨after, decoding, -⟩ := yields given givenAvailable
  rw [decoding, Option.map_some] at parsed
  have registers := decodePmt_registers header _ {} given (result, after) decoding
  refine ⟨⟨after, ⟨header, result.content⟩, 0⟩, result.registered, ?_, decoded, ?_⟩
  · rw [filterProc_only state coherent announced.pid _ _ pmtTid (.table .pmt) first awaiting.order,
      call_proc _ _ _ _ _ (by decide)]
    simp only [Analysis.tableProc, Analysis.sectionProc, Proc.target, Option.bind_some,
      Analysis.give, awaiting.cleared, decoder, parsed, Option.map_some]
    rfl
  · intro registration inside
    rw [registers] at inside
    exact decoded_pids decoded registration inside

-- the PMT of one PID leaves those of the others alone
theorem pmt_step (detail : Bool) (state : Analysis D P O) (coherent : Coherent state.pids.filters)
    (announced : Announced ops) (proper : announced.pid.val ≠ nullPid)
    (awaiting : Awaiting state announced.pid) :
    ∃ next, writeStep (environment ops outside detail) state (.emitSection announced.emitted) =
        some next ∧ Coherent next.pids.filters ∧ next.pat = state.pat ∧
      announced.program.Decoded (next.tables (.pmt announced.pid)).table.content ∧
      (∀ name, name ≠ .pmt announced.pid → next.tables name = state.tables name) ∧
      ∀ pid, (∀ stream ∈ announced.program.streams, stream.elementaryPid ≠ pid.val) →
        Untouched pid state.pids next.pids := by
  obtain ⟨held, registered, done, decoded, streams⟩ :=
    filterProc_pmt outside state coherent announced awaiting
  have psi : psiOrPes (environment ops outside detail) state announced.emitted.pid = .psi :=
    if_pos (Or.inr (Or.inl awaiting.bit))
  refine ⟨_, (if_pos ⟨psi, proper⟩).trans done, ?_, ?_, ?_, ?_, ?_⟩
  · exact performAll_coherent outside registered _ coherent
  · exact ((performAll_same outside .pat registered _).pat rfl).symm
  · rw [← (performAll_same outside .pmt registered _).tables (.pmt announced.pid) rfl]
    simpa using decoded
  · intro name different
    rw [← (performAll_same outside name.proc registered _).tables name rfl]
    exact Function.update_of_ne different _ _
  · intro pid apart
    refine performAll_elsewhere outside registered
      { state with tables := Function.update state.tables (.pmt announced.pid) held } pid
      fun registration inside => ?_
    obtain ⟨stream, member, same⟩ := streams registration inside
    intro equal
    apply apart stream member
    rw [equal, same]
    exact (Nat.mod_eq_of_lt stream.pidFits).symm

-- PMTs, and null packets up to a number of bytes
abbrev Slot (ops : DescriptorOps D) := Announced ops ⊕ Nat

def Slot.write : Slot ops → Write
  | .inl announced => .emitSection announced.emitted
  | .inr minBytes => .padNull minBytes

def sentIn (slots : List (Slot ops)) : List (Announced ops) :=
  slots.filterMap Sum.getLeft?

/-- PMTs on PIDs of their own. -/
structure OwnPids (sent : List (Announced ops)) : Prop where
  once : (sent.map Announced.pid).Nodup
  proper : ∀ announced ∈ sent, announced.pid.val ≠ nullPid
  streams : ∀ one ∈ sent, ∀ other ∈ sent, one.pid ≠ other.pid →
    ∀ stream ∈ one.program.streams, stream.elementaryPid ≠ other.pid.val

theorem OwnPids.rest {announced : Announced ops} {sent : List (Announced ops)}
    (separate : OwnPids (announced :: sent)) : OwnPids sent where
  once := (List.nodup_cons.mp separate.once).2
  proper other inside := separate.proper other (List.mem_cons_of_mem _ inside)
  streams one first other second :=
    separate.streams one (List.mem_cons_of_mem _ first) other (List.mem_cons_of_mem _ second)

theorem OwnPids.first {announced : Announced ops} {sent : List (Announced ops)}
    (separate : OwnPids (announced :: sent)) (other : Announced ops) (inside : other ∈ sent) :
    announced.pid ≠ other.pid := by
  intro same
  apply (List.nodup_cons.mp separate.once).1
  rw [same]
  exact List.mem_map_of_mem inside

theorem pmts_run (detail : Bool) (slots : List (Slot ops)) (state : Analysis D P O)
    (coherent : Coherent state.pids.filters) (separate : OwnPids (sentIn slots))
    (awaiting : ∀ announced ∈ sentIn slots, Awaiting state announced.pid) :
    ∃ final, (slots.map Slot.write).foldlM (writeStep (environment ops outside detail)) state =
        some final ∧ final.pat = state.pat ∧
      (∀ announced ∈ sentIn slots,
        announced.program.Decoded (final.tables (.pmt announced.pid)).table.content) ∧
      ∀ name, (∀ announced ∈ sentIn slots, name ≠ .pmt announced.pid) →
        final.tables name = state.tables name := by
  induction slots generalizing state with
  | nil => exact ⟨state, rfl, rfl, by simp [sentIn], fun _ _ => rfl⟩
  | cons slot rest ih =>
    cases slot with
    | inr minBytes =>
      have same : sentIn (Sum.inr minBytes :: rest : List (Slot ops)) = sentIn rest := rfl
      rw [same] at separate awaiting ⊢
      exact ih state coherent separate awaiting
    | inl announced =>
      have split : sentIn (Sum.inl announced :: rest : List (Slot ops)) =
          announced :: sentIn rest := rfl
      rw [split] at separate awaiting ⊢
      obtain ⟨next, here, nextCoherent, pat, decoded, kept, untouched⟩ :=
        pmt_step outside detail state coherent announced
          (separate.proper announced List.mem_cons_self) (awaiting announced List.mem_cons_self)
      have waiting : ∀ other ∈ sentIn rest, Awaiting next other.pid := by
        intro other inside
        have before := awaiting other (List.mem_cons_of_mem _ inside)
        have different := separate.first other inside
        have same := untouched other.pid (separate.streams announced List.mem_cons_self other
          (List.mem_cons_of_mem _ inside) different)
        refine ⟨?_, same.bit.trans before.bit, ?_⟩
        · rw [same.order]
          exact before.order
        · rw [kept _ (by simpa using Ne.symm different)]
          exact before.cleared
      obtain ⟨final, later, patKept, all, others⟩ := ih next nextCoherent separate.rest waiting
      refine ⟨final, ?_, patKept.trans pat, fun other inside => ?_, fun name elsewhere => ?_⟩
      · rw [List.map_cons, List.foldlM_cons]
        exact Option.bind_eq_some_iff.mpr ⟨next, here, later⟩
      · cases List.mem_cons.mp inside with
        | inl same =>
          rw [same, others _ fun one member => by
            simpa using separate.first one member]
          exact decoded
        | inr member => exact all other member
      · rw [others name fun one member => elsewhere one (List.mem_cons_of_mem _ member)]
        exact kept name (elsewhere announced List.mem_cons_self)

end Broadcast

end TsAnalyze.Tables
