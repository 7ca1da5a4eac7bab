import TsAnalyze.Shared.Runs
import TsAnalyze.Tables.Dispatching
import TsAnalyze.Tables.Versions

set_option autoImplicit false

namespace TsAnalyze.Tables

open Memory Demux Filters

section Section

variable {σ : Type} (env : Environment σ)

-- what section_preproc makes of a packet that comes to it on this PID
def handledOn (state : Ts σ) (pid : Pid) (data : Block) (len : Nat) :
    Option (SectionParser × Return) := do
  let head ← (readHeader data).join
  if head.pid = pid ∧ ¬Stops env state.environment head then
    sectionPreproc (state.sec pid)
      (packetCall env { state with packets := state.packets + 1 } data (UInt8.ofNat len) head)
  else none

-- what ts_proc gives to filter_proc
def passedOn (r : Return) : Option (Block × Nat) :=
  if r.secLen = -1 ∨ r.secLen = 0 then none
  else r.buffering.map fun pbuf => (pbuf, toUint16 r.secLen)

def sectionOn (state : Ts σ) (pid : Pid) (data : Block) (len : Nat) : Option (Block × Nat) :=
  (handledOn env state pid data len).bind fun found => passedOn found.2

/-- The parser of a PID and the section that filter_proc is given on it. -/
structure StepOn (state after : Ts σ) (pid : Pid) (data : Block) (len : Nat) : Prop where
  sec : after.sec pid = ((handledOn env state pid data len).map Prod.fst).getD (state.sec pid)
  passed : ∀ pbuf length, sectionOn env state pid data len = some (pbuf, length) →
    env.filterProc state.environment pid pbuf length = some after.environment
  elsewhere : sectionOn env state pid data len = none →
    after.environment = state.environment ∨ ∃ other pbuf length, other ≠ pid ∧
      env.filterProc state.environment other pbuf length = some after.environment

theorem procStep_on (state after : Ts σ) (pid : Pid) (data : Block) (len : Nat)
    (taken : procStep env state data len = some after) : StepOn env state after pid data len := by
  rcases procStep_cases env state after data len taken with
    ⟨sec, environment, why⟩ | ⟨head, p, r, found, reached, parsed, sec, passed⟩
  · have nothing : handledOn env state pid data len = none := by
      rcases why with unsynchronised | ⟨head, found, stops⟩
      · simp [handledOn, unsynchronised]
      · simp [handledOn, found, stops]
    refine ⟨by rw [nothing, sec]; rfl, fun pbuf length given => ?_, fun _ => Or.inl environment⟩
    rw [sectionOn, nothing] at given
    cases given
  · by_cases here : head.pid = pid
    · subst here
      have handled : handledOn env state head.pid data len = some (p, r) := by
        simpa [handledOn, found, reached] using parsed
      have given : sectionOn env state head.pid data len = passedOn r := by
        rw [sectionOn, handled, Option.bind_some]
      refine ⟨by rw [handled, sec, Function.update_self]; rfl, fun pbuf length same => ?_,
        fun none => ?_⟩
      · rw [given, passedOn] at same
        rcases passed with ⟨stays, -⟩ | ⟨goes, buffer, buffered, filtered⟩
        · rw [if_pos stays] at same
          cases same
        · rw [if_neg goes, buffered] at same
          cases same
          exact filtered
      · rw [given, passedOn] at none
        rcases passed with ⟨-, environment⟩ | ⟨goes, buffer, buffered, -⟩
        · exact Or.inl environment
        · rw [if_neg goes, buffered] at none
          cases none
    · have nothing : handledOn env state pid data len = none := by
        simp [handledOn, found, here]
      refine ⟨by rw [nothing, sec, Function.update_of_ne (Ne.symm here)]; rfl,
        fun pbuf length given => ?_, fun _ => ?_⟩
      · rw [sectionOn, nothing] at given
        cases given
      · rcases passed with ⟨-, environment⟩ | ⟨-, pbuf, -, filtered⟩
        · exact Or.inl environment
        · exact Or.inr ⟨head.pid, pbuf, _, here, filtered⟩

-- below 0x20 a packet is taken as PSI, whatever has been registered
theorem handledOn_low (one other : Ts σ) (pid : Pid) (low : pid.val < 0x20)
    (granted : ∀ number, env.malloc number = true) (data : Block) (len : Nat)
    (same : one.sec pid = other.sec pid) :
    handledOn env one pid data len = handledOn env other pid data len := by
  have psi : ∀ environment : σ, psiOrPes env environment pid = .psi :=
    fun environment => if_pos (Or.inl low)
  rw [handledOn, handledOn]
  cases (readHeader data).join with
  | none => rfl
  | some head =>
    by_cases here : head.pid = pid
    · subst here
      have stops : ∀ environment : σ, Stops env environment head ↔
          (noDataByte head ∨ head.pid.val = nullPid) := by
        intro environment
        simp [Stops, unreferenced, psi environment]
      simp only [Option.bind_eq_bind, Option.bind_some, stops, same, packetCall, psi, granted]
    · simp [here]

end Section

inductive Carrier
  | pat
  | cat
  | tsdt
  | nit
  | sdtBat
  | eit
  | tdtTot
  | psip
deriving DecidableEq

def Carrier.pid : Carrier → Pid
  | .pat => 0x0000
  | .cat => 0x0001
  | .tsdt => 0x0002
  | .nit => 0x0010
  | .sdtBat => 0x0011
  | .eit => 0x0012
  | .tdtTot => 0x0014
  | .psip => 0x1FFB

def Carrier.proc : Carrier → TableProc
  | .pat => .pat
  | .cat => .cat
  | .tsdt => .tsdt
  | .nit => .nit
  | .sdtBat => .sdtBat
  | .eit => .eit
  | .tdtTot => .tdtTot
  | .psip => .atscPsip

-- the only handler that is registered while the stream is read
theorem Carrier.proc_tabled (carrier : Carrier) : carrier.proc ≠ .pmt := by
  cases carrier <;> decide

-- the filters of default_proc that register_section_ops brings
def isSectionEntry (filter : FilterParam × Callback) : Bool :=
  filter.1.exact && decide (filter.2 = .table .default)

def sectionStreams (filters : Client Callback) (pid : Pid) : Nat :=
  ((filters.order pid).map entry).countP isSectionEntry

def psipTableIds : List UInt8 :=
  [0xC7, 0xC8, 0xC9, 0xCA, 0xCC, 0xCB, 0xCD, 0xD3, 0xD4]

/-- The sections that default_proc and the filters of init_table_ops treat alike. -/
def Carrier.Treated (carrier : Carrier) (one other : Client Callback) (tableId : UInt8) : Prop :=
  match carrier with
  | .pat => tableId = 0x00 ∧ sectionStreams one 0 = sectionStreams other 0
  | .cat => tableId = 0x01
  | .tsdt => tableId ≠ 0x03
  | .psip => tableId ∉ psipTableIds
  | .nit | .sdtBat | .eit | .tdtTot => True

section Counting

-- how often a section leads to a handler
def timesServed (tableId : UInt8) (pid : Pid) (proc : TableProc)
    (filters : List (FilterParam × Callback)) : Nat :=
  filters.countP fun filter => filter.1.selects tableId && serves pid proc filter.2

theorem matching_count (tableId : UInt8) (pid : Pid) (proc : TableProc)
    (order : List (Registered Callback)) :
    (matching tableId order).countP (serves pid proc) =
      timesServed tableId pid proc (order.map entry) := by
  rw [matching, List.countP_map, List.countP_filter, timesServed, List.countP_map]
  apply List.countP_congr
  intro registered _
  simp [entry, Registered.selects, and_comm]

theorem timesServed_append (tableId : UInt8) (pid : Pid) (proc : TableProc)
    (old fresh : List (FilterParam × Callback)) :
    timesServed tableId pid proc (old ++ fresh) =
      timesServed tableId pid proc old + timesServed tableId pid proc fresh :=
  List.countP_append

theorem selects_exact (tableid tableId : UInt8)
    (selected : (tableParam tableid 0xFF).selects tableId = true) : tableId = tableid := by
  rw [FilterParam.selects, beq_iff_eq] at selected
  simpa [tableParam, and_full, UInt8.and_comm] using selected

theorem timesServed_dynamic (tableId : UInt8) (pid : Pid) (proc : TableProc)
    (tabled : proc ≠ .pmt) (unserved : tableId ≠ 0 ∨ defaultProc pid ≠ proc)
    (fresh : List (FilterParam × Callback)) (dynamic : ∀ filter ∈ fresh, Dynamic filter) :
    timesServed tableId pid proc fresh = 0 := by
  rw [timesServed, List.countP_eq_zero]
  intro filter member both
  rw [Bool.and_eq_true] at both
  rcases dynamic filter member with rfl | rfl | rfl | rfl
  · exact tabled (of_decide_eq_true both.2).symm
  · have zero := selects_exact 0 tableId both.1
    rcases unserved with late | elsewhere
    · exact late zero
    · exact elsewhere (of_decide_eq_true both.2)
  · cases both.2
  · cases both.2

-- on PID 0 the section streams of a table_id 0 are PATs
theorem timesServed_pat (fresh : List (FilterParam × Callback))
    (dynamic : ∀ filter ∈ fresh, Dynamic filter) :
    timesServed 0 0 .pat fresh = fresh.countP isSectionEntry := by
  apply List.countP_congr
  intro filter member
  rcases dynamic filter member with rfl | rfl | rfl | rfl
  · decide
  · decide
  · decide
  · decide

end Counting

section Initial

def TableFilter.entry (filter : TableFilter) : FilterParam × Callback :=
  (tableParam filter.tableid filter.mask, .table filter.func)

theorem initFilter_order (filters : Client Callback) (pid : Pid) (tableid mask : UInt8)
    (func : Callback) (room : (filters.pidFilter pid).slots.length < numFilterMax) :
    (initFilter filters pid tableid mask func).order =
      Function.update filters.order pid (filters.order pid ++
        [⟨filters.handles.length, pid, tableParam tableid mask, func⟩]) := by
  rcases filterAlloc_cases true filters.pidFilter pid with ⟨-, full | refused⟩ | ⟨-, cap, given⟩
  · exact absurd room (Nat.not_lt.mpr full)
  · cases refused
  · simp [initFilter, Client.register, given]

-- a registration after the other, as init_table_ops makes them
def initFilters (filters : Client Callback) (tables : List TableFilter) : Client Callback :=
  tables.foldl (fun filters filter =>
    initFilter filters filter.pid filter.tableid filter.mask (.table filter.func)) filters

theorem initFilters_order (tables : List TableFilter) (filters : Client Callback)
    (coherent : Coherent filters)
    (room : ∀ pid, (filters.order pid).length + tables.length ≤ numFilterMax) :
    Coherent (initFilters filters tables) ∧ ∀ pid,
      ((initFilters filters tables).order pid).map entry = (filters.order pid).map entry ++
        (tables.filter fun filter => filter.pid = pid).map TableFilter.entry := by
  induction tables generalizing filters with
  | nil => exact ⟨coherent, fun pid => by simp [initFilters]⟩
  | cons filter rest ih =>
    have vacant : (filters.pidFilter filter.pid).slots.length < numFilterMax := by
      rw [coherent.slots, List.length_map]
      have enough := room filter.pid
      rw [List.length_cons] at enough
      omega
    have order := initFilter_order filters filter.pid filter.tableid filter.mask
      (.table filter.func) vacant
    have next := register_coherent filters coherent filter.pid
      (tableParam filter.tableid filter.mask) rfl (.table filter.func) true
    have later := ih (initFilter filters filter.pid filter.tableid filter.mask
      (.table filter.func)) next fun pid => ?_
    · refine ⟨later.1, fun pid => (later.2 pid).trans ?_⟩
      rw [order]
      by_cases here : pid = filter.pid
      · subst here
        simp [entry, TableFilter.entry]
      · simp [here, Ne.symm here]
    · have enough := room pid
      rw [List.length_cons] at enough
      rw [order]
      by_cases here : pid = filter.pid
      · subst here
        simp
        omega
      · rw [Function.update_of_ne here]
        omega

theorem init_order (selected : Pid → Bool) (tables : List TableFilter)
    (registered : (if chosenFilters selected = [] then tableFilters else chosenFilters selected) =
      tables) (few : tables.length ≤ 19) :
    Coherent (Pids.init selected).filters ∧ ∀ pid,
      ((Pids.init selected).filters.order pid).map entry =
        (tables.filter fun filter => filter.pid = pid).map TableFilter.entry := by
  have start := initFilters_order tables (Client.initial fun _ => {}) (initial_coherent _)
    fun pid => (Nat.add_comm _ _).le.trans (few.trans (by decide))
  rw [Pids.init, registered]
  exact start

theorem chosenFilters_none : chosenFilters (fun _ => false) = [] := by
  simp [chosenFilters]

theorem chosenFilters_one (pid : Pid) (proper : pid.val < 8191) :
    chosenFilters (fun other => other = pid) = [⟨pid, 0, 0, .default⟩] := by
  have only : (List.finRange 8192).filter
      (fun other : Pid => other.val < 8191 && decide (other = pid)) = [pid] := by
    have same : ∀ other ∈ List.finRange 8192,
        (decide (other.val < 8191) && decide (other = pid)) = (other == pid) := by
      intro other _
      by_cases here : other = pid
      · subst here
        simp [proper]
      · simp [here]
    rw [List.filter_congr same, List.filter_beq, List.count_eq_one_of_mem (List.nodup_finRange _)
      (List.mem_finRange pid)]
    rfl
  rw [chosenFilters, only]
  rfl

end Initial

-- The filters of a run that has started with these tables.
structure Begun (tables : List TableFilter) (filters : Client Callback) : Prop where
  tame : Tame filters
  order : ∀ pid, ∃ fresh, (filters.order pid).map entry =
    (tables.filter fun filter => filter.pid = pid).map TableFilter.entry ++ fresh ∧
      ∀ filter ∈ fresh, Dynamic filter

theorem Begun.widened {tables : List TableFilter} {before after : Client Callback}
    (begun : Begun tables before) (widened : Widened Dynamic before after) :
    Begun tables after where
  tame := begun.tame.widened widened
  order pid := by
    rcases begun.order pid with ⟨early, order, earlyDynamic⟩
    rcases widened.order pid with ⟨late, more, lateDynamic⟩
    refine ⟨early ++ late.map entry, by rw [more, List.map_append, order, List.append_assoc], ?_⟩
    intro filter member
    cases List.mem_append.mp member with
    | inl old => exact earlyDynamic filter old
    | inr new =>
      rcases List.mem_map.mp new with ⟨registered, inside, rfl⟩
      exact lateDynamic registered inside

theorem begun_initial (selected : Pid → Bool) (tables : List TableFilter)
    (registered : (if chosenFilters selected = [] then tableFilters else chosenFilters selected) =
      tables) (few : tables.length ≤ 19)
    (late : ∀ filter ∈ tables, filter.func = .pmt ∨ filter.func = .tsdt →
      (tableParam filter.tableid filter.mask).selects 0 = false) :
    Begun tables (Pids.init selected).filters := by
  rcases init_order selected tables registered few with ⟨coherent, order⟩
  refine ⟨⟨coherent, fun pid known member isLate => ?_⟩, fun pid => ⟨[], ?_, by simp⟩⟩
  · have inside : entry known ∈ ((Pids.init selected).filters.order pid).map entry :=
      List.mem_map_of_mem member
    rw [order pid] at inside
    rcases List.mem_map.mp inside with ⟨filter, listed, same⟩
    have callback : Callback.table filter.func = known.callback := congrArg Prod.snd same
    have para : tableParam filter.tableid filter.mask = known.para := congrArg Prod.fst same
    rw [← para]
    apply late filter (List.mem_of_mem_filter listed)
    rw [← callback] at isLate
    simpa [Late] using isLate
  · rw [order pid, List.append_nil]

theorem begun_all : Begun tableFilters (Pids.init fun _ => false).filters :=
  begun_initial _ tableFilters (by rw [chosenFilters_none]; rfl) (by decide) (by decide)

theorem begun_selected (carrier : Carrier) :
    Begun [⟨carrier.pid, 0, 0, .default⟩] (Pids.init fun pid => pid = carrier.pid).filters := by
  have proper : carrier.pid.val < 8191 := by cases carrier <;> decide
  refine begun_initial _ _ ?_ (by simp) (by simp)
  rw [chosenFilters_one carrier.pid proper]
  rfl

section Carriers

-- the table_ids that the handlers with a switch of their own look for
def Carrier.reads : Carrier → List UInt8
  | .nit => [0x40, 0x41]
  | .sdtBat => [0x4A, 0x42, 0x46]
  | .eit => [0x4E, 0x4F]
  | .tdtTot => [0x70, 0x73]
  | _ => []

def startAll (carrier : Carrier) : List (FilterParam × Callback) :=
  (tableFilters.filter fun filter => filter.pid = carrier.pid).map TableFilter.entry

def startSelected : List (FilterParam × Callback) :=
  [(tableParam 0 0, .table .default)]

variable (tableId : UInt8)

theorem reads_once (carrier : Carrier) (reads : tableId ∈ carrier.reads) :
    tableId ≠ 0 ∧ timesServed tableId carrier.pid carrier.proc (startAll carrier) =
      timesServed tableId carrier.pid carrier.proc startSelected := by
  have all : ∀ tableId ∈ carrier.reads, tableId ≠ 0 ∧
      timesServed tableId carrier.pid carrier.proc (startAll carrier) =
        timesServed tableId carrier.pid carrier.proc startSelected := by
    cases carrier <;> decide +kernel
  exact all tableId reads

theorem unlisted_unserved (ids : List UInt8) (pid : Pid) (proc : TableProc)
    (unlisted : tableId ∉ ids) :
    timesServed tableId pid proc (ids.map fun id => (tableParam id 0xFF, .table proc)) = 0 := by
  rw [timesServed, List.countP_eq_zero]
  intro filter member both
  rcases List.mem_map.mp member with ⟨id, listed, rfl⟩
  rw [Bool.and_eq_true] at both
  rw [selects_exact id tableId both.1] at unlisted
  exact unlisted listed

theorem startSelected_unserved (pid : Pid) (proc : TableProc) (different : defaultProc pid ≠ proc) :
    timesServed tableId pid proc startSelected = 0 := by
  simp [timesServed, startSelected, serves, different]

theorem defaultProc_pid (pid : Pid) (carrier : Carrier) (leads : defaultProc pid = carrier.proc) :
    pid = carrier.pid := by
  unfold defaultProc at leads
  split_ifs at leads with zero one two three four five <;> cases carrier <;> cases leads <;>
    assumption

end Carriers

variable {D P O : Type} {ops : DescriptorOps D} {outside : Outside P O}

-- nothing but the PID's own filters leads to the handler
def Homed (carrier : Carrier) (tables : List TableFilter) : Prop :=
  ∀ filter ∈ tables, serves filter.pid carrier.proc (.table filter.func) = true →
    filter.pid = carrier.pid

theorem homed_all (carrier : Carrier) : Homed carrier tableFilters := by
  unfold Homed
  cases carrier <;> decide +kernel

theorem homed_selected (carrier : Carrier) : Homed carrier [⟨carrier.pid, 0, 0, .default⟩] := by
  intro filter listed _
  rw [List.mem_singleton.mp listed]

theorem elsewhere_unserved (carrier : Carrier) {tables : List TableFilter}
    (homed : Homed carrier tables) (filters : Client Callback) (begun : Begun tables filters)
    (tableId : UInt8) (other : Pid) (different : other ≠ carrier.pid) :
    timesServed tableId other carrier.proc ((filters.order other).map entry) = 0 := by
  rcases begun.order other with ⟨fresh, order, dynamic⟩
  rw [order, timesServed_append, timesServed_dynamic tableId other carrier.proc carrier.proc_tabled
    (Or.inr fun leads => different (defaultProc_pid other carrier leads)) fresh dynamic,
    Nat.add_zero, timesServed, List.countP_eq_zero]
  intro filter member both
  rcases List.mem_map.mp member with ⟨table, inside, rfl⟩
  rcases List.mem_filter.mp inside with ⟨listed, here⟩
  have same : table.pid = other := of_decide_eq_true here
  rw [Bool.and_eq_true] at both
  have home := homed table listed (same ▸ both.2)
  exact different (same.symm.trans home)

section Handling

variable {pid : Pid} {pkt : Block} {len : Nat}

theorem filterProc_begun (tables : List TableFilter) (state after : Analysis D P O)
    (begun : Begun tables state.pids.filters)
    (done : state.filterProc ops outside pid pkt len = some after) :
    Begun tables after.pids.filters := by
  rcases filterProc_reads state after begun.tame done with same | ⟨tableId, first⟩
  · rw [same]
    exact begun
  · have tabled : TableProc.pat ≠ .pmt := by decide
    have served := filterProc_served first tabled state after begun.tame done
    exact begun.widened served.1

theorem filterProc_unserved (carrier : Carrier) (tables : List TableFilter)
    (state after : Analysis D P O) (begun : Begun tables state.pids.filters)
    (unserved : ∀ tableId, read8 pkt 0 = some tableId →
      timesServed tableId pid carrier.proc ((state.pids.filters.order pid).map entry) = 0)
    (done : state.filterProc ops outside pid pkt len = some after) :
    SameTables carrier.proc state after := by
  rcases filterProc_reads state after begun.tame done with same | ⟨tableId, first⟩
  · rw [same]
    exact SameTables.refl state
  · have served := (filterProc_served first carrier.proc_tabled state after begun.tame done).2
    rw [matching_count, unserved tableId first] at served
    cases served with
    | done _ _ kept => exact kept

/-- A handler with a switch of its own ignores the other table_ids. -/
theorem unread_ignored (carrier : Carrier) (tableId : UInt8) (first : read8 pkt 0 = some tableId)
    (switched : carrier.reads ≠ []) (unread : tableId ∉ carrier.reads)
    (before next : Analysis D P O)
    (done : before.tableProc ops outside pid pkt len carrier.proc = some next) :
    SameTables carrier.proc before next := by
  have silent : ∀ proc : Proc, proc.target pkt = some none →
      before.sectionProc ops outside pkt len proc = some next →
      SameTables carrier.proc before next := by
    intro proc target taken
    rw [Analysis.sectionProc, target] at taken
    cases taken
    exact SameTables.refl before
  cases carrier with
  | pat => exact absurd rfl switched
  | cat => exact absurd rfl switched
  | tsdt => exact absurd rfl switched
  | psip => exact absurd rfl switched
  | nit =>
    simp only [Carrier.reads, List.mem_cons, List.not_mem_nil, or_false, not_or] at unread
    exact silent .nit (by simp [Proc.target, first, unread]) done
  | sdtBat =>
    simp only [Carrier.reads, List.mem_cons, List.not_mem_nil, or_false, not_or] at unread
    exact silent .sdtBat (by simp [Proc.target, first, unread]) done
  | eit =>
    simp only [Carrier.reads, List.mem_cons, List.not_mem_nil, or_false, not_or] at unread
    exact silent .eit (by simp [Proc.target, first, unread]) done
  | tdtTot =>
    simp only [Carrier.reads, List.mem_cons, List.not_mem_nil, or_false, not_or] at unread
    have same : some before = some next := by
      simpa [Carrier.proc, Analysis.tableProc, Analysis.tdtTotProc, first, unread] using done
    cases same
    exact SameTables.refl before

end Handling

section Treatment

variable {carrier : Carrier} {one other : Client Callback} (all : Begun tableFilters one)
variable (selected : Begun [⟨carrier.pid, 0, 0, .default⟩] other) (tableId : UInt8)
include all selected

-- the filters of a carrier's PID: those of the start, and dynamic ones
theorem carrier_orders : ∃ fresh more : List (FilterParam × Callback),
    (one.order carrier.pid).map entry = startAll carrier ++ fresh ∧
    (other.order carrier.pid).map entry = startSelected ++ more ∧
    (∀ filter ∈ fresh, Dynamic filter) ∧ ∀ filter ∈ more, Dynamic filter := by
  rcases all.order carrier.pid with ⟨fresh, order, dynamic⟩
  rcases selected.order carrier.pid with ⟨more, otherOrder, otherDynamic⟩
  refine ⟨fresh, more, order, ?_, dynamic, otherDynamic⟩
  simpa [startSelected, TableFilter.entry] using otherOrder

theorem treated_equally (treated : carrier.Treated one other tableId)
    (relevant : carrier.reads = [] ∨ tableId ∈ carrier.reads) :
    timesServed tableId carrier.pid carrier.proc ((one.order carrier.pid).map entry) =
      timesServed tableId carrier.pid carrier.proc ((other.order carrier.pid).map entry) := by
  rcases carrier_orders all selected with ⟨fresh, more, order, otherOrder, dynamic, otherDynamic⟩
  have quiet : ∀ filters : List (FilterParam × Callback), (∀ filter ∈ filters, Dynamic filter) →
      tableId ≠ 0 ∨ defaultProc carrier.pid ≠ carrier.proc →
      timesServed tableId carrier.pid carrier.proc filters = 0 :=
    fun filters known unserved =>
      timesServed_dynamic tableId carrier.pid carrier.proc carrier.proc_tabled unserved filters known
  have switched : tableId ∈ carrier.reads →
      timesServed tableId carrier.pid carrier.proc (startAll carrier ++ fresh) =
        timesServed tableId carrier.pid carrier.proc (startSelected ++ more) := by
    intro reads
    rcases reads_once tableId carrier reads with ⟨late, once⟩
    rw [timesServed_append, timesServed_append, once, quiet fresh dynamic (Or.inl late),
      quiet more otherDynamic (Or.inl late)]
  rw [order, otherOrder]
  cases carrier with
  | pat =>
    rcases treated with ⟨rfl, streams⟩
    rw [sectionStreams, sectionStreams] at streams
    change ((one.order (Carrier.pat).pid).map entry).countP isSectionEntry =
      ((other.order (Carrier.pat).pid).map entry).countP isSectionEntry at streams
    rw [order, otherOrder, List.countP_append, List.countP_append] at streams
    have none : (startAll .pat).countP isSectionEntry = 0 := by decide +kernel
    have noneSelected : startSelected.countP isSectionEntry = 0 := by decide +kernel
    have once : timesServed 0 (Carrier.pat).pid (Carrier.pat).proc (startAll .pat) =
        timesServed 0 (Carrier.pat).pid (Carrier.pat).proc startSelected := by decide +kernel
    rw [none, noneSelected, Nat.zero_add, Nat.zero_add, ← timesServed_pat fresh dynamic,
      ← timesServed_pat more otherDynamic] at streams
    rw [timesServed_append, timesServed_append, once]
    exact congrArg _ streams
  | cat =>
    have first : tableId = 1 := treated
    subst first
    have once : timesServed 1 (Carrier.cat).pid (Carrier.cat).proc (startAll .cat) =
        timesServed 1 (Carrier.cat).pid (Carrier.cat).proc startSelected := by decide +kernel
    rw [timesServed_append, timesServed_append, once, quiet fresh dynamic (Or.inl (by decide)),
      quiet more otherDynamic (Or.inl (by decide))]
  | tsdt =>
    have third : tableId ≠ 3 := treated
    have unlisted := unlisted_unserved tableId [3] (Carrier.tsdt).pid (Carrier.tsdt).proc
      (by simpa using third)
    have undefaulted := startSelected_unserved tableId (Carrier.tsdt).pid (Carrier.tsdt).proc
      (by decide)
    rw [timesServed_append, timesServed_append, undefaulted,
      quiet fresh dynamic (Or.inr (by decide)), quiet more otherDynamic (Or.inr (by decide))]
    exact unlisted
  | psip =>
    have foreign : tableId ∉ psipTableIds := treated
    have unlisted := unlisted_unserved tableId psipTableIds (Carrier.psip).pid (Carrier.psip).proc
      foreign
    have undefaulted := startSelected_unserved tableId (Carrier.psip).pid (Carrier.psip).proc
      (by decide)
    rw [timesServed_append, timesServed_append, undefaulted,
      quiet fresh dynamic (Or.inr (by decide)), quiet more otherDynamic (Or.inr (by decide))]
    exact unlisted
  | nit => exact switched (relevant.resolve_left (by decide))
  | sdtBat => exact switched (relevant.resolve_left (by decide))
  | eit => exact switched (relevant.resolve_left (by decide))
  | tdtTot => exact switched (relevant.resolve_left (by decide))

-- default_proc leads to no PSIP parser
theorem psip_undefaulted (psip : carrier = .psip) :
    timesServed tableId carrier.pid carrier.proc ((other.order carrier.pid).map entry) = 0 := by
  subst psip
  rcases carrier_orders all selected with ⟨fresh, more, order, otherOrder, dynamic, otherDynamic⟩
  rw [otherOrder, timesServed_append, startSelected_unserved tableId _ _ (by decide),
    timesServed_dynamic tableId _ _ (by decide) (Or.inr (by decide)) more otherDynamic]

end Treatment

-- the same packet in the run without a selected PID and in the run with one
def both (env : Environment (Analysis D P O)) (pair : Ts (Analysis D P O) × Ts (Analysis D P O))
    (packet : List UInt8) : Option (Ts (Analysis D P O) × Ts (Analysis D P O)) := do
  let one ← procStep env pair.1 (ofBytes packet) packet.length
  let other ← procStep env pair.2 (ofBytes packet) packet.length
  return (one, other)

theorem both_taken (env : Environment (Analysis D P O))
    (pair : Ts (Analysis D P O) × Ts (Analysis D P O)) (packet : List UInt8)
    (one other : Ts (Analysis D P O))
    (oneTaken : procStep env pair.1 (ofBytes packet) packet.length = some one)
    (otherTaken : procStep env pair.2 (ofBytes packet) packet.length = some other) :
    both env pair packet = some (one, other) := by
  simp [both, oneTaken, otherTaken]

/-- The condition on a packet: a section that it completes on the PID is treated alike. -/
def Carrier.Agrees (carrier : Carrier) (env : Environment (Analysis D P O))
    (pair : Ts (Analysis D P O) × Ts (Analysis D P O)) (packet : List UInt8) : Prop :=
  ∀ pbuf length tableId,
    sectionOn env pair.1 carrier.pid (ofBytes packet) packet.length = some (pbuf, length) →
    read8 pbuf 0 = some tableId →
    carrier.Treated pair.1.environment.pids.filters pair.2.environment.pids.filters tableId

structure Alike (carrier : Carrier) (pair : Ts (Analysis D P O) × Ts (Analysis D P O)) :
    Prop where
  all : Begun tableFilters pair.1.environment.pids.filters
  selected : Begun [⟨carrier.pid, 0, 0, .default⟩] pair.2.environment.pids.filters
  sec : carrier.pid.val < 0x20 → pair.1.sec carrier.pid = pair.2.sec carrier.pid
  tables : SameTables carrier.proc pair.1.environment pair.2.environment

variable (detail : Bool)

theorem step_begun (tables : List TableFilter) (state after : Ts (Analysis D P O)) (pid : Pid)
    (data : Block) (len : Nat) (begun : Begun tables state.environment.pids.filters)
    (step : StepOn (environment ops outside detail) state after pid data len) :
    Begun tables after.environment.pids.filters := by
  cases given : sectionOn (environment ops outside detail) state pid data len with
  | none =>
    rcases step.elsewhere given with same | ⟨other, pbuf, length, -, done⟩
    · rw [same]
      exact begun
    · exact filterProc_begun tables _ _ begun done
  | some found => exact filterProc_begun tables _ _ begun (step.passed found.1 found.2 given)

theorem step_unserved (carrier : Carrier) (tables : List TableFilter)
    (homed : Homed carrier tables) (state after : Ts (Analysis D P O)) (data : Block) (len : Nat)
    (begun : Begun tables state.environment.pids.filters)
    (step : StepOn (environment ops outside detail) state after carrier.pid data len)
    (unserved : ∀ pbuf length tableId,
      sectionOn (environment ops outside detail) state carrier.pid data len =
        some (pbuf, length) → read8 pbuf 0 = some tableId →
      timesServed tableId carrier.pid carrier.proc
        ((state.environment.pids.filters.order carrier.pid).map entry) = 0) :
    SameTables carrier.proc state.environment after.environment := by
  cases given : sectionOn (environment ops outside detail) state carrier.pid data len with
  | none =>
    rcases step.elsewhere given with same | ⟨other, pbuf, length, different, done⟩
    · rw [same]
      exact SameTables.refl _
    · exact filterProc_unserved carrier tables _ _ begun
        (fun tableId _ => elsewhere_unserved carrier homed _ begun tableId other different) done
  | some found =>
    exact filterProc_unserved carrier tables _ _ begun
      (fun tableId first => unserved found.1 found.2 tableId given first)
      (step.passed found.1 found.2 given)

-- one section in both runs
theorem section_same (carrier : Carrier) (one other oneAfter otherAfter : Analysis D P O)
    (pbuf : Block) (length : Nat) (all : Begun tableFilters one.pids.filters)
    (selected : Begun [⟨carrier.pid, 0, 0, .default⟩] other.pids.filters)
    (treated : ∀ tableId, read8 pbuf 0 = some tableId →
      carrier.Treated one.pids.filters other.pids.filters tableId)
    (same : SameTables carrier.proc one other)
    (oneDone : one.filterProc ops outside carrier.pid pbuf length = some oneAfter)
    (otherDone : other.filterProc ops outside carrier.pid pbuf length = some otherAfter) :
    SameTables carrier.proc oneAfter otherAfter := by
  cases first : read8 pbuf 0 with
  | none =>
    have unread : ∀ tableId, read8 pbuf 0 = some tableId → False := by
      intro tableId found
      rw [first] at found
      cases found
    have oneKept := filterProc_unserved carrier tableFilters one oneAfter all
      (fun tableId found => (unread tableId found).elim) oneDone
    have otherKept := filterProc_unserved carrier _ other otherAfter selected
      (fun tableId found => (unread tableId found).elim) otherDone
    exact oneKept.symm.trans (same.trans otherKept)
  | some tableId =>
    have oneServed := (filterProc_served first carrier.proc_tabled one oneAfter all.tame oneDone).2
    have otherServed :=
      (filterProc_served first carrier.proc_tabled other otherAfter selected.tame otherDone).2
    rw [matching_count] at oneServed otherServed
    by_cases relevant : carrier.reads = [] ∨ tableId ∈ carrier.reads
    · rw [treated_equally all selected tableId (treated tableId first) relevant] at oneServed
      exact oneServed.same otherServed same
    · rw [not_or] at relevant
      have oneKept := oneServed.ignored
        (unread_ignored carrier tableId first relevant.1 relevant.2)
      have otherKept := otherServed.ignored
        (unread_ignored carrier tableId first relevant.1 relevant.2)
      exact oneKept.symm.trans (same.trans otherKept)

theorem alike_next (carrier : Carrier) (pair : Ts (Analysis D P O) × Ts (Analysis D P O))
    (packet : List UInt8) (after : Ts (Analysis D P O) × Ts (Analysis D P O))
    (alike : Alike carrier pair)
    (agrees : carrier.Agrees (environment ops outside detail) pair packet)
    (taken : both (environment ops outside detail) pair packet = some after) :
    Alike carrier after := by
  rcases Option.bind_eq_some_iff.mp taken with ⟨one, oneTaken, rest⟩
  rcases Option.bind_eq_some_iff.mp rest with ⟨other, otherTaken, same⟩
  cases same
  have oneStep := procStep_on _ pair.1 one carrier.pid _ _ oneTaken
  have otherStep := procStep_on _ pair.2 other carrier.pid _ _ otherTaken
  have handled : carrier.pid.val < 0x20 →
      handledOn (environment ops outside detail) pair.1 carrier.pid (ofBytes packet)
          packet.length =
        handledOn (environment ops outside detail) pair.2 carrier.pid (ofBytes packet)
          packet.length :=
    fun low => handledOn_low _ pair.1 pair.2 carrier.pid low (fun _ => rfl) _ _ (alike.sec low)
  refine ⟨step_begun detail _ _ _ _ _ _ alike.all oneStep,
    step_begun detail _ _ _ _ _ _ alike.selected otherStep, fun low => ?_, ?_⟩
  · rw [oneStep.sec, otherStep.sec, handled low, alike.sec low]
  · by_cases low : carrier.pid.val < 0x20
    · have sections : sectionOn (environment ops outside detail) pair.2 carrier.pid
            (ofBytes packet) packet.length =
          sectionOn (environment ops outside detail) pair.1 carrier.pid
            (ofBytes packet) packet.length := by
        rw [sectionOn, sectionOn, handled low]
      cases given : sectionOn (environment ops outside detail) pair.1 carrier.pid
          (ofBytes packet) packet.length with
      | none =>
        rw [given] at sections
        have oneKept := step_unserved detail carrier tableFilters (homed_all carrier) _ _ _ _
          alike.all oneStep fun pbuf length tableId found => by
            rw [given] at found
            cases found
        have otherKept := step_unserved detail carrier _ (homed_selected carrier) _ _ _ _
          alike.selected otherStep fun pbuf length tableId found => by
            rw [sections] at found
            cases found
        exact oneKept.symm.trans (alike.tables.trans otherKept)
      | some found =>
        exact section_same carrier _ _ _ _ found.1 found.2 alike.all alike.selected
          (fun tableId first => agrees found.1 found.2 tableId given first) alike.tables
          (oneStep.passed found.1 found.2 given)
          (otherStep.passed found.1 found.2 (sections.trans given))
    · have psip : carrier = .psip := by
        cases carrier with
        | psip => rfl
        | _ => exact absurd (by decide) low
      have silent : ∀ tableId, timesServed tableId carrier.pid carrier.proc
          ((pair.2.environment.pids.filters.order carrier.pid).map entry) = 0 :=
        fun tableId => psip_undefaulted alike.all alike.selected tableId psip
      have oneKept := step_unserved detail carrier tableFilters (homed_all carrier) _ _ _ _
        alike.all oneStep fun pbuf length tableId given first => by
          rw [treated_equally alike.all alike.selected tableId
            (agrees pbuf length tableId given first) (Or.inl (psip ▸ rfl)), silent]
      have otherKept := step_unserved detail carrier _ (homed_selected carrier) _ _ _ _
        alike.selected otherStep fun pbuf length tableId _ _ => silent tableId
      exact oneKept.symm.trans (alike.tables.trans otherKept)

def started (selected : Pid → Bool) (psip : P) (streams : O) : Ts (Analysis D P O) where
  environment := Analysis.initial selected psip streams

/-- The run without a selected PID and the run with this one. -/
def startBoth (carrier : Carrier) (psip : P) (streams : O) :
    Ts (Analysis D P O) × Ts (Analysis D P O) :=
  (started (fun _ => false) psip streams, started (fun pid => pid = carrier.pid) psip streams)

theorem alike_start (carrier : Carrier) (psip : P) (streams : O) :
    Alike carrier (startBoth carrier psip streams : Ts (Analysis D P O) × Ts (Analysis D P O)) where
  all := begun_all
  selected := begun_selected carrier
  sec _ := rfl
  tables := SameTables.untouched _ _ _

/-- Selecting a PID keeps what is parsed on it, as long as its sections are treated alike. -/
theorem selected_same (ops : DescriptorOps D) (outside : Outside P O) (detail : Bool)
    (carrier : Carrier) (psip : P) (streams : O) (packets : List (List UInt8))
    (agree : Runs.EachTry (both (environment ops outside detail))
      (carrier.Agrees (environment ops outside detail)) (startBoth carrier psip streams) packets) :
    Runs.Always (both (environment ops outside detail))
      (fun pair => SameTables carrier.proc pair.1.environment pair.2.environment)
      (startBoth carrier psip streams) packets := by
  have always := Runs.Always.of_eachTry (alike_next detail carrier) _ packets
    (alike_start carrier psip streams) agree
  exact always.mono fun _ alike => alike.tables

-- nothing is kept of PSIP, of SCTE 35 and of PES packets
def silence : Outside Unit Unit where
  atscPsipProc _ _ _ := some ()
  scteProc _ _ _ _ := some ()
  pesProc _ _ _ _ := some ()
  registers _ _ := ()

-- an SDT of the actual stream without services on PID 0x11
def sdtPacket : List UInt8 :=
  [0x47, 0x40, 0x11, 0x10, 0x00, 0x42, 0xB0, 12, 0, 1, 0xC1, 0, 0, 0, 1, 0xFF, 1, 2, 3, 4] ++
    List.replicate 168 0xFF

theorem selected_same_sdt :
    Runs.Always (both (environment plainOps silence false))
      (fun pair => SameTables .sdtBat pair.1.environment pair.2.environment)
      (startBoth .sdtBat () ()) [sdtPacket] :=
  selected_same plainOps silence false .sdtBat () () [sdtPacket]
    ⟨fun _ _ _ _ _ => trivial, fun _ _ => trivial⟩

-- a TSDT without descriptors on PID 2
def tsdtPacket : List UInt8 :=
  [0x47, 0x40, 0x02, 0x10, 0x00, 0x03, 0xB0, 9, 0, 1, 0xC1, 0, 0, 1, 2, 3, 4] ++
    List.replicate 171 0xFF

def registeredPids (tables : List TableFilter) (sectionBitmap : Nat → Bool) : Pids where
  filters := initFilters (Client.initial fun _ => {}) tables
  sectionBitmap := sectionBitmap

theorem init_all : Pids.init (fun _ => false) =
    registeredPids tableFilters fun pid => decide (pid = mgtPid) := by
  simp [Pids.init, registeredPids, initFilters, chosenFilters_none]

theorem init_selected (pid : Pid) (proper : pid.val < 8191) :
    Pids.init (fun other => other = pid) =
      registeredPids [⟨pid, 0, 0, .default⟩] fun _ => false := by
  simp [Pids.init, registeredPids, initFilters, chosenFilters_one pid proper]

-- the section_length in psi.tsdt after the packet
def tsdtLength (selected : Pid → Bool) : Option Nat :=
  (procStep (environment plainOps silence false) (started selected () ()) (ofBytes tsdtPacket)
    tsdtPacket.length).map fun state => (state.environment.tables .tsdt).table.header.sectionLength

theorem tsdtLength_all : tsdtLength (fun _ => false) = some 9 := by
  rw [tsdtLength, started, Analysis.initial, init_all]
  decide +kernel

theorem tsdtLength_selected : tsdtLength (fun pid => pid = (Carrier.tsdt).pid) = some 0 := by
  rw [tsdtLength, started, Analysis.initial, init_selected (Carrier.tsdt).pid (by decide)]
  decide +kernel

theorem selected_tsdt_lost :
    ¬Runs.Always (both (environment plainOps silence false))
      (fun pair => SameTables .tsdt pair.1.environment pair.2.environment)
      (startBoth .tsdt () ()) [tsdtPacket] := by
  intro always
  rcases Option.map_eq_some_iff.mp tsdtLength_all with ⟨one, oneTaken, nine⟩
  rcases Option.map_eq_some_iff.mp tsdtLength_selected with ⟨other, otherTaken, zero⟩
  have taken := both_taken (environment plainOps silence false) (startBoth .tsdt () ()) tsdtPacket
    one other oneTaken otherTaken
  have same := (always.2 (one, other) taken).tables .tsdt rfl
  rw [same, zero] at nine
  cases nine

end TsAnalyze.Tables
