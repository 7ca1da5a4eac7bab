import TsAnalyze.Filters.History
import TsAnalyze.Tables.VersionRun

set_option autoImplicit false

namespace TsAnalyze.Tables

open Memory Demux Filters

-- the callbacks that init_table_ops and register_pmt_ops register
inductive TableProc
  | default
  | pat
  | cat
  | tsdt
  | nit
  | eit
  | sdtBat
  | tdtTot
  | atscPsip
  | pmt
deriving DecidableEq

structure TableFilter where
  pid : Pid
  tableid : UInt8
  mask : UInt8
  func : TableProc

def initTableFilter (memory : Bool) (pidFilter : PidFilter TableProc) (filter : TableFilter) :
    PidFilter TableProc :=
  let allocated := filterAlloc memory pidFilter filter.pid
  (filterSet allocated.1 allocated.2 (some (tableParam filter.tableid filter.mask))
    filter.func).1

def tableFilters : List TableFilter :=
  [⟨0, 0x00, 0xFF, .pat⟩, ⟨1, 0x01, 0xFF, .cat⟩, ⟨2, 0x03, 0xFF, .tsdt⟩,
    ⟨0x10, 0x40, 0xFE, .nit⟩, ⟨0x12, 0x4E, 0xFE, .eit⟩,
    ⟨0x11, 0x42, 0xFF, .sdtBat⟩, ⟨0x11, 0x46, 0xFF, .sdtBat⟩, ⟨0x11, 0x4A, 0xFF, .sdtBat⟩,
    ⟨0x14, 0x70, 0xFF, .tdtTot⟩, ⟨0x14, 0x73, 0xFF, .tdtTot⟩,
    ⟨0x1FFB, 0xC7, 0xFF, .atscPsip⟩, ⟨0x1FFB, 0xC8, 0xFF, .atscPsip⟩,
    ⟨0x1FFB, 0xC9, 0xFF, .atscPsip⟩, ⟨0x1FFB, 0xCA, 0xFF, .atscPsip⟩,
    ⟨0x1FFB, 0xCC, 0xFF, .atscPsip⟩, ⟨0x1FFB, 0xCB, 0xFF, .atscPsip⟩,
    ⟨0x1FFB, 0xCD, 0xFF, .atscPsip⟩, ⟨0x1FFB, 0xD3, 0xFF, .atscPsip⟩,
    ⟨0x1FFB, 0xD4, 0xFF, .atscPsip⟩]

-- a PID of the command line is given a filter of its own, and then there are no others
def chosenFilters (pids : Pid → Bool) : List TableFilter :=
  ((List.finRange 8192).filter fun pid => pid.val < 8191 && pids pid).map
    fun pid => ⟨pid, 0, 0, .default⟩

-- `memory` is whether realloc succeeds for a filter
def initTableOps (memory : TableFilter → Bool) (pids : Pid → Bool)
    (pidFilter : PidFilter TableProc) : PidFilter TableProc :=
  let filters := if chosenFilters pids = [] then tableFilters else chosenFilters pids
  filters.foldl (fun pidFilter filter => initTableFilter (memory filter) pidFilter filter) pidFilter

/-- The PATs, with the registry of the PIDs that they announce PMTs on. -/
structure PmtState where
  versions : Versions Pat
  pmtBitmap : Nat → Bool := fun _ => false
  pidFilter : PidFilter TableProc
  -- does the n-th realloc succeed, and how many have there been?
  reallocs : Nat → Bool
  asked : Nat := 0

def nitPid : Nat := 0x10

def pmtTid : UInt8 := 0x02

def pmtFilter (pid : Nat) : TableFilter :=
  ⟨Fin.ofNat 8192 pid, pmtTid, 0xFF, .pmt⟩

def registerPmtOps (state : PmtState) (pid : Nat) : PmtState :=
  if pid = nitPid then state
  else
    { state with
      pmtBitmap := Function.update state.pmtBitmap pid true
      pidFilter := initTableFilter (state.reallocs state.asked) state.pidFilter (pmtFilter pid)
      asked := state.asked + 1 }

-- parse_pat registers nothing else
def perform (state : PmtState) : Registration → PmtState
  | .pmt pid => registerPmtOps state pid
  | _ => state

def PmtState.next (state : PmtState) (sec : Block × Nat) : Option PmtState := do
  let versions ← patProc state.versions sec.1 sec.2
  let registered := versions.registered.drop state.versions.registered.length
  return registered.foldl perform { state with versions := versions }

def AnnouncedBy (versions : Versions Pat) (pid : Nat) : Prop :=
  ∃ table ∈ versions.list, ∃ pn ∈ table.content.h, pn.programMapPid = pid

def HasPmtFilter (pidFilter : PidFilter TableProc) (pid : Pid) : Prop :=
  ∃ slot ∈ (pidFilter pid).slots, slot.para.OnlyTable pmtTid ∧ slot.callback = some .pmt

/-- The bits and the filters are those of the PIDs that the PATs announce. -/
def PmtState.Matches (state : PmtState) : Prop :=
  ∀ pid : Pid, pid.val ≠ nitPid →
    (state.pmtBitmap pid = true ↔ AnnouncedBy state.versions pid) ∧
    (AnnouncedBy state.versions pid → HasPmtFilter state.pidFilter pid)

-- the programs in front of the first program_number 0xFFFF
def readPrograms : Nat → Block → Int → Option (List ProgramNode)
  | 0, _, sectionLen => if 0 < sectionLen then none else some []
  | turns + 1, pdata, sectionLen =>
      if 0 < sectionLen then do
        let programNum ← read16 pdata 0
        let word ← read16 pdata 2
        if programNum = 0xFFFF then return []
        else
          let rest ← readPrograms turns (pdata.drop 4) (toUInt16 (sectionLen - 4))
          return ⟨programNum, word &&& 0x1FFF⟩ :: rest
      else some []

-- the table that a section belongs to: the active one, or one that is opened for it
def Versions.target (versions : Versions Pat) (pbuf : Block) : Option (Heap × Table Pat) := do
  let ret ← checkSectionHeaderVersion pbuf versions.curVersion
  if ret = 1 then return (versions.heap.reserve.2, { header := { versionNumber := 0x1F }, content := {} })
  else if ret = 0 then versions.active.map fun table => (versions.heap, table)
  else none

/-- The programs of the table that a section completes, and those that are decoded into it. -/
def completedPrograms (versions : Versions Pat) (pbuf : Block) (bufSize : Nat) :
    Option (List ProgramNode) := do
  let (heap, table) ← versions.target pbuf
  let parsed ← parseSectionHeader heap pbuf bufSize table.header
  if parsed.ret = 0 then
    let pdata := privateData parsed
    let programs ← readPrograms (pdata.length + 1) pdata
      (toUInt16 (parsed.header.sectionLength - (5 + 4)))
    return table.content.h ++ programs
  else none

-- no program_number has two PIDs
def Agreeing (programs : List ProgramNode) : Prop :=
  ∀ one ∈ programs, ∀ other ∈ programs,
    one.programNumber = other.programNumber → one.programMapPid = other.programMapPid

instance (programs : List ProgramNode) : Decidable (Agreeing programs) :=
  inferInstanceAs (Decidable (∀ one ∈ programs, ∀ other ∈ programs, _ → _))

def PmtState.Agrees (state : PmtState) (sec : Block × Nat) : Prop :=
  ∀ programs, completedPrograms state.versions sec.1 sec.2 = some programs →
    Agreeing programs

/-- A program_number has its bit when it has a node. -/
def Pat.Indexed (pat : Pat) : Prop :=
  ∀ programNum, pat.programBitmap programNum = true ↔
    ∃ pn ∈ pat.h, pn.programNumber = programNum

theorem indexed_add (pat : Pat) (indexed : pat.Indexed) (programNum programMapPid : Nat) :
    (pat.add programNum programMapPid).Indexed := by
  intro number
  by_cases same : number = programNum
  · subst same
    simp [Pat.add]
  · have known := indexed number
    simp [Pat.add, same, known, Ne.symm same]

theorem indexed_setPid (pat : Pat) (indexed : pat.Indexed) (programNum programMapPid : Nat) :
    (pat.setPid programNum programMapPid).Indexed := by
  intro number
  have kept : ∀ pn : ProgramNode, (if pn.programNumber = programNum then
      { pn with programMapPid := programMapPid } else pn).programNumber = pn.programNumber := by
    intro pn
    split <;> rfl
  rw [Pat.setPid]
  simp only [List.mem_map, exists_exists_and_eq_and, kept]
  exact indexed number

theorem setPid_agreeing (pat : Pat) (programNum programMapPid : Nat)
    (agrees : ∀ pn ∈ pat.h, pn.programNumber = programNum → pn.programMapPid = programMapPid) :
    pat.setPid programNum programMapPid = pat := by
  have each : pat.h.map (fun pn => if pn.programNumber = programNum then
      { pn with programMapPid := programMapPid } else pn) = pat.h := by
    refine (List.map_congr_left fun pn member => ?_).trans (List.map_id _)
    split
    · rename_i same
      rw [← agrees pn member same]
      rfl
    · rfl
  rw [Pat.setPid, each]

/-- What parse_pat's loop makes of programs that agree: new nodes, each of them registered. -/
structure Extended (pat : Pat) (registered : List Registration) (result : Decoded Pat) :
    Prop where
  indexed : result.content.Indexed
  grown : ∃ fresh : List ProgramNode, result.content.h = pat.h ++ fresh ∧
    result.registered = registered ++ fresh.map fun pn => .pmt pn.programMapPid

theorem agreeing_subset (fewer programs : List ProgramNode) (agreeing : Agreeing programs)
    (subset : fewer ⊆ programs) : Agreeing fewer :=
  fun one member other otherMember => agreeing one (subset member) other (subset otherMember)

theorem patLoop_extends (turns : Nat) (pdata : Block) (sectionLen : Int) (pat : Pat)
    (registered : List Registration) (heap : Heap) (result : Decoded Pat × Heap)
    (available : heap.Available) (indexed : pat.Indexed)
    (found : patLoop turns pdata sectionLen pat registered heap = some result) :
    ∃ programs, readPrograms turns pdata sectionLen = some programs ∧
      (Agreeing (pat.h ++ programs) → Extended pat registered result.1) := by
  induction turns generalizing pdata sectionLen pat registered heap with
  | zero =>
    rw [patLoop] at found
    split at found
    · cases found
    · rename_i finished
      rw [readPrograms, if_neg finished, ← Option.some.inj found]
      exact ⟨[], rfl, fun _ => ⟨indexed, [], by simp, by simp⟩⟩
  | succ turns ih =>
    rw [patLoop] at found
    split at found
    · rename_i more
      rcases lift_bind found with ⟨programNum, numRead, afterNum⟩
      rcases lift_bind afterNum with ⟨word, wordRead, later⟩
      rw [readPrograms, if_pos more, numRead, wordRead]
      simp only [Option.bind_eq_bind, Option.bind_some, Option.pure_def] at later ⊢
      split at later
      · rename_i last
        rw [if_pos last, ← Option.some.inj later]
        exact ⟨[], rfl, fun _ => ⟨indexed, [], by simp, by simp⟩⟩
      rename_i proper
      rw [if_neg proper]
      split at later
      · rcases ih _ _ _ _ heap available (indexed_setPid pat indexed programNum (word &&& 0x1FFF))
          later with ⟨programs, read, grows⟩
        refine ⟨⟨programNum, word &&& 0x1FFF⟩ :: programs, by rw [read]; rfl, fun agreeing => ?_⟩
        have same : pat.setPid programNum (word &&& 0x1FFF) = pat := by
          apply setPid_agreeing
          intro pn member number
          exact agreeing pn (List.mem_append_left _ member) ⟨programNum, word &&& 0x1FFF⟩
            (List.mem_append_right _ List.mem_cons_self) number
        rw [same] at grows
        apply grows
        apply agreeing_subset _ _ agreeing
        intro pn member
        rcases List.mem_append.mp member with old | new
        · exact List.mem_append_left _ old
        · exact List.mem_append_right _ (List.mem_cons_of_mem _ new)
      · have last := reserve_bind later
        have given : heap.reserve.1 = true := available _
        rw [if_pos given] at last
        rcases ih _ _ _ _ heap.reserve.2 available
          (indexed_add pat indexed programNum (word &&& 0x1FFF)) last with
          ⟨programs, read, grows⟩
        refine ⟨⟨programNum, word &&& 0x1FFF⟩ :: programs, by rw [read]; rfl, fun agreeing => ?_⟩
        rcases grows (by simpa [Pat.add] using agreeing) with
          ⟨afterIndexed, fresh, nodes, logged⟩
        refine ⟨afterIndexed, ⟨programNum, word &&& 0x1FFF⟩ :: fresh, ?_, ?_⟩
        · simpa [Pat.add] using nodes
        · simpa using logged
    · rename_i finished
      rw [readPrograms, if_neg finished, ← Option.some.inj found]
      exact ⟨[], rfl, fun _ => ⟨indexed, [], by simp, by simp⟩⟩

theorem parseTable_extends (heap : Heap) (table : Table Pat) (pbuf : Block) (bufSize : Nat)
    (handled : Handled (Table Pat)) (available : heap.Available) (indexed : table.content.Indexed)
    (agrees : ∀ parsed, parseSectionHeader heap pbuf bufSize table.header = some parsed →
      parsed.ret = 0 → ∀ programs, readPrograms ((privateData parsed).length + 1)
        (privateData parsed) (toUInt16 (parsed.header.sectionLength - (5 + 4))) = some programs →
      Agreeing (table.content.h ++ programs))
    (result : parseTable decodePat heap pbuf bufSize table = some handled) :
    Extended table.content []
      { content := handled.table.content, registered := handled.registered } := by
  rcases Option.bind_eq_some_iff.mp result with ⟨parsed, header, later⟩
  split at later
  · rw [← Option.some.inj later]
    exact ⟨indexed, [], by simp, by simp⟩
  · rename_i zero
    rcases Option.map_eq_some_iff.mp later with ⟨decoding, found, rfl⟩
    have supply := available.of_succeeds
      (parseSectionHeader_succeeds heap pbuf bufSize table.header parsed header)
    rcases patLoop_extends _ _ _ table.content [] parsed.heap decoding supply indexed found with
      ⟨programs, read, grows⟩
    have grown := grows (agrees parsed header (not_not.mp zero) programs read)
    exact ⟨grown.indexed, grown.grown⟩

/-- A PAT section adds programs to the PATs and registers exactly those. -/
structure Grown (before after : Versions Pat) (fresh : List ProgramNode) : Prop where
  available : after.heap.Available
  indexed : ∀ table ∈ after.active, table.content.Indexed
  logged : after.registered = before.registered ++ fresh.map fun pn => .pmt pn.programMapPid
  announced : ∀ pid, AnnouncedBy after pid ↔
    AnnouncedBy before pid ∨ ∃ pn ∈ fresh, pn.programMapPid = pid

theorem parse_grows (versions after : Versions Pat) (pbuf : Block) (bufSize : Nat) (ret : Int)
    (available : versions.heap.Available)
    (indexed : ∀ table ∈ versions.active, table.content.Indexed)
    (agrees : ∀ table ∈ versions.active, ∀ parsed,
      parseSectionHeader versions.heap pbuf bufSize table.header = some parsed → parsed.ret = 0 →
      ∀ programs, readPrograms ((privateData parsed).length + 1) (privateData parsed)
        (toUInt16 (parsed.header.sectionLength - (5 + 4))) = some programs →
      Agreeing (table.content.h ++ programs))
    (parsed : versions.parse decodePat pbuf bufSize = some (after, ret)) :
    ∃ fresh, Grown versions after fresh := by
  cases opened : versions.active with
  | none =>
    rw [Versions.parse, opened] at parsed
    rcases Prod.mk.inj (Option.some.inj parsed) with ⟨rfl, -⟩
    exact ⟨[], available, indexed, by simp, by simp⟩
  | some table =>
    rw [Versions.parse, opened] at parsed
    rcases Option.map_eq_some_iff.mp parsed with ⟨handled, result, pair⟩
    rcases Prod.mk.inj pair with ⟨rfl, -⟩
    have extended := parseTable_extends versions.heap table pbuf bufSize handled available
      (indexed table opened) (agrees table opened) result
    rcases extended.grown with ⟨fresh, nodes, logged⟩
    refine ⟨fresh, ?_, ?_, ?_, fun pid => ?_⟩
    · exact available.of_succeeds
        (parseTable_succeeds decodePat_lawful versions.heap table pbuf bufSize handled result)
    · rintro other ⟨⟩
      exact extended.indexed
    · simpa using logged
    · have last : handled.table.content.h = table.content.h ++ fresh := nodes
      simp only [AnnouncedBy, Versions.list, opened, Option.toList_some, List.mem_append,
        List.mem_singleton, or_and_right, exists_or, exists_eq_left, last, or_assoc]

theorem indexed_empty : ({} : Pat).Indexed := by
  intro programNum
  simp

theorem announcedBy_open (versions : Versions Pat) (pid : Nat) :
    AnnouncedBy (versions.open {}) pid ↔ AnnouncedBy versions pid := by
  constructor
  · rintro ⟨table, member, pn, inside, same⟩
    rcases List.mem_append.mp member with earlier | last
    · exact ⟨table, earlier, pn, inside, same⟩
    · rw [List.mem_singleton.mp last] at inside
      cases inside
  · rintro ⟨table, member, announces⟩
    exact ⟨table, List.mem_append_left _ member, announces⟩

theorem completedPrograms_of (versions : Versions Pat) (pbuf : Block) (bufSize : Nat) (heap : Heap)
    (table : Table Pat) (header : Parsed) (programs : List ProgramNode)
    (target : versions.target pbuf = some (heap, table))
    (found : parseSectionHeader heap pbuf bufSize table.header = some header)
    (zero : header.ret = 0)
    (read : readPrograms ((privateData header).length + 1) (privateData header)
      (toUInt16 (header.header.sectionLength - (5 + 4))) = some programs) :
    completedPrograms versions pbuf bufSize = some (table.content.h ++ programs) := by
  rw [completedPrograms, target, Option.bind_eq_bind, Option.bind_some]
  simp only [found, Option.bind_eq_bind, Option.bind_some, if_pos zero, read]
  rfl

theorem parsePat_grows (versions after : Versions Pat) (pbuf : Block) (bufSize : Nat) (ret : Int)
    (available : versions.heap.Available)
    (indexed : ∀ table ∈ versions.active, table.content.Indexed)
    (agrees : ∀ programs, completedPrograms versions pbuf bufSize = some programs →
      Agreeing programs)
    (parsed : parsePat versions pbuf bufSize = some (after, ret)) :
    ∃ fresh, Grown versions after fresh := by
  have given : versions.heap.reserve.1 = true := available _
  rcases Option.bind_eq_some_iff.mp parsed with ⟨check, checked, later⟩
  split at later
  · rename_i newer
    subst newer
    have opened : ∀ table ∈ (versions.open {}).active, table.content.Indexed := by
      rintro table ⟨⟩
      exact indexed_empty
    have agreeing : ∀ table ∈ (versions.open {}).active, ∀ parsed,
        parseSectionHeader (versions.open {}).heap pbuf bufSize table.header = some parsed →
        parsed.ret = 0 → ∀ programs, readPrograms ((privateData parsed).length + 1)
          (privateData parsed) (toUInt16 (parsed.header.sectionLength - (5 + 4))) = some programs →
        Agreeing (table.content.h ++ programs) := by
      rintro table ⟨⟩ header found zero programs read
      have target : versions.target pbuf = some (versions.heap.reserve.2,
          { header := { versionNumber := 0x1F }, content := {} }) := by
        rw [Versions.target, checked]
        rfl
      exact agrees _ (completedPrograms_of versions pbuf bufSize _ _ header programs target found
        zero read)
    rcases parse_grows (versions.open {}) after pbuf bufSize ret available opened agreeing later
      with ⟨fresh, grown⟩
    exact ⟨fresh, grown.available, grown.indexed, grown.logged, fun pid => by
      rw [grown.announced pid, announcedBy_open]⟩
  · rename_i notNewer
    split at later
    · rcases Prod.mk.inj (Option.some.inj later) with ⟨rfl, -⟩
      exact ⟨[], available, indexed, by simp, by simp⟩
    · rename_i same
      rw [not_not.mp same] at checked
      apply parse_grows versions after pbuf bufSize ret available indexed _ later
      intro table active header found zero programs read
      have current : versions.active = some table := active
      have target : versions.target pbuf = some (versions.heap, table) := by
        rw [Versions.target, checked, current]
        rfl
      exact agrees _ (completedPrograms_of versions pbuf bufSize _ _ header programs target found
        zero read)

section Registry

-- a filter of the table_id, with its callback
def TableFilter.slot (filter : TableFilter) : Filters.Filter TableProc :=
  Filters.Filter.set { pid := filter.pid } (some (tableParam filter.tableid filter.mask)) filter.func

theorem initTableFilter_cases (memory : Bool) (pidFilter : PidFilter TableProc)
    (filter : TableFilter) :
    (initTableFilter memory pidFilter filter = pidFilter ∧
        (numFilterMax ≤ (pidFilter filter.pid).slots.length ∨ memory = false)) ∨
      ∃ hd : FilterHead TableProc, initTableFilter memory pidFilter filter =
          Function.update pidFilter filter.pid hd ∧
        hd.slots = (pidFilter filter.pid).slots ++ [filter.slot] := by
  rcases filterAlloc_cases memory pidFilter filter.pid with ⟨failed, why⟩ | ⟨room, cap, given⟩
  · left
    refine ⟨?_, why⟩
    simp [initTableFilter, failed, filterSet]
  · right
    simp only [initTableFilter, given, filterSet, Function.update_self, Function.update_idem,
      modify_last]
    exact ⟨_, rfl, rfl⟩

-- what is announced has its bit and its filter, and there is room for the rest
structure Registry (announced : Nat → Prop) (pmtBitmap : Nat → Bool)
    (pidFilter : PidFilter TableProc) : Prop where
  bits : ∀ pid, pid ≠ nitPid → (pmtBitmap pid = true ↔ announced pid)
  filters : ∀ pid : Pid, pid.val ≠ nitPid → announced pid → HasPmtFilter pidFilter pid
  room : ∀ pid : Pid, HasPmtFilter pidFilter pid ∨ (pidFilter pid).slots.length < numFilterMax

theorem hasPmtFilter_kept (memory : Bool) (pidFilter : PidFilter TableProc)
    (filter : TableFilter) (pid : Pid) (has : HasPmtFilter pidFilter pid) :
    HasPmtFilter (initTableFilter memory pidFilter filter) pid := by
  rcases initTableFilter_cases memory pidFilter filter with ⟨same, -⟩ | ⟨hd, given, slots⟩
  · rw [same]
    exact has
  · rcases has with ⟨slot, member, table⟩
    refine ⟨slot, ?_, table⟩
    rw [given]
    by_cases here : pid = filter.pid
    · subst here
      rw [Function.update_self, slots]
      exact List.mem_append_left _ member
    · rwa [Function.update_of_ne here]

theorem hasPmtFilter_given (pidFilter : PidFilter TableProc) (pid : Nat)
    (room : HasPmtFilter pidFilter (Fin.ofNat 8192 pid) ∨
      (pidFilter (Fin.ofNat 8192 pid)).slots.length < numFilterMax) :
    HasPmtFilter (initTableFilter true pidFilter (pmtFilter pid)) (Fin.ofNat 8192 pid) := by
  rcases room with has | room
  · exact hasPmtFilter_kept true pidFilter (pmtFilter pid) _ has
  · rcases initTableFilter_cases true pidFilter (pmtFilter pid) with
      ⟨-, full | refused⟩ | ⟨hd, given, slots⟩
    · exact absurd room (Nat.not_lt.mpr full)
    · cases refused
    · refine ⟨(pmtFilter pid).slot, ?_, ⟨rfl, rfl, rfl⟩, rfl⟩
      rw [given]
      change _ ∈ (Function.update pidFilter (Fin.ofNat 8192 pid) hd (Fin.ofNat 8192 pid)).slots
      rw [Function.update_self, slots]
      exact List.mem_append_right _ (List.mem_singleton_self _)

theorem slots_elsewhere (memory : Bool) (pidFilter : PidFilter TableProc) (filter : TableFilter)
    (pid : Pid) (different : pid ≠ filter.pid) :
    (initTableFilter memory pidFilter filter pid).slots = (pidFilter pid).slots := by
  rcases initTableFilter_cases memory pidFilter filter with ⟨same, -⟩ | ⟨hd, given, -⟩
  · rw [same]
  · rw [given, Function.update_of_ne different]

def PmtState.Registers (state : PmtState) (announced : Nat → Prop) : Prop :=
  Registry announced state.pmtBitmap state.pidFilter ∧ ∀ number, state.reallocs number = true

theorem registerPmtOps_registers (state : PmtState) (announced : Nat → Prop) (pid : Nat)
    (registers : state.Registers announced) :
    (registerPmtOps state pid).Registers fun other => announced other ∨ other = pid := by
  rcases registers with ⟨registry, granted⟩
  rw [registerPmtOps]
  split
  · rename_i nit
    subst nit
    refine ⟨⟨fun other proper => ?_, fun other proper known => ?_, registry.room⟩, granted⟩
    · rw [registry.bits other proper]
      exact ⟨Or.inl, fun either => either.resolve_right proper⟩
    · exact registry.filters other proper (known.resolve_right proper)
  · have given := hasPmtFilter_given state.pidFilter pid (registry.room _)
    refine ⟨⟨fun other proper => ?_, fun other proper known => ?_, fun other => ?_⟩, granted⟩
    · by_cases same : other = pid
      · subst same
        simp
      · simpa [same] using registry.bits other proper
    · simp only [granted]
      rcases known with old | same
      · exact hasPmtFilter_kept true _ _ other (registry.filters other proper old)
      · have here : Fin.ofNat 8192 pid = other := by
          rw [← same]
          exact Fin.ofNat_val_eq_self other
        rwa [here] at given
    · simp only [granted]
      by_cases same : other = Fin.ofNat 8192 pid
      · subst same
        exact Or.inl given
      · rcases registry.room other with has | room
        · exact Or.inl (hasPmtFilter_kept true _ _ other has)
        · right
          rw [slots_elsewhere true _ (pmtFilter pid) other same]
          exact room

theorem perform_registers (fresh : List ProgramNode) (state : PmtState) (announced : Nat → Prop)
    (registers : state.Registers announced) :
    ((fresh.map fun pn => Registration.pmt pn.programMapPid).foldl perform state).Registers
      fun pid => announced pid ∨ ∃ pn ∈ fresh, pn.programMapPid = pid := by
  induction fresh generalizing state announced with
  | nil => simpa using registers
  | cons pn rest ih =>
    have later := ih _ _ (registerPmtOps_registers state announced pn.programMapPid registers)
    simpa [or_assoc, eq_comm, perform] using later

end Registry

theorem perform_versions (registered : List Registration) (state : PmtState) :
    (registered.foldl perform state).versions = state.versions := by
  induction registered generalizing state with
  | nil => rfl
  | cons registration rest ih =>
    rw [List.foldl_cons, ih]
    cases registration with
    | pmt pid =>
      rw [perform, registerPmtOps]
      split <;> rfl
    | «section» pid => rfl
    | scte pid => rfl
    | pes pid streamType => rfl
    | pesData pid streamType tag => rfl

/-- What a run of PAT sections keeps. -/
structure PmtState.Sound (state : PmtState) : Prop where
  available : state.versions.heap.Available
  indexed : ∀ table ∈ state.versions.active, table.content.Indexed
  registers : state.Registers (AnnouncedBy state.versions)

theorem PmtState.Sound.matches {state : PmtState} (sound : state.Sound) : state.Matches :=
  fun pid proper =>
    ⟨sound.registers.1.bits pid proper, sound.registers.1.filters pid proper⟩

theorem next_sound (state : PmtState) (sec : Block × Nat) (after : PmtState) (sound : state.Sound)
    (agrees : state.Agrees sec) (taken : state.next sec = some after) : after.Sound := by
  rcases Option.bind_eq_some_iff.mp taken with ⟨versions, done, same⟩
  rcases Option.map_eq_some_iff.mp done with ⟨⟨parsed, ret⟩, found, rfl⟩
  rcases parsePat_grows state.versions.counted parsed sec.1 sec.2 ret sound.available sound.indexed
    agrees found with ⟨fresh, grown⟩
  have logged : parsed.registered.drop state.versions.registered.length =
      fresh.map fun pn => .pmt pn.programMapPid := by
    rw [grown.logged]
    exact List.drop_left
  rw [logged] at same
  have kept := perform_versions (fresh.map fun pn => .pmt pn.programMapPid)
    { state with versions := parsed }
  have registers := perform_registers fresh { state with versions := parsed } _ sound.registers
  rw [← Option.some.inj same]
  refine ⟨?_, ?_, ?_⟩
  · rw [kept]
    exact grown.available
  · rw [kept]
    exact grown.indexed
  · rw [kept]
    have announced : AnnouncedBy parsed =
        fun pid => AnnouncedBy state.versions pid ∨ ∃ pn ∈ fresh, pn.programMapPid = pid :=
      funext fun pid => propext (grown.announced pid)
    rw [announced]
    exact registers

section Initial

variable (memory : TableFilter → Bool) (pidFilter : PidFilter TableProc)

-- a PID has no more filters than have been registered on it
theorem initFilters_length (filters : List TableFilter) (pid : Pid) :
    ((filters.foldl (fun pidFilter filter => initTableFilter (memory filter) pidFilter filter)
        pidFilter) pid).slots.length ≤
      (pidFilter pid).slots.length + filters.countP fun filter => filter.pid = pid := by
  induction filters generalizing pidFilter with
  | nil => simp
  | cons filter rest ih =>
    have later := ih (initTableFilter (memory filter) pidFilter filter)
    rw [List.foldl_cons, List.countP_cons]
    apply later.trans
    by_cases here : filter.pid = pid
    · have grown : (initTableFilter (memory filter) pidFilter filter pid).slots.length ≤
          (pidFilter pid).slots.length + 1 := by
        subst here
        rcases initTableFilter_cases (memory filter) pidFilter filter with
          ⟨same, -⟩ | ⟨hd, given, slots⟩
        · rw [same]
          exact Nat.le_succ _
        · rw [given, Function.update_self, slots, List.length_append]
          exact le_refl _
      simp [here]
      omega
    · rw [slots_elsewhere (memory filter) pidFilter filter pid (Ne.symm here)]
      simp [here]

theorem chosen_once (chosen : List Pid) (distinct : chosen.Nodup) (pid : Pid) :
    (chosen.map fun pid => (⟨pid, 0, 0, .default⟩ : TableFilter)).countP
      (fun filter => filter.pid = pid) ≤ 1 := by
  have count := List.nodup_iff_count_le_one.mp distinct pid
  rw [List.countP_map]
  rw [List.count_eq_countP] at count
  exact count

theorem initTableOps_length (pids : Pid → Bool) (pid : Pid) :
    ((initTableOps memory pids (filterInit pidFilter)) pid).slots.length ≤ 19 := by
  have registered := initFilters_length memory (filterInit pidFilter)
    (if chosenFilters pids = [] then tableFilters else chosenFilters pids) pid
  apply registered.trans
  have empty : ((filterInit pidFilter) pid).slots.length = 0 := rfl
  rw [empty, Nat.zero_add]
  split
  · exact List.countP_le_length
  · exact (chosen_once _ ((List.nodup_finRange 8192).filter _) pid).trans (by decide)

end Initial

def PmtState.initial (heap : Heap) (reallocs : Nat → Bool) (memory : TableFilter → Bool)
    (pids : Pid → Bool) (before : PidFilter TableProc) : PmtState where
  versions := { heap := heap }
  pidFilter := initTableOps memory pids (filterInit before)
  reallocs := reallocs

/-- As long as memory does not run out and no decoded program_number has two PIDs, the PIDs that are
registered for PMTs are those that the PATs announce. -/
theorem pmtRegistry_matches (heap : Heap) (available : heap.Available) (reallocs : Nat → Bool)
    (granted : ∀ number, reallocs number = true) (memory : TableFilter → Bool) (pids : Pid → Bool)
    (before : PidFilter TableProc) (sections : List (Block × Nat))
    (agree : Runs.EachStep PmtState.next PmtState.Agrees
      (PmtState.initial heap reallocs memory pids before) sections) :
    Runs.Always PmtState.next PmtState.Matches
      (PmtState.initial heap reallocs memory pids before) sections := by
  have start : (PmtState.initial heap reallocs memory pids before).Sound := by
    refine ⟨available, by simp [PmtState.initial], ⟨?_, ?_, fun pid => ?_⟩, granted⟩
    · simp [PmtState.initial, AnnouncedBy, Versions.list]
    · simp [PmtState.initial, AnnouncedBy, Versions.list]
    · have few := initTableOps_length memory before pids pid
      right
      exact lt_of_le_of_lt few (by decide)
  have always := Runs.Always.of_eachStep next_sound _ sections start agree
  exact always.mono fun _ => PmtState.Sound.matches

def freshPmtState : PmtState :=
  PmtState.initial Heap.empty (fun _ => true) (fun _ => true) (fun _ => false) fun _ => {}

def singlePat : Block × Nat :=
  (ofBytes reservedPat.bytes, reservedPat.bytes.length)

theorem singlePat_agrees : freshPmtState.Agrees singlePat := by
  have all : (completedPrograms freshPmtState.versions singlePat.1 singlePat.2).all
      (fun programs => decide (Agreeing programs)) = true := by decide +kernel
  intro programs found
  rw [found] at all
  exact of_decide_eq_true all

theorem pmtRegistry_matches_single :
    Runs.Always PmtState.next PmtState.Matches freshPmtState [singlePat] :=
  pmtRegistry_matches Heap.empty Heap.empty_available (fun _ => true) (fun _ => rfl)
    (fun _ => true) (fun _ => false) (fun _ => {}) [singlePat]
    fun _ _ => ⟨singlePat_agrees, trivial⟩

-- program 1 on PID 0x100 and again on PID 0x200
def movedPat : List UInt8 :=
  [0, 0xB0, 17, 0, 1, 0xC1, 0, 0, 0, 1, 0xE1, 0, 0, 1, 0xE2, 0, 1, 2, 3, 4]

def movedState : Option PmtState :=
  freshPmtState.next (ofBytes movedPat, movedPat.length)

theorem movedState_reached : movedState.isSome = true := by
  decide +kernel

theorem pmtRegistry_misses :
    ¬∀ (heap : Heap) (reallocs : Nat → Bool) (memory : TableFilter → Bool) (pids : Pid → Bool)
      (before : PidFilter TableProc) (sections : List (Block × Nat)), heap.Available →
      (∀ number, reallocs number = true) →
      Runs.Always PmtState.next PmtState.Matches
        (PmtState.initial heap reallocs memory pids before) sections := by
  intro claim
  have always := claim Heap.empty (fun _ => true) (fun _ => true) (fun _ => false) (fun _ => {})
    [(ofBytes movedPat, movedPat.length)] Heap.empty_available fun _ => rfl
  have last := always.2 _ (Option.some_get movedState_reached).symm
  have unmarked : (movedState.get movedState_reached).pmtBitmap 0x200 = false := by
    decide +kernel
  have listed : (movedState.get movedState_reached).versions.list.any (fun table =>
      table.content.h.any fun pn => pn.programMapPid = 0x200) = true := by decide +kernel
  rcases List.any_eq_true.mp listed with ⟨table, member, announces⟩
  rcases List.any_eq_true.mp announces with ⟨pn, inside, same⟩
  have bit := (last 0x200 (by decide)).1.mpr ⟨table, member, pn, inside, of_decide_eq_true same⟩
  exact absurd (unmarked.symm.trans bit) Bool.false_ne_true

end TsAnalyze.Tables
