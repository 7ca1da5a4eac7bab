import TsAnalyze.Tables.Analysis

set_option autoImplicit false

namespace TsAnalyze.Tables

open Memory Demux Filters

variable {D P O : Type}

-- the handler that fills a table
def TableName.proc : TableName → TableProc
  | .tsdt => .tsdt
  | .pmt _ => .pmt
  | .nitActual | .nitOther => .nit
  | .bat | .sdtActual | .sdtOther => .sdtBat
  | .eitActual | .eitOther => .eit

/-- What a handler has parsed is the same in both states. -/
structure SameTables (proc : TableProc) (one other : Analysis D P O) : Prop where
  pat : proc = .pat → one.pat = other.pat
  cat : proc = .cat → one.cat = other.cat ∧ one.caNum = other.caNum
  tables : ∀ name : TableName, name.proc = proc → one.tables name = other.tables name
  times : proc = .tdtTot → one.tdt = other.tdt ∧ one.tot = other.tot
  psip : proc = .atscPsip → one.psip = other.psip

namespace SameTables

variable {proc : TableProc} {one other third : Analysis D P O}

theorem refl (state : Analysis D P O) : SameTables proc state state :=
  ⟨fun _ => rfl, fun _ => ⟨rfl, rfl⟩, fun _ _ => rfl, fun _ => ⟨rfl, rfl⟩, fun _ => rfl⟩

-- the tables hold neither the filters nor the streams
theorem untouched (state : Analysis D P O) (pids : Pids) (streams : O) :
    SameTables proc state { state with pids := pids, streams := streams } :=
  ⟨fun _ => rfl, fun _ => ⟨rfl, rfl⟩, fun _ _ => rfl, fun _ => ⟨rfl, rfl⟩, fun _ => rfl⟩

theorem symm (same : SameTables proc one other) : SameTables proc other one where
  pat here := (same.pat here).symm
  cat here := ⟨(same.cat here).1.symm, (same.cat here).2.symm⟩
  tables name here := (same.tables name here).symm
  times here := ⟨(same.times here).1.symm, (same.times here).2.symm⟩
  psip here := (same.psip here).symm

theorem trans (first : SameTables proc one other) (second : SameTables proc other third) :
    SameTables proc one third where
  pat here := (first.pat here).trans (second.pat here)
  cat here := ⟨(first.cat here).1.trans (second.cat here).1,
    (first.cat here).2.trans (second.cat here).2⟩
  tables name here := (first.tables name here).trans (second.tables name here)
  times here := ⟨(first.times here).1.trans (second.times here).1,
    (first.times here).2.trans (second.times here).2⟩
  psip here := (first.psip here).trans (second.psip here)

end SameTables

variable (ops : DescriptorOps D) (outside : Outside P O)

theorem performAll_same (proc : TableProc) (registered : List Registration)
    (state : Analysis D P O) : SameTables proc state (state.performAll outside registered) := by
  induction registered generalizing state with
  | nil => exact SameTables.refl state
  | cons registration rest ih =>
    have here : SameTables proc state (state.perform outside registration) :=
      SameTables.untouched state _ _
    exact here.trans (ih _)

def Proc.handler : Proc → TableProc
  | .tsdt => .tsdt
  | .pmt _ => .pmt
  | .nit => .nit
  | .sdtBat => .sdtBat
  | .eit => .eit

theorem target_proc (proc : Proc) (pkt : Block) (name : TableName)
    (target : proc.target pkt = some (some name)) : name.proc = proc.handler := by
  cases proc with
  | tsdt =>
    cases target
    rfl
  | pmt pid =>
    cases target
    rfl
  | nit =>
    rcases Option.map_eq_some_iff.mp target with ⟨tableId, -, chosen⟩
    split at chosen
    · cases chosen
      rfl
    · split at chosen <;> cases chosen
      rfl
  | sdtBat =>
    rcases Option.map_eq_some_iff.mp target with ⟨tableId, -, chosen⟩
    split at chosen
    · cases chosen
      rfl
    · split at chosen
      · cases chosen
        rfl
      · split at chosen <;> cases chosen
        rfl
  | eit =>
    rcases Option.map_eq_some_iff.mp target with ⟨tableId, -, chosen⟩
    split at chosen
    · cases chosen
      rfl
    · split at chosen <;> cases chosen
      rfl

section Handlers

variable {ops outside} {pid : Pid} {pkt : Block} {len : Nat}

theorem sectionProc_other (handler other : TableProc) (proc : Proc) (named : proc.handler = handler)
    (state after : Analysis D P O) (different : other ≠ handler)
    (done : state.sectionProc ops outside pkt len proc = some after) :
    SameTables other state after := by
  rcases Option.bind_eq_some_iff.mp done with ⟨target, found, given⟩
  cases target with
  | none =>
    cases given
    exact SameTables.refl state
  | some name =>
    have owner := (target_proc proc pkt name found).trans named
    rcases Option.map_eq_some_iff.mp given with ⟨handled, -, rfl⟩
    refine SameTables.trans ?_ (performAll_same outside other _ _)
    refine ⟨fun _ => rfl, fun _ => ⟨rfl, rfl⟩, fun name' here => ?_,
      fun _ => ⟨rfl, rfl⟩, fun _ => rfl⟩
    have elsewhere : name' ≠ name := by
      intro same
      exact different (here.symm.trans ((congrArg TableName.proc same).trans owner))
    exact (Function.update_of_ne elsewhere _ _).symm

/-- A handler leaves alone what the other handlers parse. -/
theorem tableProc_other (proc other : TableProc) (state after : Analysis D P O)
    (different : other ≠ proc)
    (done : state.tableProc ops outside pid pkt len proc = some after) :
    SameTables other state after := by
  cases proc with
  | default =>
    cases done
    exact SameTables.refl state
  | pat =>
    rcases Option.map_eq_some_iff.mp done with ⟨pat, -, rfl⟩
    refine SameTables.trans ?_ (performAll_same outside other _ _)
    exact ⟨fun here => absurd here different, fun _ => ⟨rfl, rfl⟩, fun _ _ => rfl,
      fun _ => ⟨rfl, rfl⟩, fun _ => rfl⟩
  | cat =>
    rcases Option.map_eq_some_iff.mp done with ⟨⟨cat, caNum⟩, -, rfl⟩
    exact ⟨fun _ => rfl, fun here => absurd here different, fun _ _ => rfl,
      fun _ => ⟨rfl, rfl⟩, fun _ => rfl⟩
  | tsdt => exact sectionProc_other .tsdt other .tsdt rfl state after different done
  | pmt => exact sectionProc_other .pmt other (.pmt pid) rfl state after different done
  | nit => exact sectionProc_other .nit other .nit rfl state after different done
  | eit => exact sectionProc_other .eit other .eit rfl state after different done
  | sdtBat => exact sectionProc_other .sdtBat other .sdtBat rfl state after different done
  | tdtTot =>
    rcases Option.bind_eq_some_iff.mp done with ⟨tableId, -, later⟩
    have kept : ∀ tdt tot, SameTables other state { state with tdt := tdt, tot := tot } :=
      fun _ _ => ⟨fun _ => rfl, fun _ => ⟨rfl, rfl⟩, fun _ _ => rfl,
        fun here => absurd here different, fun _ => rfl⟩
    split at later
    · rcases Option.bind_eq_some_iff.mp later with ⟨found, -, same⟩
      cases same
      exact kept _ _
    · split at later
      · rcases Option.bind_eq_some_iff.mp later with ⟨found, -, same⟩
        cases same
        exact kept _ _
      · cases later
        exact SameTables.refl state
  | atscPsip =>
    rcases Option.map_eq_some_iff.mp done with ⟨psip, -, rfl⟩
    exact ⟨fun _ => rfl, fun _ => ⟨rfl, rfl⟩, fun _ _ => rfl, fun _ => ⟨rfl, rfl⟩,
      fun here => absurd here different⟩

theorem sectionProc_same (handler : TableProc) (proc : Proc) (named : proc.handler = handler)
    (one other oneAfter otherAfter : Analysis D P O) (same : SameTables handler one other)
    (oneDone : one.sectionProc ops outside pkt len proc = some oneAfter)
    (otherDone : other.sectionProc ops outside pkt len proc = some otherAfter) :
    SameTables handler oneAfter otherAfter := by
  rcases Option.bind_eq_some_iff.mp oneDone with ⟨target, found, oneGiven⟩
  rw [Analysis.sectionProc, found, Option.bind_some] at otherDone
  cases target with
  | none =>
    cases oneGiven
    cases otherDone
    exact same
  | some name =>
    have owner := (target_proc proc pkt name found).trans named
    have held := same.tables name owner
    simp only [Analysis.give] at oneGiven otherDone
    rw [held] at oneGiven
    rcases Option.map_eq_some_iff.mp oneGiven with ⟨handled, parsed, rfl⟩
    rw [parsed] at otherDone
    cases otherDone
    have updated : SameTables handler
        { one with tables := Function.update one.tables name
                     ⟨handled.heap, handled.table, (other.tables name).count name⟩ }
        { other with tables := Function.update other.tables name
                       ⟨handled.heap, handled.table, (other.tables name).count name⟩ } := by
      refine ⟨same.pat, same.cat, fun name' here => ?_, same.times, same.psip⟩
      by_cases this : name' = name
      · subst this
        simp
      · simpa [this] using same.tables name' here
    have left := performAll_same outside handler handled.registered
      { one with tables := Function.update one.tables name
                   ⟨handled.heap, handled.table, (other.tables name).count name⟩ }
    have right := performAll_same outside handler handled.registered
      { other with tables := Function.update other.tables name
                     ⟨handled.heap, handled.table, (other.tables name).count name⟩ }
    exact left.symm.trans (updated.trans right)

theorem unnamed (name : TableName) : name.proc ≠ .pat ∧ name.proc ≠ .cat ∧ name.proc ≠ .tdtTot ∧
    name.proc ≠ .atscPsip := by
  cases name <;> exact ⟨nofun, nofun, nofun, nofun⟩

/-- What a handler makes of a section depends on what it has parsed before. -/
theorem tableProc_same (proc : TableProc) (one other oneAfter otherAfter : Analysis D P O)
    (same : SameTables proc one other)
    (oneDone : one.tableProc ops outside pid pkt len proc = some oneAfter)
    (otherDone : other.tableProc ops outside pid pkt len proc = some otherAfter) :
    SameTables proc oneAfter otherAfter := by
  cases proc with
  | default =>
    cases oneDone
    cases otherDone
    exact same
  | pat =>
    simp only [Analysis.tableProc, Analysis.patProc, same.pat rfl] at oneDone otherDone
    rcases Option.map_eq_some_iff.mp oneDone with ⟨pat, parsed, rfl⟩
    rw [parsed] at otherDone
    cases otherDone
    have left := performAll_same outside .pat
      (pat.registered.drop other.pat.registered.length) { one with pat := pat }
    have right := performAll_same outside .pat
      (pat.registered.drop other.pat.registered.length) { other with pat := pat }
    exact ⟨fun _ => ((left.pat rfl).symm.trans (right.pat rfl)), nofun,
      fun name here => absurd here (unnamed name).1, nofun, nofun⟩
  | cat =>
    simp only [Analysis.tableProc, Analysis.catProc, (same.cat rfl).1] at oneDone otherDone
    rcases Option.map_eq_some_iff.mp oneDone with ⟨⟨cat, caNum⟩, parsed, rfl⟩
    rw [parsed] at otherDone
    cases otherDone
    exact ⟨nofun, fun _ => ⟨rfl, rfl⟩, fun name here => absurd here (unnamed name).2.1,
      nofun, nofun⟩
  | tsdt => exact sectionProc_same .tsdt .tsdt rfl one other _ _ same oneDone otherDone
  | pmt => exact sectionProc_same .pmt (.pmt pid) rfl one other _ _ same oneDone otherDone
  | nit => exact sectionProc_same .nit .nit rfl one other _ _ same oneDone otherDone
  | eit => exact sectionProc_same .eit .eit rfl one other _ _ same oneDone otherDone
  | sdtBat => exact sectionProc_same .sdtBat .sdtBat rfl one other _ _ same oneDone otherDone
  | tdtTot =>
    rcases same.times rfl with ⟨tdt, tot⟩
    simp only [Analysis.tableProc, Analysis.tdtTotProc, tdt, tot] at oneDone otherDone
    rcases Option.bind_eq_some_iff.mp oneDone with ⟨tableId, first, oneLater⟩
    rcases Option.bind_eq_some_iff.mp otherDone with ⟨again, firstAgain, otherLater⟩
    rw [first] at firstAgain
    cases firstAgain
    refine ⟨nofun, nofun, fun name here => absurd here (unnamed name).2.2.1, fun _ => ?_, nofun⟩
    split at oneLater
    · rename_i isTdt
      rw [if_pos isTdt] at otherLater
      rcases Option.bind_eq_some_iff.mp oneLater with ⟨found, parsed, oneResult⟩
      rw [parsed] at otherLater
      cases oneResult
      cases otherLater
      exact ⟨rfl, rfl⟩
    · rename_i notTdt
      rw [if_neg notTdt] at otherLater
      split at oneLater
      · rename_i isTot
        rw [if_pos isTot] at otherLater
        rcases Option.bind_eq_some_iff.mp oneLater with ⟨found, parsed, oneResult⟩
        rw [parsed] at otherLater
        cases oneResult
        cases otherLater
        exact ⟨rfl, rfl⟩
      · rename_i neither
        rw [if_neg neither] at otherLater
        cases oneLater
        cases otherLater
        exact ⟨tdt, tot⟩
  | atscPsip =>
    simp only [Analysis.tableProc, same.psip rfl] at oneDone otherDone
    rcases Option.map_eq_some_iff.mp oneDone with ⟨psip, parsed, rfl⟩
    rw [parsed] at otherDone
    cases otherDone
    exact ⟨nofun, nofun, fun name here => absurd here (unnamed name).2.2.2, nofun, fun _ => rfl⟩

end Handlers

section Growth

-- what the calls of a filter depend on
def entry (registered : Registered Callback) : FilterParam × Callback :=
  (registered.para, registered.callback)

def pmtEntry : FilterParam × Callback := (tableParam pmtTid 0xFF, .table .pmt)

def sectionEntry : FilterParam × Callback := (tableParam 0 0xFF, .table .default)

def scteEntry : FilterParam × Callback := (tableParam scteSpliceTid 0xFF, .scte)

def pesEntry : FilterParam × Callback := (tableParam 0 0, .pes)

-- the filters that a stream can bring
def Dynamic (filter : FilterParam × Callback) : Prop :=
  filter = pmtEntry ∨ filter = sectionEntry ∨ filter = scteEntry ∨ filter = pesEntry

/-- Filters have been added behind the others, and nothing else has happened to the registry. -/
structure Widened (added : FilterParam × Callback → Prop) (before after : Client Callback) :
    Prop where
  coherent : Coherent before → Coherent after
  order : ∀ pid, ∃ fresh, after.order pid = before.order pid ++ fresh ∧
    ∀ registered ∈ fresh, added (entry registered)

variable {added : FilterParam × Callback → Prop}

theorem Widened.refl (filters : Client Callback) : Widened added filters filters :=
  ⟨fun coherent => coherent, fun _ => ⟨[], by simp⟩⟩

theorem Widened.trans {first second third : Client Callback} (left : Widened added first second)
    (right : Widened added second third) : Widened added first third where
  coherent coherent := right.coherent (left.coherent coherent)
  order pid := by
    rcases left.order pid with ⟨early, leftOrder, leftAdded⟩
    rcases right.order pid with ⟨late, rightOrder, rightAdded⟩
    refine ⟨early ++ late, by rw [rightOrder, leftOrder, List.append_assoc], ?_⟩
    intro registered member
    cases List.mem_append.mp member with
    | inl before => exact leftAdded registered before
    | inr after => exact rightAdded registered after

theorem Widened.mono {more : FilterParam × Callback → Prop} {before after : Client Callback}
    (grown : Widened added before after) (implies : ∀ filter, added filter → more filter) :
    Widened more before after where
  coherent := grown.coherent
  order pid := by
    rcases grown.order pid with ⟨fresh, order, each⟩
    exact ⟨fresh, order, fun registered member => implies _ (each registered member)⟩

theorem initFilter_widened (filters : Client Callback) (pid : Pid) (tableid mask : UInt8)
    (func : Callback) (adds : added (tableParam tableid mask, func)) :
    Widened added filters (initFilter filters pid tableid mask func) := by
  refine ⟨fun coherent => register_coherent filters coherent pid _ rfl func true, fun other => ?_⟩
  rcases register_cases filters pid (tableParam tableid mask) func true with
    failed | ⟨room, cap, handle, registered⟩
  · rw [initFilter, failed]
    exact ⟨[], by simp⟩
  · rw [initFilter, registered]
    by_cases same : other = pid
    · subst same
      exact ⟨_, Function.update_self _ _ _, by simpa [entry] using adds⟩
    · exact ⟨[], by simp [same]⟩

def Registration.adds : Registration → FilterParam × Callback → Prop
  | .pmt _, filter => filter = pmtEntry
  | _, filter => Dynamic filter

theorem registerSectionOps_widened (pids : Pids) (pid : Nat) (tableid : UInt8) (callback : Callback)
    (adds : added (tableParam tableid 0xFF, callback)) :
    Widened added pids.filters (pids.registerSectionOps pid tableid callback).filters := by
  rw [Pids.registerSectionOps]
  split
  · exact Widened.refl _
  · split
    · exact Widened.refl _
    · exact initFilter_widened _ _ _ _ _ adds

theorem perform_widened (pids : Pids) (registration : Registration)
    (adds : ∀ filter, registration.adds filter → added filter) :
    Widened added pids.filters (pids.perform registration).filters := by
  cases registration with
  | pmt pid =>
    rw [Pids.perform, Pids.registerPmtOps]
    split
    · exact Widened.refl _
    · exact initFilter_widened _ _ _ _ _ (adds _ rfl)
  | «section» pid =>
    exact registerSectionOps_widened pids pid 0 (.table .default) (adds _ (Or.inr (Or.inl rfl)))
  | scte pid =>
    rw [Pids.perform, Pids.registerScteOps]
    split
    · exact Widened.refl _
    · split
      · exact Widened.refl _
      · exact registerSectionOps_widened
          { pids with scteBitmap := Function.update pids.scteBitmap pid true
                      sctePidNum := pids.sctePidNum + 1 }
          pid scteSpliceTid .scte (adds _ (Or.inr (Or.inr (Or.inl rfl))))
  | pes pid streamType =>
    rw [Pids.perform, Pids.registerPesOps]
    split
    · exact Widened.refl _
    · exact initFilter_widened _ _ _ _ _ (adds _ (Or.inr (Or.inr (Or.inr rfl))))
  | pesData pid streamType tag => exact Widened.refl _

theorem performAll_widened (registered : List Registration) (state : Analysis D P O)
    (adds : ∀ registration ∈ registered, ∀ filter, registration.adds filter → added filter) :
    Widened added state.pids.filters (state.performAll outside registered).pids.filters := by
  induction registered generalizing state with
  | nil => exact Widened.refl _
  | cons registration rest ih =>
    have here := perform_widened state.pids registration (adds registration (by simp))
    have later := ih (state.perform outside registration)
      fun other member => adds other (List.mem_cons_of_mem _ member)
    exact here.trans later

theorem Registration.adds_dynamic (registration : Registration) (filter : FilterParam × Callback)
    (adds : registration.adds filter) : Dynamic filter := by
  cases registration with
  | pmt pid => exact Or.inl adds
  | «section» pid => exact adds
  | scte pid => exact adds
  | pes pid streamType => exact adds
  | pesData pid streamType tag => exact adds

end Growth

section PmtRegistrations

-- parse_pat calls register_pmt_ops and no other
theorem patLoop_registers (turns : Nat) (pdata : Block) (sectionLen : Int) (pat : Pat)
    (registered : List Registration) (heap : Heap) (result : Decoded Pat × Heap)
    (before : ∀ registration ∈ registered, ∃ pid, registration = .pmt pid)
    (found : patLoop turns pdata sectionLen pat registered heap = some result) :
    ∀ registration ∈ result.1.registered, ∃ pid, registration = .pmt pid := by
  induction turns generalizing pdata sectionLen pat registered heap with
  | zero =>
    rw [patLoop] at found
    split at found
    · cases found
    · cases found
      exact before
  | succ turns ih =>
    rw [patLoop] at found
    split at found
    · rcases lift_bind found with ⟨programNum, -, afterNumber⟩
      rcases lift_bind afterNumber with ⟨word, -, later⟩
      split at later
      · cases later
        exact before
      · split at later
        · exact ih _ _ _ _ _ before later
        · have more : ∀ registration ∈ registered ++ [.pmt (word &&& 0x1FFF)],
              ∃ pid, registration = .pmt pid := by
            intro registration member
            cases List.mem_append.mp member with
            | inl old => exact before registration old
            | inr new => exact ⟨_, List.mem_singleton.mp new⟩
          have reserved := reserve_bind later
          split at reserved
          · exact ih _ _ _ _ _ more reserved
          · cases reserved
            exact more
    · cases found
      exact before

theorem parse_registers (versions after : Versions Pat) (pbuf : Block) (bufSize : Nat) (ret : Int)
    (parsed : versions.parse decodePat pbuf bufSize = some (after, ret)) :
    ∃ fresh, after.registered = versions.registered ++ fresh ∧
      ∀ registration ∈ fresh, ∃ pid, registration = .pmt pid := by
  rw [Versions.parse] at parsed
  split at parsed
  · cases parsed
    exact ⟨[], by simp⟩
  · rename_i table active
    rcases Option.map_eq_some_iff.mp parsed with ⟨handled, found, same⟩
    cases same
    refine ⟨handled.registered, rfl, ?_⟩
    rcases Option.bind_eq_some_iff.mp found with ⟨header, -, later⟩
    split at later
    · cases later
      simp
    · rcases Option.map_eq_some_iff.mp later with ⟨decoding, decoded, rfl⟩
      exact patLoop_registers _ _ _ _ [] _ decoding (by simp) decoded

theorem patProc_registers (versions after : Versions Pat) (pkt : Block) (len : Nat)
    (done : patProc versions pkt len = some after) :
    ∀ registration ∈ after.registered.drop versions.registered.length,
      ∃ pid, registration = .pmt pid := by
  have logged : ∃ fresh, after.registered = versions.registered ++ fresh ∧
      ∀ registration ∈ fresh, ∃ pid, registration = .pmt pid := by
    rcases Option.map_eq_some_iff.mp done with ⟨⟨parsed, ret⟩, found, rfl⟩
    rcases Option.bind_eq_some_iff.mp found with ⟨check, -, later⟩
    split at later
    · split at later
      · exact parse_registers (Versions.open {} versions.counted) parsed pkt len ret later
      · cases later
        exact ⟨[], by simp [Versions.counted]⟩
    · split at later
      · cases later
        exact ⟨[], by simp [Versions.counted]⟩
      · exact parse_registers versions.counted parsed pkt len ret later
  rcases logged with ⟨fresh, same, each⟩
  rw [same, List.drop_left]
  exact each

end PmtRegistrations

section Calls

variable {ops outside} {pid : Pid} {pkt : Block} {len : Nat} (tableId : UInt8)

-- what the handling of a section with this table_id can add to the filters
def Addable (filter : FilterParam × Callback) : Prop :=
  Dynamic filter ∧ (tableId = 0 → filter ≠ sectionEntry)

theorem pmtEntry_addable : Addable tableId pmtEntry :=
  ⟨Or.inl rfl, fun _ => by simp [pmtEntry, sectionEntry]⟩

theorem patProc_widened (state after : Analysis D P O)
    (done : state.patProc outside pkt len = some after) :
    Widened (Addable tableId) state.pids.filters after.pids.filters := by
  rcases Option.map_eq_some_iff.mp done with ⟨pat, parsed, rfl⟩
  refine performAll_widened outside _ { state with pat := pat }
    fun registration member filter adds => ?_
  rcases patProc_registers state.pat pat pkt len parsed registration member with ⟨pid, rfl⟩
  rw [adds]
  exact pmtEntry_addable tableId

theorem give_widened (name : TableName) (state after : Analysis D P O) (late : tableId ≠ 0)
    (done : state.give ops outside pkt len name = some after) :
    Widened (Addable tableId) state.pids.filters after.pids.filters := by
  rcases Option.map_eq_some_iff.mp done with ⟨handled, -, rfl⟩
  refine performAll_widened outside _
    { state with tables := Function.update state.tables name
                   ⟨handled.heap, handled.table, (state.tables name).count name⟩ }
    fun registration _ filter adds => ?_
  exact ⟨registration.adds_dynamic filter adds, fun zero => absurd zero late⟩

theorem sectionProc_widened (proc : Proc) (state after : Analysis D P O)
    (silent : tableId = 0 → proc.target pkt = some none)
    (done : state.sectionProc ops outside pkt len proc = some after) :
    Widened (Addable tableId) state.pids.filters after.pids.filters := by
  rcases Option.bind_eq_some_iff.mp done with ⟨target, found, given⟩
  cases target with
  | none =>
    cases given
    exact Widened.refl _
  | some name =>
    refine give_widened tableId name state after (fun zero => ?_) given
    rw [silent zero] at found
    cases found

-- a filter with this callback does not let table_id 0 through
def Late (callback : Callback) : Prop :=
  callback = .table .pmt ∨ callback = .table .tsdt

theorem tableProc_widened (first : read8 pkt 0 = some tableId) (proc : TableProc)
    (state after : Analysis D P O) (late : Late (.table proc) → tableId ≠ 0)
    (done : state.tableProc ops outside pid pkt len proc = some after) :
    Widened (Addable tableId) state.pids.filters after.pids.filters := by
  cases proc with
  | default =>
    cases done
    exact Widened.refl _
  | pat => exact patProc_widened tableId state after done
  | cat =>
    rcases Option.map_eq_some_iff.mp done with ⟨⟨cat, caNum⟩, -, rfl⟩
    exact Widened.refl _
  | tsdt =>
    exact sectionProc_widened tableId .tsdt state after
      (fun zero => absurd zero (late (Or.inr rfl))) done
  | pmt =>
    exact sectionProc_widened tableId (.pmt pid) state after
      (fun zero => absurd zero (late (Or.inl rfl))) done
  | nit =>
    exact sectionProc_widened tableId .nit state after
      (fun zero => by simp [Proc.target, first, zero]) done
  | eit =>
    exact sectionProc_widened tableId .eit state after
      (fun zero => by simp [Proc.target, first, zero]) done
  | sdtBat =>
    exact sectionProc_widened tableId .sdtBat state after
      (fun zero => by simp [Proc.target, first, zero]) done
  | tdtTot =>
    rcases Option.bind_eq_some_iff.mp done with ⟨found, -, later⟩
    split at later
    · rcases Option.bind_eq_some_iff.mp later with ⟨parsed, -, same⟩
      cases same
      exact Widened.refl _
    · split at later
      · rcases Option.bind_eq_some_iff.mp later with ⟨parsed, -, same⟩
        cases same
        exact Widened.refl _
      · cases later
        exact Widened.refl _
  | atscPsip =>
    rcases Option.map_eq_some_iff.mp done with ⟨psip, -, rfl⟩
    exact Widened.refl _

theorem defaultProc_cases (pid : Pid) :
    (defaultProc pid = .default ∨ defaultProc pid = .pat ∨ defaultProc pid = .cat ∨
      defaultProc pid = .nit ∨ defaultProc pid = .eit ∨ defaultProc pid = .sdtBat ∨
      defaultProc pid = .tdtTot) := by
  unfold defaultProc
  split_ifs <;> simp

theorem call_widened (first : read8 pkt 0 = some tableId) (callback : Callback)
    (state after : Analysis D P O) (late : Late callback → tableId ≠ 0)
    (done : state.call ops outside pid pkt len callback = some after) :
    Widened (Addable tableId) state.pids.filters after.pids.filters := by
  cases callback with
  | table proc =>
    by_cases default : proc = .default
    · subst default
      have early : ¬Late (.table (defaultProc pid)) := by
        rcases defaultProc_cases pid with same | same | same | same | same | same | same <;>
          simp [Late, same]
      exact tableProc_widened tableId first (defaultProc pid) state after
        (fun late => absurd late early) done
    · have direct : state.tableProc ops outside pid pkt len proc = some after := by
        cases proc with
        | default => exact absurd rfl default
        | _ => exact done
      exact tableProc_widened tableId first proc state after late direct
  | scte =>
    rcases Option.map_eq_some_iff.mp done with ⟨streams, -, rfl⟩
    exact Widened.refl _
  | pes =>
    rcases Option.map_eq_some_iff.mp done with ⟨streams, -, rfl⟩
    exact Widened.refl _

end Calls

-- does the callback lead to this handler?
def serves (pid : Pid) (proc : TableProc) : Callback → Bool
  | .table .default => decide (defaultProc pid = proc)
  | .table other => decide (other = proc)
  | .scte => false
  | .pes => false

section Feeding

variable (pid : Pid) (pkt : Block) (len : Nat) (proc : TableProc)

/-- A handler has been given a section so many times, among other calls. -/
inductive Served : Nat → Analysis D P O → Analysis D P O → Prop
  | done (state after : Analysis D P O) (same : SameTables proc state after) : Served 0 state after
  | more (count : Nat) (state before next after : Analysis D P O)
      (same : SameTables proc state before)
      (given : before.tableProc ops outside pid pkt len proc = some next)
      (later : Served count next after) : Served (count + 1) state after

variable {ops outside pid pkt len proc}

theorem Served.skip {count : Nat} {state next after : Analysis D P O}
    (same : SameTables proc state next)
    (served : Served ops outside pid pkt len proc count next after) :
    Served ops outside pid pkt len proc count state after := by
  cases served with
  | done _ _ kept => exact Served.done _ _ (same.trans kept)
  | more count _ before _ _ kept given later =>
    exact Served.more count _ before _ _ (same.trans kept) given later

theorem Served.same {count : Nat} {one other oneAfter otherAfter : Analysis D P O}
    (left : Served ops outside pid pkt len proc count one oneAfter)
    (right : Served ops outside pid pkt len proc count other otherAfter)
    (same : SameTables proc one other) : SameTables proc oneAfter otherAfter := by
  induction left generalizing other with
  | done one oneAfter kept =>
    cases right with
    | done _ _ otherKept => exact kept.symm.trans (same.trans otherKept)
  | more count one before next oneAfter kept given later ih =>
    cases right with
    | more _ _ otherBefore otherNext _ otherKept otherGiven otherLater =>
      have together : SameTables proc before otherBefore :=
        kept.symm.trans (same.trans otherKept)
      exact ih otherLater (tableProc_same proc _ _ _ _ together given otherGiven)

/-- Sections that a handler ignores leave what it has parsed. -/
theorem Served.ignored {count : Nat} {state after : Analysis D P O}
    (served : Served ops outside pid pkt len proc count state after)
    (ignores : ∀ before next : Analysis D P O,
      before.tableProc ops outside pid pkt len proc = some next → SameTables proc before next) :
    SameTables proc state after := by
  induction served with
  | done state after kept => exact kept
  | more count state before next after kept given later ih =>
    exact kept.trans ((ignores before next given).trans ih)

theorem call_served (callback : Callback) (state next after : Analysis D P O) (count : Nat)
    (done : state.call ops outside pid pkt len callback = some next)
    (later : Served ops outside pid pkt len proc count next after) :
    Served ops outside pid pkt len proc
      (count + if serves pid proc callback then 1 else 0) state after := by
  have other : ∀ handler, handler ≠ proc →
      state.tableProc ops outside pid pkt len handler = some next →
      Served ops outside pid pkt len proc count state after := by
    intro handler different taken
    exact later.skip (tableProc_other handler proc state next (Ne.symm different) taken)
  cases callback with
  | table handler =>
    by_cases default : handler = .default
    · subst default
      by_cases here : defaultProc pid = proc
      · rw [serves, decide_eq_true here, if_pos rfl]
        exact Served.more count state state next after (SameTables.refl state) (here ▸ done) later
      · rw [serves, decide_eq_false here]
        exact other (defaultProc pid) here done
    · have direct : state.tableProc ops outside pid pkt len handler = some next := by
        cases handler with
        | default => exact absurd rfl default
        | _ => exact done
      have served : serves pid proc (.table handler) = decide (handler = proc) := by
        cases handler with
        | default => exact absurd rfl default
        | _ => rfl
      rw [served]
      by_cases here : handler = proc
      · rw [decide_eq_true here, if_pos rfl]
        exact Served.more count state state next after (SameTables.refl state) (here ▸ direct) later
      · rw [decide_eq_false here]
        exact other handler here direct
  | scte =>
    rcases Option.map_eq_some_iff.mp done with ⟨streams, -, rfl⟩
    have kept : SameTables proc state { state with streams := streams } :=
      SameTables.untouched state _ _
    simpa [serves] using later.skip kept
  | pes =>
    rcases Option.map_eq_some_iff.mp done with ⟨streams, -, rfl⟩
    have kept : SameTables proc state { state with streams := streams } :=
      SameTables.untouched state _ _
    simpa [serves] using later.skip kept

theorem calls_served (called : List Callback) (state after : Analysis D P O)
    (done : called.foldlM (fun state => state.call ops outside pid pkt len) state = some after) :
    Served ops outside pid pkt len proc (called.countP (serves pid proc)) state after := by
  induction called generalizing state with
  | nil =>
    cases done
    exact Served.done _ _ (SameTables.refl _)
  | cons callback rest ih =>
    rw [List.foldlM_cons] at done
    rcases Option.bind_eq_some_iff.mp done with ⟨next, taken, later⟩
    have served := call_served callback state next after _ taken (ih next later)
    rw [List.countP_cons]
    exact served

end Feeding

/-- What holds of the filters of every run: those of PMTs and TSDTs do not match table_id 0. -/
structure Tame (filters : Client Callback) : Prop where
  coherent : Coherent filters
  late : ∀ pid, ∀ registered ∈ filters.order pid, Late registered.callback →
    registered.para.selects 0 = false

theorem dynamic_late (filter : FilterParam × Callback) (dynamic : Dynamic filter)
    (late : Late filter.2) : filter.1.selects 0 = false := by
  rcases dynamic with rfl | rfl | rfl | rfl
  · rfl
  · cases late <;> rename_i other <;> cases other
  · cases late <;> rename_i other <;> cases other
  · cases late <;> rename_i other <;> cases other

theorem Tame.widened {before after : Client Callback} (tame : Tame before)
    (widened : Widened Dynamic before after) : Tame after where
  coherent := widened.coherent tame.coherent
  late pid registered member late := by
    rcases widened.order pid with ⟨fresh, order, dynamic⟩
    rw [order] at member
    cases List.mem_append.mp member with
    | inl old => exact tame.late pid registered old late
    | inr new => exact dynamic_late _ (dynamic registered new) late

-- the callbacks of the filters that match a table_id, in slot order
def matching (tableId : UInt8) (order : List (Registered Callback)) : List Callback :=
  (order.filter (Registered.selects tableId)).map Registered.callback

-- what a section adds is not matched by it, as far as it leads to a table
theorem matching_addable (tableId : UInt8) (pid : Pid) (proc : TableProc) (proper : proc ≠ .pmt)
    (fresh : List (Registered Callback))
    (addable : ∀ registered ∈ fresh, Addable tableId (entry registered)) :
    (matching tableId fresh).countP (serves pid proc) = 0 := by
  rw [List.countP_eq_zero]
  intro callback member served
  rcases List.mem_map.mp member with ⟨registered, inside, rfl⟩
  rcases List.mem_filter.mp inside with ⟨isFresh, selected⟩
  rcases addable registered isFresh with ⟨dynamic, notSection⟩
  rcases dynamic with same | same | same | same
  · have callback : registered.callback = .table .pmt := congrArg Prod.snd same
    rw [callback] at served
    exact proper (of_decide_eq_true served).symm
  · have para : registered.para = tableParam 0 0xFF := congrArg Prod.fst same
    rw [Registered.selects, para, FilterParam.selects, beq_iff_eq] at selected
    have zero : tableId = 0 := by simpa [tableParam, and_full] using selected
    exact notSection zero same
  · have callback : registered.callback = .scte := congrArg Prod.snd same
    rw [callback] at served
    cases served
  · have callback : registered.callback = .pes := congrArg Prod.snd same
    rw [callback] at served
    cases served

section Dispatch

variable {ops outside} {pid : Pid} {pkt : Block} {len : Nat} {proc : TableProc}
variable {tableId : UInt8} (first : read8 pkt 0 = some tableId)
variable (tabled : proc ≠ .pmt)
include first tabled

theorem scanFrom_served (turns i : Nat) (state after : Analysis D P O)
    (tame : Tame state.pids.filters)
    (done : state.scanFrom ops outside pid pkt len turns i = some after) :
    Widened Dynamic state.pids.filters after.pids.filters ∧
      Served ops outside pid pkt len proc
        ((matching tableId ((state.pids.filters.order pid).drop i)).countP (serves pid proc))
        state after := by
  induction turns generalizing i state with
  | zero =>
    rw [Analysis.scanFrom, tame.coherent.slots pid, List.length_map] at done
    split at done
    · cases done
    · rename_i outside
      cases done
      rw [List.drop_eq_nil_of_le (Nat.le_of_not_lt outside)]
      exact ⟨Widened.refl _, Served.done _ _ (SameTables.refl _)⟩
  | succ turns ih =>
    rw [Analysis.scanFrom, tame.coherent.slots pid, List.getElem?_map] at done
    cases standing : (state.pids.filters.order pid)[i]? with
    | none =>
      rw [standing] at done
      cases done
      rw [List.drop_eq_nil_of_le (List.getElem?_eq_none_iff.mp standing)]
      exact ⟨Widened.refl _, Served.done _ _ (SameTables.refl _)⟩
    | some registered =>
      rcases List.getElem?_eq_some_iff.mp standing with ⟨inside, here⟩
      have member : registered ∈ state.pids.filters.order pid := here ▸ List.getElem_mem inside
      have shallow := tame.coherent.order_shallow pid registered member
      have matched := filterMatch_ready pkt tableId first registered.filter
        (registered_ready registered shallow)
      rw [registered_selects registered shallow tableId] at matched
      rw [standing, Option.map_some] at done
      simp only [matched, Option.bind_eq_bind, Option.bind_some] at done
      rw [List.drop_eq_getElem_cons inside, here, matching]
      cases selected : registered.selects tableId with
      | false =>
        rw [selected] at done
        rw [List.filter_cons_of_neg (by simp [selected])]
        exact ih (i + 1) state tame done
      | true =>
        rw [selected, if_pos rfl] at done
        rcases Option.bind_eq_some_iff.mp done with ⟨next, called, later⟩
        have late : Late registered.callback → tableId ≠ 0 := by
          intro late zero
          have missed := tame.late pid registered member late
          rw [Registered.selects, zero, missed] at selected
          cases selected
        have widened := call_widened tableId first registered.callback state next late called
        have grown := widened.mono fun _ addable => addable.1
        rcases ih (i + 1) next (tame.widened grown) later with ⟨rest, served⟩
        rcases widened.order pid with ⟨fresh, order, addable⟩
        have silent := matching_addable tableId pid proc tabled fresh addable
        have same : (matching tableId ((next.pids.filters.order pid).drop (i + 1))).countP
            (serves pid proc) =
              (matching tableId ((state.pids.filters.order pid).drop (i + 1))).countP
                (serves pid proc) := by
          rw [order, List.drop_append_of_le_length inside, matching, List.filter_append,
            List.map_append, List.countP_append]
          simpa [matching] using silent
        rw [same] at served
        rw [List.filter_cons_of_pos selected, List.map_cons, List.countP_cons]
        exact ⟨grown.trans rest, call_served registered.callback state next after _ called served⟩

omit tabled in
theorem calls_widened (called : List Callback) (state after : Analysis D P O)
    (late : ∀ callback ∈ called, Late callback → tableId ≠ 0)
    (done : called.foldlM (fun state => state.call ops outside pid pkt len) state = some after) :
    Widened Dynamic state.pids.filters after.pids.filters := by
  induction called generalizing state with
  | nil =>
    cases done
    exact Widened.refl _
  | cons callback rest ih =>
    rw [List.foldlM_cons] at done
    rcases Option.bind_eq_some_iff.mp done with ⟨next, taken, later⟩
    have here := call_widened tableId first callback state next (late callback (by simp)) taken
    have behind := ih next (fun other member => late other (List.mem_cons_of_mem _ member)) later
    exact (here.mono fun _ addable => addable.1).trans behind

omit first tabled in
theorem matching_late (filters : Client Callback) (tame : Tame filters) (callback : Callback)
    (member : callback ∈ matching tableId (filters.order pid)) (late : Late callback) :
    tableId ≠ 0 := by
  intro zero
  rcases List.mem_map.mp member with ⟨registered, inside, rfl⟩
  rcases List.mem_filter.mp inside with ⟨ordered, selected⟩
  have missed := tame.late pid registered ordered late
  rw [Registered.selects, zero, missed] at selected
  cases selected

/-- A handler is given a section as often as a filter that leads to it matches. -/
theorem filterProc_served (state after : Analysis D P O) (tame : Tame state.pids.filters)
    (done : state.filterProc ops outside pid pkt len = some after) :
    Widened Dynamic state.pids.filters after.pids.filters ∧
      Served ops outside pid pkt len proc
        ((matching tableId (state.pids.filters.order pid)).countP (serves pid proc))
        state after := by
  rw [Analysis.filterProc] at done
  split at done
  · exact scanFrom_served first tabled numFilterMax 0 state after tame done
  · rcases (tame.coherent.dispatches pid pkt tableId first).2.2 with ⟨ret, called⟩
    rw [called, Option.bind_eq_bind, Option.bind_some] at done
    exact ⟨calls_widened first _ state after (fun callback => matching_late _ tame callback) done,
      calls_served _ state after done⟩

omit first tabled in
theorem filterProc_reads (state after : Analysis D P O) (tame : Tame state.pids.filters)
    (done : state.filterProc ops outside pid pkt len = some after) :
    after = state ∨ ∃ tableId, read8 pkt 0 = some tableId := by
  rw [Analysis.filterProc] at done
  split at done
  · rw [numFilterMax, Analysis.scanFrom, tame.coherent.slots pid, List.getElem?_map] at done
    cases standing : (state.pids.filters.order pid)[0]? with
    | none =>
      rw [standing] at done
      cases done
      exact Or.inl rfl
    | some registered =>
      have member := List.mem_of_getElem? standing
      have shallow := tame.coherent.order_shallow pid registered member
      rw [standing, Option.map_some] at done
      rcases Option.bind_eq_some_iff.mp done with ⟨matched, read, -⟩
      have deep : registered.filter.para.depth = 1 := shallow
      rw [filterMatch, deep, if_neg one_ne_zero, matchLoop] at read
      rcases Option.bind_eq_some_iff.mp read with ⟨tableId, first, -⟩
      exact Or.inr ⟨tableId, first⟩
  · rcases Option.bind_eq_some_iff.mp done with ⟨called, found, later⟩
    rw [Filters.filterProc] at found
    split at found
    · cases found
      cases later
      exact Or.inl rfl
    · rcases Option.bind_eq_some_iff.mp found with ⟨tableId, first, -⟩
      exact Or.inr ⟨tableId, first⟩

end Dispatch

end TsAnalyze.Tables
