import TsAnalyze.Shared.Runs
import TsAnalyze.Tables.Versions
import TsAnalyze.Tables.Active

set_option autoImplicit false

namespace TsAnalyze.Tables

open Memory

/-- What a handler is fed: a whole section, or one whose length is refused. -/
inductive Fed
  | whole (sec : LongSection)
  | overlong (bytes : List UInt8) (fields : SectionFields)
      (readable : readFields (ofBytes bytes) = some fields)
      (indicator : fields.sectionSyntaxIndicator = 1) (excess : 0x3FD < fields.sectionLength)

def Fed.bytes : Fed → List UInt8
  | .whole sec => sec.bytes
  | .overlong bytes _ _ _ _ => bytes

def Fed.pkt (fed : Fed) : Block :=
  ofBytes fed.bytes

/-- A header and the section that its private data were built from. -/
structure Built where
  header : TableHeader
  source : Option Fed := none

-- the data stay until a section makes parse_section_header return 0
def Built.next (state : Built) (fed : Fed) (parsed : Parsed) : Built where
  header := parsed.header
  source := if parsed.ret = 0 then some fed else state.source

/-- The header has the version, the extension and the length of this section. -/
def DescribedBy (header : TableHeader) (source : LongSection) : Prop :=
  header.versionNumber = source.version ∧ header.tableIdExt = source.long.tableIdExt ∧
    header.sectionLength = source.fields.sectionLength

def Built.Describes (state : Built) : Prop :=
  state.header.privateDataByte ≠ none →
    ∀ source, state.source = some (.whole source) → source.Single → DescribedBy state.header source

-- the section is new, there is memory for it, and it is the last of its table
def Completes (heap : Heap) (header : TableHeader) (sec : LongSection) : Prop :=
  bitmap64Get header.sectionBitmap sec.long.curSec = false ∧ heap.succeeds heap.next = true ∧
    bitmap64Full (bitmap64Set header.sectionBitmap sec.long.curSec) sec.long.lastSec.toNat = some 0

/-- A table's only section has a version that is read as it is, and one that is rejected or waits
has the version, the extension and the length of the section that is stored. -/
def Fits (heap : Heap) (state : Built) : Fed → Prop
  | .overlong .. => True
  | .whole sec =>
      (Completes heap state.header sec → sec.Single → heap.succeeds (heap.next + 1) = true →
        sec.long.versionNumber = sec.version) ∧
      (¬Completes heap state.header sec → state.header.privateDataByte ≠ none →
        ∀ source, state.source = some (.whole source) → source.Single →
          sec.long.versionNumber = source.version ∧
            sec.long.tableIdExt = source.long.tableIdExt ∧
            sec.fields.sectionLength = source.fields.sectionLength)

section Step

variable (heap : Heap) (state : Built)

theorem overlong_rejected (bytes : List UInt8) (fields : SectionFields)
    (readable : readFields (ofBytes bytes) = some fields)
    (indicator : fields.sectionSyntaxIndicator = 1) (excess : 0x3FD < fields.sectionLength) :
    parseSectionHeader heap (ofBytes bytes) bytes.length state.header =
      some ⟨heap, state.header, invalidSecLen⟩ := by
  rw [parseSectionHeader, readable, Option.bind_eq_bind, Option.bind_some,
    if_pos ⟨indicator, excess⟩]
  rfl

theorem storeSection_given (before : Heap) (pbuf : Block) (bufSize : Nat) (ptable : TableHeader)
    (curSec lastSec : UInt8) (parsed : Parsed)
    (found : storeSection before pbuf bufSize ptable curSec lastSec = some parsed)
    (enough : parsed.ret ≠ enomem) : before.succeeds before.next = true := by
  by_contra refused
  rw [storeSection, Heap.malloc, Heap.allocate, if_neg refused] at found
  rw [← Option.some.inj found] at enough
  exact enough rfl

variable (sec : LongSection)

-- the private data are those of before, the header is that of the section
theorem kept_describes (notNow : ¬Completes heap state.header sec) (header : TableHeader)
    (ret : Int) (after : Heap) (notZero : ret ≠ 0)
    (sameData : header.privateDataByte = state.header.privateDataByte)
    (version : header.versionNumber = sec.long.versionNumber)
    (ext : header.tableIdExt = sec.long.tableIdExt)
    (length : header.sectionLength = sec.fields.sectionLength) :
    (state.next (.whole sec) ⟨after, header, ret⟩).Describes ↔ Fits heap state (.whole sec) := by
  rw [Built.next, if_neg notZero, Built.Describes, sameData, Fits]
  simp only [DescribedBy, version, ext, length]
  constructor
  · intro described
    exact ⟨fun now => absurd now notNow, fun _ => described⟩
  · intro fitting
    exact fitting.2 notNow

theorem whole_describes (parsed : Parsed)
    (found : parseSectionHeader heap (ofBytes sec.bytes) sec.bytes.length state.header =
      some parsed) :
    (state.next (.whole sec) parsed).Describes ↔ Fits heap state (.whole sec) := by
  rcases parseSectionHeader_cases heap state.header sec parsed found with
    ⟨seen, rfl⟩ | ⟨unseen, stored⟩
  · have notNow : ¬Completes heap state.header sec := by
      rintro ⟨unseen, -⟩
      rw [seen] at unseen
      cases unseen
    exact kept_describes heap state sec notNow _ _ _ duplicateData_ne_zero rfl rfl rfl rfl
  · have storing := found
    rw [parseSectionHeader_long, unseen, if_neg Bool.false_ne_true] at storing
    have given := storeSection_given heap _ _ _ _ _ parsed storing
    cases stored with
    | noMemory after node failed =>
      have notNow : ¬Completes heap state.header sec := by
        rintro ⟨-, memory, -⟩
        rw [failed] at memory
        cases memory
      exact kept_describes heap state sec notNow _ _ _ enomem_ne_zero rfl rfl rfl rfl
    | waiting after node missing =>
      have notNow : ¬Completes heap state.header sec := fun now => missing now.2.2
      exact kept_describes heap state sec notNow _ _ _ one_ne_zero rfl rfl rfl rfl
    | complete freed after node nodes data full joined =>
      have memory := given enomem_ne_zero.symm
      have now : Completes heap state.header sec := ⟨unseen, memory, full⟩
      have present : sec.Single → (data ≠ none ↔ heap.succeeds (heap.next + 1) = true) := by
        intro single
        rw [single.1] at unseen
        exact parseSectionHeader_data heap state.header sec single memory unseen _ found
      constructor
      · intro described
        refine ⟨fun _ single table => ?_, fun notNow => absurd now notNow⟩
        exact (described ((present single).mpr table) sec rfl single).1
      · rintro ⟨version, -⟩ hasData source same single
        rcases Fed.whole.inj (Option.some.inj same) with rfl
        exact ⟨version now single ((present single).mp hasData), rfl, rfl⟩

theorem next_describes (fed : Fed) (parsed : Parsed) (described : state.Describes)
    (found : parseSectionHeader heap fed.pkt fed.bytes.length state.header = some parsed) :
    (state.next fed parsed).Describes ↔ Fits heap state fed := by
  cases fed with
  | whole sec => exact whole_describes heap state sec parsed found
  | overlong bytes fields readable indicator excess =>
    have rejected := overlong_rejected heap state bytes fields readable indicator excess
    rw [← Option.some.inj (rejected.symm.trans found)]
    exact ⟨fun _ => trivial, fun _ => described⟩

end Step

section Tables

variable {D : Type} (ops : DescriptorOps D)

/-- The tables, and the section that the private data of each were built from. -/
structure Traced (D : Type) where
  psi : Psi D
  source : TableName → Option Fed := fun _ => none

def Traced.built (traced : Traced D) (name : TableName) : Built :=
  ⟨(traced.psi.tables name).header, traced.source name⟩

def Traced.Describes (traced : Traced D) : Prop :=
  ∀ name, (traced.built name).Describes

def Traced.give (traced : Traced D) (name : TableName) (fed : Fed) : Option (Traced D) := do
  let parsed ← parseSectionHeader traced.psi.heap fed.pkt fed.bytes.length
    (traced.psi.tables name).header
  let psi ← Tables.give ops traced.psi name fed.pkt fed.bytes.length
  return ⟨psi, Function.update traced.source name ((traced.built name).next fed parsed).source⟩

def Traced.deliver (traced : Traced D) (event : Proc × Fed) : Option (Traced D) := do
  match ← event.1.target event.2.pkt with
  | none => return traced
  | some name => traced.give ops name event.2

def Traced.Fits (traced : Traced D) (event : Proc × Fed) : Prop :=
  ∀ name, event.1.target event.2.pkt = some (some name) →
    Tables.Fits traced.psi.heap (traced.built name) event.2

-- what is traced is what the handlers do
theorem traced_deliver (traced : Traced D) (event : Proc × Fed) :
    (traced.deliver ops event).map Traced.psi =
      Tables.deliver ops traced.psi ⟨event.1, event.2.pkt, event.2.bytes.length⟩ := by
  rw [Traced.deliver, Tables.deliver, Option.bind_eq_bind, Option.map_bind]
  congr 1
  funext target
  cases target with
  | none => rfl
  | some name =>
    simp only [Function.comp, Traced.give, Tables.give, parseTable, Option.bind_eq_bind,
      Option.map_bind, Option.pure_def]
    cases parseSectionHeader traced.psi.heap event.2.pkt event.2.bytes.length
      (traced.psi.tables name).header with
    | none => rfl
    | some parsed => simp [Option.bind_some]

theorem traced_next (traced after : Traced D) (event : Proc × Fed) (described : traced.Describes)
    (delivered : traced.deliver ops event = some after) :
    after.Describes ↔ traced.Fits event := by
  rcases Option.bind_eq_some_iff.mp delivered with ⟨target, found, given⟩
  cases target with
  | none =>
    rw [← Option.some.inj given, Traced.Fits, found]
    constructor
    · intro _ name same
      cases same
    · exact fun _ => described
  | some name =>
    rcases Option.bind_eq_some_iff.mp given with ⟨parsed, header, later⟩
    rcases Option.bind_eq_some_iff.mp later with ⟨psi, handled, same⟩
    rcases Option.map_eq_some_iff.mp handled with ⟨result, decoded, rfl⟩
    rcases parseTable_header _ _ _ _ _ result decoded with ⟨again, parsedAgain, sameHeader⟩
    have sameParsed := Option.some.inj (header.symm.trans parsedAgain)
    have step := next_describes traced.psi.heap (traced.built name) event.2 parsed
      (described name) header
    have here : after.built name = (traced.built name).next event.2 parsed := by
      rw [← Option.some.inj same, sameParsed]
      simp [Traced.built, Built.next, sameHeader]
    have elsewhere : ∀ other, other ≠ name → after.built other = traced.built other := by
      intro other different
      rw [← Option.some.inj same]
      simp [Traced.built, different]
    constructor
    · intro describedAfter aim aimed
      rcases Option.some.inj (Option.some.inj (aimed.symm.trans found)) with rfl
      exact step.mp (here ▸ describedAfter aim)
    · intro fitting aim
      by_cases same : aim = name
      · rw [same, here]
        exact step.mpr (fitting name found)
      · rw [elsewhere aim same]
        exact described aim

end Tables

section Versions

variable {C : Type} (decoder : Decoder C) (initial : C)

/-- `psi.pat_list` or `psi.cat_list`, and the section that each table's data were built from. -/
structure TracedVersions (C : Type) where
  versions : Versions C
  old : List Built := []
  source : Option Fed := none
  tracked : old.map Built.header = versions.old.map fun table => table.header

def TracedVersions.active (traced : TracedVersions C) : Option Built :=
  traced.versions.active.map fun table => ⟨table.header, traced.source⟩

def TracedVersions.Describes (traced : TracedVersions C) : Prop :=
  (∀ built ∈ traced.old, built.Describes) ∧ ∀ built ∈ traced.active, built.Describes

def TracedVersions.counted (traced : TracedVersions C) : TracedVersions C :=
  { traced with versions := traced.versions.counted }

def TracedVersions.open (traced : TracedVersions C) : TracedVersions C where
  versions := traced.versions.open initial
  old := traced.old ++ traced.active.toList
  tracked := by
    rw [Versions.open, Versions.list, List.map_append, List.map_append, traced.tracked,
      TracedVersions.active]
    cases traced.versions.active <;> rfl

def TracedVersions.refuse (traced : TracedVersions C) : TracedVersions C :=
  { traced with versions := { traced.versions with heap := traced.versions.heap.reserve.2 } }

def TracedVersions.parse (traced : TracedVersions C) (fed : Fed) : Option (TracedVersions C) :=
  match traced.versions.active with
  | none => some traced
  | some table =>
      (parseSectionHeader traced.versions.heap fed.pkt fed.bytes.length table.header).bind
        fun parsed =>
          (parseTable decoder traced.versions.heap fed.pkt fed.bytes.length table).map
            fun handled =>
              { traced with
                versions :=
                  { traced.versions with
                    heap := handled.heap
                    active := some handled.table
                    registered := traced.versions.registered ++ handled.registered }
                source := (Built.next ⟨table.header, traced.source⟩ fed parsed).source }

def TracedVersions.next (traced : TracedVersions C) (fed : Fed) : Option (TracedVersions C) := do
  let ret ← checkSectionHeaderVersion fed.pkt traced.versions.curVersion
  if ret = 1 then
    if traced.versions.heap.reserve.1 then (traced.counted.open initial).parse decoder fed
    else return traced.counted.refuse
  else if ret ≠ 0 then return traced.counted
  else traced.counted.parse decoder fed

def TracedVersions.FitsActive (traced : TracedVersions C) (fed : Fed) : Prop :=
  ∀ built ∈ traced.active, Fits traced.versions.heap built fed

def TracedVersions.Fits (traced : TracedVersions C) (fed : Fed) : Prop :=
  (checkSectionHeaderVersion fed.pkt traced.versions.curVersion = some 1 →
    traced.versions.heap.reserve.1 = true → (traced.open initial).FitsActive fed) ∧
  (checkSectionHeaderVersion fed.pkt traced.versions.curVersion = some 0 → traced.FitsActive fed)

theorem traced_parse (traced : TracedVersions C) (fed : Fed) :
    (traced.parse decoder fed).map TracedVersions.versions =
      (traced.versions.parse decoder fed.pkt fed.bytes.length).map Prod.fst := by
  rw [TracedVersions.parse, Versions.parse]
  cases traced.versions.active with
  | none => rfl
  | some table =>
    simp only [parseTable, Option.map_bind]
    cases parseSectionHeader traced.versions.heap fed.pkt fed.bytes.length table.header with
    | none => rfl
    | some parsed => simp [Function.comp_def]

-- what is traced is what parse_pat and parse_cat do
theorem traced_versions (traced : TracedVersions C) (fed : Fed) :
    (traced.next decoder initial fed).map TracedVersions.versions =
      (parseVersioned decoder initial traced.versions.counted fed.pkt fed.bytes.length).map
        Prod.fst := by
  rw [TracedVersions.next, parseVersioned, Option.bind_eq_bind, Option.map_bind, Option.bind_eq_bind,
    Option.map_bind]
  congr 1
  funext ret
  simp only [Function.comp]
  split
  · by_cases given : traced.versions.heap.reserve.1 = true
    · rw [if_pos given, if_pos (by exact given)]
      exact traced_parse decoder _ fed
    · rw [if_neg given, if_neg (by exact given)]
      rfl
  · split
    · rfl
    · exact traced_parse decoder _ fed

theorem tracedParse_next (traced after : TracedVersions C) (fed : Fed)
    (described : traced.Describes) (parsed : traced.parse decoder fed = some after) :
    after.Describes ↔ traced.FitsActive fed := by
  cases opened : traced.versions.active with
  | none =>
    rw [TracedVersions.parse, opened] at parsed
    rw [← Option.some.inj parsed, TracedVersions.FitsActive, TracedVersions.active, opened]
    constructor
    · intro _ built active
      cases active
    · exact fun _ => described
  | some table =>
    rw [TracedVersions.parse, opened] at parsed
    rcases Option.bind_eq_some_iff.mp parsed with ⟨found, header, later⟩
    rcases Option.map_eq_some_iff.mp later with ⟨handled, decoded, rfl⟩
    rcases parseTable_header _ _ _ _ _ handled decoded with ⟨again, foundAgain, sameHeader⟩
    rcases Option.some.inj (header.symm.trans foundAgain) with rfl
    have activeBuilt : traced.active = some ⟨table.header, traced.source⟩ := by
      rw [TracedVersions.active, opened, Option.map_some]
    have now := described.2 _ activeBuilt
    have step := next_describes traced.versions.heap ⟨table.header, traced.source⟩ fed found now
      header
    rw [TracedVersions.FitsActive, activeBuilt, TracedVersions.Describes, TracedVersions.active]
    simp only [Option.map_some, Option.mem_some_iff, forall_eq', sameHeader]
    exact ⟨fun describes => step.mp describes.2, fun fits => ⟨described.1, step.mpr fits⟩⟩

theorem open_describes (traced : TracedVersions C) (described : traced.Describes) :
    (traced.open initial).Describes := by
  constructor
  · intro built member
    rcases List.mem_append.mp member with earlier | last
    · exact described.1 built earlier
    · exact described.2 built (Option.mem_toList.mp last)
  · intro built fresh present
    rw [← Option.some.inj fresh] at present
    exact absurd rfl present

theorem tracedVersions_next (traced after : TracedVersions C) (fed : Fed)
    (described : traced.Describes) (parsed : traced.next decoder initial fed = some after) :
    after.Describes ↔ traced.Fits initial fed := by
  rcases Option.bind_eq_some_iff.mp parsed with ⟨ret, checked, later⟩
  rw [TracedVersions.Fits, checked]
  split at later
  · rename_i newer
    subst newer
    split at later
    · rename_i given
      have step := tracedParse_next decoder _ after fed
        (open_describes initial traced.counted described) later
      constructor
      · exact fun describes => ⟨fun _ _ => step.mp describes, fun same => by cases same⟩
      · exact fun fits => step.mpr (fits.1 rfl given)
    · rename_i refused
      rw [← Option.some.inj later]
      constructor
      · exact fun _ => ⟨fun _ given => absurd given refused, fun same => by cases same⟩
      · exact fun _ => described
  · rename_i notNewer
    have known : ¬some ret = some 1 := fun same => notNewer (Option.some.inj same)
    split at later
    · rename_i older
      have notSame : ¬some ret = some 0 := fun same => older (Option.some.inj same)
      rw [← Option.some.inj later]
      constructor
      · exact fun _ => ⟨fun same => absurd same known, fun same => absurd same notSame⟩
      · exact fun _ => described
    · rename_i same
      have step := tracedParse_next decoder traced.counted after fed described later
      constructor
      · exact fun describes => ⟨fun newer => absurd newer known, fun _ => step.mp describes⟩
      · exact fun fits => step.mpr (fits.2 (congrArg some (not_not.mp same)))

end Versions

-- version 31, which is read as it is
def markerPmt : LongSection where
  bytes := [0x02, 0xB0, 20, 0, 1, 0xFF, 0, 0, 0xE1, 0x20, 0xF0, 2, 0x52, 0, 0x1B, 0xE1, 0x21, 0xF0, 0,
    1, 2, 3, 4]
  fields := ⟨2, 1, 0, 20⟩
  long := ⟨1, 31, 1, 0, 0⟩
  readable := by decide +kernel
  readableLong := by decide +kernel
  syntaxIndicator := rfl
  sized := rfl
  minimal := by decide
  maximal := by decide

-- the same for program 2
def otherPmt : LongSection where
  bytes := [0x02, 0xB0, 20, 0, 2, 0xFF, 0, 0, 0xE1, 0x20, 0xF0, 2, 0x52, 0, 0x1B, 0xE1, 0x21, 0xF0, 0,
    5, 6, 7, 8]
  fields := ⟨2, 1, 0, 20⟩
  long := ⟨2, 31, 1, 0, 0⟩
  readable := by decide +kernel
  readableLong := by decide +kernel
  syntaxIndicator := rfl
  sized := rfl
  minimal := by decide
  maximal := by decide

def markerGiven : Option (Traced Unit) :=
  Traced.deliver plainOps { psi := Psi.initial Heap.empty } (.pmt 256, .whole markerPmt)

theorem markerGiven_reached : markerGiven.isSome = true := by
  decide +kernel

def otherGiven : Option (Traced Unit) :=
  Traced.deliver plainOps (markerGiven.get markerGiven_reached) (.pmt 256, .whole otherPmt)

theorem otherGiven_reached : otherGiven.isSome = true := by
  decide +kernel

end TsAnalyze.Tables
