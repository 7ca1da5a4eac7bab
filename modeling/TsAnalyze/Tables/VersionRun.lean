import TsAnalyze.Tables.Active

set_option autoImplicit false

namespace TsAnalyze.Tables

open Memory

variable {C : Type}

/-- After every section the active table is that section, under its version. -/
def Followed (proc : Versions C → Block → Nat → Option (Versions C)) (decoder : Decoder C)
    (initial : C) : Versions C → List LongSection → Prop
  | _, [] => True
  | versions, sec :: rest =>
      ∃ after table, proc versions (ofBytes sec.bytes) sec.bytes.length = some after ∧
        after.active = some table ∧ table.header.versionNumber = sec.version ∧
        decoded decoder initial sec = some table.content ∧
        Followed proc decoder initial after rest

/-- Single sections with successive versions from `first` on, each sent once or more. -/
structure VersionRun where
  first : Nat
  bounded : first < 32
  turns : List (LongSection × Nat)
  nonempty : turns ≠ []
  single : ∀ turn ∈ turns, turn.1.Single
  counting : ∀ i (inside : i < turns.length), (turns.get ⟨i, inside⟩).1.version = (first + i) % 32

def repeated (turns : List (LongSection × Nat)) : List LongSection :=
  turns.flatMap fun turn => List.replicate (turn.2 + 1) turn.1

-- version 0 only, behind a reserved bit that is 0
def VersionRun.OnlyZero (run : VersionRun) : Prop :=
  run.first = 0 ∧ ∃ sec repeats, run.turns = [(sec, repeats)] ∧ sec.reservedBit = 0

-- a handler that parses, and fails unless there is an active table afterwards
structure Handles (proc : Versions C → Block → Nat → Option (Versions C)) (decoder : Decoder C)
    (initial : C) : Prop where
  handles : ∀ versions after pkt len table, after.active = some table →
    (proc versions pkt len = some after ↔
      ∃ ret, parseVersioned decoder initial versions.counted pkt len = some (after, ret))

theorem patProc_handles : Handles patProc decodePat {} := by
  constructor
  intro versions after pkt len table active
  rw [patProc, parsePat, Option.map_eq_some_iff]
  constructor
  · rintro ⟨⟨found, ret⟩, parsed, rfl⟩
    exact ⟨ret, parsed⟩
  · rintro ⟨ret, parsed⟩
    exact ⟨(after, ret), parsed, rfl⟩

theorem catProc_handles {D : Type} (ops : DescriptorOps D) :
    Handles (fun versions pkt len => (catProc ops versions pkt len).map Prod.fst)
      (decodeDescriptors ops) [] := by
  constructor
  intro versions after pkt len table active
  rw [Option.map_eq_some_iff]
  constructor
  · rintro ⟨⟨found, caNum⟩, parsed, rfl⟩
    rcases Option.bind_eq_some_iff.mp parsed with ⟨⟨parsedVersions, ret⟩, first, later⟩
    rcases Option.bind_eq_some_iff.mp later with ⟨activeTable, -, same⟩
    obtain rfl := (Prod.ext_iff.mp (Option.some.inj same)).1
    exact ⟨ret, first⟩
  · rintro ⟨ret, parsed⟩
    refine ⟨(after, table.content.length), ?_, rfl⟩
    rw [catProc, parseCat, parsed]
    simp [active]

section Run

variable {decoder : Decoder C} {initial : C} (lawful : decoder.Lawful)
variable {proc : Versions C → Block → Nat → Option (Versions C)}
variable (handling : Handles proc decoder initial)

-- the section is the one that the active table was built from
def Holding (decoder : Decoder C) (initial : C) (sec : LongSection) (versions : Versions C) :
    Prop :=
  versions.heap.Available ∧ ∃ table, versions.active = some table ∧
    table.header.versionNumber = sec.long.versionNumber ∧
    bitmap64Get table.header.sectionBitmap 0 = true ∧
    decoded decoder initial sec = some table.content

theorem parseVersioned_marker (versions : Versions C) (sec : LongSection)
    (nothing : versions.active = none) (marker : sec.long.versionNumber = 0x1F) :
    parseVersioned decoder initial versions (ofBytes sec.bytes) sec.bytes.length =
      some (versions, nullPtr) := by
  have current : versions.curVersion = 0x1F := by rw [Versions.curVersion, nothing]
  rw [parseVersioned, check_long, current, marker]
  simp [Versions.parse, nothing]

include lawful in
theorem parseVersioned_opens (versions : Versions C) (sec : LongSection) (single : sec.Single)
    (available : versions.heap.Available) (nothing : versions.active = none)
    (legal : sec.long.versionNumber ≠ 0x1F) (content : C)
    (decodes : decoded decoder initial sec = some content) :
    ∃ after ret, parseVersioned decoder initial versions (ofBytes sec.bytes) sec.bytes.length =
        some (after, ret) ∧ Holding decoder initial sec after := by
  have current : versions.curVersion = 0x1F := by rw [Versions.curVersion, nothing]
  have newer : checkSectionHeaderVersion (ofBytes sec.bytes) versions.curVersion = some 1 := by
    rw [check_long, current, if_neg legal.symm, if_pos (Or.inr ⟨rfl, legal⟩)]
  have given : versions.heap.reserve.1 = true := available versions.heap.next
  have opened : (versions.open initial).heap.Available := available
  rcases parseTable_first lawful (versions.open initial).heap
    { header := { versionNumber := 0x1F }, content := initial } sec single opened
    (bitmap64Get_empty 0) rfl content decodes with ⟨handled, parsed, table⟩
  have supply := parseTable_succeeds lawful _ _ _ _ handled parsed
  rw [parseVersioned, newer, Option.bind_eq_bind, Option.bind_some, if_pos rfl, if_pos given]
  refine ⟨_, _, by
    rw [Versions.parse, Versions.open]
    exact congrArg (Option.map _) parsed, opened.of_succeeds supply, handled.table, rfl, ?_, ?_, ?_⟩
  · rw [table]
    rfl
  · rw [table, completed, bitmap64Get_set]
    rfl
  · rw [table, decodes]

theorem parseVersioned_repeats (versions : Versions C) (sec : LongSection) (single : sec.Single)
    (holding : Holding decoder initial sec versions) :
    ∃ after ret, parseVersioned decoder initial versions (ofBytes sec.bytes) sec.bytes.length =
        some (after, ret) ∧ Holding decoder initial sec after := by
  rcases holding with ⟨available, table, active, version, seen, content⟩
  have current : versions.curVersion = sec.long.versionNumber := by
    rw [Versions.curVersion, active]
    exact version
  have duplicate := parseTable_duplicate versions.heap table sec decoder (by rw [single.1, seen])
  rw [parseVersioned, check_long, if_pos current]
  simp only [Option.bind_eq_bind, Option.bind_some, zero_ne_one, if_false, ne_eq,
    not_true_eq_false, Versions.parse, active, duplicate, Option.map_some]
  exact ⟨_, _, rfl, available, _, rfl, rfl, seen, content⟩

theorem holding_counted (versions : Versions C) (sec : LongSection)
    (holding : Holding decoder initial sec versions) :
    Holding decoder initial sec versions.counted :=
  holding

theorem parse_version (versions after : Versions C) (sec : LongSection) (ret : Int)
    (table : Table C) (started : versions.active.isSome = true)
    (found : versions.parse decoder (ofBytes sec.bytes) sec.bytes.length = some (after, ret))
    (active : after.active = some table) :
    table.header.versionNumber = sec.long.versionNumber := by
  rcases Option.isSome_iff_exists.mp started with ⟨old, same⟩
  rw [Versions.parse, same] at found
  rcases Option.map_eq_some_iff.mp found with ⟨handled, result, pair⟩
  rcases Prod.mk.inj pair with ⟨rfl, -⟩
  rcases parseTable_header versions.heap old decoder _ _ handled result with
    ⟨header, headerResult, sameHeader⟩
  rw [← Option.some.inj active, sameHeader]
  exact (parseSectionHeader_describes _ _ sec header headerResult).1

-- no version is older than 0
theorem parseVersioned_version (versions after : Versions C) (sec : LongSection) (ret : Int)
    (table : Table C) (current : versions.curVersion = 0)
    (started : versions.active.isSome = true) (available : versions.heap.Available)
    (parsed : parseVersioned decoder initial versions (ofBytes sec.bytes) sec.bytes.length =
      some (after, ret)) (active : after.active = some table) :
    table.header.versionNumber = sec.long.versionNumber := by
  rw [parseVersioned, check_long, current, Option.bind_eq_bind, Option.bind_some] at parsed
  by_cases same : 0 = sec.long.versionNumber
  · rw [if_pos same, if_neg (by decide), if_neg (by decide)] at parsed
    exact parse_version versions after sec ret table started parsed active
  · have newer : sec.long.versionNumber > 0 := Nat.pos_of_ne_zero fun zero => same zero.symm
    have given : versions.heap.reserve.1 = true := available versions.heap.next
    rw [if_neg same, if_pos (Or.inl newer), if_pos rfl, if_pos given] at parsed
    exact parse_version (versions.open initial) after sec ret table rfl parsed active

include handling

theorem followed_repeats (sec : LongSection) (single : sec.Single)
    (exact : sec.long.versionNumber = sec.version) (count : Nat) (versions : Versions C)
    (holding : Holding decoder initial sec versions) :
    Followed proc decoder initial versions (List.replicate count sec) := by
  induction count generalizing versions with
  | zero => trivial
  | succ count ih =>
    rcases parseVersioned_repeats versions.counted sec single (holding_counted versions sec holding)
      with ⟨after, ret, parsed, next⟩
    rcases next with ⟨available, table, active, version, seen, content⟩
    have done := (handling.handles versions after _ _ table active).mpr ⟨ret, parsed⟩
    exact ⟨after, table, done, active, version.trans exact, content,
      ih after ⟨available, table, active, version, seen, content⟩⟩

theorem followed_later (sec : LongSection) (single : sec.Single) (count : Nat)
    (rest : List LongSection) (versions : Versions C)
    (holding : Holding decoder initial sec versions)
    (followed : Followed proc decoder initial versions (List.replicate count sec ++ rest)) :
    ∃ after, Holding decoder initial sec after ∧ Followed proc decoder initial after rest := by
  induction count generalizing versions with
  | zero => exact ⟨versions, holding, followed⟩
  | succ count ih =>
    rcases followed with ⟨after, table, done, active, -, -, later⟩
    rcases parseVersioned_repeats versions.counted sec single (holding_counted versions sec holding)
      with ⟨other, ret, parsed, next⟩
    rcases (handling.handles versions after _ _ table active).mp done with ⟨otherRet, otherParsed⟩
    rw [parsed] at otherParsed
    obtain rfl := (Prod.ext_iff.mp (Option.some.inj otherParsed)).1
    exact ih other next later

include lawful

theorem followed_first (versions : Versions C) (available : versions.heap.Available)
    (nothing : versions.active = none) (sec : LongSection) (single : sec.Single)
    (rest : List LongSection) (content : C)
    (decodes : decoded decoder initial sec = some content)
    (followed : Followed proc decoder initial versions (sec :: rest)) :
    sec.long.versionNumber ≠ 0x1F ∧ sec.long.versionNumber = sec.version ∧
      ∃ after, Holding decoder initial sec after ∧ Followed proc decoder initial after rest := by
  rcases followed with ⟨after, table, done, active, version, -, later⟩
  rcases (handling.handles versions after _ _ table active).mp done with ⟨ret, parsed⟩
  by_cases marker : sec.long.versionNumber = 0x1F
  · rw [parseVersioned_marker versions.counted sec nothing marker] at parsed
    obtain rfl := (Prod.ext_iff.mp (Option.some.inj parsed)).1
    have closed : versions.counted.active = none := nothing
    rw [closed] at active
    cases active
  · rcases parseVersioned_opens lawful versions.counted sec single available nothing marker content
      decodes with ⟨other, otherRet, otherParsed, holding⟩
    rw [otherParsed] at parsed
    obtain rfl := (Prod.ext_iff.mp (Option.some.inj parsed)).1
    have held := holding
    rcases held with ⟨-, heldTable, heldActive, heldVersion, -⟩
    rw [heldActive] at active
    obtain rfl := Option.some.inj active
    exact ⟨marker, heldVersion.symm.trans version, other, holding, later⟩

theorem followed_iff (heap : Heap) (available : heap.Available) (run : VersionRun)
    (decodes : ∀ turn ∈ run.turns, (decoded decoder initial turn.1).isSome) :
    Followed proc decoder initial { heap := heap } (repeated run.turns) ↔ run.OnlyZero := by
  rcases split : run.turns with _ | ⟨⟨sec, repeats⟩, more⟩
  · exact absurd split run.nonempty
  have member : (sec, repeats) ∈ run.turns := by simp [split]
  have single := run.single _ member
  rcases Option.isSome_iff_exists.mp (decodes _ member) with ⟨content, decoding⟩
  have firstVersion : sec.version = run.first := by
    have counted := run.counting 0 (by simp [split])
    have bounded := run.bounded
    simp only [split, List.get_eq_getElem, List.getElem_cons_zero] at counted
    omega
  have sections : repeated ((sec, repeats) :: more) =
      sec :: (List.replicate repeats sec ++ repeated more) := by
    simp [repeated, List.replicate_succ]
  have value := versionNumber_eq sec
  have bit : sec.reservedBit < 2 := by
    rw [LongSection.reservedBit]
    exact Nat.lt_succ_of_le Nat.and_le_right
  rw [sections]
  constructor
  · intro followed
    rcases followed_first lawful handling { heap := heap } available rfl sec single _ content
      decoding followed with ⟨legal, exact, after, holding, later⟩
    have bounded := run.bounded
    have zero : run.first = 0 ∧ sec.reservedBit = 0 := by omega
    rcases followed_later handling sec single repeats (repeated more) after holding later with
      ⟨last, lastHolding, rest⟩
    rcases more with _ | ⟨⟨next, nextRepeats⟩, others⟩
    · exact ⟨zero.1, sec, repeats, split, zero.2⟩
    · -- the bit that is lost is the one in which version 1 differs
      exfalso
      have nextVersion : next.version = 1 := by
        have counted := run.counting 1 (by simp [split])
        simp only [split, List.get_eq_getElem, List.getElem_cons_succ, List.getElem_cons_zero,
          zero.1] at counted
        exact counted
      have nextSections : repeated ((next, nextRepeats) :: others) =
          next :: (List.replicate nextRepeats next ++ repeated others) := by
        simp [repeated, List.replicate_succ]
      rw [nextSections] at rest
      rcases rest with ⟨final, table, done, active, version, -, -⟩
      rcases (handling.handles last final _ _ table active).mp done with ⟨ret, parsed⟩
      rcases lastHolding with ⟨lastAvailable, old, oldActive, oldVersion, -⟩
      have current : last.counted.curVersion = 0 := by
        have same : last.counted.active = some old := oldActive
        rw [Versions.curVersion, same]
        change old.header.versionNumber = 0
        omega
      have nextValue := versionNumber_eq next
      have started : last.counted.active.isSome = true := by
        rw [Versions.counted, oldActive]
        rfl
      have found := parseVersioned_version last.counted final next ret table current started
        lastAvailable parsed active
      omega
  · rintro ⟨zero, other, otherRepeats, only, reserved⟩
    rw [split] at only
    rcases List.cons.inj only with ⟨same, rfl⟩
    rcases Prod.mk.inj same with ⟨rfl, rfl⟩
    have exact : sec.long.versionNumber = sec.version := by omega
    have legal : sec.long.versionNumber ≠ 0x1F := by omega
    rcases parseVersioned_opens lawful { heap := heap : Versions C }.counted sec single available
      rfl legal content decoding with ⟨after, ret, parsed, holding⟩
    have held := holding
    rcases held with ⟨-, table, active, version, -, stored⟩
    refine ⟨after, table, (handling.handles _ after _ _ table active).mpr ⟨ret, parsed⟩, active,
      version.trans exact, stored, ?_⟩
    have nothing : repeated ([] : List (LongSection × Nat)) = [] := rfl
    rw [nothing, List.append_nil]
    exact followed_repeats handling sec single exact repeats after holding

end Run

theorem decodePat_lawful : Decoder.Lawful decodePat := by
  constructor
  · exact decodePat_plain
  · intro header other pdata content _ _ sameLength
    rw [decodePat, decodePat, sameLength]

theorem decodeDescriptors_lawful {D : Type} (ops : DescriptorOps D) :
    Decoder.Lawful (decodeDescriptors ops) := by
  constructor
  · exact decodeDescriptors_plain ops
  · intro header other pdata content _ _ sameLength
    rw [decodeDescriptors, decodeDescriptors, sameLength]

/-- No version is followed but 0, and that one only if a reserved bit is wrong. -/
theorem versions_followed {D : Type} (ops : DescriptorOps D) (heap : Heap)
    (available : heap.Available) (run : VersionRun) :
    ((∀ turn ∈ run.turns, (decoded decodePat {} turn.1).isSome) →
      (Followed patProc decodePat {} { heap := heap } (repeated run.turns) ↔ run.OnlyZero)) ∧
    ((∀ turn ∈ run.turns, (decoded (decodeDescriptors ops) [] turn.1).isSome) →
      (Followed (fun versions pkt len => (catProc ops versions pkt len).map Prod.fst)
        (decodeDescriptors ops) [] { heap := heap } (repeated run.turns) ↔ run.OnlyZero)) :=
  ⟨followed_iff decodePat_lawful patProc_handles heap available run,
    followed_iff (decodeDescriptors_lawful ops) (catProc_handles ops) heap available run⟩

-- program 1 on PID 0x100, with the second reserved bit 0
def reservedPat : LongSection where
  bytes := [0, 0xB0, 13, 0, 1, 0x81, 0, 0, 0, 1, 0xE1, 0, 1, 2, 3, 4]
  fields := ⟨0, 1, 0, 13⟩
  long := ⟨1, 0, 1, 0, 0⟩
  readable := by decide +kernel
  readableLong := by decide +kernel
  syntaxIndicator := rfl
  sized := rfl
  minimal := by decide
  maximal := by decide

def onlyZero : VersionRun where
  first := 0
  bounded := by decide
  turns := [(reservedPat, 2)]
  nonempty := by simp
  single := by simp [LongSection.Single, reservedPat]
  counting := by decide

theorem versions_followed_only_zero :
    Followed patProc decodePat {} { heap := Heap.empty } (repeated onlyZero.turns) :=
  ((versions_followed (D := Unit) ⟨fun _ _ _ => none, fun _ _ => none⟩ Heap.empty
    Heap.empty_available onlyZero).1 (by
      intro turn member
      obtain rfl := List.mem_singleton.mp member
      decide +kernel)).mpr ⟨rfl, reservedPat, 2, rfl, by decide⟩

def standardPat : LongSection where
  bytes := [0, 0xB0, 13, 0, 1, 0xC1, 0, 0, 0, 1, 0xE1, 0, 1, 2, 3, 4]
  fields := ⟨0, 1, 0, 13⟩
  long := ⟨1, 16, 1, 0, 0⟩
  readable := by decide +kernel
  readableLong := by decide +kernel
  syntaxIndicator := rfl
  sized := rfl
  minimal := by decide
  maximal := by decide

def standardRun : VersionRun where
  first := 0
  bounded := by decide
  turns := [(standardPat, 0)]
  nonempty := by simp
  single := by simp [LongSection.Single, standardPat]
  counting := by decide

theorem versions_not_followed :
    ¬∀ run : VersionRun, (∀ turn ∈ run.turns, (decoded decodePat {} turn.1).isSome) →
      Followed patProc decodePat {} { heap := Heap.empty } (repeated run.turns) := by
  intro claim
  have decodes : ∀ turn ∈ standardRun.turns, (decoded decodePat {} turn.1).isSome := by
    intro turn member
    obtain rfl := List.mem_singleton.mp member
    decide +kernel
  rcases (followed_iff decodePat_lawful patProc_handles Heap.empty Heap.empty_available
    standardRun decodes).mp (claim standardRun decodes) with ⟨-, sec, repeats, only, reserved⟩
  rcases Prod.mk.inj (List.cons.inj only).1 with ⟨rfl, -⟩
  revert reserved
  decide

end TsAnalyze.Tables
