import TsAnalyze.Tables.VersionRun

set_option autoImplicit false

namespace TsAnalyze.Tables

open Memory

variable {C : Type}

-- what is known of a table besides the fields of the last section
def Table.known (table : Table C) : Nat × C :=
  (table.header.versionNumber, table.content)

/-- The same tables, the same active version and the same content. -/
def Unchanged (before after : Versions C) : Prop :=
  after.old = before.old ∧ after.active.map Table.known = before.active.map Table.known

-- a section of a version that parse_pat and parse_cat allocate a table for
def OpensTable (versions : Versions C) (pbuf : Block) : Prop :=
  checkSectionHeaderVersion pbuf versions.curVersion = some 1

-- the only errors of a decoder are positive
def Decoder.Positive (decoder : Decoder C) : Prop :=
  ∀ header pdata content heap result, decoder header pdata content heap = some result →
    0 ≤ result.1.ret

theorem patLoop_positive (turns : Nat) (pdata : Block) (sectionLen : Int) (pat : Pat)
    (registered : List Registration) (heap : Heap) (result : Decoded Pat × Heap)
    (found : patLoop turns pdata sectionLen pat registered heap = some result) :
    0 ≤ result.1.ret := by
  induction turns generalizing pdata sectionLen pat registered heap with
  | zero =>
    rw [patLoop] at found
    split at found
    · cases found
    · rw [← Option.some.inj found]
  | succ turns ih =>
    rw [patLoop] at found
    split at found
    · rcases Option.bind_eq_some_iff.mp found with ⟨programNum, -, afterNum⟩
      rcases Option.bind_eq_some_iff.mp afterNum with ⟨word, -, later⟩
      simp only at later
      split at later
      · rw [← Option.some.inj later]
      split at later
      · exact ih _ _ _ _ _ later
      have last := reserve_bind later
      split at last
      · exact ih _ _ _ _ _ last
      · rw [← Option.some.inj last]
        exact Int.natCast_nonneg 12
    · rw [← Option.some.inj found]

theorem decodePat_positive : Decoder.Positive decodePat :=
  fun _ _ _ heap result found => patLoop_positive _ _ _ _ _ heap result found

theorem decodeDescriptors_positive {D : Type} (ops : DescriptorOps D) :
    Decoder.Positive (decodeDescriptors ops) := by
  intro header pdata content heap result found
  rcases Option.bind_eq_some_iff.mp found with ⟨freed, -, later⟩
  rcases Option.bind_eq_some_iff.mp later with ⟨parsed, -, last⟩
  rw [← Option.some.inj last]

-- a section of a length that is too long, or one that has been stored before
theorem parseSectionHeader_rejected (heap : Heap) (pbuf : Block) (bufSize : Nat)
    (header : TableHeader) (parsed : Parsed)
    (found : parseSectionHeader heap pbuf bufSize header = some parsed) (negative : parsed.ret < 0) :
    parsed.header = header ∨ ∃ fields long, readFields pbuf = some fields ∧
      fields.sectionSyntaxIndicator ≠ 0 ∧ readLongFields pbuf = some long ∧
      parsed.header = header.describe fields long := by
  rcases Option.bind_eq_some_iff.mp found with ⟨fields, fieldsRead, later⟩
  split at later
  · rw [← Option.some.inj later]
    exact Or.inl rfl
  split at later
  · rw [← Option.some.inj later]
    exact Or.inl rfl
  split at later
  · exfalso
    rcases Option.bind_eq_some_iff.mp later with ⟨freed, -, stored⟩
    simp only at stored
    split at stored
    · rw [← Option.some.inj stored] at negative
      exact absurd negative (by decide : ¬enomem < 0)
    · rcases Option.bind_eq_some_iff.mp stored with ⟨copied, -, last⟩
      rw [← Option.some.inj last] at negative
      exact absurd negative (lt_irrefl 0)
  · rename_i long
    rcases Option.bind_eq_some_iff.mp later with ⟨longFields, longRead, storing⟩
    simp only at storing
    split at storing
    · rw [← Option.some.inj storing]
      exact Or.inr ⟨fields, longFields, fieldsRead, long, longRead, rfl⟩
    · exfalso
      cases storeSection_cases _ _ _ _ _ _ _ storing with
      | noMemory => exact absurd negative (by decide : ¬enomem < 0)
      | waiting => exact absurd negative (by decide : ¬(1 : Int) < 0)
      | complete => exact absurd negative (lt_irrefl 0)

theorem check_same (pbuf : Block) (curVersion : Nat) (fields : SectionFields) (long : LongFields)
    (same : checkSectionHeaderVersion pbuf curVersion = some 0)
    (fieldsRead : readFields pbuf = some fields) (notShort : fields.sectionSyntaxIndicator ≠ 0)
    (longRead : readLongFields pbuf = some long) : long.versionNumber = curVersion := by
  rcases Option.bind_eq_some_iff.mp fieldsRead with ⟨tableId, -, afterId⟩
  rcases Option.bind_eq_some_iff.mp afterId with ⟨flags, flagsRead, afterFlags⟩
  rcases Option.bind_eq_some_iff.mp afterFlags with ⟨word, -, fieldsSame⟩
  rcases Option.bind_eq_some_iff.mp longRead with ⟨tableIdExt, -, afterExt⟩
  rcases Option.bind_eq_some_iff.mp afterExt with ⟨version, versionRead, afterVersion⟩
  rcases Option.bind_eq_some_iff.mp afterVersion with ⟨curSec, -, afterCur⟩
  rcases Option.bind_eq_some_iff.mp afterCur with ⟨lastSec, -, longSame⟩
  rw [← Option.some.inj fieldsSame] at notShort
  rw [← Option.some.inj longSame]
  by_contra different
  rw [checkSectionHeaderVersion, flagsRead, Option.bind_eq_bind, Option.bind_some,
    if_neg notShort, versionRead, Option.bind_some, if_neg fun equal => different equal.symm]
    at same
  split at same
  · exact absurd (Option.some.inj same) one_ne_zero
  · exact absurd (Option.some.inj same) two_ne_zero

theorem parseTable_rejected (decoder : Decoder C) (positive : decoder.Positive) (heap : Heap)
    (pbuf : Block) (bufSize : Nat) (table : Table C) (handled : Handled (Table C))
    (result : parseTable decoder heap pbuf bufSize table = some handled) (negative : handled.ret < 0) :
    ∃ parsed, parseSectionHeader heap pbuf bufSize table.header = some parsed ∧ parsed.ret < 0 ∧
      handled.table = { table with header := parsed.header } := by
  rcases Option.bind_eq_some_iff.mp result with ⟨parsed, header, later⟩
  refine ⟨parsed, header, ?_⟩
  split at later
  · rw [← Option.some.inj later] at negative ⊢
    exact ⟨negative, rfl⟩
  · rcases Option.map_eq_some_iff.mp later with ⟨decoding, found, rfl⟩
    exact absurd (positive _ _ _ _ _ found) (Int.not_le.mpr negative)

theorem parse_rejected (decoder : Decoder C) (positive : decoder.Positive)
    (versions after : Versions C) (pbuf : Block) (bufSize : Nat) (ret : Int)
    (same : checkSectionHeaderVersion pbuf versions.curVersion = some 0)
    (parsed : versions.parse decoder pbuf bufSize = some (after, ret)) (negative : ret < 0) :
    Unchanged versions after := by
  cases opened : versions.active with
  | none =>
    rw [Versions.parse, opened] at parsed
    rcases Prod.mk.inj (Option.some.inj parsed) with ⟨rfl, -⟩
    exact ⟨rfl, rfl⟩
  | some table =>
    rw [Versions.parse, opened] at parsed
    rcases Option.map_eq_some_iff.mp parsed with ⟨handled, result, pair⟩
    rcases Prod.mk.inj pair with ⟨rfl, rfl⟩
    rcases parseTable_rejected decoder positive versions.heap pbuf bufSize table handled result
      negative with ⟨header, headerResult, headerNegative, kept⟩
    refine ⟨rfl, ?_⟩
    rw [opened, kept, Option.map_some, Option.map_some, Table.known, Table.known]
    rcases parseSectionHeader_rejected _ _ _ _ header headerResult headerNegative with
      untouched | ⟨fields, long, fieldsRead, notShort, longRead, described⟩
    · rw [untouched]
    · have version := check_same pbuf _ fields long same fieldsRead notShort longRead
      rw [Versions.curVersion, opened] at version
      rw [described, TableHeader.describe, version]

theorem parse_active (decoder : Decoder C) (versions after : Versions C) (pbuf : Block)
    (bufSize : Nat) (ret : Int)
    (parsed : versions.parse decoder pbuf bufSize = some (after, ret)) :
    after.old = versions.old ∧ after.active.isSome = versions.active.isSome := by
  cases opened : versions.active with
  | none =>
    rw [Versions.parse, opened] at parsed
    rcases Prod.mk.inj (Option.some.inj parsed) with ⟨rfl, -⟩
    exact ⟨rfl, congrArg Option.isSome opened⟩
  | some table =>
    rw [Versions.parse, opened] at parsed
    rcases Option.map_eq_some_iff.mp parsed with ⟨handled, -, pair⟩
    rcases Prod.mk.inj pair with ⟨rfl, -⟩
    exact ⟨rfl, rfl⟩

-- a table that has been opened stays, whatever its first section was
theorem opened_changed (decoder : Decoder C) (initial : C) (versions after : Versions C)
    (pbuf : Block) (bufSize : Nat) (ret : Int)
    (parsed : (versions.open initial).parse decoder pbuf bufSize = some (after, ret)) :
    ¬Unchanged versions after := by
  rintro ⟨sameOld, sameActive⟩
  rcases parse_active decoder (versions.open initial) after pbuf bufSize ret parsed with
    ⟨old, active⟩
  have wasOpen : versions.active.isSome = true := by
    have mapped := congrArg Option.isSome sameActive
    rw [Option.isSome_map, Option.isSome_map, active] at mapped
    exact mapped.symm
  rcases Option.isSome_iff_exists.mp wasOpen with ⟨table, found⟩
  have longer := congrArg List.length (old.symm.trans sameOld)
  rw [Versions.open, Versions.list, found] at longer
  simp at longer

theorem rejected_unchanged_iff (decoder : Decoder C) (positive : decoder.Positive) (initial : C)
    (versions after : Versions C) (pbuf : Block) (bufSize : Nat) (ret : Int)
    (parsed : parseVersioned decoder initial versions pbuf bufSize = some (after, ret))
    (negative : ret < 0) : Unchanged versions after ↔ ¬OpensTable versions pbuf := by
  rcases Option.bind_eq_some_iff.mp parsed with ⟨check, checked, later⟩
  rw [OpensTable, checked]
  split at later
  · rename_i opens
    subst opens
    have changed : ¬Unchanged versions after := by
      split at later
      · exact opened_changed decoder initial versions after pbuf bufSize ret later
      · rcases Prod.mk.inj (Option.some.inj later) with ⟨-, rfl⟩
        exact absurd negative (by decide : ¬enomem < 0)
    exact ⟨fun unchanged => absurd unchanged changed, fun absent => absurd rfl absent⟩
  · rename_i known
    have opens : ¬some check = some 1 := fun same => known (Option.some.inj same)
    have unchanged : Unchanged versions after := by
      split at later
      · rcases Prod.mk.inj (Option.some.inj later) with ⟨rfl, -⟩
        exact ⟨rfl, rfl⟩
      · rename_i zero
        rw [not_not.mp zero] at checked
        exact parse_rejected decoder positive versions after pbuf bufSize ret checked later negative
    exact ⟨fun _ => opens, fun _ => unchanged⟩

/-- A rejected PAT or CAT section leaves the tables alone unless a table has been opened for it. -/
theorem rejected_unchanged {D : Type} (ops : DescriptorOps D) (pbuf : Block) (bufSize : Nat)
    (ret : Int) (negative : ret < 0) :
    (∀ versions after, parsePat versions pbuf bufSize = some (after, ret) →
      (Unchanged versions after ↔ ¬OpensTable versions pbuf)) ∧
    (∀ versions after, parseCat ops versions pbuf bufSize = some (after, ret) →
      (Unchanged versions after ↔ ¬OpensTable versions pbuf)) := by
  constructor
  · intro versions after parsed
    exact rejected_unchanged_iff decodePat decodePat_positive {} versions after pbuf bufSize ret
      parsed negative
  · intro versions after parsed
    exact rejected_unchanged_iff (decodeDescriptors ops) (decodeDescriptors_positive ops) []
      versions after pbuf bufSize ret parsed negative

def patOnce : Option (Versions Pat) :=
  patProc { heap := Heap.empty } (ofBytes reservedPat.bytes) 16

theorem patOnce_reached : patOnce.isSome = true := by
  decide +kernel

def patTwice : Option (Versions Pat × Int) :=
  parsePat (patOnce.get patOnce_reached) (ofBytes reservedPat.bytes) 16

theorem patTwice_reached : patTwice.isSome = true := by
  decide +kernel

theorem patTwice_parsed : parsePat (patOnce.get patOnce_reached) (ofBytes reservedPat.bytes) 16 =
    some ((patTwice.get patTwice_reached).1, duplicateData) := by
  have ret : (patTwice.get patTwice_reached).2 = duplicateData := by decide +kernel
  rw [← ret]
  exact (Option.some_get patTwice_reached).symm

theorem rejected_unchanged_duplicate :
    Unchanged (patOnce.get patOnce_reached) (patTwice.get patTwice_reached).1 :=
  ((rejected_unchanged (D := Unit) ⟨fun _ _ _ => none, fun _ _ => none⟩
    (ofBytes reservedPat.bytes) 16 duplicateData (by decide)).1 _ _ patTwice_parsed).mpr
    (by unfold OpensTable; decide +kernel)

-- section_length is 1022
def tooLong : List UInt8 :=
  [0, 0xB3, 0xFE, 0, 1, 0xC1, 0, 0] ++ List.replicate 1017 0

theorem rejected_changed :
    ¬∀ (history : List (List UInt8)) (versions after : Versions Pat) (bytes : List UInt8)
      (ret : Int), history.foldlM (fun versions sec => patProc versions (ofBytes sec) sec.length)
        { heap := Heap.empty } = some versions →
      parsePat versions (ofBytes bytes) bytes.length = some (after, ret) → ret < 0 →
      Unchanged versions after := by
  intro claim
  have parsed : parsePat { heap := Heap.empty } (ofBytes tooLong) tooLong.length =
      some (({ heap := Heap.empty : Versions Pat }).open {}, invalidSecLen) := rfl
  have unchanged := claim [] { heap := Heap.empty } _ tooLong invalidSecLen rfl parsed (by decide)
  exact absurd unchanged.2 (by simp [Versions.open])

end TsAnalyze.Tables
