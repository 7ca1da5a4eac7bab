import TsAnalyze.Tables.Versions
import TsAnalyze.Tables.VersionRun

set_option autoImplicit false

namespace TsAnalyze.Tables

open Memory

variable {C : Type}

-- Whatever becomes of a section, its number is known and its fields are in the header.
theorem parseSectionHeader_marks (heap : Heap) (header : TableHeader) (sec : LongSection)
    (parsed : Parsed)
    (found : parseSectionHeader heap (ofBytes sec.bytes) sec.bytes.length header = some parsed) :
    bitmap64Get parsed.header.sectionBitmap sec.long.curSec = true ∧
      parsed.header.describe sec.fields sec.long = parsed.header := by
  rcases parseSectionHeader_cases heap header sec parsed found with ⟨seen, rfl⟩ | ⟨-, stored⟩
  · exact ⟨seen, rfl⟩
  · have marked : bitmap64Get (bitmap64Set header.sectionBitmap sec.long.curSec)
        sec.long.curSec = true := by
      rw [bitmap64Get_set, decide_eq_true rfl, Bool.true_or]
    cases stored with
    | noMemory => exact ⟨marked, rfl⟩
    | waiting => exact ⟨marked, rfl⟩
    | complete => exact ⟨marked, rfl⟩

theorem parseTable_repeated (decoder : Decoder C) (heap later : Heap) (table : Table C)
    (sec : LongSection) (handled : Handled (Table C))
    (first : parseTable decoder heap (ofBytes sec.bytes) sec.bytes.length table = some handled) :
    parseTable decoder later (ofBytes sec.bytes) sec.bytes.length handled.table =
      some { heap := later, table := handled.table, ret := duplicateData } := by
  rcases parseTable_header heap table decoder _ _ handled first with ⟨parsed, header, same⟩
  rcases parseSectionHeader_marks heap table.header sec parsed header with ⟨seen, described⟩
  rw [parseTable_duplicate later handled.table sec decoder (same ▸ seen), same, described, ← same]

/-- A section that changes nothing when it is parsed. -/
inductive Settled (sec : LongSection) (versions : Versions C) : Prop
  | closed (nothing : versions.active = none) (marker : sec.long.versionNumber = 0x1F)
  | older (skipped : checkSectionHeaderVersion (ofBytes sec.bytes) versions.curVersion = some 2)
  | stored (table : Table C) (active : versions.active = some table)
      (version : table.header.versionNumber = sec.long.versionNumber)
      (seen : bitmap64Get table.header.sectionBitmap sec.long.curSec = true)
      (described : table.header.describe sec.fields sec.long = table.header)

theorem Settled.counted {sec : LongSection} {versions : Versions C}
    (settled : Settled sec versions) : Settled sec versions.counted := by
  cases settled with
  | closed nothing marker => exact .closed nothing marker
  | older skipped => exact .older skipped
  | stored table active version seen described => exact .stored table active version seen described

theorem settled_parsed (decoder : Decoder C) (initial : C) (versions : Versions C)
    (sec : LongSection) (settled : Settled sec versions) :
    ∃ ret, parseVersioned decoder initial versions (ofBytes sec.bytes) sec.bytes.length =
      some (versions, ret) := by
  cases settled with
  | closed nothing marker => exact ⟨_, parseVersioned_marker versions sec nothing marker⟩
  | older skipped =>
    rw [parseVersioned, skipped, Option.bind_eq_bind, Option.bind_some, if_neg (by decide),
      if_pos (by decide)]
    exact ⟨_, rfl⟩
  | stored table active version seen described =>
    have current : versions.curVersion = sec.long.versionNumber := by
      rw [Versions.curVersion, active]
      exact version
    rw [parseVersioned, check_long, if_pos current, Option.bind_eq_bind, Option.bind_some,
      if_neg (by decide), if_neg (by decide), Versions.parse, active]
    simp only [parseTable_duplicate versions.heap table sec decoder seen, described,
      Option.map_some, List.append_nil]
    refine ⟨duplicateData, ?_⟩
    rw [← active]

theorem parse_settles (decoder : Decoder C) (versions after : Versions C) (sec : LongSection)
    (ret : Int) (started : versions.active.isSome = true)
    (found : versions.parse decoder (ofBytes sec.bytes) sec.bytes.length = some (after, ret)) :
    Settled sec after := by
  rcases Option.isSome_iff_exists.mp started with ⟨old, same⟩
  rw [Versions.parse, same] at found
  rcases Option.map_eq_some_iff.mp found with ⟨handled, result, pair⟩
  rcases Prod.mk.inj pair with ⟨rfl, -⟩
  rcases parseTable_header versions.heap old decoder _ _ handled result with
    ⟨parsed, header, sameHeader⟩
  rcases parseSectionHeader_marks _ _ sec parsed header with ⟨seen, described⟩
  rw [← sameHeader] at seen described
  have version : handled.table.header.versionNumber = sec.long.versionNumber := by
    rw [← described]
    rfl
  exact .stored handled.table rfl version seen described

theorem parseVersioned_settles (decoder : Decoder C) (initial : C) (versions after : Versions C)
    (sec : LongSection) (ret : Int)
    (parsed : parseVersioned decoder initial versions (ofBytes sec.bytes) sec.bytes.length =
      some (after, ret)) (enough : ret ≠ enomem) : Settled sec after := by
  rcases Option.bind_eq_some_iff.mp parsed with ⟨check, checked, later⟩
  split at later
  · split at later
    · exact parse_settles decoder (versions.open initial) after sec ret rfl later
    · exact absurd (Prod.mk.inj (Option.some.inj later)).2.symm enough
  · rename_i notNewer
    split at later
    · rename_i notSame
      rcases Prod.mk.inj (Option.some.inj later) with ⟨rfl, -⟩
      have old : check = 2 := by
        rw [check_long] at checked
        have values := (Option.some.inj checked).symm
        split at values
        · exact absurd values notSame
        split at values
        · exact absurd values notNewer
        · exact values
      exact .older (old ▸ checked)
    · rename_i same
      cases active : versions.active with
      | some table => exact parse_settles decoder versions after sec ret (by rw [active]; rfl) later
      | none =>
        rw [Versions.parse, active] at later
        rcases Prod.mk.inj (Option.some.inj later) with ⟨rfl, -⟩
        refine .closed active ?_
        rw [Versions.curVersion, active, check_long, not_not.mp same] at checked
        by_contra legal
        rw [if_neg fun equal => legal equal.symm, if_pos (Or.inr ⟨rfl, legal⟩)] at checked
        cases checked

variable {D : Type} (ops : DescriptorOps D)

theorem deliver_repeated (psi after : Psi D) (delivery : Delivery) (name : TableName)
    (sec : LongSection) (carries : delivery.Carries name sec)
    (first : deliver ops psi delivery = some after) :
    deliver ops after delivery = some { after with stats := after.count name } := by
  rw [deliver_carried ops psi delivery name sec carries] at first
  rcases Option.map_eq_some_iff.mp first with ⟨handled, parsed, rfl⟩
  have again := parseTable_repeated (decoder ops name) psi.heap handled.heap (psi.tables name) sec
    handled parsed
  rw [deliver_carried ops _ delivery name sec carries, give]
  simp only [Function.update_self, again, Option.map_some, Function.update_idem, List.append_nil]

theorem patProc_repeated (versions after : Versions Pat) (sec : LongSection) (ret : Int)
    (first : parsePat versions (ofBytes sec.bytes) sec.bytes.length = some (after, ret))
    (enough : ret ≠ enomem) :
    patProc after (ofBytes sec.bytes) sec.bytes.length = some after.counted := by
  have settled := parseVersioned_settles decodePat {} versions after sec ret first enough
  rcases settled_parsed decodePat {} after.counted sec settled.counted with ⟨again, parsed⟩
  rw [patProc, parsePat, parsed]
  rfl

theorem catProc_repeated (versions after : Versions (List (Descriptor D))) (sec : LongSection)
    (ret : Int) (caNum : Nat)
    (first : parseCat ops versions.counted (ofBytes sec.bytes) sec.bytes.length =
      some (after, ret))
    (completes : catProc ops versions (ofBytes sec.bytes) sec.bytes.length = some (after, caNum))
    (enough : ret ≠ enomem) :
    catProc ops after (ofBytes sec.bytes) sec.bytes.length = some (after.counted, caNum) := by
  have settled := parseVersioned_settles (decodeDescriptors ops) [] versions.counted after sec ret
    first enough
  rcases settled_parsed (decodeDescriptors ops) [] after.counted sec settled.counted with
    ⟨again, parsed⟩
  rw [catProc, first, Option.bind_eq_bind, Option.bind_some] at completes
  rcases Option.bind_eq_some_iff.mp completes with ⟨table, active, pair⟩
  rw [catProc, parseCat, parsed, Option.bind_eq_bind, Option.bind_some]
  have same : after.counted.active = some table := active
  simp only [same]
  rw [← (Prod.mk.inj (Option.some.inj pair)).2]
  rfl

/-- A section that is processed again changes a section counter and nothing else. -/
theorem repetition_harmless (sec : LongSection) :
    (∀ (psi after : Psi D) (delivery : Delivery) (name : TableName),
      delivery.Carries name sec → deliver ops psi delivery = some after →
      deliver ops after delivery = some { after with stats := after.count name }) ∧
    (∀ (versions after : Versions Pat) (ret : Int),
      parsePat versions.counted (ofBytes sec.bytes) sec.bytes.length = some (after, ret) →
      ret ≠ enomem →
      patProc after (ofBytes sec.bytes) sec.bytes.length = some after.counted) ∧
    (∀ (versions after : Versions (List (Descriptor D))) (ret : Int) (caNum : Nat),
      parseCat ops versions.counted (ofBytes sec.bytes) sec.bytes.length = some (after, ret) →
      catProc ops versions (ofBytes sec.bytes) sec.bytes.length = some (after, caNum) →
      ret ≠ enomem →
      catProc ops after (ofBytes sec.bytes) sec.bytes.length = some (after.counted, caNum)) := by
  refine ⟨?_, ?_, ?_⟩
  · intro psi after delivery name carries first
    exact deliver_repeated ops psi after delivery name sec carries first
  · intro versions after ret first enough
    exact patProc_repeated versions.counted after sec ret first enough
  · intro versions after ret caNum first completes enough
    exact catProc_repeated ops versions after sec ret caNum first completes enough

theorem firstPmt_delivered : (deliver plainOps (Psi.initial Heap.empty)
    (pmtDelivery firstPmt.bytes)).isSome = true := by
  decide +kernel

theorem repetition_harmless_pmt :
    deliver plainOps ((deliver plainOps (Psi.initial Heap.empty)
        (pmtDelivery firstPmt.bytes)).get firstPmt_delivered) (pmtDelivery firstPmt.bytes) =
      some { (deliver plainOps (Psi.initial Heap.empty)
          (pmtDelivery firstPmt.bytes)).get firstPmt_delivered with
        stats := ((deliver plainOps (Psi.initial Heap.empty)
          (pmtDelivery firstPmt.bytes)).get firstPmt_delivered).count (.pmt 256) } :=
  (repetition_harmless plainOps firstPmt).1 (Psi.initial Heap.empty) _
    (pmtDelivery firstPmt.bytes) (.pmt 256) (pmtDelivery_carries firstPmt)
    (Option.some_get firstPmt_delivered).symm

end TsAnalyze.Tables
