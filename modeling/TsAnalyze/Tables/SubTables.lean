import TsAnalyze.Tables.Versions

set_option autoImplicit false

namespace TsAnalyze.Tables

open Memory Demux

variable {D : Type} (ops : DescriptorOps D)

/-- A section of one part that a handler gives to a table. -/
structure Arrival where
  delivery : Delivery
  name : TableName
  sec : LongSection
  carries : delivery.Carries name sec
  single : sec.Single

-- a sub-table: the table whose header it uses, and its table_id_extension
def Arrival.subTable (arrival : Arrival) : TableName × Nat :=
  (arrival.name, arrival.sec.long.tableIdExt)

-- parse_section_header returns 0 for the section
def Accepted (psi : Psi D) (arrival : Arrival) : Prop :=
  ∃ parsed, parseSectionHeader psi.heap (ofBytes arrival.sec.bytes) arrival.sec.bytes.length
      (psi.tables arrival.name).header = some parsed ∧ parsed.ret = 0

/-- The first section of every sub-table is accepted; `seen` are those that have been met. -/
def Unmasked : List (TableName × Nat) → Psi D → List Arrival → Prop
  | _, _, [] => True
  | seen, psi, arrival :: rest =>
      ∃ after, deliver ops psi arrival.delivery = some after ∧
        (arrival.subTable ∉ seen → Accepted psi arrival) ∧
        Unmasked (arrival.subTable :: seen) after rest

-- no two sub-tables share a table
def Separate (subTables : List (TableName × Nat)) : Prop :=
  ∀ left ∈ subTables, ∀ right ∈ subTables, left.1 = right.1 → left = right

-- the tables that no section has been given to are cleared, the others know section 0
def Marked (seen : List (TableName × Nat)) (psi : Psi D) : Prop :=
  ∀ name, ((∃ subTable ∈ seen, subTable.1 = name) →
      bitmap64Get (psi.tables name).header.sectionBitmap 0 = true) ∧
    ((∀ subTable ∈ seen, subTable.1 ≠ name) → psi.tables name = { content := cleared name })

theorem separate_cons (subTable : TableName × Nat) (seen : List (TableName × Nat))
    (unseen : ∀ other ∈ seen, other.1 ≠ subTable.1) (separate : Separate seen) :
    Separate (subTable :: seen) := by
  intro left leftMember right rightMember same
  rcases List.mem_cons.mp leftMember with rfl | leftOld
  · rcases List.mem_cons.mp rightMember with rfl | rightOld
    · rfl
    · exact absurd same.symm (unseen right rightOld)
  · rcases List.mem_cons.mp rightMember with rfl | rightOld
    · exact absurd same (unseen left leftOld)
    · exact separate left leftOld right rightOld same

theorem separate_subset {left right : List (TableName × Nat)} (subset : left ⊆ right)
    (separate : Separate right) : Separate left :=
  fun first firstMember second secondMember =>
    separate first (subset firstMember) second (subset secondMember)

theorem marked_initial (heap : Heap) : Marked [] (Psi.initial heap : Psi D) := by
  intro name
  constructor
  · rintro ⟨subTable, member, -⟩
    cases member
  · intro unseen
    rfl

theorem marked_next (seen : List (TableName × Nat)) (psi after : Psi D)
    (subTable : TableName × Nat) (marked : Marked seen psi)
    (known : bitmap64Get (after.tables subTable.1).header.sectionBitmap 0 = true)
    (others : ∀ name, name ≠ subTable.1 → after.tables name = psi.tables name) :
    Marked (subTable :: seen) after := by
  intro name
  by_cases same : name = subTable.1
  · subst same
    exact ⟨fun _ => known, fun absent => absurd rfl (absent subTable (by simp))⟩
  · rw [others name same]
    constructor
    · rintro ⟨other, member, named⟩
      rcases List.mem_cons.mp member with rfl | old
      · exact absurd named.symm same
      · exact (marked name).1 ⟨other, old, named⟩
    · intro absent
      exact (marked name).2 fun other old => absent other (List.mem_cons_of_mem _ old)

theorem give_others (psi after : Psi D) (name : TableName) (pkt : Block) (len : Nat)
    (given : give ops psi name pkt len = some after) (other : TableName) (different : other ≠ name) :
    after.tables other = psi.tables other := by
  rcases Option.map_eq_some_iff.mp given with ⟨handled, -, rfl⟩
  exact Function.update_of_ne different _ _

theorem deliver_cleared (psi : Psi D) (arrival : Arrival) (available : psi.heap.Available)
    (untouched : psi.tables arrival.name = { content := cleared arrival.name })
    (decodes : (decoded (decoder ops arrival.name) (cleared arrival.name) arrival.sec).isSome) :
    Accepted psi arrival ∧ ∃ after, deliver ops psi arrival.delivery = some after ∧
      bitmap64Get (after.tables arrival.name).header.sectionBitmap 0 = true := by
  have unseen : bitmap64Get (psi.tables arrival.name).header.sectionBitmap 0 = false := by
    rw [untouched]
    exact bitmap64Get_empty 0
  have empty : (psi.tables arrival.name).header.privateDataByte = none := by rw [untouched]
  have content : (psi.tables arrival.name).content = cleared arrival.name := by rw [untouched]
  rcases Option.isSome_iff_exists.mp decodes with ⟨value, found⟩
  rw [← content] at found
  constructor
  · rcases parseSectionHeader_first psi.heap (psi.tables arrival.name).header arrival.sec
      arrival.single available unseen empty with ⟨parsed, header, done⟩
    exact ⟨parsed, header, done.ret⟩
  · rcases parseTable_first (decoder_lawful ops arrival.name) psi.heap (psi.tables arrival.name)
      arrival.sec arrival.single available unseen empty value found with ⟨handled, parsed, table⟩
    rw [deliver_carried ops psi arrival.delivery arrival.name arrival.sec arrival.carries, give,
      parsed]
    refine ⟨_, rfl, ?_⟩
    simp [table, completed, bitmap64Get_set]

theorem not_accepted (psi : Psi D) (arrival : Arrival)
    (seen : bitmap64Get (psi.tables arrival.name).header.sectionBitmap 0 = true) :
    ¬Accepted psi arrival := by
  rintro ⟨parsed, header, ret⟩
  have duplicate : bitmap64Get (psi.tables arrival.name).header.sectionBitmap
      arrival.sec.long.curSec = true := by
    rw [arrival.single.1, seen]
  rw [parseSectionHeader_duplicate _ _ _ duplicate] at header
  rw [← Option.some.inj header] at ret
  exact duplicateData_ne_zero ret

theorem unmasked_iff (run : List Arrival) (seen : List (TableName × Nat)) (psi : Psi D)
    (available : psi.heap.Available) (marked : Marked seen psi) (separate : Separate seen)
    (decodes : ∀ arrival ∈ run,
      (decoded (decoder ops arrival.name) (cleared arrival.name) arrival.sec).isSome) :
    Unmasked ops seen psi run ↔ Separate (run.map Arrival.subTable ++ seen) := by
  induction run generalizing seen psi with
  | nil => exact ⟨fun _ => separate, fun _ => trivial⟩
  | cons arrival rest ih =>
    have restDecodes := fun other member => decodes other (List.mem_cons_of_mem arrival member)
    have moved : Separate (rest.map Arrival.subTable ++ arrival.subTable :: seen) ↔
        Separate ((arrival :: rest).map Arrival.subTable ++ seen) := by
      constructor <;> apply separate_subset <;> intro subTable member <;>
        simp only [List.map_cons, List.cons_append, List.mem_append, List.mem_cons] at member ⊢ <;>
        tauto
    by_cases known : ∃ subTable ∈ seen, subTable.1 = arrival.name
    · have bit := (marked arrival.name).1 known
      rcases deliver_seen ops psi arrival.delivery arrival.name arrival.sec arrival.single
        arrival.carries bit with ⟨after, delivered, content, header⟩
      have others := give_others ops psi after arrival.name _ _
        ((deliver_carried ops psi _ _ _ arrival.carries).symm.trans delivered)
      have nextMarked : Marked (arrival.subTable :: seen) after := by
        apply marked_next seen psi after arrival.subTable marked _ others
        rw [Arrival.subTable, header, describe_sectionBitmap, bit]
      have nextAvailable := deliver_available ops psi after arrival.delivery available delivered
      constructor
      · rintro ⟨other, otherDelivered, first, later⟩
        rw [delivered] at otherDelivered
        obtain rfl := Option.some.inj otherDelivered
        have old : arrival.subTable ∈ seen := by
          by_contra new
          exact not_accepted psi arrival bit (first new)
        apply moved.mp
        exact (ih _ after nextAvailable nextMarked
          (separate_subset (List.cons_subset.mpr ⟨old, List.Subset.refl _⟩) separate)
          restDecodes).mp later
      · intro all
        rcases known with ⟨subTable, member, named⟩
        have same : subTable = arrival.subTable :=
          all subTable (List.mem_append_right _ member) arrival.subTable (by simp) named
        have old : arrival.subTable ∈ seen := same ▸ member
        refine ⟨after, delivered, fun new => absurd old new, ?_⟩
        exact (ih _ after nextAvailable nextMarked
          (separate_subset (List.cons_subset.mpr ⟨old, List.Subset.refl _⟩) separate)
          restDecodes).mpr (moved.mpr all)
    · have unseen : ∀ subTable ∈ seen, subTable.1 ≠ arrival.name := by
        intro subTable member named
        exact known ⟨subTable, member, named⟩
      rcases deliver_cleared ops psi arrival available ((marked arrival.name).2 unseen)
        (decodes arrival (by simp)) with ⟨accepted, after, delivered, bit⟩
      have others := give_others ops psi after arrival.name _ _
        ((deliver_carried ops psi _ _ _ arrival.carries).symm.trans delivered)
      have next := ih (arrival.subTable :: seen) after
        (deliver_available ops psi after arrival.delivery available delivered)
        (marked_next seen psi after arrival.subTable marked bit others)
        (separate_cons arrival.subTable seen unseen separate) restDecodes
      rw [← moved, ← next]
      constructor
      · rintro ⟨other, otherDelivered, -, later⟩
        rw [delivered] at otherDelivered
        obtain rfl := Option.some.inj otherDelivered
        exact later
      · intro later
        exact ⟨after, delivered, fun _ => accepted, later⟩

/-- Sub-tables are unmasked exactly when no two of them are sent to one table. -/
theorem subTables_unmasked (heap : Heap) (available : heap.Available) (run : List Arrival)
    (decodes : ∀ arrival ∈ run,
      (decoded (decoder ops arrival.name) (cleared arrival.name) arrival.sec).isSome) :
    Unmasked ops [] (Psi.initial heap) run ↔
      ∀ left ∈ run, ∀ right ∈ run, left.name = right.name →
        left.sec.long.tableIdExt = right.sec.long.tableIdExt := by
  rw [unmasked_iff ops run [] (Psi.initial heap) available (marked_initial heap)
    (fun left member => by cases member) decodes, List.append_nil]
  constructor
  · intro separate left leftMember right rightMember same
    exact congrArg Prod.snd (separate left.subTable (List.mem_map_of_mem leftMember)
      right.subTable (List.mem_map_of_mem rightMember) same)
  · intro alike left leftMember right rightMember same
    rcases List.mem_map.mp leftMember with ⟨first, firstMember, rfl⟩
    rcases List.mem_map.mp rightMember with ⟨second, secondMember, rfl⟩
    exact Prod.ext same (alike first firstMember second secondMember same)

def pmtArrival (sec : LongSection) (single : sec.Single) : Arrival :=
  ⟨pmtDelivery sec.bytes, .pmt 256, sec, pmtDelivery_carries sec, single⟩

theorem subTables_unmasked_one_program :
    Unmasked plainOps [] (Psi.initial Heap.empty)
      [pmtArrival firstPmt ⟨rfl, rfl⟩, pmtArrival nextPmt ⟨rfl, rfl⟩] :=
  (subTables_unmasked plainOps Heap.empty Heap.empty_available
    [pmtArrival firstPmt ⟨rfl, rfl⟩, pmtArrival nextPmt ⟨rfl, rfl⟩] (by
      intro arrival member
      rcases List.mem_pair.mp member with rfl | rfl
      · decide +kernel
      · decide +kernel)).mpr (by
    intro left leftMember right rightMember _
    rcases List.mem_pair.mp leftMember with rfl | rfl <;>
      rcases List.mem_pair.mp rightMember with rfl | rfl <;> rfl)

-- present/following of service 1 without an event
def serviceOne : LongSection where
  bytes := [0x4E, 0xF0, 15, 0, 1, 0xC1, 0, 0, 0, 7, 0, 8, 0, 0x4E, 1, 1, 1, 1]
  fields := ⟨0x4E, 1, 1, 15⟩
  long := ⟨1, 16, 1, 0, 0⟩
  readable := by decide +kernel
  readableLong := by decide +kernel
  syntaxIndicator := rfl
  sized := rfl
  minimal := by decide
  maximal := by decide

def serviceTwo : LongSection where
  bytes := [0x4E, 0xF0, 15, 0, 2, 0xC1, 0, 0, 0, 7, 0, 8, 0, 0x4E, 2, 2, 2, 2]
  fields := ⟨0x4E, 1, 1, 15⟩
  long := ⟨2, 16, 1, 0, 0⟩
  readable := by decide +kernel
  readableLong := by decide +kernel
  syntaxIndicator := rfl
  sized := rfl
  minimal := by decide
  maximal := by decide

def eitArrival (sec : LongSection) (single : sec.Single)
    (target : Proc.eit.target (ofBytes sec.bytes) = some (some .eitActual)) : Arrival :=
  ⟨⟨.eit, ofBytes sec.bytes, sec.bytes.length⟩, .eitActual, sec, ⟨rfl, rfl, target⟩, single⟩

theorem subTables_masked :
    ¬∀ (run : List Arrival), (∀ arrival ∈ run,
        (decoded (decoder plainOps arrival.name) (cleared arrival.name) arrival.sec).isSome) →
      Unmasked plainOps [] (Psi.initial Heap.empty) run := by
  intro claim
  have first : Proc.eit.target (ofBytes serviceOne.bytes) = some (some .eitActual) := by
    decide +kernel
  have second : Proc.eit.target (ofBytes serviceTwo.bytes) = some (some .eitActual) := by
    decide +kernel
  have decodes : ∀ arrival ∈
      [eitArrival serviceOne ⟨rfl, rfl⟩ first, eitArrival serviceTwo ⟨rfl, rfl⟩ second],
      (decoded (decoder plainOps arrival.name) (cleared arrival.name) arrival.sec).isSome := by
    intro arrival member
    rcases List.mem_pair.mp member with rfl | rfl
    · change (decoded (decodeEit plainOps) {} serviceOne).isSome = true
      decide +kernel
    · change (decoded (decodeEit plainOps) {} serviceTwo).isSome = true
      decide +kernel
  have alike := (unmasked_iff plainOps _ [] (Psi.initial Heap.empty) Heap.empty_available
    (marked_initial _) (fun left member => by cases member) decodes).mp (claim _ decodes)
  have same := alike (.eitActual, 1) (by simp [eitArrival, Arrival.subTable, serviceOne])
    (.eitActual, 2) (by simp [eitArrival, Arrival.subTable, serviceTwo]) rfl
  simp at same

end TsAnalyze.Tables
