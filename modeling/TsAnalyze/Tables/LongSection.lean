import TsAnalyze.Tables.Header

set_option autoImplicit false

namespace TsAnalyze.Tables

open Memory

/-- A whole section in the long form, of a length that its length field may state. -/
structure LongSection where
  bytes : List UInt8
  fields : SectionFields
  long : LongFields
  readable : readFields (ofBytes bytes) = some fields
  readableLong : readLongFields (ofBytes bytes) = some long
  syntaxIndicator : fields.sectionSyntaxIndicator = 1
  sized : bytes.length = 3 + fields.sectionLength
  minimal : 9 ≤ fields.sectionLength
  maximal : fields.sectionLength ≤ 0x3FD

namespace LongSection

-- the table's data and the CRC
def body (sec : LongSection) : List UInt8 :=
  sec.bytes.drop 8

-- the version_number of the section, behind two reserved bits
def version (sec : LongSection) : Nat :=
  ((sec.bytes.getD 5 0).toNat >>> 1) &&& 0x1F

-- a table of one section
def Single (sec : LongSection) : Prop :=
  sec.long.curSec = 0 ∧ sec.long.lastSec = 0

-- the node is allocated for five bytes more than are copied into it
def stored (sec : LongSection) : Block :=
  ofBytes sec.body ++ List.replicate 5 none

theorem body_length (sec : LongSection) : sec.body.length = sec.fields.sectionLength - 5 := by
  rw [body, List.length_drop, sec.sized]
  omega

theorem stored_length (sec : LongSection) : sec.stored.length = sec.fields.sectionLength := by
  have minimal := sec.minimal
  rw [stored, List.length_append, ofBytes_length, body_length, List.length_replicate]
  omega

end LongSection

@[simp] theorem describe_sectionBitmap (header : TableHeader) (fields : SectionFields)
    (long : LongFields) : (header.describe fields long).sectionBitmap = header.sectionBitmap := rfl

@[simp] theorem describe_sections (header : TableHeader) (fields : SectionFields)
    (long : LongFields) : (header.describe fields long).sections = header.sections := rfl

@[simp] theorem describe_privateDataByte (header : TableHeader) (fields : SectionFields)
    (long : LongFields) :
    (header.describe fields long).privateDataByte = header.privateDataByte := rfl

variable (heap : Heap) (header : TableHeader) (sec : LongSection)

theorem parseSectionHeader_long :
    parseSectionHeader heap (ofBytes sec.bytes) sec.bytes.length header =
      if bitmap64Get header.sectionBitmap sec.long.curSec then
        some ⟨heap, header.describe sec.fields sec.long, duplicateData⟩
      else storeSection heap (ofBytes sec.bytes) sec.bytes.length
        (header.describe sec.fields sec.long) sec.long.curSec sec.long.lastSec := by
  have maximal : ¬sec.fields.sectionLength > 0x3FD := Nat.not_lt.mpr sec.maximal
  simp only [parseSectionHeader, parseLongSection, sec.readable, sec.readableLong,
    sec.syntaxIndicator, maximal, Option.bind_eq_bind, Option.bind_some, Option.pure_def,
    describe_sectionBitmap, and_false, if_false, one_ne_zero, false_and]
  rfl

theorem parseSectionHeader_duplicate
    (seen : bitmap64Get header.sectionBitmap sec.long.curSec = true) :
    parseSectionHeader heap (ofBytes sec.bytes) sec.bytes.length header =
      some ⟨heap, header.describe sec.fields sec.long, duplicateData⟩ := by
  rw [parseSectionHeader_long, if_pos seen]

theorem parseSectionHeader_cases (parsed : Parsed)
    (found : parseSectionHeader heap (ofBytes sec.bytes) sec.bytes.length header = some parsed) :
    (bitmap64Get header.sectionBitmap sec.long.curSec = true ∧
        parsed = ⟨heap, header.describe sec.fields sec.long, duplicateData⟩) ∨
      (bitmap64Get header.sectionBitmap sec.long.curSec = false ∧
        Stored heap (header.describe sec.fields sec.long) sec.long.curSec sec.long.lastSec
          parsed) := by
  rw [parseSectionHeader_long] at found
  by_cases seen : bitmap64Get header.sectionBitmap sec.long.curSec = true
  · rw [if_pos seen] at found
    exact Or.inl ⟨seen, (Option.some.inj found).symm⟩
  · rw [if_neg seen] at found
    exact Or.inr ⟨Bool.eq_false_iff.mpr seen, storeSection_cases _ _ _ _ _ _ _ found⟩

-- Whatever becomes of a section, the header is given its fields.
theorem parseSectionHeader_describes (parsed : Parsed)
    (found : parseSectionHeader heap (ofBytes sec.bytes) sec.bytes.length header = some parsed) :
    parsed.header.versionNumber = sec.long.versionNumber ∧
      parsed.header.tableIdExt = sec.long.tableIdExt ∧
      parsed.header.sectionLength = sec.fields.sectionLength := by
  rcases parseSectionHeader_cases heap header sec parsed found with ⟨-, rfl⟩ | ⟨-, stored⟩
  · exact ⟨rfl, rfl, rfl⟩
  · cases stored with
    | noMemory => exact ⟨rfl, rfl, rfl⟩
    | waiting => exact ⟨rfl, rfl, rfl⟩
    | complete => exact ⟨rfl, rfl, rfl⟩

-- one node whose length is the whole length
theorem concatSections_single (nodes : UInt8 → SectionNode) (name : Nat) (block : Block)
    (filled : nodes 0 = ⟨block.length, some name⟩) (nonempty : block.length ≠ 0)
    (found : heap.object name = some block) (different : name ≠ heap.next)
    (available : heap.succeeds heap.next = true) :
    concatSections heap nodes block.length 1 =
      some ({ heap with
          object := Function.update (Function.update heap.object heap.next (some block)) name none,
          next := heap.next + 1 },
        Function.update nodes 0 ⟨0, some name⟩, some heap.next) := by
  let zeroed : Heap :=
    { heap with
      object := Function.update heap.object heap.next (some (List.replicate block.length (some 0)))
      next := heap.next + 1 }
  let filledHeap : Heap :=
    { heap with
      object := Function.update heap.object heap.next (some block)
      next := heap.next + 1 }
  have loaded : zeroed.load (some name) = some block := by
    simp [Heap.load, zeroed, different, found]
  have copied : zeroed.memcpy (some heap.next) 0 block block.length = some filledHeap := by
    have target : zeroed.object heap.next = some (List.replicate block.length (some 0)) := by
      simp [zeroed]
    rw [Heap.memcpy_found zeroed heap.next 0 block.length _ block target (by simp) (le_refl _)]
    simp [zeroed, filledHeap]
  have freed : filledHeap.free (some name) =
      some { filledHeap with object := Function.update filledHeap.object name none } := by
    simp [Heap.free, filledHeap, different, found]
  have cleared : clearSections 1 0 filledHeap nodes =
      some ({ filledHeap with object := Function.update filledHeap.object name none },
        Function.update nodes 0 ⟨0, some name⟩) := by
    simp [clearSections, freeNode, filled, nonempty, freed]
  have positive : 0 < block.length := Nat.pos_of_ne_zero nonempty
  simp only [concatSections, Heap.calloc, Heap.allocate_some _ _ available]
  simp [concatLoop, copyNode, filled, nonempty, positive, loaded, copied, cleared, zeroed,
    filledHeap]

-- the node of the section has been freed
theorem concatSections_missing (nodes : UInt8 → SectionNode) (name length : Nat)
    (filled : nodes 0 = ⟨length, some name⟩) (nonempty : length ≠ 0)
    (missing : heap.object name = none) (different : name ≠ heap.next)
    (available : heap.succeeds heap.next = true) :
    concatSections heap nodes length 1 = none := by
  have positive : 0 < length := Nat.pos_of_ne_zero nonempty
  simp only [concatSections, Heap.calloc, Heap.allocate_some _ _ available]
  simp [concatLoop, copyNode, filled, nonempty, positive, Heap.load, different, missing]

theorem node_written (name : Nat)
    (target : heap.object name = some (List.replicate (sec.bytes.length - 3) none)) :
    heap.memcpy (some name) 0 ((ofBytes sec.bytes).drop 8) (sec.bytes.length - 8 : Int) =
      some { heap with object := Function.update heap.object name (some sec.stored) } := by
  have sized := sec.sized
  have minimal := sec.minimal
  have count : (sec.bytes.length - 8 : Int) = (sec.bytes.length - 8 : Nat) := by omega
  have copied : ((ofBytes sec.bytes).drop 8).take (sec.bytes.length - 8) = ofBytes sec.body := by
    rw [ofBytes_drop, List.take_of_length_le (by simp), LongSection.body]
  have rest : (List.replicate (sec.bytes.length - 3) (none : Cell)).drop
      (0 + (sec.bytes.length - 8)) = List.replicate 5 none := by
    rw [List.drop_replicate]
    congr 1
    omega
  rw [count, Heap.memcpy_found heap name 0 (sec.bytes.length - 8) _ _ target
    (by rw [List.length_replicate]; omega) (by simp), copied, rest, List.take_zero,
    List.nil_append, LongSection.stored]

-- the heap with the section's node
def withNode : Heap :=
  { heap with
    object := Function.update heap.object heap.next (some sec.stored)
    next := heap.next + 1 }

-- the header once the only section of a table has been stored and put together
def completed : TableHeader :=
  { header.describe sec.fields sec.long with
    sectionBitmap := bitmap64Set header.sectionBitmap 0
    sections := Function.update header.sections 0 ⟨0, some heap.next⟩
    privateDataByte := some (heap.next + 1) }

def putTogether (joined : Heap × (UInt8 → SectionNode) × Pointer) : Parsed :=
  ⟨joined.1,
    { completed heap header sec with sections := joined.2.1, privateDataByte := joined.2.2 }, 0⟩

theorem parseSectionHeader_unseen (single : sec.Single)
    (nodeGiven : heap.succeeds heap.next = true)
    (unseen : bitmap64Get header.sectionBitmap 0 = false) :
    parseSectionHeader heap (ofBytes sec.bytes) sec.bytes.length header =
      ((withNode heap sec).free header.privateDataByte).bind fun freed =>
        (concatSections freed
          (Function.update header.sections 0 ⟨sec.stored.length, some heap.next⟩)
          sec.stored.length 1).map (putTogether heap header sec) := by
  have sized := sec.sized
  have minimal := sec.minimal
  have width : sec.bytes.length - 3 = sec.stored.length := by
    rw [sec.stored_length]
    omega
  have copied : Heap.memcpy
      { heap with
        object := Function.update heap.object heap.next
          (some (List.replicate sec.stored.length none))
        next := heap.next + 1 }
      (some heap.next) 0 ((ofBytes sec.bytes).drop 8) (sec.bytes.length - 8 : Int) =
      some (withNode heap sec) := by
    rw [node_written _ sec heap.next (by simp [width]), withNode, Function.update_idem]
  have full : bitmap64Full (bitmap64Set header.sectionBitmap 0) (UInt8.toNat 0) = some 0 := by
    rw [UInt8.toNat_zero, bitmap64Full_zero, bitmap64Get_set]
    simp
  have lastSection : (header.describe sec.fields sec.long).lastSectionNumber + 1 = 1 := by
    rw [TableHeader.describe, single.2]
    rfl
  have total : (header.describe sec.fields sec.long).sectionLength = sec.stored.length :=
    sec.stored_length.symm
  rw [parseSectionHeader_long, single.1, unseen, single.2, if_neg Bool.false_ne_true]
  simp only [storeSection, Heap.malloc, Heap.allocate_some _ _ nodeGiven,
    describe_sectionBitmap, describe_sections, describe_privateDataByte, width, copied, full,
    lastSection, Option.bind_eq_bind, Option.bind_some, Option.pure_def, reduceCtorEq, ne_eq,
    not_true_eq_false, if_false]
  congr 1
  funext freed
  rw [Option.map_eq_bind, total]
  congr 1
  funext joined
  simp only [Function.comp, putTogether, completed, total]

/-- What storing the only section of a table leaves behind. -/
structure Completed (parsed : Parsed) : Prop where
  ret : parsed.ret = 0
  table : parsed.header = completed heap header sec
  data : parsed.heap.load parsed.header.privateDataByte = some sec.stored
  supply : parsed.heap.succeeds = heap.succeeds

theorem concat_completed (freed : Heap) (dataGiven : freed.succeeds freed.next = true)
    (next : freed.next = heap.next + 1) (supply : freed.succeeds = heap.succeeds)
    (node : freed.object heap.next = some sec.stored) :
    ∃ joined, concatSections freed
        (Function.update header.sections 0 ⟨sec.stored.length, some heap.next⟩)
        sec.stored.length 1 = some joined ∧
      Completed heap header sec (putTogether heap header sec joined) := by
  have minimal := sec.minimal
  have different : heap.next ≠ freed.next := by omega
  have joined := concatSections_single freed
    (Function.update header.sections 0 ⟨sec.stored.length, some heap.next⟩) heap.next sec.stored
    (by simp) (by rw [sec.stored_length]; omega) node different dataGiven
  refine ⟨_, joined, rfl, ?_, ?_, supply⟩
  · simp [putTogether, completed, next]
  · simp [putTogether, Heap.load, different.symm]

-- a cleared table has nothing to free
theorem parseSectionHeader_first (single : sec.Single) (available : heap.Available)
    (unseen : bitmap64Get header.sectionBitmap 0 = false) (cleared : header.privateDataByte = none) :
    ∃ parsed, parseSectionHeader heap (ofBytes sec.bytes) sec.bytes.length header = some parsed ∧
      Completed heap header sec parsed := by
  rcases concat_completed heap header sec (withNode heap sec) (available _) rfl rfl
    (Function.update_self _ _ _) with ⟨joined, result, done⟩
  refine ⟨_, ?_, done⟩
  rw [parseSectionHeader_unseen heap header sec single (available _) unseen, cleared]
  simp [Heap.free, result]

theorem parseSectionHeader_given (single : sec.Single)
    (nodeGiven : heap.succeeds heap.next = true)
    (dataGiven : heap.succeeds (heap.next + 1) = true)
    (unseen : bitmap64Get header.sectionBitmap 0 = false) (parsed : Parsed)
    (result : parseSectionHeader heap (ofBytes sec.bytes) sec.bytes.length header = some parsed) :
    Completed heap header sec parsed := by
  rw [parseSectionHeader_unseen heap header sec single nodeGiven unseen] at result
  rcases Option.bind_eq_some_iff.mp result with ⟨freed, free, late⟩
  rcases Option.map_eq_some_iff.mp late with ⟨joined, concat, rfl⟩
  have supply : freed.succeeds = heap.succeeds :=
    Heap.free_succeeds (withNode heap sec) freed _ free
  have next : freed.next = heap.next + 1 := Heap.free_next (withNode heap sec) freed _ free
  have given : freed.succeeds freed.next = true := by rw [supply, next, dataGiven]
  by_cases same : header.privateDataByte = some heap.next
  · -- the node that has just been written would be freed before it is copied
    have minimal := sec.minimal
    have missing : freed.object heap.next = none := Heap.free_object _ freed _ (same ▸ free)
    have lost := concatSections_missing freed
      (Function.update header.sections 0 ⟨sec.stored.length, some heap.next⟩) heap.next
      sec.stored.length (by simp) (by rw [sec.stored_length]; omega) missing (by omega) given
    rw [lost] at concat
    cases concat
  · have node : freed.object heap.next = some sec.stored := by
      rw [Heap.free_other (withNode heap sec) freed _ free _ same]
      exact Function.update_self _ _ _
    rcases concat_completed heap header sec freed given next supply node with
      ⟨other, otherResult, done⟩
    rw [otherResult] at concat
    obtain rfl := Option.some.inj concat
    exact done

theorem parseSectionHeader_returns (single : sec.Single) (available : heap.Available)
    (unseen : bitmap64Get header.sectionBitmap 0 = false) (parsed : Parsed)
    (result : parseSectionHeader heap (ofBytes sec.bytes) sec.bytes.length header = some parsed) :
    Completed heap header sec parsed :=
  parseSectionHeader_given heap header sec single (available _) (available _) unseen parsed result

-- there is no table without memory for it, and the old one is gone
theorem parseSectionHeader_data (single : sec.Single)
    (nodeGiven : heap.succeeds heap.next = true)
    (unseen : bitmap64Get header.sectionBitmap 0 = false) (parsed : Parsed)
    (result : parseSectionHeader heap (ofBytes sec.bytes) sec.bytes.length header = some parsed) :
    parsed.header.privateDataByte ≠ none ↔ heap.succeeds (heap.next + 1) = true := by
  cases dataGiven : heap.succeeds (heap.next + 1) with
  | true =>
    have done := parseSectionHeader_given heap header sec single nodeGiven dataGiven unseen parsed
      result
    rw [done.table, completed]
    exact ⟨fun _ => rfl, fun _ => Option.some_ne_none _⟩
  | false =>
    rw [parseSectionHeader_unseen heap header sec single nodeGiven unseen] at result
    rcases Option.bind_eq_some_iff.mp result with ⟨freed, free, late⟩
    rcases Option.map_eq_some_iff.mp late with ⟨joined, concat, rfl⟩
    have refused : freed.succeeds freed.next = false := by
      rw [Heap.free_succeeds (withNode heap sec) freed _ free,
        Heap.free_next (withNode heap sec) freed _ free]
      exact dataGiven
    rw [concatSections, Heap.calloc, Heap.allocate, refused, if_neg Bool.false_ne_true] at concat
    rw [← Option.some.inj concat, putTogether]
    exact ⟨fun present => absurd rfl present, fun given => absurd given Bool.false_ne_true⟩

end TsAnalyze.Tables
