import TsAnalyze.Tables.LongSection

set_option autoImplicit false

namespace TsAnalyze.Tables

open Memory

/-- The sections of one version of one table. -/
structure SectionSet (n : Nat) where
  sections : Fin n → LongSection
  positive : 0 < n
  small : n ≤ 256
  numbered : ∀ i, (sections i).long.curSec = UInt8.ofNat i
  last : ∀ i, (sections i).long.lastSec = UInt8.ofNat (n - 1)
  sameId : ∀ i j, (sections i).fields.tableId = (sections j).fields.tableId
  sameExt : ∀ i j, (sections i).long.tableIdExt = (sections j).long.tableIdExt
  sameVersion : ∀ i j, (sections i).version = (sections j).version

variable {n : Nat}

def SectionSet.bodies (set : SectionSet n) : List UInt8 :=
  (List.finRange n).flatMap fun i => (set.sections i).body

def SectionSet.arrives (set : SectionSet n) (heap : Heap) (header : TableHeader) (i : Fin n) :
    Option Parsed :=
  parseSectionHeader heap (ofBytes (set.sections i).bytes) (set.sections i).bytes.length header

def expectedReturn (seen : Finset (Fin n)) (i : Fin n) : Int :=
  if i ∈ seen then duplicateData
  else if insert i seen = Finset.univ then 0
  else 1

-- the private data begin with the bodies in the order of their numbers
def SectionSet.HeldBy (set : SectionSet n) (parsed : Parsed) : Prop :=
  ∃ block, parsed.heap.load parsed.header.privateDataByte = some block ∧
    block.take set.bodies.length = ofBytes set.bodies

/-- Every return is the expected one, and the bodies are held when the last section is in. -/
def SectionSet.Assembles (set : SectionSet n) :
    Finset (Fin n) → Heap → TableHeader → List (Fin n) → Prop
  | _, _, _, [] => True
  | seen, heap, header, i :: rest =>
      ∃ parsed, set.arrives heap header i = some parsed ∧ parsed.ret = expectedReturn seen i ∧
        (expectedReturn seen i = 0 → set.HeldBy parsed) ∧
        set.Assembles (insert i seen) parsed.heap parsed.header rest

section Size

variable (name size : Nat)

theorem copyNode_sized (heap copied : Heap) (len : Nat) (node : SectionNode)
    (found : copyNode heap (some name) len node = some copied) (sized : heap.Sized name size) :
    copied.Sized name size := by
  rw [copyNode] at found
  split at found
  · rw [← Option.some.inj found]
    exact sized
  · rcases Option.bind_eq_some_iff.mp found with ⟨source, -, written⟩
    exact Heap.memcpy_sized heap copied len source _ name size written sized

theorem concatLoop_sized (nodes : UInt8 → SectionNode) (totalLength rest i len : Nat)
    (heap : Heap) (result : Heap × Nat)
    (found : concatLoop nodes totalLength (some name) rest i len heap = some result)
    (sized : heap.Sized name size) : result.1.Sized name size := by
  induction rest generalizing i len heap with
  | zero =>
    rw [← Option.some.inj found]
    exact sized
  | succ rest ih =>
    rw [concatLoop] at found
    split at found
    · rcases Option.bind_eq_some_iff.mp found with ⟨copied, copy, later⟩
      exact ih (i + 1) _ copied later (copyNode_sized name size heap copied len _ copy sized)
    · rw [← Option.some.inj found]
      exact sized

theorem clearSections_sized (rest i : Nat) (heap : Heap) (nodes : UInt8 → SectionNode)
    (result : Heap × (UInt8 → SectionNode))
    (found : clearSections rest i heap nodes = some result) (sized : heap.Sized name size) :
    result.1.Sized name size := by
  induction rest generalizing i heap nodes with
  | zero =>
    rw [← Option.some.inj found]
    exact sized
  | succ rest ih =>
    rcases Option.bind_eq_some_iff.mp found with ⟨freed, free, later⟩
    apply ih (i + 1) freed _ later
    rw [freeNode] at free
    split at free
    · exact Heap.free_sized heap freed _ name size free sized
    · rw [← Option.some.inj free]
      exact sized

end Size

-- the concatenation is as long as the header says, whatever the nodes hold
theorem concatSections_length (heap : Heap) (nodes : UInt8 → SectionNode)
    (totalLength num : Nat) (result : Heap × (UInt8 → SectionNode) × Pointer) (block : Block)
    (found : concatSections heap nodes totalLength num = some result)
    (loaded : result.1.load result.2.2 = some block) : block.length = totalLength := by
  have fresh := Heap.allocate_sized heap (List.replicate totalLength (some 0))
  simp only [concatSections, Heap.calloc] at found
  generalize heap.allocate (List.replicate totalLength (some 0)) = zeroing at found fresh
  rcases zeroing with ⟨zeroed, pointer⟩
  cases pointer with
  | none =>
    obtain rfl := Option.some.inj found
    cases loaded
  | some ret =>
    have zeroSized := fresh ret rfl
    rw [List.length_replicate] at zeroSized
    rcases Option.bind_eq_some_iff.mp found with ⟨filled, loop, later⟩
    have copied := concatLoop_sized ret totalLength nodes totalLength num 0 0 zeroed filled loop
      zeroSized
    split at later
    · rcases Option.map_eq_some_iff.mp later with ⟨freed, -, rfl⟩
      cases loaded
    · rcases Option.map_eq_some_iff.mp later with ⟨cleared, clear, rfl⟩
      exact clearSections_sized ret totalLength num 0 filled.1 nodes cleared clear copied block
        loaded

namespace SectionSet

variable (set : SectionSet n)

theorem assembles_seen (heap : Heap) (header : TableHeader) (order : List (Fin n))
    (seen : ∀ i, bitmap64Get header.sectionBitmap (set.sections i).long.curSec = true) :
    set.Assembles Finset.univ heap header order := by
  induction order generalizing header with
  | nil => trivial
  | cons i rest ih =>
    have duplicate := parseSectionHeader_duplicate heap header (set.sections i) (seen i)
    refine ⟨_, duplicate, ?_, ?_, ?_⟩
    · rw [expectedReturn, if_pos (Finset.mem_univ i)]
    · intro done
      rw [expectedReturn, if_pos (Finset.mem_univ i)] at done
      exact absurd done duplicateData_ne_zero
    · rw [Finset.insert_eq_of_mem (Finset.mem_univ i)]
      exact ih _ seen

theorem bodies_single (set : SectionSet 1) : set.bodies = (set.sections 0).body := by
  simp [bodies, List.finRange_succ]

theorem assembles_single (set : SectionSet 1) (heap : Heap) (available : heap.Available)
    (order : List (Fin 1)) : set.Assembles ∅ heap {} order := by
  cases order with
  | nil => trivial
  | cons i rest =>
    obtain rfl := Subsingleton.elim i 0
    have single : (set.sections 0).Single := ⟨set.numbered 0, set.last 0⟩
    rcases parseSectionHeader_first heap {} (set.sections 0) single available
      (bitmap64Get_empty 0) rfl with ⟨parsed, header, done⟩
    have complete : insert 0 (∅ : Finset (Fin 1)) = Finset.univ := by decide
    refine ⟨parsed, header, ?_, ?_, ?_⟩
    · rw [done.ret, expectedReturn, if_neg (Finset.notMem_empty _), if_pos complete]
    · intro _
      refine ⟨_, done.data, ?_⟩
      rw [bodies_single, LongSection.stored, List.take_left' (ofBytes_length _)]
    · rw [complete]
      apply assembles_seen
      intro i
      obtain rfl := Subsingleton.elim i 0
      rw [done.table, completed, single.1, bitmap64Get_set]
      rfl

theorem not_assembles (Invariant : TableHeader → Prop)
    (keeps : ∀ heap header i parsed, Invariant header → set.arrives heap header i = some parsed →
      Invariant parsed.header)
    (fails : ∀ heap header i parsed, Invariant header → set.arrives heap header i = some parsed →
      parsed.ret = 0 → ¬set.HeldBy parsed)
    (seen : Finset (Fin n)) (heap : Heap) (header : TableHeader) (order : List (Fin n))
    (start : Invariant header) (missing : seen ≠ Finset.univ)
    (complete : ∀ i, i ∈ seen ∨ i ∈ order) : ¬set.Assembles seen heap header order := by
  induction order generalizing seen heap header with
  | nil =>
    exfalso
    apply missing
    apply Finset.eq_univ_of_forall
    intro i
    simpa using complete i
  | cons i rest ih =>
    rintro ⟨parsed, arrives, ret, held, later⟩
    by_cases old : i ∈ seen
    · rw [Finset.insert_eq_of_mem old] at later
      apply ih seen parsed.heap parsed.header (keeps _ _ _ _ start arrives) missing _ later
      intro j
      rcases complete j with known | coming
      · exact Or.inl known
      · rcases List.mem_cons.mp coming with rfl | after
        · exact Or.inl old
        · exact Or.inr after
    · by_cases full : insert i seen = Finset.univ
      · have expected : expectedReturn seen i = 0 := by
          rw [expectedReturn, if_neg old, if_pos full]
        exact fails heap header i parsed start arrives (ret.trans expected) (held expected)
      · apply ih (insert i seen) parsed.heap parsed.header (keeps _ _ _ _ start arrives) full _
          later
        intro j
        rcases complete j with known | coming
        · exact Or.inl (Finset.mem_insert_of_mem known)
        · rcases List.mem_cons.mp coming with rfl | after
          · exact Or.inl (Finset.mem_insert_self _ _)
          · exact Or.inr after

-- beside the last arrival there are two sections or more, with a CRC each
theorem bodies_length (i : Fin n) (three : 3 ≤ n) :
    (set.sections i).body.length + 8 ≤ set.bodies.length := by
  have crc : ∀ j, 4 ≤ (set.sections j).body.length := by
    intro j
    have minimal := (set.sections j).minimal
    have length := (set.sections j).body_length
    omega
  have total : set.bodies.length = ∑ j, (set.sections j).body.length := by
    rw [bodies, List.length_flatMap, ← List.ofFn_eq_map, List.sum_ofFn]
  have others : 2 ≤ (Finset.univ.erase i).card := by
    rw [Finset.card_erase_of_mem (Finset.mem_univ i), Finset.card_univ, Fintype.card_fin]
    omega
  have rest : (Finset.univ.erase i).card * 4 ≤
      ∑ j ∈ Finset.univ.erase i, (set.sections j).body.length :=
    Finset.card_nsmul_le_sum _ _ 4 fun j _ => crc j
  have whole : ∑ j, (set.sections j).body.length =
      (set.sections i).body.length + ∑ j ∈ Finset.univ.erase i, (set.sections j).body.length :=
    (Finset.add_sum_erase _ _ (Finset.mem_univ i)).symm
  omega

theorem not_heldBy (three : 3 ≤ n) (heap : Heap) (header : TableHeader) (i : Fin n)
    (parsed : Parsed) (arrives : set.arrives heap header i = some parsed) (ret : parsed.ret = 0) :
    ¬set.HeldBy parsed := by
  rintro ⟨block, loaded, begins⟩
  have size : block.length = (set.sections i).fields.sectionLength := by
    rcases parseSectionHeader_cases heap header (set.sections i) parsed arrives with
      ⟨-, rfl⟩ | ⟨-, stored⟩
    · exact absurd ret duplicateData_ne_zero
    · cases stored with
      | noMemory => exact absurd ret enomem_ne_zero
      | waiting => exact absurd ret one_ne_zero
      | complete freed heap node nodes data full joined =>
        exact concatSections_length freed _ _ _ (heap, nodes, data) block joined loaded
  have minimal := (set.sections i).minimal
  have body := (set.sections i).body_length
  have total := set.bodies_length i three
  have taken := congrArg List.length begins
  rw [List.length_take, ofBytes_length] at taken
  omega

theorem two_keeps (set : SectionSet 2) (heap : Heap) (header : TableHeader) (i : Fin 2)
    (parsed : Parsed) (unused : header.sectionBitmap 1 = 0)
    (arrives : set.arrives heap header i = some parsed) :
    parsed.header.sectionBitmap 1 = 0 ∧ parsed.ret ≠ 0 := by
  have low : wordOf (set.sections i).long.curSec ≠ 1 := by
    rw [set.numbered i]
    fin_cases i <;> decide
  have kept : bitmap64Set header.sectionBitmap (set.sections i).long.curSec 1 = 0 := by
    rw [bitmap64Set, Function.update_of_ne low.symm, unused]
  rcases parseSectionHeader_cases heap header (set.sections i) parsed arrives with
    ⟨-, rfl⟩ | ⟨-, stored⟩
  · exact ⟨unused, duplicateData_ne_zero⟩
  · cases stored with
    | noMemory => exact ⟨kept, enomem_ne_zero⟩
    | waiting => exact ⟨kept, one_ne_zero⟩
    | complete freed heap node nodes data full joined =>
      have last : (set.sections i).long.lastSec.toNat = 1 := by
        rw [set.last i]
        rfl
      rw [last, describe_sectionBitmap, bitmap64Full_one _ kept] at full
      cases full

end SectionSet

theorem nothing_seen (set : SectionSet n) : (∅ : Finset (Fin n)) ≠ Finset.univ := by
  intro same
  have member := Finset.mem_univ (⟨0, set.positive⟩ : Fin n)
  rw [← same] at member
  cases member

theorem several_not_assembled (set : SectionSet n) (three : 3 ≤ n) (heap : Heap)
    (order : List (Fin n)) (complete : ∀ i, i ∈ order) : ¬set.Assembles ∅ heap {} order :=
  set.not_assembles (fun _ => True) (fun _ _ _ _ _ _ => trivial)
    (fun heap header i parsed _ => set.not_heldBy three heap header i parsed)
    ∅ heap {} order trivial (nothing_seen set) fun i => Or.inr (complete i)

theorem two_not_assembled (set : SectionSet 2) (heap : Heap) (order : List (Fin 2))
    (complete : ∀ i, i ∈ order) : ¬set.Assembles ∅ heap {} order :=
  set.not_assembles (fun header => header.sectionBitmap 1 = 0)
    (fun heap header i parsed unused arrives =>
      (set.two_keeps heap header i parsed unused arrives).1)
    (fun heap header i parsed unused arrives ret =>
      absurd ret (set.two_keeps heap header i parsed unused arrives).2)
    ∅ heap {} order rfl (nothing_seen set) fun i => Or.inr (complete i)

/-- Only tables of one section are put together. -/
theorem assembled_iff (set : SectionSet n) (heap : Heap) (available : heap.Available)
    (order : List (Fin n)) (complete : ∀ i, i ∈ order) :
    set.Assembles ∅ heap {} order ↔ n = 1 := by
  constructor
  · intro assembles
    have positive := set.positive
    by_contra several
    by_cases three : 3 ≤ n
    · exact several_not_assembled set three heap order complete assembles
    · obtain rfl : n = 2 := by omega
      exact two_not_assembled set heap order complete assembles
  · rintro rfl
    exact set.assembles_single heap available order

def wholeTable : LongSection where
  bytes := [0x02, 0xB0, 10, 0, 9, 0xC1, 0, 0, 0xAA, 2, 4, 6, 8]
  fields := ⟨2, 1, 0, 10⟩
  long := ⟨9, 16, 1, 0, 0⟩
  readable := by decide +kernel
  readableLong := by decide +kernel
  syntaxIndicator := rfl
  sized := rfl
  minimal := by decide
  maximal := by decide

def oneSection : SectionSet 1 where
  sections _ := wholeTable
  positive := by decide
  small := by decide
  numbered i := by rw [Subsingleton.elim i 0]; rfl
  last _ := rfl
  sameId _ _ := rfl
  sameExt _ _ := rfl
  sameVersion _ _ := rfl

theorem assembled_repeated : oneSection.Assembles ∅ Heap.empty {} [0, 0, 0] :=
  (assembled_iff oneSection Heap.empty Heap.empty_available [0, 0, 0] (by decide)).mpr rfl

def firstHalf : LongSection where
  bytes := [0x02, 0xB0, 11, 0, 9, 0xC1, 0, 1, 0xAA, 0xBB, 2, 4, 6, 8]
  fields := ⟨2, 1, 0, 11⟩
  long := ⟨9, 16, 1, 0, 1⟩
  readable := by decide +kernel
  readableLong := by decide +kernel
  syntaxIndicator := rfl
  sized := rfl
  minimal := by decide
  maximal := by decide

def secondHalf : LongSection where
  bytes := [0x02, 0xB0, 11, 0, 9, 0xC1, 1, 1, 0xCC, 0xDD, 1, 3, 5, 7]
  fields := ⟨2, 1, 0, 11⟩
  long := ⟨9, 16, 1, 1, 1⟩
  readable := by decide +kernel
  readableLong := by decide +kernel
  syntaxIndicator := rfl
  sized := rfl
  minimal := by decide
  maximal := by decide

def twoSections : SectionSet 2 where
  sections := ![firstHalf, secondHalf]
  positive := by decide
  small := by decide
  numbered := by decide
  last := by decide
  sameId := by decide
  sameExt := by decide
  sameVersion := by decide

theorem assembled_never_full :
    ¬∀ (n : Nat) (set : SectionSet n) (order : List (Fin n)), (∀ i, i ∈ order) →
      set.Assembles ∅ Heap.empty {} order := by
  intro claim
  exact two_not_assembled twoSections Heap.empty [0, 1] (by decide)
    (claim 2 twoSections [0, 1] (by decide))

end TsAnalyze.Tables
