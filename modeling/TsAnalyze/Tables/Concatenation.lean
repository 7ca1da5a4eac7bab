import TsAnalyze.Tables.Assembly

set_option autoImplicit false

namespace TsAnalyze.Tables

open Memory

-- The lengths of the source are ints; calloc takes a negative one for a huge one.
def concatSectionsInt (heap : Heap) (nodes : UInt8 → SectionNode) (totalLength num : Int) :
    Option (Heap × (UInt8 → SectionNode) × Pointer) :=
  if totalLength < 0 then
    match heap.calloc (totalLength % 2 ^ 64).toNat with
    | (heap, none) => some (heap, nodes, none)
    | (heap, some ret) => (heap.free (some ret)).map fun heap => (heap, nodes, none)
  else concatSections heap nodes totalLength.toNat num.toNat

/-- The node has this content in memory. -/
structure SectionNode.Holds (heap : Heap) (node : SectionNode) (content : Block) : Prop where
  len : node.len = content.length
  ptr : content ≠ [] → ∃ name behind,
    node.ptr = some name ∧ heap.object name = some (content ++ behind)

/-- The first `num` nodes of an array hold objects of their own. -/
structure NodeArray where
  heap : Heap
  unused : heap.object heap.next = none
  nodes : UInt8 → SectionNode
  num : Int
  few : num ≤ 256
  contents : UInt8 → Block
  held : ∀ i : UInt8, i.toNat < num → (nodes i).Holds heap (contents i)
  apart : ∀ i j : UInt8, i.toNat < num → j.toNat < num → contents i ≠ [] → contents j ≠ [] →
    (nodes i).ptr = (nodes j).ptr → i = j

-- the contents of `count` nodes from the i-th on
def contentsFrom (contents : UInt8 → Block) (i count : Nat) : Block :=
  (List.range' i count).flatMap fun j => contents (UInt8.ofNat j)

def NodeArray.joined (array : NodeArray) : Block :=
  contentsFrom array.contents 0 array.num.toNat

def NodeArray.zeroed (array : NodeArray) (i : UInt8) : SectionNode :=
  if i.toNat < array.num then { array.nodes i with len := 0 } else array.nodes i

/-- No byte is written outside the allocated ones. The contents are returned one behind the other
and their lengths set to zero if they have the total length, else NULL, with the nodes as they
were. -/
def ConcatRight (array : NodeArray) (totalLength : Int) : Prop :=
  ∃ after nodes ret, concatSectionsInt array.heap array.nodes totalLength array.num =
      some (after, nodes, ret) ∧
    if totalLength = array.joined.length then
      (∃ name, ret = some name ∧ after.object name = some array.joined) ∧ nodes = array.zeroed
    else
      ret = none ∧ nodes = array.nodes ∧
        ∀ name, name ≠ array.heap.next → after.object name = array.heap.object name

/-- The contents have room, or there is nothing that they could be copied to. -/
def ConcatFits (array : NodeArray) (totalLength : Int) : Prop :=
  if array.heap.succeeds array.heap.next then
    totalLength < 0 ∨ array.joined.length ≤ totalLength
  else totalLength ≠ array.joined.length

section Loop

variable (nodes : UInt8 → SectionNode) (contents : UInt8 → Block)

theorem contentsFrom_succ (i count : Nat) :
    contentsFrom contents i (count + 1) =
      contents (UInt8.ofNat i) ++ contentsFrom contents (i + 1) count := by
  rw [contentsFrom, List.range'_succ, List.flatMap_cons]
  rfl

-- a heap with one more object
def filled (base : Heap) (ret : Nat) (block : Block) : Heap :=
  { base with object := Function.update base.object ret (some block) }

@[simp] theorem filled_ret (base : Heap) (ret : Nat) (block : Block) :
    (filled base ret block).object ret = some block :=
  Function.update_self _ _ _

variable {base : Heap} {ret : Nat} (unused : base.object ret = none)
include unused

theorem filled_other {name : Nat} {block : Block} (found : base.object name = some block)
    (other : Block) : (filled base ret other).object name = some block := by
  have different : name ≠ ret := by
    intro same
    rw [same, unused] at found
    cases found
  exact (Function.update_of_ne different _ _).trans found

theorem holds_filled {node : SectionNode} {content : Block} (held : node.Holds base content)
    (block : Block) : node.Holds (filled base ret block) content := by
  refine ⟨held.len, ?_⟩
  intro nonempty
  obtain ⟨name, behind, ptr, found⟩ := held.ptr nonempty
  exact ⟨name, behind, ptr, filled_other unused found block⟩

/-- A node is copied behind what has been written. -/
theorem copyNode_filled {node : SectionNode} {content : Block} (held : node.Holds base content)
    (written rest : Block) (room : content.length ≤ rest.length) :
    copyNode (filled base ret (written ++ rest)) (some ret) written.length node =
      some (filled base ret (written ++ content ++ rest.drop content.length)) := by
  by_cases empty : content = []
  · rw [copyNode, held.len, empty, if_pos List.length_nil]
    simp
  · obtain ⟨name, behind, ptr, found⟩ := held.ptr empty
    have nonzero : ¬content.length = 0 := fun zero => empty (List.length_eq_zero_iff.mp zero)
    have loaded : (filled base ret (written ++ rest)).load node.ptr = some (content ++ behind) := by
      rw [ptr]
      exact filled_other unused found _
    have copied := Heap.memcpy_found (filled base ret (written ++ rest)) ret written.length
      content.length (written ++ rest) (content ++ behind) (filled_ret base ret _)
      (by rw [List.length_append]; omega) (by simp)
    have tail : (written ++ rest).drop (written.length + content.length) =
        rest.drop content.length := by
      rw [← List.drop_drop, List.drop_left]
    rw [copyNode, held.len, if_neg nonzero, loaded, Option.bind_some, copied, tail, List.take_left,
      List.take_left]
    simp [filled]

theorem concatLoop_fits (totalLength rest i : Nat) (written : Block)
    (held : ∀ j, i ≤ j → j < i + rest → (nodes (UInt8.ofNat j)).Holds base (contents (UInt8.ofNat j)))
    (room : written.length + (contentsFrom contents i rest).length ≤ totalLength) :
    concatLoop nodes totalLength (some ret) rest i written.length
        (filled base ret (written ++ List.replicate (totalLength - written.length) (some 0))) =
      some (filled base ret (written ++ contentsFrom contents i rest ++
          List.replicate (totalLength - (written ++ contentsFrom contents i rest).length) (some 0)),
        (written ++ contentsFrom contents i rest).length) := by
  induction rest generalizing i written with
  | zero => simp [concatLoop, contentsFrom]
  | succ rest ih =>
    rw [contentsFrom_succ, List.length_append] at room
    rw [concatLoop, contentsFrom_succ]
    by_cases more : written.length < totalLength
    · have first := held i (le_refl i) (by omega)
      have copied := copyNode_filled unused first written
        (List.replicate (totalLength - written.length) (some 0)) (by
          rw [List.length_replicate]
          omega)
      have later := ih (i + 1) (written ++ contents (UInt8.ofNat i))
        (fun j after before => held j (by omega) (by omega)) (by
          rw [List.length_append]
          omega)
      have zeros : (List.replicate (totalLength - written.length) (some (0 : UInt8))).drop
          (contents (UInt8.ofNat i)).length =
            List.replicate (totalLength - (written ++ contents (UInt8.ofNat i)).length) (some 0) := by
        rw [List.drop_replicate, List.length_append, Nat.sub_sub]
      rw [if_pos more, copied, Option.bind_some, zeros, first.len, ← List.length_append, later,
        List.append_assoc written]
    · have nothing : contents (UInt8.ofNat i) ++ contentsFrom contents (i + 1) rest = [] := by
        apply List.length_eq_zero_iff.mp
        rw [List.length_append]
        omega
      rw [if_neg more, nothing, List.append_nil]

end Loop

section Overflow

variable (nodes : UInt8 → SectionNode) (ret size : Nat)

-- memcpy stays in the object
theorem copyNode_room {heap copied : Heap} {len : Nat} {node : SectionNode}
    (sized : heap.Sized ret size) (room : len ≤ size)
    (found : copyNode heap (some ret) len node = some copied) : len + node.len ≤ size := by
  rw [copyNode] at found
  split at found
  · omega
  · obtain ⟨source, -, written⟩ := Option.bind_eq_some_iff.mp found
    obtain ⟨target, known, copying⟩ := Option.bind_eq_some_iff.mp written
    obtain ⟨region, copying, -⟩ := Option.map_eq_some_iff.mp copying
    have fits := (Region.memcpy_isSome _ _ _ _).mp (by rw [copying]; rfl)
    rw [sized target known] at fits
    omega

def lengthsFrom (i count : Nat) : Nat :=
  ((List.range' i count).map fun j => (nodes (UInt8.ofNat j)).len).sum

/-- Nodes that are too long leave the loop only where the total length is met in between. -/
theorem concatLoop_over (rest i len : Nat) (heap : Heap) (result : Heap × Nat)
    (sized : heap.Sized ret size) (room : len ≤ size) (beyond : size < len + lengthsFrom nodes i rest)
    (found : concatLoop nodes size (some ret) rest i len heap = some result) : result.2 = size := by
  induction rest generalizing i len heap with
  | zero =>
    rw [lengthsFrom, List.range'_zero, List.map_nil, List.sum_nil] at beyond
    omega
  | succ rest ih =>
    rw [concatLoop] at found
    rw [lengthsFrom, List.range'_succ, List.map_cons, List.sum_cons] at beyond
    split at found
    · obtain ⟨copied, copy, later⟩ := Option.bind_eq_some_iff.mp found
      have inside := copyNode_room ret size sized room copy
      have behind := copyNode_sized ret size heap copied len _ copy sized
      apply ih (i + 1) _ copied behind inside _ later
      rw [lengthsFrom]
      omega
    · rw [← Option.some.inj found]
      dsimp only
      omega

end Overflow

section Clear

variable (contents : UInt8 → Block)

-- the nodes from the i-th on, as many as `count`
def within (i count : Nat) (j : UInt8) : Prop :=
  i ≤ j.toNat ∧ j.toNat < i + count

instance (i count : Nat) (j : UInt8) : Decidable (within i count j) :=
  inferInstanceAs (Decidable (_ ∧ _))

theorem within_none (i : Nat) (j : UInt8) : ¬within i 0 j := by
  intro inside
  have above := inside.1
  have below := inside.2
  omega

theorem within_first {i : Nat} (rest : Nat) (small : i < 256) :
    within i (rest + 1) (UInt8.ofNat i) := by
  have position : (UInt8.ofNat i).toNat = i := UInt8.toNat_ofNat_of_lt' small
  exact ⟨by omega, by omega⟩

-- the nodes behind the i-th are the other ones
theorem within_later {i : Nat} (rest : Nat) (small : i < 256) (j : UInt8) :
    within (i + 1) rest j ↔ within i (rest + 1) j ∧ j ≠ UInt8.ofNat i := by
  have position : (UInt8.ofNat i).toNat = i := UInt8.toNat_ofNat_of_lt' small
  have apart : j ≠ UInt8.ofNat i ↔ j.toNat ≠ i := by
    rw [ne_eq, ← UInt8.toNat_inj, position]
  rw [apart]
  unfold within
  omega

theorem SectionNode.Holds.kept {heap after : Heap} {node : SectionNode} {content : Block}
    (held : node.Holds heap content)
    (same : ∀ name, content ≠ [] → node.ptr = some name → after.object name = heap.object name) :
    node.Holds after content := by
  refine ⟨held.len, ?_⟩
  intro nonempty
  obtain ⟨name, behind, ptr, found⟩ := held.ptr nonempty
  exact ⟨name, behind, ptr, by rw [same name nonempty ptr, found]⟩

-- the object of one node
theorem freeNode_held {heap : Heap} {node : SectionNode} {content : Block}
    (held : node.Holds heap content) :
    ∃ freed, freeNode heap node = some freed ∧
      ∀ name, (content ≠ [] → node.ptr ≠ some name) → freed.object name = heap.object name := by
  by_cases empty : content = []
  · refine ⟨heap, ?_, fun name _ => rfl⟩
    rw [freeNode, held.len, empty]
    exact if_neg (fun absurd => absurd rfl)
  · obtain ⟨name, behind, ptr, found⟩ := held.ptr empty
    have nonzero : content.length ≠ 0 := fun zero => empty (List.length_eq_zero_iff.mp zero)
    have free : heap.free node.ptr =
        some { heap with object := Function.update heap.object name none } := by
      rw [ptr, Heap.free, found, Option.map_some]
    refine ⟨_, by rw [freeNode, held.len, if_pos nonzero, free], ?_⟩
    intro other different
    have apart : other ≠ name := fun same => different empty (by rw [ptr, same])
    exact Function.update_of_ne apart _ _

-- the nodes with those from the i-th on cleared, one after the other or at once
theorem zeroed_first {i : Nat} (rest : Nat) (small : i < 256) (nodes : UInt8 → SectionNode) :
    (fun j => if within (i + 1) rest j
        then { Function.update nodes (UInt8.ofNat i) { nodes (UInt8.ofNat i) with len := 0 } j
          with len := 0 }
        else Function.update nodes (UInt8.ofNat i) { nodes (UInt8.ofNat i) with len := 0 } j) =
      fun j => if within i (rest + 1) j then { nodes j with len := 0 } else nodes j := by
  funext j
  by_cases same : j = UInt8.ofNat i
  · have outside : ¬within (i + 1) rest j := fun inside =>
      ((within_later rest small j).mp inside).2 same
    rw [if_neg outside, same, if_pos (within_first rest small), Function.update_self]
  · simp only [Function.update_of_ne same, within_later rest small, ne_eq, same, not_false_eq_true,
      and_true]

/-- The objects of the nodes are freed, each of them once. -/
theorem clearSections_zeroed (rest i : Nat) (heap : Heap) (nodes : UInt8 → SectionNode)
    (few : i + rest ≤ 256)
    (held : ∀ j, within i rest j → (nodes j).Holds heap (contents j))
    (apart : ∀ j k, within i rest j → within i rest k → contents j ≠ [] → contents k ≠ [] →
      (nodes j).ptr = (nodes k).ptr → j = k) :
    ∃ after, clearSections rest i heap nodes =
        some (after, fun j => if within i rest j then { nodes j with len := 0 } else nodes j) ∧
      ∀ name, (∀ j, within i rest j → contents j ≠ [] → (nodes j).ptr ≠ some name) →
        after.object name = heap.object name := by
  induction rest generalizing i heap nodes with
  | zero =>
    refine ⟨heap, ?_, fun name _ => rfl⟩
    simp [clearSections, within_none]
  | succ rest ih =>
    have small : i < 256 := by omega
    have here := within_first rest small
    have later (j : UInt8) := (within_later rest small j).mp
    obtain ⟨freed, free, others⟩ := freeNode_held (held _ here)
    let nodes' := Function.update nodes (UInt8.ofNat i) { nodes (UInt8.ofNat i) with len := 0 }
    have kept (j : UInt8) (inside : within (i + 1) rest j) : nodes' j = nodes j :=
      Function.update_of_ne (later j inside).2 _ _
    obtain ⟨after, cleared, rested⟩ := ih (i + 1) freed nodes' (by omega)
      (by
        intro j inside
        obtain ⟨before, different⟩ := later j inside
        rw [kept j inside]
        apply (held j before).kept
        intro name nonempty ptr
        apply others
        intro filled same
        exact different (apart j _ before here nonempty filled (ptr.trans same.symm)))
      (by
        intro j k inside inside' nonempty nonempty' same
        rw [kept j inside, kept k inside'] at same
        exact apart j k (later j inside).1 (later k inside').1 nonempty nonempty' same)
    refine ⟨after, ?_, ?_⟩
    · rw [clearSections, free, Option.bind_some, ← zeroed_first rest small nodes]
      exact cleared
    · intro name different
      rw [rested name, others name (different _ here)]
      intro j inside nonempty
      rw [kept j inside]
      exact different j (later j inside).1 nonempty

end Clear

namespace NodeArray

variable (array : NodeArray)

theorem position_within (j : UInt8) : within 0 array.num.toNat j ↔ (j.toNat : Int) < array.num := by
  unfold within
  omega

theorem index_below {j : Nat} (inside : j < array.num.toNat) :
    ((UInt8.ofNat j).toNat : Int) < array.num := by
  have few := array.few
  rw [UInt8.toNat_ofNat', Nat.mod_eq_of_lt (by omega)]
  omega

theorem joined_length : array.joined.length = lengthsFrom array.nodes 0 array.num.toNat := by
  rw [joined, contentsFrom, List.length_flatMap, lengthsFrom]
  congr 1
  apply List.map_congr_left
  intro j member
  obtain ⟨-, below⟩ := List.mem_range'_1.mp member
  exact (array.held _ (array.index_below (by omega))).len.symm

-- the heap behind an allocation that succeeds
def base : Heap :=
  { array.heap with next := array.heap.next + 1 }

theorem unused_base : array.base.object array.heap.next = none :=
  array.unused

theorem calloc_some (given : array.heap.succeeds array.heap.next = true) (size : Nat) :
    array.heap.calloc size =
      (filled array.base array.heap.next (List.replicate size (some 0)), some array.heap.next) :=
  Heap.allocate_some array.heap _ given

theorem calloc_none (refused : array.heap.succeeds array.heap.next = false) (size : Nat) :
    array.heap.calloc size = (array.base, none) := by
  rw [Heap.calloc, Heap.allocate, refused]
  rfl

theorem held_base (j : UInt8) (inside : j.toNat < array.num) :
    (array.nodes j).Holds array.base (array.contents j) :=
  ⟨(array.held j inside).len, (array.held j inside).ptr⟩

-- the new object is freed again
theorem free_filled (block : Block) :
    ∃ after, (filled array.base array.heap.next block).free (some array.heap.next) = some after ∧
      ∀ name, name ≠ array.heap.next → after.object name = array.heap.object name := by
  refine ⟨{ filled array.base array.heap.next block with
    object := Function.update (filled array.base array.heap.next block).object
      array.heap.next none }, ?_, ?_⟩
  · rw [Heap.free, filled_ret, Option.map_some]
  · intro name different
    exact (Function.update_of_ne different _ _).trans (Function.update_of_ne different _ _)

theorem loop_joined {totalLength : Nat} (room : array.joined.length ≤ totalLength) :
    concatLoop array.nodes totalLength (some array.heap.next) array.num.toNat 0 0
        (filled array.base array.heap.next (List.replicate totalLength (some 0))) =
      some (filled array.base array.heap.next (array.joined ++
          List.replicate (totalLength - array.joined.length) (some 0)), array.joined.length) := by
  have fits := concatLoop_fits array.nodes array.contents array.unused_base
    totalLength array.num.toNat 0 []
    (fun j _ below => array.held_base _ (array.index_below (by omega)))
    (by simpa [joined] using room)
  simpa [joined] using fits

theorem clear_joined (block : Block) :
    ∃ after, clearSections array.num.toNat 0 (filled array.base array.heap.next block) array.nodes =
        some (after, array.zeroed) ∧ after.object array.heap.next = some block := by
  have few := array.few
  obtain ⟨after, cleared, others⟩ := clearSections_zeroed array.contents array.num.toNat 0
    (filled array.base array.heap.next block) array.nodes (by omega)
    (fun j inside => holds_filled array.unused_base
      (array.held_base j ((array.position_within j).mp inside)) block)
    (fun j k inside inside' => array.apart j k ((array.position_within j).mp inside)
      ((array.position_within k).mp inside'))
  refine ⟨after, ?_, ?_⟩
  · rw [cleared]
    simp only [position_within]
    rfl
  · rw [others array.heap.next]
    · exact filled_ret _ _ _
    · intro j inside nonempty same
      obtain ⟨name, behind, ptr, found⟩ :=
        (array.held j ((array.position_within j).mp inside)).ptr nonempty
      rw [ptr, Option.some.injEq] at same
      rw [same, array.unused] at found
      cases found

end NodeArray

section Main

variable (array : NodeArray)

theorem concatRight_refused (refused : array.heap.succeeds array.heap.next = false)
    (totalLength : Int) :
    ConcatRight array totalLength ↔ totalLength ≠ array.joined.length := by
  have result : concatSectionsInt array.heap array.nodes totalLength array.num =
      some (array.base, array.nodes, none) := by
    unfold concatSectionsInt
    split
    · rw [array.calloc_none refused]
    · rw [concatSections, array.calloc_none refused]
  constructor
  · intro right same
    obtain ⟨after, nodes, ret, found, holds⟩ := right
    rw [result] at found
    cases found
    rw [if_pos same] at holds
    obtain ⟨⟨name, given, -⟩, -⟩ := holds
    cases given
  · intro apart
    exact ⟨array.base, array.nodes, none, result, by rw [if_neg apart]; exact ⟨rfl, rfl, fun _ _ => rfl⟩⟩

theorem concatRight_negative (given : array.heap.succeeds array.heap.next = true)
    {totalLength : Int} (negative : totalLength < 0) : ConcatRight array totalLength := by
  obtain ⟨after, freed, others⟩ := array.free_filled
    (List.replicate (totalLength % 2 ^ 64).toNat (some 0))
  refine ⟨after, array.nodes, none, ?_, ?_⟩
  · rw [concatSectionsInt, if_pos negative, array.calloc_some given]
    dsimp only
    rw [freed]
    rfl
  · rw [if_neg (by omega)]
    exact ⟨rfl, rfl, others⟩

theorem concatRight_room (given : array.heap.succeeds array.heap.next = true) {totalLength : Nat}
    (room : array.joined.length ≤ totalLength) : ConcatRight array totalLength := by
  have loop := array.loop_joined room
  have start : ¬(totalLength : Int) < 0 := by omega
  by_cases exactly : totalLength = array.joined.length
  · obtain ⟨after, cleared, joined⟩ := array.clear_joined array.joined
    refine ⟨after, array.zeroed, some array.heap.next, ?_, ?_⟩
    · rw [exactly, Nat.sub_self, List.replicate_zero, List.append_nil] at loop
      rw [concatSectionsInt, if_neg start, concatSections, array.calloc_some given,
        Int.toNat_natCast, exactly]
      dsimp only
      rw [loop, Option.bind_some, if_neg (fun apart => apart rfl), cleared]
      rfl
    · rw [if_pos (by rw [exactly])]
      exact ⟨⟨array.heap.next, rfl, joined⟩, rfl⟩
  · obtain ⟨after, freed, others⟩ := array.free_filled
      (array.joined ++ List.replicate (totalLength - array.joined.length) (some 0))
    refine ⟨after, array.nodes, none, ?_, ?_⟩
    · rw [concatSectionsInt, if_neg start, concatSections, array.calloc_some given,
        Int.toNat_natCast]
      dsimp only
      rw [loop, Option.bind_some, if_pos (Ne.symm exactly), freed]
      rfl
    · rw [if_neg (by omega)]
      exact ⟨rfl, rfl, others⟩

/-- Contents that are too long are written beyond the allocated bytes, or a part of them is
returned that has the total length. -/
theorem concatRight_long (given : array.heap.succeeds array.heap.next = true) {totalLength : Nat}
    (long : totalLength < array.joined.length) : ¬ConcatRight array totalLength := by
  intro right
  obtain ⟨after, nodes, ret, found, holds⟩ := right
  rw [if_neg (by omega)] at holds
  rw [concatSectionsInt, if_neg (by omega), concatSections, array.calloc_some given,
    Int.toNat_natCast] at found
  obtain ⟨result, loop, found⟩ := Option.bind_eq_some_iff.mp found
  have sized : (filled array.base array.heap.next
      (List.replicate totalLength (some 0))).Sized array.heap.next totalLength := by
    intro block known
    rw [filled_ret] at known
    rw [← Option.some.inj known, List.length_replicate]
  rw [array.joined_length] at long
  have met := concatLoop_over array.nodes array.heap.next totalLength array.num.toNat 0 0 _ result
    sized (Nat.zero_le _) (by omega) loop
  rw [if_neg (fun apart => apart met)] at found
  obtain ⟨cleared, -, same⟩ := Option.map_eq_some_iff.mp found
  obtain ⟨none, -⟩ := holds
  rw [none] at same
  cases same

/-- concat_sections is right exactly where the contents of the nodes have room in the total
length, unless the allocation fails. -/
theorem concatSections_right_iff (totalLength : Int) :
    ConcatRight array totalLength ↔ ConcatFits array totalLength := by
  unfold ConcatFits
  by_cases given : array.heap.succeeds array.heap.next = true
  · rw [if_pos given]
    by_cases negative : totalLength < 0
    · exact iff_of_true (concatRight_negative array given negative) (Or.inl negative)
    · obtain ⟨length, rfl⟩ := Int.eq_ofNat_of_zero_le (Int.not_lt.mp negative)
      constructor
      · intro right
        right
        by_contra long
        exact concatRight_long array given (by omega) right
      · intro fits
        exact concatRight_room array given (by omega)
  · rw [if_neg given]
    exact concatRight_refused array (by simpa using given) totalLength

-- one node
def soleNode (content : Block) : NodeArray where
  heap := { Heap.empty with object := Function.update Heap.empty.object 0 (some content), next := 1 }
  unused := rfl
  nodes _ := ⟨content.length, some 0⟩
  num := 1
  few := by decide
  contents _ := content
  held _ _ := ⟨rfl, fun _ => ⟨0, [], rfl, by simp⟩⟩
  apart i j first second _ _ _ := by
    have least : i.toNat = j.toNat := by omega
    exact UInt8.toNat_inj.mp least

-- Two bytes are copied behind the pointer that calloc has returned for one.
theorem concatSections_overflows :
    ¬ ∀ (array : NodeArray) (totalLength : Int), ConcatRight array totalLength := by
  intro right
  exact concatRight_long (soleNode (ofBytes [0x47, 0x48])) rfl (by decide)
    (right (soleNode (ofBytes [0x47, 0x48])) 1)

end Main

end TsAnalyze.Tables
