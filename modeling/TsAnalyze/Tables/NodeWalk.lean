import TsAnalyze.Shared.Encoding
import TsAnalyze.Tables.DvbSi
import TsAnalyze.Tables.Encoded

set_option autoImplicit false

namespace TsAnalyze.Tables

open Memory Demux

-- the twelve-bit length of a loop
def lengthAt (memory : Block) (offset : Nat) : Nat :=
  (read16 memory offset).getD 0 &&& 0xFFF

theorem lengthAt_read {memory : Block} {offset value : Nat}
    (found : read16 memory offset = some value) : lengthAt memory offset = value &&& 0xFFF := by
  rw [lengthAt, found, Option.getD_some]

theorem lengthAt_le (memory : Block) (offset : Nat) : lengthAt memory offset ≤ 0xFFF :=
  Nat.and_le_right

variable {D E : Type} (ops : DescriptorOps D) (fixed lengthOffset : Nat)

-- the descriptors of a loop with its length in front stand in the memory
def DescriptorsInside (memory : Block) (len : Nat) : Prop :=
  ∃ labels, Walked ops memory len labels

/-- The descriptors of every node that the lengths lead to stand in the memory. -/
inductive NodesInside : Block → Int → Prop
  | done (memory : Block) (remaining : Int) (used : remaining ≤ 0) : NodesInside memory remaining
  | node (memory : Block) (remaining : Int) (more : 0 < remaining)
      (here : DescriptorsInside ops (memory.drop fixed) (lengthAt memory lengthOffset))
      (later : NodesInside (memory.drop (fixed + lengthAt memory lengthOffset))
        (remaining - (fixed + lengthAt memory lengthOffset : Nat))) :
      NodesInside memory remaining

/-- A node is read as soon as its descriptors stand in the memory; ten bytes hold its fields. -/
structure NodeReads (readNode : Block → Allocating (E × Nat × Nat)) : Prop where
  yields : ∀ bytes : List UInt8, 10 ≤ bytes.length →
    DescriptorsInside ops ((ofBytes bytes).drop fixed) (lengthAt (ofBytes bytes) lengthOffset) →
    ∃ node, Yields (readNode (ofBytes bytes))
      (node, fixed + lengthAt (ofBytes bytes) lengthOffset,
        fixed + lengthAt (ofBytes bytes) lengthOffset)
  inside : ∀ (bytes : List UInt8) (heap : Heap) (result : (E × Nat × Nat) × Heap),
    readNode (ofBytes bytes) heap = some result →
    result.1.2 = (fixed + lengthAt (ofBytes bytes) lengthOffset,
        fixed + lengthAt (ofBytes bytes) lengthOffset) ∧
      DescriptorsInside ops ((ofBytes bytes).drop fixed) (lengthAt (ofBytes bytes) lengthOffset)
  plain : ∀ memory, Plain (readNode memory)

variable {ops fixed lengthOffset} {readNode : Block → Allocating (E × Nat × Nat)}
  (reads : NodeReads ops fixed lengthOffset readNode) (small : fixed ≤ 10) (positive : 0 < fixed)
include reads small

-- The pointer and the remainder move on together, so nine bytes always stand behind the nodes.
theorem nodeLoop_inside (turns : Nat) (bytes : List UInt8) (remaining : Int)
    (low : -5000 ≤ remaining) (high : remaining ≤ 0x3FD) (nodes : List E) (heap : Heap)
    (available : heap.Available) (result : (List E × Int) × Heap)
    (found : nodeLoop toInt16 readNode turns (ofBytes bytes) remaining nodes heap = some result) :
    NodesInside ops fixed lengthOffset (ofBytes bytes) remaining := by
  induction turns generalizing bytes remaining nodes heap with
  | zero =>
    by_cases more : 0 < remaining
    · rw [nodeLoop, if_pos more] at found
      cases found
    · exact NodesInside.done _ _ (not_lt.mp more)
  | succ turns ih =>
    by_cases more : 0 < remaining
    · rw [nodeLoop, if_pos more] at found
      have later := reserve_bind found
      have given : heap.reserve.1 = true := available heap.next
      rw [given, if_pos rfl] at later
      rcases Option.bind_eq_some_iff.mp later with ⟨⟨read, middle⟩, reading, after⟩
      have here := reads.inside bytes heap.reserve.2 (read, middle) reading
      have middleAvailable := (reads.plain (ofBytes bytes)).available heap.reserve.2
        (available.of_succeeds rfl) _ reading
      have bound := lengthAt_le (ofBytes bytes) lengthOffset
      have size : read.2.1 = fixed + lengthAt (ofBytes bytes) lengthOffset :=
        congrArg Prod.fst here.1
      have advance : read.2.2 = fixed + lengthAt (ofBytes bytes) lengthOffset :=
        congrArg Prod.snd here.1
      dsimp only at after
      rw [size, advance, toInt16_of_small _ (by omega) (by omega), ofBytes_drop] at after
      refine NodesInside.node _ _ more here.2 ?_
      rw [ofBytes_drop]
      exact ih _ _ (by omega) (by omega) _ middle middleAvailable after
    · exact NodesInside.done _ _ (not_lt.mp more)

include positive in
theorem nodeLoop_yields (turns : Nat) (bytes : List UInt8) (remaining : Int)
    (behind : 0 < remaining → remaining + 9 ≤ bytes.length) (low : -5000 ≤ remaining)
    (high : remaining ≤ 0x3FD) (enough : remaining ≤ turns)
    (inside : NodesInside ops fixed lengthOffset (ofBytes bytes) remaining) (nodes : List E) :
    ∃ result, Yields (nodeLoop toInt16 readNode turns (ofBytes bytes) remaining nodes) result := by
  induction turns generalizing bytes remaining nodes with
  | zero => exact ⟨(nodes, 0), yields_ite_false (by omega) (yields_pure _)⟩
  | succ turns ih =>
    cases inside with
    | done _ _ used => exact ⟨(nodes, 0), yields_ite_false (not_lt.mpr used) (yields_pure _)⟩
    | node _ _ more here later =>
      have bound := lengthAt_le (ofBytes bytes) lengthOffset
      have room := behind more
      rw [ofBytes_drop] at later
      cases reads.yields bytes (by omega) here with
      | intro node read =>
        have next := ih (bytes.drop (fixed + lengthAt (ofBytes bytes) lengthOffset))
          (remaining - (fixed + lengthAt (ofBytes bytes) lengthOffset : Nat))
          (by rw [List.length_drop]; omega) (by omega) (by omega) (by omega) later
          (nodes ++ [node])
        cases next with
        | intro result found =>
          refine ⟨result, yields_ite_true more ?_⟩
          apply yields_allocated
          apply yields_bind read
          dsimp only
          rwa [toInt16_of_small _ (by omega) (by omega), ofBytes_drop]

include positive in
theorem nodeLoop_definedWhen (bytes : List UInt8) (remaining : Int)
    (behind : 0 < remaining → remaining + 9 ≤ bytes.length) (low : -5000 ≤ remaining)
    (high : remaining ≤ 0x3FD) :
    DefinedWhen (nodeLoop toInt16 readNode (bytes.length + 1) (ofBytes bytes) remaining [])
      (NodesInside ops fixed lengthOffset (ofBytes bytes) remaining) :=
  ⟨fun inside => nodeLoop_yields reads small positive (bytes.length + 1) bytes remaining behind
      low high (by omega) inside [],
    fun heap result available found => nodeLoop_inside reads small (bytes.length + 1) bytes
      remaining low high [] heap available result found⟩

omit reads small in
theorem parseDescriptors_definedWhen (memory : Block) (len : Nat) :
    DefinedWhen (parseDescriptors ops [] memory len) (DescriptorsInside ops memory len) := by
  constructor
  · intro inside
    cases inside with
    | intro labels walked =>
      cases parseDescriptors_walked ops walked with
      | intro parsed found => exact ⟨parsed, found.2⟩
  · intro heap result _ found
    exact ⟨_, parseDescriptors_inside ops memory len heap result found⟩

end TsAnalyze.Tables
