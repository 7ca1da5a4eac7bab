import TsAnalyze.Shared.Yields
import TsAnalyze.Tables.Descriptors

set_option autoImplicit false

namespace TsAnalyze.Tables

open Memory

variable {D : Type}

-- what is compared of a descriptor: its tag and its length
def Descriptor.label (descriptor : Descriptor D) : UInt8 × UInt8 :=
  (descriptor.tag, descriptor.length)

def labelsLength (labels : List (UInt8 × UInt8)) : Nat :=
  (labels.map fun label => label.2.toNat + 2).sum

@[simp] theorem labelsLength_nil : labelsLength [] = 0 := rfl

@[simp] theorem labelsLength_cons (label : UInt8 × UInt8) (labels : List (UInt8 × UInt8)) :
    labelsLength (label :: labels) = label.2.toNat + 2 + labelsLength labels := by
  simp [labelsLength]

variable (ops : DescriptorOps D)

/-- The descriptors that a length leads to, each in the memory and accepted by its parser. -/
inductive Walked : Block → Int → List (UInt8 × UInt8) → Prop
  | stop (memory : Block) (l : Int) (used : l ≤ 0) : Walked memory l []
  | next (memory : Block) (l : Int) (tag length : UInt8) (labels : List (UInt8 × UInt8))
      (more : 0 < l) (tagAt : read8 memory 0 = some tag) (lengthAt : read8 memory 1 = some length)
      (accepted : (ops.parse tag memory (length.toNat + 2)).isSome = true)
      (later : Walked (memory.drop (length.toNat + 2)) (l - (length.toNat + 2)) labels) :
      Walked memory l ((tag, length) :: labels)

variable {ops}

-- the last descriptor may be longer than what is left
theorem Walked.covers {memory : Block} {l : Int} {labels : List (UInt8 × UInt8)}
    (walked : Walked ops memory l labels) : l ≤ labelsLength labels := by
  induction walked with
  | stop memory l used => simpa using used
  | next memory l tag length labels _ _ _ _ _ ih =>
    simp only [labelsLength_cons]
    omega

variable (ops)

theorem descriptorLoop_walked {memory : Block} {l : Int} {labels : List (UInt8 × UInt8)}
    (walked : Walked ops memory l labels) (turns : Nat) (enough : l ≤ 2 * turns)
    (before : List (Descriptor D)) :
    ∃ parsed, parsed.map Descriptor.label = labels ∧
      Yields (descriptorLoop ops turns memory l before) (before ++ parsed) := by
  induction walked generalizing turns before with
  | stop memory l used =>
    refine ⟨[], rfl, ?_⟩
    rw [List.append_nil]
    cases turns with
    | zero => exact yields_pure before
    | succ turns => exact yields_ite_false (not_lt.mpr used) (yields_pure before)
  | next memory l tag length labels more tagAt lengthAt accepted later ih =>
    cases turns with
    | zero => omega
    | succ turns =>
      cases Option.isSome_iff_exists.mp accepted with
      | intro content parses =>
        cases ih turns (by omega) (before ++ [⟨tag, length, content⟩]) with
        | intro parsed rest =>
          refine ⟨⟨tag, length, content⟩ :: parsed, by simp [rest.1, Descriptor.label], ?_⟩
          rw [descriptorLoop]
          apply yields_ite_true more
          apply yields_read tagAt
          apply yields_allocated
          apply yields_read lengthAt
          apply yields_read parses
          rw [← List.append_cons before] at rest
          exact rest.2

theorem descriptorLoop_inside (turns : Nat) (memory : Block) (l : Int) (enough : l ≤ 2 * turns)
    (before : List (Descriptor D)) (heap : Heap) (result : List (Descriptor D) × Heap)
    (found : descriptorLoop ops turns memory l before heap = some result) :
    ∃ parsed, result.1 = before ++ parsed ∧
      Walked ops memory l (parsed.map Descriptor.label) := by
  induction turns generalizing memory l before heap with
  | zero =>
    refine ⟨[], ?_, Walked.stop memory l (by omega)⟩
    rw [← Option.some.inj found, List.append_nil]
  | succ turns ih =>
    by_cases more : 0 < l
    · rw [descriptorLoop, if_pos more] at found
      rcases lift_bind found with ⟨tag, tagAt, afterTag⟩
      have afterReserve := reserve_bind afterTag
      cases given : heap.reserve.1 with
      | false =>
        rw [given] at afterReserve
        cases afterReserve
      | true =>
        rw [given, if_pos rfl] at afterReserve
        rcases lift_bind afterReserve with ⟨length, lengthAt, afterLength⟩
        rcases lift_bind afterLength with ⟨content, parses, later⟩
        rcases ih _ _ (by omega) _ _ later with ⟨parsed, same, walked⟩
        refine ⟨⟨tag, length, content⟩ :: parsed, by simp [same], ?_⟩
        exact Walked.next memory l tag length _ more tagAt lengthAt
          (Option.isSome_iff_exists.mpr ⟨content, parses⟩) walked
    · refine ⟨[], ?_, Walked.stop memory l (not_lt.mp more)⟩
      rw [descriptorLoop, if_neg more] at found
      rw [← Option.some.inj found, List.append_nil]

theorem parseDescriptors_walked {memory : Block} {len : Nat} {labels : List (UInt8 × UInt8)}
    (walked : Walked ops memory len labels) :
    ∃ parsed, parsed.map Descriptor.label = labels ∧
      Yields (parseDescriptors ops [] memory len) parsed :=
  descriptorLoop_walked ops walked len (by omega) []

theorem parseDescriptors_inside (memory : Block) (len : Nat) (heap : Heap)
    (result : List (Descriptor D) × Heap)
    (found : parseDescriptors ops [] memory len heap = some result) :
    Walked ops memory len (result.1.map Descriptor.label) := by
  rcases descriptorLoop_inside ops len memory len (by omega) [] heap result found with
    ⟨parsed, same, walked⟩
  rwa [same]

end TsAnalyze.Tables
