import TsAnalyze.Scte.Splice

set_option autoImplicit false

namespace TsAnalyze.Scte

open Memory

/-- A splice descriptor: four bytes that identify its owner, and the owner's bytes. -/
structure OwnedDescriptor where
  tag : UInt8
  identifier : Nat
  bytes : List UInt8
  identifierFits : identifier < 2 ^ 32
  short : bytes.length ≤ 250

namespace OwnedDescriptor

variable (descriptor : OwnedDescriptor)

def length : Nat :=
  4 + descriptor.bytes.length

def encode : List UInt8 :=
  [descriptor.tag, UInt8.ofNat descriptor.length] ++ encode32 descriptor.identifier ++
    descriptor.bytes

/-- The node has the tag, the length and the owner's bytes. -/
structure Kept (node : SpliceDescriptor) : Prop where
  tag : node.tag = descriptor.tag
  length : node.length.toNat = descriptor.length
  data : node.data.take descriptor.bytes.length = ofBytes descriptor.bytes

theorem encode_length : descriptor.encode.length = 2 + descriptor.length := by
  simp only [encode, length, List.length_append, encode32_length, List.length_cons, List.length_nil]
  omega

end OwnedDescriptor

section Loop

/-- What `l` counts as left is never less than what is left in the memory, so the loop comes to
no end inside it. -/
theorem parseSpliceDescriptors_fails (turns : Nat) (ptr : Block) (l : Int) (more : 0 < l)
    (covered : (ptr.length : Int) ≤ l) (list : List SpliceDescriptor) (heap : Heap)
    (available : heap.Available) : parseSpliceDescriptors turns ptr l list heap = none := by
  induction turns generalizing ptr l list heap with
  | zero =>
    rw [parseSpliceDescriptors, if_pos more]
    rfl
  | succ turns ih =>
    cases found : parseSpliceDescriptors (turns + 1) ptr l list heap with
    | none => rfl
    | some result =>
      rw [parseSpliceDescriptors, if_pos more] at found
      obtain ⟨tag, -, found⟩ := lift_bind found
      obtain ⟨length, lengthRead, found⟩ := lift_bind found
      obtain ⟨found, later⟩ := allocated_bind available found
      obtain ⟨data, copying, found⟩ := lift_bind found
      have inside := (Region.memcpy_isSome _ _ _ _).mp
        (Option.isSome_iff_exists.mpr ⟨data, copying⟩)
      rw [List.length_drop] at inside
      have started : 1 < ptr.length := by
        by_contra outside
        rw [read8_none ptr 1 (by omega)] at lengthRead
        cases lengthRead
      -- six bytes more than the length are skipped, and six bytes less are counted
      rw [ih _ _ (by omega) (by simp only [List.length_drop]; omega) _ _ later] at found
      cases found

/-- With enough turns the loop reads no memory but this, and leaves a node for each descriptor. -/
def ParsesExactly (descriptors : List OwnedDescriptor) : Prop :=
  ∃ turns nodes, List.Forall₂ OwnedDescriptor.Kept descriptors nodes ∧
    Yields (parseSpliceDescriptors turns (ofBytes (descriptors.flatMap OwnedDescriptor.encode))
      (descriptors.flatMap OwnedDescriptor.encode).length []) nodes

theorem parseSpliceDescriptors_exact_iff (descriptors : List OwnedDescriptor) :
    ParsesExactly descriptors ↔ descriptors = [] := by
  constructor
  · rintro ⟨turns, nodes, -, yields⟩
    cases descriptors with
    | nil => rfl
    | cons first descriptors =>
      let bytes := (first :: descriptors).flatMap OwnedDescriptor.encode
      have more : 0 < bytes.length := by
        have size := first.encode_length
        simp only [bytes, List.flatMap_cons, List.length_append]
        omega
      obtain ⟨after, found, -⟩ := yields Heap.empty Heap.empty_available
      rw [parseSpliceDescriptors_fails turns (ofBytes bytes) bytes.length (by omega)
        (by rw [ofBytes_length]) [] Heap.empty Heap.empty_available] at found
      cases found
  · rintro rfl
    exact ⟨0, [], List.Forall₂.nil, yields_ite_false (by decide) (yields_pure _)⟩

-- an avail_descriptor
def availDescriptor : OwnedDescriptor :=
  ⟨0, 0x43554549, [0, 0, 1, 0x35], by decide, by decide⟩

-- behind its ten bytes the loop still counts eight
theorem parseSpliceDescriptors_overruns : ¬ParsesExactly [availDescriptor] := by
  rintro ⟨turns, nodes, -, yields⟩
  obtain ⟨after, found, -⟩ := yields Heap.empty Heap.empty_available
  rw [parseSpliceDescriptors_fails turns _ _ (by decide) (by decide) [] Heap.empty
    Heap.empty_available] at found
  cases found

end Loop

end TsAnalyze.Scte
