import TsAnalyze.Shared.Heap

set_option autoImplicit false

namespace TsAnalyze.Tables

open Memory

structure Descriptor (D : Type) where
  tag : UInt8
  length : UInt8
  content : D

-- des_ops: a parser is given the descriptor from its tag on; some parsers and frees assert
structure DescriptorOps (D : Type) where
  parse : UInt8 → Block → Nat → Option D
  free : UInt8 → D → Option Unit

variable {D : Type} (ops : DescriptorOps D)

-- A turn takes two bytes at least, so `len` turns leave nothing of `len` bytes.
def descriptorLoop : Nat → Block → Int → List (Descriptor D) → Allocating (List (Descriptor D))
  | 0, _, _, list => pure list
  | turns + 1, ptr, l, list =>
      if 0 < l then do
        let tag ← read8 ptr 0
        if ← reserve then
          let length ← read8 ptr 1
          let content ← ops.parse tag ptr (length.toNat + 2)
          descriptorLoop turns (ptr.drop (length.toNat + 2)) (l - (length.toNat + 2))
            (list ++ [⟨tag, length, content⟩])
        else failure
      else pure list

def parseDescriptors (list : List (Descriptor D)) (buf : Block) (len : Nat) :
    Allocating (List (Descriptor D)) :=
  descriptorLoop ops len buf len list

def freeDescriptors : List (Descriptor D) → Option Unit
  | [] => some ()
  | descriptor :: list => do
      ops.free descriptor.tag descriptor.content
      freeDescriptors list

def hasDescriptorTag (list : List (Descriptor D)) (tag : UInt8) : Bool :=
  list.any fun descriptor => descriptor.tag = tag

theorem freeDescriptors_next {A : Type} (list : List (Descriptor D)) (next : Unit → Allocating A)
    (heap : Heap) (result : A × Heap)
    (found : ((liftM (freeDescriptors ops list) : Allocating Unit) >>= next) heap = some result) :
    next () heap = some result := by
  rcases Option.bind_eq_some_iff.mp found with ⟨freed, free, later⟩
  rcases Option.bind_eq_some_iff.mp free with ⟨done, -, lifted⟩
  rw [← Option.some.inj lifted] at later
  exact later

theorem descriptorLoop_plain (turns : Nat) (ptr : Block) (l : Int) (list : List (Descriptor D)) :
    Plain (descriptorLoop ops turns ptr l list) := by
  induction turns generalizing ptr l list with
  | zero => exact plain_pure _
  | succ turns ih =>
    rw [descriptorLoop]
    apply plain_ite
    · apply plain_bind _ _ (plain_lift _)
      intro tag
      apply plain_bind _ _ plain_reserve
      intro given
      apply plain_ite
      · apply plain_bind _ _ (plain_lift _)
        intro length
        apply plain_bind _ _ (plain_lift _)
        intro content
        exact ih _ _ _
      · exact plain_failure
    · exact plain_pure _

theorem parseDescriptors_plain (list : List (Descriptor D)) (buf : Block) (len : Nat) :
    Plain (parseDescriptors ops list buf len) :=
  descriptorLoop_plain ops len buf len list

end TsAnalyze.Tables
