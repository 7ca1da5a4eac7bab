import TsAnalyze.Shared.Heap

set_option autoImplicit false

namespace Memory

variable {A B : Type}

theorem stable_drop {reader : Block → Option A} (stable : Stable reader) (count : Nat) :
    Stable fun memory => reader (memory.drop count) := by
  intro memory behind value found
  change reader ((memory ++ behind).drop count) = some value
  rw [List.drop_append]
  exact stable _ _ value found

theorem stable_memcpy {size : Nat} (destination : Region size) (position count : Int) :
    Stable fun source => destination.memcpy position source count := by
  intro source behind value found
  have fits := (destination.memcpy_isSome position source count).mp (Option.isSome_of_eq_some found)
  have early : count.toNat ≤ source.length := by omega
  have still : 0 ≤ position ∧ 0 ≤ count ∧ position + count ≤ size ∧
      count ≤ (source ++ behind).length := by
    rw [List.length_append]
    omega
  simp only [Region.memcpy, dif_pos fits] at found
  simp only [Region.memcpy, dif_pos still, List.take_append_of_le_length early]
  exact found

theorem stable_heap_memcpy (heap : Heap) (destination : Pointer) (position : Nat) (count : Int) :
    Stable fun source => heap.memcpy destination position source count := by
  cases destination with
  | none => exact stable_pure none
  | some name =>
    cases object : heap.object name with
    | none =>
      simp only [Heap.memcpy, object, Option.bind_none]
      exact stable_pure none
    | some block =>
      simp only [Heap.memcpy, object, Option.bind_some]
      exact stable_map _ _ (stable_memcpy _ _ _)

/-- A computation on memory that finds the same whatever lies behind it. -/
def Settled (action : Block → Allocating A) : Prop :=
  ∀ heap, Stable fun memory => action memory heap

theorem settled_pure (value : Allocating A) : Settled fun _ => value :=
  fun heap => stable_pure (value heap)

theorem settled_lift {reader : Block → Option A} (stable : Stable reader) :
    Settled fun memory => (liftM (reader memory) : Allocating A) := by
  intro heap memory behind result found
  cases read : reader memory with
  | none =>
    simp only [read] at found
    cases found
  | some value =>
    simp only [read] at found
    simp only [stable memory behind value read]
    exact found

theorem settled_bind {first : Block → Allocating A} {next : A → Block → Allocating B}
    (left : Settled first) (right : ∀ value, Settled (next value)) :
    Settled fun memory => first memory >>= fun value => next value memory :=
  fun heap => stable_bind (fun memory => first memory heap)
    (fun found memory => next found.1 memory found.2) (left heap) fun found => right found.1 found.2

theorem settled_ite (condition : Prop) [Decidable condition] {first second : Block → Allocating A}
    (left : Settled first) (right : Settled second) :
    Settled fun memory => if condition then first memory else second memory := by
  by_cases holds : condition
  · simpa [holds] using left
  · simpa [holds] using right

theorem settled_drop {action : Block → Allocating A} (settled : Settled action) (count : Nat) :
    Settled fun memory => action (memory.drop count) :=
  fun heap => stable_drop (settled heap) count

end Memory
