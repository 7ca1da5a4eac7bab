import TsAnalyze.Shared.Memory

set_option autoImplicit false

namespace Memory

-- `none` is NULL
abbrev Pointer := Option Nat

-- Every allocation gets a number of its own, so a freed object is never mistaken for a new one.
structure Heap where
  object : Nat → Option Block
  next : Nat
  -- does the n-th allocation succeed?
  succeeds : Nat → Bool

namespace Heap

def allocate (heap : Heap) (block : Block) : Heap × Pointer :=
  if heap.succeeds heap.next then
    ({ heap with object := Function.update heap.object heap.next (some block),
                 next := heap.next + 1 }, some heap.next)
  else ({ heap with next := heap.next + 1 }, none)

def malloc (heap : Heap) (size : Nat) : Heap × Pointer :=
  heap.allocate (List.replicate size none)

def calloc (heap : Heap) (size : Nat) : Heap × Pointer :=
  heap.allocate (List.replicate size (some 0))

-- an allocation of an object that is modelled elsewhere: does it succeed?
def reserve (heap : Heap) : Bool × Heap :=
  (heap.succeeds heap.next, { heap with next := heap.next + 1 })

def load (heap : Heap) (pointer : Pointer) : Option Block :=
  pointer.bind heap.object

-- `none` for a second free of the same object
def free (heap : Heap) (pointer : Pointer) : Option Heap :=
  match pointer with
  | none => some heap
  | some name =>
      (heap.object name).map fun _ =>
        { heap with object := Function.update heap.object name none }

def memcpy (heap : Heap) (destination : Pointer) (position : Nat) (source : Block) (count : Int) :
    Option Heap :=
  match destination with
  | none => none
  | some name =>
      (heap.object name).bind fun block =>
        (Region.memcpy ⟨block, rfl⟩ position source count).map fun copied =>
          { heap with object := Function.update heap.object name (some copied.cells) }

def Available (heap : Heap) : Prop :=
  ∀ number, heap.succeeds number = true

def empty : Heap where
  object _ := none
  next := 0
  succeeds _ := true

theorem empty_available : empty.Available := fun _ => rfl

theorem Available.of_succeeds {heap other : Heap} (available : heap.Available)
    (same : other.succeeds = heap.succeeds) : other.Available := by
  intro number
  rw [same]
  exact available number

theorem allocate_some (heap : Heap) (block : Block) (available : heap.succeeds heap.next = true) :
    heap.allocate block =
      ({ heap with object := Function.update heap.object heap.next (some block),
                   next := heap.next + 1 }, some heap.next) := by
  simp [allocate, available]

theorem allocate_none (heap : Heap) (block : Block) (failed : (heap.allocate block).2 = none) :
    heap.succeeds heap.next = false := by
  unfold allocate at failed
  split at failed
  · cases failed
  · rename_i unavailable
    exact Bool.eq_false_iff.mpr unavailable

@[simp] theorem allocate_succeeds (heap : Heap) (block : Block) :
    (heap.allocate block).1.succeeds = heap.succeeds := by
  unfold allocate
  split <;> rfl

section Free

variable (heap freed : Heap)

theorem free_some (name : Nat) (result : heap.free (some name) = some freed) :
    freed = { heap with object := Function.update heap.object name none } := by
  rcases Option.map_eq_some_iff.mp result with ⟨block, -, rfl⟩
  rfl

theorem free_object (name : Nat) (result : heap.free (some name) = some freed) :
    freed.object name = none := by
  rw [free_some heap freed name result]
  exact Function.update_self _ _ _

variable (pointer : Pointer) (result : heap.free pointer = some freed)

include result

theorem free_succeeds : freed.succeeds = heap.succeeds := by
  cases pointer with
  | none => rw [Option.some.inj result]
  | some name => rw [free_some heap freed name result]

theorem free_next : freed.next = heap.next := by
  cases pointer with
  | none => rw [Option.some.inj result]
  | some name => rw [free_some heap freed name result]

theorem free_other (name : Nat) (different : pointer ≠ some name) :
    freed.object name = heap.object name := by
  cases pointer with
  | none => rw [Option.some.inj result]
  | some freedName =>
    have other : name ≠ freedName := fun same => different (congrArg some same.symm)
    rw [free_some heap freed freedName result]
    exact Function.update_of_ne other _ _

end Free

theorem memcpy_succeeds (heap copied : Heap) (destination : Pointer) (position : Nat)
    (source : Block) (count : Int)
    (result : heap.memcpy destination position source count = some copied) :
    copied.succeeds = heap.succeeds := by
  cases destination with
  | none => cases result
  | some name =>
    rcases Option.bind_eq_some_iff.mp result with ⟨block, -, written⟩
    rcases Option.map_eq_some_iff.mp written with ⟨region, -, rfl⟩
    rfl

-- the object at this name, if there is one, has this size
def Sized (heap : Heap) (name size : Nat) : Prop :=
  ∀ block, heap.object name = some block → block.length = size

theorem allocate_sized (heap : Heap) (block : Block) (name : Nat)
    (given : (heap.allocate block).2 = some name) :
    (heap.allocate block).1.Sized name block.length := by
  unfold allocate at given ⊢
  split at given
  · rename_i available
    obtain rfl := Option.some.inj given
    intro found same
    rw [if_pos available] at same
    simp only [Function.update_self] at same
    rw [Option.some.inj same]
  · cases given

theorem free_sized (heap freed : Heap) (pointer : Pointer) (name size : Nat)
    (result : heap.free pointer = some freed) (sized : heap.Sized name size) :
    freed.Sized name size := by
  intro block found
  by_cases same : pointer = some name
  · rw [free_object heap freed name (same ▸ result)] at found
    cases found
  · rw [free_other heap freed pointer result name same] at found
    exact sized block found

theorem memcpy_sized (heap copied : Heap) (position : Nat) (source : Block) (count : Int)
    (name size : Nat) (result : heap.memcpy (some name) position source count = some copied)
    (sized : heap.Sized name size) : copied.Sized name size := by
  rcases Option.bind_eq_some_iff.mp result with ⟨old, known, written⟩
  rcases Option.map_eq_some_iff.mp written with ⟨region, -, rfl⟩
  intro block found
  simp only [Function.update_self] at found
  rw [← Option.some.inj found, region.sized, sized old known]

theorem memcpy_found (heap : Heap) (name position count : Nat) (block source : Block)
    (found : heap.object name = some block) (room : position + count ≤ block.length)
    (enough : count ≤ source.length) :
    heap.memcpy (some name) position source count =
      some { heap with
        object := Function.update heap.object name
          (some (block.take position ++ source.take count ++ block.drop (position + count))) } := by
  rcases Region.memcpy_cells ⟨block, rfl⟩ position count source room enough with
    ⟨copied, result, cells⟩
  simp [memcpy, found, result, cells]

end Heap

/-- A computation that may reserve objects, and fail. -/
abbrev Allocating := StateT Heap Option

def reserve : Allocating Bool := fun heap => some heap.reserve

theorem lift_bind {A B : Type} {value : Option A} {next : A → Allocating B} {heap : Heap}
    {result : B × Heap} (found : ((liftM value : Allocating A) >>= next) heap = some result) :
    ∃ read, value = some read ∧ next read heap = some result := by
  cases value with
  | none => cases found
  | some read => exact ⟨read, rfl, found⟩

theorem reserve_bind {B : Type} {next : Bool → Allocating B} {heap : Heap} {result : B × Heap}
    (found : (reserve >>= next) heap = some result) :
    next heap.reserve.1 heap.reserve.2 = some result := found

-- an allocation that does not fail
theorem allocated_bind {B : Type} {first second : Allocating B} {heap : Heap} {result : B × Heap}
    (available : heap.Available)
    (found : (reserve >>= fun given => if given = true then first else second) heap =
      some result) :
    first heap.reserve.2 = some result ∧ heap.reserve.2.Available := by
  have later := reserve_bind found
  rw [show heap.reserve.1 = true from available heap.next, if_pos rfl] at later
  exact ⟨later, available.of_succeeds rfl⟩

/-- The heap decides nothing as long as no allocation fails, and keeps its objects. -/
structure Plain {A : Type} (action : Allocating A) : Prop where
  agrees : ∀ heap other : Heap, heap.Available → other.Available →
    (action heap).map Prod.fst = (action other).map Prod.fst
  supply : ∀ heap result, action heap = some result → result.2.succeeds = heap.succeeds

section Plain

variable {A B : Type}

theorem Plain.available {action : Allocating A} (plain : Plain action) (heap : Heap)
    (available : heap.Available) (result : A × Heap) (found : action heap = some result) :
    result.2.Available :=
  available.of_succeeds (plain.supply heap result found)

theorem plain_pure (value : A) : Plain (pure value : Allocating A) where
  agrees _ _ _ _ := rfl
  supply heap result found := by
    obtain rfl := Option.some.inj found
    rfl

theorem plain_lift (value : Option A) : Plain (liftM value : Allocating A) where
  agrees heap other _ _ := by
    cases value <;> rfl
  supply heap result found := by
    cases value with
    | none => cases found
    | some known =>
      obtain rfl := Option.some.inj found
      rfl

theorem plain_failure : Plain (failure : Allocating A) where
  agrees _ _ _ _ := rfl
  supply heap result found := by cases found

theorem plain_reserve : Plain reserve where
  agrees heap other available otherAvailable := by
    simp [reserve, Heap.reserve, available heap.next, otherAvailable other.next]
  supply heap result found := by
    obtain rfl := Option.some.inj found
    rfl

theorem plain_bind (first : Allocating A) (next : A → Allocating B) (left : Plain first)
    (right : ∀ value, Plain (next value)) : Plain (first >>= next) where
  agrees heap other available otherAvailable := by
    have same := left.agrees heap other available otherAvailable
    change ((first heap).bind fun found => next found.1 found.2).map Prod.fst =
      ((first other).bind fun found => next found.1 found.2).map Prod.fst
    cases found : first heap with
    | none =>
      cases otherFound : first other with
      | none => rfl
      | some result => simp [found, otherFound] at same
    | some result =>
      cases otherFound : first other with
      | none => simp [found, otherFound] at same
      | some otherResult =>
        have value : result.1 = otherResult.1 := by simpa [found, otherFound] using same
        rw [Option.bind_some, Option.bind_some, value]
        exact (right otherResult.1).agrees result.2 otherResult.2
          (left.available heap available result found)
          (left.available other otherAvailable otherResult otherFound)
  supply heap result found := by
    rcases Option.bind_eq_some_iff.mp found with ⟨middle, early, late⟩
    rw [(right middle.1).supply middle.2 result late, left.supply heap middle early]

theorem plain_ite (condition : Prop) [Decidable condition] (first second : Allocating A)
    (left : Plain first) (right : Plain second) :
    Plain (if condition then first else second) := by
  by_cases holds : condition
  · simpa [holds] using left
  · simpa [holds] using right

end Plain

end Memory
