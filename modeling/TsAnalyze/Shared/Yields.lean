import TsAnalyze.Shared.Heap

set_option autoImplicit false

namespace Memory

/-- As long as no allocation fails the computation ends with this value. -/
def Yields {A : Type} (action : Allocating A) (value : A) : Prop :=
  ∀ heap : Heap, heap.Available →
    ∃ after, action heap = some (value, after) ∧ after.succeeds = heap.succeeds

section Yields

variable {A B : Type}

theorem yields_pure (value : A) : Yields (pure value) value :=
  fun heap _ => ⟨heap, rfl, rfl⟩

theorem yields_lift {value : Option A} {known : A} (found : value = some known) :
    Yields (liftM value) known := by
  intro heap _
  rw [found]
  exact ⟨heap, rfl, rfl⟩

theorem yields_reserve : Yields reserve true := by
  intro heap available
  exact ⟨heap.reserve.2, by simp [reserve, Heap.reserve, available heap.next], rfl⟩

theorem yields_bind {first : Allocating A} {next : A → Allocating B} {value : A} {result : B}
    (left : Yields first value) (right : Yields (next value) result) :
    Yields (first >>= next) result := by
  intro heap available
  cases left heap available with
  | intro middle early =>
    cases right middle (available.of_succeeds early.2) with
    | intro after late =>
      refine ⟨after, ?_, late.2.trans early.2⟩
      change ((first heap).bind fun found => next found.1 found.2) = some (result, after)
      rw [early.1, Option.bind_some]
      exact late.1

theorem yields_read {value : Option A} {known : A} {next : A → Allocating B} {result : B}
    (found : value = some known) (later : Yields (next known) result) :
    Yields (liftM value >>= next) result :=
  yields_bind (yields_lift found) later

-- no allocation fails
theorem yields_allocated {first second : Allocating B} {result : B}
    (later : Yields first result) :
    Yields (reserve >>= fun given => if given = true then first else second) result :=
  yields_bind yields_reserve (by simpa using later)

theorem yields_ite_true {condition : Prop} [Decidable condition] {first second : Allocating A}
    {value : A} (holds : condition) (yields : Yields first value) :
    Yields (if condition then first else second) value := by
  rwa [if_pos holds]

theorem yields_ite_false {condition : Prop} [Decidable condition] {first second : Allocating A}
    {value : A} (fails : ¬condition) (yields : Yields second value) :
    Yields (if condition then first else second) value := by
  rwa [if_neg fails]

end Yields

/-- As long as no allocation fails the computation has a result exactly under this condition. -/
structure DefinedWhen {A : Type} (action : Allocating A) (condition : Prop) : Prop where
  yields : condition → ∃ result, Yields action result
  holds : ∀ heap result, heap.Available → action heap = some result → condition

section DefinedWhen

variable {A B : Type}

theorem DefinedWhen.iff {action : Allocating A} {condition : Prop}
    (defined : DefinedWhen action condition) (heap : Heap) (available : heap.Available) :
    (action heap).isSome = true ↔ condition := by
  constructor
  · intro result
    exact defined.holds heap _ available (Option.some_get result).symm
  · intro holds
    cases defined.yields holds with
    | intro result yields =>
      cases yields heap available with
      | intro after found => rw [found.1, Option.isSome_some]

theorem definedWhen_pure (value : A) : DefinedWhen (pure value) True :=
  ⟨fun _ => ⟨value, yields_pure value⟩, fun _ _ _ _ => trivial⟩

theorem definedWhen_read {value : Option A} {known : A} {next : A → Allocating B}
    {condition : Prop} (found : value = some known)
    (later : DefinedWhen (next known) condition) :
    DefinedWhen (liftM value >>= next) condition := by
  constructor
  · intro holds
    cases later.yields holds with
    | intro result yields => exact ⟨result, yields_bind (yields_lift found) yields⟩
  · intro heap result available defined
    rcases lift_bind defined with ⟨read, same, after⟩
    rw [found] at same
    obtain rfl := Option.some.inj same
    exact later.holds heap result available after

theorem definedWhen_reserve {next : Bool → Allocating B} {condition : Prop}
    (later : DefinedWhen (next true) condition) : DefinedWhen (reserve >>= next) condition := by
  constructor
  · intro holds
    cases later.yields holds with
    | intro result yields => exact ⟨result, yields_bind yields_reserve yields⟩
  · intro heap result available found
    have after := reserve_bind found
    rw [show heap.reserve.1 = true from available heap.next] at after
    exact later.holds heap.reserve.2 result (available.of_succeeds rfl) after

-- a read that may fail
theorem definedWhen_guard {value : Option A} {next : A → Allocating B} {early late : Prop}
    (inside : (∃ known, value = some known) ↔ early)
    (later : ∀ known, value = some known → DefinedWhen (next known) late) :
    DefinedWhen (liftM value >>= next) (early ∧ late) := by
  constructor
  · intro both
    cases inside.mpr both.1 with
    | intro known found =>
      cases (later known found).yields both.2 with
      | intro result yields => exact ⟨result, yields_bind (yields_lift found) yields⟩
  · intro heap result available defined
    rcases lift_bind defined with ⟨known, found, after⟩
    exact ⟨inside.mp ⟨known, found⟩, (later known found).holds heap result available after⟩

theorem definedWhen_bind {first : Allocating A} {next : A → Allocating B} {early late : Prop}
    (plain : Plain first) (left : DefinedWhen first early)
    (right : ∀ value, (∃ heap after, first heap = some (value, after)) →
      DefinedWhen (next value) late) :
    DefinedWhen (first >>= next) (early ∧ late) := by
  constructor
  · intro both
    cases left.yields both.1 with
    | intro value yields =>
      cases yields Heap.empty Heap.empty_available with
      | intro after found =>
        cases (right value ⟨Heap.empty, after, found.1⟩).yields both.2 with
        | intro result later => exact ⟨result, yields_bind yields later⟩
  · intro heap result available defined
    rcases Option.bind_eq_some_iff.mp defined with ⟨middle, found, after⟩
    exact ⟨left.holds heap middle available found, (right middle.1 ⟨heap, middle.2, found⟩).holds
      middle.2 result (plain.available heap available middle found) after⟩

theorem definedWhen_last {first : Allocating A} {next : A → Allocating B} {condition : Prop}
    (plain : Plain first) (left : DefinedWhen first condition)
    (right : ∀ value, DefinedWhen (next value) True) :
    DefinedWhen (first >>= next) condition := by
  have both := definedWhen_bind plain left fun value _ => right value
  rwa [and_true] at both

theorem DefinedWhen.imp {action : Allocating A} {condition other : Prop}
    (defined : DefinedWhen action condition) (same : condition ↔ other) :
    DefinedWhen action other :=
  ⟨fun holds => defined.yields (same.mpr holds),
    fun heap result available found => same.mp (defined.holds heap result available found)⟩

end DefinedWhen

end Memory
