import TsAnalyze.Report.Emitter

set_option autoImplicit false

namespace TsAnalyze.Report

open Quoted

/-- What the emitters share of an entry of the stack. -/
structure Shape where
  lv : Int
  childLv : Int
  close : UInt8
deriving DecidableEq

def Jcnt.shape (t : Jcnt) : Shape :=
  ⟨t.lv, t.childLv, t.close⟩

def shapes (jstack : Jstack) : List Shape :=
  jstack.map Jcnt.shape

@[simp] theorem shapes_length (jstack : Jstack) : (shapes jstack).length = jstack.length :=
  List.length_map _

def ascend (limit : Int) : List Shape → List Shape
  | t :: parent :: below =>
      if t.lv < limit then t :: parent :: below else ascend limit (parent :: below)
  | stack => stack

def wrap (lv : Int) (isArrayElement : Bool) : List Shape → List Shape
  | [] => []
  | arr :: below =>
      if isArrayElement = false ∧ arr.close = closeBracket then
        ⟨lv, lv, closeBrace⟩ :: arr :: below
      else arr :: below

def resolve (lv : Int) (isArrayElement : Bool) : List Shape → List Shape
  | t :: parent :: below =>
      if t.childLv < 0 then
        ⟨t.lv, lv, if isArrayElement then closeBracket else closeBrace⟩ :: parent :: below
      else t :: parent :: below
  | stack => stack

-- A keyed call closes what has its own level, an item does not.
def Put.limit (call : Put) : Int :=
  if call.key.isNone then call.lv + 1 else call.lv

def Put.reach (call : Put) (stack : List Shape) : List Shape :=
  resolve call.lv call.key.isNone (wrap call.lv call.key.isNone (ascend call.limit stack))

/-- The one stack machine that both emitters run. -/
def Put.step (call : Put) (stack : List Shape) : List Shape :=
  if call.val = none then ⟨call.lv, -1, 0⟩ :: call.reach stack else call.reach stack

/-- The levels that the callers use. -/
def Put.Levels (call : Put) : Prop :=
  0 ≤ call.lv ∧ call.lv ≤ 14

/-- A container is opened, or there is a value. -/
def Put.Documented (call : Put) : Prop :=
  call.key ≠ none ∨ call.val ≠ none

-- At most two containers are open on a level, a keyed one and the object of an array it is in.
def Levelled : List Shape → Prop
  | [] => False
  | [root] => -1 ≤ root.lv
  | t :: parent :: below => (below.length : Int) + 1 ≤ 2 * t.lv + 2 ∧ Levelled (parent :: below)

theorem ascend_levelled (limit : Int) (stack : List Shape) (levelled : Levelled stack)
    (nonnegative : 0 ≤ limit) :
    Levelled (ascend limit stack) ∧ ((ascend limit stack).length : Int) ≤ 2 * limit + 1 := by
  induction stack with
  | nil => exact levelled.elim
  | cons t below ih =>
    cases below with
    | nil =>
      refine ⟨levelled, ?_⟩
      simp [ascend]
      omega
    | cons parent below =>
      simp only [ascend]
      split
      · have depth := levelled.1
        refine ⟨levelled, ?_⟩
        simp only [List.length_cons]
        omega
      · exact ih levelled.2

theorem wrap_levelled (lv : Int) (isArrayElement : Bool) (stack : List Shape)
    (levelled : Levelled stack)
    (room : isArrayElement = false → (stack.length : Int) ≤ 2 * lv + 1) :
    Levelled (wrap lv isArrayElement stack) ∧
      (isArrayElement = false → ((wrap lv isArrayElement stack).length : Int) ≤ 2 * lv + 2) := by
  cases stack with
  | nil => exact levelled.elim
  | cons arr below =>
    simp only [wrap]
    split
    · next wraps =>
      have depth := room wraps.1
      simp only [List.length_cons] at depth ⊢
      refine ⟨⟨?_, levelled⟩, fun _ => ?_⟩
      · dsimp only
        omega
      · omega
    · refine ⟨levelled, fun keyed => ?_⟩
      have depth := room keyed
      omega

theorem resolve_length (lv : Int) (isArrayElement : Bool) (stack : List Shape) :
    (resolve lv isArrayElement stack).length = stack.length := by
  unfold resolve
  split
  · split <;> rfl
  · rfl

theorem resolve_levelled (lv : Int) (isArrayElement : Bool) (stack : List Shape)
    (levelled : Levelled stack) : Levelled (resolve lv isArrayElement stack) := by
  unfold resolve
  split
  · split
    · exact levelled
    · exact levelled
  · exact levelled

section Call

variable (call : Put) (levels : call.Levels) (stack : List Shape) (levelled : Levelled stack)

include levels levelled

theorem limit_depth : ((ascend call.limit stack).length : Int) ≤ 2 * call.limit + 1 ∧
    (ascend call.limit stack).length < maxDepth := by
  have nonnegative : 0 ≤ call.limit ∧ call.limit ≤ 15 := by
    have bounds := levels
    unfold Put.Levels at bounds
    unfold Put.limit
    split <;> omega
  have depth := (ascend_levelled call.limit stack levelled nonnegative.1).2
  refine ⟨depth, ?_⟩
  unfold maxDepth
  omega

theorem reach_levelled : Levelled (call.reach stack) ∧
    (call.key ≠ none → ((call.reach stack).length : Int) ≤ 2 * call.lv + 2) := by
  have nonnegative : 0 ≤ call.limit := by
    have bounds := levels.1
    unfold Put.limit
    split <;> omega
  have ascended := ascend_levelled call.limit stack levelled nonnegative
  have wrapped := wrap_levelled call.lv call.key.isNone (ascend call.limit stack) ascended.1 (by
    intro keyed
    have limit : call.limit = call.lv := by simp [Put.limit, keyed]
    have depth := ascended.2
    rwa [limit] at depth ⊢)
  refine ⟨resolve_levelled _ _ _ wrapped.1, fun keyed => ?_⟩
  rw [Put.reach, resolve_length]
  exact wrapped.2 (Option.isNone_eq_false_iff.mpr (Option.isSome_iff_ne_none.mpr keyed))

theorem step_levelled (documented : call.Documented) : Levelled (call.step stack) := by
  have reached := reach_levelled call levels stack levelled
  unfold Put.step
  split
  · next opens =>
    have keyed : call.key ≠ none := documented.resolve_right (not_not.mpr opens)
    have depth := reached.2 keyed
    cases inner : call.reach stack with
    | nil => exact (inner ▸ reached.1).elim
    | cons t below =>
      rw [inner, List.length_cons] at depth
      refine ⟨?_, inner ▸ reached.1⟩
      dsimp only
      omega
  · exact reached.1

end Call

theorem jAscend_shapes (limit : Int) (jstack : Jstack) :
    shapes (jAscend limit jstack).2 = ascend limit (shapes jstack) := by
  induction jstack with
  | nil => rfl
  | cons t below ih =>
    cases below with
    | nil => rfl
    | cons parent below =>
      simp only [jAscend, shapes, List.map_cons, ascend, Jcnt.shape] at ih ⊢
      split
      · rfl
      · exact ih

theorem yAscend_shapes (limit : Int) (jstack : Jstack) :
    shapes (yAscend limit jstack) = ascend limit (shapes jstack) := by
  induction jstack with
  | nil => rfl
  | cons t below ih =>
    cases below with
    | nil => rfl
    | cons parent below =>
      simp only [yAscend, shapes, List.map_cons, ascend, Jcnt.shape] at ih ⊢
      split
      · rfl
      · exact ih

theorem jWrap_shapes (lv : Int) (isArrayElement : Bool) (jstack : Jstack)
    (room : jstack.length < maxDepth) :
    ∃ text after, jWrap lv isArrayElement jstack = some (text, after) ∧
      shapes after = wrap lv isArrayElement (shapes jstack) := by
  cases jstack with
  | nil => exact ⟨[], [], rfl, rfl⟩
  | cons arr below =>
    have inside : below.length + 1 < maxDepth := room
    by_cases wraps : isArrayElement = false ∧ arr.close = closeBracket
    · exact ⟨_, _, by rw [jWrap, if_pos wraps, if_pos inside],
        by simp [shapes, wrap, Jcnt.shape, wrapper, wraps]⟩
    · exact ⟨_, _, by rw [jWrap, if_neg wraps], by simp [shapes, wrap, Jcnt.shape, wraps]⟩

theorem jResolve_shapes (lv : Int) (isArrayElement : Bool) (jstack : Jstack) :
    shapes (jResolve lv isArrayElement jstack).2 = resolve lv isArrayElement (shapes jstack) := by
  unfold jResolve
  split
  · simp only [shapes, List.map_cons, resolve, Jcnt.shape, resolved]
    split <;> rfl
  · next other =>
    cases jstack with
    | nil => rfl
    | cons t below =>
      cases below with
      | nil => rfl
      | cons parent below => exact absurd rfl (other t parent below)

theorem yResolve_shapes (lv : Int) (isArr : Bool) (jstack : Jstack) :
    shapes (yResolve lv isArr jstack) = resolve lv isArr (shapes jstack) := by
  unfold yResolve
  split
  · simp only [shapes, List.map_cons, resolve, Jcnt.shape]
    split <;> rfl
  · next other =>
    cases jstack with
    | nil => rfl
    | cons t below =>
      cases below with
      | nil => rfl
      | cons parent below => exact absurd rfl (other t parent below)

theorem minClose_limit (call : Put) (levels : call.Levels) :
    minClose call.lv call.key.isNone = some call.limit := by
  have bounds := levels
  unfold Put.Levels at bounds
  unfold minClose Put.limit
  split
  · rw [if_pos (by unfold intMax; omega)]
  · rfl

theorem jAscend_room (call : Put) (levels : call.Levels) (jstack : Jstack)
    (levelled : Levelled (shapes jstack)) :
    (jAscend call.limit jstack).2.length < maxDepth := by
  have depth := (limit_depth call levels (shapes jstack) levelled).2
  rwa [← jAscend_shapes, shapes_length] at depth

theorem jPrelude_shapes (call : Put) (levels : call.Levels) (jstack : Jstack)
    (levelled : Levelled (shapes jstack)) :
    ∃ text after, jPrelude call.lv call.key.isNone jstack = some (text, after) ∧
      shapes after = call.reach (shapes jstack) := by
  obtain ⟨text, wrapped, wraps, shape⟩ := jWrap_shapes call.lv call.key.isNone
    (jAscend call.limit jstack).2 (jAscend_room call levels jstack levelled)
  have reached : shapes (jResolve call.lv call.key.isNone wrapped).2 =
      call.reach (shapes jstack) := by
    rw [jResolve_shapes, shape, jAscend_shapes]
    rfl
  cases stack : (jResolve call.lv call.key.isNone wrapped).2 with
  | nil =>
    rw [stack] at reached
    exact (reached ▸ (reach_levelled call levels (shapes jstack) levelled).1).elim
  | cons t below =>
    rw [stack] at reached
    refine ⟨(jAscend call.limit jstack).1 ++ text ++
      (jResolve call.lv call.key.isNone wrapped).1 ++ separator (below.length + 1) t,
      { t with hasChild := true } :: below, ?_, reached⟩
    simp only [jPrelude, minClose_limit call levels, Option.bind_eq_bind, Option.bind_some, wraps,
      stack, jChild, Option.pure_def]

theorem Put.value_none (call : Put) : call.value = none ↔ call.val = none := by
  simp [Put.value]

theorem push_shapes (lv : Int) (jstack : Jstack) (room : jstack.length < maxDepth) :
    shapes (push lv jstack) = ⟨lv, -1, 0⟩ :: shapes jstack := by
  rw [push, if_neg (Nat.not_le.mpr room)]
  rfl

theorem reach_room (call : Put) (levels : call.Levels) (keyed : call.key ≠ none)
    (stack : List Shape) (levelled : Levelled stack) : (call.reach stack).length < maxDepth := by
  have depth := (reach_levelled call levels stack levelled).2 keyed
  have bound := levels.2
  unfold maxDepth
  omega

/-- What j_emit makes of the stack. -/
theorem jEmit_shapes (call : Put) (levels : call.Levels) (documented : call.Documented)
    (jstack : Jstack) (levelled : Levelled (shapes jstack)) :
    ∃ text after, jEmit call.lv call.key call.value jstack = some (text, after) ∧
      shapes after = call.step (shapes jstack) := by
  obtain ⟨text, after, prelude, reached⟩ := jPrelude_shapes call levels jstack levelled
  unfold Put.step
  cases valued : call.value with
  | some val =>
    have given : call.val ≠ none := fun none => by simp [Put.value, none] at valued
    rw [if_neg given]
    exact ⟨_, after, by rw [jEmit_value, prelude]; rfl, reached⟩
  | none =>
    have opens := call.value_none.mp valued
    have keyed : call.key ≠ none := documented.resolve_right (not_not.mpr opens)
    have room := reach_room call levels keyed (shapes jstack) levelled
    rw [← reached, shapes_length] at room
    rw [if_pos opens, ← reached, ← push_shapes call.lv after room]
    cases named : call.key with
    | none => exact absurd named keyed
    | some key =>
      rw [named] at prelude
      exact ⟨_, _, by rw [jEmit_open]; exact congrArg (Option.bind · _) prelude, rfl⟩

theorem jEmit_levelled (call : Put) (levels : call.Levels) (jstack after : Jstack) (text : Text)
    (levelled : Levelled (shapes jstack))
    (emitted : jEmit call.lv call.key call.value jstack = some (text, after)) :
    Levelled (shapes after) := by
  by_cases documented : call.Documented
  · obtain ⟨_, _, again, reached⟩ := jEmit_shapes call levels documented jstack levelled
    cases emitted.symm.trans again
    rw [reached]
    exact step_levelled call levels (shapes jstack) levelled documented
  · have nothing : call.key = none ∧ call.val = none := by
      simpa [Put.Documented] using documented
    rw [call.value_none.mpr nothing.2, nothing.1] at emitted
    cases emitted
    exact levelled

end TsAnalyze.Report
