import Mathlib

set_option autoImplicit false

namespace Runs

variable {S E : Type} (next : S → E → Option S)

/-- Holds of every state of a run, which ends where a step fails. -/
def Always (holds : S → Prop) : S → List E → Prop
  | state, [] => holds state
  | state, event :: rest =>
      holds state ∧ ∀ after, next state event = some after → Always holds after rest

/-- Holds of every step that is taken. -/
def EachStep (condition : S → E → Prop) : S → List E → Prop
  | _, [] => True
  | state, event :: rest =>
      ∀ after, next state event = some after →
        condition state event ∧ EachStep condition after rest

/-- Holds of every event that a run comes to, also of one that the step fails at. -/
def EachTry (condition : S → E → Prop) : S → List E → Prop
  | _, [] => True
  | state, event :: rest =>
      condition state event ∧ ∀ after, next state event = some after → EachTry condition after rest

variable {next} {holds : S → Prop} {condition : S → E → Prop}

theorem Always.now {state : S} {run : List E} (always : Always next holds state run) :
    holds state := by
  cases run with
  | nil => exact always
  | cons event rest => exact always.1

theorem Always.mono {weaker : S → Prop} (implies : ∀ state, holds state → weaker state)
    {state : S} {run : List E} (always : Always next holds state run) :
    Always next weaker state run := by
  induction run generalizing state with
  | nil => exact implies state always
  | cons event rest ih => exact ⟨implies state always.1, fun after taken => ih (always.2 after taken)⟩

theorem Always.of_eachStep
    (kept : ∀ state event after, holds state → condition state event →
      next state event = some after → holds after)
    (state : S) (run : List E) (start : holds state) (each : EachStep next condition state run) :
    Always next holds state run := by
  induction run generalizing state with
  | nil => exact start
  | cons event rest ih =>
    refine ⟨start, fun after taken => ?_⟩
    have now := each after taken
    exact ih after (kept state event after start now.1 taken) now.2

theorem always_iff_eachStep (invariant : S → Prop)
    (kept : ∀ state event after, invariant state → next state event = some after →
      invariant after)
    (exactly : ∀ state event after, invariant state → holds state →
      next state event = some after → (holds after ↔ condition state event))
    (state : S) (run : List E) (sound : invariant state) (start : holds state) :
    Always next holds state run ↔ EachStep next condition state run := by
  induction run generalizing state with
  | nil => exact ⟨fun _ => trivial, fun _ => start⟩
  | cons event rest ih =>
    constructor
    · rintro ⟨-, always⟩ after taken
      have later := always after taken
      have holdsAfter := later.now
      have met := (exactly state event after sound start taken).mp holdsAfter
      exact ⟨met, (ih after (kept state event after sound taken) holdsAfter).mp later⟩
    · intro each
      refine ⟨start, fun after taken => ?_⟩
      have now := each after taken
      have holdsAfter := (exactly state event after sound start taken).mpr now.1
      exact (ih after (kept state event after sound taken) holdsAfter).mpr now.2

section EachTry

variable {safe : S → E → Prop} (kept : ∀ state event after, holds state → safe state event →
  next state event = some after → holds after)
include kept

theorem Always.of_eachTry (state : S) (run : List E) (start : holds state)
    (each : EachTry next safe state run) : Always next holds state run := by
  induction run generalizing state with
  | nil => exact start
  | cons event rest ih =>
    refine ⟨start, fun after taken => ?_⟩
    exact ih after (kept state event after start each.1 taken) (each.2 after taken)

theorem eachTry_iff (exactly : ∀ state event, holds state →
      (safe state event ↔ condition state event))
    (state : S) (run : List E) (start : holds state) :
    EachTry next safe state run ↔ EachTry next condition state run := by
  induction run generalizing state with
  | nil => exact Iff.rfl
  | cons event rest ih =>
    have here := exactly state event start
    constructor
    · intro each
      refine ⟨here.mp each.1, fun after taken => ?_⟩
      exact (ih after (kept state event after start each.1 taken)).mp (each.2 after taken)
    · intro each
      have met := here.mpr each.1
      refine ⟨met, fun after taken => ?_⟩
      exact (ih after (kept state event after start met taken)).mpr (each.2 after taken)

end EachTry

end Runs
