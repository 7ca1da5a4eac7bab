import Mathlib

set_option autoImplicit false

namespace Keyed

variable {K S E O : Type}

-- `none` is a step that has no defined outcome; it ends the run.
def run (step : S → E → Option (S × O)) : S → List E → Option (S × List O)
  | state, [] => some (state, [])
  | state, event :: rest => do
      let (next, output) ← step state event
      let (final, outputs) ← run step next rest
      return (final, output :: outputs)

@[simp] theorem run_nil (step : S → E → Option (S × O)) (state : S) :
    run step state [] = some (state, []) := rfl

theorem run_cons (step : S → E → Option (S × O)) (state next final : S) (event : E)
    (rest : List E) (output : O) (outputs : List O)
    (first : step state event = some (next, output))
    (later : run step next rest = some (final, outputs)) :
    run step state (event :: rest) = some (final, output :: outputs) := by
  simp [run, first, later]

theorem run_cons_inv (step : S → E → Option (S × O)) (state final : S) (event : E)
    (rest : List E) (outputs : List O)
    (result : run step state (event :: rest) = some (final, outputs)) :
    ∃ next output later, step state event = some (next, output) ∧
      run step next rest = some (final, later) ∧ outputs = output :: later := by
  simp only [run, Option.bind_eq_bind, Option.bind_eq_some_iff, Option.pure_def, Option.some.injEq,
    Prod.mk.injEq] at result
  obtain ⟨⟨next, output⟩, first, ⟨last, later⟩, rest, rfl, rfl⟩ := result
  exact ⟨next, output, later, first, rest, rfl⟩

theorem run_append (step : S → E → Option (S × O)) (state middle final : S)
    (early late : List E) (earlyOutputs lateOutputs : List O)
    (first : run step state early = some (middle, earlyOutputs))
    (second : run step middle late = some (final, lateOutputs)) :
    run step state (early ++ late) = some (final, earlyOutputs ++ lateOutputs) := by
  induction early generalizing state earlyOutputs with
  | nil =>
    obtain ⟨rfl, rfl⟩ : state = middle ∧ [] = earlyOutputs := by simpa using first
    simpa using second
  | cons event rest ih =>
    obtain ⟨next, output, later, here, there, rfl⟩ := run_cons_inv _ _ _ _ _ _ first
    exact run_cons _ _ _ _ _ _ _ _ here (ih next later there)

theorem run_append_inv (step : S → E → Option (S × O)) (state final : S)
    (early late : List E) (outputs : List O)
    (result : run step state (early ++ late) = some (final, outputs)) :
    ∃ middle earlyOutputs lateOutputs, run step state early = some (middle, earlyOutputs) ∧
      run step middle late = some (final, lateOutputs) ∧
      outputs = earlyOutputs ++ lateOutputs := by
  induction early generalizing state outputs with
  | nil => exact ⟨state, [], outputs, rfl, by simpa using result, rfl⟩
  | cons event rest ih =>
    obtain ⟨next, output, later, here, there, rfl⟩ := run_cons_inv _ _ _ _ _ _ result
    obtain ⟨middle, earlyOutputs, lateOutputs, first, second, rfl⟩ := ih next later there
    exact ⟨middle, output :: earlyOutputs, lateOutputs,
      run_cons _ _ _ _ _ _ _ _ here first, second, rfl⟩

theorem run_length (step : S → E → Option (S × O)) (state final : S) (events : List E)
    (outputs : List O) (result : run step state events = some (final, outputs)) :
    outputs.length = events.length := by
  induction events generalizing state outputs with
  | nil => simp_all
  | cons event rest ih =>
    obtain ⟨next, output, later, -, there, rfl⟩ := run_cons_inv _ _ _ _ _ _ result
    simp [ih next later there]

section Simulation

variable {A : Type}

-- runs of a specification that is a relation
inductive Follows (specified : A → E → O → A → Prop) : A → List E → List O → A → Prop
  | nil (state : A) : Follows specified state [] [] state
  | cons {state next final : A} {event : E} {output : O} {rest : List E} {outputs : List O}
      (first : specified state event output next)
      (later : Follows specified next rest outputs final) :
      Follows specified state (event :: rest) (output :: outputs) final

/-- Where every specified step is taken, so is every specified run. -/
theorem run_follows (step : S → E → Option (S × O)) (specified : A → E → O → A → Prop)
    (related : S → A → Prop)
    (matched : ∀ state spec event output next, related state spec →
      specified spec event output next →
      ∃ after, step state event = some (after, output) ∧ related after next)
    {spec final : A} {events : List E} {outputs : List O}
    (follows : Follows specified spec events outputs final) (state : S)
    (start : related state spec) :
    ∃ last, run step state events = some (last, outputs) ∧ related last final := by
  induction follows generalizing state with
  | nil => exact ⟨state, rfl, start⟩
  | cons first later ih =>
    obtain ⟨after, taken, next⟩ := matched _ _ _ _ _ start first
    obtain ⟨last, ran, ends⟩ := ih after next
    exact ⟨last, run_cons _ _ _ _ _ _ _ _ taken ran, ends⟩

end Simulation

section Interleaving

variable [DecidableEq K]

-- One automaton per key; an event reaches the automaton of its own key only.
def stepKey (step : S → E → Option (S × O)) (states : K → S) (event : K × E) :
    Option ((K → S) × (K × O)) := do
  let (next, output) ← step (states event.1) event.2
  return (Function.update states event.1 next, (event.1, output))

def project {A : Type} (key : K) (entries : List (K × A)) : List A :=
  entries.filterMap fun entry => if entry.1 = key then some entry.2 else none

@[simp] theorem project_nil {A : Type} (key : K) : project key ([] : List (K × A)) = [] := rfl

@[simp] theorem project_cons_same {A : Type} (key : K) (value : A) (rest : List (K × A)) :
    project key ((key, value) :: rest) = value :: project key rest := by
  simp [project]

theorem project_cons_other {A : Type} (key other : K) (value : A) (rest : List (K × A))
    (different : other ≠ key) : project key ((other, value) :: rest) = project key rest := by
  simp [project, different]

/-- Runs of the separate automata combine into a run over any interleaving of their events. -/
theorem run_interleaved (step : S → E → Option (S × O)) (states : K → S) (events : List (K × E))
    (finals : K → S) (outputs : K → List O)
    (separate : ∀ key, run step (states key) (project key events) =
      some (finals key, outputs key)) :
    ∃ merged, run (stepKey step) states events = some (finals, merged) ∧
      merged.map Prod.fst = events.map Prod.fst ∧ ∀ key, project key merged = outputs key := by
  induction events generalizing states outputs with
  | nil =>
    have same : ∀ key, states key = finals key ∧ [] = outputs key := by
      intro key
      simpa using separate key
    refine ⟨[], ?_, rfl, fun key => (same key).2⟩
    rw [run_nil, show states = finals from funext fun key => (same key).1]
  | cons event rest ih =>
    obtain ⟨here, event⟩ := event
    have own := separate here
    rw [project_cons_same] at own
    obtain ⟨next, output, later, stepped, remaining, produced⟩ := run_cons_inv _ _ _ _ _ _ own
    have after : ∀ key, run step (Function.update states here next key) (project key rest) =
        some (finals key, Function.update outputs here later key) := by
      intro key
      by_cases same : key = here
      · subst same
        simpa using remaining
      · have unchanged := separate key
        rw [project_cons_other _ _ _ _ (Ne.symm same)] at unchanged
        simpa [same] using unchanged
    obtain ⟨merged, ran, keys, projected⟩ := ih _ _ after
    refine ⟨(here, output) :: merged, ?_, by simp [keys], ?_⟩
    · exact run_cons _ _ _ _ _ _ _ _ (by simp [stepKey, stepped]) ran
    · intro key
      by_cases same : key = here
      · subst same
        simp [projected, produced]
      · simp [project_cons_other _ _ _ _ (Ne.symm same), projected, same]

end Interleaving

end Keyed
