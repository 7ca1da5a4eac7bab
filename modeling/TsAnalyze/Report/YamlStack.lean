import TsAnalyze.Report.Stack
import TsAnalyze.Report.YamlKeys

set_option autoImplicit false

namespace TsAnalyze.Report

open Quoted

theorem yReached_shapes (lv : Int) (key : Option CString) (jstack : Jstack) :
    shapes (yReached lv key jstack) = resolve lv key.isNone (wrap lv key.isNone (shapes jstack)) := by
  rw [yReached, yResolve_shapes]
  congr 1
  cases jstack with
  | nil => cases key <;> rfl
  | cons arr below =>
    cases key with
    | none => simp [yWraps, shapes, wrap]
    | some key =>
      by_cases wraps : arr.close = closeBracket <;>
        simp [yWraps, wraps, shapes, wrap, Jcnt.shape, wrapper]

theorem yDedupKey_shape (memory : Memory) (key ekey : CString) (m after : Jcnt)
    (deduped : yDedupKey memory key m = some (ekey, after)) : after.shape = m.shape := by
  unfold yDedupKey at deduped
  split at deduped
  · split at deduped
    · cases deduped
      rfl
    · cases deduped
  · split at deduped
    · cases deduped
      rfl
    · dsimp only at deduped
      split at deduped <;> cases deduped <;> rfl

/-- A call with a key closes so much that a further object fits. -/
theorem yAscend_room (call : Put) (levels : call.Levels) (keyed : call.key ≠ none)
    (jstack : Jstack) (levelled : Levelled (shapes jstack)) :
    (yAscend call.limit jstack).length < maxDepth - 1 := by
  have depth := (limit_depth call levels (shapes jstack) levelled).1
  have limit : call.limit = call.lv := by simp [Put.limit, keyed]
  rw [← yAscend_shapes, shapes_length, limit] at depth
  have bounds := levels.2
  rw [limit]
  unfold maxDepth
  omega

/-- What y_emit makes of the stack is what j_emit makes of it. -/
theorem yEmit_shapes (call : Put) (levels : call.Levels) (documented : call.Documented)
    (jstack after : Jstack) (line : Option Text) (levelled : Levelled (shapes jstack))
    (emitted : yEmit call.memory call.lv call.key call.value jstack = some (line, after)) :
    shapes after = call.step (shapes jstack) := by
  have reached : shapes (yReached call.lv call.key (yAscend call.limit jstack)) =
      call.reach (shapes jstack) := by
    rw [yReached_shapes, yAscend_shapes]
    rfl
  cases named : call.key with
  | none =>
    have given : call.val ≠ none := documented.resolve_left (not_not.mpr named)
    have limit : call.limit = call.lv + 1 := by simp [Put.limit, named]
    rw [named] at emitted
    rw [Put.step, if_neg given, ← reached, named, limit,
      (yEmit_unkeyed call.memory call.lv call.value jstack after line emitted).1]
    cases yAscend (call.lv + 1) jstack <;> simp [yReached, yWraps]
  | some key =>
    have limit : call.limit = call.lv := by simp [Put.limit, named]
    have keyed : call.key ≠ none := by simp [named]
    have inside := yAscend_room call levels keyed jstack levelled
    rw [named, limit] at reached
    rw [limit] at inside
    rw [named] at emitted
    obtain refused | ⟨m, below, ekey, told, stack, deduped, -, rfl⟩ :=
      yEmit_keyed call.memory call.lv key call.value jstack after line emitted
    · omega
    · have same : shapes (told :: below) = call.reach (shapes jstack) := by
        rw [← reached, stack, shapes, List.map_cons,
          yDedupKey_shape call.memory key ekey m told deduped]
        rfl
      unfold Put.step
      simp only [call.value_none]
      split
      · have room := reach_room call levels keyed (shapes jstack) levelled
        rw [← same, shapes_length] at room
        rw [push_shapes call.lv _ room, same]
      · exact same

/-- What y_dedup_key makes of the records, and which key it gives. -/
theorem yDedupKey_records (memory : Memory) (key ekey : CString) (m after : Jcnt)
    (deduped : yDedupKey memory key m = some (ekey, after)) :
    (ekey = key ∨ ∃ known ∈ m.ek, known.key = key ∧
        ekey = (key.numbered (known.count + 1)).cut bufSize) ∧
      ∀ rec ∈ after.ek, rec ∈ m.ek ∨ rec.key = key ∧
        (rec.count = 1 ∨ ∃ known ∈ m.ek, known.key = key ∧ rec.count = known.count + 1) := by
  unfold yDedupKey at deduped
  split at deduped
  · next count ek found =>
    obtain ⟨front, known, back, split, isKey, rfl, rfl⟩ := countKey_some key m.ek ek count found
    have inside : known ∈ m.ek := by simp [split]
    split at deduped
    · cases deduped
      refine ⟨Or.inr ⟨known, inside, isKey, rfl⟩, fun rec member => ?_⟩
      obtain before | rfl | behind : rec ∈ front ∨ rec = known.again ∨ rec ∈ back := by
        simpa using member
      · exact Or.inl (by simp [split, before])
      · exact Or.inr ⟨isKey, Or.inr ⟨known, inside, isKey, rfl⟩⟩
      · exact Or.inl (by simp [split, behind])
    · cases deduped
  · split at deduped
    · cases deduped
      exact ⟨Or.inl rfl, fun rec member => Or.inl member⟩
    · dsimp only at deduped
      split at deduped
      · cases deduped
        exact ⟨Or.inl rfl, fun rec member => Or.inl member⟩
      · cases deduped
        refine ⟨Or.inl rfl, fun rec member => ?_⟩
        obtain before | rfl : rec ∈ m.ek ∨ rec = ⟨key, 1⟩ := by simpa using member
        · exact Or.inl before
        · exact Or.inr ⟨rfl, Or.inl rfl⟩

/-- No key has been counted more than `n` times. -/
def Few (n : Nat) (jstack : Jstack) : Prop :=
  ∀ t ∈ jstack, ∀ rec ∈ t.ek, rec.count ≤ n

theorem Few.more {n : Nat} {jstack : Jstack} (few : Few n jstack) : Few (n + 1) jstack :=
  fun t member rec inside => (few t member rec inside).trans (Nat.le_succ n)

theorem yDedupKey_defined (memory : Memory) (key : CString) (m : Jcnt) (n : Nat)
    (few : ∀ rec ∈ m.ek, rec.count ≤ n) (small : n < intMax) :
    ∃ ekey after, yDedupKey memory key m = some (ekey, after) := by
  unfold yDedupKey
  cases found : countKey key m.ek with
  | some counted =>
    obtain ⟨count, ek⟩ := counted
    obtain ⟨front, known, back, split, -, rfl, -⟩ := countKey_some key m.ek ek count found
    have bound := few known (by simp [split])
    exact ⟨_, _, if_pos (by omega)⟩
  | none =>
    dsimp only
    split
    · exact ⟨key, m, rfl⟩
    · split
      · exact ⟨key, _, rfl⟩
      · exact ⟨key, _, rfl⟩

theorem yDedupKey_few (memory : Memory) (key ekey : CString) (m after : Jcnt) (n : Nat)
    (few : ∀ rec ∈ m.ek, rec.count ≤ n) (deduped : yDedupKey memory key m = some (ekey, after)) :
    ∀ rec ∈ after.ek, rec.count ≤ n + 1 := by
  intro rec member
  have recorded := (yDedupKey_records memory key ekey m after deduped).2 rec member
  obtain before | ⟨-, one | ⟨known, inside, -, next⟩⟩ := recorded
  · exact (few rec before).trans (Nat.le_succ n)
  · omega
  · have bound := few known inside
    omega

theorem yAscend_suffix (limit : Int) (jstack : Jstack) (root : jstack ≠ []) :
    yAscend limit jstack ≠ [] ∧ yAscend limit jstack <:+ jstack := by
  induction jstack with
  | nil => exact absurd rfl root
  | cons t below ih =>
    cases below with
    | nil => exact ⟨root, List.suffix_rfl⟩
    | cons parent below =>
      simp only [yAscend]
      split
      · exact ⟨root, List.suffix_rfl⟩
      · have closed := ih (by simp)
        exact ⟨closed.1, closed.2.trans (List.suffix_cons t _)⟩

theorem Few.resolve {n : Nat} {jstack : Jstack} (few : Few n jstack) (lv : Int) (isArr : Bool) :
    Few n (yResolve lv isArr jstack) := by
  cases jstack with
  | nil => exact few
  | cons t below =>
    obtain ⟨same, resolved, records⟩ := yResolve_cons lv isArr t below
    rw [resolved]
    intro u member
    cases member with
    | head =>
      rw [records]
      exact few t List.mem_cons_self
    | tail _ inside => exact few u (List.mem_cons_of_mem t inside)

theorem Few.reached {n : Nat} {ascended : Jstack} (few : Few n ascended) (root : ascended ≠ [])
    (lv : Int) (key : CString) :
    ∃ m below, yReached lv (some key) ascended = m :: below ∧ Few n (m :: below) := by
  have wrapped : Few n (wrapper lv :: ascended) := by
    intro t member
    cases member with
    | head => simp [wrapper]
    | tail _ inside => exact few t inside
  have resolved : Few n (yReached lv (some key) ascended) := by
    unfold yReached
    split
    · exact wrapped.resolve lv _
    · exact few.resolve lv _
  cases stack : yReached lv (some key) ascended with
  | nil =>
    have length := congrArg List.length stack
    rw [yReached, yResolve_length] at length
    split at length
    · cases length
    · exact absurd (List.eq_nil_of_length_eq_zero length) root
  | cons m below => exact ⟨m, below, rfl, stack ▸ resolved⟩

theorem Few.push {n : Nat} {jstack : Jstack} (few : Few n jstack) (lv : Int) :
    Few n (push lv jstack) := by
  unfold Report.push
  split
  · exact few
  · intro t member
    cases member with
    | head => simp [container]
    | tail _ inside => exact few t inside

/-- y_emit counts a key once more at most. -/
theorem yEmit_defined (memory : Memory) (lv : Int) (key val : Option CString) (jstack : Jstack)
    (n : Nat) (level : lv < intMax) (root : jstack ≠ []) (few : Few n jstack) (small : n < intMax) :
    ∃ line after, yEmit memory lv key val jstack = some (line, after) ∧ after ≠ [] ∧
      Few (n + 1) after := by
  cases key with
  | none =>
    have suffix := yAscend_suffix (lv + 1) jstack root
    have ascended : Few n (yAscend (lv + 1) jstack) := fun t member => few t (suffix.2.subset member)
    have unwrapped : yWraps none (yAscend (lv + 1) jstack) = false := by
      cases yAscend (lv + 1) jstack <;> simp [yWraps]
    refine ⟨some (yLine (2 * ((yAscend (lv + 1) jstack).length - 1)) true none val),
      yResolve lv true (yAscend (lv + 1) jstack), ?_, ?_, (ascended.resolve lv true).more⟩
    · simp [yEmit, minClose, level, unwrapped, yKey]
    · rw [← List.length_pos_iff, yResolve_length, List.length_pos_iff]
      exact suffix.1
  | some key =>
    have suffix := yAscend_suffix lv jstack root
    have ascended : Few n (yAscend lv jstack) := fun t member => few t (suffix.2.subset member)
    obtain ⟨m, below, reached, fewer⟩ := ascended.reached suffix.1 lv key
    have records := fewer m List.mem_cons_self
    obtain ⟨ekey, told, deduped⟩ := yDedupKey_defined memory key m n records small
    have after : Few (n + 1) (told :: below) := by
      intro t member
      cases member with
      | head => exact yDedupKey_few memory key ekey m told n records deduped
      | tail _ inside => exact fewer.more t (List.mem_cons_of_mem m inside)
    rw [yReached, Option.isNone_some] at reached
    simp only [yEmit, minClose, Option.isNone_some, Bool.false_eq_true, if_false,
      Option.bind_eq_bind, Option.bind_some, Option.pure_def]
    split
    · exact ⟨_, _, rfl, suffix.1, ascended.more⟩
    · rw [reached, yKey, deduped]
      refine ⟨_, _, rfl, ?_, ?_⟩
      · split
        · unfold push
          split <;> simp
        · simp
      · split
        · exact after.push lv
        · exact after

end TsAnalyze.Report
