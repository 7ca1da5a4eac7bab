import TsAnalyze.Input.Probe

set_option autoImplicit false

namespace TsAnalyze.Input

open Memory

variable (looks : Nat → Bool) (packetSize : Nat)

-- the positions below `n` of one phase that look like a packet header
def phaseScore (phase n : Nat) : Nat :=
  Nat.count (fun i => looks i = true ∧ i % packetSize = phase) n

/-- The phase is the first one to be counted `best` times, as the positions below `n` are looked
at one after the other. -/
def FirstToReach (n best phase : Nat) : Prop :=
  phase < packetSize ∧ ∃ m ≤ n, phaseScore looks packetSize phase m = best ∧
    ∀ other < packetSize, ∀ j ≤ m, phaseScore looks packetSize other j = best →
      other = phase ∧ j = m

variable {looks packetSize}

theorem phaseScore_mono (phase : Nat) {j n : Nat} (earlier : j ≤ n) :
    phaseScore looks packetSize phase j ≤ phaseScore looks packetSize phase n :=
  Nat.count_monotone _ earlier

theorem phaseScore_elsewhere {phase n : Nat} (apart : phase ≠ n % packetSize) :
    phaseScore looks packetSize phase (n + 1) = phaseScore looks packetSize phase n := by
  rw [phaseScore, Nat.count_succ, if_neg (fun here => apart here.2.symm)]
  rfl

theorem FirstToReach.later {n last best phase : Nat} (first : FirstToReach looks packetSize n best phase)
    (after : n ≤ last) : FirstToReach looks packetSize last best phase := by
  obtain ⟨below, m, inside, reached, only⟩ := first
  exact ⟨below, m, inside.trans after, reached, only⟩

/-- A phase that is counted once more than the best so far is the first to get there. -/
theorem firstToReach_new {n best : Nat} (positive : 0 < packetSize)
    (bounded : ∀ phase < packetSize, phaseScore looks packetSize phase n ≤ best)
    (reached : phaseScore looks packetSize (n % packetSize) (n + 1) = best + 1) :
    FirstToReach looks packetSize (n + 1) (best + 1) (n % packetSize) := by
  refine ⟨Nat.mod_lt n positive, n + 1, le_refl _, reached, ?_⟩
  intro other below j inside equal
  have last : j = n + 1 := by
    by_contra earlier
    have before : phaseScore looks packetSize other j ≤ phaseScore looks packetSize other n :=
      phaseScore_mono other (by omega)
    have limit := bounded other below
    omega
  refine ⟨?_, last⟩
  by_contra apart
  rw [last, phaseScore_elsewhere apart] at equal
  have limit := bounded other below
  omega

-- what the loop keeps, with the phase that `*index` has
structure Scored (looks : Nat → Bool) (packetSize n : Nat) (a : Analysis) : Prop
    extends Tracked looks packetSize n a where
  first : ∀ k, a.index = some k → FirstToReach looks packetSize n a.bestScore k

theorem hit_first {n : Nat} {a : Analysis} (positive : 0 < packetSize)
    (scored : Scored looks packetSize n a) (here : looks n = true) (k : Nat)
    (index : a.hit.index = some k) :
    FirstToReach looks packetSize (n + 1) a.hit.bestScore k := by
  have below := Nat.mod_lt n positive
  have bounded : ∀ phase < packetSize, phaseScore looks packetSize phase n ≤ a.bestScore := by
    intro phase inside
    have stat := scored.stat phase inside
    rw [phaseScore, ← stat]
    exact scored.best phase inside
  have counted : a.stat a.x = phaseScore looks packetSize (n % packetSize) n := by
    rw [scored.phase]
    exact scored.stat _ below
  have added : phaseScore looks packetSize (n % packetSize) (n + 1) = a.stat a.x + 1 := by
    rw [counted, phaseScore, Nat.count_succ, if_pos ⟨here, rfl⟩]
    rfl
  have limit := scored.best _ below
  rw [← scored.phase] at limit
  rw [hit_index] at index
  rw [hit_best]
  by_cases better : a.bestScore < a.stat a.x + 1
  · rw [if_pos better] at index
    have same : a.stat a.x = a.bestScore := by omega
    rw [same] at added
    rw [← Option.some.inj index, same, max_eq_right (Nat.le_succ _), scored.phase]
    exact firstToReach_new positive bounded added
  · rw [if_neg better] at index
    rw [max_eq_left (Nat.not_lt.mp better)]
    exact (scored.first k index).later (Nat.le_succ n)

theorem analyzeStep_scored {n : Nat} {a : Analysis} (positive : 0 < packetSize)
    (scored : Scored looks packetSize n a) :
    Scored looks packetSize (n + 1) (analyzeStep packetSize a (looks n)) := by
  refine ⟨analyzeStep_tracked looks packetSize positive n a scored.toTracked, ?_⟩
  cases here : looks n with
  | true => exact hit_first positive scored here
  | false =>
    intro k index
    exact (scored.first k index).later (Nat.le_succ n)

/-- The best score is the highest score of a phase. -/
theorem scored_best {n : Nat} {a : Analysis} (scored : Scored looks packetSize n a) :
    a.bestScore = (Finset.range packetSize).sup fun phase => phaseScore looks packetSize phase n := by
  apply le_antisymm
  · cases index : a.index with
    | none =>
      rw [scored.unset index]
      exact Nat.zero_le _
    | some k =>
      obtain ⟨below, attained⟩ := scored.index k index
      rw [← attained, scored.stat k below]
      exact Finset.le_sup (f := fun phase => phaseScore looks packetSize phase n)
        (Finset.mem_range.mpr below)
  · apply Finset.sup_le
    intro phase member
    have below := Finset.mem_range.mp member
    rw [phaseScore, ← scored.stat phase below]
    exact scored.best phase below

/-- analyze returns the highest score of a phase, and leaves the phase in `*index` that has been
counted that often first. -/
theorem analyze_scores (packetSize : Nat) (positive : 0 < packetSize) (bytes : List UInt8)
    (behind : Block) (size : Nat) (inside : size ≤ bytes.length) :
    ∃ a, analyze (ofBytes bytes ++ behind) size packetSize = some a ∧
      a.bestScore = ((Finset.range packetSize).sup fun phase =>
        phaseScore (headerAt bytes) packetSize phase (size - 3)) ∧
      (0 < a.bestScore → ∃ k, a.index = some k ∧
        FirstToReach (headerAt bytes) packetSize (size - 3) a.bestScore k) := by
  have initial : Scored (headerAt bytes) packetSize 0 {} :=
    ⟨tracked_initial (headerAt bytes) packetSize, fun k none => by cases none⟩
  obtain ⟨a, result, scored⟩ := analyzeLoop_keeps packetSize (Scored (headerAt bytes) packetSize)
    bytes behind (fun n a _ => analyzeStep_scored positive) (size - 3) 0 {} (by omega) initial
  rw [Nat.zero_add] at scored
  refine ⟨a, result, scored_best scored, ?_⟩
  intro found
  cases index : a.index with
  | none =>
    have none := scored.unset index
    omega
  | some k => exact ⟨k, rfl, scored.first k index⟩

-- two headers behind one byte, in packets of four bytes
def shiftedHeaders : List UInt8 :=
  [0x00, 0x47, 0x1f, 0xff, 0x10, 0x47, 0x1f, 0xff, 0x10, 0x00]

theorem analyze_scores_shifted : ∃ a, analyze (ofBytes shiftedHeaders ++ []) 10 4 = some a ∧
    a.bestScore = ((Finset.range 4).sup fun phase =>
      phaseScore (headerAt shiftedHeaders) 4 phase 7) ∧
    (0 < a.bestScore → ∃ k, a.index = some k ∧
      FirstToReach (headerAt shiftedHeaders) 4 7 a.bestScore k) :=
  analyze_scores 4 (by decide) shiftedHeaders [] 10 (by decide)

end TsAnalyze.Input
