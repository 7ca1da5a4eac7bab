import TsAnalyze.Input.Probe

set_option autoImplicit false

namespace TsAnalyze.Input

open Memory

theorem same_phases (size other i j : Nat) (first : i % size = j % size)
    (second : i % other = j % other) : i % Nat.lcm size other = j % Nat.lcm size other := by
  have both : (i : Int) ≡ j [ZMOD lcm (size : Int) other] :=
    Int.modEq_and_modEq_iff_modEq_lcm.mp
      ⟨Int.natCast_modEq_iff.mpr first, Int.natCast_modEq_iff.mpr second⟩
  have same : lcm (size : Int) other = (Nat.lcm size other : Int) := by
    simp [← Int.coe_lcm]
  rw [same] at both
  exact Int.natCast_modEq_iff.mp both

-- positions that share a phase of either period lie a common multiple apart
theorem common_phase_count (size other k y n : Nat) (positive : 0 < size) (nonzero : 0 < other) :
    Nat.count (fun i => i % size = k ∧ i % other = y) n ≤ n / Nat.lcm size other + 1 := by
  by_cases some : ∃ i, i % size = k ∧ i % other = y
  · cases some with
    | intro i here =>
      have multiple : 0 < Nat.lcm size other := Nat.lcm_pos positive nonzero
      have fewer : Nat.count (fun j => j % size = k ∧ j % other = y) n ≤
          Nat.count (fun j => j % Nat.lcm size other = i % Nat.lcm size other) n := by
        apply Nat.count_mono_left
        intro j _ there
        exact same_phases size other j i (there.1.trans here.1.symm) (there.2.trans here.2.symm)
      have exact := phase_count (Nat.lcm size other) n (i % Nat.lcm size other)
        (Nat.mod_lt i multiple)
      split at exact <;> omega
  · have never : Nat.count (fun i => i % size = k ∧ i % other = y) n = 0 :=
      Nat.count_iff_forall_not.mpr fun i _ here => some ⟨i, here⟩
    simp [never]

section Periodic

variable (bytes : List UInt8) (behind : Block) (size k : Nat) (below : k < size)
  (periodic : ∀ i, i + 3 < bytes.length → (headerAt bytes i = true ↔ i % size = k))
include periodic below

theorem scan_own (n : Nat) (inside : n + 3 ≤ bytes.length) (a : Analysis)
    (tracked : Tracked (headerAt bytes) size n a) :
    a.bestScore = Nat.count (fun i => i % size = k) n := by
  have stat : a.stat k = Nat.count (fun i => i % size = k) n := by
    have same : ∀ i < n, (headerAt bytes i = true ∧ i % size = k) ↔ i % size = k :=
      fun i bound => ⟨And.right, fun here => ⟨(periodic i (by omega)).mpr here, here⟩⟩
    rw [tracked.stat k below]
    exact le_antisymm (Nat.count_mono_left fun i bound => (same i bound).mp)
      (Nat.count_mono_left fun i bound => (same i bound).mpr)
  have low := tracked.best k below
  cases found : a.index with
  | none =>
    have zero := tracked.unset found
    omega
  | some y =>
    have attained := (tracked.index y found).2
    have fewer : a.stat y ≤ Nat.count (fun i => i % size = k) n := by
      rw [tracked.stat y (tracked.index y found).1]
      exact Nat.count_mono_left fun i bound here => (periodic i (by omega)).mp here.1
    omega

theorem scan_other (other n : Nat) (nonzero : 0 < other) (inside : n + 3 ≤ bytes.length)
    (a : Analysis) (tracked : Tracked (headerAt bytes) other n a) :
    a.bestScore ≤ n / Nat.lcm size other + 1 := by
  cases found : a.index with
  | none =>
    simp [tracked.unset found]
  | some y =>
    have attained := tracked.index y found
    have fewer : a.stat y ≤ Nat.count (fun i => i % size = k ∧ i % other = y) n := by
      rw [tracked.stat y attained.1]
      exact Nat.count_mono_left fun i bound here => ⟨(periodic i (by omega)).mp here.1, here.2⟩
    have few := common_phase_count size other k y n (by omega) nonzero
    omega

theorem score_own (count : Nat) (large : 4 ≤ size) (enough : checkCount ≤ count)
    (inside : size * count ≤ bytes.length) :
    ∃ own, score (ofBytes bytes ++ behind) size count = some own ∧ 9 ≤ own := by
  cases analyze_tracked size (by omega) bytes behind (size * count) inside with
  | intro a scanned =>
    have many : 4 ≤ size * count := by
      calc 4 ≤ size := large
        _ ≤ size * count := Nat.le_mul_of_pos_right size (by rw [checkCount] at enough; omega)
    have best := scan_own bytes size k below periodic (size * count - 3) (by omega) a scanned.2
    have hits := phase_count_packets size count k large (by rw [checkCount] at enough; omega) below
    refine ⟨a.bestScore * checkCount / count, by rw [score, scanned.1, Option.map_some], ?_⟩
    have most : count - 1 ≤ a.bestScore := by omega
    rw [checkCount] at enough ⊢
    exact (Nat.le_div_iff_mul_le (by omega)).mpr (by omega)

/-- Two periods of 16 packets or more in common leave at most a hit in ten packets. -/
theorem score_other (other count : Nat) (nonzero : 0 < other)
    (sparse : other * 16 ≤ Nat.lcm size other) (enough : checkCount ≤ count)
    (inside : other * count ≤ bytes.length) :
    ∃ wrong, score (ofBytes bytes ++ behind) other count = some wrong ∧ wrong ≤ 1 := by
  cases analyze_tracked other nonzero bytes behind (other * count) inside with
  | intro a scanned =>
    rw [checkCount] at enough
    have many : 10 ≤ other * count := by
      calc 10 ≤ count := enough
        _ ≤ other * count := Nat.le_mul_of_pos_left count nonzero
    have best := scan_other bytes size k below periodic other (other * count - 3) nonzero
      (by omega) a scanned.2
    have rounds : (other * count - 3) / Nat.lcm size other ≤ count / 16 := by
      calc (other * count - 3) / Nat.lcm size other
          ≤ (other * count) / (other * 16) := Nat.div_le_div (by omega) sparse (by omega)
        _ = count / 16 := Nat.mul_div_mul_left count 16 nonzero
    refine ⟨a.bestScore * checkCount / count, by rw [score, scanned.1, Option.map_some], ?_⟩
    rw [checkCount, ← Nat.lt_succ_iff]
    exact (Nat.div_lt_iff_lt_mul (by omega)).mpr (by omega)

theorem analyze_start (large : 4 ≤ size) (inside : size * 2 ≤ bytes.length) :
    ∃ a, analyze (ofBytes bytes ++ behind) (size * 2) size = some a ∧ a.index = some k := by
  cases analyze_tracked size (by omega) bytes behind (size * 2) inside with
  | intro a scanned =>
    refine ⟨a, scanned.1, ?_⟩
    have best := scan_own bytes size k below periodic (size * 2 - 3) (by omega) a scanned.2
    have hits := phase_count_packets size 2 k large (by omega) below
    cases found : a.index with
    | none =>
      have zero := scanned.2.unset found
      omega
    | some y =>
      have attained := scanned.2.index y found
      have other : y = k := by
        by_contra differ
        have never : a.stat y = 0 := by
          rw [scanned.2.stat y attained.1]
          refine Nat.count_iff_forall_not.mpr fun i bound here => differ ?_
          exact here.2.symm.trans ((periodic i (by omega)).mp here.1)
        omega
      rw [other]

end Periodic

theorem tsPktlen_cases (typ : Int) (size : Nat) (known : tsPktlen typ = some size) :
    typ = 0 ∧ size = tsPacketSize ∨ typ = 1 ∧ size = tsDvhsPacketSize ∨
      typ = 2 ∧ size = tsFecPacketSize := by
  rw [tsPktlen] at known
  grind

theorem common_period (size other : Nat) (typ otherTyp : Int) (known : tsPktlen typ = some size)
    (second : tsPktlen otherTyp = some other) (differ : typ ≠ otherTyp) :
    other * 16 ≤ Nat.lcm size other := by
  rcases tsPktlen_cases typ size known with own | own | own <;>
    rcases tsPktlen_cases otherTyp other second with wrong | wrong | wrong <;>
    first
      | exact absurd (own.1.trans wrong.1.symm) differ
      | (rw [own.2, wrong.2]; decide)

theorem probe_periodic (bytes : List UInt8) (behind : Block) (typ : Int) (size k : Nat)
    (known : tsPktlen typ = some size) (below : k < size) (enough : 2040 ≤ bytes.length)
    (periodic : ∀ i, i + 3 < bytes.length → (headerAt bytes i = true ↔ i % size = k)) :
    mpegtsProbe (ofBytes bytes ++ behind) bytes.length = some typ ∧
      ∃ a, analyze (ofBytes bytes ++ behind) (size * 2) size = some a ∧ a.index = some k := by
  have bounds := tsPktlen_bounds typ size known
  refine ⟨?_, analyze_start bytes behind size k below periodic (by omega) (by omega)⟩
  have count : checkCount ≤ bytes.length / tsFecPacketSize := by
    rw [tsFecPacketSize, checkCount]
    omega
  have fits : ∀ t s, tsPktlen t = some s → s * (bytes.length / tsFecPacketSize) ≤ bytes.length := by
    intro t s found
    calc s * (bytes.length / tsFecPacketSize)
        ≤ tsFecPacketSize * (bytes.length / tsFecPacketSize) :=
          Nat.mul_le_mul_right _ (tsPktlen_bounds t s found).2
      _ ≤ bytes.length := Nat.mul_div_le _ _
  cases score_own bytes behind size k below periodic _ (by omega) count (fits typ size known) with
  | intro own scored =>
    have wrong : ∀ t s, tsPktlen t = some s → typ ≠ t →
        ∃ low, score (ofBytes bytes ++ behind) s (bytes.length / tsFecPacketSize) = some low ∧
          low ≤ 1 := by
      intro t s found differ
      have positive := (tsPktlen_bounds t s found).1
      exact score_other bytes behind size k below periodic s _ (by omega)
        (common_period size s typ t known found differ) count (fits t s found)
    simp only [mpegtsProbe, if_neg (not_lt.mpr count), Option.bind_eq_bind]
    -- the two other sizes score at most 1, the right one 9 or more
    rcases tsPktlen_cases typ size known with ⟨rfl, rfl⟩ | ⟨rfl, rfl⟩ | ⟨rfl, rfl⟩
    · rcases wrong 1 tsDvhsPacketSize rfl (by simp) with ⟨dvhs, dvhsScored, _⟩
      rcases wrong 2 tsFecPacketSize rfl (by simp) with ⟨fec, fecScored, _⟩
      rw [scored.1, dvhsScored, fecScored, Option.bind_some, Option.bind_some, Option.bind_some,
        if_pos (by omega), Option.pure_def]
    · rcases wrong 0 tsPacketSize rfl (by simp) with ⟨ts, tsScored, _⟩
      rcases wrong 2 tsFecPacketSize rfl (by simp) with ⟨fec, fecScored, _⟩
      rw [scored.1, tsScored, fecScored, Option.bind_some, Option.bind_some, Option.bind_some,
        if_neg (by omega), if_pos (by omega), Option.pure_def]
    · rcases wrong 0 tsPacketSize rfl (by simp) with ⟨ts, tsScored, _⟩
      rcases wrong 1 tsDvhsPacketSize rfl (by simp) with ⟨dvhs, dvhsScored, _⟩
      rw [scored.1, tsScored, dvhsScored, Option.bind_some, Option.bind_some, Option.bind_some,
        if_neg (by omega), if_neg (by omega), if_pos (by omega), Option.pure_def]

def everyPacket (size k length : Nat) : List UInt8 :=
  (List.range length).map fun i => if i % size = k then 0x47 else 0x30

theorem everyPacket_periodic (size k length i : Nat) (large : 4 ≤ size)
    (inside : i + 3 < length) :
    headerAt (everyPacket size k length) i = true ↔ i % size = k := by
  have value : ∀ j, j < length →
      (everyPacket size k length).getD j 0 = if j % size = k then 0x47 else 0x30 := by
    intro j bound
    simp [everyPacket, bound]
  rw [headerAt, value i (by omega), value (i + 1) (by omega), value (i + 3) inside]
  by_cases here : i % size = k
  · have third : (i + 3) % size ≠ k := by
      intro again
      have divides : size ∣ i + 3 - i :=
        (Nat.modEq_iff_dvd' (by omega)).mp (here.trans again.symm)
      rw [Nat.add_sub_cancel_left] at divides
      exact absurd (Nat.le_of_dvd (by omega) divides) (by omega)
    simp only [here, third, if_true, if_false, iff_true]
    split <;> decide
  · simp [here]

theorem probe_periodic_188 :
    mpegtsProbe (ofBytes (everyPacket 188 187 2040) ++ []) (everyPacket 188 187 2040).length =
        some 0 ∧
      ∃ a, analyze (ofBytes (everyPacket 188 187 2040) ++ []) (188 * 2) 188 = some a ∧
        a.index = some 187 :=
  probe_periodic _ [] 0 188 187 rfl (by decide) (by simp [everyPacket]) fun i inside =>
    everyPacket_periodic 188 187 2040 i (by decide) (by simpa [everyPacket] using inside)

end TsAnalyze.Input
