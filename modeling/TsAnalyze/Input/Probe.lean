import TsAnalyze.Input.PacketLoop

set_option autoImplicit false

namespace TsAnalyze.Input

open Memory

-- the three tests of analyze; a test that fails ends the reads
def looksLikeHeader (buf : Block) (i : Nat) : Option Bool := do
  let first ← read8 buf i
  if first ≠ 0x47 then return false
  let second ← read8 buf (i + 1)
  if second &&& 0x80 ≠ 0 then return false
  let fourth ← read8 buf (i + 3)
  return fourth &&& 0x30 ≠ 0

structure Analysis where
  stat : Nat → Nat := fun _ => 0
  x : Nat := 0
  bestScore : Nat := 0
  -- `none` while `*index` has not been written
  index : Option Nat := none

def Analysis.hit (a : Analysis) : Analysis :=
  let stat := Function.update a.stat a.x (a.stat a.x + 1)
  if stat a.x > a.bestScore then { a with stat := stat, bestScore := stat a.x, index := some a.x }
  else { a with stat := stat }

def Analysis.next (packetSize : Nat) (a : Analysis) : Analysis :=
  { a with x := if a.x + 1 = packetSize then 0 else a.x + 1 }

def analyzeStep (packetSize : Nat) (a : Analysis) (looks : Bool) : Analysis :=
  ((if looks then a.hit else a).next packetSize)

-- `count` more rounds of the loop from position `i` on
def analyzeLoop (buf : Block) (packetSize : Nat) : Nat → Nat → Analysis → Option Analysis
  | 0, _, a => some a
  | count + 1, i, a =>
      (looksLikeHeader buf i).bind fun looks =>
        analyzeLoop buf packetSize count (i + 1) (analyzeStep packetSize a looks)

def analyze (buf : Block) (size packetSize : Nat) : Option Analysis :=
  analyzeLoop buf packetSize (size - 3) 0 {}

def checkCount : Nat := 10

def score (buf : Block) (packetSize count : Nat) : Option Nat :=
  (analyze buf (packetSize * count) packetSize).map fun a => a.bestScore * checkCount / count

def mpegtsProbe (buf : Block) (bufSize : Nat) : Option Int := do
  let count := bufSize / tsFecPacketSize
  if count < checkCount then return -1
  let tsScore ← score buf tsPacketSize count
  let dvhsScore ← score buf tsDvhsPacketSize count
  let fecScore ← score buf tsFecPacketSize count
  if tsScore > fecScore ∧ tsScore > dvhsScore ∧ tsScore > 6 then return 0
  else if dvhsScore > tsScore ∧ dvhsScore > fecScore ∧ dvhsScore > 6 then return 1
  else if fecScore > 6 then return 2
  else return -1

-- a position of known bytes that analyze takes for a header
def headerAt (bytes : List UInt8) (i : Nat) : Bool :=
  bytes.getD i 0 = 0x47 ∧ bytes.getD (i + 1) 0 &&& 0x80 = 0 ∧ bytes.getD (i + 3) 0 &&& 0x30 ≠ 0

theorem looksLikeHeader_bytes (bytes : List UInt8) (behind : Block) (i : Nat)
    (inside : i + 3 < bytes.length) :
    looksLikeHeader (ofBytes bytes ++ behind) i = some (headerAt bytes i) := by
  have read : ∀ j, j < bytes.length →
      read8 (ofBytes bytes ++ behind) j = some (bytes.getD j 0) := by
    intro j bound
    rw [read8_append_left _ _ _ (by simpa using bound), read8_ofBytes,
      List.getElem?_eq_getElem bound, List.getD_eq_getElem _ _ bound]
  simp only [looksLikeHeader, read i (by omega), read (i + 1) (by omega), read (i + 3) inside,
    Option.bind_eq_bind, Option.bind_some, Option.pure_def, headerAt]
  generalize bytes.getD i 0 = first, bytes.getD (i + 1) 0 = second, bytes.getD (i + 3) 0 = fourth
  by_cases sync : first = 0x47
  · by_cases error : second &&& 0x80 = 0
    · simp [sync, error]
    · simp [sync, error]
  · simp [sync]

theorem hit_stat (a : Analysis) : a.hit.stat = Function.update a.stat a.x (a.stat a.x + 1) := by
  simp only [Analysis.hit]
  split <;> rfl

theorem hit_best (a : Analysis) : a.hit.bestScore = max a.bestScore (a.stat a.x + 1) := by
  simp only [Analysis.hit, Function.update_self]
  split
  · rename_i better
    exact (max_eq_right (le_of_lt better)).symm
  · rename_i worse
    exact (max_eq_left (not_lt.mp worse)).symm

theorem hit_index (a : Analysis) :
    a.hit.index = if a.bestScore < a.stat a.x + 1 then some a.x else a.index := by
  simp only [Analysis.hit, Function.update_self]
  split <;> rfl

theorem hit_x (a : Analysis) : a.hit.x = a.x := by
  simp only [Analysis.hit]
  split <;> rfl

/-- The loop has seen the positions below `n` and counted them by their phase. -/
structure Tracked (looks : Nat → Bool) (packetSize n : Nat) (a : Analysis) : Prop where
  phase : a.x = n % packetSize
  stat : ∀ y, y < packetSize →
    a.stat y = Nat.count (fun i => looks i = true ∧ i % packetSize = y) n
  best : ∀ y, y < packetSize → a.stat y ≤ a.bestScore
  index : ∀ k, a.index = some k → k < packetSize ∧ a.stat k = a.bestScore
  unset : a.index = none → a.bestScore = 0

section Scan

variable (looks : Nat → Bool) (packetSize : Nat)

theorem tracked_initial : Tracked looks packetSize 0 {} :=
  ⟨(Nat.zero_mod _).symm, fun _ _ => by simp, fun _ _ => le_refl 0, by simp, fun _ => rfl⟩

variable (positive : 0 < packetSize)
include positive

theorem next_phase (n : Nat) :
    (if n % packetSize + 1 = packetSize then 0 else n % packetSize + 1) = (n + 1) % packetSize := by
  have below := Nat.mod_lt n positive
  rw [← Nat.mod_add_mod n packetSize 1]
  by_cases wraps : n % packetSize + 1 = packetSize
  · rw [if_pos wraps, wraps, Nat.mod_self]
  · rw [if_neg wraps]
    exact (Nat.mod_eq_of_lt (show n % packetSize + 1 < packetSize by omega)).symm

theorem hit_tracked (n : Nat) (a : Analysis) (tracked : Tracked looks packetSize n a)
    (here : looks n = true) : Tracked looks packetSize (n + 1) (a.hit.next packetSize) := by
  have below := Nat.mod_lt n positive
  have phase := tracked.phase
  have counted : ∀ y, y < packetSize → a.hit.stat y =
      Nat.count (fun i => looks i = true ∧ i % packetSize = y) (n + 1) := by
    intro y bound
    rw [hit_stat, Nat.count_succ, phase]
    by_cases same : y = n % packetSize
    · subst same
      simp [tracked.stat _ bound, here]
    · simp [same, Ne.symm same, tracked.stat y bound]
  refine ⟨?_, counted, ?_, ?_, ?_⟩
  · simp only [Analysis.next, hit_x, phase]
    exact next_phase packetSize positive n
  · intro y bound
    change a.hit.stat y ≤ a.hit.bestScore
    have best := tracked.best y bound
    rw [hit_stat, hit_best]
    by_cases same : y = a.x
    · subst same
      simp
    · simp [same, best]
  · intro k found
    change a.hit.index = some k at found
    change k < packetSize ∧ a.hit.stat k = a.hit.bestScore
    rw [hit_index] at found
    rw [hit_stat, hit_best]
    by_cases better : a.bestScore < a.stat a.x + 1
    · rw [if_pos better, Option.some.injEq] at found
      subst found
      rw [Function.update_self, max_eq_right (by omega), phase]
      exact ⟨below, rfl⟩
    · rw [if_neg better] at found
      rcases tracked.index k found with ⟨bound, attained⟩
      have other : k ≠ a.x := by
        rintro rfl
        omega
      rw [Function.update_of_ne other, max_eq_left (by omega)]
      exact ⟨bound, attained⟩
  · intro missing
    change a.hit.index = none at missing
    change a.hit.bestScore = 0
    rw [hit_index] at missing
    by_cases better : a.bestScore < a.stat a.x + 1
    · rw [if_pos better] at missing
      cases missing
    · rw [if_neg better] at missing
      have zero := tracked.unset missing
      omega

theorem miss_tracked (n : Nat) (a : Analysis) (tracked : Tracked looks packetSize n a)
    (here : looks n = false) : Tracked looks packetSize (n + 1) (a.next packetSize) := by
  refine ⟨?_, ?_, tracked.best, tracked.index, tracked.unset⟩
  · simp only [Analysis.next, tracked.phase]
    exact next_phase packetSize positive n
  · intro y bound
    rw [Nat.count_succ]
    simp only [here, Bool.false_eq_true, false_and, if_false, Nat.add_zero]
    exact tracked.stat y bound

theorem analyzeStep_tracked (n : Nat) (a : Analysis) (tracked : Tracked looks packetSize n a) :
    Tracked looks packetSize (n + 1) (analyzeStep packetSize a (looks n)) := by
  cases here : looks n with
  | true => exact hit_tracked _ packetSize positive n a tracked here
  | false => exact miss_tracked _ packetSize positive n a tracked here

omit positive in
theorem analyzeLoop_keeps (holds : Nat → Analysis → Prop) (bytes : List UInt8) (behind : Block)
    (step : ∀ n a, n + 3 < bytes.length → holds n a →
      holds (n + 1) (analyzeStep packetSize a (headerAt bytes n)))
    (count n : Nat) (a : Analysis) (inside : count = 0 ∨ n + count + 3 ≤ bytes.length)
    (initial : holds n a) :
    ∃ final, analyzeLoop (ofBytes bytes ++ behind) packetSize count n a = some final ∧
      holds (n + count) final := by
  induction count generalizing n a with
  | zero => exact ⟨a, rfl, initial⟩
  | succ count ih =>
    rcases ih (n + 1) _ (by omega) (step n a (by omega) initial) with ⟨final, result, ended⟩
    refine ⟨final, ?_, ?_⟩
    · rw [analyzeLoop, looksLikeHeader_bytes bytes behind n (by omega), Option.bind_some]
      exact result
    · rwa [show n + (count + 1) = n + 1 + count by omega]

/-- analyze reads only what it is given, and counts the headers of every phase. -/
theorem analyze_tracked (bytes : List UInt8) (behind : Block) (size : Nat)
    (inside : size ≤ bytes.length) :
    ∃ a, analyze (ofBytes bytes ++ behind) size packetSize = some a ∧
      Tracked (headerAt bytes) packetSize (size - 3) a := by
  have initial := tracked_initial (headerAt bytes) packetSize
  rcases analyzeLoop_keeps packetSize (Tracked (headerAt bytes) packetSize) bytes behind
    (fun n a _ => analyzeStep_tracked (headerAt bytes) packetSize positive n a)
    (size - 3) 0 {} (by omega) initial with ⟨a, result, tracked⟩
  rw [Nat.zero_add] at tracked
  exact ⟨a, result, tracked⟩

end Scan

-- the packet size of a recognised type
def tsPktlen (typ : Int) : Option Nat :=
  if typ = 0 then some tsPacketSize
  else if typ = 1 then some tsDvhsPacketSize
  else if typ = 2 then some tsFecPacketSize
  else none

theorem tsPktlen_bounds (typ : Int) (size : Nat) (known : tsPktlen typ = some size) :
    188 ≤ size ∧ size ≤ 204 := by
  unfold tsPktlen at known
  split at known
  · cases known
    decide
  · split at known
    · cases known
      decide
    · split at known
      · cases known
        decide
      · cases known

theorem mpegtsProbe_enough (buf : Block) (bufSize : Nat) (typ : Int) (size : Nat)
    (probed : mpegtsProbe buf bufSize = some typ) (known : tsPktlen typ = some size) :
    2040 ≤ bufSize := by
  by_contra few
  have short : bufSize / tsFecPacketSize < checkCount := by
    rw [tsFecPacketSize, checkCount]
    omega
  rw [mpegtsProbe, if_pos short] at probed
  cases probed
  cases known

-- what ts_process makes of `index`: start_index stays 0 unless analyze writes it
def startIndex (buf : Block) (size : Nat) : Option Nat :=
  (analyze buf (size * 2) size).map fun a => a.index.getD 0

theorem startIndex_below (bytes : List UInt8) (behind : Block) (size : Nat) (positive : 0 < size)
    (inside : size * 2 ≤ bytes.length) :
    ∃ index, startIndex (ofBytes bytes ++ behind) size = some index ∧ index < size := by
  rcases analyze_tracked size positive bytes behind (size * 2) inside with ⟨a, result, tracked⟩
  refine ⟨a.index.getD 0, by rw [startIndex, result]; rfl, ?_⟩
  cases found : a.index with
  | none => simpa using positive
  | some k => exact (tracked.index k found).1

theorem phase_count (size n y : Nat) (below : y < size) :
    Nat.count (fun i => i % size = y) n = n / size + if y < n % size then 1 else 0 := by
  have card := Nat.count_modEq_card n (show 0 < size by omega) y
  simpa only [Nat.ModEq, Nat.mod_eq_of_lt below] using card

-- the positions that analyze looks at in `count` whole packets
theorem phase_count_packets (size count y : Nat) (large : 4 ≤ size) (positive : 0 < count)
    (below : y < size) :
    Nat.count (fun i => i % size = y) (size * count - 3) =
      count - 1 + if y < size - 3 then 1 else 0 := by
  rcases Nat.exists_eq_succ_of_ne_zero (show count ≠ 0 by omega) with ⟨less, rfl⟩
  have split : size * less.succ - 3 = size * less + (size - 3) := by
    rw [Nat.mul_succ]
    omega
  rw [phase_count size _ y below, split, Nat.mul_add_div (by omega), Nat.mul_add_mod,
    Nat.div_eq_of_lt (by omega), Nat.mod_eq_of_lt (by omega)]
  rfl

-- the first phase has been counted at least as often as every other
structure Leading (looks : Nat → Bool) (packetSize n : Nat) (a : Analysis) : Prop
    extends Tracked looks packetSize n a where
  ahead : a.bestScore = a.stat 0
  chosen : 0 < n → a.index = some 0

section Aligned

variable {looks : Nat → Bool} {size : Nat}

theorem stat_zero_aligned (positive : 0 < size) (n : Nat) (a : Analysis)
    (tracked : Tracked looks size n a)
    (aligned : ∀ i, i < n → i % size = 0 → looks i = true) :
    a.stat 0 = n / size + if 0 < n % size then 1 else 0 := by
  rw [tracked.stat 0 positive, ← phase_count size n 0 positive]
  refine le_antisymm (Nat.count_mono_left fun i _ holds => holds.2) ?_
  exact Nat.count_mono_left fun i below starts => ⟨aligned i below starts, starts⟩

theorem analyzeStep_leading (positive : 0 < size) (n : Nat) (a : Analysis)
    (aligned : ∀ i, i ≤ n → i % size = 0 → looks i = true) (leading : Leading looks size n a) :
    Leading looks size (n + 1) (analyzeStep size a (looks n)) := by
  have tracked := analyzeStep_tracked looks size positive n a leading.toTracked
  have first := stat_zero_aligned positive n a leading.toTracked fun i below =>
    aligned i (by omega)
  have ahead := leading.ahead
  by_cases starts : n % size = 0
  · have here := aligned n (le_refl n) starts
    have phase : a.x = 0 := leading.phase.trans starts
    refine ⟨tracked, ?_, fun _ => ?_⟩
    · rw [here]
      change a.hit.bestScore = a.hit.stat 0
      rw [hit_best, hit_stat, phase, Function.update_self]
      omega
    · rw [here]
      change a.hit.index = some 0
      rw [hit_index, phase, if_pos (by omega)]
  · have begun : 0 < n := by
      rcases Nat.eq_zero_or_pos n with rfl | begun
      · exact absurd (Nat.zero_mod size) starts
      · exact begun
    cases here : looks n with
    | false => exact ⟨here ▸ tracked, ahead, fun _ => leading.chosen begun⟩
    | true =>
      have below := Nat.mod_lt n positive
      have behind : a.stat (n % size) ≤ n / size := by
        rw [leading.stat _ below]
        have most := phase_count size n (n % size) below
        rw [if_neg (lt_irrefl _), Nat.add_zero] at most
        rw [← most]
        exact Nat.count_mono_left fun i _ holds => holds.2
      rw [if_pos (by omega)] at first
      refine ⟨here ▸ tracked, ?_, fun _ => ?_⟩
      · change a.hit.bestScore = a.hit.stat 0
        rw [hit_best, hit_stat, leading.phase, Function.update_of_ne (Ne.symm starts)]
        omega
      · change a.hit.index = some 0
        rw [hit_index, leading.phase, if_neg (by omega)]
        exact leading.chosen begun

/-- Packets with a header at the start of each are read from the first byte on. -/
theorem startIndex_aligned (bytes : List UInt8) (behind : Block) (large : 2 ≤ size)
    (inside : size * 2 ≤ bytes.length)
    (aligned : ∀ i, i + 3 < bytes.length → i % size = 0 → headerAt bytes i = true) :
    startIndex (ofBytes bytes ++ behind) size = some 0 := by
  have initial : Leading (headerAt bytes) size 0 {} :=
    ⟨tracked_initial (headerAt bytes) size, rfl, fun begun => absurd begun (lt_irrefl 0)⟩
  rcases analyzeLoop_keeps size (Leading (headerAt bytes) size) bytes behind
    (fun n a below leading => analyzeStep_leading (by omega) n a
      (fun i upTo => aligned i (by omega)) leading)
    (size * 2 - 3) 0 {} (by omega) initial with ⟨final, result, leading⟩
  rw [startIndex, analyze, result, Option.map_some, leading.chosen (by omega)]
  rfl

end Aligned

section EvenPositions

variable (bytes : List UInt8) (behind : Block)
  (even : ∀ i, i + 3 < bytes.length → headerAt bytes i = decide (i % 2 = 0))
include even

theorem score_even (size count : Nat) (halves : size % 2 = 0) (large : 4 ≤ size)
    (positive : 0 < count) (inside : size * count ≤ bytes.length) :
    score (ofBytes bytes ++ behind) size count = some checkCount := by
  rcases analyze_tracked size (by omega) bytes behind (size * count) inside with
    ⟨a, result, tracked⟩
  have most : ∀ y, y < size → a.stat y ≤ count := by
    intro y below
    have phase := phase_count_packets size count y large positive below
    have fewer : a.stat y ≤ Nat.count (fun i => i % size = y) (size * count - 3) := by
      rw [tracked.stat y below]
      exact Nat.count_mono_left fun i _ holds => holds.2
    split at phase <;> omega
  have first : a.stat 0 = count := by
    have phase := phase_count_packets size count 0 large positive (by omega)
    rw [if_pos (by omega)] at phase
    have same : Nat.count (fun i => i % size = 0) (size * count - 3) ≤ a.stat 0 := by
      rw [tracked.stat 0 (by omega)]
      apply Nat.count_mono_left
      intro i bound here
      refine ⟨?_, here⟩
      have parity : i % 2 = 0 := by
        rw [← Nat.mod_mod_of_dvd i (Nat.dvd_of_mod_eq_zero halves), here]
      rw [even i (by omega), parity]
      rfl
    have above := most 0 (by omega)
    omega
  have best : a.bestScore = count := by
    have low := tracked.best 0 (by omega)
    cases found : a.index with
    | none =>
      have zero := tracked.unset found
      omega
    | some k =>
      rcases tracked.index k found with ⟨below, attained⟩
      have high := most k below
      omega
  rw [score, result, Option.map_some, best, Nat.mul_div_cancel_left _ positive]

theorem mpegtsProbe_even (bufSize : Nat) (enough : 2040 ≤ bufSize)
    (inside : bufSize ≤ bytes.length) :
    mpegtsProbe (ofBytes bytes ++ behind) bufSize = some 2 := by
  have count : 10 ≤ bufSize / 204 := by omega
  have rounds : ¬bufSize / tsFecPacketSize < checkCount := by
    rw [tsFecPacketSize, checkCount]
    omega
  simp only [mpegtsProbe, if_neg rounds, Option.bind_eq_bind]
  rw [score_even bytes behind even tsPacketSize _ rfl (by decide) (by unfold tsFecPacketSize; omega)
      (by unfold tsPacketSize tsFecPacketSize; omega),
    score_even bytes behind even tsDvhsPacketSize _ rfl (by decide)
      (by unfold tsFecPacketSize; omega) (by unfold tsDvhsPacketSize tsFecPacketSize; omega),
    score_even bytes behind even tsFecPacketSize _ rfl (by decide)
      (by unfold tsFecPacketSize; omega) (by unfold tsFecPacketSize; omega)]
  rfl

theorem startIndex_even (size : Nat) (halves : size % 2 = 0) (large : 2 ≤ size)
    (inside : size * 2 ≤ bytes.length) :
    startIndex (ofBytes bytes ++ behind) size = some 0 := by
  refine startIndex_aligned bytes behind large inside fun i below starts => ?_
  have parity : i % 2 = 0 := by
    rw [← Nat.mod_mod_of_dvd i (Nat.dvd_of_mod_eq_zero halves), starts]
  rw [even i below, parity]
  rfl

end EvenPositions

-- sync bytes at every second position: a stream of this kind suits all three packet sizes
def alternating (length : Nat) : List UInt8 :=
  (List.range length).map fun i => if i % 2 = 0 then 0x47 else 0x30

@[simp] theorem alternating_length (length : Nat) : (alternating length).length = length := by
  simp [alternating]

theorem alternating_even (length i : Nat) (inside : i + 3 < length) :
    headerAt (alternating length) i = decide (i % 2 = 0) := by
  have value : ∀ j, j < length →
      (alternating length).getD j 0 = if j % 2 = 0 then 0x47 else 0x30 := by
    intro j bound
    simp [alternating, bound]
  rw [headerAt, value i (by omega), value (i + 1) (by omega), value (i + 3) inside]
  rcases Nat.mod_two_eq_zero_or_one i with parity | parity
  · rw [show (i + 1) % 2 = 1 by omega, show (i + 3) % 2 = 1 by omega, parity]
    decide
  · simp [parity]

end TsAnalyze.Input
