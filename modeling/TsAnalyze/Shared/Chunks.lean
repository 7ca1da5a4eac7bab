import Mathlib

set_option autoImplicit false

namespace Chunks

variable {A B : Type}

-- the consecutive pieces of exactly `size` elements, and what is left behind the last one
def chunks (size : Nat) (items : List A) : List (List A) :=
  (List.range (items.length / size)).map fun i => (items.drop (i * size)).take size

def remainder (size : Nat) (items : List A) : List A :=
  items.drop (items.length / size * size)

@[simp] theorem chunks_length (size : Nat) (items : List A) :
    (chunks size items).length = items.length / size := by
  simp [chunks]

theorem chunks_short (size : Nat) (items : List A) (short : items.length < size) :
    chunks size items = [] := by
  simp [chunks, Nat.div_eq_of_lt short]

theorem remainder_short (size : Nat) (items : List A) (short : items.length < size) :
    remainder size items = items := by
  simp [remainder, Nat.div_eq_of_lt short]

theorem remainder_length (size : Nat) (items : List A) :
    (remainder size items).length = items.length % size := by
  have split := Nat.div_add_mod items.length size
  rw [Nat.mul_comm] at split
  rw [remainder, List.length_drop]
  omega

theorem chunks_step (size : Nat) (items : List A) (positive : 0 < size)
    (enough : size ≤ items.length) :
    chunks size items = items.take size :: chunks size (items.drop size) := by
  have count : items.length / size = (items.drop size).length / size + 1 := by
    rw [List.length_drop, Nat.div_eq_sub_div positive enough]
  rw [chunks, count, List.range_succ_eq_map, List.map_cons, List.map_map, chunks]
  congr 1
  · simp
  · apply List.map_congr_left
    intro i _
    simp only [Function.comp_apply, List.drop_drop]
    congr 2
    rw [Nat.succ_eq_add_one, Nat.add_mul]
    omega

theorem remainder_step (size : Nat) (items : List A) (positive : 0 < size)
    (enough : size ≤ items.length) :
    remainder size items = remainder size (items.drop size) := by
  have count : items.length / size = (items.drop size).length / size + 1 := by
    rw [List.length_drop, Nat.div_eq_sub_div positive enough]
  rw [remainder, remainder, List.drop_drop, count]
  congr 1
  rw [Nat.add_mul]
  omega

theorem chunks_exact (size : Nat) (piece rest : List A) (positive : 0 < size)
    (length : piece.length = size) :
    chunks size (piece ++ rest) = piece :: chunks size rest := by
  rw [chunks_step size _ positive (by simp; omega), List.take_left' length, List.drop_left' length]

theorem remainder_exact (size : Nat) (piece rest : List A) (positive : 0 < size)
    (length : piece.length = size) :
    remainder size (piece ++ rest) = remainder size rest := by
  rw [remainder_step size _ positive (by simp; omega), List.drop_left' length]

/-- Cutting into pieces can stop at any point and go on from what was left. -/
theorem chunks_append (size : Nat) (positive : 0 < size) (early late : List A) :
    chunks size (early ++ late) = chunks size early ++ chunks size (remainder size early ++ late) ∧
      remainder size (early ++ late) = remainder size (remainder size early ++ late) := by
  generalize bound : early.length = n
  induction n using Nat.strong_induction_on generalizing early with
  | _ n ih =>
    by_cases enough : size ≤ early.length
    · have shorter : (early.drop size).length < n := by
        rw [List.length_drop]
        omega
      obtain ⟨cut, left⟩ := ih _ shorter (early.drop size) rfl
      have whole : size ≤ (early ++ late).length := by
        rw [List.length_append]
        omega
      rw [chunks_step size (early ++ late) positive whole, chunks_step size early positive enough,
        remainder_step size (early ++ late) positive whole, remainder_step size early positive enough,
        List.take_append_of_le_length enough, List.drop_append_of_le_length enough, cut, left]
      exact ⟨rfl, rfl⟩
    · rw [chunks_short size early (by omega), remainder_short size early (by omega)]
      exact ⟨rfl, rfl⟩

/-- The whole pieces in front of the remainder. -/
theorem chunks_split (size : Nat) (positive : 0 < size) (items : List A) :
    ∃ whole, items = whole ++ remainder size items ∧ chunks size whole = chunks size items ∧
      remainder size whole = [] := by
  have below := Nat.div_mul_le_self items.length size
  have length : (items.take (items.length / size * size)).length = items.length / size * size := by
    rw [List.length_take]
    omega
  have clean : remainder size (items.take (items.length / size * size)) = [] := by
    apply List.eq_nil_of_length_eq_zero
    rw [remainder_length, length, Nat.mul_mod_left]
  refine ⟨items.take (items.length / size * size), ?_, ?_, clean⟩
  · rw [remainder, List.take_append_drop]
  · rcases chunks_append size positive (items.take (items.length / size * size))
      (remainder size items) with ⟨cut, -⟩
    have short : (remainder size items).length < size := by
      rw [remainder_length]
      exact Nat.mod_lt _ positive
    rw [clean, List.nil_append, chunks_short size _ short, List.append_nil] at cut
    rw [← cut, remainder, List.take_append_drop]

-- fewer pieces are a prefix of the pieces of a longer list
theorem chunks_eq_iff (size : Nat) (positive : 0 < size) (early late : List A) :
    chunks size early = chunks size (early ++ late) ↔
      early.length / size = (early ++ late).length / size := by
  constructor
  · intro same
    simpa using congrArg List.length same
  · intro count
    obtain ⟨cut, -⟩ := chunks_append size positive early late
    have length := congrArg List.length cut
    rw [List.length_append, chunks_length, chunks_length, ← count] at length
    have empty : chunks size (remainder size early ++ late) = [] :=
      List.eq_nil_of_length_eq_zero (by omega)
    rw [cut, empty, List.append_nil]

end Chunks
