import Mathlib

set_option autoImplicit false

namespace Rle8

/-- The pixels of one row of an 8-bit run-length encoded bitmap. A count of 0 is followed by the
number of pixels that stand for themselves, filled up to a whole number of words; the escapes
that end the row, end the bitmap or move on within it are no part of a row. -/
def decode : List UInt8 → Option (List UInt8)
  | [] => some []
  | [_] => none
  | count :: pixel :: rest =>
      if count ≠ 0 then (decode rest).map (List.replicate count.toNat pixel ++ ·)
      else if pixel.toNat < 3 ∨ rest.length < pixel.toNat + pixel.toNat % 2 then none
      else (decode (rest.drop (pixel.toNat + pixel.toNat % 2))).map
        (rest.take pixel.toNat ++ ·)
termination_by bytes => bytes.length
decreasing_by
  all_goals
    simp only [List.length_cons, List.length_drop]
    omega

section Decode

@[simp] theorem decode_nil : decode [] = some [] := by
  rw [decode]

@[simp] theorem decode_single (byte : UInt8) : decode [byte] = none := by
  rw [decode]

theorem decode_run {count : UInt8} (some : count ≠ 0) (pixel : UInt8) (rest : List UInt8) :
    decode (count :: pixel :: rest) =
      (decode rest).map (List.replicate count.toNat pixel ++ ·) := by
  rw [decode, if_pos some]

-- as many pixels as the count says, and the byte that fills the last word up
theorem decode_absolute (pixels fill rest : List UInt8) (count : UInt8)
    (counted : count.toNat = pixels.length) (many : 3 ≤ pixels.length)
    (filled : fill.length = pixels.length % 2) :
    decode (0 :: count :: (pixels ++ fill ++ rest)) = (decode rest).map (pixels ++ ·) := by
  have enough : ¬(count.toNat < 3 ∨
      (pixels ++ fill ++ rest).length < count.toNat + count.toNat % 2) := by
    simp only [List.length_append, counted, filled]
    omega
  have behind : (pixels ++ fill ++ rest).drop (count.toNat + count.toNat % 2) = rest := by
    apply List.drop_left'
    rw [List.length_append, counted, filled]
  have here : (pixels ++ fill ++ rest).take count.toNat = pixels := by
    rw [List.append_assoc, List.take_left' counted.symm]
  rw [decode, if_neg (by simp), if_neg enough, behind, here]

theorem decode_escape {pixel : UInt8} (few : pixel.toNat < 3) (rest : List UInt8) :
    decode (0 :: pixel :: rest) = none := by
  rw [decode, if_neg (by simp), if_pos (Or.inl few)]

/-- What decodes on its own decodes in front of anything. -/
theorem decode_append {first pixels : List UInt8} (decoded : decode first = some pixels)
    (rest : List UInt8) : decode (first ++ rest) = (decode rest).map (pixels ++ ·) := by
  induction first using decode.induct generalizing pixels with
  | case1 =>
    rw [decode_nil, Option.some.injEq] at decoded
    rw [← decoded, List.nil_append]
    cases decode rest <;> rfl
  | case2 byte =>
    rw [decode_single] at decoded
    cases decoded
  | case3 count pixel later counted ih =>
    rw [decode_run counted] at decoded
    obtain ⟨behind, found, rfl⟩ := Option.map_eq_some_iff.mp decoded
    rw [List.cons_append, List.cons_append, decode_run counted, ih found, Option.map_map]
    congr 1
    funext others
    simp
  | case4 count pixel later counted bad =>
    rw [decode, if_neg counted, if_pos bad] at decoded
    cases decoded
  | case5 count pixel later counted good ih =>
    rw [decode, if_neg counted, if_neg good] at decoded
    obtain ⟨behind, found, rfl⟩ := Option.map_eq_some_iff.mp decoded
    obtain ⟨many, enough⟩ := not_or.mp good
    have still : ¬(pixel.toNat < 3 ∨ (later ++ rest).length < pixel.toNat + pixel.toNat % 2) := by
      rw [List.length_append]
      omega
    rw [List.cons_append, List.cons_append, decode, if_neg counted, if_neg still,
      List.drop_append_of_le_length (by omega), List.take_append_of_le_length (by omega),
      ih found, Option.map_map]
    congr 1
    funext others
    simp

theorem decode_nonempty {bytes : List UInt8} (decoded : decode bytes = some []) : bytes = [] := by
  match bytes, decoded with
  | [], _ => rfl
  | [byte], decoded =>
    rw [decode_single] at decoded
    cases decoded
  | count :: pixel :: rest, decoded =>
    rw [decode] at decoded
    split at decoded
    · rename_i counted
      obtain ⟨later, -, empty⟩ := Option.map_eq_some_iff.mp decoded
      have size := congrArg List.length empty
      rw [List.length_append, List.length_replicate, List.length_nil] at size
      exact absurd (UInt8.toNat_inj.mp (by simpa using (by omega : count.toNat = 0))) counted
    · split at decoded
      · cases decoded
      · rename_i good
        obtain ⟨later, -, empty⟩ := Option.map_eq_some_iff.mp decoded
        have size := congrArg List.length empty
        rw [List.length_append, List.length_take, List.length_nil] at size
        omega

end Decode

section Size

/-- A row is a whole number of words. -/
theorem decode_even {bytes pixels : List UInt8} (decoded : decode bytes = some pixels) :
    bytes.length % 2 = 0 := by
  induction bytes using decode.induct generalizing pixels with
  | case1 => rfl
  | case2 byte =>
    rw [decode_single] at decoded
    cases decoded
  | case3 count pixel later counted ih =>
    rw [decode_run counted] at decoded
    obtain ⟨behind, found, -⟩ := Option.map_eq_some_iff.mp decoded
    have even := ih found
    rw [List.length_cons, List.length_cons]
    omega
  | case4 count pixel later counted bad =>
    rw [decode, if_neg counted, if_pos bad] at decoded
    cases decoded
  | case5 count pixel later counted good ih =>
    rw [decode, if_neg counted, if_neg good] at decoded
    obtain ⟨behind, found, -⟩ := Option.map_eq_some_iff.mp decoded
    have even := ih found
    rw [List.length_drop] at even
    rw [List.length_cons, List.length_cons]
    omega

-- the most pixels that a pair stands for, whether its pixels are run or stand for themselves
def most (run : UInt8 × UInt8) : Nat :=
  if run.1 = 0 then run.2.toNat else run.1.toNat

theorem drop_pairs (count : Nat) (runs : List (UInt8 × UInt8)) :
    (runs.flatMap fun run => [run.1, run.2]).drop (2 * count) =
      (runs.drop count).flatMap fun run => [run.1, run.2] := by
  induction count generalizing runs with
  | zero => simp
  | succ count ih =>
    cases runs with
    | nil => simp
    | cons run runs =>
      rw [List.flatMap_cons, Nat.mul_succ, List.drop_succ_cons, ← ih runs]
      rfl

/-- No reading of pairs gives more pixels than they say. -/
theorem decode_length_le (runs : List (UInt8 × UInt8)) (pixels : List UInt8)
    (found : decode (runs.flatMap fun run => [run.1, run.2]) = some pixels) :
    pixels.length ≤ (runs.map most).sum := by
  generalize size : runs.length = count
  induction count using Nat.strong_induction_on generalizing runs pixels with
  | _ count ih =>
    cases runs with
    | nil =>
      rw [List.flatMap_nil, decode_nil] at found
      rw [← Option.some.inj found]
      exact Nat.zero_le _
    | cons run runs =>
      rw [List.length_cons] at size
      rw [List.flatMap_cons, List.cons_append, List.cons_append, List.nil_append, decode] at found
      rw [List.map_cons, List.sum_cons, most]
      split at found
      · rename_i counted
        obtain ⟨later, decoded, same⟩ := Option.map_eq_some_iff.mp found
        have bound := ih runs.length (by omega) runs later decoded rfl
        rw [if_neg counted, ← same, List.length_append, List.length_replicate]
        omega
      · rename_i absolute
        split at found
        · cases found
        · -- the pixels and what fills them up are whole pairs
          have pairs : run.2.toNat + run.2.toNat % 2 = 2 * ((run.2.toNat + 1) / 2) := by omega
          obtain ⟨later, decoded, same⟩ := Option.map_eq_some_iff.mp found
          rw [pairs, drop_pairs] at decoded
          have bound := ih _ (by rw [← size, List.length_drop]; omega) _ later decoded rfl
          have rest : ((runs.drop ((run.2.toNat + 1) / 2)).map most).sum ≤ (runs.map most).sum := by
            rw [List.map_drop]
            exact (List.drop_sublist _ _).sum_le_sum fun _ _ => Nat.zero_le _
          have few := List.length_take_le run.2.toNat (runs.flatMap fun run => [run.1, run.2])
          rw [if_pos (not_not.mp absolute), ← same, List.length_append]
          omega

end Size

end Rle8
