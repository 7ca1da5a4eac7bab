import Mathlib

set_option autoImplicit false

namespace TsAnalyze.Tables

-- `uint64_t section_bitmap[4]`
abbrev Bitmap := Fin 4 → BitVec 64

def Bitmap.empty : Bitmap := fun _ => 0

-- `none` is an access outside the array
def word (bitmap : Bitmap) (index : Nat) : Option (BitVec 64) :=
  if inside : index < 4 then some (bitmap ⟨index, inside⟩) else none

def bitmap64Full (bitmap : Bitmap) (last : Nat) : Option Int := do
  let mask : BitVec 64 := (1#64 <<< ((last + 1) % 64)) - 1
  let whole ← (List.range (last / 64)).mapM (word bitmap)
  if whole.any (· ≠ BitVec.allOnes 64) then return -1
  let final ← word bitmap (last % 64)
  if final &&& mask ≠ mask then return -1
  return 0

def wordOf (bit : UInt8) : Fin 4 :=
  Fin.ofNat 4 (bit.toNat / 64)

def bitmap64Get (bitmap : Bitmap) (bit : UInt8) : Bool :=
  (bitmap (wordOf bit) &&& (1#64 <<< (bit.toNat % 64))) ≠ 0

def bitmap64Set (bitmap : Bitmap) (bit : UInt8) : Bitmap :=
  Function.update bitmap (wordOf bit) (bitmap (wordOf bit) ||| (1#64 <<< (bit.toNat % 64)))

theorem getLsbD_single (position bit : Nat) (inside : position < 64) :
    (1#64 <<< position).getLsbD bit = decide (bit = position) := by
  by_cases same : bit = position
  · simp [same, inside]
  · have apart : bit < position ∨ bit - position ≠ 0 := by omega
    rcases apart with lower | higher
    · simp [same, lower]
    · simp [same, BitVec.getLsbD_one, higher]

theorem word_bit (word : BitVec 64) (position : Nat) (inside : position < 64) :
    decide (word &&& 1#64 <<< position ≠ 0) = word.getLsbD position := by
  cases found : word.getLsbD position with
  | true =>
    apply decide_eq_true
    intro absent
    have common : (word &&& 1#64 <<< position).getLsbD position = true := by
      rw [BitVec.getLsbD_and, found, getLsbD_single _ _ inside, decide_eq_true rfl, Bool.and_true]
    simp [absent] at common
  | false =>
    apply decide_eq_false
    rw [not_not]
    apply BitVec.eq_of_getLsbD_eq
    intro other below
    rw [BitVec.getLsbD_and, getLsbD_single _ _ inside]
    by_cases same : other = position
    · rw [same, found, Bool.false_and]
      simp
    · simp [same]

theorem bitmap64Get_eq (bitmap : Bitmap) (bit : UInt8) :
    bitmap64Get bitmap bit = (bitmap (wordOf bit)).getLsbD (bit.toNat % 64) :=
  word_bit _ _ (Nat.mod_lt _ (by decide))

@[simp] theorem bitmap64Get_empty (bit : UInt8) : bitmap64Get Bitmap.empty bit = false := by
  simp [bitmap64Get_eq, Bitmap.empty]

theorem wordOf_injective (bit other : UInt8) (sameWord : wordOf other = wordOf bit)
    (samePosition : other.toNat % 64 = bit.toNat % 64) : other = bit := by
  have quotient := congrArg Fin.val sameWord
  have bound := other.toNat_lt
  have otherBound := bit.toNat_lt
  simp only [wordOf, Fin.val_ofNat] at quotient
  apply UInt8.toNat_inj.mp
  omega

theorem bitmap64Get_set (bitmap : Bitmap) (bit other : UInt8) :
    bitmap64Get (bitmap64Set bitmap bit) other =
      (decide (other = bit) || bitmap64Get bitmap other) := by
  have inside : bit.toNat % 64 < 64 := Nat.mod_lt _ (by decide)
  rw [bitmap64Get_eq, bitmap64Get_eq, bitmap64Set]
  by_cases sameWord : wordOf other = wordOf bit
  · rw [sameWord, Function.update_self, BitVec.getLsbD_or, Bool.or_comm, getLsbD_single _ _ inside]
    congr 1
    apply decide_eq_decide.mpr
    constructor
    · exact wordOf_injective bit other sameWord
    · rintro rfl
      rfl
  · have different : other ≠ bit := fun same => sameWord (congrArg wordOf same)
    rw [Function.update_of_ne sameWord, decide_eq_false different, Bool.false_or]

theorem bitmap64Full_short (bitmap : Bitmap) (last : Nat) (short : last < 4) :
    bitmap64Full bitmap last =
      some (if bitmap ⟨last, short⟩ &&& ((1#64 <<< (last + 1)) - 1) ≠ (1#64 <<< (last + 1)) - 1
        then -1 else 0) := by
  have noWhole : last / 64 = 0 := by omega
  have position : (last + 1) % 64 = last + 1 := by omega
  have index : last % 64 = last := by omega
  have final : word bitmap last = some (bitmap ⟨last, short⟩) := dif_pos short
  simp only [bitmap64Full, noWhole, position, index, final, List.range_zero, List.mapM_nil,
    Option.pure_def, Option.bind_eq_bind, Option.bind_some, List.any_nil, Bool.false_eq_true,
    if_false]
  split <;> rfl

theorem bitmap64Full_zero (bitmap : Bitmap) :
    bitmap64Full bitmap 0 = some (if bitmap64Get bitmap 0 then 0 else -1) := by
  have first : bitmap64Get bitmap 0 = (bitmap 0).getLsbD 0 := by
    rw [bitmap64Get_eq]
    rfl
  have mask : (1#64 <<< 1) - 1 = 1#64 := by simp
  have index : (⟨0, by decide⟩ : Fin 4) = 0 := rfl
  rw [bitmap64Full_short bitmap 0 (by decide), first, Nat.zero_add, mask, index,
    BitVec.and_one_eq_setWidth_ofBool_getLsbD]
  generalize (bitmap 0).getLsbD 0 = found
  cases found with
  | true => simp
  | false => simp

-- The last word is looked up under `last % 64`: a table of two sections waits for word 1.
theorem bitmap64Full_one (bitmap : Bitmap) (unused : bitmap 1 = 0) :
    bitmap64Full bitmap 1 = some (-1) := by
  have mask : (1#64 <<< (1 + 1)) - 1 = 3#64 := by simp
  have index : (⟨1, by decide⟩ : Fin 4) = 1 := rfl
  rw [bitmap64Full_short bitmap 1 (by decide), mask, index, unused]
  simp

section Full

/-- The lowest bits of a word are set, as many as `count`. -/
def lowSet (word : BitVec 64) (count : Nat) : Prop :=
  ∀ position < count, word.getLsbD position = true

instance (word : BitVec 64) (count : Nat) : Decidable (lowSet word count) :=
  inferInstanceAs (Decidable (∀ position < count, _))

theorem getLsbD_mask (count position : Nat) (inside : position < 64) :
    ((1#64 <<< count) - 1).getLsbD position = decide (position < count) := by
  by_cases wide : 64 ≤ count
  · have mask : (1#64 <<< count) - 1 = BitVec.allOnes 64 := by
      rw [BitVec.shiftLeft_eq_zero wide]
      rfl
    have below : position < count := by omega
    rw [mask, BitVec.getLsbD_allOnes, decide_eq_true inside, decide_eq_true below]
  · have power : 2 ^ count < 2 ^ 64 := Nat.pow_lt_pow_right (by decide) (by omega)
    have positive : 0 < 2 ^ count := Nat.two_pow_pos count
    have single : (1#64 <<< count).toNat = 2 ^ count := by
      rw [BitVec.toNat_shiftLeft, Nat.shiftLeft_eq, BitVec.toNat_ofNat, Nat.one_mul,
        Nat.mod_eq_of_lt power]
    have mask : ((1#64 <<< count) - 1).toNat = 2 ^ count - 1 := by
      rw [BitVec.toNat_sub_of_le, single]
      · rfl
      · rw [BitVec.le_def, single]
        exact positive
    rw [← BitVec.testBit_toNat, mask, Nat.testBit_two_pow_sub_one]

theorem masked_iff (word : BitVec 64) (count : Nat) (inside : count ≤ 64) :
    word &&& ((1#64 <<< count) - 1) = (1#64 <<< count) - 1 ↔ lowSet word count := by
  constructor
  · intro masked position below
    have bits : (word &&& ((1#64 <<< count) - 1)).getLsbD position = true := by
      rw [masked, getLsbD_mask count position (by omega), decide_eq_true below]
    rw [BitVec.getLsbD_and] at bits
    exact (Bool.and_eq_true_iff.mp bits).1
  · intro low
    apply BitVec.eq_of_getLsbD_eq
    intro position bound
    rw [BitVec.getLsbD_and, getLsbD_mask count position bound]
    by_cases below : position < count
    · simp [below, low position below]
    · simp [below]

theorem allOnes_iff (word : BitVec 64) : word = BitVec.allOnes 64 ↔ lowSet word 64 := by
  constructor
  · intro whole position below
    rw [whole, BitVec.getLsbD_allOnes, decide_eq_true below]
  · intro low
    apply BitVec.eq_of_getLsbD_eq
    intro position below
    rw [low position below, BitVec.getLsbD_allOnes]
    simp [below]

/-- The words before the one of bit `last` are complete. -/
def wordsFull (bitmap : Bitmap) (last : Nat) : Prop :=
  ∀ index : Fin 4, index < last / 64 → lowSet (bitmap index) 64

instance (bitmap : Bitmap) (last : Nat) : Decidable (wordsFull bitmap last) :=
  inferInstanceAs (Decidable (∀ _ : Fin 4, _))

theorem words_read (bitmap : Bitmap) (indices : List Nat) (inside : ∀ index ∈ indices, index < 4) :
    indices.mapM (word bitmap) = some (indices.map fun index => bitmap (Fin.ofNat 4 index)) := by
  induction indices with
  | nil => rfl
  | cons index indices ih =>
    have below : index < 4 := inside index List.mem_cons_self
    have same : (⟨index, below⟩ : Fin 4) = Fin.ofNat 4 index :=
      Fin.ext (Nat.mod_eq_of_lt below).symm
    have rest := ih (fun other member => inside other (List.mem_cons_of_mem _ member))
    rw [List.mapM_cons, word, dif_pos below, same, rest]
    rfl

theorem words_any (bitmap : Bitmap) (count : Nat) (inside : count ≤ 4) :
    ((List.range count).map fun index => bitmap (Fin.ofNat 4 index)).any
      (· ≠ BitVec.allOnes 64) = true ↔ ¬ ∀ index : Fin 4, index < count → lowSet (bitmap index) 64 := by
  rw [not_forall, List.any_eq_true]
  constructor
  · intro found
    obtain ⟨content, member, partly⟩ := found
    obtain ⟨index, range, same⟩ := List.mem_map.mp member
    have below := List.mem_range.mp range
    have value : (Fin.ofNat 4 index).val = index := Nat.mod_eq_of_lt (by omega)
    refine ⟨Fin.ofNat 4 index, ?_⟩
    rw [value, same, ← allOnes_iff]
    intro whole
    exact of_decide_eq_true partly (whole below)
  · intro found
    obtain ⟨index, partly⟩ := found
    obtain ⟨below, partly⟩ := Classical.not_imp.mp partly
    have same : Fin.ofNat 4 index.val = index := Fin.ext (Nat.mod_eq_of_lt index.isLt)
    refine ⟨bitmap index, List.mem_map.mpr ⟨index, List.mem_range.mpr below, by rw [same]⟩, ?_⟩
    rw [← allOnes_iff] at partly
    exact decide_eq_true partly

-- the last word is looked up under `last % 64`
theorem bitmap64Full_words (bitmap : Bitmap) (last : Nat) (inside : last ≤ 255) :
    bitmap64Full bitmap last =
      if wordsFull bitmap last then
        (word bitmap (last % 64)).map fun final =>
          if lowSet final (last % 64 + 1) then 0 else -1
      else some (-1) := by
  have whole := words_any bitmap (last / 64) (by omega)
  rw [bitmap64Full, words_read bitmap _ (fun index member => by
    have := List.mem_range.mp member
    omega)]
  simp only [Option.pure_def, Option.bind_eq_bind, Option.bind_some]
  by_cases full : wordsFull bitmap last
  · rw [if_pos full, if_neg (fun found => whole.mp found full)]
    by_cases found : last % 64 < 4
    · have position : (last + 1) % 64 = last % 64 + 1 := by omega
      rw [word, dif_pos found, position]
      by_cases low : lowSet (bitmap ⟨last % 64, found⟩) (last % 64 + 1)
      · have masked := (masked_iff _ _ (by omega)).mpr low
        simp only [Option.bind_some, Option.map_some, low, if_true]
        exact if_neg (not_not.mpr masked)
      · have unmasked := fun same => low ((masked_iff _ _ (by omega)).mp same)
        simp only [Option.bind_some, Option.map_some, low, if_false]
        exact if_pos unmasked
    · rw [word, dif_neg found]
      rfl
  · rw [if_neg full, if_pos (whole.mpr full)]

/-- What the callers ask for. -/
def allSet (bitmap : Bitmap) (last : Nat) : Prop :=
  ∀ bit : UInt8, bit.toNat ≤ last → bitmap64Get bitmap bit = true

theorem allSet_iff (bitmap : Bitmap) (last : Nat) (inside : last ≤ 255) :
    allSet bitmap last ↔
      wordsFull bitmap last ∧ lowSet (bitmap (Fin.ofNat 4 (last / 64))) (last % 64 + 1) := by
  constructor
  · intro set
    have found : ∀ number, number ≤ last →
        (bitmap (Fin.ofNat 4 (number / 64))).getLsbD (number % 64) = true := by
      intro number below
      have value : (UInt8.ofNat number).toNat = number := UInt8.toNat_ofNat_of_lt' (by
        have size : UInt8.size = 256 := rfl
        omega)
      have get := set (UInt8.ofNat number) (by omega)
      rwa [bitmap64Get_eq, wordOf, value] at get
    constructor
    · intro index before position below
      have get := found (64 * index + position) (by omega)
      have quotient : (64 * index.val + position) / 64 = index := by omega
      have rest : (64 * index.val + position) % 64 = position := by omega
      have same : Fin.ofNat 4 index.val = index := Fin.ext (Nat.mod_eq_of_lt index.isLt)
      rwa [quotient, rest, same] at get
    · intro position below
      have get := found (64 * (last / 64) + position) (by omega)
      have quotient : (64 * (last / 64) + position) / 64 = last / 64 := by omega
      have rest : (64 * (last / 64) + position) % 64 = position := by omega
      rwa [quotient, rest] at get
  · intro set bit below
    rw [bitmap64Get_eq]
    have value : (wordOf bit).val = bit.toNat / 64 := Nat.mod_eq_of_lt (by omega)
    by_cases before : bit.toNat / 64 < last / 64
    · exact set.1 (wordOf bit) (by rw [value]; exact before) _ (Nat.mod_lt _ (by decide))
    · have same : bit.toNat / 64 = last / 64 := by omega
      rw [wordOf, same]
      exact set.2 _ (by omega)

/-- Where the words before the last are complete, the word that `last % 64` selects decides. -/
theorem bitmap64Full_iff (bitmap : Bitmap) (last : Nat) (inside : last ≤ 255) :
    (∃ ret, bitmap64Full bitmap last = some ret ∧ (ret = 0 ↔ allSet bitmap last)) ↔
      (wordsFull bitmap last → ∃ selected : last % 64 < 4,
        (lowSet (bitmap ⟨last % 64, selected⟩) (last % 64 + 1) ↔
          lowSet (bitmap (Fin.ofNat 4 (last / 64))) (last % 64 + 1))) := by
  rw [bitmap64Full_words bitmap last inside, allSet_iff bitmap last inside]
  by_cases full : wordsFull bitmap last
  · rw [if_pos full]
    by_cases selected : last % 64 < 4
    · rw [word, dif_pos selected]
      by_cases low : lowSet (bitmap ⟨last % 64, selected⟩) (last % 64 + 1)
      · simp [full, selected, low]
      · simp [full, selected, low]
    · rw [word, dif_neg selected]
      simp [full, selected]
  · rw [if_neg full]
    simp [full]

theorem bitmap64Full_sixty_five :
    ∃ ret, bitmap64Full (fun _ => BitVec.allOnes 64) 65 = some ret ∧
      (ret = 0 ↔ allSet (fun _ => BitVec.allOnes 64) 65) :=
  (bitmap64Full_iff (fun _ => BitVec.allOnes 64) 65 (by decide)).mpr
    (fun _ => ⟨by decide, Iff.rfl⟩)

-- Sections 0 and 1 have arrived, and the word looked at is the second.
theorem bitmap64Full_waits :
    ¬ ∀ (bitmap : Bitmap) (last : Nat), last ≤ 255 →
      ∃ ret, bitmap64Full bitmap last = some ret ∧ (ret = 0 ↔ allSet bitmap last) := by
  intro right
  obtain ⟨ret, found, same⟩ := right (bitmap64Set (bitmap64Set Bitmap.empty 0) 1) 1 (by decide)
  have waits := bitmap64Full_one (bitmap64Set (bitmap64Set Bitmap.empty 0) 1) (by decide)
  rw [waits] at found
  have value : ret = -1 := (Option.some.inj found).symm
  have set : allSet (bitmap64Set (bitmap64Set Bitmap.empty 0) 1) 1 := by
    intro bit below
    have cases : bit = 0 ∨ bit = 1 := by
      have zero : bit.toNat = 0 ∨ bit.toNat = 1 := by omega
      exact zero.imp UInt8.toNat_inj.mp UInt8.toNat_inj.mp
    simpa [bitmap64Get_set] using cases.symm
  rw [same.mpr set] at value
  exact absurd value (by decide)

end Full

end TsAnalyze.Tables
