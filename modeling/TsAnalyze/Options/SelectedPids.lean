import TsAnalyze.Shared.Quoted
import TsAnalyze.Shared.Strtol

set_option autoImplicit false

namespace TsAnalyze.Options

open Strtol Quoted

def tsMaxPid : Nat := 8191

def intMax : Nat := 2147483647

-- `tsaconf.pids`
abbrev Pids := Fin 8192 → UInt8

def hexMarked : List UInt8 → Bool
  | b :: x :: _ => b = zero && isX x
  | _ => false

-- A string is given by the bytes in front of its terminator. `none` is the return value -1.
def parseSelectedPidValue (token : List UInt8) : Option Nat :=
  let found := if hexMarked token then strtol 16 (token.drop 2) else strtol 10 token
  if found.outOfRange ∨ found.rest.length = token.length ∨ found.rest ≠ [] then none
  else if found.value < 0 ∨ tsMaxPid < found.value then none
  else some found.value.toNat

/-- The PIDs that one token stands for, the first and the last. -/
def parseToken (tok : List UInt8) : Option (Nat × Nat) :=
  match tok.dropWhile (· ≠ dash) with
  | [] => (parseSelectedPidValue tok).map fun pid => (pid, pid)
  | _ :: behind => do
      let lo ← parseSelectedPidValue (tok.takeWhile (· ≠ dash))
      let hi ← parseSelectedPidValue behind
      if lo > hi then none else some (lo, hi)

structure Selection where
  pids : Pids
  count : Nat

-- `none` is an access outside the array, or an overflow of the counter
def selectPid (selection : Selection) (pid : Nat) : Option Selection :=
  if inside : pid < 8192 then
    if selection.count < intMax then
      some ⟨Function.update selection.pids ⟨pid, inside⟩ 1, selection.count + 1⟩
    else none
  else none

def selectPids : Nat → Nat → Selection → Option Selection
  | 0, _, selection => some selection
  | rounds + 1, pid, selection => do
      let selection ← selectPid selection pid
      selectPids rounds (pid + 1) selection

def parseTokens (p : List UInt8) (selection : Selection) : Option (Int × Pids) :=
  match p with
  | [] => some (selection.count, selection.pids)
  | b :: bytes =>
      let tok := (b :: bytes).takeWhile (· ≠ comma)
      if tok.length = 0 ∨ tok.length ≥ 64 then some (-1, selection.pids)
      else
        match parseToken tok with
        | none => some (-1, selection.pids)
        | some (lo, hi) => do
            let selection ← selectPids (hi + 1 - lo) lo selection
            match _split : (b :: bytes).dropWhile (· ≠ comma) with
            | [] => some (selection.count, selection.pids)
            | _ :: behind => parseTokens behind selection
termination_by p.length
decreasing_by
  have shorter := List.length_dropWhile_le (· ≠ comma) (b :: bytes)
  rw [_split] at shorter
  simp only [List.length_cons] at shorter ⊢
  omega

/-- The return value, and `tsaconf.pids` behind the call. -/
def parseSelectedPids (format : List UInt8) (pids : Pids) : Option (Int × Pids) :=
  parseTokens format ⟨pids, 0⟩

-- a PID as the option documents it
def IsPid (token : List UInt8) (pid : Nat) : Prop :=
  pid ≤ tsMaxPid ∧
    ((token ≠ [] ∧ (∀ b ∈ token, isDigit 10 b = true) ∧ pid = digitsValue 10 token) ∨
      ∃ x digits, token = zero :: x :: digits ∧ isX x = true ∧ digits ≠ [] ∧
        (∀ b ∈ digits, isDigit 16 b = true) ∧ pid = digitsValue 16 digits)

/-- A number may also follow blanks and a sign, the digits behind a mark a second mark, and a mark
alone stands for zero. -/
def LoosePid (token : List UInt8) (pid : Nat) : Prop :=
  pid ≤ tsMaxPid ∧
    if hexMarked token then
      token.drop 2 = [] ∧ pid = 0 ∨
        ∃ number : Number 16, number.text = token.drop 2 ∧ number.value = pid
    else ∃ number : Number 10, number.text = token ∧ number.value = pid

-- a PID, or two of them in order with a dash in between
def Ranged (reads : List UInt8 → Nat → Prop) (token : List UInt8) (range : Nat × Nat) : Prop :=
  (dash ∉ token ∧ reads token range.1 ∧ range.2 = range.1) ∨
    ∃ front back, token = front ++ dash :: back ∧ dash ∉ front ∧ reads front range.1 ∧
      reads back range.2 ∧ range.1 ≤ range.2

def TokenOf (reads : List UInt8 → Nat → Prop) (token : List UInt8) (range : Nat × Nat) : Prop :=
  comma ∉ token ∧ token.length < 64 ∧ Ranged reads token range

/-- The ranges of comma-separated tokens, in front of what `stop` allows. -/
inductive Tokens (reads : List UInt8 → Nat → Prop) (stop : List UInt8 → Prop) :
    List (Nat × Nat) → List UInt8 → Prop where
  | stop {text : List UInt8} : stop text → Tokens reads stop [] text
  | last {token : List UInt8} {range : Nat × Nat} :
      TokenOf reads token range → Tokens reads stop [range] token
  | more {token text : List UInt8} {range : Nat × Nat} {ranges : List (Nat × Nat)} :
      TokenOf reads token range → Tokens reads stop ranges text →
        Tokens reads stop (range :: ranges) (token ++ comma :: text)

/-- The documented lists. -/
def Listed : List (Nat × Nat) → List UInt8 → Prop :=
  Tokens IsPid fun _ => False

-- Nothing is a list as well, alone and behind a comma.
def LooselyListed : List (Nat × Nat) → List UInt8 → Prop :=
  Tokens LoosePid fun text => text = []

-- the tokens in front of an arbitrary rest
def Leading : List (Nat × Nat) → List UInt8 → Prop :=
  Tokens LoosePid fun _ => True

def total (ranges : List (Nat × Nat)) : Nat :=
  (ranges.map fun range => range.2 + 1 - range.1).sum

def selected (pids : Pids) (ranges : List (Nat × Nat)) : Pids :=
  fun pid => if ∃ range ∈ ranges, range.1 ≤ pid.val ∧ pid.val ≤ range.2 then 1 else pids pid

section Pid

theorem hexMarked_split {token : List UInt8} (marked : hexMarked token = true) :
    ∃ x digits, token = zero :: x :: digits ∧ isX x = true := by
  match token with
  | b :: x :: digits =>
    obtain ⟨first, second⟩ := Bool.and_eq_true_iff.mp marked
    exact ⟨x, digits, by rw [of_decide_eq_true first], second⟩

-- the conversion has ended at the terminator with a PID
theorem converted_pid (number : Int) (pid : Nat) (limit : pid ≤ tsMaxPid) :
    (¬(converted number []).outOfRange = true ∧
      ¬((converted number []).value < 0 ∨ (tsMaxPid : Int) < (converted number []).value) ∧
        (converted number []).value.toNat = pid) ↔ number = pid := by
  have bound : (tsMaxPid : Int) = 8191 := rfl
  have long : longMax = 9223372036854775807 := rfl
  have least : pid ≤ 8191 := limit
  unfold converted
  rw [bound, long]
  split_ifs with low high
  · simp
    omega
  · simp
    omega
  · simp
    omega

-- the whole text has been read as a PID
def Converts (base : Nat) (text : List UInt8) (pid : Nat) : Prop :=
  (strtol base text).rest = [] ∧ ¬(strtol base text).outOfRange = true ∧
    ¬((strtol base text).value < 0 ∨ (tsMaxPid : Int) < (strtol base text).value) ∧
      (strtol base text).value.toNat = pid

theorem number_nonempty {base : Nat} (number : Number base) : number.text ≠ [] := by
  have digits := number.some_digit
  simp [Number.text, digits]

theorem converts_iff (base : Nat) {text : List UInt8} (nonempty : text ≠ []) (pid : Nat) :
    Converts base text pid ↔
      pid ≤ tsMaxPid ∧ ∃ number : Number base, number.text = text ∧ number.value = pid := by
  constructor
  · intro found
    obtain ⟨whole, fits, inside, same⟩ := found
    have limit : pid ≤ tsMaxPid := by omega
    obtain ⟨number, spelled⟩ := number_of_rest whole nonempty
    rw [← spelled, strtol_text] at fits inside same
    exact ⟨limit, number, spelled, (converted_pid _ pid limit).mp ⟨fits, inside, same⟩⟩
  · intro found
    obtain ⟨limit, number, spelled, value⟩ := found
    unfold Converts
    rw [← spelled, strtol_text, converted_rest]
    exact ⟨rfl, (converted_pid _ pid limit).mpr value⟩

theorem accepted_iff (found : Conversion) (length pid : Nat) (positive : 0 < length) :
    (if found.outOfRange ∨ found.rest.length = length ∨ found.rest ≠ [] then none
      else if found.value < 0 ∨ tsMaxPid < found.value then none
      else some found.value.toNat) = some pid ↔
    found.rest = [] ∧ ¬found.outOfRange = true ∧
      ¬(found.value < 0 ∨ (tsMaxPid : Int) < found.value) ∧ found.value.toNat = pid := by
  by_cases whole : found.rest = []
  · by_cases fits : found.outOfRange = true
    · simp [fits]
    · by_cases inside : found.value < 0 ∨ (tsMaxPid : Int) < found.value
      · simp [whole, fits, inside]
      · simp [whole, fits, inside, positive.ne]
  · simp [whole]

theorem parseSelectedPidValue_iff (token : List UInt8) (pid : Nat) :
    parseSelectedPidValue token = some pid ↔ LoosePid token pid := by
  rw [parseSelectedPidValue, LoosePid]
  by_cases marked : hexMarked token = true
  · obtain ⟨x, digits, same, -⟩ := hexMarked_split marked
    rw [if_pos marked, if_pos marked]
    have length : 0 < token.length := by rw [same]; simp
    refine (accepted_iff (strtol 16 (token.drop 2)) token.length pid length).trans ?_
    by_cases bare : token.drop 2 = []
    · have alone : strtol 16 [] = ⟨0, [], false⟩ := rfl
      rw [bare, alone]
      constructor
      · intro found
        obtain ⟨-, -, -, same⟩ := found
        have none : pid = 0 := same.symm
        exact ⟨by rw [none]; exact Nat.zero_le _, Or.inl ⟨rfl, none⟩⟩
      · intro found
        obtain ⟨-, ⟨-, none⟩ | ⟨number, spelled, -⟩⟩ := found
        · rw [none]
          exact ⟨rfl, by decide, by decide, rfl⟩
        · exact absurd spelled (number_nonempty number)
    · refine (converts_iff 16 bare pid).trans ?_
      simp [bare]
  · rw [if_neg marked, if_neg marked]
    cases token with
    | nil =>
      have spelled : ¬∃ number : Number 10, number.text = [] ∧ number.value = pid :=
        fun found => number_nonempty found.choose found.choose_spec.1
      simp [spelled]
    | cons b bytes =>
      refine (accepted_iff (strtol 10 (b :: bytes)) _ pid (Nat.succ_pos _)).trans ?_
      exact converts_iff 10 (List.cons_ne_nil b bytes) pid

end Pid

section Token

-- the first separator in a text
theorem separated_front {mark : UInt8} (front back : List UInt8) (absent : mark ∉ front) :
    (front ++ mark :: back).takeWhile (· ≠ mark) = front ∧
      (front ++ mark :: back).dropWhile (· ≠ mark) = mark :: back := by
  have before : ∀ b ∈ front, decide (b ≠ mark) = true := by
    intro b member
    exact decide_eq_true fun same => absent (same ▸ member)
  constructor
  · rw [List.takeWhile_append_of_pos before]
    simp
  · rw [List.dropWhile_append_of_pos before]
    simp

theorem separated_none {mark : UInt8} {text : List UInt8} (absent : mark ∉ text) :
    text.takeWhile (· ≠ mark) = text ∧ text.dropWhile (· ≠ mark) = [] := by
  constructor
  · exact List.takeWhile_eq_self_iff.mpr fun b member =>
      decide_eq_true fun same => absent (same ▸ member)
  · exact List.dropWhile_eq_nil_iff.mpr fun b member =>
      decide_eq_true fun same => absent (same ▸ member)

theorem separated_cases (mark : UInt8) (text : List UInt8) :
    mark ∉ text ∨ ∃ front back, text = front ++ mark :: back ∧ mark ∉ front := by
  by_cases member : mark ∈ text
  · obtain ⟨front, back, split, absent⟩ := List.eq_append_cons_of_mem member
    exact Or.inr ⟨front, back, split, absent⟩
  · exact Or.inl member

theorem parseToken_iff (token : List UInt8) (range : Nat × Nat) :
    parseToken token = some range ↔ Ranged LoosePid token range := by
  obtain ⟨lo, hi⟩ := range
  cases separated_cases dash token with
  | inl absent =>
    have apart : ¬∃ front back, token = front ++ dash :: back ∧ dash ∉ front ∧
        LoosePid front lo ∧ LoosePid back hi ∧ lo ≤ hi := by
      intro found
      obtain ⟨front, back, split, -⟩ := found
      exact absent (by rw [split]; simp)
    simp only [parseToken, (separated_none absent).2, Ranged, absent, apart, not_false_eq_true,
      true_and, or_false, Option.map_eq_some_iff, Prod.mk.injEq, parseSelectedPidValue_iff]
    constructor
    · intro found
      obtain ⟨pid, read, first, second⟩ := found
      exact ⟨first ▸ read, second.symm.trans first⟩
    · intro found
      exact ⟨lo, found.1, rfl, found.2.symm⟩
  | inr found =>
    obtain ⟨front, back, split, absent⟩ := found
    have cut := separated_front front back absent
    rw [← split] at cut
    have member : dash ∈ token := by rw [split]; simp
    have unique : ∀ before behind, token = before ++ dash :: behind → dash ∉ before →
        before = front ∧ behind = back := by
      intro before behind same other
      have again := separated_front before behind other
      rw [← same] at again
      exact ⟨again.1.symm.trans cut.1, (List.cons.inj (again.2.symm.trans cut.2)).2⟩
    simp only [parseToken, cut.1, cut.2, Ranged, member, not_true_eq_false, false_and, false_or,
      Option.bind_eq_bind, Option.bind_eq_some_iff, parseSelectedPidValue_iff]
    constructor
    · intro found
      obtain ⟨first, firstRead, second, secondRead, ordered⟩ := found
      split at ordered
      · cases ordered
      · cases ordered
        exact ⟨front, back, split, absent, firstRead, secondRead, by omega⟩
    · intro found
      obtain ⟨before, behind, same, other, firstRead, secondRead, ordered⟩ := found
      obtain ⟨rfl, rfl⟩ := unique before behind same other
      exact ⟨lo, firstRead, hi, secondRead, if_neg (Nat.not_lt.mpr ordered)⟩

end Token

section Loop

theorem token_unique {token : List UInt8} {first second : Nat × Nat}
    (one : TokenOf LoosePid token first) (other : TokenOf LoosePid token second) :
    first = second := by
  have found := (parseToken_iff token first).mpr one.2.2
  rw [(parseToken_iff token second).mpr other.2.2] at found
  exact (Option.some.inj found).symm

theorem token_range {token : List UInt8} {range : Nat × Nat} (found : TokenOf LoosePid token range) :
    range.1 ≤ range.2 ∧ range.2 ≤ tsMaxPid := by
  cases found.2.2 with
  | inl single =>
    obtain ⟨-, read, same⟩ := single
    have limit := read.1
    omega
  | inr pair =>
    obtain ⟨front, back, -, -, -, read, ordered⟩ := pair
    exact ⟨ordered, read.1⟩

theorem token_nonempty {token : List UInt8} {range : Nat × Nat}
    (found : TokenOf LoosePid token range) : token ≠ [] := by
  intro empty
  have read := (parseToken_iff token range).mpr found.2.2
  rw [empty] at read
  cases read

theorem tokens_single {reads : List UInt8 → Nat → Prop} {stop : List UInt8 → Prop}
    {token : List UInt8} {ranges : List (Nat × Nat)} (absent : comma ∉ token)
    (found : Tokens reads stop ranges token) :
    ranges = [] ∧ stop token ∨ ∃ range, TokenOf reads token range ∧ ranges = [range] := by
  generalize same : token = text at found
  cases found with
  | stop stops => exact Or.inl ⟨rfl, stops⟩
  | last read => exact Or.inr ⟨_, read, rfl⟩
  | more read rest =>
    rw [same] at absent
    exact absurd (by simp) absent

theorem tokens_cut {reads : List UInt8 → Nat → Prop} {stop : List UInt8 → Prop}
    {token rest : List UInt8} {ranges : List (Nat × Nat)} (absent : comma ∉ token)
    (found : Tokens reads stop ranges (token ++ comma :: rest)) :
    ranges = [] ∧ stop (token ++ comma :: rest) ∨
      ∃ range behind, TokenOf reads token range ∧ Tokens reads stop behind rest ∧
        ranges = range :: behind := by
  generalize same : token ++ comma :: rest = text at found
  cases found with
  | stop stops => exact Or.inl ⟨rfl, stops⟩
  | last read =>
    have member := read.1
    rw [← same] at member
    exact absurd (by simp) member
  | @more other text range behind read later =>
    have cut := separated_front token rest absent
    have again := separated_front other text read.1
    rw [same] at cut
    obtain rfl := cut.1.symm.trans again.1
    obtain ⟨-, rfl⟩ := List.cons.inj (cut.2.symm.trans again.2)
    exact Or.inr ⟨range, behind, read, later, rfl⟩

theorem selectPids_spec (rounds pid : Nat) (selection : Selection)
    (inside : pid + rounds ≤ 8192) (small : selection.count ≤ intMax) :
    selectPids rounds pid selection =
      if selection.count + rounds ≤ intMax then
        some ⟨fun i => if pid ≤ i.val ∧ i.val < pid + rounds then 1 else selection.pids i,
          selection.count + rounds⟩
      else none := by
  induction rounds generalizing pid selection with
  | zero =>
    have same : (fun i : Fin 8192 => if pid ≤ i.val ∧ i.val < pid + 0 then 1 else selection.pids i) =
        selection.pids := funext fun i => if_neg (by omega)
    rw [same, Nat.add_zero, if_pos small]
    rfl
  | succ rounds ih =>
    by_cases room : selection.count < intMax
    · rw [selectPids, selectPid, dif_pos (by omega), if_pos room, Option.bind_eq_bind,
        Option.bind_some, ih _ _ (by omega) (by exact room)]
      have count : selection.count + 1 + rounds = selection.count + (rounds + 1) := by omega
      have pids : (fun i : Fin 8192 => if pid + 1 ≤ i.val ∧ i.val < pid + 1 + rounds then 1
          else Function.update selection.pids ⟨pid, by omega⟩ 1 i) =
          fun i : Fin 8192 => if pid ≤ i.val ∧ i.val < pid + (rounds + 1) then 1
            else selection.pids i := by
        funext i
        by_cases first : i.val = pid
        · have here : i = ⟨pid, by omega⟩ := Fin.ext first
          rw [here, Function.update_self, if_pos (by omega : pid ≤ pid ∧ pid < pid + (rounds + 1))]
          exact ite_self 1
        · have elsewhere : i ≠ ⟨pid, by omega⟩ := fun same => first (congrArg Fin.val same)
          rw [Function.update_of_ne elsewhere]
          by_cases later : pid + 1 ≤ i.val ∧ i.val < pid + 1 + rounds
          · rw [if_pos later, if_pos (by omega)]
          · rw [if_neg later, if_neg (by omega)]
      simp only [count, pids]
    · rw [selectPids, selectPid, dif_pos (by omega), if_neg room, if_neg (by omega)]
      rfl

theorem total_cons (range : Nat × Nat) (ranges : List (Nat × Nat)) :
    total (range :: ranges) = range.2 + 1 - range.1 + total ranges := by
  simp [total]

theorem selected_nil (pids : Pids) : selected pids [] = pids := by
  funext pid
  simp [selected]

theorem selected_cons (pids : Pids) (range : Nat × Nat) (ranges : List (Nat × Nat)) :
    selected (selected pids [range]) ranges = selected pids (range :: ranges) := by
  funext pid
  by_cases later : ∃ other ∈ ranges, other.1 ≤ pid.val ∧ pid.val ≤ other.2
  · simp [selected, later]
  · simp [selected, later]

-- the PIDs of one token
theorem selectRange_spec {token : List UInt8} {range : Nat × Nat} (selection : Selection)
    (read : TokenOf LoosePid token range) (small : selection.count ≤ intMax) :
    selectPids (range.2 + 1 - range.1) range.1 selection =
      if selection.count + total [range] ≤ intMax then
        some ⟨selected selection.pids [range], selection.count + total [range]⟩
      else none := by
  obtain ⟨ordered, limit⟩ := token_range read
  have bound : tsMaxPid = 8191 := rfl
  have pids : (fun i : Fin 8192 => if range.1 ≤ i.val ∧ i.val < range.1 + (range.2 + 1 - range.1)
      then 1 else selection.pids i) = selected selection.pids [range] := by
    funext i
    have same : range.1 ≤ i.val ∧ i.val < range.1 + (range.2 + 1 - range.1) ↔
        range.1 ≤ i.val ∧ i.val ≤ range.2 := by omega
    simp only [selected, same, List.mem_singleton, exists_eq_left]
  have count : total [range] = range.2 + 1 - range.1 := by simp [total]
  rw [selectPids_spec _ _ _ (by omega) small, pids, count]

theorem parseTokens_step (text : List UInt8) (selection : Selection) (nonempty : text ≠ []) :
    parseTokens text selection =
      if (text.takeWhile (· ≠ comma)).length = 0 ∨ (text.takeWhile (· ≠ comma)).length ≥ 64 then
        some (-1, selection.pids)
      else
        match parseToken (text.takeWhile (· ≠ comma)) with
        | none => some (-1, selection.pids)
        | some range => (selectPids (range.2 + 1 - range.1) range.1 selection).bind fun selection =>
            match text.dropWhile (· ≠ comma) with
            | [] => some ((selection.count : Int), selection.pids)
            | _ :: behind => parseTokens behind selection := by
  cases text with
  | nil => exact absurd rfl nonempty
  | cons b bytes =>
    rw [parseTokens]
    split_ifs with cut
    · rfl
    · cases parseToken ((b :: bytes).takeWhile (· ≠ comma)) with
      | none => rfl
      | some range =>
        refine Option.bind_congr fun after _ => ?_
        split
        · rename_i rest
          rw [rest]
        · rename_i rest
          rw [rest]

theorem parseTokens_invalid {text token : List UInt8} (selection : Selection)
    (nonempty : text ≠ []) (absent : comma ∉ token)
    (first : text.takeWhile (· ≠ comma) = token)
    (invalid : ¬∃ range, TokenOf LoosePid token range) :
    parseTokens text selection = some (-1, selection.pids) := by
  rw [parseTokens_step text selection nonempty, first]
  by_cases short : token.length = 0 ∨ token.length ≥ 64
  · rw [if_pos short]
  · rw [if_neg short]
    cases found : parseToken token with
    | none => rfl
    | some range =>
      have read := (parseToken_iff token range).mp found
      exact absurd ⟨range, absent, by omega, read⟩ invalid

theorem parseTokens_valid {text token : List UInt8} {range : Nat × Nat} (selection : Selection)
    (nonempty : text ≠ []) (first : text.takeWhile (· ≠ comma) = token)
    (read : TokenOf LoosePid token range) :
    parseTokens text selection =
      (selectPids (range.2 + 1 - range.1) range.1 selection).bind fun selection =>
        match text.dropWhile (· ≠ comma) with
        | [] => some ((selection.count : Int), selection.pids)
        | _ :: behind => parseTokens behind selection := by
  have positive : 0 < token.length := List.length_pos_iff.mpr (token_nonempty read)
  have found := (parseToken_iff token range).mpr read.2.2
  have length := read.2.1
  rw [parseTokens_step text selection nonempty, first, if_neg (by omega), found]

/-- What the tokens of a text lead to. -/
def Outcome (text : List UInt8) (selection : Selection) : Prop :=
  (∃ ranges, Leading ranges text ∧ intMax < selection.count + total ranges ∧
      parseTokens text selection = none) ∨
    (∀ leading, Leading leading text → selection.count + total leading ≤ intMax) ∧
      ((∃ ranges, LooselyListed ranges text ∧ parseTokens text selection =
          some (((selection.count + total ranges : Nat) : Int), selected selection.pids ranges)) ∨
        (¬∃ ranges, LooselyListed ranges text) ∧
          ∃ pids, parseTokens text selection = some (-1, pids))

-- A text whose first token is invalid is no list, and only the empty one leads it.
theorem outcome_invalid {text : List UInt8} (selection : Selection) (nonempty : text ≠ [])
    (small : selection.count ≤ intMax) (parsed : parseTokens text selection = some (-1, selection.pids))
    (stopped : ∀ {stop : List UInt8 → Prop} {ranges : List (Nat × Nat)},
      Tokens LoosePid stop ranges text → ranges = [] ∧ stop text) :
    Outcome text selection := by
  refine Or.inr ⟨?_, Or.inr ⟨?_, selection.pids, parsed⟩⟩
  · intro leading found
    rw [(stopped found).1]
    exact small
  · intro listed
    obtain ⟨ranges, found⟩ := listed
    exact nonempty (stopped found).2

theorem outcome_empty (selection : Selection) (small : selection.count ≤ intMax) :
    Outcome [] selection := by
  refine Or.inr ⟨?_, Or.inl ⟨[], Tokens.stop rfl, ?_⟩⟩
  · intro leading found
    cases tokens_single (by simp) found with
    | inl none =>
      rw [none.1]
      exact small
    | inr token =>
      obtain ⟨range, read, -⟩ := token
      exact absurd rfl (token_nonempty read)
  · rw [parseTokens, selected_nil]
    rfl

theorem outcome_last {text : List UInt8} (selection : Selection) (nonempty : text ≠ [])
    (absent : comma ∉ text) (small : selection.count ≤ intMax) : Outcome text selection := by
  have cut := separated_none absent
  by_cases valid : ∃ range, TokenOf LoosePid text range
  · obtain ⟨range, read⟩ := valid
    have parsed := parseTokens_valid selection nonempty cut.1 read
    rw [cut.2, selectRange_spec selection read small] at parsed
    by_cases fits : selection.count + total [range] ≤ intMax
    · rw [if_pos fits] at parsed
      refine Or.inr ⟨?_, Or.inl ⟨[range], Tokens.last read, parsed⟩⟩
      intro leading found
      cases tokens_single absent found with
      | inl none =>
        rw [none.1]
        exact small
      | inr token =>
        obtain ⟨other, again, same⟩ := token
        rwa [same, ← token_unique read again]
    · rw [if_neg fits] at parsed
      exact Or.inl ⟨[range], Tokens.last read, Nat.not_le.mp fits, parsed⟩
  · apply outcome_invalid selection nonempty small
      (parseTokens_invalid selection nonempty absent cut.1 valid)
    intro stop ranges found
    cases tokens_single absent found with
    | inl none => exact none
    | inr token =>
      obtain ⟨range, read, -⟩ := token
      exact absurd ⟨range, read⟩ valid

theorem outcome_more {token rest : List UInt8} (selection : Selection) (absent : comma ∉ token)
    (small : selection.count ≤ intMax)
    (later : ∀ selection : Selection, selection.count ≤ intMax → Outcome rest selection) :
    Outcome (token ++ comma :: rest) selection := by
  have cut := separated_front token rest absent
  have nonempty : token ++ comma :: rest ≠ [] := by simp
  by_cases valid : ∃ range, TokenOf LoosePid token range
  · obtain ⟨range, read⟩ := valid
    have parsed := parseTokens_valid selection nonempty cut.1 read
    rw [cut.2, selectRange_spec selection read small] at parsed
    by_cases fits : selection.count + total [range] ≤ intMax
    · rw [if_pos fits, Option.bind_some] at parsed
      have count (ranges : List (Nat × Nat)) : selection.count + total (range :: ranges) =
          selection.count + total [range] + total ranges := by
        have none : total [] = 0 := rfl
        rw [total_cons range ranges, total_cons range [], none]
        omega
      change parseTokens (token ++ comma :: rest) selection =
        parseTokens rest ⟨selected selection.pids [range], selection.count + total [range]⟩ at parsed
      cases later ⟨selected selection.pids [range], selection.count + total [range]⟩ fits with
      | inl overflow =>
        obtain ⟨ranges, leads, large, none⟩ := overflow
        exact Or.inl ⟨range :: ranges, Tokens.more read leads, by rw [count]; exact large,
          parsed.trans none⟩
      | inr reads =>
        obtain ⟨bounded, ended⟩ := reads
        refine Or.inr ⟨?_, ?_⟩
        · intro leading found
          cases tokens_cut absent found with
          | inl none =>
            rw [none.1]
            exact small
          | inr token =>
            obtain ⟨other, behind, again, leads, same⟩ := token
            rw [same, ← token_unique read again, count]
            exact bounded behind leads
        · cases ended with
          | inl listed =>
            obtain ⟨ranges, found, done⟩ := listed
            refine Or.inl ⟨range :: ranges, Tokens.more read found, ?_⟩
            rw [parsed, done, count ranges, selected_cons]
          | inr unlisted =>
            obtain ⟨none, pids, done⟩ := unlisted
            refine Or.inr ⟨?_, pids, parsed.trans done⟩
            intro listed
            obtain ⟨ranges, found⟩ := listed
            cases tokens_cut absent found with
            | inl stopped => exact nonempty stopped.2
            | inr token =>
              obtain ⟨other, behind, -, found, -⟩ := token
              exact none ⟨behind, found⟩
    · rw [if_neg fits] at parsed
      exact Or.inl ⟨[range], Tokens.more read (Tokens.stop trivial), Nat.not_le.mp fits, parsed⟩
  · apply outcome_invalid selection nonempty small
      (parseTokens_invalid selection nonempty absent cut.1 valid)
    intro stop ranges found
    cases tokens_cut absent found with
    | inl none => exact none
    | inr token =>
      obtain ⟨range, behind, read, -⟩ := token
      exact absurd ⟨range, read⟩ valid

/-- An overflow, the end of the list, or a token that is none. -/
theorem parseTokens_outcome (text : List UInt8) (selection : Selection)
    (small : selection.count ≤ intMax) : Outcome text selection := by
  induction length : text.length using Nat.strong_induction_on generalizing text selection with
  | _ count ih =>
    by_cases empty : text = []
    · rw [empty]
      exact outcome_empty selection small
    · cases separated_cases comma text with
      | inl absent => exact outcome_last selection empty absent small
      | inr found =>
        obtain ⟨token, rest, split, absent⟩ := found
        rw [split]
        apply outcome_more selection absent small
        intro after fits
        apply ih rest.length _ rest after fits rfl
        rw [← length, split, List.length_append, List.length_cons]
        omega

end Loop

section Grammar

def plainNumber {base : Nat} (digits : List UInt8) (nonempty : digits ≠ [])
    (digital : ∀ b ∈ digits, isDigit base b = true) : Number base :=
  ⟨[], .unsigned, [], digits, by simp, Or.inl rfl, nonempty, digital⟩

theorem isPid_loose {token : List UInt8} {pid : Nat} (found : IsPid token pid) :
    LoosePid token pid := by
  obtain ⟨limit, spelled⟩ := found
  refine ⟨limit, ?_⟩
  cases spelled with
  | inl decimal =>
    obtain ⟨nonempty, digital, value⟩ := decimal
    have unmarked : ¬hexMarked token = true := by
      intro marked
      obtain ⟨x, digits, same, letter⟩ := hexMarked_split marked
      have second := digital x (by rw [same]; simp)
      rw [x_apart letter (by decide)] at second
      cases second
    rw [if_neg unmarked]
    exact ⟨plainNumber token nonempty digital, rfl, by rw [value]; rfl⟩
  | inr hexadecimal =>
    obtain ⟨x, digits, same, letter, nonempty, digital, value⟩ := hexadecimal
    have marked : hexMarked token = true := by
      simp [same, hexMarked, letter]
    rw [if_pos marked, same]
    exact Or.inr ⟨plainNumber digits nonempty digital, rfl, by rw [value]; rfl⟩

theorem ranged_loose {token : List UInt8} {range : Nat × Nat} (found : Ranged IsPid token range) :
    Ranged LoosePid token range := by
  cases found with
  | inl single => exact Or.inl ⟨single.1, isPid_loose single.2.1, single.2.2⟩
  | inr pair =>
    obtain ⟨front, back, split, absent, first, second, ordered⟩ := pair
    exact Or.inr ⟨front, back, split, absent, isPid_loose first, isPid_loose second, ordered⟩

theorem listed_loosely {text : List UInt8} {ranges : List (Nat × Nat)}
    (listed : Listed ranges text) : LooselyListed ranges text := by
  induction listed with
  | stop never => exact never.elim
  | last read => exact Tokens.last ⟨read.1, read.2.1, ranged_loose read.2.2⟩
  | more read rest ih => exact Tokens.more ⟨read.1, read.2.1, ranged_loose read.2.2⟩ ih

theorem loosely_unique {text : List UInt8} {first second : List (Nat × Nat)}
    (one : LooselyListed first text) (other : LooselyListed second text) : first = second := by
  induction one generalizing second with
  | stop empty =>
    subst empty
    cases tokens_single (by simp) other with
    | inl none => exact none.1.symm
    | inr token =>
      obtain ⟨range, read, -⟩ := token
      exact absurd rfl (token_nonempty read)
  | last read =>
    cases tokens_single read.1 other with
    | inl none => exact absurd none.2 (token_nonempty read)
    | inr token =>
      obtain ⟨range, again, same⟩ := token
      rw [same, token_unique read again]
  | more read rest ih =>
    cases tokens_cut read.1 other with
    | inl none => exact absurd none.2 (by simp)
    | inr token =>
      obtain ⟨range, behind, again, later, same⟩ := token
      rw [same, token_unique read again, ih later]

/-- Exactly the documented lists are accepted, and their PIDs selected. -/
def SelectsListed (format : List UInt8) (pids : Pids) : Prop :=
  ∃ ret after, parseSelectedPids format pids = some (ret, after) ∧
    (0 ≤ ret ↔ ∃ ranges, Listed ranges format) ∧
    (0 ≤ ret → ∀ ranges, Listed ranges format → after = selected pids ranges)

/-- A string is treated as documented exactly if it is not one of the loose lists alone, and the
tokens in front of the first invalid one do not list more PIDs than the counter holds. -/
theorem parseSelectedPids_iff (format : List UInt8) (pids : Pids) :
    SelectsListed format pids ↔
      (∀ leading, Leading leading format → total leading ≤ intMax) ∧
        ((∃ ranges, Listed ranges format) ∨ ¬∃ ranges, LooselyListed ranges format) := by
  have outcome := parseTokens_outcome format ⟨pids, 0⟩ (Nat.zero_le _)
  simp only [Outcome, Nat.zero_add] at outcome
  constructor
  · intro selects
    obtain ⟨ret, after, parsed, accepted, -⟩ := selects
    rw [parseSelectedPids] at parsed
    obtain ⟨ranges, -, -, overflow⟩ | ⟨bounded, ended⟩ := outcome
    · rw [overflow] at parsed
      cases parsed
    · refine ⟨bounded, ?_⟩
      cases ended with
      | inl listed =>
        obtain ⟨ranges, -, done⟩ := listed
        rw [done] at parsed
        obtain ⟨rfl, -⟩ := Prod.mk.inj (Option.some.inj parsed)
        exact Or.inl (accepted.mp (Int.natCast_nonneg _))
      | inr unlisted => exact Or.inr unlisted.1
  · intro holds
    obtain ⟨bounded, documented⟩ := holds
    obtain ⟨ranges, leads, large, -⟩ | ⟨-, ⟨ranges, listed, done⟩ | ⟨unlisted, after, done⟩⟩ := outcome
    · exact absurd (bounded ranges leads) (Nat.not_le.mpr large)
    · have strict : ∃ ranges, Listed ranges format :=
        documented.resolve_right fun none => none ⟨ranges, listed⟩
      refine ⟨_, _, done, iff_of_true (Int.natCast_nonneg _) strict, ?_⟩
      intro _ others found
      rw [loosely_unique listed (listed_loosely found)]
    · refine ⟨-1, after, done, iff_of_false (by decide) ?_, ?_⟩
      · intro strict
        obtain ⟨ranges, found⟩ := strict
        exact unlisted ⟨ranges, listed_loosely found⟩
      · intro accepted
        exact absurd accepted (by decide)

-- The empty string selects nothing, without an error.
theorem empty_list_accepted :
    ¬ ∀ (format : List UInt8) (pids : Pids), SelectsListed format pids := by
  intro right
  obtain ⟨ret, after, parsed, accepted, -⟩ := right [] (fun _ => 0)
  have value : parseSelectedPids [] (fun _ => 0) = some (0, fun _ => 0) := by
    rw [parseSelectedPids, parseTokens]
    rfl
  rw [value] at parsed
  obtain ⟨rfl, -⟩ := Prod.mk.inj (Option.some.inj parsed)
  obtain ⟨ranges, listed⟩ := accepted.mp (le_refl 0)
  cases tokens_single (by simp) listed with
  | inl stopped => exact stopped.2
  | inr token =>
    obtain ⟨range, read, -⟩ := token
    exact token_nonempty ⟨read.1, read.2.1, ranged_loose read.2.2⟩ rfl

end Grammar

end TsAnalyze.Options
