import TsAnalyze.Shared.Bits

set_option autoImplicit false

namespace Strtol

def plus : UInt8 := 43
def minus : UInt8 := 45
def zero : UInt8 := 48

-- isspace in the C locale
def isSpace (b : UInt8) : Bool :=
  b = 32 || (9 ≤ b && b ≤ 13)

def digit (b : UInt8) : Option Nat :=
  if 48 ≤ b ∧ b ≤ 57 then some (b.toNat - 48)
  else if 97 ≤ b ∧ b ≤ 122 then some (b.toNat - 87)
  else if 65 ≤ b ∧ b ≤ 90 then some (b.toNat - 55)
  else none

def isDigit (base : Nat) (b : UInt8) : Bool :=
  (digit b).any fun d => d < base

def digitsValue (base : Nat) (digits : List UInt8) : Nat :=
  digits.foldl (fun value b => value * base + (digit b).getD 0) 0

def isX (b : UInt8) : Bool :=
  b = 120 || b = 88

-- is the number negative, and what stands behind its sign
def takeSign : List UInt8 → Bool × List UInt8
  | [] => (false, [])
  | b :: rest => if b = minus then (true, rest) else (false, if b = plus then rest else b :: rest)

-- Without a digit behind it, the subject sequence ends at the zero.
def skipPrefix (base : Nat) : List UInt8 → List UInt8
  | b :: x :: d :: rest =>
      if base = 16 ∧ b = zero ∧ isX x ∧ isDigit 16 d then d :: rest else b :: x :: d :: rest
  | text => text

def longMax : Int := 9223372036854775807

structure Conversion where
  value : Int
  -- what `*endptr` leads to
  rest : List UInt8
  outOfRange : Bool

def converted (number : Int) (rest : List UInt8) : Conversion :=
  if number < -longMax - 1 then ⟨-longMax - 1, rest, true⟩
  else if longMax < number then ⟨longMax, rest, true⟩
  else ⟨number, rest, false⟩

/-- `strtol` for the bases from 2 to 36, as the C standard has it. -/
def strtol (base : Nat) (text : List UInt8) : Conversion :=
  let (negative, subject) := takeSign (text.dropWhile isSpace)
  let subject := skipPrefix base subject
  let digits := subject.takeWhile (isDigit base)
  if digits = [] then ⟨0, text, false⟩
  else
    let magnitude := (digitsValue base digits : Int)
    converted (if negative then -magnitude else magnitude) (subject.dropWhile (isDigit base))

inductive Sign where
  | unsigned
  | plus
  | minus

def Sign.bytes : Sign → List UInt8
  | .unsigned => []
  | .plus => [Strtol.plus]
  | .minus => [Strtol.minus]

def Sign.negative : Sign → Bool
  | .minus => true
  | _ => false

/-- A text that is a number as a whole. -/
structure Number (base : Nat) where
  blanks : List UInt8
  sign : Sign
  mark : List UInt8
  digits : List UInt8
  blank : ∀ b ∈ blanks, isSpace b = true
  marked : mark = [] ∨ base = 16 ∧ ∃ x, mark = [zero, x] ∧ isX x = true
  some_digit : digits ≠ []
  digital : ∀ b ∈ digits, isDigit base b = true

namespace Number

variable {base : Nat}

def text (number : Number base) : List UInt8 :=
  number.blanks ++ (number.sign.bytes ++ (number.mark ++ number.digits))

def value (number : Number base) : Int :=
  if number.sign.negative then -(digitsValue base number.digits : Int)
  else digitsValue base number.digits

end Number

theorem digit_apart (b : UInt8) :
    (digit b).isSome → isSpace b = false ∧ b ≠ plus ∧ b ≠ minus := by
  revert b
  apply Bits.byte_all
  decide +kernel

theorem isDigit_some {base : Nat} {b : UInt8} (found : isDigit base b = true) :
    (digit b).isSome := by
  unfold isDigit at found
  cases known : digit b with
  | none => rw [known] at found; cases found
  | some d => rfl

theorem x_digit (b : UInt8) : isX b = true → digit b = some 33 := by
  revert b
  apply Bits.byte_all
  decide +kernel

theorem x_apart {base : Nat} {b : UInt8} (letter : isX b = true) (small : base ≤ 33) :
    isDigit base b = false := by
  rw [isDigit, x_digit b letter, Option.any_some]
  exact decide_eq_false (Nat.not_lt.mpr small)

theorem dropWhile_blanks (blanks text : List UInt8) (blank : ∀ b ∈ blanks, isSpace b = true)
    (head : ∀ b ∈ text.head?, isSpace b = false) :
    (blanks ++ text).dropWhile isSpace = text := by
  rw [List.dropWhile_append_of_pos blank]
  cases text with
  | nil => rfl
  | cons b rest => rw [List.dropWhile_cons, head b rfl, if_neg Bool.false_ne_true]

namespace Number

variable {base : Nat}

theorem head_digit (number : Number base) :
    ∃ b rest, number.mark ++ number.digits = b :: rest ∧ (digit b).isSome := by
  cases number.marked with
  | inl none =>
    rw [none, List.nil_append]
    cases digits : number.digits with
    | nil => exact absurd digits number.some_digit
    | cons b rest =>
      refine ⟨b, rest, rfl, isDigit_some (number.digital b ?_)⟩
      rw [digits]
      exact List.mem_cons_self
  | inr found =>
    obtain ⟨-, x, marked, -⟩ := found
    exact ⟨zero, x :: number.digits, by rw [marked]; rfl, by decide⟩

theorem takeSign_text (number : Number base) :
    takeSign (number.text.dropWhile isSpace) =
      (number.sign.negative, number.mark ++ number.digits) := by
  obtain ⟨b, rest, first, known⟩ := number.head_digit
  obtain ⟨dark, notPlus, notMinus⟩ := digit_apart b known
  rw [text, first]
  cases number.sign with
  | unsigned =>
    rw [dropWhile_blanks _ _ number.blank (by simp [Sign.bytes, dark])]
    simp [Sign.bytes, Sign.negative, takeSign, notPlus, notMinus]
  | plus =>
    rw [dropWhile_blanks _ _ number.blank (by simp [Sign.bytes]; decide)]
    rfl
  | minus =>
    rw [dropWhile_blanks _ _ number.blank (by simp [Sign.bytes]; decide)]
    rfl

theorem skipPrefix_digits {digits : List UInt8} (digital : ∀ b ∈ digits, isDigit base b = true) :
    skipPrefix base digits = digits := by
  match digits with
  | [] => rfl
  | [_] => rfl
  | [_, _] => rfl
  | b :: x :: d :: rest =>
    rw [skipPrefix, if_neg]
    intro prefixed
    have second := digital x (by simp)
    rw [prefixed.1, x_apart prefixed.2.2.1 (by decide)] at second
    cases second

theorem skipPrefix_text (number : Number base) :
    skipPrefix base (number.mark ++ number.digits) = number.digits := by
  cases number.marked with
  | inl none => rw [none, List.nil_append, skipPrefix_digits number.digital]
  | inr found =>
    obtain ⟨hex, x, marked, letter⟩ := found
    rw [marked]
    cases digits : number.digits with
    | nil => exact absurd digits number.some_digit
    | cons d rest =>
      have digital := number.digital d (by rw [digits]; exact List.mem_cons_self)
      rw [hex] at digital
      exact if_pos ⟨hex, rfl, letter, digital⟩

end Number

theorem strtol_text {base : Nat} (number : Number base) :
    strtol base number.text = converted number.value [] := by
  have taken : number.digits.takeWhile (isDigit base) = number.digits :=
    List.takeWhile_eq_self_iff.mpr number.digital
  have dropped : number.digits.dropWhile (isDigit base) = [] :=
    List.dropWhile_eq_nil_iff.mpr number.digital
  simp only [strtol, number.takeSign_text, number.skipPrefix_text, taken, dropped,
    number.some_digit, if_false]
  rfl

@[simp] theorem converted_rest (number : Int) (rest : List UInt8) :
    (converted number rest).rest = rest := by
  unfold converted
  split_ifs <;> rfl

theorem takeSign_split (text : List UInt8) :
    ∃ sign : Sign, text = sign.bytes ++ (takeSign text).2 := by
  cases text with
  | nil => exact ⟨.unsigned, rfl⟩
  | cons b rest =>
    by_cases negative : b = minus
    · exact ⟨.minus, by simp [takeSign, negative, Sign.bytes]⟩
    · by_cases positive : b = plus
      · refine ⟨.plus, ?_⟩
        simp [takeSign, positive, Sign.bytes, show plus ≠ minus by decide]
      · exact ⟨.unsigned, by simp [takeSign, negative, positive, Sign.bytes]⟩

theorem skipPrefix_split (base : Nat) (text : List UInt8) :
    ∃ mark, text = mark ++ skipPrefix base text ∧
      (mark = [] ∨ base = 16 ∧ ∃ x, mark = [zero, x] ∧ isX x = true) := by
  match text with
  | [] => exact ⟨[], rfl, Or.inl rfl⟩
  | [_] => exact ⟨[], rfl, Or.inl rfl⟩
  | [_, _] => exact ⟨[], rfl, Or.inl rfl⟩
  | b :: x :: d :: rest =>
    by_cases prefixed : base = 16 ∧ b = zero ∧ isX x ∧ isDigit 16 d
    · refine ⟨[b, x], ?_, Or.inr ⟨prefixed.1, x, ?_, prefixed.2.2.1⟩⟩
      · rw [skipPrefix, if_pos prefixed]
        rfl
      · rw [prefixed.2.1]
    · exact ⟨[], by rw [skipPrefix, if_neg prefixed]; rfl, Or.inl rfl⟩

/-- A text that has been read to its end is a number, unless nothing has been read of it. -/
theorem number_of_rest {base : Nat} {text : List UInt8} (whole : (strtol base text).rest = [])
    (nonempty : text ≠ []) : ∃ number : Number base, number.text = text := by
  obtain ⟨sign, signed⟩ := takeSign_split (text.dropWhile isSpace)
  obtain ⟨mark, split, marked⟩ := skipPrefix_split base (takeSign (text.dropWhile isSpace)).2
  by_cases none : (skipPrefix base (takeSign (text.dropWhile isSpace)).2).takeWhile
      (isDigit base) = []
  · simp only [strtol, none, if_true] at whole
    exact absurd whole nonempty
  · simp only [strtol, none, if_false, converted_rest] at whole
    have digital := List.dropWhile_eq_nil_iff.mp whole
    rw [List.takeWhile_eq_self_iff.mpr digital] at none
    refine ⟨⟨text.takeWhile isSpace, sign, mark, _, ?_, marked, none, digital⟩, ?_⟩
    · intro b member
      exact List.mem_takeWhile_imp member
    · rw [Number.text, ← split, ← signed, List.takeWhile_append_dropWhile]

end Strtol
