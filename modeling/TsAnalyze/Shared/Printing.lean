import TsAnalyze.Shared.Memory

set_option autoImplicit false

namespace Memory

variable {size : Nat}

-- the length of the whole text, whatever has been written of it
def printfCount (text : List UInt8) : Int :=
  if text.length ≤ 2147483647 then text.length else -1

/-- `snprintf` into the rest of an object. With a size of 0 nothing is written. -/
def Region.snprintf (buf : Region size) (out : Nat) (text : List UInt8) :
    Option (Region size × Int) :=
  let written := if size - out = 0 then [] else text.take (size - out - 1) ++ [0]
  (buf.memcpy out (ofBytes written) written.length).map fun after => (after, printfCount text)

theorem Region.snprintf_extends (buf : Region size) (out : Nat) (text : List UInt8) {used : Block}
    (filled : buf.cells.take out = used) (inside : out ≤ size) :
    ∃ after, buf.snprintf out text = some (after, printfCount text) ∧
      after.cells.take out = used ∧
      (out + text.length < size → after.cells.take (out + text.length) = used ++ ofBytes text) := by
  obtain ⟨stored, same⟩ : ∃ stored, stored =
      if size - out = 0 then [] else text.take (size - out - 1) ++ [0] := ⟨_, rfl⟩
  have usedLength : used.length = out := by
    rw [← filled, List.length_take, buf.sized, Nat.min_eq_left inside]
  have room : out + stored.length ≤ size := by
    rw [same]
    split
    · exact inside
    · rw [List.length_append, List.length_take, List.length_singleton]
      omega
  have storedLength : (ofBytes stored).length = stored.length := ofBytes_length stored
  obtain ⟨after, copied, cells⟩ := buf.memcpy_extends out stored.length (ofBytes stored) used
    filled room (Nat.le_of_eq storedLength.symm)
  rw [List.take_of_length_le (Nat.le_of_eq storedLength)] at cells
  refine ⟨after, ?_, ?_, ?_⟩
  · rw [Region.snprintf, ← same, copied]
    rfl
  · have shorter : (after.cells.take (out + stored.length)).take out = after.cells.take out := by
      rw [List.take_take, Nat.min_eq_left (Nat.le_add_right _ _)]
    rw [← shorter, cells, List.take_left' usedLength]
  · intro fits
    have whole : stored = text ++ [0] := by
      rw [same, if_neg (by omega), List.take_of_length_le (by omega)]
    have shorter : (after.cells.take (out + stored.length)).take (out + text.length) =
        after.cells.take (out + text.length) := by
      rw [List.take_take, whole, List.length_append, Nat.min_eq_left (by omega)]
    rw [← shorter, cells, whole, ofBytes_append, ← List.append_assoc]
    exact List.take_left' (by rw [List.length_append, ofBytes_length, usedLength])

-- a terminator goes behind what is in use
theorem Region.terminated (buf : Region size) {out : Nat} {used : Block}
    (filled : buf.cells.take out = used) (room : out < size) :
    ∃ after behind, buf.memcpy out [some 0] 1 = some after ∧
      after.cells = used ++ some 0 :: behind := by
  obtain ⟨after, copied, cells⟩ := buf.memcpy_cells out 1 [some 0] room (Nat.le_refl _)
  rw [Nat.cast_one] at copied
  refine ⟨after, buf.cells.drop (out + 1), copied, ?_⟩
  rw [cells, filled, List.append_assoc]
  rfl

/-- An array that a text is printed into, and where its next byte goes. -/
structure Printer (size : Nat) where
  raw : Region size
  out : Nat

/-- Printing that may stop early; `none` is an access out of range. -/
abbrev Printing (size : Nat) := ExceptT Unit (StateT (Printer size) Option)

-- the end is reached where the text and a terminator do not fit
def printText (text : List UInt8) : Printing size Unit := fun printer => do
  let (raw, n) ← printer.raw.snprintf printer.out text
  if n < 0 ∨ n ≥ (size : Int) - printer.out then return (.error (), ⟨raw, printer.out⟩)
  else return (.ok (), ⟨raw, printer.out + n.toNat⟩)

-- a single byte, stored without looking at the end
def printByte (byte : UInt8) : Printing size Unit := fun printer =>
  (printer.raw.memcpy printer.out [some byte] 1).map fun raw => (.ok (), ⟨raw, printer.out + 1⟩)

-- where the next byte goes
def place : Printing size Nat := fun printer => some (.ok printer.out, printer)

-- something that is read and not printed
def fetch {A : Type} (value : Option A) : Printing size A := fun printer =>
  value.map fun found => (.ok found, printer)

/-- The bytes that have been printed, which leave room for a terminator. -/
structure Printer.Holds (printer : Printer size) (written : List UInt8) : Prop where
  length : printer.out = written.length
  inside : printer.out < size
  cells : printer.raw.cells.take printer.out = ofBytes written

/-- From `start` on the text is printed as a whole if it fits in with a terminator, and up to
some place of it otherwise. -/
def Prints {A : Type} (start : Nat) (action : Printing size A) (value : A)
    (text : List UInt8) : Prop :=
  ∀ (printer : Printer size) (written : List UInt8), printer.Holds written → printer.out = start →
    ∃ result after shown, action printer = some (result, after) ∧
      after.Holds (written ++ shown) ∧ shown <+: text ∧
      (start + text.length < size → result = .ok value ∧ shown = text) ∧
      (size ≤ start + text.length → result = .error ())

section Prints

variable {A B : Type} {start : Nat}

theorem prints_pure (value : A) : Prints start (pure value : Printing size A) value [] := by
  intro printer written holds here
  have inside := holds.inside
  refine ⟨.ok value, printer, [], rfl, ?_, List.prefix_refl _, fun _ => ⟨rfl, rfl⟩, ?_⟩
  · rwa [List.append_nil]
  · intro full
    rw [List.length_nil] at full
    omega

theorem prints_bind {first : Printing size A} {next : A → Printing size B} {value : A}
    {result : B} {left right : List UInt8} (early : Prints start first value left)
    (late : start + left.length < size → Prints (start + left.length) (next value) result right) :
    Prints start (first >>= next) result (left ++ right) := by
  intro printer written holds here
  obtain ⟨found, middle, shown, ran, held, cut, fits, full⟩ := early printer written holds here
  by_cases room : start + left.length < size
  · obtain ⟨rfl, rfl⟩ := fits room
    have place : middle.out = start + shown.length := by
      rw [held.length, List.length_append, ← holds.length, here]
    obtain ⟨last, after, more, rest, kept, part, done, stop⟩ := late room middle _ held place
    refine ⟨last, after, shown ++ more, ?_, ?_, ?_, ?_, ?_⟩
    · change (first printer).bind _ = _
      rw [ran]
      exact rest
    · rwa [← List.append_assoc]
    · exact (List.prefix_append_right_inj _).mpr part
    · intro whole
      rw [List.length_append, ← Nat.add_assoc] at whole
      obtain ⟨same, all⟩ := done whole
      exact ⟨same, by rw [all]⟩
    · intro beyond
      rw [List.length_append, ← Nat.add_assoc] at beyond
      exact stop beyond
  · have stopped := full (Nat.not_lt.mp room)
    subst stopped
    refine ⟨.error (), middle, shown, ?_, held, cut.trans (List.prefix_append _ _), ?_, ?_⟩
    · change (first printer).bind _ = _
      rw [ran]
      rfl
    · intro whole
      rw [List.length_append] at whole
      omega
    · exact fun _ => rfl

theorem prints_text (text : List UInt8) (countable : size ≤ 2147483647) :
    Prints start (printText text : Printing size Unit) () text := by
  intro printer written holds here
  have inside := holds.inside
  obtain ⟨raw, printed, kept, added⟩ :=
    printer.raw.snprintf_extends printer.out text holds.cells (Nat.le_of_lt inside)
  by_cases room : printer.out + text.length < size
  · have count : printfCount text = text.length := if_pos (by omega)
    have more : ¬((text.length : Int) < 0 ∨ (text.length : Int) ≥ (size : Int) - printer.out) := by
      omega
    refine ⟨.ok (), ⟨raw, printer.out + text.length⟩, text, ?_, ⟨?_, room, ?_⟩, List.prefix_refl _,
      fun _ => ⟨rfl, rfl⟩, ?_⟩
    · rw [printText, printed, count, Option.bind_eq_bind, Option.bind_some]
      exact if_neg more
    · rw [List.length_append, holds.length]
    · rw [ofBytes_append]
      exact added room
    · intro full
      omega
  · have stop : printfCount text < 0 ∨ printfCount text ≥ (size : Int) - printer.out := by
      unfold printfCount
      split <;> omega
    refine ⟨.error (), ⟨raw, printer.out⟩, [], ?_, ⟨?_, inside, ?_⟩, List.nil_prefix, ?_,
      fun _ => rfl⟩
    · rw [printText, printed, Option.bind_eq_bind, Option.bind_some]
      exact if_pos stop
    · rw [List.append_nil, holds.length]
    · rw [List.append_nil]
      exact kept
    · intro fits
      omega

theorem prints_byte (byte : UInt8) (room : start + 1 < size) :
    Prints start (printByte byte : Printing size Unit) () [byte] := by
  intro printer written holds here
  obtain ⟨raw, copied, cells⟩ := printer.raw.memcpy_extends printer.out 1 [some byte] _ holds.cells
    (by omega) (Nat.le_refl _)
  refine ⟨.ok (), ⟨raw, printer.out + 1⟩, [byte], ?_, ⟨?_, ?_, ?_⟩, List.prefix_refl _,
    fun _ => ⟨rfl, rfl⟩, ?_⟩
  · rw [Nat.cast_one] at copied
    rw [printByte, copied]
    rfl
  · rw [List.length_append, holds.length, List.length_singleton]
  · change printer.out + 1 < size
    omega
  · rw [ofBytes_append]
    exact cells
  · intro full
    rw [List.length_singleton] at full
    omega

theorem prints_place {next : Nat → Printing size B} {result : B} {text : List UInt8}
    (later : Prints start (next start) result text) :
    Prints start (place >>= next) result text := by
  intro printer written holds here
  change ∃ result after shown, next printer.out printer = some (result, after) ∧ _
  rw [here]
  exact later printer written holds here

theorem prints_fetch {value : Option A} {found : A} {next : A → Printing size B} {result : B}
    {text : List UInt8} (known : value = some found)
    (later : Prints start (next found) result text) :
    Prints start (fetch value >>= next) result text := by
  subst known
  exact later

theorem prints_inside {action : Printing size A} {value : A} {text : List UInt8}
    (prints : start < size → Prints start action value text) :
    Prints start action value text := by
  intro printer written holds here
  exact prints (here ▸ holds.inside) printer written holds here

end Prints

theorem holds_start (room : 0 < size) :
    (⟨Region.zeros size, 0⟩ : Printer size).Holds [] :=
  ⟨rfl, room, List.take_zero⟩

end Memory
