import TsAnalyze.Subtitle.PixelStrings

set_option autoImplicit false

namespace TsAnalyze.Subtitle

open Memory Tables Descriptors

/-- The runs of a 4-bit string, by the number that is sent of each. -/
inductive Run4
  | zeros (run : Nat) (more : 0 < run) (fits : run < 8)
  | one
  | two
  | short (run value : Nat) (runFits : run < 4) (valueFits : value < 16)
  | medium (run value : Nat) (runFits : run < 16) (valueFits : value < 16)
  | long (run value : Nat) (runFits : run < 256) (valueFits : value < 16)

inductive Code4
  | pixel (value : Nat) (inked : 0 < value) (fits : value < 16)
  | run (coded : Run4)

namespace Run4

def length : Run4 → Nat
  | zeros run _ _ => run + 2
  | one => 1
  | two => 2
  | short run _ _ _ => run + 4
  | medium run _ _ _ => run + 9
  | long run _ _ _ => run + 25

def value : Run4 → Nat
  | zeros _ _ _ | one | two => 0
  | short _ value _ _ | medium _ value _ _ | long _ value _ _ => value

-- behind the four zero bits
def switches : Run4 → List Bool
  | zeros run _ _ => Bits.ofNat 1 0 ++ Bits.ofNat 3 run
  | one => Bits.ofNat 1 1 ++ (Bits.ofNat 1 1 ++ Bits.ofNat 2 0)
  | two => Bits.ofNat 1 1 ++ (Bits.ofNat 1 1 ++ Bits.ofNat 2 1)
  | short run value _ _ =>
      Bits.ofNat 1 1 ++ (Bits.ofNat 1 0 ++ (Bits.ofNat 2 run ++ Bits.ofNat 4 value))
  | medium run value _ _ =>
      Bits.ofNat 1 1 ++ (Bits.ofNat 1 1 ++ (Bits.ofNat 2 2 ++ (Bits.ofNat 4 run ++
        Bits.ofNat 4 value)))
  | long run value _ _ =>
      Bits.ofNat 1 1 ++ (Bits.ofNat 1 1 ++ (Bits.ofNat 2 3 ++ (Bits.ofNat 8 run ++
        Bits.ofNat 4 value)))

def stored (run : Run4) : List UInt8 :=
  [UInt8.ofNat run.length, UInt8.ofNat run.value]

end Run4

namespace Code4

def bits : Code4 → List Bool
  | .pixel value _ _ => Bits.ofNat 4 value
  | .run coded => Bits.ofNat 4 0 ++ coded.switches

def pixels : Code4 → List UInt8
  | .pixel value _ _ => [UInt8.ofNat value]
  | .run coded => List.replicate coded.length (UInt8.ofNat coded.value)

theorem bits_length_ge (code : Code4) : 4 ≤ code.bits.length := by
  cases code with
  | pixel value inked fits => simp [bits]
  | run coded => simp [bits]

end Code4

-- the codes of a string, and its end
def bits4 (codes : List Code4) : List Bool :=
  codes.flatMap Code4.bits ++ (Bits.ofNat 4 0 ++ (Bits.ofNat 1 0 ++ Bits.ofNat 3 0))

def pixels4 (codes : List Code4) : List UInt8 :=
  codes.flatMap Code4.pixels

/-- What is written for the codes while these pixels are buffered. -/
def written4 : List UInt8 → List Code4 → List UInt8
  | encode, [] => flush encode
  | encode, .pixel value _ _ :: codes =>
      UInt8.ofNat value :: written4 (encode ++ [UInt8.ofNat value]) codes
  | encode, .run coded :: codes => flush encode ++ coded.stored ++ written4 [] codes

-- there is room for the pixels when as many are buffered
def Buffered4 : Nat → List Code4 → Prop
  | _, [] => True
  | count, .pixel _ _ _ :: codes => count < 256 ∧ Buffered4 (count + 1) codes
  | _, .run _ :: codes => Buffered4 0 codes

section Zero

variable {bytes : List UInt8} {behind : Block} {position : Nat} {rest : List Bool}
  (more : 0 < behind.length)
include more

theorem takeRun_from {width run value : Nat} (least : Nat) (some : 0 < width) (few : width ≤ 8)
    (runFits : run < 2 ^ width) (valueFits : value < 16)
    (found : From bytes position (Bits.ofNat width run ++ (Bits.ofNat 4 value ++ rest))) :
    takeRun (ofBytes bytes ++ behind) width least (Place.ofBit position) =
      Option.some (Option.some [UInt8.ofNat (run + least), UInt8.ofNat value],
        Place.ofBit (position + width + 4)) := by
  obtain ⟨runTaken, found⟩ := take16_number found some runFits more few
  obtain ⟨valueTaken, -⟩ := take16_number found (by omega) valueFits more (by omega)
  simp only [takeRun, runTaken, valueTaken, Option.bind_eq_bind, Option.bind_some]
  rfl

theorem takeLongRun_from {run value : Nat} (runFits : run < 256) (valueFits : value < 16)
    (found : From bytes position (Bits.ofNat 8 run ++ (Bits.ofNat 4 value ++ rest))) :
    takeLongRun (ofBytes bytes ++ behind) (Place.ofBit position) =
      some (some [UInt8.ofNat (run + 25), UInt8.ofNat value],
        Place.ofBit (position + 8 + 4)) := by
  have runRead := read16_number found (by omega) runFits more (by omega)
  obtain ⟨-, found⟩ := take16_number found (by omega) runFits more (by omega)
  obtain ⟨valueTaken, -⟩ := take16_number found (by omega) valueFits more (by omega)
  have moved : Place.mk (position / 8 + 1) (position % 8) = Place.ofBit (position + 8) := by
    rw [Place.ofBit, Place.mk.injEq]
    omega
  simp only [takeLongRun, Place.ofBit, runRead, Option.bind_eq_bind, Option.bind_some]
  rw [moved, valueTaken]
  rfl

-- four zero bits end at a half of a byte
variable (half : position % 4 = 0)
include half

theorem read4bitZero_run (run : Run4) (found : From bytes position (run.switches ++ rest)) :
    read4bitZero (ofBytes bytes ++ behind) (Place.ofBit position) =
      some (some run.stored, Place.ofBit (position + run.switches.length)) := by
  cases run with
  | zeros run positive fits =>
    simp only [Run4.switches, List.append_assoc] at found
    obtain ⟨switch1, found⟩ := take8_number behind found (by omega) (by omega) (by omega)
    obtain ⟨taken, -⟩ := take16_number found (by omega) fits more (by omega)
    simp only [read4bitZero, switch1, taken, Option.bind_eq_bind, Option.bind_some, if_true,
      if_pos (Nat.ne_of_gt positive)]
    rfl
  | one =>
    simp only [Run4.switches, List.append_assoc] at found
    obtain ⟨switch1, found⟩ := take8_number behind found (by omega) (by omega) (by omega)
    obtain ⟨switch2, found⟩ := take8_number behind found (by omega) (by omega) (by omega)
    obtain ⟨switch3, -⟩ := take16_number found (by omega) (by omega) more (by omega)
    simp only [read4bitZero, switch1, switch2, switch3, Option.bind_eq_bind, Option.bind_some]
    rfl
  | two =>
    simp only [Run4.switches, List.append_assoc] at found
    obtain ⟨switch1, found⟩ := take8_number behind found (by omega) (by omega) (by omega)
    obtain ⟨switch2, found⟩ := take8_number behind found (by omega) (by omega) (by omega)
    obtain ⟨switch3, -⟩ := take16_number found (by omega) (by omega) more (by omega)
    simp only [read4bitZero, switch1, switch2, switch3, Option.bind_eq_bind, Option.bind_some]
    rfl
  | short run value runFits valueFits =>
    simp only [Run4.switches, List.append_assoc] at found
    obtain ⟨switch1, found⟩ := take8_number behind found (by omega) (by omega) (by omega)
    obtain ⟨switch2, found⟩ := take8_number behind found (by omega) (by omega) (by omega)
    have taken := takeRun_from more 4 (by omega) (by omega) runFits valueFits found
    simp only [read4bitZero, switch1, switch2, taken, Option.bind_eq_bind, Option.bind_some]
    rfl
  | medium run value runFits valueFits =>
    simp only [Run4.switches, List.append_assoc] at found
    obtain ⟨switch1, found⟩ := take8_number behind found (by omega) (by omega) (by omega)
    obtain ⟨switch2, found⟩ := take8_number behind found (by omega) (by omega) (by omega)
    obtain ⟨switch3, found⟩ := take16_number found (by omega) (by omega) more (by omega)
    have taken := takeRun_from more 9 (by omega) (by omega) runFits valueFits found
    simp only [read4bitZero, switch1, switch2, switch3, taken, Option.bind_eq_bind,
      Option.bind_some]
    rfl
  | long run value runFits valueFits =>
    simp only [Run4.switches, List.append_assoc] at found
    obtain ⟨switch1, found⟩ := take8_number behind found (by omega) (by omega) (by omega)
    obtain ⟨switch2, found⟩ := take8_number behind found (by omega) (by omega) (by omega)
    obtain ⟨switch3, found⟩ := take16_number found (by omega) (by omega) more (by omega)
    have taken := takeLongRun_from more runFits valueFits found
    simp only [read4bitZero, switch1, switch2, switch3, taken, Option.bind_eq_bind,
      Option.bind_some]
    rfl

theorem read4bitZero_end
    (found : From bytes position (Bits.ofNat 1 0 ++ (Bits.ofNat 3 0 ++ rest))) :
    read4bitZero (ofBytes bytes ++ behind) (Place.ofBit position) =
      some (none, Place.ofBit (position + 4)) := by
  obtain ⟨switch1, found⟩ := take8_number behind found (by omega) (by omega) (by omega)
  obtain ⟨taken, -⟩ := take16_number found (by omega) (by omega) more (by omega)
  simp only [read4bitZero, switch1, taken, Option.bind_eq_bind, Option.bind_some]
  rfl

end Zero

theorem switches_length (run : Run4) : run.switches.length % 4 = 0 := by
  cases run <;> simp [Run4.switches]

-- the first code of a string, and the string behind it
theorem bits4_cons (code : Code4) (codes : List Code4) :
    bits4 (code :: codes) = code.bits ++ bits4 codes := by
  rw [bits4, List.flatMap_cons, List.append_assoc, ← bits4]

section Loop

variable {bytes : List UInt8} {behind : Block} {rest : List Bool} (more : 0 < behind.length)
include more

section Turns

variable {position : Nat} (turns : Nat) (encode code : List UInt8)

theorem read4bitLoop_pixel (value : Nat) (inked : 0 < value) (fits : value < 16)
    (codes : List Code4)
    (found : From bytes position (bits4 (.pixel value inked fits :: codes) ++ rest)) :
    read4bitLoop (ofBytes bytes ++ behind) (turns + 1) (Place.ofBit position) encode code =
        (if encode.length < 256 then
          read4bitLoop (ofBytes bytes ++ behind) turns (Place.ofBit (position + 4))
            (encode ++ [UInt8.ofNat value]) (code ++ [UInt8.ofNat value])
        else none) ∧
      From bytes (position + 4) (bits4 codes ++ rest) := by
  rw [bits4_cons, List.append_assoc, Code4.bits] at found
  obtain ⟨taken, later⟩ := take16_number found (by omega) fits more (by omega)
  refine ⟨?_, later⟩
  simp only [read4bitLoop, taken, Option.bind_eq_bind, Option.bind_some,
    if_pos (Nat.ne_of_gt inked)]

variable (half : position % 4 = 0)
include half

theorem read4bitLoop_end (found : From bytes position (bits4 [] ++ rest)) :
    read4bitLoop (ofBytes bytes ++ behind) (turns + 1) (Place.ofBit position) encode code =
      some (Place.ofBit (position + 8), [], code ++ flush encode) := by
  rw [bits4, List.flatMap_nil, List.nil_append, List.append_assoc, List.append_assoc] at found
  obtain ⟨taken, found⟩ := take16_number found (by omega) (by omega) more (by omega)
  have ended := read4bitZero_end more (by omega) found
  simp only [read4bitLoop, taken, ended, Option.bind_eq_bind, Option.bind_some]
  rfl

theorem read4bitLoop_run (run : Run4) (codes : List Code4)
    (found : From bytes position (bits4 (.run run :: codes) ++ rest)) :
    read4bitLoop (ofBytes bytes ++ behind) (turns + 1) (Place.ofBit position) encode code =
        read4bitLoop (ofBytes bytes ++ behind) turns
          (Place.ofBit (position + (Code4.run run).bits.length)) []
          (code ++ flush encode ++ run.stored) ∧
      From bytes (position + (Code4.run run).bits.length) (bits4 codes ++ rest) := by
  rw [bits4_cons, List.append_assoc] at found
  have later := found.later
  rw [Code4.bits, List.append_assoc] at found
  obtain ⟨taken, found⟩ := take16_number found (by omega) (by omega) more (by omega)
  have read := read4bitZero_run more (by omega) run found
  refine ⟨?_, later⟩
  rw [Code4.bits, List.length_append, Bits.ofNat_length, ← Nat.add_assoc]
  simp only [read4bitLoop, taken, read, Option.bind_eq_bind, Option.bind_some]
  rfl

end Turns

theorem read4bitLoop_codes (codes : List Code4) (turns position : Nat) (encode code : List UInt8)
    (half : position % 4 = 0) (enough : codes.length < turns)
    (room : Buffered4 encode.length codes) (found : From bytes position (bits4 codes ++ rest)) :
    read4bitLoop (ofBytes bytes ++ behind) turns (Place.ofBit position) encode code =
      some (Place.ofBit (position + (bits4 codes).length), [], code ++ written4 encode codes) := by
  induction codes generalizing turns position encode code with
  | nil =>
    obtain ⟨turns, rfl⟩ := Nat.exists_eq_add_of_lt enough
    exact read4bitLoop_end more _ encode code half found
  | cons first codes ih =>
    obtain ⟨turns, rfl⟩ : ∃ fewer, turns = fewer + 1 := ⟨turns - 1, by omega⟩
    rw [List.length_cons] at enough
    cases first with
    | pixel value inked fits =>
      obtain ⟨turn, found⟩ := read4bitLoop_pixel more turns encode code value inked fits codes
        found
      obtain ⟨few, room⟩ := room
      rw [turn, if_pos few, ih turns (position + 4) _ _ (by omega) (by omega)
        (by rwa [List.length_append, List.length_singleton]) found, bits4_cons, written4,
        List.length_append, Code4.bits, Bits.ofNat_length, Nat.add_assoc, List.append_assoc,
        List.singleton_append]
    | run run =>
      obtain ⟨turn, found⟩ := read4bitLoop_run more turns encode code half run codes found
      have size := switches_length run
      have later := ih turns _ [] (code ++ flush encode ++ run.stored)
        (by rw [Code4.bits, List.length_append, Bits.ofNat_length]; omega) (by omega) room found
      rw [turn, later, bits4_cons, written4, List.length_append, Nat.add_assoc]
      simp only [List.append_assoc]

-- the static buffer is written behind its end
theorem read4bitLoop_overrun (codes : List Code4) (turns position : Nat) (encode code : List UInt8)
    (half : position % 4 = 0) (overrun : ¬Buffered4 encode.length codes)
    (found : From bytes position (bits4 codes ++ rest)) :
    read4bitLoop (ofBytes bytes ++ behind) turns (Place.ofBit position) encode code = none := by
  induction codes generalizing turns position encode code with
  | nil => exact absurd trivial overrun
  | cons first codes ih =>
    cases turns with
    | zero => rfl
    | succ turns =>
      cases first with
      | pixel value inked fits =>
        obtain ⟨turn, found⟩ := read4bitLoop_pixel more turns encode code value inked fits
          codes found
        rw [turn]
        split
        · rename_i few
          apply ih turns (position + 4) _ _ (by omega) _ found
          rw [List.length_append, List.length_singleton]
          exact fun room => overrun ⟨few, room⟩
        · rfl
      | run run =>
        obtain ⟨turn, found⟩ := read4bitLoop_run more turns encode code half run codes found
        have size := switches_length run
        rw [turn]
        exact ih turns _ [] _
          (by rw [Code4.bits, List.length_append, Bits.ofNat_length]; omega) overrun found

end Loop

theorem bits4_length_ge (codes : List Code4) : 4 * codes.length + 8 ≤ (bits4 codes).length := by
  induction codes with
  | nil => simp [bits4]
  | cons code codes ih =>
    have first := code.bits_length_ge
    rw [bits4_cons, List.length_append, List.length_cons]
    omega

/-- A string of codes as it is sent. -/
structure String4 where
  codes : List Code4
  bytes : List UInt8
  spells : Spells bytes (bits4 codes)

section Strings

variable {bytes : List UInt8} {codes : List Code4} (spells : Spells bytes (bits4 codes))
  {behind : Block} (more : 0 < behind.length) {out : PixelOutput} (settled : out.encode4 = [])
include spells more settled

/-- What the function returns for a string, and what it writes behind the output. -/
theorem read4bit_string (room : Buffered4 0 codes) :
    read4bitPixelCodeString (ofBytes bytes ++ behind) out =
      some (bytes.length, { out with data := out.data ++ written4 [] codes }) := by
  have aligned := spells.aligned
  obtain ⟨stuffing, same, few⟩ := spells
  have size := congrArg List.length same
  have least := bits4_length_ge codes
  rw [Bits.ofBytes_length, List.length_append] at size
  have loop := read4bitLoop_codes more codes (2 * (ofBytes bytes ++ behind).length) 0 [] [] rfl
    (by rw [List.length_append, ofBytes_length]; omega) room same
  rw [Nat.zero_add, List.nil_append] at loop
  have start : Place.ofBit 0 = {} := rfl
  rw [read4bitPixelCodeString, settled, ← start, loop]
  simp only [Option.bind_eq_bind, Option.bind_some, aligned, ← settled]
  rfl

theorem read4bit_overrun (overrun : ¬Buffered4 0 codes) :
    read4bitPixelCodeString (ofBytes bytes ++ behind) out = none := by
  obtain ⟨stuffing, same, few⟩ := spells
  have start : Place.ofBit 0 = {} := rfl
  rw [read4bitPixelCodeString, settled, ← start,
    read4bitLoop_overrun more codes _ 0 [] [] rfl overrun same]
  rfl

end Strings

end TsAnalyze.Subtitle
