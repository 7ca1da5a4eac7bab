import TsAnalyze.Subtitle.PixelStrings

set_option autoImplicit false

namespace TsAnalyze.Subtitle

open Memory

/-- The codes of a 2-bit string; a run by the number that is sent of it. -/
inductive Code2
  | pixel (value : Nat) (inked : 0 < value) (fits : value < 4)
  | one
  | two
  | short (run value : Nat) (runFits : run < 8) (valueFits : value < 4)
  | medium (run value : Nat) (runFits : run < 16) (valueFits : value < 4)
  | long (run value : Nat) (runFits : run < 256) (valueFits : value < 4)

namespace Code2

def bits : Code2 → List Bool
  | pixel value _ _ => Bits.ofNat 2 value
  | one => Bits.ofNat 2 0 ++ Bits.ofNat 2 1
  | two => Bits.ofNat 2 0 ++ Bits.ofNat 2 0 ++ Bits.ofNat 2 1
  | short run value _ _ =>
      Bits.ofNat 2 0 ++ Bits.ofNat 1 1 ++ Bits.ofNat 3 run ++ Bits.ofNat 2 value
  | medium run value _ _ =>
      Bits.ofNat 2 0 ++ Bits.ofNat 2 0 ++ Bits.ofNat 2 2 ++ Bits.ofNat 4 run ++ Bits.ofNat 2 value
  | long run value _ _ =>
      Bits.ofNat 2 0 ++ Bits.ofNat 2 0 ++ Bits.ofNat 2 3 ++ Bits.ofNat 8 run ++ Bits.ofNat 2 value

def pixels : Code2 → List UInt8
  | pixel value _ _ => [UInt8.ofNat value]
  | one => [0]
  | two => [0, 0]
  | short run value _ _ => List.replicate (run + 3) (UInt8.ofNat value)
  | medium run value _ _ => List.replicate (run + 12) (UInt8.ofNat value)
  | long run value _ _ => List.replicate (run + 29) (UInt8.ofNat value)

end Code2

-- the codes of a string, and its end
def bits2 (codes : List Code2) : List Bool :=
  codes.flatMap Code2.bits ++ (Bits.ofNat 2 0 ++ Bits.ofNat 2 0 ++ Bits.ofNat 2 0)

def pixels2 (codes : List Code2) : List UInt8 :=
  codes.flatMap Code2.pixels

/-- A string of codes as it is sent. -/
structure String2 where
  codes : List Code2
  bytes : List UInt8
  spells : Spells bytes (bits2 codes)

/-- After some number of turns the function returns the size of the string, and has written its
pixels. -/
def String2.Ends (string : String2) (behind : Block) (out : PixelOutput) : Prop :=
  ∃ turns result, read2bitPixelCodeString turns (ofBytes string.bytes ++ behind) out =
    some (string.bytes.length, result) ∧ result.data = pixels2 string.codes

section Turns

variable (pbuf : Block)

-- no branch sets end
theorem read2bitTurn_ended {state after : TwoBitLoop}
    (found : read2bitTurn pbuf state = some after) : after.ended = state.ended := by
  obtain ⟨⟨nextBits, place⟩, -, found⟩ := Option.bind_eq_some_iff.mp found
  dsimp only at found
  split at found
  · cases found
    rfl
  · obtain ⟨⟨switch1, place⟩, -, found⟩ := Option.bind_eq_some_iff.mp found
    dsimp only at found
    split at found
    · obtain ⟨⟨run, place⟩, -, found⟩ := Option.bind_eq_some_iff.mp found
      obtain ⟨value, -, found⟩ := Option.bind_eq_some_iff.mp found
      cases found
      rfl
    · obtain ⟨⟨switch2, place⟩, -, found⟩ := Option.bind_eq_some_iff.mp found
      dsimp only at found
      split at found
      · obtain ⟨⟨switch3, place⟩, -, found⟩ := Option.bind_eq_some_iff.mp found
        dsimp only at found
        split at found
        · obtain ⟨⟨run, place⟩, -, found⟩ := Option.bind_eq_some_iff.mp found
          obtain ⟨⟨value, place⟩, -, found⟩ := Option.bind_eq_some_iff.mp found
          cases found
          rfl
        · split at found
          · split at found
            · obtain ⟨run, -, found⟩ := Option.bind_eq_some_iff.mp found
              obtain ⟨⟨value, place⟩, -, found⟩ := Option.bind_eq_some_iff.mp found
              cases found
              rfl
            · cases found
          · cases found
            rfl
      · cases found
        rfl

/-- No number of turns leads out of the loop. -/
theorem read2bitLoop_endless (turns : Nat) (state : TwoBitLoop) (running : state.ended = false) :
    read2bitLoop pbuf turns state = none := by
  induction turns generalizing state with
  | zero => simp [read2bitLoop, running]
  | succ turns ih =>
    rw [read2bitLoop, running, if_neg (by decide)]
    cases turn : read2bitTurn pbuf state with
    | none => rfl
    | some after => exact ih after ((read2bitTurn_ended pbuf turn).trans running)

theorem read2bit_endless (turns : Nat) (out : PixelOutput) :
    read2bitPixelCodeString turns pbuf out = none := by
  rw [read2bitPixelCodeString, read2bitLoop_endless pbuf turns {} rfl]
  rfl

end Turns

theorem not_ends2 (string : String2) (behind : Block) (out : PixelOutput) :
    ¬string.Ends behind out := by
  intro ends
  obtain ⟨turns, result, found, -⟩ := ends
  rw [read2bit_endless] at found
  cases found

-- one pixel of one of the colours from 1 on
def inkedPixel2 (colour : Fin 3) : Code2 :=
  .pixel (colour.val + 1) (Nat.succ_pos _) (Nat.succ_lt_succ colour.isLt)

-- one pixel of colour 2, and the end of the string
def pixelString2 : String2 where
  codes := [inkedPixel2 1]
  bytes := [0x80]
  spells := ⟨[], by decide, by decide⟩

theorem not_ends2_pixel : ¬pixelString2.Ends [some 0xFF] {} := by
  intro ends
  obtain ⟨turns, result, found, -⟩ := ends
  rw [read2bit_endless] at found
  cases found

end TsAnalyze.Subtitle
