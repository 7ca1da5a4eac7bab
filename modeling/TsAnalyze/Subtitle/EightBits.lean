import TsAnalyze.Subtitle.PixelStrings

set_option autoImplicit false

namespace TsAnalyze.Subtitle

open Memory Tables Descriptors

inductive Code8
  | pixel (value : UInt8) (inked : value ≠ 0)
  | zeros (run : Nat) (more : 0 < run) (fits : run < 128)
  | run (run : Nat) (value : UInt8) (least : 3 ≤ run) (fits : run < 128)

namespace Code8

def encode : Code8 → List UInt8
  | pixel value _ => [value]
  | zeros count _ _ => [0, UInt8.ofNat count]
  | run count value _ _ => [0, UInt8.ofNat (0x80 + count), value]

def pixels : Code8 → List UInt8
  | pixel value _ => [value]
  | zeros count _ _ => List.replicate count 0
  | run count value _ _ => List.replicate count value

theorem encode_length_pos (code : Code8) : 0 < code.encode.length := by
  cases code <;> simp [encode]

end Code8

-- the codes of a string, and its end
def encode8 (codes : List Code8) : List UInt8 :=
  codes.flatMap Code8.encode ++ [0, 0]

def pixels8 (codes : List Code8) : List UInt8 :=
  codes.flatMap Code8.pixels

-- what takes the place of a run of zero pixels
def storedZeros (count : Nat) : List UInt8 :=
  if 2 < count then [0] else []

/-- What is written for the codes while these pixels are buffered. -/
def written8 : List UInt8 → List Code8 → List UInt8
  | encode, [] => flush encode
  | encode, .pixel value _ :: codes => written8 (encode ++ [value]) codes
  | encode, .zeros count _ _ :: codes => flush encode ++ storedZeros count ++ written8 [] codes
  | encode, .run count value _ _ :: codes =>
      flush encode ++ [UInt8.ofNat count, value] ++ written8 [] codes

-- there is room for the pixels when as many are buffered
def Buffered8 : Nat → List Code8 → Prop
  | _, [] => True
  | count, .pixel _ _ :: codes => count < 256 ∧ Buffered8 (count + 1) codes
  | _, .zeros _ _ _ :: codes => Buffered8 0 codes
  | _, .run _ _ _ _ :: codes => Buffered8 0 codes

section Zero

-- a byte of a flag and seven bits
theorem read8bitZero_byte {pbuf : Block} {blen : Nat} {byte : UInt8}
    (found : read8 pbuf blen = some byte) :
    readBitField .uint8 pbuf blen 1 0 = some (byte.toNat / 128) ∧
      readBitField .uint8 pbuf blen 7 1 = some (byte.toNat % 128) := by
  have bound := byte.toNat_lt
  have here : pbuf[blen]? = some (some byte) := by
    rw [read8] at found
    cases cell : pbuf[blen]? with
    | none => simp [cell] at found
    | some known => simpa [cell] using found
  have cells : (pbuf.drop blen).take 1 = [some byte] := by
    obtain ⟨inside, same⟩ := List.getElem?_eq_some_iff.mp here
    rw [List.drop_eq_getElem_cons inside, List.take_succ_cons, List.take_zero, same]
  constructor
  · simp only [readBitField, IntType.size, cells, cellBytes, Bits.bigEndian, readBits_low]
    simp
    omega
  · simp only [readBitField, IntType.size, cells, cellBytes, Bits.bigEndian, readBits_low]
    simp

end Zero

/-- The bytes of the memory from this offset on, with anything behind them. -/
def Holds (pbuf : Block) (blen : Nat) (bytes : List UInt8) : Prop :=
  ∃ behind, pbuf.drop blen = ofBytes bytes ++ behind

section Holds

variable {pbuf : Block} {blen : Nat}

theorem Holds.read {byte : UInt8} {bytes : List UInt8} (holds : Holds pbuf blen (byte :: bytes)) :
    read8 pbuf blen = some byte := by
  obtain ⟨behind, same⟩ := holds
  rw [← Nat.add_zero blen, ← read8_drop, same]
  rfl

theorem Holds.later {first bytes : List UInt8} (holds : Holds pbuf blen (first ++ bytes)) :
    Holds pbuf (blen + first.length) bytes := by
  obtain ⟨behind, same⟩ := holds
  refine ⟨behind, ?_⟩
  rw [← List.drop_drop, same, ofBytes_append, List.append_assoc,
    List.drop_left' (ofBytes_length first)]

theorem Holds.tail {byte : UInt8} {bytes : List UInt8} (holds : Holds pbuf blen (byte :: bytes)) :
    Holds pbuf (blen + 1) bytes := by
  rw [← List.singleton_append] at holds
  exact holds.later

end Holds

-- the first code of a string, and the string behind it
theorem encode8_cons (code : Code8) (codes : List Code8) :
    encode8 (code :: codes) = code.encode ++ encode8 codes := by
  rw [encode8, List.flatMap_cons, List.append_assoc, ← encode8]

section Turns

variable {pbuf : Block} {blen : Nat} (turns : Nat) (encode code : List UInt8)

theorem read8bitLoop_end (holds : Holds pbuf blen (encode8 [])) :
    read8bitLoop pbuf (turns + 1) blen encode code =
      some (blen + 2, [], code ++ flush encode) := by
  have zero : read8 pbuf blen = some 0 := holds.read
  have later : Holds pbuf (blen + 1) [0] := holds.tail
  obtain ⟨flag, count⟩ := read8bitZero_byte later.read
  simp only [read8bitLoop, read8bitZero, zero, flag, count, Option.bind_eq_bind, Option.bind_some]
  rfl

theorem read8bitLoop_pixel (value : UInt8) (inked : value ≠ 0) (codes : List Code8)
    (holds : Holds pbuf blen (encode8 (.pixel value inked :: codes))) :
    read8bitLoop pbuf (turns + 1) blen encode code =
      if encode.length < 256 then
        read8bitLoop pbuf turns (blen + 1) (encode ++ [value]) code
      else none := by
  rw [encode8_cons] at holds
  have found : read8 pbuf blen = some value := holds.read
  simp only [read8bitLoop, found, Option.bind_eq_bind, Option.bind_some, ne_eq, inked,
    not_false_eq_true, if_true]

theorem read8bitLoop_zeros (count : Nat) (more : 0 < count) (fits : count < 128)
    (codes : List Code8) (holds : Holds pbuf blen (encode8 (.zeros count more fits :: codes))) :
    read8bitLoop pbuf (turns + 1) blen encode code =
      read8bitLoop pbuf turns (blen + 2) [] (code ++ flush encode ++ storedZeros count) := by
  rw [encode8_cons] at holds
  have zero : read8 pbuf blen = some 0 := holds.read
  have later : Holds pbuf (blen + 1) (UInt8.ofNat count :: encode8 codes) :=
    holds.tail
  have byte : (UInt8.ofNat count).toNat = count := UInt8.toNat_ofNat_of_lt' (show count < 256 by omega)
  obtain ⟨flag, number⟩ := read8bitZero_byte later.read
  rw [byte, Nat.div_eq_of_lt fits] at flag
  rw [byte, Nat.mod_eq_of_lt fits] at number
  simp only [read8bitLoop, read8bitZero, zero, flag, number, Option.bind_eq_bind, Option.bind_some,
    if_pos (Nat.ne_of_gt more), storedZeros]
  rfl

theorem read8bitLoop_run (count : Nat) (value : UInt8) (least : 3 ≤ count) (fits : count < 128)
    (codes : List Code8)
    (holds : Holds pbuf blen (encode8 (.run count value least fits :: codes))) :
    read8bitLoop pbuf (turns + 1) blen encode code =
      read8bitLoop pbuf turns (blen + 3) []
        (code ++ flush encode ++ [UInt8.ofNat count, value]) := by
  rw [encode8_cons] at holds
  have zero : read8 pbuf blen = some 0 := holds.read
  have later : Holds pbuf (blen + 1) (UInt8.ofNat (0x80 + count) :: value :: encode8 codes) :=
    holds.tail
  have last : Holds pbuf (blen + 1 + 1) (value :: encode8 codes) :=
    later.tail
  have byte : (UInt8.ofNat (0x80 + count)).toNat = 0x80 + count :=
    UInt8.toNat_ofNat_of_lt' (show 0x80 + count < 256 by omega)
  obtain ⟨flag, number⟩ := read8bitZero_byte later.read
  rw [byte, show (0x80 + count) / 128 = 1 by omega] at flag
  rw [byte, show (0x80 + count) % 128 = count by omega] at number
  simp only [read8bitLoop, read8bitZero, zero, flag, number, last.read, Option.bind_eq_bind,
    Option.bind_some]
  rfl

end Turns

section Loop

variable {pbuf : Block}

theorem read8bitLoop_codes (codes : List Code8) (turns blen : Nat) (encode code : List UInt8)
    (enough : codes.length < turns) (room : Buffered8 encode.length codes)
    (holds : Holds pbuf blen (encode8 codes)) :
    read8bitLoop pbuf turns blen encode code =
      some (blen + (encode8 codes).length, [], code ++ written8 encode codes) := by
  induction codes generalizing turns blen encode code with
  | nil =>
    obtain ⟨turns, rfl⟩ := Nat.exists_eq_add_of_lt enough
    exact read8bitLoop_end _ encode code holds
  | cons first codes ih =>
    obtain ⟨turns, rfl⟩ : ∃ fewer, turns = fewer + 1 := ⟨turns - 1, by omega⟩
    rw [List.length_cons] at enough
    have later := holds
    rw [encode8_cons] at later
    have later := later.later
    rw [encode8_cons, List.length_append, ← Nat.add_assoc]
    cases first with
    | pixel value inked =>
      obtain ⟨few, room⟩ := room
      rw [read8bitLoop_pixel turns encode code value inked codes holds, if_pos few, written8]
      exact ih turns _ _ code (by omega)
        (by rwa [List.length_append, List.length_singleton]) later
    | zeros count more fits =>
      rw [read8bitLoop_zeros turns encode code count more fits codes holds, written8,
        ← List.append_assoc, ← List.append_assoc]
      exact ih turns _ [] _ (by omega) room later
    | run count value least fits =>
      rw [read8bitLoop_run turns encode code count value least fits codes holds, written8,
        ← List.append_assoc, ← List.append_assoc]
      exact ih turns _ [] _ (by omega) room later

-- the static buffer is written behind its end
theorem read8bitLoop_overrun (codes : List Code8) (turns blen : Nat) (encode code : List UInt8)
    (overrun : ¬Buffered8 encode.length codes) (holds : Holds pbuf blen (encode8 codes)) :
    read8bitLoop pbuf turns blen encode code = none := by
  induction codes generalizing turns blen encode code with
  | nil => exact absurd trivial overrun
  | cons first codes ih =>
    cases turns with
    | zero => rfl
    | succ turns =>
      have later := holds
      rw [encode8_cons] at later
      have later := later.later
      cases first with
      | pixel value inked =>
        rw [read8bitLoop_pixel turns encode code value inked codes holds]
        split
        · rename_i few
          apply ih turns _ _ code _ later
          rw [List.length_append, List.length_singleton]
          exact fun room => overrun ⟨few, room⟩
        · rfl
      | zeros count more fits =>
        rw [read8bitLoop_zeros turns encode code count more fits codes holds]
        exact ih turns _ [] _ overrun later
      | run count value least fits =>
        rw [read8bitLoop_run turns encode code count value least fits codes holds]
        exact ih turns _ [] _ overrun later

end Loop

theorem encode8_length_gt (codes : List Code8) : codes.length < (encode8 codes).length := by
  induction codes with
  | nil => simp [encode8]
  | cons code codes ih =>
    have first := code.encode_length_pos
    rw [encode8_cons, List.length_append, List.length_cons]
    omega

section Strings

variable (codes : List Code8) (behind : Block) {out : PixelOutput} (settled : out.encode8 = [])
include settled

/-- What the function returns for a string, and what it writes from the output's start on. -/
theorem read8bit_string (room : Buffered8 0 codes) :
    read8bitPixelCodeString (ofBytes (encode8 codes) ++ behind) out =
      some ((encode8 codes).length, { out with data := written8 [] codes }) := by
  have least := encode8_length_gt codes
  have holds : Holds (ofBytes (encode8 codes) ++ behind) 0 (encode8 codes) := ⟨behind, rfl⟩
  have loop := read8bitLoop_codes codes (ofBytes (encode8 codes) ++ behind).length 0 [] []
    (by rw [List.length_append, ofBytes_length]; omega) room holds
  rw [Nat.zero_add, List.nil_append] at loop
  rw [read8bitPixelCodeString, settled, loop]
  simp only [Option.bind_eq_bind, Option.bind_some, ← settled]
  rfl

theorem read8bit_overrun (overrun : ¬Buffered8 0 codes) :
    read8bitPixelCodeString (ofBytes (encode8 codes) ++ behind) out = none := by
  rw [read8bitPixelCodeString, settled, read8bitLoop_overrun codes _ 0 [] [] overrun ⟨behind, rfl⟩]
  rfl

end Strings

end TsAnalyze.Subtitle
