import TsAnalyze.Shared.Yields
import TsAnalyze.Subtitle.EightBits
import TsAnalyze.Subtitle.FourBits
import TsAnalyze.Subtitle.TwoBits

set_option autoImplicit false

namespace TsAnalyze.Subtitle

open Memory

/-- A string of 4-bit codes, or the end of a line. -/
inductive SubBlock
  | string (string : String4)
  | endOfLine

/-- The sub-blocks of a field. -/
inductive PixelBlock
  | line (block : SubBlock)
  | two (string : String2)
  | eight (codes : List Code8)
  | table2to4 (b0 b1 : UInt8)
  | table2to8 (entries : List UInt8) (sized : entries.length = 4)
  | table4to8 (entries : List UInt8) (sized : entries.length = 16)

namespace SubBlock

def encode : SubBlock → List UInt8
  | .string line => 0x11 :: line.bytes
  | .endOfLine => [0xF0]

def written : SubBlock → List UInt8
  | .string line => written4 [] line.codes
  | .endOfLine => [0, 0]

def Buffered : SubBlock → Prop
  | .string line => Buffered4 0 line.codes
  | .endOfLine => True

end SubBlock

namespace PixelBlock

def encode : PixelBlock → List UInt8
  | line block => block.encode
  | two string => 0x10 :: string.bytes
  | eight codes => 0x12 :: encode8 codes
  | table2to4 b0 b1 => [0x20, b0, b1]
  | table2to8 entries _ => 0x21 :: entries
  | table4to8 entries _ => 0x22 :: entries

-- what the output is behind the sub-block
def after (data : List UInt8) : PixelBlock → List UInt8
  | line block => data ++ block.written
  | eight codes => written8 [] codes
  | _ => data

/-- The sub-block is read to its end, without a write behind the static buffers. -/
def Ends : PixelBlock → Prop
  | line block => block.Buffered
  | two _ => False
  | eight codes => Buffered8 0 codes
  | _ => True

theorem encode_length_pos (block : PixelBlock) : 0 < block.encode.length := by
  cases block with
  | line block => cases block <;> simp [encode, SubBlock.encode]
  | two string => simp [encode]
  | eight codes => simp [encode]
  | table2to4 b0 b1 => simp [encode]
  | table2to8 entries sized => simp [encode]
  | table4to8 entries sized => simp [encode]

end PixelBlock

/-- The literals that earlier strings have left in the static buffers: none. -/
structure PixelOutput.Settled (out : PixelOutput) : Prop where
  encode4 : out.encode4 = []
  encode8 : out.encode8 = []

def encodeField (blocks : List PixelBlock) : List UInt8 :=
  blocks.flatMap PixelBlock.encode

/-- All sub-blocks are read, and the output has room for what there is behind each. -/
def FieldFits (room : Nat) : List UInt8 → List PixelBlock → Prop
  | _, [] => True
  | data, block :: blocks =>
      block.Ends ∧ (block.after data).length ≤ room ∧ FieldFits room (block.after data) blocks

section Blocks

variable (turns : Nat) {behind : Block} (more : 0 < behind.length) {out : PixelOutput}
  (settled : out.Settled)

theorem readMapTable_encoded (size : Nat) (entries : List UInt8) (sized : entries.length = size)
    (behind : Block) (out : PixelOutput) :
    Yields (readMapTable size (ofBytes entries ++ behind) out) (entries.length + 1, out) := by
  have read := readBytes_whole entries behind
  rw [sized] at read ⊢
  rw [readMapTable, Nat.add_comm size]
  apply yields_allocated
  exact yields_read read (yields_pure _)

include more settled

theorem readPixelDataSubBlock_ends (block : PixelBlock) (ends : block.Ends) :
    Yields (readPixelDataSubBlock turns (ofBytes block.encode ++ behind) out)
      (block.encode.length, { out with data := block.after out.data }) := by
  cases block with
  | line block =>
    cases block with
    | string line =>
      have first : read8 (ofBytes (0x11 :: line.bytes) ++ behind) 0 = some 0x11 := rfl
      have read := read4bit_string line.spells more settled.encode4 ends
      apply yields_read first
      apply yields_ite_false (by decide)
      apply yields_ite_true rfl
      apply yields_read read
      dsimp only [PixelBlock.encode, SubBlock.encode]
      rw [List.length_cons, Nat.add_comm]
      exact yields_pure _
    | endOfLine => exact yields_pure _
  | two string => exact ends.elim
  | eight codes =>
    have first : read8 (ofBytes (0x12 :: encode8 codes) ++ behind) 0 = some 0x12 := rfl
    have read := read8bit_string codes behind settled.encode8 ends
    apply yields_read first
    apply yields_ite_false (by decide)
    apply yields_ite_false (by decide)
    apply yields_ite_true rfl
    apply yields_read read
    dsimp only [PixelBlock.encode]
    rw [List.length_cons, Nat.add_comm]
    exact yields_pure _
  | table2to4 b0 b1 => exact readMapTable_encoded 2 [b0, b1] rfl behind out
  | table2to8 entries sized => exact readMapTable_encoded 4 entries sized behind out
  | table4to8 entries sized => exact readMapTable_encoded 16 entries sized behind out

-- a string that is not read to its end
theorem readPixelDataSubBlock_lost (block : PixelBlock) (lost : ¬block.Ends) (heap : Heap) :
    readPixelDataSubBlock turns (ofBytes block.encode ++ behind) out heap = none := by
  cases found : readPixelDataSubBlock turns (ofBytes block.encode ++ behind) out heap with
  | none => rfl
  | some result =>
    obtain ⟨dataType, typeRead, later⟩ := lift_bind found
    cases block with
    | line block =>
      cases block with
      | string line =>
        obtain rfl : (0x11 : UInt8) = dataType := Option.some.inj typeRead
        rw [if_neg (by decide), if_pos rfl] at later
        obtain ⟨read, stringRead, -⟩ := lift_bind later
        have none := read4bit_overrun line.spells more settled.encode4 lost
        exact absurd (stringRead.symm.trans none) (by simp)
      | endOfLine => exact absurd trivial lost
    | two string =>
      obtain rfl : (0x10 : UInt8) = dataType := Option.some.inj typeRead
      rw [if_pos rfl] at later
      obtain ⟨read, stringRead, -⟩ := lift_bind later
      exact absurd (stringRead.symm.trans (read2bit_endless _ turns out)) (by simp)
    | eight codes =>
      obtain rfl : (0x12 : UInt8) = dataType := Option.some.inj typeRead
      rw [if_neg (by decide), if_neg (by decide), if_pos rfl] at later
      obtain ⟨read, stringRead, -⟩ := lift_bind later
      have none := read8bit_overrun codes behind settled.encode8 lost
      exact absurd (stringRead.symm.trans none) (by simp)
    | table2to4 b0 b1 => exact absurd trivial lost
    | table2to8 entries sized => exact absurd trivial lost
    | table4to8 entries sized => exact absurd trivial lost

end Blocks

theorem encodeField_cons (block : PixelBlock) (blocks : List PixelBlock) :
    encodeField (block :: blocks) = block.encode ++ encodeField blocks :=
  List.flatMap_cons

theorem encodeField_length_ge (blocks : List PixelBlock) :
    blocks.length ≤ (encodeField blocks).length := by
  induction blocks with
  | nil => exact Nat.le_refl 0
  | cons block blocks ih =>
    have first := block.encode_length_pos
    rw [encodeField_cons, List.length_append, List.length_cons]
    omega

section Loop

variable (turns : Nat) {behind : Block} (more : 0 < behind.length) {pdata : Block} {length : Nat}
include more

/-- A field that fits is read to its end, and leaves what its last sub-block leaves. -/
theorem readFieldLoop_fits (blocks : List PixelBlock) (fuel len i : Nat) (out : PixelOutput)
    (settled : out.Settled) (enough : blocks.length ≤ fuel)
    (total : len + (encodeField blocks).length = length)
    (holds : pdata.drop len = ofBytes (encodeField blocks) ++ behind)
    (fits : FieldFits (4 * length) out.data blocks) :
    Yields (readFieldLoop turns pdata length fuel len i out)
      (length, i + blocks.length,
        { out with data := blocks.foldl PixelBlock.after out.data }) := by
  induction blocks generalizing fuel len i out with
  | nil =>
    have last : len = length := by
      rw [← total, encodeField]
      simp
    have loop : readFieldLoop turns pdata length fuel len i out = pure (len, i, out) := by
      cases fuel <;> exact if_neg (by omega)
    rw [loop, last]
    exact yields_pure _
  | cons block blocks ih =>
    obtain ⟨fuel, rfl⟩ : ∃ fewer, fuel = fewer + 1 := ⟨fuel - 1, by
      rw [List.length_cons] at enough
      omega⟩
    have size := block.encode_length_pos
    rw [encodeField_cons, List.length_append] at total
    rw [encodeField_cons, ofBytes_append, List.append_assoc] at holds
    have some : 0 < (ofBytes (encodeField blocks) ++ behind).length := by
      rw [List.length_append]
      omega
    obtain ⟨ends, room, rest⟩ := fits
    have later := ih fuel (len + block.encode.length) (i + 1)
      { out with data := block.after out.data } ⟨settled.encode4, settled.encode8⟩
      (by rw [List.length_cons] at enough; omega) (by omega)
      (by rw [← List.drop_drop, holds, List.drop_left' (ofBytes_length _)]) rest
    rw [readFieldLoop]
    apply yields_ite_true (by omega)
    rw [holds]
    apply yields_bind (readPixelDataSubBlock_ends turns some settled block ends)
    apply yields_ite_true room
    rw [List.length_cons, Nat.add_comm blocks.length, ← Nat.add_assoc]
    exact later

theorem readFieldLoop_lost (blocks : List PixelBlock) (fuel len i : Nat) (out : PixelOutput)
    (settled : out.Settled) (total : len + (encodeField blocks).length = length)
    (holds : pdata.drop len = ofBytes (encodeField blocks) ++ behind)
    (lost : ¬FieldFits (4 * length) out.data blocks) (heap : Heap) (available : heap.Available) :
    readFieldLoop turns pdata length fuel len i out heap = none := by
  induction blocks generalizing fuel len i out heap with
  | nil => exact absurd trivial lost
  | cons block blocks ih =>
    have size := block.encode_length_pos
    rw [encodeField_cons, List.length_append] at total
    rw [encodeField_cons, ofBytes_append, List.append_assoc] at holds
    have some : 0 < (ofBytes (encodeField blocks) ++ behind).length := by
      rw [List.length_append]
      omega
    cases fuel with
    | zero =>
      rw [readFieldLoop, if_pos (by omega)]
      rfl
    | succ fuel =>
      rw [readFieldLoop, if_pos (by omega), holds]
      change (readPixelDataSubBlock turns _ out heap).bind _ = none
      by_cases ends : block.Ends
      · obtain ⟨after, found, supply⟩ :=
          readPixelDataSubBlock_ends turns some settled block ends heap available
        rw [found, Option.bind_some]
        dsimp only
        by_cases room : (block.after out.data).length ≤ 4 * length
        · rw [if_pos room]
          exact ih fuel (len + block.encode.length) (i + 1)
            { out with data := block.after out.data } ⟨settled.encode4, settled.encode8⟩
            (by omega) (by rw [← List.drop_drop, holds, List.drop_left' (ofBytes_length _)])
            (fun rest => lost ⟨ends, room, rest⟩) after (available.of_succeeds supply)
        · rw [if_neg room]
          rfl
      · rw [readPixelDataSubBlock_lost turns some settled block ends heap]
        rfl

end Loop

section Field

variable (turns : Nat) {behind : Block} (more : 0 < behind.length) {out : PixelOutput}
  (settled : out.Settled) (blocks : List PixelBlock)
include more settled

theorem readField_fits (fits : FieldFits (4 * (encodeField blocks).length) [] blocks) :
    Yields (readField turns (ofBytes (encodeField blocks) ++ behind) (encodeField blocks).length out)
      ((encodeField blocks).length, blocks.length,
        { out with data := blocks.foldl PixelBlock.after [] }) := by
  have loop := readFieldLoop_fits turns more blocks (encodeField blocks).length 0 0
    { out with data := [] } ⟨settled.encode4, settled.encode8⟩ (encodeField_length_ge blocks)
    (Nat.zero_add _) List.drop_zero fits
  rwa [Nat.zero_add] at loop

theorem readField_lost (lost : ¬FieldFits (4 * (encodeField blocks).length) [] blocks)
    (heap : Heap) (available : heap.Available) :
    readField turns (ofBytes (encodeField blocks) ++ behind) (encodeField blocks).length out
      heap = none :=
  readFieldLoop_lost turns more blocks _ 0 0 { out with data := [] }
    ⟨settled.encode4, settled.encode8⟩ (Nat.zero_add _) List.drop_zero lost heap available

end Field

end TsAnalyze.Subtitle
