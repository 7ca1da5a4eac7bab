import TsAnalyze.Subtitle.Fields

set_option autoImplicit false

namespace TsAnalyze.Subtitle

open Memory

-- a field of 4-bit strings and ends of lines
def encodeLines (blocks : List SubBlock) : List UInt8 :=
  encodeField (blocks.map .line)

/-- The field is read without a write behind the static buffer, and no more is written than four
times its bytes. -/
def OutputFits (blocks : List SubBlock) (behind : Block) (out : PixelOutput) : Prop :=
  ∃ turns result, Yields (readField turns (ofBytes (encodeLines blocks) ++ behind)
      (encodeLines blocks).length out) ((encodeLines blocks).length, blocks.length, result) ∧
    result.data.length ≤ 4 * (encodeLines blocks).length

section Weights

-- what is written of a group besides one byte a pixel
def deficit (count : Nat) : Nat :=
  if 2 < count then 2 + (4 - count % 4) % 4 else count

def deficits : Nat → List Code4 → Nat
  | count, [] => deficit count
  | count, .pixel _ _ _ :: codes => deficits (count + 1) codes
  | count, .run _ :: codes => deficit count + deficits 0 codes

-- what a run leaves over of four bytes for each of its own
def Run4.spare : Run4 → Nat
  | zeros _ _ _ | one | two => 2
  | short _ _ _ _ => 4
  | medium _ _ _ _ => 6
  | long _ _ _ _ => 8

def Code4.spare : Code4 → Nat
  | .pixel _ _ _ => 0
  | .run coded => coded.spare

/-- A string leaves 8 bytes over for its data_type and its end, and 2 more where it ends within a
byte; the end of a line leaves 2. -/
def SubBlock.spare : SubBlock → Nat
  | .string line =>
      (if (bits4 line.codes).length % 8 = 0 then 8 else 10) + (line.codes.map Code4.spare).sum
  | .endOfLine => 2

def SubBlock.deficit : SubBlock → Nat
  | .string line => deficits 0 line.codes
  | .endOfLine => 0

theorem flush_length (encode : List UInt8) :
    (flush encode).length = encode.length + deficit encode.length := by
  rw [flush, Subtitle.deficit]
  split
  · simp only [List.length_append, List.length_cons, List.length_nil, List.length_replicate]
    omega
  · rw [List.length_flatMap]
    simp
    omega

theorem switches_spare (run : Run4) : run.switches.length = 2 * run.spare := by
  cases run <;> simp [Run4.switches, Run4.spare]

/-- Two bytes for each four bits cover what is written, up to what the groups add and the runs
leave over. -/
theorem written4_length (codes : List Code4) (encode : List UInt8) :
    2 * (written4 encode codes).length + 2 * (codes.map Code4.spare).sum + 8 =
      (bits4 codes).length + 2 * encode.length + 2 * deficits encode.length codes := by
  induction codes generalizing encode with
  | nil =>
    have flushed := flush_length encode
    simp only [written4, deficits, bits4, List.map_nil, List.sum_nil, List.flatMap_nil,
      List.length_append, List.length_nil, Bits.ofNat_length]
    omega
  | cons code codes ih =>
    rw [bits4_cons, List.length_append, List.map_cons, List.sum_cons]
    cases code with
    | pixel value inked fits =>
      have later := ih (encode ++ [UInt8.ofNat value])
      rw [List.length_append, List.length_singleton] at later
      simp only [written4, deficits, Code4.spare, Code4.bits, Bits.ofNat_length, List.length_cons]
      omega
    | run run =>
      have later := ih []
      have flushed := flush_length encode
      have switches := switches_spare run
      simp only [written4, deficits, Code4.spare, Code4.bits, Bits.ofNat_length,
        List.length_append, Run4.stored, List.length_cons, List.length_nil] at later ⊢
      omega

theorem bits4_half (codes : List Code4) : (bits4 codes).length % 4 = 0 := by
  induction codes with
  | nil => rfl
  | cons code codes ih =>
    rw [bits4_cons, List.length_append]
    cases code with
    | pixel value inked fits =>
      rw [Code4.bits, Bits.ofNat_length]
      omega
    | run run =>
      have size := switches_length run
      rw [Code4.bits, List.length_append, Bits.ofNat_length]
      omega

theorem SubBlock.written_length (block : SubBlock) :
    block.written.length + block.spare = 4 * block.encode.length + block.deficit := by
  cases block with
  | string line =>
    obtain ⟨stuffing, same, few⟩ := line.spells
    have size := congrArg List.length same
    have half := bits4_half line.codes
    have total := written4_length line.codes []
    rw [Bits.ofBytes_length, List.length_append] at size
    simp only [SubBlock.written, SubBlock.spare, SubBlock.encode, SubBlock.deficit,
      List.length_cons, List.length_nil] at total ⊢
    split <;> omega
  | endOfLine => rfl

end Weights

theorem written_total (blocks : List SubBlock) :
    (blocks.flatMap SubBlock.written).length + (blocks.map SubBlock.spare).sum =
      4 * (encodeLines blocks).length + (blocks.map SubBlock.deficit).sum := by
  induction blocks with
  | nil => rfl
  | cons block blocks ih =>
    have first := block.written_length
    have split : encodeLines (block :: blocks) = block.encode ++ encodeLines blocks :=
      encodeField_cons (.line block) (blocks.map .line)
    rw [List.flatMap_cons, split]
    simp only [List.length_append, List.map_cons, List.sum_cons]
    omega

/-- No group overruns the static buffer, and what the runs, the ends of the lines and those of the
strings leave over pays for what the groups add. -/
structure Spared (blocks : List SubBlock) : Prop where
  room : ∀ block ∈ blocks, block.Buffered
  paid : (blocks.map SubBlock.deficit).sum ≤ (blocks.map SubBlock.spare).sum

/-- What is written only grows, so that it fits if it fits at the end. -/
theorem fieldFits_lines (room : Nat) (blocks : List SubBlock) (data : List UInt8)
    (fits : data.length ≤ room) :
    FieldFits room data (blocks.map .line) ↔
      (∀ block ∈ blocks, block.Buffered) ∧
        data.length + (blocks.flatMap SubBlock.written).length ≤ room := by
  induction blocks generalizing data with
  | nil => simpa [FieldFits] using fits
  | cons block blocks ih =>
    have grown : ((PixelBlock.line block).after data).length =
        data.length + block.written.length := List.length_append
    rw [List.map_cons, FieldFits, grown, List.forall_mem_cons, List.flatMap_cons,
      List.length_append, ← Nat.add_assoc, and_assoc]
    constructor
    · intro holds
      have later := (ih _ (by rw [grown]; exact holds.2.1)).mp holds.2.2
      rw [grown] at later
      exact ⟨holds.1, later⟩
    · intro holds
      have now : data.length + block.written.length ≤ room := by
        have bound := holds.2.2
        omega
      refine ⟨holds.1, now, (ih _ (by rwa [grown])).mpr ?_⟩
      rw [grown]
      exact holds.2

-- what stands in the output behind the lines
theorem after_lines (blocks : List SubBlock) (data : List UInt8) :
    (blocks.map .line).foldl PixelBlock.after data = data ++ blocks.flatMap SubBlock.written := by
  induction blocks generalizing data with
  | nil => simp
  | cons block blocks ih =>
    rw [List.map_cons, List.foldl_cons, ih, List.flatMap_cons, ← List.append_assoc]
    rfl

section Fits

variable (blocks : List SubBlock) {behind : Block} (more : 0 < behind.length) {out : PixelOutput}
  (settled : out.Settled)
include more settled

theorem outputFits_of_spared (spared : Spared blocks) : OutputFits blocks behind out := by
  have total := written_total blocks
  have paid := spared.paid
  have fits := (fieldFits_lines (4 * (encodeLines blocks).length) blocks [] (Nat.zero_le _)).mpr
    ⟨spared.room, by rw [List.length_nil]; omega⟩
  have field := readField_fits 0 more settled (blocks.map .line) fits
  rw [List.length_map] at field
  refine ⟨0, _, field, ?_⟩
  dsimp only
  rw [after_lines, List.nil_append]
  omega

theorem spared_of_outputFits (fits : OutputFits blocks behind out) : Spared blocks := by
  obtain ⟨turns, result, yields, -⟩ := fits
  obtain ⟨after, found, -⟩ := yields Heap.empty Heap.empty_available
  have held : FieldFits (4 * (encodeLines blocks).length) [] (blocks.map .line) := by
    by_contra lost
    have none := readField_lost turns more settled (blocks.map .line) lost Heap.empty
      Heap.empty_available
    rw [encodeLines, none] at found
    cases found
  obtain ⟨room, bound⟩ := (fieldFits_lines _ blocks [] (Nat.zero_le _)).mp held
  have total := written_total blocks
  rw [List.length_nil] at bound
  exact ⟨room, by omega⟩

theorem outputFits_iff : OutputFits blocks behind out ↔ Spared blocks :=
  ⟨spared_of_outputFits blocks more settled, outputFits_of_spared blocks more settled⟩

end Fits

-- a line of one pixel
def thinLine : String4 where
  codes := [.pixel 6 (by decide) (by decide)]
  bytes := [0x60, 0x00]
  spells := ⟨[false, false, false, false], by decide, by decide⟩

theorem outputFits_thin : OutputFits [.string thinLine, .endOfLine] [some 0xFF] {} :=
  (outputFits_iff [.string thinLine, .endOfLine] (by decide) ⟨rfl, rfl⟩).mpr
    ⟨by simp [SubBlock.Buffered, thinLine, Buffered4], by decide⟩

-- a pixel of one of the colours from 1 on
def inkedPixel (colour : Fin 15) : Code4 :=
  .pixel (colour.val + 1) (Nat.succ_pos _) (Nat.succ_lt_succ colour.isLt)

-- five pixels and a zero pixel, which are 28 bits and 17 bytes of output
def groupCodes : List Code4 :=
  [inkedPixel 0, inkedPixel 1, inkedPixel 2, inkedPixel 3, inkedPixel 4, .run .one]

def wideLine : String4 where
  codes := groupCodes ++ groupCodes ++ groupCodes ++ groupCodes
  bytes := [0x12, 0x34, 0x50, 0xC1, 0x23, 0x45, 0x0C, 0x12, 0x34, 0x50, 0xC1, 0x23, 0x45, 0x0C, 0]
  spells := ⟨[], by decide, by decide⟩

theorem outputFits_wide : ¬OutputFits [.string wideLine] [some 0xFF] {} := by
  intro fits
  exact absurd (spared_of_outputFits [.string wideLine] (by decide) ⟨rfl, rfl⟩ fits).paid (by decide +kernel)

end TsAnalyze.Subtitle
