import TsAnalyze.Shared.Rle8
import TsAnalyze.Subtitle.EightBits
import TsAnalyze.Subtitle.FourBits

set_option autoImplicit false

namespace TsAnalyze.Subtitle

open Memory

/-- The string is read to its end, and what is written behind the output decodes to the row. -/
def Transcodes (read : Block → PixelOutput → Option (Nat × PixelOutput)) (bytes : List UInt8)
    (behind : Block) (out : PixelOutput) (row : List UInt8) : Prop :=
  ∃ result added, read (ofBytes bytes ++ behind) out = some (bytes.length, result) ∧
    result.data = out.data ++ added ∧ Rle8.decode added = some row

/-- Rows that have come to their end, and what there is of the next one. -/
def Earlier (data : List UInt8) : Prop :=
  ∃ finished current, data = finished.flatMap (· ++ [0, 0]) ++ current ∧
    ∀ codes ∈ finished ++ [current], (Rle8.decode codes).isSome = true

-- a count that a byte holds
theorem count_byte (count : Nat) (positive : 0 < count) (few : count < 256) :
    (UInt8.ofNat count).toNat = count ∧ UInt8.ofNat count ≠ 0 := by
  have byte : (UInt8.ofNat count).toNat = count := UInt8.toNat_ofNat_of_lt' few
  refine ⟨byte, fun zero => ?_⟩
  rw [zero] at byte
  exact Nat.ne_of_gt positive byte.symm

section Groups

/-- A group of buffered pixels that is padded as the format wants it. -/
def Kept (count : Nat) : Prop :=
  count ≤ 2 ∨ count < 256 ∧ (count % 4 = 0 ∨ count % 4 = 3)

variable (encode rest : List UInt8)

-- runs of one pixel
theorem decode_single_pixels :
    Rle8.decode (encode.flatMap (fun pixel => [1, pixel]) ++ rest) =
      (Rle8.decode rest).map (encode ++ ·) := by
  induction encode with
  | nil => simp
  | cons pixel encode ih =>
    rw [List.flatMap_cons, List.append_assoc, List.cons_append, List.cons_append, List.nil_append,
      Rle8.decode_run (by decide), ih, Option.map_map]
    rfl

theorem decode_flush (kept : Kept encode.length) :
    Rle8.decode (flush encode ++ rest) = (Rle8.decode rest).map (encode ++ ·) := by
  rw [flush]
  split
  · rename_i many
    have count : (UInt8.ofNat encode.length).toNat = encode.length :=
      UInt8.toNat_ofNat_of_lt' (show encode.length < 256 by cases kept <;> omega)
    have fill : (List.replicate ((4 - encode.length % 4) % 4) (0 : UInt8)).length =
        encode.length % 2 := by
      rw [List.length_replicate]
      cases kept <;> omega
    exact Rle8.decode_absolute encode _ rest _ count many fill
  · exact decode_single_pixels encode rest

-- padding that ends the row, or a count of 0
theorem decode_flush_lost (room : encode.length ≤ 256) (lost : ¬Kept encode.length) :
    Rle8.decode (flush encode ++ rest) = none := by
  have many : 2 < encode.length := by
    by_contra few
    exact lost (Or.inl (by omega))
  rw [flush, if_pos many]
  by_cases whole : encode.length = 256
  · rw [whole]
    exact Rle8.decode_escape (by decide) _
  · have count : (UInt8.ofNat encode.length).toNat = encode.length :=
      UInt8.toNat_ofNat_of_lt' (show encode.length < 256 by omega)
    have half : (4 - encode.length % 4) % 4 = encode.length % 2 + 2 := by
      rw [Kept] at lost
      omega
    have fill : (List.replicate (encode.length % 2) (0 : UInt8)).length = encode.length % 2 :=
      List.length_replicate
    have split : [0, UInt8.ofNat encode.length] ++ encode ++
        List.replicate (encode.length % 2 + 2) 0 ++ rest =
          0 :: UInt8.ofNat encode.length :: (encode ++ List.replicate (encode.length % 2) 0 ++
            (0 :: 0 :: rest)) := by
      rw [List.replicate_add]
      simp
    rw [half, split, Rle8.decode_absolute encode _ _ _ count (by omega) fill,
      Rle8.decode_escape (by decide)]
    rfl

theorem flush_even : (flush encode).length % 2 = 0 := by
  rw [flush]
  split
  · simp only [List.length_append, List.length_cons, List.length_nil, List.length_replicate]
    omega
  · rw [List.length_flatMap]
    simp

end Groups

section FourBits

def Code4.isPixel : Code4 → Bool
  | .pixel _ _ _ => true
  | .run _ => false

-- every pixel is written once too often
theorem written4_parity (codes : List Code4) (encode : List UInt8) :
    (written4 encode codes).length % 2 = codes.countP Code4.isPixel % 2 := by
  induction codes generalizing encode with
  | nil => exact flush_even encode
  | cons code codes ih =>
    cases code with
    | pixel value inked fits =>
      have later := ih (encode ++ [UInt8.ofNat value])
      rw [written4, List.length_cons, List.countP_cons_of_pos (by rfl)]
      omega
    | run run =>
      have later := ih []
      have even := flush_even encode
      rw [written4, List.countP_cons_of_neg (by simp [Code4.isPixel])]
      simp only [List.length_append, Run4.stored, List.length_cons, List.length_nil]
      omega

section Runs

def Run4.pair (run : Run4) : UInt8 × UInt8 :=
  (UInt8.ofNat run.length, UInt8.ofNat run.value)

variable (runs : List Run4)

theorem written4_runs :
    written4 [] (runs.map .run) = (runs.map Run4.pair).flatMap fun run => [run.1, run.2] := by
  induction runs with
  | nil => rfl
  | cons run runs ih =>
    rw [List.map_cons, written4, ih]
    rfl

theorem buffered4_runs : Buffered4 0 (runs.map .run) := by
  induction runs with
  | nil => trivial
  | cons run runs ih => exact ih

theorem pixels4_runs :
    pixels4 (runs.map .run) =
      runs.flatMap fun run => List.replicate run.length (UInt8.ofNat run.value) := by
  rw [pixels4, List.flatMap_map]
  rfl

theorem Run4.bounds (run : Run4) : 0 < run.length ∧ run.length ≤ 280 ∧ run.value < 16 := by
  cases run <;> simp only [Run4.length, Run4.value] <;> omega

theorem most_pair (run : Run4) : Rle8.most run.pair ≤ run.length ∧
    (255 < run.length → Rle8.most run.pair < run.length) := by
  obtain ⟨positive, bound, value⟩ := run.bounds
  have count : (UInt8.ofNat run.length).toNat = run.length % 256 := UInt8.toNat_ofNat'
  have pixel : (UInt8.ofNat run.value).toNat = run.value :=
    UInt8.toNat_ofNat_of_lt' (show run.value < 256 by omega)
  rw [Rle8.most, Run4.pair]
  dsimp only
  split
  · rename_i zero
    rw [zero] at count
    have wrapped : run.length % 256 = 0 := count.symm
    rw [pixel]
    omega
  · rw [count]
    omega

theorem decode_runs (short : ∀ run ∈ runs, run.length ≤ 255) :
    Rle8.decode (written4 [] (runs.map .run)) = some (pixels4 (runs.map .run)) := by
  rw [written4_runs, pixels4_runs]
  induction runs with
  | nil => exact Rle8.decode_nil
  | cons run runs ih =>
    have few := short run List.mem_cons_self
    obtain ⟨byte, counted⟩ := count_byte run.length run.bounds.1 (by omega)
    rw [List.map_cons, List.flatMap_cons, List.cons_append, List.cons_append, List.nil_append,
      Run4.pair, Rle8.decode_run counted, ih fun other inside =>
        short other (List.mem_cons_of_mem run inside), byte]
    rfl

-- a run of more pixels than a byte counts is lost
theorem decode_runs_short (decoded : Rle8.decode (written4 [] (runs.map .run)) =
    some (pixels4 (runs.map .run))) : ∀ run ∈ runs, run.length ≤ 255 := by
  intro run inside
  by_contra long
  rw [written4_runs] at decoded
  have bound := Rle8.decode_length_le _ _ decoded
  have size : (pixels4 (runs.map .run)).length = (runs.map Run4.length).sum := by
    rw [pixels4_runs, List.length_flatMap]
    simp
  have fewer : (runs.map (Rle8.most ∘ Run4.pair)).sum < (runs.map Run4.length).sum :=
    List.sum_lt_sum _ _ (fun other _ => (most_pair other).1)
      ⟨run, inside, (most_pair run).2 (by omega)⟩
  rw [size, List.map_map] at bound
  omega

end Runs

section Strings

variable {bytes : List UInt8} {behind : Block} (more : 0 < behind.length) {out : PixelOutput}
  (settled : out.encode4 = [])
include more settled

theorem transcodes4_runs (runs : List Run4) (spells : Spells bytes (bits4 (runs.map .run))) :
    Transcodes read4bitPixelCodeString bytes behind out (pixels4 (runs.map .run)) ↔
      ∀ run ∈ runs, run.length ≤ 255 := by
  have read := read4bit_string spells more settled (buffered4_runs runs)
  constructor
  · intro transcodes
    obtain ⟨result, added, found, appended, decoded⟩ := transcodes
    rw [read, Option.some.injEq, Prod.mk.injEq] at found
    rw [← found.2, List.append_cancel_left_eq] at appended
    exact decode_runs_short runs (by rw [appended, decoded])
  · exact fun short => ⟨_, _, read, rfl, decode_runs runs short⟩

theorem transcodes4_odd (codes : List Code4) (spells : Spells bytes (bits4 codes))
    (odd : codes.countP Code4.isPixel % 2 = 1) :
    ¬Transcodes read4bitPixelCodeString bytes behind out (pixels4 codes) := by
  intro transcodes
  obtain ⟨result, added, found, appended, decoded⟩ := transcodes
  by_cases room : Buffered4 0 codes
  · rw [read4bit_string spells more settled room, Option.some.injEq, Prod.mk.injEq] at found
    rw [← found.2, List.append_cancel_left_eq] at appended
    have parity := written4_parity codes []
    have even := Rle8.decode_even decoded
    rw [appended] at parity
    omega
  · rw [read4bit_overrun spells more settled room] at found
    cases found

end Strings

end FourBits

section EightBits

def Code8.isZeros : Code8 → Bool
  | .zeros _ _ _ => true
  | _ => false

def Code8.isLongZeros : Code8 → Bool
  | .zeros count _ _ => decide (2 < count)
  | _ => false

/-- All groups of pixels are padded as the format wants it; as many are buffered. -/
def KeptGroups : Nat → List Code8 → Prop
  | count, [] => Kept count
  | count, .pixel _ _ :: codes => KeptGroups (count + 1) codes
  | count, .zeros _ _ _ :: codes => Kept count ∧ KeptGroups 0 codes
  | count, .run _ _ _ _ :: codes => Kept count ∧ KeptGroups 0 codes

theorem Kept.lt {count : Nat} (kept : Kept count) : count < 256 := by
  cases kept <;> omega

theorem KeptGroups.buffered {codes : List Code8} {count : Nat} (kept : KeptGroups count codes) :
    count < 256 ∧ Buffered8 count codes := by
  induction codes generalizing count with
  | nil => exact ⟨Kept.lt kept, trivial⟩
  | cons code codes ih =>
    cases code with
    | pixel value inked =>
      obtain ⟨few, room⟩ := ih kept
      exact ⟨by omega, by omega, room⟩
    | zeros run more fits => exact ⟨kept.1.lt, (ih kept.2).2⟩
    | run run value least fits => exact ⟨kept.1.lt, (ih kept.2).2⟩

-- the row without its runs of zero pixels
def inked8 (codes : List Code8) : List UInt8 :=
  pixels8 (codes.filter fun code => !code.isZeros)

theorem written8_parity (codes : List Code8) (encode : List UInt8) :
    (written8 encode codes).length % 2 = codes.countP Code8.isLongZeros % 2 := by
  induction codes generalizing encode with
  | nil => exact flush_even encode
  | cons code codes ih =>
    have even := flush_even encode
    cases code with
    | pixel value inked =>
      rw [written8, ih, List.countP_cons_of_neg (by simp [Code8.isLongZeros])]
    | zeros count more fits =>
      have later := ih []
      rw [written8, List.countP_cons]
      simp only [List.length_append, storedZeros, Code8.isLongZeros, decide_eq_true_eq]
      split
      · rw [List.length_singleton]
        omega
      · rw [List.length_nil]
        omega
    | run count value least fits =>
      have later := ih []
      rw [written8, List.countP_cons_of_neg (by simp [Code8.isLongZeros])]
      simp only [List.length_append, List.length_cons, List.length_nil]
      omega

section Decoded

variable {codes : List Code8} (short : ∀ code ∈ codes, code.isLongZeros = false)
include short

theorem storedZeros_short {count : Nat} {more : 0 < count} {fits : count < 128}
    (first : Code8.zeros count more fits ∈ codes) : storedZeros count = [] := by
  have few := short _ first
  rw [Code8.isLongZeros, decide_eq_false_iff_not] at few
  exact if_neg few

theorem decode_written8 (encode : List UInt8) (kept : KeptGroups encode.length codes) :
    Rle8.decode (written8 encode codes) = some (encode ++ inked8 codes) := by
  induction codes generalizing encode with
  | nil =>
    have flushed := decode_flush encode [] kept
    rw [List.append_nil, Rle8.decode_nil, Option.map_some] at flushed
    exact flushed
  | cons code codes ih =>
    have rest : ∀ other ∈ codes, other.isLongZeros = false :=
      fun other inside => short other (List.mem_cons_of_mem code inside)
    cases code with
    | pixel value inked =>
      have later := ih rest (encode ++ [value])
        (by rwa [List.length_append, List.length_singleton])
      rw [written8, later, List.append_assoc]
      rfl
    | zeros count more fits =>
      rw [written8, storedZeros_short short List.mem_cons_self, List.append_nil,
        decode_flush _ _ kept.1, ih rest [] kept.2]
      rfl
    | run count value least fits =>
      obtain ⟨byte, counted⟩ := count_byte count (by omega) (by omega)
      rw [written8, List.append_assoc, decode_flush _ _ kept.1, List.cons_append, List.cons_append,
        List.nil_append, Rle8.decode_run counted, ih rest [] kept.2, byte]
      rfl

theorem decode_written8_lost (encode : List UInt8) (room : Buffered8 encode.length codes)
    (few : encode.length ≤ 256) (lost : ¬KeptGroups encode.length codes) :
    Rle8.decode (written8 encode codes) = none := by
  induction codes generalizing encode with
  | nil =>
    have flushed := decode_flush_lost encode [] few lost
    rwa [List.append_nil] at flushed
  | cons code codes ih =>
    have rest : ∀ other ∈ codes, other.isLongZeros = false :=
      fun other inside => short other (List.mem_cons_of_mem code inside)
    cases code with
    | pixel value inked =>
      have size : (encode ++ [value]).length = encode.length + 1 := List.length_append
      rw [written8]
      apply ih rest _
      · rw [size]
        exact room.2
      · have bound := room.1
        omega
      · rwa [size]
    | zeros count more fits =>
      rw [written8, storedZeros_short short List.mem_cons_self, List.append_nil]
      by_cases kept : Kept encode.length
      · rw [decode_flush _ _ kept, ih rest [] room (Nat.zero_le _) fun later => lost ⟨kept, later⟩]
        rfl
      · exact decode_flush_lost _ _ few kept
    | run count value least fits =>
      rw [written8, List.append_assoc]
      by_cases kept : Kept encode.length
      · obtain ⟨byte, counted⟩ := count_byte count (by omega) (by omega)
        rw [decode_flush _ _ kept, List.cons_append, List.cons_append, List.nil_append,
          Rle8.decode_run counted,
          ih rest [] room (Nat.zero_le _) fun later => lost ⟨kept, later⟩]
        rfl
      · exact decode_flush_lost _ _ few kept

end Decoded

-- what the runs of zero pixels are missing
theorem inked8_length (codes : List Code8) :
    (inked8 codes).length ≤ (pixels8 codes).length ∧
      ((∃ code ∈ codes, code.isZeros = true) → (inked8 codes).length < (pixels8 codes).length) := by
  induction codes with
  | nil => simp [inked8, pixels8]
  | cons code codes ih =>
    obtain ⟨least, strict⟩ := ih
    have split : (pixels8 (code :: codes)).length =
        code.pixels.length + (pixels8 codes).length := by
      rw [pixels8, List.flatMap_cons, List.length_append, ← pixels8]
    rw [split]
    cases code with
    | pixel value inked =>
      have same : inked8 (.pixel value inked :: codes) = [value] ++ inked8 codes := rfl
      simp only [same, List.length_append, Code8.pixels, List.length_singleton, List.mem_cons,
        exists_eq_or_imp, Code8.isZeros, Bool.false_eq_true, false_or]
      exact ⟨by omega, fun zeros => Nat.add_lt_add_left (strict zeros) 1⟩
    | zeros count more fits =>
      have same : inked8 (.zeros count more fits :: codes) = inked8 codes := rfl
      rw [same, Code8.pixels, List.length_replicate]
      exact ⟨by omega, fun _ => by omega⟩
    | run count value least fits =>
      have same : inked8 (.run count value least fits :: codes) =
          List.replicate count value ++ inked8 codes := rfl
      simp only [same, List.length_append, Code8.pixels, List.length_replicate, List.mem_cons,
        exists_eq_or_imp, Code8.isZeros, Bool.false_eq_true, false_or]
      exact ⟨by omega, fun zeros => Nat.add_lt_add_left (strict zeros) count⟩

/-- The strings that read_8bit_pixel_code_string can tell: no runs of zero pixels, and groups of
pixels that need no more padding than they get. -/
def Plain8 (codes : List Code8) : Prop :=
  (∀ code ∈ codes, code.isZeros = false) ∧ KeptGroups 0 codes

theorem inked8_plain {codes : List Code8} (plain : ∀ code ∈ codes, code.isZeros = false) :
    inked8 codes = pixels8 codes := by
  rw [inked8, List.filter_eq_self.mpr]
  intro code inside
  rw [plain code inside]
  rfl

-- earlier rows that are taken for a part of this one
theorem earlier_empty {data added row : List UInt8} (earlier : Earlier data)
    (whole : Rle8.decode (data ++ added) = some row) (decoded : Rle8.decode added = some row) :
    data = [] := by
  obtain ⟨finished, current, rfl, decodable⟩ := earlier
  cases finished with
  | nil =>
    rw [List.flatMap_nil, List.nil_append] at whole ⊢
    obtain ⟨pixels, found⟩ := Option.isSome_iff_exists.mp (decodable current (by simp))
    rw [Rle8.decode_append found, decoded, Option.map_some, Option.some.injEq] at whole
    have size := congrArg List.length whole
    rw [List.length_append] at size
    have none : pixels = [] := List.length_eq_zero_iff.mp (by omega)
    rw [none] at found
    exact Rle8.decode_nonempty found
  | cons first finished =>
    -- the end of the first row
    obtain ⟨pixels, found⟩ := Option.isSome_iff_exists.mp (decodable first (by simp))
    have split : (first :: finished).flatMap (· ++ [0, 0]) ++ current ++ added =
        first ++ (0 :: 0 :: (finished.flatMap (· ++ [0, 0]) ++ current ++ added)) := by
      simp
    rw [split, Rle8.decode_append found, Rle8.decode_escape (by decide)] at whole
    cases whole

section Strings

variable (codes : List Code8) (behind : Block) {out : PixelOutput} (settled : out.encode8 = [])
include settled

theorem transcodes8_plain (plain : Plain8 codes) (empty : out.data = []) :
    Transcodes read8bitPixelCodeString (encode8 codes) behind out (pixels8 codes) := by
  have short : ∀ code ∈ codes, code.isLongZeros = false := by
    intro code inside
    have other := plain.1 code inside
    cases code with
    | zeros count more fits => cases other
    | pixel value inked => rfl
    | run count value least fits => rfl
  have decoded := decode_written8 short [] plain.2
  rw [List.nil_append, inked8_plain plain.1] at decoded
  refine ⟨_, _, read8bit_string codes behind settled plain.2.buffered.2, ?_, decoded⟩
  rw [empty, List.nil_append]

theorem transcodes8_iff (short : ∀ code ∈ codes, code.isLongZeros = false)
    (earlier : Earlier out.data) (either : Plain8 codes ∨ out.data = []) :
    Transcodes read8bitPixelCodeString (encode8 codes) behind out (pixels8 codes) ↔
      Plain8 codes ∧ out.data = [] := by
  constructor
  · intro transcodes
    obtain ⟨result, added, found, appended, decoded⟩ := transcodes
    by_cases room : Buffered8 0 codes
    · rw [read8bit_string codes behind settled room, Option.some.injEq, Prod.mk.injEq] at found
      rw [← found.2] at appended
      dsimp only at appended
      cases either with
      | inl plain =>
        have whole := decode_written8 short [] plain.2
        rw [List.nil_append, inked8_plain plain.1, appended] at whole
        exact ⟨plain, earlier_empty earlier whole decoded⟩
      | inr empty =>
        rw [empty, List.nil_append] at appended
        rw [← appended] at decoded
        refine ⟨?_, empty⟩
        by_cases kept : KeptGroups 0 codes
        · have whole := decode_written8 short [] kept
          rw [List.nil_append, decoded, Option.some.injEq] at whole
          refine ⟨?_, kept⟩
          by_contra zeros
          have fewer := (inked8_length codes).2 (by simpa using zeros)
          rw [whole] at fewer
          exact Nat.lt_irrefl _ fewer
        · rw [decode_written8_lost short [] room (Nat.zero_le _) kept] at decoded
          cases decoded
    · rw [read8bit_overrun codes behind settled room] at found
      cases found
  · exact fun holds => transcodes8_plain codes behind settled holds.1 holds.2

theorem transcodes8_odd (empty : out.data = []) (odd : codes.countP Code8.isLongZeros % 2 = 1) :
    ¬Transcodes read8bitPixelCodeString (encode8 codes) behind out (pixels8 codes) := by
  intro transcodes
  obtain ⟨result, added, found, appended, decoded⟩ := transcodes
  by_cases room : Buffered8 0 codes
  · rw [read8bit_string codes behind settled room, Option.some.injEq, Prod.mk.injEq] at found
    rw [← found.2, empty, List.nil_append] at appended
    dsimp only at appended
    have parity := written8_parity codes []
    have even := Rle8.decode_even decoded
    rw [appended] at parity
    omega
  · rw [read8bit_overrun codes behind settled room] at found
    cases found

end Strings

end EightBits

/-- Which strings keep their row. Four bits: without single pixels those whose runs have 255
pixels at most, and none with an odd number of single pixels. Eight bits: without long runs of
zero pixels the plain ones that find the output empty, and, into an empty output, none with an
odd number of such runs. -/
theorem transcodes_when (behind : Block) (out : PixelOutput) :
    (∀ (runs : List Run4) (bytes : List UInt8),
      Spells bytes (bits4 (runs.map .run)) → 0 < behind.length → out.encode4 = [] →
        (Transcodes read4bitPixelCodeString bytes behind out (pixels4 (runs.map .run)) ↔
          ∀ run ∈ runs, run.length ≤ 255)) ∧
      (∀ (codes : List Code4) (bytes : List UInt8),
        Spells bytes (bits4 codes) → 0 < behind.length → out.encode4 = [] →
          codes.countP Code4.isPixel % 2 = 1 →
            ¬Transcodes read4bitPixelCodeString bytes behind out (pixels4 codes)) ∧
      (∀ codes : List Code8, out.encode8 = [] →
        (∀ code ∈ codes, code.isLongZeros = false) → Earlier out.data →
          (Plain8 codes ∨ out.data = []) →
            (Transcodes read8bitPixelCodeString (encode8 codes) behind out (pixels8 codes) ↔
              Plain8 codes ∧ out.data = [])) ∧
      (∀ codes : List Code8, out.encode8 = [] →
        out.data = [] → codes.countP Code8.isLongZeros % 2 = 1 →
          ¬Transcodes read8bitPixelCodeString (encode8 codes) behind out (pixels8 codes)) :=
  ⟨fun runs _ spells more settled => transcodes4_runs more settled runs spells,
    fun codes _ spells more settled => transcodes4_odd more settled codes spells,
    fun codes settled => transcodes8_iff codes behind settled,
    fun codes settled => transcodes8_odd codes behind settled⟩

-- four pixels of colour 3, behind an earlier row; three pixels that stand for themselves
theorem transcodes_short :
    Transcodes read4bitPixelCodeString [0x08, 0x30, 0x00] [some 0xFF] { data := [5, 2, 0, 0] }
        [3, 3, 3, 3] ∧
      Transcodes read8bitPixelCodeString [1, 2, 3, 0, 0] [] {} [1, 2, 3] :=
  ⟨((transcodes_when [some 0xFF] { data := [5, 2, 0, 0] }).1
      [.short 0 3 (by decide) (by decide)] [0x08, 0x30, 0x00]
        ⟨[false, false, false, false], by decide, by decide⟩ (by decide) rfl).mpr (by decide),
    ((transcodes_when [] {}).2.2.1
      [.pixel 1 (by decide), .pixel 2 (by decide), .pixel 3 (by decide)] rfl (by decide)
        ⟨[], [], rfl, by simp⟩ (Or.inr rfl)).mpr ⟨⟨by decide, Or.inr (by decide)⟩, rfl⟩⟩

-- one pixel of colour 5
theorem transcodes_pixel :
    ¬Transcodes read4bitPixelCodeString [0x50, 0x00] [some 0xFF] {} [5] :=
  transcodes4_odd (by decide) rfl [.pixel 5 (by decide) (by decide)]
    ⟨[false, false, false, false], by decide, by decide⟩ rfl

end TsAnalyze.Subtitle
