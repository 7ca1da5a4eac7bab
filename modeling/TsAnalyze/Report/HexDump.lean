import TsAnalyze.Report.TextLine

set_option autoImplicit false

namespace TsAnalyze

open Memory Quoted

namespace Report

-- the array of res_hexdump
def rawLen : Nat := lineLen * 4

def bar : UInt8 := 124

def dot : UInt8 := 46

-- "%02x"
def hexByte (byte : UInt8) : Text :=
  [hexDigit (byte / 16), hexDigit (byte % 16)]

-- "%08x" of an unsigned int
def hexWord (n : Nat) : Text :=
  [7, 6, 5, 4, 3, 2, 1, 0].map fun place => hexDigit (UInt8.ofNat (n / 16 ^ place % 16))

def dotted (c : UInt8) : UInt8 :=
  if 0x20 ≤ c ∧ c < 0x7F then c else dot

def toUInt32 (n : Nat) : Nat :=
  n % 4294967296

def dumpBytes (data : Block) (len ofs : Nat) : Nat → Nat → Printing rawLen Nat
  | 0, i => pure i
  | turns + 1, i =>
      if toUInt32 (ofs + i) < len then do
        let byte ← fetch (read8 data (toUInt32 (ofs + i)))
        printText (space :: hexByte byte)
        dumpBytes data len ofs turns (i + 1)
      else pure i

def dumpPadding : Nat → Printing rawLen Unit
  | 0 => pure ()
  | turns + 1 => do
      printText [space, space, space]
      dumpPadding turns

def dumpChars (data : Block) (len : Nat) : Nat → Nat → Printing rawLen Nat
  | 0, ofs => pure ofs
  | turns + 1, ofs =>
      if ofs < len then do
        let c ← fetch (read8 data ofs)
        printByte (dotted c)
        dumpChars data len turns (ofs + 1)
      else pure ofs

-- the newline in front of every row but the first
def dumpBreak (ofs : Nat) : Printing rawLen Unit := do
  let out ← place
  if 0 < ofs ∧ out < rawLen then printByte newline else pure ()

def dumpRow (data : Block) (len ofs : Nat) : Printing rawLen Nat := do
  dumpBreak ofs
  printText (hexWord ofs ++ [colon])
  let i ← dumpBytes data len ofs 16 0
  dumpPadding (16 - i)
  printText [space, space, bar, space]
  dumpChars data len 16 ofs

def dumpRows (data : Block) (len : Nat) : Nat → Nat → Printing rawLen Unit
  | 0, ofs => if ofs < len then fetch none else pure ()
  | turns + 1, ofs =>
      if ofs < len then do
        let ofs ← dumpRow data len ofs
        dumpRows data len turns ofs
      else pure ()

-- The string in the array. Every row shows a byte, so there are no more rows than bytes.
def hexdumpRaw (buf : Block) (len : Nat) : Option CString := do
  let (_, printer) ← dumpRows buf len len 0 ⟨Region.zeros rawLen, 0⟩
  let raw ← printer.raw.memcpy printer.out [some 0] 1
  (stringIn raw.cells).map CString.ofBytes

/-- What y_emit or j_emit prints. -/
def Output.emit (output : Output) (memory : Report.Memory) (lv : Int) (key val : Option CString) :
    Option Output :=
  match output.outtype with
  | .yaml => do
      let emitted ← yEmit memory lv key val output.jstack
      return { output.addLine emitted.1 with jstack := emitted.2 }
  | _ => do
      let emitted ← jEmit lv key val output.jstack
      return { output with jstack := emitted.2, text := output.text ++ emitted.1 }

def resHexdump (output : Output) (memory : Report.Memory) (lv : Int) (title : Option CString)
    (buf : Block) (len : Nat) : Option Output := do
  let raw ← hexdumpRaw buf len
  output.emit memory lv title (some raw)

-- "%08x:"
def lineOffset (ofs : Nat) : Text :=
  hexWord ofs ++ [colon]

def lineBytes (row : List UInt8) : Text :=
  row.flatMap fun byte => space :: hexByte byte

-- a row that is not full
def linePadding (row : List UInt8) : Text :=
  List.replicate (3 * (16 - row.length)) space

def lineBar : Text :=
  [space, space, bar, space]

/-- The offset, the bytes as digits and the bytes as characters. -/
def dumpLine (ofs : Nat) (row : List UInt8) : Text :=
  lineOffset ofs ++ (lineBytes row ++ (linePadding row ++ (lineBar ++ row.map dotted)))

-- the bytes that row `k` shows
def dumpedIn (data : List UInt8) (k : Nat) : List UInt8 :=
  (data.drop (16 * k)).take 16

def dumpLines (data : List UInt8) : List Text :=
  (List.range ((data.length + 15) / 16)).map fun k => dumpLine (16 * k) (dumpedIn data k)

/-- The whole dump. -/
def dumpText (data : List UInt8) : Text :=
  List.intercalate [newline] (dumpLines data)

def rowBreak (k : Nat) : Text :=
  if k = 0 then [] else [newline]

-- row `k` with the newline in front of it
def dumpPiece (data : List UInt8) (k : Nat) : Text :=
  rowBreak k ++ dumpLine (16 * k) (dumpedIn data k)

section Rows

variable (data : List UInt8) (behind : Block) {start : Nat}

theorem read8_dumped {position : Nat} (inside : position < data.length) :
    read8 (ofBytes data ++ behind) position = some data[position] := by
  rw [read8_append_left _ _ _ (by rwa [ofBytes_length]), read8_ofBytes,
    List.getElem?_eq_getElem inside]

theorem dumpBytes_prints (ofs turns i : Nat) (small : ofs + i + turns ≤ 4294967296) :
    Prints start (dumpBytes (ofBytes data ++ behind) data.length ofs turns i)
      (i + min turns (data.length - (ofs + i)))
      (lineBytes ((data.drop (ofs + i)).take turns)) := by
  induction turns generalizing i start with
  | zero => simpa [dumpBytes, lineBytes] using prints_pure i
  | succ turns ih =>
    have same : toUInt32 (ofs + i) = ofs + i := Nat.mod_eq_of_lt (by omega)
    rw [dumpBytes, same]
    by_cases more : ofs + i < data.length
    · have count : i + min (turns + 1) (data.length - (ofs + i)) =
          i + 1 + min turns (data.length - (ofs + (i + 1))) := by omega
      rw [if_pos more, count, List.drop_eq_getElem_cons more, List.take_succ_cons,
        lineBytes, List.flatMap_cons]
      apply prints_fetch (read8_dumped data behind more)
      apply prints_bind (prints_text _ (by decide))
      intro room
      exact ih (i + 1) (by omega)
    · have count : i + min (turns + 1) (data.length - (ofs + i)) = i := by omega
      rw [if_neg more, count, List.drop_eq_nil_of_le (Nat.not_lt.mp more)]
      exact prints_pure i

theorem dumpPadding_prints (turns : Nat) :
    Prints start (dumpPadding turns) () (List.replicate (3 * turns) space) := by
  induction turns generalizing start with
  | zero => exact prints_pure ()
  | succ turns ih => exact prints_bind (prints_text _ (by decide)) fun _ => ih

theorem dumpChars_prints (turns ofs : Nat) (room : start + turns < rawLen) :
    Prints start (dumpChars (ofBytes data ++ behind) data.length turns ofs)
      (ofs + min turns (data.length - ofs)) (((data.drop ofs).take turns).map dotted) := by
  induction turns generalizing ofs start with
  | zero => simpa [dumpChars] using prints_pure ofs
  | succ turns ih =>
    rw [dumpChars]
    by_cases more : ofs < data.length
    · have count : ofs + min (turns + 1) (data.length - ofs) =
          ofs + 1 + min turns (data.length - (ofs + 1)) := by omega
      rw [if_pos more, count, List.drop_eq_getElem_cons more, List.take_succ_cons, List.map_cons]
      apply prints_fetch (read8_dumped data behind more)
      apply prints_bind (prints_byte _ (by omega))
      intro inside
      exact ih (ofs + 1) (by rw [List.length_singleton]; omega)
    · have count : ofs + min (turns + 1) (data.length - ofs) = ofs := by omega
      rw [if_neg more, count, List.drop_eq_nil_of_le (Nat.not_lt.mp more)]
      exact prints_pure ofs

-- row `k` begins at `78 * k`
theorem rowBreak_length (k : Nat) : 78 * k - 1 + (rowBreak k).length = 78 * k := by
  unfold rowBreak
  split
  · simp_all
  · rw [List.length_singleton]
    omega

theorem dumpBreak_prints (k : Nat) :
    Prints (78 * k - 1) (dumpBreak (16 * k)) () (rowBreak k) := by
  apply prints_inside
  intro inside
  apply prints_place
  by_cases first : k = 0
  · rw [rowBreak, if_neg (by omega), if_pos first]
    exact prints_pure ()
  · have size : rawLen = 2048 := rfl
    rw [rowBreak, if_pos (by omega), if_neg first]
    exact prints_byte newline (by omega)

theorem dumpedIn_length (k : Nat) :
    (dumpedIn data k).length = min 16 (data.length - 16 * k) := by
  rw [dumpedIn, List.length_take, List.length_drop]

theorem lineBytes_length (row : List UInt8) : (lineBytes row).length = 3 * row.length := by
  induction row with
  | nil => rfl
  | cons byte row ih =>
    rw [lineBytes, List.flatMap_cons, List.length_append, ← lineBytes, ih, List.length_cons]
    change 3 + 3 * row.length = 3 * (row.length + 1)
    omega

-- the characters begin in column 61
theorem characters_column (start ofs : Nat) {row : List UInt8} (few : row.length ≤ 16) :
    start + (lineOffset ofs).length + (lineBytes row).length + (linePadding row).length +
      lineBar.length = start + 61 := by
  have offset : (lineOffset ofs).length = 9 := rfl
  have bar : lineBar.length = 4 := rfl
  rw [offset, bar, lineBytes_length, linePadding, List.length_replicate]
  omega

/-- Where the characters of a row are reached there is room for 16 of them. -/
theorem dumpRow_prints (k : Nat) :
    Prints (78 * k - 1) (dumpRow (ofBytes data ++ behind) data.length (16 * k))
      (16 * k + min 16 (data.length - 16 * k))
      (dumpPiece data k) := by
  have size : rawLen = 2048 := rfl
  have count := dumpedIn_length data k
  apply prints_bind (dumpBreak_prints k)
  rw [rowBreak_length]
  intro inside
  apply prints_bind (prints_text (lineOffset (16 * k)) (by decide))
  intro offset
  apply prints_bind (dumpBytes_prints data behind (16 * k) 16 0 (by omega))
  rw [Nat.zero_add, Nat.add_zero, ← dumpedIn, ← count]
  intro bytes
  apply prints_bind (dumpPadding_prints _)
  rw [← linePadding]
  intro padding
  apply prints_bind (prints_text lineBar (by decide))
  rw [characters_column _ _ (by omega), count]
  intro barred
  exact dumpChars_prints data behind 16 (16 * k) (by omega)

theorem dumpPiece_length (k : Nat) :
    78 * k - 1 + (dumpPiece data k).length = 78 * k + 61 + (dumpedIn data k).length := by
  have start := rowBreak_length k
  have count := dumpedIn_length data k
  have column := characters_column 0 (16 * k) (show (dumpedIn data k).length ≤ 16 by omega)
  simp only [dumpPiece, dumpLine, List.length_append, List.length_map]
  omega

/-- The rows from `k` on are printed one behind the other. -/
theorem dumpRows_prints (turns k : Nat) (enough : data.length ≤ 16 * k + turns)
    (here : 16 * k < data.length → start = 78 * k - 1) :
    Prints start (dumpRows (ofBytes data ++ behind) data.length turns (min (16 * k) data.length)) ()
      ((List.range' k ((data.length + 15) / 16 - k)).flatMap (dumpPiece data)) := by
  induction turns generalizing k start with
  | zero =>
    have none : (data.length + 15) / 16 - k = 0 := by omega
    rw [dumpRows, if_neg (by omega), none]
    exact prints_pure ()
  | succ turns ih =>
    by_cases more : 16 * k < data.length
    · have rows : (data.length + 15) / 16 - k = (data.length + 15) / 16 - (k + 1) + 1 := by omega
      have offset : min (16 * k) data.length = 16 * k := Nat.min_eq_left (Nat.le_of_lt more)
      have next : 16 * k + min 16 (data.length - 16 * k) = min (16 * (k + 1)) data.length := by omega
      have row := dumpRow_prints data behind k
      rw [next] at row
      rw [dumpRows, offset, if_pos more, rows, List.range'_succ, List.flatMap_cons, here more]
      apply prints_bind row
      intro room
      apply ih (k + 1) (by omega)
      intro later
      have length := dumpPiece_length data k
      rw [dumpedIn_length] at length
      omega
    · have none : (data.length + 15) / 16 - k = 0 := by omega
      rw [dumpRows, if_neg (by omega), none]
      exact prints_pure ()

end Rows

theorem intercalate_cons (between first : Text) (others : List Text) :
    List.intercalate between (first :: others) =
      first ++ others.flatMap fun line => between ++ line := by
  induction others generalizing first with
  | nil => simp
  | cons second others ih =>
    rw [List.intercalate_cons_cons, ih, List.flatMap_cons]
    simp only [List.append_assoc]

theorem dumpText_pieces (data : List UInt8) :
    (List.range' 0 ((data.length + 15) / 16)).flatMap (dumpPiece data) = dumpText data := by
  rw [dumpText, dumpLines, List.range_eq_range']
  cases (data.length + 15) / 16 with
  | zero => rfl
  | succ rows =>
    rw [List.range'_succ, List.map_cons, intercalate_cons, List.flatMap_cons, List.flatMap_map]
    congr 1
    apply List.flatMap_congr
    intro k member
    have later : k ≠ 0 := by
      have bounds := List.mem_range'_1.mp member
      omega
    rw [dumpPiece, rowBreak, if_neg later]

section Visible

theorem hexDigit_visible (n : UInt8) (small : n < 16) : 0x20 ≤ hexDigit n := by
  have each : ∀ digit : Fin 16, 0x20 ≤ hexDigit (UInt8.ofNat digit) := by decide
  have given := each ⟨n.toNat, small⟩
  simpa using given

theorem hexByte_visible (byte b : UInt8) (member : b ∈ hexByte byte) : 0x20 ≤ b := by
  obtain ⟨high, low⟩ := digits_small byte
  simp only [hexByte, List.mem_cons, List.not_mem_nil, or_false] at member
  rcases member with rfl | rfl
  · exact hexDigit_visible _ high
  · exact hexDigit_visible _ low

theorem hexWord_visible (n : Nat) (b : UInt8) (member : b ∈ hexWord n) : 0x20 ≤ b := by
  obtain ⟨place, -, rfl⟩ := List.mem_map.mp member
  apply hexDigit_visible
  have digit : n / 16 ^ place % 16 < 16 := Nat.mod_lt _ (by decide)
  rw [UInt8.lt_iff_toNat_lt, UInt8.toNat_ofNat_of_lt' (digit.trans (by decide))]
  exact digit

theorem dotted_visible (c : UInt8) : 0x20 ≤ dotted c := by
  unfold dotted
  split_ifs with printable
  · exact printable.1
  · decide

theorem lineBytes_visible (row : List UInt8) : ∀ b ∈ lineBytes row, 0x20 ≤ b := by
  intro b member
  obtain ⟨byte, -, shown⟩ := List.mem_flatMap.mp member
  rcases List.mem_cons.mp shown with rfl | digit
  · decide
  · exact hexByte_visible byte b digit

theorem dumpLine_visible (ofs : Nat) (row : List UInt8) : ∀ b ∈ dumpLine ofs row, 0x20 ≤ b := by
  have offset : ∀ b ∈ lineOffset ofs, 0x20 ≤ b :=
    List.forall_mem_append.mpr ⟨hexWord_visible ofs, List.forall_mem_singleton.mpr (by decide)⟩
  have padding : ∀ b ∈ linePadding row, 0x20 ≤ b := by
    intro b member
    rw [List.eq_of_mem_replicate member]
    decide
  have bar : ∀ b ∈ lineBar, 0x20 ≤ b := by
    intro b member
    simp only [lineBar, List.mem_cons, List.not_mem_nil, or_false] at member
    rcases member with rfl | rfl | rfl | rfl
    all_goals decide
  have characters : ∀ b ∈ row.map dotted, 0x20 ≤ b := by
    intro b member
    obtain ⟨c, -, rfl⟩ := List.mem_map.mp member
    exact dotted_visible c
  simp only [dumpLine, List.forall_mem_append]
  exact ⟨offset, lineBytes_visible row, padding, bar, characters⟩

theorem dumpText_nonzero (data : List UInt8) : 0 ∉ dumpText data := by
  rw [← dumpText_pieces]
  intro member
  obtain ⟨k, -, piece⟩ := List.mem_flatMap.mp member
  rcases List.mem_append.mp piece with first | line
  · unfold rowBreak at first
    split at first
    · cases first
    · cases List.mem_singleton.mp first
  · exact absurd (dumpLine_visible _ _ _ line) (by decide)

end Visible

section Columns

-- the bytes that groups of a space and two digits stand for
def readDigits : Text → List UInt8
  | _ :: high :: low :: rest =>
      match hexValue high, hexValue low with
      | some high, some low => UInt8.ofNat (16 * high + low) :: readDigits rest
      | _, _ => []
  | _ => []

/-- What the columns with the digits say, line by line. -/
def shownBytes (text : Text) : List UInt8 :=
  (text.splitOn newline).flatMap fun line => readDigits (line.drop 9)

-- the columns with the characters
def shownCharacters (text : Text) : Text :=
  (text.splitOn newline).flatMap fun line => line.drop 61

theorem readDigits_byte (byte : UInt8) (rest : Text) :
    readDigits (space :: hexByte byte ++ rest) = byte :: readDigits rest := by
  obtain ⟨high, low⟩ := hexDigit_values byte
  have whole : UInt8.ofNat (16 * (byte.toNat / 16) + byte.toNat % 16) = byte := by
    rw [Nat.div_add_mod, UInt8.ofNat_toNat]
  change readDigits (space :: hexDigit (byte / 16) :: hexDigit (byte % 16) :: rest) = _
  rw [readDigits, high, low]
  exact congrArg (· :: readDigits rest) whole

-- the first digit would be a space
theorem readDigits_spaces (count : Nat) (behind : Text) :
    readDigits (List.replicate count space ++ (lineBar ++ behind)) = [] := by
  match count with
  | 0 | 1 | 2 => rfl
  | count + 3 => rfl

theorem readDigits_line (row : List UInt8) (behind : Text) (stops : readDigits behind = []) :
    readDigits (lineBytes row ++ behind) = row := by
  induction row with
  | nil => exact stops
  | cons byte row ih =>
    rw [lineBytes, List.flatMap_cons, List.append_assoc, readDigits_byte, ← lineBytes, ih]

theorem shown_line (ofs : Nat) {row : List UInt8} (few : row.length ≤ 16) :
    readDigits ((dumpLine ofs row).drop 9) = row ∧ (dumpLine ofs row).drop 61 = row.map dotted := by
  constructor
  · have offset : (lineOffset ofs).length = 9 := rfl
    rw [dumpLine, List.drop_left' offset]
    exact readDigits_line row _ (readDigits_spaces _ _)
  · have column := characters_column 0 ofs few
    simp only [dumpLine, ← List.append_assoc]
    apply List.drop_left'
    simp only [List.length_append]
    omega

theorem dumpedIn_flatten (data : List UInt8) (rows : Nat) :
    (List.range rows).flatMap (dumpedIn data) = data.take (16 * rows) := by
  induction rows with
  | zero => rfl
  | succ rows ih =>
    rw [List.range_succ, List.flatMap_append, ih, List.flatMap_singleton, dumpedIn, Nat.mul_succ,
      List.take_add]

theorem dumpText_lines (data : List UInt8) (some : data ≠ []) :
    (dumpText data).splitOn newline = dumpLines data := by
  have length := List.length_pos_of_ne_nil some
  apply List.splitOn_intercalate
  · intro line member inside
    obtain ⟨k, -, rfl⟩ := List.mem_map.mp member
    exact absurd (dumpLine_visible _ _ _ inside) (by decide)
  · intro none
    have count := congrArg List.length none
    rw [dumpLines, List.length_map, List.length_range, List.length_nil] at count
    omega

/-- Every byte is shown once, in order, both ways. -/
theorem dumpText_shows (data : List UInt8) :
    shownBytes (dumpText data) = data ∧ shownCharacters (dumpText data) = data.map dotted := by
  have whole := dumpedIn_flatten data ((data.length + 15) / 16)
  rw [List.take_of_length_le (by omega)] at whole
  by_cases none : data = []
  · subst none
    exact ⟨rfl, rfl⟩
  · have lines (k : Nat) := shown_line (16 * k) (show (dumpedIn data k).length ≤ 16 by
      rw [dumpedIn_length]
      omega)
    rw [shownBytes, shownCharacters, dumpText_lines data none, dumpLines, List.flatMap_map,
      List.flatMap_map]
    constructor
    · simp only [lines]
      exact whole
    · simp only [lines]
      rw [← List.map_flatMap, whole]

end Columns

section Length

theorem pieces_length (data : List UInt8) (rows : Nat) (full : 16 * rows ≤ data.length) :
    ((List.range' 0 rows).flatMap (dumpPiece data)).length = 78 * rows - 1 := by
  induction rows with
  | zero => rfl
  | succ rows ih =>
    have piece := dumpPiece_length data rows
    rw [dumpedIn_length] at piece
    rw [List.range'_1_concat, List.flatMap_append, List.length_append, ih (by omega),
      List.flatMap_singleton, Nat.zero_add]
    omega

theorem dumpText_length (data : List UInt8) (rows : Nat) (last : 16 * rows < data.length)
    (all : data.length ≤ 16 * (rows + 1)) :
    (dumpText data).length = 62 * rows + 61 + data.length := by
  have piece := dumpPiece_length data rows
  rw [dumpedIn_length] at piece
  have count : (data.length + 15) / 16 = rows + 1 := by omega
  rw [← dumpText_pieces, count, List.range'_1_concat, List.flatMap_append, List.length_append,
    pieces_length data rows (by omega), List.flatMap_singleton, Nat.zero_add]
  omega

/-- A dump of 26 rows fits in. -/
theorem dumpText_fits (data : List UInt8) : (dumpText data).length < rawLen ↔ data.length ≤ 416 := by
  have size : rawLen = 2048 := rfl
  rw [size]
  by_cases none : data.length = 0
  · have empty : dumpText data = [] := by rw [List.length_eq_zero_iff.mp none]; rfl
    rw [empty, none]
    decide
  · rw [dumpText_length data ((data.length - 1) / 16) (by omega) (by omega)]
    omega

end Length

theorem hexdumpRaw_shows (data : List UInt8) (behind : Block) :
    ∃ raw, hexdumpRaw (ofBytes data ++ behind) data.length = some raw ∧
      raw.bytes <+: dumpText data ∧
      ((dumpText data).length < rawLen → raw.bytes = dumpText data) := by
  have prints : Prints 0 _ _ _ := dumpRows_prints data behind data.length 0 (by omega) fun _ => rfl
  rw [Nat.sub_zero, dumpText_pieces, Nat.mul_zero, Nat.zero_min] at prints
  obtain ⟨result, printer, shown, ran, holds, cut, fits, -⟩ :=
    prints _ [] (holds_start (by decide)) rfl
  obtain ⟨raw, rest, copied, cells⟩ := printer.raw.terminated holds.cells holds.inside
  refine ⟨CString.ofBytes (shown.takeWhile fun b => b ≠ 0), ?_, ?_, ?_⟩
  · rw [hexdumpRaw, ran, Option.bind_eq_bind, Option.bind_some]
    dsimp only
    rw [copied, Option.bind_eq_bind, Option.bind_some, cells, stringIn_terminated]
    rfl
  · exact (List.takeWhile_prefix _).trans ((List.takeWhile_prefix _).trans cut)
  · intro room
    have nonzero : ∀ b ∈ dumpText data, decide (b ≠ 0) = true := by
      intro b member
      simp only [ne_eq, decide_not, Bool.not_eq_true', decide_eq_false_iff_not]
      rintro rfl
      exact dumpText_nonzero data member
    have same := List.takeWhile_eq_self_iff.mpr nonzero
    rw [(fits (by rwa [Nat.zero_add])).2, same]
    exact same

/-- The array is never left, and a dump that fits in shows every byte. -/
theorem resHexdump_inside (output : Output) (memory : Report.Memory) (lv : Int)
    (title : Option CString) (data : List UInt8) (behind : Block) :
    ∃ raw, hexdumpRaw (ofBytes data ++ behind) data.length = some raw ∧
      resHexdump output memory lv title (ofBytes data ++ behind) data.length =
        output.emit memory lv title (some raw) ∧
      raw.bytes <+: dumpText data ∧
      ((dumpText data).length < rawLen → raw.bytes = dumpText data ∧
        shownBytes raw.bytes = data ∧ shownCharacters raw.bytes = data.map dotted) := by
  obtain ⟨raw, found, cut, whole⟩ := hexdumpRaw_shows data behind
  refine ⟨raw, found, ?_, cut, ?_⟩
  · rw [resHexdump, found]
    rfl
  · intro room
    rw [whole room]
    exact ⟨rfl, dumpText_shows data⟩

end Report

end TsAnalyze
