import TsAnalyze.Report.Emitter
import TsAnalyze.Shared.Printing

set_option autoImplicit false

namespace TsAnalyze

open Memory Quoted

namespace Report

-- the array of res_put and where the next byte goes
structure Line where
  buf : Region lineLen
  ret : Nat

/-- What res_put appends: the result of a format, or characters that it stores itself. -/
inductive Piece where
  | formatted (text : Text)
  | stored (text : Text)

def Piece.text : Piece → Text
  | .formatted text => text
  | .stored text => text

-- the length of the whole text, whatever has been written of it
def printedCount (text : Text) : Int :=
  if text.length ≤ intMax then text.length else -1

-- with a size of 0 nothing is written
def snprintf (line : Line) (text : Text) : Option (Region lineLen × Int) :=
  let size := lineLen - line.ret
  let written := if size = 0 then [] else text.take (size - 1) ++ [0]
  (line.buf.memcpy line.ret (ofBytes written) written.length).map fun buf =>
    (buf, printedCount text)

/-- The flag is unset where the code goes on at `end`. -/
def Piece.append (line : Line) : Piece → Option (Line × Bool)
  | .formatted text => do
      let (buf, n) ← snprintf line text
      if n < 0 ∨ n ≥ (lineLen : Int) - line.ret then return (⟨buf, line.ret⟩, false)
      else return (⟨buf, line.ret + n.toNat⟩, true)
  | .stored text =>
      if line.ret + text.length > lineLen then some (line, false)
      else (line.buf.memcpy line.ret (ofBytes text) text.length).map fun buf =>
        (⟨buf, line.ret + text.length⟩, true)

def appendPieces : List Piece → Line → Option Line
  | [], line => some line
  | piece :: pieces, line => do
      let (line, more) ← piece.append line
      if more then appendPieces pieces line else some line

-- "%s" of fprintf: up to the first zero byte
def stringIn : Block → Option Text
  | [] => none
  | none :: _ => none
  | some byte :: cells => if byte = 0 then some [] else (stringIn cells).map fun text => byte :: text

def contentPieces (key : Option CString) (fmt : Option Text) : List Piece :=
  (match key with
    | some key => [Piece.formatted key.bytes]
    | none => []) ++
  (match fmt with
    | some value => (if key.isSome then [Piece.stored [58, 9]] else []) ++ [Piece.formatted value]
    | none => []) ++
  [Piece.stored [newline]]

def linePieces (lv : Int) (key : Option CString) (fmt : Option Text) : List Piece :=
  List.replicate lv.toNat (Piece.formatted [space, space]) ++
    ((if lv = 0 then [Piece.stored [newline]] else []) ++ contentPieces key fmt)

/-- What res_put prints where the output has no hierarchy. -/
def resPutLine (lv : Int) (key : Option CString) (fmt : Option Text) : Option Text := do
  let line ← appendPieces (linePieces lv key fmt) ⟨Region.zeros lineLen, 0⟩
  let buf ← line.buf.memcpy line.ret [some 0] 1
  stringIn buf.cells

def Piece.room : Piece → Nat
  | .formatted _ => lineLen - 1
  | .stored _ => lineLen

-- where the appending stops
def filled : Nat → List Piece → Nat
  | ret, [] => ret
  | ret, piece :: pieces =>
      if ret + piece.text.length ≤ piece.room then filled (ret + piece.text.length) pieces else ret

structure LineShows (line : Line) (written : Text) : Prop where
  length : line.ret = written.length
  inside : line.ret ≤ lineLen
  cells : line.buf.cells.take line.ret = ofBytes written

theorem shows_start : LineShows ⟨Region.zeros lineLen, 0⟩ [] :=
  ⟨rfl, Nat.zero_le _, List.take_zero⟩

theorem shows_copied {line : Line} {written : Text} (shows : LineShows line written)
    (source : Block) (room : line.ret + source.length ≤ lineLen) :
    ∃ buf, line.buf.memcpy line.ret source source.length = some buf ∧
      buf.cells.take (line.ret + source.length) = ofBytes written ++ source := by
  obtain ⟨buf, copied, cells⟩ := line.buf.memcpy_extends line.ret source.length source
    (ofBytes written) shows.cells room (Nat.le_refl _)
  exact ⟨buf, copied, by rw [cells, List.take_length]⟩

theorem snprintf_shows {line : Line} {written : Text} (shows : LineShows line written)
    (text : Text) :
    ∃ buf, snprintf line text = some (buf, printedCount text) ∧
      LineShows ⟨buf, line.ret⟩ written ∧
      (line.ret + text.length < lineLen →
        LineShows ⟨buf, line.ret + text.length⟩ (written ++ text)) := by
  obtain ⟨buf, printed, kept, added⟩ :=
    line.buf.snprintf_extends line.ret text shows.cells shows.inside
  refine ⟨buf, printed, ⟨shows.length, shows.inside, kept⟩, ?_⟩
  intro room
  refine ⟨by simp [shows.length], Nat.le_of_lt room, ?_⟩
  rw [ofBytes_append]
  exact added room

theorem append_fits {line : Line} {written : Text} (shows : LineShows line written) (piece : Piece)
    (room : line.ret + piece.text.length ≤ piece.room) :
    ∃ buf, piece.append line = some (⟨buf, line.ret + piece.text.length⟩, true) ∧
      LineShows ⟨buf, line.ret + piece.text.length⟩ (written ++ piece.text) := by
  cases piece with
  | formatted text =>
    have below : line.ret + text.length < lineLen := Nat.lt_of_le_of_lt room (Nat.lt_add_one 511)
    have count : printedCount text = text.length := by
      apply if_pos
      unfold lineLen at below
      unfold intMax
      omega
    obtain ⟨buf, printed, -, added⟩ := snprintf_shows shows text
    refine ⟨buf, ?_, added below⟩
    have more : ¬((text.length : Int) < 0 ∨ (text.length : Int) ≥ (lineLen : Int) - line.ret) := by
      omega
    rw [Piece.append, printed, count, Option.bind_eq_bind, Option.bind_some]
    exact if_neg more
  | stored text =>
    have length : (ofBytes text).length = text.length := ofBytes_length text
    obtain ⟨buf, copied, cells⟩ := shows_copied shows (ofBytes text) (by rw [length]; exact room)
    rw [length] at copied cells
    refine ⟨buf, ?_, ⟨by simp [shows.length, Piece.text], room, ?_⟩⟩
    · rw [Piece.append, copied]
      exact if_neg (Nat.not_lt.mpr room)
    · rw [ofBytes_append]
      exact cells

theorem append_cut {line : Line} {written : Text} (shows : LineShows line written) (piece : Piece)
    (full : piece.room < line.ret + piece.text.length) :
    ∃ buf, piece.append line = some (⟨buf, line.ret⟩, false) ∧
      LineShows ⟨buf, line.ret⟩ written := by
  cases piece with
  | formatted text =>
    obtain ⟨buf, printed, kept, -⟩ := snprintf_shows shows text
    refine ⟨buf, ?_, kept⟩
    have beyond : lineLen ≤ line.ret + text.length := by
      change lineLen - 1 < line.ret + text.length at full
      omega
    have stop : printedCount text < 0 ∨ printedCount text ≥ (lineLen : Int) - line.ret := by
      unfold printedCount
      split <;> omega
    rw [Piece.append, printed, Option.bind_eq_bind, Option.bind_some]
    exact if_pos stop
  | stored text =>
    refine ⟨line.buf, ?_, shows⟩
    exact if_pos full

/-- The line after all pieces shows those in front of the one that has stopped it. -/
theorem appendPieces_shows (pieces : List Piece) {line : Line} {written : Text}
    (shows : LineShows line written) :
    ∃ after text, appendPieces pieces line = some after ∧ after.ret = filled line.ret pieces ∧
      LineShows after (written ++ text) ∧ text <+: pieces.flatMap Piece.text := by
  induction pieces generalizing line written with
  | nil => exact ⟨line, [], rfl, rfl, by rwa [List.append_nil], List.prefix_refl _⟩
  | cons piece pieces ih =>
    by_cases room : line.ret + piece.text.length ≤ piece.room
    · obtain ⟨buf, appended, next⟩ := append_fits shows piece room
      obtain ⟨after, text, rest, stop, found, cut⟩ := ih next
      refine ⟨after, piece.text ++ text, ?_, ?_, ?_, ?_⟩
      · rw [appendPieces, appended, Option.bind_eq_bind, Option.bind_some]
        exact rest
      · rw [stop, filled, if_pos room]
      · rwa [← List.append_assoc]
      · rw [List.flatMap_cons]
        exact (List.prefix_append_right_inj _).mpr cut
    · obtain ⟨buf, appended, same⟩ := append_cut shows piece (by omega)
      refine ⟨⟨buf, line.ret⟩, [], ?_, ?_, ?_, List.nil_prefix⟩
      · rw [appendPieces, appended, Option.bind_eq_bind, Option.bind_some]
        rfl
      · rw [filled, if_neg room]
      · rwa [List.append_nil]

theorem stringIn_terminated (written : Text) (behind : Block) :
    stringIn (ofBytes written ++ some 0 :: behind) = some (written.takeWhile fun b => b ≠ 0) := by
  induction written with
  | nil => simp [stringIn]
  | cons byte written ih =>
    rw [ofBytes_cons, List.cons_append, stringIn, ih]
    by_cases zero : byte = 0
    · simp [zero]
    · simp [zero]

/-- The indentation, the key and the value with what stands between and behind them. -/
def wholeLine (lv : Int) (key : Option CString) (fmt : Option Text) : Text :=
  (linePieces lv key fmt).flatMap Piece.text

theorem resPutLine_filled (lv : Int) (key : Option CString) (fmt : Option Text) :
    (∃ text, resPutLine lv key fmt = some text ∧ text <+: wholeLine lv key fmt) ↔
      filled 0 (linePieces lv key fmt) ≠ lineLen := by
  obtain ⟨line, text, appended, stop, shows, cut⟩ :=
    appendPieces_shows (linePieces lv key fmt) shows_start
  rw [List.nil_append] at shows
  change line.ret = filled 0 _ at stop
  rw [← stop, resPutLine, appended, Option.bind_eq_bind, Option.bind_some]
  have inside := shows.inside
  constructor
  · intro printed full
    obtain ⟨found, printing, -⟩ := printed
    obtain ⟨buf, copied, -⟩ := Option.bind_eq_some_iff.mp printing
    have fits := (Region.memcpy_isSome line.buf line.ret [some 0] 1).mp (by rw [copied]; rfl)
    omega
  · intro room
    obtain ⟨buf, behind, copied, cells⟩ := line.buf.terminated shows.cells (by omega)
    refine ⟨text.takeWhile fun b => b ≠ 0, ?_, (List.takeWhile_prefix _).trans cut⟩
    rw [copied, Option.bind_eq_bind, Option.bind_some, cells, stringIn_terminated]

theorem filled_indentation (ret rounds : Nat) (pieces : List Piece) (inside : ret < lineLen) :
    filled ret (List.replicate rounds (.formatted [space, space]) ++ pieces) = lineLen ↔
      ret + 2 * rounds < lineLen ∧ filled (ret + 2 * rounds) pieces = lineLen := by
  induction rounds generalizing ret with
  | zero => simp [inside]
  | succ rounds ih =>
    rw [List.replicate_succ, List.cons_append, filled]
    have length : (Piece.formatted [space, space]).text.length = 2 := rfl
    have room : (Piece.formatted [space, space]).room = lineLen - 1 := rfl
    have moved : ret + 2 + 2 * rounds = ret + 2 * (rounds + 1) := by omega
    rw [length, room]
    by_cases fits : ret + 2 ≤ lineLen - 1
    · rw [if_pos fits, ih (ret + 2) (by omega), moved]
    · rw [if_neg fits]
      omega

-- `ret` is where the indentation ends
def ContentFits (ret : Nat) (key : Option CString) (fmt : Option Text) : Prop :=
  match key, fmt with
  | none, none => ret ≠ 511
  | some key, none => ret + key.bytes.length ≠ 511
  | none, some value => ret + value.length ≠ 511
  | some key, some value =>
      ret + key.bytes.length ≠ 510 ∧ ret + key.bytes.length + 2 + value.length ≠ 511

theorem filled_content (ret : Nat) (key : Option CString) (fmt : Option Text)
    (inside : ret < lineLen) :
    filled ret (contentPieces key fmt) ≠ lineLen ↔ ContentFits ret key fmt := by
  have size : lineLen = 512 := rfl
  rw [size] at inside ⊢
  cases key with
  | none =>
    cases fmt with
    | none =>
      simp only [contentPieces, filled, Piece.text, Piece.room, size, List.nil_append,
        List.length_singleton, ContentFits]
      split <;> omega
    | some value =>
      simp only [contentPieces, filled, Piece.text, Piece.room, size, List.nil_append,
        List.cons_append, List.length_singleton, ContentFits, Option.isSome_none,
        Bool.false_eq_true, if_false]
      split_ifs <;> omega
  | some key =>
    cases fmt with
    | none =>
      simp only [contentPieces, filled, Piece.text, Piece.room, size, List.nil_append,
        List.cons_append, List.append_nil, List.length_singleton, ContentFits]
      split_ifs <;> omega
    | some value =>
      simp only [contentPieces, filled, Piece.text, Piece.room, size, List.nil_append,
        List.cons_append, List.length_cons, List.length_nil, ContentFits, Option.isSome_some,
        if_true]
      split_ifs <;> omega

theorem contentFits_deep (ret : Nat) (key : Option CString) (fmt : Option Text)
    (deep : lineLen ≤ ret) : ContentFits ret key fmt := by
  unfold lineLen at deep
  cases key with
  | none =>
    cases fmt with
    | none => exact Nat.ne_of_gt deep
    | some value =>
      unfold ContentFits
      omega
  | some key =>
    cases fmt with
    | none =>
      unfold ContentFits
      omega
    | some value =>
      unfold ContentFits
      omega

/-- The lengths at which every write stays in the array. -/
def LineFits (lv : Int) (key : Option CString) (fmt : Option Text) : Prop :=
  ContentFits (if lv = 0 then 1 else 2 * lv.toNat) key fmt

theorem filled_line (lv : Int) (key : Option CString) (fmt : Option Text) :
    filled 0 (linePieces lv key fmt) ≠ lineLen ↔ LineFits lv key fmt := by
  have indentation := filled_indentation 0 lv.toNat
    ((if lv = 0 then [.stored [newline]] else []) ++ contentPieces key fmt) (by decide)
  change filled 0 (linePieces lv key fmt) = lineLen ↔ _ at indentation
  rw [Nat.zero_add] at indentation
  by_cases root : lv = 0
  · have first : filled 0 (.stored [newline] :: contentPieces key fmt) =
        filled 1 (contentPieces key fmt) := rfl
    rw [if_pos root, root] at indentation
    rw [LineFits, if_pos root, ← filled_content 1 key fmt (by decide), ne_eq, root, indentation]
    exact not_congr (and_iff_right (by decide : 2 * (0 : Int).toNat < lineLen))
  · rw [if_neg root, List.nil_append] at indentation
    rw [LineFits, if_neg root, ne_eq, indentation]
    by_cases deep : 2 * lv.toNat < lineLen
    · rw [and_iff_right deep, ← filled_content _ key fmt deep]
    · have fits := contentFits_deep (2 * lv.toNat) key fmt (Nat.not_lt.mp deep)
      exact iff_of_true (fun found => deep found.1) fits

/-- Every write stays in the array, and a prefix of the line is printed, exactly if the line
without its newline has not 511 bytes, nor indentation and key 510 in front of a value. -/
theorem resPutLine_iff (lv : Int) (key : Option CString) (fmt : Option Text) :
    (∃ text, resPutLine lv key fmt = some text ∧ text <+: wholeLine lv key fmt) ↔
      LineFits lv key fmt :=
  (resPutLine_filled lv key fmt).trans (filled_line lv key fmt)

def longKey (length : Nat) : CString where
  bytes := List.replicate length 107
  terminated := fun member => by cases List.eq_of_mem_replicate member

theorem longKey_length (length : Nat) : (longKey length).bytes.length = length :=
  List.length_replicate

theorem lineFits_title (length : Nat) : LineFits 0 (some (longKey length)) none ↔ length ≠ 510 := by
  simp only [LineFits, ContentFits, if_true, longKey_length]
  omega

-- Behind the newline in front of a title of 510 bytes and the one behind it no byte is left.
theorem resPutLine_overflows :
    ¬ ∀ (lv : Int) (key : Option CString) (fmt : Option Text),
      ∃ text, resPutLine lv key fmt = some text ∧ text <+: wholeLine lv key fmt := by
  intro right
  have fits := (filled_line 0 (some (longKey 510)) none).mp
    ((resPutLine_filled 0 (some (longKey 510)) none).mp (right 0 (some (longKey 510)) none))
  exact (lineFits_title 510).mp fits rfl

end Report

end TsAnalyze
