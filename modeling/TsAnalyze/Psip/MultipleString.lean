import TsAnalyze.Shared.Counted
import TsAnalyze.Shared.Reading
import TsAnalyze.Tables.Header

set_option autoImplicit false

namespace TsAnalyze.Psip

open Memory Tables

-- a pointer to allocated memory is `none` for NULL
structure StringSegment where
  compressionType : UInt8 := 0
  mode : UInt8 := 0
  numberBytes : UInt8 := 0
  compressedStringByte : Option Block := none

structure LangString where
  iso639LanguageCode : Nat := 0
  numberSegments : Nat := 0
  segments : Option (List StringSegment) := none

structure MultipleString where
  numberStrings : UInt8 := 0
  strings : Option (List LangString) := none

-- A NULL array may be freed, but none of its elements.
def freeSegments (string : LangString) : Option Unit :=
  if 0 < string.numberSegments ∧ string.segments.isNone then none else some ()

def freeStrings : List LangString → Option Unit
  | [] => some ()
  | string :: strings => do
      freeSegments string
      freeStrings strings

def freeMultiString (str : MultipleString) : Option Unit :=
  if 0 < str.numberStrings ∧ str.strings.isNone then none
  else freeStrings (str.strings.getD [])

def readSegment (pdata : Block) : Allocating (Filled StringSegment) := do
  let compressionType ← read8 pdata 0
  let mode ← read8 pdata 1
  let numberBytes ← read8 pdata 2
  if ← reserve then
    let copied ← (Region.zeros numberBytes.toNat).memcpy 0 (pdata.drop 3) numberBytes.toNat
    pure ⟨⟨compressionType, mode, numberBytes, some copied.cells⟩, 3 + numberBytes.toNat, true⟩
  else pure ⟨⟨compressionType, mode, numberBytes, none⟩, 3, false⟩

def readString (pdata : Block) : Allocating (Filled LangString) := do
  let word ← read32 pdata 0
  let iso639LanguageCode := readBits 32 word 24 0
  let numberSegments := readBits 32 word 8 24
  if ← reserve then
    let segments ← fillLoop {} readSegment numberSegments (pdata.drop 4)
    pure ⟨⟨iso639LanguageCode, numberSegments, some segments.value⟩, 4 + segments.size,
      segments.complete⟩
  else pure ⟨⟨iso639LanguageCode, numberSegments, none⟩, 4, false⟩

def readStrings (pdata : Block) : Allocating (Filled MultipleString) := do
  let numberStrings ← read8 pdata 0
  if ← reserve then
    let strings ← fillLoop {} readString numberStrings.toNat (pdata.drop 1)
    pure ⟨⟨numberStrings, some strings.value⟩, 1 + strings.size, strings.complete⟩
  else pure ⟨⟨numberStrings, none⟩, 1, false⟩

-- the bytes that have been read, or ENOMEM
def parseMultiString (pbuf : Block) : Allocating (MultipleString × Int) := do
  let read ← readStrings pbuf
  pure (read.value, if read.complete then read.size else enomem)

section Plain

theorem readSegment_plain (pdata : Block) : Plain (readSegment pdata) := by
  apply plain_bind _ _ (plain_lift _)
  intro compressionType
  apply plain_bind _ _ (plain_lift _)
  intro mode
  apply plain_bind _ _ (plain_lift _)
  intro numberBytes
  apply plain_bind _ _ plain_reserve
  intro given
  apply plain_ite
  · apply plain_bind _ _ (plain_lift _)
    intro copied
    exact plain_pure _
  · exact plain_pure _

theorem readString_plain (pdata : Block) : Plain (readString pdata) := by
  apply plain_bind _ _ (plain_lift _)
  intro word
  apply plain_bind _ _ plain_reserve
  intro given
  apply plain_ite
  · apply plain_bind _ _ (fillLoop_plain _ _ readSegment_plain _ _)
    intro segments
    exact plain_pure _
  · exact plain_pure _

theorem parseMultiString_plain (pbuf : Block) : Plain (parseMultiString pbuf) := by
  apply plain_bind
  · apply plain_bind _ _ (plain_lift _)
    intro numberStrings
    apply plain_bind _ _ plain_reserve
    intro given
    apply plain_ite
    · apply plain_bind _ _ (fillLoop_plain _ _ readString_plain _ _)
      intro strings
      exact plain_pure _
    · exact plain_pure _
  · intro read
    exact plain_pure _

end Plain

structure TextSegment where
  compressionType : UInt8
  mode : UInt8
  bytes : List UInt8
  short : bytes.length ≤ 255

structure LanguageText where
  language : Nat
  segments : List TextSegment
  languageFits : language < 2 ^ 24
  few : segments.length ≤ 255

/-- What a multiple_string structure says. -/
structure MultiText where
  strings : List LanguageText
  few : strings.length ≤ 255

namespace TextSegment

def encode (segment : TextSegment) : List UInt8 :=
  [segment.compressionType] ++ ([segment.mode] ++
    ([UInt8.ofNat segment.bytes.length] ++ segment.bytes))

def stored (segment : TextSegment) : StringSegment :=
  ⟨segment.compressionType, segment.mode, UInt8.ofNat segment.bytes.length,
    some (ofBytes segment.bytes)⟩

end TextSegment

namespace LanguageText

def word (text : LanguageText) : Nat :=
  text.language * 2 ^ 8 + text.segments.length

def encode (text : LanguageText) : List UInt8 :=
  encode32 text.word ++ text.segments.flatMap TextSegment.encode

def stored (text : LanguageText) : LangString :=
  ⟨text.language, text.segments.length, some (text.segments.map TextSegment.stored)⟩

theorem word_fits (text : LanguageText) : text.word < 2 ^ 32 := by
  have fits := text.languageFits
  have few := text.few
  rw [word]
  omega

theorem word_fields (text : LanguageText) :
    readBits 32 text.word 24 0 = text.language ∧
      readBits 32 text.word 8 24 = text.segments.length := by
  have fits := text.languageFits
  have few := text.few
  simp only [readBits_low, word]
  omega

end LanguageText

namespace MultiText

def encode (text : MultiText) : List UInt8 :=
  [UInt8.ofNat text.strings.length] ++ text.strings.flatMap LanguageText.encode

def stored (text : MultiText) : MultipleString :=
  ⟨UInt8.ofNat text.strings.length, some (text.strings.map LanguageText.stored)⟩

end MultiText

-- one string of one segment of bytes as they are
def plainText (bytes : List UInt8) (short : bytes.length ≤ 255) : MultiText :=
  ⟨[⟨0x656E67, [⟨0, 0, bytes, short⟩], by simp, by simp⟩], by simp⟩

theorem byte_of_length (length : Nat) (short : length ≤ 255) :
    (UInt8.ofNat length).toNat = length := by
  rw [UInt8.toNat_ofNat', Nat.mod_eq_of_lt (by omega)]

theorem segment_codes (segment : TextSegment) :
    Codes readSegment TextSegment.encode TextSegment.stored segment := by
  have length := byte_of_length segment.bytes.length segment.short
  constructor
  · intro behind
    have rest : (ofBytes segment.encode ++ behind).drop 3 = ofBytes segment.bytes ++ behind := rfl
    have size : segment.encode.length = 3 + segment.bytes.length := by
      simp only [TextSegment.encode, List.length_append, List.length_singleton]
      omega
    obtain ⟨copied, copying, cells⟩ := Region.memcpy_whole (Region.zeros segment.bytes.length)
      (ofBytes segment.bytes ++ behind) (by simp)
    rw [List.take_left' (by simp)] at cells
    apply yields_read (show _ = some segment.compressionType from rfl)
    apply yields_read (show _ = some segment.mode from rfl)
    apply yields_read (show _ = some (UInt8.ofNat segment.bytes.length) from rfl)
    apply yields_allocated
    rw [length, rest, size, TextSegment.stored, ← cells]
    apply yields_read (by rw [cells]; exact copying)
    exact yields_pure _
  · intro memory heap result available found same
    obtain ⟨compressionType, first, found⟩ := lift_bind found
    obtain ⟨mode, second, found⟩ := lift_bind found
    obtain ⟨numberBytes, third, found⟩ := lift_bind found
    have later := allocated_bind available found
    obtain ⟨copied, copying, ending⟩ := lift_bind later.1
    cases ending
    simp only [TextSegment.stored, StringSegment.mk.injEq, Option.some.injEq] at same
    have cells := Region.memcpy_whole_cells _ copied _ copying
    rw [same.2.2.2, same.2.2.1, length] at cells
    have bytes : Stands (memory.drop 3) segment.bytes :=
      ⟨(memory.drop 3).drop segment.bytes.length, by rw [cells, List.take_append_drop]⟩
    rw [same.1] at first
    rw [same.2.1] at second
    rw [same.2.2.1] at third
    apply (stands_read8 first).append
    apply (stands_read8 (by rwa [read8_drop])).append
    rw [List.drop_drop]
    apply (stands_read8 (by rwa [read8_drop])).append
    rwa [List.drop_drop]

theorem string_codes (text : LanguageText) :
    Codes readString LanguageText.encode LanguageText.stored text := by
  have fields := text.word_fields
  have segments := codes_fillLoop {} text.segments fun segment _ => segment_codes segment
  constructor
  · intro behind
    have rest : (ofBytes text.encode ++ behind).drop 4 =
        ofBytes (text.segments.flatMap TextSegment.encode) ++ behind := rfl
    have size : text.encode.length =
        4 + (text.segments.flatMap TextSegment.encode).length := by
      simp only [LanguageText.encode, List.length_append, encode32_length]
    have word : read32 (ofBytes text.encode ++ behind) 0 = some text.word := by
      rw [read32_stored _ _ text.word ⟨rfl, rfl⟩ ⟨rfl, rfl⟩, Nat.mod_eq_of_lt text.word_fits]
    apply yields_read word
    apply yields_allocated
    rw [fields.1, fields.2, rest, size]
    exact yields_bind (segments.reads behind) (yields_pure _)
  · intro memory heap result available found same
    obtain ⟨word, wordRead, found⟩ := lift_bind found
    have later := allocated_bind available found
    obtain ⟨⟨read, after⟩, reading, ending⟩ := Option.bind_eq_some_iff.mp later.1
    cases ending
    simp only [LanguageText.stored, LangString.mk.injEq, Option.some.injEq] at same
    have fits := read32_lt memory 0 word wordRead
    have whole : word = text.word := by
      have high := same.1
      have low := same.2.1
      simp only [readBits_low] at high low
      rw [LanguageText.word]
      omega
    rw [whole] at wordRead
    rw [same.2.1] at reading
    have rest := segments.stands _ _ (read, after) later.2 reading same.2.2
    exact (stands_read32 wordRead).append rest

theorem strings_codes (text : MultiText) :
    Codes readStrings MultiText.encode MultiText.stored text := by
  have length := byte_of_length text.strings.length text.few
  have strings := codes_fillLoop {} text.strings fun string _ => string_codes string
  constructor
  · intro behind
    have rest : (ofBytes text.encode ++ behind).drop 1 =
        ofBytes (text.strings.flatMap LanguageText.encode) ++ behind := rfl
    have size : text.encode.length = 1 + (text.strings.flatMap LanguageText.encode).length := by
      simp only [MultiText.encode, List.length_append, List.length_singleton]
    apply yields_read (show _ = some (UInt8.ofNat text.strings.length) from rfl)
    apply yields_allocated
    rw [length, rest, size]
    exact yields_bind (strings.reads behind) (yields_pure _)
  · intro memory heap result available found same
    obtain ⟨numberStrings, first, found⟩ := lift_bind found
    have later := allocated_bind available found
    obtain ⟨⟨read, after⟩, reading, ending⟩ := Option.bind_eq_some_iff.mp later.1
    cases ending
    simp only [MultiText.stored, MultipleString.mk.injEq, Option.some.injEq] at same
    rw [same.1] at first
    rw [same.1, length] at reading
    have rest := strings.stands _ _ (read, after) later.2 reading same.2
    exact (stands_read8 first).append rest

section MultiText

variable (text : MultiText)

/-- parse_multi_string undoes the encoding and counts its bytes. -/
theorem parseMultiString_encoded (behind : Block) :
    Yields (parseMultiString (ofBytes text.encode ++ behind))
      (text.stored, (text.encode.length : Int)) :=
  yields_bind ((strings_codes text).reads behind) (yields_pure _)

/-- It finds a text nowhere but in its encoding. -/
theorem parseMultiString_stands (memory : Block) (heap : Heap) (available : heap.Available)
    (result : (MultipleString × Int) × Heap)
    (found : parseMultiString memory heap = some result) (same : result.1.1 = text.stored) :
    Stands memory text.encode := by
  obtain ⟨⟨read, after⟩, reading, ending⟩ := Option.bind_eq_some_iff.mp found
  cases ending
  exact (strings_codes text).stands memory heap (read, after) available reading same

end MultiText

section Contents

-- the bytes that the pointer leads to
def StringSegment.contents (segment : StringSegment) : Option (UInt8 × UInt8 × List UInt8) := do
  let memory ← segment.compressedStringByte
  let bytes ← readBytes memory 0 segment.numberBytes.toNat
  return (segment.compressionType, segment.mode, bytes)

def LangString.contents (string : LangString) :
    Option (Nat × List (UInt8 × UInt8 × List UInt8)) := do
  let segments ← string.segments
  let found ← segments.mapM StringSegment.contents
  if found.length = string.numberSegments then some (string.iso639LanguageCode, found) else none

/-- What a reader of the structure finds in it. -/
def MultipleString.contents (str : MultipleString) :
    Option (List (Nat × List (UInt8 × UInt8 × List UInt8))) := do
  let strings ← str.strings
  let found ← strings.mapM LangString.contents
  if found.length = str.numberStrings.toNat then some found else none

def TextSegment.contents (segment : TextSegment) : UInt8 × UInt8 × List UInt8 :=
  (segment.compressionType, segment.mode, segment.bytes)

def LanguageText.contents (text : LanguageText) : Nat × List (UInt8 × UInt8 × List UInt8) :=
  (text.language, text.segments.map TextSegment.contents)

theorem mapM_stored {S A B : Type} {stored : S → A} {read : A → Option B} {contents : S → B}
    (same : ∀ item, read (stored item) = some (contents item)) (items : List S) :
    (items.map stored).mapM read = some (items.map contents) := by
  induction items with
  | nil => rfl
  | cons item items ih =>
    rw [List.map_cons, List.mapM_cons, same, ih]
    rfl

theorem segment_contents (segment : TextSegment) :
    segment.stored.contents = some segment.contents := by
  have length := byte_of_length segment.bytes.length segment.short
  have read := readBytes_whole segment.bytes []
  rw [List.append_nil] at read
  simp only [StringSegment.contents, TextSegment.stored, length, Option.bind_eq_bind,
    Option.bind_some, read]
  rfl

theorem string_contents (text : LanguageText) : text.stored.contents = some text.contents := by
  simp only [LangString.contents, LanguageText.stored, Option.bind_eq_bind, Option.bind_some,
    mapM_stored segment_contents, List.length_map]
  rfl

theorem strings_contents (text : MultiText) :
    text.stored.contents = some (text.strings.map LanguageText.contents) := by
  have length := byte_of_length text.strings.length text.few
  simp only [MultipleString.contents, MultiText.stored, Option.bind_eq_bind, Option.bind_some,
    mapM_stored string_contents, List.length_map, length]
  rfl

/-- The return value counts the encoded bytes, and the structure holds the strings, with their
segments and bytes, in order. -/
theorem multiString_undone (text : MultiText) (behind : Block) :
    ∃ str : MultipleString,
      Yields (parseMultiString (ofBytes text.encode ++ behind)) (str, (text.encode.length : Int)) ∧
        str.contents = some (text.strings.map LanguageText.contents) :=
  ⟨text.stored, parseMultiString_encoded text behind, strings_contents text⟩

end Contents

section Sizes

def segmentSize (memory : Block) : Option Nat := do
  let _ ← read8 memory 0
  let _ ← read8 memory 1
  let numberBytes ← read8 memory 2
  if 3 + numberBytes.toNat ≤ memory.length then some (3 + numberBytes.toNat) else none

def stringSize (memory : Block) : Option Nat := do
  let word ← read32 memory 0
  let segments ← sizes segmentSize (readBits 32 word 8 24) (memory.drop 4)
  return 4 + segments

/-- The bytes that a multiple_string structure takes by its own counts and lengths. -/
def multiStringSize (memory : Block) : Option Nat := do
  let numberStrings ← read8 memory 0
  let strings ← sizes stringSize numberStrings.toNat (memory.drop 1)
  return 1 + strings

theorem segment_measures : Measures readSegment segmentSize := by
  constructor
  · intro memory bytes known
    obtain ⟨compressionType, first, known⟩ := Option.bind_eq_some_iff.mp known
    obtain ⟨mode, second, known⟩ := Option.bind_eq_some_iff.mp known
    obtain ⟨numberBytes, third, known⟩ := Option.bind_eq_some_iff.mp known
    split at known
    · rename_i enough
      obtain ⟨copied, copying, -⟩ := Region.memcpy_whole (Region.zeros numberBytes.toNat)
        (memory.drop 3) (by rw [List.length_drop]; omega)
      refine ⟨⟨compressionType, mode, numberBytes, some copied.cells⟩, ?_⟩
      rw [← Option.some.inj known]
      apply yields_read first
      apply yields_read second
      apply yields_read third
      apply yields_allocated
      apply yields_read copying
      exact yields_pure _
    · cases known
  · intro memory heap result available found
    obtain ⟨compressionType, first, found⟩ := lift_bind found
    obtain ⟨mode, second, found⟩ := lift_bind found
    obtain ⟨numberBytes, third, found⟩ := lift_bind found
    obtain ⟨copied, copying, -⟩ := lift_bind (allocated_bind available found).1
    have inside := (Region.memcpy_isSome _ _ _ _).mp
      (Option.isSome_iff_exists.mpr ⟨copied, copying⟩)
    rw [List.length_drop] at inside
    have started : 2 < memory.length := by
      by_contra outside
      rw [read8_none memory 2 (by omega)] at third
      cases third
    simp only [segmentSize, first, second, third, Option.bind_eq_bind, Option.bind_some]
    rw [if_pos (by omega)]
    rfl

theorem string_measures : Measures readString stringSize := by
  constructor
  · intro memory bytes known
    obtain ⟨word, wordRead, known⟩ := Option.bind_eq_some_iff.mp known
    obtain ⟨segments, segmentsKnown, same⟩ := Option.bind_eq_some_iff.mp known
    obtain ⟨values, filled⟩ := (measures_fillLoop {} segment_measures _).reads _ _ segmentsKnown
    refine ⟨⟨readBits 32 word 24 0, readBits 32 word 8 24, some values⟩, ?_⟩
    rw [← Option.some.inj same]
    apply yields_read wordRead
    apply yields_allocated
    exact yields_bind filled (yields_pure _)
  · intro memory heap result available found
    obtain ⟨word, wordRead, found⟩ := lift_bind found
    have later := allocated_bind available found
    obtain ⟨filled, filling, -⟩ := Option.bind_eq_some_iff.mp later.1
    have segments := (measures_fillLoop {} segment_measures _).result later.2 filling
    simp [stringSize, wordRead, segments.1]

theorem strings_measures : Measures readStrings multiStringSize := by
  constructor
  · intro memory bytes known
    obtain ⟨numberStrings, first, known⟩ := Option.bind_eq_some_iff.mp known
    obtain ⟨strings, stringsKnown, same⟩ := Option.bind_eq_some_iff.mp known
    obtain ⟨values, filled⟩ := (measures_fillLoop {} string_measures _).reads _ _ stringsKnown
    refine ⟨⟨numberStrings, some values⟩, ?_⟩
    rw [← Option.some.inj same]
    apply yields_read first
    apply yields_allocated
    exact yields_bind filled (yields_pure _)
  · intro memory heap result available found
    obtain ⟨numberStrings, first, found⟩ := lift_bind found
    have later := allocated_bind available found
    obtain ⟨filled, filling, -⟩ := Option.bind_eq_some_iff.mp later.1
    have strings := (measures_fillLoop {} string_measures _).result later.2 filling
    simp only [multiStringSize, first, strings.1, Option.bind_eq_bind, Option.bind_some]
    rfl

/-- The return value is the structure's own size, wherever there is one. -/
theorem parseMultiString_measured (memory : Block) (bytes : Nat)
    (known : multiStringSize memory = some bytes) :
    ∃ value, Yields (parseMultiString memory) (value, (bytes : Int)) := by
  cases strings_measures.reads memory bytes known with
  | intro value yields => exact ⟨value, yields_bind yields (yields_pure _)⟩

theorem parseMultiString_size (memory : Block) (heap : Heap) (available : heap.Available)
    (result : (MultipleString × Int) × Heap) (found : parseMultiString memory heap = some result) :
    ∃ bytes : Nat, multiStringSize memory = some bytes ∧ result.1.2 = bytes := by
  obtain ⟨⟨read, after⟩, reading, ending⟩ := Option.bind_eq_some_iff.mp found
  have sized := strings_measures.result available reading
  dsimp only at sized ending
  rw [if_pos sized.2.1] at ending
  cases ending
  exact ⟨read.size, sized.1, rfl⟩

theorem multiStringSize_encoded (text : MultiText) (behind : Block) :
    multiStringSize (ofBytes text.encode ++ behind) = some text.encode.length := by
  cases parseMultiString_encoded text behind Heap.empty Heap.empty_available with
  | intro after found =>
    obtain ⟨bytes, known, same⟩ :=
      parseMultiString_size _ Heap.empty Heap.empty_available _ found.1
    have equal : text.encode.length = bytes := Int.ofNat.inj same
    rw [known, equal]

end Sizes

end TsAnalyze.Psip
