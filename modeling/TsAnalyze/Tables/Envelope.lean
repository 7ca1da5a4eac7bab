import TsAnalyze.Tables.Encoded

set_option autoImplicit false

namespace TsAnalyze.Tables

open Memory

/-- The only section of a table, apart from the table's data. -/
structure Envelope where
  tableId : UInt8
  privateBit : Bool
  tableIdExt : Nat
  version : Nat
  currentNext : Bool
  crc : List UInt8
  extFits : tableIdExt < 65536
  versionFits : version < 32
  crcSized : crc.length = 4

namespace Envelope

variable (envelope : Envelope)

-- section_syntax_indicator, the private bit and two reserved bits
def flags : Nat :=
  if envelope.privateBit then 0xF000 else 0xB000

-- two reserved bits, version_number and current_next_indicator
def versionByte : UInt8 :=
  UInt8.ofNat (0xC0 + 2 * envelope.version + envelope.currentNext.toNat)

-- section_number and last_section_number are 0
def encode (body : List UInt8) : List UInt8 :=
  [envelope.tableId] ++ encode16 (envelope.flags + (body.length + 9)) ++
    encode16 envelope.tableIdExt ++ [envelope.versionByte, 0, 0] ++ body ++ envelope.crc

def fields (length : Nat) : SectionFields where
  tableId := envelope.tableId.toNat
  sectionSyntaxIndicator := 1
  privateBit := envelope.privateBit.toNat
  sectionLength := length

def long : LongFields where
  tableIdExt := envelope.tableIdExt
  versionNumber := readBits 8 envelope.versionByte.toNat 5 1
  currentNextIndicator := envelope.currentNext.toNat
  curSec := 0
  lastSec := 0

@[simp] theorem encode_length (body : List UInt8) :
    (envelope.encode body).length = body.length + 12 := by
  simp only [encode, List.length_append, encode16_length, List.length_cons, List.length_nil,
    envelope.crcSized]
  omega

theorem flags_bounds : envelope.flags % 4096 = 0 ∧ envelope.flags ≤ 0xF000 := by
  rw [flags]
  split <;> simp

theorem flags_bits (length : Nat) (short : length < 4096) :
    readBits 8 (UInt8.ofNat ((envelope.flags + length) / 256)).toNat 1 0 = 1 ∧
      readBits 8 (UInt8.ofNat ((envelope.flags + length) / 256)).toNat 1 1 =
        envelope.privateBit.toNat := by
  have bit : ∀ value width : Nat, readBits 8 value 1 width = value / 2 ^ (7 - width) % 2 := by
    intro value width
    rw [readBits, Nat.shiftRight_eq_div_pow, show 8 - width - 1 = 7 - width by omega]
    exact land_low_bits _ 1
  rw [bit, bit, UInt8.toNat_ofNat', flags]
  cases envelope.privateBit with
  | true =>
    simp only [if_true, Bool.toNat_true]
    omega
  | false =>
    simp only [Bool.false_eq_true, if_false, Bool.toNat_false]
    omega

-- any length of twelve bits can be read
theorem readableFields (body : List UInt8) (fits : body.length + 9 < 4096) :
    readFields (ofBytes (envelope.encode body)) = some (envelope.fields (body.length + 9)) := by
  have stored : Stores16 (ofBytes (envelope.encode body)) 1 (envelope.flags + (body.length + 9)) :=
    ⟨rfl, rfl⟩
  have bounds := envelope.flags_bounds
  have bits := envelope.flags_bits (body.length + 9) fits
  have length : (envelope.flags + (body.length + 9)) &&& 0x0FFF = body.length + 9 := by
    refine (land_low_bits _ 12).trans ?_
    omega
  have first : read8 (ofBytes (envelope.encode body)) 0 = some envelope.tableId := rfl
  simp only [readFields, first, stored.high, stored.read_fits (by omega), Option.bind_eq_bind,
    Option.bind_some, Option.pure_def, bits.1, bits.2, length]
  rfl

theorem readable (body : List UInt8) (fits : body.length + 9 ≤ 0x3FD) :
    readFields (ofBytes (envelope.encode body)) = some (envelope.fields (body.length + 9)) :=
  envelope.readableFields body (by omega)

theorem versionByte_bits :
    readBits 8 envelope.versionByte.toNat 1 7 = envelope.currentNext.toNat := by
  have fits := envelope.versionFits
  have low : envelope.currentNext.toNat ≤ 1 := Bool.toNat_le envelope.currentNext
  rw [readBits, show 8 - 7 - 1 = 0 from rfl, Nat.shiftRight_zero]
  refine (land_low_bits _ 1).trans ?_
  rw [versionByte, UInt8.toNat_ofNat']
  omega

theorem readableLong (body : List UInt8) :
    readLongFields (ofBytes (envelope.encode body)) = some envelope.long := by
  have stored : Stores16 (ofBytes (envelope.encode body)) 3 envelope.tableIdExt := ⟨rfl, rfl⟩
  have version : read8 (ofBytes (envelope.encode body)) 5 = some envelope.versionByte := rfl
  have current : read8 (ofBytes (envelope.encode body)) 6 = some 0 := rfl
  have last : read8 (ofBytes (envelope.encode body)) 7 = some 0 := rfl
  simp only [readLongFields, stored.read_fits envelope.extFits, version, current, last,
    Option.bind_eq_bind, Option.bind_some, Option.pure_def, envelope.versionByte_bits]
  rfl

/-- The section that carries `body`. -/
def toSection (body : List UInt8) (fits : body.length + 9 ≤ 0x3FD) : LongSection where
  bytes := envelope.encode body
  fields := envelope.fields (body.length + 9)
  long := envelope.long
  readable := envelope.readable body fits
  readableLong := envelope.readableLong body
  syntaxIndicator := rfl
  sized := by
    simp only [encode_length, fields]
    omega
  minimal := Nat.le_add_left 9 body.length
  maximal := fits

-- what stands behind the table's data in the memory that is decoded
def behind : Block :=
  ofBytes envelope.crc ++ List.replicate 5 none

theorem toSection_single (body : List UInt8) (fits : body.length + 9 ≤ 0x3FD) :
    (envelope.toSection body fits).Single :=
  ⟨rfl, rfl⟩

theorem toSection_stored (body : List UInt8) (fits : body.length + 9 ≤ 0x3FD) :
    (envelope.toSection body fits).stored = ofBytes body ++ envelope.behind := by
  have split : envelope.encode body = ([envelope.tableId] ++
      encode16 (envelope.flags + (body.length + 9)) ++ encode16 envelope.tableIdExt ++
      [envelope.versionByte, 0, 0]) ++ (body ++ envelope.crc) := by
    simp only [encode, List.append_assoc]
  have data : (envelope.toSection body fits).body = body ++ envelope.crc := by
    change (envelope.encode body).drop 8 = body ++ envelope.crc
    rw [split]
    exact List.drop_left' rfl
  rw [LongSection.stored, data, ofBytes_append, List.append_assoc, behind]

end Envelope

/-- What a header says that a section of this envelope has been read into. -/
structure TableHeader.Carries (header : TableHeader) (envelope : Envelope) (length : Nat) :
    Prop where
  tableId : header.tableId = envelope.tableId.toNat
  tableIdExt : header.tableIdExt = envelope.tableIdExt
  sectionLength : header.sectionLength = length + 9

/-- A fresh table that is given the section ends like this, with this return value. -/
def Parses {C : Type} (decoder : Decoder C) (initial : C) (envelope : Envelope)
    (body : List UInt8) (good : Table C → Int → Prop) : Prop :=
  ∀ heap : Heap, heap.Available → ∃ handled,
    parseTable decoder heap (ofBytes (envelope.encode body)) (envelope.encode body).length
        { content := initial } = some handled ∧
      good handled.table handled.ret

-- a parser has one result
theorem Parses.both {C : Type} {decoder : Decoder C} {initial : C} {envelope : Envelope}
    {body : List UInt8} {good other : Table C → Int → Prop}
    (parses : Parses decoder initial envelope body good)
    (again : Parses decoder initial envelope body other) :
    ∃ table ret, good table ret ∧ other table ret := by
  cases parses Heap.empty Heap.empty_available with
  | intro handled found =>
    cases again Heap.empty Heap.empty_available with
    | intro same foundAgain =>
      rw [found.1] at foundAgain
      cases foundAgain.1
      exact ⟨handled.table, handled.ret, found.2, foundAgain.2⟩

-- a table that has been given no section
theorem parseTable_completed {C : Type} (decoder : Decoder C) (heap : Heap)
    (available : heap.Available) (table : Table C)
    (unseen : bitmap64Get table.header.sectionBitmap 0 = false)
    (cleared : table.header.privateDataByte = none) (envelope : Envelope) (body : List UInt8)
    (fits : body.length + 9 ≤ 0x3FD) :
    ∃ given : Heap, given.Available ∧
      parseTable decoder heap (ofBytes (envelope.encode body)) (envelope.encode body).length
          table =
        (decoder (completed heap table.header (envelope.toSection body fits))
          (ofBytes body ++ envelope.behind) table.content given).map fun result =>
            ⟨result.2, ⟨completed heap table.header (envelope.toSection body fits),
              result.1.content⟩, result.1.ret, result.1.registered⟩ := by
  let sec := envelope.toSection body fits
  cases parseSectionHeader_first heap table.header sec (envelope.toSection_single body fits)
    available unseen cleared with
  | intro parsed first =>
    have data : privateData parsed = ofBytes body ++ envelope.behind := by
      rw [privateData, first.2.data, Option.getD_some, envelope.toSection_stored body fits]
    have header : parseSectionHeader heap (ofBytes (envelope.encode body))
        (envelope.encode body).length table.header = some parsed := first.1
    refine ⟨parsed.heap, available.of_succeeds first.2.supply, ?_⟩
    simp only [parseTable, header, Option.bind_some, first.2.ret, ne_eq, not_true_eq_false,
      if_false, data, first.2.table, sec]

theorem parseTable_fresh {C : Type} (decoder : Decoder C) (heap : Heap)
    (available : heap.Available) (table : Table C)
    (unseen : bitmap64Get table.header.sectionBitmap 0 = false)
    (cleared : table.header.privateDataByte = none) (envelope : Envelope) (body : List UInt8)
    (fits : body.length + 9 ≤ 0x3FD) :
    ∃ header : TableHeader, header.Carries envelope body.length ∧
      ∃ given : Heap, given.Available ∧
        parseTable decoder heap (ofBytes (envelope.encode body)) (envelope.encode body).length
            table =
          (decoder header (ofBytes body ++ envelope.behind) table.content given).map fun result =>
            ⟨result.2, ⟨header, result.1.content⟩, result.1.ret, result.1.registered⟩ :=
  ⟨completed heap table.header (envelope.toSection body fits), ⟨rfl, rfl, rfl⟩,
    parseTable_completed decoder heap available table unseen cleared envelope body fits⟩

-- a section that is longer than a long one may be
theorem parseTable_tooLong {C : Type} (decoder : Decoder C) (heap : Heap) (table : Table C)
    (envelope : Envelope) (body : List UInt8) (long : 0x3FD < body.length + 9)
    (fits : body.length + 9 < 4096) :
    parseTable decoder heap (ofBytes (envelope.encode body)) (envelope.encode body).length table =
      some { heap := heap, table := table, ret := invalidSecLen } := by
  have header : parseSectionHeader heap (ofBytes (envelope.encode body))
      (envelope.encode body).length table.header = some ⟨heap, table.header, invalidSecLen⟩ := by
    simp only [parseSectionHeader, envelope.readableFields body fits, Option.bind_eq_bind,
      Option.bind_some]
    exact if_pos ⟨rfl, long⟩
  have refused : invalidSecLen ≠ 0 := by decide
  simp only [parseTable, header, Option.bind_some]
  exact if_pos refused

theorem parseTable_encoded {C : Type} (decoder : Decoder C) (initial : C) (envelope : Envelope)
    (body : List UInt8) (fits : body.length + 9 ≤ 0x3FD) (good : Table C → Int → Prop)
    (yields : ∀ header : TableHeader, header.Carries envelope body.length →
      ∃ result : Decoded C, good ⟨header, result.content⟩ result.ret ∧
        Yields (decoder header (ofBytes body ++ envelope.behind) initial) result) :
    Parses decoder initial envelope body good := by
  intro heap available
  rcases parseTable_fresh decoder heap available { content := initial } (bitmap64Get_empty 0) rfl
    envelope body fits with ⟨header, carries, given, givenAvailable, parsed⟩
  cases yields header carries with
  | intro result found =>
    cases found.2 given givenAvailable with
    | intro after decoding =>
      refine ⟨⟨after, ⟨header, result.content⟩, result.ret, result.registered⟩, ?_, found.1⟩
      rw [parsed, decoding.1]
      rfl

theorem Parses.decodes {C : Type} {decoder : Decoder C} {initial : C} {envelope : Envelope}
    {body : List UInt8} {good : Table C → Int → Prop} (fits : body.length + 9 ≤ 0x3FD)
    (parses : Parses decoder initial envelope body good) :
    ∃ header : TableHeader, header.Carries envelope body.length ∧
      ∃ (given : Heap) (result : Decoded C × Heap), given.Available ∧
        decoder header (ofBytes body ++ envelope.behind) initial given = some result ∧
        good ⟨header, result.1.content⟩ result.1.ret := by
  rcases parseTable_fresh decoder Heap.empty Heap.empty_available { content := initial }
    (bitmap64Get_empty 0) rfl envelope body fits with
    ⟨header, carries, given, givenAvailable, parsed⟩
  rcases parses Heap.empty Heap.empty_available with ⟨handled, found, good⟩
  rw [parsed] at found
  rcases Option.map_eq_some_iff.mp found with ⟨result, decoding, rfl⟩
  exact ⟨header, carries, given, result, givenAvailable, decoding, good⟩

end TsAnalyze.Tables
