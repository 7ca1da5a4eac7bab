import TsAnalyze.Descriptors.Alignment
import TsAnalyze.Descriptors.Extents
import TsAnalyze.Tables.Encoded

set_option autoImplicit false

namespace TsAnalyze.Descriptors

open Memory Tables

-- the number that a condition or a count reads of a member
def Value.number : Value → Nat
  | .scalar value => value
  | .object [byte] => byte.toNat
  | _ => 0

-- a bit of the descriptor, and the members before it
structure Cursor where
  position : Nat
  fields : List (String × Nat)

namespace Cursor

def offset (cursor : Cursor) : Nat :=
  cursor.position / 8

def field (cursor : Cursor) (name : String) : Nat :=
  match cursor.fields.find? fun entry => entry.1 = name with
  | some (_, value) => value
  | none => 0

def take (cursor : Cursor) (name : String) (value bits : Nat) : Cursor :=
  ⟨cursor.position + bits, cursor.fields ++ [(name, value)]⟩

end Cursor

section Layout

variable (d : List UInt8)

def slice (offset size : Nat) : List UInt8 :=
  (d.drop offset).take size

/-- What is read of this member lies in the descriptor. -/
def Member.Inside (cursor : Cursor) : Member → Prop
  | .m _ _ bits => cursor.position + bits ≤ 8 * d.length
  | .m1 type _ => cursor.offset < d.length → cursor.offset + type.size ≤ d.length
  | .m1Uint24 _ => cursor.offset < d.length → cursor.offset + 3 ≤ d.length
  | .mplast type _ => cursor.offset ≤ d.length ∧ type.size ∣ d.length - cursor.offset
  | .mplastCustomSub callback _ =>
      cursor.offset ≤ d.length ∧ Tiled callback.extent (d.drop cursor.offset)
  | .mif type _ cond val => cursor.field cond = val → cursor.offset + type.size ≤ d.length
  | .mifCustom callback _ cond val =>
      cursor.field cond = val → (callback.extent (d.drop cursor.offset)).isSome = true
  | .mrangelvCustom callback _ cond floor ceiling =>
      floor ≤ cursor.field cond ∧ cursor.field cond ≤ ceiling →
        (callback.extent (d.drop cursor.offset)).isSome = true
  | .mlv type length _ divisor =>
      cursor.field length / divisor * type.size ≤ d.length - cursor.offset
  | .mploop _ => cursor.offset ≤ d.length ∧ Tiled (counted 1) (d.drop cursor.offset)
  | .mploopCustom callback _ => Tiled callback.extent (d.drop cursor.offset)

def Member.next (cursor : Cursor) : Member → Cursor
  | .m _ name bits =>
      cursor.take name (Bits.value (((Bits.ofBytes d).drop cursor.position).take bits)) bits
  | .m1 type name =>
      if cursor.offset < d.length then
        cursor.take name (Bits.bigEndian (slice d cursor.offset type.size)) (8 * type.size)
      else cursor
  | .m1Uint24 name => if cursor.offset < d.length then cursor.take name 0 (8 * 3) else cursor
  | .mif type name cond val =>
      if cursor.field cond = val then
        cursor.take name (Value.object (slice d cursor.offset type.size)).number (8 * type.size)
      else cursor
  | .mifCustom callback name cond val =>
      if cursor.field cond = val then
        cursor.take name 0 (8 * (callback.extent (d.drop cursor.offset)).getD 0)
      else cursor
  | .mrangelvCustom callback name cond floor ceiling =>
      if floor ≤ cursor.field cond ∧ cursor.field cond ≤ ceiling then
        cursor.take name 0 (8 * (callback.extent (d.drop cursor.offset)).getD 0)
      else cursor
  | .mlv type length name divisor =>
      cursor.take name 0 (8 * (cursor.field length / divisor * type.size))
  | .mplast _ name | .mplastCustomSub _ name | .mploop name | .mploopCustom _ name =>
      cursor.take name 0 (8 * (d.length - cursor.offset))

def Inside : List Member → Cursor → Prop
  | [], _ => True
  | member :: rest, cursor => member.Inside d cursor ∧ Inside rest (member.next d cursor)

end Layout

-- a bit field that its type holds, elements of some size, records that loops end with
def Member.Regular (bitsOff : Nat) : Member → Bool
  | .m type _ bits => 1 ≤ bits ∧ bitsOff + bits ≤ 8 * type.size
  | .mplast type _ | .mif type _ _ _ | .mlv type _ _ _ => 0 < type.size
  | .mplastCustomSub callback _ | .mploopCustom callback _ => callback ≠ .extendEventLinkageInfo
  | _ => true

def Regular : Nat → List Member → Bool
  | _, [] => true
  | bitsOff, member :: rest =>
      member.Regular bitsOff && Regular ((bitsOff + member.bits) % 8) rest

theorem foreachEnumDescriptor_regular :
    ∀ entry ∈ foreachEnumDescriptor, Regular 0 entry.2 = true := by
  decide +kernel

-- seven bytes behind the descriptor can be fetched and not used
def sealedInput (d : List UInt8) : Input where
  buf := ofBytes d ++ List.replicate 7 none
  len := d.length
  length := d.length - 2

def Parsing.cursor (p : Parsing) : Cursor where
  position := 8 * p.bytesOff + p.bitsOff
  fields := p.values.map fun entry => (entry.1, entry.2.number)

/-- A step succeeds when what it reads is inside, and then moves on to the next place. -/
structure Agrees (result : Option Parsing) (inside : Prop) (next : Cursor) : Prop where
  isSome : result.isSome = true ↔ inside
  cursor : ∀ after, result = some after → after.cursor = next

section Cursors

variable (p : Parsing)

theorem cursor_offset (below : p.bitsOff < 8) : p.cursor.offset = p.bytesOff := by
  rw [Cursor.offset, Parsing.cursor]
  dsimp only
  omega

theorem cursor_field (name : String) : p.cursor.field name = p.scalar name := by
  rw [Cursor.field, Parsing.scalar, Parsing.cursor, List.find?_map]
  have same : ((fun entry : String × Nat => decide (entry.1 = name)) ∘
      fun entry : String × Value => (entry.1, entry.2.number)) =
        fun entry => decide (entry.1 = name) := rfl
  rw [same]
  cases p.values.find? fun entry => decide (entry.1 = name) with
  | none => rfl
  | some entry =>
    rcases entry with ⟨found, value⟩
    cases value with
    | scalar value => rfl
    | object bytes =>
      match bytes with
      | [] => rfl
      | [byte] => rfl
      | first :: second :: rest => rfl
    | elements list => rfl
    | records list => rfl

theorem cursor_skip (name : String) (value : Value) (bytes : Nat) :
    ((p.set name value).skip bytes).cursor = p.cursor.take name value.number (8 * bytes) := by
  simp [Parsing.cursor, Parsing.set, Parsing.skip, Cursor.take]
  omega

theorem cursor_skipBits (name : String) (value : Value) (bits : Nat) :
    ((p.set name value).skipBits bits).cursor = p.cursor.take name value.number bits := by
  simp [Parsing.cursor, Parsing.set, Parsing.skipBits, Cursor.take]
  omega

theorem cursor_end (name : String) (value : Value) (last : Nat) (later : p.bytesOff ≤ last) :
    ({ p.set name value with bytesOff := last } : Parsing).cursor =
      p.cursor.take name value.number (8 * (last - p.bytesOff)) := by
  simp [Parsing.cursor, Parsing.set, Cursor.take]
  omega

theorem agrees_optional (condition : Prop) [Decidable condition] (result : Option Parsing)
    (inside : Prop) (next : Cursor) (read : condition → Agrees result inside next) :
    Agrees (if condition then result else some p) (condition → inside)
      (if condition then next else p.cursor) := by
  by_cases holds : condition
  · rw [if_pos holds, if_pos holds]
    have same := read holds
    exact ⟨by simp [same.isSome, holds], same.cursor⟩
  · rw [if_neg holds, if_neg holds]
    refine ⟨by simp [holds], fun after same => ?_⟩
    rw [← Option.some.inj same]

theorem agrees_map {A : Type} (read : Option A) (inside : Prop) (next : Cursor)
    (f : A → Parsing) (isSome : read.isSome = true ↔ inside)
    (moves : ∀ found, read = some found → (f found).cursor = next) :
    Agrees (read.map f) inside next := by
  refine ⟨by rw [Option.isSome_map, isSome], fun after same => ?_⟩
  rcases Option.map_eq_some_iff.mp same with ⟨found, ran, rfl⟩
  exact moves found ran

end Cursors

section Steps

variable (d : List UInt8) (p : Parsing) (below : p.bitsOff < 8)

theorem sealed_shows : Shows (sealedInput d).buf d :=
  shows_sealed d 7

theorem sealed_length : (sealedInput d).buf.length = d.length + 7 := by
  simp [sealedInput]

theorem readBytes_some (offset size : Nat) (positive : 0 < size) :
    (readBytes (sealedInput d).buf offset size).isSome = true ↔ offset + size ≤ d.length := by
  by_cases start : offset ≤ d.length
  · exact (sealed_shows d).readBytes_isSome offset size start
  · cases size with
    | zero => omega
    | succ size =>
      have gone : read8 (sealedInput d).buf offset = none := by
        rw [sealed_shows d offset, List.getElem?_eq_none (by omega)]
      rw [readBytes, gone]
      simp only [Option.bind_eq_bind, Option.bind_none, Option.isSome_none, Bool.false_eq_true,
        false_iff]
      omega

theorem readBytes_slice (offset size : Nat) (bytes : List UInt8)
    (found : readBytes (sealedInput d).buf offset size = some bytes) (positive : 0 < size) :
    bytes = slice d offset size := by
  have inside := (readBytes_some d offset size positive).mp (by rw [found]; rfl)
  rw [(sealed_shows d).readBytes_inside offset size inside] at found
  exact (Option.some.inj found).symm

include below in
theorem readBitField_inside (type : IntType) (bits : Nat)
    (regular : 1 ≤ bits ∧ p.bitsOff + bits ≤ 8 * type.size) :
    (readBitField type (sealedInput d).buf p.bytesOff bits p.bitsOff).isSome = true ↔
      p.cursor.position + bits ≤ 8 * d.length := by
  have small : type.size ≤ 8 := by cases type <;> decide
  have length := sealed_length d
  have position : p.cursor.position = 8 * p.bytesOff + p.bitsOff := rfl
  constructor
  · intro found
    by_contra outside
    rw [readBitField] at found
    split at found
    case isTrue holds =>
      -- the last cell that the field needs is none of the descriptor
      have last : p.bytesOff + ((p.bitsOff + bits + 7) / 8 - 1) < (sealedInput d).buf.length := by
        have cells := holds.1
        rw [List.length_take, List.length_drop] at cells
        omega
      have unknown : (sealedInput d).buf[p.bytesOff + ((p.bitsOff + bits + 7) / 8 - 1)] = none := by
        have shown := sealed_shows d (p.bytesOff + ((p.bitsOff + bits + 7) / 8 - 1))
        rw [List.getElem?_eq_none (by omega), read8, List.getElem?_eq_getElem last] at shown
        exact shown
      have known := List.all_eq_true.mp holds.2.2 none (by
        rw [← unknown, List.take_take, Nat.min_eq_left (by omega)]
        refine List.mem_iff_getElem.mpr ⟨(p.bitsOff + bits + 7) / 8 - 1, ?_, ?_⟩
        · rw [List.length_take, List.length_drop]
          omega
        · rw [List.getElem_take, List.getElem_drop])
      cases known
    case isFalse => cases found
  · intro inside
    have read := readBitField_known type d (List.replicate 7 none) p.bytesOff bits p.bitsOff
      (by omega) (by simp only [List.length_append, ofBytes_length, List.length_replicate]; omega)
      regular.2
    rw [sealedInput, read]
    rfl

theorem readElement_sized (type : CType) : Sized (readElement type) (fixed type.size) := by
  intro memory bytes shows
  have whole := shows.readBytes_fixed 0 type.size (Nat.zero_le _)
  rw [Nat.zero_add] at whole
  rw [readElement, Option.map_map, ← whole]
  rfl

theorem readLoopElement_sized : Sized readLoopElement (counted 1) := by
  have heads : ∀ memory bytes, Shows memory bytes → 1 < bytes.length →
      (read8 memory 0).isSome = true := by
    intro memory bytes shows inside
    rcases read8_some shows 0 (by omega) with ⟨value, ran⟩
    rw [ran]
    rfl
  exact sized_counted 1 heads fun first length bytes => first :: length :: bytes

theorem times_fixed (size count : Nat) (bytes : List UInt8) :
    times (fixed size) count bytes =
      if count * size ≤ bytes.length then some (count * size) else none := by
  induction count generalizing bytes with
  | zero => simp [times]
  | succ count ih =>
    have product : (count + 1) * size = count * size + size := Nat.succ_mul count size
    rw [times]
    by_cases inside : size ≤ bytes.length
    · rw [fixed, if_pos inside]
      simp only [Option.bind_eq_bind, Option.bind_some, ih, List.length_drop]
      by_cases all : count * size ≤ bytes.length - size
      · rw [if_pos all, if_pos (by omega), product, Nat.add_comm]
        rfl
      · rw [if_neg all, if_neg (by omega)]
        rfl
    · rw [fixed, if_neg inside, if_neg (by omega)]
      rfl

section Loops

variable {A : Type} {read : Block → Option (A × Nat)} {extent : Extent} {least : Nat}
  (sized : Sized read extent) (proper : extent.Proper least) (name : String)
  (value : List A → Value) (number : ∀ list, (value list).number = 0)
include below sized proper number

theorem plastLoop_agrees (long : 2 ≤ d.length) :
    Agrees (plastLoop (sealedInput d) p name read value)
      (p.cursor.offset ≤ d.length ∧ Tiled extent (d.drop p.cursor.offset))
      (p.cursor.take name 0 (8 * (d.length - p.cursor.offset))) := by
  have finish : (sealedInput d).length + 2 = d.length := Nat.sub_add_cancel long
  have buffer := sealed_length d
  have positive := proper.positive
  rw [plastLoop, cursor_offset p below, finish]
  by_cases start : p.bytesOff ≤ d.length
  · have fuel : d.length ≤ p.bytesOff + least * ((sealedInput d).buf.length + 1) := by
      have product := Nat.le_mul_of_pos_left ((sealedInput d).buf.length + 1) positive
      omega
    have ends := sized.readWhile_tiled proper (sealed_shows d)
      (fun off => decide (off ≠ d.length)) (fun off _ => by simp) _ p.bytesOff start fuel []
    apply agrees_map
    · rw [← Option.isSome_map (f := Prod.snd), Option.isSome_iff_exists]
      simp only [ends, exists_eq_right, start, true_and]
    · rintro ⟨list, off⟩ ran
      have last := ((ends off).mp (by rw [ran]; rfl)).2
      rw [last, ← number list]
      exact cursor_end p name (value list) d.length start
  · have gone := sized.readWhile_beyond proper (sealed_shows d)
      (fun off => decide (off ≠ d.length)) ((sealedInput d).buf.length + 1) p.bytesOff (by omega)
      (by simp; omega) []
    rw [gone]
    exact ⟨by simp [start], fun after same => by cases same⟩

-- 255 turns are enough for 257 bytes
theorem ploopLoop_agrees (two : 2 ≤ least) (short : d.length ≤ 257) (more : Nat → Bool)
    (goesOn : ∀ off ≤ d.length, more off = true ↔ off ≠ d.length)
    (start : p.bytesOff ≤ d.length) :
    Agrees (ploopLoop (sealedInput d) p name read more value)
      (Tiled extent (d.drop p.cursor.offset))
      (p.cursor.take name 0 (8 * (d.length - p.cursor.offset))) := by
  rw [ploopLoop, cursor_offset p below]
  have ends := sized.readWhile_tiled proper (sealed_shows d) more goesOn 255 p.bytesOff start
    (by omega) []
  apply agrees_map
  · rw [← Option.isSome_map (f := Prod.snd), Option.isSome_iff_exists]
    simp only [ends, exists_eq_right]
  · rintro ⟨list, off⟩ ran
    have last := ((ends off).mp (by rw [ran]; rfl)).2
    rw [last, ← number list]
    exact cursor_end p name (value list) d.length start

end Loops

include below in
theorem callbackOnce_agrees (callback : Callback) (name : String) :
    Agrees (callbackOnce (sealedInput d) p name callback)
      ((callback.extent (d.drop p.cursor.offset)).isSome = true)
      (p.cursor.take name 0 (8 * (callback.extent (d.drop p.cursor.offset)).getD 0)) := by
  have size := callback.sized _ _ ((sealed_shows d).drop p.bytesOff)
  rw [callbackOnce, cursor_offset p below, ← size]
  apply agrees_map
  · rw [Option.isSome_map]
  · rintro ⟨record, bytes⟩ ran
    rw [ran]
    exact cursor_skip p name (.records [record]) bytes

theorem agrees_absurd (result : Option Parsing) (inside : Prop) (next : Cursor)
    (gone : result = none) (outside : ¬inside) : Agrees result inside next := by
  rw [gone]
  exact ⟨by simp [outside], fun after same => by cases same⟩

include below in
theorem Member.parse_agrees (long : 2 ≤ d.length) (short : d.length ≤ 257) (member : Member)
    (regular : member.Regular p.bitsOff = true) :
    Agrees (member.parse (sealedInput d) p) (member.Inside d p.cursor) (member.next d p.cursor) := by
  have place := cursor_offset p below
  have number := cursor_field p
  cases member with
  | m type name bits =>
    have holds : 1 ≤ bits ∧ p.bitsOff + bits ≤ 8 * type.size := by
      simpa [Member.Regular] using regular
    have inside := readBitField_inside d p below type bits holds
    apply agrees_map _ _ _ _ inside
    intro value ran
    have fits := inside.mp (by rw [ran]; rfl)
    have position : p.cursor.position = 8 * p.bytesOff + p.bitsOff := rfl
    have small : type.size ≤ 8 := by cases type <;> decide
    have read := readBitField_known type d (List.replicate 7 none) p.bytesOff bits p.bitsOff
      (by omega) (by simp only [List.length_append, ofBytes_length, List.length_replicate]; omega)
      holds.2
    rw [sealedInput, read] at ran
    rw [← Option.some.inj ran]
    exact cursor_skipBits p name _ bits
  | m1 type name =>
    rw [Member.Inside, Member.next, place]
    apply agrees_optional
    intro _
    apply agrees_map _ _ _ _ (IntType.read_isSome (sealed_shows d) type p.bytesOff)
    intro value ran
    have inside := (IntType.read_isSome (sealed_shows d) type p.bytesOff).mp (by rw [ran]; rfl)
    rw [IntType.read_inside (sealed_shows d) type p.bytesOff inside] at ran
    rw [← Option.some.inj ran]
    exact cursor_skip p name _ type.size
  | m1Uint24 name =>
    rw [Member.Inside, Member.next, place]
    apply agrees_optional
    intro _
    apply agrees_map _ _ _ _ (readBytes_some d p.bytesOff 3 (by decide))
    intro bytes ran
    have length := readBytes_length _ _ _ _ ran
    match bytes, length with
    | [_, _, _], _ => exact cursor_skip p name _ 3
  | mplast type name =>
    have positive : 0 < type.size := by simpa [Member.Regular] using regular
    have agrees := plastLoop_agrees d p below (readElement_sized type)
      (fixed_proper type.size positive) name .elements (fun _ => rfl) long
    rw [tiled_fixed type.size positive, List.length_drop] at agrees
    exact agrees
  | mplastCustomSub callback name =>
    have other : callback ≠ .extendEventLinkageInfo := by simpa [Member.Regular] using regular
    rcases callback.proper other with ⟨least, -, proper⟩
    exact plastLoop_agrees d p below callback.sized proper name .records (fun _ => rfl) long
  | mif type name cond val =>
    have positive : 0 < type.size := by simpa [Member.Regular] using regular
    rw [Member.Inside, Member.next, number, place]
    apply agrees_optional
    intro _
    apply agrees_map _ _ _ _ (readBytes_some d p.bytesOff type.size positive)
    intro bytes ran
    rw [readBytes_slice d p.bytesOff type.size bytes ran positive]
    exact cursor_skip p name _ type.size
  | mifCustom callback name cond val =>
    rw [Member.Inside, Member.next, number]
    exact agrees_optional _ _ _ _ _ fun _ => callbackOnce_agrees d p below callback name
  | mrangelvCustom callback name cond floor ceiling =>
    rw [Member.Inside, Member.next, number]
    exact agrees_optional _ _ _ _ _ fun _ => callbackOnce_agrees d p below callback name
  | mlv type length name divisor =>
    have size := (readElement_sized type).readTimes (p.scalar length / divisor) _ _
      ((sealed_shows d).drop p.bytesOff)
    rw [times_fixed, List.length_drop] at size
    rw [Member.Inside, Member.next, number, place]
    apply agrees_map
    · rw [← Option.isSome_map (f := Prod.snd), size]
      split <;> simp_all
    · rintro ⟨list, bytes⟩ ran
      rw [ran] at size
      split at size
      · rw [Option.map_some, Option.some.injEq] at size
        dsimp only at size ⊢
        rw [← size]
        exact cursor_skip p name (.elements list) bytes
      · cases size
  | mploop name =>
    rw [Member.Inside]
    by_cases start : p.bytesOff ≤ d.length
    · have agrees := ploopLoop_agrees d p below readLoopElement_sized (counted_proper 1) name
        .elements (fun _ => rfl) (by decide) short (fun off => decide (off ≠ d.length))
        (fun off _ => by simp) start
      refine ⟨agrees.isSome.trans ?_, agrees.cursor⟩
      rw [place]
      simp [start]
    · apply agrees_absurd
      · have gone := readLoopElement_sized.readWhile_beyond (counted_proper 1) (sealed_shows d)
          (fun off => decide (off ≠ d.length)) 255 p.bytesOff (by omega) (by simp; omega) []
        rw [Member.parse, ploopLoop]
        exact congrArg (Option.map _) gone
      · rw [place]
        exact fun holds => start holds.1
  | mploopCustom callback name =>
    have other : callback ≠ .extendEventLinkageInfo := by simpa [Member.Regular] using regular
    rcases callback.proper other with ⟨least, two, proper⟩
    by_cases start : p.bytesOff ≤ d.length
    · exact ploopLoop_agrees d p below callback.sized proper name .records (fun _ => rfl) two short
        (fun off => decide (off < d.length)) (fun off inside => by simp; omega) start
    · have nothing : d.drop p.cursor.offset = [] := List.drop_eq_nil_of_le (by rw [place]; omega)
      have past : ¬p.bytesOff < (sealedInput d).len := fun again => start again.le
      have stops := readWhile_stops callback.parse
        (fun off => decide (off < (sealedInput d).len)) (sealedInput d).buf 255 p.bytesOff []
        (decide_eq_false past)
      rw [Member.parse, ploopLoop, stops, Member.Inside, nothing]
      refine ⟨by simp [tiled_nil], fun after same => ?_⟩
      rw [← Option.some.inj same, Member.next, place,
        Nat.sub_eq_zero_of_le (by omega : d.length ≤ p.bytesOff)]
      have moved := cursor_end p name (.records []) p.bytesOff (le_refl _)
      rwa [Nat.sub_self] at moved

end Steps

theorem parseMembers_inside (d : List UInt8) (long : 2 ≤ d.length) (short : d.length ≤ 257)
    (list : List Member) (p : Parsing) (below : p.bitsOff < 8)
    (regular : Regular p.bitsOff list = true) :
    (parseMembers (sealedInput d) list p).isSome = true ↔ Inside d list p.cursor := by
  induction list generalizing p with
  | nil => exact ⟨fun _ => trivial, fun _ => rfl⟩
  | cons member list ih =>
    rw [Regular, Bool.and_eq_true] at regular
    have agrees := member.parse_agrees d p below long short regular.1
    rw [parseMembers, Inside]
    cases ran : member.parse (sealedInput d) p with
    | none =>
      have outside := agrees.isSome
      rw [ran, Option.isSome_none, Bool.false_eq_true, false_iff] at outside
      simp [outside]
    | some after =>
      have inside := agrees.isSome.mp (by rw [ran]; rfl)
      have offset := member.parse_bitsOff (sealedInput d) p after below ran
      rw [Option.bind_some, ih after (by omega) (by rw [offset]; exact regular.2),
        agrees.cursor after ran]
      simp [inside]

-- a parse function up to its closing assert
def Entry.ends (entry : Entry) (buf : Block) (len : Nat) : Bool :=
  match entry with
  | .reserved => (parseReservedDescriptor buf).isSome
  | .members val list => (runMembers val list buf len).isSome

/-- The parser of the tag ends with the bytes of its descriptor, of the seven behind it those that
a bit field fetches and does not use, and the object that was allocated for it. -/
def StaysInside (tag : UInt8) (payload : List UInt8) : Prop :=
  (initDescriptorParsers tag).ends (sealedInput (encodeDescriptor tag payload)).buf
    (payload.length + 2) = true

instance (tag : UInt8) (payload : List UInt8) : Decidable (StaysInside tag payload) :=
  inferInstanceAs (Decidable (_ = true))

/-- Every member of the descriptor lies in it, and a reserved one has room for its payload. -/
def FitsLayout (tag : UInt8) (payload : List UInt8) : Prop :=
  match membersOf tag with
  | none => payload.length ≤ reservedSize
  | some list => Inside (encodeDescriptor tag payload) list ⟨16, []⟩

theorem parseReserved_inside (tag : UInt8) (payload : List UInt8) (short : payload.length ≤ 255) :
    (parseReservedDescriptor (sealedInput (encodeDescriptor tag payload)).buf).isSome = true ↔
      payload.length ≤ reservedSize := by
  have size : (UInt8.ofNat payload.length).toNat = payload.length := by
    rw [UInt8.toNat_ofNat', Nat.mod_eq_of_lt (by omega)]
  have shows := sealed_shows (encodeDescriptor tag payload)
  have first : read8 (sealedInput (encodeDescriptor tag payload)).buf 0 = some tag := shows 0
  have second : read8 (sealedInput (encodeDescriptor tag payload)).buf 1 =
      some (UInt8.ofNat payload.length) := shows 1
  have copied := shows.readBytes_inside 2 payload.length (by simp [encodeDescriptor]; omega)
  rw [parseReservedDescriptor, first, second]
  simp only [Option.bind_eq_bind, Option.bind_some, size, copied]
  split <;> simp_all

theorem staysInside_iff (tag : UInt8) (payload : List UInt8) (short : payload.length ≤ 255) :
    StaysInside tag payload ↔ FitsLayout tag payload := by
  rw [StaysInside, FitsLayout]
  cases installed : membersOf tag with
  | none =>
    rw [(membersOf_eq_none tag).mp installed]
    exact parseReserved_inside tag payload short
  | some list =>
    have size : (UInt8.ofNat payload.length).toNat = payload.length := by
      rw [UInt8.toNat_ofNat', Nat.mod_eq_of_lt (by omega)]
    have length : (encodeDescriptor tag payload).length = payload.length + 2 := by
      simp [encodeDescriptor]
    have shows := sealed_shows (encodeDescriptor tag payload)
    have first : read8 (sealedInput (encodeDescriptor tag payload)).buf 0 = some tag := shows 0
    have second : read8 (sealedInput (encodeDescriptor tag payload)).buf 1 =
        some (UInt8.ofNat payload.length) := shows 1
    have regular := foreachEnumDescriptor_regular (tag, list) (membersOf_mem tag list installed)
    have inside := parseMembers_inside (encodeDescriptor tag payload) (by omega) (by omega) list {}
      (by decide) regular
    have input : sealedInput (encodeDescriptor tag payload) =
        ⟨(sealedInput (encodeDescriptor tag payload)).buf, payload.length + 2, payload.length⟩ := by
      simp [sealedInput, length]
    rw [(membersOf_eq_some tag list).mp installed, Entry.ends, runMembers, first]
    simp only [Option.bind_eq_bind, Option.bind_some, if_true, second, size, Option.isSome_map]
    rw [← input, inside]
    rfl

-- a list of two-byte elements of odd length, a field longer than the payload, and a payload
-- longer than the object
theorem staysInside_fails :
    ¬StaysInside 0xFB [0x12, 0x34, 0x56] ∧ ¬StaysInside 0x05 [0x48, 0x44] ∧
      ¬StaysInside 0x3F (List.replicate 254 0) := by
  decide +kernel

theorem staysInside_iff_partialReception : StaysInside 0xFB [0x12, 0x34] := by
  refine (staysInside_iff 0xFB [0x12, 0x34] (by decide)).mpr ?_
  have installed : membersOf 0xFB = some partialReceptionMember := rfl
  rw [FitsLayout, installed]
  exact ⟨⟨by decide, by decide⟩, trivial⟩

end TsAnalyze.Descriptors
