import TsAnalyze.Descriptors.Inside

set_option autoImplicit false

namespace TsAnalyze.Descriptors

open Memory Tables

-- how a little-endian host reads the memory of a number
def littleEndian : List UInt8 → Nat
  | [] => 0
  | byte :: bytes => byte.toNat + 256 * littleEndian bytes

-- The fields of a copied element take the bits of its memory one after the other, the least
-- significant ones first.
def hostFields : CType → Nat → List (String × Nat)
  | [], _ => []
  | (name, bits) :: rest, memory => (name, memory % 2 ^ bits) :: hostFields rest (memory / 2 ^ bits)

inductive Listed
  | serviceList
  | teletext
  | subtitling
  | caIdentifier

namespace Listed

def tag : Listed → UInt8
  | .serviceList => 0x41
  | .teletext => 0x56
  | .subtitling => 0x59
  | .caIdentifier => 0x53

def type : Listed → CType
  | .serviceList => .serviceInfo
  | .teletext => .teletextNode
  | .subtitling => .subtitlingNode
  | .caIdentifier => .uint16

def name : Listed → String
  | .serviceList => "services"
  | .teletext => "teletext_infos"
  | .subtitling => "subtitle_list"
  | .caIdentifier => "CA_system_id"

-- the fields of an element as __m and __m1 members
def readers : Listed → List Member
  | .serviceList => [.m1 .uint16 "service_id", .m1 .uint8 "service_type"]
  | .teletext =>
      [.m .uint32 "ISO_639_language_code" 24, .m .uint8 "teletext_type" 5,
       .m .uint8 "teletext_magazine_number" 3, .m1 .uint8 "teletext_page_number"]
  | .subtitling =>
      [.m .uint32 "ISO_639_language_code" 24, .m1 .uint8 "subtitling_type",
       .m1 .uint16 "composition_page_id", .m1 .uint16 "ancillary_page_id"]
  | .caIdentifier => [.m1 .uint16 ""]

/-- The encoding of an element: every byte string of its size is one. -/
structure Element (listed : Listed) where
  bytes : List UInt8
  sized : bytes.length = listed.type.size

def encode {listed : Listed} (entries : List listed.Element) : List UInt8 :=
  entries.flatMap Element.bytes

variable (listed : Listed)

def copiedValues (memory : List UInt8) : Option (List (String × Nat)) :=
  some (hostFields listed.type (littleEndian memory))

def readValues (bytes : List UInt8) : Option (List (String × Nat)) :=
  (parseMembers ⟨ofBytes bytes, bytes.length, 0⟩ listed.readers ⟨0, 0, []⟩).map fun p =>
    p.values.map fun entry => (entry.1, entry.2.number)

/-- The bytes of every field longer than one byte read the same in both directions, and so do the
bits of the byte that teletext_type and teletext_magazine_number share. -/
def Symmetric : Listed → List UInt8 → Prop
  | .serviceList, [id1, id2, _] => id1 = id2
  | .teletext, [code1, _, code3, shared, _] => code1 = code3 ∧ (shared = 0x00 ∨ shared = 0xFF)
  | .subtitling, [code1, _, code3, _, page1, page2, ancillary1, ancillary2] =>
      code1 = code3 ∧ page1 = page2 ∧ ancillary1 = ancillary2
  | .caIdentifier, [id1, id2] => id1 = id2
  | _, _ => False

end Listed

section Elements

theorem readWhile_elements (type : CType) (entries : List (List UInt8))
    (sizes : ∀ entry ∈ entries, entry.length = type.size) (positive : 0 < type.size)
    (memory behind : Block) (off last turns : Nat)
    (here : memory.drop off = ofBytes entries.flatten ++ behind)
    (ends : last = off + entries.flatten.length) (enough : entries.length ≤ turns)
    (before : List (List UInt8)) :
    readWhile (readElement type) (fun offset => decide (offset ≠ last)) memory turns off before =
      some (before ++ entries, last) := by
  induction entries generalizing off turns before with
  | nil =>
    have stops : decide (off ≠ last) = false := by simpa using ends.symm
    rw [readWhile_stops _ _ _ _ _ _ stops, ends]
    simp
  | cons first entries ih =>
    have size := sizes first List.mem_cons_self
    rw [List.flatten_cons, List.length_append] at ends
    cases turns with
    | zero => simp at enough
    | succ turns =>
      have more : decide (off ≠ last) = true := by
        rw [decide_eq_true_iff]
        omega
      have next : memory.drop (off + first.length) = ofBytes entries.flatten ++ behind := by
        rw [← List.drop_drop, here, List.flatten_cons, ofBytes_append, List.append_assoc,
          List.drop_left' (ofBytes_length first)]
      have element : readElement type (memory.drop off) = some (first, first.length) := by
        rw [readElement, here, List.flatten_cons, ofBytes_append, List.append_assoc, ← size,
          readBytes_whole]
        rfl
      have later := ih (fun entry inside => sizes entry (List.mem_cons_of_mem first inside))
        (off + first.length) turns next (by omega) (by simpa using enough) (before ++ [first])
      rw [readWhile, if_pos more, element]
      simpa using later

end Elements

section Values

theorem toNat_eq (left right : UInt8) : left.toNat = right.toNat ↔ left = right :=
  UInt8.toNat_inj

-- two bytes, most and least significant first
theorem same_two (first second : UInt8) :
    first.toNat + 256 * second.toNat = first.toNat * 256 + second.toNat ↔ first = second := by
  rw [← toNat_eq]
  omega

theorem same_three (first second third : UInt8) :
    first.toNat + 256 * (second.toNat + 256 * third.toNat) =
      (first.toNat * 256 + second.toNat) * 256 + third.toNat ↔ first = third := by
  rw [← toNat_eq]
  omega

-- five and three bits, from the lower end and from the upper one
theorem same_shared (shared : UInt8) :
    (shared.toNat % 32 = shared.toNat / 8 ∧ shared.toNat / 32 = shared.toNat % 8) ↔
      shared = 0x00 ∨ shared = 0xFF := by
  revert shared
  apply Bits.byte_all
  decide +kernel

-- 24 bits of four bytes are the first three
theorem code_bits (code1 code2 code3 next : UInt8) :
    readBits 32 (Bits.bigEndian [code1, code2, code3, next]) 24 0 =
      (code1.toNat * 256 + code2.toNat) * 256 + code3.toNat := by
  have first := code1.toNat_lt
  have second := code2.toNat_lt
  have third := code3.toNat_lt
  have last := next.toNat_lt
  rw [readBits_low]
  simp only [Bits.bigEndian, List.foldl_cons, List.foldl_nil]
  omega

theorem serviceList_agrees (id1 id2 type : UInt8) :
    Listed.copiedValues .serviceList [id1, id2, type] =
      Listed.readValues .serviceList [id1, id2, type] ↔ id1 = id2 := by
  have read : Listed.readValues .serviceList [id1, id2, type] =
      some [("service_id", id1.toNat <<< 8 ||| id2.toNat), ("service_type", type.toNat)] := rfl
  have copied : Listed.copiedValues .serviceList [id1, id2, type] =
      some [("service_id", id1.toNat + 256 * id2.toNat), ("service_type", type.toNat)] := by
    have first := id1.toNat_lt
    have second := id2.toNat_lt
    have third := type.toNat_lt
    simp [Listed.copiedValues, Listed.type, CType.serviceInfo, hostFields, littleEndian]
    omega
  rw [read, copied, join_low _ _ 8 id2.toNat_lt, ← same_two]
  simp

theorem caIdentifier_agrees (id1 id2 : UInt8) :
    Listed.copiedValues .caIdentifier [id1, id2] = Listed.readValues .caIdentifier [id1, id2] ↔
      id1 = id2 := by
  have read : Listed.readValues .caIdentifier [id1, id2] =
      some [("", id1.toNat <<< 8 ||| id2.toNat)] := rfl
  have copied : Listed.copiedValues .caIdentifier [id1, id2] =
      some [("", id1.toNat + 256 * id2.toNat)] := by
    have first := id1.toNat_lt
    have second := id2.toNat_lt
    simp [Listed.copiedValues, Listed.type, CType.uint16, hostFields, littleEndian]
    omega
  rw [read, copied, join_low _ _ 8 id2.toNat_lt, ← same_two]
  simp

theorem subtitling_agrees (code1 code2 code3 type page1 page2 ancillary1 ancillary2 : UInt8) :
    Listed.copiedValues .subtitling
        [code1, code2, code3, type, page1, page2, ancillary1, ancillary2] =
      Listed.readValues .subtitling
        [code1, code2, code3, type, page1, page2, ancillary1, ancillary2] ↔
      code1 = code3 ∧ page1 = page2 ∧ ancillary1 = ancillary2 := by
  have read : Listed.readValues .subtitling
      [code1, code2, code3, type, page1, page2, ancillary1, ancillary2] =
        some [("ISO_639_language_code",
            readBits 32 (Bits.bigEndian [code1, code2, code3, type]) 24 0),
          ("subtitling_type", type.toNat),
          ("composition_page_id", page1.toNat <<< 8 ||| page2.toNat),
          ("ancillary_page_id", ancillary1.toNat <<< 8 ||| ancillary2.toNat)] := by
    simp [Listed.readValues, Listed.readers, parseMembers, Member.parse, readBitField, cellBytes,
      ofBytes, IntType.size, IntType.read, read8, read16, Parsing.set, Parsing.skip,
      Parsing.skipBits, Value.number]
  have copied : Listed.copiedValues .subtitling
      [code1, code2, code3, type, page1, page2, ancillary1, ancillary2] =
        some [("ISO_639_language_code",
            code1.toNat + 256 * (code2.toNat + 256 * code3.toNat)),
          ("subtitling_type", type.toNat),
          ("composition_page_id", page1.toNat + 256 * page2.toNat),
          ("ancillary_page_id", ancillary1.toNat + 256 * ancillary2.toNat)] := by
    have bounds := And.intro (And.intro code1.toNat_lt code2.toNat_lt)
      (And.intro code3.toNat_lt type.toNat_lt)
    have pages := And.intro (And.intro page1.toNat_lt page2.toNat_lt)
      (And.intro ancillary1.toNat_lt ancillary2.toNat_lt)
    simp [Listed.copiedValues, Listed.type, CType.subtitlingNode, hostFields, littleEndian]
    omega
  rw [read, copied, code_bits, join_low _ _ 8 page2.toNat_lt, join_low _ _ 8 ancillary2.toNat_lt,
    ← same_three code1 code2 code3, ← same_two page1 page2, ← same_two ancillary1 ancillary2]
  simp

theorem teletext_agrees (code1 code2 code3 shared page : UInt8) :
    Listed.copiedValues .teletext [code1, code2, code3, shared, page] =
      Listed.readValues .teletext [code1, code2, code3, shared, page] ↔
      code1 = code3 ∧ (shared = 0x00 ∨ shared = 0xFF) := by
  have bound := shared.toNat_lt
  have read : Listed.readValues .teletext [code1, code2, code3, shared, page] =
      some [("ISO_639_language_code",
          readBits 32 (Bits.bigEndian [code1, code2, code3, shared]) 24 0),
        ("teletext_type", readBits 8 (Bits.bigEndian [shared]) 5 0),
        ("teletext_magazine_number", readBits 8 (Bits.bigEndian [shared]) 3 5),
        ("teletext_page_number", page.toNat)] := by
    simp [Listed.readValues, Listed.readers, parseMembers, Member.parse, readBitField, cellBytes,
      ofBytes, IntType.size, IntType.read, read8, Parsing.set, Parsing.skip, Parsing.skipBits,
      Value.number]
  have copied : Listed.copiedValues .teletext [code1, code2, code3, shared, page] =
      some [("ISO_639_language_code", code1.toNat + 256 * (code2.toNat + 256 * code3.toNat)),
        ("teletext_type", shared.toNat % 32), ("teletext_magazine_number", shared.toNat / 32),
        ("teletext_page_number", page.toNat)] := by
    have bounds := And.intro (And.intro code1.toNat_lt code2.toNat_lt)
      (And.intro code3.toNat_lt page.toNat_lt)
    simp [Listed.copiedValues, Listed.type, CType.teletextNode, hostFields, littleEndian]
    omega
  have upper : readBits 8 (Bits.bigEndian [shared]) 5 0 = shared.toNat / 8 := by
    rw [readBits_low]
    simp only [Bits.bigEndian, List.foldl_cons, List.foldl_nil]
    omega
  have lower : readBits 8 (Bits.bigEndian [shared]) 3 5 = shared.toNat % 8 := by
    rw [readBits_low]
    simp only [Bits.bigEndian, List.foldl_cons, List.foldl_nil]
    omega
  rw [read, copied, code_bits, upper, lower, ← same_three code1 code2 code3, ← same_shared]
  simp

theorem Listed.agrees_iff (listed : Listed) (bytes : List UInt8)
    (size : bytes.length = listed.type.size) :
    listed.copiedValues bytes = listed.readValues bytes ↔ listed.Symmetric bytes := by
  cases listed with
  | serviceList =>
    match bytes, size with
    | [id1, id2, type], _ => exact serviceList_agrees id1 id2 type
  | teletext =>
    match bytes, size with
    | [code1, code2, code3, shared, page], _ => exact teletext_agrees code1 code2 code3 shared page
  | subtitling =>
    match bytes, size with
    | [code1, code2, code3, type, page1, page2, ancillary1, ancillary2], _ =>
      exact subtitling_agrees code1 code2 code3 type page1 page2 ancillary1 ancillary2
  | caIdentifier =>
    match bytes, size with
    | [id1, id2], _ => exact caIdentifier_agrees id1 id2

end Values

set_option maxRecDepth 8000 in
theorem membersOf_listed (listed : Listed) :
    membersOf listed.tag = some [.mplast listed.type listed.name] := by
  cases listed <;> rfl

theorem parse_listed (listed : Listed) (entries : List listed.Element)
    (short : (Listed.encode entries).length ≤ 255) (behind : Block) :
    desOps.parse listed.tag
        (ofBytes (encodeDescriptor listed.tag (Listed.encode entries)) ++ behind)
        ((Listed.encode entries).length + 2) =
      some (.members [(listed.name, .elements (entries.map Listed.Element.bytes))]) := by
  have size : (UInt8.ofNat (Listed.encode entries).length).toNat =
      (Listed.encode entries).length := by
    rw [UInt8.toNat_ofNat', Nat.mod_eq_of_lt (by omega)]
  have positive : 0 < listed.type.size := by cases listed <;> decide
  have whole : Listed.encode entries = (entries.map Listed.Element.bytes).flatten :=
    List.flatMap_def ..
  have count : entries.length ≤ (Listed.encode entries).length :=
    nodes_count Listed.Element.bytes entries fun entry _ => by rw [entry.sized]; exact positive
  have loop := readWhile_elements listed.type (entries.map Listed.Element.bytes)
    (by simp [Listed.Element.sized]) positive
    (ofBytes (encodeDescriptor listed.tag (Listed.encode entries)) ++ behind) behind 2
    ((Listed.encode entries).length + 2)
    ((ofBytes (encodeDescriptor listed.tag (Listed.encode entries)) ++ behind).length + 1)
    (by rw [← whole]; rfl) (by rw [← whole]; omega)
    (by simp [encodeDescriptor]; omega) []
  have parsed : parseMembers
      ⟨ofBytes (encodeDescriptor listed.tag (Listed.encode entries)) ++ behind,
        (Listed.encode entries).length + 2, (Listed.encode entries).length⟩
      [.mplast listed.type listed.name] {} =
        some ⟨0, (Listed.encode entries).length + 2,
          [(listed.name, .elements (entries.map Listed.Element.bytes))]⟩ := by
    rw [parseMembers, Member.parse, plastLoop, loop]
    rfl
  have first : read8 (ofBytes (encodeDescriptor listed.tag (Listed.encode entries)) ++ behind) 0 =
      some listed.tag := rfl
  have second : read8 (ofBytes (encodeDescriptor listed.tag (Listed.encode entries)) ++ behind) 1 =
      some (UInt8.ofNat (Listed.encode entries).length) := rfl
  have installed := (membersOf_eq_some _ _).mp (membersOf_listed listed)
  simp [desOps, installed, Entry.parse, parseMembersDescriptor, runMembers, first, second, size,
    parsed]

theorem elements_hostOrder_iff (listed : Listed) (entries : List listed.Element)
    (short : (Listed.encode entries).length ≤ 255) (behind : Block) :
    desOps.parse listed.tag
        (ofBytes (encodeDescriptor listed.tag (Listed.encode entries)) ++ behind)
        ((Listed.encode entries).length + 2) =
      some (.members [(listed.name, .elements (entries.map Listed.Element.bytes))]) ∧
    ((entries.map Listed.Element.bytes).map listed.copiedValues =
        entries.map (fun entry => listed.readValues entry.bytes) ↔
      ∀ entry ∈ entries, listed.Symmetric entry.bytes) := by
  refine ⟨parse_listed listed entries short behind, ?_⟩
  rw [List.map_map, List.map_inj_left]
  constructor
  · intro same entry inside
    exact (listed.agrees_iff entry.bytes entry.sized).mp (same entry inside)
  · intro symmetric entry inside
    exact (listed.agrees_iff entry.bytes entry.sized).mpr (symmetric entry inside)

-- service_id 0x0065
theorem elements_hostOrder_differ :
    desOps.parse 0x41 (ofBytes [0x41, 3, 0x00, 0x65, 0x01]) 5 =
      some (.members [("services", .elements [[0x00, 0x65, 0x01]])]) ∧
    Listed.copiedValues .serviceList [0x00, 0x65, 0x01] =
      some [("service_id", 0x6500), ("service_type", 1)] ∧
    Listed.readValues .serviceList [0x00, 0x65, 0x01] =
      some [("service_id", 0x0065), ("service_type", 1)] :=
  ⟨parse_listed .serviceList [⟨[0x00, 0x65, 0x01], rfl⟩] (by decide) [], by decide +kernel,
    by decide +kernel⟩

def twoSystems : List (Listed.Element .caIdentifier) :=
  [⟨[0x18, 0x18], rfl⟩, ⟨[0x05, 0x05], rfl⟩]

theorem elements_hostOrder_iff_symmetric :
    desOps.parse 0x53 (ofBytes [0x53, 4, 0x18, 0x18, 0x05, 0x05]) 6 =
      some (.members [("CA_system_id", .elements [[0x18, 0x18], [0x05, 0x05]])]) ∧
    ([[0x18, 0x18], [0x05, 0x05]].map (Listed.copiedValues .caIdentifier) =
        [[0x18, 0x18], [0x05, 0x05]].map (Listed.readValues .caIdentifier) ↔
      ∀ entry ∈ twoSystems, Listed.Symmetric .caIdentifier entry.bytes) :=
  elements_hostOrder_iff .caIdentifier twoSystems (by decide) []

end TsAnalyze.Descriptors
