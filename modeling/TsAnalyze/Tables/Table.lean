import TsAnalyze.Tables.LongSection

set_option autoImplicit false

namespace TsAnalyze.Tables

open Memory

-- the calls that open PIDs for other parsers
inductive Registration
  | pmt (pid : Nat)
  | section (pid : Nat)
  | scte (pid : Nat)
  | pes (pid : Nat) (streamType : UInt8)
  | pesData (pid : Nat) (streamType : UInt8) (tag : UInt8)

structure Table (C : Type) where
  header : TableHeader := {}
  content : C

structure Decoded (C : Type) where
  content : C
  ret : Int := 0
  registered : List Registration := []

-- what a parser does with the private data after a header has returned 0
abbrev Decoder (C : Type) := TableHeader → Block → C → Allocating (Decoded C)

structure Handled (T : Type) where
  heap : Heap
  table : T
  ret : Int
  registered : List Registration := []

variable {C : Type}

-- Bytes behind a null or dangling pointer cannot be read.
def privateData (parsed : Parsed) : Block :=
  (parsed.heap.load parsed.header.privateDataByte).getD []

def parseTable (decoder : Decoder C) (heap : Heap) (pbuf : Block) (bufSize : Nat)
    (table : Table C) : Option (Handled (Table C)) :=
  (parseSectionHeader heap pbuf bufSize table.header).bind fun parsed =>
    if parsed.ret ≠ 0 then
      some { heap := parsed.heap, table := { table with header := parsed.header },
             ret := parsed.ret }
    else
      (decoder parsed.header (privateData parsed) table.content parsed.heap).map fun result =>
        { heap := result.2, table := ⟨parsed.header, result.1.content⟩, ret := result.1.ret,
          registered := result.1.registered }

-- `while (section_len > 0)`: a node is read, with its size and the bytes that pdata moves on by
def nodeLoop {E : Type} (wrap : Int → Int) (readNode : Block → Allocating (E × Nat × Nat)) :
    Nat → Block → Int → List E → Allocating (List E × Int)
  | 0, _, sectionLen, nodes => if 0 < sectionLen then failure else pure (nodes, 0)
  | turns + 1, pdata, sectionLen, nodes =>
      if 0 < sectionLen then do
        if ← reserve then
          let (node, size, advance) ← readNode pdata
          nodeLoop wrap readNode turns (pdata.drop advance) (wrap (sectionLen - size))
            (nodes ++ [node])
        else pure (nodes, enomem)
      else pure (nodes, 0)

theorem nodeLoop_plain {E : Type} (wrap : Int → Int)
    (readNode : Block → Allocating (E × Nat × Nat)) (plain : ∀ pdata, Plain (readNode pdata))
    (turns : Nat) (pdata : Block) (sectionLen : Int) (nodes : List E) :
    Plain (nodeLoop wrap readNode turns pdata sectionLen nodes) := by
  induction turns generalizing pdata sectionLen nodes with
  | zero => exact plain_ite _ _ _ plain_failure (plain_pure _)
  | succ turns ih =>
    rw [nodeLoop]
    apply plain_ite
    · apply plain_bind _ _ plain_reserve
      intro given
      apply plain_ite
      · apply plain_bind _ _ (plain pdata)
        intro read
        exact ih _ _ _
      · exact plain_pure _
    · exact plain_pure _

/-- What a section says: the decoder on a cleared table and a heap that never runs out. -/
def decoded (decoder : Decoder C) (initial : C) (sec : LongSection) : Option C :=
  (decoder (TableHeader.describe {} sec.fields sec.long) sec.stored initial Heap.empty).map
    fun result => result.1.content

structure Decoder.Lawful (decoder : Decoder C) : Prop where
  plain : ∀ header pdata content, Plain (decoder header pdata content)
  described : ∀ header other pdata content, header.tableId = other.tableId →
    header.tableIdExt = other.tableIdExt → header.sectionLength = other.sectionLength →
    decoder header pdata content = decoder other pdata content

section Section

variable {decoder : Decoder C} (lawful : decoder.Lawful) (heap : Heap) (table : Table C)
variable (sec : LongSection)

include lawful

theorem decoder_completed (other : Heap) (header : TableHeader) (content : C)
    (available : other.Available) :
    (decoder (completed heap header sec) sec.stored content other).map
        (fun result => result.1.content) = decoded decoder content sec := by
  have same := (lawful.plain (completed heap header sec) sec.stored content).agrees other
    Heap.empty available Heap.empty_available
  have header := lawful.described (completed heap header sec)
    (TableHeader.describe {} sec.fields sec.long) sec.stored content rfl rfl rfl
  have contents := congrArg (Option.map fun result : Decoded C => result.content) same
  rw [Option.map_map, Option.map_map, header] at contents
  rw [header]
  exact contents

theorem parseTable_succeeds (pbuf : Block) (bufSize : Nat) (handled : Handled (Table C))
    (result : parseTable decoder heap pbuf bufSize table = some handled) :
    handled.heap.succeeds = heap.succeeds := by
  rcases Option.bind_eq_some_iff.mp result with ⟨parsed, header, later⟩
  have supply := parseSectionHeader_succeeds heap pbuf bufSize table.header parsed header
  split at later
  · rw [← Option.some.inj later]
    exact supply
  · rcases Option.map_eq_some_iff.mp later with ⟨decoding, found, rfl⟩
    rw [← supply]
    exact (lawful.plain _ _ _).supply parsed.heap decoding found

theorem parseTable_returns (single : sec.Single) (available : heap.Available)
    (unseen : bitmap64Get table.header.sectionBitmap 0 = false) (handled : Handled (Table C))
    (result : parseTable decoder heap (ofBytes sec.bytes) sec.bytes.length table = some handled) :
    handled.table.header = completed heap table.header sec ∧
      decoded decoder table.content sec = some handled.table.content := by
  rcases Option.bind_eq_some_iff.mp result with ⟨parsed, header, later⟩
  have done := parseSectionHeader_returns heap table.header sec single available unseen parsed
    header
  have data : privateData parsed = sec.stored := by rw [privateData, done.data, Option.getD_some]
  rw [done.ret, if_neg (not_not_intro rfl), data, done.table] at later
  rcases Option.map_eq_some_iff.mp later with ⟨decoding, found, rfl⟩
  constructor
  · rfl
  · rw [← decoder_completed lawful heap sec parsed.heap table.header table.content
      (available.of_succeeds done.supply), found]
    rfl

theorem parseTable_first (single : sec.Single) (available : heap.Available)
    (unseen : bitmap64Get table.header.sectionBitmap 0 = false)
    (cleared : table.header.privateDataByte = none) (content : C)
    (decodes : decoded decoder table.content sec = some content) :
    ∃ handled, parseTable decoder heap (ofBytes sec.bytes) sec.bytes.length table = some handled ∧
      handled.table = ⟨completed heap table.header sec, content⟩ := by
  rcases parseSectionHeader_first heap table.header sec single available unseen cleared with
    ⟨parsed, header, done⟩
  have data : privateData parsed = sec.stored := by rw [privateData, done.data, Option.getD_some]
  rw [← decoder_completed lawful heap sec parsed.heap table.header table.content
    (available.of_succeeds done.supply)] at decodes
  rcases Option.map_eq_some_iff.mp decodes with ⟨decoding, found, rfl⟩
  have handled : parseTable decoder heap (ofBytes sec.bytes) sec.bytes.length table =
      some { heap := decoding.2, table := ⟨completed heap table.header sec, decoding.1.content⟩,
             ret := decoding.1.ret, registered := decoding.1.registered } := by
    rw [parseTable, header, Option.bind_some, done.ret, if_neg (not_not_intro rfl), data,
      done.table, found]
    rfl
  exact ⟨_, handled, rfl⟩

omit lawful in
theorem parseTable_header (decoder : Decoder C) (pbuf : Block) (bufSize : Nat)
    (handled : Handled (Table C))
    (result : parseTable decoder heap pbuf bufSize table = some handled) :
    ∃ parsed, parseSectionHeader heap pbuf bufSize table.header = some parsed ∧
      handled.table.header = parsed.header := by
  rcases Option.bind_eq_some_iff.mp result with ⟨parsed, header, later⟩
  refine ⟨parsed, header, ?_⟩
  split at later
  · rw [← Option.some.inj later]
  · rcases Option.map_eq_some_iff.mp later with ⟨decoding, -, rfl⟩
    rfl

omit lawful in
theorem parseTable_duplicate (decoder : Decoder C)
    (seen : bitmap64Get table.header.sectionBitmap sec.long.curSec = true) :
    parseTable decoder heap (ofBytes sec.bytes) sec.bytes.length table =
      some { heap := heap
             table := { table with header := table.header.describe sec.fields sec.long }
             ret := duplicateData } := by
  rw [parseTable, parseSectionHeader_duplicate heap table.header sec seen, Option.bind_some,
    if_pos duplicateData_ne_zero]

end Section

end TsAnalyze.Tables
