import TsAnalyze.Shared.Heap
import TsAnalyze.Tables.Bitmap

set_option autoImplicit false

namespace TsAnalyze.Tables

open Memory

def nullPtr : Int := -1

def invalidSecLen : Int := -3

def duplicateData : Int := -4

def enomem : Int := 12

-- TS_READ8_BITS, TS_READ16_BITS and TS_READ64_BITS: `bitlen` bits behind the first `off` of `width`
def readBits (width value bitlen off : Nat) : Nat :=
  (value >>> (width - off - bitlen)) &&& ((1 <<< bitlen) - 1)

theorem readBits_low (width value bitlen off : Nat) :
    readBits width value bitlen off = value / 2 ^ (width - off - bitlen) % 2 ^ bitlen := by
  rw [readBits, Nat.shiftRight_eq_div_pow, Nat.one_shiftLeft]
  exact land_low_bits _ _

structure SectionNode where
  len : Nat := 0
  ptr : Pointer := none

structure TableHeader where
  tableId : Nat := 0
  sectionSyntaxIndicator : Nat := 0
  privateBit : Nat := 0
  sectionLength : Nat := 0
  tableIdExt : Nat := 0
  versionNumber : Nat := 0
  currentNextIndicator : Nat := 0
  lastSectionNumber : Nat := 0
  sectionBitmap : Bitmap := Bitmap.empty
  sections : UInt8 → SectionNode := fun _ => {}
  privateDataByte : Pointer := none

-- memcpy of no bytes may be given any pointer
def copyNode (heap : Heap) (ret : Pointer) (len : Nat) (node : SectionNode) : Option Heap :=
  if node.len = 0 then some heap
  else (heap.load node.ptr).bind fun source => heap.memcpy ret len source node.len

-- the loop of concat_sections from node `i` on, with `len` bytes behind `ret` written
def concatLoop (nodes : UInt8 → SectionNode) (totalLength : Nat) (ret : Pointer) :
    Nat → Nat → Nat → Heap → Option (Heap × Nat)
  | 0, _, len, heap => some (heap, len)
  | rest + 1, i, len, heap =>
      if len < totalLength then
        (copyNode heap ret len (nodes (UInt8.ofNat i))).bind fun heap =>
          concatLoop nodes totalLength ret rest (i + 1) (len + (nodes (UInt8.ofNat i)).len) heap
      else some (heap, len)

def freeNode (heap : Heap) (node : SectionNode) : Option Heap :=
  if node.len ≠ 0 then heap.free node.ptr else some heap

-- the loop of clear_sections from node `i` on; the pointers keep their values
def clearSections : Nat → Nat → Heap → (UInt8 → SectionNode) → Option (Heap × (UInt8 → SectionNode))
  | 0, _, heap, nodes => some (heap, nodes)
  | rest + 1, i, heap, nodes =>
      (freeNode heap (nodes (UInt8.ofNat i))).bind fun heap =>
        clearSections rest (i + 1) heap
          (Function.update nodes (UInt8.ofNat i) { nodes (UInt8.ofNat i) with len := 0 })

def concatSections (heap : Heap) (nodes : UInt8 → SectionNode) (totalLength num : Nat) :
    Option (Heap × (UInt8 → SectionNode) × Pointer) :=
  match heap.calloc totalLength with
  | (heap, none) => some (heap, nodes, none)
  | (heap, some ret) =>
      (concatLoop nodes totalLength (some ret) num 0 0 heap).bind fun filled =>
        if filled.2 ≠ totalLength then
          (filled.1.free (some ret)).map fun heap => (heap, nodes, none)
        else
          (clearSections num 0 filled.1 nodes).map fun cleared => (cleared.1, cleared.2, some ret)

-- the fields in front of the first byte that a table's parser looks at
structure SectionFields where
  tableId : Nat
  sectionSyntaxIndicator : Nat
  privateBit : Nat
  sectionLength : Nat
deriving DecidableEq

def readFields (pbuf : Block) : Option SectionFields := do
  let tableId ← read8 pbuf 0
  let flags ← read8 pbuf 1
  let word ← read16 pbuf 1
  return {
    tableId := tableId.toNat
    sectionSyntaxIndicator := readBits 8 flags.toNat 1 0
    privateBit := readBits 8 flags.toNat 1 1
    sectionLength := word &&& 0x0FFF }

structure LongFields where
  tableIdExt : Nat
  versionNumber : Nat
  currentNextIndicator : Nat
  curSec : UInt8
  lastSec : UInt8
deriving DecidableEq

def readLongFields (pbuf : Block) : Option LongFields := do
  let tableIdExt ← read16 pbuf 3
  let version ← read8 pbuf 5
  let curSec ← read8 pbuf 6
  let lastSec ← read8 pbuf 7
  return {
    tableIdExt := tableIdExt
    versionNumber := readBits 8 version.toNat 5 1
    currentNextIndicator := readBits 8 version.toNat 1 7
    curSec := curSec
    lastSec := lastSec }

/-- What `parse_section_header` leaves behind: the heap, the header and the return value. -/
structure Parsed where
  heap : Heap
  header : TableHeader
  ret : Int

-- `section_syntax_indicator == 0`
def parseShortSection (heap : Heap) (pbuf : Block) (bufSize : Nat) (ptable : TableHeader)
    (fields : SectionFields) : Option Parsed := do
  let node := ptable.sections 0
  let heap ← heap.free node.ptr
  let (heap, ptr) := heap.malloc (bufSize - 3)
  let ptable := { ptable with
    sectionSyntaxIndicator := 0
    tableId := fields.tableId
    privateBit := fields.privateBit
    sectionLength := fields.sectionLength
    sections := Function.update ptable.sections 0 ⟨bufSize - 3, ptr⟩ }
  if ptr = none then return ⟨heap, ptable, enomem⟩
  else
    let heap ← heap.memcpy ptr 0 (pbuf.drop 3) (bufSize - 3 : Int)
    return ⟨heap, { ptable with privateDataByte := ptr }, 0⟩

-- a section whose number has not been seen: store it, and put the table together when it is full
def storeSection (heap : Heap) (pbuf : Block) (bufSize : Nat) (ptable : TableHeader)
    (curSec lastSec : UInt8) : Option Parsed := do
  let (heap, ptr) := heap.malloc (bufSize - 3)
  let ptable := { ptable with
    sectionBitmap := bitmap64Set ptable.sectionBitmap curSec
    sections := Function.update ptable.sections curSec ⟨bufSize - 3, ptr⟩ }
  if ptr = none then return ⟨heap, ptable, enomem⟩
  else
    let heap ← heap.memcpy ptr 0 (pbuf.drop 8) (bufSize - 8 : Int)
    let full ← bitmap64Full ptable.sectionBitmap lastSec.toNat
    if full ≠ 0 then return ⟨heap, ptable, 1⟩
    else
      let heap ← heap.free ptable.privateDataByte
      let (heap, nodes, data) ← concatSections heap ptable.sections ptable.sectionLength
        (ptable.lastSectionNumber + 1)
      return ⟨heap, { ptable with sections := nodes, privateDataByte := data }, 0⟩

-- the fields are stored before anything is checked against them
def TableHeader.describe (ptable : TableHeader) (fields : SectionFields) (long : LongFields) :
    TableHeader :=
  { ptable with
    versionNumber := long.versionNumber
    lastSectionNumber := long.lastSec.toNat
    tableId := fields.tableId
    privateBit := fields.privateBit
    sectionSyntaxIndicator := fields.sectionSyntaxIndicator
    sectionLength := fields.sectionLength
    tableIdExt := long.tableIdExt
    currentNextIndicator := long.currentNextIndicator }

def parseLongSection (heap : Heap) (pbuf : Block) (bufSize : Nat) (ptable : TableHeader)
    (fields : SectionFields) : Option Parsed := do
  let long ← readLongFields pbuf
  let ptable := ptable.describe fields long
  if bitmap64Get ptable.sectionBitmap long.curSec then return ⟨heap, ptable, duplicateData⟩
  else storeSection heap pbuf bufSize ptable long.curSec long.lastSec

def parseSectionHeader (heap : Heap) (pbuf : Block) (bufSize : Nat) (ptable : TableHeader) :
    Option Parsed := do
  let fields ← readFields pbuf
  if fields.sectionSyntaxIndicator = 1 ∧ fields.sectionLength > 0x3FD then
    return ⟨heap, ptable, invalidSecLen⟩
  else if fields.sectionSyntaxIndicator = 0 ∧ fields.sectionLength > 0xFFD then
    return ⟨heap, ptable, invalidSecLen⟩
  else if fields.sectionSyntaxIndicator = 0 then parseShortSection heap pbuf bufSize ptable fields
  else parseLongSection heap pbuf bufSize ptable fields

theorem duplicateData_ne_zero : duplicateData ≠ 0 := by decide

theorem enomem_ne_zero : enomem ≠ 0 := by decide

-- the header with the node of a section that has just been stored
def TableHeader.withSection (ptable : TableHeader) (curSec : UInt8) (node : SectionNode) :
    TableHeader :=
  { ptable with
    sectionBitmap := bitmap64Set ptable.sectionBitmap curSec
    sections := Function.update ptable.sections curSec node }

/-- A stored section is short of memory, waits for the others, or completes the table. -/
inductive Stored (before : Heap) (ptable : TableHeader) (curSec lastSec : UInt8) : Parsed → Prop
  | noMemory (heap : Heap) (node : SectionNode)
      (failed : before.succeeds before.next = false) :
      Stored before ptable curSec lastSec ⟨heap, ptable.withSection curSec node, enomem⟩
  | waiting (heap : Heap) (node : SectionNode)
      (missing : bitmap64Full (bitmap64Set ptable.sectionBitmap curSec) lastSec.toNat ≠ some 0) :
      Stored before ptable curSec lastSec ⟨heap, ptable.withSection curSec node, 1⟩
  | complete (freed heap : Heap) (node : SectionNode) (nodes : UInt8 → SectionNode)
      (data : Pointer)
      (full : bitmap64Full (bitmap64Set ptable.sectionBitmap curSec) lastSec.toNat = some 0)
      (joined : concatSections freed (ptable.withSection curSec node).sections
        ptable.sectionLength (ptable.lastSectionNumber + 1) = some (heap, nodes, data)) :
      Stored before ptable curSec lastSec
        ⟨heap, { ptable.withSection curSec node with sections := nodes, privateDataByte := data },
          0⟩

theorem storeSection_cases (heap : Heap) (pbuf : Block) (bufSize : Nat) (ptable : TableHeader)
    (curSec lastSec : UInt8) (parsed : Parsed)
    (found : storeSection heap pbuf bufSize ptable curSec lastSec = some parsed) :
    Stored heap ptable curSec lastSec parsed := by
  simp only [storeSection] at found
  split at found
  · rename_i failed
    rw [← Option.some.inj found]
    exact .noMemory _ _ (Heap.allocate_none heap _ failed)
  · rcases Option.bind_eq_some_iff.mp found with ⟨copied, -, later⟩
    rcases Option.bind_eq_some_iff.mp later with ⟨full, isFull, rest⟩
    split at rest
    · rename_i missing
      rw [← Option.some.inj rest]
      refine .waiting _ _ fun zero => missing ?_
      exact Option.some.inj (isFull.symm.trans zero)
    · rename_i zero
      rcases Option.bind_eq_some_iff.mp rest with ⟨freed, -, joining⟩
      rcases Option.bind_eq_some_iff.mp joining with ⟨⟨joined, nodes, data⟩, concat, last⟩
      rw [← Option.some.inj last]
      rw [not_not.mp zero] at isFull
      exact .complete freed joined _ nodes data isFull concat

section Supply

-- Which allocations succeed is not for a parser to decide.

theorem copyNode_succeeds (heap copied : Heap) (ret : Pointer) (len : Nat) (node : SectionNode)
    (found : copyNode heap ret len node = some copied) : copied.succeeds = heap.succeeds := by
  rw [copyNode] at found
  split at found
  · rw [Option.some.inj found]
  · rcases Option.bind_eq_some_iff.mp found with ⟨source, -, written⟩
    exact Heap.memcpy_succeeds heap copied ret len source _ written

theorem concatLoop_succeeds (nodes : UInt8 → SectionNode) (totalLength : Nat) (ret : Pointer)
    (rest i len : Nat) (heap : Heap) (result : Heap × Nat)
    (found : concatLoop nodes totalLength ret rest i len heap = some result) :
    result.1.succeeds = heap.succeeds := by
  induction rest generalizing i len heap with
  | zero => rw [← Option.some.inj found]
  | succ rest ih =>
    rw [concatLoop] at found
    split at found
    · rcases Option.bind_eq_some_iff.mp found with ⟨copied, copy, later⟩
      rw [ih (i + 1) _ copied later, copyNode_succeeds heap copied ret len _ copy]
    · rw [← Option.some.inj found]

theorem freeNode_succeeds (heap freed : Heap) (node : SectionNode)
    (found : freeNode heap node = some freed) : freed.succeeds = heap.succeeds := by
  rw [freeNode] at found
  split at found
  · exact Heap.free_succeeds heap freed _ found
  · rw [Option.some.inj found]

theorem clearSections_succeeds (rest i : Nat) (heap : Heap) (nodes : UInt8 → SectionNode)
    (result : Heap × (UInt8 → SectionNode))
    (found : clearSections rest i heap nodes = some result) :
    result.1.succeeds = heap.succeeds := by
  induction rest generalizing i heap nodes with
  | zero => rw [← Option.some.inj found]
  | succ rest ih =>
    rcases Option.bind_eq_some_iff.mp found with ⟨freed, free, later⟩
    rw [ih (i + 1) freed _ later, freeNode_succeeds heap freed _ free]

theorem concatSections_succeeds (heap : Heap) (nodes : UInt8 → SectionNode)
    (totalLength num : Nat) (result : Heap × (UInt8 → SectionNode) × Pointer)
    (found : concatSections heap nodes totalLength num = some result) :
    result.1.succeeds = heap.succeeds := by
  have fresh : (heap.calloc totalLength).1.succeeds = heap.succeeds :=
    Heap.allocate_succeeds heap _
  simp only [concatSections] at found
  generalize heap.calloc totalLength = zeroing at found fresh
  rcases zeroing with ⟨zeroed, pointer⟩
  cases pointer with
  | none =>
    rw [← Option.some.inj found]
    exact fresh
  | some ret =>
    rcases Option.bind_eq_some_iff.mp found with ⟨filled, loop, later⟩
    have copied := concatLoop_succeeds nodes totalLength _ num 0 0 zeroed filled loop
    split at later
    · rcases Option.map_eq_some_iff.mp later with ⟨freed, free, rfl⟩
      rw [Heap.free_succeeds filled.1 freed _ free, copied, fresh]
    · rcases Option.map_eq_some_iff.mp later with ⟨cleared, clear, rfl⟩
      rw [clearSections_succeeds num 0 filled.1 nodes cleared clear, copied, fresh]

theorem parseShortSection_succeeds (heap : Heap) (pbuf : Block) (bufSize : Nat)
    (ptable : TableHeader) (fields : SectionFields) (parsed : Parsed)
    (found : parseShortSection heap pbuf bufSize ptable fields = some parsed) :
    parsed.heap.succeeds = heap.succeeds := by
  rcases Option.bind_eq_some_iff.mp found with ⟨freed, free, later⟩
  have fresh : (freed.malloc (bufSize - 3)).1.succeeds = heap.succeeds := by
    rw [Heap.malloc, Heap.allocate_succeeds, Heap.free_succeeds heap freed _ free]
  simp only at later
  split at later
  · rw [← Option.some.inj later]
    exact fresh
  · rcases Option.bind_eq_some_iff.mp later with ⟨copied, copy, last⟩
    rw [← Option.some.inj last, Heap.memcpy_succeeds _ copied _ _ _ _ copy]
    exact fresh

theorem storeSection_succeeds (heap : Heap) (pbuf : Block) (bufSize : Nat)
    (ptable : TableHeader) (curSec lastSec : UInt8) (parsed : Parsed)
    (found : storeSection heap pbuf bufSize ptable curSec lastSec = some parsed) :
    parsed.heap.succeeds = heap.succeeds := by
  have fresh : (heap.malloc (bufSize - 3)).1.succeeds = heap.succeeds :=
    Heap.allocate_succeeds heap _
  simp only [storeSection] at found
  split at found
  · obtain rfl := Option.some.inj found
    exact fresh
  · rcases Option.bind_eq_some_iff.mp found with ⟨copied, copy, later⟩
    have written := Heap.memcpy_succeeds _ copied _ _ _ _ copy
    rcases Option.bind_eq_some_iff.mp later with ⟨full, -, rest⟩
    split at rest
    · obtain rfl := Option.some.inj rest
      rw [written, fresh]
    · rcases Option.bind_eq_some_iff.mp rest with ⟨freed, free, joining⟩
      rcases Option.bind_eq_some_iff.mp joining with ⟨joined, concat, last⟩
      obtain rfl := Option.some.inj last
      rw [concatSections_succeeds freed _ _ _ joined concat,
        Heap.free_succeeds copied freed _ free, written, fresh]

theorem parseSectionHeader_succeeds (heap : Heap) (pbuf : Block) (bufSize : Nat)
    (ptable : TableHeader) (parsed : Parsed)
    (found : parseSectionHeader heap pbuf bufSize ptable = some parsed) :
    parsed.heap.succeeds = heap.succeeds := by
  rcases Option.bind_eq_some_iff.mp found with ⟨fields, -, later⟩
  split at later
  · rw [← Option.some.inj later]
  split at later
  · rw [← Option.some.inj later]
  split at later
  · exact parseShortSection_succeeds heap pbuf bufSize ptable fields parsed later
  rcases Option.bind_eq_some_iff.mp later with ⟨long, -, storing⟩
  simp only at storing
  split at storing
  · rw [← Option.some.inj storing]
  · exact storeSection_succeeds heap pbuf bufSize _ _ _ parsed storing

end Supply

end TsAnalyze.Tables
