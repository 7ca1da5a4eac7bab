import TsAnalyze.Tables.Handlers

set_option autoImplicit false

namespace TsAnalyze.Tables

open Memory Demux

variable {D : Type} (ops : DescriptorOps D)

-- what a section of this table adds to is empty
def NothingKept : (name : TableName) → Content D name → Prop
  | .eitActual, eit => eit.h = []
  | .eitOther, eit => eit.h = []
  | _, _ => True

theorem decoder_overwrites (name : TableName) (old : Content D name)
    (nothing : NothingKept name old) (header : TableHeader) (pdata : Block) (heap : Heap)
    (result : Decoded (Content D name) × Heap)
    (found : decoder ops name header pdata old heap = some result) :
    decoder ops name header pdata (cleared name) heap = some result := by
  cases name with
  | tsdt => exact freeDescriptors_next ops old _ heap result found
  | pmt pid =>
    have later := freeDescriptors_next ops (old.h.flatMap EsNode.list) _ heap result found
    exact freeDescriptors_next ops old.list _ heap result later
  | nitActual => exact freeDescriptors_next ops old.list _ heap result found
  | nitOther => exact freeDescriptors_next ops old.list _ heap result found
  | bat => exact freeDescriptors_next ops old.list _ heap result found
  | sdtActual => exact freeDescriptors_next ops (old.h.flatMap ServiceNode.list) _ heap result found
  | sdtOther => exact freeDescriptors_next ops (old.h.flatMap ServiceNode.list) _ heap result found
  | eitActual =>
    have empty : old.h = [] := nothing
    simpa only [decoder, decodeEit, empty, cleared] using found
  | eitOther =>
    have empty : old.h = [] := nothing
    simpa only [decoder, decodeEit, empty, cleared] using found

theorem decoded_overwrites (name : TableName) (old : Content D name)
    (nothing : NothingKept name old) (sec : LongSection) (content : Content D name)
    (found : decoded (decoder ops name) old sec = some content) :
    decoded (decoder ops name) (cleared name) sec = some content := by
  rcases Option.map_eq_some_iff.mp found with ⟨result, decoding, rfl⟩
  rw [decoded, decoder_overwrites ops name old nothing _ _ _ result decoding]
  rfl

/-- The handler gives this section to this table. -/
structure Delivery.Carries (delivery : Delivery) (name : TableName) (sec : LongSection) :
    Prop where
  pkt : delivery.pkt = ofBytes sec.bytes
  len : delivery.len = sec.bytes.length
  target : delivery.proc.target delivery.pkt = some (some name)

-- no section with this number has been stored since the table was cleared
def FirstSection (psi : Psi D) (name : TableName) : Prop :=
  bitmap64Get (psi.tables name).header.sectionBitmap 0 = false ∧
    NothingKept name (psi.tables name).content

theorem deliver_carried (psi : Psi D) (delivery : Delivery) (name : TableName)
    (sec : LongSection) (carries : delivery.Carries name sec) :
    deliver ops psi delivery = give ops psi name (ofBytes sec.bytes) sec.bytes.length := by
  rw [deliver, carries.target, Option.bind_some, carries.pkt, carries.len]

theorem deliver_first (psi after : Psi D) (delivery : Delivery) (name : TableName)
    (sec : LongSection) (single : sec.Single) (carries : delivery.Carries name sec)
    (available : psi.heap.Available) (first : FirstSection psi name)
    (delivered : deliver ops psi delivery = some after) :
    decoded (decoder ops name) (cleared name) sec = some (after.tables name).content := by
  rw [deliver_carried ops psi delivery name sec carries] at delivered
  rcases Option.map_eq_some_iff.mp delivered with ⟨handled, parsed, rfl⟩
  have stored := (parseTable_returns (decoder_lawful ops name) psi.heap (psi.tables name) sec
    single available first.1 handled parsed).2
  simp only [Function.update_self]
  exact decoded_overwrites ops name _ first.2 sec _ stored

-- DUPLICATE_DATA: the header is that of the new section, the content is the old one
theorem deliver_seen (psi : Psi D) (delivery : Delivery) (name : TableName) (sec : LongSection)
    (single : sec.Single) (carries : delivery.Carries name sec)
    (seen : bitmap64Get (psi.tables name).header.sectionBitmap 0 = true) :
    ∃ after, deliver ops psi delivery = some after ∧
      (after.tables name).content = (psi.tables name).content ∧
      (after.tables name).header = (psi.tables name).header.describe sec.fields sec.long := by
  have duplicate : bitmap64Get (psi.tables name).header.sectionBitmap sec.long.curSec = true := by
    rw [single.1, seen]
  rw [deliver_carried ops psi delivery name sec carries, give,
    parseTable_duplicate psi.heap (psi.tables name) sec (decoder ops name) duplicate]
  refine ⟨_, rfl, ?_, ?_⟩
  · simp only [Function.update_self]
  · simp only [Function.update_self]

theorem newVersion_replaces (heap : Heap) (available : heap.Available) (history : List Delivery)
    (psi after : Psi D) (reached : deliverAll ops (Psi.initial heap) history = some psi)
    (delivery : Delivery) (name : TableName) (sec : LongSection) (single : sec.Single)
    (carries : delivery.Carries name sec) (first : FirstSection psi name)
    (returned : deliver ops psi delivery = some after) :
    decoded (decoder ops name) (cleared name) sec = some (after.tables name).content :=
  deliver_first ops psi after delivery name sec single carries
    (deliverAll_available ops (Psi.initial heap) psi history available reached) first returned

-- every descriptor is kept as it is
def plainOps : DescriptorOps Unit where
  parse _ _ _ := some ()
  free _ _ := some ()

-- program 1 with one stream on PID 0x101
def firstPmt : LongSection where
  bytes := [0x02, 0xB0, 18, 0, 1, 0xC1, 0, 0, 0xE1, 0, 0xF0, 0, 0x1B, 0xE1, 1, 0xF0, 0, 1, 2, 3, 4]
  fields := ⟨2, 1, 0, 18⟩
  long := ⟨1, 16, 1, 0, 0⟩
  readable := by decide +kernel
  readableLong := by decide +kernel
  syntaxIndicator := rfl
  sized := rfl
  minimal := by decide
  maximal := by decide

-- the next version has the stream on PID 0x102
def nextPmt : LongSection where
  bytes := [0x02, 0xB0, 18, 0, 1, 0xC3, 0, 0, 0xE1, 0, 0xF0, 0, 0x1B, 0xE1, 2, 0xF0, 0, 5, 6, 7, 8]
  fields := ⟨2, 1, 0, 18⟩
  long := ⟨1, 16, 1, 0, 0⟩
  readable := by decide +kernel
  readableLong := by decide +kernel
  syntaxIndicator := rfl
  sized := rfl
  minimal := by decide
  maximal := by decide

def pmtDelivery (bytes : List UInt8) : Delivery where
  proc := .pmt 256
  pkt := ofBytes bytes
  len := bytes.length

theorem pmtDelivery_carries (sec : LongSection) :
    (pmtDelivery sec.bytes).Carries (.pmt 256) sec :=
  ⟨rfl, rfl, rfl⟩

def streamPids (pmt : Pmt Unit) : List Nat :=
  pmt.h.map EsNode.elementaryPid

-- the second of the two sections that version 0 has here comes first
def halfParsed : Option (Psi Unit) :=
  deliverAll plainOps (Psi.initial Heap.empty)
    [pmtDelivery [0x02, 0xB0, 9, 0, 1, 0xC1, 1, 1, 9, 9, 9, 9]]

theorem halfParsed_reached : halfParsed.isSome = true := by
  decide +kernel

theorem halfParsed_next : (deliver plainOps (halfParsed.get halfParsed_reached)
    (pmtDelivery nextPmt.bytes)).isSome = true := by
  decide +kernel

theorem newVersion_replaces_half_parsed :
    decoded (decodePmt plainOps) {} nextPmt =
      some (((deliver plainOps (halfParsed.get halfParsed_reached)
        (pmtDelivery nextPmt.bytes)).get halfParsed_next).tables (.pmt 256)).content :=
  newVersion_replaces plainOps Heap.empty Heap.empty_available _ _ _
    (Option.some_get halfParsed_reached).symm (pmtDelivery nextPmt.bytes) (.pmt 256) nextPmt
    ⟨rfl, rfl⟩ (pmtDelivery_carries nextPmt) ⟨by decide +kernel, trivial⟩
    (Option.some_get halfParsed_next).symm

/-- The section that the table was given last. -/
def LastGiven (history : List Delivery) (name : TableName) (previous : LongSection) : Prop :=
  ∃ before delivery later, history = before ++ delivery :: later ∧
    delivery.Carries name previous ∧
    ∀ other ∈ later, other.proc.target other.pkt ≠ some (some name)

def NewVersion (previous sec : LongSection) : Prop :=
  previous.fields.tableId = sec.fields.tableId ∧
    previous.long.tableIdExt = sec.long.tableIdExt ∧ previous.version ≠ sec.version

def parsedPmt : Option (Psi Unit) :=
  deliverAll plainOps (Psi.initial Heap.empty) [pmtDelivery firstPmt.bytes]

theorem parsedPmt_reached : parsedPmt.isSome = true := by
  decide +kernel

theorem newVersion_ignored :
    ¬∀ (heap : Heap) (history : List Delivery) (psi after : Psi Unit) (delivery : Delivery)
      (name : TableName) (previous sec : LongSection), heap.Available →
      deliverAll plainOps (Psi.initial heap) history = some psi →
      LastGiven history name previous → NewVersion previous sec → sec.Single →
      delivery.Carries name sec → deliver plainOps psi delivery = some after →
      decoded (decoder plainOps name) (cleared name) sec = some (after.tables name).content := by
  intro claim
  have seen : bitmap64Get ((parsedPmt.get parsedPmt_reached).tables
      (.pmt 256)).header.sectionBitmap 0 = true := by decide +kernel
  rcases deliver_seen plainOps (parsedPmt.get parsedPmt_reached) (pmtDelivery nextPmt.bytes)
    (.pmt 256) nextPmt ⟨rfl, rfl⟩ (pmtDelivery_carries nextPmt) seen with
    ⟨after, delivered, kept, -⟩
  have replaced := claim Heap.empty [pmtDelivery firstPmt.bytes] _ after
    (pmtDelivery nextPmt.bytes) (.pmt 256) firstPmt nextPmt Heap.empty_available
    (Option.some_get parsedPmt_reached).symm
    ⟨[], _, [], rfl, pmtDelivery_carries firstPmt, by simp⟩ ⟨rfl, rfl, by decide⟩ ⟨rfl, rfl⟩
    (pmtDelivery_carries nextPmt) delivered
  have pids := congrArg (Option.map streamPids) replaced
  rw [kept] at pids
  revert pids
  decide +kernel

end TsAnalyze.Tables
