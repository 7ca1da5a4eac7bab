import TsAnalyze.Tables.LongSection
import TsAnalyze.Tables.NodeWalk

set_option autoImplicit false

namespace TsAnalyze.Tables

open Memory Demux

section Readers

variable {D : Type} (ops : DescriptorOps D)

theorem readEs_reads : NodeReads ops 5 3 (readEs ops) where
  yields bytes long inside := by
    cases read8_inside bytes 0 (by omega) with
    | intro streamType typeRead =>
      cases read16_inside bytes 1 (by omega) with
      | intro pid pidRead =>
        cases read16_inside bytes 3 (by omega) with
        | intro length lengthRead =>
          rw [lengthAt_read lengthRead] at inside ⊢
          cases (parseDescriptors_definedWhen _ _).yields inside with
          | intro list parsed =>
            refine ⟨⟨streamType, pid &&& 0x1FFF, length &&& 0x0FFF, list⟩, ?_⟩
            apply yields_read typeRead
            apply yields_read pidRead
            apply yields_read lengthRead
            exact yields_bind parsed (yields_pure _)
  inside bytes heap result found := by
    rcases lift_bind found with ⟨streamType, -, afterType⟩
    rcases lift_bind afterType with ⟨pid, -, afterPid⟩
    rcases lift_bind afterPid with ⟨length, lengthRead, afterLength⟩
    rcases Option.bind_eq_some_iff.mp afterLength with ⟨parsed, parsing, ending⟩
    obtain rfl := Option.some.inj ending
    rw [lengthAt_read lengthRead]
    exact ⟨rfl, _, parseDescriptors_inside ops _ _ _ parsed parsing⟩
  plain := readEs_plain ops

theorem readTransportStream_reads : NodeReads ops 6 4 (readTransportStream ops) where
  yields bytes long inside := by
    cases read16_inside bytes 0 (by omega) with
    | intro id idRead =>
      cases read16_inside bytes 2 (by omega) with
      | intro network networkRead =>
        cases read16_inside bytes 4 (by omega) with
        | intro length lengthRead =>
          rw [lengthAt_read lengthRead] at inside ⊢
          cases (parseDescriptors_definedWhen _ _).yields inside with
          | intro list parsed =>
            refine ⟨⟨id, network, length &&& 0xFFF, list⟩, ?_⟩
            apply yields_read idRead
            apply yields_read networkRead
            apply yields_read lengthRead
            exact yields_bind parsed (yields_pure _)
  inside bytes heap result found := by
    rcases lift_bind found with ⟨id, -, afterId⟩
    rcases lift_bind afterId with ⟨network, -, afterNetwork⟩
    rcases lift_bind afterNetwork with ⟨length, lengthRead, afterLength⟩
    rcases Option.bind_eq_some_iff.mp afterLength with ⟨parsed, parsing, ending⟩
    obtain rfl := Option.some.inj ending
    rw [lengthAt_read lengthRead]
    exact ⟨rfl, _, parseDescriptors_inside ops _ _ _ parsed parsing⟩
  plain := readTransportStream_plain ops

theorem readService_reads : NodeReads ops 5 3 (readService ops) where
  yields bytes long inside := by
    cases read16_inside bytes 0 (by omega) with
    | intro id idRead =>
      cases read8_inside bytes 2 (by omega) with
      | intro flags flagsRead =>
        cases read16_inside bytes 3 (by omega) with
        | intro word wordRead =>
          rw [lengthAt_read wordRead] at inside ⊢
          cases (parseDescriptors_definedWhen _ _).yields inside with
          | intro list parsed =>
            refine ⟨⟨id, (flags.toNat >>> 1) &&& 0x1, flags.toNat &&& 0x1, (word >>> 13) &&& 0x7,
              (word >>> 12) &&& 0x1, word &&& 0x0FFF, list⟩, ?_⟩
            apply yields_read idRead
            apply yields_read flagsRead
            apply yields_read wordRead
            exact yields_bind parsed (yields_pure _)
  inside bytes heap result found := by
    rcases lift_bind found with ⟨id, -, afterId⟩
    rcases lift_bind afterId with ⟨flags, -, afterFlags⟩
    rcases lift_bind afterFlags with ⟨word, wordRead, afterWord⟩
    rcases Option.bind_eq_some_iff.mp afterWord with ⟨parsed, parsing, ending⟩
    obtain rfl := Option.some.inj ending
    rw [lengthAt_read wordRead]
    exact ⟨rfl, _, parseDescriptors_inside ops _ _ _ parsed parsing⟩
  plain := readService_plain ops

end Readers

variable {D : Type} (ops : DescriptorOps D)

-- what the lengths of each table lead to, in the memory of its data
def PmtInside (memory : Block) : Prop :=
  DescriptorsInside ops (memory.drop 4) (lengthAt memory 2) ∧
    NodesInside ops 5 3 (memory.drop (4 + lengthAt memory 2))
      (memory.length - 13 - lengthAt memory 2)

def TransportsInside (memory : Block) : Prop :=
  DescriptorsInside ops (memory.drop 2) (lengthAt memory 0) ∧
    4 + lengthAt memory 0 ≤ memory.length ∧
    NodesInside ops 6 4 (memory.drop (4 + lengthAt memory 0))
      (memory.length - 13 - lengthAt memory 0)

def SdtInside (memory : Block) : Prop :=
  NodesInside ops 5 3 (memory.drop 3) (memory.length - 12)

section Decoders

variable (bytes : List UInt8) (minimal : 9 ≤ bytes.length) (maximal : bytes.length ≤ 0x3FD)
  (header : TableHeader) (sized : header.sectionLength = bytes.length)
include minimal maximal sized

theorem decodePmt_definedWhen :
    DefinedWhen (decodePmt ops header (ofBytes bytes) {}) (PmtInside ops (ofBytes bytes)) := by
  have bound := lengthAt_le (ofBytes bytes) 2
  have remaining : toInt16 (toInt16 (toInt16 (header.sectionLength - (5 + 4)) - 2) -
      (2 + (lengthAt (ofBytes bytes) 2 : Int))) =
      (ofBytes bytes).length - 13 - lengthAt (ofBytes bytes) 2 := by
    rw [sized, ofBytes_length, toInt16_of_small (bytes.length - (5 + 4) : Int) (by omega) (by omega),
      toInt16_of_small (bytes.length - (5 + 4) - 2 : Int) (by omega) (by omega),
      toInt16_of_small _ (by omega) (by omega)]
    omega
  cases read16_inside bytes 0 (by omega) with
  | intro pcrPid pidRead =>
    cases read16_inside bytes 2 (by omega) with
    | intro length lengthRead =>
      refine definedWhen_read (show _ = some () from rfl) ?_
      refine definedWhen_read (show _ = some () from rfl) ?_
      refine definedWhen_read pidRead (definedWhen_read lengthRead ?_)
      dsimp only
      rw [← lengthAt_read lengthRead, remaining]
      refine definedWhen_bind (parseDescriptors_plain ops _ _ _)
        (parseDescriptors_definedWhen _ _) fun list _ => ?_
      rw [ofBytes_drop, ofBytes_length (bytes.drop _)]
      refine definedWhen_last (nodeLoop_plain _ _ (readEs_plain ops) _ _ _ _)
        (nodeLoop_definedWhen (readEs_reads ops) (by omega) (by omega) _ _ ?_ ?_ ?_)
        fun looped => definedWhen_pure _
      · rw [ofBytes_length, List.length_drop]
        omega
      · rw [ofBytes_length]
        omega
      · rw [ofBytes_length]
        omega

omit sized in
theorem readTransportLoops_definedWhen :
    DefinedWhen (readTransportLoops ops bytes.length (ofBytes bytes))
      (TransportsInside ops (ofBytes bytes)) := by
  have bound := lengthAt_le (ofBytes bytes) 0
  have remaining : toInt16 (toInt16 (bytes.length - (5 + 4)) -
      (4 + (lengthAt (ofBytes bytes) 0 : Int))) =
      (ofBytes bytes).length - 13 - lengthAt (ofBytes bytes) 0 := by
    rw [ofBytes_length, toInt16_of_small (bytes.length - (5 + 4) : Int) (by omega) (by omega),
      toInt16_of_small _ (by omega) (by omega)]
    omega
  cases read16_inside bytes 0 (by omega) with
  | intro length lengthRead =>
    refine definedWhen_read lengthRead ?_
    dsimp only
    rw [← lengthAt_read lengthRead, remaining]
    refine definedWhen_bind (parseDescriptors_plain ops _ _ _)
      (parseDescriptors_definedWhen _ _) fun list _ => ?_
    refine definedWhen_guard ?_ fun loopWord _ => ?_
    · rw [ofBytes_length, ofBytes_drop]
      constructor
      · intro read
        cases read with
        | intro loopWord loopRead =>
          have inside := inside_of_read16 _ _ _ loopRead
          rw [List.length_drop] at inside
          omega
      · intro inside
        exact read16_inside _ 0 (by rw [List.length_drop]; omega)
    · rw [List.drop_drop,
        show 2 + lengthAt (ofBytes bytes) 0 + 2 = 4 + lengthAt (ofBytes bytes) 0 by omega,
        ofBytes_drop, ofBytes_length (bytes.drop _)]
      refine definedWhen_last (nodeLoop_plain _ _ (readTransportStream_plain ops) _ _ _ _)
        (nodeLoop_definedWhen (readTransportStream_reads ops) (by omega) (by omega) _ _ ?_ ?_ ?_)
        fun looped => definedWhen_pure _
      · rw [ofBytes_length, List.length_drop]
        omega
      · rw [ofBytes_length]
        omega
      · rw [ofBytes_length]
        omega

theorem decodeNit_definedWhen :
    DefinedWhen (decodeNit ops header (ofBytes bytes) {})
      (TransportsInside ops (ofBytes bytes)) := by
  refine definedWhen_read (show _ = some () from rfl) ?_
  rw [sized]
  exact definedWhen_last (readTransportLoops_plain ops _ _)
    (readTransportLoops_definedWhen ops bytes minimal maximal) fun loops => definedWhen_pure _

theorem decodeBat_definedWhen :
    DefinedWhen (decodeBat ops header (ofBytes bytes) {})
      (TransportsInside ops (ofBytes bytes)) := by
  refine definedWhen_read (show _ = some () from rfl) ?_
  rw [sized]
  exact definedWhen_last (readTransportLoops_plain ops _ _)
    (readTransportLoops_definedWhen ops bytes minimal maximal) fun loops => definedWhen_pure _

theorem decodeSdt_definedWhen :
    DefinedWhen (decodeSdt ops header (ofBytes bytes) {}) (SdtInside ops (ofBytes bytes)) := by
  have remaining : toInt16 (toInt16 (header.sectionLength - (5 + 4)) - 3) =
      (ofBytes bytes).length - 12 := by
    rw [sized, ofBytes_length, toInt16_of_small (bytes.length - (5 + 4) : Int) (by omega) (by omega),
      toInt16_of_small _ (by omega) (by omega)]
    omega
  cases read16_inside bytes 0 (by omega) with
  | intro network networkRead =>
    refine definedWhen_read (show _ = some () from rfl) (definedWhen_read networkRead ?_)
    dsimp only
    rw [remaining, ofBytes_drop, ofBytes_length (bytes.drop _), SdtInside, ofBytes_drop]
    refine definedWhen_last (nodeLoop_plain _ _ (readService_plain ops) _ _ _ _)
      (nodeLoop_definedWhen (readService_reads ops) (by omega) (by omega) _ _ ?_ ?_ ?_)
      fun looped => definedWhen_pure _
    · rw [ofBytes_length, List.length_drop]
      omega
    · rw [ofBytes_length]
      omega
    · rw [ofBytes_length]
      omega

theorem decodeDescriptors_definedWhen :
    DefinedWhen (decodeDescriptors ops header (ofBytes bytes) [])
      (DescriptorsInside ops (ofBytes bytes) (bytes.length - 9)) := by
  have remaining : (toUInt16 (header.sectionLength - (5 + 4))).toNat = bytes.length - 9 := by
    rw [toUInt16, sized]
    omega
  refine definedWhen_read (show _ = some () from rfl) ?_
  rw [remaining]
  exact definedWhen_last (parseDescriptors_plain ops _ _ _) (parseDescriptors_definedWhen _ _)
    fun list => definedWhen_pure _

end Decoders

section Pat

-- an entry that ends the loop of parse_pat
def StopsAt (memory : Block) (k : Nat) : Prop :=
  4 * k + 4 ≤ memory.length ∧ read16 memory (4 * k) = some 0xFFFF

def PatGoes (memory : Block) (remaining : Int) : Prop :=
  (remaining % 4 = 0 ∧ remaining ≤ memory.length) ∨ ∃ k, StopsAt memory k

theorem read16_drop (memory : Block) (start offset : Nat) :
    read16 (memory.drop start) offset = read16 memory (start + offset) := by
  simp only [read16, read8_drop, Nat.add_assoc]

theorem patGoes_turn (memory : Block) (remaining : Int) (more : 0 < remaining)
    (high : remaining < 65536) (room : 4 ≤ memory.length) (short : memory.length ≤ 0x3FD)
    (number : Nat) (numberRead : read16 memory 0 = some number) :
    PatGoes memory remaining ↔
      number = 0xFFFF ∨ PatGoes (memory.drop 4) (toUInt16 (remaining - 4)) := by
  have size : (memory.drop 4).length = memory.length - 4 := List.length_drop
  have whole : (remaining % 4 = 0 ∧ remaining ≤ memory.length) ↔
      (toUInt16 (remaining - 4) % 4 = 0 ∧
        toUInt16 (remaining - 4) ≤ (memory.drop 4).length) := by
    rw [size, toUInt16]
    omega
  have stops : (∃ k, StopsAt memory k) ↔
      number = 0xFFFF ∨ ∃ k, StopsAt (memory.drop 4) k := by
    constructor
    · intro stop
      rcases stop with ⟨k, inside, marker⟩
      cases k with
      | zero =>
        rw [Nat.mul_zero, numberRead] at marker
        exact Or.inl (Option.some.inj marker)
      | succ k =>
        refine Or.inr ⟨k, by omega, ?_⟩
        rwa [read16_drop, show 4 + 4 * k = 4 * (k + 1) by omega]
    · intro stop
      cases stop with
      | inl marker => exact ⟨0, by omega, by rw [Nat.mul_zero, numberRead, marker]⟩
      | inr stop =>
        rcases stop with ⟨k, inside, marker⟩
        refine ⟨k + 1, by omega, ?_⟩
        rwa [read16_drop, show 4 + 4 * k = 4 * (k + 1) by omega] at marker
  rw [PatGoes, whole, stops, PatGoes]
  exact or_left_comm

theorem patLoop_definedWhen (turns : Nat) (bytes : List UInt8) (enough : bytes.length < 4 * turns)
    (short : bytes.length ≤ 0x3FD) (remaining : Int) (low : 0 ≤ remaining)
    (high : remaining < 65536) (pat : Pat) (registered : List Registration) :
    DefinedWhen (patLoop turns (ofBytes bytes) remaining pat registered)
      (PatGoes (ofBytes bytes) remaining) := by
  induction turns generalizing bytes remaining pat registered with
  | zero => omega
  | succ turns ih =>
    by_cases more : 0 < remaining
    · by_cases room : 4 ≤ bytes.length
      · cases read16_inside bytes 0 (by omega) with
        | intro number numberRead =>
          cases read16_inside bytes 2 (by omega) with
          | intro word wordRead =>
            have next := fun pat registered => ih (bytes.drop 4)
              (by rw [List.length_drop]; omega) (by rw [List.length_drop]; omega)
              (toUInt16 (remaining - 4)) (by rw [toUInt16]; omega) (by rw [toUInt16]; omega) pat
              registered
            have turn := patGoes_turn (ofBytes bytes) remaining more high
              (by rwa [ofBytes_length]) (by rwa [ofBytes_length]) number numberRead
            rw [turn, patLoop, if_pos more, ofBytes_drop]
            refine definedWhen_read numberRead (definedWhen_read wordRead ?_)
            dsimp only
            by_cases stops : number = 0xFFFF
            · rw [if_pos stops]
              exact (definedWhen_pure _).imp ⟨fun _ => Or.inl stops, fun _ => trivial⟩
            · rw [if_neg stops]
              by_cases seen : pat.programBitmap number = true
              · rw [if_pos seen]
                exact (next _ _).imp (or_iff_right stops).symm
              · rw [if_neg seen]
                exact definedWhen_reserve ((next _ _).imp (or_iff_right stops).symm)
      · constructor
        · intro goes
          rcases goes with ⟨whole, fits⟩ | ⟨k, inside, -⟩
          · rw [ofBytes_length] at fits
            omega
          · rw [ofBytes_length] at inside
            omega
        · intro heap result _ found
          rw [patLoop, if_pos more] at found
          rcases lift_bind found with ⟨number, -, afterNumber⟩
          rcases lift_bind afterNumber with ⟨word, wordRead, -⟩
          have inside := inside_of_read16 bytes 2 word wordRead
          omega
    · rw [patLoop, if_neg more]
      refine (definedWhen_pure _).imp ⟨fun _ => Or.inl ⟨by omega, ?_⟩, fun _ => trivial⟩
      omega

theorem decodePat_definedWhen (bytes : List UInt8) (minimal : 9 ≤ bytes.length)
    (maximal : bytes.length ≤ 0x3FD) (header : TableHeader)
    (sized : header.sectionLength = bytes.length) :
    DefinedWhen (decodePat header (ofBytes bytes) {})
      (PatGoes (ofBytes bytes) (bytes.length - 9)) := by
  have remaining : toUInt16 (header.sectionLength - (5 + 4)) = bytes.length - 9 := by
    rw [toUInt16, sized]
    omega
  rw [decodePat, remaining, ofBytes_length]
  exact patLoop_definedWhen (bytes.length + 1) bytes (by omega) maximal _ (by omega) (by omega) {} []

end Pat

section Eit

-- the bytes of an event's descriptors that are printed on stderr, however few there are
def dumpEvent (bufSize : Nat) (pdata : Block) : Option Unit :=
  (List.range (min 45 bufSize)).forM fun di => (read8 pdata di).map fun _ => ()

variable {D : Type} (ops : DescriptorOps D)

-- The dump reads and changes nothing, so it may come before the fields.
def readDumpedEvent (bufSize : Nat) (pdata : Block) : Allocating (EventNode D × Nat × Nat) := do
  dumpEvent bufSize (pdata.drop 12)
  readEvent ops pdata

-- parse_eit with its dump
def decodeDumpedEit (bufSize : Nat) : Decoder (Eit D) := fun header pdata eit => do
  let transportStreamId ← read16 pdata 0
  let originalNetworkId ← read16 pdata 2
  let segmentLastSectionNumber ← read8 pdata 4
  let lastTableId ← read8 pdata 5
  let events := pdata.drop 6
  let sectionLen := toUInt16 (toUInt16 (header.sectionLength - (5 + 4)) - 6)
  let (h, ret) ← nodeLoop toUInt16 (readDumpedEvent ops bufSize) (events.length + 1) events
    sectionLen eit.h
  pure {
    content := ⟨transportStreamId, originalNetworkId, segmentLastSectionNumber, lastTableId, h⟩
    ret := ret }

/-- The events that the loop comes to, twelve bytes apart, leave room for the dump, and their
descriptors stand in the memory. -/
inductive EventsInside (dumped : Nat) : Block → Int → Prop
  | done (memory : Block) (remaining : Int) (used : remaining ≤ 0) :
      EventsInside dumped memory remaining
  | event (memory : Block) (remaining : Int) (more : 0 < remaining)
      (room : 12 + dumped ≤ memory.length)
      (here : DescriptorsInside ops (memory.drop 12) (lengthAt memory 10))
      (later : EventsInside dumped (memory.drop 12)
        (toUInt16 (remaining - (12 + lengthAt memory 10 : Nat)))) :
      EventsInside dumped memory remaining

def EitInside (memory : Block) : Prop :=
  EventsInside ops (min 45 (memory.length + 3)) (memory.drop 6) (toUInt16 (memory.length - 15))

theorem forM_isSome {A : Type} (list : List A) (action : A → Option Unit) :
    (∃ done, list.forM action = some done) ↔ ∀ item ∈ list, (action item).isSome = true := by
  induction list with
  | nil => simp
  | cons item list ih =>
    cases first : action item with
    | none => simp [first]
    | some done => simpa [first] using ih

theorem dumpEvent_inside (bufSize : Nat) (bytes : List UInt8) :
    (∃ done, dumpEvent bufSize (ofBytes bytes) = some done) ↔
      min 45 bufSize ≤ bytes.length := by
  rw [dumpEvent, forM_isSome]
  constructor
  · intro reads
    by_contra outside
    have last := reads bytes.length (by rw [List.mem_range]; omega)
    rw [read8_none _ _ (by rw [ofBytes_length])] at last
    cases last
  · intro inside di member
    cases read8_inside bytes di (by rw [List.mem_range] at member; omega) with
    | intro value found => rw [found, Option.map_some, Option.isSome_some]

theorem readEvent_definedWhen (bytes : List UInt8) (room : 12 ≤ bytes.length) :
    DefinedWhen (readEvent ops (ofBytes bytes))
      (DescriptorsInside ops ((ofBytes bytes).drop 12) (lengthAt (ofBytes bytes) 10)) := by
  have time : ∃ time, read64 (ofBytes bytes) 2 = some time := by
    rcases read16_inside bytes 2 (by omega) with ⟨first, firstRead⟩
    rcases read16_inside bytes 4 (by omega) with ⟨second, secondRead⟩
    rcases read16_inside bytes 6 (by omega) with ⟨third, thirdRead⟩
    rcases read16_inside bytes 8 (by omega) with ⟨fourth, fourthRead⟩
    simp [read64, read32, firstRead, secondRead, thirdRead, fourthRead]
  rcases read16_inside bytes 0 (by omega) with ⟨eventId, idRead⟩
  rcases time with ⟨time, timeRead⟩
  rcases read16_inside bytes 10 (by omega) with ⟨word, wordRead⟩
  refine definedWhen_read idRead (definedWhen_read timeRead (definedWhen_read wordRead ?_))
  dsimp only
  rw [lengthAt_read wordRead]
  exact definedWhen_last (parseDescriptors_plain ops _ _ _) (parseDescriptors_definedWhen _ _)
    fun list => definedWhen_pure _

theorem readEvent_sizes (memory : Block) (heap : Heap) (result : (EventNode D × Nat × Nat) × Heap)
    (found : readEvent ops memory heap = some result) :
    result.1.2 = (12 + lengthAt memory 10, 12) := by
  rcases lift_bind found with ⟨id, -, afterId⟩
  rcases lift_bind afterId with ⟨time, -, afterTime⟩
  rcases lift_bind afterTime with ⟨word, wordRead, afterWord⟩
  rcases Option.bind_eq_some_iff.mp afterWord with ⟨parsed, -, ending⟩
  obtain rfl := Option.some.inj ending
  rw [lengthAt_read wordRead]
  rfl

variable (bufSize : Nat) (positive : 0 < bufSize)

theorem readDumpedEvent_plain (memory : Block) : Plain (readDumpedEvent ops bufSize memory) :=
  plain_bind _ _ (plain_lift _) fun _ => readEvent_plain ops memory

include positive

theorem readDumpedEvent_definedWhen (bytes : List UInt8) :
    DefinedWhen (readDumpedEvent ops bufSize (ofBytes bytes))
      (12 + min 45 bufSize ≤ bytes.length ∧
        DescriptorsInside ops ((ofBytes bytes).drop 12) (lengthAt (ofBytes bytes) 10)) := by
  have room : (∃ done, dumpEvent bufSize ((ofBytes bytes).drop 12) = some done) ↔
      12 + min 45 bufSize ≤ bytes.length := by
    rw [ofBytes_drop, dumpEvent_inside, List.length_drop]
    omega
  refine definedWhen_guard room fun done found => ?_
  have inside := room.mp ⟨done, found⟩
  exact readEvent_definedWhen ops bytes (by omega)

theorem eventLoop_definedWhen (turns : Nat) (bytes : List UInt8)
    (enough : bytes.length < 12 * turns) (remaining : Int) (nodes : List (EventNode D)) :
    DefinedWhen (nodeLoop toUInt16 (readDumpedEvent ops bufSize) turns (ofBytes bytes) remaining
        nodes)
      (EventsInside ops (min 45 bufSize) (ofBytes bytes) remaining) := by
  induction turns generalizing bytes remaining nodes with
  | zero => omega
  | succ turns ih =>
    by_cases more : 0 < remaining
    · have split : ((12 + min 45 bufSize ≤ bytes.length ∧
          DescriptorsInside ops ((ofBytes bytes).drop 12) (lengthAt (ofBytes bytes) 10)) ∧
          EventsInside ops (min 45 bufSize) ((ofBytes bytes).drop 12)
            (toUInt16 (remaining - (12 + lengthAt (ofBytes bytes) 10 : Nat)))) ↔
          EventsInside ops (min 45 bufSize) (ofBytes bytes) remaining := by
        constructor
        · intro all
          exact EventsInside.event _ _ more (by rw [ofBytes_length]; exact all.1.1) all.1.2 all.2
        · intro inside
          cases inside with
          | done _ _ used => omega
          | event _ _ _ room here later =>
            rw [ofBytes_length] at room
            exact ⟨⟨room, here⟩, later⟩
      rw [nodeLoop, if_pos more]
      refine definedWhen_reserve ?_
      rw [if_pos rfl]
      refine (definedWhen_bind (readDumpedEvent_plain ops bufSize _)
        (readDumpedEvent_definedWhen ops bufSize positive bytes) fun read reached => ?_).imp split
      rcases reached with ⟨heap, after, found⟩
      rcases lift_bind found with ⟨done, dumped, reading⟩
      have sizes := readEvent_sizes ops (ofBytes bytes) heap (read, after) reading
      have size : read.2.1 = 12 + lengthAt (ofBytes bytes) 10 := congrArg Prod.fst sizes
      have advance : read.2.2 = 12 := congrArg Prod.snd sizes
      dsimp only
      rw [size, advance, ofBytes_drop]
      have room : min 45 bufSize ≤ (bytes.drop 12).length :=
        (dumpEvent_inside bufSize (bytes.drop 12)).mp ⟨done, by rwa [← ofBytes_drop]⟩
      exact ih (bytes.drop 12) (by rw [List.length_drop] at room ⊢; omega) _ _
    · rw [nodeLoop, if_neg more]
      exact (definedWhen_pure _).imp
        ⟨fun _ => EventsInside.done _ _ (not_lt.mp more), fun _ => trivial⟩

end Eit

section EitTable

variable {D : Type} (ops : DescriptorOps D)

theorem decodeDumpedEit_definedWhen (bytes : List UInt8) (minimal : 9 ≤ bytes.length)
    (maximal : bytes.length ≤ 0x3FD) (header : TableHeader)
    (sized : header.sectionLength = bytes.length) :
    DefinedWhen (decodeDumpedEit ops (bytes.length + 3) header (ofBytes bytes) {})
      (EitInside ops (ofBytes bytes)) := by
  have remaining : toUInt16 (toUInt16 (header.sectionLength - (5 + 4)) - 6) =
      toUInt16 (bytes.length - 15) := by
    rw [sized, toUInt16, toUInt16, toUInt16]
    omega
  rcases read16_inside bytes 0 (by omega) with ⟨id, idRead⟩
  rcases read16_inside bytes 2 (by omega) with ⟨network, networkRead⟩
  rcases read8_inside bytes 4 (by omega) with ⟨segment, segmentRead⟩
  rcases read8_inside bytes 5 (by omega) with ⟨last, lastRead⟩
  refine definedWhen_read idRead (definedWhen_read networkRead
    (definedWhen_read segmentRead (definedWhen_read lastRead ?_)))
  dsimp only
  rw [remaining, EitInside, ofBytes_drop, ofBytes_length, ofBytes_length]
  exact definedWhen_last (nodeLoop_plain _ _ (readDumpedEvent_plain ops _) _ _ _ _)
    (eventLoop_definedWhen ops (bytes.length + 3) (by omega) _ _ (by omega) _ _)
    fun looped => definedWhen_pure _

end EitTable

/-- What a table is decoded from: the section's bytes from its ninth on, and whatever the five
bytes that malloc gave and nothing was copied to happen to hold. -/
def LongSection.filled (sec : LongSection) (unwritten : List UInt8) : Block :=
  sec.stored.take sec.body.length ++ ofBytes unwritten

def LongSection.header (sec : LongSection) : TableHeader :=
  TableHeader.describe {} sec.fields sec.long

-- the tables whose parsers follow the lengths inside of a section
inductive SectionTable
  | pat
  | cat
  | tsdt
  | pmt
  | nit
  | bat
  | sdt
  | eit

namespace SectionTable

variable {D : Type} (ops : DescriptorOps D)

-- the parser of a fresh table comes to its end and reads nothing outside of the memory
def Returns (sec : LongSection) (memory : Block) (heap : Heap) : SectionTable → Prop
  | .pat => (decodePat sec.header memory {} heap).isSome = true
  | .cat | .tsdt => (decodeDescriptors ops sec.header memory [] heap).isSome = true
  | .pmt => (decodePmt ops sec.header memory {} heap).isSome = true
  | .nit => (decodeNit ops sec.header memory {} heap).isSome = true
  | .bat => (decodeBat ops sec.header memory {} heap).isSome = true
  | .sdt => (decodeSdt ops sec.header memory {} heap).isSome = true
  | .eit => (decodeDumpedEit ops sec.bytes.length sec.header memory {} heap).isSome = true

/-- The lengths inside of the section lead to nothing outside of the memory. -/
def Inside (memory : Block) : SectionTable → Prop
  | .pat => PatGoes memory (memory.length - 9)
  | .cat | .tsdt => DescriptorsInside ops memory (memory.length - 9)
  | .pmt => PmtInside ops memory
  | .nit | .bat => TransportsInside ops memory
  | .sdt => SdtInside ops memory
  | .eit => EitInside ops memory

end SectionTable

-- a PMT whose program_info_length goes past the end of the section
def overlongPmt : LongSection where
  bytes := [0x02, 0xB0, 13, 0, 1, 0xC1, 0, 0, 0xE1, 0, 0xFF, 0xFF, 1, 2, 3, 4]
  fields := ⟨2, 1, 0, 13⟩
  long := ⟨1, 16, 1, 0, 0⟩
  readable := by decide +kernel
  readableLong := by decide +kernel
  syntaxIndicator := rfl
  sized := rfl
  minimal := by decide
  maximal := by decide

end TsAnalyze.Tables

