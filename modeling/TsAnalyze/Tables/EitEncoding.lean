import TsAnalyze.Tables.DvbSiEncoding

set_option autoImplicit false

namespace TsAnalyze.Tables

open Memory Demux

structure EventLabel where
  eventId : Nat
  startTime : Nat
  duration : Nat
  runningStatus : Nat
  freeCaMode : Nat
  descriptors : List (UInt8 × UInt8)

variable {D : Type}

def EventNode.label (node : EventNode D) : EventLabel :=
  ⟨node.eventId, node.startTime, node.duration, node.runningStatus, node.freeCaMode,
    node.list.map Descriptor.label⟩

variable (ops : DescriptorOps D)

structure Event where
  eventId : Nat
  startTime : Nat
  duration : Nat
  runningStatus : Nat
  freeCaMode : Bool
  idFits : eventId < 65536
  startFits : startTime < 2 ^ 40
  durationFits : duration < 2 ^ 24
  statusFits : runningStatus < 8
  descriptors : List (AcceptedDescriptor ops)

structure Events where
  transportStreamId : Nat
  originalNetworkId : Nat
  segmentLastSectionNumber : UInt8
  lastTableId : UInt8
  idFits : transportStreamId < 65536
  networkFits : originalNetworkId < 65536
  events : List (Event ops)

variable {ops}

namespace Event

def label (event : Event ops) : EventLabel :=
  ⟨event.eventId, event.startTime, event.duration, event.runningStatus, event.freeCaMode.toNat,
    event.descriptors.map AcceptedDescriptor.label⟩

-- 40 bits and 24 bits
def time (event : Event ops) : Nat :=
  event.startTime * 2 ^ 24 + event.duration

def marks (event : Event ops) : Nat :=
  2 * event.runningStatus + event.freeCaMode.toNat

def word (event : Event ops) : Nat :=
  event.marks * 2 ^ 12 + (encodeDescriptors event.descriptors).length

def encode (event : Event ops) : List UInt8 :=
  encode16 event.eventId ++ encode64 event.time ++ encodeLoop event.marks event.descriptors

theorem encode_length (event : Event ops) :
    event.encode.length = 12 + (encodeDescriptors event.descriptors).length := by
  simp only [encode, encodeLoop, List.length_append, encode16_length, encode64_length]
  omega

theorem time_fits (event : Event ops) : event.time < 2 ^ 64 := by
  have startFits := event.startFits
  have durationFits := event.durationFits
  rw [time]
  omega

theorem marks_fit (event : Event ops) : event.marks < 16 := by
  have statusFits := event.statusFits
  have caFits := Bool.toNat_le event.freeCaMode
  rw [marks]
  omega

/-- The event stands at the start of this memory: its fixed fields, and behind them descriptors
with the tags and lengths of its own. -/
structure At (event : Event ops) (memory : Block) : Prop where
  eventId : read16 memory 0 = some event.eventId
  time : read64 memory 2 = some event.time
  word : read16 memory 10 = some event.word
  descriptors : Walked ops (memory.drop 12) (encodeDescriptors event.descriptors).length
    (event.descriptors.map AcceptedDescriptor.label)

end Event

/-- Every event stands where the loop looks for it, twelve bytes behind the one before. -/
def Aligned : List (Event ops) → Block → Prop
  | [], _ => True
  | event :: events, memory => event.At memory ∧ Aligned events (memory.drop 12)

section Fields

variable (event : Event ops)

theorem time_fields : readBits 64 event.time 40 0 = event.startTime ∧
    readBits 64 event.time 24 40 = event.duration := by
  have startFits := event.startFits
  have durationFits := event.durationFits
  rw [readBits_low, readBits_low, Event.time]
  omega

theorem word_fields (short : (encodeDescriptors event.descriptors).length < 4096) :
    readBits 16 event.word 3 0 = event.runningStatus ∧
      readBits 16 event.word 1 3 = event.freeCaMode.toNat ∧
      readBits 16 event.word 12 4 = (encodeDescriptors event.descriptors).length := by
  have statusFits := event.statusFits
  have caFits := Bool.toNat_le event.freeCaMode
  rw [readBits_low, readBits_low, readBits_low, Event.word, Event.marks]
  omega

theorem encode_at (behind : Block) (short : (encodeDescriptors event.descriptors).length < 4096) :
    event.At (ofBytes event.encode ++ behind) := by
  have id : Stores16 (ofBytes event.encode ++ behind) 0 event.eventId := ⟨rfl, rfl⟩
  have word : Stores16 (ofBytes event.encode ++ behind) 10 event.word := ⟨rfl, rfl⟩
  have marks := event.marks_fit
  have rest : (ofBytes event.encode ++ behind).drop 12 =
      ofBytes (encodeDescriptors event.descriptors) ++ behind := by
    simp [Event.encode, encodeLoop, encode16, encode64]
  refine ⟨id.read_fits event.idFits, ?_, word.read_fits (by rw [Event.word]; omega), ?_⟩
  · exact read64_stored _ _ _ event.time_fits ⟨rfl, rfl⟩ ⟨rfl, rfl⟩ ⟨rfl, rfl⟩ ⟨rfl, rfl⟩
  · rw [rest]
    exact encodeDescriptors_walked event.descriptors behind

theorem readEvent_at (memory : Block)
    (short : (encodeDescriptors event.descriptors).length < 4096) (here : event.At memory) :
    ∃ node : EventNode D, node.label = event.label ∧
      Yields (readEvent ops memory)
        (node, 12 + (encodeDescriptors event.descriptors).length, 12) := by
  have time := time_fields event
  have word := word_fields event short
  cases parseDescriptors_walked ops here.descriptors with
  | intro parsed found =>
    refine ⟨⟨event.eventId, event.startTime, event.duration, event.runningStatus,
      event.freeCaMode.toNat, (encodeDescriptors event.descriptors).length, parsed⟩,
      by rw [EventNode.label, found.1, Event.label], ?_⟩
    apply yields_read here.eventId
    apply yields_read here.time
    apply yields_read here.word
    dsimp only
    rw [time.1, time.2, word.1, word.2.1, word.2.2]
    exact yields_bind found.2 (yields_pure _)

theorem readEvent_inside (memory : Block) (heap : Heap)
    (result : (EventNode D × Nat × Nat) × Heap)
    (found : readEvent ops memory heap = some result) (same : result.1.1.label = event.label) :
    ∃ length, result.1.2 = (12 + length, 12) ∧
      length ≤ (encodeDescriptors event.descriptors).length ∧
      (length = (encodeDescriptors event.descriptors).length → event.At memory) := by
  rcases lift_bind found with ⟨id, idRead, afterId⟩
  rcases lift_bind afterId with ⟨time, timeRead, afterTime⟩
  rcases lift_bind afterTime with ⟨word, wordRead, afterWord⟩
  rcases Option.bind_eq_some_iff.mp afterWord with ⟨parsed, parsing, ending⟩
  obtain rfl := Option.some.inj ending
  have walked := parseDescriptors_inside ops _ _ _ parsed parsing
  have timeFits := read64_lt memory 2 time timeRead
  have wordFits := read16_lt memory 10 word wordRead
  simp only [EventNode.label, Event.label, EventLabel.mk.injEq] at same
  rw [same.2.2.2.2.2] at walked
  have covered := walked.covers
  rw [← encodeDescriptors_length] at covered
  refine ⟨_, rfl, by exact_mod_cast covered, fun exact => ?_⟩
  rw [exact] at walked
  have fields := same
  simp only [readBits_low] at fields exact
  refine ⟨idRead.trans (congrArg some same.1), timeRead.trans (congrArg some ?_),
    wordRead.trans (congrArg some ?_), walked⟩
  · rw [Event.time]
    omega
  · rw [Event.word, Event.marks, ← fields.2.2.2.1, ← fields.2.2.2.2.1]
    omega

end Fields

def encodeEvents (events : List (Event ops)) : List UInt8 :=
  events.flatMap Event.encode

theorem encodeEvents_cons_length (event : Event ops) (events : List (Event ops)) :
    (encodeEvents (event :: events)).length =
      12 + (encodeDescriptors event.descriptors).length + (encodeEvents events).length := by
  rw [encodeEvents, List.flatMap_cons, List.length_append, event.encode_length, encodeEvents]

theorem nodeLoop_aligned (events : List (Event ops)) (memory : Block)
    (aligned : Aligned events memory) (fits : (encodeEvents events).length ≤ 0x3FD) (turns : Nat)
    (enough : events.length ≤ turns) (before : List (EventNode D)) :
    ∃ nodes, nodes.map EventNode.label = events.map Event.label ∧
      Yields (nodeLoop toUInt16 (readEvent ops) turns memory (encodeEvents events).length before)
        (before ++ nodes, 0) := by
  induction events generalizing memory turns before with
  | nil =>
    refine ⟨[], rfl, ?_⟩
    rw [List.append_nil]
    exact nodeLoop_done toUInt16 (readEvent ops) memory turns before
  | cons event events ih =>
    have total := encodeEvents_cons_length event events
    cases turns with
    | zero => simp at enough
    | succ turns =>
      cases readEvent_at event memory (by omega) aligned.1 with
      | intro node read =>
        cases ih (memory.drop 12) aligned.2 (by omega) turns (by simpa using enough)
          (before ++ [node]) with
        | intro nodes later =>
          refine ⟨node :: nodes, by simp [read.1, later.1], ?_⟩
          have remaining : toUInt16 ((encodeEvents (event :: events)).length -
              (12 + (encodeDescriptors event.descriptors).length : Nat)) =
              (encodeEvents events).length := by
            rw [toUInt16_of_small _ (by omega) (by omega)]
            omega
          rw [nodeLoop]
          apply yields_ite_true (by omega)
          apply yields_allocated
          apply yields_bind read.2
          dsimp only
          rw [remaining, List.append_cons before node nodes]
          exact later.2

-- `slack` is what the lengths read so far fall short of those of their events
theorem nodeLoop_aligns (events : List (Event ops)) (slack : Nat) (memory : Block)
    (fits : (encodeEvents events).length + slack ≤ 0x3FD) (turns : Nat)
    (before nodes : List (EventNode D)) (heap : Heap) (available : heap.Available)
    (result : (List (EventNode D) × Int) × Heap)
    (found : nodeLoop toUInt16 (readEvent ops) turns memory
      ((encodeEvents events).length + slack : Nat) before heap = some result)
    (added : result.1.1 = before ++ nodes)
    (same : nodes.map EventNode.label = events.map Event.label) :
    slack = 0 ∧ Aligned events memory := by
  induction events generalizing slack memory turns before nodes heap with
  | nil =>
    refine ⟨Nat.eq_zero_of_not_pos fun more => ?_, trivial⟩
    rcases nodeLoop_turn toUInt16 (readEvent ops) turns memory _ (by simpa [encodeEvents] using more)
      before heap available result found with ⟨read, middle, rest, -, later⟩
    rcases nodeLoop_extends toUInt16 (readEvent ops) rest _ _ _ middle result later with
      ⟨others, extended⟩
    rw [added, List.append_assoc, List.append_right_inj, List.map_eq_nil_iff.mp same] at extended
    cases extended
  | cons event events ih =>
    have total := encodeEvents_cons_length event events
    rcases nodeLoop_turn toUInt16 (readEvent ops) turns memory _ (by omega) before heap available
      result found with ⟨read, middle, rest, reading, later⟩
    rcases nodeLoop_extends toUInt16 (readEvent ops) rest _ _ _ middle result later with
      ⟨others, extended⟩
    rw [added, List.append_assoc, List.append_right_inj, List.singleton_append] at extended
    rw [extended, List.map_cons, List.map_cons, List.cons.injEq] at same
    rcases readEvent_inside event memory heap.reserve.2 (read, middle) reading same.1 with
      ⟨length, sizes, short, exact⟩
    have remaining : toUInt16 (((encodeEvents (event :: events)).length + slack : Nat) -
        (12 + length : Nat)) = ((encodeEvents events).length +
          (slack + (encodeDescriptors event.descriptors).length - length) : Nat) := by
      rw [toUInt16_of_small _ (by omega) (by omega)]
      omega
    dsimp only at sizes
    rw [sizes, remaining] at later
    have middleAvailable : middle.Available := (readEvent_plain ops memory).available
      heap.reserve.2 (available.of_succeeds rfl) _ reading
    have aligned := ih _ (memory.drop 12) (by omega) rest (before ++ [read.1]) others middle
      middleAvailable later (by rw [added, extended, List.append_cons]) same.2
    exact ⟨by omega, exact (by omega), aligned.2⟩

def Events.body (events : Events ops) : List UInt8 :=
  encode16 events.transportStreamId ++ encode16 events.originalNetworkId ++
    [events.segmentLastSectionNumber, events.lastTableId] ++ encodeEvents events.events

/-- The table says what the events say. -/
structure Events.Decoded (events : Events ops) (eit : Eit D) : Prop where
  transportStreamId : eit.transportStreamId = events.transportStreamId
  originalNetworkId : eit.originalNetworkId = events.originalNetworkId
  segmentLastSectionNumber : eit.segmentLastSectionNumber = events.segmentLastSectionNumber
  lastTableId : eit.lastTableId = events.lastTableId
  events : eit.h.map EventNode.label = events.events.map Event.label

section Eit

variable (events : Events ops) (envelope : Envelope) (fits : events.body.length + 9 ≤ 0x3FD)
include fits

-- the memory of the events and what stands behind them
omit fits in
def Events.memory : Block :=
  ofBytes (encodeEvents events.events) ++ envelope.behind

theorem remaining_events (header : TableHeader)
    (carries : header.Carries envelope events.body.length) :
    toUInt16 (toUInt16 (header.sectionLength - (5 + 4)) - 6) =
      (encodeEvents events.events).length := by
  have size : events.body.length = 6 + (encodeEvents events.events).length := by
    simp only [Events.body, List.length_append, encode16_length, List.length_cons,
      List.length_nil]
  have minuend : (header.sectionLength - (5 + 4) : Int) = events.body.length := by
    rw [carries.sectionLength]
    omega
  rw [minuend, toUInt16_of_small events.body.length (by omega) (by omega),
    toUInt16_of_small _ (by omega) (by omega)]
  omega

theorem parseEit_aligned (aligned : Aligned events.events (events.memory envelope)) :
    Parses (decodeEit ops) {} envelope events.body fun table _ =>
      events.Decoded table.content := by
  have count := nodes_count Event.encode events.events fun event _ => by
    rw [event.encode_length]
    omega
  have turns : events.events.length ≤ (events.memory envelope).length + 1 := by
    rw [Events.memory, List.length_append, ofBytes_length, encodeEvents]
    omega
  have size : (encodeEvents events.events).length ≤ events.body.length := by
    simp only [Events.body, List.length_append]
    omega
  apply parseTable_encoded _ _ _ _ fits
  intro header carries
  let memory := ofBytes events.body ++ envelope.behind
  have id : Stores16 memory 0 events.transportStreamId := ⟨rfl, rfl⟩
  have network : Stores16 memory 2 events.originalNetworkId := ⟨rfl, rfl⟩
  have rest : memory.drop 6 = events.memory envelope := rfl
  cases nodeLoop_aligned events.events (events.memory envelope) aligned (by omega) _ turns [] with
  | intro nodes walked =>
    refine ⟨⟨⟨events.transportStreamId, events.originalNetworkId, events.segmentLastSectionNumber,
      events.lastTableId, nodes⟩, 0, []⟩, ⟨rfl, rfl, rfl, rfl, walked.1⟩, ?_⟩
    apply yields_read (id.read_fits events.idFits)
    apply yields_read (network.read_fits events.networkFits)
    apply yields_read (show _ = some events.segmentLastSectionNumber from rfl)
    apply yields_read (show _ = some events.lastTableId from rfl)
    rw [rest, remaining_events events envelope fits header carries]
    exact yields_bind walked.2 (yields_pure _)

theorem aligned_of_parses (parses : Parses (decodeEit ops) {} envelope events.body
    fun table _ => events.Decoded table.content) :
    Aligned events.events (events.memory envelope) := by
  have size : (encodeEvents events.events).length ≤ events.body.length := by
    simp only [Events.body, List.length_append]
    omega
  rcases parses.decodes fits with ⟨header, carries, given, result, available, decoding, agrees⟩
  rcases lift_bind decoding with ⟨id, -, afterId⟩
  rcases lift_bind afterId with ⟨network, -, afterNetwork⟩
  rcases lift_bind afterNetwork with ⟨segment, -, afterSegment⟩
  rcases lift_bind afterSegment with ⟨last, -, afterLast⟩
  rcases Option.bind_eq_some_iff.mp afterLast with ⟨looped, looping, ending⟩
  have rest : (ofBytes events.body ++ envelope.behind).drop 6 = events.memory envelope := rfl
  rw [rest, remaining_events events envelope fits header carries] at looping
  have same : result.1.content.h = looped.1.1 := by
    rw [← Option.some.inj ending]
  have labels := agrees.events
  rw [same] at labels
  exact (nodeLoop_aligns events.events 0 (events.memory envelope) (by omega) _ [] looped.1.1 given
    available looped looping rfl labels).2

end Eit

-- Only the descriptors of the last event stand behind all that the loop reads at its stride.
theorem aligned_plain (events : List (Event ops)) (last : Event ops) (behind : Block)
    (none : ∀ event ∈ events, event.descriptors = [])
    (short : (encodeDescriptors last.descriptors).length < 4096) :
    Aligned (events ++ [last]) (ofBytes (encodeEvents (events ++ [last])) ++ behind) := by
  induction events with
  | nil => exact ⟨by simpa [encodeEvents] using encode_at last behind short, trivial⟩
  | cons event events ih =>
    have empty : event.descriptors = [] := none event List.mem_cons_self
    have split : ofBytes (encodeEvents (event :: events ++ [last])) ++ behind =
        ofBytes event.encode ++ (ofBytes (encodeEvents (events ++ [last])) ++ behind) := by
      simp [encodeEvents]
    have size : (ofBytes event.encode).length = 12 := by
      rw [ofBytes_length, event.encode_length, empty]
      rfl
    rw [split]
    refine ⟨encode_at event _ (by rw [empty]; exact Nat.zero_lt_succ _), ?_⟩
    rw [List.drop_left' size]
    exact ih fun other inside => none other (List.mem_cons_of_mem event inside)

def presentEvent : Event copyOps :=
  ⟨0x2001, 0xE9A4123000, 0x010000, 3, false, by simp, by simp, by simp, by simp, []⟩

def followingEvent : Event copyOps :=
  ⟨0x2002, 0xE9A4133000, 0x003000, 2, false, by simp, by simp, by simp, by simp,
    [.plain 0x54 [0x10, 0] (by simp)]⟩

def eventsOf (events : List (Event copyOps)) : Events copyOps :=
  ⟨0x0441, 0x2174, 0, 0x4E, by simp, by simp, events⟩

end TsAnalyze.Tables
