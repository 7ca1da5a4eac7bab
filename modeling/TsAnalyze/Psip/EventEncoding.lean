import TsAnalyze.Psip.MgtEncoding

set_option autoImplicit false

namespace TsAnalyze.Psip

open Memory Tables

variable {D : Type}

-- what is compared of an event
structure AtscEventLabel where
  eventId : Nat
  startTime : Nat
  etmLocation : Nat
  lengthInSeconds : Nat
  title : MultipleString
  descriptors : List (UInt8 × UInt8)

def DefineEvent.label (event : DefineEvent D) : AtscEventLabel :=
  ⟨event.eventId, event.startTime, event.etmLocation, event.lengthInSeconds, event.titleText,
    event.list.map Descriptor.label⟩

def noText : MultiText :=
  ⟨[], Nat.zero_le 255⟩

variable (ops : DescriptorOps D)

structure AtscEvent where
  eventId : Nat
  startTime : Nat
  etmLocation : Nat
  lengthInSeconds : Nat
  title : Option MultiText
  descriptors : List (AcceptedDescriptor ops)
  idFits : eventId < 2 ^ 14
  startFits : startTime < 2 ^ 32
  etmFits : etmLocation < 4
  lengthFits : lengthInSeconds < 2 ^ 20
  titleFits : (title.elim [] MultiText.encode).length ≤ 255

structure AtscEvents where
  protocolVersion : UInt8
  events : List (AtscEvent ops)

variable {ops}

-- the title_length that stands in an event
def titleLengthAt (memory : Block) : Nat :=
  readBits 32 ((read32 memory 6).getD 0) 8 24

def behindTitle (memory : Block) : Block :=
  memory.drop (10 + titleLengthAt memory)

def descriptorsLengthAt (memory : Block) : Nat :=
  readBits 16 ((read16 memory 0).getD 0) 12 4

namespace AtscEvent

variable (event : AtscEvent ops)

-- an event without a title says nothing
def text : MultiText :=
  event.title.getD noText

def label : AtscEventLabel :=
  ⟨event.eventId, event.startTime, event.etmLocation, event.lengthInSeconds, event.text.stored,
    event.descriptors.map AcceptedDescriptor.label⟩

def titleBytes : List UInt8 :=
  event.title.elim [] MultiText.encode

def word : Nat :=
  3 * 2 ^ 30 + event.etmLocation * 2 ^ 28 + event.lengthInSeconds * 2 ^ 8 +
    event.titleBytes.length

def encode : List UInt8 :=
  encode16 (3 * 2 ^ 14 + event.eventId) ++ encode32 event.startTime ++ encode32 event.word ++
    event.titleBytes ++ encodeLoop 15 event.descriptors

/-- The event is what the decoder finds in this memory: its fields, its title ten bytes on, and
where title_length leads to a length and descriptors with the tags and lengths of its own. -/
structure At (memory : Block) : Prop where
  eventId : (read16 memory 0).map (readBits 16 · 14 2) = some event.eventId
  startTime : read32 memory 2 = some event.startTime
  etmLocation : (read32 memory 6).map (readBits 32 · 2 2) = some event.etmLocation
  lengthInSeconds : (read32 memory 6).map (readBits 32 · 20 4) = some event.lengthInSeconds
  title : Stands (memory.drop 10) event.text.encode
  length : (read16 (behindTitle memory) 0).isSome = true
  descriptors : Walked ops ((behindTitle memory).drop 2) (descriptorsLengthAt (behindTitle memory))
    (event.descriptors.map AcceptedDescriptor.label)

end AtscEvent

/-- Every event stands where the loop looks for it, right behind the title and the length of the
descriptors of the one before. -/
def AtscAligned : List (AtscEvent ops) → Block → Prop
  | [], _ => True
  | event :: events, memory =>
      event.At memory ∧ AtscAligned events (memory.drop (12 + titleLengthAt memory))

section Event

variable (event : AtscEvent ops)

theorem readAtscEvent_at (memory : Block) (here : event.At memory) :
    ∃ node : DefineEvent D, node.label = event.label ∧
      Yields (readAtscEvent ops memory) (node, 12 + titleLengthAt memory) := by
  obtain ⟨idWord, idRead, id⟩ := Option.map_eq_some_iff.mp here.eventId
  obtain ⟨word, wordRead, etm⟩ := Option.map_eq_some_iff.mp here.etmLocation
  obtain ⟨same, sameRead, seconds⟩ := Option.map_eq_some_iff.mp here.lengthInSeconds
  obtain ⟨lengthWord, lengthRead⟩ := Option.isSome_iff_exists.mp here.length
  obtain ⟨behind, title⟩ := here.title
  have titleLength : readBits 32 word 8 24 = titleLengthAt memory := by
    rw [titleLengthAt, wordRead, Option.getD_some]
  have length : readBits 16 lengthWord 12 4 = descriptorsLengthAt (behindTitle memory) := by
    rw [descriptorsLengthAt, lengthRead, Option.getD_some]
  rw [wordRead] at sameRead
  obtain rfl := Option.some.inj sameRead
  cases parseDescriptors_walked ops here.descriptors with
  | intro parsed found =>
    refine ⟨⟨event.eventId, event.startTime, event.etmLocation, event.lengthInSeconds,
      titleLengthAt memory, event.text.stored, descriptorsLengthAt (behindTitle memory), parsed⟩,
      by rw [DefineEvent.label, found.1, AtscEvent.label], ?_⟩
    apply yields_read idRead
    apply yields_read here.startTime
    apply yields_read wordRead
    rw [title]
    apply yields_bind (parseMultiString_encoded event.text behind)
    dsimp only
    rw [titleLength, ← behindTitle]
    apply yields_read lengthRead
    rw [length, id, etm, seconds]
    apply yields_bind found.2
    exact yields_pure _

theorem readAtscEvent_inside (memory : Block) (heap : Heap) (available : heap.Available)
    (result : (DefineEvent D × Nat) × Heap) (found : readAtscEvent ops memory heap = some result)
    (same : result.1.1.label = event.label) :
    event.At memory ∧ result.1.2 = 12 + titleLengthAt memory := by
  obtain ⟨idWord, idRead, found⟩ := lift_bind found
  obtain ⟨startTime, startRead, found⟩ := lift_bind found
  obtain ⟨word, wordRead, found⟩ := lift_bind found
  obtain ⟨⟨title, middle⟩, titleRead, found⟩ := Option.bind_eq_some_iff.mp found
  obtain ⟨lengthWord, lengthRead, found⟩ := lift_bind found
  obtain ⟨⟨list, after⟩, listed, ending⟩ := Option.bind_eq_some_iff.mp found
  cases ending
  have walked := parseDescriptors_inside ops _ _ _ (list, after) listed
  have titleLength : readBits 32 word 8 24 = titleLengthAt memory := by
    rw [titleLengthAt, wordRead, Option.getD_some]
  rw [titleLength, ← behindTitle] at lengthRead walked
  have length : readBits 16 lengthWord 12 4 = descriptorsLengthAt (behindTitle memory) := by
    rw [descriptorsLengthAt, lengthRead, Option.getD_some]
  simp only [DefineEvent.label, AtscEvent.label, AtscEventLabel.mk.injEq] at same
  obtain ⟨id, start, etm, seconds, text, labels⟩ := same
  rw [length, labels] at walked
  refine ⟨⟨?_, ?_, ?_, ?_, ?_, ?_, walked⟩, by rw [titleLength]⟩
  · rw [idRead, Option.map_some, id]
  · rw [startRead, start]
  · rw [wordRead, Option.map_some, etm]
  · rw [wordRead, Option.map_some, seconds]
  · exact parseMultiString_stands event.text _ heap available (title, middle) titleRead text
  · rw [lengthRead, Option.isSome_some]

end Event

namespace AtscEvent

theorem encode_length (event : AtscEvent ops) : event.encode.length =
    12 + event.titleBytes.length + (encodeDescriptors event.descriptors).length := by
  simp only [encode, encodeLoop, List.length_append, encode16_length, encode32_length]
  omega

theorem word_fields (event : AtscEvent ops) : event.word < 2 ^ 32 ∧
    readBits 32 event.word 2 2 = event.etmLocation ∧
    readBits 32 event.word 20 4 = event.lengthInSeconds ∧
    readBits 32 event.word 8 24 = event.titleBytes.length := by
  have etmFits := event.etmFits
  have lengthFits := event.lengthFits
  have titleFits : event.titleBytes.length ≤ 255 := event.titleFits
  simp only [readBits_low, word]
  omega

section Encoded

variable (event : AtscEvent ops) (behind : Block)

theorem word_read : read32 (ofBytes event.encode ++ behind) 6 = some event.word := by
  rw [read32_stored _ 6 event.word ⟨rfl, rfl⟩ ⟨rfl, rfl⟩, Nat.mod_eq_of_lt event.word_fields.1]

theorem titleLengthAt_encoded :
    titleLengthAt (ofBytes event.encode ++ behind) = event.titleBytes.length := by
  rw [titleLengthAt, event.word_read, Option.getD_some, event.word_fields.2.2.2]

theorem behindTitle_encoded : behindTitle (ofBytes event.encode ++ behind) =
    ofBytes (encodeLoop 15 event.descriptors) ++ behind := by
  have fixed : (ofBytes event.encode ++ behind).drop 10 =
      ofBytes event.titleBytes ++ (ofBytes (encodeLoop 15 event.descriptors) ++ behind) := by
    simp [encode, encode16, encode32]
  rw [behindTitle, event.titleLengthAt_encoded, ← List.drop_drop, fixed]
  exact List.drop_left' (ofBytes_length _)

theorem encode_at (text : MultiText) (titled : event.title = some text)
    (short : (encodeDescriptors event.descriptors).length < 2 ^ 12) :
    event.At (ofBytes event.encode ++ behind) := by
  have idFits := event.idFits
  have id : Stores16 (ofBytes event.encode ++ behind) 0 (3 * 2 ^ 14 + event.eventId) := ⟨rfl, rfl⟩
  have fields := event.word_fields
  have title : event.titleBytes = event.text.encode := by
    rw [AtscEvent.titleBytes, AtscEvent.text, titled, Option.elim_some, Option.getD_some]
  obtain ⟨lengthWord, lengthRead, length⟩ := readLoop_encoded event.descriptors behind short
  constructor
  · rw [id.read_fits (by omega), Option.map_some]
    exact congrArg some (length_bits 3 event.eventId 14 (by omega) idFits)
  · rw [read32_stored _ 2 event.startTime ⟨rfl, rfl⟩ ⟨rfl, rfl⟩, Nat.mod_eq_of_lt event.startFits]
  · rw [event.word_read, Option.map_some, fields.2.1]
  · rw [event.word_read, Option.map_some, fields.2.2.1]
  · refine ⟨ofBytes (encodeLoop 15 event.descriptors) ++ behind, ?_⟩
    simp [encode, encode16, encode32, title]
  · rw [event.behindTitle_encoded, lengthRead, Option.isSome_some]
  · rw [event.behindTitle_encoded, descriptorsLengthAt, lengthRead, Option.getD_some, length]
    exact encodeDescriptors_walked event.descriptors behind

-- The length of the descriptors, behind four set bits, is read as the title that is missing.
theorem untitled_not_at (untitled : event.title = none)
    (short : (encodeDescriptors event.descriptors).length < 2 ^ 12) :
    ¬event.At (ofBytes event.encode ++ behind) := by
  intro here
  obtain ⟨rest, title⟩ := here.title
  have fixed : (ofBytes event.encode ++ behind).drop 10 =
      ofBytes (encodeLoop 15 event.descriptors) ++ behind := by
    simp [encode, encode16, encode32, titleBytes, untitled]
  rw [fixed, AtscEvent.text, untitled, Option.getD_none] at title
  have first := congrArg (read8 · 0) title
  have byte : UInt8.ofNat ((15 * 2 ^ 12 + (encodeDescriptors event.descriptors).length) / 256) =
      0 := Option.some.inj first
  have number := congrArg UInt8.toNat byte
  rw [UInt8.toNat_ofNat', UInt8.toNat_zero] at number
  omega

end Encoded

end AtscEvent

theorem eventLoop_aligned (events : List (AtscEvent ops)) (memory : Block)
    (aligned : AtscAligned events memory) :
    ∃ nodes, nodes.map DefineEvent.label = events.map AtscEvent.label ∧
      ∃ rest, Yields (countedLoop (readAtscEvent ops) events.length memory) (nodes, rest) := by
  induction events generalizing memory with
  | nil => exact ⟨[], rfl, memory, yields_pure _⟩
  | cons event events ih =>
    cases readAtscEvent_at event memory aligned.1 with
    | intro node read =>
      obtain ⟨nodes, labels, rest, later⟩ := ih _ aligned.2
      refine ⟨node :: nodes, by simp [read.1, labels], rest, ?_⟩
      apply yields_bind read.2
      apply yields_bind later
      exact yields_pure _

theorem eventLoop_aligns (events : List (AtscEvent ops)) (memory : Block) (heap : Heap)
    (available : heap.Available) (result : (List (DefineEvent D) × Block) × Heap)
    (found : countedLoop (readAtscEvent ops) events.length memory heap = some result)
    (same : result.1.1.map DefineEvent.label = events.map AtscEvent.label) :
    AtscAligned events memory := by
  induction events generalizing memory heap result with
  | nil => trivial
  | cons event events ih =>
    obtain ⟨⟨read, middle⟩, reading, found⟩ := Option.bind_eq_some_iff.mp found
    obtain ⟨⟨rest, after⟩, looping, ending⟩ := Option.bind_eq_some_iff.mp found
    cases ending
    rw [List.map_cons, List.map_cons, List.cons.injEq] at same
    have here := readAtscEvent_inside event memory heap available (read, middle) reading same.1
    have middleAvailable := (readAtscEvent_plain ops memory).available heap available _ reading
    have advance : read.2 = 12 + titleLengthAt memory := here.2
    rw [advance] at looping
    exact ⟨here.1, ih _ middle middleAvailable (rest, after) looping same.2⟩

namespace AtscEvents

variable (table : AtscEvents ops)

def body : List UInt8 :=
  [table.protocolVersion, UInt8.ofNat table.events.length] ++
    table.events.flatMap AtscEvent.encode

/-- The table says what the events say. -/
structure Decoded (eit : AtscEit D) : Prop where
  protocolVersion : eit.protocolVersion = table.protocolVersion
  events : eit.events.map (List.map DefineEvent.label) = some (table.events.map AtscEvent.label)

-- the memory of the events and what stands behind them
def memory (envelope : Envelope) : Block :=
  ofBytes (table.events.flatMap AtscEvent.encode) ++ envelope.behind

theorem events_few : 12 * table.events.length ≤ table.body.length := by
  have events := nodes_size AtscEvent.encode table.events 12 fun event _ => by
    rw [event.encode_length]
    omega
  rw [body, List.length_append]
  omega

end AtscEvents

section Eit

variable (table : AtscEvents ops) (envelope : Envelope) (fits : table.body.length + 9 ≤ 0x3FD)
include fits

theorem parseAtscEit_aligned (aligned : AtscAligned table.events (table.memory envelope)) :
    Parses (decodeAtscEit ops) {} envelope table.body fun read _ => table.Decoded read.content := by
  have few := table.events_few
  have count := byte_of_length table.events.length (by omega)
  have rest : (ofBytes table.body ++ envelope.behind).drop 2 = table.memory envelope := rfl
  apply parseTable_encoded _ _ _ _ fits
  intro header carries
  obtain ⟨nodes, labels, behind, looped⟩ := eventLoop_aligned table.events _ aligned
  refine ⟨⟨⟨table.protocolVersion, UInt8.ofNat table.events.length, some nodes⟩, 0, []⟩,
    ⟨rfl, congrArg some labels⟩, ?_⟩
  apply yields_read (show _ = some () from rfl)
  apply yields_read (show _ = some table.protocolVersion from rfl)
  apply yields_read (show _ = some (UInt8.ofNat table.events.length) from rfl)
  apply yields_allocated
  rw [count, rest]
  apply yields_bind looped
  exact yields_pure _

theorem aligned_of_parseAtscEit (parses : Parses (decodeAtscEit ops) {} envelope table.body
    fun read _ => table.Decoded read.content) :
    AtscAligned table.events (table.memory envelope) := by
  have few := table.events_few
  have count := byte_of_length table.events.length (by omega)
  have rest : (ofBytes table.body ++ envelope.behind).drop 2 = table.memory envelope := rfl
  obtain ⟨header, carries, given, result, available, decoding, agrees⟩ := parses.decodes fits
  obtain ⟨freed, -, decoding⟩ := lift_bind decoding
  obtain ⟨protocolVersion, -, decoding⟩ := lift_bind decoding
  obtain ⟨numEvents, numRead, decoding⟩ := lift_bind decoding
  have number : numEvents = UInt8.ofNat table.events.length := (Option.some.inj numRead).symm
  have later := allocated_bind available decoding
  obtain ⟨looped, looping, ending⟩ := Option.bind_eq_some_iff.mp later.1
  rw [number, count, rest] at looping
  have events : result.1.content.events = some looped.1.1 := by rw [← Option.some.inj ending]
  have labels := agrees.events
  rw [events, Option.map_some] at labels
  exact eventLoop_aligns table.events _ _ later.2 looped looping (Option.some.inj labels)

theorem parseAtscEit_encoded_iff :
    (Parses (decodeAtscEit ops) {} envelope table.body fun read _ => table.Decoded read.content) ↔
      AtscAligned table.events (table.memory envelope) :=
  ⟨aligned_of_parseAtscEit table envelope fits, parseAtscEit_aligned table envelope fits⟩

end Eit

-- Where every event has a title, only the descriptors of the last one may be there.
theorem atscAligned_plain (events : List (AtscEvent ops)) (last : AtscEvent ops) (behind : Block)
    (plain : ∀ event ∈ events, event.title.isSome = true ∧ event.descriptors = [])
    (titled : last.title.isSome = true)
    (short : (encodeDescriptors last.descriptors).length < 2 ^ 12) :
    AtscAligned (events ++ [last])
      (ofBytes ((events ++ [last]).flatMap AtscEvent.encode) ++ behind) := by
  induction events with
  | nil =>
    obtain ⟨text, title⟩ := Option.isSome_iff_exists.mp titled
    exact ⟨by simpa using last.encode_at behind text title short, trivial⟩
  | cons event events ih =>
    obtain ⟨some, empty⟩ := plain event List.mem_cons_self
    obtain ⟨text, title⟩ := Option.isSome_iff_exists.mp some
    have split : ofBytes ((event :: events ++ [last]).flatMap AtscEvent.encode) ++ behind =
        ofBytes event.encode ++
          (ofBytes ((events ++ [last]).flatMap AtscEvent.encode) ++ behind) := by
      simp
    have size : (ofBytes event.encode).length = 12 + event.titleBytes.length := by
      rw [ofBytes_length, event.encode_length, empty]
      rfl
    rw [split]
    refine ⟨event.encode_at _ text title (by rw [empty]; exact Nat.two_pow_pos 12), ?_⟩
    rw [event.titleLengthAt_encoded, List.drop_left' size]
    exact ih fun other inside => plain other (List.mem_cons_of_mem event inside)

def newsEvent : AtscEvent copyOps :=
  ⟨1, 0x4F5C2C00, 0, 1800, some (plainText [0x4E, 0x65, 0x77, 0x73] (by simp)), [], by simp, by simp,
    by simp, by simp, by decide⟩

def ratedEvent : AtscEvent copyOps :=
  ⟨2, 0x4F5C3308, 1, 3600, some (plainText [0x46, 0x69, 0x6C, 0x6D] (by simp)),
    [.plain 0x87 [0xC1, 1, 1] (by simp)], by simp, by simp, by simp, by simp, by decide⟩

theorem parseAtscEit_encoded_last :
    Parses (decodeAtscEit copyOps) {} (psipEnvelope 0xCB)
      (AtscEvents.body ⟨0, [newsEvent, ratedEvent]⟩) fun read _ =>
        AtscEvents.Decoded ⟨0, [newsEvent, ratedEvent]⟩ read.content :=
  (parseAtscEit_encoded_iff ⟨0, [newsEvent, ratedEvent]⟩ (psipEnvelope 0xCB) (by decide)).mpr
    (atscAligned_plain [newsEvent] ratedEvent _ (by simp [newsEvent]) rfl (by decide))

def untitledEvent : AtscEvent copyOps :=
  ⟨3, 0x4F5C4118, 0, 900, none, [], by simp, by simp, by simp, by simp, by decide⟩

-- the second event is read from the descriptor of the first, and a missing title is not skipped
theorem parseAtscEit_misaligned :
    (¬Parses (decodeAtscEit copyOps) {} (psipEnvelope 0xCB)
      (AtscEvents.body ⟨0, [ratedEvent, newsEvent]⟩) fun read _ =>
        AtscEvents.Decoded ⟨0, [ratedEvent, newsEvent]⟩ read.content) ∧
    ¬Parses (decodeAtscEit copyOps) {} (psipEnvelope 0xCB)
      (AtscEvents.body ⟨0, [untitledEvent]⟩) fun read _ =>
        AtscEvents.Decoded ⟨0, [untitledEvent]⟩ read.content := by
  constructor
  · intro parses
    have aligned := aligned_of_parseAtscEit ⟨0, [ratedEvent, newsEvent]⟩ (psipEnvelope 0xCB)
      (by decide) parses
    have second := aligned.2.1.startTime
    revert second
    decide
  · intro parses
    have aligned := aligned_of_parseAtscEit ⟨0, [untitledEvent]⟩ (psipEnvelope 0xCB)
      (by decide) parses
    have here : untitledEvent.At
        (ofBytes untitledEvent.encode ++ (psipEnvelope 0xCB).behind) := aligned.1
    exact untitledEvent.untitled_not_at _ rfl (by decide) here

end TsAnalyze.Psip
