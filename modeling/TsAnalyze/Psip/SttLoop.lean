import TsAnalyze.Psip.MgtEncoding

set_option autoImplicit false

namespace TsAnalyze.Psip

open Memory Tables

variable {D : Type} (ops : DescriptorOps D)

section Loop

-- without a turn nothing but the empty list is left
theorem sttLoop_ends (turns : Nat) (pdata : Block) (sectionLen : Int)
    (list : List (Descriptor D)) (heap : Heap) (result : List (Descriptor D) × Heap)
    (found : sttLoop ops turns pdata sectionLen list heap = some result) :
    sectionLen ≤ 0 ∧ result.1 = list := by
  induction turns generalizing list heap with
  | zero =>
    rw [sttLoop] at found
    split at found
    · cases found
    · rename_i used
      cases found
      exact ⟨not_lt.mp used, rfl⟩
  | succ turns ih =>
    rw [sttLoop] at found
    split at found
    · rename_i more
      obtain ⟨parsed, -, later⟩ := Option.bind_eq_some_iff.mp found
      have again := ih parsed.1 parsed.2 later
      omega
    · rename_i used
      cases found
      exact ⟨not_lt.mp used, rfl⟩

section Turns

variable {ops} (list : List (AcceptedDescriptor ops)) (behind : Block)
  (more : 0 < (encodeDescriptors list).length)
include more

-- a turn reads all the descriptors, and the next one starts from the same remainder
theorem sttLoop_turn (before : List (Descriptor D)) (heap : Heap) (available : heap.Available) :
    ∃ read after, read.map Descriptor.label = list.map AcceptedDescriptor.label ∧
      after.Available ∧
      ∀ turns, sttLoop ops (turns + 1) (ofBytes (encodeDescriptors list) ++ behind)
          (encodeDescriptors list).length before heap =
        sttLoop ops turns (ofBytes (encodeDescriptors list) ++ behind)
          (encodeDescriptors list).length read after := by
  obtain ⟨read, labels, yields⟩ := parseDescriptors_encoded list behind
  obtain ⟨after, parsing, supply⟩ := yields heap available
  refine ⟨read, after, labels, available.of_succeeds supply, fun turns => ?_⟩
  rw [sttLoop, if_pos (by exact_mod_cast more), Int.toNat_natCast]
  change (parseDescriptors ops [] _ _ heap).bind _ = _
  rw [parsing, Option.bind_some]

/-- No turn fails, and after any number of them the loop is where it was. -/
theorem sttLoop_turns (done : Nat) (before : List (Descriptor D)) (heap : Heap)
    (available : heap.Available) :
    ∃ read after, after.Available ∧
      ∀ turns, sttLoop ops (turns + done) (ofBytes (encodeDescriptors list) ++ behind)
          (encodeDescriptors list).length before heap =
        sttLoop ops turns (ofBytes (encodeDescriptors list) ++ behind)
          (encodeDescriptors list).length read after := by
  induction done generalizing before heap with
  | zero => exact ⟨before, heap, available, fun turns => rfl⟩
  | succ done ih =>
    obtain ⟨middle, between, -, betweenAvailable, turn⟩ :=
      sttLoop_turn list behind more before heap available
    obtain ⟨read, after, afterAvailable, later⟩ := ih middle between betweenAvailable
    refine ⟨read, after, afterAvailable, fun turns => ?_⟩
    rw [← Nat.add_assoc, turn, later]

end Turns

end Loop

section Plain

theorem sttLoop_plain (turns : Nat) (pdata : Block) (sectionLen : Int)
    (list : List (Descriptor D)) : Plain (sttLoop ops turns pdata sectionLen list) := by
  induction turns generalizing list with
  | zero => exact plain_ite _ _ _ plain_failure (plain_pure _)
  | succ turns ih =>
    rw [sttLoop]
    apply plain_ite
    · apply plain_bind _ _ (parseDescriptors_plain ops _ _ _)
      intro parsed
      exact ih parsed
    · exact plain_pure _

theorem decodeStt_plain (turns : Nat) (header : TableHeader) (pdata : Block) (stt : Stt D) :
    Plain (decodeStt ops turns header pdata stt) := by
  apply plain_bind _ _ (plain_lift _)
  intro protocolVersion
  apply plain_bind _ _ (plain_lift _)
  intro systemTime
  apply plain_bind _ _ (plain_lift _)
  intro gpsUtcOffset
  apply plain_bind _ _ (plain_lift _)
  intro daylightSaving
  apply plain_bind _ _ (plain_lift _)
  intro freed
  apply plain_bind _ _ (sttLoop_plain ops _ _ _ _)
  intro list
  exact plain_pure _

end Plain

theorem decodeStt_list (turns : Nat) (header : TableHeader) (pdata : Block) (stt : Stt D)
    (heap : Heap) (result : Tables.Decoded (Stt D) × Heap)
    (found : decodeStt ops turns header pdata stt heap = some result) :
    result.1.content.list = [] := by
  obtain ⟨protocolVersion, -, found⟩ := lift_bind found
  obtain ⟨systemTime, -, found⟩ := lift_bind found
  obtain ⟨gpsUtcOffset, -, found⟩ := lift_bind found
  obtain ⟨daylightSaving, -, found⟩ := lift_bind found
  obtain ⟨freed, -, found⟩ := lift_bind found
  obtain ⟨⟨list, after⟩, looping, ending⟩ := Option.bind_eq_some_iff.mp found
  cases ending
  exact (sttLoop_ends ops _ _ _ _ _ (list, after) looping).2

structure SystemTime where
  protocolVersion : UInt8
  systemTime : Nat
  gpsUtcOffset : UInt8
  daylightSaving : Nat
  timeFits : systemTime < 2 ^ 32
  savingFits : daylightSaving < 65536
  descriptors : List (AcceptedDescriptor ops)

variable {ops}

def SystemTime.body (time : SystemTime ops) : List UInt8 :=
  [time.protocolVersion] ++ encode32 time.systemTime ++ [time.gpsUtcOffset] ++
    encode16 time.daylightSaving ++ encodeDescriptors time.descriptors

theorem SystemTime.body_length (time : SystemTime ops) :
    time.body.length = 8 + (encodeDescriptors time.descriptors).length := by
  simp only [body, List.length_append, encode16_length, encode32_length, List.length_singleton]

-- parse_stt of a section, as far as so many turns lead
def parseStt (turns : Nat) (time : SystemTime ops) (envelope : Envelope) (heap : Heap)
    (table : Table (Stt D)) : Option (Handled (Table (Stt D))) :=
  parseTable (decodeStt ops turns) heap (ofBytes (envelope.encode time.body))
    (envelope.encode time.body).length table

/-- parse_stt ends, and the list holds the descriptors of the section. -/
def SystemTime.Ends (time : SystemTime ops) (envelope : Envelope) (heap : Heap)
    (table : Table (Stt D)) : Prop :=
  ∃ turns handled, parseStt turns time envelope heap table = some handled ∧
    handled.table.content.list.map Descriptor.label =
      time.descriptors.map AcceptedDescriptor.label

variable (ops) in
/-- The states that sections which parse_stt has come to the end of leave behind. -/
inductive SttReached : Heap → Table (Stt D) → Prop
  | initial (heap : Heap) (available : heap.Available) : SttReached heap { content := {} }
  | parsed (heap : Heap) (table : Table (Stt D)) (before : SttReached heap table)
      (time : SystemTime ops) (envelope : Envelope) (fits : time.body.length + 9 < 4096)
      (turns : Nat) (handled : Handled (Table (Stt D)))
      (found : parseStt turns time envelope heap table = some handled) :
      SttReached handled.heap handled.table

/-- What holds in all of them: no descriptor is there, and a section 0 has been seen or there is
no data yet. -/
structure SttSettled (heap : Heap) (table : Table (Stt D)) : Prop where
  available : heap.Available
  list : table.content.list = []
  header : bitmap64Get table.header.sectionBitmap 0 = true ∨
    bitmap64Get table.header.sectionBitmap 0 = false ∧ table.header.privateDataByte = none

section Settled

variable {heap : Heap} {table : Table (Stt D)} (settled : SttSettled heap table)
  (time : SystemTime ops) (envelope : Envelope) (fits : time.body.length + 9 < 4096)
  (turns : Nat)
include settled fits

theorem parseStt_settles (handled : Handled (Table (Stt D)))
    (found : parseStt turns time envelope heap table = some handled) :
    SttSettled handled.heap handled.table := by
  rw [parseStt] at found
  by_cases long : 0x3FD < time.body.length + 9
  · rw [parseTable_tooLong _ heap table envelope time.body long fits] at found
    cases found
    exact ⟨settled.available, settled.list, settled.header⟩
  · have short : time.body.length + 9 ≤ 0x3FD := not_lt.mp long
    cases settled.header with
    | inl seen =>
      have refused := parseTable_duplicate heap table (envelope.toSection time.body short)
        (decodeStt ops turns) seen
      obtain rfl := Option.some.inj (refused.symm.trans found)
      exact ⟨settled.available, settled.list, Or.inl seen⟩
    | inr unseen =>
      obtain ⟨given, givenAvailable, parsed⟩ := parseTable_completed (decodeStt ops turns) heap
        settled.available table unseen.1 unseen.2 envelope time.body short
      rw [parsed] at found
      obtain ⟨result, decoding, same⟩ := Option.map_eq_some_iff.mp found
      cases same
      have stored : bitmap64Get (bitmap64Set table.header.sectionBitmap 0) 0 = true := by
        rw [bitmap64Get_set]
        simp
      exact ⟨(decodeStt_plain ops turns _ _ _).available given givenAvailable result decoding,
        decodeStt_list ops turns _ _ _ given result decoding, Or.inl stored⟩

omit fits in
theorem parseStt_empty (empty : time.descriptors = []) : time.Ends envelope heap table := by
  have size : time.body.length = 8 := by
    rw [time.body_length, empty]
    rfl
  have short : time.body.length + 9 ≤ 0x3FD := by omega
  have none : ([] : List (Descriptor D)).map Descriptor.label =
      time.descriptors.map AcceptedDescriptor.label := by rw [empty]; rfl
  cases settled.header with
  | inl seen =>
    have refused := parseTable_duplicate heap table (envelope.toSection time.body short)
      (decodeStt ops 0) seen
    exact ⟨0, _, refused, by rw [← none, ← settled.list]⟩
  | inr unseen =>
    obtain ⟨given, available, parsed⟩ := parseTable_completed (decodeStt ops 0) heap
      settled.available table unseen.1 unseen.2 envelope time.body short
    let header := completed heap table.header (envelope.toSection time.body short)
    let memory := ofBytes time.body ++ envelope.behind
    have seconds : read32 memory 1 = some time.systemTime := by
      rw [read32_stored memory 1 time.systemTime ⟨rfl, rfl⟩ ⟨rfl, rfl⟩,
        Nat.mod_eq_of_lt time.timeFits]
    have saving : Stores16 memory 6 time.daylightSaving := ⟨rfl, rfl⟩
    have length : header.sectionLength = time.body.length + 9 := rfl
    have remaining : toUInt16 (toUInt16 (header.sectionLength - (5 + 4)) - 8) = 0 := by
      rw [length, size]
      rfl
    have yields : Yields (decodeStt ops 0 header memory table.content)
        { content := ⟨time.protocolVersion, time.systemTime, time.gpsUtcOffset,
          time.daylightSaving, []⟩ } := by
      apply yields_read (show _ = some time.protocolVersion from rfl)
      apply yields_read seconds
      apply yields_read (show _ = some time.gpsUtcOffset from rfl)
      apply yields_read (saving.read_fits time.savingFits)
      apply yields_read (show _ = some () by rw [settled.list]; rfl)
      rw [remaining]
      apply yields_bind (yields_ite_false (lt_irrefl 0) (yields_pure _))
      exact yields_pure _
    obtain ⟨after, decoding, -⟩ := yields given available
    exact ⟨0, _, by rw [parseStt, parsed, decoding, Option.map_some], none⟩

end Settled

theorem SttReached.settled {heap : Heap} {table : Table (Stt D)}
    (reached : SttReached ops heap table) : SttSettled heap table := by
  induction reached with
  | initial heap available =>
    exact ⟨available, rfl, Or.inr ⟨bitmap64Get_empty 0, rfl⟩⟩
  | parsed heap table before time envelope fits turns handled found ih =>
    exact parseStt_settles ih time envelope fits turns handled found

/-- Whatever has been parsed before, parse_stt ends as it should on no other sections than those
without descriptors. -/
theorem parseStt_ends_iff {heap : Heap} {table : Table (Stt D)}
    (reached : SttReached ops heap table) (time : SystemTime ops) (envelope : Envelope)
    (fits : time.body.length + 9 < 4096) :
    time.Ends envelope heap table ↔ time.descriptors = [] := by
  constructor
  · intro ends
    obtain ⟨turns, handled, found, labels⟩ := ends
    have after := parseStt_settles reached.settled time envelope fits turns handled found
    rw [after.list, List.map_nil] at labels
    exact List.map_eq_nil_iff.mp labels.symm
  · exact parseStt_empty reached.settled time envelope

def timeOf (descriptors : List (AcceptedDescriptor copyOps)) : SystemTime copyOps :=
  ⟨0, 0x4F5C4F28, 16, 0x6000, by simp, by simp, descriptors⟩

theorem parseStt_ends_first :
    (timeOf []).Ends (psipEnvelope 0xCD) Heap.empty { content := {} } :=
  (parseStt_ends_iff (.initial Heap.empty Heap.empty_available) (timeOf []) (psipEnvelope 0xCD)
    (by decide)).mpr rfl

-- daylight saving time with an empty descriptor behind it
theorem parseStt_diverges :
    ¬(timeOf [.plain 0x80 [] (by simp)]).Ends (psipEnvelope 0xCD) Heap.empty
      { content := {} } := by
  intro ends
  obtain ⟨turns, handled, found, labels⟩ := ends
  have fresh : SttReached copyOps Heap.empty { content := {} } :=
    .initial Heap.empty Heap.empty_available
  have after := parseStt_settles fresh.settled _ (psipEnvelope 0xCD) (by decide) turns handled
    found
  rw [after.list] at labels
  cases labels

end TsAnalyze.Psip
