import TsAnalyze.Scte.Splice

set_option autoImplicit false

namespace TsAnalyze.Scte

open Memory Tables

/-- A time of the 90 kHz clock. -/
structure Pts where
  value : Nat
  fits : value < 2 ^ 33

structure Utc where
  seconds : Nat
  fits : seconds < 2 ^ 32

structure Break where
  autoReturn : Bool
  duration : Nat
  fits : duration < 2 ^ 33

-- splice_time, which need not specify a time; reserved bits are set
def encodeTime : Option Pts → List UInt8
  | none => [0x7F]
  | some pts => [UInt8.ofNat (2 ^ 7 + 63 * 2 + pts.value / 2 ^ 32)] ++ encode32 pts.value

-- without a time the last reserved bit is kept as pts_time_h
def storedTime : Option Pts → SpliceTime
  | none => ⟨0, 1, 0⟩
  | some pts => ⟨1, pts.value / 2 ^ 32, pts.value % 2 ^ 32⟩

namespace Break

def encode (pause : Break) : List UInt8 :=
  [UInt8.ofNat (pause.autoReturn.toNat * 2 ^ 7 + 63 * 2 + pause.duration / 2 ^ 32)] ++
    encode32 pause.duration

def stored (pause : Break) : BreakDuration :=
  ⟨pause.autoReturn.toNat, pause.duration / 2 ^ 32, pause.duration % 2 ^ 32⟩

end Break

/-- How the time of an event or of a component is sent and stored. -/
structure TimeCode (T : Type) where
  encode : T → List UInt8
  stored : T → SpliceAt

def utcCode : TimeCode Utc :=
  ⟨fun utc => encode32 utc.seconds, fun utc => .utc utc.seconds⟩

def ptsCode : TimeCode (Option Pts) :=
  ⟨encodeTime, fun time => .time (storedTime time)⟩

-- a splice that is immediate has no time
def immediateCode : TimeCode Unit :=
  ⟨fun _ => [], fun _ => .zero⟩

/-- The whole program is spliced, or these components. -/
inductive Splicing (T : Type)
  | program (time : T)
  | components (list : List (UInt8 × T)) (few : list.length ≤ 255)

/-- What an event says that is not cancelled. -/
structure Avail (T : Type) where
  outOfNetwork : Bool
  splicing : Splicing T
  duration : Option Break
  uniqueProgramId : Nat
  availNum : UInt8
  availsExpected : UInt8
  programFits : uniqueProgramId < 65536

namespace Splicing

variable {T : Type} (splicing : Splicing T) (code : TimeCode T)

def isProgram : Splicing T → Bool
  | program _ => true
  | components _ _ => false

def encodeComponent (component : UInt8 × T) : List UInt8 :=
  [component.1] ++ code.encode component.2

def storedComponent (component : UInt8 × T) : EventComponent :=
  ⟨component.1, code.stored component.2⟩

def encode : Splicing T → List UInt8
  | program time => code.encode time
  | components list _ => [UInt8.ofNat list.length] ++ list.flatMap (encodeComponent code)

def fill (event : SpliceEvent) : Splicing T → SpliceEvent
  | program time => { event with spliceTime := code.stored time }
  | components list _ =>
      { event with
        componentCount := UInt8.ofNat list.length
        components := some (list.map (storedComponent code)) }

end Splicing

namespace Avail

variable {T : Type} (avail : Avail T) (code : TimeCode T)

def flags (immediate : Bool) : UInt8 :=
  UInt8.ofNat (avail.outOfNetwork.toNat * 2 ^ 7 + avail.splicing.isProgram.toNat * 2 ^ 6 +
    avail.duration.isSome.toNat * 2 ^ 5 + immediate.toNat * 2 ^ 4 + 15)

-- behind the flags
def encodeParts : List UInt8 :=
  avail.splicing.encode code ++ (avail.duration.elim [] Break.encode ++
    (encode16 avail.uniqueProgramId ++ [avail.availNum, avail.availsExpected]))

def encode (immediate : Bool) : List UInt8 :=
  [avail.flags immediate] ++ avail.encodeParts code

-- an event with the flags of this one
def flagged (event : SpliceEvent) (immediate : Nat) : SpliceEvent :=
  { event with
    outOfNetworkIndicator := avail.outOfNetwork.toNat
    programSpliceFlag := avail.splicing.isProgram.toNat
    durationFlag := avail.duration.isSome.toNat
    spliceImmediateFlag := immediate }

def fill (event : SpliceEvent) : SpliceEvent :=
  { avail.splicing.fill code event with
    duration := avail.duration.elim event.duration Break.stored
    uniqueProgramId := avail.uniqueProgramId
    availNum := avail.availNum
    availsExpected := avail.availsExpected }

theorem flags_fields (immediate : Bool) :
    readBits 8 (avail.flags immediate).toNat 1 0 = avail.outOfNetwork.toNat ∧
      readBits 8 (avail.flags immediate).toNat 1 1 = avail.splicing.isProgram.toNat ∧
      readBits 8 (avail.flags immediate).toNat 1 2 = avail.duration.isSome.toNat ∧
      readBits 8 (avail.flags immediate).toNat 1 3 = immediate.toNat := by
  have out := Bool.toNat_le avail.outOfNetwork
  have program := Bool.toNat_le avail.splicing.isProgram
  have duration := Bool.toNat_le avail.duration.isSome
  have now := Bool.toNat_le immediate
  simp only [readBits_low, flags, UInt8.toNat_ofNat']
  omega

end Avail

section Parts

theorem parseSpliceTime_encoded (time : Option Pts) (behind : Block) :
    parseSpliceTime (ofBytes (encodeTime time) ++ behind) =
      some (storedTime time, (encodeTime time).length) := by
  cases time with
  | none => rfl
  | some pts =>
    have fits := pts.fits
    let flags := UInt8.ofNat (2 ^ 7 + 63 * 2 + pts.value / 2 ^ 32)
    have bits : readBits 8 flags.toNat 1 0 = 1 ∧ readBits 8 flags.toNat 1 7 = pts.value / 2 ^ 32 := by
      simp only [readBits_low, flags, UInt8.toNat_ofNat']
      omega
    have first : read8 (ofBytes (encodeTime (some pts)) ++ behind) 0 = some flags := rfl
    have second : read32 (ofBytes (encodeTime (some pts)) ++ behind) 1 =
        some (pts.value % 2 ^ 32) :=
      read32_stored _ 1 pts.value ⟨rfl, rfl⟩ ⟨rfl, rfl⟩
    simp only [parseSpliceTime, first, second, bits, Option.bind_eq_bind, Option.bind_some, if_true,
      Option.pure_def]
    rfl

theorem readSpliceTime_takes (time : Option Pts) :
    Takes readSpliceTime (encodeTime time) (storedTime time) := by
  intro behind len
  apply yields_read (parseSpliceTime_encoded time behind)
  dsimp only
  rw [Cursor.step_bytes]
  exact yields_pure _

theorem readBreakDuration_takes (pause : Break) :
    Takes readBreakDuration pause.encode pause.stored := by
  intro behind len
  have fits := pause.fits
  have auto := Bool.toNat_le pause.autoReturn
  let flags := UInt8.ofNat (pause.autoReturn.toNat * 2 ^ 7 + 63 * 2 + pause.duration / 2 ^ 32)
  have bits : readBits 8 flags.toNat 1 0 = pause.autoReturn.toNat ∧
      readBits 8 flags.toNat 1 7 = pause.duration / 2 ^ 32 := by
    simp only [readBits_low, flags, UInt8.toNat_ofNat']
    omega
  apply yields_read (show _ = some flags from rfl)
  apply yields_read (read32_stored _ 0 pause.duration ⟨rfl, rfl⟩ ⟨rfl, rfl⟩)
  rw [bits.1, bits.2]
  exact yields_pure _

theorem readUtc_takes (utc : Utc) : Takes readUtc (utcCode.encode utc) (utcCode.stored utc) := by
  intro behind len
  have time : read32 (ofBytes (encode32 utc.seconds) ++ behind) 0 = some utc.seconds := by
    rw [read32_stored _ 0 utc.seconds ⟨rfl, rfl⟩ ⟨rfl, rfl⟩, Nat.mod_eq_of_lt utc.fits]
  apply yields_read time
  exact yields_pure _

theorem readTimeUnless_timed (time : Option Pts) :
    Takes (readTimeUnless 0) (ptsCode.encode time) (ptsCode.stored time) := by
  intro behind len
  apply (readSpliceTime_takes time).bind
  exact yields_pure _

theorem readTimeUnless_immediate (time : Unit) :
    Takes (readTimeUnless 1) (immediateCode.encode time) (immediateCode.stored time) :=
  fun _ _ => yields_pure _

section Splicing

variable {T : Type} {code : TimeCode T} {readAt : Cursor → Allocating (SpliceAt × Cursor)}
  (takes : ∀ time, Takes readAt (code.encode time) (code.stored time))
include takes

theorem readComponent_takes (component : UInt8 × T) :
    Takes (readComponent readAt) (Splicing.encodeComponent code component)
      (Splicing.storedComponent code component) := by
  intro behind len
  have size : len + (Splicing.encodeComponent code component).length =
      len + 1 + (code.encode component.2).length := by
    rw [Splicing.encodeComponent, List.length_append, List.length_singleton, Nat.add_assoc]
  rw [size]
  apply yields_read (show _ = some component.1 from rfl)
  apply (takes component.2).bind
  exact yields_pure _

theorem readProgramTime_takes (time : T) (event : SpliceEvent)
    (program : event.programSpliceFlag = 1) :
    Takes (readProgramTime readAt event) (code.encode time)
      { event with spliceTime := code.stored time } := by
  intro behind len
  apply yields_ite_true program
  apply (takes time).bind
  exact yields_pure _

theorem readComponents_takes (list : List (UInt8 × T)) (few : list.length ≤ 255)
    (event : SpliceEvent) (components : event.programSpliceFlag = 0) :
    TakesAll (readComponents readAt event) ((Splicing.components list few).encode code)
      ((Splicing.components list few).fill code event) := by
  intro behind len
  have count : (UInt8.ofNat list.length).toNat = list.length := by
    rw [UInt8.toNat_ofNat', Nat.mod_eq_of_lt (by omega)]
  have size : len + ((Splicing.components list few).encode code).length =
      len + 1 + (list.flatMap (Splicing.encodeComponent code)).length := by
    rw [Splicing.encode, List.length_append, List.length_singleton, Nat.add_assoc]
  rw [size]
  apply yields_ite_true components
  apply yields_read (show _ = some (UInt8.ofNat list.length) from rfl)
  apply yields_allocated
  rw [count]
  apply (takes_loop list fun component _ => readComponent_takes takes component).bind
  exact yields_pure _

end Splicing

section Avail

variable {T : Type} (avail : Avail T) (event : SpliceEvent)

theorem readDuration_takes (flagged : event.durationFlag = avail.duration.isSome.toNat) :
    Takes (readDuration event) (avail.duration.elim [] Break.encode)
      { event with duration := avail.duration.elim event.duration Break.stored } := by
  intro behind len
  cases duration : avail.duration with
  | none =>
    apply yields_ite_false (by simp [flagged, duration])
    exact yields_pure _
  | some pause =>
    apply yields_ite_true (by simp [flagged, duration])
    apply (readBreakDuration_takes pause).bind
    exact yields_pure _

theorem readAvail_takes :
    Takes (readAvail event)
      (encode16 avail.uniqueProgramId ++ [avail.availNum, avail.availsExpected])
      { event with
        uniqueProgramId := avail.uniqueProgramId
        availNum := avail.availNum
        availsExpected := avail.availsExpected } := by
  intro behind len
  have program : Stores16 (ofBytes (encode16 avail.uniqueProgramId ++
      [avail.availNum, avail.availsExpected]) ++ behind) 0 avail.uniqueProgramId := ⟨rfl, rfl⟩
  apply yields_read (program.read_fits avail.programFits)
  apply yields_read (show _ = some avail.availNum from rfl)
  apply yields_read (show _ = some avail.availsExpected from rfl)
  exact yields_pure _

variable {code : TimeCode T} {readAt : Cursor → Allocating (SpliceAt × Cursor)}
  (takes : ∀ time, Takes readAt (code.encode time) (code.stored time))
include takes

/-- The parts of an event are read one behind the other, whichever of them there are. -/
theorem readSplicing_takes (program : event.programSpliceFlag = avail.splicing.isProgram.toNat)
    (flagged : event.durationFlag = avail.duration.isSome.toNat) :
    TakesAll (readSplicing readAt event) (avail.encodeParts code) (avail.fill code event) := by
  intro behind len
  let fields := encode16 avail.uniqueProgramId ++ [avail.availNum, avail.availsExpected]
  let pause := avail.duration.elim [] Break.encode
  have split : ofBytes (avail.encodeParts code) ++ behind = ofBytes (avail.splicing.encode code) ++
      (ofBytes pause ++ (ofBytes fields ++ behind)) := by
    simp [Avail.encodeParts, pause, fields]
  have size : len + (avail.encodeParts code).length =
      len + (avail.splicing.encode code).length + pause.length + fields.length := by
    simp only [Avail.encodeParts, List.length_append, pause, fields, Nat.add_assoc]
  rw [split, size]
  cases splicing : avail.splicing with
  | program time =>
    rw [splicing] at program
    apply (readProgramTime_takes takes time event program).bind
    apply yields_bind (yields_ite_false (by simp [program, Splicing.isProgram]) (yields_pure _))
    dsimp only
    apply (readDuration_takes avail (Splicing.fill code event (.program time)) flagged).bind
    apply (readAvail_takes avail _).bind
    rw [Avail.fill, splicing]
    exact yields_pure _
  | components list few =>
    rw [splicing] at program
    apply yields_bind (yields_ite_false (by simp [program, Splicing.isProgram]) (yields_pure _))
    apply (readComponents_takes takes list few event program).bind
    dsimp only
    apply (readDuration_takes avail (Splicing.fill code event (.components list few)) flagged).bind
    apply (readAvail_takes avail _).bind
    rw [Avail.fill, splicing]
    exact yields_pure _

end Avail

end Parts

/-- An event, cancelled when it says nothing. -/
structure Event (B : Type) where
  eventId : Nat
  body : Option B
  idFits : eventId < 2 ^ 32

/-- What a splice_insert says of its event: no times when it is immediate. -/
inductive InsertBody
  | immediate (avail : Avail Unit)
  | timed (avail : Avail (Option Pts))

structure Schedule where
  events : List (Event (Avail Utc))
  few : events.length ≤ 255

namespace Event

variable {B : Type} (event : Event B)

def head : SpliceEvent :=
  { spliceEventId := event.eventId, spliceEventCancelIndicator := event.body.isNone.toNat }

def encode (encodeBody : B → List UInt8) : List UInt8 :=
  encode32 event.eventId ++ ([UInt8.ofNat (event.body.isNone.toNat * 2 ^ 7 + 127)] ++
    event.body.elim [] encodeBody)

def stored (fill : B → SpliceEvent → SpliceEvent) : SpliceEvent :=
  event.body.elim event.head fun body => fill body event.head

theorem encode_length (encodeBody : B → List UInt8) :
    (event.encode encodeBody).length = 5 + (event.body.elim [] encodeBody).length := by
  simp only [encode, List.length_append, encode32_length, List.length_singleton]
  omega

theorem cancel_bit :
    readBits 8 (UInt8.ofNat (event.body.isNone.toNat * 2 ^ 7 + 127)).toNat 1 0 =
      event.body.isNone.toNat := by
  have cancelled := Bool.toNat_le event.body.isNone
  rw [readBits_low, UInt8.toNat_ofNat']
  omega

theorem id_read (encodeBody : B → List UInt8) (behind : Block) :
    read32 (ofBytes (event.encode encodeBody) ++ behind) 0 = some event.eventId := by
  rw [read32_stored _ 0 event.eventId ⟨rfl, rfl⟩ ⟨rfl, rfl⟩, Nat.mod_eq_of_lt event.idFits]

end Event

-- the bit behind duration_flag is reserved
def encodeScheduled (event : Event (Avail Utc)) : List UInt8 :=
  event.encode fun avail => avail.encode utcCode true

def storedScheduled (event : Event (Avail Utc)) : SpliceEvent :=
  event.stored fun avail head => avail.fill utcCode (avail.flagged head 0)

namespace InsertBody

def encode : InsertBody → List UInt8
  | immediate avail => avail.encode immediateCode true
  | timed avail => avail.encode ptsCode false

def fill : InsertBody → SpliceEvent → SpliceEvent
  | immediate avail, head => avail.fill immediateCode (avail.flagged head 1)
  | timed avail, head => avail.fill ptsCode (avail.flagged head 0)

end InsertBody

namespace Schedule

variable (schedule : Schedule)

def encode : List UInt8 :=
  [UInt8.ofNat schedule.events.length] ++ schedule.events.flatMap encodeScheduled

def stored : SpliceSchedule :=
  ⟨UInt8.ofNat schedule.events.length, some (schedule.events.map storedScheduled)⟩

end Schedule

/-- The commands of a splice_info_section that have fields. -/
inductive Command
  | schedule (schedule : Schedule)
  | insert (event : Event InsertBody)
  | timeSignal (time : Option Pts)

namespace Command

def encode : Command → List UInt8
  | schedule events => events.encode
  | insert event => event.encode InsertBody.encode
  | timeSignal time => encodeTime time

def stored : Command → SpliceCommand
  | schedule events => .schedule events.stored
  | insert event => .insert (event.stored InsertBody.fill)
  | timeSignal time => .timeSignal (storedTime time)

def type : Command → Nat
  | schedule _ => 4
  | insert _ => 5
  | timeSignal _ => 6

/-- The parser of the command finds its fields and returns its length, whatever stands behind. -/
def Parsed (behind : Block) : Command → Prop
  | schedule events => Yields (parseSpliceSchedule (ofBytes events.encode ++ behind))
      (events.stored, events.encode.length)
  | insert event => Yields (parseSpliceInsert (ofBytes (event.encode InsertBody.encode) ++ behind))
      (event.stored InsertBody.fill, (event.encode InsertBody.encode).length)
  | timeSignal time => parseSpliceTime (ofBytes (encodeTime time) ++ behind) =
      some (storedTime time, (encodeTime time).length)

end Command

section Commands

theorem readScheduledEvent_takes (event : Event (Avail Utc)) :
    TakesAll readScheduledEvent (encodeScheduled event) (storedScheduled event) := by
  intro behind len
  have id := event.id_read (fun avail => avail.encode utcCode true) behind
  have cancel := event.cancel_bit
  cases event with
  | mk eventId body idFits =>
    apply yields_read id
    apply yields_read (show _ = some (UInt8.ofNat (body.isNone.toNat * 2 ^ 7 + 127)) from rfl)
    dsimp only at cancel ⊢
    rw [cancel]
    cases body with
    | none =>
      apply yields_ite_false (by simp)
      exact yields_pure _
    | some avail =>
      have flags := avail.flags_fields true
      have size : len + (encodeScheduled ⟨eventId, some avail, idFits⟩).length =
          len + 6 + (avail.encodeParts utcCode).length := by
        rw [encodeScheduled, Event.encode_length, Option.elim_some, Avail.encode,
          List.length_append, List.length_singleton]
        omega
      rw [size]
      apply yields_ite_true (by simp)
      apply yields_read (show _ = some (avail.flags true) from rfl)
      rw [flags.1, flags.2.1, flags.2.2.1]
      exact readSplicing_takes avail _ readUtc_takes rfl rfl behind (len + 6)

theorem scheduleLoop_takes (events : List (Event (Avail Utc))) :
    TakesAll (scheduleLoop events.length) (events.flatMap encodeScheduled)
      (events.map storedScheduled) := by
  induction events with
  | nil => exact fun behind len => yields_pure _
  | cons first events ih =>
    intro behind len
    have split : ofBytes ((first :: events).flatMap encodeScheduled) ++ behind =
        ofBytes (encodeScheduled first) ++ (ofBytes (events.flatMap encodeScheduled) ++ behind) := by
      simp
    have total : len + ((first :: events).flatMap encodeScheduled).length =
        len + (encodeScheduled first).length + (events.flatMap encodeScheduled).length := by
      simp only [List.flatMap_cons, List.length_append]
      omega
    rw [split, total]
    apply (readScheduledEvent_takes first).bind
    dsimp only
    apply ih.bind
    exact yields_pure _

theorem parseSpliceSchedule_encoded (schedule : Schedule) (behind : Block)
    (short : schedule.encode.length < 65536) :
    Yields (parseSpliceSchedule (ofBytes schedule.encode ++ behind))
      (schedule.stored, schedule.encode.length) := by
  have few := schedule.few
  have count : (UInt8.ofNat schedule.events.length).toNat = schedule.events.length := by
    rw [UInt8.toNat_ofNat', Nat.mod_eq_of_lt (by omega)]
  have size : schedule.encode.length =
      0 + 1 + (schedule.events.flatMap encodeScheduled).length := by
    rw [Schedule.encode, List.length_append, List.length_singleton, Nat.zero_add]
  have len : returnLen ⟨behind, 0 + 1 + (schedule.events.flatMap encodeScheduled).length⟩ =
      schedule.encode.length := by
    rw [returnLen, ← size, Nat.mod_eq_of_lt short]
  apply yields_read (show _ = some (UInt8.ofNat schedule.events.length) from rfl)
  apply yields_allocated
  rw [count, ← len]
  apply (scheduleLoop_takes schedule.events).bind
  exact yields_pure _

theorem parseSpliceInsert_encoded (event : Event InsertBody) (behind : Block)
    (short : (event.encode InsertBody.encode).length < 65536) :
    Yields (parseSpliceInsert (ofBytes (event.encode InsertBody.encode) ++ behind))
      (event.stored InsertBody.fill, (event.encode InsertBody.encode).length) := by
  have id := event.id_read InsertBody.encode behind
  have cancel := event.cancel_bit
  have size := event.encode_length InsertBody.encode
  have len : returnLen ⟨behind, (event.encode InsertBody.encode).length⟩ =
      (event.encode InsertBody.encode).length := Nat.mod_eq_of_lt short
  cases event with
  | mk eventId body idFits =>
    apply yields_read id
    apply yields_read (show _ = some (UInt8.ofNat (body.isNone.toNat * 2 ^ 7 + 127)) from rfl)
    dsimp only at cancel ⊢
    rw [cancel]
    cases body with
    | none =>
      apply yields_ite_false (by simp)
      exact yields_pure _
    | some body =>
      apply yields_ite_true (by simp)
      cases body with
      | immediate avail =>
        have flags := avail.flags_fields true
        rw [size, Option.elim_some, InsertBody.encode, Avail.encode, List.length_append,
          List.length_singleton, ← Nat.add_assoc] at len ⊢
        rw [← len]
        apply yields_read (show _ = some (avail.flags true) from rfl)
        rw [flags.1, flags.2.1, flags.2.2.1, flags.2.2.2]
        apply yields_bind (readSplicing_takes avail _ readTimeUnless_immediate rfl rfl behind 6)
        exact yields_pure _
      | timed avail =>
        have flags := avail.flags_fields false
        rw [size, Option.elim_some, InsertBody.encode, Avail.encode, List.length_append,
          List.length_singleton, ← Nat.add_assoc] at len ⊢
        rw [← len]
        apply yields_read (show _ = some (avail.flags false) from rfl)
        rw [flags.1, flags.2.1, flags.2.2.1, flags.2.2.2]
        apply yields_bind (readSplicing_takes avail _ readTimeUnless_timed rfl rfl behind 6)
        exact yields_pure _

theorem parsed_encoded (command : Command) (short : command.encode.length < 65536)
    (behind : Block) : command.Parsed behind := by
  cases command with
  | schedule events => exact parseSpliceSchedule_encoded events behind short
  | insert event => exact parseSpliceInsert_encoded event behind short
  | timeSignal time => exact parseSpliceTime_encoded time behind

theorem readCommand_encoded (command : Command) (short : command.encode.length < 65536)
    (behind : Block) :
    Yields (readCommand command.type (ofBytes command.encode ++ behind))
      (command.stored, command.encode.length) := by
  have parsed := parsed_encoded command short behind
  cases command with
  | schedule events =>
    apply yields_ite_true rfl
    apply yields_bind parsed
    exact yields_pure _
  | insert event =>
    apply yields_ite_false (by simp [Command.type])
    apply yields_ite_true rfl
    apply yields_bind parsed
    exact yields_pure _
  | timeSignal time =>
    apply yields_ite_false (by simp [Command.type])
    apply yields_ite_false (by simp [Command.type])
    apply yields_ite_true rfl
    apply yields_read parsed
    exact yields_pure _

end Commands

/-- A splice_info_section that leaves out the length of its command. -/
structure SpliceSection where
  privateIndicator : Bool
  sapType : Nat
  protocolVersion : UInt8
  encryptedPacket : Bool
  encryptionAlgorithm : Nat
  ptsAdjustment : Pts
  cwIndex : UInt8
  tier : Nat
  command : Command
  -- the splice descriptors
  descriptors : List UInt8
  -- alignment bytes and crc
  tail : List UInt8
  sapFits : sapType < 4
  encryptionFits : encryptionAlgorithm < 64
  tierFits : tier < 4096
  fits : 13 + command.encode.length + descriptors.length + tail.length ≤ 0xFFD

namespace SpliceSection

variable (info : SpliceSection)

def sectionLength : Nat :=
  13 + info.command.encode.length + info.descriptors.length + info.tail.length

-- section_syntax_indicator is 0
def flags : Nat :=
  info.privateIndicator.toNat * 2 ^ 14 + info.sapType * 2 ^ 12 + info.sectionLength

def encryption : UInt8 :=
  UInt8.ofNat (info.encryptedPacket.toNat * 2 ^ 7 + info.encryptionAlgorithm * 2 +
    info.ptsAdjustment.value / 2 ^ 32)

def word : Nat :=
  info.tier * 2 ^ 20 + 0xFFF * 2 ^ 8 + info.command.type

def encodeHead : List UInt8 :=
  [0xFC] ++ encode16 info.flags ++ [info.protocolVersion, info.encryption] ++
    encode32 info.ptsAdjustment.value ++ [info.cwIndex] ++ encode32 info.word

def encode : List UInt8 :=
  info.encodeHead ++ info.command.encode ++ encode16 info.descriptors.length ++
    info.descriptors ++ info.tail

-- the fields in front of protocol_version
def storedHead : SpliceInfo :=
  { tableId := 0xFC
    privateIndicator := info.privateIndicator.toNat
    sapType := info.sapType }

def stored : SpliceInfo :=
  { info.storedHead with
    sectionLength := info.sectionLength
    protocolVersion := info.protocolVersion
    encryptedPacket := info.encryptedPacket.toNat
    encryptionAlgorithm := info.encryptionAlgorithm
    ptsAdjustmentH := info.ptsAdjustment.value / 2 ^ 32
    ptsAdjustment := info.ptsAdjustment.value % 2 ^ 32
    cwIndex := info.cwIndex
    tier := info.tier
    spliceCommandLength := 0xFFF
    spliceCommandType := info.command.type
    command := info.command.stored
    descriptorLoopLength := info.descriptors.length }

-- the memory from the descriptors on
def behindLength (behind : Block) : Block :=
  ofBytes info.descriptors ++ (ofBytes info.tail ++ behind)

theorem flags_fields : info.flags < 65536 ∧ info.flags &&& 0x0FFF = info.sectionLength ∧
    readBits 8 (UInt8.ofNat (info.flags / 256)).toNat 1 0 = 0 ∧
    readBits 8 (UInt8.ofNat (info.flags / 256)).toNat 1 1 = info.privateIndicator.toNat ∧
    readBits 8 (UInt8.ofNat (info.flags / 256)).toNat 2 2 = info.sapType := by
  have fits : info.sectionLength ≤ 0xFFD := info.fits
  have sapFits := info.sapFits
  have privateBit := Bool.toNat_le info.privateIndicator
  have low : info.flags &&& 0x0FFF = info.flags % 2 ^ 12 := land_low_bits _ 12
  rw [low]
  simp only [readBits_low, UInt8.toNat_ofNat', flags]
  omega

theorem encryption_fields :
    readBits 8 info.encryption.toNat 1 0 = info.encryptedPacket.toNat ∧
      readBits 8 info.encryption.toNat 6 1 = info.encryptionAlgorithm ∧
      readBits 8 info.encryption.toNat 1 7 = info.ptsAdjustment.value / 2 ^ 32 := by
  have encrypted := Bool.toNat_le info.encryptedPacket
  have encryptionFits := info.encryptionFits
  have ptsFits := info.ptsAdjustment.fits
  simp only [readBits_low, UInt8.toNat_ofNat', encryption]
  omega

theorem word_fields : info.word < 2 ^ 32 ∧ readBits 32 info.word 12 0 = info.tier ∧
    readBits 32 info.word 12 12 = 0xFFF ∧ readBits 32 info.word 8 24 = info.command.type := by
  have tierFits := info.tierFits
  have type : info.command.type < 256 := by
    cases info.command <;> simp [Command.type]
  simp only [readBits_low, word]
  omega

end SpliceSection

section Info

variable (info : SpliceSection) (behind : Block)

theorem readSpliceHead_encoded :
    readSpliceHead (ofBytes info.encode ++ behind) = some (info.storedHead, info.sectionLength) := by
  have fields := info.flags_fields
  have flags : Stores16 (ofBytes info.encode ++ behind) 1 info.flags := ⟨rfl, rfl⟩
  have first : read8 (ofBytes info.encode ++ behind) 0 = some 0xFC := rfl
  simp only [readSpliceHead, first, flags.high, flags.read_fits fields.1, fields.2,
    Option.bind_eq_bind, Option.bind_some, Option.pure_def, SpliceSection.storedHead]

theorem readSpliceInfo_encoded :
    Yields (readSpliceInfo info.storedHead info.sectionLength (ofBytes info.encode ++ behind))
      (info.stored, info.behindLength behind) := by
  have fits := info.fits
  have encryption := info.encryption_fields
  have word := info.word_fields
  let memory := ofBytes info.encode ++ behind
  let rest := ofBytes (encode16 info.descriptors.length) ++ info.behindLength behind
  have parts : memory = ofBytes info.encodeHead ++ (ofBytes info.command.encode ++ rest) := by
    simp [memory, rest, SpliceSection.encode, SpliceSection.behindLength]
  have pts : read32 memory 5 = some (info.ptsAdjustment.value % 2 ^ 32) := by
    rw [parts]
    exact read32_stored _ 5 _ ⟨rfl, rfl⟩ ⟨rfl, rfl⟩
  have wordRead : read32 memory 10 = some info.word := by
    rw [parts, read32_stored _ 10 info.word ⟨rfl, rfl⟩ ⟨rfl, rfl⟩, Nat.mod_eq_of_lt word.1]
  have command : memory.drop 14 = ofBytes info.command.encode ++ rest := by
    rw [parts]
    exact List.drop_left' rfl
  have afterCommand : memory.drop (14 + info.command.encode.length) = rest := by
    rw [← List.drop_drop, command]
    exact List.drop_left' (ofBytes_length _)
  have length : Stores16 rest 0 info.descriptors.length := ⟨rfl, rfl⟩
  apply yields_read (show _ = some info.protocolVersion from rfl)
  apply yields_read (show _ = some info.encryption from rfl)
  apply yields_read pts
  apply yields_read (show _ = some info.cwIndex from rfl)
  apply yields_read wordRead
  dsimp only
  rw [word.2.1, word.2.2.1, word.2.2.2, command]
  apply yields_bind (readCommand_encoded info.command (by omega) rest)
  dsimp only
  rw [if_neg (by decide), afterCommand]
  apply yields_read (length.read_fits (by omega))
  rw [encryption.1, encryption.2.1, encryption.2.2]
  exact yields_pure _

/-- The command is parsed to its fields and its length, and the length of the descriptors is read
right behind it. -/
theorem parseSplice_encoded : info.command.Parsed behind ∧
    readSpliceHead (ofBytes info.encode ++ behind) = some (info.storedHead, info.sectionLength) ∧
    Yields (readSpliceInfo info.storedHead info.sectionLength (ofBytes info.encode ++ behind))
      (info.stored, info.behindLength behind) ∧
    ∀ turns list, Yields (parseSpliceDescriptors turns (info.behindLength behind)
        info.descriptors.length []) list →
      Yields (parseSpliceInfo turns (ofBytes info.encode ++ behind))
        ({ info.stored with list := list }, 0) := by
  have fits : info.sectionLength ≤ 0xFFD := info.fits
  have short : info.command.encode.length < 65536 := by
    have total : info.sectionLength = 13 + info.command.encode.length + info.descriptors.length +
      info.tail.length := rfl
    omega
  refine ⟨parsed_encoded info.command short behind, readSpliceHead_encoded info behind,
    readSpliceInfo_encoded info behind, ?_⟩
  intro turns list listed
  apply yields_read (readSpliceHead_encoded info behind)
  apply yields_ite_false (by simp [SpliceSection.storedHead, fits])
  apply yields_bind (readSpliceInfo_encoded info behind)
  apply yields_bind listed
  exact yields_pure _

end Info

-- from a minute on, two components of a program are spliced for thirty seconds
def componentInsert : SpliceSection where
  privateIndicator := false
  sapType := 3
  protocolVersion := 0
  encryptedPacket := false
  encryptionAlgorithm := 0
  ptsAdjustment := ⟨0, by decide⟩
  cwIndex := 0xFF
  tier := 0xFFF
  command := .insert ⟨0x4800008F, some (.timed {
    outOfNetwork := true
    splicing := .components [(1, some ⟨5400000, by decide⟩), (2, none)] (by decide)
    duration := some ⟨true, 2700000, by decide⟩
    uniqueProgramId := 21
    availNum := 1
    availsExpected := 2
    programFits := by decide }), by decide⟩
  descriptors := []
  tail := [0x62, 0xDB, 0xA3, 0x0A]
  sapFits := by decide
  encryptionFits := by decide
  tierFits := by decide
  fits := by decide

example : componentInsert.command.encode.length = 24 := by decide

theorem parseSplice_encoded_components : componentInsert.command.Parsed [] ∧
    Yields (parseSpliceInfo 0 (ofBytes componentInsert.encode ++ []))
      ({ componentInsert.stored with list := [] }, 0) := by
  have encoded := parseSplice_encoded componentInsert []
  exact ⟨encoded.1, encoded.2.2.2 0 [] (yields_ite_false (by decide) (yields_pure _))⟩

end TsAnalyze.Scte
