import TsAnalyze.Shared.Cursor
import TsAnalyze.Tables.Header

set_option autoImplicit false

namespace TsAnalyze.Scte

open Memory Tables

structure SpliceTime where
  timeSpecifiedFlag : Nat := 0
  ptsTimeH : Nat := 0
  ptsTime : Nat := 0

structure BreakDuration where
  autoReturn : Nat := 0
  durationH : Nat := 0
  duration : Nat := 0

/-- The union of utc_splice_time and time; `zero` is what calloc leaves. -/
inductive SpliceAt
  | zero
  | utc (utcSpliceTime : Nat)
  | time (time : SpliceTime)

structure EventComponent where
  componentTag : UInt8 := 0
  spliceTime : SpliceAt := .zero

structure SpliceEvent where
  spliceEventId : Nat := 0
  spliceEventCancelIndicator : Nat := 0
  outOfNetworkIndicator : Nat := 0
  programSpliceFlag : Nat := 0
  durationFlag : Nat := 0
  spliceImmediateFlag : Nat := 0
  spliceTime : SpliceAt := .zero
  componentCount : UInt8 := 0
  components : Option (List EventComponent) := none
  duration : BreakDuration := {}
  uniqueProgramId : Nat := 0
  availNum : UInt8 := 0
  availsExpected : UInt8 := 0

structure SpliceSchedule where
  spliceCount : UInt8 := 0
  splices : Option (List SpliceEvent) := none

-- len is a uint16_t that nothing reads before it is returned
def returnLen (cursor : Cursor) : Nat :=
  cursor.len % 65536

section Parts

-- pts_time stays 0 when no time is specified
def parseSpliceTime (pbuf : Block) : Option (SpliceTime × Nat) := do
  let flags ← read8 pbuf 0
  let timeSpecifiedFlag := readBits 8 flags.toNat 1 0
  let ptsTimeH := readBits 8 flags.toNat 1 7
  if timeSpecifiedFlag = 1 then
    let ptsTime ← read32 pbuf 1
    return (⟨timeSpecifiedFlag, ptsTimeH, ptsTime⟩, 5)
  else return (⟨timeSpecifiedFlag, ptsTimeH, 0⟩, 1)

-- pdata and len move on by what parse_splice_time returns
def readSpliceTime (cursor : Cursor) : Allocating (SpliceTime × Cursor) := do
  let (time, ret) ← parseSpliceTime cursor.pdata
  pure (time, cursor.step ret)

def readBreakDuration (cursor : Cursor) : Allocating (BreakDuration × Cursor) := do
  let flags ← read8 cursor.pdata 0
  let cursor := cursor.step 1
  let duration ← read32 cursor.pdata 0
  pure (⟨readBits 8 flags.toNat 1 0, readBits 8 flags.toNat 1 7, duration⟩, cursor.step 4)

-- a component's own time, for parse_splice_schedule and for parse_splice_insert
def readUtc (cursor : Cursor) : Allocating (SpliceAt × Cursor) := do
  let utcSpliceTime ← read32 cursor.pdata 0
  pure (.utc utcSpliceTime, cursor.step 4)

def readTimeUnless (immediate : Nat) (cursor : Cursor) : Allocating (SpliceAt × Cursor) :=
  if immediate = 0 then do
    let (time, cursor) ← readSpliceTime cursor
    pure (.time time, cursor)
  else pure (.zero, cursor)

def readComponent (readAt : Cursor → Allocating (SpliceAt × Cursor)) (cursor : Cursor) :
    Allocating (EventComponent × Cursor) := do
  let componentTag ← read8 cursor.pdata 0
  let (time, cursor) ← readAt (cursor.step 1)
  pure (⟨componentTag, time⟩, cursor)

-- when the whole program is spliced
def readProgramTime (readAt : Cursor → Allocating (SpliceAt × Cursor)) (event : SpliceEvent)
    (cursor : Cursor) : Allocating (SpliceEvent × Cursor) :=
  if event.programSpliceFlag = 1 then do
    let (time, cursor) ← readAt cursor
    pure ({ event with spliceTime := time }, cursor)
  else pure (event, cursor)

-- No cursor is left when memory runs out for the components.
def readComponents (readAt : Cursor → Allocating (SpliceAt × Cursor)) (event : SpliceEvent)
    (cursor : Cursor) : Allocating (SpliceEvent × Option Cursor) :=
  if event.programSpliceFlag = 0 then do
    let componentCount ← read8 cursor.pdata 0
    let cursor := cursor.step 1
    if ← reserve then
      let (components, cursor) ← cursorLoop (readComponent readAt) componentCount.toNat cursor
      pure ({ event with componentCount := componentCount, components := some components },
        some cursor)
    else pure ({ event with componentCount := componentCount, components := none }, none)
  else pure (event, some cursor)

def readDuration (event : SpliceEvent) (cursor : Cursor) : Allocating (SpliceEvent × Cursor) :=
  if event.durationFlag = 1 then do
    let (duration, cursor) ← readBreakDuration cursor
    pure ({ event with duration := duration }, cursor)
  else pure (event, cursor)

def readAvail (event : SpliceEvent) (cursor : Cursor) : Allocating (SpliceEvent × Cursor) := do
  let uniqueProgramId ← read16 cursor.pdata 0
  let cursor := cursor.step 2
  let availNum ← read8 cursor.pdata 0
  let cursor := cursor.step 1
  let availsExpected ← read8 cursor.pdata 0
  let cursor := cursor.step 1
  pure ({ event with
    uniqueProgramId := uniqueProgramId
    availNum := availNum
    availsExpected := availsExpected }, cursor)

-- what follows the flags of an event
def readSplicing (readAt : Cursor → Allocating (SpliceAt × Cursor)) (event : SpliceEvent)
    (cursor : Cursor) : Allocating (SpliceEvent × Option Cursor) := do
  let (event, cursor) ← readProgramTime readAt event cursor
  let (event, cursor) ← readComponents readAt event cursor
  match cursor with
  | some cursor =>
      let (event, cursor) ← readDuration event cursor
      let (event, cursor) ← readAvail event cursor
      pure (event, some cursor)
  | none => pure (event, none)

end Parts

section Schedule

-- an event of a calloc'ed array
def readScheduledEvent (cursor : Cursor) : Allocating (SpliceEvent × Option Cursor) := do
  let spliceEventId ← read32 cursor.pdata 0
  let cursor := cursor.step 4
  let cancel ← read8 cursor.pdata 0
  let cursor := cursor.step 1
  let event : SpliceEvent := {
    spliceEventId := spliceEventId
    spliceEventCancelIndicator := readBits 8 cancel.toNat 1 0 }
  if event.spliceEventCancelIndicator = 0 then
    let flags ← read8 cursor.pdata 0
    let cursor := cursor.step 1
    let event := { event with
      outOfNetworkIndicator := readBits 8 flags.toNat 1 0
      programSpliceFlag := readBits 8 flags.toNat 1 1
      durationFlag := readBits 8 flags.toNat 1 2 }
    readSplicing readUtc event cursor
  else pure (event, some cursor)

-- The events behind one that is short of memory stay as they were allocated.
def scheduleLoop : Nat → Cursor → Allocating (List SpliceEvent × Option Cursor)
  | 0, cursor => pure ([], some cursor)
  | count + 1, cursor => do
      let (event, next) ← readScheduledEvent cursor
      match next with
      | some cursor =>
          let (events, cursor) ← scheduleLoop count cursor
          pure (event :: events, cursor)
      | none => pure (event :: List.replicate count {}, none)

-- plen is not used
def parseSpliceSchedule (pbuf : Block) : Allocating (SpliceSchedule × Nat) := do
  let cursor : Cursor := ⟨pbuf, 0⟩
  let spliceCount ← read8 cursor.pdata 0
  let cursor := cursor.step 1
  if ← reserve then
    let (splices, cursor) ← scheduleLoop spliceCount.toNat cursor
    pure (⟨spliceCount, some splices⟩, cursor.elim enomem.toNat returnLen)
  else pure (⟨spliceCount, none⟩, enomem.toNat)

end Schedule

section Insert

-- into a structure that is all zero
def parseSpliceInsert (pbuf : Block) : Allocating (SpliceEvent × Nat) := do
  let cursor : Cursor := ⟨pbuf, 0⟩
  let spliceEventId ← read32 cursor.pdata 0
  let cursor := cursor.step 4
  let cancel ← read8 cursor.pdata 0
  let cursor := cursor.step 1
  let event : SpliceEvent := {
    spliceEventId := spliceEventId
    spliceEventCancelIndicator := readBits 8 cancel.toNat 1 0 }
  if event.spliceEventCancelIndicator = 0 then
    let flags ← read8 cursor.pdata 0
    let cursor := cursor.step 1
    let event := { event with
      outOfNetworkIndicator := readBits 8 flags.toNat 1 0
      programSpliceFlag := readBits 8 flags.toNat 1 1
      durationFlag := readBits 8 flags.toNat 1 2
      spliceImmediateFlag := readBits 8 flags.toNat 1 3 }
    let (event, cursor) ← readSplicing (readTimeUnless event.spliceImmediateFlag) event cursor
    pure (event, cursor.elim enomem.toNat returnLen)
  else pure (event, returnLen cursor)

end Insert

section Info

/-- What the union of the commands holds. -/
inductive SpliceCommand
  | unset
  | schedule (schedule : SpliceSchedule)
  | insert (evt : SpliceEvent)
  | timeSignal (t : SpliceTime)

structure SpliceDescriptor where
  tag : UInt8
  length : UInt8
  data : Block

structure SpliceInfo where
  tableId : UInt8 := 0
  sectionSyntaxIndicator : Nat := 0
  privateIndicator : Nat := 0
  sapType : Nat := 0
  sectionLength : Nat := 0
  protocolVersion : UInt8 := 0
  encryptedPacket : Nat := 0
  encryptionAlgorithm : Nat := 0
  ptsAdjustmentH : Nat := 0
  ptsAdjustment : Nat := 0
  cwIndex : UInt8 := 0
  tier : Nat := 0
  spliceCommandLength : Nat := 0
  spliceCommandType : Nat := 0
  command : SpliceCommand := .unset
  descriptorLoopLength : Nat := 0
  list : List SpliceDescriptor := []

-- SPLICE_SCHEDULE, SPLICE_INSERT, SPLICE_TIME_SIGNAL and SPLICE_PRIVATE; the others return nothing
def readCommand (commandType : Nat) (pdata : Block) : Allocating (SpliceCommand × Nat) :=
  if commandType = 4 then do
    let (schedule, ret) ← parseSpliceSchedule pdata
    pure (.schedule schedule, ret)
  else if commandType = 5 then do
    let (evt, ret) ← parseSpliceInsert pdata
    pure (.insert evt, ret)
  else if commandType = 6 then do
    let (t, ret) ← parseSpliceTime pdata
    pure (.timeSignal t, ret)
  else if commandType = 0xFF then do
    let _identifier ← read32 pdata 0
    pure (.unset, 4)
  else pure (.unset, 0)

-- the fields in front of protocol_version, and section_len
def readSpliceHead (pbuf : Block) : Option (SpliceInfo × Nat) := do
  let tableId ← read8 pbuf 0
  let flags ← read8 pbuf 1
  let word ← read16 pbuf 1
  return ({
    tableId := tableId
    sectionSyntaxIndicator := readBits 8 flags.toNat 1 0
    privateIndicator := readBits 8 flags.toNat 1 1
    sapType := readBits 8 flags.toNat 2 2 }, word &&& 0x0FFF)

-- up to descriptor_loop_length, and what stands behind it
def readSpliceInfo (head : SpliceInfo) (sectionLen : Nat) (pbuf : Block) :
    Allocating (SpliceInfo × Block) := do
  let protocolVersion ← read8 pbuf 3
  let encryption ← read8 pbuf 4
  let ptsAdjustment ← read32 pbuf 5
  let cwIndex ← read8 pbuf 9
  let word ← read32 pbuf 10
  let commandLength := readBits 32 word 12 12
  let commandType := readBits 32 word 8 24
  let (command, ret) ← readCommand commandType (pbuf.drop 14)
  let pdata := pbuf.drop (14 + if commandLength ≠ 0xFFF then commandLength else ret)
  let descriptorLoopLength ← read16 pdata 0
  pure ({ head with
    sectionLength := sectionLen
    protocolVersion := protocolVersion
    encryptedPacket := readBits 8 encryption.toNat 1 0
    encryptionAlgorithm := readBits 8 encryption.toNat 6 1
    ptsAdjustmentH := readBits 8 encryption.toNat 1 7
    ptsAdjustment := ptsAdjustment
    cwIndex := cwIndex
    tier := readBits 32 word 12 0
    spliceCommandLength := commandLength
    spliceCommandType := commandType
    command := command
    descriptorLoopLength := descriptorLoopLength }, pdata.drop 2)

-- Nothing bounds the turns: `l` is what is left of `len` by the loop's own count.
def parseSpliceDescriptors : Nat → Block → Int → List SpliceDescriptor →
    Allocating (List SpliceDescriptor)
  | 0, _, l, list => if 0 < l then failure else pure list
  | turns + 1, ptr, l, list =>
      if 0 < l then do
        let tag ← read8 ptr 0
        let length ← read8 ptr 1
        if ← reserve then
          let ptr := ptr.drop 6
          let data ← (Region.zeros length.toNat).memcpy 0 ptr ((length.toNat : Int) - 4)
          parseSpliceDescriptors turns (ptr.drop length.toNat) (l - ((length.toNat : Int) - 6))
            (list ++ [⟨tag, length, data.cells⟩])
        else pure list
      else pure list

-- into a structure that is all zero, so that there is no list to free
def parseSpliceInfo (turns : Nat) (pbuf : Block) : Allocating (SpliceInfo × Int) := do
  let (head, sectionLen) ← readSpliceHead pbuf
  if (head.sectionSyntaxIndicator = 1 ∧ 0x3FD < sectionLen) ∨
      (head.sectionSyntaxIndicator = 0 ∧ 0xFFD < sectionLen) then
    pure (head, -1)
  else
    let (info, pdata) ← readSpliceInfo head sectionLen pbuf
    let list ← parseSpliceDescriptors turns pdata info.descriptorLoopLength []
    pure ({ info with list := list }, 0)

end Info

end TsAnalyze.Scte
