import TsAnalyze.Lists.Accounting

set_option autoImplicit false

namespace TsAnalyze.Lists

open Memory Demux Tables

-- the members of a node that are not descriptors
section Fields

def esFields (pdata : Block) : Option (EsNode Empty) := do
  let streamType ← read8 pdata 0
  let pid ← read16 pdata 1
  let length ← read16 pdata 3
  pure ⟨streamType, pid &&& 0x1FFF, length &&& 0x0FFF, []⟩

def streamFields (pdata : Block) : Option (TransportStreamNode Empty) := do
  let transportStreamId ← read16 pdata 0
  let originalNetworkId ← read16 pdata 2
  let word ← read16 pdata 4
  pure ⟨transportStreamId, originalNetworkId, word &&& 0xFFF, []⟩

def serviceFields (pdata : Block) : Option (ServiceNode Empty) := do
  let serviceId ← read16 pdata 0
  let flags ← read8 pdata 2
  let word ← read16 pdata 3
  pure {
    serviceId := serviceId
    eitScheduleFlag := (flags.toNat >>> 1) &&& 0x1
    eitPresentFollowingFlag := flags.toNat &&& 0x1
    runningStatus := (word >>> 13) &&& 0x7
    freeCaMode := (word >>> 12) &&& 0x1
    descriptorsLoopLength := word &&& 0x0FFF
    list := [] }

def eventFields (pdata : Block) : Option (EventNode Empty) := do
  let eventId ← read16 pdata 0
  let time ← read64 pdata 2
  let word ← read16 pdata 10
  pure {
    eventId := eventId
    startTime := readBits 64 time 40 0
    duration := readBits 64 time 24 40
    runningStatus := readBits 16 word 3 0
    freeCaMode := readBits 16 word 1 3
    descriptorsLoopLength := readBits 16 word 12 4
    list := [] }

def esLayout : Layout (EsNode Empty) where
  initNode := true
  wrap := toInt16
  fields := esFields
  offset := 5
  length := EsNode.esInfoLength
  size pn := 5 + pn.esInfoLength
  advance pn := 5 + pn.esInfoLength

def streamLayout (initNode : Bool) : Layout (TransportStreamNode Empty) where
  initNode := initNode
  wrap := toInt16
  fields := streamFields
  offset := 6
  length := TransportStreamNode.transportDescriptorsLength
  size pn := 6 + pn.transportDescriptorsLength
  advance pn := 6 + pn.transportDescriptorsLength

def serviceLayout : Layout (ServiceNode Empty) where
  initNode := true
  wrap := toInt16
  fields := serviceFields
  offset := 5
  length := ServiceNode.descriptorsLoopLength
  size pn := 5 + pn.descriptorsLoopLength
  advance pn := 5 + pn.descriptorsLoopLength

def eventLayout : Layout (EventNode Empty) where
  initNode := true
  wrap := toUInt16
  fields := eventFields
  offset := 12
  length := EventNode.descriptorsLoopLength
  size pn := 12 + pn.descriptorsLoopLength
  advance _ := 12

end Fields

section Starts

def pmtStart (header : TableHeader) (pdata : Block) : Option Start := do
  let _ ← read16 pdata 0
  let length ← read16 pdata 2
  let programInfoLength := length &&& 0x0FFF
  pure {
    descriptors := pdata.drop 4
    length := programInfoLength
    nodes := pdata.drop (4 + programInfoLength)
    sectionLen :=
      toInt16 (toInt16 (toInt16 (header.sectionLength - (5 + 4)) - 2) - (2 + programInfoLength)) }

-- parse_nit and parse_bat
def streamsStart (header : TableHeader) (pdata : Block) : Option Start := do
  let word ← read16 pdata 0
  let length := word &&& 0xFFF
  let rest := pdata.drop (2 + length)
  let _ ← read16 rest 0
  pure {
    descriptors := pdata.drop 2
    length := length
    nodes := rest.drop 2
    sectionLen := toInt16 (toInt16 (header.sectionLength - (5 + 4)) - (4 + length)) }

def sdtStart (header : TableHeader) (pdata : Block) : Option Start := do
  let _ ← read16 pdata 0
  pure {
    descriptors := []
    length := 0
    nodes := pdata.drop 3
    sectionLen := toInt16 (toInt16 (header.sectionLength - (5 + 4)) - 3) }

def eitStart (header : TableHeader) (pdata : Block) : Option Start := do
  let _ ← read16 pdata 0
  let _ ← read16 pdata 2
  let _ ← read8 pdata 4
  let _ ← read8 pdata 5
  pure {
    descriptors := []
    length := 0
    nodes := pdata.drop 6
    sectionLen := toUInt16 (toUInt16 (header.sectionLength - (5 + 4)) - 6) }

end Starts

def pmtPlan : Plan (EsNode Empty) := ⟨.pmt, esLayout, pmtStart⟩

def nitPlan : Plan (TransportStreamNode Empty) := ⟨.nit, streamLayout false, streamsStart⟩

def batPlan : Plan (TransportStreamNode Empty) := ⟨.bat, streamLayout true, streamsStart⟩

def sdtPlan : Plan (ServiceNode Empty) := ⟨.sdt, serviceLayout, sdtStart⟩

def eitPlan : Plan (EventNode Empty) := ⟨.eit, eventLayout, eitStart⟩

variable {D : Type} (ops : DescriptorOps D)

section View

def esView (pn : EsNode D) : EsNode Empty × List (Descriptor D) :=
  (⟨pn.streamType, pn.elementaryPid, pn.esInfoLength, []⟩, pn.list)

def streamView (pn : TransportStreamNode D) : TransportStreamNode Empty × List (Descriptor D) :=
  (⟨pn.transportStreamId, pn.originalNetworkId, pn.transportDescriptorsLength, []⟩, pn.list)

def serviceView (pn : ServiceNode D) : ServiceNode Empty × List (Descriptor D) :=
  (⟨pn.serviceId, pn.eitScheduleFlag, pn.eitPresentFollowingFlag, pn.runningStatus, pn.freeCaMode,
    pn.descriptorsLoopLength, []⟩, pn.list)

def eventView (pn : EventNode D) : EventNode Empty × List (Descriptor D) :=
  (⟨pn.eventId, pn.startTime, pn.duration, pn.runningStatus, pn.freeCaMode,
    pn.descriptorsLoopLength, []⟩, pn.list)

def pmtView (pmt : Pmt D) : Content D (EsNode Empty) := ⟨pmt.list, pmt.h.map esView⟩

def nitView (nit : Nit D) : Content D (TransportStreamNode Empty) := ⟨nit.list, nit.h.map streamView⟩

def batView (bat : Bat D) : Content D (TransportStreamNode Empty) := ⟨bat.list, bat.h.map streamView⟩

def sdtView (sdt : Sdt D) : Content D (ServiceNode Empty) := ⟨[], sdt.h.map serviceView⟩

def eitView (eit : Eit D) : Content D (EventNode Empty) := ⟨[], eit.h.map eventView⟩

end View

-- nodes that are looked at in another way
theorem nodeLoop_map {E E' : Type} (wrap : Int → Int) (view : E → E')
    {readNode : Block → Allocating (E × Nat × Nat)}
    {readNode' : Block → Allocating (E' × Nat × Nat)}
    (same : ∀ pdata, (fun read => (view read.1, read.2)) <$> readNode pdata = readNode' pdata)
    (turns : Nat) (pdata : Block) (sectionLen : Int) (nodes : List E) :
    (fun read => (read.1.map view, read.2)) <$>
        nodeLoop wrap readNode turns pdata sectionLen nodes =
      nodeLoop wrap readNode' turns pdata sectionLen (nodes.map view) := by
  induction turns generalizing pdata sectionLen nodes with
  | zero =>
    rw [nodeLoop, nodeLoop]
    by_cases more : 0 < sectionLen
    · rw [if_pos more, if_pos more]
      rfl
    · rw [if_neg more, if_neg more]
      rfl
  | succ turns ih =>
    rw [nodeLoop, nodeLoop]
    by_cases more : 0 < sectionLen
    · rw [if_pos more, if_pos more, map_bind]
      congr 1
      funext given
      cases given with
      | false => rfl
      | true =>
        simp only [if_true, map_bind, ← same, bind_map_left]
        congr 1
        funext read
        rw [ih, List.map_append]
        rfl
    · rw [if_neg more, if_neg more]
      rfl

theorem nodeLoop_view {E E' B : Type} (wrap : Int → Int) (view : E → E')
    {readNode : Block → Allocating (E × Nat × Nat)}
    {readNode' : Block → Allocating (E' × Nat × Nat)}
    (same : ∀ pdata, (fun read => (view read.1, read.2)) <$> readNode pdata = readNode' pdata)
    (turns : Nat) (pdata : Block) (sectionLen : Int) (nodes : List E)
    (next : List E' → Int → Allocating B) :
    (nodeLoop wrap readNode turns pdata sectionLen nodes >>= fun read =>
        next (read.1.map view) read.2) =
      nodeLoop wrap readNode' turns pdata sectionLen (nodes.map view) >>= fun read =>
        next read.1 read.2 := by
  rw [← nodeLoop_map wrap view same, bind_map_left]

-- a read that depends on nothing may be made before
theorem lift_comm {S A B C : Type} (action : StateT S Option A) (value : Option B)
    (next : A → B → StateT S Option C) :
    (action >>= fun first => (liftM value : StateT S Option B) >>= fun second => next first second) =
      ((liftM value : StateT S Option B) >>= fun second => action >>= fun first =>
        next first second) := by
  cases value with
  | none =>
    funext state
    cases ran : action state with
    | none => exact state_none ran
    | some result =>
      rw [state_bind ran]
      rfl
  | some found => rfl

section Views

variable {ops}

theorem readEs_view (pdata : Block) :
    (fun read => (esView read.1, read.2)) <$> readEs ops pdata = esLayout.readNode ops pdata := by
  simp only [readEs, Layout.readNode, esLayout, esFields, map_bind, map_pure, esView,
    liftM_bind, liftM_pure, bind_assoc, pure_bind]

theorem readTransportStream_view (initNode : Bool) (pdata : Block) :
    (fun read => (streamView read.1, read.2)) <$> readTransportStream ops pdata =
      (streamLayout initNode).readNode ops pdata := by
  simp only [readTransportStream, Layout.readNode, streamLayout, streamFields, map_bind, map_pure,
    streamView, liftM_bind, liftM_pure, bind_assoc, pure_bind]

theorem readService_view (pdata : Block) :
    (fun read => (serviceView read.1, read.2)) <$> readService ops pdata =
      serviceLayout.readNode ops pdata := by
  simp only [readService, Layout.readNode, serviceLayout, serviceFields, map_bind, map_pure,
    serviceView, liftM_bind, liftM_pure, bind_assoc, pure_bind]

theorem readEvent_view (pdata : Block) :
    (fun read => (eventView read.1, read.2)) <$> readEvent ops pdata =
      eventLayout.readNode ops pdata := by
  simp only [readEvent, Layout.readNode, eventLayout, eventFields, map_bind, map_pure,
    eventView, liftM_bind, liftM_pure, bind_assoc, pure_bind]

theorem decodePmt_view (header : TableHeader) (pdata : Block) (pmt : Pmt D) :
    (fun decoded => (pmtView decoded.content, decoded.ret)) <$> decodePmt ops header pdata pmt =
      pmtPlan.decode ops header pdata (pmtView pmt) := by
  have owned : (pmt.h.map esView).flatMap Prod.snd = pmt.h.flatMap EsNode.list := by
    rw [List.flatMap_map]
    rfl
  simp only [decodePmt, Plan.decode, pmtPlan, Kind.freed, pmtView, pmtStart, map_bind,
    map_pure, liftM_bind, liftM_pure, bind_assoc, pure_bind, Plan.readList, Kind.hasList, if_true,
    Kind.keeps, Kind.clearing, Option.isSome_some, owned]
  refine bind_congr fun _ => bind_congr fun _ => bind_congr fun _ => bind_congr fun length => ?_
  refine bind_congr fun list => ?_
  exact nodeLoop_view toInt16 esView readEs_view _ _ _ [] fun h ret =>
    pure (Content.mk list h, ret)

theorem readTransportLoops_view (header : TableHeader) (pdata : Block) {B : Type}
    (initNode : Bool)
    (next : Content D (TransportStreamNode Empty) → Int → Allocating B) :
    (readTransportLoops ops header.sectionLength pdata >>= fun loops =>
        next ⟨loops.list, loops.h.map streamView⟩ loops.ret) = (do
      let start ← streamsStart header pdata
      let list ← parseDescriptors ops [] start.descriptors start.length
      let read ← nodeLoop toInt16 ((streamLayout initNode).readNode ops) (start.nodes.length + 1)
        start.nodes start.sectionLen []
      next ⟨list, read.1⟩ read.2) := by
  simp only [readTransportLoops, streamsStart, liftM_bind, liftM_pure, bind_assoc, pure_bind,
    lift_comm]
  refine bind_congr fun word => bind_congr fun loopWord => bind_congr fun list => ?_
  exact nodeLoop_view toInt16 streamView (readTransportStream_view initNode) _ _ _ []
    fun h ret => next ⟨list, h⟩ ret

theorem decodeNit_view (header : TableHeader) (pdata : Block) (nit : Nit D) :
    (fun decoded => (nitView decoded.content, decoded.ret)) <$> decodeNit ops header pdata nit =
      nitPlan.decode ops header pdata (nitView nit) := by
  simp only [decodeNit, Plan.decode, nitPlan, Kind.freed, nitView, map_bind, map_pure,
    Plan.readList, Kind.hasList, if_true, Kind.keeps, Kind.clearing, Option.isSome_some]
  refine bind_congr fun _ => ?_
  exact readTransportLoops_view header pdata false fun content ret => pure (content, ret)

theorem decodeBat_view (header : TableHeader) (pdata : Block) (bat : Bat D) :
    (fun decoded => (batView decoded.content, decoded.ret)) <$> decodeBat ops header pdata bat =
      batPlan.decode ops header pdata (batView bat) := by
  simp only [decodeBat, Plan.decode, batPlan, Kind.freed, batView, map_bind, map_pure,
    Plan.readList, Kind.hasList, if_true, Kind.keeps, Kind.clearing, Option.isSome_some]
  refine bind_congr fun _ => ?_
  exact readTransportLoops_view header pdata true fun content ret => pure (content, ret)

theorem decodeSdt_view (header : TableHeader) (pdata : Block) (sdt : Sdt D) :
    (fun decoded => (sdtView decoded.content, decoded.ret)) <$> decodeSdt ops header pdata sdt =
      sdtPlan.decode ops header pdata (sdtView sdt) := by
  have owned : (sdt.h.map serviceView).flatMap Prod.snd = sdt.h.flatMap ServiceNode.list := by
    rw [List.flatMap_map]
    rfl
  simp only [decodeSdt, Plan.decode, sdtPlan, Kind.freed, sdtView, sdtStart, map_bind,
    map_pure, liftM_bind, liftM_pure, bind_assoc, pure_bind, Plan.readList, Kind.hasList,
    Kind.keeps, Kind.clearing, Option.isSome_some, owned, if_true, Bool.false_eq_true, if_false]
  refine bind_congr fun _ => bind_congr fun _ => ?_
  exact nodeLoop_view toInt16 serviceView readService_view _ _ _ [] fun h ret =>
    pure (Content.mk [] h, ret)

theorem decodeEit_view (header : TableHeader) (pdata : Block) (eit : Eit D) :
    (fun decoded => (eitView decoded.content, decoded.ret)) <$> decodeEit ops header pdata eit =
      eitPlan.decode ops header pdata (eitView eit) := by
  simp only [decodeEit, Plan.decode, eitPlan, Kind.freed, eitView, eitStart, map_bind,
    map_pure, liftM_bind, liftM_pure, bind_assoc, pure_bind, Plan.readList, Kind.hasList,
    Kind.keeps, Kind.clearing, Option.isSome_none, Bool.false_eq_true, if_false]
  refine bind_congr fun _ => bind_congr fun _ => bind_congr fun _ => bind_congr fun _ => ?_
  exact nodeLoop_view toUInt16 eventView readEvent_view _ _ _ eit.h fun h ret =>
    pure (Content.mk [] h, ret)

end Views

end TsAnalyze.Lists
