import TsAnalyze.Demux.Packet
import TsAnalyze.Tables.Handlers
import TsAnalyze.Tables.PmtRegistry

set_option autoImplicit false

namespace TsAnalyze.Tables

open Memory Demux Filters

variable {D P O : Type}

structure Tdt where
  sectionLength : Nat := 0
  utcTime : Region 5 := Region.zeros 5

structure Tot (D : Type) where
  sectionLength : Nat := 0
  utcTime : Region 5 := Region.zeros 5
  descriptorsLoopLength : Nat := 0
  list : List (Descriptor D) := []

def parseTdt (pbuf : Block) (tdt : Tdt) : Option (Tdt × Int) := do
  let tableId ← read8 pbuf 0
  if tableId ≠ 0x70 then return (tdt, -1)
  let word ← read16 pbuf 1
  let utcTime ← tdt.utcTime.memcpy 0 (pbuf.drop 3) 5
  return (⟨word &&& 0xFFF, utcTime⟩, 0)

def parseTot (ops : DescriptorOps D) (pbuf : Block) (tot : Tot D) : Allocating (Tot D × Int) := do
  let tableId ← read8 pbuf 0
  if tableId ≠ 0x73 then return (tot, -1)
  let word ← read16 pbuf 1
  let utcTime ← tot.utcTime.memcpy 0 (pbuf.drop 3) 5
  let length ← read16 pbuf 8
  let descriptorsLoopLength := length &&& 0xFFF
  freeDescriptors ops tot.list
  let list ← parseDescriptors ops [] (pbuf.drop 10) descriptorsLoopLength
  return (⟨word &&& 0xFFF, utcTime, descriptorsLoopLength, list⟩, 0)

/-- The callbacks of all the filters. -/
inductive Callback
  | table (proc : TableProc)
  | scte
  | pes
deriving DecidableEq

-- what is registered on the PIDs, by table.c, scte.c and pes.c
structure Pids where
  filters : Client Callback
  pmtBitmap : Nat → Bool := fun _ => false
  sectionBitmap : Nat → Bool := fun _ => false
  scteBitmap : Nat → Bool := fun _ => false
  sctePidNum : Nat := 0
  pesBitmap : Nat → Bool := fun _ => false

def initFilter (filters : Client Callback) (pid : Pid) (tableid mask : UInt8) (func : Callback) :
    Client Callback :=
  filters.register pid (tableParam tableid mask) func true

def mgtPid : Nat := 0x1FFB

def scteMaxPidNum : Nat := 8

def scteSpliceTid : UInt8 := 0xFC

namespace Pids

def init (selected : Pid → Bool) : Pids where
  filters :=
    (if chosenFilters selected = [] then tableFilters else chosenFilters selected).foldl
      (fun filters filter =>
        initFilter filters filter.pid filter.tableid filter.mask (.table filter.func))
      (Client.initial fun _ => {})
  sectionBitmap pid := chosenFilters selected = [] && pid = mgtPid

variable (pids : Pids)

def registerPmtOps (pid : Nat) : Pids :=
  if pid = nitPid then pids
  else
    { pids with
      pmtBitmap := Function.update pids.pmtBitmap pid true
      filters := initFilter pids.filters (Fin.ofNat 8192 pid) pmtTid 0xFF (.table .pmt) }

def registerSectionOps (pid : Nat) (tableid : UInt8) (callback : Callback) : Pids :=
  if pid = nitPid then pids
  else if pids.sectionBitmap pid then pids
  else
    { pids with
      sectionBitmap := Function.update pids.sectionBitmap pid true
      filters := initFilter pids.filters (Fin.ofNat 8192 pid) tableid 0xFF callback }

def registerScteOps (pid : Nat) : Pids :=
  if pids.sctePidNum ≥ scteMaxPidNum then pids
  else if pids.scteBitmap pid then pids
  else
    Pids.registerSectionOps
      { pids with
        scteBitmap := Function.update pids.scteBitmap pid true
        sctePidNum := pids.sctePidNum + 1 } pid scteSpliceTid .scte

def registerPesOps (pid : Nat) : Pids :=
  if pids.pesBitmap pid then pids
  else
    { pids with
      pesBitmap := Function.update pids.pesBitmap pid true
      filters := initFilter pids.filters (Fin.ofNat 8192 pid) 0 0 .pes }

def perform : Registration → Pids
  | .pmt pid => pids.registerPmtOps pid
  | .section pid => pids.registerSectionOps pid 0 (.table .default)
  | .scte pid => pids.registerScteOps pid
  | .pes pid _ => pids.registerPesOps pid
  | .pesData .. => pids

end Pids

/-- The handlers of other files, which keep what they parse in `P` and `O`. -/
structure Outside (P O : Type) where
  atscPsipProc : P → Block → Nat → Option P
  scteProc : O → Pid → Block → Nat → Option O
  pesProc : O → Pid → Block → Nat → Option O
  registers : O → Registration → O

/-- A table with the memory that its pointers lead to, and its counter of stats_t. -/
structure Held (C : Type) where
  heap : Heap := Heap.empty
  table : C
  sections : UInt64 := 0

structure Analysis (D P O : Type) where
  pids : Pids
  pat : Versions Pat := { heap := Heap.empty }
  cat : Versions (List (Descriptor D)) := { heap := Heap.empty }
  caNum : Nat := 0
  tables : (name : TableName) → Held (Table (Content D name)) :=
    fun name => { table := { content := cleared name } }
  tdt : Held Tdt := { table := {} }
  tot : Held (Tot D) := { table := {} }
  psip : P
  streams : O

variable (ops : DescriptorOps D) (outside : Outside P O)

def Analysis.perform (state : Analysis D P O) (registration : Registration) : Analysis D P O :=
  { state with
    pids := state.pids.perform registration
    streams := outside.registers state.streams registration }

def Analysis.performAll (state : Analysis D P O) (registered : List Registration) :
    Analysis D P O :=
  registered.foldl (Analysis.perform outside) state

variable (pid : Pid) (pkt : Block) (len : Nat)

def Analysis.patProc (state : Analysis D P O) : Option (Analysis D P O) :=
  (Tables.patProc state.pat pkt len).map fun pat =>
    Analysis.performAll outside { state with pat := pat }
      (pat.registered.drop state.pat.registered.length)

-- parse_cat registers nothing
def Analysis.catProc (state : Analysis D P O) : Option (Analysis D P O) :=
  (Tables.catProc ops state.cat pkt len).map fun (cat, caNum) =>
    { state with cat := cat, caNum := caNum }

def Held.count {C : Type} (held : Held C) (name : TableName) : UInt64 :=
  if name.counted then held.sections + 1 else held.sections

def Analysis.give (name : TableName) (state : Analysis D P O) : Option (Analysis D P O) :=
  let held := state.tables name
  (parseTable (decoder ops name) held.heap pkt len held.table).map fun handled =>
    Analysis.performAll outside
      { state with
        tables := Function.update state.tables name
          ⟨handled.heap, handled.table, held.count name⟩ } handled.registered

-- tsdt_proc, pmt_proc, nit_proc, sdt_bat_proc and eit_proc
def Analysis.sectionProc (proc : Proc) (state : Analysis D P O) : Option (Analysis D P O) :=
  (proc.target pkt).bind fun target =>
    match target with
    | none => some state
    | some name => Analysis.give ops outside pkt len name state

def Analysis.tdtTotProc (state : Analysis D P O) : Option (Analysis D P O) := do
  let tableId ← read8 pkt 0
  if tableId = 0x70 then
    let (tdt, _) ← parseTdt pkt state.tdt.table
    return { state with tdt := { state.tdt with table := tdt, sections := state.tdt.sections + 1 } }
  else if tableId = 0x73 then
    let ((tot, _), heap) ← parseTot ops pkt state.tot.table state.tot.heap
    return { state with tot := ⟨heap, tot, state.tot.sections + 1⟩ }
  else return state

-- every callback of TableProc but default_proc
def Analysis.tableProc (state : Analysis D P O) : TableProc → Option (Analysis D P O)
  | .default => some state
  | .pat => state.patProc outside pkt len
  | .cat => state.catProc ops pkt len
  | .tsdt => state.sectionProc ops outside pkt len .tsdt
  | .pmt => state.sectionProc ops outside pkt len (.pmt pid)
  | .nit => state.sectionProc ops outside pkt len .nit
  | .eit => state.sectionProc ops outside pkt len .eit
  | .sdtBat => state.sectionProc ops outside pkt len .sdtBat
  | .tdtTot => state.tdtTotProc ops pkt
  | .atscPsip =>
      (outside.atscPsipProc state.psip pkt len).map fun psip => { state with psip := psip }

-- the switch of default_proc
def defaultProc (pid : Pid) : TableProc :=
  if pid = 0x00 then .pat
  else if pid = 0x01 then .cat
  else if pid = 0x10 then .nit
  else if pid = 0x12 then .eit
  else if pid = 0x11 then .sdtBat
  else if pid = 0x14 then .tdtTot
  else .default

def Analysis.call (state : Analysis D P O) : Callback → Option (Analysis D P O)
  | .table .default => state.tableProc ops outside pid pkt len (defaultProc pid)
  | .table proc => state.tableProc ops outside pid pkt len proc
  | .scte => (outside.scteProc state.streams pid pkt len).map fun streams =>
      { state with streams := streams }
  | .pes => (outside.pesProc state.streams pid pkt len).map fun streams =>
      { state with streams := streams }

-- The scan of filter_proc from slot `i` on: it comes to the slots that the callbacks add.
def Analysis.scanFrom : Nat → Nat → Analysis D P O → Option (Analysis D P O)
  | 0, i, state =>
      if i < (state.pids.filters.pidFilter pid).slots.length then none else some state
  | turns + 1, i, state =>
      match (state.pids.filters.pidFilter pid).slots[i]? with
      | none => some state
      | some slot => do
          let matched ← filterMatch slot pkt
          let state ← if matched then slot.callback.bind (state.call ops outside pid pkt len)
            else some state
          Analysis.scanFrom turns (i + 1) state

-- Without the scan there is at most one callback.
def Analysis.filterProc (state : Analysis D P O) : Option (Analysis D P O) :=
  if (state.pids.filters.pidFilter pid).multi then
    state.scanFrom ops outside pid pkt len numFilterMax 0
  else do
    let (called, _) ← Filters.filterProc state.pids.filters.pidFilter pid pkt
    called.foldlM (fun state => state.call ops outside pid pkt len) state

-- `detail` is the option without which no PES packets are looked at
def environment (detail : Bool) : Environment (Analysis D P O) where
  checkPmtPid state pid := state.pids.pmtBitmap pid
  checkSectionPid state pid := state.pids.sectionBitmap pid
  checkEsPid state pid := detail && state.pids.pesBitmap pid
  filterProc state pid pkt len := state.filterProc ops outside pid pkt len
  malloc _ := true

def Analysis.initial (selected : Pid → Bool) (psip : P) (streams : O) : Analysis D P O where
  pids := Pids.init selected
  psip := psip
  streams := streams

end TsAnalyze.Tables
