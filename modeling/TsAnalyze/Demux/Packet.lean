import TsAnalyze.Demux.SectionPreproc

set_option autoImplicit false

namespace TsAnalyze.Demux

open Memory

def tsSyncByte : UInt8 := 0x47

def nullPid : Nat := 0x1FFF

-- the part of a packet in front of its payload, as far as ts_proc looks at it
structure TsHeader where
  transportErrorIndicator : Bool
  payloadUnitStartIndicator : Bool
  pid : Pid
  adaptationFieldControl : Nat
  continuityCounter : UInt8
  -- the clock that ts_adaptation_field_proc passes to calc_bitrate
  pcr : Option UInt64
  -- where the payload pointer stands
  payload : Nat

def readBit (byte : UInt8) (mark : Nat) : Bool :=
  (byte.toNat >>> mark) &&& 1 = 1

structure PcrClock where
  programClockReferenceBase : Nat
  programClockReferenceExtension : Nat

def calcPcrClock (clock : PcrClock) : UInt64 :=
  UInt64.ofNat (clock.programClockReferenceBase * 300 + clock.programClockReferenceExtension)

def readPcr (data : Block) (offset : Nat) : Option PcrClock := do
  let high ← read32 data offset
  let low ← read8 data (offset + 4)
  let extension ← read16 data (offset + 4)
  return ⟨(high <<< 1) ||| (low.toNat >>> 7), extension &&& 0x1FF⟩

-- a clock that is present only when its flag is set, and the pointer behind it
def optionalPcr (present : Bool) (data : Block) (ptr : Nat) : Option (Option PcrClock × Nat) :=
  if present then (readPcr data ptr).map fun clock => (some clock, ptr + 6) else some (none, ptr)

-- the pointer behind a length byte and the bytes it announces
def optionalBytes (present : Bool) (data : Block) (ptr : Nat) : Option Nat :=
  if present then (read8 data ptr).map fun length => ptr + 1 + length.toNat else some ptr

/-- The clock that `ts_adaptation_field_proc` finds for calc_bitrate, and its return value. -/
def tsAdaptationFieldProc (data : Block) (start : Nat) (len : UInt8) :
    Option (Option PcrClock × Int) := do
  let flags ← read8 data start
  let (pcr, ptr) ← optionalPcr (readBit flags 4) data (start + 1)
  let (_, ptr) ← optionalPcr (readBit flags 3) data ptr
  let ptr ← optionalBytes (readBit flags 1) data (if readBit flags 2 then ptr + 1 else ptr)
  let ptr ← optionalBytes (readBit flags 0) data ptr
  return (pcr, if len - UInt8.ofNat (ptr - start) ≠ 0 then -1 else 0)

/-- `none` inside: the sync byte is missing. -/
def readHeader (data : Block) : Option (Option TsHeader) := do
  let syncByte ← read8 data 0
  if syncByte ≠ tsSyncByte then return none
  let word ← read16 data 1
  let flags ← read8 data 1
  let control ← read8 data 3
  let head : TsHeader :=
    { transportErrorIndicator := readBit flags 7
      payloadUnitStartIndicator := readBit flags 6
      pid := Fin.ofNat 8192 (word &&& 0x1FFF)
      adaptationFieldControl := (control.toNat >>> 4) &&& 0x3
      continuityCounter := control &&& 0x3
      pcr := none
      payload := 4 }
  if head.adaptationFieldControl = 2 ∨ head.adaptationFieldControl = 3 then
    let length ← read8 data 4
    let (pcr, _) ← tsAdaptationFieldProc data 5 length
    return some { head with pcr := pcr.map calcPcrClock, payload := 5 + length.toNat }
  else return some head

theorem stable_readPcr (offset : Nat) : Stable fun data => readPcr data offset :=
  stable_bind _ _ (stable_read32 _) fun _ => stable_bind _ _ (stable_read8 _) fun _ =>
    stable_bind _ _ (stable_read16 _) fun _ => stable_pure _

theorem stable_optionalPcr (present : Bool) (ptr : Nat) :
    Stable fun data => optionalPcr present data ptr :=
  stable_ite _ _ _ (stable_map _ _ (stable_readPcr _)) (stable_pure _)

theorem stable_optionalBytes (present : Bool) (ptr : Nat) :
    Stable fun data => optionalBytes present data ptr :=
  stable_ite _ _ _ (stable_map _ _ (stable_read8 _)) (stable_pure _)

theorem stable_tsAdaptationFieldProc (start : Nat) (len : UInt8) :
    Stable fun data => tsAdaptationFieldProc data start len := by
  apply stable_bind _ _ (stable_read8 _)
  intro flags
  apply stable_bind _ _ (stable_optionalPcr _ _)
  rintro ⟨pcr, ptr⟩
  apply stable_bind _ _ (stable_optionalPcr _ _)
  rintro ⟨opcr, ptr⟩
  apply stable_bind _ _ (stable_optionalBytes _ _)
  intro ptr
  apply stable_bind _ _ (stable_optionalBytes _ _)
  intro ptr
  exact stable_pure _

/-- A packet whose header and adaptation field lie inside it is read the same in any container. -/
theorem stable_readHeader : Stable readHeader := by
  apply stable_bind _ _ (stable_read8 _)
  intro syncByte
  apply stable_ite
  · exact stable_pure _
  apply stable_bind _ _ (stable_read16 _)
  intro word
  apply stable_bind _ _ (stable_read8 _)
  intro flags
  apply stable_bind _ _ (stable_read8 _)
  intro control
  apply stable_ite
  · apply stable_bind _ _ (stable_read8 _)
    intro length
    apply stable_bind _ _ (stable_tsAdaptationFieldProc _ _)
    intro found
    exact stable_pure _
  · exact stable_pure _

structure PidOps where
  pktsIn : UInt64 := 0
  sectionsIn : UInt64 := 0
  errorIn : UInt64 := 0
  bitsIn : UInt64 := 0
  pcr : UInt64 := 0
  bitrate : UInt64 := 0

-- `none` is the division by zero that two equal clocks of one PID lead to
def calcBitrate (dev : PidOps) (pktLen : UInt8) (pcr : UInt64) : Option PidOps :=
  let bits := dev.pktsIn * UInt64.ofNat pktLen.toNat * 8
  if pcr - dev.pcr = 0 then none
  else some
    { dev with
        bitrate := (bits - dev.bitsIn) * 27000000 / (pcr - dev.pcr)
        pcr := pcr
        bitsIn := bits }

/-- What ts_proc calls outside its file, over a state `σ` of the tables and streams. -/
structure Environment (σ : Type) where
  checkPmtPid : σ → Pid → Bool
  checkSectionPid : σ → Pid → Bool
  checkEsPid : σ → Pid → Bool
  -- the memory from the delivered pointer on, and the length
  filterProc : σ → Pid → Block → Nat → Option σ
  -- does an allocation made for the n-th packet succeed?
  malloc : Nat → Bool

structure Delivery where
  pid : Pid
  bytes : Block
  length : Nat
deriving DecidableEq

structure Ts (σ : Type) where
  pidDev : Pid → PidOps := fun _ => {}
  sec : Pid → SectionParser := fun _ => {}
  environment : σ
  -- what filter_proc has been given, and the number of packets ts_proc has been given
  delivered : List Delivery := []
  packets : Nat := 0

variable {σ : Type}

def psiOrPes (env : Environment σ) (environment : σ) (pid : Pid) : PsiOrPes :=
  if pid.val < 0x20 ∨ env.checkPmtPid environment pid ∨ env.checkSectionPid environment pid then
    .psi
  else .pes

def unreferenced (env : Environment σ) (environment : σ) (pid : Pid) : Bool :=
  psiOrPes env environment pid = .pes && !env.checkEsPid environment pid

def noDataByte (head : TsHeader) : Bool :=
  head.adaptationFieldControl = 2 || head.adaptationFieldControl = 0

def countError (head : TsHeader) (dev : PidOps) : PidOps :=
  if noDataByte head then dev
  else if head.transportErrorIndicator then { dev with errorIn := dev.errorIn + 1 }
  else dev

@[simp] theorem countError_pktsIn (head : TsHeader) (dev : PidOps) :
    (countError head dev).pktsIn = dev.pktsIn := by
  unfold countError
  split_ifs <;> rfl

@[simp] theorem countError_pcr (head : TsHeader) (dev : PidOps) :
    (countError head dev).pcr = dev.pcr := by
  unfold countError
  split_ifs <;> rfl

@[simp] theorem countError_bitsIn (head : TsHeader) (dev : PidOps) :
    (countError head dev).bitsIn = dev.bitsIn := by
  unfold countError
  split_ifs <;> rfl

@[simp] theorem countError_bitrate (head : TsHeader) (dev : PidOps) :
    (countError head dev).bitrate = dev.bitrate := by
  unfold countError
  split_ifs <;> rfl

def countPacket (dev : PidOps) (pktLen : UInt8) (head : TsHeader) : Option PidOps :=
  let dev := { dev with pktsIn := dev.pktsIn + 1 }
  match head.pcr with
  | some pcr => (calcBitrate dev pktLen pcr).map (countError head)
  | none => some (countError head dev)

def packetCall (env : Environment σ) (state : Ts σ) (data : Block) (len : UInt8)
    (head : TsHeader) : Call where
  pkt := data.drop head.payload
  -- every PL_STEP so far has gone through the `uint8_t` len
  len := (len - UInt8.ofNat head.payload).toNat
  payloadUnitStartIndicator := head.payloadUnitStartIndicator
  continuityCounter := head.continuityCounter
  psiOrPes := psiOrPes env state.environment head.pid
  malloc := env.malloc state.packets

def deliver (env : Environment σ) (state : Ts σ) (pid : Pid) (r : Return) : Option (Ts σ) :=
  if r.secLen = -1 ∨ r.secLen = 0 then some state
  else do
    let dev := state.pidDev pid
    let pbuf ← r.buffering
    let environment ← env.filterProc state.environment pid pbuf (toUint16 r.secLen)
    return { state with
      pidDev := Function.update state.pidDev pid { dev with sectionsIn := dev.sectionsIn + 1 }
      environment := environment
      delivered := state.delivered ++ [⟨pid, pbuf.take (toUint16 r.secLen), toUint16 r.secLen⟩] }

def procSection (env : Environment σ) (state : Ts σ) (data : Block) (len : UInt8)
    (head : TsHeader) : Option (Ts σ) := do
  let (p, r) ← sectionPreproc (state.sec head.pid) (packetCall env state data len head)
  deliver env { state with sec := Function.update state.sec head.pid p } head.pid r

def Ts.count (state : Ts σ) (pid : Pid) (dev : PidOps) : Ts σ :=
  { state with packets := state.packets + 1, pidDev := Function.update state.pidDev pid dev }

@[simp] theorem count_environment (state : Ts σ) (pid : Pid) (dev : PidOps) :
    (state.count pid dev).environment = state.environment := rfl

def tsProc (env : Environment σ) (state : Ts σ) (data : Block) (len : UInt8) :
    Option (Ts σ × Int) := do
  match ← readHeader data with
  | none => return ({ state with packets := state.packets + 1 }, -1)
  | some head =>
      let dev ← countPacket (state.pidDev head.pid) len head
      let state := state.count head.pid dev
      if noDataByte head ∨ head.pid.val = nullPid then return (state, 0)
      else if unreferenced env state.environment head.pid then return (state, -1)
      else
        let state ← procSection env state data len head
        return (state, 0)

-- ts_process drops the returned value
def procStep (env : Environment σ) (state : Ts σ) (data : Block) (len : Nat) : Option (Ts σ) :=
  (tsProc env state data (UInt8.ofNat len)).map Prod.fst

-- ts_proc returns before it calls section_preproc
def Stops (env : Environment σ) (environment : σ) (head : TsHeader) : Prop :=
  (noDataByte head ∨ head.pid.val = nullPid) ∨ unreferenced env environment head.pid = true

instance (env : Environment σ) (environment : σ) (head : TsHeader) :
    Decidable (Stops env environment head) :=
  inferInstanceAs (Decidable (_ ∨ _))

theorem procStep_unsynchronised (env : Environment σ) (state : Ts σ) (data : Block) (len : Nat)
    (found : readHeader data = some none) :
    procStep env state data len = some { state with packets := state.packets + 1 } := by
  simp [procStep, tsProc, found]

theorem procStep_header (env : Environment σ) (state : Ts σ) (data : Block) (len : Nat)
    (head : TsHeader) (found : readHeader data = some (some head)) :
    procStep env state data len =
      (countPacket (state.pidDev head.pid) (UInt8.ofNat len) head).bind fun dev =>
        if Stops env state.environment head then some (state.count head.pid dev)
        else procSection env (state.count head.pid dev) data (UInt8.ofNat len) head := by
  simp only [procStep, tsProc, found, Option.bind_eq_bind, Option.bind_some]
  cases countPacket (state.pidDev head.pid) (UInt8.ofNat len) head with
  | none => rfl
  | some dev =>
    by_cases empty : noDataByte head ∨ head.pid.val = nullPid
    · simp [Stops, empty]
    · by_cases dropped : unreferenced env state.environment head.pid = true
      · simp [Stops, empty, dropped]
      · simp [Stops, empty, dropped, Option.map_bind]

/-- What one call of ts_proc does to the parsers and to what filter_proc works on. -/
theorem procStep_cases (env : Environment σ) (state after : Ts σ) (data : Block) (len : Nat)
    (taken : procStep env state data len = some after) :
    (after.sec = state.sec ∧ after.environment = state.environment ∧
        (readHeader data = some none ∨ ∃ head, readHeader data = some (some head) ∧
          Stops env state.environment head)) ∨
      ∃ head p r, readHeader data = some (some head) ∧ ¬Stops env state.environment head ∧
        sectionPreproc (state.sec head.pid)
          (packetCall env { state with packets := state.packets + 1 } data (UInt8.ofNat len) head) =
            some (p, r) ∧
        after.sec = Function.update state.sec head.pid p ∧
        ((r.secLen = -1 ∨ r.secLen = 0) ∧ after.environment = state.environment ∨
          ¬(r.secLen = -1 ∨ r.secLen = 0) ∧ ∃ pbuf, r.buffering = some pbuf ∧
            env.filterProc state.environment head.pid pbuf (toUint16 r.secLen) =
              some after.environment) := by
  cases header : readHeader data with
  | none => simp [procStep, tsProc, header] at taken
  | some found =>
    cases found with
    | none =>
      rw [procStep_unsynchronised env state data len header] at taken
      cases taken
      exact Or.inl ⟨rfl, rfl, Or.inl rfl⟩
    | some head =>
      rw [procStep_header env state data len head header] at taken
      rcases Option.bind_eq_some_iff.mp taken with ⟨dev, -, later⟩
      by_cases stops : Stops env state.environment head
      · rw [if_pos stops] at later
        cases later
        exact Or.inl ⟨rfl, rfl, Or.inr ⟨head, rfl, stops⟩⟩
      · right
        rw [if_neg stops] at later
        rcases Option.bind_eq_some_iff.mp later with ⟨⟨p, r⟩, parsed, delivered⟩
        refine ⟨head, p, r, rfl, stops, parsed, ?_⟩
        simp only [deliver] at delivered
        by_cases nothing : r.secLen = -1 ∨ r.secLen = 0
        · rw [if_pos nothing] at delivered
          cases delivered
          exact ⟨rfl, Or.inl ⟨nothing, rfl⟩⟩
        · rw [if_neg nothing] at delivered
          rcases Option.bind_eq_some_iff.mp delivered with ⟨pbuf, buffered, filtered⟩
          rcases Option.bind_eq_some_iff.mp filtered with ⟨environment, given, same⟩
          cases same
          exact ⟨rfl, Or.inr ⟨nothing, pbuf, buffered, given⟩⟩

end TsAnalyze.Demux
