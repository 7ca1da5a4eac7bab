import TsAnalyze.Demux.Stream
import TsAnalyze.Shared.Stability
import TsAnalyze.Tables.Analysis

set_option autoImplicit false

namespace TsAnalyze.Tables

open Memory Demux Filters

variable {D P O C : Type}

-- des_ops look at their descriptor
def DescriptorOps.Settled (ops : DescriptorOps D) : Prop :=
  ∀ tag length, Stable fun memory => ops.parse tag memory length

/-- The handlers of other files look at nothing behind their section. -/
structure Outside.Settled (outside : Outside P O) : Prop where
  psip : ∀ psip len, Stable fun pkt => outside.atscPsipProc psip pkt len
  scte : ∀ streams pid len, Stable fun pkt => outside.scteProc streams pid pkt len
  pes : ∀ streams pid len, Stable fun pkt => outside.pesProc streams pid pkt len

section Header

theorem stable_readFields : Stable readFields :=
  stable_bind _ _ (stable_read8 _) fun _ => stable_bind _ _ (stable_read8 _) fun _ =>
    stable_bind _ _ (stable_read16 _) fun _ => stable_pure _

theorem stable_readLongFields : Stable readLongFields :=
  stable_bind _ _ (stable_read16 _) fun _ => stable_bind _ _ (stable_read8 _) fun _ =>
    stable_bind _ _ (stable_read8 _) fun _ => stable_bind _ _ (stable_read8 _) fun _ =>
      stable_pure _

variable (heap : Heap) (bufSize : Nat) (ptable : TableHeader)

theorem stable_parseShortSection (fields : SectionFields) :
    Stable fun pbuf => parseShortSection heap pbuf bufSize ptable fields := by
  refine stable_bind (fun _ => heap.free (ptable.sections 0).ptr) _ (stable_pure _) fun freed => ?_
  refine stable_ite _ _ _ (stable_pure _) ?_
  exact stable_bind _ _ (stable_drop (stable_heap_memcpy _ _ _ _) 3) fun _ => stable_pure _

theorem stable_storeSection (curSec lastSec : UInt8) :
    Stable fun pbuf => storeSection heap pbuf bufSize ptable curSec lastSec := by
  refine stable_ite _ _ _ (stable_pure _) ?_
  exact stable_bind _ _ (stable_drop (stable_heap_memcpy _ _ _ _) 8) fun _ => stable_pure _

theorem stable_parseSectionHeader :
    Stable fun pbuf => parseSectionHeader heap pbuf bufSize ptable := by
  refine stable_bind _ _ stable_readFields fun fields => ?_
  refine stable_ite _ _ _ (stable_pure _) (stable_ite _ _ _ (stable_pure _) ?_)
  refine stable_ite _ _ _ (stable_parseShortSection heap bufSize ptable fields) ?_
  refine stable_bind _ _ stable_readLongFields fun long => ?_
  exact stable_ite _ _ _ (stable_pure _) (stable_storeSection heap bufSize _ _ _)

-- the parsers work on the copy of the section
theorem stable_parseTable (decoder : Decoder C) (table : Table C) :
    Stable fun pbuf => parseTable decoder heap pbuf bufSize table :=
  stable_bind _ _ (stable_parseSectionHeader heap bufSize table.header) fun _ => stable_pure _

end Header

theorem stable_checkSectionHeaderVersion (curVersion : Nat) :
    Stable fun pbuf => checkSectionHeaderVersion pbuf curVersion := by
  refine stable_bind _ _ (stable_read8 _) fun flags => ?_
  refine stable_ite _ _ _ (stable_pure _) ?_
  exact stable_bind _ _ (stable_read8 _) fun _ => stable_pure _

theorem stable_parse (decoder : Decoder C) (versions : Versions C) (bufSize : Nat) :
    Stable fun pbuf => versions.parse decoder pbuf bufSize := by
  cases active : versions.active with
  | none =>
    simp only [Versions.parse, active]
    exact stable_pure _
  | some table =>
    simp only [Versions.parse, active]
    exact stable_map _ _ (stable_parseTable _ _ _ _)

theorem stable_parseVersioned (decoder : Decoder C) (initial : C) (versions : Versions C)
    (bufSize : Nat) : Stable fun pbuf => parseVersioned decoder initial versions pbuf bufSize := by
  refine stable_bind _ _ (stable_checkSectionHeaderVersion _) fun ret => ?_
  refine stable_ite _ _ _ ?_ (stable_ite _ _ _ (stable_pure _) (stable_parse _ _ _))
  exact stable_ite _ _ _ (stable_parse _ _ _) (stable_pure _)

section Times

theorem stable_parseTdt (tdt : Tdt) : Stable fun pbuf => parseTdt pbuf tdt := by
  refine stable_bind _ _ (stable_read8 _) fun tableId => ?_
  refine stable_ite _ _ _ (stable_pure _) ?_
  refine stable_bind _ _ (stable_read16 _) fun word => ?_
  exact stable_bind _ _ (stable_drop (stable_memcpy _ _ _) 3) fun _ => stable_pure _

variable {ops : DescriptorOps D} (settled : ops.Settled)

include settled

theorem settled_descriptorLoop (turns : Nat) (l : Int) (list : List (Descriptor D)) :
    Memory.Settled fun ptr => descriptorLoop ops turns ptr l list := by
  induction turns generalizing l list with
  | zero => exact settled_pure _
  | succ turns ih =>
    refine settled_ite _ ?_ (settled_pure _)
    refine settled_bind (settled_lift (stable_read8 _)) fun tag => ?_
    refine settled_bind (settled_pure reserve) fun given => ?_
    refine settled_ite _ ?_ (settled_pure _)
    refine settled_bind (settled_lift (stable_read8 _)) fun length => ?_
    refine settled_bind (settled_lift (settled tag _)) fun content => ?_
    exact settled_drop (ih _ _) _

theorem settled_parseTot (tot : Tot D) : Memory.Settled fun pbuf => parseTot ops pbuf tot := by
  refine settled_bind (settled_lift (stable_read8 _)) fun tableId => ?_
  refine settled_ite _ (settled_pure _) ?_
  refine settled_bind (settled_lift (stable_read16 _)) fun word => ?_
  refine settled_bind (settled_lift (stable_drop (stable_memcpy _ _ _) 3)) fun utcTime => ?_
  refine settled_bind (settled_lift (stable_read16 _)) fun length => ?_
  refine settled_bind (settled_pure _) fun _ => ?_
  refine settled_bind ?_ fun list => settled_pure _
  exact settled_drop (settled_descriptorLoop settled _ _ _) 10

end Times

section Analysis

variable {ops : DescriptorOps D} (settled : ops.Settled)
variable {outside : Outside P O} (given : outside.Settled)
variable (pid : Pid) (len : Nat)

theorem stable_target (proc : Proc) : Stable proc.target := by
  cases proc with
  | tsdt => exact stable_pure _
  | pmt pid => exact stable_pure _
  | nit => exact stable_map _ _ (stable_read8 _)
  | sdtBat => exact stable_map _ _ (stable_read8 _)
  | eit => exact stable_map _ _ (stable_read8 _)

theorem stable_give (name : TableName) (state : Analysis D P O) :
    Stable fun pkt => state.give ops outside pkt len name :=
  stable_map _ _ (stable_parseTable _ _ _ _)

theorem stable_sectionProc (proc : Proc) (state : Analysis D P O) :
    Stable fun pkt => state.sectionProc ops outside pkt len proc := by
  refine stable_bind _ _ (stable_target proc) fun target => ?_
  cases target with
  | none => exact stable_pure _
  | some name => exact stable_give len name state

include settled in
theorem stable_tdtTotProc (state : Analysis D P O) : Stable fun pkt => state.tdtTotProc ops pkt := by
  refine stable_bind _ _ (stable_read8 _) fun tableId => ?_
  refine stable_ite _ _ _ ?_ (stable_ite _ _ _ ?_ (stable_pure _))
  · exact stable_bind _ _ (stable_parseTdt _) fun _ => stable_pure _
  · exact stable_bind _ _ (settled_parseTot settled _ _) fun _ => stable_pure _

include settled given

theorem stable_tableProc (state : Analysis D P O) (proc : TableProc) :
    Stable fun pkt => state.tableProc ops outside pid pkt len proc := by
  cases proc with
  | default => exact stable_pure _
  | pat => exact stable_map _ _ (stable_map _ _ (stable_parseVersioned _ _ _ _))
  | cat =>
    refine stable_map _ _ (stable_bind _ _ (stable_parseVersioned _ _ _ _) fun _ => ?_)
    exact stable_pure _
  | tsdt => exact stable_sectionProc len .tsdt state
  | pmt => exact stable_sectionProc len (.pmt pid) state
  | nit => exact stable_sectionProc len .nit state
  | eit => exact stable_sectionProc len .eit state
  | sdtBat => exact stable_sectionProc len .sdtBat state
  | tdtTot => exact stable_tdtTotProc settled state
  | atscPsip => exact stable_map _ _ (given.psip _ _)

theorem stable_call (state : Analysis D P O) (callback : Callback) :
    Stable fun pkt => state.call ops outside pid pkt len callback := by
  cases callback with
  | table proc =>
    by_cases switch : proc = .default
    · subst switch
      exact stable_tableProc settled given pid len state (defaultProc pid)
    · have direct : (fun pkt => state.call ops outside pid pkt len (.table proc)) =
          fun pkt => state.tableProc ops outside pid pkt len proc := by
        cases proc <;> first | rfl | exact absurd rfl switch
      rw [direct]
      exact stable_tableProc settled given pid len state proc
  | scte => exact stable_map _ _ (given.scte _ _ _)
  | pes => exact stable_map _ _ (given.pes _ _ _)

end Analysis

section Filters

variable {K : Type}

theorem stable_matchLoop (p : FilterParam) (rest i : Nat) :
    Stable fun data => matchLoop p data rest i := by
  induction rest generalizing i with
  | zero => exact stable_pure _
  | succ rest ih =>
    refine stable_bind _ _ (stable_read8 _) fun byte => ?_
    exact stable_ite _ _ _ (stable_pure _) (ih _)

theorem stable_filterMatch (slot : Filters.Filter K) : Stable (filterMatch slot) :=
  stable_ite _ _ _ (stable_pure _) (stable_matchLoop _ _ _)

theorem stable_scan (slots : List (Filters.Filter K)) : Stable fun data => scan data slots := by
  induction slots with
  | nil => exact stable_pure _
  | cons slot rest ih =>
    refine stable_bind _ _ (stable_filterMatch slot) fun matched => ?_
    refine stable_ite _ _ _ ?_ ih
    refine stable_bind (fun _ => slot.callback) _ (stable_pure _) fun callback => ?_
    exact stable_bind _ _ ih fun _ => stable_pure _

theorem stable_filterProc (pidFilter : PidFilter K) (pid : Pid) :
    Stable fun data => Filters.filterProc pidFilter pid data := by
  refine stable_ite _ _ _ (stable_pure _) (stable_ite _ _ _ ?_ ?_)
  · exact stable_bind _ _ (stable_scan _) fun _ => stable_pure _
  · exact stable_bind _ _ (stable_read8 _) fun _ => stable_pure _

end Filters

section FilterProc

variable {ops : DescriptorOps D} (settled : ops.Settled)
variable {outside : Outside P O} (given : outside.Settled)
variable (pid : Pid) (len : Nat)

include settled given

theorem stable_scanFrom (turns i : Nat) (state : Analysis D P O) :
    Stable fun pkt => state.scanFrom ops outside pid pkt len turns i := by
  induction turns generalizing i state with
  | zero => exact stable_ite _ _ _ (stable_pure _) (stable_pure _)
  | succ turns ih =>
    cases found : (state.pids.filters.pidFilter pid).slots[i]? with
    | none =>
      simp only [Analysis.scanFrom, found]
      exact stable_pure _
    | some slot =>
      simp only [Analysis.scanFrom, found]
      refine stable_bind _ _ (stable_filterMatch slot) fun matched => ?_
      refine stable_ite _ _ _ ?_ (ih (i + 1) state)
      refine stable_bind _ _ ?_ fun state => ih (i + 1) state
      refine stable_bind (fun _ => slot.callback) _ (stable_pure _) fun callback => ?_
      exact stable_call settled given pid len state callback

theorem stable_calls (called : List Callback) (state : Analysis D P O) :
    Stable fun pkt => called.foldlM (fun state => state.call ops outside pid pkt len) state := by
  induction called generalizing state with
  | nil => exact stable_pure _
  | cons callback rest ih =>
    exact stable_bind _ _ (stable_call settled given pid len state callback) ih

theorem stable_analysis (state : Analysis D P O) :
    Stable fun pkt => state.filterProc ops outside pid pkt len := by
  refine stable_ite _ _ _ (stable_scanFrom settled given pid len _ _ _) ?_
  exact stable_bind _ _ (stable_filterProc _ _) fun called => stable_calls settled given pid len _ _

theorem environment_steady (detail : Bool) : (environment ops outside detail).Steady where
  filtered state pid bytes behind after found :=
    stable_analysis settled given pid bytes.length state _ behind after found
  available _ := rfl

end FilterProc

end TsAnalyze.Tables
