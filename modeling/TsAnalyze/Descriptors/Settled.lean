import TsAnalyze.Descriptors.Table
import TsAnalyze.Shared.Stability
import TsAnalyze.Tables.Steady

set_option autoImplicit false

namespace TsAnalyze.Descriptors

open Memory Tables

section Reading

theorem stable_readBytes (offset count : Nat) :
    Stable fun memory => readBytes memory offset count := by
  induction count generalizing offset with
  | zero => exact stable_pure _
  | succ count ih =>
    exact stable_bind _ _ (stable_read8 _) fun _ => stable_bind _ _ (ih _) fun _ => stable_pure _

theorem stable_read64 (offset : Nat) : Stable fun memory => read64 memory offset :=
  stable_bind _ _ (stable_read32 _) fun _ => stable_bind _ _ (stable_read32 _) fun _ =>
    stable_pure _

variable {A : Type} {read : Block → Option (A × Nat)} (stable : Stable read)

include stable

theorem stable_readTimes (count : Nat) : Stable (readTimes read count) := by
  induction count with
  | zero => exact stable_pure _
  | succ count ih =>
    refine stable_bind _ _ stable fun first => ?_
    exact stable_bind _ _ (stable_drop ih _) fun _ => stable_pure _

omit stable in
-- a reader that may look at the whole of the memory as well
theorem stable_readWhile (tail : Block → Block) (reader : Block → Block → Option (A × Nat))
    (each : ∀ off, Stable fun buf => reader buf ((tail buf).drop off)) (more : Nat → Bool)
    (turns off : Nat) (list : List A) :
    Stable fun buf => readWhile (reader buf) more (tail buf) turns off list := by
  induction turns generalizing off list with
  | zero => exact stable_pure _
  | succ turns ih =>
    refine stable_ite _ _ _ ?_ (stable_pure _)
    exact stable_bind _ _ (each off) fun _ => ih _ _

omit stable in
-- turns that are not needed change nothing
theorem readWhile_longer (more : Nat → Bool) (buf : Block) (turns extra off : Nat) (list : List A)
    (result : List A × Nat) (found : readWhile read more buf turns off list = some result) :
    readWhile read more buf (turns + extra) off list = some result := by
  induction turns generalizing off list with
  | zero =>
    rw [readWhile] at found
    split at found
    · cases found
    · rename_i stops
      cases extra with
      | zero => rw [readWhile, if_neg stops, found]
      | succ extra => rw [Nat.zero_add, readWhile, if_neg stops, found]
  | succ turns ih =>
    rw [Nat.succ_add, readWhile]
    rw [readWhile] at found
    split at found
    · rename_i goesOn
      obtain ⟨item, here, later⟩ := Option.bind_eq_some_iff.mp found
      rw [if_pos goesOn]
      exact Option.bind_eq_some_iff.mpr ⟨item, here, ih _ _ later⟩
    · rename_i stops
      rw [if_neg stops]
      exact found

end Reading

section Callbacks

theorem stable_optional16 (present : Prop) [Decidable present] (l : Nat) :
    Stable fun ptr => optional16 present ptr l :=
  stable_ite _ _ _ (stable_map _ _ (stable_read16 _)) (stable_pure _)

theorem stable_readSubinfo (off : Nat) :
    Stable fun buf => readSubinfo buf ((buf.drop 1).drop off) := by
  refine stable_bind _ _ (stable_drop (stable_drop (stable_read16 0) off) 1) fun targetEventId => ?_
  refine stable_bind _ _ (stable_read8 0) fun flags => ?_
  refine stable_ite _ _ _ ?_ ?_
  · exact stable_bind _ _ (stable_drop (stable_drop (stable_read16 3) off) 1) fun _ => stable_pure _
  · refine stable_bind _ _ (stable_drop (stable_drop (stable_optional16 _ 3) off) 1) fun first => ?_
    refine stable_bind _ _ (stable_drop (stable_drop (stable_optional16 _ _) off) 1) fun second => ?_
    refine stable_bind _ _ (stable_drop (stable_drop (stable_optional16 _ _) off) 1) fun _ => ?_
    exact stable_pure _

theorem stable_readSubcellInfo : Stable readSubcellInfo :=
  stable_bind _ _ (stable_read8 _) fun _ => stable_bind _ _ (stable_read32 _) fun _ => stable_pure _

theorem stable_readSubDescriptor : Stable readSubDescriptor :=
  stable_bind _ _ (stable_read8 _) fun _ => stable_bind _ _ (stable_read8 _) fun _ =>
    stable_bind _ _ (stable_readBytes _ _) fun _ => stable_pure _

theorem stable_readCompatobilitylistDescriptor : Stable readCompatobilitylistDescriptor := by
  refine stable_bind _ _ (stable_read8 _) fun type => ?_
  refine stable_bind _ _ (stable_read8 _) fun length => ?_
  refine stable_bind _ _ (stable_read32 _) fun word => ?_
  refine stable_bind _ _ (stable_read16 _) fun model => ?_
  refine stable_bind _ _ (stable_read16 _) fun version => ?_
  refine stable_bind _ _ (stable_read8 _) fun count => ?_
  refine stable_bind _ _ (stable_drop (stable_readTimes stable_readSubDescriptor _) 11) fun sub => ?_
  exact stable_pure _

theorem stable_readModuleInfo : Stable readModuleInfo :=
  stable_bind _ _ (stable_read16 _) fun _ => stable_bind _ _ (stable_read32 _) fun _ =>
    stable_bind _ _ (stable_read8 _) fun _ => stable_bind _ _ (stable_readBytes _ _) fun _ =>
      stable_pure _

theorem stable_callback (callback : Callback) : Stable callback.parse := by
  cases callback with
  | extendEventLinkageInfo =>
    refine stable_map _ _ (stable_bind _ _ (stable_read8 _) fun loopLength => ?_)
    refine stable_bind _ _ ?_ fun _ => stable_pure _
    exact stable_readWhile (List.drop 1) readSubinfo stable_readSubinfo _ _ _ _
  | multilingualNode =>
    refine stable_map _ _ (stable_bind _ _ (stable_read32 _) fun word => ?_)
    exact stable_bind _ _ (stable_readBytes _ _) fun _ => stable_pure _
  | multilingualServiceNode =>
    refine stable_map _ _ (stable_bind _ _ (stable_read32 _) fun word => ?_)
    refine stable_bind _ _ (stable_readBytes _ _) fun textChar => ?_
    refine stable_bind _ _ (stable_read8 _) fun serviceNameLength => ?_
    exact stable_bind _ _ (stable_readBytes _ _) fun _ => stable_pure _
  | cellListDescriptor =>
    refine stable_map _ _ (stable_bind _ _ (stable_read16 _) fun cellId => ?_)
    refine stable_bind _ _ (stable_read16 _) fun latitude => ?_
    refine stable_bind _ _ (stable_read16 _) fun longitude => ?_
    refine stable_bind _ _ (stable_read32 _) fun word => ?_
    refine stable_bind _ _ (stable_drop (stable_readTimes ?_ _) 10) fun _ => stable_pure _
    exact stable_map _ _ (stable_read64 _)
  | cellFrequencyLinkDescriptor =>
    refine stable_map _ _ (stable_bind _ _ (stable_read16 _) fun cellId => ?_)
    refine stable_bind _ _ (stable_read32 _) fun frequency => ?_
    refine stable_bind _ _ (stable_read8 _) fun loopLength => ?_
    refine stable_bind _ _ (stable_drop (stable_readTimes ?_ _) 7) fun _ => stable_pure _
    exact stable_readSubcellInfo
  | compatibilityDescriptor =>
    refine stable_map _ _ (stable_bind _ _ (stable_read16 _) fun length => ?_)
    refine stable_bind _ _ (stable_read16 _) fun count => ?_
    refine stable_bind _ _ (stable_drop (stable_readTimes ?_ _) 4) fun _ => stable_pure _
    exact stable_readCompatobilitylistDescriptor
  | moduleInfoList =>
    refine stable_map _ _ (stable_bind _ _ (stable_read16 _) fun count => ?_)
    refine stable_bind _ _ (stable_drop (stable_readTimes ?_ _) 2) fun _ => stable_pure _
    exact stable_readModuleInfo
  | textInfo =>
    refine stable_map _ _ (stable_bind _ _ (stable_read32 _) fun word => ?_)
    exact stable_bind _ _ (stable_readBytes _ _) fun _ => stable_pure _

end Callbacks

section Members

theorem stable_readLoopElement : Stable readLoopElement :=
  stable_bind _ _ (stable_read8 _) fun _ => stable_bind _ _ (stable_read8 _) fun _ =>
    stable_bind _ _ (stable_readBytes _ _) fun _ => stable_pure _

theorem stable_readElement (type : CType) : Stable (readElement type) :=
  stable_map _ _ (stable_readBytes _ _)

theorem stable_intType (type : IntType) (offset : Nat) : Stable fun buf => type.read buf offset := by
  cases type with
  | uint8 => exact stable_map _ _ (stable_read8 _)
  | uint16 => exact stable_read16 _
  | uint32 => exact stable_read32 _
  | uint64 => exact stable_read64 _

theorem stable_readBitField (type : IntType) (offset bitlen off : Nat) :
    Stable fun buf => readBitField type buf offset bitlen off := by
  intro buf behind value found
  have full : ((buf.drop offset).take type.size).length = type.size := by
    by_contra short
    simp only [readBitField, short, false_and, if_false] at found
    cases found
  have same : ((buf ++ behind).drop offset).take type.size = (buf.drop offset).take type.size := by
    rw [List.length_take] at full
    rw [List.drop_append, List.take_append_of_le_length (by omega)]
  simp only [readBitField, same]
  exact found

variable (len length : Nat) (p : Parsing) (name : String)

-- the last turn of all that memory allows is not reached
theorem stable_plastLoop {A : Type} {read : Block → Option (A × Nat)} (stable : Stable read)
    (value : List A → Value) :
    Stable fun buf => plastLoop ⟨buf, len, length⟩ p name read value := by
  intro buf behind result found
  obtain ⟨walked, loop, rfl⟩ := Option.map_eq_some_iff.mp found
  have more := stable_readWhile id (fun _ => read)
    (fun off => stable_drop stable off) (fun off => decide (off ≠ length + 2)) (buf.length + 1)
    p.bytesOff [] buf behind walked loop
  have longer := readWhile_longer _ _ _ behind.length _ _ _ more
  have turns : buf.length + 1 + behind.length = (buf ++ behind).length + 1 := by
    rw [List.length_append]
    omega
  rw [turns] at longer
  exact Option.map_eq_some_iff.mpr ⟨walked, longer, rfl⟩

theorem stable_ploopLoop {A : Type} {read : Block → Option (A × Nat)} (stable : Stable read)
    (more : Nat → Bool) (value : List A → Value) :
    Stable fun buf => ploopLoop ⟨buf, len, length⟩ p name read more value :=
  stable_map _ _ (stable_readWhile id (fun _ => read)
    (fun off => stable_drop stable off) _ _ _ _)

theorem stable_callbackOnce (callback : Callback) :
    Stable fun buf => callbackOnce ⟨buf, len, length⟩ p name callback :=
  stable_map _ _ (stable_drop (stable_callback callback) _)

theorem stable_member (member : Member) : Stable fun buf => member.parse ⟨buf, len, length⟩ p := by
  cases member <;> simp only [Member.parse]
  case m type name bits => exact stable_map _ _ (stable_readBitField _ _ _ _)
  case m1 type name => exact stable_ite _ _ _ (stable_map _ _ (stable_intType _ _)) (stable_pure _)
  case m1Uint24 name => exact stable_ite _ _ _ (stable_map _ _ (stable_readBytes _ _)) (stable_pure _)
  case mplast type name => exact stable_plastLoop len length p name (stable_readElement type) _
  case mplastCustomSub callback name =>
    exact stable_plastLoop len length p name (stable_callback callback) _
  case mif type name cond val =>
    exact stable_ite _ _ _ (stable_map _ _ (stable_readBytes _ _)) (stable_pure _)
  case mifCustom callback name cond val =>
    exact stable_ite _ _ _ (stable_callbackOnce len length p name callback) (stable_pure _)
  case mrangelvCustom callback name cond floor ceiling =>
    exact stable_ite _ _ _ (stable_callbackOnce len length p name callback) (stable_pure _)
  case mlv type count name divisor =>
    exact stable_map _ _ (stable_drop (stable_readTimes (stable_readElement type) _) _)
  case mploop name =>
    exact stable_ploopLoop len length p name stable_readLoopElement (fun off => decide (off ≠ len)) _
  case mploopCustom callback name =>
    exact stable_ploopLoop len length p name (stable_callback callback)
      (fun off => decide (off < len)) _

theorem stable_parseMembers (list : List Member) :
    Stable fun buf => parseMembers ⟨buf, len, length⟩ list p := by
  induction list generalizing p with
  | nil => exact stable_pure _
  | cons member rest ih => exact stable_bind _ _ (stable_member len length p member) ih

end Members

theorem stable_runMembers (val : UInt8) (list : List Member) (len : Nat) :
    Stable fun buf => runMembers val list buf len := by
  refine stable_bind _ _ (stable_read8 _) fun tag => ?_
  refine stable_ite _ _ _ ?_ (stable_pure _)
  refine stable_bind _ _ (stable_read8 _) fun length => ?_
  exact stable_map _ _ (stable_parseMembers len _ _ list)

/-- Each parser of des_ops finds in a descriptor what it finds whatever lies behind it. -/
theorem desOps_settled : desOps.Settled := by
  intro tag len
  cases found : initDescriptorParsers tag with
  | reserved =>
    simp only [desOps, found, Entry.parse]
    refine stable_bind _ _ (stable_read8 _) fun first => ?_
    refine stable_bind _ _ (stable_read8 _) fun length => ?_
    exact stable_ite _ _ _ (stable_map _ _ (stable_readBytes _ _)) (stable_pure _)
  | members val list =>
    simp only [desOps, found, Entry.parse]
    exact stable_bind _ _ (stable_runMembers val list len) fun _ => stable_pure _

section Unseen

variable {P O : Type} {outside : Outside P O}

/-- What stale bytes lie behind a section in its buffer makes no difference to any table. -/
theorem stale_bytes_unseen (given : outside.Settled) (state : Analysis Content P O)
    (pid : Demux.Pid) (bytes : List UInt8) {after : Analysis Content P O}
    (found : state.filterProc desOps outside pid (ofBytes bytes) bytes.length = some after)
    (behind : Block) :
    state.filterProc desOps outside pid (ofBytes bytes ++ behind) bytes.length = some after :=
  stable_analysis desOps_settled given pid bytes.length state _ behind after found

-- handlers that keep nothing
def idle : Outside Unit Unit where
  atscPsipProc psip _ _ := some psip
  scteProc streams _ _ _ := some streams
  pesProc streams _ _ _ := some streams
  registers streams _ := streams

theorem idle_settled : idle.Settled :=
  ⟨fun _ _ => stable_pure _, fun _ _ _ => stable_pure _, fun _ _ _ => stable_pure _⟩

-- a TDT on its PID
def shortTdt : List UInt8 := [0x70, 0x70, 5, 0xC0, 0x79, 0x12, 0x45, 0x00]

def idleState : Analysis Content Unit Unit where
  pids := { filters := initFilter (.initial fun _ => {}) 0x14 0x70 0xFF (.table .tdtTot) }
  psip := ()
  streams := ()

theorem stale_bytes_unseen_tdt :
    (idleState.filterProc desOps idle 0x14 (ofBytes shortTdt ++ [some 9, none]) 8).isSome = true := by
  have alone : (idleState.filterProc desOps idle 0x14 (ofBytes shortTdt) 8).isSome = true := by
    decide +kernel
  obtain ⟨after, found⟩ := Option.isSome_iff_exists.mp alone
  exact Option.isSome_of_eq_some
    (stale_bytes_unseen idle_settled idleState 0x14 shortTdt found [some 9, none])

end Unseen

end TsAnalyze.Descriptors
