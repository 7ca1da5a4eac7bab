import TsAnalyze.Demux.SectionPreproc

set_option autoImplicit false

namespace TsAnalyze.Filters

open Memory Demux

def maxFilterDepth : Nat := 8

def numFilterMax : Nat := 4096

structure FilterParam where
  depth : Nat
  shallow : depth ≤ maxFilterDepth
  coff : Fin 8 → UInt8
  mask : Fin 8 → UInt8
  negate : Fin 8 → UInt8 := fun _ => 0

def FilterParam.cleared : FilterParam where
  depth := 0
  shallow := Nat.zero_le maxFilterDepth
  coff _ := 0
  mask _ := 0

theorem one_shallow : 1 ≤ maxFilterDepth := by decide

-- the filter of a table: its first byte against `tableid` under `mask`
def tableParam (tableid mask : UInt8) : FilterParam where
  depth := 1
  shallow := one_shallow
  coff _ := tableid
  mask _ := mask

-- The callbacks are of any type: what one does is not a filter's concern.
structure Filter (C : Type) where
  pid : Pid
  para : FilterParam := FilterParam.cleared
  callback : Option C := none

structure FilterHead (C : Type) where
  cap : Nat := 0
  -- the first `num` slots
  slots : List (Filter C) := []
  map : UInt8 → UInt16 := fun _ => 0
  multi : Bool := false

abbrev PidFilter (C : Type) := Pid → FilterHead C

-- A pointer to a slot of the array of a PID, whose filters all have that PID. The array grows
-- in place.
structure FilterPtr where
  pid : Pid
  index : Nat
deriving DecidableEq

variable {C : Type}

def noSlot : UInt16 := 0xFFFF

def FilterParam.exact (p : FilterParam) : Bool :=
  p.depth == 1 && p.mask 0 == 0xFF

def FilterParam.selects (p : FilterParam) (tableId : UInt8) : Bool :=
  tableId &&& p.mask 0 == p.mask 0 &&& p.coff 0

def FilterParam.OnlyTable (p : FilterParam) (tableId : UInt8) : Prop :=
  p.depth = 1 ∧ p.coff 0 = tableId ∧ p.mask 0 = 0xFF

-- one turn of filter_rebuild's loop: the map and the multi flag
def rebuildSlot (state : (UInt8 → UInt16) × Bool) (i : Nat) (p : FilterParam) :
    (UInt8 → UInt16) × Bool :=
  if p.exact then
    if state.1 (p.coff 0) ≠ noSlot then (state.1, true)
    else (Function.update state.1 (p.coff 0) (UInt16.ofNat i), state.2)
  else (state.1, true)

def rebuildLoop : Nat → List (Filter C) → (UInt8 → UInt16) × Bool → (UInt8 → UInt16) × Bool
  | _, [], state => state
  | i, slot :: rest, state => rebuildLoop (i + 1) rest (rebuildSlot state i slot.para)

def filterRebuild (hd : FilterHead C) : FilterHead C :=
  let rebuilt := rebuildLoop 0 hd.slots (fun _ => noSlot, false)
  { hd with map := rebuilt.1, multi := rebuilt.2 }

-- the map and the flag of a PID are not cleared
def filterInit (pidFilter : PidFilter C) : PidFilter C :=
  fun pid => { pidFilter pid with cap := 0, slots := [] }

-- `memory` is whether realloc succeeds
def filterAlloc (memory : Bool) (pidFilter : PidFilter C) (pid : Pid) :
    PidFilter C × Option FilterPtr :=
  let hd := pidFilter pid
  if hd.slots.length ≥ numFilterMax then (pidFilter, none)
  else if hd.slots.length ≥ hd.cap ∧ memory = false then (pidFilter, none)
  else
    let cap :=
      if hd.slots.length ≥ hd.cap then (if hd.cap ≠ 0 then hd.cap * 2 else 4) else hd.cap
    (Function.update pidFilter pid { hd with cap := cap, slots := hd.slots ++ [{ pid := pid }] },
      some ⟨pid, hd.slots.length⟩)

-- memcpy of the first `depth` bytes
def copyBytes (depth : Nat) (source old : Fin 8 → UInt8) : Fin 8 → UInt8 :=
  fun i => if i.val < depth then source i else old i

def Filter.set (f : Filter C) (p : Option FilterParam) (func : C) : Filter C :=
  { f with
    para :=
      match p with
      | none => f.para
      | some p =>
          { depth := p.depth
            shallow := p.shallow
            coff := copyBytes p.depth p.coff f.para.coff
            mask := copyBytes p.depth p.mask f.para.mask
            negate := copyBytes p.depth p.negate f.para.negate }
    callback := some func }

def filterSet (pidFilter : PidFilter C) (f : Option FilterPtr) (p : Option FilterParam) (func : C) :
    PidFilter C × Int :=
  match f with
  | none => (pidFilter, -1)
  | some f =>
      let hd := pidFilter f.pid
      (Function.update pidFilter f.pid
        (filterRebuild { hd with slots := hd.slots.modify f.index fun slot => slot.set p func }), 0)

-- the last element takes the place of the one at `i`
def swapPop {A : Type} (slots : List A) (i : Nat) : List A :=
  match slots.getLast? with
  | none => []
  | some last => (slots.set i last).dropLast

def filterFree (pidFilter : PidFilter C) (f : Option FilterPtr) : PidFilter C × Int :=
  match f with
  | none => (pidFilter, -1)
  | some f =>
      let hd := pidFilter f.pid
      if f.index < hd.slots.length then
        (Function.update pidFilter f.pid (filterRebuild { hd with slots := swapPop hd.slots f.index }),
          0)
      else (pidFilter, -1)

def sameBytes (depth : Nat) (left right : Fin 8 → UInt8) : Bool :=
  decide (∀ i : Fin 8, i.val < depth → left i = right i)

def FilterParam.same (left right : FilterParam) : Bool :=
  left.depth == right.depth && sameBytes right.depth left.coff right.coff &&
    sameBytes right.depth left.mask right.mask && sameBytes right.depth left.negate right.negate

def filterLookup (pidFilter : PidFilter C) (pid : Pid) (para : Option FilterParam) :
    Option FilterPtr := do
  let para ← para
  let index ← (pidFilter pid).slots.findIdx? fun slot => slot.para.same para
  return ⟨pid, index⟩

-- the loop of filter_match from byte `i` on
def matchLoop (p : FilterParam) (data : Block) : Nat → Nat → Option Bool
  | 0, _ => some true
  | rest + 1, i => do
      let byte ← read8 data i
      if byte &&& p.mask (Fin.ofNat 8 i) ≠ p.mask (Fin.ofNat 8 i) &&& p.coff (Fin.ofNat 8 i) then
        return false
      else matchLoop p data rest (i + 1)

def filterMatch (t : Filter C) (data : Block) : Option Bool :=
  if t.para.depth = 0 then some true else matchLoop t.para data t.para.depth 0

-- the callbacks that the linear scan calls, in this order
def scan (data : Block) : List (Filter C) → Option (List C)
  | [] => some []
  | slot :: rest => do
      if ← filterMatch slot data then
        let callback ← slot.callback
        let called ← scan data rest
        return callback :: called
      else scan data rest

/-- The callbacks that are called with the PID, the data and the length, and the return value. -/
def filterProc (pidFilter : PidFilter C) (pid : Pid) (data : Block) : Option (List C × Int) := do
  let hd := pidFilter pid
  if hd.slots.length = 0 then return ([], -1)
  else if hd.multi then
    let called ← scan data hd.slots
    return (called, 0)
  else
    let tableId ← read8 data 0
    let idx := hd.map tableId
    if idx ≠ noSlot ∧ idx < UInt16.ofNat hd.slots.length then
      let slot ← hd.slots[idx.toNat]?
      let callback ← slot.callback
      return ([callback], 0)
    else return ([], 0)

/-- One byte deep, with a callback. -/
structure Filter.Ready (slot : Filter C) : Prop where
  depth : slot.para.depth = 1
  callback : slot.callback.isSome = true

def Filter.selects (tableId : UInt8) (slot : Filter C) : Bool :=
  slot.para.selects tableId

theorem and_full (byte : UInt8) : byte &&& 0xFF = byte := by
  apply UInt8.toNat_inj.mp
  rw [UInt8.toNat_and]
  exact Nat.and_two_pow_sub_one_of_lt_two_pow (n := 8) byte.toNat_lt

theorem exact_selects (slot : Filter C) (tableId : UInt8) (exactly : slot.para.exact = true) :
    slot.selects tableId = decide (slot.para.coff 0 = tableId) := by
  have full : slot.para.mask 0 = 0xFF := by
    rw [FilterParam.exact, Bool.and_eq_true, beq_iff_eq, beq_iff_eq] at exactly
    exact exactly.2
  rw [Filter.selects, FilterParam.selects, full, and_full, UInt8.and_comm, and_full]
  exact decide_eq_decide.mpr eq_comm

/-- The map has the only slot of each table_id. -/
structure Indexed (done : List (Filter C)) (map : UInt8 → UInt16) : Prop where
  exactly : ∀ slot ∈ done, slot.para.exact = true
  found : ∀ tableId, done.filter (fun slot => slot.para.coff 0 = tableId) =
    (done[(map tableId).toNat]?).toList
  bound : ∀ tableId, map tableId = noSlot ∨ (map tableId).toNat < done.length

theorem indexed_insert (done : List (Filter C)) (slot : Filter C) (map : UInt8 → UInt16)
    (small : done.length < 4096) (known : Indexed done map) (exactly : slot.para.exact = true)
    (vacant : map (slot.para.coff 0) = noSlot) :
    Indexed (done ++ [slot])
      (Function.update map (slot.para.coff 0) (UInt16.ofNat done.length)) := by
  have index : (UInt16.ofNat done.length).toNat = done.length :=
    UInt16.toNat_ofNat_of_lt' (by unfold UInt16.size; omega)
  have nowhere : ∀ longer : List (Filter C), longer.length ≤ 4096 →
      longer[noSlot.toNat]? = none := by
    intro longer bounded
    apply List.getElem?_eq_none
    change longer.length ≤ 65535
    omega
  refine ⟨?_, fun tableId => ?_, fun tableId => ?_⟩
  · intro other member
    rcases List.mem_append.mp member with old | new
    · exact known.exactly other old
    · rw [List.mem_singleton.mp new]
      exact exactly
  · rw [List.filter_append]
    by_cases same : slot.para.coff 0 = tableId
    · subst same
      have nothing := known.found (slot.para.coff 0)
      rw [vacant, nowhere done (by omega)] at nothing
      simp [nothing, index]
    · have kept := known.found tableId
      rw [Function.update_of_ne (Ne.symm same), kept]
      rcases known.bound tableId with missing | inside
      · rw [missing, nowhere done (by omega), nowhere (done ++ [slot]) (by simp; omega)]
        simp [same]
      · rw [List.getElem?_append_left inside]
        simp [same]
  · by_cases same : slot.para.coff 0 = tableId
    · subst same
      right
      simp [index]
    · rw [Function.update_of_ne (Ne.symm same)]
      rcases known.bound tableId with missing | inside
      · exact Or.inl missing
      · right
        simp
        omega

theorem rebuildSlot_indexed (done : List (Filter C)) (slot : Filter C)
    (state : (UInt8 → UInt16) × Bool) (small : done.length < numFilterMax)
    (indexed : state.2 = false → Indexed done state.1)
    (single : (rebuildSlot state done.length slot.para).2 = false) :
    Indexed (done ++ [slot]) (rebuildSlot state done.length slot.para).1 := by
  rw [rebuildSlot] at single ⊢
  split at single
  · rename_i exactly
    split at single
    · cases single
    · rename_i free
      rw [if_pos exactly, if_neg free]
      exact indexed_insert done slot state.1 small (indexed single) exactly (not_not.mp free)
  · cases single

theorem rebuildLoop_indexed (done rest : List (Filter C)) (state : (UInt8 → UInt16) × Bool)
    (small : (done ++ rest).length ≤ numFilterMax)
    (indexed : state.2 = false → Indexed done state.1)
    (single : (rebuildLoop done.length rest state).2 = false) :
    Indexed (done ++ rest) (rebuildLoop done.length rest state).1 := by
  induction rest generalizing done state with
  | nil =>
    rw [List.append_nil]
    exact indexed single
  | cons slot rest ih =>
    rw [List.length_append, List.length_cons] at small
    have step := rebuildSlot_indexed done slot state (by omega) indexed
    have later := ih (done ++ [slot]) (rebuildSlot state done.length slot.para)
      (by simp; omega) step
    rw [List.length_append, List.length_singleton, List.append_assoc] at later
    exact later single

theorem filterRebuild_indexed (hd : FilterHead C) (small : hd.slots.length ≤ numFilterMax)
    (single : (filterRebuild hd).multi = false) : Indexed hd.slots (filterRebuild hd).map := by
  have start : Indexed ([] : List (Filter C)) fun _ => noSlot :=
    ⟨by simp, by simp, fun _ => Or.inl rfl⟩
  exact rebuildLoop_indexed [] hd.slots (fun _ => noSlot, false) small (fun _ => start) single

section Proc

variable (data : Block) (tableId : UInt8) (first : read8 data 0 = some tableId)

include first

theorem filterMatch_ready (slot : Filter C) (ready : slot.Ready) :
    filterMatch slot data = some (slot.selects tableId) := by
  rw [filterMatch, ready.depth, if_neg one_ne_zero, matchLoop, first, Option.bind_eq_bind,
    Option.bind_some, Filter.selects, FilterParam.selects]
  split
  · rename_i different
    have missed : (tableId &&& slot.para.mask 0 == slot.para.mask 0 &&& slot.para.coff 0) = false :=
      beq_eq_false_iff_ne.mpr different
    rw [missed]
    rfl
  · rename_i same
    have hit : (tableId &&& slot.para.mask 0 == slot.para.mask 0 &&& slot.para.coff 0) = true :=
      beq_iff_eq.mpr (not_not.mp same)
    rw [hit]
    rfl

theorem scan_ready (slots : List (Filter C)) (ready : ∀ slot ∈ slots, slot.Ready) :
    scan data slots = some ((slots.filter (Filter.selects tableId)).filterMap Filter.callback) := by
  induction slots with
  | nil => rfl
  | cons slot rest ih =>
    have here := ready slot (by simp)
    have later := ih fun other member => ready other (List.mem_cons_of_mem _ member)
    rcases Option.isSome_iff_exists.mp here.callback with ⟨callback, given⟩
    rw [scan, filterMatch_ready data tableId first slot here, Option.bind_eq_bind,
      Option.bind_some, later]
    cases hit : slot.selects tableId with
    | true => simp [hit, given]
    | false => simp [hit]

/-- Through the map or by the scan: the callbacks of the slots that match, in slot order. -/
theorem filterProc_ready (pidFilter : PidFilter C) (pid : Pid)
    (ready : ∀ slot ∈ (pidFilter pid).slots, slot.Ready)
    (small : (pidFilter pid).slots.length ≤ numFilterMax)
    (rebuilt : (pidFilter pid).slots = [] ∨ pidFilter pid = filterRebuild (pidFilter pid)) :
    ∃ ret, filterProc pidFilter pid data = some
      (((pidFilter pid).slots.filter (Filter.selects tableId)).filterMap Filter.callback, ret) := by
  rw [filterProc]
  generalize pidFilter pid = hd at ready small rebuilt
  by_cases empty : hd.slots.length = 0
  · rw [if_pos empty, List.eq_nil_of_length_eq_zero empty]
    exact ⟨-1, rfl⟩
  · have same : hd = filterRebuild hd := by
      rcases rebuilt with nothing | same
      · rw [nothing] at empty
        exact absurd rfl empty
      · exact same
    rw [if_neg empty]
    cases flag : hd.multi with
    | true =>
      rw [if_pos rfl, scan_ready data tableId first hd.slots ready]
      exact ⟨0, rfl⟩
    | false =>
      rw [same] at flag
      have indexed := filterRebuild_indexed hd small flag
      rw [← same] at indexed
      have selected : hd.slots.filter (Filter.selects tableId) =
          (hd.slots[(hd.map tableId).toNat]?).toList := by
        rw [← indexed.found tableId]
        apply List.filter_congr
        intro slot member
        exact exact_selects slot tableId (indexed.exactly slot member)
      rw [if_neg Bool.false_ne_true, first, Option.bind_eq_bind, Option.bind_some, selected]
      refine ⟨0, ?_⟩
      rcases indexed.bound tableId with missing | inside
      · rw [if_neg fun both => both.1 missing, missing, List.getElem?_eq_none (by
          change hd.slots.length ≤ 65535
          unfold numFilterMax at small
          omega)]
        rfl
      · have member := List.getElem_mem inside
        rcases Option.isSome_iff_exists.mp (ready _ member).callback with ⟨callback, given⟩
        have used : hd.map tableId ≠ noSlot ∧ hd.map tableId < UInt16.ofNat hd.slots.length := by
          unfold numFilterMax at small
          constructor
          · intro missing
            rw [missing] at inside
            change 65535 < _ at inside
            omega
          · rw [UInt16.lt_iff_toNat_lt, UInt16.toNat_ofNat_of_lt' (by unfold UInt16.size; omega)]
            exact inside
        rw [if_pos used, List.getElem?_eq_getElem inside]
        simp [given]

end Proc

end TsAnalyze.Filters
