import TsAnalyze.Filters.Dispatch
import TsAnalyze.Shared.Runs

set_option autoImplicit false

namespace TsAnalyze.Filters

open Memory Demux

variable {C : Type}

/-- A registration, which is filter_alloc and filter_set, or a call of filter_free. -/
inductive Call (C : Type)
  | register (pid : Pid) (para : FilterParam) (shallow : para.depth = 1) (callback : C)
      (memory : Bool)
  -- a pointer, and the number of the registration whose filter the caller means by it
  | free (pointer : Option FilterPtr) (given : Option Nat)

structure Registered (C : Type) where
  number : Nat
  pid : Pid
  para : FilterParam
  callback : C

def Registered.filter (registered : Registered C) : Filter C :=
  Filter.set { pid := registered.pid } (some registered.para) registered.callback

def Registered.selects (tableId : UInt8) (registered : Registered C) : Bool :=
  registered.para.selects tableId

/-- The registry as its callers see it. -/
structure Client (C : Type) where
  pidFilter : PidFilter C
  -- what has been registered and not been freed
  live : List (Registered C) := []
  -- the same by PIDs, in the order of the slots
  order : Pid → List (Registered C) := fun _ => []
  -- what filter_alloc has returned to each registration
  handles : List (Option FilterPtr) := []

def Client.register (client : Client C) (pid : Pid) (para : FilterParam) (callback : C)
    (memory : Bool) : Client C :=
  let allocated := filterAlloc memory client.pidFilter pid
  let registered : Registered C := ⟨client.handles.length, pid, para, callback⟩
  { pidFilter := (filterSet allocated.1 allocated.2 (some para) callback).1
    live := if allocated.2.isSome then client.live ++ [registered] else client.live
    order :=
      if allocated.2.isSome then Function.update client.order pid (client.order pid ++ [registered])
      else client.order
    handles := client.handles ++ [allocated.2] }

def vacate (order : Pid → List (Registered C)) (pointer : Option FilterPtr) :
    Pid → List (Registered C) :=
  match pointer with
  | none => order
  | some f =>
      if f.index < (order f.pid).length then
        Function.update order f.pid (swapPop (order f.pid) f.index)
      else order

def Client.free (client : Client C) (pointer : Option FilterPtr) (given : Option Nat) : Client C :=
  { client with
    pidFilter := (filterFree client.pidFilter pointer).1
    live := client.live.filter fun registered => some registered.number ≠ given
    order := vacate client.order pointer }

def Client.next (client : Client C) : Call C → Option (Client C)
  | .register pid para _ callback memory => some (client.register pid para callback memory)
  | .free pointer given => some (client.free pointer given)

/-- Every section calls what is registered on its PID and matches, each once and in slot order. -/
def Client.Dispatches (client : Client C) : Prop :=
  ∀ pid data tableId, read8 data 0 = some tableId →
    (client.order pid).Perm (client.live.filter fun registered => registered.pid = pid) ∧
    (client.pidFilter pid).slots = (client.order pid).map Registered.filter ∧
    ∃ ret, filterProc client.pidFilter pid data = some
      (((client.order pid).filter (Registered.selects tableId)).map Registered.callback, ret)

-- the number of the filter that stands where the pointer points
def Client.standing (client : Client C) (pointer : Option FilterPtr) : Option Nat := do
  let f ← pointer
  let registered ← (client.order f.pid)[f.index]?
  return registered.number

def InPlace (client : Client C) : Call C → Prop
  | .register .. => True
  | .free pointer given => given = client.standing pointer

-- the pointer is the one that was returned when the filter was registered
def Kept (client : Client C) : Call C → Prop
  | .register .. => True
  | .free pointer given =>
      ∃ number, given = some number ∧ client.handles[number]? = some pointer

section SwapPop

variable {A B : Type} (slots : List A) (i : Nat)

theorem swapPop_map (f : A → B) : (swapPop slots i).map f = swapPop (slots.map f) i := by
  unfold swapPop
  rw [List.getLast?_map]
  cases slots.getLast? with
  | none => rfl
  | some last => simp only [Option.map_some, List.map_dropLast, List.map_set]

theorem swapPop_perm (inside : i < slots.length) : (swapPop slots i).Perm (slots.eraseIdx i) := by
  have nonempty : slots ≠ [] := List.ne_nil_of_length_pos (by omega)
  have others := List.set_perm_cons_eraseIdx inside (slots.getLast nonempty)
  have longer : slots.set i (slots.getLast nonempty) ≠ [] := by
    rw [ne_eq, List.set_eq_nil_iff]
    exact nonempty
  have last : (slots.set i (slots.getLast nonempty)).getLast longer = slots.getLast nonempty := by
    simp only [List.getLast_eq_getElem, List.length_set, List.getElem_set]
    split <;> rfl
  have popped := (List.dropLast_concat_getLast longer).symm
  rw [last] at popped
  rw [popped] at others
  have moved := (List.perm_append_comm).trans others
  rw [swapPop, List.getLast?_eq_some_getLast nonempty]
  exact List.Perm.cons_inv moved

end SwapPop

theorem swapPop_length {A : Type} (slots : List A) (i : Nat) :
    (swapPop slots i).length = slots.length - 1 := by
  unfold swapPop
  cases slots with
  | nil => rfl
  | cons slot rest => simp [List.getLast?_cons]

-- what stands behind the registry at every moment
structure Coherent (client : Client C) : Prop where
  slots : ∀ pid, (client.pidFilter pid).slots = (client.order pid).map Registered.filter
  small : ∀ pid, (client.order pid).length ≤ numFilterMax
  rebuilt : ∀ pid, (client.pidFilter pid).slots = [] ∨
    client.pidFilter pid = filterRebuild (client.pidFilter pid)
  placed : ∀ pid, (client.order pid).Perm
    (client.live.filter fun registered => registered.pid = pid)
  shallow : ∀ registered ∈ client.live, registered.para.depth = 1
  numbered : (client.live.map Registered.number).Nodup
  counted : ∀ registered ∈ client.live, registered.number < client.handles.length

theorem registered_ready (registered : Registered C) (shallow : registered.para.depth = 1) :
    registered.filter.Ready :=
  ⟨shallow, rfl⟩

theorem registered_selects (registered : Registered C) (shallow : registered.para.depth = 1)
    (tableId : UInt8) : registered.filter.selects tableId = registered.selects tableId := by
  simp [Registered.filter, Filter.set, Filter.selects, Registered.selects, FilterParam.selects,
    copyBytes, shallow]

theorem Coherent.order_shallow {client : Client C} (coherent : Coherent client) (pid : Pid)
    (registered : Registered C) (member : registered ∈ client.order pid) :
    registered.para.depth = 1 := by
  have known := (coherent.placed pid).mem_iff.mp member
  exact coherent.shallow registered (List.mem_of_mem_filter known)

theorem Coherent.dispatches {client : Client C} (coherent : Coherent client) :
    client.Dispatches := by
  intro pid data tableId first
  have shallow := coherent.order_shallow pid
  refine ⟨coherent.placed pid, coherent.slots pid, ?_⟩
  have ready : ∀ slot ∈ (client.pidFilter pid).slots, slot.Ready := by
    intro slot member
    rw [coherent.slots pid] at member
    rcases List.mem_map.mp member with ⟨registered, inside, rfl⟩
    exact registered_ready registered (shallow registered inside)
  have small : (client.pidFilter pid).slots.length ≤ numFilterMax := by
    rw [coherent.slots pid, List.length_map]
    exact coherent.small pid
  rcases filterProc_ready data tableId first client.pidFilter pid ready small
    (coherent.rebuilt pid) with ⟨ret, called⟩
  have selected : (client.order pid).filter (Filter.selects tableId ∘ Registered.filter) =
      (client.order pid).filter (Registered.selects tableId) := by
    apply List.filter_congr
    intro registered member
    exact registered_selects registered (shallow registered member) tableId
  refine ⟨ret, ?_⟩
  have each : Filter.callback ∘ Registered.filter = some ∘ Registered.callback (C := C) := rfl
  rw [called, coherent.slots pid, List.filter_map, selected, List.filterMap_map, each,
    List.filterMap_eq_map]

theorem filterAlloc_cases (memory : Bool) (pidFilter : PidFilter C) (pid : Pid) :
    (filterAlloc memory pidFilter pid = (pidFilter, none) ∧
        (numFilterMax ≤ (pidFilter pid).slots.length ∨ memory = false)) ∨
      ((pidFilter pid).slots.length < numFilterMax ∧ ∃ cap,
        filterAlloc memory pidFilter pid =
          (Function.update pidFilter pid
            { pidFilter pid with cap := cap, slots := (pidFilter pid).slots ++ [{ pid := pid }] },
            some ⟨pid, (pidFilter pid).slots.length⟩)) := by
  simp only [filterAlloc]
  split
  · rename_i full
    exact Or.inl ⟨rfl, Or.inl full⟩
  · rename_i room
    split
    · rename_i refused
      exact Or.inl ⟨rfl, Or.inr refused.2⟩
    · exact Or.inr ⟨Nat.not_le.mp room, _, rfl⟩

theorem modify_last {A : Type} (slots : List A) (slot : A) (f : A → A) :
    (slots ++ [slot]).modify slots.length f = slots ++ [f slot] := by
  induction slots with
  | nil => rfl
  | cons head rest ih => simp [ih]

-- filter_alloc and filter_set together
theorem register_cases (client : Client C) (pid : Pid) (para : FilterParam) (callback : C)
    (memory : Bool) :
    client.register pid para callback memory =
        { client with handles := client.handles ++ [none] } ∨
      ((client.pidFilter pid).slots.length < numFilterMax ∧ ∃ cap handle,
        client.register pid para callback memory =
          { pidFilter := Function.update client.pidFilter pid (filterRebuild
              { client.pidFilter pid with
                cap := cap
                slots := (client.pidFilter pid).slots ++
                  [Registered.filter ⟨client.handles.length, pid, para, callback⟩] })
            live := client.live ++ [⟨client.handles.length, pid, para, callback⟩]
            order := Function.update client.order pid
              (client.order pid ++ [⟨client.handles.length, pid, para, callback⟩])
            handles := client.handles ++ [some handle] }) := by
  rcases filterAlloc_cases memory client.pidFilter pid with ⟨failed, -⟩ | ⟨room, cap, given⟩
  · left
    simp [Client.register, failed, filterSet]
  · right
    refine ⟨room, cap, ⟨pid, (client.pidFilter pid).slots.length⟩, ?_⟩
    simp only [Client.register, given, filterSet, Function.update_self, Function.update_idem,
      modify_last, Option.isSome_some, if_true]
    rfl

theorem register_coherent (client : Client C) (coherent : Coherent client) (pid : Pid)
    (para : FilterParam) (shallow : para.depth = 1) (callback : C) (memory : Bool) :
    Coherent (client.register pid para callback memory) := by
  rcases register_cases client pid para callback memory with
    failed | ⟨room, cap, handle, registered⟩
  · rw [failed]
    refine ⟨coherent.slots, coherent.small, coherent.rebuilt, coherent.placed, coherent.shallow,
      coherent.numbered, fun known member => ?_⟩
    have counted := coherent.counted known member
    simp
    omega
  · rw [registered]
    have fresh : ∀ known ∈ client.live, known.number ≠ client.handles.length := by
      intro known member
      exact Nat.ne_of_lt (coherent.counted known member)
    refine ⟨fun other => ?_, fun other => ?_, fun other => ?_, fun other => ?_, ?_, ?_, ?_⟩
    · by_cases same : other = pid
      · subst same
        simp [filterRebuild, coherent.slots]
      · simp [same, coherent.slots]
    · by_cases same : other = pid
      · subst same
        rw [coherent.slots, List.length_map] at room
        simp
        omega
      · simpa [same] using coherent.small other
    · by_cases same : other = pid
      · subst same
        right
        simp [filterRebuild]
      · simpa [same] using coherent.rebuilt other
    · rw [List.filter_append]
      by_cases same : other = pid
      · subst same
        simpa using (coherent.placed other).append_right _
      · simpa [same, Ne.symm same] using coherent.placed other
    · intro known member
      rcases List.mem_append.mp member with old | new
      · exact coherent.shallow known old
      · rw [List.mem_singleton.mp new]
        exact shallow
    · rw [List.map_append, List.nodup_append]
      refine ⟨coherent.numbered, by simp, ?_⟩
      simpa using fresh
    · intro known member
      rw [List.length_append, List.length_singleton]
      rcases List.mem_append.mp member with old | new
      · exact Nat.lt_succ_of_lt (coherent.counted known old)
      · rw [List.mem_singleton.mp new]
        exact Nat.lt_succ_self _

theorem eraseIdx_numbers (order : List (Registered C))
    (numbered : (order.map Registered.number).Nodup) (i : Nat) (inside : i < order.length) :
    (order.eraseIdx i).Perm
      (order.filter fun registered => registered.number ≠ order[i].number) := by
  have moved := List.getElem_cons_eraseIdx_perm inside
  have distinct := (moved.map Registered.number).nodup_iff.mpr numbered
  rw [List.map_cons, List.nodup_cons] at distinct
  have others : ∀ registered ∈ order.eraseIdx i, registered.number ≠ order[i].number := by
    intro registered member same
    exact distinct.1 (same ▸ List.mem_map_of_mem member)
  have kept := moved.filter fun registered => decide (registered.number ≠ order[i].number)
  rw [List.filter_cons_of_neg (by simp)] at kept
  have all : (order.eraseIdx i).filter
      (fun registered => decide (registered.number ≠ order[i].number)) = order.eraseIdx i :=
    List.filter_eq_self.mpr fun registered member => decide_eq_true (others registered member)
  rw [all] at kept
  exact kept

theorem free_cases (client : Client C) (coherent : Coherent client) (pointer : Option FilterPtr) :
    client.free pointer (client.standing pointer) = client ∨
      ∃ (f : FilterPtr) (registered : Registered C),
        (client.order f.pid)[f.index]? = some registered ∧
        client.free pointer (client.standing pointer) =
          { client with
            pidFilter := Function.update client.pidFilter f.pid (filterRebuild
              { client.pidFilter f.pid with
                slots := swapPop (client.pidFilter f.pid).slots f.index })
            live := client.live.filter fun other => other.number ≠ registered.number
            order := Function.update client.order f.pid
              (swapPop (client.order f.pid) f.index) } := by
  cases pointer with
  | none =>
    left
    simp [Client.free, Client.standing, filterFree, vacate]
  | some f =>
    have slots := congrArg List.length (coherent.slots f.pid)
    rw [List.length_map] at slots
    by_cases inside : f.index < (client.order f.pid).length
    · right
      refine ⟨f, (client.order f.pid)[f.index], List.getElem?_eq_getElem inside, ?_⟩
      simp [Client.free, Client.standing, filterFree, vacate, slots, inside]
    · left
      simp [Client.free, Client.standing, filterFree, vacate, slots, inside]

theorem free_coherent (client : Client C) (coherent : Coherent client)
    (pointer : Option FilterPtr) :
    Coherent (client.free pointer (client.standing pointer)) := by
  rcases free_cases client coherent pointer with same | ⟨f, registered, standing, freed⟩
  · rw [same]
    exact coherent
  · rcases List.getElem?_eq_some_iff.mp standing with ⟨inside, rfl⟩
    rw [freed]
    have placed := coherent.placed f.pid
    have member := placed.mem_iff.mp (List.getElem_mem inside)
    have onPid : (client.order f.pid)[f.index].pid = f.pid := by
      simpa using (List.mem_filter.mp member).2
    refine ⟨fun other => ?_, fun other => ?_, fun other => ?_, fun other => ?_, ?_, ?_, ?_⟩
    · by_cases same : other = f.pid
      · subst same
        simp [filterRebuild, coherent.slots, swapPop_map]
      · simp [same, coherent.slots]
    · by_cases same : other = f.pid
      · subst same
        have small := coherent.small f.pid
        simp [swapPop_length]
        omega
      · simpa [same] using coherent.small other
    · by_cases same : other = f.pid
      · subst same
        right
        simp [filterRebuild]
      · simpa [same] using coherent.rebuilt other
    · rw [List.filter_comm]
      by_cases same : other = f.pid
      · subst same
        have numbered : ((client.order f.pid).map Registered.number).Nodup := by
          rw [(placed.map Registered.number).nodup_iff]
          exact coherent.numbered.sublist (List.filter_sublist.map Registered.number)
        have popped := swapPop_perm (client.order f.pid) f.index inside
        have erased := eraseIdx_numbers (client.order f.pid) numbered f.index inside
        simpa using popped.trans (erased.trans (placed.filter _))
      · have elsewhere : ∀ known ∈ client.live.filter (fun known => decide (known.pid = other)),
            known.number ≠ (client.order f.pid)[f.index].number := by
          intro known found sameNumber
          have both := List.mem_filter.mp found
          have equal := List.inj_on_of_nodup_map coherent.numbered both.1
            (List.mem_of_mem_filter member) sameNumber
          rw [equal, onPid] at both
          exact same (of_decide_eq_true both.2).symm
        have all := List.filter_eq_self.mpr fun known found =>
          decide_eq_true (elsewhere known found)
        rw [all]
        simpa [same] using coherent.placed other
    · intro known found
      exact coherent.shallow known (List.mem_of_mem_filter found)
    · exact coherent.numbered.sublist (List.filter_sublist.map Registered.number)
    · intro known found
      exact coherent.counted known (List.mem_of_mem_filter found)

def Client.initial (before : PidFilter C) : Client C where
  pidFilter := filterInit before

theorem initial_coherent (before : PidFilter C) : Coherent (Client.initial before) :=
  ⟨fun _ => rfl, fun _ => Nat.zero_le _, fun _ => Or.inl rfl, fun _ => List.Perm.nil,
    by simp [Client.initial], by simp [Client.initial], by simp [Client.initial]⟩

theorem next_coherent (client : Client C) (call : Call C) (after : Client C)
    (coherent : Coherent client) (inPlace : InPlace client call)
    (made : client.next call = some after) : Coherent after := by
  cases call with
  | register pid para shallow callback memory =>
    rcases Option.some.inj made with rfl
    exact register_coherent client coherent pid para shallow callback memory
  | free pointer given =>
    rcases Option.some.inj made with rfl
    rw [inPlace]
    exact free_coherent client coherent pointer

-- what filter_lookup finds stands there
theorem filterLookup_standing (client : Client C) (coherent : Coherent client) (pid : Pid)
    (para : FilterParam) (pointer : FilterPtr)
    (found : filterLookup client.pidFilter pid (some para) = some pointer) :
    pointer.pid = pid ∧ ∃ registered, (client.order pid)[pointer.index]? = some registered ∧
      client.standing (some pointer) = some registered.number ∧
      registered.filter.para.same para = true := by
  rcases Option.bind_eq_some_iff.mp found with ⟨index, position, pair⟩
  rcases Option.some.inj pair with rfl
  rw [coherent.slots pid, List.findIdx?_map] at position
  rcases List.findIdx?_eq_some_iff_getElem.mp position with ⟨inside, same, -⟩
  refine ⟨rfl, (client.order pid)[index], List.getElem?_eq_getElem inside, ?_, same⟩
  simp [Client.standing, inside]

/-- The dispatch is exact as long as a filter is freed through a pointer to where it stands. -/
theorem dispatch_exact (before : PidFilter C) (calls : List (Call C))
    (inPlace : Runs.EachStep Client.next InPlace (Client.initial before) calls) :
    Runs.Always Client.next Client.Dispatches (Client.initial before) calls := by
  have always := Runs.Always.of_eachStep next_coherent (Client.initial before) calls
    (initial_coherent before) inPlace
  exact always.mono fun _ => Coherent.dispatches

-- two tables on PID 33
def registerTwo : List (Call Nat) :=
  [.register 33 (tableParam 0x42 0xFF) rfl 0 true, .register 33 (tableParam 0x46 0xFF) rfl 1 true]

-- the second filter has moved to the first slot when it is freed
def freeBoth : List (Call Nat) :=
  [.free (some ⟨33, 0⟩) (some 0), .free (some ⟨33, 0⟩) (some 1)]

def unregistered : PidFilter Nat := fun _ => {}

theorem dispatch_exact_freed :
    Runs.Always Client.next Client.Dispatches (Client.initial unregistered)
      (registerTwo ++ freeBoth) := by
  apply dispatch_exact unregistered (registerTwo ++ freeBoth)
  rintro first ⟨⟩
  refine ⟨trivial, ?_⟩
  rintro second ⟨⟩
  refine ⟨trivial, ?_⟩
  rintro third ⟨⟩
  refine ⟨rfl, ?_⟩
  rintro fourth ⟨⟩
  exact ⟨rfl, trivial⟩

-- both are freed through the pointers that filter_alloc has returned
def freeKept : List (Call Nat) :=
  [.free (some ⟨33, 0⟩) (some 0), .free (some ⟨33, 1⟩) (some 1)]

theorem freeKept_kept :
    Runs.EachStep Client.next Kept (Client.initial unregistered) (registerTwo ++ freeKept) := by
  rintro first ⟨⟩
  refine ⟨trivial, ?_⟩
  rintro second ⟨⟩
  refine ⟨trivial, ?_⟩
  rintro third ⟨⟩
  refine ⟨⟨0, rfl, rfl⟩, ?_⟩
  rintro fourth ⟨⟩
  exact ⟨⟨1, rfl, rfl⟩, trivial⟩

theorem dispatch_after_free :
    ¬∀ (before : PidFilter Nat) (calls : List (Call Nat)),
      Runs.EachStep Client.next Kept (Client.initial before) calls →
      Runs.Always Client.next Client.Dispatches (Client.initial before) calls := by
  intro claim
  have always := claim unregistered (registerTwo ++ freeKept) freeKept_kept
  have last := (((always.2 _ rfl).2 _ rfl).2 _ rfl).2 _ rfl
  have placed := (last 33 [some 0x46] 0x46 rfl).1
  exact absurd placed.length_eq (by decide)

end TsAnalyze.Filters
