import TsAnalyze.Lists.Nodes

set_option autoImplicit false

namespace TsAnalyze.Lists

open Memory Rings Tables

-- how the nodes of a table are freed: by parse_sdt, parse_pmt, free_list_nodes, parse_nit and parse_bat
inductive Clearing
  | sdt
  | pmt
  | freeListNodes
  | nodesOnly

variable {D F : Type} (ops : DescriptorOps D)

-- if (!list_empty(list)) free_descriptors(list)
def freeIfFull (list : Address) : Storing (Object D F) Unit := do
  let empty ← onLists fun valid => listEmpty valid list
  if empty then pure () else freeDescriptorsAt ops list

def clearNode (clearing : Clearing) (pn : Address) : Storing (Object D F) Unit :=
  match clearing with
  | .sdt => do
      onLists fun valid => listDel valid pn
      freeIfFull ops ⟨pn.object, .list⟩
      release pn.object
  | .pmt => do
      freeIfFull ops ⟨pn.object, .list⟩
      onLists fun valid => listDel valid pn
      release pn.object
  | .freeListNodes => do
      freeDescriptorsAt ops ⟨pn.object, .list⟩
      onLists fun valid => listDel valid pn
      release pn.object
  | .nodesOnly => do
      onLists fun valid => listDel valid pn
      release pn.object

def clearNodes (clearing : Clearing) (h : Address) : Storing (Object D F) Unit := do
  let empty ← onLists fun valid => listEmpty valid h
  if empty then pure () else listForEachSafe h (clearNode ops clearing)

-- the objects that are freed with a node
def Clearing.frees (clearing : Clearing) (placed : Placed D F) : List Nat :=
  match clearing with
  | .nodesOnly => [placed.name]
  | _ => placed.owned

section Node

variable {ops} {store : Store (Object D F)} {family : Family Address} {h : Address}

theorem listEmpty_onLists {P : Type} {store : Store P} {family : Family Address} {h : Address}
    {nodes : List Address} (sound : Sound store family) (list : family h = some nodes) :
    onLists (fun valid => listEmpty valid h) store = some (nodes.isEmpty, store) := by
  have ring := sound.represents.ring h nodes list
  have there := sound.represents.there h nodes list
  have empty : decide (store.links.next h = h) = nodes.isEmpty := by
    rw [ring.next_head]
    cases nodes with
    | nil => simp
    | cons first rest =>
      have different : first ≠ h := fun same => ring.notMem (by simp [same])
      simp [different]
  rw [onLists_eq (listEmpty_eq store.links (there h List.mem_cons_self)), empty]
  rfl

theorem freed_nil (family : Family Address) : Family.freed family [] = family := by
  funext address
  simp [Family.freed]

theorem freeIfFull_freed {names : List Nat} {list : List (Descriptor D)} (sound : Sound store family)
    (listed : family h = some (names.map entry)) (stored : Stored store names list)
    (free : freeDescriptors ops list = some ()) (apart : h.object ∉ names) :
    ∃ after later, freeIfFull ops h store = some ((), after) ∧
      Freed store after family later h names := by
  rw [freeIfFull, state_bind (listEmpty_onLists sound listed)]
  cases names with
  | nil =>
    refine ⟨store, family, rfl, sound, ?_, by simp, rfl⟩
    rw [freed_nil, ← List.map_nil, ← listed, Function.update_eq_self]
  | cons first rest =>
    simp only [List.map_cons, List.isEmpty_cons, Bool.false_eq_true, if_false]
    exact freeDescriptorsAt_freed sound listed stored free apart

/-- What goes with the first node of a list. -/
structure ClearedNode (before after : Store (Object D F)) (family later : Family Address)
    (h : Address) (rest : List Address) (gone : List Nat) : Prop where
  sound : Sound after later
  family : later = Family.freed (Function.update family h (some rest)) gone
  object : ∀ name, after.object name = if name ∈ gone then none else before.object name
  heap : after.heap = before.heap

theorem without_eq_freed (family : Family Address) (name : Nat) :
    family.without name = Family.freed family [name] := by
  funext address
  simp [Family.without, Family.freed]

theorem del_release {name : Nat} {payload : Object D F} {rest : List Address}
    (sound : Sound store family) (list : family h = some (entry name :: rest))
    (node : store.object name = some payload) :
    ∃ after later, (do
        onLists fun valid => listDel valid (entry name)
        release name) store = some ((), after) ∧
      ClearedNode store after family later h rest [name] := by
  have first : family h = some ([] ++ entry name :: rest) := list
  obtain ⟨ran, deleted⟩ := sound.del first
  have outside := sound.represents.outside_del first
  have still : (store.relinked (unlink store.links (entry name))).object name = some payload := node
  refine ⟨_, _, by rw [state_bind ran, release_eq still], deleted.release outside, ?_, ?_, rfl⟩
  · rw [without_eq_freed]
    rfl
  · intro other
    by_cases this : other = name
    · simp [this]
    · simp [filled_object _ _ _ this, this]

theorem Family.Outside.freed {family : Family Address} {address : Address} (names : List Nat)
    (outside : family.Outside address) : Family.Outside (Family.freed family names) address := by
  intro k nodes list
  rw [Family.freed] at list
  split at list
  · cases list
  · exact outside k nodes list

variable {placed : Placed D F} {rest : List Address}

-- the descriptors go first
theorem freed_del_release {middle : Store (Object D F)} {between : Family Address}
    (list : family h = some (entry placed.name :: rest)) (holds : HoldsNode store family placed)
    (own : placed.name ∉ placed.names) (apart : h.object ∉ placed.owned)
    (freed : Freed store middle family between ⟨placed.name, .list⟩ placed.names) :
    ∃ after later, (do
        onLists fun valid => listDel valid (entry placed.name)
        release placed.name) middle = some ((), after) ∧
      ClearedNode store after family later h rest placed.owned := by
  obtain ⟨notNode, notNames⟩ := not_or.mp (fun inside => apart (List.mem_cons.mpr inside))
  have different : h ≠ ⟨placed.name, .list⟩ := by
    rintro rfl
    exact notNode rfl
  have listed : between h = some (entry placed.name :: rest) := by
    rw [freed.family, Family.freed, if_neg notNames, Function.update_of_ne different, list]
  have node : middle.object placed.name = some (.node placed.fields) := by
    rw [freed.object, if_neg own, holds.node]
  obtain ⟨after, later, ran, cleared⟩ := del_release freed.sound listed node
  refine ⟨after, later, ran, cleared.sound, ?_, ?_, cleared.heap.trans freed.heap⟩
  · rw [cleared.family, freed.family]
    funext address
    by_cases isNode : address.object = placed.name
    · simp [Family.freed, isNode, Placed.owned]
    · have notList : address ≠ ⟨placed.name, .list⟩ := by
        rintro rfl
        exact isNode rfl
      by_cases isTable : address = h
      · simp [Family.freed, isTable, notNode, notNames, Placed.owned]
      · simp [Family.freed, isNode, notList, isTable, Placed.owned]
  · intro name
    rw [cleared.object, freed.object]
    simp only [Placed.owned, List.mem_cons]
    split_ifs <;> grind

-- the descriptors go between the deletion and the free
theorem del_freed_release (sound : Sound store family)
    (list : family h = some (entry placed.name :: rest)) (holds : HoldsNode store family placed)
    (free : freeDescriptors ops placed.list = some ()) (own : placed.name ∉ placed.names)
    (apart : h.object ∉ placed.owned) :
    ∃ after later, (do
        onLists fun valid => listDel valid (entry placed.name)
        freeIfFull ops ⟨placed.name, .list⟩
        release placed.name) store = some ((), after) ∧
      ClearedNode store after family later h rest placed.owned := by
  obtain ⟨notNode, notNames⟩ := not_or.mp (fun inside => apart (List.mem_cons.mpr inside))
  have different : (⟨placed.name, .list⟩ : Address) ≠ h := by
    rintro rfl
    exact notNode rfl
  have first : family h = some ([] ++ entry placed.name :: rest) := list
  obtain ⟨ran, deleted⟩ := sound.del first
  have outside := sound.represents.outside_del first
  have listed : Function.update family h (some ([] ++ rest)) ⟨placed.name, .list⟩ =
      some (placed.names.map entry) := by
    rw [Function.update_of_ne different, holds.list]
  obtain ⟨middle, between, emptied, freed⟩ :=
    freeIfFull_freed deleted listed holds.stored free own
  have node : middle.object placed.name = some (.node placed.fields) := by
    rw [freed.object, if_neg own, relinked_object, holds.node]
  have still : between.Outside (entry placed.name) := by
    rw [freed.family]
    exact (outside.update (by simp)).freed placed.names
  refine ⟨_, _, ?_, freed.sound.release still, ?_, ?_, freed.heap⟩
  · rw [state_bind ran, state_bind emptied, release_eq node]
  · rw [freed.family]
    funext address
    by_cases isNode : address.object = placed.name
    · simp [Family.freed, Family.without, isNode, Placed.owned]
    · have notList : address ≠ ⟨placed.name, .list⟩ := by
        rintro rfl
        exact isNode rfl
      simp [Family.freed, Family.without, isNode, notList, Placed.owned]
  · intro name
    by_cases this : name = placed.name
    · simp [this, Placed.owned]
    · rw [filled_object _ _ _ this, freed.object]
      simp [this, Placed.owned]

theorem clearNode_cleared (clearing : Clearing) (sound : Sound store family)
    (list : family h = some (entry placed.name :: rest)) (holds : HoldsNode store family placed)
    (free : clearing ≠ .nodesOnly → freeDescriptors ops placed.list = some ()) (own : placed.name ∉ placed.names)
    (apart : h.object ∉ placed.owned) :
    ∃ after later, clearNode ops clearing (entry placed.name) store = some ((), after) ∧
      ClearedNode store after family later h rest (clearing.frees placed) := by
  cases clearing with
  | sdt => exact del_freed_release sound list holds (free nofun) own apart
  | pmt =>
    obtain ⟨middle, between, emptied, freed⟩ :=
      freeIfFull_freed sound holds.list holds.stored (free nofun) own
    obtain ⟨after, later, ran, cleared⟩ := freed_del_release list holds own apart freed
    exact ⟨after, later, by rw [clearNode, entry_object, state_bind emptied, ran], cleared⟩
  | freeListNodes =>
    obtain ⟨middle, between, emptied, freed⟩ :=
      freeDescriptorsAt_freed sound holds.list holds.stored (free nofun) own
    obtain ⟨after, later, ran, cleared⟩ := freed_del_release list holds own apart freed
    exact ⟨after, later, by rw [clearNode, entry_object, state_bind emptied, ran], cleared⟩
  | nodesOnly => exact del_release sound list holds.node

end Node

section Nodes

variable {ops} {store : Store (Object D F)} {family : Family Address} {h : Address}

/-- The nodes of a table with their descriptors, each in memory of its own. -/
structure HoldsNodes (store : Store (Object D F)) (family : Family Address) (h : Address)
    (placed : List (Placed D F)) : Prop where
  list : family h = some (placed.map fun node => entry node.name)
  holds : ∀ node ∈ placed, HoldsNode store family node
  nodup : (placed.flatMap Placed.owned).Nodup
  apart : h.object ∉ placed.flatMap Placed.owned

/-- A table whose nodes have been freed. -/
structure Cleared (before after : Store (Object D F)) (family later : Family Address) (h : Address)
    (gone : List Nat) : Prop where
  sound : Sound after later
  list : later = Family.freed (Function.update family h (some [])) gone
  object : ∀ name, after.object name = if name ∈ gone then none else before.object name
  heap : after.heap = before.heap

-- where the loop over the nodes stands
def ClearingNodes (clearing : Clearing) (store : Store (Object D F)) (family : Family Address)
    (h : Address) (placed : List (Placed D F)) (now : Store (Object D F))
    (current : Family Address) (rest : List Nat) : Prop :=
  ∃ done left, placed = done ++ left ∧ rest = left.map Placed.name ∧ Sound now current ∧
    current = Family.freed (Function.update family h (some (rest.map entry)))
      (done.flatMap clearing.frees) ∧
    (∀ name, now.object name =
      if name ∈ done.flatMap clearing.frees then none else store.object name) ∧
    now.heap = store.heap

theorem Clearing.frees_owned (clearing : Clearing) (placed : Placed D F) {name : Nat}
    (gone : name ∈ clearing.frees placed) : name ∈ placed.owned := by
  cases clearing with
  | nodesOnly => exact List.mem_cons.mpr (Or.inl (List.mem_singleton.mp gone))
  | sdt | pmt | freeListNodes => exact gone

theorem Clearing.flatMap_owned (clearing : Clearing) (placed : List (Placed D F)) {name : Nat}
    (gone : name ∈ placed.flatMap clearing.frees) : name ∈ placed.flatMap Placed.owned := by
  obtain ⟨node, member, inside⟩ := List.mem_flatMap.mp gone
  exact List.mem_flatMap.mpr ⟨node, member, clearing.frees_owned node inside⟩

theorem freed_append (family : Family Address) (h : Address) (before after : List Address)
    (early late : List Nat) (apart : h.object ∉ early) :
    Family.freed (Function.update
        (Family.freed (Function.update family h (some before)) early) h (some after)) late =
      Family.freed (Function.update family h (some after)) (early ++ late) := by
  funext address
  by_cases isTable : address = h
  · subst isTable
    simp [Family.freed, apart]
  · simp only [Family.freed, Function.update_of_ne isTable, List.mem_append]
    split_ifs <;> grind

theorem clearNodes_taken (clearing : Clearing) (placed : List (Placed D F))
    (held : HoldsNodes store family h placed)
    (free : clearing ≠ .nodesOnly → ∀ node ∈ placed, freeDescriptors ops node.list = some ())
    (now : Store (Object D F)) (current : Family Address) (name : Nat) (rest : List Nat)
    (standing : ClearingNodes clearing store family h placed now current (name :: rest)) :
    ∃ after later, clearNode ops clearing (entry name) now = some ((), after) ∧
      ClearingNodes clearing store family h placed after later rest := by
  obtain ⟨done, left, whole, names, sound, same, object, heap⟩ := standing
  cases left with
  | nil => cases names
  | cons node left =>
    obtain ⟨rfl, rfl⟩ := List.cons.inj names
    have member : node ∈ placed := by simp [whole]
    have distinct := held.nodup
    rw [whole, List.flatMap_append, List.nodup_append', List.flatMap_cons, List.nodup_append']
      at distinct
    obtain ⟨-, ⟨ownDistinct, -, -⟩, separate⟩ := distinct
    have notGone : ∀ name ∈ node.owned, name ∉ done.flatMap clearing.frees := fun name own gone =>
      separate (clearing.flatMap_owned done gone) (List.mem_append_left _ own)
    have tableApart : h.object ∉ done.flatMap clearing.frees := by
      intro gone
      refine held.apart ?_
      rw [whole, List.flatMap_append]
      exact List.mem_append_left _ (clearing.flatMap_owned done gone)
    have nodeApart : h.object ∉ node.owned := fun own =>
      held.apart (List.mem_flatMap.mpr ⟨node, member, own⟩)
    have different : (⟨node.name, .list⟩ : Address) ≠ h := by
      rintro rfl
      exact nodeApart List.mem_cons_self
    have listed : current h = some (entry node.name :: (left.map Placed.name).map entry) := by
      rw [same, Family.freed, if_neg tableApart, Function.update_self, List.map_cons]
    have holds : HoldsNode now current node := by
      refine (held.holds node member).kept (fun name own => ?_) ?_
      · rw [object, if_neg (notGone name own)]
      · rw [same, Family.freed, if_neg (notGone _ List.mem_cons_self),
          Function.update_of_ne different]
    obtain ⟨after, later, ran, cleared⟩ := clearNode_cleared clearing sound listed holds
      (fun full => free full node member) (List.nodup_cons.mp ownDistinct).1 nodeApart
    refine ⟨after, later, ran, done ++ [node], left, by simp [whole], rfl, cleared.sound, ?_, ?_,
      cleared.heap.trans heap⟩
    · rw [cleared.family, same, freed_append family h _ _ _ _ tableApart]
      simp
    · intro name
      rw [cleared.object, object]
      simp only [List.flatMap_append, List.flatMap_singleton, List.mem_append]
      split_ifs <;> grind

-- the loop over the nodes, which does nothing to an empty list
theorem eachNode_cleared (clearing : Clearing) (placed : List (Placed D F))
    (sound : Sound store family) (held : HoldsNodes store family h placed)
    (free : clearing ≠ .nodesOnly → ∀ node ∈ placed, freeDescriptors ops node.list = some ()) :
    ∃ after later, listForEachSafe h (clearNode ops clearing) store = some ((), after) ∧
      Cleared store after family later h (placed.flatMap clearing.frees) := by
  have listed : family h = some ((placed.map Placed.name).map entry) := by
    rw [held.list, List.map_map]
    rfl
  have start : ClearingNodes clearing store family h placed store family
      (placed.map Placed.name) := by
    refine ⟨[], placed, rfl, rfl, sound, ?_, by simp, rfl⟩
    rw [← listed, Function.update_eq_self, List.flatMap_nil, freed_nil]
  have current_list (now : Store (Object D F)) (current : Family Address) (rest : List Nat)
      (standing : ClearingNodes clearing store family h placed now current rest) :
      Sound now current ∧ current h = some (rest.map entry) := by
    obtain ⟨done, left, whole, -, soundNow, same, -, -⟩ := standing
    refine ⟨soundNow, ?_⟩
    have apart : h.object ∉ done.flatMap clearing.frees := by
      intro gone
      refine held.apart ?_
      rw [whole, List.flatMap_append]
      exact List.mem_append_left _ (clearing.flatMap_owned done gone)
    rw [same, Family.freed, if_neg apart, Function.update_self]
  obtain ⟨after, later, ran, done, left, whole, none, soundAfter, same, object, heap⟩ :=
    listForEachSafe_run (ClearingNodes clearing store family h placed) current_list
      (clearNodes_taken clearing _ held free) _ store family start
  obtain rfl := List.map_eq_nil_iff.mp none.symm
  rw [List.append_nil] at whole
  subst whole
  exact ⟨after, later, ran, soundAfter, same, object, heap⟩

theorem clearNodes_cleared (clearing : Clearing) (placed : List (Placed D F))
    (sound : Sound store family) (held : HoldsNodes store family h placed)
    (free : clearing ≠ .nodesOnly → ∀ node ∈ placed, freeDescriptors ops node.list = some ()) :
    ∃ after later, clearNodes ops clearing h store = some ((), after) ∧
      Cleared store after family later h (placed.flatMap clearing.frees) := by
  rw [clearNodes, state_bind (listEmpty_onLists sound held.list)]
  cases placed with
  | nil =>
    refine ⟨store, family, rfl, sound, ?_, by simp, rfl⟩
    rw [List.flatMap_nil, freed_nil, ← List.map_nil, ← held.list, Function.update_eq_self]
  | cons first others =>
    simp only [List.map_cons, List.isEmpty_cons, Bool.false_eq_true, if_false]
    exact eachNode_cleared clearing _ sound held free

end Nodes

end TsAnalyze.Lists
