import TsAnalyze.Lists.Descriptors
import TsAnalyze.Tables.Table

set_option autoImplicit false

namespace TsAnalyze.Lists

open Memory Rings Tables

/-- How a node of a table is read: its own members, and where its descriptors stand. -/
structure Layout (F : Type) where
  -- parse_nit does without list_node_init
  initNode : Bool
  wrap : Int → Int
  fields : Block → Option F
  offset : Nat
  length : F → Nat
  size : F → Nat
  advance : F → Nat

variable {D F : Type} (ops : DescriptorOps D) (layout : Layout F)

-- what is read, with the descriptors in a list of their own
def Layout.readNode (pdata : Block) : Allocating ((F × List (Descriptor D)) × Nat × Nat) := do
  let fields ← layout.fields pdata
  let list ← parseDescriptors ops [] (pdata.drop layout.offset) (layout.length fields)
  pure ((fields, list), layout.size fields, layout.advance fields)

def nodeInitIf (pn : Nat) : Storing (Object D F) Unit :=
  if layout.initNode then onLists fun valid => listNodeInit valid (entry pn) else pure ()

-- a node that has been allocated, from its lists to the end of the table's list
def placeNode (h : Address) (pn : Nat) (pdata : Block) : Storing (Object D F) F := do
  onLists fun valid => listHeadInit valid ⟨pn, .list⟩
  nodeInitIf layout pn
  let fields ← layout.fields pdata
  put pn (.node fields)
  parseDescriptorsAt ops ⟨pn, .list⟩ (pdata.drop layout.offset) (layout.length fields)
  onLists fun valid => listAddTail valid h (entry pn)
  return fields

def nodeLoopAt (h : Address) : Nat → Block → Int → Storing (Object D F) Int
  | 0, _, sectionLen => if 0 < sectionLen then failure else pure 0
  | turns + 1, pdata, sectionLen =>
      if 0 < sectionLen then do
        match ← alloc .blank with
        | none => return enomem
        | some pn => do
            let fields ← placeNode ops layout h pn pdata
            nodeLoopAt h turns (pdata.drop (layout.advance fields))
              (layout.wrap (sectionLen - layout.size fields))
      else pure 0

/-- A node in memory with the names of its descriptors. -/
structure Placed (D F : Type) where
  name : Nat
  fields : F
  names : List Nat
  list : List (Descriptor D)

namespace Placed

def content (placed : Placed D F) : F × List (Descriptor D) := (placed.fields, placed.list)

def owned (placed : Placed D F) : List Nat := placed.name :: placed.names

end Placed

structure HoldsNode (store : Store (Object D F)) (family : Family Address) (placed : Placed D F) :
    Prop where
  node : store.object placed.name = some (.node placed.fields)
  list : family ⟨placed.name, .list⟩ = some (placed.names.map entry)
  stored : Stored store placed.names placed.list

-- a node stays where neither its objects nor its list are touched
theorem HoldsNode.kept {store after : Store (Object D F)} {family later : Family Address}
    {placed : Placed D F} (holds : HoldsNode store family placed)
    (object : ∀ name ∈ placed.owned, after.object name = store.object name)
    (list : later ⟨placed.name, .list⟩ = family ⟨placed.name, .list⟩) :
    HoldsNode after later placed where
  node := by rw [object _ List.mem_cons_self, holds.node]
  list := by rw [list, holds.list]
  stored := holds.stored.kept fun name inside => object name (List.mem_cons_of_mem _ inside)

theorem HoldsNode.live {store : Store (Object D F)} {family : Family Address} {placed : Placed D F}
    (holds : HoldsNode store family placed) {name : Nat} (inside : name ∈ placed.owned) :
    (store.object name).isSome = true := by
  rcases List.mem_cons.mp inside with rfl | inside
  · rw [holds.node]
    rfl
  · obtain ⟨content, -, here⟩ := holds.stored.content inside
    rw [here]
    rfl

/-- The nodes that a parser added to the end of a table's list. -/
structure AddedNodes (before after : Store (Object D F)) (family later : Family Address)
    (h : Address) (nodes : List Address) (placed : List (Placed D F)) : Prop where
  sound : Sound after later
  list : later h = some (nodes ++ placed.map fun node => entry node.name)
  holds : ∀ node ∈ placed, HoldsNode after later node
  fresh : ∀ name ∈ placed.flatMap Placed.owned, before.next ≤ name
  nodup : (placed.flatMap Placed.owned).Nodup
  kept : ∀ name, name ∉ placed.flatMap Placed.owned → after.object name = before.object name
  lists : ∀ address, address ≠ h → address.object < before.next → later address = family address

section Place

variable {ops layout}

theorem nodeInitIf_eq (layout : Layout F) {store : Store (Object D F)} {family : Family Address}
    {pn : Nat} (sound : Sound store family) (live : (store.object pn).isSome = true)
    (outside : family.Outside (entry pn)) (notHead : family (entry pn) = none) :
    ∃ links, nodeInitIf layout pn store = some ((), store.relinked links) ∧
      Sound (store.relinked links) family := by
  cases initNode : layout.initNode with
  | true =>
    obtain ⟨ran, result⟩ := sound.nodeInit live outside notHead
    exact ⟨_, by rw [nodeInitIf, initNode, if_pos rfl, ran], result⟩
  | false => exact ⟨store.links, by rw [nodeInitIf, initNode]; rfl, sound⟩

/-- A node that has been allocated, with an empty list of its own; it is not linked yet. -/
structure Fresh (before now : Store (Object D F)) (family : Family Address) : Prop where
  sound : Sound now (Function.update family ⟨before.next, .list⟩ (some []))
  heap : now.heap = before.heap.reserve.2
  next : now.next = before.next + 1
  object : ∀ name, name ≠ before.next → now.object name = before.object name
  live : (now.object before.next).isSome = true

theorem fresh_node (layout : Layout F) {store : Store (Object D F)} {family : Family Address}
    (sound : Sound store family) :
    ∃ now : Store (Object D F),
      (do
        onLists fun valid => listHeadInit valid ⟨store.next, .list⟩
        nodeInitIf layout store.next) (store.allocated .blank) = some ((), now) ∧
      Fresh store now family := by
  have gone := sound.fresh store.next le_rfl
  obtain ⟨noHead, outside⟩ := sound.absent gone .n
  have live : ((store.allocated (.blank : Object D F)).object store.next).isSome = true := by
    rw [allocated_object_self]
    rfl
  have outsideList : family.Outside ⟨store.next, .list⟩ := (sound.absent gone .list).2
  obtain ⟨ran, result⟩ := Sound.headInit _ (sound.alloc .blank) live outsideList
  have outsideNow : Family.Outside (Function.update family ⟨store.next, .list⟩ (some []))
      (entry store.next) := outside.update (by simp)
  have noHeadNow : Function.update family ⟨store.next, .list⟩ (some [])
      (entry store.next) = none := by
    rw [Function.update_of_ne (by simp [entry])]
    exact noHead
  obtain ⟨links, inited, soundNow⟩ := nodeInitIf_eq layout result live outsideNow noHeadNow
  refine ⟨_, by rw [state_bind ran, inited], soundNow, rfl, rfl, ?_, live⟩
  exact fun name different => allocated_object store .blank different

-- the node with its descriptors at the end of the table's list
theorem link_node {store now parsed : Store (Object D F)} {family : Family Address} {h : Address}
    {nodes : List Address} {fields : F} {names : List Nat} {added : List (Descriptor D)}
    (sound : Sound store family) (list : family h = some nodes) (fresh : Fresh store now family)
    (grown : Added (now.filled store.next (some (.node fields))) parsed
      (Function.update family ⟨store.next, .list⟩ (some [])) ⟨store.next, .list⟩ []
      names added) :
    ∃ links later, onLists (fun valid => listAddTail valid h (entry store.next)) parsed =
        some ((), parsed.relinked links) ∧
      AddedNodes store (parsed.relinked links) family later h nodes
        [⟨store.next, fields, names, added⟩] := by
  obtain ⟨noHead, outside⟩ := sound.absent (sound.fresh store.next le_rfl) .n
  have above : ∀ name ∈ names, store.next < name := by
    intro name inside
    have bound := grown.fresh name inside
    rw [filled_next, fresh.next] at bound
    exact bound
  have notOwn : store.next ∉ names := fun inside => lt_irrefl _ (above _ inside)
  have notHead : h.object ≠ store.next := by
    have below := sound.below (sound.live list)
    omega
  have different : h ≠ ⟨store.next, .list⟩ := by
    rintro rfl
    exact notHead rfl
  have soundParsed := grown.sound
  rw [Function.update_idem, List.nil_append] at soundParsed
  have listed : Function.update family ⟨store.next, .list⟩ (some (names.map entry)) h =
      some nodes := by
    rw [Function.update_of_ne different, list]
  have node : parsed.object store.next = some (.node fields) := by
    rw [grown.kept _ notOwn, filled_object_self]
  have outsideNow : Family.Outside
      (Function.update family ⟨store.next, .list⟩ (some (names.map entry)))
      (entry store.next) := by
    refine outside.update fun nodes same inside => notOwn ?_
    rw [← Option.some.inj same] at inside
    obtain ⟨name, member, same⟩ := List.mem_map.mp inside
    rwa [← (Address.mk.inj same).1]
  have noHeadNow : Function.update family ⟨store.next, .list⟩ (some (names.map entry))
      (entry store.next) = none := by
    rw [Function.update_of_ne (by simp [entry])]
    exact noHead
  obtain ⟨links, ran, result⟩ := soundParsed.addTail listed (by rw [node]; rfl) outsideNow noHeadNow
  refine ⟨links, _, ran, result, Function.update_self _ _ _, ?_, ?_, ?_, ?_, ?_⟩
  · intro placed only
    obtain rfl := List.mem_singleton.mp only
    refine ⟨node, ?_, grown.stored⟩
    rw [Function.update_of_ne different.symm, Function.update_self]
  · simpa [Placed.owned] using fun name inside => (above name inside).le
  · simpa [Placed.owned] using ⟨notOwn, grown.nodup⟩
  · intro name notOwned
    obtain ⟨notNode, notName⟩ : name ≠ store.next ∧ name ∉ names := by
      simpa [Placed.owned] using notOwned
    rw [relinked_object, grown.kept name notName, filled_object _ _ _ notNode,
      fresh.object name notNode]
  · intro address notTable below
    have notFresh : address ≠ ⟨store.next, .list⟩ := by
      rintro rfl
      exact lt_irrefl _ below
    rw [Function.update_of_ne notTable, Function.update_of_ne notFresh]

-- the list of a new node and the end of the table's list
variable (ops layout) in
theorem placeNode_refines {store : Store (Object D F)} {family : Family Address} {h : Address}
    {nodes : List Address} (sound : Sound store family) (list : family h = some nodes)
    (pdata : Block) :
    match layout.readNode ops pdata store.heap.reserve.2 with
    | none => placeNode ops layout h store.next pdata (store.allocated .blank) = none
    | some (read, heap) => ∃ after later placed,
        placeNode ops layout h store.next pdata (store.allocated .blank) =
          some (read.1.1, after) ∧ after.heap = heap ∧ placed.content = read.1 ∧
        read.2 = (layout.size read.1.1, layout.advance read.1.1) ∧
        AddedNodes store after family later h nodes [placed] := by
  obtain ⟨now, ran, fresh⟩ := fresh_node layout sound
  rw [Layout.readNode, placeNode, ← bind_assoc, state_bind ran]
  cases read : layout.fields pdata with
  | none => rfl
  | some fields =>
    rw [state_lift, state_lift]
    have here : now.object store.next ≠ none := by
      have live := fresh.live
      intro gone
      simp [gone] at live
    obtain ⟨content, here⟩ := Option.ne_none_iff_exists'.mp here
    rw [state_bind (put_eq (.node fields) here)]
    have filled := fresh.sound.put (.node fields) fresh.live
    have parsed := descriptorLoopAt_refines ops (layout.length fields)
      (pdata.drop layout.offset) (layout.length fields) [] _ _ ⟨store.next, .list⟩ [] filled
      (Function.update_self _ _ _)
    rw [filled_heap, fresh.heap] at parsed
    rw [parseDescriptors, parseDescriptorsAt]
    cases descriptors : descriptorLoop ops (layout.length fields) (pdata.drop layout.offset)
        (layout.length fields) [] store.heap.reserve.2 with
    | none =>
      rw [descriptors] at parsed
      rw [state_none descriptors]
      exact state_none parsed
    | some result =>
      rw [descriptors] at parsed
      obtain ⟨after, names, added, looped, heap, appended, grown⟩ := parsed
      obtain ⟨links, later, linked, placed⟩ := link_node sound list fresh grown
      rw [state_bind descriptors]
      refine ⟨after.relinked links, later, _, ?_, heap, ?_, rfl, placed⟩
      · rw [state_bind looped, state_bind linked]
        rfl
      · rw [appended]
        rfl

theorem AddedNodes.none {store after : Store (Object D F)} {family : Family Address} {h : Address}
    {nodes : List Address} (sound : Sound after family) (list : family h = some nodes)
    (object : after.object = store.object) : AddedNodes store after family family h nodes [] where
  sound := sound
  list := by simpa using list
  holds := by simp
  fresh := by simp
  nodup := by simp
  kept _ _ := by rw [object]
  lists _ _ _ := rfl

theorem AddedNodes.cons {store middle after : Store (Object D F)}
    {family between later : Family Address} {h : Address} {nodes : List Address}
    {first : Placed D F} {rest : List (Placed D F)} (below : h.object < store.next)
    (one : AddedNodes store middle family between h nodes [first])
    (more : AddedNodes middle after between later h (nodes ++ [entry first.name]) rest) :
    AddedNodes store after family later h nodes (first :: rest) := by
  have holds := one.holds first List.mem_cons_self
  have firstFresh : ∀ name ∈ first.owned, store.next ≤ name := by
    simpa using one.fresh
  have firstBelow : ∀ name ∈ first.owned, name < middle.next :=
    fun name inside => one.sound.below (holds.live inside)
  have nameOwned : first.name ∈ first.owned := List.mem_cons_self
  have grown : store.next ≤ middle.next :=
    (firstFresh _ nameOwned).trans (firstBelow _ nameOwned).le
  have separate : ∀ name ∈ first.owned, name ∉ rest.flatMap Placed.owned := by
    intro name inside again
    have low := firstBelow name inside
    have high := more.fresh name again
    omega
  constructor
  · exact more.sound
  · rw [more.list, List.append_assoc]
    rfl
  · intro node inside
    rcases List.mem_cons.mp inside with rfl | inside
    · refine holds.kept (fun name own => more.kept name (separate name own)) ?_
      refine more.lists _ ?_ (firstBelow _ nameOwned)
      rintro rfl
      have low := firstFresh _ nameOwned
      simp only at below
      omega
    · exact more.holds node inside
  · intro name inside
    rcases List.mem_append.mp inside with here | there
    · exact firstFresh name here
    · exact grown.trans (more.fresh name there)
  · rw [List.flatMap_cons, List.nodup_append']
    exact ⟨by simpa using one.nodup, more.nodup, separate⟩
  · intro name outside
    rw [List.flatMap_cons, List.mem_append, not_or] at outside
    rw [more.kept name outside.2, one.kept name (by simpa using outside.1)]
  · intro address notTable low
    rw [more.lists address notTable (low.trans_le grown), one.lists address notTable low]

variable (ops layout) in
theorem nodeLoopAt_refines (turns : Nat) (pdata : Block) (sectionLen : Int)
    (earlier : List (F × List (Descriptor D))) (store : Store (Object D F))
    (family : Family Address) (h : Address) (nodes : List Address) (sound : Sound store family)
    (list : family h = some nodes) :
    match nodeLoop layout.wrap (layout.readNode ops) turns pdata sectionLen earlier store.heap with
    | Option.none => nodeLoopAt ops layout h turns pdata sectionLen store = Option.none
    | some (result, heap) => ∃ after later placed,
        nodeLoopAt ops layout h turns pdata sectionLen store = some (result.2, after) ∧
          after.heap = heap ∧ result.1 = earlier ++ placed.map Placed.content ∧
          AddedNodes store after family later h nodes placed := by
  induction turns generalizing pdata sectionLen earlier store family nodes with
  | zero =>
    rw [nodeLoop, nodeLoopAt]
    by_cases more : 0 < sectionLen
    · rw [if_pos more, if_pos more]
      rfl
    · rw [if_neg more, if_neg more]
      exact ⟨store, family, [], rfl, rfl, by simp, AddedNodes.none sound list rfl⟩
  | succ turns ih =>
    rw [nodeLoop, nodeLoopAt]
    by_cases more : 0 < sectionLen
    · rw [if_pos more, if_pos more]
      cases given : store.heap.succeeds store.heap.next with
      | false =>
        rw [state_bind (alloc_null .blank given), reserve_next, given]
        exact ⟨_, family, [], rfl, rfl, by simp, AddedNodes.none (sound.withHeap _) list rfl⟩
      | true =>
        rw [state_bind (alloc_eq .blank given), reserve_next, given, if_pos rfl]
        dsimp only
        have placed := placeNode_refines ops layout sound list pdata
        cases read : layout.readNode ops pdata store.heap.reserve.2 with
        | none =>
          rw [read] at placed
          rw [state_none read]
          exact state_none placed
        | some result =>
          obtain ⟨⟨content, size, advance⟩, heap⟩ := result
          rw [read] at placed
          obtain ⟨middle, between, first, ran, same, held, sizes, one⟩ := placed
          dsimp only at ran held sizes
          obtain ⟨rfl, rfl⟩ := Prod.mk.inj sizes
          rw [state_bind read, state_bind ran]
          have later := ih (pdata.drop (layout.advance content.1))
            (layout.wrap (sectionLen - layout.size content.1)) (earlier ++ [content]) middle between
            (nodes ++ [entry first.name]) one.sound one.list
          rw [same] at later
          cases rest : nodeLoop layout.wrap (layout.readNode ops) turns
              (pdata.drop (layout.advance content.1))
              (layout.wrap (sectionLen - layout.size content.1)) (earlier ++ [content]) heap with
          | none =>
            rw [rest] at later
            exact later
          | some result =>
            rw [rest] at later
            obtain ⟨after, family', placed, looped, ends, read, more⟩ := later
            refine ⟨after, family', first :: placed, looped, ends, ?_,
              AddedNodes.cons (sound.below (sound.live list)) one more⟩
            rw [read, List.append_assoc, List.map_cons, held, List.singleton_append]
    · rw [if_neg more, if_neg more]
      exact ⟨store, family, [], rfl, rfl, by simp, AddedNodes.none sound list rfl⟩

end Place

end TsAnalyze.Lists
