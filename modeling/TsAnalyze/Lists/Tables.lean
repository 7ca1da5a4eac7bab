import TsAnalyze.Lists.Clearing
import TsAnalyze.Tables.DvbSi

set_option autoImplicit false

namespace TsAnalyze.Lists

open Memory Rings Tables

inductive Kind
  | pmt
  | nit
  | bat
  | sdt
  | eit

-- pmt_t, nit_t and bat_t have descriptors beside their nodes
def Kind.hasList : Kind → Bool
  | .pmt | .nit | .bat => true
  | .sdt | .eit => false

-- parse_eit frees nothing
def Kind.clearing : Kind → Option Clearing
  | .pmt => some .pmt
  | .nit | .bat => some .nodesOnly
  | .sdt => some .sdt
  | .eit => none

-- where the descriptors of a table and its nodes stand in a section
structure Start where
  descriptors : Block
  length : Nat
  nodes : Block
  sectionLen : Int

structure Plan (F : Type) where
  kind : Kind
  layout : Layout F
  start : TableHeader → Block → Option Start

structure Content (D F : Type) where
  list : List (Descriptor D)
  h : List (F × List (Descriptor D))

variable {D F : Type} (ops : DescriptorOps D)

-- the parsers with the lists as values

def Kind.freed (kind : Kind) (content : Content D F) : Option Unit :=
  match kind with
  | .pmt => do
      freeDescriptors ops (content.h.flatMap Prod.snd)
      freeDescriptors ops content.list
  | .nit | .bat => freeDescriptors ops content.list
  | .sdt => freeDescriptors ops (content.h.flatMap Prod.snd)
  | .eit => some ()

def Kind.keeps {A : Type} (kind : Kind) (nodes : List A) : List A :=
  if kind.clearing.isSome then [] else nodes

def Plan.readList (plan : Plan F) (start : Start) (list : List (Descriptor D)) :
    Allocating (List (Descriptor D)) :=
  if plan.kind.hasList then parseDescriptors ops [] start.descriptors start.length else pure list

def Plan.decode (plan : Plan F) (header : TableHeader) (pdata : Block) (content : Content D F) :
    Allocating (Content D F × Int) := do
  plan.kind.freed ops content
  let start ← plan.start header pdata
  let list ← plan.readList ops start content.list
  let (h, ret) ← nodeLoop plan.layout.wrap (plan.layout.readNode ops) (start.nodes.length + 1)
    start.nodes start.sectionLen (plan.kind.keeps content.h)
  pure (⟨list, h⟩, ret)

-- the parsers with the lists in memory

def Kind.clear (kind : Kind) (t : Nat) : Storing (Object D F) Unit :=
  match kind with
  | .pmt => do
      clearNodes ops .pmt ⟨t, .h⟩
      freeIfFull ops ⟨t, .list⟩
  | .nit => do
      freeIfFull ops ⟨t, .list⟩
      clearNodes ops .nodesOnly ⟨t, .h⟩
  | .bat => do
      clearNodes ops .nodesOnly ⟨t, .h⟩
      freeIfFull ops ⟨t, .list⟩
  | .sdt => clearNodes ops .sdt ⟨t, .h⟩
  | .eit => pure ()

-- free_tables, for one table
def Kind.freeTable (kind : Kind) (t : Nat) : Storing (Object D F) Unit :=
  match kind with
  | .pmt => do
      listForEachSafe ⟨t, .h⟩ (clearNode ops .freeListNodes)
      freeDescriptorsAt ops ⟨t, .list⟩
  | .nit | .bat => do
      freeIfFull ops ⟨t, .list⟩
      clearNodes ops .freeListNodes ⟨t, .h⟩
  | .sdt | .eit => clearNodes ops .freeListNodes ⟨t, .h⟩

def Plan.readListAt (plan : Plan F) (t : Nat) (start : Start) : Storing (Object D F) Unit :=
  if plan.kind.hasList then parseDescriptorsAt ops ⟨t, .list⟩ start.descriptors start.length
  else pure ()

def Plan.decodeAt (plan : Plan F) (t : Nat) (header : TableHeader) (pdata : Block) :
    Storing (Object D F) Int := do
  plan.kind.clear ops t
  let start ← plan.start header pdata
  plan.readListAt ops t start
  nodeLoopAt ops plan.layout ⟨t, .h⟩ (start.nodes.length + 1) start.nodes start.sectionLen

/-- A table in memory: its lists, its nodes, and what else is allocated. -/
structure HoldsTable (store : Store (Object D F)) (family : Family Address) (t : Nat)
    (names : List Nat) (list : List (Descriptor D)) (placed : List (Placed D F))
    (others : List Nat) : Prop where
  sound : Sound store family
  listed : family ⟨t, .list⟩ = some (names.map entry)
  stored : Stored store names list
  nodes : family ⟨t, .h⟩ = some (placed.map fun node => entry node.name)
  holds : ∀ node ∈ placed, HoldsNode store family node
  live : ∀ name, (store.object name).isSome = true ↔
    name = t ∨ name ∈ names ∨ name ∈ placed.flatMap Placed.owned ∨ name ∈ others
  nodup : (t :: (names ++ (placed.flatMap Placed.owned ++ others))).Nodup

-- the objects of nodes that are freed without their descriptors
def Clearing.leaves (clearing : Clearing) (placed : List (Placed D F)) : List Nat :=
  match clearing with
  | .nodesOnly => placed.flatMap Placed.names
  | _ => []

def Kind.leaves (kind : Kind) (placed : List (Placed D F)) : List Nat :=
  match kind.clearing with
  | some clearing => clearing.leaves placed
  | none => []

section Clear

variable {ops} {store : Store (Object D F)} {family : Family Address} {t : Nat} {names : List Nat}
  {list : List (Descriptor D)} {placed : List (Placed D F)} {others : List Nat}

theorem HoldsTable.notOwned (table : HoldsTable store family t names list placed others) :
    t ∉ names ∧ t ∉ placed.flatMap Placed.owned ∧ t ∉ others := by
  have distinct := (List.nodup_cons.mp table.nodup).1
  simpa only [List.mem_append, not_or] using distinct

theorem HoldsTable.separate (table : HoldsTable store family t names list placed others) :
    names.Nodup ∧ (placed.flatMap Placed.owned).Nodup ∧ others.Nodup ∧
      List.Disjoint names (placed.flatMap Placed.owned) ∧ List.Disjoint names others ∧
      List.Disjoint (placed.flatMap Placed.owned) others := by
  have distinct := (List.nodup_cons.mp table.nodup).2
  rw [List.nodup_append', List.nodup_append'] at distinct
  obtain ⟨own, ⟨nodes, rest, apart⟩, outer⟩ := distinct
  exact ⟨own, nodes, rest, fun name here there => outer here (List.mem_append_left _ there),
    fun name here there => outer here (List.mem_append_right _ there), apart⟩

theorem HoldsTable.emptied (table : HoldsTable store family t names list placed others)
    {after : Store (Object D F)} {later : Family Address}
    (freed : Freed store after family later ⟨t, .list⟩ names) :
    HoldsTable after later t [] [] placed others := by
  obtain ⟨notList, notNodes, notOthers⟩ := table.notOwned
  obtain ⟨-, -, -, apartNodes, apartOthers, -⟩ := table.separate
  constructor
  · exact freed.sound
  · rw [freed.family, Family.freed, if_neg notList, Function.update_self]
    rfl
  · exact List.Forall₂.nil
  · rw [freed.family, Family.freed, if_neg notList, Function.update_of_ne (by simp), table.nodes]
  · intro node inside
    have owned {name : Nat} (own : name ∈ node.owned) : name ∉ names := fun here =>
      apartNodes here (List.mem_flatMap.mpr ⟨node, inside, own⟩)
    have different : node.name ≠ t := by
      rintro rfl
      exact notNodes (List.mem_flatMap.mpr ⟨node, inside, List.mem_cons_self⟩)
    refine (table.holds node inside).kept (fun name own => ?_) ?_
    · rw [freed.object, if_neg (owned own)]
    · rw [freed.family, Family.freed, if_neg (owned List.mem_cons_self),
        Function.update_of_ne (by simp [different])]
  · intro name
    rw [freed.object]
    have before := table.live name
    by_cases gone : name ∈ names
    · have notT : name ≠ t := fun same => notList (same ▸ gone)
      have notNode := apartNodes gone
      have notOther := apartOthers gone
      simp only [gone, if_true, Option.isSome_none, Bool.false_eq_true, false_iff, List.not_mem_nil]
      tauto
    · rw [if_neg gone, before]
      simp [gone]
  · refine List.Nodup.sublist ?_ table.nodup
    exact List.Sublist.cons_cons t (List.sublist_append_right names _)

-- the descriptors of the table are freed
theorem HoldsTable.freeList (table : HoldsTable store family t names list placed others)
    (free : freeDescriptors ops list = some ()) :
    ∃ after later, freeIfFull ops ⟨t, .list⟩ store = some ((), after) ∧
      HoldsTable after later t [] [] placed others ∧ after.heap = store.heap := by
  obtain ⟨after, later, ran, freed⟩ :=
    freeIfFull_freed table.sound table.listed table.stored free table.notOwned.1
  exact ⟨after, later, ran, table.emptied freed, freed.heap⟩

theorem HoldsTable.heldNodes (table : HoldsTable store family t names list placed others) :
    HoldsNodes store family ⟨t, .h⟩ placed :=
  ⟨table.nodes, table.holds, table.separate.2.1, table.notOwned.2.1⟩

theorem names_sublist (placed : List (Placed D F)) :
    (placed.flatMap Placed.names).Sublist (placed.flatMap Placed.owned) := by
  induction placed with
  | nil => exact List.Sublist.slnil
  | cons node rest ih =>
    exact List.Sublist.append (List.sublist_cons_self _ _) ih

-- a node's name is not the name of a descriptor
theorem name_notMem (placed : List (Placed D F)) (distinct : (placed.flatMap Placed.owned).Nodup)
    {node other : Placed D F} (inside : node ∈ placed) (also : other ∈ placed) :
    node.name ∉ other.names := by
  induction placed with
  | nil => cases inside
  | cons first rest ih =>
    rw [List.flatMap_cons, List.nodup_append'] at distinct
    obtain ⟨own, later, apart⟩ := distinct
    have owned {node : Placed D F} (member : node ∈ rest) {name : Nat} (own : name ∈ node.owned) :
        name ∈ rest.flatMap Placed.owned := List.mem_flatMap.mpr ⟨node, member, own⟩
    intro named
    rcases List.mem_cons.mp inside with here | insideRest <;>
      rcases List.mem_cons.mp also with there | alsoRest
    · subst here there
      exact (List.nodup_cons.mp own).1 named
    · subst here
      exact apart List.mem_cons_self (owned alsoRest (List.mem_cons_of_mem _ named))
    · subst there
      exact apart (List.mem_cons_of_mem _ named) (owned insideRest List.mem_cons_self)
    · exact ih later insideRest alsoRest named

-- of the objects of distinct nodes, those that a clearing does not free are those it leaves
theorem leaves_iff (clearing : Clearing) (placed : List (Placed D F))
    (distinct : (placed.flatMap Placed.owned).Nodup) (name : Nat) :
    (name ∈ placed.flatMap Placed.owned ∧ name ∉ placed.flatMap clearing.frees) ↔
      name ∈ clearing.leaves placed := by
  cases clearing with
  | sdt | pmt | freeListNodes =>
    simp only [Clearing.leaves, List.not_mem_nil, iff_false, not_and_not_right]
    exact id
  | nodesOnly =>
    simp only [Clearing.frees, Clearing.leaves, List.mem_flatMap, Placed.owned, List.mem_cons,
      List.not_mem_nil, or_false, not_exists, not_and]
    constructor
    · rintro ⟨⟨node, member, same | named⟩, notNode⟩
      · exact absurd same (notNode node member)
      · exact ⟨node, member, named⟩
    · rintro ⟨node, member, named⟩
      refine ⟨⟨node, member, Or.inr named⟩, ?_⟩
      rintro other also rfl
      exact name_notMem placed distinct also member named

theorem leaves_sublist (clearing : Clearing) (placed : List (Placed D F)) :
    (clearing.leaves placed).Sublist (placed.flatMap Placed.owned) := by
  cases clearing with
  | nodesOnly => exact names_sublist placed
  | sdt | pmt | freeListNodes => exact List.nil_sublist _

theorem HoldsTable.cleared (table : HoldsTable store family t names list placed others)
    (clearing : Clearing) {after : Store (Object D F)} {later : Family Address}
    (cleared : Cleared store after family later ⟨t, .h⟩ (placed.flatMap clearing.frees)) :
    HoldsTable after later t names list [] (clearing.leaves placed ++ others) := by
  obtain ⟨notList, notNodes, notOthers⟩ := table.notOwned
  obtain ⟨-, nodesDistinct, -, apartNodes, -, apartOthers⟩ := table.separate
  have gone_owned {name : Nat} (gone : name ∈ placed.flatMap clearing.frees) :
      name ∈ placed.flatMap Placed.owned := clearing.flatMap_owned placed gone
  have notGone : t ∉ placed.flatMap clearing.frees := fun gone => notNodes (gone_owned gone)
  constructor
  · exact cleared.sound
  · rw [cleared.list, Family.freed, if_neg notGone, Function.update_of_ne (by simp), table.listed]
  · have kept : ∀ name ∈ names, after.object name = store.object name := by
      intro name inside
      rw [cleared.object, if_neg fun gone => apartNodes inside (gone_owned gone)]
    exact table.stored.kept kept
  · rw [cleared.list, Family.freed, if_neg notGone, Function.update_self]
    rfl
  · simp
  · intro name
    have before := table.live name
    have left := leaves_iff clearing placed nodesDistinct name
    rw [cleared.object]
    by_cases gone : name ∈ placed.flatMap clearing.frees
    · have owned := gone_owned gone
      have notT : name ≠ t := fun same => notNodes (same ▸ owned)
      have notName : name ∉ names := fun inside => apartNodes inside owned
      have notOther := apartOthers owned
      rw [if_pos gone]
      simp only [Option.isSome_none, Bool.false_eq_true, false_iff, List.flatMap_nil,
        List.not_mem_nil, List.mem_append, false_or, not_or]
      exact ⟨notT, notName, fun leaves => (left.mpr leaves).2 gone, notOther⟩
    · have same : name ∈ placed.flatMap Placed.owned ↔ name ∈ clearing.leaves placed := by
        rw [← left]
        exact ⟨fun owned => ⟨owned, gone⟩, fun both => both.1⟩
      rw [if_neg gone, before, same, List.mem_append, List.flatMap_nil]
      simp only [List.not_mem_nil, false_or]
  · rw [List.flatMap_nil, List.nil_append]
    refine List.Nodup.sublist ?_ table.nodup
    refine List.Sublist.cons_cons t (List.Sublist.append (List.Sublist.refl names) ?_)
    exact List.Sublist.append (leaves_sublist clearing placed) (List.Sublist.refl others)

-- the nodes of the table are freed
theorem HoldsTable.freeNodes (table : HoldsTable store family t names list placed others)
    (clearing : Clearing)
    (free : clearing ≠ .nodesOnly → ∀ node ∈ placed, freeDescriptors ops node.list = some ()) :
    ∃ after later, clearNodes ops clearing ⟨t, .h⟩ store = some ((), after) ∧
      HoldsTable after later t names list [] (clearing.leaves placed ++ others) ∧
      after.heap = store.heap := by
  obtain ⟨after, later, ran, cleared⟩ :=
    clearNodes_cleared clearing placed table.sound table.heldNodes free
  exact ⟨after, later, ran, table.cleared clearing cleared, cleared.heap⟩

theorem freeDescriptors_nodes (placed : List (Placed D F))
    (free : freeDescriptors ops ((placed.map Placed.content).flatMap Prod.snd) = some ()) :
    ∀ node ∈ placed, freeDescriptors ops node.list = some () := by
  intro node inside
  refine freeDescriptors_all fun content own => freeDescriptors_mem free ?_
  exact List.mem_flatMap.mpr ⟨node.content, List.mem_map_of_mem inside, own⟩

theorem bind_unit {first second : Option Unit} (both : (first >>= fun _ => second) = some ()) :
    first = some () ∧ second = some () := by
  cases first with
  | none => cases both
  | some _ => exact ⟨rfl, both⟩

-- what is left of a table when a parser begins to fill it
theorem HoldsTable.clear (kind : Kind) (table : HoldsTable store family t names list placed others)
    (free : kind.freed ops ⟨list, placed.map Placed.content⟩ = some ()) :
    ∃ after later kept content, kind.clear ops t store = some ((), after) ∧
      HoldsTable after later t kept content (kind.keeps placed) (kind.leaves placed ++ others) ∧
      (kept, content) = (if kind.hasList then ([], []) else (names, list)) ∧
      after.heap = store.heap := by
  cases kind with
  | pmt =>
    obtain ⟨nodes, own⟩ := bind_unit free
    obtain ⟨middle, between, cleared, held, same⟩ :=
      table.freeNodes .pmt fun _ => freeDescriptors_nodes placed nodes
    obtain ⟨after, later, ran, result, heap⟩ := held.freeList own
    exact ⟨after, later, [], [], by rw [Kind.clear, state_bind cleared, ran], result, rfl,
      heap.trans same⟩
  | nit =>
    obtain ⟨middle, between, cleared, held, same⟩ := table.freeList free
    obtain ⟨after, later, ran, result, heap⟩ := held.freeNodes .nodesOnly fun full => absurd rfl full
    exact ⟨after, later, [], [], by rw [Kind.clear, state_bind cleared, ran], result, rfl,
      heap.trans same⟩
  | bat =>
    obtain ⟨middle, between, cleared, held, same⟩ :=
      table.freeNodes .nodesOnly fun full => absurd rfl full
    obtain ⟨after, later, ran, result, heap⟩ := held.freeList free
    exact ⟨after, later, [], [], by rw [Kind.clear, state_bind cleared, ran], result, rfl,
      heap.trans same⟩
  | sdt =>
    obtain ⟨after, later, ran, result, heap⟩ :=
      table.freeNodes .sdt fun _ => freeDescriptors_nodes placed free
    exact ⟨after, later, names, list, ran, result, rfl, heap⟩
  | eit => exact ⟨store, family, names, list, rfl, table, rfl, rfl⟩

-- free_tables leaves the table with empty lists
theorem HoldsTable.freeTable (kind : Kind)
    (table : HoldsTable store family t names list placed others)
    (nodes : ∀ node ∈ placed, freeDescriptors ops node.list = some ())
    (own : freeDescriptors ops list = some ())
    (unlisted : kind.hasList = false → names = [] ∧ list = []) :
    ∃ after later, kind.freeTable ops t store = some ((), after) ∧
      HoldsTable after later t [] [] [] others := by
  cases kind with
  | pmt =>
    obtain ⟨middle, between, ran, cleared⟩ :=
      eachNode_cleared .freeListNodes placed table.sound table.heldNodes fun _ => nodes
    have held := table.cleared .freeListNodes cleared
    obtain ⟨after, later, rest, freed⟩ :=
      freeDescriptorsAt_freed held.sound held.listed held.stored own held.notOwned.1
    exact ⟨after, later, by rw [Kind.freeTable, state_bind ran, rest], held.emptied freed⟩
  | nit | bat =>
    obtain ⟨middle, between, ran, held, -⟩ := table.freeList own
    obtain ⟨after, later, rest, result, -⟩ := held.freeNodes .freeListNodes fun _ => nodes
    exact ⟨after, later, by rw [Kind.freeTable, state_bind ran, rest], result⟩
  | sdt | eit =>
    obtain ⟨rfl, rfl⟩ := unlisted rfl
    obtain ⟨after, later, ran, result, -⟩ := table.freeNodes .freeListNodes fun _ => nodes
    exact ⟨after, later, ran, result⟩

end Clear

section Fill

variable {ops} {store after : Store (Object D F)} {family later : Family Address} {t : Nat}
  {names : List Nat} {list : List (Descriptor D)} {placed : List (Placed D F)} {others : List Nat}

theorem HoldsTable.old (table : HoldsTable store family t names list placed others) {name : Nat}
    (known : name = t ∨ name ∈ names ∨ name ∈ placed.flatMap Placed.owned ∨ name ∈ others) :
    name < store.next :=
  table.sound.below ((table.live name).mpr known)

theorem HoldsTable.addList {added : List (Descriptor D)}
    (table : HoldsTable store family t [] [] placed others)
    (grown : Added store after family ⟨t, .list⟩ [] names added) :
    HoldsTable after (Function.update family ⟨t, .list⟩ (some (names.map entry))) t names added
      placed others := by
  have new {name : Nat} (inside : name ∈ names) : ¬ name < store.next :=
    not_lt.mpr (grown.fresh name inside)
  have sound := grown.sound
  rw [List.nil_append] at sound
  constructor
  · exact sound
  · exact Function.update_self _ _ _
  · exact grown.stored
  · rw [Function.update_of_ne (by simp), table.nodes]
  · intro node inside
    have owned {name : Nat} (own : name ∈ node.owned) : name < store.next :=
      table.old (Or.inr (Or.inr (Or.inl (List.mem_flatMap.mpr ⟨node, inside, own⟩))))
    have different : node.name ≠ t := by
      rintro rfl
      exact table.notOwned.2.1 (List.mem_flatMap.mpr ⟨node, inside, List.mem_cons_self⟩)
    refine (table.holds node inside).kept (fun name own => ?_) ?_
    · exact grown.kept name fun again => new again (owned own)
    · rw [Function.update_of_ne (by simp [different])]
  · intro name
    by_cases inside : name ∈ names
    · obtain ⟨content, -, here⟩ := grown.stored.content inside
      simp [here, inside]
    · rw [grown.kept name inside, table.live name]
      simp [inside]
  · refine (List.perm_middle (a := t)).nodup_iff.mp (List.nodup_append'.mpr
      ⟨grown.nodup, table.nodup, fun name inside again => new inside (table.old ?_)⟩)
    simpa using again

theorem HoldsTable.addNodes {more : List (Placed D F)}
    (table : HoldsTable store family t names list placed others)
    (grown : AddedNodes store after family later ⟨t, .h⟩
      (placed.map fun node => entry node.name) more) :
    HoldsTable after later t names list (placed ++ more) others := by
  have new {name : Nat} (inside : name ∈ more.flatMap Placed.owned) : ¬ name < store.next :=
    not_lt.mpr (grown.fresh name inside)
  have kept {name : Nat} (known : name < store.next) :
      after.object name = store.object name := grown.kept name fun inside => new inside known
  have table_old : t < store.next := table.old (Or.inl rfl)
  have owned {node : Placed D F} (inside : node ∈ placed) {name : Nat} (own : name ∈ node.owned) :
      name < store.next :=
    table.old (Or.inr (Or.inr (Or.inl (List.mem_flatMap.mpr ⟨node, inside, own⟩))))
  constructor
  · exact grown.sound
  · rw [grown.lists _ (by simp) table_old, table.listed]
  · exact table.stored.kept fun name inside => kept (table.old (Or.inr (Or.inl inside)))
  · rw [grown.list, List.map_append]
  · intro node inside
    rcases List.mem_append.mp inside with early | late
    · refine (table.holds node early).kept (fun name own => kept (owned early own)) ?_
      exact grown.lists _ (by simp) (owned early List.mem_cons_self)
    · exact grown.holds node late
  · intro name
    rw [List.flatMap_append, List.mem_append]
    by_cases inside : name ∈ more.flatMap Placed.owned
    · obtain ⟨node, member, own⟩ := List.mem_flatMap.mp inside
      simp only [(grown.holds node member).live own, true_iff]
      exact Or.inr (Or.inr (Or.inl (Or.inr inside)))
    · rw [grown.kept name inside, table.live name]
      simp only [inside, or_false]
  · have order : List.Perm (more.flatMap Placed.owned ++
          (t :: (names ++ (placed.flatMap Placed.owned ++ others))))
        (t :: (names ++ ((placed ++ more).flatMap Placed.owned ++ others))) := by
      rw [List.flatMap_append, List.append_assoc]
      refine List.perm_middle.trans (List.Perm.cons t ?_)
      refine (List.perm_append_comm_assoc _ _ _).trans (List.Perm.append_left names ?_)
      exact List.perm_append_comm_assoc _ _ _
    refine order.nodup_iff.mp (List.nodup_append'.mpr
      ⟨grown.nodup, table.nodup, fun name inside again => new inside (table.old ?_)⟩)
    simpa only [List.mem_cons, List.mem_append] using again

end Fill

end TsAnalyze.Lists
