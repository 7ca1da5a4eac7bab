import TsAnalyze.Lists.Tables
import TsAnalyze.Shared.Keyed

set_option autoImplicit false

namespace TsAnalyze.Lists

open Memory Rings Tables

variable {D F : Type} {ops : DescriptorOps D}

/-- A table with this content in memory; nothing else is allocated but the others. -/
def Held (store : Store (Object D F)) (t : Nat) (content : Content D F) (others : List Nat) : Prop :=
  ∃ family names placed, HoldsTable store family t names content.list placed others ∧
    content.h = placed.map Placed.content

-- the descriptors that a parser loses of the nodes that it frees
def Kind.lost (kind : Kind) (content : Content D F) : Nat :=
  match kind with
  | .nit | .bat => (content.h.map fun node => node.2.length).sum
  | _ => 0

-- the nodes and descriptors of a table
def Content.size (content : Content D F) : Nat :=
  content.list.length + (content.h.map fun node => node.2.length + 1).sum

theorem Stored.length_eq {store : Store (Object D F)} {names : List Nat}
    {list : List (Descriptor D)} (stored : Stored store names list) :
    names.length = list.length :=
  List.Forall₂.length_eq stored

theorem owned_length {store : Store (Object D F)} {family : Family Address}
    (placed : List (Placed D F)) (holds : ∀ node ∈ placed, HoldsNode store family node) :
    (placed.flatMap Placed.owned).length =
        ((placed.map Placed.content).map fun node => node.2.length + 1).sum ∧
      (placed.flatMap Placed.names).length =
        ((placed.map Placed.content).map fun node => node.2.length).sum := by
  induction placed with
  | nil => exact ⟨rfl, rfl⟩
  | cons node rest ih =>
    obtain ⟨owned, named⟩ := ih fun other inside => holds other (List.mem_cons_of_mem node inside)
    have own := (holds node List.mem_cons_self).stored.length_eq
    constructor
    · simp only [List.flatMap_cons, List.length_append, owned, List.map_cons, List.sum_cons,
        Placed.owned, List.length_cons, own, Placed.content]
    · simp only [List.flatMap_cons, List.length_append, named, List.map_cons, List.sum_cons, own,
        Placed.content]

-- the names of all that is allocated
def Store.Live {P : Type} (store : Store P) (names : List Nat) : Prop :=
  names.Nodup ∧ ∀ name, (store.object name).isSome = true ↔ name ∈ names

/-- As many objects are allocated as the table has nodes and descriptors, itself and the others. -/
theorem Held.count {store : Store (Object D F)} {t : Nat} {content : Content D F} {others : List Nat}
    (held : Held store t content others) :
    ∃ live, store.Live live ∧ live.length = 1 + content.size + others.length := by
  obtain ⟨family, names, placed, table, nodes⟩ := held
  refine ⟨_, ⟨table.nodup, fun name => ?_⟩, ?_⟩
  · rw [table.live name]
    simp only [List.mem_cons, List.mem_append]
  · rw [Content.size, nodes, ← (owned_length placed table.holds).1, ← table.stored.length_eq]
    simp only [List.length_cons, List.length_append]
    omega

theorem Kind.leaves_length (kind : Kind) {store : Store (Object D F)} {family : Family Address}
    (list : List (Descriptor D)) (placed : List (Placed D F))
    (holds : ∀ node ∈ placed, HoldsNode store family node) :
    (kind.leaves placed).length = kind.lost ⟨list, placed.map Placed.content⟩ := by
  cases kind with
  | nit | bat => exact (owned_length placed holds).2
  | pmt | sdt | eit => rfl

theorem keeps_map {A B : Type} (kind : Kind) (map : A → B) (nodes : List A) :
    kind.keeps (nodes.map map) = (kind.keeps nodes).map map := by
  cases kind <;> rfl

theorem bind_some {S A B : Type} {action : StateT S Option A} {next : A → StateT S Option B}
    {state : S} {result : B × S} (ran : (action >>= next) state = some result) :
    ∃ middle, action state = some middle ∧ next middle.1 middle.2 = some result :=
  Option.bind_eq_some_iff.mp ran

theorem lifted {S A : Type} {value : Option A} {state : S} {result : A × S}
    (ran : (liftM value : StateT S Option A) state = some result) :
    value = some result.1 ∧ result.2 = state := by
  cases value with
  | none => cases ran
  | some found =>
    obtain rfl := Option.some.inj ran
    exact ⟨rfl, rfl⟩

-- the descriptors beside the nodes, when the table has such
theorem readListAt_refines (plan : Plan F) (start : Start) {store : Store (Object D F)}
    {family : Family Address} {t : Nat} {names : List Nat} {list : List (Descriptor D)}
    {placed : List (Placed D F)} {others : List Nat}
    (table : HoldsTable store family t names list placed others)
    (empty : plan.kind.hasList → names = [] ∧ list = []) {read : List (Descriptor D)} {heap : Heap}
    {earlier : List (Descriptor D)} (same : plan.kind.hasList = false → earlier = list)
    (found : plan.readList ops start earlier store.heap = some (read, heap)) :
    ∃ after later fresh, plan.readListAt ops t start store = some ((), after) ∧
      HoldsTable after later t fresh read placed others ∧ after.heap = heap := by
  rw [Plan.readList] at found
  rw [Plan.readListAt]
  cases has : plan.kind.hasList with
  | false =>
    rw [has] at found
    obtain ⟨rfl, rfl⟩ := Prod.mk.inj (Option.some.inj found)
    exact ⟨store, family, names, rfl, same has ▸ table, rfl⟩
  | true =>
    obtain ⟨rfl, rfl⟩ := empty has
    rw [has, if_pos rfl, parseDescriptors] at found
    have refines := descriptorLoopAt_refines ops start.length start.descriptors start.length []
      store family ⟨t, .list⟩ [] table.sound table.listed
    rw [found] at refines
    obtain ⟨after, fresh, added, looped, same, appended, grown⟩ := refines
    obtain rfl : read = added := appended
    exact ⟨after, _, fresh, looped, table.addList grown, same⟩

-- one section of a table
theorem decodeAt_refines (plan : Plan F) (header : TableHeader) (pdata : Block)
    {store : Store (Object D F)} {t : Nat} {content : Content D F} {others : List Nat}
    (held : Held store t content others) {next : Content D F} {ret : Int} {heap : Heap}
    (decoded : plan.decode ops header pdata content store.heap = some ((next, ret), heap)) :
    ∃ after leaked, plan.decodeAt ops t header pdata store = some (ret, after) ∧
      after.heap = heap ∧ leaked.length = plan.kind.lost content ∧
      Held after t next (leaked ++ others) := by
  obtain ⟨family, names, placed, table, nodes⟩ := held
  obtain ⟨list, h⟩ := content
  obtain rfl : h = placed.map Placed.content := nodes
  obtain ⟨⟨⟨⟩, cleaned⟩, freed, decoded⟩ := bind_some decoded
  obtain ⟨free, rfl⟩ := lifted freed
  obtain ⟨⟨start, untouched⟩, begun, decoded⟩ := bind_some decoded
  obtain ⟨begins, rfl⟩ := lifted begun
  obtain ⟨⟨read, between⟩, listRead, decoded⟩ := bind_some decoded
  obtain ⟨⟨⟨h, code⟩, last⟩, looped, done⟩ := bind_some decoded
  obtain ⟨rfl, rfl⟩ : ⟨read, h⟩ = next ∧ code = ret := by simpa using congrArg Prod.fst (Option.some.inj done)
  obtain rfl : last = heap := congrArg Prod.snd (Option.some.inj done)
  obtain ⟨cleared, emptied, kept, rest, ran, left, which, same⟩ := table.clear plan.kind free
  have heldList : plan.kind.hasList → kept = [] ∧ rest = [] := by
    intro has
    rw [if_pos has] at which
    exact Prod.mk.inj which
  have otherwise : plan.kind.hasList = false → list = rest := by
    intro has
    rw [has] at which
    exact (Prod.mk.inj which).2.symm
  rw [← same] at listRead
  obtain ⟨listed, between, fresh, filled, withList, heaps⟩ :=
    readListAt_refines plan start left heldList otherwise listRead
  subst heaps
  have refines := nodeLoopAt_refines ops plan.layout (start.nodes.length + 1)
    start.nodes start.sectionLen (plan.kind.keeps (placed.map Placed.content)) listed _ ⟨t, .h⟩
    _ withList.sound withList.nodes
  rw [looped] at refines
  obtain ⟨after, _, more, ended, heaps, appended, grown⟩ := refines
  refine ⟨after, plan.kind.leaves placed, ?_, heaps, ?_, _, fresh, _, withList.addNodes grown, ?_⟩
  · rw [Plan.decodeAt, state_bind ran, begins, state_lift, state_bind filled, ended]
  · exact plan.kind.leaves_length list placed table.holds
  · rw [List.map_append, ← keeps_map]
    exact appended

end TsAnalyze.Lists
