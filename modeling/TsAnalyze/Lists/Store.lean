import TsAnalyze.Lists.Family
import TsAnalyze.Shared.Heap

set_option autoImplicit false

namespace TsAnalyze.Lists

open Memory Rings

-- the members of an object that are nodes or heads
inductive Field
  | n
  | h
  | list
  deriving DecidableEq

structure Address where
  object : Nat
  field : Field
  deriving DecidableEq

def entry (name : Nat) : Address := ⟨name, .n⟩

@[simp] theorem entry_object (name : Nat) : (entry name).object = name := rfl

/-- The objects that are allocated, and the nodes in them; a freed name is not given again. -/
structure Store (P : Type) where
  -- what else is allocated; it says whether an allocation succeeds
  heap : Heap
  next : Nat
  links : Links Address
  object : Nat → Option P

abbrev Storing (P : Type) := StateT (Store P) Option

variable {P A : Type}

def Store.valid (store : Store P) (address : Address) : Bool :=
  (store.object address.object).isSome

-- the first new name given to an object
def Store.allocated (store : Store P) (payload : P) : Store P where
  heap := store.heap.reserve.2
  next := store.next + 1
  links := store.links
  object := Function.update store.object store.next (some payload)

def Store.filled (store : Store P) (name : Nat) (payload : Option P) : Store P :=
  { store with object := Function.update store.object name payload }

def Store.relinked (store : Store P) (links : Links Address) : Store P :=
  { store with links := links }

def onLists (action : (Address → Bool) → Linking Address A) : Storing P A := fun store =>
  (action store.valid store.links).map fun found => (found.1, store.relinked found.2)

-- `none` is NULL
def alloc (payload : P) : Storing P (Option Nat) := fun store =>
  if store.heap.succeeds store.heap.next then
    some (some store.next, store.allocated payload)
  else some (none, { store with heap := store.heap.reserve.2 })

def load (name : Nat) : Storing P P := fun store =>
  (store.object name).map fun payload => (payload, store)

def put (name : Nat) (payload : P) : Storing P Unit := fun store =>
  (store.object name).map fun _ => ((), store.filled name (some payload))

-- `none` for a second free
def release (name : Nat) : Storing P Unit := fun store =>
  (store.object name).map fun _ => ((), store.filled name none)

section Effects

variable (store : Store P) (name : Nat) (payload : P)

@[simp] theorem allocated_object_self :
    (store.allocated payload).object store.next = some payload := Function.update_self _ _ _

theorem allocated_object {other : Nat} (different : other ≠ store.next) :
    (store.allocated payload).object other = store.object other :=
  Function.update_of_ne different _ _

@[simp] theorem allocated_next : (store.allocated payload).next = store.next + 1 := rfl

@[simp] theorem filled_object_self (content : Option P) :
    (store.filled name content).object name = content := Function.update_self _ _ _

theorem filled_object (content : Option P) {other : Nat} (different : other ≠ name) :
    (store.filled name content).object other = store.object other :=
  Function.update_of_ne different _ _

@[simp] theorem filled_heap (content : Option P) : (store.filled name content).heap = store.heap := rfl

@[simp] theorem filled_next (content : Option P) : (store.filled name content).next = store.next := rfl

@[simp] theorem filled_links (content : Option P) :
    (store.filled name content).links = store.links := rfl

@[simp] theorem relinked_object (links : Links Address) :
    (store.relinked links).object = store.object := rfl

@[simp] theorem relinked_next (links : Links Address) : (store.relinked links).next = store.next := rfl

@[simp] theorem relinked_heap (links : Links Address) : (store.relinked links).heap = store.heap := rfl

variable {store}

theorem onLists_eq {action : (Address → Bool) → Linking Address A} {value : A}
    {links : Links Address} (found : action store.valid store.links = some (value, links)) :
    onLists action store = some (value, store.relinked links) := by
  rw [onLists, found]
  rfl

theorem alloc_eq (given : store.heap.succeeds store.heap.next = true) :
    alloc payload store = some (some store.next, store.allocated payload) := if_pos given

theorem alloc_null (failed : store.heap.succeeds store.heap.next = false) :
    alloc payload store = some (none, { store with heap := store.heap.reserve.2 }) :=
  if_neg (by simp [failed])

theorem load_eq {name : Nat} {content : P} (here : store.object name = some content) :
    load name store = some (content, store) := by
  rw [load, here]
  rfl

theorem put_eq {name : Nat} {content : P} (here : store.object name = some content) :
    put name payload store = some ((), store.filled name (some payload)) := by
  rw [put, here]
  rfl

theorem release_eq {name : Nat} {content : P} (here : store.object name = some content) :
    release name store = some ((), store.filled name none) := by
  rw [release, here]
  rfl

end Effects

-- without the lists whose heads are in an object
def Family.without (family : Family Address) (name : Nat) : Family Address := fun address =>
  if address.object = name then none else family address

/-- The lists of a store: entries are linked by their member `n`, new names are free. -/
structure Sound (store : Store P) (family : Family Address) : Prop where
  represents : Represents store.valid store.links family
  entries : ∀ h nodes, family h = some nodes → ∀ address ∈ nodes, address.field = .n
  fresh : ∀ name, store.next ≤ name → store.object name = none

namespace Sound

variable {store : Store P} {family : Family Address} {head : Address} {nodes : List Address}
  {name : Nat}

theorem live (sound : Sound store family) (list : family head = some nodes) :
    (store.object head.object).isSome = true :=
  sound.represents.there head nodes list head List.mem_cons_self

theorem live_entry (sound : Sound store family) (list : family head = some nodes) {address : Address}
    (inside : address ∈ nodes) : (store.object address.object).isSome = true :=
  sound.represents.there head nodes list address (List.mem_cons_of_mem head inside)

theorem below (sound : Sound store family) (found : (store.object name).isSome = true) :
    name < store.next := by
  by_contra above
  rw [sound.fresh name (not_lt.mp above)] at found
  cases found

-- there are no more entries than names
theorem length_le (sound : Sound store family) {names : List Nat}
    (list : family head = some (names.map entry)) : names.length ≤ store.next := by
  have distinct : names.Nodup := (sound.represents.ring head _ list).nodup.of_map
  have bounded : names ⊆ List.range store.next := by
    intro name inside
    exact List.mem_range.mpr (sound.below (sound.live_entry list (List.mem_map_of_mem inside)))
  simpa using (distinct.subperm bounded).length_le

-- an object that is not there has no lists and is in none
theorem absent (sound : Sound store family) (gone : store.object name = none) (field : Field) :
    family ⟨name, field⟩ = none ∧ family.Outside ⟨name, field⟩ := by
  constructor
  · cases list : family ⟨name, field⟩ with
    | none => rfl
    | some nodes =>
      have found := sound.live list
      simp [gone] at found
  · intro h nodes list inside
    have found := sound.live_entry list inside
    simp [gone] at found

theorem alloc (sound : Sound store family) (payload : P) :
    Sound (store.allocated payload) family where
  represents := by
    refine ⟨sound.represents.ring, ?_, sound.represents.apart⟩
    intro h nodes list address inside
    have there := sound.represents.there h nodes list address inside
    by_cases same : address.object = store.next
    · simp [Store.valid, same]
    · rw [Store.valid, allocated_object store payload same]
      exact there
  entries := sound.entries
  fresh name above := by
    have bound : store.next + 1 ≤ name := above
    rw [allocated_object store payload (by omega)]
    exact sound.fresh name (by omega)

theorem withHeap (sound : Sound store family) (heap : Heap) :
    Sound { store with heap := heap } family :=
  ⟨sound.represents, sound.entries, sound.fresh⟩

theorem put (sound : Sound store family) (payload : P) (found : (store.object name).isSome = true) :
    Sound (store.filled name (some payload)) family where
  represents := by
    have same : (store.filled name (some payload)).valid = store.valid := by
      funext address
      by_cases here : address.object = name
      · simp [Store.valid, here, found]
      · rw [Store.valid, filled_object store name _ here, Store.valid]
    rw [same]
    exact sound.represents
  entries := sound.entries
  fresh other above := by
    have bound : store.next ≤ other := above
    have different : other ≠ name := by
      rintro rfl
      rw [sound.fresh other bound] at found
      cases found
    rw [filled_object store name _ different]
    exact sound.fresh other bound

theorem release (sound : Sound store family) (outside : family.Outside (entry name)) :
    Sound (store.filled name none) (family.without name) where
  represents := by
    have released := sound.represents.release (fun address => decide (address.object = name)) ?_
    · convert released using 1
      · funext address
        by_cases here : address.object = name
        · simp [Store.valid, here]
        · simp [Store.valid, filled_object store name _ here, here]
      · rfl
      · funext address
        simp [Family.without]
    · rintro ⟨object, field⟩ gone h nodes list inside
      obtain rfl : object = name := by simpa using gone
      have isEntry := sound.entries h nodes list _ inside
      obtain rfl : field = .n := isEntry
      exact outside h nodes list inside
  entries h nodes list := by
    rw [Family.without] at list
    split at list
    · cases list
    · exact sound.entries h nodes list
  fresh other above := by
    have bound : store.next ≤ other := above
    by_cases here : other = name
    · simp [here]
    · rw [filled_object store name _ here]
      exact sound.fresh other bound

-- a list function has run
theorem relink (sound : Sound store family) {after : Family Address} {links : Links Address}
    (represents : Represents store.valid links after)
    (entries : ∀ h nodes, after h = some nodes → ∀ address ∈ nodes, address.field = .n) :
    Sound (store.relinked links) after :=
  ⟨represents, entries, sound.fresh⟩

theorem entries_update (sound : Sound store family) (entries : Option (List Address))
    (own : ∀ nodes, entries = some nodes → ∀ address ∈ nodes, address.field = .n) :
    ∀ h nodes, Function.update family head entries h = some nodes →
      ∀ address ∈ nodes, address.field = .n := by
  intro h others list
  by_cases same : h = head
  · rw [same, Function.update_self] at list
    exact own others list
  · rw [Function.update_of_ne same] at list
    exact sound.entries h others list

theorem addTail (sound : Sound store family) (list : family head = some nodes)
    (live : (store.object name).isSome = true) (outside : family.Outside (entry name))
    (notHead : family (entry name) = none) :
    ∃ links, onLists (fun valid => listAddTail valid head (entry name)) store =
        some ((), store.relinked links) ∧
      Sound (store.relinked links)
        (Function.update family head (some (nodes ++ [entry name]))) := by
  have different : entry name ≠ head := by
    rintro rfl
    rw [notHead] at list
    cases list
  obtain ⟨ran, result⟩ := sound.represents.addTail list outside different live
  have noHead : Function.update family (entry name) none = family := by
    rw [← notHead, Function.update_eq_self]
  rw [noHead] at result
  refine ⟨_, onLists_eq ran, sound.relink result (sound.entries_update _ ?_)⟩
  intro others same address inside
  rw [← Option.some.inj same] at inside
  rcases List.mem_append.mp inside with old | new
  · exact sound.entries head nodes list address old
  · rw [List.mem_singleton.mp new]
    rfl

theorem del (sound : Sound store family) {front back : List Address} {address : Address}
    (list : family head = some (front ++ address :: back)) :
    onLists (fun valid => listDel valid address) store =
        some ((), store.relinked (unlink store.links address)) ∧
      Sound (store.relinked (unlink store.links address))
        (Function.update family head (some (front ++ back))) := by
  obtain ⟨ran, result⟩ := sound.represents.del list
  refine ⟨onLists_eq ran, sound.relink result (sound.entries_update _ ?_)⟩
  intro others same other inside
  rw [← Option.some.inj same] at inside
  refine sound.entries head _ list other ?_
  simp only [List.mem_append, List.mem_cons] at inside ⊢
  tauto

variable (head) in
theorem headInit (sound : Sound store family) (live : (store.object head.object).isSome = true)
    (outside : family.Outside head) :
    onLists (fun valid => listHeadInit valid head) store =
        some ((), store.relinked (alone store.links head)) ∧
      Sound (store.relinked (alone store.links head)) (Function.update family head (some [])) := by
  refine ⟨onLists_eq (listHeadInit_eq store.links live), ?_⟩
  refine sound.relink (sound.represents.init live outside) (sound.entries_update _ ?_)
  intro others same address inside
  rw [← Option.some.inj same] at inside
  cases inside

theorem nodeInit (sound : Sound store family) (live : (store.object name).isSome = true)
    (outside : family.Outside (entry name)) (notHead : family (entry name) = none) :
    onLists (fun valid => listNodeInit valid (entry name)) store =
        some ((), store.relinked (alone store.links (entry name))) ∧
      Sound (store.relinked (alone store.links (entry name))) family := by
  have there : store.valid (entry name) = true := live
  refine ⟨onLists_eq (listNodeInit_eq store.links there), ?_⟩
  have forgotten := (sound.represents.init there outside).forget (entry name)
  rw [Function.update_idem, ← notHead, Function.update_eq_self] at forgotten
  exact sound.relink forgotten sound.entries

end Sound

end TsAnalyze.Lists
