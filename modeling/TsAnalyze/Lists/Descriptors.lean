import TsAnalyze.Lists.Store
import TsAnalyze.Tables.Descriptors

set_option autoImplicit false

namespace TsAnalyze.Lists

open Memory Rings Tables

-- what is allocated for the tables: descriptors and nodes, cleared before they are filled
inductive Object (D F : Type)
  | blank
  | table
  | descriptor (content : Descriptor D)
  | node (fields : F)

variable {D F : Type} (ops : DescriptorOps D)

-- parse_descriptors with the list that it fills
def descriptorLoopAt (h : Address) : Nat → Block → Int → Storing (Object D F) Unit
  | 0, _, _ => pure ()
  | turns + 1, ptr, l =>
      if 0 < l then do
        let tag ← read8 ptr 0
        match ← alloc .blank with
        | none => failure
        | some more => do
            let length ← read8 ptr 1
            let content ← ops.parse tag ptr (length.toNat + 2)
            put more (.descriptor ⟨tag, length, content⟩)
            onLists fun valid => listAddTail valid h (entry more)
            descriptorLoopAt h turns (ptr.drop (length.toNat + 2)) (l - (length.toNat + 2))
      else pure ()

def parseDescriptorsAt (h : Address) (buf : Block) (len : Nat) : Storing (Object D F) Unit :=
  descriptorLoopAt ops h len buf len

-- list_for_each_safe: `next` is read before the body, which may free `t`
def freeLoop (h : Address) (body : Address → Storing (Object D F) Unit) :
    Nat → Address → Address → Storing (Object D F) Unit
  | 0, t, _ => if t = h then pure () else failure
  | turns + 1, t, next =>
      if t = h then pure ()
      else do
        body t
        let further ← onLists fun valid => readNext valid next
        freeLoop h body turns next further

-- a turn for each name that was ever given
def listForEachSafe (h : Address) (body : Address → Storing (Object D F) Unit) :
    Storing (Object D F) Unit := fun store =>
  (do
    let t ← onLists fun valid => readNext valid h
    let next ← onLists fun valid => readNext valid t
    freeLoop h body store.next t next) store

def freeDescriptor (t : Address) : Storing (Object D F) Unit := do
  onLists fun valid => listDel valid t
  match ← load t.object with
  | .descriptor content => do
      ops.free content.tag content.content
      release t.object
  | _ => failure

def freeDescriptorsAt (list : Address) : Storing (Object D F) Unit :=
  listForEachSafe list (freeDescriptor ops)

-- the objects of these names are these descriptors
def Stored (store : Store (Object D F)) (names : List Nat) (list : List (Descriptor D)) : Prop :=
  List.Forall₂ (fun name content => store.object name = some (.descriptor content)) names list

theorem Stored.kept {store after : Store (Object D F)} {names : List Nat} {list : List (Descriptor D)}
    (stored : Stored store names list)
    (kept : ∀ name ∈ names, after.object name = store.object name) : Stored after names list := by
  induction stored with
  | nil => exact List.Forall₂.nil
  | cons here later ih =>
    refine List.Forall₂.cons ?_ (ih fun name inside => kept name (List.mem_cons_of_mem _ inside))
    rw [kept _ List.mem_cons_self, here]

section Parse

theorem state_lift {S A B : Type} (value : A) (next : A → StateT S Option B) :
    ((liftM (some value) : StateT S Option A) >>= next) = next value := rfl

theorem reserve_next {A : Type} (next : Bool → Allocating A) (heap : Heap) :
    (reserve >>= next) heap = next (heap.succeeds heap.next) heap.reserve.2 := rfl

variable {ops}

/-- The objects that a parser added to the end of a list. -/
structure Added (before after : Store (Object D F)) (family : Family Address) (h : Address)
    (nodes : List Address) (names : List Nat) (list : List (Descriptor D)) : Prop where
  sound : Sound after (Function.update family h (some (nodes ++ names.map entry)))
  stored : Stored after names list
  fresh : ∀ name ∈ names, before.next ≤ name
  nodup : names.Nodup
  kept : ∀ name, name ∉ names → after.object name = before.object name

theorem Added.none {store : Store (Object D F)} {family : Family Address} {h : Address}
    {nodes : List Address} (sound : Sound store family) (list : family h = some nodes) :
    Added store store family h nodes [] [] where
  sound := by rwa [List.map_nil, List.append_nil, ← list, Function.update_eq_self]
  stored := List.Forall₂.nil
  fresh := by simp
  nodup := List.nodup_nil
  kept _ _ := rfl

theorem Added.cons {store middle after : Store (Object D F)} {family : Family Address} {h : Address}
    {nodes : List Address} {names : List Nat} {first : Descriptor D} {list : List (Descriptor D)}
    (object : middle.object =
      Function.update store.object store.next (some (.descriptor first)))
    (next : middle.next = store.next + 1)
    (later : Added middle after
      (Function.update family h (some (nodes ++ [entry store.next]))) h
      (nodes ++ [entry store.next]) names list) :
    Added store after family h nodes (store.next :: names) (first :: list) := by
  have outside : store.next ∉ names := by
    intro inside
    have above := later.fresh _ inside
    omega
  constructor
  · have sound := later.sound
    rwa [Function.update_idem, List.append_assoc, List.singleton_append, ← List.map_cons] at sound
  · refine List.Forall₂.cons ?_ later.stored
    rw [later.kept _ outside, object, Function.update_self]
  · intro name inside
    rcases List.mem_cons.mp inside with rfl | inside
    · exact le_rfl
    · have above := later.fresh name inside
      omega
  · exact List.nodup_cons.mpr ⟨outside, later.nodup⟩
  · intro name notNew
    rw [List.mem_cons, not_or] at notNew
    rw [later.kept name notNew.2, object, Function.update_of_ne notNew.1]

-- what has been allocated is filled and put at the end of a list
theorem put_addTail {store : Store (Object D F)} {family : Family Address} {h : Address}
    {nodes : List Address} (sound : Sound store family) (list : family h = some nodes)
    (payload : Object D F) :
    ∃ middle : Store (Object D F),
      (do
        put store.next payload
        onLists fun valid => listAddTail valid h (entry store.next))
          (store.allocated .blank) = some ((), middle) ∧
      Sound middle (Function.update family h (some (nodes ++ [entry store.next]))) ∧
      middle.heap = store.heap.reserve.2 ∧ middle.next = store.next + 1 ∧
      middle.object = Function.update store.object store.next (some payload) := by
  obtain ⟨noList, outside⟩ := sound.absent (sound.fresh store.next le_rfl) .n
  have here := allocated_object_self store (.blank : Object D F)
  have filled := (sound.alloc .blank).put payload (by rw [here]; rfl)
  obtain ⟨links, ran, result⟩ := filled.addTail list (by simp) outside noList
  refine ⟨_, ?_, result, rfl, rfl, ?_⟩
  · rw [state_bind (put_eq payload here), ran]
  · exact Function.update_idem _ _ _

variable (ops) in
theorem descriptorLoopAt_refines (turns : Nat) (ptr : Block) (l : Int)
    (earlier : List (Descriptor D)) (store : Store (Object D F)) (family : Family Address)
    (h : Address) (nodes : List Address) (sound : Sound store family)
    (list : family h = some nodes) :
    match descriptorLoop ops turns ptr l earlier store.heap with
    | Option.none => descriptorLoopAt ops h turns ptr l store = Option.none
    | some (result, heap) => ∃ after names added,
        descriptorLoopAt ops h turns ptr l store = some ((), after) ∧ after.heap = heap ∧
          result = earlier ++ added ∧ Added store after family h nodes names added := by
  induction turns generalizing ptr l earlier store family nodes with
  | zero => exact ⟨store, [], [], rfl, rfl, (List.append_nil _).symm, Added.none sound list⟩
  | succ turns ih =>
    rw [descriptorLoop, descriptorLoopAt]
    by_cases more : 0 < l
    · rw [if_pos more, if_pos more]
      cases readTag : read8 ptr 0 with
      | none => rfl
      | some tag =>
        rw [state_lift, state_lift]
        cases given : store.heap.succeeds store.heap.next with
        | false =>
          rw [state_bind (alloc_null .blank given), reserve_next, given]
          rfl
        | true =>
          rw [state_bind (alloc_eq .blank given), reserve_next, given]
          cases readLength : read8 ptr 1 with
          | none => rfl
          | some length =>
            rw [if_pos rfl, state_lift]
            dsimp only
            rw [state_lift]
            cases parsed : ops.parse tag ptr (length.toNat + 2) with
            | none => rfl
            | some content =>
              obtain ⟨middle, ran, linked, heap, next, object⟩ :=
                put_addTail sound list (.descriptor ⟨tag, length, content⟩)
              have later := ih (ptr.drop (length.toNat + 2)) (l - (length.toNat + 2))
                (earlier ++ [⟨tag, length, content⟩]) middle _ _ linked (Function.update_self _ _ _)
              rw [heap] at later
              rw [state_lift, state_lift, ← bind_assoc, state_bind ran]
              cases read : descriptorLoop ops turns (ptr.drop (length.toNat + 2))
                  (l - (length.toNat + 2)) (earlier ++ [⟨tag, length, content⟩])
                  store.heap.reserve.2 with
              | none =>
                rw [read] at later
                exact later
              | some result =>
                rw [read] at later
                obtain ⟨after, names, added, rest, same, appended, grown⟩ := later
                refine ⟨after, _, ⟨tag, length, content⟩ :: added, rest, same, ?_,
                  Added.cons object next grown⟩
                rw [appended, List.append_assoc, List.singleton_append]
    · rw [if_neg more, if_neg more]
      exact ⟨store, [], [], rfl, rfl, (List.append_nil _).symm, Added.none sound list⟩

end Parse

section Free

theorem readNext_entry {P : Type} {store : Store P} {family : Family Address} {h : Address}
    {nodes : List Address} (sound : Sound store family) (list : family h = some nodes) {t : Address}
    (inside : t ∈ h :: nodes) :
    onLists (fun valid => readNext valid t) store = some (store.links.next t, store) :=
  onLists_eq (readNext_eq store.links (sound.represents.there h nodes list t inside))

/-- A body that takes the first entry out of the list, and whatever else, may run over the list. -/
theorem listForEachSafe_run {h : Address} {body : Address → Storing (Object D F) Unit}
    (left : Store (Object D F) → Family Address → List Nat → Prop)
    (listed : ∀ store family names, left store family names →
      Sound store family ∧ family h = some (names.map entry))
    (taken : ∀ store family name rest, left store family (name :: rest) →
      ∃ after family', body (entry name) store = some ((), after) ∧ left after family' rest)
    (names : List Nat) (store : Store (Object D F)) (family : Family Address)
    (start : left store family names) :
    ∃ after family', listForEachSafe h body store = some ((), after) ∧ left after family' [] := by
  have loop : ∀ (names : List Nat) (store : Store (Object D F)) (family : Family Address)
      (turns : Nat), left store family names → names.length ≤ turns →
      ∃ after family', freeLoop h body turns ((names.map entry).headD h)
        (store.links.next ((names.map entry).headD h)) store = some ((), after) ∧
        left after family' [] := by
    intro names
    induction names with
    | nil =>
      intro store family turns start _
      refine ⟨store, family, ?_, start⟩
      cases turns with
      | zero => rw [freeLoop, List.map_nil, List.headD_nil, if_pos rfl]; rfl
      | succ turns => rw [freeLoop, List.map_nil, List.headD_nil, if_pos rfl]; rfl
    | cons name rest ih =>
      intro store family turns start enough
      obtain ⟨sound, list⟩ := listed store family _ start
      obtain ⟨after, next, ran, remaining⟩ := taken store family name rest start
      obtain ⟨soundAfter, listAfter⟩ := listed after next rest remaining
      have ring := sound.represents.ring h _ list
      have further : store.links.next (entry name) = (rest.map entry).headD h := by
        have first : Ring store.links h ([] ++ entry name :: rest.map entry) := ring
        exact first.next_node
      have different : entry name ≠ h := fun same => ring.notMem (by simp [← same])
      cases turns with
      | zero => simp at enough
      | succ turns =>
        obtain ⟨last, family', rested, ended⟩ :=
          ih after next turns remaining (by simpa using enough)
        refine ⟨last, family', ?_, ended⟩
        rw [List.map_cons, List.headD_cons, freeLoop, if_neg different, state_bind ran, further,
          state_bind (readNext_entry soundAfter listAfter ?_), rested]
        simpa [or_comm] using headD_mem (rest.map entry) h
  obtain ⟨sound, list⟩ := listed store family names start
  obtain ⟨after, family', ran, ended⟩ := loop names store family _ start (sound.length_le list)
  refine ⟨after, family', ?_, ended⟩
  rw [listForEachSafe, state_bind (readNext_entry sound list List.mem_cons_self),
    (sound.represents.ring h _ list).next_head, state_bind (readNext_entry sound list ?_), ran]
  simpa [or_comm] using headD_mem (names.map entry) h

-- without the lists whose heads are in some objects
def Family.freed (family : Family Address) (names : List Nat) : Family Address := fun address =>
  if address.object ∈ names then none else family address

/-- The objects of some names are gone, and a list is empty. -/
structure Freed (before after : Store (Object D F)) (family later : Family Address) (h : Address)
    (names : List Nat) : Prop where
  sound : Sound after later
  family : later = Family.freed (Function.update family h (some [])) names
  object : ∀ name, after.object name = if name ∈ names then none else before.object name
  heap : after.heap = before.heap

variable {ops}

theorem freeDescriptors_mem {list : List (Descriptor D)} (freed : freeDescriptors ops list = some ())
    {content : Descriptor D} (inside : content ∈ list) :
    ops.free content.tag content.content = some () := by
  induction list with
  | nil => cases inside
  | cons first rest ih =>
    obtain ⟨done, here, later⟩ := Option.bind_eq_some_iff.mp freed
    rcases List.mem_cons.mp inside with rfl | inside
    · exact here
    · exact ih later inside

theorem freeDescriptors_all {list : List (Descriptor D)}
    (free : ∀ content ∈ list, ops.free content.tag content.content = some ()) :
    freeDescriptors ops list = some () := by
  induction list with
  | nil => rfl
  | cons first rest ih =>
    rw [freeDescriptors, free first List.mem_cons_self]
    exact ih fun content inside => free content (List.mem_cons_of_mem first inside)

theorem Stored.content {store : Store (Object D F)} {names : List Nat} {list : List (Descriptor D)}
    (stored : Stored store names list) {name : Nat} (inside : name ∈ names) :
    ∃ content ∈ list, store.object name = some (.descriptor content) := by
  induction stored with
  | nil => cases inside
  | cons here later ih =>
    rcases List.mem_cons.mp inside with rfl | inside
    · exact ⟨_, List.mem_cons_self, here⟩
    · obtain ⟨content, member, found⟩ := ih inside
      exact ⟨content, List.mem_cons_of_mem _ member, found⟩

theorem freeDescriptor_eq {store : Store (Object D F)} {family : Family Address} {h : Address}
    {nodes : List Address} {name : Nat} (sound : Sound store family)
    (list : family h = some (entry name :: nodes)) {content : Descriptor D}
    (here : store.object name = some (.descriptor content))
    (free : ops.free content.tag content.content = some ()) :
    ∃ after, freeDescriptor ops (entry name) store = some ((), after) ∧
      Sound after (Family.without (Function.update family h (some nodes)) name) ∧
      after.object = Function.update store.object name none ∧ after.heap = store.heap := by
  have first : family h = some ([] ++ entry name :: nodes) := list
  obtain ⟨ran, deleted⟩ := sound.del first
  have outside := sound.represents.outside_del first
  have still : (store.relinked (unlink store.links (entry name))).object name =
      some (.descriptor content) := here
  refine ⟨_, ?_, deleted.release outside, rfl, rfl⟩
  rw [freeDescriptor, state_bind ran, entry_object, state_bind (load_eq still)]
  dsimp only
  rw [free, state_lift, release_eq still]

-- where the loop of free_descriptors stands
def Freeing (store : Store (Object D F)) (family : Family Address) (h : Address) (names : List Nat)
    (now : Store (Object D F)) (current : Family Address) (rest : List Nat) : Prop :=
  ∃ gone, names = gone ++ rest ∧ Sound now current ∧
    current = Family.freed (Function.update family h (some (rest.map entry))) gone ∧
    (∀ name, now.object name = if name ∈ gone then none else store.object name) ∧
    now.heap = store.heap

theorem freed_without (family : Family Address) (h : Address) (gone : List Nat) (name : Nat)
    (before after : List Address) (apart : h.object ∉ gone) :
    Family.without (Function.update
        (Family.freed (Function.update family h (some before)) gone) h (some after)) name =
      Family.freed (Function.update family h (some after)) (gone ++ [name]) := by
  funext address
  by_cases this : address.object = name
  · simp [Family.without, Family.freed, this]
  · by_cases here : address = h
    · subst here
      simp [Family.without, Family.freed, this, apart]
    · simp [Family.without, Family.freed, this, here]

theorem freeDescriptorsAt_freed {store : Store (Object D F)} {family : Family Address} {h : Address}
    {names : List Nat} {list : List (Descriptor D)} (sound : Sound store family)
    (listed : family h = some (names.map entry)) (stored : Stored store names list)
    (free : freeDescriptors ops list = some ()) (apart : h.object ∉ names) :
    ∃ after later, freeDescriptorsAt ops h store = some ((), after) ∧
      Freed store after family later h names := by
  have distinct : names.Nodup := (sound.represents.ring h _ listed).nodup.of_map
  have current_list (now : Store (Object D F)) (current : Family Address) (rest : List Nat)
      (freeing : Freeing store family h names now current rest) :
      Sound now current ∧ current h = some (rest.map entry) := by
    obtain ⟨gone, whole, soundNow, same, -, -⟩ := freeing
    have notGone : h.object ∉ gone := fun inside => apart (by simp [whole, inside])
    refine ⟨soundNow, ?_⟩
    rw [same, Family.freed, if_neg notGone, Function.update_self]
  have taken (now : Store (Object D F)) (current : Family Address) (name : Nat) (rest : List Nat)
      (freeing : Freeing store family h names now current (name :: rest)) :
      ∃ after later, freeDescriptor ops (entry name) now = some ((), after) ∧
        Freeing store family h names after later rest := by
    have first := (current_list now current _ freeing).2
    obtain ⟨gone, whole, soundNow, same, object, heap⟩ := freeing
    have separate := distinct
    rw [whole] at separate
    have notGone : name ∉ gone := fun inside =>
      (List.nodup_append'.mp separate).2.2 inside List.mem_cons_self
    have headGone : h.object ∉ gone := fun inside => apart (by simp [whole, inside])
    have inside : name ∈ names := by simp [whole]
    obtain ⟨content, member, here⟩ := stored.content inside
    have found : now.object name = some (.descriptor content) := by
      rw [object, if_neg notGone, here]
    obtain ⟨after, ran, soundAfter, objects, heapAfter⟩ :=
      freeDescriptor_eq soundNow first found (freeDescriptors_mem free member)
    refine ⟨after, _, ran, gone ++ [name], by simp [whole], soundAfter, ?_, ?_, heapAfter.trans heap⟩
    · rw [same]
      exact freed_without family h gone name _ _ headGone
    · intro other
      rw [objects]
      by_cases this : other = name
      · simp [this]
      · rw [Function.update_of_ne this, object]
        simp [this]
  have start : Freeing store family h names store family names := by
    refine ⟨[], rfl, sound, ?_, by simp, rfl⟩
    rw [← listed, Function.update_eq_self]
    funext address
    simp [Family.freed]
  obtain ⟨after, later, ran, gone, whole, soundAfter, same, object, heap⟩ :=
    listForEachSafe_run (Freeing store family h names) current_list taken names store family start
  rw [List.append_nil] at whole
  subst whole
  exact ⟨after, later, ran, soundAfter, same, object, heap⟩

end Free

end TsAnalyze.Lists
