import TsAnalyze.Lists.LinkedList

set_option autoImplicit false

namespace TsAnalyze.Lists

open Rings

-- what a set of lists is for: the entries behind each head, `none` for what is no head
abbrev Family (N : Type) := N → Option (List N)

variable {N : Type}

-- an entry of no list; it may be a head
def Family.Outside (family : Family N) (n : N) : Prop :=
  ∀ h nodes, family h = some nodes → n ∉ nodes

theorem Family.outside_empty (n : N) : Family.Outside (fun _ => none) n := fun _ _ found => nomatch found

theorem Family.Outside.update [DecidableEq N] {family : Family N} {h n : N} {entries : Option (List N)}
    (outside : family.Outside n) (notEntry : ∀ nodes, entries = some nodes → n ∉ nodes) :
    Family.Outside (Function.update family h entries) n := by
  intro k others found
  by_cases same : k = h
  · rw [same, Function.update_self] at found
    exact notEntry others found
  · rw [Function.update_of_ne same] at found
    exact outside k others found

/-- The pointers are those of the lists of the family, none of which shares a node with another. -/
structure Represents (valid : N → Bool) (links : Links N) (family : Family N) : Prop where
  ring : ∀ h nodes, family h = some nodes → Ring links h nodes
  there : ∀ h nodes, family h = some nodes → ∀ n ∈ h :: nodes, valid n = true
  apart : ∀ h k nodes others, family h = some nodes → family k = some others → h ≠ k →
    List.Disjoint (h :: nodes) (k :: others)

theorem represents_empty (valid : N → Bool) (links : Links N) :
    Represents valid links fun _ => none where
  ring _ _ list := nomatch list
  there _ _ list := nomatch list
  apart _ _ _ _ list := nomatch list

namespace Represents

variable [DecidableEq N] {valid : N → Bool} {links after : Links N} {family : Family N}
variable {h n p o t f : N} {nodes entries front back xs ys : List N}

omit [DecidableEq N] in
theorem entry_apart (rep : Represents valid links family) (found : family h = some nodes)
    (inside : n ∈ nodes) (k : N) (others : List N) (list : family k = some others)
    (different : k ≠ h) : n ∉ k :: others := fun again =>
  rep.apart h k nodes others found list different.symm (List.mem_cons_of_mem h inside) again

omit [DecidableEq N] in
theorem entry_not_head (rep : Represents valid links family) (found : family h = some nodes)
    (inside : n ∈ nodes) : family n = none := by
  cases own : family n with
  | none => rfl
  | some others =>
    by_cases same : n = h
    · subst same
      exact absurd inside (rep.ring n nodes found).notMem
    · exact absurd List.mem_cons_self (rep.entry_apart found inside n others own same)

/-- One list changes within the nodes it may touch, another head may go; the rest stays. -/
theorem change (rep : Represents valid links family) (gone : N) (touched : List N) (ring : Ring after h entries)
    (there : ∀ n ∈ h :: entries, valid n = true) (within : ∀ n ∈ entries, n ∈ touched)
    (apart : ∀ k others, family k = some others → k ≠ h → k ≠ gone →
      List.Disjoint (k :: others) (h :: touched))
    (same : ∀ n, n ∉ h :: touched → links.SameAt after n) :
    Represents valid after
      (Function.update (Function.update family gone none) h (some entries)) := by
  have other (k : N) (others : List N) (different : k ≠ h)
      (list : Function.update (Function.update family gone none) h (some entries) k =
        some others) : k ≠ gone ∧ family k = some others := by
    rw [Function.update_of_ne different] at list
    by_cases isGone : k = gone
    · rw [isGone, Function.update_self] at list
      cases list
    · rw [Function.update_of_ne isGone] at list
      exact ⟨isGone, list⟩
  have outside (k : N) (others : List N) (different : k ≠ h) (isGone : k ≠ gone)
      (list : family k = some others) : List.Disjoint (k :: others) (h :: entries) := by
    intro n here there
    refine apart k others list different isGone here ?_
    rcases List.mem_cons.mp there with rfl | entry
    · exact List.mem_cons_self
    · exact List.mem_cons_of_mem h (within n entry)
  constructor
  · intro k others list
    by_cases different : k = h
    · rw [different, Function.update_self] at list
      rw [different, ← Option.some.inj list]
      exact ring
    · obtain ⟨isGone, list⟩ := other k others different list
      exact (rep.ring k others list).congr fun n inside =>
        same n fun here => apart k others list different isGone inside here
  · intro k others list
    by_cases different : k = h
    · rw [different, Function.update_self] at list
      rw [different, ← Option.some.inj list]
      exact there
    · exact rep.there k others (other k others different list).2
  · intro k l others more list another different
    by_cases first : k = h
    · rw [first, Function.update_self] at list
      rw [← Option.some.inj list, first]
      have second : l ≠ h := fun same => different (first.trans same.symm)
      obtain ⟨isGone, another⟩ := other l more second another
      exact List.disjoint_comm.mp (outside l more second isGone another)
    · obtain ⟨isGone, list⟩ := other k others first list
      by_cases second : l = h
      · rw [second, Function.update_self] at another
        rw [← Option.some.inj another, second]
        exact outside k others first isGone list
      · exact rep.apart k l others more list (other l more second another).2 different

-- a node that is no entry becomes the head of an empty list
theorem init (rep : Represents valid links family) (there : valid h = true)
    (outside : family.Outside h) :
    Represents valid (alone links h) (Function.update family h (some [])) := by
  have changed := rep.change h [] (alone_ring links h)
    (by simpa using there) (fun _ entry => absurd entry List.not_mem_nil) ?_ ?_
  · rwa [Function.update_idem] at changed
  · intro k others list different _
    have notEntry := outside k others list
    simp [different.symm, notEntry]
  · intro n different
    exact alone_sameAt links (by simpa using different)

theorem insert (rep : Represents valid links family) (list : family h = some nodes)
    (outside : family.Outside n) (there : valid n = true) (ring : Ring after h entries)
    (member : ∀ m ∈ entries, m = n ∨ m ∈ nodes)
    (same : ∀ m, m ∉ h :: nodes → m ≠ n → links.SameAt after m) :
    Represents valid after
      (Function.update (Function.update family n none) h (some entries)) := by
  refine rep.change n (n :: nodes) ring ?_ ?_ ?_ ?_
  · intro m inside
    rcases List.mem_cons.mp inside with rfl | entry
    · exact rep.there m nodes list m List.mem_cons_self
    · rcases member m entry with rfl | old
      · exact there
      · exact rep.there h nodes list m (List.mem_cons_of_mem h old)
  · intro m entry
    exact List.mem_cons.mpr (member m entry)
  · intro k others found different notGone m here touched
    rcases List.mem_cons.mp touched with rfl | touched
    · exact rep.apart m k nodes others list found different.symm List.mem_cons_self here
    · rcases List.mem_cons.mp touched with rfl | entry
      · rcases List.mem_cons.mp here with rfl | inside
        · exact notGone rfl
        · exact outside k others found inside
      · exact rep.apart h k nodes others list found different.symm (List.mem_cons_of_mem h entry) here
  · intro m notTouched
    refine same m ?_ ?_
    · intro inside
      rcases List.mem_cons.mp inside with rfl | entry
      · exact notTouched List.mem_cons_self
      · exact notTouched (by simp [entry])
    · rintro rfl
      exact notTouched (by simp)

omit [DecidableEq N] in
theorem next_there (rep : Represents valid links family) (list : family h = some nodes)
    (inside : n ∈ h :: nodes) : valid (links.next n) = true :=
  rep.there h nodes list _ ((rep.ring h nodes list).next_mem inside)

omit [DecidableEq N] in
theorem prev_there (rep : Represents valid links family) (list : family h = some nodes)
    (inside : n ∈ h :: nodes) : valid (links.prev n) = true :=
  rep.there h nodes list _ ((rep.ring h nodes list).prev_mem inside)

omit [DecidableEq N] in
theorem notMem_list (list : family h = some nodes) (outside : family.Outside n)
    (different : n ≠ h) : n ∉ h :: nodes := by
  have notEntry := outside h nodes list
  simp [different, notEntry]

theorem addAfter (rep : Represents valid links family)
    (list : family h = some (front ++ p :: back)) (outside : family.Outside n) (different : n ≠ h)
    (there : valid n = true) :
    listAddAfter valid p n links = some ((), insertAfter links p n) ∧
      Represents valid (insertAfter links p n)
        (Function.update (Function.update family n none) h (some (front ++ p :: n :: back))) := by
  have ring := rep.ring h _ list
  have notMem := notMem_list list outside different
  have place : p ∈ h :: (front ++ p :: back) := by simp
  refine ⟨?_, ?_⟩
  · refine listAddAfter_eq links (rep.there h _ list p place) there (rep.next_there list place) ?_
    rintro rfl
    exact notMem place
  · refine rep.insert list outside there (ring.insertAfter notMem) ?_ ?_
    · intro m
      simp only [List.mem_append, List.mem_cons]
      tauto
    · intro m notList notNode
      exact ring.insertAfter_sameAt notMem notList notNode

theorem add (rep : Represents valid links family) (list : family h = some nodes)
    (outside : family.Outside n) (different : n ≠ h) (there : valid n = true) :
    listAdd valid h n links = some ((), insertAfter links h n) ∧
      Represents valid (insertAfter links h n)
        (Function.update (Function.update family n none) h (some (n :: nodes))) := by
  have ring := rep.ring h _ list
  have notMem := notMem_list list outside different
  refine ⟨?_, ?_⟩
  · exact listAddAfter_eq links (rep.there h _ list h List.mem_cons_self) there
      (rep.next_there list List.mem_cons_self) different
  · exact rep.insert list outside there (ring.insertAfter_head notMem)
      (fun m entry => List.mem_cons.mp entry)
      fun m notList notNode => insertAfter_sameAt ring notMem notList notNode

theorem addBefore (rep : Represents valid links family)
    (list : family h = some (front ++ p :: back)) (outside : family.Outside n) (different : n ≠ h)
    (there : valid n = true) :
    listAddBefore valid p n links = some ((), insertBefore links p n) ∧
      Represents valid (insertBefore links p n)
        (Function.update (Function.update family n none) h (some (front ++ n :: p :: back))) := by
  have ring := rep.ring h _ list
  have notMem := notMem_list list outside different
  have place : p ∈ h :: (front ++ p :: back) := by simp
  refine ⟨?_, ?_⟩
  · refine listAddBefore_eq links (rep.there h _ list p place) there (rep.prev_there list place) ?_
    rintro rfl
    exact notMem place
  · refine rep.insert list outside there (ring.insertBefore notMem) ?_ ?_
    · intro m
      simp only [List.mem_append, List.mem_cons]
      tauto
    · intro m notList notNode
      exact ring.insertBefore_sameAt notMem notList notNode

theorem addTail (rep : Represents valid links family) (list : family h = some nodes)
    (outside : family.Outside n) (different : n ≠ h) (there : valid n = true) :
    listAddTail valid h n links = some ((), insertBefore links h n) ∧
      Represents valid (insertBefore links h n)
        (Function.update (Function.update family n none) h (some (nodes ++ [n]))) := by
  have ring := rep.ring h _ list
  have notMem := notMem_list list outside different
  refine ⟨?_, ?_⟩
  · exact listAddBefore_eq links (rep.there h _ list h List.mem_cons_self) there
      (rep.prev_there list List.mem_cons_self) different
  · refine rep.insert list outside there (ring.insertBefore_head notMem) ?_
      fun m notList notNode => insertBefore_sameAt ring notMem notList notNode
    intro m entry
    simpa [or_comm] using entry

theorem swap (rep : Represents valid links family)
    (list : family h = some (front ++ o :: back)) (outside : family.Outside n) (different : n ≠ h)
    (there : valid n = true) :
    listSwap valid o n links = some ((), replace links o n) ∧
      Represents valid (replace links o n)
        (Function.update (Function.update family n none) h (some (front ++ n :: back))) := by
  have ring := rep.ring h _ list
  have notMem := notMem_list list outside different
  have old : o ∈ h :: (front ++ o :: back) := by simp
  refine ⟨?_, ?_⟩
  · refine listSwap_eq links (rep.there h _ list o old) there (rep.next_there list old)
      (rep.prev_there list old) ?_
    intro same
    exact notMem (same ▸ ring.next_mem old)
  · refine rep.insert list outside there (ring.replace notMem) ?_ ?_
    · intro m
      simp only [List.mem_append, List.mem_cons]
      tauto
    · intro m notList notNode
      exact ring.replace_sameAt notList notNode

theorem del (rep : Represents valid links family)
    (list : family h = some (front ++ n :: back)) :
    listDel valid n links = some ((), unlink links n) ∧
      Represents valid (unlink links n) (Function.update family h (some (front ++ back))) := by
  have ring := rep.ring h _ list
  have entry : n ∈ front ++ n :: back := by simp
  have inside := List.mem_cons_of_mem h entry
  have kept : ∀ m ∈ front ++ back, m ∈ front ++ n :: back := by
    intro m
    simp only [List.mem_append, List.mem_cons]
    tauto
  refine ⟨?_, ?_⟩
  · exact listDel_eq links (rep.there h _ list n inside) (rep.next_there list inside)
      (rep.prev_there list inside)
  · have gone : Function.update family n none = family := by
      rw [← rep.entry_not_head list entry, Function.update_eq_self]
    have changed := rep.change n (front ++ n :: back) ring.unlink ?_ kept ?_ ?_
    · rwa [gone] at changed
    · intro m member
      refine rep.there h _ list m ?_
      rcases List.mem_cons.mp member with rfl | old
      · exact List.mem_cons_self
      · exact List.mem_cons_of_mem h (kept m old)
    · intro k others found notHead _
      exact rep.apart k h others _ found list notHead
    · exact fun m notList => ring.unlink_sameAt notList

theorem delAlone (rep : Represents valid links family) (list : family n = some []) :
    listDel valid n links = some ((), links) := by
  have ring := rep.ring n [] list
  rw [listDel_eq links (rep.there n [] list n List.mem_cons_self)
    (rep.next_there list List.mem_cons_self) (rep.prev_there list List.mem_cons_self),
    unlink_alone ring]

-- a deleted entry is in no list any more
omit [DecidableEq N] in
theorem outside_del [DecidableEq N] (rep : Represents valid links family)
    (list : family h = some (front ++ n :: back)) :
    Family.Outside (Function.update family h (some (front ++ back))) n := by
  intro k others found inside
  by_cases same : k = h
  · rw [same, Function.update_self] at found
    rw [← Option.some.inj found] at inside
    exact (rep.ring h _ list).notMem_around (List.mem_cons_of_mem h inside)
  · rw [Function.update_of_ne same] at found
    exact rep.entry_apart list (by simp) k others found same (List.mem_cons_of_mem k inside)

theorem delInit (rep : Represents valid links family)
    (list : family h = some (front ++ n :: back)) :
    ∃ after, listDelInit valid n links = some ((), after) ∧
      Represents valid after
        (Function.update (Function.update family h (some (front ++ back))) n (some [])) := by
  have there : valid n = true := rep.there h _ list n (by simp)
  obtain ⟨deleted, next⟩ := rep.del list
  refine ⟨alone (unlink links n) n, ?_, next.init there (rep.outside_del list)⟩
  rw [listDelInit, state_bind deleted, listNodeInit_eq _ there]

theorem delInitAlone (rep : Represents valid links family) (list : family n = some []) :
    ∃ after, listDelInit valid n links = some ((), after) ∧ Represents valid after family := by
  have there : valid n = true := rep.there n [] list n List.mem_cons_self
  have outside : family.Outside n := by
    intro k others found inside
    have head := rep.entry_not_head found inside
    rw [head] at list
    cases list
  refine ⟨alone links n, ?_, ?_⟩
  · rw [listDelInit, state_bind (rep.delAlone list), listNodeInit_eq _ there]
  · have started := rep.init there outside
    rwa [← list, Function.update_eq_self] at started

-- two lists sewn together with the head of the second, which is then taken out
theorem sewn (rep : Represents valid links family) (target : family t = some xs)
    (source : family f = some ys) (different : t ≠ f) {joined : Links N}
    (ring : Ring joined t (front ++ f :: back))
    (within : ∀ n ∈ front ++ f :: back, n ∈ xs ++ f :: ys)
    (same : ∀ n, n ∉ t :: xs → n ∉ f :: ys → links.SameAt joined n) :
    valid (joined.next f) = true ∧ valid (joined.prev f) = true ∧
      Represents valid (alone (unlink joined f) f)
        (Function.update (Function.update family t (some (front ++ back))) f (some [])) := by
  have there : ∀ n ∈ t :: (xs ++ f :: ys), valid n = true := by
    intro n inside
    simp only [List.mem_cons, List.mem_append] at inside
    rcases inside with rfl | early | rfl | late
    · exact rep.there n xs target n List.mem_cons_self
    · exact rep.there t xs target n (List.mem_cons_of_mem t early)
    · exact rep.there n ys source n List.mem_cons_self
    · exact rep.there f ys source n (List.mem_cons_of_mem f late)
  have joinedRep := rep.change f (xs ++ f :: ys) ring ?_ within ?_ ?_
  · have list : Function.update (Function.update family f none) t (some (front ++ f :: back)) t =
        some (front ++ f :: back) := Function.update_self _ _ _
    have inside : f ∈ t :: (front ++ f :: back) := by simp
    refine ⟨joinedRep.next_there list inside, joinedRep.prev_there list inside, ?_⟩
    have dropped := (joinedRep.del list).2.init (joinedRep.there t _ list f inside)
      (joinedRep.outside_del list)
    have families : Function.update (Function.update (Function.update (Function.update family f none)
        t (some (front ++ f :: back))) t (some (front ++ back))) f (some []) =
        Function.update (Function.update family t (some (front ++ back))) f (some []) := by
      rw [Function.update_idem, Function.update_comm different.symm, Function.update_idem]
    rwa [families] at dropped
  · intro n inside
    rcases List.mem_cons.mp inside with rfl | entry
    · exact there n List.mem_cons_self
    · exact there n (List.mem_cons_of_mem t (within n entry))
  · intro k others found notTarget notSource n here touched
    simp only [List.mem_cons, List.mem_append] at touched
    have apartTarget := rep.apart k t others xs found target notTarget here
    have apartSource := rep.apart k f others ys found source notSource here
    simp only [List.mem_cons] at apartTarget apartSource
    tauto
  · intro n outside
    simp only [List.mem_cons, List.mem_append] at outside
    exact same n (by simp; tauto) (by simp; tauto)

theorem append (rep : Represents valid links family) (target : family t = some xs)
    (source : family f = some ys) (different : t ≠ f) :
    ∃ after, listAppendList valid t f links = some ((), after) ∧
      Represents valid after
        (Function.update (Function.update family t (some (xs ++ ys))) f (some [])) := by
  have own := rep.ring t xs target
  have along := rep.ring f ys source
  have head : t ∈ t :: xs := List.mem_cons_self
  have other : f ∈ f :: ys := List.mem_cons_self
  obtain ⟨next, prev, result⟩ := rep.sewn target source different
    (own.append along (rep.apart t f xs ys target source different)) (fun _ entry => entry)
    fun n notOwn notAlong => exchange_sameAt own along (own.prev_mem head) (along.prev_mem other)
      notOwn notAlong
  refine ⟨_, ?_, result⟩
  exact listAppendList_eq links (rep.there t xs target t head) (rep.there f ys source f other)
    (rep.prev_there target head) (rep.prev_there source other) own.next_prev along.next_prev
    different _ rfl next prev

theorem prepend (rep : Represents valid links family) (target : family t = some xs)
    (source : family f = some ys) (different : t ≠ f) :
    ∃ after, listPrependList valid t f links = some ((), after) ∧
      Represents valid after
        (Function.update (Function.update family t (some (ys ++ xs))) f (some [])) := by
  have own := rep.ring t xs target
  have along := rep.ring f ys source
  have head : t ∈ t :: xs := List.mem_cons_self
  have other : f ∈ f :: ys := List.mem_cons_self
  have ring : Ring (exchange links t (links.prev f)) t ([] ++ f :: (ys ++ xs)) :=
    own.append_head along (rep.apart t f xs ys target source different)
  obtain ⟨next, prev, result⟩ := rep.sewn target source different ring (by simp; tauto)
    fun n notOwn notAlong => exchange_sameAt own along head (along.prev_mem other) notOwn notAlong
  refine ⟨_, ?_, result⟩
  exact listPrependList_eq links (rep.there t xs target t head) (rep.there f ys source f other)
    (rep.next_there target head) (rep.prev_there source other) along.next_prev _ rfl next prev

-- a list that is no longer kept track of
theorem forget (rep : Represents valid links family) (h : N) :
    Represents valid links (Function.update family h none) := by
  have other (k : N) (nodes : List N) (list : Function.update family h none k = some nodes) :
      family k = some nodes := by
    by_cases same : k = h
    · rw [same, Function.update_self] at list
      cases list
    · rwa [Function.update_of_ne same] at list
  exact ⟨fun k nodes list => rep.ring k nodes (other k nodes list),
    fun k nodes list => rep.there k nodes (other k nodes list),
    fun k l nodes others list another =>
      rep.apart k l nodes others (other k nodes list) (other l others another)⟩

-- nodes that are entries of no list may go, with the lists of which they are the heads
omit [DecidableEq N] in
theorem release (rep : Represents valid links family) (gone : N → Bool)
    (outside : ∀ n, gone n = true → family.Outside n) :
    Represents (fun n => valid n && !gone n) links
      (fun n => if gone n then none else family n) := by
  have other (h : N) (nodes : List N) (list : (if gone h then none else family h) = some nodes) :
      gone h = false ∧ family h = some nodes := by
    cases isGone : gone h with
    | true => simp [isGone] at list
    | false => exact ⟨rfl, by simpa [isGone] using list⟩
  constructor
  · exact fun h nodes list => rep.ring h nodes (other h nodes list).2
  · intro h nodes list n inside
    obtain ⟨notGone, kept⟩ := other h nodes list
    have stays : gone n = false := by
      cases isGone : gone n with
      | false => rfl
      | true =>
        rcases List.mem_cons.mp inside with rfl | entry
        · rw [notGone] at isGone
          cases isGone
        · exact absurd entry (outside n isGone h nodes kept)
    simp [rep.there h nodes kept n inside, stays]
  · exact fun h k nodes others list another =>
      rep.apart h k nodes others (other h nodes list).2 (other k others another).2

end Represents

end TsAnalyze.Lists
