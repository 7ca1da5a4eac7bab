import Mathlib.Data.List.Chain
import Mathlib.Data.List.Nodup
import Mathlib.Logic.Function.Basic

set_option autoImplicit false

namespace Rings

-- the two pointers of every node
structure Links (N : Type) where
  next : N → N
  prev : N → N

variable {N : Type}

def Links.Joined (links : Links N) (first second : N) : Prop :=
  links.next first = second ∧ links.prev second = first

def Links.flip (links : Links N) : Links N := ⟨links.prev, links.next⟩

@[simp] theorem Links.flip_next (links : Links N) : links.flip.next = links.prev := rfl

@[simp] theorem Links.flip_prev (links : Links N) : links.flip.prev = links.next := rfl

@[simp] theorem Links.flip_flip (links : Links N) : links.flip.flip = links := rfl

-- the pointers of a node are the same ones
def Links.SameAt (links other : Links N) (node : N) : Prop :=
  other.next node = links.next node ∧ other.prev node = links.prev node

theorem Links.SameAt.trans {first second third : Links N} {node : N}
    (early : first.SameAt second node) (late : second.SameAt third node) :
    first.SameAt third node :=
  ⟨late.1.trans early.1, late.2.trans early.2⟩

theorem Links.flip_joined (links : Links N) (first second : N) :
    links.flip.Joined first second ↔ links.Joined second first := and_comm

-- a list of nodes that hangs together only reads `next` up to its last node and `prev` from its second
theorem chain_frame (links other : Links N) (list : List N) (chain : list.IsChain links.Joined)
    (nexts : ∀ node ∈ list.dropLast, other.next node = links.next node)
    (prevs : ∀ node ∈ list.tail, other.prev node = links.prev node) :
    list.IsChain other.Joined := by
  induction list with
  | nil => exact List.isChain_nil
  | cons first rest ih =>
    cases rest with
    | nil => exact List.isChain_singleton first
    | cons second rest =>
      obtain ⟨joined, later⟩ := List.isChain_cons_cons.mp chain
      refine List.isChain_cons_cons.mpr ⟨⟨?_, ?_⟩, ih later ?_ ?_⟩
      · rw [nexts first (by simp), joined.1]
      · rw [prevs second (by simp), joined.2]
      · intro node inside
        exact nexts node (by simp [inside])
      · intro node inside
        exact prevs node (by simp_all)

/-- The nodes behind a head, in the order in which `next` reaches them and `prev` comes back. -/
structure Ring (links : Links N) (head : N) (nodes : List N) : Prop where
  joined : (head :: (nodes ++ [head])).IsChain links.Joined
  distinct : (head :: nodes).Nodup

theorem headD_mem (nodes : List N) (head : N) : nodes.headD head ∈ nodes ++ [head] := by
  cases nodes <;> simp

theorem turned_perm (head node : N) (before after : List N) :
    List.Perm (node :: (after ++ head :: before)) (head :: (before ++ node :: after)) := by
  refine List.Perm.trans ?_ (List.Perm.cons head List.perm_middle.symm)
  refine List.Perm.trans (List.Perm.cons node List.perm_middle) ?_
  refine List.Perm.trans (List.Perm.swap head node _) ?_
  exact List.Perm.cons head (List.Perm.cons node List.perm_append_comm)

namespace Ring

variable {links : Links N} {head : N} {nodes : List N}

theorem of_parts (next : links.next head = nodes.headD head)
    (prev : links.prev (nodes.headD head) = head)
    (chain : (nodes ++ [head]).IsChain links.Joined) (distinct : (head :: nodes).Nodup) :
    Ring links head nodes := by
  refine ⟨List.isChain_cons.mpr ⟨?_, chain⟩, distinct⟩
  cases nodes with
  | nil => simpa [Links.Joined] using ⟨next, prev⟩
  | cons first rest => simpa [Links.Joined] using ⟨next, prev⟩

theorem first (ring : Ring links head nodes) : links.Joined head (nodes.headD head) := by
  have chain := (List.isChain_cons.mp ring.joined).1
  cases nodes with
  | nil => exact chain head (by simp)
  | cons first rest => exact chain first (by simp)

theorem next_head (ring : Ring links head nodes) : links.next head = nodes.headD head :=
  ring.first.1

theorem body (ring : Ring links head nodes) : (nodes ++ [head]).IsChain links.Joined :=
  (List.isChain_cons.mp ring.joined).2

theorem nil_iff : Ring links head [] ↔ links.next head = head ∧ links.prev head = head := by
  constructor
  · intro ring
    exact ring.first
  · intro self
    exact of_parts self.1 self.2 (List.isChain_singleton head) (List.nodup_singleton head)

theorem notMem (ring : Ring links head nodes) : head ∉ nodes :=
  (List.nodup_cons.mp ring.distinct).1

theorem nodup (ring : Ring links head nodes) : nodes.Nodup :=
  (List.nodup_cons.mp ring.distinct).2

-- a ring may be read from any of its nodes on
theorem rotate {before after : List N} {node : N}
    (ring : Ring links head (before ++ node :: after)) :
    Ring links node (after ++ head :: before) where
  joined := by
    have whole : ((head :: before) ++ node :: (after ++ [head])).IsChain links.Joined := by
      simpa using ring.joined
    have cut := List.isChain_split.mp whole
    have again : ((node :: after) ++ head :: (before ++ [node])).IsChain links.Joined :=
      List.isChain_split.mpr ⟨by simpa using cut.2, by simpa using cut.1⟩
    simpa using again
  distinct := (turned_perm head node before after).nodup_iff.mpr ring.distinct

theorem flip (ring : Ring links head nodes) : Ring links.flip head nodes.reverse where
  joined := by
    have back : (head :: (nodes.reverse ++ [head])) = (head :: (nodes ++ [head])).reverse := by simp
    rw [back, List.isChain_reverse]
    exact ring.joined.imp fun first second joined => (Links.flip_joined links second first).mpr joined
  distinct := by
    simpa using ring.distinct

theorem congr {other : Links N} (ring : Ring links head nodes)
    (same : ∀ node ∈ head :: nodes, links.SameAt other node) : Ring other head nodes where
  joined := by
    refine chain_frame links other _ ring.joined ?_ ?_
    · intro node inside
      rw [← List.cons_append, List.dropLast_concat] at inside
      exact (same node inside).1
    · intro node inside
      have member : node ∈ head :: nodes := by simpa [or_comm] using inside
      exact (same node member).2
  distinct := ring.distinct

-- what the pointers say is enough to tell the nodes
theorem unique {other : List N} (ring : Ring links head nodes) (again : Ring links head other) :
    nodes = other := by
  suffices follow : ∀ (start : N) (some more : List N),
      (start :: (some ++ [head])).IsChain links.Joined →
      (start :: (more ++ [head])).IsChain links.Joined → head ∉ some → head ∉ more → some = more
    from follow head nodes other ring.joined again.joined ring.notMem again.notMem
  intro start some
  induction some generalizing start with
  | nil =>
    intro more first second _ outside
    cases more with
    | nil => rfl
    | cons node more =>
      have here := (List.isChain_cons_cons.mp first).1.1
      have there := (List.isChain_cons_cons.mp second).1.1
      rw [here] at there
      simp [there] at outside
  | cons node some ih =>
    intro more first second outside otherOutside
    have here := List.isChain_cons_cons.mp first
    cases more with
    | nil =>
      have there := (List.isChain_cons_cons.mp second).1.1
      rw [here.1.1] at there
      simp [there] at outside
    | cons other more =>
      have there := List.isChain_cons_cons.mp second
      have same : node = other := by rw [← here.1.1, there.1.1]
      subst same
      rw [ih node more here.2 there.2 (fun inside => outside (List.mem_cons_of_mem _ inside))
        fun inside => otherOutside (List.mem_cons_of_mem _ inside)]

theorem prev_head (ring : Ring links head nodes) : links.prev head = nodes.getLastD head := by
  have back := ring.flip.next_head
  rw [Links.flip_next] at back
  rw [back]
  cases nodes using List.reverseRecOn <;> simp

theorem next_prev (ring : Ring links head nodes) : links.next (links.prev head) = head := by
  have found := ring.flip.first
  rw [Links.flip_joined] at found
  rw [← Links.flip_next, ring.flip.next_head]
  exact found.1

theorem before_node {before after : List N} {node : N}
    (ring : Ring links head (before ++ node :: after)) :
    links.prev node = before.getLastD head ∧ links.next (links.prev node) = node := by
  have turned := ring.rotate
  have prev := turned.prev_head
  refine ⟨?_, turned.next_prev⟩
  rw [prev]
  cases before using List.reverseRecOn with
  | nil => simp
  | append_singleton front last =>
    rw [← List.cons_append, ← List.append_assoc, List.getLastD_concat, List.getLastD_concat]

-- nothing of a ring points out of it
theorem next_mem (ring : Ring links head nodes) {node : N} (inside : node ∈ head :: nodes) :
    links.next node ∈ head :: nodes := by
  rcases List.mem_cons.mp inside with rfl | entry
  · simpa [ring.next_head, or_comm] using headD_mem nodes node
  · obtain ⟨before, after, rfl⟩ := List.append_of_mem entry
    have found := headD_mem (after ++ head :: before) node
    rw [← ring.rotate.next_head] at found
    simp only [List.mem_append, List.mem_cons] at found ⊢
    tauto

theorem prev_mem (ring : Ring links head nodes) {node : N} (inside : node ∈ head :: nodes) :
    links.prev node ∈ head :: nodes := by
  have found := ring.flip.next_mem (by simpa using inside)
  simpa using found

theorem next_node {before after : List N} {node : N}
    (ring : Ring links head (before ++ node :: after)) : links.next node = after.headD head := by
  rw [ring.rotate.next_head]
  cases after <;> rfl

theorem notMem_around {before after : List N} {node : N}
    (ring : Ring links head (before ++ node :: after)) :
    node ∉ head :: (before ++ after) := by
  have moved : List.Perm (head :: before ++ node :: after) (node :: (head :: before ++ after)) :=
    List.perm_middle
  exact (List.nodup_cons.mp (moved.nodup_iff.mp ring.distinct)).1

end Ring

section Exchange

variable [DecidableEq N] (links : Links N) {first second head : N} {nodes others : List N}

-- the successors of two nodes change places
def exchange (first second : N) : Links N where
  next := Function.update (Function.update links.next first (links.next second)) second
    (links.next first)
  prev := Function.update (Function.update links.prev (links.next second) first)
    (links.next first) second

-- a node linked to itself
def alone (node : N) : Links N where
  next := Function.update links.next node node
  prev := Function.update links.prev node node

variable {links}

theorem exchange_next (first second node : N) (notFirst : node ≠ first) (notSecond : node ≠ second) :
    (exchange links first second).next node = links.next node := by
  simp [exchange, notFirst, notSecond]

theorem exchange_prev (first second node : N) (notFirst : node ≠ links.next first)
    (notSecond : node ≠ links.next second) :
    (exchange links first second).prev node = links.prev node := by
  simp [exchange, notFirst, notSecond]

variable (links) in
theorem exchange_joined_second (first second : N) :
    (exchange links first second).Joined second (links.next first) := by
  constructor <;> exact Function.update_self _ _ _

theorem exchange_joined_first (first second : N) (different : first ≠ second)
    (nextDifferent : links.next first ≠ links.next second) :
    (exchange links first second).Joined first (links.next second) := by
  simp [exchange, Links.Joined, different, nextDifferent.symm]

-- an exchange leaves a stretch alone that neither goes on from the two nodes nor comes from them
theorem exchange_chain (first second : N) (list : List N) (chain : list.IsChain links.Joined)
    (starts : first ∉ list.dropLast ∧ second ∉ list.dropLast)
    (ends : links.next first ∉ list.tail ∧ links.next second ∉ list.tail) :
    list.IsChain (exchange links first second).Joined := by
  refine chain_frame links _ list chain ?_ ?_
  · intro node inside
    exact exchange_next first second node (fun same => starts.1 (same ▸ inside))
      fun same => starts.2 (same ▸ inside)
  · intro node inside
    exact exchange_prev first second node (fun same => ends.1 (same ▸ inside))
      fun same => ends.2 (same ▸ inside)

omit [DecidableEq N] in
theorem headD_notMem_tail (nodes : List N) (head : N) (distinct : (head :: nodes).Nodup) :
    nodes.headD head ∉ (nodes ++ [head]).tail := by
  cases nodes with
  | nil => simp
  | cons first rest =>
    have outside := List.nodup_cons.mp distinct
    have own := List.nodup_cons.mp outside.2
    have different : first ≠ head := fun same => outside.1 (by simp [same])
    simp [own.1, different]

-- of two stretches that end in the two nodes, each goes on to the beginning of one of the two
theorem exchange_stretch (chain : (nodes ++ [first]).IsChain links.Joined)
    (distinct : (first :: nodes).Nodup) (apart : List.Disjoint (first :: nodes) (second :: others))
    (entries : (links.next first = nodes.headD first ∧ links.next second = others.headD second) ∨
      (links.next first = others.headD second ∧ links.next second = nodes.headD first)) :
    (nodes ++ [first]).IsChain (exchange links first second).Joined := by
  have outside : others.headD second ∉ (nodes ++ [first]).tail := by
    intro inside
    have here := List.mem_of_mem_tail inside
    have there := headD_mem others second
    exact apart (a := others.headD second) (by simpa [or_comm] using here)
      (by simpa [or_comm] using there)
  have own := headD_notMem_tail nodes first distinct
  refine exchange_chain first second _ chain ?_ ?_
  · rw [List.dropLast_concat]
    exact ⟨(List.nodup_cons.mp distinct).1,
      fun inside => apart (List.mem_cons_of_mem _ inside) List.mem_cons_self⟩
  · rcases entries with ⟨one, two⟩ | ⟨one, two⟩
    · rw [one, two]
      exact ⟨own, outside⟩
    · rw [one, two]
      exact ⟨outside, own⟩

theorem exchange_comm (first second : N) (different : first ≠ second)
    (nextDifferent : links.next first ≠ links.next second) :
    exchange links first second = exchange links second first := by
  simp only [exchange, Function.update_comm different, Function.update_comm nextDifferent]

omit [DecidableEq N] in
theorem headD_apart (apart : List.Disjoint (first :: nodes) (second :: others)) :
    nodes.headD first ≠ others.headD second := by
  intro same
  have here := headD_mem nodes first
  have there := headD_mem others second
  rw [← same] at there
  exact apart (a := nodes.headD first) (by simpa [or_comm] using here)
    (by simpa [or_comm] using there)

omit [DecidableEq N] in
theorem merged_perm (first second : N) (nodes others : List N) :
    List.Perm (first :: (others ++ second :: nodes)) ((first :: nodes) ++ (second :: others)) := by
  refine List.Perm.cons first (List.perm_append_comm.trans ?_)
  have moved : List.Perm (nodes ++ second :: others) (second :: (nodes ++ others)) :=
    List.perm_middle
  simpa using moved.symm

/-- An exchange of two nodes of different rings makes one ring of them. -/
theorem Ring.merge (ring : Ring links first nodes) (other : Ring links second others)
    (apart : List.Disjoint (first :: nodes) (second :: others)) :
    Ring (exchange links first second) first (others ++ second :: nodes) := by
  have different : first ≠ second := fun same => apart List.mem_cons_self (by simp [same])
  have nextDifferent : links.next first ≠ links.next second := by
    rw [ring.next_head, other.next_head]
    exact headD_apart apart
  have front : (others ++ [second]).IsChain (exchange links first second).Joined := by
    rw [exchange_comm first second different nextDifferent]
    exact exchange_stretch other.body other.distinct (List.disjoint_comm.mp apart)
      (Or.inl ⟨other.next_head, ring.next_head⟩)
  have back : (nodes ++ [first]).IsChain (exchange links first second).Joined :=
    exchange_stretch ring.body ring.distinct apart (Or.inl ⟨ring.next_head, other.next_head⟩)
  have enter := exchange_joined_first first second different nextDifferent
  have leave := exchange_joined_second links first second
  rw [other.next_head] at enter
  rw [ring.next_head] at leave
  refine ⟨List.isChain_cons.mpr ⟨?_, ?_⟩, ?_⟩
  · cases others <;> simpa using enter
  · rw [List.append_assoc, List.cons_append]
    refine List.isChain_split.mpr ⟨front, List.isChain_cons.mpr ⟨?_, back⟩⟩
    cases nodes <;> simpa using leave
  · exact (merged_perm first second nodes others).nodup_iff.mpr
      (List.nodup_append'.mpr ⟨ring.distinct, other.distinct, apart⟩)

/-- An exchange of two nodes of one ring takes it apart between them. -/
theorem Ring.split (ring : Ring links first (others ++ second :: nodes)) :
    Ring (exchange links first second) first nodes ∧
      Ring (exchange links first second) second others := by
  obtain ⟨distinct, otherDistinct, apart⟩ := List.nodup_append'.mp
    ((merged_perm first second nodes others).nodup_iff.mp ring.distinct)
  have chain := ring.body
  rw [List.append_assoc, List.cons_append, List.isChain_split] at chain
  have nextFirst : links.next first = others.headD second := by
    rw [ring.next_head]
    cases others <;> rfl
  have nextSecond := ring.next_node
  have different : first ≠ second := fun same => apart List.mem_cons_self (by simp [same])
  have nextDifferent : links.next first ≠ links.next second := by
    rw [nextFirst, nextSecond]
    exact (headD_apart apart).symm
  have back : (nodes ++ [first]).IsChain (exchange links first second).Joined :=
    exchange_stretch (List.isChain_cons.mp chain.2).2 distinct apart (Or.inr ⟨nextFirst, nextSecond⟩)
  have front : (others ++ [second]).IsChain (exchange links first second).Joined := by
    rw [exchange_comm first second different nextDifferent]
    exact exchange_stretch chain.1 otherDistinct (List.disjoint_comm.mp apart)
      (Or.inr ⟨nextSecond, nextFirst⟩)
  have enter := exchange_joined_first first second different nextDifferent
  have leave := exchange_joined_second links first second
  rw [nextSecond] at enter
  rw [nextFirst] at leave
  exact ⟨Ring.of_parts enter.1 enter.2 back distinct,
    Ring.of_parts leave.1 leave.2 front otherDistinct⟩

end Exchange

section Operations

variable [DecidableEq N] (links : Links N)

def insertAfter (place node : N) : Links N :=
  exchange (alone links node) place node

def insertBefore (place node : N) : Links N :=
  (insertAfter links.flip place node).flip

-- the neighbours of a node joined to each other; its own pointers stay
def unlink (node : N) : Links N where
  next := Function.update links.next (links.prev node) (links.next node)
  prev := Function.update links.prev (links.next node) (links.prev node)

-- a node takes the place of another one
def replace (old node : N) : Links N where
  next := Function.update (Function.update links.next node (links.next old)) (links.prev old) node
  prev := Function.update (Function.update links.prev node (links.prev old)) (links.next old) node

variable {links} {head node place old second : N} {nodes others before after : List N}

theorem alone_ring (links : Links N) (node : N) : Ring (alone links node) node [] :=
  Ring.nil_iff.mpr ⟨Function.update_self _ _ _, Function.update_self _ _ _⟩

theorem alone_sameAt (links : Links N) {other : N} (different : other ≠ node) :
    links.SameAt (alone links node) other :=
  ⟨Function.update_of_ne different _ _, Function.update_of_ne different _ _⟩

theorem Ring.alone (ring : Ring links head nodes) (outside : node ∉ head :: nodes) :
    Ring (Rings.alone links node) head nodes :=
  ring.congr fun _ inside => alone_sameAt links fun same => outside (same ▸ inside)

-- an exchange keeps what is in the ring of neither node
theorem exchange_sameAt {first second other start : N} {firsts seconds : List N}
    (own : Ring links head firsts) (along : Ring links start seconds)
    (inFirsts : first ∈ head :: firsts) (inSeconds : second ∈ start :: seconds)
    (notFirsts : other ∉ head :: firsts) (notSeconds : other ∉ start :: seconds) :
    links.SameAt (exchange links first second) other := by
  have outside {node : N} {list : List N} (inside : node ∈ list) (not : other ∉ list) :
      other ≠ node := fun same => not (same ▸ inside)
  constructor
  · exact exchange_next first second other (outside inFirsts notFirsts)
      (outside inSeconds notSeconds)
  · exact exchange_prev first second other (outside (own.next_mem inFirsts) notFirsts)
      (outside (along.next_mem inSeconds) notSeconds)

theorem Ring.insertAfter_head (ring : Ring links place nodes) (outside : node ∉ place :: nodes) :
    Ring (insertAfter links place node) place (node :: nodes) := by
  refine (ring.alone outside).merge (alone_ring links node) ?_
  simpa [List.disjoint_comm] using outside

theorem Ring.insertAfter (ring : Ring links head (before ++ place :: after))
    (outside : node ∉ head :: (before ++ place :: after)) :
    Ring (Rings.insertAfter links place node) head (before ++ place :: node :: after) := by
  have turnedOutside := outside
  rw [← (turned_perm head place before after).mem_iff] at turnedOutside
  have inserted := ring.rotate.insertAfter_head turnedOutside
  rw [← List.cons_append] at inserted
  exact inserted.rotate

theorem Ring.insertBefore_head (ring : Ring links place nodes) (outside : node ∉ place :: nodes) :
    Ring (insertBefore links place node) place (nodes ++ [node]) := by
  have inserted := (ring.flip.insertAfter_head (by simpa using outside)).flip
  rwa [List.reverse_cons, List.reverse_reverse] at inserted

theorem Ring.insertBefore (ring : Ring links head (before ++ place :: after))
    (outside : node ∉ head :: (before ++ place :: after)) :
    Ring (Rings.insertBefore links place node) head (before ++ node :: place :: after) := by
  have turnedOutside := outside
  rw [← (turned_perm head place before after).mem_iff] at turnedOutside
  have inserted := ring.rotate.insertBefore_head turnedOutside
  simp only [List.append_assoc, List.cons_append] at inserted
  simpa using inserted.rotate

theorem insertAfter_sameAt {other : N} (own : Ring links place nodes)
    (outside : node ∉ place :: nodes) (notOwn : other ∉ place :: nodes) (different : other ≠ node) :
    links.SameAt (insertAfter links place node) other := by
  refine (alone_sameAt links different).trans ?_
  exact exchange_sameAt (own.alone outside) (alone_ring links node) List.mem_cons_self
    List.mem_cons_self notOwn (by simpa using different)

theorem insertBefore_sameAt {other : N} (own : Ring links place nodes)
    (outside : node ∉ place :: nodes) (notOwn : other ∉ place :: nodes) (different : other ≠ node) :
    links.SameAt (insertBefore links place node) other :=
  (insertAfter_sameAt own.flip (by simpa using outside) (by simpa using notOwn) different).symm

theorem Ring.insertAfter_sameAt {other : N} (ring : Ring links head (before ++ place :: after))
    (outside : node ∉ head :: (before ++ place :: after))
    (notOwn : other ∉ head :: (before ++ place :: after)) (different : other ≠ node) :
    links.SameAt (Rings.insertAfter links place node) other := by
  rw [← (turned_perm head place before after).mem_iff] at outside notOwn
  exact Rings.insertAfter_sameAt ring.rotate outside notOwn different

theorem Ring.insertBefore_sameAt {other : N} (ring : Ring links head (before ++ place :: after))
    (outside : node ∉ head :: (before ++ place :: after))
    (notOwn : other ∉ head :: (before ++ place :: after)) (different : other ≠ node) :
    links.SameAt (Rings.insertBefore links place node) other := by
  rw [← (turned_perm head place before after).mem_iff] at outside notOwn
  exact Rings.insertBefore_sameAt ring.rotate outside notOwn different

theorem Ring.unlink_sameAt {other : N} (ring : Ring links head (before ++ node :: after))
    (notOwn : other ∉ head :: (before ++ node :: after)) :
    links.SameAt (Rings.unlink links node) other := by
  have node_mem : node ∈ head :: (before ++ node :: after) := by simp
  constructor
  · refine Function.update_of_ne ?_ _ _
    rintro rfl
    exact notOwn (ring.prev_mem node_mem)
  · refine Function.update_of_ne ?_ _ _
    rintro rfl
    exact notOwn (ring.next_mem node_mem)

theorem Ring.replace_sameAt {other : N} (ring : Ring links head (before ++ old :: after))
    (notOwn : other ∉ head :: (before ++ old :: after)) (different : other ≠ node) :
    links.SameAt (Rings.replace links old node) other := by
  have old_mem : old ∈ head :: (before ++ old :: after) := by simp
  constructor
  · refine (Function.update_of_ne ?_ _ _).trans (Function.update_of_ne different _ _)
    rintro rfl
    exact notOwn (ring.prev_mem old_mem)
  · refine (Function.update_of_ne ?_ _ _).trans (Function.update_of_ne different _ _)
    rintro rfl
    exact notOwn (ring.next_mem old_mem)

theorem unlink_alone (ring : Ring links node []) : unlink links node = links := by
  obtain ⟨next, prev⟩ := Ring.nil_iff.mp ring
  have sameNext : Function.update links.next node node = links.next := by
    rw [Function.update_eq_self_iff, next]
  have samePrev : Function.update links.prev node node = links.prev := by
    rw [Function.update_eq_self_iff, prev]
  rw [unlink, next, prev, sameNext, samePrev]

theorem alone_unlink (linked : links.next (links.prev node) = node) :
    alone (unlink links node) node = exchange links (links.prev node) node := by
  simp [alone, unlink, exchange, linked]

theorem unlink_sameAt_exchange (linked : links.next (links.prev node) = node) {other : N}
    (different : other ≠ node) :
    (exchange links (links.prev node) node).SameAt (unlink links node) other := by
  rw [← alone_unlink linked]
  exact ⟨(alone_sameAt _ different).1.symm, (alone_sameAt _ different).2.symm⟩

theorem Ring.exchange_before (ring : Ring links head (before ++ node :: after)) :
    Ring (exchange links (links.prev node) node) head (before ++ after) ∧
      Ring (exchange links (links.prev node) node) node [] := by
  rw [ring.before_node.1]
  cases before using List.reverseRecOn with
  | nil =>
    have whole : Ring links head ([] ++ node :: after) := ring
    exact whole.split
  | append_singleton front last =>
    rw [List.append_assoc, List.singleton_append] at ring
    have turned : Ring links last ([] ++ node :: (after ++ head :: front)) := ring.rotate
    obtain ⟨rest, own⟩ := turned.split
    rw [List.append_assoc, List.singleton_append]
    simp only [List.getLastD_concat]
    exact ⟨rest.rotate, own⟩

theorem Ring.unlink (ring : Ring links head (before ++ node :: after)) :
    Ring (Rings.unlink links node) head (before ++ after) := by
  refine ring.exchange_before.1.congr fun other inside => ?_
  refine unlink_sameAt_exchange ring.before_node.2 ?_
  rintro rfl
  exact ring.notMem_around inside

-- a node put before another one that is then taken out
theorem unlink_sameAt_replace {other : N} (notOld : other ≠ old) (different : node ≠ old)
    (prev : links.prev old ≠ node ∧ links.prev old ≠ old) :
    (unlink (insertBefore links old node) old).SameAt (replace links old node) other := by
  have nextOld : (insertBefore links old node).next old = links.next old := by
    simp [insertBefore, insertAfter, exchange, alone, prev.2.symm, different.symm]
  have prevOld : (insertBefore links old node).prev old = node := by
    simp [insertBefore, insertAfter, exchange, alone, different.symm]
  constructor
  · rw [unlink, prevOld, nextOld]
    simp only [replace, insertBefore, insertAfter, exchange, alone, Links.flip, Function.update_apply]
    grind
  · rw [unlink, prevOld, nextOld]
    simp only [replace, insertBefore, insertAfter, exchange, alone, Links.flip, Function.update_apply]
    grind

theorem Ring.replace (ring : Ring links head (before ++ old :: after))
    (outside : node ∉ head :: (before ++ old :: after)) :
    Ring (Rings.replace links old node) head (before ++ node :: after) := by
  have prev : links.prev old ∈ head :: (before ++ after) := by
    rw [ring.before_node.1]
    cases before using List.reverseRecOn <;> simp
  have notNode : ∀ other ∈ head :: (before ++ after), other ≠ node := by
    rintro other inside rfl
    exact outside (by simp_all [or_left_comm])
  have notOld : ∀ other ∈ head :: (before ++ after), other ≠ old := by
    rintro other inside rfl
    exact ring.notMem_around inside
  have different : node ≠ old := by
    rintro rfl
    simp at outside
  have inserted := ring.insertBefore outside
  rw [List.append_cons] at inserted
  have taken := inserted.unlink
  rw [List.append_assoc, List.singleton_append] at taken
  refine taken.congr fun other inside => ?_
  refine unlink_sameAt_replace ?_ different ⟨notNode _ prev, notOld _ prev⟩
  by_cases same : other = node
  · rw [same]
    exact different
  · exact notOld other (by simpa [same] using inside)

-- the nodes of another ring after a node
theorem Ring.append_head {first : N} (ring : Ring links first nodes)
    (along : Ring links second others) (apart : List.Disjoint (first :: nodes) (second :: others)) :
    Ring (exchange links first (links.prev second)) first (second :: (others ++ nodes)) := by
  rw [along.prev_head]
  cases others using List.reverseRecOn with
  | nil => exact ring.merge along apart
  | append_singleton front last =>
    have turned : Ring links last (second :: front) := along.rotate
    rw [List.getLastD_concat]
    have merged := ring.merge turned fun node here there =>
      apart here (by simpa [or_comm, or_left_comm] using there)
    simpa using merged

-- the head and the nodes of another ring at the end of a ring
theorem Ring.append (ring : Ring links head nodes) (along : Ring links second others)
    (apart : List.Disjoint (head :: nodes) (second :: others)) :
    Ring (exchange links (links.prev head) (links.prev second)) head
      (nodes ++ second :: others) := by
  rw [ring.prev_head]
  cases nodes using List.reverseRecOn with
  | nil => simpa using ring.append_head along apart
  | append_singleton front last =>
    have turned : Ring links last (head :: front) := ring.rotate
    rw [List.getLastD_concat]
    have appended := turned.append_head along fun node here there =>
      apart (by simpa [or_comm, or_left_comm] using here) there
    rw [← List.cons_append] at appended
    simpa using appended.rotate

end Operations

end Rings
