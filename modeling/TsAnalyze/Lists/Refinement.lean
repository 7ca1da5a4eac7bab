import TsAnalyze.Lists.Family
import TsAnalyze.Shared.Keyed

set_option autoImplicit false

namespace TsAnalyze.Lists

open Rings

variable {N : Type} [DecidableEq N]

section Reading

def Dir.of (links : Links N) : Dir → N → N
  | .next => links.next
  | .prev => links.prev

def Dir.order {A : Type} : Dir → List A → List A
  | .next, nodes => nodes
  | .prev, nodes => nodes.reverse

variable {valid : N → Bool} {links : Links N} {h : N} {nodes : List N}

omit [DecidableEq N] in
theorem follow_eq (dir : Dir) {n : N} (there : valid n = true) :
    follow valid dir n links = some (dir.of links n, links) := by
  cases dir
  · exact readNext_eq links there
  · exact readPrev_eq links there

theorem listForEachOff_chain (dir : Dir) (there : ∀ n ∈ nodes, valid n = true) (outside : h ∉ nodes)
    (turns : Nat) (enough : nodes.length ≤ turns)
    (chain : (nodes ++ [h]).IsChain fun n further => dir.of links n = further) :
    listForEachOff valid h dir turns (nodes.headD h) links = some (nodes, links) := by
  induction nodes generalizing turns with
  | nil =>
    cases turns with
    | zero => rw [listForEachOff, List.headD_nil, if_pos rfl]; rfl
    | succ turns => rw [listForEachOff, List.headD_nil, if_pos rfl]; rfl
  | cons i rest ih =>
    have different : i ≠ h := fun same => outside (by simp [same])
    cases turns with
    | zero => simp at enough
    | succ turns =>
      have next : dir.of links i = rest.headD h := by
        have joined := (List.isChain_cons.mp chain).1
        cases rest with
        | nil => exact joined h (by simp)
        | cons second rest => exact joined second (by simp)
      have later := ih (fun n entry => there n (List.mem_cons_of_mem i entry))
        (fun entry => outside (List.mem_cons_of_mem i entry)) turns (by simpa using enough)
        (List.isChain_cons.mp chain).2
      rw [listForEachOff, List.headD_cons, if_neg different]
      rw [state_bind (follow_eq dir (there i List.mem_cons_self)), next, state_bind later]
      rfl

theorem listForEach_ring (dir : Dir) (ring : Ring links h nodes)
    (there : ∀ n ∈ h :: nodes, valid n = true) (turns : Nat) (enough : nodes.length ≤ turns) :
    listForEach valid h dir turns links = some (dir.order nodes, links) := by
  have entries : ∀ n ∈ nodes, valid n = true := fun n entry =>
    there n (List.mem_cons_of_mem h entry)
  rw [listForEach, state_bind (follow_eq dir (there h List.mem_cons_self))]
  cases dir with
  | next =>
    have start : Dir.next.of links h = nodes.headD h := ring.next_head
    rw [start]
    exact listForEachOff_chain .next entries ring.notMem turns enough
      (ring.body.imp fun _ _ joined => joined.1)
  | prev =>
    have back := ring.flip
    have start : Dir.prev.of links h = nodes.reverse.headD h := back.next_head
    rw [start]
    exact listForEachOff_chain .prev (by simpa using entries) back.notMem turns (by simpa using enough)
      (back.body.imp fun _ _ joined => joined.1)

/-- What is read of a list is what its head is followed by. -/
structure Reads (valid : N → Bool) (links : Links N) (h : N) (nodes : List N) : Prop where
  empty : listEmpty valid h links = some (nodes.isEmpty, links)
  top : listTop valid h links = some (nodes.head?, links)
  tail : listTail valid h links = some (nodes.getLast?, links)
  next : ∀ before i after, nodes = before ++ i :: after →
    listNext valid h i links = some (after.head?, links)
  prev : ∀ before i after, nodes = before ++ i :: after →
    listPrev valid h i links = some (before.getLast?, links)
  forEach : ∀ dir turns, nodes.length ≤ turns →
    listForEach valid h dir turns links = some (dir.order nodes, links)

omit [DecidableEq N] in
theorem first_eq_head (ring : Ring links h nodes) : links.next h = h ↔ nodes = [] := by
  rw [ring.next_head]
  cases nodes with
  | nil => simp
  | cons n rest =>
    have different : n ≠ h := fun same => ring.notMem (by simp [same])
    simpa using different

theorem reads_ring (ring : Ring links h nodes) (there : ∀ n ∈ h :: nodes, valid n = true) :
    Reads valid links h nodes := by
  have head := there h List.mem_cons_self
  have emptied : listEmpty valid h links = some (nodes.isEmpty, links) := by
    rw [listEmpty_eq links head]
    simp only [first_eq_head ring]
    cases nodes <;> rfl
  have notHead {n : N} (entry : n ∈ nodes) : n ≠ h := fun same => ring.notMem (same ▸ entry)
  constructor
  · exact emptied
  · rw [listTop, state_bind emptied]
    cases nodes with
    | nil => rfl
    | cons n rest =>
      simp only [List.isEmpty_cons, Bool.false_eq_true, if_false]
      rw [state_bind (readNext_eq links head), ring.next_head]
      rfl
  · rw [listTail, state_bind emptied]
    cases nodes using List.reverseRecOn with
    | nil => rfl
    | append_singleton front n =>
      have full : (front ++ [n]).isEmpty = false := by simp
      simp only [full, Bool.false_eq_true, if_false]
      rw [state_bind (readPrev_eq links head), ring.prev_head, List.getLastD_concat,
        List.getLast?_concat]
      rfl
  · rintro before i after rfl
    rw [listNext, state_bind (readNext_eq links (there i (by simp))), ring.next_node]
    cases after with
    | nil => rw [listEntryOrNull, List.headD_nil, if_pos rfl]; rfl
    | cons n rest => rw [listEntryOrNull, List.headD_cons, if_neg (notHead (by simp))]; rfl
  · rintro before i after rfl
    rw [listPrev, state_bind (readPrev_eq links (there i (by simp))), ring.before_node.1]
    cases before using List.reverseRecOn with
    | nil => rw [listEntryOrNull, List.getLastD_nil, if_pos rfl]; rfl
    | append_singleton front n =>
      rw [listEntryOrNull, List.getLastD_concat, if_neg (notHead (by simp)), List.getLast?_concat]
      rfl
  · exact fun dir turns enough => listForEach_ring dir ring there turns enough

end Reading

section Events

inductive Op (N : Type)
  | listHeadInit (h : N)
  | listNodeInit (n : N)
  | listAddAfter (p n : N)
  | listAdd (h n : N)
  | listAddBefore (p n : N)
  | listAddTail (h n : N)
  | listDel (n : N)
  | listDelInit (n : N)
  | listDelFrom (h n : N)
  | listSwap (o n : N)
  | listPop (h : N)
  | listAppendList (t f : N)
  | listPrependList (t f : N)

-- of these only list_pop returns something
def Op.run (valid : N → Bool) : Op N → Linking N (Option N)
  | .listHeadInit h => do Lists.listHeadInit valid h; return none
  | .listNodeInit n => do Lists.listNodeInit valid n; return none
  | .listAddAfter p n => do Lists.listAddAfter valid p n; return none
  | .listAdd h n => do Lists.listAdd valid h n; return none
  | .listAddBefore p n => do Lists.listAddBefore valid p n; return none
  | .listAddTail h n => do Lists.listAddTail valid h n; return none
  | .listDel n => do Lists.listDel valid n; return none
  | .listDelInit n => do Lists.listDelInit valid n; return none
  | .listDelFrom h n => do Lists.listDelFrom valid h n; return none
  | .listSwap o n => do Lists.listSwap valid o n; return none
  | .listPop h => Lists.listPop valid h
  | .listAppendList t f => do Lists.listAppendList valid t f; return none
  | .listPrependList t f => do Lists.listPrependList valid t f; return none

-- between the calls nodes are allocated, with whatever was there for pointers, and freed
inductive Event (N : Type)
  | call (op : Op N)
  | malloc (n next prev : N)
  | free (n : N)

-- the nodes in memory, and their pointers
structure Cells (N : Type) where
  valid : N → Bool
  links : Links N

def Cells.step (cells : Cells N) : Event N → Option (Cells N × Option N)
  | .call op => (op.run cells.valid cells.links).map fun found => (⟨cells.valid, found.2⟩, found.1)
  | .malloc n next prev =>
      if cells.valid n then none
      else some (⟨Function.update cells.valid n true,
        ⟨Function.update cells.links.next n next, Function.update cells.links.prev n prev⟩⟩, none)
  | .free n =>
      if cells.valid n then some (⟨Function.update cells.valid n false, cells.links⟩, none) else none

end Events

section Contract

variable (valid : N → Bool) (family : Family N)

-- what each function is for, and when it may be called
inductive Contract : Op N → Option N → Family N → Prop
  | headInit (h : N) (there : valid h = true) (outside : family.Outside h) :
      Contract (.listHeadInit h) none (Function.update family h (some []))
  | nodeInit (n : N) (there : valid n = true) (outside : family.Outside n) :
      Contract (.listNodeInit n) none (Function.update family n (some []))
  | addAfter (h p n : N) (front back : List N) (list : family h = some (front ++ p :: back))
      (there : valid n = true) (outside : family.Outside n) (different : n ≠ h) :
      Contract (.listAddAfter p n) none
        (Function.update (Function.update family n none) h (some (front ++ p :: n :: back)))
  | add (h n : N) (nodes : List N) (list : family h = some nodes)
      (there : valid n = true) (outside : family.Outside n) (different : n ≠ h) :
      Contract (.listAdd h n) none
        (Function.update (Function.update family n none) h (some (n :: nodes)))
  | addBefore (h p n : N) (front back : List N) (list : family h = some (front ++ p :: back))
      (there : valid n = true) (outside : family.Outside n) (different : n ≠ h) :
      Contract (.listAddBefore p n) none
        (Function.update (Function.update family n none) h (some (front ++ n :: p :: back)))
  | addTail (h n : N) (nodes : List N) (list : family h = some nodes)
      (there : valid n = true) (outside : family.Outside n) (different : n ≠ h) :
      Contract (.listAddTail h n) none
        (Function.update (Function.update family n none) h (some (nodes ++ [n])))
  | del (h n : N) (front back : List N) (list : family h = some (front ++ n :: back)) :
      Contract (.listDel n) none (Function.update family h (some (front ++ back)))
  -- what list_node_init is for
  | delAlone (n : N) (list : family n = some []) : Contract (.listDel n) none family
  | delInit (h n : N) (front back : List N) (list : family h = some (front ++ n :: back)) :
      Contract (.listDelInit n) none
        (Function.update (Function.update family h (some (front ++ back))) n (some []))
  | delInitAlone (n : N) (list : family n = some []) : Contract (.listDelInit n) none family
  | delFrom (h n : N) (front back : List N) (list : family h = some (front ++ n :: back)) :
      Contract (.listDelFrom h n) none (Function.update family h (some (front ++ back)))
  | swap (h o n : N) (front back : List N) (list : family h = some (front ++ o :: back))
      (there : valid n = true) (outside : family.Outside n) (different : n ≠ h) :
      Contract (.listSwap o n) none
        (Function.update (Function.update family n none) h (some (front ++ n :: back)))
  | popEmpty (h : N) (list : family h = some []) : Contract (.listPop h) none family
  | pop (h n : N) (rest : List N) (list : family h = some (n :: rest)) :
      Contract (.listPop h) (some n) (Function.update family h (some rest))
  | appendList (t f : N) (xs ys : List N) (target : family t = some xs)
      (source : family f = some ys) (different : t ≠ f) :
      Contract (.listAppendList t f) none
        (Function.update (Function.update family t (some (xs ++ ys))) f (some []))
  | prependList (t f : N) (xs ys : List N) (target : family t = some xs)
      (source : family f = some ys) (different : t ≠ f) :
      Contract (.listPrependList t f) none
        (Function.update (Function.update family t (some (ys ++ xs))) f (some []))

variable {valid family} {links : Links N}

omit [DecidableEq N] in
theorem run_none {action : Linking N Unit} {after : Links N} (found : action links = some ((), after)) :
    (do action; return none : Linking N (Option N)) links = some (none, after) := by
  rw [state_bind found]
  rfl

theorem Represents.pop (rep : Represents valid links family) {h n : N} {rest : List N}
    (list : family h = some (n :: rest)) :
    listPop valid h links = some (some n, unlink links n) ∧
      Represents valid (unlink links n) (Function.update family h (some rest)) := by
  have ring := rep.ring h _ list
  have reads := reads_ring ring (rep.there h _ list)
  have first : family h = some ([] ++ n :: rest) := list
  obtain ⟨deleted, result⟩ := rep.del first
  refine ⟨?_, result⟩
  rw [listPop, state_bind reads.empty]
  simp only [List.isEmpty_cons, Bool.false_eq_true, if_false]
  rw [state_bind (readNext_eq links (rep.there h _ list h List.mem_cons_self)), ring.next_head,
    List.headD_cons, state_bind deleted]
  rfl

/-- Every function does what it is for. -/
theorem Represents.contract (rep : Represents valid links family) {op : Op N} {output : Option N}
    {after : Family N} (contract : Contract valid family op output after) :
    ∃ final, op.run valid links = some (output, final) ∧ Represents valid final after := by
  cases contract with
  | headInit h there outside =>
    exact ⟨_, run_none (listHeadInit_eq links there), rep.init there outside⟩
  | nodeInit n there outside =>
    exact ⟨_, run_none (listNodeInit_eq links there), rep.init there outside⟩
  | addAfter h p n front back list there outside different =>
    obtain ⟨ran, result⟩ := rep.addAfter list outside different there
    exact ⟨_, run_none ran, result⟩
  | add h n nodes list there outside different =>
    obtain ⟨ran, result⟩ := rep.add list outside different there
    exact ⟨_, run_none ran, result⟩
  | addBefore h p n front back list there outside different =>
    obtain ⟨ran, result⟩ := rep.addBefore list outside different there
    exact ⟨_, run_none ran, result⟩
  | addTail h n nodes list there outside different =>
    obtain ⟨ran, result⟩ := rep.addTail list outside different there
    exact ⟨_, run_none ran, result⟩
  | del h n front back list =>
    obtain ⟨ran, result⟩ := rep.del list
    exact ⟨_, run_none ran, result⟩
  | delAlone n list => exact ⟨links, run_none (rep.delAlone list), rep⟩
  | delInit h n front back list =>
    obtain ⟨final, ran, result⟩ := rep.delInit list
    exact ⟨final, run_none ran, result⟩
  | delInitAlone n list =>
    obtain ⟨final, ran, result⟩ := rep.delInitAlone list
    exact ⟨final, run_none ran, result⟩
  | delFrom h n front back list =>
    obtain ⟨ran, result⟩ := rep.del list
    have reads := reads_ring (rep.ring h _ list) (rep.there h _ list)
    have full : (front ++ n :: back).isEmpty = false := by simp
    refine ⟨_, run_none ?_, result⟩
    rw [listDelFrom, state_bind reads.empty, full]
    exact ran
  | swap h o n front back list there outside different =>
    obtain ⟨ran, result⟩ := rep.swap list outside different there
    exact ⟨_, run_none ran, result⟩
  | popEmpty h list =>
    have reads := reads_ring (rep.ring h _ list) (rep.there h _ list)
    refine ⟨links, ?_, rep⟩
    rw [Op.run, listPop, state_bind reads.empty]
    rfl
  | pop h n rest list =>
    obtain ⟨ran, result⟩ := rep.pop list
    exact ⟨_, ran, result⟩
  | appendList t f xs ys target source different =>
    obtain ⟨final, ran, result⟩ := rep.append target source different
    exact ⟨final, run_none ran, result⟩
  | prependList t f xs ys target source different =>
    obtain ⟨final, ran, result⟩ := rep.prepend target source different
    exact ⟨final, run_none ran, result⟩

end Contract

section Runs

-- which nodes there are, and what every list holds
structure Spec (N : Type) where
  valid : N → Bool
  family : Family N

inductive Spec.Step (spec : Spec N) : Event N → Option N → Spec N → Prop
  | call (op : Op N) (output : Option N) (after : Family N)
      (contract : Contract spec.valid spec.family op output after) :
      Step spec (.call op) output { spec with family := after }
  | malloc (n next prev : N) (fresh : spec.valid n = false) :
      Step spec (.malloc n next prev) none { spec with valid := Function.update spec.valid n true }
  -- a freed node is an entry no more, and its own list is no more
  | free (n : N) (there : spec.valid n = true) (outside : spec.family.Outside n) :
      Step spec (.free n) none
        ⟨Function.update spec.valid n false, Function.update spec.family n none⟩

structure Realizes (cells : Cells N) (spec : Spec N) : Prop where
  valid : cells.valid = spec.valid
  represents : Represents cells.valid cells.links spec.family

theorem Represents.malloc {valid : N → Bool} {links : Links N} {family : Family N}
    (rep : Represents valid links family) {n : N} (fresh : valid n = false) (next prev : N) :
    Represents (Function.update valid n true)
      ⟨Function.update links.next n next, Function.update links.prev n prev⟩ family := by
  have outside (h : N) (nodes : List N) (list : family h = some nodes) (m : N)
      (inside : m ∈ h :: nodes) : m ≠ n := by
    rintro rfl
    have there := rep.there h nodes list m inside
    rw [fresh] at there
    cases there
  constructor
  · intro h nodes list
    refine (rep.ring h nodes list).congr fun m inside => ?_
    have different := outside h nodes list m inside
    exact ⟨Function.update_of_ne different _ _, Function.update_of_ne different _ _⟩
  · intro h nodes list m inside
    rw [Function.update_of_ne (outside h nodes list m inside)]
    exact rep.there h nodes list m inside
  · exact rep.apart

theorem Represents.free {valid : N → Bool} {links : Links N} {family : Family N}
    (rep : Represents valid links family) {n : N} (outside : family.Outside n) :
    Represents (Function.update valid n false) links (Function.update family n none) := by
  have released := rep.release (fun m => decide (m = n)) (by simpa using outside)
  convert released using 1
  · funext m
    by_cases same : m = n <;> simp [same]
  · funext m
    by_cases same : m = n <;> simp [same]

theorem step_realizes (cells : Cells N) (spec : Spec N) (event : Event N) (output : Option N)
    (next : Spec N) (start : Realizes cells spec) (step : spec.Step event output next) :
    ∃ after, cells.step event = some (after, output) ∧ Realizes after next := by
  obtain ⟨valid, links⟩ := cells
  obtain ⟨specValid, family⟩ := spec
  obtain ⟨rfl, represents⟩ := start
  cases step with
  | call op output after contract =>
    obtain ⟨final, ran, result⟩ := represents.contract contract
    exact ⟨⟨valid, final⟩, by rw [Cells.step, ran]; rfl, rfl, result⟩
  | malloc n next prev fresh =>
    refine ⟨⟨_, ⟨_, _⟩⟩, ?_, rfl, represents.malloc fresh next prev⟩
    rw [Cells.step, if_neg (by simpa using fresh)]
  | free n there outside =>
    refine ⟨⟨_, links⟩, ?_, rfl, represents.free outside⟩
    rw [Cells.step, if_pos there]

-- a head, a node in front of it, another one allocated, put at the end, the first taken and freed
def sixEvents : List (Event Nat) :=
  [.call (.listHeadInit 0), .call (.listAdd 0 1), .malloc 2 7 7, .call (.listAddTail 0 2),
    .call (.listPop 0), .free 1]

end Runs

end TsAnalyze.Lists
