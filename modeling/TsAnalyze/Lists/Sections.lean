import TsAnalyze.Lists.Parsers

set_option autoImplicit false

namespace TsAnalyze.Lists

open Memory Demux Tables

variable {D : Type} (ops : DescriptorOps D)

/-- A parser that puts nodes and descriptors in lists, and how. -/
structure Linked (C F : Type) where
  decoder : Decoder C
  plan : Plan F
  view : C → Content D F
  agree : ∀ header pdata content,
    (fun decoded => (view decoded.content, decoded.ret)) <$> decoder header pdata content =
      plan.decode ops header pdata (view content)
  unlisted : plan.kind.hasList = false → ∀ content, (view content).list = []

def Kind.Fields : Kind → Type
  | .pmt => EsNode Empty
  | .nit | .bat => TransportStreamNode Empty
  | .sdt => ServiceNode Empty
  | .eit => EventNode Empty

def Kind.Table (D : Type) : Kind → Type
  | .pmt => Pmt D
  | .nit => Nit D
  | .bat => Bat D
  | .sdt => Sdt D
  | .eit => Eit D

def Kind.linked : (kind : Kind) → Linked ops (kind.Table D) kind.Fields
  | .pmt => ⟨decodePmt ops, pmtPlan, pmtView, decodePmt_view, nofun⟩
  | .nit => ⟨decodeNit ops, nitPlan, nitView, decodeNit_view, nofun⟩
  | .bat => ⟨decodeBat ops, batPlan, batView, decodeBat_view, nofun⟩
  | .sdt => ⟨decodeSdt ops, sdtPlan, sdtView, decodeSdt_view, fun _ _ => rfl⟩
  | .eit => ⟨decodeEit ops, eitPlan, eitView, decodeEit_view, fun _ _ => rfl⟩

@[simp] theorem Kind.linked_kind (kind : Kind) : (kind.linked ops).plan.kind = kind := by
  cases kind <;> rfl

variable {ops} {C F : Type} (linked : Linked ops C F)

-- the descriptors that a section makes the parser lose, when it gets as far as its lists
def Linked.loses (heap : Heap) (table : Tables.Table C) (pbuf : Block) (bufSize : Nat) : Nat :=
  match parseSectionHeader heap pbuf bufSize table.header with
  | some parsed => if parsed.ret = 0 then linked.plan.kind.lost (linked.view table.content) else 0
  | none => 0

-- the parser with its lists as values; the second output counts what is lost
def Linked.step (state : Heap × Tables.Table C) (sec : Block × Nat) :
    Option ((Heap × Tables.Table C) × (Int × Nat)) :=
  (parseTable linked.decoder state.1 sec.1 sec.2 state.2).map fun handled =>
    ((handled.heap, handled.table), (handled.ret, linked.loses state.1 state.2 sec.1 sec.2))

-- the parser on the linked lists of the table t
def Linked.parseAt (t : Nat) (state : Store (Object D F) × TableHeader) (sec : Block × Nat) :
    Option ((Store (Object D F) × TableHeader) × Int) :=
  (parseSectionHeader state.1.heap sec.1 sec.2 state.2).bind fun parsed =>
    let store := { state.1 with heap := parsed.heap }
    if parsed.ret ≠ 0 then some ((store, parsed.header), parsed.ret)
    else (linked.plan.decodeAt ops t parsed.header (privateData parsed) store).map fun result =>
      ((result.2, parsed.header), result.1)

theorem Held.withHeap {store : Store (Object D F)} {t : Nat} {content : Content D F}
    {others : List Nat} (held : Held store t content others) (heap : Heap) :
    Held { store with heap := heap } t content others := by
  obtain ⟨family, names, placed, table, nodes⟩ := held
  refine ⟨family, names, placed, ?_, nodes⟩
  refine ⟨table.sound.withHeap heap, table.listed, table.stored, table.nodes, ?_, table.live,
    table.nodup⟩
  exact fun node inside => (table.holds node inside).kept (fun _ _ => rfl) rfl

theorem Linked.decoder_view {header : TableHeader} {pdata : Block} {content : C} {heap : Heap}
    {decoding : Decoded C × Heap} (found : linked.decoder header pdata content heap = some decoding) :
    linked.plan.decode ops header pdata (linked.view content) heap =
      some ((linked.view decoding.1.content, decoding.1.ret), decoding.2) := by
  rw [← linked.agree, map_eq_pure_bind, state_bind found]
  rfl

-- one section
theorem Linked.parseAt_refines {store : Store (Object D F)} {t : Nat} {table : Tables.Table C}
    {others : List Nat} (held : Held store t (linked.view table.content) others)
    {sec : Block × Nat} {next : Heap × Tables.Table C} {output : Int × Nat}
    (stepped : linked.step (store.heap, table) sec = some (next, output)) :
    ∃ after leaked, linked.parseAt t (store, table.header) sec =
        some ((after, next.2.header), output.1) ∧
      after.heap = next.1 ∧ leaked.length = output.2 ∧
      Held after t (linked.view next.2.content) (leaked ++ others) := by
  obtain ⟨handled, parsing, same⟩ := Option.map_eq_some_iff.mp stepped
  obtain ⟨rfl, rfl⟩ := Prod.mk.inj same
  obtain ⟨parsed, header, later⟩ := Option.bind_eq_some_iff.mp parsing
  have emptied := held.withHeap parsed.heap
  rw [parseAt, header, Option.bind_some]
  simp only [Linked.loses, header]
  by_cases refused : parsed.ret ≠ 0
  · rw [if_pos refused] at later
    obtain rfl := Option.some.inj later
    rw [if_pos refused, if_neg refused]
    exact ⟨_, [], rfl, rfl, rfl, emptied⟩
  · rw [if_neg refused] at later
    obtain ⟨decoding, found, rfl⟩ := Option.map_eq_some_iff.mp later
    rw [if_neg refused, if_pos (not_not.mp refused)]
    obtain ⟨after, leaked, ran, heap, count, result⟩ :=
      decodeAt_refines linked.plan parsed.header (privateData parsed) emptied
        (linked.decoder_view found)
    exact ⟨after, leaked, by rw [ran]; rfl, heap, count, result⟩

-- any number of sections
theorem Linked.run_refines {t : Nat} (sections : List (Block × Nat)) {store : Store (Object D F)}
    {table : Tables.Table C} {others : List Nat}
    (held : Held store t (linked.view table.content) others) {final : Heap × Tables.Table C}
    {outputs : List (Int × Nat)}
    (ran : Keyed.run linked.step (store.heap, table) sections = some (final, outputs)) :
    ∃ after leaked, Keyed.run (linked.parseAt t) (store, table.header) sections =
        some ((after, final.2.header), outputs.map Prod.fst) ∧
      after.heap = final.1 ∧ leaked.length = (outputs.map Prod.snd).sum ∧
      Held after t (linked.view final.2.content) (leaked ++ others) := by
  induction sections generalizing store table others outputs with
  | nil =>
    obtain ⟨rfl, rfl⟩ := Prod.mk.inj (Option.some.inj ran)
    exact ⟨store, [], rfl, rfl, rfl, held⟩
  | cons sec rest ih =>
    obtain ⟨next, output, later, first, remaining, rfl⟩ := Keyed.run_cons_inv _ _ _ _ _ _ ran
    obtain ⟨middle, early, parsed, heap, lost, between⟩ := linked.parseAt_refines held first
    have same : (middle.heap, next.2) = next := by rw [heap]
    rw [← same] at remaining
    obtain ⟨after, late, rested, ends, more, result⟩ := ih between remaining
    refine ⟨after, late ++ early, Keyed.run_cons _ _ _ _ _ _ _ _ parsed rested, ends, ?_, ?_⟩
    · rw [List.length_append, more, lost, List.map_cons, List.sum_cons, Nat.add_comm]
    · rwa [List.append_assoc]

-- free_tables after it
theorem Linked.freeTable {store : Store (Object D F)} {t : Nat} {content : C} {others : List Nat}
    (held : Held store t (linked.view content) others)
    (free : freeDescriptors ops ((linked.view content).list ++
      (linked.view content).h.flatMap Prod.snd) = some ()) :
    ∃ after, linked.plan.kind.freeTable ops t store = some ((), after) ∧ Held after t ⟨[], []⟩ others := by
  obtain ⟨family, names, placed, table, nodes⟩ := held
  rw [nodes] at free
  have own : freeDescriptors ops (linked.view content).list = some () :=
    freeDescriptors_all fun descriptor inside =>
      freeDescriptors_mem free (List.mem_append_left _ inside)
  have inner : freeDescriptors ops ((placed.map Placed.content).flatMap Prod.snd) = some () :=
    freeDescriptors_all fun descriptor inside =>
      freeDescriptors_mem free (List.mem_append_right _ inside)
  have unlisted (without : linked.plan.kind.hasList = false) :
      names = [] ∧ (linked.view content).list = [] := by
    have none := linked.unlisted without content
    refine ⟨?_, none⟩
    rw [← List.length_eq_zero_iff, table.stored.length_eq, none, List.length_nil]
  obtain ⟨after, later, ran, result⟩ :=
    table.freeTable linked.plan.kind (freeDescriptors_nodes placed inner) own unlisted
  exact ⟨after, ran, later, [], [], result, rfl⟩

-- only parse_nit and parse_bat lose descriptors
theorem lost_none (kind : Kind) (keeps : kind ≠ .nit ∧ kind ≠ .bat)
    {state final : Heap × Tables.Table (kind.Table D)} {sections : List (Block × Nat)}
    {outputs : List (Int × Nat)}
    (ran : Keyed.run (kind.linked ops).step state sections = some (final, outputs)) :
    (outputs.map Prod.snd).sum = 0 := by
  induction sections generalizing state outputs with
  | nil =>
    obtain ⟨rfl, rfl⟩ := Prod.mk.inj (Option.some.inj ran)
    rfl
  | cons sec rest ih =>
    obtain ⟨next, output, later, first, remaining, rfl⟩ := Keyed.run_cons_inv _ _ _ _ _ _ ran
    obtain ⟨handled, -, same⟩ := Option.map_eq_some_iff.mp first
    obtain ⟨rfl, rfl⟩ := Prod.mk.inj same
    have none : (kind.linked ops).loses state.1 state.2 sec.1 sec.2 = 0 := by
      rw [Linked.loses]
      split
      · rw [Kind.linked_kind]
        split
        · cases kind with
          | nit => exact absurd rfl keeps.1
          | bat => exact absurd rfl keeps.2
          | pmt | sdt | eit => rfl
        · rfl
      · rfl
    rw [List.map_cons, List.sum_cons, ih remaining, none]

-- psi_table_init; the lists of a table that has no descriptors of its own stay empty
def psiTableInit {F : Type} (t : Nat) : Storing (Object D F) Unit := do
  onLists fun valid => listHeadInit valid ⟨t, .h⟩
  onLists fun valid => listHeadInit valid ⟨t, .list⟩

theorem held_empty {F : Type} {store : Store (Object D F)} {family : Family Address} {t : Nat}
    {others : List Nat} (sound : Sound store family) (nodes : family ⟨t, .h⟩ = some [])
    (list : family ⟨t, .list⟩ = some []) (live : store.Live (t :: others)) :
    Held store t ⟨[], []⟩ others := by
  refine ⟨family, [], [], ?_, rfl⟩
  refine ⟨sound, list, List.Forall₂.nil, nodes, by simp, fun name => ?_, ?_⟩
  · simpa using live.2 name
  · simpa using live.1

theorem psiTableInit_held {F : Type} {store : Store (Object D F)} {t : Nat} {others : List Nat}
    (sound : Sound store fun _ => none) (live : store.Live (t :: others)) :
    ∃ after, psiTableInit t store = some ((), after) ∧ after.heap = store.heap ∧
      Held after t ⟨[], []⟩ others := by
  have there : (store.object t).isSome = true := (live.2 t).mpr List.mem_cons_self
  obtain ⟨first, nodes⟩ := Sound.headInit ⟨t, .h⟩ sound there (Family.outside_empty _)
  obtain ⟨second, both⟩ := Sound.headInit ⟨t, .list⟩ nodes there
    ((Family.outside_empty _).update fun nodes same => by simp [← Option.some.inj same])
  refine ⟨_, (state_bind first).trans second, rfl, held_empty both ?_ ?_ live⟩
  · rw [Function.update_of_ne (by simp), Function.update_self]
  · exact Function.update_self _ _ _

-- nothing but the table and the others is there when its lists are empty
theorem Held.bare {F : Type} {store : Store (Object D F)} {t : Nat} {others : List Nat}
    (held : Held store t ⟨[], []⟩ others) : store.Live (t :: others) := by
  obtain ⟨family, names, placed, table, nodes⟩ := held
  obtain rfl : placed = [] := List.map_eq_nil_iff.mp nodes.symm
  obtain rfl : names = [] := List.length_eq_zero_iff.mp table.stored.length_eq
  refine ⟨by simpa using table.nodup, fun name => ?_⟩
  rw [table.live name]
  simp

/-- However many sections a table is parsed from, its lists in memory are those of its values. -/
theorem sections_linked (ops : DescriptorOps D) (kind : Kind) {t : Nat} {others : List Nat}
    {store : Store (Object D kind.Fields)} (table : Tables.Table (kind.Table D))
    (held : Held store t ((kind.linked ops).view table.content) others)
    (sections : List (Block × Nat)) {final : Heap × Tables.Table (kind.Table D)}
    {outputs : List (Int × Nat)}
    (ran : Keyed.run (kind.linked ops).step (store.heap, table) sections =
      some (final, outputs)) :
    ∃ after leaked, Keyed.run ((kind.linked ops).parseAt t) (store, table.header) sections =
        some ((after, final.2.header), outputs.map Prod.fst) ∧
      after.heap = final.1 ∧ leaked.length = (outputs.map Prod.snd).sum ∧
      Held after t ((kind.linked ops).view final.2.content) (leaked ++ others) :=
  (kind.linked ops).run_refines sections held ran

-- a NIT without section syntax: one transport stream, which has one descriptor
def shortNit : Block × Nat :=
  (ofBytes [0x40, 0x00, 0x15, 0xF0, 0x00, 0xF0, 0x08, 0x00, 0x01, 0x00, 0x02, 0xF0, 0x02, 0x48, 0x00],
    15)

def emptyOps : DescriptorOps Unit where
  parse _ _ _ := some ()
  free _ _ := some ()

def firstStore {F : Type} : Store (Object Unit F) where
  heap := Heap.empty
  next := 1
  links := ⟨fun _ => entry 0, fun _ => entry 0⟩
  object := Function.update (fun _ => none) 0 (some .table)

theorem firstStore_sound {F : Type} : Sound (firstStore (F := F)) fun _ => none where
  represents := represents_empty _ _
  entries _ _ list := nomatch list
  fresh name above := by
    have low : 0 < name := above
    simp [firstStore, low.ne']

theorem firstStore_live {F : Type} : (firstStore (F := F)).Live [0] := by
  refine ⟨List.nodup_singleton 0, fun name => ?_⟩
  by_cases here : name = 0
  · simp [firstStore, here]
  · simp [firstStore, here]

theorem twice_shortNit :
    (Keyed.run (Kind.nit.linked emptyOps).step (Heap.empty, ⟨{}, {}⟩) [shortNit, shortNit]).map
      Prod.snd = some [(0, 0), (0, 1)] := by decide +kernel

theorem sections_linked_twice :
    ∃ (start : Store (Object Unit Kind.nit.Fields)) (final : Heap × Tables.Table (Nit Unit)),
      psiTableInit 0 firstStore = some ((), start) ∧
      ∃ after leaked,
        Keyed.run ((Kind.nit.linked emptyOps).parseAt 0) (start, {}) [shortNit, shortNit] =
          some ((after, final.2.header), [0, 0]) ∧
        leaked.length = 1 ∧ Held after 0 (nitView final.2.content) leaked := by
  obtain ⟨start, inited, heap, held⟩ := psiTableInit_held firstStore_sound firstStore_live
  obtain ⟨⟨final, outputs⟩, ran, same⟩ := Option.map_eq_some_iff.mp twice_shortNit
  obtain ⟨after, leaked, parsed, -, lost, result⟩ :=
    sections_linked emptyOps .nit ⟨{}, {}⟩ held [shortNit, shortNit]
      (by rw [heap]; exact ran)
  obtain rfl : outputs = [(0, 0), (0, 1)] := same
  rw [List.append_nil] at result
  exact ⟨start, final, inited, after, leaked, parsed, lost, result⟩

end TsAnalyze.Lists
