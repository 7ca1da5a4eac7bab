import TsAnalyze.Report.JsonText
import TsAnalyze.Report.YamlStack
import TsAnalyze.Shared.YamlBlocks

set_option autoImplicit false

namespace TsAnalyze.Report

open Quoted

/-- A key that a mapping already has may stand with a number behind it, which the buffer of 64
bytes cuts. -/
def Renamed (earlier : List Text) (key ekey : Text) : Prop :=
  ekey = key ∨ ∃ count, 2 ≤ count ∧ count ≤ earlier.count key + 1 ∧
    ekey = (key ++ space :: hash :: decimal count).take (bufSize - 1)

mutual

/-- The same value, where the keys may be renamed and an empty container is no collection. -/
inductive Alike : Json → Yaml → Prop
  | str (s : Text) : Alike (.str s) (.str s)
  | emptyArr : Alike (.arr []) .null
  | emptyObj : Alike (.obj []) .null
  | arr {items : List Json} {yamls : List Yaml} :
      ItemsAlike items yamls → Alike (.arr items) (.seq yamls)
  | obj {members : List (Text × Json)} {yamls : List (Text × Yaml)} :
      MembersAlike members yamls → Alike (.obj members) (.map yamls)

inductive ItemsAlike : List Json → List Yaml → Prop
  | nil : ItemsAlike [] []
  | add {items : List Json} {yamls : List Yaml} {json : Json} {yaml : Yaml} :
      ItemsAlike items yamls → Alike json yaml → ItemsAlike (items ++ [json]) (yamls ++ [yaml])

inductive MembersAlike : List (Text × Json) → List (Text × Yaml) → Prop
  | nil : MembersAlike [] []
  | add {members : List (Text × Json)} {yamls : List (Text × Yaml)} {key ekey : Text} {json : Json}
      {yaml : Yaml} :
      MembersAlike members yamls → Renamed (members.map Prod.fst) key ekey → Alike json yaml →
        MembersAlike (members ++ [(key, json)]) (yamls ++ [(ekey, yaml)])

end

def Kids.Alike : Kids → Yaml.Node → Prop
  | .members done, .members yamls => MembersAlike done yamls
  | .items done, .items yamls => ItemsAlike done yamls
  | _, _ => False

def Frame.Around (frame : Frame) (label : Option Text) (context : Yaml.Context) : Prop :=
  match frame.kids, label, context with
  | .members done, some key, .members yamls ekey =>
      MembersAlike done yamls ∧ Renamed (done.map Prod.fst) key ekey
  | .items done, none, .items yamls => ItemsAlike done yamls
  | _, _, _ => False

-- The entries of a container stand two columns further right than those of the one around it.
def Enclosed : Frame → List Frame → List Yaml.Enclosing → Prop
  | _, [], around => around = []
  | inner, parent :: outer, around =>
      ∃ context further, around = ⟨2 * outer.length, context⟩ :: further ∧
        parent.Around inner.label context ∧ Enclosed parent outer further

/-- How the innermost collection of the reader stands for a container with so many around it. -/
inductive Frame.Read (frame : Frame) : List Frame → Nat → Yaml.Node → Prop
  | empty (outer : List Frame) (column : Nat) :
      frame.kids = .undecided → column + 1 = 2 * outer.length → Frame.Read frame outer column .empty
  | root : frame.kids = .members [] → Frame.Read frame [] 0 .empty
  | decided (outer : List Frame) (node : Yaml.Node) :
      frame.kids.decided = true → frame.kids.Alike node →
        Frame.Read frame outer (2 * outer.length) node

/-- Between the lines: the reader of the text has come as far as the tree. -/
structure Follows (reader : Yaml.Reader) (tree : Tree) : Prop where
  inner : tree.inner.Read tree.outer reader.column reader.node
  around : Enclosed tree.inner tree.outer reader.around

theorem Frame.Read.alike {frame : Frame} {outer : List Frame} {column : Nat} {node : Yaml.Node}
    (read : frame.Read outer column node) : Alike frame.kids.json node.yaml := by
  cases read with
  | empty _ _ undecided =>
    rw [undecided]
    exact .emptyArr
  | root members =>
    rw [members]
    exact .emptyObj
  | decided _ _ decided alike =>
    cases kids : frame.kids <;> cases node <;> simp_all [Kids.Alike, Kids.decided, Kids.json,
      Yaml.Node.yaml]
    · exact .obj alike
    · exact .arr alike

theorem Frame.Around.complete {frame : Frame} {label : Option Text} {context : Yaml.Context}
    (around : frame.Around label context) {json : Json} {yaml : Yaml} (alike : Alike json yaml) :
    (frame.fill label json).kids.Alike (context.complete yaml) := by
  unfold Frame.Around at around
  cases kids : frame.kids <;> cases label <;> cases context <;> simp_all [Frame.fill, Kids.add,
    Yaml.Context.complete, Kids.Alike]
  · exact .add around.1 around.2 alike
  · exact .add around alike

theorem Enclosed.replaced {inner other : Frame} {outer : List Frame} {around : List Yaml.Enclosing}
    (enclosed : Enclosed inner outer around) (same : other.label = inner.label) :
    Enclosed other outer around := by
  cases outer with
  | nil => exact enclosed
  | cons parent outer =>
    rw [Enclosed, same]
    exact enclosed

theorem closeFrom_depth (limit : Int) (inner : Frame) (outer : List Frame) :
    (closeFrom limit inner outer).outer.length ≤ outer.length := by
  induction outer generalizing inner with
  | nil => exact le_rfl
  | cons parent outer ih =>
    simp only [closeFrom]
    split
    · exact le_rfl
    · exact (ih _).trans (Nat.le_succ outer.length)

theorem Frame.Read.column {frame : Frame} {outer : List Frame} {column : Nat} {node : Yaml.Node}
    (read : frame.Read outer column node) :
    column ≤ 2 * outer.length ∧ 2 * outer.length ≤ column + 1 := by
  cases read with
  | empty _ _ _ deeper => omega
  | root _ => simp
  | decided _ _ _ _ => omega

/-- A line of a container ends the collections of the containers that are closed in front of it. -/
theorem dedent_follows (limit : Int) (inner : Frame) (outer : List Frame) (column : Nat)
    (node : Yaml.Node) (around : List Yaml.Enclosing) (linked : Linked inner outer)
    (read : inner.Read outer column node) (enclosed : Enclosed inner outer around) :
    Follows (Yaml.dedent (2 * (closeFrom limit inner outer).outer.length) column node around)
      (closeFrom limit inner outer) := by
  induction outer generalizing inner column node around with
  | nil =>
    cases enclosed
    exact ⟨read, rfl⟩
  | cons parent outer ih =>
    have place := read.column
    obtain ⟨context, further, rfl, inside, enclosed⟩ := enclosed
    simp only [closeFrom]
    split
    · next stays =>
      rw [Yaml.dedent, if_pos place.1]
      exact ⟨read, context, further, rfl, inside, enclosed⟩
    · next leaves =>
      have depth := closeFrom_depth limit (parent.fill inner.label inner.kids.json) outer
      have further_right : ¬column ≤
          2 * (closeFrom limit (parent.fill inner.label inner.kids.json) outer).outer.length := by
        have least := place.2
        rw [List.length_cons] at least
        omega
      rw [Yaml.dedent, if_neg further_right]
      apply ih _ _ _ _ (linked.2.fill linked.1 _)
      · exact .decided outer _ (linked.1.decided _) (inside.complete read.alike)
      · exact enclosed.replaced rfl

/-- The reader stands at a collection that takes the entry. -/
structure Entered (reader : Yaml.Reader) (tree : Tree) : Prop where
  decided : tree.inner.kids.decided = true
  alike : tree.inner.kids.Alike reader.node
  column : reader.column = 2 * tree.outer.length
  around : Enclosed tree.inner tree.outer reader.around

theorem Entered.follows {reader : Yaml.Reader} {tree : Tree} (entered : Entered reader tree) :
    Follows reader tree := by
  refine ⟨?_, entered.around⟩
  rw [entered.column]
  exact .decided _ _ entered.decided entered.alike

def Kids.isItems : Kids → Bool
  | .items _ => true
  | _ => false

-- the line of a keyed entry, behind a dash where it begins an object in an array
def Tree.keyedLine (tree : Tree) (content : Yaml.Content) : Yaml.Line :=
  ⟨2 * tree.outer.length, tree.inner.kids.isItems, content⟩

def Tree.itemLine (tree : Tree) (content : Yaml.Content) : Yaml.Line :=
  ⟨2 * tree.outer.length, true, content⟩

theorem keyed_entered (tree : Tree) (reader : Yaml.Reader) (follows : Follows reader tree)
    (lv : Int) (content : Yaml.Content) (keyed : content.key.isSome = true) :
    ∃ between, Entered between (tree.accept lv true) ∧
      (reader.align (tree.keyedLine content)).bind
          (if tree.inner.kids.isItems then Yaml.Reader.item content
            else Yaml.Reader.member content) =
        between.member content := by
  obtain ⟨inner, outer⟩ := tree
  obtain ⟨column, node, around⟩ := reader
  obtain ⟨read, enclosed⟩ := follows
  cases read with
  | empty _ _ undecided deeper =>
    dsimp only at undecided
    simp only [Tree.accept, undecided]
    refine ⟨⟨2 * outer.length, .members [], around⟩,
      ⟨rfl, MembersAlike.nil, rfl, enclosed.replaced rfl⟩, ?_⟩
    simp [Yaml.Reader.align, Tree.keyedLine, undecided, Kids.isItems]
  | root members =>
    dsimp only at members
    simp only [Tree.accept, members]
    refine ⟨⟨0, .members [], around⟩, ⟨?_, ?_, rfl, enclosed⟩, ?_⟩
    · simp [members, Kids.decided]
    · simp only [members]
      exact MembersAlike.nil
    · simp [Yaml.Reader.align, Tree.keyedLine, members, Kids.isItems]
  | decided _ _ decided alike =>
    cases kids : inner.kids with
    | undecided => simp [kids, Kids.decided] at decided
    | members done =>
      simp only [Tree.accept, kids]
      refine ⟨⟨2 * outer.length, node, around⟩, ⟨decided, alike, rfl, enclosed⟩, ?_⟩
      rw [kids] at alike
      cases node <;> simp_all [Kids.Alike, Yaml.Reader.align, Tree.keyedLine, Kids.isItems]
    | items done =>
      rw [kids] at alike
      cases node with
      | empty => exact alike.elim
      | members yamls => exact alike.elim
      | items yamls =>
        simp only [Tree.accept, kids]
        refine ⟨⟨2 * outer.length + 2, .members [], ⟨2 * outer.length, .items yamls⟩ :: around⟩,
          ⟨rfl, MembersAlike.nil, rfl, .items yamls, around, rfl, ?_, enclosed⟩, ?_⟩
        · simp only [Frame.Around, kids, Tree.enter]
          exact alike
        · cases content <;> simp_all [Yaml.Reader.align, Tree.keyedLine, Kids.isItems,
            Yaml.Reader.item, Yaml.Content.key]

theorem item_entered (tree : Tree) (reader : Yaml.Reader) (follows : Follows reader tree)
    (lv : Int) (fits : tree.inner.kids.isMembers = false) (content : Yaml.Content) :
    ∃ between, Entered between (tree.accept lv false) ∧
      reader.align (tree.itemLine content) = some between := by
  obtain ⟨inner, outer⟩ := tree
  obtain ⟨column, node, around⟩ := reader
  obtain ⟨read, enclosed⟩ := follows
  cases read with
  | empty _ _ undecided deeper =>
    dsimp only at undecided
    simp only [Tree.accept, undecided]
    exact ⟨⟨2 * outer.length, .items [], around⟩,
      ⟨rfl, ItemsAlike.nil, rfl, enclosed.replaced rfl⟩, rfl⟩
  | root members =>
    dsimp only at members fits
    simp [members, Kids.isMembers] at fits
  | decided _ _ decided alike =>
    cases kids : inner.kids with
    | undecided => simp [kids, Kids.decided] at decided
    | members done => simp [kids, Kids.isMembers] at fits
    | items done =>
      simp only [Tree.accept, kids]
      refine ⟨⟨2 * outer.length, node, around⟩, ⟨decided, alike, rfl, enclosed⟩, ?_⟩
      rw [kids] at alike
      cases node <;> simp_all [Kids.Alike, Yaml.Reader.align, Tree.itemLine]

theorem Entered.item {reader : Yaml.Reader} {tree : Tree} (entered : Entered reader tree)
    (holds : tree.inner.Holds none) (s : Text) :
    ∃ after, reader.item (.scalar s) = some after ∧ Follows after (tree.fill none (.str s)) := by
  obtain ⟨column, node, around⟩ := reader
  obtain ⟨decided, alike, rfl, enclosed⟩ := entered
  unfold Frame.Holds at holds
  cases kids : tree.inner.kids with
  | undecided => simp [kids] at holds
  | members done => simp [kids] at holds
  | items done =>
    rw [kids] at alike
    cases node with
    | empty => exact alike.elim
    | members yamls => exact alike.elim
    | items yamls =>
      refine ⟨_, rfl, Frame.Read.decided tree.outer _ ?_ ?_, enclosed.replaced rfl⟩
      · simp [Tree.fill, Frame.fill, kids, Kids.add, Kids.decided]
      · simp only [Tree.fill, Frame.fill, kids, Kids.add]
        exact .add alike (.str s)

-- what the key may be renamed to in the mapping that takes it
def Tree.Renames (tree : Tree) (key ekey : Text) : Prop :=
  ∀ done, tree.inner.kids = .members done → Renamed (done.map Prod.fst) key ekey

theorem Entered.member {reader : Yaml.Reader} {tree : Tree} (entered : Entered reader tree)
    {key : Text} (holds : tree.inner.Holds (some key)) (ekey : Text) (renames : tree.Renames key ekey) :
    (∀ s, ∃ after, reader.member (.member ekey s) = some after ∧
      Follows after (tree.fill (some key) (.str s))) ∧
    ∀ lv, ∃ after, reader.member (.opening ekey) = some after ∧
      Follows after (tree.enter ⟨lv, some key, .undecided⟩) := by
  obtain ⟨column, node, around⟩ := reader
  obtain ⟨decided, alike, rfl, enclosed⟩ := entered
  unfold Frame.Holds at holds
  cases kids : tree.inner.kids with
  | undecided => simp [kids] at holds
  | items done => simp [kids] at holds
  | members done =>
    have renamed := renames done kids
    rw [kids] at alike
    cases node with
    | empty => exact alike.elim
    | items yamls => exact alike.elim
    | members yamls =>
      constructor
      · intro s
        refine ⟨_, rfl, Frame.Read.decided tree.outer _ ?_ ?_, enclosed.replaced rfl⟩
        · simp [Tree.fill, Frame.fill, kids, Kids.add, Kids.decided]
        · simp only [Tree.fill, Frame.fill, kids, Kids.add]
          exact .add alike renamed (.str s)
      · intro lv
        refine ⟨_, rfl, Frame.Read.empty _ _ rfl ?_, _, around, rfl, ?_, enclosed⟩
        · simp [Tree.enter]
          omega
        · simp only [Frame.Around, kids, Tree.enter]
          exact ⟨alike, renamed⟩

-- the keys that a mapping has got, up to the one whose value is being read
def Frame.keys (frame : Frame) (label : Option Text) : List Text :=
  match frame.kids with
  | .members done => done.map Prod.fst ++ label.toList
  | _ => []

def keysAround : Option Text → List Frame → List (List Text)
  | _, [] => []
  | label, parent :: outer => parent.keys label :: keysAround parent.label outer

def Tree.keys (tree : Tree) : List (List Text) :=
  tree.inner.keys none :: keysAround tree.inner.label tree.outer

/-- No key is counted more often than the mapping has it. -/
def Counted (t : Jcnt) (keys : List Text) : Prop :=
  ∀ rec ∈ t.ek, 1 ≤ rec.count ∧ rec.count ≤ keys.count rec.key.bytes

theorem Counted.empty {t : Jcnt} (nothing : t.ek = []) (keys : List Text) : Counted t keys := by
  simp [Counted, nothing]

theorem Counted.same {t u : Jcnt} {keys : List Text} (counted : Counted t keys)
    (same : u.ek = t.ek) : Counted u keys := by
  rwa [Counted, same]

theorem yDedupKey_counted (memory : Memory) (key ekey : CString) (m after : Jcnt)
    (keys : List Text) (counted : Counted m keys)
    (deduped : yDedupKey memory key m = some (ekey, after)) :
    Renamed keys key.bytes ekey.bytes ∧ Counted after (keys ++ [key.bytes]) := by
  have recorded := yDedupKey_records memory key ekey m after deduped
  constructor
  · obtain rfl | ⟨known, inside, rfl, rfl⟩ := recorded.1
    · exact Or.inl rfl
    · have count := counted known inside
      exact Or.inr ⟨known.count + 1, by omega, by omega, rfl⟩
  · intro rec member
    rw [List.count_append]
    obtain before | ⟨same, one | ⟨known, inside, isKey, next⟩⟩ := recorded.2 rec member
    · have count := counted rec before
      omega
    · simp [one, same]
    · have count := counted known inside
      rw [isKey] at count
      rw [same, List.count_singleton_self]
      omega

theorem Frame.Holds.keys {frame : Frame} {label : Option Text} (holds : frame.Holds label)
    (json : Json) : (frame.fill label json).keys none = frame.keys label := by
  unfold Frame.Holds at holds
  cases kids : frame.kids <;> cases label <;> simp_all [Frame.fill, Frame.keys, Kids.add]

theorem Frame.Holds.further {frame : Frame} {key : Text} (holds : frame.Holds (some key)) :
    frame.keys (some key) = frame.keys none ++ [key] := by
  unfold Frame.Holds at holds
  cases kids : frame.kids <;> simp_all [Frame.keys]

theorem yAscend_counted (limit : Int) (inner : Frame) (outer : List Frame) (jstack : Jstack)
    (represents : Represents jstack ⟨inner, outer⟩) (linked : Linked inner outer)
    (counted : List.Forall₂ Counted jstack (Tree.keys ⟨inner, outer⟩)) :
    List.Forall₂ Counted (yAscend limit jstack) (closeFrom limit inner outer).keys := by
  induction outer generalizing inner jstack with
  | nil =>
    cases represents with
    | cons stands more =>
      cases more
      exact counted
  | cons parent outer ih =>
    cases represents with
    | cons stands more =>
      cases counted with
      | cons now before =>
        cases more with
        | cons parentStands more =>
          simp only [yAscend, closeFrom, stands.lv]
          split
          · exact .cons now before
          · have filled := linked.2.fill linked.1 inner.kids.json
            apply ih (parent.fill inner.label inner.kids.json) _
              (.cons (parentStands.fill _ _) more) filled
            dsimp only [Tree.keys]
            rw [linked.1.keys]
            exact before

theorem Represents.of_shapes {jstack other : Jstack} {tree : Tree}
    (represents : Represents jstack tree) (same : shapes other = shapes jstack) :
    Represents other tree := by
  unfold Represents at represents ⊢
  generalize tree.inner :: tree.outer = frames at represents ⊢
  induction represents generalizing other with
  | nil =>
    cases List.map_eq_nil_iff.mp same
    exact .nil
  | cons stands more ih =>
    obtain ⟨u, below, rfl, shape, rest⟩ := List.map_eq_cons_iff.mp same
    simp only [Jcnt.shape, Shape.mk.injEq] at shape
    refine .cons ⟨shape.1.trans stands.lv, ?_⟩ (ih rest)
    have marked := stands.marked
    unfold Kids.Marked at marked ⊢
    rwa [shape.2.1, shape.2.2]

theorem yWraps_items (key : CString) (jstack : Jstack) (tree : Tree)
    (represents : Represents jstack tree) :
    yWraps (some key) jstack = tree.inner.kids.isItems := by
  cases represents with
  | cons stands more =>
    have marked := stands.marked
    unfold Kids.Marked at marked
    cases kids : tree.inner.kids <;>
      simp_all [yWraps, Kids.isItems, closeBracket, closeBrace]

theorem accept_keys (tree : Tree) (lv : Int) (other : tree.inner.kids.isItems = false) :
    (tree.accept lv true).keys = tree.keys := by
  cases kids : tree.inner.kids with
  | undecided =>
    simp [Tree.accept, kids, Tree.keys, Frame.keys]
  | members done => simp [Tree.accept, kids]
  | items done => simp [kids, Kids.isItems] at other

/-- The wrap and the resolution of y_emit. -/
theorem accept_counted (lv : Int) (key : CString) (ascended : Jstack) (tree : Tree)
    (represents : Represents ascended tree) (counted : List.Forall₂ Counted ascended tree.keys)
    (m : Jcnt) (below : Jstack) (reached : yReached lv (some key) ascended = m :: below) :
    List.Forall₂ Counted (m :: below) (tree.accept lv true).keys := by
  have items := yWraps_items key ascended tree represents
  obtain ⟨wraps, records, rfl, -⟩ | ⟨wraps, t, rfl, records⟩ :=
    yReached_cases lv key ascended m below reached
  · rw [wraps] at items
    cases kids : tree.inner.kids <;> simp [kids, Kids.isItems] at items
    simp only [Tree.accept, kids]
    exact .cons (.empty records _) counted
  · rw [accept_keys tree lv (items.symm.trans wraps)]
    generalize tree.keys = keys at counted ⊢
    cases counted with
    | cons first rest => exact .cons (first.same records) rest

theorem yResolve_counted (lv : Int) (isArr : Bool) (jstack : Jstack) (keys : List (List Text))
    (counted : List.Forall₂ Counted jstack keys) :
    List.Forall₂ Counted (yResolve lv isArr jstack) keys := by
  cases counted with
  | nil => exact .nil
  | cons now before =>
    next t _ below _ =>
      obtain ⟨same, resolved, records⟩ := yResolve_cons lv isArr t below
      rw [resolved]
      exact .cons (now.same records) before

/-- Between the calls: what the reader and the key records have of the tree. -/
structure Mirrors (jstack : Jstack) (reader : Yaml.Reader) (tree : Tree) : Prop where
  follows : Follows reader tree
  counted : List.Forall₂ Counted jstack tree.keys

theorem Mirrors.close {jstack : Jstack} {reader : Yaml.Reader} {tree : Tree}
    (mirrors : Mirrors jstack reader tree) (represents : Represents jstack tree)
    (linked : tree.Linked) (limit : Int) :
    Mirrors (yAscend limit jstack) (reader.dedent (2 * (tree.close limit).outer.length))
      (tree.close limit) :=
  ⟨dedent_follows limit tree.inner tree.outer reader.column reader.node reader.around linked
      mirrors.follows.inner mirrors.follows.around,
    yAscend_counted limit tree.inner tree.outer jstack represents linked mirrors.counted⟩

-- what is printed for a call, and how far the reader has come behind it
def LineRead (call : Put) (reader next : Yaml.Reader) (text : Option Text) : Prop :=
  ∃ indent dashed ekey, text = some (yLine indent dashed ekey call.value) ∧
    Printable dashed ekey ∧ reader.line ⟨indent, dashed, lineContent ekey call.value⟩ = some next

theorem accept_item_keys (tree : Tree) (lv : Int) : (tree.accept lv false).keys = tree.keys := by
  cases kids : tree.inner.kids <;> simp [Tree.accept, kids, Tree.keys, Frame.keys]

theorem Tree.fill_keys (tree : Tree) (label : Option Text) (json : Json)
    (holds : tree.inner.Holds label) : (tree.fill label json).keys =
      tree.inner.keys label :: keysAround tree.inner.label tree.outer := by
  rw [Tree.keys, Tree.fill, holds.keys]
  rfl

section Step

variable (call : Put) (jstack after : Jstack) (line : Option Text) (reader : Yaml.Reader)
  (tree : Tree) (mirrors : Mirrors jstack reader tree) (represents : Represents jstack tree)
  (ascended : Represents (yAscend call.limit jstack) (tree.close call.limit))
  (linked : tree.Linked) (fits : Fits tree call)

include mirrors represents ascended linked fits

theorem item_mirrors (unkeyed : call.key = none) (val : CString) (valued : call.value = some val)
    (emitted : yEmit call.memory call.lv none call.value jstack = some (line, after)) :
    ∃ next, LineRead call reader next line ∧ Mirrors after next (tree.put call) := by
  have limit : call.limit = call.lv + 1 := by simp [Put.limit, unkeyed]
  have label : call.label = none := by simp [Put.label, unkeyed]
  have given : call.val ≠ none := by
    intro missing
    simp [call.value_none.mpr missing] at valued
  have closed := mirrors.close represents linked call.limit
  have ready := reach_ready tree call linked fits (by simp [valued])
  have depth := ascended.length_eq
  obtain ⟨between, entered, aligned⟩ := item_entered (tree.close call.limit) _ closed.follows
    call.lv (fits unkeyed given) (.scalar val.bytes)
  have reached : tree.reach call = (tree.close call.limit).accept call.lv false := by
    simp [Tree.reach, label]
  rw [label, reached] at ready
  obtain ⟨next, read, follows⟩ := entered.item ready.2 val.bytes
  rw [put_value tree call val valued, label, reached]
  obtain ⟨rfl, rfl⟩ := yEmit_unkeyed call.memory call.lv call.value jstack after line emitted
  refine ⟨next, ⟨2 * (tree.close call.limit).outer.length, true, none, ?_, Or.inl rfl, ?_⟩,
    follows, ?_⟩
  · rw [← limit, depth, List.length_cons, Nat.add_sub_cancel]
  · rw [valued, Yaml.Reader.line]
    exact (congrArg (Option.bind · _) aligned).trans read
  · rw [Tree.fill_keys _ _ _ ready.2]
    have counted := yResolve_counted call.lv true _ _ closed.counted
    rw [← accept_item_keys _ call.lv] at counted
    rw [← limit]
    exact counted

theorem keyed_mirrors (key : CString) (keyed : call.key = some key)
    (room : (yAscend call.limit jstack).length < maxDepth - 1)
    (emitted : yEmit call.memory call.lv (some key) call.value jstack = some (line, after)) :
    ∃ next, LineRead call reader next line ∧ Mirrors after next (tree.put call) := by
  have limit : call.limit = call.lv := by simp [Put.limit, keyed]
  have label : call.label = some key.bytes := by simp [Put.label, keyed]
  have reached : tree.reach call = (tree.close call.lv).accept call.lv true := by
    simp [Tree.reach, label, limit]
  have ready := reach_ready tree call linked fits (by simp [label])
  rw [limit] at ascended room
  rw [label, reached] at ready
  have closed := mirrors.close represents linked call.lv
  have depth := ascended.length_eq
  obtain refused | ⟨m, below, ekey, told, stack, deduped, rfl, rfl⟩ :=
    yEmit_keyed call.memory call.lv key call.value jstack after line emitted
  · omega
  have inside : below.length + 1 < maxDepth := by
    obtain ⟨-, -, rfl, -⟩ | ⟨-, t, split, -⟩ := yReached_cases call.lv key _ m below stack
    · omega
    · rw [split, List.length_cons] at room
      omega
  obtain ⟨between, entered, aligned⟩ := keyed_entered (tree.close call.lv) _ closed.follows
    call.lv (lineContent (some ekey) call.value) (by cases call.value <;> rfl)
  have place (next : Yaml.Reader)
      (read : between.member (lineContent (some ekey) call.value) = some next) :
      LineRead call reader next (some (yLine (2 * ((yAscend call.lv jstack).length - 1))
        (yWraps (some key) (yAscend call.lv jstack)) (some ekey) call.value)) := by
    refine ⟨_, _, some ekey, rfl, Or.inr rfl, ?_⟩
    rw [depth, List.length_cons, Nat.add_sub_cancel, yWraps_items key _ _ ascended, Yaml.Reader.line]
    exact aligned.trans read
  cases accept_counted call.lv key _ _ ascended closed.counted m below stack with
  | cons now before =>
    have renamed := yDedupKey_counted call.memory key ekey m told _ now deduped
    rw [← ready.2.further] at renamed
    have member := entered.member ready.2 ekey.bytes (by
      intro done kids
      simpa [Frame.keys, kids] using renamed.1)
    cases valued : call.value with
    | some val =>
      rw [valued] at place
      obtain ⟨next, read, follows⟩ := member.1 val.bytes
      rw [put_value tree call val valued, label, reached]
      refine ⟨next, place next read, follows, ?_⟩
      rw [Tree.fill_keys _ _ _ ready.2, if_neg (by simp)]
      exact .cons renamed.2 before
    | none =>
      rw [valued] at place
      obtain ⟨next, read, follows⟩ := member.2 call.lv
      rw [put_open tree call key.bytes label valued, reached]
      refine ⟨next, place next read, follows, ?_⟩
      have free : ¬(told :: below).length ≥ maxDepth := Nat.not_le.mpr inside
      rw [if_pos rfl, push, if_neg free]
      exact .cons (.empty rfl _) (.cons renamed.2 before)

end Step

/-- The whole value, where the collections that are open end with the text. -/
theorem complete_alike (inner : Frame) (outer : List Frame) (column : Nat) (node : Yaml.Node)
    (around : List Yaml.Enclosing) (linked : Linked inner outer)
    (read : inner.Read outer column node) (enclosed : Enclosed inner outer around) :
    Alike (closed inner outer) (Yaml.complete node around) := by
  induction outer generalizing inner column node around with
  | nil =>
    cases enclosed
    exact read.alike
  | cons parent outer ih =>
    obtain ⟨context, further, rfl, inside, enclosed⟩ := enclosed
    exact ih _ _ (context.complete node.yaml) further (linked.2.fill linked.1 _)
      (.decided outer _ (linked.1.decided _) (inside.complete read.alike)) (enclosed.replaced rfl)

end TsAnalyze.Report
