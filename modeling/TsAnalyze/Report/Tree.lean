import TsAnalyze.Report.Stack
import TsAnalyze.Shared.Json
import TsAnalyze.Shared.Runs

set_option autoImplicit false

namespace Json

mutual

/-- The strings of a value in order, each with the key that it stands under. -/
def entries : Option (List UInt8) → Json → List (Option (List UInt8) × List UInt8)
  | key, .str s => [(key, s)]
  | _, .arr items => itemEntries items
  | _, .obj members => memberEntries members

def itemEntries : List Json → List (Option (List UInt8) × List UInt8)
  | [] => []
  | item :: rest => entries none item ++ itemEntries rest

def memberEntries : List (List UInt8 × Json) → List (Option (List UInt8) × List UInt8)
  | [] => []
  | (key, json) :: rest => entries (some key) json ++ memberEntries rest

end

theorem itemEntries_append (done : List Json) (json : Json) :
    itemEntries (done ++ [json]) = itemEntries done ++ entries none json := by
  induction done with
  | nil => simp [itemEntries]
  | cons item done ih => simp [itemEntries, ih]

theorem memberEntries_append (done : List (List UInt8 × Json)) (key : List UInt8) (json : Json) :
    memberEntries (done ++ [(key, json)]) = memberEntries done ++ entries (some key) json := by
  induction done with
  | nil => simp [memberEntries]
  | cons member done ih =>
    cases member
    simp [memberEntries, ih]

end Json

namespace TsAnalyze.Report

-- what a container has got so far
inductive Kids
  | undecided
  | members (done : List (Text × Json))
  | items (done : List Json)

def Kids.json : Kids → Json
  | .undecided => .arr []
  | .members done => .obj done
  | .items done => .arr done

def Kids.add (label : Option Text) (json : Json) : Kids → Kids
  | .undecided => .undecided
  | .members done =>
      match label with
      | some key => .members (done ++ [(key, json)])
      | none => .members done
  | .items done =>
      match label with
      | some _ => .items done
      | none => .items (done ++ [json])

structure Frame where
  lv : Int
  -- its key, which the items of an array have none of
  label : Option Text
  kids : Kids

def Frame.fill (label : Option Text) (json : Json) (frame : Frame) : Frame :=
  { frame with kids := frame.kids.add label json }

/-- The containers that are open: the innermost one, and those around it up to the root. -/
structure Tree where
  inner : Frame
  outer : List Frame

-- closes the containers of level `limit` and above
def closeFrom (limit : Int) : Frame → List Frame → Tree
  | inner, [] => ⟨inner, []⟩
  | inner, parent :: outer =>
      if inner.lv < limit then ⟨inner, parent :: outer⟩
      else closeFrom limit (parent.fill inner.label inner.kids.json) outer

def Tree.close (limit : Int) (tree : Tree) : Tree :=
  closeFrom limit tree.inner tree.outer

def Tree.enter (frame : Frame) (tree : Tree) : Tree :=
  ⟨frame, tree.inner :: tree.outer⟩

def Tree.fill (label : Option Text) (json : Json) (tree : Tree) : Tree :=
  { tree with inner := tree.inner.fill label json }

-- The first entry decides what a container is. A keyed one among the items of an array begins an
-- object of its own level there.
def Tree.accept (lv : Int) (keyed : Bool) (tree : Tree) : Tree :=
  match tree.inner.kids, keyed with
  | .undecided, true => { tree with inner := { tree.inner with kids := .members [] } }
  | .undecided, false => { tree with inner := { tree.inner with kids := .items [] } }
  | .items _, true => tree.enter ⟨lv, none, .members []⟩
  | _, _ => tree

def Put.label (call : Put) : Option Text :=
  call.key.map CString.bytes

-- where the entry of a call has its place
def Tree.reach (tree : Tree) (call : Put) : Tree :=
  (tree.close call.limit).accept call.lv call.label.isSome

/-- What a call adds to the tree. -/
def Tree.put (tree : Tree) (call : Put) : Tree :=
  match call.label, call.value with
  | none, none => tree
  | label, some val => (tree.reach call).fill label (.str val.bytes)
  | some key, none => (tree.reach call).enter ⟨call.lv, some key, .undecided⟩

def Tree.next (tree : Tree) (call : Put) : Option Tree :=
  some (tree.put call)

def Tree.root (outtype : Hier) : Tree where
  inner := ⟨-1, none, if outtype = .html then .items [] else .members []⟩
  outer := []

def Tree.build (outtype : Hier) (calls : List Put) : Tree :=
  calls.foldl Tree.put (Tree.root outtype)

def closed : Frame → List Frame → Json
  | inner, [] => inner.kids.json
  | inner, parent :: outer => closed (parent.fill inner.label inner.kids.json) outer

def Tree.json (tree : Tree) : Json :=
  closed tree.inner tree.outer

def Kids.decided : Kids → Bool
  | .undecided => false
  | _ => true

def Kids.isMembers : Kids → Bool
  | .members _ => true
  | _ => false

/-- The call is no array element that reaches an object. -/
def Fits (tree : Tree) (call : Put) : Prop :=
  call.key = none → call.val ≠ none → (tree.close call.limit).inner.kids.isMembers = false

theorem Fits.keyed {tree : Tree} {call : Put} (keyed : call.key ≠ none) : Fits tree call :=
  fun unkeyed => absurd unkeyed keyed

theorem fits_next {tree : Tree} {call : Put} {rest : List Put} (now : Fits tree call)
    (later : Runs.EachStep Tree.next Fits (tree.put call) rest) :
    Runs.EachStep Tree.next Fits tree (call :: rest) := by
  intro after taken
  cases taken
  exact ⟨now, later⟩

def Frame.Holds (frame : Frame) (label : Option Text) : Prop :=
  match frame.kids with
  | .undecided => False
  | .members _ => label.isSome = true
  | .items _ => label = none

-- every container has its place in the one around it, and it is clear what the root is
def Linked : Frame → List Frame → Prop
  | inner, [] => inner.kids.decided = true
  | inner, parent :: outer => parent.Holds inner.label ∧ Linked parent outer

def Kids.entries (kids : Kids) : List (Option Text × Text) :=
  Json.entries none kids.json

def entriesOf : Frame → List Frame → List (Option Text × Text)
  | inner, [] => inner.kids.entries
  | inner, parent :: outer => entriesOf parent outer ++ inner.kids.entries

def Tree.entries (tree : Tree) : List (Option Text × Text) :=
  entriesOf tree.inner tree.outer

def Put.entry (call : Put) : Option (Option Text × Text) :=
  call.value.map fun val => (call.label, val.bytes)

theorem Kids.entries_json (label : Option Text) (kids : Kids) :
    Json.entries label kids.json = kids.entries := by
  cases kids <;> simp [Kids.entries, Kids.json, Json.entries]

theorem Frame.Holds.entries {frame : Frame} {label : Option Text} (holds : frame.Holds label)
    (json : Json) : (frame.fill label json).kids.entries =
      frame.kids.entries ++ Json.entries label json := by
  unfold Frame.Holds at holds
  cases kids : frame.kids with
  | undecided => simp [kids] at holds
  | members done =>
    cases label with
    | none => simp [kids] at holds
    | some key =>
      simp [Frame.fill, kids, Kids.add, Kids.entries, Kids.json, Json.entries,
        Json.memberEntries_append]
  | items done =>
    cases label with
    | some key => simp [kids] at holds
    | none =>
      simp [Frame.fill, kids, Kids.add, Kids.entries, Kids.json, Json.entries,
        Json.itemEntries_append]

theorem Frame.Holds.decided {frame : Frame} {label : Option Text} (holds : frame.Holds label)
    (json : Json) : (frame.fill label json).kids.decided = true := by
  unfold Frame.Holds at holds
  cases kids : frame.kids with
  | undecided => simp [kids] at holds
  | members done => cases label <;> simp [Frame.fill, kids, Kids.add, Kids.decided]
  | items done => cases label <;> simp [Frame.fill, kids, Kids.add, Kids.decided]

theorem Linked.replaced {frame other : Frame} {outer : List Frame} (linked : Linked frame outer)
    (same : other.label = frame.label) (decided : other.kids.decided = true) :
    Linked other outer := by
  cases outer with
  | nil => exact decided
  | cons parent outer =>
    rw [Linked, same]
    exact linked

theorem Linked.fill {frame : Frame} {outer : List Frame} (linked : Linked frame outer)
    {label : Option Text} (holds : frame.Holds label) (json : Json) :
    Linked (frame.fill label json) outer :=
  linked.replaced rfl (holds.decided json)

theorem entriesOf_fill (frame : Frame) (outer : List Frame) (label : Option Text) (json : Json)
    (holds : frame.Holds label) :
    entriesOf (frame.fill label json) outer = entriesOf frame outer ++ Json.entries label json := by
  cases outer with
  | nil => exact holds.entries json
  | cons parent outer => simp [entriesOf, holds.entries json]

theorem closeFrom_linked (limit : Int) (inner : Frame) (outer : List Frame)
    (linked : Linked inner outer) :
    Linked (closeFrom limit inner outer).inner (closeFrom limit inner outer).outer := by
  induction outer generalizing inner with
  | nil => exact linked
  | cons parent outer ih =>
    simp only [closeFrom]
    split
    · exact linked
    · exact ih _ (linked.2.fill linked.1 _)

theorem closeFrom_entries (limit : Int) (inner : Frame) (outer : List Frame)
    (linked : Linked inner outer) :
    (closeFrom limit inner outer).entries = entriesOf inner outer := by
  induction outer generalizing inner with
  | nil => rfl
  | cons parent outer ih =>
    simp only [closeFrom]
    split
    · rfl
    · rw [ih _ (linked.2.fill linked.1 _), entriesOf_fill _ _ _ _ linked.1, Kids.entries_json]
      rfl

theorem closed_entries (inner : Frame) (outer : List Frame) (linked : Linked inner outer) :
    Json.entries none (closed inner outer) = entriesOf inner outer := by
  induction outer generalizing inner with
  | nil => rfl
  | cons parent outer ih =>
    rw [closed, ih _ (linked.2.fill linked.1 _), entriesOf_fill _ _ _ _ linked.1, Kids.entries_json]
    rfl

/-- A tree whose containers have their places in one another. -/
def Tree.Linked (tree : Tree) : Prop :=
  Report.Linked tree.inner tree.outer

/-- The innermost container takes what has this label. -/
def Tree.Ready (tree : Tree) (label : Option Text) : Prop :=
  tree.Linked ∧ tree.inner.Holds label

theorem accept_ready (tree : Tree) (linked : tree.Linked) (lv : Int) (label : Option Text)
    (fits : label = none → tree.inner.kids.isMembers = false) :
    (tree.accept lv label.isSome).Ready label := by
  cases kids : tree.inner.kids with
  | undecided =>
    cases label <;> simp only [Tree.accept, kids, Option.isSome_none, Option.isSome_some]
    all_goals exact ⟨linked.replaced rfl rfl, rfl⟩
  | members done =>
    cases label with
    | none => simp [kids, Kids.isMembers] at fits
    | some key =>
      simp only [Tree.accept, kids, Option.isSome_some]
      exact ⟨linked, by simp [Frame.Holds, kids]⟩
  | items done =>
    cases label with
    | none =>
      simp only [Tree.accept, kids, Option.isSome_none]
      exact ⟨linked, by simp [Frame.Holds, kids]⟩
    | some key =>
      simp only [Tree.accept, kids, Option.isSome_some]
      exact ⟨⟨by simp [Frame.Holds, kids, Tree.enter], linked⟩, rfl⟩

theorem accept_entries (tree : Tree) (lv : Int) (keyed : Bool) :
    (tree.accept lv keyed).entries = tree.entries := by
  have nothing : Kids.undecided.entries = [] ∧ (Kids.members []).entries = [] ∧
      (Kids.items []).entries = [] := by
    simp [Kids.entries, Kids.json, Json.entries, Json.itemEntries, Json.memberEntries]
  have replaced (kids : Kids) (was : tree.inner.kids = .undecided) (empty : kids.entries = []) :
      entriesOf { tree.inner with kids := kids } tree.outer = entriesOf tree.inner tree.outer := by
    cases tree.outer <;> simp [entriesOf, was, nothing, empty]
  cases kids : tree.inner.kids <;> cases keyed <;>
    simp only [Tree.accept, kids, Tree.entries]
  · exact replaced _ kids nothing.2.2
  · exact replaced _ kids nothing.2.1
  · simp [Tree.enter, entriesOf, nothing]

theorem reach_ready (tree : Tree) (call : Put) (linked : tree.Linked) (fits : Fits tree call)
    (entry : call.label ≠ none ∨ call.value ≠ none) : (tree.reach call).Ready call.label := by
  apply accept_ready
  · exact closeFrom_linked call.limit tree.inner tree.outer linked
  · intro unlabelled
    have unkeyed : call.key = none := by simpa [Put.label] using unlabelled
    have valued : call.val ≠ none := by simpa [unlabelled, Put.value] using entry
    exact fits unkeyed valued

theorem reach_entries (tree : Tree) (call : Put) (linked : tree.Linked) :
    (tree.reach call).entries = tree.entries := by
  rw [Tree.reach, accept_entries]
  exact closeFrom_entries call.limit tree.inner tree.outer linked

theorem put_value (tree : Tree) (call : Put) (val : CString) (valued : call.value = some val) :
    tree.put call = (tree.reach call).fill call.label (.str val.bytes) := by
  simp only [Tree.put, valued]

theorem put_open (tree : Tree) (call : Put) (key : Text) (keyed : call.label = some key)
    (unvalued : call.value = none) :
    tree.put call = (tree.reach call).enter ⟨call.lv, some key, .undecided⟩ := by
  simp only [Tree.put, keyed, unvalued]

theorem put_silent (tree : Tree) (call : Put) (unkeyed : call.label = none)
    (unvalued : call.value = none) : tree.put call = tree := by
  simp only [Tree.put, unkeyed, unvalued]

theorem put_linked (tree : Tree) (call : Put) (linked : tree.Linked) (fits : Fits tree call) :
    (tree.put call).Linked := by
  have ready := reach_ready tree call linked fits
  unfold Tree.put
  split
  · exact linked
  · next val valued =>
      have placed := ready (by simp [valued])
      exact placed.1.fill placed.2 _
  · next key keyed _ =>
      have placed := ready (by simp [keyed])
      exact ⟨keyed ▸ placed.2, placed.1⟩

theorem put_entries (tree : Tree) (call : Put) (linked : tree.Linked) (fits : Fits tree call) :
    (tree.put call).entries = tree.entries ++ call.entry.toList := by
  have ready := reach_ready tree call linked fits
  have same := reach_entries tree call linked
  unfold Tree.put
  split
  · next valued => simp [Put.entry, valued]
  · next val valued =>
      have placed := ready (by simp [valued])
      have filled := entriesOf_fill (tree.reach call).inner (tree.reach call).outer call.label
        (.str val.bytes) placed.2
      have entry : call.entry = some (call.label, val.bytes) := by simp [Put.entry, valued]
      rw [← same, entry]
      exact filled
  · next valued =>
      have nothing : Kids.undecided.entries = [] := rfl
      rw [← same]
      simp [Tree.entries, Tree.enter, entriesOf, nothing, Put.entry, valued]

theorem root_linked (outtype : Hier) : (Tree.root outtype).Linked := by
  cases outtype <;> rfl

theorem build_linked (tree : Tree) (calls : List Put) (linked : tree.Linked)
    (fits : Runs.EachStep Tree.next Fits tree calls) : (calls.foldl Tree.put tree).Linked := by
  induction calls generalizing tree with
  | nil => exact linked
  | cons call rest ih =>
    have now := fits _ rfl
    exact ih _ (put_linked tree call linked now.1) now.2

theorem build_entries (tree : Tree) (calls : List Put) (linked : tree.Linked)
    (fits : Runs.EachStep Tree.next Fits tree calls) :
    (calls.foldl Tree.put tree).entries = tree.entries ++ calls.filterMap Put.entry := by
  induction calls generalizing tree with
  | nil => simp
  | cons call rest ih =>
    have now := fits _ rfl
    have later := ih _ (put_linked tree call linked now.1) now.2
    rw [List.foldl_cons, later, put_entries tree call linked now.1, List.append_assoc]
    cases entry : call.entry <;> simp [entry]

/-- The tree has the entries of the calls in their order, each under its own key. -/
theorem json_entries (outtype : Hier) (calls : List Put)
    (fits : Runs.EachStep Tree.next Fits (Tree.root outtype) calls) :
    Json.entries none (Tree.build outtype calls).json = calls.filterMap Put.entry := by
  have linked := build_linked _ calls (root_linked outtype) fits
  have built := build_entries _ calls (root_linked outtype) fits
  have nothing : (Tree.root outtype).entries = [] := by cases outtype <;> rfl
  rw [nothing, List.nil_append] at built
  exact (closed_entries _ _ linked).trans built

-- the outermost container, which is an object or an array from the beginning
def rootOf : Frame → List Frame → Frame
  | inner, [] => inner
  | _, parent :: outer => rootOf parent outer

def Tree.isObject (tree : Tree) : Bool :=
  (rootOf tree.inner tree.outer).kids.isMembers

theorem fill_isMembers (frame : Frame) (label : Option Text) (json : Json) :
    (frame.fill label json).kids.isMembers = frame.kids.isMembers := by
  cases kids : frame.kids <;> cases label <;> simp [Frame.fill, kids, Kids.add, Kids.isMembers]

theorem rootOf_fill (frame : Frame) (outer : List Frame) (label : Option Text) (json : Json) :
    (rootOf (frame.fill label json) outer).kids.isMembers =
      (rootOf frame outer).kids.isMembers := by
  cases outer with
  | nil => exact fill_isMembers frame label json
  | cons parent outer => rfl

theorem closeFrom_isObject (limit : Int) (inner : Frame) (outer : List Frame) :
    (closeFrom limit inner outer).isObject = Tree.isObject ⟨inner, outer⟩ := by
  induction outer generalizing inner with
  | nil => rfl
  | cons parent outer ih =>
    simp only [closeFrom]
    split
    · rfl
    · rw [ih]
      exact rootOf_fill parent outer _ _

theorem accept_isObject (tree : Tree) (linked : tree.Linked) (lv : Int) (keyed : Bool) :
    (tree.accept lv keyed).isObject = tree.isObject := by
  cases kids : tree.inner.kids with
  | undecided =>
    unfold Tree.Linked at linked
    cases around : tree.outer with
    | nil => simp [around, Linked, kids, Kids.decided] at linked
    | cons parent outer => cases keyed <;> simp [Tree.accept, kids, Tree.isObject, around, rootOf]
  | members done => cases keyed <;> simp [Tree.accept, kids]
  | items done => cases keyed <;> simp [Tree.accept, kids, Tree.enter, Tree.isObject, rootOf]

theorem put_isObject (tree : Tree) (call : Put) (linked : tree.Linked) :
    (tree.put call).isObject = tree.isObject := by
  have reached : (tree.reach call).isObject = tree.isObject := by
    have closed := closeFrom_linked call.limit tree.inner tree.outer linked
    exact (accept_isObject (tree.close call.limit) closed _ _).trans
      (closeFrom_isObject call.limit tree.inner tree.outer)
  unfold Tree.put
  split
  · rfl
  · rw [← reached]
    exact rootOf_fill _ _ _ _
  · exact reached

theorem build_isObject (tree : Tree) (calls : List Put) (linked : tree.Linked)
    (fits : Runs.EachStep Tree.next Fits tree calls) :
    (calls.foldl Tree.put tree).isObject = tree.isObject := by
  induction calls generalizing tree with
  | nil => rfl
  | cons call rest ih =>
    have now := fits _ rfl
    rw [List.foldl_cons, ih _ (put_linked tree call linked now.1) now.2]
    exact put_isObject tree call linked

end TsAnalyze.Report
