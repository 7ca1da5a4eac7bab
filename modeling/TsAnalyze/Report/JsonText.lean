import TsAnalyze.Report.Tree

set_option autoImplicit false

namespace TsAnalyze.Report

open Quoted

theorem reads_quoted {before after : Json.Reader} (s : CString)
    (stepped : Json.step before (.str s.bytes) = some after) :
    Json.Reads before (writeQuoted s) after :=
  Json.Reads.string s.bytes (fun b _ => escaped_encodes b) stepped

theorem reads_indent (reader : Json.Reader) (n : Nat) :
    Json.Reads reader (newline :: writeIndent n) reader :=
  (Json.Reads.newline reader).append (Json.Reads.spaces reader n)

def Kids.expected : Kids → Json.Expected
  | .undecided => .value
  | .members [] => .firstKey
  | .members done => .afterMember done
  | .items [] => .firstItem
  | .items done => .afterItem done

-- around the value with this label
def Frame.context (frame : Frame) (label : Option Text) : Json.Context :=
  match frame.kids, label with
  | .members done, some key => .members done key
  | .items done, _ => .items done
  | _, _ => .items []

def contexts : Frame → List Frame → List Json.Context
  | _, [] => []
  | inner, parent :: outer => parent.context inner.label :: contexts parent outer

/-- How far the reader of the text has come. -/
def Tree.reader (tree : Tree) : Json.Reader :=
  ⟨tree.inner.kids.expected, contexts tree.inner tree.outer⟩

-- in front of the value with this label
def Tree.awaiting (tree : Tree) (label : Option Text) : Json.Reader :=
  ⟨.value, tree.inner.context label :: contexts tree.inner tree.outer⟩

theorem Tree.Ready.complete {tree : Tree} {label : Option Text} (ready : tree.Ready label)
    (json : Json) : Json.complete json (tree.awaiting label).contexts =
      (tree.fill label json).reader := by
  have holds := ready.2
  have around : contexts (tree.inner.fill label json) tree.outer =
      contexts tree.inner tree.outer := by
    cases tree.outer <;> rfl
  unfold Frame.Holds at holds
  cases kids : tree.inner.kids with
  | undecided => simp [kids] at holds
  | members done =>
    cases label with
    | none => simp [kids] at holds
    | some key =>
      simp only [Tree.awaiting, Frame.context, kids, Json.complete, Tree.reader, Tree.fill, around]
      cases done <;> simp [Frame.fill, kids, Kids.add, Kids.expected]
  | items done =>
    cases label with
    | some key => simp [kids] at holds
    | none =>
      simp only [Tree.awaiting, Frame.context, kids, Json.complete, Tree.reader, Tree.fill, around]
      cases done <;> simp [Frame.fill, kids, Kids.add, Kids.expected]

def Kids.filled : Kids → Bool
  | .undecided => false
  | .members done => !done.isEmpty
  | .items done => !done.isEmpty

def Kids.Marked (kids : Kids) (t : Jcnt) : Prop :=
  match kids with
  | .undecided => t.childLv < 0 ∧ t.close = 0
  | .members _ => 0 ≤ t.childLv ∧ t.close = closeBrace
  | .items _ => 0 ≤ t.childLv ∧ t.close = closeBracket

/-- An entry of the stack stands for a container. -/
structure Stands (t : Jcnt) (frame : Frame) : Prop where
  lv : t.lv = frame.lv
  marked : frame.kids.Marked t

theorem Stands.fill {t : Jcnt} {frame : Frame} (stands : Stands t frame) (label : Option Text)
    (json : Json) : Stands t (frame.fill label json) := by
  refine ⟨stands.lv, ?_⟩
  have marked := stands.marked
  cases kids : frame.kids <;> cases label <;> simpa [Frame.fill, kids, Kids.add, Kids.Marked] using marked

theorem closing_reads (jdepth : Nat) (t : Jcnt) (inner parent : Frame) (outer : List Frame)
    (stands : Stands t inner) (linked : Linked inner (parent :: outer)) :
    Json.Reads (Tree.reader ⟨inner, parent :: outer⟩) (closing jdepth t)
      (Tree.reader ⟨parent.fill inner.label inner.kids.json, outer⟩) := by
  have ready : Tree.Ready ⟨parent, outer⟩ inner.label := ⟨linked.2, linked.1⟩
  have completed := ready.complete inner.kids.json
  apply (reads_indent _ _).append
  change Json.Reads ⟨inner.kids.expected, (Tree.awaiting ⟨parent, outer⟩ inner.label).contexts⟩ _
    (Tree.fill inner.label inner.kids.json ⟨parent, outer⟩).reader
  rw [← completed]
  generalize (Tree.awaiting ⟨parent, outer⟩ inner.label).contexts = around
  have marked := stands.marked
  cases kids : inner.kids with
  | undecided =>
    rw [kids] at marked
    rw [if_pos marked.1]
    have opened : Json.step ⟨.value, around⟩ (.byte openBracket) = some ⟨.firstItem, around⟩ := rfl
    exact Json.Reads.cons (by decide) opened (Json.Reads.byte (by decide) rfl)
  | members done =>
    rw [kids] at marked
    rw [if_neg (Int.not_lt.mpr marked.1), marked.2]
    apply Json.Reads.byte (by decide)
    cases done <;> rfl
  | items done =>
    rw [kids] at marked
    rw [if_neg (Int.not_lt.mpr marked.1), marked.2]
    apply Json.Reads.byte (by decide)
    cases done <;> rfl

/-- The stack stands for the containers of the tree. -/
def Represents (jstack : Jstack) (tree : Tree) : Prop :=
  List.Forall₂ Stands jstack (tree.inner :: tree.outer)

-- the containers around the innermost one have children, which is one of them
def Counts (jstack : Jstack) (tree : Tree) : Prop :=
  ∃ t below, jstack = t :: below ∧ t.hasChild = tree.inner.kids.filled ∧
    ∀ parent ∈ below, parent.hasChild = true

theorem Frame.Holds.filled {frame : Frame} {label : Option Text} (holds : frame.Holds label)
    (json : Json) : (frame.fill label json).kids.filled = true := by
  unfold Frame.Holds at holds
  cases kids : frame.kids <;> cases label <;>
    simp_all [Frame.fill, Kids.add, Kids.filled]

theorem jAscend_reads (limit : Int) (inner : Frame) (outer : List Frame) (jstack : Jstack)
    (represents : Represents jstack ⟨inner, outer⟩) (counts : Counts jstack ⟨inner, outer⟩)
    (linked : Linked inner outer) :
    Json.Reads (Tree.reader ⟨inner, outer⟩) (jAscend limit jstack).1
        (closeFrom limit inner outer).reader ∧
      Represents (jAscend limit jstack).2 (closeFrom limit inner outer) ∧
      Counts (jAscend limit jstack).2 (closeFrom limit inner outer) := by
  induction outer generalizing inner jstack with
  | nil =>
    cases represents with
    | cons stands more =>
      cases more
      exact ⟨Json.Reads.nil _, .cons stands .nil, counts⟩
  | cons parent outer ih =>
    cases represents with
    | cons stands more =>
      cases more with
      | cons parentStands more =>
        next t u below =>
          simp only [jAscend, closeFrom, stands.lv]
          split
          · exact ⟨Json.Reads.nil _, .cons stands (.cons parentStands more), counts⟩
          · have closed := closing_reads (below.length + 2) t inner parent outer stands linked
            have all : ∀ entry ∈ u :: below, entry.hasChild = true := by
              obtain ⟨_, _, same, -, all⟩ := counts
              cases same
              exact all
            have filled : u.hasChild = (parent.fill inner.label inner.kids.json).kids.filled := by
              rw [linked.1.filled, all u List.mem_cons_self]
            have later := ih _ (u :: below) (.cons (parentStands.fill _ _) more)
              ⟨u, below, rfl, filled, fun entry member => all entry (List.mem_cons_of_mem _ member)⟩
              (linked.2.fill linked.1 _)
            exact ⟨closed.append later.1, later.2⟩

/-- Between the calls: the stack stands for the tree, whose containers have their places. -/
structure Simulates (jstack : Jstack) (tree : Tree) : Prop where
  linked : tree.Linked
  represents : Represents jstack tree
  counts : Counts jstack tree

theorem Simulates.close {jstack : Jstack} {tree : Tree} (simulates : Simulates jstack tree)
    (limit : Int) :
    Json.Reads tree.reader (jAscend limit jstack).1 (tree.close limit).reader ∧
      Simulates (jAscend limit jstack).2 (tree.close limit) := by
  have ascended := jAscend_reads limit tree.inner tree.outer jstack simulates.represents
    simulates.counts simulates.linked
  exact ⟨ascended.1, closeFrom_linked limit tree.inner tree.outer simulates.linked, ascended.2.1,
    ascended.2.2⟩

-- behind the comma that a further value needs
def Tree.separated (tree : Tree) : Json.Reader :=
  match tree.inner.kids with
  | .members (member :: done) => ⟨.key (member :: done), contexts tree.inner tree.outer⟩
  | .items (item :: done) => ⟨.value, .items (item :: done) :: contexts tree.inner tree.outer⟩
  | _ => tree.reader

theorem separator_reads (jdepth : Nat) (t : Jcnt) (tree : Tree)
    (filled : t.hasChild = tree.inner.kids.filled) :
    Json.Reads tree.reader (separator jdepth t) tree.separated := by
  unfold separator
  rw [filled]
  apply Json.Reads.append _ (reads_indent _ _)
  cases kids : tree.inner.kids with
  | undecided => simpa [Kids.filled, Tree.separated, kids] using Json.Reads.nil tree.reader
  | members done =>
    cases done with
    | nil => simpa [Kids.filled, Tree.separated, kids] using Json.Reads.nil tree.reader
    | cons member done =>
      simp only [Kids.filled, Tree.separated, Tree.reader, kids, Kids.expected]
      exact Json.Reads.byte (by decide) rfl
  | items done =>
    cases done with
    | nil => simpa [Kids.filled, Tree.separated, kids] using Json.Reads.nil tree.reader
    | cons item done =>
      simp only [Kids.filled, Tree.separated, Tree.reader, kids, Kids.expected]
      exact Json.Reads.byte (by decide) rfl

theorem separated_item (tree : Tree) (ready : tree.Ready none) (val : CString) :
    Json.Reads tree.separated (writeQuoted val) (tree.fill none (.str val.bytes)).reader := by
  apply reads_quoted
  rw [← ready.complete]
  have holds := ready.2
  unfold Frame.Holds at holds
  cases kids : tree.inner.kids with
  | undecided => simp [kids] at holds
  | members done => simp [kids] at holds
  | items done =>
    cases done <;> simp only [Tree.separated, Tree.awaiting, Frame.context, Tree.reader, kids] <;> rfl

theorem separated_key (tree : Tree) (key : CString) (ready : tree.Ready (some key.bytes)) :
    Json.Reads tree.separated (writeKey (some key)) (tree.awaiting (some key.bytes)) := by
  have holds := ready.2
  unfold Frame.Holds at holds
  cases kids : tree.inner.kids with
  | undecided => simp [kids] at holds
  | items done => simp [kids] at holds
  | members done =>
    have keyed : Json.step tree.separated (.str key.bytes) =
        some ⟨.colon done key.bytes, contexts tree.inner tree.outer⟩ := by
      cases done <;> simp only [Tree.separated, Tree.reader, kids] <;> rfl
    have coloned : Json.step ⟨.colon done key.bytes, contexts tree.inner tree.outer⟩ (.byte colon) =
        some (tree.awaiting (some key.bytes)) := by
      simp only [Tree.awaiting, Frame.context, kids]
      rfl
    exact (reads_quoted key keyed).append (Json.Reads.byte (by decide) coloned)

theorem awaiting_value (tree : Tree) (label : Option Text) (ready : tree.Ready label)
    (val : CString) :
    Json.Reads (tree.awaiting label) (writeQuoted val) (tree.fill label (.str val.bytes)).reader := by
  apply reads_quoted
  rw [← ready.complete]
  rfl

theorem jResolve_decided (lv : Int) (isArrayElement : Bool) (t : Jcnt) (below : Jstack)
    (decided : 0 ≤ t.childLv) : jResolve lv isArrayElement (t :: below) = ([], t :: below) := by
  cases below <;> simp [jResolve, Int.not_lt.mpr decided]

theorem jWrap_none (lv : Int) (isArrayElement : Bool) (t : Jcnt) (below : Jstack)
    (other : isArrayElement = false → t.close ≠ closeBracket) :
    jWrap lv isArrayElement (t :: below) = some ([], t :: below) := by
  simp only [jWrap]
  rw [if_neg fun both => other both.1 both.2]

/-- The wrap and the resolution of j_prelude. -/
theorem accept_reads (lv : Int) (keyed : Bool) (jstack : Jstack) (tree : Tree)
    (nonnegative : 0 ≤ lv) (simulates : Simulates jstack tree) (room : jstack.length < maxDepth) :
    ∃ wrapped, jWrap lv (!keyed) jstack = some wrapped ∧
      Json.Reads tree.reader (wrapped.1 ++ (jResolve lv (!keyed) wrapped.2).1)
        (tree.accept lv keyed).reader ∧
      Represents (jResolve lv (!keyed) wrapped.2).2 (tree.accept lv keyed) ∧
      Counts (jResolve lv (!keyed) wrapped.2).2 (tree.accept lv keyed) := by
  obtain ⟨t, below, rfl, filled, all⟩ := simulates.counts
  cases simulates.represents with
  | cons stands more =>
    have marked := stands.marked
    cases kids : tree.inner.kids with
    | undecided =>
      rw [kids] at marked
      cases around : tree.outer with
      | nil =>
        have decided := simulates.linked
        rw [Tree.Linked, around, Linked, kids] at decided
        cases decided
      | cons parent outer =>
        rw [around] at more
        cases more with
        | cons parentStands more =>
          refine ⟨_, jWrap_none lv (!keyed) t _ (by simp [marked.2, closeBracket]), ?_⟩
          simp only [jResolve, if_pos marked.1, List.nil_append]
          have rest := List.Forall₂.cons parentStands more
          rw [← around] at rest
          cases keyed <;> simp only [Tree.accept, kids, Represents]
          · refine ⟨Json.Reads.byte (by decide) ?_, .cons ⟨stands.lv, nonnegative, rfl⟩ rest,
              _, _, rfl, rfl, all⟩
            simp only [Tree.reader, kids, around]
            rfl
          · refine ⟨Json.Reads.byte (by decide) ?_, .cons ⟨stands.lv, nonnegative, rfl⟩ rest,
              _, _, rfl, rfl, all⟩
            simp only [Tree.reader, kids, around]
            rfl
    | members done =>
      rw [kids] at marked
      refine ⟨_, jWrap_none lv (!keyed) t _ (by simp [marked.2, closeBracket, closeBrace]), ?_⟩
      rw [jResolve_decided lv (!keyed) t _ marked.1]
      have same : tree.accept lv keyed = tree := by cases keyed <;> simp [Tree.accept, kids]
      rw [same]
      exact ⟨Json.Reads.nil _, .cons stands more, t, _, rfl, filled, all⟩
    | items done =>
      rw [kids] at marked
      cases keyed with
      | false =>
        refine ⟨_, jWrap_none lv true t _ (by simp), ?_⟩
        rw [jResolve_decided lv _ t _ marked.1]
        have same : tree.accept lv false = tree := by simp [Tree.accept, kids]
        rw [same]
        exact ⟨Json.Reads.nil _, .cons stands more, t, _, rfl, filled, all⟩
      | true =>
        have inside : below.length + 1 < maxDepth := room
        have wrapped : jWrap lv (!true) (t :: below) =
            some (separator (below.length + 1) t ++ [openBrace],
              wrapper lv :: { t with hasChild := true } :: below) := by
          simp [jWrap, marked.2, inside]
        have entered : tree.accept lv true = tree.enter ⟨lv, none, .members []⟩ := by
          simp [Tree.accept, kids]
        refine ⟨_, wrapped, ?_⟩
        rw [jResolve_decided lv _ (wrapper lv) _ nonnegative, entered, List.append_nil]
        refine ⟨?_, ?_, ?_⟩
        · apply (separator_reads _ t tree filled).append
          apply Json.Reads.byte (by decide)
          cases done <;>
            simp only [Tree.separated, Tree.reader, Tree.enter, contexts, Frame.context, kids] <;> rfl
        · exact .cons ⟨rfl, nonnegative, rfl⟩ (.cons ⟨stands.lv, by rw [kids]; exact marked⟩ more)
        · refine ⟨_, _, rfl, rfl, ?_⟩
          simpa using all

theorem Put.label_isSome (call : Put) : call.label.isSome = !call.key.isNone := by
  cases key : call.key <;> simp [Put.label, key]

/-- The containers are closed, and an entry can follow. -/
theorem jPrelude_reads (jstack : Jstack) (tree : Tree) (call : Put)
    (simulates : Simulates jstack tree) (levelled : Levelled (shapes jstack))
    (levels : call.Levels) :
    ∃ text t below, jPrelude call.lv call.key.isNone jstack = some (text, t :: below) ∧
      Json.Reads tree.reader text (tree.reach call).separated ∧
      Represents (t :: below) (tree.reach call) ∧ t.hasChild = true ∧
      ∀ parent ∈ below, parent.hasChild = true := by
  have closed := simulates.close call.limit
  have room := jAscend_room call levels jstack levelled
  have unkeyed : call.key.isNone = !call.label.isSome := by simp [call.label_isSome]
  obtain ⟨wrapped, wraps, reads, represents, t, below, stack, filled, all⟩ := accept_reads call.lv
    call.label.isSome (jAscend call.limit jstack).2 (tree.close call.limit) levels.1 closed.2 room
  rw [← unkeyed] at wraps reads represents stack
  rw [stack] at represents
  cases represents with
  | cons stands more =>
    have separated := separator_reads (below.length + 1) t (tree.reach call) filled
    refine ⟨_, { t with hasChild := true }, below, ?_, (closed.1.append reads).append separated,
      .cons ⟨stands.lv, stands.marked⟩ more, rfl, all⟩
    simp only [jPrelude, minClose_limit call levels, Option.bind_eq_bind, Option.bind_some, wraps,
      stack, jChild, Option.pure_def, List.append_assoc]

theorem Represents.fill {jstack : Jstack} {tree : Tree} (represents : Represents jstack tree)
    (label : Option Text) (json : Json) : Represents jstack (tree.fill label json) := by
  cases represents with
  | cons stands more => exact .cons (stands.fill label json) more

/-- What j_emit prints takes the reader from one tree to the next. -/
theorem jEmit_reads (jstack : Jstack) (tree : Tree) (call : Put)
    (simulates : Simulates jstack tree) (levelled : Levelled (shapes jstack))
    (levels : call.Levels) (fits : Fits tree call) :
    ∃ text after, jEmit call.lv call.key call.value jstack = some (text, after) ∧
      Json.Reads tree.reader text (tree.put call).reader ∧ Simulates after (tree.put call) := by
  have linked := put_linked tree call simulates.linked fits
  have ready := reach_ready tree call simulates.linked fits
  obtain ⟨text, t, below, prelude, reads, represents, marked, all⟩ :=
    jPrelude_reads jstack tree call simulates levelled levels
  cases valued : call.value with
  | some val =>
    have placed := ready (by simp [valued])
    rw [put_value tree call val valued] at linked ⊢
    have filled : t.hasChild = (Tree.fill call.label (.str val.bytes) (tree.reach call)).inner.kids.filled :=
      marked.trans (placed.2.filled _).symm
    refine ⟨_, _, by rw [jEmit_value, prelude]; rfl, ?_, linked, represents.fill _ _,
      t, below, rfl, filled, all⟩
    cases keyed : call.key with
    | none =>
      have label : call.label = none := by simp [Put.label, keyed]
      rw [label] at placed ⊢
      simpa [writeKey] using reads.append (separated_item _ placed val)
    | some key =>
      have label : call.label = some key.bytes := by simp [Put.label, keyed]
      rw [label] at placed ⊢
      have named := reads.append (separated_key _ key placed)
      exact named.append (awaiting_value _ _ placed val)
  | none =>
    cases keyed : call.key with
    | none =>
      rw [put_silent tree call (by simp [Put.label, keyed]) valued]
      exact ⟨[], jstack, rfl, Json.Reads.nil _, simulates⟩
    | some key =>
      have label : call.label = some key.bytes := by simp [Put.label, keyed]
      have placed := ready (by simp [label])
      rw [put_open tree call key.bytes label valued] at linked ⊢
      rw [label] at placed
      rw [keyed] at prelude
      have room : ¬(t :: below).length ≥ maxDepth := by
        obtain ⟨_, _, again, reached⟩ := jPrelude_shapes call levels jstack levelled
        have depth := reach_room call levels (by simp [keyed]) (shapes jstack) levelled
        rw [keyed] at again
        cases prelude.symm.trans again
        rw [← reached, shapes_length] at depth
        exact Nat.not_le.mpr depth
      refine ⟨_, _, by rw [jEmit_open]; exact congrArg (Option.bind · _) prelude, ?_, linked, ?_, ?_⟩
      · exact reads.append (separated_key _ key placed)
      · simp only [push, if_neg room]
        exact .cons ⟨rfl, Int.negSucc_lt_zero 0, rfl⟩ represents
      · simp only [push, if_neg room]
        refine ⟨_, _, rfl, rfl, ?_⟩
        simpa [marked] using all

/-- The close signal closes every container but the root. -/
theorem closeAll_reads (inner : Frame) (outer : List Frame) (jstack : Jstack)
    (represents : Represents jstack ⟨inner, outer⟩) (linked : Linked inner outer) :
    ∃ root : Frame, Json.Reads (Tree.reader ⟨inner, outer⟩) (closeAll jstack)
        (Tree.reader ⟨root, []⟩) ∧
      root.kids.json = closed inner outer ∧ root.kids.decided = true ∧
      root.kids.isMembers = (rootOf inner outer).kids.isMembers := by
  induction outer generalizing inner jstack with
  | nil =>
    cases represents with
    | cons stands more =>
      cases more
      exact ⟨inner, Json.Reads.nil _, rfl, linked, rfl⟩
  | cons parent outer ih =>
    cases represents with
    | cons stands more =>
      cases more with
      | cons parentStands more =>
        next t u below =>
          have first := closing_reads (below.length + 2) t inner parent outer stands linked
          obtain ⟨root, reads, whole, decided, shape⟩ := ih
            (parent.fill inner.label inner.kids.json) (u :: below)
            (.cons (parentStands.fill _ _) more) (linked.2.fill linked.1 _)
          exact ⟨root, first.append reads, whole, decided, shape.trans (rootOf_fill _ _ _ _)⟩

-- the closing of the root, which `object` is the kind of
theorem root_reads (root : Frame) (object : Bool) (decided : root.kids.decided = true)
    (shape : root.kids.isMembers = object) :
    Json.Reads (Tree.reader ⟨root, []⟩)
      [newline, if object then closeBrace else closeBracket, newline]
      ⟨.done root.kids.json, []⟩ := by
  have finished : Json.Reads ⟨.done root.kids.json, []⟩ [newline] ⟨.done root.kids.json, []⟩ :=
    Json.Reads.newline _
  apply (Json.Reads.newline _).append
  subst shape
  cases kids : root.kids with
  | undecided => simp [kids, Kids.decided] at decided
  | members done =>
    simp only [Kids.isMembers, if_true]
    refine Json.Reads.cons (by decide) ?_ (kids ▸ finished)
    simp only [Tree.reader, kids]
    cases done <;> rfl
  | items done =>
    simp only [Kids.isMembers, Bool.false_eq_true, if_false]
    refine Json.Reads.cons (by decide) ?_ (kids ▸ finished)
    simp only [Tree.reader, kids]
    cases done <;> rfl

-- between the calls: how far the reader of the file has come
structure Written (outtype : Hier) (output : Output) (tree : Tree) : Prop where
  outtype : output.outtype = outtype
  reads : Json.Reads Json.start output.text tree.reader
  simulates : Simulates output.jstack tree
  levelled : Levelled (shapes output.jstack)

theorem resPut_written (outtype : Hier) (notYaml : outtype ≠ .yaml) (output : Output) (tree : Tree)
    (call : Put) (written : Written outtype output tree) (levels : call.Levels)
    (notClosing : ¬call.closes) (fits : Fits tree call) :
    ∃ after, resPut output call = some after ∧ Written outtype after (tree.put call) := by
  obtain ⟨text, after, emitted, reads, simulates⟩ := jEmit_reads output.jstack tree call
    written.simulates written.levelled levels fits
  refine ⟨{ output with jstack := after, text := output.text ++ text }, ?_, written.outtype,
    written.reads.append reads, simulates,
    jEmit_levelled call levels output.jstack after text written.levelled emitted⟩
  have type := written.outtype
  unfold resPut
  rw [if_neg notClosing, emitted]
  cases outtype <;> simp_all

theorem resOpen_written (outtype : Hier) (notYaml : outtype ≠ .yaml) :
    Written outtype (resOpen outtype) (Tree.root outtype) := by
  cases outtype with
  | yaml => exact absurd rfl notYaml
  | json =>
    exact ⟨rfl, Json.Reads.byte (by decide) rfl, ⟨rfl, .cons ⟨rfl, le_rfl, rfl⟩ .nil,
      _, _, rfl, rfl, by simp⟩, le_rfl⟩
  | html =>
    exact ⟨rfl, Json.Reads.byte (by decide) rfl, ⟨rfl, .cons ⟨rfl, le_rfl, rfl⟩ .nil,
      _, _, rfl, rfl, by simp⟩, le_rfl⟩

theorem puts_written (outtype : Hier) (notYaml : outtype ≠ .yaml) (calls : List Put)
    (output : Output) (tree : Tree) (written : Written outtype output tree)
    (levels : ∀ call ∈ calls, call.Levels) (notClosing : ∀ call ∈ calls, ¬call.closes)
    (fits : Runs.EachStep Tree.next Fits tree calls) :
    ∃ after, calls.foldlM resPut output = some after ∧
      Written outtype after (calls.foldl Tree.put tree) := by
  induction calls generalizing output tree with
  | nil => exact ⟨output, rfl, written⟩
  | cons call rest ih =>
    have now := fits _ rfl
    obtain ⟨between, put, writtenBetween⟩ := resPut_written outtype notYaml output tree call written
      (levels call List.mem_cons_self) (notClosing call List.mem_cons_self) now.1
    obtain ⟨after, puts, writtenAfter⟩ := ih between _ writtenBetween
      (fun other member => levels other (List.mem_cons_of_mem call member))
      (fun other member => notClosing other (List.mem_cons_of_mem call member)) now.2
    refine ⟨after, ?_, writtenAfter⟩
    rw [List.foldlM_cons, put]
    exact puts

theorem hierClose_parsed (outtype : Hier) (notYaml : outtype ≠ .yaml) (output : Output)
    (tree : Tree) (written : Written outtype output tree)
    (root : tree.isObject = decide (outtype = .json)) :
    Json.parse (hierClose output).text = some tree.json := by
  obtain ⟨last, reads, whole, decided, shape⟩ := closeAll_reads tree.inner tree.outer output.jstack
    written.simulates.represents written.simulates.linked
  have ended := root_reads last tree.isObject decided shape
  rw [whole] at ended
  have text : (hierClose output).text = output.text ++ closeAll output.jstack ++
      [newline, if tree.isObject then closeBrace else closeBracket, newline] := by
    have type := written.outtype
    rw [root]
    cases outtype <;> simp_all [hierClose, Hier.rootClose]
  rw [text]
  exact ((written.reads.append reads).append ended).parsed

/-- A value that can be the root: an object for JSON, an array for HTML. -/
def IsRoot (outtype : Hier) : Json → Prop
  | .str _ => False
  | .arr _ => outtype = .html
  | .obj _ => outtype = .json

theorem closed_root (inner : Frame) (outer : List Frame) (linked : Linked inner outer)
    (outtype : Hier) (notYaml : outtype ≠ .yaml)
    (root : Tree.isObject ⟨inner, outer⟩ = decide (outtype = .json)) :
    IsRoot outtype (closed inner outer) := by
  induction outer generalizing inner with
  | nil =>
    unfold Linked at linked
    unfold Tree.isObject rootOf at root
    cases kids : inner.kids with
    | undecided => simp [kids, Kids.decided] at linked
    | members done => simpa [closed, kids, Kids.json, IsRoot, Kids.isMembers] using root
    | items done =>
      cases outtype <;> simp_all [closed, Kids.json, IsRoot, Kids.isMembers]
  | cons parent outer ih =>
    exact ih _ (linked.2.fill linked.1 _) ((rootOf_fill _ _ _ _).trans root)

/-- JSON and HTML output is a JSON value, and it is the tree of the calls. -/
theorem json_faithful (outtype : Hier) (notYaml : outtype ≠ .yaml) (calls : List Put)
    (levels : ∀ call ∈ calls, call.Levels) (notClosing : ∀ call ∈ calls, ¬call.closes)
    (fits : Runs.EachStep Tree.next Fits (Tree.root outtype) calls) :
    ∃ output json, printed outtype (calls ++ [closeSignal]) = some output ∧
      Json.parse output.text = some json ∧ json = (Tree.build outtype calls).json ∧
      IsRoot outtype json ∧ Json.entries none json = calls.filterMap Put.entry := by
  have rooted := root_linked outtype
  obtain ⟨after, puts, written⟩ := puts_written outtype notYaml calls _ _
    (resOpen_written outtype notYaml) levels notClosing fits
  have object : (Tree.build outtype calls).isObject = decide (outtype = .json) := by
    rw [Tree.build, build_isObject _ calls rooted fits]
    cases outtype <;> simp_all [Tree.root, Tree.isObject, rootOf, Kids.isMembers]
  refine ⟨hierClose after, _, ?_, hierClose_parsed outtype notYaml after _ written object, rfl,
    closed_root _ _ written.simulates.linked outtype notYaml object,
    json_entries outtype calls fits⟩
  rw [printed, List.foldlM_append, puts]
  rfl

-- an item and an object in the array under `a`, and an empty container after it
def arrayCalls : List Put :=
  [{ lv := 0, key := some (.ofBytes [97]), val := none },
    { lv := 1, key := none, val := some (.ofBytes [60, 34]) },
    { lv := 1, key := some (.ofBytes [107]), val := some (.ofBytes [118]) },
    { lv := 0, key := some (.ofBytes [98]), val := none }]

theorem json_faithful_array :
    ∃ output json, printed .json (arrayCalls ++ [closeSignal]) = some output ∧
      Json.parse output.text = some json ∧ json = (Tree.build .json arrayCalls).json ∧
      IsRoot .json json ∧ Json.entries none json = arrayCalls.filterMap Put.entry := by
  apply json_faithful .json (by decide) arrayCalls
  · simp [arrayCalls, Put.Levels]
  · simp [arrayCalls, Put.closes]
  · unfold arrayCalls
    apply fits_next (.keyed (by simp))
    apply fits_next (fun _ _ => rfl)
    apply fits_next (.keyed (by simp))
    exact fits_next (.keyed (by simp)) trivial

end TsAnalyze.Report
