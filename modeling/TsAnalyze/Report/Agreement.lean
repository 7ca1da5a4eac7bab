import TsAnalyze.Report.YamlTree

set_option autoImplicit false

namespace TsAnalyze.Report

open Quoted

/-- The files of one run in JSON and in YAML. -/
structure Agrees (json yaml : Output) : Prop where
  jsonType : json.outtype = .json
  yamlType : yaml.outtype = .yaml
  same : shapes yaml.jstack = shapes json.jstack
  levelled : Levelled (shapes json.jstack)

theorem Put.Documented.notClosing {call : Put} (documented : call.Documented) : ¬call.closes := by
  intro closes
  simp [Put.Documented, closes.2.1, closes.2.2] at documented

theorem resPut_yaml (output after : Output) (call : Put) (type : output.outtype = .yaml)
    (documented : call.Documented) (put : resPut output call = some after) :
    ∃ line jstack, yEmit call.memory call.lv call.key call.value output.jstack =
        some (line, jstack) ∧ after = { output.addLine line with jstack := jstack } := by
  rw [resPut, if_neg documented.notClosing, type] at put
  obtain ⟨emitted, yemitted, same⟩ := Option.bind_eq_some_iff.mp put
  cases same
  exact ⟨emitted.1, emitted.2, yemitted, rfl⟩

theorem addLine_outtype (output : Output) (line : Option Text) :
    (output.addLine line).outtype = output.outtype := by
  cases line <;> rfl

theorem resPut_json (json : Output) (type : json.outtype = .json)
    (levelled : Levelled (shapes json.jstack)) (call : Put) (levels : call.Levels)
    (documented : call.Documented) :
    ∃ text jstack, resPut json call =
        some { json with jstack := jstack, text := json.text ++ text } ∧
      shapes jstack = call.step (shapes json.jstack) := by
  obtain ⟨text, jstack, emitted, reached⟩ := jEmit_shapes call levels documented json.jstack levelled
  refine ⟨text, jstack, ?_, reached⟩
  rw [resPut, if_neg documented.notClosing, type, emitted]
  rfl

/-- A call leads from equal stacks to equal stacks. -/
theorem resPut_agrees (json yaml after yafter : Output) (agrees : Agrees json yaml) (call : Put)
    (levels : call.Levels) (documented : call.Documented) (put : resPut json call = some after)
    (yput : resPut yaml call = some yafter) : Agrees after yafter := by
  obtain ⟨text, jstack, defined, reached⟩ :=
    resPut_json json agrees.jsonType agrees.levelled call levels documented
  cases put.symm.trans defined
  obtain ⟨line, ystack, emitted, rfl⟩ := resPut_yaml yaml yafter call agrees.yamlType documented yput
  have levelled := agrees.levelled
  have stepped := step_levelled call levels _ levelled documented
  rw [← reached] at stepped
  rw [← agrees.same] at levelled
  have again := yEmit_shapes call levels documented yaml.jstack ystack line levelled emitted
  refine ⟨agrees.jsonType, (addLine_outtype yaml line).trans agrees.yamlType, ?_, stepped⟩
  dsimp only
  rw [again, reached, agrees.same]

theorem puts_json (calls : List Put) (json : Output) (type : json.outtype = .json)
    (levelled : Levelled (shapes json.jstack)) (levels : ∀ call ∈ calls, call.Levels)
    (documented : ∀ call ∈ calls, call.Documented) :
    ∃ after, calls.foldlM resPut json = some after := by
  induction calls generalizing json with
  | nil => exact ⟨json, rfl⟩
  | cons call rest ih =>
    have here := documented call List.mem_cons_self
    have level := levels call List.mem_cons_self
    obtain ⟨text, jstack, defined, reached⟩ := resPut_json json type levelled call level here
    have stepped := step_levelled call level _ levelled here
    rw [← reached] at stepped
    rw [List.foldlM_cons, defined]
    exact ih _ type stepped (fun other member => levels other (List.mem_cons_of_mem call member))
      (fun other member => documented other (List.mem_cons_of_mem call member))

theorem puts_agree (calls : List Put) (json yaml after yafter : Output) (agrees : Agrees json yaml)
    (levels : ∀ call ∈ calls, call.Levels) (documented : ∀ call ∈ calls, call.Documented)
    (puts : calls.foldlM resPut json = some after)
    (yputs : calls.foldlM resPut yaml = some yafter) : Agrees after yafter := by
  induction calls generalizing json yaml with
  | nil =>
    cases puts
    cases yputs
    exact agrees
  | cons call rest ih =>
    obtain ⟨next, put, rests⟩ := Option.bind_eq_some_iff.mp puts
    obtain ⟨ynext, yput, yrests⟩ := Option.bind_eq_some_iff.mp yputs
    have agreed := resPut_agrees json yaml next ynext agrees call
      (levels call List.mem_cons_self) (documented call List.mem_cons_self) put yput
    exact ih next ynext agreed
      (fun other member => levels other (List.mem_cons_of_mem call member))
      (fun other member => documented other (List.mem_cons_of_mem call member)) rests yrests

theorem resOpen_agrees : Agrees (resOpen .json) (resOpen .yaml) :=
  ⟨rfl, rfl, rfl, le_rfl⟩

/-- The YAML file can be written, unless a key is counted beyond an int. -/
theorem puts_yaml (calls : List Put) (yaml : Output) (type : yaml.outtype = .yaml)
    (levels : ∀ call ∈ calls, call.Levels) (documented : ∀ call ∈ calls, call.Documented)
    (root : yaml.jstack ≠ []) (n : Nat) (few : Few n yaml.jstack)
    (small : n + calls.length ≤ intMax) : ∃ after, calls.foldlM resPut yaml = some after := by
  induction calls generalizing yaml n with
  | nil => exact ⟨yaml, rfl⟩
  | cons call rest ih =>
    rw [List.length_cons] at small
    have level : call.lv < intMax := by
      have bound := (levels call List.mem_cons_self).2
      unfold intMax
      omega
    obtain ⟨line, jstack, emitted, stays, fewer⟩ := yEmit_defined call.memory call.lv call.key
      call.value yaml.jstack n level root few (by omega)
    have put : resPut yaml call = some { yaml.addLine line with jstack := jstack } := by
      rw [resPut, if_neg (documented call List.mem_cons_self).notClosing, type, emitted]
      rfl
    rw [List.foldlM_cons, put]
    exact ih _ ((addLine_outtype yaml line).trans type)
      (fun other member => levels other (List.mem_cons_of_mem call member))
      (fun other member => documented other (List.mem_cons_of_mem call member)) stays (n + 1) fewer
      (by omega)

/-- The files of a run and the tree of its calls. -/
structure Matches (json yaml : Output) (tree : Tree) : Prop where
  written : Written .json json tree
  agrees : Agrees json yaml
  read : ∃ lines reader, yaml.HasLines lines ∧
    lines.foldlM Yaml.Reader.line Yaml.start = some reader ∧ Mirrors yaml.jstack reader tree

theorem Matches.represents {json yaml : Output} {tree : Tree} (agreed : Matches json yaml tree)
    (limit : Int) : Represents yaml.jstack tree ∧
      Represents (yAscend limit yaml.jstack) (tree.close limit) := by
  have simulates := agreed.written.simulates
  have same := agreed.agrees.same
  refine ⟨simulates.represents.of_shapes same, (simulates.close limit).2.represents.of_shapes ?_⟩
  rw [yAscend_shapes, jAscend_shapes, same]

theorem yEmit_mirrors (json yaml : Output) (tree : Tree) (agreed : Matches json yaml tree)
    (call : Put) (levels : call.Levels) (documented : call.Documented) (fits : Fits tree call)
    (reader : Yaml.Reader) (mirrors : Mirrors yaml.jstack reader tree) (line : Option Text)
    (jstack : Jstack)
    (emitted : yEmit call.memory call.lv call.key call.value yaml.jstack = some (line, jstack)) :
    ∃ next, LineRead call reader next line ∧ Mirrors jstack next (tree.put call) := by
  have represents := agreed.represents call.limit
  have linked := agreed.written.simulates.linked
  cases keyed : call.key with
  | none =>
    rw [keyed] at emitted
    cases valued : call.value with
    | none =>
      have unvalued := call.value_none.mp valued
      exact absurd unvalued (documented.resolve_left (not_not.mpr keyed))
    | some val =>
      exact item_mirrors call yaml.jstack jstack line reader tree mirrors represents.1 represents.2
        linked fits keyed val valued emitted
  | some key =>
    have levelled := agreed.agrees.levelled
    rw [← agreed.agrees.same] at levelled
    have room := yAscend_room call levels (by simp [keyed]) yaml.jstack levelled
    rw [keyed] at emitted
    exact keyed_mirrors call yaml.jstack jstack line reader tree mirrors represents.1 represents.2
      linked fits key keyed room emitted

theorem resPut_matches (json yaml after yafter : Output) (tree : Tree)
    (agreed : Matches json yaml tree) (call : Put) (levels : call.Levels)
    (documented : call.Documented) (fits : Fits tree call) (put : resPut json call = some after)
    (yput : resPut yaml call = some yafter) : Matches after yafter (tree.put call) := by
  obtain ⟨again, defined, written⟩ := resPut_written .json (by decide) json tree call
    agreed.written levels documented.notClosing fits
  cases put.symm.trans defined
  have agrees := resPut_agrees json yaml after yafter agreed.agrees call levels documented put yput
  obtain ⟨line, jstack, emitted, rfl⟩ :=
    resPut_yaml yaml yafter call agreed.agrees.yamlType documented yput
  obtain ⟨lines, reader, has, read, mirrors⟩ := agreed.read
  obtain ⟨next, ⟨indent, dashed, ekey, rfl, printable, stepped⟩, later⟩ := yEmit_mirrors json yaml
    tree agreed call levels documented fits reader mirrors line jstack emitted
  refine ⟨written, agrees, _, next, has.add indent dashed ekey call.value printable jstack, ?_, later⟩
  rw [List.foldlM_append, read]
  simp [stepped]

theorem puts_match (calls : List Put) (json yaml after yafter : Output) (tree : Tree)
    (agreed : Matches json yaml tree) (levels : ∀ call ∈ calls, call.Levels)
    (documented : ∀ call ∈ calls, call.Documented)
    (fits : Runs.EachStep Tree.next Fits tree calls) (puts : calls.foldlM resPut json = some after)
    (yputs : calls.foldlM resPut yaml = some yafter) :
    Matches after yafter (calls.foldl Tree.put tree) := by
  induction calls generalizing json yaml tree with
  | nil =>
    cases puts
    cases yputs
    exact agreed
  | cons call rest ih =>
    have now := fits _ rfl
    obtain ⟨next, put, rests⟩ := Option.bind_eq_some_iff.mp puts
    obtain ⟨ynext, yput, yrests⟩ := Option.bind_eq_some_iff.mp yputs
    have later := resPut_matches json yaml next ynext tree agreed call
      (levels call List.mem_cons_self) (documented call List.mem_cons_self) now.1 put yput
    exact ih next ynext _ later
      (fun other member => levels other (List.mem_cons_of_mem call member))
      (fun other member => documented other (List.mem_cons_of_mem call member)) now.2 rests yrests

theorem resOpen_matches : Matches (resOpen .json) (resOpen .yaml) (Tree.root .json) := by
  refine ⟨resOpen_written .json (by decide), resOpen_agrees, [], Yaml.start, Or.inl ⟨rfl, rfl, rfl⟩,
    rfl, ⟨.root rfl, rfl⟩, ?_⟩
  exact .cons (.empty rfl _) .nil

theorem Matches.parsed {json yaml : Output} {tree : Tree} (agreed : Matches json yaml tree) :
    ∃ value, Yaml.parse yaml.text = some value ∧ Alike tree.json value := by
  obtain ⟨lines, reader, has, read, mirrors⟩ := agreed.read
  refine ⟨reader.yaml, ?_, ?_⟩
  · rw [Yaml.parse, has.read, Option.bind_some, read]
    rfl
  · exact complete_alike tree.inner tree.outer reader.column reader.node reader.around
      agreed.written.simulates.linked mirrors.follows.inner mirrors.follows.around

theorem printed_closed (outtype : Hier) (calls : List Put) :
    printed outtype (calls ++ [closeSignal]) = (printed outtype calls).map hierClose := by
  rw [printed, List.foldlM_append]
  cases puts : calls.foldlM resPut (resOpen outtype) with
  | none => simp [printed, puts]
  | some output =>
    rw [printed, puts]
    rfl

theorem hierClose_yaml (yaml : Output) (type : yaml.outtype = .yaml) :
    (hierClose yaml).text = yaml.text := by
  rw [hierClose, type]

/-- JSON and YAML output has the same containers open after every call, and it is the same value. -/
theorem json_yaml_agree (calls : List Put) (levels : ∀ call ∈ calls, call.Levels)
    (documented : ∀ call ∈ calls, call.Documented) :
    (∀ first, first <+: calls → ∃ json, printed .json first = some json ∧
        (first.length ≤ intMax → ∃ yaml, printed .yaml first = some yaml) ∧
        ∀ yaml, printed .yaml first = some yaml → shapes yaml.jstack = shapes json.jstack) ∧
      (Runs.EachStep Tree.next Fits (Tree.root .json) calls →
        ∃ json value, printed .json (calls ++ [closeSignal]) = some json ∧
          Json.parse json.text = some value ∧
          ∀ yaml, printed .yaml (calls ++ [closeSignal]) = some yaml →
            ∃ same, Yaml.parse yaml.text = some same ∧ Alike value same) := by
  constructor
  · intro first front
    have levelsFirst : ∀ call ∈ first, call.Levels := fun call member =>
      levels call (front.subset member)
    have documentedFirst : ∀ call ∈ first, call.Documented := fun call member =>
      documented call (front.subset member)
    obtain ⟨json, puts⟩ := puts_json first (resOpen .json) rfl resOpen_agrees.levelled levelsFirst
      documentedFirst
    refine ⟨json, puts, fun short => ?_, fun yaml yputs => ?_⟩
    · have few : Few 0 (resOpen .yaml).jstack := by simp [Few, resOpen, resInitRoot]
      exact puts_yaml first (resOpen .yaml) rfl levelsFirst documentedFirst
        (by simp [resOpen, resInitRoot]) 0 few (by omega)
    · exact (puts_agree first _ _ json yaml resOpen_agrees levelsFirst documentedFirst puts
        yputs).same
  · intro fits
    obtain ⟨json, value, closed, parsed, built, -, -⟩ := json_faithful .json (by decide) calls levels
      (fun call member => (documented call member).notClosing) fits
    refine ⟨json, value, closed, parsed, fun yaml yclosed => ?_⟩
    rw [printed_closed] at closed yclosed
    obtain ⟨before, puts, rfl⟩ := Option.map_eq_some_iff.mp closed
    obtain ⟨ybefore, yputs, rfl⟩ := Option.map_eq_some_iff.mp yclosed
    have agreed := puts_match calls _ _ before ybefore _ resOpen_matches levels documented fits puts
      yputs
    rw [hierClose_yaml ybefore agreed.agrees.yamlType, built]
    exact agreed.parsed

-- an object in an array, two members of one key in it and an empty container
def nestedCalls : List Put :=
  [{ lv := 0, key := some (.ofBytes [97]), val := none },
    { lv := 1, key := none, val := some (.ofBytes [60]) },
    { lv := 1, key := some (.ofBytes [107]), val := some (.ofBytes [118]) },
    { lv := 2, key := some (.ofBytes [107]), val := none }]

theorem json_yaml_agree_nested :
    (∀ first, first <+: nestedCalls → ∃ json, printed .json first = some json ∧
        (first.length ≤ intMax → ∃ yaml, printed .yaml first = some yaml) ∧
        ∀ yaml, printed .yaml first = some yaml → shapes yaml.jstack = shapes json.jstack) ∧
      ∃ json value, printed .json (nestedCalls ++ [closeSignal]) = some json ∧
        Json.parse json.text = some value ∧
        ∀ yaml, printed .yaml (nestedCalls ++ [closeSignal]) = some yaml →
          ∃ same, Yaml.parse yaml.text = some same ∧ Alike value same := by
  have agree := json_yaml_agree nestedCalls (by simp [nestedCalls, Put.Levels])
    (by simp [nestedCalls, Put.Documented])
  refine ⟨agree.1, agree.2 ?_⟩
  unfold nestedCalls
  apply fits_next (.keyed (by simp))
  apply fits_next (fun _ _ => rfl)
  apply fits_next (.keyed (by simp))
  exact fits_next (.keyed (by simp)) trivial

-- an item without a value, which is none of the documented calls
def bareCalls : List Put :=
  [{ lv := 2, key := some (.ofBytes [97]), val := none }, { lv := 1, key := none, val := none }]

-- an item of the root object
def strayCalls : List Put :=
  [{ lv := 0, key := none, val := some (.ofBytes [118]) }]

theorem json_yaml_differ :
    (∀ call ∈ bareCalls ++ strayCalls, call.Levels ∧ ¬call.closes) ∧
      (∃ json yaml, printed .json bareCalls = some json ∧ printed .yaml bareCalls = some yaml ∧
        (shapes json.jstack).length = 2 ∧ (shapes yaml.jstack).length = 1) ∧
      ∃ json yaml, printed .json (strayCalls ++ [closeSignal]) = some json ∧
        printed .yaml (strayCalls ++ [closeSignal]) = some yaml ∧
        Json.parse json.text = none ∧ Yaml.parse yaml.text = some (.seq [.str [118]]) := by
  refine ⟨?_, ⟨_, _, rfl, rfl, rfl, rfl⟩, ⟨_, _, rfl, rfl, rfl, rfl⟩⟩
  simp [bareCalls, strayCalls, Put.Levels, Put.closes]

end TsAnalyze.Report
