import TsAnalyze.Report.HexDump
import TsAnalyze.Report.JsonText

set_option autoImplicit false

namespace TsAnalyze

open Memory

namespace Report

/-- The calls of res_put and res_hexdump that the dump functions make. A format comes with its
arguments put in. -/
inductive Rout where
  | opens (lv : Int) (key : CString)
  | field (lv : Int) (key : CString) (fmt : CString)
  | item (lv : Int) (fmt : CString)
  | hexdump (lv : Int) (title : CString) (buf : List UInt8)

namespace Rout

def lv : Rout → Int
  | opens lv _ => lv
  | field lv _ _ => lv
  | item lv _ => lv
  | hexdump lv _ _ => lv

-- the containers of this level and above are closed
def limit : Rout → Int
  | item lv _ => lv + 1
  | call => call.lv

def Levels (call : Rout) : Prop :=
  0 ≤ call.lv ∧ call.lv ≤ 14

def run (output : Output) : Rout → Option Output
  | opens lv key => resPut output { lv := lv, key := some key, val := none }
  | field lv key fmt => resPut output { lv := lv, key := some key, val := some fmt }
  | item lv fmt => resPut output { lv := lv, key := none, val := some fmt }
  | hexdump lv title buf => resHexdump output {} lv (some title) (ofBytes buf) buf.length

end Rout

/-- What res_hexdump prints of an array. -/
def dumped (buf : List UInt8) : CString :=
  (hexdumpRaw (ofBytes buf) buf.length).getD (CString.ofBytes [])

theorem hexdumpRaw_dumped (buf : List UInt8) :
    hexdumpRaw (ofBytes buf) buf.length = some (dumped buf) := by
  obtain ⟨raw, found, -⟩ := hexdumpRaw_shows buf []
  rw [List.append_nil] at found
  rw [dumped, found, Option.getD_some]

def Tree.keyed (tree : Tree) (lv : Int) : Tree :=
  (tree.close lv).accept lv true

/-- What a call adds to the tree. -/
def Tree.rout (tree : Tree) : Rout → Tree
  | .opens lv key => (tree.keyed lv).enter ⟨lv, some key.bytes, .undecided⟩
  | .field lv key fmt => (tree.keyed lv).fill (some key.bytes) (.str (fmt.cut lineLen).bytes)
  | .item lv fmt =>
      ((tree.close (lv + 1)).accept lv false).fill none (.str (fmt.cut lineLen).bytes)
  | .hexdump lv title buf => (tree.keyed lv).fill (some title.bytes) (.str (dumped buf).bytes)

/-- The call is no item that reaches an object. -/
def Placed (tree : Tree) : Rout → Prop
  | .item lv _ => (tree.close (lv + 1)).inner.kids.isMembers = false
  | _ => True

def AllPlaced : Tree → List Rout → Prop
  | _, [] => True
  | tree, call :: rest => Placed tree call ∧ AllPlaced (tree.rout call) rest

theorem allPlaced_append {tree : Tree} {first second : List Rout} :
    AllPlaced tree (first ++ second) ↔
      AllPlaced tree first ∧ AllPlaced (first.foldl Tree.rout tree) second := by
  induction first generalizing tree with
  | nil => simp [AllPlaced]
  | cons call rest ih => simp [AllPlaced, ih, and_assoc]

section Run

variable {outtype : Hier} {output : Output} {tree : Tree}

-- `value` may be longer than what res_put prints
theorem jEmit_leaf (call : Put) (key value : CString) (keyed : call.key = some key)
    (jstack : Jstack) (simulates : Simulates jstack tree) (levelled : Levelled (shapes jstack))
    (levels : call.Levels) :
    ∃ text after, jEmit call.lv call.key (some value) jstack = some (text, after) ∧
      Json.Reads tree.reader text
        ((tree.reach call).fill (some key.bytes) (.str value.bytes)).reader ∧
      Simulates after ((tree.reach call).fill (some key.bytes) (.str value.bytes)) ∧
      Levelled (shapes after) := by
  have label : call.label = some key.bytes := by simp [Put.label, keyed]
  have placed := reach_ready tree call simulates.linked (.keyed (by simp [keyed]))
    (by simp [label])
  obtain ⟨text, t, below, prelude, reads, represents, marked, all⟩ :=
    jPrelude_reads jstack tree call simulates levelled levels
  obtain ⟨shown, stack, again, reached⟩ := jPrelude_shapes call levels jstack levelled
  have after := reach_levelled call levels (shapes jstack) levelled
  cases prelude.symm.trans again
  rw [label] at placed
  have filled := (placed.2.filled (.str value.bytes)).symm
  have named := (reads.append (separated_key _ key placed)).append (awaiting_value _ _ placed value)
  refine ⟨_, _, by rw [jEmit_value, prelude]; rfl, ?_, ⟨?_, ?_, ?_⟩, ?_⟩
  · simpa [keyed, writeKey] using named
  · exact placed.1.fill placed.2 _
  · exact represents.fill _ _
  · exact ⟨t, below, rfl, marked.trans filled, all⟩
  · rw [reached]
    exact after.1

theorem resHexdump_written (notYaml : outtype ≠ .yaml) (written : Written outtype output tree)
    (lv : Int) (title : CString) (buf : List UInt8) (levels : 0 ≤ lv ∧ lv ≤ 14) :
    ∃ after, (Rout.hexdump lv title buf).run output = some after ∧
      Written outtype after (tree.rout (.hexdump lv title buf)) := by
  obtain ⟨text, jstack, emitted, reads, simulates, levelled⟩ :=
    jEmit_leaf { lv := lv, key := some title, val := none } title (dumped buf) rfl output.jstack
      written.simulates written.levelled levels
  refine ⟨{ output with jstack := jstack, text := output.text ++ text }, ?_, written.outtype,
    written.reads.append reads, simulates, levelled⟩
  have type := written.outtype
  rw [Rout.run, resHexdump, hexdumpRaw_dumped, Option.bind_eq_bind, Option.bind_some, Output.emit,
    emitted]
  cases outtype <;> simp_all

theorem rout_written (notYaml : outtype ≠ .yaml) (written : Written outtype output tree)
    (call : Rout) (levels : call.Levels) (placed : Placed tree call) :
    ∃ after, call.run output = some after ∧ Written outtype after (tree.rout call) := by
  cases call with
  | opens lv key =>
    exact resPut_written outtype notYaml output tree _ written levels (by simp [Put.closes])
      (.keyed (by simp))
  | field lv key fmt =>
    exact resPut_written outtype notYaml output tree _ written levels (by simp [Put.closes])
      (.keyed (by simp))
  | item lv fmt =>
    exact resPut_written outtype notYaml output tree _ written levels (by simp [Put.closes])
      fun _ _ => placed
  | hexdump lv title buf => exact resHexdump_written notYaml written lv title buf levels

theorem rout_isObject (tree : Tree) (call : Rout) (linked : tree.Linked) :
    (tree.rout call).isObject = tree.isObject := by
  cases call with
  | opens lv key => exact put_isObject tree { lv := lv, key := some key, val := none } linked
  | field lv key fmt => exact put_isObject tree { lv := lv, key := some key, val := some fmt } linked
  | item lv fmt => exact put_isObject tree { lv := lv, key := none, val := some fmt } linked
  | hexdump lv title buf =>
    have same := put_isObject tree { lv := lv, key := some title, val := some title } linked
    refine Eq.trans ?_ same
    exact (rootOf_fill _ _ _ _).trans (rootOf_fill _ _ _ _).symm

theorem calls_written (notYaml : outtype ≠ .yaml) (calls : List Rout)
    (written : Written outtype output tree) (levels : ∀ call ∈ calls, call.Levels)
    (placed : AllPlaced tree calls) :
    ∃ after, calls.foldlM Rout.run output = some after ∧
      Written outtype after (calls.foldl Tree.rout tree) ∧
      (calls.foldl Tree.rout tree).isObject = tree.isObject := by
  induction calls generalizing output tree with
  | nil => exact ⟨output, rfl, written, rfl⟩
  | cons call rest ih =>
    obtain ⟨between, ran, next⟩ :=
      rout_written notYaml written call (levels call List.mem_cons_self) placed.1
    obtain ⟨after, later, last, same⟩ :=
      ih next (fun other inside => levels other (List.mem_cons_of_mem _ inside)) placed.2
    have kept := rout_isObject tree call written.simulates.linked
    exact ⟨after, by rw [List.foldlM_cons, ran]; exact later, last, same.trans kept⟩

end Run

/-- The file in which the calls have been made between res_open and res_close. -/
def report (outtype : Hier) (calls : List Rout) : Option Output :=
  (calls.foldlM Rout.run (resOpen outtype)).map hierClose

def Tree.report (outtype : Hier) (calls : List Rout) : Tree :=
  calls.foldl Tree.rout (Tree.root outtype)

theorem report_parsed {outtype : Hier} (notYaml : outtype ≠ .yaml) (calls : List Rout)
    (levels : ∀ call ∈ calls, call.Levels) (placed : AllPlaced (Tree.root outtype) calls) :
    ∃ output, report outtype calls = some output ∧
      Json.parse output.text = some (Tree.report outtype calls).json := by
  obtain ⟨after, ran, written, same⟩ :=
    calls_written notYaml calls (resOpen_written outtype notYaml) levels placed
  refine ⟨hierClose after, by rw [report, ran]; rfl, ?_⟩
  apply hierClose_parsed outtype notYaml after _ written
  rw [same]
  cases outtype <;> simp_all [Tree.root, Tree.isObject, rootOf, Kids.isMembers]

end Report

end TsAnalyze
