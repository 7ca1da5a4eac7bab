import TsAnalyze.Shared.Yaml

set_option autoImplicit false

open Quoted

/-- The values of block style YAML whose keys and scalars are quoted. -/
inductive Yaml
  | null
  | str (s : List UInt8)
  | seq (items : List Yaml)
  | map (members : List (List UInt8 × Yaml))

namespace Yaml

-- a collection, which is empty until its first line
inductive Node
  | empty
  | items (done : List Yaml)
  | members (done : List (List UInt8 × Yaml))

-- the collection around the one that is being read
inductive Context
  | items (done : List Yaml)
  | members (done : List (List UInt8 × Yaml)) (key : List UInt8)

structure Enclosing where
  column : Nat
  context : Context

/-- The collections that are open. Lines of the innermost one stand at its column, while it is
empty the first one does so or further right. -/
structure Reader where
  column : Nat
  node : Node
  around : List Enclosing

def start : Reader := ⟨0, .empty, []⟩

def Node.yaml : Node → Yaml
  | .empty => .null
  | .items done => .seq done
  | .members done => .map done

def Context.complete (yaml : Yaml) : Context → Node
  | .items done => .items (done ++ [yaml])
  | .members done key => .members (done ++ [(key, yaml)])

-- a line ends the collections whose columns are further right
def dedent (indent : Nat) : Nat → Node → List Enclosing → Reader
  | column, node, [] => ⟨column, node, []⟩
  | column, node, enclosing :: around =>
      if column ≤ indent then ⟨column, node, enclosing :: around⟩
      else dedent indent enclosing.column (enclosing.context.complete node.yaml) around

def Reader.dedent (indent : Nat) (reader : Reader) : Reader :=
  Yaml.dedent indent reader.column reader.node reader.around

-- The first line decides what a collection is.
def Reader.align (line : Line) (reader : Reader) : Option Reader :=
  match reader.node with
  | .empty =>
      some { reader with
        column := line.indent
        node := if line.dashed then .items [] else .members [] }
  | _ => if reader.column = line.indent then some reader else none

-- A value of its own lines stands further right than its key.
def Reader.member (content : Content) (reader : Reader) : Option Reader :=
  match reader.node, content with
  | .members done, .member key value =>
      some { reader with node := .members (done ++ [(key, .str value)]) }
  | .members done, .opening key =>
      some ⟨reader.column + 1, .empty, ⟨reader.column, .members done key⟩ :: reader.around⟩
  | _, _ => none

-- A key behind the dash begins a mapping at its own column.
def Reader.item (content : Content) (reader : Reader) : Option Reader :=
  match reader.node, content with
  | .items done, .nothing =>
      some ⟨reader.column + 1, .empty, ⟨reader.column, .items done⟩ :: reader.around⟩
  | .items done, .scalar s => some { reader with node := .items (done ++ [.str s]) }
  | .items done, content =>
      Reader.member content
        ⟨reader.column + 2, .members [], ⟨reader.column, .items done⟩ :: reader.around⟩
  | _, _ => none

def Reader.line (reader : Reader) (line : Line) : Option Reader :=
  ((reader.dedent line.indent).align line).bind
    (if line.dashed then Reader.item line.content else Reader.member line.content)

def complete : Node → List Enclosing → Yaml
  | node, [] => node.yaml
  | node, enclosing :: around => complete (enclosing.context.complete node.yaml) around

def Reader.yaml (reader : Reader) : Yaml :=
  complete reader.node reader.around

/-- The value that a text is, where its collections are in block style. -/
def parse (text : List UInt8) : Option Yaml :=
  (lines text).bind fun lines => (lines.foldlM Reader.line start).map Reader.yaml

-- `"k":`, a sequence of `"v"` and a mapping with the key `"m"` below it, and `"n": "w"`
example :
    parse [34, 107, 34, 58, 10, 32, 32, 45, 32, 34, 118, 34, 10, 32, 32, 45, 32, 34, 109, 34, 58,
      10, 34, 110, 34, 58, 32, 34, 119, 34] =
    some (.map [([107], .seq [.str [118], .map [([109], .null)]]), ([110], .str [119])]) := by
  rfl

end Yaml
