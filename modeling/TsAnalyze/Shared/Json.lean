import TsAnalyze.Shared.Quoted

set_option autoImplicit false

open Quoted

/-- The values of JSON that have no numbers and no literals. Strings are strings of bytes. -/
inductive Json
  | str (s : List UInt8)
  | arr (items : List Json)
  | obj (members : List (List UInt8 × Json))

namespace Json

-- an array or an object around what is being read, and what has been read of it
inductive Context
  | items (done : List Json)
  | members (done : List (List UInt8 × Json)) (key : List UInt8)

inductive Expected
  | value
  -- after an opening bracket, and after a value of the array
  | firstItem
  | afterItem (items : List Json)
  -- after an opening brace, a comma, a key and a value of the object
  | firstKey
  | key (members : List (List UInt8 × Json))
  | colon (members : List (List UInt8 × Json)) (key : List UInt8)
  | afterMember (members : List (List UInt8 × Json))
  | done (json : Json)

structure Reader where
  expected : Expected
  contexts : List Context

def complete (json : Json) : List Context → Reader
  | [] => ⟨.done json, []⟩
  | .items done :: contexts => ⟨.afterItem (done ++ [json]), contexts⟩
  | .members done key :: contexts => ⟨.afterMember (done ++ [(key, json)]), contexts⟩

def startValue (contexts : List Context) : Token → Option Reader
  | .str s => some (complete (.str s) contexts)
  | .byte b =>
      if b = openBracket then some ⟨.firstItem, contexts⟩
      else if b = openBrace then some ⟨.firstKey, contexts⟩
      else none

def isSpace (token : Token) : Bool :=
  token == .byte space || token == .byte newline || token == .byte carriage || token == .byte tab

def step (reader : Reader) (token : Token) : Option Reader :=
  if isSpace token then some reader
  else
    match reader.expected with
    | .value => startValue reader.contexts token
    | .firstItem =>
        if token = .byte closeBracket then some (complete (.arr []) reader.contexts)
        else startValue (.items [] :: reader.contexts) token
    | .afterItem items =>
        if token = .byte comma then some ⟨.value, .items items :: reader.contexts⟩
        else if token = .byte closeBracket then some (complete (.arr items) reader.contexts)
        else none
    | .firstKey =>
        match token with
        | .str key => some ⟨.colon [] key, reader.contexts⟩
        | .byte b => if b = closeBrace then some (complete (.obj []) reader.contexts) else none
    | .key members =>
        match token with
        | .str key => some ⟨.colon members key, reader.contexts⟩
        | .byte _ => none
    | .colon members key =>
        if token = .byte colon then some ⟨.value, .members members key :: reader.contexts⟩
        else none
    | .afterMember members =>
        if token = .byte comma then some ⟨.key members, reader.contexts⟩
        else if token = .byte closeBrace then some (complete (.obj members) reader.contexts)
        else none
    | .done _ => none

def run : Reader → List Token → Option Reader
  | reader, [] => some reader
  | reader, token :: rest => (step reader token).bind fun after => run after rest

def Reader.result (reader : Reader) : Option Json :=
  match reader.expected with
  | .done json => some json
  | _ => none

def start : Reader := ⟨.value, []⟩

/-- The value that a text is, if it is one. -/
def parse (text : List UInt8) : Option Json :=
  ((lex .outside text).bind (run start)).bind Reader.result

/-- Reading the text leads from one state of the reader to the other. -/
def Reads (before : Reader) (text : List UInt8) (after : Reader) : Prop :=
  ∃ tokens, Scans .outside text tokens .outside ∧ run before tokens = some after

theorem run_append (reader : Reader) (left right : List Token) :
    run reader (left ++ right) = (run reader left).bind fun after => run after right := by
  induction left generalizing reader with
  | nil => rfl
  | cons token left ih =>
    simp only [List.cons_append, run, Option.bind_assoc]
    congr 1
    funext after
    exact ih after

theorem Reads.nil (reader : Reader) : Reads reader [] reader :=
  ⟨[], Scans.nil .outside, rfl⟩

theorem Reads.append {first second third : Reader} {left right : List UInt8}
    (read : Reads first left second) (next : Reads second right third) :
    Reads first (left ++ right) third := by
  rcases read with ⟨tokens, scanned, ran⟩
  rcases next with ⟨more, scannedMore, ranMore⟩
  refine ⟨tokens ++ more, scanned.append scannedMore, ?_⟩
  rw [run_append, ran]
  exact ranMore

theorem Reads.byte {before after : Reader} {b : UInt8} (plain : b ≠ quote)
    (stepped : step before (.byte b) = some after) : Reads before [b] after := by
  refine ⟨[.byte b], Scans.outside plain, ?_⟩
  rw [run, stepped]
  rfl

theorem Reads.cons {before middle after : Reader} {b : UInt8} {text : List UInt8}
    (plain : b ≠ quote) (stepped : step before (.byte b) = some middle)
    (next : Reads middle text after) : Reads before (b :: text) after :=
  (Reads.byte plain stepped).append next

theorem Reads.string {before after : Reader} {encode : UInt8 → List UInt8} (s : List UInt8)
    (encodes : ∀ b ∈ s, Encodes encode b) (stepped : step before (.str s) = some after) :
    Reads before (quote :: s.flatMap encode ++ [quote]) after := by
  refine ⟨[.str s], Scans.string s encodes, ?_⟩
  rw [run, stepped]
  rfl

theorem Reads.newline (reader : Reader) : Reads reader [Quoted.newline] reader :=
  Reads.byte (by decide) rfl

theorem Reads.spaces (reader : Reader) (n : Nat) : Reads reader (List.replicate n space) reader := by
  induction n with
  | zero => exact Reads.nil reader
  | succ n ih =>
    have one : Reads reader [space] reader := Reads.byte (by decide) rfl
    exact one.append ih

theorem Reads.parsed {text : List UInt8} {json : Json} {contexts : List Context}
    (read : Reads start text ⟨.done json, contexts⟩) : parse text = some json := by
  rcases read with ⟨tokens, scanned, ran⟩
  rw [parse, scanned.lexed, Option.bind_some, ran]
  rfl

-- `{"k":["v",{}]}`
example : (parse [123, 34, 107, 34, 58, 91, 34, 118, 34, 44, 123, 125, 93, 125]).isSome = true := by
  decide

end Json
