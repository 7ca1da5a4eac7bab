import TsAnalyze.Shared.Quoted

set_option autoImplicit false

namespace Yaml

open Quoted

inductive Content
  | nothing
  | scalar (s : List UInt8)
  -- a key whose value is in the lines below
  | opening (key : List UInt8)
  | member (key value : List UInt8)
deriving DecidableEq

/-- A line of block style YAML whose keys and scalars are quoted. -/
structure Line where
  indent : Nat
  dashed : Bool
  content : Content
deriving DecidableEq

def Content.ofTokens : List Token → Option Content
  | [] => some .nothing
  | [.str s] => some (.scalar s)
  | [.str key, .byte b] => if b = colon then some (.opening key) else none
  | [.str key, .byte b, .byte c, .str value] =>
      if b = colon ∧ c = space then some (.member key value) else none
  | _ => none

def Line.ofTokens (tokens : List Token) : Option Line :=
  let indent := (tokens.takeWhile (· == .byte space)).length
  match tokens.dropWhile (· == .byte space) with
  | .byte b :: .byte c :: rest =>
      if b = dash ∧ c = space then (Content.ofTokens rest).map (Line.mk indent true) else none
  | rest => (Content.ofTokens rest).map (Line.mk indent false)

def lines (text : List UInt8) : Option (List Line) :=
  (lex .outside text).bind fun tokens =>
    if tokens = [] then some [] else (tokens.splitOn (.byte newline)).mapM Line.ofTokens

-- where the key or the scalar of a line stands
def Line.column (line : Line) : Nat :=
  line.indent + if line.dashed then 2 else 0

def Content.key : Content → Option (List UInt8)
  | .nothing | .scalar _ => none
  | .opening key | .member key _ => some key

/-- The keys of the mapping at a column, which ends where a line stands further left. -/
def keysAfter (column : Nat) (keys : List (List UInt8)) (line : Line) : List (List UInt8) :=
  (if line.indent < column then [] else keys) ++
    if line.column = column then line.content.key.toList else []

def openKeys (column : Nat) (lines : List Line) : List (List UInt8) :=
  lines.foldl (keysAfter column) []

/-- No mapping of the lines has a key twice. -/
def UniqueKeys (lines : List Line) : Prop :=
  ∀ column front, front <+: lines → (openKeys column front).Nodup

theorem openKeys_append (column : Nat) (lines : List Line) (line : Line) :
    openKeys column (lines ++ [line]) = keysAfter column (openKeys column lines) line := by
  simp [openKeys]

theorem UniqueKeys.nil : UniqueKeys [] := by
  intro column front first
  simp [List.prefix_nil.mp first, openKeys]

theorem UniqueKeys.append {lines : List Line} {line : Line} (unique : UniqueKeys lines)
    (last : ∀ column, (openKeys column (lines ++ [line])).Nodup) : UniqueKeys (lines ++ [line]) := by
  intro column front first
  cases List.prefix_concat_iff.mp first with
  | inl whole => exact whole ▸ last column
  | inr before => exact unique column front before

/-- A key that its mapping does not have yet. -/
theorem openKeys_fresh (column : Nat) (lines : List Line) (line : Line)
    (unique : (openKeys column lines).Nodup)
    (fresh : ∀ key ∈ line.content.key, line.indent = line.column →
      key ∉ openKeys line.column lines) :
    (openKeys column (lines ++ [line])).Nodup := by
  rw [openKeys_append, keysAfter]
  by_cases here : line.column = column
  · subst here
    rw [if_pos rfl]
    by_cases ended : line.indent < line.column
    · rw [if_pos ended]
      cases line.content.key <;> simp
    · have level : line.indent = line.column := by
        unfold Line.column at ended ⊢
        omega
      rw [if_neg ended]
      cases known : line.content.key with
      | none => simpa using unique
      | some key =>
        have absent := fresh key known level
        rw [Option.toList_some, List.nodup_append]
        refine ⟨unique, List.nodup_singleton key, ?_⟩
        intro other member last single same
        rw [same, List.mem_singleton.mp single] at member
        exact absent member
  · rw [if_neg here, List.append_nil]
    split
    · exact List.nodup_nil
    · exact unique

/-- Text that is lines, of which there is at least one. -/
structure Lines (text : List UInt8) (lines : List Line) : Prop where
  scanned : ∃ tokens, Scans .outside text tokens .outside ∧ tokens ≠ [] ∧
    (tokens.splitOn (.byte newline)).mapM Line.ofTokens = some lines

theorem Lines.lines {text : List UInt8} {lines : List Line} (read : Lines text lines) :
    Yaml.lines text = some lines := by
  obtain ⟨tokens, scanned, nonempty, split⟩ := read.scanned
  rw [Yaml.lines, scanned.lexed, Option.bind_some, if_neg nonempty, split]

theorem Lines.single {text : List UInt8} {tokens : List Token} {line : Line}
    (scanned : Scans .outside text tokens .outside) (nonempty : tokens ≠ [])
    (whole : .byte newline ∉ tokens) (parsed : Line.ofTokens tokens = some line) :
    Lines text [line] := by
  refine ⟨tokens, scanned, nonempty, ?_⟩
  rw [List.splitOn_eq_singleton whole]
  simp [parsed]

theorem Lines.next {text more : List UInt8} {lines : List Line} {tokens : List Token} {line : Line}
    (read : Lines text lines) (scanned : Scans .outside more tokens .outside)
    (whole : .byte newline ∉ tokens) (parsed : Line.ofTokens tokens = some line) :
    Lines (text ++ newline :: more) (lines ++ [line]) := by
  obtain ⟨before, scannedBefore, nonempty, split⟩ := read.scanned
  have ended : Scans .outside [newline] [.byte newline] .outside := Scans.outside (by decide)
  refine ⟨before ++ .byte newline :: tokens, scannedBefore.append (ended.append scanned),
    by simp, ?_⟩
  rw [List.splitOn_append_cons_self, List.splitOn_eq_singleton whole, List.mapM_append, split]
  simp [parsed]

theorem spaces_first (indent : Nat) (rest : List Token)
    (starts : rest.head? ≠ some (.byte space)) :
    (List.replicate indent (Token.byte space) ++ rest).takeWhile (· == Token.byte space) =
        List.replicate indent (Token.byte space) ∧
      (List.replicate indent (Token.byte space) ++ rest).dropWhile (· == Token.byte space) =
        rest := by
  have ended : rest.takeWhile (· == Token.byte space) = [] ∧
      rest.dropWhile (· == Token.byte space) = rest := by
    cases rest with
    | nil => exact ⟨rfl, rfl⟩
    | cons token rest =>
      have other : token ≠ .byte space := by simpa using starts
      simp [other]
  induction indent with
  | zero => simpa using ended
  | succ indent ih => simpa [List.replicate_succ] using ih

/-- The tokens of a line: its indentation, its dash and what stands in it. -/
theorem ofTokens_line (indent : Nat) (dashed : Bool) (tokens : List Token) (content : Content)
    (parsed : Content.ofTokens tokens = some content)
    (starts : ∀ b, tokens.head? ≠ some (.byte b)) :
    Line.ofTokens (List.replicate indent (.byte space) ++
      ((if dashed then [.byte dash, .byte space] else []) ++ tokens)) =
        some ⟨indent, dashed, content⟩ := by
  cases dashed with
  | true =>
    have spaces := spaces_first indent (.byte dash :: .byte space :: tokens) (by simp [dash, space])
    rw [Line.ofTokens]
    simp only [if_true, List.cons_append, List.nil_append, spaces.1, spaces.2, parsed,
      List.length_replicate, and_self, Option.map_some]
  | false =>
    have spaces := spaces_first indent tokens (starts space)
    rw [Line.ofTokens]
    simp only [Bool.false_eq_true, if_false, List.nil_append, spaces.1, spaces.2,
      List.length_replicate]
    cases tokens with
    | nil => simp [parsed]
    | cons token rest =>
      cases token with
      | byte b => exact absurd rfl (starts b)
      | str s => simp [parsed]

end Yaml
