import TsAnalyze.Report.Emitter
import TsAnalyze.Shared.Yaml

set_option autoImplicit false

namespace TsAnalyze.Report

open Quoted

def lineContent (ekey val : Option CString) : Yaml.Content :=
  match ekey, val with
  | none, none => .nothing
  | none, some val => .scalar val.bytes
  | some key, none => .opening key.bytes
  | some key, some val => .member key.bytes val.bytes

def lineTokens (ekey val : Option CString) : List Token :=
  match ekey, val with
  | none, none => []
  | none, some val => [.str val.bytes]
  | some key, none => [.str key.bytes, .byte colon]
  | some key, some val => [.str key.bytes, .byte colon, .byte space, .str val.bytes]

theorem lineTokens_content (ekey val : Option CString) :
    Yaml.Content.ofTokens (lineTokens ekey val) = some (lineContent ekey val) := by
  cases ekey <;> cases val <;> simp [lineTokens, lineContent, Yaml.Content.ofTokens]

theorem lineTokens_starts (ekey val : Option CString) (b : UInt8) :
    (lineTokens ekey val).head? ≠ some (.byte b) := by
  cases ekey <;> cases val <;> simp [lineTokens]

theorem lineTokens_whole (ekey val : Option CString) :
    .byte newline ∉ lineTokens ekey val := by
  cases ekey <;> cases val <;> simp [lineTokens, newline, colon, space]

-- what stands behind the indentation and the dash
def lineBody (ekey val : Option CString) : Text :=
  writeKey ekey ++
    match val with
    | none => []
    | some val => (if ekey.isSome then [space] else []) ++ writeQuoted val

theorem lineBody_scans (ekey val : Option CString) :
    Scans .outside (lineBody ekey val) (lineTokens ekey val) .outside := by
  have byte (b : UInt8) (plain : b ≠ quote) : Scans .outside [b] [.byte b] .outside :=
    Scans.outside plain
  cases ekey with
  | none =>
    cases val with
    | none => exact Scans.nil .outside
    | some val => exact writeQuoted_scans val
  | some key =>
    have keyed := (writeQuoted_scans key).append (byte colon (by decide))
    cases val with
    | none => simpa [lineBody, writeKey, lineTokens] using keyed
    | some val =>
      have valued := (byte space (by decide)).append (writeQuoted_scans val)
      simpa [lineBody, writeKey, lineTokens] using keyed.append valued

def allTokens (indent : Nat) (dashed : Bool) (ekey val : Option CString) : List Token :=
  List.replicate indent (.byte space) ++
    ((if dashed then [.byte dash, .byte space] else []) ++ lineTokens ekey val)

theorem yLine_scans (indent : Nat) (dashed : Bool) (ekey val : Option CString) :
    Scans .outside (yLine indent dashed ekey val) (allTokens indent dashed ekey val) .outside := by
  have spaces : Scans .outside (writeIndent indent) (List.replicate indent (.byte space)) .outside :=
    Scans.replicate (by decide) indent
  have body := lineBody_scans ekey val
  have text : yLine indent dashed ekey val = writeIndent indent ++
      ((if dashed then [dash, space] else []) ++ lineBody ekey val) := by
    cases val <;> simp [yLine, lineBody]
  rw [text]
  apply spaces.append
  cases dashed with
  | false => simpa using body
  | true =>
    have dashes : Scans .outside [dash, space] [.byte dash, .byte space] .outside :=
      (Scans.outside (by decide)).append (Scans.outside (by decide))
    exact dashes.append body

theorem allTokens_line (indent : Nat) (dashed : Bool) (ekey val : Option CString) :
    Yaml.Line.ofTokens (allTokens indent dashed ekey val) =
      some ⟨indent, dashed, lineContent ekey val⟩ :=
  Yaml.ofTokens_line indent dashed _ _ (lineTokens_content ekey val) (lineTokens_starts ekey val)

theorem allTokens_whole (indent : Nat) (dashed : Bool) (ekey val : Option CString) :
    .byte newline ∉ allTokens indent dashed ekey val := by
  have body := lineTokens_whole ekey val
  have notSpace : Token.byte newline ≠ .byte space := by decide
  have notDash : Token.byte newline ≠ .byte dash := by decide
  cases dashed <;> simp [allTokens, body, notSpace, notDash]

/-- The file has these lines so far. -/
def Output.HasLines (output : Output) (lines : List Yaml.Line) : Prop :=
  (output.yfirst = true ∧ output.text = [] ∧ lines = []) ∨
    (output.yfirst = false ∧ Yaml.Lines output.text lines)

theorem Output.HasLines.read {output : Output} {lines : List Yaml.Line}
    (has : output.HasLines lines) : Yaml.lines output.text = some lines := by
  cases has with
  | inl first =>
    rw [first.2.1, first.2.2]
    rfl
  | inr later => exact later.2.lines

-- a keyed line, a scalar or a dash: there is always something in it
def Printable (dashed : Bool) (ekey : Option CString) : Prop :=
  dashed = true ∨ ekey.isSome = true

theorem allTokens_nonempty (indent : Nat) (dashed : Bool) (ekey val : Option CString)
    (printable : Printable dashed ekey) : allTokens indent dashed ekey val ≠ [] := by
  cases dashed with
  | true => simp [allTokens]
  | false =>
    have keyed : ekey.isSome = true := by simpa [Printable] using printable
    cases ekey with
    | none => cases keyed
    | some key => cases val <;> simp [allTokens, lineTokens]

theorem Output.HasLines.add {output : Output} {lines : List Yaml.Line}
    (has : output.HasLines lines) (indent : Nat) (dashed : Bool) (ekey val : Option CString)
    (printable : Printable dashed ekey) (jstack : Jstack) :
    Output.HasLines
      { output.addLine (some (yLine indent dashed ekey val)) with jstack := jstack }
      (lines ++ [⟨indent, dashed, lineContent ekey val⟩]) := by
  have scanned := yLine_scans indent dashed ekey val
  have whole := allTokens_whole indent dashed ekey val
  have parsed := allTokens_line indent dashed ekey val
  refine Or.inr ⟨rfl, ?_⟩
  cases has with
  | inl first =>
    have single := Yaml.Lines.single scanned (allTokens_nonempty indent dashed ekey val printable)
      whole parsed
    simpa [Output.addLine, first.1, first.2.1, first.2.2] using single
  | inr later =>
    have next := later.2.next scanned whole parsed
    simpa [Output.addLine, later.1] using next

-- the stack whose innermost container takes the entry
def yReached (lv : Int) (key : Option CString) (ascended : Jstack) : Jstack :=
  yResolve lv key.isNone (if yWraps key ascended then wrapper lv :: ascended else ascended)

theorem yResolve_cons (lv : Int) (isArr : Bool) (t : Jcnt) (below : Jstack) :
    ∃ same : Jcnt, yResolve lv isArr (t :: below) = same :: below ∧ same.ek = t.ek := by
  cases below with
  | nil => exact ⟨t, rfl, rfl⟩
  | cons parent below =>
    simp only [yResolve]
    split
    · exact ⟨_, rfl, rfl⟩
    · exact ⟨t, rfl, rfl⟩

theorem yResolve_length (lv : Int) (isArr : Bool) (jstack : Jstack) :
    (yResolve lv isArr jstack).length = jstack.length := by
  cases jstack with
  | nil => rfl
  | cons t below =>
    obtain ⟨same, resolved, -⟩ := yResolve_cons lv isArr t below
    simp [resolved]

/-- The calls without a key: an item, or a dash alone. -/
theorem yEmit_unkeyed (memory : Memory) (lv : Int) (val : Option CString) (jstack after : Jstack)
    (line : Option Text) (emitted : yEmit memory lv none val jstack = some (line, after)) :
    after = yResolve lv true (yAscend (lv + 1) jstack) ∧
      line = some (yLine (2 * ((yAscend (lv + 1) jstack).length - 1)) true none val) := by
  have unwrapped : yWraps none (yAscend (lv + 1) jstack) = false := by
    unfold yWraps
    split <;> simp
  unfold yEmit minClose at emitted
  by_cases small : lv < intMax
  · simp [small, unwrapped, yKey] at emitted
    exact ⟨emitted.2.symm, emitted.1.symm⟩
  · simp [small] at emitted

/-- The calls with a key: the wrap does not fit, or the key goes to a mapping. -/
theorem yEmit_keyed (memory : Memory) (lv : Int) (key : CString) (val : Option CString)
    (jstack after : Jstack) (line : Option Text)
    (emitted : yEmit memory lv (some key) val jstack = some (line, after)) :
    (line = none ∧ after = yAscend lv jstack ∧
        yWraps (some key) (yAscend lv jstack) = true ∧ maxDepth - 1 ≤ (yAscend lv jstack).length) ∨
      ∃ m below ekey told, yReached lv (some key) (yAscend lv jstack) = m :: below ∧
        yDedupKey memory key m = some (ekey, told) ∧
        line = some (yLine (2 * ((yAscend lv jstack).length - 1))
          (yWraps (some key) (yAscend lv jstack)) (some ekey) val) ∧
        after = if val = none then push lv (told :: below) else told :: below := by
  unfold yEmit minClose at emitted
  simp only [Option.isNone_some, Bool.false_eq_true, if_false, Option.bind_eq_bind,
    Option.bind_some, Option.pure_def] at emitted
  split at emitted
  · next refused =>
    cases emitted
    exact Or.inl ⟨rfl, rfl, refused.1, refused.2⟩
  · right
    obtain ⟨keyed, deduped, pair⟩ := Option.bind_eq_some_iff.mp emitted
    have reached : yReached lv (some key) (yAscend lv jstack) = yResolve lv false
      (if yWraps (some key) (yAscend lv jstack) then wrapper lv :: yAscend lv jstack
        else yAscend lv jstack) := rfl
    rw [← reached] at deduped
    cases stack : yReached lv (some key) (yAscend lv jstack) with
    | nil => simp [stack, yKey] at deduped
    | cons m below =>
      rw [stack, yKey, Option.map_eq_some_iff] at deduped
      obtain ⟨⟨ekey, told⟩, dedup, same⟩ := deduped
      cases same
      cases pair
      refine ⟨m, below, ekey, told, rfl, dedup, by simp, by simp⟩

theorem yReached_cases (lv : Int) (key : CString) (ascended : Jstack) (m : Jcnt) (below : Jstack)
    (reached : yReached lv (some key) ascended = m :: below) :
    (yWraps (some key) ascended = true ∧ m.ek = [] ∧ below = ascended ∧ ascended ≠ []) ∨
      (yWraps (some key) ascended = false ∧ ∃ t, ascended = t :: below ∧ m.ek = t.ek) := by
  unfold yReached at reached
  cases ascended with
  | nil => simp [yWraps, yResolve] at reached
  | cons t rest =>
    cases wraps : yWraps (some key) (t :: rest) with
    | true =>
      obtain ⟨same, resolved, records⟩ := yResolve_cons lv false (wrapper lv) (t :: rest)
      simp only [wraps, if_true, Option.isNone_some, resolved] at reached
      cases reached
      exact Or.inl ⟨rfl, records, rfl, by simp⟩
    | false =>
      obtain ⟨same, resolved, records⟩ := yResolve_cons lv false t rest
      simp only [wraps, Bool.false_eq_true, if_false, Option.isNone_some, resolved] at reached
      cases reached
      exact Or.inr ⟨rfl, t, rfl, records⟩

theorem yDedupKey_ekey (memory : Memory) (key ekey : CString) (m after : Jcnt)
    (deduped : yDedupKey memory key m = some (ekey, after)) :
    ekey = key ∨ ∃ count ek, countKey key m.ek = some (count, ek) ∧
      ekey = (key.numbered count).cut bufSize := by
  unfold yDedupKey at deduped
  split at deduped
  · next count ek counted =>
    split at deduped
    · cases deduped
      exact Or.inr ⟨count, ek, counted, rfl⟩
    · cases deduped
  · split at deduped
    · cases deduped
      exact Or.inl rfl
    · dsimp only at deduped
      split at deduped <;> cases deduped <;> exact Or.inl rfl

end TsAnalyze.Report
