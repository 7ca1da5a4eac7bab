import TsAnalyze.Report.Emitter
import TsAnalyze.Shared.Patterns

set_option autoImplicit false

namespace TsAnalyze.Report

open Quoted

-- `</script`
def scriptEnd : Text := [60, 47, 115, 99, 114, 105, 112, 116]

-- `<!--`
def commentStart : Text := [60, 33, 45, 45]

/-- An HTML parser leaves the data element in this text. -/
def BreaksOut (text : Text) : Prop :=
  scriptEnd <:+: text ∨ commentStart <:+: text

instance (text : Text) : Decidable (BreaksOut text) :=
  inferInstanceAs (Decidable (_ ∨ _))

def Put.strings (call : Put) : List Text :=
  call.key.toList.map CString.bytes ++ call.value.toList.map CString.bytes

-- what can stand outside the strings, and the zero of a container that has no brackets yet
def marks : List UInt8 :=
  [0, newline, space, comma, openBracket, closeBracket, openBrace, closeBrace]

structure Foreign (pattern : Text) : Prop where
  starts : pattern = 60 :: pattern.tail
  unmarked : ∀ b ∈ pattern, b ∉ marks ∧ b ≠ quote ∧ b ≠ colon
  plain : ∀ b ∈ pattern, escaped b = [b]
  unescaped : backslash ∉ pattern

theorem scriptEnd_foreign : Foreign scriptEnd := 
  ⟨rfl, by decide +kernel, by decide +kernel, by decide⟩

theorem commentStart_foreign : Foreign commentStart := 
  ⟨rfl, by decide +kernel, by decide +kernel, by decide⟩

theorem Foreign.nonempty {pattern : Text} (foreign : Foreign pattern) : pattern ≠ [] := by
  intro empty
  have starts := foreign.starts
  simp [empty] at starts

theorem hexDigit_ne (n : UInt8) (small : n < 16) : hexDigit n ≠ 60 := by
  have each : ∀ digit : Fin 16, hexDigit (UInt8.ofNat digit) ≠ 60 := by decide
  have given := each ⟨n.toNat, small⟩
  simpa using given

-- an escape begins with a backslash and has no `<`
theorem escaped_cases (b : UInt8) :
    escaped b = [b] ∨ ∃ code, escaped b = backslash :: code ∧ 60 ∉ escaped b := by
  unfold escaped
  split
  · exact Or.inr ⟨_, rfl, by decide⟩
  · split
    · exact Or.inr ⟨_, rfl, by decide⟩
    · split
      · exact Or.inr ⟨_, rfl, by decide⟩
      · split
        · exact Or.inr ⟨_, rfl, by decide⟩
        · split
          · exact Or.inr ⟨_, rfl, by decide⟩
          · split
            · next control =>
              have small : b.toNat < 32 := control
              have high := hexDigit_ne (b / 16)
                (by rw [UInt8.lt_iff_toNat_lt, UInt8.toNat_div]; simp; omega)
              have low := hexDigit_ne (b % 16)
                (by rw [UInt8.lt_iff_toNat_lt, UInt8.toNat_mod]; simp; omega)
              refine Or.inr ⟨_, rfl, ?_⟩
              simp [backslash, letterU, high.symm, low.symm]
            · exact Or.inl rfl

theorem escaped_occurs {pattern : Text} (foreign : Foreign pattern) (s : CString) :
    pattern <:+: jWriteEscaped s ↔ pattern <:+: s.bytes := by
  apply Patterns.infix_encoded escaped backslash 60 pattern
  · intro b
    rcases escaped_cases b with same | ⟨code, coded, -⟩
    · exact Or.inl same
    · exact Or.inr ⟨code, coded⟩
  · exact foreign.plain
  · exact foreign.unescaped
  · exact foreign.starts
  · intro b
    rcases escaped_cases b with same | ⟨-, -, hidden⟩
    · exact Or.inl same
    · exact Or.inr hidden

/-- The occurrences in the text are those in the strings, whatever follows. -/
def Confines (pattern text : Text) (strings : List Text) : Prop :=
  ∀ rest, pattern <:+: text ++ rest ↔ (∃ s ∈ strings, pattern <:+: s) ∨ pattern <:+: rest

section Confines

variable {pattern : Text} (foreign : Foreign pattern)

theorem Confines.append {left right : Text} {first second : List Text}
    (confines : Confines pattern left first) (next : Confines pattern right second) :
    Confines pattern (left ++ right) (first ++ second) := by
  intro rest
  rw [List.append_assoc, confines, next, ← or_assoc]
  simp [or_and_right, exists_or]

include foreign

theorem confines_marks (text : Text) (marked : ∀ b ∈ text, b ∈ marks) :
    Confines pattern text [] := by
  intro rest
  induction text with
  | nil => simp
  | cons b text ih =>
    have other : b ∉ pattern := fun member =>
      (foreign.unmarked b member).1 (marked b List.mem_cons_self)
    rw [List.cons_append, Patterns.infix_behind foreign.nonempty other]
    exact ih fun c member => marked c (List.mem_cons_of_mem b member)

theorem confines_byte (b : UInt8) (other : b ∉ pattern) : Confines pattern [b] [] := by
  intro rest
  simp [Patterns.infix_behind foreign.nonempty other]

theorem confines_quoted (s : CString) : Confines pattern (writeQuoted s) [s.bytes] := by
  intro rest
  have other : quote ∉ pattern := fun member => (foreign.unmarked quote member).2.1 rfl
  have text : writeQuoted s ++ rest = quote :: (jWriteEscaped s ++ quote :: rest) := by
    simp [writeQuoted]
  rw [text, Patterns.infix_behind foreign.nonempty other,
    Patterns.infix_separated _ _ foreign.nonempty other, escaped_occurs foreign]
  simp

theorem confines_key (key : Option CString) :
    Confines pattern (writeKey key) (key.toList.map CString.bytes) := by
  cases key with
  | none => exact confines_marks foreign [] (by simp)
  | some key =>
    have other : colon ∉ pattern := fun member => (foreign.unmarked colon member).2.2 rfl
    exact (confines_quoted foreign key).append (confines_byte foreign colon other)

end Confines

/-- The stack closes its containers with marks. -/
def Closes (jstack : Jstack) : Prop :=
  ∀ t ∈ jstack, t.close ∈ marks

-- text that has no strings
def Marked (text : Text) : Prop :=
  ∀ b ∈ text, b ∈ marks

theorem Marked.append {left right : Text} (marked : Marked left) (next : Marked right) :
    Marked (left ++ right) := by
  intro b member
  rcases List.mem_append.mp member with first | second
  · exact marked b first
  · exact next b second

theorem indent_marked (n : Nat) : Marked (newline :: writeIndent n) := by
  simp [Marked, writeIndent, marks]

theorem closing_marked (jdepth : Nat) (t : Jcnt) (closes : t.close ∈ marks) :
    Marked (closing jdepth t) := by
  apply (indent_marked _).append
  split
  · simp [Marked, marks]
  · simpa [Marked] using closes

theorem separator_marked (jdepth : Nat) (parent : Jcnt) : Marked (separator jdepth parent) := by
  apply Marked.append _ (indent_marked _)
  split <;> simp [Marked, marks]

theorem jAscend_marked (limit : Int) (jstack : Jstack) (closes : Closes jstack) :
    Marked (jAscend limit jstack).1 ∧ Closes (jAscend limit jstack).2 := by
  induction jstack with
  | nil => exact ⟨by simp [jAscend, Marked], closes⟩
  | cons t below ih =>
    cases below with
    | nil => exact ⟨by simp [jAscend, Marked], closes⟩
    | cons parent below =>
      simp only [jAscend]
      split
      · exact ⟨by simp [Marked], closes⟩
      · have rest := ih fun u member => closes u (List.mem_cons_of_mem t member)
        exact ⟨(closing_marked _ t (closes t List.mem_cons_self)).append rest.1, rest.2⟩

theorem closeAll_marked (jstack : Jstack) (closes : Closes jstack) : Marked (closeAll jstack) := by
  induction jstack with
  | nil => simp [closeAll, Marked]
  | cons t below ih =>
    cases below with
    | nil => simp [closeAll, Marked]
    | cons parent below =>
      have rest := ih fun u member => closes u (List.mem_cons_of_mem t member)
      exact (closing_marked _ t (closes t List.mem_cons_self)).append rest

theorem Closes.push {jstack : Jstack} (closes : Closes jstack) (t : Jcnt)
    (known : t.close ∈ marks) : Closes (t :: jstack) := by
  intro u member
  cases member with
  | head => exact known
  | tail _ inside => exact closes u inside

theorem Closes.tail {jstack : Jstack} {t : Jcnt} (closes : Closes (t :: jstack)) : Closes jstack :=
  fun u member => closes u (List.mem_cons_of_mem t member)

theorem jWrap_marked (lv : Int) (isArrayElement : Bool) (jstack : Jstack) (text : Text)
    (after : Jstack) (closes : Closes jstack)
    (wrapped : jWrap lv isArrayElement jstack = some (text, after)) :
    Marked text ∧ Closes after := by
  unfold jWrap at wrapped
  split at wrapped
  · cases wrapped
    exact ⟨by simp [Marked], closes⟩
  · next arr below =>
    split at wrapped
    · split at wrapped
      · cases wrapped
        have known := closes arr List.mem_cons_self
        have brace : Marked [openBrace] := by simp [Marked, marks]
        have inner : (wrapper lv).close ∈ marks := by simp [wrapper, marks]
        have outer := closes.tail.push { arr with hasChild := true } known
        exact ⟨(separator_marked _ arr).append brace, outer.push (wrapper lv) inner⟩
      · cases wrapped
    · cases wrapped
      exact ⟨by simp [Marked], closes⟩

theorem jResolve_marked (lv : Int) (isArrayElement : Bool) (jstack : Jstack)
    (closes : Closes jstack) :
    Marked (jResolve lv isArrayElement jstack).1 ∧ Closes (jResolve lv isArrayElement jstack).2 := by
  unfold jResolve
  split
  · next t parent below =>
    split
    · refine ⟨?_, closes.tail.push _ ?_⟩ <;> cases isArrayElement <;>
        simp [Marked, marks, resolved]
    · exact ⟨by simp [Marked], closes⟩
  · exact ⟨by simp [Marked], closes⟩

theorem jPrelude_marked (lv : Int) (isArrayElement : Bool) (jstack : Jstack) (text : Text)
    (after : Jstack) (closes : Closes jstack)
    (printed : jPrelude lv isArrayElement jstack = some (text, after)) :
    Marked text ∧ Closes after := by
  unfold jPrelude at printed
  simp only [Option.bind_eq_bind, Option.bind_eq_some_iff, Option.pure_def] at printed
  obtain ⟨limit, -, wrapped, wraps, child, children, same⟩ := printed
  cases same
  have ascended := jAscend_marked limit jstack closes
  have wrappedMarked := jWrap_marked lv isArrayElement _ _ _ ascended.2 wraps
  have resolvedMarked := jResolve_marked lv isArrayElement wrapped.2 wrappedMarked.2
  cases stack : (jResolve lv isArrayElement wrapped.2).2 with
  | nil => simp [stack, jChild] at children
  | cons parent below =>
    have known := resolvedMarked.2
    rw [stack] at known children
    cases children
    exact ⟨((ascended.1.append wrappedMarked.1).append resolvedMarked.1).append
      (separator_marked _ parent), known.tail.push _ (known parent List.mem_cons_self)⟩

theorem push_closes (lv : Int) (jstack : Jstack) (closes : Closes jstack) :
    Closes (push lv jstack) := by
  unfold push
  split
  · exact closes
  · exact closes.push _ (by simp [container, marks])

section Runs

variable {pattern : Text} (foreign : Foreign pattern)

include foreign

theorem jEmit_confines (call : Put) (jstack : Jstack) (text : Text) (after : Jstack)
    (closes : Closes jstack)
    (emitted : jEmit call.lv call.key call.value jstack = some (text, after)) :
    Confines pattern text call.strings ∧ Closes after := by
  unfold Put.strings
  cases valued : call.value with
  | some val =>
    rw [valued, jEmit_value, Option.bind_eq_some_iff] at emitted
    obtain ⟨prelude, printed, same⟩ := emitted
    cases same
    have marked := jPrelude_marked _ _ _ _ _ closes printed
    have keyed := (confines_marks foreign _ marked.1).append (confines_key foreign call.key)
    exact ⟨keyed.append (confines_quoted foreign val), marked.2⟩
  | none =>
    cases keyed : call.key with
    | none =>
      rw [valued, keyed] at emitted
      cases emitted
      exact ⟨confines_marks foreign [] (by simp), closes⟩
    | some key =>
      rw [valued, keyed, jEmit_open, Option.bind_eq_some_iff] at emitted
      obtain ⟨prelude, printed, same⟩ := emitted
      cases same
      have marked := jPrelude_marked _ _ _ _ _ closes printed
      have named := (confines_marks foreign _ marked.1).append (confines_key foreign (some key))
      exact ⟨by simpa using named, push_closes _ _ marked.2⟩

theorem resPut_confines (call : Put) (output after : Output) (html : output.outtype = .html)
    (closes : Closes output.jstack) (put : resPut output call = some after) :
    ∃ text, after.text = output.text ++ text ∧ Confines pattern text call.strings ∧
      after.outtype = .html ∧ Closes after.jstack := by
  unfold resPut at put
  split at put
  · next closing =>
    cases put
    have nothing : call.strings = [] := by simp [Put.strings, Put.value, closing.2.1, closing.2.2]
    have ending : Marked [newline, closeBracket, newline] := by simp [Marked, marks]
    have marked := (closeAll_marked output.jstack closes).append ending
    rw [nothing]
    refine ⟨_, ?_, confines_marks foreign _ marked, ?_, ?_⟩ <;>
      simp [hierClose, html, Hier.rootClose, Closes]
  · rw [html] at put
    obtain ⟨emitted, printed, same⟩ := Option.bind_eq_some_iff.mp put
    cases same
    have confined := jEmit_confines foreign call output.jstack _ _ closes printed
    exact ⟨emitted.1, rfl, confined.1, rfl, confined.2⟩

theorem puts_confines (calls : List Put) (output after : Output) (html : output.outtype = .html)
    (closes : Closes output.jstack) (puts : calls.foldlM resPut output = some after) :
    ∃ text, after.text = output.text ++ text ∧
      Confines pattern text (calls.flatMap Put.strings) := by
  induction calls generalizing output with
  | nil =>
    cases puts
    exact ⟨[], by simp, confines_marks foreign [] (by simp)⟩
  | cons call rest ih =>
    obtain ⟨between, put, later⟩ := Option.bind_eq_some_iff.mp puts
    obtain ⟨text, added, confined, htmlBetween, closesBetween⟩ :=
      resPut_confines foreign call output between html closes put
    obtain ⟨more, addedMore, confinedMore⟩ := ih between htmlBetween closesBetween later
    exact ⟨text ++ more, by simp [addedMore, added], confined.append confinedMore⟩

theorem printed_occurs (calls : List Put) (output : Output)
    (puts : printed .html calls = some output) :
    pattern <:+: output.text ↔ ∃ call ∈ calls, ∃ s ∈ call.strings, pattern <:+: s := by
  obtain ⟨text, added, confined⟩ := puts_confines foreign calls (resOpen .html) output rfl
    (by simp [Closes, resOpen, resInitRoot, Hier.rootClose, marks]) puts
  have other : openBracket ∉ pattern := fun member =>
    (foreign.unmarked openBracket member).1 (by simp [marks])
  have whole := confined []
  rw [List.append_nil, List.infix_nil] at whole
  rw [added]
  change pattern <:+: openBracket :: text ↔ _
  rw [Patterns.infix_behind foreign.nonempty other, whole]
  simp only [foreign.nonempty, or_false, List.mem_flatMap]
  constructor
  · intro ⟨s, ⟨call, member, inside⟩, found⟩
    exact ⟨call, member, s, inside, found⟩
  · intro ⟨call, member, s, inside, found⟩
    exact ⟨s, ⟨call, member, inside⟩, found⟩

end Runs

/-- The report can be left exactly where a key or a value that is printed has the text to do it,
with or without the close signal at the end. -/
theorem html_contained (calls : List Put) (output : Output)
    (puts : printed .html calls = some output) :
    ¬BreaksOut output.text ↔ ∀ call ∈ calls, ∀ s ∈ call.strings, ¬BreaksOut s := by
  unfold BreaksOut
  rw [printed_occurs scriptEnd_foreign calls output puts,
    printed_occurs commentStart_foreign calls output puts]
  constructor
  · intro contained call member s inside breaks
    cases breaks with
    | inl script => exact contained (Or.inl ⟨call, member, s, inside, script⟩)
    | inr comment => exact contained (Or.inr ⟨call, member, s, inside, comment⟩)
  · intro clean breaks
    cases breaks with
    | inl found =>
      obtain ⟨call, member, s, inside, script⟩ := found
      exact clean call member s inside (Or.inl script)
    | inr found =>
      obtain ⟨call, member, s, inside, comment⟩ := found
      exact clean call member s inside (Or.inr comment)

-- a service that is named `</script`
def scriptName : List Put :=
  [{ lv := 0, key := some (.ofBytes [110]), val := some (.ofBytes scriptEnd) }, closeSignal]

def plainName : List Put :=
  [{ lv := 0, key := some (.ofBytes [110]), val := some (.ofBytes [60]) }, closeSignal]

theorem html_contained_plain :
    ∃ output, printed .html plainName = some output ∧ ¬BreaksOut output.text := by
  obtain ⟨output, puts⟩ : ∃ output, printed .html plainName = some output := ⟨_, rfl⟩
  exact ⟨output, puts, (html_contained plainName output puts).mpr (by decide +kernel)⟩

theorem html_left :
    ¬∀ calls output, printed .html calls = some output → ¬BreaksOut output.text := by
  intro claim
  have contained := claim scriptName _ rfl
  exact contained (Or.inl (by decide +kernel))

end TsAnalyze.Report
