import TsAnalyze.Report.YamlText
import TsAnalyze.Shared.Runs

set_option autoImplicit false

namespace TsAnalyze.Report

open Quoted

theorem last_separator {A : Type} {x : A} {left other right rest : List A}
    (same : left ++ x :: right = other ++ x :: rest) (absent : x ∉ right) (missing : x ∉ rest) :
    left = other ∧ right = rest := by
  rcases List.append_eq_append_iff.mp same with ⟨more, longer, tail⟩ | ⟨more, longer, tail⟩
  · cases more with
    | nil => simpa [eq_comm] using And.intro longer (List.cons.inj tail).2
    | cons y more =>
      have inside := (List.cons.inj tail).2
      exact absurd (by rw [inside]; simp) absent
  · cases more with
    | nil => simpa [eq_comm] using And.intro longer (List.cons.inj tail).2
    | cons y more =>
      have inside := (List.cons.inj tail).2
      exact absurd (by rw [inside]; simp) missing

theorem decimal_injective (n m : Nat) (same : decimal n = decimal m) : n = m := by
  have digits (k : Nat) : (decimal k).map (fun b => Char.ofNat b.toNat) = Nat.toDigits 10 k := by
    have each : ∀ digit ∈ Nat.toDigits 10 k, Char.ofNat digit.toUInt8.toNat = digit := by
      intro digit member
      have known := Nat.isDigit_of_mem_toDigits (by decide) (by decide) member
      rw [(digit_byte digit known).1, Char.ofNat_toNat]
    rw [decimal, List.map_map]
    exact (List.map_congr_left each).trans (List.map_id _)
  have equal : Nat.toDigits 10 n = Nat.toDigits 10 m := by rw [← digits n, ← digits m, same]
  have value := congrArg (fun digits => Nat.ofDigitChars 10 digits 0) equal
  simpa [Nat.ofDigitChars_ten_toDigits] using value

theorem CString.ext_bytes {s t : CString} (same : s.bytes = t.bytes) : s = t := by
  cases s
  cases t
  cases same
  rfl

theorem numbered_injective {key other : CString} {n m : Nat}
    (same : (key.numbered n).bytes = (other.numbered m).bytes) : key = other ∧ n = m := by
  have avoids (k : Nat) : hash ∉ decimal k := decimal_avoids k hash (by decide)
  have parts : key.bytes ++ [space] ++ hash :: decimal n =
      other.bytes ++ [space] ++ hash :: decimal m := by
    simpa [CString.numbered] using same
  have split := last_separator parts (avoids n) (avoids m)
  exact ⟨CString.ext_bytes (List.append_cancel_right split.1), decimal_injective n m split.2⟩

/-- A key that a mapping with these records has been given. -/
def Emitted (ek : List Keyrec) (key : CString) : Prop :=
  ∃ rec ∈ ek, key = rec.key ∨ ∃ n, 2 ≤ n ∧ n ≤ rec.count ∧ key = rec.key.numbered n

/-- Each key has one record, and has appeared. -/
structure Recorded (ek : List Keyrec) : Prop where
  once : (ek.map Keyrec.key).Nodup
  appeared : ∀ rec ∈ ek, 1 ≤ rec.count

def Keyrec.again (rec : Keyrec) : Keyrec :=
  { rec with count := rec.count + 1 }

theorem countKey_some (key : CString) (ek after : List Keyrec) (count : Nat)
    (counted : countKey key ek = some (count, after)) :
    ∃ front rec back, ek = front ++ rec :: back ∧ rec.key = key ∧ count = rec.count + 1 ∧
      after = front ++ rec.again :: back := by
  induction ek generalizing after with
  | nil => simp [countKey] at counted
  | cons rec ek ih =>
    by_cases same : rec.key = key
    · simp only [countKey, same, if_true] at counted
      cases counted
      exact ⟨[], rec, ek, rfl, same, rfl, by simp [Keyrec.again, same]⟩
    · simp only [countKey, if_neg same, Option.map_eq_some_iff] at counted
      obtain ⟨rest, found, pair⟩ := counted
      cases pair
      obtain ⟨front, known, back, split, isKey, isCount, replaced⟩ := ih rest.2 found
      exact ⟨rec :: front, known, back, by simp [split], isKey, isCount, by simp [replaced]⟩

theorem countKey_none (key : CString) (ek : List Keyrec) (counted : countKey key ek = none) :
    ∀ rec ∈ ek, rec.key ≠ key := by
  induction ek with
  | nil => simp
  | cons rec ek ih =>
    by_cases same : rec.key = key
    · simp [countKey, same] at counted
    · simp only [countKey, if_neg same, Option.map_eq_none_iff] at counted
      intro other member
      cases member with
      | head => exact same
      | tail _ inside => exact ih counted other inside

/-- The key can be told from those that the mapping has: with its number it fits into the buffer
and is no key that has appeared, and without a number it is no key that has been numbered. -/
def Told (ek : List Keyrec) (key : CString) : Prop :=
  match countKey key ek with
  | some (count, _) =>
      (key.numbered count).bytes.length < bufSize ∧ ∀ rec ∈ ek, rec.key ≠ key.numbered count
  | none => ∀ rec ∈ ek, ∀ n, 2 ≤ n → n ≤ rec.count → key ≠ rec.key.numbered n

theorem cut_short (size : Nat) (s : CString) (short : s.bytes.length < size) : s.cut size = s := by
  apply CString.ext_bytes
  exact List.take_of_length_le (by omega)

theorem again_emitted (front back : List Keyrec) (rec : Keyrec) (key : CString)
    (emitted : Emitted (front ++ rec :: back) key) :
    Emitted (front ++ rec.again :: back) key := by
  obtain ⟨known, member, what⟩ := emitted
  simp only [List.mem_append, List.mem_cons] at member
  by_cases here : known = rec
  · subst here
    refine ⟨known.again, by simp, ?_⟩
    cases what with
    | inl same => exact Or.inl same
    | inr numbered =>
      obtain ⟨n, two, bound, same⟩ := numbered
      exact Or.inr ⟨n, two, Nat.le_succ_of_le bound, same⟩
  · simp only [here, false_or] at member
    exact ⟨known, by simpa using member.imp_right Or.inr, what⟩

theorem again_recorded (front back : List Keyrec) (rec : Keyrec)
    (recorded : Recorded (front ++ rec :: back)) : Recorded (front ++ rec.again :: back) := by
  refine ⟨by simpa [Keyrec.again] using recorded.once, ?_⟩
  intro known member
  simp only [List.mem_append, List.mem_cons] at member
  by_cases here : known = rec.again
  · rw [here]
    exact Nat.succ_pos rec.count
  · simp only [here, false_or] at member
    exact recorded.appeared known (by simpa using member.imp_right Or.inr)

-- the key with the next number
theorem numbered_new (ek : List Keyrec) (rec : Keyrec) (recorded : Recorded ek) (inside : rec ∈ ek)
    (told : ∀ other ∈ ek, other.key ≠ rec.key.numbered (rec.count + 1)) :
    ¬Emitted ek (rec.key.numbered (rec.count + 1)) := by
  intro emitted
  obtain ⟨other, member, what⟩ := emitted
  cases what with
  | inl same => exact told other member same.symm
  | inr numbered =>
    obtain ⟨n, -, bound, same⟩ := numbered
    have equal := numbered_injective (congrArg CString.bytes same)
    have one := List.inj_on_of_nodup_map recorded.once inside member equal.1
    rw [← one, ← equal.2] at bound
    omega

theorem recorded_new (ek : List Keyrec) (key : CString) (recorded : Recorded ek)
    (absent : ∀ rec ∈ ek, rec.key ≠ key) : Recorded (ek ++ [⟨key, 1⟩]) := by
  constructor
  · rw [List.map_append, List.nodup_append]
    refine ⟨recorded.once, by simp, ?_⟩
    simpa using absent
  · intro rec member
    rcases List.mem_append.mp member with old | new
    · exact recorded.appeared rec old
    · rw [List.mem_singleton.mp new]

theorem Emitted.append {ek : List Keyrec} {key : CString} (emitted : Emitted ek key)
    (more : List Keyrec) : Emitted (ek ++ more) key := by
  obtain ⟨rec, member, what⟩ := emitted
  exact ⟨rec, List.mem_append_left more member, what⟩

/-- What y_dedup_key gives a key to, and that it is new there. -/
theorem yDedupKey_new (memory : Memory) (key ekey : CString) (m after : Jcnt)
    (recorded : Recorded m.ek) (told : Told m.ek key) (grows : memory.grow = true)
    (copies : memory.copy = true) (deduped : yDedupKey memory key m = some (ekey, after)) :
    ¬Emitted m.ek ekey ∧ Emitted after.ek ekey ∧ Recorded after.ek ∧
      ∀ other, Emitted m.ek other → Emitted after.ek other := by
  unfold yDedupKey at deduped
  unfold Told at told
  cases counted : countKey key m.ek with
  | some found =>
    obtain ⟨count, ek⟩ := found
    simp only [counted] at told deduped
    split at deduped
    · cases deduped
      obtain ⟨front, rec, back, split, isKey, isCount, replaced⟩ :=
        countKey_some key m.ek ek count counted
      rw [cut_short _ _ told.1]
      subst isKey isCount replaced
      have inside : rec ∈ m.ek := by simp [split]
      have fresh := numbered_new m.ek rec recorded inside told.2
      have two := recorded.appeared rec inside
      rw [split] at recorded
      refine ⟨fresh, ⟨rec.again, by simp, Or.inr ⟨rec.count + 1, by omega, le_rfl, rfl⟩⟩,
        again_recorded front back rec recorded, ?_⟩
      intro other emitted
      exact again_emitted front back rec other (split ▸ emitted)
    · cases deduped
  | none =>
    have absent := countKey_none key m.ek counted
    simp only [counted, grows, copies, Bool.true_eq_false, and_false, if_false] at told deduped
    cases deduped
    refine ⟨?_, ⟨⟨key, 1⟩, by simp, Or.inl rfl⟩, recorded_new m.ek key recorded absent,
      fun other emitted => emitted.append _⟩
    intro emitted
    obtain ⟨rec, member, what⟩ := emitted
    cases what with
    | inl same => exact absent rec member same.symm
    | inr numbered =>
      obtain ⟨n, two, bound, same⟩ := numbered
      exact told rec member n two bound same

/-- The records of the open containers have the keys that their mappings have in the text. The
mapping of the container at index d of the stack stands at column 2 * d. -/
def Tracked (lines : List Yaml.Line) : Jstack → Prop
  | [] => True
  | t :: below => Recorded t.ek ∧
      (∀ key ∈ Yaml.openKeys (2 * below.length) lines, ∃ known, known.bytes = key ∧
        Emitted t.ek known) ∧ Tracked lines below

theorem yAscend_tracked (lines : List Yaml.Line) (limit : Int) (jstack : Jstack)
    (tracked : Tracked lines jstack) : Tracked lines (yAscend limit jstack) := by
  induction jstack with
  | nil => exact tracked
  | cons t below ih =>
    cases below with
    | nil => exact tracked
    | cons parent below =>
      simp only [yAscend]
      split
      · exact tracked
      · exact ih tracked.2.2

theorem yResolve_tracked (lines : List Yaml.Line) (lv : Int) (isArr : Bool) (jstack : Jstack)
    (tracked : Tracked lines jstack) : Tracked lines (yResolve lv isArr jstack) := by
  cases jstack with
  | nil => exact tracked
  | cons t below =>
    obtain ⟨same, resolved, records⟩ := yResolve_cons lv isArr t below
    rw [resolved]
    simpa [Tracked, records] using tracked

/-- A line that is no entry of these containers and closes none of them. -/
theorem tracked_line (lines : List Yaml.Line) (line : Yaml.Line) (jstack : Jstack)
    (tracked : Tracked lines jstack) (inside : ∀ d < jstack.length, 2 * d ≤ line.indent)
    (elsewhere : ∀ d < jstack.length, line.content.key = none ∨ line.column ≠ 2 * d) :
    Tracked (lines ++ [line]) jstack := by
  induction jstack with
  | nil => exact tracked
  | cons t below ih =>
    have here : ¬line.indent < 2 * below.length := Nat.not_lt.mpr (inside below.length (by simp))
    refine ⟨tracked.1, ?_, ih tracked.2.2 (fun d bound => inside d (Nat.lt_succ_of_lt bound))
      fun d bound => elsewhere d (Nat.lt_succ_of_lt bound)⟩
    have same : Yaml.openKeys (2 * below.length) (lines ++ [line]) =
        Yaml.openKeys (2 * below.length) lines := by
      rw [Yaml.openKeys_append, Yaml.keysAfter, if_neg here]
      cases elsewhere below.length (by simp) with
      | inl unkeyed => simp [unkeyed]
      | inr other => simp [other]
    rw [same]
    exact tracked.2.1

-- a container that has just been opened
theorem tracked_push (lines : List Yaml.Line) (line : Yaml.Line) (jstack : Jstack) (lv : Int)
    (tracked : Tracked (lines ++ [line]) jstack) (left : line.indent < 2 * jstack.length)
    (other : line.column ≠ 2 * jstack.length) : Tracked (lines ++ [line]) (push lv jstack) := by
  unfold push
  split
  · exact tracked
  · refine ⟨⟨by simp [container], by simp [container]⟩, ?_, tracked⟩
    simp [Yaml.openKeys_append, Yaml.keysAfter, left, other]

/-- The line of a keyed call, where `m` is the mapping that gets the key. -/
theorem tracked_keyed (lines : List Yaml.Line) (line : Yaml.Line) (m after : Jcnt)
    (below : Jstack) (key ekey : CString) (memory : Memory) (tracked : Tracked lines below)
    (recorded : Recorded m.ek) (told : Told m.ek key) (grows : memory.grow = true)
    (copies : memory.copy = true) (deduped : yDedupKey memory key m = some (ekey, after))
    (column : line.column = 2 * below.length) (keyed : line.content.key = some ekey.bytes)
    (has : line.indent < line.column ∨ ∀ known ∈ Yaml.openKeys (2 * below.length) lines,
      ∃ other, other.bytes = known ∧ Emitted m.ek other) :
    (∀ known ∈ line.content.key, line.indent = line.column →
        known ∉ Yaml.openKeys line.column lines) ∧
      Tracked (lines ++ [line]) (after :: below) := by
  obtain ⟨fresh, emitted, recordedAfter, kept⟩ :=
    yDedupKey_new memory key ekey m after recorded told grows copies deduped
  have indent : line.indent ≤ line.column ∧ line.column ≤ line.indent + 2 := by
    unfold Yaml.Line.column
    split <;> omega
  constructor
  · intro known same level
    rw [keyed] at same
    cases same
    cases has with
    | inl left => omega
    | inr open' =>
      intro member
      rw [column] at member
      obtain ⟨other, equal, found⟩ := open' _ member
      exact fresh (CString.ext_bytes equal ▸ found)
  · refine ⟨recordedAfter, ?_, tracked_line lines line below tracked ?_ ?_⟩
    · intro known member
      rw [Yaml.openKeys_append, Yaml.keysAfter, column, if_pos rfl, keyed] at member
      rcases List.mem_append.mp member with old | new
      · split at old
        · simp at old
        · next level =>
          cases has with
          | inl left => omega
          | inr open' =>
            obtain ⟨other, equal, found⟩ := open' known old
            exact ⟨other, equal, kept other found⟩
      · have same : known = ekey.bytes := by simpa using new
        exact ⟨ekey, same.symm, emitted⟩
    · intro d bound
      omega
    · intro d bound
      exact Or.inr (by omega)

/-- The file and the calls that have been made for it, without the close signals. -/
structure Session where
  output : Output
  made : List Put := []

def Session.next (session : Session) (call : Put) : Option Session :=
  (resPut session.output call).map fun output =>
    ⟨output, if call.closes then session.made else session.made ++ [call]⟩

-- the key itself, or the key with a number
def Renames (key ekey : Option CString) : Prop :=
  match key with
  | none => ekey = none
  | some key => ∃ printed, ekey = some printed ∧
      (printed = key ∨ ∃ n, 2 ≤ n ∧ printed = key.numbered n)

def EntryOf (call : Put) (line : Yaml.Line) : Prop :=
  ∃ ekey, Renames call.key ekey ∧ line.content = lineContent ekey call.value

/-- No mapping of the document has a key twice, and there is one entry for each call. -/
def Session.Sound (session : Session) : Prop :=
  ∃ lines, Yaml.lines session.output.text = some lines ∧ Yaml.UniqueKeys lines ∧
    List.Forall₂ EntryOf session.made lines

/-- The allocations succeed, the wrap of the call fits on the stack, and its key can be told from
the keys of the mapping that it goes to. -/
def Distinguishes (session : Session) (call : Put) : Prop :=
  ∀ key, call.key = some key → call.memory.grow = true ∧ call.memory.copy = true ∧
    (yWraps (some key) (yAscend call.lv session.output.jstack) = true →
      (yAscend call.lv session.output.jstack).length < maxDepth - 1) ∧
    ∀ m below, yReached call.lv (some key) (yAscend call.lv session.output.jstack) = m :: below →
      Told m.ek key

structure Keeps (session : Session) (lines : List Yaml.Line) : Prop where
  yaml : session.output.outtype = .yaml
  has : session.output.HasLines lines
  unique : Yaml.UniqueKeys lines
  entries : List.Forall₂ EntryOf session.made lines
  tracked : Tracked lines session.output.jstack

theorem Keeps.sound {session : Session} {lines : List Yaml.Line} (keeps : Keeps session lines) :
    session.Sound :=
  ⟨lines, keeps.has.read, keeps.unique, keeps.entries⟩

theorem lineContent_key (ekey val : Option CString) :
    (lineContent ekey val).key = ekey.map CString.bytes := by
  cases ekey <;> cases val <;> rfl

theorem yDedupKey_renames (memory : Memory) (key ekey : CString) (m after : Jcnt)
    (recorded : Recorded m.ek) (told : Told m.ek key)
    (deduped : yDedupKey memory key m = some (ekey, after)) : Renames (some key) (some ekey) := by
  refine ⟨ekey, rfl, ?_⟩
  cases yDedupKey_ekey memory key ekey m after deduped with
  | inl same => exact Or.inl same
  | inr numbered =>
    obtain ⟨count, ek, counted, same⟩ := numbered
    simp only [Told, counted] at told
    obtain ⟨front, rec, back, split, -, isCount, -⟩ := countKey_some key m.ek ek count counted
    have appeared := recorded.appeared rec (by simp [split])
    exact Or.inr ⟨count, by omega, same.trans (cut_short _ _ told.1)⟩

theorem unkeyed_keeps (session : Session) (call : Put) (lines : List Yaml.Line)
    (keeps : Keeps session lines) (unkeyed : call.key = none) (emitted : Option Text × Jstack)
    (printed : yEmit call.memory call.lv none call.value session.output.jstack = some emitted) :
    ∃ more, Keeps ⟨{ session.output.addLine emitted.1 with jstack := emitted.2 },
      session.made ++ [call]⟩ more := by
  obtain ⟨after, line⟩ := yEmit_unkeyed _ _ _ _ _ _ printed
  have tracked := yAscend_tracked lines (call.lv + 1) session.output.jstack keeps.tracked
  rw [after, line]
  generalize yAscend (call.lv + 1) session.output.jstack = ascended at tracked
  have nokey : (lineContent none call.value).key = none := lineContent_key none call.value
  refine ⟨lines ++ [⟨2 * (ascended.length - 1), true, lineContent none call.value⟩], keeps.yaml,
    keeps.has.add _ _ _ _ (Or.inl rfl) _, ?_, ?_, ?_⟩
  · refine keeps.unique.append fun column => ?_
    apply Yaml.openKeys_fresh column lines _ (keeps.unique column lines (List.prefix_refl lines))
    simp [nokey]
  · have entry : EntryOf call ⟨2 * (ascended.length - 1), true, lineContent none call.value⟩ :=
      ⟨none, by simp [unkeyed, Renames], rfl⟩
    exact List.rel_append keeps.entries (.cons entry .nil)
  · apply yResolve_tracked
    apply tracked_line lines _ ascended tracked
    · intro d bound
      dsimp only
      omega
    · exact fun _ _ => Or.inl nokey

-- where the line of a keyed call stands, and what its mapping has so far
theorem keyed_place (lines : List Yaml.Line) (lv : Int) (key : CString) (ascended : Jstack)
    (m : Jcnt) (below : Jstack) (content : Yaml.Content) (tracked : Tracked lines ascended)
    (reached : yReached lv (some key) ascended = m :: below) :
    let line : Yaml.Line := ⟨2 * (ascended.length - 1), yWraps (some key) ascended, content⟩
    Recorded m.ek ∧ Tracked lines below ∧ line.column = 2 * below.length ∧
      (line.indent < line.column ∨ ∀ known ∈ Yaml.openKeys (2 * below.length) lines,
        ∃ other, other.bytes = known ∧ Emitted m.ek other) := by
  cases yReached_cases lv key ascended m below reached with
  | inl wrapped =>
    obtain ⟨wraps, records, same, nonempty⟩ := wrapped
    subst same
    have depth := List.length_pos_of_ne_nil nonempty
    refine ⟨records ▸ ⟨by simp, by simp⟩, tracked, ?_, Or.inl ?_⟩ <;>
      simp only [Yaml.Line.column, wraps, if_true] <;> omega
  | inr alone =>
    obtain ⟨unwrapped, t, split, records⟩ := alone
    subst split
    rw [records]
    refine ⟨tracked.1, tracked.2.2, ?_, Or.inr tracked.2.1⟩
    simp [Yaml.Line.column, unwrapped]

theorem keyed_keeps (session : Session) (call : Put) (lines : List Yaml.Line)
    (keeps : Keeps session lines) (key : CString) (keyed : call.key = some key)
    (distinguishes : Distinguishes session call) (emitted : Option Text × Jstack)
    (printed : yEmit call.memory call.lv (some key) call.value session.output.jstack =
      some emitted) :
    ∃ more, Keeps ⟨{ session.output.addLine emitted.1 with jstack := emitted.2 },
      session.made ++ [call]⟩ more := by
  obtain ⟨grows, copies, fits, tell⟩ := distinguishes key keyed
  have tracked := yAscend_tracked lines call.lv session.output.jstack keeps.tracked
  generalize ascends : yAscend call.lv session.output.jstack = ascended at tracked fits tell
  cases yEmit_keyed _ _ _ _ _ _ _ printed with
  | inl refused =>
    rw [ascends] at refused
    exact absurd (fits refused.2.2.1) (Nat.not_lt.mpr refused.2.2.2)
  | inr given =>
    rw [ascends] at given
    obtain ⟨m, below, ekey, told, reached, deduped, line, after⟩ := given
    have known := tell m below reached
    obtain ⟨recorded, outer, column, has⟩ := keyed_place lines call.lv key ascended m below
      (lineContent (some ekey) call.value) tracked reached
    rw [line, after]
    have content : (lineContent (some ekey) call.value).key = some ekey.bytes :=
      lineContent_key (some ekey) call.value
    obtain ⟨fresh, trackedAfter⟩ := tracked_keyed lines _ m told below key ekey call.memory outer
      recorded known grows copies deduped column content has
    refine ⟨lines ++ [_], keeps.yaml, keeps.has.add _ _ _ _ (Or.inr rfl) _, ?_, ?_, ?_⟩
    · refine keeps.unique.append fun column => ?_
      exact Yaml.openKeys_fresh column lines _ (keeps.unique column lines (List.prefix_refl lines))
        fresh
    · have renames := yDedupKey_renames call.memory key ekey m told recorded known deduped
      exact List.rel_append keeps.entries (.cons ⟨some ekey, keyed ▸ renames, rfl⟩ .nil)
    · dsimp only
      split
      · have indent : 2 * (ascended.length - 1) ≤ 2 * below.length := by
          rw [← column]
          exact Nat.le_add_right _ _
        apply tracked_push _ _ _ _ trackedAfter
        · simp only [List.length_cons]
          omega
        · rw [column, List.length_cons]
          omega
      · exact trackedAfter

theorem next_keeps (session : Session) (call : Put) (after : Session)
    (keeps : ∃ lines, Keeps session lines) (distinguishes : Distinguishes session call)
    (taken : session.next call = some after) : ∃ lines, Keeps after lines := by
  obtain ⟨lines, keeps⟩ := keeps
  obtain ⟨output, put, same⟩ := Option.map_eq_some_iff.mp taken
  cases same
  unfold resPut at put
  split at put
  · next closing =>
    cases put
    rw [if_pos closing]
    refine ⟨lines, ?_, ?_, keeps.unique, keeps.entries, ?_⟩ <;> simp only [hierClose, keeps.yaml]
    · exact keeps.has
    · trivial
  · next entry =>
    rw [if_neg entry]
    rw [keeps.yaml] at put
    obtain ⟨emitted, printed, same⟩ := Option.bind_eq_some_iff.mp put
    cases same
    cases keyed : call.key with
    | none => exact unkeyed_keeps session call lines keeps keyed emitted (keyed ▸ printed)
    | some key =>
      exact keyed_keeps session call lines keeps key keyed distinguishes emitted (keyed ▸ printed)

def Session.start : Session where
  output := resOpen .yaml

theorem start_keeps : Keeps Session.start [] := by
  refine ⟨rfl, Or.inl ⟨rfl, rfl, rfl⟩, Yaml.UniqueKeys.nil, .nil, ?_⟩
  refine ⟨⟨?_, ?_⟩, ?_, trivial⟩ <;> simp [Yaml.openKeys]

def keyedCall (key : Text) : Put where
  lv := 0
  key := some (.ofBytes key)
  val := some (.ofBytes [118])

-- the key `a` twice
def repeatedKey : List Put := [keyedCall [97], keyedCall [97]]

-- `a #2`, and then the key `a` twice
def numberedKey : List Put := [keyedCall [97, 32, 35, 50], keyedCall [97], keyedCall [97]]

end TsAnalyze.Report
