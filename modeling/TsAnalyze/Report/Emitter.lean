import TsAnalyze.Shared.Quoted

set_option autoImplicit false

namespace TsAnalyze.Report

open Quoted

abbrev Text := List UInt8

/-- The bytes in front of the terminator. -/
structure CString where
  bytes : Text
  terminated : 0 ∉ bytes
deriving DecidableEq

-- the string in an array of bytes
def CString.ofBytes (bytes : Text) : CString where
  bytes := bytes.takeWhile fun b => b ≠ 0
  terminated := fun member => by simpa using List.mem_takeWhile_imp member

def lineLen : Nat := 512

def maxDepth : Nat := 32

def intMax : Nat := 2147483647

-- vsnprintf into a buffer of `size` bytes
def CString.cut (size : Nat) (s : CString) : CString where
  bytes := s.bytes.take (size - 1)
  terminated := fun member => s.terminated (List.mem_of_mem_take member)

structure Keyrec where
  key : CString
  count : Nat

structure Jcnt where
  lv : Int
  childLv : Int
  close : UInt8
  hasChild : Bool
  -- the first `nk` key records
  ek : List Keyrec := []
  ck : Nat := 0

-- The containers that are open, innermost first: `jdepth` is their number. An entry above them
-- is never read before it is written, and its key records have been freed.
abbrev Jstack := List Jcnt

def writeIndent (n : Nat) : Text :=
  List.replicate n space

def hexDigit (n : UInt8) : UInt8 :=
  if n < 10 then 48 + n else 87 + n

def escaped (c : UInt8) : Text :=
  if c = quote then [backslash, quote]
  else if c = backslash then [backslash, backslash]
  else if c = newline then [backslash, 110]
  else if c = carriage then [backslash, 114]
  else if c = tab then [backslash, 116]
  else if c < 0x20 then [backslash, letterU, 48, 48, hexDigit (c / 16), hexDigit (c % 16)]
  else [c]

def jWriteEscaped (s : CString) : Text :=
  s.bytes.flatMap escaped

def writeQuoted (s : CString) : Text :=
  quote :: jWriteEscaped s ++ [quote]

theorem hexDigit_value (n : UInt8) (small : n < 16) : hexValue (hexDigit n) = some n.toNat := by
  have each : ∀ digit : Fin 16, hexValue (hexDigit (UInt8.ofNat digit)) = some digit := by decide
  have given := each ⟨n.toNat, small⟩
  simpa using given

theorem digits_small (c : UInt8) : c / 16 < 16 ∧ c % 16 < 16 := by
  constructor
  · rw [UInt8.lt_iff_toNat_lt, UInt8.toNat_div]
    exact Nat.div_lt_of_lt_mul c.toNat_lt
  · exact UInt8.mod_lt c (by decide)

theorem hexDigit_values (c : UInt8) : hexValue (hexDigit (c / 16)) = some (c.toNat / 16) ∧
    hexValue (hexDigit (c % 16)) = some (c.toNat % 16) := by
  obtain ⟨high, low⟩ := digits_small c
  rw [hexDigit_value _ high, hexDigit_value _ low, UInt8.toNat_div, UInt8.toNat_mod]
  exact ⟨rfl, rfl⟩

theorem escape_scans (read : List UInt8) (b c : UInt8) (known : unescape b = some c)
    (plain : b ≠ letterU) : Scans (.inside read) [backslash, b] [] (.inside (read ++ [c])) := by
  have opened : step (.inside read) backslash = some (.escape read, []) := rfl
  have stepped : step (.escape read) b = some (.inside (read ++ [c]), []) := by
    simp [step, plain, known]
  exact Scans.cons opened (Scans.byte stepped)

theorem unicode_scans (read : List UInt8) (c : UInt8) (control : c < 0x20) :
    Scans (.inside read)
      [backslash, letterU, 48, 48, hexDigit (c / 16), hexDigit (c % 16)] []
      (.inside (read ++ [c])) := by
  have small : c.toNat < 32 := control
  have opened : step (.inside read) backslash = some (.escape read, []) := rfl
  have coded : step (.escape read) letterU = some (.unicode read 0 0, []) := rfl
  have first : step (.unicode read 0 0) 48 = some (.unicode read 1 0, []) := rfl
  have second : step (.unicode read 1 0) 48 = some (.unicode read 2 0, []) := rfl
  obtain ⟨highValue, lowValue⟩ := hexDigit_values c
  have third : step (.unicode read 2 0) (hexDigit (c / 16)) =
      some (.unicode read 3 (c.toNat / 16), []) := by
    simp [step, highValue]
  have whole : 16 * (c.toNat / 16) + c.toNat % 16 = c.toNat := Nat.div_add_mod c.toNat 16
  have fourth : step (.unicode read 3 (c.toNat / 16)) (hexDigit (c % 16)) =
      some (.inside (read ++ [c]), []) := by
    have oneByte : c.toNat < 128 := by omega
    simp only [step, lowValue, Option.bind_some, whole, oneByte, UInt8.ofNat_toNat, lt_irrefl,
      if_false, if_true]
  exact Scans.cons opened (Scans.cons coded (Scans.cons first (Scans.cons second
    (Scans.cons third (Scans.byte fourth)))))

theorem escaped_encodes (c : UInt8) : Encodes escaped c := by
  intro read
  unfold escaped
  split
  · next same => exact same ▸ escape_scans read quote quote rfl (by decide)
  · next notQuote =>
    split
    · next same => exact same ▸ escape_scans read backslash backslash rfl (by decide)
    · next notBackslash =>
      split
      · next same => exact same ▸ escape_scans read 110 newline rfl (by decide)
      · split
        · next same => exact same ▸ escape_scans read 114 carriage rfl (by decide)
        · split
          · next same => exact same ▸ escape_scans read 116 tab rfl (by decide)
          · split
            · next control => exact unicode_scans read c control
            · next plain =>
              apply Scans.byte
              simp [step, notQuote, notBackslash, plain]

theorem writeQuoted_scans (s : CString) :
    Scans .outside (writeQuoted s) [.str s.bytes] .outside :=
  Scans.string s.bytes fun b _ => escaped_encodes b

-- lv + 1 must be an int
def minClose (lv : Int) (isArrayElement : Bool) : Option Int :=
  if isArrayElement then (if lv < intMax then some (lv + 1) else none) else some lv

-- what closes the innermost container of a stack of `jdepth`
def closing (jdepth : Nat) (t : Jcnt) : Text :=
  newline :: writeIndent (2 * (jdepth - 1)) ++
    if t.childLv < 0 then [openBracket, closeBracket] else [t.close]

-- The first step of j_prelude, down to the root at most.
def jAscend (limit : Int) : Jstack → Text × Jstack
  | t :: parent :: below =>
      if t.lv < limit then ([], t :: parent :: below)
      else
        let ascended := jAscend limit (parent :: below)
        (closing (below.length + 2) t ++ ascended.1, ascended.2)
  | jstack => ([], jstack)

def separator (jdepth : Nat) (parent : Jcnt) : Text :=
  (if parent.hasChild then [comma] else []) ++ newline :: writeIndent (2 * (jdepth - 1))

def container (lv : Int) : Jcnt where
  lv := lv
  childLv := -1
  close := 0
  hasChild := false

def wrapper (lv : Int) : Jcnt where
  lv := lv
  childLv := lv
  close := closeBrace
  hasChild := false

-- Step 1b, which does not look whether the stack is full.
def jWrap (lv : Int) (isArrayElement : Bool) (jstack : Jstack) : Option (Text × Jstack) :=
  match jstack with
  | [] => some ([], [])
  | arr :: below =>
      if isArrayElement = false ∧ arr.close = closeBracket then
        if below.length + 1 < maxDepth then
          some (separator (below.length + 1) arr ++ [openBrace],
            wrapper lv :: { arr with hasChild := true } :: below)
        else none
      else some ([], arr :: below)

def resolved (lv : Int) (isArrayElement : Bool) (t : Jcnt) : Jcnt :=
  { t with
    childLv := lv
    close := if isArrayElement then closeBracket else closeBrace
    hasChild := false }

def jResolve (lv : Int) (isArrayElement : Bool) : Jstack → Text × Jstack
  | t :: parent :: below =>
      if t.childLv < 0 then
        ([if isArrayElement then openBracket else openBrace],
          resolved lv isArrayElement t :: parent :: below)
      else ([], t :: parent :: below)
  | jstack => ([], jstack)

-- the comma and the indentation, for which there must be a parent
def jChild : Jstack → Option (Text × Jstack)
  | [] => none
  | parent :: below =>
      some (separator (below.length + 1) parent, { parent with hasChild := true } :: below)

def jPrelude (lv : Int) (isArrayElement : Bool) (jstack : Jstack) : Option (Text × Jstack) := do
  let limit ← minClose lv isArrayElement
  let ascended := jAscend limit jstack
  let wrapped ← jWrap lv isArrayElement ascended.2
  let resolved := jResolve lv isArrayElement wrapped.2
  let child ← jChild resolved.2
  return (ascended.1 ++ wrapped.1 ++ resolved.1 ++ child.1, child.2)

def writeKey (key : Option CString) : Text :=
  match key with
  | none => []
  | some key => writeQuoted key ++ [colon]

-- a new container, unless the stack is full
def push (lv : Int) (jstack : Jstack) : Jstack :=
  if jstack.length ≥ maxDepth then jstack else container lv :: jstack

def jEmit (lv : Int) (key val : Option CString) (jstack : Jstack) : Option (Text × Jstack) :=
  match key, val with
  | none, none => some ([], jstack)
  | some key, none => do
      let prelude ← jPrelude lv false jstack
      return (prelude.1 ++ writeKey key, push lv prelude.2)
  | key, some val => do
      let prelude ← jPrelude lv key.isNone jstack
      return (prelude.1 ++ writeKey key ++ writeQuoted val, prelude.2)

theorem jEmit_value (lv : Int) (key : Option CString) (val : CString) (jstack : Jstack) :
    jEmit lv key (some val) jstack = (jPrelude lv key.isNone jstack).bind fun prelude =>
      some (prelude.1 ++ writeKey key ++ writeQuoted val, prelude.2) := by
  cases key <;> rfl

theorem jEmit_open (lv : Int) (key : CString) (jstack : Jstack) :
    jEmit lv (some key) none jstack = (jPrelude lv false jstack).bind fun prelude =>
      some (prelude.1 ++ writeKey (some key), push lv prelude.2) := rfl

/-- Whether the allocations of y_dedup_key succeed. -/
structure Memory where
  grow : Bool := true
  copy : Bool := true

def decimal (n : Nat) : Text :=
  (Nat.toDigits 10 n).map Char.toUInt8

theorem digit_byte (digit : Char) (decimal : digit.isDigit = true) :
    digit.toUInt8.toNat = digit.toNat ∧ 48 ≤ digit.toNat ∧ digit.toNat ≤ 57 := by
  have bounds : 48 ≤ digit.toNat ∧ digit.toNat ≤ 57 := by
    simpa [Char.isDigit, UInt32.le_iff_toNat_le] using decimal
  refine ⟨?_, bounds⟩
  rw [Char.toUInt8, UInt32.toNat_toUInt8]
  exact Nat.mod_eq_of_lt (by change digit.toNat < 256; omega)

theorem decimal_range (n : Nat) (b : UInt8) (member : b ∈ decimal n) :
    48 ≤ b.toNat ∧ b.toNat ≤ 57 := by
  obtain ⟨digit, inside, rfl⟩ := List.mem_map.mp member
  have known := Nat.isDigit_of_mem_toDigits (by decide) (by decide) inside
  have byte := digit_byte digit known
  omega

theorem decimal_avoids (n : Nat) (b : UInt8) (other : b.toNat < 48) : b ∉ decimal n := by
  intro member
  have range := decimal_range n b member
  omega

def hash : UInt8 := 35

-- what snprintf makes of "%s #%d"
def CString.numbered (key : CString) (count : Nat) : CString where
  bytes := key.bytes ++ space :: hash :: decimal count
  terminated := by
    have digits := decimal_avoids count 0 (by decide)
    simp [key.terminated, digits, space, hash]

-- the loop over the records: the new count of the key, if it has been recorded
def countKey (key : CString) : List Keyrec → Option (Nat × List Keyrec)
  | [] => none
  | rec :: rest =>
      if rec.key = key then some (rec.count + 1, { rec with count := rec.count + 1 } :: rest)
      else (countKey key rest).map fun counted => (counted.1, rec :: counted.2)

def bufSize : Nat := 64

def yDedupKey (memory : Memory) (key : CString) (m : Jcnt) : Option (CString × Jcnt) :=
  match countKey key m.ek with
  | some (count, ek) =>
      -- the count is an int
      if count ≤ intMax then some ((key.numbered count).cut bufSize, { m with ek := ek }) else none
  | none =>
      if m.ek.length ≥ m.ck ∧ memory.grow = false then some (key, m)
      else
        let ck := if m.ek.length ≥ m.ck then (if m.ck ≠ 0 then m.ck * 2 else 8) else m.ck
        if memory.copy = false then some (key, { m with ck := ck })
        else some (key, { m with ek := m.ek ++ [⟨key, 1⟩], ck := ck })

-- the first step of y_emit: like the one of j_prelude, with nothing printed
def yAscend (limit : Int) : Jstack → Jstack
  | t :: parent :: below =>
      if t.lv < limit then t :: parent :: below else yAscend limit (parent :: below)
  | jstack => jstack

def yWraps (key : Option CString) (jstack : Jstack) : Bool :=
  match jstack with
  | [] => false
  | arr :: _ => arr.close == closeBracket && key.isSome

def yResolve (lv : Int) (isArr : Bool) : Jstack → Jstack
  | t :: parent :: below =>
      if t.childLv < 0 then resolved lv isArr t :: parent :: below else t :: parent :: below
  | jstack => jstack

-- the key as it is printed, which there must be a parent for
def yKey (memory : Memory) (key : Option CString) (jstack : Jstack) :
    Option (Option CString × Jstack) :=
  match key, jstack with
  | none, jstack => some (none, jstack)
  | some _, [] => none
  | some key, parent :: below =>
      (yDedupKey memory key parent).map fun deduped => (some deduped.1, deduped.2 :: below)

-- `ekey` is the key as it is printed
def yLine (indent : Nat) (dashed : Bool) (ekey val : Option CString) : Text :=
  writeIndent indent ++ (if dashed then [dash, space] else []) ++ writeKey ekey ++
    match val with
    | none => []
    | some val => (if ekey.isSome then [space] else []) ++ writeQuoted val

/-- The line that is printed, which there is none of where the wrap does not fit. -/
def yEmit (memory : Memory) (lv : Int) (key val : Option CString) (jstack : Jstack) :
    Option (Option Text × Jstack) := do
  let limit ← minClose lv key.isNone
  let ascended := yAscend limit jstack
  let indent := 2 * (ascended.length - 1)
  let wrap := yWraps key ascended
  if wrap ∧ ascended.length ≥ maxDepth - 1 then return (none, ascended)
  let wrapped := if wrap then wrapper lv :: ascended else ascended
  let keyed ← yKey memory key (yResolve lv key.isNone wrapped)
  let line := yLine indent (key.isNone || wrap) keyed.1 val
  return (some line, if key.isSome ∧ val = none then push lv keyed.2 else keyed.2)

/-- The output types of is_hier. -/
inductive Hier
  | json
  | yaml
  | html
deriving DecidableEq

def Hier.rootClose : Hier → UInt8
  | .html => closeBracket
  | _ => closeBrace

/-- A call of res_put: `val` is the format with its arguments put in. -/
structure Put where
  lv : Int
  key : Option CString
  val : Option CString
  memory : Memory := {}

-- the signal of res_close
def Put.closes (call : Put) : Prop :=
  call.lv = 0 ∧ call.key = none ∧ call.val = none

instance (call : Put) : Decidable call.closes :=
  inferInstanceAs (Decidable (_ ∧ _ ∧ _))

def closeSignal : Put where
  lv := 0
  key := none
  val := none

def Put.value (call : Put) : Option CString :=
  call.val.map (CString.cut lineLen)

/-- The file with what has been printed so far. HTML is what stands between head and foot. -/
structure Output where
  outtype : Hier
  jstack : Jstack
  yfirst : Bool
  text : Text

def resInitRoot (outtype : Hier) : Jstack :=
  [{ lv := -1, childLv := 0, close := outtype.rootClose, hasChild := false }]

def resOpen (outtype : Hier) : Output where
  outtype := outtype
  jstack := resInitRoot outtype
  yfirst := true
  text :=
    match outtype with
    | .json => [openBrace]
    | .html => [openBracket]
    | .yaml => []

-- every container but the root
def closeAll : Jstack → Text
  | t :: parent :: below => closing (below.length + 2) t ++ closeAll (parent :: below)
  | _ => []

def hierClose (output : Output) : Output :=
  match output.outtype with
  | .yaml => { output with jstack := [] }
  | outtype =>
      { output with
        jstack := []
        text := output.text ++ closeAll output.jstack ++ [newline, outtype.rootClose, newline] }

-- the line begins with a newline unless it is the first
def Output.addLine (output : Output) (line : Option Text) : Output :=
  match line with
  | none => output
  | some line =>
      { output with
        yfirst := false
        text := output.text ++ (if output.yfirst then [] else [newline]) ++ line }

def resPut (output : Output) (call : Put) : Option Output :=
  if call.closes then some (hierClose output)
  else
    match output.outtype with
    | .yaml => do
        let emitted ← yEmit call.memory call.lv call.key call.value output.jstack
        return { output.addLine emitted.1 with jstack := emitted.2 }
    | _ => do
        let emitted ← jEmit call.lv call.key call.value output.jstack
        return { output with jstack := emitted.2, text := output.text ++ emitted.1 }

/-- What the calls print into a new file. -/
def printed (outtype : Hier) (calls : List Put) : Option Output :=
  calls.foldlM resPut (resOpen outtype)

end TsAnalyze.Report
