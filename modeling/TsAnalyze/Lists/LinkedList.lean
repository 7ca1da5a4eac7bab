import TsAnalyze.Shared.Rings

set_option autoImplicit false

namespace TsAnalyze.Lists

open Rings

-- `list_check` is off without LIST_DEBUG, so the list_head that is only checked is left out
abbrev Linking (N : Type) := StateT (Links N) Option

section Access

variable {N : Type} [DecidableEq N] (valid : N → Bool)

-- a pointer to memory that is not there is neither read nor written through
def readNext (n : N) : Linking N N := fun links =>
  if valid n then some (links.next n, links) else none

def readPrev (n : N) : Linking N N := fun links =>
  if valid n then some (links.prev n, links) else none

def writeNext (n target : N) : Linking N Unit := fun links =>
  if valid n then some ((), { links with next := Function.update links.next n target }) else none

def writePrev (n target : N) : Linking N Unit := fun links =>
  if valid n then some ((), { links with prev := Function.update links.prev n target }) else none

def listHeadInit (h : N) : Linking N Unit := do
  writePrev valid h h
  writeNext valid h h

def listNodeInit (n : N) : Linking N Unit := do
  writePrev valid n n
  writeNext valid n n

def listAddAfter (p n : N) : Linking N Unit := do
  let after ← readNext valid p
  writeNext valid n after
  writePrev valid n p
  let after ← readNext valid p
  writePrev valid after n
  writeNext valid p n

def listAdd (h n : N) : Linking N Unit :=
  listAddAfter valid h n

def listAddBefore (p n : N) : Linking N Unit := do
  writeNext valid n p
  let before ← readPrev valid p
  writePrev valid n before
  let before ← readPrev valid p
  writeNext valid before n
  writePrev valid p n

def listAddTail (h n : N) : Linking N Unit :=
  listAddBefore valid h n

def listEmpty (h : N) : Linking N Bool := do
  let first ← readNext valid h
  return first = h

def listDel (n : N) : Linking N Unit := do
  let after ← readNext valid n
  let before ← readPrev valid n
  writePrev valid after before
  let before ← readPrev valid n
  let after ← readNext valid n
  writeNext valid before after

def listDelInit (n : N) : Linking N Unit := do
  listDel valid n
  listNodeInit valid n

def listDelFrom (h n : N) : Linking N Unit := do
  let empty ← listEmpty valid h
  -- assert(!list_empty(h))
  if empty then failure else listDel valid n

def listSwap (o n : N) : Linking N Unit := do
  let after ← readNext valid o
  writeNext valid n after
  let before ← readPrev valid o
  writePrev valid n before
  let after ← readNext valid n
  writePrev valid after n
  let before ← readPrev valid n
  writeNext valid before n

-- the entry of a node is the node here; `none` is NULL
def listTop (h : N) : Linking N (Option N) := do
  let empty ← listEmpty valid h
  if empty then return none
  else
    let first ← readNext valid h
    return some first

def listPop (h : N) : Linking N (Option N) := do
  let empty ← listEmpty valid h
  if empty then return none
  else
    let n ← readNext valid h
    listDel valid n
    return some n

def listTail (h : N) : Linking N (Option N) := do
  let empty ← listEmpty valid h
  if empty then return none
  else
    let last ← readPrev valid h
    return some last

def listEntryOrNull (h n : N) : Option N :=
  if n = h then none else some n

def listNext (h i : N) : Linking N (Option N) := do
  let n ← readNext valid i
  return listEntryOrNull h n

def listPrev (h i : N) : Linking N (Option N) := do
  let n ← readPrev valid i
  return listEntryOrNull h n

def listAppendList (t f : N) : Linking N Unit := do
  let fromTail ← readPrev valid f
  let toTail ← readPrev valid t
  writePrev valid t fromTail
  writeNext valid fromTail t
  writeNext valid toTail f
  writePrev valid f toTail
  listDel valid f
  listHeadInit valid f

def listPrependList (t f : N) : Linking N Unit := do
  let fromTail ← readPrev valid f
  let toHead ← readNext valid t
  writeNext valid t f
  writePrev valid f t
  writePrev valid toHead fromTail
  writeNext valid fromTail toHead
  listDel valid f
  listHeadInit valid f

-- the member that a loop follows: list_for_each or list_for_each_rev
inductive Dir
  | next
  | prev

def follow : Dir → N → Linking N N
  | .next => readNext valid
  | .prev => readPrev valid

-- The entries that the loop hands to its body; a turn is spent on each of them.
def listForEachOff (h : N) (dir : Dir) : Nat → N → Linking N (List N)
  | 0, i => if i = h then return [] else failure
  | turns + 1, i =>
      if i = h then return []
      else do
        let further ← follow valid dir i
        let rest ← listForEachOff h dir turns further
        return i :: rest

def listForEach (h : N) (dir : Dir) (turns : Nat) : Linking N (List N) := do
  let i ← follow valid dir h
  listForEachOff valid h dir turns i

end Access

section Effects

variable {N : Type} [DecidableEq N] {valid : N → Bool} (links : Links N)

omit [DecidableEq N] in
theorem readNext_eq {n : N} (there : valid n = true) :
    readNext valid n links = some (links.next n, links) := by
  rw [readNext, if_pos there]

omit [DecidableEq N] in
theorem readPrev_eq {n : N} (there : valid n = true) :
    readPrev valid n links = some (links.prev n, links) := by
  rw [readPrev, if_pos there]

theorem writeNext_eq {n : N} (there : valid n = true) (target : N) :
    writeNext valid n target links =
      some ((), { links with next := Function.update links.next n target }) := by
  rw [writeNext, if_pos there]

theorem writePrev_eq {n : N} (there : valid n = true) (target : N) :
    writePrev valid n target links =
      some ((), { links with prev := Function.update links.prev n target }) := by
  rw [writePrev, if_pos there]

omit [DecidableEq N] in
theorem state_bind {S A B : Type} {first : StateT S Option A} {next : A → StateT S Option B}
    {value : A} {state middle : S} (found : first state = some (value, middle)) :
    (first >>= next) state = next value middle := by
  change (first state).bind _ = _
  rw [found]
  rfl

omit [DecidableEq N] in
theorem state_none {S A B : Type} {first : StateT S Option A} {next : A → StateT S Option B}
    {state : S} (failed : first state = none) : (first >>= next) state = none := by
  change (first state).bind _ = _
  rw [failed]
  rfl

theorem listHeadInit_eq {h : N} (there : valid h = true) :
    listHeadInit valid h links = some ((), alone links h) := by
  rw [listHeadInit, state_bind (writePrev_eq links there h), writeNext_eq _ there]
  rfl

theorem listNodeInit_eq {n : N} (there : valid n = true) :
    listNodeInit valid n links = some ((), alone links n) :=
  listHeadInit_eq links there

theorem listAddAfter_eq {p n : N} (place : valid p = true) (there : valid n = true)
    (after : valid (links.next p) = true) (different : n ≠ p) :
    listAddAfter valid p n links = some ((), insertAfter links p n) := by
  rw [listAddAfter, state_bind (readNext_eq links place), state_bind (writeNext_eq _ there _),
    state_bind (writePrev_eq _ there _), state_bind (readNext_eq _ place)]
  simp only [Function.update_of_ne different.symm]
  rw [state_bind (writePrev_eq _ after _), writeNext_eq _ place]
  simp [insertAfter, exchange, alone, different.symm, Function.update_comm different]

theorem listAddBefore_eq {p n : N} (place : valid p = true) (there : valid n = true)
    (before : valid (links.prev p) = true) (different : n ≠ p) :
    listAddBefore valid p n links = some ((), insertBefore links p n) := by
  rw [listAddBefore, state_bind (writeNext_eq links there _), state_bind (readPrev_eq _ place),
    state_bind (writePrev_eq _ there _), state_bind (readPrev_eq _ place)]
  simp only [Function.update_of_ne different.symm]
  rw [state_bind (writeNext_eq _ before _), writePrev_eq _ place]
  simp [insertBefore, insertAfter, exchange, alone, Links.flip, different.symm,
    Function.update_comm different]

theorem listDel_eq {n : N} (there : valid n = true) (after : valid (links.next n) = true)
    (before : valid (links.prev n) = true) :
    listDel valid n links = some ((), unlink links n) := by
  have kept : Function.update links.prev (links.next n) (links.prev n) n = links.prev n := by
    by_cases same : n = links.next n
    · rw [← same, Function.update_self]
    · rw [Function.update_of_ne same]
  rw [listDel, state_bind (readNext_eq links there), state_bind (readPrev_eq _ there),
    state_bind (writePrev_eq _ after _), state_bind (readPrev_eq _ there),
    state_bind (readNext_eq _ there)]
  simp only [kept]
  rw [writeNext_eq _ before]
  rfl

theorem listDelInit_eq {n : N} (there : valid n = true) (after : valid (links.next n) = true)
    (before : valid (links.prev n) = true) :
    listDelInit valid n links = some ((), alone (unlink links n) n) := by
  rw [listDelInit, state_bind (listDel_eq links there after before), listNodeInit_eq _ there]

theorem listEmpty_eq {h : N} (there : valid h = true) :
    listEmpty valid h links = some (decide (links.next h = h), links) := by
  rw [listEmpty, state_bind (readNext_eq links there)]
  rfl

theorem listDelFrom_eq {h n : N} (head : valid h = true) (there : valid n = true)
    (after : valid (links.next n) = true) (before : valid (links.prev n) = true)
    (full : links.next h ≠ h) :
    listDelFrom valid h n links = some ((), unlink links n) := by
  rw [listDelFrom, state_bind (listEmpty_eq links head)]
  simpa [full] using listDel_eq links there after before

theorem listSwap_eq {o n : N} (old : valid o = true) (there : valid n = true)
    (after : valid (links.next o) = true) (before : valid (links.prev o) = true)
    (apart : links.next o ≠ n) :
    listSwap valid o n links = some ((), replace links o n) := by
  rw [listSwap, state_bind (readNext_eq links old), state_bind (writeNext_eq _ there _),
    state_bind (readPrev_eq _ old), state_bind (writePrev_eq _ there _),
    state_bind (readNext_eq _ there)]
  simp only [Function.update_self]
  rw [state_bind (writePrev_eq _ after _), state_bind (readPrev_eq _ there)]
  simp only [Function.update_of_ne apart.symm, Function.update_self]
  rw [writeNext_eq _ before]
  rfl

-- the last three statements of list_append_list and list_prepend_list: the head is taken out
theorem dropHead_eq {f : N} (source : valid f = true) (after : valid (links.next f) = true)
    (before : valid (links.prev f) = true) :
    (do listDel valid f; listHeadInit valid f) links = some ((), alone (unlink links f) f) := by
  rw [state_bind (listDel_eq links source after before), listHeadInit_eq _ source]

theorem listAppendList_eq {t f : N} (target : valid t = true) (source : valid f = true)
    (targetTail : valid (links.prev t) = true) (sourceTail : valid (links.prev f) = true)
    (targetLinked : links.next (links.prev t) = t) (sourceLinked : links.next (links.prev f) = f)
    (apart : t ≠ f) (joined : Links N)
    (spliced : joined = exchange links (links.prev t) (links.prev f))
    (after : valid (joined.next f) = true) (before : valid (joined.prev f) = true) :
    listAppendList valid t f links = some ((), alone (unlink joined f) f) := by
  have tails : links.prev t ≠ links.prev f := by
    intro same
    rw [same, sourceLinked] at targetLinked
    exact apart targetLinked.symm
  rw [listAppendList, state_bind (readPrev_eq links source), state_bind (readPrev_eq _ target),
    state_bind (writePrev_eq _ target _), state_bind (writeNext_eq _ sourceTail _),
    state_bind (writeNext_eq _ targetTail _), state_bind (writePrev_eq _ source _)]
  rw [← dropHead_eq joined source after before, spliced]
  simp only [exchange, targetLinked, sourceLinked, Function.update_comm tails,
    Function.update_comm apart]

theorem listPrependList_eq {t f : N} (target : valid t = true) (source : valid f = true)
    (targetHead : valid (links.next t) = true) (sourceTail : valid (links.prev f) = true)
    (sourceLinked : links.next (links.prev f) = f) (joined : Links N)
    (spliced : joined = exchange links t (links.prev f))
    (after : valid (joined.next f) = true) (before : valid (joined.prev f) = true) :
    listPrependList valid t f links = some ((), alone (unlink joined f) f) := by
  rw [listPrependList, state_bind (readPrev_eq links source), state_bind (readNext_eq _ target),
    state_bind (writeNext_eq _ target _), state_bind (writePrev_eq _ source _),
    state_bind (writePrev_eq _ targetHead _), state_bind (writeNext_eq _ sourceTail _)]
  rw [← dropHead_eq joined source after before, spliced]
  simp only [exchange, sourceLinked]

end Effects

end TsAnalyze.Lists
