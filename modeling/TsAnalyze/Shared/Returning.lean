import TsAnalyze.Shared.Cursor

set_option autoImplicit false

namespace Memory

/-- A computation that may return early, with a value of its own. -/
abbrev Returning (R : Type) := ExceptT R Allocating

section Returning

variable {R A B : Type}

-- a computation that does not return early
def running (action : Allocating A) : Returning R A :=
  ExceptT.mk (action >>= fun value => pure (.ok value))

def reading (value : Option A) : Returning R A :=
  running (liftM value)

-- an allocation, and a return when it fails
def require (ret : R) : Returning R Unit :=
  ExceptT.mk (reserve >>= fun given => if given = true then pure (.ok ()) else pure (.error ret))

/-- As long as no allocation fails the computation comes to its end with this value. -/
def Goes (action : Returning R A) (value : A) : Prop :=
  Yields action.run (.ok value)

theorem goes_pure (value : A) : Goes (pure value : Returning R A) value :=
  yields_pure _

theorem goes_running {action : Allocating A} {value : A} (yields : Yields action value) :
    Goes (running action : Returning R A) value :=
  yields_bind yields (yields_pure _)

theorem goes_bind {first : Returning R A} {next : A → Returning R B} {value : A} {result : B}
    (left : Goes first value) (right : Goes (next value) result) :
    Goes (first >>= next) result :=
  yields_bind left right

theorem goes_read {value : Option A} {known : A} {next : A → Returning R B} {result : B}
    (found : value = some known) (later : Goes (next known) result) :
    Goes (reading value >>= next) result :=
  goes_bind (goes_running (yields_lift found)) later

theorem goes_require {ret : R} : Goes (require ret) () :=
  yields_allocated (yields_pure _)

theorem goes_required {ret : R} {next : Unit → Returning R B} {result : B}
    (later : Goes (next ()) result) : Goes (require ret >>= next) result :=
  goes_bind goes_require later

theorem goes_ite_true {condition : Prop} [Decidable condition] {first second : Returning R A}
    {value : A} (holds : condition) (goes : Goes first value) :
    Goes (if condition then first else second) value := by
  rwa [if_pos holds]

theorem goes_ite_false {condition : Prop} [Decidable condition] {first second : Returning R A}
    {value : A} (fails : ¬condition) (goes : Goes second value) :
    Goes (if condition then first else second) value := by
  rwa [if_neg fails]

/-- As long as no allocation fails the computation does not return early, and what it comes to
its end with satisfies this. -/
structure Ends (action : Returning R A) (post : A → Prop) : Prop where
  post : ∀ heap : Heap, heap.Available → ∀ result after, action.run heap = some (result, after) →
    after.Available ∧ ∃ value, result = .ok value ∧ post value

theorem ends_pure {value : A} {post : A → Prop} (holds : post value) :
    Ends (pure value : Returning R A) post := by
  constructor
  intro heap available result after found
  cases found
  exact ⟨available, value, rfl, holds⟩

theorem ends_failure {post : A → Prop} : Ends (running failure : Returning R A) post := by
  constructor
  intro heap available result after found
  cases found

theorem ends_lost {action : Allocating A} {post : A → Prop}
    (lost : ∀ heap : Heap, heap.Available → action heap = none) :
    Ends (running action : Returning R A) post := by
  constructor
  intro heap available result after found
  obtain ⟨middle, early, -⟩ := Option.bind_eq_some_iff.mp found
  exact absurd (early.symm.trans (lost heap available)) (by simp)

theorem ends_bind {first : Returning R A} {next : A → Returning R B} {early : A → Prop}
    {post : B → Prop} (left : Ends first early) (right : ∀ value, early value →
      Ends (next value) post) : Ends (first >>= next) post := by
  constructor
  intro heap available result after found
  obtain ⟨⟨middle, between⟩, leftFound, later⟩ := Option.bind_eq_some_iff.mp found
  obtain ⟨stillAvailable, value, rfl, holds⟩ := left.post heap available middle between leftFound
  exact (right value holds).post between stillAvailable result after later

theorem ends_reading {value : Option A} : Ends (reading value : Returning R A) (value = some ·) := by
  constructor
  intro heap available result after found
  obtain ⟨known, same, later⟩ := lift_bind found
  cases later
  exact ⟨available, known, rfl, same⟩

theorem ends_require {ret : R} : Ends (require ret) fun _ => True := by
  constructor
  intro heap available result after found
  obtain ⟨later, stillAvailable⟩ := allocated_bind available found
  cases later
  exact ⟨stillAvailable, (), rfl, trivial⟩

theorem Ends.imp {action : Returning R A} {post weaker : A → Prop} (ends : Ends action post)
    (implies : ∀ value, post value → weaker value) : Ends action weaker := by
  constructor
  intro heap available result after found
  obtain ⟨stillAvailable, value, same, holds⟩ := ends.post heap available result after found
  exact ⟨stillAvailable, value, same, implies value holds⟩

theorem ends_ite {condition : Prop} [Decidable condition] {first second : Returning R A}
    {post : A → Prop} (left : condition → Ends first post) (right : ¬condition → Ends second post) :
    Ends (if condition then first else second) post := by
  by_cases holds : condition
  · rw [if_pos holds]
    exact left holds
  · rw [if_neg holds]
    exact right holds

theorem Goes.ends {action : Returning R A} {value : A} (goes : Goes action value) :
    Ends action (· = value) := by
  constructor
  intro heap available result after found
  obtain ⟨known, same, supply⟩ := goes heap available
  cases found.symm.trans same
  exact ⟨available.of_succeeds supply, value, rfl, rfl⟩

end Returning

section Cursors

variable {R A : Type}

-- a value of the next bytes, and past them
def readAs (size : Nat) (value : Block → Option A) (cursor : Cursor) : Returning R (A × Cursor) := do
  let found ← reading (value cursor.pdata)
  pure (found, cursor.step size)

-- Items as long as the counter wants more of them; one more than there is fuel for would be
-- stored behind the last.
def cursorWhile (more : Nat → Bool) (readItem : Cursor → Returning R (A × Cursor)) :
    Nat → Cursor → Returning R (List A × Cursor)
  | 0, cursor => if more cursor.len then running failure else pure ([], cursor)
  | fuel + 1, cursor =>
      if more cursor.len then do
        let (item, cursor) ← readItem cursor
        let (items, cursor) ← cursorWhile more readItem fuel cursor
        pure (item :: items, cursor)
      else pure ([], cursor)

/-- The reader moves on past these bytes, wherever they stand, with such a value. -/
def Passes (read : Cursor → Returning R (A × Cursor)) (bytes : List UInt8) (value : A → Prop) :
    Prop :=
  ∀ (behind : Block) (len : Nat), 0 < behind.length → ∃ found, value found ∧
    Goes (read ⟨ofBytes bytes ++ behind, len⟩) (found, ⟨behind, len + bytes.length⟩)

variable {B : Type}

theorem passes_pure {result : A} {value : A → Prop} (holds : value result) :
    Passes (fun cursor => (pure (result, cursor) : Returning R (A × Cursor))) [] value :=
  fun _ _ _ => ⟨result, holds, goes_pure _⟩

theorem passes_readAs {size : Nat} {read : Block → Option A} {bytes : List UInt8}
    {value : A → Prop} (sized : bytes.length = size)
    (reads : ∀ behind, ∃ found, value found ∧ read (ofBytes bytes ++ behind) = some found) :
    Passes (readAs size read : Cursor → Returning R (A × Cursor)) bytes value := by
  intro behind len _
  obtain ⟨found, holds, same⟩ := reads behind
  refine ⟨found, holds, ?_⟩
  have moved := Cursor.step_bytes bytes behind len
  rw [← moved, sized]
  exact goes_read same (goes_pure _)

-- a reader of a fixed size that goes through wherever the memory is readable
theorem passes_fixed {size : Nat} {read : Block → Option A} {bytes : List UInt8}
    (sized : bytes.length = size)
    (reads : ∀ memory, Readable memory size → ∃ found, read memory = some found) :
    Passes (readAs size read : Cursor → Returning R (A × Cursor)) bytes fun found =>
      ∃ behind, read (ofBytes bytes ++ behind) = some found := by
  apply passes_readAs sized
  intro behind
  have readable := readable_bytes bytes behind
  rw [sized] at readable
  obtain ⟨found, same⟩ := reads (ofBytes bytes ++ behind) readable
  exact ⟨found, ⟨behind, same⟩, same⟩

theorem Passes.imp {read : Cursor → Returning R (A × Cursor)} {bytes : List UInt8}
    {value weaker : A → Prop} (passes : Passes read bytes value)
    (implies : ∀ found, value found → weaker found) : Passes read bytes weaker := by
  intro behind len more
  obtain ⟨found, holds, goes⟩ := passes behind len more
  exact ⟨found, implies found holds, goes⟩

theorem passes_bind {first : Cursor → Returning R (A × Cursor)}
    {next : A × Cursor → Returning R (B × Cursor)} {early late : List UInt8} {value : A → Prop}
    {result : B → Prop} (left : Passes first early value)
    (right : ∀ found, value found → Passes (fun cursor => next (found, cursor)) late result) :
    Passes (fun cursor => first cursor >>= next) (early ++ late) result := by
  intro behind len more
  rw [ofBytes_append, List.append_assoc, List.length_append, ← Nat.add_assoc]
  obtain ⟨found, holds, goes⟩ := left (ofBytes late ++ behind) len
    (by rw [List.length_append]; omega)
  obtain ⟨last, ends, later⟩ := right found holds behind (len + early.length) more
  exact ⟨last, ends, goes_bind goes later⟩

theorem passes_required {ret : R} {next : Cursor → Returning R (A × Cursor)} {bytes : List UInt8}
    {value : A → Prop} (later : Passes next bytes value) :
    Passes (fun cursor => require ret >>= fun _ => next cursor) bytes value := by
  intro behind len more
  obtain ⟨found, holds, goes⟩ := later behind len more
  exact ⟨found, holds, goes_required goes⟩

/-- A loop that is left exactly behind the last item. -/
theorem goes_while {S : Type} {readItem : Cursor → Returning R (A × Cursor)}
    {encode : S → List UInt8} (items : List S) {length : Nat}
    (passes : ∀ item ∈ items, Passes readItem (encode item) fun _ => True)
    (nonempty : ∀ item ∈ items, 0 < (encode item).length) (fuel len : Nat)
    (enough : items.length ≤ fuel) (total : len + (items.flatMap encode).length = length)
    (behind : Block) (more : 0 < behind.length) :
    ∃ found, Goes (cursorWhile (fun len => decide (len < length)) readItem fuel
      ⟨ofBytes (items.flatMap encode) ++ behind, len⟩) (found, ⟨behind, length⟩) := by
  induction items generalizing fuel len with
  | nil =>
    have last : len = length := by simpa using total
    refine ⟨[], ?_⟩
    cases fuel with
    | zero =>
      rw [cursorWhile]
      apply goes_ite_false (by simp [last])
      rw [← last]
      exact goes_pure _
    | succ fuel =>
      rw [cursorWhile]
      apply goes_ite_false (by simp [last])
      rw [← last]
      exact goes_pure _
  | cons item items ih =>
    obtain ⟨fuel, rfl⟩ : ∃ fewer, fuel = fewer + 1 := ⟨fuel - 1, by
      rw [List.length_cons] at enough
      omega⟩
    have size := nonempty item List.mem_cons_self
    rw [List.length_cons] at enough
    rw [List.flatMap_cons, List.length_append] at total
    rw [List.flatMap_cons, ofBytes_append, List.append_assoc]
    obtain ⟨first, -, goes⟩ := passes item List.mem_cons_self
      (ofBytes (items.flatMap encode) ++ behind) len (by rw [List.length_append]; omega)
    obtain ⟨rest, later⟩ := ih (fun other inside => passes other (List.mem_cons_of_mem item inside))
      (fun other inside => nonempty other (List.mem_cons_of_mem item inside)) fuel
      (len + (encode item).length) (by omega) (by omega)
    refine ⟨first :: rest, ?_⟩
    rw [cursorWhile]
    apply goes_ite_true (by dsimp only; rw [decide_eq_true_eq]; omega)
    apply goes_bind goes
    exact goes_bind later (goes_pure _)

theorem cursorWhile_stops {more : Nat → Bool} {readItem : Cursor → Returning R (A × Cursor)}
    (fuel : Nat) (cursor : Cursor) (enough : more cursor.len = false) :
    cursorWhile more readItem fuel cursor = pure ([], cursor) := by
  cases fuel <;> simp [cursorWhile, enough]

-- a loop that is left wants no more
theorem ends_while {more : Nat → Bool} {readItem : Cursor → Returning R (A × Cursor)}
    (ends : ∀ cursor, Ends (readItem cursor) fun _ => True) (fuel : Nat) (cursor : Cursor) :
    Ends (cursorWhile more readItem fuel cursor) fun result => more result.2.len = false := by
  induction fuel generalizing cursor with
  | zero =>
    rw [cursorWhile]
    apply ends_ite
    · exact fun _ => ends_failure
    · exact fun used => ends_pure (by simpa using used)
  | succ fuel ih =>
    rw [cursorWhile]
    apply ends_ite
    · intro _
      apply ends_bind (ends cursor)
      intro item _
      apply ends_bind (ih item.2)
      intro items used
      exact ends_pure used
    · exact fun used => ends_pure (by simpa using used)

/-- A loop that is left exactly behind the bytes has taken them apart. -/
theorem ends_pieces {readItem : Cursor → Returning R (A × Cursor)} {taken : List UInt8 → Prop}
    {length : Nat} {behind : Block}
    (ends : ∀ bytes len, Ends (readItem ⟨ofBytes bytes ++ behind, len⟩) fun result =>
      ∃ size, result.2 = (Cursor.mk (ofBytes bytes ++ behind) len).step size ∧
        (size ≤ bytes.length → taken (bytes.take size)))
    (fuel : Nat) (bytes : List UInt8) (len : Nat) (total : len + bytes.length = length) :
    Ends (cursorWhile (fun len => decide (len < length)) readItem fuel
        ⟨ofBytes bytes ++ behind, len⟩) fun result => result.2.len = length →
      ∃ pieces : List (List UInt8), (∀ piece ∈ pieces, taken piece) ∧ pieces.flatten = bytes := by
  induction fuel generalizing bytes len with
  | zero =>
    rw [cursorWhile]
    apply ends_ite
    · exact fun _ => ends_failure
    · intro used
      have last : bytes = [] := List.eq_nil_of_length_eq_zero (by simp at used; omega)
      exact ends_pure fun _ => ⟨[], by simp, last.symm⟩
  | succ fuel ih =>
    rw [cursorWhile]
    apply ends_ite
    · intro _
      apply ends_bind (ends bytes len)
      intro item read
      obtain ⟨size, moved, takes⟩ := read
      dsimp only
      rw [moved]
      by_cases inside : size ≤ bytes.length
      · have front : (Cursor.mk (ofBytes bytes ++ behind) len).step size =
            ⟨ofBytes (bytes.drop size) ++ behind, len + size⟩ := by
          rw [Cursor.step]
          dsimp only
          rw [List.drop_append_of_le_length (by rwa [ofBytes_length]), ofBytes_drop]
        rw [front]
        apply ends_bind (ih (bytes.drop size) (len + size) (by rw [List.length_drop]; omega))
        intro items apart
        apply ends_pure
        intro exact
        obtain ⟨pieces, each, same⟩ := apart exact
        refine ⟨bytes.take size :: pieces, ?_, ?_⟩
        · intro piece listed
          rcases List.mem_cons.mp listed with rfl | later
          · exact takes inside
          · exact each piece later
        · rw [List.flatten_cons, same, List.take_append_drop]
      · have past : length < len + size := by omega
        have enough : decide (len + size < length) = false := by
          rw [decide_eq_false_iff_not]
          omega
        rw [cursorWhile_stops fuel _ enough, pure_bind]
        apply ends_pure
        intro exact
        change len + size = length at exact
        omega
    · intro used
      have last : bytes = [] := List.eq_nil_of_length_eq_zero (by simp at used; omega)
      exact ends_pure fun _ => ⟨[], by simp, last.symm⟩

end Cursors

section Steps

variable {R A B : Type}

/-- The computation moves the cursor on by this size or fails; what it comes to satisfies this, and
it does not fail on readable memory where the condition holds. -/
structure Steps (action : Returning R (A × Cursor)) (cursor : Cursor) (size : Nat)
    (value : A → Prop) (condition : Prop) : Prop where
  goes : Readable cursor.pdata size → condition →
    ∃ found, value found ∧ Goes action (found, cursor.step size)
  ends : Ends action fun result => result.2 = cursor.step size ∧ value result.1 ∧ condition

variable {cursor : Cursor} {size : Nat} {value : A → Prop} {condition : Prop}

theorem ends_readAs {read : Block → Option A} :
    Ends (readAs size read cursor : Returning R (A × Cursor)) fun result =>
      result.2 = cursor.step size ∧ read cursor.pdata = some result.1 := by
  apply ends_bind ends_reading
  intro found same
  exact ends_pure ⟨rfl, same⟩

theorem steps_pure {result : A} (holds : value result) :
    Steps (pure (result, cursor) : Returning R (A × Cursor)) cursor 0 value True where
  goes _ _ := ⟨result, holds, by rw [Cursor.step_zero]; exact goes_pure _⟩
  ends := ends_pure ⟨cursor.step_zero.symm, holds, trivial⟩

theorem steps_readAs {read : Block → Option A}
    (reads : Readable cursor.pdata size → ∃ found, read cursor.pdata = some found) :
    Steps (readAs size read cursor : Returning R (A × Cursor)) cursor size
      (read cursor.pdata = some ·) True where
  goes readable _ := by
    obtain ⟨found, same⟩ := reads readable
    exact ⟨found, same, goes_read same (goes_pure _)⟩
  ends := ends_readAs.imp fun result ended => ⟨ended.1, ended.2, trivial⟩

theorem steps_bind {first : Returning R (A × Cursor)} {next : A × Cursor → Returning R (B × Cursor)}
    {late : Nat} {result : B → Prop} {after : Prop} (left : Steps first cursor size value condition)
    (right : ∀ found, value found →
      Steps (next (found, cursor.step size)) (cursor.step size) late result after) :
    Steps (first >>= next) cursor (size + late) result (condition ∧ after) where
  goes readable holds := by
    obtain ⟨found, same, goes⟩ := left.goes (readable.le (by omega)) holds.1
    have rest : Readable (cursor.step size).pdata late := by
      have dropped := readable.drop size
      rwa [Nat.add_sub_cancel_left] at dropped
    obtain ⟨last, ends, later⟩ := (right found same).goes rest holds.2
    rw [Cursor.step_step] at later
    exact ⟨last, ends, goes_bind goes later⟩
  ends := by
    apply ends_bind left.ends
    intro found read
    obtain ⟨moved, same, holds⟩ := read
    have later := (right found.1 same).ends
    rw [← moved] at later
    apply later.imp
    intro last ended
    refine ⟨?_, ended.2.1, holds, ended.2.2⟩
    rw [ended.1, moved, Cursor.step_step]

theorem steps_required {ret : R} {next : Unit → Returning R (A × Cursor)}
    (later : Steps (next ()) cursor size value condition) :
    Steps (require ret >>= next) cursor size value condition where
  goes readable holds := by
    obtain ⟨found, same, goes⟩ := later.goes readable holds
    exact ⟨found, same, goes_required goes⟩
  ends := ends_bind ends_require fun _ _ => later.ends

theorem steps_read {read : Option A} {known : A} {next : A → Returning R (B × Cursor)}
    {result : B → Prop} (found : read = some known)
    (later : Steps (next known) cursor size result condition) :
    Steps (reading read >>= next) cursor size result condition where
  goes readable holds := by
    obtain ⟨last, same, goes⟩ := later.goes readable holds
    exact ⟨last, same, goes_read found goes⟩
  ends := by
    apply ends_bind ends_reading
    intro other same
    obtain rfl := Option.some.inj (found.symm.trans same)
    exact later.ends

-- an assertion
theorem steps_guard {allowed : Prop} [Decidable allowed] {next : Returning R (A × Cursor)}
    (later : Steps next cursor size value condition) :
    Steps (if allowed then next else running failure) cursor size value (allowed ∧ condition) where
  goes readable holds := by
    obtain ⟨found, same, goes⟩ := later.goes readable holds.2
    exact ⟨found, same, goes_ite_true holds.1 goes⟩
  ends := by
    apply ends_ite
    · intro holds
      exact later.ends.imp fun result ended => ⟨ended.1, ended.2.1, holds, ended.2.2⟩
    · exact fun _ => ends_failure

theorem Steps.imp {action : Returning R (A × Cursor)} {weaker : A → Prop}
    (steps : Steps action cursor size value condition)
    (implies : ∀ found, value found → weaker found) :
    Steps action cursor size weaker condition where
  goes readable holds := by
    obtain ⟨found, known, goes⟩ := steps.goes readable holds
    exact ⟨found, implies found known, goes⟩
  ends := steps.ends.imp fun result ended => ⟨ended.1, implies result.1 ended.2.1, ended.2.2⟩

theorem Steps.iff {action : Returning R (A × Cursor)} {other : Prop}
    (steps : Steps action cursor size value condition) (same : condition ↔ other) :
    Steps action cursor size value other := by
  rwa [← same]

theorem Steps.passes {read : Cursor → Returning R (A × Cursor)} {bytes : List UInt8}
    (steps : ∀ behind len, Steps (read ⟨ofBytes bytes ++ behind, len⟩)
      ⟨ofBytes bytes ++ behind, len⟩ bytes.length value condition) (holds : condition) :
    Passes read bytes value := by
  intro behind len _
  obtain ⟨found, same, goes⟩ := (steps behind len).goes (readable_bytes bytes behind) holds
  rw [Cursor.step_bytes] at goes
  exact ⟨found, same, goes⟩

end Steps

end Memory
