import TsAnalyze.Shared.Encoding
import TsAnalyze.Shared.Yields

set_option autoImplicit false

namespace Memory

section Loops

variable {E : Type}

-- a counted loop over items, each with the bytes that it moves on by, and what stands behind them
def countedLoop (readItem : Block → Allocating (E × Nat)) :
    Nat → Block → Allocating (List E × Block)
  | 0, pdata => pure ([], pdata)
  | count + 1, pdata => do
      let (item, advance) ← readItem pdata
      let (items, rest) ← countedLoop readItem count (pdata.drop advance)
      pure (item :: items, rest)

/-- A value as far as memory lasted for its parts, with the bytes that it was read from. -/
structure Filled (E : Type) where
  value : E
  size : Nat
  complete : Bool

-- Once an element is short of memory the rest of the array stays as it was allocated.
def fillLoop (zero : E) (readElement : Block → Allocating (Filled E)) :
    Nat → Block → Allocating (Filled (List E))
  | 0, _ => pure ⟨[], 0, true⟩
  | count + 1, pdata => do
      let first ← readElement pdata
      if first.complete then
        let rest ← fillLoop zero readElement count (pdata.drop first.size)
        pure ⟨first.value :: rest.value, first.size + rest.size, rest.complete⟩
      else pure ⟨first.value :: List.replicate count zero, first.size, false⟩

theorem fillLoop_plain (zero : E) (readElement : Block → Allocating (Filled E))
    (plain : ∀ pdata, Plain (readElement pdata)) (count : Nat) (pdata : Block) :
    Plain (fillLoop zero readElement count pdata) := by
  induction count generalizing pdata with
  | zero => exact plain_pure _
  | succ count ih =>
    apply plain_bind _ _ (plain pdata)
    intro first
    apply plain_ite
    · apply plain_bind _ _ (ih _)
      intro rest
      exact plain_pure _
    · exact plain_pure _

end Loops

section Items

variable {S E L : Type} (readItem : Block → Allocating (E × Nat)) (encode : S → List UInt8)
  (expected : S → L) (summary : E → L)

/-- The loop reads an item from its encoding and moves on to what stands behind it. -/
def ReadsItem (item : S) : Prop :=
  ∀ behind, ∃ read, summary read = expected item ∧
    Yields (readItem (ofBytes (encode item) ++ behind)) (read, (encode item).length)

theorem countedLoop_encoded (items : List S)
    (reads : ∀ item ∈ items, ReadsItem readItem encode expected summary item) (behind : Block) :
    ∃ read, read.map summary = items.map expected ∧
      Yields (countedLoop readItem items.length (ofBytes (items.flatMap encode) ++ behind))
        (read, behind) := by
  induction items with
  | nil => exact ⟨[], rfl, yields_pure _⟩
  | cons first items ih =>
    have split : ofBytes ((first :: items).flatMap encode) ++ behind =
        ofBytes (encode first) ++ (ofBytes (items.flatMap encode) ++ behind) := by simp
    cases reads first List.mem_cons_self (ofBytes (items.flatMap encode) ++ behind) with
    | intro read here =>
      cases ih fun item inside => reads item (List.mem_cons_of_mem first inside) with
      | intro others later =>
        refine ⟨read :: others, by simp [here.1, later.1], ?_⟩
        rw [split]
        apply yields_bind here.2
        dsimp only
        rw [List.drop_left' (by simp)]
        exact yields_bind later.2 (yields_pure _)

end Items

section Elements

variable {S E L : Type} (readElement : Block → Allocating (Filled E)) (encode : S → List UInt8)
  (expected : S → L) (summary : E → L)

/-- An element of an array is read from its encoding with nothing left out. -/
def FillsItem (item : S) : Prop :=
  ∀ behind, ∃ read, summary read = expected item ∧
    Yields (readElement (ofBytes (encode item) ++ behind)) ⟨read, (encode item).length, true⟩

theorem fillLoop_encoded (zero : E) (items : List S)
    (fills : ∀ item ∈ items, FillsItem readElement encode expected summary item)
    (behind : Block) :
    ∃ read, read.map summary = items.map expected ∧
      Yields (fillLoop zero readElement items.length (ofBytes (items.flatMap encode) ++ behind))
        ⟨read, (items.flatMap encode).length, true⟩ := by
  induction items with
  | nil => exact ⟨[], rfl, yields_pure _⟩
  | cons first items ih =>
    have split : ofBytes ((first :: items).flatMap encode) ++ behind =
        ofBytes (encode first) ++ (ofBytes (items.flatMap encode) ++ behind) := by simp
    have size : ((first :: items).flatMap encode).length =
        (encode first).length + (items.flatMap encode).length := by simp
    cases fills first List.mem_cons_self (ofBytes (items.flatMap encode) ++ behind) with
    | intro read here =>
      cases ih fun item inside => fills item (List.mem_cons_of_mem first inside) with
      | intro others later =>
        refine ⟨read :: others, by simp [here.1, later.1], ?_⟩
        rw [split, size]
        apply yields_bind here.2
        apply yields_ite_true rfl
        rw [List.drop_left' (by simp)]
        exact yields_bind later.2 (yields_pure _)

end Elements

section Sizes

variable {E : Type}

-- the bytes of as many elements as this, where those of one can be told from the memory
def sizes (size : Block → Option Nat) : Nat → Block → Option Nat
  | 0, _ => some 0
  | count + 1, memory => do
      let first ← size memory
      let rest ← sizes size count (memory.drop first)
      return first + rest

/-- The reader moves on by the size that can be told from the memory, and fails if there is none. -/
structure Measures (read : Block → Allocating (Filled E)) (size : Block → Option Nat) : Prop where
  reads : ∀ memory bytes, size memory = some bytes →
    ∃ value, Yields (read memory) ⟨value, bytes, true⟩
  sized : ∀ memory heap result, heap.Available → read memory heap = some result →
    (size memory).isSome = true

variable {read : Block → Allocating (Filled E)} {size : Block → Option Nat}

theorem Measures.result (measures : Measures read size) {memory : Block} {heap : Heap}
    {result : Filled E × Heap} (available : heap.Available)
    (found : read memory heap = some result) :
    size memory = some result.1.size ∧ result.1.complete = true ∧ result.2.Available := by
  have sized := measures.sized memory heap result available found
  cases known : size memory with
  | none => simp [known] at sized
  | some bytes =>
    cases measures.reads memory bytes known with
    | intro value yields =>
      cases yields heap available with
      | intro after same =>
        rw [found] at same
        cases same.1
        exact ⟨rfl, rfl, available.of_succeeds same.2⟩

theorem measures_fillLoop (zero : E) (measures : Measures read size) (count : Nat) :
    Measures (fillLoop zero read count) (sizes size count) := by
  induction count with
  | zero =>
    constructor
    · intro memory bytes known
      cases known
      exact ⟨[], yields_pure _⟩
    · intro memory heap result _ _
      rfl
  | succ count ih =>
    constructor
    · intro memory bytes known
      obtain ⟨first, firstKnown, known⟩ := Option.bind_eq_some_iff.mp known
      obtain ⟨rest, restKnown, same⟩ := Option.bind_eq_some_iff.mp known
      obtain ⟨value, here⟩ := measures.reads memory first firstKnown
      obtain ⟨values, later⟩ := ih.reads (memory.drop first) rest restKnown
      refine ⟨value :: values, ?_⟩
      rw [← Option.some.inj same]
      apply yields_bind here
      apply yields_ite_true rfl
      exact yields_bind later (yields_pure _)
    · intro memory heap result available found
      obtain ⟨⟨first, middle⟩, reading, found⟩ := Option.bind_eq_some_iff.mp found
      obtain ⟨known, complete, middleAvailable⟩ := measures.result available reading
      dsimp only at known complete found middleAvailable
      rw [if_pos complete] at found
      obtain ⟨⟨rest, after⟩, looping, -⟩ := Option.bind_eq_some_iff.mp found
      have later := ih.result middleAvailable looping
      simp [sizes, known, later.1]

end Sizes

/-- These bytes stand at the start of the memory. -/
def Stands (memory : Block) (bytes : List UInt8) : Prop :=
  ∃ behind, memory = ofBytes bytes ++ behind

theorem stands_nil (memory : Block) : Stands memory [] :=
  ⟨memory, rfl⟩

theorem Stands.append {memory : Block} {left right : List UInt8} (first : Stands memory left)
    (second : Stands (memory.drop left.length) right) : Stands memory (left ++ right) := by
  cases first with
  | intro behind same =>
    subst same
    rw [List.drop_left' (ofBytes_length left)] at second
    cases second with
    | intro rest same => exact ⟨rest, by rw [same, ofBytes_append, List.append_assoc]⟩

theorem stands_read8 {memory : Block} {byte : UInt8} (found : read8 memory 0 = some byte) :
    Stands memory [byte] := by
  cases memory with
  | nil => cases found
  | cons cell behind =>
    have same : cell = some byte := found
    exact ⟨behind, by rw [same]; rfl⟩

theorem stands_read16 {memory : Block} {value : Nat} (found : read16 memory 0 = some value) :
    Stands memory (encode16 value) := by
  obtain ⟨high, highRead, later⟩ := Option.bind_eq_some_iff.mp found
  obtain ⟨low, lowRead, same⟩ := Option.bind_eq_some_iff.mp later
  have whole := Option.some.inj ((read16_eq memory 0 high low highRead lowRead).symm.trans found)
  have lowBound := low.toNat_lt
  have bytes : encode16 value = [high] ++ [low] := by
    rw [encode16, ← whole, show (high.toNat * 256 + low.toNat) / 256 = high.toNat by omega]
    have last : UInt8.ofNat (high.toNat * 256 + low.toNat) = low := by
      apply UInt8.toNat_inj.mp
      rw [UInt8.toNat_ofNat']
      omega
    rw [last, UInt8.ofNat_toNat, List.singleton_append]
  rw [bytes]
  exact (stands_read8 highRead).append (stands_read8 (by rw [read8_drop]; exact lowRead))

theorem stands_read32 {memory : Block} {value : Nat} (found : read32 memory 0 = some value) :
    Stands memory (encode32 value) := by
  obtain ⟨high, highRead, later⟩ := Option.bind_eq_some_iff.mp found
  obtain ⟨low, lowRead, same⟩ := Option.bind_eq_some_iff.mp later
  have highBound := read16_lt memory _ high highRead
  have lowBound := read16_lt memory _ low lowRead
  have whole := Option.some.inj same
  rw [join_low high low 16 lowBound] at whole
  have bytes : encode32 value = encode16 high ++ encode16 low := by
    rw [encode32, ← whole, show (high * 2 ^ 16 + low) / 2 ^ 16 = high by omega]
    have last : encode16 (high * 2 ^ 16 + low) = encode16 low := by
      simp only [encode16, List.cons.injEq, and_true]
      exact ⟨UInt8.toNat_inj.mp (by simp only [UInt8.toNat_ofNat']; omega),
        UInt8.toNat_inj.mp (by simp only [UInt8.toNat_ofNat']; omega)⟩
    rw [last]
  have second : read16 (memory.drop 2) 0 = some low := by
    simp only [read16, read8_drop]
    exact lowRead
  rw [bytes]
  exact (stands_read16 highRead).append (stands_read16 second)

section Codes

variable {S E : Type}

/-- The reader finds a value in its encoding, and nowhere else. -/
structure Codes (read : Block → Allocating (Filled E)) (encode : S → List UInt8) (stored : S → E)
    (item : S) : Prop where
  reads : ∀ behind, Yields (read (ofBytes (encode item) ++ behind))
    ⟨stored item, (encode item).length, true⟩
  stands : ∀ memory heap result, heap.Available → read memory heap = some result →
    result.1.value = stored item → Stands memory (encode item)

variable {read : Block → Allocating (Filled E)} {encode : S → List UInt8} {stored : S → E}
  {item : S}

theorem Codes.result (codes : Codes read encode stored item) {memory : Block} {heap : Heap}
    {result : Filled E × Heap} (available : heap.Available) (found : read memory heap = some result)
    (same : result.1.value = stored item) :
    Stands memory (encode item) ∧ result.1.size = (encode item).length ∧
      result.1.complete = true ∧ result.2.Available := by
  have stands := codes.stands memory heap result available found same
  refine ⟨stands, ?_⟩
  cases stands with
  | intro behind split =>
    subst split
    cases codes.reads behind heap available with
    | intro after yields =>
      rw [found] at yields
      cases yields.1
      exact ⟨rfl, rfl, available.of_succeeds yields.2⟩

/-- A counted array of values that have a code has one. -/
theorem codes_fillLoop (zero : E) (items : List S)
    (codes : ∀ item ∈ items, Codes read encode stored item) :
    Codes (fillLoop zero read items.length) (List.flatMap encode) (List.map stored) items := by
  induction items with
  | nil => exact ⟨fun behind => yields_pure _, fun memory _ _ _ _ _ => stands_nil memory⟩
  | cons first items ih =>
    have here := codes first List.mem_cons_self
    have later := ih fun item inside => codes item (List.mem_cons_of_mem first inside)
    constructor
    · intro behind
      have split : ofBytes ((first :: items).flatMap encode) ++ behind =
          ofBytes (encode first) ++ (ofBytes (items.flatMap encode) ++ behind) := by simp
      have size : ((first :: items).flatMap encode).length =
          (encode first).length + (items.flatMap encode).length := by simp
      rw [split, size]
      apply yields_bind (here.reads _)
      apply yields_ite_true rfl
      rw [List.drop_left' (by simp)]
      exact yields_bind (later.reads behind) (yields_pure _)
    · intro memory heap result available found same
      obtain ⟨⟨read, middle⟩, reading, after⟩ := Option.bind_eq_some_iff.mp found
      -- an element that fell short still has the first place
      have value : read.value = stored first := by
        dsimp only at after
        split at after
        · obtain ⟨⟨rest, last⟩, -, ending⟩ := Option.bind_eq_some_iff.mp after
          cases ending
          exact (List.cons.inj same).1
        · cases after
          exact (List.cons.inj same).1
      obtain ⟨stands, size, complete, middleAvailable⟩ := here.result available reading value
      dsimp only at size complete after
      rw [complete, if_pos rfl, size] at after
      obtain ⟨⟨rest, last⟩, resting, ending⟩ := Option.bind_eq_some_iff.mp after
      cases ending
      exact stands.append (later.stands _ _ _ middleAvailable resting (List.cons.inj same).2)

end Codes

end Memory
