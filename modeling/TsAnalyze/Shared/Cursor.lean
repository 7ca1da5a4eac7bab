import TsAnalyze.Shared.Encoding
import TsAnalyze.Shared.Yields

set_option autoImplicit false

namespace Memory

/-- A pointer into the memory, and a counter that is moved on beside it. -/
structure Cursor where
  pdata : Block
  len : Nat

namespace Cursor

-- pdata += count; len += count;
def step (cursor : Cursor) (count : Nat) : Cursor :=
  ⟨cursor.pdata.drop count, cursor.len + count⟩

@[simp] theorem step_zero (cursor : Cursor) : cursor.step 0 = cursor := by
  simp [step]

theorem step_step (cursor : Cursor) (first second : Nat) :
    (cursor.step first).step second = cursor.step (first + second) := by
  simp [step, Nat.add_assoc]

theorem step_bytes (bytes : List UInt8) (behind : Block) (len : Nat) :
    (Cursor.mk (ofBytes bytes ++ behind) len).step bytes.length =
      ⟨behind, len + bytes.length⟩ := by
  rw [step]
  dsimp only
  rw [List.drop_left' (ofBytes_length bytes)]

end Cursor

section Takes

variable {A B : Type}

/-- The reader finds the value in these bytes and moves on past them. -/
def Takes (read : Cursor → Allocating (A × Cursor)) (bytes : List UInt8) (value : A) : Prop :=
  ∀ behind len, Yields (read ⟨ofBytes bytes ++ behind, len⟩)
    (value, ⟨behind, len + bytes.length⟩)

theorem Takes.bind {read : Cursor → Allocating (A × Cursor)} {bytes : List UInt8} {value : A}
    (takes : Takes read bytes value) {next : A × Cursor → Allocating B} {result : B}
    {behind : Block} {len : Nat}
    (later : Yields (next (value, ⟨behind, len + bytes.length⟩)) result) :
    Yields (read ⟨ofBytes bytes ++ behind, len⟩ >>= next) result :=
  yields_bind (takes behind len) later

-- as many items as this, one behind the other
def cursorLoop (readItem : Cursor → Allocating (A × Cursor)) :
    Nat → Cursor → Allocating (List A × Cursor)
  | 0, cursor => pure ([], cursor)
  | count + 1, cursor => do
      let (item, cursor) ← readItem cursor
      let (items, cursor) ← cursorLoop readItem count cursor
      pure (item :: items, cursor)

theorem takes_loop {S : Type} {readItem : Cursor → Allocating (A × Cursor)}
    {encode : S → List UInt8} {stored : S → A} (items : List S)
    (takes : ∀ item ∈ items, Takes readItem (encode item) (stored item)) :
    Takes (cursorLoop readItem items.length) (items.flatMap encode) (items.map stored) := by
  induction items with
  | nil => exact fun behind len => yields_pure _
  | cons first items ih =>
    intro behind len
    have split : ofBytes ((first :: items).flatMap encode) ++ behind =
        ofBytes (encode first) ++ (ofBytes (items.flatMap encode) ++ behind) := by simp
    have total : len + ((first :: items).flatMap encode).length =
        len + (encode first).length + (items.flatMap encode).length := by
      simp only [List.flatMap_cons, List.length_append]
      omega
    rw [split, total]
    apply (takes first List.mem_cons_self).bind
    apply (ih fun item inside => takes item (List.mem_cons_of_mem first inside)).bind
    exact yields_pure _

/-- As `Takes`, for a reader that has no cursor left when memory runs out. -/
def TakesAll (read : Cursor → Allocating (A × Option Cursor)) (bytes : List UInt8) (value : A) :
    Prop :=
  ∀ behind len, Yields (read ⟨ofBytes bytes ++ behind, len⟩)
    (value, some ⟨behind, len + bytes.length⟩)

theorem TakesAll.bind {read : Cursor → Allocating (A × Option Cursor)} {bytes : List UInt8}
    {value : A} (takes : TakesAll read bytes value) {next : A × Option Cursor → Allocating B}
    {result : B} {behind : Block} {len : Nat}
    (later : Yields (next (value, some ⟨behind, len + bytes.length⟩)) result) :
    Yields (read ⟨ofBytes bytes ++ behind, len⟩ >>= next) result :=
  yields_bind (takes behind len) later

end Takes

end Memory
