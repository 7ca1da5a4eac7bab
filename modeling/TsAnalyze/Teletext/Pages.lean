import TsAnalyze.Teletext.Hamming

set_option autoImplicit false

namespace TsAnalyze.Teletext

-- `g_text[8][100][32][40]`
abbrev Screens := Fin 8 → Fin 100 → Fin 32 → Fin 40 → UInt8

/-- One call of composite_teletext_pages. The magazine may be uninitialised. -/
structure Access where
  X : Option Nat
  P : Nat
  Y : Int
  z : Nat
  v : UInt8
deriving DecidableEq

def Access.InBounds (access : Access) : Prop :=
  (∃ X ∈ access.X, X < 8) ∧ access.P < 100 ∧ 0 ≤ access.Y ∧ access.Y < 32 ∧ access.z < 40

instance (access : Access) : Decidable access.InBounds :=
  match access with
  | ⟨none, _, _, _, _⟩ => isFalse (by simp [Access.InBounds])
  | ⟨some X, P, Y, z, v⟩ =>
      decidable_of_iff (X < 8 ∧ P < 100 ∧ 0 ≤ Y ∧ Y < 32 ∧ z < 40) (by simp [Access.InBounds])

def compositeTeletextPages (gText : Screens) (access : Access) : Option Screens :=
  if access.InBounds then
    some fun X P Y z =>
      if access.X = some X.val ∧ access.P = P ∧ access.Y = Y.val ∧ access.z = z then access.v
      else gText X P Y z
  else none

-- the blanks that a header with its erase bit set writes
def eraseAccesses (X : Option Nat) (P : Nat) : List Access :=
  (List.range 28).flatMap fun j : Nat => (List.range 40).map fun i => ⟨X, P, (j : Int) + 1, i, 32⟩

def rowAccesses (X : Option Nat) (P : Nat) (Y : Int) (data : Fin 40 → UInt8) : List Access :=
  (List.finRange 40).map fun i : Fin 40 => ⟨X, P, Y, i.val, UInt8.ofInt (decodeOddParity (data i))⟩

def headerNibble (data : Fin 40 → UInt8) (i : Fin 40) : Nat :=
  hamming8Data (decodeHamming8Code (data i))

-- where a header has its page number
def unitsByte : Fin 40 := 0

def tensByte : Fin 40 := 1

def headerPage (data : Fin 40 → UInt8) : Nat :=
  headerNibble data tensByte * 10 + headerNibble data unitsByte

def headerErases (data : Fin 40 → UInt8) : Bool :=
  (headerNibble data 3).testBit 3

/-- The static `P` behind the call, and what the call writes to g_text. -/
def parseTeletextData (P : Nat) (addr : Nat) (data : Fin 40 → UInt8) : Nat × List Access :=
  let (Y, X) := decodeHammingAddress addr
  if Y = 0 then
    (headerPage data, if headerErases data then eraseAccesses X (headerPage data) else [])
  else if Y > 25 then (P, [])
  else (P, rowAccesses X P Y data)

theorem addr_bytes (magazine packet : UInt8) :
    UInt8.ofNat ((magazine.toNat * 256 + packet.toNat) >>> 8) = magazine ∧
      UInt8.ofNat (magazine.toNat * 256 + packet.toNat) = packet := by
  have low := packet.toNat_lt
  constructor
  · rw [← UInt8.toNat_inj, UInt8.toNat_ofNat', Nat.shiftRight_eq_div_pow]
    have high := magazine.toNat_lt
    omega
  · rw [← UInt8.toNat_inj, UInt8.toNat_ofNat']
    omega

-- magazine_and_packet_address
def address (magazine packet : UInt8) : Nat :=
  magazine.toNat * 256 + packet.toNat

theorem decodeHammingAddress_eq (magazine packet : UInt8) :
    decodeHammingAddress (address magazine packet) =
      if decodeHamming8Code magazine < 0 then (-1, none)
      else
        (((hamming8Data (decodeHamming8Code magazine) >>> 3) &&& 0x1 |||
            hamming8Data (decodeHamming8Code packet) <<< 1 : Nat),
          some (hamming8Data (decodeHamming8Code magazine) &&& 0x7)) := by
  obtain ⟨high, low⟩ := addr_bytes magazine packet
  rw [decodeHammingAddress, address, high, low]

theorem hamming8Data_lt (x : Int) : hamming8Data x < 16 := by
  have all : ∀ low : Fin 256, ((low.val &&& 0x55) >>> 6) &&& 0x1 |||
      ((low.val &&& 0x55) >>> 3) &&& 0x2 ||| (low.val &&& 0x55) &&& 0x4 |||
      ((low.val &&& 0x55) <<< 3) &&& 0x8 < 16 := by
    decide +kernel
  exact all ⟨(x % 256).toNat, by omega⟩

theorem hamming8Data_nibble (x : Int) : ∃ nibble : Fin 16, hamming8Data x = nibble :=
  ⟨⟨hamming8Data x, hamming8Data_lt x⟩, rfl⟩

-- the row of two nibbles
theorem row_of_nibbles (first second : Fin 16) :
    (first.val >>> 3) &&& 0x1 ||| second.val <<< 1 = first / 8 + 2 * second := by
  revert first second
  decide +kernel

theorem magazine_of_nibble (nibble : Fin 16) : nibble.val &&& 0x7 = nibble % 8 := by
  revert nibble
  decide +kernel

/-- The address of a packet whose magazine byte is accepted, from its two nibbles. -/
theorem decodeHammingAddress_nibbles {magazine packet : UInt8} {first second : Fin 16}
    (accepted : 0 ≤ decodeHamming8Code magazine)
    (high : hamming8Data (decodeHamming8Code magazine) = first)
    (low : hamming8Data (decodeHamming8Code packet) = second) :
    decodeHammingAddress (address magazine packet) =
      (((first.val / 8 + 2 * second.val : Nat) : Int), some (first.val % 8)) := by
  rw [decodeHammingAddress_eq, if_neg (Int.not_lt.mpr accepted), high, low, row_of_nibbles,
    magazine_of_nibble]

theorem parse_header {P addr : Nat} {data : Fin 40 → UInt8} {X : Option Nat}
    (decoded : decodeHammingAddress addr = (0, X)) :
    parseTeletextData P addr data =
      (headerPage data, if headerErases data then eraseAccesses X (headerPage data) else []) := by
  rw [parseTeletextData, decoded]
  exact if_pos rfl

theorem parse_row {P addr : Nat} {data : Fin 40 → UInt8} {X : Option Nat} {Y : Int}
    (decoded : decodeHammingAddress addr = (Y, X)) (body : Y ≠ 0) (displayed : Y ≤ 25) :
    parseTeletextData P addr data = (P, rowAccesses X P Y data) := by
  rw [parseTeletextData, decoded]
  exact (if_neg body).trans (if_neg (Int.not_lt.mpr displayed))

theorem parse_hidden {P addr : Nat} {data : Fin 40 → UInt8} {X : Option Nat} {Y : Int}
    (decoded : decodeHammingAddress addr = (Y, X)) (hidden : 25 < Y) :
    parseTeletextData P addr data = (P, []) := by
  rw [parseTeletextData, decoded]
  exact (if_neg (by omega)).trans (if_pos hidden)

theorem rowAccesses_page {X : Option Nat} {P page : Nat} {Y : Int} {data : Fin 40 → UInt8}
    (same : rowAccesses X P Y data = rowAccesses X page Y data) : P = page := by
  have first := List.map_inj_left.mp same 0 (List.mem_finRange 0)
  exact congrArg Access.P first

theorem rowAccesses_inBounds (X : Fin 8) (P : Nat) (Y : Int) (data : Fin 40 → UInt8)
    (inside : 0 ≤ Y ∧ Y < 32) :
    (∀ access ∈ rowAccesses (some X) P Y data, access.InBounds) ↔ P < 100 := by
  constructor
  · intro bounds
    have first := bounds _ (List.mem_map_of_mem (List.mem_finRange 0))
    exact first.2.1
  · intro page access member
    obtain ⟨column, -, rfl⟩ := List.mem_map.mp member
    exact ⟨⟨X, rfl, X.isLt⟩, page, inside.1, inside.2, column.isLt⟩

end TsAnalyze.Teletext
