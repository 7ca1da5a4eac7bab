import TsAnalyze.Shared.Reading
import TsAnalyze.Tables.Header
import TsAnalyze.Teletext.Pages

set_option autoImplicit false

namespace TsAnalyze.Teletext

open Memory Tables

structure DataUnit where
  dataUnitId : UInt8 := 0
  dataUnitLength : UInt8 := 0
  fieldParity : Nat := 0
  lineOffset : Nat := 0
  framingCode : UInt8 := 0
  magazineAndPacketAddress : Nat := 0
  dataBlock : Fin 40 → UInt8 := fun _ => 0

structure TeletextPesData where
  dataIdentifier : UInt8
  nUnits : Nat
  units : Option (List DataUnit)

-- the static variables
structure Statics where
  gText : Screens
  P : Nat

def readUnit (pdata : Block) : Option DataUnit := do
  let dataUnitId ← read8 pdata 0
  let dataUnitLength ← read8 pdata 1
  let field ← read8 pdata 2
  let framingCode ← read8 pdata 3
  let addr ← read16 pdata 4
  let block ← readBytes pdata 6 40
  return {
    dataUnitId := dataUnitId
    dataUnitLength := dataUnitLength
    fieldParity := readBits 8 field.toNat 1 2
    lineOffset := readBits 8 field.toNat 5 3
    framingCode := framingCode
    magazineAndPacketAddress := addr
    dataBlock := fun i => block.getD i 0 }

def Statics.after (statics : Statics) (unit : DataUnit) : Option Statics :=
  let (P, accesses) := parseTeletextData statics.P unit.magazineAndPacketAddress unit.dataBlock
  (accesses.foldlM compositeTeletextPages statics.gText).map fun gText => ⟨gText, P⟩

-- the assertions
def DataUnit.Known (unit : DataUnit) : Prop :=
  (unit.dataUnitId = 0x2 ∨ unit.dataUnitId = 0x3 ∨ unit.dataUnitId = 0xff) ∧
    unit.dataUnitLength = 0x2c

instance (unit : DataUnit) : Decidable unit.Known :=
  inferInstanceAs (Decidable (_ ∧ _))

/-- `none` is an access outside an array, or an assertion that fails. -/
def parseUnits (pdata : Block) (tLen len i : Nat) (units : List DataUnit) (statics : Statics) :
    Option (List DataUnit × Statics) :=
  if tLen < len then
    if i < units.length then do
      let unit ← readUnit pdata
      if unit.Known then
        let statics ← statics.after unit
        parseUnits (pdata.drop 46) (tLen + 46) len (i + 1) (units.set i unit) statics
      else none
    else none
  else some (units, statics)
termination_by len - tLen

/-- The structure, the return value and the static variables behind the call. -/
def parseTeletext (statics : Statics) (pbuf : Block) (len : Nat) (calloc : Bool) :
    Option (TeletextPesData × Int × Statics) := do
  let dataIdentifier ← read8 pbuf 0
  -- the division is made with the unsigned type of sizeof
  let nUnits := (len + (2 ^ 64 - 1)) % 2 ^ 64 / 46
  if calloc then
    let (units, statics) ← parseUnits (pbuf.drop 1) 1 len 0 (List.replicate nUnits {}) statics
    return (⟨dataIdentifier, nUnits, some units⟩, 0, statics)
  else return (⟨dataIdentifier, nUnits, none⟩, enomem, statics)

/-- A data unit of a known kind, its other bytes arbitrary. -/
structure SentUnit where
  id : UInt8
  known : id = 0x2 ∨ id = 0x3 ∨ id = 0xff
  field : UInt8
  framing : UInt8
  magazine : UInt8
  packet : UInt8
  data : Fin 40 → UInt8

def SentUnit.encode (unit : SentUnit) : List UInt8 :=
  [unit.id, 0x2c, unit.field, unit.framing, unit.magazine, unit.packet] ++ List.ofFn unit.data

def SentUnit.stored (unit : SentUnit) : DataUnit where
  dataUnitId := unit.id
  dataUnitLength := 0x2c
  fieldParity := readBits 8 unit.field.toNat 1 2
  lineOffset := readBits 8 unit.field.toNat 5 3
  framingCode := unit.framing
  magazineAndPacketAddress := address unit.magazine unit.packet
  dataBlock := unit.data

structure Payload where
  identifier : UInt8
  units : List SentUnit
  -- a unit that has been cut off
  part : List UInt8
  short : part.length < 46
  -- the length is passed as an int
  passed : 1 + 46 * units.length + part.length ≤ 2147483647

def Payload.encode (payload : Payload) : List UInt8 :=
  payload.identifier :: (payload.units.flatMap SentUnit.encode ++ payload.part)

-- a payload in its memory, and whether the array for its units is given
structure Arrival where
  payload : Payload
  behind : Block
  calloc : Bool

def arrive (statics : Statics) (arrival : Arrival) : Option Statics :=
  (parseTeletext statics (ofBytes arrival.payload.encode ++ arrival.behind)
    arrival.payload.encode.length arrival.calloc).map fun found => found.2.2

def start : Statics where
  gText _ _ _ _ := 0
  P := 0

section Unit

theorem readUnit_sent (unit : SentUnit) (behind : Block) :
    readUnit (ofBytes unit.encode ++ behind) = some unit.stored := by
  have addr := read16_eq (ofBytes unit.encode ++ behind) 4 unit.magazine unit.packet rfl rfl
  have block : readBytes (ofBytes unit.encode ++ behind) 6 40 = some (List.ofFn unit.data) := by
    have whole := readBytes_whole (List.ofFn unit.data) behind
    rw [List.length_ofFn] at whole
    exact (readBytes_drop (ofBytes unit.encode ++ behind) 6 0 40).symm.trans whole
  have bytes : (fun i : Fin 40 => (List.ofFn unit.data).getD i 0) = unit.data := by
    funext i
    rw [List.getD_eq_getElem _ _ (by simp), List.getElem_ofFn]
  have id : read8 (ofBytes unit.encode ++ behind) 0 = some unit.id := rfl
  have length : read8 (ofBytes unit.encode ++ behind) 1 = some 0x2c := rfl
  have field : read8 (ofBytes unit.encode ++ behind) 2 = some unit.field := rfl
  have framing : read8 (ofBytes unit.encode ++ behind) 3 = some unit.framing := rfl
  simp only [readUnit, id, length, field, framing, addr, block, Option.bind_eq_bind,
    Option.bind_some, bytes]
  rfl

theorem encode_length (unit : SentUnit) : unit.encode.length = 46 := by
  simp [SentUnit.encode]

theorem composite_inBounds (accesses : List Access) (gText : Screens) :
    (accesses.foldlM compositeTeletextPages gText).isSome ↔
      ∀ access ∈ accesses, access.InBounds := by
  induction accesses generalizing gText with
  | nil => simp
  | cons access accesses ih =>
    rw [List.foldlM_cons, compositeTeletextPages, List.forall_mem_cons]
    by_cases inside : access.InBounds
    · rw [if_pos inside]
      exact (ih _).trans (and_iff_right inside).symm
    · rw [if_neg inside]
      simp [inside]

def rowOf (magazine packet : UInt8) : Int :=
  (decodeHammingAddress (address magazine packet)).1

/-- The magazine is accepted, and the page that is written to is one of the hundred. -/
def SentUnit.Fits (P : Nat) (unit : SentUnit) : Prop :=
  0 ≤ decodeHamming8Code unit.magazine ∧
    (rowOf unit.magazine unit.packet = 0 → headerErases unit.data = true →
      headerPage unit.data < 100) ∧
    (1 ≤ rowOf unit.magazine unit.packet → rowOf unit.magazine unit.packet ≤ 25 → P < 100)

-- the current page behind a unit
def SentUnit.pageAfter (P : Nat) (unit : SentUnit) : Nat :=
  if rowOf unit.magazine unit.packet = 0 then headerPage unit.data else P

theorem address_cases (magazine packet : UInt8) :
    (decodeHamming8Code magazine < 0 ∧
        decodeHammingAddress (address magazine packet) = (-1, none)) ∨
      0 ≤ decodeHamming8Code magazine ∧ ∃ X Y : Nat, X < 8 ∧ Y < 32 ∧
        decodeHammingAddress (address magazine packet) = ((Y : Int), some X) := by
  by_cases rejected : decodeHamming8Code magazine < 0
  · exact Or.inl ⟨rejected, by rw [decodeHammingAddress_eq, if_pos rejected]⟩
  · obtain ⟨first, high⟩ := hamming8Data_nibble (decodeHamming8Code magazine)
    obtain ⟨second, low⟩ := hamming8Data_nibble (decodeHamming8Code packet)
    have accepted := Int.not_lt.mp rejected
    refine Or.inr ⟨accepted, first.val % 8, first.val / 8 + 2 * second.val, by omega, by omega, ?_⟩
    exact decodeHammingAddress_nibbles accepted high low

theorem eraseAccesses_inBounds {X : Nat} (magazine : X < 8) (P : Nat) :
    (∀ access ∈ eraseAccesses (some X) P, access.InBounds) ↔ P < 100 := by
  constructor
  · intro bounds
    have member : (⟨some X, P, 1, 0, 32⟩ : Access) ∈ eraseAccesses (some X) P :=
      List.mem_flatMap.mpr ⟨0, by simp, List.mem_map.mpr ⟨0, by simp, rfl⟩⟩
    exact (bounds _ member).2.1
  · intro page access member
    obtain ⟨j, row, member⟩ := List.mem_flatMap.mp member
    obtain ⟨i, column, rfl⟩ := List.mem_map.mp member
    have below := List.mem_range.mp row
    exact ⟨⟨X, rfl, magazine⟩, page, by dsimp only; omega, by dsimp only; omega,
      List.mem_range.mp column⟩

theorem unit_inBounds (P : Nat) (unit : SentUnit) :
    (∀ access ∈ (parseTeletextData P (address unit.magazine unit.packet) unit.data).2,
      access.InBounds) ↔ unit.Fits P := by
  rw [SentUnit.Fits, rowOf]
  obtain ⟨rejected, decoded⟩ | ⟨accepted, X, Y, magazine, row, decoded⟩ :=
    address_cases unit.magazine unit.packet
  · rw [parse_row decoded (by decide) (by decide)]
    refine iff_of_false ?_ (fun fits => Int.not_lt.mpr fits.1 rejected)
    intro bounds
    obtain ⟨X, absent, -⟩ := (bounds _ (List.mem_map_of_mem (List.mem_finRange 0))).1
    cases absent
  · rw [decoded, and_iff_right accepted]
    dsimp only
    by_cases header : Y = 0
    · rw [header] at decoded
      rw [parse_header decoded, header]
      by_cases erases : headerErases unit.data = true
      · rw [if_pos erases]
        simpa [erases] using eraseAccesses_inBounds magazine (headerPage unit.data)
      · simp [erases]
    · by_cases displayed : Y ≤ 25
      · rw [parse_row decoded (by omega) (by omega)]
        have bounds := rowAccesses_inBounds ⟨X, magazine⟩ P Y unit.data (by omega)
        refine bounds.trans ?_
        have positive : 1 ≤ (Y : Int) := by omega
        have low : (Y : Int) ≤ 25 := by omega
        simp [positive, low, header]
      · rw [parse_hidden decoded (by omega)]
        have high : ¬(Y : Int) ≤ 25 := by omega
        simp [high, header]

theorem unit_page (P : Nat) (unit : SentUnit) :
    (parseTeletextData P (address unit.magazine unit.packet) unit.data).1 = unit.pageAfter P := by
  rw [SentUnit.pageAfter, rowOf]
  cases decoded : decodeHammingAddress (address unit.magazine unit.packet) with
  | mk Y X =>
    dsimp only
    by_cases header : Y = 0
    · rw [if_pos header]
      rw [header] at decoded
      rw [parse_header decoded]
    · rw [if_neg header]
      by_cases displayed : Y ≤ 25
      · rw [parse_row decoded header displayed]
      · rw [parse_hidden decoded (Int.not_le.mp displayed)]

end Unit

section Run

/-- When a result exists, and the current page behind it. -/
def Ends (result : Option Statics) (fits : Prop) (page : Nat) : Prop :=
  (result.isSome ↔ fits) ∧ ∀ after, result = some after → after.P = page

theorem ends_bind {first : Option Statics} {second : Statics → Option Statics}
    {fits later : Prop} {page last : Nat} (left : Ends first fits page)
    (right : ∀ statics : Statics, statics.P = page → Ends (second statics) later last) :
    Ends (first.bind second) (fits ∧ later) last := by
  cases found : first with
  | none =>
    have unfit : ¬fits := fun holds => by
      rw [found] at left
      exact absurd (left.1.mpr holds) (by simp)
    exact ⟨iff_of_false (by simp) (fun both => unfit both.1), fun after none => by cases none⟩
  | some statics =>
    have holds : fits := left.1.mp (by rw [found]; rfl)
    obtain ⟨isSome, page⟩ := right statics (left.2 statics found)
    exact ⟨isSome.trans (and_iff_right holds).symm, page⟩

theorem ends_none (page : Nat) : Ends none False page :=
  ⟨iff_of_false (by simp) id, fun after none => by cases none⟩

theorem ends_some (statics : Statics) : Ends (some statics) True statics.P :=
  ⟨iff_of_true rfl trivial, fun after same => by rw [Option.some.inj same]⟩

theorem after_ends (statics : Statics) (unit : SentUnit) :
    Ends (statics.after unit.stored) (unit.Fits statics.P) (unit.pageAfter statics.P) := by
  have bounds := unit_inBounds statics.P unit
  have page := unit_page statics.P unit
  constructor
  · rw [← bounds, ← composite_inBounds _ statics.gText, Statics.after, Option.isSome_map]
    rfl
  · intro after found
    obtain ⟨gText, -, same⟩ := Option.map_eq_some_iff.mp found
    rw [← same]
    exact page

def UnitsFit : Nat → List SentUnit → Prop
  | _, [] => True
  | P, unit :: units => unit.Fits P ∧ UnitsFit (unit.pageAfter P) units

theorem stored_known (unit : SentUnit) : unit.stored.Known :=
  ⟨unit.known, rfl⟩

theorem parseUnits_ends (units : List SentUnit) (part : List UInt8) (behind : Block)
    (tLen len i : Nat) (stored : List DataUnit) (statics : Statics) (short : part.length < 46)
    (total : tLen + 46 * units.length + part.length = len)
    (room : stored.length = i + units.length) :
    Ends ((parseUnits (ofBytes (units.flatMap SentUnit.encode ++ part) ++ behind) tLen len i stored
        statics).map Prod.snd)
      (UnitsFit statics.P units ∧ part = []) (units.foldl SentUnit.pageAfter statics.P) := by
  induction units generalizing tLen i stored statics with
  | nil =>
    rw [List.length_nil, Nat.mul_zero, Nat.add_zero] at total
    rw [parseUnits]
    by_cases whole : part = []
    · have done : ¬tLen < len := by
        rw [whole, List.length_nil] at total
        omega
      rw [if_neg done]
      simpa [UnitsFit, whole] using ends_some statics
    · have more : tLen < len := by
        have positive := List.length_pos_iff.mpr whole
        omega
      have full : ¬i < stored.length := by
        rw [room]
        simp
      rw [if_pos more, if_neg full]
      simpa [whole] using ends_none statics.P
  | cons unit units ih =>
    rw [List.length_cons] at total room
    have more : tLen < len := by omega
    have inside : i < stored.length := by omega
    have split : ofBytes ((unit :: units).flatMap SentUnit.encode ++ part) ++ behind =
        ofBytes unit.encode ++ (ofBytes (units.flatMap SentUnit.encode ++ part) ++ behind) := by
      simp
    have rest : (ofBytes unit.encode ++
        (ofBytes (units.flatMap SentUnit.encode ++ part) ++ behind)).drop 46 =
          ofBytes (units.flatMap SentUnit.encode ++ part) ++ behind := by
      rw [List.drop_left' (by rw [ofBytes_length, encode_length])]
    rw [parseUnits, if_pos more, if_pos inside, split, readUnit_sent, Option.bind_eq_bind,
      Option.bind_some, if_pos (stored_known unit), Option.bind_eq_bind, Option.map_bind, rest,
      UnitsFit, and_assoc, List.foldl_cons]
    apply ends_bind (after_ends statics unit)
    intro later page
    rw [← page]
    exact ih (tLen + 46) (i + 1) _ later (by omega) (by rw [List.length_set]; omega)

-- the payload is whole, unless there is nothing to store it in
def Arrival.Fits (P : Nat) (arrival : Arrival) : Prop :=
  arrival.calloc = true → UnitsFit P arrival.payload.units ∧ arrival.payload.part = []

def Arrival.pageAfter (P : Nat) (arrival : Arrival) : Nat :=
  if arrival.calloc then arrival.payload.units.foldl SentUnit.pageAfter P else P

theorem units_length (units : List SentUnit) :
    (units.flatMap SentUnit.encode).length = 46 * units.length := by
  induction units with
  | nil => rfl
  | cons unit units ih =>
    rw [List.flatMap_cons, List.length_append, encode_length, ih, List.length_cons]
    omega

theorem arrive_ends (statics : Statics) (arrival : Arrival) :
    Ends (arrive statics arrival) (arrival.Fits statics.P) (arrival.pageAfter statics.P) := by
  obtain ⟨⟨identifier, units, part, short, passed⟩, behind, calloc⟩ := arrival
  have length : (identifier :: (units.flatMap SentUnit.encode ++ part)).length =
      1 + 46 * units.length + part.length := by
    rw [List.length_cons, List.length_append, units_length]
    omega
  have count : (1 + 46 * units.length + part.length + (2 ^ 64 - 1)) % 2 ^ 64 / 46 =
      units.length := by
    omega
  have first : read8 (ofBytes (identifier :: (units.flatMap SentUnit.encode ++ part)) ++ behind) 0 =
      some identifier := rfl
  have rest : (ofBytes (identifier :: (units.flatMap SentUnit.encode ++ part)) ++ behind).drop 1 =
      ofBytes (units.flatMap SentUnit.encode ++ part) ++ behind := rfl
  simp only [arrive, Payload.encode, parseTeletext, length, count, first, rest, Arrival.Fits,
    Arrival.pageAfter, Option.bind_eq_bind, Option.bind_some]
  cases calloc with
  | false => simpa using ends_some statics
  | true =>
    have ends := parseUnits_ends units part behind 1 (1 + 46 * units.length + part.length) 0
      (List.replicate units.length {}) statics short rfl (by simp)
    simp only [if_true, true_implies, Option.map_bind]
    rw [Option.map_eq_bind] at ends
    exact ends

def ArrivalsFit : Nat → List Arrival → Prop
  | _, [] => True
  | P, arrival :: arrivals => arrival.Fits P ∧ ArrivalsFit (arrival.pageAfter P) arrivals

theorem arrivals_ends (arrivals : List Arrival) (statics : Statics) :
    Ends (arrivals.foldlM arrive statics) (ArrivalsFit statics.P arrivals)
      (arrivals.foldl Arrival.pageAfter statics.P) := by
  induction arrivals generalizing statics with
  | nil => exact ends_some statics
  | cons arrival arrivals ih =>
    rw [List.foldlM_cons, List.foldl_cons]
    apply ends_bind (arrive_ends statics arrival)
    intro later page
    rw [← page]
    exact ih later

/-- No access leaves its array exactly if every payload is whole, every magazine is accepted, and
every page that is written to is one of the hundred. -/
theorem arrivals_inside (arrivals : List Arrival) :
    (arrivals.foldlM arrive start).isSome ↔ ArrivalsFit 0 arrivals :=
  (arrivals_ends arrivals start).1

def cutPayload : Payload where
  identifier := 0x10
  units := []
  part := [0x02]
  short := by decide
  passed := by decide

-- no unit is counted, and one is stored
theorem part_stored_outside :
    ¬ ∀ arrivals : List Arrival, (arrivals.foldlM arrive start).isSome := by
  intro inside
  have ends := arrivals_ends [⟨cutPayload, [], true⟩] start
  have fits := ends.1.mp (inside [⟨cutPayload, [], true⟩])
  exact absurd (fits.1 rfl).2 (by decide)

end Run

end TsAnalyze.Teletext
