import TsAnalyze.Teletext.Pages

set_option autoImplicit false

namespace TsAnalyze.Teletext

/-- A packet as it is sent. A page header has its first bytes protected as well. -/
structure Packet where
  magazine : Fin 8
  row : Fin 32
  data : Fin 40 → UInt8
  clean : row = 0 → ∀ i : Fin 40, i.val < 8 → ∃ nibble, data i = hammingCode nibble

namespace Packet

variable (packet : Packet)

-- the magazine and the low bit of the row
def first : Fin 16 :=
  ⟨packet.magazine + 8 * (packet.row % 2), by omega⟩

def second : Fin 16 :=
  ⟨packet.row / 2, by omega⟩

def addr : Nat :=
  address (hammingCode packet.first) (hammingCode packet.second)

end Packet

theorem nibbles_address (packet : Packet) {magazine second : UInt8}
    (accepted : 0 ≤ decodeHamming8Code magazine)
    (high : hamming8Data (decodeHamming8Code magazine) = packet.first)
    (low : hamming8Data (decodeHamming8Code second) = packet.second) :
    decodeHammingAddress (address magazine second) =
      ((packet.row.val : Int), some packet.magazine.val) := by
  have row : packet.first.val / 8 + 2 * packet.second.val = packet.row := by
    simp only [Packet.first, Packet.second]
    omega
  have number : packet.first.val % 8 = packet.magazine := by
    simp only [Packet.first]
    omega
  rw [decodeHammingAddress_nibbles accepted high low, row, number]

theorem code_accepted (nibble : Fin 16) : 0 ≤ decodeHamming8Code (hammingCode nibble) := by
  rw [(hamming_decoded nibble).1]
  exact Int.natCast_nonneg _

theorem code_data (nibble : Fin 16) :
    hamming8Data (decodeHamming8Code (hammingCode nibble)) = nibble := by
  rw [(hamming_decoded nibble).1, (hamming_decoded nibble).2]

theorem packet_address (packet : Packet) :
    decodeHammingAddress packet.addr = ((packet.row.val : Int), some packet.magazine.val) :=
  nibbles_address packet (code_accepted _) (code_data _) (code_data _)

section Magazines

def Packet.IsHeader (packet : Packet) : Prop :=
  packet.row = 0

instance (packet : Packet) : Decidable packet.IsHeader :=
  inferInstanceAs (Decidable (_ = _))

def Packet.Displayed (packet : Packet) : Prop :=
  1 ≤ packet.row.val ∧ packet.row.val ≤ 25

-- the static `P` behind the packets
def currentPage (packets : List Packet) : Nat :=
  packets.foldl (fun P packet => (parseTeletextData P packet.addr packet.data).1) 0

/-- The page of the last header among the packets that are looked at. -/
def lastPage (looked : Packet → Bool) (packets : List Packet) : Option Nat :=
  packets.foldl (fun last packet =>
    if packet.IsHeader ∧ looked packet then some (headerPage packet.data) else last) none

theorem currentPage_eq (packets : List Packet) :
    currentPage packets = (lastPage (fun _ => true) packets).getD 0 := by
  induction packets using List.reverseRecOn with
  | nil => rfl
  | append_singleton before packet ih =>
    have decoded := packet_address packet
    simp only [currentPage, lastPage, List.foldl_append, List.foldl_cons, List.foldl_nil] at ih ⊢
    by_cases header : packet.IsHeader
    · rw [header] at decoded
      rw [parse_header decoded]
      simp [header]
    · have body : (packet.row.val : Int) ≠ 0 := by
        intro zero
        exact header (Fin.ext (Int.ofNat.inj zero))
      have kept (P : Nat) : (parseTeletextData P packet.addr packet.data).1 = P := by
        by_cases displayed : (packet.row.val : Int) ≤ 25
        · rw [parse_row decoded body displayed]
        · rw [parse_hidden decoded (Int.not_le.mp displayed)]
      rw [kept, ih]
      simp [header]

/-- Every display row goes to the page of the last header of its own magazine. -/
def RowsKept (packets : List Packet) : Prop :=
  ∀ before packet after, packets = before ++ packet :: after → packet.Displayed →
    ∀ page ∈ lastPage (fun other => other.magazine = packet.magazine) before,
      (parseTeletextData (currentPage before) packet.addr packet.data).2 =
          rowAccesses (some packet.magazine) page packet.row packet.data ∧
        ∀ access ∈ rowAccesses (some packet.magazine) page packet.row packet.data, access.InBounds

-- The last header of all has the same page, one of the hundred.
def PagesAgree (packets : List Packet) : Prop :=
  ∀ before packet after, packets = before ++ packet :: after → packet.Displayed →
    ∀ page ∈ lastPage (fun other => other.magazine = packet.magazine) before,
      lastPage (fun _ => true) before = some page ∧ page < 100

theorem lastPage_snoc (looked : Packet → Bool) (before : List Packet) (packet : Packet) :
    lastPage looked (before ++ [packet]) =
      if packet.IsHeader ∧ looked packet then some (headerPage packet.data)
      else lastPage looked before := by
  simp [lastPage]

theorem lastPage_any {looked : Packet → Bool} {packets : List Packet} {page : Nat}
    (found : page ∈ lastPage looked packets) : ∃ other, lastPage (fun _ => true) packets = some other := by
  induction packets using List.reverseRecOn with
  | nil => cases found
  | append_singleton before packet ih =>
    rw [lastPage_snoc] at found ⊢
    by_cases header : packet.IsHeader
    · exact ⟨headerPage packet.data, if_pos ⟨header, rfl⟩⟩
    · rw [if_neg (fun both => header both.1)] at found ⊢
      exact ih found

theorem displayed_accesses (P : Nat) (packet : Packet) (displayed : packet.Displayed) :
    (parseTeletextData P packet.addr packet.data).2 =
      rowAccesses (some packet.magazine) P packet.row packet.data := by
  have decoded := packet_address packet
  have low := displayed.1
  have high := displayed.2
  rw [parse_row decoded (by omega) (by omega)]

/-- The rows of interleaved magazines are kept apart exactly where their current pages have the
same number. -/
theorem rowsKept_iff (packets : List Packet) : RowsKept packets ↔ PagesAgree packets := by
  constructor
  · intro kept before packet after split displayed page last
    obtain ⟨stored, bounds⟩ := kept before packet after split displayed page last
    obtain ⟨other, any⟩ := lastPage_any last
    rw [displayed_accesses _ packet displayed, currentPage_eq, any, Option.getD_some] at stored
    have same := rowAccesses_page stored
    have page := (rowAccesses_inBounds _ _ _ _ (by omega)).mp bounds
    exact ⟨by rw [any, same], page⟩
  · intro agree before packet after split displayed page last
    obtain ⟨any, small⟩ := agree before packet after split displayed page last
    constructor
    · rw [displayed_accesses _ packet displayed, currentPage_eq, any, Option.getD_some]
    · exact (rowAccesses_inBounds _ _ _ _ (by omega)).mpr small

def pageHeader (magazine : Fin 8) (tens units : Fin 16) : Packet where
  magazine := magazine
  row := 0
  data i := hammingCode (if i = unitsByte then units else if i = tensByte then tens else 0)
  clean _ _ _ := ⟨_, rfl⟩

def blankRow (magazine : Fin 8) : Packet where
  magazine := magazine
  row := 1
  data _ := 0x04
  clean zero := absurd zero (by decide)

-- a row of page 10 of magazine 1, behind the header of page 20 of magazine 2
theorem parallel_magazines_mix : ¬ ∀ packets, RowsKept packets := by
  intro kept
  have stored := (kept [pageHeader 1 1 0, pageHeader 2 2 0, blankRow 1]
    [pageHeader 1 1 0, pageHeader 2 2 0] (blankRow 1) [] rfl ⟨by decide, by decide⟩ 10
    (by decide +kernel)).1
  rw [displayed_accesses _ _ ⟨by decide, by decide⟩] at stored
  have current : currentPage [pageHeader 1 1 0, pageHeader 2 2 0] = 20 := by decide +kernel
  have same := rowAccesses_page stored
  omega

end Magazines

section Correction

/-- At most one bit of each protected byte arrives as its opposite. -/
structure Flips where
  magazine : Option (Fin 8)
  packet : Option (Fin 8)
  units : Option (Fin 8)
  tens : Option (Fin 8)

variable (packet : Packet) (flips : Flips)

def receivedAddr : Nat :=
  address (flipped (hammingCode packet.first) flips.magazine)
    (flipped (hammingCode packet.second) flips.packet)

-- only a header has its page number protected in this way
def receivedData (i : Fin 40) : UInt8 :=
  if packet.row = 0 then
    if i = unitsByte then flipped (packet.data unitsByte) flips.units
    else if i = tensByte then flipped (packet.data tensByte) flips.tens
    else packet.data i
  else packet.data i

/-- The received packet has the same magazine, row and page, and writes the same. -/
def Corrected (P : Nat) : Prop :=
  decodeHammingAddress (receivedAddr packet flips) = decodeHammingAddress packet.addr ∧
    parseTeletextData P (receivedAddr packet flips) (receivedData packet flips) =
      parseTeletextData P packet.addr packet.data

def HarmlessFlips : Prop :=
  Harmless (hammingCode packet.first) flips.magazine ∧
    Harmless (hammingCode packet.second) flips.packet ∧
    (packet.row = 0 →
      Harmless (packet.data unitsByte) flips.units ∧ Harmless (packet.data tensByte) flips.tens)

theorem received_address :
    decodeHammingAddress (receivedAddr packet flips) = decodeHammingAddress packet.addr ↔
      Harmless (hammingCode packet.first) flips.magazine ∧
        Harmless (hammingCode packet.second) flips.packet := by
  obtain ⟨accepted, -, firstSame⟩ := flipped_decoded packet.first flips.magazine
  obtain ⟨-, -, secondSame⟩ := flipped_decoded packet.second flips.packet
  rw [packet_address]
  constructor
  · intro same
    obtain ⟨first, high⟩ := hamming8Data_nibble
      (decodeHamming8Code (flipped (hammingCode packet.first) flips.magazine))
    obtain ⟨second, low⟩ := hamming8Data_nibble
      (decodeHamming8Code (flipped (hammingCode packet.second) flips.packet))
    rw [receivedAddr, decodeHammingAddress_nibbles accepted high low] at same
    obtain ⟨row, number⟩ := Prod.mk.inj same
    have rows : first.val / 8 + 2 * second.val = packet.row := Int.ofNat.inj row
    have numbers : first.val % 8 = packet.magazine := Option.some.inj number
    rw [← firstSame, ← secondSame, high, low, Packet.first, Packet.second]
    dsimp only
    omega
  · intro harmless
    exact nibbles_address packet accepted (firstSame.mpr harmless.1) (secondSame.mpr harmless.2)

theorem received_page (header : packet.row = 0) :
    headerPage (receivedData packet flips) = headerPage packet.data ↔
      Harmless (packet.data unitsByte) flips.units ∧
        Harmless (packet.data tensByte) flips.tens := by
  obtain ⟨units, unitsCode⟩ := packet.clean header unitsByte (by decide)
  obtain ⟨tens, tensCode⟩ := packet.clean header tensByte (by decide)
  obtain ⟨-, unitsLess, unitsSame⟩ := flipped_decoded units flips.units
  obtain ⟨-, tensLess, tensSame⟩ := flipped_decoded tens flips.tens
  have first : receivedData packet flips unitsByte = flipped (hammingCode units) flips.units := by
    simp [receivedData, header, unitsCode]
  have second : receivedData packet flips tensByte = flipped (hammingCode tens) flips.tens := by
    have apart : tensByte ≠ unitsByte := by decide
    simp [receivedData, header, apart, tensCode]
  rw [headerPage, headerPage, headerNibble, headerNibble, headerNibble, headerNibble, first, second,
    unitsCode, tensCode, code_data, code_data, ← unitsSame, ← tensSame]
  omega

theorem received_erases (header : packet.row = 0) :
    headerErases (receivedData packet flips) = headerErases packet.data := by
  have third : receivedData packet flips 3 = packet.data 3 := by
    simp [receivedData, header, unitsByte, tensByte]
  rw [headerErases, headerErases, headerNibble, headerNibble, third]

theorem received_body (body : packet.row ≠ 0) : receivedData packet flips = packet.data := by
  funext i
  exact if_neg body

/-- A single error is corrected exactly in a protection bit, and in a data bit that is received
as set: the correction clears the bit that it finds. -/
theorem corrected_iff (P : Nat) : Corrected packet flips P ↔ HarmlessFlips packet flips := by
  rw [Corrected, HarmlessFlips, received_address, and_assoc]
  apply and_congr_right
  intro magazine
  apply and_congr_right
  intro second
  have decoded := packet_address packet
  have received := ((received_address packet flips).mpr ⟨magazine, second⟩).trans decoded
  by_cases header : packet.row = 0
  · have zero : (packet.row.val : Int) = 0 := by rw [header]; rfl
    rw [zero] at decoded received
    rw [parse_header decoded, parse_header received, ← received_page packet flips header,
      received_erases packet flips header]
    constructor
    · intro same _
      exact (Prod.mk.inj same).1
    · intro same
      rw [same header]
  · rw [received_body packet flips header]
    refine iff_of_true ?_ (fun zero => absurd zero header)
    rw [parseTeletextData, parseTeletextData, received, decoded]

-- The first data bit of the magazine byte arrives as unset, and is cleared once more.
theorem cleared_bit_stays : ¬ ∀ packet flips P, Corrected packet flips P := by
  intro corrected
  have same := (corrected (blankRow 1) ⟨some 6, none, none, none⟩ 0).1
  have apart : decodeHammingAddress (receivedAddr (blankRow 1) ⟨some 6, none, none, none⟩) ≠
      decodeHammingAddress (blankRow 1).addr := by
    decide +kernel
  exact apart same

end Correction

end TsAnalyze.Teletext
