import TsAnalyze.Demux.Packet

set_option autoImplicit false

namespace TsAnalyze.Demux

def baseClk : Nat := 27000000

-- in ticks of the system clock
def pcrPeriod : Nat := 300 * 2 ^ 33

def PcrClock.Legal (clock : PcrClock) : Prop :=
  clock.programClockReferenceBase < 2 ^ 33 ∧ clock.programClockReferenceExtension < 300

theorem calcPcrClock_lt (clock : PcrClock) (legal : clock.Legal) :
    (calcPcrClock clock).toNat < pcrPeriod := by
  have base := legal.1
  have extension := legal.2
  have small : clock.programClockReferenceBase * 300 + clock.programClockReferenceExtension <
      pcrPeriod := by
    unfold pcrPeriod
    omega
  rw [calcPcrClock, UInt64.toNat_ofNat']
  exact lt_of_le_of_lt (Nat.mod_le _ _) small

/-- The entry of a PID after its packets. -/
def countPackets (pktLen : UInt8) (packets : List TsHeader) : Option PidOps :=
  packets.foldlM (fun dev head => countPacket dev pktLen head) {}

def lastPcr (packets : List TsHeader) : Option UInt64 :=
  packets.foldl (fun last head => head.pcr <|> last) none

-- the packets behind the last one with a clock
def sincePcr (packets : List TsHeader) : Nat :=
  packets.foldl (fun count head => if head.pcr.isSome then 0 else count + 1) 0

@[simp] theorem lastPcr_snoc (before : List TsHeader) (head : TsHeader) :
    lastPcr (before ++ [head]) = (head.pcr <|> lastPcr before) := by
  simp [lastPcr]

@[simp] theorem sincePcr_snoc (before : List TsHeader) (head : TsHeader) :
    sincePcr (before ++ [head]) = if head.pcr.isSome then 0 else sincePcr before + 1 := by
  simp [sincePcr]

theorem sincePcr_le (packets : List TsHeader) : sincePcr packets ≤ packets.length := by
  induction packets using List.reverseRecOn with
  | nil => exact Nat.le_refl 0
  | append_singleton before head ih =>
    rw [sincePcr_snoc, List.length_append, List.length_singleton]
    split <;> omega

theorem countPackets_snoc (pktLen : UInt8) (before : List TsHeader) (head : TsHeader) :
    countPackets pktLen (before ++ [head]) =
      (countPackets pktLen before).bind fun dev => countPacket dev pktLen head := by
  simp [countPackets, List.foldlM_append]

/-- What the entry has counted. -/
structure Counted (pktLen : UInt8) (packets : List TsHeader) (dev : PidOps) : Prop where
  pktsIn : dev.pktsIn = UInt64.ofNat packets.length
  pcr : dev.pcr = (lastPcr packets).getD 0
  bitsIn : (lastPcr packets).isSome →
    dev.bitsIn = UInt64.ofNat ((packets.length - sincePcr packets) * pktLen.toNat * 8)

theorem counted_start (pktLen : UInt8) : Counted pktLen [] {} :=
  ⟨rfl, rfl, fun found => absurd found (by decide)⟩

/-- The bits that the packets since the last clock make up with the present one. -/
def bitsBetween (pktLen : UInt8) (before : List TsHeader) : Nat :=
  (sincePcr before + 1) * pktLen.toNat * 8

theorem counted_bits {pktLen : UInt8} {before : List TsHeader} {dev : PidOps}
    (counted : Counted pktLen before dev) :
    (dev.pktsIn + 1) * UInt64.ofNat pktLen.toNat * 8 =
      UInt64.ofNat ((before.length + 1) * pktLen.toNat * 8) := by
  rw [counted.pktsIn, UInt64.ofNat_mul, UInt64.ofNat_mul, UInt64.ofNat_add]
  rfl

theorem counted_between {pktLen : UInt8} {before : List TsHeader} {dev : PidOps}
    (counted : Counted pktLen before dev) (found : (lastPcr before).isSome) :
    (dev.pktsIn + 1) * UInt64.ofNat pktLen.toNat * 8 - dev.bitsIn =
      UInt64.ofNat (bitsBetween pktLen before) := by
  have since := sincePcr_le before
  have fewer : (before.length - sincePcr before) * pktLen.toNat * 8 ≤
      (before.length + 1) * pktLen.toNat * 8 := by
    apply Nat.mul_le_mul_right
    apply Nat.mul_le_mul_right
    omega
  have difference : (before.length + 1) * pktLen.toNat * 8 -
      (before.length - sincePcr before) * pktLen.toNat * 8 = bitsBetween pktLen before := by
    have packets : before.length + 1 - (before.length - sincePcr before) = sincePcr before + 1 := by
      omega
    rw [← Nat.sub_mul, ← Nat.sub_mul, packets, bitsBetween]
  rw [counted_bits counted, counted.bitsIn found, ← UInt64.ofNat_sub fewer, difference]

theorem countPacket_quiet (dev : PidOps) (pktLen : UInt8) (head : TsHeader)
    (clock : head.pcr = none) :
    countPacket dev pktLen head = some (countError head { dev with pktsIn := dev.pktsIn + 1 }) := by
  rw [countPacket, clock]

theorem countPacket_clock (dev : PidOps) (pktLen : UInt8) (head : TsHeader) (pcr : UInt64)
    (clock : head.pcr = some pcr) :
    countPacket dev pktLen head =
      if pcr = dev.pcr then none
      else
        let bits := (dev.pktsIn + 1) * UInt64.ofNat pktLen.toNat * 8
        some (countError head
          { dev with
              pktsIn := dev.pktsIn + 1
              bitrate := (bits - dev.bitsIn) * 27000000 / (pcr - dev.pcr)
              pcr := pcr
              bitsIn := bits }) := by
  rw [countPacket, clock]
  simp only [calcBitrate]
  by_cases same : pcr = dev.pcr
  · simp [same]
  · have apart : pcr - dev.pcr ≠ 0 := fun equal =>
      same ((UInt64.sub_eq_iff_eq_add.mp equal).trans (UInt64.zero_add _))
    simp [same, apart]

theorem countPacket_counted {pktLen : UInt8} {before : List TsHeader} {dev after : PidOps}
    {head : TsHeader} (counted : Counted pktLen before dev)
    (taken : countPacket dev pktLen head = some after) :
    Counted pktLen (before ++ [head]) after := by
  have length : (before ++ [head]).length = before.length + 1 := by simp
  have packets : dev.pktsIn + 1 = UInt64.ofNat (before.length + 1) := by
    rw [counted.pktsIn, UInt64.ofNat_add]
    rfl
  cases clock : head.pcr with
  | none =>
    rw [countPacket_quiet dev pktLen head clock] at taken
    rw [← Option.some.inj taken]
    constructor
    · simpa using packets
    · simpa [clock] using counted.pcr
    · intro found
      have behind := sincePcr_le before
      have bits := counted.bitsIn (by simpa [clock] using found)
      simpa [clock] using bits
  | some pcr =>
    rw [countPacket_clock dev pktLen head pcr clock] at taken
    split at taken
    · cases taken
    · rw [← Option.some.inj taken]
      constructor
      · simpa using packets
      · simp [clock]
      · intro found
        simpa [clock] using counted_bits counted

theorem countPackets_counted (pktLen : UInt8) (packets : List TsHeader) (dev : PidOps)
    (counting : countPackets pktLen packets = some dev) : Counted pktLen packets dev := by
  induction packets using List.reverseRecOn generalizing dev with
  | nil =>
    rw [← Option.some.inj counting]
    exact counted_start pktLen
  | append_singleton before head ih =>
    rw [countPackets_snoc] at counting
    obtain ⟨earlier, first, taken⟩ := Option.bind_eq_some_iff.mp counting
    exact countPacket_counted (ih earlier first) taken

/-- The ticks from one clock to the next, over the wrap of the counter. -/
def pcrDistance (earlier pcr : UInt64) : Nat :=
  (pcr.toNat + pcrPeriod - earlier.toNat) % pcrPeriod

-- the counted bits times the clock's frequency, in 64 bits
def scaledBits (pktLen : UInt8) (before : List TsHeader) : Nat :=
  bitsBetween pktLen before * baseClk % 2 ^ 64

theorem scaledBits_lt (pktLen : UInt8) (before : List TsHeader) :
    scaledBits pktLen before < 2 ^ 64 :=
  Nat.mod_lt _ (Nat.two_pow_pos 64)

/-- The packet is counted, and between two clocks at a distance the stored bitrate is the rate. -/
def RateRight (pktLen : UInt8) (before : List TsHeader) (head : TsHeader) : Prop :=
  ∃ dev, countPackets pktLen (before ++ [head]) = some dev ∧
    ∀ pcr ∈ head.pcr, ∀ earlier ∈ lastPcr before, 0 < pcrDistance earlier pcr →
      dev.bitrate.toNat = scaledBits pktLen before / pcrDistance earlier pcr

/-- The clock is not the one stored, and where it has wrapped the rate rounds to zero. -/
def ClockMoves (pktLen : UInt8) (before : List TsHeader) (head : TsHeader) : Prop :=
  ∀ pcr ∈ head.pcr, pcr ≠ (lastPcr before).getD 0 ∧
    ∀ earlier ∈ lastPcr before,
      earlier < pcr ∨ scaledBits pktLen before < pcr.toNat + pcrPeriod - earlier.toNat

-- A wrapped difference in 64 bits exceeds half the range, so its quotient is at most 1.
theorem wrapped_quotient (scaled earlier pcr : Nat) (inside : scaled < 2 ^ 64)
    (before : earlier < pcrPeriod) (wrapped : pcr < earlier) :
    scaled / (2 ^ 64 - earlier + pcr) = scaled / (pcr + pcrPeriod - earlier) ↔
      scaled < pcr + pcrPeriod - earlier := by
  have period : pcrPeriod = 2576980377600 := by decide
  rw [period] at before ⊢
  constructor
  · intro same
    by_contra large
    have first : 1 ≤ scaled / (pcr + 2576980377600 - earlier) :=
      (Nat.one_le_div_iff (by omega)).mpr (by omega)
    rw [← same] at first
    have reached := (Nat.one_le_div_iff (by omega)).mp first
    have second : 2 ≤ scaled / (pcr + 2576980377600 - earlier) :=
      (Nat.le_div_iff_mul_le (by omega)).mpr (by omega)
    have below : scaled / (2 ^ 64 - earlier + pcr) < 2 :=
      (Nat.div_lt_iff_lt_mul (by omega)).mpr (by omega)
    omega
  · intro small
    rw [Nat.div_eq_of_lt small, Nat.div_eq_of_lt (by omega)]

theorem stored_bitrate {pktLen : UInt8} {before : List TsHeader} {dev : PidOps} (pcr : UInt64)
    {earlier : UInt64} (counted : Counted pktLen before dev) (last : lastPcr before = some earlier) :
    (((dev.pktsIn + 1) * UInt64.ofNat pktLen.toNat * 8 - dev.bitsIn) * 27000000 /
        (pcr - dev.pcr)).toNat =
      scaledBits pktLen before / (pcr - earlier).toNat := by
  have stored : dev.pcr = earlier := by rw [counted.pcr, last, Option.getD_some]
  rw [counted_between counted (by simp [last]), stored, UInt64.toNat_div, UInt64.toNat_mul,
    UInt64.toNat_ofNat', scaledBits]
  have clk : (27000000 : UInt64).toNat = baseClk := rfl
  rw [clk, Nat.mod_mul_mod]

theorem distance_quotient (scaled : Nat) (earlier pcr : UInt64) (inside : scaled < 2 ^ 64)
    (earlierLegal : earlier.toNat < pcrPeriod) (legal : pcr.toNat < pcrPeriod)
    (moved : pcr ≠ earlier) :
    (0 < pcrDistance earlier pcr →
        scaled / (pcr - earlier).toNat = scaled / pcrDistance earlier pcr) ↔
      earlier < pcr ∨ scaled < pcr.toNat + pcrPeriod - earlier.toNat := by
  have range := pcr.toNat_lt
  have apart : pcr.toNat ≠ earlier.toNat := fun same => moved (UInt64.toNat_inj.mp same)
  rw [UInt64.lt_iff_toNat_lt, UInt64.toNat_sub]
  by_cases ahead : earlier.toNat < pcr.toNat
  · have distance : pcrDistance earlier pcr = pcr.toNat - earlier.toNat := by
      have turn : pcr.toNat + pcrPeriod - earlier.toNat =
          pcr.toNat - earlier.toNat + pcrPeriod := by omega
      rw [pcrDistance, turn, Nat.add_mod_right, Nat.mod_eq_of_lt (by omega)]
    have difference : (2 ^ 64 - earlier.toNat + pcr.toNat) % 2 ^ 64 =
        pcr.toNat - earlier.toNat := by
      have turn : 2 ^ 64 - earlier.toNat + pcr.toNat = pcr.toNat - earlier.toNat + 2 ^ 64 := by omega
      rw [turn, Nat.add_mod_right, Nat.mod_eq_of_lt (by omega)]
    rw [distance, difference]
    simp [ahead]
  · have distance : pcrDistance earlier pcr = pcr.toNat + pcrPeriod - earlier.toNat :=
      Nat.mod_eq_of_lt (by omega)
    have difference : (2 ^ 64 - earlier.toNat + pcr.toNat) % 2 ^ 64 =
        2 ^ 64 - earlier.toNat + pcr.toNat := Nat.mod_eq_of_lt (by omega)
    have positive : 0 < pcr.toNat + pcrPeriod - earlier.toNat := by omega
    have quotient := wrapped_quotient scaled earlier.toNat pcr.toNat inside earlierLegal (by omega)
    rw [distance, difference, quotient]
    simp [positive, ahead]

theorem rateRight_step {pktLen : UInt8} {before : List TsHeader} {dev : PidOps} (head : TsHeader)
    (legal : ∀ pcr ∈ head.pcr, pcr.toNat < pcrPeriod)
    (earlierLegal : ∀ earlier ∈ lastPcr before, earlier.toNat < pcrPeriod)
    (counting : countPackets pktLen before = some dev) :
    RateRight pktLen before head ↔ ClockMoves pktLen before head := by
  have counted := countPackets_counted pktLen before dev counting
  unfold RateRight ClockMoves
  rw [countPackets_snoc, counting, Option.bind_some]
  cases clock : head.pcr with
  | none => simp [countPacket_quiet dev pktLen head clock]
  | some pcr =>
    rw [countPacket_clock dev pktLen head pcr clock]
    have bound := legal pcr clock
    by_cases same : pcr = dev.pcr
    · have stored : pcr = (lastPcr before).getD 0 := same.trans counted.pcr
      simp [same.symm, stored.symm]
    · have moved : pcr ≠ (lastPcr before).getD 0 := fun equal => same (equal.trans counted.pcr.symm)
      cases last : lastPcr before with
      | none => simpa [same, last] using moved
      | some earlier =>
        have rate := stored_bitrate pcr counted last
        have earlierBound := earlierLegal earlier last
        rw [last, Option.getD_some] at moved
        have quotient := distance_quotient _ earlier pcr (scaledBits_lt pktLen before)
          earlierBound bound moved
        rw [if_neg same]
        simp only [Option.some.injEq, exists_eq_left', Option.mem_def, forall_eq',
          countError_bitrate, Option.getD_some]
        rw [rate, quotient]
        exact (and_iff_right moved).symm

/-- What holds of every packet of a run, with the packets in front of it. -/
def Throughout (property : List TsHeader → TsHeader → Prop) (packets : List TsHeader) : Prop :=
  ∀ before head after, packets = before ++ head :: after → property before head

theorem throughout_front {property : List TsHeader → TsHeader → Prop}
    {before after : List TsHeader} (holds : Throughout property (before ++ after)) :
    Throughout property before := by
  intro front middle rest split
  exact holds front middle (rest ++ after) (by rw [split]; simp)

def LegalClocks (packets : List TsHeader) : Prop :=
  ∀ head ∈ packets, ∀ pcr ∈ head.pcr, ∃ clock : PcrClock, clock.Legal ∧ pcr = calcPcrClock clock

theorem legal_clock {packets : List TsHeader} (legal : LegalClocks packets) {head : TsHeader}
    (member : head ∈ packets) {pcr : UInt64} (clock : pcr ∈ head.pcr) : pcr.toNat < pcrPeriod := by
  obtain ⟨found, bounded, same⟩ := legal head member pcr clock
  rw [same]
  exact calcPcrClock_lt found bounded

theorem lastPcr_member {packets : List TsHeader} {pcr : UInt64} (last : pcr ∈ lastPcr packets) :
    ∃ head ∈ packets, pcr ∈ head.pcr := by
  induction packets using List.reverseRecOn with
  | nil => cases last
  | append_singleton before head ih =>
    rw [lastPcr_snoc] at last
    cases clock : head.pcr with
    | none =>
      rw [clock] at last
      obtain ⟨found, member, has⟩ := ih last
      exact ⟨found, List.mem_append_left _ member, has⟩
    | some other =>
      rw [clock] at last
      exact ⟨head, by simp, clock.trans last⟩

theorem counts_before {pktLen : UInt8} {packets : List TsHeader}
    (right : Throughout (RateRight pktLen) packets) : ∃ dev, countPackets pktLen packets = some dev := by
  induction packets using List.reverseRecOn with
  | nil => exact ⟨{}, rfl⟩
  | append_singleton before head ih =>
    obtain ⟨dev, counting, -⟩ := right before head [] rfl
    exact ⟨dev, counting⟩

theorem legal_front (before after : List TsHeader) (legal : LegalClocks (before ++ after)) :
    LegalClocks before :=
  fun head member => legal head (List.mem_append_left after member)

theorem rateRight_iff {pktLen : UInt8} {before : List TsHeader} {head : TsHeader} {dev : PidOps}
    (legal : LegalClocks (before ++ [head])) (counting : countPackets pktLen before = some dev) :
    RateRight pktLen before head ↔ ClockMoves pktLen before head := by
  apply rateRight_step head _ _ counting
  · intro pcr clock
    exact legal_clock legal (List.mem_append_right _ List.mem_cons_self) clock
  · intro earlier last
    obtain ⟨found, member, clock⟩ := lastPcr_member last
    exact legal_clock legal (List.mem_append_left _ member) clock

theorem counts_moving {pktLen : UInt8} {packets : List TsHeader} (legal : LegalClocks packets)
    (moves : Throughout (ClockMoves pktLen) packets) :
    ∃ dev, countPackets pktLen packets = some dev := by
  induction packets using List.reverseRecOn with
  | nil => exact ⟨{}, rfl⟩
  | append_singleton before head ih =>
    obtain ⟨earlier, counting⟩ := ih (legal_front before [head] legal) (throughout_front moves)
    have right := (rateRight_iff legal counting).mpr (moves before head [] rfl)
    obtain ⟨dev, counted, -⟩ := right
    exact ⟨dev, counted⟩

def clockHeader (base : Nat) : TsHeader :=
  { transportErrorIndicator := false, payloadUnitStartIndicator := false, pid := 0x100
    adaptationFieldControl := 2, continuityCounter := 0
    pcr := some (calcPcrClock ⟨base, 0⟩), payload := 188 }

end TsAnalyze.Demux
