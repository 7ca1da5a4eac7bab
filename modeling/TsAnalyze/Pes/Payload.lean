import TsAnalyze.Pes.Packet

set_option autoImplicit false

namespace TsAnalyze.Pes

open Memory Tables

section Sizes

-- a size behind a size
def thenSize (early late : Block → Nat) (memory : Block) : Nat :=
  early memory + late (memory.drop (early memory))

def ifSize (present : Prop) [Decidable present] (size : Block → Nat) (memory : Block) : Nat :=
  if present then size memory else 0

theorem thenSize_le {early late : Block → Nat} {most last : Nat} (left : ∀ memory, early memory ≤ most)
    (right : ∀ memory, late memory ≤ last) (memory : Block) :
    thenSize early late memory ≤ most + last :=
  Nat.add_le_add (left _) (right _)

theorem ifSize_le (present : Prop) [Decidable present] {size : Block → Nat} {most : Nat}
    (bound : ∀ memory, size memory ≤ most) (memory : Block) : ifSize present size memory ≤ most := by
  rw [ifSize]
  split
  · exact bound memory
  · exact Nat.zero_le most

-- over parts that stand one behind the other
theorem thenSize_encoded {early late : Block → Nat} (left : List UInt8) (behind : Block)
    (first : early (ofBytes left ++ behind) = left.length) :
    thenSize early late (ofBytes left ++ behind) = left.length + late behind := by
  rw [thenSize, first, List.drop_left' (ofBytes_length left)]

theorem ifSize_encoded {T : Type} {size : Block → Nat} (encode : T → List UInt8)
    (found : ∀ value behind, size (ofBytes (encode value) ++ behind) = (encode value).length)
    (value : Option T) (present : Prop) [Decidable present] (same : present ↔ value.isSome = true)
    (behind : Block) :
    ifSize present size (ofBytes (value.elim [] encode) ++ behind) =
      (value.elim [] encode).length := by
  cases value with
  | none => simp [ifSize, same]
  | some value => simp [ifSize, same, found]

end Sizes

/-- A part of the header takes this many bytes, all of which head_len counts but `lag`. -/
structure Spans {A : Type} (part : Field A) (size : Block → Nat) (lag : Nat) : Prop where
  reads : ∀ pkt place, Readable (pkt.drop place.buf) (size (pkt.drop place.buf)) →
    ∃ result, part pkt place = some result
  buf : ∀ pkt place result, part pkt place = some result →
    result.2.buf = place.buf + size (pkt.drop place.buf)
  headLen : ∀ pkt place result, part pkt place = some result →
    result.2.headLen + lag = place.headLen + size (pkt.drop place.buf)

section Spans

variable {A B : Type}

theorem spans_pure (value : A) : Spans (pure value) (fun _ => 0) 0 := by
  constructor
  · exact fun pkt place _ => ⟨(value, place), rfl⟩
  · intro pkt place result found
    cases found
    rfl
  · intro pkt place result found
    cases found
    rfl

theorem spans_field (value : Block → Option A) (size : Block → Nat) (lag : Nat)
    (behind : ∀ memory, lag ≤ size memory)
    (reads : ∀ memory, Readable memory (size memory) → ∃ found, value memory = some found) :
    Spans (field value size lag) size lag := by
  constructor
  · intro pkt place readable
    obtain ⟨found, same⟩ := reads _ readable
    refine ⟨(found, ⟨place.buf + size (pkt.drop place.buf),
      place.headLen + size (pkt.drop place.buf) - lag⟩), ?_⟩
    simp only [field, same, Option.bind_eq_bind, Option.bind_some]
    rfl
  · intro pkt place result found
    obtain ⟨read, -, same⟩ := Option.bind_eq_some_iff.mp found
    rw [← Option.some.inj same]
  · intro pkt place result found
    obtain ⟨read, -, same⟩ := Option.bind_eq_some_iff.mp found
    have less := behind (pkt.drop place.buf)
    rw [← Option.some.inj same]
    dsimp only
    omega

theorem spans_bind {first : Field A} {next : A → Field B} {early late : Block → Nat}
    {earlyLag lateLag : Nat} (left : Spans first early earlyLag)
    (right : ∀ value, Spans (next value) late lateLag) :
    Spans (first >>= next) (thenSize early late) (earlyLag + lateLag) := by
  have split : ∀ pkt place result, (first >>= next) pkt place = some result →
      ∃ value after, first pkt place = some (value, after) ∧
        next value pkt after = some result := by
    intro pkt place result found
    obtain ⟨⟨value, after⟩, reading, later⟩ := Option.bind_eq_some_iff.mp found
    exact ⟨value, after, reading, later⟩
  constructor
  · intro pkt place readable
    obtain ⟨⟨value, after⟩, reading⟩ := left.reads pkt place (readable.le (Nat.le_add_right _ _))
    have moved : after.buf = place.buf + early (pkt.drop place.buf) :=
      left.buf pkt place _ reading
    have rest := readable.drop (early (pkt.drop place.buf))
    rw [thenSize, List.drop_drop, ← moved, Nat.add_sub_cancel_left] at rest
    obtain ⟨result, later⟩ := (right value).reads pkt after rest
    refine ⟨result, ?_⟩
    change ((first pkt place).bind fun found => next found.1 pkt found.2) = some result
    rw [reading, Option.bind_some]
    exact later
  · intro pkt place result found
    obtain ⟨value, after, reading, later⟩ := split pkt place result found
    have moved : after.buf = place.buf + early (pkt.drop place.buf) :=
      left.buf pkt place _ reading
    rw [(right value).buf pkt after result later, thenSize, List.drop_drop, ← moved]
    omega
  · intro pkt place result found
    obtain ⟨value, after, reading, later⟩ := split pkt place result found
    have moved : after.buf = place.buf + early (pkt.drop place.buf) :=
      left.buf pkt place _ reading
    have counted : after.headLen + earlyLag = place.headLen + early (pkt.drop place.buf) :=
      left.headLen pkt place _ reading
    have last := (right value).headLen pkt after result later
    rw [thenSize, List.drop_drop, ← moved]
    omega

theorem spans_map {part : Field A} {size : Block → Nat} {lag : Nat} {f : A → B}
    (spans : Spans part size lag) : Spans (do let value ← part; return f value) size lag :=
  spans_bind spans fun value => spans_pure (f value)

theorem spans_optionally (present : Prop) [Decidable present] {part : Field A}
    {size : Block → Nat} {lag : Nat} (spans : Spans part size lag) :
    Spans (optionally present part) (ifSize present size) (if present then lag else 0) := by
  by_cases holds : present
  · rw [optionally, if_pos holds, if_pos holds]
    have same : ifSize present size = size := by
      funext memory
      exact if_pos holds
    rw [same]
    exact spans_map spans
  · rw [optionally, if_neg holds, if_neg holds]
    have same : ifSize present size = fun _ => 0 := by
      funext memory
      exact if_neg holds
    rw [same]
    exact spans_pure none

theorem spans_unlagged (present : Prop) [Decidable present] {part : Field A}
    {size : Block → Nat} (spans : Spans part size 0) :
    Spans (optionally present part) (ifSize present size) 0 := by
  have optional := spans_optionally present spans
  rwa [ite_self] at optional

-- parts whose sizes do not depend on the memory
theorem spans_present (present : Prop) [Decidable present] {part : Field A} {size : Nat}
    (spans : Spans part (fun _ => size) 0) :
    Spans (optionally present part) (fun _ => if present then size else 0) 0 :=
  spans_unlagged present spans

theorem spans_then {first : Field A} {next : A → Field B} {early late : Nat}
    (left : Spans first (fun _ => early) 0) (right : ∀ value, Spans (next value) (fun _ => late) 0) :
    Spans (first >>= next) (fun _ => early + late) 0 :=
  spans_bind left right

theorem spans_sized (size : Nat) (value : Block → Option A)
    (reads : ∀ memory, Readable memory size → ∃ found, value memory = some found) :
    Spans (sized size value) (fun _ => size) 0 :=
  spans_field value (fun _ => size) 0 (fun _ => Nat.zero_le _) reads

end Spans

section Parts

theorem readPtsDts_spans (flag : Nat) : Spans (readPtsDts flag) (fun _ => 5) 0 := by
  apply spans_sized
  intro memory readable
  obtain ⟨first, firstRead⟩ := readable 0 (by omega)
  obtain ⟨second, secondRead⟩ := readable.read16 1 (by omega)
  obtain ⟨third, thirdRead⟩ := readable.read16 3 (by omega)
  simp [firstRead, secondRead, thirdRead]

theorem readEscr_spans : Spans readEscr (fun _ => 6) 0 := by
  apply spans_sized
  intro memory readable
  obtain ⟨b0, read0⟩ := readable 0 (by omega)
  obtain ⟨b1, read1⟩ := readable 1 (by omega)
  obtain ⟨b2, read2⟩ := readable 2 (by omega)
  obtain ⟨b3, read3⟩ := readable 3 (by omega)
  obtain ⟨b4, read4⟩ := readable 4 (by omega)
  obtain ⟨b5, read5⟩ := readable 5 (by omega)
  simp [read0, read1, read2, read3, read4, read5]

theorem readEsRate_spans : Spans readEsRate (fun _ => 3) 0 := by
  apply spans_sized
  intro memory readable
  obtain ⟨b0, read0⟩ := readable 0 (by omega)
  obtain ⟨b1, read1⟩ := readable 1 (by omega)
  obtain ⟨b2, read2⟩ := readable 2 (by omega)
  simp [read0, read1, read2]

theorem readTrickMode_spans : Spans readTrickMode (fun _ => 1) 0 := by
  apply spans_sized
  intro memory readable
  obtain ⟨b0, read0⟩ := readable 0 (by omega)
  simp [read0]

theorem readCopyInfo_spans : Spans readCopyInfo (fun _ => 1) 0 := by
  apply spans_sized
  intro memory readable
  obtain ⟨b0, read0⟩ := readable 0 (by omega)
  simp [read0]

theorem readPreviousCrc_spans : Spans readPreviousCrc (fun _ => 2) 0 :=
  spans_sized 2 _ fun _ readable => readable.read16 0 (by omega)

theorem readPrivateData_spans : Spans readPrivateData (fun _ => 16) 0 := by
  apply spans_sized
  intro memory readable
  obtain ⟨copied, copying, -⟩ :=
    Region.memcpy_whole (Region.zeros 16) memory readable.length_le
  exact ⟨copied, copying⟩

theorem readPackHeader_spans :
    Spans readPackHeader (fun memory => 1 + lengthByte 0xFF memory) 0 :=
  spans_field _ _ 0 (fun _ => Nat.zero_le _) fun _ readable => readable 0 (by omega)

theorem readSequenceCounter_spans : Spans readSequenceCounter (fun _ => 2) 2 := by
  apply spans_field
  · exact fun _ => Nat.le_refl 2
  · intro memory readable
    obtain ⟨b0, read0⟩ := readable 0 (by omega)
    obtain ⟨b1, read1⟩ := readable 1 (by omega)
    simp [read0, read1]

theorem readPStdBuffer_spans : Spans readPStdBuffer (fun _ => 2) 0 := by
  apply spans_sized
  intro memory readable
  obtain ⟨b0, read0⟩ := readable 0 (by omega)
  obtain ⟨b1, read1⟩ := readable 1 (by omega)
  simp [read0, read1]

theorem readExtensionField_spans :
    Spans readExtensionField (fun memory => 1 + lengthByte 0x7F memory) 0 := by
  apply spans_field
  · exact fun _ => Nat.zero_le _
  · intro memory readable
    obtain ⟨b0, read0⟩ := readable 0 (by omega)
    simp [read0]

end Parts

section Header

def fixedSize (flags : PesFlags) : Nat :=
  (if flags.ptsDtsFlags &&& 0x2 = 0x2 then 5 else 0) +
    ((if flags.ptsDtsFlags &&& 0x1 = 0x1 then 5 else 0) + ((if flags.escrFlag ≠ 0 then 6 else 0) +
      ((if flags.esRateFlag ≠ 0 then 3 else 0) + ((if flags.dsmTrickModeFlag ≠ 0 then 1 else 0) +
        ((if flags.additionalCopyInfoFlag ≠ 0 then 1 else 0) +
          (if flags.pesCrcFlag ≠ 0 then 2 else 0))))))

def subSize (flags : PesExtension) : Block → Nat :=
  thenSize (ifSize (flags.pesPrivateDataFlag ≠ 0) fun _ => 16)
    (thenSize (ifSize (flags.packHeaderFieldFlag ≠ 0) fun memory => 1 + lengthByte 0xFF memory)
      (thenSize (ifSize (flags.programPacketSequenceCounterFlag ≠ 0) fun _ => 2)
        (thenSize (ifSize (flags.pStdBufferFlag ≠ 0) fun _ => 2)
          (ifSize (flags.pesExtensionFlag2 ≠ 0) fun memory => 1 + lengthByte 0x7F memory))))

-- what head_len misses
def subLag (flags : PesExtension) : Nat :=
  if flags.programPacketSequenceCounterFlag ≠ 0 then 2 else 0

theorem readFixed_spans (flags : PesFlags) :
    Spans (readFixed flags) (fun _ => fixedSize flags) 0 := by
  apply spans_then (spans_present _ (readPtsDts_spans _))
  intro pts
  apply spans_then (spans_present _ (readPtsDts_spans _))
  intro dts
  apply spans_then (spans_present _ readEscr_spans)
  intro escr
  apply spans_then (spans_present _ readEsRate_spans)
  intro rate
  apply spans_then (spans_present _ readTrickMode_spans)
  intro trickMode
  apply spans_then (spans_present _ readCopyInfo_spans)
  intro copyInfo
  apply spans_map (spans_present _ readPreviousCrc_spans)

theorem readSubFields_spans (flags : PesExtension) :
    Spans (readSubFields flags) (subSize flags) (subLag flags) := by
  have lag : subLag flags = 0 + (0 + (subLag flags + (0 + 0))) := by omega
  rw [lag]
  apply spans_bind (spans_unlagged _ readPrivateData_spans)
  intro privateData
  apply spans_bind (spans_unlagged _ readPackHeader_spans)
  intro packHeadLength
  apply spans_bind (spans_optionally _ readSequenceCounter_spans)
  intro ppsc
  apply spans_bind (spans_unlagged _ readPStdBuffer_spans)
  intro pStdBuffer
  exact spans_map (spans_unlagged _ readExtensionField_spans)

-- the byte of flags of an extension
def extensionByte (flags : PesFlags) (pkt : Block) : UInt8 :=
  (read8 pkt (9 + fixedSize flags)).getD 0

-- the bytes that pdata moves on by behind PES_header_data_length
def headerSize (flags : PesFlags) (pkt : Block) : Nat :=
  fixedSize flags + if flags.pesExtensionFlag ≠ 0 then
    1 + subSize (extensionFlags (extensionByte flags pkt)) (pkt.drop (10 + fixedSize flags)) else 0

def headerLag (flags : PesFlags) (pkt : Block) : Nat :=
  if flags.pesExtensionFlag ≠ 0 then subLag (extensionFlags (extensionByte flags pkt)) else 0

theorem fixedSize_le (flags : PesFlags) : fixedSize flags ≤ 23 := by
  have most : ∀ (present : Prop) [Decidable present] (size : Nat),
      (if present then size else 0) ≤ size := by
    intro present _ size
    split
    · exact Nat.le_refl size
    · exact Nat.zero_le size
  exact Nat.add_le_add (most _ 5) (Nat.add_le_add (most _ 5) (Nat.add_le_add (most _ 6)
    (Nat.add_le_add (most _ 3) (Nat.add_le_add (most _ 1) (Nat.add_le_add (most _ 1) (most _ 2))))))

theorem subSize_le (flags : PesExtension) (memory : Block) : subSize flags memory ≤ 404 := by
  have byte : ∀ mask, mask < 256 → ∀ memory, 1 + lengthByte mask memory ≤ 1 + mask :=
    fun mask _ memory => Nat.add_le_add_left Nat.and_le_right 1
  exact thenSize_le (ifSize_le _ fun _ => Nat.le_refl 16)
    (thenSize_le (ifSize_le _ (byte 0xFF (by omega)))
      (thenSize_le (ifSize_le _ fun _ => Nat.le_refl 2)
        (thenSize_le (ifSize_le _ fun _ => Nat.le_refl 2) (ifSize_le _ (byte 0x7F (by omega))))))
    memory

theorem headerSize_le (flags : PesFlags) (pkt : Block) : headerSize flags pkt ≤ 428 := by
  have fixed := fixedSize_le flags
  have sub := subSize_le (extensionFlags (extensionByte flags pkt)) (pkt.drop (10 + fixedSize flags))
  rw [headerSize]
  split <;> omega

end Header

section NonPs

variable (flags : PesFlags) (pkt : Block)

-- the extension behind the other fields, if there is one
theorem readNonPs_bind {result : NonPs × Place}
    (found : readNonPs flags pkt ⟨9, 9⟩ = some result) :
    ∃ place extension, place.buf = 9 + fixedSize flags ∧ place.headLen = 9 + fixedSize flags ∧
      optionally (flags.pesExtensionFlag ≠ 0) readExtension pkt place =
        some (extension, result.2) := by
  have fixed := readFixed_spans flags
  obtain ⟨⟨packetData, place⟩, reading, found⟩ := Option.bind_eq_some_iff.mp found
  obtain ⟨⟨extension, after⟩, later, same⟩ := Option.bind_eq_some_iff.mp found
  have counted : place.headLen + 0 = 9 + fixedSize flags := fixed.headLen pkt ⟨9, 9⟩ _ reading
  refine ⟨place, extension, fixed.buf pkt ⟨9, 9⟩ _ reading, counted, ?_⟩
  rw [later, ← Option.some.inj same]

theorem readNonPs_lag {result : NonPs × Place}
    (found : readNonPs flags pkt ⟨9, 9⟩ = some result) :
    result.2.buf = result.2.headLen + headerLag flags pkt := by
  obtain ⟨place, extension, moved, counted, later⟩ := readNonPs_bind flags pkt found
  rw [headerLag]
  by_cases present : flags.pesExtensionFlag ≠ 0
  · rw [optionally, if_pos present] at later
    rw [if_pos present]
    obtain ⟨⟨read, after⟩, reading, same⟩ := Option.bind_eq_some_iff.mp later
    cases same
    obtain ⟨⟨b0, behind⟩, byte, reading⟩ := Option.bind_eq_some_iff.mp reading
    obtain ⟨known, knownRead, same⟩ := Option.bind_eq_some_iff.mp byte
    cases same
    dsimp only at knownRead
    rw [read8_drop, moved, Nat.add_zero] at knownRead
    have sub := readSubFields_spans (extensionFlags b0)
    have atEnd := sub.buf pkt _ _ reading
    have lag := sub.headLen pkt _ _ reading
    rw [extensionByte, knownRead, Option.getD_some]
    dsimp only at atEnd lag ⊢
    omega
  · rw [optionally, if_neg present] at later
    cases later
    rw [if_neg present, moved, counted, Nat.add_zero]

theorem readNonPs_reads (readable : Readable pkt (9 + headerSize flags pkt)) :
    ∃ result, readNonPs flags pkt ⟨9, 9⟩ = some result := by
  have fixed := readFixed_spans flags
  have rest := readable.drop 9
  rw [Nat.add_sub_cancel_left] at rest
  obtain ⟨⟨packetData, place⟩, reading⟩ :=
    fixed.reads pkt ⟨9, 9⟩ (rest.le (Nat.le_add_right _ _))
  have moved : place.buf = 9 + fixedSize flags := fixed.buf pkt ⟨9, 9⟩ _ reading
  have extended : ∃ result,
      optionally (flags.pesExtensionFlag ≠ 0) readExtension pkt place = some result := by
    by_cases present : flags.pesExtensionFlag ≠ 0
    · rw [headerSize, if_pos present] at readable
      obtain ⟨b0, byte⟩ := readable (9 + fixedSize flags) (by omega)
      have known : extensionByte flags pkt = b0 := by
        rw [extensionByte, byte, Option.getD_some]
      rw [known] at readable
      let behind : Place := ⟨place.buf + 1, place.headLen + 1 - 0⟩
      have start : behind.buf = 10 + fixedSize flags := by
        simp only [behind, moved]
        omega
      have first : sized 1 (read8 · 0) pkt place = some (b0, behind) := by
        have found : read8 (pkt.drop place.buf) 0 = some b0 := by
          rw [read8_drop, moved, Nat.add_zero, byte]
        simp only [sized, field, found, Option.bind_eq_bind, Option.bind_some]
        rfl
      have more := readable.drop (10 + fixedSize flags)
      rw [← start] at more
      obtain ⟨result, later⟩ := (readSubFields_spans (extensionFlags b0)).reads pkt behind
        (more.le (by rw [start]; omega))
      refine ⟨(some result.1, result.2), ?_⟩
      rw [optionally, if_pos present]
      change ((sized 1 (read8 · 0) pkt place).bind fun found =>
        readSubFields (extensionFlags found.1) pkt found.2).bind _ = _
      rw [first, Option.bind_some, later]
      rfl
    · rw [optionally, if_neg present]
      exact ⟨(none, place), rfl⟩
  obtain ⟨⟨extension, after⟩, later⟩ := extended
  refine ⟨({ packetData with extension := extension }, after), ?_⟩
  change (readFixed flags pkt ⟨9, 9⟩).bind _ = _
  rw [reading, Option.bind_some]
  change (optionally (flags.pesExtensionFlag ≠ 0) readExtension pkt place).bind _ = _
  rw [later]
  rfl

end NonPs

section OptionalHeader

variable (pt : PesStream) (pkt : Block)

/-- The payload is taken from behind the header, and too far behind by what head_len misses. -/
theorem parseOptionalHeader_data (parsed : PesStream)
    (found : parseOptionalHeader pt pkt = some parsed) :
    ∃ flags, readFlags pkt = some flags ∧
      parsed.pesPacketDataByte =
        some ((9 + flags.pesHeaderDataLength + headerLag flags pkt : Nat) : Int) ∧
      parsed.pesPacketLength = (pt.pesPacketLength - (3 + flags.pesHeaderDataLength)) % 65536 ∧
      parsed.cb = pt.cb := by
  obtain ⟨flags, flagsRead, found⟩ := Option.bind_eq_some_iff.mp found
  obtain ⟨⟨packetData, place⟩, reading, same⟩ := Option.bind_eq_some_iff.mp found
  have lag : place.buf = place.headLen + headerLag flags pkt := readNonPs_lag flags pkt reading
  rw [← Option.some.inj same]
  refine ⟨flags, flagsRead, ?_, ?_, rfl⟩
  · dsimp only
    congr 1
    omega
  · dsimp only
    congr 2
    omega

theorem parseOptionalHeader_reads (flags : PesFlags) (flagsRead : readFlags pkt = some flags)
    (readable : Readable pkt (9 + headerSize flags pkt)) :
    ∃ parsed, parseOptionalHeader pt pkt = some parsed := by
  obtain ⟨result, reading⟩ := readNonPs_reads flags pkt readable
  simp only [parseOptionalHeader, flagsRead, reading, Option.bind_eq_bind, Option.bind_some]
  exact ⟨_, rfl⟩

end OptionalHeader

end TsAnalyze.Pes
