import TsAnalyze.Demux.Emission
import TsAnalyze.Tables.Crc32
import TsAnalyze.Tables.Envelope

set_option autoImplicit false

namespace TsAnalyze.Tables.Generator

open Memory Demux

-- gen_full.c

def crcShift (c : BitVec 32) : BitVec 32 :=
  if c &&& 0x80000000 ≠ 0 then c <<< 1 ^^^ crcGenerator else c <<< 1

-- an entry of crc_table, as crc_init fills it
def crcInit (i : Nat) : BitVec 32 :=
  Nat.repeat crcShift 8 (BitVec.ofNat 32 i <<< 24)

def crcStep (crc : BitVec 32) (byte : UInt8) : BitVec 32 :=
  crc <<< 8 ^^^ crcInit ((crc >>> 24 ^^^ byte.toBitVec.setWidth 32) &&& 0xFF).toNat

-- the register starts at zero here
def crc32 (data : List UInt8) : BitVec 32 :=
  data.foldl crcStep 0

theorem crcInit_words (index : BitVec 8) :
    crcInit index.toNat = Crc.serial crcGenerator 0 (Crc.firstBits index 8) := by
  have all : ∀ number : Fin 256, crcInit number.val =
      Crc.serial crcGenerator 0 (Crc.firstBits (BitVec.ofFin number : BitVec 8) 8) := by
    decide +kernel
  exact all index.toFin

theorem crcStep_bits (crc : BitVec 32) (byte : UInt8) :
    crcStep crc byte = Crc.serial crcGenerator crc (Bits.ofByte byte) := by
  have unit := Crc.serial_unit crcGenerator crc byte.toBitVec (by decide)
  have index : ((crc >>> 24 ^^^ byte.toBitVec.setWidth 32) &&& 0xFF).toNat =
      ((crc >>> 24).setWidth 8 ^^^ byte.toBitVec).toNat := masked_index false crc byte
  rw [crcStep, index, crcInit_words, ofByte_firstBits, unit]
  rfl

theorem crc32_bits (data : List UInt8) (crc : BitVec 32) :
    data.foldl crcStep crc = Crc.serial crcGenerator crc (Bits.ofBytes data) := by
  induction data generalizing crc with
  | nil => rfl
  | cons byte data ih =>
    rw [List.foldl_cons, ih, crcStep_bits, Bits.ofBytes_cons, Crc.serial_append]

variable (tableId : UInt8) (ext : UInt16) (version current secnum lastSecnum : UInt8)
variable (body : List UInt8)

-- the section in front of its CRC
def secHead : List UInt8 :=
  [tableId, UInt8.ofNat (0xB0 ||| (((body.length + 9) >>> 8) &&& 0x0F)),
    UInt8.ofNat ((body.length + 9) &&& 0xFF), UInt8.ofNat (ext.toNat >>> 8),
    UInt8.ofNat (ext.toNat &&& 0xFF),
    UInt8.ofNat (0xC0 ||| ((version.toNat <<< 1) &&& 0x3E) ||| (current.toNat &&& 1)), secnum,
    lastSecnum] ++ body

def secBuild : List UInt8 :=
  secHead tableId ext version current secnum lastSecnum body ++
    crcBytes (crc32 (secHead tableId ext version current secnum lastSecnum body))

theorem crc32_secBuild :
    crc32 (secBuild tableId ext version current secnum lastSecnum body) = 0 := by
  rw [secBuild, crc32, crc32_bits, Bits.ofBytes_append, Crc.serial_append, crcBytes_bits,
    ← crc32_bits]
  exact Crc.serial_residue crcGenerator _

@[simp] theorem secBuild_length :
    (secBuild tableId ext version current secnum lastSecnum body).length = body.length + 12 := by
  simp [secBuild, secHead, crcBytes]

theorem length_bytes (length : Nat) (fits : length < 4096) :
    encode16 (0xB000 + length) =
      [UInt8.ofNat (0xB0 ||| ((length >>> 8) &&& 0x0F)), UInt8.ofNat (length &&& 0xFF)] := by
  have high : (length >>> 8) &&& 0x0F = length / 256 := by
    have low : (length >>> 8) &&& 0x0F = (length >>> 8) % 16 := land_low_bits _ 4
    rw [low, Nat.shiftRight_eq_div_pow]
    exact Nat.mod_eq_of_lt (by omega)
  have low : length &&& 0xFF = length % 256 := land_low_bits length 8
  have joined : 0xB0 ||| (length / 256) = 0xB0 + length / 256 := by
    have below : length / 256 < 2 ^ 4 := by omega
    exact (Nat.shiftLeft_add_eq_or_of_lt below 11).symm
  rw [encode16, high, low, joined]
  congr 1
  · congr 1
    omega
  · congr 1
    apply UInt8.toNat_inj.mp
    simp only [UInt8.toNat_ofNat']
    omega

theorem ext_bytes :
    encode16 ext.toNat = [UInt8.ofNat (ext.toNat >>> 8), UInt8.ofNat (ext.toNat &&& 0xFF)] := by
  have low : ext.toNat &&& 0xFF = ext.toNat % 256 := land_low_bits _ 8
  rw [encode16, Nat.shiftRight_eq_div_pow, low]
  congr 2
  apply UInt8.toNat_inj.mp
  simp only [UInt8.toNat_ofNat']
  omega

theorem version_byte :
    UInt8.ofNat (0xC0 ||| ((version.toNat <<< 1) &&& 0x3E) ||| (current.toNat &&& 1)) =
      UInt8.ofNat (0xC0 + 2 * (version.toNat % 32) + (decide (current.toNat % 2 = 1)).toNat) := by
  have bit : current.toNat &&& 1 = (decide (current.toNat % 2 = 1)).toNat := by
    have low : current.toNat &&& 1 = current.toNat % 2 := land_low_bits _ 1
    rcases Nat.mod_two_eq_zero_or_one current.toNat with even | odd
    · simp [low, even]
    · simp [low, odd]
  rw [bit]
  generalize decide (current.toNat % 2 = 1) = flag
  revert version
  apply Bits.byte_all
  cases flag <;> decide +kernel

/-- What sec_build makes of the only section of a table. -/
def envelope : Envelope where
  tableId := tableId
  privateBit := false
  tableIdExt := ext.toNat
  version := version.toNat % 32
  currentNext := decide (current.toNat % 2 = 1)
  crc := crcBytes (crc32 (secHead tableId ext version current 0 0 body))
  extFits := ext.toNat_lt
  versionFits := Nat.mod_lt _ (by decide)
  crcSized := rfl

theorem secBuild_envelope (fits : body.length + 9 < 4096) :
    secBuild tableId ext version current 0 0 body =
      (envelope tableId ext version current body).encode body := by
  have flags : (envelope tableId ext version current body).flags = 0xB000 := rfl
  rw [Envelope.encode, flags, length_bytes _ fits, Envelope.versionByte]
  simp only [envelope, ext_bytes, ← version_byte, secBuild]
  rfl

theorem secBuild_framed (fits : body.length + 9 < 4096) :
    (secBuild tableId ext version current secnum lastSecnum body).length =
      sectionSize (secBuild tableId ext version current secnum lastSecnum body) := by
  have bytes := length_bytes (body.length + 9) fits
  have first := (List.cons.inj bytes).1
  have second := (List.cons.inj (List.cons.inj bytes).2).1
  have length : sectionLength (secBuild tableId ext version current secnum lastSecnum body) =
      ((UInt8.ofNat ((0xB000 + (body.length + 9)) / 256)).toNat * 256 +
        (UInt8.ofNat (0xB000 + (body.length + 9))).toNat) % 4096 := by
    rw [first, second]
    rfl
  rw [secBuild_length, sectionSize, length, UInt8.toNat_ofNat', UInt8.toNat_ofNat']
  omega

def psi (fits : body.length + 9 < 4096) : PsiSection where
  bytes := secBuild tableId ext version current secnum lastSecnum body
  framed := secBuild_framed tableId ext version current secnum lastSecnum body fits

end TsAnalyze.Tables.Generator
