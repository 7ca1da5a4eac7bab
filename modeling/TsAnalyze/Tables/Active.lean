import TsAnalyze.Tables.Psi

set_option autoImplicit false

namespace TsAnalyze.Tables

open Memory

def checkSectionHeaderVersion (pbuf : Block) (curVersion : Nat) : Option Int := do
  let flags ← read8 pbuf 1
  if readBits 8 flags.toNat 1 0 = 0 then return 0
  let byte ← read8 pbuf 5
  let version := readBits 8 byte.toNat 5 1
  if curVersion = version then return 0
  else if version > curVersion ∨ (curVersion = 0x1F ∧ version ≠ 0x1F) then return 1
  else return 2

/-- `psi.pat_list` is `old` and then the active table, to which `psi.pat` points. -/
structure Versions (C : Type) where
  heap : Heap
  old : List (Table C) := []
  active : Option (Table C) := none
  registered : List Registration := []
  sections : UInt64 := 0

variable {C : Type}

def Versions.curVersion (versions : Versions C) : Nat :=
  match versions.active with
  | none => 0x1F
  | some table => table.header.versionNumber

def Versions.list (versions : Versions C) : List (Table C) :=
  versions.old ++ versions.active.toList

-- the header of a null table is a null pointer to parse_section_header
def Versions.parse (decoder : Decoder C) (versions : Versions C) (pbuf : Block) (bufSize : Nat) :
    Option (Versions C × Int) :=
  match versions.active with
  | none => some (versions, nullPtr)
  | some table =>
      (parseTable decoder versions.heap pbuf bufSize table).map fun handled =>
        ({ versions with
            heap := handled.heap
            active := some handled.table
            registered := versions.registered ++ handled.registered }, handled.ret)

def Versions.open (initial : C) (versions : Versions C) : Versions C :=
  { versions with
    heap := versions.heap.reserve.2
    old := versions.list
    active := some { header := { versionNumber := 0x1F }, content := initial } }

-- parse_pat and parse_cat up to their tables' data
def parseVersioned (decoder : Decoder C) (initial : C) (versions : Versions C) (pbuf : Block)
    (bufSize : Nat) : Option (Versions C × Int) := do
  let ret ← checkSectionHeaderVersion pbuf versions.curVersion
  if ret = 1 then
    if versions.heap.reserve.1 then (versions.open initial).parse decoder pbuf bufSize
    else return ({ versions with heap := versions.heap.reserve.2 }, enomem)
  else if ret ≠ 0 then return (versions, ret)
  else versions.parse decoder pbuf bufSize

def parsePat (versions : Versions Pat) (pbuf : Block) (bufSize : Nat) :
    Option (Versions Pat × Int) :=
  parseVersioned decodePat {} versions pbuf bufSize

def Versions.counted (versions : Versions C) : Versions C :=
  { versions with sections := versions.sections + 1 }

def patProc (versions : Versions Pat) (pkt : Block) (len : Nat) : Option (Versions Pat) :=
  (parsePat versions.counted pkt len).map Prod.fst

variable {D : Type} (ops : DescriptorOps D)

def parseCat (versions : Versions (List (Descriptor D))) (pbuf : Block) (bufSize : Nat) :
    Option (Versions (List (Descriptor D)) × Int) :=
  parseVersioned (decodeDescriptors ops) [] versions pbuf bufSize

-- the state and psi.ca_num, which is counted over the list of the active table
def catProc (versions : Versions (List (Descriptor D))) (pkt : Block) (len : Nat) :
    Option (Versions (List (Descriptor D)) × Nat) := do
  let (versions, _) ← parseCat ops versions.counted pkt len
  let table ← versions.active
  return (versions, table.content.length)

section LongSection

variable (sec : LongSection)

-- the second of the two reserved bits in front of version_number
def LongSection.reservedBit : Nat :=
  ((sec.bytes.getD 5 0).toNat >>> 6) &&& 1

theorem readBits_version (byte : UInt8) :
    readBits 8 byte.toNat 5 1 =
      16 * ((byte.toNat >>> 6) &&& 1) + ((byte.toNat >>> 1) &&& 0x1F) / 2 := by
  have bound := byte.toNat_lt
  have high : (byte.toNat >>> 6) &&& 1 = byte.toNat / 64 % 2 := by
    rw [Nat.shiftRight_eq_div_pow]
    exact land_low_bits _ 1
  have middle : (byte.toNat >>> 1) &&& 0x1F = byte.toNat / 2 % 32 := by
    rw [Nat.shiftRight_eq_div_pow]
    exact land_low_bits _ 5
  have low : readBits 8 byte.toNat 5 1 = byte.toNat / 4 % 32 := by
    rw [readBits, Nat.shiftRight_eq_div_pow]
    exact land_low_bits _ 5
  rw [high, middle, low]
  omega

theorem read8_bytes (offset : Nat) (inside : offset < 12) :
    read8 (ofBytes sec.bytes) offset = some (sec.bytes.getD offset 0) := by
  have sized := sec.sized
  have minimal := sec.minimal
  have enough : offset < sec.bytes.length := by omega
  rw [read8_ofBytes, List.getD_eq_getElem _ _ enough, List.getElem?_eq_getElem enough]

theorem versionNumber_read :
    sec.long.versionNumber = readBits 8 (sec.bytes.getD 5 0).toNat 5 1 := by
  have found := sec.readableLong
  rcases Option.bind_eq_some_iff.mp found with ⟨tableIdExt, -, afterExt⟩
  rcases Option.bind_eq_some_iff.mp afterExt with ⟨version, versionRead, afterVersion⟩
  rcases Option.bind_eq_some_iff.mp afterVersion with ⟨curSec, -, afterCur⟩
  rcases Option.bind_eq_some_iff.mp afterCur with ⟨lastSec, -, same⟩
  rw [read8_bytes sec 5 (by decide)] at versionRead
  rw [← Option.some.inj same, ← Option.some.inj versionRead]

-- one bit of version_number is lost, and a reserved bit is taken for its first
theorem versionNumber_eq : sec.long.versionNumber = 16 * sec.reservedBit + sec.version / 2 := by
  rw [versionNumber_read, readBits_version, LongSection.reservedBit, LongSection.version]

theorem syntaxIndicator_read : readBits 8 (sec.bytes.getD 1 0).toNat 1 0 = 1 := by
  have found := sec.readable
  rcases Option.bind_eq_some_iff.mp found with ⟨tableId, -, afterId⟩
  rcases Option.bind_eq_some_iff.mp afterId with ⟨flags, flagsRead, afterFlags⟩
  rcases Option.bind_eq_some_iff.mp afterFlags with ⟨word, -, same⟩
  have indicator := sec.syntaxIndicator
  rw [read8_bytes sec 1 (by decide)] at flagsRead
  rw [← Option.some.inj same] at indicator
  rw [Option.some.inj flagsRead]
  exact indicator

theorem check_long (curVersion : Nat) :
    checkSectionHeaderVersion (ofBytes sec.bytes) curVersion =
      some (if curVersion = sec.long.versionNumber then 0
        else if sec.long.versionNumber > curVersion ∨
          (curVersion = 0x1F ∧ sec.long.versionNumber ≠ 0x1F) then 1
        else 2) := by
  have indicator := syntaxIndicator_read sec
  simp only [checkSectionHeaderVersion, read8_bytes sec 1 (by decide),
    read8_bytes sec 5 (by decide), ← versionNumber_read, indicator, Option.bind_eq_bind,
    Option.bind_some, Option.pure_def, one_ne_zero, if_false]
  split
  · rfl
  · split <;> rfl

end LongSection

end TsAnalyze.Tables
