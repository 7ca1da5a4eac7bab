import TsAnalyze.Descriptors.Atsc
import TsAnalyze.Descriptors.Dvb
import TsAnalyze.Descriptors.Isdb
import TsAnalyze.Tables.Descriptors

set_option autoImplicit false

namespace TsAnalyze.Descriptors

open Memory Tables

def foreachEnumDescriptor : List (UInt8 × List Member) :=
  foreachEnumMpegDescriptor ++ foreachEnumDvbDescriptor ++ foreachEnumAtscDescriptor ++
    foreachEnumIsdbDescriptor

-- the functions of an entry of des_ops: of a descriptor with these members, or reserved
inductive Entry
  | reserved
  | members (val : UInt8) (list : List Member)

def install (desOps : UInt8 → Entry) (entry : UInt8 × List Member) : UInt8 → Entry :=
  Function.update desOps entry.1 (.members entry.1 entry.2)

-- of two entries with one tag the later one stays
def initDescriptorParsers : UInt8 → Entry :=
  foreachEnumDescriptor.foldl install fun _ => .reserved

inductive Content
  | reserved (data : List UInt8)
  | members (values : List (String × Value))

-- alloc_reserved leaves this much behind the descriptor_t
def reservedSize : Nat := 255 - 2

def parseReservedDescriptor (buf : Block) : Option Content := do
  let _ ← read8 buf 0
  let length ← read8 buf 1
  if length.toNat ≤ reservedSize then (readBytes buf 2 length.toNat).map .reserved else none

-- a parse function up to its closing assert; -1 is returned for another tag
def runMembers (val : UInt8) (list : List Member) (buf : Block) (len : Nat) :
    Option (Option Parsing) := do
  let tag ← read8 buf 0
  if tag = val then
    let length ← read8 buf 1
    (parseMembers ⟨buf, len, length.toNat⟩ list {}).map some
  else some none

def parseMembersDescriptor (val : UInt8) (list : List Member) (buf : Block) (len : Nat) :
    Option Content := do
  match ← runMembers val list buf len with
  | none => some (.members [])
  | some p => if p.bitsOff = 0 then some (.members p.values) else none

def Entry.parse (entry : Entry) (buf : Block) (len : Nat) : Option Content :=
  match entry with
  | .reserved => parseReservedDescriptor buf
  | .members val list => parseMembersDescriptor val list buf len

-- __mploop moves its address on within one element: from the second on it frees no array
def Member.free (values : List (String × Value)) : Member → Option Unit
  | .mploop name =>
      match values.find? fun entry => entry.1 = name with
      | some (_, .elements list) => if list.length < 2 then some () else none
      | _ => some ()
  | _ => some ()

def Entry.free (entry : Entry) (content : Content) : Option Unit :=
  match entry, content with
  | .members _ list, .members values => list.forM (Member.free values)
  | _, _ => some ()

def desOps : DescriptorOps Content where
  parse tag buf len := (initDescriptorParsers tag).parse buf len
  free tag content := (initDescriptorParsers tag).free content

-- the members of a descriptor, or none of a reserved one
def membersOf (tag : UInt8) : Option (List Member) :=
  match initDescriptorParsers tag with
  | .reserved => none
  | .members _ list => some list

theorem foldl_install (entries : List (UInt8 × List Member)) (desOps : UInt8 → Entry)
    (tag val : UInt8) (list : List Member)
    (found : entries.foldl install desOps tag = .members val list) :
    (val = tag ∧ (tag, list) ∈ entries) ∨ desOps tag = .members val list := by
  induction entries generalizing desOps with
  | nil => exact Or.inr found
  | cons entry entries ih =>
    cases ih _ found with
    | inl later => exact Or.inl ⟨later.1, List.mem_cons_of_mem entry later.2⟩
    | inr here =>
      by_cases same : tag = entry.1
      · rw [same, install, Function.update_self, Entry.members.injEq] at here
        rw [same]
        refine Or.inl ⟨here.1.symm, ?_⟩
        rw [← here.2]
        exact List.mem_cons_self
      · rw [install, Function.update_of_ne same] at here
        exact Or.inr here

theorem initDescriptorParsers_mem (tag val : UInt8) (list : List Member)
    (found : initDescriptorParsers tag = .members val list) :
    val = tag ∧ (tag, list) ∈ foreachEnumDescriptor :=
  (foldl_install foreachEnumDescriptor _ tag val list found).resolve_right nofun

theorem membersOf_eq_some (tag : UInt8) (list : List Member) :
    membersOf tag = some list ↔ initDescriptorParsers tag = .members tag list := by
  rw [membersOf]
  cases found : initDescriptorParsers tag with
  | reserved => simp
  | members val members => simp [(initDescriptorParsers_mem tag val members found).1]

theorem membersOf_eq_none (tag : UInt8) :
    membersOf tag = none ↔ initDescriptorParsers tag = .reserved := by
  rw [membersOf]
  cases initDescriptorParsers tag <;> simp

theorem membersOf_mem (tag : UInt8) (list : List Member) (found : membersOf tag = some list) :
    (tag, list) ∈ foreachEnumDescriptor :=
  (initDescriptorParsers_mem tag tag list ((membersOf_eq_some tag list).mp found)).2

end TsAnalyze.Descriptors
