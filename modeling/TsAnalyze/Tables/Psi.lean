import TsAnalyze.Demux.SectionPreproc
import TsAnalyze.Tables.Descriptors
import TsAnalyze.Tables.Table

set_option autoImplicit false

namespace TsAnalyze.Tables

open Memory Demux

def toUInt16 (value : Int) : Int :=
  value % 65536

theorem toUInt16_of_small (value : Int) (low : 0 ≤ value) (high : value < 65536) :
    toUInt16 value = value := by
  rw [toUInt16]
  omega

structure ProgramNode where
  programNumber : Nat
  programMapPid : Nat

structure Pat where
  programBitmap : Nat → Bool := fun _ => false
  h : List ProgramNode := []

def Pat.setPid (pat : Pat) (programNum programMapPid : Nat) : Pat :=
  { pat with
    h := pat.h.map fun pn =>
      if pn.programNumber = programNum then { pn with programMapPid := programMapPid } else pn }

def Pat.add (pat : Pat) (programNum programMapPid : Nat) : Pat where
  programBitmap := Function.update pat.programBitmap programNum true
  h := pat.h ++ [⟨programNum, programMapPid⟩]

-- A turn reads four bytes, so a turn for each byte and one more run past the data.
def patLoop : Nat → Block → Int → Pat → List Registration → Allocating (Decoded Pat)
  | 0, _, sectionLen, pat, registered =>
      if 0 < sectionLen then failure else pure { content := pat, registered := registered }
  | turns + 1, pdata, sectionLen, pat, registered =>
      if 0 < sectionLen then do
        let programNum ← read16 pdata 0
        let word ← read16 pdata 2
        let programMapPid := word &&& 0x1FFF
        let rest := patLoop turns (pdata.drop 4) (toUInt16 (sectionLen - 4))
        if programNum = 0xFFFF then
          pure { content := pat, registered := registered }
        else if pat.programBitmap programNum then
          rest (pat.setPid programNum programMapPid) registered
        else if ← reserve then
          rest (pat.add programNum programMapPid) (registered ++ [.pmt programMapPid])
        else
          pure { content := pat, ret := enomem, registered := registered ++ [.pmt programMapPid] }
      else pure { content := pat, registered := registered }

def decodePat : Decoder Pat := fun header pdata pat =>
  patLoop (pdata.length + 1) pdata (toUInt16 (header.sectionLength - (5 + 4))) pat []

theorem patLoop_plain (turns : Nat) (pdata : Block) (sectionLen : Int) (pat : Pat)
    (registered : List Registration) : Plain (patLoop turns pdata sectionLen pat registered) := by
  induction turns generalizing pdata sectionLen pat registered with
  | zero => exact plain_ite _ _ _ plain_failure (plain_pure _)
  | succ turns ih =>
    rw [patLoop]
    apply plain_ite
    · apply plain_bind _ _ (plain_lift _)
      intro programNum
      apply plain_bind _ _ (plain_lift _)
      intro word
      apply plain_ite
      · exact plain_pure _
      · apply plain_ite
        · exact ih _ _ _ _
        · apply plain_bind _ _ plain_reserve
          intro given
          exact plain_ite _ _ _ (ih _ _ _ _) (plain_pure _)
    · exact plain_pure _

theorem decodePat_plain (header : TableHeader) (pdata : Block) (pat : Pat) :
    Plain (decodePat header pdata pat) :=
  patLoop_plain _ _ _ _ _

section Descriptors

variable {D : Type} (ops : DescriptorOps D)

-- parse_cat and parse_tsdt: nothing but descriptors
def decodeDescriptors : Decoder (List (Descriptor D)) := fun header pdata list => do
  freeDescriptors ops list
  let list ← parseDescriptors ops [] pdata (toUInt16 (header.sectionLength - (5 + 4))).toNat
  pure { content := list }

theorem decodeDescriptors_plain (header : TableHeader) (pdata : Block)
    (list : List (Descriptor D)) : Plain (decodeDescriptors ops header pdata list) := by
  apply plain_bind _ _ (plain_lift _)
  intro freed
  apply plain_bind _ _ (parseDescriptors_plain ops _ _ _)
  intro parsed
  exact plain_pure _

structure EsNode (D : Type) where
  streamType : UInt8
  elementaryPid : Nat
  esInfoLength : Nat
  list : List (Descriptor D)

structure Pmt (D : Type) where
  programNumber : Nat := 0
  pcrPid : Nat := 0
  programInfoLength : Nat := 0
  list : List (Descriptor D) := []
  h : List (EsNode D) := []

def EsNode.registered (pn : EsNode D) : List Registration :=
  if pn.streamType = 0x05 then [.section pn.elementaryPid]
  else if 0x08 ≤ pn.streamType ∧ pn.streamType ≤ 0x0D then [.section pn.elementaryPid]
  else if pn.streamType = 0x86 then [.scte pn.elementaryPid]
  else
    .pes pn.elementaryPid pn.streamType ::
      if hasDescriptorTag pn.list 0x59 then [.pesData pn.elementaryPid pn.streamType 0x59]
      else if hasDescriptorTag pn.list 0x56 then [.pesData pn.elementaryPid pn.streamType 0x56]
      else []

def readEs (pdata : Block) : Allocating (EsNode D × Nat × Nat) := do
  let streamType ← read8 pdata 0
  let pid ← read16 pdata 1
  let length ← read16 pdata 3
  let esInfoLength := length &&& 0x0FFF
  let list ← parseDescriptors ops [] (pdata.drop 5) esInfoLength
  pure (⟨streamType, pid &&& 0x1FFF, esInfoLength, list⟩, 5 + esInfoLength, 5 + esInfoLength)

def decodePmt : Decoder (Pmt D) := fun header pdata pmt => do
  freeDescriptors ops (pmt.h.flatMap EsNode.list)
  freeDescriptors ops pmt.list
  let pcrPid ← read16 pdata 0
  let length ← read16 pdata 2
  let programInfoLength := length &&& 0x0FFF
  let list ← parseDescriptors ops [] (pdata.drop 4) programInfoLength
  let streams := pdata.drop (4 + programInfoLength)
  let sectionLen :=
    toInt16 (toInt16 (toInt16 (header.sectionLength - (5 + 4)) - 2) - (2 + programInfoLength))
  let (h, ret) ← nodeLoop toInt16 (readEs ops) (streams.length + 1) streams sectionLen []
  pure {
    content := {
      programNumber := header.tableIdExt
      pcrPid := pcrPid &&& 0x1FFF
      programInfoLength := programInfoLength
      list := list
      h := h }
    ret := ret
    registered := h.flatMap EsNode.registered }

theorem readEs_plain (pdata : Block) : Plain (readEs ops pdata) := by
  apply plain_bind _ _ (plain_lift _)
  intro streamType
  apply plain_bind _ _ (plain_lift _)
  intro pid
  apply plain_bind _ _ (plain_lift _)
  intro length
  apply plain_bind _ _ (parseDescriptors_plain ops _ _ _)
  intro list
  exact plain_pure _

theorem decodePmt_plain (header : TableHeader) (pdata : Block) (pmt : Pmt D) :
    Plain (decodePmt ops header pdata pmt) := by
  apply plain_bind _ _ (plain_lift _)
  intro freedNodes
  apply plain_bind _ _ (plain_lift _)
  intro freedList
  apply plain_bind _ _ (plain_lift _)
  intro pcrPid
  apply plain_bind _ _ (plain_lift _)
  intro length
  apply plain_bind _ _ (parseDescriptors_plain ops _ _ _)
  intro list
  apply plain_bind _ _ (nodeLoop_plain _ _ (readEs_plain ops) _ _ _ _)
  intro nodes
  exact plain_pure _

end Descriptors

end TsAnalyze.Tables
