import TsAnalyze.Tables.DvbSi

set_option autoImplicit false

namespace TsAnalyze.Tables

open Memory Demux

-- the tables of mpeg_psi_t that have one copy each, and one PMT for a PID
inductive TableName
  | tsdt
  | pmt (pid : Pid)
  | nitActual
  | nitOther
  | bat
  | sdtActual
  | sdtOther
  | eitActual
  | eitOther
deriving DecidableEq

variable {D : Type}

abbrev Content (D : Type) : TableName → Type
  | .tsdt => List (Descriptor D)
  | .pmt _ => Pmt D
  | .nitActual | .nitOther => Nit D
  | .bat => Bat D
  | .sdtActual | .sdtOther => Sdt D
  | .eitActual | .eitOther => Eit D

def cleared : (name : TableName) → Content D name
  | .tsdt => []
  | .pmt _ => {}
  | .nitActual | .nitOther => {}
  | .bat => {}
  | .sdtActual | .sdtOther => {}
  | .eitActual | .eitOther => {}

-- parse_tsdt, parse_pmt, parse_nit, parse_bat, parse_sdt and parse_eit
def decoder (ops : DescriptorOps D) : (name : TableName) → Decoder (Content D name)
  | .tsdt => decodeDescriptors ops
  | .pmt _ => decodePmt ops
  | .nitActual | .nitOther => decodeNit ops
  | .bat => decodeBat ops
  | .sdtActual | .sdtOther => decodeSdt ops
  | .eitActual | .eitOther => decodeEit ops

theorem decoder_lawful (ops : DescriptorOps D) (name : TableName) :
    (decoder ops name).Lawful := by
  constructor
  · intro header pdata content
    cases name with
    | tsdt => exact decodeDescriptors_plain ops header pdata content
    | pmt pid => exact decodePmt_plain ops header pdata content
    | nitActual => exact decodeNit_plain ops header pdata content
    | nitOther => exact decodeNit_plain ops header pdata content
    | bat => exact decodeBat_plain ops header pdata content
    | sdtActual => exact decodeSdt_plain ops header pdata content
    | sdtOther => exact decodeSdt_plain ops header pdata content
    | eitActual => exact decodeEit_plain ops header pdata content
    | eitOther => exact decodeEit_plain ops header pdata content
  · intro header other pdata content sameId sameExt sameLength
    cases name <;>
      simp only [decoder, decodeDescriptors, decodePmt, decodeNit, decodeBat, decodeSdt,
        decodeEit, sameId, sameExt, sameLength]

structure Psi (D : Type) where
  heap : Heap
  tables : (name : TableName) → Table (Content D name)
  -- the section counters of stats_t; there is none for a PMT
  stats : TableName → UInt64 := fun _ => 0
  registered : List Registration := []

def Psi.initial (heap : Heap) : Psi D where
  heap := heap
  tables name := { content := cleared name }

-- tsdt_proc, pmt_proc, nit_proc, sdt_bat_proc and eit_proc
inductive Proc
  | tsdt
  | pmt (pid : Pid)
  | nit
  | sdtBat
  | eit

-- the table that a handler gives a section to
def Proc.target (proc : Proc) (pkt : Block) : Option (Option TableName) :=
  match proc with
  | .tsdt => some (some .tsdt)
  | .pmt pid => some (some (.pmt pid))
  | .nit => (read8 pkt 0).map fun tableId =>
      if tableId = 0x40 then some .nitActual
      else if tableId = 0x41 then some .nitOther
      else none
  | .sdtBat => (read8 pkt 0).map fun tableId =>
      if tableId = 0x4A then some .bat
      else if tableId = 0x42 then some .sdtActual
      else if tableId = 0x46 then some .sdtOther
      else none
  | .eit => (read8 pkt 0).map fun tableId =>
      if tableId = 0x4E then some .eitActual
      else if tableId = 0x4F then some .eitOther
      else none

def TableName.counted : TableName → Bool
  | .pmt _ => false
  | _ => true

structure Delivery where
  proc : Proc
  pkt : Block
  len : Nat

def Psi.count (psi : Psi D) (name : TableName) : TableName → UInt64 :=
  if name.counted then Function.update psi.stats name (psi.stats name + 1) else psi.stats

def give (ops : DescriptorOps D) (psi : Psi D) (name : TableName) (pkt : Block) (len : Nat) :
    Option (Psi D) :=
  (parseTable (decoder ops name) psi.heap pkt len (psi.tables name)).map fun handled =>
    { heap := handled.heap
      tables := Function.update psi.tables name handled.table
      stats := psi.count name
      registered := psi.registered ++ handled.registered }

def deliver (ops : DescriptorOps D) (psi : Psi D) (delivery : Delivery) : Option (Psi D) :=
  (delivery.proc.target delivery.pkt).bind fun target =>
    match target with
    | none => some psi
    | some name => give ops psi name delivery.pkt delivery.len

def deliverAll (ops : DescriptorOps D) (psi : Psi D) (history : List Delivery) : Option (Psi D) :=
  history.foldlM (deliver ops) psi

theorem deliver_available (ops : DescriptorOps D) (psi after : Psi D) (delivery : Delivery)
    (available : psi.heap.Available) (delivered : deliver ops psi delivery = some after) :
    after.heap.Available := by
  rcases Option.bind_eq_some_iff.mp delivered with ⟨target, -, given⟩
  cases target with
  | none =>
    rw [← Option.some.inj given]
    exact available
  | some name =>
    rcases Option.map_eq_some_iff.mp given with ⟨handled, parsed, rfl⟩
    exact available.of_succeeds
      (parseTable_succeeds (decoder_lawful ops name) psi.heap _ _ _ handled parsed)

theorem deliverAll_available (ops : DescriptorOps D) (psi after : Psi D)
    (history : List Delivery) (available : psi.heap.Available)
    (delivered : deliverAll ops psi history = some after) : after.heap.Available := by
  induction history generalizing psi with
  | nil =>
    rw [← Option.some.inj delivered]
    exact available
  | cons delivery rest ih =>
    rw [deliverAll, List.foldlM_cons] at delivered
    rcases Option.bind_eq_some_iff.mp delivered with ⟨next, first, later⟩
    exact ih next (deliver_available ops psi next delivery available first) later

end TsAnalyze.Tables
