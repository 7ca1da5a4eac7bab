import TsAnalyze.Tables.Active
import TsAnalyze.Tables.PmtEncoding

set_option autoImplicit false

namespace TsAnalyze.Tables

open Memory Demux

def ProgramNode.Fits (entry : ProgramNode) : Prop :=
  entry.programNumber < 65536 ∧ entry.programMapPid < 8192

def ProgramNode.encode (entry : ProgramNode) : List UInt8 :=
  encode16 entry.programNumber ++ encode16 (7 * 2 ^ 13 + entry.programMapPid)

def encodePat (entries : List ProgramNode) : List UInt8 :=
  entries.flatMap ProgramNode.encode

-- the entries in front of the first that stops the loop
def listed (entries : List ProgramNode) : List ProgramNode :=
  entries.takeWhile fun entry => entry.programNumber ≠ 0xFFFF

-- the program numbers in the order of their first entries
def programNumbers (entries : List ProgramNode) : List Nat :=
  (entries.map ProgramNode.programNumber).eraseDups

def lastPid (entries : List ProgramNode) (programNumber : Nat) : Nat :=
  ((entries.filter fun entry => entry.programNumber = programNumber).getLast?.map
    ProgramNode.programMapPid).getD 0

/-- Each program of the entries once, with the PID that is announced last. -/
def programsOf (entries : List ProgramNode) : Pat where
  programBitmap number := decide (number ∈ entries.map ProgramNode.programNumber)
  h := (programNumbers entries).map fun number => ⟨number, lastPid entries number⟩

theorem eraseDups_concat {K : Type} [DecidableEq K] (keys : List K) (key : K) :
    (keys ++ [key]).eraseDups =
      if key ∈ keys then keys.eraseDups else keys.eraseDups ++ [key] := by
  rw [List.eraseDups_append]
  by_cases seen : key ∈ keys
  · simp [List.removeAll, seen]
  · simp [List.removeAll, List.eraseDups_cons, seen]

theorem programsOf_nil : programsOf [] = {} := by
  simp [programsOf, programNumbers]

theorem lastPid_append (entries : List ProgramNode) (entry : ProgramNode) (number : Nat) :
    lastPid (entries ++ [entry]) number =
      if entry.programNumber = number then entry.programMapPid else lastPid entries number := by
  by_cases same : entry.programNumber = number
  · simp [lastPid, same]
  · simp [lastPid, same]

theorem mem_programNumbers (entries : List ProgramNode) (number : Nat) :
    number ∈ programNumbers entries ↔ number ∈ entries.map ProgramNode.programNumber :=
  List.mem_eraseDups

theorem programsOf_again (entries : List ProgramNode) (entry : ProgramNode)
    (seen : entry.programNumber ∈ entries.map ProgramNode.programNumber) :
    programsOf (entries ++ [entry]) =
      (programsOf entries).setPid entry.programNumber entry.programMapPid := by
  have numbers : programNumbers (entries ++ [entry]) = programNumbers entries := by
    rw [programNumbers, List.map_append, List.map_cons, List.map_nil, eraseDups_concat,
      if_pos seen, programNumbers]
  have marks : ∀ number, number ∈ (entries ++ [entry]).map ProgramNode.programNumber ↔
      number ∈ entries.map ProgramNode.programNumber := by
    intro number
    simp only [List.map_append, List.map_cons, List.map_nil, List.mem_append, List.mem_singleton]
    exact or_iff_left_of_imp fun same => same ▸ seen
  simp only [programsOf, Pat.setPid, marks, numbers, List.map_map]
  congr 1
  apply List.map_congr_left
  intro number _
  by_cases same : number = entry.programNumber
  · simp [lastPid_append, same]
  · simp [lastPid_append, same, Ne.symm same]

theorem programsOf_new (entries : List ProgramNode) (entry : ProgramNode)
    (unseen : entry.programNumber ∉ entries.map ProgramNode.programNumber) :
    programsOf (entries ++ [entry]) =
      (programsOf entries).add entry.programNumber entry.programMapPid := by
  have numbers : programNumbers (entries ++ [entry]) =
      programNumbers entries ++ [entry.programNumber] := by
    rw [programNumbers, List.map_append, List.map_cons, List.map_nil, eraseDups_concat,
      if_neg unseen, programNumbers]
  have kept : ∀ number ∈ programNumbers entries, lastPid (entries ++ [entry]) number =
      lastPid entries number := by
    intro number inside
    rw [lastPid_append, if_neg]
    rintro rfl
    exact unseen ((mem_programNumbers entries _).mp inside)
  simp only [programsOf, Pat.add, numbers, List.map_append, List.map_cons, List.map_nil]
  congr 1
  · funext number
    by_cases same : number = entry.programNumber
    · subst same
      simp
    · simp [same]
  · congr 1
    · exact List.map_congr_left fun number inside => by rw [kept number inside]
    · rw [lastPid_append, if_pos rfl]

-- `before` has been read, `entries` stand in front of the pointer
theorem patLoop_encoded (entries : List ProgramNode) (fit : ∀ entry ∈ entries, entry.Fits)
    (size : (encodePat entries).length ≤ 0x3FD) (behind : Block) (turns : Nat)
    (enough : entries.length ≤ turns) (before : List ProgramNode)
    (registered : List Registration) :
    ∃ after, Yields (patLoop turns (ofBytes (encodePat entries) ++ behind)
      (encodePat entries).length (programsOf before) registered)
      ⟨programsOf (before ++ listed entries), 0, after⟩ := by
  induction entries generalizing turns before registered with
  | nil =>
    refine ⟨registered, ?_⟩
    cases turns with
    | zero => simpa [patLoop, encodePat, listed] using yields_pure _
    | succ turns => simpa [patLoop, encodePat, listed] using yields_pure _
  | cons entry entries ih =>
    cases turns with
    | zero => simp at enough
    | succ turns =>
      have here := fit entry List.mem_cons_self
      have more : (encodePat (entry :: entries)).length = 4 + (encodePat entries).length := by
        simp only [encodePat, List.flatMap_cons, List.length_append, ProgramNode.encode,
          encode16_length]
      let memory := ofBytes (encodePat (entry :: entries)) ++ behind
      have number : Stores16 memory 0 entry.programNumber := ⟨rfl, rfl⟩
      have pid : Stores16 memory 2 (7 * 2 ^ 13 + entry.programMapPid) := ⟨rfl, rfl⟩
      have pidMasked : (7 * 2 ^ 13 + entry.programMapPid) &&& 0x1FFF = entry.programMapPid :=
        masked 7 entry.programMapPid 13 here.2
      have rest : memory.drop 4 = ofBytes (encodePat entries) ++ behind := rfl
      have remaining : toUInt16 ((encodePat (entry :: entries)).length - 4) =
          (encodePat entries).length := by
        rw [show ((encodePat (entry :: entries)).length - 4 : Int) = (encodePat entries).length by
          omega, toUInt16_of_small _ (by omega) (by omega)]
      have next := fun (read : List ProgramNode) => ih
        (fun other inside => fit other (List.mem_cons_of_mem entry inside)) (by omega) turns
        (by simpa using enough) read
      have fields : ∀ result,
          Yields (if entry.programNumber = 0xFFFF then
              pure { content := programsOf before, registered := registered }
            else if (programsOf before).programBitmap entry.programNumber = true then
              patLoop turns (memory.drop 4) (encodePat entries).length
                ((programsOf before).setPid entry.programNumber entry.programMapPid) registered
            else do
              if ← reserve then
                patLoop turns (memory.drop 4) (encodePat entries).length
                  ((programsOf before).add entry.programNumber entry.programMapPid)
                  (registered ++ [.pmt entry.programMapPid])
              else
                pure { content := programsOf before, ret := enomem,
                       registered := registered ++ [.pmt entry.programMapPid] }) result →
          Yields (patLoop (turns + 1) memory (encodePat (entry :: entries)).length
            (programsOf before) registered) result := by
        intro result found
        rw [patLoop]
        apply yields_ite_true (by omega)
        apply yields_read (number.read_fits here.1)
        apply yields_read (pid.read_fits (by have := here.2; omega))
        dsimp only
        rw [pidMasked, remaining]
        exact found
      by_cases stops : entry.programNumber = 0xFFFF
      · refine ⟨registered, fields _ ?_⟩
        have none : listed (entry :: entries) = [] := by simp [listed, stops]
        rw [none, List.append_nil]
        exact yields_ite_true stops (yields_pure _)
      · have split : before ++ listed (entry :: entries) = before ++ [entry] ++ listed entries := by
          simp [listed, stops]
        rw [split]
        by_cases seen : entry.programNumber ∈ before.map ProgramNode.programNumber
        · cases next (before ++ [entry]) registered with
          | intro after found =>
            refine ⟨after, fields _ (yields_ite_false stops (yields_ite_true ?_ ?_))⟩
            · exact decide_eq_true seen
            · rwa [rest, ← programsOf_again before entry seen]
        · cases next (before ++ [entry]) (registered ++ [.pmt entry.programMapPid]) with
          | intro after found =>
            refine ⟨after, fields _ (yields_ite_false stops (yields_ite_false ?_ ?_))⟩
            · simpa [programsOf] using seen
            · apply yields_allocated
              rwa [rest, ← programsOf_new before entry seen]

-- the reader takes the upper reserved bit for the first bit of version_number
theorem Envelope.versionNumber (envelope : Envelope) :
    envelope.long.versionNumber = 16 + envelope.version / 2 := by
  have fits := envelope.versionFits
  have low := Bool.toNat_le envelope.currentNext
  have byte : envelope.versionByte.toNat =
      0xC0 + 2 * envelope.version + envelope.currentNext.toNat := by
    rw [Envelope.versionByte, UInt8.toNat_ofNat', Nat.mod_eq_of_lt (by omega)]
  rw [Envelope.long, readBits, byte, Nat.shiftRight_eq_div_pow]
  exact (land_low_bits _ 5).trans (by omega)

/-- parse_pat on the initial state returns 0 and leaves the programs of the entries. -/
def PatParses (envelope : Envelope) (entries : List ProgramNode) : Prop :=
  ∀ heap : Heap, heap.Available → ∃ after table,
    parsePat { heap := heap } (ofBytes (envelope.encode (encodePat entries)))
        (envelope.encode (encodePat entries)).length = some (after, 0) ∧
      after.active = some table ∧ table.content = programsOf (listed entries)

section Pat

variable (envelope : Envelope) (entries : List ProgramNode)
  (fits : (encodePat entries).length + 9 ≤ 0x3FD)

include fits

theorem check_initial :
    checkSectionHeaderVersion (ofBytes (envelope.encode (encodePat entries))) 0x1F =
      some (if envelope.version / 2 = 15 then 0 else 1) := by
  have check := check_long (envelope.toSection (encodePat entries) fits) 0x1F
  have number : (envelope.toSection (encodePat entries) fits).long.versionNumber =
      16 + envelope.version / 2 := envelope.versionNumber
  have bytes : (envelope.toSection (encodePat entries) fits).bytes =
      envelope.encode (encodePat entries) := rfl
  rw [bytes, number] at check
  rw [check]
  by_cases last : envelope.version / 2 = 15
  · rw [if_pos last, if_pos (by omega)]
  · rw [if_neg last, if_neg (by omega), if_pos (by omega)]

theorem parsePat_opens (fit : ∀ entry ∈ entries, entry.Fits) (early : envelope.version < 30) :
    PatParses envelope entries := by
  intro heap available
  have count := nodes_count ProgramNode.encode entries fun entry _ => Nat.zero_lt_succ 3
  have turns : entries.length ≤
      (ofBytes (encodePat entries) ++ envelope.behind).length + 1 := by
    rw [List.length_append, ofBytes_length, encodePat]
    omega
  have check := check_initial envelope entries fits
  rw [if_neg (by omega)] at check
  cases patLoop_encoded entries fit (by omega) envelope.behind _ turns [] [] with
  | intro registered looped =>
    rcases parseTable_fresh decodePat heap.reserve.2 (available.of_succeeds rfl)
      { header := { versionNumber := 0x1F }, content := {} } (bitmap64Get_empty 0) rfl envelope
      (encodePat entries) fits with ⟨header, carries, given, givenAvailable, parsed⟩
    have data : toUInt16 (header.sectionLength - (5 + 4)) = (encodePat entries).length := by
      rw [carries.sectionLength,
        show ((((encodePat entries).length + 9 : Nat) : Int) - (5 + 4)) =
          (encodePat entries).length by omega, toUInt16_of_small _ (by omega) (by omega)]
    have decodes : Yields (decodePat header (ofBytes (encodePat entries) ++ envelope.behind) {})
        ⟨programsOf (listed entries), 0, registered⟩ := by
      rw [decodePat, data, ← programsOf_nil]
      exact looped
    cases decodes given givenAvailable with
    | intro after decoding =>
      let opened : Versions Pat := Versions.open {} { heap := heap }
      refine ⟨{ opened with
        heap := after
        active := some ⟨header, programsOf (listed entries)⟩
        registered := registered }, ⟨header, programsOf (listed entries)⟩, ?_, rfl, rfl⟩
      have room : heap.reserve.1 = true := available heap.next
      simp only [parsePat, parseVersioned, Versions.curVersion, check, Option.bind_eq_bind,
        Option.bind_some, if_true, room, Versions.parse, Versions.open]
      rw [parsed, decoding.1]
      rfl

-- 30 reads as the version of a table that there is not yet, and parse_section_header is given NULL
theorem parsePat_refused (last : envelope.version = 30) : ¬PatParses envelope entries := by
  intro parses
  cases parses Heap.empty Heap.empty_available with
  | intro after found =>
    cases found with
    | intro table parsed =>
      have check := check_initial envelope entries fits
      rw [last, if_pos (by decide)] at check
      have refused : parsePat { heap := Heap.empty }
          (ofBytes (envelope.encode (encodePat entries)))
          (envelope.encode (encodePat entries)).length =
            some ({ heap := Heap.empty }, nullPtr) := by
        simp only [parsePat, parseVersioned, Versions.curVersion, check, Option.bind_eq_bind,
          Option.bind_some, Versions.parse]
        rfl
      have ret := parsed.1
      rw [refused] at ret
      cases ret

theorem parsePat_encoded_iff (fit : ∀ entry ∈ entries, entry.Fits)
    (version : envelope.version ≤ 30) :
    PatParses envelope entries ↔ envelope.version ≠ 30 := by
  constructor
  · intro parses last
    exact parsePat_refused envelope entries fits last parses
  · intro other
    exact parsePat_opens envelope entries fits fit (by omega)

end Pat

-- a network PID, a program that is announced twice, and an entry behind the last
def repeatedEntries : List ProgramNode :=
  [⟨0, 0x10⟩, ⟨1, 0x100⟩, ⟨2, 0x200⟩, ⟨1, 0x101⟩, ⟨0xFFFF, 0x1FFF⟩, ⟨3, 0x300⟩]

theorem repeatedEntries_fit : ∀ entry ∈ repeatedEntries, entry.Fits := by
  simp [repeatedEntries, ProgramNode.Fits]

def patEnvelope (version : Nat) (versionFits : version < 32) : Envelope :=
  { programEnvelope with tableId := 0, version := version, versionFits := versionFits }

theorem parsePat_encoded_repeated :
    PatParses (patEnvelope 29 (by simp)) repeatedEntries ↔ 29 ≠ 30 :=
  parsePat_encoded_iff (patEnvelope 29 (by simp)) repeatedEntries (by decide) repeatedEntries_fit
    (by decide)

theorem parsePat_refuses_version : ¬PatParses (patEnvelope 30 (by simp)) repeatedEntries :=
  parsePat_refused (patEnvelope 30 (by simp)) repeatedEntries (by decide) rfl

end TsAnalyze.Tables
