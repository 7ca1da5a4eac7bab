import TsAnalyze.Demux.Reassembly
import TsAnalyze.Demux.Phantom

set_option autoImplicit false

namespace TsAnalyze.Demux

open Memory Keyed

-- a byte of the section stream; the flag marks the first byte of a section
abbrev MarkedByte := Bool × UInt8

def markStart : List UInt8 → List MarkedByte
  | [] => []
  | first :: rest => (true, first) :: rest.map fun value => (false, value)

def Unmarked (bytes : List MarkedByte) : Prop :=
  ∀ byte ∈ bytes, byte.1 = false

/-- The part of the section stream that one packet carries. -/
structure Slice where
  bytes : List MarkedByte
  behind : List UInt8
  short : bytes.length ≤ 254
  readable : 2 ≤ behind.length

def Slice.begins (slice : Slice) : Bool :=
  slice.bytes.any Prod.fst

def Slice.pointer (slice : Slice) : Nat :=
  slice.bytes.findIdx Prod.fst

def Slice.values (slice : Slice) : List UInt8 :=
  slice.bytes.map Prod.snd

def Slice.payload (slice : Slice) : Payload where
  start := slice.begins
  bytes := if slice.begins then UInt8.ofNat slice.pointer :: slice.values else slice.values
  behind := ofBytes slice.behind
  short := by
    have := slice.short
    split <;> simp [Slice.values] <;> omega

/-- Sections of one PID laid out contiguously over packets, stuffed after the last one. -/
structure Packing where
  sections : List PsiSection
  stuffing : Nat
  slices : List Slice
  packed : slices.flatMap Slice.bytes =
    sections.flatMap (fun psi => markStart psi.bytes) ++ List.replicate stuffing (false, 0xFF)

def Packing.payloads (packing : Packing) : List Payload :=
  packing.slices.map Slice.payload

def Packing.DeliversAll (packing : Packing) : Prop :=
  ∃ final returns, run preproc {} packing.payloads = some (final, returns) ∧
    returns.filterMap Return.delivered = packing.sections.map fun psi => ofBytes psi.bytes

def EndsIn : List MarkedByte → List Slice → Prop
  | _, [] => False
  | rest, [last] =>
      rest ≠ [] ∧ ∃ following, last.bytes = rest ++ following ∧ Unmarked following
  | rest, slice :: next :: more =>
      ∃ remaining, rest = slice.bytes ++ remaining ∧ EndsIn remaining (next :: more)

/-- The packets in which a section is the first to begin, holds its header and meets no other. -/
def AloneIn (psi : PsiSection) : List Slice → Prop
  | [] => False
  | [only] =>
      ∃ lead rest, only.bytes = lead ++ markStart psi.bytes ++ rest ∧ Unmarked lead
  | first :: next :: more =>
      ∃ lead head tail, first.bytes = lead ++ head ∧ Unmarked lead ∧ 3 ≤ head.length ∧
        markStart psi.bytes = head ++ tail ∧ EndsIn tail (next :: more)

theorem markStart_values (bytes : List UInt8) : (markStart bytes).map Prod.snd = bytes := by
  cases bytes <;> simp [markStart, Function.comp_def]

theorem unmarked_tail (bytes : List UInt8) (head tail : List MarkedByte)
    (split : markStart bytes = head ++ tail) (nonempty : 0 < head.length) : Unmarked tail := by
  intro byte member
  cases bytes with
  | nil =>
    have empty := (List.append_eq_nil_iff.mp split.symm).1
    simp [empty] at nonempty
  | cons first rest =>
    cases head with
    | nil => simp at nonempty
    | cons other more =>
      have same : rest.map (fun value => (false, value)) = more ++ tail := (List.cons.inj split).2
      have inside : byte ∈ rest.map (fun value => (false, value)) := by
        rw [same]
        simp [member]
      obtain ⟨value, -, rfl⟩ := List.mem_map.mp inside
      rfl

theorem payload_of_unmarked (slice : Slice) (unmarked : Unmarked slice.bytes) :
    slice.payload.start = false ∧ slice.payload.bytes = slice.values := by
  have quiet : slice.begins = false := by
    rw [Slice.begins, List.any_eq_false]
    intro byte member
    simp [unmarked byte member]
  exact ⟨quiet, by simp [Slice.payload, quiet]⟩

theorem pointerField_of_begins (slice : Slice) (begins : slice.begins = true) :
    slice.payload.pointerField = slice.pointer ∧ slice.pointer < slice.bytes.length := by
  obtain ⟨byte, member, marked⟩ := List.any_eq_true.mp begins
  have inside : slice.pointer < slice.bytes.length :=
    List.findIdx_lt_length_of_exists ⟨byte, member, marked⟩
  have short := slice.short
  refine ⟨?_, inside⟩
  have bytes : slice.payload.bytes = UInt8.ofNat slice.pointer :: slice.values := if_pos begins
  rw [Payload.pointerField, bytes, List.getD_cons_zero, UInt8.toNat_ofNat']
  omega

theorem payload_of_begins (slice : Slice) (lead rest : List MarkedByte) (first : UInt8)
    (bytes : slice.bytes = lead ++ (true, first) :: rest) (unmarked : Unmarked lead) :
    slice.payload.start = true ∧ slice.payload.first = first :: rest.map Prod.snd := by
  have begins : slice.begins = true := by simp [Slice.begins, bytes]
  have pointer : slice.pointer = lead.length := by
    have absent : lead.findIdx Prod.fst = lead.length :=
      List.findIdx_eq_length_of_false unmarked
    rw [Slice.pointer, bytes, List.findIdx_append, absent]
    simp [List.findIdx_cons]
  refine ⟨begins, ?_⟩
  rw [Payload.first, (pointerField_of_begins slice begins).1, pointer]
  simp [Slice.payload, begins, Slice.values, bytes, Nat.add_comm 1]

theorem payload_wellFormed (slice : Slice) : slice.payload.WellFormed := by
  intro begins
  obtain ⟨pointerField, inside⟩ := pointerField_of_begins slice begins
  have readable := slice.readable
  have length : slice.payload.bytes.length = slice.bytes.length + 1 := by
    have same : slice.begins = true := begins
    simp [Slice.payload, same, Slice.values]
  have cell (offset : Nat) (below : offset < slice.bytes.length + 1 + slice.behind.length) :
      ∃ value, read8 slice.payload.call.pkt offset = some value := by
    have memory : slice.payload.call.pkt = ofBytes (slice.payload.bytes ++ slice.behind) := by
      simp [Payload.call, Slice.payload]
    have inside : offset < (slice.payload.bytes ++ slice.behind).length := by
      rw [List.length_append, length]
      exact below
    exact ⟨_, by rw [memory, read8_ofBytes, List.getElem?_eq_getElem inside]⟩
  obtain ⟨high, first⟩ := cell (2 + slice.payload.pointerField) (by omega)
  obtain ⟨low, second⟩ := cell (2 + slice.payload.pointerField + 1) (by omega)
  refine ⟨by omega, ?_⟩
  rw [Payload.limit, read16_eq _ _ _ _ first second]
  rfl

theorem carriesRest_of_endsIn (rest : List MarkedByte) (slices : List Slice)
    (ends : EndsIn rest slices) (unmarked : Unmarked rest) :
    CarriesRest (rest.map Prod.snd) (slices.map Slice.payload) := by
  induction slices generalizing rest with
  | nil => exact ends.elim
  | cons slice more ih =>
    cases more with
    | nil =>
      rcases ends with ⟨nonempty, following, bytes, quiet⟩
      obtain ⟨start, values⟩ := payload_of_unmarked slice (by
        intro byte member
        rw [bytes, List.mem_append] at member
        cases member with
        | inl here => exact unmarked byte here
        | inr there => exact quiet byte there)
      refine ⟨start, by simpa using nonempty, following.map Prod.snd, ?_⟩
      rw [values, Slice.values, bytes, List.map_append]
    | cons next more =>
      rcases ends with ⟨remaining, rfl, later⟩
      obtain ⟨start, values⟩ := payload_of_unmarked slice
        fun byte member => unmarked byte (List.mem_append_left _ member)
      refine ⟨start, remaining.map Prod.snd, ?_, ih remaining later
        fun byte member => unmarked byte (List.mem_append_right _ member)⟩
      rw [values, Slice.values, List.map_append]

theorem carriesFrom_of_aloneIn (psi : PsiSection) (slices : List Slice)
    (alone : AloneIn psi slices) : CarriesFrom psi.bytes (slices.map Slice.payload) := by
  have header := sectionSize_bounds psi.bytes
  have framed := psi.framed
  cases bytes : psi.bytes with
  | nil =>
    rw [bytes] at framed header
    simp at framed
    omega
  | cons value values =>
    match slices, alone with
    | [only], ⟨lead, rest, whole, unmarked⟩ =>
      have split : only.bytes = lead ++ (true, value) ::
          (values.map (fun value => (false, value)) ++ rest) := by
        simp [whole, bytes, markStart]
      obtain ⟨start, first⟩ := payload_of_begins only lead _ value split unmarked
      exact ⟨start, rest.map Prod.snd, by simp [first, Function.comp_def]⟩
    | slice :: next :: more, ⟨lead, head, tail, split, unmarked, long, whole, later⟩ =>
      cases head with
      | nil => simp at long
      | cons marked more' =>
        have quiet := unmarked_tail psi.bytes _ tail whole (by simp)
        have valued := congrArg (List.map Prod.snd) whole
        rw [markStart_values, List.map_append] at valued
        obtain rfl : marked = (true, value) := by
          rw [bytes] at whole
          exact (List.cons.inj whole).1.symm
        obtain ⟨start, first⟩ := payload_of_begins slice lead more' value split unmarked
        refine ⟨start, ?_, tail.map Prod.snd, ?_, carriesRest_of_endsIn tail (next :: more) later quiet⟩
        · simpa [first] using long
        · rw [← bytes, valued, first]
          rfl

section Witness

def twoInOne : Packing where
  sections := [⟨[0x42, 0x00, 0x00], by decide⟩, ⟨[0x46, 0x00, 0x00], by decide⟩]
  stuffing := 0
  slices :=
    [⟨[(true, 0x42), (false, 0x00), (false, 0x00), (true, 0x46), (false, 0x00), (false, 0x00)],
      [0xFF, 0xFF], by decide, by decide⟩]
  packed := by decide

def tailBeforePointer : Packing where
  sections := [⟨[0x42, 0x00, 0x02, 0xAA, 0xBB], by decide⟩, ⟨[0x46, 0x00, 0x00], by decide⟩]
  stuffing := 1
  slices :=
    [⟨[(true, 0x42), (false, 0x00), (false, 0x02), (false, 0xAA)], [0xFF, 0xFF], by decide, by decide⟩,
      ⟨[(false, 0xBB), (true, 0x46), (false, 0x00), (false, 0x00), (false, 0xFF)], [0xFF, 0xFF],
        by decide, by decide⟩]
  packed := by decide

def splitHeader : Packing where
  sections := [⟨[0x42, 0x00, 0x00], by decide⟩]
  stuffing := 0
  slices :=
    [⟨[(true, 0x42)], [0xFF, 0xFF], by decide, by decide⟩,
      ⟨[(false, 0x00), (false, 0x00)], [0xFF, 0xFF], by decide, by decide⟩]
  packed := by decide

theorem not_deliversAll (packing : Packing) (delivered : List Block)
    (result : (run preproc {} packing.payloads).map (fun done => done.2.filterMap Return.delivered) =
      some delivered)
    (different : delivered ≠ packing.sections.map fun psi => ofBytes psi.bytes) :
    ¬packing.DeliversAll := by
  rintro ⟨final, returns, ran, all⟩
  rw [ran, Option.map_some, Option.some.injEq] at result
  exact different (result.symm.trans all)

end Witness

end TsAnalyze.Demux
