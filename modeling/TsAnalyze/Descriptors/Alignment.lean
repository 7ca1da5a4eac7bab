import TsAnalyze.Descriptors.Table

set_option autoImplicit false

namespace TsAnalyze.Descriptors

open Memory Tables

section Members

variable (input : Input) (p after : Parsing)

-- only __m moves within a byte
def Member.bits : Member → Nat
  | .m _ _ bits => bits
  | _ => 0

def bitsOf (list : List Member) : Nat :=
  (list.map Member.bits).sum

theorem plastLoop_bitsOff {A : Type} (name : String) (read : Block → Option (A × Nat))
    (value : List A → Value) (ran : plastLoop input p name read value = some after) :
    after.bitsOff = p.bitsOff := by
  rcases Option.map_eq_some_iff.mp ran with ⟨found, -, rfl⟩
  rfl

theorem ploopLoop_bitsOff {A : Type} (name : String) (read : Block → Option (A × Nat))
    (more : Nat → Bool) (value : List A → Value)
    (ran : ploopLoop input p name read more value = some after) : after.bitsOff = p.bitsOff := by
  rcases Option.map_eq_some_iff.mp ran with ⟨found, -, rfl⟩
  rfl

theorem callbackOnce_bitsOff (name : String) (callback : Callback)
    (ran : callbackOnce input p name callback = some after) : after.bitsOff = p.bitsOff := by
  rcases Option.map_eq_some_iff.mp ran with ⟨found, -, rfl⟩
  rfl

-- the condition of a member decides whether it is read, not the bit it is read at
theorem optional_bitsOff (condition : Prop) [Decidable condition] (read : Option Parsing)
    (kept : read = some after → after.bitsOff = p.bitsOff)
    (ran : (if condition then read else some p) = some after) : after.bitsOff = p.bitsOff := by
  by_cases holds : condition
  · rw [if_pos holds] at ran
    exact kept ran
  · rw [if_neg holds] at ran
    rw [Option.some.inj ran]

theorem map_bitsOff {A : Type} (read : Option A) (next : A → Parsing)
    (kept : ∀ found, (next found).bitsOff = p.bitsOff) (ran : read.map next = some after) :
    after.bitsOff = p.bitsOff := by
  rcases Option.map_eq_some_iff.mp ran with ⟨found, -, rfl⟩
  exact kept found

theorem Member.parse_bitsOff (member : Member) (below : p.bitsOff < 8)
    (ran : member.parse input p = some after) :
    after.bitsOff = (p.bitsOff + member.bits) % 8 := by
  have whole : (p.bitsOff + 0) % 8 = p.bitsOff := Nat.mod_eq_of_lt below
  cases member with
  | m type name bits =>
    rcases Option.map_eq_some_iff.mp ran with ⟨value, -, rfl⟩
    rfl
  | m1 type name =>
    refine (optional_bitsOff p after _ _ ?_ ran).trans whole.symm
    exact map_bitsOff p after _ _ fun _ => rfl
  | m1Uint24 name =>
    refine (optional_bitsOff p after _ _ ?_ ran).trans whole.symm
    exact map_bitsOff p after _ _ fun _ => rfl
  | mplast type name => exact (plastLoop_bitsOff input p after name _ _ ran).trans whole.symm
  | mplastCustomSub callback name =>
    exact (plastLoop_bitsOff input p after name _ _ ran).trans whole.symm
  | mif type name cond val =>
    refine (optional_bitsOff p after _ _ ?_ ran).trans whole.symm
    exact map_bitsOff p after _ _ fun _ => rfl
  | mifCustom callback name cond val =>
    refine (optional_bitsOff p after _ _ ?_ ran).trans whole.symm
    exact callbackOnce_bitsOff input p after name callback
  | mrangelvCustom callback name cond floor ceiling =>
    refine (optional_bitsOff p after _ _ ?_ ran).trans whole.symm
    exact callbackOnce_bitsOff input p after name callback
  | mlv type length name divisor =>
    rcases Option.map_eq_some_iff.mp ran with ⟨found, -, rfl⟩
    exact whole.symm
  | mploop name => exact (ploopLoop_bitsOff input p after name _ _ _ ran).trans whole.symm
  | mploopCustom callback name =>
    exact (ploopLoop_bitsOff input p after name _ _ _ ran).trans whole.symm

theorem parseMembers_bitsOff (list : List Member) (below : p.bitsOff < 8)
    (ran : parseMembers input list p = some after) :
    after.bitsOff = (p.bitsOff + bitsOf list) % 8 := by
  induction list generalizing p with
  | nil =>
    rw [← Option.some.inj ran]
    exact (Nat.mod_eq_of_lt below).symm
  | cons member list ih =>
    rcases Option.bind_eq_some_iff.mp ran with ⟨middle, here, later⟩
    have offset := member.parse_bitsOff input p middle below here
    have sum : bitsOf (member :: list) = member.bits + bitsOf list := rfl
    rw [ih middle (by omega) later, offset, sum]
    omega

end Members

-- audio_component declares one bit of its 24-bit audio_lang; the enhanced_AC3_audio_stream of
-- tag 0xCC ends within a byte as well
theorem foreachEnumDescriptor_bits :
    ∀ entry ∈ foreachEnumDescriptor,
      entry.1 = 0xCC ∨ (bitsOf entry.2 % 8 = 0 ↔ entry.1 ≠ 0xC4) := by
  decide +kernel

theorem membersOf_caService : membersOf 0xCC = some caServiceMember := by
  rfl

theorem membersOf_bits (tag : UInt8) (list : List Member) (installed : membersOf tag = some list) :
    bitsOf list % 8 = 0 ↔ tag ≠ 0xC4 := by
  cases foreachEnumDescriptor_bits (tag, list) (membersOf_mem tag list installed) with
  | inl twice =>
    change tag = 0xCC at twice
    rw [twice, membersOf_caService] at installed
    rw [twice, ← Option.some.inj installed]
    decide
  | inr once => exact once

theorem runMembers_some (tag : UInt8) (list : List Member) (buf : Block) (len : Nat) (p : Parsing)
    (ran : runMembers tag list buf len = some (some p)) :
    ∃ length, parseMembers ⟨buf, len, length⟩ list {} = some p := by
  rcases Option.bind_eq_some_iff.mp ran with ⟨first, -, rest⟩
  split at rest
  · rcases Option.bind_eq_some_iff.mp rest with ⟨length, -, parsed⟩
    rcases Option.map_eq_some_iff.mp parsed with ⟨found, run, same⟩
    rw [← Option.some.inj same]
    exact ⟨length.toNat, run⟩
  · cases rest

theorem closingAssert_iff (tag : UInt8) (list : List Member) (installed : membersOf tag = some list)
    (buf : Block) (len : Nat) (p : Parsing) (ran : runMembers tag list buf len = some (some p)) :
    p.bitsOff = 0 ↔ tag ≠ 0xC4 := by
  rcases runMembers_some tag list buf len p ran with ⟨length, run⟩
  have offset := parseMembers_bitsOff ⟨buf, len, length⟩ {} p list (by decide) run
  rw [offset, ← membersOf_bits tag list installed]
  simp

def audioComponent : Block :=
  ofBytes [0xC4, 12, 0xF2, 1, 0x10, 0x0F, 0xFF, 0x5F, 0x6A, 0x70, 0x6E, 0x61, 0x62, 0x63]

theorem audioComponent_runs :
    ∃ p, runMembers 0xC4 audioComponentMember audioComponent 14 = some (some p) ∧
      p.bitsOff = 1 := by
  have ran : (runMembers 0xC4 audioComponentMember audioComponent 14).map
      (Option.map Parsing.bitsOff) = some (some 1) := by decide +kernel
  rcases Option.map_eq_some_iff.mp ran with ⟨ended, found, same⟩
  rcases Option.map_eq_some_iff.mp same with ⟨p, rfl, offset⟩
  exact ⟨p, found, offset⟩

theorem membersOf_audioComponent : membersOf 0xC4 = some audioComponentMember := by
  rfl

theorem closingAssert_fires :
    membersOf 0xC4 = some audioComponentMember ∧
    (∃ p, runMembers 0xC4 audioComponentMember audioComponent 14 = some (some p) ∧
      p.bitsOff ≠ 0) ∧
    desOps.parse 0xC4 audioComponent 14 = none := by
  rcases audioComponent_runs with ⟨p, ran, offset⟩
  refine ⟨membersOf_audioComponent, ⟨p, ran, by rw [offset]; decide⟩, ?_⟩
  have entry := (membersOf_eq_some 0xC4 audioComponentMember).mp membersOf_audioComponent
  simp [desOps, entry, Entry.parse, parseMembersDescriptor, ran, offset]

def conditionalPlayback : Block :=
  ofBytes [0xF8, 4, 0, 5, 0xE1, 0x00]

theorem closingAssert_iff_conditionalPlayback :
    ∃ p, runMembers 0xF8 conditionalPlaybackMember conditionalPlayback 6 = some (some p) ∧
      p.bitsOff = 0 := by
  have ran : (runMembers 0xF8 conditionalPlaybackMember conditionalPlayback 6).map
      Option.isSome = some true := by decide +kernel
  rcases Option.map_eq_some_iff.mp ran with ⟨ended, found, isSome⟩
  rcases Option.isSome_iff_exists.mp isSome with ⟨p, rfl⟩
  exact ⟨p, found, (closingAssert_iff 0xF8 conditionalPlaybackMember rfl conditionalPlayback 6 p
    found).mpr (by decide)⟩

end TsAnalyze.Descriptors
