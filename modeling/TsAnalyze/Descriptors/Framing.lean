import TsAnalyze.Descriptors.Table
import TsAnalyze.Tables.Encoded

set_option autoImplicit false

namespace TsAnalyze.Descriptors

open Memory Tables

section Iterations

variable {D : Type} (ops : DescriptorOps D)

-- where the loop of parse_descriptors stands
structure Place (D : Type) where
  ptr : Block
  l : Int
  list : List (Descriptor D)

def iterate (place : Place D) : Allocating (Place D) := do
  let tag ← read8 place.ptr 0
  if ← reserve then
    let length ← read8 place.ptr 1
    let content ← ops.parse tag place.ptr (length.toNat + 2)
    return ⟨place.ptr.drop (length.toNat + 2), place.l - (length.toNat + 2),
      place.list ++ [⟨tag, length, content⟩]⟩
  else failure

inductive Iterations : Nat → Place D → Heap → Place D → Heap → Prop
  | stop (place : Place D) (heap : Heap) : Iterations 0 place heap place heap
  | turn (count : Nat) (place next final : Place D) (heap middle after : Heap) (more : 0 < place.l)
      (found : iterate ops place heap = some (next, middle))
      (later : Iterations count next middle final after) :
      Iterations (count + 1) place heap final after

theorem iterate_shrinks (place next : Place D) (heap after : Heap)
    (found : iterate ops place heap = some (next, after)) : next.l + 2 ≤ place.l := by
  rcases lift_bind found with ⟨tag, -, afterTag⟩
  have afterReserve := reserve_bind afterTag
  cases given : heap.reserve.1 with
  | false =>
    rw [given] at afterReserve
    cases afterReserve
  | true =>
    rw [given, if_pos rfl] at afterReserve
    rcases lift_bind afterReserve with ⟨length, -, afterLength⟩
    rcases lift_bind afterLength with ⟨content, -, later⟩
    have same : Place.mk (place.ptr.drop (length.toNat + 2)) (place.l - (length.toNat + 2))
        (place.list ++ [⟨tag, length, content⟩]) = next :=
      (Prod.mk.inj (Option.some.inj later)).1
    rw [← same]
    dsimp only
    omega

theorem Iterations.bounded {count : Nat} {place final : Place D} {heap after : Heap}
    (run : Iterations ops count place heap final after) : count ≤ (place.l.toNat + 1) / 2 := by
  induction run with
  | stop place heap => exact Nat.zero_le _
  | turn count place next final heap middle after more found later ih =>
    have smaller := iterate_shrinks ops place next heap middle found
    omega

theorem descriptorLoop_iterate (turns : Nat) (place : Place D) :
    descriptorLoop ops (turns + 1) place.ptr place.l place.list =
      if 0 < place.l then
        iterate ops place >>= fun next => descriptorLoop ops turns next.ptr next.l next.list
      else pure place.list := by
  rw [descriptorLoop, iterate]
  split
  · simp only [bind_assoc]
    congr 1
    funext tag
    congr 1
    funext given
    split
    · simp
    · rfl
  · rfl

theorem descriptorLoop_iterations (turns : Nat) (place : Place D) (enough : place.l ≤ 2 * turns)
    (heap : Heap) (result : List (Descriptor D) × Heap) :
    descriptorLoop ops turns place.ptr place.l place.list heap = some result ↔
      ∃ count final, Iterations ops count place heap final result.2 ∧ final.l ≤ 0 ∧
        final.list = result.1 := by
  induction turns generalizing place heap with
  | zero =>
    constructor
    · intro found
      rw [← Option.some.inj found]
      exact ⟨0, place, Iterations.stop place heap, by omega, rfl⟩
    · rintro ⟨count, final, run, -, same⟩
      cases run with
      | stop => rw [descriptorLoop, same]; rfl
      | turn _ _ _ _ _ _ _ more => omega
  | succ turns ih =>
    rw [descriptorLoop_iterate]
    by_cases more : 0 < place.l
    · rw [if_pos more]
      constructor
      · intro found
        rcases Option.bind_eq_some_iff.mp found with ⟨⟨next, middle⟩, turn, rest⟩
        have smaller := iterate_shrinks ops place next heap middle turn
        rcases (ih next (by omega) middle).mp rest with ⟨count, final, run, used, same⟩
        exact ⟨count + 1, final, Iterations.turn count place next final heap middle _ more turn run,
          used, same⟩
      · rintro ⟨count, final, run, used, same⟩
        cases run with
        | stop => omega
        | turn count _ next _ _ middle _ _ turn run =>
          have smaller := iterate_shrinks ops place next heap middle turn
          exact Option.bind_eq_some_iff.mpr
            ⟨(next, middle), turn, (ih next (by omega) middle).mpr ⟨count, final, run, used, same⟩⟩
    · rw [if_neg more]
      constructor
      · intro found
        rw [← Option.some.inj found]
        exact ⟨0, place, Iterations.stop place heap, not_lt.mp more, rfl⟩
      · rintro ⟨count, final, run, -, same⟩
        cases run with
        | stop => rw [same]; rfl
        | turn _ _ _ _ _ _ _ again => exact absurd again more

end Iterations

section Framing

variable {D : Type} (ops : DescriptorOps D)

-- a tag and a payload
abbrev Framed := UInt8 × List UInt8

def Framed.label (descriptor : Framed) : UInt8 × UInt8 :=
  (descriptor.1, UInt8.ofNat descriptor.2.length)

def encodeFramed (list : List Framed) : List UInt8 :=
  list.flatMap fun descriptor => encodeDescriptor descriptor.1 descriptor.2

/-- The parser of every tag returns where its descriptor stands. -/
def ReturnInPlace (behind : Block) : List Framed → Prop
  | [] => True
  | first :: list =>
      (ops.parse first.1 (ofBytes (encodeFramed (first :: list)) ++ behind)
        (first.2.length + 2)).isSome = true ∧ ReturnInPlace behind list

theorem encodeFramed_walked (list : List Framed) (short : ∀ framed ∈ list, framed.2.length ≤ 255)
    (behind : Block) (returns : ReturnInPlace ops behind list) :
    Walked ops (ofBytes (encodeFramed list) ++ behind) (encodeFramed list).length
      (list.map Framed.label) := by
  induction list with
  | nil => exact Walked.stop _ _ (le_refl 0)
  | cons first list ih =>
    have size : (UInt8.ofNat first.2.length).toNat = first.2.length := by
      have fits := short first List.mem_cons_self
      rw [UInt8.toNat_ofNat', Nat.mod_eq_of_lt (by omega)]
    have rest := ih (fun framed inside => short framed (List.mem_cons_of_mem first inside)) returns.2
    have split : ofBytes (encodeFramed (first :: list)) ++ behind =
        ofBytes (encodeDescriptor first.1 first.2) ++ (ofBytes (encodeFramed list) ++ behind) := by
      simp [encodeFramed]
    have own : (encodeDescriptor first.1 first.2).length = first.2.length + 2 := by
      simp [encodeDescriptor]
    have total : (encodeFramed (first :: list)).length =
        first.2.length + 2 + (encodeFramed list).length := by
      rw [encodeFramed, List.flatMap_cons, List.length_append, own, encodeFramed]
    have here := returns.1
    rw [split] at here ⊢
    rw [List.map_cons]
    refine Walked.next _ _ first.1 (UInt8.ofNat first.2.length) _ (by omega) rfl rfl ?_ ?_
    · rwa [size]
    · rw [size, List.drop_left' (by rw [ofBytes_length, own]), total]
      convert rest using 1
      omega

theorem parseDescriptors_framed (list : List Framed)
    (short : ∀ framed ∈ list, framed.2.length ≤ 255) (behind : Block)
    (returns : ReturnInPlace ops behind list) (before : List (Descriptor D)) :
    ∃ parsed, parsed.map Descriptor.label = list.map Framed.label ∧
      Yields (parseDescriptors ops before (ofBytes (encodeFramed list) ++ behind)
        (encodeFramed list).length) (before ++ parsed) :=
  descriptorLoop_walked ops (encodeFramed_walked ops list short behind returns) _ (by omega) before

end Framing

theorem parseDescriptors_framing (list : List Framed)
    (short : ∀ framed ∈ list, framed.2.length ≤ 255) (behind : Block)
    (returns : ReturnInPlace desOps behind list) (before : List (Descriptor Content)) :
    (∃ parsed, parsed.map Descriptor.label = list.map Framed.label ∧
      Yields (parseDescriptors desOps before (ofBytes (encodeFramed list) ++ behind)
        (encodeFramed list).length) (before ++ parsed)) ∧
    ∀ (buf : Block) (len : Int) (earlier : List (Descriptor Content)) (heap after : Heap)
      (count : Nat) (final : Place Content),
      Iterations desOps count ⟨buf, len, earlier⟩ heap final after → count ≤ (len.toNat + 1) / 2 :=
  ⟨parseDescriptors_framed desOps list short behind returns before,
    fun _ _ _ _ _ _ _ run => run.bounded⟩

def threeFramed : List Framed := [(0x41, [0, 101, 1]), (0x52, [7]), (0x3F, [1, 2])]

theorem parseDescriptors_framing_three :
    ∃ parsed, parsed.map Descriptor.label = [(0x41, 3), (0x52, 1), (0x3F, 2)] ∧
      Yields (parseDescriptors desOps [⟨0x42, 0, .reserved []⟩]
        (ofBytes [0x41, 3, 0, 101, 1, 0x52, 1, 7, 0x3F, 2, 1, 2]) 12)
        ([⟨0x42, 0, .reserved []⟩] ++ parsed) :=
  (parseDescriptors_framing threeFramed (by simp [threeFramed]) []
    ⟨by decide +kernel, by decide +kernel, by decide +kernel, trivial⟩ [⟨0x42, 0, .reserved []⟩]).1

end TsAnalyze.Descriptors
