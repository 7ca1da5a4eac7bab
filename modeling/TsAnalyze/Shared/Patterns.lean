import Mathlib

set_option autoImplicit false

namespace Patterns

variable {A : Type}

theorem not_prefix_cons {pattern : List A} {x : A} {text : List A} (nonempty : pattern ≠ [])
    (foreign : x ∉ pattern) : ¬pattern <+: x :: text := by
  intro first
  cases pattern with
  | nil => exact nonempty rfl
  | cons c pattern => simp [(List.cons_prefix_cons.mp first).1] at foreign

theorem infix_behind {pattern : List A} {x : A} {text : List A} (nonempty : pattern ≠ [])
    (foreign : x ∉ pattern) : pattern <:+: x :: text ↔ pattern <:+: text := by
  rw [List.infix_cons_iff]
  simp [not_prefix_cons nonempty foreign]

theorem prefix_separated {pattern : List A} {x : A} (left right : List A) (foreign : x ∉ pattern) :
    pattern <+: left ++ x :: right ↔ pattern <+: left := by
  induction left generalizing pattern with
  | nil =>
    cases pattern with
    | nil => simp
    | cons c pattern => simp [not_prefix_cons (List.cons_ne_nil c pattern) foreign]
  | cons b left ih =>
    cases pattern with
    | nil => simp
    | cons c pattern =>
      simp only [List.mem_cons, not_or] at foreign
      rw [List.cons_append, List.cons_prefix_cons, List.cons_prefix_cons, ih foreign.2]

/-- An occurrence does not go across what the pattern does not have. -/
theorem infix_separated {pattern : List A} {x : A} (left right : List A) (nonempty : pattern ≠ [])
    (foreign : x ∉ pattern) :
    pattern <:+: left ++ x :: right ↔ pattern <:+: left ∨ pattern <:+: right := by
  induction left with
  | nil =>
    rw [List.nil_append, infix_behind nonempty foreign, List.infix_nil]
    simp [nonempty]
  | cons b left ih =>
    have first := prefix_separated (b :: left) right foreign
    rw [List.cons_append] at first
    rw [List.cons_append, List.infix_cons_iff, List.infix_cons_iff, ih, first, or_assoc]

theorem infix_skip {head : A} {pattern : List A} (left right : List A) (foreign : head ∉ left) :
    head :: pattern <:+: left ++ right ↔ head :: pattern <:+: right := by
  induction left with
  | nil => rfl
  | cons b left ih =>
    simp only [List.mem_cons, not_or] at foreign
    rw [List.cons_append, List.infix_cons_iff, ih foreign.2, List.cons_prefix_cons]
    simp [foreign.1]

section Encoded

variable (encode : A → List A) (mark head : A) (pattern : List A)
  (marks : ∀ b, encode b = [b] ∨ ∃ code, encode b = mark :: code)
  (plain : ∀ c ∈ pattern, encode c = [c]) (unmarked : mark ∉ pattern)

include marks plain unmarked

theorem prefix_encoded (s : List A) : pattern <+: s.flatMap encode ↔ pattern <+: s := by
  induction s generalizing pattern with
  | nil => rfl
  | cons b s ih =>
    cases pattern with
    | nil => simp
    | cons c pattern =>
      have rest := ih pattern (fun d member => plain d (List.mem_cons_of_mem c member))
        fun member => unmarked (List.mem_cons_of_mem c member)
      rw [List.flatMap_cons, List.cons_prefix_cons]
      rcases marks b with same | ⟨code, coded⟩
      · rw [same, List.singleton_append, List.cons_prefix_cons, rest]
      · have marked : c ≠ mark := by
          intro same
          simp [same] at unmarked
        have other : c ≠ b := by
          intro same
          have alone := plain c List.mem_cons_self
          rw [same, coded] at alone
          have heads := (List.cons.inj alone).1
          exact marked (same.trans heads.symm)
        rw [coded, List.cons_append, List.cons_prefix_cons]
        simp [marked, other]

/-- An encoding that leaves the pattern as it is gives it no new places. -/
theorem infix_encoded (s : List A) (starts : pattern = head :: pattern.tail)
    (hidden : ∀ b, encode b = [b] ∨ head ∉ encode b) :
    pattern <:+: s.flatMap encode ↔ pattern <:+: s := by
  induction s with
  | nil => rfl
  | cons b s ih =>
    have whole := prefix_encoded encode mark pattern marks plain unmarked (b :: s)
    rw [List.flatMap_cons] at whole ⊢
    rcases hidden b with same | absent
    · rw [same, List.singleton_append] at whole ⊢
      rw [List.infix_cons_iff, List.infix_cons_iff, whole, ih]
    · have other : head ∉ [b] := by
        intro member
        have alone := plain head (by rw [starts]; exact List.mem_cons_self)
        rw [List.mem_singleton.mp member] at alone absent
        simp [alone] at absent
      rw [starts] at ih ⊢
      rw [infix_skip _ _ absent, ih, ← infix_skip [b] s other, List.singleton_append]

end Encoded

end Patterns
