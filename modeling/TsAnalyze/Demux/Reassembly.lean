import TsAnalyze.Demux.PsiPayload

set_option autoImplicit false

namespace TsAnalyze.Demux

open Memory Keyed

def CarriesRest : List UInt8 -> List Payload -> Prop
  | _, [] => False
  | rest, [last] =>
      last.start = false ∧ rest ≠ [] ∧ ∃ stuffing, last.bytes = rest ++ stuffing
  | rest, payload :: next :: more =>
      payload.start = false ∧
        ∃ remaining, rest = payload.bytes ++ remaining ∧ CarriesRest remaining (next :: more)

/-- The payloads that carry a section which starts its own packet. -/
def Carries (bytes : List UInt8) : List Payload -> Prop
  | [] => False
  | [only] => only.start = true ∧ ∃ stuffing, only.bytes = 0 :: bytes ++ stuffing
  | first :: next :: more =>
      first.start = true ∧ ∃ head rest, first.bytes = 0 :: head ∧ 3 ≤ head.length ∧
        bytes = head ++ rest ∧ CarriesRest rest (next :: more)

structure Transmission where
  psi : PsiSection
  payloads : List Payload
  carried : Carries psi.bytes payloads

def Transmission.expected (sent : Transmission) : List (Int × Option Block) :=
  List.replicate (sent.payloads.length - 1) (-1, none) ++
    [(((3 + sectionLength sent.psi.bytes : Nat) : Int), some (ofBytes sent.psi.bytes))]

theorem first_of_zero (payload : Payload) (head : List UInt8) (bytes : payload.bytes = 0 :: head) :
    payload.first = head := by
  simp [Payload.first, Payload.pointerField, bytes]

theorem in_range (payload : Payload) (nonempty : 0 < payload.first.length) :
    1 + payload.pointerField ≤ payload.bytes.length := by
  simp only [Payload.first, List.length_drop] at nonempty
  omega

theorem carriesRest_nonempty (rest : List UInt8) (payloads : List Payload)
    (carried : CarriesRest rest payloads) : rest ≠ [] := by
  induction payloads generalizing rest with
  | nil => exact carried.elim
  | cons payload more ih =>
    cases more with
    | nil => exact carried.2.1
    | cons next more =>
      obtain ⟨-, remaining, rfl, later⟩ := carried
      simp [ih remaining later]

theorem preproc_rest (p : SectionParser) (received rest : List UInt8) (payloads : List Payload)
    (carried : CarriesRest rest payloads) (held : Buffering p (ofBytes received))
    (limit : p.limitLen = (received ++ rest).length) :
    ∃ q returns, run preproc p payloads = some (q, returns) ∧
      returns.map Return.observe = List.replicate (payloads.length - 1) (-1, none) ++
        [(((received ++ rest).length : Int), some (ofBytes (received ++ rest)))] := by
  induction payloads generalizing p received rest with
  | nil => exact carried.elim
  | cons payload more ih =>
    cases more with
    | nil =>
      obtain ⟨continued, -, stuffing, bytes⟩ := carried
      obtain ⟨q, r, result, -, observed⟩ := preproc_done p payload continued received held
        (received ++ rest).length limit (by simp [bytes])
      have covered : (received ++ payload.bytes).take (received ++ rest).length =
          received ++ rest := by
        rw [bytes, ← List.append_assoc, List.take_left']
        rfl
      rw [covered] at observed
      exact ⟨q, [r], run_cons _ _ _ _ _ _ _ _ result rfl, by simp [observed]⟩
    | cons next more =>
      obtain ⟨continued, remaining, rfl, later⟩ := carried
      have missing := List.length_pos_iff.mpr (carriesRest_nonempty _ _ later)
      obtain ⟨q, result, limitLen, holds⟩ := preproc_more p payload continued received held (by
        rw [limit]
        simp only [List.length_append]
        omega)
      obtain ⟨final, returns, ran, observed⟩ := ih q (received ++ payload.bytes) remaining later
        holds (by rw [limitLen, limit, List.append_assoc])
      refine ⟨final, stillBuffering :: returns, run_cons _ _ _ _ _ _ _ _ result ran, ?_⟩
      simp [observed, List.replicate_succ]

-- as `Carries`, behind a pointer_field of any value
def CarriesFrom (bytes : List UInt8) : List Payload -> Prop
  | [] => False
  | [only] => only.start = true ∧ ∃ stuffing, only.first = bytes ++ stuffing
  | first :: next :: more =>
      first.start = true ∧ 3 ≤ first.first.length ∧
        ∃ rest, bytes = first.first ++ rest ∧ CarriesRest rest (next :: more)

theorem carriesFrom_of_carries (bytes : List UInt8) (payloads : List Payload)
    (carried : Carries bytes payloads) : CarriesFrom bytes payloads := by
  match payloads, carried with
  | [only], ⟨start, stuffing, cut⟩ =>
    exact ⟨start, stuffing, first_of_zero only (bytes ++ stuffing) cut⟩
  | first :: next :: more, ⟨start, head, rest, cut, header, whole, later⟩ =>
    have begins := first_of_zero first head cut
    exact ⟨start, by rwa [begins], rest, by rwa [begins], later⟩

theorem preproc_carried (p : SectionParser) (psi : PsiSection) (payloads : List Payload)
    (carried : CarriesFrom psi.bytes payloads) :
    ∃ q returns, run preproc p payloads = some (q, returns) ∧
      returns.map Return.observe = List.replicate (payloads.length - 1) (-1, none) ++
        [(((3 + sectionLength psi.bytes : Nat) : Int), some (ofBytes psi.bytes))] := by
  obtain ⟨bytes, framed⟩ := psi
  have bounds := sectionSize_bounds bytes
  have size : 3 + sectionLength bytes = bytes.length := by rw [framed, sectionSize, Nat.add_comm]
  simp only [size]
  change CarriesFrom bytes payloads at carried
  cases payloads with
  | nil => exact carried.elim
  | cons first more =>
    cases more with
    | nil =>
      rcases carried with ⟨start, stuffing, cut⟩
      have same : sectionSize first.first = bytes.length := by
        rw [cut, sectionSize_prefix _ _ (by omega), framed]
      have long : bytes.length ≤ first.first.length := by simp [cut]
      obtain ⟨q, r, result, observed, -⟩ := preproc_first_whole p first start
        (in_range first (by omega)) bytes.length (by rw [limit_of_header first (by omega), same]) long
      rw [cut, List.take_left' rfl] at observed
      exact ⟨q, [r], run_cons _ _ _ _ _ _ _ _ result rfl, by simp [observed]⟩
    | cons next more =>
      rcases carried with ⟨start, header, rest, whole, later⟩
      have same : sectionSize first.first = bytes.length := by
        rw [framed, whole, sectionSize_prefix _ _ header]
      have missing := List.length_pos_iff.mpr (carriesRest_nonempty _ _ later)
      have long : first.first.length < bytes.length := by
        rw [whole, List.length_append]
        omega
      have nonempty : first.first ≠ [] := List.length_pos_iff.mp (by omega)
      obtain ⟨q, result, limit, -, holds⟩ := preproc_first_partial p first start
        (in_range first (by omega)) bytes.length (by rw [limit_of_header first header, same]) long
      obtain ⟨final, returns, ran, observed⟩ := preproc_rest q first.first rest (next :: more) later
        (holds nonempty) (by rw [limit, whole])
      refine ⟨final, stillBuffering :: returns, run_cons _ _ _ _ _ _ _ _ result ran, ?_⟩
      simp [observed, whole, List.replicate_succ]

theorem preproc_transmissions (p : SectionParser) (sent : List Transmission) :
    ∃ q returns, run preproc p (sent.flatMap Transmission.payloads) = some (q, returns) ∧
      returns.map Return.observe = sent.flatMap Transmission.expected := by
  induction sent generalizing p with
  | nil => exact ⟨p, [], rfl, rfl⟩
  | cons one more ih =>
    obtain ⟨q, returns, first, observed⟩ := preproc_carried p one.psi one.payloads
      (carriesFrom_of_carries _ _ one.carried)
    obtain ⟨final, later, second, rest⟩ := ih q
    refine ⟨final, returns ++ later, run_append _ _ _ _ _ _ _ _ first second, ?_⟩
    rw [List.map_append, observed, rest, List.flatMap_cons, Transmission.expected]

/-- Every section is returned once, with its last packet, over any interleaving of the PIDs. -/
theorem sectionPreproc_lossless (sec : Pid → SectionParser) (sent : Pid → List Transmission)
    (stream : List (Pid × Payload))
    (interleaved : ∀ pid, project pid stream = (sent pid).flatMap Transmission.payloads) :
    ∃ sec' returns, run (stepKey preproc) sec stream = some (sec', returns) ∧
      returns.map Prod.fst = stream.map Prod.fst ∧
      ∀ pid, (project pid returns).map Return.observe =
        (sent pid).flatMap Transmission.expected := by
  choose finals outputs ran observed using fun pid => preproc_transmissions (sec pid) (sent pid)
  obtain ⟨returns, merged, pids, projected⟩ := run_interleaved preproc sec stream finals outputs
    (fun pid => by rw [interleaved pid, ran pid])
  exact ⟨finals, returns, merged, pids, fun pid => by rw [projected pid, observed pid]⟩

section Witness

def splitSection : Transmission where
  psi := ⟨[0x00, 0x00, 0x02, 0xAA, 0xBB], by decide⟩
  payloads :=
    [⟨true, [0, 0x00, 0x00, 0x02], 0, [], by decide⟩,
      ⟨false, [0xAA, 0xBB, 0xFF], 0, [], by decide⟩]
  carried := ⟨rfl, [0x00, 0x00, 0x02], [0xAA, 0xBB], rfl, by decide, rfl, rfl, by decide, [0xFF], rfl⟩

def shortSection : Transmission where
  psi := ⟨[0x4E, 0x00, 0x00], by decide⟩
  payloads := [⟨true, [0, 0x4E, 0x00, 0x00, 0xFF], 0, [], by decide⟩]
  carried := ⟨rfl, [0xFF], rfl⟩

def sentOnTwoPids (pid : Pid) : List Transmission :=
  if pid = 0 then [splitSection] else if pid = 17 then [shortSection] else []

def streamOnTwoPids : List (Pid × Payload) :=
  [(0, ⟨true, [0, 0x00, 0x00, 0x02], 0, [], by decide⟩),
    (17, ⟨true, [0, 0x4E, 0x00, 0x00, 0xFF], 0, [], by decide⟩),
    (0, ⟨false, [0xAA, 0xBB, 0xFF], 0, [], by decide⟩)]

theorem sectionPreproc_lossless_two_pids :
    ∃ sec' returns, run (stepKey preproc) (fun _ => {}) streamOnTwoPids = some (sec', returns) ∧
      returns.map Prod.fst = [0, 17, 0] ∧
      ∀ pid, (project pid returns).map Return.observe =
        (sentOnTwoPids pid).flatMap Transmission.expected :=
  sectionPreproc_lossless (fun _ => {}) sentOnTwoPids streamOnTwoPids (by
    intro pid
    by_cases pat : pid = 0
    · subst pat
      rfl
    · by_cases sdt : pid = 17
      · subst sdt
        rfl
      · simp [project, streamOnTwoPids, sentOnTwoPids, pat, sdt, Ne.symm pat, Ne.symm sdt])

end Witness

end TsAnalyze.Demux
