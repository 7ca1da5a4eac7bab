import TsAnalyze.Demux.PsiPayload

set_option autoImplicit false

namespace TsAnalyze.Demux

open Memory Keyed

-- the pointer_field of a start payload stays inside it and the two length bytes can be read
def Payload.WellFormed (payload : Payload) : Prop :=
  payload.start = true →
    1 + payload.pointerField ≤ payload.bytes.length ∧ payload.limit.isSome = true

instance (payload : Payload) : Decidable payload.WellFormed :=
  inferInstanceAs (Decidable (_ → _))

/-- A start payload that section_preproc returns at once, without buffering it. -/
def Payload.Whole (payload : Payload) : Prop :=
  payload.start = true ∧ ∃ limit ∈ payload.limit, limit ≤ payload.first.length

/-- No continuation payload directly follows a start payload that holds its whole section. -/
def Separated : List Payload → Prop :=
  List.IsChain fun earlier later => earlier.Whole → later.start = true

def receive (received : List UInt8) (payload : Payload) : List UInt8 :=
  if payload.start then payload.first else received ++ payload.bytes

-- the payload bytes received at or after the most recent start payload
def sinceStart (payloads : List Payload) : List UInt8 :=
  payloads.foldl receive []

def starts (payloads : List Payload) : Nat :=
  payloads.countP fun payload => payload.start

def deliveries (returns : List Return) : Nat :=
  returns.countP fun r => r.delivered.isSome

structure NoPhantom (payloads : List Payload) (returns : List Return) : Prop where
  counted : ∀ n, deliveries (returns.take n) ≤ starts (payloads.take n)
  fresh : ∀ n r data, returns[n]? = some r → r.delivered = some data →
    data = ofBytes ((sinceStart (payloads.take (n + 1))).take data.length)

theorem delivered_of_observe (r : Return) (limit : Nat) (memory : Block) (positive : 0 < limit)
    (small : limit < 65536) (observed : r.observe = ((limit : Int), some memory)) :
    r.delivered = some memory := by
  cases r with
  | mk secLen buffering =>
    obtain ⟨rfl, taken⟩ := Prod.mk.inj observed
    have proper : ¬((limit : Int) = -1 ∨ (limit : Int) = 0) := by omega
    rw [Return.delivered, if_neg proper, toUint16_of_small limit small]
    exact taken

-- What the parser may still deliver, and from which bytes.
inductive Phase (p : SectionParser) (received : List UInt8) : Nat → Prop where
  | idle : p.totalLen = 0 → Phase p received 0
  | buffering (limit : Nat) : p.limitLen = limit → Buffering p (ofBytes received) →
      Phase p received 1

-- the parser right after a section was returned without buffering it
structure Returned (p : SectionParser) (limit : Nat) : Prop where
  limitLen : p.limitLen = limit
  positive : 0 < limit
  whole : (limit : Int) ≤ p.totalLen
  short : p.totalLen ≤ 255

/-- One payload: it delivers received bytes only, and at most once for each start. -/
structure Sound (payload : Payload) (received : List UInt8) (pending : Nat) (r : Return)
    (pending' : Nat) : Prop where
  budget : (if r.delivered.isSome then 1 else 0) + pending' ≤
    pending + (if payload.start then 1 else 0)
  fresh : ∀ data, r.delivered = some data →
    data = ofBytes ((receive received payload).take data.length)

theorem fresh_of_taken (received : List UInt8) (limit : Nat) (data : Block)
    (enough : limit ≤ received.length) (taken : data = ofBytes (received.take limit)) :
    data = ofBytes (received.take data.length) := by
  have length : data.length = limit := by
    rw [taken, ofBytes_length, List.length_take, Nat.min_eq_left enough]
  rw [length, taken]

theorem preproc_sound (p : SectionParser) (payload : Payload) (received : List UInt8) (pending : Nat)
    (wellFormed : payload.WellFormed)
    (ready : Phase p received pending ∨ pending = 0 ∧ payload.start = true) :
    ∃ q r pending', preproc p payload = some (q, r) ∧ Sound payload received pending r pending' ∧
      (Phase q (receive received payload) pending' ∨
        pending' = 0 ∧ payload.Whole ∧ ∃ limit, Returned q limit) := by
  by_cases start : payload.start = true
  · obtain ⟨inRange, readable⟩ := wellFormed start
    obtain ⟨limit, known⟩ := Option.isSome_iff_exists.mp readable
    have bounds := limit_bounds payload limit known
    by_cases whole : limit ≤ payload.first.length
    · obtain ⟨q, r, result, observed, total, limitLen⟩ :=
        preproc_first_whole p payload start inRange limit known whole
      have room : payload.first.length ≤ 255 := by
        have := payload.short
        simp only [Payload.first, List.length_drop]
        omega
      have delivered := delivered_of_observe r limit _ (by omega) (by omega) observed
      refine ⟨q, r, 0, result, ⟨by simp [delivered, start], ?_⟩,
        Or.inr ⟨rfl, ⟨start, limit, known, whole⟩, limit, limitLen, by omega, by omega, by omega⟩⟩
      intro data same
      rw [delivered] at same
      rw [receive, if_pos start]
      exact fresh_of_taken _ limit _ whole (Option.some.inj same).symm
    · obtain ⟨q, result, limitLen, total, holds⟩ :=
        preproc_first_partial p payload start inRange limit known (by omega)
      by_cases empty : payload.first = []
      · refine ⟨q, stillBuffering, 0, result, ⟨by simp, by simp⟩, Or.inl (.idle ?_)⟩
        simpa [empty] using total
      · refine ⟨q, stillBuffering, 1, result, ⟨by simp [start], by simp⟩, Or.inl ?_⟩
        rw [receive, if_pos start]
        exact .buffering limit limitLen (holds empty)
  · have continued : payload.start = false := by simpa using start
    cases ready with
    | inr blocked => exact absurd blocked.2 start
    | inl phase =>
      cases phase with
      | idle total =>
        exact ⟨p, stillBuffering, 0, preproc_idle p payload continued total, ⟨by simp, by simp⟩,
          Or.inl (.idle total)⟩
      | buffering limit limitLen held =>
        by_cases done : limit ≤ (received ++ payload.bytes).length
        · obtain ⟨q, r, result, total, observed⟩ :=
            preproc_done p payload continued received held limit limitLen done
          have positive : 0 < limit := by
            have := held.short
            have := held.totalLen
            omega
          have small : limit < 65536 := by
            have := held.limit
            omega
          have delivered := delivered_of_observe r limit _ positive small observed
          refine ⟨q, r, 0, result, ⟨by simp [delivered], ?_⟩, Or.inl (.idle total)⟩
          intro data same
          rw [delivered] at same
          rw [receive, if_neg start]
          exact fresh_of_taken _ limit _ done (Option.some.inj same).symm
        · obtain ⟨q, result, same, holds⟩ :=
            preproc_more p payload continued received held (by omega)
          refine ⟨q, stillBuffering, 1, result, ⟨by simp, by simp⟩, Or.inl ?_⟩
          rw [receive, if_neg start]
          exact .buffering limit (same.trans limitLen) holds

theorem preproc_run_sound (payloads : List Payload) (p : SectionParser) (received : List UInt8)
    (pending : Nat) (wellFormed : ∀ payload ∈ payloads, payload.WellFormed)
    (separated : Separated payloads)
    (ready : Phase p received pending ∨
      pending = 0 ∧ ∀ payload ∈ payloads.head?, payload.start = true) :
    ∃ final returns, run preproc p payloads = some (final, returns) ∧
      (∀ n, deliveries (returns.take n) ≤ pending + starts (payloads.take n)) ∧
      ∀ n r data, returns[n]? = some r → r.delivered = some data →
        data = ofBytes (((payloads.take (n + 1)).foldl receive received).take data.length) := by
  induction payloads generalizing p received pending with
  | nil => exact ⟨p, [], rfl, by simp [deliveries], by simp⟩
  | cons payload more ih =>
    have here : Phase p received pending ∨ pending = 0 ∧ payload.start = true :=
      ready.imp_right fun blocked => ⟨blocked.1, blocked.2 payload (by simp)⟩
    obtain ⟨q, r, pending', result, sound, next⟩ :=
      preproc_sound p payload received pending (wellFormed payload (by simp)) here
    have later : Phase q (receive received payload) pending' ∨
        pending' = 0 ∧ ∀ payload ∈ more.head?, payload.start = true :=
      next.imp_right fun whole =>
        ⟨whole.1, fun following member => (List.isChain_cons.mp separated).1 following member whole.2.1⟩
    obtain ⟨final, returns, ran, counted, fresh⟩ := ih q (receive received payload) pending'
      (fun other member => wellFormed other (by simp [member])) (List.isChain_cons.mp separated).2 later
    refine ⟨final, r :: returns, run_cons _ _ _ _ _ _ _ _ result ran, ?_, ?_⟩
    · intro n
      cases n with
      | zero => simp [deliveries]
      | succ n =>
        have budget := sound.budget
        have rest := counted n
        simp only [deliveries, starts, List.take_succ_cons, List.countP_cons] at rest ⊢
        omega
    · intro n other data same delivered
      cases n with
      | zero =>
        obtain rfl : r = other := by simpa using same
        simpa using sound.fresh data delivered
      | succ n => simpa using fresh n other data (by simpa using same) delivered

/-- From the initial parser, separated payloads never yield a phantom section. -/
theorem sectionPreproc_no_phantom (payloads : List Payload)
    (wellFormed : ∀ payload ∈ payloads, payload.WellFormed) (separated : Separated payloads) :
    ∃ final returns, run preproc {} payloads = some (final, returns) ∧
      NoPhantom payloads returns := by
  obtain ⟨final, returns, ran, counted, fresh⟩ := preproc_run_sound payloads {} [] 0 wellFormed
    separated (Or.inl (.idle rfl))
  exact ⟨final, returns, ran, by simpa using counted, fresh⟩

-- the content of the reassembly buffer before the next copy
def staleCells (p : SectionParser) : Block :=
  match p.buffer with
  | some pbuf => pbuf.cells
  | none => List.replicate maxSectionBuf none

/-- A continuation payload after a section returned at once delivers what the buffer held. -/
theorem preproc_phantom (p : SectionParser) (payload : Payload) (continued : payload.start = false)
    (limit : Nat) (returned : Returned p limit) :
    ∃ q r, preproc p payload = some (q, r) ∧ q.totalLen = 0 ∧
      r.delivered = some ((staleCells p).take limit) := by
  rcases returned with ⟨limitLen, positive, whole, short⟩
  obtain ⟨q, pbuf, obtained, total, limit', -⟩ := secGetbuf_succeeds p
  have stale : pbuf.cells = staleCells p := by
    unfold secGetbuf at obtained
    unfold staleCells
    cases present : p.buffer with
    | none =>
      simp only [present, if_true, Prod.mk.injEq, Option.some.injEq] at obtained
      rw [← obtained.2]
      rfl
    | some known =>
      simp only [present, Prod.mk.injEq, Option.some.injEq] at obtained
      rw [obtained.2]
  have room := payload.short
  obtain ⟨filled, copied⟩ := Option.isSome_iff_exists.mp
    ((Region.memcpy_isSome pbuf q.totalLen payload.call.pkt payload.call.len).mpr
      ⟨by omega, by omega, by simp only [Payload.call, maxSectionBuf]; omega,
        by exact_mod_cast call_readable payload⟩)
  have kept := Region.memcpy_keeps pbuf filled q.totalLen payload.call.len payload.call.pkt copied
    limit (by omega)
  have nonzero : p.totalLen ≠ 0 := by omega
  have finished : q.totalLen + payload.call.len ≥ q.limitLen := by omega
  have same : payload.call.malloc = true := rfl
  refine ⟨{ q with buffer := some filled, totalLen := 0 },
    ⟨toInt16 q.limitLen, some filled.cells⟩,
    (preproc_continue p payload continued).trans ?_, rfl, ?_⟩
  · rw [continuePsi, if_neg nonzero, same, obtained]
    simp only [copied, Option.bind_eq_bind, Option.bind_some, finished, if_true, Option.pure_def]
  · rw [limit', limitLen, delivered_whole _ _ positive (by omega), kept, stale]

/-- The states section_preproc can be in between two calls for a PSI PID. -/
def Ready (p : SectionParser) : Prop :=
  (∃ received pending, Phase p received pending) ∨ ∃ limit, Returned p limit

theorem ready_initial : Ready {} :=
  Or.inl ⟨[], 0, .idle rfl⟩

theorem preproc_ready (p : SectionParser) (payload : Payload) (ready : Ready p)
    (wellFormed : payload.WellFormed) :
    ∃ q r, preproc p payload = some (q, r) ∧ Ready q := by
  have finish (received : List UInt8) (pending : Nat)
      (here : Phase p received pending ∨ pending = 0 ∧ payload.start = true) :
      ∃ q r, preproc p payload = some (q, r) ∧ Ready q := by
    obtain ⟨q, r, pending', result, -, next⟩ := preproc_sound p payload received pending wellFormed here
    refine ⟨q, r, result, ?_⟩
    cases next with
    | inl phase => exact Or.inl ⟨_, _, phase⟩
    | inr whole => exact Or.inr whole.2.2
  rcases ready with ⟨received, pending, phase⟩ | ⟨limit, returned⟩
  · exact finish received pending (Or.inl phase)
  · by_cases start : payload.start = true
    · exact finish [] 0 (Or.inr ⟨rfl, start⟩)
    · obtain ⟨q, r, result, total, -⟩ := preproc_phantom p payload (by simpa using start) limit returned
      exact ⟨q, r, result, Or.inl ⟨[], 0, .idle total⟩⟩

theorem preproc_run_ready (payloads : List Payload) (p : SectionParser) (ready : Ready p)
    (wellFormed : ∀ payload ∈ payloads, payload.WellFormed) :
    ∃ q returns, run preproc p payloads = some (q, returns) ∧ Ready q := by
  induction payloads generalizing p with
  | nil => exact ⟨p, [], rfl, ready⟩
  | cons payload more ih =>
    obtain ⟨q, r, result, next⟩ := preproc_ready p payload ready (wellFormed payload (by simp))
    obtain ⟨final, returns, ran, last⟩ := ih q next fun other member => wellFormed other (by simp [member])
    exact ⟨final, r :: returns, run_cons _ _ _ _ _ _ _ _ result ran, last⟩

section Witness

def emptySection : Payload := ⟨true, [0, 0x42, 0x00, 0x00], 0, [], by decide⟩

def emptySectionAgain : Payload := ⟨true, [0, 0x42, 0x00, 0x00, 0xFF], 0, [], by decide⟩

def strayByte : Payload := ⟨false, [0xAA], 0, [], by decide⟩

theorem sectionPreproc_no_phantom_repeated :
    ∃ final returns, run preproc {} [strayByte, emptySection, emptySectionAgain] =
        some (final, returns) ∧
      NoPhantom [strayByte, emptySection, emptySectionAgain] returns :=
  sectionPreproc_no_phantom _ (by decide) (by simp [Separated, emptySection, emptySectionAgain, strayByte, Payload.Whole])

/-- The continuation payload after a whole section yields a second, unwritten section. -/
theorem sectionPreproc_phantom_after_whole :
    (∀ payload ∈ [emptySection, strayByte], payload.WellFormed) ∧
      ∃ final returns, run preproc {} [emptySection, strayByte] = some (final, returns) ∧
        returns.map Return.delivered =
          [some (ofBytes [0x42, 0x00, 0x00]), some [none, none, none]] ∧
        ¬NoPhantom [emptySection, strayByte] returns := by
  obtain ⟨q, r, first, observed, total, limit⟩ :=
    preproc_first_whole {} emptySection rfl (by decide) 3 (by decide) (by decide)
  obtain ⟨final, phantom, second, -, stale⟩ := preproc_phantom q strayByte rfl 3
    ⟨limit, by decide, by rw [total]; decide, by rw [total]; decide⟩
  have delivered := delivered_of_observe r 3 _ (by decide) (by decide) observed
  have untouched : q.buffer = none := by
    have direct := startPsi_whole {} emptySection.call 0 0 (by decide) (by decide) (by decide)
    rw [preproc_start _ _ rfl] at first
    have same := Option.some.inj (direct.symm.trans first)
    exact (congrArg (fun pair => pair.1.buffer) same).symm
  refine ⟨by decide, final, [r, phantom], run_cons _ _ _ _ _ _ _ _ first
    (run_cons _ _ _ _ _ _ _ _ second rfl), ?_, ?_⟩
  · simp only [List.map_cons, List.map_nil, delivered, stale, staleCells, untouched,
      List.take_replicate]
    rfl
  · intro sound
    have tooMany := sound.counted 2
    simp [deliveries, starts, delivered, stale, emptySection, strayByte] at tooMany

end Witness

end TsAnalyze.Demux
