import TsAnalyze.Subtitle.SegmentBodies

set_option autoImplicit false

namespace TsAnalyze.Subtitle

open Memory Tables

/-- The segments that are consumed exactly: no alternative CLUT; object data of which each field is
read to its end and fits its output, or that has no character codes; and disparities whose regions
fall apart into what is taken for regions. -/
def SegmentBody.Consumed : SegmentBody → Prop
  | .objectData object => object.coding.Consumed
  | .disparitySignalling disparity => Lands disparity.pagePeriods disparity.regionBytes
  | .alternativeClut _ => False
  | _ => True

section Bodies

theorem keeping_goes (out : PixelOutput) {parse : Cursor → Segmenting (SegmentData × Cursor)}
    {cursor after : Cursor} (goes : ∃ found, Goes (parse cursor) (found, after)) :
    ∃ data, Goes (keeping out parse cursor) ((data, out), after) := by
  obtain ⟨found, goes⟩ := goes
  exact ⟨found, goes_bind goes (goes_pure _)⟩

theorem keeping_ends {out : PixelOutput} {parse : Cursor → Segmenting (SegmentData × Cursor)}
    {cursor : Cursor} {length : Nat}
    (ends : Ends (parse cursor) fun result => result.2.len ≠ length) :
    Ends (keeping out parse cursor) fun result => result.2.len ≠ length :=
  ends_bind ends fun _ differs => ends_pure differs

theorem Goes.of_passes {A : Type} {read : Cursor → Segmenting (A × Cursor)} {bytes : List UInt8}
    (passes : Passes read bytes fun _ => True) {behind : Block} (more : 0 < behind.length) :
    ∃ found, Goes (read ⟨ofBytes bytes ++ behind, 0⟩) (found, ⟨behind, bytes.length⟩) := by
  obtain ⟨found, -, goes⟩ := passes behind 0 more
  rw [Nat.zero_add] at goes
  exact ⟨found, goes⟩

variable (turns : Nat) {out : PixelOutput} (settled : out.Settled) {behind : Block}
  (more : 0 < behind.length)
include settled more

theorem parseSegmentData_goes (body : SegmentBody) (consumed : body.Consumed) :
    ∃ data after, after.Settled ∧ Goes (parseSegmentData turns body.type body.encode.length out
      ⟨ofBytes body.encode ++ behind, 0⟩) ((data, after), ⟨behind, body.encode.length⟩) := by
  cases body with
  | displayDefinition display =>
    have passed := Goes.of_passes (parseDisplayDefinition_passes display) more
    obtain ⟨data, goes⟩ := keeping_goes out passed
    exact ⟨data, out, settled, goes⟩
  | pageComposition head regions =>
    obtain ⟨data, goes⟩ := keeping_goes out (parsePageComposition_goes more head regions)
    exact ⟨data, out, settled, goes⟩
  | regionComposition head objects =>
    obtain ⟨data, goes⟩ := keeping_goes out (parseRegionComposition_goes more head objects)
    exact ⟨data, out, settled, goes⟩
  | clutDefinition head entries =>
    obtain ⟨data, goes⟩ := keeping_goes out (parseClutDefinition_goes more head entries)
    exact ⟨data, out, settled, goes⟩
  | objectData object => exact parseObjectData_goes turns settled more object consumed
  | disparitySignalling disparity =>
    have landed := parseDisparitySignalling_goes disparity consumed more
    obtain ⟨data, goes⟩ := keeping_goes out landed
    exact ⟨data, out, settled, goes⟩
  | alternativeClut clut => exact consumed.elim
  | endOfDisplaySet => exact ⟨.none, out, settled, goes_pure _⟩

theorem parseSegmentData_lost (body : SegmentBody) (lost : ¬body.Consumed) :
    Ends (parseSegmentData turns body.type body.encode.length out
      ⟨ofBytes body.encode ++ behind, 0⟩) fun result => result.2.len ≠ body.encode.length := by
  cases body with
  | objectData object =>
    exact (parseObjectData_lost turns settled more object lost).imp fun _ impossible =>
      impossible.elim
  | disparitySignalling disparity => exact keeping_ends (parseDisparitySignalling_ends disparity lost)
  | alternativeClut clut => exact keeping_ends (parseAlternativeClut_ends clut _)
  | displayDefinition display => exact absurd trivial lost
  | pageComposition head regions => exact absurd trivial lost
  | regionComposition head objects => exact absurd trivial lost
  | clutDefinition head entries => exact absurd trivial lost
  | endOfDisplaySet => exact absurd trivial lost

end Bodies

section Nodes

variable (turns : Nat) {out : PixelOutput} (settled : out.Settled) {behind : Block}
  (more : 0 < behind.length)

-- the six bytes in front of a segment
def Segment.head (segment : Segment) : List UInt8 :=
  [0x0F, segment.body.type] ++ encode16 segment.pageId ++ encode16 segment.body.encode.length

theorem Segment.split (segment : Segment) :
    ofBytes segment.encode ++ behind =
      ofBytes segment.head ++ (ofBytes segment.body.encode ++ behind) := by
  simp [Segment.encode, Segment.head]

theorem Segment.encode_length (segment : Segment) :
    segment.encode.length = 6 + segment.body.encode.length := by
  simp only [Segment.encode, List.length_append, encode16_length, List.length_cons,
    List.length_nil]

theorem parseSubtitleSegmentHeader_encoded (segment : Segment) (behind : Block) :
    parseSubtitleSegmentHeader (ofBytes segment.head ++ behind) =
      some ⟨segment.body.type, segment.pageId, segment.body.encode.length, .none⟩ := by
  have page : Stores16 (ofBytes segment.head ++ behind) 2 segment.pageId := ⟨rfl, rfl⟩
  have length : Stores16 (ofBytes segment.head ++ behind) 4 segment.body.encode.length :=
    ⟨rfl, rfl⟩
  have sync : read8 (ofBytes segment.head ++ behind) 0 = some 0x0F := rfl
  have type : read8 (ofBytes segment.head ++ behind) 1 = some segment.body.type := rfl
  rw [parseSubtitleSegmentHeader, sync, type, page.read_fits segment.pageFits,
    length.read_fits segment.bodyFits]
  rfl

theorem dropHead (segment : Segment) (behind : Block) :
    (ofBytes segment.head ++ behind).drop 6 = behind :=
  List.drop_left' (ofBytes_length _)

include settled more

theorem parseNode_consumed (segment : Segment) (consumed : segment.body.Consumed) :
    ∃ data after, after.Settled ∧ Yields (parseNode turns (ofBytes segment.encode ++ behind) out)
      (some (⟨segment.body.type, segment.pageId, segment.body.encode.length, data⟩, after)) := by
  obtain ⟨data, after, kept, goes⟩ :=
    parseSegmentData_goes turns settled more segment.body consumed
  refine ⟨data, after, kept, ?_⟩
  rw [segment.split]
  apply yields_allocated
  apply yields_read (parseSubtitleSegmentHeader_encoded segment _)
  rw [dropHead]
  have parsed : Yields (parseSubSegment turns (ofBytes segment.body.encode ++ behind)
      segment.body.type segment.body.encode.length out)
        (segment.body.encode.length, data, after) := yields_bind goes (yields_pure _)
  apply yields_bind parsed
  exact yields_ite_true rfl (yields_pure _)

theorem parseNode_lost (segment : Segment) (lost : ¬segment.body.Consumed) (heap : Heap)
    (available : heap.Available) :
    parseNode turns (ofBytes segment.encode ++ behind) out heap = none := by
  rw [segment.split]
  cases found : parseNode turns (ofBytes segment.head ++ (ofBytes segment.body.encode ++ behind))
      out heap with
  | none => rfl
  | some result =>
    obtain ⟨later, supply⟩ := allocated_bind available found
    obtain ⟨header, headerRead, parsed⟩ := lift_bind later
    rw [parseSubtitleSegmentHeader_encoded] at headerRead
    obtain rfl := Option.some.inj headerRead
    rw [dropHead] at parsed
    obtain ⟨⟨segmented, between⟩, ran, checked⟩ := Option.bind_eq_some_iff.mp parsed
    obtain ⟨⟨outcome, last⟩, dataRun, finished⟩ := Option.bind_eq_some_iff.mp ran
    obtain ⟨-, value, rfl, differs⟩ := (parseSegmentData_lost turns settled more segment.body
      lost).post _ supply outcome last dataRun
    obtain ⟨rfl, rfl⟩ := Prod.mk.inj (Option.some.inj finished)
    dsimp only at checked
    rw [if_neg differs] at checked
    cases checked

end Nodes

section Loop

variable (turns : Nat) (behind : Block)

-- the segments and the marker behind them
def remaining (segments : List Segment) : List UInt8 :=
  segments.flatMap Segment.encode ++ [0xFF]

theorem remaining_cons (segment : Segment) (segments : List Segment) :
    ofBytes (remaining (segment :: segments)) ++ behind =
      ofBytes segment.encode ++ (ofBytes (remaining segments) ++ behind) := by
  simp [remaining]

theorem remaining_length (segment : Segment) (segments : List Segment) :
    (remaining (segment :: segments)).length =
      6 + segment.body.encode.length + (remaining segments).length := by
  rw [← segment.encode_length, remaining, remaining, List.flatMap_cons, List.append_assoc,
    List.length_append]

theorem remaining_pos (segments : List Segment) : 0 < (remaining segments).length := by
  simp [remaining]

theorem segLen_some (segment : Segment) (segments : List Segment) :
    ((remaining (segment :: segments)).length : Int) ≠ 0 := by
  have least := remaining_pos (segment :: segments)
  omega

theorem segLen_left (segment : Segment) (segments : List Segment) :
    ((remaining (segment :: segments)).length : Int) - 6 - segment.body.encode.length =
      (remaining segments).length := by
  rw [remaining_length]
  push_cast
  ring

theorem remaining_more (segments : List Segment) :
    0 < (ofBytes (remaining segments) ++ behind).length := by
  have some := remaining_pos segments
  rw [List.length_append, ofBytes_length]
  omega

theorem remaining_head (segment : Segment) (segments : List Segment) :
    read8 (ofBytes (remaining (segment :: segments)) ++ behind) 0 = some 0x0F := rfl

theorem dropSegment (segment : Segment) (segments : List Segment) :
    (ofBytes (remaining (segment :: segments)) ++ behind).drop (6 + segment.body.encode.length) =
      ofBytes (remaining segments) ++ behind := by
  rw [remaining_cons, ← segment.encode_length]
  exact List.drop_left' (ofBytes_length _)

-- nothing but the marker is left
theorem subtitleLoop_marker (fuel : Nat) (segLen : Int) (subtitle : SubtitlePesData) :
    Yields (subtitleLoop turns (fuel + 1) (ofBytes (remaining []) ++ behind) segLen subtitle)
      (0, subtitle) := by
  have marker : read8 (ofBytes (remaining []) ++ behind) 0 = some 0xFF := rfl
  rw [subtitleLoop]
  apply yields_read marker
  exact yields_ite_false (by simp) (yields_pure _)

theorem subtitleLoop_consumed (segments : List Segment) (fuel : Nat) (subtitle : SubtitlePesData)
    (settled : subtitle.out.Settled) (enough : segments.length < fuel)
    (consumed : ∀ segment ∈ segments, segment.body.Consumed) :
    ∃ result, Yields (subtitleLoop turns fuel (ofBytes (remaining segments) ++ behind)
        (remaining segments).length subtitle) (0, result) ∧
      result.segList.map (fun node => (node.segmentType, node.pageId)) =
        subtitle.segList.map (fun node => (node.segmentType, node.pageId)) ++
          segments.map fun segment => (segment.body.type, segment.pageId) := by
  induction segments generalizing fuel subtitle with
  | nil =>
    obtain ⟨fuel, rfl⟩ := Nat.exists_eq_add_of_lt enough
    refine ⟨subtitle, ?_, by simp⟩
    rw [List.length_nil, Nat.zero_add]
    exact subtitleLoop_marker turns behind fuel _ subtitle
  | cons segment segments ih =>
    obtain ⟨fuel, rfl⟩ : ∃ fewer, fuel = fewer + 1 := ⟨fuel - 1, by omega⟩
    obtain ⟨data, after, kept, node⟩ := parseNode_consumed turns settled
      (remaining_more behind segments) segment (consumed segment List.mem_cons_self)
    rw [← remaining_cons] at node
    obtain ⟨result, later, listed⟩ := ih fuel
      { subtitle with
        segList := subtitle.segList ++
          [⟨segment.body.type, segment.pageId, segment.body.encode.length, data⟩]
        out := after } kept (by rw [List.length_cons] at enough; omega)
      fun other inside => consumed other (List.mem_cons_of_mem segment inside)
    refine ⟨result, ?_, by rw [listed]; simp⟩
    rw [subtitleLoop]
    apply yields_read (remaining_head behind segment segments)
    apply yields_ite_true ⟨rfl, segLen_some segment segments⟩
    apply yields_bind node
    dsimp only
    rw [dropSegment, segLen_left]
    exact later

theorem subtitleLoop_lost (segments : List Segment) (fuel : Nat) (subtitle : SubtitlePesData)
    (settled : subtitle.out.Settled) (heap : Heap) (available : heap.Available)
    (result : (Int × SubtitlePesData) × Heap)
    (found : subtitleLoop turns fuel (ofBytes (remaining segments) ++ behind)
      (remaining segments).length subtitle heap = some result) :
    ∀ segment ∈ segments, segment.body.Consumed := by
  induction segments generalizing fuel subtitle heap with
  | nil => simp
  | cons segment segments ih =>
    cases fuel with
    | zero => cases found
    | succ fuel =>
      rw [subtitleLoop] at found
      obtain ⟨nextBits, nextRead, later⟩ := lift_bind found
      obtain rfl := Option.some.inj nextRead
      rw [if_pos ⟨rfl, segLen_some segment segments⟩] at later
      obtain ⟨⟨node, between⟩, parsed, rest⟩ := Option.bind_eq_some_iff.mp later
      by_cases consumed : segment.body.Consumed
      · obtain ⟨data, after, kept, yields⟩ := parseNode_consumed turns settled
          (remaining_more behind segments) segment consumed
        rw [← remaining_cons] at yields
        obtain ⟨other, same, supply⟩ := yields heap available
        obtain ⟨rfl, rfl⟩ := Prod.mk.inj (Option.some.inj (parsed.symm.trans same))
        dsimp only at rest
        rw [dropSegment, segLen_left] at rest
        have others := ih fuel _ kept between (available.of_succeeds supply) rest
        intro listed inside
        rcases List.mem_cons.mp inside with rfl | later
        · exact consumed
        · exact others listed later
      · have never := parseNode_lost turns settled (remaining_more behind segments) segment
          consumed heap available
        rw [← remaining_cons] at never
        exact absurd (parsed.symm.trans never) (by simp)

end Loop

section Payload

variable (segments : List Segment) (behind : Block)

theorem parseSubtitle_eq (turns : Nat) (subtitle : SubtitlePesData) :
    parseSubtitle turns (ofBytes (encodeSubtitle segments) ++ behind)
        (encodeSubtitle segments).length subtitle =
      subtitleLoop turns (ofBytes (encodeSubtitle segments) ++ behind).length
        (ofBytes (remaining segments) ++ behind) (remaining segments).length
          { subtitle with dataIdentifier := 0x20, subtitleStreamId := 0x00, segList := [] } := by
  have left : ((encodeSubtitle segments).length : Int) - 2 = (remaining segments).length := by
    simp only [encodeSubtitle, remaining, List.length_append, List.length_cons, List.length_nil]
    push_cast
    ring
  rw [parseSubtitle, left]
  rfl

/-- A payload is read to its end exactly when each segment is one that is consumed. -/
theorem readsSubtitle_iff (subtitle : SubtitlePesData) (settled : subtitle.out.Settled) :
    ReadsSubtitle segments behind subtitle ↔ ∀ segment ∈ segments, segment.body.Consumed := by
  constructor
  · intro reads
    obtain ⟨turns, result, yields, -⟩ := reads
    obtain ⟨after, found, -⟩ := yields Heap.empty Heap.empty_available
    rw [parseSubtitle_eq] at found
    exact subtitleLoop_lost turns behind segments _ { subtitle with
      dataIdentifier := 0x20, subtitleStreamId := 0x00, segList := [] } settled Heap.empty
      Heap.empty_available _ found
  · intro consumed
    have few := length_le_flatMap fun (segment : Segment) (_ : segment ∈ segments) => by
      rw [segment.encode_length]
      omega
    have enough : segments.length < (ofBytes (encodeSubtitle segments) ++ behind).length := by
      simp only [encodeSubtitle, List.length_append, List.length_cons, ofBytes_length]
      omega
    obtain ⟨result, yields, listed⟩ := subtitleLoop_consumed 0 behind segments _ { subtitle with
      dataIdentifier := 0x20, subtitleStreamId := 0x00, segList := [] } settled enough consumed
    refine ⟨0, result, ?_, listed⟩
    rw [parseSubtitle_eq]
    exact yields

end Payload

def sentPage : Segment where
  pageId := 9
  body := .pageComposition ⟨[30, 4], rfl⟩ [⟨[1, 0xFF, 0, 80, 1, 200], rfl⟩]
  pageFits := by decide
  bodyFits := by decide

def sentEnd : Segment where
  pageId := 9
  body := .endOfDisplaySet
  pageFits := by decide
  bodyFits := by decide

theorem readsSubtitle_page : ReadsSubtitle [sentPage, sentEnd] [] {} :=
  (readsSubtitle_iff [sentPage, sentEnd] [] {} ⟨rfl, rfl⟩).mpr fun segment listed => by
    rcases List.mem_pair.mp listed with rfl | rfl
    · exact trivial
    · exact trivial

-- an alternative CLUT without entries
def sentClut : Segment where
  pageId := 9
  body := .alternativeClut
    { clutId := 1, version := 0x0F, kind := 0, outputBitDepth := 5, reserved := 1, gamut := 0
      entries := []
      kindFits := by decide
      depthFits := by decide
      reservedFits := by decide
      sized := by simp }
  pageFits := by decide
  bodyFits := by decide

theorem readsSubtitle_clut : ¬ReadsSubtitle [sentClut] [] {} := by
  intro reads
  obtain ⟨turns, result, yields, -⟩ := reads
  obtain ⟨after, found, -⟩ := yields Heap.empty Heap.empty_available
  rw [parseSubtitle_eq] at found
  exact subtitleLoop_lost turns [] [sentClut] _ _ ⟨rfl, rfl⟩ Heap.empty Heap.empty_available _ found
    sentClut List.mem_cons_self

end TsAnalyze.Subtitle
