import TsAnalyze.Psip.MgtEncoding

set_option autoImplicit false

namespace TsAnalyze.Psip

open Memory Tables

variable {D : Type}

-- what is compared of an update
structure UpdateLabel where
  updateType : UInt8
  updateDataLength : UInt8
  descriptors : List (UInt8 × UInt8)

def DefineUpdate.label (update : DefineUpdate D) : UpdateLabel :=
  ⟨update.updateType, update.updateDataLength, update.list.map Descriptor.label⟩

/-- The data of an update, by its type. -/
inductive UpdateContent
  | genre (code : UInt8) (name : MultiText)
  | state (code : UInt8) (text : MultiText)
  | county (stateCode : UInt8) (code : Nat) (fits : code < 1024) (text : MultiText)
  | other (updateType : UInt8) (unknown : updateType ∉ [0x01, 0x02, 0x03]) (data : List UInt8)

namespace UpdateContent

def updateType : UpdateContent → UInt8
  | genre _ _ => 0x01
  | state _ _ => 0x02
  | county _ _ _ _ => 0x03
  | other updateType _ _ => updateType

def encode : UpdateContent → List UInt8
  | genre code name => [code] ++ name.encode
  | state code text => [code] ++ text.encode
  | county stateCode code _ text => [stateCode] ++ encode16 (63 * 2 ^ 10 + code) ++ text.encode
  | other _ _ data => data

-- an update of unknown type has no data
def Skippable : UpdateContent → Prop
  | other _ _ data => data = []
  | _ => True

end UpdateContent

variable (ops : DescriptorOps D)

structure CategoryUpdate where
  content : UpdateContent
  descriptors : List (AcceptedDescriptor ops)
  short : content.encode.length ≤ 255

structure CodeUpdates where
  protocolVersion : UInt8
  updates : List (CategoryUpdate ops)
  additional : List (AcceptedDescriptor ops)

variable {ops}

namespace CategoryUpdate

variable (update : CategoryUpdate ops)

def label : UpdateLabel :=
  ⟨update.content.updateType, UInt8.ofNat update.content.encode.length,
    update.descriptors.map AcceptedDescriptor.label⟩

def encode : List UInt8 :=
  [update.content.updateType, UInt8.ofNat update.content.encode.length] ++
    update.content.encode ++ encodeShortLoop update.descriptors

theorem encode_length : update.encode.length =
    4 + update.content.encode.length + (encodeDescriptors update.descriptors).length := by
  simp only [encode, encodeShortLoop, List.length_append, encode16_length, List.length_cons,
    List.length_nil]
  omega

end CategoryUpdate

namespace CodeUpdates

variable (table : CodeUpdates ops)

def body : List UInt8 :=
  [table.protocolVersion, UInt8.ofNat table.updates.length] ++
    table.updates.flatMap CategoryUpdate.encode ++ encodeShortLoop table.additional

/-- The table says what the updates say. -/
structure Decoded (dccsct : Dccsct D) : Prop where
  protocolVersion : dccsct.protocolVersion = table.protocolVersion
  updates : dccsct.updates.map (List.map DefineUpdate.label) =
    some (table.updates.map CategoryUpdate.label)
  additional : dccsct.list.map Descriptor.label =
    table.additional.map AcceptedDescriptor.label

-- the memory of the updates and what stands behind them
def memory (envelope : Envelope) : Block :=
  ofBytes (table.updates.flatMap CategoryUpdate.encode) ++
    (ofBytes (encodeShortLoop table.additional) ++ envelope.behind)

theorem body_length : table.body.length =
    4 + (table.updates.flatMap CategoryUpdate.encode).length +
      (encodeDescriptors table.additional).length := by
  simp only [body, encodeShortLoop, List.length_append, encode16_length, List.length_cons,
    List.length_nil]
  omega

theorem updates_few :
    4 * table.updates.length ≤ (table.updates.flatMap CategoryUpdate.encode).length := by
  apply nodes_size
  intro update _
  rw [update.encode_length]
  omega

theorem behind_counts (envelope : Envelope) :
    (ofBytes table.body ++ envelope.behind).drop 2 = table.memory envelope := by
  simp [body, memory]

end CodeUpdates

-- the bytes that an update of this type takes its data from, whatever update_data_length says
def updateDataSize (updateType : UInt8) (memory : Block) : Option Nat :=
  if updateType = 0x01 ∨ updateType = 0x02 then do
    let _ ← read8 memory 0
    let text ← multiStringSize (memory.drop 1)
    return 1 + text
  else if updateType = 0x03 then do
    let _ ← read8 memory 0
    let _ ← read16 memory 1
    let text ← multiStringSize (memory.drop 3)
    return 3 + text
  else some 0

def behindData (memory : Block) : Block :=
  memory.drop (2 + (updateDataSize ((read8 memory 0).getD 0) (memory.drop 2)).getD 0)

def shortLengthAt (memory : Block) : Nat :=
  readBits 16 ((read16 memory 0).getD 0) 10 6

/-- A length of ten bits and descriptors with the tags and lengths of these stand here. -/
structure ShortLoopAt (list : List (AcceptedDescriptor ops)) (memory : Block) : Prop where
  length : (read16 memory 0).isSome = true
  descriptors : Walked ops (memory.drop 2) (shortLengthAt memory)
    (list.map AcceptedDescriptor.label)

/-- The update is what the decoder finds in this memory: its type and data length, data that ends
where its own fields say, and a length and descriptors with its tags and lengths there. -/
structure CategoryUpdate.At (update : CategoryUpdate ops) (memory : Block) : Prop where
  updateType : read8 memory 0 = some update.content.updateType
  updateDataLength : read8 memory 1 = some (UInt8.ofNat update.content.encode.length)
  data : (updateDataSize update.content.updateType (memory.drop 2)).isSome = true
  descriptors : ShortLoopAt update.descriptors (behindData memory)

/-- Every update stands where the loop looks for it, and the additional descriptors behind them. -/
def UpdatesAligned (additional : List (AcceptedDescriptor ops)) :
    List (CategoryUpdate ops) → Block → Prop
  | [], memory => ShortLoopAt additional memory
  | update :: updates, memory =>
      update.At memory ∧ UpdatesAligned additional updates
        ((behindData memory).drop (2 + shortLengthAt (behindData memory)))

section ShortLoop

variable (list : List (AcceptedDescriptor ops)) (memory : Block)

theorem parseDescriptors_at (here : ShortLoopAt list memory) :
    ∃ word parsed, read16 memory 0 = some word ∧ readBits 16 word 10 6 = shortLengthAt memory ∧
      parsed.map Descriptor.label = list.map AcceptedDescriptor.label ∧
      Yields (parseDescriptors ops [] (memory.drop 2) (shortLengthAt memory)) parsed := by
  obtain ⟨word, wordRead⟩ := Option.isSome_iff_exists.mp here.length
  obtain ⟨parsed, found⟩ := parseDescriptors_walked ops here.descriptors
  exact ⟨word, parsed, wordRead, by rw [shortLengthAt, wordRead, Option.getD_some], found⟩

theorem shortLoop_inside (word : Nat) (wordRead : read16 memory 0 = some word) (heap : Heap)
    (result : List (Descriptor D) × Heap)
    (found : parseDescriptors ops [] (memory.drop 2) (readBits 16 word 10 6) heap = some result)
    (same : result.1.map Descriptor.label = list.map AcceptedDescriptor.label) :
    ShortLoopAt list memory ∧ readBits 16 word 10 6 = shortLengthAt memory := by
  have length : readBits 16 word 10 6 = shortLengthAt memory := by
    rw [shortLengthAt, wordRead, Option.getD_some]
  have walked := parseDescriptors_inside ops _ _ _ result found
  rw [same, length] at walked
  exact ⟨⟨by rw [wordRead, Option.isSome_some], walked⟩, length⟩

theorem shortLengthAt_encoded (behind : Block)
    (short : (encodeDescriptors list).length < 2 ^ 10) :
    shortLengthAt (ofBytes (encodeShortLoop list) ++ behind) = (encodeDescriptors list).length := by
  obtain ⟨word, wordRead, length⟩ := readShortLoop_encoded list behind short
  rw [shortLengthAt, wordRead, Option.getD_some, length]

theorem shortLoop_encoded (behind : Block) (short : (encodeDescriptors list).length < 2 ^ 10) :
    ShortLoopAt list (ofBytes (encodeShortLoop list) ++ behind) := by
  obtain ⟨word, wordRead, length⟩ := readShortLoop_encoded list behind short
  refine ⟨by rw [wordRead, Option.isSome_some], ?_⟩
  rw [shortLengthAt_encoded list behind short]
  exact encodeDescriptors_walked list behind

end ShortLoop

section Data

/-- A reader moves on by this many bytes, and fails if there is no such number. -/
structure Moves {A : Type} (read : Allocating (A × Int)) (size : Option Nat) : Prop where
  reads : ∀ bytes, size = some bytes → ∃ value, Yields read (value, (bytes : Int))
  sized : ∀ heap result, heap.Available → read heap = some result →
    ∃ bytes : Nat, size = some bytes ∧ result.1.2 = bytes

theorem moves_read {A B : Type} {value : Option B} {next : B → Allocating (A × Int)}
    {size : Option Nat} (later : ∀ known, Moves (next known) size) :
    Moves (liftM value >>= next) (value.bind fun _ => size) := by
  constructor
  · intro bytes same
    obtain ⟨known, found, same⟩ := Option.bind_eq_some_iff.mp same
    obtain ⟨read, yields⟩ := (later known).reads bytes same
    exact ⟨read, yields_read found yields⟩
  · intro heap result available found
    obtain ⟨known, same, found⟩ := lift_bind found
    obtain ⟨bytes, sized, moved⟩ := (later known).sized heap result available found
    exact ⟨bytes, by rw [same, Option.bind_some, sized], moved⟩

-- a text at the end of the data
theorem moves_text {A : Type} (memory : Block) (wrap : MultipleString → A) (before : Nat) :
    Moves (parseMultiString memory >>= fun text => pure (wrap text.1, before + text.2))
      ((multiStringSize memory).bind fun bytes => some (before + bytes)) := by
  constructor
  · intro bytes same
    obtain ⟨size, known, same⟩ := Option.bind_eq_some_iff.mp same
    obtain ⟨value, yields⟩ := parseMultiString_measured memory size known
    refine ⟨wrap value, ?_⟩
    rw [← Option.some.inj same, Int.natCast_add]
    exact yields_bind yields (yields_pure _)
  · intro heap result available found
    obtain ⟨⟨text, after⟩, reading, ending⟩ := Option.bind_eq_some_iff.mp found
    obtain ⟨size, known, moved⟩ := parseMultiString_size memory heap available (text, after) reading
    cases ending
    have advance : text.2 = (size : Int) := moved
    exact ⟨before + size, by rw [known, Option.bind_some], by simp [advance]⟩

theorem readUpdateData_moves (updateType : UInt8) (memory : Block) :
    Moves (readUpdateData updateType memory) (updateDataSize updateType memory) := by
  rw [readUpdateData, updateDataSize]
  by_cases genre : updateType = 0x01
  · rw [if_pos genre, if_pos (Or.inl genre)]
    exact moves_read fun code => moves_text _ (UpdateData.genreCategory code) 1
  · rw [if_neg genre]
    by_cases state : updateType = 0x02
    · rw [if_pos state, if_pos (Or.inr state)]
      exact moves_read fun code => moves_text _ (UpdateData.stateLocation code) 1
    · rw [if_neg state, if_neg (not_or.mpr ⟨genre, state⟩)]
      by_cases county : updateType = 0x03
      · rw [if_pos county, if_pos county]
        exact moves_read fun stateCode => moves_read fun word =>
          moves_text _ (UpdateData.countyLocation stateCode (readBits 16 word 10 6)) 3
      · rw [if_neg county, if_neg county]
        constructor
        · intro bytes same
          cases same
          exact ⟨.unset, yields_pure _⟩
        · intro heap result available found
          cases found
          exact ⟨0, rfl, rfl⟩

end Data

section Update

variable (update : CategoryUpdate ops) (memory : Block)

-- where the list of descriptors is looked for
theorem behindData_at (bytes : Nat)
    (updateType : read8 memory 0 = some update.content.updateType)
    (known : updateDataSize update.content.updateType (memory.drop 2) = some bytes) :
    behindData memory = memory.drop (2 + bytes) := by
  rw [behindData, updateType, Option.getD_some, known, Option.getD_some]

theorem readUpdate_at (here : update.At memory) :
    ∃ node : DefineUpdate D, node.label = update.label ∧ ∃ advance,
      memory.drop advance = (behindData memory).drop (2 + shortLengthAt (behindData memory)) ∧
        Yields (readUpdate ops memory) (node, advance) := by
  obtain ⟨bytes, known⟩ := Option.isSome_iff_exists.mp here.data
  have rest := behindData_at update memory bytes here.updateType known
  obtain ⟨data, moved⟩ := (readUpdateData_moves _ _).reads bytes known
  obtain ⟨word, parsed, wordRead, length, labels, listed⟩ :=
    parseDescriptors_at update.descriptors _ here.descriptors
  rw [rest] at wordRead length listed ⊢
  refine ⟨⟨update.content.updateType, UInt8.ofNat update.content.encode.length, data,
    shortLengthAt (memory.drop (2 + bytes)), parsed⟩,
    by rw [DefineUpdate.label, labels, CategoryUpdate.label],
    2 + bytes + (2 + shortLengthAt (memory.drop (2 + bytes))), by rw [List.drop_drop], ?_⟩
  apply yields_read here.updateType
  apply yields_read here.updateDataLength
  apply yields_bind moved
  dsimp only
  rw [Int.toNat_natCast]
  apply yields_read wordRead
  rw [length]
  apply yields_bind listed
  exact yields_pure _

theorem readUpdate_inside (heap : Heap) (available : heap.Available)
    (result : (DefineUpdate D × Nat) × Heap) (found : readUpdate ops memory heap = some result)
    (same : result.1.1.label = update.label) :
    update.At memory ∧ memory.drop result.1.2 =
      (behindData memory).drop (2 + shortLengthAt (behindData memory)) := by
  obtain ⟨updateType, typeRead, found⟩ := lift_bind found
  obtain ⟨updateDataLength, lengthRead, found⟩ := lift_bind found
  obtain ⟨⟨data, middle⟩, reading, found⟩ := Option.bind_eq_some_iff.mp found
  obtain ⟨word, wordRead, found⟩ := lift_bind found
  obtain ⟨⟨list, after⟩, listed, ending⟩ := Option.bind_eq_some_iff.mp found
  cases ending
  obtain ⟨bytes, known, moved⟩ :=
    (readUpdateData_moves _ _).sized heap (data, middle) available reading
  have advance : data.2 = (bytes : Int) := moved
  simp only [DefineUpdate.label, CategoryUpdate.label, UpdateLabel.mk.injEq] at same
  obtain ⟨sameType, sameLength, labels⟩ := same
  rw [sameType] at typeRead known
  rw [sameLength] at lengthRead
  have rest := behindData_at update memory bytes typeRead known
  rw [advance, Int.toNat_natCast, ← rest] at wordRead listed
  have loop := shortLoop_inside update.descriptors _ word wordRead middle (list, after) listed labels
  refine ⟨⟨typeRead, lengthRead, by rw [known, Option.isSome_some], loop.1⟩, ?_⟩
  rw [← loop.2, advance, Int.toNat_natCast, rest, List.drop_drop]

end Update

theorem updateLoop_aligned (additional : List (AcceptedDescriptor ops))
    (updates : List (CategoryUpdate ops)) (memory : Block)
    (aligned : UpdatesAligned additional updates memory) :
    ∃ nodes rest, nodes.map DefineUpdate.label = updates.map CategoryUpdate.label ∧
      ShortLoopAt additional rest ∧
      Yields (countedLoop (readUpdate ops) updates.length memory) (nodes, rest) := by
  induction updates generalizing memory with
  | nil => exact ⟨[], memory, rfl, aligned, yields_pure _⟩
  | cons update updates ih =>
    obtain ⟨node, label, advance, rest, read⟩ := readUpdate_at update memory aligned.1
    obtain ⟨nodes, last, labels, list, later⟩ := ih _ aligned.2
    refine ⟨node :: nodes, last, by simp [label, labels], list, ?_⟩
    rw [← rest] at later
    apply yields_bind read
    apply yields_bind later
    exact yields_pure _

theorem updateLoop_aligns (additional : List (AcceptedDescriptor ops))
    (updates : List (CategoryUpdate ops)) (memory : Block) (heap : Heap)
    (available : heap.Available) (result : (List (DefineUpdate D) × Block) × Heap)
    (found : countedLoop (readUpdate ops) updates.length memory heap = some result)
    (same : result.1.1.map DefineUpdate.label = updates.map CategoryUpdate.label)
    (list : ShortLoopAt additional result.1.2) : UpdatesAligned additional updates memory := by
  induction updates generalizing memory heap result with
  | nil =>
    cases found
    exact list
  | cons update updates ih =>
    obtain ⟨⟨read, middle⟩, reading, found⟩ := Option.bind_eq_some_iff.mp found
    obtain ⟨⟨rest, after⟩, looping, ending⟩ := Option.bind_eq_some_iff.mp found
    cases ending
    rw [List.map_cons, List.map_cons, List.cons.injEq] at same
    have here := readUpdate_inside update memory heap available (read, middle) reading same.1
    have middleAvailable := (readUpdate_plain ops memory).available heap available _ reading
    have moved : memory.drop read.2 =
        (behindData memory).drop (2 + shortLengthAt (behindData memory)) := here.2
    rw [moved] at looping
    exact ⟨here.1, ih _ middle middleAvailable (rest, after) looping same.2 list⟩

section Encoded

-- the data ends where its fields say, unless there are bytes that no field accounts for
theorem updateDataSize_encoded (content : UpdateContent) (skippable : content.Skippable)
    (behind : Block) :
    updateDataSize content.updateType (ofBytes content.encode ++ behind) =
      some content.encode.length := by
  cases content with
  | genre code name =>
    have text := multiStringSize_encoded name behind
    have size : (UpdateContent.genre code name).encode.length = 1 + name.encode.length := by
      simp [UpdateContent.encode, Nat.add_comm]
    rw [size]
    change (multiStringSize (ofBytes name.encode ++ behind)).bind _ = _
    rw [text]
    rfl
  | state code text =>
    have known := multiStringSize_encoded text behind
    have size : (UpdateContent.state code text).encode.length = 1 + text.encode.length := by
      simp [UpdateContent.encode, Nat.add_comm]
    rw [size]
    change (multiStringSize (ofBytes text.encode ++ behind)).bind _ = _
    rw [known]
    rfl
  | county stateCode code fits text =>
    have known := multiStringSize_encoded text behind
    have size : (UpdateContent.county stateCode code fits text).encode.length =
        3 + text.encode.length := by
      simp only [UpdateContent.encode, List.length_append, List.length_singleton, encode16_length]
    rw [size]
    change (multiStringSize (ofBytes text.encode ++ behind)).bind _ = _
    rw [known]
    rfl
  | other updateType unknown data =>
    have empty : data = [] := skippable
    simp only [List.mem_cons, List.not_mem_nil, or_false, not_or] at unknown
    simp [updateDataSize, UpdateContent.updateType, UpdateContent.encode, unknown, empty]

theorem update_encoded (update : CategoryUpdate ops) (skippable : update.content.Skippable)
    (behind : Block) (short : (encodeDescriptors update.descriptors).length < 2 ^ 10) :
    update.At (ofBytes update.encode ++ behind) ∧
      behindData (ofBytes update.encode ++ behind) =
        ofBytes (encodeShortLoop update.descriptors) ++ behind := by
  let memory := ofBytes update.encode ++ behind
  have fields : memory.drop 2 = ofBytes update.content.encode ++
      (ofBytes (encodeShortLoop update.descriptors) ++ behind) := by
    simp [memory, CategoryUpdate.encode]
  have known : updateDataSize update.content.updateType (memory.drop 2) =
      some update.content.encode.length := by
    rw [fields]
    exact updateDataSize_encoded update.content skippable _
  have rest : behindData memory = ofBytes (encodeShortLoop update.descriptors) ++ behind := by
    rw [behindData_at update memory _ rfl known, ← List.drop_drop, fields]
    exact List.drop_left' (ofBytes_length _)
  refine ⟨⟨rfl, rfl, by rw [known, Option.isSome_some], ?_⟩, rest⟩
  rw [rest]
  exact shortLoop_encoded update.descriptors behind short

/-- Updates are aligned when none of unknown type has data. -/
theorem updatesAligned_skippable (additional : List (AcceptedDescriptor ops)) (rest : Block)
    (last : ShortLoopAt additional rest) (updates : List (CategoryUpdate ops))
    (skippable : ∀ update ∈ updates, update.content.Skippable)
    (short : (updates.flatMap CategoryUpdate.encode).length < 2 ^ 10) :
    UpdatesAligned additional updates
      (ofBytes (updates.flatMap CategoryUpdate.encode) ++ rest) := by
  induction updates with
  | nil => exact last
  | cons update updates ih =>
    have size := update.encode_length
    rw [List.flatMap_cons, List.length_append] at short
    let behind := ofBytes (updates.flatMap CategoryUpdate.encode) ++ rest
    have split : ofBytes ((update :: updates).flatMap CategoryUpdate.encode) ++ rest =
        ofBytes update.encode ++ behind := by
      simp [behind]
    have here := update_encoded update (skippable update List.mem_cons_self) behind (by omega)
    have later := ih (fun other inside => skippable other (List.mem_cons_of_mem update inside))
      (by omega)
    rw [split]
    refine ⟨here.1, ?_⟩
    rw [here.2, shortLengthAt_encoded update.descriptors behind (by omega), ← List.drop_drop]
    change UpdatesAligned additional updates
      ((ofBytes (encodeDescriptors update.descriptors) ++ behind).drop _)
    rw [List.drop_left' (ofBytes_length _)]
    exact later

end Encoded

section Dccsct

variable (table : CodeUpdates ops) (envelope : Envelope) (fits : table.body.length + 9 ≤ 0x3FD)
include fits

theorem parseDccsct_aligned
    (aligned : UpdatesAligned table.additional table.updates (table.memory envelope)) :
    Parses (decodeDccsct ops) {} envelope table.body fun read ret =>
      ret = 0 ∧ table.Decoded read.content := by
  have size := table.body_length
  have few := table.updates_few
  have count := byte_of_length table.updates.length (by omega)
  apply parseTable_encoded _ _ _ _ fits
  intro header carries
  obtain ⟨nodes, rest, labels, last, looped⟩ := updateLoop_aligned _ _ _ aligned
  obtain ⟨word, list, wordRead, length, additional, listed⟩ := parseDescriptors_at _ rest last
  refine ⟨⟨⟨table.protocolVersion, UInt8.ofNat table.updates.length, some nodes,
    shortLengthAt rest, list⟩, 0, []⟩, ⟨rfl, rfl, congrArg some labels, additional⟩, ?_⟩
  apply yields_read (show _ = some table.protocolVersion from rfl)
  apply yields_read (show _ = some (UInt8.ofNat table.updates.length) from rfl)
  apply yields_allocated
  rw [count, table.behind_counts]
  apply yields_bind looped
  apply yields_read wordRead
  dsimp only
  rw [length]
  exact yields_bind listed (yields_pure _)

theorem aligned_of_parseDccsct (parses : Parses (decodeDccsct ops) {} envelope table.body
    fun read ret => ret = 0 ∧ table.Decoded read.content) :
    UpdatesAligned table.additional table.updates (table.memory envelope) := by
  have size := table.body_length
  have few := table.updates_few
  have count := byte_of_length table.updates.length (by omega)
  obtain ⟨header, carries, given, result, available, decoding, -, agrees⟩ := parses.decodes fits
  obtain ⟨protocolVersion, -, decoding⟩ := lift_bind decoding
  obtain ⟨defined, definedRead, decoding⟩ := lift_bind decoding
  have number : defined = UInt8.ofNat table.updates.length := (Option.some.inj definedRead).symm
  have later := allocated_bind available decoding
  obtain ⟨⟨looped, middle⟩, looping, decoding⟩ := Option.bind_eq_some_iff.mp later.1
  obtain ⟨word, wordRead, decoding⟩ := lift_bind decoding
  obtain ⟨⟨list, after⟩, listed, ending⟩ := Option.bind_eq_some_iff.mp decoding
  cases ending
  rw [number, count, table.behind_counts] at looping
  have labels := agrees.updates
  rw [Option.map_some, Option.some.injEq] at labels
  have last := shortLoop_inside table.additional _ word wordRead middle (list, after) listed
    agrees.additional
  exact updateLoop_aligns _ _ _ _ later.2 (looped, middle) looping labels last.1

theorem parseDccsct_encoded_iff :
    (Parses (decodeDccsct ops) {} envelope table.body fun read ret =>
      ret = 0 ∧ table.Decoded read.content) ↔
    UpdatesAligned table.additional table.updates (table.memory envelope) :=
  ⟨aligned_of_parseDccsct table envelope fits, parseDccsct_aligned table envelope fits⟩

end Dccsct

def genreUpdate : CategoryUpdate copyOps :=
  ⟨.genre 0x53 (plainText [0x4A, 0x61, 0x7A, 0x7A] (by decide)), [.plain 0xA5 [0x3C] (by decide)],
    by decide⟩

def laterUpdate (data : List UInt8) (short : data.length ≤ 255) : CategoryUpdate copyOps :=
  ⟨.other 0x04 (by decide) data, [], short⟩

theorem parseDccsct_encoded_empty :
    Parses (decodeDccsct copyOps) {} (psipEnvelope 0xD4)
      (CodeUpdates.body ⟨0, [laterUpdate [] (by decide), genreUpdate], []⟩) fun read ret =>
        ret = 0 ∧ CodeUpdates.Decoded ⟨0, [laterUpdate [] (by decide), genreUpdate], []⟩
          read.content :=
  (parseDccsct_encoded_iff ⟨0, [laterUpdate [] (by decide), genreUpdate], []⟩ (psipEnvelope 0xD4)
    (by decide)).mpr (updatesAligned_skippable [] _ (shortLoop_encoded [] _ (by decide))
      [laterUpdate [] (by decide), genreUpdate] (by simp [laterUpdate, genreUpdate,
        UpdateContent.Skippable]) (by decide))

-- the data of an update of unknown type is read as the length of its descriptors
theorem parseDccsct_unknown :
    ¬Parses (decodeDccsct copyOps) {} (psipEnvelope 0xD4)
      (CodeUpdates.body ⟨0, [laterUpdate [0x12, 0x34] (by decide), genreUpdate], []⟩)
      fun read ret => ret = 0 ∧
        CodeUpdates.Decoded ⟨0, [laterUpdate [0x12, 0x34] (by decide), genreUpdate], []⟩
          read.content := by
  intro parses
  have aligned := aligned_of_parseDccsct
    ⟨0, [laterUpdate [0x12, 0x34] (by decide), genreUpdate], []⟩ (psipEnvelope 0xD4) (by decide)
    parses
  have covered := aligned.1.descriptors.descriptors.covers
  revert covered
  decide

end TsAnalyze.Psip
