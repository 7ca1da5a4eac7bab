import TsAnalyze.Shared.Encoding
import TsAnalyze.Tables.Table
import TsAnalyze.Tables.Walk

set_option autoImplicit false

namespace TsAnalyze.Tables

open Memory

section Descriptors

variable {D : Type}

def encodeDescriptor (tag : UInt8) (payload : List UInt8) : List UInt8 :=
  tag :: UInt8.ofNat payload.length :: payload

/-- A descriptor that the parser of its tag accepts, whatever stands behind it. -/
structure AcceptedDescriptor (ops : DescriptorOps D) where
  tag : UInt8
  payload : List UInt8
  short : payload.length ≤ 255
  accepted : ∀ behind,
    (ops.parse tag (ofBytes (encodeDescriptor tag payload) ++ behind)
      (payload.length + 2)).isSome = true

variable {ops : DescriptorOps D}

namespace AcceptedDescriptor

def label (descriptor : AcceptedDescriptor ops) : UInt8 × UInt8 :=
  (descriptor.tag, UInt8.ofNat descriptor.payload.length)

def encode (descriptor : AcceptedDescriptor ops) : List UInt8 :=
  encodeDescriptor descriptor.tag descriptor.payload

@[simp] theorem encode_length (descriptor : AcceptedDescriptor ops) :
    descriptor.encode.length = descriptor.payload.length + 2 := by
  simp [encode, encodeDescriptor]

theorem length_byte (descriptor : AcceptedDescriptor ops) :
    (UInt8.ofNat descriptor.payload.length).toNat = descriptor.payload.length := by
  have short := descriptor.short
  rw [UInt8.toNat_ofNat', Nat.mod_eq_of_lt (by omega)]

end AcceptedDescriptor

def encodeDescriptors (list : List (AcceptedDescriptor ops)) : List UInt8 :=
  list.flatMap AcceptedDescriptor.encode

-- descriptors whose bytes are kept
def copyOps : DescriptorOps Block where
  parse _ ptr len := some (ptr.take len)
  free _ _ := some ()

def AcceptedDescriptor.plain (tag : UInt8) (payload : List UInt8) (short : payload.length ≤ 255) :
    AcceptedDescriptor copyOps :=
  ⟨tag, payload, short, fun _ => rfl⟩

theorem encodeDescriptors_cons (first : AcceptedDescriptor ops)
    (list : List (AcceptedDescriptor ops)) :
    encodeDescriptors (first :: list) = first.encode ++ encodeDescriptors list := by
  rw [encodeDescriptors, List.flatMap_cons, encodeDescriptors]

theorem encodeDescriptors_cons_length (first : AcceptedDescriptor ops)
    (list : List (AcceptedDescriptor ops)) :
    (encodeDescriptors (first :: list)).length =
      first.payload.length + 2 + (encodeDescriptors list).length := by
  rw [encodeDescriptors_cons, List.length_append, AcceptedDescriptor.encode_length]

theorem encodeDescriptors_walked (list : List (AcceptedDescriptor ops)) (behind : Block) :
    Walked ops (ofBytes (encodeDescriptors list) ++ behind) (encodeDescriptors list).length
      (list.map AcceptedDescriptor.label) := by
  induction list with
  | nil => exact Walked.stop _ _ (le_refl 0)
  | cons first list ih =>
    let memory := ofBytes (encodeDescriptors list) ++ behind
    have size := first.length_byte
    have split : ofBytes (encodeDescriptors (first :: list)) ++ behind =
        ofBytes first.encode ++ memory := by
      simp [encodeDescriptors_cons, memory]
    have total := encodeDescriptors_cons_length first list
    rw [split, List.map_cons]
    refine Walked.next _ _ first.tag (UInt8.ofNat first.payload.length) _ (by omega) rfl rfl ?_ ?_
    · rw [size]
      exact first.accepted memory
    · rw [size, List.drop_left' (by simp), total]
      convert ih using 1
      omega

theorem encodeDescriptors_length (list : List (AcceptedDescriptor ops)) :
    (encodeDescriptors list).length = labelsLength (list.map AcceptedDescriptor.label) := by
  induction list with
  | nil => rfl
  | cons first list ih =>
    have size := first.length_byte
    rw [encodeDescriptors_cons_length, ih, List.map_cons, labelsLength_cons,
      AcceptedDescriptor.label, size]

theorem parseDescriptors_encoded (list : List (AcceptedDescriptor ops)) (behind : Block) :
    ∃ parsed, parsed.map Descriptor.label = list.map AcceptedDescriptor.label ∧
      Yields (parseDescriptors ops [] (ofBytes (encodeDescriptors list) ++ behind)
        (encodeDescriptors list).length) parsed :=
  parseDescriptors_walked ops (encodeDescriptors_walked list behind)

-- four bits and a twelve-bit length, and the descriptors of that length
def encodeLoop (marks : Nat) (list : List (AcceptedDescriptor ops)) : List UInt8 :=
  encode16 (marks * 2 ^ 12 + (encodeDescriptors list).length) ++ encodeDescriptors list

end Descriptors

section Loop

variable {E : Type} (wrap : Int → Int) (readNode : Block → Allocating (E × Nat × Nat))

-- one turn of a loop that has come to its end
theorem nodeLoop_turn (turns : Nat) (pdata : Block) (sectionLen : Int) (more : 0 < sectionLen)
    (nodes : List E) (heap : Heap) (available : heap.Available) (result : (List E × Int) × Heap)
    (found : nodeLoop wrap readNode turns pdata sectionLen nodes heap = some result) :
    ∃ read middle rest, readNode pdata heap.reserve.2 = some (read, middle) ∧
      nodeLoop wrap readNode rest (pdata.drop read.2.2) (wrap (sectionLen - read.2.1))
        (nodes ++ [read.1]) middle = some result := by
  cases turns with
  | zero =>
    rw [nodeLoop, if_pos more] at found
    cases found
  | succ rest =>
    rw [nodeLoop, if_pos more] at found
    have later := reserve_bind found
    have given : heap.reserve.1 = true := available heap.next
    rw [given, if_pos rfl] at later
    rcases Option.bind_eq_some_iff.mp later with ⟨⟨read, middle⟩, reading, after⟩
    exact ⟨read, middle, rest, reading, after⟩

theorem nodeLoop_extends (turns : Nat) (pdata : Block) (sectionLen : Int) (nodes : List E)
    (heap : Heap) (result : (List E × Int) × Heap)
    (found : nodeLoop wrap readNode turns pdata sectionLen nodes heap = some result) :
    ∃ added, result.1.1 = nodes ++ added := by
  induction turns generalizing pdata sectionLen nodes heap with
  | zero =>
    rw [nodeLoop] at found
    split at found
    · cases found
    · exact ⟨[], by rw [← Option.some.inj found, List.append_nil]⟩
  | succ turns ih =>
    rw [nodeLoop] at found
    split at found
    · have later := reserve_bind found
      split at later
      · rcases Option.bind_eq_some_iff.mp later with ⟨⟨read, middle⟩, -, after⟩
        rcases ih _ _ _ _ after with ⟨added, same⟩
        exact ⟨read.1 :: added, by rw [same, List.append_assoc, List.singleton_append]⟩
      · exact ⟨[], by rw [← Option.some.inj later, List.append_nil]⟩
    · exact ⟨[], by rw [← Option.some.inj found, List.append_nil]⟩

end Loop

section Nodes

-- a node is no longer than all of them
theorem node_fits {S : Type} (encode : S → List UInt8) (nodes : List S) (node : S)
    (inside : node ∈ nodes) : (encode node).length ≤ (nodes.flatMap encode).length :=
  (List.sublist_flatten_of_mem (List.mem_map_of_mem inside)).length_le

theorem nodes_size {S : Type} (encode : S → List UInt8) (nodes : List S) (size : Nat)
    (each : ∀ node ∈ nodes, size ≤ (encode node).length) :
    size * nodes.length ≤ (nodes.flatMap encode).length := by
  induction nodes with
  | nil => exact Nat.le_refl 0
  | cons first nodes ih =>
    have here := each first List.mem_cons_self
    have rest := ih fun node inside => each node (List.mem_cons_of_mem first inside)
    rw [List.flatMap_cons, List.length_append, List.length_cons, Nat.mul_succ]
    omega

theorem nodes_count {S : Type} (encode : S → List UInt8) (nodes : List S)
    (nonempty : ∀ node ∈ nodes, 0 < (encode node).length) :
    nodes.length ≤ (nodes.flatMap encode).length := by
  simpa using nodes_size encode nodes 1 nonempty

variable {S E L : Type} (wrap : Int → Int) (readNode : Block → Allocating (E × Nat × Nat))
  (encode : S → List UInt8) (expected : S → L) (summary : E → L)

/-- The loop reads a node from its encoding and moves on to what stands behind it. -/
def ReadsNode (node : S) : Prop :=
  0 < (encode node).length ∧ ∀ behind, ∃ read, summary read = expected node ∧
    Yields (readNode (ofBytes (encode node) ++ behind))
      (read, (encode node).length, (encode node).length)

variable (limit : Nat) (exact : ∀ value : Nat, value ≤ limit → wrap value = value)
  (behind : Block)
include exact

-- after whole nodes the loop goes on with the rest
theorem nodeLoop_prefix (nodes : List S)
    (reads : ∀ node ∈ nodes, ReadsNode readNode encode expected summary node) (turns rest : Nat)
    (fits : (nodes.flatMap encode).length + rest ≤ limit) (before : List E) :
    ∃ read, read.map summary = nodes.map expected ∧
      ∀ result, Yields (nodeLoop wrap readNode turns behind rest (before ++ read)) result →
        Yields (nodeLoop wrap readNode (nodes.length + turns)
          (ofBytes (nodes.flatMap encode) ++ behind)
          ((nodes.flatMap encode).length + rest : Nat) before) result := by
  induction nodes generalizing before with
  | nil => exact ⟨[], rfl, fun result later => by simpa using later⟩
  | cons first nodes ih =>
    rw [List.flatMap_cons, List.length_append] at fits
    have here := reads first List.mem_cons_self
    cases here.2 (ofBytes (nodes.flatMap encode) ++ behind) with
    | intro read yields =>
      cases ih (fun node inside => reads node (List.mem_cons_of_mem first inside)) (by omega)
        (before ++ [read]) with
      | intro others later =>
        refine ⟨read :: others, by simp [yields.1, later.1], fun result found => ?_⟩
        have remaining : wrap (((first :: nodes).flatMap encode).length + rest -
            (encode first).length : Int) = ((nodes.flatMap encode).length + rest : Nat) := by
          rw [← exact _ (by omega : (nodes.flatMap encode).length + rest ≤ limit),
            List.flatMap_cons, List.length_append]
          congr 1
          omega
        have split : ofBytes ((first :: nodes).flatMap encode) ++ behind =
            ofBytes (encode first) ++ (ofBytes (nodes.flatMap encode) ++ behind) := by
          simp
        have turn : (first :: nodes).length + turns = nodes.length + turns + 1 := by
          rw [List.length_cons]
          omega
        rw [split, turn, nodeLoop]
        have more : 0 < (((first :: nodes).flatMap encode).length + rest : Nat) := by
          have positive := here.1
          rw [List.flatMap_cons, List.length_append]
          omega
        apply yields_ite_true (by exact_mod_cast more)
        apply yields_allocated
        apply yields_bind yields.2
        dsimp only
        rw [Nat.cast_add, remaining, List.drop_left' (by simp)]
        apply later.2
        rwa [List.append_assoc]

omit exact in
theorem nodeLoop_done (turns : Nat) (nodes : List E) :
    Yields (nodeLoop wrap readNode turns behind 0 nodes) (nodes, 0) := by
  cases turns with
  | zero => exact yields_ite_false (lt_irrefl 0) (yields_pure _)
  | succ turns => exact yields_ite_false (lt_irrefl 0) (yields_pure _)

theorem nodeLoop_encoded (nodes : List S)
    (reads : ∀ node ∈ nodes, ReadsNode readNode encode expected summary node)
    (fits : (nodes.flatMap encode).length ≤ limit) :
    ∃ read, read.map summary = nodes.map expected ∧
      Yields (nodeLoop wrap readNode ((ofBytes (nodes.flatMap encode) ++ behind).length + 1)
        (ofBytes (nodes.flatMap encode) ++ behind) (nodes.flatMap encode).length [])
        (read, 0) := by
  have count := nodes_count encode nodes fun node inside => (reads node inside).1
  have turns : nodes.length ≤ (ofBytes (nodes.flatMap encode) ++ behind).length + 1 := by
    rw [List.length_append, ofBytes_length]
    omega
  cases nodeLoop_prefix wrap readNode encode expected summary limit exact behind nodes reads
    ((ofBytes (nodes.flatMap encode) ++ behind).length + 1 - nodes.length) 0 fits [] with
  | intro read later =>
    refine ⟨read, later.1, ?_⟩
    have whole := later.2 _ (nodeLoop_done wrap readNode behind _ ([] ++ read))
    rwa [Nat.add_sub_cancel' turns, Nat.add_zero, List.nil_append] at whole

end Nodes

end TsAnalyze.Tables
