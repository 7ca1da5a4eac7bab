import TsAnalyze.Input.Carry

set_option autoImplicit false

namespace TsAnalyze.Input

open Memory Chunks

def blockSize : Nat := 2048 * 1024

-- a mapping of block_size bytes; what stands behind the end of the file is not known
def mmap (file : List UInt8) (offset : Nat) : Option Block :=
  if offset % blockSize = 0 then
    some (ofBytes ((file.drop offset).take blockSize) ++
      List.replicate (blockSize - (file.length - offset)) none)
  else none

def fileioRead (file : List UInt8) (offset : Nat) : Nat × Option (Block × Nat) :=
  match mmap file offset with
  | none => (offset, none)
  | some ptr =>
      let size := if file.length - offset < blockSize then file.length - offset else blockSize
      (offset + size, some (ptr, size))

-- `(int)(total_size - offset)`
def fileioEnd (file : List UInt8) (offset : Nat) : Int :=
  Int.bmod ((file.length - offset : Nat) : Int) 4294967296

/-- The operations on a file that can be opened and unmapped; the state is the read offset. -/
def fileOps (file : List UInt8) : IoOps Nat where
  open_ := some 0
  read offset := some (fileioRead file offset)
  end_ := fileioEnd file

@[simp] theorem fileOps_read (file : List UInt8) (offset : Nat) :
    (fileOps file).read offset = some (fileioRead file offset) := by
  rw [fileOps]

@[simp] theorem fileOps_end (file : List UInt8) (offset : Nat) :
    (fileOps file).end_ offset = fileioEnd file offset := by
  rw [fileOps]

-- every round but the last reads a block, so these are enough
def fileProcess (file : List UInt8) : Option (Ending × Locals (List Block)) :=
  tsProcess (fileOps file) record (file.length / blockSize + 2) []

structure AllProcessed (file : List UInt8) (size start : Nat) : Prop where
  ran : ∃ final, fileProcess file = some (.returned 0, final) ∧
    final.state = packetsOf size (file.drop start)

-- the file as the first read sees it
def FileRecognised (file : List UInt8) (size start : Nat) : Prop :=
  Recognised (file.take blockSize) (List.replicate (blockSize - file.length) none) size start

-- The packets that end behind the last block boundary before the end of the file.
def LastBlockIdle (file : List UInt8) (size start : Nat) : Prop :=
  (file.length - start) / size = ((file.length - 1) / blockSize * blockSize - start) / size

theorem fileioEnd_zero (file : List UInt8) (offset : Nat) :
    fileioEnd file offset = 0 ↔ (file.length - offset) % 4294967296 = 0 := by
  unfold fileioEnd
  rw [Int.bmod_def]
  omega

theorem fileioRead_aligned (file : List UInt8) (blocks : Nat)
    (inside : blocks * blockSize ≤ file.length) :
    ∃ behind, fileioRead file (blocks * blockSize) =
      (min ((blocks + 1) * blockSize) file.length,
        some (ofBytes ((file.drop (blocks * blockSize)).take blockSize) ++ behind,
          ((file.drop (blocks * blockSize)).take blockSize).length)) ∧
      blockSize ≤ ((file.drop (blocks * blockSize)).take blockSize).length + behind.length := by
  refine ⟨List.replicate (blockSize - (file.length - blocks * blockSize)) none, ?_, ?_⟩
  · rw [fileioRead, mmap, if_pos (Nat.mul_mod_left _ _)]
    simp only [List.length_take, List.length_drop, Nat.add_mul, Nat.one_mul]
    split
    · rw [Nat.min_eq_right (by omega), Nat.min_eq_right (by omega)]
      congr 1
      omega
    · rw [Nat.min_eq_left (by omega), Nat.min_eq_left (by omega)]
  · simp only [List.length_take, List.length_drop, List.length_replicate]
    omega

theorem fileioRead_unaligned (file : List UInt8) (offset : Nat)
    (unaligned : offset % blockSize ≠ 0) : fileioRead file offset = (offset, none) := by
  rw [fileioRead, mmap, if_neg unaligned]

-- the stream after a number of blocks
def streamOf (file : List UInt8) (start blocks : Nat) : List UInt8 :=
  (file.take (blocks * blockSize)).drop start

theorem streamOf_succ (file : List UInt8) (start blocks : Nat) (inFile : start ≤ file.length)
    (inBlocks : start ≤ blocks * blockSize) :
    streamOf file start (blocks + 1) =
      streamOf file start blocks ++ (file.drop (blocks * blockSize)).take blockSize := by
  rw [streamOf, streamOf, Nat.add_mul, Nat.one_mul, List.take_add, List.drop_append_of_le_length]
  rw [List.length_take]
  omega

section Loop

variable (file : List UInt8) (size start : Nat) (positive : 0 < size)
  (small : size ≤ tsFecPacketSize)
include positive small

-- the file fits into one block: the second read finds nothing
theorem afterRead_ended (stream : List UInt8) (l : Locals (List Block))
    (again : Nat → Locals (List Block) → Option (Ending × Locals (List Block)))
    (settled : Settled size stream l) (nonempty : 0 < file.length)
    (only : file.length ≤ blockSize) :
    ∃ final, afterRead size (fileOps file) l again ((fileOps file).read file.length) =
        some (.returned 0, final) ∧ final.state = l.state := by
  rw [fileOps_read]
  by_cases full : file.length = blockSize
  · rcases fileioRead_aligned file 1 (by omega) with ⟨behind, read, long⟩
    rw [Nat.one_mul, ← full] at read
    have readable : size ≤ (ofBytes ((file.drop file.length).take file.length) ++ behind).length := by
      rw [Nat.one_mul, ← full] at long
      rw [List.length_append, ofBytes_length]
      unfold tsFecPacketSize at small
      unfold blockSize at full
      omega
    rcases receiveBlock_readable size positive small stream l _ _ settled readable with
      ⟨next, received, state⟩
    refine ⟨next, ?_, state⟩
    have ended : fileioEnd file (min ((1 + 1) * file.length) file.length) = 0 := by
      rw [fileioEnd_zero, Nat.min_eq_right (by omega), Nat.sub_self]
    rw [read, afterRead, received, Option.bind_some, fileOps_end, if_pos ended]
  · have unaligned : file.length % blockSize ≠ 0 := by
      rw [Nat.mod_eq_of_lt (by omega)]
      omega
    rw [fileioRead_unaligned file _ unaligned]
    exact ⟨l, rfl, rfl⟩

variable (blocks : Nat) (inside : blocks * blockSize < file.length) (l : Locals (List Block))
  (again : Nat → Locals (List Block) → Option (Ending × Locals (List Block)))
include inside

-- a block after which end() is zero is read but not processed
theorem afterRead_last (stream : List UInt8) (settled : Settled size stream l)
    (ended : fileioEnd file (min ((blocks + 1) * blockSize) file.length) = 0) :
    ∃ final, afterRead size (fileOps file) l again ((fileOps file).read (blocks * blockSize)) =
        some (.returned 0, final) ∧ final.state = l.state := by
  rcases fileioRead_aligned file blocks (le_of_lt inside) with ⟨behind, read, long⟩
  have readable : size ≤
      (ofBytes ((file.drop (blocks * blockSize)).take blockSize) ++ behind).length := by
    rw [List.length_append, ofBytes_length]
    unfold tsFecPacketSize at small
    unfold blockSize at long ⊢
    omega
  rcases receiveBlock_readable size positive small stream l _
    ((file.drop (blocks * blockSize)).take blockSize).length settled readable with
    ⟨next, received, state⟩
  refine ⟨next, ?_, state⟩
  rw [fileOps_read, read, afterRead, received, Option.bind_some, fileOps_end, if_pos ended]

theorem afterRead_more (start : Nat) (inFile : start ≤ file.length)
    (inBlocks : start ≤ blocks * blockSize)
    (settled : Settled size (streamOf file start blocks) l)
    (more : fileioEnd file (min ((blocks + 1) * blockSize) file.length) ≠ 0) :
    (blocks + 1) * blockSize < file.length ∧ ∃ next,
      afterRead size (fileOps file) l again ((fileOps file).read (blocks * blockSize)) =
        again ((blocks + 1) * blockSize) next ∧
      Holding size (streamOf file start (blocks + 1)) next := by
  have left : (blocks + 1) * blockSize < file.length := by
    by_contra beyond
    apply more
    rw [fileioEnd_zero, Nat.min_eq_right (by omega), Nat.sub_self]
  have full : ((file.drop (blocks * blockSize)).take blockSize).length = blockSize := by
    rw [List.length_take, List.length_drop]
    rw [Nat.add_mul, Nat.one_mul] at left
    omega
  rcases fileioRead_aligned file blocks (le_of_lt inside) with ⟨behind, read, -⟩
  have room : size ≤ blockSize := by
    unfold tsFecPacketSize at small
    unfold blockSize
    omega
  rcases receiveBlock_holding size positive small _ _ behind l settled
    (by rw [full]; decide) (Or.inr (by rw [full]; omega)) with ⟨next, received, holding⟩
  refine ⟨left, next, ?_, ?_⟩
  · rw [fileOps_read, read, afterRead, received, Option.bind_some, fileOps_end, if_neg more,
      Nat.min_eq_left (le_of_lt left)]
  · rwa [streamOf_succ file start blocks inFile inBlocks]

end Loop

/-- Where the loop ends: behind the only block, or before a block that it has read in vain. -/
structure Stopped (file : List UInt8) (done : Nat) : Prop where
  stopped : done = 1 ∧ file.length ≤ blockSize ∨ 1 ≤ done ∧ done * blockSize < file.length ∧
    ((done + 1) * blockSize < file.length → file.length % blockSize = 0)

theorem file_loop (file : List UInt8) (size start : Nat) (positive : 0 < size)
    (small : size ≤ tsFecPacketSize) (inFile : start ≤ file.length) (inBlock : start ≤ blockSize)
    (rounds blocks : Nat) (l : Locals (List Block)) (nonempty : 0 < file.length)
    (holding : Holding size (streamOf file start blocks) l) (one : 1 ≤ blocks)
    (reached : blocks = 1 ∨ blocks * blockSize < file.length)
    (enough : file.length / blockSize + 2 ≤ rounds + blocks) :
    ∃ done final, processLoop record size (fileOps file) rounds
        (min (blocks * blockSize) file.length) l = some (.returned 0, final) ∧
      final.state = packetsOf size (streamOf file start done) ∧ Stopped file done := by
  have whole : 0 < blockSize := by decide
  induction rounds generalizing blocks l with
  | zero =>
    have few : blocks ≤ file.length / blockSize + 1 := by
      rcases reached with rfl | inside
      · exact Nat.le_add_left 1 _
      · have := (Nat.le_div_iff_mul_le whole).mpr (le_of_lt inside)
        omega
    omega
  | succ rounds ih =>
    rcases processBlock_settled size positive small _ l holding with ⟨next, result, settled⟩
    rw [processLoop, result, Option.bind_some]
    by_cases inside : blocks * blockSize < file.length
    · have inBlocks : start ≤ blocks * blockSize := by
        have := Nat.mul_le_mul_right blockSize one
        omega
      rw [Nat.min_eq_left (le_of_lt inside)]
      by_cases ended : fileioEnd file (min ((blocks + 1) * blockSize) file.length) = 0
      · rcases afterRead_last file size positive small blocks inside next
          (processLoop record size (fileOps file) rounds) _ settled ended with ⟨final, stop, state⟩
        refine ⟨blocks, final, stop, state.trans settled.log, ⟨Or.inr ⟨one, inside, ?_⟩⟩⟩
        intro beyond
        rw [fileioEnd_zero, Nat.min_eq_left (le_of_lt beyond)] at ended
        unfold blockSize at *
        omega
      · rcases afterRead_more file size positive small blocks inside next
          (processLoop record size (fileOps file) rounds) start inFile inBlocks settled ended with
          ⟨beyond, received, again, holds⟩
        rw [again]
        have continued := ih (blocks + 1) received holds (by omega) (Or.inr beyond) (by omega)
        rwa [Nat.min_eq_left (le_of_lt beyond)] at continued
    · have only : blocks = 1 := reached.resolve_right inside
      subst only
      rw [Nat.one_mul] at inside
      rw [Nat.one_mul, Nat.min_eq_right (by omega)]
      rcases afterRead_ended file size positive small _ next
        (processLoop record size (fileOps file) rounds) settled nonempty (by omega) with
        ⟨final, stop, state⟩
      exact ⟨1, final, stop, state.trans settled.log, ⟨Or.inl ⟨rfl, by omega⟩⟩⟩

theorem fileProcess_outcome (file : List UInt8) (size start : Nat)
    (recognised : FileRecognised file size start) :
    ∃ done final, fileProcess file = some (.returned 0, final) ∧
      final.state = packetsOf size (streamOf file start done) ∧ Stopped file done := by
  have bounds := recognised_bounds _ _ size start recognised
  have length : (file.take blockSize).length = min blockSize file.length := List.length_take
  have first : fileioRead file 0 = (min (1 * blockSize) file.length,
      some (ofBytes (file.take blockSize) ++ List.replicate (blockSize - file.length) none,
        (file.take blockSize).length)) := by
    rw [fileioRead, mmap, if_pos (Nat.zero_mod _)]
    simp only [length, Nat.sub_zero, List.drop_zero, Nat.zero_add, Nat.one_mul]
    split
    · rw [Nat.min_eq_right (by omega)]
    · rw [Nat.min_eq_left (by omega)]
  rcases tsProcess_recognised (fileOps file) 0 _ _ _ size start rfl
    ((fileOps_read file 0).trans (congrArg some first)) (by have : blockSize = 2097152 := rfl; omega)
    recognised with ⟨l, holding, started⟩
  have looped := file_loop file size start (by omega) (by unfold tsFecPacketSize; omega) (by omega)
    (by omega) (file.length / blockSize + 2) 1 l (by omega) (by rwa [streamOf, Nat.one_mul])
    (le_refl 1) (Or.inl rfl) (Nat.le_succ _)
  rwa [fileProcess, started]

-- a prefix of the stream has all the packets when the rest completes none
theorem packetsOf_eq_iff (size : Nat) (positive : 0 < size) (early late : List UInt8) :
    packetsOf size early = packetsOf size (early ++ late) ↔
      early.length / size = (early ++ late).length / size := by
  rw [packetsOf, packetsOf, (List.map_injective_iff.mpr ofBytes_injective).eq_iff,
    chunks_eq_iff size positive]

theorem streamOf_packets (file : List UInt8) (size start done : Nat) (positive : 0 < size)
    (inFile : start ≤ file.length) (inBlocks : start ≤ done * blockSize) :
    packetsOf size (streamOf file start done) = packetsOf size (file.drop start) ↔
      (min (done * blockSize) file.length - start) / size = (file.length - start) / size := by
  have whole : file.drop start = streamOf file start done ++ file.drop (done * blockSize) := by
    rw [streamOf, ← List.drop_append_of_le_length (by rw [List.length_take]; omega),
      List.take_append_drop]
  rw [whole, packetsOf_eq_iff size positive, ← whole, List.length_drop, streamOf, List.length_drop,
    List.length_take]

theorem lastBlock_of_stopped (file : List UInt8) (size start done : Nat) (positive : 0 < size)
    (small : size ≤ tsFecPacketSize) (inBlock : start ≤ blockSize) (stopped : Stopped file done) :
    (min (done * blockSize) file.length - start) / size = (file.length - start) / size ↔
      file.length ≤ blockSize ∨ LastBlockIdle file size start := by
  have whole : 0 < blockSize := by decide
  have room : size ≤ blockSize := by
    unfold tsFecPacketSize at small
    unfold blockSize
    omega
  rcases stopped.stopped with ⟨rfl, only⟩ | ⟨one, before, early⟩
  · rw [Nat.one_mul, Nat.min_eq_right only]
    exact iff_of_true rfl (Or.inl only)
  · have firstBlock := Nat.mul_le_mul_right blockSize one
    rw [Nat.min_eq_left (le_of_lt before), LastBlockIdle, or_iff_right (by omega)]
    have last : done ≤ (file.length - 1) / blockSize :=
      (Nat.le_div_iff_mul_le whole).mpr (by omega)
    have below := Nat.div_mul_le_self (file.length - 1) blockSize
    generalize quotient : (file.length - 1) / blockSize = final at last below
    rcases Nat.lt_or_eq_of_le last with earlier | rfl
    · -- end() has cut the file short, so the last block is a whole one
      have next := Nat.mul_le_mul_right blockSize (Nat.succ_le_of_lt earlier)
      have multiple := early (by rw [Nat.succ_eq_add_one] at next; omega)
      have inner := Nat.mul_le_mul_right blockSize last
      have total : file.length = final * blockSize + blockSize := by
        unfold blockSize at *
        omega
      have grown : (final * blockSize - start) / size + 1 ≤ (file.length - start) / size := by
        rw [← Nat.add_div_right _ positive]
        exact Nat.div_le_div_right (by omega)
      have kept : (done * blockSize - start) / size ≤ (final * blockSize - start) / size :=
        Nat.div_le_div_right (by omega)
      exact iff_of_false (by omega) (by omega)
    · exact eq_comm

theorem allProcessed_stopped (file : List UInt8) (size start : Nat)
    (recognised : FileRecognised file size start) :
    ∃ done, Stopped file done ∧ (AllProcessed file size start ↔
      (min (done * blockSize) file.length - start) / size = (file.length - start) / size) := by
  have bounds := recognised_bounds _ _ size start recognised
  have length : (file.take blockSize).length = min blockSize file.length := List.length_take
  rcases fileProcess_outcome file size start recognised with ⟨done, final, ran, log, stopped⟩
  have inBlocks : start ≤ done * blockSize := by
    rcases stopped.stopped with ⟨rfl, -⟩ | ⟨one, -⟩
    · omega
    · have := Nat.mul_le_mul_right blockSize one
      omega
  refine ⟨done, stopped, ?_⟩
  rw [← streamOf_packets file size start done (by omega) (by omega) inBlocks, ← log]
  constructor
  · rintro ⟨other, again, all⟩
    rw [ran] at again
    cases again
    exact all
  · intro all
    exact ⟨final, ran, all⟩

section Witness

theorem alternating_fileRecognised (length : Nat) (enough : 2040 ≤ length) :
    FileRecognised (alternating length) tsFecPacketSize 0 := by
  have cut : ((alternating length).take blockSize).length = min blockSize length := by
    rw [List.length_take, alternating_length]
  have large : blockSize = 2097152 := rfl
  refine recognised_even _ _ (by omega) fun i inside => ?_
  rw [cut] at inside
  have same : ∀ j, j < min blockSize length →
      ((alternating length).take blockSize).getD j 0 = (alternating length).getD j 0 := by
    intro j bound
    rw [List.getD_eq_getElem?_getD, List.getElem?_take_of_lt (by omega),
      ← List.getD_eq_getElem?_getD]
  rw [← alternating_even length i (by omega), headerAt, headerAt, same i (by omega),
    same (i + 1) (by omega), same (i + 3) (by omega)]

end Witness

end TsAnalyze.Input
