import TsAnalyze.Pes.Packet
import TsAnalyze.Tables.Psi

set_option autoImplicit false

namespace TsAnalyze.Pes

open Tables

inductive PesDataCallback where
  | parseSubtitle
  | parseTeletext
deriving DecidableEq

-- what `priv` leads to
inductive PesPrivate where
  | subtitle
  | teletext
deriving DecidableEq

/-- The fields of pes_t that are set without a packet. -/
structure PesEntry where
  pid : Fin 8192
  type : UInt8
  tag : UInt8 := 0
  priv : Option PesPrivate := none
  cb : Option PesDataCallback := none

structure PesRegistry where
  pidNum : Nat := 0
  pidBitmap : Fin 128 → BitVec 64 := fun _ => 0
  pidIndex : Fin 8192 → Nat := fun _ => 0
  list : List PesEntry := []

def pidWord (pid : Fin 8192) : Fin 128 :=
  ⟨pid.val / 64, by omega⟩

def pidBit (bitmap : Fin 128 → BitVec 64) (pid : Fin 8192) : Bool :=
  bitmap (pidWord pid) &&& 1#64 <<< (pid.val % 64) ≠ 0

def setPidBit (bitmap : Fin 128 → BitVec 64) (pid : Fin 8192) : Fin 128 → BitVec 64 :=
  Function.update bitmap (pidWord pid) (bitmap (pidWord pid) ||| 1#64 <<< (pid.val % 64))

-- `realloc` is whether the list has been enlarged; a failure leaves the bit set
def registerPesOps (pes : PesRegistry) (pid : Fin 8192) (streamType : UInt8) (realloc : Bool) :
    PesRegistry :=
  if pidBit pes.pidBitmap pid then pes
  else if realloc then
    { pidBitmap := setPidBit pes.pidBitmap pid
      list := pes.list.take pes.pidNum ++ [{ pid := pid, type := streamType }]
      pidIndex := Function.update pes.pidIndex pid pes.pidNum
      pidNum := (pes.pidNum + 1) % 65536 }
  else { pes with pidBitmap := setPidBit pes.pidBitmap pid }

def pesPrivateAlloc (tag : UInt8) (calloc : Bool) : Option PesPrivate :=
  if tag = 0x59 then if calloc then some .subtitle else none
  else if tag = 0x56 then if calloc then some .teletext else none
  else none

def PesEntry.attach (pt : PesEntry) (cb : PesDataCallback) (tag : UInt8) (calloc : Bool) :
    PesEntry :=
  let pt := { pt with cb := some cb }
  if pt.priv = none then { pt with tag := tag, priv := pesPrivateAlloc tag calloc } else pt

/-- `none` is an access outside the list. -/
def registerPesDataCallback (pes : PesRegistry) (pid : Fin 8192) (streamType : UInt8)
    (cb : PesDataCallback) (tag : UInt8) (calloc : Bool) : Option PesRegistry :=
  if pes.pidIndex pid ≥ pes.pidNum then some pes
  else
    (pes.list[pes.pidIndex pid]?).map fun pt =>
      if pt.type = streamType ∧ pt.cb = none then
        { pes with list := pes.list.set (pes.pidIndex pid) (pt.attach cb tag calloc) }
      else pes

-- the callback that parse_pmt passes with a tag
def callbackOf (tag : UInt8) : PesDataCallback :=
  if tag = 0x59 then .parseSubtitle else .parseTeletext

-- A PID of parse_pmt has 13 bits. The other calls leave the registry alone.
def PesRegistry.perform (pes : PesRegistry) : Registration → Option PesRegistry
  | .pes pid streamType => some (registerPesOps pes (Fin.ofNat 8192 pid) streamType true)
  | .pesData pid streamType tag =>
      registerPesDataCallback pes (Fin.ofNat 8192 pid) streamType (callbackOf tag) tag true
  | _ => some pes

/-- The registry after the calls, with no allocation failing. -/
def register (calls : List Registration) : Option PesRegistry :=
  calls.foldlM PesRegistry.perform {}

-- the stream type that a PID has been registered with first
def firstType (calls : List Registration) (pid : Fin 8192) : Option UInt8 :=
  calls.findSome? fun call =>
    match call with
    | .pes other streamType => if Fin.ofNat 8192 other = pid then some streamType else none
    | _ => none

section Bits

theorem pidBit_eq (bitmap : Fin 128 → BitVec 64) (pid : Fin 8192) :
    pidBit bitmap pid = (bitmap (pidWord pid)).getLsbD (pid.val % 64) :=
  word_bit _ _ (Nat.mod_lt _ (by decide))

theorem pidBit_set (bitmap : Fin 128 → BitVec 64) (pid other : Fin 8192) :
    pidBit (setPidBit bitmap pid) other = (decide (other = pid) || pidBit bitmap other) := by
  have inside : pid.val % 64 < 64 := Nat.mod_lt _ (by decide)
  rw [pidBit_eq, pidBit_eq, setPidBit]
  by_cases sameWord : pidWord other = pidWord pid
  · have quotient : other.val / 64 = pid.val / 64 := congrArg Fin.val sameWord
    have position : other.val % 64 = pid.val % 64 ↔ other = pid := by
      rw [Fin.ext_iff]
      omega
    rw [sameWord, Function.update_self, BitVec.getLsbD_or, Bool.or_comm, getLsbD_single _ _ inside]
    simp only [position]
  · have different : other ≠ pid := fun same => sameWord (congrArg pidWord same)
    rw [Function.update_of_ne sameWord, decide_eq_false different, Bool.false_or]

end Bits

section FirstType

theorem firstType_snoc (calls : List Registration) (call : Registration) (pid : Fin 8192) :
    firstType (calls ++ [call]) pid = (firstType calls pid).or (firstType [call] pid) :=
  List.findSome?_append

theorem firstType_pes (other : Nat) (streamType : UInt8) (pid : Fin 8192) :
    firstType [.pes other streamType] pid =
      if Fin.ofNat 8192 other = pid then some streamType else none := by
  rw [firstType, List.findSome?_singleton]

theorem firstType_member {calls : List Registration} {pid : Nat} {streamType : UInt8}
    (member : .pes pid streamType ∈ calls) : (firstType calls (Fin.ofNat 8192 pid)).isSome := by
  rw [firstType, List.findSome?_isSome_iff]
  exact ⟨_, member, by simp⟩

theorem firstType_known {calls : List Registration} {pid : Nat} {streamType : UInt8}
    (known : (firstType calls (Fin.ofNat 8192 pid)).isSome) :
    firstType (calls ++ [.pes pid streamType]) = firstType calls := by
  funext other
  rw [firstType_snoc, firstType_pes]
  by_cases same : Fin.ofNat 8192 pid = other
  · rw [same] at known
    exact Option.or_of_isSome known
  · rw [if_neg same, Option.or_none]

theorem firstType_other (calls : List Registration) (call : Registration)
    (other : ∀ pid streamType, call ≠ .pes pid streamType) :
    firstType (calls ++ [call]) = firstType calls := by
  funext pid
  rw [firstType_snoc]
  cases call with
  | pes pid streamType => exact absurd rfl (other pid streamType)
  | _ => exact Option.or_none

end FirstType

/-- The list, the bitmap and the index agree about the PIDs that have been registered. -/
structure Consistent (calls : List Registration) (pes : PesRegistry) : Prop where
  length : pes.list.length = pes.pidNum
  bit : ∀ pid, pidBit pes.pidBitmap pid = (firstType calls pid).isSome
  indexed : ∀ pid, pidBit pes.pidBitmap pid = true →
    ∃ entry, pes.list[pes.pidIndex pid]? = some entry ∧ entry.pid = pid
  entry : ∀ i entry, pes.list[i]? = some entry →
    pes.pidIndex entry.pid = i ∧ firstType calls entry.pid = some entry.type

/-- Entries stay, and a callback is set by a call for the PID of its entry, where there was none. -/
structure Attaches (pes after : PesRegistry) (call : Registration) : Prop where
  kept : ∀ (i : Nat) (entry : PesEntry), pes.list[i]? = some entry →
    ∃ later : PesEntry, after.list[i]? = some later ∧ later.pid = entry.pid ∧
      (later.cb = entry.cb ∨ entry.cb = none ∧
        ∃ pid streamType tag, call = .pesData pid streamType tag ∧
          entry.pid = Fin.ofNat 8192 pid ∧ later.cb = some (callbackOf tag))
  fresh : ∀ (i : Nat) (later : PesEntry), pes.list[i]? = none → after.list[i]? = some later →
    later.cb = none

section Step

variable {calls : List Registration} {pes : PesRegistry}

theorem consistent_initial : Consistent [] {} where
  length := rfl
  bit pid := by simp [pidBit, firstType]
  indexed pid known := by simp [pidBit] at known
  entry i entry found := by cases found

theorem Consistent.of_types {more : List Registration} (consistent : Consistent calls pes)
    (same : firstType more = firstType calls) : Consistent more pes := by
  refine ⟨consistent.length, ?_, consistent.indexed, ?_⟩
  · rw [same]
    exact consistent.bit
  · rw [same]
    exact consistent.entry

theorem attaches_same (call : Registration) : Attaches pes pes call where
  kept _ entry found := ⟨entry, found, rfl, Or.inl rfl⟩
  fresh i later none found := by
    rw [none] at found
    cases found

-- every entry has a PID of its own
theorem consistent_few (consistent : Consistent calls pes) : pes.pidNum ≤ 8192 := by
  have injective : Function.Injective fun i : Fin pes.list.length => (pes.list.get i).pid := by
    intro i j same
    have first := (consistent.entry i _ (List.getElem?_eq_getElem i.isLt)).1
    have second := (consistent.entry j _ (List.getElem?_eq_getElem j.isLt)).1
    apply Fin.ext
    rw [← first, ← second]
    exact congrArg pes.pidIndex same
  have card := Fintype.card_le_of_injective _ injective
  rwa [Fintype.card_fin, Fintype.card_fin, consistent.length] at card

theorem registerPesOps_new (consistent : Consistent calls pes) (pid : Fin 8192)
    (streamType : UInt8) (unknown : pidBit pes.pidBitmap pid = false) :
    registerPesOps pes pid streamType true =
      { pidBitmap := setPidBit pes.pidBitmap pid
        list := pes.list ++ [{ pid := pid, type := streamType }]
        pidIndex := Function.update pes.pidIndex pid pes.pidNum
        pidNum := pes.pidNum + 1 } := by
  have few := consistent_few consistent
  have count : (pes.pidNum + 1) % 65536 = pes.pidNum + 1 := Nat.mod_eq_of_lt (by omega)
  have whole : pes.list.take pes.pidNum = pes.list := by
    rw [← consistent.length, List.take_length]
  rw [registerPesOps, if_neg (by rw [unknown]; decide), if_pos rfl, count, whole]

theorem firstType_new {pid : Nat} (streamType : UInt8)
    (unseen : firstType calls (Fin.ofNat 8192 pid) = none) (other : Fin 8192) :
    firstType (calls ++ [.pes pid streamType]) other =
      if other = Fin.ofNat 8192 pid then some streamType else firstType calls other := by
  rw [firstType_snoc, firstType_pes]
  by_cases same : other = Fin.ofNat 8192 pid
  · rw [if_pos same, if_pos same.symm, same, unseen]
    rfl
  · rw [if_neg same, if_neg (Ne.symm same), Option.or_none]

/-- A PID that is new gets the entry behind the last one. -/
theorem consistent_new (consistent : Consistent calls pes) (pid : Nat) (streamType : UInt8)
    (unknown : pidBit pes.pidBitmap (Fin.ofNat 8192 pid) = false) :
    Consistent (calls ++ [.pes pid streamType])
      (registerPesOps pes (Fin.ofNat 8192 pid) streamType true) := by
  have unseen : firstType calls (Fin.ofNat 8192 pid) = none := by
    have bit := consistent.bit (Fin.ofNat 8192 pid)
    rw [unknown] at bit
    exact Option.isSome_eq_false_iff.mp bit.symm |> Option.isNone_iff_eq_none.mp
  have types := firstType_new streamType unseen
  rw [registerPesOps_new consistent _ _ unknown]
  generalize Fin.ofNat 8192 pid = added at unknown unseen types ⊢
  have length := consistent.length
  constructor
  · rw [List.length_append, length, List.length_singleton]
  · intro other
    rw [pidBit_set, types, consistent.bit]
    by_cases same : other = added
    · simp [same]
    · simp [same]
  · intro other known
    by_cases same : other = added
    · refine ⟨⟨added, streamType, 0, none, none⟩, ?_, same.symm⟩
      simp [same, length]
    · rw [pidBit_set, decide_eq_false same, Bool.false_or] at known
      obtain ⟨entry, found, own⟩ := consistent.indexed other known
      refine ⟨entry, ?_, own⟩
      dsimp only
      rw [Function.update_of_ne same]
      exact List.getElem?_append_left (List.getElem?_eq_some_iff.mp found).1 |>.trans found
  · intro i entry found
    rw [types]
    by_cases inside : i < pes.list.length
    · rw [List.getElem?_append_left inside] at found
      obtain ⟨index, type⟩ := consistent.entry i entry found
      have apart : entry.pid ≠ added := fun same => by
        rw [same, unseen] at type
        cases type
      dsimp only
      rw [Function.update_of_ne apart, if_neg apart]
      exact ⟨index, type⟩
    · rw [List.getElem?_append_right (Nat.not_lt.mp inside)] at found
      obtain ⟨last, same⟩ := List.getElem?_eq_some_iff.mp found
      have position : i = pes.pidNum := by
        simp at last
        omega
      rw [← same]
      simp [position]

theorem attaches_new (consistent : Consistent calls pes) (pid : Fin 8192) (streamType : UInt8)
    (unknown : pidBit pes.pidBitmap pid = false) (call : Registration) :
    Attaches pes (registerPesOps pes pid streamType true) call := by
  rw [registerPesOps_new consistent _ _ unknown]
  constructor
  · intro i entry found
    have inside := (List.getElem?_eq_some_iff.mp found).1
    exact ⟨entry, (List.getElem?_append_left inside).trans found, rfl, Or.inl rfl⟩
  · intro i later none found
    rw [List.getElem?_append_right (List.getElem?_eq_none_iff.mp none)] at found
    obtain ⟨inside, same⟩ := List.getElem?_eq_some_iff.mp found
    rw [← same]
    simp

theorem registerPesOps_step (consistent : Consistent calls pes) (pid : Nat) (streamType : UInt8) :
    Consistent (calls ++ [.pes pid streamType])
        (registerPesOps pes (Fin.ofNat 8192 pid) streamType true) ∧
      Attaches pes (registerPesOps pes (Fin.ofNat 8192 pid) streamType true)
        (.pes pid streamType) := by
  cases known : pidBit pes.pidBitmap (Fin.ofNat 8192 pid) with
  | true =>
    have bit := consistent.bit (Fin.ofNat 8192 pid)
    rw [known] at bit
    rw [registerPesOps, if_pos known]
    exact ⟨consistent.of_types (firstType_known bit.symm), attaches_same _⟩
  | false => exact ⟨consistent_new consistent pid streamType known, attaches_new consistent _ _ known _⟩

/-- An entry may be replaced by one of the same PID and type. -/
theorem consistent_set {i : Nat} {entry later : PesEntry} (consistent : Consistent calls pes)
    (found : pes.list[i]? = some entry) (pid : later.pid = entry.pid)
    (type : later.type = entry.type) :
    Consistent calls { pes with list := pes.list.set i later } := by
  have inside := (List.getElem?_eq_some_iff.mp found).1
  refine ⟨by rw [List.length_set, consistent.length], consistent.bit, ?_, ?_⟩
  · intro other known
    obtain ⟨held, there, own⟩ := consistent.indexed other known
    by_cases same : i = pes.pidIndex other
    · rw [← same, found, Option.some.injEq] at there
      refine ⟨later, ?_, by rw [pid, there, own]⟩
      rw [← same]
      exact List.getElem?_set_self inside
    · exact ⟨held, (List.getElem?_set_ne same).trans there, own⟩
  · intro j other there
    by_cases same : i = j
    · rw [← same, List.getElem?_set_self inside, Option.some.injEq] at there
      rw [← there, ← same, pid, type]
      exact consistent.entry i entry found
    · rw [List.getElem?_set_ne same] at there
      exact consistent.entry j other there

theorem attach_same (pt : PesEntry) (cb : PesDataCallback) (tag : UInt8) (calloc : Bool) :
    (pt.attach cb tag calloc).pid = pt.pid ∧ (pt.attach cb tag calloc).type = pt.type ∧
      (pt.attach cb tag calloc).cb = some cb := by
  simp only [PesEntry.attach]
  split <;> exact ⟨rfl, rfl, rfl⟩

-- the PID has been registered, so the index leads to its own entry
theorem registerPesDataCallback_step (consistent : Consistent calls pes) (pid : Nat)
    (streamType tag : UInt8) (announced : ∃ type, .pes pid type ∈ calls) :
    ∃ after, registerPesDataCallback pes (Fin.ofNat 8192 pid) streamType (callbackOf tag) tag true =
        some after ∧
      Consistent (calls ++ [.pesData pid streamType tag]) after ∧
      Attaches pes after (.pesData pid streamType tag) := by
  have types := firstType_other calls (.pesData pid streamType tag) (fun _ _ same => by cases same)
  obtain ⟨type, member⟩ := announced
  have known : pidBit pes.pidBitmap (Fin.ofNat 8192 pid) = true := by
    rw [consistent.bit]
    exact firstType_member member
  obtain ⟨pt, found, own⟩ := consistent.indexed _ known
  have inside := (List.getElem?_eq_some_iff.mp found).1
  rw [consistent.length] at inside
  rw [registerPesDataCallback, if_neg (by omega), found, Option.map_some]
  by_cases fresh : pt.type = streamType ∧ pt.cb = none
  · rw [if_pos fresh]
    obtain ⟨samePid, sameType, attached⟩ := attach_same pt (callbackOf tag) tag true
    have set := consistent_set consistent found samePid sameType
    refine ⟨_, rfl, set.of_types types, ?_, ?_⟩
    · intro i entry there
      by_cases same : pes.pidIndex (Fin.ofNat 8192 pid) = i
      · rw [← same, found, Option.some.injEq] at there
        refine ⟨pt.attach (callbackOf tag) tag true, ?_, by rw [samePid, there], Or.inr ?_⟩
        · rw [← same]
          exact List.getElem?_set_self (List.getElem?_eq_some_iff.mp found).1
        · rw [← there]
          exact ⟨fresh.2, pid, streamType, tag, rfl, own, attached⟩
      · exact ⟨entry, (List.getElem?_set_ne same).trans there, rfl, Or.inl rfl⟩
    · intro i later none there
      have outside := List.getElem?_eq_none_iff.mp none
      have within := (List.getElem?_eq_some_iff.mp there).1
      rw [List.length_set] at within
      omega
  · rw [if_neg fresh]
    exact ⟨pes, rfl, consistent.of_types types, attaches_same _⟩

theorem perform_other (consistent : Consistent calls pes) (call : Registration)
    (other : ∀ pid streamType, call ≠ .pes pid streamType) (same : pes.perform call = some pes) :
    ∃ after, pes.perform call = some after ∧ Consistent (calls ++ [call]) after ∧
      Attaches pes after call :=
  ⟨pes, same, consistent.of_types (firstType_other calls call other), attaches_same call⟩

theorem perform_step (consistent : Consistent calls pes) (call : Registration)
    (announced : ∀ pid streamType tag, call = .pesData pid streamType tag →
      ∃ type, .pes pid type ∈ calls) :
    ∃ after, pes.perform call = some after ∧ Consistent (calls ++ [call]) after ∧
      Attaches pes after call := by
  cases call with
  | pes pid streamType => exact ⟨_, rfl, registerPesOps_step consistent pid streamType⟩
  | pesData pid streamType tag =>
    exact registerPesDataCallback_step consistent pid streamType tag (announced _ _ _ rfl)
  | pmt pid => exact perform_other consistent _ (fun _ _ same => by cases same) rfl
  | «section» pid => exact perform_other consistent _ (fun _ _ same => by cases same) rfl
  | scte pid => exact perform_other consistent _ (fun _ _ same => by cases same) rfl

end Step

section Run

/-- A callback is given for a PID that has been registered before. -/
def Announced (calls : List Registration) : Prop :=
  ∀ k pid streamType tag, calls[k]? = some (.pesData pid streamType tag) →
    ∃ type, .pes pid type ∈ calls.take k

theorem announced_append {first second : List Registration} (left : Announced first)
    (right : Announced second) : Announced (first ++ second) := by
  intro k pid streamType tag here
  by_cases inside : k < first.length
  · rw [List.getElem?_append_left inside] at here
    obtain ⟨type, member⟩ := left k pid streamType tag here
    exact ⟨type, by rwa [List.take_append_of_le_length (Nat.le_of_lt inside)]⟩
  · rw [List.getElem?_append_right (Nat.not_lt.mp inside)] at here
    obtain ⟨type, member⟩ := right _ pid streamType tag here
    refine ⟨type, ?_⟩
    rw [List.take_append]
    exact List.mem_append_right _ member

-- parse_pmt sets a callback right behind the PID
theorem announced_registered {D : Type} (pn : EsNode D) : Announced pn.registered := by
  have apart (call : Registration) (other : ∀ pid streamType tag, call ≠ .pesData pid streamType tag) :
      Announced [call] := by
    intro k pid streamType tag here
    have member := List.mem_of_getElem? here
    exact absurd (List.mem_singleton.mp member).symm (other pid streamType tag)
  have pair (pid : Nat) (streamType tag : UInt8) :
      Announced [.pes pid streamType, .pesData pid streamType tag] := by
    intro k other otherType otherTag here
    match k with
    | 0 => cases here
    | 1 =>
      cases here
      exact ⟨streamType, List.mem_cons_self⟩
    | k + 2 => cases here
  unfold EsNode.registered
  split_ifs
  · exact apart _ (fun _ _ _ same => by cases same)
  · exact apart _ (fun _ _ _ same => by cases same)
  · exact apart _ (fun _ _ _ same => by cases same)
  · exact pair _ _ _
  · exact pair _ _ _
  · exact apart _ (fun _ _ _ same => by cases same)

theorem announced_streams {D : Type} (nodes : List (EsNode D)) :
    Announced (nodes.flatMap EsNode.registered) := by
  induction nodes with
  | nil =>
    intro k pid streamType tag here
    cases here
  | cons pn nodes ih =>
    rw [List.flatMap_cons]
    exact announced_append (announced_registered pn) ih

theorem register_consistent {calls : List Registration} (announced : Announced calls) (k : Nat) :
    ∃ pes, register (calls.take k) = some pes ∧ Consistent (calls.take k) pes := by
  induction k with
  | zero => exact ⟨{}, rfl, consistent_initial⟩
  | succ k ih =>
    obtain ⟨pes, reached, consistent⟩ := ih
    rw [List.take_add_one]
    cases here : calls[k]? with
    | none => exact ⟨pes, by simpa using reached, by simpa using consistent⟩
    | some call =>
      obtain ⟨after, performed, next, -⟩ := perform_step consistent call (by
        intro pid streamType tag same
        exact announced k pid streamType tag (by rw [here, same]))
      refine ⟨after, ?_, next⟩
      rw [register] at reached ⊢
      rw [Option.toList_some, List.foldlM_append, reached, Option.bind_eq_bind, Option.bind_some,
        List.foldlM_cons, performed]
      rfl

theorem consistent_exactly {calls : List Registration} {pes : PesRegistry}
    (consistent : Consistent calls pes) (pid : Fin 8192) :
    pidBit pes.pidBitmap pid = true ↔
      ∃! i, i < pes.pidNum ∧ ∃ entry, pes.list[i]? = some entry ∧ entry.pid = pid := by
  constructor
  · intro known
    obtain ⟨entry, found, own⟩ := consistent.indexed pid known
    have inside := (List.getElem?_eq_some_iff.mp found).1
    rw [consistent.length] at inside
    refine ⟨pes.pidIndex pid, ⟨inside, entry, found, own⟩, ?_⟩
    intro i other
    obtain ⟨-, held, there, same⟩ := other
    rw [← same]
    exact (consistent.entry i held there).1.symm
  · intro exactly
    obtain ⟨i, ⟨-, entry, found, own⟩, -⟩ := exactly
    have type := (consistent.entry i entry found).2
    rw [own] at type
    rw [consistent.bit, type]
    rfl

/-- An entry before a packet of its PID. -/
def PesEntry.stream (entry : PesEntry) : PesStream where
  pid := entry.pid
  cb := entry.cb.isSome

-- the registry that parse_pes_packet looks a PID up in
def PesRegistry.table (pes : PesRegistry) : PesTable where
  pidNum := pes.pidNum
  pidBitmap pid := pidBit pes.pidBitmap (Fin.ofNat 8192 pid)
  pidIndex pid := pes.pidIndex (Fin.ofNat 8192 pid)
  list := pes.list.map PesEntry.stream

/-- A PID whose entry has a callback is one that packets are parsed and delivered for. -/
theorem consistent_registered {calls : List Registration} {pes : PesRegistry}
    (consistent : Consistent calls pes) {i : Nat} {entry : PesEntry}
    (found : pes.list[i]? = some entry) (attached : entry.cb.isSome) :
    pes.table.Registered entry.pid entry.stream := by
  obtain ⟨index, type⟩ := consistent.entry i entry found
  have inside := (List.getElem?_eq_some_iff.mp found).1
  have pid : Fin.ofNat 8192 entry.pid = entry.pid := Fin.ofNat_val_eq_self entry.pid
  constructor
  · simp only [PesRegistry.table, pid, consistent.bit, type, Option.isSome_some]
  · simp only [PesRegistry.table, pid, index]
    rwa [← consistent.length]
  · simp only [PesRegistry.table, pid, index]
    rw [List.getElem?_map, found, Option.map_some]
  · exact attached

/-- In every state that the calls of parse_pmt lead to, the registered PIDs have one entry each,
where their index leads to, with the type of their first registration; and the next call sets no
callback but that of its own PID, where there was none. -/
theorem registry_consistent {D : Type} (nodes : List (EsNode D)) (k : Nat) :
    ∃ pes, register ((nodes.flatMap EsNode.registered).take k) = some pes ∧
      (∀ pid, pidBit pes.pidBitmap pid = true ↔
        ∃! i, i < pes.pidNum ∧ ∃ entry, pes.list[i]? = some entry ∧ entry.pid = pid) ∧
      (∀ i entry, pes.list[i]? = some entry → pes.pidIndex entry.pid = i ∧
        firstType ((nodes.flatMap EsNode.registered).take k) entry.pid = some entry.type) ∧
      ∀ call ∈ (nodes.flatMap EsNode.registered)[k]?,
        ∃ after, pes.perform call = some after ∧ Attaches pes after call := by
  have announced := announced_streams nodes
  obtain ⟨pes, reached, consistent⟩ := register_consistent announced k
  refine ⟨pes, reached, consistent_exactly consistent, consistent.entry, ?_⟩
  intro call here
  obtain ⟨after, performed, -, attaches⟩ := perform_step consistent call (by
    intro pid streamType tag same
    rw [same] at here
    exact announced k pid streamType tag here)
  exact ⟨after, performed, attaches⟩

end Run

end TsAnalyze.Pes
