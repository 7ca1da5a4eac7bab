import TsAnalyze.Input.Probe
import TsAnalyze.Shared.Chunks

set_option autoImplicit false

namespace TsAnalyze.Input

open Memory Chunks

variable {S F : Type}

/-- `struct io_ops` over the state of a file or a socket. -/
structure IoOps (F : Type) where
  -- `none`: the file or socket cannot be opened
  open_ : Option F
  -- outside `none`: the call does not return; inside `none`: it returns -1
  read : F → Option (F × Option (Block × Nat))
  end_ : F → Int

-- unsigned 64-bit subtraction
def subSize (left right : Nat) : Nat :=
  (left + 18446744073709551616 - right) % 18446744073709551616

theorem subSize_of_le (left right : Nat) (below : right ≤ left) (small : left < 18446744073709551616) :
    subSize left right = left - right := by
  unfold subSize
  omega

-- the local variables of ts_process
structure Locals (S : Type) where
  state : S
  ptr : Block
  len : Nat
  pktCon : Region tsFecPacketSize
  pktConLen : Nat
  -- not in the program: has an unsigned subtraction gone below zero?
  underflow : Bool

def Locals.initial (state : S) : Locals S where
  state := state
  ptr := []
  len := 0
  pktCon := Region.fresh tsFecPacketSize
  pktConLen := 0
  underflow := false

inductive Ending where
  | returned (value : Int)
  -- a read has not returned
  | waiting
  -- the given number of rounds is used up
  | running
deriving DecidableEq

section Loop

variable (proc : S → Block → Nat → Option S) (tsPktlen : Nat)

-- `if (pkt_con_len == ts_pktlen)`
def processCarried (l : Locals S) : Option (Locals S) :=
  if l.pktConLen = tsPktlen then
    (proc l.state l.pktCon.cells tsPktlen).map fun state => { l with state := state, pktConLen := 0 }
  else some l

-- `if (len)`
def keepRest (l : Locals S) : Option (Locals S) :=
  if l.len ≠ 0 then
    (l.pktCon.memcpy 0 l.ptr l.len).map fun pktCon => { l with pktCon := pktCon, pktConLen := l.len }
  else some l

-- the body of the loop before the next read
def processBlock (l : Locals S) : Option (Locals S) := do
  let l ← processCarried proc tsPktlen l
  let (state, ptr, len) ← packets proc tsPktlen l.state l.ptr l.len
  keepRest { l with state := state, ptr := ptr, len := len }

-- the body of the loop after the next read
def receiveBlock (l : Locals S) (ptr : Block) (len : Nat) : Option (Locals S) :=
  if l.pktConLen ≠ 0 then
    let missing := subSize tsPktlen l.pktConLen
    (l.pktCon.memcpy l.pktConLen ptr missing).map fun pktCon =>
      { l with
          ptr := ptr.drop missing
          len := subSize len missing
          pktCon := pktCon
          pktConLen := tsPktlen
          underflow := l.underflow || tsPktlen < l.pktConLen || len < missing }
  else some { l with ptr := ptr, len := len }

-- the body of the loop from the next read on, and its condition
def afterRead (ops : IoOps F) (l : Locals S) (again : F → Locals S → Option (Ending × Locals S)) :
    Option (F × Option (Block × Nat)) → Option (Ending × Locals S)
  | none => some (.waiting, l)
  | some (_, none) => some (.returned 0, l)
  | some (io, some (ptr, len)) =>
      (receiveBlock tsPktlen l ptr len).bind fun l =>
        if ops.end_ io = 0 then some (.returned 0, l) else again io l

def processLoop (ops : IoOps F) : Nat → F → Locals S → Option (Ending × Locals S)
  | 0, _, l => some (.running, l)
  | rounds + 1, io, l =>
      (processBlock proc tsPktlen l).bind fun l =>
        afterRead tsPktlen ops l (processLoop ops rounds) (ops.read io)

end Loop

/-- `ts_process`, for a given number of rounds of its loop. -/
def tsProcess (ops : IoOps F) (proc : S → Block → Nat → Option S) (rounds : Nat) (state : S) :
    Option (Ending × Locals S) :=
  match ops.open_ with
  | none => some (.returned (-1), Locals.initial state)
  | some io =>
      match ops.read io with
      | none => some (.waiting, Locals.initial state)
      | some (io, first) => do
          let (ptr, len) := first.getD ([], 0)
          let typ ← mpegtsProbe ptr len
          match tsPktlen typ with
          | none => return (.returned (-1), Locals.initial state)
          | some size =>
              let start ← startIndex ptr size
              processLoop proc size ops rounds io
                { Locals.initial state with
                    ptr := ptr.drop start
                    len := subSize len start
                    underflow := len < start }

-- a ts_proc that writes down the packets it is called with
def record (log : List Block) (data : Block) (len : Nat) : Option (List Block) :=
  some (log ++ [data.take len])

end TsAnalyze.Input
