import TsAnalyze.Shared.Memory

set_option autoImplicit false

namespace TsAnalyze.Input

open Memory

def tsPacketSize : Nat := 188

def tsDvhsPacketSize : Nat := 192

def tsFecPacketSize : Nat := 204

variable {S : Type}

-- `while (len >= ts_pktlen)`: the state after the loop, the read pointer and what is left of len
def packetLoop (proc : S → Block → Nat → Option S) (tsPktlen : Nat) :
    Nat → S → Block → Nat → Option (S × Block × Nat)
  | 0, state, ptr, len => if tsPktlen ≤ len then none else some (state, ptr, len)
  | fuel + 1, state, ptr, len =>
      if tsPktlen ≤ len then
        (proc state ptr tsPktlen).bind fun state =>
          packetLoop proc tsPktlen fuel state (ptr.drop tsPktlen) (len - tsPktlen)
      else some (state, ptr, len)

def packets (proc : S → Block → Nat → Option S) (tsPktlen : Nat) (state : S) (ptr : Block)
    (len : Nat) : Option (S × Block × Nat) :=
  packetLoop proc tsPktlen len state ptr len

section Loop

variable (proc : S → Block → Nat → Option S) (tsPktlen : Nat)

theorem packetLoop_short (fuel : Nat) (state : S) (ptr : Block) (len : Nat)
    (short : len < tsPktlen) :
    packetLoop proc tsPktlen fuel state ptr len = some (state, ptr, len) := by
  have stop : ¬tsPktlen ≤ len := by omega
  cases fuel <;> simp [packetLoop, stop]

theorem packets_short (state : S) (ptr : Block) (len : Nat) (short : len < tsPktlen) :
    packets proc tsPktlen state ptr len = some (state, ptr, len) :=
  packetLoop_short proc tsPktlen len state ptr len short

variable (positive : 0 < tsPktlen)
include positive

-- the loop ends before a fuel of one for every byte is used up
theorem packetLoop_fuel (fuel : Nat) (state : S) (ptr : Block) (len : Nat) (enough : len ≤ fuel) :
    packetLoop proc tsPktlen fuel state ptr len = packets proc tsPktlen state ptr len := by
  unfold packets
  induction len using Nat.strong_induction_on generalizing fuel state ptr with
  | _ len ih =>
    by_cases more : tsPktlen ≤ len
    · obtain ⟨fuel, rfl⟩ := Nat.exists_eq_succ_of_ne_zero (show fuel ≠ 0 by omega)
      obtain ⟨less, rfl⟩ := Nat.exists_eq_succ_of_ne_zero (show len ≠ 0 by omega)
      rw [packetLoop, packetLoop, if_pos more, if_pos more]
      congr 1
      funext next
      rw [ih _ (by omega) fuel next _ (by omega), ih _ (by omega) less next _ (by omega)]
    · rw [packetLoop_short proc tsPktlen fuel state ptr len (by omega),
        packetLoop_short proc tsPktlen len state ptr len (by omega)]

theorem packets_next (state : S) (ptr : Block) (len : Nat) (enough : tsPktlen ≤ len) :
    packets proc tsPktlen state ptr len =
      (proc state ptr tsPktlen).bind fun next =>
        packets proc tsPktlen next (ptr.drop tsPktlen) (len - tsPktlen) := by
  obtain ⟨less, rfl⟩ := Nat.exists_eq_succ_of_ne_zero (show len ≠ 0 by omega)
  rw [packets, packetLoop, if_pos enough]
  congr 1
  funext next
  exact packetLoop_fuel proc tsPktlen positive less next _ _ (by omega)

end Loop

end TsAnalyze.Input
