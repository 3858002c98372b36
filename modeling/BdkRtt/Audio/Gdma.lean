import BdkRtt.Lib.Space
import BdkRtt.Lib.Circle

namespace BdkRtt.Audio

open Lib

/-- The registers of one channel on the side that is in memory: the address it moves the
next byte from or to, the address it stops at, and the ends of its loop. -/
structure GdmaChannel where
  current : UInt32
  pause : UInt32
  loopStart : UInt32
  loopEnd : UInt32

namespace GdmaChannel

/-- A channel before it is set up. -/
def reset : GdmaChannel := ⟨0, 0, 0, 0⟩

/-- What `gdma_congfig_type4` and `gdma_congfig_type5` set for that side. -/
def config (ch : GdmaChannel) (startAddr loopStart loopEnd : UInt32) : GdmaChannel :=
  { ch with current := startAddr, loopStart := loopStart, loopEnd := loopEnd }

def setPauseAddr (ch : GdmaChannel) (addr : UInt32) : GdmaChannel := { ch with pause := addr }

/-- The enable bit set and cleared again takes the address back to the start of the buffer. -/
def trigger (ch : GdmaChannel) : GdmaChannel := { ch with current := ch.loopStart }

/-- The address after one byte. -/
def advance (ch : GdmaChannel) : GdmaChannel :=
  { ch with current := if ch.current + 1 = ch.loopEnd then ch.loopStart else ch.current + 1 }

/-- The address of position `i` of a buffer that is gone round. -/
def cellAddr (addr cap : UInt32) (i : Nat) : UInt32 := addr + UInt32.ofNat (i % cap.toNat)

/-- The channel goes round the buffer and stands at position `i`. -/
structure OnLoop (ch : GdmaChannel) (addr cap : UInt32) (i : Nat) : Prop where
  loopStart : ch.loopStart = addr
  loopEnd : ch.loopEnd = addr + cap
  current : ch.current = cellAddr addr cap i

section Loop

variable {ch : GdmaChannel} {addr cap : UInt32} {i j : Nat}

theorem mod_lt_size (hcap : 0 < cap.toNat) : i % cap.toNat < UInt32.size :=
  Nat.lt_trans (Nat.mod_lt _ hcap) cap.toNat_lt

theorem cellAddr_sub (hcap : 0 < cap.toNat) :
    (cellAddr addr cap i - addr).toNat = i % cap.toNat := by
  rw [cellAddr, Space.offset_self, UInt32.toNat_ofNat_of_lt' (mod_lt_size hcap)]

theorem cellAddr_inj (hcap : 0 < cap.toNat) :
    cellAddr addr cap i = cellAddr addr cap j ↔ i % cap.toNat = j % cap.toNat := by
  constructor
  · intro h
    rw [← cellAddr_sub hcap, h, cellAddr_sub hcap]
  · intro h
    rw [cellAddr, h, cellAddr]

theorem cellAddr_mem_span (hcap : 0 < cap.toNat) :
    cellAddr addr cap i ∈ Space.span addr cap.toNat := by
  rw [Space.mem_span (Nat.le_of_lt cap.toNat_lt), cellAddr_sub hcap]
  exact Nat.mod_lt _ hcap

theorem OnLoop.offset (h : ch.OnLoop addr cap i) (hcap : 0 < cap.toNat) :
    (ch.current - addr).toNat = i % cap.toNat := by
  rw [h.current, cellAddr_sub hcap]

theorem OnLoop.advance (h : ch.OnLoop addr cap i) (hcap : 0 < cap.toNat) :
    ch.advance.OnLoop addr cap (i + 1) where
  loopStart := h.loopStart
  loopEnd := h.loopEnd
  current := by
    have hlt : i % cap.toNat < cap.toNat := Nat.mod_lt _ hcap
    have hnext : ch.current + 1 = addr + UInt32.ofNat (i % cap.toNat + 1) := by
      rw [h.current, cellAddr, UInt32.ofNat_add, UInt32.add_assoc]
      rfl
    have hend : ch.current + 1 = ch.loopEnd ↔ i % cap.toNat + 1 = cap.toNat := by
      rw [hnext, h.loopEnd, UInt32.add_right_inj, ← UInt32.toNat_inj]
      have := cap.toNat_lt
      simp
      omega
    rw [cellAddr, succ_mod_cases hcap]
    by_cases h' : i % cap.toNat + 1 = cap.toNat
    · rw [if_pos h', GdmaChannel.advance, if_pos (hend.mpr h'), h.loopStart]
      simp
    · rw [if_neg h', GdmaChannel.advance, if_neg (mt hend.mp h'), hnext]

end Loop

end GdmaChannel

end BdkRtt.Audio
