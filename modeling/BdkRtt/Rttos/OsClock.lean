import BdkRtt.Lib.Machine
import Mathlib.Algebra.GroupWithZero.Nat

namespace BdkRtt.Rttos

open Lib

/-- How a clock file is built: `FCLK_SECOND`, and the bits of `current_clock`, which are 32 in
`os_clock.c` and 64 in `fake_clock.c`. -/
structure ClockCfg where
  fclkSecond : UInt32
  clockBits : Nat
  fclkSecond_pos : 0 < fclkSecond

structure Clock where
  currentClock : Nat
  currentSeconds : UInt32
  secondCountdown : UInt32

variable (c : ClockCfg)

def ClockCfg.init : Clock where
  currentClock := 0
  currentSeconds := 0
  secondCountdown := c.fclkSecond

/-- What `fclk_hdl` does to the three values. -/
def fclkHdl (s : Clock) : Clock :=
  let clock := (s.currentClock + 1) % 2 ^ c.clockBits
  let countdown := s.secondCountdown - 1
  if countdown = 0 then
    { currentClock := clock
      currentSeconds := s.currentSeconds + 1
      secondCountdown := c.fclkSecond }
  else { s with currentClock := clock, secondCountdown := countdown }

/-- `while (tick >= FCLK_SECOND)`, with the seconds and the tick it leaves. -/
def wholeSeconds (seconds tick : UInt32) : UInt32 × UInt32 :=
  if c.fclkSecond ≤ tick then wholeSeconds (seconds + 1) (tick - c.fclkSecond)
  else (seconds, tick)
termination_by tick.toNat
decreasing_by
  have hpos := UInt32.lt_iff_toNat_lt.mp c.fclkSecond_pos
  have hle := UInt32.le_iff_toNat_le.mp ‹_›
  rw [UInt32.toNat_sub_of_le _ _ ‹_›]
  change 0 < _ at hpos
  omega

def fclkFreertosUpdateTick (tick : UInt32) (s : Clock) : Clock :=
  let clock := (s.currentClock + tick.toNat) % 2 ^ c.clockBits
  let left := wholeSeconds c s.currentSeconds tick
  if s.secondCountdown ≤ left.2 then
    { currentClock := clock
      currentSeconds := left.1 + 1
      secondCountdown := c.fclkSecond - (left.2 - s.secondCountdown) }
  else
    { currentClock := clock
      currentSeconds := left.1
      secondCountdown := s.secondCountdown - left.2 }

def fclkResetCount (s : Clock) : Clock := { s with currentClock := 0, currentSeconds := 0 }

inductive ClockEvent
  | hdl
  | update (tick : UInt32)
  | reset

def clockStep (s : Clock) : ClockEvent → Clock
  | .hdl => fclkHdl c s
  | .update tick => fclkFreertosUpdateTick c tick s
  | .reset => fclkResetCount s

def ClockEvent.ticks : ClockEvent → Nat
  | .hdl => 1
  | .update tick => tick.toNat
  | .reset => 0

/-- The runs in which `current_clock` does not wrap. -/
def clock : Machine Clock ClockEvent Unit where
  init := c.init
  step s e :=
    if s.currentClock + e.ticks < 2 ^ c.clockBits then some (clockStep c s e, ()) else none

end BdkRtt.Rttos
