import BdkRtt.Lib.Machine
import Mathlib.Algebra.GroupWithZero.Nat

namespace BdkRtt.Rttos

open Lib

/-- `FCLK_DURATION_MS`, and the static values of `mcu_ps.c` before the first event. -/
structure PsTickCfg where
  fclkDurationMs : UInt32
  increaseTick : Int32
  needPass : UInt32
  duration_lt : fclkDurationMs.toNat < 2 ^ 31
  increaseTick_le : increaseTick ≤ 0

structure PsTick where
  increaseTick : Int32
  needPass : UInt32

/-- `mcu_ps_cal_increase_tick`, with what it leaves in `*lost_p`. -/
def mcuPsCalIncreaseTick (increaseTick : Int32) (lostP : UInt32) : Int32 × UInt32 :=
  let lost := lostP.toInt32
  if lost ≤ 0 ∨ increaseTick = 0 then (increaseTick, lostP)
  else
    let lost := lost + increaseTick
    if lost < 0 then (lost, 0) else (0, lost.toUInt32)

/-- `mcu_ps_need_pstick` -/
def mcuPsNeedPstick (c : PsTickCfg) (s : PsTick) : PsTick × UInt32 :=
  if s.needPass % 5 = 0 then
    let r := mcuPsCalIncreaseTick s.increaseTick c.fclkDurationMs
    ({ increaseTick := r.1, needPass := s.needPass + 1 }, r.2)
  else ({ s with needPass := s.needPass + 1 }, c.fclkDurationMs)

inductive PsEvent
  | cal (lost : UInt32)
  | tick

/-- What is left of a lost value, or whether `fclk_hdl` returns without counting the tick. -/
inductive PsAnswer
  | cal (lost : UInt32)
  | tick (skipped : Bool)

def psStep (c : PsTickCfg) (s : PsTick) : PsEvent → Option (PsTick × PsAnswer)
  | .cal lost =>
    if lost.toNat < 2 ^ 31 then
      let r := mcuPsCalIncreaseTick s.increaseTick lost
      some ({ s with increaseTick := r.1 }, .cal r.2)
    else none
  | .tick =>
    let r := mcuPsNeedPstick c s
    some (r.1, .tick (r.2 = 0))

def psTick (c : PsTickCfg) : Machine PsTick PsEvent PsAnswer where
  init := { increaseTick := c.increaseTick, needPass := c.needPass }
  step := psStep c

end BdkRtt.Rttos
