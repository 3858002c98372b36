import Mathlib.Algebra.Group.Nat.Defs
import Mathlib.Logic.Function.Basic

/-! The timers of the PWM unit, for chips other than the BK7231. -/

namespace BdkRtt.Driver.BkTimer

def bkTimerFailure : UInt32 := 1
def bkTimerSuccess : UInt32 := 0

def pwdTimer32kClkBit : UInt32 := (1 : UInt32) <<< 21
def pwdTimer26mClkBit : UInt32 := (1 : UInt32) <<< 20

/-- `TIMERCTLA_CLKDIV_MASK` and `_POSI`, which are those of `TIMERCTLB` too. -/
def timerctlClkdivMask : UInt32 := 0x07
def timerctlClkdivPosi : UInt32 := 3

section State

/-- `timer_param_t` -/
structure TimerParam where
  channel : UInt8
  div : UInt8
  period : UInt32
  tIntHandler : Nat

/-- The registers by their words from `PWM_NEW_BASE` on, `p_TIMER_Int_Handler`, the clocks that have
been powered up, and whether `IRQ_TIMER` is enabled. -/
structure Timer where
  regs : Nat → UInt32
  handlers : Nat → Nat
  clocks : List UInt32
  irq : Bool

def timer02Ctl : Nat := 3
def timer35Ctl : Nat := 0x13

def regTimerctlaPeriodAddr (n : Nat) : Nat := n
def regTimerctlbPeriodAddr (n : Nat) : Nat := 0x10 + (n - 3)

def Timer.regWrite (t : Timer) (reg : Nat) (value : UInt32) : Timer :=
  { t with regs := Function.update t.regs reg value }

/-- `CMD_CLK_PWR_UP` -/
def Timer.clkPwrUp (t : Timer) (value : UInt32) : Timer := { t with clocks := t.clocks ++ [value] }

end State

section Values

/-- The 64-bit `value`, made to fit the register. -/
def saturate (value : UInt64) : UInt32 :=
  (if value > 0xffffffff then 0xffffffff else value).toUInt32

/-- The product has 32 bits, as its factors have. -/
def endvalue (ticks time div : UInt32) : UInt32 :=
  let div := if div = 0 then 1 else div
  saturate (time * ticks / div).toUInt64

def bkTimerCalEndvalue (ucChannel : Nat) (timeMs div : UInt32) : UInt32 :=
  if ucChannel < 3 then endvalue 26000 timeMs div else endvalue 32 timeMs div

def bkTimerCalEndvalueUs (timeUs div : UInt32) : UInt32 := endvalue 26 timeUs div

/-- The control register with the divider and the enable bit of a channel; `div - 1` is an `int`. -/
def ctlValue (value : UInt32) (div : UInt8) (en : Nat) : UInt32 :=
  let value := value &&& ~~~(timerctlClkdivMask <<< timerctlClkdivPosi)
  let value := value ||| ((div.toUInt32 - 1) <<< timerctlClkdivPosi)
  value ||| ((1 : UInt32) <<< UInt32.ofNat en)

end Values

section Init

/-- Clock, period and control, between the two branches of `init_timer_param`. -/
def Timer.program (t : Timer) (clock : UInt32) (periodAddr ctl en : Nat) (value : UInt32)
    (div : UInt8) : Timer :=
  let t := (t.clkPwrUp clock).regWrite periodAddr value
  t.regWrite ctl (ctlValue (t.regs ctl) div en)

def Timer.initTimerParam (t : Timer) (p : TimerParam) : Timer × UInt32 :=
  let ucChannel := p.channel.toNat
  if p.channel > 5 then (t, bkTimerFailure)
  else
    let t := { t with handlers := Function.update t.handlers ucChannel p.tIntHandler }
    let value := bkTimerCalEndvalue ucChannel p.period p.div.toUInt32
    let t := if ucChannel < 3 then
        t.program pwdTimer26mClkBit (regTimerctlaPeriodAddr ucChannel) timer02Ctl ucChannel value p.div
      else
        t.program pwdTimer32kClkBit (regTimerctlbPeriodAddr ucChannel) timer35Ctl (ucChannel - 3) value
          p.div
    ({ t with irq := true }, bkTimerSuccess)

def Timer.initTimerParamUs (t : Timer) (p : TimerParam) : Timer × UInt32 :=
  let ucChannel := p.channel.toNat
  if p.channel > 2 then (t, bkTimerFailure)
  else
    let t := { t with handlers := Function.update t.handlers ucChannel p.tIntHandler }
    let value := bkTimerCalEndvalueUs p.period p.div.toUInt32
    let t :=
      t.program pwdTimer26mClkBit (regTimerctlaPeriodAddr ucChannel) timer02Ctl ucChannel value p.div
    ({ t with irq := true }, bkTimerSuccess)

end Init

section Law

def bit (x : UInt32) (i : Nat) : Bool := x.toBitVec.getLsbD i

/-- `ticks_per_unit` -/
def ticksMs (channel : UInt8) : Nat := if channel < 3 then 26000 else 32
def ticksUs : Nat := 26

def periodAddr (channel : UInt8) : Nat :=
  if channel < 3 then regTimerctlaPeriodAddr channel.toNat else regTimerctlbPeriodAddr channel.toNat

def ctlAddr (channel : UInt8) : Nat := if channel < 3 then timer02Ctl else timer35Ctl

/-- The enable bit of the channel. -/
def enableBit (channel : UInt8) : Nat := channel.toNat % 3

def effectiveDiv (p : TimerParam) : Nat := max p.div.toNat 1

/-- The period register has the ticks of the period and the control register the divider, and no
other bit has changed but the channel's own. -/
structure Programmed (p : TimerParam) (ticks : Nat) (t t' : Timer) : Prop where
  period : (t'.regs (periodAddr p.channel)).toNat =
    min (p.period.toNat * ticks / effectiveDiv p) (2 ^ 32 - 1)
  divider : effectiveDiv p ≤ 8 →
    (t'.regs (ctlAddr p.channel)).toNat / 8 % 8 = effectiveDiv p - 1
  others : ∀ i < 32, i < 3 ∨ 6 ≤ i → i ≠ enableBit p.channel →
    bit (t'.regs (ctlAddr p.channel)) i = bit (t.regs (ctlAddr p.channel)) i

/-- The product fits 32 bits, the divider is not 0, and what of it lies above its field is set in
the register already. -/
structure Representable (p : TimerParam) (ticks : Nat) (t : Timer) : Prop where
  product : p.period.toNat * ticks < 2 ^ 32
  positive : p.div ≠ 0
  above : ∀ i < 32, 6 ≤ i → (p.div.toNat - 1).testBit (i - 3) →
    bit (t.regs (ctlAddr p.channel)) i

end Law

end BdkRtt.Driver.BkTimer
