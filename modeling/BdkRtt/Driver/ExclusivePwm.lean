import BdkRtt.Lib.Machine
import BdkRtt.Lib.Pulses
import Mathlib.Algebra.Group.Nat.Defs
import Mathlib.Logic.Function.Basic

/-! Two PWM channels that drive the switches of a bridge, the second one started late enough for
the first. -/

namespace BdkRtt.Driver.ExclusivePwm

open Lib

def pwmCount : UInt8 := 6

def pwmCtl : Nat := 0x00802A80
def endValueAddr (channel : UInt8) : Nat := 0x00802A80 + 0x08 + channel.toNat * 3 * 4
def dutyCycleAddr (channel : UInt8) : Nat := 0x00802A80 + 0x0C + channel.toNat * 3 * 4

def globalInt : Nat := 0x00802000 + 0x11 * 4

/-- The control register of the reads of a timer, and the value that starts one. -/
def timerReadCtl : Nat := 0x00802A10
def timerReadOp : UInt32 := ((1 : UInt32) <<< 2) ||| ((1 : UInt32) <<< 0)

/-- What both kinds of loops give up after. -/
def timeOut : Nat := 120 * 1000

section Board

def enableBit (channel : UInt8) : UInt32 := (1 : UInt32) <<< (channel.toUInt32 * 4)

def enabled (ctl : UInt32) (channel : UInt8) : Bool := ctl.toBitVec.getLsbD (channel.toNat * 4)

/-- The registers by their addresses, and at which count each channel that is on was enabled. -/
structure Board where
  regs : Nat → UInt32
  started : UInt8 → Option Nat

/-- A channel starts when its bit gets set, and stops when it gets cleared. -/
def Board.store (b : Board) (now addr : Nat) (value : UInt32) : Board where
  regs := Function.update b.regs addr value
  started channel :=
    if addr = pwmCtl then
      if enabled value channel then
        if enabled (b.regs pwmCtl) channel then b.started channel else some now
      else none
    else b.started channel

/-- High for the duty count, then low for the rest of the end value. -/
def Board.pulses (b : Board) (channel : UInt8) (start : Nat) : Pulses where
  start
  duty := (b.regs (dutyCycleAddr channel)).toNat
  rest := (b.regs (endValueAddr channel)).toNat - (b.regs (dutyCycleAddr channel)).toNat

def Board.high (b : Board) (channel : UInt8) (n : Nat) : Prop :=
  ∃ start ∈ b.started channel, (b.pulses channel start).High n

/-- The timer counts the clock of the channels with 32 bits. -/
def timerAt (count : Nat) : UInt32 := UInt32.ofNat count

end Board

section Call

structure Param where
  channelNum1 : UInt8
  channelNum2 : UInt8
  dutyCycle1 : UInt32
  dutyCycle2 : UInt32
  endValue : UInt32
  deadBand1 : UInt32

inductive Delay
  | first
  | second
deriving DecidableEq

/-- Where `tuya_pwm_reset_duty_cycle` is, with the variables of its loops. -/
inductive Pc
  | slot1Busy (d : Delay) (iTimeOut1 : Nat)
  | slot1Read (d : Delay)
  | slot2Busy (d : Delay) (t : UInt32) (iTimeOut1 iTimeOut2 : Nat)
  | slot2Read (d : Delay) (t : UInt32) (iTimeOut1 : Nat)
  | enable (d : Delay)
  | done
deriving DecidableEq

/-- `read` is the count at which the timer was last read. -/
structure State where
  board : Board
  now : Nat
  read : Nat
  pc : Pc

/-- The counts that pass before the next access, and whether a read of the timer is found to be
under way. -/
structure Event where
  lag : Nat
  busy : Bool

def Param.Accepted (p : Param) : Prop :=
  ¬ (p.channelNum1 ≥ pwmCount ∨ p.channelNum2 ≥ pwmCount) ∧
    ¬ p.endValue < p.dutyCycle1 + p.dutyCycle2 + p.deadBand1 * 2

instance (p : Param) : Decidable p.Accepted :=
  inferInstanceAs (Decidable (_ ∧ _))

/-- The checks, and what comes before the first delay: nothing in it depends on the time. -/
def Param.begin (p : Param) (b : Board) (now : Nat) : State :=
  if p.channelNum1 ≥ pwmCount ∨ p.channelNum2 ≥ pwmCount then ⟨b, now, now, .done⟩
  else if p.endValue < p.dutyCycle1 + p.dutyCycle2 + p.deadBand1 * 2 then ⟨b, now, now, .done⟩
  else
    let b := b.store now pwmCtl
      (b.regs pwmCtl &&& ~~~(enableBit p.channelNum1 ||| enableBit p.channelNum2))
    let b := b.store now (endValueAddr p.channelNum1) p.endValue
    let b := b.store now (endValueAddr p.channelNum2) p.endValue
    let b := b.store now (dutyCycleAddr p.channelNum1) p.dutyCycle1
    let b := b.store now (dutyCycleAddr p.channelNum2) p.dutyCycle2
    let b := b.store now globalInt 0x00
    ⟨b.store now timerReadCtl timerReadOp, now, now, .slot1Busy .first 0⟩

/-- `t` of the two delays. -/
def Param.target (p : Param) : Delay → UInt32 → UInt32
  | .first, slot1 => p.deadBand1 + slot1
  | .second, slot1 => p.dutyCycle1 + p.deadBand1 + slot1

/-- The next access, with what the program does until the one after it. -/
def State.next (p : Param) (s : State) (now : Nat) (busy : Bool) : Option State :=
  match s.pc with
  | .slot1Busy d i =>
    some { s with
      now
      pc := if busy ∧ ¬ i + 1 > timeOut then .slot1Busy d (i + 1) else .slot1Read d }
  | .slot1Read d =>
    some { s with
      board := s.board.store now timerReadCtl timerReadOp
      now
      read := now
      pc := .slot2Busy d (p.target d (timerAt now)) 0 0 }
  | .slot2Busy d t i j =>
    some { s with
      now
      pc := if busy ∧ ¬ j + 1 > timeOut then .slot2Busy d t i (j + 1) else .slot2Read d t i }
  | .slot2Read d t i =>
    if timerAt now ≥ t then some { s with now, read := now, pc := .enable d }
    else if i + 1 > timeOut then some { s with now, read := now, pc := .enable d }
    else
      some { s with
        board := s.board.store now timerReadCtl timerReadOp
        now
        read := now
        pc := .slot2Busy d t (i + 1) 0 }
  | .enable .first =>
    let b := s.board.store now pwmCtl (s.board.regs pwmCtl ||| enableBit p.channelNum1)
    some { s with
      board := b.store now timerReadCtl timerReadOp
      now
      pc := .slot1Busy .second 0 }
  | .enable .second =>
    let b := s.board.store now pwmCtl
      (s.board.regs pwmCtl ||| (enableBit p.channelNum1 ||| enableBit p.channelNum2))
    some { s with board := b.store now globalInt 0x03, now, pc := .done }
  | .done => none

def State.step (p : Param) (s : State) (e : Event) : Option (State × Unit) :=
  (s.next p (s.now + e.lag) e.busy).map fun t => (t, ())

def tuyaPwmResetDutyCycle (p : Param) (b : Board) (now : Nat) : Machine State Event Unit where
  init := p.begin b now
  step s e := s.step p e

end Call

section Law

abbrev History := Machine.History Event Unit

structure Right (p : Param) (s : State) : Prop where
  apart : Apart (s.board.high p.channelNum1) (s.board.high p.channelNum2)
  spaced : Spaced (s.board.high p.channelNum1) (s.board.high p.channelNum2) p.deadBand1.toNat 0
  /-- The lateness is the time between the last read of the timer and the store that enables. -/
  back : Spaced (s.board.high p.channelNum2) (s.board.high p.channelNum1) p.deadBand1.toNat
    (s.now - s.read)

/-- A start of the second channel at `now`, when the first was started at `start`. -/
structure InWindow (p : Param) (start read now : Nat) : Prop where
  behind : p.dutyCycle1.toNat + p.deadBand1.toNat ≤ (now - start) % p.endValue.toNat
  within : (now - start) % p.endValue.toNat + p.dutyCycle2.toNat ≤ p.endValue.toNat
  before : (now - start) % p.endValue.toNat + p.dutyCycle2.toNat + p.deadBand1.toNat ≤
    p.endValue.toNat + (now - read)

instance (p : Param) (start read now : Nat) : Decidable (InWindow p start read now) :=
  decidable_of_iff (p.dutyCycle1.toNat + p.deadBand1.toNat ≤ (now - start) % p.endValue.toNat ∧
      (now - start) % p.endValue.toNat + p.dutyCycle2.toNat ≤ p.endValue.toNat ∧
      (now - start) % p.endValue.toNat + p.dutyCycle2.toNat + p.deadBand1.toNat ≤
        p.endValue.toNat + (now - read))
    ⟨fun h => ⟨h.1, h.2.1, h.2.2⟩, fun h => ⟨h.1, h.2, h.3⟩⟩

/-- The second channel is started at a time of the first one's period that has room for its pulse
and for the dead bands, unless one of the two has no pulses. -/
def Kept (p : Param) (s : State) (e : Event) : Prop :=
  s.pc = .enable .second → p.dutyCycle1 = 0 ∨ p.dutyCycle2 = 0 ∨
    ∀ start ∈ s.board.started p.channelNum1, InWindow p start s.read (s.now + e.lag)

instance (p : Param) (s : State) (e : Event) : Decidable (Kept p s e) :=
  inferInstanceAs (Decidable (_ → _))

/-- The target of the second delay and the timer do not wrap, the delay is not given up, and there
is room for what comes late. -/
def Timely (p : Param) (s : State) (e : Event) : Prop :=
  match s.pc with
  | .slot1Read .second =>
    (timerAt (s.now + e.lag)).toNat + p.dutyCycle1.toNat + p.deadBand1.toNat < 2 ^ 32
  | .slot2Read .second t i =>
    (s.now + e.lag) / 2 ^ 32 = s.read / 2 ^ 32 ∧
      (timerAt (s.now + e.lag) ≥ t ∨ ¬ i + 1 > timeOut)
  | .enable .second => ∀ start ∈ s.board.started p.channelNum1,
    s.now + e.lag + p.dutyCycle2.toNat ≤ start + p.endValue.toNat ∧
      s.read + p.dutyCycle2.toNat + p.deadBand1.toNat ≤ start + p.endValue.toNat
  | _ => True

end Law

end BdkRtt.Driver.ExclusivePwm
