import BdkRtt.Lib.Machine

namespace BdkRtt.Driver

open Lib

/-- `IR_KEY_TYPE_SHORT` and the others. -/
inductive KeyType
  | short
  | long
  | hold
  deriving DecidableEq

/-- What `GENERATE_KEY` packs into a message. -/
structure KeyMsg where
  type : KeyType
  code : UInt8
  deriving DecidableEq

/-- `IR_KEY_ST` without its queue, the static `hold_flag` of the timer handler, and whether the
timer runs. -/
structure IrKey where
  validFlag : Bool
  keyCode : UInt8
  repeatFlag : Bool
  repeatCnt : UInt8
  timerCnt : UInt8
  holdFlag : Bool
  timer : Bool

/-- The bits of `IRDA_INT` at an interrupt and the word in the receive fifo.  `foreign` is not
read by the code: it says that the frame comes from another remote. -/
structure IrInt where
  rightInt : Bool
  endInt : Bool
  repeatInt : Bool
  fifo : UInt32
  foreign : Bool

def IrInt.key (i : IrInt) : UInt8 := ((i.fifo &&& 0xff0000) >>> 16).toUInt8

/-- The user code and the inverted key code are right. -/
def IrInt.Accepts (irUserCode : UInt16) (i : IrInt) : Prop :=
  i.fifo &&& 0xffff = irUserCode.toUInt32 ∧
    (((i.fifo &&& 0xff000000) >>> 24) ^^^ ((i.fifo &&& 0xff0000) >>> 16)) = 0xff

instance (irUserCode : UInt16) (i : IrInt) : Decidable (i.Accepts irUserCode) :=
  inferInstanceAs (Decidable (_ ∧ _))

def IrKey.leader (s : IrKey) : IrKey :=
  { s with validFlag := true, repeatFlag := false, repeatCnt := 0 }

def IrKey.repeated (s : IrKey) : IrKey :=
  { s with repeatFlag := true, repeatCnt := s.repeatCnt + 1 }

/-- `irda_isr`, and whether it has accepted a code. -/
def irdaIsr (irUserCode : UInt16) (s : IrKey) (i : IrInt) : IrKey × Bool :=
  let s := if i.rightInt then s.leader else s
  if i.endInt ∧ s.validFlag then
    if i.Accepts irUserCode then
      let s := { s with keyCode := i.key, timerCnt := 0, timer := true }
      (if i.repeatInt then s.repeated else s, true)
    else ({ s with validFlag := false }, false) -- returns before the repeat bit
  else (if i.repeatInt then s.repeated else s, false)

def keyShortCnt : UInt8 := 3
def keyLongCnt : UInt8 := 8
def keyHoldCnt : UInt8 := 11

/-- `irda_key_timer_hdl`, with the type of the message it sends. -/
def irdaKeyTimerHdl (s : IrKey) : IrKey × Option KeyType :=
  let timerCnt := s.timerCnt + 1
  if timerCnt > s.repeatCnt then
    let stopped := { s with timerCnt := timerCnt, holdFlag := false, timer := false }
    if s.repeatCnt < keyShortCnt then (stopped, some .short)
    else if s.repeatCnt < keyLongCnt then (stopped, some .long)
    else if s.holdFlag then (stopped, none)
    else (stopped, some .hold)
  else if s.repeatCnt ≥ keyHoldCnt then
    ({ s with holdFlag := true, repeatCnt := keyLongCnt, timerCnt := keyLongCnt }, some .hold)
  else ({ s with timerCnt := timerCnt }, none)

inductive IrEvent
  | isr (i : IrInt)
  | timer

def IrEvent.Foreign : IrEvent → Prop
  | .isr i => i.foreign = true
  | .timer => False

inductive IrAnswer
  | isr (accepted : Bool)
  | timer (sent : Option KeyMsg) (stopped : Bool)

/-- The state with what an observer notes: whether hold was reported for the press. -/
structure IrRun where
  key : IrKey
  reported : Bool

/-- A frame with this remote's codes is not from another one, and a timer that is stopped does
not expire. -/
def irStep (irUserCode : UInt16) (s : IrRun) : IrEvent → Option (IrRun × IrAnswer)
  | .isr i =>
    if i.foreign ∧ i.Accepts irUserCode then none
    else
      let r := irdaIsr irUserCode s.key i
      some ({ key := r.1, reported := if r.2 then false else s.reported }, .isr r.2)
  | .timer =>
    if s.key.timer then
      let r := irdaKeyTimerHdl s.key
      some ({ key := r.1, reported := s.reported || (r.1.timer && r.2.isSome) },
        .timer (r.2.map fun type => ⟨type, s.key.keyCode⟩) (!r.1.timer))
    else none

/-- `Irda_init_app`; the structure is static and starts with zeros. -/
def irda (irUserCode : UInt16) : Machine IrRun IrEvent IrAnswer where
  init :=
    { key :=
        { validFlag := false
          keyCode := 0
          repeatFlag := false
          repeatCnt := 0
          timerCnt := 0
          holdFlag := false
          timer := false }
      reported := false }
  step := irStep irUserCode

end BdkRtt.Driver
