import BdkRtt.Lib.Machine

namespace BdkRtt.Wlan.ApIdle

open Lib

section State

/-- The messages of the core thread that are about the idle access point. -/
inductive PsMsg
  | apPsStart | apPsStop | apPsRun
  deriving DecidableEq

/-- An initialised `beken_timer_t`. -/
structure BekenTimer where
  periodMs : UInt32
  running : Bool
  deriving DecidableEq

/-- The variables of the beacon timer, the RF hold bits, whether the MAC is to be idle, and the
queue of the core thread. -/
structure Ap where
  psFakeGlobalApCount : UInt32
  apRfOff : UInt32
  psFakePauseShot : UInt32
  /-- `none` when the timer is not initialised. -/
  psApBcnTimer : Option BekenTimer
  rfHoldStatus : UInt32
  macIdle : Bool
  ioQueue : List PsMsg

def rfHoldByApBit : UInt32 := (1 : UInt32) <<< 3

/-- An access point that has been set up, with the RF hold bits of others as they are. -/
def apUp (hold : UInt32) : Ap where
  psFakeGlobalApCount := 0
  apRfOff := 0
  psFakePauseShot := 0
  psApBcnTimer := none
  rfHoldStatus := hold ||| rfHoldByApBit
  macIdle := false
  ioQueue := []

end State

section Handlers

/-- `RF_HOLD_BY_AP_BIT` is set, and the MAC is set active. -/
def Ap.rfUp (s : Ap) : Ap :=
  { s with rfHoldStatus := s.rfHoldStatus ||| rfHoldByApBit, macIdle := false, apRfOff := 0 }

/-- The MAC is set idle, and `RF_HOLD_BY_AP_BIT` is cleared. -/
def Ap.rfDown (s : Ap) : Ap :=
  { s with rfHoldStatus := s.rfHoldStatus &&& ~~~rfHoldByApBit, macIdle := true, apRfOff := 1 }

/-- `rtos_change_period`, which also starts the timer.  It does not ask whether there is one. -/
def Ap.rtosChangePeriod (s : Ap) (timeMs : UInt32) : Ap :=
  { s with psApBcnTimer := s.psApBcnTimer.map fun _ => { periodMs := timeMs, running := true } }

/-- `ap_ps_do_rf_up` -/
def Ap.apPsDoRfUp (s : Ap) : Ap := if s.apRfOff = 1 then s.rfUp else s

/-- `ap_bcn_timer_real_handler` -/
def Ap.apBcnTimerRealHandler (s : Ap) : Ap :=
  let s :=
    if s.psFakePauseShot = 0 then
      let t :=
        if s.psFakeGlobalApCount = 0 then (s.rtosChangePeriod 5).rfDown
        else if s.psFakeGlobalApCount = 1 then (s.rtosChangePeriod 4).rfUp
        else s
      { t with psFakeGlobalApCount := t.psFakeGlobalApCount + 1 }
    else { s with psFakePauseShot := 0 }
  if s.psFakeGlobalApCount = 2 then { s with psFakeGlobalApCount := 0 } else s

/-- `stop_global_ap_bcn_timer` -/
def Ap.stopGlobalApBcnTimer (s : Ap) : Ap := { s.rfUp with psApBcnTimer := none }

/-- `start_global_ap_bcn_timer`; `created` says whether there is memory for the timer. -/
def Ap.startGlobalApBcnTimer (s : Ap) (created : Bool) : Ap :=
  { s.stopGlobalApBcnTimer with
    psApBcnTimer := if created then some { periodMs := 5, running := true } else none }

end Handlers

section Machine

inductive Event
  /-- `start_ap_idle_timer_msg` or `ap_idle_stop` sends a message. -/
  | send (msg : PsMsg)
  /-- `ap_bcn_timer_handler`; `pushed` says whether the queue has room. -/
  | apBcnTimerHandler (pushed : Bool)
  /-- The core thread handles the next message; `created` is for `AP_PS_START`. -/
  | psMsgProcess (created : Bool)
  | apPsDoRfUp
  | apBcnTimerPauseOneShotSet (value : UInt32)

/-- The message that was handled, and whether a timer that is not initialised was started for it. -/
structure Answer where
  handled : Option PsMsg
  onNull : Bool
  deriving DecidableEq

def Answer.done : Answer where
  handled := none
  onNull := false

/-- `ps_msg_process` -/
def Ap.psMsgProcess (s : Ap) (created : Bool) : PsMsg → Ap × Answer
  | .apPsStart => (s.startGlobalApBcnTimer created, { handled := some .apPsStart, onNull := false })
  | .apPsStop => (s.stopGlobalApBcnTimer, { handled := some .apPsStop, onNull := false })
  | .apPsRun =>
    (s.apBcnTimerRealHandler,
      { handled := some .apPsRun
        onNull := s.psFakePauseShot = 0 && s.psFakeGlobalApCount < 2 && s.psApBcnTimer.isNone })

def Ap.step (s : Ap) : Event → Option (Ap × Answer)
  | .send msg =>
    -- `AP_PS_RUN` is only sent by the timer
    if msg = .apPsRun then none else some ({ s with ioQueue := s.ioQueue ++ [msg] }, .done)
  | .apBcnTimerHandler pushed =>
    if s.psApBcnTimer.any (·.running) then
      some (if pushed then { s with ioQueue := s.ioQueue ++ [.apPsRun] } else s, .done)
    else none
  | .psMsgProcess created =>
    match s.ioQueue with
    | [] => none
    | msg :: rest => some ({ s with ioQueue := rest }.psMsgProcess created msg)
  | .apPsDoRfUp => some (s.apPsDoRfUp, .done)
  | .apBcnTimerPauseOneShotSet value => some ({ s with psFakePauseShot := value }, .done)

def apIdle (hold : UInt32) : Machine Ap Event Answer where
  init := apUp hold
  step := Ap.step

end Machine

end BdkRtt.Wlan.ApIdle
