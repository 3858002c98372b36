import BdkRtt.Lib.Machine

namespace BdkRtt.Saradc

open Lib

/-- `ADC_TMEP_DETECT_INTVAL`, in seconds. -/
def adcTmepDetectIntval : UInt32 := 15

def adcTmepDetectIntvalInit : UInt16 := 1
def adcTmepDetectIntvalChange : UInt32 := 120
def adcTmepDistIntialVal : UInt32 := 0

/-- `ADC_TMEP_LSB_PER_10DEGREE * ADC_TMEP_10DEGREE_PER_DBPWR`. -/
def adcTmepThre : UInt32 := 20 * 1

def tempDetQitemCount : Nat := 5

/-- The messages of the detection thread.  Nothing sends `TMPD_EXIT`. -/
inductive TempMsg
  | pauseTimer | restartTimer | changeParam | timerPoll | intPoll
  deriving DecidableEq

/-- Where the detection thread is: waiting for a message, in `temp_detect_enable` before it
stops the timer and before it opens the converter, behind an open that failed, or in
`temp_detect_polling_handler`. -/
inductive TempThread
  | waits | enables | opens | reloads | polls
  deriving DecidableEq

/-- What others see of the detection. -/
inductive TempAct
  | startsAdc
  | manualCalTmpPwrInit (initialData thre dist : UInt16)
  deriving DecidableEq

/-- The detection: its queue, whether its timer is running and whether `tmp_detect_hdl` is
valid, which it is while a conversion is under way; `paused` is whether the last call of
`temp_detect_pause_timer` or `temp_detect_restart_detect` was one of the first. -/
structure TempDetect where
  queue : List TempMsg
  timer : Bool
  hdl : Bool
  thread : TempThread
  detectIntval : UInt16
  detectIntvalChange : UInt32
  detectThre : UInt16
  distInital : UInt16
  initalData : UInt16
  paused : Bool
  deriving DecidableEq

/-- `temp_detect_send_msg`, which drops the message when the queue is full. -/
def tempDetectSendMsg (s : TempDetect) (m : TempMsg) : TempDetect :=
  if s.queue.length < tempDetQitemCount then { s with queue := s.queue ++ [m] } else s

def tempDetectPauseTimer (s : TempDetect) : TempDetect :=
  let s := { s with paused := true }
  if s.timer then tempDetectSendMsg s .pauseTimer else s

def tempDetectRestartDetect (s : TempDetect) : TempDetect :=
  let s := { s with paused := false }
  if s.timer then s else tempDetectSendMsg s .restartTimer

/-- The interval `temp_detect_change_configuration` compares with the current one. -/
def intvalOr (intval : UInt32) : UInt32 := if intval = 0 then adcTmepDetectIntval else intval

/-- `temp_detect_change_configuration`.  Only with another interval does it start the timer. -/
def tempDetectChangeConfiguration (s : TempDetect) (intval thre dist : UInt32) :
    TempDetect × List TempAct :=
  let intval := intvalOr intval
  let thre := if thre = 0 then adcTmepThre else thre
  let dist := if dist = 0 then adcTmepDistIntialVal else dist
  let changes := s.detectThre.toUInt32 ≠ thre ∨ s.distInital.toUInt32 ≠ dist
  let s := { s with detectThre := thre.toUInt16, distInital := dist.toUInt16 }
  (if s.detectIntval.toUInt32 ≠ intval then
      { s with detectIntval := intval.toUInt16, timer := true }
    else s,
    if changes then [.manualCalTmpPwrInit s.initalData s.detectThre s.distInital] else [])

/-- `temp_detect_main` with the message it has taken from its queue. -/
def tempDetectTakes (s : TempDetect) : TempMsg → TempDetect × List TempAct
  | .pauseTimer => ({ s with timer := false }, [])
  | .restartTimer => ({ s with timer := true }, [])
  | .changeParam =>
    tempDetectChangeConfiguration s adcTmepDetectIntval s.detectThre.toUInt32
      adcTmepDistIntialVal
  | .timerPoll => (if s.hdl then s else { s with thread := .enables }, [])
  | .intPoll =>
    ({ s with thread := .polls, detectIntvalChange := s.detectIntvalChange + 1 }, [])

/-- The next part of what the detection thread is doing; `opened` is whether
`temp_detect_open` succeeds. -/
def tempThreadContinues (s : TempDetect) (opened : Bool) : Option (TempDetect × List TempAct) :=
  match s.thread with
  | .waits =>
    match s.queue with
    | [] => none
    | m :: queue => some (tempDetectTakes { s with queue := queue } m)
  | .enables => some ({ s with timer := false, thread := .opens }, [])
  | .opens =>
    if opened then some ({ s with hdl := true, thread := .waits }, [.startsAdc])
    else some ({ s with thread := .reloads }, [])
  | .reloads => some ({ s with timer := true, thread := .waits }, [])
  | .polls =>
    let s := { s with thread := .waits }
    some (if s.detectIntvalChange = adcTmepDetectIntvalChange then
        tempDetectSendMsg s .changeParam
      else { s with timer := true }, [])

inductive TempEvent
  | timerExpires
  | converted
  | pauseTimer
  | restartDetect
  | changeConfiguration (intval thre dist : UInt32)
  | threadContinues (opened : Bool)
  deriving DecidableEq

/-- The detection as `temp_detect_main` has set it up.  Each call from outside, each expiry of
the timer and each completion of a conversion is one step, and can come between any two parts
of what the thread does. -/
def tempDetect (initVal : UInt16) : Machine TempDetect TempEvent (List TempAct) where
  init :=
    { queue := [], timer := true, hdl := false, thread := .waits,
      detectIntval := adcTmepDetectIntvalInit, detectIntvalChange := 0,
      detectThre := adcTmepThre.toUInt16, distInital := adcTmepDistIntialVal.toUInt16,
      initalData := initVal + adcTmepDistIntialVal.toUInt16, paused := false }
  step s e :=
    match e with
    | .timerExpires => if s.timer then some (tempDetectSendMsg s .timerPoll, []) else none
    | .converted =>
      if s.hdl then some (tempDetectSendMsg { s with hdl := false } .intPoll, []) else none
    | .pauseTimer => some (tempDetectPauseTimer s, [])
    | .restartDetect => some (tempDetectRestartDetect s, [])
    | .changeConfiguration intval thre dist =>
      some (tempDetectChangeConfiguration s intval thre dist)
    | .threadContinues opened => tempThreadContinues s opened

end BdkRtt.Saradc
