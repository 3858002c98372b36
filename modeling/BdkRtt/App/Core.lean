import BdkRtt.Lib.Machine

namespace BdkRtt.App

open Lib

def coreQitemCount : Nat := 64

inductive BmsgType
  | null | rx | tx | ioctl | sktTx | media | txing | staPs | txRaw | txRawCb | rxLsig
  deriving DecidableEq

structure BusMsg where
  type : BmsgType
  arg : UInt32
  deriving DecidableEq

structure IoQueue where
  msgs : List BusMsg
  bounded : msgs.length ≤ coreQitemCount
  deriving DecidableEq

def IoQueue.empty : IoQueue := ⟨[], Nat.zero_le _⟩

/-- `rtos_push_to_queue`: a full queue refuses the message. -/
def rtosPushToQueue (q : IoQueue) (msg : BusMsg) : Option IoQueue :=
  if h : q.msgs.length < coreQitemCount then
    some
      { msgs := q.msgs ++ [msg]
        bounded := by rw [List.length_append]; exact h }
  else none

/-- `rtos_pop_from_queue`; with the queue empty it waits. -/
def rtosPopFromQueue (q : IoQueue) : Option (BusMsg × IoQueue) :=
  match q with
  | ⟨[], _⟩ => none
  | ⟨msg :: msgs, h⟩ => some (msg, ⟨msgs, Nat.le_of_succ_le h⟩)

/-- Where `core_thread_main` is: at the pop, in front of the handler of a message, or in
`bmsg_rx_handler` between the count down and `rxl_cntrl_evt`. -/
inductive CoreThread
  | waits
  | popped (msg : BusMsg)
  | counted (arg : UInt32)
  deriving DecidableEq

/-- `raised` holds the calls of `bmsg_rx_sender` that have raised the count and not yet
pushed their message. -/
structure WifiCore where
  ioQueue : IoQueue
  bmsgRxCount : Int
  raised : List UInt32
  core : CoreThread
  deriving DecidableEq

inductive Event
  | rxSenderEnters (arg : UInt32)
  | rxSenderPushes (i : Nat)
  | otherSender (msg : BusMsg)
  | pops
  | countsDown
  | rxlCntrlEvt
  | otherHandler
  deriving DecidableEq

inductive Reply
  | dropped | raised | pushed | lost | refused | done
  | evt (arg : UInt32)
  deriving DecidableEq

/-- The critical section of `bmsg_rx_sender`. -/
def rxSenderEnters (s : WifiCore) (arg : UInt32) : WifiCore × Reply :=
  if 2 ≤ s.bmsgRxCount then (s, .dropped)
  else ({ s with bmsgRxCount := s.bmsgRxCount + 1, raised := s.raised ++ [arg] }, .raised)

/-- The push of `bmsg_rx_sender`, which only reports that it failed. -/
def rxSenderPushes (s : WifiCore) (i : Nat) : Option (WifiCore × Reply) :=
  match s.raised[i]? with
  | none => none
  | some arg =>
    match rtosPushToQueue s.ioQueue ⟨.rx, arg⟩ with
    | some q => some ({ s with ioQueue := q, raised := s.raised.eraseIdx i }, .pushed)
    | none => some ({ s with raised := s.raised.eraseIdx i }, .lost)

def otherSender (s : WifiCore) (msg : BusMsg) : Option (WifiCore × Reply) :=
  if msg.type = .rx then none
  else
    match rtosPushToQueue s.ioQueue msg with
    | some q => some ({ s with ioQueue := q }, .pushed)
    | none => some (s, .refused)

/-- The critical section of `bmsg_rx_handler`. -/
def countsDown (s : WifiCore) (arg : UInt32) : WifiCore :=
  { s with
    bmsgRxCount := if 0 < s.bmsgRxCount then s.bmsgRxCount - 1 else s.bmsgRxCount
    core := .counted arg }

/-- The senders and the core thread, each taken as far as the others can see. -/
def wifiCoreStep (s : WifiCore) : Event → Option (WifiCore × Reply)
  | .rxSenderEnters arg => some (rxSenderEnters s arg)
  | .rxSenderPushes i => rxSenderPushes s i
  | .otherSender msg => otherSender s msg
  | .pops =>
    match s.core, rtosPopFromQueue s.ioQueue with
    | .waits, some (msg, q) => some ({ s with ioQueue := q, core := .popped msg }, .done)
    | _, _ => none
  | .countsDown =>
    match s.core with
    | .popped ⟨.rx, arg⟩ => some (countsDown s arg, .done)
    | _ => none
  | .rxlCntrlEvt =>
    match s.core with
    | .counted arg => some ({ s with core := .waits }, .evt arg)
    | _ => none
  | .otherHandler =>
    match s.core with
    | .popped msg => if msg.type = .rx then none else some ({ s with core := .waits }, .done)
    | _ => none

def wifiCore : Machine WifiCore Event Reply where
  init := ⟨.empty, 0, [], .waits⟩
  step := wifiCoreStep

end BdkRtt.App
