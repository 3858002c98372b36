import BdkRtt.Lib.Machine
import BdkRtt.Lib.Walk

namespace BdkRtt.Wlan.RwMsg

open Lib

section State

/-- A message for the application. -/
structure KeMsg where
  id : UInt16
  param : List UInt8
  /-- The request that the message confirms.  The code knows the `id` only. -/
  answers : Option Nat
  deriving DecidableEq

/-- Where `rw_msg_send` is. -/
inductive Sender
  /-- Not called yet. -/
  | absent
  /-- The node is pushed, the request is not. -/
  | listed
  /-- The request is pushed, and `rtos_get_semaphore` waits. -/
  | sent
  /-- The semaphore is given. -/
  | answered
  /-- `rtos_get_semaphore` failed. -/
  | timedOut
  /-- At `failed_or_timeout`. -/
  | failed
  /-- The node is freed, and the call returns with 0 or -1. -/
  | freed (ret : Int)
  deriving DecidableEq

/-- `MSG_SND_NODE_ST` and the call of `rw_msg_send` that it belongs to. -/
structure MsgSndNode where
  reqid : UInt16
  /-- The buffer at `cfm`. -/
  cfm : List UInt8
  semaphore : Nat
  sender : Sender

/-- Where `rwnx_recv_msg` is: in front of `co_list_pop_front`; then, with the message popped, in
front of `co_list_pick`; at the top of the walk, with `tx_node`; in front of `co_list_next`; and
with the node found in front of the two extractions, of the copy and of `rtos_set_semaphore`. -/
inductive Recv
  | idle
  | popped (rxMsg : KeMsg)
  | atNode (rxMsg : KeMsg) (txNode : Option Nat)
  | passing (rxMsg : KeMsg) (txNode : Nat)
  | found (rxMsg : KeMsg) (txNode : Nat)
  | extracted (rxMsg : KeMsg) (txNode : Nat)
  | copied (rxMsg : KeMsg) (txNode : Nat)

/-- `rw_msg_tx_head`, `rw_msg_rx_head`, the threads in `rw_msg_send`, the one in `rwnx_recv_msg`,
and the requests that the firmware has yet to confirm. A node goes by the number of its request, so
that an address that is given out again is another node. -/
structure Msgs where
  txHead : Links Nat
  rxHead : List KeMsg
  nodes : Nat → MsgSndNode
  recv : Recv
  requests : List Nat

def initial : Msgs where
  txHead := .empty
  rxHead := []
  nodes := fun _ => { reqid := 0, cfm := [], semaphore := 0, sender := .absent }
  recv := .idle
  requests := []

def Msgs.setNode (s : Msgs) (n : Nat) (x : MsgSndNode) : Msgs :=
  { s with nodes := Function.update s.nodes n x }

def Msgs.setSender (s : Msgs) (n : Nat) (x : Sender) : Msgs :=
  s.setNode n { s.nodes n with sender := x }

def Sender.isFreed : Sender → Bool
  | .freed _ => true
  | _ => false

end State

section Send

/-- `rw_msg_send` up to the end of its first critical section. -/
def Msgs.rwMsgSend (s : Msgs) (n : Nat) (reqid : UInt16) (cfm : List UInt8) (malloc : Bool) :
    Option Msgs :=
  if (s.nodes n).sender ≠ .absent then none
  else if !malloc then some s
  else
    let s := s.setNode n { reqid, cfm, semaphore := 0, sender := .listed }
    some { s with txHead := s.txHead.pushBack n }

/-- `bmsg_ioctl_sender`; `pushed` says whether the queue has room. -/
def Msgs.bmsgIoctlSender (s : Msgs) (n : Nat) (pushed : Bool) : Option Msgs :=
  if (s.nodes n).sender ≠ .listed then none
  else if pushed then some { s.setSender n .sent with requests := s.requests ++ [n] }
  -- the node stays in `rw_msg_tx_head`
  else some (s.setSender n .failed)

/-- `rtos_get_semaphore` gets the semaphore. -/
def Msgs.getSemaphore (s : Msgs) (n : Nat) : Option Msgs :=
  let x := s.nodes n
  if x.sender ≠ .sent ∨ x.semaphore = 0 then none
  else some (s.setNode n { x with semaphore := x.semaphore - 1, sender := .answered })

/-- `rtos_get_semaphore` has waited for 5 s. -/
def Msgs.timeout (s : Msgs) (n : Nat) : Option Msgs :=
  let x := s.nodes n
  if x.sender ≠ .sent ∨ x.semaphore ≠ 0 then none else some (s.setSender n .timedOut)

/-- `co_list_extract` after the timeout. -/
def Msgs.extract (s : Msgs) (n : Nat) : Option Msgs :=
  if (s.nodes n).sender ≠ .timedOut then none
  else
    let s := s.setSender n .failed
    some { s with txHead := s.txHead.extract n }

/-- `rtos_deinit_semaphore` and `os_free`, on each of the ways out. -/
def Msgs.osFree (s : Msgs) (n : Nat) : Option Msgs :=
  match (s.nodes n).sender with
  | .answered => some (s.setSender n (.freed 0))
  | .failed => some (s.setSender n (.freed (-1)))
  | _ => none

end Send

section Receive

inductive Answer
  | done
  /-- The message thread has read or written the node `n`, which is still allocated or not. -/
  | touched (n : Nat) (live : Bool)
  /-- `rxMsg` was copied to the buffer of the request `n`. -/
  | copied (rxMsg : KeMsg) (n : Nat) (live : Bool)
  /-- `rwnx_handle_recv_msg`, for a message that no node wants; `waiting` says whether the node of
  the request that it confirms is in `rw_msg_tx_head`. -/
  | handled (rxMsg : KeMsg) (waiting : Bool)

def Msgs.live (s : Msgs) (n : Nat) : Bool := !(s.nodes n).sender.isFreed

/-- `os_memcpy(tx_msg->cfm, &rx_msg->param[0], rx_msg->param_len)` -/
def memcpy (cfm param : List UInt8) : List UInt8 := param ++ cfm.drop param.length

/-- `rwnx_recv_msg`, up to its next access to what it shares with the senders. -/
def Msgs.rwnxRecvMsg (s : Msgs) : Option (Msgs × Answer) :=
  match s.recv with
  | .idle =>
    match s.rxHead with
    | [] => none
    | m :: ms => some ({ s with rxHead := ms, recv := .popped m }, .done)
  | .popped m => some ({ s with recv := .atNode m s.txHead.elems.head? }, .done)
  | .atNode m none =>
    some ({ s with recv := .idle }, .handled m (m.answers.any fun n => n ∈ s.txHead.elems))
  | .atNode m (some n) =>
    let recv := if m.id = (s.nodes n).reqid then .found m n else .passing m n
    some ({ s with recv := recv }, .touched n (s.live n))
  | .passing m n =>
    some ({ s with recv := .atNode m (s.txHead.next n) }, .touched n (s.live n))
  | .found m n =>
    -- the message is in neither list any more
    some ({ s with txHead := s.txHead.extract n, recv := .extracted m n }, .touched n (s.live n))
  | .extracted m n =>
    let x := s.nodes n
    let s' := { s with recv := .copied m n }
    if m.param.length ≠ 0 then
      some (s'.setNode n { x with cfm := memcpy x.cfm m.param }, .copied m n (s.live n))
    else some (s', .touched n (s.live n))
  | .copied _ n =>
    let x := s.nodes n
    some ({ s with recv := .idle }.setNode n { x with semaphore := x.semaphore + 1 },
      .touched n (s.live n))

end Receive

section Machine

inductive Event
  /-- A thread calls `rw_msg_send` with a buffer. -/
  | rwMsgSend (n : Nat) (reqid : UInt16) (cfm : List UInt8) (malloc : Bool)
  | bmsgIoctlSender (n : Nat) (pushed : Bool)
  | getSemaphore (n : Nat)
  | timeout (n : Nat)
  | extract (n : Nat)
  | osFree (n : Nat)
  /-- The firmware confirms a request, through `mr_kmsg_fwd`. -/
  | confirm (n : Nat) (param : List UInt8)
  /-- A message that confirms no request with a buffer. -/
  | indicate (id : UInt16) (param : List UInt8)
  | rwnxRecvMsg

/-- `mr_kmsg_fwd` -/
def Msgs.mrKmsgFwd (s : Msgs) (m : KeMsg) : Msgs := { s with rxHead := s.rxHead ++ [m] }

def Msgs.confirm (s : Msgs) (n : Nat) (param : List UInt8) : Option Msgs :=
  if n ∈ s.requests then
    some ({ s with requests := s.requests.erase n }.mrKmsgFwd
      { id := (s.nodes n).reqid, param, answers := some n })
  else none

def Msgs.step (s : Msgs) : Event → Option (Msgs × Answer)
  | .rwMsgSend n reqid cfm malloc => (s.rwMsgSend n reqid cfm malloc).map (·, .done)
  | .bmsgIoctlSender n pushed => (s.bmsgIoctlSender n pushed).map (·, .done)
  | .getSemaphore n => (s.getSemaphore n).map (·, .done)
  | .timeout n => (s.timeout n).map (·, .done)
  | .extract n => (s.extract n).map (·, .done)
  | .osFree n => (s.osFree n).map (·, .done)
  | .confirm n param => (s.confirm n param).map (·, .done)
  | .indicate id param => some (s.mrKmsgFwd { id, param, answers := none }, .done)
  | .rwnxRecvMsg => s.rwnxRecvMsg

def rwMsg : Machine Msgs Event Answer where
  init := initial
  step := Msgs.step

end Machine

end BdkRtt.Wlan.RwMsg
