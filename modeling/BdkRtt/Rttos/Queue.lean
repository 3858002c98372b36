import Mathlib.Algebra.Group.Nat.Defs
import BdkRtt.Lib.Machine
import BdkRtt.Lib.Mem

universe u

namespace BdkRtt.Rttos.Queue

open Lib

abbrev Message := List UInt8

def rtTickPerSecond : Int32 := 1000

/-- `rt_tick_from_millisecond`; a negative time is `RT_WAITING_FOREVER`. -/
def rtTickFromMillisecond (ms : Int32) : Int32 :=
  if ms < 0 then -1 else (rtTickPerSecond * ms + 999) / 1000

/-- What a thread has left of its time after it has slept for `slept` ticks. -/
def timeLeft (time : Int32) (slept : UInt32) : Int32 :=
  if 0 < time then
    if time - slept.toInt32 < 0 then 0 else time - slept.toInt32
  else time

/-- `message_size` and `number_of_messages`, of which the mailbox keeps 16 bits. -/
structure Layout where
  messageSize : Nat
  numberOfMessages : Nat
  pos : 0 < numberOfMessages
  fits : numberOfMessages < 2 ^ 16

/-- What the first word of a block, and the head of the list of blocks, can point to. -/
inductive Word
  | null
  | block (b : Nat)
  | mempool
  deriving DecidableEq

/-- `struct rt_mempool`, with the first word of each block. -/
structure Mempool where
  blockFreeCount : Nat
  blockList : Word
  link : Nat → Word
  suspendThreadCount : UInt32

/-- The block at the head of the list is given out, with its first word to the pool. -/
def Mempool.take (mp : Mempool) (b : Nat) : Mempool :=
  { mp with
    blockFreeCount := mp.blockFreeCount - 1
    blockList := mp.link b
    link := Function.update mp.link b .mempool }

/-- A block is linked into the list. -/
def Mempool.put (mp : Mempool) (b : Nat) : Mempool :=
  { mp with
    blockFreeCount := mp.blockFreeCount + 1
    blockList := .block b
    link := Function.update mp.link b mp.blockList }

def Mempool.setSuspendThreadCount (mp : Mempool) (n : UInt32) : Mempool :=
  { mp with suspendThreadCount := n }

/-- `struct rt_mailbox`, whose mails are blocks. -/
structure Mailbox where
  entry : Nat
  inOffset : Nat
  outOffset : Nat
  msgPool : Mem Nat

/-- An offset into the mailbox goes one on. -/
def nextOffset (l : Layout) (offset : Nat) : Nat :=
  if l.numberOfMessages ≤ offset + 1 then 0 else offset + 1

def Mailbox.put (l : Layout) (mb : Mailbox) (b : Nat) : Mailbox :=
  { mb with
    msgPool := mb.msgPool.write mb.inOffset [b]
    inOffset := nextOffset l mb.inOffset
    entry := mb.entry + 1 }

def Mailbox.take (l : Layout) (mb : Mailbox) : Mailbox :=
  { mb with
    outOffset := nextOffset l mb.outOffset
    entry := mb.entry - 1 }

/-- The lists of suspended threads: the pool's, the senders' and the receivers'. -/
inductive Wait
  | block | sender | receiver
  deriving DecidableEq

/-- The calls in which a thread may be suspended. -/
inductive Call
  | mpAlloc (msg : Message) (ticks : Int32)
  | mbSendWait (block : Nat)
  | mbRecv
  deriving DecidableEq

def Call.wait : Call → Wait
  | .mpAlloc .. => .block
  | .mbSendWait _ => .sender
  | .mbRecv => .receiver

/-- Where a thread is in `rtos_push_to_queue` or `rtos_pop_from_queue`: in front of a section
with interrupts off, suspended, or between two bytes of a `memcpy`. -/
inductive Phase
  | idle
  | enters (call : Call) (time : Int32)
  | suspended (call : Call) (time : Int32)
  | resumed (call : Call) (time : Int32)
  | copies (msg : Message) (ticks : Int32) (block : Nat) (done : Nat)
  | undoes (block : Nat)
  | takes (block : Nat) (got : Message)
  | frees (block : Nat) (got : Message)
  deriving DecidableEq

/-- `struct beken_queue` with its pool and mailbox, and the threads that use it. -/
structure State (π : Type u) where
  mp : Mempool
  data : Nat → Mem UInt8
  mb : Mailbox
  lists : Wait → List π
  phase : π → Phase

inductive Event (π : Type u)
  | push (p : π) (msg : Message) (timeoutMs : UInt32)
  | pop (p : π) (timeoutMs : UInt32)
  | runs (p : π) (slept : UInt32)
  | timesOut (p : π)
  | isEmpty
  | isFull

inductive Reply
  | called | suspended | allocated | copied | full | sent | received | refused | empty
  | popped (msg : Message)
  | timedOut (w : Wait)
  | truth (b : Bool)
  deriving DecidableEq

/-- `rt_mp_create`: each block leads to the next one. -/
def rtMpCreate (l : Layout) : Mempool where
  blockFreeCount := l.numberOfMessages
  blockList := .block 0
  link b := if b + 1 = l.numberOfMessages then .null else .block (b + 1)
  suspendThreadCount := 0

def rtMbCreate : Mailbox := ⟨0, 0, 0, fun _ => 0⟩

section Threads

variable {π : Type u} [DecidableEq π]

/-- `rtos_init_queue`. -/
def rtosInitQueue (l : Layout) : State π where
  mp := rtMpCreate l
  data _ _ := 0
  mb := rtMbCreate
  lists _ := []
  phase _ := .idle

def State.goes (s : State π) (p : π) (ph : Phase) : State π :=
  { s with phase := Function.update s.phase p ph }

/-- `rt_thread_suspend` and the insertion into the list: the pool's list is last in, first
out, those of the mailbox are first in, first out. -/
def State.suspend (s : State π) (p : π) (c : Call) (time : Int32) : State π :=
  let q := s.lists c.wait
  { s with
    lists := Function.update s.lists c.wait
      (if c.wait = .block then p :: q else q ++ [p])
    phase := Function.update s.phase p (.suspended c time) }

/-- The thread is taken off the list that it is in. -/
def State.unlist (s : State π) (p : π) : State π :=
  { s with lists := fun w => (s.lists w).erase p }

/-- `rt_thread_resume`. -/
def State.rtThreadResume (s : State π) (q : π) : State π :=
  match s.phase q with
  | .suspended c time => (s.unlist q).goes q (.resumed c time)
  | _ => s

/-- `rt_mp_alloc` from where interrupts go off, with `time` left. -/
def rtMpAlloc (s : State π) (p : π) (msg : Message) (ticks time : Int32) :
    Option (State π × Reply) :=
  if s.mp.blockFreeCount = 0 then
    if time = 0 then some (s.goes p .idle, .refused)
    else
      let mp := s.mp.setSuspendThreadCount (s.mp.suspendThreadCount + 1)
      some ({ s with mp }.suspend p (.mpAlloc msg ticks) time, .suspended)
  else
    match s.mp.blockList with
    | .block b =>
      some ({ s with mp := s.mp.take b }.goes p (.copies msg ticks b 0), .allocated)
    | _ => none

/-- `rt_mp_free`.  With the count above zero it takes what the list leads to for a thread. -/
def rtMpFree (s : State π) (b : Nat) : Option (State π) :=
  if s.mp.link b = .mempool then
    if 0 < s.mp.suspendThreadCount then
      match s.lists .block with
      | [] => none
      | q :: _ =>
        let mp := (s.mp.put b).setSuspendThreadCount (s.mp.suspendThreadCount - 1)
        some ({ s with mp }.rtThreadResume q)
    else some { s with mp := s.mp.put b }
  else none

/-- The resumption at the end of `rt_mb_send_wait` and `rt_mb_recv`. -/
def State.wakeFirst (s : State π) (w : Wait) : State π :=
  match s.lists w with
  | [] => s
  | q :: _ => s.rtThreadResume q

/-- `rt_mb_send_wait` from where interrupts go off. -/
def rtMbSendWait (l : Layout) (s : State π) (p : π) (b : Nat) (time : Int32) :
    State π × Reply :=
  if s.mb.entry = l.numberOfMessages then
    if time = 0 then (s.goes p (.undoes b), .full)
    else (s.suspend p (.mbSendWait b) time, .suspended)
  else
    (({ s with mb := s.mb.put l b }.goes p .idle).wakeFirst .receiver, .sent)

/-- `rt_mb_recv` from where interrupts go off. -/
def rtMbRecv (l : Layout) (s : State π) (p : π) (time : Int32) : State π × Reply :=
  if s.mb.entry = 0 then
    if time = 0 then (s.goes p .idle, .empty)
    else (s.suspend p .mbRecv time, .suspended)
  else
    let b := s.mb.msgPool s.mb.outOffset
    (({ s with mb := s.mb.take l }.goes p (.takes b [])).wakeFirst .sender, .received)

def Call.run (l : Layout) (s : State π) (p : π) (time : Int32) :
    Call → Option (State π × Reply)
  | .mpAlloc msg ticks => rtMpAlloc s p msg ticks time
  | .mbSendWait b => some (rtMbSendWait l s p b time)
  | .mbRecv => some (rtMbRecv l s p time)

/-- The next step of a thread that can run. -/
def State.run (l : Layout) (s : State π) (p : π) (slept : UInt32) : Option (State π × Reply) :=
  match s.phase p with
  | .idle | .suspended .. => none
  | .enters c time => c.run l s p time
  | .resumed c time => c.run l s p (timeLeft time slept)
  | .copies msg ticks b k =>
    if h : k < msg.length then
      let data := Function.update s.data b ((s.data b).write k [msg[k]])
      some ({ s with data }.goes p (.copies msg ticks b (k + 1)), .copied)
    else some (s.goes p (.enters (.mbSendWait b) ticks), .called)
  | .takes b got =>
    if got.length < l.messageSize then
      some (s.goes p (.takes b (got ++ [s.data b got.length])), .copied)
    else some (s.goes p (.frees b got), .called)
  | .undoes b => (rtMpFree s b).map fun t => (t.goes p .idle, .refused)
  | .frees b got => (rtMpFree s b).map fun t => (t.goes p .idle, .popped got)

/-- `rt_thread_timeout`, and the way out of the call with the error. -/
def State.rtThreadTimeout (s : State π) (p : π) : Call → State π
  | .mbSendWait b => (s.unlist p).goes p (.undoes b)
  | _ => (s.unlist p).goes p .idle

/-- `none` also where the code goes on with something that is not a thread. -/
def step (l : Layout) (s : State π) : Event π → Option (State π × Reply)
  | .push p msg timeoutMs =>
    if s.phase p = .idle ∧ msg.length = l.messageSize then
      let ticks := rtTickFromMillisecond timeoutMs.toInt32
      some (s.goes p (.enters (.mpAlloc msg ticks) ticks), .called)
    else none
  | .pop p timeoutMs =>
    if s.phase p = .idle then
      some (s.goes p (.enters .mbRecv (rtTickFromMillisecond timeoutMs.toInt32)), .called)
    else none
  | .runs p slept => s.run l p slept
  | .timesOut p =>
    match s.phase p with
    | .suspended c time =>
      if 0 < time then some (s.rtThreadTimeout p c, .timedOut c.wait) else none
    | _ => none
  | .isEmpty => some (s, .truth (s.mb.entry = 0))
  | .isFull => some (s, .truth (s.mb.entry = l.numberOfMessages))

def machine (l : Layout) (π : Type u) [DecidableEq π] : Machine (State π) (Event π) Reply where
  init := rtosInitQueue l
  step := step l

end Threads

end BdkRtt.Rttos.Queue
