import BdkRtt.Lib.Bytes
import BdkRtt.Lib.Machine
import BdkRtt.Lib.Queues
import Mathlib.Algebra.Group.Nat.Defs

/-! The SDIO transport as it is built with `FOR_SDIO_BLK_512`. -/

namespace BdkRtt.Driver.Sdio

open Lib

def cellCount : Nat := 64
def blockLen : UInt32 := 512 * 8
def maxContentCount : Nat := 15

/-- An entry of `snode`. -/
abbrev NodeId := Fin cellCount

def rxNodeOk : UInt16 := 0x1
def txNodeOk : UInt16 := 0x2
def rxNoNode : UInt16 := 0xA
def txNoNode : UInt16 := 0xB

def opcWrReg : UInt8 := 0xC5
def opcRdReg : UInt8 := 0x5C
def opcWrDtcm : UInt8 := 0xE3
def opcRdDtcm : UInt8 := 0x3E

def h2sRdSync : UInt32 := 1
def h2sWrSync : UInt32 := 2
def s2hRdSync : UInt32 := 3
def s2hWrSync : UInt32 := 4
def h2sRdSpecial : UInt32 := 5
def s2hWrSpecial : UInt32 := 6

section State

/-- The 64 bytes of a command, as `SDIO_CMD_S` and as `SDIO_DCMD_S`.  The registers that `content`
names and their values lie outside the transport. -/
abbrev Cmd := Fin 64 → UInt8

def Cmd.opCode (c : Cmd) : UInt8 := c 0
def Cmd.len (c : Cmd) : UInt8 := c 1
def Cmd.dataLen (c : Cmd) : UInt16 := ofLe16 [c 4, c 5]
def Cmd.startLen (c : Cmd) : UInt16 := ofLe16 [c 6, c 7]
def Cmd.seq (c : Cmd) : UInt8 := c 8
def Cmd.totalSize (c : Cmd) : UInt16 := ofLe16 [c 10, c 11]

/-- `struct _stm32_frame_hdr`, as it lies in a node's buffer. -/
structure FrameHdr where
  len : UInt16
  type : UInt8
  seq : UInt8

/-- `SDIO_NODE_T`; `orig_addr` is the number of the allocation and `addr` a place in it. -/
structure Node where
  origAddr : Option Nat
  addr : Option Nat
  length : UInt32
deriving DecidableEq

/-- The lists of `SDIO_S`. -/
inductive Queue
  | freeNodes
  | txDat
  | txingList
  | rxDat
  | rxingList
deriving DecidableEq

/-- What a command does outside the variables. -/
inductive Access
  /-- A DMA from `offset` on into a buffer of `size` bytes. -/
  | rxDma (offset len size : UInt32)
  /-- A DMA out of a node's buffer. -/
  | txDma (offset len size : UInt32)
  /-- A DMA out of `reg_val`. -/
  | regDma (len : UInt32)
  | content (index : Nat)
  | regVal (index : Nat)
deriving DecidableEq

/-- `SDIO_S` with `beken_tx_sdio_s` and `da_hd_err`, the heap and the DMA. -/
structure State where
  rxStatus : UInt16
  txStatus : UInt16
  tcLen : UInt32
  rcLen : UInt32
  txSeq : UInt8
  rxSeq : UInt8
  rxLen : UInt32
  txLen : UInt32
  rHdlLen : UInt32
  tHdlLen : UInt32
  txTransactionLen : UInt32
  rxTransactionLen : UInt32
  transactionLen : UInt32
  bekenTxSdioS : UInt8
  daHdErr : Bool
  snode : NodeId → Node
  queues : Queues Queue NodeId
  /-- The nodes that drivers have been handed. -/
  hands : List NodeId
  /-- The bit of `sdma_set_tx_valid`. -/
  txValid : Bool
  /-- A DMA has been started whose interrupt is still to come. -/
  txStarted : Bool
  rxStarted : Bool
  /-- How many buffers there have been, and those that have been freed. -/
  buffers : Nat
  freed : List Nat
  /-- The nodes that `OPC_RD_DTCM` has taken from `tx_dat`, and those that have been sent. -/
  taken : List NodeId
  sent : List NodeId
  /-- What the commands have done so far. -/
  accesses : List Access
  /-- An `ASSERT` has failed. -/
  halted : Bool

/-- `user_buf`: for `S2H_WR_SPECIAL` it is a node. -/
inductive UserBuf
  | null
  | bytes
  | node (n : NodeId)
deriving DecidableEq

/-- `malloc` says whether `os_malloc` finds memory in the call. -/
inductive Event
  | cmd (c : Cmd) (malloc : Bool)
  | txDone
  | rxDone (hd : FrameHdr)
  | sdioRead (userBuf : UserBuf) (count opFlag : UInt32)
  | sdioWrite (userBuf : UserBuf) (count opFlag : UInt32) (malloc : Bool)
  | getFreeNode (size : UInt32) (malloc : Bool)
  | pushFreeNode (n : NodeId)

/-- What a call of a driver returns. -/
inductive Answer
  | void
  | failure
  | success
  | length (len : UInt32)
  | node (n : Option NodeId)
deriving DecidableEq

end State

section Nodes

def State.suPushNode (s : State) (p : Queue) (n : NodeId) : State :=
  { s with queues := s.queues.push p n }

def State.suPopNode (s : State) (p : Queue) : Option (NodeId × State) :=
  (s.queues.pop p).map fun x => (x.1, { s with queues := x.2 })

def State.suGetNodeCount (s : State) (p : Queue) : Nat := (s.queues.list p).length

def State.setNode (s : State) (n : NodeId) (x : Node) : State :=
  { s with snode := Function.update s.snode n x }

/-- `os_malloc` for the node. -/
def State.osMalloc (s : State) (n : NodeId) (bufSize : UInt32) : State :=
  { s.setNode n ⟨some s.buffers, some s.buffers, bufSize⟩ with buffers := s.buffers + 1 }

/-- `os_free`, which lets a null pointer be. -/
def State.osFree (s : State) (addr : Option Nat) : State :=
  { s with freed := s.freed ++ addr.toList }

def State.sdioAllocValidNode (s : State) (bufSize : UInt32) (malloc : Bool) :
    Option NodeId × State :=
  if bufSize = 0 then (none, s)
  else match s.suPopNode .freeNodes with
    | none => (none, s)
    | some (n, s) =>
      if malloc then (some n, s.osMalloc n bufSize) else (none, s.suPushNode .freeNodes n)

def State.sdioFreeValidNode (s : State) (n : NodeId) : State :=
  ((s.osFree (s.snode n).origAddr).setNode n ⟨none, none, 0⟩).suPushNode .freeNodes n

end Nodes

section Commands

def State.halt (s : State) : State := { s with halted := true }

/-- `sdma_start_rx` into the node, with its `ASSERT(len)`. -/
def State.sdmaStartRx (s : State) (n : NodeId) (offset len : UInt32) : State :=
  let s := { s with accesses := s.accesses ++ [Access.rxDma offset len (s.snode n).length] }
  if len = 0 then s.halt else { s with rxStarted := true }

/-- `sdma_start_tx`, with its `ASSERT(len)`. -/
def State.sdmaStartTx (s : State) (access : Access) (len : UInt32) : State :=
  let s := { s with accesses := s.accesses ++ [access] }
  if len = 0 then s.halt else { s with txStarted := true }

/-- The size of the buffer for a frame. -/
def mSize (totalSize : UInt16) : UInt32 :=
  if 1024 < totalSize ∧ totalSize ≤ 1536 then 1536
  else if 0 < totalSize ∧ totalSize ≤ 512 then 512
  else if 512 < totalSize ∧ totalSize ≤ 1024 then 1024
  else 2048

/-- The node for `OPC_WR_DTCM`: the one that is being received, or a new one. -/
def State.rxNode (s : State) (c : Cmd) (malloc : Bool) : Option NodeId × State :=
  match s.suPopNode .rxingList with
  | none => s.sdioAllocValidNode (mSize c.totalSize) malloc
  | some (n, s) =>
    if s.rxSeq ≠ c.seq then
      let (n, s) := (s.sdioFreeValidNode n).sdioAllocValidNode (mSize c.totalSize) malloc
      (n, { s with rxSeq := c.seq })
    else (some n, s)

def State.checkSeq (s : State) (c : Cmd) : State :=
  if s.rxSeq ≠ c.seq ∧ c.startLen ≠ 0 then { s with daHdErr := true } else s

def State.checkStart (s : State) (c : Cmd) : State :=
  if s.rcLen ≠ c.startLen.toUInt32 then
    { s with rcLen := c.startLen.toUInt32, rHdlLen := c.startLen.toUInt32 }
  else s

/-- The last part of `OPC_WR_DTCM`. -/
def State.startWrDtcm (s : State) (c : Cmd) : Option NodeId → State
  | some n =>
    let s := { s with rxStatus := rxNodeOk, rxTransactionLen := c.dataLen.toUInt32 }
    (s.suPushNode .rxingList n).sdmaStartRx n s.rcLen s.rxTransactionLen
  | none => { s with rxStatus := rxNoNode }

def State.wrDtcm (s : State) (c : Cmd) (malloc : Bool) : State :=
  let s := { s with rxLen := c.totalSize.toUInt32 }
  if 2 ≤ s.suGetNodeCount .rxingList then s.halt
  else
    let (n, s) := s.rxNode c malloc
    ((s.checkSeq c).checkStart c).startWrDtcm c n

/-- The last part of `OPC_RD_DTCM`, for a node that was popped. -/
def State.startRdDtcm (s : State) (n : NodeId) : State :=
  let s := { s with txTransactionLen := min blockLen (s.txLen - s.tHdlLen) }
  (s.suPushNode .txingList n).sdmaStartTx
    (.txDma s.tcLen s.txTransactionLen (s.snode n).length) s.txTransactionLen

def State.checkTxValid (s : State) : State :=
  if s.suGetNodeCount .txDat ≤ 1 then { s with txValid := false } else s

def State.rdDtcm (s : State) (c : Cmd) : State :=
  let s := { s.checkTxValid with txLen := c.dataLen.toUInt32, tHdlLen := 0 }
  if 2 ≤ s.suGetNodeCount .txingList then s.halt
  else match s.suPopNode .txingList with
    | some (n, s) => { s with txStatus := txNodeOk }.startRdDtcm n
    | none =>
      match s.suPopNode .txDat with
      | none => if s.tcLen ≠ 0 then s.halt else { s with txStatus := txNoNode }
      | some (n, s) =>
        let s := { s with taken := s.taken ++ [n] }
        if s.tcLen ≠ 0 then s.halt
        else if (s.snode n).addr = none then { s with txStatus := txNodeOk }.halt
        else
          { s with
            txStatus := txNodeOk
            txSeq := s.bekenTxSdioS
            bekenTxSdioS := s.bekenTxSdioS + 1 }.startRdDtcm n

/-- `(reg_cmd_ptr->len - 4) >> shift`, put into a byte. -/
def regNumb (len : UInt8) (shift : Nat) : UInt8 := UInt8.ofInt (((len.toNat : Int) - 4) >>> shift)

def State.wrReg (s : State) (c : Cmd) : State :=
  let n := (regNumb c.len 3).toNat
  { s with
    accesses := s.accesses ++
      (List.range n).flatMap fun i => [Access.content i, .content (i + n)] }

def State.rdReg (s : State) (c : Cmd) : State :=
  let n := (regNumb c.len 2).toNat
  let s := { s with
    accesses := s.accesses ++ (List.range n).flatMap fun i => [Access.content i, .regVal i]
    transactionLen := UInt32.ofNat (min 64 (n * 4)) }
  s.sdmaStartTx (.regDma s.transactionLen) s.transactionLen

def State.sdioCmdHandler (s : State) (c : Cmd) (malloc : Bool) : State :=
  if c.opCode = opcWrDtcm then s.wrDtcm c malloc
  else if c.opCode = opcRdDtcm then s.rdDtcm c
  else if c.opCode = opcWrReg then s.wrReg c
  else if c.opCode = opcRdReg then s.rdReg c
  else s

end Commands

section Callbacks

def State.sdioTxCb (s : State) : State :=
  match s.suPopNode .txingList with
  | none => if s.txStatus = txNoNode then { s with txStatus := txNodeOk } else s.halt
  | some (n, s) =>
    let s := { s with
      tHdlLen := s.tHdlLen + s.txTransactionLen
      tcLen := s.tcLen + s.txTransactionLen }
    if (s.snode n).length ≤ s.tcLen then
      -- the node's `callback` is the driver's
      let s : State := { s.sdioFreeValidNode n with sent := s.sent ++ [n] }
      if s.txLen - s.tHdlLen ≠ 0 then s.halt else { s with tcLen := 0 }
    else s.suPushNode .txingList n

def State.sdioRxCb (s : State) (hd : FrameHdr) : State :=
  match s.suPopNode .rxingList with
  | none => { s with rxStatus := rxNodeOk }
  | some (n, s) =>
    let s := { s with
      rHdlLen := s.rHdlLen + s.rxTransactionLen
      rcLen := s.rcLen + s.rxTransactionLen
      rxSeq := hd.seq }
    if hd.len.toUInt32 ≤ s.rcLen then
      if s.daHdErr then
        { s.sdioFreeValidNode n with rcLen := 0, rHdlLen := 0, daHdErr := false }
      else
        let s := s.suPushNode .rxDat n
        if s.rxLen - s.rHdlLen ≠ 0 then s.halt else { s with rcLen := 0, rHdlLen := 0 }
    else s.suPushNode .rxingList n

end Callbacks

section Calls

/-- The two modes of `sdio_read` that copy. -/
def State.readSync (s : State) (p : Queue) (userBuf : UserBuf) (count : UInt32) : State × Answer :=
  if userBuf = .null ∨ count = 0 then (s, .failure)
  else match s.suPopNode p with
    | none => (s, .failure)
    | some (n, s) => (s.sdioFreeValidNode n, .length (s.snode n).length)

def State.sdioRead (s : State) (userBuf : UserBuf) (count opFlag : UInt32) : State × Answer :=
  if opFlag = s2hRdSync then s.readSync .txDat userBuf count
  else if opFlag = h2sRdSync then s.readSync .rxDat userBuf count
  else if opFlag = h2sRdSpecial then
    match s.suPopNode .rxDat with
    | none => (s, .failure)
    | some (n, s) => ({ s with hands := s.hands ++ [n] }, .node (some n))
  else (s, .failure)

/-- The two modes of `sdio_write` that copy. -/
def State.writeSync (s : State) (p : Queue) (userBuf : UserBuf) (count : UInt32) (malloc : Bool) :
    State × Answer :=
  if userBuf = .null ∨ count = 0 then (s, .failure)
  else match s.sdioAllocValidNode count malloc with
    | (none, s) => (s, .failure)
    | (some n, s) => (s.suPushNode p n, .success)

/-- A driver writes a node only if it has been handed it. -/
def State.sdioWrite (s : State) (userBuf : UserBuf) (count opFlag : UInt32) (malloc : Bool) :
    Option (State × Answer) :=
  if opFlag = s2hWrSync then
    let (s, a) := s.writeSync .txDat userBuf count malloc
    some (if a = .success then { s with txValid := true } else s, a)
  else if opFlag = s2hWrSpecial then
    match userBuf with
    | .null => some (s, .failure)
    | .bytes => none
    | .node n =>
      if count = 0 then some (s, .failure)
      else if n ∈ s.hands then
        some ({ { s with hands := s.hands.erase n }.suPushNode .txDat n with txValid := true },
          .success)
      else none
  else if opFlag = h2sWrSync then some (s.writeSync .rxDat userBuf count malloc)
  else some (s, .failure)

/-- `SDIO_CMD_GET_FREE_NODE` -/
def State.getFreeNode (s : State) (size : UInt32) (malloc : Bool) : State × Answer :=
  match s.sdioAllocValidNode size malloc with
  | (none, s) => (s, .node none)
  | (some n, s) => ({ s with hands := s.hands ++ [n] }, .node (some n))

/-- `SDIO_CMD_PUSH_FREE_NODE`, by a driver that has been handed the node. -/
def State.pushFreeNode (s : State) (n : NodeId) : Option (State × Answer) :=
  if n ∈ s.hands then some ({ s with hands := s.hands.erase n }.sdioFreeValidNode n, .success)
  else none

end Calls

section Machine

/-- An `ASSERT` that has failed does not return. -/
def State.step (s : State) (e : Event) : Option (State × Answer) :=
  if s.halted then none
  else match e with
    | .cmd c malloc => some (s.sdioCmdHandler c malloc, .void)
    | .txDone => if s.txStarted then some ({ s with txStarted := false }.sdioTxCb, .void) else none
    | .rxDone hd =>
      if s.rxStarted then some ({ s with rxStarted := false }.sdioRxCb hd, .void) else none
    | .sdioRead userBuf count opFlag => some (s.sdioRead userBuf count opFlag)
    | .sdioWrite userBuf count opFlag malloc => s.sdioWrite userBuf count opFlag malloc
    | .getFreeNode size malloc => some (s.getFreeNode size malloc)
    | .pushFreeNode n => s.pushFreeNode n

/-- The queues after `su_init`. -/
def initQueues : Queues Queue NodeId where
  list
    | .freeNodes => List.finRange cellCount
    | _ => []
  pushed
    | .freeNodes => List.finRange cellCount
    | _ => []
  popped _ := []

/-- `sdio_init` -/
def init : State where
  rxStatus := 0
  txStatus := 0
  tcLen := 0
  rcLen := 0
  txSeq := 0
  rxSeq := 0
  rxLen := 0
  txLen := 0
  rHdlLen := 0
  tHdlLen := 0
  txTransactionLen := 0
  rxTransactionLen := 0
  transactionLen := 0
  bekenTxSdioS := 1
  daHdErr := false
  snode _ := ⟨none, none, 0⟩
  queues := initQueues
  hands := []
  txValid := false
  txStarted := false
  rxStarted := false
  buffers := 0
  freed := []
  taken := []
  sent := []
  accesses := []
  halted := false

def sdio : Machine State Event Answer where
  init := init
  step := State.step

end Machine

end BdkRtt.Driver.Sdio
