import BdkRtt.Driver.Sdio
import Mathlib.Logic.Function.Basic

/-! The entry points of the SDIO driver and the busy count of the power save. -/

namespace BdkRtt.Driver.SdioBusy

open Lib

open Sdio (h2sRdSync h2sWrSync s2hRdSync s2hWrSync h2sRdSpecial s2hWrSpecial)

def sdioFailure : UInt32 := -1
def sdioSuccess : UInt32 := 0

def cfgMsduResvHeadLen : UInt32 := 96

def sdioCmdGetFreeNode : UInt32 := 0xBB
def sdioCmdRegRxCallback : UInt32 := 0xBC
def sdioCmdPushFreeNode : UInt32 := 0xBD
def sdioCmdGetCntFreeNode : UInt32 := 0xBE
def sdioCmdClearTxValid : UInt32 := 0xC0
def sdioCmdSetTxValid : UInt32 := 0xC1
def sdioCmdPeekH2sCount : UInt32 := 0xC2
def sdioCmdPeekS2hCount : UInt32 := 0xC3

section State

/-- `SDIO_NODE_T` -/
structure Node where
  origAddr : UInt32
  addr : UInt32
  length : UInt32
  lparam : UInt32
  rparam : UInt32

/-- The lists of `SDIO_S` that these functions use. -/
inductive Queue
  | freeNodes
  | txDat
  | rxDat
deriving DecidableEq

/-- `os_memcpy` -/
structure Copy where
  dst : UInt32
  src : UInt32
  len : UInt32

/-- `mcu_ps_info.peri_busy_count`, and how often it has been counted up and down. -/
structure Counts where
  periBusyCount : Int32
  adds : Nat
  decs : Nat

/-- `SDIO_S`.  A pointer is any number: the nodes by their addresses, and the words of the
memory. -/
structure State where
  node : UInt32 → Node
  lists : Queue → List UInt32
  rxCb : UInt32
  txValid : Bool
  word : UInt32 → UInt32
  copies : List Copy
  freed : List UInt32
  counts : Counts

/-- `malloc` is what `os_malloc` finds in the call, 0 where it finds nothing. -/
inductive Event
  | sdioRead (userBuf count opFlag : UInt32)
  | sdioWrite (userBuf count opFlag malloc : UInt32)
  | sdioCtrl (cmd param malloc : UInt32)

end State

section Counts

def Counts.add (c : Counts) : Counts :=
  { c with periBusyCount := c.periBusyCount + 1, adds := c.adds + 1 }

def Counts.dec (c : Counts) : Counts :=
  { c with periBusyCount := c.periBusyCount - 1, decs := c.decs + 1 }

def State.periBusyCountAdd (s : State) : State := { s with counts := s.counts.add }
def State.periBusyCountDec (s : State) : State := { s with counts := s.counts.dec }

end Counts

section Nodes

def State.suPushNode (s : State) (p : Queue) (n : UInt32) : State :=
  { s with lists := Function.update s.lists p (s.lists p ++ [n]) }

/-- A null pointer where the list is empty. -/
def State.suPopNode (s : State) (p : Queue) : UInt32 × State :=
  match s.lists p with
  | [] => (0, s)
  | n :: ns => (n, { s with lists := Function.update s.lists p ns })

def State.suGetNodeCount (s : State) (p : Queue) : UInt32 := UInt32.ofNat (s.lists p).length

def State.setNode (s : State) (n : UInt32) (x : Node) : State :=
  { s with node := Function.update s.node n x }

def State.osMemcpy (s : State) (dst src len : UInt32) : State :=
  { s with copies := s.copies ++ [⟨dst, src, len⟩] }

def State.sdioAllocValidNode (s : State) (bufSize malloc : UInt32) : UInt32 × State :=
  if bufSize = 0 then (0, s)
  else
    let (n, s) := s.suPopNode .freeNodes
    if n ≠ 0 then
      if malloc ≠ 0 then
        (n, s.setNode n { s.node n with
          origAddr := malloc, addr := malloc + cfgMsduResvHeadLen, length := bufSize })
      else (0, s.suPushNode .freeNodes n)
    else (0, s)

def State.sdioFreeValidNode (s : State) (n : UInt32) : State :=
  let s := { s with freed := s.freed ++ [(s.node n).origAddr] }
  (s.setNode n { s.node n with addr := 0, length := 0, origAddr := 0 }).suPushNode .freeNodes n

end Nodes

section Calls

/-- The two modes of `sdio_read` that copy. -/
def State.readSync (s : State) (p : Queue) (userBuf count : UInt32) : UInt32 × State :=
  -- `goto rd_exit`, behind the decrement
  if userBuf = 0 ∨ count = 0 then (sdioFailure, s)
  else
    let (n, s) := s.suPopNode p
    if n ≠ 0 then
      let len := min count (s.node n).length
      let ret := (s.node n).length
      (ret, ((s.osMemcpy userBuf (s.node n).addr len).sdioFreeValidNode n).periBusyCountDec)
    else (sdioFailure, s.periBusyCountDec)

/-- `H2S_RD_SPECIAL`; `freeNodes` is the address of the list. -/
def State.readSpecial (freeNodes : UInt32) (s : State) : UInt32 × State :=
  let (n, s) := s.suPopNode .rxDat
  if n ≠ 0 then
    (n, (s.setNode n { s.node n with lparam := freeNodes, rparam := n }).periBusyCountDec)
  else (sdioFailure, s.periBusyCountDec)

def State.sdioRead (freeNodes : UInt32) (s : State) (userBuf count opFlag : UInt32) :
    UInt32 × State :=
  let s := s.periBusyCountAdd
  if opFlag = s2hRdSync then s.readSync .txDat userBuf count
  else if opFlag = h2sRdSync then s.readSync .rxDat userBuf count
  else if opFlag = h2sRdSpecial then s.readSpecial freeNodes
  else (sdioFailure, s.periBusyCountDec)

/-- The `switch` of `sdio_ctrl`. -/
def State.command (s : State) (cmd param malloc : UInt32) : UInt32 × State :=
  if cmd = sdioCmdPushFreeNode then (sdioSuccess, s.sdioFreeValidNode param)
  else if cmd = sdioCmdGetFreeNode then s.sdioAllocValidNode (s.word param) malloc
  else if cmd = sdioCmdRegRxCallback then (sdioSuccess, { s with rxCb := param })
  else if cmd = sdioCmdGetCntFreeNode then
    (sdioSuccess,
      { s with word := Function.update s.word param (s.suGetNodeCount .freeNodes) })
  else if cmd = sdioCmdClearTxValid then (sdioSuccess, { s with txValid := false })
  else if cmd = sdioCmdPeekS2hCount then (s.suGetNodeCount .txDat, s)
  else if cmd = sdioCmdPeekH2sCount then (s.suGetNodeCount .rxDat, s)
  else if cmd = sdioCmdSetTxValid then (sdioSuccess, { s with txValid := true })
  else (sdioSuccess, s)

def State.sdioCtrl (s : State) (cmd param malloc : UInt32) : UInt32 × State :=
  let r := s.periBusyCountAdd.command cmd param malloc
  (r.1, r.2.periBusyCountDec)

/-- `S2H_WR_SYNC` and `H2S_WR_SYNC`; only the first one tells the host. -/
def State.writeSync (s : State) (p : Queue) (notify : Bool) (userBuf count malloc : UInt32) :
    UInt32 × State :=
  -- `goto exit_wr`, behind the decrement
  if userBuf = 0 ∨ count = 0 then (sdioFailure, s)
  else
    let (n, s) := s.sdioAllocValidNode count malloc
    if n ≠ 0 then
      let s := (s.osMemcpy (s.node n).addr userBuf count).suPushNode p n
      let s := if notify then (s.sdioCtrl sdioCmdSetTxValid 0 0).2 else s
      (sdioSuccess, s.periBusyCountDec)
    else (sdioFailure, s.periBusyCountDec)

/-- `S2H_WR_SPECIAL` -/
def State.writeSpecial (s : State) (userBuf count : UInt32) : UInt32 × State :=
  if userBuf = 0 ∨ count = 0 then (sdioFailure, s)
  else
    let s := ((s.suPushNode .txDat userBuf).sdioCtrl sdioCmdSetTxValid 0 0).2
    (sdioSuccess, s.periBusyCountDec)

def State.sdioWrite (s : State) (userBuf count opFlag malloc : UInt32) : UInt32 × State :=
  let s := s.periBusyCountAdd
  if opFlag = s2hWrSync then s.writeSync .txDat true userBuf count malloc
  else if opFlag = s2hWrSpecial then s.writeSpecial userBuf count
  else if opFlag = h2sWrSync then s.writeSync .rxDat false userBuf count malloc
  else (sdioFailure, s.periBusyCountDec)

end Calls

section Runs

/-- Every call returns. -/
def State.step (freeNodes : UInt32) (s : State) : Event → Option (State × UInt32)
  | .sdioRead userBuf count opFlag => some (s.sdioRead freeNodes userBuf count opFlag).swap
  | .sdioWrite userBuf count opFlag malloc => some (s.sdioWrite userBuf count opFlag malloc).swap
  | .sdioCtrl cmd param malloc => some (s.sdioCtrl cmd param malloc).swap

/-- The calls from a state `s` on. -/
def calls (freeNodes : UInt32) (s : State) : Machine State Event UInt32 where
  init := { s with counts := ⟨s.counts.periBusyCount, 0, 0⟩ }
  step := State.step freeNodes

/-- Each `peri_busy_count_add` has had its `peri_busy_count_dec`, and the count is `count` again. -/
def Balanced (count : Int32) (s : State) : Prop :=
  s.counts.adds = s.counts.decs ∧ s.counts.periBusyCount = count

/-- A read or a write that leaves by the label. -/
def Event.Leaves : Event → Prop
  | .sdioRead userBuf count opFlag =>
    (opFlag = s2hRdSync ∨ opFlag = h2sRdSync) ∧ (userBuf = 0 ∨ count = 0)
  | .sdioWrite userBuf count opFlag _ =>
    (opFlag = s2hWrSync ∨ opFlag = s2hWrSpecial ∨ opFlag = h2sWrSync) ∧ (userBuf = 0 ∨ count = 0)
  | .sdioCtrl _ _ _ => False

instance : (e : Event) → Decidable e.Leaves
  | .sdioRead _ _ _ => inferInstanceAs (Decidable (_ ∧ _))
  | .sdioWrite _ _ _ _ => inferInstanceAs (Decidable (_ ∧ _))
  | .sdioCtrl _ _ _ => inferInstanceAs (Decidable False)

end Runs

end BdkRtt.Driver.SdioBusy
