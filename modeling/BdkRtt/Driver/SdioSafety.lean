import BdkRtt.Driver.SdioLaws

namespace BdkRtt.Driver.Sdio

open Lib

section Accesses

variable {s t u : State} {as bs : List Access} {fails fails' : Prop}

/-- The access stays within its buffer, and a DMA moves something. -/
def Access.Ok : Access → Prop
  | .rxDma offset len size => len ≠ 0 ∧ offset.toNat + len.toNat ≤ size.toNat
  | .txDma offset len size => len ≠ 0 ∧ offset.toNat + len.toNat ≤ size.toNat
  | .regDma len => len ≠ 0 ∧ len.toNat ≤ 4 * 16
  | .content index => index < maxContentCount
  | .regVal index => index < 16

/-- From `s` to `t` there are the accesses `as`, and an `ASSERT` fails when `fails`. -/
structure Does (s t : State) (as : List Access) (fails : Prop) : Prop where
  accesses : t.accesses = s.accesses ++ as
  halted : t.halted = true ↔ s.halted = true ∨ fails

theorem Does.trans (h : Does s t as fails) (h' : Does t u bs fails') :
    Does s u (as ++ bs) (fails ∨ fails') where
  accesses := by rw [h'.accesses, h.accesses, List.append_assoc]
  halted := by rw [h'.halted, h.halted, or_assoc]

/-- Nothing is accessed and no `ASSERT` fails. -/
abbrev Quiet (s t : State) : Prop := Does s t [] False

theorem quiet_of_eq (ha : t.accesses = s.accesses) (hh : t.halted = s.halted) : Quiet s t :=
  ⟨by rw [ha, List.append_nil], by rw [hh, or_false]⟩

theorem Kept.quiet (h : Kept s t) : Quiet s t :=
  quiet_of_eq (congrArg State.accesses h.eq :) (congrArg State.halted h.eq :)

end Accesses

section Registers

end Registers

section Frames

variable {s t : State}

/-- The size of the buffer for `OPC_WR_DTCM`, where it finds one. -/
def State.rxSize (s : State) (c : Cmd) (malloc : Bool) : Option UInt32 :=
  match s.queues.list .rxingList with
  | n :: _ =>
    if s.rxSeq = c.seq then some (s.snode n).length
    else if malloc then some (mSize c.totalSize) else none
  | [] => if malloc ∧ s.queues.list .freeNodes ≠ [] then some (mSize c.totalSize) else none

/-- The node for `OPC_RD_DTCM`. -/
def State.txNode (s : State) : Option NodeId :=
  (s.queues.list .txingList ++ s.queues.list .txDat).head?

end Frames

section Callbacks

variable {s : State}

/-- `sdio_tx_cb` has a node or knows of none, and leaves nothing of a transfer that has been
sent. -/
def State.SentAll (s : State) : Prop :=
  (s.queues.list .txingList = [] → s.txStatus = txNoNode) ∧
    ∀ n ∈ (s.queues.list .txingList).head?, (s.snode n).length ≤ s.tcLen + s.txTransactionLen →
      s.txLen = s.tHdlLen + s.txTransactionLen

/-- `sdio_rx_cb` leaves nothing of a frame that has been received. -/
def State.ReceivedAll (s : State) (hd : FrameHdr) : Prop :=
  s.queues.list .rxingList ≠ [] → hd.len.toUInt32 ≤ s.rcLen + s.rxTransactionLen →
    s.daHdErr = false → s.rxLen = s.rHdlLen + s.rxTransactionLen

end Callbacks

section Calls

variable {s t : State} {a : Answer}

end Calls

section Handler

variable {s t : State} {a : Answer}

instance (s : State) : Decidable s.SentAll := inferInstanceAs (Decidable (_ ∧ _))

instance (s : State) (hd : FrameHdr) : Decidable (s.ReceivedAll hd) :=
  inferInstanceAs (Decidable (_ → _))

/-- The commands that stay within their buffers. -/
def State.CmdFits (s : State) (c : Cmd) (malloc : Bool) : Prop :=
  if c.opCode = opcWrDtcm then
    ∀ size ∈ s.rxSize c malloc, c.dataLen ≠ 0 ∧ c.startLen.toNat + c.dataLen.toNat ≤ size.toNat
  else if c.opCode = opcRdDtcm then
    ∀ n ∈ s.txNode, c.dataLen ≠ 0 ∧
      s.tcLen.toNat + min 4096 c.dataLen.toNat ≤ (s.snode n).length.toNat
  else if c.opCode = opcWrReg then 4 ≤ c.len.toNat ∧ c.len.toNat ≤ 67
  else if c.opCode = opcRdReg then 8 ≤ c.len.toNat ∧ c.len.toNat ≤ 67
  else True

-- Over the option and not over its type, which is finite too.
instance (s : State) (c : Cmd) (malloc : Bool) : Decidable (s.CmdFits c malloc) :=
  have : Decidable (∀ size ∈ s.rxSize c malloc,
      c.dataLen ≠ 0 ∧ c.startLen.toNat + c.dataLen.toNat ≤ size.toNat) :=
    Option.decidableForallMem _
  have : Decidable (∀ n ∈ s.txNode, c.dataLen ≠ 0 ∧
      s.tcLen.toNat + min 4096 c.dataLen.toNat ≤ (s.snode n).length.toNat) :=
    Option.decidableForallMem _
  inferInstanceAs (Decidable (ite ..))

def Fits (s : State) : Event → Prop
  | .cmd c malloc => s.CmdFits c malloc
  | .txDone => s.SentAll
  | .rxDone hd => s.ReceivedAll hd
  | _ => True

instance (s : State) : ∀ e, Decidable (Fits s e)
  | .cmd c malloc => inferInstanceAs (Decidable (s.CmdFits c malloc))
  | .txDone => inferInstanceAs (Decidable s.SentAll)
  | .rxDone hd => inferInstanceAs (Decidable (s.ReceivedAll hd))
  | .sdioRead .. | .sdioWrite .. | .getFreeNode .. | .pushFreeNode _ =>
    inferInstanceAs (Decidable True)

end Handler

end BdkRtt.Driver.Sdio
