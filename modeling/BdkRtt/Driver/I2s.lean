import BdkRtt.Lib.Consecutive
import BdkRtt.Lib.Machine
import BdkRtt.Lib.Mem
import Mathlib.Data.Option.Basic

/-! `i2s_transfer`, which waits for `i2s_isr` to exchange its words with the FIFOs. -/

namespace BdkRtt.Driver.I2s

open Lib

section State

/-- `i2s_level_t` -/
structure Level where
  rxLevel : UInt8
  txLevel : UInt8

/-- `FIFO_LEVEL_32` -/
def fifoLevel32 : UInt8 := 1

/-- `i2s_trans_t`; a buffer that is not null is kept by how far the pointer is behind its start. -/
structure Trans where
  pTxBuf : Option Nat
  pRxBuf : Option Nat
  transDone : UInt32
  txRemainDataCnt : UInt32
  rxRemainDataCnt : UInt32

/-- A call of `i2s_transfer`, with the words that the receive FIFO delivers one after the other. -/
structure Call where
  sendBuf : Option (Mem UInt32)
  recvBuf : Option (Mem UInt32)
  count : UInt32
  words : Nat → UInt32

/-- `i2s_trans`, `i2s_fifo_level`, the receive buffer, what has been written to `PCM_DAT0` and how
many words have been read from it, the indices of the buffers that have been accessed, and which of
the received words have been stored. -/
structure State where
  trans : Trans
  level : Level
  recvBuf : Option (Mem UInt32)
  sent : List UInt32
  taken : Nat
  reads : List Nat
  writes : List Nat
  stores : List Nat

end State

section Interrupt

/-- `data_num` for a level. -/
def dataNum (level : UInt8) : Nat :=
  match level with
  | 0 => 8
  | 1 => 16
  | 2 => 32
  | _ => 48

/-- `if(txint0)` -/
def State.txint (x : Call) (s : State) : State :=
  let num := dataNum s.level.txLevel
  match s.trans.pTxBuf, x.sendBuf with
  | some i, some sendBuf =>
    { s with
      sent := s.sent ++ sendBuf.read i num
      reads := s.reads ++ List.range' i num
      trans := { s.trans with pTxBuf := some (i + num) } }
  | _, _ => { s with sent := s.sent ++ List.replicate num 0xeeeeeeee }

/-- `data_num` is cut down to `rx_remain_data_cnt`. -/
def State.rxNum (s : State) : Nat := min (dataNum s.level.rxLevel) s.trans.rxRemainDataCnt.toNat

/-- The words are read from the FIFO only. -/
def State.drain (s : State) : State := { s with taken := s.taken + s.rxNum }

def State.store (x : Call) (s : State) (i : Nat) : State :=
  let num := s.rxNum
  let remain := s.trans.rxRemainDataCnt - UInt32.ofNat num
  { s with
    recvBuf := s.recvBuf.map fun m => m.write i (Mem.read x.words s.taken num)
    taken := s.taken + num
    writes := s.writes ++ List.range' i num
    stores := s.stores ++ List.range' s.taken num
    trans :=
      { s.trans with
        pRxBuf := some (i + num)
        rxRemainDataCnt := remain
        transDone := if remain = 0 then 1 else s.trans.transDone } }

/-- `RX_FIFO0_EMPTY` -/
def rxFifo0Empty : UInt32 := (1 : UInt32) <<< 8

/-- `if(rxint)` -/
def State.rxint (x : Call) (s : State) (status : UInt32) : State :=
  match s.trans.pRxBuf with
  | none => s.drain
  | some i => if status &&& rxFifo0Empty ≠ 0 then s.drain else s.store x i

/-- `i2s_isr`, with `i2s_status`. -/
def State.isr (x : Call) (s : State) (status : UInt32) : State :=
  let s := if status &&& 0x02 ≠ 0 then s.txint x else s
  if status &&& 0x01 ≠ 0 then s.rxint x status else s

end Interrupt

section Calls

/-- The part of `i2s_transfer` in front of its loop. -/
def Call.begin (x : Call) : State where
  trans :=
    { transDone := 0
      txRemainDataCnt := x.count
      rxRemainDataCnt := x.count
      pTxBuf := x.sendBuf.map fun _ => 0
      pRxBuf := x.recvBuf.map fun _ => 0 }
  level := ⟨fifoLevel32, fifoLevel32⟩
  recvBuf := x.recvBuf
  sent := []
  taken := 0
  reads := []
  writes := []
  stores := []

inductive Event
  | isr (status : UInt32)
  /-- `i2s_fifo_level` is a global: any level may be set. -/
  | setLevel (level : Level)

/-- Whether `trans_done` was set before, and how many words of the buffers have been accessed. -/
structure Answer where
  done : Bool
  accesses : Nat

def State.step (x : Call) (s : State) : Event → State × Answer
  | .isr status =>
    let t := s.isr x status
    (t, ⟨decide (s.trans.transDone ≠ 0),
      t.reads.length - s.reads.length + (t.writes.length - s.writes.length)⟩)
  | .setLevel level => ({ s with level }, ⟨decide (s.trans.transDone ≠ 0), 0⟩)

def transfer (x : Call) : Machine State Event Answer where
  init := x.begin
  step s e := some (s.step x e)

end Calls

section Law

abbrev History := Machine.History Event Answer

structure Right (x : Call) (h : History) (s : State) : Prop where
  reads : ∃ k ≤ x.count.toNat, s.reads = List.range k
  writes : ∃ k ≤ x.count.toNat, s.writes = List.range k
  /-- The words in the receive buffer follow one another in the FIFO. -/
  stores : Consecutive s.stores
  recvBuf : s.recvBuf = x.recvBuf.map fun m => m.write 0 (s.stores.map x.words)
  taken : s.taken ≤ x.count.toNat
  done : s.trans.transDone ≠ 0 ↔ s.taken = x.count.toNat
  quiet : ∀ e ∈ h, e.2.done = true → e.2.accesses = 0

/-- The words of a receive interrupt are not stored. -/
def State.Drains (s : State) (status : UInt32) : Prop :=
  s.trans.pRxBuf = none ∨ status &&& rxFifo0Empty ≠ 0

/-- An interrupt finds as many words to send as it sends, in a transfer that is not done, and drops
no word that would be the last one of the transfer, nor one between words that it stores. -/
def Kept (x : Call) (s : State) : Event → Prop
  | .isr status =>
    (status &&& 0x02 ≠ 0 → ∀ i ∈ s.trans.pTxBuf,
      s.trans.transDone = 0 ∧ i + dataNum s.level.txLevel ≤ x.count.toNat) ∧
    (status &&& 0x01 ≠ 0 → s.rxNum ≠ 0 →
      (s.Drains status → s.taken + s.rxNum < x.count.toNat) ∧
      (¬ s.Drains status → (∀ k ∈ s.stores.getLast?, k + 1 = s.taken) ∧
        (s.taken = s.stores.length ∨ s.taken + s.rxNum < x.count.toNat)))
  | .setLevel _ => True

instance (s : State) (status : UInt32) : Decidable (s.Drains status) :=
  inferInstanceAs (Decidable (s.trans.pRxBuf = none ∨ status &&& rxFifo0Empty ≠ 0))

instance decidableKept (x : Call) (s : State) : (e : Event) → Decidable (Kept x s e)
  | .isr status => inferInstanceAs (Decidable (
      (status &&& 0x02 ≠ 0 → ∀ i ∈ s.trans.pTxBuf,
        s.trans.transDone = 0 ∧ i + dataNum s.level.txLevel ≤ x.count.toNat) ∧
      (status &&& 0x01 ≠ 0 → s.rxNum ≠ 0 →
        (s.Drains status → s.taken + s.rxNum < x.count.toNat) ∧
        (¬ s.Drains status → (∀ k ∈ s.stores.getLast?, k + 1 = s.taken) ∧
          (s.taken = s.stores.length ∨ s.taken + s.rxNum < x.count.toNat)))))
  | .setLevel _ => .isTrue trivial

end Law

end BdkRtt.Driver.I2s
