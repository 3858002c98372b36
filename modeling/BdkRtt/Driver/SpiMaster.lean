import BdkRtt.Lib.Machine
import Mathlib.Algebra.Group.Nat.Defs

/-! `bk_spi_master_xfer` with `spi_isr` and the FIFOs of the SPI. -/

namespace BdkRtt.Driver.SpiMaster

open Lib

section State

/-- The depths of the FIFOs. -/
structure Depths where
  tx : Nat
  rx : Nat
  tx_pos : 0 < tx
  rx_pos : 0 < rx

/-- `struct spi_message`; `recv_buf` may be null when nothing is to be received. -/
structure Message where
  sendBuf : List UInt8
  recvBuf : Option (List UInt8)
  recvLen : Nat
  send_lt : sendBuf.length < 2 ^ 32
  recv_lt : recvLen < 2 ^ 32
  recv_le : recvLen ≤ (recvBuf.getD []).length

/-- `total_size` -/
def Message.totalSize (m : Message) : Nat := (m.recvLen + m.sendBuf.length) % 2 ^ 32

/-- The locals of the callbacks; `tx_ptr` is what it points to. -/
structure Locals where
  txPtr : List UInt8
  txLen : Nat
  totalLen : Nat
  drop : Nat
  offset : Nat

/-- Where `spi_isr` is, and the bits of `status` that it has still to look at. -/
inductive Isr
  | rxCallback (drop offset : Nat) (txint txfifoEmpty : Bool)
  | writeTxfifo (l : Locals) (txfifoEmpty : Bool)
  | readRxfifo (l : Locals) (txOk txfifoEmpty : Bool)
  | txFinish (txfifoEmpty : Bool)

/-- A call of `bk_spi_master_xfer` that has returned: the bytes that were clocked out and in
meanwhile, and `recv_buf` afterwards. -/
structure Transfer where
  msg : Message
  clocked : List (UInt8 × UInt8)
  recvBuf : Option (List UInt8)

/-- `struct bk_spi_dev`, the buffer at `rx_ptr` and the SPI.  A byte in the RX FIFO is kept with the
number of the transfer in which it was received. -/
structure State where
  txFifo : List UInt8
  /-- The byte that has left the TX FIFO and is being clocked out. -/
  shifting : Option UInt8
  rxFifo : List (Nat × UInt8)
  txPtr : List UInt8
  txLen : Nat
  txSem : Bool
  rxPtr : Option (List UInt8)
  rxLen : Nat
  rxOffset : Nat
  rxDrop : Nat
  totalLen : Nat
  txFinishFlag : Bool
  isr : Option Isr
  /-- The transfer that has not returned, and the number of transfers begun. -/
  msg : Option Message
  transfers : Nat
  clocked : List (UInt8 × UInt8)
  returned : List Transfer
  /-- The transfers in which a byte was received and in which it was stored or counted. -/
  uses : List (Nat × Nat)

/-- An interrupt may come at any moment, since `RXOVR_EN` and `TXOVR_EN` stay set. -/
inductive Event
  /-- `bk_spi_master_xfer` until it waits for `tx_sem`. -/
  | xfer (m : Message)
  /-- And from there on. -/
  | wake
  | isr (rxint txint txfifoEmpty : Bool)
  /-- `spi_isr` goes on to its next access to a FIFO. -/
  | isrStep
  /-- A byte leaves the TX FIFO. -/
  | load
  /-- It has been clocked out and another one in. -/
  | shift (received : UInt8)

end State

section Callbacks

variable (d : Depths)

/-- What both callbacks do with a byte from the RX FIFO. -/
def State.receive (s : State) (drop offset : Nat) (x : Nat × UInt8) : State × Nat × Nat :=
  match s.rxPtr with
  | none => (s, drop, offset)
  | some rxbuf =>
    if drop ≠ 0 then ({ s with uses := s.uses ++ [(x.1, s.transfers)] }, drop - 1, offset)
    else if offset < s.rxLen then
      ({ s with rxPtr := some (rxbuf.set offset x.2), uses := s.uses ++ [(x.1, s.transfers)] },
        drop, offset + 1)
    else (s, drop, offset)

/-- `spi_isr` after the receive callback. -/
def State.txint (s : State) (txint txfifoEmpty : Bool) : State :=
  { s with isr := some (if txint then
      .writeTxfifo ⟨s.txPtr, s.txLen, s.totalLen, s.rxDrop, s.rxOffset⟩ txfifoEmpty
    else .txFinish txfifoEmpty) }

/-- The end of `bk_spi_tx_needwrite_callback`. -/
def State.writeBack (s : State) (l : Locals) (txfifoEmpty : Bool) : State :=
  { s with
    txPtr := l.txPtr
    txLen := l.txLen
    totalLen := l.totalLen
    rxDrop := l.drop
    rxOffset := l.offset
    isr := some (.txFinish txfifoEmpty) }

/-- An iteration of `bk_spi_rx_callback`. -/
def State.bkSpiRxCallback (s : State) (drop offset : Nat) (txint txfifoEmpty : Bool) : State :=
  match s.rxFifo with
  | [] => { s with rxDrop := drop, rxOffset := offset }.txint txint txfifoEmpty
  | x :: rest =>
    let (s, drop, offset) := { s with rxFifo := rest }.receive drop offset x
    { s with isr := some (.rxCallback drop offset txint txfifoEmpty) }

/-- The first half of an iteration of `bk_spi_tx_needwrite_callback`. -/
def State.spiWriteTxfifo (s : State) (l : Locals) (txfifoEmpty : Bool) : State :=
  if l.totalLen = 0 then s.writeBack l txfifoEmpty
  else if s.txFifo.length < d.tx then
    if l.txLen ≠ 0 then
      { s with
        txFifo := s.txFifo ++ [l.txPtr.headD 0]
        isr := some (.readRxfifo { l with txPtr := l.txPtr.tail, txLen := l.txLen - 1 } true
          txfifoEmpty) }
    else
      { s with
        txFifo := s.txFifo ++ [0xff]
        isr := some (.readRxfifo l true txfifoEmpty) }
  else { s with isr := some (.readRxfifo l false txfifoEmpty) }

/-- The end of an iteration. -/
def State.nextWrite (s : State) (l : Locals) (txOk txfifoEmpty : Bool) : State :=
  if txOk then
    if l.totalLen - 1 = 0 then s.writeBack { l with totalLen := l.totalLen - 1 } txfifoEmpty
    else { s with isr := some (.writeTxfifo { l with totalLen := l.totalLen - 1 } txfifoEmpty) }
  else s.writeBack l txfifoEmpty

/-- The second half of an iteration. -/
def State.spiReadRxfifo (s : State) (l : Locals) (txOk txfifoEmpty : Bool) : State :=
  match s.rxFifo with
  | [] => s.nextWrite l txOk txfifoEmpty
  | x :: rest =>
    let (s, drop, offset) := { s with rxFifo := rest }.receive l.drop l.offset x
    s.nextWrite { l with drop := drop, offset := offset } txOk txfifoEmpty

/-- `bk_spi_tx_finish_callback`, the last one of `spi_isr`. -/
def State.bkSpiTxFinishCallback (s : State) (txfifoEmpty : Bool) : State :=
  if txfifoEmpty ∧ s.totalLen = 0 ∧ s.txFinishFlag = false then
    { s with txFinishFlag := true, txSem := true, isr := none }
  else { s with isr := none }

def State.spiIsr (s : State) : Isr → State
  | .rxCallback drop offset txint txfifoEmpty => s.bkSpiRxCallback drop offset txint txfifoEmpty
  | .writeTxfifo l txfifoEmpty => s.spiWriteTxfifo d l txfifoEmpty
  | .readRxfifo l txOk txfifoEmpty => s.spiReadRxfifo l txOk txfifoEmpty
  | .txFinish txfifoEmpty => s.bkSpiTxFinishCallback txfifoEmpty

end Callbacks

section Transfers

def State.bkSpiMasterXfer (s : State) (m : Message) : State :=
  if m.totalSize = 0 then { s with returned := s.returned ++ [⟨m, [], m.recvBuf⟩] }
  else
    { s with
      txPtr := m.sendBuf
      txLen := m.sendBuf.length
      rxPtr := m.recvBuf
      rxLen := m.recvLen
      rxOffset := 0
      rxDrop := m.sendBuf.length
      totalLen := m.totalSize
      txFinishFlag := false
      msg := some m
      transfers := s.transfers + 1
      clocked := [] }

def State.wake (s : State) (m : Message) : State :=
  { s with
    txSem := false
    txPtr := []
    txLen := 0
    rxPtr := none
    rxLen := 0
    totalLen := 0
    txFinishFlag := true
    msg := none
    returned := s.returned ++ [⟨m, s.clocked, s.rxPtr⟩] }

end Transfers

section Machine

variable (d : Depths)

/-- The bits that the levels of the FIFOs justify. -/
def State.Justifies (s : State) (rxint txint txfifoEmpty : Bool) : Prop :=
  (rxint → s.rxFifo ≠ []) ∧ (txint → s.txFifo.length < d.tx) ∧ (txfifoEmpty → s.txFifo = [])

instance (s : State) (rxint txint txfifoEmpty : Bool) :
    Decidable (s.Justifies d rxint txint txfifoEmpty) := inferInstanceAs (Decidable (_ ∧ _ ∧ _))

/-- An interrupt runs to its end before the caller goes on.  A call that returns answers with
`recv_len`. -/
def State.step (s : State) (e : Event) : Option (State × Option Nat) :=
  match e with
  | .xfer m =>
    if s.msg.isNone ∧ s.isr.isNone then
      some (s.bkSpiMasterXfer m, if m.totalSize = 0 then some m.recvLen else none)
    else none
  | .wake =>
    match s.msg with
    | none => none
    | some m => if s.isr.isNone ∧ s.txSem then some (s.wake m, some m.recvLen) else none
  | .isr rxint txint txfifoEmpty =>
    if s.isr.isNone ∧ s.Justifies d rxint txint txfifoEmpty then
      if rxint then
        some ({ s with isr := some (.rxCallback s.rxDrop s.rxOffset txint txfifoEmpty) }, none)
      else some (s.txint txint txfifoEmpty, none)
    else none
  | .isrStep =>
    match s.isr with
    | none => none
    | some i => some (s.spiIsr d i, none)
  | .load =>
    match s.shifting, s.txFifo with
    | none, b :: rest => some ({ s with shifting := some b, txFifo := rest }, none)
    | _, _ => none
  | .shift received =>
    match s.shifting with
    | none => none
    | some b =>
      some ({ s with
        shifting := none
        clocked := s.clocked ++ [(b, received)]
        rxFifo := if s.rxFifo.length < d.rx then s.rxFifo ++ [(s.transfers, received)]
          else s.rxFifo }, none)

/-- The state after `bk_spi_master_init`. -/
def init : State where
  txFifo := []
  shifting := none
  rxFifo := []
  txPtr := []
  txLen := 0
  txSem := false
  rxPtr := none
  rxLen := 0
  rxOffset := 0
  rxDrop := 0
  totalLen := 0
  txFinishFlag := true
  isr := none
  msg := none
  transfers := 0
  clocked := []
  returned := []
  uses := []

def spi : Machine State Event (Option Nat) where
  init := init
  step := State.step d

end Machine

end BdkRtt.Driver.SpiMaster
