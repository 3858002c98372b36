import BdkRtt.Lib.Circle
import BdkRtt.Lib.Machine
import BdkRtt.Lib.Recent

/-! The receive side of the SPI slave. -/

namespace BdkRtt.Driver.SpiSlave

open Lib

def spiSlaveRxFifoLen : Nat := 512

section Fifo

/-- `struct spi_rx_fifo` -/
structure RxFifo where
  buffer : Mem UInt8
  putIndex : UInt16
  getIndex : UInt16
  isFull : Bool

/-- An index one further. -/
def advance (i : UInt16) : UInt16 := if i + 1 ≥ UInt16.ofNat spiSlaveRxFifoLen then 0 else i + 1

/-- `bk_spi_slave_get_rx_fifo` -/
def bkSpiSlaveGetRxFifo (f : RxFifo) : UInt32 :=
  if f.putIndex ≥ f.getIndex then f.putIndex.toUInt32 - f.getIndex.toUInt32
  else UInt32.ofNat spiSlaveRxFifoLen - (f.getIndex.toUInt32 - f.putIndex.toUInt32)

/-- A round of `bk_spi_slave_spi_rx_callback`. -/
def rxByte (f : RxFifo) (ch : UInt8) : RxFifo :=
  let buffer := f.buffer.write f.putIndex.toNat [ch]
  let putIndex := advance f.putIndex
  if putIndex = f.getIndex then { buffer, putIndex, getIndex := advance f.getIndex, isFull := true }
  else { f with buffer, putIndex }

/-- The bytes are those that `spi_read_rxfifo` delivers. -/
def bkSpiSlaveSpiRxCallback (f : RxFifo) (bytes : List UInt8) : RxFifo := bytes.foldl rxByte f

/-- What a round of `bk_spi_slave_get_rx_data` does without interrupts. -/
def getByte (f : RxFifo) : Option (UInt8 × RxFifo) :=
  if f.getIndex = f.putIndex ∧ f.isFull = false then none
  else some (f.buffer f.getIndex.toNat, { f with getIndex := advance f.getIndex, isFull := false })

/-- `bk_spi_slave_init` -/
def initFifo : RxFifo := ⟨fun _ => 0, 0, 0, false⟩

end Fifo

section Calls

/-- A queue of received bytes, as the callers of these functions use it. -/
structure ByteQueue (Q : Type) where
  init : Q
  receive : Q → List UInt8 → Q
  get : Q → Option (UInt8 × Q)
  count : Q → UInt32

/-- `bk_spi_slave_get_rx_data` in progress; `rxBuf` is where the next byte goes. -/
structure Call where
  rxBuf : UInt32
  len : UInt32
  size : UInt32
deriving DecidableEq

structure Run (Q : Type) where
  queue : Q
  call : Option Call

inductive Event
  | rx (bytes : List UInt8)
  /-- A call begins; the length is the `UINT32` that the caller passes. -/
  | getRxData (rxBuf len : UInt32)
  /-- A round of its loop. -/
  | iterate
  | getRxFifo
deriving DecidableEq

inductive Answer
  | void
  | stored (rxBuf : UInt32) (ch : UInt8)
  | returned (n : UInt32)
  | count (n : UInt32)
deriving DecidableEq

variable {Q : Type} (q : ByteQueue Q)

/-- The loop of `bk_spi_slave_get_rx_data`, which the mutex of its caller lets run once at a
time. -/
def iterate (s : Run Q) (c : Call) : Run Q × Answer :=
  if c.size = 0 then ({ s with call := none }, .returned (c.len - c.size))
  else match q.get s.queue with
    | none => ({ s with call := none }, .returned (c.len - c.size))
    | some (ch, queue) =>
      ({ queue, call := some { c with rxBuf := c.rxBuf + 1, size := c.size - 1 } },
        .stored c.rxBuf ch)

def Run.step (s : Run Q) : Event → Option (Run Q × Answer)
  | .rx bytes => some ({ s with queue := q.receive s.queue bytes }, .void)
  | .getRxData rxBuf len =>
    if s.call.isSome then none
    else if rxBuf = 0 then some (s, .returned 0)
    else some ({ s with call := some ⟨rxBuf, len, len⟩ }, .void)
  | .iterate => s.call.map fun c => iterate q s c
  | .getRxFifo => some (s, .count (q.count s.queue))

/-- The calls and the interrupts over a queue. -/
def calls : Machine (Run Q) Event Answer where
  init := ⟨q.init, none⟩
  step := Run.step q

/-- The FIFO of the driver. -/
def softwareFifo : ByteQueue RxFifo where
  init := initFifo
  receive := bkSpiSlaveSpiRxCallback
  get := getByte
  count := bkSpiSlaveGetRxFifo

/-- The queue that it stands for. -/
def recentFifo : ByteQueue (Recent UInt8) where
  init := .empty
  receive q bytes := bytes.foldl (Recent.arrive (spiSlaveRxFifoLen - 1)) q
  get := Recent.pop
  count q := UInt32.ofNat q.unread.length

end Calls

section Law

abbrev History := Machine.History Event Answer

def arrivedIn (h : History) : List UInt8 := h.flatMap fun
  | (.rx bytes, _) => bytes
  | _ => []

/-- What has been stored into the callers' buffers. -/
def storedIn (h : History) : List UInt8 := h.flatMap fun
  | (_, .stored _ ch) => [ch]
  | _ => []

/-- The ring holds the bytes that wait. -/
structure RxFifo.Holds (f : RxFifo) (q : Recent UInt8) : Prop where
  sound : q.Sound (spiSlaveRxFifoLen - 1)
  putIndex : f.putIndex.toNat = q.arrived.length % spiSlaveRxFifoLen
  getIndex : f.getIndex.toNat = q.next % spiSlaveRxFifoLen
  cells : f.buffer.Stream spiSlaveRxFifoLen q.arrived q.next
  full : f.isFull = true → q.unread.length = spiSlaveRxFifoLen - 1

/-- The bytes that a call without interrupts stores. -/
def share (rxBuf len : UInt32) (unread : List UInt8) : Nat :=
  if rxBuf = 0 then 0 else min len.toNat unread.length

/-- A call into a buffer begins, and its loop makes as many rounds as there are bytes, and one. -/
def callEvents (rxBuf len : UInt32) (unread : List UInt8) : List Event :=
  .getRxData rxBuf len ::
    if rxBuf = 0 then [] else List.replicate (share rxBuf len unread + 1) .iterate

/-- Any call that no interrupt disturbs returns with its share of the bytes that wait. -/
def Delivers (s : Run RxFifo) (unread : List UInt8) : Prop :=
  ∀ rxBuf len, ∃ h t,
    (calls softwareFifo).execFrom s (callEvents rxBuf len unread) = some (h, t) ∧
      t.call = none ∧ storedIn h = unread.take (share rxBuf len unread) ∧
      (h.getLast?.map Prod.snd) = some (.returned (UInt32.ofNat (share rxBuf len unread)))

end Law

end BdkRtt.Driver.SpiSlave
