import BdkRtt.Lib.Circle
import BdkRtt.Lib.Machine

namespace BdkRtt.Video.NodeRx

open Lib

section State

/-- The lengths in `SPIDMA_DESC_ST` and `DJPEG_DESC_ST`: `rxbuf` is a number of nodes. -/
structure Desc where
  rxbufLen : UInt16
  nodeLen : UInt32
  node_pos : 0 < nodeLen.toNat
  buf_pos : 0 < rxbufLen.toNat
  dvd : nodeLen.toNat ∣ rxbufLen.toNat

/-- The DMA goes round `rxbuf` and asks for its handler at the end of each node. -/
structure Dma where
  /-- The bytes that have been stored since the DMA was turned on. -/
  stored : Nat
  finishPending : Bool

/-- `CMD_GDMA_GET_LEFT_LEN`; it is the whole node again when a node is full. -/
def Dma.leftLen (d : Dma) (desc : Desc) : UInt32 :=
  desc.nodeLen - UInt32.ofNat (d.stored % desc.nodeLen.toNat)

structure State where
  rxbuf : Mem UInt8
  rxReadLen : UInt16
  dma : Dma

/-- The call of `node_full_handler`; `curptr` is counted from `rxbuf` on. -/
structure NodeFull where
  curptr : Nat
  bytes : List UInt8
  isEof : UInt32
  frameLen : UInt32

structure Answer where
  /-- What the DMA stores. -/
  stored : List UInt8 := []
  nodeFull : Option NodeFull := none
  /-- The DMA has been turned off and on. -/
  restarted : Bool := false
  /-- `data_end_handler` is called. -/
  dataEnd : Bool := false

inductive Event
  | dma (x : UInt8)
  | nodeRxHandler
  /-- The end of a frame, with what `EJPEG_CMD_GET_FRAME_LEN` returns. -/
  | frameEndHandler (frameLen : UInt32)

end State

section SpiHslave

/-- `spi_hslave_node_rx_handler` -/
def spiHslaveNodeRxHandler (desc : Desc) (s : State) : State × Answer :=
  let alreadyLen := s.rxReadLen
  let copyLen := (desc.nodeLen - alreadyLen.toUInt32 % desc.nodeLen).toUInt16
  ({ s with rxReadLen := (alreadyLen + copyLen) % desc.rxbufLen },
    { nodeFull := some ⟨alreadyLen.toNat, s.rxbuf.read alreadyLen.toNat copyLen.toNat, 0, 0⟩ })

/-- `spi_hslave_data_end_handler`, which has no `data_end_handler` to call. -/
def spiHslaveDataEndHandler (desc : Desc) (s : State) : State × Answer :=
  let alreadyLen := s.rxReadLen
  let recLen := desc.nodeLen - s.dma.leftLen desc - alreadyLen.toUInt32 % desc.nodeLen
  ({ s with rxReadLen := (alreadyLen.toUInt32 + recLen).toUInt16 % desc.rxbufLen },
    { nodeFull :=
        if 0 < recLen.toInt32 then
          some ⟨alreadyLen.toNat, s.rxbuf.read alreadyLen.toNat recLen.toNat, 0, 0⟩
        else none })

end SpiHslave

section Camera

/-- A handler of the two cameras that takes a node which is full. -/
def takeNode (desc : Desc) (s : State) : State × Answer :=
  let alreadyLen := s.rxReadLen
  let copyLen := desc.nodeLen.toUInt16
  let newLen := alreadyLen + copyLen
  ({ s with rxReadLen := if newLen ≥ desc.rxbufLen then 0 else newLen },
    { nodeFull := some ⟨alreadyLen.toNat, s.rxbuf.read alreadyLen.toNat copyLen.toNat, 0, 0⟩ })

/-- A handler of the two cameras that takes the rest of a frame.  The DMA is turned off and on, and
what `rx_read_len` was set to before is zero again. -/
def takeRest (desc : Desc) (s : State) (isEof frameLen : UInt32) : State × Answer :=
  let alreadyLen := s.rxReadLen
  let recLen := desc.nodeLen - s.dma.leftLen desc
  ({ s with rxReadLen := 0, dma := { s.dma with stored := 0 } },
    { nodeFull :=
        if 0 < recLen.toInt32 then
          some ⟨alreadyLen.toNat, s.rxbuf.read alreadyLen.toNat recLen.toNat, isEof, frameLen⟩
        else none
      restarted := true
      dataEnd := true })

/-- `spidma_intf_node_rx_handler` -/
def spidmaIntfNodeRxHandler (desc : Desc) (s : State) : State × Answer := takeNode desc s

/-- `spidma_intf_frame_end_handler` -/
def spidmaIntfFrameEndHandler (desc : Desc) (s : State) : State × Answer := takeRest desc s 0 0

/-- `camera_intf_ejpeg_rx_handler`, of a device that is open. -/
def cameraIntfEjpegRxHandler (desc : Desc) (s : State) : State × Answer := takeNode desc s

/-- `camera_intf_delay_timer_hdl`, of a device that is open. -/
def cameraIntfDelayTimerHdl (desc : Desc) (s : State) (frameLen : UInt32) : State × Answer :=
  takeRest desc s 1 frameLen

end Camera

section Machine

inductive Driver
  | spiHslave
  | spidmaIntf
  | cameraIntf
  deriving DecidableEq

def Driver.nodeRx : Driver → Desc → State → State × Answer
  | .spiHslave => spiHslaveNodeRxHandler
  | .spidmaIntf => spidmaIntfNodeRxHandler
  | .cameraIntf => cameraIntfEjpegRxHandler

def Driver.frameEnd : Driver → Desc → State → UInt32 → State × Answer
  | .spiHslave => fun desc s _ => spiHslaveDataEndHandler desc s
  | .spidmaIntf => fun desc s _ => spidmaIntfFrameEndHandler desc s
  | .cameraIntf => cameraIntfDelayTimerHdl

/-- The byte that the DMA stores next is the last one of its node. -/
def State.FillsNode (desc : Desc) (s : State) : Prop :=
  (s.dma.stored + 1) % desc.nodeLen.toNat = 0

instance (desc : Desc) (s : State) : Decidable (s.FillsNode desc) :=
  inferInstanceAs (Decidable (_ = _))

def State.dmaStore (desc : Desc) (s : State) (x : UInt8) : State :=
  { s with
    rxbuf := s.rxbuf.write (s.dma.stored % desc.rxbufLen.toNat) [x]
    dma :=
      { stored := s.dma.stored + 1
        finishPending := s.dma.finishPending || s.FillsNode desc } }

def State.step (driver : Driver) (desc : Desc) (s : State) : Event → Option (State × Answer)
  | .dma x => some (s.dmaStore desc x, { stored := [x] })
  | .nodeRxHandler =>
    if s.dma.finishPending then
      some (driver.nodeRx desc { s with dma := { s.dma with finishPending := false } })
    else none
  | .frameEndHandler frameLen => some (driver.frameEnd desc s frameLen)

/-- A device that has been opened, with what was in `rxbuf`. -/
def init (rxbuf : Mem UInt8) : State where
  rxbuf := rxbuf
  rxReadLen := 0
  dma := { stored := 0, finishPending := false }

def receiver (driver : Driver) (desc : Desc) (rxbuf : Mem UInt8) : Machine State Event Answer where
  init := init rxbuf
  step := State.step driver desc

end Machine

end BdkRtt.Video.NodeRx
