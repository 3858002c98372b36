import BdkRtt.Audio.DataNode

universe u

namespace BdkRtt.Audio.IcodecDac

open Lib DataNode

/-- `AUDIO_SEND_BUFFER_SIZE` -/
def sendBufferSize : Nat := 2048

def dacDmaIrqEnable : UInt32 := 0x01
def dacIrqEnable : UInt32 := 0x04
def dacIsOpened : UInt32 := 0x10

def rtDeviceOflagWronly : UInt32 := 0x002

section Dma

/-- The DMA of the DAC.  Its addresses are counted from `send_fifo` on. -/
@[ext] structure Dma where
  enabled : Bool
  /-- Where the next word is read. -/
  srcAddr : Nat
  /-- Where the DMA stops; `none` for the address zero. -/
  srcPauseAddr : Option UInt32
  halfPending : Bool
  finishPending : Bool

def Dma.stopped (d : Dma) : Prop :=
  d.enabled = false ∨ d.srcPauseAddr.map UInt32.toNat = some d.srcAddr

instance (d : Dma) : Decidable d.stopped := inferInstanceAs (Decidable (_ ∨ _))

/-- The DMA behind the next word. -/
def Dma.next (d : Dma) : Dma :=
  let srcAddr := d.srcAddr + 4
  { d with
    srcAddr := if srcAddr = sendBufferSize then 0 else srcAddr
    halfPending := d.halfPending || srcAddr = sendBufferSize / 2
    finishPending := d.finishPending || srcAddr = sendBufferSize }

end Dma

section State

variable (β : Type u)

/-- The statement that `audio_codec_write` is in front of; `rt_data_node_write` has two critical
sections and `rt_data_node_read` its own parts. -/
inductive Writer
  | idle
  /-- In front of the second critical section of `rt_data_node_write`. -/
  | checked (node : RtDataNode β UInt8) (nextIndex writeIndex : Nat)
  /-- In front of the test of `paused`. -/
  | stored
  /-- In front of `rt_data_node_read`. -/
  | refill
  /-- In `rt_data_node_read`, with `fill_pos` as it was at the call. -/
  | reading (fillPos : UInt32) (reader : Reader β UInt8)
  /-- In front of the test of `result`. -/
  | compare (result : UInt32)
  /-- In front of `paused = 0`. -/
  | filled
  /-- In front of `dac_dma_addr_reset`. -/
  | resume
  /-- In front of `fill_pos += result`. -/
  | short (result : UInt32)
  /-- In front of `fill_size -= result`. -/
  | moved (result : UInt32)

/-- `struct audio_codec_device` with the DMA and the thread that writes.  `fill_pos` is counted
from `send_fifo` on. -/
structure State where
  nodeList : RtDataNodeList β UInt8
  sendFifo : Mem UInt8
  stat : UInt32
  dmaIrqCnt : UInt32
  paused : Bool
  fillPos : UInt32
  fillSize : UInt32
  dma : Dma
  writer : Writer β

structure Answer where
  /-- The node that a write puts into the list. -/
  stored : Option (RtDataNode β UInt8) := none
  /-- What `rt_data_node_write` returns, and `audio_codec_write` at its end. -/
  ret : Option Int32 := none
  /-- What a read copies to `send_fifo`. -/
  placed : List UInt8 := []
  settled : Option (Settled β UInt8) := none
  /-- `rt_data_node_empty` has run. -/
  emptied : Bool := false
  /-- The calls of `tx_complete`. -/
  completed : List β := []
  /-- What the DMA reads. -/
  played : List UInt8 := []

inductive Event
  | audioCodecWrite (node : RtDataNode β UInt8)
  /-- The write that has begun goes on with its next statement. -/
  | go
  | dma
  | dacDmaHalfHandler (fuel : Nat)
  | dacDmaFinishHandler (fuel : Nat)
  | codecCmdReset (fuel : Nat)
  | audioCodecOpen (oflag : UInt32)
  | audioCodecClose (fuel : Nat)

end State

section Functions

variable {β : Type u}

/-- The first critical section of `rt_data_node_write`, called by `audio_codec_write`. -/
def State.audioCodecWrite (s : State β) (node : RtDataNode β UInt8) : State β × Answer β :=
  let writeIndex := s.nodeList.writeIndex
  let nextIndex := s.nodeList.nextIndex writeIndex
  if nextIndex = s.nodeList.readIndex then ({ s with writer := .stored }, { ret := some (-1) })
  else ({ s with writer := .checked node nextIndex writeIndex }, {})

/-- A part of the read in `audio_codec_write`. -/
def State.read (s : State β) (fillPos readOffset : UInt32) (nodeList : RtDataNodeList β UInt8)
    (reader : Reader β UInt8) (a : DataNode.Answer β UInt8) : State β × Answer β :=
  ({ s with
      nodeList := nodeList
      sendFifo := s.sendFifo.write (fillPos + readOffset).toNat a.copied
      writer :=
        match a.returned with
        | none => .reading fillPos reader
        | some r => .compare r.ret.toUInt32 },
    { placed := a.copied, settled := a.settled, completed := a.completed })

/-- The next statement of `audio_codec_write`; `none` when there is none. -/
def State.go (s : State β) : Option (State β × Answer β) :=
  match s.writer with
  | .idle => none
  | .checked node nextIndex writeIndex =>
    some ({ s with
        nodeList :=
          { s.nodeList with
            node := s.nodeList.node.write writeIndex [node]
            writeIndex := nextIndex }
        writer := .stored },
      { stored := some node, ret := some node.dataSize.toInt32 })
  | .stored => some ({ s with writer := if s.paused then .refill else .idle }, {})
  | .refill =>
    let r := s.nodeList.rtDataNodeRead s.fillSize true
    some (s.read s.fillPos 0 s.nodeList r.1 r.2)
  | .reading fillPos reader =>
    (s.nodeList.readGo reader).map fun r => s.read fillPos reader.readOffset r.1 r.2.1 r.2.2
  | .compare result =>
    some ({ s with writer := if result = s.fillSize then .filled else .short result }, {})
  | .filled => some ({ s with paused := false, writer := .resume }, {})
  | .resume => some ({ s with dma := { s.dma with srcPauseAddr := none }, writer := .idle }, {})
  | .short result => some ({ s with fillPos := s.fillPos + result, writer := .moved result }, {})
  | .moved result => some ({ s with fillSize := s.fillSize - result, writer := .idle }, {})

/-- The two handlers: `fill` is the half that has been played and `pause` the last word of the
other one. -/
def State.dacDmaHandler (s : State β) (fuel : Nat) (fill pause : UInt32) :
    Option (State β × Answer β) :=
  let sendFifo := s.sendFifo.write fill.toNat (List.replicate (sendBufferSize / 2) 0)
  if s.nodeList.readIndex = s.nodeList.writeIndex then
    some ({ s with
        sendFifo := sendFifo
        paused := true
        fillPos := fill
        fillSize := 1024
        dma := { s.dma with srcPauseAddr := some pause } }, {})
  else
    (s.nodeList.readWhole fuel 1024 true).bind fun q => q.2.2.map fun r =>
      let s := { s with nodeList := q.1, sendFifo := sendFifo.write fill.toNat r.dst }
      let a : Answer β :=
        { placed := r.dst
          settled := some { size := 1024, taken := r.taken, finished := q.2.1 }
          completed := q.2.1 }
      if r.ret < 1024 then
        ({ s with
            paused := true
            fillPos := fill + r.ret.toUInt32
            fillSize := 1024 - r.ret.toUInt32
            dma := { s.dma with srcPauseAddr := some pause } }, a)
      else (s, a)

def State.dacDmaHalfHandler (s : State β) (fuel : Nat) : Option (State β × Answer β) :=
  s.dacDmaHandler fuel 0 2044

def State.dacDmaFinishHandler (s : State β) (fuel : Nat) : Option (State β × Answer β) :=
  { s with dmaIrqCnt := s.dmaIrqCnt + 1 }.dacDmaHandler fuel 1024 1020

/-- `rt_data_node_empty` on the list of the device. -/
def State.empty (s : State β) (fuel : Nat) : Option (State β × Answer β) :=
  (s.nodeList.rtDataNodeEmpty fuel fuel).map fun r =>
    ({ s with nodeList := r.1 }, { emptied := true, completed := r.2 })

/-- `audio_codec_open` resets the pause address of a device that is not open. -/
abbrev State.Opens (s : State β) (oflag : UInt32) : Prop :=
  oflag &&& rtDeviceOflagWronly ≠ 0 ∧ s.stat &&& dacIsOpened = 0

def State.audioCodecOpen (s : State β) (oflag : UInt32) : State β :=
  if s.Opens oflag then
    { s with
      dmaIrqCnt := 0
      dma := { s.dma with srcPauseAddr := none, enabled := true }
      stat := s.stat ||| (dacDmaIrqEnable ||| dacIsOpened) }
  else s

/-- `audio_codec_close` empties the list of a device that is open. -/
abbrev State.Closes (s : State β) : Prop :=
  (s.stat &&& dacDmaIrqEnable ≠ 0 ∨ s.stat &&& dacIrqEnable ≠ 0) ∧ s.stat &&& dacIsOpened ≠ 0

def State.audioCodecClose (s : State β) (fuel : Nat) : Option (State β × Answer β) :=
  if s.Closes then
    (s.empty fuel).map fun r =>
      ({ r.1 with stat := r.1.stat &&& ~~~(dacDmaIrqEnable ||| dacIrqEnable ||| dacIsOpened) }, r.2)
  else some (s, {})

end Functions

section Machine

variable {β : Type u}

def State.step (s : State β) : Event β → Option (State β × Answer β)
  | .audioCodecWrite node =>
    match s.writer with
    | .idle => some (s.audioCodecWrite node)
    | _ => none
  | .go => s.go
  | .dma =>
    if s.dma.stopped then none
    else some ({ s with dma := s.dma.next }, { played := s.sendFifo.read s.dma.srcAddr 4 })
  | .dacDmaHalfHandler fuel =>
    if s.dma.halfPending then
      { s with dma := { s.dma with halfPending := false } }.dacDmaHalfHandler fuel
    else none
  | .dacDmaFinishHandler fuel =>
    if s.dma.finishPending then
      { s with dma := { s.dma with finishPending := false } }.dacDmaFinishHandler fuel
    else none
  | .codecCmdReset fuel => s.empty fuel
  | .audioCodecOpen oflag => some (s.audioCodecOpen oflag, {})
  | .audioCodecClose fuel => s.audioCodecClose fuel

/-- `rt_audio_codec_hw_init` -/
def init [Inhabited β] : State β where
  nodeList := rtDataNodeInit 12
  sendFifo := fun _ => 0
  stat := 0
  dmaIrqCnt := 0
  paused := false
  fillPos := 0
  fillSize := 0
  dma :=
    { enabled := false, srcAddr := 0, srcPauseAddr := none
      halfPending := false, finishPending := false }
  writer := .idle

def icodecDac [Inhabited β] : Machine (State β) (Event β) (Answer β) where
  init := init
  step := State.step

end Machine

end BdkRtt.Audio.IcodecDac
