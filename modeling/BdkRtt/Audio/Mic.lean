import BdkRtt.Lib.Bytes
import BdkRtt.Lib.Circle
import BdkRtt.Lib.Machine

namespace BdkRtt.Audio.Mic

open Lib

/-- `AUDIO_RECV_BUFFER_LEN` -/
def audioRecvBufferLen : Nat := 160 * 2 * 4

/-- `AUDIO_RECV_BUFFER_CNT` -/
def audioRecvBufferCnt : Nat := 4

def recvFifoLen : Nat := audioRecvBufferLen * audioRecvBufferCnt

def adcDmaIrqEnable : UInt32 := 0x02
def adcIrqEnable : UInt32 := 0x08
def adcIsOpened : UInt32 := 0x40

def rtDeviceOflagRdonly : UInt16 := 0x001

def codecCmdSetVolume : Int32 := 1
def codecCmdSamplerate : Int32 := 3
def codecCmdSetChannel : Int32 := 4

def rtEok : Int32 := 0
def rtError : Int32 := 1

section State

/-- The channel of the DMA that stores the samples. -/
structure Dma where
  enabled : Bool
  srcdatWidth : Nat
  /-- The bytes that have been stored since `adc_dma_init`. -/
  stored : Nat
  finishPending : Bool

/-- `gdma_get_dest_write_addr`, counted from `recv_fifo` on. -/
def Dma.writeAddr (d : Dma) : Nat := d.stored % recvFifoLen

/-- `struct audio_mic_device` with the enable bit of the ADC and its DMA.  `cur_ptr` is counted from
`recv_fifo` on, and so are the cells of `recvFifo`; those from `recv_fifo_len` on are somebody
else's. -/
structure State where
  recvFifo : Mem UInt8
  curPtr : Nat
  nChannel : UInt32
  stat : UInt32
  enableBit : Bool
  dma : Dma
  /-- What had been stored when `adc_dma_finish_handler` ran last; the code does not have it. -/
  served : Nat

/-- The call of `rt_device_write` on the record pipe. -/
structure Write where
  buffer : Nat
  bytes : List UInt8

structure Answer where
  ret : Int32 := rtEok
  /-- `adc_dma_init` has run. -/
  initialised : Bool := false
  /-- What the DMA stores. -/
  stored : List UInt8 := []
  written : Option Write := none

inductive Event
  | audioAdcOpen (oflag : UInt16)
  | audioAdcControl (cmd : Int32) (arg : UInt32)
  | audioAdcClose
  /-- The DMA stores a word of `dstdat_width`. -/
  | dma (word : UInt32)
  | adcDmaFinishHandler

end State

section Functions

/-- The DMA is set up anew from `recv_fifo` on; `cur_ptr` stays where it is. -/
def State.adcDmaInit (s : State) : State :=
  { s with
    dma :=
      { s.dma with
        enabled := false
        srcdatWidth := if s.nChannel = 1 then 16 else 32
        stored := 0 }
    served := 0 }

def State.setDma (s : State) (enable : Bool) : State :=
  { s with dma := { s.dma with enabled := enable } }

/-- `audio_adc_open` does something for a device that is not open. -/
abbrev State.Opens (s : State) (oflag : UInt16) : Prop :=
  oflag &&& rtDeviceOflagRdonly ≠ 0 ∧ s.stat &&& adcIsOpened = 0

def State.audioAdcOpen (s : State) (oflag : UInt16) : State × Answer :=
  if s.Opens oflag then
    ({ s.adcDmaInit.setDma true with
        enableBit := true
        stat := s.stat ||| adcDmaIrqEnable ||| adcIsOpened },
      { initialised := true })
  else (s, {})

/-- `CODEC_CMD_SET_CHANNEL` -/
def State.setChannel (s : State) (arg : UInt32) : State × Answer :=
  if s.stat &&& adcIsOpened ≠ 0 then
    ({ { s with nChannel := arg }.adcDmaInit.setDma true with enableBit := true },
      { initialised := true })
  else ({ s with nChannel := arg }, {})

/-- The sample rate and the volume are registers that nothing here reads. -/
def State.audioAdcControl (s : State) (cmd : Int32) (arg : UInt32) : State × Answer :=
  if cmd = codecCmdSetChannel then s.setChannel arg
  else if cmd = codecCmdSetVolume then (s, {})
  else if cmd = codecCmdSamplerate then
    if s.stat &&& adcIsOpened ≠ 0 then ({ s.setDma true with enableBit := true }, {})
    else (s, {})
  else (s, { ret := rtError })

/-- `audio_adc_close` does something for a device that is open. -/
abbrev State.Closes (s : State) : Prop :=
  (s.stat &&& adcDmaIrqEnable ≠ 0 ∨ s.stat &&& adcIrqEnable ≠ 0) ∧ s.stat &&& adcIsOpened ≠ 0

def State.audioAdcClose (s : State) : State :=
  if s.Closes then
    { s.setDma false with
      enableBit := false
      nChannel := 1
      stat := s.stat &&& ~~~(adcDmaIrqEnable ||| adcIrqEnable ||| adcIsOpened) }
  else s

/-- The DMA goes round the buffer, and every `dma translen` bytes it asks for the handler. -/
def State.dmaStore (s : State) (word : UInt32) : State :=
  let stored := s.dma.stored + 4
  { s with
    recvFifo := s.recvFifo.write s.dma.writeAddr (le32 word)
    dma :=
      { s.dma with
        stored := stored
        finishPending := s.dma.finishPending || stored % audioRecvBufferLen = 0 } }

def State.adcDmaFinishHandler (s : State) : State × Answer :=
  let writePtrBak := s.dma.writeAddr
  let writePtr :=
    if writePtrBak < s.curPtr then recvFifoLen - s.curPtr + writePtrBak
    else writePtrBak - s.curPtr
  ({ s with curPtr := writePtrBak, served := s.dma.stored },
    { written := some ⟨s.curPtr, s.recvFifo.read s.curPtr writePtr⟩ })

end Functions

section Machine

def State.step (s : State) : Event → Option (State × Answer)
  | .audioAdcOpen oflag => some (s.audioAdcOpen oflag)
  | .audioAdcControl cmd arg => some (s.audioAdcControl cmd arg)
  | .audioAdcClose => some (s.audioAdcClose, {})
  | .dma word =>
    if s.dma.enabled && s.enableBit then some (s.dmaStore word, { stored := le32 word }) else none
  | .adcDmaFinishHandler =>
    if s.dma.finishPending then
      some { s with dma := { s.dma with finishPending := false } }.adcDmaFinishHandler
    else none

/-- `rt_audio_adc_hw_init`, in a memory that holds `memory`. -/
def init (memory : Mem UInt8) : State where
  recvFifo := memory.write 0 (List.replicate recvFifoLen 0)
  curPtr := 0
  nChannel := 1
  stat := 0
  enableBit := false
  dma := { enabled := false, srcdatWidth := 16, stored := 0, finishPending := false }
  served := 0

def mic (memory : Mem UInt8) : Machine State Event Answer where
  init := init memory
  step := State.step

end Machine

end BdkRtt.Audio.Mic
