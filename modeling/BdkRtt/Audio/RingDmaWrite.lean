import BdkRtt.Lib.Machine
import BdkRtt.Lib.Mem
import BdkRtt.Audio.DmaRing

namespace BdkRtt.Audio

open Lib

namespace DmaWrite

/-- `RB_DMA_WR_ST`; the channel that `dma_ch` names is kept beside it. -/
structure RbDmaWrSt where
  address : UInt32
  capacity : UInt32
  wp : UInt32
  rp : UInt32

def rbInitDmaWrite (addr capacity : UInt32) (ch : GdmaChannel) : RbDmaWrSt × GdmaChannel :=
  let rb := { address := addr, capacity := capacity, wp := 0, rp := 0 }
  (rb, ch.setPauseAddr (rb.address + rb.capacity - rwpSafeInterval))

def rbClearDmaWrite (rb : RbDmaWrSt) (ch : GdmaChannel) : RbDmaWrSt × GdmaChannel :=
  let rb := { rb with wp := 0, rp := 0 }
  (rb, ch.setPauseAddr (rb.address + rb.capacity - rwpSafeInterval))

/-- `CMD_GDMA_GET_DST_WRITE_ADDR` into `rb->wp`. -/
def sampleWp (rb : RbDmaWrSt) (ch : GdmaChannel) : RbDmaWrSt :=
  { rb with wp := ch.current - rb.address }

/-- The cells one `os_memcpy` reads, byte by byte. -/
def memcpy (src n : UInt32) : List Nat := List.range' src.toNat n.toNat

/-- The cells `rb_read_dma_write` copies from, the `rp` it leaves and the value it returns. -/
def rbLoadDmaWrite (rb : RbDmaWrSt) (requiredBytes : UInt32) : List Nat × UInt32 × UInt32 :=
  let wp := rb.wp
  if wp ≥ rb.rp then
    let remainBytes := wp - rb.rp
    let readBytes := if requiredBytes > remainBytes then remainBytes else requiredBytes
    (memcpy rb.rp readBytes, rb.rp + readBytes, readBytes)
  else
    let remainBytes := rb.capacity - rb.rp
    if requiredBytes > remainBytes then
      let readBytes := remainBytes
      let cells := memcpy rb.rp readBytes
      if requiredBytes - readBytes > wp then
        (cells ++ memcpy 0 wp, wp, readBytes + wp)
      else
        (cells ++ memcpy 0 (requiredBytes - readBytes), requiredBytes - readBytes, requiredBytes)
    else
      let readBytes := requiredBytes
      (memcpy rb.rp readBytes, rb.rp + readBytes, readBytes)

/-- The pause address at the end of `rb_read_dma_write`. -/
def rbPauseDmaWrite (rb : RbDmaWrSt) : UInt32 :=
  if rb.rp ≥ rwpSafeInterval then rb.address + rb.rp - rwpSafeInterval
  else rb.address + rb.capacity + rb.rp - rwpSafeInterval

def rbGetFillSizeDmaWrite (rb : RbDmaWrSt) : UInt32 := DmaRing.fillSize rb.capacity rb.rp rb.wp

def rbGetFreeSizeDmaWrite (rb : RbDmaWrSt) : UInt32 := DmaRing.freeSize rb.capacity rb.rp rb.wp

/-- A call of `rb_read_dma_write` on the way: the cells still to be copied from, the bytes
copied so far, the `rp` for after them and the value to return.  Nothing reads `rb->rp` in
between, so that it is set once. -/
structure ReadCall where
  cells : List Nat
  bytes : List UInt8
  rp : UInt32
  readBytes : UInt32

structure State where
  rb : RbDmaWrSt
  dma : GdmaChannel
  mem : Mem UInt8
  call : Option ReadCall

/-- `read` goes up to the first copy, `load` copies one byte and `finish` sets the pause
address; `store` is the engine's, which may bring a byte between any two of them. -/
inductive Event
  | read (size count : UInt32)
  | load
  | finish
  | store (b : UInt8)
  | clear
  | getFillSize
  | getFreeSize

inductive Answer
  | busy
  | read (bytes : List UInt8) (ret : UInt32)
  | stored (b : UInt8)
  | clear
  | fillSize (n : UInt32)
  | freeSize (n : UInt32)

def State.beginRead (s : State) (size count : UInt32) : State × Answer :=
  let requiredBytes := size * count
  if requiredBytes = 0 then (s, .read [] 0)
  else
    let rb := sampleWp s.rb s.dma
    let r := rbLoadDmaWrite rb requiredBytes
    ({ s with rb := rb, call := some ⟨r.1, [], r.2.1, r.2.2⟩ }, .busy)

def State.finishRead (s : State) (c : ReadCall) : State × Answer :=
  let rb := { s.rb with rp := c.rp }
  ({ s with rb := rb, dma := s.dma.setPauseAddr (rbPauseDmaWrite rb), call := none },
    .read c.bytes c.readBytes)

/-- The engine puts the byte at its address unless it stands at the pause address. -/
def State.store (s : State) (b : UInt8) : Option (State × Answer) :=
  if s.dma.current = s.dma.pause then none
  else some ({ s with
    mem := s.mem.write (s.dma.current - s.rb.address).toNat [b]
    dma := s.dma.advance }, .stored b)

def State.step (s : State) (e : Event) : Option (State × Answer) :=
  match s.call, e with
  | _, .store b => s.store b
  | none, .read size count => some (s.beginRead size count)
  | none, .clear =>
    let r := rbClearDmaWrite s.rb s.dma
    some ({ s with rb := r.1, dma := r.2 }, .clear)
  | none, .getFillSize =>
    let rb := sampleWp s.rb s.dma
    some ({ s with rb := rb }, .fillSize (rbGetFillSizeDmaWrite rb))
  | none, .getFreeSize =>
    let rb := sampleWp s.rb s.dma
    some ({ s with rb := rb }, .freeSize (rbGetFreeSizeDmaWrite rb))
  | some c, .load =>
    match c.cells with
    | i :: rest =>
      some ({ s with call := some { c with cells := rest, bytes := c.bytes ++ [s.mem i] } }, .busy)
    | [] => none
  | some c, .finish =>
    match c.cells with
    | [] => some (s.finishRead c)
    | _ => none
  | _, _ => none

/-- The channel looped over the buffer, as `audio_adc_config_dma` sets it up, and then
`rb_init_dma_write`. -/
def init (mem : Mem UInt8) (addr capacity : UInt32) (ch : GdmaChannel) : State :=
  let r := rbInitDmaWrite addr capacity (ch.config addr addr (addr + capacity))
  { rb := r.1, dma := r.2, mem := mem, call := none }

def machine (mem : Mem UInt8) (addr capacity : UInt32) (ch : GdmaChannel) :
    Machine State Event Answer where
  init := init mem addr capacity ch
  step := State.step

end DmaWrite

end BdkRtt.Audio
