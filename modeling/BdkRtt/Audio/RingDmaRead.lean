import BdkRtt.Lib.Machine
import BdkRtt.Lib.Mem
import BdkRtt.Audio.DmaRing

namespace BdkRtt.Audio

open Lib

namespace DmaRead

/-- `RB_DMA_RD_ST`; the channel that `dma_ch` names is kept beside it. -/
structure RbDmaRdSt where
  address : UInt32
  capacity : UInt32
  wp : UInt32
  rp : UInt32

def rbInitDmaRead (addr capacity : UInt32) (ch : GdmaChannel) : RbDmaRdSt × GdmaChannel :=
  let rb := { address := addr, capacity := capacity, wp := 0, rp := 0 }
  (rb, (ch.setPauseAddr rb.address).trigger)

def rbClearDmaRead (rb : RbDmaRdSt) : RbDmaRdSt := { rb with wp := 0, rp := 0 }

/-- `CMD_GDMA_GET_SRC_READ_ADDR` into `rb->rp`. -/
def sampleRp (rb : RbDmaRdSt) (ch : GdmaChannel) : RbDmaRdSt :=
  { rb with rp := ch.current - rb.address }

/-- The stores of one `os_memcpy`, byte by byte. -/
def memcpy (dst : Nat) (xs : List UInt8) : List (Nat × UInt8) :=
  (List.range' dst xs.length).zip xs

/-- The copies of `rb_write_dma_read` and the `wp` they leave; `none` is the refusal. -/
def rbStoreDmaRead (rb : RbDmaRdSt) (buffer : Mem UInt8) (writeBytes : UInt32) :
    Option (List (Nat × UInt8) × UInt32) :=
  let rp := rb.rp
  if rb.wp ≥ rp then
    let remainBytes := rb.capacity - rb.wp + rp
    if remainBytes ≥ writeBytes + rwpSafeInterval then
      let remainBytes := rb.capacity - rb.wp
      if remainBytes ≥ writeBytes then
        some (memcpy rb.wp.toNat (buffer.read 0 writeBytes.toNat), rb.wp + writeBytes)
      else
        let wp := writeBytes - remainBytes
        some (memcpy rb.wp.toNat (buffer.read 0 remainBytes.toNat) ++
          memcpy 0 (buffer.read remainBytes.toNat wp.toNat), wp)
    else none
  else
    let remainBytes := rp - rb.wp
    if remainBytes ≥ writeBytes + rwpSafeInterval then
      some (memcpy rb.wp.toNat (buffer.read 0 writeBytes.toNat), rb.wp + writeBytes)
    else none

/-- The end of `rb_write_dma_read`: what becomes of a `wp` at the capacity. -/
def rbWrapDmaRead (rb : RbDmaRdSt) : RbDmaRdSt :=
  if rb.wp ≥ rb.capacity ∧ rb.rp ≠ 0 then { rb with wp := 0 } else rb

def rbGetFillSizeDmaRead (rb : RbDmaRdSt) : UInt32 := DmaRing.fillSize rb.capacity rb.rp rb.wp

def rbGetFreeSizeDmaRead (rb : RbDmaRdSt) : UInt32 := DmaRing.freeSize rb.capacity rb.rp rb.wp

/-- A call of `rb_write_dma_read` on the way: its arguments, the bytes still to be stored
and the `wp` for after them.  Nothing reads `rb->wp` in between, so that it is set once. -/
structure WriteCall where
  buffer : Mem UInt8
  size : UInt32
  count : UInt32
  stores : List (Nat × UInt8)
  wp : UInt32

structure State where
  rb : RbDmaRdSt
  dma : GdmaChannel
  mem : Mem UInt8
  call : Option WriteCall

/-- `write` goes up to the first copy, `store` copies one byte and `finish` sets the pause
address; `transfer` is the engine's, which may move a byte between any two of them. -/
inductive Event
  | write (buffer : Mem UInt8) (size count : UInt32)
  | store
  | finish
  | transfer
  | clear
  | getFillSize
  | getFreeSize

inductive Answer
  | busy
  | write (buffer : Mem UInt8) (size count ret : UInt32)
  | transferred (b : UInt8)
  | clear
  | fillSize (n : UInt32)
  | freeSize (n : UInt32)

def State.beginWrite (s : State) (buffer : Mem UInt8) (size count : UInt32) : State × Answer :=
  let writeBytes := size * count
  if writeBytes = 0 then (s, .write buffer size count 0)
  else
    let rb := sampleRp s.rb s.dma
    match rbStoreDmaRead rb buffer writeBytes with
    | none => ({ s with rb := rb }, .write buffer size count 0)
    | some (stores, wp) =>
      ({ s with rb := rb, call := some ⟨buffer, size, count, stores, wp⟩ }, .busy)

def State.finishWrite (s : State) (c : WriteCall) : State × Answer :=
  let rb := rbWrapDmaRead { s.rb with wp := c.wp }
  ({ s with rb := rb, dma := s.dma.setPauseAddr (rb.address + rb.wp), call := none },
    .write c.buffer c.size c.count (c.size * c.count))

/-- The engine reads the byte at its address unless it stands at the pause address. -/
def State.transfer (s : State) : Option (State × Answer) :=
  if s.dma.current = s.dma.pause then none
  else some ({ s with dma := s.dma.advance },
    .transferred (s.mem (s.dma.current - s.rb.address).toNat))

def State.step (s : State) (e : Event) : Option (State × Answer) :=
  match s.call, e with
  | _, .transfer => s.transfer
  | none, .write buffer size count => some (s.beginWrite buffer size count)
  | none, .clear => some ({ s with rb := rbClearDmaRead s.rb }, .clear)
  | none, .getFillSize =>
    let rb := sampleRp s.rb s.dma
    some ({ s with rb := rb }, .fillSize (rbGetFillSizeDmaRead rb))
  | none, .getFreeSize =>
    let rb := sampleRp s.rb s.dma
    some ({ s with rb := rb }, .freeSize (rbGetFreeSizeDmaRead rb))
  | some c, .store =>
    match c.stores with
    | (i, b) :: rest =>
      some ({ s with mem := s.mem.write i [b], call := some { c with stores := rest } }, .busy)
    | [] => none
  | some c, .finish =>
    match c.stores with
    | [] => some (s.finishWrite c)
    | _ => none
  | _, _ => none

/-- The channel looped over the buffer, as `audio_dac_config_dma` sets it up, and then
`rb_init_dma_read`. -/
def init (mem : Mem UInt8) (addr capacity : UInt32) (ch : GdmaChannel) : State :=
  let r := rbInitDmaRead addr capacity (ch.config addr addr (addr + capacity))
  { rb := r.1, dma := r.2, mem := mem, call := none }

def machine (mem : Mem UInt8) (addr capacity : UInt32) (ch : GdmaChannel) :
    Machine State Event Answer where
  init := init mem addr capacity ch
  step := State.step

end DmaRead

end BdkRtt.Audio
