import BdkRtt.Lib.Machine
import BdkRtt.Lib.Mem
import Mathlib.Logic.Function.Basic

namespace BdkRtt.Wlan.PingPong

open Lib

/-- `BUF_LEN`, which is `AIRKISS_MIN_RX_BUF_SIZE` -/
def bufLen : Nat := 24

inductive BufId
  | buf1
  | buf2
deriving DecidableEq

/-- `struct buff_str`, with `addr` counted from the start of the memory of `pingpong_init` on. -/
structure BuffStr where
  addr : Nat
  nextBufAddr : BufId
  readEnable : Bool
  writeEnable : Bool
  length : Nat
  offset : Nat
  actual : UInt32

/-- What a caller of `write_to_pingpong_buf` hands over; `count` is the number of bytes. -/
structure Frame where
  bytes : List UInt8
  actual : UInt32
deriving DecidableEq

/-- What a call of `read_from_pingpong_buf` stores in `buf_user` and in `*actual`. -/
structure Stored where
  bytes : List UInt8
  actual : UInt32
deriving DecidableEq

section State

/-- Where the reader is in `read_from_pingpong_buf`, with its locals.  A statement that touches
nothing but locals is one step with the next that does. -/
inductive Reader
  | idle
  /-- `if (pp_buf->read_switch)` -/
  | enter (count : Nat)
  /-- `pp_buf->current_read = pp_buf->current_read->next_buf_addr` -/
  | advance (count : Nat)
  /-- `pp_buf->read_switch = 0` -/
  | clear (count : Nat)
  /-- `buf = pp_buf->current_read` -/
  | select (count : Nat)
  /-- The first section with interrupts disabled. -/
  | check (count : Nat) (buf : BufId)
  /-- `len = min(count, buf->length - buf->offset)` -/
  | measure (count : Nat) (buf : BufId)
  /-- `os_memcpy(buf_user, buf->addr, len)` -/
  | copy (count : Nat) (buf : BufId) (len : Nat)
  /-- `buf->offset += ret` -/
  | forward (count : Nat) (buf : BufId) (bytes : List UInt8)
  /-- `*actual = buf->actual` -/
  | stamp (count : Nat) (buf : BufId) (bytes : List UInt8)
  /-- The second section, and the return. -/
  | leave (count : Nat) (buf : BufId) (stored : Stored)

/-- Where the writer is in `write_to_pingpong_buf`. -/
inductive Writer
  | idle
  | enter (frame : Frame)
  | advance (frame : Frame)
  | clear (frame : Frame)
  | select (frame : Frame)
  | check (frame : Frame) (buf : BufId)
  /-- `os_memcpy(buf->addr, buf_user, len)` -/
  | copy (frame : Frame) (buf : BufId)
  /-- `buf->actual = actual` -/
  | stamp (frame : Frame) (buf : BufId)
  | leave (frame : Frame) (buf : BufId)

/-- `g_pp_buf` with the memory of both buffers, and the two parties. -/
structure State where
  mem : Mem UInt8
  buf : BufId → BuffStr
  currentRead : BufId
  readSwitch : Bool
  currentWrite : BufId
  writeSwitch : Bool
  reader : Reader
  writer : Writer

inductive Event
  | readCall (count : Nat)
  /-- The next step of the reader. -/
  | reader
  | writeCall (frame : Frame)
  | writer

inductive Answer
  | running
  | read (count ret : Nat) (stored : Option Stored)
  | wrote (frame : Frame) (ret : Nat)
deriving DecidableEq

end State

section Functions

/-- `buf->offset += ret` -/
def BuffStr.forward (x : BuffStr) (ret : Nat) : BuffStr := { x with offset := x.offset + ret }

def BuffStr.stamp (x : BuffStr) (actual : UInt32) : BuffStr := { x with actual := actual }

/-- The reader has got to the end of the buffer. -/
def BuffStr.release (x : BuffStr) : BuffStr :=
  { x with readEnable := false, writeEnable := true, offset := 0 }

/-- The writer has finished with the buffer. -/
def BuffStr.publish (x : BuffStr) : BuffStr :=
  { x with readEnable := true, writeEnable := false }

def State.setBuf (s : State) (b : BufId) (f : BuffStr → BuffStr) : State :=
  { s with buf := Function.update s.buf b (f (s.buf b)) }

def State.readFromPingpongBuf (s : State) : Option (State × Answer) :=
  match s.reader with
  | .idle => none
  | .enter count =>
    some ({ s with reader := if s.readSwitch then .advance count else .select count }, .running)
  | .advance count =>
    some ({ s with
      currentRead := (s.buf s.currentRead).nextBufAddr
      reader := .clear count }, .running)
  | .clear count => some ({ s with readSwitch := false, reader := .select count }, .running)
  | .select count => some ({ s with reader := .check count s.currentRead }, .running)
  | .check count b =>
    if (s.buf b).readEnable then some ({ s with reader := .measure count b }, .running)
    else some ({ s with reader := .idle }, .read count 0 none)
  | .measure count b =>
    let len := min count ((s.buf b).length - (s.buf b).offset)
    some ({ s with reader := .copy count b len }, .running)
  | .copy count b len =>
    some ({ s with reader := .forward count b (s.mem.read (s.buf b).addr len) }, .running)
  | .forward count b bytes =>
    some ({ s.setBuf b (·.forward bytes.length) with reader := .stamp count b bytes }, .running)
  | .stamp count b bytes =>
    some ({ s with reader := .leave count b ⟨bytes, (s.buf b).actual⟩ }, .running)
  | .leave count b stored =>
    some ({ s.setBuf b BuffStr.release with readSwitch := true, reader := .idle },
      .read count stored.bytes.length (some stored))

def State.writeToPingpongBuf (s : State) : Option (State × Answer) :=
  match s.writer with
  | .idle => none
  | .enter frame =>
    some ({ s with writer := if s.writeSwitch then .advance frame else .select frame }, .running)
  | .advance frame =>
    some ({ s with
      currentWrite := (s.buf s.currentWrite).nextBufAddr
      writer := .clear frame }, .running)
  | .clear frame => some ({ s with writeSwitch := false, writer := .select frame }, .running)
  | .select frame => some ({ s with writer := .check frame s.currentWrite }, .running)
  | .check frame b =>
    if (s.buf b).writeEnable then some ({ s with writer := .copy frame b }, .running)
    else some ({ s with writer := .idle }, .wrote frame 0)
  | .copy frame b =>
    let len := min bufLen frame.bytes.length
    some ({ s with
      mem := s.mem.write (s.buf b).addr (frame.bytes.take len)
      writer := .stamp frame b }, .running)
  | .stamp frame b =>
    some ({ s.setBuf b (·.stamp frame.actual) with writer := .leave frame b }, .running)
  | .leave frame b =>
    some ({ s.setBuf b BuffStr.publish with writeSwitch := true, writer := .idle },
      .wrote frame bufLen)

end Functions

section Machine

def State.step (s : State) : Event → Option (State × Answer)
  | .readCall count =>
    match s.reader with
    | .idle => some ({ s with reader := .enter count }, .running)
    | _ => none
  | .reader => s.readFromPingpongBuf
  | .writeCall frame =>
    match s.writer with
    | .idle => some ({ s with writer := .enter frame }, .running)
    | _ => none
  | .writer => s.writeToPingpongBuf

/-- `pingpong_init`, where `os_malloc` has given memory that holds `memory`.  It leaves `actual`
as it finds it. -/
def pingpongInit (memory : Mem UInt8) (actual : BufId → UInt32) : State where
  mem := memory
  buf
    | .buf1 => ⟨0, .buf2, false, true, bufLen, 0, actual .buf1⟩
    | .buf2 => ⟨bufLen, .buf1, false, true, bufLen, 0, actual .buf2⟩
  currentRead := .buf1
  readSwitch := false
  currentWrite := .buf1
  writeSwitch := false
  reader := .idle
  writer := .idle

def pingpong (memory : Mem UInt8) (actual : BufId → UInt32) : Machine State Event Answer where
  init := pingpongInit memory actual
  step := State.step

end Machine

end BdkRtt.Wlan.PingPong
