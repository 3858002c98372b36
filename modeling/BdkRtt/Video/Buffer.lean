import BdkRtt.Lib.Machine
import BdkRtt.Lib.Space
import Mathlib.Algebra.Group.Nat.Defs

namespace BdkRtt.Video

open Lib

/-- `VB_HDR_ST`, the four bytes in front of every payload. -/
structure VbHdr where
  id : UInt8
  isEof : UInt8
  pktCnt : UInt8
  pktSeq : UInt8
  deriving DecidableEq

/-- `sizeof(VB_HDR_ST)` -/
def vbHdrSize : Nat := 4

def vbHdr (data : List UInt8) : VbHdr where
  id := data.getD 0 0
  isEof := data.getD 1 0
  pktCnt := data.getD 2 0
  pktSeq := data.getD 3 0

/-- `BUF_STA_DONE`, `BUF_STA_COPY`, `BUF_STA_FULL` -/
inductive BufSta
  | done | copy | full
  deriving DecidableEq

/-- `VBUF_ST`; the semaphore is the count of posts not yet taken. -/
structure VbufSt where
  areadySemaphore : Nat
  bufBase : UInt32
  bufLen : UInt32
  frameId : UInt32
  framePktCnt : UInt32
  bufPtr : UInt32
  frameLen : UInt32
  startBuf : BufSta
  deriving DecidableEq

def null : UInt32 := 0

def VbufSt.opened : VbufSt where
  areadySemaphore := 0
  bufBase := null
  bufLen := 0
  frameId := 0xffff
  framePktCnt := 0
  bufPtr := null
  frameLen := 0
  startBuf := .done

/-- `video_buffer_open`: the results of `os_malloc`, `rtos_init_semaphore` and
`video_transfer_init` come from outside. -/
def videoBufferOpen (gVbuf : Option VbufSt) (mallocOk semOk : Bool) (transfer : Int) :
    Option VbufSt × Int :=
  match gVbuf with
  | some g => (some g, 0)
  | none =>
    if mallocOk = false ∨ semOk = false then (none, 0)
    else if transfer ≠ 0 then (none, transfer)
    else (some .opened, 0)

/-- The first packet of a frame with another id resets the copy, whatever `start_buf` is. -/
def VbufSt.startsFrame (g : VbufSt) (hdr : VbHdr) : Prop :=
  hdr.id.toUInt32 ≠ g.frameId ∧ hdr.pktSeq = 1

instance (g : VbufSt) (hdr : VbHdr) : Decidable (g.startsFrame hdr) :=
  inferInstanceAs (Decidable (_ ∧ _))

def VbufSt.startOfFrame (g : VbufSt) (hdr : VbHdr) : VbufSt :=
  if g.startsFrame hdr then
    { g with
      frameId := hdr.id.toUInt32
      frameLen := 0
      framePktCnt := 0
      bufPtr := g.bufBase
      startBuf := .copy }
  else g

/-- The packet the frame being copied waits for. -/
def VbufSt.expects (g : VbufSt) (hdr : VbHdr) : Prop :=
  hdr.id.toUInt32 = g.frameId ∧ g.framePktCnt + 1 = hdr.pktSeq.toUInt32 ∧ g.startBuf = .copy

instance (g : VbufSt) (hdr : VbHdr) : Decidable (g.expects hdr) :=
  inferInstanceAs (Decidable (_ ∧ _ ∧ _))

def VbufSt.leftLen (g : VbufSt) : UInt32 := g.bufLen - g.frameLen

/-- The check of a finished frame, with the addresses it reads: `&&` stops at the first
byte that differs. -/
def checkImage (mem : Space UInt8) (bufBase frameLen : UInt32) : Bool × List UInt32 :=
  let sofPtr := bufBase
  let eofPtr := bufBase + (frameLen - 7)
  let crcPtr := eofPtr + 3
  let soi := [sofPtr, sofPtr + 1]
  let eoi := [eofPtr, eofPtr + 1]
  let trailer := [crcPtr, crcPtr + 1, crcPtr + 2, crcPtr + 3]
  if mem sofPtr ≠ 0xff then (false, soi.take 1)
  else if mem (sofPtr + 1) ≠ 0xd8 then (false, soi)
  else if mem eofPtr ≠ 0xff then (false, soi ++ eoi.take 1)
  else if mem (eofPtr + 1) ≠ 0xd9 then (false, soi ++ eoi)
  else
    let pLen := (mem crcPtr).toUInt32 + ((mem (crcPtr + 1)).toUInt32 <<< 8) +
      ((mem (crcPtr + 2)).toUInt32 <<< 16) + ((mem (crcPtr + 3)).toUInt32 <<< 24)
    (pLen == frameLen - 5, soi ++ eoi ++ trailer)

/-- What a call of `video_buffer_recv_video_data` leaves, and the buffer addresses it
wrote and examined. -/
structure Recv where
  vbuf : VbufSt
  mem : Space UInt8
  ret : UInt32
  written : List UInt32 := []
  examined : List UInt32 := []

def VbufSt.advance (g : VbufSt) (orgLen : UInt32) : VbufSt :=
  { g with
    frameLen := g.frameLen + orgLen
    bufPtr := g.bufPtr + orgLen
    framePktCnt := g.framePktCnt + 1 }

def VbufSt.complete (g : VbufSt) : VbufSt :=
  { g with startBuf := .done, areadySemaphore := g.areadySemaphore + 1 }

/-- The branch for the expected packet. -/
def copyPacket (g : VbufSt) (mem : Space UInt8) (data : List UInt8) (len : UInt32) : Recv :=
  let hdr := vbHdr data
  let orgLen := len - UInt32.ofNat vbHdrSize
  if orgLen ≤ g.leftLen then
    let mem := mem.store g.bufPtr (data.drop vbHdrSize)
    let written := Space.span g.bufPtr orgLen.toNat
    let g := g.advance orgLen
    if hdr.isEof = 1 then
      let check := checkImage mem g.bufBase g.frameLen
      { vbuf := if check.1 then g.complete else g, mem := mem, ret := len
        written := written, examined := check.2 }
    else { vbuf := g, mem := mem, ret := len, written := written }
  else { vbuf := { g with startBuf := .full }, mem := mem, ret := len }

def videoBufferRecvVideoData (g : VbufSt) (mem : Space UInt8) (data : List UInt8) : Recv :=
  let len := UInt32.ofNat data.length
  if g.bufBase = null then { vbuf := g, mem := mem, ret := len }
  else if len < UInt32.ofNat vbHdrSize then { vbuf := g, mem := mem, ret := len }
  else
    let hdr := vbHdr data
    let g := g.startOfFrame hdr
    if g.expects hdr then copyPacket g mem data len
    else { vbuf := g, mem := mem, ret := len }

/-- A packet as handed over.  `frame` is the frame the sender cut it from, which the code
knows only by the 8-bit id in the header. -/
structure Packet where
  frame : Nat
  data : List UInt8
  length_lt : data.length < 2 ^ 32

def Packet.hdr (p : Packet) : VbHdr := vbHdr p.data
def Packet.len (p : Packet) : UInt32 := UInt32.ofNat p.data.length
def Packet.orgLen (p : Packet) : UInt32 := p.len - UInt32.ofNat vbHdrSize
def Packet.payload (p : Packet) : List UInt8 := p.data.drop vbHdrSize

/-- The thread in `video_buffer_read_frame`: it takes old posts, lends the buffer, blocks,
reads `frame_len` once woken, and takes the buffer back when it returns. -/
inductive Reader
  | idle
  | lending (buf bufLen : UInt32)
  | blocked (buf bufLen : UInt32)
  | woken (buf bufLen : UInt32)
  | loaded (buf bufLen frameLen : UInt32)
  deriving DecidableEq

/-- The buffer of the read call that is pending. -/
def Reader.lent : Reader → Option (UInt32 × UInt32)
  | .blocked b l | .woken b l | .loaded b l _ => some (b, l)
  | _ => none

/-- The pending call has lent the cell at `a` to the driver. -/
def Reader.lends (r : Reader) (a : UInt32) : Bool :=
  match r.lent with
  | some (b, l) => a - b < l
  | none => false

/-- The driver, the memory, the reader, and for the frame being copied the packets taken
and the addresses filled. -/
structure Session where
  gVbuf : Option VbufSt
  mem : Space UInt8
  reader : Reader
  taken : List Packet
  copied : List UInt32

/-- `outside` is a store by anyone else, who keeps off the lent buffer. -/
inductive Event
  | openBuffer (mallocOk semOk : Bool) (transfer : Int)
  | readFrame (buf bufLen : UInt32)
  | lend
  | wake
  | load
  | giveBack
  | recv (p : Packet)
  | outside (a : UInt32) (x : UInt8)

inductive Answer
  | none
  | accessed (written examined : List UInt32)
  | returned (frameLen : UInt32)
  deriving DecidableEq

/-- The packets and addresses still belonging to the frame being copied when `p` arrives. -/
def Session.kept (s : Session) (g : VbufSt) (p : Packet) : List Packet × List UInt32 :=
  if g.startsFrame p.hdr then ([], []) else (s.taken, s.copied)

def VbufSt.takes (g : VbufSt) (p : Packet) : Prop :=
  (g.startOfFrame p.hdr).expects p.hdr ∧ p.orgLen ≤ (g.startOfFrame p.hdr).leftLen

instance (g : VbufSt) (p : Packet) : Decidable (g.takes p) :=
  inferInstanceAs (Decidable (_ ∧ _))

def recvStep (s : Session) (g : VbufSt) (p : Packet) : Session × Answer :=
  let r := videoBufferRecvVideoData g s.mem p.data
  let t :=
    if g.bufBase = null ∨ p.len < UInt32.ofNat vbHdrSize then (s.taken, s.copied)
    else if g.takes p then
      ((s.kept g p).1 ++ [p],
        (s.kept g p).2 ++ Space.span (g.startOfFrame p.hdr).bufPtr p.orgLen.toNat)
    else s.kept g p
  ({ s with gVbuf := some r.vbuf, mem := r.mem, taken := t.1, copied := t.2 },
    .accessed r.written r.examined)

def step (s : Session) : Event → Option (Session × Answer)
  | .openBuffer mallocOk semOk transfer =>
    some ({ s with gVbuf := (videoBufferOpen s.gVbuf mallocOk semOk transfer).1 }, .none)
  | .readFrame buf bufLen =>
    match s.reader with
    | .idle =>
      if buf = null ∨ bufLen = 0 then some (s, .returned 0)
      else match s.gVbuf with
        | none => some (s, .returned 0)
        | some g =>
          if g.bufBase = null then
            some ({ s with
              gVbuf := some { g with areadySemaphore := 0 }
              reader := .lending buf bufLen }, .none)
          else some (s, .returned 0)
    | _ => none
  | .lend =>
    match s.reader, s.gVbuf with
    | .lending b l, some g =>
      some ({ s with
        gVbuf := some { g with bufBase := b, bufLen := l }
        reader := .blocked b l }, .none)
    | _, _ => none
  | .wake =>
    match s.reader, s.gVbuf with
    | .blocked b l, some g =>
      if g.areadySemaphore = 0 then none
      else some ({ s with
        gVbuf := some { g with areadySemaphore := g.areadySemaphore - 1 }
        reader := .woken b l }, .none)
    | _, _ => none
  | .load =>
    match s.reader, s.gVbuf with
    | .woken b l, some g => some ({ s with reader := .loaded b l g.frameLen }, .none)
    | _, _ => none
  | .giveBack =>
    match s.reader, s.gVbuf with
    | .loaded _ _ n, some g =>
      some ({ s with
        gVbuf := some { g with bufBase := null, bufLen := 0 }
        reader := .idle }, .returned n)
    | _, _ => none
  | .recv p =>
    match s.gVbuf with
    | some g => some (recvStep s g p)
    | none => none
  | .outside a x =>
    if s.reader.lends a then none else some ({ s with mem := s.mem.store a [x] }, .none)

def video (mem : Space UInt8) : Machine Session Event Answer where
  init := { gVbuf := none, mem := mem, reader := .idle, taken := [], copied := [] }
  step := step

end BdkRtt.Video
