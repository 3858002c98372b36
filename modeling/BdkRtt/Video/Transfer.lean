import BdkRtt.Lib.Mem
import BdkRtt.Video.Buffer

namespace BdkRtt.Video

open Lib

/-- `TVIDEO_RXNODE_SIZE`, the bytes of a pool element. -/
def tvideoRxnodeSize : Nat := 1472

/-- `TVIDEO_POOL_LEN / TVIDEO_RXNODE_SIZE` -/
def tvideoElems : Nat := 25

/-- `node_len` as `tvideo_config_desc` sets it for `TVIDEO_SND_INTF` with this header. -/
def nodeLen : UInt32 := UInt32.ofNat (tvideoRxnodeSize - vbHdrSize)

/-- `TVIDEO_ELEM_ST` with the `buf_len` bytes from `buf_start` on. -/
structure TvideoElem where
  idx : Nat
  data : List UInt8
  fits : data.length ≤ tvideoRxnodeSize

def TvideoElem.hdr (e : TvideoElem) : VbHdr := vbHdr e.data

/-- `TVIDEO_POOL_ST` as `video_buffer_open` sets it up, with `g_pkt_seq`. -/
structure TvideoPool where
  free : List Nat
  ready : List TvideoElem
  frameId : UInt16
  gPktSeq : UInt32

/-- `tvideo_pool_init`; `g_pkt_seq` is not part of the pool and stays what it was. -/
def tvideoPoolInit (gPktSeq : UInt32) : TvideoPool where
  free := List.range tvideoElems
  ready := []
  frameId := 0
  gPktSeq := gPktSeq

/-- `TV_HDR_PARAM_ST` without the pointer. -/
structure TvHdrParam where
  ptklen : UInt32
  frameId : UInt32
  isEof : UInt32
  frameLen : UInt32

def VbHdr.bytes (hdr : VbHdr) : List UInt8 := [hdr.id, hdr.isEof, hdr.pktCnt, hdr.pktSeq]

/-- `video_buffer_add_pkt_header`: the header it writes and the next `g_pkt_seq`. -/
def videoBufferAddPktHeader (gPktSeq : UInt32) (param : TvHdrParam) : VbHdr × UInt32 :=
  let gPktSeq := gPktSeq + 1
  let hdr : VbHdr :=
    { id := param.frameId.toUInt8
      isEof := param.isEof.toUInt8
      pktCnt := param.frameLen.toUInt8
      pktSeq := gPktSeq.toUInt8 }
  (hdr, if param.isEof ≠ 0 then 0 else gPktSeq)

/-- `newlen` as it is when the node is copied. -/
def clip (newlen : UInt32) : UInt32 := if newlen > nodeLen then nodeLen else newlen

theorem clip_le (newlen : UInt32) : (clip newlen).toNat ≤ tvideoRxnodeSize - vbHdrSize := by
  unfold clip
  split
  · decide
  next h => exact UInt32.not_lt.mp h

/-- `tvideo_rx_handler`, with the element that it puts on the ready list. -/
def tvideoRxHandler (s : TvideoPool) (curptr : Mem UInt8) (newlen isEof frameLen : UInt32) :
    TvideoPool × Option TvideoElem :=
  if newlen = 0 then (s, none)
  else match s.free with
  | [] => (s, none) -- lost
  | idx :: free =>
    let ptklen := clip newlen
    let pktCnt :=
      if isEof ≠ 0 then
        frameLen / nodeLen + (if frameLen % nodeLen ≠ 0 then 1 else 0)
      else 0
    let out := videoBufferAddPktHeader s.gPktSeq
      { ptklen := ptklen
        frameId := s.frameId.toUInt32
        isEof := isEof
        frameLen := pktCnt }
    let elem : TvideoElem :=
      { idx := idx
        data := out.1.bytes ++ curptr.read 0 ptklen.toNat
        fits := by
          have := clip_le newlen
          simp only [tvideoRxnodeSize, vbHdrSize] at this
          simp only [VbHdr.bytes, List.length_append, List.length_cons, List.length_nil,
            Mem.length_read, tvideoRxnodeSize, ptklen]
          omega }
    ({ s with free := free, ready := s.ready ++ [elem], gPktSeq := out.2 }, some elem)

def tvideoEndFrameHandler (s : TvideoPool) : TvideoPool := { s with frameId := s.frameId + 1 }

/-- What a poll leaves, and the elements it has sent and taken off the ready list. -/
structure Polled where
  free : List Nat
  ready : List TvideoElem
  vbuf : VbufSt
  mem : Space UInt8
  sent : List TvideoElem

/-- `tvideo_poll_handler` with `video_buffer_recv_video_data` as its `send_func`. -/
def tvideoPollHandler (g : VbufSt) (mem : Space UInt8) (free : List Nat) :
    List TvideoElem → Polled
  | [] => { free := free, ready := [], vbuf := g, mem := mem, sent := [] }
  | elem :: ready =>
    let r := videoBufferRecvVideoData g mem elem.data
    if r.ret ≠ UInt32.ofNat elem.data.length then
      { free := free, ready := elem :: ready, vbuf := r.vbuf, mem := r.mem, sent := [] }
    else
      let rest := tvideoPollHandler r.vbuf r.mem (free ++ [elem.idx]) ready
      { rest with sent := elem :: rest.sent }

/-- `poll` is one round of the thread, with the receiver's state and memory at that time. -/
inductive TvideoEvent
  | nodeFull (curptr : Mem UInt8) (newlen isEof frameLen : UInt32)
  | endFrame
  | poll (g : VbufSt) (mem : Space UInt8)

inductive TvideoAnswer
  | none
  | queued (elem : Option TvideoElem)
  | polled (p : Polled)

def tvideoStep (s : TvideoPool) : TvideoEvent → TvideoPool × TvideoAnswer
  | .nodeFull curptr newlen isEof frameLen =>
    let r := tvideoRxHandler s curptr newlen isEof frameLen
    (r.1, .queued r.2)
  | .endFrame => (tvideoEndFrameHandler s, .none)
  | .poll g mem =>
    let p := tvideoPollHandler g mem s.free s.ready
    ({ s with free := p.free, ready := p.ready }, .polled p)

def tvideo (gPktSeq : UInt32) : Machine TvideoPool TvideoEvent TvideoAnswer where
  init := tvideoPoolInit gPktSeq
  step s e := some (tvideoStep s e)

end BdkRtt.Video
