import Mathlib.Algebra.Group.Nat.Defs
import Mathlib.Algebra.Group.Int.Defs
import BdkRtt.Lib.Machine
import BdkRtt.Mqtt.Packet

namespace BdkRtt.Mqtt

open Lib

section Receive

/-- What `recv` does: it takes up to `n` bytes that have arrived, finds none so far, or finds the
connection gone. -/
inductive Recv
  | ready (n : Nat)
  | again
  | gone

/-- What `recv_packet` returns, the bytes it has stored, and those of the peer still to come. -/
structure Received where
  bytes : Int
  buf : List UInt8
  stream : List UInt8

/-- The loop of `recv_packet`, with the answers of `recv` up to the one after which the time is
over. -/
def recvLoop (len : Nat) : List Recv → List UInt8 → List UInt8 → Received
  | [], buf, stream => ⟨buf.length, buf, stream⟩
  | .gone :: _, buf, stream => ⟨-1, buf, stream⟩
  | .again :: rs, buf, stream => recvLoop len rs buf stream
  | .ready n :: rs, buf, stream =>
    let n := min n (len - buf.length)
    let buf := buf ++ stream.take n
    let stream := stream.drop n
    if buf.length < len then recvLoop len rs buf stream else ⟨buf.length, buf, stream⟩

def recvPacket (len : Nat) (rs : List Recv) (stream : List UInt8) : Received :=
  recvLoop len rs [] stream

/-- One byte of the length; the answers are those for each byte in turn. -/
def recvChar : List (List Recv) × List UInt8 → Option UInt8 × List (List Recv) × List UInt8
  | (rss, stream) =>
    let r := recvPacket 1 (rss.head?.getD []) stream
    (if r.bytes = 1 then r.buf.head? else none, rss.tail, r.stream)

def decodePacket (rss : List (List Recv)) (stream : List UInt8) : Nat × List UInt8 :=
  let (_, value, _, stream) := mqttPacketDecode recvChar (rss, stream)
  (value, stream)

end Receive

section Topics

def slash : UInt8 := 0x2f
def plus : UInt8 := 0x2b
def hash : UInt8 := 0x23

/-- The loop of `is_topic_matched` and what it returns, at `curf` and `curn`. -/
def isTopicMatched : List UInt8 → List UInt8 → Bool
  | [], curn => curn.isEmpty
  | _ :: _, [] => false
  | f :: curf, n :: curn =>
    if n = slash ∧ f ≠ slash then false
    else if f ≠ plus ∧ f ≠ hash ∧ f ≠ n then false
    else if f = plus then isTopicMatched curf (curn.dropWhile (· ≠ slash))
    else if f = hash then isTopicMatched curf []
    else isTopicMatched curf curn

def mqttPacketEquals (a b : List UInt8) : Bool := a = b

/-- An entry of `message_handlers`. -/
structure Handler where
  topicFilter : Option (List UInt8)
  callback : Bool

end Topics

section Cycle

/-- `mqtt_message` with the payload. -/
structure Message where
  qos : Nat
  retained : Nat
  dup : Nat
  id : Nat
  payload : List UInt8
  deriving DecidableEq

/-- What the client does on the way: calls a handler of the application, or the default one,
tells a waiting call of the answer to it, or sends a packet. -/
inductive Effect
  | callback (handler : Option Nat) (topicName : List UInt8) (message : Message)
  | answered (packetId msgType : Nat)
  | send (packet : List UInt8)
  deriving DecidableEq

structure Client where
  bufSize : Nat
  readbufSize : Nat
  readbuf : Mem UInt8
  messageHandlers : List Handler
  defaultMessageHandlers : Bool

/-- What `mqttpacket_readpacket` returns: the type of the packet, or -1. -/
def mqttpacketReadpacket (c : Client) (header : List Recv) (length : List (List Recv))
    (body : List Recv) (stream : List UInt8) : Int × Client × List UInt8 :=
  let r := recvPacket 1 header stream
  let c := { c with readbuf := c.readbuf.write 0 r.buf }
  if r.bytes ≠ 1 then (-1, c, r.stream)
  else
    let (remLen, stream) := decodePacket length r.stream
    let encoded := mqttPacketEncode remLen
    let c := { c with readbuf := c.readbuf.write 1 encoded }
    let len := 1 + encoded.length
    -- the difference is a `size_t`
    if (c.readbufSize + 2 ^ 32 - len) % 2 ^ 32 < remLen then (-1, c, stream)
    else if remLen = 0 then (typeBits (c.readbuf 0), c, stream)
    else
      let r := recvPacket remLen body stream
      let c := { c with readbuf := c.readbuf.write len r.buf }
      if r.bytes ≠ remLen then (-1, c, r.stream)
      else (typeBits (c.readbuf 0), c, r.stream)

def Handler.takes (h : Handler) (topicName : List UInt8) : Bool :=
  match h.topicFilter with
  | some f => (mqttPacketEquals topicName f || isTopicMatched f topicName) && h.callback
  | none => false

def deliverMessage (c : Client) (topicName : List UInt8) (message : Message) : List Effect :=
  let called := c.messageHandlers.zipIdx.filter fun h => h.1.takes topicName
  if called.isEmpty then
    if c.defaultMessageHandlers then [.callback none topicName message] else []
  else called.map fun h => .callback (some h.2) topicName message

/-- The answers of the socket to one call of `mqtt_cycle`, and what its variables hold. -/
structure Env where
  header : List Recv
  length : List (List Recv)
  body : List Recv
  sent : Bool
  publishOut : PublishOut
  ackOut : AckOut
  subackOut : SubackOut

def sendAck (c : Client) (sent : Bool) (packettype packetid : Nat) : Int × List Effect :=
  match mqttSerializeAck c.bufSize packettype 0 packetid with
  | none => (-1, [])
  | some packet => (if sent then 0 else -1, [.send packet])

def message (out : PublishOut) : Message where
  qos := out.qos
  retained := out.retained
  dup := out.dup
  id := out.packetid
  payload := out.payload.read 0 (out.payloadlen % 2 ^ 32).toNat

/-- The branch of `mqtt_cycle` for a packet in `readbuf`. -/
def handlePacket (c : Client) (env : Env) (packetType : Int) : Int × List Effect :=
  if packetType = puback ∨ packetType = pubcomp then
    let (rc, out) := mqttDeserializeAck env.ackOut c.readbuf
    (0, if rc = 1 then [.answered out.packetid packetType.toNat] else [])
  else if packetType = suback then
    let (ok, out) := mqttDeserializeSuback env.subackOut 1 c.readbuf
    let granted : Int := (out.grantedQoSs.head?.map fun q => (q.toNat : Int)).getD (-1)
    let rc : Int := if ok = 1 then granted else 0
    if rc ≠ 0x80 then (0, [.answered out.packetid suback]) else (rc, [])
  else if packetType = unsuback then
    let (rc, out) := mqttDeserializeAck env.ackOut c.readbuf
    if out.packettype = unsuback ∨ rc = 1 then (0, [.answered out.packetid unsuback])
    else (-1, [])
  else if packetType = publish then
    let (rc, out) := mqttDeserializePublish env.publishOut c.readbuf
    if rc ≠ 1 then (0, [])
    else
      let topicName := out.topicName.data.read 0 out.topicName.len
      let delivered := deliverMessage c topicName (message out)
      if out.qos = 0 then (0, delivered)
      else if out.qos = 1 then
        let (rc, sent) := sendAck c env.sent puback out.packetid
        (rc, delivered ++ sent)
      else if out.qos = 2 then
        let (rc, sent) := sendAck c env.sent pubrec out.packetid
        (rc, delivered ++ sent)
      else (-1, delivered)
  else if packetType = pubrec ∨ packetType = pubrel then
    let (rc, out) := mqttDeserializeAck env.ackOut c.readbuf
    if rc ≠ 1 then (-1, [])
    else sendAck c env.sent (if packetType = pubrec then pubrel else pubcomp) out.packetid
  else (0, [])

def mqttCycle (c : Client) (env : Env) (stream : List UInt8) :
    Int × List Effect × Client × List UInt8 :=
  let (packetType, c, stream) := mqttpacketReadpacket c env.header env.length env.body stream
  if packetType = -1 then (-1, [], c, stream)
  else
    let (rc, effects) := handlePacket c env packetType
    (rc, effects, c, stream)

/-- The client, if it has not given up the connection, and what the broker sends that it has not
taken yet. -/
structure State where
  client : Client
  stream : List UInt8
  connected : Bool

/-- The main loop calls `mqtt_cycle` when there is something to read, until it fails. -/
def step (s : State) (env : Env) : Option (State × List Effect) :=
  if s.connected then
    let (rc, effects, client, stream) := mqttCycle s.client env s.stream
    some (⟨client, stream, 0 ≤ rc⟩, effects)
  else none

def machine (c : Client) (stream : List UInt8) : Machine State Env (List Effect) where
  init := ⟨c, stream, true⟩
  step := step

end Cycle

end BdkRtt.Mqtt
