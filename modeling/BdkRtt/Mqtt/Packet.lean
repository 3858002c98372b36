import BdkRtt.Lib.Mem

namespace BdkRtt.Mqtt

open Lib

universe u

/-! `enum msgTypes`, those that the client looks for. -/

def connack : Nat := 2
def publish : Nat := 3
def puback : Nat := 4
def pubrec : Nat := 5
def pubrel : Nat := 6
def pubcomp : Nat := 7
def suback : Nat := 9
def unsuback : Nat := 11
def pingresp : Nat := 13

section Header

/-- The byte of an `MQTTHeader` with the given bits. -/
def mqttHeader (type dup qos retain : Nat) : UInt8 :=
  UInt8.ofNat (type % 16 * 16 + dup % 2 * 8 + qos % 4 * 2 + retain % 2)

def typeBits (byte : UInt8) : Nat := byte.toNat / 16
def dupBit (byte : UInt8) : Nat := byte.toNat / 8 % 2
def qosBits (byte : UInt8) : Nat := byte.toNat / 2 % 4
def retainBit (byte : UInt8) : Nat := byte.toNat % 2

end Header

section Length

/-- The loop of `MQTTPacket_encode`. -/
def encodeLoop : Nat → Nat → List UInt8
  | 0, _ => []
  | fuel + 1, length =>
    let d := UInt8.ofNat (length % 128)
    let length := length / 128
    if 0 < length then (d ||| 0x80) :: encodeLoop fuel length else [d]

def mqttPacketEncode (length : Nat) : List UInt8 := encodeLoop (length + 1) length

def maxNoOfRemainingLengthBytes : Nat := 4

/-- The loop of `MQTTPacket_decode`, with the bytes that it may still read: how many it has
tried to read in the end, and the value. -/
def decodeLoop {σ : Type u} (getchar : σ → Option UInt8 × σ) :
    Nat → Nat → Nat → Nat → σ → Nat × Nat × σ
  | 0, _, len, value, s => (len + 1, value, s)
  | tries + 1, multiplier, len, value, s =>
    match getchar s with
    | (none, s) => (len + 1, value, s)
    | (some c, s) =>
      let value := value + (c &&& 127).toNat * multiplier
      if c &&& 128 ≠ 0 then decodeLoop getchar tries (multiplier * 128) (len + 1) value s
      else (len + 1, value, s)

def mqttPacketDecode {σ : Type u} (getchar : σ → Option UInt8 × σ) (s : σ) : Nat × Nat × σ :=
  decodeLoop getchar maxNoOfRemainingLengthBytes 1 0 0 s

def bufchar (buf : Mem UInt8) (ptr : Nat) : Option UInt8 × Nat := (some (buf ptr), ptr + 1)

def mqttPacketDecodeBuf (buf : Mem UInt8) (ptr : Nat) : Nat × Nat :=
  let (len, value, _) := mqttPacketDecode (bufchar buf) ptr
  (len, value)

def mqttPacketLen (remLen : Nat) : Nat :=
  let remLen := remLen + 1
  if remLen < 128 then remLen + 1
  else if remLen < 16384 then remLen + 2
  else if remLen < 2097151 then remLen + 3
  else remLen + 4

end Length

section Strings

def readInt (buf : Mem UInt8) (ptr : Nat) : Nat := 256 * (buf ptr).toNat + (buf (ptr + 1)).toNat

def writeInt (anInt : Nat) : List UInt8 := [UInt8.ofNat (anInt / 256), UInt8.ofNat (anInt % 256)]

/-- `MQTTString` with what it points to. -/
structure MqttString where
  cstring : Option (List UInt8)
  lenstring : List UInt8

def mqttStrlen (s : MqttString) : Nat :=
  match s.cstring with
  | some cstring => cstring.length
  | none => s.lenstring.length

def writeMqttString (s : MqttString) : List UInt8 :=
  if 0 < s.lenstring.length then writeInt s.lenstring.length ++ s.lenstring
  else match s.cstring with
    | some cstring => writeInt cstring.length ++ cstring
    | none => writeInt 0

/-- `MQTTLenString`, with the memory from its pointer on. -/
structure LenString where
  len : Nat
  data : Mem UInt8

def readMqttLenString (s : LenString) (buf : Mem UInt8) (ptr enddata : Nat) :
    Bool × LenString × Nat :=
  if ptr + 1 < enddata then
    let len := readInt buf ptr
    let ptr := ptr + 2
    if ptr + len ≤ enddata then (true, ⟨len, fun i => buf (ptr + i)⟩, ptr + len)
    else (false, { s with len }, ptr)
  else (false, s, ptr)

end Strings

section Publish

def publishLength (qos : Nat) (topicName : MqttString) (payloadlen : Nat) : Nat :=
  2 + mqttStrlen topicName + payloadlen + if 0 < qos then 2 else 0

/-- The bytes that `MQTTSerialize_publish` writes; `none` is `MQTTPACKET_BUFFER_TOO_SHORT`. -/
def mqttSerializePublish (buflen dup qos retained packetid : Nat) (topicName : MqttString)
    (payload : List UInt8) : Option (List UInt8) :=
  let remLen := publishLength qos topicName payload.length
  if buflen < mqttPacketLen remLen then none
  else some (mqttHeader publish dup qos retained :: mqttPacketEncode remLen ++
    writeMqttString topicName ++ (if 0 < qos then writeInt packetid else []) ++ payload)

/-- What `MQTTDeserialize_publish` returns by its pointers. -/
structure PublishOut where
  dup : Nat
  qos : Nat
  retained : Nat
  packetid : Nat
  topicName : LenString
  payload : Mem UInt8
  payloadlen : Int

/-- The variables hold `out` before the call. -/
def mqttDeserializePublish (out : PublishOut) (buf : Mem UInt8) : Nat × PublishOut :=
  let header := buf 0
  if typeBits header ≠ publish then (0, out)
  else
    let out := { out with
      dup := dupBit header
      qos := qosBits header
      retained := retainBit header }
    let (rc, mylen) := mqttPacketDecodeBuf buf 1
    let curdata := 1 + rc
    let enddata := curdata + mylen
    let (read, topicName, curdata) := readMqttLenString out.topicName buf curdata enddata
    let out := { out with topicName }
    if read = false ∨ enddata < curdata then (rc, out)
    else
      let (packetid, curdata) :=
        if 0 < out.qos then (readInt buf curdata, curdata + 2) else (out.packetid, curdata)
      (1, { out with
        packetid
        payloadlen := enddata - curdata
        payload := fun i => buf (curdata + i) })

end Publish

section Ack

def mqttSerializeAck (buflen packettype dup packetid : Nat) : Option (List UInt8) :=
  if buflen < 4 then none
  else some (mqttHeader packettype dup (if packettype = pubrel then 1 else 0) 0 ::
    mqttPacketEncode 2 ++ writeInt packetid)

structure AckOut where
  packettype : Nat
  dup : Nat
  packetid : Nat

def mqttDeserializeAck (out : AckOut) (buf : Mem UInt8) : Nat × AckOut :=
  let header := buf 0
  let out := { out with dup := dupBit header, packettype := typeBits header }
  let (rc, mylen) := mqttPacketDecodeBuf buf 1
  let curdata := 1 + rc
  let enddata := curdata + mylen
  if enddata < curdata + 2 then (rc, out)
  else (1, { out with packetid := readInt buf curdata })

end Ack

section Suback

/-- The codes that the loop of `MQTTDeserialize_suback` stores one behind the other, and if it
comes to the end of the packet. -/
def subackLoop (buf : Mem UInt8) (maxcount : Nat) : Nat → Nat → List UInt8 → Bool × List UInt8
  | 0, _, stored => (true, stored)
  | left + 1, curdata, stored =>
    if maxcount < stored.length then (false, stored)
    else subackLoop buf maxcount left (curdata + 1) (stored ++ [buf curdata])

structure SubackOut where
  packetid : Nat
  grantedQoSs : List UInt8

def mqttDeserializeSuback (out : SubackOut) (maxcount : Nat) (buf : Mem UInt8) : Int × SubackOut :=
  if typeBits (buf 0) ≠ suback then (0, out)
  else
    let (rc, mylen) := mqttPacketDecodeBuf buf 1
    let curdata := 1 + rc
    let enddata := curdata + mylen
    if enddata < curdata + 2 then (rc, out)
    else
      let packetid := readInt buf curdata
      let (ended, grantedQoSs) := subackLoop buf maxcount (enddata - (curdata + 2)) (curdata + 2) []
      (if ended then 1 else -1, { packetid, grantedQoSs })

end Suback

end BdkRtt.Mqtt
