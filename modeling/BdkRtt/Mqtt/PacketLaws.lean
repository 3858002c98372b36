import Mathlib.Tactic.Ring
import BdkRtt.Mqtt.Packet

namespace BdkRtt.Mqtt

open Lib

universe u

section Digits

theorem digit_low : ∀ d : Fin 128, (UInt8.ofNat d.val &&& 127).toNat = d.val ∧
    UInt8.ofNat d.val &&& 128 = 0 := by decide

theorem digit_more : ∀ d : Fin 128, ((UInt8.ofNat d.val ||| 0x80) &&& 127).toNat = d.val ∧
    (UInt8.ofNat d.val ||| 0x80) &&& 128 ≠ 0 := by decide

variable {n f g k : Nat}

theorem encodeLoop_congr (hf : n < f) (hg : n < g) : encodeLoop f n = encodeLoop g n := by
  induction f generalizing n g with
  | zero => omega
  | succ f ih =>
    cases g with
    | zero => omega
    | succ g =>
      simp only [encodeLoop]
      split
      next h => exact congrArg _ (ih (by omega) (by omega))
      next => rfl

theorem mqttPacketEncode_eq (n : Nat) : mqttPacketEncode n =
    if 0 < n / 128 then (UInt8.ofNat (n % 128) ||| 0x80) :: mqttPacketEncode (n / 128)
    else [UInt8.ofNat (n % 128)] := by
  rw [mqttPacketEncode, encodeLoop]
  split
  next h =>
    rw [mqttPacketEncode]
    exact congrArg _ (encodeLoop_congr (by omega) (by omega))
  next => rfl

theorem mqttPacketEncode_of_lt (h : n < 128) : mqttPacketEncode n = [UInt8.ofNat n] := by
  rw [mqttPacketEncode_eq, if_neg (by omega), Nat.mod_eq_of_lt h]

/-- A number has as many digits as its size asks for. -/
theorem length_mqttPacketEncode_le (h : n < 128 ^ (k + 1)) :
    (mqttPacketEncode n).length ≤ k + 1 := by
  induction k generalizing n with
  | zero =>
    rw [mqttPacketEncode_of_lt (by simpa using h)]
    exact Nat.le_refl 1
  | succ k ih =>
    rw [mqttPacketEncode_eq]
    split
    next =>
      rw [Nat.pow_succ] at h
      exact Nat.succ_le_succ (ih (by omega))
    next => exact Nat.succ_le_succ (Nat.zero_le _)

theorem length_mqttPacketEncode_pos (n : Nat) : 0 < (mqttPacketEncode n).length := by
  rw [mqttPacketEncode_eq]
  split <;> exact Nat.zero_lt_succ _

end Digits

section Decode

variable {σ : Type u} {getchar : σ → Option UInt8 × σ} {s t : σ}

/-- The reader gives these bytes in turn. -/
inductive Gives (getchar : σ → Option UInt8 × σ) : σ → List UInt8 → σ → Prop
  | nil (s : σ) : Gives getchar s [] s
  | cons {s t u : σ} {c : UInt8} {cs : List UInt8} : getchar s = (some c, t) →
      Gives getchar t cs u → Gives getchar s (c :: cs) u

/-- What is encoded is decoded, wherever the bytes come from. -/
theorem decodeLoop_encode {n : Nat} (hg : Gives getchar s (mqttPacketEncode n) t) {tries : Nat}
    (htries : (mqttPacketEncode n).length ≤ tries) (multiplier len value : Nat) :
    decodeLoop getchar tries multiplier len value s =
      (len + (mqttPacketEncode n).length, value + n * multiplier, t) := by
  induction tries generalizing n multiplier len value s with
  | zero =>
    have := length_mqttPacketEncode_pos n
    omega
  | succ tries ih =>
    rw [mqttPacketEncode_eq] at hg htries ⊢
    split at hg
    next h =>
      rw [if_pos h] at htries ⊢
      obtain ⟨hvalue, hmore⟩ := digit_more ⟨n % 128, Nat.mod_lt _ (by decide)⟩
      cases hg with
      | cons hc hcs =>
        have hdigits : n % 128 * multiplier + n / 128 * (multiplier * 128) = n * multiplier := by
          calc
            _ = (128 * (n / 128) + n % 128) * multiplier := by ring
            _ = n * multiplier := by rw [Nat.div_add_mod]
        simp only [decodeLoop, hc, hvalue, ne_eq, hmore, not_false_eq_true, if_true]
        rw [ih hcs (Nat.le_of_succ_le_succ htries), List.length_cons, Nat.add_assoc value, hdigits,
          Nat.add_right_comm, Nat.add_assoc len]
    next h =>
      rw [if_neg h]
      obtain ⟨hvalue, hlast⟩ := digit_low ⟨n % 128, Nat.mod_lt _ (by decide)⟩
      have hn : n % 128 = n := Nat.mod_eq_of_lt (by omega)
      cases hg with
      | cons hc hcs =>
        cases hcs
        simp only [decodeLoop, hc, hvalue, ne_eq, hlast, not_true_eq_false, if_false]
        rw [hn]
        rfl

/-- Each digit leaves room for those behind it. -/
theorem decodeLoop_le (tries multiplier len value : Nat) (s : σ) :
    (decodeLoop getchar tries multiplier len value s).2.1 + multiplier ≤
      value + 128 ^ tries * multiplier := by
  induction tries generalizing multiplier len value s with
  | zero => simp [decodeLoop]
  | succ tries ih =>
    have hmore : 128 ^ tries * (multiplier * 128) = 128 ^ (tries + 1) * multiplier := by ring
    have hroom : 128 * multiplier ≤ 128 ^ (tries + 1) * multiplier :=
      Nat.mul_le_mul_right _ (Nat.le_self_pow (Nat.succ_ne_zero tries) 128)
    rw [decodeLoop]
    split
    next =>
      show value + multiplier ≤ _
      omega
    next c s' _ =>
      have hdigit : (c &&& 127).toNat * multiplier ≤ 127 * multiplier := by
        rw [UInt8.toNat_and]
        exact Nat.mul_le_mul_right _ Nat.and_le_right
      dsimp only
      split
      next =>
        have hrest := ih (multiplier * 128) (len + 1) (value + (c &&& 127).toNat * multiplier) s'
        omega
      next =>
        show value + (c &&& 127).toNat * multiplier + multiplier ≤ _
        omega

/-- Whatever is read, the length is one of those that can be encoded. -/
theorem mqttPacketDecode_lt (getchar : σ → Option UInt8 × σ) (s : σ) :
    (mqttPacketDecode getchar s).2.1 < 2 ^ 28 := by
  have h : (mqttPacketDecode getchar s).2.1 + 1 ≤ 0 + 128 ^ 4 * 1 := decodeLoop_le 4 1 0 0 s
  omega

theorem gives_bufchar {buf : Mem UInt8} {ptr : Nat} {cs : List UInt8} (h : buf.Has ptr cs) :
    Gives (bufchar buf) ptr cs (ptr + cs.length) := by
  induction cs generalizing ptr with
  | nil => exact .nil ptr
  | cons c cs ih =>
    obtain ⟨hc, hcs⟩ := Mem.has_cons.mp h
    refine .cons (congrArg (fun x => (some x, ptr + 1)) hc) ?_
    rw [List.length_cons, Nat.add_comm cs.length, ← Nat.add_assoc]
    exact ih hcs

theorem length_mqttPacketEncode_le_four {n : Nat} (h : n < 2 ^ 28) :
    (mqttPacketEncode n).length ≤ maxNoOfRemainingLengthBytes :=
  length_mqttPacketEncode_le (k := 3) h

theorem mqttPacketDecodeBuf_encode {buf : Mem UInt8} {ptr n : Nat} (hn : n < 2 ^ 28)
    (h : buf.Has ptr (mqttPacketEncode n)) :
    mqttPacketDecodeBuf buf ptr = ((mqttPacketEncode n).length, n) := by
  rw [mqttPacketDecodeBuf, mqttPacketDecode,
    decodeLoop_encode (gives_bufchar h) (length_mqttPacketEncode_le_four hn)]
  simp

/-- The room that is asked for is enough for the header, the length and the rest. -/
theorem length_le_mqttPacketLen {n : Nat} (hn : n < 2 ^ 28) :
    1 + (mqttPacketEncode n).length + n ≤ mqttPacketLen n := by
  have h₁ : n < 128 → (mqttPacketEncode n).length ≤ 1 := length_mqttPacketEncode_le (k := 0)
  have h₂ : n < 16384 → (mqttPacketEncode n).length ≤ 2 := length_mqttPacketEncode_le (k := 1)
  have h₃ : n < 2097152 → (mqttPacketEncode n).length ≤ 3 := length_mqttPacketEncode_le (k := 2)
  have h₄ : (mqttPacketEncode n).length ≤ 4 := length_mqttPacketEncode_le_four hn
  rw [mqttPacketLen]
  split
  · omega
  · split
    · omega
    · split
      · omega
      · omega

end Decode

section Strings

variable {buf : Mem UInt8} {ptr n : Nat}

theorem readInt_writeInt (hn : n < 65536) (h : buf.Has ptr (writeInt n)) : readInt buf ptr = n := by
  obtain ⟨hhigh, hlow⟩ := Mem.has_cons.mp h
  rw [Mem.has_singleton] at hlow
  rw [readInt, hhigh, hlow, UInt8.toNat_ofNat', UInt8.toNat_ofNat',
    Nat.mod_eq_of_lt (show n / 256 < 2 ^ 8 by omega),
    Nat.mod_eq_of_lt (show n % 256 < 2 ^ 8 by omega)]
  omega

/-- The text of a string that is given in one way only. -/
def MqttString.text (s : MqttString) : List UInt8 := s.cstring.getD s.lenstring

/-- It is a C string, or one with a length. -/
def MqttString.Plain (s : MqttString) : Prop := s.cstring = none ∨ s.lenstring = []

theorem mqttStrlen_eq (s : MqttString) : mqttStrlen s = s.text.length := by
  rw [mqttStrlen, MqttString.text]
  cases s.cstring <;> rfl

theorem writeMqttString_eq {s : MqttString} (hs : s.Plain) :
    writeMqttString s = writeInt s.text.length ++ s.text := by
  obtain ⟨cstring, lenstring⟩ := s
  rcases hs with rfl | rfl
  · cases lenstring with
    | nil => rfl
    | cons c cs => rfl
  · cases cstring with
    | none => rfl
    | some cs => rfl

/-- Memory seen from further on. -/
theorem has_shift {cs : List UInt8} (h : buf.Has ptr cs) :
    Mem.read (fun i => buf (ptr + i)) 0 cs.length = cs := by
  have hsame : Mem.read (fun i => buf (ptr + i)) 0 cs.length = buf.read ptr cs.length := by
    simp [Mem.read]
  exact hsame.trans h

theorem length_writeInt (n : Nat) : (writeInt n).length = 2 := rfl

theorem readMqttLenString_write {s : LenString} {text : List UInt8} (hlen : text.length < 65536)
    (h : buf.Has ptr (writeInt text.length ++ text)) {enddata : Nat}
    (hend : ptr + 2 + text.length ≤ enddata) :
    readMqttLenString s buf ptr enddata =
      (true, ⟨text.length, fun i => buf (ptr + 2 + i)⟩, ptr + 2 + text.length) := by
  have hread := readInt_writeInt hlen (Mem.has_append.mp h).1
  rw [readMqttLenString, if_pos (by omega), hread]
  exact if_pos hend

end Strings

section Header

variable {type dup qos retain : Nat}

theorem header_bits (ht : type < 16) (hd : dup < 2) (hq : qos < 4) (hr : retain < 2) :
    typeBits (mqttHeader type dup qos retain) = type ∧
      dupBit (mqttHeader type dup qos retain) = dup ∧
      qosBits (mqttHeader type dup qos retain) = qos ∧
      retainBit (mqttHeader type dup qos retain) = retain := by
  simp only [typeBits, dupBit, qosBits, retainBit, mqttHeader, UInt8.toNat_ofNat']
  omega

end Header

section Publish

variable {buf : Mem UInt8} {out : PublishOut} {buflen dup qos retained packetid : Nat}
  {topic payload packet : List UInt8} {topicName : MqttString}

/-- A packet with any content. -/
def packetOf (b : UInt8) (content : List UInt8) : List UInt8 :=
  b :: (mqttPacketEncode content.length ++ content)

theorem length_packetOf (b : UInt8) (content : List UInt8) : (packetOf b content).length =
    1 + (mqttPacketEncode content.length).length + content.length := by
  simp [packetOf]
  omega

/-- The content of the packet of a message. -/
def publishContent (qos packetid : Nat) (topic payload : List UInt8) : List UInt8 :=
  writeInt topic.length ++ topic ++ ((if 0 < qos then writeInt packetid else []) ++ payload)

theorem length_publishContent (qos packetid : Nat) (topic payload : List UInt8) :
    (publishContent qos packetid topic payload).length =
      2 + topic.length + payload.length + if 0 < qos then 2 else 0 := by
  have hid : (if 0 < qos then writeInt packetid else []).length = if 0 < qos then 2 else 0 := by
    split <;> rfl
  simp only [publishContent, List.length_append, hid, length_writeInt]
  omega

/-- What a message has to be for its packet to be well formed. -/
structure Fits (dup qos retained packetid : Nat) (topic payload : List UInt8) : Prop where
  dup_lt : dup < 2
  qos_lt : qos < 4
  retained_lt : retained < 2
  packetid_lt : packetid < 65536
  topic_lt : topic.length < 65536
  small : (publishContent qos packetid topic payload).length < 2 ^ 28

theorem mqttSerializePublish_eq (hplain : topicName.Plain)
    (h : mqttSerializePublish buflen dup qos retained packetid topicName payload = some packet) :
    mqttPacketLen (publishContent qos packetid topicName.text payload).length ≤ buflen ∧
      packet = packetOf (mqttHeader publish dup qos retained)
        (publishContent qos packetid topicName.text payload) := by
  have hlength : publishLength qos topicName payload.length =
      (publishContent qos packetid topicName.text payload).length := by
    rw [publishLength, mqttStrlen_eq, length_publishContent]
  rw [mqttSerializePublish, hlength] at h
  split at h
  · cases h
  next hroom =>
    refine ⟨Nat.not_lt.mp hroom, ?_⟩
    rw [← Option.some.inj h, writeMqttString_eq hplain]
    simp [packetOf, publishContent]

/-- No more is written than the buffer has room for. -/
theorem length_mqttSerializePublish (hplain : topicName.Plain)
    (hsmall : (publishContent qos packetid topicName.text payload).length < 2 ^ 28)
    (h : mqttSerializePublish buflen dup qos retained packetid topicName payload = some packet) :
    packet.length ≤ buflen := by
  obtain ⟨hroom, rfl⟩ := mqttSerializePublish_eq hplain h
  rw [length_packetOf]
  exact (length_le_mqttPacketLen hsmall).trans hroom

/-- The message of a packet in the buffer is read. -/
theorem deserialize_packet (out : PublishOut) (hfits : Fits dup qos retained packetid topic payload)
    (hbuf : buf.Has 0 (packetOf (mqttHeader publish dup qos retained)
      (publishContent qos packetid topic payload))) :
    ∃ read : PublishOut, mqttDeserializePublish out buf = (1, read) ∧ read.dup = dup ∧
      read.qos = qos ∧ read.retained = retained ∧ (0 < qos → read.packetid = packetid) ∧
      read.topicName.data.read 0 read.topicName.len = topic ∧
      read.payloadlen = payload.length ∧ read.payload.read 0 payload.length = payload := by
  obtain ⟨hheader, hbuf⟩ := Mem.has_cons.mp hbuf
  obtain ⟨htype, hdup, hqos, hretain⟩ :=
    header_bits (show publish < 16 by decide) hfits.dup_lt hfits.qos_lt hfits.retained_lt
  obtain ⟨hlength, hbuf⟩ := Mem.has_append.mp hbuf
  obtain ⟨htopic, hbuf⟩ := Mem.has_append.mp hbuf
  obtain ⟨hid, hpayload⟩ := Mem.has_append.mp hbuf
  rw [Nat.zero_add] at hlength htopic hid hpayload
  have hdecode := mqttPacketDecodeBuf_encode hfits.small hlength
  have hremLen := length_publishContent qos packetid topic payload
  generalize (publishContent qos packetid topic payload).length = remLen at *
  generalize (mqttPacketEncode remLen).length = len at *
  have hread := readMqttLenString_write (s := out.topicName) hfits.topic_lt htopic
    (show 1 + len + 2 + topic.length ≤ 1 + len + remLen by omega)
  have hin : ¬ 1 + len + remLen < 1 + len + 2 + topic.length := by omega
  have htext := (Mem.has_append.mp htopic).2
  rw [List.length_append, length_writeInt, ← Nat.add_assoc] at hid hpayload
  simp only [mqttDeserializePublish, hheader, htype, ne_eq, not_true_eq_false, if_false, hdecode,
    hdup, hqos, hretain, hread, Bool.true_eq_false, hin, or_self]
  refine ⟨_, rfl, rfl, rfl, rfl, ?_, ?_, ?_, ?_⟩
  · intro hpos
    simp only [hpos, if_true] at hid ⊢
    exact readInt_writeInt hfits.packetid_lt hid
  · exact has_shift htext
  · by_cases hpos : 0 < qos
    · simp only [hpos, if_true] at hremLen ⊢
      omega
    · simp only [hpos, if_false] at hremLen ⊢
      omega
  · by_cases hpos : 0 < qos
    · simp only [hpos, if_true] at hpayload ⊢
      exact has_shift hpayload
    · simp only [hpos, if_false] at hpayload ⊢
      exact has_shift hpayload

/-- What is serialized fits in the buffer and is read back, whatever stands behind it. -/
theorem deserialize_serialize (hplain : topicName.Plain)
    (hfits : Fits dup qos retained packetid topicName.text payload)
    (h : mqttSerializePublish buflen dup qos retained packetid topicName payload = some packet)
    (hbuf : buf.Has 0 packet) :
    packet.length ≤ buflen ∧ ∃ read : PublishOut, mqttDeserializePublish out buf = (1, read) ∧
      read.dup = dup ∧ read.qos = qos ∧ read.retained = retained ∧
      (0 < qos → read.packetid = packetid) ∧
      read.topicName.data.read 0 read.topicName.len = topicName.text ∧
      read.payloadlen = payload.length ∧ read.payload.read 0 payload.length = payload := by
  refine ⟨length_mqttSerializePublish hplain hfits.small h, ?_⟩
  obtain ⟨-, rfl⟩ := mqttSerializePublish_eq hplain h
  exact deserialize_packet out hfits hbuf

/-- The packet that switches a lamp on, in a buffer of zeros. -/
theorem deserialize_serialize_lamp : ∃ packet : List UInt8,
    mqttSerializePublish 32 0 1 0 7 ⟨some [0x6c], []⟩ [1] = some packet ∧ packet.length ≤ 32 ∧
      ∃ read : PublishOut, mqttDeserializePublish ⟨0, 0, 0, 0, ⟨0, fun _ => 0⟩, fun _ => 0, 0⟩
          (Mem.write (fun _ => 0) 0 packet) = (1, read) ∧
        read.dup = 0 ∧ read.qos = 1 ∧ read.retained = 0 ∧ (0 < 1 → read.packetid = 7) ∧
        read.topicName.data.read 0 read.topicName.len = [0x6c] ∧ read.payloadlen = 1 ∧
        read.payload.read 0 1 = [1] := by
  obtain ⟨packet, h⟩ : ∃ packet, mqttSerializePublish 32 0 1 0 7 ⟨some [0x6c], []⟩ [1] =
      some packet := ⟨_, rfl⟩
  exact ⟨packet, h, deserialize_serialize (.inr rfl)
    ⟨by decide, by decide, by decide, by decide, by decide, by decide⟩ h (Mem.has_write_self ..)⟩

/-- The remaining length of the packet in the buffer covers a topic name. -/
def HasTopic (buf : Mem UInt8) : Prop :=
  let (len, mylen) := mqttPacketDecodeBuf buf 1
  2 ≤ mylen ∧ 2 + readInt buf (1 + len) ≤ mylen

/-- The packet identifier of a message that has one is inside the packet. -/
def HasPacketid (buf : Mem UInt8) : Prop :=
  let (len, mylen) := mqttPacketDecodeBuf buf 1
  qosBits (buf 0) = 0 ∨ 2 + readInt buf (1 + len) + 2 ≤ mylen

/-- The payload that is returned is the last part of the packet. -/
def PayloadInside (out : PublishOut) (buf : Mem UInt8) : Prop :=
  ∃ start : Nat, out.payload = (fun i => buf (start + i)) ∧ 0 ≤ out.payloadlen ∧
    start + out.payloadlen =
      1 + (mqttPacketDecodeBuf buf 1).1 + (mqttPacketDecodeBuf buf 1).2

theorem deserialize_of_hasTopic (out : PublishOut) (htype : typeBits (buf 0) = publish) (htopic : HasTopic buf) :
    (mqttDeserializePublish out buf).1 = 1 ∧
      (PayloadInside (mqttDeserializePublish out buf).2 buf ↔ HasPacketid buf) := by
  rcases hdecode : mqttPacketDecodeBuf buf 1 with ⟨len, mylen⟩
  simp only [HasTopic, hdecode] at htopic
  simp only [PayloadInside, HasPacketid, hdecode]
  have hread : readMqttLenString out.topicName buf (1 + len) (1 + len + mylen) =
      (true, ⟨readInt buf (1 + len), fun i => buf (1 + len + 2 + i)⟩,
        1 + len + 2 + readInt buf (1 + len)) := by
    rw [readMqttLenString, if_pos (by omega)]
    exact if_pos (by omega)
  generalize readInt buf (1 + len) = topiclen at *
  have hin : ¬ 1 + len + mylen < 1 + len + 2 + topiclen := by omega
  simp only [mqttDeserializePublish, htype, ne_eq, not_true_eq_false, if_false, hdecode, hread,
    Bool.true_eq_false, hin, or_self, true_and]
  by_cases hqos : 0 < qosBits (buf 0)
  · simp only [hqos, if_true]
    constructor
    · rintro ⟨-, -, hle, -⟩
      omega
    · intro hid
      exact ⟨1 + len + 2 + topiclen + 2, rfl, by omega, by omega⟩
  · simp only [hqos, if_false]
    refine iff_of_true ⟨1 + len + 2 + topiclen, rfl, by omega, by omega⟩ (.inl (by omega))

/-- Without a topic name the rest is not read, and the length of the length is returned. -/
theorem deserialize_of_not_hasTopic (out : PublishOut) (htype : typeBits (buf 0) = publish)
    (htopic : ¬ HasTopic buf) :
    (mqttDeserializePublish out buf).1 = (mqttPacketDecodeBuf buf 1).1 ∧
      (mqttDeserializePublish out buf).2.payload = out.payload ∧
      (mqttDeserializePublish out buf).2.payloadlen = out.payloadlen := by
  rcases hdecode : mqttPacketDecodeBuf buf 1 with ⟨len, mylen⟩
  simp only [HasTopic, hdecode] at htopic
  have hread : (readMqttLenString out.topicName buf (1 + len) (1 + len + mylen)).1 = false := by
    rw [readMqttLenString]
    split
    · exact congrArg Prod.fst (if_neg (by omega))
    · rfl
  simp only [mqttDeserializePublish, htype, ne_eq, not_true_eq_false, if_false, hdecode, hread,
    true_or, if_true, and_self]

/-- A message that `MQTTDeserialize_publish` reports has its payload inside of the packet, unless
the packet identifier is cut off, or a remaining length of one byte has no room for the topic
name: then the length of that length is taken for success, and what the variables held before
for the payload. -/
theorem reports_inside_iff (buf : Mem UInt8) :
    (∀ out, (mqttDeserializePublish out buf).1 = 1 →
      PayloadInside (mqttDeserializePublish out buf).2 buf) ↔
    typeBits (buf 0) ≠ publish ∨ HasTopic buf ∧ HasPacketid buf ∨
      ¬ HasTopic buf ∧ (mqttPacketDecodeBuf buf 1).1 ≠ 1 := by
  -- variables that hold a payload of no length that there is
  let stale : PublishOut := ⟨0, 0, 0, 0, ⟨0, fun _ => 0⟩, fun _ => 0, -1⟩
  by_cases htype : typeBits (buf 0) = publish
  · by_cases htopic : HasTopic buf
    · have hread := fun out => deserialize_of_hasTopic out htype htopic
      simp only [htype, htopic, ne_eq, not_true_eq_false, true_and, false_or, false_and, or_false]
      exact ⟨fun h => (hread stale).2.mp (h stale (hread stale).1),
        fun hid out _ => (hread out).2.mpr hid⟩
    · have hread := fun out => deserialize_of_not_hasTopic out htype htopic
      simp only [htype, htopic, ne_eq, not_true_eq_false, not_false_eq_true, true_and, false_or,
        false_and]
      constructor
      · intro h hlen
        obtain ⟨-, -, hpos, -⟩ := h stale ((hread stale).1.trans hlen)
        rw [(hread stale).2.2] at hpos
        exact absurd hpos (by decide)
      · intro hlen out h
        exact absurd ((hread out).1.symm.trans h) hlen
  · have hnone : ∀ out, (mqttDeserializePublish out buf).1 = 0 := fun out => by
      rw [mqttDeserializePublish, if_pos htype]
    refine iff_of_true (fun out h => ?_) (.inl htype)
    rw [hnone] at h
    cases h

end Publish

section Suback

variable {buf : Mem UInt8} {maxcount : Nat}

theorem subackLoop_eq (left curdata : Nat) (stored : List UInt8)
    (hstored : stored.length ≤ maxcount + 1) :
    subackLoop buf maxcount left curdata stored =
      (decide (stored.length + left ≤ maxcount + 1),
        stored ++ buf.read curdata (min left (maxcount + 1 - stored.length))) := by
  induction left generalizing curdata stored with
  | zero => simp [subackLoop, hstored]
  | succ left ih =>
    rw [subackLoop]
    split
    next hfull =>
      have hlen : stored.length = maxcount + 1 := by omega
      simp [hlen]
    next hroom =>
      have hlen : (stored ++ [buf curdata]).length = stored.length + 1 := by simp
      rw [ih _ _ (by omega), hlen, List.append_assoc]
      refine Prod.ext (by simp only [Nat.add_assoc, Nat.add_comm 1]) (congrArg (stored ++ ·) ?_)
      rw [show min (left + 1) (maxcount + 1 - stored.length) =
        1 + min left (maxcount + 1 - (stored.length + 1)) by omega, Mem.read_add]
      rfl

/-- One code more than the array has room for is stored before the loop gives up. -/
theorem length_grantedQoSs (out : SubackOut) (htype : typeBits (buf 0) = suback)
    (hid : 2 ≤ (mqttPacketDecodeBuf buf 1).2) :
    (mqttDeserializeSuback out maxcount buf).2.grantedQoSs.length ≤ maxcount ↔
      (mqttPacketDecodeBuf buf 1).2 - 2 ≤ maxcount := by
  rcases hdecode : mqttPacketDecodeBuf buf 1 with ⟨len, mylen⟩
  simp only [hdecode] at hid ⊢
  have hin : ¬ 1 + len + mylen < 1 + len + 2 := by omega
  have hleft : 1 + len + mylen - (1 + len + 2) = mylen - 2 := by omega
  simp only [mqttDeserializeSuback, htype, ne_eq, not_true_eq_false, if_false, hdecode, hin, hleft,
    subackLoop_eq _ _ [] (Nat.zero_le _), List.nil_append, Mem.length_read, List.length_nil]
  omega

/-- Two codes come for the one that there is room for. -/
def twoCodes : Mem UInt8 := Mem.write (fun _ => 0) 0 [0x90, 4, 0, 7, 0, 1]

theorem length_grantedQoSs_two :
    (mqttDeserializeSuback ⟨0, []⟩ 1 twoCodes).2.grantedQoSs.length ≤ 1 ↔
      (mqttPacketDecodeBuf twoCodes 1).2 - 2 ≤ 1 :=
  length_grantedQoSs _ (by decide) (by decide)

end Suback

end BdkRtt.Mqtt
