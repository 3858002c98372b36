import BdkRtt.Mqtt.Client
import BdkRtt.Mqtt.PacketLaws

namespace BdkRtt.Mqtt

open Lib

section Receive

variable {len n : Nat} {rs : List Recv} {rss : List (List Recv)}
  {buf taken stream rest : List UInt8} {b : UInt8}

/-- What is received is taken from the front of the stream, and never more than is asked for. -/
theorem recvLoop_spec (hlen : buf.length ≤ len) : ∃ taken,
    (recvLoop len rs buf stream).buf = buf ++ taken ∧
      stream = taken ++ (recvLoop len rs buf stream).stream ∧ (buf ++ taken).length ≤ len := by
  induction rs generalizing buf stream with
  | nil => exact ⟨[], by simp [recvLoop], rfl, by simpa using hlen⟩
  | cons r rs ih =>
    cases r with
    | gone => exact ⟨[], by simp [recvLoop], rfl, by simpa using hlen⟩
    | again => exact ih hlen
    | ready n =>
      have hmore : (buf ++ stream.take (min n (len - buf.length))).length ≤ len := by
        rw [List.length_append, List.length_take]
        omega
      rw [recvLoop]
      split
      · obtain ⟨taken, hbuf, hstream, hle⟩ := @ih _ (stream.drop (min n (len - buf.length))) hmore
        refine ⟨stream.take (min n (len - buf.length)) ++ taken, ?_, ?_, ?_⟩
        · rw [hbuf, List.append_assoc]
        · rw [List.append_assoc, ← hstream, List.take_append_drop]
        · rwa [← List.append_assoc]
      · exact ⟨stream.take (min n (len - buf.length)), rfl, (List.take_append_drop ..).symm, hmore⟩

theorem length_recvPacket_le : (recvPacket len rs stream).buf.length ≤ len := by
  obtain ⟨taken, hbuf, -, hle⟩ := @recvLoop_spec len rs [] stream (Nat.zero_le len)
  rwa [recvPacket, hbuf]

/-- So many bytes come before the time is over. -/
def Arrives : Nat → List Recv → Prop
  | n, [] | n, .gone :: _ => n = 0
  | n, .again :: rs => Arrives n rs
  | n, .ready k :: rs => Arrives (n - k) rs

instance decidableArrives : (n : Nat) → (rs : List Recv) → Decidable (Arrives n rs)
  | n, [] | n, .gone :: _ => inferInstanceAs (Decidable (n = 0))
  | n, .again :: rs => decidableArrives n rs
  | n, .ready k :: rs => decidableArrives (n - k) rs

theorem arrives_zero (rs : List Recv) : Arrives 0 rs := by
  induction rs with
  | nil => rfl
  | cons r rs ih =>
    cases r with
    | gone => rfl
    | again => exact ih
    | ready k => rwa [Arrives, Nat.zero_sub]

/-- However the bytes are split on the way, they are all taken if they come in time. -/
theorem recvLoop_of_arrives (hlen : buf.length + taken.length = len) (hpos : 0 < taken.length)
    (ha : Arrives taken.length rs) :
    recvLoop len rs buf (taken ++ rest) = ⟨len, buf ++ taken, rest⟩ := by
  induction rs generalizing buf taken with
  | nil => exact absurd ha hpos.ne'
  | cons r rs ih =>
    cases r with
    | gone => exact absurd ha hpos.ne'
    | again => exact ih hlen hpos ha
    | ready k =>
      rw [recvLoop, show len - buf.length = taken.length by omega]
      by_cases hk : taken.length ≤ k
      · have hall : (buf ++ taken).length = len := by simpa using hlen
        simp [Nat.min_eq_right hk, hlen]
      · have hmin : min k taken.length = k := by omega
        have htake : (taken ++ rest).take k = taken.take k :=
          List.take_append_of_le_length (by omega)
        have hdrop : (taken ++ rest).drop k = taken.drop k ++ rest :=
          List.drop_append_of_le_length (by omega)
        have hsome : (taken.take k).length = k := List.length_take_of_le (by omega)
        have hmore : (buf ++ taken.take k).length < len := by
          rw [List.length_append, hsome]
          omega
        have hleft : (taken.drop k).length = taken.length - k := List.length_drop
        have hrest := @ih (buf ++ taken.take k) (taken.drop k)
          (by rw [List.length_append, hsome]; omega) (by omega) (by rw [hleft]; exact ha)
        simp only [hmin, htake, hdrop, hmore, if_true, hrest, List.append_assoc,
          List.take_append_drop]

theorem recvLoop_of_not_arrives (hlen : buf.length + n ≤ len) (ha : ¬ Arrives n rs) :
    (recvLoop len rs buf stream).bytes ≠ len := by
  induction rs generalizing buf stream n with
  | nil =>
    have hpos : n ≠ 0 := ha
    show (buf.length : Int) ≠ len
    omega
  | cons r rs ih =>
    cases r with
    | gone =>
      show (-1 : Int) ≠ len
      omega
    | again => exact ih hlen ha
    | ready k =>
      have hk : k < n := Nat.lt_of_not_le fun hle =>
        ha (by rw [Arrives, Nat.sub_eq_zero_of_le hle]; exact arrives_zero rs)
      have hsome : (stream.take (min k (len - buf.length))).length ≤ k := by
        rw [List.length_take]
        omega
      rw [recvLoop]
      split
      next => exact ih (by rw [List.length_append]; omega) ha
      next hfull =>
        rw [List.length_append] at hfull
        omega

theorem recvPacket_of_arrives (hpos : 0 < taken.length) (ha : Arrives taken.length rs) :
    recvPacket taken.length rs (taken ++ rest) = ⟨taken.length, taken, rest⟩ :=
  recvLoop_of_arrives (Nat.zero_add _) hpos ha

theorem recvPacket_of_not_arrives (ha : ¬ Arrives n rs) :
    (recvPacket n rs stream).bytes ≠ n :=
  recvLoop_of_not_arrives (Nat.zero_add n).le ha

theorem recvPacket_nil (hpos : 0 < n) : (recvPacket n rs []).bytes ≠ n := by
  rw [recvPacket]
  induction rs with
  | nil =>
    show (0 : Int) ≠ n
    omega
  | cons r rs ih =>
    cases r with
    | gone =>
      show (-1 : Int) ≠ n
      omega
    | again => exact ih
    | ready k => simpa [recvLoop, hpos] using ih

/-- A byte that is late is left in the stream. -/
theorem recvPacket_late (ha : ¬ Arrives 1 rs) : (recvPacket 1 rs stream).stream = stream := by
  rw [recvPacket]
  induction rs with
  | nil => rfl
  | cons r rs ih =>
    cases r with
    | gone => rfl
    | again => exact ih ha
    | ready k =>
      cases k with
      | zero => simpa [recvLoop] using ih ha
      | succ k => exact absurd (arrives_zero rs) (by simpa [Arrives] using ha)

/-- The first `n` bytes of the length come in time. -/
def PromptFor (n : Nat) (rss : List (List Recv)) : Prop :=
  n ≤ rss.length ∧ ∀ rs ∈ rss.take n, Arrives 1 rs

instance (n : Nat) (rss : List (List Recv)) : Decidable (PromptFor n rss) :=
  inferInstanceAs (Decidable (_ ∧ _))

theorem gives_recvChar {cs : List UInt8} (hp : PromptFor cs.length rss) :
    Gives recvChar (rss, cs ++ rest) cs (rss.drop cs.length, rest) := by
  induction cs generalizing rss with
  | nil => exact .nil _
  | cons c cs ih =>
    obtain ⟨hlen, hall⟩ := hp
    cases rss with
    | nil => exact absurd hlen (Nat.not_succ_le_zero _)
    | cons rs rss =>
      have hpos : 0 < [c].length := Nat.zero_lt_one
      have hfirst : recvPacket 1 rs ([c] ++ (cs ++ rest)) = ⟨1, [c], cs ++ rest⟩ :=
        recvPacket_of_arrives hpos (hall rs (List.mem_cons_self ..))
      refine .cons ?_ (ih ⟨Nat.le_of_succ_le_succ hlen, fun r hr => ?_⟩)
      · rw [recvChar, List.head?_cons, Option.getD_some, List.cons_append, ← List.singleton_append,
          hfirst]
        rfl
      · exact hall r (List.mem_cons_of_mem _ hr)

theorem decodePacket_encode (hn : n < 2 ^ 28) (hp : PromptFor (mqttPacketEncode n).length rss) :
    decodePacket rss (mqttPacketEncode n ++ rest) = (n, rest) := by
  rw [decodePacket, mqttPacketDecode,
    decodeLoop_encode (gives_recvChar hp) (length_mqttPacketEncode_le_four hn)]
  simp

/-- A length whose first byte is late is taken for 0. -/
theorem decodePacket_late (ha : ¬ Arrives 1 (rss.head?.getD [])) :
    decodePacket rss stream = (0, stream) := by
  have hnone : recvChar (rss, stream) = (none, rss.tail, stream) := by
    have hlate : (recvPacket 1 (rss.head?.getD []) stream).bytes ≠ 1 := recvPacket_of_not_arrives ha
    rw [recvChar, if_neg hlate, recvPacket_late ha]
  rw [decodePacket, mqttPacketDecode, maxNoOfRemainingLengthBytes, decodeLoop, hnone]

theorem decodePacket_lt (rss : List (List Recv)) (stream : List UInt8) :
    (decodePacket rss stream).1 < 2 ^ 28 :=
  (mqttPacketDecode_lt recvChar (rss, stream) :)

end Receive

section Read

variable {c : Client} {header body : List Recv} {length : List (List Recv)} {b : UInt8}
  {content rest stream : List UInt8}

/-- The sizes of the buffers are ones that the client can be used with. -/
structure Roomy (c : Client) : Prop where
  least : 5 ≤ c.readbufSize
  small : c.readbufSize < 2 ^ 32
  ack : 4 ≤ c.bufSize

theorem room_of_le {size len : Nat} (hleast : len ≤ size) (hsmall : size < 2 ^ 32) :
    (size + 2 ^ 32 - len) % 2 ^ 32 = size - len := by
  rw [show size + 2 ^ 32 - len = size - len + 2 ^ 32 by omega, Nat.add_mod_right,
    Nat.mod_eq_of_lt (by omega)]

/-- Whatever comes, nothing is stored behind the end of the buffer. -/
theorem readpacket_frame (hleast : 5 ≤ c.readbufSize) (hsize : c.readbufSize < 2 ^ 32)
    (header : List Recv) (length : List (List Recv)) (body : List Recv) (stream : List UInt8) :
    ∃ readbuf,
      (mqttpacketReadpacket c header length body stream).2.1 = { c with readbuf } ∧
        ∀ i, c.readbufSize ≤ i → readbuf i = c.readbuf i := by
  have hone : (recvPacket 1 header stream).buf.length ≤ 1 := length_recvPacket_le
  have hheader : ∀ i, c.readbufSize ≤ i →
      c.readbuf.write 0 (recvPacket 1 header stream).buf i = c.readbuf i :=
    fun i hi => Mem.write_apply_of_ge _ (by omega)
  rw [mqttpacketReadpacket]
  dsimp only
  split
  · exact ⟨_, rfl, hheader⟩
  · have hlt := decodePacket_lt length (recvPacket 1 header stream).stream
    rcases hdecode : decodePacket length (recvPacket 1 header stream).stream with ⟨remLen, stream'⟩
    rw [hdecode] at hlt
    have hfour : (mqttPacketEncode remLen).length ≤ 4 := length_mqttPacketEncode_le_four hlt
    have hlength : ∀ i, c.readbufSize ≤ i →
        (c.readbuf.write 0 (recvPacket 1 header stream).buf).write 1 (mqttPacketEncode remLen) i =
          c.readbuf i :=
      fun i hi => (Mem.write_apply_of_ge _ (by omega)).trans (hheader i hi)
    dsimp only
    rw [room_of_le (by omega) hsize]
    split
    · exact ⟨_, rfl, hlength⟩
    next hroom =>
      split
      · exact ⟨_, rfl, hlength⟩
      · have hrest : (recvPacket remLen body stream').buf.length ≤ remLen := length_recvPacket_le
        have hbody : ∀ i, c.readbufSize ≤ i →
            ((c.readbuf.write 0 (recvPacket 1 header stream).buf).write 1
              (mqttPacketEncode remLen)).write (1 + (mqttPacketEncode remLen).length)
              (recvPacket remLen body stream').buf i = c.readbuf i :=
          fun i hi => (Mem.write_apply_of_ge _ (by omega)).trans (hlength i hi)
        split
        · exact ⟨_, rfl, hbody⟩
        · exact ⟨_, rfl, hbody⟩

theorem has_packetOf (readbuf : Mem UInt8) (b : UInt8) (content : List UInt8) :
    (((readbuf.write 0 [b]).write 1 (mqttPacketEncode content.length)).write
      (1 + (mqttPacketEncode content.length).length) content).Has 0 (packetOf b content) := by
  have htwo := Mem.write_append readbuf 0 [b] (mqttPacketEncode content.length)
  have hthree := Mem.write_append readbuf 0 ([b] ++ mqttPacketEncode content.length) content
  rw [← htwo, Nat.zero_add, List.length_append] at hthree
  have hself := Mem.has_write_self readbuf 0 ([b] ++ mqttPacketEncode content.length ++ content)
  rw [← hthree] at hself
  simpa [packetOf] using hself

theorem readpacket_of_not_arrives (hheader : ¬ Arrives 1 header) :
    (mqttpacketReadpacket c header length body stream).1 = -1 := by
  have hlate : (recvPacket 1 header stream).bytes ≠ 1 := recvPacket_of_not_arrives hheader
  rw [mqttpacketReadpacket]
  exact congrArg Prod.fst (if_pos hlate)

theorem recvPacket_header (hheader : Arrives 1 header) :
    recvPacket 1 header (b :: rest) = ⟨1, [b], rest⟩ := by
  have hpos : 0 < [b].length := Nat.zero_lt_one
  exact recvPacket_of_arrives hpos hheader

/-- A packet that is in the stream is read as a whole if it comes in time, however it is split. -/
theorem readpacket_spec (hc : Roomy c) (hfits : (packetOf b content).length ≤ c.readbufSize)
    (hsmall : content.length < 2 ^ 28)
    (hp : PromptFor (mqttPacketEncode content.length).length length) :
    (Arrives 1 header ∧ Arrives content.length body →
      ∃ readbuf, mqttpacketReadpacket c header length body (packetOf b content ++ rest) =
        ((typeBits b : Int), { c with readbuf }, rest) ∧ readbuf.Has 0 (packetOf b content)) ∧
    (¬ (Arrives 1 header ∧ Arrives content.length body) →
      (mqttpacketReadpacket c header length body (packetOf b content ++ rest)).1 = -1) := by
  have hlen : (mqttPacketEncode content.length).length ≤ 4 := length_mqttPacketEncode_le_four hsmall
  have hroom : ¬ (c.readbufSize + 2 ^ 32 - (1 + (mqttPacketEncode content.length).length)) %
      2 ^ 32 < content.length := by
    have hleast := hc.least
    rw [room_of_le (by omega) hc.small]
    rw [length_packetOf] at hfits
    omega
  have hdecode : decodePacket length (mqttPacketEncode content.length ++ content ++ rest) =
      (content.length, content ++ rest) := by
    rw [List.append_assoc]
    exact decodePacket_encode hsmall hp
  have hheld := has_packetOf c.readbuf b content
  have htype := congrArg typeBits (Mem.has_cons.mp hheld).1
  by_cases hheader : Arrives 1 header
  · have hread := @recvPacket_header header b (mqttPacketEncode content.length ++ content ++ rest)
      hheader
    simp only [mqttpacketReadpacket, packetOf, List.cons_append, hread, ne_eq, not_true_eq_false,
      if_false, hdecode, hroom, hheader, true_and]
    by_cases hempty : content.length = 0
    · obtain rfl := List.length_eq_zero_iff.mp hempty
      rw [Mem.write_nil] at hheld htype
      refine ⟨fun _ => ⟨_, ?_, hheld⟩, fun hnot => absurd (arrives_zero body) hnot⟩
      simp only [List.length_nil, if_true, List.nil_append, Prod.mk.injEq, Nat.cast_inj, and_true]
      exact htype
    · constructor
      · intro hbody
        have hrest := @recvPacket_of_arrives body content rest (Nat.pos_of_ne_zero hempty) hbody
        refine ⟨_, ?_, hheld⟩
        simp only [hempty, if_false, hrest, not_true_eq_false, Prod.mk.injEq, Nat.cast_inj,
          and_true]
        exact htype
      · intro hbody
        have hrest : (recvPacket content.length body (content ++ rest)).bytes ≠ content.length :=
          recvPacket_of_not_arrives hbody
        simp only [hempty, if_false, hrest, not_false_eq_true, if_true]
  · exact ⟨fun h => absurd h.1 hheader, fun _ => readpacket_of_not_arrives hheader⟩

/-- When the first byte of the length is late, the packet is taken for one without content. -/
theorem readpacket_late (hheader : Arrives 1 header)
    (hlate : ¬ Arrives 1 (length.head?.getD [])) :
    ∃ readbuf, mqttpacketReadpacket c header length body (b :: rest) =
      ((typeBits b : Int), { c with readbuf }, rest) ∧ readbuf.Has 0 [b, 0] := by
  have hheld := has_packetOf c.readbuf b []
  rw [Mem.write_nil] at hheld
  have htype := congrArg typeBits (Mem.has_cons.mp hheld).1
  refine ⟨_, ?_, hheld⟩
  simp only [mqttpacketReadpacket, recvPacket_header hheader, decodePacket_late hlate, ne_eq,
    not_true_eq_false, if_false, Nat.not_lt_zero, if_true, Prod.mk.injEq, List.length_nil,
    Nat.cast_inj, and_true]
  exact htype

end Read

section Levels

/-- A level of a topic filter. -/
inductive Level
  | text (l : List UInt8)
  | any

def Level.bytes : Level → List UInt8
  | .text l => l
  | .any => [plus]

/-- A level that is not a wildcard has none in it. -/
def Level.Plain : Level → Prop
  | .text l => ∀ x ∈ l, x ≠ slash ∧ x ≠ plus ∧ x ≠ hash
  | .any => True

/-- The levels of a filter, with `#` behind the others if it takes more than they. -/
def levelTexts (fs : List Level) (multi : Bool) : List (List UInt8) :=
  fs.map Level.bytes ++ if multi then [[hash]] else []

def filterText (fs : List Level) (multi : Bool) : List UInt8 :=
  [slash].intercalate (levelTexts fs multi)

/-- The rule for topics: `+` stands for one level, `#` for all that follow. -/
def Matches : List Level → Bool → List (List UInt8) → Prop
  | [], multi, ns => multi = true ∨ ns = []
  | .text l :: fs, multi, n :: ns => l = n ∧ Matches fs multi ns
  | .any :: fs, multi, _ :: ns => Matches fs multi ns
  | _ :: _, _, [] => False

/-- No `+` stands for an empty level, and `#` for some level that is not empty and those behind. -/
def Filled : List Level → Bool → List (List UInt8) → Prop
  | [], true, [] => False
  | [], true, n :: _ => n ≠ []
  | [], false, _ => True
  | .text _ :: fs, multi, _ :: ns => Filled fs multi ns
  | .any :: fs, multi, n :: ns => n ≠ [] ∧ Filled fs multi ns
  | _ :: _, _, [] => True

end Levels

section Topics

variable {fs : List Level} {multi : Bool} {l n F N : List UInt8} {ls ns : List (List UInt8)}

theorem not_mem_of_mem_splitOn {a : UInt8} {xs : List UInt8} (hl : l ∈ xs.splitOn a) : a ∉ l := by
  induction xs generalizing l with
  | nil =>
    rw [List.splitOn_nil, List.mem_singleton] at hl
    simp [hl]
  | cons x xs ih =>
    rw [List.splitOn_cons_eq_if_modifyHead] at hl
    split at hl
    next =>
      rcases List.mem_cons.mp hl with rfl | hl
      · exact List.not_mem_nil
      · exact ih hl
    next hx =>
      obtain ⟨p, ps, hsplit⟩ := List.exists_cons_of_ne_nil (List.splitOn_ne_nil a xs)
      rw [hsplit, List.modifyHead_cons] at hl
      rcases List.mem_cons.mp hl with rfl | hl
      · have hp : a ∉ p := ih (hsplit ▸ List.mem_cons_self ..)
        have hne : a ≠ x := fun h => hx (beq_iff_eq.mpr h.symm)
        simp [hne, hp]
      · exact ih (hsplit ▸ List.mem_cons_of_mem _ hl)

/-- The levels, each behind a separator. -/
def tailText (ls : List (List UInt8)) : List UInt8 := ls.flatMap fun l => slash :: l

@[simp] theorem tailText_nil : tailText [] = [] := rfl

@[simp] theorem tailText_cons (l : List UInt8) (ls : List (List UInt8)) :
    tailText (l :: ls) = slash :: (l ++ tailText ls) := rfl

theorem intercalate_slash (l : List UInt8) (ls : List (List UInt8)) :
    [slash].intercalate (l :: ls) = l ++ tailText ls := by
  induction ls generalizing l with
  | nil => simp
  | cons l' ls ih =>
    rw [List.intercalate_cons_cons, ih, tailText_cons]
    simp

/-- What stands behind a level. -/
def Behind (N : List UInt8) : Prop := N = [] ∨ ∃ N', N = slash :: N'

theorem behind_tailText (ls : List (List UInt8)) : Behind (tailText ls) := by
  cases ls with
  | nil => exact .inl rfl
  | cons l ls => exact .inr ⟨_, tailText_cons l ls⟩

/-- `+` takes a level that is not empty. -/
theorem isTopicMatched_any (hn : slash ∉ n) (hN : Behind N) :
    isTopicMatched (plus :: F) (n ++ N) = true ↔ n ≠ [] ∧ isTopicMatched F N = true := by
  cases n with
  | nil =>
    rcases hN with rfl | ⟨N', rfl⟩
    · simp [isTopicMatched]
    · simp [isTopicMatched, plus, slash]
  | cons c n =>
    obtain ⟨hc, hn'⟩ := not_or.mp (mt List.mem_cons.mpr hn)
    have hskip : (n ++ N).dropWhile (· ≠ slash) = N := by
      rw [List.dropWhile_append_of_pos fun x hx => decide_eq_true (ne_of_mem_of_not_mem hx hn')]
      rcases hN with rfl | ⟨N', rfl⟩
      · rfl
      · exact List.dropWhile_cons_of_neg (by simp)
    rw [List.cons_append, isTopicMatched, if_neg fun h => hc h.1.symm, if_neg fun h => h.1 rfl,
      if_pos rfl, hskip]
    simp

/-- A level without wildcards takes only itself. -/
theorem isTopicMatched_text (hl : ∀ x ∈ l, x ≠ slash ∧ x ≠ plus ∧ x ≠ hash) (hn : slash ∉ n)
    (hF : Behind F) (hN : Behind N) :
    isTopicMatched (l ++ F) (n ++ N) = true ↔ l = n ∧ isTopicMatched F N = true := by
  induction l generalizing n with
  | nil =>
    cases n with
    | nil => simp
    | cons c n =>
      have hc : c ≠ slash := fun h => hn (h ▸ List.mem_cons_self ..)
      rcases hF with rfl | ⟨F', rfl⟩
      · simp [isTopicMatched]
      · have hends : isTopicMatched (slash :: F') (c :: (n ++ N)) = false := by
          rw [isTopicMatched, if_neg fun h => h.2 rfl, if_pos ⟨by decide, by decide, hc.symm⟩]
        simp [hends]
  | cons x l ih =>
    obtain ⟨⟨hslash, hplus, hhash⟩, hl'⟩ := List.forall_mem_cons.mp hl
    cases n with
    | nil =>
      rcases hN with rfl | ⟨N', rfl⟩
      · simp [isTopicMatched]
      · have hends : isTopicMatched (x :: (l ++ F)) (slash :: N') = false := by
          rw [isTopicMatched, if_pos ⟨rfl, hslash⟩]
        simp [hends]
    | cons c n =>
      obtain ⟨hc, hn'⟩ := not_or.mp (mt List.mem_cons.mpr hn)
      by_cases hx : x = c
      · subst hx
        rw [List.cons_append, List.cons_append, isTopicMatched, if_neg fun h => hslash h.1,
          if_neg fun h => h.2.2 rfl, if_neg hplus, if_neg hhash, ih hl' hn']
        simp
      · have hends : isTopicMatched (x :: (l ++ F)) (c :: (n ++ N)) = false := by
          rw [isTopicMatched, if_neg fun h => hc h.1.symm, if_pos ⟨hplus, hhash, hx⟩]
        simp [hends, hx]

theorem isTopicMatched_slash :
    isTopicMatched (slash :: F) (slash :: N) = isTopicMatched F N := by
  rw [isTopicMatched, if_neg fun h => h.2 rfl, if_neg fun h => h.2.2 rfl, if_neg (by decide),
    if_neg (by decide)]

/-- `#` takes what is left, if it starts with a level that is not empty. -/
theorem isTopicMatched_hash (hn : slash ∉ n) (hN : Behind N) :
    isTopicMatched [hash] (n ++ N) = true ↔ n ≠ [] := by
  cases n with
  | nil => rcases hN with rfl | ⟨N', rfl⟩ <;> simp [isTopicMatched, hash, slash]
  | cons c n =>
    have hc : c ≠ slash := fun h => hn (h ▸ List.mem_cons_self ..)
    rw [List.cons_append, isTopicMatched, if_neg fun h => hc h.1, if_neg fun h => h.2.1 rfl,
      if_neg (by decide), if_pos rfl]
    simp [isTopicMatched]

theorem isTopicMatched_tail (hfs : ∀ f ∈ fs, f.Plain) (hns : ∀ n ∈ ns, slash ∉ n) :
    isTopicMatched (tailText (levelTexts fs multi)) (tailText ns) = true ↔
      Matches fs multi ns ∧ Filled fs multi ns := by
  induction fs generalizing ns with
  | nil =>
    cases ns with
    | nil => cases multi <;> simp [levelTexts, isTopicMatched, Matches, Filled]
    | cons n ns =>
      have hlast := isTopicMatched_hash (hns n (List.mem_cons_self ..)) (behind_tailText ns)
      cases multi with
      | false => simp [levelTexts, isTopicMatched, Matches, Filled]
      | true => simp [levelTexts, isTopicMatched_slash, hlast, Matches, Filled]
  | cons f fs ih =>
    obtain ⟨hf, hfs'⟩ := List.forall_mem_cons.mp hfs
    have hlevels : levelTexts (f :: fs) multi = f.bytes :: levelTexts fs multi := rfl
    cases ns with
    | nil => cases f <;> simp [hlevels, isTopicMatched, Matches]
    | cons n ns =>
      obtain ⟨hn, hns'⟩ := List.forall_mem_cons.mp hns
      rw [hlevels, tailText_cons, tailText_cons, isTopicMatched_slash]
      cases f with
      | text l =>
        have hlevel := isTopicMatched_text hf hn (behind_tailText (levelTexts fs multi))
          (behind_tailText ns)
        rw [Level.bytes, hlevel, ih hfs' hns', Matches, Filled, and_assoc]
      | any =>
        have hlevel := @isTopicMatched_any n (tailText (levelTexts fs multi)) _ hn
          (behind_tailText ns)
        rw [Level.bytes, List.singleton_append, hlevel, ih hfs' hns', Matches, Filled]
        exact and_left_comm

/-- A topic filter takes the names that it should, except where a wildcard would stand for an
empty level, or `#` for no level at all. -/
theorem isTopicMatched_iff (hfs : ∀ f ∈ fs, f.Plain) (hsome : fs ≠ [] ∨ multi = true)
    (name : List UInt8) : isTopicMatched (filterText fs multi) name = true ↔
      Matches fs multi (name.splitOn slash) ∧ Filled fs multi (name.splitOn slash) := by
  obtain ⟨l, ls, hlevels⟩ : ∃ l ls, levelTexts fs multi = l :: ls := by
    cases fs with
    | nil => exact ⟨[hash], [], by simp [levelTexts, hsome.resolve_left fun h => h rfl]⟩
    | cons f fs => exact ⟨f.bytes, levelTexts fs multi, rfl⟩
  obtain ⟨n, ns, hname⟩ := List.exists_cons_of_ne_nil (List.splitOn_ne_nil slash name)
  have hsplit : ∀ n ∈ name.splitOn slash, slash ∉ n := fun n hn => not_mem_of_mem_splitOn hn
  rw [← isTopicMatched_tail hfs hsplit, hlevels, hname, tailText_cons, tailText_cons,
    isTopicMatched_slash, ← intercalate_slash, ← intercalate_slash, ← hname,
    List.intercalate_splitOn, ← hlevels]
  rfl

/-- `h/#` takes what stands in the house, not the house. -/
theorem isTopicMatched_iff_house :
    isTopicMatched (filterText [.text [0x68]] true) [0x68] = true ↔
      Matches [.text [0x68]] true [[0x68]] ∧ Filled [.text [0x68]] true [[0x68]] :=
  isTopicMatched_iff (by simp [Level.Plain, slash, plus, hash]) (.inr rfl) [0x68]

end Topics

section Runs

variable {c : Client} {env : Env} {p : Published} {ps : List Published} {rest stream : List UInt8}
  {b : UInt8} {done : List Published} {hist : Machine.History Env (List Effect)} {s : State}

/-- A message of the broker, on its topic. -/
structure Published where
  topicName : List UInt8
  message : Message

def Published.content (p : Published) : List UInt8 :=
  publishContent p.message.qos p.message.id p.topicName p.message.payload

def Published.packet (p : Published) : List UInt8 :=
  packetOf (mqttHeader publish p.message.dup p.message.qos p.message.retained) p.content

/-- The packet of the message is well formed, and the client has room for it. -/
structure Sendable (c : Client) (p : Published) : Prop where
  fits : Fits p.message.dup p.message.qos p.message.retained p.message.id p.topicName
    p.message.payload
  qos_le : p.message.qos ≤ 2
  room : p.packet.length ≤ c.readbufSize

/-- The same message; one without acknowledgement has no identifier. -/
structure Alike (p q : Published) : Prop where
  topicName : q.topicName = p.topicName
  message : q.message = { p.message with id := q.message.id }
  id : 0 < p.message.qos → q.message.id = p.message.id

def ackOf (message : Message) : List Effect :=
  if message.qos = 1 then [.send (packetOf (mqttHeader puback 0 0 0) (writeInt message.id))]
  else if message.qos = 2 then [.send (packetOf (mqttHeader pubrec 0 0 0) (writeInt message.id))]
  else []

/-- What the client is there to do with a message: the handlers get it, the broker its answer. -/
def served (c : Client) (p : Published) : List Effect :=
  deliverMessage c p.topicName p.message ++ ackOf p.message

/-- The packet comes in time, and the answer to it can be sent. -/
def Complete (p : Published) (env : Env) : Prop :=
  (Arrives 1 env.header ∧ Arrives p.content.length env.body) ∧
    (0 < p.message.qos → env.sent = true)

/-- The length of the packet comes in time. -/
def LengthInTime (p : Published) (env : Env) : Prop :=
  PromptFor (mqttPacketEncode p.content.length).length env.length

theorem sendAck_eq (hc : Roomy c) (sent : Bool) {packettype : Nat} (htype : packettype ≠ pubrel)
    (id : Nat) : sendAck c sent packettype id = (if sent = true then 0 else -1,
      [.send (packetOf (mqttHeader packettype 0 0 0) (writeInt id))]) := by
  have hroom : ¬ c.bufSize < 4 := Nat.not_lt.mpr hc.ack
  rw [sendAck, mqttSerializeAck, if_neg hroom, if_neg htype]
  rfl

/-- What comes of the variables that `MQTTDeserialize_publish` has set, or left. -/
theorem handlePacket_publish (hc : Roomy c) {out : PublishOut} (hqos : out.qos ≤ 2)
    (hread : mqttDeserializePublish env.publishOut c.readbuf = (1, out)) :
    handlePacket c env publish =
      (if out.qos = 0 ∨ env.sent = true then 0 else -1,
        deliverMessage c (out.topicName.data.read 0 out.topicName.len) (message out) ++
          ackOf (message out)) := by
  have hpuback := sendAck_eq hc env.sent (show puback ≠ pubrel by decide) out.packetid
  have hpubrec := sendAck_eq hc env.sent (show pubrec ≠ pubrel by decide) out.packetid
  rw [handlePacket, if_neg (by decide), if_neg (by decide), if_neg (by decide), if_pos rfl, hread]
  dsimp only
  rw [if_neg (by decide), hpuback, hpubrec]
  obtain h | h | h : out.qos = 0 ∨ out.qos = 1 ∨ out.qos = 2 := by omega
  · simp [h, ackOf, message]
  · simp [h, ackOf, message]
  · simp [h, ackOf, message]

theorem handlePacket_packet (hc : Roomy c) (hp : Sendable c p) (hbuf : c.readbuf.Has 0 p.packet)
    (env : Env) : ∃ q, Alike p q ∧ handlePacket c env publish =
      (if p.message.qos = 0 ∨ env.sent = true then 0 else -1, served c q) := by
  obtain ⟨out, hread, hdup, hqos, hretained, hid, htopic, hlen, hpayload⟩ :=
    deserialize_packet env.publishOut hp.fits hbuf
  have hsmall : p.message.payload.length < 2 ^ 32 := by
    have hall := hp.fits.small
    rw [length_publishContent] at hall
    omega
  have hwhole : (out.payloadlen % 2 ^ 32).toNat = p.message.payload.length := by omega
  have hmessage : message out = { p.message with id := out.packetid } := by
    rw [message, hwhole, hpayload, hdup, hqos, hretained]
  have hle := hp.qos_le
  refine ⟨⟨p.topicName, message out⟩, ⟨rfl, hmessage, fun hpos => hid (hqos ▸ hpos)⟩, ?_⟩
  rw [handlePacket_publish hc (hqos ▸ hle) hread, hqos, htopic]
  rfl

theorem mqttCycle_of_read {type : Nat} {c' : Client}
    (h : mqttpacketReadpacket c env.header env.length env.body stream = ((type : Int), c', rest)) :
    mqttCycle c env stream =
      ((handlePacket c' env type).1, (handlePacket c' env type).2, c', rest) := by
  have hfound : ¬ (type : Int) = -1 := by omega
  rw [mqttCycle, h]
  exact if_neg hfound

theorem mqttCycle_of_fail
    (h : (mqttpacketReadpacket c env.header env.length env.body stream).1 = -1) :
    mqttCycle c env stream =
      (-1, [], (mqttpacketReadpacket c env.header env.length env.body stream).2) := by
  rw [mqttCycle]
  exact if_pos h

theorem mqttCycle_frame (hleast : 5 ≤ c.readbufSize) (hsize : c.readbufSize < 2 ^ 32) (env : Env)
    (stream : List UInt8) : ∃ readbuf,
    (mqttCycle c env stream).2.2.1 = { c with readbuf } ∧
      ∀ i, c.readbufSize ≤ i → readbuf i = c.readbuf i := by
  obtain ⟨readbuf, hclient, hkept⟩ := readpacket_frame hleast hsize env.header env.length
    env.body stream
  refine ⟨readbuf, ?_, hkept⟩
  rw [← hclient, mqttCycle]
  dsimp only
  split <;> rfl

/-- The message of a packet that comes in time is served; without one the client gives up. -/
theorem mqttCycle_packet (hc : Roomy c) (hp : Sendable c p) (hlength : LengthInTime p env) :
    (Arrives 1 env.header ∧ Arrives p.content.length env.body →
      ∃ q readbuf, Alike p q ∧ mqttCycle c env (p.packet ++ rest) =
        (if p.message.qos = 0 ∨ env.sent = true then 0 else -1, served c q, { c with readbuf },
          rest)) ∧
    (¬ (Arrives 1 env.header ∧ Arrives p.content.length env.body) →
      (mqttCycle c env (p.packet ++ rest)).1 = -1 ∧
        (mqttCycle c env (p.packet ++ rest)).2.1 = []) := by
  have htype := (header_bits (show publish < 16 by decide) hp.fits.dup_lt hp.fits.qos_lt
    hp.fits.retained_lt).1
  obtain ⟨hread, hlate⟩ := @readpacket_spec c env.header env.body env.length _ p.content rest hc
    hp.room hp.fits.small hlength
  constructor
  · intro hall
    obtain ⟨readbuf, hread, hbuf⟩ := hread hall
    obtain ⟨q, hq, hhandle⟩ := @handlePacket_packet { c with readbuf } p ⟨hc.1, hc.2, hc.3⟩
      ⟨hp.1, hp.2, hp.3⟩ hbuf env
    refine ⟨q, readbuf, hq, ?_⟩
    rw [Published.packet, mqttCycle_of_read hread, htype, hhandle]
    rfl
  · intro hnot
    rw [Published.packet, mqttCycle_of_fail (hlate hnot)]
    exact ⟨rfl, rfl⟩

theorem mqttCycle_nil (c : Client) (env : Env) :
    (mqttCycle c env []).1 = -1 ∧ (mqttCycle c env []).2.1 = [] := by
  have hnone : (recvPacket 1 env.header []).bytes ≠ 1 := recvPacket_nil Nat.zero_lt_one
  have hfail : (mqttpacketReadpacket c env.header env.length env.body []).1 = -1 := by
    rw [mqttpacketReadpacket]
    exact congrArg Prod.fst (if_pos hnone)
  rw [mqttCycle_of_fail hfail]
  exact ⟨rfl, rfl⟩

/-- What the variables hold when only the header of a packet has been read. -/
def leftOver (out : PublishOut) (b : UInt8) : PublishOut :=
  { out with
    dup := dupBit b
    qos := qosBits b
    retained := retainBit b }

/-- After a header with the length late, the handlers are called with what the variables happen to
hold, and what follows in the stream is taken for packets of its own. -/
theorem mqttCycle_late (hc : Roomy c) (htype : typeBits b = publish) (hqos : qosBits b ≤ 2)
    (hheader : Arrives 1 env.header) (hlate : ¬ Arrives 1 (env.length.head?.getD [])) :
    ∃ readbuf, mqttCycle c env (b :: rest) =
      (if qosBits b = 0 ∨ env.sent = true then 0 else -1,
        deliverMessage c (env.publishOut.topicName.data.read 0 env.publishOut.topicName.len)
            (message (leftOver env.publishOut b)) ++
          ackOf (message (leftOver env.publishOut b)), { c with readbuf }, rest) := by
  obtain ⟨readbuf, hread, hbuf⟩ := @readpacket_late c env.header env.body env.length b rest hheader
    hlate
  obtain ⟨hb, hlen⟩ := Mem.has_cons.mp hbuf
  have hdecode : mqttPacketDecodeBuf readbuf 1 = (1, 0) :=
    mqttPacketDecodeBuf_encode (Nat.two_pow_pos 28) hlen
  have hstale : mqttDeserializePublish env.publishOut readbuf =
      (1, leftOver env.publishOut b) := by
    simp [mqttDeserializePublish, hb, htype, hdecode, readMqttLenString, leftOver]
  have hhandle := @handlePacket_publish { c with readbuf } env ⟨hc.1, hc.2, hc.3⟩ _ hqos hstale
  refine ⟨readbuf, ?_⟩
  rw [mqttCycle_of_read hread, htype, hhandle]
  rfl

def noOut : PublishOut := ⟨0, 0, 0, 0, ⟨0, fun _ => 0⟩, fun _ => 0, 0⟩

/-- A client that listens to what is in the house. -/
def house : Client := ⟨4, 32, fun _ => 0, [⟨some [0x68, slash, plus], true⟩], true⟩

/-- The last message was one for the thermometer. -/
def stalled : Env :=
  ⟨[.ready 1], [[.again]], [], true,
    ⟨0, 0, 0, 0, ⟨3, Mem.write (fun _ => 0) 0 [0x68, slash, 0x6b]⟩, fun _ => 20, 1⟩, ⟨0, 0, 0⟩,
    ⟨0, []⟩⟩

theorem mqttCycle_late_house : ∃ readbuf, mqttCycle house stalled [0x30, 6, 0, 3, 0x68, slash, 0x6c, 1] =
    (0, [.callback (some 0) [0x68, slash, 0x6b] ⟨0, 0, 0, 0, [20]⟩], { house with readbuf },
      [6, 0, 3, 0x68, slash, 0x6c, 1]) := by
  obtain ⟨readbuf, h⟩ := @mqttCycle_late house stalled [6, 0, 3, 0x68, slash, 0x6c, 1] 0x30
    ⟨by decide, by decide, by decide⟩ (by decide) (by decide) (by decide) (by decide)
  exact ⟨readbuf, h.trans (by rfl)⟩

/-- Each entry has the message at its place, with which it stands in the relation. -/
def Along {α : Type*} (R : Published → α → Prop) (ps : List Published) (xs : List α) : Prop :=
  ∀ (i : Nat) (x : α), xs[i]? = some x → ∃ p, ps[i]? = some p ∧ R p x

theorem along_concat {α : Type*} {R : Published → α → Prop} {xs : List α} {x : α} :
    Along R ps (xs ++ [x]) ↔ Along R ps xs ∧ ∃ p, ps[xs.length]? = some p ∧ R p x := by
  constructor
  · intro h
    refine ⟨fun i y hy => h i y ?_, h xs.length x List.getElem?_concat_length⟩
    rwa [List.getElem?_append_left (List.getElem?_eq_some_iff.mp hy).1]
  · rintro ⟨h, hlast⟩ i y hy
    rcases Nat.lt_or_ge i xs.length with hi | hi
    · rw [List.getElem?_append_left hi] at hy
      exact h i y hy
    · rw [List.getElem?_append_right hi, List.getElem?_singleton] at hy
      split at hy
      next hzero =>
        obtain rfl : i = xs.length := by omega
        rwa [← Option.some.inj hy]
      next => cases hy

/-- The state of the client when these of the messages are served. -/
structure Serving (c : Client) (ps done : List Published)
    (hist : Machine.History Env (List Effect)) (s : State) : Prop where
  alike : Along Alike ps done
  effects : hist.flatMap (·.2) = done.flatMap (served c)
  client : ∃ readbuf, s.client = { c with readbuf }
  stream : s.connected = true →
    done.length = hist.length ∧ s.stream = (ps.drop hist.length).flatMap Published.packet
  connected : s.connected = true ↔ Along (fun p x => Complete p x.1) ps hist

theorem Serving.init (c : Client) (ps : List Published) :
    Serving c ps [] [] ⟨c, ps.flatMap Published.packet, true⟩ where
  alike i x h := by cases h
  effects := rfl
  client := ⟨c.readbuf, rfl⟩
  stream _ := ⟨rfl, rfl⟩
  connected := iff_of_true rfl fun i x h => by cases h

theorem Serving.lose {client : Client} (hs : Serving c ps done hist s)
    (hnot : ¬ ∃ p, ps[hist.length]? = some p ∧ Complete p env)
    (hclient : ∃ readbuf, client = { c with readbuf }) (stream : List UInt8) :
    Serving c ps done (hist ++ [(env, [])]) ⟨client, stream, false⟩ where
  alike := hs.alike
  effects := by simpa using hs.effects
  client := hclient
  stream h := by cases h
  connected := by
    rw [along_concat]
    exact iff_of_false Bool.false_ne_true fun h => hnot h.2

theorem Serving.serve {q : Published} {readbuf : Mem UInt8} {on : Bool}
    (hs : Serving c ps done hist s) (hon : s.connected = true) (hnext : ps[hist.length]? = some p)
    (hq : Alike p q) (hcomplete : on = true ↔ Complete p env) :
    Serving c ps (done ++ [q]) (hist ++ [(env, served c q)])
      ⟨{ c with readbuf }, (ps.drop (hist.length + 1)).flatMap Published.packet, on⟩ where
  alike := along_concat.mpr ⟨hs.alike, p, (hs.stream hon).1 ▸ hnext, hq⟩
  effects := by simp [hs.effects]
  client := ⟨readbuf, rfl⟩
  stream _ := by simp [(hs.stream hon).1]
  connected := by
    rw [along_concat, hnext]
    refine hcomplete.trans ⟨fun h => ⟨hs.connected.mp hon, p, rfl, h⟩, ?_⟩
    rintro ⟨-, p', hp', h⟩
    rwa [Option.some.inj hp']

theorem step_connected (c : Client) (stream : List UInt8) (env : Env) :
    step ⟨c, stream, true⟩ env =
      some (⟨(mqttCycle c env stream).2.2.1, (mqttCycle c env stream).2.2.2,
        0 ≤ (mqttCycle c env stream).1⟩, (mqttCycle c env stream).2.1) := by
  rw [step, if_pos rfl]

theorem machine_step (c : Client) (stream : List UInt8) :
    (machine c stream).step = step := rfl

theorem machine_init (c : Client) (stream : List UInt8) :
    (machine c stream).init = ⟨c, stream, true⟩ := rfl

theorem reaches_cycle (c : Client) (stream : List UInt8) (env : Env) : ∃ hist s,
    (machine c stream).Reaches hist s ∧ s.client = (mqttCycle c env stream).2.2.1 := by
  have hstep := step_connected c stream env
  rw [← machine_step c stream, ← machine_init] at hstep
  exact ⟨_, _, .step .init trivial hstep, rfl⟩

theorem cycle_of_step {o : List Effect} {t : State} (hstep : step s env = some (t, o)) :
    s.connected = true ∧ ∃ rc, mqttCycle s.client env s.stream = (rc, o, t.client, t.stream) ∧
      t.connected = decide (0 ≤ rc) := by
  rw [step] at hstep
  split at hstep
  next hon =>
    rcases hcycle : mqttCycle s.client env s.stream with ⟨rc, effects, client, stream⟩
    simp only [hcycle, Option.some.injEq, Prod.mk.injEq] at hstep
    obtain ⟨rfl, rfl⟩ := hstep
    exact ⟨hon, rc, rfl, rfl⟩
  next => cases hstep

theorem Serving.step {o : List Effect} {t : State} (hs : Serving c ps done hist s)
    (hc : Roomy c) (hps : ∀ p ∈ ps, Sendable c p)
    (htime : ∀ p, ps[hist.length]? = some p → LengthInTime p env)
    (hstep : step s env = some (t, o)) : ∃ done', Serving c ps done' (hist ++ [(env, o)]) t := by
  obtain ⟨hon, rc, hcycle, honward⟩ := cycle_of_step hstep
  obtain ⟨readbuf, hclient⟩ := hs.client
  have hrest := (hs.stream hon).2
  have hc' : Roomy { c with readbuf } := ⟨hc.1, hc.2, hc.3⟩
  rw [hclient] at hcycle
  obtain ⟨client, stream, connected⟩ := t
  dsimp only at hcycle honward
  -- a cycle that serves no message leaves the client without a connection
  have hlose : (¬ ∃ p, ps[hist.length]? = some p ∧ Complete p env) →
      (mqttCycle { c with readbuf } env s.stream).1 = -1 ∧
        (mqttCycle { c with readbuf } env s.stream).2.1 = [] →
      ∃ done', Serving c ps done' (hist ++ [(env, o)]) ⟨client, stream, connected⟩ := by
    rintro hnot ⟨hrc, hnone⟩
    obtain ⟨readbuf', hkept, -⟩ := mqttCycle_frame hc'.least hc'.small env s.stream
    rw [hcycle] at hrc hnone hkept
    obtain rfl : rc = -1 := hrc
    obtain rfl : connected = false := honward
    obtain rfl : o = [] := hnone
    exact ⟨done, hs.lose hnot ⟨readbuf', hkept⟩ stream⟩
  rcases hnext : ps[hist.length]? with - | p
  · have hend : s.stream = [] := by
      rw [hrest, List.drop_eq_nil_of_le (List.getElem?_eq_none_iff.mp hnext)]
      rfl
    exact hlose (by simp [hnext]) (hend ▸ mqttCycle_nil _ env)
  · have hpacket : s.stream = p.packet ++ (ps.drop (hist.length + 1)).flatMap Published.packet := by
      obtain ⟨hlt, hget⟩ := List.getElem?_eq_some_iff.mp hnext
      rw [hrest, List.drop_eq_getElem_cons hlt, hget, List.flatMap_cons]
    have hp := hps p (List.mem_of_getElem? hnext)
    obtain ⟨hserve, hlate⟩ := @mqttCycle_packet { c with readbuf } env p
      ((ps.drop (hist.length + 1)).flatMap Published.packet) hc' ⟨hp.1, hp.2, hp.3⟩
      (htime p hnext)
    rw [← hpacket] at hserve hlate
    by_cases hall : Arrives 1 env.header ∧ Arrives p.content.length env.body
    · obtain ⟨q, readbuf', hq, hserved⟩ := hserve hall
      rw [hcycle, Prod.mk.injEq, Prod.mk.injEq, Prod.mk.injEq] at hserved
      obtain ⟨hrc, rfl, rfl, rfl⟩ := hserved
      have hcomplete : connected = true ↔ Complete p env := by
        rw [honward, hrc, Complete, Nat.pos_iff_ne_zero, imp_iff_not_or, not_not]
        split
        next hsent => exact iff_of_true rfl ⟨hall, hsent⟩
        next hsent => exact iff_of_false (by decide) fun h => hsent h.2
      exact ⟨done ++ [q], hs.serve hon hnext hq hcomplete⟩
    · refine hlose ?_ (hlate hall)
      rintro ⟨p', hp', h⟩
      rw [hnext, Option.some.injEq] at hp'
      exact hall (hp' ▸ h.1)

/-- A packet with the longest length comes. -/
def overlong : Env :=
  ⟨[.ready 1], List.replicate 4 [.ready 1], [], false, noOut, ⟨0, 0, 0⟩, ⟨0, []⟩⟩

/-- A client with a small buffer. -/
def small (size : Nat) : Client := ⟨4, size, fun _ => 0, [], false⟩

theorem small_overrun : ∀ size < 5,
    (mqttCycle (small size) overlong [1, 0x81, 0x81, 0x81, 1]).2.2.1.readbuf size ≠ 0 := by decide

/-- Whatever the broker or anyone else sends, nothing is stored past the end of the buffer for
incoming packets, if it has room for a header and the longest length. -/
theorem readbuf_kept_iff {size : Nat} (hsize : size < 2 ^ 32) :
    (∀ c stream hist s, c.readbufSize = size → (machine c stream).Reaches hist s →
      ∀ i, size ≤ i → s.client.readbuf i = c.readbuf i) ↔ 5 ≤ size := by
  constructor
  · intro h
    by_contra hless
    obtain ⟨hist, s, hr, hs⟩ := reaches_cycle (small size) [1, 0x81, 0x81, 0x81, 1] overlong
    have hover := small_overrun size (Nat.not_le.mp hless)
    rw [← hs] at hover
    exact hover (h (small size) _ hist s rfl hr size le_rfl)
  · rintro hleast c stream hist s rfl hr i hi
    have hkept : ∃ readbuf, s.client = { c with readbuf } ∧
        ∀ i, c.readbufSize ≤ i → readbuf i = c.readbuf i := by
      refine hr.stateInvariant (fun s => ∃ readbuf, s.client = { c with readbuf } ∧
        ∀ i, c.readbufSize ≤ i → readbuf i = c.readbuf i) ⟨c.readbuf, rfl, fun _ _ => rfl⟩ ?_
      rintro s env t o ⟨readbuf, hclient, hkept⟩ - hstep
      obtain ⟨-, rc, hcycle, -⟩ := cycle_of_step hstep
      obtain ⟨readbuf', hclient', hkept'⟩ := @mqttCycle_frame { c with readbuf } hleast hsize env
        s.stream
      rw [hclient] at hcycle
      rw [hcycle] at hclient'
      exact ⟨readbuf', hclient', fun i hi => (hkept' i hi).trans (hkept i hi)⟩
    obtain ⟨readbuf, hclient, hkept⟩ := hkept
    rw [hclient]
    exact hkept i hi

theorem readbuf_kept_iff_kilobyte :
    (∀ c stream hist s, c.readbufSize = 1024 → (machine c stream).Reaches hist s →
      ∀ i, 1024 ≤ i → s.client.readbuf i = c.readbuf i) ↔ 5 ≤ 1024 :=
  readbuf_kept_iff (by decide)

end Runs

end BdkRtt.Mqtt
