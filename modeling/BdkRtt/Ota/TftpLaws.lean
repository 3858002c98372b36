import BdkRtt.Ota.Tftp
import BdkRtt.Flash.DriverLaws

namespace BdkRtt.Ota

open Lib Flash

section Trace

/-- The blocks passed to `store_block`, each with its argument. -/
def stored (outs : List TftpOut) : List (UInt32 × List UInt8) :=
  outs.filterMap fun
    | .store block src => some (block, src)
    | _ => none

structure FlashWrite where
  userBuf : List UInt8
  count : UInt32
  address : UInt32

/-- The payloads sent to the flash. -/
def flashWrites (outs : List TftpOut) : List FlashWrite :=
  outs.filterMap fun
    | .write userBuf count address => some ⟨userBuf, count, address⟩
    | _ => none

def acks (outs : List TftpOut) : List UInt16 :=
  outs.filterMap fun
    | .ack block => some block
    | _ => none

def headers (outs : List TftpOut) : List ImgHead :=
  outs.filterMap fun
    | .header img _ => some img
    | _ => none

@[simp] theorem stored_append (o o' : List TftpOut) : stored (o ++ o') = stored o ++ stored o' :=
  List.filterMap_append

@[simp] theorem flashWrites_append (o o' : List TftpOut) :
    flashWrites (o ++ o') = flashWrites o ++ flashWrites o' := List.filterMap_append

@[simp] theorem acks_append (o o' : List TftpOut) : acks (o ++ o') = acks o ++ acks o' :=
  List.filterMap_append

@[simp] theorem headers_append (o o' : List TftpOut) :
    headers (o ++ o') = headers o ++ headers o' := List.filterMap_append

end Trace

section Law

variable (coCrc32 : List UInt8 → UInt32 → UInt32) (flashSize : UInt32)

/-- A payload marked as the last of its image. -/
def Last (src : List UInt8) : Prop := (sendPtkHd src).seq = (sendPtkHd src).totalSeq

/-- The CRC over whole blocks. -/
def crcOver (blocks : List (List UInt8)) : UInt32 := blocks.foldl (fun crc src => coCrc32 src crc) 0

def trailer (src : List UInt8) : UInt32 := ofLe32 (src.drop (src.length - 4))

/-- The blocks are all there, and their CRC up to the trailer equals it. -/
def Complete (blocks : List (List UInt8)) : Prop :=
  ∃ init last, blocks = init ++ [last] ∧ (sendPtkHd last).totalSeq.toNat = blocks.length ∧
    coCrc32 (last.take (last.length - 4)) (crcOver coCrc32 init) = trailer last

/-- A block number that stands for one of `k` blocks stored. -/
def Numbers (k : Nat) (n : UInt16) : Prop := ∃ j, 1 ≤ j ∧ j ≤ k ∧ n = UInt16.ofNat j

/-- What one datagram may do to the image behind the blocks stored and the writes made: store the
next block where the last write ended, acknowledge a block that is stored, or the OACK, and
write the header of a complete image. -/
structure StepLaw (blocks : List (List UInt8)) (before : List FlashWrite) (d : Datagram)
    (o : List TftpOut) : Prop where
  next : stored o = [] ∨ ∃ block src, stored o = [(block, src)] ∧
    (block + 1).toUInt16 = UInt16.ofNat (blocks.length + 1) ∧
    src = (d.buf.drop 4).take (d.len.toNat - 4)
  written : (flashWrites o).map FlashWrite.userBuf = (stored o).map fun s => s.2.drop 24
  behind : ∀ w ∈ flashWrites o, w.count.toNat = w.userBuf.length ∧
    ¬ Refused flashSize w.address w.count ∧
    ∀ v ∈ before.getLast?, w.address = v.address + v.count
  acked : ∀ n ∈ acks o, (n = 0 ∧ d.proto = tftpOack) ∨
    Numbers (blocks.length + (stored o).length) n
  header : ∀ img ∈ headers o, img.status = 1 ∧
    Complete coCrc32 (blocks ++ (stored o).map Prod.snd)

end Law

section Cases

variable (coCrc32 : List UInt8 → UInt32 → UInt32) (c : TftpClient) (d : Datagram)

/-- The handler looks at the datagram. -/
def Hears : Prop := (c.tftpState = .rrq ∨ d.port = c.serverPort) ∧ 2 ≤ d.len

/-- The next block is the first one after the request or an OACK. -/
def First : Prop := c.tftpState = .rrq ∨ c.tftpState = .oack

/-- The datagram is a block. -/
structure TakesData : Prop where
  hears : Hears c d
  data : d.proto = tftpData
  long : 2 ≤ d.len - 2

/-- The block is answered only, as the one before. -/
structure Repeats : Prop where
  takes : TakesData c d
  notFirst : ¬ First c
  same : d.block.toUInt64 = c.lastBlock

/-- The block goes to `store_block`. -/
structure Stores : Prop where
  takes : TakesData c d
  first : First c → d.block = 1
  other : ¬ First c → d.block.toUInt64 ≠ c.lastBlock

/-- The bytes of the block. -/
def Datagram.src : List UInt8 := (d.buf.drop 4).take (d.len.toNat - 4)

/-- The client as `store_block` finds it, in all that it looks at. -/
structure Same (c c' : TftpClient) : Prop where
  osDataAddr : c'.osDataAddr = c.osDataAddr
  tftpCrc : c'.tftpCrc = c.tftpCrc

/-- What the handler does with a datagram. -/
inductive Handled : TftpClient → List TftpOut → Prop
  | nothing {c'} : Same c c' → Handled c' []
  | oack {c'} : Hears c d → d.proto = tftpOack → Same c c' →
      Handled c' [.ack c.block.toUInt16]
  | again {c'} : Repeats c d → Same c c' → Handled c' [.ack d.block]
  | block {c₁ c'} : Stores c d → Same c c₁ →
      Same (storeBlock coCrc32 c₁ (d.block.toUInt64 - 1).toUInt32 (d.buf.drop 4) (d.len - 4)).1 c' →
      Handled c' ((storeBlock coCrc32 c₁ (d.block.toUInt64 - 1).toUInt32 (d.buf.drop 4)
        (d.len - 4)).2 ++ [.ack d.block])

theorem sub_four (n : UInt32) : n - 2 - 2 = n - 4 := by
  grind

theorem storeBlock_block (block : UInt32) (src : List UInt8) (len : UInt32) :
    (storeBlock coCrc32 c block src len).1.block = c.block := by
  unfold storeBlock startBlock
  simp only [apply_ite Prod.fst, apply_ite TftpClient.block, ite_self]

theorem blockNumber_eq (n : UInt16) : n.toUInt64.toUInt16 = n := UInt16.toUInt16_toUInt64 n

theorem handleData_handled (h : Hears c d) (hproto : d.proto = tftpData) :
    Handled coCrc32 c d (handleData coCrc32 c d).1 (handleData coCrc32 c d).2 := by
  unfold handleData
  split
  next => exact .nothing ⟨rfl, rfl⟩
  next hlong =>
    have htakes : TakesData c d := ⟨h, hproto, UInt32.not_lt.mp hlong⟩
    have hone : d.block.toUInt64 = 1 ↔ d.block = 1 :=
      ⟨fun h1 => by rw [← blockNumber_eq d.block, h1]; rfl, fun h1 => by rw [h1]; rfl⟩
    dsimp only
    rw [sub_four]
    by_cases hfirst : c.tftpState = .rrq ∨ c.tftpState = .oack
    · simp only [hfirst, if_true, true_and]
      split
      next => exact .nothing ⟨rfl, rfl⟩
      next hblock =>
        have hblock' : d.block = 1 := hone.mp (Classical.not_not.mp hblock)
        split
        next hzero => exact absurd (hzero.symm.trans (hone.mpr hblock')) (by decide)
        next =>
          rw [storeBlock_block, blockNumber_eq]
          exact .block ⟨htakes, fun _ => hblock', fun hnot => absurd hfirst hnot⟩ ⟨rfl, rfl⟩
            ⟨rfl, rfl⟩
    · simp only [hfirst, if_false, false_and]
      split
      next hsame =>
        rw [blockNumber_eq]
        exact .again ⟨htakes, hfirst, hsame⟩ ⟨rfl, rfl⟩
      next hother =>
        rw [storeBlock_block, blockNumber_eq]
        exact .block ⟨htakes, fun hyes => absurd hyes hfirst, fun _ => hother⟩ ⟨rfl, rfl⟩
          ⟨rfl, rfl⟩

theorem tftpHandler_handled :
    Handled coCrc32 c d (tftpHandler coCrc32 c d).1 (tftpHandler coCrc32 c d).2 := by
  unfold tftpHandler
  split
  next => exact .nothing ⟨rfl, rfl⟩
  next hport =>
    split
    next => exact .nothing ⟨rfl, rfl⟩
    next hlen =>
      have hears : Hears c d :=
        ⟨Classical.or_iff_not_imp_left.mpr fun hs => Classical.not_not.mp fun hp => hport ⟨hs, hp⟩,
          UInt32.not_lt.mp hlen⟩
      split
      next hproto => exact .oack hears hproto ⟨rfl, rfl⟩
      next =>
        split
        next hproto => exact handleData_handled coCrc32 c d hears hproto
        next => exact .nothing ⟨rfl, rfl⟩

end Cases

section Store

theorem sendPtkHd_take {src : List UInt8} {n : Nat} (h : 24 ≤ n) :
    sendPtkHd (src.take n) = sendPtkHd src := by
  simp only [sendPtkHd, List.drop_take]
  rw [ofLe32_take (by omega), ofLe16_take (by omega), ofLe16_take (by omega),
    ofLe32_take (by omega), ofLe32_take (by omega), ofLe32_take (by omega),
    ofLe32_take (by omega)]

variable (coCrc32 : List UInt8 → UInt32 → UInt32)

/-- What `store_block` does with the whole block `src` at an address that it accepts. -/
structure StoreSpec (crc address : UInt32) (block : UInt32) (src : List UInt8) (c' : TftpClient)
    (o : List TftpOut) : Prop where
  stored_eq : stored o = [(block, src)]
  write_eq : flashWrites o = [⟨src.drop 24, UInt32.ofNat (src.length - 24), address⟩]
  acks_eq : acks o = []
  next : c'.osDataAddr = address + UInt32.ofNat (src.length - 24)
  carries : ¬ Last src → c'.tftpCrc = coCrc32 src crc
  header : ∀ img ∈ headers o, img.status = 1 ∧ Last src ∧
    coCrc32 (src.take (src.length - 4)) crc = trailer src

/-- The block and its payload among the requests, with an erase or without. -/
theorem outs_of_write {address : UInt32} {erased : List TftpOut}
    (herased : erased = if address % 0x1000 = 0 then [.erase address] else [])
    (block : UInt32) (src payload : List UInt8) (count : UInt32) :
    stored (.store block src :: erased ++ [.write payload count address]) = [(block, src)] ∧
      flashWrites (.store block src :: erased ++ [.write payload count address]) =
        [⟨payload, count, address⟩] ∧
      acks (.store block src :: erased ++ [.write payload count address]) = [] ∧
      headers (.store block src :: erased ++ [.write payload count address]) = [] := by
  subst herased
  split <;> exact ⟨rfl, rfl, rfl, rfl⟩

theorem storeBlock_spec (c : TftpClient) (block : UInt32) {buf : List UInt8} {len : UInt32}
    (hlen : 24 ≤ len.toNat) (hfits : len.toNat ≤ buf.length)
    (hlower : 0x27000 ≤ (startBlock c block (sendPtkHd buf)).osDataAddr)
    (hupper : (startBlock c block (sendPtkHd buf)).osDataAddr < 0x200000) :
    StoreSpec coCrc32 (startBlock c block (sendPtkHd buf)).tftpCrc
      (startBlock c block (sendPtkHd buf)).osDataAddr block (buf.take len.toNat)
      (storeBlock coCrc32 c block buf len).1 (storeBlock coCrc32 c block buf len).2 := by
  have hlength : (buf.take len.toNat).length = len.toNat := List.length_take_of_le hfits
  have h24 : (len - 24).toNat = len.toNat - 24 := UInt32.toNat_sub_of_le _ _ hlen
  have h4 : (len - 4).toNat = len.toNat - 4 :=
    UInt32.toNat_sub_of_le _ _ (Nat.le_trans (by decide : (4 : UInt32).toNat ≤ 24) hlen)
  have hcount : UInt32.ofNat ((buf.take len.toNat).length - 24) = len - 24 := by
    rw [hlength, ← h24, UInt32.ofNat_toNat]
  have hpayload : (buf.drop 24).take (len - 24).toNat = (buf.take len.toNat).drop 24 := by
    rw [h24, List.drop_take]
  have hhead : sendPtkHd (buf.take len.toNat) = sendPtkHd buf := sendPtkHd_take hlen
  have hcrc : (buf.take len.toNat).take ((buf.take len.toNat).length - 4) =
      buf.take (len - 4).toNat := by
    rw [hlength, h4, List.take_take, Nat.min_eq_left (Nat.sub_le _ _)]
  have htrailer : trailer (buf.take len.toNat) = ofLe32 (buf.drop (len - 4).toNat) := by
    rw [trailer, hlength, ← h4, List.drop_take, h4]
    exact ofLe32_take (by omega)
  unfold storeBlock
  dsimp only
  generalize startBlock c block (sendPtkHd buf) = c₁ at hlower hupper ⊢
  rw [if_neg (not_or.mpr ⟨UInt32.not_le.mpr hupper, UInt32.not_lt.mpr hlower⟩), hpayload]
  generalize herased : (if c₁.osDataAddr % 0x1000 = 0 then [TftpOut.erase c₁.osDataAddr]
    else []) = erased
  obtain ⟨hs, hw, ha, hh⟩ := outs_of_write herased.symm block (buf.take len.toNat)
    ((buf.take len.toNat).drop 24) (len - 24)
  split
  next hseq =>
    refine ⟨hs, by rw [hw, hcount], ha, by rw [hcount], fun _ => rfl, fun img himg => ?_⟩
    rw [hh] at himg
    exact absurd himg List.not_mem_nil
  next hseq =>
    have hlast : Last (buf.take len.toNat) := by
      rw [Last, hhead]
      exact Classical.not_not.mp hseq
    split
    next hok =>
      refine ⟨?_, ?_, ?_, by rw [hcount], fun hnot => absurd hlast hnot, fun img himg => ?_⟩
      · rw [stored_append, hs]
        rfl
      · rw [flashWrites_append, hw, hcount]
        rfl
      · rw [acks_append, ha]
        rfl
      · rw [headers_append, hh] at himg
        obtain rfl := List.mem_singleton.mp himg
        exact ⟨rfl, hlast, by rw [hcrc, htrailer, hok]⟩
    next =>
      refine ⟨hs, by rw [hw, hcount], ha, by rw [hcount], fun hnot => absurd hlast hnot,
        fun img himg => ?_⟩
      rw [hh] at himg
      exact absurd himg List.not_mem_nil

end Store

end BdkRtt.Ota
