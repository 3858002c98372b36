import BdkRtt.Ota.TftpLaws

namespace BdkRtt.Ota

open Lib Flash

/-- The client, and the blocks that it has passed to `store_block`. -/
structure TftpRun where
  client : TftpClient
  blocks : List (List UInt8)

section Run

variable (coCrc32 : List UInt8 → UInt32 → UInt32) (flashSize : UInt32)

/-- The client from `TftpStart` on, until `Tftp_Uninit` ends its thread. -/
def tftp (c₀ : TftpClient) : Machine TftpRun Datagram (List TftpOut) where
  init := ⟨tftpStart c₀, []⟩
  step r d :=
    if r.client.uninit then none
    else
      let a := tftpHandler coCrc32 r.client d
      some (⟨a.1, r.blocks ++ (stored a.2).map Prod.snd⟩, a.2)

abbrev TftpHistory := Machine.History Datagram (List TftpOut)

def blocksOf (h : TftpHistory) : List (List UInt8) := h.flatMap fun r => (stored r.2).map Prod.snd
def writesOf (h : TftpHistory) : List FlashWrite := h.flatMap fun r => flashWrites r.2

/-- Every datagram of the run kept the law. -/
inductive ImageLaw : TftpHistory → Prop
  | nil : ImageLaw []
  | step {h d o} : ImageLaw h → StepLaw coCrc32 flashSize (blocksOf h) (writesOf h) d o →
      ImageLaw (h ++ [(d, o)])

/-- Where the block of the datagram would go, and the CRC that it would carry on. -/
def TftpRun.target (r : TftpRun) (d : Datagram) : UInt32 :=
  if r.blocks = [] then (sendPtkHd d.src).os1FlashAddr else r.client.osDataAddr

def TftpRun.crcSoFar (r : TftpRun) : UInt32 := if r.blocks = [] then 0 else r.client.tftpCrc

/-- The datagram brings the block behind those stored, to a place where it can be written.  If it
closes the image, by its mark and by the CRC, it is the last by its number too, and the first one
with the mark. -/
structure Follows (r : TftpRun) (d : Datagram) : Prop where
  number : d.block = UInt16.ofNat (r.blocks.length + 1)
  noWrap : r.blocks.length < 65536
  whole : 28 ≤ d.len.toNat
  lower : 0x27000 ≤ r.target d
  upper : r.target d < 0x200000
  onChip : ¬ Refused flashSize (r.target d) (d.len - 28)
  last : Last d.src →
    coCrc32 (d.src.take (d.src.length - 4)) r.crcSoFar = trailer d.src →
    (sendPtkHd d.src).totalSeq.toNat = r.blocks.length + 1 ∧ ∀ src ∈ r.blocks, ¬ Last src

/-- The datagrams that the client treats as it should: an OACK while no block, or a block that is
stored, was the last to come; a repeated block that is stored; and the next block. -/
structure InOrder (r : TftpRun) (d : Datagram) : Prop where
  oack : Hears r.client d → d.proto = tftpOack →
    r.client.block.toUInt16 = 0 ∨ Numbers r.blocks.length r.client.block.toUInt16
  again : Repeats r.client d → Numbers r.blocks.length d.block
  next : Stores r.client d → Follows coCrc32 flashSize r d

end Run

section Step

variable {coCrc32 : List UInt8 → UInt32 → UInt32} {flashSize : UInt32}

/-- `TftpBlock - 1`, as `store_block` gets it. -/
theorem blockArg_next (n : UInt16) : ((n.toUInt64 - 1).toUInt32 + 1).toUInt16 = n := by
  simp

theorem blockArg_eq_zero (n : UInt16) : (n.toUInt64 - 1).toUInt32 = 0 ↔ n = 1 := by
  have hn := n.toNat_lt
  rw [← UInt32.toNat_inj, ← UInt16.toNat_inj, UInt64.toNat_toUInt32, UInt64.toNat_sub,
    UInt16.toNat_toUInt64]
  simp only [UInt64.reduceToNat, UInt32.reduceToNat, UInt16.reduceToNat]
  omega

theorem number_eq_one {k : Nat} (hk : k < 65536) : UInt16.ofNat (k + 1) = 1 ↔ k = 0 := by
  rw [← UInt16.toNat_inj, UInt16.toNat_ofNat']
  simp only [UInt16.reduceToNat]
  omega

/-- What holds between the run and the client. -/
structure Tracked (coCrc32 : List UInt8 → UInt32 → UInt32) (flashSize : UInt32) (h : TftpHistory)
    (r : TftpRun) : Prop where
  law : ImageLaw coCrc32 flashSize h
  blocks : r.blocks = blocksOf h
  writes : (writesOf h).length = r.blocks.length
  next : ∀ v ∈ (writesOf h).getLast?, r.client.osDataAddr = v.address + v.count
  crc : r.blocks ≠ [] → (∀ src ∈ r.blocks, ¬ Last src) →
    r.client.tftpCrc = crcOver coCrc32 r.blocks

variable {h : TftpHistory} {r : TftpRun} {d : Datagram} {o : List TftpOut} {c' : TftpClient}

/-- A datagram that brings no block to the flash. -/
theorem Tracked.answers (hr : Tracked coCrc32 flashSize h r) (hsame : Same r.client c')
    (hstored : stored o = []) (hwrites : flashWrites o = []) (hheaders : headers o = [])
    (hacks : ∀ n ∈ acks o, (n = 0 ∧ d.proto = tftpOack) ∨ Numbers r.blocks.length n) :
    Tracked coCrc32 flashSize (h ++ [(d, o)])
      ⟨c', r.blocks ++ (stored o).map Prod.snd⟩ := by
  have hblocks : blocksOf (h ++ [(d, o)]) = blocksOf h := by
    simp [blocksOf, hstored]
  have hwritten : writesOf (h ++ [(d, o)]) = writesOf h := by
    simp [writesOf, hwrites]
  rw [hstored, List.map_nil, List.append_nil]
  refine ⟨.step hr.law ⟨.inl hstored, ?_, ?_, ?_, ?_⟩, ?_, ?_, ?_, ?_⟩
  · rw [hwrites, hstored]
    rfl
  · rw [hwrites]
    exact fun w hw => absurd hw List.not_mem_nil
  · rw [hstored, ← hr.blocks]
    exact hacks
  · rw [hheaders]
    exact fun img himg => absurd himg List.not_mem_nil
  · rw [hblocks]
    exact hr.blocks
  · rw [hwritten]
    exact hr.writes
  · rw [hwritten, hsame.osDataAddr]
    exact hr.next
  · rw [hsame.tftpCrc]
    exact hr.crc

/-- The client at the next block: `store_block` goes on from the block before, or starts. -/
theorem startBlock_of_follows {c₁ : TftpClient} (hf : Follows coCrc32 flashSize r d)
    (hsame : Same r.client c₁) :
    (startBlock c₁ (d.block.toUInt64 - 1).toUInt32 (sendPtkHd (d.buf.drop 4))).osDataAddr =
        r.target d ∧
      (startBlock c₁ (d.block.toUInt64 - 1).toUInt32 (sendPtkHd (d.buf.drop 4))).tftpCrc =
        r.crcSoFar := by
  have hwhole := hf.whole
  have hhead : sendPtkHd d.src = sendPtkHd (d.buf.drop 4) := sendPtkHd_take (by omega)
  have hzero : (d.block.toUInt64 - 1).toUInt32 = 0 ↔ r.blocks = [] := by
    rw [blockArg_eq_zero, hf.number, number_eq_one hf.noWrap, List.length_eq_zero_iff]
  rw [TftpRun.target, TftpRun.crcSoFar, startBlock, hhead]
  by_cases hempty : r.blocks = []
  · rw [if_neg (not_not_intro (hzero.mpr hempty)), if_pos hempty, if_pos hempty]
    exact ⟨rfl, rfl⟩
  · rw [if_pos fun h0 => hempty (hzero.mp h0), if_neg hempty, if_neg hempty]
    exact ⟨hsame.osDataAddr, hsame.tftpCrc⟩

/-- What `store_block` does with the block behind those stored. -/
theorem Follows.storeSpec {c₁ : TftpClient} (hf : Follows coCrc32 flashSize r d)
    (hsame : Same r.client c₁) {a : TftpClient × List TftpOut}
    (ha : a = storeBlock coCrc32 c₁ (d.block.toUInt64 - 1).toUInt32 (d.buf.drop 4) (d.len - 4)) :
    StoreSpec coCrc32 r.crcSoFar (r.target d) (d.block.toUInt64 - 1).toUInt32 d.src a.1 a.2 ∧
      UInt32.ofNat (d.src.length - 24) = d.len - 28 := by
  obtain ⟨haddr, hcrc⟩ := startBlock_of_follows hf hsame
  have hwhole := hf.whole
  have hlen : (d.len - 4).toNat = d.len.toNat - 4 :=
    UInt32.toNat_sub_of_le _ _ (Nat.le_trans (by decide : (4 : UInt32).toNat ≤ 28) hwhole)
  have hfits := d.fits
  have hspec := storeBlock_spec coCrc32 c₁ (d.block.toUInt64 - 1).toUInt32
    (show 24 ≤ (d.len - 4).toNat by omega)
    (show (d.len - 4).toNat ≤ (d.buf.drop 4).length by rw [List.length_drop]; omega)
    (by rw [haddr]; exact hf.lower) (by rw [haddr]; exact hf.upper)
  rw [haddr, hcrc, ← ha, hlen, ← Datagram.src] at hspec
  have hsrc : d.src.length = d.len.toNat - 4 := by
    rw [Datagram.src, List.length_take, List.length_drop]
    omega
  have h28 : (d.len - 28).toNat = d.len.toNat - 28 := UInt32.toNat_sub_of_le _ _ hwhole
  refine ⟨hspec, ?_⟩
  rw [hsrc, Nat.sub_sub, ← h28, UInt32.ofNat_toNat]

/-- Before the last block the client's CRC is the one over the blocks so far. -/
theorem Tracked.crcSoFar (hr : Tracked coCrc32 flashSize h r)
    (hopen : ∀ src ∈ r.blocks, ¬ Last src) : r.crcSoFar = crcOver coCrc32 r.blocks := by
  rw [TftpRun.crcSoFar]
  split
  next hempty => rw [hempty, crcOver, List.foldl_nil]
  next hsome => exact hr.crc hsome hopen

/-- Where a block goes that is not the first one. -/
theorem Tracked.target (hr : Tracked coCrc32 flashSize h r) (d : Datagram) {v : FlashWrite}
    (hv : v ∈ (writesOf h).getLast?) : r.target d = v.address + v.count := by
  have hsome : r.blocks ≠ [] := fun hempty => by
    have hlen0 := hr.writes
    rw [hempty, List.length_nil, List.length_eq_zero_iff] at hlen0
    rw [hlen0] at hv
    cases hv
  rw [TftpRun.target, if_neg hsome]
  exact hr.next v hv

/-- The block behind those stored. -/
theorem Tracked.stores {c₁ : TftpClient} (hr : Tracked coCrc32 flashSize h r)
    (hf : Follows coCrc32 flashSize r d) (hsame : Same r.client c₁)
    {a : TftpClient × List TftpOut}
    (ha : a = storeBlock coCrc32 c₁ (d.block.toUInt64 - 1).toUInt32 (d.buf.drop 4) (d.len - 4))
    (hc' : Same a.1 c') :
    Tracked coCrc32 flashSize (h ++ [(d, a.2 ++ [.ack d.block])])
      ⟨c', r.blocks ++ (stored (a.2 ++ [.ack d.block])).map Prod.snd⟩ := by
  obtain ⟨hspec, hcount⟩ := hf.storeSpec hsame ha
  have hstored : stored (a.2 ++ [.ack d.block]) = [((d.block.toUInt64 - 1).toUInt32, d.src)] := by
    rw [stored_append, hspec.stored_eq]
    rfl
  have hwrites : flashWrites (a.2 ++ [.ack d.block]) =
      [⟨d.src.drop 24, UInt32.ofNat (d.src.length - 24), r.target d⟩] := by
    rw [flashWrites_append, hspec.write_eq]
    rfl
  have hblocks : blocksOf (h ++ [(d, a.2 ++ [.ack d.block])]) = blocksOf h ++ [d.src] := by
    simp only [blocksOf, List.flatMap_append, List.flatMap_singleton, hstored, List.map_singleton]
  have hwritten : writesOf (h ++ [(d, a.2 ++ [.ack d.block])]) = writesOf h ++
      [⟨d.src.drop 24, UInt32.ofNat (d.src.length - 24), r.target d⟩] := by
    simp only [writesOf, List.flatMap_append, List.flatMap_singleton, hwrites]
  rw [hstored, List.map_singleton]
  refine ⟨.step hr.law ⟨?next, ?written, ?behind, ?acked, ?header⟩, ?all, ?writes, ?goOn, ?crc⟩
  case next =>
    refine .inr ⟨_, _, hstored, ?_, rfl⟩
    rw [blockArg_next, hf.number, hr.blocks]
  case written =>
    rw [hwrites, hstored]
    rfl
  case behind =>
    intro w hw
    rw [hwrites] at hw
    obtain rfl := List.mem_singleton.mp hw
    refine ⟨?_, by rw [hcount]; exact hf.onChip, fun v hv => hr.target d hv⟩
    have hlen := d.len.toNat_lt
    have hsrc : d.src.length ≤ d.len.toNat := by
      rw [Datagram.src, List.length_take]
      omega
    rw [List.length_drop, UInt32.toNat_ofNat_of_lt' (show _ < 2 ^ 32 by omega)]
  case acked =>
    intro n hn
    rw [acks_append, hspec.acks_eq] at hn
    obtain rfl := List.mem_singleton.mp hn
    refine .inr ⟨r.blocks.length + 1, Nat.succ_pos _, ?_, hf.number⟩
    rw [hstored, hr.blocks]
    exact Nat.le_refl _
  case header =>
    intro img himg
    have himg' : img ∈ headers a.2 := by
      rw [headers_append] at himg
      exact (List.mem_append.mp himg).resolve_right List.not_mem_nil
    obtain ⟨hstatus, hlast, hok⟩ := hspec.header img himg'
    obtain ⟨hseq, hopen⟩ := hf.last hlast hok
    refine ⟨hstatus, r.blocks, d.src, by rw [hstored, hr.blocks]; rfl, ?_, ?_⟩
    · rw [hseq, hstored, ← hr.blocks, List.length_append]
      rfl
    · rw [← hr.crcSoFar hopen, hok]
  case all => rw [hblocks, hr.blocks]
  case writes => rw [hwritten, List.length_append, List.length_append, hr.writes]; rfl
  case goOn =>
    intro v hv
    rw [hwritten, List.getLast?_concat] at hv
    obtain rfl := Option.some.inj hv
    exact hc'.osDataAddr.trans hspec.next
  case crc =>
    intro _ hopen
    have hopen' := List.forall_mem_append.mp hopen
    rw [crcOver, List.foldl_append, ← crcOver, ← hr.crcSoFar hopen'.1]
    exact hc'.tftpCrc.trans (hspec.carries (hopen'.2 _ (List.mem_singleton.mpr rfl)))

theorem Tracked.step (hr : Tracked coCrc32 flashSize h r) {c₀ : TftpClient} {r' : TftpRun}
    (hc : InOrder coCrc32 flashSize r d) (hstep : (tftp coCrc32 c₀).step r d = some (r', o)) :
    Tracked coCrc32 flashSize (h ++ [(d, o)]) r' := by
  have hhandled := tftpHandler_handled coCrc32 r.client d
  simp only [tftp] at hstep
  split at hstep
  next => cases hstep
  next =>
    obtain ⟨rfl, rfl⟩ := Prod.mk.inj (Option.some.inj hstep)
    generalize tftpHandler coCrc32 r.client d = a at hhandled
    obtain ⟨c', o⟩ := a
    cases hhandled with
    | nothing hsame =>
      exact hr.answers hsame rfl rfl rfl fun n hn => absurd hn List.not_mem_nil
    | oack hears hproto hsame =>
      refine hr.answers hsame rfl rfl rfl fun n hn => ?_
      obtain rfl := List.mem_singleton.mp hn
      exact (hc.oack hears hproto).imp_left fun h0 => ⟨h0, hproto⟩
    | again hrepeats hsame =>
      refine hr.answers hsame rfl rfl rfl fun n hn => ?_
      obtain rfl := List.mem_singleton.mp hn
      exact .inr (hc.again hrepeats)
    | block hstores hsame hc' => exact hr.stores (hc.next hstores) hsame rfl hc'

end Step

section Example

end Example

end BdkRtt.Ota
