import BdkRtt.Ota.HttpFlash
import BdkRtt.Flash.PartitionLaws
import BdkRtt.Lib.Blocks
import BdkRtt.Lib.Words

namespace BdkRtt.Ota

open Lib Flash

section Partition

def otaStart : Nat := otaPt.partitionStartAddr.toNat
def otaLength : Nat := otaPt.partitionLength.toNat

end Partition

section Ops

/-- The cells after a request, for one that lies on the chip. -/
def FlashOp.cells (m : Mem UInt8) : FlashOp → Mem UInt8
  | .erase param => fun k => if k / 4096 = param.toNat / 4096 then 0xff else m k
  | .write src addr => program m addr.toNat src

def opsCells (m : Mem UInt8) (ops : List FlashOp) : Mem UInt8 := ops.foldl FlashOp.cells m

@[simp] theorem opsCells_append (m : Mem UInt8) (ops ops' : List FlashOp) :
    opsCells m (ops ++ ops') = opsCells (opsCells m ops) ops' := List.foldl_append

/-- A block can be written behind `address`. -/
def Accepts (address : UInt32) (n : Nat) : Prop := address.toNat + n < otaStart + otaLength

instance (address : UInt32) (n : Nat) : Decidable (Accepts address n) :=
  inferInstanceAs (Decidable (_ < _))

/-- The requests that `http_flash_wr` makes for a block, and where it goes on. -/
def blockOps (address : UInt32) (block : List UInt8) : List FlashOp × UInt32 :=
  let erased := if address % 0x1000 = 0 then [.erase address] else []
  if Accepts address block.length then
    (erased ++ [.write block address], address + UInt32.ofNat block.length)
  else (erased, address)

/-- The same for one block after the other. -/
def blocksOps : UInt32 → List (List UInt8) → List FlashOp × UInt32
  | address, [] => ([], address)
  | address, block :: bs =>
    let r := blockOps address block
    let next := blocksOps r.2 bs
    (r.1 ++ next.1, next.2)

theorem blocksOps_append (address : UInt32) (bs bs' : List (List UInt8)) :
    blocksOps address (bs ++ bs') =
      ((blocksOps address bs).1 ++ (blocksOps (blocksOps address bs).2 bs').1,
        (blocksOps (blocksOps address bs).2 bs').2) := by
  induction bs generalizing address with
  | nil => rfl
  | cons b bs ih => simp only [List.cons_append, blocksOps, ih, List.append_assoc]

theorem blocksOps_concat (address : UInt32) (bs : List (List UInt8)) (b : List UInt8) :
    blocksOps address (bs ++ [b]) =
      ((blocksOps address bs).1 ++ (blockOps (blocksOps address bs).2 b).1,
        (blockOps (blocksOps address bs).2 b).2) := by
  rw [blocksOps_append]
  simp only [blocksOps, List.append_nil]

/-- The address stays in the partition. -/
structure InOta (address : UInt32) : Prop where
  lower : otaStart ≤ address.toNat
  upper : address.toNat < otaStart + otaLength

theorem InOta.blockOps {address : UInt32} (h : InOta address) (b : List UInt8) :
    InOta (blockOps address b).2 := by
  have hend : otaStart + otaLength = 0x1e0000 := rfl
  unfold Ota.blockOps
  dsimp only
  split
  next hfit =>
    have hfit' : address.toNat + b.length < otaStart + otaLength := hfit
    have hsum : (address + UInt32.ofNat b.length).toNat = address.toNat + b.length := by
      rw [UInt32.toNat_add, UInt32.toNat_ofNat_of_lt' (show _ < 2 ^ 32 by omega)]
      exact Nat.mod_eq_of_lt (by omega)
    exact ⟨by rw [hsum]; have := h.lower; omega, by rw [hsum]; exact hfit'⟩
  next => exact h

theorem InOta.blocksOps {address : UInt32} (h : InOta address) (bs : List (List UInt8)) :
    InOta (blocksOps address bs).2 := by
  induction bs generalizing address with
  | nil => exact h
  | cons b bs ih => exact ih (h.blockOps b)

end Ops

section Write

/-- The OTA partition is on the chip. -/
def OnChip (f : Chip) : Prop := otaStart + otaLength ≤ f.flashSize.toNat

instance (f : Chip) : Decidable (OnChip f) := inferInstanceAs (Decidable (_ ≤ _))

/-- The state is `d` but for the chip, which went through the requests, and the address. -/
structure Wrote (d d' : HttpData) (ops : List FlashOp) : Prop where
  cells : d'.chip.cells = opsCells d.chip.cells ops
  flashSize : d'.chip.flashSize = d.chip.flashSize
  wrBuf : d'.wrBuf = d.wrBuf
  wrLastLen : d'.wrLastLen = d.wrLastLen

theorem erases_cells {f : Chip} {address : UInt32} (hchip : OnChip f) (haddr : InOta address) :
    (flashEraseSector f address).cells = FlashOp.cells f.cells (.erase address) := by
  have hend : otaStart + otaLength = 0x1e0000 := rfl
  have hupper := haddr.upper
  have hchip' : otaStart + otaLength ≤ f.flashSize.toNat := hchip
  funext k
  rw [flashEraseSector_cells f (by omega)]
  exact if_congr (and_iff_right (by omega)) rfl rfl

theorem writes_cells {f : Chip} {address len : UInt32} {src : List UInt8} (hchip : OnChip f)
    (hsrc : src.length = len.toNat) (hfit : Accepts address src.length) :
    (flashWrite f src len address).cells = FlashOp.cells f.cells (.write src address) ∧
      (flashWrite f src len address).flashSize = f.flashSize := by
  have hend : otaStart + otaLength = 0x1e0000 := rfl
  have hfit' : address.toNat + src.length < otaStart + otaLength := hfit
  have hchip' : otaStart + otaLength ≤ f.flashSize.toNat := hchip
  have hprog : Programs f address.toNat src (flashWriteData f src address len) :=
    flashWriteData_accepted f hsrc (by omega) (by omega) (not_refused (by omega) (by omega))
  exact ⟨hprog.cells, hprog.flashSize⟩

/-- `http_flash_wr` makes the requests of the block, and the chip follows them. -/
theorem httpFlashWr_spec {d : HttpData} (hchip : OnChip d.chip) (haddr : InOta d.flashAddress)
    {src : List UInt8} {len : UInt32} (hsrc : src.length = len.toNat) (hlen : len.toNat ≤ 1024) :
    Wrote d (httpFlashWr d src len).1 (httpFlashWr d src len).2 ∧
      (httpFlashWr d src len).2 = (blockOps d.flashAddress src).1 ∧
      (httpFlashWr d src len).1.flashAddress = (blockOps d.flashAddress src).2 := by
  have hend : otaStart + otaLength = 0x1e0000 := rfl
  have hlower := haddr.lower
  have hupper := haddr.upper
  have hword : UInt32.ofNat src.length = len := by rw [hsrc, UInt32.ofNat_toNat]
  have herase : (if d.flashAddress % 0x1000 = 0 then flashEraseSector d.chip d.flashAddress
        else d.chip).cells = opsCells d.chip.cells
          (if d.flashAddress % 0x1000 = 0 then [.erase d.flashAddress] else []) ∧
      (if d.flashAddress % 0x1000 = 0 then flashEraseSector d.chip d.flashAddress
        else d.chip).flashSize = d.chip.flashSize := by
    split
    next => exact ⟨erases_cells hchip haddr, flashEraseSector_flashSize _⟩
    next => exact ⟨rfl, rfl⟩
  have haccepts : (d.flashAddress ≥ otaPt.partitionStartAddr ∧
      d.flashAddress + len < otaPt.partitionStartAddr + otaPt.partitionLength) ↔
        Accepts d.flashAddress src.length := by
    have hsum : (d.flashAddress + len).toNat = d.flashAddress.toNat + len.toNat :=
      toNat_add_of_lt (by omega)
    rw [ge_iff_le, UInt32.le_iff_toNat_le, UInt32.lt_iff_toNat_lt, hsum, hsrc]
    exact ⟨fun h => h.2, fun h => ⟨hlower, h⟩⟩
  rw [httpFlashWr, blockOps]
  simp only [haccepts, hword]
  generalize (if d.flashAddress % 0x1000 = 0 then flashEraseSector d.chip d.flashAddress
    else d.chip) = f at herase ⊢
  generalize (if d.flashAddress % 0x1000 = 0 then [FlashOp.erase d.flashAddress] else []) = erased
    at herase ⊢
  split
  next hfit =>
    obtain ⟨hcells, hsize⟩ :=
      writes_cells (f := f) (by rw [OnChip, herase.2]; exact hchip) hsrc hfit
    have hread : (flashWrite f src len d.flashAddress).Same
        (if d.wrTmpBuf then (flashRead (flashWrite f src len d.flashAddress) len d.flashAddress).1
          else flashWrite f src len d.flashAddress) := by
      split
      next => exact (flashReadData_spec _ _ _ (by omega)).1
      next => exact ⟨rfl, rfl⟩
    refine ⟨⟨?_, hread.flashSize.trans (hsize.trans herase.2), rfl, rfl⟩, rfl, rfl⟩
    rw [opsCells_append, ← herase.1]
    exact hread.cells.trans hcells
  next => exact ⟨⟨herase.1, herase.2, rfl, rfl⟩, rfl, rfl⟩

end Write

section Stream

/-- The requests for the whole blocks of a stream. -/
def streamOps (x : List UInt8) : List FlashOp × UInt32 :=
  blocksOps otaPt.partitionStartAddr (blocks 1024 x)

/-- The writer after the stream `x`: its whole blocks are with the flash, the rest is in the
buffer. -/
structure Tracks (f₀ : Chip) (x : List UInt8) (d : HttpData) (ops : List FlashOp) : Prop where
  ops_eq : ops = (streamOps x).1
  address : d.flashAddress = (streamOps x).2
  cells : d.chip.cells = opsCells f₀.cells ops
  flashSize : d.chip.flashSize = f₀.flashSize
  pending : d.wrBuf.read 0 d.wrLastLen.toNat = rest 1024 x

variable {f₀ : Chip} {x : List UInt8} {d : HttpData} {ops : List FlashOp}

theorem streamOps_inOta (x : List UInt8) : InOta (streamOps x).2 :=
  InOta.blocksOps ⟨Nat.le_refl _, by decide⟩ _

theorem Tracks.inOta (h : Tracks f₀ x d ops) : InOta d.flashAddress := by
  rw [h.address]
  exact streamOps_inOta x

theorem Tracks.last (h : Tracks f₀ x d ops) : d.wrLastLen.toNat = x.length % 1024 := by
  rw [← length_rest, ← h.pending, Mem.length_read]

theorem Tracks.last_lt (h : Tracks f₀ x d ops) : d.wrLastLen.toNat < 1024 := by
  rw [h.last]
  exact Nat.mod_lt _ (by decide)

/-- A copy behind what is pending. -/
theorem read_piece {m : Mem UInt8} {n : Nat} (y : List UInt8) :
    (m.write n y).read 0 (n + y.length) = m.read 0 n ++ y := by
  rw [Mem.read_add, Nat.zero_add, Mem.read_write_of_le m y (by omega), Mem.read_write_self]

variable {y : List UInt8} {n : UInt16}

/-- A piece that leaves room in the buffer. -/
theorem Tracks.short (h : Tracks f₀ x d ops) (hn : n.toNat = d.wrLastLen.toNat + y.length)
    (hlt : n.toNat < 1024) :
    Tracks f₀ (x ++ y) { d with wrBuf := d.wrBuf.write d.wrLastLen.toNat y, wrLastLen := n }
      ops := by
  obtain ⟨hblocks, hrest⟩ : blocks 1024 (x ++ y) = blocks 1024 x ∧
      rest 1024 (x ++ y) = rest 1024 x ++ y :=
    append_short (by decide) (by rw [length_rest, ← h.last]; omega)
  refine ⟨?_, ?_, h.cells, h.flashSize, ?_⟩
  · rw [streamOps, hblocks]
    exact h.ops_eq
  · rw [streamOps, hblocks]
    exact h.address
  · rw [hrest, ← h.pending, hn]
    exact read_piece y

/-- A piece that fills the buffer. -/
theorem Tracks.full (hchip : OnChip f₀) (h : Tracks f₀ x d ops)
    (hn : n.toNat = d.wrLastLen.toNat + y.length) (hfull : n.toNat = 1024) :
    let d' := { d with wrBuf := d.wrBuf.write d.wrLastLen.toNat y, wrLastLen := n }
    let w := httpFlashWr d' (d'.wrBuf.read 0 httpFlashWrBufMax.toNat) httpFlashWrBufMax
    Tracks f₀ (x ++ y) { w.1 with wrLastLen := 0 } (ops ++ w.2) := by
  intro d' w
  obtain ⟨hblocks, hrest⟩ : blocks 1024 (x ++ y) = blocks 1024 x ++ [rest 1024 x ++ y] ∧
      rest 1024 (x ++ y) = [] :=
    append_full (by decide) (by rw [length_rest, ← h.last]; omega)
  have hblock : d'.wrBuf.read 0 httpFlashWrBufMax.toNat = rest 1024 x ++ y := by
    rw [← h.pending, ← read_piece, ← hn, hfull]
    rfl
  obtain ⟨hwrote, hops, haddr⟩ := httpFlashWr_spec (d := d')
    (show OnChip d.chip by rw [OnChip, h.flashSize]; exact hchip) h.inOta
    (Mem.length_read ..) (by decide : httpFlashWrBufMax.toNat ≤ 1024)
  have hops' : w.2 = (blockOps (streamOps x).2 (rest 1024 x ++ y)).1 := by
    rw [← hblock, ← h.address]
    exact hops
  have haddr' : w.1.flashAddress = (blockOps (streamOps x).2 (rest 1024 x ++ y)).2 := by
    rw [← hblock, ← h.address]
    exact haddr
  have hstream : streamOps (x ++ y) = (ops ++ w.2, w.1.flashAddress) := by
    rw [streamOps, hblocks, blocksOps_concat, hops', haddr', h.ops_eq, streamOps]
  refine ⟨by rw [hstream], by rw [hstream], ?_, hwrote.flashSize.trans h.flashSize, ?_⟩
  · rw [opsCells_append, ← h.cells]
    exact hwrote.cells
  · rw [hrest]
    rfl

/-- The loop carries the stream on by the rest of the page. -/
theorem Tracks.wrToFlash (hchip : OnChip f₀) {page : List UInt8} {len i : UInt32} {fuel : Nat}
    (h : Tracks f₀ x d ops) (hlen : len.toNat = page.length) (hi : i.toNat ≤ page.length)
    (hfuel : page.length - i.toNat ≤ fuel) :
    Tracks f₀ (x ++ page.drop i.toNat) (wrToFlash page len fuel d i).1
      (ops ++ (wrToFlash page len fuel d i).2) := by
  induction fuel generalizing x d ops i with
  | zero =>
    rw [List.drop_eq_nil_of_le (by omega), List.append_nil]
    simp only [Ota.wrToFlash, List.append_nil]
    exact h
  | succ fuel ih =>
    unfold Ota.wrToFlash
    split
    next hlt =>
      have hlt' : i.toNat < len.toNat := hlt
      have hlast := h.last_lt
      have hleft : (len - i).toNat = len.toNat - i.toNat :=
        UInt32.toNat_sub_of_le _ _ (Nat.le_of_lt hlt')
      have hroom : (httpFlashWrBufMax - d.wrLastLen.toUInt32).toNat =
          1024 - d.wrLastLen.toNat := by
        rw [UInt32.toNat_sub_of_le, UInt16.toNat_toUInt32]
        · rfl
        · rw [UInt32.le_iff_toNat_le, UInt16.toNat_toUInt32]
          exact Nat.le_of_lt hlast
      generalize hw : min (len - i) (httpFlashWrBufMax - d.wrLastLen.toUInt32) = wL
      have hwL : wL.toNat = min (len.toNat - i.toNat) (1024 - d.wrLastLen.toNat) := by
        rw [← hw, toNat_min, hleft, hroom]
      have hpiece : ((page.drop i.toNat).take wL.toNat).length = wL.toNat := by
        rw [List.length_take, List.length_drop]
        omega
      have hn : (d.wrLastLen + wL.toUInt16).toNat = d.wrLastLen.toNat +
          ((page.drop i.toNat).take wL.toNat).length := by
        rw [hpiece, UInt16.toNat_add, UInt32.toNat_toUInt16]
        omega
      have hnext : (i + wL).toNat = i.toNat + wL.toNat := by
        have := len.toNat_lt
        exact toNat_add_of_lt (by omega)
      have hstream : x ++ (page.drop i.toNat).take wL.toNat ++ page.drop (i + wL).toNat =
          x ++ page.drop i.toNat := by
        rw [List.append_assoc, hnext, ← List.drop_drop, List.take_append_drop]
      dsimp only
      rw [← hstream, ← List.append_assoc]
      refine ih ?_ (by omega) (by omega)
      split
      next hfull =>
        have hfull' : 1024 ≤ (d.wrLastLen + wL.toUInt16).toNat := by
          rw [ge_iff_le, UInt32.le_iff_toNat_le, UInt16.toNat_toUInt32] at hfull
          exact hfull
        exact h.full hchip hn (by omega)
      next hshort =>
        have hshort' : (d.wrLastLen + wL.toUInt16).toNat < 1024 := by
          rw [ge_iff_le, UInt32.le_iff_toNat_le, UInt16.toNat_toUInt32] at hshort
          exact Nat.lt_of_not_le hshort
        rw [List.append_nil]
        exact h.short hn hshort'
    next hge =>
      have hge' : ¬ i.toNat < len.toNat := hge
      rw [List.drop_eq_nil_of_le (by omega), List.append_nil, List.append_nil]
      exact h

theorem tracks_init (f₀ : Chip) (wrBuf : Mem UInt8) (wrTmpBuf : Bool) :
    Tracks f₀ [] (httpFlashInit f₀ wrBuf wrTmpBuf) [] :=
  ⟨rfl, rfl, rfl, rfl, rfl⟩

/-- The bytes that the calls of a run got, and the requests they made. -/
def received (h : Machine.History Page (List FlashOp)) : List UInt8 := h.flatMap fun r => r.1.1
def requests (h : Machine.History Page (List FlashOp)) : List FlashOp := h.flatMap fun r => r.2

theorem tracks {wrBuf : Mem UInt8} {wrTmpBuf : Bool} (hchip : OnChip f₀)
    {h : Machine.History Page (List FlashOp)}
    (hr : (httpWriter f₀ wrBuf wrTmpBuf).Reaches h d) :
    Tracks f₀ (received h) d (requests h) := by
  have hinit : Tracks f₀ (received []) (httpWriter f₀ wrBuf wrTmpBuf).init (requests []) :=
    tracks_init f₀ wrBuf wrTmpBuf
  refine hr.invariant (fun h d => Tracks f₀ (received h) d (requests h)) hinit ?_
  intro h s page t o hs _ hstep
  obtain ⟨rfl, rfl⟩ := Prod.mk.inj (Option.some.inj hstep)
  have hpage := page.2
  rw [received, requests, List.flatMap_append, List.flatMap_append, List.flatMap_singleton,
    List.flatMap_singleton]
  exact hs.wrToFlash hchip (UInt32.toNat_ofNat_of_lt' hpage)
    (show (0 : UInt32).toNat ≤ _ from Nat.zero_le _) (Nat.sub_le _ _)

end Stream

end BdkRtt.Ota
