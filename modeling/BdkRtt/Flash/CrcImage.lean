import BdkRtt.Flash.CrcPortLaws
import BdkRtt.Lib.Words

namespace BdkRtt.Flash

open Lib

structure WriteCall where
  offset : Nat
  buf : List UInt8

def runWrites (f : Chip) : List WriteCall → Option Chip
  | [] => some f
  | w :: ws => (write f w.offset w.buf).bind fun r => runWrites r.1 ws

/-- The logical bytes given, and with them the rest of the last block. -/
def WriteCall.Rounded (w : WriteCall) (l : Nat) : Prop :=
  w.offset ≤ l ∧ l < w.offset + 32 * blocks w.buf.length

/-- Where a block and a logical byte are in the flash. -/
def blockAddr (b : Nat) : Nat := bekenOnchipFlashCrcAddr.toNat + 34 * b

def physAddr (l : Nat) : Nat := blockAddr (l / 32) + l % 32

def WriteCall.Fits (w : WriteCall) (f : Chip) : Prop :=
  blockAddr (w.offset / 32 + blocks w.buf.length) ≤ f.flashSize.toNat

/-- The cells a write touches. -/
def WriteCall.Touches (w : WriteCall) (k : Nat) : Prop :=
  blockAddr (w.offset / 32) ≤ k ∧ k < blockAddr (w.offset / 32 + blocks w.buf.length)

def Erased (f : Chip) : Prop := ∀ k < f.flashSize.toNat, f.cells k = 0xff

section Writing

variable {f f' : Chip} {w : WriteCall}

theorem Programs.outside {i k : Nat} {xs : List UInt8} (h : Programs f i xs f')
    (hk : ¬ (i ≤ k ∧ k < i + xs.length)) : f'.cells k = f.cells k := by
  rw [h.cells]
  by_cases hlt : k < i
  · exact program_apply_of_lt _ _ _ hlt
  · exact program_apply_of_ge _ _ (by omega)

theorem Programs.inside {i k : Nat} {xs : List UInt8} (h : Programs f i xs f') (hk : i ≤ k) :
    f'.cells k = f.cells k &&& xs.getD (k - i) 0xff := by
  obtain ⟨d, rfl⟩ := Nat.exists_eq_add_of_le hk
  rw [h.cells, program_apply_add, Nat.add_sub_cancel_left]

theorem blockAddr_toNat {b : Nat} (h : blockAddr b ≤ 2 ^ 24) :
    (bekenOnchipFlashCrcAddr + UInt32.ofNat (b * 34)).toNat = blockAddr b := by
  unfold blockAddr at h ⊢
  have hnat : (UInt32.ofNat (b * 34)).toNat = b * 34 :=
    UInt32.toNat_ofNat_of_lt' (show b * 34 < UInt32.size by rw [UInt32.size]; omega)
  rw [UInt32.toNat_add, hnat, Nat.mul_comm b]
  exact Nat.mod_eq_of_lt (by omega)

theorem write_programs (hal : 32 ∣ w.offset) (hsize : f.flashSize.toNat ≤ 2 ^ 24)
    (hfit : w.Fits f) :
    ∃ f', write f w.offset w.buf = some (f', w.buf.length) ∧
      Programs f (blockAddr (w.offset / 32)) (encode w.buf) f' := by
  have hfit' : blockAddr (w.offset / 32) + 34 * blocks w.buf.length ≤ f.flashSize.toNat := by
    have : blockAddr (w.offset / 32 + blocks w.buf.length) ≤ f.flashSize.toNat := hfit
    unfold blockAddr at this ⊢
    omega
  have haddr : (bekenOnchipFlashCrcAddr + UInt32.ofNat (w.offset / 32 * 34)).toNat =
      blockAddr (w.offset / 32) := blockAddr_toNat (by omega)
  refine ⟨_, by rw [write, if_pos (Nat.mod_eq_zero_of_dvd hal)], ?_⟩
  have hp : Programs f ((bekenOnchipFlashCrcAddr + UInt32.ofNat (w.offset / 32 * 34)).toNat +
      (0 : UInt32).toNat) (encode w.buf) _ :=
    writeBlocks_programs (Nat.le_refl _) hsize (by rw [haddr, length_encode]; exact hfit')
  rw [haddr] at hp
  exact hp

/-- The flash after a list of writes none of which touches a cell of another. -/
structure Image (f₀ : Chip) (ws : List WriteCall) (f : Chip) : Prop where
  flashSize : f.flashSize = f₀.flashSize
  outside : ∀ k, (∀ w ∈ ws, ¬ w.Touches k) → f.cells k = f₀.cells k
  inside : ∀ w ∈ ws, ∀ k, w.Touches k →
    f.cells k = f₀.cells k &&& (encode w.buf).getD (k - blockAddr (w.offset / 32)) 0xff

theorem touches_iff {k : Nat} : w.Touches k ↔ blockAddr (w.offset / 32) ≤ k ∧
    k < blockAddr (w.offset / 32) + (encode w.buf).length := by
  rw [length_encode]
  unfold WriteCall.Touches blockAddr
  omega

theorem runWrites_image {ws : List WriteCall} {f₀ : Chip} (hsize : f₀.flashSize.toNat ≤ 2 ^ 24)
    (hal : ∀ w ∈ ws, 32 ∣ w.offset) (hfit : ∀ w ∈ ws, w.Fits f₀)
    (hdis : ws.Pairwise fun w w' => ∀ k, ¬ (w.Touches k ∧ w'.Touches k)) :
    ∃ f, runWrites f₀ ws = some f ∧ Image f₀ ws f := by
  induction ws generalizing f₀ with
  | nil => exact ⟨f₀, rfl, rfl, fun _ _ => rfl, nofun⟩
  | cons w ws ih =>
    simp only [List.forall_mem_cons] at hal hfit
    obtain ⟨hwdis, hdis⟩ := List.pairwise_cons.mp hdis
    obtain ⟨f₁, hw, hp⟩ := write_programs hal.1 hsize hfit.1
    have hfit₁ : ∀ w' ∈ ws, w'.Fits f₁ := by
      intro w' hw'
      rw [WriteCall.Fits, hp.flashSize]
      exact hfit.2 w' hw'
    obtain ⟨f, hrun, him⟩ := ih (by rw [hp.flashSize]; exact hsize) hal.2 hfit₁ hdis
    refine ⟨f, by rw [runWrites, hw]; exact hrun, him.flashSize.trans hp.flashSize, ?_, ?_⟩
    · intro k hk
      simp only [List.forall_mem_cons] at hk
      rw [him.outside k hk.2, hp.outside fun h => hk.1 (touches_iff.mpr h)]
    · intro w' hw' k hk
      rcases List.mem_cons.mp hw' with rfl | hw'
      · rw [him.outside k fun w'' hw'' ht => hwdis w'' hw'' k ⟨hk, ht⟩, hp.inside hk.1]
      · rw [him.inside w' hw' k hk,
          hp.outside fun h => hwdis w' hw' k ⟨touches_iff.mpr h, hk⟩]

end Writing

section Reading

variable {f : Chip}

theorem readBlocks_spec {fuel n : Nat} {off : UInt32} (hfuel : n ≤ fuel)
    (hfit : n ≠ 0 → off.toNat + (n - 1) / 32 * 34 + (n - 1) % 32 < 2 ^ 24) :
    (readBlocks fuel f off n).2 =
      (List.range n).map fun i => f.cells (off.toNat + i / 32 * 34 + i % 32) := by
  induction fuel generalizing f off n with
  | zero =>
    rw [Nat.le_zero.mp hfuel]
    rfl
  | succ fuel ih =>
    unfold readBlocks
    split
    next h0 =>
      rw [h0]
      rfl
    next h0 =>
      have hfit' := hfit h0
      simp only
      generalize hlen : (if n > 32 then 32 else n) = len
      have hle : len ≤ n ∧ len ≤ 32 ∧ (n > 32 → len = 32) ∧ (n ≤ 32 → len = n) := by
        split at hlen <;> omega
      have hnat : (UInt32.ofNat len).toNat = len :=
        UInt32.toNat_ofNat_of_lt' (show len < UInt32.size by rw [UInt32.size]; omega)
      obtain ⟨hsame, hread⟩ := flashReadData_spec f off (UInt32.ofNat len)
        (by rw [hnat]; omega)
      have hrest : (readBlocks fuel (flashRead f (UInt32.ofNat len) off).1 (off + 34)
          (n - len)).2 =
          (List.range (n - len)).map fun i => f.cells (off.toNat + 34 + i / 32 * 34 + i % 32) := by
        by_cases hn : n > 32
        · have hoff : (off + 34).toNat = off.toNat + 34 :=
            toNat_add_of_lt (by simp only [UInt32.reduceToNat]; omega)
          rw [ih (by omega) (by rw [hoff]; omega), hoff, flashRead, hsame.cells]
        · rw [show n - len = 0 by omega]
          unfold readBlocks
          split <;> rfl
      rw [hrest, flashRead, hread, hnat]
      conv_rhs => rw [show n = len + (n - len) by omega, List.range_add, List.map_append,
        List.map_map]
      congr 1
      · apply List.map_congr_left
        intro i hi
        have := List.mem_range.mp hi
        apply congrArg
        omega
      · apply List.map_congr_left
        intro i hi
        have := List.mem_range.mp hi
        apply congrArg
        simp only
        omega

/-- An aligned read gives the logical bytes. -/
theorem read_aligned {o n : Nat} (ho : 32 ∣ o) (hfit : ∀ i < n, physAddr (o + i) < 2 ^ 24) :
    (read f o n).2 = (List.range n).map fun i => f.cells (physAddr (o + i)) := by
  have hmod : o % 32 = 0 := Nat.mod_eq_zero_of_dvd ho
  unfold read
  simp only [hmod, gt_iff_lt, Nat.lt_irrefl, if_false]
  by_cases hn : n = 0
  · subst hn
    rfl
  · have hlast := hfit (n - 1) (by omega)
    have haddr : (bekenOnchipFlashCrcAddr + UInt32.ofNat (o / 32 * 34)).toNat =
        blockAddr (o / 32) := by
      apply blockAddr_toNat
      unfold physAddr blockAddr at hlast
      unfold blockAddr
      omega
    unfold physAddr blockAddr at hlast
    rw [readBlocks_spec (Nat.le_refl n) (by intro _; rw [haddr]; unfold blockAddr; omega), haddr]
    apply List.map_congr_left
    intro i hi
    apply congrArg
    unfold physAddr blockAddr
    omega

end Reading

section Splitting

theorem writeBlocks_fuel {n m : Nat} {f : Chip} {buf : List UInt8} {addr off : UInt32}
    (hn : buf.length ≤ n) (hm : buf.length ≤ m) :
    writeBlocks n f buf addr off = writeBlocks m f buf addr off := by
  induction n generalizing m f buf off with
  | zero =>
    cases m with
    | zero => rfl
    | succ m => rw [writeBlocks_succ, if_pos (Nat.le_zero.mp hn)]; rfl
  | succ n ih =>
    cases m with
    | zero => rw [writeBlocks_succ, if_pos (Nat.le_zero.mp hm)]; rfl
    | succ m =>
      rw [writeBlocks_succ, writeBlocks_succ]
      split
      next => rfl
      next => exact ih (by rw [List.length_drop]; omega) (by rw [List.length_drop]; omega)

/-- Only the sum of `addr` and `crc_offset` counts. -/
theorem writeBlocks_sum {n : Nat} {f : Chip} {buf : List UInt8} {addr off addr' off' : UInt32}
    (h : addr + off = addr' + off') :
    writeBlocks n f buf addr off = writeBlocks n f buf addr' off' := by
  induction n generalizing f buf off off' with
  | zero => rfl
  | succ n ih =>
    rw [writeBlocks_succ, writeBlocks_succ, h,
      ih (show addr + (off + 34) = addr' + (off' + 34) by grind)]

theorem writeBlocks_append {j : Nat} {f : Chip} {a b : List UInt8} {addr off : UInt32}
    (ha : a.length = 32 * j) :
    writeBlocks (a ++ b).length f (a ++ b) addr off =
      writeBlocks b.length (writeBlocks a.length f a addr off) b addr
        (off + UInt32.ofNat (34 * j)) := by
  induction j generalizing f a off with
  | zero =>
    rw [List.length_eq_zero_iff.mp ha]
    exact congrArg _ (UInt32.add_zero off).symm
  | succ j ih =>
    have hdrop : (a.drop 32).length = 32 * j := by
      rw [List.length_drop]
      omega
    have hne : (a ++ b).length ≠ 0 := by
      rw [List.length_append]
      omega
    obtain ⟨n, hn⟩ := Nat.exists_eq_succ_of_ne_zero hne
    obtain ⟨m, hm⟩ := Nat.exists_eq_succ_of_ne_zero (show a.length ≠ 0 by omega)
    rw [hn, hm, writeBlocks_succ, writeBlocks_succ, if_neg hne, if_neg (by omega),
      List.take_append_of_le_length (by omega), List.drop_append_of_le_length (by omega),
      writeBlocks_fuel (show _ ≤ n by rw [List.length_append] at hn ⊢; omega) (Nat.le_refl _),
      ih hdrop, writeBlocks_fuel (show _ ≤ m by omega) (Nat.le_refl (a.drop 32).length)]
    apply congrArg
    rw [UInt32.add_assoc, Nat.mul_succ, Nat.add_comm (34 * j), UInt32.ofNat_add]
    rfl

theorem write_append {f : Chip} {offset : Nat} {a b : List UInt8} (ho : 32 ∣ offset)
    (ha : 32 ∣ a.length) :
    (write f offset (a ++ b)).map Prod.fst =
      (write f offset a).bind fun r => (write r.1 (offset + a.length) b).map Prod.fst := by
  obtain ⟨j, hj⟩ := ha
  have hmod : offset % 32 = 0 := Nat.mod_eq_zero_of_dvd ho
  have hmod' : (offset + a.length) % 32 = 0 := by omega
  have haddr : (offset + a.length) / 32 * 34 = offset / 32 * 34 + 34 * j := by omega
  simp only [write, hmod, hmod', if_true, Option.map_some, Option.bind_some]
  rw [writeBlocks_append hj, haddr, UInt32.ofNat_add]
  apply congrArg some
  apply writeBlocks_sum
  grind

/-- The writes of the pieces of a buffer, one behind the other. -/
def splitCalls : Nat → List (List UInt8) → List WriteCall
  | _, [] => []
  | offset, p :: ps => ⟨offset, p⟩ :: splitCalls (offset + p.length) ps

theorem runWrites_split {f : Chip} {offset : Nat} {ps : List (List UInt8)} (ho : 32 ∣ offset)
    (hp : ∀ p ∈ ps.dropLast, 32 ∣ p.length) :
    runWrites f (splitCalls offset ps) = (write f offset ps.flatten).map Prod.fst := by
  induction ps generalizing f offset with
  | nil =>
    rw [List.flatten_nil, write, if_pos (Nat.mod_eq_zero_of_dvd ho)]
    rfl
  | cons p ps ih =>
    cases ps with
    | nil =>
      rw [List.flatten_cons, List.flatten_nil, List.append_nil]
      exact Option.map_eq_bind.symm
    | cons q qs =>
      simp only [List.dropLast_cons_cons, List.forall_mem_cons] at hp
      rw [List.flatten_cons, write_append ho hp.1]
      simp only [splitCalls, runWrites]
      apply congrArg
      funext r
      exact ih (Nat.dvd_add ho hp.1) hp.2

end Splitting

section Contents

theorem length_padded {data : List UInt8} (h : data.length ≤ 32) :
    (data ++ List.replicate (32 - data.length) (0xff : UInt8)).length = 32 := by
  rw [List.length_append, List.length_replicate]
  omega

theorem getD_padded (data : List UInt8) (n r : Nat) :
    (data ++ List.replicate n (0xff : UInt8)).getD r 0xff = data.getD r 0xff := by
  by_cases hr : r < data.length
  · exact List.getD_append _ _ _ _ hr
  · rw [List.getD_append_right _ _ _ _ (Nat.le_of_not_lt hr),
      List.getD_eq_default data _ (Nat.le_of_not_lt hr)]
    by_cases hn : r - data.length < n
    · rw [List.getD_eq_getElem _ _ (by simpa using hn), List.getElem_replicate]
    · exact List.getD_eq_default _ _ (by simpa using hn)

theorem getD_crc16Buf {data : List UInt8} {r : Nat} (h : data.length ≤ 32) (hr : r < 32) :
    (crc16Buf data).getD r 0xff = data.getD r 0xff := by
  unfold crc16Buf
  rw [List.getD_append _ _ _ _ (by rw [length_padded h]; exact hr), getD_padded]

theorem getD_encode {buf : List UInt8} {j r : Nat} (hj : j < blocks buf.length) (hr : r < 34) :
    (encode buf).getD (34 * j + r) 0xff =
      (crc16Buf ((buf.drop (32 * j)).take 32)).getD r 0xff := by
  rw [← block_encode hj, List.getD_eq_getElem?_getD, List.getD_eq_getElem?_getD,
    List.getElem?_take_of_lt hr, List.getElem?_drop]

variable {f₀ f : Chip} {ws : List WriteCall} {w : WriteCall}

/-- Each cell of a written block holds what was written there. -/
theorem Image.block (him : Image f₀ ws f) (he : Erased f₀) (hw : w ∈ ws) (hfit : w.Fits f₀)
    {j r : Nat} (hj : j < blocks w.buf.length) (hr : r < 34) :
    f.cells (blockAddr (w.offset / 32 + j) + r) =
      (crc16Buf ((w.buf.drop (32 * j)).take 32)).getD r 0xff := by
  have hk : w.Touches (blockAddr (w.offset / 32 + j) + r) := by
    unfold WriteCall.Touches blockAddr
    omega
  have hin : blockAddr (w.offset / 32 + j) + r < f₀.flashSize.toNat :=
    Nat.lt_of_lt_of_le hk.2 hfit
  have hidx : blockAddr (w.offset / 32 + j) + r - blockAddr (w.offset / 32) = 34 * j + r := by
    unfold blockAddr
    omega
  rw [him.inside w hw _ hk, he _ hin, hidx, getD_encode hj hr, UInt8.and_comm]
  exact and_ones _

theorem Image.logical (him : Image f₀ ws f) (he : Erased f₀) (hw : w ∈ ws) (hfit : w.Fits f₀)
    (hal : 32 ∣ w.offset) {l : Nat} (hl : w.Rounded l) :
    f.cells (physAddr l) = w.buf.getD (l - w.offset) 0xff := by
  obtain ⟨q, hq⟩ := hal
  obtain ⟨hle, hlt⟩ := hl
  have hr : l % 32 < 32 := Nat.mod_lt _ (by decide)
  have hj : l / 32 - w.offset / 32 < blocks w.buf.length := by omega
  have hb : l / 32 = w.offset / 32 + (l / 32 - w.offset / 32) := by omega
  rw [physAddr, hb, him.block he hw hfit hj (by omega),
    getD_crc16Buf (List.length_take_le _ _) hr, List.getD_eq_getElem?_getD,
    List.getElem?_take_of_lt hr, List.getElem?_drop, ← List.getD_eq_getElem?_getD]
  apply congrArg (w.buf.getD · 0xff)
  omega

/-- A block and the two bytes behind it that check it. -/
def HoldsCrc (f : Chip) (b : Nat) : Prop :=
  ∃ crc : UInt16, f.cells (blockAddr b + 32) = (crc >>> 8).toUInt8 ∧
    f.cells (blockAddr b + 33) = crc.toUInt8 ∧
    Crc.IsCrc 0x8005#16 0xffff#16 ((f.cells.read (blockAddr b) 32).map UInt8.toBitVec) crc.toBitVec

theorem Image.holdsCrc (him : Image f₀ ws f) (he : Erased f₀) (hw : w ∈ ws) (hfit : w.Fits f₀)
    {j : Nat} (hj : j < blocks w.buf.length) : HoldsCrc f (w.offset / 32 + j) := by
  have hblock {r : Nat} (hr : r < 34) := him.block he hw hfit hj hr
  generalize hdata : (w.buf.drop (32 * j)).take 32 = data at hblock
  have hlen : data.length ≤ 32 := hdata ▸ List.length_take_le _ _
  have hpad := length_padded hlen
  have hread : f.cells.read (blockAddr (w.offset / 32 + j)) 32 =
      data ++ List.replicate (32 - data.length) 0xff := by
    apply List.ext_getElem (by rw [hpad, Mem.length_read])
    intro r hr hr'
    rw [Mem.length_read] at hr
    have := hblock (show r < 34 by omega)
    rw [getD_crc16Buf hlen hr, ← getD_padded data (32 - data.length),
      List.getD_eq_getElem _ _ hr'] at this
    simpa [Mem.read] using this
  refine ⟨crc16CcittFalse (data ++ List.replicate (32 - data.length) 0xff), ?_, ?_, ?_⟩
  · rw [hblock (by decide), crc16Buf, List.getD_append_right _ _ _ _ (by rw [hpad]), hpad]
    rfl
  · rw [hblock (by decide), crc16Buf, List.getD_append_right _ _ _ _ (by rw [hpad]; decide), hpad]
    rfl
  · rw [hread, crc16CcittFalse_toBitVec]
    exact Crc.isCrc_checksum (by decide) _ _ _

/-- The block a touched cell belongs to is one of the rounded range. -/
theorem rounded_of_touches (hal : 32 ∣ w.offset) {k : Nat} (hk : w.Touches k) :
    w.Rounded (32 * ((k - bekenOnchipFlashCrcAddr.toNat) / 34)) := by
  obtain ⟨q, hq⟩ := hal
  unfold WriteCall.Touches blockAddr at hk
  unfold WriteCall.Rounded
  omega

theorem touches_of_rounded {l : Nat} (hal : 32 ∣ w.offset) (hl : w.Rounded l) :
    w.Touches (physAddr l) := by
  obtain ⟨q, hq⟩ := hal
  unfold WriteCall.Rounded at hl
  unfold WriteCall.Touches physAddr blockAddr
  omega

theorem rounded_of_touches_physAddr {l : Nat} (hal : 32 ∣ w.offset)
    (hk : w.Touches (physAddr l)) : w.Rounded l := by
  obtain ⟨q, hq⟩ := hal
  unfold WriteCall.Touches physAddr blockAddr at hk
  unfold WriteCall.Rounded
  omega

end Contents

/-- Any list of aligned writes to an erased device that do not share a block reads back, leaves
the rest alone and carries its checksums, and a buffer may be written in pieces. -/
theorem crcPort_roundTrip (f₀ : Chip) (hchip : f₀.flashSize ∈ flashConfigSizes) (he : Erased f₀)
    (ws : List WriteCall) (hal : ∀ w ∈ ws, 32 ∣ w.offset) (hfit : ∀ w ∈ ws, w.Fits f₀)
    (hdis : ws.Pairwise fun w w' => ∀ l, ¬ (w.Rounded l ∧ w'.Rounded l)) :
    (∃ f, runWrites f₀ ws = some f ∧
      (∀ o n, 32 ∣ o → (∀ i < n, ∃ w ∈ ws, w.Rounded (o + i)) →
        (read f o n).2.length = n ∧
        ∀ i < n, ∀ w ∈ ws, w.Rounded (o + i) →
          (read f o n).2[i]? = some (w.buf.getD (o + i - w.offset) 0xff)) ∧
      (∀ l, (∀ w ∈ ws, ¬ w.Rounded l) → f.cells (physAddr l) = f₀.cells (physAddr l)) ∧
      ∀ w ∈ ws, ∀ l, w.Rounded l → HoldsCrc f (l / 32)) ∧
    ∀ f offset ps, 32 ∣ offset → (∀ p ∈ ps.dropLast, 32 ∣ p.length) →
      runWrites f (splitCalls offset ps) = (write f offset ps.flatten).map Prod.fst := by
  refine ⟨?_, fun f offset ps ho hp => runWrites_split ho hp⟩
  have hsize := flashSize_le hchip
  have hdis' : ws.Pairwise fun w w' => ∀ k, ¬ (w.Touches k ∧ w'.Touches k) :=
    hdis.imp_of_mem fun hw hw' h k hk =>
      h _ ⟨rounded_of_touches (hal _ hw) hk.1, rounded_of_touches (hal _ hw') hk.2⟩
  obtain ⟨f, hrun, him⟩ := runWrites_image hsize hal hfit hdis'
  have hin {w : WriteCall} (hw : w ∈ ws) {l : Nat} (hl : w.Rounded l) :
      physAddr l < 2 ^ 24 :=
    Nat.lt_of_lt_of_le (touches_of_rounded (hal w hw) hl).2
      (Nat.le_trans (hfit w hw) hsize)
  refine ⟨f, hrun, ?_, ?_, ?_⟩
  · intro o n ho hall
    have hread := read_aligned (f := f) ho fun i hi => by
      obtain ⟨w, hw, hl⟩ := hall i hi
      exact hin hw hl
    rw [hread]
    refine ⟨by simp, fun i hi w hw hl => ?_⟩
    rw [List.getElem?_map, List.getElem?_range hi, Option.map_some,
      him.logical he hw (hfit w hw) (hal w hw) hl]
  · intro l hl
    exact him.outside _ fun w hw ht => hl w hw (rounded_of_touches_physAddr (hal w hw) ht)
  · intro w hw l hl
    obtain ⟨q, hq⟩ := hal w hw
    unfold WriteCall.Rounded at hl
    have hj : l / 32 - w.offset / 32 < blocks w.buf.length := by omega
    rw [show l / 32 = w.offset / 32 + (l / 32 - w.offset / 32) by omega]
    exact him.holdsCrc he hw (hfit w hw) hj

/-- A four megabyte chip, erased. -/
def blankChip : Chip where
  flashSize := 0x400000
  cells _ := 0xff
  operateSw := 0
  dataFlashSw := []

theorem crcPort_roundTrip_two_writes :
    ∃ f, runWrites blankChip [⟨0, [1, 2, 3]⟩, ⟨32, [4]⟩] = some f ∧
      (read f 0 3).2[1]? = some 2 ∧ (read f 0 4).2[3]? = some 0xff ∧ HoldsCrc f 1 := by
  have hdis : [WriteCall.mk 0 [1, 2, 3], ⟨32, [4]⟩].Pairwise
      fun w w' => ∀ l, ¬ (w.Rounded l ∧ w'.Rounded l) := by
    simp [WriteCall.Rounded, blocks]
    omega
  obtain ⟨⟨f, hrun, hread, _, hcrc⟩, _⟩ := crcPort_roundTrip blankChip (by decide)
    (fun _ _ => rfl) [⟨0, [1, 2, 3]⟩, ⟨32, [4]⟩] (by simp)
    (by simp [WriteCall.Fits, blocks, blockAddr, blankChip, bekenOnchipFlashCrcAddr]) hdis
  refine ⟨f, hrun, ?_, ?_, ?_⟩
  · have := (hread 0 3 (by simp) (by simp [WriteCall.Rounded, blocks]; omega)).2 1 (by decide)
      ⟨0, [1, 2, 3]⟩ (by simp) (by simp [WriteCall.Rounded, blocks])
    simpa using this
  · have := (hread 0 4 (by simp) (by simp [WriteCall.Rounded, blocks]; omega)).2 3 (by decide)
      ⟨0, [1, 2, 3]⟩ (by simp) (by simp [WriteCall.Rounded, blocks])
    simpa using this
  · exact hcrc ⟨32, [4]⟩ (by simp) 32 (by simp [WriteCall.Rounded, blocks])

end BdkRtt.Flash
