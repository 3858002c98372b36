import BdkRtt.Flash.SpiFlash

namespace BdkRtt.Flash.SpiFlash

open Lib

section Bus

variable (c : Chip) (addr : Nat)

theorem and_ff (b : UInt8) : b &&& 0xff = b := by
  apply UInt8.toBitVec_inj.mp
  exact BitVec.and_allOnes

theorem ff_and (b : UInt8) : 0xff &&& b = b := by
  apply UInt8.toBitVec_inj.mp
  exact BitVec.allOnes_and

theorem spiFlashIsBusy_eq : c.spiFlashIsBusy =
    ({ c with busy := c.busy - 1 }, if c.busy ≠ 0 then flashStatusWipBit else 0) := by
  refine Prod.ext rfl ?_
  change c.status &&& flashStatusWipBit = _
  rw [Chip.status]
  by_cases h : c.busy ≠ 0
  · rw [if_pos h]
    cases c.wel <;> rfl
  · rw [if_neg h]
    cases c.wel <;> rfl

theorem whileBusy_eq {fuel : Nat} (h : c.busy < fuel) :
    whileBusy fuel c = { c with busy := 0 } := by
  induction fuel generalizing c with
  | zero => exact absurd h (Nat.not_lt_zero _)
  | succ fuel ih =>
    rw [whileBusy, spiFlashIsBusy_eq]
    dsimp only
    by_cases hbusy : c.busy ≠ 0
    · rw [if_pos hbusy, if_pos (by decide)]
      have hlt : c.busy - 1 < fuel := by omega
      exact ih { c with busy := c.busy - 1 } hlt
    · rw [if_neg hbusy, if_neg (by decide), not_not.mp hbusy]

/-- The loop ends with the chip ready. -/
theorem waitReady_eq : c.waitReady = { c with busy := 0 } := whileBusy_eq c (Nat.lt_succ_self _)

theorem address_addrBytes : address (UInt8.ofNat (addr >>> 16)) (UInt8.ofNat (addr >>> 8))
    (UInt8.ofNat addr) = addr % 2 ^ 24 := by
  rw [address, UInt8.toNat_ofNat', UInt8.toNat_ofNat', UInt8.toNat_ofNat',
    Nat.shiftRight_eq_div_pow, Nat.shiftRight_eq_div_pow]
  omega

/-- What a page read gives. -/
theorem spiFlashReadPage_eq {size : Nat} (hpos : size ≠ 0) (hle : size ≤ 256)
    (haddr : addr + size ≤ 2 ^ 24) (dst : Mem UInt8) (i : Nat) :
    c.spiFlashReadPage addr size (some dst) i =
      ({ c with busy := 0 }, 0, some (dst.write i (c.cells.read addr size))) := by
  have hlt : ¬ flashPhyPageSize < size := Nat.not_lt.mpr hle
  have hread :
      (({ c with busy := 0 } : Chip).bkSpiMasterXfer (cmdReadData :: addrBytes addr) size) =
      ({ c with busy := 0 }, c.cells.read addr size) := by
    refine Prod.ext rfl ?_
    change (List.range size).map (fun k => c.cells ((address _ _ _ + k) % 2 ^ 24)) = _
    rw [address_addrBytes, Mem.read]
    refine List.map_congr_left fun k hk => ?_
    have hk := List.mem_range.mp hk
    rw [Nat.mod_eq_of_lt (by omega : addr < 2 ^ 24), Nat.mod_eq_of_lt (by omega)]
  rw [Chip.spiFlashReadPage]
  dsimp only
  rw [if_neg hlt, if_neg hpos, waitReady_eq, hread]

/-- What a page program does. -/
theorem spiFlashProgramPage_eq {size : Nat} (hpos : size ≠ 0) (hle : size ≤ 256)
    (haddr : addr < 2 ^ 24) (src : List UInt8) :
    c.spiFlashProgramPage addr size (some src) true =
      (⟨pageProgram c.cells addr (src.take size), false, c.times.headD 0, c.times.tail⟩, 0) := by
  have hlt : ¬ flashPhyPageSize < size := Nat.not_lt.mpr hle
  have hsend : ({ c with busy := 0 } : Chip).spiFlashSendCommand cmdWriteEnable =
      { c with busy := 0, wel := true } := rfl
  have hprog : (({ c with busy := 0, wel := true } : Chip).bkSpiMasterXfer
      (cmdPageProg :: (addrBytes addr ++ src.take size)) 0).1 =
      ⟨pageProgram c.cells (address (UInt8.ofNat (addr >>> 16)) (UInt8.ofNat (addr >>> 8))
        (UInt8.ofNat addr)) (src.take size), false, c.times.headD 0, c.times.tail⟩ := rfl
  rw [Chip.spiFlashProgramPage]
  dsimp only
  rw [if_neg hlt, if_neg hpos, if_neg nofun, waitReady_eq c, hsend, waitReady_eq]
  dsimp only
  rw [hprog, address_addrBytes, Nat.mod_eq_of_lt haddr]

end Bus

section Pages

variable {c : Chip} {size : Nat} {malloc : Nat → Bool}

theorem dsize_pos {i : Nat} (h : i < size) : dsize size i ≠ 0 := by
  rw [dsize, flashPhyPageSize]
  split <;> omega

theorem dsize_le (size i : Nat) : dsize size i ≤ 256 ∧ dsize size i ≤ size - i := by
  rw [dsize, flashPhyPageSize]
  split <;> omega

/-- The cells after the pages of `src` have been programmed one after the other. -/
def programs : Nat → Mem UInt8 → (addr : Nat) → List UInt8 → Mem UInt8
  | 0, m, _, _ => m
  | fuel + 1, m, addr, src =>
    if src = [] then m
    else programs fuel (pageProgram m addr (src.take 256)) (addr + 256) (src.drop 256)

theorem programs_apply {fuel : Nat} {src : List UInt8} (hfuel : src.length ≤ fuel) (m : Mem UInt8)
    (addr k : Nat) : programs fuel m addr src k =
      if addr / 256 ≤ k / 256 then
        m k &&& src.getD (256 * (k / 256 - addr / 256) + (k + 256 - addr % 256) % 256) 0xff
      else m k := by
  induction fuel generalizing m addr src with
  | zero =>
    have hnil : src = [] := List.length_eq_zero_iff.mp (Nat.le_zero.mp hfuel)
    rw [programs, hnil, List.getD_nil, and_ff, ite_self]
  | succ fuel ih =>
    rw [programs]
    split
    next hnil => rw [hnil, List.getD_nil, and_ff, ite_self]
    next hne =>
      have hpos := List.length_pos_iff.mpr hne
      have hlen : (src.drop 256).length ≤ fuel := by
        rw [List.length_drop]
        omega
      have hdiv : (addr + 256) / 256 = addr / 256 + 1 := Nat.add_div_right addr (by decide)
      rw [ih hlen, hdiv, Nat.add_mod_right, pageProgram]
      generalize hoff : (k + 256 - addr % 256) % 256 = off
      have hlt : off < 256 := hoff ▸ Nat.mod_lt _ (by decide)
      rcases Nat.lt_trichotomy (k / 256) (addr / 256) with hk | hk | hk
      · rw [if_neg (by omega), if_neg (by omega), if_neg (by omega)]
      · rw [if_neg (by omega), if_pos hk, if_pos (by omega), hk, Nat.sub_self, Nat.mul_zero,
          Nat.zero_add, List.getD_eq_getElem?_getD, List.getD_eq_getElem?_getD,
          List.getElem?_take_of_lt hlt]
      · have hindex : 256 * (k / 256 - addr / 256) + off =
            256 + (256 * (k / 256 - (addr / 256 + 1)) + off) := by omega
        rw [if_pos (by omega), if_neg (by omega), if_pos (by omega), hindex,
          List.getD_eq_getElem?_getD, List.getD_eq_getElem?_getD, List.getElem?_drop]

/-- `spi_flash_write` programs all pages, unless memory is short for one of them. -/
theorem writePages_eq {fuel addr i : Nat} {src : List UInt8} (hlen : src.length = size - i)
    (hfuel : size - i ≤ fuel) (haddr : addr + (size - i) ≤ 2 ^ 24) (hi : i % 256 = 0 ∨ size ≤ i) :
    ((writePages size malloc fuel c addr src i).2 = 0 ↔
      ∀ j, i ≤ j → j < size → j % 256 = 0 → malloc j = true) ∧
    ((writePages size malloc fuel c addr src i).2 = 0 →
      (writePages size malloc fuel c addr src i).1.cells = programs fuel c.cells addr src) := by
  induction fuel generalizing c addr src i with
  | zero =>
    rw [writePages]
    exact ⟨⟨fun _ j hij hj => by omega, fun _ => rfl⟩, fun _ => rfl⟩
  | succ fuel ih =>
    rw [writePages, programs]
    by_cases hlt : i < size
    · have hne : src ≠ [] := List.ne_nil_of_length_pos (by omega)
      have hmod := hi.resolve_right (by omega)
      obtain ⟨hle, hrest⟩ := dsize_le size i
      have hpos := dsize_pos hlt
      rw [if_pos hlt, if_neg hne]
      cases hmalloc : malloc i with
      | false =>
        have hlarge : ¬ flashPhyPageSize < dsize size i := Nat.not_lt.mpr hle
        have hfail : (c.spiFlashProgramPage addr (dsize size i) (some src) false) = (c, 1) := by
          rw [Chip.spiFlashProgramPage]
          dsimp only
          rw [if_neg hlarge, if_neg hpos, if_pos rfl]
        rw [hfail]
        dsimp only
        rw [if_pos (by decide)]
        refine ⟨⟨fun h => absurd h (Nat.succ_ne_zero 0), fun h => ?_⟩,
          fun h => absurd h (Nat.succ_ne_zero 0)⟩
        rw [h i (Nat.le_refl i) hlt hmod] at hmalloc
        cases hmalloc
      | true =>
        rw [spiFlashProgramPage_eq c addr hpos hle (by omega)]
        dsimp only
        rw [if_neg (by decide)]
        have hnext : (i + dsize size i) % 256 = 0 ∨ size ≤ i + dsize size i := by
          rw [dsize, flashPhyPageSize]
          split <;> omega
        have hdrop : (src.drop (dsize size i)).length = size - (i + dsize size i) := by
          rw [List.length_drop]
          omega
        have htake : src.take (dsize size i) = src.take 256 := by
          rw [dsize, flashPhyPageSize]
          split
          next => rfl
          next h => rw [List.take_of_length_le (by omega), List.take_of_length_le (by omega)]
        have haddr' : addr + dsize size i + (size - (i + dsize size i)) ≤ 2 ^ 24 := by omega
        obtain ⟨hret, hcells⟩ := ih
          (c := ⟨pageProgram c.cells addr (src.take (dsize size i)), false,
            c.times.headD 0, c.times.tail⟩) hdrop (by omega) haddr' hnext
        refine ⟨hret.trans ⟨fun h j hij hj hj0 => ?_, fun h j hij => h j (by omega)⟩, fun h => ?_⟩
        · by_cases hji : i + dsize size i ≤ j
          · exact h j hji hj hj0
          · have heq : j = i := by omega
            rw [heq]
            exact hmalloc
        · rw [hcells h, htake]
          by_cases hshort : size - i < 256
          · have hd : dsize size i = size - i := by
              rw [dsize, flashPhyPageSize, if_neg (by omega)]
            rw [hd, List.drop_of_length_le (by omega), List.drop_of_length_le (by omega)]
            cases fuel <;> rfl
          · have hd : dsize size i = 256 := by
              rw [dsize, flashPhyPageSize, if_pos (by omega)]
            rw [hd]
    · have hnil : src = [] := List.length_eq_zero_iff.mp (by omega)
      rw [if_neg hlt, if_pos hnil]
      exact ⟨⟨fun _ j hij hj => by omega, fun _ => rfl⟩, fun _ => rfl⟩

/-- `spi_flash_read` gives the cells and leaves them. -/
theorem readPages_spec {fuel addr i : Nat} (dst : Mem UInt8) (hfuel : size - i ≤ fuel)
    (haddr : addr + (size - i) ≤ 2 ^ 24) :
    ∃ c' dst', readPages size fuel c addr (some dst) i = (c', 0, some dst') ∧
      c'.cells = c.cells ∧ dst'.Has i (c.cells.read addr (size - i)) ∧
      ∀ k, k < i → dst' k = dst k := by
  induction fuel generalizing c addr i dst with
  | zero =>
    have hzero : size - i = 0 := Nat.le_zero.mp hfuel
    rw [readPages, hzero]
    exact ⟨c, dst, rfl, rfl, rfl, fun _ _ => rfl⟩
  | succ fuel ih =>
    rw [readPages]
    by_cases hlt : i < size
    · obtain ⟨hle, hrest⟩ := dsize_le size i
      have hpos := dsize_pos hlt
      rw [if_pos hlt, spiFlashReadPage_eq c addr hpos hle (by omega)]
      dsimp only
      rw [if_neg (by decide)]
      generalize dsize size i = n at hle hrest hpos
      have haddr' : addr + n + (size - (i + n)) ≤ 2 ^ 24 := by omega
      obtain ⟨c', dst', heq, hcells, hhas, hkeep⟩ := ih (c := { c with busy := 0 })
        (dst.write i (c.cells.read addr n)) (by omega : size - (i + n) ≤ fuel) haddr'
      have hsplit : c.cells.read addr (size - i) =
          c.cells.read addr n ++ c.cells.read (addr + n) (size - (i + n)) := by
        rw [← Mem.read_add, show n + (size - (i + n)) = size - i by omega]
      have hlen := Mem.length_read c.cells addr n
      refine ⟨c', dst', heq, hcells, ?_, fun k hk => ?_⟩
      · rw [hsplit]
        refine Mem.has_append.mpr ⟨?_, hlen.symm ▸ hhas⟩
        have hpage : dst'.read i (c.cells.read addr n).length =
            (dst.write i (c.cells.read addr n)).read i (c.cells.read addr n).length :=
          Mem.read_congr fun k _ hk => hkeep k (by rw [hlen] at hk; exact hk)
        exact hpage.trans (Mem.read_write_self ..)
      · exact (hkeep k (by omega)).trans (Mem.write_apply_of_lt dst _ hk)
    · have hzero : size - i = 0 := by omega
      rw [if_neg hlt, hzero]
      exact ⟨c, dst, rfl, rfl, rfl, fun _ _ => rfl⟩

end Pages

section RoundTrip

variable {c : Chip} {addr : Nat} {src : List UInt8} {malloc : Nat → Bool}

def Erased (m : Mem UInt8) (addr size : Nat) : Prop :=
  ∀ k, addr ≤ k → k < addr + size → m k = 0xff

/-- What is written is read back and nothing else changes. -/
def RoundTrip (c : Chip) (addr : Nat) (src : List UInt8) (malloc : Nat → Bool) (dst : Mem UInt8) :
    Prop :=
  let w := c.spiFlashWrite addr src.length (some src) malloc
  let r := w.1.spiFlashRead addr src.length (some dst)
  w.2 = 0 →
    (r.2.1 = 0 ∧ ∃ dst', r.2.2 = some dst' ∧ dst'.read 0 src.length = src) ∧
    ∀ k, ¬ (addr ≤ k ∧ k < addr + src.length) → r.1.cells k = c.cells k

/-- The bytes of a program that lie beyond the end of the page in which it begins clear no bit. -/
def Harmless (addr : Nat) (src : List UInt8) : Prop :=
  ∀ i (h : i < src.length), 256 ≤ addr % 256 + i % 256 → src[i] = 0xff

instance (addr : Nat) (src : List UInt8) : Decidable (Harmless addr src) :=
  inferInstanceAs (Decidable (∀ i (_ : i < src.length), _ → _))

/-- Memory is short for one of the pages. -/
def Short (size : Nat) (malloc : Nat → Bool) : Prop :=
  ∃ i, i < size ∧ i % 256 = 0 ∧ malloc i = false

theorem spiFlashWrite_eq (c : Chip) (malloc : Nat → Bool) (haddr : addr + src.length ≤ 2 ^ 24) :
    ((c.spiFlashWrite addr src.length (some src) malloc).2 = 0 ↔ ¬ Short src.length malloc) ∧
    ((c.spiFlashWrite addr src.length (some src) malloc).2 = 0 →
      (c.spiFlashWrite addr src.length (some src) malloc).1.cells =
        programs src.length c.cells addr src) := by
  have hshort : (∀ j, 0 ≤ j → j < src.length → j % 256 = 0 → malloc j = true) ↔
      ¬ Short src.length malloc := by
    constructor
    · rintro h ⟨i, hi, hi0, hm⟩
      rw [h i (Nat.zero_le i) hi hi0] at hm
      cases hm
    · intro h j _ hj hj0
      exact Bool.not_eq_false _ |>.mp fun hm => h ⟨j, hj, hj0, hm⟩
  rw [← hshort, Chip.spiFlashWrite]
  split
  next hzero =>
    rw [hzero]
    exact ⟨⟨fun _ j _ hj => absurd hj (Nat.not_lt_zero j), fun _ => rfl⟩, fun _ => rfl⟩
  next =>
    exact writePages_eq (i := 0) rfl (Nat.le_refl _) haddr (.inl rfl)

theorem spiFlashRead_spec {size : Nat} (haddr : addr + size ≤ 2 ^ 24) (dst : Mem UInt8) :
    ∃ c' dst', c.spiFlashRead addr size (some dst) = (c', 0, some dst') ∧ c'.cells = c.cells ∧
      dst'.read 0 size = c.cells.read addr size := by
  rw [Chip.spiFlashRead, if_neg nofun]
  split
  next hzero =>
    rw [hzero]
    exact ⟨c, dst, rfl, rfl, rfl⟩
  next =>
    obtain ⟨c', dst', heq, hcells, hhas, -⟩ := readPages_spec (c := c) (i := 0) dst
      (Nat.le_refl _ : size - 0 ≤ size) haddr
    refine ⟨c', dst', heq, hcells, ?_⟩
    rw [Mem.Has, Mem.length_read] at hhas
    exact hhas

/-- Where the bytes of `src` come to lie in erased cells. -/
theorem programs_inside (herased : Erased c.cells addr src.length) {i : Nat} (hi : i < src.length) :
    programs src.length c.cells addr src (addr + i) =
      if 256 ≤ addr % 256 + i % 256 then src.getD (i + 256) 0xff else src.getD i 0xff := by
  rw [programs_apply (Nat.le_refl _), if_pos (by omega),
    herased (addr + i) (Nat.le_add_right ..) (by omega), ff_and]
  split
  next h =>
    have hindex : 256 * ((addr + i) / 256 - addr / 256) + (addr + i + 256 - addr % 256) % 256 =
        i + 256 := by omega
    rw [hindex]
  next h =>
    have hindex : 256 * ((addr + i) / 256 - addr / 256) + (addr + i + 256 - addr % 256) % 256 =
        i := by omega
    rw [hindex]

theorem read_eq_iff {m : Mem UInt8} : m.read addr src.length = src ↔
    ∀ i (h : i < src.length), m (addr + i) = src[i] := by
  constructor
  · intro h i hi
    have hget := List.getElem_of_eq h (by rw [Mem.length_read]; exact hi)
    rw [← hget]
    simp only [Mem.read, List.getElem_map, List.getElem_range]
  · intro h
    refine List.ext_getElem (Mem.length_read ..) fun i _ hi => ?_
    simp only [Mem.read, List.getElem_map, List.getElem_range]
    exact h i hi

theorem getD_of_lt {i : Nat} (h : i < src.length) : src.getD i 0xff = src[i] := by
  rw [List.getD_eq_getElem?_getD, List.getElem?_eq_getElem h, Option.getD_some]

/-- The pages hold `src` just when nothing harmful goes round in them. -/
theorem programs_read_iff (herased : Erased c.cells addr src.length) :
    (programs src.length c.cells addr src).read addr src.length = src ↔ Harmless addr src := by
  rw [read_eq_iff]
  constructor
  · intro h i
    -- each byte that goes round is the one a page behind it, and behind the last there is none
    induction hn : src.length - i using Nat.strongRecOn generalizing i with
    | ind n ih =>
      intro hi hcross
      have hcell := h i hi
      rw [programs_inside herased hi, if_pos hcross] at hcell
      by_cases hnext : i + 256 < src.length
      · rw [← hcell, getD_of_lt hnext]
        exact ih (src.length - (i + 256)) (by omega) (i + 256) rfl hnext
          (by rw [Nat.add_mod_right]; exact hcross)
      · rw [← hcell, List.getD_eq_default _ _ (Nat.not_lt.mp hnext)]
  · intro h i hi
    rw [programs_inside herased hi]
    split
    next hcross =>
      rw [h i hi hcross]
      by_cases hnext : i + 256 < src.length
      · rw [getD_of_lt hnext]
        exact h (i + 256) hnext (by rw [Nat.add_mod_right]; exact hcross)
      · exact List.getD_eq_default _ _ (Nat.not_lt.mp hnext)
    next => exact getD_of_lt hi

/-- Outside the range nothing changes when nothing harmful goes round. -/
theorem programs_outside (hharm : Harmless addr src) {k : Nat}
    (hk : ¬ (addr ≤ k ∧ k < addr + src.length)) :
    programs src.length c.cells addr src k = c.cells k := by
  rw [programs_apply (Nat.le_refl _)]
  split
  next hpage =>
    generalize hindex : 256 * (k / 256 - addr / 256) + (k + 256 - addr % 256) % 256 = i
    have hff : src.getD i 0xff = 0xff := by
      by_cases hi : i < src.length
      · rw [getD_of_lt hi]
        exact hharm i hi (by omega)
      · exact List.getD_eq_default _ _ (Nat.not_lt.mp hi)
    rw [hff, and_ff]
  next => rfl

/-- The round trip holds just when memory is short or no byte that goes round clears a bit. -/
theorem write_read (c : Chip) (addr : Nat) (src : List UInt8) (malloc : Nat → Bool)
    (dst : Mem UInt8) (haddr : addr + src.length ≤ 2 ^ 24)
    (herased : Erased c.cells addr src.length) :
    RoundTrip c addr src malloc dst ↔ Short src.length malloc ∨ Harmless addr src := by
  obtain ⟨hret, hcells⟩ := spiFlashWrite_eq c malloc haddr
  rw [RoundTrip]
  generalize c.spiFlashWrite addr src.length (some src) malloc = w at hret hcells
  obtain ⟨c', dst', hread, hsame, hdst⟩ := spiFlashRead_spec (c := w.1) haddr dst
  rw [hread, hret]
  by_cases hshort : Short src.length malloc
  · exact ⟨fun _ => .inl hshort, fun _ h => absurd hshort h⟩
  · have hw := hcells (hret.mpr hshort)
    rw [hw] at hdst
    constructor
    · intro h
      obtain ⟨⟨-, dst₂, heq, hsrc⟩, -⟩ := h hshort
      obtain rfl := Option.some.inj heq
      exact .inr ((programs_read_iff herased).mp (hdst.symm.trans hsrc))
    · intro h _
      have hharm := h.resolve_left hshort
      refine ⟨⟨rfl, dst', rfl, hdst.trans ((programs_read_iff herased).mpr hharm)⟩, fun k hk => ?_⟩
      rw [hsame, hw]
      exact programs_outside hharm hk

/-- Three bytes in a page that is not aligned. -/
theorem write_read_three :
    RoundTrip ⟨fun _ => 0xff, false, 2, [3]⟩ 250 [1, 2, 3] (fun _ => true) (fun _ => 0) :=
  (write_read _ 250 [1, 2, 3] _ _ (by decide) fun _ _ _ => rfl).mpr (.inr (by decide))

/-- Two bytes on both sides of the end of a page. -/
theorem write_read_across : ¬ ∀ (c : Chip) (addr : Nat) (src : List UInt8) (malloc : Nat → Bool)
    (dst : Mem UInt8), addr + src.length ≤ 2 ^ 24 → Erased c.cells addr src.length →
      RoundTrip c addr src malloc dst := by
  intro hall
  have htrip := hall ⟨fun _ => 0xff, false, 0, []⟩ 255 [1, 2] (fun _ => true) (fun _ => 0)
    (by decide) fun _ _ _ => rfl
  obtain ⟨⟨-, dst, heq, hsrc⟩, -⟩ := htrip rfl
  obtain rfl := Option.some.inj heq
  exact absurd hsrc (by decide)

end RoundTrip

end BdkRtt.Flash.SpiFlash
