import BdkRtt.Flash.SpiFlashErase
import BdkRtt.Flash.SpiFlashLaws

namespace BdkRtt.Flash.SpiFlash

open Lib

section Plan

variable {fuel a n s p r k : Nat} {b : Block}

/-- `erase_size` for what is left and for what the last round has got through. -/
def eraseSize (n s : Nat) : Nat := if n ≤ 4096 then 4096 else if s ≤ 32768 then 32768 else 65536

/-- The blocks that the rounds erase from `a` on, with `n` bytes left. -/
def planFrom : Nat → (a n s : Nat) → List Block
  | 0, _, _, _ => []
  | fuel + 1, a, n, s =>
    if 0 < n then
      let d := eraseSize n s - a % eraseSize n s
      blockOf (eraseSize n s) a :: planFrom fuel (a + d) (n - d) d
    else []

@[simp] theorem planFrom_zero : planFrom fuel a 0 s = [] := by
  cases fuel <;> rfl

theorem planFrom_succ (hn : 0 < n) (hfuel : n ≤ fuel) : ∃ fuel', n ≤ fuel' + 1 ∧
    planFrom fuel a n s = blockOf (eraseSize n s) a ::
      planFrom fuel' (a + (eraseSize n s - a % eraseSize n s))
        (n - (eraseSize n s - a % eraseSize n s)) (eraseSize n s - a % eraseSize n s) := by
  obtain ⟨fuel', rfl⟩ := Nat.exists_eq_succ_of_ne_zero (Nat.ne_of_gt (Nat.lt_of_lt_of_le hn hfuel))
  exact ⟨fuel', hfuel, if_pos hn⟩

theorem eraseSize_cases (n s : Nat) : n ≤ 4096 ∧ eraseSize n s = 4096 ∨
    4096 < n ∧ s ≤ 32768 ∧ eraseSize n s = 32768 ∨
    4096 < n ∧ 32768 < s ∧ eraseSize n s = 65536 := by
  unfold eraseSize
  split
  · omega
  · split <;> omega

theorem eraseSize_pos (n s : Nat) : 0 < eraseSize n s := by
  have := eraseSize_cases n s
  omega

/-- The rounds go on where the last block ends, until nothing is left. -/
theorem planFrom_covers (hfuel : n ≤ fuel) (ha : a ≤ k) (hk : k < a + n) :
    ∃ b ∈ planFrom fuel a n s, b.Has k := by
  induction fuel generalizing a n s with
  | zero => omega
  | succ fuel ih =>
    have hpos := eraseSize_pos n s
    have hmod := Nat.mod_lt a hpos
    have hle := Nat.mod_le a (eraseSize n s)
    rw [planFrom, if_pos (by omega)]
    by_cases hin : k < a + (eraseSize n s - a % eraseSize n s)
    · exact ⟨_, List.mem_cons_self, by rw [blockOf, Block.Has]; dsimp only; omega⟩
    · have hrest : n - (eraseSize n s - a % eraseSize n s) ≤ fuel := by omega
      obtain ⟨b, hb, hhas⟩ := ih hrest (Nat.not_lt.mp hin) (by omega)
      exact ⟨b, List.mem_cons_of_mem _ hb, hhas⟩

theorem touched_iff (hn : 0 < n) :
    Touched a n k ↔ a / 4096 ≤ k / 4096 ∧ k / 4096 ≤ (a + n - 1) / 4096 := by
  constructor
  · rintro ⟨j, hj, hj', heq⟩
    omega
  · rintro ⟨hlow, hhigh⟩
    by_cases hfirst : k / 4096 = a / 4096
    · exact ⟨a, Nat.le_refl a, by omega, hfirst.symm⟩
    · exact ⟨k / 4096 * 4096, by omega, by omega, by omega⟩

/-- The block begins in a sector of the range and ends with one. -/
def Block.Fits (b : Block) (a n : Nat) : Prop := a < b.start + 4096 ∧ b.start + b.len < a + n + 4096

theorem fits_iff (hn : 0 < n) (hstart : b.start % 4096 = 0) (hlen : b.len % 4096 = 0)
    (hpos : 0 < b.len) : (∀ k, b.Has k → Touched a n k) ↔ b.Fits a n := by
  simp only [touched_iff hn]
  rw [Block.Fits]
  constructor
  · intro h
    have hfirst := h b.start ⟨Nat.le_refl _, by omega⟩
    have hlast := h (b.start + b.len - 1) ⟨by omega, by omega⟩
    omega
  · rintro ⟨hlow, hhigh⟩ k ⟨hk, hk'⟩
    omega

theorem blockOf_fits (hn : 0 < n) {len : Nat} (hlen : len = 4096 ∨ len = 32768 ∨ len = 65536) :
    (∀ k, (blockOf len p).Has k → Touched a n k) ↔ (blockOf len p).Fits a n := by
  have hstart : (p - p % len) % 4096 = 0 := by rcases hlen with rfl | rfl | rfl <;> omega
  exact fits_iff hn hstart (by change len % 4096 = 0; omega) (by change 0 < len; omega)

theorem eraseSize_or (n s : Nat) :
    eraseSize n s = 4096 ∨ eraseSize n s = 32768 ∨ eraseSize n s = 65536 := by
  have := eraseSize_cases n s
  omega

theorem planFrom_touched (hn : 0 < n) :
    (∀ b ∈ planFrom fuel p r s, ∀ k, b.Has k → Touched a n k) ↔
      ∀ b ∈ planFrom fuel p r s, b.Fits a n := by
  induction fuel generalizing p r s with
  | zero => simp [planFrom]
  | succ fuel ih =>
    rw [planFrom]
    split
    · simp only [List.forall_mem_cons, ih, blockOf_fits hn (eraseSize_or r s)]
    · simp

theorem fits_blockOf {len : Nat} : (blockOf len p).Fits a n ↔
    a < p - p % len + 4096 ∧ p - p % len + len < a + n + 4096 := Iff.rfl

/-- At most a sector is left, at the beginning of one. -/
theorem tail_sector (hp : p % 4096 = 0) (hlow : a < p + 4096) (htop : p + r = a + n)
    (hr : r ≤ 4096) : ∀ b ∈ planFrom fuel p r s, b.Fits a n := by
  cases fuel with
  | zero => simp [planFrom]
  | succ fuel =>
    have hsize : eraseSize r s = 4096 := if_pos hr
    rw [planFrom]
    split
    next hpos =>
      have hrest : r - (4096 - p % 4096) = 0 := by omega
      simp only [hsize, hrest, planFrom_zero, List.forall_mem_cons, fits_blockOf]
      exact ⟨by omega, by simp⟩
    next => simp

/-- The rounds of 64 KB from the beginning of such a block on. -/
theorem tail_blocks (hp : p % 65536 = 0) (hlow : a < p + 4096) (htop : p + r = a + n)
    (hfuel : r ≤ fuel) (hs : 32768 < s) :
    (∀ b ∈ planFrom fuel p r s, b.Fits a n) ↔ r % 65536 ≤ 4096 ∨ 61440 < r % 65536 := by
  induction fuel generalizing p r s with
  | zero =>
    obtain rfl : r = 0 := Nat.le_zero.mp hfuel
    simp
  | succ fuel ih =>
    by_cases hsmall : r ≤ 4096
    · have hmod : r % 65536 ≤ 4096 := by omega
      simp only [hmod, true_or, iff_true]
      exact tail_sector (by omega) hlow htop hsmall
    · have hsize : eraseSize r s = 65536 := by rw [eraseSize, if_neg hsmall, if_neg (by omega)]
      have hstep : 65536 - p % 65536 = 65536 := by omega
      rw [planFrom, if_pos (by omega)]
      simp only [hsize, hstep, List.forall_mem_cons]
      have hblock : (blockOf 65536 p).Fits a n ↔ 61440 < r := by
        rw [fits_blockOf]
        omega
      rw [hblock]
      by_cases hmore : 65536 ≤ r
      · rw [ih (by omega) (by omega) (by omega) (by omega) (by omega)]
        omega
      · have hrest : r - 65536 = 0 := by omega
        rw [hrest, planFrom_zero]
        simp
        omega

/-- Where the blocks of the whole range stay within its sectors. -/
theorem planFrom_fits (hfuel : n ≤ fuel) (hn : 0 < n) :
    (∀ b ∈ planFrom fuel a n n, b.Fits a n) ↔ BlocksFit a n := by
  obtain ⟨fuel', hfuel', hplan⟩ := @planFrom_succ fuel a n n hn hfuel
  rw [hplan, List.forall_mem_cons]
  rcases eraseSize_cases n n with ⟨hsmall, hsize⟩ | ⟨hbig, hmid, hsize⟩ | ⟨-, hbig, hsize⟩
  · -- one sector, and at most one more
    rw [hsize, fits_blockOf]
    have hmod : a % 4096 < 4096 := Nat.mod_lt _ (by decide)
    have hfit : BlocksFit a n := .inl hsmall
    refine iff_of_true ⟨by omega, fun b hb => ?_⟩ hfit
    by_cases hrest : n ≤ 4096 - a % 4096
    · rw [Nat.sub_eq_zero_of_le hrest, planFrom_zero] at hb
      exact absurd hb List.not_mem_nil
    · exact tail_sector (by omega) (by omega) (by omega) (by omega) b hb
  · -- a block of 32 KB, and what is left is at most a sector where that block fits
    rw [hsize, fits_blockOf]
    have htail (hlow : a % 32768 < 4096) :
        ∀ b ∈ planFrom fuel' (a + (32768 - a % 32768)) (n - (32768 - a % 32768))
          (32768 - a % 32768), b.Fits a n := by
      intro b hb
      by_cases hrest : n ≤ 32768 - a % 32768
      · rw [Nat.sub_eq_zero_of_le hrest, planFrom_zero] at hb
        exact absurd hb List.not_mem_nil
      · exact tail_sector (by omega) (by omega) (by omega) (by omega) b hb
    rw [BlocksFit]
    constructor
    · rintro ⟨hfirst, -⟩
      omega
    · intro hfit
      exact ⟨by omega, htail (by omega)⟩
  · -- blocks of 64 KB, since the first one, where it fits, gets through more than 32 KB
    rw [hsize, fits_blockOf, BlocksFit]
    by_cases hrest : n ≤ 65536 - a % 65536
    · rw [Nat.sub_eq_zero_of_le hrest, planFrom_zero]
      simp only [List.not_mem_nil, false_implies, implies_true, and_true]
      omega
    · by_cases hlow : a % 65536 < 4096
      · rw [tail_blocks (by omega) (by omega) (by omega) (by omega) (by omega)]
        omega
      · constructor
        · rintro ⟨hfirst, -⟩
          omega
        · intro hfit
          omega

end Plan

section Driver

variable (c : Eraser) {addr left size : UInt32} {fuel : Nat}

/-- The size of the blocks of a mode. -/
def EraseMode.len : EraseMode → Nat
  | .all => 2 ^ 24
  | .block64k => 65536
  | .block32k => 32768
  | .sector => 4096

/-- The driver waits and sets the write enable, so the command is taken. -/
theorem spiFlashEarse_eq {mode : EraseMode} (hmode : mode ≠ .all) (haddr : addr.toNat < 2 ^ 24) :
    c.spiFlashEarse addr mode = c.erase (blockOf mode.len addr.toNat) := by
  have hready : (c.chip.waitReady.spiFlashSendCommand cmdWriteEnable).waitReady =
      { c.chip with busy := 0, wel := true } := by
    rw [waitReady_eq, waitReady_eq]
    rfl
  have haddress : address (UInt8.ofNat (addr.toNat >>> 16)) (UInt8.ofNat (addr.toNat >>> 8))
      (UInt8.ofNat addr.toNat) = addr.toNat := by
    rw [address_addrBytes, Nat.mod_eq_of_lt haddr]
  rw [Eraser.spiFlashEarse, hready]
  cases mode with
  | all => exact absurd rfl hmode
  | block64k => exact congrArg (fun k => c.erase (blockOf 65536 k)) haddress
  | block32k => exact congrArg (fun k => c.erase (blockOf 32768 k)) haddress
  | sector => exact congrArg (fun k => c.erase (blockOf 4096 k)) haddress

theorem eraseStep_toNat {bits : Nat} {len : UInt32} (hlen : len.toNat = 2 ^ bits) :
    (eraseStep addr len).toNat = len.toNat - addr.toNat % len.toNat := by
  have hpos : 0 < len.toNat := hlen ▸ Nat.two_pow_pos bits
  have hone : (1 : UInt32).toNat = 1 := rfl
  have hmask : (addr &&& (len - 1)).toNat = addr.toNat % len.toNat := by
    have hle : (1 : UInt32) ≤ len := by
      rw [UInt32.le_iff_toNat_le]
      exact hpos
    rw [UInt32.toNat_and, UInt32.toNat_sub_of_le _ _ hle, hone, hlen,
      Nat.and_two_pow_sub_one_eq_mod]
  have hlt := Nat.mod_lt addr.toNat hpos
  rw [eraseStep]
  split
  next hne =>
    rw [UInt32.toNat_sub_of_le _ _ (by rw [UInt32.le_iff_toNat_le, hmask]; omega), hmask]
  next heq =>
    rw [← hmask, not_not.mp heq]
    rfl

theorem eraseMode_eq {left : Int} {n : Nat} (hleft : left = n) :
    (eraseMode left size).1.toNat = eraseSize n size.toNat ∧
      (eraseMode left size).2.len = eraseSize n size.toNat ∧ (eraseMode left size).2 ≠ .all ∧
      ∃ bits, (eraseMode left size).1.toNat = 2 ^ bits := by
  have hle : size ≤ 32 * 1024 ↔ size.toNat ≤ 32768 := UInt32.le_iff_toNat_le
  rw [eraseMode, eraseSize]
  by_cases hsmall : n ≤ 4096
  · rw [if_pos (by omega), if_pos hsmall]
    exact ⟨rfl, rfl, nofun, 12, rfl⟩
  · rw [if_neg (by omega), if_neg hsmall]
    by_cases hmid : size.toNat ≤ 32768
    · rw [if_pos (hle.mpr hmid), if_pos hmid]
      exact ⟨rfl, rfl, nofun, 15, rfl⟩
    · rw [if_neg fun h => hmid (hle.mp h), if_neg hmid]
      exact ⟨rfl, rfl, nofun, 16, rfl⟩

/-- What has been erased reads as such. -/
def Eraser.Blank (c : Eraser) : Prop := ∀ b ∈ c.blocks, ∀ k, b.Has k → c.chip.cells k = 0xff

theorem Eraser.Blank.erase {c : Eraser} (h : c.Blank) (b : Block) : (c.erase b).Blank := by
  intro b' hb' k hk
  change (if b.Has k then 0xff else c.chip.cells k) = 0xff
  split
  · rfl
  next hnot =>
    rcases List.mem_append.mp hb' with hb' | hb'
    · exact h b' hb' k hk
    · exact absurd (List.mem_singleton.mp hb' ▸ hk) hnot

/-- The loop ends, and has erased the blocks of the plan. -/
theorem eraseFrom_eq {c : Eraser} {left : Int} {n : Nat} (hleft : left.toNat = n) (hfuel : n ≤ fuel)
    (haddr : n ≠ 0 → addr.toNat + n ≤ 2 ^ 24) (hblank : c.Blank) :
    ∃ c', c.eraseFrom fuel addr left size = some c' ∧ c'.Blank ∧
      c'.blocks = c.blocks ++ planFrom fuel addr.toNat n size.toNat := by
  induction fuel generalizing c addr left size n with
  | zero =>
    have hdone : ¬ left > 0 := by omega
    exact ⟨c, if_neg hdone, hblank, (List.append_nil _).symm⟩
  | succ fuel ih =>
    rw [Eraser.eraseFrom]
    by_cases hmore : left > 0
    · have hin := haddr (by omega)
      obtain ⟨hsize, hlen, hmode, bits, hbits⟩ := @eraseMode_eq size left n (by omega)
      have hstep := @eraseStep_toNat addr bits (eraseMode left size).1 hbits
      rw [hsize] at hstep
      have hcases := eraseSize_cases n size.toNat
      have hmod := Nat.mod_lt addr.toNat (eraseSize_pos n size.toNat)
      have hnext : (addr + eraseStep addr (eraseMode left size).1).toNat =
          addr.toNat + (eraseSize n size.toNat - addr.toNat % eraseSize n size.toNat) := by
        rw [UInt32.toNat_add, hstep]
        omega
      rw [if_pos hmore, planFrom, if_pos (by omega)]
      dsimp only
      rw [spiFlashEarse_eq c hmode (by omega), hlen]
      obtain ⟨c', heq, hblank', hblocks⟩ :=
        @ih (addr + eraseStep addr (eraseMode left size).1) (eraseStep addr (eraseMode left size).1)
          (c.erase (blockOf (eraseSize n size.toNat) addr.toNat))
          (left - (eraseStep addr (eraseMode left size).1).toNat)
          (n - (eraseSize n size.toNat - addr.toNat % eraseSize n size.toNat))
          (by rw [hstep]; omega) (by omega) (by rw [hnext]; omega) (hblank.erase _)
      refine ⟨c', heq, hblank', ?_⟩
      rw [hblocks, hnext, hstep]
      exact List.append_assoc _ [_] _
    · have hzero : ¬ 0 < n := by omega
      rw [if_neg hmore, planFrom, if_neg hzero]
      exact ⟨c, rfl, hblank, (List.append_nil _).symm⟩

/-- `spi_flash_erase` ends and erases the blocks of its plan. -/
theorem spiFlashErase_eq (c : Chip) (h : addr.toNat + size.toNat ≤ 2 ^ 24) :
    ∃ c', (Eraser.mk c []).spiFlashErase addr size = some c' ∧ c'.Blank ∧
      c'.blocks = planFrom size.toNat addr.toNat size.toNat size.toNat := by
  have hsmall : 2 * size.toBitVec.toNat < 2 ^ 32 := by
    change 2 * size.toNat < 2 ^ 32
    omega
  have hint : size.toInt32.toInt = size.toNat := BitVec.toInt_eq_toNat_of_lt hsmall
  exact eraseFrom_eq (by rw [hint]; rfl) (Nat.le_refl _) (fun _ => h)
    fun b hb => absurd hb List.not_mem_nil

/-- The range is always erased; no more than its sectors are where the blocks fit. -/
theorem spi_flash_erase_iff_fit (c : Chip) (addr size : UInt32)
    (h : addr.toNat + size.toNat ≤ 2 ^ 24) :
    EraseRight c addr size ↔ BlocksFit addr.toNat size.toNat := by
  obtain ⟨c', heq, hblank, hblocks⟩ := spiFlashErase_eq c h
  have hcover (k : Nat) (hk : addr.toNat ≤ k) (hk' : k < addr.toNat + size.toNat) :
      (∃ b ∈ c'.blocks, b.Has k) ∧ c'.chip.cells k = 0xff := by
    obtain ⟨b, hb, hhas⟩ := @planFrom_covers _ _ _ size.toNat k (Nat.le_refl size.toNat) hk hk'
    rw [← hblocks] at hb
    exact ⟨⟨b, hb, hhas⟩, hblank b hb k hhas⟩
  have hinside : (∀ b ∈ c'.blocks, ∀ k, b.Has k → Touched addr.toNat size.toNat k) ↔
      BlocksFit addr.toNat size.toNat := by
    rw [hblocks]
    rcases Nat.eq_zero_or_pos size.toNat with hzero | hpos
    · rw [hzero, planFrom_zero]
      exact iff_of_true (fun b hb => absurd hb List.not_mem_nil) (.inl (Nat.zero_le _))
    · rw [planFrom_touched hpos, planFrom_fits (Nat.le_refl _) hpos]
  rw [← hinside]
  constructor
  · rintro ⟨c'', heq', -, htouched⟩
    rw [heq] at heq'
    rw [Option.some.inj heq']
    exact htouched
  · intro htouched
    exact ⟨c', heq, hcover, htouched⟩

def zeroChip : Chip := ⟨fun _ => 0, false, 2, [3]⟩

theorem spi_flash_erase_iff_fit_sector : EraseRight zeroChip 4096 4096 :=
  (spi_flash_erase_iff_fit zeroChip 4096 4096 (by decide)).mpr (.inl (by decide))

/-- An erase of two sectors takes the 32 KB that they are in. -/
theorem spi_flash_erase_two_sectors : ¬ EraseRight zeroChip 0 8192 := by
  rintro ⟨c', heq, -, htouched⟩
  obtain ⟨c'', heq', -, hblocks⟩ := @spiFlashErase_eq 0 8192 zeroChip (by decide)
  rw [heq] at heq'
  obtain ⟨fuel', -, hplan⟩ := @planFrom_succ 8192 0 8192 8192 (by decide) (Nat.le_refl _)
  have hfirst : blockOf 32768 0 ∈ c'.blocks := by
    rw [Option.some.inj heq', hblocks]
    change blockOf 32768 0 ∈ planFrom 8192 0 8192 8192
    rw [hplan]
    exact List.mem_cons_self
  obtain ⟨j, -, hj, hsector⟩ := htouched _ hfirst 8192 ⟨by decide, by decide⟩
  have hrange : j < 8192 := hj
  omega

end Driver

end BdkRtt.Flash.SpiFlash
