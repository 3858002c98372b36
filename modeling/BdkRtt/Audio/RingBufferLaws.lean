import BdkRtt.Lib.Ring
import BdkRtt.Lib.Fifo
import BdkRtt.Audio.RingBuffer
import BdkRtt.Lib.Words

namespace BdkRtt.Audio

open Lib

/-- The bytes between `rp` and `wp`, oldest first. -/
def RbSt.unread (rb : RbSt) : List UInt8 :=
  rb.address.window rb.capacity.toNat rb.rp.toNat rb.wp.toNat

/-- What every call keeps.  `rp` may rest at the capacity, where it stands for zero; `wp`
does not, and the four-byte gap keeps a full buffer apart from an empty one. -/
structure RbSt.Wf (rb : RbSt) : Prop where
  rp_le : rb.rp.toNat ≤ rb.capacity.toNat
  wp_lt : rb.wp.toNat < rb.capacity.toNat ∨ rb.wp.toNat = 0
  gap : rb.unread.length + 4 ≤ rb.capacity.toNat ∨ rb.unread = []

theorem RbSt.Wf.wp_le {rb : RbSt} (hw : rb.Wf) : rb.wp.toNat ≤ rb.capacity.toNat := by
  have := hw.wp_lt
  omega

theorem rbInit_wf (addr : Mem UInt8) (capacity : UInt32) : (rbInit addr capacity).Wf where
  rp_le := by simp [rbInit]
  wp_lt := by simp [rbInit]
  gap := by simp [rbInit, RbSt.unread]

@[simp] theorem rbInit_unread (addr : Mem UInt8) (capacity : UInt32) :
    (rbInit addr capacity).unread = [] := by
  simp [rbInit, RbSt.unread]

@[simp] theorem rbClear_unread (rb : RbSt) : (rbClear rb).unread = [] := by
  simp [rbClear, RbSt.unread]

theorem rbClear_wf (rb : RbSt) : (rbClear rb).Wf where
  rp_le := by simp [rbClear]
  wp_lt := by simp [rbClear]
  gap := by simp

/-- The gap is taken off a free size, down to zero. -/
theorem sub_safeInterval_toNat (n : UInt32) :
    (if n > rwpSafeInterval then n - rwpSafeInterval else 0).toNat = n.toNat - 4 := by
  split
  case isTrue h =>
    rw [UInt32.toNat_sub_of_le _ _ (UInt32.le_of_lt h)]
    rfl
  case isFalse h =>
    have hle : n.toNat ≤ 4 := UInt32.not_lt.mp h
    rw [UInt32.toNat_zero, Nat.sub_eq_zero_of_le hle]

section Sizes

variable {rb : RbSt}

theorem unread_length_of_le (h : rb.rp ≤ rb.wp) :
    rb.unread.length = rb.wp.toNat - rb.rp.toNat :=
  Mem.length_window_of_le _ h

theorem unread_length_of_lt (h : rb.wp < rb.rp) :
    rb.unread.length = rb.capacity.toNat - rb.rp.toNat + rb.wp.toNat :=
  Mem.length_window_of_lt _ h

theorem rbGetFillSize_eq (hw : rb.Wf) : (rbGetFillSize rb).toNat = rb.unread.length := by
  have hrp := hw.rp_le
  unfold rbGetFillSize
  split
  case isTrue h =>
    rw [unread_length_of_le h, UInt32.toNat_sub_of_le _ _ h]
  case isFalse h =>
    have hlt : rb.wp < rb.rp := UInt32.not_le.mp h
    rw [unread_length_of_lt hlt, UInt32.toNat_add, UInt32.toNat_sub_of_le _ _ hrp]
    have := rb.capacity.toNat_lt
    have : rb.wp.toNat < rb.rp.toNat := hlt
    omega

theorem rbGetFreeSize_eq (hw : rb.Wf) :
    (rbGetFreeSize rb).toNat = rb.capacity.toNat - 4 - rb.unread.length := by
  have hrp := hw.rp_le
  have hwp := hw.wp_le
  have hcap := rb.capacity.toNat_lt
  have hfree : (if rb.wp ≥ rb.rp then rb.capacity - rb.wp + rb.rp else rb.rp - rb.wp).toNat =
      rb.capacity.toNat - rb.unread.length := by
    split
    case isTrue h =>
      have hle : rb.rp.toNat ≤ rb.wp.toNat := h
      rw [unread_length_of_le h, UInt32.toNat_add, UInt32.toNat_sub_of_le _ _ hwp]
      omega
    case isFalse h =>
      have hlt : rb.wp < rb.rp := UInt32.not_le.mp h
      have hlt' : rb.wp.toNat < rb.rp.toNat := hlt
      rw [unread_length_of_lt hlt, UInt32.toNat_sub_of_le _ _ (UInt32.le_of_lt hlt)]
      omega
  rw [rbGetFreeSize, sub_safeInterval_toNat, hfree, Nat.sub_right_comm]

end Sizes

section Write

variable {rb : RbSt} {n : UInt32} (buffer : Mem UInt8)

/-- The space test of `rb_write` does not wrap when the request leaves room for the gap. -/
theorem add_safeInterval_toNat {n : UInt32} (hn : n.toNat + 4 < 2 ^ 32) :
    (n + rwpSafeInterval).toNat = n.toNat + 4 :=
  toNat_add_of_lt hn

theorem remain_above_toNat (hw : rb.Wf) (h : rb.rp ≤ rb.wp) :
    (rb.capacity - rb.wp + rb.rp).toNat = rb.capacity.toNat - rb.unread.length := by
  have hwp := hw.wp_le
  have hcap := rb.capacity.toNat_lt
  have hle : rb.rp.toNat ≤ rb.wp.toNat := h
  rw [unread_length_of_le h, UInt32.toNat_add, UInt32.toNat_sub_of_le _ _ hwp]
  omega

theorem remain_below_toNat (hw : rb.Wf) (h : rb.wp < rb.rp) :
    (rb.rp - rb.wp).toNat = rb.capacity.toNat - rb.unread.length := by
  have hrp := hw.rp_le
  have hlt : rb.wp.toNat < rb.rp.toNat := h
  rw [unread_length_of_lt h, UInt32.toNat_sub_of_le _ _ (UInt32.le_of_lt h)]
  omega

theorem rbStore_refused (hw : rb.Wf) (hn : n.toNat + 4 < 2 ^ 32)
    (hroom : rb.capacity.toNat < rb.unread.length + n.toNat + 4) :
    rbStore rb buffer n = none := by
  unfold rbStore
  simp only
  split
  case isTrue h =>
    refine if_neg ?_
    rw [ge_iff_le, UInt32.le_iff_toNat_le, add_safeInterval_toNat hn, remain_above_toNat hw h]
    omega
  case isFalse h =>
    refine if_neg ?_
    rw [ge_iff_le, UInt32.le_iff_toNat_le, add_safeInterval_toNat hn,
      remain_below_toNat hw (UInt32.not_le.mp h)]
    omega

/-- The copy between `wp` and the end of the buffer. -/
theorem window_store_above (h : rb.rp ≤ rb.wp) (hwp : rb.wp.toNat ≤ rb.capacity.toNat)
    (hfit : n.toNat ≤ rb.capacity.toNat - rb.wp.toNat) :
    (rb.address.write rb.wp.toNat (buffer.read 0 n.toNat)).window rb.capacity.toNat
      rb.rp.toNat (rb.wp + n).toNat = rb.unread ++ buffer.read 0 n.toNat := by
  have hcap := rb.capacity.toNat_lt
  have hadd : (rb.wp + n).toNat = rb.wp.toNat + n.toNat :=
    toNat_add_of_lt (by omega)
  have hle : rb.rp.toNat ≤ rb.wp.toNat := h
  have := Mem.window_write_above (m := rb.address) rb.capacity.toNat (buffer.read 0 n.toNat) hle
  rwa [Mem.length_read, ← hadd] at this

theorem read_split {k n : UInt32} (h : k ≤ n) :
    buffer.read 0 n.toNat = buffer.read 0 k.toNat ++ buffer.read k.toNat (n - k).toNat := by
  have hle : k.toNat ≤ n.toNat := h
  have hsplit := buffer.read_add 0 k.toNat (n.toNat - k.toNat)
  rwa [Nat.zero_add, Nat.add_sub_cancel' hle, ← UInt32.toNat_sub_of_le _ _ h] at hsplit

/-- The two copies of a write that goes on at the start of the buffer. -/
theorem window_store_around (hw : rb.Wf) (h : rb.rp ≤ rb.wp)
    (hfit : rb.capacity - rb.wp < n)
    (hroom : rb.unread.length + n.toNat + 4 ≤ rb.capacity.toNat) :
    ((rb.address.write rb.wp.toNat (buffer.read 0 (rb.capacity - rb.wp).toNat)).write 0
      (buffer.read (rb.capacity - rb.wp).toNat (n - (rb.capacity - rb.wp)).toNat)).window
      rb.capacity.toNat rb.rp.toNat (n - (rb.capacity - rb.wp)).toNat =
    rb.unread ++ buffer.read 0 n.toNat := by
  have hwp := hw.wp_le
  have hremain : (rb.capacity - rb.wp).toNat = rb.capacity.toNat - rb.wp.toNat :=
    UInt32.toNat_sub_of_le _ _ hwp
  have hfit' : (rb.capacity - rb.wp).toNat < n.toNat := hfit
  have hsub : (n - (rb.capacity - rb.wp)).toNat = n.toNat - (rb.capacity - rb.wp).toNat :=
    UInt32.toNat_sub_of_le _ _ (UInt32.le_of_lt hfit)
  rw [unread_length_of_le h] at hroom
  have hle : rb.rp.toNat ≤ rb.wp.toNat := h
  have := Mem.window_write_around (m := rb.address)
    (buffer.read 0 (rb.capacity - rb.wp).toNat)
    (buffer.read (rb.capacity - rb.wp).toNat (n - (rb.capacity - rb.wp)).toNat) hle
    (show rb.wp.toNat + _ = rb.capacity.toNat by rw [Mem.length_read]; omega)
    (by rw [Mem.length_read]; omega)
  rw [Mem.length_read] at this
  rw [this, read_split buffer (UInt32.le_of_lt hfit), RbSt.unread]

/-- The copy into the gap below `rp`. -/
theorem window_store_below (hfit : rb.wp.toNat + n.toNat < rb.rp.toNat) :
    (rb.address.write rb.wp.toNat (buffer.read 0 n.toNat)).window rb.capacity.toNat
      rb.rp.toNat (rb.wp + n).toNat = rb.unread ++ buffer.read 0 n.toNat := by
  have hrp := rb.rp.toNat_lt
  have hadd : (rb.wp + n).toNat = rb.wp.toNat + n.toNat :=
    toNat_add_of_lt (by omega)
  have := Mem.window_write_below (m := rb.address) rb.capacity.toNat (buffer.read 0 n.toNat)
    (show rb.wp.toNat + _ < rb.rp.toNat by rw [Mem.length_read]; exact hfit)
  rwa [Mem.length_read, ← hadd] at this

/-- Where the copies of an accepted write leave `wp`, and what lies in front of it then. -/
theorem rbStore_accepted (hw : rb.Wf) (hn : n.toNat + 4 < 2 ^ 32)
    (hroom : rb.unread.length + n.toNat + 4 ≤ rb.capacity.toNat) :
    ∃ address wp, rbStore rb buffer n = some { rb with address := address, wp := wp } ∧
      address.window rb.capacity.toNat rb.rp.toNat wp.toNat =
        rb.unread ++ buffer.read 0 n.toNat ∧
      wp.toNat ≤ rb.capacity.toNat := by
  have hwp := hw.wp_le
  have hrp := hw.rp_le
  have hcap := rb.capacity.toNat_lt
  unfold rbStore
  simp only
  split
  case isTrue h =>
    have hle : rb.rp.toNat ≤ rb.wp.toNat := h
    have hremain : (rb.capacity - rb.wp).toNat = rb.capacity.toNat - rb.wp.toNat :=
      UInt32.toNat_sub_of_le _ _ hwp
    rw [if_pos (by
      rw [ge_iff_le, UInt32.le_iff_toNat_le, add_safeInterval_toNat hn, remain_above_toNat hw h]
      omega)]
    by_cases hfit : n ≤ rb.capacity - rb.wp
    · have hfit' : n.toNat ≤ rb.capacity.toNat - rb.wp.toNat := hremain ▸ hfit
      refine ⟨_, _, if_pos hfit, window_store_above buffer h hwp hfit', ?_⟩
      rw [UInt32.toNat_add]
      omega
    · have hfit' : rb.capacity - rb.wp < n := UInt32.not_le.mp hfit
      refine ⟨_, _, if_neg hfit, window_store_around buffer hw h hfit' hroom, ?_⟩
      rw [UInt32.toNat_sub_of_le _ _ (UInt32.le_of_lt hfit'), hremain]
      omega
  case isFalse h =>
    have hlt : rb.wp < rb.rp := UInt32.not_le.mp h
    have hlt' : rb.wp.toNat < rb.rp.toNat := hlt
    rw [if_pos (by
      rw [ge_iff_le, UInt32.le_iff_toNat_le, add_safeInterval_toNat hn,
        remain_below_toNat hw hlt]
      omega)]
    rw [unread_length_of_lt hlt] at hroom
    refine ⟨_, _, rfl, window_store_below buffer (by omega), ?_⟩
    rw [UInt32.toNat_add]
    omega

/-- The end of `rb_write` moves a `wp` at the capacity to zero; nothing unread is lost. -/
theorem rbWrite_accepted {size count : UInt32} (hw : rb.Wf) (h₀ : size * count ≠ 0)
    (hn : (size * count).toNat + 4 < 2 ^ 32)
    (hroom : rb.unread.length + (size * count).toNat + 4 ≤ rb.capacity.toNat) :
    (rbWrite rb buffer size count).2 = size * count ∧
      (rbWrite rb buffer size count).1.capacity = rb.capacity ∧
      (rbWrite rb buffer size count).1.unread =
        rb.unread ++ buffer.read 0 (size * count).toNat ∧
      (rbWrite rb buffer size count).1.Wf := by
  have hrp := hw.rp_le
  obtain ⟨address, wp, hstore, hwin, hwp⟩ := rbStore_accepted buffer hw hn hroom
  have hlen : (address.window rb.capacity.toNat rb.rp.toNat wp.toNat).length + 4 ≤
      rb.capacity.toNat := by
    rw [hwin, List.length_append, Mem.length_read]
    omega
  simp only [rbWrite, if_neg h₀, hstore, ge_iff_le, UInt32.le_iff_toNat_le, ne_eq]
  split
  case isTrue h =>
    have hrp₀ : 0 < rb.rp.toNat := toNat_pos h.2
    rw [show wp.toNat = rb.capacity.toNat by omega, Mem.window_cap hrp₀ hrp] at hwin hlen
    exact ⟨trivial, rfl, hwin, hrp, .inr rfl, .inl hlen⟩
  case isFalse h =>
    refine ⟨trivial, rfl, hwin, hrp, ?_, .inl hlen⟩
    by_cases hrp₀ : rb.rp = 0
    · simp only [hrp₀, UInt32.toNat_zero] at hlen
      rw [Mem.length_window_of_le _ (Nat.zero_le _)] at hlen
      exact .inl (by simp; omega)
    · exact .inl (Nat.lt_of_not_le fun hle => h ⟨hle, hrp₀⟩)

theorem rbWrite_refused {size count : UInt32} (hw : rb.Wf)
    (hn : (size * count).toNat + 4 < 2 ^ 32)
    (hroom : rb.capacity.toNat < rb.unread.length + (size * count).toNat + 4) :
    rbWrite rb buffer size count = (rb, 0) := by
  unfold rbWrite
  simp only [rbStore_refused buffer hw hn hroom, ite_self]

end Write

section Read

variable {rb : RbSt} (size count : UInt32)

/-- What a read of `n` bytes hands over and leaves behind. -/
structure Reads (rb : RbSt) (n : Nat) (r : RbSt × RbRead) : Prop where
  bytes : r.2.bytes = rb.unread.take n
  ret : r.2.ret.toNat = r.2.bytes.length
  unread : r.1.unread = rb.unread.drop n
  wf : r.1.Wf
  capacity : r.1.capacity = rb.capacity

/-- What a read of `n` bytes hands over and where it leaves `rp`, for pointers that may both rest at
the capacity. -/
structure Takes (rb : RbSt) (n : Nat) (r : RbSt × RbRead) : Prop where
  bytes : r.2.bytes = rb.unread.take n
  ret : r.2.ret.toNat = r.2.bytes.length
  unread : r.1.unread = rb.unread.drop n
  rp_le : r.1.rp.toNat ≤ rb.capacity.toNat
  ahead : rb.rp ≤ rb.wp → rb.rp ≤ r.1.rp ∧ r.1.rp ≤ rb.wp
  same : r.1 = { rb with rp := r.1.rp }

theorem takes_of_window {n k : Nat} {rp : UInt32} {r : RbRead}
    (hk : k = min n rb.unread.length) (hrp : rp.toNat ≤ rb.capacity.toNat)
    (hahead : rb.rp ≤ rb.wp → rb.rp ≤ rp ∧ rp ≤ rb.wp)
    (hunread : rb.unread.drop k = ({ rb with rp := rp } : RbSt).unread)
    (hbytes : rb.unread.take k = r.bytes) (hret : r.ret.toNat = k) :
    Takes rb n ({ rb with rp := rp }, r) where
  bytes := by rw [← hbytes, hk, ← List.take_eq_take_min]
  ret := by
    rw [hret, ← hbytes, List.length_take]
    omega
  unread := by rw [← hunread, hk, ← List.drop_eq_drop_min]
  rp_le := hrp
  ahead := hahead
  same := rfl

theorem rbRead_above {size count : UInt32} (hwp : rb.wp.toNat ≤ rb.capacity.toNat)
    (h₀ : size * count ≠ 0) (h : rb.rp ≤ rb.wp) :
    Takes rb (size * count).toNat (rbRead rb size count) := by
  have hcap := rb.capacity.toNat_lt
  have hle : rb.rp.toNat ≤ rb.wp.toNat := h
  have hlen := unread_length_of_le h
  have hremain : (rb.wp - rb.rp).toNat = rb.wp.toNat - rb.rp.toNat :=
    UInt32.toNat_sub_of_le _ _ h
  simp only [rbRead, if_neg h₀, if_pos h]
  generalize hk : (if size * count > rb.wp - rb.rp then rb.wp - rb.rp else size * count) = k
  have hk' : k.toNat = min (size * count).toNat rb.unread.length := by
    rw [← hk, hlen]
    split
    case isTrue hgt =>
      have : (rb.wp - rb.rp).toNat < (size * count).toNat := hgt
      omega
    case isFalse hle' =>
      have : (size * count).toNat ≤ (rb.wp - rb.rp).toNat := UInt32.not_lt.mp hle'
      omega
  have hadd : (rb.rp + k).toNat = rb.rp.toNat + k.toNat :=
    toNat_add_of_lt (by omega)
  refine takes_of_window hk' (by omega) (fun _ => ⟨?_, ?_⟩) ?_ (Mem.take_window_of_le _ (by omega))
    rfl
  · rw [UInt32.le_iff_toNat_le]
    omega
  · rw [UInt32.le_iff_toNat_le]
    omega
  · rw [RbSt.unread, Mem.drop_window_of_le _ (by omega), ← hadd]
    rfl

theorem rbRead_tail {size count : UInt32} (hrp : rb.rp.toNat ≤ rb.capacity.toNat)
    (h₀ : size * count ≠ 0) (h : rb.wp < rb.rp) (hfit : size * count ≤ rb.capacity - rb.rp) :
    Takes rb (size * count).toNat (rbRead rb size count) := by
  have hcap := rb.capacity.toNat_lt
  have hlt : rb.wp.toNat < rb.rp.toNat := h
  have hlen := unread_length_of_lt h
  have hfit' : (size * count).toNat ≤ rb.capacity.toNat - rb.rp.toNat :=
    UInt32.toNat_sub_of_le _ _ hrp ▸ hfit
  have hadd : (rb.rp + size * count).toNat = rb.rp.toNat + (size * count).toNat :=
    toNat_add_of_lt (by omega)
  simp only [rbRead, if_neg h₀, if_neg (UInt32.not_le.mpr h), if_neg (UInt32.not_lt.mpr hfit)]
  refine takes_of_window (by omega) (by omega) (fun hle => absurd hle (UInt32.not_le.mpr h)) ?_
    (Mem.take_window_of_lt hlt (by omega)) rfl
  rw [RbSt.unread, Mem.drop_window_of_lt hlt (by omega), ← hadd]
  rfl

theorem rbRead_around {size count : UInt32} (hrp : rb.rp.toNat ≤ rb.capacity.toNat)
    (h₀ : size * count ≠ 0) (h : rb.wp < rb.rp) (hfit : rb.capacity - rb.rp < size * count) :
    Takes rb (size * count).toNat (rbRead rb size count) := by
  have hcap := rb.capacity.toNat_lt
  have hlt : rb.wp.toNat < rb.rp.toNat := h
  have hbelow : rb.rp ≤ rb.wp → rb.rp ≤ rb.wp ∧ rb.wp ≤ rb.wp := fun hle =>
    absurd hle (UInt32.not_le.mpr h)
  have hlen := unread_length_of_lt h
  have hremain : (rb.capacity - rb.rp).toNat = rb.capacity.toNat - rb.rp.toNat :=
    UInt32.toNat_sub_of_le _ _ hrp
  have hfit' : (rb.capacity - rb.rp).toNat < (size * count).toNat := hfit
  have hrest : (size * count - (rb.capacity - rb.rp)).toNat =
      (size * count).toNat - (rb.capacity.toNat - rb.rp.toNat) := by
    rw [UInt32.toNat_sub_of_le _ _ (UInt32.le_of_lt hfit), hremain]
  simp only [rbRead, if_neg h₀, if_neg (UInt32.not_le.mpr h), if_pos hfit, hremain]
  split
  case isTrue hgt =>
    have hgt' : rb.wp.toNat < (size * count).toNat - (rb.capacity.toNat - rb.rp.toNat) :=
      hrest ▸ hgt
    refine takes_of_window (k := rb.capacity.toNat - rb.rp.toNat + rb.wp.toNat) (by omega)
      (by omega) hbelow (Mem.drop_window_around _ hlt le_rfl) (Mem.take_window_around _ hlt le_rfl)
      ?_
    rw [UInt32.toNat_add, hremain]
    omega
  case isFalse hle =>
    have hle' : (size * count).toNat - (rb.capacity.toNat - rb.rp.toNat) ≤ rb.wp.toNat :=
      hrest ▸ UInt32.not_lt.mp hle
    have hsum : (size * count).toNat = rb.capacity.toNat - rb.rp.toNat +
        (size * count - (rb.capacity - rb.rp)).toNat := by omega
    have hwrap : (size * count - (rb.capacity - rb.rp)).toNat ≤ rb.wp.toNat := by omega
    refine takes_of_window (k := rb.capacity.toNat - rb.rp.toNat +
        (size * count - (rb.capacity - rb.rp)).toNat) (by omega) (by omega)
      (fun hle => absurd hle (UInt32.not_le.mpr h)) (Mem.drop_window_around _ hlt hwrap)
      (Mem.take_window_around _ hlt hwrap) hsum

theorem rbRead_takes (hrp : rb.rp.toNat ≤ rb.capacity.toNat)
    (hwp : rb.wp.toNat ≤ rb.capacity.toNat) :
    Takes rb (size * count).toNat (rbRead rb size count) := by
  by_cases h₀ : size * count = 0
  · have hnone : rbRead rb size count = ({ rb with rp := rb.rp }, ⟨[], 0⟩) := by
      simp only [rbRead, if_pos h₀]
    rw [hnone, h₀]
    exact takes_of_window (k := 0) (by simp) hrp (fun h => ⟨UInt32.le_refl _, h⟩) rfl rfl rfl
  · by_cases h : rb.rp ≤ rb.wp
    · exact rbRead_above hwp h₀ h
    · have hlt : rb.wp < rb.rp := UInt32.not_le.mp h
      by_cases hfit : size * count ≤ rb.capacity - rb.rp
      · exact rbRead_tail hrp h₀ hlt hfit
      · exact rbRead_around hrp h₀ hlt (UInt32.not_le.mp hfit)

/-- A read keeps the pointers in place. -/
theorem Takes.wf {n : Nat} {r : RbSt × RbRead} (h : Takes rb n r) (hw : rb.Wf) : r.1.Wf := by
  have hcapacity : r.1.capacity = rb.capacity := by rw [h.same]
  have hwp : r.1.wp = rb.wp := by rw [h.same]
  refine ⟨hcapacity ▸ h.rp_le, by rw [hwp, hcapacity]; exact hw.wp_lt, ?_⟩
  rw [h.unread, hcapacity]
  rcases hw.gap with hgap | hnil
  · exact .inl (by rw [List.length_drop]; exact le_trans (by omega) hgap)
  · exact .inr (by rw [hnil, List.drop_nil])

theorem rbRead_reads (hw : rb.Wf) :
    Reads rb (size * count).toNat (rbRead rb size count) := by
  have h := rbRead_takes size count hw.rp_le hw.wp_le
  exact ⟨h.bytes, h.ret, h.unread, h.wf hw, by rw [h.same]⟩

end Read

section Refinement

/-- The calls whose byte count leaves room for the gap in 32 bits. -/
def Fits : RbCall → Prop
  | .write _ size count => size.toNat * count.toNat + 4 ≤ 2 ^ 32 - 1
  | .read size count => size.toNat * count.toNat + 4 ≤ 2 ^ 32 - 1
  | _ => True

def RbCall.toFifo : RbCall → Fifo.Call UInt8
  | .write buffer size count => .push (buffer.read 0 (size.toNat * count.toNat))
  | .read size count => .pop (size.toNat * count.toNat)
  | .clear => .clear
  | .getFillSize => .fill
  | .getFreeSize => .free

def RbAnswer.toFifo : RbAnswer → Fifo.Answer UInt8
  | .write ret => .pushed ret.toNat
  | .read r => .popped r.bytes
  | .clear => .cleared
  | .size n => .size n.toNat

/-- The same history in the words of a bounded queue. -/
def asFifo (h : Machine.History RbCall RbAnswer) : Fifo.History UInt8 :=
  h.map (Prod.map RbCall.toFifo RbAnswer.toFifo)

theorem mul_toNat_of_fits {size count : UInt32} (h : size.toNat * count.toNat + 4 ≤ 2 ^ 32 - 1) :
    (size * count).toNat = size.toNat * count.toNat :=
  toNat_mul_of_lt (by omega)

/-- The buffer `rb` holds the queue `q`. -/
structure Holds (capacity : UInt32) (rb : RbSt) (q : List UInt8) : Prop where
  wf : rb.Wf
  unread : rb.unread = q
  capacity_eq : rb.capacity = capacity

theorem rbWrite_holds {capacity : UInt32} {rb : RbSt} {q : List UInt8}
    {buffer : Mem UInt8} {size count : UInt32} (hR : Holds capacity rb q)
    (hfit : size.toNat * count.toNat + 4 ≤ 2 ^ 32 - 1) :
    ∃ q', Fifo.step (capacity.toNat - 4) q (.push (buffer.read 0 (size.toNat * count.toNat))) =
        (q', .pushed (rbWrite rb buffer size count).2.toNat) ∧
      Holds capacity (rbWrite rb buffer size count).1 q' := by
  obtain ⟨hw, rfl, rfl⟩ := hR
  have hmul := mul_toNat_of_fits hfit
  rw [← hmul] at hfit ⊢
  simp only [Fifo.step, Mem.length_read]
  by_cases h₀ : size * count = 0
  · have hret : rbWrite rb buffer size count = (rb, 0) := if_pos h₀
    refine ⟨rb.unread, ?_, by rw [hret]; exact ⟨hw, rfl, rfl⟩⟩
    rw [hret, h₀]
    simp
  · split
    case isTrue hroom =>
      have hpos := toNat_pos h₀
      obtain ⟨hret, hcap, hunread, hw'⟩ :=
        rbWrite_accepted buffer hw h₀ (by omega) (by omega)
      exact ⟨_, by rw [hret], hw', hunread, hcap⟩
    case isFalse hroom =>
      have hret := rbWrite_refused buffer hw (show (size * count).toNat + 4 < _ by omega) (by omega)
      exact ⟨_, by rw [hret]; rfl, by rw [hret]; exact ⟨hw, rfl, rfl⟩⟩

theorem rbStep_holds {capacity : UInt32} {rb : RbSt} {q : List UInt8} {c : RbCall}
    (hR : Holds capacity rb q) (hfit : Fits c) :
    ∃ q', Fifo.step (capacity.toNat - 4) q c.toFifo = (q', (rbStep rb c).2.toFifo) ∧
      Holds capacity (rbStep rb c).1 q' := by
  cases c with
  | write buffer size count => exact rbWrite_holds hR hfit
  | read size count =>
    obtain ⟨hw, rfl, rfl⟩ := hR
    have hread := rbRead_reads size count hw
    rw [mul_toNat_of_fits hfit] at hread
    exact ⟨_, by simp [Fifo.step, RbCall.toFifo, rbStep, RbAnswer.toFifo, hread.bytes],
      hread.wf, hread.unread, hread.capacity⟩
  | clear => exact ⟨[], rfl, rbClear_wf rb, rbClear_unread rb, hR.capacity_eq⟩
  | getFillSize =>
    refine ⟨q, ?_, hR⟩
    simp [Fifo.step, RbCall.toFifo, rbStep, RbAnswer.toFifo, rbGetFillSize_eq hR.wf, hR.unread]
  | getFreeSize =>
    refine ⟨q, ?_, hR⟩
    simp [Fifo.step, RbCall.toFifo, rbStep, RbAnswer.toFifo, rbGetFreeSize_eq hR.wf, hR.unread,
      hR.capacity_eq]

variable {addr : Mem UInt8} {capacity : UInt32}

/-- Every run of calls on the buffer is a run of the bounded queue with the same answers. -/
theorem ringBuffer_refines {h : Machine.History RbCall RbAnswer} {rb : RbSt}
    (hr : (ringBuffer addr capacity).ReachesUnder (fun _ c => Fits c) h rb) :
    (Fifo.machine UInt8 (capacity.toNat - 4)).Reaches (asFifo h) rb.unread ∧
      Holds capacity rb rb.unread := by
  obtain ⟨q, hq, hR⟩ := hr.simulates (A := Fifo.machine UInt8 (capacity.toNat - 4))
    (Prod.map RbCall.toFifo RbAnswer.toFifo) (Holds capacity)
    ⟨rbInit_wf addr capacity, rbInit_unread addr capacity, rfl⟩ (by
      intro rb q c rb' a hR hfit hs
      simp only [ringBuffer, Option.some.injEq] at hs
      obtain ⟨q', hstep, hR'⟩ := rbStep_holds hR hfit
      rw [hs] at hstep hR'
      exact ⟨q', congrArg some hstep, hR'⟩)
  obtain rfl := hR.unread
  exact ⟨hq, hR⟩

/-- `rb_init`, `rb_write`, `rb_read` and `rb_clear` are a bounded queue of bytes. -/
theorem ringBuffer_is_fifo {h : Machine.History RbCall RbAnswer} {rb : RbSt}
    (hr : (ringBuffer addr capacity).ReachesUnder (fun _ c => Fits c) h rb) :
    (Fifo.machine UInt8 (capacity.toNat - 4)).Reaches (asFifo h) rb.unread ∧
    Fifo.accepted (Fifo.sinceClear (asFifo h)) =
      Fifo.delivered (Fifo.sinceClear (asFifo h)) ++ rb.unread ∧
    (rbGetFillSize rb).toNat = rb.unread.length ∧
    (4 ≤ capacity →
      (rbGetFillSize rb).toNat + (rbGetFreeSize rb).toNat = capacity.toNat - 4) ∧
    (rb.wp ≤ capacity ∧ rb.rp ≤ capacity ∧ (rb.wp = capacity → capacity = 0) ∧
      (rb.wp = rb.rp → rb.unread = [])) ∧
    (∀ buffer size count, Fits (.write buffer size count) →
      if size.toNat * count.toNat ≤ (rbGetFreeSize rb).toNat then
        (rbWrite rb buffer size count).2.toNat = size.toNat * count.toNat ∧
        (rbWrite rb buffer size count).1.unread =
          rb.unread ++ buffer.read 0 (size.toNat * count.toNat)
      else rbWrite rb buffer size count = (rb, 0)) ∧
    (∀ size count, Fits (.read size count) →
      (rbRead rb size count).2.ret.toNat =
        min (size.toNat * count.toNat) (rbGetFillSize rb).toNat ∧
      (rbRead rb size count).2.bytes = rb.unread.take (size.toNat * count.toNat) ∧
      (rbRead rb size count).1.unread = rb.unread.drop (size.toNat * count.toNat)) := by
  obtain ⟨hq, hR⟩ := ringBuffer_refines hr
  obtain ⟨hw, -, hcap⟩ := hR
  have hfill := rbGetFillSize_eq hw
  have hfree := rbGetFreeSize_eq hw
  have hroom := Fifo.length_le_room hq
  refine ⟨hq, Fifo.conservation hq, hfill, ?_, ⟨?_, ?_, ?_, ?_⟩, ?_, ?_⟩
  · intro h4
    rw [hfill, hfree, hcap]
    have : 4 ≤ capacity.toNat := h4
    omega
  · exact hcap ▸ hw.wp_le
  · exact hcap ▸ hw.rp_le
  · intro heq
    rcases hw.wp_lt with hlt | h0
    · rw [hcap, heq] at hlt
      omega
    · exact UInt32.toNat_inj.mp (heq ▸ h0)
  · intro heq
    rw [RbSt.unread, heq, Mem.window_self]
  · intro buffer size count hfit
    have hmul := mul_toNat_of_fits hfit
    simp only [Fits, ← hmul] at hfit
    rw [← hmul, hfree]
    split
    case isTrue hle =>
      by_cases h₀ : size * count = 0
      · rw [show rbWrite rb buffer size count = (rb, 0) from if_pos h₀, h₀]
        simp
      · have hpos := toNat_pos h₀
        obtain ⟨hret, -, hunread, -⟩ :=
          rbWrite_accepted buffer hw h₀ (by omega) (by omega)
        exact ⟨by rw [hret], hunread⟩
    case isFalse hlt => exact rbWrite_refused buffer hw (by omega) (by omega)
  · intro size count hfit
    have hread := rbRead_reads size count hw
    rw [mul_toNat_of_fits hfit] at hread
    refine ⟨?_, hread.bytes, hread.unread⟩
    rw [hread.ret, hread.bytes, List.length_take, hfill]

theorem ringBuffer_is_fifo_after_write :
    let bytes : Mem UInt8 := fun i => UInt8.ofNat i
    let rb := (rbWrite (rbInit (fun _ => 0) 8) bytes 1 3).1
    (rbRead rb 1 2).2.bytes = rb.unread.take 2 ∧ (rbRead rb 1 2).1.unread = rb.unread.drop 2 := by
  intro bytes rb
  have hr : (ringBuffer (fun _ => 0) 8).ReachesUnder (fun _ c => Fits c)
      [(.write bytes 1 3, .write 3)] rb := .step .init (by simp [Fits]) rfl
  exact ((ringBuffer_is_fifo hr).2.2.2.2.2.2 1 2 (by simp [Fits])).2

end Refinement

end BdkRtt.Audio
