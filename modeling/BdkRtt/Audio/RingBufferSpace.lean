import BdkRtt.Audio.RingBufferLaws

namespace BdkRtt.Audio

open Lib

section Copies

/-- The ranges of `address` that the copies of `rb_write` go to, by first offset and number. -/
def rbCopies (rb : RbSt) (writeBytes : UInt32) : List (Nat × Nat) :=
  let rp := rb.rp
  if rp ≤ rb.wp then
    let remainBytes := rb.capacity - rb.wp + rp
    if remainBytes ≥ writeBytes + rwpSafeInterval then
      let remainBytes := rb.capacity - rb.wp
      if remainBytes ≥ writeBytes then [(rb.wp.toNat, writeBytes.toNat)]
      else [(rb.wp.toNat, remainBytes.toNat), (0, (writeBytes - remainBytes).toNat)]
    else []
  else
    let remainBytes := rp - rb.wp
    if remainBytes ≥ writeBytes + rwpSafeInterval then [(rb.wp.toNat, writeBytes.toNat)] else []

def rbWriteCopies (rb : RbSt) (size count : UInt32) : List (Nat × Nat) :=
  if size * count = 0 then [] else rbCopies rb (size * count)

/-- A write is turned down with nothing done, or copies into the buffer and returns the number of
bytes asked for; one too long for 32 bits, or for the space test in them, is turned down. -/
structure WriteSafe (rb : RbSt) (buffer : Mem UInt8) (size count : UInt32) : Prop where
  outcome : rbWrite rb buffer size count = (rb, 0) ∧ rbWriteCopies rb size count = [] ∨
    (∀ c ∈ rbWriteCopies rb size count, c.1 + c.2 ≤ rb.capacity.toNat) ∧
      (rbWrite rb buffer size count).2.toNat = size.toNat * count.toNat
  refused : 2 ^ 32 - 1 < size.toNat * count.toNat + 4 → rbWrite rb buffer size count = (rb, 0)

/-- Nothing is asked for in 32 bits, the space test does not wrap, or it turns the request down all
the same. -/
def WriteFits (rb : RbSt) (size count : UInt32) : Prop :=
  size * count = 0 ∨ size.toNat * count.toNat + 4 ≤ 2 ^ 32 - 1 ∨
    rb.capacity.toNat - (rbGetFillSize rb).toNat < (size * count + rwpSafeInterval).toNat

instance (rb : RbSt) (size count : UInt32) : Decidable (WriteFits rb size count) :=
  inferInstanceAs (Decidable (_ ∨ _ ∨ _))

/-- The sum of the space test does not wrap, or does not matter. -/
def SumFits (rb : RbSt) (n : UInt32) : Prop :=
  n = 0 ∨ n.toNat + 4 ≤ 2 ^ 32 - 1 ∨
    rb.capacity.toNat - (rbGetFillSize rb).toNat < (n + rwpSafeInterval).toNat

instance (rb : RbSt) (n : UInt32) : Decidable (SumFits rb n) :=
  inferInstanceAs (Decidable (_ ∨ _ ∨ _))

theorem WriteFits.sumFits {rb : RbSt} {size count : UInt32} (h : WriteFits rb size count) :
    SumFits rb (size * count) := by
  rcases h with h | h | h
  · exact .inl h
  · exact .inr (.inl (by rw [mul_toNat_of_fits h]; exact h))
  · exact .inr (.inr h)

def SumsFit (rb : RbSt) : RbCall → Prop
  | .write _ size count => SumFits rb (size * count)
  | _ => True

def WritesFit (rb : RbSt) : RbCall → Prop
  | .write _ size count => WriteFits rb size count
  | _ => True

end Copies

section Space

variable {rb : RbSt} {buffer : Mem UInt8} {size count n : UInt32}

theorem write_read_outside (m : Mem UInt8) {i j k len : Nat} (h : k < i ∨ i + len ≤ k) :
    m.write i (buffer.read j len) k = m k := by
  rcases h with h | h
  · exact m.write_apply_of_lt _ h
  · exact m.write_apply_of_ge (by rw [Mem.length_read]; exact h)

/-- Without any range the write is turned down, and what lies in none is left as it was. -/
theorem rbStore_copies : rbStore rb buffer n = none ∧ rbCopies rb n = [] ∨
    ∃ rb', rbStore rb buffer n = some rb' ∧ rbCopies rb n ≠ [] ∧
      ∀ k, (∀ c ∈ rbCopies rb n, k < c.1 ∨ c.1 + c.2 ≤ k) → rb'.address k = rb.address k := by
  have hone (k i len : Nat) (h : ∀ c ∈ [(i, len)], k < c.1 ∨ c.1 + c.2 ≤ k) :
      rb.address.write i (buffer.read 0 len) k = rb.address k :=
    write_read_outside _ (h (i, len) List.mem_cons_self)
  rw [rbStore, rbCopies]
  dsimp only
  by_cases habove : rb.rp ≤ rb.wp
  · rw [if_pos habove, if_pos habove]
    by_cases hspace : rb.capacity - rb.wp + rb.rp ≥ n + rwpSafeInterval
    · rw [if_pos hspace, if_pos hspace]
      by_cases hfit : rb.capacity - rb.wp ≥ n
      · rw [if_pos hfit, if_pos hfit]
        exact .inr ⟨_, rfl, List.cons_ne_nil _ _, fun k => hone k _ _⟩
      · rw [if_neg hfit, if_neg hfit]
        refine .inr ⟨_, rfl, List.cons_ne_nil _ _, fun k hk => ?_⟩
        have hhead := hk _ (List.mem_cons_of_mem _ List.mem_cons_self)
        exact (write_read_outside _ hhead).trans (write_read_outside _ (hk _ List.mem_cons_self))
    · rw [if_neg hspace, if_neg hspace]
      exact .inl ⟨rfl, rfl⟩
  · rw [if_neg habove, if_neg habove]
    by_cases hspace : rb.rp - rb.wp ≥ n + rwpSafeInterval
    · rw [if_pos hspace, if_pos hspace]
      exact .inr ⟨_, rfl, List.cons_ne_nil _ _, fun k => hone k _ _⟩
    · rw [if_neg hspace, if_neg hspace]
      exact .inl ⟨rfl, rfl⟩

theorem rbWrite_address {k : Nat}
    (hk : ∀ c ∈ rbWriteCopies rb size count, k < c.1 ∨ c.1 + c.2 ≤ k) :
    (rbWrite rb buffer size count).1.address k = rb.address k := by
  rw [rbWriteCopies] at hk
  rw [rbWrite]
  split
  next => rfl
  next h₀ =>
    rw [if_neg h₀] at hk
    rcases rbStore_copies with ⟨hstore, -⟩ | ⟨rb', hstore, -, hsame⟩
    · rw [hstore]
    · rw [hstore, ← hsame k hk]
      dsimp only
      split <;> rfl

/-- The space test in 32 bits, whether it wraps or not. -/
theorem rbCopies_eq_nil (hw : rb.Wf) : rbCopies rb n = [] ↔
    rb.capacity.toNat - rb.unread.length < (n + rwpSafeInterval).toNat := by
  have hnone {c : Prop} [Decidable c] {a : Nat × Nat} {as : List (Nat × Nat)} :
      (if c then a :: as else []) = [] ↔ ¬ c := by
    split
    next hc => exact iff_of_false (List.cons_ne_nil a as) (not_not.mpr hc)
    next hc => exact iff_of_true rfl hc
  rw [rbCopies]
  dsimp only
  by_cases habove : rb.rp ≤ rb.wp
  · rw [if_pos habove, ← remain_above_toNat hw habove]
    split
    next hspace =>
      have hle : (n + rwpSafeInterval).toNat ≤ (rb.capacity - rb.wp + rb.rp).toNat := hspace
      refine iff_of_false ?_ (Nat.not_lt.mpr hle)
      split <;> exact List.cons_ne_nil _ _
    next hspace => exact iff_of_true rfl (UInt32.not_le.mp hspace)
  · rw [if_neg habove, ← remain_below_toNat hw (UInt32.not_le.mp habove), hnone]
    exact UInt32.not_le

theorem rbCopies_inside (hw : rb.Wf) (hn : n.toNat + 4 < 2 ^ 32) :
    ∀ c ∈ rbCopies rb n, c.1 + c.2 ≤ rb.capacity.toNat := by
  have hwp := hw.wp_le
  have hrp := hw.rp_le
  have hremain : (rb.capacity - rb.wp).toNat = rb.capacity.toNat - rb.wp.toNat :=
    UInt32.toNat_sub_of_le _ _ hwp
  have hsum := add_safeInterval_toNat hn
  rw [rbCopies]
  dsimp only
  by_cases habove : rb.rp ≤ rb.wp
  · rw [if_pos habove]
    have hle : rb.rp.toNat ≤ rb.wp.toNat := habove
    have hfree := remain_above_toNat hw habove
    rw [unread_length_of_le habove] at hfree
    split
    next hspace =>
      have hspace' : (n + rwpSafeInterval).toNat ≤ (rb.capacity - rb.wp + rb.rp).toNat := hspace
      split
      next hfit =>
        have hfit' : n.toNat ≤ (rb.capacity - rb.wp).toNat := hfit
        intro c hc
        rw [List.mem_singleton.mp hc]
        dsimp only
        omega
      next hfit =>
        have hfit' : rb.capacity - rb.wp < n := UInt32.not_le.mp hfit
        have hsub := UInt32.toNat_sub_of_le _ _ (UInt32.le_of_lt hfit')
        intro c hc
        rcases List.mem_cons.mp hc with rfl | hc
        · dsimp only
          omega
        · rw [List.mem_singleton.mp hc]
          dsimp only
          omega
    next => exact fun c hc => absurd hc List.not_mem_nil
  · rw [if_neg habove]
    have hlt := UInt32.not_le.mp habove
    have hlt' : rb.wp.toNat < rb.rp.toNat := hlt
    have hfree := UInt32.toNat_sub_of_le _ _ (UInt32.le_of_lt hlt)
    split
    next hspace =>
      have hspace' : (n + rwpSafeInterval).toNat ≤ (rb.rp - rb.wp).toNat := hspace
      intro c hc
      rw [List.mem_singleton.mp hc]
      dsimp only
      omega
    next => exact fun c hc => absurd hc List.not_mem_nil

theorem rbWrite_of_copies_nil (buffer : Mem UInt8) (h : rbWriteCopies rb size count = []) :
    rbWrite rb buffer size count = (rb, 0) := by
  rw [rbWriteCopies] at h
  rw [rbWrite]
  split
  next => rfl
  next h₀ =>
    rw [if_neg h₀] at h
    rcases rbStore_copies with ⟨hstore, -⟩ | ⟨rb', -, hsome, -⟩
    · rw [hstore]
    · exact absurd h hsome

theorem rbWrite_of_copies (buffer : Mem UInt8) {c : Nat × Nat}
    (hc : c ∈ rbWriteCopies rb size count) :
    (rbWrite rb buffer size count).2 = size * count ∧ size * count ≠ 0 := by
  rw [rbWriteCopies] at hc
  split at hc
  next => exact absurd hc List.not_mem_nil
  next h₀ =>
    rw [rbWrite, if_neg h₀]
    rcases rbStore_copies with ⟨-, hnil⟩ | ⟨rb', hstore, -, -⟩
    · rw [hnil] at hc
      exact absurd hc List.not_mem_nil
    · rw [hstore]
      exact ⟨rfl, h₀⟩

/-- A request that fits is carried out as the claim has it, or turned down. -/
theorem writeSafe_of_fits (hw : rb.Wf) (h : WriteFits rb size count) :
    WriteSafe rb buffer size count := by
  by_cases hnil : rbWriteCopies rb size count = []
  · have hrefused := rbWrite_of_copies_nil buffer hnil
    exact ⟨.inl ⟨hrefused, hnil⟩, fun _ => hrefused⟩
  · obtain ⟨c, hc⟩ := List.exists_mem_of_ne_nil _ hnil
    obtain ⟨hret, h₀⟩ := rbWrite_of_copies buffer hc
    have hcopies : rbWriteCopies rb size count = rbCopies rb (size * count) := if_neg h₀
    have hsum : size.toNat * count.toNat + 4 ≤ 2 ^ 32 - 1 := by
      rcases h with h | h | h
      · exact absurd h h₀
      · exact h
      · rw [rbGetFillSize_eq hw] at h
        exact absurd (hcopies.trans ((rbCopies_eq_nil hw).mpr h)) hnil
    have hmul := mul_toNat_of_fits hsum
    refine ⟨.inr ⟨?_, by rw [hret, hmul]⟩, fun hlong => absurd hlong (Nat.not_lt.mpr hsum)⟩
    rw [hcopies]
    exact rbCopies_inside hw (by omega)

/-- A request that does not fit passes the space test, and is not turned down. -/
theorem fits_of_writeSafe (hw : rb.Wf) (h : WriteSafe rb buffer size count) :
    WriteFits rb size count := by
  by_contra hnot
  simp only [WriteFits, not_or, Nat.not_le, Nat.not_lt, rbGetFillSize_eq hw] at hnot
  obtain ⟨h₀, hlong, hspace⟩ := hnot
  have hsome : rbWriteCopies rb size count ≠ [] := by
    rw [rbWriteCopies, if_neg h₀, Ne, rbCopies_eq_nil hw]
    exact Nat.not_lt.mpr hspace
  obtain ⟨c, hc⟩ := List.exists_mem_of_ne_nil _ hsome
  obtain ⟨hret, -⟩ := rbWrite_of_copies buffer hc
  rw [h.refused hlong] at hret
  exact h₀ hret.symm

end Space

section Run

variable {addr : Mem UInt8} {capacity : UInt32} {h : Machine.History RbCall RbAnswer} {rb : RbSt}

theorem rbWrite_wf {buffer : Mem UInt8} {size count : UInt32} (hw : rb.Wf)
    (hfit : SumFits rb (size * count)) : (rbWrite rb buffer size count).1.Wf := by
  by_cases h₀ : size * count = 0
  · have hret : rbWrite rb buffer size count = (rb, 0) := if_pos h₀
    rw [hret]
    exact hw
  · rcases hfit with hfit | hfit | hfit
    · exact absurd hfit h₀
    · by_cases hroom : rb.unread.length + (size * count).toNat + 4 ≤ rb.capacity.toNat
      · exact (rbWrite_accepted buffer hw h₀ (by omega) hroom).2.2.2
      · rw [rbWrite_refused buffer hw (by omega) (Nat.lt_of_not_le hroom)]
        exact hw
    · rw [rbGetFillSize_eq hw] at hfit
      have hnil : rbWriteCopies rb size count = [] :=
        (if_neg h₀).trans ((rbCopies_eq_nil hw).mpr hfit)
      rw [rbWrite_of_copies_nil buffer hnil]
      exact hw

theorem wf_of_sumsFit (hr : (ringBuffer addr capacity).ReachesUnder SumsFit h rb) : rb.Wf := by
  refine hr.stateInvariant RbSt.Wf (rbInit_wf addr capacity) ?_
  intro rb c rb' a hw hfit hs
  obtain ⟨rfl, rfl⟩ := Prod.mk.inj (Option.some.inj hs)
  cases c with
  | write buffer size count => exact rbWrite_wf hw hfit
  | read size count => exact (rbRead_reads size count hw).wf
  | clear => exact rbClear_wf rb
  | getFillSize => exact hw
  | getFreeSize => exact hw

theorem wf_of_writesFit (hr : (ringBuffer addr capacity).ReachesUnder WritesFit h rb) : rb.Wf := by
  refine wf_of_sumsFit (hr.mono fun rb c hc => ?_)
  cases c with
  | write buffer size count => exact WriteFits.sumFits hc
  | _ => trivial

/-- In the runs whose writes all fit, the next write is safe if and only if it fits. -/
theorem write_safe_iff_fits (hr : (ringBuffer addr capacity).ReachesUnder WritesFit h rb)
    (buffer : Mem UInt8) (size count : UInt32) :
    WriteSafe rb buffer size count ↔ WriteFits rb size count :=
  ⟨fits_of_writeSafe (wf_of_writesFit hr), writeSafe_of_fits (wf_of_writesFit hr)⟩

theorem write_safe_iff_fits_empty :
    WriteSafe (rbInit (fun _ => 0) 8) (fun _ => 7) 1 3 ↔ WriteFits (rbInit (fun _ => 0) 8) 1 3 :=
  write_safe_iff_fits .init (fun _ => 7) 1 3

/-- In an empty buffer of 16 bytes a request for all but one of the 32-bit numbers passes the space
test, and is copied far beyond the end. -/
theorem write_wraps_around : ¬ ∀ (addr : Mem UInt8) (capacity : UInt32)
    (h : Machine.History RbCall RbAnswer) (rb : RbSt), (ringBuffer addr capacity).Reaches h rb →
    ∀ (buffer : Mem UInt8) (size count : UInt32), WriteSafe rb buffer size count := by
  intro hall
  have hsafe := hall (fun _ => 0) 16 [] _ .init (fun _ => 0) 0xFFFFFFFF 1
  exact absurd (fits_of_writeSafe (rbInit_wf (fun _ => 0) 16) hsafe) (by decide)

end Run

end BdkRtt.Audio
