import Mathlib.Data.List.GetD
import Mathlib.Algebra.Group.Nat.Defs

universe u

namespace BdkRtt.Lib

/-- The cells of a 32-bit address space; pointer arithmetic wraps around. -/
abbrev Space (α : Type u) := UInt32 → α

namespace Space

variable {α : Type u}

/-- The `n` addresses from `p` on. -/
def span (p : UInt32) (n : Nat) : List UInt32 := (List.range n).map fun i => p + UInt32.ofNat i

def load (m : Space α) (p : UInt32) (n : Nat) : List α := (span p n).map m

def store (m : Space α) (p : UInt32) (xs : List α) : Space α := fun a =>
  xs.getD (a - p).toNat (m a)

@[simp] theorem length_span (p : UInt32) (n : Nat) : (span p n).length = n := by simp [span]

@[simp] theorem length_load (m : Space α) (p : UInt32) (n : Nat) : (m.load p n).length = n := by
  simp [load]

theorem span_add (p : UInt32) (a b : Nat) :
    span p (a + b) = span p a ++ span (p + UInt32.ofNat a) b := by
  simp [span, List.range_add, UInt32.ofNat_add, UInt32.add_assoc]

theorem load_add (m : Space α) (p : UInt32) (a b : Nat) :
    m.load p (a + b) = m.load p a ++ m.load (p + UInt32.ofNat a) b := by
  simp [load, span_add]

theorem drop_load (m : Space α) (p : UInt32) {n k : Nat} (h : k ≤ n) :
    (m.load p n).drop k = m.load (p + UInt32.ofNat k) (n - k) := by
  rw [show n = k + (n - k) by omega, load_add, List.drop_left' (length_load ..),
    Nat.add_sub_cancel_left]

/-- How far `p + i` lies past `p + k`. -/
theorem offset_add (p : UInt32) (i k : Nat) :
    (p + UInt32.ofNat i - (p + UInt32.ofNat k)) = UInt32.ofNat i - UInt32.ofNat k := by
  apply UInt32.eq_of_toBitVec_eq
  simp only [UInt32.toBitVec_sub, UInt32.toBitVec_add]
  bv_omega

theorem offset_self (p : UInt32) (i : Nat) : p + UInt32.ofNat i - p = UInt32.ofNat i := by
  apply UInt32.eq_of_toBitVec_eq
  simp only [UInt32.toBitVec_sub, UInt32.toBitVec_add]
  bv_omega

theorem mem_span {p a : UInt32} {n : Nat} (hn : n ≤ 2 ^ 32) :
    a ∈ span p n ↔ (a - p).toNat < n := by
  simp only [span, List.mem_map, List.mem_range]
  constructor
  · rintro ⟨i, hi, rfl⟩
    rw [offset_self, UInt32.toNat_ofNat_of_lt' (Nat.lt_of_lt_of_le hi hn)]
    exact hi
  · intro h
    refine ⟨(a - p).toNat, h, ?_⟩
    rw [UInt32.ofNat_toNat, UInt32.add_comm, UInt32.sub_add_cancel]

theorem load_store_self (m : Space α) (p : UInt32) {xs : List α} (h : xs.length ≤ 2 ^ 32) :
    (m.store p xs).load p xs.length = xs := by
  apply List.ext_getElem (by simp)
  intro i hi hx
  have hlt : i < UInt32.size := Nat.lt_of_lt_of_le hx h
  have hcell : (p + UInt32.ofNat i - p).toNat = i := by
    rw [offset_self, UInt32.toNat_ofNat_of_lt' hlt]
  have hread : ((m.store p xs).load p xs.length)[i] =
      xs.getD (p + UInt32.ofNat i - p).toNat (m (p + UInt32.ofNat i)) := by
    simp only [load, span, store, List.getElem_map, List.getElem_range]
  rw [hread, hcell, List.getD_eq_getElem _ _ hx]

/-- A store behind the first `n` cells does not reach them. -/
theorem load_store_behind (m : Space α) (p : UInt32) {n : Nat} {xs : List α}
    (h : n + xs.length ≤ 2 ^ 32) :
    (m.store (p + UInt32.ofNat n) xs).load p n = m.load p n := by
  apply List.map_congr_left
  intro a ha
  obtain ⟨i, hi, rfl⟩ := List.mem_map.mp ha
  have hi' : i < n := List.mem_range.mp hi
  rw [store, List.getD_eq_default]
  rw [offset_add, UInt32.toNat_sub, UInt32.toNat_ofNat_of_lt' (show i < UInt32.size by
    exact Nat.lt_of_lt_of_le (by omega) h)]
  by_cases hn : n < 2 ^ 32
  · rw [UInt32.toNat_ofNat_of_lt' hn]
    omega
  · have : xs = [] := List.length_eq_zero_iff.mp (by omega)
    simp [this]

theorem load_store_outside (m : Space α) {p a : UInt32} {n : Nat} (x : α)
    (h : n ≤ (a - p).toNat) : (m.store a [x]).load p n = m.load p n := by
  apply List.map_congr_left
  intro c hc
  have hlt : (c - p).toNat < n := (mem_span (by have := (a - p).toNat_lt; omega)).mp hc
  have hne : c - a ≠ 0 := by
    intro h0
    have : c = a := by grind
    rw [this] at hlt
    omega
  have hpos : (c - a).toNat ≠ 0 := fun h0 => hne (UInt32.toNat_inj.mp h0)
  rw [store, List.getD_eq_default]
  simp only [List.length_singleton]
  omega

/-- Cells stored one after the other. -/
theorem load_store_append (m : Space α) (p : UInt32) {n : Nat} {xs : List α}
    (h : n + xs.length ≤ 2 ^ 32) :
    (m.store (p + UInt32.ofNat n) xs).load p (n + xs.length) = m.load p n ++ xs := by
  rw [load_add, load_store_behind _ _ h, load_store_self _ _ (by omega)]

end Space

end BdkRtt.Lib
