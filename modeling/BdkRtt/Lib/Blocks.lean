import Mathlib.Data.List.Basic

universe u

namespace BdkRtt.Lib

variable {α : Type u} {n : Nat} {xs ys : List α}

/-- The whole blocks of `n` elements that a stream begins with. -/
def blocks (n : Nat) (xs : List α) : List (List α) :=
  (List.range (xs.length / n)).map fun i => (xs.drop (n * i)).take n

/-- What follows the whole blocks. -/
def rest (n : Nat) (xs : List α) : List α := xs.drop (n * (xs.length / n))

theorem length_rest (n : Nat) (xs : List α) : (rest n xs).length = xs.length % n := by
  have := Nat.div_add_mod xs.length n
  rw [rest, List.length_drop]
  omega

theorem length_of_mem_blocks {b : List α} (h : b ∈ blocks n xs) : b.length = n := by
  obtain ⟨i, hi, rfl⟩ := List.mem_map.mp h
  have hlt := List.mem_range.mp hi
  have hle : n * (i + 1) ≤ n * (xs.length / n) := Nat.mul_le_mul_left n hlt
  have hdiv := Nat.mul_div_le xs.length n
  rw [Nat.mul_succ] at hle
  rw [List.length_take, List.length_drop]
  omega

/-- A block of a stream is one of every longer stream. -/
theorem block_append {i : Nat} (h : n * i + n ≤ xs.length) :
    ((xs ++ ys).drop (n * i)).take n = (xs.drop (n * i)).take n := by
  rw [List.drop_append_of_le_length (by omega), List.take_append_of_le_length]
  rw [List.length_drop]
  omega

theorem blocks_append_of_div (h : (xs ++ ys).length / n = xs.length / n) :
    blocks n (xs ++ ys) = blocks n xs := by
  rw [blocks, h, blocks]
  refine List.map_congr_left fun i hi => block_append ?_
  have hle : n * (i + 1) ≤ n * (xs.length / n) := Nat.mul_le_mul_left n (List.mem_range.mp hi)
  have hdiv := Nat.mul_div_le xs.length n
  rw [Nat.mul_succ] at hle
  omega

theorem rest_append_of_div (h : (xs ++ ys).length / n = xs.length / n) :
    rest n (xs ++ ys) = rest n xs ++ ys := by
  rw [rest, h, rest, List.drop_append_of_le_length (Nat.mul_div_le xs.length n)]

section Append

variable (hn : 0 < n)
include hn

/-- A piece that does not fill the block is only kept. -/
theorem append_short (h : (rest n xs).length + ys.length < n) :
    blocks n (xs ++ ys) = blocks n xs ∧ rest n (xs ++ ys) = rest n xs ++ ys := by
  have hdiv : (xs ++ ys).length / n = xs.length / n := by
    rw [length_rest] at h
    rw [List.length_append, Nat.div_eq_iff hn]
    have := Nat.div_add_mod xs.length n
    rw [Nat.mul_comm] at this
    omega
  exact ⟨blocks_append_of_div hdiv, rest_append_of_div hdiv⟩

/-- A piece that fills the block makes one block more. -/
theorem append_full (h : (rest n xs).length + ys.length = n) :
    blocks n (xs ++ ys) = blocks n xs ++ [rest n xs ++ ys] ∧ rest n (xs ++ ys) = [] := by
  have hmod := Nat.div_add_mod xs.length n
  rw [length_rest] at h
  have hlen : (xs ++ ys).length = n * (xs.length / n + 1) := by
    rw [List.length_append, Nat.mul_succ]
    omega
  have hdiv : (xs ++ ys).length / n = xs.length / n + 1 := by
    rw [hlen, Nat.mul_div_cancel_left _ hn]
  constructor
  · rw [blocks, hdiv, List.range_succ, List.map_append]
    refine congrArg₂ _ ?_ ?_
    · refine List.map_congr_left fun i hi => block_append ?_
      have hle : n * (i + 1) ≤ n * (xs.length / n) := Nat.mul_le_mul_left n (List.mem_range.mp hi)
      rw [Nat.mul_succ] at hle
      omega
    · rw [List.map_singleton, List.drop_append_of_le_length (by omega), ← rest]
      refine congrArg (fun l => [l]) (List.take_of_length_le ?_)
      rw [List.length_append, length_rest]
      omega
  · exact List.drop_eq_nil_of_le (Nat.le_of_eq (by rw [hdiv, hlen]))

end Append

theorem flatten_blocks (n : Nat) (xs : List α) : (blocks n xs).flatten ++ rest n xs = xs := by
  have hpre (q : Nat) (hq : q ≤ xs.length / n) :
      ((List.range q).map fun i => (xs.drop (n * i)).take n).flatten = xs.take (n * q) := by
    induction q with
    | zero => rw [Nat.mul_zero, List.take_zero]; rfl
    | succ q ih =>
      rw [List.range_succ, List.map_append, List.flatten_append, ih (by omega), List.map_singleton,
        List.flatten_singleton, Nat.mul_succ, List.take_add]
  rw [blocks, hpre _ (Nat.le_refl _), rest, List.take_append_drop]

end BdkRtt.Lib
