import Mathlib.Data.List.Basic
import Mathlib.Data.List.Range

universe u

/-! What a sender gets onto a bus whose receiver acknowledges each element or ends the transfer. -/

namespace BdkRtt.Lib

namespace Acked

variable {α : Type u} {ack : Nat → Bool} {i : Nat} {x : α} {xs ys : List α}

/-- The elements up to the first one that is not acknowledged, from the time `i` on. -/
def sent (ack : Nat → Bool) : Nat → List α → List (α × Bool)
  | _, [] => []
  | i, x :: xs => (x, ack i) :: if ack i then sent ack (i + 1) xs else []

/-- The `n` elements from the time `i` on are acknowledged. -/
def All (ack : Nat → Bool) (i n : Nat) : Prop := ∀ k < n, ack (i + k) = true

instance (ack : Nat → Bool) (i n : Nat) : Decidable (All ack i n) :=
  inferInstanceAs (Decidable (∀ k < n, _))

theorem all_zero : All ack i 0 := fun k h => absurd h (Nat.not_lt_zero k)

theorem all_succ {n : Nat} : All ack i (n + 1) ↔ ack i = true ∧ All ack (i + 1) n := by
  constructor
  · intro h
    refine ⟨h 0 (Nat.succ_pos n), fun k hk => ?_⟩
    have hnext := h (k + 1) (Nat.succ_lt_succ hk)
    rwa [Nat.add_left_comm, Nat.add_comm] at hnext
  · rintro ⟨hfirst, hrest⟩ k hk
    cases k with
    | zero => exact hfirst
    | succ k =>
      have hnext := hrest k (Nat.lt_of_succ_lt_succ hk)
      rwa [Nat.add_assoc, Nat.add_comm 1 k] at hnext

theorem all_add {m n : Nat} : All ack i (m + n) ↔ All ack i m ∧ All ack (i + m) n := by
  induction m generalizing i with
  | zero => simp [all_zero]
  | succ m ih =>
    rw [Nat.succ_add, all_succ, ih, all_succ, and_assoc, Nat.add_assoc, Nat.add_comm 1 m]

theorem sent_cons_of_ack (h : ack i = true) :
    sent ack i (x :: xs) = (x, true) :: sent ack (i + 1) xs := by
  rw [sent, h]
  rfl

theorem sent_cons_of_nack (h : ack i = false) : sent ack i (x :: xs) = [(x, false)] := by
  rw [sent, h]
  rfl

/-- What comes behind elements that are all acknowledged is sent, else it is not. -/
theorem sent_append : sent ack i (xs ++ ys) =
    sent ack i xs ++ if All ack i xs.length then sent ack (i + xs.length) ys else [] := by
  induction xs generalizing i with
  | nil => simp [sent, all_zero]
  | cons x xs ih =>
    rw [List.cons_append]
    cases h : ack i with
    | true =>
      rw [sent_cons_of_ack h, sent_cons_of_ack h, ih, List.length_cons, Nat.add_assoc,
        Nat.add_comm 1, List.cons_append]
      simp only [all_succ, h, true_and]
    | false =>
      rw [sent_cons_of_nack h, sent_cons_of_nack h, List.length_cons]
      simp [all_succ, h]

theorem sent_eq_nil_iff : sent ack i xs = [] ↔ xs = [] := by
  cases xs <;> simp [sent]

/-- Elements that follow show, unless one before them was not acknowledged. -/
theorem sent_append_eq_iff :
    sent ack i xs = sent ack i (xs ++ ys) ↔ ¬ All ack i xs.length ∨ ys = [] := by
  rw [sent_append]
  by_cases h : All ack i xs.length
  · rw [if_pos h, List.self_eq_append_right, sent_eq_nil_iff]
    simp [h]
  · rw [if_neg h]
    simp [h]

end Acked

end BdkRtt.Lib
