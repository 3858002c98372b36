import Mathlib.Data.Finset.Card
import Mathlib.Data.Finset.Range
import Mathlib.Logic.Function.Iterate

universe u

namespace BdkRtt.Lib

/-! A loop that goes from one place to the next until a test ends it. -/

namespace Orbit

variable {α : Type u} (next : α → α) (stop : α → Prop)

/-- The loop that starts at `a` has not ended before its round `k`. -/
def Comes (a : α) (k : Nat) : Prop := ∀ j < k, ¬ stop (next^[j] a)

variable {next stop} {a : α} {j k n : Nat}

theorem comes_zero : Comes next stop a 0 := fun _ hj => absurd hj (Nat.not_lt_zero _)

theorem Comes.mono (h : Comes next stop a k) (hjk : j ≤ k) : Comes next stop a j :=
  fun i hi => h i (Nat.lt_of_lt_of_le hi hjk)

theorem comes_succ : Comes next stop a (k + 1) ↔ Comes next stop a k ∧ ¬ stop (next^[k] a) := by
  constructor
  · intro h
    exact ⟨h.mono (Nat.le_succ k), h k (Nat.lt_succ_self k)⟩
  · rintro ⟨h, hk⟩ j hj
    rcases Nat.lt_succ_iff_lt_or_eq.mp hj with hlt | rfl
    · exact h j hlt
    · exact hk

/-- A loop that is back at a place where it was never ends: each round is one of the first `k`. -/
theorem Comes.forever (h : Comes next stop a k) (hjk : j < k)
    (hback : next^[j] a = next^[k] a) (n : Nat) : Comes next stop a n := by
  have hperiod (i : Nat) (hi : j ≤ i) : next^[i + (k - j)] a = next^[i] a := by
    have hsplit : i + (k - j) = (i - j) + k := by omega
    rw [hsplit, Function.iterate_add_apply, ← hback, ← Function.iterate_add_apply,
      Nat.sub_add_cancel hi]
  have hround (i : Nat) : ¬ stop (next^[i] a) := by
    induction i using Nat.strong_induction_on with
    | _ i ih =>
      by_cases hik : i < k
      · exact h i hik
      · have hsplit : i = (i - (k - j)) + (k - j) := by omega
        rw [hsplit, hperiod _ (by omega)]
        exact ih _ (by omega)
  exact fun i _ => hround i

/-- Different numbers below a bound are no more than the bound. -/
theorem le_of_distinct {m : Nat → Nat} {N : Nat} (hlt : ∀ k < n, m k < N)
    (hne : ∀ j k, j < k → k < n → m j ≠ m k) : n ≤ N := by
  have hmaps : Set.MapsTo m (Finset.range n : Set Nat) (Finset.range N : Set Nat) := by
    intro k hk
    simp only [Finset.coe_range, Set.mem_Iio] at hk ⊢
    exact hlt k hk
  have hinj : Set.InjOn m (Finset.range n : Set Nat) := by
    intro j hj k hk heq
    simp only [Finset.coe_range, Set.mem_Iio] at hj hk
    rcases Nat.lt_trichotomy j k with hjk | rfl | hkj
    · exact absurd heq (hne j k hjk hk)
    · rfl
    · exact absurd heq.symm (hne k j hkj hj)
  simpa only [Finset.card_range] using Finset.card_le_card_of_injOn m hmaps hinj

/-- A loop that never comes to a place twice, among a bounded number of places, ends. -/
theorem stops_of_distinct (m : α → Nat) {N : Nat}
    (hlt : ∀ k, Comes next stop a (k + 1) → m (next^[k] a) < N)
    (hne : ∀ j k, j < k → Comes next stop a (k + 1) → m (next^[j] a) ≠ m (next^[k] a)) :
    ∃ k ≤ N, Comes next stop a k ∧ stop (next^[k] a) := by
  by_contra hnone
  have hcomes (k : Nat) (hk : k ≤ N + 1) : Comes next stop a k := by
    induction k with
    | zero => exact comes_zero
    | succ k ih =>
      have hk' := ih (by omega)
      exact comes_succ.mpr ⟨hk', fun hstop => hnone ⟨k, by omega, hk', hstop⟩⟩
  have hle : N + 1 ≤ N := le_of_distinct (m := fun k => m (next^[k] a))
    (fun k hk => hlt k (hcomes (k + 1) (by omega)))
    (fun j k hjk hk => hne j k hjk (hcomes (k + 1) (by omega)))
  omega

end Orbit

end BdkRtt.Lib
