import Mathlib.Data.List.Perm.Basic
import Mathlib.Order.Lattice

universe u v

namespace BdkRtt.Lib

namespace ExchangeSort

variable {α : Type u} {β : Type v} [LinearOrder β] (rank : α → β)

/-- `x` against each of the others: the one of higher rank stays in front. -/
def round (x : α) : List α → α × List α
  | [] => (x, [])
  | y :: ys =>
    if rank y > rank x then
      let r := round y ys
      (r.1, x :: r.2)
    else
      let r := round x ys
      (r.1, y :: r.2)

/-- A round for each of the first `n` places. -/
def rounds : Nat → List α → List α
  | n + 1, x :: xs =>
    let r := round rank x xs
    r.1 :: rounds n r.2
  | _, xs => xs

/-- The highest rank in front. -/
def sort (xs : List α) : List α := rounds rank xs.length xs

variable {rank}

theorem round_perm (x : α) (xs : List α) :
    ((round rank x xs).1 :: (round rank x xs).2).Perm (x :: xs) := by
  induction xs generalizing x with
  | nil => exact .refl _
  | cons y ys ih =>
    rw [round]
    split
    · exact (List.Perm.swap ..).trans (((ih y).cons x))
    · exact (List.Perm.swap ..).trans (((ih x).cons y).trans (List.Perm.swap ..))

theorem length_round (x : α) (xs : List α) : (round rank x xs).2.length = xs.length :=
  Nat.succ.inj (round_perm x xs).length_eq

theorem round_ge (x : α) (xs : List α) :
    rank x ≤ rank (round rank x xs).1 ∧
    ∀ y ∈ (round rank x xs).2, rank y ≤ rank (round rank x xs).1 := by
  induction xs generalizing x with
  | nil => exact ⟨le_rfl, fun y hy => absurd hy List.not_mem_nil⟩
  | cons y ys ih =>
    rw [round]
    split
    next hgt =>
      obtain ⟨hfront, hall⟩ := ih y
      have hx : rank x ≤ rank (round rank y ys).1 := hgt.le.trans hfront
      refine ⟨hx, fun z hz => ?_⟩
      rcases List.mem_cons.mp hz with rfl | hz
      · exact hx
      · exact hall z hz
    next hle =>
      obtain ⟨hfront, hall⟩ := ih x
      refine ⟨hfront, fun z hz => ?_⟩
      rcases List.mem_cons.mp hz with rfl | hz
      · exact (not_lt.mp hle).trans hfront
      · exact hall z hz

theorem rounds_perm (n : Nat) (xs : List α) : (rounds rank n xs).Perm xs := by
  induction n generalizing xs with
  | zero => exact .refl _
  | succ n ih =>
    cases xs with
    | nil => exact .refl _
    | cons x xs => exact ((ih _).cons _).trans (round_perm x xs)

theorem rounds_sorted (n : Nat) (xs : List α) (hn : xs.length ≤ n) :
    (rounds rank n xs).Pairwise fun a b => rank b ≤ rank a := by
  induction n generalizing xs with
  | zero =>
    rw [List.length_eq_zero_iff.mp (Nat.le_zero.mp hn)]
    exact List.Pairwise.nil
  | succ n ih =>
    cases xs with
    | nil => exact List.Pairwise.nil
    | cons x xs =>
      rw [rounds, List.pairwise_cons]
      have hlen : (round rank x xs).2.length ≤ n := by
        rw [length_round]
        exact Nat.le_of_succ_le_succ hn
      refine ⟨fun y hy => ?_, ih _ hlen⟩
      exact (round_ge x xs).2 y ((rounds_perm n _).mem_iff.mp hy)

theorem sort_perm (xs : List α) : (sort rank xs).Perm xs := rounds_perm ..

theorem sort_sorted (xs : List α) : (sort rank xs).Pairwise fun a b => rank b ≤ rank a :=
  rounds_sorted _ xs (Nat.le_refl _)

section Map

variable {γ : Type*} (f : γ → α)

theorem round_map (x : γ) (xs : List γ) : round rank (f x) (xs.map f) =
    (f (round (rank ∘ f) x xs).1, (round (rank ∘ f) x xs).2.map f) := by
  induction xs generalizing x with
  | nil => rfl
  | cons y ys ih =>
    rw [List.map_cons, round, round, ih, ih]
    by_cases hgt : rank (f y) > rank (f x)
    · rw [if_pos hgt, if_pos (show (rank ∘ f) y > (rank ∘ f) x from hgt)]
      rfl
    · rw [if_neg hgt, if_neg (show ¬ (rank ∘ f) y > (rank ∘ f) x from hgt)]
      rfl

theorem rounds_map (n : Nat) (xs : List γ) :
    rounds rank n (xs.map f) = (rounds (rank ∘ f) n xs).map f := by
  induction n generalizing xs with
  | zero => cases xs <;> rfl
  | succ n ih =>
    cases xs with
    | nil => rfl
    | cons x xs =>
      rw [List.map_cons, rounds, rounds, round_map, ih]
      rfl

end Map

end ExchangeSort

end BdkRtt.Lib
