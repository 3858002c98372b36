import BdkRtt.Lib.Mem

universe u

/-! Blocks of one size, one behind the other. -/

namespace BdkRtt.Lib

variable {α : Type u} {c n : Nat} {f : Nat → List α} {xs : List α}

theorem length_flatMap_range (hf : ∀ k < n, (f k).length = c) :
    ((List.range n).flatMap f).length = c * n := by
  induction n with
  | zero => rfl
  | succ n ih =>
    have hlast := hf n (Nat.lt_succ_self n)
    have hinit := ih fun k hk => hf k (Nat.lt_succ_of_lt hk)
    rw [List.range_succ, List.flatMap_append, List.length_append, hinit, List.flatMap_singleton,
      hlast]
    rfl

/-- A list that blocks make up is made up of its own blocks only. -/
theorem flatMap_eq_iff (hlen : xs.length = c * n) (hf : ∀ k < n, (f k).length = c) :
    (List.range n).flatMap f = xs ↔ ∀ k < n, f k = (xs.drop (c * k)).take c := by
  induction n generalizing xs with
  | zero =>
    have hnil : xs = [] := List.length_eq_zero_iff.mp hlen
    rw [hnil]
    exact iff_of_true rfl fun k hk => absurd hk (Nat.not_lt_zero k)
  | succ n ih =>
    have hinit : ∀ k < n, (f k).length = c := fun k hk => hf k (Nat.lt_succ_of_lt hk)
    have hsplit : xs.take (c * n) ++ xs.drop (c * n) = xs := List.take_append_drop ..
    have htake : (xs.take (c * n)).length = c * n := by
      rw [List.length_take, hlen]
      exact Nat.min_eq_left (Nat.mul_le_mul_left c (Nat.le_succ n))
    have hdrop : (xs.drop (c * n)).take c = xs.drop (c * n) := by
      apply List.take_of_length_le
      rw [List.length_drop, hlen, Nat.mul_succ]
      exact Nat.le_of_eq (Nat.add_sub_cancel_left ..)
    have hblock (k : Nat) (hk : k < n) :
        ((xs.take (c * n)).drop (c * k)).take c = (xs.drop (c * k)).take c := by
      have hle : c * (k + 1) ≤ c * n := Nat.mul_le_mul_left c hk
      rw [Nat.mul_succ] at hle
      rw [List.drop_take, List.take_take, Nat.min_eq_left (by omega)]
    rw [List.range_succ, List.flatMap_append, List.flatMap_singleton]
    conv_lhs => rw [← hsplit]
    have hequal : ((List.range n).flatMap f).length = (xs.take (c * n)).length := by
      rw [length_flatMap_range hinit, htake]
    constructor
    · intro h
      obtain ⟨hfirst, hlast⟩ := List.append_inj h hequal
      have hbefore := (ih htake hinit).mp hfirst
      intro k hk
      rcases Nat.lt_succ_iff_lt_or_eq.mp hk with hk | rfl
      · rw [hbefore k hk, hblock k hk]
      · rw [hlast, hdrop]
    · intro h
      have hfirst := (ih htake hinit).mpr fun k hk => by
        rw [hblock k hk]
        exact h k (Nat.lt_succ_of_lt hk)
      rw [hfirst, h n (Nat.lt_succ_self n), hdrop]

theorem flatMap_blocks (hlen : xs.length = c * n) :
    ((List.range n).flatMap fun k => (xs.drop (c * k)).take c) = xs := by
  apply (flatMap_eq_iff hlen fun k hk => ?_).mpr fun k _ => rfl
  have hle : c * (k + 1) ≤ c * n := Nat.mul_le_mul_left c hk
  rw [Nat.mul_succ] at hle
  rw [List.length_take, List.length_drop]
  omega

namespace Mem

/-- What was in the cells that are written does not matter. -/
theorem write_over {m m' : Mem α} {i : Nat} {xs : List α}
    (h : ∀ k, k < i ∨ i + xs.length ≤ k → m k = m' k) : m.write i xs = m'.write i xs := by
  funext k
  rcases Nat.lt_or_ge k i with hlt | hge
  · rw [write_apply_of_lt _ _ hlt, write_apply_of_lt _ _ hlt, h k (.inl hlt)]
  · rcases Nat.lt_or_ge k (i + xs.length) with hin | hout
    · obtain ⟨d, rfl⟩ := Nat.exists_eq_add_of_le hge
      have hd : d < xs.length := Nat.lt_of_add_lt_add_left hin
      rw [write_apply_mem _ _ hd, write_apply_mem _ _ hd]
    · rw [write_apply_of_ge _ hout, write_apply_of_ge _ hout, h k (.inr hout)]

/-- Rounds that each store a block behind the one before. -/
theorem foldl_write {m : Mem α} {i : Nat} {step : Mem α → Nat → Mem α}
    (hf : ∀ k < n, (f k).length = c)
    (hstep : ∀ m, ∀ k < n, step m k = m.write (i + c * k) (f k)) :
    (List.range n).foldl step m = m.write i ((List.range n).flatMap f) := by
  induction n with
  | zero => exact (write_nil m i).symm
  | succ n ih =>
    have hinit : ∀ k < n, (f k).length = c := fun k hk => hf k (Nat.lt_succ_of_lt hk)
    have hbefore := ih hinit fun m k hk => hstep m k (Nat.lt_succ_of_lt hk)
    rw [List.range_succ, List.foldl_append, List.foldl_cons, List.foldl_nil, hbefore,
      hstep _ n (Nat.lt_succ_self n), List.flatMap_append, List.flatMap_singleton,
      ← length_flatMap_range hinit, write_append]

end Mem

end BdkRtt.Lib
