import Mathlib.Data.List.Range

/-! Lists of numbers that follow one another. -/

namespace BdkRtt.Lib

/-- Each number is one more than the one in front of it. -/
def Consecutive (l : List Nat) : Prop := ∃ i, l = List.range' i l.length

namespace Consecutive

variable {l : List Nat} {i j m n : Nat}

theorem nil : Consecutive [] := ⟨0, rfl⟩

theorem range_append_range' : List.range m ++ List.range' m n = List.range (m + n) := by
  rw [List.range_eq_range', List.range_eq_range', ← List.range'_append_1, Nat.zero_add]

theorem append_range' (hl : Consecutive l) (hlast : ∀ k ∈ l.getLast?, k + 1 = j) :
    Consecutive (l ++ List.range' j n) := by
  obtain ⟨i, hi⟩ := hl
  cases hlen : l.length with
  | zero =>
    rw [List.length_eq_zero_iff.mp hlen, List.nil_append]
    exact ⟨j, by rw [List.length_range']⟩
  | succ m =>
    rw [hlen] at hi
    have hj : i + (m + 1) = j := by
      refine hlast (i + m) ?_
      rw [hi, List.range'_1_concat, List.getLast?_concat]
      rfl
    refine ⟨i, ?_⟩
    rw [List.length_append, hlen, List.length_range', hi, ← hj, List.range'_append_1]

/-- A run that goes on behind a list goes on where the list ends. -/
theorem last_of_append (hl : Consecutive (l ++ List.range' j (n + 1))) :
    ∀ k ∈ l.getLast?, k + 1 = j := by
  intro k hk
  obtain ⟨i, hi⟩ := hl
  obtain ⟨ys, rfl⟩ := List.getLast?_eq_some_iff.mp hk
  have hk' := congrArg (·[ys.length]?) hi
  have hj' := congrArg (·[ys.length + 1]?) hi
  simp at hk' hj'
  omega

end Consecutive

end BdkRtt.Lib
