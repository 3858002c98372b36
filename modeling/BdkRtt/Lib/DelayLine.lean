import BdkRtt.Lib.Circle

universe u v w

namespace BdkRtt.Lib

section Transduce

variable {σ : Type u} {ι : Type v} {ο : Type w}

/-- The answers of a device that gives one for each element of its input, and its last state. -/
def transduce (step : σ → ι → σ × ο) : σ → List ι → σ × List ο
  | s, [] => (s, [])
  | s, x :: xs =>
    let first := step s x
    let rest := transduce step first.1 xs
    (rest.1, first.2 :: rest.2)

variable {step : σ → ι → σ × ο}

theorem transduce_append (s : σ) (xs ys : List ι) :
    transduce step s (xs ++ ys) =
      ((transduce step (transduce step s xs).1 ys).1,
        (transduce step s xs).2 ++ (transduce step (transduce step s xs).1 ys).2) := by
  induction xs generalizing s with
  | nil => rfl
  | cons x xs ih => simp [transduce, ih]

end Transduce

/-- Cells used in a circle from the top down; the one at `pos` is read and replaced next. -/
structure DelayLine (α : Type u) where
  cells : Mem α
  pos : Nat

namespace DelayLine

variable {α : Type u} {β : Type v} (f : α → β → α) (z : α) (last : Nat)

/-- One element goes in: what was in the cell is combined with it and stored there. -/
def feed (d : DelayLine α) (x : β) : DelayLine α where
  cells := d.cells.write d.pos [f (d.cells d.pos) x]
  pos := if d.pos = 0 then last else d.pos - 1

/-- What element `n` leaves in its cell, by recurrence with the delay `last + 1`. -/
def stored (x : Nat → β) (n : Nat) : α :=
  f (if n ≤ last then z else stored x (n - (last + 1))) (x n)
termination_by n

/-- What element `n` finds in its cell. -/
def delayed (x : Nat → β) (n : Nat) : α :=
  if n ≤ last then z else stored f z last x (n - (last + 1))

theorem stored_eq (x : Nat → β) (n : Nat) :
    stored f z last x n = f (delayed f z last x n) (x n) := by
  rw [stored, delayed]

theorem delayed_add (x : Nat → β) (n : Nat) :
    delayed f z last x (n + (last + 1)) = stored f z last x n := by
  rw [delayed, if_neg (by omega), Nat.add_sub_cancel]

/-- The recurrence of one kind of value is the image of that of another. -/
theorem map_stored {γ : Type w} {g : α → γ} {f' : γ → β → γ} (h : ∀ y b, g (f y b) = f' (g y) b)
    (x : Nat → β) (n : Nat) : g (stored f z last x n) = stored f' (g z) last x n := by
  induction n using Nat.strongRecOn with
  | ind n ih =>
    rw [stored_eq, stored_eq, h, delayed, delayed]
    by_cases hn : n ≤ last
    · rw [if_pos hn, if_pos hn]
    · rw [if_neg hn, if_neg hn, ih _ (by omega)]

theorem map_delayed {γ : Type w} {g : α → γ} {f' : γ → β → γ} (h : ∀ y b, g (f y b) = f' (g y) b)
    (x : Nat → β) (n : Nat) : g (delayed f z last x n) = delayed f' (g z) last x n := by
  rw [delayed, delayed, apply_ite g, map_stored f z last h]

variable {f z last} {d : DelayLine α} {x : Nat → β} {n : Nat}

variable (f z last) in
/-- After `n` elements each of the cells has what the element that reads it next will find. -/
structure Holds (d : DelayLine α) (x : Nat → β) (n : Nat) : Prop where
  pos : d.pos = last - n % (last + 1)
  cells : ∀ k ≤ last, d.cells (last - (n + k) % (last + 1)) = delayed f z last x (n + k)

theorem holds_zero {cells : Mem α} (h : ∀ k ≤ last, cells k = z) :
    Holds f z last ⟨cells, last⟩ x 0 where
  pos := by simp
  cells k hk := by
    rw [delayed, if_pos (by omega)]
    exact h _ (Nat.sub_le ..)

theorem Holds.pos_le (h : Holds f z last d x n) : d.pos ≤ last := by
  rw [h.pos]
  exact Nat.sub_le ..

theorem Holds.read (h : Holds f z last d x n) : d.cells d.pos = delayed f z last x n := by
  rw [h.pos]
  exact h.cells 0 (Nat.zero_le _)

theorem Holds.feed (h : Holds f z last d x n) :
    Holds f z last (d.feed f last (x n)) x (n + 1) where
  pos := by
    have hlt : n % (last + 1) < last + 1 := Nat.mod_lt _ (Nat.succ_pos _)
    have hpos : (d.feed f last (x n)).pos = if d.pos = 0 then last else d.pos - 1 := rfl
    rw [hpos, h.pos, succ_mod_cases (Nat.add_pos_right last Nat.one_pos)]
    split <;> split <;> omega
  cells k hk := by
    have hlt : n % (last + 1) < last + 1 := Nat.mod_lt _ (Nat.succ_pos _)
    have hlt' : (n + 1 + k) % (last + 1) < last + 1 := Nat.mod_lt _ (Nat.succ_pos _)
    rw [DelayLine.feed, h.read, h.pos]
    by_cases hlast : k = last
    · have hround : n + 1 + k = n + (last + 1) := by omega
      rw [hround, Nat.add_mod_right, delayed_add, stored_eq]
      exact Mem.write_apply_mem d.cells _ (k := 0) (by simp)
    · have hne := mod_ne_of_lt (show n < n + 1 + k by omega) (show _ < n + (last + 1) by omega)
      have hcell := h.cells (k + 1) (by omega)
      rw [show n + (k + 1) = n + 1 + k by omega] at hcell
      rw [← hcell]
      rcases Nat.lt_or_gt_of_ne hne with hlt | hgt
      · exact Mem.write_apply_of_ge _ (by simp; omega)
      · exact Mem.write_apply_of_lt _ _ (by omega)

/-- The cell of a recent element has what it stored. -/
theorem Holds.cell (h : Holds f z last d x n) {k : Nat} (hk : k < n) (hn : n ≤ k + last + 1) :
    d.cells (last - k % (last + 1)) = stored f z last x k := by
  have hcell := h.cells (k + (last + 1) - n) (by omega)
  rw [show n + (k + (last + 1) - n) = k + (last + 1) by omega, Nat.add_mod_right,
    delayed_add] at hcell
  exact hcell

end DelayLine

end BdkRtt.Lib
