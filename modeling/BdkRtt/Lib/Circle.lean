import Mathlib.Data.List.Basic
import Mathlib.Data.List.Range
import Mathlib.Data.Nat.ModEq
import BdkRtt.Lib.Ring

universe u

namespace BdkRtt.Lib

/-! Positions counted on without end and folded onto `cap` cells. -/

section Positions

variable {cap i j n : Nat}

/-- Less than a round further on, the position is another one. -/
theorem mod_ne_of_lt (hij : i < j) (hj : j < i + cap) : j % cap ≠ i % cap := by
  intro heq
  have hzero := Nat.sub_mod_eq_zero_of_mod_eq heq
  rw [Nat.mod_eq_of_lt (by omega)] at hzero
  omega

/-- Less than a round further on, the position has passed the end at most once. -/
theorem add_mod_cases (hn : n < cap) :
    (i + n) % cap = i % cap + n ∧ i % cap + n < cap ∨
      (i + n) % cap + cap = i % cap + n := by
  rw [← Nat.mod_add_mod]
  by_cases h : i % cap + n < cap
  · exact .inl ⟨Nat.mod_eq_of_lt h, h⟩
  · have hlt : i % cap < cap := Nat.mod_lt _ (by omega)
    rw [Nat.mod_eq_sub_mod (by omega), Nat.mod_eq_of_lt (by omega)]
    omega

/-- How far the writer of a ring is ahead of a reader, from the cells they are at. -/
def distance (cap r w : Nat) : Nat := if w < r then cap - r + w else w - r

theorem distance_mod (hn : n < cap) : distance cap (i % cap) ((i + n) % cap) = n := by
  have hlt : i % cap < cap := Nat.mod_lt _ (by omega)
  unfold distance
  rcases add_mod_cases (i := i) hn with ⟨heq, hfit⟩ | heq
  · rw [heq, if_neg (by omega)]
    omega
  · rw [if_pos (by omega)]
    omega

theorem succ_mod_cases (hcap : 0 < cap) :
    (i + 1) % cap = if i % cap + 1 = cap then 0 else i % cap + 1 := by
  have hlt : i % cap < cap := Nat.mod_lt _ hcap
  rw [← Nat.mod_add_mod]
  split
  next h => rw [h, Nat.mod_self]
  next h => exact Nat.mod_eq_of_lt (by omega)

end Positions

/-- The cells of the `n` positions from `i` on. -/
def circle (cap i n : Nat) : List Nat := (List.range' i n).map (· % cap)

section Circle

variable {cap i n : Nat}

@[simp] theorem length_circle : (circle cap i n).length = n := by simp [circle]

theorem circle_succ : circle cap i (n + 1) = i % cap :: circle cap (i + 1) n := by
  simp [circle, List.range'_succ]

theorem circle_add (a b : Nat) : circle cap i (a + b) = circle cap i a ++ circle cap (i + a) b := by
  simp [circle, ← List.range'_append_1]

@[simp] theorem circle_mod : circle cap (i % cap) n = circle cap i n := by
  induction n generalizing i with
  | zero => rfl
  | succ n ih => rw [circle_succ, circle_succ, Nat.mod_mod, ← ih, Nat.mod_add_mod, ih]

/-- Positions that do not pass the end. -/
theorem circle_straight {r : Nat} (h : r ≡ i [MOD cap]) (hn : r + n ≤ cap) :
    circle cap i n = List.range' r n := by
  induction n generalizing i r with
  | zero => rfl
  | succ n ih =>
    have hr : i % cap = r := by
      rw [← h, Nat.mod_eq_of_lt (by omega)]
    rw [circle_succ, List.range'_succ, hr, ih (h.add_right 1) (by omega)]

/-- The position at the end of the cells is that of their beginning. -/
theorem modEq_end {r a : Nat} (h : r ≡ i [MOD cap]) (ha : r + a = cap) : 0 ≡ i + a [MOD cap] := by
  refine Nat.ModEq.trans ?_ (h.add_right a)
  rw [ha, Nat.ModEq, Nat.mod_self, Nat.zero_mod]

/-- Positions that pass the end once. -/
theorem circle_around {r a b : Nat} (h : r ≡ i [MOD cap]) (ha : r + a = cap) (hb : b ≤ cap) :
    circle cap i (a + b) = List.range' r a ++ List.range' 0 b := by
  have hend := modEq_end h ha
  rw [circle_add, circle_straight h (by omega), circle_straight hend (by omega)]

end Circle

namespace Mem

variable {α : Type u} {m : Mem α} {cap i n : Nat}

/-- What lies in the cells of the `n` positions from `i` on. -/
def arc (m : Mem α) (cap i n : Nat) : List α := (circle cap i n).map m

@[simp] theorem length_arc : (m.arc cap i n).length = n := by simp [arc]

@[simp] theorem arc_zero : m.arc cap i 0 = [] := rfl

theorem getElem_arc {k : Nat} (hk : k < (m.arc cap i n).length) :
    (m.arc cap i n)[k] = m ((i + k) % cap) := by
  simp [arc, circle]

theorem arc_succ : m.arc cap i (n + 1) = m (i % cap) :: m.arc cap (i + 1) n := by
  simp [arc, circle_succ]

theorem arc_add (a b : Nat) : m.arc cap i (a + b) = m.arc cap i a ++ m.arc cap (i + a) b := by
  simp [arc, circle_add]

/-- The next position's cell takes an element; the others are not the same cell. -/
theorem arc_push (x : α) (hn : n < cap) :
    (m.write ((i + n) % cap) [x]).arc cap i (n + 1) = m.arc cap i n ++ [x] := by
  have hother : (m.write ((i + n) % cap) [x]).arc cap i n = m.arc cap i n := by
    apply List.map_congr_left
    intro c hc
    obtain ⟨j, hj, rfl⟩ := List.mem_map.mp hc
    have hmem := List.mem_range'_1.mp hj
    have hne : (i + n) % cap ≠ j % cap := mod_ne_of_lt (by omega) (by omega)
    rcases Nat.lt_or_gt_of_ne hne with hlt | hgt
    · exact write_apply_of_ge _ (by simp; omega)
    · exact write_apply_of_lt _ _ hgt
  have hself : (m.write ((i + n) % cap) [x]) ((i + n) % cap) = x :=
    write_apply_mem m _ (k := 0) (by simp)
  rw [arc_add, hother, arc_succ, hself, arc_zero]

/-- An arc that does not pass the end. -/
theorem arc_straight {r : Nat} (h : r ≡ i [MOD cap]) (hn : r + n ≤ cap) :
    m.arc cap i n = m.read r n := by
  rw [arc, circle_straight h hn]
  simp [read, List.range'_eq_map_range, Function.comp_def]

/-- Elements that go behind the arc and not past the end leave it as it is. -/
theorem arc_write (xs : List α) (hn : n + xs.length ≤ cap)
    (hend : (i + n) % cap + xs.length ≤ cap) :
    (m.write ((i + n) % cap) xs).arc cap i n = m.arc cap i n := by
  apply List.map_congr_left
  intro c hc
  obtain ⟨j, hj, rfl⟩ := List.mem_map.mp hc
  have hmem := List.mem_range'_1.mp hj
  by_cases hlt : j % cap < (i + n) % cap
  · exact write_apply_of_lt _ _ hlt
  · apply write_apply_of_ge
    by_contra hin
    -- the cell would be one of those behind the arc, less than a round further on
    obtain ⟨t, ht⟩ := Nat.exists_eq_add_of_le (Nat.not_lt.mp hlt)
    have hcell : (i + n + t) % cap = j % cap := by
      rw [ht, ← Nat.mod_add_mod]
      exact Nat.mod_eq_of_lt (by omega)
    exact mod_ne_of_lt (by omega) (by omega) hcell

theorem arc_append (xs : List α) (hn : n + xs.length ≤ cap)
    (hend : (i + n) % cap + xs.length ≤ cap) :
    (m.write ((i + n) % cap) xs).arc cap i (n + xs.length) = m.arc cap i n ++ xs := by
  rw [arc_add, arc_write xs hn hend, arc_straight (Nat.mod_modEq _ _) hend, read_write_self]

/-- The arc in the terms of a read and a write position, where fewer than `cap` are used. -/
theorem arc_eq_window (hn : n < cap) :
    m.arc cap i n = m.window cap (i % cap) ((i + n) % cap) := by
  have hlt : i % cap < cap := Nat.mod_lt _ (by omega)
  rcases add_mod_cases (i := i) hn with ⟨heq, hfit⟩ | heq
  · rw [heq, window_of_le _ (by omega), arc_straight (Nat.mod_modEq _ _) (by omega),
      Nat.add_sub_cancel_left]
  · have hsplit : n = (cap - i % cap) + (i + n) % cap := by omega
    rw [window_of_lt _ (by omega)]
    conv_lhs => rw [hsplit]
    rw [arc_add, arc_straight (Nat.mod_modEq _ _) (by omega),
      arc_straight (modEq_end (Nat.mod_modEq _ _) (by omega)) (by omega)]

section Stream

/-- A stream that is laid into the cells round after round, with a reader at its position `d`: what
the reader has before it is still there. -/
structure Stream (m : Mem α) (cap : Nat) (xs : List α) (d : Nat) : Prop where
  le : d ≤ xs.length
  fits : xs.length ≤ d + cap
  cells : m.arc cap d (xs.length - d) = xs.drop d

variable {xs : List α} {d : Nat}

theorem Stream.nil (m : Mem α) (cap : Nat) : m.Stream cap [] 0 :=
  ⟨Nat.le_refl _, Nat.zero_le _, rfl⟩

/-- Cells that the reader has left can be used for anything. -/
theorem Stream.clear (h : m.Stream cap xs d) (ys : List α) (hroom : xs.length + ys.length ≤ d + cap)
    (hend : xs.length % cap + ys.length ≤ cap) :
    (m.write (xs.length % cap) ys).Stream cap xs d := by
  have hle := h.le
  have hpos : d + (xs.length - d) = xs.length := Nat.add_sub_cancel' hle
  have hfit : xs.length - d + ys.length ≤ cap := by omega
  refine ⟨hle, h.fits, ?_⟩
  have hwrite := arc_write (m := m) ys hfit (by rw [hpos]; exact hend)
  rw [hpos] at hwrite
  rw [hwrite, h.cells]

theorem Stream.push (h : m.Stream cap xs d) (ys : List α) (hroom : xs.length + ys.length ≤ d + cap)
    (hend : xs.length % cap + ys.length ≤ cap) :
    (m.write (xs.length % cap) ys).Stream cap (xs ++ ys) d := by
  have hle := h.le
  have hpos : d + (xs.length - d) = xs.length := Nat.add_sub_cancel' hle
  have hlen : (xs ++ ys).length - d = xs.length - d + ys.length := by
    rw [List.length_append]
    omega
  refine ⟨by rw [List.length_append]; omega, by rw [List.length_append]; exact hroom, ?_⟩
  have hfit : xs.length - d + ys.length ≤ cap := by omega
  have happend := arc_append (m := m) ys hfit (by rw [hpos]; exact hend)
  rw [hpos] at happend
  rw [hlen, happend, h.cells, List.drop_append_of_le_length hle]

theorem Stream.read (h : m.Stream cap xs d) (hn : d + n ≤ xs.length) (hend : d % cap + n ≤ cap) :
    m.read (d % cap) n = (xs.drop d).take n := by
  have hsplit : xs.length - d = n + (xs.length - (d + n)) := by omega
  have hcells := h.cells
  rw [hsplit, arc_add, arc_straight (Nat.mod_modEq _ _) hend] at hcells
  rw [← hcells, List.take_left' (length_read ..)]

theorem Stream.advance (h : m.Stream cap xs d) (hn : d + n ≤ xs.length) :
    m.Stream cap xs (d + n) := by
  have hsplit : xs.length - d = n + (xs.length - (d + n)) := by omega
  have hcells := h.cells
  rw [hsplit, arc_add] at hcells
  refine ⟨hn, Nat.le_trans h.fits (by omega), ?_⟩
  rw [← List.drop_drop, ← hcells, List.drop_left' (length_arc ..)]

/-- A writer that goes on round after round has the last `cap` elements in the cells. -/
theorem Stream.latest (h : m.Stream cap xs (xs.length - cap)) (ys : List α)
    (hend : xs.length % cap + ys.length ≤ cap) :
    (m.write (xs.length % cap) ys).Stream cap (xs ++ ys) ((xs ++ ys).length - cap) := by
  have hskip : xs.length - cap + (ys.length - (cap - xs.length)) ≤ xs.length := by omega
  have hd : xs.length - cap + (ys.length - (cap - xs.length)) = (xs ++ ys).length - cap := by
    rw [List.length_append]
    omega
  have hahead := h.advance hskip
  rw [hd] at hahead
  refine hahead.push ys ?_ hend
  rw [List.length_append]
  omega

end Stream

end Mem

end BdkRtt.Lib
