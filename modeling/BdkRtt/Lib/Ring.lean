import BdkRtt.Lib.Mem

universe u

namespace BdkRtt.Lib

namespace Mem

variable {α : Type u}

/-- The cells of a circular buffer of `cap` cells that lie between the read position
`rp` and the write position `wp`, oldest first. -/
def window (m : Mem α) (cap rp wp : Nat) : List α :=
  if rp ≤ wp then m.read rp (wp - rp) else m.read rp (cap - rp) ++ m.read 0 wp

variable {m : Mem α} {rp wp n : Nat} (cap : Nat)

theorem window_of_le (h : rp ≤ wp) : m.window cap rp wp = m.read rp (wp - rp) := if_pos h

theorem window_of_lt (h : wp < rp) :
    m.window cap rp wp = m.read rp (cap - rp) ++ m.read 0 wp := if_neg (Nat.not_le.mpr h)

@[simp] theorem window_self : m.window cap rp rp = [] := by
  simp [window_of_le]

theorem length_window_of_le (h : rp ≤ wp) : (m.window cap rp wp).length = wp - rp := by
  simp [window_of_le _ h]

theorem length_window_of_lt (h : wp < rp) :
    (m.window cap rp wp).length = cap - rp + wp := by
  simp [window_of_lt _ h]

/-- A write position at the capacity stands for position zero. -/
theorem window_cap {cap : Nat} (h₀ : 0 < rp) (h : rp ≤ cap) :
    m.window cap rp cap = m.window cap rp 0 := by
  rw [window_of_le _ h, window_of_lt _ h₀, read_zero, List.append_nil]

/-- A read position at the capacity stands for position zero. -/
theorem window_from_cap {cap : Nat} (h : wp < cap) :
    m.window cap cap wp = m.window cap 0 wp := by
  rw [window_of_lt _ h, window_of_le _ (Nat.zero_le _), Nat.sub_self, read_zero, List.nil_append,
    Nat.sub_zero]

/-- The write position moves on, without reaching the read position from below. -/
theorem window_extend (h : rp ≤ wp ∨ wp + n < rp) :
    m.window cap rp (wp + n) = m.window cap rp wp ++ m.read wp n := by
  rcases h with h | h
  · obtain ⟨d, rfl⟩ := Nat.exists_eq_add_of_le h
    rw [window_of_le _ (by omega), window_of_le _ h, Nat.add_assoc, Nat.add_sub_cancel_left,
      Nat.add_sub_cancel_left, read_add]
  · rw [window_of_lt _ h, window_of_lt _ (by omega), read_add, Nat.zero_add, List.append_assoc]

section Write

variable (xs : List α)

/-- Cells outside the window do not show in it. -/
theorem window_write_outside (h : rp ≤ wp ∨ wp + xs.length ≤ rp) :
    (m.write wp xs).window cap rp wp = m.window cap rp wp := by
  rcases h with h | h
  · rw [window_of_le _ h, window_of_le _ h, read_write_of_le _ _ (by omega)]
  · by_cases hle : rp ≤ wp
    · rw [window_of_le _ hle, window_of_le _ hle, read_write_of_le _ _ (by omega)]
    · rw [window_of_lt _ (by omega), window_of_lt _ (by omega), read_write_of_ge _ h,
        read_write_of_le _ _ (by omega)]

theorem window_write_above (h : rp ≤ wp) :
    (m.write wp xs).window cap rp (wp + xs.length) = m.window cap rp wp ++ xs := by
  rw [window_extend cap (.inl h), window_write_outside cap xs (.inl h), read_write_self]

theorem window_write_below (h : wp + xs.length < rp) :
    (m.write wp xs).window cap rp (wp + xs.length) = m.window cap rp wp ++ xs := by
  rw [window_extend cap (.inr h), window_write_outside cap xs (.inr (Nat.le_of_lt h)),
    read_write_self]

/-- A write that reaches the end of the buffer goes on at its start. -/
theorem window_write_around {cap : Nat} (ys : List α) (h : rp ≤ wp) (hend : wp + xs.length = cap)
    (hys : ys.length < rp) :
    ((m.write wp xs).write 0 ys).window cap rp ys.length = m.window cap rp wp ++ (xs ++ ys) := by
  have hlen : cap - rp = (wp - rp) + xs.length := by omega
  rw [window_of_lt _ hys, window_of_le _ h, read_write_self, read_write_of_ge _ (by omega), hlen,
    read_add, read_write_of_le _ _ (by omega), show rp + (wp - rp) = wp by omega,
    read_write_self, List.append_assoc]

end Write

section Read

theorem take_window_of_le (h : rp + n ≤ wp) :
    (m.window cap rp wp).take n = m.read rp n := by
  rw [window_of_le _ (by omega), take_read _ (by omega)]

theorem drop_window_of_le (h : rp + n ≤ wp) :
    (m.window cap rp wp).drop n = m.window cap (rp + n) wp := by
  rw [window_of_le _ (by omega), window_of_le _ h, drop_read _ (by omega), Nat.sub_sub]

theorem take_window_of_lt {cap : Nat} (h : wp < rp) (hn : rp + n ≤ cap) :
    (m.window cap rp wp).take n = m.read rp n := by
  rw [window_of_lt _ h, List.take_append_of_le_length (by simp; omega), take_read _ (by omega)]

theorem drop_window_of_lt {cap : Nat} (h : wp < rp) (hn : rp + n ≤ cap) :
    (m.window cap rp wp).drop n = m.window cap (rp + n) wp := by
  rw [window_of_lt _ h, window_of_lt _ (by omega), List.drop_append_of_le_length (by simp; omega),
    drop_read _ (by omega), Nat.sub_sub]

/-- A read past the end of the buffer goes on at its start. -/
theorem take_window_around (h : wp < rp) (hn : n ≤ wp) :
    (m.window cap rp wp).take (cap - rp + n) = m.read rp (cap - rp) ++ m.read 0 n := by
  rw [window_of_lt _ h, List.take_append, length_read,
    List.take_of_length_le (by simp), Nat.add_sub_cancel_left, take_read _ hn]

theorem drop_window_around (h : wp < rp) (hn : n ≤ wp) :
    (m.window cap rp wp).drop (cap - rp + n) = m.window cap n wp := by
  rw [window_of_lt _ h, window_of_le _ hn, List.drop_append, length_read,
    List.drop_of_length_le (by simp), Nat.add_sub_cancel_left, drop_read _ hn, List.nil_append,
    Nat.zero_add]

end Read

end Mem

end BdkRtt.Lib
