import Mathlib.Data.List.Basic
import Mathlib.Data.List.GetD
import Mathlib.Logic.Function.Basic

universe u

namespace BdkRtt.Lib

/-- Memory seen from the start of an object: the cell at each offset. -/
abbrev Mem (α : Type u) := Nat → α

namespace Mem

variable {α : Type u}

/-- The `n` cells from offset `i` on. -/
def read (m : Mem α) (i n : Nat) : List α := (List.range n).map fun k => m (i + k)

/-- Memory after the cells `xs` are stored from offset `i` on. -/
def write (m : Mem α) (i : Nat) (xs : List α) : Mem α := fun k =>
  if k < i then m k else xs.getD (k - i) (m k)

@[simp] theorem write_nil (m : Mem α) (i : Nat) : m.write i [] = m := by
  funext k
  simp [write]

@[simp] theorem length_read (m : Mem α) (i n : Nat) : (m.read i n).length = n := by
  simp [read]

@[simp] theorem read_zero (m : Mem α) (i : Nat) : m.read i 0 = [] := rfl

theorem read_add (m : Mem α) (i a b : Nat) :
    m.read i (a + b) = m.read i a ++ m.read (i + a) b := by
  simp [read, List.range_add, Nat.add_assoc]

theorem read_congr {m m' : Mem α} {i n : Nat} (h : ∀ k, i ≤ k → k < i + n → m k = m' k) :
    m.read i n = m'.read i n := by
  apply List.map_congr_left
  intro k hk
  exact h _ (by omega) (by have := List.mem_range.mp hk; omega)

theorem take_read (m : Mem α) {i n k : Nat} (hk : k ≤ n) : (m.read i n).take k = m.read i k := by
  obtain ⟨d, rfl⟩ := Nat.exists_eq_add_of_le hk
  rw [read_add, List.take_left' (length_read ..)]

theorem drop_read (m : Mem α) {i n k : Nat} (hk : k ≤ n) :
    (m.read i n).drop k = m.read (i + k) (n - k) := by
  obtain ⟨d, rfl⟩ := Nat.exists_eq_add_of_le hk
  rw [read_add, List.drop_left' (length_read ..), Nat.add_sub_cancel_left]

theorem write_apply_of_lt (m : Mem α) {i k : Nat} (xs : List α) (h : k < i) :
    m.write i xs k = m k := by
  simp [write, h]

theorem write_apply_of_ge (m : Mem α) {i k : Nat} {xs : List α} (h : i + xs.length ≤ k) :
    m.write i xs k = m k := by
  have : ¬ k < i := by omega
  rw [write, if_neg this, List.getD_eq_default]
  omega

theorem write_apply_mem (m : Mem α) (i : Nat) {xs : List α} {k : Nat} (h : k < xs.length) :
    m.write i xs (i + k) = xs[k] := by
  have : ¬ i + k < i := by omega
  simp [write, this, h]

theorem write_cons (m : Mem α) (i : Nat) (x : α) (xs : List α) :
    m.write i (x :: xs) = write (Function.update m i x) (i + 1) xs := by
  funext k
  rcases Nat.lt_trichotomy k i with hk | rfl | hk
  · rw [write_apply_of_lt m _ hk, write_apply_of_lt _ xs (by omega),
      Function.update_of_ne (by omega)]
  · have hpos : 0 < (x :: xs).length := Nat.zero_lt_succ _
    rw [write_apply_of_lt _ xs (by omega), Function.update_self]
    exact write_apply_mem m k hpos
  · have hlt : ¬ k < i := by omega
    have hlt' : ¬ k < i + 1 := by omega
    have hsub : k - i = k - (i + 1) + 1 := by omega
    rw [write, write, if_neg hlt, if_neg hlt', hsub, List.getD_cons_succ,
      Function.update_of_ne (by omega)]

theorem write_append (m : Mem α) (i : Nat) (xs ys : List α) :
    (m.write i xs).write (i + xs.length) ys = m.write i (xs ++ ys) := by
  induction xs generalizing m i with
  | nil => rw [write_nil, List.length_nil, Nat.add_zero, List.nil_append]
  | cons x xs ih =>
    rw [write_cons, List.cons_append, write_cons, ← ih, List.length_cons, Nat.add_assoc,
      Nat.add_comm 1]

theorem read_write_of_le (m : Mem α) {i n j : Nat} (xs : List α) (h : i + n ≤ j) :
    (m.write j xs).read i n = m.read i n :=
  read_congr fun _ _ hk => write_apply_of_lt m xs (by omega)

theorem read_write_of_ge (m : Mem α) {i n j : Nat} {xs : List α} (h : j + xs.length ≤ i) :
    (m.write j xs).read i n = m.read i n :=
  read_congr fun _ hk _ => write_apply_of_ge m (by omega)

@[simp] theorem read_write_self (m : Mem α) (i : Nat) (xs : List α) :
    (m.write i xs).read i xs.length = xs := by
  apply List.ext_getElem (by simp)
  intro k _ hk
  simp [read, write_apply_mem m i hk]

/-- The cells from offset `i` on are `xs`. -/
def Has (m : Mem α) (i : Nat) (xs : List α) : Prop := m.read i xs.length = xs

theorem has_append {m : Mem α} {i : Nat} {xs ys : List α} :
    m.Has i (xs ++ ys) ↔ m.Has i xs ∧ m.Has (i + xs.length) ys := by
  rw [Has, List.length_append, read_add]
  exact ⟨fun h => List.append_inj h (length_read ..), fun h => congrArg₂ _ h.1 h.2⟩

theorem Has.read {m : Mem α} {i : Nat} {xs : List α} (h : m.Has i xs) {k n : Nat}
    (hk : k + n ≤ xs.length) : m.read (i + k) n = (xs.drop k).take n := by
  rw [← h, drop_read m (by omega), take_read m (by omega)]

theorem Has.apply_of_getElem? {m : Mem α} {i k : Nat} {xs : List α} {x : α} (h : m.Has i xs)
    (hk : xs[k]? = some x) : m (i + k) = x := by
  have hlt : k < xs.length := (List.getElem?_eq_some_iff.mp hk).1
  rw [← h, Mem.read, List.getElem?_map, List.getElem?_range hlt] at hk
  exact Option.some.inj hk

@[simp] theorem has_singleton {m : Mem α} {i : Nat} {x : α} : m.Has i [x] ↔ m i = x := by
  simp [Has, Mem.read]

theorem has_cons {m : Mem α} {i : Nat} {x : α} {xs : List α} :
    m.Has i (x :: xs) ↔ m i = x ∧ m.Has (i + 1) xs := by
  rw [← List.singleton_append, has_append, has_singleton]
  rfl

theorem has_write_self (m : Mem α) (i : Nat) (xs : List α) : (m.write i xs).Has i xs :=
  read_write_self ..

section Cursor

/-- A buffer and the place in it where the next cells go. -/
structure Cursor (α : Type u) where
  mem : Mem α
  pos : Nat

def Cursor.put (c : Cursor α) (xs : List α) : Cursor α where
  mem := c.mem.write c.pos xs
  pos := c.pos + xs.length

/-- The cells from `i` up to the cursor are `xs`. -/
def Cursor.Wrote (c : Cursor α) (i : Nat) (xs : List α) : Prop :=
  c.mem.Has i xs ∧ c.pos = i + xs.length

theorem Cursor.Wrote.put {c : Cursor α} {i : Nat} {xs : List α} (h : c.Wrote i xs)
    (ys : List α) : (c.put ys).Wrote i (xs ++ ys) := by
  obtain ⟨hmem, hpos⟩ := h
  refine ⟨has_append.mpr ⟨?_, ?_⟩, ?_⟩
  · rw [Has, Cursor.put, read_write_of_le _ _ (by omega)]
    exact hmem
  · rw [Cursor.put, hpos]
    exact has_write_self ..
  · rw [Cursor.put, hpos, List.length_append, Nat.add_assoc]

end Cursor

end Mem

end BdkRtt.Lib
