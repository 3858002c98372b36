import BdkRtt.Lib.Mem

namespace BdkRtt.Lib

/-- The bytes stand at `p`, none of them zero, and a zero behind them. -/
def StringAt (m : Mem UInt8) : Nat → List UInt8 → Prop
  | p, [] => m p = 0
  | p, x :: xs => m p = x ∧ x ≠ 0 ∧ StringAt m (p + 1) xs

/-- Memory from the start of a string on. -/
structure NulString where
  mem : Mem UInt8
  bytes : List UInt8
  stands : StringAt mem 0 bytes

namespace NulString

def strlen (s : NulString) : Nat := s.bytes.length

/-- A string with nothing but zeros behind it. -/
def ofList (bytes : List UInt8) (h : ∀ x ∈ bytes, x ≠ 0) : NulString where
  mem k := bytes.getD k 0
  bytes := bytes
  stands := by
    have hat (pre xs : List UInt8) (hx : ∀ x ∈ xs, x ≠ 0) :
        StringAt (fun k => (pre ++ xs).getD k 0) pre.length xs := by
      induction xs generalizing pre with
      | nil => simp [StringAt]
      | cons x xs ih =>
        refine ⟨?_, hx x List.mem_cons_self, ?_⟩
        · simp
        · have hrest := ih (pre ++ [x]) fun y hy => hx y (List.mem_cons_of_mem x hy)
          rw [List.append_assoc, List.length_append] at hrest
          exact hrest
    exact hat [] bytes h

end NulString

theorem StringAt.drop {m : Mem UInt8} {p : Nat} {xs ys : List UInt8} {x : UInt8} {i : Nat}
    (h : StringAt m p xs) (hdrop : xs.drop i = x :: ys) : m (p + i) = x := by
  induction xs generalizing p i with
  | nil =>
    rw [List.drop_nil] at hdrop
    cases hdrop
  | cons z zs ih =>
    cases i with
    | zero =>
      obtain ⟨rfl, -⟩ := List.cons.inj hdrop
      exact h.1
    | succ i =>
      have hrest := ih h.2.2 hdrop
      rw [Nat.add_assoc, Nat.add_comm 1 i] at hrest
      exact hrest

end BdkRtt.Lib
