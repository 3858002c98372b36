import Mathlib.Data.List.Sort

universe u v

/-! Insertion into a list behind the elements that do not rank below the new one. -/

namespace BdkRtt.Lib.Ranked

variable {α : Type u} {κ : Type v} [LinearOrder κ] (rank : α → κ)

/-- No element ranks above one in front of it. -/
abbrev Sorted (xs : List α) : Prop := xs.Pairwise fun x y => rank y ≤ rank x

/-- `a` goes in front of the first element that ranks below it. -/
def insert (a : α) (xs : List α) : List α := xs.orderedInsert (fun a b => rank b < rank a) a

variable {rank} {a : α} {xs : List α}

theorem insert_perm : (insert rank a xs).Perm (a :: xs) := List.perm_orderedInsert _ _ _

/-- Where all of `xs` rank at least as high, the place is further on. -/
theorem insert_append {ys : List α} (h : ∀ b ∈ xs, rank a ≤ rank b) :
    insert rank a (xs ++ ys) = xs ++ insert rank a ys := by
  induction xs with
  | nil => rfl
  | cons x xs ih =>
    have hx : ¬ rank x < rank a := not_lt.mpr (h x List.mem_cons_self)
    rw [List.cons_append, insert, List.orderedInsert_cons, if_neg hx, List.cons_append]
    exact congrArg (x :: ·) (ih fun b hb => h b (List.mem_cons_of_mem x hb))

theorem insert_cons_of_lt {x : α} (h : rank x < rank a) : insert rank a (x :: xs) = a :: x :: xs :=
  List.orderedInsert_cons_of_le _ _ h

@[simp] theorem insert_nil : insert rank a [] = [a] := rfl

theorem map_insert {β : Type u} {rank' : β → κ} (f : α → β) (h : ∀ x, rank' (f x) = rank x) :
    (insert rank a xs).map f = insert rank' (f a) (xs.map f) := by
  induction xs with
  | nil => rfl
  | cons x xs ih =>
    by_cases hx : rank x < rank a
    · have hx' : rank' (f x) < rank' (f a) := by rwa [h, h]
      rw [insert_cons_of_lt hx, List.map_cons, List.map_cons, insert_cons_of_lt hx']
    · have hx' : ¬ rank' (f x) < rank' (f a) := by rwa [h, h]
      rw [insert, List.orderedInsert_cons, if_neg hx, List.map_cons, List.map_cons, insert,
        List.orderedInsert_cons, if_neg hx']
      exact congrArg (f x :: ·) ih

/-- In a list that is sorted by rank, the place of the new element parts those that rank at least
as high from the others. -/
theorem pairwise_insert_iff (hsorted : Sorted rank xs) (R : α → α → Prop) :
    (insert rank a xs).Pairwise R ↔ xs.Pairwise R ∧
      ∀ b ∈ xs, (rank a ≤ rank b → R b a) ∧ (rank b < rank a → R a b) := by
  induction xs with
  | nil => simp
  | cons x xs ih =>
    obtain ⟨hx, hxs⟩ := List.pairwise_cons.mp hsorted
    by_cases hlt : rank x < rank a
    · have hall : ∀ b ∈ x :: xs, rank b < rank a := by
        intro b hb
        rcases List.mem_cons.mp hb with rfl | hb
        · exact hlt
        · exact lt_of_le_of_lt (hx b hb) hlt
      rw [insert_cons_of_lt hlt, List.pairwise_cons, and_comm]
      refine and_congr_right fun _ => forall₂_congr fun b hb => ?_
      have hb := hall b hb
      exact ⟨fun h => ⟨fun hle => absurd hb (not_lt.mpr hle), fun _ => h⟩, fun h => h.2 hb⟩
    · rw [insert, List.orderedInsert_cons, if_neg hlt]
      change (x :: insert rank a xs).Pairwise R ↔ _
      rw [List.pairwise_cons, ih hxs, List.pairwise_cons, List.forall_mem_cons]
      have hmem : (∀ b ∈ insert rank a xs, R x b) ↔ R x a ∧ ∀ b ∈ xs, R x b := by
        rw [← List.forall_mem_cons]
        exact forall_congr' fun b => imp_congr_left insert_perm.mem_iff
      rw [hmem]
      have hhead : ((rank a ≤ rank x → R x a) ∧ (rank x < rank a → R a x)) ↔ R x a :=
        ⟨fun h => h.1 (not_lt.mp hlt), fun h => ⟨fun _ => h, fun h' => absurd h' hlt⟩⟩
      rw [hhead]
      exact ⟨fun ⟨⟨hxa, hxb⟩, hR, hb⟩ => ⟨⟨hxb, hR⟩, hxa, hb⟩,
        fun ⟨⟨hxb, hR⟩, hxa, hb⟩ => ⟨⟨hxa, hxb⟩, hR, hb⟩⟩

theorem insert_sorted (h : Sorted rank xs) : Sorted rank (insert rank a xs) :=
  (pairwise_insert_iff h _).mpr ⟨h, fun _ _ => ⟨id, le_of_lt⟩⟩

end BdkRtt.Lib.Ranked
