import BdkRtt.Lib.Keyed

universe u v

namespace BdkRtt.Lib

namespace FirstBest

variable {α : Type u} {κ : Type v} [DecidableEq κ] (key : α → κ) (good : α → Bool)

/-- The one to keep, of `a` and an earlier one. -/
def better : Option α → α → α
  | none, a => a
  | some x, a => if good x || !good a then x else a

/-- The first good one, or the first. -/
def pick (xs : List α) : Option α := (xs.find? good).or xs.head?

/-- The elements of the key. -/
def ofKey (k : κ) (xs : List α) : List α := xs.filter fun x => decide (key x = k)

/-- The table keeps of the elements of each key the first good one, or the first one while there
is none. -/
def put (t : List α) (a : α) : List α :=
  match Keyed.lookup key t (key a) with
  | none => t ++ [a]
  | some x => if good x || !good a then t else Keyed.change key t (key a) fun _ => a

/-- The entries of the table are the ones to keep, of the elements `xs` of their keys. -/
def Right (t xs : List α) : Prop := ∀ x ∈ t, pick good (ofKey key (key x) xs) = some x

variable {key good} {t xs : List α} {a x : α} {k : κ}

theorem pick_nil : pick good [] = none := rfl

theorem pick_cons (x : α) (xs : List α) :
    pick good (x :: xs) = some (if good x then x else (xs.find? good).getD x) := by
  rw [pick, List.find?_cons, List.head?_cons]
  cases good x
  · cases xs.find? good <;> rfl
  · rfl

theorem pick_concat (xs : List α) (a : α) :
    pick good (xs ++ [a]) = some (better good (pick good xs) a) := by
  cases xs with
  | nil =>
    rw [List.nil_append, pick_cons, pick_nil, List.find?_nil, Option.getD_none, ite_self]
    rfl
  | cons x xs =>
    rw [List.cons_append, pick_cons, pick_cons, List.find?_append, better]
    by_cases hx : good x = true
    · rw [if_pos hx, if_pos hx, hx, Bool.true_or, if_pos rfl]
    · rw [if_neg hx, if_neg hx]
      cases hfind : xs.find? good with
      | none =>
        have hx : good x = false := by simpa using hx
        rw [Option.none_or, Option.getD_none, List.find?_cons, List.find?_nil, hx, Bool.false_or]
        cases good a <;> rfl
      | some y =>
        rw [Option.some_or, Option.getD_some, List.find?_some hfind, Bool.true_or, if_pos rfl]

theorem ofKey_concat_self : ofKey key (key a) (xs ++ [a]) = ofKey key (key a) xs ++ [a] := by
  rw [ofKey, List.filter_append, List.filter_cons, decide_eq_true rfl, if_pos rfl, List.filter_nil,
    ofKey]

theorem ofKey_concat_ne (h : key a ≠ k) : ofKey key k (xs ++ [a]) = ofKey key k xs := by
  rw [ofKey, List.filter_append, List.filter_cons, decide_eq_false h, if_neg Bool.false_ne_true,
    List.filter_nil, List.append_nil, ofKey]

theorem put_nodup (h : (t.map key).Nodup) : ((put key good t a).map key).Nodup := by
  unfold put
  split
  next hnone => exact Keyed.nodup_concat h (Keyed.lookup_eq_none.mp hnone)
  next x hx =>
    split
    · exact h
    · rw [Keyed.map_change]
      · exact h
      · intro e he
        exact he.symm

theorem mem_put (hnodup : (t.map key).Nodup) (h : x ∈ put key good t a) :
    (x ∈ t ∧ key x ≠ key a) ∨ x = better good (Keyed.lookup key t (key a)) a := by
  unfold put at h
  split at h
  next hnone =>
    rw [hnone]
    rcases List.mem_append.mp h with h | h
    · exact .inl ⟨h, Keyed.lookup_eq_none.mp hnone x h⟩
    · exact .inr (List.mem_singleton.mp h)
  next y hy =>
    rw [hy, better]
    split at h
    next hkeep =>
      rw [if_pos hkeep]
      by_cases hx : key x = key a
      · rw [← hx, Keyed.lookup_of_mem hnodup h] at hy
        exact .inr (Option.some.inj hy)
      · exact .inl ⟨h, hx⟩
    next hchange =>
      rw [if_neg hchange]
      rcases Keyed.mem_change h with hother | ⟨e, -, -, he⟩
      · exact .inl hother
      · exact .inr he

theorem better_mem_put : better good (Keyed.lookup key t (key a)) a ∈ put key good t a := by
  unfold put
  split
  next hnone =>
    rw [hnone]
    exact List.mem_append_right _ (List.mem_singleton_self a)
  next y hy =>
    rw [hy, better]
    split
    · exact Keyed.mem_of_lookup hy
    · exact List.mem_map.mpr ⟨y, Keyed.mem_of_lookup hy, if_pos (Keyed.key_of_lookup hy)⟩

/-- Of an entry with another key nothing is changed. -/
theorem right_ne_iff (hne : key x ≠ key a) :
    pick good (ofKey key (key x) (xs ++ [a])) = some x ↔
      pick good (ofKey key (key x) xs) = some x := by
  rw [ofKey_concat_ne (Ne.symm hne)]

theorem key_better : key (better good (Keyed.lookup key t (key a)) a) = key a := by
  cases hy : Keyed.lookup key t (key a) with
  | none => rfl
  | some y =>
    rw [better]
    split
    · exact Keyed.key_of_lookup hy
    · rfl

/-- An element that is put in keeps the table right, unless it begins an entry and is not the one
to keep of all that there were. -/
theorem Right.put_iff (hr : Right key good t xs) (hnodup : (t.map key).Nodup) :
    Right key good (put key good t a) (xs ++ [a]) ↔
      (Keyed.lookup key t (key a) = none →
        pick good (ofKey key (key a) (xs ++ [a])) = some a) := by
  constructor
  · intro h hnone
    have hnew := h _ better_mem_put
    rw [@key_better _ _ _ key, hnone] at hnew
    exact hnew
  · intro h x hx
    rcases mem_put hnodup hx with ⟨hx, hne⟩ | rfl
    · exact (right_ne_iff hne).mpr (hr x hx)
    rw [@key_better _ _ _ key]
    cases hy : Keyed.lookup key t (key a) with
    | none => exact h hy
    | some y =>
      have hpick := hr y (Keyed.mem_of_lookup hy)
      rw [Keyed.key_of_lookup hy] at hpick
      rw [ofKey_concat_self, pick_concat, hpick]

/-- An element that is left out keeps the table right, if it is none that should replace its
entry. -/
theorem Right.drop_iff (hr : Right key good t xs) (hnodup : (t.map key).Nodup) :
    Right key good t (xs ++ [a]) ↔
      ∀ x, Keyed.lookup key t (key a) = some x → (good x || !good a) = true := by
  constructor
  · intro h x hx
    have hmem := Keyed.mem_of_lookup hx
    have hold := hr x hmem
    have hnew := h x hmem
    rw [Keyed.key_of_lookup hx] at hold hnew
    rw [ofKey_concat_self, pick_concat, hold, Option.some.injEq, better] at hnew
    by_contra hkeep
    rw [if_neg hkeep] at hnew
    rw [hnew] at hkeep
    simp at hkeep
  · intro h x hx
    by_cases hkey : key x = key a
    · have hlookup := Keyed.lookup_of_mem hnodup hx
      rw [hkey] at hlookup
      have hold := hr x hx
      rw [hkey] at hold ⊢
      rw [ofKey_concat_self, pick_concat, hold, better, if_pos (h x hlookup)]
    · exact (right_ne_iff hkey).mpr (hr x hx)

theorem right_nil : Right key good [] xs := fun _ hx => absurd hx List.not_mem_nil

/-- With the same entries in another order. -/
theorem Right.perm {t' : List α} (hr : Right key good t xs) (hp : t'.Perm t) :
    Right key good t' xs := fun x hx => hr x (hp.mem_iff.mp hx)

theorem length_put_le : (put key good t a).length ≤ t.length + 1 := by
  unfold put
  split
  next => exact Nat.le_of_eq List.length_append
  next =>
    split
    · exact Nat.le_succ _
    · rw [Keyed.change, List.length_map]
      exact Nat.le_succ _

end FirstBest

end BdkRtt.Lib
