import Mathlib.Data.List.Basic
import Mathlib.Data.List.Nodup

universe u v

namespace BdkRtt.Lib

namespace Keyed

variable {ε : Type u} {κ : Type v} [DecidableEq κ] (key : ε → κ)

/-- The first entry with the key. -/
def lookup (es : List ε) (k : κ) : Option ε := es.find? fun e => decide (key e = k)

def remove (es : List ε) (k : κ) : List ε := es.filter fun e => decide (key e ≠ k)

/-- The entries with the key changed, the others as they are. -/
def change (es : List ε) (k : κ) (f : ε → ε) : List ε :=
  es.map fun e => if key e = k then f e else e

variable {key} {es : List ε} {e : ε} {j k : κ} {f : ε → ε}

@[simp] theorem lookup_nil (k : κ) : lookup key [] k = none := rfl

theorem lookup_cons (e : ε) (es : List ε) (k : κ) :
    lookup key (e :: es) k = if key e = k then some e else lookup key es k := by
  rw [lookup, List.find?_cons]
  by_cases h : key e = k
  · rw [decide_eq_true h, if_pos h]
  · rw [decide_eq_false h, if_neg h]
    rfl

theorem lookup_eq_none : lookup key es k = none ↔ ∀ e ∈ es, key e ≠ k := by
  rw [lookup, List.find?_eq_none]
  simp only [decide_eq_true_eq, ne_eq]

theorem key_of_lookup (h : lookup key es k = some e) : key e = k := by
  rw [lookup] at h
  have hfits := List.find?_some h
  exact of_decide_eq_true hfits

theorem mem_of_lookup (h : lookup key es k = some e) : e ∈ es := List.mem_of_find?_eq_some h

/-- Of entries with different keys each is the one that its key finds. -/
theorem lookup_of_mem (hnodup : (es.map key).Nodup) (h : e ∈ es) :
    lookup key es (key e) = some e := by
  induction es with
  | nil => exact absurd h List.not_mem_nil
  | cons e' es ih =>
    rw [List.map_cons, List.nodup_cons] at hnodup
    rw [lookup_cons]
    rcases List.mem_cons.mp h with rfl | h
    · rw [if_pos rfl]
    · have hne : key e' ≠ key e := fun heq => hnodup.1 (heq ▸ List.mem_map_of_mem h)
      rw [if_neg hne, ih hnodup.2 h]

theorem nodup_concat {β : Type*} {g : ε → β} (h : (es.map g).Nodup)
    (hnew : ∀ e' ∈ es, g e' ≠ g e) : ((es ++ [e]).map g).Nodup := by
  rw [List.map_append, List.nodup_append]
  refine ⟨h, List.nodup_singleton _, ?_⟩
  intro a ha b hb
  obtain ⟨e', he', rfl⟩ := List.mem_map.mp ha
  rw [List.mem_singleton.mp hb]
  exact hnew e' he'

theorem lookup_concat (h : lookup key es (key e) = none) (k : κ) :
    lookup key (es ++ [e]) k = if k = key e then some e else lookup key es k := by
  rw [lookup, List.find?_append, ← lookup]
  split
  next hk =>
    rw [hk, h, Option.none_or, List.find?_cons, decide_eq_true rfl]
  next hk =>
    rw [List.find?_cons, decide_eq_false (Ne.symm hk), List.find?_nil, Option.or_none]

theorem lookup_remove (es : List ε) (j k : κ) :
    lookup key (remove key es j) k = if k = j then none else lookup key es k := by
  induction es with
  | nil => rw [remove, List.filter_nil, lookup_nil, ite_self]
  | cons e es ih =>
    rw [remove, List.filter_cons, ← remove]
    by_cases hj : key e = j
    · rw [decide_eq_false (not_not.mpr hj), if_neg Bool.false_ne_true, ih, lookup_cons, hj]
      split
      next => rfl
      next hk => rw [if_neg (Ne.symm hk)]
    · rw [decide_eq_true hj, if_pos rfl, lookup_cons, ih, lookup_cons]
      split
      next hk =>
        have hkj : k ≠ j := fun h => hj (hk.trans h)
        rw [if_neg hkj]
      next => rfl

theorem lookup_change (hf : ∀ e, key e = j → key (f e) = j) (es : List ε) (k : κ) :
    lookup key (change key es j f) k =
      if k = j then (lookup key es k).map f else lookup key es k := by
  induction es with
  | nil => rw [change, List.map_nil, lookup_nil, Option.map_none, ite_self]
  | cons e es ih =>
    rw [change, List.map_cons, ← change, lookup_cons, ih, lookup_cons]
    by_cases hj : key e = j
    · rw [if_pos hj, hf e hj]
      by_cases hk : k = j
      · rw [hk, if_pos rfl, if_pos rfl, if_pos hj, Option.map_some]
      · rw [if_neg (Ne.symm hk), if_neg hk, if_neg hk, hj, if_neg (Ne.symm hk)]
    · rw [if_neg hj]
      by_cases hk : key e = k
      · rw [if_pos hk, if_neg fun h => hj (hk.trans h), if_pos hk]
      · rw [if_neg hk, if_neg hk]

theorem mem_remove : e ∈ remove key es k ↔ e ∈ es ∧ key e ≠ k := by
  rw [remove, List.mem_filter, decide_eq_true_eq]

theorem mem_change (h : e ∈ change key es k f) :
    (e ∈ es ∧ key e ≠ k) ∨ ∃ e' ∈ es, key e' = k ∧ e = f e' := by
  obtain ⟨e', he', rfl⟩ := List.mem_map.mp h
  split
  next hk => exact .inr ⟨e', he', hk, rfl⟩
  next hk => exact .inl ⟨he', hk⟩

theorem map_change {β : Type*} {g : ε → β} (h : ∀ e, key e = k → g (f e) = g e) (es : List ε) :
    (change key es k f).map g = es.map g := by
  rw [change, List.map_map]
  refine List.map_congr_left fun e _ => ?_
  rw [Function.comp_apply]
  split
  next hk => exact h e hk
  next => rfl

theorem remove_of_lookup_eq_none (h : lookup key es k = none) : remove key es k = es :=
  List.filter_eq_self.mpr fun e he => decide_eq_true (lookup_eq_none.mp h e he)

theorem change_of_lookup_eq_none (h : lookup key es k = none) : change key es k f = es := by
  rw [change]
  refine (List.map_congr_left fun e he => ?_).trans (List.map_id' _)
  exact if_neg (lookup_eq_none.mp h e he)

/-- Of entries with different keys, what changes one changes its place alone. -/
theorem change_eq_set (hnodup : (es.map key).Nodup) {i : Nat} (h : es[i]? = some e) :
    change key es (key e) f = es.set i (f e) := by
  induction es generalizing i with
  | nil =>
    rw [List.getElem?_nil] at h
    cases h
  | cons e' es ih =>
    rw [List.map_cons, List.nodup_cons] at hnodup
    cases i with
    | zero =>
      obtain rfl := Option.some.inj h
      have hrest : change key es (key e') f = es := by
        refine change_of_lookup_eq_none (lookup_eq_none.mpr fun e he heq => hnodup.1 ?_)
        rw [← heq]
        exact List.mem_map_of_mem he
      rw [change, List.map_cons, if_pos rfl, ← change, hrest, List.set_cons_zero]
    | succ i =>
      rw [List.getElem?_cons_succ] at h
      have hne : key e' ≠ key e :=
        fun heq => hnodup.1 (heq ▸ List.mem_map_of_mem (List.mem_of_getElem? h))
      rw [change, List.map_cons, if_neg hne, ← change, ih hnodup.2 h, List.set_cons_succ]

/-- The entry found stands between others, whose keys are not its own. -/
theorem split_of_lookup (hnodup : (es.map key).Nodup) (h : lookup key es k = some e) :
    ∃ pre post, es = pre ++ e :: post ∧ remove key es k = pre ++ post := by
  obtain ⟨pre, post, rfl⟩ := List.append_of_mem (mem_of_lookup h)
  have hk := key_of_lookup h
  refine ⟨pre, post, rfl, ?_⟩
  rw [List.map_append, List.map_cons, List.nodup_append, List.nodup_cons] at hnodup
  obtain ⟨-, ⟨hpost, -⟩, hpre⟩ := hnodup
  rw [remove, List.filter_append, List.filter_cons, decide_eq_false (not_not.mpr hk),
    if_neg Bool.false_ne_true, List.filter_eq_self.mpr, List.filter_eq_self.mpr]
  · intro e' he'
    exact decide_eq_true fun heq => hpost (hk ▸ heq ▸ List.mem_map_of_mem he')
  · intro e' he'
    refine decide_eq_true fun heq => hpre _ (List.mem_map_of_mem he') _ List.mem_cons_self ?_
    rw [heq, hk]

end Keyed

end BdkRtt.Lib
