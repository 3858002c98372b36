import Mathlib.Data.List.Basic
import Mathlib.Logic.Function.Basic
import Mathlib.Logic.Relation

universe u

namespace BdkRtt.Lib

variable {α : Type u} [DecidableEq α]

section After

/-- The element behind `a`. -/
def after : List α → α → Option α
  | [], _ => none
  | b :: l, a => if b = a then l.head? else after l a

theorem after_of_not_mem {l : List α} {a : α} (ha : a ∉ l) : after l a = none := by
  induction l with
  | nil => rfl
  | cons b l ih =>
    rw [after, if_neg (Ne.symm (List.ne_of_not_mem_cons ha)), ih (List.not_mem_of_not_mem_cons ha)]

theorem mem_of_after {l : List α} {a b : α} (h : after l a = some b) : b ∈ l := by
  induction l with
  | nil => cases h
  | cons c l ih =>
    rw [after] at h
    split at h
    · exact List.mem_cons_of_mem _ (List.mem_of_mem_head? h)
    · exact List.mem_cons_of_mem _ (ih h)

theorem after_head {l : List α} {a : α} : after (a :: l) a = l.head? := if_pos rfl

theorem after_of_append {pre post : List α} {a b : α} (hl : (pre ++ a :: b :: post).Nodup) :
    after (pre ++ a :: b :: post) a = some b := by
  induction pre with
  | nil => exact after_head
  | cons c pre ih =>
    obtain ⟨hc, hl⟩ := List.nodup_cons.mp hl
    have hne : c ≠ a := fun h => hc (by simp [h])
    rw [List.cons_append, after, if_neg hne, ih hl]

/-- Whoever stood in front of the element that is taken out then stands in front of the one that
was behind it. -/
theorem after_erase {l : List α} (hl : l.Nodup) {a n : α} (hne : a ≠ n) :
    after (l.erase n) a = if after l a = some n then after l n else after l a := by
  induction l with
  | nil => rfl
  | cons b l ih =>
    obtain ⟨hb, hl⟩ := List.nodup_cons.mp hl
    by_cases hbn : b = n
    · have hout : after l a ≠ some n := fun h => hb (hbn ▸ mem_of_after h)
      have hba : b ≠ a := fun h => hne (h.symm.trans hbn)
      have hback : after (b :: l) a = after l a := if_neg hba
      rw [hback, if_neg hout, hbn, List.erase_cons_head]
    · rw [List.erase_cons_tail (by simpa using hbn)]
      by_cases hba : b = a
      · subst hba
        rw [after_head, after_head]
        cases l with
        | nil => rfl
        | cons c l =>
          by_cases hcn : c = n
          · subst hcn
            rw [List.erase_cons_head, List.head?_cons, if_pos rfl, after, if_neg hbn, after_head]
          · rw [List.erase_cons_tail (by simpa using hcn), List.head?_cons, List.head?_cons,
              if_neg fun h => hcn (Option.some.inj h)]
      · rw [after, if_neg hba, after, if_neg hba, after, if_neg hbn, ih hl]

theorem after_append {l : List α} {a b c : α} (h : after l a = some b) :
    after (l ++ [c]) a = some b := by
  induction l with
  | nil => cases h
  | cons d l ih =>
    rw [after] at h
    rw [List.cons_append, after]
    split at h
    case isTrue heq =>
      rw [if_pos heq, List.head?_append, h]
      rfl
    case isFalse hne => rw [if_neg hne, ih h]

theorem after_append_self {l : List α} {a : α} (ha : a ∉ l) : after (l ++ [a]) a = none := by
  induction l with
  | nil => exact after_head
  | cons b l ih =>
    rw [List.cons_append, after, if_neg (Ne.symm (List.ne_of_not_mem_cons ha)),
      ih (List.not_mem_of_not_mem_cons ha)]

/-- What is behind an element in the longer list was so before, or is the new one. -/
theorem after_append_cases {l : List α} {a b c : α} (h : after (l ++ [c]) a = some b) :
    after l a = some b ∨ b = c := by
  induction l with
  | nil =>
    rw [List.nil_append, after] at h
    split at h <;> cases h
  | cons d l ih =>
    rw [List.cons_append, after] at h
    rw [after]
    split at h
    case isTrue heq =>
      rw [if_pos heq]
      cases l with
      | nil => exact .inr (Option.some.inj h).symm
      | cons e l => exact .inl h
    case isFalse hne =>
      rw [if_neg hne]
      exact ih h

end After

/-- A linked list whose elements keep their link when they are taken out, for whoever has stopped
at one of them. -/
structure Links (α : Type u) where
  elems : List α
  /-- The link of an element that is not in the list. -/
  left : α → Option α

namespace Links

variable {c : Links α} {a b n : α} {p : Option α}

def empty : Links α where
  elems := []
  left := fun _ => none

def next (c : Links α) (a : α) : Option α :=
  if a ∈ c.elems then after c.elems a else c.left a

def pushBack (c : Links α) (a : α) : Links α where
  elems := c.elems ++ [a]
  left := c.left

/-- Nothing happens to an element that is not in the list. -/
def extract (c : Links α) (n : α) : Links α where
  elems := c.elems.erase n
  left := Function.update c.left n (c.next n)

/-- What a walk from `a` comes to. -/
def Reach (c : Links α) : α → α → Prop := Relation.ReflTransGen fun a b => c.next a = some b

/-- What is ahead of a walk that stands at `p`. -/
def Ahead (c : Links α) (p : Option α) (b : α) : Prop := ∃ a ∈ p, c.Reach a b

section Next

theorem next_of_mem (ha : a ∈ c.elems) : c.next a = after c.elems a := if_pos ha

theorem next_of_not_mem (ha : a ∉ c.elems) : c.next a = c.left a := if_neg ha

theorem next_extract_self (hc : c.elems.Nodup) : (c.extract n).next n = c.next n := by
  rw [next_of_not_mem (by exact hc.not_mem_erase)]
  exact Function.update_self ..

theorem next_extract (hc : c.elems.Nodup) (hne : a ≠ n) :
    (c.extract n).next a = if a ∈ c.elems ∧ c.next a = some n then c.next n else c.next a := by
  have hmem : a ∈ (c.extract n).elems ↔ a ∈ c.elems := List.mem_erase_of_ne hne
  by_cases ha : a ∈ c.elems
  · rw [next_of_mem (hmem.mpr ha), next_of_mem ha]
    refine (after_erase hc hne).trans ?_
    by_cases han : after c.elems a = some n
    · rw [if_pos han, if_pos ⟨ha, han⟩, next_of_mem (mem_of_after han)]
    · rw [if_neg han, if_neg fun h => han h.2]
  · rw [next_of_not_mem (mt hmem.mp ha), if_neg fun h => ha h.1, next_of_not_mem ha]
    exact Function.update_of_ne hne ..

theorem next_pushBack (hout : a ∉ c.elems) (hleft : c.left a = none) (h : c.next b = some n) :
    (c.pushBack a).next b = some n := by
  by_cases hb : b ∈ c.elems
  · rw [next_of_mem hb] at h
    rw [next_of_mem (by exact List.mem_append_left _ hb)]
    exact after_append h
  · have hba : b ≠ a := by
      rintro rfl
      rw [next_of_not_mem hout, hleft] at h
      cases h
    rw [next_of_not_mem hb] at h
    rw [next_of_not_mem (c := c.pushBack a) (by simp [pushBack, hb, hba])]
    exact h

theorem next_pushBack_self (hout : a ∉ c.elems) : (c.pushBack a).next a = none := by
  rw [next_of_mem (by simp [pushBack])]
  exact after_append_self hout

theorem next_pushBack_cases (h : (c.pushBack a).next b = some n) : c.next b = some n ∨ n = a := by
  by_cases hb : b ∈ (c.pushBack a).elems
  · rw [next_of_mem hb] at h
    refine (after_append_cases h).imp_left fun hafter => ?_
    have hin : b ∈ c.elems := by
      by_contra hout
      rw [after_of_not_mem hout] at hafter
      cases hafter
    rw [next_of_mem hin, hafter]
  · have hin : b ∉ c.elems := fun h => hb (List.mem_append_left _ h)
    rw [next_of_not_mem hb] at h
    rw [next_of_not_mem hin]
    exact .inl h

end Next

section Walk

theorem ahead_none : ¬ c.Ahead none b := nofun

theorem ahead_self : c.Ahead (some a) a := ⟨a, rfl, .refl⟩

theorem ahead_some : c.Ahead (some a) b ↔ c.Reach a b :=
  ⟨fun ⟨_, ha, h⟩ => Option.some.inj ha ▸ h, fun h => ⟨a, rfl, h⟩⟩

/-- A walk that goes on has the same ahead of it, but for the element that it leaves. -/
theorem Ahead.of_next (h : c.Ahead (c.next a) b) : c.Ahead (some a) b := by
  obtain ⟨d, hd, hreach⟩ := h
  exact ⟨a, rfl, .head hd hreach⟩

theorem Ahead.next (h : c.Ahead (some a) b) (hne : a ≠ b) : c.Ahead (c.next a) b := by
  obtain rfl | ⟨d, hd, hreach⟩ := (ahead_some.mp h).cases_head
  · exact absurd rfl hne
  · exact ⟨d, hd, hreach⟩

/-- A walk within the list stays there. -/
theorem Reach.mem (h : c.Reach a b) (ha : a ∈ c.elems) : b ∈ c.elems := by
  induction h with
  | refl => exact ha
  | tail _ hnext ih =>
    rw [next_of_mem ih] at hnext
    exact mem_of_after hnext

theorem Ahead.mem_of_head (h : c.Ahead c.elems.head? b) : b ∈ c.elems := by
  obtain ⟨a, ha, hreach⟩ := h
  exact hreach.mem (List.mem_of_mem_head? ha)

/-- The walk from an element comes to all that are behind it. -/
theorem reach_of_suffix (hc : c.elems.Nodup) (pre : List α) {post}
    (heq : c.elems = pre ++ a :: post) (hb : b ∈ a :: post) : c.Reach a b := by
  induction post generalizing pre a with
  | nil =>
    rw [List.mem_singleton.mp hb]
    exact .refl
  | cons d post ih =>
    rcases List.mem_cons.mp hb with rfl | hb
    · exact .refl
    · have hnext : c.next a = some d := by
        rw [next_of_mem (by rw [heq]; simp), heq]
        exact after_of_append (heq ▸ hc)
      exact .head hnext (ih (pre ++ [a]) (by simp [heq]) hb)

/-- The walk from the first element comes to all of them. -/
theorem ahead_head (hc : c.elems.Nodup) (hb : b ∈ c.elems) : c.Ahead c.elems.head? b := by
  cases hl : c.elems with
  | nil => simp [hl] at hb
  | cons a l => exact ⟨a, rfl, reach_of_suffix hc [] hl (hl ▸ hb)⟩

theorem Reach.of_extract (hc : c.elems.Nodup) (h : (c.extract n).Reach a b) : c.Reach a b := by
  induction h with
  | refl => exact .refl
  | @tail x y _ hnext ih =>
    by_cases hxn : x = n
    · subst hxn
      rw [next_extract_self hc] at hnext
      exact ih.tail hnext
    · rw [next_extract hc hxn] at hnext
      split at hnext
      case isTrue hpred => exact (ih.tail hpred.2).tail hnext
      case isFalse => exact ih.tail hnext

theorem Reach.extract (hc : c.elems.Nodup) (h : c.Reach a b) (hne : b ≠ n) :
    (c.extract n).Reach a b := by
  induction h using Relation.ReflTransGen.head_induction_on with
  | refl => exact .refl
  | @head x y hnext _ ih =>
    by_cases hxn : x = n
    · subst hxn
      exact .head (by rw [next_extract_self hc, hnext]) ih
    · by_cases hpred : x ∈ c.elems ∧ c.next x = some n
      · -- the step to `n` is bridged
        obtain rfl : y = n := Option.some.inj (hnext.symm.trans hpred.2)
        obtain rfl | ⟨z, hz, hreach⟩ := ih.cases_head
        · exact absurd rfl hne
        · rw [next_extract_self hc] at hz
          exact .head (by rw [next_extract hc hxn, if_pos hpred, hz]) hreach
      · exact .head (by rw [next_extract hc hxn, if_neg hpred, hnext]) ih

/-- Taking an element out brings nothing in front of a walk. -/
theorem Ahead.of_extract (hc : c.elems.Nodup) (h : (c.extract n).Ahead p b) : c.Ahead p b :=
  let ⟨a, ha, hreach⟩ := h
  ⟨a, ha, hreach.of_extract hc⟩

/-- Taking an element out hides no other from a walk, even from one that stands at it. -/
theorem Ahead.extract (hc : c.elems.Nodup) (h : c.Ahead p b) (hne : b ≠ n) :
    (c.extract n).Ahead p b :=
  let ⟨a, ha, hreach⟩ := h
  ⟨a, ha, hreach.extract hc hne⟩

theorem Ahead.pushBack (hout : a ∉ c.elems) (hleft : c.left a = none) (h : c.Ahead p b) :
    (c.pushBack a).Ahead p b :=
  let ⟨d, hd, hreach⟩ := h
  ⟨d, hd, hreach.lift id fun _ _ => next_pushBack hout hleft⟩

/-- A walk meets nothing new but the new last element. -/
theorem Ahead.of_pushBack (hout : a ∉ c.elems) (h : (c.pushBack a).Ahead p b) (hne : b ≠ a) :
    c.Ahead p b := by
  obtain ⟨d, hd, hreach⟩ := h
  refine ⟨d, hd, ?_⟩
  clear hd
  induction hreach with
  | refl => exact .refl
  | @tail x y _ hnext ih =>
    have hxa : x ≠ a := by
      rintro rfl
      rw [next_pushBack_self hout] at hnext
      cases hnext
    exact (ih hxa).tail ((next_pushBack_cases hnext).resolve_right hne)

end Walk

end Links

end BdkRtt.Lib
