import Mathlib.Data.List.Chain
import Mathlib.Data.List.Nodup
import Mathlib.Logic.Function.Basic

universe u

namespace BdkRtt.Lib

/-- The links of one element of a doubly linked list. -/
structure ListHeader (ρ : Type u) where
  next : Option ρ
  prev : Option ρ
deriving DecidableEq

/-- The links of all elements that there are, in a list or not. -/
abbrev Headers (ρ : Type u) := ρ → ListHeader ρ

namespace Headers

variable {ρ : Type u}

section Insert

variable [DecidableEq ρ]

def setNext (l : Headers ρ) (a : ρ) (x : Option ρ) : Headers ρ :=
  Function.update l a { l a with next := x }

def setPrev (l : Headers ρ) (a : ρ) (x : Option ρ) : Headers ρ :=
  Function.update l a { l a with prev := x }

/-- An element goes between two others; the four links are set in turn. -/
def listAdd (l : Headers ρ) (new prev next : ρ) : Headers ρ :=
  (((l.setPrev next (some new)).setNext new (some next)).setPrev new (some prev)).setNext prev
    (some new)

variable (l : Headers ρ) (a b : ρ) (x : Option ρ)

theorem setNext_next : (l.setNext a x b).next = if b = a then x else (l b).next := by
  rw [setNext, Function.update_apply]
  split <;> rfl

theorem setNext_prev : (l.setNext a x b).prev = (l b).prev := by
  rw [setNext, Function.update_apply]
  split
  next h => rw [h]
  next => rfl

theorem setPrev_prev : (l.setPrev a x b).prev = if b = a then x else (l b).prev := by
  rw [setPrev, Function.update_apply]
  split <;> rfl

theorem setPrev_next : (l.setPrev a x b).next = (l b).next := by
  rw [setPrev, Function.update_apply]
  split
  next h => rw [h]
  next => rfl

variable {l a b} {new prev next : ρ}

theorem listAdd_next : (l.listAdd new prev next a).next =
    if a = prev then some new else if a = new then some next else (l a).next := by
  rw [listAdd, setNext_next, setPrev_next, setNext_next, setPrev_next]

theorem listAdd_prev : (l.listAdd new prev next a).prev =
    if a = new then some prev else if a = next then some new else (l a).prev := by
  rw [listAdd, setNext_prev, setPrev_prev, setNext_prev, setPrev_prev]

end Insert

section Cycle

/-- The two elements are neighbours. -/
def Linked (l : Headers ρ) (a b : ρ) : Prop := (l a).next = some b ∧ (l b).prev = some a

/-- From the header one comes through the elements of `xs` in turn, and back to the header. -/
structure Cycle (l : Headers ρ) (hdr : ρ) (xs : List ρ) : Prop where
  nodup : (hdr :: xs).Nodup
  chain : (hdr :: xs ++ [hdr]).IsChain l.Linked

variable {l : Headers ρ} {hdr x y : ρ} {xs ys : List ρ}

/-- The element at which one stands after `xs`. -/
theorem Cycle.at (h : l.Cycle hdr (xs ++ ys)) (hy : (ys ++ [hdr]).head? = some y) :
    ∃ pre z rest, hdr :: xs = pre ++ [z] ∧ ys ++ [hdr] = y :: rest ∧
      (pre ++ [z]).IsChain l.Linked ∧ l.Linked z y ∧ (y :: rest).IsChain l.Linked := by
  obtain ⟨rest, hrest⟩ : ∃ rest, ys ++ [hdr] = y :: rest := List.head?_eq_some_iff.mp hy
  obtain ⟨pre, z, hpre⟩ := (List.eq_nil_or_concat (hdr :: xs)).resolve_left nofun
  rw [List.concat_eq_append] at hpre
  have hchain := h.chain
  rw [← List.cons_append, List.append_assoc, hrest, hpre, List.append_assoc,
    List.singleton_append] at hchain
  obtain ⟨hbefore, hlinked, hbehind⟩ := List.isChain_append_cons_cons.mp hchain
  exact ⟨pre, z, rest, hpre, hrest, hbefore, hlinked, hbehind⟩

/-- A new element in front of `y` takes its place there. -/
theorem Cycle.insert [DecidableEq ρ] (h : l.Cycle hdr (xs ++ ys)) (hx : x ∉ hdr :: (xs ++ ys))
    (hy : (ys ++ [hdr]).head? = some y) :
    ∃ z, (l y).prev = some z ∧ (l.listAdd x z y).Cycle hdr (xs ++ x :: ys) := by
  obtain ⟨pre, z, rest, hpre, hrest, hbefore, hlinked, hbehind⟩ := h.at hy
  have hnodup : (hdr :: xs ++ ys).Nodup := h.nodup
  have hmid : (hdr :: xs ++ x :: ys).Nodup := List.nodup_middle.mpr (.cons hx hnodup)
  have hyx : y ≠ x := by
    rintro rfl
    rcases List.mem_append.mp (List.mem_of_mem_head? hy) with hys | hhdr
    · exact hx (List.mem_cons_of_mem _ (List.mem_append_right _ hys))
    · exact hx (List.mem_singleton.mp hhdr ▸ List.mem_cons_self ..)
  have hzx : z ≠ x := by
    rintro rfl
    have hz : z ∈ hdr :: xs := hpre ▸ List.mem_append_right _ (List.mem_singleton_self z)
    have hzs : z ∈ hdr :: xs ++ ys := List.mem_append_left _ hz
    exact hx hzs
  have hyxs : y ∉ xs := fun hmem => by
    rcases List.mem_append.mp (List.mem_of_mem_head? hy) with hys | hhdr
    · exact List.disjoint_of_nodup_append hnodup (List.mem_cons_of_mem _ hmem) hys
    · obtain rfl := List.mem_singleton.mp hhdr
      exact (List.nodup_cons.mp hnodup).1 (List.mem_append_left _ hmem)
  have hyrest : y ∉ rest := by
    have hround : (ys ++ [hdr]).Nodup :=
      (List.perm_append_singleton hdr ys).nodup_iff.mpr
        (hnodup.sublist (.cons_cons _ (List.sublist_append_right ..)))
    rw [hrest] at hround
    exact (List.nodup_cons.mp hround).1
  -- a pair of neighbours other than the two that are taken apart
  have hkeep : ∀ a b, a ≠ x → b ≠ x → b ≠ y → l.Linked a b → (l.listAdd x z y).Linked a b := by
    intro a b hax hbx hby hab
    have haz : a ≠ z := by
      rintro rfl
      exact hby (Option.some.inj (hab.1.symm.trans hlinked.1))
    refine ⟨?_, ?_⟩
    · rw [listAdd_next, if_neg haz, if_neg hax, hab.1]
    · rw [listAdd_prev, if_neg hbx, if_neg hby, hab.2]
  have hout : ∀ a, a ∈ hdr :: xs ++ ys → a ≠ x := fun a ha heq => hx (heq ▸ ha)
  refine ⟨z, hlinked.2, hmid, ?_⟩
  have hround : hdr :: (xs ++ x :: ys) ++ [hdr] = pre ++ z :: x :: y :: rest := by
    rw [← List.cons_append, hpre, List.append_assoc, List.append_assoc]
    exact congrArg (pre ++ z :: x :: ·) hrest
  rw [hround, List.isChain_append_cons_cons, List.isChain_cons_cons]
  refine ⟨?_, ⟨?_, ?_⟩, ⟨?_, ?_⟩, ?_⟩
  · rw [← hpre] at hbefore ⊢
    refine hbefore.imp_of_mem_tail_imp fun a b ha hb hab => ?_
    have hbxs : b ∈ xs := hb
    exact hkeep a b (hout a (List.mem_append_left _ ha))
      (hout b (List.mem_append_left _ (List.mem_cons_of_mem _ hbxs)))
      (fun heq => hyxs (heq ▸ hbxs)) hab
  · rw [listAdd_next, if_pos rfl]
  · rw [listAdd_prev, if_pos rfl]
  · rw [listAdd_next, if_neg hzx.symm, if_pos rfl]
  · rw [listAdd_prev, if_neg hyx, if_pos rfl]
  · have hmem : ∀ a ∈ y :: rest, a ∈ hdr :: xs ++ ys := by
      rw [← hrest]
      intro a ha
      rcases List.mem_append.mp ha with hys | hhdr
      · exact List.mem_append_right _ hys
      · exact List.mem_singleton.mp hhdr ▸ List.mem_cons_self ..
    refine hbehind.imp_of_mem_tail_imp fun a b ha hb hab => ?_
    have hbrest : b ∈ rest := hb
    exact hkeep a b (hout a (hmem a ha)) (hout b (hmem b (List.mem_cons_of_mem _ hbrest)))
      (fun heq => hyrest (heq ▸ hbrest)) hab

/-- Headers that lead from one element of the list to the next and nowhere else lead to the
header. -/
theorem Cycle.reaches (h : l.Cycle hdr xs) {S : ρ → Prop}
    (hclosed : ∀ a b, S a → (l a).next = some b → S b) (hx : x ∈ xs) (hSx : S x) : S hdr := by
  have hwalk : ∀ zs a, S a → (a :: zs).IsChain l.Linked → ∀ b ∈ a :: zs, S b := by
    intro zs
    induction zs with
    | nil =>
      intro a ha _ b hb
      exact List.mem_singleton.mp hb ▸ ha
    | cons c zs ih =>
      intro a ha hchain b hb
      obtain ⟨hac, hrest⟩ := List.isChain_cons_cons.mp hchain
      rcases List.mem_cons.mp hb with rfl | hb
      · exact ha
      · exact ih c (hclosed a c ha hac.1) hrest b hb
  obtain ⟨pre, post, rfl⟩ := List.append_of_mem hx
  have hchain := h.chain
  rw [← List.cons_append, List.append_assoc] at hchain
  exact hwalk (post ++ [hdr]) x hSx hchain.right_of_append hdr (by simp)

/-- Behind an element that is not the last comes one of the others. -/
theorem mem_of_next {a b c : ρ} (h : (xs ++ [c]).IsChain l.Linked) (ha : a ∈ xs)
    (hb : (l a).next = some b) : b ∈ xs ++ [c] := by
  obtain ⟨pre, post, rfl⟩ := List.append_of_mem ha
  rw [List.append_assoc, List.cons_append] at h
  obtain ⟨d, rest, hrest⟩ : ∃ d rest, post ++ [c] = d :: rest :=
    List.exists_cons_of_ne_nil (by simp)
  rw [hrest] at h
  have hd := (List.isChain_append_cons_cons.mp h).2.1.1
  obtain rfl := Option.some.inj (hb.symm.trans hd)
  rw [List.append_assoc, List.cons_append, hrest]
  simp

/-- Links of elements that are not in the list do not matter to it. -/
theorem Cycle.congr (h : l.Cycle hdr xs) {l' : Headers ρ} (hl : ∀ a ∈ hdr :: xs, l' a = l a) :
    l'.Cycle hdr xs := by
  refine ⟨h.nodup, h.chain.imp_of_mem_imp fun a b ha hb hab => ?_⟩
  have hmem : ∀ a ∈ hdr :: xs ++ [hdr], a ∈ hdr :: xs := by simp [or_comm]
  exact ⟨(hl a (hmem a ha)).symm ▸ hab.1, (hl b (hmem b hb)).symm ▸ hab.2⟩

end Cycle

section Splice

variable {ρ : Type u} [DecidableEq ρ]

/-- `x` goes behind `prev`, by way of the links of `prev`. -/
def insertAfter (l : Headers ρ) (x prev : ρ) : Option (Headers ρ) :=
  let l := (l.setNext x (l prev).next).setPrev x (some prev)
  (l prev).next.map fun next => (l.setPrev next (some x)).setNext prev (some x)

/-- The neighbours of `x` become neighbours of each other. -/
def remove (l : Headers ρ) (x : ρ) : Option (Headers ρ) :=
  (l x).next.bind fun next =>
    let l := l.setPrev next (l x).prev
    (l x).prev.map fun prev => l.setNext prev (l x).next

variable {l : Headers ρ} {hdr x y z : ρ} {xs ys : List ρ}

theorem insertAfter_eq_listAdd (hx : x ≠ z) (hy : x ≠ y) (h : (l z).next = some y) :
    l.insertAfter x z = some (l.listAdd x z y) := by
  have hnext : (((l.setNext x (l z).next).setPrev x (some z)) z).next = some y := by
    rw [setPrev_next, setNext_next, if_neg (Ne.symm hx), h]
  rw [insertAfter, hnext, h, Option.map_some]
  congr 1
  funext a
  rw [ListHeader.mk.injEq]
  constructor
  · simp only [listAdd, setNext_next, setPrev_next]
  · simp only [listAdd, setNext_prev, setPrev_prev]
    by_cases hay : a = y
    · rw [if_pos hay, if_pos hay, if_neg (hay ▸ Ne.symm hy)]
    · rw [if_neg hay, if_neg hay]

theorem next_of_insertAfter {l' : Headers ρ} (h : l.insertAfter x z = some l') :
    (l' z).next = some x := by
  obtain ⟨y, -, rfl⟩ := Option.map_eq_some_iff.mp h
  rw [setNext_next, if_pos rfl]

/-- A new element behind the header is the first one. -/
theorem Cycle.insertAfter (h : l.Cycle hdr xs) (hx : x ∉ hdr :: xs) :
    ∃ l', l.insertAfter x hdr = some l' ∧ l'.Cycle hdr (x :: xs) := by
  obtain ⟨y, rest, hy⟩ : ∃ y rest, xs ++ [hdr] = y :: rest :=
    List.exists_cons_of_ne_nil (by simp)
  have hhead : (xs ++ [hdr]).head? = some y := by rw [hy]; rfl
  have hempty : l.Cycle hdr ([] ++ xs) := h
  obtain ⟨z, hz, hnew⟩ := hempty.insert hx hhead
  have hlinked : l.Linked hdr y := by
    have hchain := h.chain
    rw [List.cons_append, hy] at hchain
    exact (List.isChain_cons_cons.mp hchain).1
  obtain rfl : z = hdr := Option.some.inj (hz.symm.trans hlinked.2)
  refine ⟨_, insertAfter_eq_listAdd (List.ne_of_not_mem_cons hx) ?_ hlinked.1, hnew⟩
  rintro rfl
  have hmem : x ∈ xs ++ [z] := hy ▸ List.mem_cons_self ..
  exact hx (by simpa [or_comm] using hmem)

theorem remove_eq (hnext : (l x).next = some y) (hprev : (l x).prev = some z) (hyx : y ≠ x) :
    l.remove x = some ((l.setPrev y (some z)).setNext z (some y)) := by
  have hprev' : ((l.setPrev y (some z)) x).prev = some z := by
    rw [setPrev_prev, if_neg hyx.symm, hprev]
  have hnext' : ((l.setPrev y (some z)) x).next = some y := by rw [setPrev_next, hnext]
  simp only [Headers.remove, hnext, Option.bind_some, hprev, hprev', hnext', Option.map_some]

theorem Cycle.remove (h : l.Cycle hdr (xs ++ x :: ys)) :
    ∃ l', l.remove x = some l' ∧ l'.Cycle hdr (xs ++ ys) := by
  obtain ⟨pre, z, hpre⟩ := (List.eq_nil_or_concat (hdr :: xs)).resolve_left nofun
  rw [List.concat_eq_append] at hpre
  obtain ⟨y, rest, hrest⟩ : ∃ y rest, ys ++ [hdr] = y :: rest :=
    List.exists_cons_of_ne_nil (by simp)
  have hround : hdr :: (xs ++ x :: ys) ++ [hdr] = pre ++ z :: x :: y :: rest := by
    rw [← List.cons_append, List.append_assoc, hpre, List.cons_append, hrest, List.append_assoc]
    rfl
  have hchain := h.chain
  rw [hround, List.isChain_append_cons_cons, List.isChain_cons_cons] at hchain
  obtain ⟨hbefore, hzx, hxy, hbehind⟩ := hchain
  have hnodup : (hdr :: xs ++ x :: ys).Nodup := h.nodup
  have hout : x ∉ hdr :: xs ++ ys := (List.nodup_cons.mp (List.nodup_middle.mp hnodup)).1
  have hothers : (hdr :: xs ++ ys).Nodup := (List.nodup_cons.mp (List.nodup_middle.mp hnodup)).2
  have hyround : y ∈ ys ++ [hdr] := hrest ▸ List.mem_cons_self ..
  have hin : ∀ a ∈ ys ++ [hdr], a ∈ hdr :: xs ++ ys := by
    intro a ha
    rcases List.mem_append.mp ha with hys | hhdr
    · exact List.mem_append_right _ hys
    · exact List.mem_singleton.mp hhdr ▸ List.mem_cons_self ..
  have hxne : ∀ a ∈ hdr :: xs ++ ys, a ≠ x := fun a ha heq => hout (heq ▸ ha)
  have hyx : y ≠ x := hxne y (hin y hyround)
  have hyxs : y ∉ xs := fun hmem => by
    rcases List.mem_append.mp hyround with hys | hhdr
    · exact List.disjoint_of_nodup_append hothers (List.mem_cons_of_mem _ hmem) hys
    · obtain rfl := List.mem_singleton.mp hhdr
      exact (List.nodup_cons.mp hothers).1 (List.mem_append_left _ hmem)
  have hyrest : y ∉ rest := by
    have hround : (ys ++ [hdr]).Nodup :=
      (List.perm_append_singleton hdr ys).nodup_iff.mpr
        (hothers.sublist (.cons_cons _ (List.sublist_append_right ..)))
    rw [hrest] at hround
    exact (List.nodup_cons.mp hround).1
  refine ⟨(l.setPrev y (some z)).setNext z (some y), ?_, hothers, ?_⟩
  · exact remove_eq hxy.1 hzx.2 hyx
  -- a pair of neighbours other than the two that `x` is taken out of
  have hkeep : ∀ a b, b ≠ x → b ≠ y → l.Linked a b →
      ((l.setPrev y (some z)).setNext z (some y)).Linked a b := by
    intro a b hbx hby hab
    have haz : a ≠ z := by
      rintro rfl
      exact hbx (Option.some.inj (hab.1.symm.trans hzx.1))
    refine ⟨?_, ?_⟩
    · rw [setNext_next, if_neg haz, setPrev_next, hab.1]
    · rw [setNext_prev, setPrev_prev, if_neg hby, hab.2]
  have hclosed : hdr :: (xs ++ ys) ++ [hdr] = pre ++ z :: y :: rest := by
    rw [← List.cons_append, hpre, List.append_assoc, List.append_assoc]
    exact congrArg (pre ++ z :: ·) hrest
  rw [hclosed, List.isChain_append_cons_cons]
  refine ⟨?_, ⟨?_, ?_⟩, ?_⟩
  · rw [← hpre] at hbefore ⊢
    refine hbefore.imp_of_mem_tail_imp fun a b _ hb hab => ?_
    have hbxs : b ∈ xs := hb
    exact hkeep a b (hxne b (List.mem_append_left _ (List.mem_cons_of_mem _ hbxs)))
      (fun heq => hyxs (heq ▸ hbxs)) hab
  · rw [setNext_next, if_pos rfl]
  · rw [setNext_prev, setPrev_prev, if_pos rfl]
  · refine hbehind.imp_of_mem_tail_imp fun a b _ hb hab => ?_
    have hbrest : b ∈ rest := hb
    have hbround : b ∈ ys ++ [hdr] := hrest ▸ List.mem_cons_of_mem _ hbrest
    exact hkeep a b (hxne b (hin b hbround)) (fun heq => hyrest (heq ▸ hbrest)) hab

end Splice

end Headers

end BdkRtt.Lib
