import Mathlib.Data.List.Nodup
import Mathlib.Data.List.Perm.Basic
import Mathlib.Logic.Function.Basic

universe u v

namespace BdkRtt.Lib

/-- Queues among which the same elements go round, and what has gone through each so far. -/
structure Queues (π : Type u) (ν : Type v) where
  list : π → List ν
  pushed : π → List ν
  popped : π → List ν

namespace Queues

variable {π : Type u} {ν : Type v} [DecidableEq π]

def push (q : Queues π ν) (p : π) (n : ν) : Queues π ν where
  list := Function.update q.list p (q.list p ++ [n])
  pushed := Function.update q.pushed p (q.pushed p ++ [n])
  popped := q.popped

def pop (q : Queues π ν) (p : π) : Option (ν × Queues π ν) :=
  match q.list p with
  | [] => none
  | n :: rest =>
    some (n, {
      list := Function.update q.list p rest
      pushed := q.pushed
      popped := Function.update q.popped p (q.popped p ++ [n]) })

/-- The elements in the queues `ps`. -/
def members (q : Queues π ν) (ps : List π) : List ν := ps.flatMap q.list

/-- Each queue hands out in the order in which it was given. -/
def Fifo (q : Queues π ν) : Prop := ∀ p, q.pushed p = q.popped p ++ q.list p

variable {q r : Queues π ν} {p p' : π} {n : ν} {ps : List π}

theorem pop_eq_none : q.pop p = none ↔ q.list p = [] := by
  rw [pop]
  split <;> simp_all

/-- What a pop does. -/
theorem pop_eq_some (h : q.pop p = some (n, r)) :
    ∃ rest, q.list p = n :: rest ∧ r.list = Function.update q.list p rest ∧
      r.pushed = q.pushed ∧ r.popped = Function.update q.popped p (q.popped p ++ [n]) := by
  rw [pop] at h
  split at h
  next => cases h
  next m rest heq =>
    cases h
    exact ⟨rest, heq, rfl, rfl, rfl⟩

@[simp] theorem list_push_self : (q.push p n).list p = q.list p ++ [n] := Function.update_self ..

theorem list_push_of_ne (h : p' ≠ p) : (q.push p n).list p' = q.list p' :=
  Function.update_of_ne h ..

theorem list_pop_self (h : q.pop p = some (n, r)) : q.list p = n :: r.list p := by
  obtain ⟨rest, heq, hlist, -⟩ := pop_eq_some h
  rw [hlist, Function.update_self, heq]

theorem list_pop_of_ne (h : q.pop p = some (n, r)) (hne : p' ≠ p) : r.list p' = q.list p' := by
  obtain ⟨rest, -, hlist, -⟩ := pop_eq_some h
  rw [hlist, Function.update_of_ne hne]

theorem members_update {l : List ν} (hps : ps.Nodup) (hp : p ∈ ps) :
    (ps.flatMap (Function.update q.list p (l ++ q.list p))).Perm (l ++ q.members ps) := by
  induction ps with
  | nil => cases hp
  | cons a ps ih =>
    obtain ⟨ha, hps⟩ := List.nodup_cons.mp hps
    rw [List.flatMap_cons, members, List.flatMap_cons]
    by_cases hap : a = p
    · subst hap
      have hrest : ps.flatMap (Function.update q.list a (l ++ q.list a)) = ps.flatMap q.list :=
        List.flatMap_congr fun c hc => Function.update_of_ne (ne_of_mem_of_not_mem hc ha) ..
      rw [Function.update_self, hrest, List.append_assoc]
    · have hrest := ih hps ((List.mem_cons.mp hp).resolve_left (Ne.symm hap))
      rw [Function.update_of_ne hap]
      refine (hrest.append_left _).trans ?_
      rw [← List.append_assoc, ← List.append_assoc]
      exact List.perm_append_comm.append_right _

omit [DecidableEq π] in
theorem members_congr {f g : π → List ν} (h : ∀ a ∈ ps, (f a).Perm (g a)) :
    (ps.flatMap f).Perm (ps.flatMap g) := List.Perm.flatMap_left ps h

theorem members_push (hps : ps.Nodup) (hp : p ∈ ps) :
    ((q.push p n).members ps).Perm (n :: q.members ps) := by
  refine List.Perm.trans ?_ (members_update (l := [n]) hps hp)
  refine members_congr fun a _ => ?_
  by_cases ha : a = p
  · subst ha
    rw [list_push_self, Function.update_self]
    exact List.perm_append_comm
  · rw [list_push_of_ne ha, Function.update_of_ne ha]

theorem members_pop (hps : ps.Nodup) (hp : p ∈ ps) (h : q.pop p = some (n, r)) :
    (n :: r.members ps).Perm (q.members ps) := by
  refine (members_update (l := [n]) hps hp).symm.trans ?_
  refine members_congr fun a _ => ?_
  by_cases ha : a = p
  · subst ha
    rw [Function.update_self, list_pop_self h]
    rfl
  · rw [Function.update_of_ne ha, list_pop_of_ne h ha]

omit [DecidableEq π] in
theorem mem_members (hp : p ∈ ps) (hn : n ∈ q.list p) : n ∈ q.members ps :=
  List.mem_flatMap.mpr ⟨p, hp, hn⟩

theorem Fifo.push (h : q.Fifo) : (q.push p n).Fifo := by
  intro a
  by_cases ha : a = p
  · subst ha
    have hpushed : (q.push a n).pushed a = q.pushed a ++ [n] := Function.update_self ..
    rw [list_push_self, hpushed, h a, List.append_assoc]
    rfl
  · have hpushed : (q.push p n).pushed a = q.pushed a := Function.update_of_ne ha ..
    rw [list_push_of_ne ha, hpushed, h a]
    rfl

theorem Fifo.pop (h : q.Fifo) (hpop : q.pop p = some (n, r)) : r.Fifo := by
  obtain ⟨rest, heq, hlist, hpushed, hpopped⟩ := pop_eq_some hpop
  intro a
  rw [hlist, hpushed, hpopped, h a]
  by_cases ha : a = p
  · subst ha
    rw [Function.update_self, Function.update_self, heq, List.append_assoc]
    rfl
  · rw [Function.update_of_ne ha, Function.update_of_ne ha]

end Queues

end BdkRtt.Lib
