import Mathlib.Data.List.Basic

universe u

/-! A queue of bounded depth in front of a receiver, with what has left it. -/

namespace BdkRtt.Lib

structure Outbox (α : Type u) where
  gone : List α
  held : List α

namespace Outbox

variable {α : Type u} {depth : Nat} {q q' : Outbox α} {x : α}

/-- All that has been put into the queue, in order. -/
def all (q : Outbox α) : List α := q.gone ++ q.held

/-- An element for which there is no room is lost. -/
def put (depth : Nat) (q : Outbox α) (x : α) : Outbox α :=
  if q.held.length < depth then { q with held := q.held ++ [x] } else q

/-- The receiver takes the oldest element. -/
def next (q : Outbox α) : Option (Outbox α) :=
  match q.held with
  | [] => none
  | x :: xs => some ⟨q.gone ++ [x], xs⟩

theorem all_put (h : q.held.length < depth) : (q.put depth x).all = q.all ++ [x] := by
  rw [put, if_pos h]
  exact (List.append_assoc ..).symm

theorem length_held_put_le : (q.put depth x).held.length ≤ q.held.length + 1 := by
  rw [put]
  split
  · exact Nat.le_of_eq List.length_append
  · exact Nat.le_succ _

theorem all_next (h : q.next = some q') : q'.all = q.all := by
  rw [next] at h
  split at h
  next => exact absurd h nofun
  next x xs hheld =>
    rw [← Option.some.inj h, all, all, hheld, List.append_assoc, List.singleton_append]

theorem next_isSome (h : q.held ≠ []) : q.next.isSome := by
  rw [next]
  split
  next hnil => exact absurd hnil h
  next => rfl

end Outbox

end BdkRtt.Lib
