import Mathlib.Data.List.Basic
import Mathlib.Algebra.Group.Nat.Defs
import Mathlib.Order.Lattice

universe u

/-! A queue that keeps the most recent elements which nobody has taken, up to a capacity. -/

namespace BdkRtt.Lib

/-- What has arrived, the position from which on elements wait, and the positions of the elements
that were taken. -/
structure Recent (α : Type u) where
  arrived : List α
  next : Nat
  taken : List Nat

namespace Recent

variable {α : Type u} {q r : Recent α} {x : α} {cap i : Nat}

def empty : Recent α := ⟨[], 0, []⟩

def unread (q : Recent α) : List α := q.arrived.drop q.next

/-- The elements that were taken. -/
def values (q : Recent α) : List α := q.taken.filterMap (q.arrived[·]?)

/-- With `cap` elements waiting, the oldest one is dropped. -/
def arrive (cap : Nat) (q : Recent α) (x : α) : Recent α :=
  { q with
    arrived := q.arrived ++ [x]
    next := if q.unread.length < cap then q.next else q.next + 1 }

def pop (q : Recent α) : Option (α × Recent α) :=
  (q.arrived[q.next]?).map fun x => (x, { q with next := q.next + 1, taken := q.taken ++ [q.next] })

/-- Elements are taken in the order of their arrival and once; one that was passed over was not
among the last `cap` any more. -/
structure Sound (cap : Nat) (q : Recent α) : Prop where
  le : q.next ≤ q.arrived.length
  fits : q.unread.length ≤ cap
  ordered : q.taken.Pairwise (· < ·)
  below : ∀ i ∈ q.taken, i < q.next
  dropped : ∀ i < q.next, i ∉ q.taken → i + cap < q.arrived.length

theorem length_unread (q : Recent α) : q.unread.length = q.arrived.length - q.next :=
  List.length_drop

theorem sound_empty (cap : Nat) : (empty : Recent α).Sound cap where
  le := Nat.le_refl 0
  fits := Nat.zero_le cap
  ordered := .nil
  below _ h := absurd h List.not_mem_nil
  dropped i h := absurd h (Nat.not_lt_zero i)

theorem Sound.unread_arrive (h : q.Sound cap) (x : α) :
    (q.arrive cap x).unread =
      if q.unread.length < cap then q.unread ++ [x] else (q.unread ++ [x]).tail := by
  have happend : (q.arrived ++ [x]).drop q.next = q.unread ++ [x] :=
    List.drop_append_of_le_length h.le
  rw [arrive, unread]
  dsimp only
  split
  · exact happend
  · rw [← happend, List.tail_drop]

theorem Sound.arrive (h : q.Sound cap) (x : α) : (q.arrive cap x).Sound cap := by
  have hle := h.le
  have hfits := h.fits
  have hlen := q.length_unread
  have hlength : (q.arrived ++ [x]).length = q.arrived.length + 1 := by simp
  refine ⟨?_, ?_, h.ordered, fun i hi => ?_, fun i hi hnot => ?_⟩
  · rw [Recent.arrive, hlength]
    dsimp only
    split <;> omega
  · rw [h.unread_arrive]
    split
    · rw [List.length_append, List.length_singleton]
      omega
    · rw [List.length_tail, List.length_append, List.length_singleton]
      omega
  · have hlt := h.below i hi
    rw [Recent.arrive]
    dsimp only
    split <;> omega
  · rw [Recent.arrive] at hi ⊢
    dsimp only at hi ⊢
    rw [hlength]
    by_cases hlt : i < q.next
    · exact Nat.lt_succ_of_lt (h.dropped i hlt hnot)
    · split at hi <;> omega

theorem pop_eq_none : q.pop = none ↔ q.unread = [] := by
  rw [pop, Option.map_eq_none_iff, List.getElem?_eq_none_iff, unread, List.drop_eq_nil_iff]

theorem unread_of_pop (h : q.pop = some (x, r)) : q.unread = x :: r.unread := by
  obtain ⟨y, hy, heq⟩ := Option.map_eq_some_iff.mp h
  obtain ⟨rfl, rfl⟩ := Prod.mk.inj heq
  obtain ⟨hlt, rfl⟩ := List.getElem?_eq_some_iff.mp hy
  exact List.drop_eq_getElem_cons hlt

theorem Sound.pop (h : q.Sound cap) (hpop : q.pop = some (x, r)) : r.Sound cap := by
  have hunread := unread_of_pop hpop
  have hfits := h.fits
  rw [hunread, List.length_cons] at hfits
  obtain ⟨y, hy, heq⟩ := Option.map_eq_some_iff.mp hpop
  obtain ⟨-, rfl⟩ := Prod.mk.inj heq
  refine ⟨(List.getElem?_eq_some_iff.mp hy).1, Nat.le_of_succ_le hfits, ?_, fun i hi => ?_,
    fun i hi hnot => ?_⟩
  · refine List.pairwise_append.mpr ⟨h.ordered, List.pairwise_singleton .., fun i hi j hj => ?_⟩
    rw [List.mem_singleton.mp hj]
    exact h.below i hi
  · rcases List.mem_append.mp hi with hi | hi
    · exact Nat.lt_succ_of_lt (h.below i hi)
    · rw [List.mem_singleton.mp hi]
      exact Nat.lt_succ_self _
  · obtain ⟨hold, hnew⟩ := not_or.mp fun hor => hnot (List.mem_append.mpr hor)
    have hne : i ≠ q.next := fun heq => hnew (List.mem_singleton.mpr heq)
    exact h.dropped i (Nat.lt_of_le_of_ne (Nat.le_of_lt_succ hi) hne) hold

theorem values_of_pop (h : q.pop = some (x, r)) : r.values = q.values ++ [x] := by
  obtain ⟨y, hy, heq⟩ := Option.map_eq_some_iff.mp h
  obtain ⟨rfl, rfl⟩ := Prod.mk.inj heq
  rw [values, List.filterMap_append]
  simp [values, hy]

end Recent

end BdkRtt.Lib
