import BdkRtt.Lib.Fifo
import Mathlib.Algebra.GroupWithZero.Nat

universe u v

/-! A queue of chunks that is read by elements: a reader takes as many elements as it
likes, and the owner of a chunk gets it back when its last element is gone. -/

namespace BdkRtt.Lib

/-- What is left of each chunk, oldest first, with the name the owner knows it by. -/
abbrev Chunks (ι : Type u) (α : Type v) := List (ι × List α)

namespace Chunks

variable {ι : Type u} {α : Type v}

def elems (q : Chunks ι α) : List α := q.flatMap Prod.snd

def owners (q : Chunks ι α) : List ι := q.map Prod.fst

/-- The chunks that the first `n` elements use up, and what is left.  The reader looks at the
next chunk only while it still wants an element. -/
def pop : Nat → Chunks ι α → List ι × Chunks ι α
  | _, [] => ([], [])
  | n, (i, xs) :: q =>
    if n < xs.length then ([], (i, xs.drop n) :: q)
    else if n = xs.length then ([i], q)
    else
      let r := pop (n - xs.length) q
      (i :: r.1, r.2)

@[simp] theorem elems_nil : elems ([] : Chunks ι α) = [] := rfl

@[simp] theorem elems_cons (i : ι) (xs : List α) (q : Chunks ι α) :
    elems ((i, xs) :: q) = xs ++ elems q := rfl

@[simp] theorem elems_append (q r : Chunks ι α) : elems (q ++ r) = elems q ++ elems r :=
  List.flatMap_append

@[simp] theorem owners_nil : owners ([] : Chunks ι α) = [] := rfl

@[simp] theorem owners_cons (i : ι) (xs : List α) (q : Chunks ι α) :
    owners ((i, xs) :: q) = i :: owners q := rfl

@[simp] theorem owners_append (q r : Chunks ι α) : owners (q ++ r) = owners q ++ owners r :=
  List.map_append

theorem elems_pop (n : Nat) (q : Chunks ι α) : elems (pop n q).2 = (elems q).drop n := by
  induction q generalizing n with
  | nil => simp [pop]
  | cons c q ih =>
    obtain ⟨i, xs⟩ := c
    rw [pop, elems_cons]
    split
    case isTrue hlt => rw [elems_cons, List.drop_append_of_le_length (Nat.le_of_lt hlt)]
    case isFalse hge =>
      split
      case isTrue heq => rw [heq, List.drop_left]
      case isFalse =>
        rw [ih, List.drop_append, List.drop_of_length_le (show xs.length ≤ n by omega)]
        rfl

/-- A reader that wants more than the first chunks hold goes on behind them. -/
theorem pop_append {n : Nat} {p : Chunks ι α} (h : p = [] ∨ (elems p).length < n)
    (q : Chunks ι α) : pop n (p ++ q) =
      (owners p ++ (pop (n - (elems p).length) q).1, (pop (n - (elems p).length) q).2) := by
  induction p generalizing n with
  | nil => rfl
  | cons c p ih =>
    obtain ⟨i, xs⟩ := c
    have hlt : xs.length + (elems p).length < n := by simpa using h
    rw [List.cons_append, pop, if_neg (by omega), if_neg (by omega), ih (.inr (by omega)),
      elems_cons, List.length_append, Nat.sub_add_eq]
    rfl

/-- A reader that has the last of some chunks when it has all it wants, or when there are no more,
has taken these and no others. -/
theorem pop_exact {n : Nat} {p : Chunks ι α} {i : ι} {xs : List α} {q : Chunks ι α}
    (h : p = [] ∨ (elems p).length < n) (hle : (elems p).length + xs.length ≤ n)
    (hend : (elems p).length + xs.length = n ∨ q = []) :
    pop n (p ++ (i, xs) :: q) = (owners p ++ [i], q) := by
  rw [pop_append h, pop, if_neg (by omega)]
  rcases hend with heq | rfl
  · rw [if_pos (by omega)]
  · split
    · rfl
    · rw [pop]

/-- Every owner is either given its chunk back or still waits for it. -/
theorem owners_pop (n : Nat) (q : Chunks ι α) : (pop n q).1 ++ owners (pop n q).2 = owners q := by
  induction q generalizing n with
  | nil => rfl
  | cons c q ih =>
    obtain ⟨i, xs⟩ := c
    rw [pop]
    split
    case isTrue => rfl
    case isFalse =>
      split
      case isTrue => rfl
      case isFalse => exact congrArg (i :: ·) (ih _)

theorem length_pop (n : Nat) (q : Chunks ι α) :
    (pop n q).1.length + (pop n q).2.length = q.length := by
  have howners := congrArg List.length (owners_pop n q)
  simpa [owners] using howners

/-- The elements and chunks that there are. -/
def weight (q : Chunks ι α) : Nat := (elems q).length + q.length

/-- A reader that wants an element takes an element or a chunk. -/
theorem weight_pop_lt {n : Nat} (hn : 0 < n) {q : Chunks ι α} (hq : q ≠ []) :
    weight (pop n q).2 < weight q := by
  have hlen := length_pop n q
  obtain ⟨⟨i, xs⟩, q, rfl⟩ := List.exists_cons_of_ne_nil hq
  unfold weight
  rw [elems_pop, List.length_drop]
  by_cases hxs : 0 < (elems ((i, xs) :: q)).length
  · omega
  · rw [elems_cons, List.length_append] at hxs
    have hpop : (pop n ((i, xs) :: q)).1 ≠ [] := by
      rw [pop, if_neg (by omega), if_neg (by omega)]
      exact List.cons_ne_nil _ _
    have hpos := List.length_pos_iff.mpr hpop
    omega

/-- Reading leaves of a chunk its end, with its owner. -/
theorem mem_pop {n : Nat} {q : Chunks ι α} {c : ι × List α} (hc : c ∈ (pop n q).2) :
    ∃ d ∈ q, c.1 = d.1 ∧ c.2 <:+ d.2 := by
  induction q generalizing n with
  | nil => exact absurd hc List.not_mem_nil
  | cons d q ih =>
    obtain ⟨i, xs⟩ := d
    have htail (h : ∃ d ∈ q, c.1 = d.1 ∧ c.2 <:+ d.2) :
        ∃ d ∈ (i, xs) :: q, c.1 = d.1 ∧ c.2 <:+ d.2 := by
      obtain ⟨d, hd, hcd⟩ := h
      exact ⟨d, List.mem_cons_of_mem _ hd, hcd⟩
    rw [pop] at hc
    split at hc
    case isTrue =>
      rcases List.mem_cons.mp hc with rfl | hc
      · exact ⟨_, List.mem_cons_self, rfl, List.drop_suffix _ _⟩
      · exact htail ⟨c, hc, rfl, List.suffix_rfl⟩
    case isFalse =>
      split at hc
      case isTrue => exact htail ⟨c, hc, rfl, List.suffix_rfl⟩
      case isFalse => exact htail (ih hc)

/-- No chunk holds more than `k` elements. -/
def Fits (k : Nat) (q : Chunks ι α) : Prop := ∀ c ∈ q, c.2.length ≤ k

theorem Fits.pop {k : Nat} {q : Chunks ι α} (h : Fits k q) (n : Nat) : Fits k (pop n q).2 := by
  intro c hc
  obtain ⟨d, hd, -, hsuffix⟩ := mem_pop hc
  exact Nat.le_trans hsuffix.length_le (h d hd)

theorem Fits.append {k : Nat} {q : Chunks ι α} (h : Fits k q) {i : ι} {xs : List α}
    (hxs : xs.length ≤ k) : Fits k (q ++ [(i, xs)]) := by
  intro c hc
  rcases List.mem_append.mp hc with hc | hc
  · exact h c hc
  · exact List.mem_singleton.mp hc ▸ hxs

theorem Fits.elems_le {k : Nat} {q : Chunks ι α} (h : Fits k q) :
    (elems q).length ≤ q.length * k := by
  induction q with
  | nil => exact Nat.zero_le _
  | cons c q ih =>
    obtain ⟨i, xs⟩ := c
    have hxs : xs.length ≤ k := h (i, xs) List.mem_cons_self
    have hq := ih fun c hc => h c (List.mem_cons_of_mem _ hc)
    rw [elems_cons, List.length_append, List.length_cons, Nat.succ_mul]
    omega

section Machine

inductive Call (ι : Type u) (α : Type v)
  | push (i : ι) (xs : List α)
  | pop (n : Nat)
  | flush
  | size
  /-- A call that was turned down. -/
  | idle

inductive Answer (ι : Type u) (α : Type v)
  | done
  | popped (xs : List α) (finished : List ι)
  | flushed (finished : List ι)
  | size (n : Nat)

def step (q : Chunks ι α) : Call ι α → Chunks ι α × Answer ι α
  | .push i xs => (q ++ [(i, xs)], .done)
  | .pop n => ((pop n q).2, .popped ((elems q).take n) (pop n q).1)
  | .flush => ([], .flushed (owners q))
  | .size => (q, .size (elems q).length)
  | .idle => (q, .done)

theorem step_pop {n : Nat} {q r : Chunks ι α} {xs : List α} {is : List ι}
    (h : step q (.pop n) = (r, .popped xs is)) : pop n q = (is, r) ∧ (elems q).take n = xs := by
  obtain ⟨hrest, hanswer⟩ := Prod.mk.inj h
  obtain ⟨htaken, hfinished⟩ := Answer.popped.inj hanswer
  exact ⟨Prod.ext hfinished hrest, htaken⟩

def machine (ι : Type u) (α : Type v) : Machine (Chunks ι α) (Call ι α) (Answer ι α) where
  init := []
  step q c := some (step q c)

abbrev History (ι : Type u) (α : Type v) := Machine.History (Call ι α) (Answer ι α)

def pushedBy : Call ι α × Answer ι α → List ι
  | (.push i _, _) => [i]
  | _ => []

def finishedBy : Call ι α × Answer ι α → List ι
  | (_, .popped _ is) | (_, .flushed is) => is
  | _ => []

def poppedBy : Call ι α × Answer ι α → List α
  | (_, .popped xs _) => xs
  | _ => []

/-- The owners get their chunks back once each, in the order in which they pushed them. -/
theorem ledger {h : History ι α} {q : Chunks ι α} (hr : (machine ι α).Reaches h q) :
    h.flatMap pushedBy = h.flatMap finishedBy ++ owners q := by
  refine hr.invariant (fun h q => h.flatMap pushedBy = h.flatMap finishedBy ++ owners q) rfl ?_
  intro h q c t a ih _ hs
  simp only [machine, Option.some.injEq] at hs
  rw [List.flatMap_append, List.flatMap_append, ih, List.append_assoc, List.append_assoc]
  congr 1
  cases c with
  | push i xs =>
    obtain ⟨rfl, rfl⟩ := hs
    exact (owners_append q [(i, xs)]).symm
  | pop n =>
    obtain ⟨rfl, rfl⟩ := hs
    simpa [pushedBy, finishedBy] using (owners_pop n q).symm
  | flush =>
    obtain ⟨rfl, rfl⟩ := hs
    simp [pushedBy, finishedBy]
  | size =>
    obtain ⟨rfl, rfl⟩ := hs
    simp [pushedBy, finishedBy]
  | idle =>
    obtain ⟨rfl, rfl⟩ := hs
    simp [pushedBy, finishedBy]

/-- The calls as a queue of elements sees them. -/
def asFifo : Call ι α × Answer ι α → Fifo.Call α × Fifo.Answer α
  | (.push _ xs, _) => (.push xs, .pushed xs.length)
  | (.pop n, .popped xs _) => (.pop n, .popped xs)
  | (.flush, _) => (.clear, .cleared)
  | (.size, .size n) => (.fill, .size n)
  | _ => (.push [], .pushed 0)

def pushedElems : Call ι α × Answer ι α → Nat
  | (.push _ xs, _) => xs.length
  | _ => 0

def total (h : History ι α) : Nat := (h.map pushedElems).sum

theorem total_concat (h : History ι α) (x : Call ι α × Answer ι α) :
    total (h ++ [x]) = total h + pushedElems x := by
  simp [total]

theorem length_elems_le {h : History ι α} {q : Chunks ι α} (hr : (machine ι α).Reaches h q) :
    (elems q).length ≤ total h := by
  refine hr.invariant (fun h q => (elems q).length ≤ total h) (Nat.zero_le _) ?_
  intro h q c t a ih _ hs
  simp only [machine, Option.some.injEq] at hs
  rw [total_concat]
  cases c with
  | push i xs =>
    obtain ⟨rfl, rfl⟩ := hs
    simpa [pushedElems] using ih
  | pop n =>
    obtain ⟨rfl, rfl⟩ := hs
    rw [elems_pop, List.length_drop]
    omega
  | flush =>
    obtain ⟨rfl, rfl⟩ := hs
    exact Nat.zero_le _
  | size =>
    obtain ⟨rfl, rfl⟩ := hs
    exact ih
  | idle =>
    obtain ⟨rfl, rfl⟩ := hs
    exact ih

/-- Seen by its elements, a queue of chunks is a queue. -/
theorem reaches_fifo {h : History ι α} {q : Chunks ι α} (hr : (machine ι α).Reaches h q)
    {room : Nat} (hroom : total h ≤ room) :
    (Fifo.machine α room).Reaches (h.map asFifo) (elems q) := by
  induction hr with
  | init => exact .init
  | @step h q c t a hr _ hs ih =>
    rw [total_concat] at hroom
    have hlen := length_elems_le hr
    have hbefore := ih (by omega)
    simp only [machine, Option.some.injEq] at hs
    rw [List.map_append]
    refine .step hbefore trivial ?_
    cases c with
    | push i xs =>
      obtain ⟨rfl, rfl⟩ := hs
      simp only [pushedElems] at hroom
      have hfit : (elems q).length + xs.length ≤ room := by omega
      simp [Fifo.machine, Fifo.step, hfit]
    | pop n =>
      obtain ⟨rfl, rfl⟩ := hs
      simp [Fifo.machine, Fifo.step, elems_pop]
    | flush =>
      obtain ⟨rfl, rfl⟩ := hs
      rfl
    | size =>
      obtain ⟨rfl, rfl⟩ := hs
      rfl
    | idle =>
      obtain ⟨rfl, rfl⟩ := hs
      have hfit : (elems q).length ≤ room := by omega
      simp [Fifo.machine, Fifo.step, hfit]

end Machine

end Chunks

end BdkRtt.Lib
