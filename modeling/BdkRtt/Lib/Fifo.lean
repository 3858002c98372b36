import BdkRtt.Lib.Machine
import Mathlib.Data.List.DropRight

universe u

/-! A bounded queue as its clients see it: a push is taken whole or not at all, a pop
delivers the oldest elements there are. -/

namespace BdkRtt.Lib.Fifo

variable {α : Type u}

inductive Call (α : Type u)
  | push (xs : List α)
  | pop (n : Nat)
  | clear
  | fill
  | free

inductive Answer (α : Type u)
  | pushed (n : Nat)
  | popped (xs : List α)
  | cleared
  | size (n : Nat)

def step (room : Nat) (q : List α) : Call α → List α × Answer α
  | .push xs =>
    if q.length + xs.length ≤ room then (q ++ xs, .pushed xs.length) else (q, .pushed 0)
  | .pop n => (q.drop n, .popped (q.take n))
  | .clear => ([], .cleared)
  | .fill => (q, .size q.length)
  | .free => (q, .size (room - q.length))

def machine (α : Type u) (room : Nat) : Machine (List α) (Call α) (Answer α) where
  init := []
  step q c := some (step room q c)

abbrev History (α : Type u) := Machine.History (Call α) (Answer α)

def Call.keeps : Call α → Bool
  | .clear => false
  | _ => true

/-- The part of a history after the last `clear`. -/
def sinceClear (h : History α) : History α := h.rtakeWhile fun c => c.1.keeps

def acceptedBy : Call α × Answer α → List α
  | (.push xs, .pushed n) => xs.take n
  | _ => []

def deliveredBy : Call α × Answer α → List α
  | (.pop _, .popped xs) => xs
  | _ => []

def accepted (h : History α) : List α := h.flatMap acceptedBy
def delivered (h : History α) : List α := h.flatMap deliveredBy

theorem sinceClear_concat {h : History α} {c : Call α} {a : Answer α} (hc : c.keeps) :
    sinceClear (h ++ [(c, a)]) = sinceClear h ++ [(c, a)] :=
  List.rtakeWhile_concat_pos _ _ _ hc

theorem sinceClear_clear {h : History α} {a : Answer α} :
    sinceClear (h ++ [(.clear, a)]) = [] :=
  List.rtakeWhile_concat_neg _ _ _ (by simp [Call.keeps])

/-- One call takes in what it accepts and lets go what it delivers, in queue order. -/
theorem step_conserves {room : Nat} {q t : List α} {c : Call α} {a : Answer α} (hc : c.keeps)
    (hs : step room q c = (t, a)) : q ++ acceptedBy (c, a) = deliveredBy (c, a) ++ t := by
  cases c with
  | push xs =>
    simp only [step] at hs
    split at hs <;> obtain ⟨rfl, rfl⟩ := hs <;> simp [acceptedBy, deliveredBy]
  | pop n =>
    obtain ⟨rfl, rfl⟩ := hs
    simp [acceptedBy, deliveredBy]
  | clear => simp [Call.keeps] at hc
  | fill =>
    obtain ⟨rfl, rfl⟩ := hs
    simp [acceptedBy, deliveredBy]
  | free =>
    obtain ⟨rfl, rfl⟩ := hs
    simp [acceptedBy, deliveredBy]

/-- Since the last `clear`, everything accepted has been delivered in order, up to what is
still queued. -/
theorem conservation {room : Nat} {h : History α} {q : List α}
    (hr : (machine α room).Reaches h q) :
    accepted (sinceClear h) = delivered (sinceClear h) ++ q := by
  refine hr.invariant (fun h q => accepted (sinceClear h) = delivered (sinceClear h) ++ q)
    rfl ?_
  intro h q c t a ih _ hs
  simp only [machine, Option.some.injEq] at hs
  by_cases hc : c.keeps
  · rw [sinceClear_concat hc]
    simp only [accepted, delivered, List.flatMap_append, List.flatMap_singleton] at ih ⊢
    rw [ih, List.append_assoc, step_conserves hc hs, List.append_assoc]
  · cases c with
    | clear =>
      obtain ⟨rfl, rfl⟩ := hs
      simp [sinceClear_clear, accepted, delivered]
    | _ => simp [Call.keeps] at hc

/-- The queue never holds more than its room. -/
theorem length_le_room {room : Nat} {h : History α} {q : List α}
    (hr : (machine α room).Reaches h q) : q.length ≤ room := by
  refine hr.stateInvariant (fun q => q.length ≤ room) (by simp [machine]) ?_
  intro q c t a ih _ hs
  simp only [machine, Option.some.injEq] at hs
  cases c with
  | push xs =>
    simp only [step] at hs
    split at hs <;> obtain ⟨rfl, rfl⟩ := hs
    · simpa
    · exact ih
  | pop n =>
    obtain ⟨rfl, rfl⟩ := hs
    simp only [List.length_drop]
    omega
  | clear =>
    obtain ⟨rfl, rfl⟩ := hs
    simp
  | fill =>
    obtain ⟨rfl, rfl⟩ := hs
    exact ih
  | free =>
    obtain ⟨rfl, rfl⟩ := hs
    exact ih

end BdkRtt.Lib.Fifo

namespace BdkRtt.Lib.Places

universe v

/-! A bounded queue whose places are filled and emptied by its users: a push reserves a place
and puts its element into the queue once the place is filled, a pop takes the oldest element
out and gives the place back once it is emptied. -/

/-- Where a user is; `waits` says whether it may be left waiting. -/
inductive Hold (α : Type u)
  | out
  | wants (x : α) (waits : Bool)
  | fills (x : α)
  | asks (waits : Bool)
  | empties (x : α)

structure Store (π : Type v) (α : Type u) where
  free : Nat
  contents : List α
  hold : π → Hold α

inductive Act (π : Type v) (α : Type u)
  | push (p : π) (x : α) (waits : Bool)
  | reserve (p : π)
  | put (p : π)
  | pop (p : π) (waits : Bool)
  | take (p : π)
  | release (p : π)
  | refuse (p : π)
  | isEmpty
  | isFull
  | other

inductive Answer (α : Type u)
  | done
  | item (x : α)
  | truth (b : Bool)

variable {π : Type v} {α : Type u}

/-- A user holds a place. -/
def Hold.holds : Hold α → Bool
  | .fills _ | .empties _ => true
  | _ => false

variable [DecidableEq π]

def Store.goes (s : Store π α) (p : π) (h : Hold α) : Store π α :=
  { s with hold := Function.update s.hold p h }

/-- A user that does not wait is refused only while there is nothing for it. -/
def step (places : Nat) (s : Store π α) : Act π α → Option (Store π α × Answer α)
  | .push p x waits =>
    match s.hold p with
    | .out => some (s.goes p (.wants x waits), .done)
    | _ => none
  | .reserve p =>
    match s.hold p with
    | .wants x _ =>
      if 0 < s.free then some ({ s with free := s.free - 1 }.goes p (.fills x), .done) else none
    | _ => none
  | .put p =>
    match s.hold p with
    | .fills x => some ({ s with contents := s.contents ++ [x] }.goes p .out, .done)
    | _ => none
  | .pop p waits =>
    match s.hold p with
    | .out => some (s.goes p (.asks waits), .done)
    | _ => none
  | .take p =>
    match s.hold p, s.contents with
    | .asks _, x :: contents => some ({ s with contents }.goes p (.empties x), .done)
    | _, _ => none
  | .release p =>
    match s.hold p with
    | .empties x => some ({ s with free := s.free + 1 }.goes p .out, .item x)
    | _ => none
  | .refuse p =>
    match s.hold p with
    | .wants _ waits => if waits ∨ s.free = 0 then some (s.goes p .out, .done) else none
    | .asks waits => if waits ∨ s.contents = [] then some (s.goes p .out, .done) else none
    | _ => none
  | .isEmpty => some (s, .truth s.contents.isEmpty)
  | .isFull => some (s, .truth (s.contents.length = places))
  | .other => some (s, .done)

def machine (π : Type v) (α : Type u) [DecidableEq π] (places : Nat) :
    Machine (Store π α) (Act π α) (Answer α) where
  init := ⟨places, [], fun _ => .out⟩
  step := step places

end BdkRtt.Lib.Places
