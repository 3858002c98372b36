import BdkRtt.Driver.Intc
import Mathlib.Data.Fintype.Card
import Mathlib.Data.List.TakeWhile

universe u

namespace BdkRtt.Driver.Intc

open Lib

variable {η : Type u}

section Histories

abbrev Run (η : Type u) := Machine.History (Event η) Answer

/-- The handler that a call has installed, for which interrupt. -/
def installs : Event η × Answer → Option (IntNum × η)
  | (.intcServiceRegister i _ isr, .ok) => some (i, isr)
  | (.intcServiceChangeHandler i isr, .ok) => some (i, isr)
  | _ => none

/-- The most recently installed handlers. -/
def installed (h : Run η) : IntNum → Option η :=
  h.foldl (fun m x => (installs x).elim m fun y => Function.update m y.1 (some y.2)) fun _ => none

theorem installed_concat (h : Run η) (x : Event η × Answer) :
    installed (h ++ [x]) =
      (installs x).elim (installed h) fun y => Function.update (installed h) y.1 (some y.2) := by
  rw [installed, List.foldl_append]
  rfl

end Histories

section Bits

theorem getLsbD_bit (i j : IntNum) : (bit i).getLsbD j = decide (j = i) := by
  have hi := i.isLt
  have hj := j.isLt
  simp only [intcMaxCount] at hi hj
  rw [bit, BitVec.getLsbD_shiftLeft, BitVec.getLsbD_one]
  rcases Nat.lt_trichotomy j.val i.val with h | h | h
  · have hne : j ≠ i := fun heq => by simp [heq] at h
    simp [h, hne]
  · have heq : j = i := Fin.ext h
    subst heq
    simp [hj]
  · have hne : j ≠ i := fun heq => by simp [heq] at h
    simp [hne]
    omega

theorem getLsbD_or_bit (m : BitVec 32) (i j : IntNum) :
    (m ||| bit i).getLsbD j = true ↔ m.getLsbD j = true ∨ j = i := by
  rw [BitVec.getLsbD_or, getLsbD_bit, Bool.or_eq_true, decide_eq_true_iff]

theorem getLsbD_clear (m : BitVec 32) (i j : IntNum) :
    (m &&& ~~~ bit i).getLsbD j = true ↔ m.getLsbD j = true ∧ j ≠ i := by
  have hj : j.val < 32 := j.isLt
  rw [BitVec.getLsbD_and, BitVec.getLsbD_not, getLsbD_bit, decide_eq_true hj]
  simp

theorem bit_and_ne_zero (m : BitVec 32) (i : IntNum) :
    bit i &&& m ≠ 0 ↔ m.getLsbD i = true := by
  constructor
  · intro hne
    by_contra hi
    refine hne (BitVec.eq_of_getLsbD_eq fun k hk => ?_)
    have hbit := getLsbD_bit i ⟨k, hk⟩
    rw [BitVec.getLsbD_and, hbit]
    by_cases heq : (⟨k, hk⟩ : IntNum) = i
    · have hki : m.getLsbD k = false := by
        rw [← heq] at hi
        exact Bool.not_eq_true _ ▸ hi
      simp [hki]
    · simp [heq]
  · intro hi hzero
    have hbit := congrArg (BitVec.getLsbD · i.val) hzero
    simp only [BitVec.getLsbD_and, getLsbD_bit, hi] at hbit
    simp at hbit

end Bits

section Law

def pending (status : BitVec 32) (i : IntNum) : Bool := status.getLsbD i

/-- The list of the registered interrupts, whose handlers are `m`. -/
structure WellFormed (m : IntNum → Option η) (s : State η) (l : List IntNum) : Prop where
  cycle : s.links.Cycle .hdr (l.map .isr)
  sorted : l.Pairwise fun i j => (s.isrs i).pri < (s.isrs j).pri
  members : ∀ i, i ∈ l ↔ (m i).isSome = true
  mask : ∀ i : IntNum, s.isrsMask.getLsbD i = true ↔ i ∈ l
  func : ∀ i, (s.isrs i).isrFunc = m i
  num : ∀ i ∈ l, (s.isrs i).intNum = i

/-- What `intc_hdl_entry` does for every status: it calls the handlers of what is pending in the
list, one after the other. -/
def Dispatches (m : IntNum → Option η) (s : State η) (l : List IntNum) : Prop :=
  ∀ status : BitVec 32, ∃ n, ∀ fuel, n ≤ fuel →
    ∃ called, s.intcHdlEntry fuel status = some called ∧
      called.map some = (l.filter (pending status)).map m

/-- The interrupts are dispatched as they were registered, in the state `s` after `h`. -/
structure Law (h : Run η) (s : State η) : Prop where
  list : ∃ l, WellFormed (installed h) s l ∧ Dispatches (installed h) s l
  /-- A call that is rejected leaves everything as it was. -/
  rejected : ∀ i intPri isr t, s.step (.intcServiceRegister i intPri isr) = some (t, .error) → t = s

/-- The walk of a registration comes to an entry in front of the number's own one, and no priority
up to there is the new one. -/
abbrev Displaces (s : State η) (i : IntNum) (intPri : UInt8) : Prop :=
  s.isrsMask.getLsbD i = true ∧
    (∃ j : IntNum, s.isrsMask.getLsbD j = true ∧ (s.isrs j).pri < (s.isrs i).pri ∧
      intPri < (s.isrs j).pri) ∧
    ¬ ∃ j : IntNum, s.isrsMask.getLsbD j = true ∧ (s.isrs j).pri < (s.isrs i).pri ∧
      (s.isrs j).pri = intPri

def KeepsPlace (s : State η) : Event η → Prop
  | .intcServiceRegister i intPri _ => ¬ Displaces s i intPri
  | .intcServiceChangeHandler .. => True

instance (s : State η) : ∀ e, Decidable (KeepsPlace s e)
  | .intcServiceRegister i intPri _ => inferInstanceAs (Decidable (¬ Displaces s i intPri))
  | .intcServiceChangeHandler .. => inferInstanceAs (Decidable True)

end Law

section Walks

variable {s : State η} {l l₁ l₂ : List IntNum} {i j : IntNum} {intPri : UInt8}

/-- Where a walk over `l` starts. -/
def first : List IntNum → Ref
  | [] => .hdr
  | j :: _ => .isr j

/-- The entries that a walk has still to pass. -/
def Ahead (s : State η) (l : List IntNum) : Prop :=
  (l.map Ref.isr ++ [Ref.hdr]).IsChain s.links.Linked

theorem Ahead.next (h : Ahead s (j :: l)) : (s.links (.isr j)).next = some (first l) := by
  cases l with
  | nil => exact (List.isChain_cons_cons.mp h).1.1
  | cons k l => exact (List.isChain_cons_cons.mp h).1.1

theorem Ahead.tail (h : Ahead s (j :: l)) : Ahead s l := List.IsChain.tail h

theorem Ahead.drop (h : Ahead s (l₁ ++ l₂)) : Ahead s l₂ := by
  rw [Ahead, List.map_append, List.append_assoc] at h
  exact h.right_of_append

theorem ahead_of_cycle (h : s.links.Cycle .hdr (l.map .isr)) :
    (s.links .hdr).next = some (first l) ∧ Ahead s l := by
  refine ⟨?_, List.IsChain.tail (l := Ref.hdr :: l.map Ref.isr ++ [Ref.hdr]) h.chain⟩
  have hchain := h.chain
  cases l with
  | nil => exact (List.isChain_cons_cons.mp hchain).1.1
  | cons k l => exact (List.isChain_cons_cons.mp hchain).1.1

theorem head_first : (l.map Ref.isr ++ [Ref.hdr]).head? = some (first l) := by
  cases l <;> rfl

/-- A registration passes the entries with a lower priority. -/
theorem registerFrom_append (list : ListHeader Ref) (x : Isr η) {fuel : Nat}
    (h : Ahead s (l₁ ++ l₂)) (hlow : ∀ j ∈ l₁, (s.isrs j).pri < intPri) :
    s.registerFrom i intPri list x (l₁.length + fuel) (first (l₁ ++ l₂)) =
      s.registerFrom i intPri list x fuel (first l₂) := by
  induction l₁ with
  | nil => rw [List.length_nil, Nat.zero_add, List.nil_append]
  | cons j l₁ ih =>
    have hj := hlow j (List.mem_cons_self ..)
    rw [List.length_cons, Nat.succ_add, List.cons_append, first, State.registerFrom,
      Ahead.next h, Option.bind_some, if_neg (UInt8.not_lt.mpr (UInt8.le_of_lt hj)),
      if_neg (UInt8.ne_of_lt hj).symm]
    exact ih (Ahead.tail h) fun k hk => hlow k (List.mem_cons_of_mem _ hk)

theorem changeFrom_append (isr : η) {fuel : Nat} (h : Ahead s (l₁ ++ l₂))
    (hother : ∀ j ∈ l₁, (s.isrs i).pri ≠ (s.isrs j).pri) :
    s.changeFrom i isr (l₁.length + fuel) (first (l₁ ++ l₂)) =
      s.changeFrom i isr fuel (first l₂) := by
  induction l₁ with
  | nil => rw [List.length_nil, Nat.zero_add, List.nil_append]
  | cons j l₁ ih =>
    rw [List.length_cons, Nat.succ_add, List.cons_append, first, State.changeFrom, Ahead.next h,
      Option.bind_some, if_neg (hother j (List.mem_cons_self ..))]
    exact ih (Ahead.tail h) fun k hk => hother k (List.mem_cons_of_mem _ hk)

theorem length_le_max (hl : l.Nodup) : l.length ≤ intcMaxCount := by
  simpa [IntNum] using hl.length_le_card

/-- The entries with a lower priority, and the rest. -/
theorem exists_split (s : State η) (intPri : UInt8) (l : List IntNum) :
    ∃ l₁ l₂, l = l₁ ++ l₂ ∧ (∀ j ∈ l₁, (s.isrs j).pri < intPri) ∧
      ∀ j l₃, l₂ = j :: l₃ → intPri ≤ (s.isrs j).pri := by
  refine ⟨l.takeWhile fun j => (s.isrs j).pri < intPri,
    l.dropWhile fun j => (s.isrs j).pri < intPri, (List.takeWhile_append_dropWhile ..).symm,
    fun j hj => ?_, fun j l₃ heq => ?_⟩
  · have hlow := List.mem_takeWhile_imp hj
    exact of_decide_eq_true hlow
  · have hhead := List.head?_dropWhile_not (fun j => decide ((s.isrs j).pri < intPri)) l
    rw [heq] at hhead
    exact UInt8.not_lt.mp (of_decide_eq_false (by simpa using hhead))

end Walks

section Dispatch

variable {m : IntNum → Option η} {s : State η} {l : List IntNum}

theorem hdlFrom_calls (h : Ahead s l) (hnodup : l.Nodup) (hfunc : ∀ j ∈ l, (s.isrs j).isrFunc = m j)
    (hsome : ∀ j ∈ l, (m j).isSome = true) (hnum : ∀ j ∈ l, (s.isrs j).intNum = j) {fuel : Nat}
    (hfuel : l.length < fuel) (status : BitVec 32) :
    ∃ called, s.hdlFrom fuel status (first l) = some called ∧
      called.map some = (l.filter (pending status)).map m := by
  induction l generalizing fuel status with
  | nil =>
    obtain ⟨fuel, rfl⟩ := Nat.exists_eq_add_of_lt hfuel
    exact ⟨[], rfl, rfl⟩
  | cons j l ih =>
    obtain ⟨hj, hnodup⟩ := List.nodup_cons.mp hnodup
    obtain ⟨fuel, rfl⟩ := Nat.exists_eq_add_one_of_ne_zero (Nat.ne_zero_of_lt hfuel)
    have hrest := @ih (Ahead.tail h) hnodup (fun k hk => hfunc k (List.mem_cons_of_mem _ hk))
      (fun k hk => hsome k (List.mem_cons_of_mem _ hk))
      (fun k hk => hnum k (List.mem_cons_of_mem _ hk)) fuel (Nat.lt_of_succ_lt_succ hfuel)
    have hmj := hfunc j (List.mem_cons_self ..)
    rw [first, State.hdlFrom, Ahead.next h, Option.bind_some, hnum j (List.mem_cons_self ..)]
    dsimp only
    split
    next hpending =>
      have hbit := (bit_and_ne_zero status j).mp hpending
      obtain ⟨f, hf⟩ := Option.isSome_iff_exists.mp (hsome j (List.mem_cons_self ..))
      have hclear : l.filter (pending (status &&& ~~~ bit j)) = l.filter (pending status) := by
        apply List.filter_congr
        intro k hk
        have hkj : k ≠ j := fun heq => hj (heq ▸ hk)
        rw [Bool.eq_iff_iff, pending, getLsbD_clear]
        exact and_iff_left hkj
      rw [hmj, hf, Option.bind_some, List.filter_cons_of_pos (p := pending status) hbit,
        List.map_cons, hf, ← hclear]
      split
      next hzero =>
        refine ⟨[f], rfl, ?_⟩
        rw [hzero, List.filter_eq_nil_iff.mpr fun k _ => by simp [pending]]
        rfl
      next =>
        obtain ⟨called, hcalled, hmap⟩ := hrest (status &&& ~~~ bit j)
        refine ⟨f :: called, ?_, ?_⟩
        · rw [hcalled]
          rfl
        · rw [List.map_cons, hmap]
    next hidle =>
      have hbit : ¬ status.getLsbD j = true := hidle ∘ (bit_and_ne_zero status j).mpr
      rw [List.filter_cons_of_neg (p := pending status) hbit]
      split
      next hzero =>
        refine ⟨[], rfl, ?_⟩
        rw [hzero, List.filter_eq_nil_iff.mpr fun k _ => by simp [pending]]
        rfl
      next => exact hrest status

theorem WellFormed.nodup (h : WellFormed m s l) : l.Nodup :=
  (List.nodup_cons.mp h.cycle.nodup).2.of_map _

theorem WellFormed.dispatches (h : WellFormed m s l) : Dispatches m s l := by
  intro status
  refine ⟨l.length + 1, fun fuel hfuel => ?_⟩
  obtain ⟨hnext, hahead⟩ := ahead_of_cycle h.cycle
  have hmask : l.filter (pending (status &&& s.isrsMask)) = l.filter (pending status) := by
    apply List.filter_congr
    intro j hj
    rw [pending, BitVec.getLsbD_and, (h.mask j).mpr hj, Bool.and_true]
    rfl
  obtain ⟨called, hcalled, hmap⟩ := hdlFrom_calls hahead h.nodup (fun j _ => h.func j)
    (fun j hj => (h.members j).mp hj) h.num hfuel (status &&& s.isrsMask)
  refine ⟨called, ?_, hmap.trans (by rw [hmask])⟩
  rw [State.intcHdlEntry, hnext, Option.bind_some, hcalled]

end Dispatch

section Register

variable {m : IntNum → Option η} {s : State η} {l l₁ l₂ : List IntNum} {i j : IntNum}
  {intPri : UInt8} {isr : η}

theorem setIsr_self (x : Isr η) : (s.setIsr i x).isrs i = x := Function.update_self ..

theorem setIsr_of_ne (x : Isr η) (hj : j ≠ i) : (s.setIsr i x).isrs j = s.isrs j :=
  Function.update_of_ne hj ..

/-- The error path puts back all that the call has written. -/
theorem restore_setIsr (x : Isr η) :
    (s.setIsr i x).restore i (s.links (.isr i)) (s.isrs i) = s := by
  have hisrs : ((s.setIsr i x).restore i (s.links (.isr i)) (s.isrs i)).isrs = s.isrs := by
    change Function.update (Function.update s.isrs i x) i (s.isrs i) = s.isrs
    rw [Function.update_idem, Function.update_eq_self]
  have hlinks : ((s.setIsr i x).restore i (s.links (.isr i)) (s.isrs i)).links = s.links :=
    Function.update_eq_self ..
  cases s
  exact State.mk.injEq .. ▸ ⟨hlinks, hisrs, rfl⟩

/-- A new number takes its place between the lower and the higher priorities. -/
theorem WellFormed.insert (h : WellFormed m s (l₁ ++ l₂)) (isr : η) (hi : i ∉ l₁ ++ l₂)
    (hlow : ∀ j ∈ l₁, (s.isrs j).pri < intPri) (hhigh : ∀ j ∈ l₂, intPri < (s.isrs j).pri) :
    ∃ t, (s.setIsr i ⟨some isr, intPri, i⟩).listAddTail (.isr i) (first l₂) = some t ∧
      WellFormed (Function.update m i (some isr)) (t.ok i).1 (l₁ ++ i :: l₂) := by
  have hcycle := h.cycle
  rw [List.map_append] at hcycle
  have hout : Ref.isr i ∉ Ref.hdr :: (l₁.map .isr ++ l₂.map .isr) := by
    rw [← List.map_append]
    intro hmem
    rcases List.mem_cons.mp hmem with heq | hmem
    · nomatch heq
    · obtain ⟨k, hk, heq⟩ := List.mem_map.mp hmem
      exact hi (Ref.isr.inj heq ▸ hk)
  obtain ⟨z, hprev, hnew⟩ := hcycle.insert hout head_first
  refine ⟨{ s.setIsr i ⟨some isr, intPri, i⟩ with links := s.links.listAdd (.isr i) z (first l₂) },
    ?_, ?_⟩
  · rw [State.listAddTail]
    change (s.links (first l₂)).prev.map _ = _
    rw [hprev]
    rfl
  · have hne : ∀ j ∈ l₁ ++ l₂, j ≠ i := fun j hj heq => hi (heq ▸ hj)
    have hold : ∀ j ∈ l₁ ++ l₂, (s.setIsr i ⟨some isr, intPri, i⟩).isrs j = s.isrs j :=
      fun j hj => setIsr_of_ne _ (hne j hj)
    have hmem : ∀ j, j ∈ l₁ ++ i :: l₂ ↔ j = i ∨ j ∈ l₁ ++ l₂ := fun j =>
      List.perm_middle.mem_iff.trans List.mem_cons
    refine ⟨?_, ?_, ?_, ?_, ?_, ?_⟩
    · rw [List.map_append, List.map_cons]
      exact hnew
    · obtain ⟨hsorted₁, hsorted₂, hacross⟩ := List.pairwise_append.mp h.sorted
      have hin₁ : ∀ {j}, j ∈ l₁ → j ∈ l₁ ++ l₂ := List.mem_append_left _
      have hin₂ : ∀ {j}, j ∈ l₂ → j ∈ l₁ ++ l₂ := List.mem_append_right _
      refine List.pairwise_append.mpr ⟨?_, List.pairwise_cons.mpr ⟨?_, ?_⟩, ?_⟩
      · refine hsorted₁.imp_of_mem fun {a b} ha hb hab => ?_
        change ((s.setIsr i _).isrs a).pri < ((s.setIsr i _).isrs b).pri
        rw [hold a (hin₁ ha), hold b (hin₁ hb)]
        exact hab
      · intro b hb
        change ((s.setIsr i _).isrs i).pri < ((s.setIsr i _).isrs b).pri
        rw [hold b (hin₂ hb), setIsr_self]
        exact hhigh b hb
      · refine hsorted₂.imp_of_mem fun {a b} ha hb hab => ?_
        change ((s.setIsr i _).isrs a).pri < ((s.setIsr i _).isrs b).pri
        rw [hold a (hin₂ ha), hold b (hin₂ hb)]
        exact hab
      · intro a ha b hb
        change ((s.setIsr i _).isrs a).pri < ((s.setIsr i _).isrs b).pri
        rcases List.mem_cons.mp hb with rfl | hb
        · rw [hold a (hin₁ ha), setIsr_self]
          exact hlow a ha
        · rw [hold a (hin₁ ha), hold b (hin₂ hb)]
          exact hacross a ha b hb
    · intro j
      rw [hmem, h.members]
      by_cases hj : j = i
      · subst hj
        simp
      · simp [hj]
    · intro j
      exact (getLsbD_or_bit ..).trans ((or_congr (h.mask j) Iff.rfl).trans
        (or_comm.trans (hmem j).symm))
    · intro j
      by_cases hj : j = i
      · subst hj
        change ((s.setIsr j _).isrs j).isrFunc = _
        rw [setIsr_self, Function.update_self]
      · change ((s.setIsr i _).isrs j).isrFunc = _
        rw [setIsr_of_ne _ hj, Function.update_of_ne hj, h.func]
    · intro j hj
      change ((s.setIsr i _).isrs j).intNum = j
      rcases (hmem j).mp hj with rfl | hj
      · rw [setIsr_self]
      · rw [hold j hj, h.num j hj]

/-- The first entry of an empty list goes where one at its end would go. -/
theorem WellFormed.registerWalk (h : WellFormed m s l) (fuel : Nat) :
    s.intcServiceRegister (fuel + 1) i intPri isr =
      (s.setIsr i ⟨some isr, intPri, i⟩).registerFrom i intPri (s.links (.isr i)) (s.isrs i)
        (fuel + 1) (first l) := by
  have hnext : ((s.setIsr i ⟨some isr, intPri, i⟩).links .hdr).next = some (first l) :=
    (ahead_of_cycle h.cycle).1
  rw [State.intcServiceRegister, hnext, Option.bind_some]
  cases l with
  | nil =>
    have hround : s.links.Linked .hdr .hdr := (List.isChain_cons_cons.mp h.cycle.chain).1
    have hprev : ((s.setIsr i ⟨some isr, intPri, i⟩).links .hdr).prev = some .hdr := hround.2
    rw [first, if_pos rfl, State.listAddHead, hnext, first, State.registerFrom,
      State.listAddTail, hprev]
    rfl
  | cons j l => exact if_neg nofun

/-- Where a registration's walk ends, and what it does there. -/
theorem WellFormed.registerSplit (h : WellFormed m s l) (i : IntNum) (intPri : UInt8) (isr : η) :
    ∃ l₁ l₂, l = l₁ ++ l₂ ∧
      (∀ j ∈ l₁, ((s.setIsr i ⟨some isr, intPri, i⟩).isrs j).pri < intPri) ∧
      ((∀ j l₃, l₂ = j :: l₃ → intPri < ((s.setIsr i ⟨some isr, intPri, i⟩).isrs j).pri) ∧
          s.step (.intcServiceRegister i intPri isr) =
            ((s.setIsr i ⟨some isr, intPri, i⟩).listAddTail (.isr i) (first l₂)).map (·.ok i) ∨
        (∃ j l₃, l₂ = j :: l₃ ∧ intPri = ((s.setIsr i ⟨some isr, intPri, i⟩).isrs j).pri) ∧
          s.step (.intcServiceRegister i intPri isr) = some (s, .error)) := by
  have hahead : Ahead (s.setIsr i ⟨some isr, intPri, i⟩) l := (ahead_of_cycle h.cycle).2
  have hlen := length_le_max h.nodup
  obtain ⟨l₁, l₂, rfl, hlow, hrest⟩ := exists_split (s.setIsr i ⟨some isr, intPri, i⟩) intPri l
  refine ⟨l₁, l₂, rfl, hlow, ?_⟩
  obtain ⟨fuel, hfuel⟩ : ∃ fuel, intcMaxCount + 1 = l₁.length + (fuel + 1) := by
    rw [List.length_append] at hlen
    exact ⟨intcMaxCount - l₁.length, by omega⟩
  have hwalk : s.step (.intcServiceRegister i intPri isr) =
      (s.setIsr i ⟨some isr, intPri, i⟩).registerFrom i intPri (s.links (.isr i)) (s.isrs i)
        (fuel + 1) (first l₂) := by
    rw [State.step, h.registerWalk, hfuel, registerFrom_append _ _ hahead hlow]
  rw [hwalk]
  cases l₂ with
  | nil => exact .inl ⟨nofun, rfl⟩
  | cons j l₃ =>
    have hnext := Ahead.next hahead.drop
    rw [first, State.registerFrom, hnext, Option.bind_some]
    have hle := hrest j l₃ rfl
    by_cases hlt : intPri < ((s.setIsr i ⟨some isr, intPri, i⟩).isrs j).pri
    · rw [if_pos hlt]
      refine .inl ⟨fun k l₄ heq => ?_, rfl⟩
      obtain ⟨rfl, rfl⟩ := List.cons.inj heq
      exact hlt
    · have heq : intPri = ((s.setIsr i ⟨some isr, intPri, i⟩).isrs j).pri :=
        UInt8.le_antisymm hle (UInt8.not_lt.mp hlt)
      rw [if_neg hlt, if_pos heq, restore_setIsr]
      exact .inr ⟨⟨j, l₃, rfl, heq⟩, rfl⟩

/-- A number that is not registered is put in, or is refused for its priority. -/
theorem WellFormed.register_new (h : WellFormed m s l) (hi : i ∉ l) (intPri : UInt8) (isr : η) :
    (∃ j ∈ l, (s.isrs j).pri = intPri) ∧
        s.step (.intcServiceRegister i intPri isr) = some (s, .error) ∨
      (∀ j ∈ l, (s.isrs j).pri ≠ intPri) ∧ ∃ t l',
        s.step (.intcServiceRegister i intPri isr) = some (t, .ok) ∧
          WellFormed (Function.update m i (some isr)) t l' := by
  have hold : ∀ j ∈ l, (s.setIsr i ⟨some isr, intPri, i⟩).isrs j = s.isrs j :=
    fun j hj => setIsr_of_ne _ fun heq => hi (heq ▸ hj)
  obtain ⟨l₁, l₂, rfl, hlow, ⟨hhigh, hstep⟩ | ⟨⟨j, l₃, rfl, heq⟩, hstep⟩⟩ :=
    h.registerSplit i intPri isr
  · have hlow' : ∀ j ∈ l₁, (s.isrs j).pri < intPri := fun j hj => by
      rw [← hold j (List.mem_append_left _ hj)]
      exact hlow j hj
    have hhigh' : ∀ j ∈ l₂, intPri < (s.isrs j).pri := by
      cases l₂ with
      | nil => nofun
      | cons k l₃ =>
        have hk := hhigh k l₃ rfl
        rw [hold k (List.mem_append_right _ (List.mem_cons_self ..))] at hk
        have hsorted := (List.pairwise_cons.mp (List.pairwise_append.mp h.sorted).2.1).1
        intro j hj
        rcases List.mem_cons.mp hj with rfl | hj
        · exact hk
        · exact UInt8.lt_trans hk (hsorted j hj)
    obtain ⟨t, ht, hwell⟩ := h.insert isr hi hlow' hhigh'
    refine .inr ⟨fun j hj heq => ?_, (t.ok i).1, _, ?_, hwell⟩
    · rcases List.mem_append.mp hj with hj | hj
      · exact UInt8.ne_of_lt (hlow' j hj) heq
      · exact UInt8.ne_of_lt (hhigh' j hj) heq.symm
    · rw [hstep, ht]
      rfl
  · have hj : j ∈ l₁ ++ j :: l₃ := List.mem_append_right _ (List.mem_cons_self ..)
    rw [hold j hj] at heq
    exact .inl ⟨⟨j, hj, heq.symm⟩, hstep⟩

/-- An entry that is linked and is put in once more, in front of another, leads back to itself. -/
theorem Displaced.no_list (h : WellFormed m s (l₁ ++ j :: l₂)) (hi : i ∈ l₂) {t : State η}
    (ht : (s.setIsr i ⟨some isr, intPri, i⟩).listAddTail (.isr i) (.isr j) = some t)
    {l' : List IntNum} (hmem : i ∈ l') : ¬ t.links.Cycle .hdr (l'.map .isr) := by
  intro hcycle'
  have hcycle := h.cycle
  rw [List.map_append] at hcycle
  obtain ⟨pre, z, rest, hpre, hrest, -, hlinked, hchain⟩ := hcycle.at head_first
  rw [State.listAddTail] at ht
  change (s.links (.isr j)).prev.map _ = some t at ht
  have hprev : (s.links (.isr j)).prev = some z := hlinked.2
  rw [hprev] at ht
  obtain rfl := Option.some.inj ht
  obtain ⟨l₃, l₄, rfl⟩ := List.append_of_mem hi
  have hz : ∀ k ∈ j :: (l₃ ++ i :: l₄), Ref.isr k ≠ z := by
    intro k hk heq
    have hzmem : z ∈ Ref.hdr :: l₁.map .isr :=
      hpre ▸ List.mem_append_right _ (List.mem_singleton_self z)
    have hapart : (Ref.hdr :: l₁.map .isr).Disjoint ((j :: (l₃ ++ i :: l₄)).map .isr) :=
      List.disjoint_of_nodup_append hcycle.nodup
    exact hapart hzmem (heq ▸ List.mem_map_of_mem hk)
  rw [← hrest] at hchain
  have hround : ((j :: l₃).map Ref.isr ++ [Ref.isr i]).IsChain s.links.Linked := by
    have hsplit : (j :: (l₃ ++ i :: l₄)).map Ref.isr ++ [Ref.hdr] =
        ((j :: l₃).map Ref.isr ++ [Ref.isr i]) ++ (l₄.map Ref.isr ++ [Ref.hdr]) := by simp
    rw [hsplit] at hchain
    exact hchain.left_of_append
  have hout : ¬ Ref.hdr ∈ (j :: l₃).map Ref.isr ++ [Ref.isr i] := by simp
  refine hout (hcycle'.reaches (S := (· ∈ (j :: l₃).map Ref.isr ++ [Ref.isr i])) ?_
    (List.mem_map_of_mem hmem) (by simp))
  intro a b ha hb
  change ((s.links.listAdd (.isr i) z (.isr j)) a).next = some b at hb
  obtain ⟨k, hk, rfl⟩ : ∃ k ∈ j :: (l₃ ++ i :: l₄), Ref.isr k = a := by
    rcases List.mem_append.mp ha with ha | ha
    · obtain ⟨k, hk, rfl⟩ := List.mem_map.mp ha
      refine ⟨k, ?_, rfl⟩
      rcases List.mem_cons.mp hk with rfl | hk
      · exact List.mem_cons_self ..
      · exact List.mem_cons_of_mem _ (List.mem_append_left _ hk)
    · exact ⟨i, by simp, (List.mem_singleton.mp ha).symm⟩
  rw [Headers.listAdd_next, if_neg (hz k hk)] at hb
  split at hb
  next =>
    obtain rfl := Option.some.inj hb
    simp
  next hki =>
    have hin : Ref.isr k ∈ (j :: l₃).map Ref.isr :=
      (List.mem_append.mp ha).resolve_right fun hlast => hki (List.mem_singleton.mp hlast)
    exact Headers.mem_of_next hround hin hb

/-- A number that is registered stays where it is, or its entry is displaced. -/
theorem WellFormed.register_again (h : WellFormed m s l) (hi : i ∈ l) (intPri : UInt8) (isr : η) :
    ¬ Displaces s i intPri ∧ s.step (.intcServiceRegister i intPri isr) = some (s, .error) ∨
      Displaces s i intPri ∧ ∃ t,
        s.step (.intcServiceRegister i intPri isr) = some (t, .ok) ∧
          ∀ l' : List IntNum, i ∈ l' → ¬ t.links.Cycle .hdr (l'.map .isr) := by
  obtain ⟨l₁, l₂, rfl, hlow, hcase⟩ := h.registerSplit i intPri isr
  have hself : ((s.setIsr i ⟨some isr, intPri, i⟩).isrs i).pri = intPri :=
    congrArg Isr.pri (setIsr_self _)
  have hother : ∀ k, k ≠ i → ((s.setIsr i ⟨some isr, intPri, i⟩).isrs k).pri = (s.isrs k).pri :=
    fun k hk => congrArg Isr.pri (setIsr_of_ne _ hk)
  have hi₁ : i ∉ l₁ := fun hmem => by
    have hlt := hlow i hmem
    rw [hself] at hlt
    exact UInt8.lt_irrefl _ hlt
  have hi₂ : i ∈ l₂ := (List.mem_append.mp hi).resolve_left hi₁
  have hlow' : ∀ k ∈ l₁, (s.isrs k).pri < intPri := fun k hk => by
    rw [← hother k fun heq => hi₁ (heq ▸ hk)]
    exact hlow k hk
  obtain ⟨-, hsorted₂, hacross⟩ := List.pairwise_append.mp h.sorted
  obtain ⟨j, l₃, rfl⟩ : ∃ j l₃, l₂ = j :: l₃ := List.exists_cons_of_ne_nil (List.ne_nil_of_mem hi₂)
  have hbehind := (List.pairwise_cons.mp hsorted₂).1
  have hreg : ∀ k, k ∈ l₁ ++ j :: l₃ ↔ s.isrsMask.getLsbD k = true := fun k => (h.mask k).symm
  rcases hcase with ⟨hhigh, hstep⟩ | ⟨⟨j', l₃', hcons, heq⟩, hstep⟩
  · have hj := hhigh j l₃ rfl
    have hji : j ≠ i := by
      rintro rfl
      rw [hself] at hj
      exact UInt8.lt_irrefl _ hj
    have hi₃ : i ∈ l₃ := (List.mem_cons.mp hi₂).resolve_left hji.symm
    rw [hother j hji] at hj
    refine .inr ⟨⟨(hreg i).mp hi, ⟨j, (hreg j).mp ?_, hbehind i hi₃, hj⟩, ?_⟩, ?_⟩
    · exact List.mem_append_right _ (List.mem_cons_self ..)
    · rintro ⟨k, hk, -, hpri⟩
      rcases List.mem_append.mp ((hreg k).mpr hk) with hk | hk
      · exact UInt8.ne_of_lt (hlow' k hk) hpri
      · rcases List.mem_cons.mp hk with rfl | hk
        · exact UInt8.ne_of_lt hj hpri.symm
        · exact UInt8.ne_of_lt (UInt8.lt_trans hj (hbehind k hk)) hpri.symm
    · obtain ⟨-, z, -, -, -, -, hlinked, -⟩ :=
        (List.map_append ▸ h.cycle : s.links.Cycle .hdr
          (l₁.map .isr ++ (j :: l₃).map .isr)).at head_first
      obtain ⟨t, ht⟩ : ∃ t, (s.setIsr i ⟨some isr, intPri, i⟩).listAddTail (.isr i) (.isr j) =
          some t := by
        rw [State.listAddTail]
        change ∃ t, (s.links (.isr j)).prev.map _ = some t
        have hprev : (s.links (.isr j)).prev = some z := hlinked.2
        rw [hprev]
        exact ⟨_, rfl⟩
      refine ⟨(t.ok i).1, ?_, fun l' hl' => Displaced.no_list h hi₃ ht hl'⟩
      rw [hstep, first, ht]
      rfl
  · obtain ⟨rfl, rfl⟩ := List.cons.inj hcons
    refine .inl ⟨?_, hstep⟩
    rintro ⟨-, ⟨k, hk, hki, hpk⟩, hnone⟩
    by_cases hji : j = i
    · subst hji
      rcases List.mem_append.mp ((hreg k).mpr hk) with hk | hk
      · exact UInt8.lt_asymm hpk (hlow' k hk)
      · rcases List.mem_cons.mp hk with rfl | hk
        · exact UInt8.lt_irrefl _ hki
        · exact UInt8.lt_asymm hki (hbehind k hk)
    · have hi₃ : i ∈ l₃ := (List.mem_cons.mp hi₂).resolve_left (Ne.symm hji)
      rw [hother j hji] at heq
      refine hnone ⟨j, (hreg j).mp ?_, hbehind i hi₃, heq.symm⟩
      exact List.mem_append_right _ (List.mem_cons_self ..)

end Register

section ChangeHandler

variable {m : IntNum → Option η} {s : State η} {l : List IntNum} {i : IntNum} {isr : η}

theorem WellFormed.change_other (h : WellFormed m s l) (hi : i ∉ l) :
    s.step (.intcServiceChangeHandler i isr) = some (s, .error) := by
  have hfunc : (s.isrs i).isrFunc.isNone = true := by
    rw [h.func, ← Option.not_isSome, Bool.not_eq_true']
    exact Bool.not_eq_true _ ▸ hi ∘ (h.members i).mpr
  exact if_pos hfunc

theorem WellFormed.setFunc (h : WellFormed m s l) (hi : i ∈ l) :
    WellFormed (Function.update m i (some isr))
      (s.restore i (s.links (.isr i)) { s.isrs i with isrFunc := some isr }) l := by
  have hlinks : (s.restore i (s.links (.isr i)) { s.isrs i with isrFunc := some isr }).links =
      s.links := Function.update_eq_self ..
  have hfield : ∀ {α : Type} (g : Isr η → α), (∀ x f, g { x with isrFunc := f } = g x) → ∀ j,
      g ((s.restore i (s.links (.isr i)) { s.isrs i with isrFunc := some isr }).isrs j) =
        g (s.isrs j) := by
    intro α g hg j
    change g (Function.update s.isrs i _ j) = _
    by_cases hj : j = i
    · subst hj
      rw [Function.update_self, hg]
    · rw [Function.update_of_ne hj]
  have hpri := hfield Isr.pri fun _ _ => rfl
  refine ⟨?_, ?_, ?_, h.mask, ?_, ?_⟩
  · rw [hlinks]
    exact h.cycle
  · refine h.sorted.imp fun {a b} hab => ?_
    rw [hpri, hpri]
    exact hab
  · intro j
    rw [h.members]
    by_cases hj : j = i
    · subst hj
      simp [(h.members j).mp hi]
    · rw [Function.update_of_ne hj]
  · intro j
    change (Function.update s.isrs i _ j).isrFunc = _
    by_cases hj : j = i
    · subst hj
      rw [Function.update_self, Function.update_self]
    · rw [Function.update_of_ne hj, Function.update_of_ne hj, h.func]
  · intro j hj
    rw [hfield Isr.intNum fun _ _ => rfl]
    exact h.num j hj

theorem WellFormed.change_own (h : WellFormed m s l) (hi : i ∈ l) (isr : η) :
    ∃ t, s.step (.intcServiceChangeHandler i isr) = some (t, .ok) ∧
      WellFormed (Function.update m i (some isr)) t l := by
  refine ⟨_, ?_, h.setFunc hi⟩
  have hfunc : (s.isrs i).isrFunc.isNone = false := by
    rw [h.func, ← Option.not_isSome, (h.members i).mp hi]
    rfl
  obtain ⟨hnext, hahead⟩ := ahead_of_cycle h.cycle
  have hlen := length_le_max h.nodup
  obtain ⟨l₁, l₂, rfl⟩ := List.append_of_mem hi
  have hother : ∀ j ∈ l₁, (s.isrs i).pri ≠ (s.isrs j).pri := fun j hj =>
    (UInt8.ne_of_lt ((List.pairwise_append.mp h.sorted).2.2 j hj i (List.mem_cons_self ..))).symm
  obtain ⟨fuel, hfuel⟩ : ∃ fuel, intcMaxCount + 1 = l₁.length + (fuel + 1) := by
    rw [List.length_append] at hlen
    exact ⟨intcMaxCount - l₁.length, by omega⟩
  have hstart : first (l₁ ++ i :: l₂) ≠ .hdr := by cases l₁ <;> nofun
  have hown := Ahead.next hahead.drop
  rw [State.step, State.intcServiceChangeHandler, hfunc, if_neg Bool.false_ne_true, hnext,
    Option.bind_some, if_neg hstart, hfuel, changeFrom_append isr hahead hother, first,
    State.changeFrom, hown, Option.bind_some, if_pos rfl]

end ChangeHandler

section Run

variable {h : Run η} {s t : State η} {o : Answer} {l : List IntNum}

theorem wellFormed_init : WellFormed (fun _ => none) (init : State η) [] where
  cycle := ⟨List.nodup_singleton _, .cons_cons ⟨rfl, rfl⟩ (.singleton _)⟩
  sorted := .nil
  members _ := ⟨nofun, nofun⟩
  mask i := by simp [init]
  func _ := rfl
  num _ hi := nomatch hi

theorem WellFormed.step (hw : WellFormed (installed h) s l) {e : Event η} (he : KeepsPlace s e)
    (hs : s.step e = some (t, o)) : ∃ l', WellFormed (installed (h ++ [(e, o)])) t l' := by
  rw [installed_concat]
  cases e with
  | intcServiceRegister i intPri isr =>
    by_cases hi : i ∈ l
    · rcases hw.register_again hi intPri isr with ⟨-, hstep⟩ | ⟨hd, -⟩
      · cases hs.symm.trans hstep
        exact ⟨l, hw⟩
      · exact absurd hd he
    · rcases hw.register_new hi intPri isr with
        ⟨-, hstep⟩ | ⟨-, t', l', hstep, hw'⟩
      · cases hs.symm.trans hstep
        exact ⟨l, hw⟩
      · cases hs.symm.trans hstep
        exact ⟨l', hw'⟩
  | intcServiceChangeHandler i isr =>
    by_cases hi : i ∈ l
    · obtain ⟨t', hstep, hw'⟩ := hw.change_own hi isr
      cases hs.symm.trans hstep
      exact ⟨l, hw'⟩
    · cases hs.symm.trans (hw.change_other hi)
      exact ⟨l, hw⟩

theorem WellFormed.law (hw : WellFormed (installed h) s l) : Law h s where
  list := ⟨l, hw, hw.dispatches⟩
  rejected i intPri isr t hs := by
    by_cases hi : i ∈ l
    · rcases hw.register_again hi intPri isr with
        ⟨-, hstep⟩ | ⟨-, t', hstep, -⟩
      · cases hs.symm.trans hstep
        rfl
      · cases hs.symm.trans hstep
    · rcases hw.register_new hi intPri isr with
        ⟨-, hstep⟩ | ⟨-, t', l', hstep, -⟩
      · cases hs.symm.trans hstep
        rfl
      · cases hs.symm.trans hstep

theorem wellFormed_of_reaches (hr : (intc η).ReachesUnder KeepsPlace h s) :
    ∃ l, WellFormed (installed h) s l := by
  have hinit : ∃ l, WellFormed (installed []) (intc η).init l := ⟨[], wellFormed_init⟩
  exact hr.invariant (fun h s => ∃ l, WellFormed (installed h) s l) hinit
    fun ⟨l, hw⟩ he hs => hw.step he hs

/-- After a displacement the entries are not a list any more. -/
theorem WellFormed.keepsPlace (hw : WellFormed (installed h) s l) {e : Event η}
    (hs : s.step e = some (t, o)) (hlaw : Law (h ++ [(e, o)]) t) : KeepsPlace s e := by
  cases e with
  | intcServiceChangeHandler => trivial
  | intcServiceRegister i intPri isr =>
    intro hd
    have hi : i ∈ l := (hw.mask i).mp hd.1
    rcases hw.register_again hi intPri isr with ⟨hn, -⟩ | ⟨-, t', hstep, hno⟩
    · exact hn hd
    · cases hs.symm.trans hstep
      obtain ⟨l', hw', -⟩ := hlaw.list
      refine hno l' ((hw'.members i).mpr ?_) hw'.cycle
      rw [installed_concat]
      simp [installs]

/-- The service list is in order in exactly the runs in which no registration displaces an
entry. -/
theorem service_list (h : Run η) (s : State η) :
    ((intc η).ReachesUnder KeepsPlace h s → Law h s) ∧
      ((intc η).ReachesUnder KeepsPlace h s ↔ (intc η).ReachesWithin Law h s) := by
  have hkeep : ∀ {h s}, (intc η).ReachesUnder KeepsPlace h s → Law h s := fun hr => by
    obtain ⟨l, hw⟩ := wellFormed_of_reaches hr
    exact hw.law
  refine ⟨hkeep, Machine.reachesUnder_iff_within hkeep fun hr hs hlaw => ?_⟩
  obtain ⟨l, hw⟩ := wellFormed_of_reaches hr
  exact hw.keepsPlace hs hlaw

/-- Two interrupts, one of them registered again at its priority and given another handler. -/
theorem service_list_twice : ∃ h s, (intc Nat).ReachesUnder KeepsPlace h s ∧
    (s.isrsMask = bit ⟨1, by decide⟩ ||| bit ⟨3, by decide⟩) ∧ Law h s := by
  obtain ⟨h, s, hx⟩ : ∃ h s, (intc Nat).exec
      [.intcServiceRegister ⟨3, by decide⟩ 5 7, .intcServiceRegister ⟨1, by decide⟩ 2 8,
        .intcServiceRegister ⟨3, by decide⟩ 5 9, .intcServiceChangeHandler ⟨1, by decide⟩ 10] =
      some (h, s) := ⟨_, _, rfl⟩
  have hr : (intc Nat).ReachesUnder KeepsPlace h s :=
    Machine.reachesUnder_of_exec (by decide) hx
  refine ⟨h, s, hr, ?_, (service_list h s).1 hr⟩
  cases hx
  rfl

/-- The second of two interrupts is registered again at a priority below the first one's. -/
theorem service_list_displaced : ¬ ∀ (h : Run Nat) (s : State Nat), (intc Nat).Reaches h s →
    Law h s := by
  intro hall
  obtain ⟨h, s, hx⟩ : ∃ h s, (intc Nat).exec
      [.intcServiceRegister ⟨0, by decide⟩ 1 7, .intcServiceRegister ⟨1, by decide⟩ 2 8] =
      some (h, s) := ⟨_, _, rfl⟩
  have hr : (intc Nat).ReachesUnder KeepsPlace h s :=
    Machine.reachesUnder_of_exec (by decide) hx
  have hd : Displaces s ⟨1, by decide⟩ 0 := by
    cases hx
    decide
  obtain ⟨l, hw⟩ := wellFormed_of_reaches hr
  obtain ⟨-, hstep⟩ | ⟨-, t, hstep, -⟩ :=
    hw.register_again ((hw.mask ⟨1, by decide⟩).mp hd.1) 0 9
  · have hbad : s.step (.intcServiceRegister ⟨1, by decide⟩ 0 9) ≠ some (s, .error) := by
      cases hx
      exact fun heq => nomatch congrArg (Option.map Prod.snd) heq
    exact hbad hstep
  · exact hw.keepsPlace hstep (hall _ _ (hr.reaches.step trivial hstep)) hd

end Run

end BdkRtt.Driver.Intc
