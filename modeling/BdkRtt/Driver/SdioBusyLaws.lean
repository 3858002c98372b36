import BdkRtt.Driver.SdioBusy
import Mathlib.Order.Lattice

namespace BdkRtt.Driver.SdioBusy

open Lib

open Sdio (h2sRdSync h2sWrSync s2hRdSync s2hWrSync h2sRdSpecial s2hWrSpecial)

section Counts

variable {c : Counts}

/-- As many counts up as down have been added. -/
def Counts.Returned (c c' : Counts) : Prop :=
  ∃ k, c' = ⟨c.periBusyCount, c.adds + k, c.decs + k⟩

theorem Counts.add_dec (c : Counts) : c.add.dec = ⟨c.periBusyCount, c.adds + 1, c.decs + 1⟩ := by
  rw [Counts.dec, Counts.add, Int32.add_sub_cancel]

theorem Counts.returned_add_dec (c : Counts) : c.Returned c.add.dec := ⟨1, c.add_dec⟩

theorem Counts.returned_nested (c : Counts) : c.Returned c.add.add.dec.dec := by
  refine ⟨2, ?_⟩
  rw [c.add.add_dec, Counts.dec, Counts.add, Int32.add_sub_cancel]

end Counts

section Frame

variable (s : State) (p : Queue) (n : UInt32)

@[simp] theorem suPushNode_counts : (s.suPushNode p n).counts = s.counts := rfl

@[simp] theorem setNode_counts (x : Node) : (s.setNode n x).counts = s.counts := rfl

@[simp] theorem osMemcpy_counts (dst src len : UInt32) :
    (s.osMemcpy dst src len).counts = s.counts := rfl

@[simp] theorem suPopNode_counts : (s.suPopNode p).2.counts = s.counts := by
  rw [State.suPopNode]
  split <;> rfl

@[simp] theorem sdioFreeValidNode_counts : (s.sdioFreeValidNode n).counts = s.counts := rfl

@[simp] theorem periBusyCountAdd_counts : s.periBusyCountAdd.counts = s.counts.add := rfl

@[simp] theorem periBusyCountDec_counts : s.periBusyCountDec.counts = s.counts.dec := rfl

@[simp] theorem sdioAllocValidNode_counts (bufSize malloc : UInt32) :
    (s.sdioAllocValidNode bufSize malloc).2.counts = s.counts := by
  have hpop := suPopNode_counts s .freeNodes
  rw [State.sdioAllocValidNode]
  split
  · rfl
  · dsimp only
    split
    · split
      · exact hpop
      · exact hpop
    · exact hpop

@[simp] theorem command_counts (cmd param malloc : UInt32) :
    (s.command cmd param malloc).2.counts = s.counts := by
  rw [State.command]
  repeat' split
  all_goals first | rfl | exact sdioAllocValidNode_counts ..

@[simp] theorem sdioCtrl_counts (cmd param malloc : UInt32) :
    (s.sdioCtrl cmd param malloc).2.counts = s.counts.add.dec := by
  rw [State.sdioCtrl, periBusyCountDec_counts, command_counts, periBusyCountAdd_counts]

end Frame

section Calls

variable {s : State} {userBuf count opFlag malloc freeNodes : UInt32} {p : Queue}

theorem readSync_counts : (s.readSync p userBuf count).2.counts =
    if userBuf = 0 ∨ count = 0 then s.counts else s.counts.dec := by
  rw [State.readSync]
  split
  · rfl
  · dsimp only
    split <;> simp

theorem readSpecial_counts : (s.readSpecial freeNodes).2.counts = s.counts.dec := by
  rw [State.readSpecial]
  dsimp only
  split <;> simp

/-- A read counts down again unless it leaves by the label. -/
theorem sdioRead_counts : (s.sdioRead freeNodes userBuf count opFlag).2.counts =
    if (Event.sdioRead userBuf count opFlag).Leaves then s.counts.add else s.counts.add.dec := by
  rw [State.sdioRead]
  split
  next hop =>
    rw [readSync_counts, periBusyCountAdd_counts]
    simp [Event.Leaves, hop]
  next hop =>
    split
    next hop' =>
      rw [readSync_counts, periBusyCountAdd_counts]
      simp [Event.Leaves, hop']
    next hop' =>
      have hstays : ¬ (Event.sdioRead userBuf count opFlag).Leaves := fun h => h.1.elim hop hop'
      rw [if_neg hstays]
      split
      · rw [readSpecial_counts, periBusyCountAdd_counts]
      · rfl

theorem writeSync_counts {notify : Bool} (h : ¬ (userBuf = 0 ∨ count = 0)) :
    (s.writeSync p notify userBuf count malloc).2.counts = s.counts.dec ∨
      (s.writeSync p notify userBuf count malloc).2.counts = s.counts.add.dec.dec := by
  rw [State.writeSync, if_neg h]
  dsimp only
  split
  · cases notify
    · exact .inl (by simp)
    · exact .inr (by simp)
  · exact .inl (by simp)

/-- A write that leaves by the label has counted up only. -/
theorem sdioWrite_leaves (h : (Event.sdioWrite userBuf count opFlag malloc).Leaves) :
    (s.sdioWrite userBuf count opFlag malloc).2.counts = s.counts.add := by
  rw [State.sdioWrite]
  obtain ⟨hop, hnull⟩ := h
  split
  · rw [State.writeSync, if_pos hnull]
    rfl
  · split
    · rw [State.writeSpecial, if_pos hnull]
      rfl
    · rw [if_pos (by simp_all), State.writeSync, if_pos hnull]
      rfl

theorem returned_of_eq {c : Counts} (h : c = s.counts.add.dec ∨ c = s.counts.add.add.dec.dec) :
    s.counts.Returned c := by
  rcases h with rfl | rfl
  · exact Counts.returned_add_dec _
  · exact Counts.returned_nested _

theorem sdioWrite_returned (h : ¬ (Event.sdioWrite userBuf count opFlag malloc).Leaves) :
    s.counts.Returned (s.sdioWrite userBuf count opFlag malloc).2.counts := by
  have hfull (hop : opFlag = s2hWrSync ∨ opFlag = s2hWrSpecial ∨ opFlag = h2sWrSync) :
      ¬ (userBuf = 0 ∨ count = 0) := fun hnull => h ⟨hop, hnull⟩
  apply returned_of_eq
  rw [State.sdioWrite]
  split
  next hop => exact writeSync_counts (hfull (.inl hop))
  next =>
    split
    next hop =>
      rw [State.writeSpecial, if_neg (hfull (.inr (.inl hop)))]
      exact .inr (by simp)
    next =>
      split
      next hop => exact writeSync_counts (hfull (.inr (.inr hop)))
      next => exact .inl rfl

end Calls

section Runs

variable {freeNodes : UInt32} {s t s₀ : State} {e : Event} {o : UInt32}

/-- What one call does to the counts. -/
theorem step_counts (hs : s.step freeNodes e = some (t, o)) :
    (e.Leaves ∧ t.counts = s.counts.add) ∨ (¬ e.Leaves ∧ s.counts.Returned t.counts) := by
  cases e with
  | sdioRead userBuf count opFlag =>
    obtain ⟨rfl, -⟩ := Prod.mk.inj (Option.some.inj hs)
    rw [sdioRead_counts]
    split
    next h => exact .inl ⟨h, rfl⟩
    next h => exact .inr ⟨h, Counts.returned_add_dec _⟩
  | sdioWrite userBuf count opFlag malloc =>
    obtain ⟨rfl, -⟩ := Prod.mk.inj (Option.some.inj hs)
    by_cases h : (Event.sdioWrite userBuf count opFlag malloc).Leaves
    · exact .inl ⟨h, sdioWrite_leaves h⟩
    · exact .inr ⟨h, sdioWrite_returned h⟩
  | sdioCtrl cmd param malloc =>
    obtain ⟨rfl, -⟩ := Prod.mk.inj (Option.some.inj hs)
    refine .inr ⟨id, ?_⟩
    rw [sdioCtrl_counts]
    exact Counts.returned_add_dec _

/-- In any run there is one `peri_busy_count_add` too many for each call that left by the label. -/
theorem adds_eq {h : Machine.History Event UInt32} (hr : (calls freeNodes s₀).Reaches h s) :
    s.counts.adds = s.counts.decs + h.countP fun x => x.1.Leaves := by
  refine hr.invariant (fun h s => s.counts.adds = s.counts.decs + h.countP fun x => x.1.Leaves)
    rfl fun {h s e t o} ih _ hs => ?_
  rw [List.countP_append, List.countP_singleton]
  rcases step_counts hs with ⟨hleaves, ht⟩ | ⟨hstays, k, ht⟩
  · rw [ht, Counts.add]
    simp [hleaves]
    omega
  · rw [ht]
    simp [hstays]
    omega

/-- The runs in which the busy count comes back after every call are those without a synchronous
read, and without a write, of nothing. -/
theorem sdio_busy_iff_stays (freeNodes : UInt32) (s₀ : State) (h : Machine.History Event UInt32)
    (s : State) :
    Balanced s₀.counts.periBusyCount (calls freeNodes s₀).init ∧
      ((calls freeNodes s₀).ReachesUnder (fun _ e => ¬ e.Leaves) h s ↔
        (calls freeNodes s₀).ReachesWithin
          (fun _ => Balanced s₀.counts.periBusyCount) h s) := by
  refine ⟨⟨rfl, rfl⟩, Machine.reachesUnder_iff_within (fun hr => ?_) fun hr hs hlaw => ?_⟩
  · refine hr.stateInvariant (Balanced s₀.counts.periBusyCount) ⟨rfl, rfl⟩
      fun {s e t o} hbalanced hc hs => ?_
    obtain ⟨hleaves, -⟩ | ⟨-, k, ht⟩ := step_counts hs
    · exact absurd hleaves hc
    · rw [Balanced, ht]
      exact ⟨congrArg (· + k) hbalanced.1, hbalanced.2⟩
  · intro hleaves
    have hadds := adds_eq (.step hr.reaches trivial hs)
    rw [hlaw.1, List.countP_append, List.countP_singleton] at hadds
    simp [hleaves] at hadds

def initState : State where
  node _ := ⟨0, 0, 0, 0, 0⟩
  lists _ := []
  rxCb := 0
  txValid := false
  word _ := 0
  copies := []
  freed := []
  counts := ⟨0, 0, 0⟩

/-- A read into a null pointer leaves the count one higher. -/
theorem sdio_busy_stuck : ∃ h s, (calls 1 initState).Reaches h s ∧
    ¬ Balanced initState.counts.periBusyCount s :=
  ⟨_, _, .step .init trivial (e := .sdioRead 0 1 s2hRdSync) rfl, fun h => absurd h.1 (by decide)⟩

end Runs

end BdkRtt.Driver.SdioBusy
