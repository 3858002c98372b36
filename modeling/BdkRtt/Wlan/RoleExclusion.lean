import BdkRtt.Wlan.RoleLaunchLaws

namespace BdkRtt.Wlan

open Lib

def Slots.Exclusive (σ : Slots) : Prop := σ.sta.previous = none ∨ σ.ap.previous = none

/-- No STA launch is in progress, or no AP launch is. -/
def RoleLaunch.Exclusive (s : RoleLaunch) : Prop :=
  s.sta.previous = none ∨ s.ap.previous = none

/-- The launch timer finds the turn with a role that has a request waiting and nothing in
progress, while the other role's launch is. -/
def RoleLaunch.Overtakes (s : RoleLaunch) (ρ : Role) : Prop :=
  s.preEntityType = ρ.entityType ∧ (s.slots.lane ρ).previous = none ∧
    (s.slots.lane ρ).following ≠ none ∧ s.admits ρ = true ∧
    (s.slots.lane ρ.other).previous ≠ none

instance (s : RoleLaunch) (ρ : Role) : Decidable (s.Overtakes ρ) :=
  inferInstanceAs (Decidable (_ ∧ _))

def InTurn (s : RoleLaunch) : LaunchEvent → Prop
  | .launchExpires => ¬ s.Overtakes .sta ∧ ¬ s.Overtakes .ap
  | .update _ | .enterExpires _ => True

instance (s : RoleLaunch) : ∀ e, Decidable (InTurn s e)
  | .launchExpires => inferInstanceAs (Decidable (¬ s.Overtakes .sta ∧ ¬ s.Overtakes .ap))
  | .update _ | .enterExpires _ => inferInstanceAs (Decidable True)

section Steps

variable {s : RoleLaunch} {σ τ : Slots} {ρ : Role} {e : LaunchEvent} {acts : List Act}

theorem Slots.Exclusive.of_none (h : (σ.lane ρ).previous = none) : σ.Exclusive := by
  cases ρ with
  | sta => exact .inl h
  | ap => exact .inr h

theorem Slots.Exclusive.other (h : σ.Exclusive) (hne : (σ.lane ρ).previous ≠ none) :
    (σ.lane ρ.other).previous = none := by
  cases ρ with
  | sta => exact h.resolve_left hne
  | ap => exact h.resolve_right hne

theorem Slots.Exclusive.congr (h : σ.Exclusive)
    (heq : ∀ κ, (τ.lane κ).previous = (σ.lane κ).previous) : τ.Exclusive := by
  rcases h with h | h
  · exact .inl ((heq .sta).trans h)
  · exact .inr ((heq .ap).trans h)

theorem InTurn.not_overtakes (h : InTurn s .launchExpires) (ρ : Role) : ¬ s.Overtakes ρ := by
  cases ρ with
  | sta => exact h.1
  | ap => exact h.2

theorem Entered.exclusive (h : Entered σ ρ τ acts) (hσ : σ.Exclusive) : τ.Exclusive := by
  cases h with
  | passesBy => exact hσ
  | starts hfree he =>
    refine .of_none (ρ := ρ.other) ?_
    simpa using hfree ρ.other
  | queues hfree he =>
    refine hσ.congr fun κ => ?_
    rcases Role.eq_or_other ρ κ with rfl | rfl <;> simp
  | refuses => exact hσ.congr fun κ => by simp

theorem Handled.exclusive (h : Handled s.admits s.slots τ acts) (hs : s.slots.Exclusive)
    (hturn : InTurn s .launchExpires) : τ.Exclusive := by
  cases h with
  | @continues ρ m htype hret =>
    by_cases hpre : (s.slots.lane ρ).previous = none
    · by_cases hnew : ((s.slots.lane ρ).launch m (s.admits ρ)).lane.previous = none
      · exact .of_none (ρ := ρ) (by simpa using hnew)
      · obtain ⟨hfoll, hadm⟩ := (launch_previous hpre).mp hnew
        have hother : (s.slots.lane ρ.other).previous = none := by
          by_contra hne
          exact hturn.not_overtakes ρ ⟨htype, hpre, hfoll, hadm, hne⟩
        exact .of_none (ρ := ρ.other) (by simpa using hother)
    · exact .of_none (ρ := ρ.other) (by simpa using hs.other hpre)
  | @passes ρ => exact .of_none (ρ := ρ) (by simp)
  | idles => exact hs.congr fun κ => by simp

theorem Move.exclusive (h : Move s e τ acts) (hs : s.slots.Exclusive) (hturn : InTurn s e) :
    τ.Exclusive := by
  cases h with
  | updates => exact hs
  | enters hsta hap => exact hap.exclusive (hsta.exclusive hs)
  | launches h => exact h.exclusive hs hturn

/-- An overtaking launch is started beside the one in progress. -/
theorem RoleLaunch.Overtakes.not_exclusive (h : s.Overtakes ρ)
    (hh : Handled s.admits s.slots τ acts) : ¬ τ.Exclusive := by
  obtain ⟨htype, hpre, hfoll, hadm, hother⟩ := h
  have hrole : ∀ κ : Role, s.slots.preEntityType = κ.entityType → κ = ρ := by
    intro κ hκ
    have heq : κ.entityType = ρ.entityType := hκ.symm.trans htype
    cases κ <;> cases ρ <;> first | rfl | cases heq
  have hnew : ∀ m, ((s.slots.lane ρ).launch m (s.admits ρ)).lane.previous ≠ none :=
    fun m => (launch_previous hpre).mpr ⟨hfoll, hadm⟩
  intro hex
  cases hh with
  | @continues κ m hκ hret =>
    obtain rfl := hrole κ hκ
    have hnone := hex.other (ρ := κ) (by simpa using hnew m)
    exact hother (by simpa using hnone)
  | @passes κ m m' a hκ hret =>
    obtain rfl := hrole κ hκ
    apply hnew m
    rw [launch_over.mp hret]
  | idles hidle =>
    have heq : s.slots.preEntityType = ρ.entityType := htype
    rw [heq] at hidle
    cases ρ <;> simp [Role.entityType] at hidle

theorem Move.not_exclusive (hm : Move s e τ acts) (h : ¬ InTurn s e) : ¬ τ.Exclusive := by
  cases hm with
  | updates => exact absurd trivial h
  | enters => exact absurd trivial h
  | launches hh =>
    by_cases hsta : s.Overtakes .sta
    · exact hsta.not_exclusive hh
    · have hap : s.Overtakes .ap := by
        by_contra hap
        exact h ⟨hsta, hap⟩
      exact hap.not_exclusive hh

end Steps

variable {h : Machine.History LaunchEvent (List Act)} {s : RoleLaunch}

theorem exclusive_of_inTurn (hr : roleLaunch.ReachesUnder InTurn h s) : s.Exclusive :=
  hr.stateInvariant RoleLaunch.Exclusive (.inl rfl) fun hs hturn hstep =>
    (Move.of_step hstep).exclusive hs hturn

/-- A STA launch and an AP launch are never in progress at the same time exactly in the runs
in which no launch overtakes the other role's. -/
theorem one_launch_at_a_time {h : Machine.History LaunchEvent (List Act)} {s : RoleLaunch} :
    roleLaunch.ReachesUnder InTurn h s ↔
      roleLaunch.ReachesUnder (fun t _ => t.Exclusive) h s ∧ s.Exclusive := by
  constructor
  · intro hin
    refine ⟨?_, exclusive_of_inTurn hin⟩
    induction hin with
    | init => exact .init
    | step hin _ hstep ih => exact .step ih (exclusive_of_inTurn hin) hstep
  · rintro ⟨hex, hs⟩
    induction hex with
    | init => exact .init
    | @step h s e t acts _ hs' hstep ih =>
      refine .step (ih hs') ?_ hstep
      by_contra hno
      exact (Move.of_step hstep).not_exclusive hno hs

def requestSta : LaunchEvent := .update (.staRequestEnter ⟨.sta⟩)
def requestAp : LaunchEvent := .update (.apRequestEnter ⟨.ap⟩)

/-- Both roles are asked for; the station comes up first and the access point after it. -/
def bothLaunched : List LaunchEvent :=
  [requestSta, requestAp, .enterExpires true,
    .update (.preStaSetStatus rlStatusStaLaunched), .launchExpires,
    .update (.preApSetStatus rlStatusApLaunched), .launchExpires]

theorem one_launch_at_a_time_both :
    ∃ h s, roleLaunch.Reaches h s ∧ s.preEntityType = .sta ∧
      roleLaunch.ReachesUnder (fun t _ => t.Exclusive) h s ∧ s.Exclusive := by
  have hrun : ∃ h s, roleLaunch.exec bothLaunched = some (h, s) ∧ s.preEntityType = .sta :=
    ⟨_, _, rfl, rfl⟩
  obtain ⟨h, s, hx, htype⟩ := hrun
  have hin := Machine.reachesUnder_of_exec (C := InTurn) (by decide) hx
  exact ⟨h, s, hin.reaches, htype, one_launch_at_a_time.mp hin⟩

/-- The turn is left with the station; the access point is started, and then a station. -/
theorem sta_overtakes_ap :
    ∃ h s, roleLaunch.Reaches h s ∧ s.sta.previous ≠ none ∧ s.ap.previous ≠ none := by
  have hrun : ∃ h s, roleLaunch.exec (bothLaunched ++
      [requestAp, .enterExpires true, requestSta, .enterExpires true, .launchExpires]) =
        some (h, s) ∧ s.sta.previous ≠ none ∧ s.ap.previous ≠ none :=
    ⟨_, _, rfl, nofun, nofun⟩
  obtain ⟨h, s, hx, hboth⟩ := hrun
  exact ⟨h, s, Machine.reaches_of_exec hx, hboth⟩

end BdkRtt.Wlan
