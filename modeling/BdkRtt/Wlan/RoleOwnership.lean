import BdkRtt.Wlan.RoleLaunchLaws
import Mathlib.Data.List.Perm.Basic

namespace BdkRtt.Wlan

open Lib

section Holdings

def idsOf (slot : Option RlEntity) : List Nat := slot.toList.map (·.id)

/-- The entities the slots of a role hold. -/
def Lane.ids (lane : Lane) : List Nat := idsOf lane.previous ++ idsOf lane.following

def Slots.ids (σ : Slots) : List Nat := σ.sta.ids ++ σ.ap.ids

/-- The entities waiting in a following slot. -/
def Slots.waiting (σ : Slots) : List Nat := idsOf σ.sta.following ++ idsOf σ.ap.following

def allocated (acts : List Act) : List Nat :=
  acts.filterMap fun
    | .alloc id => some id
    | .start _ | .free _ => none

def started (acts : List Act) : List Nat :=
  acts.filterMap fun
    | .start id => some id
    | .alloc _ | .free _ => none

def freed (acts : List Act) : List Nat :=
  acts.filterMap fun
    | .free id => some id
    | .alloc _ | .start _ => none

variable (acts acts' : List Act)

@[simp] theorem allocated_append : allocated (acts ++ acts') = allocated acts ++ allocated acts' :=
  List.filterMap_append

@[simp] theorem started_append : started (acts ++ acts') = started acts ++ started acts' :=
  List.filterMap_append

@[simp] theorem freed_append : freed (acts ++ acts') = freed acts ++ freed acts' :=
  List.filterMap_append

theorem Slots.ids_role (σ : Slots) (ρ : Role) :
    σ.ids.Perm ((σ.lane ρ).ids ++ (σ.lane ρ.other).ids) := by
  cases ρ with
  | sta => exact .refl _
  | ap => exact List.perm_append_comm

theorem Slots.waiting_role (σ : Slots) (ρ : Role) :
    σ.waiting.Perm (idsOf (σ.lane ρ).following ++ idsOf (σ.lane ρ.other).following) := by
  cases ρ with
  | sta => exact .refl _
  | ap => exact List.perm_append_comm

end Holdings

section Launching

variable (lane : Lane) (mayNext admits : Bool)

/-- A launch gives up no entity but those it frees. -/
theorem launch_ids :
    ((lane.launch mayNext admits).lane.ids ++ freed (lane.launch mayNext admits).acts).Perm
      lane.ids := by
  obtain ⟨previous, following⟩ := lane
  cases previous <;> cases mayNext <;> cases following <;> cases admits <;>
    simp [Lane.launch, Lane.ids, idsOf, LaneStep.acts, freed, List.Perm.swap]

/-- What a launch starts has been waiting. -/
theorem launch_waiting :
    (idsOf (lane.launch mayNext admits).lane.following ++
      started (lane.launch mayNext admits).acts).Sublist (idsOf lane.following) := by
  obtain ⟨previous, following⟩ := lane
  cases previous <;> cases mayNext <;> cases following <;> cases admits <;>
    simp [Lane.launch, idsOf, LaneStep.acts, started]

theorem launch_running :
    idsOf (lane.launch mayNext admits).lane.previous ⊆
      idsOf lane.previous ++ started (lane.launch mayNext admits).acts := by
  obtain ⟨previous, following⟩ := lane
  cases previous <;> cases mayNext <;> cases following <;> cases admits <;>
    simp [Lane.launch, idsOf, LaneStep.acts, started]

theorem launch_allocated : allocated (lane.launch mayNext admits).acts = [] := by
  obtain ⟨previous, following⟩ := lane
  cases previous <;> cases mayNext <;> cases following <;> cases admits <;>
    simp [Lane.launch, LaneStep.acts, allocated]

end Launching

section Custody

/-- Every entity handed out so far is in one slot or freed, and once; what was started was
started once and waits no more; and what a previous slot holds was started. -/
structure Custody (log : List Act) (σ : Slots) : Prop where
  handedOut : allocated log = List.range σ.allocated
  held : (σ.ids ++ freed log).Perm (List.range σ.allocated)
  once : (σ.waiting ++ started log).Nodup
  bound : ∀ id ∈ started log, id < σ.allocated
  running : ∀ ρ, idsOf (σ.lane ρ).previous ⊆ started log

variable {σ τ : Slots} {ρ : Role} {log acts : List Act}

theorem Slots.allocated_enter (σ : Slots) (ρ : Role) :
    (σ.enter ρ).allocated = σ.allocated + 1 := rfl

theorem count_ids (σ : Slots) (ρ : Role) (a : Nat) :
    σ.ids.count a = (σ.lane ρ).ids.count a + (σ.lane ρ.other).ids.count a := by
  rw [(σ.ids_role ρ).count_eq, List.count_append]

theorem count_waiting (σ : Slots) (ρ : Role) (a : Nat) :
    σ.waiting.count a = (idsOf (σ.lane ρ).following).count a +
      (idsOf (σ.lane ρ.other).following).count a := by
  rw [(σ.waiting_role ρ).count_eq, List.count_append]

theorem Custody.count_held (h : Custody log σ) (ρ : Role) (a : Nat) :
    (σ.lane ρ).ids.count a + (σ.lane ρ.other).ids.count a + (freed log).count a =
      (List.range σ.allocated).count a := by
  rw [← h.held.count_eq, List.count_append, count_ids σ ρ]

theorem Custody.count_once (h : Custody log σ) (ρ : Role) (a : Nat) :
    (idsOf (σ.lane ρ).following).count a + (idsOf (σ.lane ρ.other).following).count a +
      (started log).count a ≤ 1 := by
  rw [← count_waiting, ← List.count_append]
  exact List.nodup_iff_count.mp h.once a

theorem Custody.congr (h : Custody log σ) (hlane : ∀ κ, τ.lane κ = σ.lane κ)
    (halloc : τ.allocated = σ.allocated) : Custody log τ := by
  have hsta : τ.sta = σ.sta := hlane .sta
  have hap : τ.ap = σ.ap := hlane .ap
  obtain ⟨h₁, h₂, h₃, h₄, h₅⟩ := h
  refine ⟨?_, ?_, ?_, ?_, fun κ => ?_⟩
  · rwa [halloc]
  · rwa [Slots.ids, hsta, hap, halloc]
  · rwa [Slots.waiting, hsta, hap]
  · rwa [halloc]
  · rw [hlane]
    exact h₅ κ

theorem Custody.following_lt (h : Custody log σ) {id : Nat}
    (hid : id ∈ idsOf (σ.lane ρ).following) : id < σ.allocated := by
  have hmem : id ∈ σ.ids ++ freed log := by
    rw [List.mem_append, (σ.ids_role ρ).mem_iff, List.mem_append, Lane.ids, List.mem_append]
    exact .inl (.inl (.inr hid))
  exact List.mem_range.mp (h.held.mem_iff.mp hmem)

theorem Custody.launch (h : Custody log σ) (ρ : Role) (m a : Bool) :
    Custody (log ++ ((σ.lane ρ).launch m a).acts) (σ.set ρ ((σ.lane ρ).launch m a).lane) := by
  have hsub := launch_waiting (σ.lane ρ) m a
  refine ⟨?_, ?_, ?_, ?_, fun κ => ?_⟩
  · rw [allocated_append, launch_allocated, List.append_nil, Slots.set_allocated]
    exact h.handedOut
  · rw [List.perm_iff_count, Slots.set_allocated]
    intro id
    have hids := (launch_ids (σ.lane ρ) m a).count_eq id
    have hheld := h.count_held ρ id
    rw [List.count_append] at hids
    rw [freed_append, List.count_append, List.count_append, count_ids _ ρ,
      Slots.lane_set_same, Slots.lane_set_other]
    omega
  · rw [List.nodup_iff_count]
    intro id
    have hwait := hsub.count_le id
    have honce := h.count_once ρ id
    rw [List.count_append] at hwait
    rw [started_append, List.count_append, List.count_append, count_waiting _ ρ,
      Slots.lane_set_same, Slots.lane_set_other]
    omega
  · intro id hid
    rw [Slots.set_allocated]
    rw [started_append, List.mem_append] at hid
    rcases hid with hid | hid
    · exact h.bound id hid
    · exact h.following_lt (hsub.subset (List.mem_append_right _ hid))
  · rw [started_append]
    rcases Role.eq_or_other ρ κ with rfl | rfl
    · rw [Slots.lane_set_same]
      intro id hid
      rcases List.mem_append.mp (launch_running _ m a hid) with hid | hid
      · exact List.mem_append_left _ (h.running _ hid)
      · exact List.mem_append_right _ hid
    · rw [Slots.lane_set_other]
      exact fun id hid => List.mem_append_left _ (h.running _ hid)

/-- The next entity is in no slot, not freed and not started. -/
theorem Custody.fresh (h : Custody log σ) :
    (σ.waiting ++ started log).count σ.allocated = 0 := by
  rw [List.count_eq_zero, List.mem_append, not_or]
  constructor
  · rw [(σ.waiting_role .sta).mem_iff, List.mem_append]
    rintro (hid | hid) <;> exact absurd (h.following_lt hid) (Nat.lt_irrefl _)
  · exact fun hid => absurd (h.bound _ hid) (Nat.lt_irrefl _)

/-- A new entity put in a slot that was empty. -/
theorem Custody.held_enter (h : Custody log σ) {lane : Lane} (ρ : Role)
    (hlane : lane.ids.Perm (σ.allocated :: (σ.lane ρ).ids)) :
    (((σ.set ρ lane).enter ρ).ids ++ freed log).Perm (List.range (σ.allocated + 1)) := by
  rw [List.perm_iff_count]
  intro id
  have hids := hlane.count_eq id
  have hheld := h.count_held ρ id
  rw [List.count_cons] at hids
  rw [List.range_succ, List.count_append, List.count_append, count_ids _ ρ, Slots.lane_enter,
    Slots.lane_enter, Slots.lane_set_same, Slots.lane_set_other, List.count_singleton]
  omega

theorem Custody.count_fresh (h : Custody log σ) (ρ : Role) (id : Nat) :
    (idsOf (σ.lane ρ).following).count id + (idsOf (σ.lane ρ.other).following).count id +
      (started log).count id + [σ.allocated].count id ≤ 1 := by
  have honce := h.count_once ρ id
  have hfresh := h.fresh
  rw [List.count_append, count_waiting _ ρ] at hfresh
  rw [List.count_singleton]
  split
  next heq =>
    rw [beq_iff_eq] at heq
    subst heq
    omega
  next => omega

/-- The new entity is started at once, or waits. -/
theorem Custody.enters (h : Custody log σ) {lane : Lane} (ρ : Role)
    (hlane : lane.ids.Perm (σ.allocated :: (σ.lane ρ).ids))
    (halloc : allocated acts = [σ.allocated]) (hfreed : freed acts = [])
    (hwaits : (idsOf lane.following ++ started acts).Perm
      (idsOf (σ.lane ρ).following ++ [σ.allocated]))
    (hruns : idsOf lane.previous ⊆ idsOf (σ.lane ρ).previous ++ started acts) :
    Custody (log ++ acts) ((σ.set ρ lane).enter ρ) := by
  refine ⟨?_, ?_, ?_, ?_, fun κ => ?_⟩
  · rw [allocated_append, halloc, h.handedOut, Slots.allocated_enter, Slots.set_allocated,
      List.range_succ]
  · rw [freed_append, hfreed, List.append_nil, Slots.allocated_enter, Slots.set_allocated]
    exact h.held_enter ρ hlane
  · rw [List.nodup_iff_count]
    intro id
    have hfresh := h.count_fresh ρ id
    have hnew := hwaits.count_eq id
    rw [List.count_append, List.count_append] at hnew
    rw [started_append, List.count_append, List.count_append, count_waiting _ ρ,
      Slots.lane_enter, Slots.lane_enter, Slots.lane_set_same, Slots.lane_set_other]
    omega
  · intro id hid
    rw [Slots.allocated_enter, Slots.set_allocated]
    rw [started_append, List.mem_append] at hid
    rcases hid with hid | hid
    · exact Nat.lt_succ_of_lt (h.bound id hid)
    · rcases List.mem_append.mp (hwaits.subset (List.mem_append_right _ hid)) with hid | hid
      · exact Nat.lt_succ_of_lt (h.following_lt hid)
      · rw [List.mem_singleton.mp hid]
        exact Nat.lt_succ_self _
  · rw [started_append, Slots.lane_enter]
    rcases Role.eq_or_other ρ κ with rfl | rfl
    · rw [Slots.lane_set_same]
      intro id hid
      rcases List.mem_append.mp (hruns hid) with hid | hid
      · exact List.mem_append_left _ (h.running _ hid)
      · exact List.mem_append_right _ hid
    · rw [Slots.lane_set_other]
      exact fun id hid => List.mem_append_left _ (h.running _ hid)

theorem Custody.starts (h : Custody log σ) {e : RlEntity} (ρ : Role)
    (hfree : (σ.lane ρ).previous = none) (he : e.id = σ.allocated) :
    Custody (log ++ [.alloc e.id, .start e.id])
      ((σ.set ρ { σ.lane ρ with previous := some e }).enter ρ) := by
  refine h.enters ρ ?_ ?_ rfl ?_ ?_
  · simp [Lane.ids, idsOf, hfree, he]
  · simp [allocated, he]
  · simp [started, he]
  · simp [idsOf, started]

theorem Custody.queues (h : Custody log σ) {e : RlEntity} (ρ : Role)
    (hfree : (σ.lane ρ).following = none) (he : e.id = σ.allocated) :
    Custody (log ++ [.alloc e.id])
      ((σ.set ρ { σ.lane ρ with following := some e }).enter ρ) := by
  refine h.enters ρ ?_ ?_ rfl ?_ ?_
  · simp [Lane.ids, idsOf, hfree, he, List.perm_append_singleton]
  · simp [allocated, he]
  · simp [idsOf, started, hfree, he]
  · simp [started]

theorem Entered.custody (hent : Entered σ ρ τ acts) (h : Custody log σ) :
    Custody (log ++ acts) τ := by
  cases hent with
  | passesBy => rwa [List.append_nil]
  | starts hfree he => exact h.starts ρ (hfree ρ) he
  | queues hfree he => exact (h.queues ρ hfree he).congr (fun κ => by simp) rfl
  | refuses =>
    rw [List.append_nil]
    exact h.congr (fun κ => by simp) rfl

theorem Handled.custody {admits : Role → Bool} (hh : Handled admits σ τ acts)
    (h : Custody log σ) : Custody (log ++ acts) τ := by
  cases hh with
  | continues => exact (h.launch _ _ _).congr (fun κ => by simp) rfl
  | @passes ρ m m' a htype hret =>
    have hfirst := h.launch ρ m (admits ρ)
    rw [launch_over.mp hret] at hfirst
    have hturn := hfirst.congr (τ := (σ.set ρ ⟨none, none⟩).setPreEntityType ρ.other.entityType)
      (fun κ => by simp) rfl
    have hsecond := hturn.launch ρ.other m' a
    rw [Slots.lane_setPreEntityType, Slots.lane_set_other, List.append_assoc] at hsecond
    exact hsecond.congr (fun κ => by simp) rfl
  | idles =>
    rw [List.append_nil]
    exact h.congr (fun κ => by simp) rfl

theorem Move.custody {s : RoleLaunch} {e : LaunchEvent} (hm : Move s e τ acts)
    (h : Custody log s.slots) : Custody (log ++ acts) τ := by
  cases hm with
  | updates => rwa [List.append_nil]
  | enters hsta hap =>
    rw [← List.append_assoc]
    exact hap.custody (hsta.custody h)
  | launches hh => exact hh.custody h

end Custody

section Armed

/-- A request waits only while the launch timer runs and the turn is with one of the roles. -/
structure Slots.Armed (σ : Slots) : Prop where
  notMesh : σ.preEntityType ≠ .mesh
  runs : ∀ ρ, (σ.lane ρ).following ≠ none → σ.rlTimer = true ∧ σ.preEntityType ≠ .idle

variable {σ τ : Slots} {ρ : Role} {acts : List Act}

theorem Role.entityType_ne (ρ : Role) : ρ.entityType ≠ .mesh ∧ ρ.entityType ≠ .idle := by
  cases ρ <;> exact ⟨nofun, nofun⟩

theorem Slots.enter_turn (σ : Slots) (ρ : Role) (h : σ.preEntityType ≠ .mesh) :
    (σ.enter ρ).preEntityType ≠ .mesh ∧ (σ.enter ρ).preEntityType ≠ .idle := by
  simp only [Slots.enter]
  split
  next => exact ρ.entityType_ne
  next hidle => exact ⟨h, hidle⟩

theorem Entered.armed (hent : Entered σ ρ τ acts) (h : σ.Armed) : τ.Armed := by
  cases hent with
  | passesBy => exact h
  | @starts e hfree he =>
    have hturn := (σ.set ρ { σ.lane ρ with previous := some e }).enter_turn ρ
      (by rw [Slots.set_preEntityType]; exact h.notMesh)
    refine ⟨hturn.1, fun κ hκ => ⟨?_, hturn.2⟩⟩
    have hfoll : (σ.lane κ).following ≠ none := by
      rw [Slots.lane_enter] at hκ
      rcases Role.eq_or_other ρ κ with rfl | rfl
      · rwa [Slots.lane_set_same] at hκ
      · rwa [Slots.lane_set_other] at hκ
    have htimer := (h.runs κ hfoll).1
    simpa [Slots.enter] using htimer
  | @queues e hfree he =>
    have hturn := (σ.set ρ { σ.lane ρ with following := some e }).enter_turn ρ
      (by rw [Slots.set_preEntityType]; exact h.notMesh)
    exact ⟨hturn.1, fun κ _ => ⟨rfl, hturn.2⟩⟩
  | refuses =>
    refine ⟨h.notMesh, fun κ hκ => ⟨rfl, ?_⟩⟩
    rw [Slots.lane_setRlTimer] at hκ
    exact (h.runs κ hκ).2

theorem Handled.armed {admits : Role → Bool} (hh : Handled admits σ τ acts) (h : σ.Armed) :
    τ.Armed := by
  cases hh with
  | @continues ρ m htype hret =>
    have hturn : (σ.set ρ ((σ.lane ρ).launch m (admits ρ)).lane).preEntityType =
        ρ.entityType := by rw [Slots.set_preEntityType, htype]
    refine ⟨?_, fun κ _ => ⟨rfl, ?_⟩⟩
    · exact hturn ▸ ρ.entityType_ne.1
    · exact hturn ▸ ρ.entityType_ne.2
  | @passes ρ m m' a htype hret =>
    have hturn : (((σ.set ρ ⟨none, none⟩).setPreEntityType ρ.other.entityType).set ρ.other
        ((σ.lane ρ.other).launch m' a).lane).preEntityType = ρ.other.entityType :=
      Slots.set_preEntityType _ _ _
    refine ⟨fun hmesh => ρ.other.entityType_ne.1 (hturn.symm.trans hmesh),
      fun κ hκ => ⟨?_, fun hidle => ρ.other.entityType_ne.2 (hturn.symm.trans hidle)⟩⟩
    -- a role that is over has nothing in its slots
    have hcont : ((σ.lane ρ.other).launch m' a).ret = .cont := by
      cases hover : ((σ.lane ρ.other).launch m' a).ret with
      | cont => rfl
      | «over» =>
        rw [launch_over.mp hover, Slots.lane_setRlTimer] at hκ
        rcases Role.eq_or_other ρ κ with rfl | rfl
        · simp at hκ
        · simp at hκ
    exact decide_eq_true hcont
  | idles htype =>
    refine ⟨h.notMesh, fun κ hκ => ?_⟩
    rw [Slots.lane_setRlTimer] at hκ
    exact absurd (htype.resolve_right h.notMesh) (h.runs κ hκ).2

theorem Move.armed {s : RoleLaunch} {e : LaunchEvent} (hm : Move s e τ acts)
    (h : s.slots.Armed) : τ.Armed := by
  cases hm with
  | updates => exact h
  | enters hsta hap => exact hap.armed (hsta.armed h)
  | launches hh => exact hh.armed h

end Armed

variable {h : Machine.History LaunchEvent (List Act)} {s : RoleLaunch}

/-- All that has happened to entities in a run. -/
def actsOf (h : Machine.History LaunchEvent (List Act)) : List Act := h.flatMap (·.2)

theorem custody_of_reaches (hr : roleLaunch.Reaches h s) :
    Custody (actsOf h) s.slots ∧ s.slots.Armed := by
  refine hr.invariant (fun h s => Custody (actsOf h) s.slots ∧ s.slots.Armed) ?_ ?_
  · refine ⟨⟨rfl, .refl _, .nil, nofun, fun ρ => ?_⟩, nofun, fun ρ hρ => ?_⟩
    · cases ρ <;> exact List.nil_subset _
    · cases ρ <;> exact absurd rfl hρ
  · rintro h s e t acts ⟨hcustody, harmed⟩ _ hstep
    have hm := Move.of_step hstep
    rw [actsOf, List.flatMap_append, List.flatMap_singleton]
    exact ⟨hm.custody hcustody, hm.armed harmed⟩

/-- Every entity handed out is in one of the four slots or freed, in one place and once; it
is started at most once, and not while it waits in a following slot; and while one waits
there the launch timer runs. -/
theorem requests_owned {h : Machine.History LaunchEvent (List Act)} {s : RoleLaunch}
    (hr : roleLaunch.Reaches h s) :
    (allocated (actsOf h)).Nodup ∧
    (s.slots.ids ++ freed (actsOf h)).Perm (allocated (actsOf h)) ∧
    (started (actsOf h)).Nodup ∧ started (actsOf h) ⊆ allocated (actsOf h) ∧
    (∀ id ∈ s.slots.waiting, id ∉ started (actsOf h)) ∧
    ∀ ρ, (s.slots.lane ρ).following ≠ none → s.rlTimer = true := by
  obtain ⟨hcustody, harmed⟩ := custody_of_reaches hr
  have honce := List.nodup_append.mp hcustody.once
  refine ⟨?_, ?_, honce.2.1, ?_, ?_, fun ρ hρ => (harmed.runs ρ hρ).1⟩
  · rw [hcustody.handedOut]
    exact List.nodup_range
  · rw [hcustody.handedOut]
    exact hcustody.held
  · rw [hcustody.handedOut]
    exact fun id hid => List.mem_range.mpr (hcustody.bound id hid)
  · exact fun id hid hst => honce.2.2 id hid id hst rfl

theorem requests_owned_waiting :
    ∃ h s, roleLaunch.Reaches h s ∧ (s.slots.lane .ap).following ≠ none ∧
      started (actsOf h) = [0] ∧ s.rlTimer = true := by
  have hrun : ∃ h s, roleLaunch.exec [.update (.staRequestEnter ⟨.sta⟩),
      .update (.apRequestEnter ⟨.ap⟩), .enterExpires true] = some (h, s) ∧
      (s.slots.lane .ap).following ≠ none ∧ started (actsOf h) = [0] :=
    ⟨_, _, rfl, nofun, rfl⟩
  obtain ⟨h, s, hx, hfoll, hst⟩ := hrun
  have hr := Machine.reaches_of_exec hx
  exact ⟨h, s, hr, hfoll, hst, (requests_owned hr).2.2.2.2.2 .ap hfoll⟩

end BdkRtt.Wlan
