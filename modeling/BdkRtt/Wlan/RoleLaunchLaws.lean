import BdkRtt.Wlan.RoleLaunch

namespace BdkRtt.Wlan

open Lib

section Roles

/-- The two roles, whose functions mirror each other. -/
inductive Role
  | sta | ap
  deriving DecidableEq

def Role.other : Role → Role
  | .sta => .ap
  | .ap => .sta

def Role.entityType : Role → PreEntityType
  | .sta => .sta
  | .ap => .ap

def RoleLaunch.admits (s : RoleLaunch) : Role → Bool
  | .sta => s.staAdmits
  | .ap => s.apAdmits

def rlLaunch (s : RoleLaunch) : Role → RoleLaunch × List Act × LaunchStatus
  | .sta => rlLaunchSta s
  | .ap => rlLaunchAp s

theorem Role.eq_or_other (ρ σ : Role) : σ = ρ ∨ σ = ρ.other := by
  cases ρ <;> cases σ <;> simp [Role.other]

theorem Role.of_entityType {p : PreEntityType} (hidle : p ≠ .idle) (hmesh : p ≠ .mesh) :
    ∃ ρ : Role, p = ρ.entityType := by
  cases p with
  | idle => exact absurd rfl hidle
  | sta => exact ⟨.sta, rfl⟩
  | ap => exact ⟨.ap, rfl⟩
  | mesh => exact absurd rfl hmesh

end Roles

section Slots

/-- The part of the launcher that decides who runs: the slots, whose turn it is, whether the
launch timer runs, and how many entities there have been. -/
structure Slots where
  sta : Lane
  ap : Lane
  preEntityType : PreEntityType
  rlTimer : Bool
  allocated : Nat

def RoleLaunch.slots (s : RoleLaunch) : Slots :=
  ⟨s.sta, s.ap, s.preEntityType, s.rlTimer, s.allocated⟩

def Slots.lane (σ : Slots) : Role → Lane
  | .sta => σ.sta
  | .ap => σ.ap

def Slots.set (σ : Slots) (ρ : Role) (lane : Lane) : Slots :=
  match ρ with
  | .sta => { σ with sta := lane }
  | .ap => { σ with ap := lane }

def Slots.setRlTimer (σ : Slots) (b : Bool) : Slots := { σ with rlTimer := b }

def Slots.setPreEntityType (σ : Slots) (p : PreEntityType) : Slots :=
  { σ with preEntityType := p }

variable (σ : Slots) (ρ : Role) (lane : Lane)

@[simp] theorem Slots.lane_set_same : (σ.set ρ lane).lane ρ = lane := by cases ρ <;> rfl

@[simp] theorem Slots.lane_set_other : (σ.set ρ lane).lane ρ.other = σ.lane ρ.other := by
  cases ρ <;> rfl

@[simp] theorem Slots.lane_set_other' : (σ.set ρ.other lane).lane ρ = σ.lane ρ := by
  cases ρ <;> rfl

@[simp] theorem Slots.set_preEntityType : (σ.set ρ lane).preEntityType = σ.preEntityType := by
  cases ρ <;> rfl

@[simp] theorem Slots.set_rlTimer : (σ.set ρ lane).rlTimer = σ.rlTimer := by cases ρ <;> rfl

@[simp] theorem Slots.set_allocated : (σ.set ρ lane).allocated = σ.allocated := by
  cases ρ <;> rfl

@[simp] theorem Slots.lane_setRlTimer (b : Bool) : (σ.setRlTimer b).lane ρ = σ.lane ρ := by
  cases ρ <;> rfl

@[simp] theorem Slots.lane_setPreEntityType (p : PreEntityType) :
    (σ.setPreEntityType p).lane ρ = σ.lane ρ := by
  cases ρ <;> rfl

@[simp] theorem setRlTimer_slots (s : RoleLaunch) (b : Bool) :
    (s.setRlTimer b).slots = s.slots.setRlTimer b := rfl

@[simp] theorem setPreEntityType_slots (s : RoleLaunch) (p : PreEntityType) :
    (s.setPreEntityType p).slots = s.slots.setPreEntityType p := rfl

end Slots

section Launching

variable {lane : Lane} {mayNext admits : Bool}

theorem launch_over : (lane.launch mayNext admits).ret = .over ↔
    (lane.launch mayNext admits).lane = ⟨none, none⟩ := by
  obtain ⟨previous, following⟩ := lane
  cases previous <;> cases mayNext <;> cases following <;> cases admits <;> simp [Lane.launch]

/-- A role with nothing started gets a previous entity only from its following slot, and only
where a start is allowed. -/
theorem launch_previous (h : lane.previous = none) :
    (lane.launch mayNext admits).lane.previous ≠ none ↔
      lane.following ≠ none ∧ admits = true := by
  obtain ⟨previous, following⟩ := lane
  cases h
  cases following <;> cases admits <;> simp [Lane.launch]

end Launching

section Frames

variable (s : RoleLaunch)

@[simp] theorem rlStaRequestStart_slots (req : LaunchReq) :
    (rlStaRequestStart s req).slots = s.slots := by
  obtain ⟨reqType⟩ := req
  cases reqType <;> rfl

@[simp] theorem rlApRequestStart_slots (req : LaunchReq) :
    (rlApRequestStart s req).slots = s.slots := by
  obtain ⟨reqType⟩ := req
  cases reqType <;> rfl

@[simp] theorem startSta_slots (started : Option RlEntity) :
    (startSta s started).slots = s.slots := by
  cases started with
  | none => rfl
  | some e => exact rlStaRequestStart_slots s e.rlaunch

@[simp] theorem startAp_slots (started : Option RlEntity) :
    (startAp s started).slots = s.slots := by
  cases started with
  | none => rfl
  | some e => exact rlApRequestStart_slots (rlPreApInit s) e.rlaunch

theorem rlStaCacheRequestEnter_slots (isMonitorMode : Bool) :
    (rlStaCacheRequestEnter s isMonitorMode).slots = s.slots := by
  simp only [rlStaCacheRequestEnter]
  repeat' split
  all_goals rfl

theorem update_slots (u : Update) : (s.update u).slots = s.slots := by
  cases u with
  | staCacheRequestEnter isMonitorMode => exact rlStaCacheRequestEnter_slots s isMonitorMode
  | preStaSetStatus status =>
    simp only [RoleLaunch.update, rlPreStaSetStatus]
    repeat' split
    all_goals rfl
  | setCsaSwitching =>
    simp only [RoleLaunch.update, rlSetCsaSwitching]
    split <;> rfl
  | setPause en => cases en <;> rfl
  | _ => rfl

theorem rlLaunch_spec (ρ : Role) :
    ∃ m, (rlLaunch s ρ).1.slots =
        s.slots.set ρ ((s.slots.lane ρ).launch m (s.admits ρ)).lane ∧
      (rlLaunch s ρ).2 = (((s.slots.lane ρ).launch m (s.admits ρ)).acts,
        ((s.slots.lane ρ).launch m (s.admits ρ)).ret) := by
  cases ρ with
  | sta => exact ⟨_, startSta_slots _ _, rfl⟩
  | ap => exact ⟨_, startAp_slots _ _, rfl⟩

end Frames

section Expiry

/-- What the launch timer's expiry does: the launch of the role whose turn it is, and that of
the other role where the first is over. -/
inductive Handled (admits : Role → Bool) (σ : Slots) : Slots → List Act → Prop
  | continues {ρ m} (htype : σ.preEntityType = ρ.entityType)
    (hret : ((σ.lane ρ).launch m (admits ρ)).ret = .cont) :
    Handled admits σ ((σ.set ρ ((σ.lane ρ).launch m (admits ρ)).lane).setRlTimer true)
      ((σ.lane ρ).launch m (admits ρ)).acts
  | passes {ρ m m' a} (htype : σ.preEntityType = ρ.entityType)
    (hret : ((σ.lane ρ).launch m (admits ρ)).ret = .over) :
    Handled admits σ
      ((((σ.set ρ ⟨none, none⟩).setPreEntityType ρ.other.entityType).set ρ.other
        ((σ.lane ρ.other).launch m' a).lane).setRlTimer
          (((σ.lane ρ.other).launch m' a).ret = .cont))
      (((σ.lane ρ).launch m (admits ρ)).acts ++ ((σ.lane ρ.other).launch m' a).acts)
  | idles (htype : σ.preEntityType = .idle ∨ σ.preEntityType = .mesh) :
    Handled admits σ (σ.setRlTimer false) []

variable {s : RoleLaunch} {ρ : Role}

theorem rlLaunchHandler_role (h : s.preEntityType = ρ.entityType) :
    rlLaunchHandler s =
      if (rlLaunch s ρ).2.2 = .over then
        let t := rlLaunch ((rlLaunch s ρ).1.setPreEntityType ρ.other.entityType) ρ.other
        (t.1.setRlTimer (t.2.2 = .cont), (rlLaunch s ρ).2.1 ++ t.2.1)
      else ((rlLaunch s ρ).1.setRlTimer true, (rlLaunch s ρ).2.1) := by
  cases ρ <;> simp only [rlLaunchHandler, h, Role.entityType] <;> rfl

theorem rlLaunchHandler_spec (s : RoleLaunch) :
    Handled s.admits s.slots (rlLaunchHandler s).1.slots (rlLaunchHandler s).2 := by
  by_cases hturn : ∃ ρ : Role, s.preEntityType = ρ.entityType
  · obtain ⟨ρ, htype⟩ := hturn
    obtain ⟨m, hu, heq⟩ := rlLaunch_spec s ρ
    rw [rlLaunchHandler_role htype, heq]
    by_cases hret : ((s.slots.lane ρ).launch m (s.admits ρ)).ret = .over
    · obtain ⟨m', hv, heq'⟩ :=
        rlLaunch_spec ((rlLaunch s ρ).1.setPreEntityType ρ.other.entityType) ρ.other
      simp only [setPreEntityType_slots, hu, launch_over.mp hret, Slots.lane_setPreEntityType,
        Slots.lane_set_other] at hv heq'
      simp only [if_pos hret, heq', setRlTimer_slots, hv]
      exact .passes htype hret
    · simp only [if_neg hret, setRlTimer_slots, hu]
      refine .continues htype ?_
      cases h : ((s.slots.lane ρ).launch m (s.admits ρ)).ret with
      | «over» => exact absurd h hret
      | cont => rfl
  · have hidle : s.preEntityType = .idle ∨ s.preEntityType = .mesh := by
      by_contra hno
      rw [not_or] at hno
      exact hturn (Role.of_entityType hno.1 hno.2)
    have heq : rlLaunchHandler s = (s.setRlTimer false, []) := by
      rcases hidle with h | h <;> simp only [rlLaunchHandler, h]
    rw [heq]
    exact .idles hidle

end Expiry

section Entering

/-- The slots after an entity was handed out for a role. -/
def Slots.enter (σ : Slots) (ρ : Role) : Slots :=
  { σ with
    preEntityType := if σ.preEntityType = .idle then ρ.entityType else σ.preEntityType
    allocated := σ.allocated + 1 }

@[simp] theorem Slots.lane_enter (σ : Slots) (ρ κ : Role) : (σ.enter ρ).lane κ = σ.lane κ := by
  cases κ <;> rfl

/-- What the enter timer's expiry does for one role. -/
inductive Entered (σ : Slots) (ρ : Role) : Slots → List Act → Prop
  | passesBy : Entered σ ρ σ []
  | starts {e} (hfree : ∀ κ, (σ.lane κ).previous = none) (he : e.id = σ.allocated) :
    Entered σ ρ ((σ.set ρ { σ.lane ρ with previous := some e }).enter ρ)
      [.alloc e.id, .start e.id]
  | queues {e} (hfree : (σ.lane ρ).following = none) (he : e.id = σ.allocated) :
    Entered σ ρ (((σ.set ρ { σ.lane ρ with following := some e }).enter ρ).setRlTimer true)
      [.alloc e.id]
  | refuses : Entered σ ρ (σ.setRlTimer true) []

variable (s : RoleLaunch) (param : LaunchReq)

theorem free_of_previous (hap : s.ap.previous = none) (hsta : s.sta.previous = none) (κ : Role) :
    (s.slots.lane κ).previous = none := by
  cases κ with
  | sta => exact hsta
  | ap => exact hap

theorem staRequestEnter_spec :
    Entered s.slots .sta (staRequestEnter s param).1.slots (staRequestEnter s param).2.1 := by
  simp only [staRequestEnter]
  split
  next h =>
    simp only [rlStaRequestStart_slots]
    exact .starts (e := rlAllocEntity s.allocated param) (free_of_previous s h.1 h.2.1) rfl
  next =>
    split
    next h => exact .queues (e := rlAllocEntity s.allocated param) h.1 rfl
    next => exact .refuses

theorem apRequestEnter_spec :
    Entered s.slots .ap (apRequestEnter s param).1.slots (apRequestEnter s param).2 := by
  simp only [apRequestEnter]
  split
  next h =>
    simp only [rlApRequestStart_slots]
    exact .starts (e := rlAllocEntity s.allocated param) (free_of_previous s h.1 h.2) rfl
  next =>
    split
    next h => exact .queues (e := rlAllocEntity s.allocated param) h rfl
    next => exact .refuses

theorem enterSta_spec (req : Option LaunchReq) :
    Entered s.slots .sta (enterSta s req).1.slots (enterSta s req).2 := by
  cases req with
  | none => exact .passesBy
  | some param =>
    have hslots : (enterSta s (some param)).1.slots = (staRequestEnter s param).1.slots := by
      simp only [enterSta]
      split <;> rfl
    rw [hslots]
    exact staRequestEnter_spec s param

theorem enterAp_spec (req : Option LaunchReq) :
    Entered s.slots .ap (enterAp s req).1.slots (enterAp s req).2 := by
  cases req with
  | none => exact .passesBy
  | some param => exact apRequestEnter_spec s param

/-- What an event does to the slots. -/
inductive Move (s : RoleLaunch) : LaunchEvent → Slots → List Act → Prop
  | updates {u} : Move s (.update u) s.slots []
  | enters {b σ τ acts acts'} (hsta : Entered s.slots .sta σ acts) (hap : Entered σ .ap τ acts') :
    Move s (.enterExpires b) τ (acts ++ acts')
  | launches {τ acts} (h : Handled s.admits s.slots τ acts) : Move s .launchExpires τ acts

theorem Move.of_enter (b : Bool) :
    Move s (.enterExpires b) (rlEnterHandler { s with enterTimer := false } b).1.slots
      (rlEnterHandler { s with enterTimer := false } b).2 := by
  have hquiet : Move s (.enterExpires b) s.slots [] := .enters .passesBy .passesBy
  simp only [rlEnterHandler]
  split
  next => exact hquiet
  next =>
    split
    next => exact hquiet
    next =>
      have hsta := enterSta_spec { s with enterTimer := false, socket := ⟨none, none⟩ }
        s.socket.staReq
      exact .enters hsta (enterAp_spec _ _)

theorem Move.of_step {s t : RoleLaunch} {e : LaunchEvent} {acts : List Act}
    (h : roleLaunch.step s e = some (t, acts)) : Move s e t.slots acts := by
  simp only [roleLaunch] at h
  cases e with
  | update u =>
    simp only [Option.some.injEq, Prod.mk.injEq] at h
    obtain ⟨rfl, rfl⟩ := h
    rw [update_slots]
    exact .updates
  | enterExpires b =>
    simp only [Option.ite_none_right_eq_some, Option.some.injEq] at h
    obtain ⟨_, h⟩ := h
    have hm := Move.of_enter s b
    rwa [h] at hm
  | launchExpires =>
    simp only [Option.ite_none_right_eq_some, Option.some.injEq] at h
    obtain ⟨_, h⟩ := h
    have hm := rlLaunchHandler_spec s
    rw [h] at hm
    exact .launches hm

end Entering

end BdkRtt.Wlan
