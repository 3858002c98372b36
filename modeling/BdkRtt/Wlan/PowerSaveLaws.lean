import BdkRtt.Lib.Words
import BdkRtt.Wlan.PowerSave

namespace BdkRtt.Wlan.PowerSave

open Lib

section Register

variable {reg : UInt32}

/-- The MAC interrupts are enabled, all of them. -/
def Enabled (reg : UInt32) : Prop := reg &&& macInterrupts = macInterrupts

instance (reg : UInt32) : Decidable (Enabled reg) := inferInstanceAs (Decidable (_ = _))

theorem enabled_or (reg : UInt32) : Enabled (reg ||| macInterrupts) := or_and_mask ..

theorem Enabled.clear_wakeup (h : Enabled reg) : Enabled (reg &&& ~~~macWakeup) := by
  have hmask : ~~~macWakeup &&& macInterrupts = macInterrupts := by decide
  rw [Enabled, UInt32.and_assoc, hmask]
  exact h

end Register

section Paired

variable {s : Ps}

/-- Either the station is awake, holds the lock and hears its MAC, or it sleeps without the
lock. -/
inductive Paired (s : Ps) : Prop
  | awake (real : s.psRealSleep = 0) (lock : s.psLock = 1) (enabled : Enabled s.icuInterruptEnable)
  | asleep (real : s.psRealSleep = 1) (lock : s.psLock = 0)

theorem paired_awake (reg : UInt32) : Paired (awake reg) := .awake rfl rfl (enabled_or reg)

/-- The calls that go to sleep or wake up look at these variables only. -/
theorem Paired.congr {t : Ps} (h : Paired s) (hreal : t.psRealSleep = s.psRealSleep)
    (hlock : t.psLock = s.psLock) (hreg : t.icuInterruptEnable = s.icuInterruptEnable) :
    Paired t := by
  cases h with
  | awake real lock enabled =>
    exact .awake (hreal.trans real) (hlock.trans lock) (hreg ▸ enabled)
  | asleep real lock => exact .asleep (hreal.trans real) (hlock.trans lock)

theorem Paired.clear_wakeup (h : Paired s) {t : Ps} (hreal : t.psRealSleep = s.psRealSleep)
    (hlock : t.psLock = s.psLock)
    (hreg : t.icuInterruptEnable = s.icuInterruptEnable &&& ~~~macWakeup) : Paired t := by
  cases h with
  | awake real lock enabled =>
    exact .awake (hreal.trans real) (hlock.trans lock) (hreg ▸ enabled.clear_wakeup)
  | asleep real lock => exact .asleep (hreal.trans real) (hlock.trans lock)

theorem Paired.sleep (h : Paired s) (env : SleepEnv) : Paired (s.powerSaveSleep env).1 := by
  unfold Ps.powerSaveSleep
  split
  case isTrue => exact h
  case isFalse hstay =>
    split
    case isTrue => exact h
    case isFalse =>
      split
      case isTrue => exact h
      case isFalse =>
        split
        case isTrue => exact h
        case isFalse =>
          cases h with
          | asleep real => exact absurd (.inl real) hstay
          | awake real lock enabled =>
            have hlock : s.psLock ≠ 0 := by
              rw [lock]
              decide
            dsimp only
            rw [if_pos hlock]
            split
            case isTrue => exact .awake real lock enabled
            case isFalse =>
              refine .asleep rfl ?_
              change s.psLock - 1 = 0
              rw [lock]
              rfl

/-- A sleeping station wakes up with the lock free, so that the assertion holds. -/
theorem powerSaveWakeup_asleep (hlock : s.psLock = 0) : ∃ t, s.powerSaveWakeup = some t ∧
    t.psLock = 1 ∧ Enabled t.icuInterruptEnable := by
  refine ⟨_, if_neg fun hne => hne hlock, ?_, (enabled_or _).clear_wakeup⟩
  change s.psLock + 1 = 1
  rw [hlock]
  rfl

theorem Paired.exitCheck (h : Paired s) : Paired s.dtimExitCheck := by
  unfold Ps.dtimExitCheck
  split
  · exact h.congr rfl rfl rfl
  · exact h

theorem Paired.ieeeDtimWakeup (h : Paired s) : ∃ t, s.ieeeDtimWakeup = some t ∧ Paired t := by
  unfold Ps.ieeeDtimWakeup
  split
  case isFalse => exact ⟨s, rfl, h⟩
  case isTrue hwake =>
    cases h with
    | awake real => exact absurd real hwake.2
    | asleep real lock =>
      obtain ⟨t, ht, hlock, henabled⟩ := powerSaveWakeup_asleep lock
      rw [ht]
      refine ⟨_, rfl, Paired.exitCheck (.awake ?_ hlock henabled)⟩
      rfl

theorem Paired.dtimWake (h : Paired s) (status : UInt32) :
    ∃ t, s.dtimWake status = some t ∧ Paired t := by
  unfold Ps.dtimWake
  split
  · refine Paired.ieeeDtimWakeup (h.clear_wakeup ?_ ?_ ?_) <;> rfl
  · exact ⟨s, rfl, h⟩

theorem Paired.manualDoWakeup (h : Paired s) (ble : Bool) :
    ∃ t, s.rfDtimManualDoWakeup ble = some t ∧ Paired t := by
  unfold Ps.rfDtimManualDoWakeup
  split
  · exact ⟨s, rfl, h⟩
  · split
    · refine Paired.ieeeDtimWakeup (h.clear_wakeup ?_ ?_ ?_) <;> rfl
    · exact ⟨s, rfl, h⟩

theorem Paired.enable (h : Paired s) (connected : Bool) :
    Paired (s.dtimEnableHandler connected) := by
  unfold Ps.dtimEnableHandler
  split
  · exact h.congr rfl rfl rfl
  · exact h

/-- The handler says that the station is awake. -/
theorem dtimDisableHandler_some {t : Ps} (ht : s.dtimDisableHandler = some t) :
    t.psRealSleep = 0 ∧ t.psLock = s.psLock ∧ t.icuInterruptEnable = s.icuInterruptEnable := by
  unfold Ps.dtimDisableHandler at ht
  dsimp only at ht
  split at ht
  · cases ht
  · cases ht
    exact ⟨rfl, rfl, rfl⟩

end Paired

section Run

variable {reg : UInt32} {s : Ps}

/-- The lock belongs to the station that is awake, no assertion has failed, and a station that is
awake hears its MAC, whichever call has returned. -/
structure PsLaw (h : Machine.History Call Answer) (s : Ps) : Prop where
  lock : s.psLock = 1 - s.psRealSleep
  asserted : ∀ x ∈ h, x.2 ≠ .assertFailed
  enabled : s.psRealSleep = 0 → Enabled s.icuInterruptEnable

/-- Power save is not disabled while the station sleeps. -/
def Disarmed (s : Ps) : Call → Prop
  | .disable => s.psRealSleep = 0
  | _ => True

instance : ∀ s c, Decidable (Disarmed s c)
  | _, .disable => inferInstanceAs (Decidable (_ = _))
  | _, .sleep _ | _, .ieeeDtimWakeup | _, .dtimWake _ | _, .manualDoWakeup _ | _, .enable _
  | _, .beaconStateSet _ | _, .wkupEventSet _ => inferInstanceAs (Decidable True)

theorem woken_spec {r : Option Ps} (hr : ∃ t, r = some t ∧ Paired t) {t o}
    (hs : some (Ps.step.woken s r) = some (t, o)) : Paired t ∧ o ≠ .assertFailed := by
  obtain ⟨u, rfl, hu⟩ := hr
  obtain ⟨rfl, rfl⟩ := Prod.mk.inj (Option.some.inj hs)
  exact ⟨hu, nofun⟩

theorem Paired.step (h : Paired s) {c t o} (hc : Disarmed s c) (hs : s.step c = some (t, o)) :
    Paired t ∧ o ≠ .assertFailed := by
  cases c with
  | sleep env =>
    cases hs
    exact ⟨h.sleep env, nofun⟩
  | ieeeDtimWakeup => exact woken_spec h.ieeeDtimWakeup hs
  | dtimWake status => exact woken_spec (h.dtimWake status) hs
  | manualDoWakeup ble => exact woken_spec (h.manualDoWakeup ble) hs
  | enable connected =>
    cases hs
    exact ⟨h.enable connected, nofun⟩
  | disable =>
    obtain ⟨u, hu, heq⟩ := Option.map_eq_some_iff.mp hs
    obtain ⟨rfl, rfl⟩ := Prod.mk.inj heq
    obtain ⟨hreal, hlock, hreg⟩ := dtimDisableHandler_some hu
    exact ⟨h.congr (hreal.trans hc.symm) hlock hreg, nofun⟩
  | beaconStateSet state =>
    cases hs
    exact ⟨h.congr rfl rfl rfl, nofun⟩
  | wkupEventSet value =>
    cases hs
    exact ⟨h.congr rfl rfl rfl, nofun⟩

theorem paired_of_reaches {h} (hr : (powerSave reg).ReachesUnder Disarmed h s) :
    Paired s ∧ ∀ x ∈ h, x.2 ≠ .assertFailed := by
  refine hr.invariant (fun h s => Paired s ∧ ∀ x ∈ h, x.2 ≠ .assertFailed)
    ⟨paired_awake reg, nofun⟩ ?_
  intro h s c t o ih hc hs
  obtain ⟨hpaired, hanswer⟩ := ih.1.step hc hs
  refine ⟨hpaired, fun x hx => ?_⟩
  rcases List.mem_append.mp hx with hx | hx
  · exact ih.2 x hx
  · exact List.mem_singleton.mp hx ▸ hanswer

theorem law_of_reaches {h} (hr : (powerSave reg).ReachesUnder Disarmed h s) : PsLaw h s := by
  obtain ⟨hpaired, hasserted⟩ := paired_of_reaches hr
  cases hpaired with
  | awake real lock enabled =>
    refine ⟨?_, hasserted, fun _ => enabled⟩
    rw [real, lock]
    rfl
  | asleep real lock =>
    refine ⟨?_, hasserted, fun h0 => ?_⟩
    · rw [real, lock]
      rfl
    · rw [real] at h0
      exact absurd h0 (by decide)

/-- The runs in which the lock, the assertion and the interrupts are as they should be are those in
which power save is never disabled while the station sleeps. -/
theorem sleep_lock_pairs {h} :
    ((powerSave reg).ReachesUnder Disarmed h s → PsLaw h s) ∧
      ((powerSave reg).ReachesUnder Disarmed h s ↔ (powerSave reg).ReachesWithin PsLaw h s) := by
  refine ⟨law_of_reaches, Machine.reachesUnder_iff_within law_of_reaches ?_⟩
  intro h s c t o hr hs hlaw
  cases c with
  | disable =>
    obtain ⟨u, hu, heq⟩ := Option.map_eq_some_iff.mp hs
    obtain ⟨rfl, rfl⟩ := Prod.mk.inj heq
    obtain ⟨hreal, hlock, -⟩ := dtimDisableHandler_some hu
    have hone : s.psLock = 1 := by
      rw [← hlock, hlaw.lock, hreal]
      rfl
    cases (paired_of_reaches hr).1 with
    | awake real => exact real
    | asleep _ lock =>
      rw [lock] at hone
      exact absurd hone (by decide)
  | _ => trivial

/-- What `power_save_sleep` finds when nothing keeps the station awake. -/
def quietEnv : SleepEnv where
  netIfIsUp := true
  roleIsSta := true
  bleSwitchMacSleeped := false
  inDoze := false
  intStatus := 0
  rwnxlSleep := true

/-- Sleeping until the beacon, sleeping again until the station has something to send, and only then
disabling power save. -/
theorem sleep_lock_pairs_awake :
    ∃ h s, (powerSave 0).exec [.enable true, .beaconStateSet .staGetTrue, .sleep quietEnv,
        .dtimWake macArmWakeupEnBit, .beaconStateSet .staGetTrue, .sleep quietEnv,
        .manualDoWakeup false, .disable] = some (h, s) ∧
      h.map (fun x => x.2) = [.done, .done, .slept true, .done, .done, .slept true, .done, .done] ∧
      PsLaw h s := by
  obtain ⟨h, s, hx, hanswers⟩ : ∃ h s,
      (powerSave 0).exec [.enable true, .beaconStateSet .staGetTrue, .sleep quietEnv,
        .dtimWake macArmWakeupEnBit, .beaconStateSet .staGetTrue, .sleep quietEnv,
        .manualDoWakeup false, .disable] = some (h, s) ∧
      h.map (fun x => x.2) = [.done, .done, .slept true, .done, .done, .slept true, .done, .done] :=
    ⟨_, _, rfl, rfl⟩
  have hr := Machine.reachesUnder_of_exec (C := Disarmed) (by decide) hx
  exact ⟨h, s, hx, hanswers, sleep_lock_pairs.1 hr⟩

/-- Power save is disabled while the station sleeps: the lock is gone, and the next time that the
station should sleep it stays awake with the interrupts of its MAC masked. -/
theorem sleep_lock_lost :
    (¬ ∀ h s, (powerSave 0).Reaches h s → s.psLock = 1 - s.psRealSleep) ∧
    ¬ ∀ h s, (powerSave 0).Reaches h s → s.psRealSleep = 0 → Enabled s.icuInterruptEnable := by
  refine ⟨fun hall => ?_, fun hall => ?_⟩
  · obtain ⟨h, s, hx, hlock, hreal⟩ : ∃ h s, (powerSave 0).exec
        [.enable true, .beaconStateSet .staGetTrue, .sleep quietEnv, .disable] = some (h, s) ∧
        s.psLock = 0 ∧ s.psRealSleep = 0 :=
      ⟨_, _, rfl, rfl, rfl⟩
    have hlaw := hall h s (Machine.reaches_of_exec hx)
    rw [hlock, hreal] at hlaw
    exact absurd hlaw (by decide)
  · obtain ⟨h, s, hx, hreal, hmasked⟩ : ∃ h s, (powerSave 0).exec
        [.enable true, .beaconStateSet .staGetTrue, .sleep quietEnv, .disable, .enable true,
          .beaconStateSet .staGetTrue, .sleep quietEnv] = some (h, s) ∧
        s.psRealSleep = 0 ∧ s.icuInterruptEnable = macWakeup &&& ~~~macInterrupts :=
      ⟨_, _, rfl, rfl, rfl⟩
    have hlaw := hall h s (Machine.reaches_of_exec hx) hreal
    rw [hmasked] at hlaw
    exact absurd hlaw (by decide)

end Run

end BdkRtt.Wlan.PowerSave
