import BdkRtt.Rttos.OsClock
import Mathlib.Data.Nat.Basic
import Mathlib.Logic.Function.Iterate

namespace BdkRtt.Rttos

open Lib

variable {c : ClockCfg}

/-- `FCLK_SECOND` as a number. -/
def ClockCfg.second (c : ClockCfg) : Nat := c.fclkSecond.toNat

theorem ClockCfg.second_pos (c : ClockCfg) : 0 < c.second :=
  UInt32.lt_iff_toNat_lt.mp c.fclkSecond_pos

theorem ClockCfg.second_lt (c : ClockCfg) : c.second < 2 ^ 32 := c.fclkSecond.toNat_lt

theorem ClockCfg.ofNat_second (c : ClockCfg) : UInt32.ofNat c.second = c.fclkSecond :=
  UInt32.ofNat_toNat

section Elapsed

/-- The clock after `k` ticks in all, when `e` have passed since a second began that was
the one with number `secs`. -/
def clockAt (c : ClockCfg) (k secs e : Nat) : Clock where
  currentClock := k % 2 ^ c.clockBits
  currentSeconds := UInt32.ofNat (secs + e / c.second)
  secondCountdown := UInt32.ofNat (c.second - e % c.second)

theorem toNat_countdown (c : ClockCfg) (e : Nat) :
    (UInt32.ofNat (c.second - e % c.second)).toNat = c.second - e % c.second :=
  UInt32.toNat_ofNat_of_lt' (by have := c.second_lt; change _ < 2 ^ 32; omega)

theorem ofNat_sub_one {n : Nat} (hpos : 0 < n) : UInt32.ofNat n - 1 = UInt32.ofNat (n - 1) := by
  obtain ⟨m, rfl⟩ := Nat.exists_eq_add_of_lt hpos
  rw [Nat.zero_add, UInt32.ofNat_add, Nat.add_sub_cancel]
  exact UInt32.add_sub_cancel _ 1

/-- A tick begins a new second, or it does not. -/
theorem tick_second (c : ClockCfg) (e : Nat) :
    (e % c.second + 1 = c.second ∧ (e + 1) % c.second = 0 ∧
      (e + 1) / c.second = e / c.second + 1) ∨
    (e % c.second + 1 < c.second ∧ (e + 1) % c.second = e % c.second + 1 ∧
      (e + 1) / c.second = e / c.second) := by
  have hpos := c.second_pos
  have hlt := Nat.mod_lt e hpos
  rcases Nat.lt_or_ge (e % c.second + 1) c.second with h | h
  · right
    have hmod : (e + 1) % c.second = e % c.second + 1 := by
      rw [Nat.add_mod_eq_add_mod_right 1 (Nat.mod_mod e c.second).symm, Nat.mod_eq_of_lt h]
    refine ⟨h, hmod, ?_⟩
    rw [Nat.succ_div, if_neg]
    · rfl
    · rw [Nat.dvd_iff_mod_eq_zero]
      omega
  · left
    have heq : e % c.second + 1 = c.second := by omega
    have hmod : (e + 1) % c.second = 0 := by
      rw [Nat.add_mod_eq_add_mod_right 1 (Nat.mod_mod e c.second).symm, heq, Nat.mod_self]
    refine ⟨heq, hmod, ?_⟩
    rw [Nat.succ_div, if_pos (Nat.dvd_of_mod_eq_zero hmod)]

theorem fclkHdl_clockAt (k secs e : Nat) :
    fclkHdl c (clockAt c k secs e) = clockAt c (k + 1) secs (e + 1) := by
  have hpos := c.second_pos
  have hlt := c.second_lt
  have hmod := Nat.mod_lt e hpos
  have hdown : UInt32.ofNat (c.second - e % c.second) - 1 =
      UInt32.ofNat (c.second - e % c.second - 1) := ofNat_sub_one (by omega)
  simp only [fclkHdl, clockAt, hdown, Nat.mod_add_mod]
  rcases tick_second c e with ⟨heq, hmod', hdiv⟩ | ⟨hne, hmod', hdiv⟩
  · have hzero : c.second - e % c.second - 1 = 0 := by omega
    have hend : UInt32.ofNat 0 = 0 := rfl
    rw [hzero, hmod', hdiv, if_pos hend, Nat.sub_zero, c.ofNat_second, ← Nat.add_assoc,
      UInt32.ofNat_add _ 1]
    rfl
  · rw [if_neg, hmod', hdiv, Nat.sub_sub]
    rw [← UInt32.toNat_inj, UInt32.toNat_ofNat_of_lt' (by change _ < 2 ^ 32; omega)]
    change ¬ _ = 0
    omega

theorem wholeSeconds_eq (seconds tick : UInt32) :
    wholeSeconds c seconds tick = (seconds + UInt32.ofNat (tick.toNat / c.second),
      UInt32.ofNat (tick.toNat % c.second)) := by
  have hpos := c.second_pos
  induction h : tick.toNat using Nat.strong_induction_on generalizing seconds tick with
  | _ n ih =>
    rw [wholeSeconds]
    split
    next hle =>
      have hle' : c.second ≤ n := h ▸ UInt32.le_iff_toNat_le.mp hle
      have hsub : (tick - c.fclkSecond).toNat = n - c.second := by
        rw [UInt32.toNat_sub_of_le _ _ hle, h]
        rfl
      rw [ih (n - c.second) (by omega) _ _ hsub]
      have hdiv : n / c.second = (n - c.second) / c.second + 1 := Nat.div_eq_sub_div hpos hle'
      rw [hdiv, ← Nat.mod_eq_sub_mod hle', Nat.add_comm _ 1, UInt32.ofNat_add, ← UInt32.add_assoc]
      rfl
    next hlt =>
      have hlt' : n < c.second := by
        rw [← h]
        exact Nat.lt_of_not_le fun hle => hlt (UInt32.le_iff_toNat_le.mpr hle)
      rw [Nat.div_eq_of_lt hlt', Nat.mod_eq_of_lt hlt', ← h, UInt32.ofNat_toNat]
      simp

/-- Many ticks at once are so many more elapsed. -/
theorem fclkFreertosUpdateTick_clockAt (k secs e : Nat) (tick : UInt32) :
    fclkFreertosUpdateTick c tick (clockAt c k secs e) =
      clockAt c (k + tick.toNat) secs (e + tick.toNat) := by
  have hpos := c.second_pos
  have hlt := c.second_lt
  have hmod := Nat.mod_lt e hpos
  have hrest := Nat.mod_lt tick.toNat hpos
  have hdiv := Nat.add_div hpos (a := e) (b := tick.toNat)
  have hsum : (e + tick.toNat) % c.second =
      if c.second ≤ e % c.second + tick.toNat % c.second
      then e % c.second + tick.toNat % c.second - c.second
      else e % c.second + tick.toNat % c.second := Nat.add_mod_eq_ite
  have hrestNat : (UInt32.ofNat (tick.toNat % c.second)).toNat = tick.toNat % c.second :=
    UInt32.toNat_ofNat_of_lt' (by change _ < 2 ^ 32; omega)
  have hle : UInt32.ofNat (c.second - e % c.second) ≤ UInt32.ofNat (tick.toNat % c.second) ↔
      c.second ≤ e % c.second + tick.toNat % c.second := by
    rw [UInt32.le_iff_toNat_le, toNat_countdown, hrestNat]
    omega
  simp only [fclkFreertosUpdateTick, clockAt, wholeSeconds_eq, Nat.mod_add_mod, hle]
  split
  next hcarry =>
    rw [if_pos hcarry] at hdiv hsum
    have hback : UInt32.ofNat (tick.toNat % c.second) - UInt32.ofNat (c.second - e % c.second) =
        UInt32.ofNat (e % c.second + tick.toNat % c.second - c.second) := by
      rw [← UInt32.ofNat_sub (by omega)]
      congr 1
      omega
    have hcount : c.fclkSecond -
        UInt32.ofNat (e % c.second + tick.toNat % c.second - c.second) =
        UInt32.ofNat (c.second - (e % c.second + tick.toNat % c.second - c.second)) := by
      conv_rhs => rw [UInt32.ofNat_sub (by omega), c.ofNat_second]
    rw [hback, hcount, hsum, hdiv, ← UInt32.ofNat_add, ← Nat.add_assoc, ← Nat.add_assoc,
      UInt32.ofNat_add _ 1]
    rfl
  next hno =>
    rw [if_neg hno] at hdiv hsum
    rw [hsum, hdiv, ← UInt32.ofNat_sub (by omega), ← UInt32.ofNat_add, Nat.add_assoc, Nat.sub_sub]
    rfl

theorem iterate_fclkHdl_clockAt (k secs e n : Nat) :
    Nat.iterate (fclkHdl c) n (clockAt c k secs e) = clockAt c (k + n) secs (e + n) := by
  induction n generalizing k e with
  | zero => rfl
  | succ n ih =>
    rw [Function.iterate_succ_apply, fclkHdl_clockAt, ih, Nat.add_right_comm, Nat.add_right_comm e]
    rfl

theorem fclkResetCount_clockAt (k secs e : Nat) :
    fclkResetCount (clockAt c k secs e) = clockAt c 0 0 (e % c.second) := by
  have hlt := Nat.mod_lt e c.second_pos
  rw [fclkResetCount, clockAt, clockAt, Nat.zero_mod, Nat.mod_mod, Nat.div_eq_of_lt hlt]
  rfl

theorem init_eq (c : ClockCfg) : c.init = clockAt c 0 0 0 := by
  rw [ClockCfg.init, clockAt, Nat.zero_mod, Nat.zero_mod, Nat.zero_div, Nat.sub_zero,
    c.ofNat_second]
  rfl

end Elapsed

section Runs

/-- The seconds and the countdown are those of `current_clock`. -/
def ClockLaw (c : ClockCfg) (s : Clock) : Prop :=
  s.currentSeconds.toNat = s.currentClock / c.second ∧
    s.secondCountdown.toNat = c.second - s.currentClock % c.second

/-- A reset comes at the beginning of a second, and the seconds fit in their 32 bits. -/
def Timely (c : ClockCfg) (s : Clock) : ClockEvent → Prop
  | .reset => s.secondCountdown = c.fclkSecond
  | e => (s.currentClock + e.ticks) / c.second < 2 ^ 32

instance decidableTimely (c : ClockCfg) (s : Clock) : ∀ e, Decidable (Timely c s e)
  | .reset => inferInstanceAs (Decidable (s.secondCountdown = c.fclkSecond))
  | .hdl => inferInstanceAs (Decidable ((s.currentClock + 1) / c.second < 2 ^ 32))
  | .update tick =>
    inferInstanceAs (Decidable ((s.currentClock + tick.toNat) / c.second < 2 ^ 32))

variable {s t : Clock} {e : ClockEvent} {h : Machine.History ClockEvent Unit}

theorem clockLaw_clockAt {k : Nat} (hk : k < 2 ^ c.clockBits) :
    ClockLaw c (clockAt c k 0 k) ↔ k / c.second < 2 ^ 32 := by
  have hmod : k % 2 ^ c.clockBits = k := Nat.mod_eq_of_lt hk
  simp only [ClockLaw, clockAt, hmod, toNat_countdown, and_true, Nat.zero_add]
  rw [UInt32.toNat_ofNat']
  constructor
  · intro h
    rw [← h]
    exact Nat.mod_lt _ (by decide)
  · exact fun h => Nat.mod_eq_of_lt h

theorem ClockLaw.eq_clockAt (hs : s.currentClock < 2 ^ c.clockBits) (hl : ClockLaw c s) :
    s = clockAt c s.currentClock 0 s.currentClock := by
  have hsec : s.currentSeconds = UInt32.ofNat (0 + s.currentClock / c.second) := by
    rw [Nat.zero_add, ← hl.1, UInt32.ofNat_toNat]
  have hdown : s.secondCountdown =
      UInt32.ofNat (c.second - s.currentClock % c.second) := by
    rw [← hl.2, UInt32.ofNat_toNat]
  rw [clockAt, Nat.mod_eq_of_lt hs, ← hsec, ← hdown]

theorem clockStep_ticks (he : e ≠ .reset) (k secs e₀ : Nat) :
    clockStep c (clockAt c k secs e₀) e = clockAt c (k + e.ticks) secs (e₀ + e.ticks) := by
  cases e with
  | hdl => exact fclkHdl_clockAt k secs e₀
  | update tick => exact fclkFreertosUpdateTick_clockAt k secs e₀ tick
  | reset => exact absurd rfl he

theorem timely_of_ne (he : e ≠ .reset) :
    Timely c s e ↔ (s.currentClock + e.ticks) / c.second < 2 ^ 32 := by
  cases e with
  | hdl => exact Iff.rfl
  | update tick => exact Iff.rfl
  | reset => exact absurd rfl he

theorem clock_step_iff {o : Unit} : (clock c).step s e = some (t, o) ↔
    s.currentClock + e.ticks < 2 ^ c.clockBits ∧ t = clockStep c s e := by
  simp only [clock]
  split
  next hlt => simp [hlt, eq_comm]
  next hge => simp [hge]

/-- A step from a clock that is right leaves a right one exactly when it is timely. -/
theorem clockLaw_step (hs : s.currentClock < 2 ^ c.clockBits) (hl : ClockLaw c s)
    (hlt : s.currentClock + e.ticks < 2 ^ c.clockBits) :
    ClockLaw c (clockStep c s e) ↔ Timely c s e := by
  have hpos := c.second_pos
  have heq := hl.eq_clockAt hs
  have hclock : (clockAt c s.currentClock 0 s.currentClock).currentClock = s.currentClock :=
    Nat.mod_eq_of_lt hs
  by_cases he : e = .reset
  · subst he
    have hdown : s.secondCountdown = c.fclkSecond ↔ s.currentClock % c.second = 0 := by
      rw [← UInt32.toNat_inj, hl.2]
      change _ = c.second ↔ _
      have := Nat.mod_lt s.currentClock hpos
      omega
    change ClockLaw c (fclkResetCount s) ↔ s.secondCountdown = c.fclkSecond
    rw [hdown]
    simp only [ClockLaw, fclkResetCount, hl.2, Nat.zero_mod, Nat.zero_div]
    have := Nat.mod_lt s.currentClock hpos
    constructor
    · rintro ⟨-, h⟩
      omega
    · intro h
      exact ⟨rfl, by omega⟩
  · rw [timely_of_ne he, heq, clockStep_ticks he, hclock]
    exact clockLaw_clockAt hlt

theorem clockStep_lt (hlt : s.currentClock + e.ticks < 2 ^ c.clockBits) :
    (clockStep c s e).currentClock < 2 ^ c.clockBits := by
  have hpos : 0 < 2 ^ c.clockBits := Nat.two_pow_pos _
  cases e with
  | hdl =>
    simp only [clockStep, fclkHdl]
    split <;> exact Nat.mod_lt _ hpos
  | update tick =>
    simp only [clockStep, fclkFreertosUpdateTick]
    split <;> exact Nat.mod_lt _ hpos
  | reset => exact hpos

theorem reaches_clockLaw (hr : (clock c).ReachesUnder (Timely c) h s) :
    s.currentClock < 2 ^ c.clockBits ∧ ClockLaw c s := by
  refine hr.stateInvariant (fun s => s.currentClock < 2 ^ c.clockBits ∧ ClockLaw c s) ?_ ?_
  · rw [show (clock c).init = c.init from rfl, init_eq]
    have hpos : 0 < 2 ^ c.clockBits := Nat.two_pow_pos _
    refine ⟨?_, (clockLaw_clockAt hpos).mpr ?_⟩
    · rw [clockAt, Nat.zero_mod]
      exact hpos
    · rw [Nat.zero_div]
      decide
  · rintro s e t o ⟨hs, hl⟩ htimely hstep
    obtain ⟨hlt, rfl⟩ := clock_step_iff.mp hstep
    exact ⟨clockStep_lt hlt, (clockLaw_step hs hl hlt).mpr htimely⟩

/-- Every reachable clock is so many ticks into some second. -/
theorem reaches_clockAt (hr : (clock c).Reaches h s) : ∃ k secs e, s = clockAt c k secs e := by
  refine hr.stateInvariant (fun s => ∃ k secs e, s = clockAt c k secs e) ⟨0, 0, 0, init_eq c⟩ ?_
  rintro s e t o ⟨k, secs, e₀, rfl⟩ - hstep
  obtain ⟨-, rfl⟩ := clock_step_iff.mp hstep
  by_cases he : e = .reset
  · subst he
    exact ⟨_, _, _, fclkResetCount_clockAt k secs e₀⟩
  · exact ⟨_, _, _, clockStep_ticks he k secs e₀⟩

end Runs

/-- The clock is right throughout a run exactly when each event of it is timely, and in every
run `n` ticks at once are `n` ticks one by one. -/
theorem clock_right_iff_timely (c : ClockCfg) {h : Machine.History ClockEvent Unit} {s : Clock} :
    ((clock c).ReachesUnder (Timely c) h s ↔
      (clock c).ReachesWithin (fun _ s => ClockLaw c s) h s) ∧
    ((clock c).Reaches h s → ∀ tick : UInt32,
      fclkFreertosUpdateTick c tick s = Nat.iterate (fclkHdl c) tick.toNat s) := by
  constructor
  · apply Machine.reachesUnder_iff_within
    · exact fun hr => (reaches_clockLaw hr).2
    · intro h s e t o hr hstep hl
      obtain ⟨hs, hls⟩ := reaches_clockLaw hr
      obtain ⟨hlt, rfl⟩ := clock_step_iff.mp hstep
      exact (clockLaw_step hs hls hlt).mp hl
  · intro hr tick
    obtain ⟨k, secs, e, rfl⟩ := reaches_clockAt hr
    rw [fclkFreertosUpdateTick_clockAt, iterate_fclkHdl_clockAt]

/-- `FCLK_SECOND` of `fake_clock_pub.h`, with the 32 bits of `os_clock.c`. -/
def osClock : ClockCfg where
  fclkSecond := 500
  clockBits := 32
  fclkSecond_pos := by decide

theorem clock_right_iff_timely_reset : ∃ h s, (clock osClock).ReachesWithin
      (fun _ s => ClockLaw osClock s) h s ∧ s.currentClock = 1 ∧
    fclkFreertosUpdateTick osClock 3 s = Nat.iterate (fclkHdl osClock) 3 s := by
  have hrun : ((clock osClock).exec [.reset, .hdl]).map (fun r => r.2.currentClock) = some 1 := by
    decide
  obtain ⟨⟨h, s⟩, hx, hclock⟩ := Option.map_eq_some_iff.mp hrun
  have hp : (clock osClock).Permits (Timely osClock) (clock osClock).init [.reset, .hdl] := by
    decide
  have hr := Machine.reachesUnder_of_exec hp hx
  have hall := clock_right_iff_timely osClock (h := h) (s := s)
  exact ⟨h, s, hall.1.mp hr, hclock, hall.2 hr.reaches 3⟩

/-- A reset one tick after the beginning of a second leaves the countdown one tick short. -/
theorem clock_not_right : ∃ h s, (clock osClock).Reaches h s ∧ s.currentClock = 0 ∧
    s.secondCountdown = 499 ∧ ¬ ClockLaw osClock s := by
  have hrun : ((clock osClock).exec [.hdl, .reset]).map
      (fun r => (r.2.currentClock, r.2.secondCountdown)) = some (0, 499) := by decide
  obtain ⟨⟨h, s⟩, hx, heq⟩ := Option.map_eq_some_iff.mp hrun
  simp only [Prod.mk.injEq] at heq
  obtain ⟨hclock, hdown⟩ := heq
  refine ⟨h, s, Machine.reaches_of_exec hx, hclock, hdown, fun hl => ?_⟩
  have := hl.2
  rw [hclock, hdown] at this
  exact absurd this (by decide)

end BdkRtt.Rttos
