import Mathlib.Algebra.Order.Ring.Nat
import Mathlib.Order.Lattice

/-! Outputs over discrete time, and trains of pulses. -/

namespace BdkRtt.Lib

section Output

variable (u v : Nat → Prop)

/-- The output is high at `n` and was not before. -/
def Rises (n : Nat) : Prop := u n ∧ ∀ m, n = m + 1 → ¬ u m

/-- The output was high just before `n`. -/
def Falls (n : Nat) : Prop := ¬ u n ∧ ∃ m, n = m + 1 ∧ u m

/-- The outputs are never high at the same time. -/
def Apart : Prop := ∀ n, ¬ (u n ∧ v n)

/-- From each fall of `u` it is `gap` to each later rise of `v`, but for a lateness of `late`. -/
def Spaced (gap late : Nat) : Prop :=
  ∀ f r, Falls u f → Rises v r → f ≤ r → f + gap ≤ r + late

variable {u v} {gap late : Nat}

theorem Apart.symm (h : Apart u v) : Apart v u := fun n hn => h n hn.symm

/-- An output that is never high neither meets another one nor falls or rises. -/
theorem apart_of_silent (h : ∀ n, ¬ u n) : Apart u v := fun n hn => h n hn.1

theorem spaced_of_silent_left (h : ∀ n, ¬ u n) : Spaced u v gap late := by
  rintro f r ⟨-, m, -, hhigh⟩
  exact absurd hhigh (h m)

theorem spaced_of_silent_right (h : ∀ n, ¬ v n) : Spaced u v gap late :=
  fun _ r _ hrise => absurd hrise.1 (h r)

end Output

/-- From `start` on high for `duty`, then low for `rest`, and so on. -/
structure Pulses where
  start : Nat
  duty : Nat
  rest : Nat

namespace Pulses

variable {p q : Pulses} {gap late n : Nat}

def period (p : Pulses) : Nat := p.duty + p.rest

def High (p : Pulses) (n : Nat) : Prop := p.start ≤ n ∧ (n - p.start) % p.period < p.duty

instance (p : Pulses) (n : Nat) : Decidable (p.High n) :=
  inferInstanceAs (Decidable (p.start ≤ n ∧ (n - p.start) % p.period < p.duty))

/-- Where in a period of `p` the pulses of `q` start. -/
def phase (p q : Pulses) : Nat := (q.start - p.start) % p.period

theorem not_high_of_duty (hd : p.duty = 0) (n : Nat) : ¬ p.High n := by
  rintro ⟨-, hlt⟩
  rw [hd] at hlt
  exact Nat.not_lt_zero _ hlt

theorem high_add_iff {k m : Nat} (hm : m < p.period) :
    p.High (p.start + k * p.period + m) ↔ m < p.duty := by
  have hmod : (p.start + k * p.period + m - p.start) % p.period = m := by
    rw [Nat.add_assoc, Nat.add_sub_cancel_left, Nat.mul_add_mod_self_right, Nat.mod_eq_of_lt hm]
  rw [High, hmod]
  exact and_iff_right (by omega)

/-- Each time from the start on, by its period and its place in it. -/
theorem exists_period (hd : 0 < p.duty) (hn : p.start ≤ n) :
    ∃ k m, m < p.period ∧ n = p.start + k * p.period + m := by
  refine ⟨(n - p.start) / p.period, (n - p.start) % p.period,
    Nat.mod_lt _ (Nat.add_pos_left hd _), ?_⟩
  rw [Nat.add_assoc, Nat.div_add_mod']
  omega

theorem rises_iff (hd : 0 < p.duty) (hr : 0 < p.rest) :
    Rises p.High n ↔ ∃ k, n = p.start + k * p.period := by
  have hperiod : p.period = p.duty + p.rest := rfl
  constructor
  · rintro ⟨hhigh, hlow⟩
    obtain ⟨k, m, hm, rfl⟩ := exists_period hd hhigh.1
    cases m with
    | zero => exact ⟨k, rfl⟩
    | succ m =>
      have hlt := (high_add_iff hm).mp hhigh
      exact absurd ((high_add_iff (by omega)).mpr (Nat.lt_of_succ_lt hlt)) (hlow _ rfl)
  · rintro ⟨k, rfl⟩
    refine ⟨(high_add_iff (m := 0) (by omega)).mpr hd, fun m hm hhigh => ?_⟩
    cases k with
    | zero =>
      have := hhigh.1
      omega
    | succ k =>
      have hlast : m = p.start + k * p.period + (p.period - 1) := by
        rw [Nat.succ_mul] at hm
        omega
      rw [hlast, high_add_iff (by omega)] at hhigh
      omega

theorem falls_iff (hd : 0 < p.duty) (hr : 0 < p.rest) :
    Falls p.High n ↔ ∃ k, n = p.start + k * p.period + p.duty := by
  have hperiod : p.period = p.duty + p.rest := rfl
  constructor
  · rintro ⟨hlow, m, rfl, hhigh⟩
    obtain ⟨k, i, hi, rfl⟩ := exists_period hd hhigh.1
    have hlt := (high_add_iff hi).mp hhigh
    have hend : ¬ i + 1 < p.duty := fun hnext =>
      hlow ((high_add_iff (m := i + 1) (by omega)).mpr hnext)
    exact ⟨k, by omega⟩
  · rintro ⟨k, rfl⟩
    refine ⟨fun hhigh => ?_, p.start + k * p.period + (p.duty - 1), by omega, ?_⟩
    · exact Nat.lt_irrefl _ ((high_add_iff (by omega)).mp hhigh)
    · exact (high_add_iff (by omega)).mpr (by omega)

section Pair

/-- The start of `q`, by the periods of `p` before it and its phase. -/
theorem exists_start (hle : p.start ≤ q.start) :
    ∃ k, q.start = p.start + k * p.period + phase p q := by
  refine ⟨(q.start - p.start) / p.period, ?_⟩
  rw [phase, Nat.add_assoc, Nat.div_add_mod']
  omega

theorem phase_lt (hp : 0 < p.duty) : phase p q < p.period :=
  Nat.mod_lt _ (Nat.add_pos_left hp _)

/-- An output that is never low meets every pulse. -/
theorem not_apart_of_full (hp : 0 < p.duty) (hq : 0 < q.duty) (hfull : p.rest = 0) :
    ¬ Apart p.High q.High := by
  intro happart
  have hstart : p.start ≤ p.start * q.period :=
    Nat.le_mul_of_pos_right _ (Nat.add_pos_left hq _)
  refine happart (q.start + p.start * q.period) ⟨⟨by omega, ?_⟩, ?_⟩
  · have hperiod : p.period = p.duty := by rw [period, hfull, Nat.add_zero]
    rw [hperiod]
    exact Nat.mod_lt _ hp
  · exact (high_add_iff (m := 0) (Nat.add_pos_left hq _)).mpr hq

theorem rest_pos_of_apart (h : Apart p.High q.High) (hp : 0 < p.duty) (hq : 0 < q.duty) :
    0 < p.rest ∧ 0 < q.rest :=
  ⟨Nat.pos_of_ne_zero fun hfull => not_apart_of_full hp hq hfull h,
    Nat.pos_of_ne_zero fun hfull => not_apart_of_full hq hp hfull h.symm⟩

/-- Two trains of one period are apart exactly if, within a period of the first, the pulse of the
second starts behind the first one's and ends with it. -/
theorem apart_iff (hp : 0 < p.duty) (hq : 0 < q.duty) (hperiod : q.period = p.period)
    (hle : p.start ≤ q.start) :
    Apart p.High q.High ↔ p.duty ≤ phase p q ∧ phase p q + q.duty ≤ p.period := by
  obtain ⟨c, hc⟩ := exists_start hle
  have hphase : phase p q < p.period := phase_lt hp
  constructor
  · intro happart
    have hfirst : p.duty ≤ phase p q := by
      by_contra hlt
      have hhigh : p.High q.start := by
        rw [hc]
        exact (high_add_iff hphase).mpr (Nat.lt_of_not_le hlt)
      exact happart q.start ⟨hhigh, Nat.le_refl _, by rw [Nat.sub_self, Nat.zero_mod]; exact hq⟩
    refine ⟨hfirst, ?_⟩
    -- the next pulse of `p` after the start of `q`
    by_contra hlt
    have hnext : q.start + 0 * q.period + (p.period - phase p q) =
        p.start + (c + 1) * p.period + 0 := by
      rw [hc, Nat.succ_mul]
      omega
    have hhigh : q.High (q.start + 0 * q.period + (p.period - phase p q)) :=
      (high_add_iff (by omega)).mpr (by omega)
    refine happart _ ⟨?_, hhigh⟩
    rw [hnext]
    exact (high_add_iff (by omega)).mpr hp
  · rintro ⟨hfirst, hlast⟩ n ⟨hphigh, hqhigh⟩
    obtain ⟨k, m, hm, rfl⟩ := exists_period hq hqhigh.1
    have hmq := (high_add_iff hm).mp hqhigh
    have hn : q.start + k * q.period + m = p.start + (c + k) * p.period + (phase p q + m) := by
      rw [hc, hperiod, Nat.add_mul]
      omega
    rw [hn, high_add_iff (by omega)] at hphigh
    omega

/-- From a fall of the first to the next rise of the second. -/
theorem spaced_iff (hp : 0 < p.duty) (hq : 0 < q.duty) (hperiod : q.period = p.period)
    (hle : p.start ≤ q.start) (happart : Apart p.High q.High) :
    Spaced p.High q.High gap late ↔ p.duty + gap ≤ phase p q + late := by
  obtain ⟨c, hc⟩ := exists_start hle
  have hphase : phase p q < p.period := phase_lt hp
  obtain ⟨hpr, hqr⟩ := rest_pos_of_apart happart hp hq
  have hfirst := ((apart_iff hp hq hperiod hle).mp happart).1
  constructor
  · intro hspaced
    have hfall : Falls p.High (p.start + c * p.period + p.duty) := (falls_iff hp hpr).mpr ⟨c, rfl⟩
    have hrise : Rises q.High (q.start + 0 * q.period) := (rises_iff hq hqr).mpr ⟨0, rfl⟩
    have := hspaced _ _ hfall hrise (by omega)
    omega
  · intro hgap f r hfall hrise hfr
    obtain ⟨k, rfl⟩ := (falls_iff hp hpr).mp hfall
    obtain ⟨j, rfl⟩ := (rises_iff hq hqr).mp hrise
    rw [hperiod, hc] at hfr ⊢
    have hsum : (c + j) * p.period = c * p.period + j * p.period := Nat.add_mul ..
    have hkj : k * p.period < (c + j + 1) * p.period := by
      rw [Nat.succ_mul]
      omega
    have hperiods := Nat.mul_le_mul_right p.period
      (Nat.le_of_lt_succ (Nat.lt_of_mul_lt_mul_right hkj))
    omega

/-- From a fall of the second to the next rise of the first. -/
theorem spaced_back_iff (hp : 0 < p.duty) (hq : 0 < q.duty) (hperiod : q.period = p.period)
    (hle : p.start ≤ q.start) (happart : Apart p.High q.High) :
    Spaced q.High p.High gap late ↔ phase p q + q.duty + gap ≤ p.period + late := by
  obtain ⟨c, hc⟩ := exists_start hle
  have hphase : phase p q < p.period := phase_lt hp
  obtain ⟨hpr, hqr⟩ := rest_pos_of_apart happart hp hq
  have hlast := ((apart_iff hp hq hperiod hle).mp happart).2
  constructor
  · intro hspaced
    have hfall : Falls q.High (q.start + 0 * q.period + q.duty) := (falls_iff hq hqr).mpr ⟨0, rfl⟩
    have hrise : Rises p.High (p.start + (c + 1) * p.period) :=
      (rises_iff hp hpr).mpr ⟨c + 1, rfl⟩
    rw [Nat.succ_mul] at hrise
    have := hspaced _ _ hfall hrise (by omega)
    omega
  · intro hgap f r hfall hrise hfr
    obtain ⟨j, rfl⟩ := (falls_iff hq hqr).mp hfall
    obtain ⟨k, rfl⟩ := (rises_iff hp hpr).mp hrise
    rw [hperiod, hc] at hfr ⊢
    have hsum : (c + j) * p.period = c * p.period + j * p.period := Nat.add_mul ..
    have hkj : (c + j) * p.period < k * p.period := by omega
    have hperiods := Nat.mul_le_mul_right p.period (Nat.lt_of_mul_lt_mul_right hkj)
    rw [Nat.succ_mul] at hperiods
    omega

end Pair

end Pulses

end BdkRtt.Lib
