import BdkRtt.Driver.BkTimer
import Mathlib.Algebra.Group.Nat.Defs
import Mathlib.Algebra.GroupWithZero.Nat
import Mathlib.Order.Lattice

namespace BdkRtt.Driver.BkTimer

section Period

variable {ticks time : UInt32} {k p d : Nat}

theorem saturate_toUInt64 (x : UInt32) : saturate x.toUInt64 = x := by
  have hle : ¬ x.toUInt64 > 0xffffffff := by
    have := x.toNat_lt
    rw [gt_iff_lt, UInt64.lt_iff_toNat_lt]
    change ¬ 0xffffffff < x.toNat
    omega
  rw [saturate, if_neg hle]
  exact UInt32.toUInt32_toUInt64 x

theorem endvalue_toNat (ticks time : UInt32) (div : UInt8) :
    (endvalue ticks time div.toUInt32).toNat =
      time.toNat * ticks.toNat % 2 ^ 32 / max div.toNat 1 := by
  have hdiv :
      (if div.toUInt32 = 0 then (1 : UInt32) else div.toUInt32).toNat = max div.toNat 1 := by
    have hnat : div.toUInt32.toNat = div.toNat := UInt8.toNat_toUInt32 div
    split
    next hzero =>
      rw [hzero] at hnat
      rw [← hnat]
      rfl
    next hne =>
      have hpos : div.toUInt32.toNat ≠ 0 := fun h => hne (UInt32.toNat_inj.mp h)
      omega
  rw [endvalue]
  rw [saturate_toUInt64, UInt32.toNat_div, UInt32.toNat_mul, hdiv]

/-- A product that does not fit wraps, and since it is even it is never what the register saturates
to. -/
theorem wrapped_eq_iff (hk : k % 2 = 0) (hd : 0 < d) (hd' : d ≤ 2 ^ 32) :
    p * k % 2 ^ 32 / d = min (p * k / d) (2 ^ 32 - 1) ↔ p * k < 2 ^ 32 := by
  constructor
  · intro heq
    by_contra hbig
    have heven : p * k % 2 = 0 := by rw [Nat.mul_mod, hk, Nat.mul_zero, Nat.zero_mod]
    generalize p * k = m at heq hbig heven
    have hless : m % 2 ^ 32 / d < m / d := by
      have hle : m % 2 ^ 32 + d ≤ m := by omega
      calc
        m % 2 ^ 32 / d < m % 2 ^ 32 / d + 1 := Nat.lt_succ_self _
        _ = (m % 2 ^ 32 + d) / d := (Nat.add_div_right _ hd).symm
        _ ≤ m / d := Nat.div_le_div_right hle
    have hfull : m % 2 ^ 32 / d = 2 ^ 32 - 1 := by omega
    have hself := Nat.div_le_self (m % 2 ^ 32) d
    have hone : d = 1 := by
      by_contra hne
      have htwo : m % 2 ^ 32 / d ≤ m % 2 ^ 32 / 2 := Nat.div_le_div_left (by omega) (by decide)
      omega
    rw [hone, Nat.div_one] at hfull
    omega
  · intro hlt
    have hself := Nat.div_le_self (p * k) d
    rw [Nat.mod_eq_of_lt hlt]
    omega

end Period

section Control

variable {value : UInt32} {div : UInt8} {en i : Nat}

theorem bit_or (x y : UInt32) (i : Nat) : bit (x ||| y) i = (bit x i || bit y i) :=
  BitVec.getLsbD_or

theorem bit_and (x y : UInt32) (i : Nat) : bit (x &&& y) i = (bit x i && bit y i) :=
  BitVec.getLsbD_and

theorem bit_toNat (x : UInt32) (i : Nat) : bit x i = x.toNat.testBit i :=
  (BitVec.testBit_toNat _).symm

theorem bit_mask : ∀ i < 32,
    bit (~~~(timerctlClkdivMask <<< timerctlClkdivPosi)) i =
      !(decide (3 ≤ i) && decide (i < 6)) := by
  decide

theorem bit_enable : ∀ en < 3, ∀ i < 32,
    bit ((1 : UInt32) <<< UInt32.ofNat en) i = decide (i = en) := by
  decide

theorem bit_shift (x : UInt32) (hi : i < 32) :
    bit (x <<< timerctlClkdivPosi) i = (decide (3 ≤ i) && bit x (i - 3)) := by
  have hshift : (x <<< timerctlClkdivPosi).toBitVec = x.toBitVec <<< 3 := rfl
  have hlow : (!decide (i < 3)) = decide (3 ≤ i) := by
    rw [← decide_not, decide_eq_decide]
    omega
  rw [bit, hshift, BitVec.getLsbD_shiftLeft, hlow]
  simp [bit, hi]

/-- Each bit of the new control register. -/
theorem bit_ctlValue (hen : en < 3) (hi : i < 32) : bit (ctlValue value div en) i =
    (bit value i && !(decide (3 ≤ i) && decide (i < 6)) ||
      (decide (3 ≤ i) && bit (div.toUInt32 - 1) (i - 3)) || decide (i = en)) := by
  rw [ctlValue, bit_or, bit_or, bit_and, bit_mask i hi, bit_shift _ hi, bit_enable en hen i hi]

/-- The field has the three low bits of `div - 1`. -/
theorem field_ctlValue (hen : en < 3) :
    (ctlValue value div en).toNat / 8 % 8 = (div.toUInt32 - 1).toNat % 8 := by
  apply Nat.eq_of_testBit_eq
  intro j
  have hdiv : (ctlValue value div en).toNat / 8 % 8 =
      (ctlValue value div en).toNat / 2 ^ 3 % 2 ^ 3 := rfl
  have hmod : (div.toUInt32 - 1).toNat % 8 = (div.toUInt32 - 1).toNat % 2 ^ 3 := rfl
  rw [hdiv, hmod, Nat.testBit_mod_two_pow, Nat.testBit_mod_two_pow, Nat.testBit_div_two_pow]
  by_cases hj : j < 3
  · rw [← bit_toNat, bit_ctlValue hen (by omega), ← bit_toNat]
    have hne : j + 3 ≠ en := by omega
    simp [hj, hne]
  · simp [hj]

end Control

section Init

variable {t t' : Timer} {p : TimerParam} {ticks : UInt32}

/-- What the two functions leave in the registers of the channel. -/
structure Wrote (p : TimerParam) (ticks : UInt32) (t t' : Timer) : Prop where
  period : t'.regs (periodAddr p.channel) = endvalue ticks p.period p.div.toUInt32
  control : t'.regs (ctlAddr p.channel) =
    ctlValue (t.regs (ctlAddr p.channel)) p.div (enableBit p.channel)

theorem program_regs {clock value : UInt32} {periodAddr ctl en : Nat} {div : UInt8}
    (hne : periodAddr ≠ ctl) :
    (t.program clock periodAddr ctl en value div).regs periodAddr = value ∧
      (t.program clock periodAddr ctl en value div).regs ctl = ctlValue (t.regs ctl) div en := by
  refine ⟨?_, ?_⟩
  · exact (Function.update_of_ne hne _ _).trans (Function.update_self ..)
  · refine (Function.update_self ..).trans ?_
    exact congrArg (ctlValue · div en) (Function.update_of_ne hne.symm _ _)

theorem wrote_ms (h : p.channel ≤ 5) : Wrote p (UInt32.ofNat (ticksMs p.channel)) t
    (t.initTimerParam p).1 := by
  have hle : p.channel.toNat ≤ 5 := UInt8.le_iff_toNat_le.mp h
  have hin : ¬ p.channel > 5 := UInt8.not_lt.mpr h
  have hlow : p.channel < 3 ↔ p.channel.toNat < 3 := UInt8.lt_iff_toNat_lt
  rw [Timer.initTimerParam]
  dsimp only
  rw [if_neg hin]
  by_cases hbank : p.channel.toNat < 3
  · have hne : regTimerctlaPeriodAddr p.channel.toNat ≠ timer02Ctl := Nat.ne_of_lt hbank
    have hregs := @program_regs
      { t with handlers := Function.update t.handlers p.channel.toNat p.tIntHandler }
      pwdTimer26mClkBit (bkTimerCalEndvalue p.channel.toNat p.period p.div.toUInt32) _ _
      p.channel.toNat p.div hne
    rw [if_pos hbank]
    refine ⟨?_, ?_⟩
    · rw [periodAddr, if_pos (hlow.mpr hbank), ticksMs, if_pos (hlow.mpr hbank)]
      refine hregs.1.trans ?_
      rw [bkTimerCalEndvalue, if_pos hbank]
      rfl
    · rw [ctlAddr, if_pos (hlow.mpr hbank), enableBit, Nat.mod_eq_of_lt hbank]
      exact hregs.2
  · have hne : regTimerctlbPeriodAddr p.channel.toNat ≠ timer35Ctl := by
      unfold regTimerctlbPeriodAddr timer35Ctl
      omega
    have hen : p.channel.toNat % 3 = p.channel.toNat - 3 := by omega
    have hregs := @program_regs
      { t with handlers := Function.update t.handlers p.channel.toNat p.tIntHandler }
      pwdTimer32kClkBit (bkTimerCalEndvalue p.channel.toNat p.period p.div.toUInt32) _ _
      (p.channel.toNat - 3) p.div hne
    rw [if_neg hbank]
    refine ⟨?_, ?_⟩
    · rw [periodAddr, if_neg (mt hlow.mp hbank), ticksMs, if_neg (mt hlow.mp hbank)]
      refine hregs.1.trans ?_
      rw [bkTimerCalEndvalue, if_neg hbank]
      rfl
    · rw [ctlAddr, if_neg (mt hlow.mp hbank), enableBit, hen]
      exact hregs.2

theorem wrote_us (h : p.channel ≤ 2) : Wrote p (UInt32.ofNat ticksUs) t
    (t.initTimerParamUs p).1 := by
  have hle : p.channel.toNat ≤ 2 := UInt8.le_iff_toNat_le.mp h
  have hin : ¬ p.channel > 2 := UInt8.not_lt.mpr h
  have hlow : p.channel < 3 := by
    rw [UInt8.lt_iff_toNat_lt]
    exact Nat.lt_succ_of_le hle
  have hne : regTimerctlaPeriodAddr p.channel.toNat ≠ timer02Ctl :=
    Nat.ne_of_lt (Nat.lt_succ_of_le hle)
  have hregs := @program_regs
    { t with handlers := Function.update t.handlers p.channel.toNat p.tIntHandler }
    pwdTimer26mClkBit (bkTimerCalEndvalueUs p.period p.div.toUInt32) _ _ p.channel.toNat p.div hne
  rw [Timer.initTimerParamUs]
  dsimp only
  rw [if_neg hin]
  refine ⟨?_, ?_⟩
  · rw [periodAddr, if_pos hlow]
    exact hregs.1
  · rw [ctlAddr, if_pos hlow, enableBit, Nat.mod_eq_of_lt (Nat.lt_succ_of_le hle)]
    exact hregs.2

theorem div_sub_one_toNat (div : UInt8) : (div.toUInt32 - 1).toNat =
    if div = 0 then 2 ^ 32 - 1 else div.toNat - 1 := by
  have hnat : div.toUInt32.toNat = div.toNat := UInt8.toNat_toUInt32 div
  have hone : (1 : UInt32).toNat = 1 := rfl
  split
  next hzero =>
    rw [hzero]
    rfl
  next hne =>
    have hpos : div.toNat ≠ 0 := fun h => hne (UInt8.toNat_inj.mp h)
    rw [UInt32.toNat_sub_of_le _ _ (by rw [UInt32.le_iff_toNat_le]; omega), hnat, hone]

/-- The registers are right where what goes into them can be represented. -/
theorem Wrote.programmed_iff (h : Wrote p ticks t t') (hticks : ticks.toNat % 2 = 0) :
    Programmed p ticks.toNat t t' ↔ Representable p ticks.toNat t := by
  have hen : enableBit p.channel < 3 := Nat.mod_lt _ (by decide)
  have hdiv : effectiveDiv p = max p.div.toNat 1 := rfl
  have hbyte := p.div.toNat_lt
  have hperiod : (t'.regs (periodAddr p.channel)).toNat =
      p.period.toNat * ticks.toNat % 2 ^ 32 / effectiveDiv p := by
    rw [h.period, endvalue_toNat]
    rfl
  have hwrap :=
    @wrapped_eq_iff ticks.toNat p.period.toNat (effectiveDiv p) hticks (by omega) (by omega)
  have hsub := div_sub_one_toNat p.div
  constructor
  · intro hright
    have hproduct := hwrap.mp (hperiod.symm.trans hright.period)
    have hpositive : p.div ≠ 0 := by
      intro hzero
      have hfield := hright.divider (by rw [hdiv, hzero]; decide)
      rw [h.control, field_ctlValue hen, hsub, if_pos hzero, hdiv, hzero] at hfield
      exact absurd hfield (by decide)
    refine ⟨hproduct, hpositive, fun i hi hhigh hset => ?_⟩
    rw [if_neg hpositive] at hsub
    have hkeep := hright.others i hi (.inr hhigh) (by omega)
    rw [h.control, bit_ctlValue hen hi, bit_toNat (p.div.toUInt32 - 1), hsub, hset] at hkeep
    have hfield : 3 ≤ i := by omega
    rw [← hkeep]
    simp [hfield]
  · intro hfits
    rw [if_neg hfits.positive] at hsub
    have hpos : p.div.toNat ≠ 0 := fun hzero => hfits.positive (UInt8.toNat_inj.mp hzero)
    refine ⟨hperiod.trans (hwrap.mpr hfits.product), fun hle => ?_, fun i hi hi' hne => ?_⟩
    · rw [h.control, field_ctlValue hen, hsub]
      omega
    · rw [h.control, bit_ctlValue hen hi]
      rcases hi' with hlow | hhigh
      · have hout : ¬ 3 ≤ i := by omega
        simp [hout, hne]
      · have hout : ¬ i < 6 := by omega
        have hover := hfits.above i hi hhigh
        rw [← hsub, ← bit_toNat] at hover
        cases hold : bit (t.regs (ctlAddr p.channel)) i with
        | true => simp [hout]
        | false =>
          have hclear : bit (p.div.toUInt32 - 1) (i - 3) = false := by
            cases hset : bit (p.div.toUInt32 - 1) (i - 3) with
            | true => exact absurd (hover hset) (by rw [hold]; decide)
            | false => rfl
          simp [hclear, hne]

theorem ticksMs_toNat (channel : UInt8) :
    (UInt32.ofNat (ticksMs channel)).toNat = ticksMs channel ∧ ticksMs channel % 2 = 0 := by
  rw [ticksMs]
  split <;> exact ⟨rfl, rfl⟩

/-- An accepted channel is programmed right if and only if the values can be represented. -/
theorem init_timer_iff_representable (t : Timer) (p : TimerParam) :
    (p.channel ≤ 5 → (Programmed p (ticksMs p.channel) t (t.initTimerParam p).1 ↔
      Representable p (ticksMs p.channel) t)) ∧
    (p.channel ≤ 2 → (Programmed p ticksUs t (t.initTimerParamUs p).1 ↔
      Representable p ticksUs t)) := by
  obtain ⟨hticks, heven⟩ := ticksMs_toNat p.channel
  refine ⟨fun h => ?_, fun h => (wrote_us h).programmed_iff rfl⟩
  have hiff := (@wrote_ms t p h).programmed_iff (by rw [hticks]; exact heven)
  rwa [hticks] at hiff

def clearTimer : Timer := ⟨fun _ => 0, fun _ => 0, [], false⟩

theorem init_timer_second :
    Programmed ⟨1, 1, 1000, 7⟩ (ticksMs 1) clearTimer (clearTimer.initTimerParam ⟨1, 1, 1000, 7⟩).1 :=
  ((init_timer_iff_representable clearTimer ⟨1, 1, 1000, 7⟩).1 (by decide)).mpr
    ⟨by decide, by decide, by decide⟩

/-- With a divider of 0, and with a period of 200 s, the registers are wrong. -/
theorem init_timer_wrong :
    ¬ Programmed ⟨0, 1, 200000, 7⟩ (ticksMs 0) clearTimer
      (clearTimer.initTimerParam ⟨0, 1, 200000, 7⟩).1 ∧
    ¬ Programmed ⟨0, 0, 1, 7⟩ (ticksMs 0) clearTimer
      (clearTimer.initTimerParam ⟨0, 0, 1, 7⟩).1 := by
  refine ⟨fun h => ?_, fun h => ?_⟩
  · exact absurd h.period (by decide)
  · exact absurd (h.divider (by decide)) (by decide)

end Init

end BdkRtt.Driver.BkTimer
