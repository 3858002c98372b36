import BdkRtt.Rttos.PsTick
import Mathlib.Algebra.Order.Group.Nat

namespace BdkRtt.Rttos

open Lib

section Debt

/-- What `increase_tick` still owes. -/
def debt (increaseTick : Int32) : Nat := (-increaseTick.toInt).toNat

variable {x : Int32} {lost : UInt32}

theorem toInt_neg_debt (hx : x ≤ 0) : x.toInt = -(debt x : Int) := by
  have hle : x.toInt ≤ 0 := Int32.le_iff_toInt_le.mp hx
  unfold debt
  omega

theorem eq_zero_iff_debt (hx : x ≤ 0) : x = 0 ↔ debt x = 0 := by
  have h := toInt_neg_debt hx
  have hzero : (0 : Int32).toInt = 0 := rfl
  rw [← Int32.toInt_inj, hzero]
  omega

theorem toInt_toInt32 (hlost : lost.toNat < 2 ^ 31) : lost.toInt32.toInt = lost.toNat := by
  have h : lost.toInt32.toInt = lost.toBitVec.toInt := rfl
  rw [h, BitVec.toInt_eq_toNat_of_lt]
  · rfl
  · change 2 * lost.toNat < 2 ^ 32
    omega

theorem toNat_toUInt32 (hx : 0 ≤ x) : (x.toUInt32.toNat : Int) = x.toInt := by
  have hpos : 0 ≤ x.toBitVec.toInt := Int32.le_iff_toInt_le.mp hx
  have hcond := BitVec.toInt_eq_toNat_cond x.toBitVec
  have hlt := x.toBitVec.isLt
  change (x.toBitVec.toNat : Int) = x.toBitVec.toInt
  split at hcond
  · exact hcond.symm
  · omega

/-- The part of a lost value that pays for the debt is taken from both. -/
theorem mcuPsCalIncreaseTick_spec (hx : x ≤ 0) (hlost : lost.toNat < 2 ^ 31) :
    (mcuPsCalIncreaseTick x lost).1 ≤ 0 ∧
    debt (mcuPsCalIncreaseTick x lost).1 = debt x - min lost.toNat (debt x) ∧
    (mcuPsCalIncreaseTick x lost).2.toNat = lost.toNat - min lost.toNat (debt x) := by
  have hxi := toInt_neg_debt hx
  have hli := toInt_toInt32 hlost
  have hlow := x.le_toInt
  have hzero : (0 : Int32).toInt = 0 := rfl
  have hidle : lost.toInt32 ≤ 0 ∨ x = 0 ↔ lost.toNat = 0 ∨ debt x = 0 := by
    rw [Int32.le_iff_toInt_le, hli, hzero, eq_zero_iff_debt hx]
    omega
  have hsum : (lost.toInt32 + x).toInt = lost.toNat - debt x := by
    rw [Int32.toInt_add, hli, hxi]
    apply Int.bmod_eq_of_le <;> omega
  have hneg : lost.toInt32 + x < 0 ↔ lost.toNat < debt x := by
    rw [Int32.lt_iff_toInt_lt, hsum, hzero]
    omega
  unfold mcuPsCalIncreaseTick
  simp only [hidle, hneg]
  split
  next h =>
    simp only
    exact ⟨hx, by omega, by omega⟩
  next h =>
    split
    next hlt =>
      have hle : lost.toInt32 + x ≤ 0 := Int32.le_of_lt (hneg.mpr hlt)
      refine ⟨hle, ?_, ?_⟩
      · have := toInt_neg_debt hle
        simp only
        omega
      · simp only [UInt32.reduceToNat]
        omega
    next hge =>
      have hle : 0 ≤ lost.toInt32 + x := by
        rw [Int32.le_iff_toInt_le, hsum, hzero]
        omega
      refine ⟨Int32.le_refl _, ?_, ?_⟩
      · have : debt 0 = 0 := rfl
        simp only
        omega
      · have := toNat_toUInt32 hle
        simp only
        omega

end Debt

section Ledger

abbrev PsHistory := Machine.History PsEvent PsAnswer

/-- What an event withholds from a lost value. -/
def withheldBy : PsEvent × PsAnswer → Nat
  | (.cal lost, .cal left) => lost.toNat - left.toNat
  | (.cal _, .tick _) => 0
  | (.tick, _) => 0

def PsAnswer.skips : PsAnswer → Nat
  | .cal _ => 0
  | .tick skipped => if skipped then 1 else 0

def withheld (h : PsHistory) : Nat := (h.map withheldBy).sum

def skipped (h : PsHistory) : Nat := (h.map fun x => x.2.skips).sum

/-- No lost value has become negative, which a `UINT32` would show as one of `2 ^ 31` or more,
nor `increase_tick` positive; what was withheld and skipped is what the debt went down by. -/
structure PsLaw (c : PsTickCfg) (h : PsHistory) (s : PsTick) : Prop where
  left_le : ∀ lost left, (PsEvent.cal lost, PsAnswer.cal left) ∈ h → left.toNat ≤ lost.toNat ∧
    left.toNat < 2 ^ 31
  increaseTick_le : s.increaseTick ≤ 0
  ledger : withheld h + c.fclkDurationMs.toNat * skipped h + debt s.increaseTick =
    debt c.increaseTick

/-- A tick at which the debt is paid finds none, or one of at least a tick. -/
def WholeTick (c : PsTickCfg) (s : PsTick) : PsEvent → Prop
  | .cal _ => True
  | .tick => s.needPass % 5 = 0 →
    debt s.increaseTick = 0 ∨ c.fclkDurationMs.toNat ≤ debt s.increaseTick

variable {c : PsTickCfg} {h : PsHistory} {s t : PsTick} {e : PsEvent} {o : PsAnswer}

theorem withheld_concat : withheld (h ++ [(e, o)]) = withheld h + withheldBy (e, o) := by
  simp [withheld]

theorem skipped_concat : skipped (h ++ [(e, o)]) = skipped h + o.skips := by
  simp [skipped]

theorem PsLaw.init (c : PsTickCfg) : PsLaw c [] (psTick c).init where
  left_le _ _ hmem := by cases hmem
  increaseTick_le := c.increaseTick_le
  ledger := by
    rw [withheld, skipped, List.map_nil, List.map_nil, List.sum_nil, Nat.mul_zero, Nat.zero_add]
    rfl

theorem psStep_cal {lost : UInt32} (hs : psStep c s (.cal lost) = some (t, o)) :
    lost.toNat < 2 ^ 31 ∧ t.increaseTick = (mcuPsCalIncreaseTick s.increaseTick lost).1 ∧
    o = .cal (mcuPsCalIncreaseTick s.increaseTick lost).2 := by
  rw [psStep] at hs
  split at hs
  next hlt =>
    cases hs
    exact ⟨hlt, rfl, rfl⟩
  next => cases hs

/-- A tick: the debt goes down as if the tick were lost, at every fifth of them. -/
theorem psStep_tick (hx : s.increaseTick ≤ 0) (hs : psStep c s .tick = some (t, o)) :
    t.increaseTick ≤ 0 ∧
    debt t.increaseTick = debt s.increaseTick -
      (if s.needPass % 5 = 0 then min c.fclkDurationMs.toNat (debt s.increaseTick) else 0) ∧
    o = .tick (c.fclkDurationMs.toNat = 0 ∨
      (s.needPass % 5 = 0 ∧ c.fclkDurationMs.toNat ≤ debt s.increaseTick)) := by
  rw [psStep] at hs
  cases hs
  have hzero (n : UInt32) : n = 0 ↔ n.toNat = 0 := UInt32.toNat_inj.symm
  obtain ⟨hle, hdebt, hleft⟩ := mcuPsCalIncreaseTick_spec hx c.duration_lt
  unfold mcuPsNeedPstick
  by_cases hfifth : s.needPass % 5 = 0
  · simp only [if_pos hfifth]
    refine ⟨hle, hdebt, ?_⟩
    congr 1
    apply decide_eq_decide.mpr
    rw [hzero, hleft]
    simp only [hfifth, true_and]
    omega
  · simp only [if_neg hfifth]
    refine ⟨hx, rfl, ?_⟩
    congr 1
    apply decide_eq_decide.mpr
    rw [hzero]
    simp only [hfifth, false_and, or_false]

theorem PsLaw.step (hl : PsLaw c h s) (hs : psStep c s e = some (t, o)) :
    PsLaw c (h ++ [(e, o)]) t ↔ WholeTick c s e := by
  have hledger := hl.ledger
  cases e with
  | cal lost =>
    obtain ⟨hlost, hinc, rfl⟩ := psStep_cal hs
    obtain ⟨hle, hdebt, hleft⟩ := mcuPsCalIncreaseTick_spec hl.increaseTick_le hlost
    refine iff_of_true ⟨fun lost' left hmem => ?_, hinc ▸ hle, ?_⟩ trivial
    · rcases List.mem_append.mp hmem with hmem | hmem
      · exact hl.left_le lost' left hmem
      · cases List.mem_singleton.mp hmem
        omega
    · rw [withheld_concat, skipped_concat, withheldBy, PsAnswer.skips, hleft, hinc, hdebt,
        Nat.add_zero]
      omega
  | tick =>
    obtain ⟨hle, hdebt, rfl⟩ := psStep_tick hl.increaseTick_le hs
    have hiff : PsLaw c (h ++ [(.tick, .tick (c.fclkDurationMs.toNat = 0 ∨
        (s.needPass % 5 = 0 ∧ c.fclkDurationMs.toNat ≤ debt s.increaseTick)))]) t ↔
        withheld h + c.fclkDurationMs.toNat * (skipped h + if c.fclkDurationMs.toNat = 0 ∨
          (s.needPass % 5 = 0 ∧ c.fclkDurationMs.toNat ≤ debt s.increaseTick) then 1 else 0) +
          debt t.increaseTick = debt c.increaseTick := by
      constructor
      · intro hl'
        have := hl'.ledger
        rw [withheld_concat, skipped_concat, withheldBy, PsAnswer.skips] at this
        simpa using this
      · intro heq
        refine ⟨fun lost' left hmem => ?_, hle, ?_⟩
        · rcases List.mem_append.mp hmem with hmem | hmem
          · exact hl.left_le lost' left hmem
          · cases List.mem_singleton.mp hmem
        · rw [withheld_concat, skipped_concat, withheldBy, PsAnswer.skips]
          simpa using heq
    rw [hiff, hdebt, Nat.mul_add]
    change _ ↔ (s.needPass % 5 = 0 →
      debt s.increaseTick = 0 ∨ c.fclkDurationMs.toNat ≤ debt s.increaseTick)
    by_cases hfifth : s.needPass % 5 = 0
    · simp only [hfifth, true_and, forall_const, if_true]
      by_cases hwhole : c.fclkDurationMs.toNat ≤ debt s.increaseTick
      · simp only [hwhole, or_true, if_true, Nat.mul_one, iff_true]
        omega
      · have hpos : ¬ c.fclkDurationMs.toNat = 0 := by omega
        simp only [hwhole, hpos, or_self, or_false, if_false, Nat.mul_zero]
        omega
    · simp only [hfifth, false_and, or_false, if_false, false_implies, iff_true]
      split
      next hzero => rw [hzero] at hledger ⊢; omega
      next => omega

end Ledger

/-- The runs that keep the ledger are those in which no part of a tick is owed when a tick
could pay for the debt. -/
theorem psTick_ledger_iff_whole (c : PsTickCfg) {h : PsHistory} {s : PsTick} :
    (psTick c).ReachesUnder (WholeTick c) h s ↔ (psTick c).ReachesWithin (PsLaw c) h s := by
  have hkeep {h : PsHistory} {s : PsTick} (hr : (psTick c).ReachesUnder (WholeTick c) h s) :
      PsLaw c h s :=
    hr.invariant (PsLaw c) (PsLaw.init c) fun hl hw hs => (hl.step hs).mpr hw
  apply Machine.reachesUnder_iff_within hkeep
  intro h s e t o hr hs hl
  exact ((hkeep hr).step hs).mp hl

/-- Ticks of two milliseconds, and a debt of one. -/
def twoMs : PsTickCfg where
  fclkDurationMs := 2
  increaseTick := -1
  needPass := 0
  duration_lt := by decide
  increaseTick_le := by decide

/-- The first tick drops the debt and is counted. -/
theorem psTick_drops : ∃ h s, (psTick twoMs).Reaches h s ∧ s.increaseTick = 0 ∧ withheld h = 0 ∧
    skipped h = 0 ∧ ¬ PsLaw twoMs h s := by
  have hrun : ((psTick twoMs).exec [.tick]).map
      (fun r => (r.2.increaseTick, withheld r.1, skipped r.1)) = some (0, 0, 0) := by decide
  obtain ⟨⟨h, s⟩, hx, heq⟩ := Option.map_eq_some_iff.mp hrun
  simp only [Prod.mk.injEq] at heq
  obtain ⟨hinc, hwith, hskip⟩ := heq
  refine ⟨h, s, Machine.reaches_of_exec hx, hinc, hwith, hskip, fun hl => ?_⟩
  have := hl.ledger
  rw [hinc, hwith, hskip] at this
  exact absurd this (by decide)

end BdkRtt.Rttos
