import Mathlib.Data.List.FinRange

namespace BdkRtt.Lib

/-- What a loop that breaks at the first index passing a test has tested, and where it broke. -/
structure Scan where
  seen : List Nat
  hit : Option Nat
  deriving DecidableEq

namespace Scan

/-- The loop over the `n` indices from `i` on. -/
def goes (p : Nat → Bool) (i : Nat) : Nat → Scan
  | 0 => ⟨[], none⟩
  | n + 1 => if p i then ⟨[i], some i⟩ else ⟨i :: (goes p (i + 1) n).seen, (goes p (i + 1) n).hit⟩

/-- `for(i = 0; i < bound; i ++) if(p(i)) break;` -/
def upTo (p : Nat → Bool) (bound : Nat) : Scan := goes p 0 bound

variable {p : Nat → Bool}

theorem goes_hit {i n k : Nat} : (goes p i n).hit = some k ↔
    i ≤ k ∧ k < i + n ∧ p k = true ∧ ∀ j, i ≤ j → j < k → p j = false := by
  induction n generalizing i with
  | zero =>
    simp only [goes, reduceCtorEq, false_iff]
    omega
  | succ n ih =>
    unfold goes
    split
    next hp =>
      constructor
      · intro h
        cases h
        exact ⟨le_rfl, by omega, hp, fun j hj hlt => by omega⟩
      · rintro ⟨hle, -, -, hfront⟩
        rcases Nat.eq_or_lt_of_le hle with rfl | hlt
        · rfl
        · rw [hfront i le_rfl hlt] at hp
          cases hp
    next hp =>
      have hp' : p i = false := by simpa using hp
      rw [ih]
      constructor
      · rintro ⟨hle, hlt, hk, hfront⟩
        refine ⟨by omega, by omega, hk, fun j hj hjk => ?_⟩
        rcases Nat.eq_or_lt_of_le hj with rfl | hij
        · exact hp'
        · exact hfront j hij hjk
      · rintro ⟨hle, hlt, hk, hfront⟩
        have hne : i ≠ k := by
          rintro rfl
          exact hp hk
        exact ⟨by omega, by omega, hk, fun j hj => hfront j (by omega)⟩

theorem mem_goes_seen {i n k : Nat} : k ∈ (goes p i n).seen ↔
    i ≤ k ∧ k < i + n ∧ ∀ j, i ≤ j → j < k → p j = false := by
  induction n generalizing i with
  | zero =>
    simp only [goes, List.not_mem_nil, false_iff]
    omega
  | succ n ih =>
    unfold goes
    split
    next hp =>
      simp only [List.mem_singleton]
      constructor
      · rintro rfl
        exact ⟨le_rfl, by omega, fun j hj hlt => by omega⟩
      · rintro ⟨hle, -, hfront⟩
        rcases Nat.eq_or_lt_of_le hle with rfl | hlt
        · rfl
        · rw [hfront i le_rfl hlt] at hp
          cases hp
    next hp =>
      have hp' : p i = false := by simpa using hp
      simp only [List.mem_cons, ih]
      constructor
      · rintro (rfl | ⟨hle, hlt, hfront⟩)
        · exact ⟨le_rfl, by omega, fun j hj hlt => by omega⟩
        · refine ⟨by omega, by omega, fun j hj hjk => ?_⟩
          rcases Nat.eq_or_lt_of_le hj with rfl | hij
          · exact hp'
          · exact hfront j hij hjk
      · rintro ⟨hle, hlt, hfront⟩
        rcases Nat.eq_or_lt_of_le hle with rfl | hik
        · exact .inl rfl
        · exact .inr ⟨hik, by omega, fun j hj => hfront j (by omega)⟩

theorem upTo_hit {bound k : Nat} :
    (upTo p bound).hit = some k ↔ k < bound ∧ p k = true ∧ ∀ j < k, p j = false := by
  simp [upTo, goes_hit]

theorem mem_upTo_seen {bound k : Nat} :
    k ∈ (upTo p bound).seen ↔ k < bound ∧ ∀ j < k, p j = false := by
  simp [upTo, mem_goes_seen]

theorem upTo_hit_none {bound : Nat} :
    (upTo p bound).hit = none ↔ ∀ j < bound, p j = false := by
  constructor
  · intro h j
    induction j using Nat.strong_induction_on with
    | h j ih =>
      intro hj
      by_contra hp
      have hhit : (upTo p bound).hit = some j :=
        upTo_hit.mpr ⟨hj, by simpa using hp, fun k hk => ih k hk (by omega)⟩
      rw [h] at hhit
      cases hhit
  · intro h
    by_contra hsome
    obtain ⟨k, hk⟩ := Option.ne_none_iff_exists'.mp hsome
    obtain ⟨hlt, hp, -⟩ := upTo_hit.mp hk
    rw [h k hlt] at hp
    cases hp

/-- The search of a list of all indices breaks where the loop does. -/
theorem find_finRange {n : Nat} :
    (((List.finRange n).find? fun i => p i.val).map Fin.val) = (upTo p n).hit := by
  cases hfind : (List.finRange n).find? fun i => p i.val with
  | none =>
    refine (upTo_hit_none.mpr fun j hj => ?_).symm
    simpa using List.find?_eq_none.mp hfind ⟨j, hj⟩ (List.mem_finRange _)
  | some i =>
    obtain ⟨hp, k, hk, hi, hfront⟩ := List.find?_eq_some_iff_getElem.mp hfind
    refine (upTo_hit.mpr ⟨i.isLt, hp, fun j hj => ?_⟩).symm
    have hki : k = i.val := by simpa using congrArg Fin.val hi
    simpa using hfront j (by omega)

section Exact

variable {held want : Nat → Prop} {bound size : Nat}

/-- The loop tests only entries of the table that are in use, breaks at none but a wanted one,
and breaks at one when there is one. -/
structure Exact (held want : Nat → Prop) (size : Nat) (s : Scan) : Prop where
  seen : ∀ i ∈ s.seen, i < size ∧ held i
  hit : ∀ i, s.hit = some i → want i
  found : (∃ i < size, want i) → s.hit ≠ none

/-- Where a wanted entry passes the test, a loop is exact when all it tests in front of one, or
all it tests, are entries in use that fail the test. -/
theorem upTo_exact_iff (hbound : bound ≤ size) (hheld : ∀ i, want i → held i)
    (hpass : ∀ i, want i → p i = true) :
    (upTo p bound).Exact held want size ↔
      (∃ i < bound, want i ∧ ∀ j < i, held j ∧ p j = false) ∨
        (∀ j < bound, held j ∧ p j = false) ∧ ∀ i < size, ¬ want i := by
  constructor
  · rintro ⟨hseen, hhit, hfound⟩
    cases hs : (upTo p bound).hit with
    | none =>
      have hfail := upTo_hit_none.mp hs
      refine .inr ⟨fun j hj => ⟨?_, hfail j hj⟩, fun i hi hw => hfound ⟨i, hi, hw⟩ hs⟩
      exact (hseen j (mem_upTo_seen.mpr ⟨hj, fun k hk => hfail k (by omega)⟩)).2
    | some i =>
      obtain ⟨hi, -, hfront⟩ := upTo_hit.mp hs
      refine .inl ⟨i, hi, hhit i hs, fun j hj => ⟨?_, hfront j hj⟩⟩
      exact (hseen j (mem_upTo_seen.mpr ⟨by omega, fun k hk => hfront k (by omega)⟩)).2
  · rintro (⟨i, hi, hw, hfront⟩ | ⟨hall, hno⟩)
    · have hhit : (upTo p bound).hit = some i :=
        upTo_hit.mpr ⟨hi, hpass i hw, fun j hj => (hfront j hj).2⟩
      refine ⟨fun k hk => ?_, fun k hk => ?_, fun _ => by simp [hhit]⟩
      · obtain ⟨hlt, hpre⟩ := mem_upTo_seen.mp hk
        refine ⟨by omega, ?_⟩
        rcases Nat.lt_trichotomy k i with hki | rfl | hik
        · exact (hfront k hki).1
        · exact hheld k hw
        · have hpi := hpass i hw
          rw [hpre i hik] at hpi
          cases hpi
      · rw [hhit] at hk
        cases hk
        exact hw
    · have hnone : (upTo p bound).hit = none := upTo_hit_none.mpr fun j hj => (hall j hj).2
      refine ⟨fun k hk => ?_, fun k hk => ?_, fun ⟨i, hi, hw⟩ => absurd hw (hno i hi)⟩
      · have hlt := (mem_upTo_seen.mp hk).1
        exact ⟨by omega, (hall k hlt).1⟩
      · rw [hnone] at hk
        cases hk

end Exact

end Scan

end BdkRtt.Lib
