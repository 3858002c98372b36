import BdkRtt.Driver.SdioScan
import Mathlib.Data.List.Infix

namespace BdkRtt.Driver.SdioScan

open Lib

variable {cmd : Cmd} {s t : LoopSt}

section Law

/-- How much of the buffer a TLV takes, header included. -/
def Cmd.tlvSize (cmd : Cmd) (a : Nat) : Nat := (cmd.ieLen a).toNat + 4

/-- The visited TLVs lie one behind the other, from `a` up to `e`. -/
def Tiles (cmd : Cmd) : Nat → List Nat → Nat → Prop
  | a, [], e => e = a
  | a, v :: vs, e => v = a ∧ Tiles cmd (a + cmd.tlvSize a) vs e

/-- The touched places belong to the command and to the request. -/
structure Touches.Within (x : Touches) (size : Nat) : Prop where
  reads : ∀ r ∈ x.reads, r.1 + r.2 ≤ size
  ssids : ∀ i ∈ x.ssids, i < scanSsidMax
  chans : ∀ i ∈ x.chans, i < scanChannelMax
  copies : ∀ n ∈ x.copies, n ≤ macSsidLen

/-- The loop from `s` ends in `t`. -/
def Cmd.Ends (cmd : Cmd) (s t : LoopSt) : Prop := ∃ fuel, cmd.loop fuel s = some t

/-- The loop ends; it has visited one TLV after another until no whole one is left, and has
touched nothing else. -/
def ScanLaw (cmd : Cmd) : Prop :=
  ∃ s e, cmd.Ends cmd.start s ∧ Tiles cmd tlvbuffer s.touches.visits e ∧
    cmd.size.toNat < e + cmd.tlvSize e ∧ s.touches.Within cmd.size.toNat

/-- If this is an SSID, it fits its array. -/
def Cmd.SsidFits (cmd : Cmd) (a : Nat) : Prop :=
  cmd.ieType a = tlvTypeSsid → (cmd.ieLen a).toNat ≤ macSsidLen

/-- The offset behind the first TLV. -/
def Cmd.second (cmd : Cmd) : Nat := tlvbuffer + cmd.tlvSize tlvbuffer

/-- No TLV, one or two fill the command. -/
def Cmd.AtMostTwo (cmd : Cmd) : Prop :=
  cmd.size.toNat = tlvbuffer ∨
  (cmd.size.toNat = cmd.second ∧ cmd.SsidFits tlvbuffer) ∨
  (cmd.size.toNat = cmd.second + cmd.tlvSize cmd.second ∧
    cmd.SsidFits tlvbuffer ∧ cmd.SsidFits cmd.second)

end Law

section Rounds

theorem Cmd.loop_done (h : s.ieTotalLen = 0) (fuel : Nat) : cmd.loop fuel s = some s := by
  cases fuel <;> simp [Cmd.loop, h]

theorem Cmd.ends_done (h : s.ieTotalLen = 0) : cmd.Ends s t ↔ t = s := by
  constructor
  · rintro ⟨fuel, hf⟩
    rw [Cmd.loop_done h] at hf
    exact (Option.some.inj hf).symm
  · rintro rfl
    exact ⟨0, Cmd.loop_done h 0⟩

theorem Cmd.ends_round (h : s.ieTotalLen ≠ 0) : cmd.Ends s t ↔ cmd.Ends (cmd.round s) t := by
  constructor
  · rintro ⟨fuel, hf⟩
    cases fuel with
    | zero => simp [Cmd.loop, h] at hf
    | succ fuel =>
      rw [Cmd.loop, if_neg h] at hf
      exact ⟨fuel, hf⟩
  · rintro ⟨fuel, hf⟩
    exact ⟨fuel + 1, by rw [Cmd.loop, if_neg h, hf]⟩

@[simp] theorem Cmd.round_mrvlIe : (cmd.round s).mrvlIe = tlvbuffer + cmd.tlvSize s.mrvlIe := rfl

@[simp] theorem Cmd.round_ieTotalLen :
    (cmd.round s).ieTotalLen = s.ieTotalLen - UInt32.ofNat (cmd.tlvSize s.mrvlIe) := by
  simp only [Cmd.round]
  split
  · rfl
  · split <;> rfl

@[simp] theorem Cmd.round_visits :
    (cmd.round s).touches.visits = s.touches.visits ++ [s.mrvlIe] := by
  simp only [Cmd.round]
  split
  · rfl
  · split <;> rfl

@[simp] theorem Cmd.round_ssidId :
    (cmd.round s).ssidId =
      if cmd.ieType s.mrvlIe = tlvTypeSsid then s.ssidId + 1 else s.ssidId := by
  simp only [Cmd.round]
  split
  · rfl
  · split <;> rfl

@[simp] theorem Cmd.round_copies :
    (cmd.round s).touches.copies = s.touches.copies ++
      if cmd.ieType s.mrvlIe = tlvTypeSsid then [(cmd.ieLen s.mrvlIe).toNat] else [] := by
  simp only [Cmd.round]
  split
  · rfl
  · split <;> exact (List.append_nil _).symm

theorem Cmd.mem_round_copies (h : cmd.ieType s.mrvlIe = tlvTypeSsid) :
    (cmd.ieLen s.mrvlIe).toNat ∈ (cmd.round s).touches.copies := by
  rw [Cmd.round_copies, if_pos h]
  exact List.mem_append_right _ (List.mem_singleton_self _)

theorem Cmd.Ends.visits (h : cmd.Ends s t) : s.touches.visits <+: t.touches.visits := by
  obtain ⟨fuel, hf⟩ := h
  induction fuel generalizing s with
  | zero =>
    rw [Cmd.loop] at hf
    split at hf
    · rw [Option.some.inj hf]
    · cases hf
  | succ fuel ih =>
    rw [Cmd.loop] at hf
    split at hf
    · rw [Option.some.inj hf]
    · exact (List.prefix_append _ _).trans (Cmd.round_visits ▸ ih hf)

/-- A round on a TLV of the command touches what it may, if there is room for an SSID. -/
theorem Cmd.round_within {size : Nat} (hs : s.touches.Within size)
    (hin : s.mrvlIe + cmd.tlvSize s.mrvlIe ≤ size) (hroom : s.ssidId.toNat < scanSsidMax)
    (hfits : cmd.SsidFits s.mrvlIe) : (cmd.round s).touches.Within size := by
  have hheader : ∀ r ∈ s.touches.reads ++ [(s.mrvlIe, 4)], r.1 + r.2 ≤ size := by
    intro r hr
    rcases List.mem_append.mp hr with hr | hr
    · exact hs.reads r hr
    · rw [List.mem_singleton.mp hr]
      simp only [Cmd.tlvSize] at hin ⊢
      omega
  simp only [Cmd.round]
  split
  · next hssid =>
    refine ⟨fun r hr => ?_, fun i hi => ?_, hs.chans, fun n hn => ?_⟩
    · rcases List.mem_append.mp hr with hr | hr
      · exact hheader r hr
      · rw [List.mem_singleton.mp hr]
        simp only [Cmd.tlvSize] at hin ⊢
        omega
    · rcases List.mem_append.mp hi with hi | hi
      · exact hs.ssids i hi
      · rw [List.mem_singleton.mp hi]
        exact hroom
    · rcases List.mem_append.mp hn with hn | hn
      · exact hs.copies n hn
      · rw [List.mem_singleton.mp hn]
        exact hfits hssid
  · split
    · refine ⟨hheader, hs.ssids, fun i hi => ?_, hs.copies⟩
      rcases List.mem_append.mp hi with hi | hi
      · exact hs.chans i hi
      · have hi := List.mem_range.mp hi
        simp only [scanChannelMax]
        simp only [freq24G, List.length_cons, List.length_nil] at hi
        omega
    · exact ⟨hheader, hs.ssids, hs.chans, hs.copies⟩

end Rounds

section Totals

/-- What is left of the command behind offset `n`. -/
def Cmd.left (cmd : Cmd) (n : Nat) : UInt32 := cmd.size.toUInt32 - UInt32.ofNat n

theorem Cmd.left_sub (n k : Nat) : cmd.left n - UInt32.ofNat k = cmd.left (n + k) := by
  rw [Cmd.left, Cmd.left, UInt32.ofNat_add]
  grind

theorem Cmd.left_eq_zero {n : Nat} (hn : n < 2 ^ 32) : cmd.left n = 0 ↔ cmd.size.toNat = n := by
  rw [Cmd.left, UInt32.sub_eq_iff_eq_add, UInt32.zero_add, ← UInt32.toNat_inj,
    UInt16.toNat_toUInt32, UInt32.toNat_ofNat_of_lt' hn]

theorem Cmd.tlvSize_lt (a : Nat) : cmd.tlvSize a < 2 ^ 17 := by
  have := (cmd.ieLen a).toNat_lt
  simp only [Cmd.tlvSize]
  omega

theorem Cmd.tlvSize_pos (a : Nat) : 0 < cmd.tlvSize a := by
  simp only [Cmd.tlvSize]
  omega

end Totals

section Main

theorem Cmd.tlvbuffer_lt_second : tlvbuffer < cmd.second :=
  Nat.lt_add_of_pos_right (cmd.tlvSize_pos _)

theorem Cmd.second_mrvlIe : (cmd.round cmd.start).mrvlIe = cmd.second := rfl

theorem Cmd.left_start : cmd.start.ieTotalLen = 0 ↔ cmd.size.toNat = tlvbuffer :=
  cmd.left_eq_zero (by decide)

theorem Cmd.left_second :
    (cmd.round cmd.start).ieTotalLen = 0 ↔ cmd.size.toNat = cmd.second := by
  have htlv : tlvbuffer ≤ 15 := le_rfl
  have hlen := cmd.tlvSize_lt tlvbuffer
  rw [Cmd.round_ieTotalLen]
  change cmd.left tlvbuffer - UInt32.ofNat (cmd.tlvSize tlvbuffer) = 0 ↔ _
  rw [Cmd.left_sub, Cmd.left_eq_zero]
  · rfl
  · exact Nat.lt_of_le_of_lt (Nat.add_le_add_right htlv _) (by omega)

theorem Cmd.left_third :
    (cmd.round (cmd.round cmd.start)).ieTotalLen = 0 ↔
      cmd.size.toNat = cmd.second + cmd.tlvSize cmd.second := by
  have htlv : tlvbuffer ≤ 15 := le_rfl
  have hlen := cmd.tlvSize_lt tlvbuffer
  have hlen' := cmd.tlvSize_lt cmd.second
  rw [Cmd.round_ieTotalLen, Cmd.round_ieTotalLen, Cmd.second_mrvlIe]
  change cmd.left tlvbuffer - UInt32.ofNat (cmd.tlvSize tlvbuffer) - _ = 0 ↔ _
  rw [Cmd.left_sub, Cmd.left_sub, Cmd.left_eq_zero]
  · rfl
  · exact Nat.lt_of_le_of_lt (Nat.add_le_add_right (Nat.add_le_add_right htlv _) _) (by omega)

/-- The third place visited is not behind the second. -/
theorem not_tiles_three {e : Nat} (ht : cmd.Ends (cmd.round (cmd.round (cmd.round cmd.start))) t) :
    ¬ Tiles cmd tlvbuffer t.touches.visits e := by
  obtain ⟨vs, hvs⟩ := ht.visits
  rw [← hvs]
  simp only [Cmd.round_visits, Cmd.round_mrvlIe]
  rintro ⟨-, -, hthird, -⟩
  have hlt := cmd.tlvbuffer_lt_second
  change tlvbuffer + cmd.tlvSize cmd.second = cmd.second + cmd.tlvSize cmd.second at hthird
  omega

@[simp] theorem Cmd.start_ssidId : cmd.start.ssidId = 0 := rfl

theorem Cmd.second_ssidId : (cmd.round cmd.start).ssidId.toNat < scanSsidMax := by
  rw [Cmd.round_ssidId, Cmd.start_ssidId]
  split <;> decide

theorem Cmd.start_within (size : Nat) : cmd.start.touches.Within size := by
  constructor <;> exact fun _ hx => absurd hx List.not_mem_nil

theorem scanLaw_iff_atMostTwo (cmd : Cmd) : ScanLaw cmd ↔ cmd.AtMostTwo := by
  have hlt := cmd.tlvbuffer_lt_second
  have hlt' : cmd.second < cmd.second + cmd.tlvSize cmd.second :=
    Nat.lt_add_of_pos_right (cmd.tlvSize_pos _)
  constructor
  · rintro ⟨t, e, hends, htiles, -, hwithin⟩
    by_cases hnone : cmd.size.toNat = tlvbuffer
    · exact .inl hnone
    rw [Cmd.ends_round (mt Cmd.left_start.mp hnone)] at hends
    by_cases hone : cmd.size.toNat = cmd.second
    · obtain rfl := (Cmd.ends_done (Cmd.left_second.mpr hone)).mp hends
      exact .inr (.inl ⟨hone, fun hssid => hwithin.copies _ (Cmd.mem_round_copies hssid)⟩)
    rw [Cmd.ends_round (mt Cmd.left_second.mp hone)] at hends
    by_cases htwo : cmd.size.toNat = cmd.second + cmd.tlvSize cmd.second
    · obtain rfl := (Cmd.ends_done (Cmd.left_third.mpr htwo)).mp hends
      refine .inr (.inr ⟨htwo, fun hssid => hwithin.copies _ ?_, fun hssid => hwithin.copies _ ?_⟩)
      · rw [Cmd.round_copies]
        exact List.mem_append_left _ (Cmd.mem_round_copies hssid)
      · exact Cmd.mem_round_copies hssid
    rw [Cmd.ends_round (mt Cmd.left_third.mp htwo)] at hends
    exact absurd htiles (not_tiles_three hends)
  · rintro (hnone | ⟨hone, hfits⟩ | ⟨htwo, hfits, hfits'⟩)
    · exact ⟨cmd.start, tlvbuffer, (Cmd.ends_done (Cmd.left_start.mpr hnone)).mpr rfl, rfl,
        hnone.trans_lt hlt, cmd.start_within _⟩
    · refine ⟨cmd.round cmd.start, cmd.second, ?_, ?_, hone.trans_lt hlt', ?_⟩
      · rw [Cmd.ends_round (mt Cmd.left_start.mp (by omega)),
          Cmd.ends_done (Cmd.left_second.mpr hone)]
      · rw [Cmd.round_visits]
        exact ⟨rfl, rfl⟩
      · exact Cmd.round_within (cmd.start_within _) hone.ge Nat.zero_lt_two hfits
    · refine ⟨cmd.round (cmd.round cmd.start), cmd.second + cmd.tlvSize cmd.second, ?_,
        ?_, ?_, ?_⟩
      · rw [Cmd.ends_round (mt Cmd.left_start.mp (by omega)),
          Cmd.ends_round (mt Cmd.left_second.mp (by omega)),
          Cmd.ends_done (Cmd.left_third.mpr htwo)]
      · rw [Cmd.round_visits, Cmd.round_visits]
        exact ⟨rfl, rfl, rfl⟩
      · have := cmd.tlvSize_pos (cmd.second + cmd.tlvSize cmd.second)
        omega
      · have hfirst := Cmd.round_within (cmd.start_within _) (hlt'.trans_eq htwo.symm).le
          Nat.zero_lt_two hfits
        exact Cmd.round_within hfirst htwo.ge Cmd.second_ssidId hfits'

/-- Three empty TLVs: the third round is on the second of them again. -/
def threeEmpty : Cmd := fun k => if k = 2 then 27 else 0

theorem not_scanLaw_threeEmpty : ¬ ScanLaw threeEmpty := by
  rintro ⟨t, e, hends, htiles, -, -⟩
  have hstart : threeEmpty.start.ieTotalLen ≠ 0 := mt Cmd.left_start.mp (by decide)
  have hsecond : (threeEmpty.round threeEmpty.start).ieTotalLen ≠ 0 :=
    mt Cmd.left_second.mp (by decide)
  have hthird : (threeEmpty.round (threeEmpty.round threeEmpty.start)).ieTotalLen ≠ 0 :=
    mt Cmd.left_third.mp (by decide)
  rw [Cmd.ends_round hstart, Cmd.ends_round hsecond, Cmd.ends_round hthird] at hends
  exact not_tiles_three hends htiles

end Main

end BdkRtt.Driver.SdioScan
