import BdkRtt.Driver.ModelLaws
import Mathlib.Algebra.BigOperators.Group.List.Basic
import Mathlib.Algebra.Ring.Int.Defs

namespace BdkRtt.Driver

open Lib

section Users

/-- What a call adds to the number of users of a device: a handle given out counts one, and
a close of it that is reported as done takes one back. -/
def gain (i : Fin ddMaxDev) (x : Call × Answer) : Int :=
  match x.1 with
  | .register _ _ => 0
  | .open _ _ _ _ => if ddevGetIdFromHandle x.2.ret = slotId i then 1 else 0
  | .close handle =>
    if ddevGetIdFromHandle handle = slotId i ∧ x.2.ret = drvSuccess then -1 else 0

/-- The successful opens of a device less the successful closes. -/
def users (h : Machine.History Call Answer) (i : Fin ddMaxDev) : Int := (h.map (gain i)).sum

@[simp] theorem users_nil (i : Fin ddMaxDev) : users [] i = 0 := rfl

theorem users_concat (h : Machine.History Call Answer) (x : Call × Answer)
    (i : Fin ddMaxDev) : users (h ++ [x]) i = users h i + gain i x := by
  simp [users]

theorem gain_open (i j : Fin ddMaxDev) (devName : Option CString) (status : Bool)
    (opFlag result : UInt32) (a : Answer) (ha : a.ret = ddevMakeHandle (slotId i)) :
    gain j (.open devName status opFlag result, a) = if j = i then 1 else 0 := by
  simp only [gain, ha, idOf_makeHandle, slotId_inj, eq_comm]

theorem gain_close {handle : UInt32} {i : Fin ddMaxDev} (j : Fin ddMaxDev) (a : Answer)
    (hid : ddevGetIdFromHandle handle = slotId i) (ha : a.ret = drvSuccess) :
    gain j (.close handle, a) = if j = i then -1 else 0 := by
  simp only [gain, ha, hid, slotId_inj, and_true, eq_comm]

end Users

section Lifecycle

variable {nullName : CString} {tbl tbl' : DrvTable} {c : Call} {a : Answer}

/-- A close with a device's handle finds the device open, and an open does not find its
counter at the top. -/
def Paired (nullName : CString) (tbl : DrvTable) : Call → Prop
  | .register _ _ => True
  | .open devName status _ _ =>
    ∀ n ∈ devName, status = true → n.chars.length ≤ ddMaxNameLen →
      ∀ i ∈ findDev nullName tbl n, (tbl i).useCnt ≠ 0xFFFFFFFF
  | .close handle =>
    ddevGetIdFromHandle handle ≠ ddIdUnvalid →
      ∃ i, ddevGetIdFromHandle handle = slotId i ∧ (tbl i).state = .opened

instance (nullName : CString) (tbl : DrvTable) : ∀ c, Decidable (Paired nullName tbl c)
  | .register _ _ => inferInstanceAs (Decidable True)
  | .open devName status _ _ =>
    inferInstanceAs (Decidable (∀ n ∈ devName, status = true → n.chars.length ≤ ddMaxNameLen →
      ∀ i ∈ findDev nullName tbl n, (tbl i).useCnt ≠ 0xFFFFFFFF))
  | .close handle =>
    inferInstanceAs (Decidable (ddevGetIdFromHandle handle ≠ ddIdUnvalid →
      ∃ i, ddevGetIdFromHandle handle = slotId i ∧ (tbl i).state = .opened))

/-- The entry of a device with `u` users. -/
structure DrvDev.Counts (dev : DrvDev) (u : Int) : Prop where
  useCnt : (dev.useCnt.toNat : Int) = u
  opened : dev.state = .opened ↔ 0 < u

theorem DrvDev.Counts.idle {dev : DrvDev} {u : Int} (h : dev.Counts u)
    (hst : dev.state ≠ .opened) : u = 0 := by
  have hnot := mt h.opened.mpr hst
  have hnat := h.useCnt
  omega

theorem DrvDev.Counts.join {dev : DrvDev} {u : Int} (h : dev.Counts u)
    (hst : dev.state = .opened) (htop : dev.useCnt ≠ 0xFFFFFFFF) :
    DrvDev.Counts { dev with useCnt := dev.useCnt + 1 } (u + 1) := by
  have hpos := h.opened.mp hst
  have hnat := h.useCnt
  have hlt := dev.useCnt.toNat_lt
  have hne : dev.useCnt.toNat ≠ 0xFFFFFFFF := fun heq => htop (UInt32.toNat.inj heq)
  refine ⟨?_, ?_⟩
  · rw [UInt32.toNat_add, UInt32.toNat_one, Nat.mod_eq_of_lt (by omega)]
    omega
  · simp only [hst, true_iff]
    omega

theorem DrvDev.Counts.leave {dev : DrvDev} {u : Int} (h : dev.Counts u)
    (hst : dev.state = .opened) (hcnt : dev.useCnt - 1 ≠ 0) :
    DrvDev.Counts { dev with useCnt := dev.useCnt - 1 } (u - 1) ∧ 1 < u := by
  have hpos := h.opened.mp hst
  have hnat := h.useCnt
  have hne : dev.useCnt.toNat ≠ 1 := by
    intro heq
    apply hcnt
    rw [show dev.useCnt = 1 from UInt32.toNat.inj heq]
    rfl
  have hsub : (dev.useCnt - 1).toNat = dev.useCnt.toNat - 1 :=
    UInt32.toNat_sub_of_le _ _ (UInt32.le_iff_toNat_le.mpr (by rw [UInt32.toNat_one]; omega))
  refine ⟨⟨?_, ?_⟩, by omega⟩
  · simp only [hsub]
    omega
  · simp only [hst, true_iff]
    omega

theorem DrvDev.Counts.last {dev : DrvDev} {u : Int} (h : dev.Counts u)
    (hcnt : dev.useCnt - 1 = 0) : u = 1 := by
  have hone : dev.useCnt = 1 := by
    rw [← UInt32.sub_add_cancel dev.useCnt 1, hcnt]
    rfl
  rw [← h.useCnt, hone]
  rfl

theorem counts_set {u : Fin ddMaxDev → Int} {i j : Fin ddMaxDev} {dev : DrvDev} {g d : Int}
    (h : ∀ j, (tbl j).Counts (u j)) (hg : g = if j = i then d else 0)
    (hi : dev.Counts (u i + d)) : (setDev tbl i dev j).Counts (u j + g) := by
  rw [hg]
  by_cases hj : j = i
  · subst hj
    rwa [setDev_same, if_pos rfl]
  · rw [setDev_of_ne hj, if_neg hj, Int.add_zero]
    exact h j

theorem Paired.opened {handle : UInt32} {i : Fin ddMaxDev}
    (hc : Paired nullName tbl (.close handle))
    (hid : ddevGetIdFromHandle handle = slotId i) : (tbl i).state = .opened := by
  obtain ⟨k, hk, hst⟩ := hc (by rw [hid]; exact slotId_ne_unvalid i)
  rw [hid, slotId_inj] at hk
  rwa [hk]

theorem gain_openFails (j : Fin ddMaxDev) (devName : Option CString) (status : Bool)
    (opFlag result : UInt32) :
    gain j (.open devName status opFlag result, ⟨ddHandleUnvalid, none, none⟩) = 0 := by
  simp [gain, idOf_unvalid, (slotId_ne_unvalid j).symm]

theorem gain_closeFails (j : Fin ddMaxDev) (handle : UInt32) :
    gain j (.close handle, ⟨drvFailure, none, none⟩) = 0 := by
  simp [gain, show drvFailure ≠ drvSuccess by decide]

theorem Move.counts (hm : Move nullName tbl c tbl' a) (hc : Paired nullName tbl c)
    {u : Fin ddMaxDev → Int} (h : ∀ j, (tbl j).Counts (u j)) (j : Fin ddMaxDev) :
    (tbl' j).Counts (u j + gain j (c, a)) := by
  cases hm with
  | registerFails => simpa [gain] using h j
  | @registers n o i hfree =>
    refine counts_set h (d := 0) (by simp [gain]) ⟨?_, ?_⟩
    · simpa using (h i).useCnt
    · simp [(h i).idle (by simp [hfree])]
  | openFails => simpa [gain_openFails] using h j
  | @joins n f r i hlen hfind hst =>
    refine counts_set h (d := 1) ?_ ?_
    · rw [gain_open i _ _ _ _ _ _ rfl]
    · exact (h i).join hst (hc n rfl rfl hlen i hfind)
  | @opens n f r i hlen hfind hst =>
    refine counts_set h (d := 1) ?_ ⟨?_, ?_⟩
    · rw [gain_open i _ _ _ _ _ _ rfl]
    · simp [(h i).idle (by simp [hst])]
    · simp [(h i).idle (by simp [hst])]
  | closeFails => simpa [gain_closeFails] using h j
  | @leaves handle i hid hcnt =>
    refine counts_set h (d := -1) ?_ ?_
    · rw [gain_close _ _ hid rfl]
    · exact ((h i).leave (hc.opened hid) hcnt).1
  | @closes handle i hid hcnt =>
    refine counts_set h (d := -1) ?_ ⟨?_, ?_⟩
    · rw [gain_close _ _ hid rfl]
    · simp [(h i).last hcnt]
    · simp [(h i).last hcnt]

theorem Move.openCalled (hm : Move nullName tbl c tbl' a) {u : Fin ddMaxDev → Int}
    (h : ∀ j, (tbl j).Counts (u j)) (i : Fin ddMaxDev) :
    (∃ f, a.called = some (.open i f)) ↔
      u i = 0 ∧ u i + gain i (c, a) = 1 ∧ (tbl i).callsOpen = true := by
  cases hm with
  | registerFails => simp [gain]; omega
  | registers => simp [gain]; omega
  | openFails => simp [gain_openFails]; omega
  | @joins n f r k hlen hfind hst =>
    have hpos := (h k).opened.mp hst
    rw [gain_open k _ _ _ _ _ _ rfl]
    by_cases hik : i = k
    · subst hik
      simp; omega
    · simp [hik]; omega
  | @opens n f r k hlen hfind hst =>
    have hidle := (h k).idle (by simp [hst])
    rw [gain_open k _ _ _ _ _ _ rfl]
    by_cases hik : i = k
    · subst hik
      simp [hidle]
    · simp [hik, Ne.symm hik]; omega
  | closeFails => simp [gain_closeFails]; omega
  | @leaves handle k hid hcnt =>
    rw [gain_close _ _ hid rfl]
    split <;> simp <;> omega
  | @closes handle k hid hcnt =>
    rw [gain_close _ _ hid rfl]
    split <;> simp <;> omega

theorem Move.closeCalled (hm : Move nullName tbl c tbl' a) (hc : Paired nullName tbl c)
    {u : Fin ddMaxDev → Int} (h : ∀ j, (tbl j).Counts (u j)) (i : Fin ddMaxDev) :
    a.called = some (.close i) ↔
      u i = 1 ∧ u i + gain i (c, a) = 0 ∧ (tbl i).callsClose = true := by
  cases hm with
  | registerFails => simp [gain]; omega
  | registers => simp [gain]; omega
  | openFails => simp [gain_openFails]; omega
  | joins =>
    rw [gain_open _ _ _ _ _ _ _ rfl]
    split <;> simp <;> omega
  | opens =>
    rw [gain_open _ _ _ _ _ _ _ rfl]
    split <;> simp <;> omega
  | closeFails => simp [gain_closeFails]; omega
  | @leaves handle k hid hcnt =>
    have hmany := ((h k).leave (hc.opened hid) hcnt).2
    rw [gain_close _ _ hid rfl]
    by_cases hik : i = k
    · subst hik
      simp; omega
    · simp [hik]; omega
  | @closes handle k hid hcnt =>
    have hlast := (h k).last hcnt
    rw [gain_close _ _ hid rfl]
    by_cases hik : i = k
    · subst hik
      simp [hlast]
    · simp [hik, Ne.symm hik]; omega

/-- A close that takes no user back finds a handle that names no device. -/
theorem Move.close_unmatched {handle : UInt32} (hm : Move nullName tbl (.close handle) tbl' a)
    (hc : Paired nullName tbl (.close handle)) {u : Fin ddMaxDev → Int}
    (h : ∀ j, (tbl j).Counts (u j))
    (hno : ∀ i, ddevGetIdFromHandle handle = slotId i → u i ≤ 0) :
    tbl' = tbl ∧ a.ret = drvFailure ∧ a.called = none := by
  have hmatched : ∀ i, ddevGetIdFromHandle handle ≠ slotId i := by
    intro i hid
    have hpos := (h i).opened.mp (hc.opened hid)
    have hle := hno i hid
    omega
  cases hm with
  | closeFails => exact ⟨rfl, rfl, rfl⟩
  | leaves hid => exact absurd hid (hmatched _)
  | closes hid => exact absurd hid (hmatched _)

theorem counts {h : Machine.History Call Answer}
    (hr : (driverModel nullName).ReachesUnder (Paired nullName) h tbl) :
    ∀ i, (tbl i).Counts (users h i) := by
  refine hr.invariant (fun h tbl => ∀ i, (tbl i).Counts (users h i)) ?_ ?_
  · intro i
    exact ⟨rfl, by simp [driverModel, DrvDev.zero]⟩
  · intro h tbl c tbl' a hinv hc hstep i
    rw [users_concat]
    exact (Move.of_step hstep).counts hc hinv i

/-- With every close paired with an open, `use_cnt` is the number of users, a device is open
while it has any, `op->open` is called for the first of them and `op->close` for the last. -/
theorem device_lifecycle (nullName : CString) {h : Machine.History Call Answer} {tbl : DrvTable}
    (hr : (driverModel nullName).ReachesUnder (Paired nullName) h tbl) :
    (∀ i, ((tbl i).useCnt.toNat : Int) = users h i ∧
      ((tbl i).state = .opened ↔ 0 < users h i)) ∧
    ∀ c tbl' a, Paired nullName tbl c → (driverModel nullName).step tbl c = some (tbl', a) →
      (∀ i, (∃ f, a.called = some (.open i f)) ↔
        users h i = 0 ∧ users (h ++ [(c, a)]) i = 1 ∧ (tbl i).callsOpen = true) ∧
      (∀ i, a.called = some (.close i) ↔
        users h i = 1 ∧ users (h ++ [(c, a)]) i = 0 ∧ (tbl i).callsClose = true) ∧
      ∀ handle, c = .close handle →
        (∀ i, ddevGetIdFromHandle handle = slotId i → users h i ≤ 0) →
        tbl' = tbl ∧ a.ret = drvFailure ∧ a.called = none := by
  have hcounts := counts hr
  refine ⟨fun i => ⟨(hcounts i).useCnt, (hcounts i).opened⟩, fun c tbl' a hc hstep => ?_⟩
  have hm := Move.of_step hstep
  simp only [users_concat]
  refine ⟨hm.openCalled hcounts, hm.closeCalled hc hcounts, ?_⟩
  rintro handle rfl hno
  exact hm.close_unmatched hc hcounts hno

/-- The string of one letter. -/
def letter (b : UInt8) (h : b ≠ 0) : CString := ⟨[b], by simpa using h.symm⟩

def flashName : CString := letter 0x66 (by decide)

/-- What an open and a close of the device in the first entry are called with. -/
def flashCalls : List Call :=
  [.register (some flashName) (some ⟨true, true⟩), .open (some flashName) true 0 0,
    .open (some flashName) true 0 0, .close 0xA5A50000]

theorem device_lifecycle_one_left :
    ∃ h tbl, (driverModel flashName).ReachesUnder (Paired flashName) h tbl ∧
      users h 0 = 1 ∧ (tbl 0).useCnt = 1 ∧ (tbl 0).state = .opened := by
  have hrun : ∃ h tbl, (driverModel flashName).exec flashCalls = some (h, tbl) ∧
      users h 0 = 1 ∧ (tbl 0).useCnt = 1 := ⟨_, _, rfl, rfl, rfl⟩
  obtain ⟨h, tbl, hx, hu, hcnt⟩ := hrun
  have hr := Machine.reachesUnder_of_exec (C := Paired flashName) (by decide) hx
  refine ⟨h, tbl, hr, hu, hcnt, ((device_lifecycle _ hr).1 0).2.mpr ?_⟩
  rw [hu]
  decide

/-- A close nobody's open goes with succeeds and wraps the counter. -/
theorem close_unopened_wraps :
    ∃ nullName h tbl tbl' a, (driverModel nullName).Reaches h tbl ∧ (∀ i, users h i = 0) ∧
      (driverModel nullName).step tbl (.close 0xA5A50000) = some (tbl', a) ∧
      (tbl 0).useCnt = 0 ∧ a.ret = drvSuccess ∧ (tbl' 0).useCnt = 0xFFFFFFFF := by
  have hrun : ∃ h tbl tbl' a, (driverModel flashName).exec
      [.register (some flashName) (some ⟨true, true⟩)] = some (h, tbl) ∧
      (∀ i, users h i = 0) ∧
      (driverModel flashName).step tbl (.close 0xA5A50000) = some (tbl', a) ∧
      (tbl 0).useCnt = 0 ∧ a.ret = drvSuccess ∧ (tbl' 0).useCnt = 0xFFFFFFFF :=
    ⟨_, _, _, _, rfl, fun _ => rfl, rfl, rfl, rfl, rfl⟩
  obtain ⟨h, tbl, tbl', a, hx, hrest⟩ := hrun
  exact ⟨flashName, h, tbl, tbl', a, Machine.reaches_of_exec hx, hrest⟩

end Lifecycle

end BdkRtt.Driver
