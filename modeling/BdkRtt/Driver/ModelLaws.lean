import BdkRtt.Driver.Model

namespace BdkRtt.Driver

open Lib

section Table

@[simp] theorem setDev_same (tbl : DrvTable) (i : Fin ddMaxDev) (dev : DrvDev) :
    setDev tbl i dev i = dev := if_pos rfl

theorem setDev_of_ne {tbl : DrvTable} {i j : Fin ddMaxDev} {dev : DrvDev} (h : j ≠ i) :
    setDev tbl i dev j = tbl j := if_neg h

theorem idOf_makeHandle (i : Fin ddMaxDev) :
    ddevGetIdFromHandle (ddevMakeHandle (slotId i)) = slotId i := by
  decide +revert

theorem slotId_ne_unvalid (i : Fin ddMaxDev) : slotId i ≠ ddIdUnvalid := by
  decide +revert

theorem toNat_slotId (i : Fin ddMaxDev) : (slotId i).toNat = i := by
  decide +revert

theorem slotId_inj {i j : Fin ddMaxDev} : slotId i = slotId j ↔ i = j := by
  constructor
  · intro h
    have := congrArg UInt32.toNat h
    rw [toNat_slotId, toNat_slotId] at this
    exact Fin.ext this
  · rintro rfl
    rfl

theorem idOf_unvalid : ddevGetIdFromHandle ddHandleUnvalid = ddIdUnvalid := by decide

theorem devAt_eq_some {id : UInt32} {i : Fin ddMaxDev} : devAt id = some i ↔ id = slotId i := by
  unfold devAt
  constructor
  · intro h
    split at h
    next hlt =>
      cases h
      exact UInt32.toNat.inj (toNat_slotId ⟨id.toNat, hlt⟩).symm
    next => cases h
  · rintro rfl
    rw [dif_pos (by rw [toNat_slotId]; exact i.isLt)]
    exact congrArg some (Fin.ext (toNat_slotId i))

end Table

section Steps

variable {nullName : CString} {tbl tbl' : DrvTable} {c : Call} {a : Answer}

/-- What one call does, by outcome. -/
inductive Move (nullName : CString) (tbl : DrvTable) : Call → DrvTable → Answer → Prop
  | registerFails {n o} (hno : n = none ∨ o = none) :
    Move nullName tbl (.register n o) tbl ⟨drvFailure, none, none⟩
  | registers {n o i} (hfree : (tbl i).state = .nodevice) :
    Move nullName tbl (.register (some n) (some o))
      (setDev tbl i { tbl i with name := some n, op := some o, state := .closed })
      ⟨drvSuccess, none, none⟩
  | openFails {n b f r}
    (hno : ∀ m ∈ n, b = false ∨ ddMaxNameLen < m.chars.length) :
    Move nullName tbl (.open n b f r) tbl ⟨ddHandleUnvalid, none, none⟩
  | joins {n f r i} (hlen : n.chars.length ≤ ddMaxNameLen)
    (hfind : findDev nullName tbl n = some i) (hst : (tbl i).state = .opened) :
    Move nullName tbl (.open (some n) true f r)
      (setDev tbl i { tbl i with useCnt := (tbl i).useCnt + 1 })
      ⟨ddevMakeHandle (slotId i), some drvFailure, none⟩
  | opens {n f r i} (hlen : n.chars.length ≤ ddMaxNameLen)
    (hfind : findDev nullName tbl n = some i) (hst : (tbl i).state = .closed) :
    Move nullName tbl (.open (some n) true f r)
      (setDev tbl i { tbl i with state := .opened, useCnt := 1 })
      ⟨ddevMakeHandle (slotId i), some (if (tbl i).callsOpen then r else drvFailure),
        if (tbl i).callsOpen then some (.open i f) else none⟩
  | closeFails {handle} (hid : ddevGetIdFromHandle handle = ddIdUnvalid) :
    Move nullName tbl (.close handle) tbl ⟨drvFailure, none, none⟩
  | leaves {handle i} (hid : ddevGetIdFromHandle handle = slotId i)
    (hcnt : (tbl i).useCnt - 1 ≠ 0) :
    Move nullName tbl (.close handle)
      (setDev tbl i { tbl i with useCnt := (tbl i).useCnt - 1 }) ⟨drvSuccess, none, none⟩
  | closes {handle i} (hid : ddevGetIdFromHandle handle = slotId i)
    (hcnt : (tbl i).useCnt - 1 = 0) :
    Move nullName tbl (.close handle)
      (setDev tbl i { tbl i with useCnt := 0, state := .closed })
      ⟨drvSuccess, none, if (tbl i).callsClose then some (.close i) else none⟩

theorem Move.of_register {n : Option CString} {o : Option DdOperations}
    (h : ddevRegisterDev tbl n o = some (tbl', a)) :
    Move nullName tbl (.register n o) tbl' a := by
  cases n with
  | none =>
    cases h
    exact .registerFails (.inl rfl)
  | some n =>
    cases o with
    | none =>
      cases h
      exact .registerFails (.inr rfl)
    | some o =>
      simp only [ddevRegisterDev] at h
      split at h
      next => cases h
      next i hi =>
        have hfree := List.find?_some hi
        simp only [Bool.and_eq_true, decide_eq_true_eq] at hfree
        cases h
        exact .registers hfree.2

theorem Move.of_open {n : Option CString} {b : Bool} {f r : UInt32}
    (h : ddevOpen nullName tbl n b f r = some (tbl', a)) :
    Move nullName tbl (.open n b f r) tbl' a := by
  cases n with
  | none =>
    cases h
    exact .openFails nofun
  | some n =>
    simp only [ddevOpen] at h
    split at h
    next hno =>
      cases h
      refine .openFails fun m hm => ?_
      cases hm
      exact hno
    next hok =>
      simp only [not_or, Nat.not_lt, Bool.not_eq_false] at hok
      obtain ⟨rfl, hlen⟩ := hok
      split at h
      next => cases h
      next i hfind =>
        split at h
        next hst =>
          cases h
          exact .joins hlen hfind hst
        next hst =>
          cases h
          exact .opens hlen hfind hst
        all_goals cases h

theorem Move.of_close {handle : UInt32} (h : ddevClose tbl handle = some (tbl', a)) :
    Move nullName tbl (.close handle) tbl' a := by
  simp only [ddevClose] at h
  split at h
  next hid =>
    cases h
    exact .closeFails hid
  next =>
    split at h
    next => cases h
    next i hi =>
      have hid := devAt_eq_some.mp hi
      split at h
      next hcnt =>
        simp only [hcnt, Option.some.injEq, Prod.mk.injEq] at h
        obtain ⟨rfl, rfl⟩ := h
        exact .closes hid hcnt
      next hcnt =>
        cases h
        exact .leaves hid hcnt

theorem Move.of_step (h : (driverModel nullName).step tbl c = some (tbl', a)) :
    Move nullName tbl c tbl' a := by
  cases c with
  | register n o => exact .of_register h
  | «open» n b f r => exact .of_open h
  | close handle => exact .of_close h

end Steps

end BdkRtt.Driver
