import BdkRtt.Lib.ExchangeSort
import BdkRtt.Wlan.ScanRst
import Mathlib.Data.Int.Order.Basic
import Mathlib.Data.List.Perm.Basic
import Mathlib.Data.List.Range

namespace BdkRtt.Wlan.ScanRst

open Lib

section Law

def addrs (res : List ScanRstItem) : List Nat := res.map (·.addr)

/-- How many hold the set: those who have its pointer, and the supplicant. -/
def Scan.holders (s : Scan) (k : Nat) : Nat :=
  s.getters.count k + if s.sScanResultUploadPtr = some k then 1 else 0

/-- What is promised of the sets and their items, after each call. -/
structure ScanLaw (h : Machine.History Event Answer) (s : Scan) : Prop where
  shellsOnce : s.freedShells.Nodup
  itemsOnce : s.freedItems.Nodup
  /-- A shell that is not freed can still be. -/
  shellsKept : ∀ k < s.shells, k ∉ s.freedShells → s.scanRstSetPtr = some k ∨ 0 < s.holders k
  itemsKept : ∀ i < s.items, i ∉ s.freedItems →
    ∃ k < s.shells, k ∉ s.freedShells ∧ i ∈ addrs (s.sets k).res
  held : ∀ k, 0 < s.holders k → k ∉ s.freedShells ∧ ∀ i ∈ addrs (s.sets k).res, i ∉ s.freedItems
  counted : ∀ k < s.shells, k ∉ s.freedShells → (s.sets k).ref.toNat = s.holders k
  pointed : ∀ k, s.scanRstSetPtr = some k ∨ s.sScanResultUploadPtr = some k → k ∉ s.freedShells
  atNull : ∀ x ∈ h, x.2.atNull = false

/-- There is a set, and its count has room for one more. -/
def Scan.CanGet (s : Scan) : Prop :=
  match s.scanRstSetPtr with
  | some k => (s.sets k).ref ≠ 65535
  | none => False

instance (s : Scan) : Decidable s.CanGet := by
  unfold Scan.CanGet
  cases s.scanRstSetPtr <;> infer_instance

/-- A new scan does not begin while someone other than the supplicant holds the results; a
connection is indicated when there are none, or the supplicant alone holds them; and results are
asked for when there are some, by the supplicant once. -/
def Orderly (s : Scan) : Event → Prop
  | .scanuResultInd .. => s.resultfulScanCfm = true →
    ∀ k ∈ s.getters, s.scanRstSetPtr ≠ some k
  | .smConnectInd => ∀ k ∈ s.scanRstSetPtr.toList,
    k ∉ s.getters ∧ s.sScanResultUploadPtr = some k
  | .srGetScanResults => s.CanGet
  | .wpaGetScanRst => s.CanGet ∧ s.sScanResultUploadPtr = none
  | .wpaHostapdReleaseScanRst => s.sScanResultUploadPtr = none → s.CanGet
  | .scanuStartCfm | .srReleaseScanResults _ | .wpaSendAssocReq => True

instance : ∀ s e, Decidable (Orderly s e)
  | _, .scanuResultInd .. => inferInstanceAs (Decidable (_ → ∀ _ ∈ _, _))
  | _, .smConnectInd => inferInstanceAs (Decidable (∀ _ ∈ _, _ ∧ _))
  | s, .srGetScanResults => inferInstanceAs (Decidable s.CanGet)
  | s, .wpaGetScanRst => inferInstanceAs (Decidable (s.CanGet ∧ _))
  | s, .wpaHostapdReleaseScanRst => inferInstanceAs (Decidable (_ → s.CanGet))
  | _, .scanuStartCfm | _, .srReleaseScanResults _ | _, .wpaSendAssocReq =>
    inferInstanceAs (Decidable True)

end Law

section Inv

variable {s : Scan} {k d : Nat}

/-- The items of the set that `scan_rst_set_ptr` points to. -/
def Scan.current (s : Scan) : List ScanRstItem :=
  s.scanRstSetPtr.elim [] fun k => (s.sets k).res

/-- The set at `scan_rst_set_ptr` is the only one that is not freed, whoever holds a set holds this
one, and its count is `d` above the number of those. -/
structure Inv (d : Nat) (s : Scan) : Prop where
  shells : (s.freedShells ++ s.scanRstSetPtr.toList).Perm (List.range s.shells)
  items : (s.freedItems ++ addrs s.current).Perm (List.range s.items)
  getters : ∀ k ∈ s.getters, s.scanRstSetPtr = some k
  upload : ∀ k, s.sScanResultUploadPtr = some k → s.scanRstSetPtr = some k
  counted : ∀ k, s.scanRstSetPtr = some k → (s.sets k).ref.toNat = s.holders k + d

theorem inv_initial : Inv 0 initial where
  shells := .refl _
  items := .refl _
  getters := nofun
  upload := nofun
  counted := nofun

theorem Inv.of_holders (h : Inv d s) (hk : 0 < s.holders k) : s.scanRstSetPtr = some k := by
  unfold Scan.holders at hk
  split at hk
  case isTrue hup => exact h.upload k hup
  case isFalse => exact h.getters k (List.count_pos_iff.mp hk)

theorem Inv.items_at (h : Inv d s) (hk : s.scanRstSetPtr = some k) :
    (s.freedItems ++ addrs (s.sets k).res).Perm (List.range s.items) := by
  have hitems := h.items
  rw [Scan.current, hk] at hitems
  exact hitems

theorem Inv.law (h : Inv 0 s) {hist : Machine.History Event Answer}
    (hnull : ∀ x ∈ hist, x.2.atNull = false) : ScanLaw hist s := by
  have hnodup := h.shells.nodup_iff.mpr List.nodup_range
  have hitems := h.items.nodup_iff.mpr List.nodup_range
  have hcurrent : ∀ k, s.scanRstSetPtr = some k → k ∉ s.freedShells := by
    intro k hk hfree
    rw [hk] at hnodup
    exact (List.nodup_append.mp hnodup).2.2 k hfree k List.mem_cons_self rfl
  have hptr : ∀ k < s.shells, k ∉ s.freedShells → s.scanRstSetPtr = some k := by
    intro k hk hfree
    have hmem := h.shells.mem_iff.mpr (List.mem_range.mpr hk)
    exact Option.mem_toList.mp ((List.mem_append.mp hmem).resolve_left hfree)
  exact {
    shellsOnce := (List.nodup_append.mp hnodup).1
    itemsOnce := (List.nodup_append.mp hitems).1
    shellsKept := fun k hk hfree => .inl (hptr k hk hfree)
    itemsKept := fun i hi hfree => by
      have hmem := h.items.mem_iff.mpr (List.mem_range.mpr hi)
      have hmem := (List.mem_append.mp hmem).resolve_left hfree
      cases hk : s.scanRstSetPtr with
      | none =>
        rw [Scan.current, hk] at hmem
        cases hmem
      | some k =>
        rw [Scan.current, hk] at hmem
        have hlt : k < s.shells :=
          List.mem_range.mp (h.shells.mem_iff.mp (by simp [hk]))
        exact ⟨k, hlt, hcurrent k hk, hmem⟩
    held := fun k hk => by
      have hptr := h.of_holders hk
      refine ⟨hcurrent k hptr, fun i hi hfree => ?_⟩
      rw [Scan.current, hptr] at hitems
      exact (List.nodup_append.mp hitems).2.2 i hfree i hi rfl
    counted := fun k hk hfree => h.counted k (hptr k hk hfree)
    pointed := fun k hk => hcurrent k (hk.elim id (h.upload k))
    atNull := hnull }

end Inv

section Holders

variable {s : Scan} {k d : Nat}

@[simp] theorem setSet_self (x : ScanRstUpload) : (s.setSet k x).sets k = x :=
  Function.update_self ..

/-- The count of the set is another one. -/
theorem Inv.setRef (h : Inv d s) (hk : s.scanRstSetPtr = some k) {ref : UInt16} {d' : Nat}
    (hcount : ref.toNat = s.holders k + d') : Inv d' (s.setRef k ref) where
  shells := h.shells
  items := by
    have hcurrent : (s.setRef k ref).current = s.current := by
      rw [Scan.current, Scan.current, show (s.setRef k ref).scanRstSetPtr = some k from hk, hk]
      change ((s.setSet k _).sets k).res = _
      rw [setSet_self]
      rfl
    rw [hcurrent]
    exact h.items
  getters := h.getters
  upload := h.upload
  counted j hj := by
    obtain rfl : k = j := Option.some.inj (hk.symm.trans hj)
    change ((s.setSet k _).sets k).ref.toNat = _
    rw [setSet_self]
    exact hcount

theorem Inv.addGetter (h : Inv (d + 1) s) (hk : s.scanRstSetPtr = some k) :
    Inv d { s with getters := k :: s.getters } where
  shells := h.shells
  items := h.items
  getters j hj := by
    rcases List.mem_cons.mp hj with rfl | hj
    · exact hk
    · exact h.getters j hj
  upload := h.upload
  counted j hj := by
    obtain rfl : k = j := Option.some.inj (hk.symm.trans hj)
    have hcount := h.counted k hk
    simp only [Scan.holders, List.count_cons_self] at hcount ⊢
    omega

theorem Inv.dropGetter (h : Inv d s) (hk : k ∈ s.getters) :
    Inv (d + 1) { s with getters := s.getters.erase k } where
  shells := h.shells
  items := h.items
  getters j hj := h.getters j (List.mem_of_mem_erase hj)
  upload := h.upload
  counted j hj := by
    obtain rfl : k = j := Option.some.inj ((h.getters k hk).symm.trans hj)
    have hcount := h.counted k hj
    have hpos := List.count_pos_iff.mpr hk
    simp only [Scan.holders, List.count_erase_self] at hcount ⊢
    omega

theorem Inv.setUpload (h : Inv (d + 1) s) (hk : s.scanRstSetPtr = some k)
    (hup : s.sScanResultUploadPtr = none) : Inv d { s with sScanResultUploadPtr := some k } where
  shells := h.shells
  items := h.items
  getters := h.getters
  upload j hj := hj ▸ hk
  counted j hj := by
    obtain rfl : k = j := Option.some.inj (hk.symm.trans hj)
    have hcount := h.counted k hk
    simp only [Scan.holders, hup, if_pos, reduceCtorEq, if_false] at hcount ⊢
    omega

theorem Inv.dropUpload (h : Inv d s) (hk : s.sScanResultUploadPtr = some k) :
    Inv (d + 1) { s with sScanResultUploadPtr := none } where
  shells := h.shells
  items := h.items
  getters := h.getters
  upload := nofun
  counted j hj := by
    obtain rfl : k = j := Option.some.inj ((h.upload k hk).symm.trans hj)
    have hcount := h.counted k hj
    simp only [Scan.holders, hk, if_pos, reduceCtorEq, if_false] at hcount ⊢
    omega

/-- Nobody holds a set when there is none. -/
theorem Inv.none_held (h : Inv d s) (hk : s.scanRstSetPtr = none) :
    s.getters = [] ∧ s.sScanResultUploadPtr = none := by
  constructor
  · refine List.eq_nil_iff_forall_not_mem.mpr fun k hmem => ?_
    have hptr := h.getters k hmem
    rw [hk] at hptr
    cases hptr
  · refine Option.eq_none_iff_forall_not_mem.mpr fun k hmem => ?_
    have hptr := h.upload k hmem
    rw [hk] at hptr
    cases hptr

end Holders

section Release

variable {s : Scan} {k d : Nat}

theorem foldl_srFreeResultItem (res : List ScanRstItem) (s : Scan) :
    res.foldl Scan.srFreeResultItem s = { s with freedItems := s.freedItems ++ addrs res } := by
  induction res generalizing s with
  | nil => simp [addrs]
  | cons x xs ih =>
    rw [List.foldl_cons, ih]
    simp [Scan.srFreeResultItem, addrs]

/-- What the last release of a set leaves. -/
def Scan.released (s : Scan) (k : Nat) : Scan :=
  { s.setSet k { ref := 0, res := [] } with
    freedShells := s.freedShells ++ [k]
    freedItems := s.freedItems ++ addrs (s.sets k).res
    scanRstSetPtr := none
    resultfulScanCfm := false
    sScanResultUploadPtr := none }

theorem srFreeAll_eq : s.srFreeAll k = { s.setSet k { ref := 0, res := [] } with
    freedShells := s.freedShells ++ [k]
    freedItems := s.freedItems ++ addrs (s.sets k).res } := by
  rw [Scan.srFreeAll, foldl_srFreeResultItem]
  rfl

theorem setSet_setSet (x y : ScanRstUpload) : (s.setSet k x).setSet k y = s.setSet k y := by
  simp only [Scan.setSet, Function.update_idem]

@[simp] theorem setRef_self (ref : UInt16) :
    (s.setRef k ref).sets k = { s.sets k with ref := ref } :=
  setSet_self _

theorem released_setRef (ref : UInt16) : (s.setRef k ref).released k = s.released k := by
  simp only [Scan.released, setRef_self]
  rw [Scan.setRef, setSet_setSet]
  rfl

theorem srRelease_last (h : (s.sets k).ref = 1) : s.srReleaseScanResults k = s.released k := by
  have h0 : (s.sets k).ref ≠ 0 := by
    rw [h]
    decide
  rw [Scan.srReleaseScanResults, if_neg h0]
  simp only [setRef_self, h]
  rw [if_neg (by decide), srFreeAll_eq]
  exact released_setRef _

theorem srRelease_more (h0 : (s.sets k).ref ≠ 0) (h1 : (s.sets k).ref ≠ 1) :
    s.srReleaseScanResults k = s.setRef k ((s.sets k).ref - 1) := by
  have hmore : (s.sets k).ref - 1 ≠ 0 := fun h => h1 (by grind)
  rw [Scan.srReleaseScanResults, if_neg h0]
  simp only [setRef_self]
  rw [if_pos hmore]

theorem srRelease_none (h : (s.sets k).ref = 0) : s.srReleaseScanResults k = s := if_pos h

theorem srFlush_eq : s.srFlushScanResults k = s.released k := by
  rw [Scan.srFlushScanResults, srRelease_last (by rw [setRef_self]), released_setRef]

/-- Freeing the set that nobody holds. -/
theorem Inv.released (h : Inv d s) (hk : s.scanRstSetPtr = some k)
    (hgetters : k ∉ s.getters) : Inv 0 (s.released k) where
  shells := by
    have hshells := h.shells
    rw [hk] at hshells
    change (s.freedShells ++ [k] ++ []).Perm (List.range s.shells)
    rw [List.append_nil]
    exact hshells
  items := by
    change (s.freedItems ++ addrs (s.sets k).res ++ []).Perm (List.range s.items)
    rw [List.append_nil]
    exact h.items_at hk
  getters j hj := by
    obtain rfl : k = j := Option.some.inj (hk.symm.trans (h.getters j hj))
    exact absurd hj hgetters
  upload := nofun
  counted := nofun

/-- Giving back one hold that is counted. -/
theorem Inv.release (h : Inv 1 s) (hk : s.scanRstSetPtr = some k) :
    Inv 0 (s.srReleaseScanResults k) := by
  have hcount := h.counted k hk
  by_cases h1 : (s.sets k).ref = 1
  · rw [srRelease_last h1]
    refine h.released hk fun hmem => ?_
    have hpos := List.count_pos_iff.mpr hmem
    rw [h1, Scan.holders, show (1 : UInt16).toNat = 1 from rfl] at hcount
    omega
  · have h0 : (s.sets k).ref ≠ 0 := by
      intro h0
      rw [h0, show (0 : UInt16).toNat = 0 from rfl] at hcount
      omega
    rw [srRelease_more h0 h1]
    refine h.setRef hk ?_
    have hle : (1 : UInt16) ≤ (s.sets k).ref := by
      rw [UInt16.le_iff_toNat_le, hcount]
      exact Nat.le_add_left ..
    rw [UInt16.toNat_sub_of_le _ _ hle, hcount]
    rfl

/-- Counting one hold more. -/
theorem Inv.count (h : Inv d s) (hk : s.scanRstSetPtr = some k)
    (hroom : (s.sets k).ref ≠ 65535) : Inv (d + 1) (s.setRef k ((s.sets k).ref + 1)) := by
  refine h.setRef hk ?_
  have hlt : (s.sets k).ref.toNat ≠ 65535 := fun h => hroom (UInt16.toNat_inj.mp h)
  have hbound := (s.sets k).ref.toNat_lt
  rw [UInt16.toNat_add, Nat.mod_eq_of_lt, h.counted k hk]
  · rfl
  · change _ + 1 < 65536
    omega

end Release

section Clients

variable {s : Scan} {k d : Nat}

theorem canGet_iff : s.CanGet ↔ ∃ k, s.scanRstSetPtr = some k ∧ (s.sets k).ref ≠ 65535 := by
  unfold Scan.CanGet
  cases s.scanRstSetPtr with
  | none => exact iff_of_false id fun ⟨_, h, _⟩ => nomatch h
  | some k => exact ⟨fun h => ⟨k, rfl, h⟩, fun ⟨_, h, hroom⟩ => Option.some.inj h ▸ hroom⟩

theorem srGet_some (hk : s.scanRstSetPtr = some k) :
    s.srGetScanResults = (s.setRef k ((s.sets k).ref + 1), some k, false) := by
  rw [Scan.srGetScanResults, hk]

/-- It makes no difference whether the supplicant gives up its pointer before or after. -/
theorem srRelease_upload : { s.srReleaseScanResults k with sScanResultUploadPtr := none } =
    { s with sScanResultUploadPtr := none }.srReleaseScanResults k := by
  by_cases h0 : (s.sets k).ref = 0
  · rw [srRelease_none h0]
    exact (if_pos h0).symm
  · by_cases h1 : (s.sets k).ref = 1
    · rw [srRelease_last h1]
      exact (srRelease_last (s := { s with sScanResultUploadPtr := none }) h1).symm
    · rw [srRelease_more h0 h1]
      exact (srRelease_more (s := { s with sScanResultUploadPtr := none }) h0 h1).symm

theorem Inv.releaseUpload (h : Inv 0 s) (hk : s.sScanResultUploadPtr = some k) :
    Inv 0 { s.srReleaseScanResults k with sScanResultUploadPtr := none } := by
  rw [srRelease_upload]
  exact (h.dropUpload hk).release (h.upload k hk)

theorem Inv.srGet (h : Inv 0 s) (hroom : s.CanGet) :
    Inv 0 { s.srGetScanResults.1 with
      getters := s.srGetScanResults.2.1.toList ++ s.srGetScanResults.1.getters } := by
  obtain ⟨k, hk, hroom⟩ := canGet_iff.mp hroom
  rw [srGet_some hk]
  exact (h.count hk hroom).addGetter hk

theorem Inv.wpaGet (h : Inv 0 s) (hroom : s.CanGet) (hup : s.sScanResultUploadPtr = none) :
    Inv 0 s.wpaGetScanRst.1 := by
  obtain ⟨k, hk, hroom⟩ := canGet_iff.mp hroom
  rw [Scan.wpaGetScanRst, srGet_some hk]
  exact (h.count hk hroom).setUpload hk hup

theorem Inv.wpaHostapdRelease (h : Inv 0 s)
    (hroom : s.sScanResultUploadPtr = none → s.CanGet) : Inv 0 s.wpaHostapdReleaseScanRst.1 := by
  unfold Scan.wpaHostapdReleaseScanRst
  split
  case h_1 k hup => exact h.releaseUpload hup
  case h_2 hup =>
    obtain ⟨k, hk, hroom⟩ := canGet_iff.mp (hroom hup)
    rw [srGet_some hk]
    exact (h.count hk hroom).release hk

theorem Inv.wpaSendAssocReq (h : Inv 0 s) : Inv 0 s.wpaSendAssocReq := by
  unfold Scan.wpaSendAssocReq
  split
  case h_1 k hup => exact h.releaseUpload hup
  case h_2 => exact h

theorem Inv.smConnectInd (h : Inv 0 s) (hk : Orderly s .smConnectInd) : Inv 0 s.smConnectInd := by
  unfold Scan.smConnectInd
  split
  case h_2 => exact h
  case h_1 k hptr =>
    obtain ⟨hgetters, hup⟩ := hk k (Option.mem_toList.mpr hptr)
    have hone : (s.sets k).ref = 1 := by
      apply UInt16.toNat_inj.mp
      rw [h.counted k hptr, Scan.holders, List.count_eq_zero.mpr hgetters, if_pos hup]
      rfl
    rw [srRelease_last hone]
    exact h.released hptr hgetters

end Clients

section Results

variable {s : Scan} {k d : Nat}

theorem sortRound_eq (x : ScanRstItem) (xs : List ScanRstItem) :
    sortRound x xs = ExchangeSort.round ScanRstItem.level x xs := by
  induction xs generalizing x with
  | nil => rfl
  | cons y ys ih => rw [sortRound, ExchangeSort.round, ih, ih]

theorem sortScanResult_eq (n : Nat) (xs : List ScanRstItem) :
    sortScanResult n xs = ExchangeSort.rounds ScanRstItem.level n xs := by
  induction n generalizing xs with
  | zero => cases xs <;> rfl
  | succ n ih =>
    cases xs with
    | nil => rfl
    | cons x xs => rw [sortScanResult, ExchangeSort.rounds, sortRound_eq, ih]

/-- The results of the set at `scan_rst_set_ptr` are others, and as many items have been allocated
and freed in between. -/
theorem Inv.setRes (h : Inv d s) (hk : s.scanRstSetPtr = some k) {res : List ScanRstItem}
    {n : Nat} {freed : List Nat}
    (hitems : (freed ++ addrs res).Perm (List.range n)) :
    Inv d { s.setRes k res with items := n, freedItems := freed } where
  shells := h.shells
  items := by
    change (freed ++ addrs (s.setRes k res).current).Perm (List.range n)
    have hcurrent : (s.setRes k res).current = res := by
      rw [Scan.current, show (s.setRes k res).scanRstSetPtr = some k from hk]
      change ((s.setSet k _).sets k).res = res
      rw [setSet_self]
    rw [hcurrent]
    exact hitems
  getters := h.getters
  upload := h.upload
  counted j hj := by
    obtain rfl : k = j := Option.some.inj (hk.symm.trans hj)
    change ((s.setSet k _).sets k).ref.toNat = _
    rw [setSet_self]
    exact h.counted k hk

theorem replace_perm {res : List ScanRstItem} {i : Nat} {old : ScanRstItem}
    (hi : res[i]? = some old) (item : ScanRstItem) :
    (old :: res.set i item).Perm (item :: res) := by
  induction res generalizing i with
  | nil => cases hi
  | cons x xs ih =>
    cases i with
    | zero =>
      obtain rfl : x = old := Option.some.inj hi
      exact .swap ..
    | succ i => exact (List.Perm.swap ..).trans (((ih hi).cons x).trans (.swap ..))

theorem Inv.mhdrScanuResultInd (h : Inv d s) (hk : s.scanRstSetPtr = some k)
    (inCountrycode : UInt8 → Bool) (f : Frame) (malloc : Bool) :
    Inv d (s.mhdrScanuResultInd k inCountrycode f malloc) := by
  have hitems := h.items_at hk
  unfold Scan.mhdrScanuResultInd
  dsimp only
  split
  case isTrue => exact h
  case isFalse =>
    split
    case isTrue => exact h
    case isFalse =>
      split
      case h_1 => exact h
      case h_2 replaceIndex hdup =>
        split
        case isTrue => exact h
        case isFalse =>
          split
          case h_1 i old hat =>
            obtain ⟨j, -, hmap⟩ := Option.bind_eq_some_iff.mp hat
            obtain ⟨x, hx, heq⟩ := Option.map_eq_some_iff.mp hmap
            obtain ⟨rfl, rfl⟩ := Prod.mk.inj heq
            refine h.setRes hk ?_
            change (s.freedItems ++ [x.addr] ++ addrs ((s.sets k).res.set j _)).Perm
              (List.range (s.items + 1))
            rw [List.append_assoc, List.range_succ]
            refine (((replace_perm hx _).map _).append_left s.freedItems).trans ?_
            refine List.perm_middle.trans ?_
            exact (hitems.cons _).trans (List.perm_append_singleton ..).symm
          case h_2 =>
            refine h.setRes hk ?_
            rw [addrs, List.map_append, ← List.append_assoc, List.range_succ]
            exact hitems.append_right _

theorem Inv.scanuStartCfm (h : Inv d s) : Inv d s.scanuStartCfm := by
  unfold Scan.scanuStartCfm
  split
  case h_2 => exact h
  case h_1 k hk =>
    have hperm : (sortScanResult (s.sets k).res.length (s.sets k).res).Perm (s.sets k).res := by
      rw [sortScanResult_eq]
      exact ExchangeSort.sort_perm _
    have hsorted := h.setRes hk (((hperm.map _).append_left s.freedItems).trans (h.items_at hk))
    exact { hsorted with }

/-- A shell for a new set. -/
theorem Inv.newSet (h : Inv 0 s) (hk : s.scanRstSetPtr = none) :
    Inv 0 { s.setSet s.shells { ref := 0, res := [] } with
      shells := s.shells + 1
      scanRstSetPtr := some s.shells } where
  shells := by
    have hshells := h.shells
    rw [hk] at hshells
    change (s.freedShells ++ [s.shells]).Perm (List.range (s.shells + 1))
    rw [List.range_succ]
    rw [Option.toList_none, List.append_nil] at hshells
    exact hshells.append_right _
  items := by
    have hitems := h.items
    rw [Scan.current, hk] at hitems
    change (s.freedItems ++ addrs ((s.setSet s.shells _).sets s.shells).res).Perm _
    rw [setSet_self]
    exact hitems
  getters j hj := by
    change j ∈ s.getters at hj
    rw [(h.none_held hk).1] at hj
    cases hj
  upload j hj := by
    change s.sScanResultUploadPtr = some j at hj
    rw [(h.none_held hk).2] at hj
    cases hj
  counted j hj := by
    obtain rfl : s.shells = j := Option.some.inj hj
    change ((s.setSet s.shells _).sets s.shells).ref.toNat = s.holders s.shells + 0
    rw [setSet_self, Scan.holders, (h.none_held hk).1, (h.none_held hk).2]
    rfl

/-- What `SCANU_RESULT_IND` does once the old results are gone. -/
def Scan.takeResult (s : Scan) (inCountrycode : UInt8 → Bool) (f : Frame) (shell malloc : Bool) :
    Scan :=
  match s.scanRstSetPtr with
  | some k => s.mhdrScanuResultInd k inCountrycode f malloc
  | none =>
    if shell then
      Scan.mhdrScanuResultInd { s.setSet s.shells { ref := 0, res := [] } with
        shells := s.shells + 1
        scanRstSetPtr := some s.shells } s.shells inCountrycode f malloc
    else s

theorem Inv.takeResult (h : Inv 0 s) (inCountrycode : UInt8 → Bool) (f : Frame)
    (shell malloc : Bool) : Inv 0 (s.takeResult inCountrycode f shell malloc) := by
  unfold Scan.takeResult
  split
  case h_1 k hk => exact h.mhdrScanuResultInd hk ..
  case h_2 hk =>
    split
    · exact (h.newSet hk).mhdrScanuResultInd rfl ..
    · exact h

theorem scanuResultInd_flush {inCountrycode f shell malloc} (hk : s.scanRstSetPtr = some k)
    (hcfm : s.resultfulScanCfm = true) : s.scanuResultInd inCountrycode f shell malloc =
      (s.released k).takeResult inCountrycode f shell malloc := by
  unfold Scan.scanuResultInd
  rw [hk]
  dsimp only
  rw [if_pos hcfm, srFlush_eq]
  rfl

theorem scanuResultInd_keep {inCountrycode f shell malloc}
    (hk : s.resultfulScanCfm = true → s.scanRstSetPtr = none) :
    s.scanuResultInd inCountrycode f shell malloc =
      s.takeResult inCountrycode f shell malloc := by
  unfold Scan.scanuResultInd
  cases hptr : s.scanRstSetPtr with
  | none =>
    dsimp only
    rw [Scan.takeResult, hptr]
  | some k =>
    have hcfm : s.resultfulScanCfm ≠ true := fun h => nomatch hptr ▸ hk h
    dsimp only
    rw [if_neg hcfm, Scan.takeResult, hptr]

theorem Inv.scanuResultInd (h : Inv 0 s) {inCountrycode f shell malloc}
    (hk : Orderly s (.scanuResultInd inCountrycode f shell malloc)) :
    Inv 0 (s.scanuResultInd inCountrycode f shell malloc) := by
  by_cases hkeep : s.resultfulScanCfm = true → s.scanRstSetPtr = none
  · rw [scanuResultInd_keep hkeep]
    exact h.takeResult ..
  · obtain ⟨hcfm, hptr⟩ := Classical.not_imp.mp hkeep
    obtain ⟨k, hptr⟩ := Option.ne_none_iff_exists'.mp hptr
    rw [scanuResultInd_flush hptr hcfm]
    exact (h.released hptr fun hmem => hk hcfm k hmem hptr).takeResult ..

end Results

section Run

variable {s t : Scan} {h : Machine.History Event Answer} {e : Event} {o : Answer} {k : Nat}

theorem atNull_of_canGet (hroom : s.CanGet) : s.srGetScanResults.2.2 = false := by
  obtain ⟨k, hk, -⟩ := canGet_iff.mp hroom
  rw [srGet_some hk]

theorem wpaHostapdRelease_atNull (hroom : s.sScanResultUploadPtr = none → s.CanGet) :
    s.wpaHostapdReleaseScanRst.2 = false := by
  unfold Scan.wpaHostapdReleaseScanRst
  split
  case h_1 => rfl
  case h_2 hup =>
    obtain ⟨k, hk, -⟩ := canGet_iff.mp (hroom hup)
    rw [srGet_some hk]

theorem Inv.step (hi : Inv 0 s) (hk : Orderly s e) (hs : s.step e = some (t, o)) :
    Inv 0 t ∧ o.atNull = false := by
  cases e with
  | scanuResultInd =>
    cases hs
    exact ⟨hi.scanuResultInd hk, rfl⟩
  | scanuStartCfm =>
    cases hs
    exact ⟨hi.scanuStartCfm, rfl⟩
  | smConnectInd =>
    cases hs
    exact ⟨hi.smConnectInd hk, rfl⟩
  | srGetScanResults =>
    cases hs
    exact ⟨hi.srGet hk, atNull_of_canGet hk⟩
  | srReleaseScanResults ptr =>
    cases ptr with
    | none =>
      cases hs
      exact ⟨hi, rfl⟩
    | some k =>
      by_cases hmem : k ∈ s.getters
      · cases (if_pos hmem).symm.trans hs
        exact ⟨(hi.dropGetter hmem).release (hi.getters k hmem), rfl⟩
      · cases (if_neg hmem).symm.trans hs
  | wpaGetScanRst =>
    cases hs
    exact ⟨hi.wpaGet hk.1 hk.2, atNull_of_canGet hk.1⟩
  | wpaHostapdReleaseScanRst =>
    cases hs
    exact ⟨hi.wpaHostapdRelease hk, wpaHostapdRelease_atNull hk⟩
  | wpaSendAssocReq =>
    cases hs
    exact ⟨hi.wpaSendAssocReq, rfl⟩

theorem inv_of_reaches (hr : scanRst.ReachesUnder Orderly h s) :
    Inv 0 s ∧ ∀ x ∈ h, x.2.atNull = false := by
  refine hr.invariant (fun h s => Inv 0 s ∧ ∀ x ∈ h, x.2.atNull = false) ⟨inv_initial, nofun⟩ ?_
  intro h s e t o ih hk hs
  obtain ⟨hi, hnull⟩ := ih.1.step hk hs
  refine ⟨hi, fun x hx => ?_⟩
  rcases List.mem_append.mp hx with hx | hx
  · exact ih.2 x hx
  · exact List.mem_singleton.mp hx ▸ hnull

theorem law_of_reaches (hr : scanRst.ReachesUnder Orderly h s) : ScanLaw h s :=
  have ⟨hi, hnull⟩ := inv_of_reaches hr
  hi.law hnull

theorem Inv.live (hi : Inv 0 s) (hk : s.scanRstSetPtr = some k) :
    k < s.shells ∧ k ∉ s.freedShells := by
  refine ⟨List.mem_range.mp (hi.shells.mem_iff.mp (by simp [hk])), ?_⟩
  have hlaw : ScanLaw [] s := hi.law nofun
  exact hlaw.pointed k (.inl hk)

def beacon (bssid : List UInt8) (level : Int) (chann : UInt8) : Frame where
  bssid := bssid
  level := level
  dsChann := some chann
  centerChann := 1

end Run

end BdkRtt.Wlan.ScanRst
