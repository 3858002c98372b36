import BdkRtt.Lib.FirstBest
import BdkRtt.Wlan.ScanList

namespace BdkRtt.Wlan.ScanList

open Lib

variable {ip : IpLib} {country : WifiCountry} {i : ScanInd} {malloc : Bool}
  {res : List StaScanRes} {s t : ScanRun}

section Reports

def ScanInd.bssid (i : ScanInd) : List UInt8 := i.payload.read bssidOft ethAlen

theorem read_bssid : i.payload.read bssidOft ethAlen = i.bssid := rfl

/-- Where the first element of the identifier starts. -/
def ScanInd.elmtAddr (ip : IpLib) (i : ScanInd) (id : UInt8) : Option Nat :=
  (i.macIeFind ip id).run i.payload

/-- The channel of the DS element. -/
def ScanInd.dsChann (ip : IpLib) (i : ScanInd) : Option UInt8 :=
  (i.elmtAddr ip macEltidDs).map fun elmtAddr => i.payload (elmtAddr + macDsChannelOft)

def ScanInd.chann (ip : IpLib) (i : ScanInd) : UInt8 :=
  (i.dsChann ip).getD (rwIeee80211GetChanId i.centerFreq.toUInt32)

def ScanInd.onChannel (ip : IpLib) (i : ScanInd) : Bool :=
  (i.dsChann ip).any fun chann => decide (chann = rwIeee80211GetChanId i.centerFreq.toUInt32)

/-- The country code does not allow its channel. -/
def ScanInd.refused (ip : IpLib) (country : WifiCountry) (i : ScanInd) : Bool :=
  (i.dsChann ip).any fun chann => !country.isScanRstInCountrycode chann

def ScanInd.item (ip : IpLib) (i : ScanInd) : StaScanRes :=
  (i.build ip (i.chann ip) (i.onChannel ip)).run i.payload

/-- Its BSSID has an entry already, which it is not to replace. -/
def ScanInd.blocked (ip : IpLib) (i : ScanInd) (res : List StaScanRes) : Bool :=
  (Keyed.lookup StaScanRes.bssid res i.bssid).any fun x => x.onChannel || !i.onChannel ip

@[simp] theorem ScanInd.item_bssid : (i.item ip).bssid = i.bssid := by
  rw [item, build, Reading.run_bind]
  simp only [Reading.run_read, Reading.run_done, Mem.toList_block]
  rfl

@[simp] theorem ScanInd.item_onChannel : (i.item ip).onChannel = i.onChannel ip := by
  rw [item, build, Reading.run_bind]
  rfl

@[simp] theorem ScanInd.item_level : (i.item ip).level = i.rssi.toInt := by
  rw [item, build, Reading.run_bind]
  rfl

end Reports

section Law

def ScanRun.list (s : ScanRun) : List StaScanRes := s.scanRstSetPtr.getD []

/-- An entry is made of the first report of its BSSID that is on its channel, or of the first
report while there is none; frames are read within their lengths, and lists are sorted. -/
structure ScanListLaw (ip : IpLib) (h : Machine.History ScanEvent ScanAnswer) (s : ScanRun) :
    Prop where
  once : (s.list.map StaScanRes.bssid).Nodup
  bounded : s.list.length ≤ maxBssList
  firsts : FirstBest.Right StaScanRes.bssid StaScanRes.onChannel s.list
    (s.heard.map (ScanInd.item ip))
  inside : ∀ country i shell malloc reads,
    (.scanuResultInd country i shell malloc, .heard reads) ∈ h →
    ∀ r ∈ reads, r.1 + r.2 ≤ i.length.toNat
  sorted : ∀ e before after, (e, .sorted before after) ∈ h →
    after.Perm before ∧ after.Pairwise fun a b => b.level ≤ a.level

/-- The frame has its fixed part, and the elements that are looked into are not cut off. -/
structure ScanInd.Whole (ip : IpLib) (country : WifiCountry) (i : ScanInd) (malloc : Bool)
    (res : List StaScanRes) : Prop where
  fixedPart : macBeaconVariablePartOft ≤ i.length.toNat
  ds : ∀ elmtAddr, i.elmtAddr ip macEltidDs = some elmtAddr →
    elmtAddr + macDsChannelOft + 1 ≤ i.length.toNat
  ssid : (i.refused ip country || (!i.blocked ip res && malloc)) = true →
    ∀ elmtAddr, i.elmtAddr ip macEltidSsid = some elmtAddr →
    elmtAddr + macSsidSsidOft + min (i.payload (elmtAddr + macSsidLenOft)).toNat macSsidLen ≤
      i.length.toNat

/-- There is room for the report, it is allowed, and there is memory. -/
def ScanInd.Stored (ip : IpLib) (country : WifiCountry) (i : ScanInd) (malloc : Bool)
    (res : List StaScanRes) : Prop :=
  res.length < maxBssList ∧ i.refused ip country = false ∧ malloc = true

/-- A report that begins an entry is the first of its BSSID, or the first on its channel; one that
is dropped would not have replaced an entry. -/
structure ScanInd.InTurn (ip : IpLib) (country : WifiCountry) (i : ScanInd) (malloc : Bool)
    (res : List StaScanRes) (heard : List ScanInd) : Prop where
  begins : i.Stored ip country malloc res → Keyed.lookup StaScanRes.bssid res i.bssid = none →
    FirstBest.pick StaScanRes.onChannel (FirstBest.ofKey StaScanRes.bssid i.bssid
      ((heard ++ [i]).map (ScanInd.item ip))) = some (i.item ip)
  dropped : ¬ i.Stored ip country malloc res →
    ∀ x, Keyed.lookup StaScanRes.bssid res i.bssid = some x →
    (x.onChannel || !i.onChannel ip) = true

/-- The condition on an indication, when there is a list for it. -/
def Clean (ip : IpLib) (s : ScanRun) : ScanEvent → Prop
  | .scanuResultInd country i shell malloc => ∀ res, s.flush.shell shell = some res →
    (res.length < maxBssList → i.Whole ip country malloc res) ∧
    i.InTurn ip country malloc res s.flush.heard
  | .scanuStartCfm => True

end Law

section Duplicates

variable {x : StaScanRes} (onChannel : Bool) (k : Nat) (replaceIndex : Option Nat)

theorem checkDuplicate_none (h : Keyed.lookup StaScanRes.bssid res i.bssid = none) :
    (checkDuplicate onChannel k replaceIndex res).run i.payload = some replaceIndex := by
  induction res generalizing k with
  | nil => rfl
  | cons x xs ih =>
    have hne := Keyed.lookup_eq_none.mp h
    rw [checkDuplicate, Reading.run_read, Mem.toList_block, read_bssid, if_neg]
    · refine ih (k + 1) (Keyed.lookup_eq_none.mpr fun y hy => ?_)
      exact hne y (List.mem_cons_of_mem x hy)
    · exact Ne.symm (hne x List.mem_cons_self)

theorem checkDuplicate_some (hnodup : (res.map StaScanRes.bssid).Nodup)
    (h : Keyed.lookup StaScanRes.bssid res i.bssid = some x) :
    ∃ j, res[j]? = some x ∧ (checkDuplicate onChannel k replaceIndex res).run i.payload =
      if x.onChannel || !onChannel then none else some (some (k + j)) := by
  induction res generalizing k with
  | nil => cases h
  | cons y ys ih =>
    rw [List.map_cons, List.nodup_cons] at hnodup
    rw [Keyed.lookup_cons] at h
    rw [checkDuplicate, Reading.run_read, Mem.toList_block, read_bssid]
    split at h
    next hy =>
      obtain rfl := Option.some.inj h
      refine ⟨0, rfl, ?_⟩
      rw [if_pos hy.symm, Reading.run_ite]
      have hrest : Keyed.lookup StaScanRes.bssid ys i.bssid = none := by
        refine Keyed.lookup_eq_none.mpr fun z hz heq => hnodup.1 ?_
        rw [hy, ← heq]
        exact List.mem_map_of_mem hz
      rw [checkDuplicate_none _ _ _ hrest]
      rfl
    next hy =>
      obtain ⟨j, hj, hrun⟩ := ih (k + 1) hnodup.2 h
      refine ⟨j + 1, hj, ?_⟩
      rw [if_neg (Ne.symm hy), hrun, Nat.add_assoc, Nat.add_comm 1 j]

end Duplicates

section Stores

theorem blocked_of_none (h : Keyed.lookup StaScanRes.bssid res i.bssid = none) :
    i.blocked ip res = false := by
  rw [ScanInd.blocked, h, Option.any_none]

theorem blocked_of_some {x : StaScanRes}
    (h : Keyed.lookup StaScanRes.bssid res i.bssid = some x) :
    i.blocked ip res = (x.onChannel || !i.onChannel ip) := by
  rw [ScanInd.blocked, h, Option.any_some]

/-- What the search for a duplicate comes to, and what is then stored. -/
theorem checkDuplicate_cases (ip : IpLib) (i : ScanInd)
    (hnodup : (res.map StaScanRes.bssid).Nodup) :
    let r := (checkDuplicate (i.onChannel ip) 0 none res).run i.payload
    let put := FirstBest.put StaScanRes.bssid StaScanRes.onChannel res (i.item ip)
    (i.blocked ip res = true ∧ r = none ∧ put = res) ∨
    (i.blocked ip res = false ∧ r = some none ∧ put = res ++ [i.item ip]) ∨
    (i.blocked ip res = false ∧ ∃ j < res.length, r = some (some j) ∧
      put = res.set j (i.item ip)) := by
  intro r put
  cases hlookup : Keyed.lookup StaScanRes.bssid res i.bssid with
  | none =>
    refine .inr (.inl ⟨blocked_of_none hlookup, checkDuplicate_none _ _ _ hlookup, ?_⟩)
    simp only [put, FirstBest.put, ScanInd.item_bssid, hlookup]
  | some x =>
    obtain ⟨j, hj, hrun⟩ := checkDuplicate_some (i.onChannel ip) 0 none hnodup hlookup
    have hblocked := @blocked_of_some ip _ _ _ hlookup
    cases hkeep : (x.onChannel || !i.onChannel ip)
    · rw [hkeep] at hrun hblocked
      have hlt : j < res.length := (List.getElem?_eq_some_iff.mp hj).1
      refine .inr (.inr ⟨hblocked, j, hlt, hrun.trans ?_, ?_⟩)
      · rw [if_neg Bool.false_ne_true, Nat.zero_add]
      · simp only [put, FirstBest.put, ScanInd.item_bssid, ScanInd.item_onChannel, hlookup, hkeep,
          Bool.false_eq_true, if_false]
        rw [← Keyed.key_of_lookup hlookup]
        exact Keyed.change_eq_set hnodup hj
    · rw [hkeep] at hrun hblocked
      refine .inl ⟨hblocked, hrun.trans (if_pos rfl), ?_⟩
      simp only [put, FirstBest.put, ScanInd.item_bssid, ScanInd.item_onChannel, hlookup, hkeep,
        if_true]

theorem store_run (hnodup : (res.map StaScanRes.bssid).Nodup) :
    (i.store ip malloc res (i.chann ip) (i.onChannel ip)).run i.payload =
      if malloc then FirstBest.put StaScanRes.bssid StaScanRes.onChannel res (i.item ip)
      else res := by
  rw [ScanInd.store, Reading.run_bind]
  rcases checkDuplicate_cases ip i hnodup with
    ⟨-, hr, hput⟩ | ⟨-, hr, hput⟩ | ⟨-, j, -, hr, hput⟩
  · rw [hr, hput, ite_self]
    rfl
  · rw [hr, hput]
    cases malloc
    · rfl
    · exact Reading.run_bind
  · rw [hr, hput]
    cases malloc
    · rfl
    · exact Reading.run_bind

theorem run_macIeFind (id : UInt8) : (i.macIeFind ip id).run i.payload = i.elmtAddr ip id := rfl

theorem dsChann_none (h : i.elmtAddr ip macEltidDs = none) : i.dsChann ip = none := by
  rw [ScanInd.dsChann, h, Option.map_none]

theorem dsChann_some {elmtAddr : Nat} (h : i.elmtAddr ip macEltidDs = some elmtAddr) :
    i.dsChann ip = some (i.payload (elmtAddr + macDsChannelOft)) := by
  rw [ScanInd.dsChann, h, Option.map_some]

theorem mhdrScanuResultInd_run (hnodup : (res.map StaScanRes.bssid).Nodup)
    (hroom : res.length < maxBssList) :
    (mhdrScanuResultInd ip i country malloc res).run i.payload =
      if i.refused ip country then res
      else if malloc then FirstBest.put StaScanRes.bssid StaScanRes.onChannel res (i.item ip)
      else res := by
  rw [← store_run hnodup, mhdrScanuResultInd, if_neg (Nat.not_le.mpr hroom), Reading.run_bind,
    run_macIeFind]
  cases hds : i.elmtAddr ip macEltidDs with
  | none =>
    simp only [ScanInd.refused, ScanInd.chann, ScanInd.onChannel, dsChann_none hds, Option.any_none,
      Option.getD_none, Bool.false_eq_true, if_false]
  | some elmtAddr =>
    simp only [ScanInd.refused, ScanInd.chann, ScanInd.onChannel, dsChann_some hds, Option.any_some,
      Option.getD_some, Reading.run_cell, Reading.run_ite, Reading.run_bind, Reading.run_done]

end Stores

section Inside

theorem viesLen_toNat (h : macBeaconVariablePartOft ≤ i.length.toNat) :
    i.viesLen.toNat = i.length.toNat - macBeaconVariablePartOft := by
  have hle : UInt32.ofNat macBeaconVariablePartOft ≤ i.length.toUInt32 := by
    rw [UInt32.le_iff_toNat_le, UInt16.toNat_toUInt32]
    exact h
  rw [ScanInd.viesLen, UInt32.toNat_sub_of_le _ _ hle, UInt16.toNat_toUInt32]
  rfl

theorem vies_inside (h : macBeaconVariablePartOft ≤ i.length.toNat) :
    macBeaconVariablePartOft + i.viesLen.toNat ≤ i.length.toNat := by
  rw [viesLen_toNat h]
  omega

theorem intLen_le : i.intLen ≤ i.viesLen.toNat := by
  unfold ScanInd.intLen
  split
  · exact Nat.le_refl _
  · exact Nat.zero_le _

theorem macIeFind_inside (h : macBeaconVariablePartOft ≤ i.length.toNat) (id : UInt8) :
    (i.macIeFind ip id).Inside i.payload i.length.toNat := by
  refine ⟨?_, trivial⟩
  have hvies := vies_inside h
  have hle : i.viesLen.toUInt16.toNat ≤ i.viesLen.toNat := by
    rw [UInt32.toNat_toUInt16]
    exact Nat.mod_le _ _
  omega

theorem ssid_inside {len : Nat} (hvies : (i.macIeFind ip macEltidSsid).Inside i.payload len) :
    (i.ssid ip).Inside i.payload len ↔ ∀ elmtAddr, i.elmtAddr ip macEltidSsid = some elmtAddr →
      elmtAddr + macSsidSsidOft + min (i.payload (elmtAddr + macSsidLenOft)).toNat macSsidLen ≤
        len := by
  rw [ScanInd.ssid, Reading.inside_bind, run_macIeFind, and_iff_right hvies]
  cases hssid : i.elmtAddr ip macEltidSsid with
  | none => simp
  | some elmtAddr =>
    simp only [Reading.inside_cell, Reading.inside_read, Reading.inside_done, and_true,
      Option.some.injEq, forall_eq']
    simp only [macSsidLenOft, macSsidSsidOft]
    omega

theorem build_inside (h : macBeaconVariablePartOft ≤ i.length.toNat) (chann : UInt8)
    (onChannel : Bool) :
    (i.build ip chann onChannel).Inside i.payload i.length.toNat ↔
      (i.ssid ip).Inside i.payload i.length.toNat := by
  rw [ScanInd.build, Reading.inside_bind]
  simp only [Reading.inside_read, Reading.inside_done, and_true]
  have hvies := vies_inside h
  have hint := @intLen_le i
  simp only [macBeaconVariablePartOft, bssidOft, beaconIntOft, capabInfoOft, timestampOft,
    ethAlen] at h hvies ⊢
  refine and_iff_left ⟨?_, ?_, ?_, ?_, hvies, ?_⟩ <;> omega

theorem checkDuplicate_inside (h : macBeaconVariablePartOft ≤ i.length.toNat) (onChannel : Bool)
    (k : Nat) (replaceIndex : Option Nat) :
    (checkDuplicate onChannel k replaceIndex res).Inside i.payload i.length.toNat := by
  induction res generalizing k replaceIndex with
  | nil => trivial
  | cons x xs ih =>
    rw [checkDuplicate]
    refine ⟨?_, ?_⟩
    · exact Nat.le_trans (by decide) h
    · rw [Reading.inside_ite]
      split
      · rw [Reading.inside_unless]
        exact fun _ => ih _ _
      · exact ih _ _

theorem store_inside (hnodup : (res.map StaScanRes.bssid).Nodup)
    (h : macBeaconVariablePartOft ≤ i.length.toNat) :
    (i.store ip malloc res (i.chann ip) (i.onChannel ip)).Inside i.payload i.length.toNat ↔
      ((!i.blocked ip res && malloc) = true → (i.ssid ip).Inside i.payload i.length.toNat) := by
  rw [ScanInd.store, Reading.inside_bind, and_iff_right (checkDuplicate_inside h ..)]
  rcases checkDuplicate_cases ip i hnodup with
    ⟨hb, hr, -⟩ | ⟨hb, hr, -⟩ | ⟨hb, j, -, hr, -⟩
  · rw [hr, hb]
    simp
  · rw [hr, hb, ← build_inside h (i.chann ip) (i.onChannel ip)]
    cases malloc
    · simp
    · simp
  · rw [hr, hb, ← build_inside h (i.chann ip) (i.onChannel ip)]
    cases malloc
    · simp
    · simp

theorem mhdrScanuResultInd_inside (hnodup : (res.map StaScanRes.bssid).Nodup)
    (hroom : res.length < maxBssList) :
    (mhdrScanuResultInd ip i country malloc res).Inside i.payload i.length.toNat ↔
      i.Whole ip country malloc res := by
  rw [mhdrScanuResultInd, if_neg (Nat.not_le.mpr hroom), Reading.inside_bind, run_macIeFind]
  by_cases hfixed : macBeaconVariablePartOft ≤ i.length.toNat
  · rw [and_iff_right (macIeFind_inside hfixed _)]
    have hstore := @store_inside ip i malloc res hnodup hfixed
    have hssid := ssid_inside (@macIeFind_inside ip _ hfixed macEltidSsid)
    have hwhole : i.Whole ip country malloc res ↔
        (∀ elmtAddr, i.elmtAddr ip macEltidDs = some elmtAddr →
          elmtAddr + macDsChannelOft + 1 ≤ i.length.toNat) ∧
        ((i.refused ip country || (!i.blocked ip res && malloc)) = true →
          (i.ssid ip).Inside i.payload i.length.toNat) := by
      rw [hssid]
      constructor
      · intro hw
        exact ⟨hw.ds, hw.ssid⟩
      · rintro ⟨hdsIn, hssidIn⟩
        exact ⟨hfixed, hdsIn, hssidIn⟩
    rw [hwhole]
    cases hds : i.elmtAddr ip macEltidDs with
    | none =>
      simp only [ScanInd.chann, ScanInd.onChannel, dsChann_none hds, Option.getD_none,
        Option.any_none] at hstore
      simp only [hstore, ScanInd.refused, dsChann_none hds, Option.any_none, Bool.false_or,
        reduceCtorEq, false_imp_iff, implies_true, true_and]
    | some elmtAddr =>
      simp only [ScanInd.chann, ScanInd.onChannel, dsChann_some hds, Option.getD_some,
        Option.any_some] at hstore
      simp only [Reading.inside_cell, Reading.inside_ite, Reading.inside_bind, Reading.inside_done,
        and_true, hstore, ScanInd.refused, dsChann_some hds, Option.any_some, Option.some.injEq,
        forall_eq']
      cases country.isScanRstInCountrycode (i.payload (elmtAddr + macDsChannelOft))
      · simp
      · simp
  · refine iff_of_false ?_ fun hw => hfixed hw.fixedPart
    rintro ⟨hfind, -⟩
    exact hfixed (Nat.le_trans (Nat.le_add_right ..) hfind.1)

end Inside

section Steps

theorem mhdrScanuResultInd_full (h : ¬ res.length < maxBssList) :
    mhdrScanuResultInd ip i country malloc res = .done res :=
  if_pos (Nat.not_lt.mp h)

theorem mhdrScanuResultInd_stored (hnodup : (res.map StaScanRes.bssid).Nodup)
    (h : i.Stored ip country malloc res) :
    (mhdrScanuResultInd ip i country malloc res).run i.payload =
      FirstBest.put StaScanRes.bssid StaScanRes.onChannel res (i.item ip) := by
  obtain ⟨hroom, hrefused, hmalloc⟩ := h
  rw [mhdrScanuResultInd_run hnodup hroom, hrefused, hmalloc]
  rfl

theorem mhdrScanuResultInd_dropped (hnodup : (res.map StaScanRes.bssid).Nodup)
    (h : ¬ i.Stored ip country malloc res) :
    (mhdrScanuResultInd ip i country malloc res).run i.payload = res := by
  by_cases hroom : res.length < maxBssList
  · rw [mhdrScanuResultInd_run hnodup hroom]
    cases hrefused : i.refused ip country
    · cases malloc
      · rfl
      · exact absurd ⟨hroom, hrefused, rfl⟩ h
    · rfl
  · rw [mhdrScanuResultInd_full hroom]
    rfl

theorem run_once (hnodup : (res.map StaScanRes.bssid).Nodup) :
    (((mhdrScanuResultInd ip i country malloc res).run i.payload).map StaScanRes.bssid).Nodup := by
  by_cases h : i.Stored ip country malloc res
  · rw [mhdrScanuResultInd_stored hnodup h]
    exact FirstBest.put_nodup hnodup
  · rw [mhdrScanuResultInd_dropped hnodup h]
    exact hnodup

theorem run_bounded (hnodup : (res.map StaScanRes.bssid).Nodup) (hle : res.length ≤ maxBssList) :
    ((mhdrScanuResultInd ip i country malloc res).run i.payload).length ≤ maxBssList := by
  by_cases h : i.Stored ip country malloc res
  · rw [mhdrScanuResultInd_stored hnodup h]
    exact Nat.le_trans FirstBest.length_put_le h.1
  · rw [mhdrScanuResultInd_dropped hnodup h]
    exact hle

theorem run_firsts {heard : List ScanInd} (hnodup : (res.map StaScanRes.bssid).Nodup)
    (hr : FirstBest.Right StaScanRes.bssid StaScanRes.onChannel res
      (heard.map (ScanInd.item ip))) :
    FirstBest.Right StaScanRes.bssid StaScanRes.onChannel
      ((mhdrScanuResultInd ip i country malloc res).run i.payload)
      ((heard ++ [i]).map (ScanInd.item ip)) ↔ i.InTurn ip country malloc res heard := by
  have hput := hr.put_iff (a := i.item ip) hnodup
  have hdrop := hr.drop_iff (a := i.item ip) hnodup
  rw [ScanInd.item_bssid] at hput hdrop
  by_cases h : i.Stored ip country malloc res
  · rw [mhdrScanuResultInd_stored hnodup h, List.map_append, List.map_singleton, hput]
    constructor
    · intro hbegins
      refine ⟨fun _ => ?_, fun hnot => absurd h hnot⟩
      rw [List.map_append, List.map_singleton]
      exact hbegins
    · intro hturn
      have hbegins := hturn.begins h
      rw [List.map_append, List.map_singleton] at hbegins
      exact hbegins
  · rw [mhdrScanuResultInd_dropped hnodup h, List.map_append, List.map_singleton, hdrop,
      ScanInd.item_onChannel]
    exact ⟨fun hdropped => ⟨fun hstored => absurd hstored h, fun _ => hdropped⟩,
      fun hturn => hturn.dropped h⟩

theorem reads_inside (hnodup : (res.map StaScanRes.bssid).Nodup) :
    (∀ r ∈ (mhdrScanuResultInd ip i country malloc res).touched i.payload,
      r.1 + r.2 ≤ i.length.toNat) ↔ (res.length < maxBssList → i.Whole ip country malloc res) := by
  rw [← Reading.inside_iff]
  by_cases hroom : res.length < maxBssList
  · rw [mhdrScanuResultInd_inside hnodup hroom, imp_iff_right hroom]
  · rw [mhdrScanuResultInd_full hroom]
    exact iff_of_true trivial fun h => absurd h hroom

theorem list_of_shell {shell : Bool} (h : s.shell shell = some res) : s.list = res := by
  rw [ScanRun.shell] at h
  rw [ScanRun.list]
  cases hptr : s.scanRstSetPtr with
  | none =>
    rw [hptr, Option.none_or] at h
    split at h
    · exact Option.some.inj h
    · cases h
  | some xs =>
    rw [hptr, Option.some_or] at h
    exact Option.some.inj h

theorem list_of_no_shell {shell : Bool} (h : s.shell shell = none) : s.scanRstSetPtr = none := by
  rw [ScanRun.shell, Option.or_eq_none_iff] at h
  exact h.1

end Steps

section Runs

variable {h : Machine.History ScanEvent ScanAnswer} {e : ScanEvent} {o : ScanAnswer}

theorem ScanListLaw.init : ScanListLaw ip [] (scanList ip).init where
  once := List.nodup_nil
  bounded := Nat.zero_le _
  firsts := FirstBest.right_nil
  inside _ _ _ _ _ hmem := absurd hmem List.not_mem_nil
  sorted _ _ _ hmem := absurd hmem List.not_mem_nil

theorem ScanListLaw.flush (hl : ScanListLaw ip h s) : ScanListLaw ip h s.flush := by
  unfold ScanRun.flush
  split
  · exact ⟨List.nodup_nil, Nat.zero_le _, FirstBest.right_nil, hl.inside, hl.sorted⟩
  · exact hl

/-- A step that sorts nothing, with what it has read. -/
theorem ScanListLaw.heard_iff (hl : ScanListLaw ip h s) {shell : Bool} {reads : List (Nat × Nat)} :
    ScanListLaw ip (h ++ [(.scanuResultInd country i shell malloc, .heard reads)]) t ↔
      (t.list.map StaScanRes.bssid).Nodup ∧ t.list.length ≤ maxBssList ∧
      FirstBest.Right StaScanRes.bssid StaScanRes.onChannel t.list
        (t.heard.map (ScanInd.item ip)) ∧
      ∀ r ∈ reads, r.1 + r.2 ≤ i.length.toNat := by
  constructor
  · intro hl'
    exact ⟨hl'.once, hl'.bounded, hl'.firsts, hl'.inside _ _ _ _ _ List.mem_concat_self⟩
  · rintro ⟨honce, hbounded, hfirsts, hinside⟩
    refine ⟨honce, hbounded, hfirsts, fun country' i' shell' malloc' reads' hmem => ?_,
      fun e before after hmem => ?_⟩
    · rcases List.mem_append.mp hmem with hmem | hmem
      · exact hl.inside _ _ _ _ _ hmem
      · cases List.mem_singleton.mp hmem
        exact hinside
    · rcases List.mem_append.mp hmem with hmem | hmem
      · exact hl.sorted _ _ _ hmem
      · cases List.mem_singleton.mp hmem

/-- A step that sorts, or finds nothing to sort. -/
theorem ScanListLaw.sorted_concat (hl : ScanListLaw ip h s) {before : List StaScanRes}
    (hperm : t.list.Perm s.list)
    (hheard : t.list = [] ∨ t.heard = s.heard) :
    ScanListLaw ip (h ++ [(.scanuStartCfm, .sorted before (sortScanResult before))]) t := by
  refine ⟨(hperm.map _).nodup_iff.mpr hl.once, hperm.length_eq ▸ hl.bounded, ?_,
    fun country i shell malloc reads hmem => ?_, fun e before' after hmem => ?_⟩
  · rcases hheard with hempty | hheard
    · rw [hempty]
      exact FirstBest.right_nil
    · rw [hheard]
      exact hl.firsts.perm hperm
  · rcases List.mem_append.mp hmem with hmem | hmem
    · exact hl.inside _ _ _ _ _ hmem
    · cases List.mem_singleton.mp hmem
  · rcases List.mem_append.mp hmem with hmem | hmem
    · exact hl.sorted _ _ _ hmem
    · cases List.mem_singleton.mp hmem
      exact ⟨ExchangeSort.sort_perm _, ExchangeSort.sort_sorted _⟩

theorem ScanListLaw.scanuStartCfm (hl : ScanListLaw ip h s) :
    ScanListLaw ip (h ++ [(.scanuStartCfm, s.scanuStartCfm.2)]) s.scanuStartCfm.1 := by
  unfold ScanRun.scanuStartCfm
  cases hptr : s.scanRstSetPtr with
  | none =>
    have hlist : s.list = [] := by rw [ScanRun.list, hptr, Option.getD_none]
    refine hl.sorted_concat (t := ⟨none, s.resultfulScanCfm, []⟩) ?_ (.inl rfl)
    rw [hlist]
    exact .refl _
  | some res =>
    have hlist : s.list = res := by rw [ScanRun.list, hptr, Option.getD_some]
    refine hl.sorted_concat ?_ (.inr rfl)
    rw [hlist]
    exact ExchangeSort.sort_perm res

theorem ScanListLaw.scanuResultInd (hl : ScanListLaw ip h s) {shell : Bool} :
    ScanListLaw ip (h ++ [(.scanuResultInd country i shell malloc,
        (s.scanuResultInd ip country i shell malloc).2)])
      (s.scanuResultInd ip country i shell malloc).1 ↔
      Clean ip s (.scanuResultInd country i shell malloc) := by
  have hlf := hl.flush
  simp only [ScanRun.scanuResultInd, Clean]
  cases hshell : s.flush.shell shell with
  | none =>
    have hptr := list_of_no_shell hshell
    refine iff_of_true ?_ fun res hres => ?_
    · refine hlf.heard_iff.mpr ?_
      rw [ScanRun.list, hptr]
      exact ⟨List.nodup_nil, Nat.zero_le _, FirstBest.right_nil,
        fun r hr => absurd hr List.not_mem_nil⟩
    · cases hres
  | some res =>
    have hlist := list_of_shell hshell
    have honce := hlist ▸ hlf.once
    have hbounded := hlist ▸ hlf.bounded
    have hfirsts := hlist ▸ hlf.firsts
    refine hlf.heard_iff.trans ?_
    rw [reads_inside honce]
    constructor
    · rintro ⟨-, -, hright, hwhole⟩ res' hres
      obtain rfl := Option.some.inj hres
      exact ⟨hwhole, (run_firsts honce hfirsts).mp hright⟩
    · intro hclean
      obtain ⟨hwhole, hturn⟩ := hclean res rfl
      exact ⟨run_once honce, run_bounded honce hbounded, (run_firsts honce hfirsts).mpr hturn,
        hwhole⟩

theorem ScanListLaw.step (hl : ScanListLaw ip h s) (hs : (scanList ip).step s e = some (t, o)) :
    ScanListLaw ip (h ++ [(e, o)]) t ↔ Clean ip s e := by
  cases e with
  | scanuResultInd country i shell malloc =>
    have hs : s.scanuResultInd ip country i shell malloc = (t, o) := Option.some.inj hs
    have hstep := @ScanListLaw.scanuResultInd ip country i malloc s h hl shell
    rw [hs] at hstep
    exact hstep
  | scanuStartCfm =>
    have hs : s.scanuStartCfm = (t, o) := Option.some.inj hs
    have hstep := hl.scanuStartCfm
    rw [hs] at hstep
    exact iff_of_true hstep trivial

/-- The runs that keep the law are those of clean indications. -/
theorem scan_list_law_iff_clean (ip : IpLib) {h : Machine.History ScanEvent ScanAnswer}
    {s : ScanRun} :
    (scanList ip).ReachesUnder (Clean ip) h s ↔
      (scanList ip).ReachesWithin (ScanListLaw ip) h s := by
  have hkeep {h : Machine.History ScanEvent ScanAnswer} {s : ScanRun}
      (hr : (scanList ip).ReachesUnder (Clean ip) h s) : ScanListLaw ip h s :=
    hr.invariant (ScanListLaw ip) ScanListLaw.init fun hl hc hs => (hl.step hs).mpr hc
  apply Machine.reachesUnder_iff_within hkeep
  intro h s e t o hr hs hl
  exact ((hkeep hr).step hs).mp hl

/-- The elements one after another, up to the first of the identifier. -/
def walkElements (id : UInt8) : Nat → Nat → List UInt8 → Option Nat
  | fuel + 1, off, type :: len :: rest =>
    if type = id then some off
    else walkElements id fuel (off + 2 + len.toNat) (rest.drop len.toNat)
  | _, _, _ => none

/-- A library for open networks. -/
def openIp : IpLib where
  macIeFind ies id := walkElements id ies.length 0 ies
  getSecurityTypeFromIe _ _ := 0

/-- A frame that is cut off behind its header. -/
def headerOnly : ScanInd where
  length := 24
  centerFreq := 2412
  rssi := -60
  payload _ := 0

def allChannels : WifiCountry where
  manual := false
  schan := 1
  nchan := 13

theorem scan_list_header_only :
    ∃ h s, (scanList openIp).Reaches h s ∧ ¬ ScanListLaw openIp h s := by
  refine ⟨_, _, .step (e := .scanuResultInd allChannels headerOnly true true) .init trivial rfl, ?_⟩
  intro hl
  have hclean := (ScanListLaw.scanuResultInd ScanListLaw.init).mp hl
  obtain ⟨hwhole, -⟩ := hclean [] rfl
  have hfixed := (hwhole (by decide)).fixedPart
  revert hfixed
  decide

end Runs

end BdkRtt.Wlan.ScanList
