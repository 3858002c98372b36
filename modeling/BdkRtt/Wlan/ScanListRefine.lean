import BdkRtt.Wlan.ScanListLaws
import BdkRtt.Wlan.ScanRstLaws

namespace BdkRtt.Wlan.ScanList

open Lib

section Outline

/-- What an item is sought and sorted by. -/
abbrev Outline := List UInt8 × Bool × Int

def StaScanRes.outline (x : StaScanRes) : Outline := (x.bssid, x.onChannel, x.level)

def outlineOf (x : ScanRst.ScanRstItem) : Outline := (x.bssid, x.onChannel, x.level)

/-- The items of a set are those of the list, in order. -/
def Shows (items : List ScanRst.ScanRstItem) (res : List StaScanRes) : Prop :=
  items.map outlineOf = res.map StaScanRes.outline

/-- The frame as the sets of results see it. -/
def ScanInd.frame (ip : IpLib) (i : ScanInd) : ScanRst.Frame where
  bssid := i.bssid
  level := i.rssi.toInt
  dsChann := i.dsChann ip
  centerChann := rwIeee80211GetChanId i.centerFreq.toUInt32

variable {items : List ScanRst.ScanRstItem} {res : List StaScanRes} {ip : IpLib} {i : ScanInd}

theorem Shows.length_eq (h : Shows items res) : items.length = res.length := by
  have hlen := congrArg List.length h
  rwa [List.length_map, List.length_map] at hlen

theorem Shows.findDuplicate_eq (h : Shows items res) (onChannel : Bool) (k : Nat)
    (replaceIndex : Option Nat) :
    ScanRst.findDuplicate i.bssid onChannel k replaceIndex items =
      (checkDuplicate onChannel k replaceIndex res).run i.payload := by
  induction res generalizing items k replaceIndex with
  | nil =>
    rw [List.map_eq_nil_iff.mp h]
    rfl
  | cons x xs ih =>
    cases items with
    | nil => cases h
    | cons y ys =>
      obtain ⟨hhead, htail⟩ := List.cons.inj h
      simp only [outlineOf, StaScanRes.outline, Prod.mk.injEq] at hhead
      obtain ⟨hbssid, hon, -⟩ := hhead
      rw [ScanRst.findDuplicate, checkDuplicate, Reading.run_read, Mem.toList_block, read_bssid,
        hbssid, hon, ih htail, ih htail]
      by_cases heq : x.bssid = i.bssid
      · rw [if_pos heq, if_pos heq.symm, Reading.run_ite]
        cases x.onChannel <;> cases onChannel <;> rfl
      · rw [if_neg heq, if_neg (Ne.symm heq)]

theorem Shows.sort (h : Shows items res) :
    Shows (ScanRst.sortScanResult items.length items) (sortScanResult res) := by
  rw [Shows, ScanRst.sortScanResult_eq, sortScanResult, ExchangeSort.sort, ← h.length_eq]
  change (ExchangeSort.rounds ((fun x : Outline => x.2.2) ∘ outlineOf) _ _).map _ =
    (ExchangeSort.rounds ((fun x : Outline => x.2.2) ∘ StaScanRes.outline) _ _).map _
  rw [← ExchangeSort.rounds_map, ← ExchangeSort.rounds_map, h]

theorem outline_item {addr : Nat} :
    outlineOf ⟨addr, i.bssid, i.onChannel ip, i.rssi.toInt⟩ = (i.item ip).outline := by
  rw [outlineOf, StaScanRes.outline, ScanInd.item_bssid, ScanInd.item_onChannel,
    ScanInd.item_level]

theorem Shows.append (h : Shows items res) {addr : Nat} :
    Shows (items ++ [⟨addr, i.bssid, i.onChannel ip, i.rssi.toInt⟩]) (res ++ [i.item ip]) := by
  rw [Shows, List.map_append, List.map_append, h, List.map_singleton, List.map_singleton,
    outline_item]

theorem Shows.set (h : Shows items res) {addr j : Nat} :
    Shows (items.set j ⟨addr, i.bssid, i.onChannel ip, i.rssi.toInt⟩) (res.set j (i.item ip)) := by
  rw [Shows, List.map_set, List.map_set, h, outline_item]

end Outline

section Handlers

/-- The set of results shows the list of the scan. -/
structure Shown (s : ScanRst.Scan) (t : ScanRun) : Prop where
  list : s.scanRstSetPtr.map (fun k => (s.sets k).res.map outlineOf) =
    t.scanRstSetPtr.map fun res => res.map StaScanRes.outline
  cfm : s.resultfulScanCfm = t.resultfulScanCfm

variable {s : ScanRst.Scan} {t : ScanRun} {k : Nat} {res : List StaScanRes} {ip : IpLib}
  {country : WifiCountry} {i : ScanInd} {malloc : Bool}

theorem setRes_res (items : List ScanRst.ScanRstItem) :
    ((s.setRes k items).sets k).res = items := by
  rw [ScanRst.Scan.setRes, ScanRst.setSet_self]

theorem Shows.mhdrScanuResultInd (h : Shows (s.sets k).res res)
    (hnodup : (res.map StaScanRes.bssid).Nodup) :
    Shows ((s.mhdrScanuResultInd k country.isScanRstInCountrycode (i.frame ip) malloc).sets k).res
      ((mhdrScanuResultInd ip i country malloc res).run i.payload) := by
  have hdup := h.findDuplicate_eq (i := i) (i.onChannel ip) 0 none
  have hon : ((i.frame ip).dsChann.any fun x => decide (x = (i.frame ip).centerChann)) =
    i.onChannel ip := rfl
  have hrefused : ((i.frame ip).dsChann.any fun x => !country.isScanRstInCountrycode x) =
    i.refused ip country := rfl
  have hbssid : (i.frame ip).bssid = i.bssid := rfl
  unfold ScanRst.Scan.mhdrScanuResultInd
  simp only [h.length_eq, hon, hrefused, hbssid, hdup]
  by_cases hroom : res.length < maxBssList
  · rw [mhdrScanuResultInd_run hnodup hroom, if_neg (show ¬ ScanRst.maxBssList ≤ res.length from
      Nat.not_le.mpr hroom)]
    cases i.refused ip country
    · rw [if_neg Bool.false_ne_true, if_neg Bool.false_ne_true]
      rcases checkDuplicate_cases ip i hnodup with
        ⟨-, hr, hput⟩ | ⟨-, hr, hput⟩ | ⟨-, j, hlt, hr, hput⟩
      · rw [hr, hput, ite_self]
        exact h
      · rw [hr, hput]
        cases malloc
        · exact h
        · simp only [Bool.not_true, Bool.false_eq_true, if_false, Option.bind_none, if_true,
            setRes_res]
          exact h.append
      · rw [hr, hput]
        cases malloc
        · exact h
        · have hj := List.getElem?_eq_getElem (h.length_eq ▸ hlt : j < (s.sets k).res.length)
          simp only [Bool.not_true, Bool.false_eq_true, if_false, Option.bind_some, hj,
            Option.map_some, if_true, setRes_res]
          exact h.set
    · exact h
  · rw [mhdrScanuResultInd_full hroom, if_pos (show ScanRst.maxBssList ≤ res.length from
      Nat.not_lt.mp hroom)]
    exact h

theorem mhdrScanuResultInd_ptr (inCountrycode : UInt8 → Bool) (f : ScanRst.Frame) :
    (s.mhdrScanuResultInd k inCountrycode f malloc).scanRstSetPtr = s.scanRstSetPtr ∧
      (s.mhdrScanuResultInd k inCountrycode f malloc).resultfulScanCfm = s.resultfulScanCfm := by
  unfold ScanRst.Scan.mhdrScanuResultInd
  dsimp only
  split
  · exact ⟨rfl, rfl⟩
  · split
    · exact ⟨rfl, rfl⟩
    · split
      · exact ⟨rfl, rfl⟩
      · split
        · exact ⟨rfl, rfl⟩
        · split <;> exact ⟨rfl, rfl⟩

/-- The pointers are both `NULL`, or point to a set and the list that it shows. -/
theorem Shown.cases (h : Shown s t) :
    (s.scanRstSetPtr = none ∧ t.scanRstSetPtr = none) ∨
    ∃ k res, s.scanRstSetPtr = some k ∧ t.scanRstSetPtr = some res ∧ Shows (s.sets k).res res := by
  have hlist := h.list
  cases hk : s.scanRstSetPtr with
  | none =>
    rw [hk, Option.map_none, eq_comm, Option.map_eq_none_iff] at hlist
    exact .inl ⟨rfl, hlist⟩
  | some k =>
    rw [hk, Option.map_some, eq_comm, Option.map_eq_some_iff] at hlist
    obtain ⟨res, hres, heq⟩ := hlist
    exact .inr ⟨k, res, rfl, hres, heq.symm⟩

theorem Shown.of_shows (hk : s.scanRstSetPtr = some k) (hres : t.scanRstSetPtr = some res)
    (h : Shows (s.sets k).res res) (hcfm : s.resultfulScanCfm = t.resultfulScanCfm) :
    Shown s t where
  list := by rw [hk, hres, Option.map_some, Option.map_some, h]
  cfm := hcfm

theorem flush_flush : t.flush.flush = t.flush := by
  unfold ScanRun.flush
  split
  · rfl
  · rfl

/-- One indication, when nothing is left to be flushed. -/
theorem Shown.takeResult (h : Shown s t) (hflush : t.flush = t)
    (hnodup : (t.list.map StaScanRes.bssid).Nodup) {shell : Bool} :
    Shown (s.takeResult country.isScanRstInCountrycode (i.frame ip) shell malloc)
      (t.scanuResultInd ip country i shell malloc).1 := by
  unfold ScanRst.Scan.takeResult ScanRun.scanuResultInd
  simp only [hflush, ScanRun.shell]
  obtain ⟨hk, ht⟩ | ⟨k, res, hk, ht, hshows⟩ := h.cases
  · rw [hk, ht, Option.none_or]
    cases shell
    · refine ⟨?_, h.cfm⟩
      change Option.map _ s.scanRstSetPtr = Option.map _ none
      rw [hk, Option.map_none, Option.map_none]
    · -- the fresh set, and the fresh list
      let s' : ScanRst.Scan := { s.setSet s.shells { ref := 0, res := [] } with
        shells := s.shells + 1
        scanRstSetPtr := some s.shells }
      have hfresh : Shows (s'.sets s.shells).res [] := by
        change Shows ((s.setSet s.shells _).sets s.shells).res []
        rw [ScanRst.setSet_self]
        rfl
      obtain ⟨hptr, hcfm⟩ := @mhdrScanuResultInd_ptr s' s.shells malloc
        country.isScanRstInCountrycode (i.frame ip)
      exact .of_shows hptr rfl (hfresh.mhdrScanuResultInd List.nodup_nil) (hcfm.trans h.cfm)
  · rw [hk, ht, Option.some_or]
    rw [ScanRun.list, ht, Option.getD_some] at hnodup
    obtain ⟨hptr, hcfm⟩ := @mhdrScanuResultInd_ptr s k malloc
      country.isScanRstInCountrycode (i.frame ip)
    exact .of_shows (hptr.trans hk) rfl (hshows.mhdrScanuResultInd hnodup) (hcfm.trans h.cfm)

/-- `SCANU_RESULT_IND` does to the sets of results what it does to the list. -/
theorem Shown.scanuResultInd (h : Shown s t) (hnodup : (t.list.map StaScanRes.bssid).Nodup)
    {shell : Bool} :
    Shown (s.scanuResultInd country.isScanRstInCountrycode (i.frame ip) shell malloc)
      (t.scanuResultInd ip country i shell malloc).1 := by
  obtain ⟨hk, ht⟩ | ⟨k, res, hk, ht, hshows⟩ := h.cases
  · rw [ScanRst.scanuResultInd_keep fun _ => hk]
    refine h.takeResult ?_ hnodup
    rw [ScanRun.flush, ht, Option.isSome_none, Bool.and_false, if_neg Bool.false_ne_true]
  · cases hcfm : s.resultfulScanCfm
    · rw [ScanRst.scanuResultInd_keep fun h => absurd (hcfm ▸ h) Bool.false_ne_true]
      refine h.takeResult ?_ hnodup
      rw [ScanRun.flush, ← h.cfm, hcfm, Bool.false_and, if_neg Bool.false_ne_true]
    · rw [ScanRst.scanuResultInd_flush hk hcfm]
      have hflush : t.flush = ⟨none, false, []⟩ := by
        rw [ScanRun.flush, ← h.cfm, hcfm, ht]
        rfl
      have hfresh : Shown (s.released k) t.flush := by
        rw [hflush]
        exact ⟨rfl, rfl⟩
      have hstep : t.flush.scanuResultInd ip country i shell malloc =
          t.scanuResultInd ip country i shell malloc := by
        rw [ScanRun.scanuResultInd, flush_flush, ← ScanRun.scanuResultInd]
      rw [← hstep]
      refine hfresh.takeResult flush_flush ?_
      rw [hflush]
      exact List.nodup_nil

/-- And so does `SCANU_START_CFM`. -/
theorem Shown.scanuStartCfm (h : Shown s t) : Shown s.scanuStartCfm t.scanuStartCfm.1 := by
  unfold ScanRst.Scan.scanuStartCfm ScanRun.scanuStartCfm
  obtain ⟨hk, ht⟩ | ⟨k, res, hk, ht, hshows⟩ := h.cases
  · rw [hk, ht]
    exact ⟨congrArg _ hk, h.cfm⟩
  · rw [hk, ht]
    refine .of_shows hk rfl ?_ rfl
    change Shows ((s.setRes k _).sets k).res _
    rw [setRes_res]
    exact hshows.sort

end Handlers

section Runs

/-- The event as the sets of results see it. -/
def ScanEvent.shown (ip : IpLib) : ScanEvent → ScanRst.Event
  | .scanuResultInd country i shell malloc =>
    .scanuResultInd country.isScanRstInCountrycode (i.frame ip) shell malloc
  | .scanuStartCfm => .scanuStartCfm

variable {ip : IpLib} {s t : ScanRun} {e : ScanEvent} {o : ScanAnswer}

theorem once_flush (h : (s.list.map StaScanRes.bssid).Nodup) :
    (s.flush.list.map StaScanRes.bssid).Nodup := by
  unfold ScanRun.flush
  split
  · exact List.nodup_nil
  · exact h

theorem once_step (h : (s.list.map StaScanRes.bssid).Nodup)
    (hs : (scanList ip).step s e = some (t, o)) : (t.list.map StaScanRes.bssid).Nodup := by
  cases e with
  | scanuResultInd country i shell malloc =>
    have hs : s.scanuResultInd ip country i shell malloc = (t, o) := Option.some.inj hs
    have ht : t = (s.scanuResultInd ip country i shell malloc).1 := by rw [hs]
    rw [ht, ScanRun.scanuResultInd]
    cases hshell : s.flush.shell shell with
    | none =>
      dsimp only
      rw [ScanRun.list, list_of_no_shell hshell]
      exact List.nodup_nil
    | some res => exact run_once (list_of_shell hshell ▸ once_flush h)
  | scanuStartCfm =>
    have hs : s.scanuStartCfm = (t, o) := Option.some.inj hs
    have ht : t = s.scanuStartCfm.1 := by rw [hs]
    rw [ht, ScanRun.scanuStartCfm]
    cases hptr : s.scanRstSetPtr with
    | none => exact List.nodup_nil
    | some res =>
      rw [ScanRun.list, hptr] at h
      exact ((ExchangeSort.sort_perm res).map _).nodup_iff.mpr h

/-- Every run of the list is one of the sets of results, and they show it. -/
theorem scanList_shown {h : Machine.History ScanEvent ScanAnswer}
    (hr : (scanList ip).Reaches h s) :
    ∃ a, ScanRst.scanRst.Reaches (h.map fun x => (x.1.shown ip, .done)) a ∧ Shown a s := by
  have hinit : Shown ScanRst.scanRst.init (scanList ip).init ∧
    ((scanList ip).init.list.map StaScanRes.bssid).Nodup := ⟨⟨rfl, rfl⟩, List.nodup_nil⟩
  have hstep {s t : ScanRun} {a : ScanRst.Scan} {e : ScanEvent} {o : ScanAnswer}
      (hR : Shown a s ∧ (s.list.map StaScanRes.bssid).Nodup)
      (hs : (scanList ip).step s e = some (t, o)) :
      ∃ b, ScanRst.scanRst.step a (e.shown ip) = some (b, .done) ∧ Shown b t ∧
        (t.list.map StaScanRes.bssid).Nodup := by
    obtain ⟨hshown, hnodup⟩ := hR
    have honce := once_step hnodup hs
    cases e with
    | scanuResultInd country i shell malloc =>
      have hs : s.scanuResultInd ip country i shell malloc = (t, o) := Option.some.inj hs
      have hnext := @Shown.scanuResultInd a s ip country i malloc hshown hnodup shell
      rw [hs] at hnext
      exact ⟨_, rfl, hnext, honce⟩
    | scanuStartCfm =>
      have hs : s.scanuStartCfm = (t, o) := Option.some.inj hs
      have hnext := hshown.scanuStartCfm
      rw [hs] at hnext
      exact ⟨_, rfl, hnext, honce⟩
  obtain ⟨a, ha, hshown, -⟩ := hr.simulates (fun x => (x.1.shown ip, .done))
    (fun s a => Shown a s ∧ (s.list.map StaScanRes.bssid).Nodup) hinit fun hR _ hs => hstep hR hs
  exact ⟨a, ha, hshown⟩

end Runs

end BdkRtt.Wlan.ScanList
