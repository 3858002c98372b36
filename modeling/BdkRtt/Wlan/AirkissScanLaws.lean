import BdkRtt.Wlan.AirkissScan

namespace BdkRtt.Wlan.Airkiss

open Lib

section Add

/-- An entry of the list as the order looks at it. -/
def ChanParam.view (c : ChanParam) : UInt16 × Nat := (c.channel, c.dataCnt.toNat)

/-- A place for `channel` in a list of entries. -/
def insertView (channel dataCnt : UInt8) (xs : List ChanParam) : List (UInt16 × Nat) :=
  Ranked.insert Prod.snd (channel.toUInt16, dataCnt.toNat) (xs.map ChanParam.view)

variable {g : Channels} {channel bcnCnt dataCnt : UInt8}

theorem put_eq {xs ys : List ChanParam} {x : ChanParam} (h : g.chan = xs ++ x :: ys) :
    g.put xs.length channel dataCnt =
      some { g with chan := xs ++ { x with channel := channel.toUInt16, dataCnt } :: ys } := by
  have hget : g.chan[xs.length]? = some x := by
    rw [h, List.getElem?_append_right (Nat.le_refl _), Nat.sub_self]
    rfl
  rw [Channels.put, hget, Option.map_some, h, List.set_append_right _ _ (Nat.le_refl _),
    Nat.sub_self]
  rfl

/-- The selected entries from `c` on go one place further, over the entry behind them. -/
theorem moveUp_eq {xs ys zs : List ChanParam} {c x : ChanParam}
    (h : g.chan = xs ++ (c :: ys ++ x :: zs)) (hlen : g.chan.length = maxChannels)
    (hsel : g.selectedChanNums.toNat = xs.length + (ys.length + 1)) :
    g.moveUp xs.length = some { g with
      chan := xs ++ c :: (c :: ys ++ zs), selectedChanNums := g.selectedChanNums + 1 } := by
  have hlt := g.selectedChanNums.toNat_lt
  have hmove : (g.selectedChanNums - UInt8.ofNat xs.length).toNat = ys.length + 1 := by
    have hxs : (UInt8.ofNat xs.length).toNat = xs.length :=
      UInt8.toNat_ofNat_of_lt' (by change _ < 256; omega)
    have hle : UInt8.ofNat xs.length ≤ g.selectedChanNums := by
      rw [UInt8.le_iff_toNat_le, hxs]
      omega
    rw [UInt8.toNat_sub_of_le _ _ hle, hxs, hsel, Nat.add_sub_cancel_left]
  rw [h, List.length_append, List.length_append, List.length_cons, List.length_cons] at hlen
  have htake : (g.chan.drop xs.length).take (ys.length + 1) = c :: ys := by
    rw [h, List.drop_left' rfl]
    exact List.take_left' rfl
  have hsplice : splice g.chan (xs.length + 1) (c :: ys) = xs ++ c :: (c :: ys ++ zs) := by
    have hlist : g.chan = xs ++ [c] ++ (ys ++ [x] ++ zs) := by
      rw [h]
      simp
    have hlength : (xs ++ [c]).length = xs.length + 1 := List.length_append
    rw [hlist, ← hlength, splice_append _ _ _ _ (by simp), List.append_assoc]
    rfl
  rw [Channels.moveUp, hmove, if_pos (by omega), htake, hsplice]

/-- What the loop makes of the entries that are still to come. -/
theorem addFrom_eq {xs ys zs : List ChanParam} {x : ChanParam}
    (h : g.chan = xs ++ (ys ++ x :: zs)) (hlen : g.chan.length = maxChannels)
    (hsel : g.selectedChanNums.toNat = xs.length + ys.length)
    (hnew : ∀ c ∈ ys, c.channel.toUInt8 ≠ channel) :
    ∃ ns, g.addFrom channel dataCnt ys.length xs.length = some { g with
      chan := xs ++ (ns ++ zs), selectedChanNums := g.selectedChanNums + 1 } ∧
      ns.map ChanParam.view = insertView channel dataCnt ys := by
  induction ys generalizing xs with
  | nil => exact ⟨[_], put_eq (g := { g with selectedChanNums := _ }) h, rfl⟩
  | cons c ys ih =>
    have hget : g.chan[xs.length]? = some c := by
      rw [h, List.getElem?_append_right (Nat.le_refl _), Nat.sub_self]
      rfl
    have hhead := hnew c List.mem_cons_self
    rw [List.length_cons] at hsel
    rw [List.length_cons, Channels.addFrom, hget, Option.bind_some]
    split
    next hlt =>
      have hmove := moveUp_eq h hlen hsel
      rw [hmove, Option.bind_some]
      refine ⟨_ :: c :: ys, put_eq rfl, ?_⟩
      have hrank : (ChanParam.view c).2 < (channel.toUInt16, dataCnt.toNat).2 :=
        UInt8.lt_iff_toNat_lt.mp hlt
      rw [insertView, List.map_cons, List.map_cons, Ranked.insert_cons_of_lt hrank]
      rfl
    next hge =>
      have hnext : g.chan = (xs ++ [c]) ++ (ys ++ x :: zs) := by
        rw [h, List.append_assoc]
        rfl
      have hlength : (xs ++ [c]).length = xs.length + 1 := List.length_append
      obtain ⟨ns, hadd, hview⟩ := ih hnext (by rw [hlength]; omega) fun b hb =>
        hnew b (List.mem_cons_of_mem c hb)
      rw [hlength] at hadd
      refine ⟨c :: ns, ?_, ?_⟩
      · rw [hadd, List.append_assoc]
        rfl
      · have hrank : ∀ b ∈ [c.view], (channel.toUInt16, dataCnt.toNat).2 ≤ b.2 := by
          intro b hb
          rw [List.mem_singleton.mp hb]
          exact Nat.le_of_not_lt fun h => hge (UInt8.lt_iff_toNat_lt.mpr h)
        rw [List.map_cons, hview, insertView, insertView, List.map_cons]
        exact (Ranked.insert_append hrank).symm

theorem airkissAddChannel_of_few
    (h : dataCnt < minValidDatacntInchan ∨ bcnCnt < minValidBcncntInchan) :
    airkissAddChannel g channel bcnCnt dataCnt = some g := by
  rw [airkissAddChannel]
  split
  · rfl
  next hdata => rw [if_pos (h.resolve_left hdata)]

/-- A channel that has enough goes to its place, and the entry behind the selected ones is used
up. -/
theorem airkissAddChannel_of_enough (hlen : g.chan.length = maxChannels)
    (hsel : g.selectedChanNums.toNat < maxChannels)
    (hnew : ∀ c ∈ g.selected, c.channel.toUInt8 ≠ channel)
    (hdata : ¬ dataCnt < minValidDatacntInchan) (hbcn : ¬ bcnCnt < minValidBcncntInchan) :
    ∃ ns, airkissAddChannel g channel bcnCnt dataCnt = some { g with
      chan := ns ++ g.chan.drop (g.selectedChanNums.toNat + 1)
      selectedChanNums := g.selectedChanNums + 1 } ∧
      ns.map ChanParam.view = insertView channel dataCnt g.selected := by
  have hsplit : g.chan = [] ++ (g.selected ++ g.chan[g.selectedChanNums.toNat] ::
      g.chan.drop (g.selectedChanNums.toNat + 1)) := by
    rw [List.nil_append, ← List.drop_eq_getElem_cons]
    exact (List.take_append_drop ..).symm
  have hlength : g.selected.length = g.selectedChanNums.toNat := by
    rw [Channels.selected, List.length_take]
    omega
  obtain ⟨ns, hadd, hview⟩ := @addFrom_eq g channel dataCnt _ _ _ _ hsplit hlen
    (by rw [hlength]; exact (Nat.zero_add _).symm) hnew
  rw [hlength] at hadd
  refine ⟨ns, ?_, hview⟩
  rw [airkissAddChannel, if_neg hdata, if_neg hbcn]
  exact hadd

end Add

section Lists

variable {dwells ds : List Dwell} {d : Dwell}

/-- The channel as the array has it. -/
def Dwell.key (d : Dwell) : UInt16 := d.channel.toUInt16

@[simp] theorem Dwell.key_toUInt8 (d : Dwell) : d.key.toUInt8 = d.channel :=
  UInt8.toUInt8_toUInt16 d.channel

/-- The list after a scan, as the counters have it. -/
def Dwell.addTo (d : Dwell) (ds : List Dwell) : List Dwell :=
  if d.counted.Worthy then Ranked.insert (fun e => e.counted.datas) d ds else ds

theorem mem_addTo {e : Dwell} (h : e ∈ d.addTo ds) : e = d ∨ e ∈ ds := by
  rw [Dwell.addTo] at h
  split at h
  · exact List.mem_cons.mp (Ranked.insert_perm.mem_iff.mp h)
  · exact .inr h

/-- A list of channels has one reading at most. -/
theorem eq_of_keys (hnodup : (dwells.map Dwell.channel).Nodup) {es : List Dwell}
    (hds : ∀ e ∈ ds, e ∈ dwells) (hes : ∀ e ∈ es, e ∈ dwells)
    (h : ds.map Dwell.key = es.map Dwell.key) : ds = es := by
  induction ds generalizing es with
  | nil => exact (List.map_eq_nil_iff.mp h.symm).symm
  | cons x ds ih =>
    obtain ⟨y, es, rfl, hkey, hrest⟩ := List.map_eq_cons_iff.mp h.symm
    have hchannel : x.channel = y.channel := UInt8.toUInt16_inj.mp hkey.symm
    have hxy := List.inj_on_of_nodup_map hnodup (hds x List.mem_cons_self)
      (hes y List.mem_cons_self) hchannel
    have htail := ih (fun e he => hds e (List.mem_cons_of_mem x he))
      (fun e he => hes e (List.mem_cons_of_mem y he)) hrest.symm
    rw [hxy, htail]

theorem addTo_perm_iff (hperm : ds.Perm (dwells.filter fun d => d.Worthy)) :
    (d.addTo ds).Perm ((dwells ++ [d]).filter fun d => d.Worthy) ↔
      (d.Worthy ↔ d.counted.Worthy) := by
  have hlength := hperm.length_eq
  rw [List.filter_append, Dwell.addTo]
  by_cases hcounted : d.counted.Worthy
  · rw [if_pos hcounted, iff_true_right hcounted]
    constructor
    · intro h
      by_contra hno
      have hlength' := (Ranked.insert_perm.symm.trans h).length_eq
      simp [hno, hlength] at hlength'
    · intro hworthy
      have hone : [d].filter (fun d => decide d.Worthy) = [d] := by simp [hworthy]
      rw [hone]
      exact Ranked.insert_perm.trans ((hperm.cons d).trans (List.perm_append_singleton d _).symm)
  · rw [if_neg hcounted, iff_false_right hcounted]
    constructor
    · intro h hworthy
      have hlength' := h.length_eq
      simp [hworthy, hlength] at hlength'
    · intro hno
      have hnone : [d].filter (fun d => decide d.Worthy) = [] := by simp [hno]
      rw [hnone, List.append_nil]
      exact hperm

/-- The list after a scan is the right one where the scan can be told from those before. -/
theorem addTo_right_iff (hperm : ds.Perm (dwells.filter fun d => d.Worthy))
    (hsorted : Ranked.Sorted Dwell.datas ds)
    (hcounted : Ranked.Sorted (fun e => e.counted.datas) ds) :
    (d.addTo ds).Perm ((dwells ++ [d]).filter fun d => d.Worthy) ∧
      Ranked.Sorted Dwell.datas (d.addTo ds) ↔ d.Told dwells := by
  have hmem (e : Dwell) : e ∈ ds ↔ e ∈ dwells ∧ e.Worthy := by
    rw [hperm.mem_iff, List.mem_filter, decide_eq_true_iff]
  rw [addTo_perm_iff hperm]
  constructor
  · rintro ⟨hworthy, hafter⟩
    refine ⟨hworthy, fun hd e he hew => ?_⟩
    rw [Dwell.addTo, if_pos (hworthy.mp hd)] at hafter
    exact ((Ranked.pairwise_insert_iff hcounted _).mp hafter).2 e ((hmem e).mpr ⟨he, hew⟩)
  · intro h
    refine ⟨h.worthy, ?_⟩
    rw [Dwell.addTo]
    split
    next hd =>
      refine (Ranked.pairwise_insert_iff hcounted _).mpr ⟨hsorted, fun e he => ?_⟩
      obtain ⟨he, hew⟩ := (hmem e).mp he
      exact h.order (h.worthy.mpr hd) e he hew
    next => exact hsorted

theorem addTo_counted (hcounted : Ranked.Sorted (fun e => e.counted.datas) ds) :
    Ranked.Sorted (fun e => e.counted.datas) (d.addTo ds) := by
  rw [Dwell.addTo]
  split
  · exact Ranked.insert_sorted hcounted
  · exact hcounted

/-- What the entries of the list show. -/
def Dwell.view (d : Dwell) : UInt16 × Nat := (d.key, d.counted.datas)

theorem addTo_view (h : d.counted.Worthy) : (d.addTo ds).map Dwell.view =
    Ranked.insert Prod.snd d.view (ds.map Dwell.view) := by
  rw [Dwell.addTo, if_pos h]
  exact Ranked.map_insert _ fun _ => rfl

end Lists

section Invariant

/-- The list is the right one for the finished scans. -/
structure Listed (dwells ds : List Dwell) : Prop where
  perm : ds.Perm (dwells.filter fun d => d.Worthy)
  sorted : Ranked.Sorted Dwell.datas ds

/-- While all channels are scanned: the selected entries, then entries that are used up, then the
one of the channel, then the ones of the channels to come. -/
structure Scanning (s : ChanRun) (ds : List Dwell) : Prop where
  mode : s.globals.chans.mode = airkissScanAllChan
  nums : s.globals.chans.allChanNums = 13
  length : s.globals.chans.chan.length = maxChannels
  idx : s.globals.chans.curChanIdx.toNat = s.dwells.length
  lt : s.dwells.length < 13
  fits : s.globals.chans.selectedChanNums.toNat ≤ s.dwells.length
  current : s.globals.chans.chan[s.dwells.length]? =
    some ⟨UInt8.ofNat s.dwell.bcns, UInt8.ofNat s.dwell.datas, s.dwell.key⟩
  fresh : s.globals.chans.chan.drop (s.dwells.length + 1) =
    scanAllChannels.chan.drop (s.dwells.length + 1)
  channels : s.dwells.map Dwell.channel ++ [s.dwell.channel] =
    allChannels.take (s.dwells.length + 1)
  views : s.globals.chans.selected.map ChanParam.view = ds.map Dwell.view
  counted : Ranked.Sorted (fun e => e.counted.datas) ds
  mem : ∀ e ∈ ds, e ∈ s.dwells

/-- While the selected channels are scanned. -/
structure Picking (s : ChanRun) (ds : List Dwell) : Prop where
  mode : s.globals.chans.mode = airkissScanSelectedChan
  length : s.globals.chans.chan.length = maxChannels
  idx : s.globals.chans.curChanIdx.toNat < s.globals.chans.selectedChanNums.toNat
  fits : s.globals.chans.selectedChanNums.toNat < maxChannels
  keys : s.globals.chans.selected.map ChanParam.channel = ds.map Dwell.key

/-- A finished round went through all channels, and left none that saw enough. -/
def Round.Right (r : Round) : Prop :=
  r.dwells.map Dwell.channel = allChannels ∧ (r.picked = false → ∀ d ∈ r.dwells, ¬ d.Worthy)

structure ChanInv (s : ChanRun) : Prop where
  phase : ∃ ds, Listed s.dwells ds ∧ (Scanning s ds ∨ Picking s ds)
  rounds : ∀ r ∈ s.rounds, r.Right

theorem scanning_reset (g : Globals) (rounds : List Round) :
    Scanning ⟨airkissSetScanAllChannel g, ⟨1, 0, 0⟩, [], rounds⟩ [] where
  mode := rfl
  nums := rfl
  length := rfl
  idx := rfl
  lt := Nat.zero_lt_succ 12
  fits := Nat.le_refl 0
  current := rfl
  fresh := rfl
  channels := rfl
  views := rfl
  counted := .nil
  mem _ h := h

theorem chanInv_init (macIeFind : MacIeFind) (g : Globals) :
    ChanInv (chanScan macIeFind g).init where
  phase := ⟨[], ⟨.nil, .nil⟩, .inl (scanning_reset g [])⟩
  rounds _ h := absurd h List.not_mem_nil

theorem Scanning.keys {s : ChanRun} {ds : List Dwell} (h : Scanning s ds) :
    s.globals.chans.selected.map ChanParam.channel = ds.map Dwell.key := by
  have hviews := congrArg (List.map Prod.fst) h.views
  rwa [List.map_map, List.map_map] at hviews

end Invariant

section Frames

variable {macIeFind : MacIeFind} {g : Globals} {data : Mem UInt8} {len : Nat} {c : ChanParam}

/-- The frame as the counters see it. -/
def ChanParam.hear (c : ChanParam) (data : Mem UInt8) (len : Nat) : ChanParam :=
  if len < airkissMinRxBufSize then c
  else if isBeacon data then { c with bcnCnt := c.bcnCnt + 1 }
  else if isData data then { c with dataCnt := c.dataCnt + 1 }
  else c

theorem ChanParam.hear_channel (c : ChanParam) (data : Mem UInt8) (len : Nat) :
    (c.hear data len).channel = c.channel := by
  rw [ChanParam.hear]
  split
  · rfl
  split
  · rfl
  split <;> rfl

theorem hear_counters (d : Dwell) (data : Mem UInt8) (len : Nat) :
    ChanParam.hear ⟨UInt8.ofNat d.bcns, UInt8.ofNat d.datas, d.key⟩ data len =
      ⟨UInt8.ofNat (d.hear data len).bcns, UInt8.ofNat (d.hear data len).datas,
        (d.hear data len).key⟩ := by
  have hsucc (n : Nat) : UInt8.ofNat n + 1 = UInt8.ofNat (n + 1) := (UInt8.ofNat_add n 1).symm
  rw [ChanParam.hear, Dwell.hear]
  split
  · rfl
  split
  · rw [hsucc]
    rfl
  split
  · rw [hsucc]
    rfl
  · rfl

/-- A frame counts on the entry of the channel, and on nothing else of the channels. -/
theorem monitor_chans (h : g.chans.chan[g.chans.curChanIdx.toNat]? = some c) :
    ∃ r, airkissMonitorCallback macIeFind g data len = some r ∧
      r.1.chans = { g.chans with
        chan := g.chans.chan.set g.chans.curChanIdx.toNat (c.hear data len) } := by
  have hself : g.chans.chan.set g.chans.curChanIdx.toNat c = g.chans.chan := by
    apply List.ext_getElem?
    intro i
    rw [List.getElem?_set]
    split
    next heq =>
      subst heq
      rw [h, if_pos (List.getElem?_eq_some_iff.mp h).1]
    next => rfl
  rw [airkissMonitorCallback, ChanParam.hear]
  split
  next => exact ⟨_, rfl, by rw [hself]⟩
  next hlen =>
    have hpos : len ≠ 0 := by
      rintro rfl
      exact hlen (by decide)
    rw [airkissCountUsefullPacket, if_neg hpos]
    split
    next =>
      rw [Channels.count, h]
      exact ⟨_, rfl, rfl⟩
    next =>
      split
      next =>
        rw [Channels.count, h]
        exact ⟨_, rfl, rfl⟩
      next => exact ⟨_, rfl, by rw [hself]⟩

/-- What a frame changes does not show in the channels of the entries. -/
theorem map_channel_set {xs : List ChanParam} {i : Nat} (h : xs[i]? = some c) (n : Nat) :
    ((xs.set i (c.hear data len)).take n).map ChanParam.channel =
      (xs.take n).map ChanParam.channel := by
  rw [List.map_take, List.map_take]
  congr 1
  apply List.ext_getElem?
  intro k
  rw [List.getElem?_map, List.getElem?_map, List.getElem?_set]
  split
  next heq =>
    subst heq
    rw [if_pos (List.getElem?_eq_some_iff.mp h).1, h, Option.map_some, Option.map_some,
      ChanParam.hear_channel]
  next => rfl

/-- The selected entries lie in front of the one that is counted on. -/
theorem take_set_behind {xs : List ChanParam} {i n : Nat} (h : n ≤ i) (x : ChanParam) :
    (xs.set i x).take n = xs.take n := by
  rw [List.take_set, List.set_eq_of_length_le]
  rw [List.length_take]
  omega

end Frames

section Steps

variable {macIeFind : MacIeFind} {s : ChanRun} {ds : List Dwell} {data : Mem UInt8} {len : Nat}

theorem Scanning.frame (h : Scanning s ds) (macIeFind : MacIeFind) (data : Mem UInt8) (len : Nat) :
    ∃ t, s.step macIeFind (.frame data len) = some (t, .heard) ∧ Scanning t ds ∧
      t.dwells = s.dwells ∧ t.rounds = s.rounds ∧ t.dwell = s.dwell.hear data len := by
  have hcurrent := h.current
  rw [← h.idx] at hcurrent
  obtain ⟨r, hr, hchans⟩ := @monitor_chans macIeFind _ data len _ hcurrent
  rw [hear_counters, h.idx] at hchans
  refine ⟨{ s with globals := r.1, dwell := s.dwell.hear data len },
    by rw [ChanRun.step, hr]; rfl, ?_, rfl, rfl, rfl⟩
  have hlt : s.dwells.length < s.globals.chans.chan.length := by
    have := h.lt
    rw [h.length]
    exact Nat.lt_succ_of_lt this
  have hchannel : (s.dwell.hear data len).channel = s.dwell.channel := by
    rw [Dwell.hear]
    split
    · rfl
    split
    · rfl
    split <;> rfl
  constructor
  case current =>
    simp only [hchans]
    exact List.getElem?_set_self hlt
  case fresh =>
    simp only [hchans]
    rw [List.drop_set_of_lt (Nat.lt_succ_self _)]
    exact h.fresh
  case views =>
    simp only [hchans, Channels.selected]
    rw [take_set_behind h.fits]
    exact h.views
  case channels =>
    simp only [hchannel]
    exact h.channels
  case lt => exact h.lt
  case counted => exact h.counted
  case mem => exact h.mem
  all_goals simp only [hchans]
  case mode => exact h.mode
  case nums => exact h.nums
  case length => exact List.length_set.trans h.length
  case idx => exact h.idx
  case fits => exact h.fits

theorem Picking.entry (h : Picking s ds) :
    ∃ c, s.globals.chans.chan[s.globals.chans.curChanIdx.toNat]? = some c := by
  have hlt : s.globals.chans.curChanIdx.toNat < s.globals.chans.chan.length := by
    rw [h.length]
    exact Nat.lt_trans h.idx h.fits
  exact ⟨_, List.getElem?_eq_getElem hlt⟩

theorem Picking.frame (h : Picking s ds) (macIeFind : MacIeFind) (data : Mem UInt8) (len : Nat) :
    ∃ t, s.step macIeFind (.frame data len) = some (t, .heard) ∧ Picking t ds ∧
      t.dwells = s.dwells ∧ t.rounds = s.rounds := by
  obtain ⟨c, hc⟩ := h.entry
  obtain ⟨r, hr, hchans⟩ := @monitor_chans macIeFind _ data len _ hc
  refine ⟨{ s with globals := r.1, dwell := s.dwell.hear data len },
    by rw [ChanRun.step, hr]; rfl, ?_, rfl, rfl⟩
  constructor
  case keys =>
    simp only [hchans, Channels.selected]
    rw [map_channel_set hc]
    exact h.keys
  all_goals simp only [hchans]
  case mode => exact h.mode
  case length => exact List.length_set.trans h.length
  case idx => exact h.idx
  case fits => exact h.fits

/-- The array after the scan of a channel has been judged. -/
structure Added (s : ChanRun) (g : Channels) (ds : List Dwell) : Prop where
  mode : g.mode = s.globals.chans.mode
  nums : g.allChanNums = s.globals.chans.allChanNums
  idx : g.curChanIdx = s.globals.chans.curChanIdx
  length : g.chan.length = maxChannels
  fits : g.selectedChanNums.toNat ≤ s.dwells.length + 1
  fresh : g.chan.drop (s.dwells.length + 1) = scanAllChannels.chan.drop (s.dwells.length + 1)
  views : g.selected.map ChanParam.view = ds.map Dwell.view

theorem allChannels_nodup : allChannels.Nodup := by decide

/-- The channel has not been scanned before. -/
theorem Scanning.new (h : Scanning s ds) : ∀ e ∈ s.dwells, e.channel ≠ s.dwell.channel := by
  have hnodup : (s.dwells.map Dwell.channel ++ [s.dwell.channel]).Nodup := by
    rw [h.channels]
    exact allChannels_nodup.sublist (List.take_sublist _ _)
  intro e he heq
  have hdisjoint := (List.nodup_append.mp hnodup).2.2 e.channel (List.mem_map_of_mem he)
    s.dwell.channel (List.mem_singleton_self _)
  exact hdisjoint heq

theorem Scanning.length_selected (h : Scanning s ds) :
    s.globals.chans.selected.length = s.globals.chans.selectedChanNums.toNat := by
  have hlt := h.lt
  have hfits := h.fits
  rw [Channels.selected, List.length_take, h.length]
  change min _ 14 = _
  omega

theorem counted_worthy_iff (d : Dwell) : d.counted.Worthy ↔
    ¬ UInt8.ofNat d.datas < minValidDatacntInchan ∧
      ¬ UInt8.ofNat d.bcns < minValidBcncntInchan := by
  rw [UInt8.not_lt, UInt8.not_lt, UInt8.le_iff_toNat_le, UInt8.le_iff_toNat_le]
  exact Iff.rfl

theorem Scanning.add (h : Scanning s ds) : ∃ g, airkissAddChannel s.globals.chans
    s.dwell.channel (UInt8.ofNat s.dwell.bcns) (UInt8.ofNat s.dwell.datas) = some g ∧
      Added s g (s.dwell.addTo ds) := by
  have hlt := h.lt
  have hfits := h.fits
  by_cases hworthy : s.dwell.counted.Worthy
  case neg =>
    have hfew : UInt8.ofNat s.dwell.datas < minValidDatacntInchan ∨
        UInt8.ofNat s.dwell.bcns < minValidBcncntInchan := by
      by_contra hno
      exact hworthy ((counted_worthy_iff _).mpr (not_or.mp hno))
    refine ⟨_, airkissAddChannel_of_few hfew, rfl, rfl, rfl, h.length, Nat.le_succ_of_le hfits,
      h.fresh, ?_⟩
    rw [Dwell.addTo, if_neg hworthy]
    exact h.views
  case pos =>
    obtain ⟨hdata, hbcn⟩ := (counted_worthy_iff _).mp hworthy
    have hsel : s.globals.chans.selectedChanNums.toNat < maxChannels := by
      change _ < 14
      omega
    have hnew : ∀ c ∈ s.globals.chans.selected, c.channel.toUInt8 ≠ s.dwell.channel := by
      intro c hc heq
      have hkey : c.channel ∈ ds.map Dwell.key := by
        rw [← h.keys]
        exact List.mem_map_of_mem hc
      obtain ⟨e, he, hkey⟩ := List.mem_map.mp hkey
      rw [← hkey, Dwell.key_toUInt8] at heq
      exact h.new e (h.mem e he) heq
    obtain ⟨ns, hadd, hview⟩ := airkissAddChannel_of_enough h.length hsel hnew hdata hbcn
    have hlength : ns.length = s.globals.chans.selectedChanNums.toNat + 1 := by
      have := congrArg List.length hview
      rwa [List.length_map, insertView, Ranked.insert_perm.length_eq, List.length_cons,
        List.length_map, h.length_selected] at this
    have hnums : (s.globals.chans.selectedChanNums + 1).toNat =
        s.globals.chans.selectedChanNums.toNat + 1 := by
      rw [UInt8.toNat_add]
      exact Nat.mod_eq_of_lt (by change _ + 1 < 256; omega)
    refine ⟨_, hadd, rfl, rfl, rfl, ?_, ?_, ?_, ?_⟩
    · rw [List.length_append, hlength, List.length_drop, h.length]
      omega
    · rw [hnums]
      omega
    · have hbehind : s.dwells.length + 1 = ns.length +
          (s.dwells.length - s.globals.chans.selectedChanNums.toNat) := by omega
      conv_lhs => rw [hbehind]
      rw [List.drop_length_add_append, List.drop_drop, ← h.fresh]
      congr 1
      omega
    · rw [Channels.selected, hnums, ← hlength, List.take_left' rfl, hview, addTo_view hworthy,
        ← h.views]
      rfl

/-- The entries of the channels to come. -/
theorem fresh_entry : ∀ k < 13,
    scanAllChannels.chan[k]? = some ⟨0, 0, (UInt8.ofNat (k + 1)).toUInt16⟩ ∧
      allChannels.take (k + 1) = allChannels.take k ++ [UInt8.ofNat (k + 1)] := by
  decide

/-- How the scan goes on. -/
inductive AfterScan (s t : ChanRun) (ds : List Dwell) : Prop
  | next : Scanning t ds → t.dwells = s.dwells ++ [s.dwell] → t.rounds = s.rounds →
      AfterScan s t ds
  | picked : Picking t ds → t.dwells = s.dwells ++ [s.dwell] →
      t.dwells.map Dwell.channel = allChannels → t.rounds = s.rounds ++ [⟨t.dwells, true⟩] →
      AfterScan s t ds
  | again : ds = [] → Scanning t [] → t.dwells = [] →
      (s.dwells ++ [s.dwell]).map Dwell.channel = allChannels →
      t.rounds = s.rounds ++ [⟨s.dwells ++ [s.dwell], false⟩] → AfterScan s t ds

/-- The scan of a channel that is not the last one. -/
theorem Scanning.next (h : Scanning s ds) {g : Channels} (hg : Added s g (s.dwell.addTo ds))
    (hlt : s.dwells.length + 1 < 13) :
    ∃ sw, { s.globals with chans := g }.nextOfAll =
      some ({ s.globals with chans := { g with curChanIdx := g.curChanIdx + 1 } }, some sw) ∧
      Scanning ⟨{ s.globals with chans := { g with curChanIdx := g.curChanIdx + 1 } },
        ⟨sw.channel, 0, 0⟩, s.dwells ++ [s.dwell], s.rounds⟩ (s.dwell.addTo ds) := by
  have hidx : (g.curChanIdx + 1).toNat = s.dwells.length + 1 := by
    rw [hg.idx, UInt8.toNat_add, h.idx]
    exact Nat.mod_eq_of_lt (by change _ + 1 < 256; omega)
  have hnot : ¬ g.curChanIdx + 1 ≥ g.allChanNums := by
    rw [hg.nums, h.nums, ge_iff_le, UInt8.le_iff_toNat_le, hidx]
    exact Nat.not_le_of_lt hlt
  obtain ⟨hfresh, htake⟩ := fresh_entry _ hlt
  have hentry : g.chan[s.dwells.length + 1]? = scanAllChannels.chan[s.dwells.length + 1]? := by
    have := congrArg List.head? hg.fresh
    rwa [List.head?_drop, List.head?_drop] at this
  have hlength : (s.dwells ++ [s.dwell]).length = s.dwells.length + 1 := List.length_append
  refine ⟨⟨UInt8.ofNat (s.dwells.length + 1 + 1), airkissSwitchTimer⟩, ?_, ?_⟩
  · rw [Globals.nextOfAll, if_neg hnot, Globals.switch]
    simp only [hidx]
    rw [hentry, hfresh, Option.map_some, UInt8.toUInt8_toUInt16]
  · constructor
    case mode => exact hg.mode.trans h.mode
    case nums => exact hg.nums.trans h.nums
    case length => exact hg.length
    case idx => exact hidx.trans hlength.symm
    case lt => exact hlength ▸ hlt
    case fits => exact hlength ▸ hg.fits
    case current =>
      rw [hlength]
      exact hentry.trans hfresh
    case fresh =>
      have := congrArg List.tail hg.fresh
      rw [hlength]
      rwa [List.tail_drop, List.tail_drop] at this
    case channels =>
      rw [hlength, htake, List.map_append, List.map_singleton, h.channels]
    case views => exact hg.views
    case counted => exact addTo_counted h.counted
    case mem =>
      intro e he
      rcases mem_addTo he with rfl | he
      · exact List.mem_append_right _ (List.mem_singleton_self _)
      · exact List.mem_append_left _ (h.mem e he)

/-- The round has gone through all channels. -/
theorem Scanning.complete (h : Scanning s ds) (hlast : s.dwells.length + 1 = 13) :
    (s.dwells ++ [s.dwell]).map Dwell.channel = allChannels := by
  rw [List.map_append, List.map_singleton, h.channels, hlast]
  rfl

theorem Scanning.last_index (h : Scanning s ds) {g : Channels}
    (hg : Added s g (s.dwell.addTo ds)) (hlast : s.dwells.length + 1 = 13) :
    g.curChanIdx + 1 ≥ g.allChanNums := by
  rw [hg.nums, h.nums, ge_iff_le, UInt8.le_iff_toNat_le, hg.idx, UInt8.toNat_add, h.idx]
  change 13 ≤ (s.dwells.length + 1) % 256
  rw [hlast]

/-- The scan of the last channel, where some are selected. -/
theorem Scanning.pick (h : Scanning s ds) {g : Channels} (hg : Added s g (s.dwell.addTo ds))
    (hlast : s.dwells.length + 1 = 13) (hsel : g.selectedChanNums ≠ 0) :
    ∃ sw, { s.globals with chans := g }.nextOfAll =
      some ({ s.globals with
        chans := { g with curChanIdx := 0, mode := airkissScanSelectedChan } }, some sw) ∧
      ∀ d dwells rounds, Picking ⟨{ s.globals with
        chans := { g with curChanIdx := 0, mode := airkissScanSelectedChan } },
        d, dwells, rounds⟩ (s.dwell.addTo ds) := by
  have hidx := h.last_index hg hlast
  have hpos : 0 < g.selectedChanNums.toNat :=
    Nat.pos_of_ne_zero fun h0 => hsel (UInt8.toNat_inj.mp h0)
  have hfits := hg.fits
  rw [hlast] at hfits
  have hzero : 0 < g.chan.length := hg.length ▸ Nat.zero_lt_succ 13
  have hget : g.chan[0]? = some g.chan[0] := List.getElem?_eq_getElem hzero
  refine ⟨⟨g.chan[0].channel.toUInt8, airkissCalcTimeForSelectedChannel g.chan[0].dataCnt⟩, ?_,
    fun d dwells rounds => ?_⟩
  · rw [Globals.nextOfAll, if_pos hidx]
    simp only [if_pos hsel, hget, Option.bind_some, Globals.switch, UInt8.toNat_zero,
      Option.map_some]
  · refine ⟨rfl, hg.length, hpos, Nat.lt_succ_of_le hfits, ?_⟩
    have hviews := congrArg (List.map Prod.fst) hg.views
    rwa [List.map_map, List.map_map] at hviews

/-- The scan of the last channel, where none is selected. -/
theorem Scanning.restart (h : Scanning s ds) {g : Channels} (hg : Added s g (s.dwell.addTo ds))
    (hlast : s.dwells.length + 1 = 13) (hsel : g.selectedChanNums = 0) :
    { s.globals with chans := g }.nextOfAll =
      some (airkissSetScanAllChannel { s.globals with chans := g }, some ⟨1, airkissSwitchTimer⟩) ∧
      s.dwell.addTo ds = [] := by
  have hidx := h.last_index hg hlast
  constructor
  · rw [Globals.nextOfAll, if_pos hidx, if_neg (not_not.mpr hsel)]
    rfl
  · have hviews := hg.views
    rw [Channels.selected, hsel] at hviews
    exact List.map_eq_nil_iff.mp hviews.symm

theorem finish_restart (h : s.globals.chans.mode = airkissScanAllChan) (g : Globals) :
    s.finish (airkissSetScanAllChannel g) =
      ([], s.rounds ++ [⟨s.dwells ++ [s.dwell], false⟩]) := by
  rw [ChanRun.finish, if_pos h]
  rfl

theorem finish_reset (h : s.globals.chans.mode ≠ airkissScanAllChan) (g : Globals) :
    s.finish (airkissSetScanAllChannel g) = ([], s.rounds) := by
  rw [ChanRun.finish, if_neg h]
  rfl

theorem Scanning.expiry (h : Scanning s ds) (macIeFind : MacIeFind) :
    ∃ t o, s.step macIeFind .expiry = some (t, o) ∧ AfterScan s t (s.dwell.addTo ds) := by
  obtain ⟨g, hadd, hg⟩ := h.add
  have hcall :
      airkissSwitchChannelCallback s.globals = { s.globals with chans := g }.nextOfAll := by
    rw [airkissSwitchChannelCallback, h.idx, h.current, Option.bind_some, if_pos h.mode,
      Dwell.key_toUInt8, hadd, Option.bind_some]
  by_cases hlast : s.dwells.length + 1 = 13
  case neg =>
    have hlt := h.lt
    obtain ⟨sw, hnext, hscan⟩ := h.next hg (by omega)
    have hidx : g.curChanIdx + 1 ≠ 0 := by
      intro h0
      have hnat := congrArg UInt8.toNat h0
      have hlength : (s.dwells ++ [s.dwell]).length = s.dwells.length + 1 := List.length_append
      rw [hscan.idx, hlength] at hnat
      exact absurd hnat (Nat.succ_ne_zero _)
    refine ⟨_, _, by rw [ChanRun.step, hcall, hnext]; rfl, ?_⟩
    rw [ChanRun.finish, if_pos h.mode, if_neg hidx]
    exact .next hscan rfl rfl
  case pos =>
    have hall := h.complete hlast
    by_cases hsel : g.selectedChanNums = 0
    case neg =>
      obtain ⟨sw, hnext, hpick⟩ := h.pick hg hlast hsel
      refine ⟨_, _, by rw [ChanRun.step, hcall, hnext]; rfl, ?_⟩
      rw [ChanRun.finish, if_pos h.mode, if_pos rfl, if_pos rfl]
      exact .picked (hpick _ _ _) rfl hall rfl
    case pos =>
      obtain ⟨hnext, hnil⟩ := h.restart hg hlast hsel
      refine ⟨_, _, by rw [ChanRun.step, hcall, hnext]; rfl, ?_⟩
      rw [finish_restart h.mode]
      exact .again hnil (scanning_reset _ _) rfl hall rfl

theorem Picking.expiry (h : Picking s ds) (macIeFind : MacIeFind) :
    ∃ t o, s.step macIeFind .expiry = some (t, o) ∧ t.rounds = s.rounds ∧
      (Picking t ds ∧ t.dwells = s.dwells ∨ Scanning t [] ∧ t.dwells = []) := by
  obtain ⟨c, hc⟩ := h.entry
  have hmode : s.globals.chans.mode ≠ airkissScanAllChan := by
    rw [h.mode]
    decide
  have hidx := h.idx
  have hfits := h.fits
  change _ < 14 at hfits
  have hnext : (s.globals.chans.curChanIdx + 1).toNat = s.globals.chans.curChanIdx.toNat + 1 := by
    rw [UInt8.toNat_add]
    exact Nat.mod_eq_of_lt (by change _ + 1 < 256; omega)
  have hlt : (s.globals.chans.curChanIdx + 1).toNat < s.globals.chans.chan.length := by
    rw [hnext, h.length]
    change _ < 14
    omega
  have hget := List.getElem?_eq_getElem hlt
  have hcall : airkissSwitchChannelCallback s.globals = s.globals.nextOfSelected := by
    rw [airkissSwitchChannelCallback, hc, Option.bind_some, if_neg hmode, if_pos h.mode]
  by_cases hlast : s.globals.chans.curChanIdx + 1 ≥ s.globals.chans.selectedChanNums
  case pos =>
    have hreset : s.globals.nextOfSelected =
        some (airkissSetScanAllChannel s.globals, some ⟨1, airkissSwitchTimer⟩) := by
      rw [Globals.nextOfSelected, hget, Option.bind_some, if_pos hlast]
      rfl
    refine ⟨_, _, by rw [ChanRun.step, hcall, hreset]; rfl, ?_, .inr ?_⟩
    · rw [finish_reset hmode]
    · rw [finish_reset hmode]
      exact ⟨scanning_reset _ _, rfl⟩
  case neg =>
    obtain ⟨next, hget⟩ : ∃ next,
        s.globals.chans.chan[(s.globals.chans.curChanIdx + 1).toNat]? = some next := ⟨_, hget⟩
    have hgo : s.globals.nextOfSelected = some ({ s.globals with
        chans := { s.globals.chans with curChanIdx := s.globals.chans.curChanIdx + 1 } },
        some ⟨next.channel.toUInt8, airkissCalcTimeForSelectedChannel next.dataCnt⟩) := by
      rw [Globals.nextOfSelected, hget, Option.bind_some, if_neg hlast, Globals.switch]
      simp only [hget]
      rfl
    refine ⟨_, _, by rw [ChanRun.step, hcall, hgo]; rfl, ?_, .inl ?_⟩
    · rw [ChanRun.finish, if_neg hmode]
    · rw [ChanRun.finish, if_neg hmode, if_neg hmode]
      refine ⟨⟨h.mode, h.length, ?_, hfits, h.keys⟩, rfl⟩
      exact UInt8.lt_iff_toNat_lt.mp (UInt8.not_le.mp hlast)

end Steps

section Runs

variable {macIeFind : MacIeFind} {g : Globals} {s t : ChanRun} {ds : List Dwell} {e : ChanEvent}
  {o : ChanAnswer}

theorem ChanInv.isSome (h : ChanInv s) (macIeFind : MacIeFind) (e : ChanEvent) :
    (s.step macIeFind e).isSome := by
  obtain ⟨ds, -, hscan | hpick⟩ := h.phase
  · cases e with
    | frame data len =>
      obtain ⟨t, ht, -⟩ := hscan.frame macIeFind data len
      rw [ht]
      rfl
    | expiry =>
      obtain ⟨t, o, ht, -⟩ := hscan.expiry macIeFind
      rw [ht]
      rfl
  · cases e with
    | frame data len =>
      obtain ⟨t, ht, -⟩ := hpick.frame macIeFind data len
      rw [ht]
      rfl
    | expiry =>
      obtain ⟨t, o, ht, -⟩ := hpick.expiry macIeFind
      rw [ht]
      rfl

theorem ChanInv.law (h : ChanInv s) (macIeFind : MacIeFind) : ChanLaw macIeFind s := by
  obtain ⟨ds, hlisted, hphase⟩ := h.phase
  have hkeys : s.globals.chans.selected.map ChanParam.channel = ds.map Dwell.key :=
    hphase.elim Scanning.keys Picking.keys
  refine ⟨⟨ds, hlisted.perm, hlisted.sorted, hkeys⟩, fun hmode => ?_, h.rounds, ?_, h.isSome _⟩
  · rcases hphase with hscan | hpick
    · rw [hscan.channels]
      exact List.take_prefix _ _
    · rw [hpick.mode] at hmode
      exact absurd hmode (by decide)
  · rcases hphase with hscan | hpick
    · rw [hscan.idx]
      exact Nat.lt_succ_of_lt hscan.lt
    · exact Nat.lt_trans hpick.idx hpick.fits

/-- After the scan of a channel the law tells whether the list is still the right one. -/
theorem AfterScan.told (hs : Scanning s ds) (hlisted : Listed s.dwells ds)
    (ht : AfterScan s t (s.dwell.addTo ds)) (hlaw : ChanLaw macIeFind t) :
    s.dwell.Told s.dwells := by
  have hnodup : ((s.dwells ++ [s.dwell]).map Dwell.channel).Nodup := by
    rw [List.map_append, List.map_singleton, hs.channels]
    exact allChannels_nodup.sublist (List.take_sublist _ _)
  have hadd : ∀ e ∈ s.dwell.addTo ds, e ∈ s.dwells ++ [s.dwell] := by
    intro e he
    rcases mem_addTo he with rfl | he
    · exact List.mem_append_right _ (List.mem_singleton_self _)
    · exact List.mem_append_left _ (hs.mem e he)
  have hright (hdwells : t.dwells = s.dwells ++ [s.dwell])
      (hkeys : t.globals.chans.selected.map ChanParam.channel = (s.dwell.addTo ds).map Dwell.key) :
      s.dwell.Told s.dwells := by
    obtain ⟨es, hperm, hsorted, hes⟩ := hlaw.selected
    rw [hdwells] at hperm
    have hmem : ∀ e ∈ es, e ∈ s.dwells ++ [s.dwell] := fun e he =>
      (List.mem_filter.mp (hperm.mem_iff.mp he)).1
    have heq : s.dwell.addTo ds = es := eq_of_keys hnodup hadd hmem (hkeys.symm.trans hes)
    rw [← heq] at hperm hsorted
    exact (addTo_right_iff hlisted.perm hlisted.sorted hs.counted).mp ⟨hperm, hsorted⟩
  cases ht with
  | next hscan hdwells _ => exact hright hdwells hscan.keys
  | picked hpick hdwells _ _ => exact hright hdwells hpick.keys
  | again hnil _ _ _ hrounds =>
    have hnone := (hlaw.rounds ⟨s.dwells ++ [s.dwell], false⟩ (by
      rw [hrounds]
      exact List.mem_append_right _ (List.mem_singleton_self _))).2 rfl
    have hunworthy := hnone s.dwell (List.mem_append_right _ (List.mem_singleton_self _))
    have hcounted : ¬ s.dwell.counted.Worthy := by
      intro hc
      rw [Dwell.addTo, if_pos hc] at hnil
      have := Ranked.insert_perm.length_eq.symm.trans (congrArg List.length hnil)
      exact absurd this (Nat.succ_ne_zero _)
    exact ⟨iff_of_false hunworthy hcounted, fun hw => absurd hw hunworthy⟩

/-- A scan that is told from those before leaves the right list. -/
theorem AfterScan.inv (hs : Scanning s ds) (hlisted : Listed s.dwells ds)
    (hrounds : ∀ r ∈ s.rounds, r.Right) (ht : AfterScan s t (s.dwell.addTo ds))
    (htold : s.dwell.Told s.dwells) : ChanInv t := by
  obtain ⟨hperm, hsorted⟩ :=
    (addTo_right_iff hlisted.perm hlisted.sorted hs.counted).mpr htold
  cases ht with
  | next hscan hdwells hr =>
    refine ⟨⟨_, ⟨?_, hsorted⟩, .inl hscan⟩, hr ▸ hrounds⟩
    rw [hdwells]
    exact hperm
  | picked hpick hdwells hall hr =>
    refine ⟨⟨_, ⟨?_, hsorted⟩, .inr hpick⟩, ?_⟩
    · rw [hdwells]
      exact hperm
    · rw [hr]
      intro r hmem
      rcases List.mem_append.mp hmem with hmem | hmem
      · exact hrounds r hmem
      · rw [List.mem_singleton.mp hmem]
        exact ⟨hall, nofun⟩
  | again hnil hscan hdwells hall hr =>
    refine ⟨⟨[], ⟨?_, .nil⟩, .inl hscan⟩, ?_⟩
    · rw [hdwells]
      exact .nil
    · rw [hr]
      intro r hmem
      rcases List.mem_append.mp hmem with hmem | hmem
      · exact hrounds r hmem
      · rw [List.mem_singleton.mp hmem]
        refine ⟨hall, fun _ d hd hw => ?_⟩
        rw [hnil] at hperm
        have hmem := hperm.mem_iff.mpr (List.mem_filter.mpr ⟨hd, decide_eq_true hw⟩)
        exact absurd hmem List.not_mem_nil

theorem ChanInv.step (h : ChanInv s) (hc : ToldAtExpiry s e)
    (hs : s.step macIeFind e = some (t, o)) : ChanInv t := by
  obtain ⟨ds, hlisted, hscan | hpick⟩ := h.phase
  · cases e with
    | frame data len =>
      obtain ⟨t', ht, hscan', hdwells, hr, -⟩ := hscan.frame macIeFind data len
      obtain ⟨rfl, -⟩ := Prod.mk.inj (Option.some.inj (ht.symm.trans hs))
      exact ⟨⟨ds, hdwells ▸ hlisted, .inl hscan'⟩, hr ▸ h.rounds⟩
    | expiry =>
      obtain ⟨t', o', ht, hafter⟩ := hscan.expiry macIeFind
      obtain ⟨rfl, -⟩ := Prod.mk.inj (Option.some.inj (ht.symm.trans hs))
      exact hafter.inv hscan hlisted h.rounds (hc hscan.mode)
  · cases e with
    | frame data len =>
      obtain ⟨t', ht, hpick', hdwells, hr⟩ := hpick.frame macIeFind data len
      obtain ⟨rfl, -⟩ := Prod.mk.inj (Option.some.inj (ht.symm.trans hs))
      exact ⟨⟨ds, hdwells ▸ hlisted, .inr hpick'⟩, hr ▸ h.rounds⟩
    | expiry =>
      obtain ⟨t', o', ht, hr, hgo | hreset⟩ := hpick.expiry macIeFind
      all_goals obtain ⟨rfl, -⟩ := Prod.mk.inj (Option.some.inj (ht.symm.trans hs))
      · exact ⟨⟨ds, hgo.2 ▸ hlisted, .inr hgo.1⟩, hr ▸ h.rounds⟩
      · refine ⟨⟨[], ⟨?_, .nil⟩, .inl hreset.1⟩, hr ▸ h.rounds⟩
        rw [hreset.2]
        exact .nil

theorem ChanInv.told (h : ChanInv s) (hs : s.step macIeFind e = some (t, o))
    (hlaw : ChanLaw macIeFind t) : ToldAtExpiry s e := by
  cases e with
  | frame data len => trivial
  | expiry =>
    intro hmode
    obtain ⟨ds, hlisted, hscan | hpick⟩ := h.phase
    · obtain ⟨t', o', ht, hafter⟩ := hscan.expiry macIeFind
      obtain ⟨rfl, -⟩ := Prod.mk.inj (Option.some.inj (ht.symm.trans hs))
      exact hafter.told hscan hlisted hlaw
    · rw [hpick.mode] at hmode
      exact absurd hmode (by decide)

theorem reaches_chanInv {h : Machine.History ChanEvent ChanAnswer}
    (hr : (chanScan macIeFind g).ReachesUnder ToldAtExpiry h s) : ChanInv s :=
  hr.stateInvariant ChanInv (chanInv_init macIeFind g) fun hinv hc hs => hinv.step hc hs

/-- The runs in which the list of the selected channels is right are those in which the counters
tell the channels apart. -/
theorem airkiss_channels_iff_told (macIeFind : MacIeFind) (g : Globals)
    (h : Machine.History ChanEvent ChanAnswer) (s : ChanRun) :
    ChanLaw macIeFind (chanScan macIeFind g).init ∧
      ((chanScan macIeFind g).ReachesUnder ToldAtExpiry h s ↔
        (chanScan macIeFind g).ReachesWithin (fun _ => ChanLaw macIeFind) h s) :=
  ⟨(chanInv_init macIeFind g).law macIeFind, Machine.reachesUnder_iff_within
    (fun hr => (reaches_chanInv hr).law macIeFind)
    (fun hr hs hlaw => (reaches_chanInv hr).told hs hlaw)⟩

def beaconFrame : Mem UInt8 := fun k => if k = 0 then 0x80 else 0
def dataFrame : Mem UInt8 := fun k => if k = 0 then 0x08 else 0

theorem hear_data (d : Dwell) : d.hear dataFrame 24 = { d with datas := d.datas + 1 } := rfl

/-- The channel of a round's first scan sees a beacon and then `n` data frames. -/
theorem reaches_dwell (macIeFind : MacIeFind) (g : Globals) (n : Nat) :
    ∃ h s, (chanScan macIeFind g).Reaches h s ∧ Scanning s [] ∧ s.dwells = [] ∧
      s.dwell = ⟨1, 1, n⟩ := by
  induction n with
  | zero =>
    obtain ⟨t, ht, hscan, hdwells, -, hdwell⟩ :=
      (scanning_reset g []).frame macIeFind beaconFrame 24
    have hs : (chanScan macIeFind g).step (chanScan macIeFind g).init (.frame beaconFrame 24) =
        some (t, .heard) := ht
    exact ⟨_, t, .step .init trivial hs, hscan, hdwells, hdwell⟩
  | succ n ih =>
    obtain ⟨h, s, hr, hscan, hdwells, hdwell⟩ := ih
    obtain ⟨t, ht, hscan', hdwells', -, hdwell'⟩ := hscan.frame macIeFind dataFrame 24
    have hs : (chanScan macIeFind g).step s (.frame dataFrame 24) = some (t, .heard) := ht
    refine ⟨_, t, .step hr trivial hs, hscan', hdwells'.trans hdwells, ?_⟩
    rw [hdwell', hear_data, hdwell]

def zeroGlobals : Globals := ⟨scanAllChannels, ⟨fun _ => ⟨0, 0⟩, 0⟩⟩

/-- A channel with a beacon and 256 data frames is not selected. -/
theorem airkiss_channel_lost :
    ∃ h s, (chanScan (fun _ _ => none) zeroGlobals).Reaches h s ∧
      ¬ ChanLaw (fun _ _ => none) s := by
  obtain ⟨h, s, hr, hscan, hdwells, hdwell⟩ := reaches_dwell (fun _ _ => none) zeroGlobals 256
  obtain ⟨t, o, ht, hafter⟩ := hscan.expiry fun _ _ => none
  have hs : (chanScan (fun _ _ => none) zeroGlobals).step s .expiry = some (t, o) := ht
  refine ⟨_, t, .step hr trivial hs, fun hlaw => ?_⟩
  have hlisted : Listed s.dwells [] := by
    rw [hdwells]
    exact ⟨.nil, .nil⟩
  have htold := (hafter.told hscan hlisted hlaw).worthy
  rw [hdwell] at htold
  exact absurd htold (by decide)

end Runs

end BdkRtt.Wlan.Airkiss
