import BdkRtt.Flash.NetParamLaws
import BdkRtt.Lib.Orbit

namespace BdkRtt.Flash

open Lib

section Content

variable (m : Mem UInt8)

def headAt (addr : UInt32) : InfoItemSt := infoItemSt (m.read addr.toNat 8)

/-- Where the loop of `search_info_item` goes from an item of another type. -/
def nextItem (addr : UInt32) : UInt32 := addr + 8 + (headAt m addr).len

variable (start : UInt32)

/-- The end of the table as `search_info_item` computes it. -/
def searchEnd : UInt32 := start + 8 + (headAt m start).len

/-- The end of the table, of which the flash has the first `2 ^ 24` addresses only. -/
def tableEnd : Nat := min (start.toNat + 8 + (headAt m start).len.toNat) (2 ^ 24)

/-- The address of the item in round `k`. -/
def itemAddr (k : Nat) : UInt32 := (nextItem m)^[k] (start + 8)

/-- What ends the loop: the end of the table, or an item of the type. -/
def EndsAt (type addr : UInt32) : Prop := ¬ addr < searchEnd m start ∨ (headAt m addr).type = type

/-- The loop comes to its test for the `k`-th time, and enters the body. -/
def Looks (type : UInt32) (k : Nat) : Prop :=
  Orbit.Comes (nextItem m) (EndsAt m start type) (start + 8) k ∧
    itemAddr m start k < searchEnd m start

/-- An item of the type that lies wholly inside the table. -/
structure ItemInside (type addr : UInt32) : Prop where
  type : (headAt m addr).type = type
  above : start ≤ addr
  below : addr.toNat + 8 + (headAt m addr).len.toNat ≤ tableEnd m start

end Content

section Reads

/-- The addresses of the eight bytes that the loop of `search_info_item` reads in each round. -/
def searchItemReads (type endAddr : UInt32) : Nat → Chip → UInt32 → List UInt32
  | 0, _, _ => []
  | fuel + 1, f, addr =>
    if addr < endAddr then
      let r := flashRead f 8 addr
      let head := infoItemSt r.2
      if type ≠ head.type then
        addr :: searchItemReads type endAddr fuel r.1 (addr + 8 + head.len)
      else [addr]
    else []

/-- The addresses of the reads of `search_info_item`. -/
def searchReads (f : Chip) (type startAddr : UInt32) : List UInt32 :=
  let r := flashRead f 8 startAddr
  let head := infoItemSt r.2
  startAddr ::
    searchItemReads type (startAddr + 8 + head.len) (2 ^ 32) r.1 (startAddr + 8)

end Reads

section Loop

variable {f : Chip} {start type : UInt32} {j k : Nat}

theorem flashRead_headAt (f : Chip) {addr : UInt32} (hfit : addr.toNat + 8 ≤ 2 ^ 24) :
    f.Same (flashRead f 8 addr).1 ∧ infoItemSt (flashRead f 8 addr).2 = headAt f.cells addr := by
  obtain ⟨hsame, hread⟩ := flashReadData_spec f addr 8 hfit
  exact ⟨hsame, by rw [flashRead, hread]; rfl⟩

theorem itemAddr_succ (m : Mem UInt8) (start : UInt32) (k : Nat) :
    itemAddr m start (k + 1) = nextItem m (itemAddr m start k) :=
  Function.iterate_succ_apply' ..

theorem looks_of_comes {m : Mem UInt8}
    (h : Orbit.Comes (nextItem m) (EndsAt m start type) (start + 8) (k + 1)) :
    Looks m start type k ∧ (headAt m (itemAddr m start k)).type ≠ type := by
  obtain ⟨hcomes, hgoes⟩ := Orbit.comes_succ.mp h
  obtain ⟨hlt, htype⟩ := not_or.mp hgoes
  exact ⟨⟨hcomes, not_not.mp hlt⟩, htype⟩

/-- The rounds up to the `k`-th are as the content of the flash has them, while they read within
the flash. -/
theorem searchItems_round
    (hcomes : Orbit.Comes (nextItem f.cells) (EndsAt f.cells start type) (start + 8) k)
    (hfit : ∀ j < k, (itemAddr f.cells start j).toNat + 8 ≤ 2 ^ 24) :
    ∃ f', f.Same f' ∧ ∀ fuel,
      searchItems type (searchEnd f.cells start) (k + fuel) f (start + 8) =
        searchItems type (searchEnd f.cells start) fuel f' (itemAddr f.cells start k) ∧
      searchItemReads type (searchEnd f.cells start) (k + fuel) f (start + 8) =
        (List.range k).map (itemAddr f.cells start) ++
          searchItemReads type (searchEnd f.cells start) fuel f' (itemAddr f.cells start k) := by
  induction k with
  | zero => exact ⟨f, ⟨rfl, rfl⟩, fun fuel => by simp [itemAddr]⟩
  | succ k ih =>
    obtain ⟨⟨hcomes', hlt⟩, htype⟩ := looks_of_comes hcomes
    obtain ⟨f', hsame, hrounds⟩ := ih hcomes' fun j hj => hfit j (Nat.lt_succ_of_lt hj)
    obtain ⟨hsame', hhead⟩ := flashRead_headAt f' (hfit k (Nat.lt_succ_self k))
    rw [hsame.cells] at hhead
    refine ⟨_, hsame.trans hsame', fun fuel => ?_⟩
    obtain ⟨hitems, hreads⟩ := hrounds (fuel + 1)
    have hfuel : k + 1 + fuel = k + (fuel + 1) := by omega
    rw [hfuel, hitems, hreads, searchItems, searchItemReads, if_pos hlt, if_pos hlt,
      itemAddr_succ, List.range_succ, List.map_append, List.append_assoc]
    simp only [hhead, if_pos (Ne.symm htype)]
    exact ⟨rfl, rfl⟩

theorem searchInfoItem_start (f : Chip) (type : UInt32) (hstart : start.toNat + 8 ≤ 2 ^ 24) :
    ∃ f', f.Same f' ∧
      searchInfoItem f type start =
        (searchItems type (searchEnd f.cells start) (2 ^ 32) f' (start + 8)).map (fun s =>
          (s.1, if s.2 ≥ searchEnd f.cells start then 0 else s.2)) ∧
      searchReads f type start =
        start :: searchItemReads type (searchEnd f.cells start) (2 ^ 32) f' (start + 8) := by
  obtain ⟨hsame, hhead⟩ := flashRead_headAt f hstart
  refine ⟨_, hsame, ?_, ?_⟩
  · simp only [searchInfoItem, hhead]
    rfl
  · simp only [searchReads, hhead]
    rfl

variable (hstart : start.toNat + 8 ≤ 2 ^ 24) (hk : k < 2 ^ 32)
  (hcomes : Orbit.Comes (nextItem f.cells) (EndsAt f.cells start type) (start + 8) k)
  (hfit : ∀ j < k, (itemAddr f.cells start j).toNat + 8 ≤ 2 ^ 24)

include hstart hk hcomes hfit

/-- The search from its round `k` on. -/
theorem searchInfoItem_round :
    ∃ f' fuel, f.Same f' ∧
      searchInfoItem f type start =
        (searchItems type (searchEnd f.cells start) (fuel + 1) f' (itemAddr f.cells start k)).map
          (fun s => (s.1, if s.2 ≥ searchEnd f.cells start then 0 else s.2)) ∧
      searchReads f type start = start :: ((List.range k).map (itemAddr f.cells start) ++
        searchItemReads type (searchEnd f.cells start) (fuel + 1) f'
          (itemAddr f.cells start k)) := by
  obtain ⟨f₀, hsame₀, hitem, hreads⟩ := searchInfoItem_start f type hstart
  rw [← hsame₀.cells] at hcomes hfit
  obtain ⟨f', hsame, hrounds⟩ := searchItems_round hcomes hfit
  rw [hsame₀.cells] at hrounds
  obtain ⟨fuel, hfuel⟩ : ∃ fuel, 2 ^ 32 = k + (fuel + 1) := ⟨2 ^ 32 - k - 1, by omega⟩
  rw [hfuel, (hrounds _).1] at hitem
  rw [hfuel, (hrounds _).2] at hreads
  exact ⟨f', fuel, hsame₀.trans hsame, hitem, hreads⟩

theorem searchInfoItem_past (hge : ¬ itemAddr f.cells start k < searchEnd f.cells start) :
    (∃ f', f.Same f' ∧ searchInfoItem f type start = some (f', 0)) ∧
      searchReads f type start = start :: (List.range k).map (itemAddr f.cells start) := by
  obtain ⟨f', fuel, hsame, hitem, hreads⟩ := searchInfoItem_round hstart hk hcomes hfit
  rw [hitem, hreads, searchItems, searchItemReads, if_neg hge, if_neg hge, List.append_nil,
    Option.map_some, if_pos (UInt32.not_lt.mp hge)]
  exact ⟨⟨f', hsame, rfl⟩, rfl⟩

theorem searchInfoItem_found (hlt : itemAddr f.cells start k < searchEnd f.cells start)
    (hread : (itemAddr f.cells start k).toNat + 8 ≤ 2 ^ 24)
    (htype : (headAt f.cells (itemAddr f.cells start k)).type = type) :
    (∃ f', f.Same f' ∧ searchInfoItem f type start = some (f', itemAddr f.cells start k)) ∧
      searchReads f type start = start :: (List.range (k + 1)).map (itemAddr f.cells start) := by
  obtain ⟨f', fuel, hsame, hitem, hreads⟩ := searchInfoItem_round hstart hk hcomes hfit
  obtain ⟨hsame', hhead⟩ := flashRead_headAt f' hread
  rw [hsame.cells] at hhead
  rw [hitem, hreads, searchItems, searchItemReads, if_pos hlt, if_pos hlt, List.range_succ,
    List.map_append]
  simp only [hhead, htype, ne_eq, not_true_eq_false, if_false, Option.map_some,
    if_neg (UInt32.not_le.mpr hlt)]
  exact ⟨⟨_, hsame.trans hsame', rfl⟩, rfl⟩

theorem mem_searchReads (hlt : itemAddr f.cells start k < searchEnd f.cells start) :
    itemAddr f.cells start k ∈ searchReads f type start := by
  obtain ⟨f', fuel, -, -, hreads⟩ := searchInfoItem_round hstart hk hcomes hfit
  rw [hreads, searchItemReads, if_pos hlt]
  apply List.mem_cons_of_mem
  apply List.mem_append_right
  dsimp only
  split
  · exact List.mem_cons_self
  · exact List.mem_cons_self

omit hk in
/-- A search that is back at an address never ends. -/
theorem searchInfoItem_endless (hjk : j < k)
    (hback : itemAddr f.cells start j = itemAddr f.cells start k) :
    searchInfoItem f type start = none := by
  obtain ⟨f₀, hsame₀, hitem, -⟩ := searchInfoItem_start f type hstart
  let stop (addr : UInt32) : Prop :=
    EndsAt f₀.cells start type addr ∨ ¬ addr.toNat + 8 ≤ 2 ^ 24
  have hstop : Orbit.Comes (nextItem f₀.cells) stop (start + 8) k := by
    rw [← hsame₀.cells] at hcomes hfit
    exact fun i hi => not_or.mpr ⟨hcomes i hi, not_not.mpr (hfit i hi)⟩
  rw [← hsame₀.cells] at hback
  have hforever := hstop.forever hjk hback (2 ^ 32)
  have hcomes₀ : Orbit.Comes (nextItem f₀.cells) (EndsAt f₀.cells start type) (start + 8)
      (2 ^ 32) := fun i hi => (not_or.mp (hforever i hi)).1
  obtain ⟨f', -, hrounds⟩ := searchItems_round hcomes₀
    fun i hi => not_not.mp (not_or.mp (hforever i hi)).2
  have hnone := (hrounds 0).1
  rw [Nat.add_zero, hsame₀.cells] at hnone
  rw [hitem, hnone]
  rfl

end Loop

section Law

variable (soc7221u : Bool) (f : Chip) (type : UInt32)

def tableStart : UInt32 := (bkFlashGetInfo soc7221u .netParam).partitionStartAddr

/-- The search ends, reads inside the table, and gives 0 or an item of the type inside it. -/
structure SearchLaw : Prop where
  returns : ∃ f' addr, searchInfoItem f type (tableStart soc7221u) = some (f', addr) ∧
    (addr = 0 ∨ ItemInside f.cells (tableStart soc7221u) type addr)
  reads : ∀ addr ∈ searchReads f type (tableStart soc7221u), tableStart soc7221u ≤ addr ∧
    addr.toNat + 8 ≤ tableEnd f.cells (tableStart soc7221u)

/-- Where the lengths in the flash lead the search: each head it looks at is inside the table, at
an address it has not looked at before, and the item it is for does not reach past the end. -/
structure ItemsLead : Prop where
  head : ∀ k, Looks f.cells (tableStart soc7221u) type k →
    tableStart soc7221u ≤ itemAddr f.cells (tableStart soc7221u) k ∧
      (itemAddr f.cells (tableStart soc7221u) k).toNat + 8 ≤
        tableEnd f.cells (tableStart soc7221u)
  fresh : ∀ j k, j < k → Looks f.cells (tableStart soc7221u) type k →
    itemAddr f.cells (tableStart soc7221u) j ≠ itemAddr f.cells (tableStart soc7221u) k
  whole : ∀ k, Looks f.cells (tableStart soc7221u) type k →
    (headAt f.cells (itemAddr f.cells (tableStart soc7221u) k)).type = type →
    (itemAddr f.cells (tableStart soc7221u) k).toNat + 8 +
        (headAt f.cells (itemAddr f.cells (tableStart soc7221u) k)).len.toNat ≤
      tableEnd f.cells (tableStart soc7221u)

variable {soc7221u f type}

theorem tableStart_fits (soc7221u : Bool) : (tableStart soc7221u).toNat + 8 ≤ 2 ^ 24 := by
  cases soc7221u <;> decide

theorem tableStart_ne_zero : tableStart soc7221u ≠ 0 := by
  cases soc7221u <;> decide

theorem tableEnd_le {m : Mem UInt8} {start : UInt32} : tableEnd m start ≤ 2 ^ 24 :=
  Nat.min_le_right ..

theorem head_inside {m : Mem UInt8} :
    (tableStart soc7221u).toNat + 8 ≤ tableEnd m (tableStart soc7221u) :=
  Nat.le_min.mpr ⟨Nat.le_add_right .., tableStart_fits soc7221u⟩

theorem ItemsLead.fits (h : ItemsLead soc7221u f type) {k : Nat}
    (hk : Looks f.cells (tableStart soc7221u) type k) :
    (itemAddr f.cells (tableStart soc7221u) k).toNat + 8 ≤ 2 ^ 24 :=
  (h.head k hk).2.trans tableEnd_le

theorem Looks.toNat_lt {m : Mem UInt8} {start : UInt32} {k : Nat} (h : Looks m start type k) :
    (itemAddr m start k).toNat < 2 ^ 32 - 1 := by
  have hlt := UInt32.lt_iff_toNat_lt.mp h.2
  have hend := (searchEnd m start).toNat_lt
  omega

theorem Looks.before {m : Mem UInt8} {start : UInt32} {j k : Nat} (h : Looks m start type k)
    (hj : j < k) : Looks m start type j :=
  (looks_of_comes (h.1.mono hj)).1

/-- There are less than `2 ^ 32` addresses to look at. -/
theorem Looks.round_lt {m : Mem UInt8} {start : UInt32} {k : Nat} (h : Looks m start type k)
    (hne : ∀ i j, i < j → j < k → itemAddr m start i ≠ itemAddr m start j) : k < 2 ^ 32 := by
  have hle : k ≤ 2 ^ 32 - 1 := Orbit.le_of_distinct (m := fun j => (itemAddr m start j).toNat)
    (fun j hj => (h.before hj).toNat_lt)
    (fun i j hij hj heq => hne i j hij hj (UInt32.toNat_inj.mp heq))
  omega

theorem ItemsLead.searchLaw (h : ItemsLead soc7221u f type) : SearchLaw soc7221u f type := by
  obtain ⟨k, hk, hcomes, hends⟩ := Orbit.stops_of_distinct UInt32.toNat
    (fun k hk => (looks_of_comes hk).1.toNat_lt)
    (fun j k hjk hk heq => h.fresh j k hjk (looks_of_comes hk).1 (UInt32.toNat_inj.mp heq))
  have hlooks (j : Nat) (hj : j < k) : Looks f.cells (tableStart soc7221u) type j :=
    (looks_of_comes (hcomes.mono hj)).1
  have hread (j : Nat) (hj : j < k) := h.head j (hlooks j hj)
  have hk' : k < 2 ^ 32 := by omega
  have hstart : tableStart soc7221u ≤ tableStart soc7221u ∧
      (tableStart soc7221u).toNat + 8 ≤ tableEnd f.cells (tableStart soc7221u) :=
    ⟨UInt32.le_refl _, head_inside⟩
  have hfit (j : Nat) (hj : j < k) := h.fits (hlooks j hj)
  by_cases hlt : itemAddr f.cells (tableStart soc7221u) k <
      searchEnd f.cells (tableStart soc7221u)
  · have htype := hends.resolve_left (not_not.mpr hlt)
    have hlook : Looks f.cells (tableStart soc7221u) type k := ⟨hcomes, hlt⟩
    obtain ⟨⟨f', -, hret⟩, hreads⟩ := searchInfoItem_found (tableStart_fits soc7221u) hk' hcomes
      hfit hlt (h.fits hlook) htype
    refine ⟨⟨f', _, hret, .inr ⟨htype, (h.head k hlook).1, h.whole k hlook htype⟩⟩, ?_⟩
    rw [hreads]
    intro addr haddr
    rcases List.mem_cons.mp haddr with rfl | haddr
    · exact hstart
    · obtain ⟨j, hj, rfl⟩ := List.mem_map.mp haddr
      rcases Nat.lt_succ_iff_lt_or_eq.mp (List.mem_range.mp hj) with hjk | rfl
      · exact hread j hjk
      · exact h.head j hlook
  · obtain ⟨⟨f', -, hret⟩, hreads⟩ := searchInfoItem_past (tableStart_fits soc7221u) hk' hcomes
      hfit hlt
    refine ⟨⟨f', 0, hret, .inl rfl⟩, ?_⟩
    rw [hreads]
    intro addr haddr
    rcases List.mem_cons.mp haddr with rfl | haddr
    · exact hstart
    · obtain ⟨j, hj, rfl⟩ := List.mem_map.mp haddr
      exact hread j (List.mem_range.mp hj)

/-- A law-abiding search looks at each head of the chain as the lengths lead it there. -/
theorem SearchLaw.round (h : SearchLaw soc7221u f type) {k : Nat}
    (hk : Looks f.cells (tableStart soc7221u) type k) :
    (tableStart soc7221u ≤ itemAddr f.cells (tableStart soc7221u) k ∧
      (itemAddr f.cells (tableStart soc7221u) k).toNat + 8 ≤
        tableEnd f.cells (tableStart soc7221u)) ∧
    ∀ j < k, itemAddr f.cells (tableStart soc7221u) j ≠
      itemAddr f.cells (tableStart soc7221u) k := by
  induction k using Nat.strong_induction_on with
  | _ k ih =>
    have hfit (j : Nat) (hj : j < k) :
        (itemAddr f.cells (tableStart soc7221u) j).toNat + 8 ≤ 2 ^ 24 :=
      (ih j hj (hk.before hj)).1.2.trans tableEnd_le
    have hlt := hk.round_lt fun i j hij hj => (ih j hj (hk.before hj)).2 i hij
    refine ⟨h.reads _ (mem_searchReads (tableStart_fits soc7221u) hlt hk.1 hfit hk.2), ?_⟩
    intro j hj hback
    have hnone := searchInfoItem_endless (tableStart_fits soc7221u) hk.1 hfit hj hback
    obtain ⟨f', addr, hret, -⟩ := h.returns
    rw [hnone] at hret
    cases hret

theorem SearchLaw.itemsLead (h : SearchLaw soc7221u f type) : ItemsLead soc7221u f type where
  head k hk := (h.round hk).1
  fresh j k hj hk := (h.round hk).2 j hj
  whole k hk htype := by
    have hread (j : Nat) (hj : j < k) := (h.round (hk.before hj)).1.2.trans tableEnd_le
    have hlt := hk.round_lt fun i j hij hj => (h.round (hk.before hj)).2 i hij
    obtain ⟨⟨f', -, hret⟩, -⟩ := searchInfoItem_found (tableStart_fits soc7221u) hlt hk.1 hread
      hk.2 ((h.round hk).1.2.trans tableEnd_le) htype
    obtain ⟨f'', addr, hret', haddr⟩ := h.returns
    rw [hret] at hret'
    cases hret'
    rcases haddr with h0 | hinside
    · have habove := (h.round hk).1.1
      rw [h0] at habove
      exact absurd (UInt32.le_antisymm habove (UInt32.zero_le)) tableStart_ne_zero
    · exact hinside.below

end Law

/-- On any content of the flash, `search_info_item` ends, reads inside the table only and gives
0 or an item of the type wholly inside it, if and only if the lengths lead it so. -/
theorem search_ends (soc7221u : Bool) (f : Chip) (type : UInt32) :
    SearchLaw soc7221u f type ↔ ItemsLead soc7221u f type :=
  ⟨SearchLaw.itemsLead, ItemsLead.searchLaw⟩

/-- A table of one item, whose length takes the search back to it. -/
def standingItem : Chip where
  flashSize := 0x200000
  cells := Mem.write (fun _ => 0xff) 0x1e1000
    (le32 infoTlvHeader ++ (le32 12 ++ (le32 wifiModeItem ++ (le32 0xfffffff8 ++ []))))
  operateSw := 0
  dataFlashSw := List.replicate 32 0

theorem standingItem_head : headAt standingItem.cells (tableStart false) = ⟨infoTlvHeader, 12⟩ :=
  infoItemSt_of_has (Mem.has_write_self ..)

theorem standingItem_item :
    headAt standingItem.cells (tableStart false + 8) = ⟨wifiModeItem, 0xfffffff8⟩ :=
  infoItemSt_of_has (Mem.has_append.mp (Mem.has_append.mp (Mem.has_write_self ..)).2).2

theorem search_stands_still : ¬ ∀ (soc7221u : Bool) (f : Chip) (type : UInt32),
    (headAt f.cells (tableStart soc7221u)).type = infoTlvHeader → SearchLaw soc7221u f type := by
  intro h
  have hlaw := h false standingItem ssidKeyItem (by rw [standingItem_head])
  have hfirst : Looks standingItem.cells (tableStart false) ssidKeyItem 0 := by
    refine ⟨Orbit.comes_zero, ?_⟩
    rw [searchEnd, standingItem_head]
    decide
  have hcomes : Orbit.Comes (nextItem standingItem.cells)
      (EndsAt standingItem.cells (tableStart false) ssidKeyItem) (tableStart false + 8) 1 := by
    refine Orbit.comes_succ.mpr ⟨hfirst.1, not_or.mpr ⟨not_not.mpr hfirst.2, ?_⟩⟩
    rw [Function.iterate_zero_apply, standingItem_item]
    decide
  have hback : itemAddr standingItem.cells (tableStart false) 1 =
      itemAddr standingItem.cells (tableStart false) 0 := by
    rw [itemAddr_succ, nextItem]
    change tableStart false + 8 + 8 +
      (headAt standingItem.cells (tableStart false + 8)).len = tableStart false + 8
    rw [standingItem_item]
    decide
  refine hlaw.itemsLead.fresh 0 1 Nat.zero_lt_one ⟨hcomes, ?_⟩ hback.symm
  rw [hback]
  exact hfirst.2

end BdkRtt.Flash
