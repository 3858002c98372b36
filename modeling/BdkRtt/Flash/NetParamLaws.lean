import BdkRtt.Flash.NetParam
import BdkRtt.Flash.PartitionLaws
import BdkRtt.Lib.Words

namespace BdkRtt.Flash

open Lib

section Words

variable {f : Chip} {addr : UInt32} {t n : UInt32} {rest : List UInt8}

theorem infoItemSt_of_has {m : Mem UInt8} {i : Nat} (h : m.Has i (le32 t ++ (le32 n ++ rest))) :
    infoItemSt (m.read i 8) = ⟨t, n⟩ := by
  have hread := h.read (k := 0) (n := 8) (by simp; omega)
  rw [Nat.add_zero] at hread
  rw [hread]
  have htake : ((le32 t ++ (le32 n ++ rest)).drop 0).take 8 = le32 t ++ (le32 n ++ []) := rfl
  have hdrop : (le32 t ++ (le32 n ++ [])).drop 4 = le32 n ++ [] := rfl
  rw [htake, infoItemSt, hdrop, ofLe32_append, ofLe32_append]

/-- The head of an item, or of the table, comes off the chip. -/
theorem flashRead_head (h : f.cells.Has addr.toNat (le32 t ++ (le32 n ++ rest)))
    (hfit : addr.toNat + 8 ≤ 2 ^ 24) :
    f.Same (flashRead f 8 addr).1 ∧ infoItemSt (flashRead f 8 addr).2 = ⟨t, n⟩ := by
  obtain ⟨hsame, hread⟩ := flashReadData_spec f addr 8 hfit
  refine ⟨hsame, ?_⟩
  rw [flashRead, hread]
  exact infoItemSt_of_has h

theorem Chip.Same.trans {f f' f'' : Chip} (h : f.Same f') (h' : f'.Same f'') : f.Same f'' :=
  ⟨h'.cells.trans h.cells, h'.flashSize.trans h.flashSize⟩

/-- Bytes of a value come off the chip. -/
theorem flashRead_value (addr count : UInt32) (k : Nat) {v : List UInt8} {i : Nat}
    (h : f.cells.Has i v) (haddr : addr.toNat = i + k) (hk : k + count.toNat ≤ v.length)
    (hfit : i + v.length ≤ 2 ^ 24) :
    f.Same (flashRead f count addr).1 ∧
      (flashRead f count addr).2 = (v.drop k).take count.toNat := by
  obtain ⟨hsame, hread⟩ := flashReadData_spec f addr count (by omega)
  exact ⟨hsame, by rw [flashRead, hread, haddr, h.read hk]⟩

end Words

section Table

variable (soc7221u : Bool)

def netStart : Nat := BkPartition.start soc7221u .netParam

theorem netStart_bounds :
    0 < netStart soc7221u ∧ netStart soc7221u % 4096 = 0 ∧ netStart soc7221u + 4096 ≤ 2 ^ 21 := by
  cases soc7221u <;> decide

/-- The length of the value of an item that `NET_INFO_ITEM` lists. -/
def valueLen (item : UInt32) : Nat := (infoItemLen item).toNat - 8

/-- The bytes of a table: the head, whose length is the sum over the items, and the items. -/
def tableImage (items : List Tlv) : List UInt8 :=
  le32 infoTlvHeader ++ (le32 (UInt32.ofNat (Tlv.tableSize items)) ++ Tlv.tableBytes items)

/-- NET_PARAM holds a well-formed table of these items: none twice, each that is listed of the
size of its `ITEM_*_ST`, and all within the sector. -/
structure NetTable (f : Chip) (items : List Tlv) : Prop where
  image : f.cells.Has (netStart soc7221u) (tableImage items)
  distinct : (items.map Tlv.type).Nodup
  sized : ∀ x ∈ items, itemCase x.type ≠ .default → x.value.length = valueLen x.type
  fits : 8 + Tlv.tableSize items ≤ 4096

/-- What NET_PARAM may hold: a well-formed table, or none. -/
inductive NetStore (f : Chip) : List Tlv → Prop
  | table {items} : NetTable soc7221u f items → NetStore f items
  | absent : ofLe32 (f.cells.read (netStart soc7221u) 8) ≠ infoTlvHeader → NetStore f []

theorem length_tableImage (items : List Tlv) :
    (tableImage items).length = 8 + Tlv.tableSize items := by
  simp only [tableImage, List.length_append, length_le32, Tlv.length_tableBytes]
  omega

variable {soc7221u} {f f' : Chip} {items : List Tlv}

theorem NetTable.congr (h : NetTable soc7221u f items) (hf : f.Same f') :
    NetTable soc7221u f' items :=
  ⟨by rw [hf.cells]; exact h.image, h.distinct, h.sized, h.fits⟩

theorem NetStore.congr (h : NetStore soc7221u f items) (hf : f.Same f') :
    NetStore soc7221u f' items := by
  cases h with
  | table h => exact .table (h.congr hf)
  | absent h => exact .absent (by rw [hf.cells]; exact h)

end Table

section Search

variable {soc7221u : Bool} {f : Chip} {t : UInt32} {items : List Tlv}

theorem lenWord_toNat {n : Nat} (h : n ≤ 2 ^ 24) : (UInt32.ofNat n).toNat = n :=
  UInt32.toNat_ofNat_of_lt' (Nat.lt_of_le_of_lt h (by decide))

/-- The loop ends at the first item of the type, or behind the last one. -/
theorem searchItems_spec {fuel : Nat} {addr endAddr : UInt32}
    (himage : f.cells.Has addr.toNat (Tlv.tableBytes items))
    (hend : endAddr.toNat = addr.toNat + Tlv.tableSize items) (hfit : endAddr.toNat ≤ 2 ^ 24)
    (hfuel : Tlv.tableSize items < fuel) :
    ∃ f' a, searchItems t endAddr fuel f addr = some (f', a) ∧ f.Same f' ∧
      a.toNat = addr.toNat + Tlv.offset t items := by
  induction items generalizing fuel f addr with
  | nil =>
    obtain ⟨fuel, rfl⟩ := Nat.exists_eq_add_of_lt hfuel
    have hge : ¬ addr < endAddr := by
      rw [UInt32.lt_iff_toNat_lt, hend]
      exact Nat.lt_irrefl _
    exact ⟨f, addr, if_neg hge, ⟨rfl, rfl⟩, rfl⟩
  | cons x xs ih =>
    rw [Tlv.tableSize, Tlv.size] at hend hfuel
    obtain ⟨fuel, rfl⟩ := Nat.exists_eq_add_of_lt hfuel
    have hlt : addr < endAddr := by
      rw [UInt32.lt_iff_toNat_lt]
      omega
    obtain ⟨hitem, hrest⟩ := Mem.has_append.mp himage
    obtain ⟨hsame, hhead⟩ := flashRead_head hitem (by omega)
    have hnext : (addr + 8 + UInt32.ofNat x.value.length).toNat = addr.toNat + x.size := by
      have hlen := lenWord_toNat (n := x.value.length) (by omega)
      have haddr : (addr + 8).toNat = addr.toNat + 8 :=
        toNat_add_of_lt (by simp only [UInt32.reduceToNat]; omega)
      rw [UInt32.toNat_add, hlen, haddr, Tlv.size, ← Nat.add_assoc]
      exact Nat.mod_eq_of_lt (by omega)
    rw [searchItems, if_pos hlt, Tlv.offset]
    simp only [hhead]
    by_cases ht : x.type = t
    · exact ⟨_, addr, by rw [if_neg (not_not_intro ht.symm)], hsame, by rw [if_pos ht]; rfl⟩
    · rw [if_pos (Ne.symm ht), if_neg ht]
      rw [Tlv.length_bytes, ← hnext, ← hsame.cells] at hrest
      obtain ⟨f', a, hloop, hsame', ha⟩ := ih hrest (by rw [hnext, Tlv.size]; omega)
        (show Tlv.tableSize xs < 8 + x.value.length + Tlv.tableSize xs + fuel by omega)
      exact ⟨f', a, hloop, hsame.trans hsame', by rw [ha, hnext, Nat.add_assoc]⟩

theorem start_toNat : (bkFlashGetInfo soc7221u .netParam).partitionStartAddr.toNat =
    netStart soc7221u := rfl

theorem NetTable.head (h : NetTable soc7221u f items) :
    f.Same (flashRead f 8 (bkFlashGetInfo soc7221u .netParam).partitionStartAddr).1 ∧
      infoItemSt (flashRead f 8 (bkFlashGetInfo soc7221u .netParam).partitionStartAddr).2 =
        ⟨infoTlvHeader, UInt32.ofNat (Tlv.tableSize items)⟩ := by
  obtain ⟨_, _, hend⟩ := netStart_bounds soc7221u
  exact flashRead_head h.image (show netStart soc7221u + 8 ≤ _ by omega)

theorem NetTable.len_toNat (h : NetTable soc7221u f items) :
    (UInt32.ofNat (Tlv.tableSize items)).toNat = Tlv.tableSize items :=
  lenWord_toNat (by have := h.fits; omega)

theorem NetTable.cfgLen_toNat (h : NetTable soc7221u f items) :
    (UInt32.ofNat (Tlv.tableSize items) + 8).toNat = 8 + Tlv.tableSize items := by
  have hfits := h.fits
  rw [UInt32.toNat_add, h.len_toNat, Nat.add_comm 8]
  exact Nat.mod_eq_of_lt (by simp only [UInt32.reduceToNat]; omega)

/-- The search for the table, without a buffer and with one that the table fits in. -/
theorem NetTable.searchInfoTbl_none (h : NetTable soc7221u f items) :
    ∃ f', searchInfoTbl soc7221u f none =
        ⟨f', 1, UInt32.ofNat (Tlv.tableSize items) + 8, none⟩ ∧ f.Same f' := by
  obtain ⟨hsame, hhead⟩ := h.head
  exact ⟨_, by simp only [searchInfoTbl, hhead, if_true], hsame⟩

theorem NetTable.searchInfoTbl_some (h : NetTable soc7221u f items) (buf : List UInt8) :
    ∃ f', searchInfoTbl soc7221u f (some buf) =
        ⟨f', 1, UInt32.ofNat (Tlv.tableSize items) + 8,
          some (splice buf 0 (tableImage items))⟩ ∧ f.Same f' := by
  obtain ⟨hsame, hhead⟩ := h.head
  obtain ⟨_, _, hend⟩ := netStart_bounds soc7221u
  have hfits := h.fits
  have hlen := length_tableImage items
  obtain ⟨hsame', hwhole⟩ := flashRead_value
    (bkFlashGetInfo soc7221u .netParam).partitionStartAddr (UInt32.ofNat (Tlv.tableSize items) + 8)
    0 (h.congr hsame).image rfl (by rw [h.cfgLen_toNat]; omega) (by omega)
  have htake : ((tableImage items).drop 0).take
      (UInt32.ofNat (Tlv.tableSize items) + 8).toNat = tableImage items := by
    rw [h.cfgLen_toNat, List.drop_zero, List.take_of_length_le (by omega)]
  refine ⟨_, ?_, hsame.trans hsame'⟩
  simp only [searchInfoTbl, hhead, if_true, hwhole, htake]

theorem searchInfoTbl_absent
    (h : ofLe32 (f.cells.read (netStart soc7221u) 8) ≠ infoTlvHeader) :
    ∃ f', searchInfoTbl soc7221u f none = ⟨f', 0, 0, none⟩ ∧ f.Same f' := by
  obtain ⟨_, _, hend⟩ := netStart_bounds soc7221u
  obtain ⟨hsame, hread⟩ := flashReadData_spec f
    (bkFlashGetInfo soc7221u .netParam).partitionStartAddr 8
    (show netStart soc7221u + 8 ≤ _ by omega)
  refine ⟨_, ?_, hsame⟩
  rw [searchInfoTbl, flashRead, if_neg]
  rw [hread]
  exact Ne.symm h

/-- The search for an item gives its place on the chip, or 0. -/
theorem NetTable.searchInfoItem (h : NetTable soc7221u f items) (t : UInt32) :
    ∃ f' a, searchInfoItem f t (bkFlashGetInfo soc7221u .netParam).partitionStartAddr =
        some (f', a) ∧ f.Same f' ∧
      a.toNat = if Tlv.find t items = none then 0
        else netStart soc7221u + 8 + Tlv.offset t items := by
  obtain ⟨hsame, hhead⟩ := h.head
  obtain ⟨hpos, _, hend⟩ := netStart_bounds soc7221u
  have hfits := h.fits
  have hfirst : ((bkFlashGetInfo soc7221u .netParam).partitionStartAddr + 8).toNat =
      netStart soc7221u + 8 :=
    toNat_add_of_lt (by simp only [UInt32.reduceToNat, start_toNat]; omega)
  have hlast : ((bkFlashGetInfo soc7221u .netParam).partitionStartAddr + 8 +
      UInt32.ofNat (Tlv.tableSize items)).toNat =
      netStart soc7221u + 8 + Tlv.tableSize items := by
    rw [UInt32.toNat_add, hfirst, h.len_toNat]
    exact Nat.mod_eq_of_lt (by omega)
  have hitems := (Mem.has_append.mp (Mem.has_append.mp (h.congr hsame).image).2).2
  obtain ⟨f', a, hloop, hsame', ha⟩ := searchItems_spec (t := t) (hfirst ▸ hitems)
    (by rw [hlast, hfirst]) (by rw [hlast]; omega)
    (show Tlv.tableSize items < 2 ^ 32 by omega)
  refine ⟨f', _, by simp only [Flash.searchInfoItem, hhead, hloop, Option.map_some]; rfl,
    hsame.trans hsame', ?_⟩
  cases hfind : Tlv.find t items with
  | none =>
    rw [if_pos, if_pos rfl]
    · rfl
    · rw [ge_iff_le, UInt32.le_iff_toNat_le, hlast, ha, hfirst, Tlv.offset_eq hfind]
  | some v =>
    have hlt := Tlv.offset_lt hfind
    rw [if_neg, if_neg (Option.some_ne_none v), ha, hfirst]
    rw [ge_iff_le, UInt32.le_iff_toNat_le, hlast, ha, hfirst]
    omega

end Search

section Get

/-- What `get_info_item` gives of a table. -/
def deliver (items : List Tlv) (item : UInt32) (ptr0 ptr1 ptr2 : Bool) : Got :=
  match Tlv.find item items with
  | none => ⟨0, [], [], []⟩
  | some v =>
    match itemCase item with
    | .comm | .macAddr | .charge => if ptr0 then ⟨1, v, [], []⟩ else ⟨0, [], [], []⟩
    | .ssidKey =>
      if ptr0 ∧ ptr1 then ⟨1, v.take 32, (v.drop 32).take 64, []⟩ else ⟨0, [], [], []⟩
    | .ipConfig =>
      if ptr0 ∧ ptr1 ∧ ptr2 then ⟨1, v.take 16, (v.drop 16).take 16, (v.drop 32).take 16⟩
      else ⟨0, [], [], []⟩
    | .default => ⟨0, [], [], []⟩

variable {soc7221u : Bool} {f : Chip} {items : List Tlv}

theorem valueLen_eq (item : UInt32) : valueLen item =
    match itemCase item with
    | .comm => 4
    | .macAddr => 8
    | .charge => 4
    | .ssidKey => 96
    | .ipConfig => 48
    | .default => 4 := by
  unfold valueLen infoItemLen
  cases itemCase item <;> rfl

/-- An item of the table in place: its head, and its value behind. -/
theorem has_of_find {m : Mem UInt8} {i : Nat} {t : UInt32} {v : List UInt8}
    (himage : m.Has i (Tlv.tableBytes items)) (hfind : Tlv.find t items = some v) :
    m.Has (i + Tlv.offset t items) (Tlv.bytes ⟨t, v⟩) := by
  induction items generalizing i with
  | nil => cases hfind
  | cons x xs ih =>
    obtain ⟨hitem, hrest⟩ := Mem.has_append.mp himage
    rw [Tlv.find] at hfind
    rw [Tlv.offset]
    split at hfind
    next ht =>
      obtain rfl := Option.some.inj hfind
      rw [if_pos ht, ← ht]
      exact hitem
    next ht =>
      rw [if_neg ht, ← Nat.add_assoc]
      rw [Tlv.length_bytes] at hrest
      exact ih hrest hfind

theorem getValues_spec {t a : UInt32} {v : List UInt8} (hfind : Tlv.find t items = some v)
    (hvalue : f.cells.Has a.toNat v) (hlen : v.length ≤ 4096) (hfit : a.toNat ≤ 2 ^ 23)
    (hsized : itemCase t ≠ .default → v.length = valueLen t) (ptr0 ptr1 ptr2 : Bool) :
    ∃ f', getValues f t (UInt32.ofNat v.length) a ptr0 ptr1 ptr2 =
        (f', deliver items t ptr0 ptr1 ptr2) ∧ f.Same f' := by
  have hread {f' : Chip} (hsame : f.Same f') (k : Nat) (addr count : UInt32)
      (haddr : addr.toNat = a.toNat + k) (hk : k + count.toNat ≤ v.length) :
      f.Same (flashRead f' count addr).1 ∧
        (flashRead f' count addr).2 = (v.drop k).take count.toNat := by
    have hvalue' : f'.cells.Has a.toNat v := by
      rw [hsame.cells]
      exact hvalue
    obtain ⟨h₁, h₂⟩ := flashRead_value addr count k hvalue' haddr hk (by omega)
    exact ⟨hsame.trans h₁, h₂⟩
  have hadd (x k : UInt32) (hx : x.toNat ≤ 2 ^ 24) (hk : k.toNat ≤ 32) :
      (x + k).toNat = x.toNat + k.toNat :=
    toNat_add_of_lt (by omega)
  have hword : (UInt32.ofNat v.length).toNat = v.length := lenWord_toNat (by omega)
  have hself : f.Same f := ⟨rfl, rfl⟩
  have hnone : ∃ f', (f, (⟨0, [], [], []⟩ : Got)) = (f', ⟨0, [], [], []⟩) ∧ f.Same f' :=
    ⟨f, rfl, hself⟩
  rw [valueLen_eq] at hsized
  rw [getValues, deliver, hfind]
  dsimp only
  cases hcase : itemCase t <;> rw [hcase] at hsized <;> dsimp only
  case comm | macAddr | charge =>
    split
    next =>
      obtain ⟨hsame, hgot⟩ := hread hself 0 a (UInt32.ofNat v.length) rfl (by omega)
      refine ⟨_, ?_, hsame⟩
      rw [hgot, hword, List.drop_zero, List.take_length]
    next => exact hnone
  case ssidKey =>
    have hlen := hsized (by decide)
    dsimp only at hlen
    split
    next =>
      obtain ⟨hsame, hssid⟩ := hread hself 0 a 32 rfl (by simp only [UInt32.reduceToNat]; omega)
      obtain ⟨hsame', hkey⟩ := hread hsame 32 (a + 32) 64 (hadd a 32 (by omega) (by decide))
        (by simp only [UInt32.reduceToNat]; omega)
      refine ⟨_, ?_, hsame'⟩
      rw [hssid, hkey]
      rfl
    next => exact hnone
  case ipConfig =>
    have hlen := hsized (by decide)
    dsimp only at hlen
    split
    next =>
      have h16 := hadd a 16 (by omega) (by decide)
      obtain ⟨hsame, hip⟩ := hread hself 0 a 16 rfl (by simp only [UInt32.reduceToNat]; omega)
      obtain ⟨hsame', hmask⟩ := hread hsame 16 (a + 16) 16 h16
        (by simp only [UInt32.reduceToNat]; omega)
      obtain ⟨hsame'', hgateway⟩ := hread hsame' 32 (a + 16 + 16) 16
        (by
          rw [hadd (a + 16) 16 (by rw [h16]; simp only [UInt32.reduceToNat]; omega) (by decide),
            h16]
          rfl)
        (by simp only [UInt32.reduceToNat]; omega)
      refine ⟨_, ?_, hsame''⟩
      rw [hip, hmask, hgateway]
      rfl
    next => exact hnone
  case default => exact hnone

theorem getInfoItem_spec (h : NetStore soc7221u f items) (item : UInt32) (ptr0 ptr1 ptr2 : Bool) :
    ∃ f', getInfoItem soc7221u f item ptr0 ptr1 ptr2 =
        some (f', deliver items item ptr0 ptr1 ptr2) ∧ f.Same f' := by
  cases h with
  | absent h =>
    obtain ⟨f', htbl, hsame⟩ := searchInfoTbl_absent h
    exact ⟨f', by simp only [getInfoItem, htbl, if_true]; rfl, hsame⟩
  | table h =>
    obtain ⟨f₁, htbl, hsame₁⟩ := h.searchInfoTbl_none
    obtain ⟨f₂, a, hitem, hsame₂, ha⟩ := (h.congr hsame₁).searchInfoItem item
    have h₂ := (h.congr hsame₁).congr hsame₂
    obtain ⟨hpos, _, hend⟩ := netStart_bounds soc7221u
    rw [getInfoItem]
    simp only [htbl, hitem, Option.map_some]
    rw [if_neg (by decide : ¬ (1 : UInt32) = 0)]
    cases hfind : Tlv.find item items with
    | none =>
      rw [hfind, if_pos rfl] at ha
      have ha0 : a = 0 := UInt32.toNat_inj.mp ha
      exact ⟨f₂, by rw [if_pos ha0, deliver, hfind], hsame₁.trans hsame₂⟩
    | some v =>
      rw [hfind, if_neg (Option.some_ne_none v)] at ha
      have ha0 : a ≠ 0 := fun h0 => by
        rw [h0] at ha
        simp only [UInt32.toNat_zero] at ha
        omega
      have hlt := Tlv.offset_lt hfind
      have hfits := h.fits
      have hbytes := has_of_find (Mem.has_append.mp (Mem.has_append.mp h₂.image).2).2 hfind
      rw [length_le32, length_le32, Nat.add_assoc (netStart soc7221u), ← ha] at hbytes
      obtain ⟨hsame₃, hhead⟩ := flashRead_head hbytes (by omega)
      have hsame := (hsame₁.trans hsame₂).trans hsame₃
      have haddr : (a + 8).toNat = a.toNat + 8 :=
        toNat_add_of_lt (by simp only [UInt32.reduceToNat]; omega)
      have hvalue : (flashRead f₂ 8 a).1.cells.Has (a + 8).toNat v := by
        rw [hsame₃.cells, haddr]
        exact (Mem.has_append.mp (Mem.has_append.mp hbytes).2).2
      obtain ⟨f', hgot, hsame'⟩ := getValues_spec hfind hvalue (by omega) (by omega)
        (h.sized _ (Tlv.mem_of_find hfind)) ptr0 ptr1 ptr2
      refine ⟨f', ?_, hsame.trans hsame'⟩
      rw [if_neg ha0, hhead, hgot]

end Get

section Save

variable {soc7221u : Bool} {f : Chip} {items : List Tlv}

theorem infoItemLen_toNat (item : UInt32) : (infoItemLen item).toNat = 8 + valueLen item := by
  rw [valueLen]
  unfold infoItemLen
  cases itemCase item <;> rfl

theorem valueLen_le (item : UInt32) : valueLen item ≤ 96 := by
  rw [valueLen_eq]
  cases itemCase item <;> decide

theorem infoItemLen_sub (item : UInt32) :
    infoItemLen item - 8 = UInt32.ofNat (valueLen item) := by
  have hlen := infoItemLen_toNat item
  have h96 := valueLen_le item
  have h8 : (8 : UInt32) ≤ infoItemLen item := by
    rw [UInt32.le_iff_toNat_le, hlen]
    exact Nat.le_add_right 8 _
  apply UInt32.toNat_inj.mp
  rw [lenWord_toNat (by omega), UInt32.toNat_sub_of_le _ _ h8, hlen]
  exact Nat.add_sub_cancel_left ..

theorem length_itemBuf (soc7221u : Bool) (c : SaveCall) :
    (c.itemBuf soc7221u).length ≤ valueLen c.item := by
  rw [SaveCall.itemBuf, valueLen_eq]
  cases itemCase c.item <;> simp
  split <;> decide

/-- Where the item goes, and the size of the table with it. -/
theorem saveLayout_spec (h : NetStore soc7221u f items) (item : UInt32) :
    ∃ l, saveLayout soc7221u f item = some l ∧ f.Same l.chip ∧
      l.addrOffset.toNat = 8 + Tlv.offset item items ∧
      l.cfgTblLen.toNat = 8 + Tlv.tableSize items + Tlv.room item (valueLen item) items ∧
      if l.tbl then NetTable soc7221u l.chip items else items = [] := by
  have hitemLen := infoItemLen_toNat item
  have hvalueLen := valueLen_le item
  cases h with
  | absent h =>
    obtain ⟨f', htbl, hsame⟩ := searchInfoTbl_absent h
    refine ⟨⟨f', false, 8, 8 + infoItemLen item⟩, ?_, hsame, rfl, ?_, rfl⟩
    · simp only [saveLayout, htbl, if_true]
    · rw [UInt32.toNat_add, hitemLen]
      simp only [Tlv.tableSize, Tlv.room, Tlv.find, if_true, UInt32.reduceToNat]
      omega
  | table h =>
    obtain ⟨f₁, htbl, hsame₁⟩ := h.searchInfoTbl_none
    obtain ⟨f₂, a, hitem, hsame₂, ha⟩ := (h.congr hsame₁).searchInfoItem item
    have h₂ := (h.congr hsame₁).congr hsame₂
    obtain ⟨hpos, _, hend⟩ := netStart_bounds soc7221u
    have hfits := h.fits
    have hcfg := h.cfgLen_toNat
    rw [saveLayout]
    simp only [htbl, hitem, Option.map_some]
    rw [if_neg (by decide : ¬ (1 : UInt32) = 0)]
    cases hfind : Tlv.find item items with
    | none =>
      rw [hfind, if_pos rfl] at ha
      have ha0 : a = 0 := UInt32.toNat_inj.mp ha
      refine ⟨⟨f₂, true, _, _⟩, by rw [if_pos ha0], hsame₁.trans hsame₂, ?_, ?_, h₂⟩
      · rw [hcfg, Tlv.offset_eq hfind]
      · rw [UInt32.toNat_add, hcfg, hitemLen, Tlv.room, if_pos hfind]
        exact Nat.mod_eq_of_lt (by omega)
    | some v =>
      rw [hfind, if_neg (Option.some_ne_none v)] at ha
      have hle : (bkFlashGetInfo soc7221u .netParam).partitionStartAddr ≤ a := by
        rw [UInt32.le_iff_toNat_le, start_toNat]
        omega
      have ha0 : a ≠ 0 := fun h0 => by
        rw [h0] at ha
        simp only [UInt32.toNat_zero] at ha
        omega
      refine ⟨⟨f₂, true, _, _⟩, by rw [if_neg ha0], hsame₁.trans hsame₂, ?_, ?_, h₂⟩
      · rw [UInt32.toNat_sub_of_le _ _ hle, start_toNat]
        omega
      · rw [hcfg, Tlv.room, hfind, if_neg (Option.some_ne_none v), Nat.add_zero]

/-- The sector after an erase and a write of the whole table. -/
theorem rewrite_spec {buf : List UInt8} {n : UInt32} (hn : n ≠ 0) (hlen : buf.length = n.toNat)
    (hle : n.toNat ≤ 4096) (hchip : netStart soc7221u + 4096 ≤ f.flashSize.toNat) :
    let erased := bkFlashErase soc7221u f .netParam 0 n
    let written := (bkFlashWrite soc7221u erased.1 .netParam 0 (some buf) n).1
    written.cells.Has (netStart soc7221u) buf ∧ written.flashSize = f.flashSize := by
  intro erased written
  obtain ⟨hpos, halign, hend⟩ := netStart_bounds soc7221u
  have hin : Inside soc7221u .netParam 0 n := by
    rw [Inside]
    exact Nat.le_trans (Nat.le_of_eq (Nat.zero_add _)) hle
  have hsize : erased.1.flashSize = f.flashSize := eraseSectors_flashSize f
  have hones (k : Nat) (hlo : netStart soc7221u ≤ k) (hhi : k < netStart soc7221u + n.toNat) :
      erased.1.cells k = 0xff :=
    (bkFlashErase_requested hn hin f k).1 ⟨by omega, k, ⟨hlo, hhi⟩, rfl⟩
  have hok : ¬ Refused erased.1.flashSize
      ((bkFlashGetInfo soc7221u .netParam).partitionStartAddr + 0) n := by
    rw [hsize, UInt32.add_zero]
    exact not_refused (by rw [start_toNat]; omega) (by rw [start_toNat]; omega)
  have hprog : Programs erased.1 (netStart soc7221u) buf written :=
    bkFlashWrite_programs erased.1 hlen hin hok
  refine ⟨?_, hprog.flashSize.trans hsize⟩
  rw [hprog.cells]
  apply List.ext_getElem (by simp)
  intro k _ hk
  simp only [Mem.read, List.getElem_map, List.getElem_range]
  rw [program_apply_add, hones _ (by omega) (by omega), List.getD_eq_getElem _ _ hk]
  exact UInt8.neg_one_and

/-- The buffer that is written back: the table with the item put in. -/
theorem wrbuf_eq {t : UInt32} {n : Nat} {new rest head : List UInt8}
    (hhead : head.length = 8) (hnew : new.length ≤ n)
    (hsized : ∀ y ∈ items, y.type = t → y.value.length = n)
    (hrest : rest = Tlv.tableBytes items ++ List.replicate (Tlv.room t n items) 0)
    (len : UInt32) :
    splice (Tlv.writeItem (head ++ rest) (8 + Tlv.offset t items) t n new) 0
        (le32 infoTlvHeader ++ le32 len) =
      le32 infoTlvHeader ++ le32 len ++ Tlv.tableBytes (Tlv.put t n new items) := by
  rw [← hhead, Tlv.writeItem_append, hrest, Tlv.writeItem_table hnew hsized]
  exact splice_append [] head _ _ hhead.symm

/-- What stands in the buffer when the item is put in: a head, and the items with the room for
a fresh one. -/
theorem wrbuf_spec {l : SaveLayout} {n : Nat} (hsame : f.Same l.chip)
    (hcfg : l.cfgTblLen.toNat = 8 + Tlv.tableSize items + n)
    (htbl : if l.tbl then NetTable soc7221u l.chip items else items = []) :
    ∃ f' ret len head, (if l.tbl then
        searchInfoTbl soc7221u l.chip (some (List.replicate l.cfgTblLen.toNat 0))
      else ⟨l.chip, 0, 0, some (List.replicate l.cfgTblLen.toNat 0)⟩) =
        ⟨f', ret, len, some (head ++ (Tlv.tableBytes items ++ List.replicate n 0))⟩ ∧
      f.Same f' ∧ head.length = 8 := by
  split at htbl
  next hl =>
    obtain ⟨f', hread, hsame'⟩ := htbl.searchInfoTbl_some (List.replicate l.cfgTblLen.toNat 0)
    refine ⟨f', 1, UInt32.ofNat (Tlv.tableSize items) + 8,
      le32 infoTlvHeader ++ le32 (UInt32.ofNat (Tlv.tableSize items)), ?_, hsame.trans hsame', rfl⟩
    rw [if_pos hl, hread, hcfg, ← length_tableImage, splice, List.take_zero, Nat.zero_add,
      List.nil_append, List.drop_replicate, Nat.add_sub_cancel_left, tableImage]
    simp only [List.append_assoc]
  next hl =>
    subst htbl
    refine ⟨l.chip, 0, 0, List.replicate 8 0, ?_, hsame, List.length_replicate⟩
    rw [if_neg hl, hcfg, Tlv.tableSize, Tlv.tableBytes, Nat.add_zero, List.nil_append,
      List.replicate_append_replicate]

/-- The length that the head of the saved table carries. -/
theorem headLen_eq {l : SaveLayout} {item : UInt32} {k : Nat}
    (hcfg : l.cfgTblLen.toNat =
      8 + Tlv.tableSize items + Tlv.room item (valueLen item) items)
    (htbl : if l.tbl then NetTable soc7221u l.chip items else items = [])
    (hk : k = Tlv.tableSize items + Tlv.room item (valueLen item) items)
    (hle : l.cfgTblLen.toNat ≤ 4096) :
    (if l.tbl = true then l.cfgTblLen - 8 else infoItemLen item) = UInt32.ofNat k := by
  apply UInt32.toNat_inj.mp
  rw [lenWord_toNat (by omega), hk]
  split at htbl
  next hl =>
    have h8 : (8 : UInt32) ≤ l.cfgTblLen := by
      rw [UInt32.le_iff_toNat_le, hcfg]
      simp only [UInt32.reduceToNat]
      omega
    rw [if_pos hl, UInt32.toNat_sub_of_le _ _ h8, hcfg]
    simp only [UInt32.reduceToNat]
    omega
  next hl =>
    subst htbl
    rw [if_neg hl, infoItemLen_toNat, Tlv.tableSize, Tlv.room, Tlv.find, if_pos rfl, Nat.zero_add]

/-- A save that gets its buffer leaves a well-formed table with the item put in. -/
theorem saveInfoItem_spec (c : SaveCall) (h : NetStore soc7221u f items)
    (hlisted : itemCase c.item ≠ .default) (hz : c.zalloc = true)
    (hchip : netStart soc7221u + 4096 ≤ f.flashSize.toNat)
    (hfit : ∀ l ∈ saveLayout soc7221u f c.item, l.cfgTblLen ≤ 4096) :
    ∃ f', saveInfoItem soc7221u f c = some (f', 1) ∧ f'.flashSize = f.flashSize ∧
      NetTable soc7221u f'
        (Tlv.put c.item (valueLen c.item) (c.itemBuf soc7221u) items) := by
  obtain ⟨l, hl, hsame, hoffset, hcfg, htbl⟩ := saveLayout_spec h c.item
  have hnew := length_itemBuf soc7221u c
  have hle : l.cfgTblLen.toNat ≤ 4096 := hfit l hl
  have hold : (items.map Tlv.type).Nodup ∧
      ∀ x ∈ items, itemCase x.type ≠ .default → x.value.length = valueLen x.type := by
    cases h with
    | table h => exact ⟨h.distinct, h.sized⟩
    | absent => exact ⟨List.nodup_nil, fun x hx => absurd hx List.not_mem_nil⟩
  have hsized (y : Tlv) (hy : y ∈ items) (ht : y.type = c.item) :
      y.value.length = valueLen c.item := by
    rw [hold.2 y hy (by rw [ht]; exact hlisted), ht]
  have hsize := Tlv.tableSize_put hnew hsized
  obtain ⟨f₁, ret, len, head, hbuf, hsame₁, hhead⟩ := wrbuf_spec hsame hcfg htbl
  have hheadLen := headLen_eq hcfg htbl hsize hle
  have himage := wrbuf_eq hhead hnew hsized rfl
    (UInt32.ofNat (Tlv.tableSize (Tlv.put c.item (valueLen c.item) (c.itemBuf soc7221u) items)))
  rw [List.append_assoc (le32 _)] at himage
  change _ = tableImage _ at himage
  have hn0 : l.cfgTblLen ≠ 0 := fun h0 => by
    rw [h0] at hcfg
    simp only [UInt32.toNat_zero] at hcfg
    omega
  have hlen : (tableImage
      (Tlv.put c.item (valueLen c.item) (c.itemBuf soc7221u) items)).length =
        l.cfgTblLen.toNat := by
    rw [length_tableImage, hsize, hcfg, Nat.add_assoc]
  have hchip' : netStart soc7221u + 4096 ≤ f₁.flashSize.toNat := by
    rw [hsame₁.flashSize]
    exact hchip
  obtain ⟨hhas, hflashSize⟩ := rewrite_spec hn0 hlen hle hchip'
  refine ⟨_, ?_, hflashSize.trans hsame₁.flashSize, hhas, Tlv.nodup_put hold.1, ?_, ?_⟩
  · delta saveInfoItem
    simp only [hl, Option.map_some, hz, if_true, hbuf, Option.getD_some, hheadLen,
      infoItemLen_sub, hoffset]
    rw [← himage]
    rfl
  · intro x hx hx'
    cases Tlv.mem_put hnew hx hsized with
    | inl hmem => exact hold.2 x hmem hx'
    | inr hput => rw [hput.2, hput.1]
  · rw [hsize]
    omega

theorem saveInfoItem_noRoom (c : SaveCall) (h : NetStore soc7221u f items)
    (hz : c.zalloc = false) :
    ∃ f', saveInfoItem soc7221u f c = some (f', 0) ∧ f.Same f' := by
  obtain ⟨l, hl, hsame, _⟩ := saveLayout_spec h c.item
  refine ⟨l.chip, ?_, hsame⟩
  delta saveInfoItem
  simp [hl, hz]

end Save

end BdkRtt.Flash
