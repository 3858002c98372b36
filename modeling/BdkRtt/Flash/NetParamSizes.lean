import BdkRtt.Flash.NetParamSearch

namespace BdkRtt.Flash

open Lib

section Full

variable {f : Chip}

/-- `REG_FLASH_DATA_FLASH_SW` gives eight words, from the first read on. -/
def Chip.Full (f : Chip) : Prop := f.dataFlashSw.length = 32

theorem Chip.Full.operate (h : f.Full) (word : UInt32) (data : List UInt8) :
    (f.operate word data).Full := by
  unfold Chip.operate
  dsimp only
  split
  · exact Mem.length_read ..
  · split
    · exact h
    · split <;> exact h

theorem Chip.Full.readLines (h : f.Full) (fuel : Nat) (addr address len : UInt32) :
    (readLines f fuel addr address len).1.Full := by
  induction fuel generalizing f addr address len with
  | zero => exact h
  | succ fuel ih =>
    unfold Flash.readLines
    split
    · exact h
    · exact ih (h.operate _ _) ..

/-- A read takes as many bytes as it is told, at whatever address. -/
theorem Chip.Full.length_readLines (h : f.Full) {fuel : Nat} {addr address len : UInt32}
    (hfuel : len.toNat ≤ fuel) :
    (Flash.readLines f fuel addr address len).2.length = len.toNat := by
  induction fuel generalizing f addr address len with
  | zero => exact (Nat.le_zero.mp hfuel).symm
  | succ fuel ih =>
    unfold Flash.readLines
    split
    next h0 =>
      rw [h0]
      rfl
    next h0 =>
      have hop := h.operate (operateWord addr flashOpcodeRead f.operateSw) []
      have hpos := toNat_pos h0
      have hline : (address % 32).toNat < 32 := Nat.mod_lt _ (by decide)
      have hcount : lineCount address len ≤ len.toNat := Nat.min_le_right ..
      have hinside : lineCount address len ≤ 32 - (address % 32).toNat := Nat.min_le_left ..
      have hround : 0 < lineCount address len := Nat.lt_min.mpr ⟨by omega, hpos⟩
      have hword : (UInt32.ofNat (lineCount address len)).toNat = lineCount address len :=
        lenWord_toNat (by omega)
      have hle : UInt32.ofNat (lineCount address len) ≤ len := by
        rw [UInt32.le_iff_toNat_le, hword]
        exact hcount
      have hrest : (len - UInt32.ofNat (lineCount address len)).toNat =
          len.toNat - lineCount address len := by
        rw [UInt32.toNat_sub_of_le _ _ hle, hword]
      rw [List.length_append, ih hop (by omega), hrest, List.length_take, List.length_drop, hop]
      omega

theorem Chip.Full.flashRead (h : f.Full) (count address : UInt32) :
    (flashRead f count address).1.Full ∧
      (Flash.flashRead f count address).2.length = count.toNat :=
  ⟨h.readLines .., h.length_readLines (Nat.le_refl _)⟩

/-- A read within the flash leaves the register full. -/
theorem full_flashRead {count address : UInt32} (hcount : count ≠ 0)
    (hfit : address.toNat < 2 ^ 24) : (flashRead f count address).1.Full := by
  obtain ⟨fuel, hfuel⟩ := Nat.exists_eq_add_of_lt (toNat_pos hcount)
  rw [Nat.zero_add] at hfuel
  have hfirst :
      (f.operate (operateWord (lineAddr address) flashOpcodeRead f.operateSw) []).Full := by
    rw [operate_read f (lineAddr_lt hfit)]
    exact Mem.length_read ..
  rw [Flash.flashRead, flashReadData, hfuel, Flash.readLines, if_neg hcount]
  exact hfirst.readLines ..

theorem Chip.Full.searchItems (h : f.Full) {type endAddr : UInt32} {fuel : Nat} {addr : UInt32} :
    ∀ s ∈ searchItems type endAddr fuel f addr, s.1.Full := by
  induction fuel generalizing f addr with
  | zero =>
    intro s hs
    exact absurd hs (Option.not_mem_none _)
  | succ fuel ih =>
    unfold Flash.searchItems
    dsimp only
    split
    · split
      · exact ih (h.flashRead ..).1
      · rintro s ⟨⟩
        exact (h.flashRead ..).1
    · rintro s ⟨⟩
      exact h

theorem full_searchInfoItem {soc7221u : Bool} {type : UInt32} :
    ∀ s ∈ searchInfoItem f type (tableStart soc7221u), s.1.Full := by
  intro s hs
  obtain ⟨s', hs', rfl⟩ := Option.mem_map.mp hs
  exact (full_flashRead (by decide) (by have := tableStart_fits soc7221u; omega)
    : (flashRead f 8 (tableStart soc7221u)).1.Full).searchItems s' hs'

end Full

section Sizes

/-- How many bytes lie at each of the three pointers. -/
structure Sizes where
  size0 : Nat
  size1 : Nat
  size2 : Nat

/-- How many bytes `save_info_item` reads through each pointer. -/
def savedSizes (soc7221u : Bool) (item : UInt32) : Sizes :=
  match itemCase item with
  | .comm | .default => ⟨4, 0, 0⟩
  | .macAddr => ⟨6, 0, 0⟩
  | .ssidKey => ⟨32, 64, 0⟩
  | .ipConfig => ⟨16, 16, 16⟩
  | .charge => ⟨if soc7221u then 4 else 3, 0, 0⟩

theorem itemBuf_eq_reads (soc7221u : Bool) (c : SaveCall) :
    c.itemBuf soc7221u = c.ptr0.read 0 (savedSizes soc7221u c.item).size0 ++
      (c.ptr1.read 0 (savedSizes soc7221u c.item).size1 ++
        c.ptr2.read 0 (savedSizes soc7221u c.item).size2) := by
  rw [SaveCall.itemBuf, savedSizes]
  cases itemCase c.item <;> simp

def Got.sizes (got : Got) : Sizes := ⟨got.out0.length, got.out1.length, got.out2.length⟩

/-- No more bytes at any pointer. -/
structure Sizes.Le (s s' : Sizes) : Prop where
  le0 : s.size0 ≤ s'.size0
  le1 : s.size1 ≤ s'.size1
  le2 : s.size2 ≤ s'.size2

theorem Sizes.le_iff {s s' : Sizes} :
    s.Le s' ↔ s.size0 ≤ s'.size0 ∧ s.size1 ≤ s'.size1 ∧ s.size2 ≤ s'.size2 := by
  constructor
  · intro h
    exact ⟨h.le0, h.le1, h.le2⟩
  · rintro ⟨h0, h1, h2⟩
    exact ⟨h0, h1, h2⟩

theorem Sizes.nothing_le (s : Sizes) : (⟨0, [], [], []⟩ : Got).sizes.Le s :=
  ⟨Nat.zero_le _, Nat.zero_le _, Nat.zero_le _⟩

/-- The cases of `get_info_item` that read as many bytes as the head says. -/
def ReadsLen (item : UInt32) : Prop :=
  itemCase item = .comm ∨ itemCase item = .macAddr ∨ itemCase item = .charge

/-- The head of an item of that type that the table has is for no more than `n` bytes. -/
def LenWithin (soc7221u : Bool) (f : Chip) (item : UInt32) (n : Nat) : Prop :=
  (searchInfoTbl soc7221u f none).ret ≠ 0 →
    ∀ s ∈ searchInfoItem (searchInfoTbl soc7221u f none).chip item (tableStart soc7221u),
      s.2 ≠ 0 → (infoItemSt (flashRead s.1 8 s.2).2).len.toNat ≤ n

variable {soc7221u : Bool} {f : Chip} {item len addr : UInt32} {ptr0 ptr1 ptr2 : Bool}

/-- What the switch stores: the length of the head decides in three of its cases only. -/
theorem getValues_sizes (h : f.Full) :
    (getValues f item len addr ptr0 ptr1 ptr2).2.sizes.Le (savedSizes soc7221u item) ↔
      (ReadsLen item → ptr0 = true → len.toNat ≤ (savedSizes soc7221u item).size0) := by
  have hread := (h.flashRead len addr).2
  rw [getValues, ReadsLen]
  cases hcase : itemCase item <;> dsimp only
  case comm | macAddr | charge =>
    split
    next hptr =>
      simp only [hptr, reduceCtorEq, or_true, true_or, true_implies]
      refine ⟨fun hle => hread ▸ hle.le0, fun hle => ⟨?_, Nat.zero_le _, Nat.zero_le _⟩⟩
      rw [← hread] at hle
      exact hle
    next hptr => simp [hptr, Sizes.nothing_le]
  case ssidKey =>
    simp only [reduceCtorEq, or_self, false_implies, iff_true]
    split
    next =>
      obtain ⟨hfull, hssid⟩ := h.flashRead 32 addr
      obtain ⟨-, hkey⟩ := hfull.flashRead 64 (addr + 32)
      simp only [savedSizes, hcase]
      exact ⟨hssid.le, hkey.le, Nat.le_refl _⟩
    next => exact Sizes.nothing_le _
  case ipConfig =>
    simp only [reduceCtorEq, or_self, false_implies, iff_true]
    split
    next =>
      obtain ⟨hfull, hip⟩ := h.flashRead 16 addr
      obtain ⟨hfull', hmask⟩ := hfull.flashRead 16 (addr + 16)
      obtain ⟨-, hgateway⟩ := hfull'.flashRead 16 (addr + 16 + 16)
      simp only [savedSizes, hcase]
      exact ⟨hip.le, hmask.le, hgateway.le⟩
    next => exact Sizes.nothing_le _
  case default => simp [Sizes.nothing_le]

variable (soc7221u item ptr0 ptr1 ptr2)

/-- Of a table that `save_info_item` has written, only the MAC address and, off the BK7221U, the
charge configuration come out longer than they went in: they are padded to four bytes. -/
theorem NetStore.get_sizes {items : List Tlv} (h : NetStore soc7221u f items) :
    (∀ r ∈ getInfoItem soc7221u f item ptr0 ptr1 ptr2,
        r.2.sizes.Le (savedSizes soc7221u item)) ↔
      (Tlv.find item items ≠ none → ptr0 = true →
        itemCase item ≠ .macAddr ∧ (itemCase item = .charge → soc7221u = true)) := by
  obtain ⟨f', hget, -⟩ := getInfoItem_spec h item ptr0 ptr1 ptr2
  rw [hget]
  simp only [Option.mem_some_iff, forall_eq']
  cases hfind : Tlv.find item items with
  | none => simp [deliver, hfind, Sizes.nothing_le]
  | some v =>
    have hsized (hcase : itemCase item ≠ .default) : v.length = valueLen item := by
      cases h with
      | table h => exact h.sized _ (Tlv.mem_of_find hfind) hcase
      | absent => cases hfind
    rw [valueLen_eq] at hsized
    simp only [deliver, hfind, savedSizes, ne_eq, reduceCtorEq, not_false_eq_true, true_implies]
    cases hcase : itemCase item <;> rw [hcase] at hsized <;> dsimp only
    case comm | macAddr | charge =>
      have hlen := hsized (by decide)
      dsimp only at hlen
      cases ptr0 with
      | false => simp [Sizes.nothing_le]
      | true =>
        cases soc7221u <;> simp [Got.sizes, Sizes.le_iff, hlen]
    case ssidKey =>
      have hlen := hsized (by decide)
      dsimp only at hlen
      cases ptr0 <;> cases ptr1 <;> simp [Got.sizes, Sizes.le_iff, hlen]
    case ipConfig =>
      have hlen := hsized (by decide)
      dsimp only at hlen
      cases ptr0 <;> cases ptr1 <;> cases ptr2 <;> simp [Got.sizes, Sizes.le_iff, hlen]
    case default => simp [Sizes.nothing_le]

variable (f)

/-- `get_info_item` stores no more than `save_info_item` reads, on any content of the flash, if
and only if the length of the item it finds says so, where it goes by that. -/
theorem get_within_saved :
    (∀ r ∈ getInfoItem soc7221u f item ptr0 ptr1 ptr2,
        r.2.sizes.Le (savedSizes soc7221u item)) ↔
      (ReadsLen item → ptr0 = true →
        LenWithin soc7221u f item (savedSizes soc7221u item).size0) := by
  rw [getInfoItem, LenWithin]
  dsimp only
  split
  next htbl => simp [htbl, Sizes.nothing_le]
  next htbl =>
    rw [Option.forall_mem_map]
    constructor
    · intro hle hreads hptr _ s hs haddr
      have hs' := hle s hs
      rw [if_neg haddr, getValues_sizes ((full_searchInfoItem s hs).flashRead ..).1] at hs'
      exact hs' hreads hptr
    · intro hlen s hs
      split
      next => exact Sizes.nothing_le _
      next haddr =>
        rw [getValues_sizes ((full_searchInfoItem s hs).flashRead ..).1]
        exact fun hreads hptr => hlen hreads hptr htbl s hs haddr

end Sizes

theorem searchInfoTbl_headAt {soc7221u : Bool} {f : Chip}
    (h : (headAt f.cells (tableStart soc7221u)).type = infoTlvHeader) :
    searchInfoTbl soc7221u f none = ⟨(flashRead f 8 (tableStart soc7221u)).1, 1,
      (headAt f.cells (tableStart soc7221u)).len + 8, none⟩ := by
  have hhead := (flashRead_headAt f (tableStart_fits soc7221u)).2
  change (if infoTlvHeader = (infoItemSt (flashRead f 8 (tableStart soc7221u)).2).type then
    (⟨(flashRead f 8 (tableStart soc7221u)).1, 1,
      (infoItemSt (flashRead f 8 (tableStart soc7221u)).2).len + 8, none⟩ : TblSearch)
    else _) = _
  rw [hhead, if_pos h.symm]

/-- A table with an item whose length is twice that of a common value. -/
def longItem : Chip where
  flashSize := 0x200000
  cells := Mem.write (fun _ => 0xff) 0x1e1000
    (le32 infoTlvHeader ++ (le32 16 ++ (le32 autoConnectItem ++ (le32 8 ++ []))))
  operateSw := 0
  dataFlashSw := List.replicate 32 0

theorem longItem_head : headAt longItem.cells (tableStart false) = ⟨infoTlvHeader, 16⟩ :=
  infoItemSt_of_has (Mem.has_write_self ..)

theorem longItem_item : headAt longItem.cells (tableStart false + 8) = ⟨autoConnectItem, 8⟩ :=
  infoItemSt_of_has (Mem.has_append.mp (Mem.has_append.mp (Mem.has_write_self ..)).2).2

theorem get_beyond_saved : ¬ ∀ (soc7221u : Bool) (f : Chip) (item : UInt32)
    (ptr0 ptr1 ptr2 : Bool), ∀ r ∈ getInfoItem soc7221u f item ptr0 ptr1 ptr2,
      r.2.sizes.Le (savedSizes soc7221u item) := by
  intro h
  obtain ⟨hsame, -⟩ := flashRead_headAt longItem (tableStart_fits false)
  have hitem := longItem_item
  rw [← hsame.cells] at hitem
  have hlt : itemAddr (flashRead longItem 8 (tableStart false)).1.cells (tableStart false) 0 <
      searchEnd (flashRead longItem 8 (tableStart false)).1.cells (tableStart false) := by
    rw [searchEnd, hsame.cells, longItem_head]
    decide
  have hread : (tableStart false + 8).toNat + 8 ≤ 2 ^ 24 := by decide
  have htype : (headAt (flashRead longItem 8 (tableStart false)).1.cells
      (tableStart false + 8)).type = autoConnectItem := congrArg InfoItemSt.type hitem
  obtain ⟨⟨f', hsame', hret⟩, -⟩ := searchInfoItem_found (tableStart_fits false) (by decide)
    Orbit.comes_zero (fun j hj => absurd hj (Nat.not_lt_zero j)) hlt hread htype
  change searchInfoItem _ autoConnectItem _ = some (f', tableStart false + 8) at hret
  obtain ⟨-, hhead'⟩ := flashRead_headAt f' hread
  rw [hsame'.cells, hitem] at hhead'
  have hfull := full_searchInfoItem _ hret
  have hget : getInfoItem false longItem autoConnectItem true false false =
      some (getValues (flashRead f' 8 (tableStart false + 8)).1 autoConnectItem 8
        (tableStart false + 8 + 8) true false false) := by
    rw [getInfoItem, searchInfoTbl_headAt (congrArg InfoItemSt.type longItem_head)]
    dsimp only
    rw [if_neg (by decide)]
    change (searchInfoItem _ _ (tableStart false)).map _ = _
    rw [hret, Option.map_some]
    dsimp only
    rw [if_neg (by decide : ¬ tableStart false + 8 = 0), hhead']
  have hle := (h false longItem autoConnectItem true false false _ hget).le0
  have hlen := ((hfull.flashRead 8 (tableStart false + 8)).1.flashRead 8
    (tableStart false + 8 + 8)).2
  change (flashRead _ 8 (tableStart false + 8 + 8)).2.length ≤ 4 at hle
  rw [hlen] at hle
  exact absurd hle (by decide)

end BdkRtt.Flash
