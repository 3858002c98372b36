import BdkRtt.Flash.NetParamLaws
import BdkRtt.Lib.Machine

namespace BdkRtt.Flash

open Lib

section Law

variable (soc7221u : Bool)

/-- The pointers that `get_info_item` needs for the item are not NULL. -/
def HasPtrs (item : UInt32) (ptr0 ptr1 ptr2 : Bool) : Prop :=
  match itemCase item with
  | .comm | .macAddr | .charge => ptr0
  | .ssidKey => ptr0 ∧ ptr1
  | .ipConfig => ptr0 ∧ ptr1 ∧ ptr2
  | .default => False

/-- The values of the call, as `get_info_item` puts them at its pointers.  Behind a MAC address or
a charge value come the reserved bytes of its `ITEM_*_ST`. -/
def SaveCall.Delivered (c : SaveCall) (got : Got) : Prop :=
  match itemCase c.item with
  | .comm => got.out0 = c.ptr0.read 0 4
  | .macAddr => got.out0.take 6 = c.ptr0.read 0 6
  | .charge =>
    got.out0.take (if soc7221u then 4 else 3) = c.ptr0.read 0 (if soc7221u then 4 else 3)
  | .ssidKey => got.out0 = c.ptr0.read 0 32 ∧ got.out1 = c.ptr1.read 0 64
  | .ipConfig => got.out0 = c.ptr0.read 0 16 ∧ got.out1 = c.ptr1.read 0 16 ∧
      got.out2 = c.ptr2.read 0 16
  | .default => False

/-- What a save does to the store.  Without room for its buffer it returns 0 and leaves the
flash as it was. -/
structure SaveLaw (f f' : Chip) (c : SaveCall) (ret : UInt32) : Prop where
  answered : ret = if c.zalloc then 1 else 0
  unchanged : c.zalloc = false → f'.cells = f.cells
  delivers : c.zalloc = true → ∀ ptr0 ptr1 ptr2, HasPtrs c.item ptr0 ptr1 ptr2 →
    ∃ f'' got, getInfoItem soc7221u f' c.item ptr0 ptr1 ptr2 = some (f'', got) ∧ got.ret = 1 ∧
      c.Delivered soc7221u got
  keeps : ∀ item, item ≠ c.item → ∀ ptr0 ptr1 ptr2,
    ∃ f₁ f₂ got, getInfoItem soc7221u f item ptr0 ptr1 ptr2 = some (f₁, got) ∧
      getInfoItem soc7221u f' item ptr0 ptr1 ptr2 = some (f₂, got)
  wellFormed : c.zalloc = true → ∃ items, NetTable soc7221u f' items

/-- The saves of the items listed in `NET_INFO_ITEM` whose table stays in the sector. -/
structure Saves (f : Chip) (c : SaveCall) : Prop where
  listed : itemCase c.item ≠ .default
  below : ∀ l ∈ saveLayout soc7221u f c.item, l.cfgTblLen ≤ 4096

/-- The parameter store, from a given content of the flash on. -/
def netParam (f₀ : Chip) : Machine Chip SaveCall UInt32 where
  init := f₀
  step := saveInfoItem soc7221u

end Law

section Step

variable {soc7221u : Bool} {f f' : Chip} {items : List Tlv} {c : SaveCall}

theorem put_delivers {f : Chip}
    (htable : NetTable soc7221u f
      (Tlv.put c.item (valueLen c.item) (c.itemBuf soc7221u) items))
    {ptr0 ptr1 ptr2 : Bool} (hptr : HasPtrs c.item ptr0 ptr1 ptr2) :
    (deliver (Tlv.put c.item (valueLen c.item) (c.itemBuf soc7221u) items) c.item
        ptr0 ptr1 ptr2).ret = 1 ∧
      c.Delivered soc7221u
        (deliver (Tlv.put c.item (valueLen c.item) (c.itemBuf soc7221u) items) c.item
          ptr0 ptr1 ptr2) := by
  obtain ⟨v, hfind⟩ := Tlv.find_put_self c.item (valueLen c.item) (c.itemBuf soc7221u) items
  have hsized := htable.sized _ (Tlv.mem_of_find hfind)
  rw [deliver, hfind, SaveCall.Delivered]
  rw [HasPtrs] at hptr
  dsimp only at hsized ⊢
  rw [valueLen_eq, List.length_append, SaveCall.itemBuf] at hsized
  rw [SaveCall.itemBuf]
  cases hcase : itemCase c.item <;> rw [hcase] at hptr hsized <;> dsimp only at hptr hsized ⊢
  case comm =>
    have hv : v = [] := List.length_eq_zero_iff.mp (by
      have := hsized (by decide)
      rw [Mem.length_read] at this
      omega)
    rw [if_pos hptr, hv, List.append_nil]
    exact ⟨rfl, rfl⟩
  case macAddr =>
    rw [if_pos hptr]
    exact ⟨rfl, List.take_left' (Mem.length_read ..)⟩
  case charge =>
    rw [if_pos hptr]
    exact ⟨rfl, List.take_left' (Mem.length_read ..)⟩
  case ssidKey =>
    rw [if_pos hptr]
    refine ⟨rfl, ?_, ?_⟩
    · rw [List.append_assoc]
      exact List.take_left' (Mem.length_read ..)
    · rw [List.append_assoc, List.drop_left' (Mem.length_read ..)]
      exact List.take_left' (Mem.length_read ..)
  case ipConfig =>
    rw [if_pos hptr]
    refine ⟨rfl, ?_, ?_, ?_⟩
    · rw [List.append_assoc, List.append_assoc]
      exact List.take_left' (Mem.length_read ..)
    · rw [List.append_assoc, List.append_assoc, List.drop_left' (Mem.length_read ..)]
      exact List.take_left' (Mem.length_read ..)
    · rw [List.append_assoc, List.drop_left' (i := 32) (by simp)]
      exact List.take_left' (Mem.length_read ..)

theorem deliver_congr {items' : List Tlv} {item : UInt32}
    (h : Tlv.find item items' = Tlv.find item items) (ptr0 ptr1 ptr2 : Bool) :
    deliver items' item ptr0 ptr1 ptr2 = deliver items item ptr0 ptr1 ptr2 := by
  rw [deliver, h, deliver]

theorem saveInfoItem_law (h : NetStore soc7221u f items)
    (hchip : netStart soc7221u + 4096 ≤ f.flashSize.toNat) (hc : Saves soc7221u f c) :
    ∃ f' ret items', saveInfoItem soc7221u f c = some (f', ret) ∧ SaveLaw soc7221u f f' c ret ∧
      NetStore soc7221u f' items' ∧ f'.flashSize = f.flashSize := by
  cases hz : c.zalloc with
  | false =>
    obtain ⟨f', hsave, hsame⟩ := saveInfoItem_noRoom c h hz
    refine ⟨f', 0, items, hsave, ⟨by rw [hz]; rfl, fun _ => hsame.cells,
      fun hz' => absurd (hz.symm.trans hz') Bool.false_ne_true, fun item _ ptr0 ptr1 ptr2 => ?_,
      fun hz' => absurd (hz.symm.trans hz') Bool.false_ne_true⟩, h.congr hsame, hsame.flashSize⟩
    obtain ⟨f₁, hget₁, _⟩ := getInfoItem_spec h item ptr0 ptr1 ptr2
    obtain ⟨f₂, hget₂, _⟩ := getInfoItem_spec (h.congr hsame) item ptr0 ptr1 ptr2
    exact ⟨f₁, f₂, _, hget₁, hget₂⟩
  | true =>
    obtain ⟨f', hsave, hsize, htable⟩ := saveInfoItem_spec c h hc.listed hz hchip hc.below
    refine ⟨f', 1, _, hsave, ⟨by rw [hz]; rfl,
      fun hz' => absurd (hz'.symm.trans hz) Bool.false_ne_true,
      fun _ ptr0 ptr1 ptr2 hptr => ?_, fun item hitem ptr0 ptr1 ptr2 => ?_, fun _ => ⟨_, htable⟩⟩,
      .table htable, hsize⟩
    · obtain ⟨f'', hget, _⟩ := getInfoItem_spec (.table htable) c.item ptr0 ptr1 ptr2
      exact ⟨f'', _, hget, put_delivers htable hptr⟩
    · obtain ⟨f₁, hget₁, _⟩ := getInfoItem_spec h item ptr0 ptr1 ptr2
      obtain ⟨f₂, hget₂, _⟩ := getInfoItem_spec (.table htable) item ptr0 ptr1 ptr2
      rw [deliver_congr (Tlv.find_put_other hitem)] at hget₂
      exact ⟨f₁, f₂, _, hget₁, hget₂⟩

end Step

/-- From a well-formed or absent table on, every save does what it is asked to. -/
theorem net_param_store (soc7221u : Bool) {f₀ : Chip} {items₀ : List Tlv}
    (h₀ : NetStore soc7221u f₀ items₀) (hchip : netStart soc7221u + 4096 ≤ f₀.flashSize.toNat)
    {h : Machine.History SaveCall UInt32} {f : Chip}
    (hr : (netParam soc7221u f₀).ReachesUnder (Saves soc7221u) h f) {c : SaveCall}
    (hc : Saves soc7221u f c) :
    ∃ f' ret, (netParam soc7221u f₀).step f c = some (f', ret) ∧ SaveLaw soc7221u f f' c ret := by
  have hinv : (∃ items, NetStore soc7221u f items) ∧ f.flashSize = f₀.flashSize := by
    refine hr.stateInvariant
      (fun f => (∃ items, NetStore soc7221u f items) ∧ f.flashSize = f₀.flashSize)
      ⟨⟨_, h₀⟩, rfl⟩ ?_
    rintro s e t o ⟨⟨items, hs⟩, hsize⟩ he hstep
    obtain ⟨t', o', items', hstep', _, ht, hsize'⟩ :=
      saveInfoItem_law hs (by rw [hsize]; exact hchip) he
    change saveInfoItem soc7221u s e = some (t, o) at hstep
    rw [hstep'] at hstep
    obtain ⟨rfl, rfl⟩ := Prod.mk.inj (Option.some.inj hstep)
    exact ⟨⟨_, ht⟩, hsize'.trans hsize⟩
  obtain ⟨⟨items, hs⟩, hsize⟩ := hinv
  obtain ⟨f', ret, _, hstep, hlaw, _⟩ := saveInfoItem_law hs (by rw [hsize]; exact hchip) hc
  exact ⟨f', ret, hstep, hlaw⟩

/-- The first save into an erased flash. -/
theorem net_param_store_first_save :
    let c : SaveCall := ⟨wifiMacItem, fun k => UInt8.ofNat k, fun _ => 0, fun _ => 0, true⟩
    ∃ f' ret, (netParam false (filled 0x200000 0xff)).step (filled 0x200000 0xff) c =
        some (f', ret) ∧ SaveLaw false (filled 0x200000 0xff) f' c ret := by
  intro c
  have h₀ : NetStore false (filled 0x200000 0xff) [] := .absent (by decide +kernel)
  have hc : Saves false (filled 0x200000 0xff) c := by
    refine ⟨by decide, ?_⟩
    intro l hl
    obtain ⟨l', hl', _, _, hcfg, _⟩ := saveLayout_spec h₀ c.item
    obtain rfl := Option.some.inj (hl'.symm.trans hl)
    rw [UInt32.le_iff_toNat_le, hcfg]
    decide
  exact net_param_store false h₀ (by decide) .init hc

end BdkRtt.Flash
