import Mathlib.Algebra.GroupWithZero.Nat
import Mathlib.Data.List.Nodup
import Mathlib.Data.List.Perm.Subperm
import BdkRtt.Rttos.MemHeap

namespace BdkRtt.Rttos.MemHeap

open Lib

section Slots

/-- A block with its header left out. -/
structure Slot where
  size : Nat
  used : Bool
  deriving DecidableEq

/-- The blocks with the places of their headers, one behind the other from `base` on. -/
def located (base : Nat) : List Slot → List (Nat × Slot)
  | [] => []
  | x :: xs => (base, x) :: located (base + rtMemheapSize + x.size) xs

def span (xs : List Slot) : Nat := (xs.map fun x => rtMemheapSize + x.size).sum

def freeSum (xs : List Slot) : Nat := (xs.map fun x => if x.used then 0 else x.size).sum

variable {xs ys : List Slot} {x y : Slot} {base a b : Nat}

theorem rtMemheapSize_pos : 0 < rtMemheapSize := by decide

@[simp] theorem span_nil : span [] = 0 := rfl

@[simp] theorem span_cons : span (x :: xs) = rtMemheapSize + x.size + span xs := rfl

@[simp] theorem span_append : span (xs ++ ys) = span xs + span ys := by simp [span]

@[simp] theorem freeSum_nil : freeSum [] = 0 := rfl

@[simp] theorem freeSum_cons :
    freeSum (x :: xs) = (if x.used then 0 else x.size) + freeSum xs := rfl

@[simp] theorem freeSum_append : freeSum (xs ++ ys) = freeSum xs + freeSum ys := by simp [freeSum]

theorem freeSum_le_span (xs : List Slot) : freeSum xs ≤ span xs := by
  induction xs with
  | nil => exact Nat.le_refl 0
  | cons x xs ih =>
    rw [freeSum_cons, span_cons]
    split <;> omega

theorem located_append :
    located base (xs ++ ys) = located base xs ++ located (base + span xs) ys := by
  induction xs generalizing base with
  | nil => rfl
  | cons x xs ih =>
    simp only [List.cons_append, located, ih, span_cons]
    rw [show base + rtMemheapSize + x.size + span xs =
      base + (rtMemheapSize + x.size + span xs) by omega]

theorem located_bounds (h : (a, x) ∈ located base xs) :
    base ≤ a ∧ a + rtMemheapSize + x.size ≤ base + span xs := by
  induction xs generalizing base with
  | nil => simp [located] at h
  | cons y xs ih =>
    rw [span_cons]
    rcases List.mem_cons.mp h with heq | h
    · obtain ⟨rfl, rfl⟩ := Prod.mk.inj heq
      omega
    · have := ih h
      omega

theorem located_split (h : (a, x) ∈ located base xs) :
    ∃ pre post, xs = pre ++ x :: post ∧ a = base + span pre := by
  induction xs generalizing base with
  | nil => simp [located] at h
  | cons y xs ih =>
    rcases List.mem_cons.mp h with heq | h
    · obtain ⟨rfl, rfl⟩ := Prod.mk.inj heq
      exact ⟨[], xs, rfl, rfl⟩
    · obtain ⟨pre, post, rfl, rfl⟩ := ih h
      exact ⟨y :: pre, post, rfl, by rw [span_cons]; omega⟩

/-- Two blocks are the same or do not overlap. -/
theorem located_apart (hx : (a, x) ∈ located base xs) (hy : (b, y) ∈ located base xs) :
    a = b ∧ x = y ∨ a + rtMemheapSize + x.size ≤ b ∨ b + rtMemheapSize + y.size ≤ a := by
  obtain ⟨pre, post, rfl, rfl⟩ := located_split hx
  rw [located_append, List.mem_append] at hy
  rcases hy with hy | hy
  · have := located_bounds hy
    omega
  · rcases List.mem_cons.mp hy with heq | hy
    · exact .inl ⟨(Prod.mk.inj heq).1.symm, (Prod.mk.inj heq).2.symm⟩
    · have := located_bounds hy
      omega

end Slots

@[simp] theorem rtAssert_true : rtAssert True = some () := rfl

section Words

variable {x y : Nat}

theorem add32_eq (h : x + y < 2 ^ 32) : add32 x y = x + y := Nat.mod_eq_of_lt h

theorem sub32_eq (hle : y ≤ x) (h : x < 2 ^ 32) : sub32 x y = x - y := by
  rw [sub32, Nat.mod_eq_of_lt (Nat.lt_of_le_of_lt hle h),
    show x + (2 ^ 32 - y) = x - y + 2 ^ 32 by omega, Nat.add_mod_right]
  exact Nat.mod_eq_of_lt (by omega)

/-- The magic number of a block. -/
def stamp (used : Bool) : UInt32 :=
  if used then rtMemheapMagic ||| rtMemheapUsed else rtMemheapMagic

theorem isUsed_eq {m : Memory} {a : Nat} {used : Bool} (h : m.magic a = stamp used) :
    m.isUsed a = used := by
  rw [Memory.isUsed, h]
  cases used <;> decide

theorem stamp_mask (used : Bool) : stamp used &&& rtMemheapMask = rtMemheapMagic := by
  cases used <;> decide

theorem stamp_or (used : Bool) : stamp used ||| rtMemheapUsed = stamp true := by
  cases used <;> decide

theorem stamp_clear (used : Bool) : stamp used &&& ~~~rtMemheapUsed = stamp false := by
  cases used <;> decide

theorem dvd_alignedSize (size : Nat) : rtAlignSize ∣ alignedSize size := by
  rw [alignedSize]
  rcases Nat.le_total rtMemheapMinialloc
      (add32 size (rtAlignSize - 1) / rtAlignSize * rtAlignSize) with h | h
  · rw [Nat.max_eq_right h]
    exact Nat.dvd_mul_left ..
  · rw [Nat.max_eq_left h]
    decide

/-- The size that is taken is no smaller than the size asked for, unless the alignment wraps. -/
theorem le_alignedSize {size : Nat} (h : size + 3 < 2 ^ 32) : size ≤ alignedSize size := by
  rw [alignedSize, show rtAlignSize - 1 = 3 from rfl, add32_eq h]
  refine Nat.le_trans ?_ (Nat.le_max_right ..)
  simp only [rtAlignSize]
  omega

theorem alignedSize_of_wraps {size : Nat} (h : 2 ^ 32 ≤ size + 3) (hsize : size < 2 ^ 32) :
    alignedSize size = rtMemheapMinialloc := by
  have hsmall : add32 size (4 - 1) < 4 := by
    rw [add32]
    omega
  rw [alignedSize, rtAlignSize, Nat.div_eq_of_lt hsmall]
  rfl

end Words

section Rep

/-- The heap holds the blocks `slots`, from the start of the pool to the used block of no size
at its end, and the free list leads through the free ones but for those that are `loose`. -/
structure Rep (h : Heap) (slots : List Slot) (fs loose : List Nat) : Prop where
  total : span slots + rtMemheapSize = h.poolSize
  small : h.poolSize < 2 ^ 32
  linked : ∀ x ∈ located 0 slots, h.links.Linked x.1 (x.1 + rtMemheapSize + x.2.size)
  last : h.links.Linked (span slots) 0
  stamped : ∀ x ∈ located 0 slots, h.magic x.1 = stamp x.2.used
  lastStamped : h.magic (span slots) = stamp true
  cycle : h.freeLinks.Cycle none (fs.map some)
  free : ∀ a, a ∈ fs ↔ ∃ x, (a, x) ∈ located 0 slots ∧ x.used = false ∧ a ∉ loose
  aligned : ∀ x ∈ slots, rtAlignSize ∣ x.size

variable {h t : Heap} {slots pre mid post mid' : List Slot}
  {fs fs' loose loose' : List Nat} {a b : Nat} {x : Slot}

/-- Blocks in the middle give way to others in the same place. -/
theorem Rep.replace (hr : Rep h (pre ++ mid ++ post) fs loose) (hpool : t.poolSize = h.poolSize)
    (hspan : span mid' = span mid)
    (hnext : ∀ c, c < span pre ∨ span pre + span mid ≤ c →
      (t.links c).next = (h.links c).next)
    (hprev : ∀ c, c ≤ span pre ∨ span pre + span mid < c →
      (t.links c).prev = (h.links c).prev)
    (hlinked : ∀ x ∈ located (span pre) mid',
      t.links.Linked x.1 (x.1 + rtMemheapSize + x.2.size))
    (hmagic : ∀ c, c < span pre ∨ span pre + span mid ≤ c → t.magic c = h.magic c)
    (hstamped : ∀ x ∈ located (span pre) mid', t.magic x.1 = stamp x.2.used)
    (hcycle : t.freeLinks.Cycle none (fs'.map some))
    (hfree : ∀ c, c ∈ fs' ↔ c ∈ fs ∧ (c < span pre ∨ span pre + span mid ≤ c) ∨
      ∃ y, (c, y) ∈ located (span pre) mid' ∧ y.used = false ∧ c ∉ loose')
    (hloose : ∀ c, c < span pre ∨ span pre + span mid ≤ c → (c ∈ loose' ↔ c ∈ loose))
    (haligned : ∀ x ∈ mid', rtAlignSize ∣ x.size) :
    Rep t (pre ++ mid' ++ post) fs' loose' := by
  have hpos := rtMemheapSize_pos
  have hold : ∀ {c y}, (c, y) ∈ located 0 (pre ++ mid ++ post) ↔ (c, y) ∈ located 0 pre ∨
      (c, y) ∈ located (span pre) mid ∨ (c, y) ∈ located (span pre + span mid) post := by
    intro c y
    simp [located_append]
  have hnew : ∀ {c y}, (c, y) ∈ located 0 (pre ++ mid' ++ post) ↔ (c, y) ∈ located 0 pre ∨
      (c, y) ∈ located (span pre) mid' ∨ (c, y) ∈ located (span pre + span mid) post := by
    intro c y
    simp [located_append, hspan]
  have hlast : span (pre ++ mid' ++ post) = span (pre ++ mid ++ post) := by simp [hspan]
  have hend : span pre + span mid ≤ span (pre ++ mid ++ post) := by simp
  -- a block outside of the middle is where it was
  have hout : ∀ {c y}, (c, y) ∈ located 0 pre ∨ (c, y) ∈ located (span pre + span mid) post →
      (c + rtMemheapSize + y.size ≤ span pre ∨ span pre + span mid ≤ c) ∧
        (c, y) ∈ located 0 (pre ++ mid ++ post) := by
    rintro c y (hc | hc)
    · exact ⟨.inl (by have := located_bounds hc; omega), hold.mpr (.inl hc)⟩
    · exact ⟨.inr (located_bounds hc).1, hold.mpr (.inr (.inr hc))⟩
  exact {
    total := by rw [hlast, hpool, hr.total]
    small := hpool ▸ hr.small
    linked := by
      rintro ⟨c, y⟩ hc
      rcases hnew.mp hc with hc | hc | hc
      · obtain ⟨hwhere, hmem⟩ := hout (.inl hc)
        have hlink := hr.linked _ hmem
        have := located_bounds hc
        exact ⟨(hnext c (by omega)).trans hlink.1,
          (hprev (c + rtMemheapSize + y.size) (by omega)).trans hlink.2⟩
      · exact hlinked _ hc
      · obtain ⟨hwhere, hmem⟩ := hout (.inr hc)
        have hlink := hr.linked _ hmem
        have := (located_bounds hc).1
        exact ⟨(hnext c (by omega)).trans hlink.1,
          (hprev (c + rtMemheapSize + y.size) (by omega)).trans hlink.2⟩
    last := by
      rw [hlast]
      exact ⟨(hnext _ (.inr hend)).trans hr.last.1,
        (hprev 0 (.inl (Nat.zero_le _))).trans hr.last.2⟩
    stamped := by
      rintro ⟨c, y⟩ hc
      rcases hnew.mp hc with hc | hc | hc
      · obtain ⟨hwhere, hmem⟩ := hout (.inl hc)
        have := located_bounds hc
        exact (hmagic c (by omega)).trans (hr.stamped _ hmem)
      · exact hstamped _ hc
      · obtain ⟨hwhere, hmem⟩ := hout (.inr hc)
        have := located_bounds hc
        exact (hmagic c (by omega)).trans (hr.stamped _ hmem)
    lastStamped := by
      rw [hlast]
      exact (hmagic _ (.inr hend)).trans hr.lastStamped
    cycle := hcycle
    free := by
      intro c
      rw [hfree, hr.free]
      constructor
      · rintro (⟨⟨y, hc, hy, hl⟩, hwhere⟩ | ⟨y, hc, hy⟩)
        · refine ⟨y, ?_, hy, fun hl' => hl ((hloose c hwhere).mp hl')⟩
          rcases hold.mp hc with hc | hc | hc
          · exact hnew.mpr (.inl hc)
          · have := located_bounds hc
            omega
          · exact hnew.mpr (.inr (.inr hc))
        · exact ⟨y, hnew.mpr (.inr (.inl hc)), hy⟩
      · rintro ⟨y, hc, hy, hl⟩
        rcases hnew.mp hc with hc | hc | hc
        · have hwhere : c < span pre := by
            have := located_bounds hc
            omega
          exact .inl ⟨⟨y, hold.mpr (.inl hc), hy, fun hl' => hl ((hloose c (.inl hwhere)).mpr hl')⟩,
            .inl hwhere⟩
        · exact .inr ⟨y, hc, hy, hl⟩
        · have hwhere := (located_bounds hc).1
          exact .inl ⟨⟨y, hold.mpr (.inr (.inr hc)), hy,
            fun hl' => hl ((hloose c (.inr hwhere)).mpr hl')⟩, .inr hwhere⟩
    aligned := by
      intro y hy
      rw [List.mem_append, List.mem_append] at hy
      rcases hy with (hy | hy) | hy
      · exact hr.aligned y (by simp [hy])
      · exact haligned y hy
      · exact hr.aligned y (by simp [hy]) }

theorem Rep.size_le (hr : Rep h slots fs loose) (hx : (a, x) ∈ located 0 slots) :
    a + rtMemheapSize + x.size + rtMemheapSize ≤ h.poolSize := by
  have := located_bounds hx
  have := hr.total
  omega

theorem Rep.memitemSize (hr : Rep h slots fs loose) (hx : (a, x) ∈ located 0 slots) :
    h.memitemSize a = some x.size := by
  have hle := hr.size_le hx
  have hsmall := hr.small
  rw [Memory.memitemSize, (hr.linked _ hx).1, Option.map_some]
  simp only [Option.some.injEq]
  rw [sub32_eq (by omega) (by omega)]
  omega

theorem Rep.isUsed (hr : Rep h slots fs loose) (hx : (a, x) ∈ located 0 slots) :
    h.isUsed a = x.used := isUsed_eq (hr.stamped _ hx)

theorem Rep.nodup (hr : Rep h slots fs loose) : fs.Nodup :=
  ((List.nodup_cons.mp hr.cycle.nodup).2).of_map _

theorem Rep.length_le (hr : Rep h slots fs loose) : fs.length ≤ h.poolSize := by
  have hsub : fs ⊆ (located 0 slots).map Prod.fst := fun a ha => by
    obtain ⟨x, hx, -⟩ := (hr.free a).mp ha
    exact List.mem_map_of_mem (f := Prod.fst) hx
  have hlocated : ∀ (xs : List Slot) base, (located base xs).length ≤ span xs := by
    intro xs
    induction xs with
    | nil => exact fun _ => Nat.le_refl 0
    | cons x xs ih =>
      intro base
      rw [located, List.length_cons, span_cons]
      have := ih (base + rtMemheapSize + x.size)
      have := rtMemheapSize_pos
      omega
  have hlen := (List.Nodup.subperm hr.nodup hsub).length_le
  have hspan := hlocated slots 0
  have htotal := hr.total
  rw [List.length_map] at hlen
  omega

end Rep

section FreeList

variable {l : Headers (Option Nat)} {fs : List Nat} {a : Nat}

theorem cycle_insert (h : l.Cycle none (fs.map some)) (ha : a ∉ fs) :
    ∃ l', l.insertAfter (some a) none = some l' ∧ l'.Cycle none ((a :: fs).map some) :=
  h.insertAfter (by simpa using ha)

theorem cycle_remove (h : l.Cycle none (fs.map some)) (ha : a ∈ fs) :
    ∃ l', l.remove (some a) = some l' ∧ l'.Cycle none ((fs.erase a).map some) := by
  obtain ⟨xs, ys, hout, rfl, herase⟩ := List.exists_erase_eq ha
  rw [herase, List.map_append]
  rw [List.map_append, List.map_cons] at h
  exact h.remove

/-- The links of a block that is not listed can be cleared. -/
theorem cycle_clear (h : l.Cycle none (fs.map some)) (ha : a ∉ fs) :
    ((l.setNext (some a) none).setPrev (some a) none).Cycle none (fs.map some) := by
  refine h.congr fun b hb => ?_
  have hne : b ≠ some a := by
    rintro rfl
    simp [ha] at hb
  rw [Headers.setPrev, Function.update_of_ne hne, Headers.setNext, Function.update_of_ne hne]

variable {m : Memory} {sz : Nat → Nat} {size : Nat}

/-- The search ends at the first block of the list that is large enough. -/
theorem search_spec (hsz : ∀ a ∈ fs, m.memitemSize a = some (sz a))
    (hchain : (fs.map some ++ [none]).IsChain m.freeLinks.Linked) {fuel f : Nat}
    (hfuel : fs.length + 2 ≤ fuel) (hf : f < size) :
    ∃ f', search m size fuel fs.head? f = some (fs.find? fun a => size ≤ sz a, f') ∧
      (∀ a ∈ fs.find? fun a => size ≤ sz a, f' = sz a) ∧
      ((fs.find? fun a => size ≤ sz a) = none → f' < size) := by
  induction fs generalizing fuel f with
  | nil =>
    obtain ⟨fuel, rfl⟩ := Nat.exists_eq_add_of_le hfuel
    rw [Nat.add_comm]
    exact ⟨f, rfl, by simp, fun _ => hf⟩
  | cons a fs ih =>
    obtain ⟨fuel, rfl⟩ := Nat.exists_eq_add_of_le' hfuel
    have hnext : (m.freeLinks (some a)).next = some fs.head? := by
      cases fs with
      | nil => exact (List.isChain_cons_cons.mp hchain).1.1
      | cons b fs => exact (List.isChain_cons_cons.mp hchain).1.1
    have hself := hsz a (List.mem_cons_self ..)
    simp only [List.head?_cons, List.length_cons]
    rw [show fuel + (fs.length + 1 + 2) = fuel + (fs.length + 2) + 1 by omega, search, if_pos hf,
      hself, Option.bind_some]
    by_cases hlt : sz a < size
    · rw [if_pos hlt, hnext, Option.bind_some, List.find?_cons_of_neg (by simpa using hlt)]
      have hrest : (fs.map some ++ [none]).IsChain m.freeLinks.Linked := hchain.tail
      exact ih (fun b hb => hsz b (List.mem_cons_of_mem _ hb)) hrest (by omega) hlt
    · rw [if_neg hlt, List.find?_cons_of_pos (by simpa using hlt),
        show fuel + (fs.length + 2) = fuel + (fs.length + 1) + 1 by omega, search, if_neg hlt]
      exact ⟨sz a, rfl, by simp, by simp⟩

end FreeList

section Pieces

variable {h t : Heap} {slots pre post : List Slot} {fs loose : List Nat} {a n m size : Nat}
  {u v : Bool} {x : Slot}

theorem mem_middle (pre post : List Slot) (x : Slot) :
    (span pre, x) ∈ located 0 (pre ++ x :: post) := by
  rw [located_append]
  exact List.mem_append_right _ (by simp [located])

/-- The other blocks are outside of a block. -/
theorem outside_of_ne {y : Slot} (hy : (a, y) ∈ located 0 (pre ++ x :: post))
    (hne : a ≠ span pre) : a < span pre ∨ span pre + rtMemheapSize + x.size ≤ a := by
  have hpos := rtMemheapSize_pos
  rcases located_apart (mem_middle pre post x) hy with ⟨heq, -⟩ | hle | hle
  · exact absurd heq.symm hne
  · exact .inr hle
  · exact .inl (by omega)

theorem Rep.notMem_of_used (hr : Rep h slots fs loose) (hx : (a, x) ∈ located 0 slots)
    (hu : x.used = true) : a ∉ fs := by
  intro hin
  obtain ⟨y, hy, hyu, -⟩ := (hr.free a).mp hin
  have hpos := rtMemheapSize_pos
  rcases located_apart hx hy with ⟨-, rfl⟩ | hle | hle
  · simp [hu] at hyu
  · omega
  · omega

theorem Rep.unlist (hr : Rep h slots fs loose) (ha : a ∈ fs) :
    ∃ l, h.unlist a = some (h.setFreeLinks l) ∧
      Rep (h.setFreeLinks l) slots (fs.erase a) (a :: loose) := by
  obtain ⟨l, hl, hcycle⟩ := cycle_remove hr.cycle ha
  refine ⟨l, by rw [Heap.unlist, hl]; rfl, { hr with cycle := hcycle, free := fun c => ?_ }⟩
  rw [hr.nodup.mem_erase_iff, hr.free]
  simp only [List.mem_cons, not_or]
  constructor
  · rintro ⟨hne, y, hy, hu, hl⟩
    exact ⟨y, hy, hu, hne, hl⟩
  · rintro ⟨y, hy, hu, hne, hl⟩
    exact ⟨hne, y, hy, hu, hl⟩

theorem Rep.unlistClear (hr : Rep h slots fs loose) (ha : a ∈ fs) :
    ∃ l, h.unlistClear a = some (h.setFreeLinks l) ∧
      Rep (h.setFreeLinks l) slots (fs.erase a) (a :: loose) := by
  obtain ⟨l, hl, hr'⟩ := hr.unlist ha
  have hout : a ∉ fs.erase a := fun hin => (hr.nodup.mem_erase_iff.mp hin).1 rfl
  refine ⟨(l.setNext (some a) none).setPrev (some a) none, by rw [Heap.unlistClear, hl]; rfl, ?_⟩
  exact { hr' with cycle := cycle_clear hr'.cycle hout }

theorem Rep.enlist (hr : Rep h slots fs (a :: loose)) (hx : (a, x) ∈ located 0 slots)
    (hu : x.used = false) (hloose : a ∉ loose) :
    ∃ l, h.enlist a = some (h.setFreeLinks l) ∧ Rep (h.setFreeLinks l) slots (a :: fs) loose := by
  have hout : a ∉ fs := fun hin => by
    obtain ⟨y, -, -, hl⟩ := (hr.free a).mp hin
    exact hl (List.mem_cons_self ..)
  obtain ⟨l, hl, hcycle⟩ := cycle_insert hr.cycle hout
  refine ⟨l, by rw [Heap.enlist, hl]; rfl, { hr with cycle := hcycle, free := fun c => ?_ }⟩
  rw [List.mem_cons, hr.free]
  simp only [List.mem_cons, not_or]
  constructor
  · rintro (rfl | ⟨y, hy, hu, -, hl⟩)
    · exact ⟨x, hx, hu, hloose⟩
    · exact ⟨y, hy, hu, hl⟩
  · rintro ⟨y, hy, hu, hl⟩
    by_cases hc : c = a
    · exact .inl hc
    · exact .inr ⟨y, hy, hu, hc, hl⟩

/-- The magic number of a block that is not listed changes. -/
theorem Rep.setMagic (hr : Rep h (pre ++ ⟨n, u⟩ :: post) fs loose) (hout : span pre ∉ fs)
    {loose' : List Nat} (hin : v = false → span pre ∈ loose')
    (hloose : ∀ c, c ≠ span pre → (c ∈ loose' ↔ c ∈ loose)) :
    Rep (h.modify (·.setMagic (span pre) (stamp v))) (pre ++ ⟨n, v⟩ :: post) fs loose' := by
  have hpos := rtMemheapSize_pos
  have hr' : Rep h (pre ++ [⟨n, u⟩] ++ post) fs loose := by simpa using hr
  have hlink : h.links.Linked (span pre) (span pre + rtMemheapSize + n) :=
    hr.linked _ (mem_middle pre post ⟨n, u⟩)
  have hrep : Rep (h.modify (·.setMagic (span pre) (stamp v))) (pre ++ [⟨n, v⟩] ++ post) fs
      loose' := by
    refine hr'.replace rfl rfl (fun _ _ => rfl) (fun _ _ => rfl) ?_ ?_ ?_ hr.cycle ?_ ?_ ?_
    · rintro y hy
      obtain rfl := List.mem_singleton.mp hy
      exact hlink
    · intro c hc
      exact Function.update_of_ne (by simp at hc; omega) ..
    · rintro y hy
      obtain rfl := List.mem_singleton.mp hy
      exact Function.update_self ..
    · intro c
      constructor
      · intro hc
        obtain ⟨y, hy, -⟩ := (hr.free c).mp hc
        have hne : c ≠ span pre := fun heq => hout (heq ▸ hc)
        refine .inl ⟨hc, (outside_of_ne hy hne).imp_right fun hle => ?_⟩
        rwa [span_cons, span_nil, Nat.add_zero, ← Nat.add_assoc]
      · rintro (⟨hc, -⟩ | ⟨y, hy, hu, hl⟩)
        · exact hc
        · obtain ⟨rfl, rfl⟩ := Prod.mk.inj (List.mem_singleton.mp hy)
          exact absurd (hin hu) hl
    · intro c hc
      exact hloose c (by simp at hc; omega)
    · rintro y hy
      obtain rfl := List.mem_singleton.mp hy
      exact hr.aligned ⟨n, u⟩ (by simp)
  simpa using hrep

/-- A new header in a block leaves it the first part; the rest is a block of its own. -/
theorem Rep.newBlock (hr : Rep h (pre ++ ⟨n, u⟩ :: post) fs loose)
    (hfit : size + rtMemheapSize ≤ n) (halign : rtAlignSize ∣ size) {b : Nat}
    (hb : b = span pre + size + rtMemheapSize) :
    ∃ l, h.newBlock b (span pre) =
        some ((h.modify (·.setMagic b rtMemheapMagic)).setLinks l) ∧
      Rep ((h.modify (·.setMagic b rtMemheapMagic)).setLinks l)
        (pre ++ ⟨size, u⟩ :: ⟨n - size - rtMemheapSize, false⟩ :: post) fs (b :: loose) := by
  have hpos := rtMemheapSize_pos
  have hmid := mem_middle pre post ⟨n, u⟩
  have hlink : h.links.Linked (span pre) (span pre + rtMemheapSize + n) := hr.linked _ hmid
  have hstamp : h.magic (span pre) = stamp u := hr.stamped _ hmid
  have hlinks := Headers.insertAfter_eq_listAdd (l := h.links) (x := b) (z := span pre)
    (y := span pre + rtMemheapSize + n) (by omega) (by omega) hlink.1
  refine ⟨_, by rw [Heap.newBlock, hlinks]; rfl, ?_⟩
  have hr' : Rep h (pre ++ [⟨n, u⟩] ++ post) fs loose := by simpa using hr
  have hlocated : ∀ {P : Nat × Slot → Prop}, P (span pre, ⟨size, u⟩) →
      P (b, ⟨n - size - rtMemheapSize, false⟩) →
      ∀ x ∈ located (span pre) [⟨size, u⟩, ⟨n - size - rtMemheapSize, false⟩], P x := by
    intro P h₁ h₂ x hx
    simp only [located, List.mem_cons, List.not_mem_nil, or_false] at hx
    rcases hx with rfl | rfl
    · exact h₁
    · rwa [show span pre + rtMemheapSize + size = b by omega]
  suffices hrep : Rep ((h.modify (·.setMagic b rtMemheapMagic)).setLinks
      (h.links.listAdd b (span pre) (span pre + rtMemheapSize + n)))
      (pre ++ [⟨size, u⟩, ⟨n - size - rtMemheapSize, false⟩] ++ post) fs (b :: loose) by
    simpa using hrep
  refine hr'.replace rfl ?_ ?_ ?_ ?_ ?_ ?_ hr.cycle ?_ ?_ ?_
  · simp
    omega
  · intro c hc
    simp only [span_cons, span_nil] at hc
    show (h.links.listAdd _ _ _ c).next = _
    rw [Headers.listAdd_next, if_neg (by omega), if_neg (by omega)]
  · intro c hc
    simp only [span_cons, span_nil] at hc
    show (h.links.listAdd _ _ _ c).prev = _
    rw [Headers.listAdd_prev, if_neg (by omega), if_neg (by omega)]
  · refine hlocated ⟨?_, ?_⟩ ⟨?_, ?_⟩
    · show (h.links.listAdd _ _ _ _).next = _
      rw [Headers.listAdd_next, if_pos rfl]
      simp
      omega
    · show (h.links.listAdd _ _ _ _).prev = _
      rw [Headers.listAdd_prev, if_pos (by simp; omega)]
    · show (h.links.listAdd _ _ _ _).next = _
      rw [Headers.listAdd_next, if_neg (by simp; omega), if_pos rfl]
      simp
      omega
    · show (h.links.listAdd _ _ _ _).prev = _
      rw [Headers.listAdd_prev, if_neg (by simp; omega), if_pos (by simp; omega)]
  · intro c hc
    simp only [span_cons, span_nil] at hc
    exact Function.update_of_ne (by omega) ..
  · refine hlocated ?_ ?_
    · exact (Function.update_of_ne (by simp; omega) ..).trans hstamp
    · exact Function.update_self ..
  · intro c
    constructor
    · intro hc
      obtain ⟨y, hy, hu, hl⟩ := (hr.free c).mp hc
      by_cases hne : c = span pre
      · subst hne
        refine .inr ⟨⟨size, u⟩, List.mem_cons_self .., ?_, ?_⟩
        · exact (hr.isUsed hmid).symm.trans ((hr.isUsed hy).trans hu)
        · simp only [List.mem_cons, not_or]
          exact ⟨by omega, hl⟩
      · refine .inl ⟨hc, (outside_of_ne hy hne).imp_right fun hle => ?_⟩
        rwa [span_cons, span_nil, Nat.add_zero, ← Nat.add_assoc]
    · rintro (⟨hc, -⟩ | ⟨y, hy, hu, hl⟩)
      · exact hc
      · revert hu hl
        refine hlocated (P := fun x => x.2.used = false → x.1 ∉ b :: loose → x.1 ∈ fs) ?_ ?_ _ hy
        · intro hu hl
          exact (hr.free _).mpr ⟨⟨n, u⟩, hmid, hu, fun hin => hl (List.mem_cons_of_mem _ hin)⟩
        · intro _ hl
          exact absurd (List.mem_cons_self ..) hl
  · intro c hc
    simp only [span_cons, span_nil] at hc
    simp only [List.mem_cons, or_iff_right_iff_imp]
    omega
  · have hn : rtAlignSize ∣ n := hr.aligned ⟨n, u⟩ (by simp)
    have hsize : rtAlignSize ∣ rtMemheapSize := by decide
    simp only [List.mem_cons, List.not_mem_nil, or_false, forall_eq_or_imp, forall_eq]
    exact ⟨halign, Nat.dvd_sub (Nat.dvd_sub hn halign) hsize⟩

/-- Two blocks become one, when the second is free and not listed. -/
theorem Rep.join (hr : Rep h (pre ++ ⟨n, u⟩ :: ⟨m, false⟩ :: post) fs loose) {l : Headers Nat}
    (hb : span pre + rtMemheapSize + n ∈ loose)
    (hnext : ∀ c, (l c).next = if c = span pre
      then some (span pre + rtMemheapSize + (n + rtMemheapSize + m)) else (h.links c).next)
    (hprev : ∀ c, (l c).prev = if c = span pre + rtMemheapSize + (n + rtMemheapSize + m)
      then some (span pre) else (h.links c).prev)
    {loose' : List Nat}
    (hloose : ∀ c, c ≠ span pre + rtMemheapSize + n → (c ∈ loose' ↔ c ∈ loose)) :
    Rep (h.setLinks l) (pre ++ ⟨n + rtMemheapSize + m, u⟩ :: post) fs loose' := by
  have hpos := rtMemheapSize_pos
  have hmid := mem_middle pre (⟨m, false⟩ :: post) ⟨n, u⟩
  have hstamp : h.magic (span pre) = stamp u := hr.stamped _ hmid
  have hr' : Rep h (pre ++ [⟨n, u⟩, ⟨m, false⟩] ++ post) fs loose := by simpa using hr
  suffices hrep : Rep (h.setLinks l) (pre ++ [⟨n + rtMemheapSize + m, u⟩] ++ post) fs loose' by
    simpa using hrep
  refine hr'.replace rfl ?_ ?_ ?_ ?_ ?_ ?_ hr.cycle ?_ ?_ ?_
  · simp
    omega
  · intro c hc
    simp only [span_cons, span_nil] at hc
    exact (hnext c).trans (if_neg (by omega))
  · intro c hc
    simp only [span_cons, span_nil] at hc
    exact (hprev c).trans (if_neg (by omega))
  · rintro y hy
    obtain rfl := List.mem_singleton.mp hy
    exact ⟨(hnext _).trans (if_pos rfl), (hprev _).trans (if_pos rfl)⟩
  · exact fun c _ => rfl
  · rintro y hy
    obtain rfl := List.mem_singleton.mp hy
    exact hstamp
  · intro c
    constructor
    · intro hc
      obtain ⟨y, hy, hu, hl⟩ := (hr.free c).mp hc
      have hcb : c ≠ span pre + rtMemheapSize + n := fun heq => hl (heq ▸ hb)
      by_cases hne : c = span pre
      · subst hne
        refine .inr ⟨⟨_, u⟩, List.mem_cons_self .., ?_, fun hin => hl ((hloose _ hcb).mp hin)⟩
        exact (hr.isUsed hmid).symm.trans ((hr.isUsed hy).trans hu)
      · refine .inl ⟨hc, (outside_of_ne hy hne).imp_right fun hle => ?_⟩
        have hy' : (c, y) ∈ located 0 (pre ++ [⟨n, u⟩] ++ ⟨m, false⟩ :: post) := by
          simpa using hy
        have hout := outside_of_ne hy' (by simp; omega)
        simp at hout hle ⊢
        omega
    · rintro (⟨hc, -⟩ | ⟨y, hy, hu, hl⟩)
      · exact hc
      · obtain ⟨rfl, rfl⟩ := Prod.mk.inj (List.mem_singleton.mp hy)
        exact (hr.free _).mpr ⟨⟨n, u⟩, hmid, hu, fun hin => hl ((hloose _ (by omega)).mpr hin)⟩
  · intro c hc
    simp only [span_cons, span_nil] at hc
    exact hloose c (by omega)
  · have hn : rtAlignSize ∣ n := hr.aligned ⟨n, u⟩ (by simp)
    have hm : rtAlignSize ∣ m := hr.aligned ⟨m, false⟩ (by simp)
    have hsize : rtAlignSize ∣ rtMemheapSize := by decide
    rintro y hy
    obtain rfl := List.mem_singleton.mp hy
    exact Nat.dvd_add (Nat.dvd_add hn hsize) hm

end Pieces

section Apart

/-- No two blocks next to each other are both free. -/
def Apart (slots : List Slot) : Prop := slots.IsChain fun x y => x.used = true ∨ y.used = true

variable {pre post : List Slot} {x : Slot}

theorem apart_append : Apart (pre ++ post) ↔ Apart pre ∧ Apart post ∧
    ∀ x ∈ pre.getLast?, ∀ y ∈ post.head?, x.used = true ∨ y.used = true :=
  List.isChain_append

theorem apart_used (hx : x.used = true) : Apart (pre ++ x :: post) ↔ Apart pre ∧ Apart post := by
  rw [Apart, List.isChain_append, List.isChain_cons]
  simp [hx, Apart]

theorem apart_free (hx : x.used = false) : Apart (pre ++ x :: post) ↔
    Apart pre ∧ Apart post ∧ (∀ y ∈ pre.getLast?, y.used = true) ∧
      ∀ y ∈ post.head?, y.used = true := by
  rw [Apart, List.isChain_append, List.isChain_cons]
  simp only [hx, Apart, List.head?_cons, Option.mem_some_iff, forall_eq', Bool.false_eq_true,
    false_or, or_false]
  tauto

theorem apart_cons_free (hx : x.used = false) :
    Apart (x :: post) ↔ Apart post ∧ ∀ y ∈ post.head?, y.used = true := by
  rw [Apart, List.isChain_cons, and_comm]
  simp [hx, Apart]

end Apart

section Alloc

variable {h t : Heap} {slots pre post : List Slot} {fs : List Nat} {n size : Nat}

/-- What holds of the heap between two calls. -/
structure Ok (h : Heap) (slots : List Slot) (fs : List Nat) : Prop where
  rep : Rep h slots fs []
  available : h.availableSize = freeSum slots
  apart : Apart slots

theorem Ok.available_le (hi : Ok h slots fs) : h.availableSize + rtMemheapSize ≤ h.poolSize := by
  have := hi.available
  have := freeSum_le_span slots
  have := hi.rep.total
  omega

theorem Rep.reloose {loose loose' : List Nat} (hr : Rep h slots fs loose)
    (hl : ∀ c, c ∈ loose' ↔ c ∈ loose) : Rep h slots fs loose' :=
  { hr with free := fun c => by rw [hl]; exact hr.free c }

theorem Rep.useUp {loose : List Nat} (hr : Rep h slots fs loose) (k : Nat) :
    Rep (h.useUp k) slots fs loose := { hr with }

theorem Rep.giveBack {loose : List Nat} (hr : Rep h slots fs loose) (k : Nat) :
    Rep (h.giveBack k) slots fs loose := { hr with }

theorem Rep.notMem_of_loose {loose : List Nat} {a : Nat} (hr : Rep h slots fs loose)
    (ha : a ∈ loose) : a ∉ fs := fun hin => by
  obtain ⟨-, -, -, hl⟩ := (hr.free a).mp hin
  exact hl ha

theorem Rep.markUsed (hr : Rep h (pre ++ ⟨n, false⟩ :: post) fs [span pre]) :
    Rep (h.modify fun m => m.setMagic (span pre) (m.magic (span pre) ||| rtMemheapUsed))
      (pre ++ ⟨n, true⟩ :: post) fs [] := by
  have hstamp : h.magic (span pre) = stamp false := hr.stamped _ (mem_middle pre post ⟨n, false⟩)
  show Rep (h.modify (·.setMagic (span pre) (h.magic (span pre) ||| rtMemheapUsed))) _ _ _
  rw [hstamp, stamp_or]
  exact hr.setMagic (hr.notMem_of_loose (List.mem_cons_self ..)) nofun (by simp)

/-- What becomes of a free block of `n` bytes that is taken for `size`. -/
def carved (size n : Nat) : List Slot :=
  if size + rtMemheapSize + rtMemheapMinialloc ≤ n then
    [⟨size, true⟩, ⟨n - size - rtMemheapSize, false⟩]
  else [⟨n, true⟩]

theorem Ok.carve (hi : Ok h (pre ++ ⟨n, false⟩ :: post) fs) (hsize : size ≤ n)
    (halign : rtAlignSize ∣ size) :
    ∃ t fs', carve h (span pre) size n = some t ∧ t.data = h.data ∧
      Ok (t.modify fun m => m.setMagic (span pre) (m.magic (span pre) ||| rtMemheapUsed))
        (pre ++ carved size n ++ post) fs' := by
  have hr := hi.rep
  have hmid := mem_middle pre post ⟨n, false⟩
  have hle : span pre + rtMemheapSize + n + rtMemheapSize ≤ h.poolSize := hr.size_le hmid
  have hsmall := hr.small
  have hmini : rtMemheapMinialloc < rtMemheapSize := by decide
  have hlisted : span pre ∈ fs := (hr.free _).mpr ⟨_, hmid, rfl, List.not_mem_nil⟩
  have hsum := hi.available
  have htotal := hi.available_le
  simp only [freeSum_append, freeSum_cons, Bool.false_eq_true, if_false] at hsum
  have hadd : add32 size rtMemheapSize = size + rtMemheapSize := add32_eq (by omega)
  have hadd' : add32 (size + rtMemheapSize) rtMemheapMinialloc =
      size + rtMemheapSize + rtMemheapMinialloc := add32_eq (by omega)
  obtain ⟨hpre, hpost, -⟩ := (apart_free rfl).mp hi.apart
  simp only [MemHeap.carve, carved, hadd, hadd']
  split
  next hfit =>
    obtain ⟨l, hl, hnew⟩ := hr.newBlock (by omega) halign rfl
    obtain ⟨l', hl', hold⟩ := hnew.unlistClear hlisted
    have hrest : (span pre + size + rtMemheapSize, ⟨n - size - rtMemheapSize, false⟩) ∈
        located 0 (pre ++ ⟨size, false⟩ :: ⟨n - size - rtMemheapSize, false⟩ :: post) := by
      have := mem_middle (pre ++ [⟨size, false⟩]) post ⟨n - size - rtMemheapSize, false⟩
      simpa [Nat.add_assoc, Nat.add_comm rtMemheapSize] using this
    have hswap : Rep _ _ _ [span pre + size + rtMemheapSize, span pre] :=
      hold.reloose (by simp [or_comm])
    obtain ⟨l'', hl'', hlist⟩ := hswap.enlist hrest rfl (by simp; omega)
    have hcarved := (hlist.useUp (size + rtMemheapSize)).markUsed
    refine ⟨_, _, ?_, ?_, by simpa using hcarved, ?_, ?_⟩
    · simp only [hl, hl', hl'', Option.bind_eq_bind, Option.bind_some]
      rfl
    · rfl
    · show sub32 h.availableSize (size + rtMemheapSize) = _
      rw [sub32_eq (by omega) (by omega), hsum]
      simp
      omega
    · have hrest : Apart (⟨n - size - rtMemheapSize, false⟩ :: post) := by
        have hfree := (apart_free rfl).mp hi.apart
        exact (apart_cons_free rfl).mpr ⟨hpost, hfree.2.2.2⟩
      simpa using (apart_used (x := ⟨size, true⟩) rfl).mpr ⟨hpre, hrest⟩
  next hfit =>
    obtain ⟨l, hl, hnew⟩ := (hr.useUp n).unlistClear hlisted
    refine ⟨_, _, hl, rfl, by simpa using hnew.markUsed, ?_, ?_⟩
    · show sub32 h.availableSize n = _
      rw [sub32_eq (by omega) (by omega), hsum]
      simp
      omega
    · simpa using (apart_used (x := ⟨n, true⟩) rfl).mpr ⟨hpre, hpost⟩

theorem Ok.chain (hi : Ok h slots fs) :
    (h.freeLinks none).next = some fs.head? ∧
      (fs.map some ++ [none]).IsChain h.freeLinks.Linked := by
  have hchain := hi.rep.cycle.chain
  cases fs with
  | nil => exact ⟨(List.isChain_cons_cons.mp hchain).1.1, (List.isChain_cons_cons.mp hchain).2⟩
  | cons a fs =>
    exact ⟨(List.isChain_cons_cons.mp hchain).1.1, (List.isChain_cons_cons.mp hchain).2⟩

/-- There is a free block for so many bytes, and more than so many are available. -/
def Fits (h : Heap) (slots : List Slot) (size : Nat) : Prop :=
  size < h.availableSize ∧ ∃ a x, (a, x) ∈ located 0 slots ∧ x.used = false ∧ size ≤ x.size

/-- What the calls of `rt_memheap_alloc` do: one free block is taken, or nothing happens. -/
inductive Allocated (h : Heap) (slots : List Slot) (size : Nat) :
    Option Nat → Heap → List Slot → Prop
  | refused : ¬ Fits h slots (alignedSize size) → Allocated h slots size none h slots
  | taken {pre post : List Slot} {n : Nat} {t : Heap} : slots = pre ++ ⟨n, false⟩ :: post →
      Fits h slots (alignedSize size) → alignedSize size ≤ n → t.data = h.data →
      Allocated h slots size (some (span pre + rtMemheapSize)) t
        (pre ++ carved (alignedSize size) n ++ post)

theorem Ok.alloc (hi : Ok h slots fs) (size : Nat) :
    ∃ p t slots' fs', rtMemheapAlloc h size = some (p, t) ∧ Ok t slots' fs' ∧
      Allocated h slots size p t slots' := by
  have hr := hi.rep
  unfold rtMemheapAlloc
  by_cases havail : alignedSize size < h.availableSize
  · simp only [havail, if_true]
    obtain ⟨hfirst, hchain⟩ := hi.chain
    let sz := fun a => (h.memitemSize a).getD 0
    have hsz : ∀ {a x}, (a, x) ∈ located 0 slots → h.memitemSize a = some x.size ∧ sz a = x.size :=
      fun hx => ⟨hr.memitemSize hx, by simp only [sz, hr.memitemSize hx, Option.getD_some]⟩
    have hpos : 0 < alignedSize size := Nat.lt_of_lt_of_le (by decide) (Nat.le_max_left ..)
    have hlisted : ∀ a ∈ fs, h.memitemSize a = some (sz a) := fun a ha => by
      obtain ⟨x, hx, -⟩ := (hr.free a).mp ha
      rw [(hsz hx).1, (hsz hx).2]
    have hfuel : fs.length + 2 ≤ h.poolSize + 2 := Nat.add_le_add_right hr.length_le 2
    obtain ⟨f, hsearch, hfound, hnone⟩ := search_spec hlisted hchain hfuel hpos
    simp only [hfirst, Option.bind_eq_bind, Option.bind_some, hsearch]
    cases hfind : fs.find? fun a => alignedSize size ≤ sz a with
    | none =>
      rw [if_neg (Nat.not_le.mpr (hnone hfind))]
      refine ⟨none, h, slots, fs, rfl, hi, .refused ?_⟩
      rintro ⟨-, a, x, hx, hu, hle⟩
      have hin := (hr.free a).mpr ⟨x, hx, hu, List.not_mem_nil⟩
      have := List.find?_eq_none.mp hfind a hin
      rw [(hsz hx).2] at this
      simp [hle] at this
    | some a =>
      have hin := List.mem_of_find?_eq_some hfind
      have hle := List.find?_some hfind
      obtain ⟨⟨n, u⟩, hx, hu, -⟩ := (hr.free a).mp hin
      obtain rfl : u = false := hu
      obtain ⟨pre, post, rfl, ha⟩ := located_split hx
      rw [Nat.zero_add] at ha
      subst ha
      rw [(hsz hx).2] at hle
      have hsize : alignedSize size ≤ n := of_decide_eq_true hle
      obtain ⟨t, fs', hcarve, hdata, hok⟩ := hi.carve hsize (dvd_alignedSize size)
      have hf : f = n := (hfound _ hfind).trans (hsz hx).2
      subst hf
      rw [if_pos hsize]
      simp only [Option.bind_some, hcarve]
      exact ⟨_, _, _, fs', rfl, hok, .taken rfl ⟨havail, _, _, hx, rfl, hsize⟩ hsize hdata⟩
  · simp only [havail, if_false]
    exact ⟨none, h, slots, fs, rfl, hi, .refused fun hfits => havail hfits.1⟩

end Alloc

section Free

variable {h t : Heap} {slots pre post : List Slot} {fs loose : List Nat} {n m : Nat} {x : Slot}

theorem Rep.markFree (hr : Rep h (pre ++ ⟨n, true⟩ :: post) fs []) :
    Rep (h.modify fun m => m.setMagic (span pre) (m.magic (span pre) &&& ~~~rtMemheapUsed))
      (pre ++ ⟨n, false⟩ :: post) fs [span pre] := by
  have hmid := mem_middle pre post ⟨n, true⟩
  have hstamp : h.magic (span pre) = stamp true := hr.stamped _ hmid
  show Rep (h.modify (·.setMagic (span pre) (h.magic (span pre) &&& ~~~rtMemheapUsed))) _ _ _
  rw [hstamp, stamp_clear]
  exact hr.setMagic (hr.notMem_of_used hmid rfl) (fun _ => List.mem_cons_self ..) (by simp)

/-- What stands in front of a block. -/
theorem Rep.prev (hr : Rep h (pre ++ x :: post) fs loose) :
    ∃ prev, (h.links (span pre)).prev = some prev ∧
      (h.isUsed prev = true ∧ (∀ y ∈ pre.getLast?, y.used = true) ∨
        ∃ pre' m, pre = pre' ++ [⟨m, false⟩] ∧ prev = span pre' ∧ h.isUsed prev = false) := by
  rcases List.eq_nil_or_concat pre with rfl | ⟨pre', ⟨m, u⟩, rfl⟩
  · exact ⟨_, hr.last.2, .inl ⟨isUsed_eq hr.lastStamped, nofun⟩⟩
  · rw [List.concat_eq_append, List.append_assoc] at hr
    have hy := mem_middle pre' (x :: post) ⟨m, u⟩
    have hlink := (hr.linked _ hy).2
    have hused := hr.isUsed hy
    have heq : span (pre' ++ [⟨m, u⟩]) = span pre' + rtMemheapSize + m := by simp [Nat.add_assoc]
    rw [List.concat_eq_append]
    refine ⟨span pre', heq ▸ hlink, ?_⟩
    cases u with
    | true => exact .inl ⟨hused, by simp⟩
    | false => exact .inr ⟨pre', m, rfl, rfl, hused⟩

/-- What stands behind a block. -/
theorem Rep.next (hr : Rep h (pre ++ ⟨n, u⟩ :: post) fs loose) :
    (h.links (span pre)).next = some (span pre + rtMemheapSize + n) ∧
      h.magic (span pre + rtMemheapSize + n) &&& rtMemheapMask = rtMemheapMagic ∧
      (h.isUsed (span pre + rtMemheapSize + n) = true ∧ (∀ y ∈ post.head?, y.used = true) ∨
        ∃ post' m, post = ⟨m, false⟩ :: post' ∧
          h.isUsed (span pre + rtMemheapSize + n) = false) := by
  refine ⟨(hr.linked _ (mem_middle pre post ⟨n, u⟩)).1, ?_⟩
  cases post with
  | nil =>
    have heq : span (pre ++ [⟨n, u⟩]) = span pre + rtMemheapSize + n := by simp [Nat.add_assoc]
    have hstamp := hr.lastStamped
    rw [heq] at hstamp
    exact ⟨by rw [hstamp, stamp_mask], .inl ⟨isUsed_eq hstamp, nofun⟩⟩
  | cons y post =>
    obtain ⟨m, v⟩ := y
    have hy := mem_middle (pre ++ [⟨n, u⟩]) post ⟨m, v⟩
    have heq : span (pre ++ [⟨n, u⟩]) = span pre + rtMemheapSize + n := by simp [Nat.add_assoc]
    rw [heq, List.append_assoc, List.singleton_append] at hy
    have hstamp := hr.stamped _ hy
    refine ⟨by rw [hstamp, stamp_mask], ?_⟩
    cases v with
    | true => exact .inl ⟨isUsed_eq hstamp, by simp⟩
    | false => exact .inr ⟨post, m, rfl, isUsed_eq hstamp⟩

/-- A free block that is not listed goes into the free block in front of it, if there is one. -/
theorem Rep.mergeLeft (hr : Rep h (pre ++ ⟨n, false⟩ :: post) fs [span pre]) :
    (mergeLeft h (span pre) = some (span pre, true, h) ∧ ∀ y ∈ pre.getLast?, y.used = true) ∨
      ∃ pre' m t, pre = pre' ++ [⟨m, false⟩] ∧ mergeLeft h (span pre) = some (span pre', false, t) ∧
        t.data = h.data ∧ t.availableSize = add32 h.availableSize rtMemheapSize ∧
        Rep t (pre' ++ ⟨m + rtMemheapSize + n, false⟩ :: post) fs [] := by
  have hpos := rtMemheapSize_pos
  obtain ⟨prev, hprev, ⟨hused, hlast⟩ | ⟨pre', m, rfl, rfl, hused⟩⟩ := hr.prev
  · refine .inl ⟨?_, hlast⟩
    simp [MemHeap.mergeLeft, hprev, hused]
  · have heq : span (pre' ++ [⟨m, false⟩]) = span pre' + rtMemheapSize + m := by
      simp [Nat.add_assoc]
    have hnext := hr.next.1
    rw [heq] at hnext hprev
    rw [heq, List.append_assoc, List.singleton_append] at hr
    generalize hnextEq : span pre' + rtMemheapSize + m + rtMemheapSize + n = next at hnext
    have hend : next = span pre' + rtMemheapSize + (m + rtMemheapSize + n) := by omega
    have hjoin : Rep ((h.giveBack rtMemheapSize).setLinks
        ((h.links.setNext (span pre') (some next)).setPrev next (some (span pre'))))
        (pre' ++ ⟨m + rtMemheapSize + n, false⟩ :: post) fs [] := by
      refine (hr.giveBack rtMemheapSize).join (List.mem_cons_self ..) ?_ ?_ (by simp)
      · intro c
        rw [Headers.setPrev_next, Headers.setNext_next, hend]
        rfl
      · intro c
        rw [Headers.setPrev_prev, Headers.setNext_prev, hend]
        rfl
    refine .inr ⟨pre', m, _, rfl, ?_, ?_, ?_, hjoin⟩
    · simp [MemHeap.mergeLeft, heq, hprev, hused, hnext]
    · rfl
    · rfl

theorem unlist_setLinks (l : Headers Nat) (a : Nat) :
    (h.setLinks l).unlist a = (h.unlist a).map (·.setLinks l) := by
  simp only [Heap.unlist, Option.map_map]
  rfl

/-- A block takes in the free block behind it, which leaves the free list. -/
theorem Rep.takeRight (hr : Rep h (pre ++ ⟨n, u⟩ :: ⟨m, false⟩ :: post) fs loose)
    (hout : span pre + rtMemheapSize + n ∉ loose) :
    ∃ next l t, next = span pre + rtMemheapSize + n + rtMemheapSize + m ∧
      (h.links (span pre + rtMemheapSize + n)).next = some next ∧
      h.unlist (span pre + rtMemheapSize + n) = some (h.setFreeLinks l) ∧
      t = (h.setFreeLinks l).setLinks
        ((h.links.setPrev next (some (span pre))).setNext (span pre) (some next)) ∧
      Rep t (pre ++ ⟨n + rtMemheapSize + m, u⟩ :: post)
        (fs.erase (span pre + rtMemheapSize + n)) loose := by
  have hsecond : (span pre + rtMemheapSize + n, ⟨m, false⟩) ∈
      located 0 (pre ++ ⟨n, u⟩ :: ⟨m, false⟩ :: post) := by
    have := mem_middle (pre ++ [⟨n, u⟩]) post ⟨m, false⟩
    simpa [Nat.add_assoc] using this
  have hlisted : span pre + rtMemheapSize + n ∈ fs := (hr.free _).mpr ⟨_, hsecond, rfl, hout⟩
  have hend : span pre + rtMemheapSize + n + rtMemheapSize + m =
      span pre + rtMemheapSize + (n + rtMemheapSize + m) := by omega
  obtain ⟨l, hl, hunlisted⟩ := hr.unlist hlisted
  refine ⟨_, l, _, rfl, (hr.linked _ hsecond).1, hl, rfl, ?_⟩
  refine hunlisted.join (List.mem_cons_self ..) ?_ ?_ fun c hc => by simp [hc]
  · intro c
    rw [Headers.setNext_next, Headers.setPrev_next, hend]
    rfl
  · intro c
    rw [Headers.setNext_prev, Headers.setPrev_prev, hend]
    rfl

/-- A free block takes in the free block behind it, if there is one. -/
theorem Rep.mergeRight (hr : Rep h (pre ++ ⟨n, false⟩ :: post) fs loose)
    (hloose : ∀ c ∈ loose, c = span pre) :
    (mergeRight h (span pre) = some h ∧ ∀ y ∈ post.head?, y.used = true) ∨
      ∃ m post' t fs', post = ⟨m, false⟩ :: post' ∧ mergeRight h (span pre) = some t ∧
        t.data = h.data ∧ t.availableSize = add32 h.availableSize rtMemheapSize ∧
        Rep t (pre ++ ⟨n + rtMemheapSize + m, false⟩ :: post') fs' loose := by
  have hpos := rtMemheapSize_pos
  obtain ⟨hnext, -, ⟨hused, hhead⟩ | ⟨post', m, rfl, hused⟩⟩ := hr.next
  · refine .inl ⟨?_, hhead⟩
    simp [MemHeap.mergeRight, hnext, hused]
  · obtain ⟨next, l, t, -, hnextNext, hl, rfl, hrep⟩ :=
      (hr.giveBack rtMemheapSize).takeRight fun hin => by have := hloose _ hin; omega
    have hnextNext' : (h.links (span pre + rtMemheapSize + n)).next = some next := hnextNext
    refine .inr ⟨m, post', _, _, rfl, ?_, ?_, ?_, hrep⟩
    · simp only [MemHeap.mergeRight, hnext, hused, hnextNext', Option.bind_eq_bind,
        Option.bind_some, Bool.false_eq_true, if_false, unlist_setLinks, hl]
      rfl
    · rfl
    · rfl

/-- The blocks that a block next to them takes in: none, or a single free one. -/
inductive Merged : List Slot → Prop
  | none : Merged []
  | one (m : Nat) : Merged [⟨m, false⟩]

theorem Merged.free {xs : List Slot} (hm : Merged xs) : ∀ y ∈ xs, y.used = false := by
  cases hm <;> simp

theorem Merged.sum {xs : List Slot} (hm : Merged xs) :
    freeSum xs + xs.length * rtMemheapSize = span xs := by
  cases hm <;> simp [Nat.add_comm]

/-- What a block that is given back leaves: one free block in place of it and of the free
blocks next to it. -/
structure Freed (pre : List Slot) (n : Nat) (post slots : List Slot) : Prop where
  exists_merged : ∃ pre' left right post', pre = pre' ++ left ∧ post = right ++ post' ∧
    Merged left ∧ Merged right ∧ slots = pre' ++ ⟨span left + n + span right, false⟩ :: post'

theorem Rep.merge_left (hr : Rep h (pre ++ ⟨n, false⟩ :: post) fs [span pre]) (hpre : Apart pre)
    (hfew : h.availableSize + rtMemheapSize < 2 ^ 32) :
    ∃ pre' left insertHeader t, pre = pre' ++ left ∧ Merged left ∧
      (∀ y ∈ pre'.getLast?, y.used = true) ∧
      MemHeap.mergeLeft h (span pre) = some (span pre', insertHeader, t) ∧ t.data = h.data ∧
      t.availableSize = h.availableSize + left.length * rtMemheapSize ∧
      Rep t (pre' ++ ⟨span left + n, false⟩ :: post) fs
        (if insertHeader = true then [span pre'] else []) := by
  rcases hr.mergeLeft with ⟨hmerge, hlast⟩ | ⟨pre', m, t, rfl, hmerge, hdata, havail, hrep⟩
  · exact ⟨pre, [], true, h, by simp, .none, hlast, hmerge, rfl, by simp, by simpa using hr⟩
  · refine ⟨pre', [⟨m, false⟩], false, t, rfl, .one m, ((apart_free rfl).mp hpre).2.2.1, hmerge,
      hdata,
      ?_, by simpa [Nat.add_comm rtMemheapSize m] using hrep⟩
    rw [havail, add32_eq hfew]
    simp

theorem Rep.merge_right (hr : Rep h (pre ++ ⟨n, false⟩ :: post) fs loose)
    (hloose : ∀ c ∈ loose, c = span pre) (hpost : Apart post)
    (hfew : h.availableSize + rtMemheapSize < 2 ^ 32) :
    ∃ right post' t fs', post = right ++ post' ∧ Merged right ∧
      (∀ y ∈ post'.head?, y.used = true) ∧ MemHeap.mergeRight h (span pre) = some t ∧
      t.data = h.data ∧ t.availableSize = h.availableSize + right.length * rtMemheapSize ∧
      Rep t (pre ++ ⟨n + span right, false⟩ :: post') fs' loose := by
  rcases hr.mergeRight hloose with
    ⟨hmerge, hhead⟩ | ⟨m, post', t, fs', rfl, hmerge, hdata, havail, hrep⟩
  · exact ⟨[], post, h, fs, by simp, .none, hhead, hmerge, rfl, by simp, by simpa using hr⟩
  · refine ⟨[⟨m, false⟩], post', t, fs', rfl, .one m,
      ((apart_cons_free rfl).mp hpost).2, hmerge, hdata, ?_,
      by simpa [← Nat.add_assoc] using hrep⟩
    rw [havail, add32_eq hfew]
    simp

theorem Ok.free (hi : Ok h (pre ++ ⟨n, true⟩ :: post) fs) :
    ∃ t slots' fs', rtMemheapFree h (some (span pre + rtMemheapSize)) = some t ∧
      t.data = h.data ∧ Ok t slots' fs' ∧ Freed pre n post slots' := by
  have hr := hi.rep
  have hmid := mem_middle pre post ⟨n, true⟩
  have hstamp : h.magic (span pre) = stamp true := hr.stamped _ hmid
  have hused : h.isUsed (span pre) = true := hr.isUsed hmid
  obtain ⟨hnext, hmagic, -⟩ := hr.next
  have hsize := hr.markFree.memitemSize (mem_middle pre post ⟨n, false⟩)
  obtain ⟨hpre, hpost⟩ := (apart_used rfl).mp hi.apart
  have hsum := hi.available
  have hspan := hr.total
  have hsmall := hr.small
  have hle₁ := freeSum_le_span pre
  have hle₂ := freeSum_le_span post
  simp only [freeSum_append, freeSum_cons, if_true, Nat.zero_add] at hsum
  simp only [span_append, span_cons] at hspan
  have hgive : add32 h.availableSize n = h.availableSize + n := add32_eq (by omega)
  obtain ⟨pre', left, insertHeader, t₁, rfl, hleft, hlast, hmerge₁, hdata₁, havail₁, hrep₁⟩ :=
    (hr.markFree.giveBack n).merge_left hpre
      (by show add32 h.availableSize n + _ < _; omega)
  have havail₁' : t₁.availableSize = h.availableSize + n + left.length * rtMemheapSize :=
    havail₁.trans (by rw [← hgive]; rfl)
  have hlen : left.length ≤ 1 := by cases hleft <;> simp
  have hone : left.length * rtMemheapSize ≤ rtMemheapSize := by
    have := Nat.mul_le_mul_right rtMemheapSize hlen
    omega
  obtain ⟨right, post', t₂, fs', rfl, hright, hhead, hmerge₂, hdata₂, havail₂, hrep₂⟩ :=
    hrep₁.merge_right (by split <;> simp) hpost (by omega)
  have hstart : rtMemheapFree h (some (span (pre' ++ left) + rtMemheapSize)) =
      if insertHeader = true then t₂.enlist (span pre') else some t₂ := by
    generalize span (pre' ++ left) = a at hstamp hused hnext hmagic hsize hmerge₁ ⊢
    simp only [rtMemheapFree, Nat.add_sub_cancel, hstamp, stamp_mask, hused, hnext, hmagic,
      rtAssert_true, Option.bind_eq_bind, Option.pure_def, Option.bind_some]
    rw [hsize, Option.bind_some, hmerge₁]
    simp only [Option.bind_some, hmerge₂]
  have hfree : ∀ {t : Heap}, t.availableSize = t₂.availableSize →
      ∀ {fs}, Rep t (pre' ++ ⟨span left + n + span right, false⟩ :: post') fs [] →
        Ok t (pre' ++ ⟨span left + n + span right, false⟩ :: post') fs := by
    intro t ht fs hrep
    refine ⟨hrep, ?_, ?_⟩
    · have := hleft.sum
      have := hright.sum
      simp only [freeSum_append, freeSum_cons, Bool.false_eq_true, if_false] at hsum ⊢
      omega
    · refine (apart_free rfl).mpr ⟨?_, ?_, hlast, hhead⟩
      · exact (apart_append.mp hpre).1
      · exact (apart_append.mp hpost).2.1
  have hfreed : Freed (pre' ++ left) n (right ++ post')
      (pre' ++ ⟨span left + n + span right, false⟩ :: post') :=
    ⟨pre', left, right, post', rfl, rfl, hleft, hright, rfl⟩
  cases insertHeader with
  | false => exact ⟨t₂, _, _, hstart, hdata₂.trans hdata₁, hfree rfl hrep₂, hfreed⟩
  | true =>
    obtain ⟨l, hl, hlisted⟩ := hrep₂.enlist (mem_middle ..) rfl List.not_mem_nil
    exact ⟨t₂.setFreeLinks l, _, _, hstart.trans hl, hdata₂.trans hdata₁,
      hfree (t := t₂.setFreeLinks l) rfl hlisted, hfreed⟩

end Free

section Realloc

variable {h t : Heap} {slots pre post : List Slot} {fs : List Nat} {n m size : Nat}

/-- The block behind one that has been split. -/
theorem mem_second (pre post : List Slot) (x y : Slot) :
    (span pre + rtMemheapSize + x.size, y) ∈ located 0 (pre ++ x :: y :: post) := by
  have := mem_middle (pre ++ [x]) post y
  simpa [Nat.add_assoc] using this

theorem Ok.growInto (hi : Ok h (pre ++ ⟨n, true⟩ :: ⟨m, false⟩ :: post) fs) (hlt : n < size)
    (hfit : size + rtMemheapMinialloc < m + n) (halign : rtAlignSize ∣ size) :
    ∃ t fs', growInto h (span pre) (span pre + rtMemheapSize + n) n size = some t ∧
      t.data = h.data ∧
      Ok t (pre ++ ⟨size, true⟩ :: ⟨n + m - size, false⟩ :: post) fs' := by
  have hr := hi.rep
  have hpos := rtMemheapSize_pos
  have hsum := hi.available
  have htotal := hr.total
  have hsmall := hr.small
  have hle := hi.available_le
  simp only [freeSum_append, freeSum_cons, Bool.false_eq_true, if_true, if_false] at hsum
  simp only [span_append, span_cons] at htotal
  have hmini : rtMemheapMinialloc < rtMemheapSize := by decide
  have hmore : sub32 size n = size - n := sub32_eq (by omega) (by omega)
  have hless : sub32 h.availableSize (size - n) = h.availableSize - (size - n) :=
    sub32_eq (by omega) (by omega)
  have hnew : add32 (span pre + rtMemheapSize) size = span pre + size + rtMemheapSize := by
    rw [add32_eq (by omega)]
    omega
  have hprev : (h.links (span pre + rtMemheapSize + n)).prev = some (span pre) :=
    (hr.linked _ (mem_middle pre _ ⟨n, true⟩)).2
  obtain ⟨next, l, t₁, heq, hnext, hl, rfl, htaken⟩ :=
    (hr.useUp (size - n)).takeRight List.not_mem_nil
  have hnext' : (h.links (span pre + rtMemheapSize + n)).next = some next := hnext
  obtain ⟨l₂, hl₂, hsplit⟩ := htaken.newBlock (by omega) halign rfl
  have hsecond := mem_second pre post ⟨size, true⟩
    ⟨n + rtMemheapSize + m - size - rtMemheapSize, false⟩
  rw [show span pre + rtMemheapSize + size = span pre + size + rtMemheapSize by omega] at hsecond
  obtain ⟨l₃, hl₃, hlisted⟩ := hsplit.enlist hsecond rfl List.not_mem_nil
  have hsize : n + rtMemheapSize + m - size - rtMemheapSize = n + m - size := by omega
  rw [hsize] at hlisted
  have hremove := Headers.remove_eq hnext' hprev (by omega)
  refine ⟨_, _, ?_, ?_, hlisted, ?_, ?_⟩
  · simp only [MemHeap.growInto, hmore, hl, Option.bind_eq_bind, Option.bind_some, hnew]
    show (h.links.remove _).bind _ = _
    rw [hremove, Option.bind_some]
    exact (congrArg (Option.bind · (Heap.enlist · _)) hl₂).trans hl₃
  · rfl
  · show sub32 h.availableSize (size - n) = _
    rw [hless]
    simp
    omega
  · have hapart := (apart_used rfl).mp hi.apart
    refine (apart_used rfl).mpr ⟨hapart.1, ?_⟩
    exact (apart_cons_free rfl).mpr ((apart_cons_free rfl).mp hapart.2)

theorem Rep.absorb {loose : List Nat} (hr : Rep h (pre ++ ⟨n, false⟩ :: post) fs loose)
    (hloose : ∀ c ∈ loose, c = span pre) (hpost : Apart post)
    (hle : freeSum post ≤ h.availableSize) (hfew : h.availableSize < 2 ^ 32) :
    ∃ right post' t fs', post = right ++ post' ∧ Merged right ∧
      (∀ y ∈ post'.head?, y.used = true) ∧ MemHeap.absorb h (span pre) = some t ∧
      t.data = h.data ∧ t.availableSize = h.availableSize - freeSum right ∧
      Rep t (pre ++ ⟨n + span right, false⟩ :: post') fs' loose := by
  have hpos := rtMemheapSize_pos
  obtain ⟨hnext, -, ⟨hused, hhead⟩ | ⟨post', m, rfl, hused⟩⟩ := hr.next
  · refine ⟨[], post, h, fs, rfl, .none, hhead, ?_, rfl, rfl, by simpa using hr⟩
    simp [MemHeap.absorb, hnext, hused]
  · have hsize := hr.memitemSize (mem_second pre post' ⟨n, false⟩ ⟨m, false⟩)
    have hrep : Rep { h with availableSize := sub32 h.availableSize m }
      (pre ++ ⟨n, false⟩ :: ⟨m, false⟩ :: post') fs loose := { hr with }
    obtain ⟨next, l, t, -, hnextNext, hl, rfl, hrep⟩ :=
      hrep.takeRight fun hin => by have := hloose _ hin; omega
    have hnextNext' : (h.links (span pre + rtMemheapSize + n)).next = some next := hnextNext
    refine ⟨[⟨m, false⟩], post', _, _, rfl, .one m, ((apart_cons_free rfl).mp hpost).2,
      ?_, ?_, ?_, by simpa only [span_cons, span_nil, Nat.add_zero, ← Nat.add_assoc] using hrep⟩
    · simp only [MemHeap.absorb, hnext, hused, hsize, hnextNext', Option.bind_eq_bind,
        Option.bind_some, Bool.false_eq_true, if_false, unlist_setLinks, hl]
      rfl
    · rfl
    · simp only [freeSum_cons, Bool.false_eq_true, if_false] at hle
      exact sub32_eq (by omega) hfew

/-- The part of a block that is cut off is listed, with the free block behind it in it. -/
theorem Ok.shrink (hi : Ok h (pre ++ ⟨n, true⟩ :: post) fs)
    (hfit : size + rtMemheapSize + rtMemheapMinialloc < n) (halign : rtAlignSize ∣ size) :
    ∃ right post' t fs', post = right ++ post' ∧ Merged right ∧
      shrink h (span pre) size = some t ∧ t.data = h.data ∧
      Ok t (pre ++ ⟨size, true⟩ :: ⟨n - size - rtMemheapSize + span right, false⟩ :: post')
        fs' := by
  have hr := hi.rep
  have hsum := hi.available
  have htotal := hr.total
  have hsmall := hr.small
  have hle := hi.available_le
  obtain ⟨hpre, hpost⟩ := (apart_used rfl).mp hi.apart
  obtain ⟨l, hl, hsplit⟩ := hr.newBlock (by omega) halign rfl
  simp only [freeSum_append, freeSum_cons, if_true, Nat.zero_add] at hsum
  simp only [span_append, span_cons] at htotal
  have hspan : span (pre ++ [⟨size, true⟩]) = span pre + size + rtMemheapSize := by
    simp
    omega
  rw [← hspan] at hl
  rw [List.append_cons pre ⟨size, true⟩ (_ :: post), ← hspan] at hsplit
  obtain ⟨right, post', t₁, fs₁, rfl, hright, hhead, habsorb, hdata, havail, hrep⟩ :=
    hsplit.absorb (by simp) hpost (by show _ ≤ h.availableSize; omega)
      (by show h.availableSize < _; omega)
  have hmem := mem_middle (pre ++ [⟨size, true⟩]) post'
    ⟨n - size - rtMemheapSize + span right, false⟩
  obtain ⟨l', hl', hlisted⟩ := hrep.enlist hmem rfl List.not_mem_nil
  have hle₁ := freeSum_le_span pre
  have hle₂ := freeSum_le_span post'
  have hmerged := hright.sum
  have havail' : t₁.availableSize = h.availableSize - freeSum right := havail
  rw [freeSum_append] at hsum
  rw [span_append] at htotal
  refine ⟨right, post', (t₁.setFreeLinks l').giveBack (n - size - rtMemheapSize + span right),
    span (pre ++ [⟨size, true⟩]) :: fs₁,
    rfl, hright, ?_, hdata, by simpa using hlisted.giveBack _, ?_, ?_⟩
  · simp only [MemHeap.shrink, ← hspan, hl, habsorb, hl', Option.bind_eq_bind, Option.bind_some,
      hlisted.memitemSize hmem]
    rfl
  · show add32 t₁.availableSize _ = _
    rw [havail', add32_eq (by omega)]
    simp
    omega
  · refine (apart_used rfl).mpr ⟨hpre, (apart_cons_free rfl).mpr ⟨?_, hhead⟩⟩
    exact (apart_append.mp hpost).2.1

theorem alignedSize_lt (size : Nat) : alignedSize size + 3 < 2 ^ 32 := by
  rw [alignedSize, rtAlignSize, rtMemheapMinialloc]
  have : add32 size (4 - 1) < 2 ^ 32 := Nat.mod_lt _ (by decide)
  omega

/-- A size that is aligned is taken as it is. -/
theorem alignedSize_alignedSize (size : Nat) :
    alignedSize (alignedSize size) = alignedSize size := by
  obtain ⟨k, hk⟩ := dvd_alignedSize size
  have hlt := alignedSize_lt size
  have hle : rtMemheapMinialloc ≤ alignedSize size := Nat.le_max_left ..
  rw [rtAlignSize] at hk
  rw [alignedSize, rtAlignSize, add32_eq hlt, hk, show (4 * k + (4 - 1)) / 4 * 4 = 4 * k by omega,
    Nat.max_eq_right (hk ▸ hle)]

theorem Allocated.data_eq {p : Option Nat} {slots' : List Slot}
    (ha : Allocated h slots size p t slots') : t.data = h.data := by
  cases ha with
  | refused => rfl
  | taken _ _ _ hdata => exact hdata

/-- A block that is taken leaves the others where they are. -/
theorem Allocated.keeps {p : Option Nat} {slots' : List Slot}
    (ha : Allocated h slots size p t slots')
    {a : Nat} {x : Slot} (hx : (a, x) ∈ located 0 slots) (hu : x.used = true) :
    (a, x) ∈ located 0 slots' := by
  cases ha with
  | refused => exact hx
  | @taken pre post k _ heq hfits hle hdata =>
    subst heq
    have hspan : span (carved (alignedSize size) k) = rtMemheapSize + k := by
      rw [carved]
      split
      · simp
        omega
      · simp
    simp only [located_append, located, List.mem_append, List.mem_cons, Nat.zero_add, span_append,
      hspan, Nat.add_assoc] at hx ⊢
    rcases hx with hx | heq | hx
    · exact .inl (.inl hx)
    · obtain ⟨-, rfl⟩ := Prod.mk.inj heq
      simp at hu
    · exact .inr hx

/-- What becomes of a block of `n` bytes that is to have `size`. -/
inductive Resized (h : Heap) (pre : List Slot) (n : Nat) (post : List Slot) (size : Nat) :
    Option Nat → Heap → List Slot → Prop
  | kept : size ≤ n →
      Resized h pre n post size (some (span pre + rtMemheapSize)) h (pre ++ ⟨n, true⟩ :: post)
  | shrunk {right post' : List Slot} {t : Heap} : post = right ++ post' → Merged right →
      t.data = h.data → size + rtMemheapSize + rtMemheapMinialloc < n →
      Resized h pre n post size (some (span pre + rtMemheapSize)) t
        (pre ++ ⟨size, true⟩ :: ⟨n - size - rtMemheapSize + span right, false⟩ :: post')
  | grown {m : Nat} {post' : List Slot} {t : Heap} : post = ⟨m, false⟩ :: post' →
      t.data = h.data → n < size → size + rtMemheapMinialloc < m + n →
      Resized h pre n post size (some (span pre + rtMemheapSize)) t
        (pre ++ ⟨size, true⟩ :: ⟨n + m - size, false⟩ :: post')
  | refused : n < size → ¬ Fits h (pre ++ ⟨n, true⟩ :: post) size →
      (∀ m post', post = ⟨m, false⟩ :: post' → m + n ≤ size + rtMemheapMinialloc) →
      Resized h pre n post size none h (pre ++ ⟨n, true⟩ :: post)
  | moved {q : Nat} {t₁ t : Heap} {slots₁ pre₁ post₁ slots' : List Slot} : n < size →
      Allocated h (pre ++ ⟨n, true⟩ :: post) size (some q) t₁ slots₁ →
      slots₁ = pre₁ ++ ⟨n, true⟩ :: post₁ → span pre₁ = span pre →
      t.data = h.data.write q (h.data.read (span pre + rtMemheapSize) n) →
      Freed pre₁ n post₁ slots' → Resized h pre n post size (some q) t slots'

theorem Ok.moveTo (hi : Ok h (pre ++ ⟨n, true⟩ :: post) fs) (hlt : n < size)
    (hsize : alignedSize size = size)
    (hroom : ∀ m post', post = ⟨m, false⟩ :: post' → m + n ≤ size + rtMemheapMinialloc) :
    ∃ q t slots' fs', moveTo h (span pre + rtMemheapSize) n size = some (q, t) ∧
      Ok t slots' fs' ∧ Resized h pre n post size q t slots' := by
  obtain ⟨p, t₁, slots₁, fs₁, halloc, hok, hdid⟩ := hi.alloc size
  have hkeep := hdid.keeps (mem_middle pre post ⟨n, true⟩) rfl
  cases p with
  | none =>
    cases hdid with
    | refused hfits =>
      refine ⟨none, h, _, _, ?_, hi, .refused hlt (hsize ▸ hfits) hroom⟩
      simp [MemHeap.moveTo, halloc]
  | some q =>
    obtain ⟨pre₁, post₁, rfl, hpre⟩ := located_split hkeep
    rw [Nat.zero_add] at hpre
    have hcopied : Ok (t₁.modify fun m =>
        { m with data := m.data.write q (t₁.data.read (span pre + rtMemheapSize) n) })
        (pre₁ ++ ⟨n, true⟩ :: post₁) fs₁ := ⟨{ hok.rep with }, hok.available, hok.apart⟩
    obtain ⟨t, slots', fs', hfree, hfdata, hok', hfreed⟩ := hcopied.free
    refine ⟨some q, t, slots', fs', ?_, hok', .moved hlt hdid rfl hpre.symm ?_ hfreed⟩
    · simp only [MemHeap.moveTo, halloc, Option.bind_eq_bind, Option.bind_some,
        Nat.min_eq_left (Nat.le_of_lt hlt)]
      rw [hpre] at hfree ⊢
      rw [hfree]
      rfl
    · rw [hfdata]
      show t₁.data.write _ _ = _
      rw [hdid.data_eq]

theorem Ok.realloc (hi : Ok h (pre ++ ⟨n, true⟩ :: post) fs) (hzero : size ≠ 0)
    (hwrap : alignedSize size + rtMemheapMinialloc < 2 ^ 32 ∨ ∀ y ∈ post.head?, y.used = true) :
    ∃ q t slots' fs',
      rtMemheapRealloc h (some (span pre + rtMemheapSize)) size = some (q, t) ∧
        Ok t slots' fs' ∧ Resized h pre n post (alignedSize size) q t slots' := by
  have hr := hi.rep
  have hsize := hr.memitemSize (mem_middle pre post ⟨n, true⟩)
  have halign := dvd_alignedSize size
  have hsame := alignedSize_alignedSize size
  have htotal := hr.total
  have hsmall := hr.small
  simp only [span_append, span_cons] at htotal
  simp only [rtMemheapRealloc, hzero, if_false, Nat.add_sub_cancel, hsize, Option.bind_eq_bind,
    Option.bind_some]
  generalize alignedSize size = size at hwrap halign hsame ⊢
  have hpos := rtMemheapSize_pos
  have hbehind : span pre < span pre + rtMemheapSize + n := by omega
  by_cases hlt : n < size
  · simp only [hlt, if_true]
    obtain ⟨hnext, -, ⟨hused, hhead⟩ | ⟨post', m, rfl, hused⟩⟩ := hr.next
    · simp only [hnext, Option.bind_some, hbehind, rtAssert_true, hused, if_true]
      refine hi.moveTo hlt hsame ?_
      rintro m post' rfl
      simp at hhead
    · have hm := hr.memitemSize (mem_second pre post' ⟨n, true⟩ ⟨m, false⟩)
      simp only [span_cons] at htotal
      have hboth : add32 m n = m + n := add32_eq (by omega)
      have hwrap : size + rtMemheapMinialloc < 2 ^ 32 := hwrap.resolve_right (by simp)
      simp only [hnext, hbehind, rtAssert_true, Option.bind_some, hused,
        Bool.false_eq_true, if_false, hm, add32_eq hwrap, hboth]
      by_cases hfit : size + rtMemheapMinialloc < m + n
      · obtain ⟨t, fs', hgrow, hdata, hok⟩ := hi.growInto hlt hfit halign
        simp only [hfit, if_true, hgrow]
        exact ⟨_, _, _, _, rfl, hok, .grown rfl hdata hlt hfit⟩
      · simp only [hfit, if_false]
        refine hi.moveTo hlt hsame ?_
        rintro m' post'' heq
        obtain ⟨⟨rfl, -⟩, rfl⟩ := by simpa using heq
        exact Nat.not_lt.mp hfit
  · have hmini : rtMemheapMinialloc ≤ rtMemheapSize := by decide
    have hheader : add32 size rtMemheapSize = size + rtMemheapSize := add32_eq (by omega)
    have hroom : add32 (size + rtMemheapSize) rtMemheapMinialloc =
        size + rtMemheapSize + rtMemheapMinialloc := add32_eq (by omega)
    simp only [hlt, if_false, hheader, hroom]
    by_cases hfit : n ≤ size + rtMemheapSize + rtMemheapMinialloc
    · simp only [hfit, if_true]
      exact ⟨_, _, _, _, rfl, hi, .kept (Nat.not_lt.mp hlt)⟩
    · obtain ⟨right, post', t, fs', rfl, hright, hshrink, hdata, hok⟩ :=
        hi.shrink (Nat.not_le.mp hfit) halign
      simp only [hfit, if_false, hshrink]
      exact ⟨_, _, _, _, rfl, hok, .shrunk rfl hright hdata (Nat.not_le.mp hfit)⟩

end Realloc

end BdkRtt.Rttos.MemHeap
