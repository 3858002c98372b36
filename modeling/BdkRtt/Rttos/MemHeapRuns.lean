import BdkRtt.Rttos.MemHeapLaws

namespace BdkRtt.Rttos.MemHeap

open Lib

section Holds

/-- A used block of `n` bytes begins at `p`, its header in front of it. -/
def Holds (base : Nat) (xs : List Slot) (p n : Nat) : Prop :=
  ∃ a, p = a + rtMemheapSize ∧ (a, ⟨n, true⟩) ∈ located base xs

variable {h t : Heap} {slots slots' pre post xs ys : List Slot} {x : Slot} {fs : List Nat}
  {base p q n m size : Nat}

@[simp] theorem not_holds_nil : ¬ Holds base [] p n := by simp [Holds, located]

@[simp] theorem holds_cons : Holds base (x :: xs) p n ↔
    p = base + rtMemheapSize ∧ x = ⟨n, true⟩ ∨ Holds (base + rtMemheapSize + x.size) xs p n := by
  simp only [Holds, located, List.mem_cons, Prod.mk.injEq]
  constructor
  · rintro ⟨a, rfl, ⟨rfl, rfl⟩ | ha⟩
    · exact .inl ⟨rfl, rfl⟩
    · exact .inr ⟨a, rfl, ha⟩
  · rintro (⟨rfl, rfl⟩ | ⟨a, rfl, ha⟩)
    · exact ⟨base, rfl, .inl ⟨rfl, rfl⟩⟩
    · exact ⟨a, rfl, .inr ha⟩

theorem holds_append :
    Holds base (xs ++ ys) p n ↔ Holds base xs p n ∨ Holds (base + span xs) ys p n := by
  simp only [Holds, located_append, List.mem_append, and_or_left, exists_or]

theorem not_holds_of_merged (hm : Merged xs) : ¬ Holds base xs p n := by
  cases hm <;> simp

theorem Holds.bounds (hp : Holds base xs p n) :
    base + rtMemheapSize ≤ p ∧ p + n ≤ base + span xs := by
  obtain ⟨a, rfl, ha⟩ := hp
  have hle : base ≤ a ∧ a + rtMemheapSize + n ≤ base + span xs := located_bounds ha
  omega

/-- Two used blocks are the same or do not overlap. -/
theorem Holds.apart (hp : Holds base xs p n) (hq : Holds base xs q m) :
    p = q ∧ n = m ∨ p + n + rtMemheapSize ≤ q ∨ q + m + rtMemheapSize ≤ p := by
  obtain ⟨a, rfl, ha⟩ := hp
  obtain ⟨b, rfl, hb⟩ := hq
  rcases located_apart ha hb with ⟨rfl, heq⟩ | hle | hle
  · exact .inl ⟨rfl, congrArg Slot.size heq⟩
  · exact .inr (.inl (by simp at hle; omega))
  · exact .inr (.inr (by simp at hle; omega))

theorem Holds.size_eq (hp : Holds base xs p n) (hq : Holds base xs p m) : n = m := by
  have hpos := rtMemheapSize_pos
  rcases hp.apart hq with ⟨-, heq⟩ | hle | hle
  · exact heq
  · omega
  · omega

/-- The block in the middle and the others. -/
theorem holds_middle : Holds 0 (pre ++ ⟨n, true⟩ :: post) q m ↔
    q = span pre + rtMemheapSize ∧ m = n ∨
      Holds 0 (pre ++ ⟨n, true⟩ :: post) q m ∧ q ≠ span pre + rtMemheapSize := by
  have hmid : Holds 0 (pre ++ ⟨n, true⟩ :: post) (span pre + rtMemheapSize) n :=
    ⟨_, rfl, mem_middle ..⟩
  constructor
  · intro hq
    by_cases heq : q = span pre + rtMemheapSize
    · subst heq
      exact .inl ⟨rfl, hq.size_eq hmid⟩
    · exact .inr ⟨hq, heq⟩
  · rintro (⟨rfl, rfl⟩ | ⟨hq, -⟩)
    · exact hmid
    · exact hq

theorem holds_others : Holds 0 (pre ++ ⟨n, true⟩ :: post) q m ∧ q ≠ span pre + rtMemheapSize ↔
    Holds 0 pre q m ∨ Holds (span pre + rtMemheapSize + n) post q m := by
  have hpos := rtMemheapSize_pos
  simp only [holds_append, holds_cons, Nat.zero_add]
  constructor
  · rintro ⟨hq | ⟨rfl, -⟩ | hq, hne⟩
    · exact .inl hq
    · exact absurd rfl hne
    · exact .inr hq
  · rintro (hq | hq)
    · have := hq.bounds
      exact ⟨.inl hq, by omega⟩
    · have := hq.bounds
      exact ⟨.inr (.inr hq), by omega⟩

theorem Freed.holds (hf : Freed pre n post slots') :
    Holds 0 slots' q m ↔
      Holds 0 (pre ++ ⟨n, true⟩ :: post) q m ∧ q ≠ span pre + rtMemheapSize := by
  obtain ⟨pre', left, right, post', rfl, rfl, hleft, hright, rfl⟩ := hf
  rw [holds_others]
  simp only [holds_append, holds_cons, not_holds_of_merged hleft, not_holds_of_merged hright,
    Slot.mk.injEq, Bool.false_eq_true, and_false, false_or, or_false, span_append, Nat.zero_add]
  rw [show span pre' + rtMemheapSize + (span left + n + span right) =
    span pre' + span left + rtMemheapSize + n + span right by omega]

theorem Freed.span_eq (hf : Freed pre n post slots') :
    span slots' = span (pre ++ ⟨n, true⟩ :: post) := by
  obtain ⟨pre', left, right, post', rfl, rfl, -, -, rfl⟩ := hf
  simp
  omega

theorem span_carved : span (carved size n) = rtMemheapSize + n := by
  rw [carved]
  split
  · simp
    omega
  · simp

theorem Allocated.span_eq {found : Option Nat} (ha : Allocated h slots size found t slots') :
    span slots' = span slots := by
  cases ha with
  | refused => rfl
  | taken heq hfits hle hdata =>
    subst heq
    simp [span_carved]

theorem Resized.span_eq {found : Option Nat} (hz : Resized h pre n post size found t slots') :
    span slots' = span (pre ++ ⟨n, true⟩ :: post) := by
  cases hz with
  | kept => rfl
  | refused => rfl
  | shrunk hpost hright hdata hfit =>
    subst hpost
    simp
    omega
  | grown hpost hdata hlt hfit =>
    subst hpost
    simp
    omega
  | moved hlt halloc heq hpre hdata hfreed =>
    subst heq
    exact hfreed.span_eq.trans halloc.span_eq

theorem Allocated.holds (ha : Allocated h slots size (some p) t slots') :
    ∃ n, alignedSize size ≤ n ∧ (∀ m, ¬ Holds 0 slots p m) ∧
      ∀ q m, Holds 0 slots' q m ↔ q = p ∧ m = n ∨ Holds 0 slots q m := by
  have hpos := rtMemheapSize_pos
  cases ha with
  | @taken pre post k t heq hfits hle hdata =>
    subst heq
    have hout : ∀ m, ¬ Holds 0 (pre ++ ⟨k, false⟩ :: post) (span pre + rtMemheapSize) m := by
      intro m hm
      simp only [holds_append, holds_cons, Slot.mk.injEq, Bool.false_eq_true, and_false,
        false_or] at hm
      rcases hm with hm | hm <;> have := hm.bounds <;> omega
    rw [carved]
    split
    next hfit =>
      refine ⟨alignedSize size, Nat.le_refl _, hout, fun q m => ?_⟩
      simp only [holds_append, holds_cons, not_holds_nil, Slot.mk.injEq, Bool.false_eq_true,
        and_true, and_false, false_or, or_false, Nat.zero_add, span_cons, span_nil, span_append,
        Nat.add_zero]
      rw [show span pre + (rtMemheapSize + alignedSize size +
        (rtMemheapSize + (k - alignedSize size - rtMemheapSize))) =
          span pre + rtMemheapSize + k by omega, eq_comm (a := m)]
      tauto
    next hfit =>
      refine ⟨k, hle, hout, fun q m => ?_⟩
      simp only [holds_append, holds_cons, not_holds_nil, Slot.mk.injEq, Bool.false_eq_true,
        and_true, and_false, false_or, or_false, Nat.zero_add, span_cons, span_nil, span_append,
        Nat.add_zero]
      rw [← Nat.add_assoc, eq_comm (a := m)]
      tauto

/-- What a client sees of its block when it gets another size. -/
theorem Resized.holds (hz : Resized h pre n post size (some q) t slots')
    (hsize : alignedSize size = size) :
    ∃ m, size ≤ m ∧
      (q = span pre + rtMemheapSize ∨ ∀ k, ¬ Holds 0 (pre ++ ⟨n, true⟩ :: post) q k) ∧
      (∀ r k, Holds 0 slots' r k ↔ r = q ∧ k = m ∨
        Holds 0 (pre ++ ⟨n, true⟩ :: post) r k ∧ r ≠ span pre + rtMemheapSize) ∧
      (∀ r k, Holds 0 (pre ++ ⟨n, true⟩ :: post) r k → r ≠ span pre + rtMemheapSize →
        t.data.read r k = h.data.read r k) ∧
      t.data.read q (min n m) = h.data.read (span pre + rtMemheapSize) (min n m) := by
  have hpos := rtMemheapSize_pos
  have hplace : ∀ {m : Nat} {post' : List Slot},
      (∀ r k, Holds (span pre + rtMemheapSize + m) post' r k ↔
        Holds (span pre + rtMemheapSize + n) post r k) →
      ∀ r k, Holds 0 (pre ++ ⟨m, true⟩ :: post') r k ↔ r = span pre + rtMemheapSize ∧ k = m ∨
        Holds 0 (pre ++ ⟨n, true⟩ :: post) r k ∧ r ≠ span pre + rtMemheapSize := by
    intro m post' hpost r k
    rw [holds_middle, holds_others, holds_others, hpost]
  cases hz with
  | kept hle =>
    exact ⟨n, hle, .inl rfl, hplace fun _ _ => Iff.rfl, fun _ _ _ _ => rfl, rfl⟩
  | @shrunk right post' _ hpost hright hdata hfit =>
    subst hpost
    refine ⟨size, Nat.le_refl _, .inl rfl, hplace fun r k => ?_, fun _ _ _ _ => by rw [hdata],
      by rw [hdata]⟩
    simp only [holds_append, holds_cons, not_holds_of_merged hright, Slot.mk.injEq,
      Bool.false_eq_true, and_false, false_or]
    rw [show span pre + rtMemheapSize + size + rtMemheapSize +
      (n - size - rtMemheapSize + span right) = span pre + rtMemheapSize + n + span right by omega]
  | @grown m post' _ hpost hdata hlt hfit =>
    subst hpost
    refine ⟨size, Nat.le_refl _, .inl rfl, hplace fun r k => ?_, fun _ _ _ _ => by rw [hdata],
      by rw [hdata]⟩
    simp only [holds_cons, Slot.mk.injEq, Bool.false_eq_true, and_false, false_or]
    rw [show span pre + rtMemheapSize + size + rtMemheapSize + (n + m - size) =
      span pre + rtMemheapSize + n + rtMemheapSize + m by omega]
  | @moved _ t₁ _ _ pre₁ post₁ _ hlt halloc heq hpre hdata hfreed =>
    subst heq
    obtain ⟨m, hle, hout, hin⟩ := halloc.holds
    rw [hsize] at hle
    have hp : Holds 0 (pre ++ ⟨n, true⟩ :: post) (span pre + rtMemheapSize) n :=
      ⟨_, rfl, mem_middle ..⟩
    have hqp : q ≠ span pre + rtMemheapSize := fun heq => hout n (heq ▸ hp)
    have hnew : Holds 0 (pre₁ ++ ⟨n, true⟩ :: post₁) q m := (hin q m).mpr (.inl ⟨rfl, rfl⟩)
    refine ⟨m, hle, .inr hout, fun r k => ?_, fun r k hr hne => ?_, ?_⟩
    · rw [hfreed.holds, hpre, hin]
      constructor
      · rintro ⟨hr | hr, hne⟩
        · exact .inl hr
        · exact .inr ⟨hr, hne⟩
      · rintro (⟨rfl, rfl⟩ | ⟨hr, hne⟩)
        · exact ⟨.inl ⟨rfl, rfl⟩, hqp⟩
        · exact ⟨.inr hr, hne⟩
    · rw [hdata]
      have hold := hr
      rcases ((hin r k).mpr (.inr hr)).apart hnew with ⟨rfl, -⟩ | hle | hle
      · exact absurd hold (hout k)
      · exact Mem.read_write_of_le _ _ (by omega)
      · exact Mem.read_write_of_ge _ (by rw [Mem.length_read]; omega)
    · rw [hdata, Nat.min_eq_left (by omega)]
      have hself := Mem.read_write_self h.data q (h.data.read (span pre + rtMemheapSize) n)
      rwa [Mem.length_read] at hself

end Holds

section Clients

/-- What the clients have: the bytes of the block at each pointer. -/
abbrev Blocks := Nat → Option (List UInt8)

def State.view (s : State) : Blocks := fun p =>
  if p ∈ s.live then (s.heap.memitemSize (p - rtMemheapSize)).map (s.heap.data.read p) else none

/-- An allocator that keeps the blocks of its clients apart, wherever it puts them.  Sizes from
`2 ^ 32 - 3` on wrap when they are aligned. -/
inductive Serves (b : Blocks) : Event → Reply → Blocks → Prop
  | handOut {e size p xs} : e = .alloc size ∨ e = .realloc none size ∧ size ≠ 0 → b p = none →
      (size + 3 < 2 ^ 32 → size ≤ xs.length) →
      Serves b e (.pointer (some p)) (Function.update b p (some xs))
  | refuse {e size} : e = .alloc size ∨ (∃ p, e = .realloc p size) ∧ size ≠ 0 →
      Serves b e (.pointer none) b
  | nothing {e o} : e = .free none ∧ o = .done ∨ e = .realloc none 0 ∧ o = .pointer none →
      Serves b e o b
  | takeBack {e o p xs} : b p = some xs →
      e = .free (some p) ∧ o = .done ∨ e = .realloc (some p) 0 ∧ o = .pointer none →
      Serves b e o (Function.update b p none)
  | resize {size p q xs ys} : b p = some xs → size ≠ 0 → q = p ∨ b q = none →
      (size + 3 < 2 ^ 32 → size ≤ ys.length) →
      ys.take (min xs.length ys.length) = xs.take (min xs.length ys.length) →
      Serves b (.realloc (some p) size) (.pointer (some q))
        (Function.update (Function.update b p none) q (some ys))
  | write {p m xs} : b p = some xs →
      Serves b (.write p m) .done (Function.update b p (some (m.data.read p xs.length)))

/-- The sum of the new size and `RT_MEMHEAP_MINIALLOC` is no larger than an `rt_uint32_t`, or is
not made because the block behind is in use. -/
def NoWrap (s : State) : Event → Prop
  | .realloc (some p) size => alignedSize size + rtMemheapMinialloc < 2 ^ 32 ∨
      ∀ next ∈ (s.heap.links (p - rtMemheapSize)).next, s.heap.isUsed next = true
  | _ => True

instance (s : State) : DecidablePred (NoWrap s)
  | .realloc (some _) _ => inferInstanceAs (Decidable (_ ∨ _))
  | .realloc none _ | .alloc _ | .free _ | .write _ _ => isTrue trivial

/-- The client has the pointer that it passes, and the size is an `rt_uint32_t`. -/
def Owned (s : State) : Event → Prop
  | .alloc size | .realloc none size => size < 2 ^ 32
  | .free none => True
  | .free (some p) | .write p _ => p ∈ s.live
  | .realloc (some p) size => p ∈ s.live ∧ size < 2 ^ 32

/-- The heap is in order and its used blocks are those that the clients have. -/
structure Sound (s : State) (slots : List Slot) (fs : List Nat) : Prop
    extends Ok s.heap slots fs where
  live : ∀ p, p ∈ s.live ↔ ∃ n, Holds 0 slots p n
  nodup : s.live.Nodup
  large : ∀ p n, Holds 0 slots p n → rtMemheapMinialloc ≤ n

variable {s t : State} {slots slots' : List Slot} {fs fs' : List Nat} {p q n : Nat}

theorem Sound.view_of_holds (hs : Sound s slots fs) (hp : Holds 0 slots p n) :
    s.view p = some (s.heap.data.read p n) := by
  obtain ⟨a, rfl, ha⟩ := hp
  have hin : a + rtMemheapSize ∈ s.live := (hs.live _).mpr ⟨n, a, rfl, ha⟩
  rw [State.view, if_pos hin, Nat.add_sub_cancel, hs.rep.memitemSize ha, Option.map_some]

theorem Sound.view_of_not_holds (hs : Sound s slots fs) (hp : ∀ n, ¬ Holds 0 slots p n) :
    s.view p = none := by
  rw [State.view, if_neg]
  rintro hin
  obtain ⟨n, hn⟩ := (hs.live p).mp hin
  exact hp n hn

/-- A block that stays where it is with its bytes looks the same. -/
theorem Sound.view_eq (hs : Sound s slots fs) (ht : Sound t slots' fs')
    (hp : ∀ n, Holds 0 slots' p n ↔ Holds 0 slots p n)
    (hdata : ∀ n, Holds 0 slots p n → t.heap.data.read p n = s.heap.data.read p n) :
    t.view p = s.view p := by
  by_cases h : ∃ n, Holds 0 slots p n
  · obtain ⟨n, hn⟩ := h
    rw [ht.view_of_holds ((hp n).mpr hn), hs.view_of_holds hn, hdata n hn]
  · have hnone : ∀ n, ¬ Holds 0 slots p n := fun n hn => h ⟨n, hn⟩
    rw [hs.view_of_not_holds hnone, ht.view_of_not_holds fun n hn => hnone n ((hp n).mp hn)]

/-- The block that a live pointer leads to. -/
theorem Sound.block (hs : Sound s slots fs) (hp : p ∈ s.live) :
    ∃ pre n post, slots = pre ++ ⟨n, true⟩ :: post ∧ p = span pre + rtMemheapSize := by
  obtain ⟨n, a, rfl, ha⟩ := (hs.live p).mp hp
  obtain ⟨pre, post, rfl, heq⟩ := located_split ha
  exact ⟨pre, n, post, rfl, by omega⟩

theorem Sound.noWrap_iff {pre post : List Slot} {size : Nat}
    (hs : Sound s (pre ++ ⟨n, true⟩ :: post) fs) :
    NoWrap s (.realloc (some (span pre + rtMemheapSize)) size) ↔
      alignedSize size + rtMemheapMinialloc < 2 ^ 32 ∨ ∀ y ∈ post.head?, y.used = true := by
  refine or_congr_right ?_
  rw [Nat.add_sub_cancel]
  obtain ⟨hnext, -, ⟨hused, hhead⟩ | ⟨post', m, rfl, hused⟩⟩ := hs.rep.next
  · simpa [hnext, hused] using hhead
  · simp [hnext, hused]

theorem Sound.alloc (hs : Sound s slots fs) (size : Nat) :
    ∃ found h slots' fs', rtMemheapAlloc s.heap size = some (found, h) ∧
      Sound ⟨h, found.toList ++ s.live⟩ slots' fs' ∧ span slots' = span slots ∧
      (found = none ∧ h = s.heap ∨ ∃ p xs, found = some p ∧ s.view p = none ∧
        (size + 3 < 2 ^ 32 → size ≤ xs.length) ∧
        State.view ⟨h, found.toList ++ s.live⟩ = Function.update s.view p (some xs)) := by
  obtain ⟨found, h, slots', fs', halloc, hok, hdid⟩ := hs.toOk.alloc size
  refine ⟨found, h, slots', fs', halloc, ?_⟩
  cases found with
  | none =>
    cases hdid with
    | refused hfits => exact ⟨⟨hok, hs.live, hs.nodup, hs.large⟩, rfl, .inl ⟨rfl, rfl⟩⟩
  | some p =>
    obtain ⟨n, hle, hout, hin⟩ := hdid.holds
    have hsound : Sound ⟨h, p :: s.live⟩ slots' fs' := by
      refine ⟨hok, fun q => ?_, List.nodup_cons.mpr ⟨fun hp => ?_, hs.nodup⟩, fun q k hq => ?_⟩
      · simp only [List.mem_cons, hs.live, hin, exists_or, exists_and_left, exists_eq, and_true]
      · obtain ⟨m, hm⟩ := (hs.live p).mp hp
        exact hout m hm
      · rcases (hin q k).mp hq with ⟨-, rfl⟩ | hq
        · exact Nat.le_trans (Nat.le_max_left ..) hle
        · exact hs.large q k hq
    refine ⟨hsound, hdid.span_eq, .inr ⟨p, h.data.read p n, rfl, hs.view_of_not_holds hout,
      fun hsize => ?_, ?_⟩⟩
    · rw [Mem.length_read]
      exact Nat.le_trans (le_alignedSize hsize) hle
    · funext q
      by_cases hq : q = p
      · subst hq
        rw [Function.update_self]
        exact hsound.view_of_holds ((hin q n).mpr (.inl ⟨rfl, rfl⟩))
      · rw [Function.update_of_ne hq]
        refine hs.view_eq hsound (fun m => ?_) fun m _ => by rw [hdid.data_eq]
        rw [hin]
        exact or_iff_right fun heq => hq heq.1

theorem Sound.free (hs : Sound s slots fs) (hp : p ∈ s.live) :
    ∃ h slots' fs' xs, rtMemheapFree s.heap (some p) = some h ∧
      Sound ⟨h, s.live.erase p⟩ slots' fs' ∧ span slots' = span slots ∧ s.view p = some xs ∧
      State.view ⟨h, s.live.erase p⟩ = Function.update s.view p none := by
  obtain ⟨pre, n, post, rfl, rfl⟩ := hs.block hp
  obtain ⟨h, slots', fs', hfree, hdata, hok, hfreed⟩ := hs.toOk.free
  have hself : Holds 0 (pre ++ ⟨n, true⟩ :: post) (span pre + rtMemheapSize) n :=
    ⟨_, rfl, mem_middle ..⟩
  have hsound : Sound ⟨h, s.live.erase (span pre + rtMemheapSize)⟩ slots' fs' := by
    refine ⟨hok, fun q => ?_, hs.nodup.erase _, fun q k hq => hs.large q k (hfreed.holds.mp hq).1⟩
    simp only [hs.nodup.mem_erase_iff, hs.live, hfreed.holds, exists_and_right]
    exact and_comm
  refine ⟨h, slots', fs', _, hfree, hsound, hfreed.span_eq, hs.view_of_holds hself, ?_⟩
  funext q
  by_cases hq : q = span pre + rtMemheapSize
  · subst hq
    rw [Function.update_self]
    exact hsound.view_of_not_holds fun m hm => (hfreed.holds.mp hm).2 rfl
  · rw [Function.update_of_ne hq]
    refine hs.view_eq hsound (fun m => ?_) fun m _ => congrArg (Mem.read · q m) hdata
    rw [hfreed.holds]
    exact and_iff_left hq

theorem Sound.realloc (hs : Sound s slots fs) (hp : p ∈ s.live) {size : Nat} (hzero : size ≠ 0)
    (hwrap : NoWrap s (.realloc (some p) size)) :
    ∃ found h slots' fs', rtMemheapRealloc s.heap (some p) size = some (found, h) ∧
      (found = none ∧ h = s.heap ∨ ∃ q xs ys, found = some q ∧
        Sound ⟨h, q :: s.live.erase p⟩ slots' fs' ∧ span slots' = span slots ∧
        s.view p = some xs ∧
        (q = p ∨ s.view q = none) ∧ (size + 3 < 2 ^ 32 → size ≤ ys.length) ∧
        ys.take (min xs.length ys.length) = xs.take (min xs.length ys.length) ∧
        State.view ⟨h, q :: s.live.erase p⟩ =
          Function.update (Function.update s.view p none) q (some ys)) := by
  obtain ⟨pre, n, post, rfl, rfl⟩ := hs.block hp
  obtain ⟨found, h, slots', fs', hrealloc, hok, hdid⟩ :=
    hs.toOk.realloc hzero (hs.noWrap_iff.mp hwrap)
  refine ⟨found, h, slots', fs', hrealloc, ?_⟩
  cases found with
  | none =>
    cases hdid with
    | refused => exact .inl ⟨rfl, rfl⟩
  | some q =>
    have hself : Holds 0 (pre ++ ⟨n, true⟩ :: post) (span pre + rtMemheapSize) n :=
      ⟨_, rfl, mem_middle ..⟩
    obtain ⟨m, hle, hplace, hin, hothers, hkept⟩ := hdid.holds (alignedSize_alignedSize size)
    have hsound : Sound ⟨h, q :: s.live.erase (span pre + rtMemheapSize)⟩ slots' fs' := by
      refine ⟨hok, fun r => ?_, List.nodup_cons.mpr ⟨fun hq => ?_, hs.nodup.erase _⟩,
        fun r k hr => ?_⟩
      · simp only [List.mem_cons, hs.nodup.mem_erase_iff, hs.live, hin, exists_or,
          exists_and_left, exists_and_right, exists_eq, and_true]
        tauto
      · obtain ⟨hne, hq⟩ := hs.nodup.mem_erase_iff.mp hq
        obtain ⟨k, hk⟩ := (hs.live q).mp hq
        exact hplace.elim hne fun hout => hout k hk
      · rcases (hin r k).mp hr with ⟨-, rfl⟩ | ⟨hr, -⟩
        · exact Nat.le_trans (Nat.le_max_left ..) hle
        · exact hs.large r k hr
    refine .inr ⟨q, _, h.data.read q m, rfl, hsound, hdid.span_eq, hs.view_of_holds hself,
      hplace.imp_right hs.view_of_not_holds, fun hsize => ?_, ?_, ?_⟩
    · rw [Mem.length_read]
      exact Nat.le_trans (le_alignedSize hsize) hle
    · rw [Mem.length_read, Mem.length_read, Mem.take_read _ (Nat.min_le_right ..),
        Mem.take_read _ (Nat.min_le_left ..), hkept]
    · funext r
      by_cases hr : r = q
      · subst hr
        rw [Function.update_self]
        exact hsound.view_of_holds ((hin r m).mpr (.inl ⟨rfl, rfl⟩))
      · rw [Function.update_of_ne hr]
        by_cases hrp : r = span pre + rtMemheapSize
        · subst hrp
          rw [Function.update_self]
          refine hsound.view_of_not_holds fun k hk => ?_
          rcases (hin _ k).mp hk with ⟨heq, -⟩ | ⟨-, hne⟩
          · exact hr heq
          · exact hne rfl
        · rw [Function.update_of_ne hrp]
          refine hs.view_eq hsound (fun k => ?_) fun k hk => hothers r k hk hrp
          rw [hin]
          exact (or_iff_right fun heq => hr heq.1).trans (and_iff_left hrp)

/-- Behind a block stands the next one, or the last header. -/
theorem header_behind {a : Nat} {x : Slot} (hx : (a, x) ∈ located 0 slots) :
    a + rtMemheapSize + x.size = span slots ∨
      ∃ y, (a + rtMemheapSize + x.size, y) ∈ located 0 slots := by
  obtain ⟨pre, post, rfl, rfl⟩ := located_split hx
  cases post with
  | nil =>
    left
    simp
    omega
  | cons y post =>
    right
    exact ⟨y, by simpa using mem_second pre post x y⟩

/-- Memory that changes between two headers only. -/
theorem Rep.congr {h : Heap} {loose : List Nat} {m : Memory} (hr : Rep h slots fs loose)
    (hm : ∀ c, c = span slots ∨ (∃ x, (c, x) ∈ located 0 slots) →
      m.magic c = h.magic c ∧ m.links c = h.links c ∧ m.freeLinks (some c) = h.freeLinks (some c))
    (hnone : m.freeLinks none = h.freeLinks none) : Rep (h.modify fun _ => m) slots fs loose := by
  have hlink : ∀ a b, (a = span slots ∨ ∃ x, (a, x) ∈ located 0 slots) →
      (b = span slots ∨ ∃ x, (b, x) ∈ located 0 slots) → h.links.Linked a b → m.links.Linked a b :=
    fun a b ha hb hab => ⟨(congrArg ListHeader.next (hm a ha).2.1).trans hab.1,
      (congrArg ListHeader.prev (hm b hb).2.1).trans hab.2⟩
  have hfirst : 0 = span slots ∨ ∃ x, (0, x) ∈ located 0 slots := by
    cases slots with
    | nil => exact .inl rfl
    | cons x slots => exact .inr ⟨x, List.mem_cons_self ..⟩
  exact {
    total := hr.total
    small := hr.small
    linked := fun x hx => hlink _ _ (.inr ⟨x.2, hx⟩) (header_behind hx) (hr.linked x hx)
    last := hlink _ _ (.inl rfl) hfirst hr.last
    stamped := fun x hx => (hm _ (.inr ⟨x.2, hx⟩)).1.trans (hr.stamped x hx)
    lastStamped := (hm _ (.inl rfl)).1.trans hr.lastStamped
    cycle := hr.cycle.congr fun a ha => by
      rcases List.mem_cons.mp ha with rfl | ha
      · exact hnone
      · obtain ⟨c, hc, rfl⟩ := List.mem_map.mp ha
        obtain ⟨x, hx, -⟩ := (hr.free c).mp hc
        exact (hm c (.inr ⟨x, hx⟩)).2.2
    free := hr.free
    aligned := hr.aligned }

theorem Sound.write (hs : Sound s slots fs) (hp : p ∈ s.live) (m : Memory) :
    ∃ size xs, s.heap.memitemSize (p - rtMemheapSize) = some size ∧
      Sound ⟨s.heap.modify (·.overwrite m (p - rtMemheapSize) size), s.live⟩ slots fs ∧
      s.view p = some xs ∧
      State.view ⟨s.heap.modify (·.overwrite m (p - rtMemheapSize) size), s.live⟩ =
        Function.update s.view p (some (m.data.read p xs.length)) := by
  obtain ⟨pre, n, post, rfl, rfl⟩ := hs.block hp
  have hself : Holds 0 (pre ++ ⟨n, true⟩ :: post) (span pre + rtMemheapSize) n :=
    ⟨_, rfl, mem_middle ..⟩
  have hsize := hs.rep.memitemSize (mem_middle pre post ⟨n, true⟩)
  rw [Nat.add_sub_cancel]
  have hsound : Sound ⟨s.heap.modify (·.overwrite m (span pre) n), s.live⟩
      (pre ++ ⟨n, true⟩ :: post) fs := by
    refine ⟨⟨hs.rep.congr (m := s.heap.overwrite m (span pre) n) (fun c hc => ?_) rfl,
      hs.available, hs.apart⟩, hs.live, hs.nodup, hs.large⟩
    have hout : ¬ (span pre < c ∧ c < span pre + rtMemheapSize + n) := by
      rcases hc with rfl | ⟨x, hx⟩
      · simp
        omega
      · by_cases hne : c = span pre
        · omega
        · have : c < span pre ∨ span pre + rtMemheapSize + n ≤ c := outside_of_ne hx hne
          omega
    exact ⟨if_neg hout, if_neg hout, if_neg hout⟩
  refine ⟨n, _, hsize, hsound, hs.view_of_holds hself, ?_⟩
  funext q
  by_cases hq : q = span pre + rtMemheapSize
  · subst hq
    rw [Function.update_self, Mem.length_read, hsound.view_of_holds hself]
    refine congrArg some (Mem.read_congr fun k hk hlt => ?_)
    exact if_pos ⟨hk, hlt⟩
  · rw [Function.update_of_ne hq]
    refine hs.view_eq hsound (fun _ => Iff.rfl) fun k hk => Mem.read_congr fun i hi hlt => ?_
    have := hk.apart hself
    exact if_neg (by omega)

/-- Every call that its client may make returns, keeps the heap in order and serves the client. -/
theorem Sound.step {e : Event} (hs : Sound s slots fs) (hwrap : NoWrap s e) (how : Owned s e) :
    ∃ t o slots' fs', MemHeap.step s e = some (t, o) ∧ Sound t slots' fs' ∧
      span slots' = span slots ∧ Serves s.view e o t.view := by
  have hhand : ∀ size, e = .alloc size ∨ e = .realloc none size ∧ size ≠ 0 →
      ∃ found h slots' fs', rtMemheapAlloc s.heap size = some (found, h) ∧
        Sound ⟨h, found.toList ++ s.live⟩ slots' fs' ∧ span slots' = span slots ∧
        Serves s.view e (.pointer found) (State.view ⟨h, found.toList ++ s.live⟩) := by
    intro size he
    obtain ⟨found, h, slots', fs', halloc, hsound, hspan, hdid⟩ := hs.alloc size
    refine ⟨found, h, slots', fs', halloc, hsound, hspan, ?_⟩
    rcases hdid with ⟨rfl, rfl⟩ | ⟨p, xs, rfl, hfresh, hlen, hview⟩
    · exact .refuse (he.imp_right fun he => ⟨⟨none, he.1⟩, he.2⟩)
    · exact hview ▸ .handOut he hfresh hlen
  cases e with
  | alloc size =>
    obtain ⟨found, h, slots', fs', halloc, hsound, hspan, hserves⟩ := hhand size (.inl rfl)
    refine ⟨_, _, slots', fs', ?_, hsound, hspan, hserves⟩
    have hlt : size < 2 ^ 32 := how
    simp only [MemHeap.step, hlt, if_true, halloc, Option.map_some]
  | free p =>
    cases p with
    | none => exact ⟨s, .done, slots, fs, rfl, hs, rfl, .nothing (.inl ⟨rfl, rfl⟩)⟩
    | some p =>
      have hp : p ∈ s.live := how
      obtain ⟨h, slots', fs', xs, hfree, hsound, hspan, hold, hview⟩ := hs.free hp
      refine ⟨_, .done, slots', fs', ?_, hsound, hspan, ?_⟩
      · simp only [MemHeap.step, hp, if_true, hfree, Option.map_some]
      · exact hview.symm ▸ Serves.takeBack hold (.inl ⟨rfl, rfl⟩)
  | realloc p size =>
    cases p with
    | none =>
      have hlt : size < 2 ^ 32 := how
      by_cases hzero : size = 0
      · subst hzero
        exact ⟨s, .pointer none, slots, fs, rfl, hs, rfl, .nothing (.inr ⟨rfl, rfl⟩)⟩
      · obtain ⟨found, h, slots', fs', halloc, hsound, hspan, hserves⟩ :=
          hhand size (.inr ⟨rfl, hzero⟩)
        refine ⟨_, _, slots', fs', ?_, hsound, hspan, hserves⟩
        have hagain : rtMemheapAlloc s.heap (alignedSize size) = rtMemheapAlloc s.heap size := by
          simp only [rtMemheapAlloc, alignedSize_alignedSize]
        simp only [MemHeap.step, hlt, if_true, rtMemheapRealloc, hzero, if_false, hagain, halloc,
          Option.map_some]
    | some p =>
      have hboth : p ∈ s.live ∧ size < 2 ^ 32 := how
      obtain ⟨hp, -⟩ := id hboth
      by_cases hzero : size = 0
      · subst hzero
        obtain ⟨h, slots', fs', xs, hfree, hsound, hspan, hold, hview⟩ := hs.free hp
        refine ⟨_, .pointer none, slots', fs', ?_, hsound, hspan, ?_⟩
        · simp [MemHeap.step, hp, rtMemheapRealloc, hfree]
        · exact hview.symm ▸ Serves.takeBack hold (.inr ⟨rfl, rfl⟩)
      · obtain ⟨found, h, slots', fs', hrealloc, hdid⟩ := hs.realloc hp hzero hwrap
        rcases hdid with ⟨rfl, rfl⟩ |
          ⟨q, xs, ys, rfl, hsound, hspan, hold, hplace, hlen, hkept, hview⟩
        · refine ⟨s, .pointer none, slots, fs, ?_, hs, rfl, .refuse (.inr ⟨⟨_, rfl⟩, hzero⟩)⟩
          rw [MemHeap.step, if_pos hboth, hrealloc]
          simp [hzero]
        · refine ⟨_, .pointer (some q), slots', fs', ?_, hsound, hspan, ?_⟩
          · rw [MemHeap.step, if_pos hboth, hrealloc]
            simp
          · exact hview.symm ▸ Serves.resize hold hzero hplace hlen hkept
  | write p m =>
    have hp : p ∈ s.live := how
    obtain ⟨size, xs, hsize, hsound, hold, hview⟩ := hs.write hp m
    refine ⟨_, .done, slots, fs, ?_, hsound, rfl, ?_⟩
    · simp only [MemHeap.step, hp, if_true, hsize, Option.map_some]
    · exact hview.symm ▸ Serves.write hold

theorem links_of_newBlock {h h' : Heap} {a b : Nat} (hb : h.newBlock b a = some h') :
    (h'.links a).next = some b := by
  obtain ⟨l, hl, rfl⟩ := Option.map_eq_some_iff.mp hb
  exact Headers.next_of_insertAfter hl

theorem links_of_enlist {h h' : Heap} {a : Nat} (ha : h.enlist a = some h') :
    h'.links = h.links := by
  obtain ⟨l, -, rfl⟩ := Option.map_eq_some_iff.mp ha
  rfl

/-- When the sum wraps, the header of the block behind is put into the block's own header. -/
theorem Ok.wraps {h t : Heap} {pre post : List Slot} {size : Nat} {found : Option Nat}
    (hi : Ok h (pre ++ ⟨n, true⟩ :: post) fs) (hmin : rtMemheapMinialloc ≤ n)
    (hwrap : ¬ (alignedSize size + rtMemheapMinialloc < 2 ^ 32 ∨ ∀ y ∈ post.head?, y.used = true))
    (hrealloc : rtMemheapRealloc h (some (span pre + rtMemheapSize)) size = some (found, t)) :
    found = some (span pre + rtMemheapSize) ∧
      ∃ b, (t.links (span pre)).next = some b ∧ b < span pre + rtMemheapSize := by
  have hr := hi.rep
  have hpos := rtMemheapSize_pos
  obtain ⟨hlarge, hfree⟩ := not_or.mp hwrap
  have hlt := alignedSize_lt size
  have htotal := hr.total
  have hsmall := hr.small
  have hsize := hr.memitemSize (mem_middle pre post ⟨n, true⟩)
  obtain ⟨hnext, -, ⟨-, hhead⟩ | ⟨post', m, rfl, hused⟩⟩ := hr.next
  · exact absurd hhead hfree
  have hm := hr.memitemSize (mem_second pre post' ⟨n, true⟩ ⟨m, false⟩)
  simp only [span_append, span_cons] at htotal
  have hzero : size ≠ 0 := by
    rintro rfl
    exact hlarge (by decide)
  generalize hs : alignedSize size = k at hlarge hlt
  have hmini : rtMemheapMinialloc = 12 := rfl
  have hheader : rtMemheapSize = 36 := rfl
  have hlonger : n < k := by omega
  have hbehind : span pre < span pre + rtMemheapSize + n := by omega
  have hsum : add32 m n = m + n := add32_eq (by omega)
  have hwraps : add32 k rtMemheapMinialloc < m + n := by
    rw [add32]
    omega
  simp only [rtMemheapRealloc, hzero, if_false, hs, Nat.add_sub_cancel, hsize, hm, hnext, hlonger,
    if_true, hbehind, rtAssert_true, hused, Bool.false_eq_true, hsum, hwraps, Option.bind_eq_bind,
    Option.pure_def, Option.bind_some, Option.map_eq_some_iff, Prod.mk.injEq] at hrealloc
  obtain ⟨t', hgrow, rfl, rfl⟩ := hrealloc
  refine ⟨rfl, add32 (span pre + rtMemheapSize) k, ?_, ?_⟩
  · simp only [MemHeap.growInto, Option.bind_eq_bind, Option.bind_eq_some_iff] at hgrow
    obtain ⟨h₁, -, l, -, h₂, hnew, hlist⟩ := hgrow
    rw [links_of_enlist hlist]
    exact links_of_newBlock hnew
  · rw [add32]
    omega

theorem Sound.wraps {e : Event} {o : Reply} (hs : Sound s slots fs) (hwrap : ¬ NoWrap s e)
    (hstep : MemHeap.step s e = some (t, o)) : ¬ Sound t slots' fs' := by
  match e, hwrap with
  | .realloc (some p) size, hwrap =>
    have hguard : p ∈ s.live ∧ size < 2 ^ 32 := by
      by_contra hout
      rw [MemHeap.step, if_neg hout] at hstep
      cases hstep
    rw [MemHeap.step, if_pos hguard] at hstep
    obtain ⟨⟨q, h⟩, hrealloc, heq⟩ := Option.map_eq_some_iff.mp hstep
    obtain ⟨pre, n, post, rfl, rfl⟩ := hs.block hguard.1
    rw [hs.noWrap_iff] at hwrap
    obtain ⟨rfl, b, hb, hlt⟩ :=
      hs.toOk.wraps (hs.large _ _ ⟨_, rfl, mem_middle ..⟩) hwrap hrealloc
    obtain ⟨rfl, -⟩ := Prod.mk.inj heq
    intro ht
    obtain ⟨k, a, ha, hin⟩ := (ht.live (span pre + rtMemheapSize)).mp (by simp)
    obtain rfl := Nat.add_right_cancel ha
    have hnext := (ht.rep.linked _ hin).1
    have heq : span pre + rtMemheapSize + k = b := Option.some.inj (hnext.symm.trans hb)
    omega
  | .realloc none _, hwrap => exact absurd trivial hwrap
  | .alloc _, hwrap => exact absurd trivial hwrap
  | .free _, hwrap => exact absurd trivial hwrap
  | .write _ _, hwrap => exact absurd trivial hwrap

theorem owned_of_step {e : Event} {o : Reply} (h : MemHeap.step s e = some (t, o)) :
    Owned s e := by
  have hguard : ∀ {c : Prop} [Decidable c] {x : Option (State × Reply)},
      (if c then x else none) = some (t, o) → c := by
    intro c _ x hx
    by_contra hc
    simp [hc] at hx
  cases e with
  | alloc size => exact hguard (c := size < 2 ^ 32) h
  | free p =>
    cases p with
    | none => trivial
    | some p => exact hguard (c := p ∈ s.live) h
  | realloc p size =>
    cases p with
    | none => exact hguard (c := size < 2 ^ 32) h
    | some p => exact hguard (c := p ∈ s.live ∧ size < 2 ^ 32) h
  | write p m => exact hguard (c := p ∈ s.live) h

end Clients

section Runs

/-- A pool with room for the first header and the last. -/
structure Pool (size : Nat) : Prop where
  room : 2 * rtMemheapSize ≤ size / rtAlignSize * rtAlignSize
  small : size < 2 ^ 32

variable {m : Memory} {size : Nat} {s : State} {hist : Machine.History Event Reply}

/-- The bytes of the one block that `rt_memheap_init` makes. -/
def poolRest (size : Nat) : Nat := size / rtAlignSize * rtAlignSize - 2 * rtMemheapSize

theorem Pool.availableSize (hp : Pool size) :
    sub32 (size / rtAlignSize * rtAlignSize) (2 * rtMemheapSize) = poolRest size := by
  have hle : size / rtAlignSize * rtAlignSize ≤ size := Nat.div_mul_le_self ..
  exact sub32_eq hp.room (Nat.lt_of_le_of_lt hle hp.small)

theorem Pool.links (hp : Pool size) (a : Nat) : (rtMemheapInit m size).links a =
    if a = poolRest size + rtMemheapSize then ⟨some 0, some 0⟩
    else if a = 0 then
      ⟨some (poolRest size + rtMemheapSize), some (poolRest size + rtMemheapSize)⟩
    else m.links a := by
  rw [← hp.availableSize]
  rfl

theorem Pool.magic (hp : Pool size) : (rtMemheapInit m size).magic =
    Function.update (Function.update m.magic 0 (stamp false))
      (poolRest size + rtMemheapSize) (stamp true) := by
  rw [← hp.availableSize]
  rfl

theorem Pool.ok (hp : Pool size) : Ok (rtMemheapInit m size) [⟨poolRest size, false⟩] [0] := by
  have hpos := rtMemheapSize_pos
  have hroom := hp.room
  have hsmall := hp.small
  have hle : size / rtAlignSize * rtAlignSize ≤ size := Nat.div_mul_le_self ..
  have hdvd : rtAlignSize ∣ poolRest size := Nat.dvd_sub (Nat.dvd_mul_left ..) (by decide)
  have hlast : span [⟨poolRest size, false⟩] = poolRest size + rtMemheapSize := by
    simp [Nat.add_comm]
  have hne : poolRest size + rtMemheapSize ≠ 0 := by omega
  refine ⟨⟨?_, ?_, ?_, ?_, ?_, ?_, ?_, ?_, ?_⟩, hp.availableSize, List.isChain_singleton _⟩
  · rw [hlast]
    show _ = size / rtAlignSize * rtAlignSize
    rw [poolRest]
    omega
  · exact Nat.lt_of_le_of_lt hle hsmall
  · rintro x hx
    obtain rfl := List.mem_singleton.mp hx
    have hnext : 0 + rtMemheapSize + poolRest size = poolRest size + rtMemheapSize := by omega
    show Headers.Linked _ 0 (0 + rtMemheapSize + poolRest size)
    rw [hnext]
    simp [Headers.Linked, hp.links, hne.symm]
  · simp [Headers.Linked, hp.links, hlast, hne.symm]
  · rintro x hx
    obtain rfl := List.mem_singleton.mp hx
    rw [hp.magic, Function.update_of_ne hne.symm, Function.update_self]
  · rw [hp.magic, hlast, Function.update_self]
  · have hlinked : (rtMemheapInit m size).freeLinks.Linked none (some 0) ∧
        (rtMemheapInit m size).freeLinks.Linked (some 0) none :=
      ⟨⟨rfl, rfl⟩, rfl, rfl⟩
    exact ⟨by simp, by simpa using hlinked⟩
  · intro a
    simp [located]
  · simpa using hdvd

theorem Pool.sound (hp : Pool size) : Sound (machine m size).init [⟨poolRest size, false⟩] [0] :=
  ⟨hp.ok, by simp [machine], .nil, by simp⟩

theorem run_sound (hp : Pool size) (hr : (machine m size).ReachesUnder NoWrap hist s) :
    Machine.RunsOf Serves (fun _ => none) hist s.view ∧
      ∃ slots fs, Sound s slots fs ∧ span slots = poolRest size + rtMemheapSize := by
  let Sim (s : State) (b : Blocks) := b = s.view ∧
    ∃ slots fs, Sound s slots fs ∧ span slots = poolRest size + rtMemheapSize
  have hinit : Sim (machine m size).init fun _ => none :=
    ⟨rfl, _, _, hp.sound, by simp [Nat.add_comm]⟩
  have hstep : ∀ {s b e t o}, Sim s b → NoWrap s e → (machine m size).step s e = some (t, o) →
      ∃ b', Serves b e o b' ∧ Sim t b' := by
    rintro s b e t o ⟨rfl, slots, fs, hs, hspan⟩ hwrap hstep
    obtain ⟨t', o', slots', fs', hstep', hsound, hsame, hserves⟩ :=
      hs.step hwrap (owned_of_step hstep)
    obtain ⟨rfl, rfl⟩ := Prod.mk.inj (Option.some.inj (hstep.symm.trans hstep'))
    exact ⟨_, hserves, rfl, slots', fs', hsound, hsame.trans hspan⟩
  obtain ⟨b, hruns, rfl, hs⟩ := hr.refines Sim hinit hstep
  exact ⟨hruns, hs⟩

def blank : Memory where
  magic _ := 0
  links _ := ⟨none, none⟩
  freeLinks _ := ⟨none, none⟩
  data _ := 0

/-- A block that is written is moved to grow, and given back; the other one goes first. -/
def moves : List Event :=
  [.alloc 20, .alloc 8, .write 36 { blank with data := fun _ => 7 }, .realloc (some 36) 30,
    .free (some 92), .free (some 140)]

def movesReplies : List Reply :=
  [.pointer (some 36), .pointer (some 92), .done, .pointer (some 140), .done, .done]

/-- In a run without such a resize, and in no other, the heap is in order after every step: the
pool is made up of its blocks, no two free ones of which are neighbours, the free list and the
available size are those of the free blocks, and the used ones are those of the clients. -/
theorem in_order_iff (hp : Pool size) :
    (machine m size).ReachesUnder NoWrap hist s ↔
      (machine m size).ReachesWithin (fun _ s => ∃ slots fs, Sound s slots fs) hist s := by
  refine Machine.reachesUnder_iff_within (fun hr => ?_) fun hr hstep hin => ?_
  · obtain ⟨-, slots, fs, hs, -⟩ := run_sound hp hr
    exact ⟨slots, fs, hs⟩
  · obtain ⟨-, slots, fs, hs, -⟩ := run_sound hp hr
    obtain ⟨slots', fs', hs'⟩ := hin
    by_contra hwrap
    exact hs.wraps hwrap hstep hs'

theorem in_order_iff_moves : ∃ hist s, hist.map (·.2) = movesReplies ∧
    (machine blank 256).ReachesWithin (fun _ s => ∃ slots fs, Sound s slots fs) hist s := by
  obtain ⟨hist, s, hx, hreplies⟩ : ∃ hist s, (machine blank 256).exec moves = some (hist, s) ∧
      hist.map (·.2) = movesReplies := ⟨_, _, rfl, rfl⟩
  exact ⟨hist, s, hreplies, (in_order_iff ⟨by decide, by decide⟩).mp
    (Machine.reachesUnder_of_exec (by decide) hx)⟩

/-- A call of the heap returns exactly when the client has the pointer that it passes. -/
theorem returns_iff (hp : Pool size) (hr : (machine m size).ReachesUnder NoWrap hist s) {e : Event}
    (hwrap : NoWrap s e) : (machine m size).step s e ≠ none ↔ Owned s e := by
  obtain ⟨-, slots, fs, hs, -⟩ := run_sound hp hr
  constructor
  · intro hstep
    obtain ⟨⟨t, o⟩, hstep⟩ := Option.ne_none_iff_exists'.mp hstep
    exact owned_of_step hstep
  · intro how
    obtain ⟨t, o, -, -, hstep, -⟩ := hs.step hwrap how
    exact Option.ne_none_iff_exists'.mpr ⟨_, hstep⟩

/-- The blocks of two pointers do not overlap, and none leaves the pool. -/
theorem live_apart (hp : Pool size)
    (hr : (machine m size).ReachesUnder NoWrap hist s) {p q : Nat} {xs ys : List UInt8}
    (hxs : s.view p = some xs) (hys : s.view q = some ys) :
    rtMemheapSize ≤ p ∧ p + xs.length ≤ poolRest size + rtMemheapSize ∧
      (p = q ∨ p + xs.length + rtMemheapSize ≤ q ∨ q + ys.length + rtMemheapSize ≤ p) := by
  obtain ⟨-, slots, fs, hs, hspan⟩ := run_sound hp hr
  have hblock : ∀ {p xs}, s.view p = some xs → Holds 0 slots p xs.length := by
    intro p xs hview
    by_cases hin : p ∈ s.live
    · obtain ⟨n, hn⟩ := (hs.live p).mp hin
      rw [hs.view_of_holds hn, Option.some.injEq] at hview
      rwa [← hview, Mem.length_read]
    · rw [State.view, if_neg hin] at hview
      cases hview
  have hbounds := (hblock hxs).bounds
  have happart := (hblock hxs).apart (hblock hys)
  omega

end Runs

end BdkRtt.Rttos.MemHeap
