import BdkRtt.Audio.MixerSource
import BdkRtt.Lib.Words
import Mathlib.Data.Fintype.Card

universe u v

namespace BdkRtt.Audio.Mixer

open Lib

section Node

variable {β : Type u} {α : Type v} {node : MusicSrcNode β α} {list : MusicSrcList β α}

/-- What of a node has not been read. -/
def MusicSrcNode.rest (node : MusicSrcNode β α) : List α := node.data.drop node.usePos.toNat

/-- The list as a queue of chunks. -/
def pending (list : MusicSrcList β α) : Chunks β α := list.map fun node => (node.buf, node.rest)

theorem owners_pending (list : MusicSrcList β α) :
    (pending list).owners = list.map MusicSrcNode.buf := by
  simp [pending, Chunks.owners]

/-- A node stays in the list only while something of it is left. -/
def Unread (list : MusicSrcList β α) : Prop := ∀ node ∈ list, node.usePos < node.len

theorem len_toNat (node : MusicSrcNode β α) : node.len.toNat = node.data.length :=
  UInt32.toNat_ofNat_of_lt' node.length_lt

theorem count_toNat (h : node.usePos < node.len) :
    (node.len - node.usePos).toNat = node.rest.length := by
  rw [UInt32.toNat_sub_of_le _ _ (UInt32.le_of_lt h), len_toNat, MusicSrcNode.rest,
    List.length_drop]

theorem rest_pos (h : node.usePos < node.len) : 0 < node.rest.length := by
  have := UInt32.lt_iff_toNat_lt.mp h
  rw [len_toNat] at this
  rw [MusicSrcNode.rest, List.length_drop]
  omega

theorem Unread.tail (h : Unread (node :: list)) : Unread list :=
  fun n hn => h n (List.mem_cons_of_mem _ hn)

theorem pending_cons (node : MusicSrcNode β α) (list : MusicSrcList β α) :
    pending (node :: list) = (node.buf, node.rest) :: pending list := rfl

theorem pending_node (list : MusicSrcList β α) (b : MusicBuf β α) :
    pending (list ++ [b.node]) = pending list ++ [(b.buf, b.data)] := by
  simp [pending, MusicBuf.node, MusicSrcNode.rest]

theorem Unread.concat (h : Unread list) {b : MusicBuf β α} (hb : b.data ≠ []) :
    Unread (list ++ [b.node]) := by
  intro node hnode
  rcases List.mem_append.mp hnode with hnode | hnode
  · exact h node hnode
  · rw [List.mem_singleton.mp hnode]
    refine UInt32.lt_iff_toNat_lt.mpr ?_
    rw [len_toNat]
    exact List.length_pos_iff.mpr hb

/-- What the loop is to do: it takes the oldest samples, and gives back the buffers that it has
emptied. -/
structure Takes (n : Nat) (list : MusicSrcList β α) (r : GotData β α) : Prop where
  unread : Unread r.list
  left : pending r.list = ((pending list).pop n).2
  freed : r.freed = ((pending list).pop n).1
  copied : r.copied = (pending list).elems.take n
  length : r.length.toNat = min n (pending list).elems.length

/-- The request ends in front of the last sample of the first node. -/
theorem takes_part (h : Unread (node :: list)) {n : UInt32} (hlt : n.toNat < node.rest.length) :
    Takes n.toNat (node :: list)
      ⟨{ node with usePos := node.usePos + n } :: list, node.rest.take n.toNat, [], n⟩ := by
  have hpos : (node.usePos + n).toNat = node.usePos.toNat + n.toNat := by
    have := node.length_lt
    rw [MusicSrcNode.rest, List.length_drop] at hlt
    exact toNat_add_of_lt (by omega)
  have hpop : (pending (node :: list)).pop n.toNat =
      ([], (node.buf, node.rest.drop n.toNat) :: pending list) := by
    rw [pending_cons, Chunks.pop, if_pos hlt]
  refine ⟨?_, ?_, ?_, ?_, ?_⟩
  · intro m hm
    rcases List.mem_cons.mp hm with rfl | hm
    · refine UInt32.lt_iff_toNat_lt.mpr ?_
      rw [len_toNat, hpos]
      rw [MusicSrcNode.rest, List.length_drop] at hlt
      change _ < node.data.length
      omega
    · exact h.tail m hm
  · rw [hpop, pending_cons, MusicSrcNode.rest, MusicSrcNode.rest, hpos, List.drop_drop]
  · rw [hpop]
  · rw [pending_cons, Chunks.elems_cons, List.take_append_of_le_length (Nat.le_of_lt hlt)]
  · rw [pending_cons, Chunks.elems_cons, List.length_append]
    exact (Nat.min_eq_left (Nat.le_trans (Nat.le_of_lt hlt) (Nat.le_add_right _ _))).symm

/-- The request ends with the last sample of the first node. -/
theorem takes_whole (h : Unread (node :: list)) {n : UInt32} (heq : n.toNat = node.rest.length) :
    Takes n.toNat (node :: list) ⟨list, node.rest.take n.toNat, [node.buf], n⟩ := by
  have hpop : (pending (node :: list)).pop n.toNat = ([node.buf], pending list) := by
    rw [pending_cons, Chunks.pop, if_neg (by omega), if_pos heq]
  refine ⟨h.tail, ?_, ?_, ?_, ?_⟩
  · rw [hpop]
  · rw [hpop]
  · rw [pending_cons, Chunks.elems_cons, List.take_append_of_le_length (Nat.le_of_eq heq)]
  · rw [pending_cons, Chunks.elems_cons, List.length_append]
    exact (Nat.min_eq_left (Nat.le_trans (Nat.le_of_eq heq) (Nat.le_add_right _ _))).symm

/-- The request goes on behind the first node. -/
theorem takes_more {n : UInt32} {r : GotData β α} (hn : node.usePos < node.len)
    (hgt : node.rest.length < n.toNat)
    (hr : Takes (n - (node.len - node.usePos)).toNat list r) :
    Takes n.toNat (node :: list)
      ⟨r.list, node.rest.take (node.len - node.usePos).toNat ++ r.copied, node.buf :: r.freed,
        node.len - node.usePos + r.length⟩ := by
  have hcount := count_toNat hn
  have hsub : (n - (node.len - node.usePos)).toNat = n.toNat - node.rest.length := by
    rw [UInt32.toNat_sub_of_le _ _ (UInt32.le_iff_toNat_le.mpr (by omega)), hcount]
  have hpop : (pending (node :: list)).pop n.toNat =
      (node.buf :: ((pending list).pop (n.toNat - node.rest.length)).1,
        ((pending list).pop (n.toNat - node.rest.length)).2) := by
    rw [pending_cons, Chunks.pop, if_neg (by omega), if_neg (by omega)]
  rw [hsub] at hr
  refine ⟨hr.unread, ?_, ?_, ?_, ?_⟩
  · rw [hpop, hr.left]
  · rw [hpop, hr.freed]
  · rw [hr.copied, hcount, List.take_length, pending_cons, Chunks.elems_cons, List.take_append,
      List.take_of_length_le (Nat.le_of_lt hgt)]
  · have hlen := hr.length
    have hlt := UInt32.toNat_lt n
    have hsum : (node.len - node.usePos + r.length).toNat = node.rest.length + r.length.toNat := by
      rw [← hcount]
      exact toNat_add_of_lt (by omega)
    rw [pending_cons, Chunks.elems_cons, List.length_append]
    change (node.len - node.usePos + r.length).toNat = min _ (node.rest.length + _)
    omega

theorem getDataLoop_takes {n : UInt32} (h : Unread list) (hpos : 0 < n.toNat) :
    Takes n.toNat list (getDataLoop n list) := by
  induction list generalizing n with
  | nil => exact ⟨h, rfl, rfl, by simp [getDataLoop, pending], by simp [getDataLoop, pending]⟩
  | cons node list ih =>
    have hnode := h node List.mem_cons_self
    have hcount := count_toNat hnode
    rw [getDataLoop]
    split
    case isTrue hge =>
      have hle : n.toNat ≤ node.rest.length := hcount ▸ UInt32.le_iff_toNat_le.mp hge
      dsimp only
      split
      case isTrue heq =>
        have heq : node.len = node.usePos + n := heq
        refine takes_whole h ?_
        rw [← hcount, show n = node.len - node.usePos by grind]
      case isFalse hne =>
        have hne : node.len ≠ node.usePos + n := hne
        refine takes_part h (Nat.lt_of_le_of_ne hle fun heq => hne ?_)
        have : n = node.len - node.usePos := UInt32.toNat_inj.mp (heq.trans hcount.symm)
        grind
    case isFalse hlt =>
      have hgt : node.rest.length < n.toNat :=
        hcount ▸ UInt32.lt_iff_toNat_lt.mp (UInt32.not_le.mp hlt)
      refine takes_more hnode hgt (ih h.tail ?_)
      rw [UInt32.toNat_sub_of_le _ _ (UInt32.le_of_lt (UInt32.not_le.mp hlt))]
      omega

theorem mixerMusicSrcGetData_takes (h : Unread list) (buf : Bool) (expectedLen : UInt32) :
    Takes (if buf then expectedLen.toNat else 0) list
      (mixerMusicSrcGetData buf expectedLen list) := by
  have hnone : Takes 0 list ⟨list, [], [], 0⟩ := by
    have hpop : (pending list).pop 0 = ([], pending list) := by
      cases list with
      | nil => rfl
      | cons node list =>
        rw [pending_cons, Chunks.pop, if_pos (rest_pos (h node List.mem_cons_self)), List.drop_zero]
    exact ⟨h, by rw [hpop], by rw [hpop], rfl, (Nat.zero_min _).symm⟩
  unfold mixerMusicSrcGetData
  by_cases hreq : expectedLen ≠ 0 ∧ buf
  · rw [if_pos hreq, if_pos hreq.2]
    exact getDataLoop_takes h (toNat_pos hreq.1)
  · rw [if_neg hreq]
    cases buf with
    | false => exact hnone
    | true =>
      have hzero : expectedLen = 0 := Decidable.not_not.mp fun hne => hreq ⟨hne, rfl⟩
      rw [hzero]
      exact hnone

/-- The sum of the lengths is taken modulo `2 ^ 32`. -/
theorem mixerMusicSrcGetDataLen_mod (h : Unread list) :
    (mixerMusicSrcGetDataLen list).toNat = (pending list).elems.length % 2 ^ 32 := by
  have hfold (length : UInt32) :
      (list.foldl (fun length node => length + (node.len - node.usePos)) length).toNat =
        (length.toNat + (pending list).elems.length) % 2 ^ 32 := by
    induction list generalizing length with
    | nil => exact (Nat.mod_eq_of_lt (UInt32.toNat_lt length)).symm
    | cons node list ih =>
      have hcount := count_toNat (h node List.mem_cons_self)
      rw [List.foldl_cons, ih h.tail, UInt32.toNat_add, hcount, pending_cons, Chunks.elems_cons,
        List.length_append, ← Nat.add_assoc, Nat.mod_add_mod]
  exact (hfold 0).trans (by rw [UInt32.toNat_zero, Nat.zero_add])

theorem mixerMusicSrcGetDataLen_toNat (h : Unread list)
    (hlt : (pending list).elems.length < 2 ^ 32) :
    (mixerMusicSrcGetDataLen list).toNat = (pending list).elems.length := by
  rw [mixerMusicSrcGetDataLen_mod h, Nat.mod_eq_of_lt hlt]

end Node

section Run

variable {P : MemPool} {list : SrcList P}

/-- The nodes hold different blocks of the pool, none more than its block. -/
structure Holds (list : SrcList P) : Prop where
  unread : Unread list
  nodup : (pending list).owners.Nodup
  fits : (pending list).Fits P.blkSize

/-- What is in the list fits the pool. -/
theorem Holds.elems_lt (h : Holds list) : (pending list).elems.length < 2 ^ 32 := by
  have hcount : list.length ≤ P.blkCount := by
    simpa [Chunks.owners, pending] using List.Nodup.length_le_card h.nodup
  have hsum := h.fits.elems_le
  have hmul := Nat.mul_le_mul_right P.blkSize hcount
  rw [pending, List.length_map] at hsum
  exact Nat.lt_of_le_of_lt (Nat.le_trans hsum hmul) P.size_lt

theorem holds_nil : Holds (P := P) [] := ⟨nofun, .nil, nofun⟩

theorem Holds.taken {n : Nat} {r : GotData (Fin P.blkCount) UInt8} (h : Holds list)
    (hr : Takes n list r) : Holds r.list where
  unread := hr.unread
  nodup := by
    have howners := (pending list).owners_pop n
    rw [hr.left]
    exact (List.nodup_append.mp (howners ▸ h.nodup)).2.1
  fits := hr.left ▸ h.fits.pop n

/-- A run as the owners of the blocks see it: a call of `mixer_music_src_in` that gives its buffer
back has put nothing in the list. -/
def seen : SrcCall P × SrcAnswer P →
    Chunks.Call (Fin P.blkCount) UInt8 × Chunks.Answer (Fin P.blkCount) UInt8
  | (.srcIn b _, .srcIn []) => (.push b.buf b.data, .done)
  | (.getData buf n, .got copied freed _) =>
    (.pop (if buf then n.toNat else 0), .popped copied freed)
  | (.flush, .flushed freed) => (.flush, .flushed freed)
  | (_, .dataLen length) => (.size, .size length.toNat)
  | _ => (.idle, .done)

/-- What a caller is told besides: a refused buffer is given back, and the length returned is
that of the bytes copied. -/
def Answered : SrcCall P × SrcAnswer P → Prop
  | (.srcIn b malloc, .srcIn freed) => freed = if b.data ≠ [] ∧ malloc then [] else [b.buf]
  | (.getData .., .got copied _ length) => length.toNat = copied.length
  | _ => True

theorem srcIn_spec (h : Holds list) {b : PoolBuf P} (hb : b.buf ∉ list.map MusicSrcNode.buf)
    (malloc : Bool) {r} (hr : mixerMusicSrcIn true malloc b.toMusicBuf list = r) :
    if b.data ≠ [] ∧ malloc then Holds r.1 ∧ pending r.1 = pending list ++ [(b.buf, b.data)] ∧
      r.2 = []
    else r = (list, [b.buf]) := by
  subst hr
  unfold mixerMusicSrcIn
  by_cases hempty : b.data = []
  · have hlen : b.toMusicBuf.data.length = 0 := List.length_eq_zero_iff.mpr hempty
    rw [if_neg (fun hreq => hreq.1 hempty), if_pos (.inl hlen)]
    rfl
  · have hlen : ¬(b.toMusicBuf.data.length = 0 ∨ (!true) = true) := fun h0 =>
      hempty (List.length_eq_zero_iff.mp (h0.resolve_right nofun))
    rw [if_neg hlen]
    cases malloc with
    | false =>
      rw [if_neg (fun hreq => Bool.false_ne_true hreq.2)]
      rfl
    | true =>
      have hpending : pending (list ++ [b.toMusicBuf.node]) = pending list ++ [(b.buf, b.data)] :=
        pending_node ..
      rw [if_pos ⟨hempty, rfl⟩]
      refine ⟨⟨h.unread.concat hempty, ?_, ?_⟩, hpending, rfl⟩
      · change (pending (list ++ [b.toMusicBuf.node])).owners.Nodup
        rw [hpending, Chunks.owners_append, List.nodup_append]
        refine ⟨h.nodup, List.nodup_singleton _, fun i hi j hj heq => hb ?_⟩
        have hj : j = b.buf := List.mem_singleton.mp hj
        rw [← owners_pending, ← hj, ← heq]
        exact hi
      · change (pending (list ++ [b.toMusicBuf.node])).Fits P.blkSize
        rw [hpending]
        exact h.fits.append b.length_le

theorem srcStep_simulated (h : Holds list) {c t o} (hs : srcStep list c = some (t, o)) :
    Holds t ∧ (pending list).step (seen (c, o)).1 = (pending t, (seen (c, o)).2) ∧
      Answered (c, o) := by
  cases c with
  | srcIn b malloc =>
    simp only [srcStep, Option.ite_none_left_eq_some, Option.some.injEq, Prod.mk.injEq] at hs
    obtain ⟨hb, rfl, rfl⟩ := hs
    have hspec := srcIn_spec h hb malloc rfl
    split at hspec
    case isTrue hreq =>
      obtain ⟨hholds, hpending, hfreed⟩ := hspec
      refine ⟨hholds, ?_, ?_⟩
      · rw [hfreed, hpending]
        rfl
      · rw [Answered, hfreed, if_pos hreq]
    case isFalse hreq =>
      rw [hspec]
      exact ⟨h, rfl, (if_neg hreq).symm⟩
  | getData buf n =>
    simp only [srcStep, Option.some.injEq, Prod.mk.injEq] at hs
    obtain ⟨rfl, rfl⟩ := hs
    have htakes := mixerMusicSrcGetData_takes h.unread buf n
    refine ⟨h.taken htakes, ?_, ?_⟩
    · rw [seen, Chunks.step, htakes.left, htakes.copied, htakes.freed]
    · rw [Answered, htakes.length, htakes.copied, List.length_take]
  | flush =>
    simp only [srcStep, Option.some.injEq, Prod.mk.injEq] at hs
    obtain ⟨rfl, rfl⟩ := hs
    refine ⟨holds_nil, ?_, trivial⟩
    rw [seen, mixerMusicSrcFlush, Chunks.step, owners_pending]
    rfl
  | getDataLen =>
    simp only [srcStep, Option.some.injEq, Prod.mk.injEq] at hs
    obtain ⟨rfl, rfl⟩ := hs
    refine ⟨h, ?_, trivial⟩
    rw [seen, Chunks.step, mixerMusicSrcGetDataLen_toNat h.unread h.elems_lt]

/-- The music source as its users see it. -/
structure SrcLaw (h : Machine.History (SrcCall P) (SrcAnswer P)) (list : SrcList P) : Prop where
  /-- Each call does to the chunks what it should, and gives a block back with its last byte. -/
  chunks : (Chunks.machine (Fin P.blkCount) UInt8).Reaches (h.map seen) (pending list)
  answered : ∀ x ∈ h, Answered x
  unread : Unread list
  /-- The blocks taken in are given back in order, but for those in the list. -/
  ledger : (h.map seen).flatMap Chunks.pushedBy =
    (h.map seen).flatMap Chunks.finishedBy ++ list.map MusicSrcNode.buf
  /-- Since the last flush, the bytes come out as they went in. -/
  bytes : let calls := Fifo.sinceClear ((h.map seen).map Chunks.asFifo)
    Fifo.accepted calls = Fifo.delivered calls ++ (pending list).elems

theorem holds_of_reaches {h} (hr : (srcMachine P).Reaches h list) :
    Holds list ∧ (∀ x ∈ h, Answered x) ∧
      (Chunks.machine (Fin P.blkCount) UInt8).Reaches (h.map seen) (pending list) := by
  refine hr.invariant (fun h list => Holds list ∧ (∀ x ∈ h, Answered x) ∧
    (Chunks.machine (Fin P.blkCount) UInt8).Reaches (h.map seen) (pending list))
    ⟨holds_nil, nofun, .init⟩ ?_
  intro h list c t o ih _ hs
  obtain ⟨hholds, hanswered, hreaches⟩ := ih
  obtain ⟨hholds', hstep, hanswer⟩ := srcStep_simulated hholds hs
  refine ⟨hholds', fun x hx => ?_, ?_⟩
  · rcases List.mem_append.mp hx with hx | hx
    · exact hanswered x hx
    · exact List.mem_singleton.mp hx ▸ hanswer
  · rw [List.map_append]
    exact .step hreaches trivial (congrArg some hstep)

/-- Whatever is put in, read and flushed, in blocks and reads of any size: the music source of
the mixer is a queue of bytes, and each block goes back once. -/
theorem music_src_is_fifo {h} (hr : (srcMachine P).Reaches h list) : SrcLaw h list := by
  obtain ⟨hholds, hanswered, hreaches⟩ := holds_of_reaches hr
  refine ⟨hreaches, hanswered, hholds.unread, ?_, ?_⟩
  · rw [← owners_pending]
    exact Chunks.ledger hreaches
  · exact Fifo.conservation (Chunks.reaches_fifo hreaches (Nat.le_refl _))

def straddlingCalls : List (SrcCall ⟨2, 4, by decide⟩) :=
  [.srcIn ⟨0, [1, 2, 3], by decide⟩ true, .srcIn ⟨1, [4, 5], by decide⟩ true,
    .getData true 4, .getDataLen]

theorem music_src_is_fifo_straddling :
    ∃ h list, (srcMachine ⟨2, 4, by decide⟩).exec straddlingCalls = some (h, list) ∧
      SrcLaw h list := by
  obtain ⟨h, list, hx⟩ : ∃ h list, (srcMachine _).exec straddlingCalls = some (h, list) :=
    ⟨_, _, rfl⟩
  exact ⟨h, list, hx, music_src_is_fifo (Machine.reaches_of_exec hx)⟩

end Run

end BdkRtt.Audio.Mixer
