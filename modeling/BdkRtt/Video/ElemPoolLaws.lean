import BdkRtt.Video.ElemPool
import Mathlib.Data.List.Perm.Basic

namespace BdkRtt.Video.ElemPool

open Lib

section Accounts

/-- The packets put on the ready list, as they arrived. -/
def Answer.accepted : Answer → List Pkt
  | .queued pkt => pkt.toList
  | .frameEnded => []
  | .called _ => []

def accepted (h : Machine.History Event Answer) : List Pkt := h.flatMap fun x => x.2.accepted

/-- What `send_func` has seen: the packet it is working on, and those it took completely. -/
structure Sends where
  call : Option Pkt
  taken : List Pkt

def Sends.next (p : Sends) : Event × Answer → Sends
  | (.sent sendLen, .called pkt) =>
    { call := pkt
      taken := p.taken ++ (p.call.filter fun x => x.length = sendLen.toNat).toList }
  | (_, .called pkt) => { p with call := pkt }
  | (_, _) => p

def sends (h : Machine.History Event Answer) : Sends := h.foldl Sends.next ⟨none, []⟩

variable {h : Machine.History Event Answer} {e : Event} {o : Answer}

theorem accepted_concat : accepted (h ++ [(e, o)]) = accepted h ++ o.accepted := by
  simp [accepted]

theorem sends_concat : sends (h ++ [(e, o)]) = (sends h).next (e, o) := by
  simp [sends]

end Accounts

/-- The header and the data of a node together fit in an element. -/
def Setup.Fits (c : Setup) : Prop := c.pktHeaderSize.toNat + c.nodeLen.toNat ≤ tvideoRxnodeSize

instance (c : Setup) : Decidable c.Fits := inferInstanceAs (Decidable (_ ≤ _))

variable {c : Setup} {s t : TvideoPool} {elem i : Nat} {n : Node}

section Filling

theorem Setup.clip_le (newlen : UInt32) : (c.clip newlen).toNat ≤ c.nodeLen.toNat := by
  unfold Setup.clip
  split
  · exact Nat.le_refl _
  next h => exact UInt32.not_lt.mp h

theorem Setup.Fits.hdrSize (hc : c.Fits) :
    c.hdrSize.toNat + c.nodeLen.toNat ≤ tvideoRxnodeSize := by
  have hle : c.hdrSize.toNat ≤ c.pktHeaderSize.toNat := by
    simp only [Setup.hdrSize, UInt16.toNat_toUInt32, UInt32.toNat_toUInt16]
    exact Nat.mod_le ..
  unfold Setup.Fits at hc
  omega

/-- What a node writes lies in its element. -/
theorem Setup.fill_spec (hc : c.Fits) {pool : Mem UInt8} {len : UInt32}
    (hfill : c.fill s elem n = some (pool, len)) :
    len.toNat ≤ tvideoRxnodeSize ∧ ∀ k, k < bufStart elem ∨ bufStart elem + tvideoRxnodeSize ≤ k →
      pool k = s.pool k := by
  have hclip := c.clip_le n.newlen
  have hsize := hc.hdrSize
  have hcell (m : Mem UInt8) {j : Nat} {xs : List UInt8} (hj : bufStart elem ≤ j)
      (hxs : j + xs.length ≤ bufStart elem + tvideoRxnodeSize) {k : Nat}
      (hk : k < bufStart elem ∨ bufStart elem + tvideoRxnodeSize ≤ k) : m.write j xs k = m k := by
    rcases hk with hk | hk
    · exact Mem.write_apply_of_lt m xs (by omega)
    · exact Mem.write_apply_of_ge m (by omega)
  unfold Setup.fill at hfill
  split at hfill
  · simp only [Option.map_eq_some_iff, Prod.mk.injEq] at hfill
    obtain ⟨cnt, -, rfl, rfl⟩ := hfill
    refine ⟨?_, fun k hk => ?_⟩
    · rw [UInt32.toNat_add, Nat.mod_eq_of_lt] <;> simp only [tvideoRxnodeSize] at hsize ⊢ <;> omega
    · rw [hcell _ (Nat.le_add_right ..) (by rw [Mem.length_read]; omega) hk]
      split
      · exact hcell _ (Nat.le_refl _) (by rw [Mem.length_read]; omega) hk
      · rfl
  · simp only [Option.some.injEq, Prod.mk.injEq] at hfill
    obtain ⟨rfl, rfl⟩ := hfill
    exact ⟨by omega, fun k hk => hcell _ (Nat.le_refl _) (by rw [Mem.length_read]; omega) hk⟩

/-- A packet in another element is not touched. -/
theorem TvideoPool.pkt_eq_of_fill (hc : c.Fits) {pool : Mem UInt8} {len : UInt32}
    (hfill : c.fill s elem n = some (pool, len)) (hne : i ≠ elem)
    (hlen : (s.bufLen i).toNat ≤ tvideoRxnodeSize) (ht : t.pool = pool)
    (htlen : t.bufLen i = s.bufLen i) : t.pkt i = s.pkt i := by
  rw [TvideoPool.pkt, TvideoPool.pkt, ht, htlen]
  apply Mem.read_congr
  intro k hk hk'
  apply (Setup.fill_spec hc hfill).2
  rcases Nat.lt_or_gt_of_ne hne with h | h
  · left
    have := Nat.mul_le_mul_right tvideoRxnodeSize h
    rw [Nat.succ_mul] at this
    simp only [bufStart] at hk' ⊢
    omega
  · right
    have := Nat.mul_le_mul_right tvideoRxnodeSize h
    rw [Nat.succ_mul] at this
    simp only [bufStart] at hk ⊢
    omega

end Filling

section Polling

theorem TvideoPool.drain_eq (s : TvideoPool) (ready : List Nat) (h : s.ready = ready) :
    s.drain ready = { s with free := s.free ++ ready, ready := [] } := by
  induction ready generalizing s with
  | nil =>
    rw [TvideoPool.drain, List.append_nil, ← h]
  | cons elem ready ih =>
    rw [TvideoPool.drain, ih]
    · simp [TvideoPool.release]
    · simp [TvideoPool.release, h]

theorem tvideoPollHandler_of_sendFunc (hc : c.sendFunc = true) :
    tvideoPollHandler c s =
      ({ s with sending := s.ready.head? }, s.ready.head?.map s.pkt) := by
  rw [tvideoPollHandler, if_pos hc]

theorem tvideoPollHandler_of_null (hc : c.sendFunc = false) :
    tvideoPollHandler c s = ({ s with free := s.free ++ s.ready, ready := [] }, none) := by
  rw [tvideoPollHandler, hc, if_neg Bool.false_ne_true, s.drain_eq _ rfl]

theorem TvideoPool.release_perm (h : s.ready.head? = some elem) :
    ((s.release elem).free ++ (s.release elem).ready).Perm (s.free ++ s.ready) := by
  obtain ⟨rest, hrest⟩ := List.head?_eq_some_iff.mp h
  simp [TvideoPool.release, hrest]

theorem TvideoPool.pkts_of_head (h : s.ready.head? = some elem) :
    s.pkts = s.pkt elem :: (s.release elem).pkts := by
  obtain ⟨rest, hrest⟩ := List.head?_eq_some_iff.mp h
  rw [TvideoPool.pkts, TvideoPool.pkts, TvideoPool.release, hrest]
  rfl

end Polling

section Steps

/-- What a node does that finds a free element: it fills the first one. -/
structure Filled (c : Setup) (s t : TvideoPool) (n : Node) (elem : Nat) : Prop where
  free : s.free = elem :: t.free
  ready : t.ready = s.ready ++ [elem]
  fill : c.fill s elem n = some (t.pool, t.bufLen elem)
  bufLen : ∀ i, i ≠ elem → t.bufLen i = s.bufLen i
  sending : t.sending = s.sending

theorem tvideoRxHandler_cases {pkt : Option Pkt} (h : tvideoRxHandler c s n = some (t, pkt)) :
    (t = s ∧ pkt = none) ∨ ∃ elem, Filled c s t n elem ∧ pkt = some (t.pkt elem) := by
  unfold tvideoRxHandler at h
  split at h
  · cases h
    exact .inl ⟨rfl, rfl⟩
  · split at h
    next =>
      cases h
      exact .inl ⟨rfl, rfl⟩
    next elem free hfree =>
      obtain ⟨⟨pool, len⟩, hfill, heq⟩ := Option.map_eq_some_iff.mp h
      cases heq
      refine .inr ⟨elem, ⟨hfree, rfl, ?_, fun i hi => Function.update_of_ne hi .., rfl⟩, rfl⟩
      simp only [hfill, Function.update_self]

/-- Every element is in one of the lists, once; the thread has the head of the ready list;
what is on the ready list is what arrived and has not been taken, in the order of arrival. -/
structure PoolLaw (c : Setup) (arrived : List Pkt) (seen : Sends) (s : TvideoPool) : Prop where
  parts : (s.free ++ s.ready).Perm (List.range tvideoElems)
  bufLen : ∀ i, (s.bufLen i).toNat ≤ tvideoRxnodeSize
  head : ∀ elem, s.sending = some elem → s.ready.head? = some elem
  call : seen.call = s.sending.map s.pkt
  order : c.sendFunc = true → arrived = seen.taken ++ s.pkts
  null : c.sendFunc = false → s.sending = none

variable {arrived : List Pkt} {seen : Sends}

theorem PoolLaw.init (c : Setup) : PoolLaw c [] ⟨none, []⟩ tvideoPoolInit where
  parts := by simp [tvideoPoolInit]
  bufLen i := Nat.zero_le _
  head elem h := by cases h
  call := rfl
  order _ := rfl
  null _ := rfl

theorem PoolLaw.arrive (hc : c.Fits) (hl : PoolLaw c arrived seen s) {pkt : Option Pkt}
    (hrx : tvideoRxHandler c s n = some (t, pkt)) : PoolLaw c (arrived ++ pkt.toList) seen t := by
  rcases tvideoRxHandler_cases hrx with ⟨rfl, rfl⟩ | ⟨elem, hfilled, rfl⟩
  · rw [Option.toList_none, List.append_nil]
    exact hl
  have hnodup : (s.free ++ s.ready).Nodup := hl.parts.nodup_iff.mpr List.nodup_range
  have hkept : ∀ i ∈ s.ready, t.pkt i = s.pkt i := by
    intro i hi
    have hne : i ≠ elem := by
      rintro rfl
      have hmem : i ∈ s.free := hfilled.free ▸ List.mem_cons_self
      exact (List.nodup_append.mp hnodup).2.2 i hmem i hi rfl
    exact TvideoPool.pkt_eq_of_fill hc hfilled.fill hne (hl.bufLen i) rfl (hfilled.bufLen i hne)
  exact
    { parts := by
        have hperm : (t.free ++ t.ready).Perm (s.free ++ s.ready) := by
          rw [hfilled.free, hfilled.ready, ← List.append_assoc]
          exact List.perm_append_singleton ..
        exact hperm.trans hl.parts
      bufLen := by
        intro i
        rcases eq_or_ne i elem with rfl | hne
        · exact (Setup.fill_spec hc hfilled.fill).1
        · rw [hfilled.bufLen i hne]
          exact hl.bufLen i
      head := by
        intro i hi
        rw [hfilled.sending] at hi
        rw [hfilled.ready, List.head?_append, hl.head i hi, Option.some_or]
      call := by
        rw [hl.call, hfilled.sending]
        rcases hs : s.sending with - | i
        · rfl
        · rw [Option.map_some, Option.map_some, hkept i (List.mem_of_mem_head? (hl.head i hs))]
      order := by
        intro hf
        have hpkts : t.pkts = s.pkts ++ [t.pkt elem] := by
          rw [TvideoPool.pkts, hfilled.ready, List.map_append, List.map_congr_left hkept]
          rfl
        rw [hl.order hf, hpkts, List.append_assoc]
        rfl
      null := fun hf => hfilled.sending ▸ hl.null hf }

theorem PoolLaw.endFrame (hl : PoolLaw c arrived seen s) :
    PoolLaw c arrived seen (tvideoEndFrameHandler c s) := by
  unfold tvideoEndFrameHandler
  split
  · exact
      { parts := hl.parts
        bufLen := hl.bufLen
        head := hl.head
        call := hl.call
        order := hl.order
        null := hl.null }
  · exact hl

/-- The pick, from a state in which nothing is with `send_func`. -/
theorem PoolLaw.pick (hl : PoolLaw c arrived seen s) (hidle : s.sending = none) :
    PoolLaw c arrived { seen with call := (tvideoPollHandler c s).2 }
      (tvideoPollHandler c s).1 := by
  cases hf : c.sendFunc with
  | true =>
    rw [tvideoPollHandler_of_sendFunc hf]
    exact
      { parts := hl.parts
        bufLen := hl.bufLen
        head := fun elem h => h
        call := rfl
        order := hl.order
        null := fun h => absurd (hf ▸ h) Bool.noConfusion }
  | false =>
    rw [tvideoPollHandler_of_null hf]
    exact
      { parts := (List.append_nil _).symm ▸ hl.parts
        bufLen := hl.bufLen
        head := fun elem h => by cases hidle.symm.trans h
        call := by rw [hidle, Option.map_none]
        order := fun h => absurd (hf ▸ h) Bool.noConfusion
        null := hl.null }

/-- A packet that was taken completely leaves its place to the next one. -/
theorem PoolLaw.release (hl : PoolLaw c arrived seen s) (hs : s.sending = some elem) :
    PoolLaw c arrived ⟨none, seen.taken ++ [s.pkt elem]⟩
      { s.release elem with sending := none } where
  parts := (s.release_perm (hl.head elem hs)).trans hl.parts
  bufLen := hl.bufLen
  head _ h := by cases h
  call := rfl
  order hf := by
    rw [hl.order hf, s.pkts_of_head (hl.head elem hs), List.append_assoc]
    rfl
  null _ := rfl

theorem PoolLaw.answered (hl : PoolLaw c arrived seen s) (hs : s.sending = some elem)
    (sendLen : UInt32) :
    PoolLaw c arrived (seen.next (.sent sendLen, .called (tvideoSent c s elem sendLen).2))
      (tvideoSent c s elem sendLen).1 := by
  have hf : c.sendFunc = true := by
    by_contra hf
    rw [hl.null (Bool.not_eq_true _ ▸ hf)] at hs
    cases hs
  have hcall : seen.call = some (s.pkt elem) := by rw [hl.call, hs, Option.map_some]
  have hlen : (s.pkt elem).length = (s.bufLen elem).toNat := Mem.length_read ..
  unfold tvideoSent
  split
  next hne =>
    have hshort : ¬ (s.pkt elem).length = sendLen.toNat := by
      rw [hlen]
      exact fun h => hne (UInt32.toNat_inj.mp h.symm)
    have hseen : seen.next (.sent sendLen, .called none) = { seen with call := none } := by
      simp [Sends.next, hcall, hshort]
    rw [hseen]
    exact
      { hl with
        head := fun _ h => by cases h
        call := rfl
        null := fun _ => rfl }
  next heq =>
    have hwhole : (s.pkt elem).length = sendLen.toNat := by
      rw [hlen, Decidable.not_not.mp heq]
    have hpick := (hl.release hs).pick rfl
    rw [tvideoPollHandler_of_sendFunc hf] at hpick ⊢
    have hseen (pkt : Option Pkt) : seen.next (.sent sendLen, .called pkt) =
        ⟨pkt, seen.taken ++ [s.pkt elem]⟩ := by
      simp [Sends.next, hcall, hwhole]
    rw [hseen]
    exact hpick

variable {h : Machine.History Event Answer} {e : Event} {o : Answer}

theorem PoolLaw.step (hc : c.Fits) (hl : PoolLaw c (accepted h) (sends h) s)
    (hs : step c s e = some (t, o)) :
    PoolLaw c (accepted (h ++ [(e, o)])) (sends (h ++ [(e, o)])) t := by
  rw [accepted_concat, sends_concat]
  cases e with
  | nodeFull n =>
    obtain ⟨⟨t, pkt⟩, hrx, heq⟩ := Option.map_eq_some_iff.mp hs
    cases heq
    exact hl.arrive hc hrx
  | endFrame =>
    cases hs
    rw [Answer.accepted, List.append_nil]
    exact hl.endFrame
  | poll =>
    rw [ElemPool.step] at hs
    split at hs
    next hidle =>
      cases hs
      rw [Answer.accepted, List.append_nil]
      exact hl.pick hidle
    next => cases hs
  | sent sendLen =>
    obtain ⟨elem, hsending, heq⟩ := Option.map_eq_some_iff.mp hs
    cases heq
    rw [Answer.accepted, List.append_nil]
    exact hl.answered hsending sendLen

/-- A short send changes neither list nor any packet. -/
theorem tvideoSent_short (hs : s.sending = some elem) {sendLen : UInt32}
    (hne : sendLen ≠ s.bufLen elem) (hstep : ElemPool.step c s (.sent sendLen) = some (t, o)) :
    t = { s with sending := none } ∧ o = .called none := by
  rw [ElemPool.step, hs, Option.map_some, tvideoSent, if_pos hne] at hstep
  cases hstep
  exact ⟨rfl, rfl⟩

end Steps

/-- Whatever order the interrupts and the sends come in, the pool keeps its elements and hands
the packets on in the order of their arrival, each until it is taken completely. -/
theorem tvideo_keeps_law (hc : c.Fits) {h : Machine.History Event Answer}
    (hr : (tvideo c).Reaches h s) :
    PoolLaw c (accepted h) (sends h) s ∧
      ∀ elem sendLen t o, s.sending = some elem → sendLen ≠ s.bufLen elem →
        (tvideo c).step s (.sent sendLen) = some (t, o) → t = { s with sending := none } := by
  constructor
  · induction hr with
    | init => exact PoolLaw.init c
    | step _ _ hs ih => exact ih.step hc hs
  · intro elem sendLen t o hs hne hstep
    exact (tvideoSent_short hs hne hstep).1

def udpSetup : Setup where
  useHdr := true
  openType := .sccb
  sendType := .udp
  sendFunc := true
  addPktHeader := true
  pktHeaderSize := 4

def twoByteNode : Node where
  curptr k := UInt8.ofNat k
  newlen := 2
  isEof := 1
  frameLen := 2
  hdr _ _ := 7

/-- A node that comes while a packet is sent, a short send of that packet, and its repetition. -/
def interrupted : List Event :=
  [.nodeFull twoByteNode, .poll, .nodeFull twoByteNode, .sent 1, .poll, .sent 6]

theorem tvideo_keeps_law_interrupted : ∃ h s, (tvideo udpSetup).Reaches h s ∧
    (accepted h).length = 2 ∧ (sends h).taken = [[7, 7, 7, 7, 0, 1]] ∧ s.ready = [1] ∧
    PoolLaw udpSetup (accepted h) (sends h) s := by
  have hrun : ((tvideo udpSetup).exec interrupted).map
      (fun r => ((accepted r.1).length, (sends r.1).taken, r.2.ready)) =
        some (2, [[7, 7, 7, 7, 0, 1]], [1]) := by decide
  obtain ⟨⟨h, s⟩, hx, heq⟩ := Option.map_eq_some_iff.mp hrun
  simp only [Prod.mk.injEq] at heq
  have hr := Machine.reaches_of_exec hx
  exact ⟨h, s, hr, heq.1, heq.2.1, heq.2.2, (tvideo_keeps_law (by decide) hr).1⟩

end BdkRtt.Video.ElemPool
