import BdkRtt.Driver.Sdio
import Mathlib.Data.List.FinRange

namespace BdkRtt.Driver.Sdio

open Lib

def Queue.all : List Queue := [.freeNodes, .txDat, .txingList, .rxDat, .rxingList]

theorem Queue.nodup_all : Queue.all.Nodup := by decide

theorem Queue.mem_all (p : Queue) : p ∈ Queue.all := by cases p <;> decide

section Heap

/-- Each buffer has been freed once, or one node has it. -/
structure Heap (snode : NodeId → Node) (buffers : Nat) (freed : List Nat) : Prop where
  addr : ∀ n, (snode n).addr = (snode n).origAddr
  live : ∀ n b, (snode n).origAddr = some b → b < buffers ∧ b ∉ freed
  inj : ∀ n m b, (snode n).origAddr = some b → (snode m).origAddr = some b → n = m
  kept : ∀ b, b < buffers → b ∈ freed ∨ ∃ n, (snode n).origAddr = some b
  freed_lt : ∀ b ∈ freed, b < buffers
  nodup : freed.Nodup

variable {snode : NodeId → Node} {buffers : Nat} {freed : List Nat} {n : NodeId}

theorem Heap.malloc (h : Heap snode buffers freed) (hn : (snode n).origAddr = none)
    (length : UInt32) :
    Heap (Function.update snode n ⟨some buffers, some buffers, length⟩) (buffers + 1) freed where
  addr := (Function.forall_update_iff snode fun _ node => node.addr = node.origAddr).mpr
    ⟨rfl, fun m _ => h.addr m⟩
  live m b hb := by
    by_cases hm : m = n
    · subst hm
      rw [Function.update_self] at hb
      obtain rfl := Option.some.inj hb
      exact ⟨Nat.lt_succ_self _, fun hf => Nat.lt_irrefl _ (h.freed_lt _ hf)⟩
    · rw [Function.update_of_ne hm] at hb
      exact ⟨Nat.lt_succ_of_lt (h.live m b hb).1, (h.live m b hb).2⟩
  inj k m b hk hm := by
    by_cases hkn : k = n
    · subst hkn
      by_cases hmk : m = k
      · exact hmk.symm
      · rw [Function.update_self] at hk
        rw [Function.update_of_ne hmk] at hm
        obtain rfl := Option.some.inj hk
        exact absurd (h.live m _ hm).1 (Nat.lt_irrefl _)
    · rw [Function.update_of_ne hkn] at hk
      by_cases hmn : m = n
      · subst hmn
        rw [Function.update_self] at hm
        obtain rfl := Option.some.inj hm
        exact absurd (h.live k _ hk).1 (Nat.lt_irrefl _)
      · rw [Function.update_of_ne hmn] at hm
        exact h.inj k m b hk hm
  kept b hb := by
    rcases Nat.lt_succ_iff_lt_or_eq.mp hb with hlt | rfl
    · refine (h.kept b hlt).imp_right fun ⟨m, hm⟩ => ⟨m, ?_⟩
      rw [Function.update_of_ne fun heq => ?_]
      · exact hm
      · rw [heq, hn] at hm
        cases hm
    · exact .inr ⟨n, by rw [Function.update_self]⟩
  freed_lt b hb := Nat.lt_succ_of_lt (h.freed_lt b hb)
  nodup := h.nodup

theorem Heap.free (h : Heap snode buffers freed) (n : NodeId) :
    Heap (Function.update snode n ⟨none, none, 0⟩) buffers
      (freed ++ (snode n).origAddr.toList) where
  addr := (Function.forall_update_iff snode fun _ node => node.addr = node.origAddr).mpr
    ⟨rfl, fun m _ => h.addr m⟩
  live m b hb := by
    by_cases hm : m = n
    · subst hm
      rw [Function.update_self] at hb
      cases hb
    · rw [Function.update_of_ne hm] at hb
      refine ⟨(h.live m b hb).1, fun hmem => ?_⟩
      rcases List.mem_append.mp hmem with hf | hf
      · exact (h.live m b hb).2 hf
      · exact hm (h.inj m n b hb (Option.mem_toList.mp hf))
  inj k m b hk hm := by
    by_cases hkn : k = n
    · subst hkn
      rw [Function.update_self] at hk
      cases hk
    · by_cases hmn : m = n
      · subst hmn
        rw [Function.update_self] at hm
        cases hm
      · rw [Function.update_of_ne hkn] at hk
        rw [Function.update_of_ne hmn] at hm
        exact h.inj k m b hk hm
  kept b hb := by
    rcases h.kept b hb with hf | ⟨m, hm⟩
    · exact .inl (List.mem_append_left _ hf)
    · by_cases hmn : m = n
      · subst hmn
        exact .inl (List.mem_append_right _ (Option.mem_toList.mpr hm))
      · refine .inr ⟨m, ?_⟩
        rw [Function.update_of_ne hmn]
        exact hm
  freed_lt b hb := by
    rcases List.mem_append.mp hb with hf | hf
    · exact h.freed_lt b hf
    · exact (h.live n b (Option.mem_toList.mp hf)).1
  nodup := by
    have htail : (snode n).origAddr.toList.Nodup := by cases (snode n).origAddr <;> simp
    refine h.nodup.append htail fun b hf hb => ?_
    exact (h.live n b (Option.mem_toList.mp hb)).2 hf

end Heap

section Conserved

/-- The nodes `held` are in use by the code that is running; every other one is in one list or in
the hands of one driver. -/
structure Conserved (held : List NodeId) (queues : Queues Queue NodeId) (hands : List NodeId)
    (snode : NodeId → Node) (buffers : Nat) (freed : List Nat) : Prop where
  perm : (held ++ (queues.members Queue.all ++ hands)).Perm (List.finRange cellCount)
  fifo : queues.Fifo
  owns : ∀ n, (snode n).origAddr = none ↔ n ∈ queues.list .freeNodes
  heap : Heap snode buffers freed

abbrev State.Conserved (s : State) (held : List NodeId) : Prop :=
  Sdio.Conserved held s.queues s.hands s.snode s.buffers s.freed

variable {s t : State} {held : List NodeId} {n : NodeId} {p : Queue}

theorem nodup_held (h : s.Conserved held) :
    (held ++ (s.queues.members Queue.all ++ s.hands)).Nodup :=
  h.perm.nodup_iff.mpr (List.nodup_finRange _)

/-- A node that is held is not in a list. -/
theorem not_mem_of_held (h : s.Conserved (n :: held)) : n ∉ s.queues.list p := by
  intro hmem
  refine (List.nodup_cons.mp (nodup_held h)).1 (List.mem_append_right _ ?_)
  exact List.mem_append_left _ (Queues.mem_members (Queue.mem_all p) hmem)

theorem suPopNode_eq_some (hs : s.suPopNode p = some (n, t)) :
    ∃ r, s.queues.pop p = some (n, r) ∧ t = { s with queues := r } := by
  obtain ⟨⟨m, r⟩, hpop, heq⟩ := Option.map_eq_some_iff.mp hs
  cases heq
  exact ⟨r, hpop, rfl⟩

theorem suPopNode_eq_none : s.suPopNode p = none ↔ s.queues.list p = [] := by
  rw [State.suPopNode, Option.map_eq_none_iff, Queues.pop_eq_none]

theorem Conserved.pop (h : s.Conserved held) (hs : s.suPopNode p = some (n, t))
    (hp : p ≠ .freeNodes) : t.Conserved (n :: held) := by
  obtain ⟨r, hpop, rfl⟩ := suPopNode_eq_some hs
  refine ⟨?_, h.fifo.pop hpop, fun m => ?_, h.heap⟩
  · refine List.Perm.trans ?_ h.perm
    have hmem := Queues.members_pop Queue.nodup_all (Queue.mem_all p) hpop
    refine List.perm_middle.symm.trans (List.Perm.append_left held ?_)
    exact hmem.append_right s.hands
  · rw [Queues.list_pop_of_ne hpop hp.symm]
    exact h.owns m

theorem Conserved.push (h : s.Conserved (n :: held)) (hp : p ≠ .freeNodes) :
    (s.suPushNode p n).Conserved held := by
  refine ⟨?_, h.fifo.push, fun m => ?_, h.heap⟩
  · refine List.Perm.trans ?_ h.perm
    have hmem := Queues.members_push (q := s.queues) (n := n) Queue.nodup_all (Queue.mem_all p)
    refine List.Perm.trans ?_ List.perm_middle
    exact (hmem.append_right s.hands).append_left held
  · change _ ↔ m ∈ (s.queues.push p n).list .freeNodes
    rw [Queues.list_push_of_ne hp.symm]
    exact h.owns m

/-- A driver is handed the node. -/
theorem Conserved.hand (h : s.Conserved (n :: held)) :
    { s with hands := s.hands ++ [n] }.Conserved held := by
  refine ⟨List.Perm.trans ?_ h.perm, h.fifo, h.owns, h.heap⟩
  have hhands : (s.hands ++ [n]).Perm (n :: s.hands) := List.perm_append_singleton ..
  refine (List.Perm.append_left held (hhands.append_left _)).trans ?_
  exact (List.Perm.append_left held List.perm_middle).trans List.perm_middle

theorem Conserved.unhand (h : s.Conserved held) (hn : n ∈ s.hands) :
    { s with hands := s.hands.erase n }.Conserved (n :: held) := by
  refine ⟨List.Perm.trans ?_ h.perm, h.fifo, h.owns, h.heap⟩
  refine List.perm_middle.symm.trans (List.Perm.append_left held ?_)
  refine List.perm_middle.symm.trans (List.Perm.append_left _ ?_)
  exact (List.perm_cons_erase hn).symm

theorem Conserved.free (h : s.Conserved (n :: held)) : (s.sdioFreeValidNode n).Conserved held := by
  refine ⟨?_, h.fifo.push, fun m => ?_, h.heap.free n⟩
  · refine List.Perm.trans ?_ h.perm
    have hmem := Queues.members_push (q := s.queues) (n := n) Queue.nodup_all
      (Queue.mem_all .freeNodes)
    refine List.Perm.trans ?_ List.perm_middle
    exact (hmem.append_right s.hands).append_left held
  · change (Function.update s.snode n ⟨none, none, 0⟩ m).origAddr = none ↔
      m ∈ (s.queues.push .freeNodes n).list .freeNodes
    rw [Queues.list_push_self, List.mem_append, List.mem_singleton, ← h.owns m]
    by_cases hm : m = n
    · subst hm
      rw [Function.update_self]
      exact ⟨fun _ => .inr rfl, fun _ => rfl⟩
    · rw [Function.update_of_ne hm]
      exact ⟨.inl, fun hor => hor.resolve_right hm⟩

/-- `t` differs from `s` at most in the buffers and in `free_nodes`. -/
structure Kept (s t : State) : Prop where
  eq : t = { s with queues := t.queues, snode := t.snode, buffers := t.buffers, freed := t.freed }
  list : ∀ p, p ≠ .freeNodes → t.queues.list p = s.queues.list p
  popped : ∀ p, p ≠ .freeNodes → t.queues.popped p = s.queues.popped p

theorem Kept.refl (s : State) : Kept s s := ⟨rfl, fun _ _ => rfl, fun _ _ => rfl⟩

theorem Kept.trans {u : State} (h : Kept s t) (h' : Kept t u) : Kept s u where
  eq := by
    rw [h'.eq, h.eq]
  list p hp := (h'.list p hp).trans (h.list p hp)
  popped p hp := (h'.popped p hp).trans (h.popped p hp)

theorem kept_free (s : State) (n : NodeId) : Kept s (s.sdioFreeValidNode n) where
  eq := rfl
  list _ hp := Queues.list_push_of_ne hp
  popped _ _ := rfl

/-- What `sdio_alloc_valid_node` does. -/
theorem Conserved.alloc (h : s.Conserved held) (size : UInt32) (malloc : Bool) :
    (∃ t, s.sdioAllocValidNode size malloc = (none, t) ∧ t.Conserved held ∧ Kept s t) ∨
      ∃ n t, s.sdioAllocValidNode size malloc = (some n, t) ∧ t.Conserved (n :: held) ∧
        Kept s t ∧ (t.snode n).length = size := by
  rw [State.sdioAllocValidNode]
  split
  next => exact .inl ⟨s, rfl, h, .refl s⟩
  next =>
    cases hpop : s.suPopNode .freeNodes with
    | none => exact .inl ⟨s, rfl, h, .refl s⟩
    | some x =>
      obtain ⟨n, u⟩ := x
      obtain ⟨r, hr, rfl⟩ := suPopNode_eq_some hpop
      have hlist : ∀ p, p ≠ .freeNodes → r.list p = s.queues.list p :=
        fun p hp => Queues.list_pop_of_ne hr hp
      have hpopped : ∀ p, p ≠ .freeNodes → r.popped p = s.queues.popped p := fun p hp => by
        obtain ⟨rest, -, -, -, heq⟩ := Queues.pop_eq_some hr
        rw [heq, Function.update_of_ne hp]
      have hmem := Queues.members_pop Queue.nodup_all (Queue.mem_all .freeNodes) hr
      have hperm : (n :: held ++ (r.members Queue.all ++ s.hands)).Perm
          (List.finRange cellCount) := by
        refine List.Perm.trans ?_ h.perm
        refine List.perm_middle.symm.trans (List.Perm.append_left held ?_)
        exact hmem.append_right s.hands
      have hfree := Queues.list_pop_self hr
      have hnone : (s.snode n).origAddr = none := by
        rw [h.owns, hfree]
        exact List.mem_cons_self ..
      cases malloc with
      | false =>
        refine .inl ⟨_, rfl, ⟨?_, (h.fifo.pop hr).push, fun m => ?_, h.heap⟩, rfl, fun p hp => ?_,
          hpopped⟩
        · have hback := Queues.members_push (q := r) (n := n) Queue.nodup_all
            (Queue.mem_all .freeNodes)
          refine List.Perm.trans ?_ hperm
          refine List.Perm.trans ?_ List.perm_middle
          exact (hback.append_right s.hands).append_left held
        · change (s.snode m).origAddr = none ↔ m ∈ (r.push .freeNodes n).list .freeNodes
          rw [Queues.list_push_self, h.owns, hfree]
          exact (List.perm_append_singleton ..).symm.mem_iff
        · exact (Queues.list_push_of_ne hp).trans (hlist p hp)
      | true =>
        refine .inr ⟨n, _, rfl, ⟨hperm, h.fifo.pop hr, fun m => ?_, h.heap.malloc hnone size⟩,
          ⟨rfl, hlist, hpopped⟩, ?_⟩
        · change (Function.update s.snode n ⟨some s.buffers, some s.buffers, size⟩ m).origAddr =
            none ↔ m ∈ r.list .freeNodes
          by_cases hm : m = n
          · subst hm
            have hout : m ∉ r.list .freeNodes := fun hin =>
              (List.nodup_cons.mp (hperm.nodup_iff.mpr (List.nodup_finRange _))).1
                (List.mem_append_right _ (List.mem_append_left _
                  (Queues.mem_members (Queue.mem_all .freeNodes) hin)))
            rw [Function.update_self]
            exact ⟨nofun, fun hin => absurd hin hout⟩
          · rw [Function.update_of_ne hm, h.owns, hfree, List.mem_cons]
            exact ⟨fun hor => hor.resolve_left hm, .inr⟩
        · change (Function.update s.snode n ⟨some s.buffers, some s.buffers, size⟩ n).length = size
          rw [Function.update_self]

end Conserved

section Lines

/-- What holds of the lists between two steps. -/
structure Lines (s : State) : Prop where
  taken : s.taken = s.sent ++ s.queues.list .txingList
  order : s.taken.Sublist (s.queues.popped .txDat)
  tx : (s.queues.list .txingList).length ≤ 1
  rx : (s.queues.list .rxingList).length ≤ 1
  tcLen : s.halted = false → s.queues.list .txingList = [] → s.tcLen = 0

/-- `t` has the sending side of `s`. -/
structure TxKept (s t : State) : Prop where
  list : t.queues.list .txingList = s.queues.list .txingList
  popped : (s.queues.popped .txDat).Sublist (t.queues.popped .txDat)
  taken : t.taken = s.taken
  sent : t.sent = s.sent
  tcLen : t.tcLen = s.tcLen

variable {s t : State} {held : List NodeId} {n : NodeId} {p : Queue}

theorem TxKept.trans {u : State} (h : TxKept s t) (h' : TxKept t u) : TxKept s u where
  list := h'.list.trans h.list
  popped := h.popped.trans h'.popped
  taken := h'.taken.trans h.taken
  sent := h'.sent.trans h.sent
  tcLen := h'.tcLen.trans h.tcLen

theorem Kept.tx (h : Kept s t) : TxKept s t where
  list := h.list .txingList nofun
  popped := (h.popped .txDat nofun).symm ▸ .refl _
  taken := (congrArg State.taken h.eq :)
  sent := (congrArg State.sent h.eq :)
  tcLen := (congrArg State.tcLen h.eq :)

theorem txKept_pop (hs : s.suPopNode p = some (n, t)) (hp : p ≠ .txingList) : TxKept s t := by
  obtain ⟨r, hr, rfl⟩ := suPopNode_eq_some hs
  refine ⟨Queues.list_pop_of_ne hr hp.symm, ?_, rfl, rfl, rfl⟩
  obtain ⟨rest, -, -, -, heq⟩ := Queues.pop_eq_some hr
  change (s.queues.popped .txDat).Sublist (r.popped .txDat)
  rw [heq, Function.update_apply]
  split
  next heq => exact heq ▸ List.sublist_append_left ..
  next => exact .refl _

theorem txKept_push (hp : p ≠ .txingList) : TxKept s (s.suPushNode p n) :=
  ⟨Queues.list_push_of_ne hp.symm, .refl _, rfl, rfl, rfl⟩

/-- A step of the receiving side. -/
theorem Lines.rxStep (h : Lines s) (hrun : s.halted = false) (htx : TxKept s t)
    (hrx : (t.queues.list .rxingList).length ≤ 1) : Lines t where
  taken := by rw [htx.taken, htx.sent, htx.list, h.taken]
  order := htx.taken ▸ h.order.trans htx.popped
  tx := htx.list ▸ h.tx
  rx := hrx
  tcLen _ hnil := by
    rw [htx.tcLen]
    exact h.tcLen hrun (htx.list ▸ hnil)

/-- `t` has the lists and the buffers of `s`. -/
structure Same (s t : State) : Prop where
  queues : t.queues = s.queues
  hands : t.hands = s.hands
  snode : t.snode = s.snode
  buffers : t.buffers = s.buffers
  freed : t.freed = s.freed
  taken : t.taken = s.taken
  sent : t.sent = s.sent
  tcLen : t.tcLen = s.tcLen

theorem Same.refl (s : State) : Same s s := ⟨rfl, rfl, rfl, rfl, rfl, rfl, rfl, rfl⟩

theorem Same.trans {u : State} (h : Same s t) (h' : Same t u) : Same s u :=
  ⟨h'.queues.trans h.queues, h'.hands.trans h.hands, h'.snode.trans h.snode,
    h'.buffers.trans h.buffers, h'.freed.trans h.freed, h'.taken.trans h.taken,
    h'.sent.trans h.sent, h'.tcLen.trans h.tcLen⟩

theorem Same.conserved (hs : Same s t) (h : s.Conserved held) : t.Conserved held := by
  rw [State.Conserved, hs.queues, hs.hands, hs.snode, hs.buffers, hs.freed]
  exact h

theorem Same.tx (h : Same s t) : TxKept s t :=
  ⟨by rw [h.queues], by rw [h.queues], h.taken, h.sent, h.tcLen⟩

theorem Same.lines (h : Same s t) (hl : Lines s) (hrun : s.halted = false) : Lines t :=
  hl.rxStep hrun h.tx (h.queues ▸ hl.rx)

/-- A list that holds one node at most is empty after a pop. -/
theorem list_pop_nil (hs : s.suPopNode p = some (n, t)) (hone : (s.queues.list p).length ≤ 1) :
    s.queues.list p = [n] ∧ t.queues.list p = [] := by
  obtain ⟨r, hr, rfl⟩ := suPopNode_eq_some hs
  have hlist := Queues.list_pop_self hr
  rw [hlist] at hone
  have hnil : r.list p = [] := List.length_eq_zero_iff.mp (by simpa using hone)
  exact ⟨by rw [hlist, hnil], hnil⟩

end Lines

section Receive

variable {s t : State} {n : NodeId}

/-- The node for `OPC_WR_DTCM` is in no list, and none is being received besides it. -/
theorem rxNode_spec (h : s.Conserved []) (hrx : (s.queues.list .rxingList).length ≤ 1) (c : Cmd)
    (malloc : Bool) : ∃ o t, s.rxNode c malloc = (o, t) ∧ t.Conserved o.toList ∧ TxKept s t ∧
      t.queues.list .rxingList = [] ∧ t.halted = s.halted := by
  rw [State.rxNode]
  cases hpop : s.suPopNode .rxingList with
  | none =>
    have hnil := suPopNode_eq_none.mp hpop
    obtain ⟨t, heq, ht, hk⟩ | ⟨n, t, heq, ht, hk, -⟩ := h.alloc (mSize c.totalSize) malloc
    · exact ⟨none, t, heq, ht, hk.tx, (hk.list .rxingList nofun).trans hnil,
        (congrArg State.halted hk.eq :)⟩
    · exact ⟨some n, t, heq, ht, hk.tx, (hk.list .rxingList nofun).trans hnil,
        (congrArg State.halted hk.eq :)⟩
  | some x =>
    obtain ⟨n, u⟩ := x
    have hu := h.pop hpop nofun
    have htx := txKept_pop hpop nofun
    have hnil := (list_pop_nil hpop hrx).2
    have hhalted : u.halted = s.halted := by
      obtain ⟨r, -, rfl⟩ := suPopNode_eq_some hpop
      rfl
    dsimp only
    split
    next =>
      have hfree := kept_free u n
      obtain ⟨t, heq, ht, hk⟩ | ⟨m, t, heq, ht, hk, -⟩ := hu.free.alloc (mSize c.totalSize) malloc
      · rw [heq]
        have hkept := hfree.trans hk
        exact ⟨none, { t with rxSeq := c.seq }, rfl, ht, htx.trans ⟨hkept.tx.list, hkept.tx.popped,
          hkept.tx.taken, hkept.tx.sent, hkept.tx.tcLen⟩, (hkept.list .rxingList nofun).trans hnil,
          (congrArg State.halted hkept.eq :).trans hhalted⟩
      · rw [heq]
        have hkept := hfree.trans hk
        exact ⟨some m, { t with rxSeq := c.seq }, rfl, ht, htx.trans ⟨hkept.tx.list,
          hkept.tx.popped, hkept.tx.taken, hkept.tx.sent, hkept.tx.tcLen⟩,
          (hkept.list .rxingList nofun).trans hnil,
          (congrArg State.halted hkept.eq :).trans hhalted⟩
    next => exact ⟨some n, u, rfl, hu, htx, hnil, hhalted⟩

theorem same_checkSeq (s : State) (c : Cmd) : Same s (s.checkSeq c) := by
  rw [State.checkSeq]
  split
  next => exact ⟨rfl, rfl, rfl, rfl, rfl, rfl, rfl, rfl⟩
  next => exact .refl s

theorem same_checkStart (s : State) (c : Cmd) : Same s (s.checkStart c) := by
  rw [State.checkStart]
  split
  next => exact ⟨rfl, rfl, rfl, rfl, rfl, rfl, rfl, rfl⟩
  next => exact .refl s

theorem same_sdmaStartRx (s : State) (n : NodeId) (offset len : UInt32) :
    Same s (s.sdmaStartRx n offset len) := by
  rw [State.sdmaStartRx]
  dsimp only
  split <;> exact ⟨rfl, rfl, rfl, rfl, rfl, rfl, rfl, rfl⟩

/-- What `OPC_WR_DTCM` does with the node. -/
theorem startWrDtcm_spec (c : Cmd) {o : Option NodeId} (h : s.Conserved o.toList) :
    (s.startWrDtcm c o).Conserved [] ∧ TxKept s (s.startWrDtcm c o) ∧
      (s.startWrDtcm c o).queues.list .rxingList = s.queues.list .rxingList ++ o.toList := by
  cases o with
  | none => exact ⟨h, ⟨rfl, .refl _, rfl, rfl, rfl⟩, (List.append_nil _).symm⟩
  | some n =>
    have hpush : ({ s with rxStatus := rxNodeOk, rxTransactionLen := c.dataLen.toUInt32 }
        |>.suPushNode .rxingList n).Conserved [] := Conserved.push h nofun
    have hsame := same_sdmaStartRx
      ({ s with rxStatus := rxNodeOk, rxTransactionLen := c.dataLen.toUInt32 }
        |>.suPushNode .rxingList n) n s.rcLen c.dataLen.toUInt32
    refine ⟨hsame.conserved hpush, ?_, ?_⟩
    · have htx : TxKept s ({ s with rxStatus := rxNodeOk, rxTransactionLen := c.dataLen.toUInt32 }
          |>.suPushNode .rxingList n) := ⟨Queues.list_push_of_ne nofun, .refl _, rfl, rfl, rfl⟩
      exact htx.trans hsame.tx
    · have hq : (s.startWrDtcm c (some n)).queues = s.queues.push .rxingList n := hsame.queues
      rw [hq]
      exact Queues.list_push_self

theorem wrDtcm_spec (h : s.Conserved []) (hl : Lines s) (hrun : s.halted = false) (c : Cmd)
    (malloc : Bool) : (s.wrDtcm c malloc).Conserved [] ∧ Lines (s.wrDtcm c malloc) := by
  have hcount : ¬ 2 ≤ (s.queues.list .rxingList).length := Nat.not_le.mpr (Nat.lt_succ_of_le hl.rx)
  obtain ⟨o, t, ht, hcons, htx, hnil, -⟩ :=
    rxNode_spec (s := { s with rxLen := c.totalSize.toUInt32 }) h hl.rx c malloc
  have hsame := (same_checkSeq t c).trans (same_checkStart (t.checkSeq c) c)
  obtain ⟨hcons', htx', hlist⟩ := startWrDtcm_spec c (hsame.conserved hcons)
  have heq : s.wrDtcm c malloc = ((t.checkSeq c).checkStart c).startWrDtcm c o := by
    rw [State.wrDtcm]
    change (if 2 ≤ (s.queues.list .rxingList).length then _ else _) = _
    rw [if_neg hcount, ht]
  rw [heq]
  have hstart : TxKept s { s with rxLen := c.totalSize.toUInt32 } :=
    ⟨rfl, .refl _, rfl, rfl, rfl⟩
  refine ⟨hcons', hl.rxStep hrun (hstart.trans (htx.trans (hsame.tx.trans htx'))) ?_⟩
  rw [hlist, hsame.queues, hnil]
  cases o <;> simp

theorem sdioRxCb_spec (h : s.Conserved []) (hl : Lines s) (hrun : s.halted = false)
    (hd : FrameHdr) : (s.sdioRxCb hd).Conserved [] ∧ Lines (s.sdioRxCb hd) := by
  rw [State.sdioRxCb]
  cases hpop : s.suPopNode .rxingList with
  | none =>
    have hsame : Same s { s with rxStatus := rxNodeOk } := ⟨rfl, rfl, rfl, rfl, rfl, rfl, rfl, rfl⟩
    exact ⟨h, hsame.lines hl hrun⟩
  | some x =>
    obtain ⟨n, u⟩ := x
    have hu := h.pop hpop nofun
    have htx := txKept_pop hpop nofun
    have hnil := (list_pop_nil hpop hl.rx).2
    dsimp only
    split
    next =>
      split
      next =>
        have hkept := (kept_free u n).tx
        refine ⟨hu.free, hl.rxStep hrun (htx.trans ⟨hkept.list, hkept.popped, rfl, rfl, rfl⟩) ?_⟩
        change ((u.queues.push .freeNodes n).list .rxingList).length ≤ 1
        rw [Queues.list_push_of_ne (by decide : Queue.rxingList ≠ .freeNodes), hnil]
        exact Nat.zero_le 1
      next =>
        have hpush := hu.push (p := .rxDat) nofun
        have hrest : TxKept u (u.suPushNode .rxDat n) := txKept_push nofun
        have hlen : ((u.queues.push .rxDat n).list .rxingList).length ≤ 1 := by
          rw [Queues.list_push_of_ne (by decide : Queue.rxingList ≠ .rxDat), hnil]
          exact Nat.zero_le 1
        split <;>
          exact ⟨hpush, hl.rxStep hrun
            (htx.trans ⟨hrest.list, hrest.popped, rfl, rfl, rfl⟩) hlen⟩
    next =>
      have hrest : TxKept u (u.suPushNode .rxingList n) := txKept_push nofun
      refine ⟨hu.push (p := .rxingList) nofun, hl.rxStep hrun
        (htx.trans ⟨hrest.list, hrest.popped, rfl, rfl, rfl⟩) ?_⟩
      change ((u.queues.push .rxingList n).list .rxingList).length ≤ 1
      rw [Queues.list_push_self, hnil]
      exact Nat.le_refl 1

end Receive

section Send

variable {s t : State} {n : NodeId}

theorem same_sdmaStartTx (s : State) (access : Access) (len : UInt32) :
    Same s (s.sdmaStartTx access len) := by
  rw [State.sdmaStartTx]
  dsimp only
  split <;> exact ⟨rfl, rfl, rfl, rfl, rfl, rfl, rfl, rfl⟩

/-- The last part of `OPC_RD_DTCM` puts the node on `txing_list`. -/
theorem startRdDtcm_spec (h : s.Conserved [n]) :
    (s.startRdDtcm n).Conserved [] ∧ (s.startRdDtcm n).queues = s.queues.push .txingList n ∧
      (s.startRdDtcm n).taken = s.taken ∧ (s.startRdDtcm n).sent = s.sent := by
  have hpush : ({ s with txTransactionLen := min blockLen (s.txLen - s.tHdlLen) }
      |>.suPushNode .txingList n).Conserved [] := Conserved.push h nofun
  have hsame := same_sdmaStartTx ({ s with txTransactionLen := min blockLen (s.txLen - s.tHdlLen) }
    |>.suPushNode .txingList n)
    (.txDma s.tcLen (min blockLen (s.txLen - s.tHdlLen)) (s.snode n).length)
    (min blockLen (s.txLen - s.tHdlLen))
  exact ⟨hsame.conserved hpush, hsame.queues, hsame.taken, hsame.sent⟩

/-- The node that is being sent is the last one taken. -/
theorem lines_of_sending (hqueues : t.queues = s.queues.push .txingList n)
    (hnil : s.queues.list .txingList = []) (htaken : t.taken = t.sent ++ [n])
    (horder : t.taken.Sublist (s.queues.popped .txDat))
    (hrx : (s.queues.list .rxingList).length ≤ 1) : Lines t where
  taken := by
    rw [htaken, hqueues, Queues.list_push_self, hnil]
    rfl
  order := by
    rw [hqueues]
    exact horder
  tx := by
    rw [hqueues, Queues.list_push_self, hnil]
    exact Nat.le_refl 1
  rx := by
    rw [hqueues, Queues.list_push_of_ne (by decide : Queue.rxingList ≠ .txingList)]
    exact hrx
  tcLen _ hempty := by
    rw [hqueues, Queues.list_push_self, hnil] at hempty
    cases hempty

theorem same_checkTxValid (s : State) :
    Same s s.checkTxValid ∧ s.checkTxValid.halted = s.halted := by
  rw [State.checkTxValid]
  split
  next => exact ⟨⟨rfl, rfl, rfl, rfl, rfl, rfl, rfl, rfl⟩, rfl⟩
  next => exact ⟨.refl s, rfl⟩

/-- Every node outside `free_nodes` has its buffer. -/
theorem addr_ne_none {held : List NodeId} (h : s.Conserved (n :: held)) :
    (s.snode n).addr ≠ none := by
  rw [h.heap.addr, Ne, h.owns]
  exact not_mem_of_held h

theorem rdDtcm_spec (h : s.Conserved []) (hl : Lines s) (hrun : s.halted = false) (c : Cmd) :
    (s.rdDtcm c).Conserved [] ∧ Lines (s.rdDtcm c) := by
  obtain ⟨hvalid, hhalted⟩ := same_checkTxValid s
  have hsame : Same s { s.checkTxValid with txLen := c.dataLen.toUInt32, tHdlLen := 0 } :=
    hvalid.trans ⟨rfl, rfl, rfl, rfl, rfl, rfl, rfl, rfl⟩
  have hrun' : State.halted { s.checkTxValid with txLen := c.dataLen.toUInt32, tHdlLen := 0 } =
      false := hhalted.trans hrun
  rw [State.rdDtcm]
  generalize { s.checkTxValid with txLen := c.dataLen.toUInt32, tHdlLen := 0 } = w at hsame hrun' ⊢
  have hw := hsame.conserved h
  have hlw := hsame.lines hl hrun
  have hcount : ¬ 2 ≤ w.suGetNodeCount .txingList := Nat.not_le.mpr (Nat.lt_succ_of_le hlw.tx)
  dsimp only
  rw [if_neg hcount]
  cases hpop : w.suPopNode .txingList with
  | some x =>
    obtain ⟨n, u⟩ := x
    have hu := hw.pop hpop nofun
    obtain ⟨hone, hnil⟩ := list_pop_nil hpop hlw.tx
    obtain ⟨r, hr, rfl⟩ := suPopNode_eq_some hpop
    obtain ⟨hcons, hqueues, htaken, hsent⟩ := startRdDtcm_spec
      (s := { w with queues := r, txStatus := txNodeOk }) (n := n) hu
    refine ⟨hcons, lines_of_sending hqueues hnil ?_ ?_ ?_⟩
    · rw [htaken, hsent]
      exact hone ▸ hlw.taken
    · rw [htaken]
      obtain ⟨rest, -, -, -, heq⟩ := Queues.pop_eq_some hr
      change w.taken.Sublist (r.popped .txDat)
      rw [heq, Function.update_of_ne (by decide)]
      exact hlw.order
    · change (r.list .rxingList).length ≤ 1
      rw [Queues.list_pop_of_ne hr (by decide)]
      exact hlw.rx
  | none =>
    have hnil := suPopNode_eq_none.mp hpop
    have htc := hlw.tcLen hrun' hnil
    dsimp only
    cases hdat : w.suPopNode .txDat with
    | none =>
      dsimp only
      rw [if_neg (not_not_intro htc)]
      have hstatus : Same w { w with txStatus := txNoNode } :=
        ⟨rfl, rfl, rfl, rfl, rfl, rfl, rfl, rfl⟩
      exact ⟨hw, hstatus.lines hlw hrun'⟩
    | some x =>
      obtain ⟨n, u⟩ := x
      have hu := hw.pop hdat nofun
      have haddr := addr_ne_none hu
      obtain ⟨r, hr, rfl⟩ := suPopNode_eq_some hdat
      dsimp only
      rw [if_neg (not_not_intro htc), if_neg haddr]
      obtain ⟨hcons, hqueues, htaken, hsent⟩ := startRdDtcm_spec
        (s := { w with
          queues := r
          taken := w.taken ++ [n]
          txStatus := txNodeOk
          txSeq := w.bekenTxSdioS
          bekenTxSdioS := w.bekenTxSdioS + 1 }) (n := n) hu
      refine ⟨hcons, lines_of_sending hqueues ?_ ?_ ?_ ?_⟩
      · exact (Queues.list_pop_of_ne hr (by decide)).trans hnil
      · rw [htaken, hsent]
        change w.taken ++ [n] = w.sent ++ [n]
        rw [hlw.taken, hnil, List.append_nil]
      · rw [htaken]
        obtain ⟨rest, -, -, -, heq⟩ := Queues.pop_eq_some hr
        change (w.taken ++ [n]).Sublist (r.popped .txDat)
        rw [heq, Function.update_self]
        exact hlw.order.append (.refl _)
      · change (r.list .rxingList).length ≤ 1
        rw [Queues.list_pop_of_ne hr (by decide)]
        exact hlw.rx

theorem sdioTxCb_spec (h : s.Conserved []) (hl : Lines s) (hrun : s.halted = false) :
    s.sdioTxCb.Conserved [] ∧ Lines s.sdioTxCb := by
  rw [State.sdioTxCb]
  cases hpop : s.suPopNode .txingList with
  | none =>
    have hstatus : Same s { s with txStatus := txNodeOk } :=
      ⟨rfl, rfl, rfl, rfl, rfl, rfl, rfl, rfl⟩
    have hhalt : Same s s.halt := ⟨rfl, rfl, rfl, rfl, rfl, rfl, rfl, rfl⟩
    dsimp only
    split
    next => exact ⟨h, hstatus.lines hl hrun⟩
    next => exact ⟨h, hhalt.lines hl hrun⟩
  | some x =>
    obtain ⟨n, u⟩ := x
    have hu := h.pop hpop nofun
    obtain ⟨hone, hnil⟩ := list_pop_nil hpop hl.tx
    obtain ⟨r, hr, rfl⟩ := suPopNode_eq_some hpop
    have hpopped : r.popped .txDat = s.queues.popped .txDat := by
      obtain ⟨rest, -, -, -, heq⟩ := Queues.pop_eq_some hr
      rw [heq, Function.update_of_ne (by decide)]
    have hrx : r.list .rxingList = s.queues.list .rxingList :=
      Queues.list_pop_of_ne hr (by decide)
    dsimp only
    split
    next =>
      have htxing : (r.push .freeNodes n).list .txingList = [] :=
        (Queues.list_push_of_ne (by decide)).trans hnil
      have hrxing : (r.push .freeNodes n).list .rxingList = s.queues.list .rxingList :=
        (Queues.list_push_of_ne (by decide)).trans hrx
      have htaken : s.taken = s.sent ++ [n] ++ (r.push .freeNodes n).list .txingList := by
        rw [htxing, List.append_nil]
        exact hone ▸ hl.taken
      have hlen : ((r.push .freeNodes n).list .txingList).length ≤ 1 := by
        rw [htxing]
        exact Nat.zero_le 1
      split
      next => exact ⟨hu.free, htaken, hpopped ▸ hl.order, hlen, hrxing ▸ hl.rx, nofun⟩
      next => exact ⟨hu.free, htaken, hpopped ▸ hl.order, hlen, hrxing ▸ hl.rx, fun _ _ => rfl⟩
    next =>
      refine ⟨hu.push (p := .txingList) nofun, lines_of_sending rfl hnil ?_ ?_ ?_⟩
      · exact hone ▸ hl.taken
      · exact hpopped ▸ hl.order
      · exact hrx ▸ hl.rx

end Send

section Calls

variable {s t : State} {n : NodeId} {p : Queue} {a : Answer}

/-- The lists that a call of a driver uses. -/
def Queue.Dat (p : Queue) : Prop := p = .txDat ∨ p = .rxDat

theorem Queue.Dat.ne (hp : p.Dat) : p ≠ .freeNodes ∧ p ≠ .txingList ∧ .rxingList ≠ p := by
  rcases hp with rfl | rfl <;> decide

theorem rxing_pop (hs : s.suPopNode p = some (n, t)) (hp : p.Dat) :
    t.queues.list .rxingList = s.queues.list .rxingList := by
  obtain ⟨r, hr, rfl⟩ := suPopNode_eq_some hs
  exact Queues.list_pop_of_ne hr hp.ne.2.2

theorem readSync_spec (h : s.Conserved []) (hl : Lines s) (hrun : s.halted = false) (hp : p.Dat)
    (userBuf : UserBuf) (count : UInt32) :
    (s.readSync p userBuf count).1.Conserved [] ∧ Lines (s.readSync p userBuf count).1 := by
  rw [State.readSync]
  split
  next => exact ⟨h, hl⟩
  next =>
    cases hpop : s.suPopNode p with
    | none => exact ⟨h, hl⟩
    | some x =>
      obtain ⟨n, u⟩ := x
      have hfree := kept_free u n
      refine ⟨(h.pop hpop hp.ne.1).free, ?_⟩
      refine hl.rxStep hrun ((txKept_pop hpop hp.ne.2.1).trans hfree.tx) ?_
      rw [hfree.list .rxingList nofun, rxing_pop hpop hp]
      exact hl.rx

theorem sdioRead_spec (h : s.Conserved []) (hl : Lines s) (hrun : s.halted = false)
    (userBuf : UserBuf) (count opFlag : UInt32) :
    (s.sdioRead userBuf count opFlag).1.Conserved [] ∧
      Lines (s.sdioRead userBuf count opFlag).1 := by
  rw [State.sdioRead]
  split
  next => exact readSync_spec h hl hrun (.inl rfl) userBuf count
  next =>
    split
    next => exact readSync_spec h hl hrun (.inr rfl) userBuf count
    next =>
      split
      next =>
        cases hpop : s.suPopNode .rxDat with
        | none => exact ⟨h, hl⟩
        | some x =>
          obtain ⟨n, u⟩ := x
          have htx := txKept_pop hpop nofun
          refine ⟨(h.pop hpop nofun).hand, hl.rxStep hrun
            ⟨htx.list, htx.popped, htx.taken, htx.sent, htx.tcLen⟩ ?_⟩
          exact (rxing_pop hpop (.inr rfl)).symm ▸ hl.rx
      next => exact ⟨h, hl⟩

/-- What a driver writes goes to the end of a list. -/
theorem push_spec (h : s.Conserved [n]) (hl : Lines s) (hrun : s.halted = false) (hp : p.Dat) :
    (s.suPushNode p n).Conserved [] ∧ Lines (s.suPushNode p n) := by
  refine ⟨h.push hp.ne.1, hl.rxStep hrun (txKept_push hp.ne.2.1) ?_⟩
  change ((s.queues.push p n).list .rxingList).length ≤ 1
  rw [Queues.list_push_of_ne hp.ne.2.2]
  exact hl.rx

theorem Kept.lines (hk : Kept s t) (hl : Lines s) (hrun : s.halted = false) :
    Lines t ∧ t.halted = false := by
  refine ⟨hl.rxStep hrun hk.tx ?_, (congrArg State.halted hk.eq :).trans hrun⟩
  rw [hk.list .rxingList nofun]
  exact hl.rx

theorem writeSync_spec (h : s.Conserved []) (hl : Lines s) (hrun : s.halted = false) (hp : p.Dat)
    (userBuf : UserBuf) (count : UInt32) (malloc : Bool) :
    (s.writeSync p userBuf count malloc).1.Conserved [] ∧
      Lines (s.writeSync p userBuf count malloc).1 ∧
      (s.writeSync p userBuf count malloc).1.halted = false := by
  rw [State.writeSync]
  split
  next => exact ⟨h, hl, hrun⟩
  next =>
    obtain ⟨t, heq, ht, hk⟩ | ⟨n, t, heq, ht, hk, -⟩ := h.alloc count malloc
    · obtain ⟨hlt, hrt⟩ := hk.lines hl hrun
      rw [heq]
      exact ⟨ht, hlt, hrt⟩
    · obtain ⟨hlt, hrt⟩ := hk.lines hl hrun
      rw [heq]
      obtain ⟨hc, hlp⟩ := push_spec ht hlt hrt hp
      exact ⟨hc, hlp, hrt⟩

theorem sdioWrite_spec (h : s.Conserved []) (hl : Lines s) (hrun : s.halted = false)
    {userBuf : UserBuf} {count opFlag : UInt32} {malloc : Bool}
    (hs : s.sdioWrite userBuf count opFlag malloc = some (t, a)) :
    t.Conserved [] ∧ Lines t := by
  unfold State.sdioWrite at hs
  split at hs
  next =>
    obtain ⟨hc, hlw, hr⟩ := writeSync_spec h hl hrun (.inl rfl) userBuf count malloc
    generalize s.writeSync .txDat userBuf count malloc = w at hs hc hlw hr
    obtain ⟨u, b⟩ := w
    obtain rfl := congrArg Prod.fst (Option.some.inj hs)
    dsimp only
    split
    next =>
      have hvalid : Same u { u with txValid := true } := ⟨rfl, rfl, rfl, rfl, rfl, rfl, rfl, rfl⟩
      exact ⟨hc, hvalid.lines hlw hr⟩
    next => exact ⟨hc, hlw⟩
  next =>
    split at hs
    next =>
      split at hs
      next =>
        cases hs
        exact ⟨h, hl⟩
      next => cases hs
      next n =>
        split at hs
        next =>
          cases hs
          exact ⟨h, hl⟩
        next =>
          split at hs
          next hmem =>
            cases hs
            have hl' : Lines { s with hands := s.hands.erase n } :=
              ⟨hl.taken, hl.order, hl.tx, hl.rx, hl.tcLen⟩
            obtain ⟨hc, hlp⟩ := push_spec (h.unhand hmem) hl' hrun (.inl rfl)
            exact ⟨hc, hlp.taken, hlp.order, hlp.tx, hlp.rx, hlp.tcLen⟩
          next => cases hs
    next =>
      split at hs
      next =>
        obtain ⟨hc, hlw, -⟩ := writeSync_spec h hl hrun (.inr rfl) userBuf count malloc
        obtain rfl : _ = t := congrArg Prod.fst (Option.some.inj hs)
        exact ⟨hc, hlw⟩
      next =>
        cases hs
        exact ⟨h, hl⟩

theorem getFreeNode_spec (h : s.Conserved []) (hl : Lines s) (hrun : s.halted = false)
    (size : UInt32) (malloc : Bool) :
    (s.getFreeNode size malloc).1.Conserved [] ∧ Lines (s.getFreeNode size malloc).1 := by
  rw [State.getFreeNode]
  obtain ⟨t, heq, ht, hk⟩ | ⟨n, t, heq, ht, hk, -⟩ := h.alloc size malloc
  · rw [heq]
    exact ⟨ht, (hk.lines hl hrun).1⟩
  · obtain ⟨hlt, -⟩ := hk.lines hl hrun
    rw [heq]
    exact ⟨ht.hand, hlt.taken, hlt.order, hlt.tx, hlt.rx, hlt.tcLen⟩

theorem pushFreeNode_spec (h : s.Conserved []) (hl : Lines s) (hrun : s.halted = false)
    (hs : s.pushFreeNode n = some (t, a)) : t.Conserved [] ∧ Lines t := by
  rw [State.pushFreeNode] at hs
  split at hs
  next hmem =>
    cases hs
    have hl' : Lines { s with hands := s.hands.erase n } :=
      ⟨hl.taken, hl.order, hl.tx, hl.rx, hl.tcLen⟩
    exact ⟨(h.unhand hmem).free, ((kept_free _ n).lines hl' hrun).1⟩
  next => cases hs

end Calls

section Run

variable {s t : State} {a : Answer}

abbrev Run := Machine.History Event Answer

theorem sdioCmdHandler_spec (h : s.Conserved []) (hl : Lines s) (hrun : s.halted = false)
    (c : Cmd) (malloc : Bool) :
    (s.sdioCmdHandler c malloc).Conserved [] ∧ Lines (s.sdioCmdHandler c malloc) := by
  have hwr : Same s (s.wrReg c) := ⟨rfl, rfl, rfl, rfl, rfl, rfl, rfl, rfl⟩
  have hrd : Same s (s.rdReg c) := by
    have hstart : ∀ u access len, Same s u → Same s (u.sdmaStartTx access len) :=
      fun u access len hu => hu.trans (same_sdmaStartTx u access len)
    exact hstart _ _ _ ⟨rfl, rfl, rfl, rfl, rfl, rfl, rfl, rfl⟩
  rw [State.sdioCmdHandler]
  split
  next => exact wrDtcm_spec h hl hrun c malloc
  next =>
    split
    next => exact rdDtcm_spec h hl hrun c
    next =>
      split
      next => exact ⟨hwr.conserved h, hwr.lines hl hrun⟩
      next =>
        split
        next => exact ⟨hrd.conserved h, hrd.lines hl hrun⟩
        next => exact ⟨h, hl⟩

theorem step_spec (h : s.Conserved []) (hl : Lines s) {e : Event} (hs : s.step e = some (t, a)) :
    t.Conserved [] ∧ Lines t := by
  unfold State.step at hs
  split at hs
  next => cases hs
  next hrun =>
    have hrun := Bool.not_eq_true _ ▸ hrun
    cases e with
    | cmd c malloc =>
      cases hs
      exact sdioCmdHandler_spec h hl hrun c malloc
    | txDone =>
      dsimp only at hs
      split at hs
      next =>
        obtain rfl : _ = t := congrArg Prod.fst (Option.some.inj hs)
        exact sdioTxCb_spec (s := { s with txStarted := false }) h
          ⟨hl.taken, hl.order, hl.tx, hl.rx, hl.tcLen⟩ hrun
      next => cases hs
    | rxDone hd =>
      dsimp only at hs
      split at hs
      next =>
        obtain rfl : _ = t := congrArg Prod.fst (Option.some.inj hs)
        exact sdioRxCb_spec (s := { s with rxStarted := false }) h
          ⟨hl.taken, hl.order, hl.tx, hl.rx, hl.tcLen⟩ hrun hd
      next => cases hs
    | sdioRead userBuf count opFlag =>
      obtain rfl : _ = t := congrArg Prod.fst (Option.some.inj hs)
      exact sdioRead_spec h hl hrun userBuf count opFlag
    | sdioWrite userBuf count opFlag malloc => exact sdioWrite_spec h hl hrun hs
    | getFreeNode size malloc =>
      obtain rfl : _ = t := congrArg Prod.fst (Option.some.inj hs)
      exact getFreeNode_spec h hl hrun size malloc
    | pushFreeNode n => exact pushFreeNode_spec h hl hrun hs

theorem conserved_init : State.Conserved init [] where
  perm := by
    have hmembers : initQueues.members Queue.all = List.finRange cellCount := by
      simp [Queues.members, Queue.all, initQueues]
    rw [List.nil_append]
    change (initQueues.members Queue.all ++ []).Perm _
    rw [hmembers, List.append_nil]
  fifo p := by cases p <;> rfl
  owns n := by
    change (none : Option Nat) = none ↔ n ∈ List.finRange cellCount
    exact ⟨fun _ => List.mem_finRange n, fun _ => rfl⟩
  heap := ⟨fun _ => rfl, nofun, nofun, nofun, nofun, .nil⟩

theorem lines_init : Lines init :=
  ⟨rfl, .refl _, Nat.zero_le 1, Nat.zero_le 1, fun _ _ => rfl⟩

theorem inv_of_reaches {h : Run} (hr : sdio.Reaches h s) : s.Conserved [] ∧ Lines s :=
  hr.stateInvariant (fun s => s.Conserved [] ∧ Lines s) ⟨conserved_init, lines_init⟩
    fun hi _ hs => step_spec hi.1 hi.2 hs

/-- Where the nodes, the buffers and the frames are. -/
structure Law (s : State) : Prop where
  /-- Each node is in one list, or in the hands of one driver. -/
  nodes : (s.queues.members Queue.all ++ s.hands).Perm (List.finRange cellCount)
  /-- A node has a buffer that is not freed, and has it for itself, outside `free_nodes`. -/
  owns : ∀ n, n ∉ s.queues.list .freeNodes ↔
    ∃ b, (s.snode n).origAddr = some b ∧ b < s.buffers ∧ b ∉ s.freed ∧
      ∀ m, (s.snode m).origAddr = some b → m = n
  /-- No buffer is freed twice, and none is lost. -/
  freed : s.freed.Nodup ∧ ∀ b, b < s.buffers → b ∈ s.freed ∨ ∃ n, (s.snode n).origAddr = some b
  /-- What has been received is read in that order. -/
  received : s.queues.pushed .rxDat = s.queues.popped .rxDat ++ s.queues.list .rxDat
  /-- What has been written leaves `tx_dat` in that order. -/
  written : s.queues.pushed .txDat = s.queues.popped .txDat ++ s.queues.list .txDat
  /-- What the host takes of it is sent in that order. -/
  sent : s.taken = s.sent ++ s.queues.list .txingList ∧ s.taken.Sublist (s.queues.popped .txDat)

end Run

end BdkRtt.Driver.Sdio
