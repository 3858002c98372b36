import BdkRtt.Wlan.RwMsg

namespace BdkRtt.Wlan.RwMsg

open Lib

section Law

variable {s : Msgs} {n : Nat} {m : KeMsg}

/-- The node that `rwnx_recv_msg` touches next. -/
def Recv.pointer : Recv → Option Nat
  | .idle | .popped _ => none
  | .atNode _ p => p
  | .passing _ n | .found _ n | .extracted _ n | .copied _ n => some n

/-- The message that `rwnx_recv_msg` has in hand. -/
def Recv.message : Recv → Option KeMsg
  | .idle => none
  | .popped m | .atNode m _ | .passing m _ | .found m _ | .extracted m _ | .copied m _ => some m

/-- The message and the node that `rwnx_recv_msg` has brought together. -/
def Recv.pair : Recv → Option (KeMsg × Nat)
  | .found m n | .extracted m n | .copied m n => some (m, n)
  | _ => none

/-- The node that `rwnx_recv_msg` has taken off the list. -/
def Recv.taking : Recv → Option Nat
  | .extracted _ n | .copied _ n => some n
  | _ => none

/-- `rw_msg_send` is between its first and its last critical section, without an answer. -/
def MsgSndNode.Waits (x : MsgSndNode) : Prop :=
  (x.sender = .listed ∨ x.sender = .sent ∨ x.sender = .timedOut) ∧ x.semaphore = 0

/-- The sender still waits for its confirmation. -/
def Msgs.Waiting (s : Msgs) (n : Nat) : Prop := (s.nodes n).Waits ∧ s.recv.taking ≠ some n

/-- A confirmation goes to the request that it answers, and passes by no request that still waits
for it; and the nodes that are touched are allocated. -/
def Answer.Right : Answer → Prop
  | .done => True
  | .touched _ live => live = true
  | .copied m n live => m.answers = some n ∧ live = true
  | .handled _ waiting => waiting = false

/-- What is promised of requests and confirmations: of the past, of the nodes that are waiting, of
what `rwnx_recv_msg` may come to from where it stands, and of the buffer that it is about to fill.
-/
structure MsgLaw (h : Machine.History Event Answer) (s : Msgs) : Prop where
  right : ∀ x ∈ h, x.2.Right
  listed : ∀ n, n ∈ s.txHead.elems ↔ s.Waiting n
  ahead : ∀ n, s.txHead.Ahead s.recv.pointer n → (s.nodes n).sender.isFreed = false
  pair : ∀ m n, s.recv.pair = some (m, n) → m.answers = some n

/-- The queue has room for the request; no sender frees a node that `rwnx_recv_msg`, on its way
through the list, stands at or can still come to; and it meets no waiting node that has the id of
the message and is not that of the request which the message confirms. -/
def Kept (s : Msgs) : Event → Prop
  | .bmsgIoctlSender _ pushed => pushed = true
  | .osFree n => ¬ s.txHead.Ahead s.recv.pointer n
  | .rwnxRecvMsg => ∀ m n, s.recv = .atNode m (some n) → m.id = (s.nodes n).reqid →
      m.answers = some n
  | _ => True

end Law

section Inv

variable {s : Msgs} {n : Nat} {m : KeMsg}

/-- The request has been pushed. -/
def Sender.Pushed (x : Sender) : Prop := x ≠ .absent ∧ x ≠ .listed

def Msgs.HasMessage (s : Msgs) (m : KeMsg) : Prop := m ∈ s.rxHead ∨ s.recv.message = some m

/-- The message that `rwnx_recv_msg` looks for a node for. -/
def Recv.looking : Recv → Option KeMsg
  | .atNode m _ | .passing m _ => some m
  | _ => none

/-- What is known of the requests by their numbers. -/
structure Books (s : Msgs) : Prop where
  confirms : ∀ m n, s.HasMessage m → m.answers = some n →
    (s.nodes n).sender.Pushed ∧ m.id = (s.nodes n).reqid
  requested : ∀ n ∈ s.requests, (s.nodes n).sender.Pushed
  unpushed : ∀ n, ¬ (s.nodes n).sender.Pushed → (s.nodes n).semaphore = 0

structure Inv (s : Msgs) : Prop where
  books : Books s
  nodup : s.txHead.elems.Nodup
  unlinked : ∀ n, ¬ (s.nodes n).sender.Pushed → s.txHead.left n = none
  listed : ∀ n, n ∈ s.txHead.elems ↔ s.Waiting n
  ahead : ∀ n, s.txHead.Ahead s.recv.pointer n → (s.nodes n).sender.isFreed = false
  pair : ∀ m n, s.recv.pair = some (m, n) → m.answers = some n
  passed : ∀ m n, s.recv = .passing m n → m.answers ≠ some n
  wanted : ∀ m n, s.recv.looking = some m → m.answers = some n → n ∈ s.txHead.elems →
    s.txHead.Ahead s.recv.pointer n

theorem inv_initial : Inv initial where
  books :=
    { confirms := fun m n h => by rcases h with h | h <;> cases h
      requested := nofun
      unpushed := fun _ _ => rfl }
  nodup := .nil
  unlinked _ _ := rfl
  listed n := ⟨nofun, fun h => by rcases h.1.1 with h | h | h <;> cases h⟩
  ahead _ h := absurd h Links.ahead_none
  pair := nofun
  passed := nofun
  wanted := nofun

@[simp] theorem setNode_self (x : MsgSndNode) : (s.setNode n x).nodes n = x :=
  Function.update_self ..

theorem setNode_of_ne (x : MsgSndNode) {k : Nat} (hne : k ≠ n) :
    (s.setNode n x).nodes k = s.nodes k :=
  Function.update_of_ne hne ..

theorem Inv.out_of_not_pushed (h : Inv s) (hun : ¬ (s.nodes n).sender.Pushed) :
    s.recv.taking ≠ some n := by
  intro htaking
  obtain ⟨m, hpair, hm⟩ : ∃ m, s.recv.pair = some (m, n) ∧ s.recv.message = some m := by
    cases hr : s.recv with
    | extracted m k =>
      rw [hr] at htaking
      cases htaking
      exact ⟨m, rfl, rfl⟩
    | copied m k =>
      rw [hr] at htaking
      cases htaking
      exact ⟨m, rfl, rfl⟩
    | _ =>
      rw [hr] at htaking
      cases htaking
  exact hun (h.books.confirms m n (.inr hm) (h.pair m n hpair)).1

theorem message_of_looking (hm : s.recv.looking = some m) : s.recv.message = some m := by
  cases hr : s.recv with
  | atNode | passing =>
    rw [hr] at hm
    exact hm
  | _ =>
    rw [hr] at hm
    cases hm

theorem Inv.unlinked_extract (h : Inv s) (hpushed : (s.nodes n).sender.Pushed) {k : Nat}
    (hk : ¬ (s.nodes k).sender.Pushed) : (s.txHead.extract n).left k = none := by
  have hkn : k ≠ n := by
    rintro rfl
    exact hk hpushed
  exact (Function.update_of_ne hkn ..).trans (h.unlinked k hk)

theorem Books.setNode (h : Books s) {x : MsgSndNode} (hid : x.reqid = (s.nodes n).reqid)
    (hpushed : x.sender.Pushed) : Books (s.setNode n x) where
  confirms m k hm ha := by
    by_cases hkn : k = n
    · subst hkn
      rw [setNode_self]
      exact ⟨hpushed, (h.confirms m k hm ha).2.trans hid.symm⟩
    · rw [setNode_of_ne x hkn]
      exact h.confirms m k hm ha
  requested k hk := by
    by_cases hkn : k = n
    · subst hkn
      rw [setNode_self]
      exact hpushed
    · rw [setNode_of_ne x hkn]
      exact h.requested k hk
  unpushed k hk := by
    by_cases hkn : k = n
    · subst hkn
      rw [setNode_self] at hk
      exact absurd hpushed hk
    · rw [setNode_of_ne x hkn] at hk ⊢
      exact h.unpushed k hk

/-- A request that has not been made before. -/
theorem Books.newNode (h : Books s) (hun : ¬ (s.nodes n).sender.Pushed) {x : MsgSndNode}
    (hsem : x.semaphore = 0) : Books (s.setNode n x) where
  confirms m k hm ha := by
    have hpushed := h.confirms m k hm ha
    rw [setNode_of_ne x (by rintro rfl; exact hun hpushed.1)]
    exact hpushed
  requested k hk := by
    have hpushed := h.requested k hk
    rw [setNode_of_ne x (by rintro rfl; exact hun hpushed)]
    exact hpushed
  unpushed k hk := by
    by_cases hkn : k = n
    · subst hkn
      rw [setNode_self]
      exact hsem
    · rw [setNode_of_ne x hkn] at hk ⊢
      exact h.unpushed k hk

theorem Inv.unlinked_setNode (h : Inv s) {x : MsgSndNode} (hpushed : x.sender.Pushed) {k : Nat}
    (hk : ¬ ((s.setNode n x).nodes k).sender.Pushed) : s.txHead.left k = none := by
  by_cases hkn : k = n
  · subst hkn
    rw [setNode_self] at hk
    exact absurd hpushed hk
  · rw [setNode_of_ne x hkn] at hk
    exact h.unlinked k hk

theorem Inv.ahead_setNode (h : Inv s) {x : MsgSndNode}
    (hfree : x.sender.isFreed = true → ¬ s.txHead.Ahead s.recv.pointer n) {k : Nat}
    (hk : s.txHead.Ahead s.recv.pointer k) :
    ((s.setNode n x).nodes k).sender.isFreed = false := by
  by_cases hkn : k = n
  · subst hkn
    rw [setNode_self]
    exact Bool.eq_false_iff.mpr fun hf => hfree hf hk
  · rw [setNode_of_ne x hkn]
    exact h.ahead k hk

/-- What a thread does to its own node, once its request is pushed. -/
theorem Inv.setNode (h : Inv s) {x : MsgSndNode} (hid : x.reqid = (s.nodes n).reqid)
    (hpushed : x.sender.Pushed)
    (hwaits : s.recv.taking ≠ some n → (x.Waits ↔ (s.nodes n).Waits))
    (hfree : x.sender.isFreed = true → ¬ s.txHead.Ahead s.recv.pointer n) :
    Inv (s.setNode n x) where
  books := h.books.setNode hid hpushed
  nodup := h.nodup
  unlinked _ := h.unlinked_setNode hpushed
  listed k := by
    refine (h.listed k).trans (and_congr_left fun htaking => ?_)
    by_cases hk : k = n
    · subst hk
      rw [setNode_self, hwaits htaking]
    · rw [setNode_of_ne x hk]
  ahead _ := h.ahead_setNode hfree
  pair := h.pair
  passed := h.passed
  wanted := h.wanted

end Inv

section Senders

variable {s t : Msgs} {n : Nat} {m : KeMsg}

theorem pushed_sent : Sender.sent.Pushed := ⟨nofun, nofun⟩

theorem pushed_failed : Sender.failed.Pushed := ⟨nofun, nofun⟩

theorem Inv.rwMsgSend (h : Inv s) {reqid cfm malloc}
    (hs : s.rwMsgSend n reqid cfm malloc = some t) : Inv t := by
  unfold Msgs.rwMsgSend at hs
  split at hs
  case isTrue => cases hs
  case isFalse habsent =>
    split at hs
    case isTrue =>
      cases hs
      exact h
    case isFalse =>
      cases hs
      have hun : ¬ (s.nodes n).sender.Pushed := fun hp => habsent hp.1
      have hout : n ∉ s.txHead.elems := by
        intro hn
        rcases ((h.listed n).mp hn).1.1 with h | h | h <;> rw [h] at habsent <;>
          exact habsent nofun
      have hleft := h.unlinked n hun
      have hbooks := h.books.newNode hun
        (x := { reqid, cfm, semaphore := 0, sender := .listed }) rfl
      exact {
        books := { hbooks with }
        nodup := List.nodup_append.mpr ⟨h.nodup, by simp, by
          rintro a ha b hb rfl
          exact hout (List.mem_singleton.mp hb ▸ ha)⟩
        unlinked := fun k hk => by
          by_cases hkn : k = n
          · exact hkn ▸ hleft
          · rw [setNode_of_ne _ hkn] at hk
            exact h.unlinked k hk
        listed := fun k => by
          refine List.mem_append.trans ?_
          by_cases hkn : k = n
          · subst hkn
            refine iff_of_true (.inr (List.mem_singleton_self k)) ⟨?_, h.out_of_not_pushed hun⟩
            rw [setNode_self]
            exact ⟨.inl rfl, rfl⟩
          · rw [Msgs.Waiting, setNode_of_ne _ hkn, List.mem_singleton, or_iff_left hkn]
            exact h.listed k
        ahead := fun k hk => by
          by_cases hkn : k = n
          · subst hkn
            rw [setNode_self]
            rfl
          · rw [setNode_of_ne _ hkn]
            exact h.ahead k (hk.of_pushBack hout hkn)
        pair := h.pair
        passed := h.passed
        wanted := fun m k hm ha hk => by
          have hkn : k ≠ n := by
            rintro rfl
            exact hun (h.books.confirms m k (.inr (message_of_looking hm)) ha).1
          have hk : k ∈ s.txHead.elems :=
            (List.mem_append.mp hk).resolve_right fun h => hkn (List.mem_singleton.mp h)
          exact (h.wanted m k hm ha hk).pushBack hout hleft }

theorem Inv.bmsgIoctlSender (h : Inv s) (hs : s.bmsgIoctlSender n true = some t) : Inv t := by
  unfold Msgs.bmsgIoctlSender at hs
  split at hs
  case isTrue => cases hs
  case isFalse hlisted =>
    rw [if_pos rfl] at hs
    cases hs
    have hlisted : (s.nodes n).sender = .listed := not_not.mp hlisted
    have hnode := h.setNode (n := n) (x := { s.nodes n with sender := .sent }) rfl pushed_sent
      (fun _ => by simp [MsgSndNode.Waits, hlisted]) nofun
    refine { hnode with books := { hnode.books with requested := fun k hk => ?_ } }
    rcases List.mem_append.mp hk with hk | hk
    · exact hnode.books.requested k hk
    · rw [List.mem_singleton.mp hk]
      change (((s.setNode n _).nodes n)).sender.Pushed
      rw [setNode_self]
      exact pushed_sent

theorem Inv.getSemaphore (h : Inv s) (hs : s.getSemaphore n = some t) : Inv t := by
  unfold Msgs.getSemaphore at hs
  dsimp only at hs
  split at hs
  case isTrue => cases hs
  case isFalse hsem =>
    cases hs
    exact h.setNode rfl ⟨nofun, nofun⟩ (fun _ => by simp_all [MsgSndNode.Waits]) nofun

theorem Inv.timeout (h : Inv s) (hs : s.timeout n = some t) : Inv t := by
  unfold Msgs.timeout at hs
  dsimp only at hs
  split at hs
  case isTrue => cases hs
  case isFalse hsem =>
    cases hs
    exact h.setNode rfl ⟨nofun, nofun⟩ (fun _ => by simp_all [MsgSndNode.Waits]) nofun

theorem Inv.osFree (h : Inv s) (hk : ¬ s.txHead.Ahead s.recv.pointer n)
    (hs : s.osFree n = some t) : Inv t := by
  unfold Msgs.osFree at hs
  split at hs
  case h_1 hx | h_2 hx =>
    cases hs
    exact h.setNode rfl ⟨nofun, nofun⟩ (fun _ => by simp [MsgSndNode.Waits, hx]) fun _ => hk
  case h_3 => cases hs

theorem Inv.extract (h : Inv s) (hs : s.extract n = some t) : Inv t := by
  unfold Msgs.extract at hs
  split at hs
  case isTrue => cases hs
  case isFalse htimed =>
    cases hs
    have htimed : (s.nodes n).sender = .timedOut := not_not.mp htimed
    have hbooks := h.books.setNode (n := n) (x := { s.nodes n with sender := .failed }) rfl
      pushed_failed
    have hpushed : (s.nodes n).sender.Pushed := by
      rw [htimed]
      exact ⟨nofun, nofun⟩
    change Inv { s.setNode n { s.nodes n with sender := .failed } with
      txHead := s.txHead.extract n }
    exact {
      books := { hbooks with }
      nodup := h.nodup.erase n
      unlinked := fun k hk => by
        have hun : ¬ (s.nodes k).sender.Pushed := by
          by_cases hkn : k = n
          · subst hkn
            rw [setNode_self] at hk
            exact absurd pushed_failed hk
          · rwa [setNode_of_ne _ hkn] at hk
        exact h.unlinked_extract hpushed hun
      listed := fun k => by
        refine h.nodup.mem_erase_iff.trans ?_
        by_cases hkn : k = n
        · subst hkn
          refine iff_of_false (fun h => h.1 rfl) fun h => ?_
          have hwaits := h.1.1
          rw [setNode_self] at hwaits
          rcases hwaits with h | h | h <;> cases h
        · rw [Msgs.Waiting, setNode_of_ne _ hkn, and_iff_right hkn]
          exact h.listed k
      ahead := fun k hk => h.ahead_setNode (fun hf => by cases hf) (hk.of_extract h.nodup)
      pair := h.pair
      passed := h.passed
      wanted := fun m k hm ha hk => by
        obtain ⟨hkn, hk⟩ := h.nodup.mem_erase_iff.mp hk
        exact (h.wanted m k hm ha hk).extract h.nodup hkn }

end Senders

section Receiver

variable {s t : Msgs} {n : Nat} {m : KeMsg} {o : Answer}

theorem Inv.confirm (h : Inv s) {param} (hs : s.confirm n param = some t) : Inv t := by
  unfold Msgs.confirm at hs
  split at hs
  case isFalse => cases hs
  case isTrue hn =>
    cases hs
    refine { h with books := { h.books with confirms := ?_, requested := ?_ } }
    · intro m k hm ha
      rcases hm with hm | hm
      · rcases List.mem_append.mp hm with hm | hm
        · exact h.books.confirms m k (.inl hm) ha
        · rw [List.mem_singleton.mp hm] at ha ⊢
          cases ha
          exact ⟨h.books.requested n hn, rfl⟩
      · exact h.books.confirms m k (.inr hm) ha
    · exact fun k hk => h.books.requested k (List.mem_of_mem_erase hk)

theorem Inv.indicate (h : Inv s) (id : UInt16) (param : List UInt8) :
    Inv (s.mrKmsgFwd { id, param, answers := none }) := by
  refine { h with books := { h.books with confirms := ?_ } }
  intro m k hm ha
  rcases hm with hm | hm
  · rcases List.mem_append.mp hm with hm | hm
    · exact h.books.confirms m k (.inl hm) ha
    · rw [List.mem_singleton.mp hm] at ha
      cases ha
  · exact h.books.confirms m k (.inr hm) ha

/-- The message thread goes on without a change of the list or of a node. -/
theorem Inv.moves (h : Inv s) {r : Recv} (hmessage : ∀ m, r.message = some m → s.HasMessage m)
    (htaking : ∀ n, (s.nodes n).Waits → (r.taking ≠ some n ↔ s.recv.taking ≠ some n))
    (hahead : ∀ n, s.txHead.Ahead r.pointer n → (s.nodes n).sender.isFreed = false)
    (hpair : ∀ m n, r.pair = some (m, n) → m.answers = some n)
    (hpassed : ∀ m n, r = .passing m n → m.answers ≠ some n)
    (hwanted : ∀ m n, r.looking = some m → m.answers = some n → n ∈ s.txHead.elems →
      s.txHead.Ahead r.pointer n) : Inv { s with recv := r } where
  books := { h.books with
    confirms := fun m n hm ha =>
      h.books.confirms m n (hm.elim .inl fun hm => hmessage m hm) ha }
  nodup := h.nodup
  unlinked := h.unlinked
  listed n := (h.listed n).trans (and_congr_right fun hwaits => (htaking n hwaits).symm)
  ahead := hahead
  pair := hpair
  passed := hpassed
  wanted := hwanted

theorem Inv.live_pointer (h : Inv s) (hp : s.recv.pointer = some n) : s.live n = true := by
  have hfree := h.ahead n (hp ▸ Links.ahead_self)
  rw [Msgs.live, hfree]
  rfl

/-- Whoever waits is not freed. -/
theorem Inv.live_of_mem (h : Inv s) (hn : n ∈ s.txHead.elems) :
    (s.nodes n).sender.isFreed = false := by
  rcases ((h.listed n).mp hn).1.1 with hx | hx | hx <;> rw [hx] <;> rfl

/-- The request that a message in hand confirms is pushed. -/
theorem Inv.pushed_of_pair (h : Inv s) (hm : s.recv.message = some m)
    (hp : s.recv.pair = some (m, n)) : (s.nodes n).sender.Pushed :=
  (h.books.confirms m n (.inr hm) (h.pair m n hp)).1

theorem Inv.recvPops (h : Inv s) {ms : List KeMsg} (hr : s.recv = .idle)
    (hrx : s.rxHead = m :: ms) : Inv { s with rxHead := ms, recv := .popped m } := by
  have hmoved : Inv { s with recv := .popped m } := by
    refine h.moves ?_ ?_ ?_ nofun nofun nofun
    · rintro _ ⟨⟩
      exact .inl (hrx ▸ List.mem_cons_self)
    · exact fun n _ => by rw [hr]; exact Iff.rfl
    · exact fun n hn => absurd hn Links.ahead_none
  refine { hmoved with books := { hmoved.books with confirms := fun m k hm ha => ?_ } }
  refine hmoved.books.confirms m k (hm.imp_left fun hm => ?_) ha
  exact hrx ▸ List.mem_cons_of_mem _ hm

theorem Inv.recvStarts (h : Inv s) (hr : s.recv = .popped m) :
    Inv { s with recv := .atNode m s.txHead.elems.head? } := by
  refine h.moves ?_ ?_ ?_ nofun nofun ?_
  · exact fun m hm => .inr (hr ▸ hm)
  · exact fun n _ => by rw [hr]; exact Iff.rfl
  · exact fun n hn => h.live_of_mem hn.mem_of_head
  · exact fun _ n _ _ hn => Links.ahead_head h.nodup hn

/-- The walk has come to its end: no node which it should have found is in the list. -/
theorem Inv.recvEnds (h : Inv s) (hr : s.recv = .atNode m none) :
    Inv { s with recv := .idle } ∧ (m.answers.any fun n => n ∈ s.txHead.elems) = false := by
  refine ⟨h.moves nofun ?_ ?_ nofun nofun nofun, ?_⟩
  · exact fun n _ => by rw [hr]; exact Iff.rfl
  · exact fun n hn => absurd hn Links.ahead_none
  · cases ha : m.answers with
    | none => rfl
    | some k =>
      refine decide_eq_false fun hmem => ?_
      have hahead := h.wanted m k (hr ▸ rfl) ha hmem
      rw [hr] at hahead
      exact Links.ahead_none hahead

theorem Inv.recvFinds (h : Inv s) (hr : s.recv = .atNode m (some n))
    (ha : m.answers = some n) : Inv { s with recv := .found m n } := by
  refine h.moves ?_ ?_ ?_ ?_ nofun nofun
  · exact fun m hm => .inr (hr ▸ hm)
  · exact fun n _ => by rw [hr]; exact Iff.rfl
  · exact fun k hahead => h.ahead k (hr ▸ hahead)
  · rintro _ _ ⟨⟩
    exact ha

theorem Inv.recvPasses (h : Inv s) (hr : s.recv = .atNode m (some n))
    (hid : m.id ≠ (s.nodes n).reqid) : Inv { s with recv := .passing m n } := by
  refine h.moves ?_ ?_ ?_ nofun ?_ ?_
  · exact fun m hm => .inr (hr ▸ hm)
  · exact fun n _ => by rw [hr]; exact Iff.rfl
  · exact fun k hahead => h.ahead k (hr ▸ hahead)
  · rintro _ _ ⟨⟩ ha
    exact hid (h.books.confirms m n (.inr (hr ▸ rfl)) ha).2
  · rintro _ k ⟨⟩ ha hmem
    have hahead := h.wanted m k (hr ▸ rfl) ha hmem
    rwa [hr] at hahead

theorem Inv.recvGoesOn (h : Inv s) (hr : s.recv = .passing m n) :
    Inv { s with recv := .atNode m (s.txHead.next n) } := by
  refine h.moves ?_ ?_ ?_ nofun nofun ?_
  · exact fun m hm => .inr (hr ▸ hm)
  · exact fun n _ => by rw [hr]; exact Iff.rfl
  · refine fun k hahead => h.ahead k ?_
    rw [hr]
    exact hahead.of_next
  · rintro _ k ⟨⟩ ha hmem
    have hahead := h.wanted m k (hr ▸ rfl) ha hmem
    rw [hr] at hahead
    refine hahead.next ?_
    rintro rfl
    exact h.passed m _ hr ha

theorem Inv.recvExtracts (h : Inv s) (hr : s.recv = .found m n) :
    Inv { s with txHead := s.txHead.extract n, recv := .extracted m n } := by
  have hpushed := h.pushed_of_pair (m := m) (n := n) (by rw [hr]; rfl) (by rw [hr]; rfl)
  exact {
    books := { h.books with
      confirms := fun m k hm ha => h.books.confirms m k (by rwa [Msgs.HasMessage, hr]) ha }
    nodup := h.nodup.erase n
    unlinked := fun k => h.unlinked_extract hpushed
    listed := fun k => by
      refine h.nodup.mem_erase_iff.trans ?_
      by_cases hkn : k = n
      · subst hkn
        exact iff_of_false (fun h => h.1 rfl) fun h => h.2 rfl
      · rw [and_iff_right hkn, h.listed k, Msgs.Waiting, hr]
        exact and_congr_right fun _ => iff_of_true nofun fun h => hkn (Option.some.inj h).symm
    ahead := fun k hk => h.ahead k (by rw [hr]; exact hk.of_extract h.nodup)
    pair := fun m k hp => h.pair m k (by rwa [hr])
    passed := nofun
    wanted := nofun }

theorem Inv.recvCopies (h : Inv s) (hr : s.recv = .extracted m n) :
    Inv { s with recv := .copied m n } := by
  refine h.moves ?_ ?_ ?_ ?_ nofun nofun
  · exact fun m hm => .inr (hr ▸ hm)
  · exact fun n _ => by rw [hr]; exact Iff.rfl
  · exact fun k hahead => h.ahead k (hr ▸ hahead)
  · exact fun m k hp => h.pair m k (hr ▸ hp)

theorem Inv.recvGives (h : Inv s) (hr : s.recv = .copied m n) :
    Inv ({ s with recv := .idle }.setNode n
      { s.nodes n with semaphore := (s.nodes n).semaphore + 1 }) := by
  have hlive := h.live_pointer (n := n) (by rw [hr]; rfl)
  have hpushed := h.pushed_of_pair (m := m) (n := n) (by rw [hr]; rfl) (by rw [hr]; rfl)
  have hgiven := h.setNode
    (x := { s.nodes n with semaphore := (s.nodes n).semaphore + 1 }) rfl hpushed
    (fun htaking => absurd (by rw [hr]; rfl) htaking) fun hf => by
      rw [Msgs.live, hf] at hlive
      cases hlive
  refine hgiven.moves nofun ?_ ?_ nofun nofun nofun
  · intro k hwaits
    refine iff_of_true nofun fun htaking => ?_
    change s.recv.taking = some k at htaking
    rw [hr] at htaking
    obtain rfl : n = k := Option.some.inj htaking
    rw [setNode_self] at hwaits
    exact absurd hwaits.2 (Nat.succ_ne_zero _)
  · exact fun k hk => absurd hk Links.ahead_none

theorem Inv.rwnxRecvMsg (h : Inv s) (hk : Kept s .rwnxRecvMsg) (hs : s.rwnxRecvMsg = some (t, o)) :
    Inv t ∧ o.Right := by
  unfold Msgs.rwnxRecvMsg at hs
  split at hs
  case h_1 hr =>
    split at hs
    case h_1 => cases hs
    case h_2 m ms hrx =>
      cases hs
      exact ⟨h.recvPops hr hrx, trivial⟩
  case h_2 m hr =>
    cases hs
    exact ⟨h.recvStarts hr, trivial⟩
  case h_3 m hr =>
    cases hs
    exact h.recvEnds hr
  case h_4 m n hr =>
    cases hs
    have hlive := h.live_pointer (n := n) (by rw [hr]; rfl)
    by_cases hid : m.id = (s.nodes n).reqid
    case pos =>
      rw [if_pos hid]
      exact ⟨h.recvFinds hr (hk m n hr hid), hlive⟩
    case neg =>
      rw [if_neg hid]
      exact ⟨h.recvPasses hr hid, hlive⟩
  case h_5 m n hr =>
    cases hs
    exact ⟨h.recvGoesOn hr, h.live_pointer (by rw [hr]; rfl)⟩
  case h_6 m n hr =>
    cases hs
    exact ⟨h.recvExtracts hr, h.live_pointer (by rw [hr]; rfl)⟩
  case h_7 m n hr =>
    have hlive := h.live_pointer (n := n) (by rw [hr]; rfl)
    have hpushed := h.pushed_of_pair (m := m) (n := n) (by rw [hr]; rfl) (by rw [hr]; rfl)
    have hcopied := h.recvCopies hr
    dsimp only at hs
    split at hs
    case isTrue =>
      cases hs
      refine ⟨hcopied.setNode rfl hpushed (fun _ => Iff.rfl) fun hf => ?_,
        h.pair m n (by rw [hr]; rfl), hlive⟩
      rw [Msgs.live, hf] at hlive
      cases hlive
    case isFalse =>
      cases hs
      exact ⟨hcopied, hlive⟩
  case h_8 m n hr =>
    cases hs
    exact ⟨h.recvGives hr, h.live_pointer (by rw [hr]; rfl)⟩

end Receiver

section Run

variable {s t : Msgs} {h : Machine.History Event Answer} {e : Event} {o : Answer}

theorem Inv.step (hi : Inv s) (hk : Kept s e) (hs : s.step e = some (t, o)) : Inv t ∧ o.Right := by
  cases e with
  | rwnxRecvMsg => exact hi.rwnxRecvMsg hk hs
  | indicate id param =>
    cases hs
    exact ⟨hi.indicate id param, trivial⟩
  | bmsgIoctlSender n pushed =>
    obtain rfl : pushed = true := hk
    obtain ⟨u, hu, heq⟩ := Option.map_eq_some_iff.mp hs
    cases heq
    exact ⟨hi.bmsgIoctlSender hu, trivial⟩
  | osFree n =>
    obtain ⟨u, hu, heq⟩ := Option.map_eq_some_iff.mp hs
    cases heq
    exact ⟨hi.osFree hk hu, trivial⟩
  | rwMsgSend n reqid cfm malloc =>
    obtain ⟨u, hu, heq⟩ := Option.map_eq_some_iff.mp hs
    cases heq
    exact ⟨hi.rwMsgSend hu, trivial⟩
  | getSemaphore n =>
    obtain ⟨u, hu, heq⟩ := Option.map_eq_some_iff.mp hs
    cases heq
    exact ⟨hi.getSemaphore hu, trivial⟩
  | timeout n =>
    obtain ⟨u, hu, heq⟩ := Option.map_eq_some_iff.mp hs
    cases heq
    exact ⟨hi.timeout hu, trivial⟩
  | extract n =>
    obtain ⟨u, hu, heq⟩ := Option.map_eq_some_iff.mp hs
    cases heq
    exact ⟨hi.extract hu, trivial⟩
  | confirm n param =>
    obtain ⟨u, hu, heq⟩ := Option.map_eq_some_iff.mp hs
    cases heq
    exact ⟨hi.confirm hu, trivial⟩

theorem inv_of_reaches (hr : rwMsg.ReachesUnder Kept h s) : Inv s ∧ ∀ x ∈ h, x.2.Right := by
  refine hr.invariant (fun h s => Inv s ∧ ∀ x ∈ h, x.2.Right) ⟨inv_initial, nofun⟩ ?_
  intro h s e t o ih hk hs
  obtain ⟨hi, hright⟩ := ih.1.step hk hs
  refine ⟨hi, fun x hx => ?_⟩
  rcases List.mem_append.mp hx with hx | hx
  · exact ih.2 x hx
  · exact List.mem_singleton.mp hx ▸ hright

theorem law_of_reaches (hr : rwMsg.ReachesUnder Kept h s) : MsgLaw h s :=
  have ⟨hi, hright⟩ := inv_of_reaches hr
  { right := hright, listed := hi.listed, ahead := hi.ahead, pair := hi.pair }

/-- A request that cannot be pushed leaves its node behind. -/
theorem Inv.not_listed_of_failed (hi : Inv s) {n : Nat} (hs : s.bmsgIoctlSender n false = some t) :
    ¬ (n ∈ t.txHead.elems ↔ t.Waiting n) := by
  unfold Msgs.bmsgIoctlSender at hs
  split at hs
  case isTrue => cases hs
  case isFalse hlisted =>
    cases hs
    have hlisted : (s.nodes n).sender = .listed := not_not.mp hlisted
    have hun : ¬ (s.nodes n).sender.Pushed := fun hp => hp.2 hlisted
    have hmem : n ∈ s.txHead.elems :=
      (hi.listed n).mpr ⟨⟨.inl hlisted, hi.books.unpushed n hun⟩, hi.out_of_not_pushed hun⟩
    intro hiff
    have hwaits := (hiff.mp hmem).1.1
    rw [Msgs.setSender, setNode_self] at hwaits
    rcases hwaits with h | h | h <;> cases h

/-- The runs in which requests and confirmations go together as they should are those in which the
queue never fails a request, no sender frees its node under the message thread, and no confirmation
meets a node with its id that waits for another. -/
theorem requests_confirmed :
    (rwMsg.ReachesUnder Kept h s → MsgLaw h s) ∧
      (rwMsg.ReachesUnder Kept h s ↔ rwMsg.ReachesWithin MsgLaw h s) := by
  refine ⟨law_of_reaches, Machine.reachesUnder_iff_within law_of_reaches ?_⟩
  intro h s e t o hr hs hlaw
  have hi := (inv_of_reaches hr).1
  cases e with
  | bmsgIoctlSender n pushed =>
    obtain ⟨u, hu, heq⟩ := Option.map_eq_some_iff.mp hs
    cases heq
    cases pushed with
    | true => rfl
    | false => exact absurd (hlaw.listed n) (hi.not_listed_of_failed hu)
  | osFree n =>
    obtain ⟨u, hu, heq⟩ := Option.map_eq_some_iff.mp hs
    cases heq
    intro hahead
    unfold Msgs.osFree at hu
    split at hu
    case h_1 | h_2 =>
      cases hu
      have hfree := hlaw.ahead n hahead
      rw [Msgs.setSender, setNode_self] at hfree
      cases hfree
    case h_3 => cases hu
  | rwnxRecvMsg =>
    intro m n hrecv hid
    have hs : s.rwnxRecvMsg = some (t, o) := hs
    unfold Msgs.rwnxRecvMsg at hs
    rw [hrecv] at hs
    dsimp only at hs
    rw [if_pos hid] at hs
    cases hs
    exact hlaw.pair m n rfl
  | _ => trivial

/-- A run that `Kept` permits at a glance: nodes are freed while no message is looked up. -/
def undisturbed (s : Msgs) : Event → Bool
  | .bmsgIoctlSender _ pushed => pushed
  | .osFree _ => s.recv.pointer.isNone
  | .rwnxRecvMsg =>
    match s.recv with
    | .atNode m (some n) => m.id ≠ (s.nodes n).reqid || m.answers = some n
    | _ => true
  | _ => true

theorem kept_of_undisturbed (hu : undisturbed s e = true) : Kept s e := by
  cases e with
  | bmsgIoctlSender => exact hu
  | osFree n =>
    intro hahead
    rw [Option.isNone_iff_eq_none.mp hu] at hahead
    exact Links.ahead_none hahead
  | rwnxRecvMsg =>
    intro m n hr hid
    unfold undisturbed at hu
    rw [hr] at hu
    simpa [hid] using hu
  | _ => trivial

/-- Two requests: one that is confirmed while the other waits, and one that is confirmed too late.
-/
def oneInTime : List Event :=
  [.rwMsgSend 0 5 [0, 0] true, .rwMsgSend 1 7 [0, 0] true, .bmsgIoctlSender 0 true,
    .bmsgIoctlSender 1 true, .confirm 1 [3, 4], .rwnxRecvMsg, .rwnxRecvMsg, .rwnxRecvMsg,
    .rwnxRecvMsg, .rwnxRecvMsg, .rwnxRecvMsg, .rwnxRecvMsg, .rwnxRecvMsg, .getSemaphore 1,
    .osFree 1, .timeout 0, .extract 0, .osFree 0, .confirm 0 [9], .rwnxRecvMsg, .rwnxRecvMsg,
    .rwnxRecvMsg]

theorem requests_confirmed_in_time :
    ∃ h s, rwMsg.exec oneInTime = some (h, s) ∧ (s.nodes 1).cfm = [3, 4] ∧
      (s.nodes 1).sender = .freed 0 ∧ (s.nodes 0).sender = .freed (-1) ∧ MsgLaw h s := by
  obtain ⟨h, s, hx, hcfm, hin, hlate⟩ : ∃ h s, rwMsg.exec oneInTime = some (h, s) ∧
      (s.nodes 1).cfm = [3, 4] ∧ (s.nodes 1).sender = .freed 0 ∧
      (s.nodes 0).sender = .freed (-1) :=
    ⟨_, _, rfl, rfl, rfl, rfl⟩
  have hr := Machine.reachesUnder_of_exec (C := fun s e => undisturbed s e = true) (by decide) hx
  exact ⟨h, s, hx, hcfm, hin, hlate,
    requests_confirmed.1 (hr.mono fun _ _ => kept_of_undisturbed)⟩

/-- The queue has no room; the confirmation comes after the timeout, when there is another request
with the same id; and the node is freed after it was looked up. -/
theorem requests_crossed :
    (¬ ∀ h s, rwMsg.Reaches h s → ∀ n, n ∈ s.txHead.elems ↔ s.Waiting n) ∧
    (¬ ∀ h s, rwMsg.Reaches h s → ∀ x ∈ h, ∀ m n live, x.2 = .copied m n live →
      m.answers = some n) ∧
    ¬ ∀ h s, rwMsg.Reaches h s → ∀ x ∈ h, ∀ n live, x.2 = .touched n live → live = true := by
  refine ⟨fun hall => ?_, fun hall => ?_, fun hall => ?_⟩
  · obtain ⟨h, s, hx, helems, hfailed⟩ : ∃ h s,
        rwMsg.exec [.rwMsgSend 0 5 [] true, .bmsgIoctlSender 0 false] = some (h, s) ∧
        s.txHead.elems = [0] ∧ (s.nodes 0).sender = .failed :=
      ⟨_, _, rfl, rfl, rfl⟩
    have hwaits := ((hall h s (Machine.reaches_of_exec hx) 0).mp (by rw [helems]; decide)).1.1
    rw [hfailed] at hwaits
    rcases hwaits with h | h | h <;> cases h
  · obtain ⟨h, s, hx, hlast⟩ : ∃ h s, rwMsg.exec
        [.rwMsgSend 0 5 [] true, .bmsgIoctlSender 0 true, .timeout 0, .extract 0, .osFree 0,
          .confirm 0 [1], .rwMsgSend 1 5 [] true, .bmsgIoctlSender 1 true, .rwnxRecvMsg,
          .rwnxRecvMsg, .rwnxRecvMsg, .rwnxRecvMsg, .rwnxRecvMsg] = some (h, s) ∧
        h.getLast? = some (.rwnxRecvMsg,
          .copied { id := 5, param := [1], answers := some 0 } 1 true) :=
      ⟨_, _, rfl, rfl⟩
    have hright := hall h s (Machine.reaches_of_exec hx) _ (List.mem_of_getLast? hlast) _ _ _ rfl
    exact absurd hright (by decide)
  · obtain ⟨h, s, hx, hlast⟩ : ∃ h s, rwMsg.exec
        [.rwMsgSend 0 5 [] true, .bmsgIoctlSender 0 true, .confirm 0 [1], .rwnxRecvMsg,
          .rwnxRecvMsg, .timeout 0, .extract 0, .osFree 0, .rwnxRecvMsg] = some (h, s) ∧
        h.getLast? = some (.rwnxRecvMsg, .touched 0 false) :=
      ⟨_, _, rfl, rfl⟩
    have hlive := hall h s (Machine.reaches_of_exec hx) _ (List.mem_of_getLast? hlast) _ _ rfl
    exact absurd hlive (by decide)

end Run

end BdkRtt.Wlan.RwMsg
