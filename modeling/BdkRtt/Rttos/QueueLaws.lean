import Mathlib.Data.Fintype.Card
import Mathlib.Data.List.Nodup
import Mathlib.Data.List.Perm.Basic
import BdkRtt.Lib.Circle
import BdkRtt.Lib.Fifo
import BdkRtt.Rttos.Queue

universe u

namespace BdkRtt.Rttos.Queue

open Lib

section Chain

variable {link : Nat → Word} {w x : Word} {b : Nat} {bs : List Nat}

/-- From `w` the first words of the blocks lead through `bs` to the end. -/
def Leads (link : Nat → Word) : Word → List Nat → Prop
  | w, [] => w = .null
  | w, b :: bs => w = .block b ∧ Leads link (link b) bs

theorem Leads.update (h : Leads link w bs) (hb : b ∉ bs) :
    Leads (Function.update link b x) w bs := by
  induction bs generalizing w with
  | nil => exact h
  | cons c bs ih =>
    obtain ⟨hne, hb⟩ := not_or.mp (List.mem_cons.not.mp hb)
    refine ⟨h.1, ?_⟩
    rw [Function.update_of_ne (Ne.symm hne)]
    exact ih h.2 hb

/-- A block goes in front of the others. -/
theorem Leads.push (h : Leads link w bs) (hb : b ∉ bs) :
    Leads (Function.update link b w) (.block b) (b :: bs) :=
  ⟨rfl, by rw [Function.update_self]; exact h.update hb⟩

theorem Leads.uncons (h : Leads link (.block b) bs) : ∃ cs, bs = b :: cs := by
  cases bs with
  | nil => exact absurd h (by simp [Leads])
  | cons c cs =>
    obtain ⟨heq, -⟩ := h
    exact ⟨cs, by rw [Word.block.inj heq]⟩

theorem leads_rtMpCreate (l : Layout) :
    Leads (rtMpCreate l).link (.block 0) (List.range l.numberOfMessages) := by
  have hfrom : ∀ k i, i + (k + 1) = l.numberOfMessages →
      Leads (rtMpCreate l).link (.block i) (List.range' i (k + 1)) := by
    intro k
    induction k with
    | zero =>
      intro i hi
      exact ⟨rfl, if_pos hi⟩
    | succ k ih =>
      intro i hi
      refine ⟨rfl, ?_⟩
      have hnext : (rtMpCreate l).link i = .block (i + 1) := if_neg (by omega)
      rw [hnext]
      exact ih (i + 1) (by omega)
  obtain ⟨k, hk⟩ := Nat.exists_eq_succ_of_ne_zero (Nat.ne_of_gt l.pos)
  rw [List.range_eq_range', hk]
  exact hfrom k 0 (by omega)

end Chain

section Moves

variable {π : Type u} {l : Layout} {s t : State π} {o : Reply} {e : Event π} {p : π}

/-- The thread is in front of the section of a call, with `time` left. -/
inductive AtCall (s : State π) (p : π) (slept : UInt32) : Call → Int32 → Prop
  | enters {c time} : s.phase p = .enters c time → AtCall s p slept c time
  | resumed {c time} : s.phase p = .resumed c time → AtCall s p slept c (timeLeft time slept)

variable [DecidableEq π]

/-- What one step can do. -/
inductive Move (l : Layout) (s : State π) : Event π → State π → Reply → Prop
  | push {p msg timeoutMs ticks} (hidle : s.phase p = .idle) (hlen : msg.length = l.messageSize)
      (hticks : ticks = rtTickFromMillisecond timeoutMs.toInt32) :
      Move l s (.push p msg timeoutMs) (s.goes p (.enters (.mpAlloc msg ticks) ticks)) .called
  | pop {p timeoutMs} (hidle : s.phase p = .idle) :
      Move l s (.pop p timeoutMs)
        (s.goes p (.enters .mbRecv (rtTickFromMillisecond timeoutMs.toInt32))) .called
  | refused {p slept msg ticks} (hcall : AtCall s p slept (.mpAlloc msg ticks) 0)
      (hnone : s.mp.blockFreeCount = 0) :
      Move l s (.runs p slept) (s.goes p .idle) .refused
  | allocWaits {p slept msg ticks time} (hcall : AtCall s p slept (.mpAlloc msg ticks) time)
      (hnone : s.mp.blockFreeCount = 0) (htime : time ≠ 0) :
      Move l s (.runs p slept)
        ({ s with mp := s.mp.setSuspendThreadCount (s.mp.suspendThreadCount + 1) }.suspend p
          (.mpAlloc msg ticks) time) .suspended
  | allocated {p slept msg ticks time b} (hcall : AtCall s p slept (.mpAlloc msg ticks) time)
      (hsome : s.mp.blockFreeCount ≠ 0) (hlist : s.mp.blockList = .block b) :
      Move l s (.runs p slept)
        ({ s with mp := s.mp.take b }.goes p (.copies msg ticks b 0)) .allocated
  | full {p slept b} (hcall : AtCall s p slept (.mbSendWait b) 0)
      (hfull : s.mb.entry = l.numberOfMessages) :
      Move l s (.runs p slept) (s.goes p (.undoes b)) .full
  | sendWaits {p slept b time} (hcall : AtCall s p slept (.mbSendWait b) time)
      (hfull : s.mb.entry = l.numberOfMessages) (htime : time ≠ 0) :
      Move l s (.runs p slept) (s.suspend p (.mbSendWait b) time) .suspended
  | sent {p slept b time} (hcall : AtCall s p slept (.mbSendWait b) time)
      (hroom : s.mb.entry ≠ l.numberOfMessages) :
      Move l s (.runs p slept)
        (({ s with mb := s.mb.put l b }.goes p .idle).wakeFirst .receiver) .sent
  | empty {p slept} (hcall : AtCall s p slept .mbRecv 0) (hnone : s.mb.entry = 0) :
      Move l s (.runs p slept) (s.goes p .idle) .empty
  | recvWaits {p slept time} (hcall : AtCall s p slept .mbRecv time) (hnone : s.mb.entry = 0)
      (htime : time ≠ 0) :
      Move l s (.runs p slept) (s.suspend p .mbRecv time) .suspended
  | received {p slept time b} (hcall : AtCall s p slept .mbRecv time) (hsome : s.mb.entry ≠ 0)
      (hb : s.mb.msgPool s.mb.outOffset = b) :
      Move l s (.runs p slept)
        (({ s with mb := s.mb.take l }.goes p (.takes b [])).wakeFirst .sender) .received
  | copied {p slept msg ticks b k} (hphase : s.phase p = .copies msg ticks b k)
      (hk : k < msg.length) :
      Move l s (.runs p slept)
        ({ s with data := Function.update s.data b ((s.data b).write k [msg[k]]) }.goes p
          (.copies msg ticks b (k + 1))) .copied
  | copiedAll {p slept msg ticks b k} (hphase : s.phase p = .copies msg ticks b k)
      (hk : ¬ k < msg.length) :
      Move l s (.runs p slept) (s.goes p (.enters (.mbSendWait b) ticks)) .called
  | taken {p slept b got} (hphase : s.phase p = .takes b got)
      (hk : got.length < l.messageSize) :
      Move l s (.runs p slept) (s.goes p (.takes b (got ++ [s.data b got.length]))) .copied
  | takenAll {p slept b got} (hphase : s.phase p = .takes b got)
      (hk : ¬ got.length < l.messageSize) :
      Move l s (.runs p slept) (s.goes p (.frees b got)) .called
  | undone {p slept b t} (hphase : s.phase p = .undoes b) (hfree : rtMpFree s b = some t) :
      Move l s (.runs p slept) (t.goes p .idle) .refused
  | popped {p slept b got t} (hphase : s.phase p = .frees b got)
      (hfree : rtMpFree s b = some t) :
      Move l s (.runs p slept) (t.goes p .idle) (.popped got)
  | timedOut {p c time} (hphase : s.phase p = .suspended c time) (htime : 0 < time) :
      Move l s (.timesOut p) (s.rtThreadTimeout p c) (.timedOut c.wait)
  | isEmpty : Move l s .isEmpty s (.truth (s.mb.entry = 0))
  | isFull : Move l s .isFull s (.truth (s.mb.entry = l.numberOfMessages))

theorem Move.of_call {slept : UInt32} {c : Call} {time : Int32} (hcall : AtCall s p slept c time)
    (h : c.run l s p time = some (t, o)) : Move l s (.runs p slept) t o := by
  cases c with
  | mpAlloc msg ticks =>
    simp only [Call.run, rtMpAlloc] at h
    split at h
    next hnone =>
      split at h
      next htime =>
        obtain ⟨rfl, rfl⟩ := Prod.mk.inj (Option.some.inj h)
        exact .refused (htime ▸ hcall) hnone
      next htime =>
        obtain ⟨rfl, rfl⟩ := Prod.mk.inj (Option.some.inj h)
        exact .allocWaits hcall hnone htime
    next hsome =>
      split at h
      next b hlist =>
        obtain ⟨rfl, rfl⟩ := Prod.mk.inj (Option.some.inj h)
        exact .allocated hcall hsome hlist
      next => simp at h
  | mbSendWait b =>
    simp only [Call.run, rtMbSendWait] at h
    split at h
    next hfull =>
      split at h
      next htime =>
        obtain ⟨rfl, rfl⟩ := Prod.mk.inj (Option.some.inj h)
        exact .full (htime ▸ hcall) hfull
      next htime =>
        obtain ⟨rfl, rfl⟩ := Prod.mk.inj (Option.some.inj h)
        exact .sendWaits hcall hfull htime
    next hroom =>
      obtain ⟨rfl, rfl⟩ := Prod.mk.inj (Option.some.inj h)
      exact .sent hcall hroom
  | mbRecv =>
    simp only [Call.run, rtMbRecv] at h
    split at h
    next hnone =>
      split at h
      next htime =>
        obtain ⟨rfl, rfl⟩ := Prod.mk.inj (Option.some.inj h)
        exact .empty (htime ▸ hcall) hnone
      next htime =>
        obtain ⟨rfl, rfl⟩ := Prod.mk.inj (Option.some.inj h)
        exact .recvWaits hcall hnone htime
    next hsome =>
      obtain ⟨rfl, rfl⟩ := Prod.mk.inj (Option.some.inj h)
      exact .received hcall hsome rfl

theorem Move.of_run {slept : UInt32} (h : s.run l p slept = some (t, o)) :
    Move l s (.runs p slept) t o := by
  unfold State.run at h
  split at h
  next => simp at h
  next => simp at h
  next c time hphase => exact .of_call (.enters hphase) h
  next c time hphase => exact .of_call (.resumed hphase) h
  next hphase =>
    split at h
    next hk =>
      obtain ⟨rfl, rfl⟩ := Prod.mk.inj (Option.some.inj h)
      exact .copied hphase hk
    next hk =>
      obtain ⟨rfl, rfl⟩ := Prod.mk.inj (Option.some.inj h)
      exact .copiedAll hphase hk
  next hphase =>
    split at h
    next hk =>
      obtain ⟨rfl, rfl⟩ := Prod.mk.inj (Option.some.inj h)
      exact .taken hphase hk
    next hk =>
      obtain ⟨rfl, rfl⟩ := Prod.mk.inj (Option.some.inj h)
      exact .takenAll hphase hk
  next hphase =>
    obtain ⟨u, hfree, heq⟩ := Option.map_eq_some_iff.mp h
    obtain ⟨rfl, rfl⟩ := Prod.mk.inj heq
    exact .undone hphase hfree
  next hphase =>
    obtain ⟨u, hfree, heq⟩ := Option.map_eq_some_iff.mp h
    obtain ⟨rfl, rfl⟩ := Prod.mk.inj heq
    exact .popped hphase hfree

theorem Move.of_step (h : step l s e = some (t, o)) : Move l s e t o := by
  cases e with
  | push p msg timeoutMs =>
    simp only [step] at h
    split at h
    next hidle =>
      obtain ⟨rfl, rfl⟩ := Prod.mk.inj (Option.some.inj h)
      exact .push hidle.1 hidle.2 rfl
    next => simp at h
  | pop p timeoutMs =>
    simp only [step] at h
    split at h
    next hidle =>
      obtain ⟨rfl, rfl⟩ := Prod.mk.inj (Option.some.inj h)
      exact .pop hidle
    next => simp at h
  | runs p slept => exact .of_run h
  | timesOut p =>
    simp only [step] at h
    split at h
    next c time hphase =>
      split at h
      next htime =>
        obtain ⟨rfl, rfl⟩ := Prod.mk.inj (Option.some.inj h)
        exact .timedOut hphase htime
      next => simp at h
    next => simp at h
  | isEmpty =>
    obtain ⟨rfl, rfl⟩ := Prod.mk.inj (Option.some.inj h)
    exact .isEmpty
  | isFull =>
    obtain ⟨rfl, rfl⟩ := Prod.mk.inj (Option.some.inj h)
    exact .isFull

end Moves

section Holders

/-- The block that a thread has in hand. -/
def Call.block? : Call → Option Nat
  | .mbSendWait b => some b
  | _ => none

def Phase.block? : Phase → Option Nat
  | .enters c _ | .suspended c _ | .resumed c _ => c.block?
  | .copies _ _ b _ | .undoes b | .takes b _ | .frees b _ => some b
  | .idle => none

variable {π : Type u} {l : Layout} {s t : State π} {fs ms : List Nat}
  {held : List (π × Nat)} {p q : π} {f : Phase} {b : Nat}

/-- Every block is in one place: free, in the mailbox or in the hands of one thread. -/
structure Custody (l : Layout) (s : State π) (fs ms : List Nat) (held : List (π × Nat)) :
    Prop where
  leads : Leads s.mp.link s.mp.blockList fs
  count : s.mp.blockFreeCount = fs.length
  entry : s.mb.entry = ms.length
  mails : s.mb.msgPool.arc l.numberOfMessages s.mb.outOffset s.mb.entry = ms
  outOffset : s.mb.outOffset < l.numberOfMessages
  inOffset : s.mb.inOffset = (s.mb.outOffset + s.mb.entry) % l.numberOfMessages
  holds : ∀ p b, (p, b) ∈ held ↔ (s.phase p).block? = some b
  perm : (fs ++ ms ++ held.map Prod.snd).Perm (List.range l.numberOfMessages)
  marked : ∀ b ∈ ms ++ held.map Prod.snd, s.mp.link b = .mempool

theorem Custody.length (h : Custody l s fs ms held) :
    fs.length + ms.length + held.length = l.numberOfMessages := by
  simpa [Nat.add_assoc] using h.perm.length_eq

theorem Custody.nodup (h : Custody l s fs ms held) : (fs ++ ms ++ held.map Prod.snd).Nodup :=
  h.perm.nodup_iff.mpr List.nodup_range

theorem Custody.nodup_held (h : Custody l s fs ms held) : held.Nodup :=
  (h.nodup.of_append_right).of_map _

/-- A step that moves no block. -/
theorem Custody.congr (h : Custody l s fs ms held) (hlink : t.mp.link = s.mp.link)
    (hlist : t.mp.blockList = s.mp.blockList)
    (hcount : t.mp.blockFreeCount = s.mp.blockFreeCount) (hmb : t.mb = s.mb)
    (hphase : ∀ p, (t.phase p).block? = (s.phase p).block?) : Custody l t fs ms held where
  leads := by rw [hlink, hlist]; exact h.leads
  count := by rw [hcount]; exact h.count
  entry := by rw [hmb]; exact h.entry
  mails := by rw [hmb]; exact h.mails
  outOffset := by rw [hmb]; exact h.outOffset
  inOffset := by rw [hmb]; exact h.inOffset
  holds p b := by rw [hphase]; exact h.holds p b
  perm := h.perm
  marked := by rw [hlink]; exact h.marked

theorem nextOffset_eq {n : Nat} (hn : n < l.numberOfMessages) :
    nextOffset l n = (n + 1) % l.numberOfMessages := by
  unfold nextOffset
  split
  next hle => rw [show n + 1 = l.numberOfMessages by omega, Nat.mod_self]
  next hlt => rw [Nat.mod_eq_of_lt (by omega)]

/-- A thread that holds a block finds room in the mailbox. -/
theorem Custody.room (h : Custody l s fs ms held) (hp : (s.phase p).block? = some b) :
    s.mb.entry < l.numberOfMessages := by
  have hpos := List.length_pos_of_mem ((h.holds p b).mpr hp)
  have hlen := h.length
  rw [h.entry]
  omega

theorem Custody.blockList {fs ms : List Nat} {held : List (π × Nat)} (h : Custody l s fs ms held)
    (hsome : s.mp.blockFreeCount ≠ 0) : ∃ b, s.mp.blockList = .block b := by
  cases fs with
  | nil => exact absurd h.count hsome
  | cons b fs => exact ⟨b, h.leads.1⟩

/-- No two threads hold the same block. -/
theorem Custody.inj (h : Custody l s fs ms held) (hp : (s.phase p).block? = some b)
    (hq : (s.phase q).block? = some b) : q = p := by
  have hsnd := h.nodup.of_append_right
  have hpair := List.inj_on_of_nodup_map hsnd ((h.holds q b).mpr hq) ((h.holds p b).mpr hp) rfl
  exact congrArg Prod.fst hpair

/-- The block of a thread is not in the mailbox. -/
theorem Custody.not_mail (h : Custody l s fs ms held) (hp : (s.phase p).block? = some b) :
    b ∉ ms := by
  intro hms
  have hnodup := h.nodup
  rw [List.append_assoc] at hnodup
  exact List.disjoint_of_nodup_append hnodup.of_append_right hms
    (List.mem_map_of_mem (f := Prod.snd) ((h.holds p b).mpr hp))

variable [DecidableEq π]

section Unchanged

variable (s) (w : Wait)

@[simp] theorem rtThreadResume_mp : (s.rtThreadResume q).mp = s.mp := by
  unfold State.rtThreadResume
  split <;> rfl

@[simp] theorem rtThreadResume_mb : (s.rtThreadResume q).mb = s.mb := by
  unfold State.rtThreadResume
  split <;> rfl

@[simp] theorem rtThreadResume_data : (s.rtThreadResume q).data = s.data := by
  unfold State.rtThreadResume
  split <;> rfl

@[simp] theorem wakeFirst_mp : (s.wakeFirst w).mp = s.mp := by
  unfold State.wakeFirst
  split <;> simp

@[simp] theorem wakeFirst_mb : (s.wakeFirst w).mb = s.mb := by
  unfold State.wakeFirst
  split <;> simp

@[simp] theorem wakeFirst_data : (s.wakeFirst w).data = s.data := by
  unfold State.wakeFirst
  split <;> simp

end Unchanged

/-- The phases other than that of one thread are as they were. -/
theorem block?_update (hph : f.block? = (s.phase p).block?) (q : π) :
    (Function.update s.phase p f q).block? = (s.phase q).block? := by
  rw [Function.update_apply]
  split
  next heq => rw [heq, hph]
  next => rfl

theorem Custody.goes (h : Custody l s fs ms held) (hph : f.block? = (s.phase p).block?) :
    Custody l (s.goes p f) fs ms held :=
  h.congr rfl rfl rfl rfl (block?_update hph)

theorem block?_rtThreadResume (s : State π) (q p : π) :
    ((s.rtThreadResume q).phase p).block? = (s.phase p).block? := by
  unfold State.rtThreadResume
  split
  next c time hq =>
    have hc : (Phase.resumed c time).block? = (s.phase q).block? := by rw [hq]; rfl
    exact block?_update hc p
  next => rfl

theorem Custody.rtThreadResume (h : Custody l s fs ms held) :
    Custody l (s.rtThreadResume q) fs ms held :=
  h.congr (by simp) (by simp) (by simp) (by simp) (block?_rtThreadResume s q)

theorem Custody.wakeFirst (h : Custody l s fs ms held) (w : Wait) :
    Custody l (s.wakeFirst w) fs ms held := by
  unfold State.wakeFirst
  split
  next => exact h
  next => exact h.rtThreadResume

/-- The holders after a thread has got a block. -/
theorem holds_cons (h : Custody l s fs ms held) (hp : (s.phase p).block? = none)
    (hph : f.block? = some b) (q : π) (c : Nat) :
    (q, c) ∈ (p, b) :: held ↔ (Function.update s.phase p f q).block? = some c := by
  rw [List.mem_cons, h.holds, Function.update_apply]
  split
  next heq =>
    subst heq
    rw [hp, hph]
    simp [eq_comm]
  next hne => simp [hne]

/-- The holders after a thread has given a block away. -/
theorem holds_erase (h : Custody l s fs ms held) (hp : (s.phase p).block? = some b)
    (hph : f.block? = none) (q : π) (c : Nat) :
    (q, c) ∈ held.erase (p, b) ↔ (Function.update s.phase p f q).block? = some c := by
  rw [h.nodup_held.mem_erase_iff, h.holds, Function.update_apply]
  split
  next heq =>
    subst heq
    rw [hp, hph]
    simp [eq_comm]
  next hne => simp [hne]

theorem perm_erase (h : Custody l s fs ms held) (hp : (s.phase p).block? = some b) :
    (held.map Prod.snd).Perm (b :: (held.erase (p, b)).map Prod.snd) :=
  (List.perm_cons_erase ((h.holds p b).mpr hp)).map Prod.snd

/-- `rt_mp_alloc` takes the first free block. -/
theorem Custody.alloc (h : Custody l s fs ms held) (hlist : s.mp.blockList = .block b)
    (hp : (s.phase p).block? = none) (hph : f.block? = some b) :
    ∃ cs, fs = b :: cs ∧
      Custody l ({ s with mp := s.mp.take b }.goes p f) cs ms ((p, b) :: held) := by
  have hleads := h.leads
  rw [hlist] at hleads
  obtain ⟨cs, rfl⟩ := hleads.uncons
  have hnodup := h.nodup
  rw [List.append_assoc, List.cons_append, List.nodup_cons, List.mem_append, not_or] at hnodup
  obtain ⟨⟨hcs, hothers⟩, -⟩ := hnodup
  refine ⟨cs, rfl, ?_⟩
  exact {
    leads := hleads.2.update hcs
    count := congrArg (· - 1) h.count
    entry := h.entry
    mails := h.mails
    outOffset := h.outOffset
    inOffset := h.inOffset
    holds := fun q c => (holds_cons h hp hph q c :)
    perm := by
      refine List.Perm.trans ?_ h.perm
      rw [List.map_cons]
      exact List.perm_middle
    marked := by
      intro c hc
      show Function.update s.mp.link b .mempool c = .mempool
      rw [Function.update_apply]
      split
      next => rfl
      next hne =>
        refine h.marked c ?_
        simpa [hne] using hc }

/-- `rt_mp_free` puts the block in front of the free ones. -/
theorem Custody.free (h : Custody l s fs ms held) (hp : (s.phase p).block? = some b)
    (hph : f.block? = none) (hlink : t.mp.link = (s.mp.put b).link)
    (hlist : t.mp.blockList = (s.mp.put b).blockList)
    (hcount : t.mp.blockFreeCount = (s.mp.put b).blockFreeCount) (hmb : t.mb = s.mb)
    (hphase : ∀ q, (t.phase q).block? = (Function.update s.phase p f q).block?) :
    Custody l t (b :: fs) ms (held.erase (p, b)) := by
  have hperm := perm_erase h hp
  have hall : (b :: fs ++ ms ++ (held.erase (p, b)).map Prod.snd).Perm
      (fs ++ ms ++ held.map Prod.snd) :=
    (List.perm_middle.symm).trans (hperm.symm.append_left _)
  have hnodup := hall.nodup_iff.mpr h.nodup
  rw [List.append_assoc, List.cons_append, List.nodup_cons, List.mem_append, not_or] at hnodup
  obtain ⟨⟨hfs, hothers⟩, -⟩ := hnodup
  exact {
    leads := by rw [hlink, hlist]; exact h.leads.push hfs
    count := by rw [hcount]; exact congrArg (· + 1) h.count
    entry := by rw [hmb]; exact h.entry
    mails := by rw [hmb]; exact h.mails
    outOffset := by rw [hmb]; exact h.outOffset
    inOffset := by rw [hmb]; exact h.inOffset
    holds := fun q c => by rw [hphase]; exact holds_erase h hp hph q c
    perm := hall.trans h.perm
    marked := by
      intro c hc
      have hcb : c ≠ b := fun heq => hothers (heq ▸ hc)
      rw [hlink]
      show Function.update s.mp.link b s.mp.blockList c = .mempool
      rw [Function.update_of_ne hcb]
      refine h.marked c ?_
      rw [List.mem_append] at hc ⊢
      exact hc.imp_right fun hc => hperm.mem_iff.mpr (List.mem_cons_of_mem _ hc) }

/-- `rt_mb_send_wait` puts the block behind the mails. -/
theorem Custody.send (h : Custody l s fs ms held) (hp : (s.phase p).block? = some b)
    (hph : f.block? = none) :
    Custody l ({ s with mb := s.mb.put l b }.goes p f) fs (ms ++ [b]) (held.erase (p, b)) := by
  have hperm := perm_erase h hp
  have hroom := h.room hp
  exact {
    leads := h.leads
    count := h.count
    entry := by
      rw [List.length_append, List.length_singleton, ← h.entry]
      rfl
    mails := by
      show (s.mb.msgPool.write s.mb.inOffset [b]).arc _ s.mb.outOffset (s.mb.entry + 1) = _
      rw [h.inOffset, Mem.arc_push b hroom, h.mails]
    outOffset := h.outOffset
    inOffset := by
      show nextOffset l s.mb.inOffset = (s.mb.outOffset + (s.mb.entry + 1)) % _
      rw [nextOffset_eq (h.inOffset ▸ Nat.mod_lt _ l.pos), h.inOffset, Nat.mod_add_mod,
        Nat.add_assoc]
    holds := fun q c => (holds_erase h hp hph q c :)
    perm := by
      refine List.Perm.trans ?_ h.perm
      rw [List.append_assoc, List.append_assoc, List.append_assoc, List.singleton_append]
      exact (hperm.symm.append_left _).append_left _
    marked := by
      intro c hc
      refine h.marked c ?_
      rw [List.append_assoc, List.singleton_append, List.mem_append] at hc
      rw [List.mem_append]
      exact hc.imp_right hperm.mem_iff.mpr }

/-- `rt_mb_recv` takes the oldest mail. -/
theorem Custody.recv (h : Custody l s fs ms held) (hentry : s.mb.entry ≠ 0)
    (hb : s.mb.msgPool s.mb.outOffset = b) (hp : (s.phase p).block? = none)
    (hph : f.block? = some b) :
    ∃ ns, ms = b :: ns ∧
      Custody l ({ s with mb := s.mb.take l }.goes p f) fs ns ((p, b) :: held) := by
  obtain ⟨k, hk⟩ := Nat.exists_eq_succ_of_ne_zero hentry
  have harc := h.mails
  rw [hk, Nat.succ_eq_add_one, Mem.arc_succ, Nat.mod_eq_of_lt h.outOffset, hb] at harc
  have hnext := nextOffset_eq h.outOffset
  refine ⟨_, harc.symm, ?_⟩
  have htail : (s.mb.take l).entry = k := Nat.sub_eq_of_eq_add hk
  exact {
    leads := h.leads
    count := h.count
    entry := by
      rw [Mem.length_arc]
      exact htail
    mails := by
      show s.mb.msgPool.arc _ (nextOffset l s.mb.outOffset) (s.mb.take l).entry = _
      rw [htail, hnext]
      simp only [Mem.arc, circle_mod]
    outOffset := by
      show nextOffset l s.mb.outOffset < _
      rw [hnext]
      exact Nat.mod_lt _ l.pos
    inOffset := by
      show s.mb.inOffset = (nextOffset l s.mb.outOffset + (s.mb.take l).entry) % _
      rw [htail, hnext, Nat.mod_add_mod, h.inOffset, hk]
      congr 1
      omega
    holds := fun q c => (holds_cons h hp hph q c :)
    perm := by
      refine List.Perm.trans ?_ h.perm
      rw [← harc, List.map_cons, List.append_assoc, List.append_assoc]
      exact (List.perm_middle).append_left _
    marked := by
      intro c hc
      refine h.marked c ?_
      rw [← harc]
      rw [List.map_cons] at hc
      exact List.perm_middle.mem_iff.mp hc }

end Holders

section Refinement

open Places (Hold Store Act Answer)

variable {π : Type u} {l : Layout} {data data' : Nat → Mem UInt8} {f : Phase}
  {x : Hold Message}

/-- The message that is in a block. -/
def message (l : Layout) (data : Nat → Mem UInt8) (b : Nat) : Message :=
  (data b).read 0 l.messageSize

/-- What a user of the queue sees of a thread. -/
def Phase.Shows (l : Layout) (data : Nat → Mem UInt8) (x : Hold Message) : Phase → Prop
  | .idle => x = .out
  | .enters (.mpAlloc msg ticks) time =>
    x = .wants msg (ticks ≠ 0) ∧ msg.length = l.messageSize ∧ time = ticks
  | .suspended (.mpAlloc msg _) _ | .resumed (.mpAlloc msg _) _ =>
    x = .wants msg true ∧ msg.length = l.messageSize
  | .copies msg _ b k =>
    x = .fills msg ∧ msg.length = l.messageSize ∧ k ≤ msg.length ∧ (data b).read 0 k = msg.take k
  | .enters (.mbSendWait b) _ => x = .fills (message l data b)
  | .suspended (.mbSendWait _) _ | .resumed (.mbSendWait _) _ | .undoes _ => False
  | .enters .mbRecv time => x = .asks (time ≠ 0)
  | .suspended .mbRecv _ | .resumed .mbRecv _ => x = .asks true
  | .takes b got =>
    x = .empties (message l data b) ∧ got.length ≤ l.messageSize ∧
      got = (data b).read 0 got.length
  | .frees _ got => x = .empties got

/-- A thread is not concerned with blocks other than its own. -/
theorem shows_congr (h : f.Shows l data x) (hdata : ∀ b, f.block? = some b → data' b = data b) :
    f.Shows l data' x := by
  cases f with
  | idle | undoes | frees => exact h
  | enters c | suspended c | resumed c =>
    cases c with
    | mpAlloc | mbRecv => exact h
    | mbSendWait b =>
      first
        | exact h
        | exact Eq.trans h (by rw [message, message, hdata b rfl])
  | copies msg ticks b k => simpa [Phase.Shows, hdata b rfl] using h
  | takes b got => simpa [Phase.Shows, message, hdata b rfl] using h

/-- The bounded queue that the threads see. -/
def Refines (l : Layout) (s : State π) (a : Store π Message) : Prop :=
  ∃ fs ms held, Custody l s fs ms held ∧ a.free = fs.length ∧
    a.contents = ms.map (message l s.data) ∧ ∀ p, (s.phase p).Shows l s.data (a.hold p)

variable {s : State π} {a : Store π Message} {p q : π}

theorem Refines.setSuspendThreadCount (h : Refines l s a) (n : UInt32) :
    Refines l { s with mp := s.mp.setSuspendThreadCount n } a := by
  obtain ⟨fs, ms, held, hc, hrest⟩ := h
  exact ⟨fs, ms, held, hc.congr rfl rfl rfl rfl fun _ => rfl, hrest⟩

variable {slept : UInt32} {time : Int32}

/-- What a thread shows in front of the section of a call. -/
theorem shows_atCall {c : Call} (h : (s.phase p).Shows l data x) (hcall : AtCall s p slept c time) :
    match c with
    | .mpAlloc msg _ => ∃ w, x = .wants msg w ∧ msg.length = l.messageSize ∧ (time ≠ 0 → w = true)
    | .mbSendWait b => x = .fills (message l data b)
    | .mbRecv => ∃ w, x = .asks w ∧ (time ≠ 0 → w = true) := by
  cases hcall with
  | enters hphase =>
    rw [hphase] at h
    cases c with
    | mpAlloc msg ticks =>
      obtain ⟨hx, hlen, rfl⟩ := h
      exact ⟨_, hx, hlen, decide_eq_true⟩
    | mbSendWait b => exact h
    | mbRecv => exact ⟨_, h, decide_eq_true⟩
  | resumed hphase =>
    rw [hphase] at h
    cases c with
    | mpAlloc msg ticks => exact ⟨true, h.1, h.2, fun _ => rfl⟩
    | mbSendWait b => exact h.elim
    | mbRecv => exact ⟨true, h, fun _ => rfl⟩

theorem AtCall.block? {c : Call} (hcall : AtCall s p slept c time) :
    (s.phase p).block? = c.block? := by
  cases hcall with
  | enters hphase | resumed hphase => rw [hphase]; rfl

theorem refines_init :
    Refines (π := π) l (rtosInitQueue l) ⟨l.numberOfMessages, [], fun _ => .out⟩ :=
  ⟨List.range l.numberOfMessages, [], [],
    { leads := leads_rtMpCreate l
      count := List.length_range.symm
      entry := rfl
      mails := rfl
      outOffset := l.pos
      inOffset := (Nat.mod_eq_of_lt l.pos).symm
      holds := fun p b => by simp [rtosInitQueue, Phase.block?]
      perm := by simp
      marked := by simp },
    List.length_range.symm, rfl, fun _ => rfl⟩

variable [DecidableEq π]

theorem shows_update {hold : π → Hold Message} (h : ∀ q, (s.phase q).Shows l data (hold q))
    (hp : f.Shows l data x) (q : π) :
    (Function.update s.phase p f q).Shows l data (Function.update hold p x q) := by
  rw [Function.update_apply, Function.update_apply]
  split
  next => exact hp
  next => exact h q

/-- A thread that has been resumed shows what it showed before. -/
theorem shows_resume {hold : π → Hold Message} (h : ∀ q, (s.phase q).Shows l data (hold q))
    (p q : π) : ((s.rtThreadResume q).phase p).Shows l data (hold p) := by
  unfold State.rtThreadResume
  split
  next c time hq =>
    have hshow : (Phase.resumed c time).Shows l data (hold q) := by
      have := h q
      rw [hq] at this
      cases c <;> exact this
    have := shows_update h hshow p (p := q)
    rwa [Function.update_eq_self] at this
  next => exact h p

theorem shows_wakeFirst {hold : π → Hold Message} (h : ∀ q, (s.phase q).Shows l data (hold q))
    (w : Wait) (p : π) : ((s.wakeFirst w).phase p).Shows l data (hold p) := by
  unfold State.wakeFirst
  split
  next => exact h p
  next => exact shows_resume h p _

/-- The call of a push or pop may leave the thread waiting. -/
def waits (timeoutMs : UInt32) : Bool := rtTickFromMillisecond timeoutMs.toInt32 ≠ 0

/-- What the users of the bounded queue see of a step. -/
def observe : Event π × Reply → Act π Message × Answer Message
  | (.push p msg timeoutMs, _) => (.push p msg (waits timeoutMs), .done)
  | (.pop p timeoutMs, _) => (.pop p (waits timeoutMs), .done)
  | (.runs p _, .allocated) => (.reserve p, .done)
  | (.runs p _, .sent) => (.put p, .done)
  | (.runs p _, .received) => (.take p, .done)
  | (.runs p _, .popped msg) => (.release p, .item msg)
  | (.runs p _, .refused) | (.runs p _, .empty) | (.timesOut p, _) => (.refuse p, .done)
  | (.isEmpty, .truth b) => (.isEmpty, .truth b)
  | (.isFull, .truth b) => (.isFull, .truth b)
  | _ => (.other, .done)

/-- The bounded queue can follow the step. -/
def Follows (l : Layout) (a : Store π Message) (e : Event π) (t : State π) (o : Reply) : Prop :=
  ∃ b, Places.step l.numberOfMessages a (observe (e, o)).1 = some (b, (observe (e, o)).2) ∧
    Refines l t b

variable {t : State π} {o : Reply} {msg : Message} {ticks : Int32}

theorem Refines.goes (h : Refines l s a) (hb : f.block? = (s.phase p).block?)
    (hshow : f.Shows l s.data x) : Refines l (s.goes p f) (a.goes p x) := by
  obtain ⟨fs, ms, held, hc, hfree, hcontents, hshows⟩ := h
  exact ⟨fs, ms, held, hc.goes hb, hfree, hcontents, shows_update hshows hshow⟩

/-- A thread goes on without the others' seeing it. -/
theorem Refines.quiet (h : Refines l s a) (hb : f.block? = (s.phase p).block?)
    (hshow : f.Shows l s.data (a.hold p)) : Refines l (s.goes p f) a := by
  have := h.goes hb hshow
  rwa [Store.goes, Function.update_eq_self] at this

theorem Refines.suspend (h : Refines l s a) {c : Call} (hb : c.block? = (s.phase p).block?)
    (hshow : (Phase.suspended c time).Shows l s.data (a.hold p)) :
    Refines l (s.suspend p c time) a := by
  obtain ⟨fs, ms, held, hc, hfree, hcontents, hshows⟩ := h
  refine ⟨fs, ms, held, hc.congr rfl rfl rfl rfl (block?_update hb), hfree, hcontents, ?_⟩
  have := shows_update hshows hshow (p := p)
  rwa [Function.update_eq_self] at this

/-- What `rt_mp_free` does when it does not go astray. -/
theorem rtMpFree_cases {b : Nat} (h : rtMpFree s b = some t) :
    s.mp.suspendThreadCount = 0 ∧ t = { s with mp := s.mp.put b } ∨
      ∃ q rest, s.lists .block = q :: rest ∧
        t = ({ s with
          mp := (s.mp.put b).setSuspendThreadCount (s.mp.suspendThreadCount - 1)
          }).rtThreadResume q := by
  unfold rtMpFree at h
  split at h
  next =>
    split at h
    next =>
      split at h
      next => simp at h
      next q rest hlist => exact .inr ⟨q, rest, hlist, (Option.some.inj h).symm⟩
    next hzero =>
      exact .inl ⟨UInt32.le_zero_iff.mp (UInt32.not_lt.mp hzero), (Option.some.inj h).symm⟩
  next => simp at h

theorem Refines.mpFree {b : Nat} {got : Message} (h : Refines l s a)
    (hb : (s.phase p).block? = some b) (hhold : a.hold p = .empties got)
    (hrun : rtMpFree s b = some t) :
    Follows l a (.runs p slept) (t.goes p .idle) (.popped got) := by
  obtain ⟨fs, ms, held, hc, hfree, hcontents, hshows⟩ := h
  refine ⟨{ a with free := a.free + 1 }.goes p .out, by simp [Places.step, observe, hhold],
    b :: fs, ms, held.erase (p, b), ?_, congrArg (· + 1) hfree, ?_⟩
  · rcases rtMpFree_cases hrun with ⟨-, rfl⟩ | ⟨q, -, -, rfl⟩
    · exact hc.free hb (f := .idle) rfl rfl rfl rfl rfl fun _ => rfl
    · refine hc.free hb (f := .idle) rfl ?_ ?_ ?_ ?_ fun r => ?_
      iterate 4 simp [State.goes, Mempool.setSuspendThreadCount]
      simp only [State.goes, Function.update_apply]
      split
      next => rfl
      next => exact block?_rtThreadResume _ q r
  · rcases rtMpFree_cases hrun with ⟨-, rfl⟩ | ⟨q, -, -, rfl⟩
    · exact ⟨hcontents, shows_update hshows (f := .idle) rfl⟩
    · refine ⟨by simpa [State.goes, Store.goes] using hcontents, fun r => ?_⟩
      have hresumed := shows_resume hshows (q := q) (s := { s with
        mp := (s.mp.put b).setSuspendThreadCount (s.mp.suspendThreadCount - 1) })
      simpa [State.goes, Store.goes] using shows_update hresumed (p := p) (f := .idle) rfl r

/-- A byte that goes into the block of one thread is seen by no other. -/
theorem Refines.copies {b k : Nat} (h : Refines l s a) (hphase : s.phase p = .copies msg ticks b k)
    (hk : k < msg.length) :
    Refines l ({ s with data := Function.update s.data b ((s.data b).write k [msg[k]]) }.goes p
      (.copies msg ticks b (k + 1))) a := by
  obtain ⟨fs, ms, held, hc, hfree, hcontents, hshows⟩ := h
  have hb : (s.phase p).block? = some b := by rw [hphase]; rfl
  have hp := hshows p
  rw [hphase] at hp
  obtain ⟨hhold, hlen, -, hread⟩ := hp
  refine ⟨fs, ms, held, hc.congr rfl rfl rfl rfl (block?_update hb.symm), hfree, ?_, ?_⟩
  · rw [hcontents]
    refine List.map_congr_left fun c hcms => ?_
    have hne : c ≠ b := fun heq => hc.not_mail hb (heq ▸ hcms)
    simp [message, State.goes, Function.update_of_ne hne]
  · intro q
    by_cases hq : q = p
    · subst hq
      simp only [State.goes, Function.update_self]
      refine ⟨hhold, hlen, hk, ?_⟩
      rw [Function.update_self, Mem.read_add, Mem.read_write_of_le _ _ (by omega), hread,
        Nat.zero_add, List.take_add_one, List.getElem?_eq_getElem hk]
      exact congrArg _ (Mem.read_write_self _ k [msg[k]])
    · simp only [State.goes, Function.update_of_ne hq]
      refine shows_congr (hshows q) fun c hcq => Function.update_of_ne ?_ _ _
      rintro rfl
      exact hq (hc.inj hb hcq)

theorem Refines.step {e : Event π} (h : Refines l s a) (hmove : Move l s e t o) :
    Follows l a e t o := by
  obtain ⟨fs, ms, held, hc, hfree, hcontents, hshows⟩ := id h
  cases hmove with
  | @push p msg timeoutMs ticks hidle hlen hticks =>
    have hhold := hshows p
    rw [hidle] at hhold
    refine ⟨a.goes p (.wants msg (waits timeoutMs)), ?_, h.goes (by rw [hidle]; rfl) ?_⟩
    · simp [Places.step, observe, show a.hold p = .out from hhold]
    · exact ⟨by rw [hticks]; rfl, hlen, rfl⟩
  | @pop p timeoutMs hidle =>
    have hhold := hshows p
    rw [hidle] at hhold
    refine ⟨a.goes p (.asks (waits timeoutMs)), ?_, h.goes (by rw [hidle]; rfl) rfl⟩
    simp [Places.step, observe, show a.hold p = .out from hhold]
  | @refused p _ _ _ hcall hnone =>
    obtain ⟨w, hhold, -, -⟩ := shows_atCall (hshows p) hcall
    refine ⟨a.goes p .out, ?_, h.goes hcall.block?.symm rfl⟩
    have hzero : a.free = 0 := by rw [hfree, ← hc.count, hnone]
    simp [Places.step, observe, hhold, hzero]
  | @allocWaits p _ msg ticks time hcall hnone htime =>
    obtain ⟨w, hhold, hlen, hw⟩ := shows_atCall (hshows p) hcall
    refine ⟨a, rfl, (h.setSuspendThreadCount _).suspend (c := .mpAlloc msg ticks)
      hcall.block?.symm ⟨?_, hlen⟩⟩
    rw [hhold, hw htime]
  | @allocated p _ msg ticks time b hcall hsome hlist =>
    obtain ⟨w, hhold, hlen, -⟩ := shows_atCall (hshows p) hcall
    obtain ⟨cs, rfl, hc'⟩ := hc.alloc (f := .copies msg ticks b 0) hlist hcall.block? rfl
    have hpos : 0 < a.free := hfree ▸ Nat.succ_pos _
    refine ⟨{ a with free := a.free - 1 }.goes p (.fills msg), ?_, cs, ms, _, hc',
      congrArg (· - 1) hfree, hcontents, ?_⟩
    · simp [Places.step, observe, hhold, hpos]
    · exact shows_update hshows (f := .copies msg ticks b 0) ⟨rfl, hlen, Nat.zero_le _, rfl⟩
  | full hcall hfull | sendWaits hcall hfull =>
    exact absurd hfull (Nat.ne_of_lt (hc.room hcall.block?))
  | @sent p _ b _ hcall hroom =>
    have hhold := shows_atCall (hshows p) hcall
    refine ⟨{ a with contents := a.contents ++ [message l s.data b] }.goes p .out, ?_,
      fs, ms ++ [b], _, (hc.send hcall.block? (f := .idle) rfl).wakeFirst _, hfree, ?_, ?_⟩
    · simp [Places.step, observe, show a.hold p = _ from hhold]
    · show a.contents ++ _ = _
      rw [hcontents, List.map_append]
      simp [State.goes]
    · intro q
      rw [wakeFirst_data]
      exact shows_wakeFirst (shows_update hshows (f := .idle) rfl) _ q
  | @empty p _ hcall hnone =>
    obtain ⟨w, hhold, -⟩ := shows_atCall (hshows p) hcall
    refine ⟨a.goes p .out, ?_, h.goes hcall.block?.symm rfl⟩
    have hms : ms = [] := List.length_eq_zero_iff.mp (hc.entry ▸ hnone)
    have hempty : a.contents = [] := by rw [hcontents, hms, List.map_nil]
    simp [Places.step, observe, hhold, hempty]
  | @recvWaits p _ time hcall hnone htime =>
    obtain ⟨w, hhold, hw⟩ := shows_atCall (hshows p) hcall
    refine ⟨a, rfl, h.suspend (c := .mbRecv) hcall.block?.symm ?_⟩
    rw [hhold, hw htime]
    rfl
  | @received p _ time b hcall hsome hb =>
    obtain ⟨w, hhold, -⟩ := shows_atCall (hshows p) hcall
    obtain ⟨ns, rfl, hc'⟩ := hc.recv hsome hb hcall.block? (f := .takes b []) rfl
    refine ⟨{ a with contents := ns.map (message l s.data) }.goes p
      (.empties (message l s.data b)), ?_, fs, ns, _, hc'.wakeFirst _, hfree, ?_, ?_⟩
    · have hfirst : a.contents = message l s.data b :: ns.map (message l s.data) := hcontents
      simp [Places.step, observe, hhold, hfirst]
    · simp [State.goes, Store.goes]
    · intro q
      rw [wakeFirst_data]
      exact shows_wakeFirst
        (shows_update hshows (f := .takes b []) ⟨rfl, Nat.zero_le _, rfl⟩) _ q
  | @copied p _ msg ticks b k hphase hk => exact ⟨a, rfl, h.copies hphase hk⟩
  | @copiedAll p _ msg ticks b k hphase hk =>
    have hp := hshows p
    rw [hphase] at hp
    obtain ⟨hhold, hlen, hle, hread⟩ := hp
    refine ⟨a, rfl, h.quiet (by rw [hphase]; rfl) (hhold.trans ?_)⟩
    rw [show k = msg.length by omega, List.take_length] at hread
    rw [message, ← hlen, hread]
  | @taken p _ b got hphase hk =>
    have hp := hshows p
    rw [hphase] at hp
    obtain ⟨hhold, -, hread⟩ := hp
    refine ⟨a, rfl, h.quiet (by rw [hphase]; rfl) ⟨hhold, ?_, ?_⟩⟩
    · rw [List.length_append]
      exact hk
    · rw [List.length_append, List.length_singleton, Mem.read_add, ← hread, Nat.zero_add]
      rfl
  | @takenAll p _ b got hphase hk =>
    have hp := hshows p
    rw [hphase] at hp
    obtain ⟨hhold, hlen, hread⟩ := hp
    refine ⟨a, rfl, h.quiet (by rw [hphase]; rfl) (hhold.trans ?_)⟩
    rw [message, hread, show got.length = l.messageSize by omega]
  | @undone p _ _ _ hphase hfree =>
    have hp := hshows p
    rw [hphase] at hp
    exact hp.elim
  | @popped p _ b got u hphase hrun =>
    have hp := hshows p
    rw [hphase] at hp
    exact h.mpFree (by rw [hphase]; rfl) hp hrun
  | @timedOut p c time hphase htime =>
    have hp := hshows p
    rw [hphase] at hp
    have hunlisted : Refines l (s.unlist p) a :=
      ⟨fs, ms, held, hc.congr rfl rfl rfl rfl fun _ => rfl, hfree, hcontents, hshows⟩
    cases c with
    | mpAlloc msg ticks =>
      refine ⟨a.goes p .out, ?_, hunlisted.goes (by rw [State.unlist, hphase]; rfl) rfl⟩
      simp [Places.step, observe, hp.1]
    | mbSendWait b => exact hp.elim
    | mbRecv =>
      refine ⟨a.goes p .out, ?_, hunlisted.goes (by rw [State.unlist, hphase]; rfl) rfl⟩
      simp [Places.step, observe, show a.hold p = .asks true from hp]
  | isEmpty =>
    refine ⟨a, ?_, h⟩
    have hempty : a.contents.isEmpty = decide (s.mb.entry = 0) := by
      rw [hcontents, hc.entry]
      cases ms <;> simp
    simp [Places.step, observe, hempty]
  | isFull =>
    refine ⟨a, ?_, h⟩
    simp [Places.step, observe, hcontents, hc.entry]

/-- In every interleaving the queue is, for its users, a bounded queue with the given number of
places: each message that a pop returns is the oldest one of those put in and not yet taken out,
byte for byte as it was pushed, and a call that does not wait fails only while no place is free,
or nothing is queued. -/
theorem queue_refines {h : Machine.History (Event π) Reply}
    (hr : (machine l π).Reaches h s) :
    ∃ a, (Places.machine π Message l.numberOfMessages).Reaches (h.map observe) a ∧ Refines l s a :=
  Machine.ReachesUnder.simulates (A := Places.machine π Message l.numberOfMessages) observe
    (Refines l) refines_init (fun hrefines _ hstep => hrefines.step (.of_step hstep)) hr

/-- One byte each and a single place. -/
def onePlace : Layout := ⟨1, 1, by decide, by decide⟩

def pushAlone (p : Bool) (x : UInt8) : List (Event Bool) :=
  .push p [x] 0 :: List.replicate 4 (.runs p 0)

theorem queue_refines_pushAlone : ∃ h s a, (machine onePlace Bool).Reaches h s ∧
    h.map (·.2) = [.called, .allocated, .copied, .called, .sent] ∧
    (Places.machine Bool Message 1).Reaches (h.map observe) a ∧ Refines onePlace s a := by
  obtain ⟨h, s, hx, hreplies⟩ : ∃ h s, (machine onePlace Bool).exec (pushAlone false 7) =
      some (h, s) ∧ h.map (·.2) = [.called, .allocated, .copied, .called, .sent] :=
    ⟨_, _, rfl, rfl⟩
  obtain ⟨a, ha, hrefines⟩ := queue_refines (Machine.reaches_of_exec hx)
  exact ⟨h, s, a, Machine.reaches_of_exec hx, hreplies, ha, hrefines⟩

end Refinement

section Waiting

variable {π : Type u} {l : Layout} {s t : State π} {lists : Wait → List π} {phase : π → Phase}
  {p q : π} {f : Phase} {w : Wait} {c : Call} {time : Int32} {o : Reply} {slept : UInt32}
  {n : Nat}

def Phase.suspended? : Phase → Option Wait
  | .suspended c _ => some c.wait
  | _ => none

def Phase.resumed? : Phase → Option Wait
  | .resumed c _ => some c.wait
  | _ => none

/-- Each suspended thread is once in the list of its call, and no other thread is in a list. -/
structure Listed (lists : Wait → List π) (phase : π → Phase) : Prop where
  mem : ∀ w p, p ∈ lists w ↔ (phase p).suspended? = some w
  nodup : ∀ w, (lists w).Nodup

/-- At least `n` threads have been resumed out of the list and have not run since. -/
def Woken (phase : π → Phase) (w : Wait) (n : Nat) : Prop :=
  ∃ ps : List π, ps.Nodup ∧ (∀ p ∈ ps, (phase p).resumed? = some w) ∧ n ≤ ps.length

theorem woken_zero : Woken phase w 0 := ⟨[], .nil, by simp, Nat.le_refl 0⟩

theorem AtCall.suspended? (h : AtCall s p slept c time) : (s.phase p).suspended? = none := by
  cases h with
  | enters hphase | resumed hphase => rw [hphase]; rfl

theorem AtCall.resumed? (h : AtCall s p slept c time) (hw : w ≠ c.wait) :
    (s.phase p).resumed? ≠ some w := by
  cases h with
  | enters hphase => simp [hphase, Phase.resumed?]
  | resumed hphase => simpa [hphase, Phase.resumed?] using hw.symm

/-- What the waiting threads of a list wait for, and how much of it there is. -/
def State.offers (s : State π) : Wait → Nat
  | .block => s.mp.blockFreeCount
  | .receiver => s.mb.entry
  | .sender => 0

/-- While threads wait in a list, for each thing on offer one has been resumed. -/
def Awake (lists : Wait → List π) (phase : π → Phase) (offers : Wait → Nat) : Prop :=
  ∀ w, lists w ≠ [] → Woken phase w (offers w)

variable {offers g : Wait → Nat}

theorem Awake.mono (ha : Awake lists phase offers) (hle : ∀ w, lists w ≠ [] → g w ≤ offers w) :
    Awake lists phase g := by
  intro w hw
  obtain ⟨ps, hnodup, hall, hn⟩ := ha w hw
  exact ⟨ps, hnodup, hall, (hle w hw).trans hn⟩

variable [DecidableEq π]

theorem Listed.goes (h : Listed lists phase) (hp : (phase p).suspended? = none)
    (hph : f.suspended? = none) : Listed lists (Function.update phase p f) where
  mem w q := by
    rw [h.mem, Function.update_apply]
    split
    next heq => rw [heq, hp, hph]
    next => rfl
  nodup := h.nodup

theorem Listed.suspend (h : Listed lists phase) (hp : (phase p).suspended? = none)
    {ps : List π} (hps : ps.Perm (p :: lists c.wait)) :
    Listed (Function.update lists c.wait ps)
      (Function.update phase p (.suspended c time)) where
  mem w q := by
    rw [Function.update_apply, Function.update_apply]
    have hother := h.mem w q
    split
    next hw =>
      subst hw
      rw [hps.mem_iff, List.mem_cons, h.mem]
      split
      next heq => simp [heq, Phase.suspended?]
      next hne => simp [hne]
    next hw =>
      rw [hother]
      split
      next heq =>
        rw [heq, hp]
        simp [Phase.suspended?, Ne.symm hw]
      next hne => rfl
  nodup w := by
    rw [Function.update_apply]
    split
    next hw =>
      have hout : p ∉ lists c.wait := by simp [h.mem, hp]
      exact hps.nodup_iff.mpr (List.nodup_cons.mpr ⟨hout, h.nodup _⟩)
    next => exact h.nodup w

theorem Listed.unlist (h : Listed lists phase) (hph : f.suspended? = none) :
    Listed (fun w => (lists w).erase p) (Function.update phase p f) where
  mem w q := by
    rw [(h.nodup w).mem_erase_iff, h.mem, Function.update_apply]
    split
    next heq => simp [heq, hph]
    next hne => simp [hne]
  nodup w := (h.nodup w).erase p

theorem Listed.length_erase (h : Listed lists phase) (hp : phase p = .suspended c time) :
    ((lists w).erase p).length + (if c.wait = w then 1 else 0) = (lists w).length := by
  have hmem := h.mem w p
  rw [hp] at hmem
  split
  next hw =>
    have hin : p ∈ lists w := hmem.mpr (congrArg some hw)
    rw [List.length_erase_of_mem hin]
    have := List.length_pos_of_mem hin
    omega
  next hw =>
    have hout : p ∉ lists w := fun hin => hw (Option.some.inj (hmem.mp hin))
    rw [List.erase_of_not_mem hout, Nat.add_zero]

/-- The thread at the head of a list is resumed. -/
theorem Listed.resume (h : Listed s.lists s.phase) {rest : List π} (hlist : s.lists w = q :: rest) :
    ∃ c time, s.phase q = .suspended c time ∧ c.wait = w ∧
      s.rtThreadResume q = (s.unlist q).goes q (.resumed c time) := by
  have hq := (h.mem w q).mp (hlist ▸ List.mem_cons_self ..)
  cases hphase : s.phase q with
  | suspended c time =>
    rw [hphase] at hq
    exact ⟨c, time, rfl, Option.some.inj hq, by simp only [State.rtThreadResume, hphase]⟩
  | _ => simp [hphase, Phase.suspended?] at hq

theorem Woken.goes (h : Woken phase w n) (hp : (phase p).resumed? ≠ some w) :
    Woken (Function.update phase p f) w n := by
  obtain ⟨ps, hnodup, hall, hn⟩ := h
  refine ⟨ps, hnodup, fun q hq => ?_, hn⟩
  have hne : q ≠ p := by
    rintro rfl
    exact hp (hall q hq)
  rw [Function.update_of_ne hne]
  exact hall q hq

/-- A thread that runs is no longer one of those resumed. -/
theorem Woken.spend (h : Woken phase w n) : Woken (Function.update phase p f) w (n - 1) := by
  obtain ⟨ps, hnodup, hall, hn⟩ := h
  refine ⟨ps.erase p, hnodup.erase p, fun q hq => ?_, ?_⟩
  · obtain ⟨hne, hq⟩ := hnodup.mem_erase_iff.mp hq
    rw [Function.update_of_ne hne]
    exact hall q hq
  · rw [List.length_erase]
    split <;> omega

theorem Woken.wake (h : Woken phase c.wait n) (hq : phase q = .suspended c time) :
    Woken (Function.update phase q (.resumed c time)) c.wait (n + 1) := by
  obtain ⟨ps, hnodup, hall, hn⟩ := h
  have hout : q ∉ ps := fun hin => by
    have := hall q hin
    simp [hq, Phase.resumed?] at this
  refine ⟨q :: ps, List.nodup_cons.mpr ⟨hout, hnodup⟩, fun r hr => ?_, Nat.succ_le_succ hn⟩
  rcases List.mem_cons.mp hr with rfl | hr
  · rw [Function.update_self]
    rfl
  · have hne : r ≠ q := fun heq => hout (heq ▸ hr)
    rw [Function.update_of_ne hne]
    exact hall r hr

/-- `suspend_thread_count` is the length of the pool's list and `k` more. -/
structure Waiting (k : Nat) (s : State π) : Prop where
  listed : Listed s.lists s.phase
  count : s.mp.suspendThreadCount = UInt32.ofNat ((s.lists .block).length + k)

variable {k m : Nat}

theorem Waiting.goes (hi : Waiting k s) (hp : (s.phase p).suspended? = none)
    (hph : f.suspended? = none) : Waiting k (s.goes p f) :=
  ⟨hi.listed.goes hp hph, hi.count⟩

theorem Waiting.suspend (hi : Waiting k s) (hp : (s.phase p).suspended? = none) {n : UInt32}
    (hn : n = s.mp.suspendThreadCount + if c.wait = .block then 1 else 0) :
    Waiting k ({ s with mp := s.mp.setSuspendThreadCount n }.suspend p c time) where
  listed := by
    refine hi.listed.suspend hp ?_
    split
    next => exact .refl _
    next => exact List.perm_append_singleton p _
  count := by
    show n = UInt32.ofNat ((Function.update s.lists c.wait _ .block).length + k)
    rw [hn, hi.count, Function.update_apply]
    by_cases hw : c.wait = .block
    · rw [if_pos hw, if_pos hw.symm, if_pos hw, List.length_cons, Nat.add_right_comm, hw]
      exact (UInt32.ofNat_add ..).symm
    · rw [if_neg hw, if_neg (Ne.symm hw), UInt32.add_zero]

/-- A thread is taken off its list; the count has to go down with the pool's. -/
theorem Waiting.unlist (hi : Waiting k s) (hp : s.phase p = .suspended c time)
    (hph : f.suspended? = none) (mp : Mempool)
    (hcount : ∀ len, s.mp.suspendThreadCount =
      UInt32.ofNat (len + (if c.wait = .block then 1 else 0) + k) →
      mp.suspendThreadCount = UInt32.ofNat (len + m)) :
    Waiting m (({ s with mp }.unlist p).goes p f) where
  listed := hi.listed.unlist hph
  count := by
    refine hcount ((s.lists .block).erase p).length ?_
    rw [hi.listed.length_erase hp]
    exact hi.count

theorem Waiting.wakeFirst (hi : Waiting k s) (hw : w ≠ .block) : Waiting k (s.wakeFirst w) := by
  unfold State.wakeFirst
  split
  next => exact hi
  next q rest hlist =>
    obtain ⟨c, time, hq, hcw, heq⟩ := hi.listed.resume hlist
    rw [heq]
    refine hi.unlist hq rfl s.mp fun len hlen => ?_
    rwa [if_neg (hcw ▸ hw)] at hlen

theorem Waiting.mpFree {b : Nat} (hi : Waiting k s) (hfree : rtMpFree s b = some t) :
    Waiting k t := by
  rcases rtMpFree_cases hfree with ⟨-, rfl⟩ | ⟨q, rest, hlist, rfl⟩
  · exact ⟨hi.listed, hi.count⟩
  · have hi' : Waiting k { s with mp := (s.mp.put b) } := ⟨hi.listed, hi.count⟩
    obtain ⟨c, time, hq, hcw, heq⟩ := Listed.resume (s := { s with
      mp := (s.mp.put b).setSuspendThreadCount (s.mp.suspendThreadCount - 1) }) hi.listed hlist
    rw [heq]
    refine hi'.unlist hq rfl _ fun len hlen => ?_
    have hcount : s.mp.suspendThreadCount = UInt32.ofNat (len + 1 + k) := by
      rwa [if_pos hcw] at hlen
    show s.mp.suspendThreadCount - 1 = _
    rw [hcount, Nat.add_right_comm, UInt32.ofNat_add]
    exact UInt32.add_sub_cancel ..

theorem phase_of_mpFree {b : Nat} (hl : Listed s.lists s.phase) (hfree : rtMpFree s b = some t)
    (hp : (s.phase p).suspended? = none) : t.phase p = s.phase p := by
  rcases rtMpFree_cases hfree with ⟨-, rfl⟩ | ⟨q, rest, hlist, rfl⟩
  · rfl
  · obtain ⟨c, time, hq, -, heq⟩ := Listed.resume (s := { s with
      mp := (s.mp.put b).setSuspendThreadCount (s.mp.suspendThreadCount - 1) }) hl hlist
    have hne : p ≠ q := by
      rintro rfl
      have hsus : (s.phase p).suspended? = some c.wait := congrArg Phase.suspended? hq
      simp [hp] at hsus
    rw [heq]
    exact Function.update_of_ne hne ..

/-- How many waits for a block the answer ends for want of one. -/
def timeoutsOf (o : Reply) : Nat := if o = .timedOut .block then 1 else 0

theorem Waiting.step {e : Event π} (hi : Waiting k s) (hmove : Move l s e t o) :
    Waiting (k + timeoutsOf o) t := by
  cases hmove with
  | push hidle | pop hidle => exact hi.goes (by rw [hidle]; rfl) rfl
  | refused hcall | full hcall | empty hcall => exact hi.goes hcall.suspended? rfl
  | allocWaits hcall => exact hi.suspend hcall.suspended? rfl
  | sendWaits hcall | recvWaits hcall =>
    exact hi.suspend hcall.suspended? (UInt32.add_zero _).symm
  | @allocated p _ msg ticks time b hcall =>
    exact ⟨hi.listed.goes hcall.suspended? rfl, hi.count⟩
  | sent hcall =>
    exact Waiting.wakeFirst ⟨hi.listed.goes hcall.suspended? rfl, hi.count⟩ nofun
  | received hcall =>
    exact Waiting.wakeFirst ⟨hi.listed.goes hcall.suspended? rfl, hi.count⟩ nofun
  | copied hphase => exact ⟨hi.listed.goes (by rw [hphase]; rfl) rfl, hi.count⟩
  | copiedAll hphase | taken hphase | takenAll hphase => exact hi.goes (by rw [hphase]; rfl) rfl
  | undone hphase hfree | popped hphase hfree =>
    have hsame := phase_of_mpFree hi.listed hfree (by rw [hphase]; rfl)
    exact (hi.mpFree hfree).goes (by rw [hsame, hphase]; rfl) rfl
  | @timedOut p c time hphase =>
    have hunlist : ∀ f : Phase, f.suspended? = none →
        Waiting (k + timeoutsOf (.timedOut c.wait)) ((s.unlist p).goes p f) := by
      intro f hph
      refine hi.unlist hphase hph s.mp fun len hlen => hlen.trans (congrArg _ ?_)
      simp only [timeoutsOf, Reply.timedOut.injEq]
      split <;> omega
    cases c with
    | mpAlloc | mbSendWait | mbRecv => exact hunlist _ rfl
  | isEmpty | isFull => exact hi

/-- A thread goes on and takes what it has been resumed for, if there was any. -/
theorem Awake.goes (ha : Awake lists phase offers)
    (hless : ∀ w, g w + (if (phase p).resumed? = some w then 1 else 0) ≤ offers w ∨
      g w = 0) : Awake lists (Function.update phase p f) g := by
  intro w hw
  rcases hless w with hle | hzero
  · split at hle
    next =>
      obtain ⟨ps, hnodup, hall, hn⟩ := (ha w hw).spend (p := p) (f := f)
      exact ⟨ps, hnodup, hall, by omega⟩
    next hne =>
      obtain ⟨ps, hnodup, hall, hn⟩ := (ha w hw).goes (p := p) (f := f) hne
      exact ⟨ps, hnodup, hall, by omega⟩
  · rw [hzero]
    exact woken_zero

theorem Awake.run (ha : Awake lists phase offers) (hp : (phase p).resumed? = none) :
    Awake lists (Function.update phase p f) offers :=
  ha.goes fun w => .inl (by simp [hp])

theorem Awake.suspend (ha : Awake lists phase offers) (hcall : AtCall s p slept c time)
    (hs : s.phase = phase) (hzero : offers c.wait = 0) {ps : List π} :
    Awake (Function.update lists c.wait ps) (Function.update phase p f) offers := by
  intro w hw
  by_cases heq : w = c.wait
  · rw [heq, hzero]
    exact woken_zero
  · rw [Function.update_of_ne heq] at hw
    exact (ha w hw).goes (hs ▸ hcall.resumed? heq)

theorem ne_nil_of_erase {ps : List π} (h : ps.erase p ≠ []) : ps ≠ [] := by
  rintro rfl
  exact h rfl

theorem Awake.unlist (ha : Awake lists phase offers) (hp : (phase p).resumed? = none) :
    Awake (fun w => (lists w).erase p) (Function.update phase p f) offers :=
  fun w hw => (ha w (ne_nil_of_erase hw)).goes (by simp [hp])

theorem Awake.wake (ha : Awake lists phase offers) (hq : phase q = .suspended c time) :
    Awake (fun w => (lists w).erase q) (Function.update phase q (.resumed c time))
      (Function.update offers c.wait (offers c.wait + 1)) := by
  intro w hw
  have hne := ne_nil_of_erase hw
  rw [Function.update_apply]
  split
  next heq =>
    subst heq
    exact (ha _ hne).wake hq
  next => exact (ha w hne).goes (by simp [hq, Phase.resumed?])

/-- One more of what the threads of a list wait for, and the first of them is resumed. -/
theorem Awake.wakeFirst (hl : Listed s.lists s.phase) (ha : Awake s.lists s.phase offers)
    (hle : ∀ w', g w' ≤ offers w' + if w' = w then 1 else 0) :
    Awake (s.wakeFirst w).lists (s.wakeFirst w).phase g := by
  unfold State.wakeFirst
  split
  next hnil =>
    refine ha.mono fun w' hw' => ?_
    have := hle w'
    rwa [if_neg fun heq : w' = w => hw' (heq ▸ hnil)] at this
  next q rest hlist =>
    obtain ⟨c, time, hq, rfl, heq⟩ := hl.resume hlist
    rw [heq]
    refine (ha.wake hq).mono fun w' _ => ?_
    rw [Function.update_apply]
    have := hle w'
    split <;> simp_all

/-- A block that comes back goes to a waiting thread, if the count tells of one. -/
theorem Awake.mpFree {b : Nat} (hl : Listed s.lists s.phase) (ha : Awake s.lists s.phase s.offers)
    (hcount : s.mp.suspendThreadCount = 0 → s.lists .block = [])
    (hfree : rtMpFree s b = some t) : Awake t.lists t.phase t.offers := by
  have hless : ∀ w, s.lists w ≠ [] → w ≠ .block → ∀ mp : Mempool,
      ({ s with mp } : State π).offers w ≤ s.offers w := by
    intro w _ hw mp
    cases w with
    | block => exact absurd rfl hw
    | sender | receiver => exact Nat.le_refl _
  rcases rtMpFree_cases hfree with ⟨hzero, rfl⟩ | ⟨q, rest, hlist, rfl⟩
  · refine ha.mono fun w hw => ?_
    exact hless w hw (fun heq => hw (heq ▸ hcount hzero)) _
  · obtain ⟨c, time, hq, hcw, heq⟩ := Listed.resume (s := { s with
      mp := (s.mp.put b).setSuspendThreadCount (s.mp.suspendThreadCount - 1) }) hl hlist
    rw [heq]
    refine (ha.wake hq).mono fun w _ => ?_
    rw [Function.update_apply, hcw]
    split
    next hw =>
      subst hw
      exact Nat.le_refl _
    next hw =>
      cases w with
      | block => exact absurd rfl hw
      | sender | receiver => exact Nat.le_refl _

theorem Awake.step {e : Event π} (hi : Waiting k s)
    (hcount : s.mp.suspendThreadCount = 0 → s.lists .block = [])
    (ha : Awake s.lists s.phase s.offers) (hmove : Move l s e t o) :
    Awake t.lists t.phase t.offers := by
  -- a thread in front of a section spends at most what its own list waits for
  have hcalled : ∀ {p slept c time f} {g : Wait → Nat}, AtCall s p slept c time →
      (∀ w, w ≠ c.wait → g w ≤ s.offers w) →
      (g c.wait + 1 ≤ s.offers c.wait ∨ g c.wait = 0) →
      Awake s.lists (Function.update s.phase p f) g := by
    intro p slept c time f g hcall hother hown
    refine ha.goes fun w => ?_
    by_cases hw : w = c.wait
    · subst hw
      refine hown.imp_left fun hle => ?_
      split <;> omega
    · rw [if_neg (hcall.resumed? hw)]
      exact .inl (hother w hw)
  cases hmove with
  | push hidle | pop hidle => exact ha.run (by rw [hidle]; rfl)
  | refused hcall hnone | empty hcall hnone =>
    exact hcalled hcall (fun _ _ => Nat.le_refl _) (.inr hnone)
  | full hcall => exact hcalled hcall (fun _ _ => Nat.le_refl _) (.inr rfl)
  | allocWaits hcall hnone | recvWaits hcall hnone => exact ha.suspend hcall rfl hnone
  | sendWaits hcall => exact ha.suspend hcall rfl rfl
  | allocated hcall hsome =>
    refine hcalled hcall (fun w hw => ?_) (.inl ?_)
    · cases w with
      | block => exact absurd rfl hw
      | sender | receiver => exact Nat.le_refl _
    · show s.mp.blockFreeCount - 1 + 1 ≤ s.mp.blockFreeCount
      omega
  | sent hcall =>
    refine Awake.wakeFirst (hi.listed.goes hcall.suspended? rfl)
      (hcalled hcall (fun _ _ => Nat.le_refl _) (.inr rfl)) fun w => ?_
    cases w <;> simp [State.offers, State.goes, Mailbox.put]
  | received hcall hsome =>
    refine Awake.wakeFirst (hi.listed.goes hcall.suspended? rfl)
      (hcalled (g := fun w => if w = .receiver then s.mb.entry - 1 else s.offers w) hcall
        (fun w hw => ?_) (.inl ?_)) fun w => ?_
    · exact (if_neg hw).le
    · show s.mb.entry - 1 + 1 ≤ s.mb.entry
      omega
    · cases w <;> simp [State.offers, State.goes, Mailbox.take]
  | copied hphase | copiedAll hphase | taken hphase | takenAll hphase =>
    exact ha.run (by rw [hphase]; rfl)
  | undone hphase hfree | popped hphase hfree =>
    have hsame := phase_of_mpFree hi.listed hfree (by rw [hphase]; rfl)
    exact (ha.mpFree hi.listed hcount hfree).run (by rw [hsame, hphase]; rfl)
  | @timedOut p c time hphase =>
    cases c with
    | mpAlloc | mbSendWait | mbRecv => exact ha.unlist (by rw [hphase]; rfl)
  | isEmpty | isFull => exact ha

end Waiting

section Runs

variable {π : Type u} [DecidableEq π] {l : Layout} {s : State π} {p : π} {slept : UInt32}

abbrev History (π : Type u) := Machine.History (Event π) Reply

variable {h : History π}

/-- How often a push has given up waiting for a block. -/
def blockTimeouts (h : History π) : Nat := (h.map fun x => timeoutsOf x.2).sum

theorem refines_of_reaches (hr : (machine l π).Reaches h s) : ∃ a, Refines l s a := by
  refine hr.stateInvariant (fun s => ∃ a, Refines l s a) ⟨_, refines_init⟩ ?_
  rintro s e t o ⟨a, ha⟩ - hstep
  obtain ⟨b, -, hb⟩ := ha.step (.of_step hstep)
  exact ⟨b, hb⟩

theorem waiting_of_reaches (hr : (machine l π).Reaches h s) : Waiting (blockTimeouts h) s := by
  refine hr.invariant (fun h s => Waiting (blockTimeouts h) s) ?_ ?_
  · exact ⟨⟨by simp [machine, rtosInitQueue, Phase.suspended?], by simp [machine, rtosInitQueue]⟩,
      rfl⟩
  · intro h s e t o hi _ hstep
    have := hi.step (.of_step hstep)
    simpa [blockTimeouts] using this

theorem awake_of_reaches [Fintype π] (hr : (machine l π).Reaches h s)
    (hfew : blockTimeouts h + Fintype.card π < 2 ^ 32) : Awake s.lists s.phase s.offers := by
  induction hr with
  | init => exact fun w hw => absurd rfl hw
  | @step h s e t o hr _ hstep ih =>
    have hi := waiting_of_reaches hr
    have hsum : blockTimeouts (h ++ [(e, o)]) = blockTimeouts h + timeoutsOf o := by
      simp [blockTimeouts]
    refine Awake.step hi (fun hzero => ?_) (ih (by omega)) (.of_step hstep)
    have hlen := (hi.listed.nodup .block).length_le_card
    have hmod := congrArg UInt32.toNat (hi.count.symm.trans hzero)
    rw [UInt32.toNat_ofNat_of_lt' (by simp only [UInt32.size]; omega)] at hmod
    exact List.length_eq_zero_iff.mp (Nat.eq_zero_of_add_eq_zero_right hmod)

theorem rtMpFree_eq_none {b : Nat} (hlink : s.mp.link b = .mempool) :
    rtMpFree s b = none ↔ 0 < s.mp.suspendThreadCount ∧ s.lists .block = [] := by
  rw [rtMpFree, if_pos hlink]
  split
  next hpos =>
    split
    next hnil => simp [hpos, hnil]
    next hlist => simp [hlist]
  next hzero => simp [hzero]

/-- A thread that is not suspended can always go on, but for one place: giving back a block goes
astray exactly when nobody waits for one and a push has given up waiting before. -/
theorem run_eq_none_iff (hr : (machine l π).Reaches h s) :
    s.run l p slept = none ↔
      (s.phase p = .idle ∨ ∃ c time, s.phase p = .suspended c time) ∨
        (∃ b got, s.phase p = .frees b got) ∧ s.lists .block = [] ∧
          blockTimeouts h % 2 ^ 32 ≠ 0 := by
  obtain ⟨a, fs, ms, held, hc, -, -, hshows⟩ := refines_of_reaches hr
  have hp := hshows p
  have hcall : ∀ (c : Call) time, c.run l s p time ≠ none := by
    intro c time
    cases c with
    | mpAlloc msg ticks =>
      simp only [Call.run, rtMpAlloc]
      split
      next => split <;> simp
      next hsome =>
        obtain ⟨b, hlist⟩ := hc.blockList hsome
        simp [hlist]
    | mbSendWait | mbRecv => simp [Call.run]
  cases hphase : s.phase p with
  | idle => simp [State.run, hphase]
  | suspended c time => simp [State.run, hphase]
  | enters c time => simp [State.run, hphase, hcall]
  | resumed c time => simp [State.run, hphase, hcall]
  | copies msg ticks b k =>
    simp only [State.run, hphase]
    split <;> simp
  | takes b got =>
    simp only [State.run, hphase]
    split <;> simp
  | undoes b =>
    rw [hphase] at hp
    exact hp.elim
  | frees b got =>
    have hheld : (p, b) ∈ held := (hc.holds p b).mpr (by rw [hphase]; rfl)
    have hlink : s.mp.link b = .mempool :=
      hc.marked b (List.mem_append_right _ (List.mem_map_of_mem (f := Prod.snd) hheld))
    have hcount := (waiting_of_reaches hr).count
    simp only [State.run, hphase, Option.map_eq_none_iff, rtMpFree_eq_none hlink, hcount]
    constructor
    · rintro ⟨hpos, hnil⟩
      rw [hnil, List.length_nil, Nat.zero_add] at hpos
      refine .inr ⟨⟨b, got, rfl⟩, hnil, ?_⟩
      simpa [UInt32.lt_iff_toNat_lt, Nat.pos_iff_ne_zero] using hpos
    · rintro (hidle | ⟨-, hnil, hne⟩)
      · simp at hidle
      · refine ⟨?_, hnil⟩
        rw [hnil, List.length_nil, Nat.zero_add]
        simpa [UInt32.lt_iff_toNat_lt, Nat.pos_iff_ne_zero] using hne

/-- The second thread gives up waiting for the one place, then the first one takes the message
out. -/
def popAfterTimeout : List (Event Bool) :=
  pushAlone false 7 ++ [.push true [8] 1000, .runs true 0, .timesOut true, .pop false 0] ++
    List.replicate 3 (.runs false 0)

theorem run_eq_none_popAfterTimeout : ∃ h s, (machine onePlace Bool).Reaches h s ∧
    s.phase false = .frees 0 [7] ∧ s.run onePlace false 0 = none := by
  obtain ⟨h, s, hx, hphase, hnil, hcount⟩ : ∃ h s,
      (machine onePlace Bool).exec popAfterTimeout = some (h, s) ∧
        s.phase false = .frees 0 [7] ∧ s.lists .block = [] ∧ blockTimeouts h = 1 :=
    ⟨_, _, rfl, rfl, rfl, rfl⟩
  have hr := Machine.reaches_of_exec hx
  refine ⟨h, s, hr, hphase, (run_eq_none_iff hr).mpr (.inr ⟨⟨0, [7], hphase⟩, hnil, ?_⟩)⟩
  rw [hcount]
  decide

/-- No wake-up is lost: where no thread can run, one that waits in a push finds all places
taken by queued messages, and one that waits in a pop finds none queued. -/
theorem suspended_only_if_stuck [Fintype π] (hr : (machine l π).Reaches h s)
    (hfew : blockTimeouts h + Fintype.card π < 2 ^ 32)
    (hquiet : ∀ p, s.phase p = .idle ∨ ∃ c time, s.phase p = .suspended c time)
    {c : Call} {time : Int32} (hp : s.phase p = .suspended c time) :
    c = .mbRecv ∧ s.mb.entry = 0 ∨
      (∃ msg ticks, c = .mpAlloc msg ticks) ∧ s.mb.entry = l.numberOfMessages := by
  obtain ⟨a, fs, ms, held, hc, -, -, hshows⟩ := refines_of_reaches hr
  have hi := waiting_of_reaches hr
  have hin : p ∈ s.lists c.wait := (hi.listed.mem _ p).mpr (by rw [hp]; rfl)
  obtain ⟨ps, -, hall, hn⟩ := awake_of_reaches hr hfew c.wait (List.ne_nil_of_mem hin)
  have hnone : ps = [] := List.eq_nil_iff_forall_not_mem.mpr fun q hq => by
    have := hall q hq
    rcases hquiet q with hq | ⟨c, time, hq⟩ <;> simp [hq, Phase.resumed?] at this
  have hzero : s.offers c.wait = 0 := by
    rw [hnone] at hn
    exact Nat.le_zero.mp hn
  cases c with
  | mbRecv => exact .inl ⟨rfl, hzero⟩
  | mbSendWait b =>
    have := hshows p
    rw [hp] at this
    exact this.elim
  | mpAlloc msg ticks =>
    refine .inr ⟨⟨msg, ticks, rfl⟩, ?_⟩
    have hheld : held = [] := List.eq_nil_iff_forall_not_mem.mpr fun ⟨q, b⟩ hq => by
      have hblock := (hc.holds q b).mp hq
      have hshow := hshows q
      rcases hquiet q with hq | ⟨c, time, hq⟩
      · simp [hq, Phase.block?] at hblock
      · rw [hq] at hblock hshow
        cases c with
        | mbSendWait b => exact hshow.elim
        | mpAlloc | mbRecv => simp [Phase.block?, Call.block?] at hblock
    have hlen := hc.length
    have hfree : fs.length = 0 := hc.count.symm.trans hzero
    rw [hc.entry]
    simp [hheld] at hlen
    omega

theorem suspended_in_pop : ∃ h s, (machine onePlace Unit).Reaches h s ∧
    s.phase () = .suspended .mbRecv (-1) ∧ s.mb.entry = 0 := by
  obtain ⟨h, s, hx, hphase, hcount⟩ : ∃ h s, (machine onePlace Unit).exec
      [.pop () 0xFFFFFFFF, .runs () 0] = some (h, s) ∧
        s.phase () = .suspended .mbRecv (-1) ∧ blockTimeouts h = 0 := ⟨_, _, rfl, rfl, rfl⟩
  have hr := Machine.reaches_of_exec hx
  have hstuck := suspended_only_if_stuck hr (by rw [hcount]; decide)
    (fun _ => .inr ⟨_, _, hphase⟩) hphase
  rcases hstuck with ⟨-, hempty⟩ | ⟨⟨_, _, hcall⟩, -⟩
  · exact ⟨h, s, hr, hphase, hempty⟩
  · cases hcall

end Runs

end BdkRtt.Rttos.Queue
