import BdkRtt.App.Core

namespace BdkRtt.App

open Lib

section Queue

variable {q q' : IoQueue} {msg : BusMsg}

theorem rtosPushToQueue_eq_some (h : rtosPushToQueue q msg = some q') :
    q.msgs.length < coreQitemCount ∧ q'.msgs = q.msgs ++ [msg] := by
  unfold rtosPushToQueue at h
  split at h
  next hlt =>
    cases h
    exact ⟨hlt, rfl⟩
  next => cases h

theorem rtosPushToQueue_eq_none (h : rtosPushToQueue q msg = none) :
    ¬ q.msgs.length < coreQitemCount := by
  unfold rtosPushToQueue at h
  split at h
  next => cases h
  next hge => exact hge

theorem rtosPopFromQueue_eq_some (h : rtosPopFromQueue q = some (msg, q')) :
    q.msgs = msg :: q'.msgs := by
  unfold rtosPopFromQueue at h
  split at h
  next => cases h
  next =>
    cases h
    rfl

theorem rtosPopFromQueue_of_cons {msgs : List BusMsg} (h : q.msgs = msg :: msgs) :
    ∃ q', rtosPopFromQueue q = some (msg, q') ∧ q'.msgs = msgs := by
  obtain ⟨ms, hb⟩ := q
  cases h
  exact ⟨_, rfl, rfl⟩

end Queue

section Pending

/-- The message the core thread has popped and not begun to handle. -/
def CoreThread.held : CoreThread → List BusMsg
  | .popped msg => [msg]
  | .waits | .counted _ => []

/-- The messages in `io_queue`, or popped and not yet counted down. -/
def WifiCore.pending (s : WifiCore) : List BusMsg := s.core.held ++ s.ioQueue.msgs

def rxCount (msgs : List BusMsg) : Nat := msgs.countP fun msg => msg.type = .rx

theorem rxCount_append (xs ys : List BusMsg) : rxCount (xs ++ ys) = rxCount xs + rxCount ys :=
  List.countP_append

theorem rxCount_rx (arg : UInt32) : rxCount [⟨.rx, arg⟩] = 1 := rfl

theorem rxCount_other {msg : BusMsg} (h : msg.type ≠ .rx) : rxCount [msg] = 0 := by
  simp [rxCount, h]

theorem rxCount_pending (s : WifiCore) :
    rxCount s.pending = rxCount s.core.held + rxCount s.ioQueue.msgs := rxCount_append _ _

/-- The pushes of `bmsg_rx_sender` that failed. -/
def lostPushes (h : Machine.History Event Reply) : Nat := h.countP fun x => x.2 = .lost

theorem lostPushes_concat (h : Machine.History Event Reply) (e : Event) (r : Reply) :
    lostPushes (h ++ [(e, r)]) = lostPushes h + if r = .lost then 1 else 0 := by
  simp [lostPushes, List.countP_append, List.countP_cons]

end Pending

section Steps

variable {s t : WifiCore} {e : Event} {r : Reply}

/-- What one step does to the count and to the messages, by outcome. -/
inductive Move (s : WifiCore) : Event → WifiCore → Reply → Prop
  | drops {arg} (hfull : 2 ≤ s.bmsgRxCount) : Move s (.rxSenderEnters arg) s .dropped
  | raises {arg} (hroom : s.bmsgRxCount < 2) :
    Move s (.rxSenderEnters arg)
      { s with bmsgRxCount := s.bmsgRxCount + 1, raised := s.raised ++ [arg] } .raised
  | pushes {i arg q} (hi : s.raised[i]? = some arg)
    (hroom : s.ioQueue.msgs.length < coreQitemCount)
    (hq : q.msgs = s.ioQueue.msgs ++ [⟨.rx, arg⟩]) :
    Move s (.rxSenderPushes i) { s with ioQueue := q, raised := s.raised.eraseIdx i } .pushed
  | loses {i arg} (hi : s.raised[i]? = some arg)
    (hfull : ¬ s.ioQueue.msgs.length < coreQitemCount) :
    Move s (.rxSenderPushes i) { s with raised := s.raised.eraseIdx i } .lost
  | others {msg q} (hmsg : msg.type ≠ .rx) (hq : q.msgs = s.ioQueue.msgs ++ [msg]) :
    Move s (.otherSender msg) { s with ioQueue := q } .pushed
  | refuses {msg} : Move s (.otherSender msg) s .refused
  | pops {msg q} (hcore : s.core = .waits) (hq : s.ioQueue.msgs = msg :: q.msgs) :
    Move s .pops { s with ioQueue := q, core := .popped msg } .done
  | countsDown {arg} (hcore : s.core = .popped ⟨.rx, arg⟩) :
    Move s .countsDown (countsDown s arg) .done
  | runs {arg} (hcore : s.core = .counted arg) :
    Move s .rxlCntrlEvt { s with core := .waits } (.evt arg)
  | handles {msg} (hcore : s.core = .popped msg) (hmsg : msg.type ≠ .rx) :
    Move s .otherHandler { s with core := .waits } .done

theorem Move.of_rxSenderPushes {i : Nat} (h : rxSenderPushes s i = some (t, r)) :
    Move s (.rxSenderPushes i) t r := by
  unfold rxSenderPushes at h
  split at h
  next => cases h
  next arg hi =>
    split at h
    next q hq =>
      cases h
      obtain ⟨hroom, hmsgs⟩ := rtosPushToQueue_eq_some hq
      exact .pushes hi hroom hmsgs
    next hq =>
      cases h
      exact .loses hi (rtosPushToQueue_eq_none hq)

theorem Move.of_otherSender {msg : BusMsg} (h : otherSender s msg = some (t, r)) :
    Move s (.otherSender msg) t r := by
  unfold otherSender at h
  split at h
  next => cases h
  next hmsg =>
    split at h
    next q hq =>
      cases h
      exact .others hmsg (rtosPushToQueue_eq_some hq).2
    next =>
      cases h
      exact .refuses

theorem Move.of_step (h : wifiCore.step s e = some (t, r)) : Move s e t r := by
  simp only [wifiCore] at h
  cases e with
  | rxSenderEnters arg =>
    simp only [wifiCoreStep, rxSenderEnters] at h
    split at h
    next hfull =>
      cases h
      exact .drops hfull
    next hroom =>
      cases h
      exact .raises (Int.not_le.mp hroom)
  | rxSenderPushes i => exact .of_rxSenderPushes h
  | otherSender msg => exact .of_otherSender h
  | pops =>
    simp only [wifiCoreStep] at h
    split at h
    next hcore hpop =>
      cases h
      exact .pops hcore (rtosPopFromQueue_eq_some hpop)
    next => cases h
  | countsDown =>
    simp only [wifiCoreStep] at h
    split at h
    next hcore =>
      cases h
      exact .countsDown hcore
    next => cases h
  | rxlCntrlEvt =>
    simp only [wifiCoreStep] at h
    split at h
    next hcore =>
      cases h
      exact .runs hcore
    next => cases h
  | otherHandler =>
    simp only [wifiCoreStep] at h
    split at h
    next hcore =>
      split at h
      next => cases h
      next hmsg =>
        cases h
        exact .handles hcore hmsg
    next => cases h

end Steps

section Counting

variable {s t : WifiCore} {e : Event} {r : Reply} {h : Machine.History Event Reply}

/-- The count is made up of the pending messages, the senders on their way to the push, and
the `n` pushes that failed. -/
structure WifiCore.Counts (s : WifiCore) (n : Nat) : Prop where
  sum : s.bmsgRxCount = ((rxCount s.pending + s.raised.length + n : Nat) : Int)
  le_two : s.bmsgRxCount ≤ 2

theorem Move.counts (hm : Move s e t r) {n : Nat} (h : s.Counts n) :
    t.Counts (n + if r = .lost then 1 else 0) := by
  have hsum := h.sum
  have hle := h.le_two
  rw [rxCount_pending] at hsum
  cases hm with
  | drops => exact h
  | raises hroom =>
    refine ⟨?_, by simp only; omega⟩
    rw [rxCount_pending]
    simp
    omega
  | @pushes i arg q hi hroom hq =>
    have hlen := List.length_eraseIdx_of_lt (List.getElem?_eq_some_iff.mp hi).1
    have hpos := (List.getElem?_eq_some_iff.mp hi).1
    refine ⟨?_, hle⟩
    rw [rxCount_pending, hq, rxCount_append, rxCount_rx]
    simp [hlen]
    omega
  | @loses i arg hi =>
    have hlen := List.length_eraseIdx_of_lt (List.getElem?_eq_some_iff.mp hi).1
    have hpos := (List.getElem?_eq_some_iff.mp hi).1
    refine ⟨?_, hle⟩
    rw [rxCount_pending]
    simp [hlen]
    omega
  | others hmsg hq =>
    refine ⟨?_, hle⟩
    rw [rxCount_pending, hq, rxCount_append, rxCount_other hmsg]
    simpa using hsum
  | refuses => exact h
  | @pops msg q hcore hq =>
    refine ⟨?_, hle⟩
    rw [hcore, hq, ← List.singleton_append, rxCount_append] at hsum
    rw [rxCount_pending]
    simpa [CoreThread.held, rxCount] using hsum
  | countsDown hcore =>
    rw [hcore, CoreThread.held, rxCount_rx] at hsum
    refine ⟨?_, ?_⟩
    · rw [rxCount_pending]
      simp only [App.countsDown, CoreThread.held, rxCount, List.countP_nil]
      rw [rxCount] at hsum
      split <;> simp <;> omega
    · simp only [App.countsDown]
      split <;> omega
  | runs hcore =>
    refine ⟨?_, hle⟩
    rw [hcore] at hsum
    rw [rxCount_pending]
    simpa [CoreThread.held] using hsum
  | handles hcore hmsg =>
    refine ⟨?_, hle⟩
    rw [hcore, CoreThread.held, rxCount_other hmsg] at hsum
    rw [rxCount_pending]
    simpa [CoreThread.held, rxCount] using hsum

theorem counts (hr : wifiCore.Reaches h s) : s.Counts (lostPushes h) := by
  refine hr.invariant (fun h s => s.Counts (lostPushes h)) ⟨rfl, by decide⟩ ?_
  intro h s e t r hinv _ hstep
  rw [lostPushes_concat]
  exact (Move.of_step hstep).counts hinv

/-- The message of a `bmsg_rx_sender` finds a free place. -/
def HasRoom (s : WifiCore) : Event → Prop
  | .rxSenderPushes _ => s.ioQueue.msgs.length < coreQitemCount
  | _ => True

instance (s : WifiCore) : ∀ e, Decidable (HasRoom s e)
  | .rxSenderPushes _ => inferInstanceAs (Decidable (s.ioQueue.msgs.length < coreQitemCount))
  | .rxSenderEnters _ | .otherSender _ | .pops | .countsDown | .rxlCntrlEvt | .otherHandler =>
    inferInstanceAs (Decidable True)

theorem Move.lost_iff (hm : Move s e t r) : r = .lost ↔ ¬ HasRoom s e := by
  cases hm with
  | pushes hi hroom => exact iff_of_false nofun (not_not_intro hroom)
  | loses hi hfull => exact iff_of_true rfl hfull
  | _ => exact iff_of_false nofun (not_not_intro trivial)

theorem lostPushes_of_room (hr : wifiCore.ReachesUnder HasRoom h s) : lostPushes h = 0 := by
  refine hr.invariant (fun h _ => lostPushes h = 0) rfl ?_
  intro h s e t r hinv hroom hstep
  rw [lostPushes_concat, hinv, if_neg fun hlost => (Move.of_step hstep).lost_iff.mp hlost hroom]

theorem room_of_lostPushes (hr : wifiCore.Reaches h s) (h0 : lostPushes h = 0) :
    wifiCore.ReachesUnder HasRoom h s := by
  induction hr with
  | init => exact .init
  | @step h s e t r _ _ hstep ih =>
    rw [lostPushes_concat, Nat.add_eq_zero_iff] at h0
    have hroom : HasRoom s e := by
      by_contra hno
      rw [if_pos ((Move.of_step hstep).lost_iff.mpr hno)] at h0
      exact absurd h0.2 Nat.one_ne_zero
    exact .step (ih h0.1) hroom hstep

/-- With every push finding room the count is exact, and it is exact only then. -/
theorem room_iff (hr : wifiCore.Reaches h s) : wifiCore.ReachesUnder HasRoom h s ↔
    s.bmsgRxCount = ((rxCount s.pending + s.raised.length : Nat) : Int) := by
  have hsum := (counts hr).sum
  constructor
  · intro hroom
    rw [hsum, lostPushes_of_room hroom, Nat.add_zero]
  · intro hexact
    exact room_of_lostPushes hr (by omega)

end Counting

section Progress

variable {s : WifiCore} {h : Machine.History Event Reply}

/-- The steps the core thread takes by itself. -/
def Event.isCore : Event → Bool
  | .pops | .countsDown | .rxlCntrlEvt | .otherHandler => true
  | .rxSenderEnters _ | .rxSenderPushes _ | .otherSender _ => false

theorem room_of_isCore {e : Event} (he : e.isCore = true) : HasRoom s e := by
  cases e with
  | rxSenderPushes i => cases he
  | _ => trivial

theorem core_step {t : WifiCore} {e : Event} {r : Reply}
    (hr : wifiCore.ReachesUnder HasRoom h s) (hstep : wifiCore.step s e = some (t, r))
    (he : e.isCore = true) : wifiCore.ReachesUnder HasRoom (h ++ [(e, r)]) t :=
  .step hr (room_of_isCore he) hstep

/-- `bmsg_rx_handler` of a message. -/
def rxHandled (arg : UInt32) : Machine.History Event Reply :=
  [(.countsDown, .done), (.rxlCntrlEvt, .evt arg)]

/-- The core thread alone comes to handle one of these messages. -/
def Handles (h : Machine.History Event Reply) (msgs : List BusMsg) : Prop :=
  ∃ pre arg t, (∀ x ∈ pre, x.1.isCore = true) ∧ ⟨.rx, arg⟩ ∈ msgs ∧
    wifiCore.ReachesUnder HasRoom (h ++ pre ++ rxHandled arg) t

theorem Handles.later {msgs msgs' : List BusMsg} {e : Event} {r : Reply}
    (he : e.isCore = true) (hsub : msgs ⊆ msgs') (hh : Handles (h ++ [(e, r)]) msgs) :
    Handles h msgs' := by
  obtain ⟨pre, arg, t, hpre, hmem, hr⟩ := hh
  refine ⟨(e, r) :: pre, arg, t, ?_, hsub hmem, by simpa using hr⟩
  rintro x (_ | ⟨_, hx⟩)
  · exact he
  · exact hpre x hx

theorem handles_held {arg : UInt32} (hr : wifiCore.ReachesUnder HasRoom h s)
    (hcore : s.core = .popped ⟨.rx, arg⟩) : Handles h [⟨.rx, arg⟩] := by
  have hcount : wifiCore.step s .countsDown = some (countsDown s arg, .done) := by
    simp only [wifiCore, wifiCoreStep, hcore]
  refine ⟨[], arg, { countsDown s arg with core := .waits }, nofun, List.mem_singleton_self _, ?_⟩
  rw [List.append_nil, rxHandled, ← List.singleton_append, ← List.append_assoc]
  exact core_step (core_step hr hcount rfl) rfl rfl

theorem handles_queued {msgs : List BusMsg} (hr : wifiCore.ReachesUnder HasRoom h s)
    (hcore : s.core = .waits) (hq : s.ioQueue.msgs = msgs) (hpos : 0 < rxCount msgs) :
    Handles h msgs := by
  induction msgs generalizing h s with
  | nil => exact absurd hpos (Nat.lt_irrefl _)
  | cons msg msgs ih =>
    obtain ⟨q, hpop, hq'⟩ := rtosPopFromQueue_of_cons hq
    have hstep : wifiCore.step s .pops =
        some ({ s with ioQueue := q, core := .popped msg }, .done) := by
      simp only [wifiCore, wifiCoreStep, hcore, hpop]
    have hr' := core_step hr hstep rfl
    by_cases hmsg : msg.type = .rx
    · obtain ⟨type, arg⟩ := msg
      cases hmsg
      exact (handles_held hr' rfl).later rfl (by simp)
    · have hstep' : wifiCore.step { s with ioQueue := q, core := .popped msg } .otherHandler =
          some ({ s with ioQueue := q, core := .waits }, .done) := by
        simp only [wifiCore, wifiCoreStep, if_neg hmsg]
      rw [← List.singleton_append, rxCount_append, rxCount_other hmsg, Nat.zero_add] at hpos
      have hr'' := core_step hr' hstep' rfl
      exact ((ih hr'' rfl hq' hpos).later rfl (List.subset_cons_self _ _)).later rfl
        (List.Subset.refl _)

theorem handles_pending (hr : wifiCore.ReachesUnder HasRoom h s)
    (hpos : 0 < rxCount s.pending) : Handles h s.pending := by
  rw [rxCount_pending] at hpos
  cases hcore : s.core with
  | waits =>
    rw [hcore] at hpos
    rw [WifiCore.pending, hcore]
    exact handles_queued hr hcore rfl (by simpa [CoreThread.held, rxCount] using hpos)
  | popped msg =>
    rw [hcore] at hpos
    rw [WifiCore.pending, hcore]
    by_cases hmsg : msg.type = .rx
    · obtain ⟨type, arg⟩ := msg
      cases hmsg
      obtain ⟨pre, arg', t, hpre, hmem, ht⟩ := handles_held hr hcore
      exact ⟨pre, arg', t, hpre, List.mem_append_left _ hmem, ht⟩
    · have hstep : wifiCore.step s .otherHandler = some ({ s with core := .waits }, .done) := by
        simp only [wifiCore, wifiCoreStep, hcore, if_neg hmsg]
      rw [CoreThread.held, rxCount_other hmsg, Nat.zero_add] at hpos
      have hr' := core_step hr hstep rfl
      exact (handles_queued hr' rfl rfl hpos).later rfl (List.subset_append_right _ _)
  | counted arg =>
    have hstep : wifiCore.step s .rxlCntrlEvt = some ({ s with core := .waits }, .evt arg) := by
      simp only [wifiCore, wifiCoreStep, hcore]
    rw [hcore] at hpos
    rw [WifiCore.pending, hcore]
    have hr' := core_step hr hstep rfl
    exact (handles_queued hr' rfl rfl
      (by simpa [CoreThread.held, rxCount] using hpos)).later rfl
      (List.subset_append_right _ _)

end Progress

/-- As long as every push of `bmsg_rx_sender` finds room the count is that of the pending
messages and of the senders between the count and the push, and once one has failed it never is
again; while it is, a full count has something pending, which the core thread comes to handle. -/
theorem rxCount_exact {h : Machine.History Event Reply} {s : WifiCore}
    (hr : wifiCore.Reaches h s) :
    (wifiCore.ReachesUnder HasRoom h s ↔
      s.bmsgRxCount = ((rxCount s.pending + s.raised.length : Nat) : Int)) ∧
    (wifiCore.ReachesUnder HasRoom h s →
      (2 ≤ s.bmsgRxCount → 2 ≤ rxCount s.pending + s.raised.length) ∧
      (0 < rxCount s.pending → Handles h s.pending)) := by
  refine ⟨room_iff hr, fun hroom => ⟨fun hfull => ?_, handles_pending hroom⟩⟩
  have hexact := (room_iff hr).mp hroom
  omega

theorem rxCount_exact_two :
    ∃ h s, wifiCore.Reaches h s ∧ s.bmsgRxCount = 2 ∧ rxCount s.pending = 2 ∧
      Handles h s.pending := by
  have hrun : ∃ h s, wifiCore.exec
      [.rxSenderEnters 1, .rxSenderEnters 2, .rxSenderPushes 1, .pops, .rxSenderPushes 0] =
        some (h, s) ∧ s.bmsgRxCount = 2 ∧ rxCount s.pending = 2 ∧ s.raised.length = 0 :=
    ⟨_, _, rfl, rfl, rfl, rfl⟩
  obtain ⟨h, s, hx, hcount, hpend, hraised⟩ := hrun
  have hr := Machine.reaches_of_exec hx
  have hroom := (rxCount_exact hr).1.mpr (by rw [hcount, hpend, hraised]; rfl)
  exact ⟨h, s, hr, hcount, hpend, ((rxCount_exact hr).2 hroom).2 (by rw [hpend]; decide)⟩

/-- Two calls that find the queue full of other messages shut reception off. -/
def lostTwice : List Event :=
  List.replicate coreQitemCount (.otherSender ⟨.tx, 0⟩) ++
    [.rxSenderEnters 0, .rxSenderPushes 0, .rxSenderEnters 0, .rxSenderPushes 0]

theorem rx_shut_off :
    ∃ h s, wifiCore.Reaches h s ∧ s.raised = [] ∧ s.bmsgRxCount = 2 ∧ rxCount s.pending = 0 := by
  have hrun : ∃ h s, wifiCore.exec lostTwice = some (h, s) ∧ s.raised = [] ∧
      s.bmsgRxCount = 2 ∧ rxCount s.pending = 0 := ⟨_, _, rfl, rfl, rfl, rfl⟩
  obtain ⟨h, s, hx, hrest⟩ := hrun
  exact ⟨h, s, Machine.reaches_of_exec hx, hrest⟩

end BdkRtt.App
