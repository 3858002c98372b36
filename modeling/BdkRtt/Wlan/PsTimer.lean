import BdkRtt.Wlan.MsduLaws

namespace BdkRtt.Wlan

open Lib

/-- `MAX_BUFFER_TIME`, in milliseconds. -/
def maxBufferTime : Nat := 10000

/-- The buffer in time: when the running period of each station's timer began, when each node
was put in its list, and which of the flushes at work were begun by a timer. -/
structure TimedPs where
  aps : ApPs
  now : Nat
  since : UInt8 → Nat
  joined : MsduNode → Nat
  byTimer : List Bool

inductive TimedEvent
  | passes (ms : Nat)
  | msdu (e : MsduEvent)
  deriving DecidableEq

/-- What the functions did, and for how long each node that a timer's flush freed had been in
its list. -/
structure TimedAnswer where
  acts : List MsduAct
  discarded : List Nat
  deriving DecidableEq

/-- A timer expires when its period is over, and not before. -/
def TimedPs.due (s : TimedPs) : MsduEvent → Bool
  | .apPsTimeout staIdx => s.since staIdx + maxBufferTime ≤ s.now
  | _ => true

/-- A period begins when a timer is started that was not running, and anew with each expiry. -/
def TimedPs.periods (s : TimedPs) (t : ApPs) (e : MsduEvent) : UInt8 → Nat :=
  match e with
  | .apPsTimeout staIdx => setAt s.since staIdx s.now
  | _ => fun σ => if t.timer σ = true ∧ s.aps.timer σ = false then s.now else s.since σ

def TimedPs.joins (s : TimedPs) : MsduEvent → MsduNode → Nat
  | .coreContinues _ =>
    match s.aps.core with
    | .pushes node => fun n => if n = node then s.now else s.joined n
    | _ => s.joined
  | _ => s.joined

/-- The flushes at work after a step: one more at the end when one begins, one less when its
thread is through. -/
def TimedPs.origins (s : TimedPs) (t : ApPs) : MsduEvent → List Bool
  | .apPsTimeout _ =>
    s.byTimer ++ List.replicate (t.flushes.length - s.aps.flushes.length) true
  | .flush _ => s.byTimer ++ List.replicate (t.flushes.length - s.aps.flushes.length) false
  | .flushContinues i =>
    if t.flushes.length < s.aps.flushes.length then s.byTimer.eraseIdx i else s.byTimer
  | _ => s.byTimer

def TimedPs.discards (s : TimedPs) (acts : List MsduAct) : MsduEvent → List Nat
  | .flushContinues i =>
    if s.byTimer[i]? = some true then (freedNodes acts).map fun n => s.now - s.joined n else []
  | _ => []

/-- The buffer with its timers, which are periodic. -/
def timedPs (c : ApConfig) : Machine TimedPs TimedEvent TimedAnswer where
  init := ⟨(apPs c).init, 0, fun _ => 0, fun _ => 0, []⟩
  step s e :=
    match e with
    | .passes ms => some ({ s with now := s.now + ms }, ⟨[], []⟩)
    | .msdu e =>
      if s.due e then
        ((apPs c).step s.aps e).map fun r =>
          ({ aps := r.1, now := s.now, since := s.periods r.1 e, joined := s.joins e,
             byTimer := s.origins r.1 e }, ⟨r.2, s.discards r.2 e⟩)
      else none

/-- A flush that a timer has begun is taking nodes from the list. -/
def TimedPs.Flushing (s : TimedPs) (σ : UInt8) : Prop :=
  ∃ i < s.aps.flushes.length, s.aps.flushes[i]? = some ⟨σ, true⟩ ∧ s.byTimer[i]? = some true

instance (s : TimedPs) (σ : UInt8) : Decidable (s.Flushing σ) := by
  unfold TimedPs.Flushing
  infer_instance

/-- A timer expires on a list whose nodes all were in it when its period began, and no node
joins a list while such an expiry is emptying it. -/
def Settled (s : TimedPs) : TimedEvent → Prop
  | .msdu (.apPsTimeout staIdx) => ∀ n ∈ s.aps.txing staIdx, s.joined n ≤ s.since staIdx
  | .msdu (.coreContinues _) =>
    match s.aps.core with
    | .pushes node => ¬ s.Flushing node.staIdx
    | _ => True
  | _ => True

instance (s : TimedPs) (e : TimedEvent) : Decidable (Settled s e) := by
  unfold Settled
  repeat' split
  all_goals infer_instance

end BdkRtt.Wlan
