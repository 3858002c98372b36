import BdkRtt.Wlan.PckCnt
import BdkRtt.Wlan.MsduDelivery

namespace BdkRtt.Wlan

open Lib

section Counting

def PckAct.isInc : PckAct → Bool
  | .inc _ => true
  | _ => false

def PckAct.isDec : PckAct → Bool
  | .dec _ => true
  | _ => false

def PckAct.isPush : PckAct → Bool
  | .push _ => true
  | _ => false

def PckAct.isConfirm : PckAct → Bool
  | .confirm _ => true
  | _ => false

/-- The packet counter: one up for each increment, one down for each decrement on a drop path
and for each confirmation. -/
def pckCnt (log : List PckAct) : Int :=
  log.countP PckAct.isInc - log.countP PckAct.isDec - log.countP PckAct.isConfirm

/-- The number of frames handed to `txu_cntrl_push` and not yet confirmed. -/
def inFlight (log : List PckAct) : Int :=
  log.countP PckAct.isPush - log.countP PckAct.isConfirm

/-- Each decrement is for a frame that has been counted and neither pushed nor counted down,
and the counter is at no moment below the number of frames in flight. -/
structure PckBalance (log : List PckAct) : Prop where
  paired : ∀ pre x post, log = pre ++ .dec x :: post → ∃ n, x = some n ∧
    pre.count (.push n) + pre.count (.dec (some n)) < pre.count (.inc n)
  covers : ∀ pre, pre <+: log → inFlight pre ≤ pckCnt pre

/-- What has been counted covers what has been pushed or counted down, frame by frame and in
all. -/
structure Covered (log : List PckAct) : Prop where
  named : .dec none ∉ log
  node : ∀ n, log.count (.push n) + log.count (.dec (some n)) ≤ log.count (.inc n)
  total : log.countP PckAct.isPush + log.countP PckAct.isDec ≤ log.countP PckAct.isInc

variable {log : List PckAct}

theorem covered_nil : Covered [] := ⟨nofun, fun _ => Nat.le_refl 0, Nat.le_refl 0⟩

/-- Any moment of the log is covered. -/
def CoveredThroughout (log : List PckAct) : Prop := ∀ pre, pre <+: log → Covered pre

theorem coveredThroughout_nil : CoveredThroughout [] := by
  intro pre hpre
  rw [List.prefix_nil.mp hpre]
  exact covered_nil

theorem Covered.append {acts : List PckAct} (h : Covered log) (ha : Covered acts) :
    Covered (log ++ acts) where
  named := by simp [h.named, ha.named]
  node n := by
    have hlog := h.node n
    have hacts := ha.node n
    simp only [List.count_append]
    omega
  total := by
    have hlog := h.total
    have hacts := ha.total
    simp only [List.countP_append]
    omega

theorem CoveredThroughout.append {acts : List PckAct} (h : CoveredThroughout log)
    (ha : CoveredThroughout acts) : CoveredThroughout (log ++ acts) := by
  intro pre hpre
  rcases List.prefix_or_prefix_of_prefix hpre (List.prefix_append log acts) with hlog | hpost
  · exact h pre hlog
  · obtain ⟨post, rfl⟩ := hpost
    have hacts := (List.prefix_append_right_inj log).mp hpre
    exact (h log List.prefix_rfl).append (ha post hacts)

theorem CoveredThroughout.balance (h : CoveredThroughout log) : PckBalance log where
  paired pre x post heq := by
    have hdec := h (pre ++ [.dec x]) ⟨post, by simp [heq]⟩
    cases x with
    | none => exact absurd (List.mem_append_right pre (List.mem_singleton_self _)) hdec.named
    | some n =>
      have hn := hdec.node n
      simp only [List.count_append, List.count_singleton_self] at hn
      exact ⟨n, rfl, by simp at hn; omega⟩
  covers pre hpre := by
    have htotal := (h pre hpre).total
    unfold inFlight pckCnt
    omega

end Counting

section Steps

variable {c : ApConfig} {s t : ApPs} {acts : List MsduAct} {log : List PckAct}

/-- What one step of the buffer does to the counter, when its node was found. -/
inductive PckChunk : List PckAct → Prop
  | quiet : PckChunk []
  | sends (node : MsduNode) : PckChunk [.inc node, .push node]
  | drops (node : MsduNode) : PckChunk [.inc node, .dec (some node)]

theorem pckActs_transferNode (node : MsduNode) (moreData ok : Bool) :
    PckChunk (pckActs (.incPckCnt :: rwmTransferNode node moreData ok)) := by
  cases ok with
  | false => exact .drops node
  | true => exact .sends node

theorem pckActs_coreContinues {ok : Bool} (h : coreContinues c s ok = some (t, acts)) :
    PckChunk (pckActs acts) := by
  unfold coreContinues at h
  split at h
  next => cases h
  next => split at h <;> cases h <;> exact .quiet
  next =>
    cases h
    exact .quiet
  next node _ =>
    cases h
    exact pckActs_transferNode node false ok
  next node σ _ =>
    cases h
    exact pckActs_transferNode node true ok
  next =>
    cases h
    repeat' split
    all_goals exact .quiet

theorem pckActs_step {e : MsduEvent} (h : (apPs c).step s e = some (t, acts)) :
    PckChunk (pckActs acts) ∨
      ∃ vifIdx staIdx, e = .transfer vifIdx staIdx false ∧ pckActs acts = [.dec none] := by
  simp only [apPs] at h
  cases e with
  | transfer vifIdx staIdx alloc =>
    simp only [Option.ite_none_right_eq_some, Option.some.injEq, rwmTransfer] at h
    obtain ⟨-, h⟩ := h
    cases alloc with
    | false =>
      cases h
      exact .inr ⟨vifIdx, staIdx, rfl, rfl⟩
    | true =>
      cases h
      exact .inl .quiet
  | coreContinues ok => exact .inl (pckActs_coreContinues h)
  | sendTxing staIdx | apPsTimeout staIdx =>
    simp only [Option.ite_none_right_eq_some, Option.some.injEq, Prod.mk.injEq] at h
    obtain ⟨-, -, rfl⟩ := h
    exact .inl .quiet
  | psChanges staIdx inPs | flush staIdx =>
    cases h
    exact .inl .quiet
  | psChangeInd staIdx psOn =>
    simp only [Option.some.injEq, rwmMsduPsChangeIndHandler] at h
    left
    split at h
    next =>
      cases h
      exact .quiet
    next => split at h <;> cases h <;> exact .quiet
  | flushContinues i =>
    left
    simp only [flushContinues] at h
    split at h
    next => cases h
    next => split at h <;> cases h <;> exact .quiet
    next =>
      cases h
      exact .quiet

theorem covered_inc (node : MsduNode) : Covered [.inc node] := by
  refine ⟨by simp, fun n => ?_, Nat.zero_le 1⟩
  rw [List.count_eq_zero.mpr (by simp), List.count_eq_zero.mpr (by simp)]
  exact Nat.zero_le _

/-- What an increment stands in front of is covered when it takes no more than one frame. -/
theorem coveredThroughout_pair (node : MsduNode) {a : PckAct}
    (ha : Covered [.inc node, a]) : CoveredThroughout [.inc node, a] := by
  intro pre hpre
  match pre, hpre with
  | [], _ => exact covered_nil
  | [_], hpre =>
    obtain ⟨post, heq⟩ := hpre
    cases heq
    exact covered_inc node
  | [_, _], hpre =>
    obtain ⟨post, heq⟩ := hpre
    cases heq
    exact ha
  | _ :: _ :: _ :: _, hpre =>
    have hlen := hpre.length_le
    simp at hlen

theorem PckChunk.covered {chunk : List PckAct} (hc : PckChunk chunk) :
    CoveredThroughout chunk := by
  cases hc with
  | quiet => exact coveredThroughout_nil
  | sends node =>
    refine coveredThroughout_pair node ⟨by simp, fun n => ?_, Nat.le_refl 1⟩
    by_cases hn : node = n <;> simp [hn]
  | drops node =>
    refine coveredThroughout_pair node ⟨by simp, fun n => ?_, Nat.le_refl 1⟩
    by_cases hn : node = n <;> simp [hn]

theorem covered_confirm (node : MsduNode) : CoveredThroughout [.confirm node] := by
  intro pre hpre
  match pre, hpre with
  | [], _ => exact covered_nil
  | [_], hpre =>
    obtain ⟨post, heq⟩ := hpre
    cases heq
    refine ⟨by simp, fun n => ?_, Nat.le_refl 0⟩
    rw [List.count_eq_zero.mpr (by simp), List.count_eq_zero.mpr (by simp)]
    exact Nat.zero_le _
  | _ :: _ :: _, hpre =>
    have hlen := hpre.length_le
    simp at hlen

end Steps

section Runs

variable {c : ApConfig} {s t : PckState} {acts log : List PckAct}

/-- `rwm_transfer` gets the memory for its node. -/
def NodeFound (_ : PckState) : PckEvent → Prop
  | .msdu (.transfer _ _ alloc) => alloc = true
  | _ => True

instance (s : PckState) (e : PckEvent) : Decidable (NodeFound s e) := by
  unfold NodeFound
  split <;> infer_instance

/-- What the functions did to the counter in a run. -/
def actsOfPck (h : Machine.History PckEvent (List PckAct)) : List PckAct := h.flatMap (·.2)

theorem takes_some {r : Option (ApPs × List MsduAct)} (hx : r.map s.takes = some (t, acts)) :
    ∃ u msduActs, r = some (u, msduActs) ∧ acts = pckActs msduActs := by
  simp only [Option.map_eq_some_iff, PckState.takes, Prod.mk.injEq] at hx
  obtain ⟨⟨u, msduActs⟩, hr, -, rfl⟩ := hx
  exact ⟨u, msduActs, hr, rfl⟩

theorem step_msdu {e : MsduEvent} (he : ∀ ok, e ≠ .coreContinues ok) :
    (pckCntrl c).step s (.msdu e) = ((apPs c).step s.aps e).map s.takes := by
  cases e with
  | coreContinues ok => exact absurd rfl (he ok)
  | _ => rfl

/-- A step either keeps the books or is a `rwm_transfer` that gets no memory. -/
theorem pckCntrl_step {e : PckEvent} (hx : (pckCntrl c).step s e = some (t, acts)) :
    (NodeFound s e ∧ CoveredThroughout acts) ∨ (¬ NodeFound s e ∧ acts = [.dec none]) := by
  cases e with
  | coreContinues env =>
    obtain ⟨u, msduActs, hr, rfl⟩ := takes_some hx
    exact .inl ⟨trivial, (pckActs_coreContinues hr).covered⟩
  | confirm node =>
    simp only [pckCntrl, Option.ite_none_right_eq_some, Option.some.injEq, Prod.mk.injEq] at hx
    obtain ⟨-, -, rfl⟩ := hx
    exact .inl ⟨trivial, covered_confirm node⟩
  | msdu e =>
    cases e with
    | coreContinues ok => cases hx
    | transfer vifIdx staIdx alloc =>
      obtain ⟨u, msduActs, hr, rfl⟩ := takes_some hx
      cases alloc with
      | true =>
        left
        rcases pckActs_step hr with hc | ⟨_, _, heq, -⟩
        · exact ⟨rfl, hc.covered⟩
        · cases heq
      | false =>
        right
        simp only [apPs, Option.ite_none_right_eq_some, Option.some.injEq] at hr
        obtain ⟨-, hr⟩ := hr
        cases hr
        exact ⟨Bool.false_ne_true, rfl⟩
    | _ =>
      rw [step_msdu] at hx
      · obtain ⟨u, msduActs, hr, rfl⟩ := takes_some hx
        left
        rcases pckActs_step hr with hc | ⟨_, _, heq, -⟩
        · exact ⟨trivial, hc.covered⟩
        · cases heq
      · intro ok heq
        cases heq

theorem actsOfPck_concat (h : Machine.History PckEvent (List PckAct)) (e : PckEvent)
    (acts : List PckAct) : actsOfPck (h ++ [(e, acts)]) = actsOfPck h ++ acts := by
  rw [actsOfPck, List.flatMap_append, List.flatMap_singleton]
  rfl

theorem covered_run {h : Machine.History PckEvent (List PckAct)}
    (hr : (pckCntrl c).ReachesUnder NodeFound h s) : CoveredThroughout (actsOfPck h) := by
  refine hr.invariant (fun h _ => CoveredThroughout (actsOfPck h)) coveredThroughout_nil ?_
  intro h s e t acts hinv hc hx
  rw [actsOfPck_concat]
  rcases pckCntrl_step hx with ⟨-, hcov⟩ | ⟨hno, -⟩
  · exact hinv.append hcov
  · exact absurd hc hno

/-- The books balance at every moment of exactly the runs in which `rwm_transfer` always gets
the memory for its node: only then is each frame that is counted down one that was counted. -/
theorem pck_cnt_balanced (c : ApConfig) {h : Machine.History PckEvent (List PckAct)}
    {s : PckState} : (pckCntrl c).ReachesUnder NodeFound h s ↔
      (pckCntrl c).ReachesWithin (fun h _ => PckBalance (actsOfPck h)) h s := by
  refine Machine.reachesUnder_iff_within (fun hr => (covered_run hr).balance) ?_
  intro h s e t acts _ hx hbal
  rcases pckCntrl_step hx with ⟨hfound, -⟩ | ⟨-, rfl⟩
  · exact hfound
  · rw [actsOfPck_concat] at hbal
    obtain ⟨n, hn, -⟩ := hbal.paired (actsOfPck h) none [] rfl
    cases hn

/-- A `rwm_transfer` without memory counts down a frame that was never counted. -/
theorem unfound_node_counted_down : ¬ ∀ (c : ApConfig)
    (h : Machine.History PckEvent (List PckAct)) (s : PckState), (pckCntrl c).Reaches h s →
      PckBalance (actsOfPck h) := by
  intro hall
  have hrun : ∃ h s, (pckCntrl oneAp).exec [.msdu (.transfer 0 1 false)] = some (h, s) ∧
      actsOfPck h = [.dec none] := ⟨_, _, rfl, rfl⟩
  obtain ⟨h, s, hx, hacts⟩ := hrun
  have hbal := hall oneAp h s (Machine.reaches_of_exec hx)
  rw [hacts] at hbal
  obtain ⟨n, hn, -⟩ := hbal.paired [] none [] rfl
  cases hn

end Runs

end BdkRtt.Wlan
