import BdkRtt.Wlan.PsTimer
import BdkRtt.Wlan.MsduDelivery

namespace BdkRtt.Wlan

open Lib

section Steps

variable {c : ApConfig} {s t : ApPs} {e : MsduEvent} {acts : List MsduAct}

/-- The events that neither begin a flush nor carry one on. -/
def MsduEvent.leavesFlushes : MsduEvent → Bool
  | .apPsTimeout _ | .flush _ | .flushContinues _ => false
  | _ => true

theorem rwmTransfer_flushes (c : ApConfig) (s : ApPs) (vifIdx staIdx : UInt8) (alloc : Bool) :
    (rwmTransfer c s vifIdx staIdx alloc).1.flushes = s.flushes := by
  unfold rwmTransfer
  split
  next => rfl
  next =>
    rcases rwmPsTranferNode_spec c { s with allocated := s.allocated + 1 }
      ⟨s.allocated, vifIdx, staIdx⟩ with ⟨heq, -⟩ | ⟨heq, -⟩ <;> simp only [heq]

theorem rwmMsduSendTxingNode_flushes (c : ApConfig) (s : ApPs) (staIdx : UInt8) :
    (rwmMsduSendTxingNode c s staIdx).flushes = s.flushes := by
  unfold rwmMsduSendTxingNode
  split
  next => rfl
  next node t hpop =>
    obtain ⟨rest, -, rfl⟩ := rwmPopTxingList_eq_some hpop
    rfl

theorem coreContinues_flushes {ok : Bool} (h : coreContinues c s ok = some (t, acts)) :
    t.flushes = s.flushes := by
  unfold coreContinues at h
  split at h
  next => cases h
  next => split at h <;> cases h <;> rfl
  next node _ =>
    cases h
    simp only [rwmPushTxingList]
    split <;> rfl
  all_goals
    cases h
    rfl

theorem flushes_same (he : e.leavesFlushes = true) (h : (apPs c).step s e = some (t, acts)) :
    t.flushes = s.flushes := by
  simp only [apPs] at h
  cases e with
  | apPsTimeout | flush | flushContinues => cases he
  | transfer vifIdx staIdx alloc =>
    simp only [Option.ite_none_right_eq_some, Option.some.injEq] at h
    rw [← rwmTransfer_flushes c s vifIdx staIdx alloc, h.2]
  | sendTxing staIdx =>
    simp only [Option.ite_none_right_eq_some, Option.some.injEq, Prod.mk.injEq] at h
    rw [← rwmMsduSendTxingNode_flushes c s staIdx, h.2.1]
  | coreContinues ok => exact coreContinues_flushes h
  | psChanges staIdx inPs =>
    cases h
    rfl
  | psChangeInd staIdx psOn =>
    simp only [Option.some.injEq, rwmMsduPsChangeIndHandler] at h
    split at h
    next =>
      cases h
      rfl
    next => split at h <;> cases h <;> rfl

theorem rwmFlushTxingList_flushes (c : ApConfig) (s : ApPs) (staIdx : UInt8) :
    (rwmFlushTxingList c s staIdx).flushes = s.flushes ∨
      ∃ looping, (rwmFlushTxingList c s staIdx).flushes = s.flushes ++ [⟨staIdx, looping⟩] := by
  unfold rwmFlushTxingList
  split
  next => exact .inl rfl
  next => exact .inr ⟨_, rfl⟩

theorem rwmFlushTxingList_txing (c : ApConfig) (s : ApPs) (staIdx : UInt8) :
    (rwmFlushTxingList c s staIdx).txing = s.txing := by
  unfold rwmFlushTxingList
  split <;> rfl

/-- A node is in a list after a step if it was before, or the core thread has pushed it. -/
theorem mem_txing_step (hm : NodeMove c s t acts) {σ : UInt8} {n : MsduNode}
    (hn : n ∈ t.txing σ) :
    n ∈ s.txing σ ∨ (s.core = .pushes n ∧ σ = n.staIdx ∧ t.core = .idle) := by
  cases hm with
  | stays htxing => exact .inl (htxing ▸ hn)
  | receives _ htxing => exact .inl (htxing ▸ hn)
  | @pushes node hcore htxing hidle =>
    rw [htxing] at hn
    rcases mem_setAt hn with ⟨rfl, hmem⟩ | hmem
    · rcases List.mem_append.mp hmem with hold | hnew
      · exact .inl hold
      · rw [List.mem_singleton] at hnew
        subst hnew
        exact .inr ⟨hcore, rfl, hidle⟩
    · exact .inl hmem
  | @pops node ρ rest _ hlist htxing =>
    rw [htxing] at hn
    rcases mem_setAt hn with ⟨rfl, hmem⟩ | hmem
    · exact .inl (by rw [hlist]; exact List.mem_cons_of_mem _ hmem)
    · exact .inl hmem
  | hands _ _ htxing => exact .inl (htxing ▸ hn)
  | @frees node ρ rest hlist htxing =>
    rw [htxing] at hn
    rcases mem_setAt hn with ⟨rfl, hmem⟩ | hmem
    · exact .inl (by rw [hlist]; exact List.mem_cons_of_mem _ hmem)
    · exact .inl hmem

/-- Only the core thread's own step ends a push. -/
theorem core_of_pushes {node : MsduNode} (hcore : s.core = .pushes node)
    (he : ∀ ok, e ≠ .coreContinues ok) (h : (apPs c).step s e = some (t, acts)) :
    t.core = .pushes node := by
  simp only [apPs] at h
  cases e with
  | coreContinues ok => exact absurd rfl (he ok)
  | transfer | sendTxing => simp [hcore] at h
  | psChanges =>
    cases h
    exact hcore
  | psChangeInd staIdx psOn =>
    simp only [Option.some.injEq, rwmMsduPsChangeIndHandler] at h
    split at h
    next =>
      cases h
      exact hcore
    next => split at h <;> cases h <;> exact hcore
  | apPsTimeout staIdx =>
    simp only [Option.ite_none_right_eq_some, Option.some.injEq, Prod.mk.injEq] at h
    obtain ⟨-, rfl, -⟩ := h
    unfold rwmFlushTxingList
    split <;> exact hcore
  | flush staIdx =>
    cases h
    unfold rwmFlushTxingList
    split <;> exact hcore
  | flushContinues i =>
    simp only [flushContinues] at h
    split at h
    next => cases h
    next =>
      split at h
      next hpop =>
        obtain ⟨rest, -, rfl⟩ := rwmPopTxingList_eq_some hpop
        cases h
        exact hcore
      next =>
        cases h
        exact hcore
    next =>
      cases h
      exact hcore

end Steps

section Flushes

variable {s : TimedPs} {t : ApPs} {σ : UInt8}

theorem flushing_iff : s.Flushing σ ↔
    ∃ i : Nat, s.aps.flushes[i]? = some ⟨σ, true⟩ ∧ s.byTimer[i]? = some true := by
  constructor
  · rintro ⟨i, -, hf, hb⟩
    exact ⟨i, hf, hb⟩
  · rintro ⟨i, hf, hb⟩
    exact ⟨i, (List.getElem?_eq_some_iff.mp hf).1, hf, hb⟩

theorem origins_of_leaves {e : MsduEvent} (he : e.leavesFlushes = true) :
    s.origins t e = s.byTimer := by
  cases e with
  | apPsTimeout | flush | flushContinues => cases he
  | _ => rfl

/-- What a list of flushes is after one more has begun at its end. -/
theorem getElem?_begun {fs : List Flush} {bs : List Bool} {f g : Flush} {b : Bool} {i : Nat}
    (hlen : bs.length = fs.length) (hf : (fs ++ [g])[i]? = some f)
    (hb : (bs ++ [b])[i]? = some true) :
    (fs[i]? = some f ∧ bs[i]? = some true) ∨ (f = g ∧ b = true) := by
  rcases Nat.lt_or_ge i fs.length with hlt | hge
  · left
    rw [List.getElem?_append_left hlt] at hf
    rw [List.getElem?_append_left (by omega)] at hb
    exact ⟨hf, hb⟩
  · right
    rw [List.getElem?_append_right hge] at hf
    rw [List.getElem?_append_right (by omega)] at hb
    have hi : i - fs.length = 0 := by
      by_contra hne
      rw [List.getElem?_eq_none (Nat.pos_of_ne_zero hne)] at hf
      cases hf
    rw [hi] at hf
    rw [hlen, hi] at hb
    exact ⟨(Option.some.inj hf).symm, Option.some.inj hb⟩

end Flushes

section Aging

variable {c : ApConfig} {s t : TimedPs} {e : MsduEvent} {a : TimedAnswer}

/-- The nodes in a list that a timer's flush is emptying have all been there long enough. -/
structure Aging (c : ApConfig) (s : TimedPs) : Prop where
  placed : Placed c s.aps
  origins : s.byTimer.length = s.aps.flushes.length
  old : ∀ σ, s.Flushing σ → ∀ n ∈ s.aps.txing σ, s.joined n + maxBufferTime ≤ s.now

theorem msdu_step (hx : (timedPs c).step s (.msdu e) = some (t, a)) :
    s.due e = true ∧ ∃ u acts, (apPs c).step s.aps e = some (u, acts) ∧
      t = { aps := u, now := s.now, since := s.periods u e, joined := s.joins e,
            byTimer := s.origins u e } ∧ a = ⟨acts, s.discards acts e⟩ := by
  simp only [timedPs, Option.ite_none_right_eq_some, Option.map_eq_some_iff, Prod.mk.injEq,
    Prod.exists] at hx
  obtain ⟨hdue, u, acts, hstep, rfl, rfl⟩ := hx
  exact ⟨hdue, u, acts, hstep, rfl, rfl⟩

theorem settled_pushes {ok : Bool} {n : MsduNode}
    (hsettled : Settled s (.msdu (.coreContinues ok))) (hcore : s.aps.core = .pushes n) :
    ¬ s.Flushing n.staIdx := by
  simpa only [Settled, hcore] using hsettled

/-- No step moves the time at which a node joined a list that an expiry is emptying. -/
theorem settled_joins (hsettled : Settled s (.msdu e)) {n : MsduNode}
    (hf : s.Flushing n.staIdx) : s.joins e n = s.joined n := by
  cases e with
  | coreContinues ok =>
    simp only [TimedPs.joins]
    cases hcore : s.aps.core with
    | pushes node =>
      refine if_neg fun heq => ?_
      subst heq
      exact settled_pushes hsettled hcore hf
    | _ => rfl
  | _ => rfl

/-- A node in a list that an expiry was emptying has been there since before the step. -/
theorem Aging.mem_before (h : Aging c s) (hsettled : Settled s (.msdu e)) {u : ApPs}
    {acts : List MsduAct} (hstep : (apPs c).step s.aps e = some (u, acts)) {σ : UInt8}
    (hf : s.Flushing σ) {n : MsduNode} (hn : n ∈ u.txing σ) : n ∈ s.aps.txing σ := by
  rcases mem_txing_step (NodeMove.of_step h.placed.active h.placed.behind hstep) hn with
    hold | ⟨hcore, rfl, hidle⟩
  · exact hold
  · by_cases he : ∃ ok, e = .coreContinues ok
    · obtain ⟨ok, rfl⟩ := he
      exact absurd hf (settled_pushes hsettled hcore)
    · rw [core_of_pushes hcore (fun ok heq => he ⟨ok, heq⟩) hstep] at hidle
      cases hidle

/-- A list that an expiry was emptying holds what is old enough, after any step. -/
theorem Aging.still_old (h : Aging c s) (hsettled : Settled s (.msdu e)) {u : ApPs}
    {acts : List MsduAct} (hstep : (apPs c).step s.aps e = some (u, acts)) {σ : UInt8}
    (hf : s.Flushing σ) {n : MsduNode} (hn : n ∈ u.txing σ) :
    s.joins e n + maxBufferTime ≤ s.now := by
  have hold := h.mem_before hsettled hstep hf hn
  rw [settled_joins hsettled ((h.placed.txing σ n hold).2.symm ▸ hf)]
  exact h.old σ hf n hold

theorem Aging.leaves (h : Aging c s) (hsettled : Settled s (.msdu e))
    (he : e.leavesFlushes = true) (hx : (timedPs c).step s (.msdu e) = some (t, a)) :
    Aging c t := by
  obtain ⟨-, u, acts, hstep, rfl, -⟩ := msdu_step hx
  have hm := NodeMove.of_step h.placed.active h.placed.behind hstep
  have hflushes := flushes_same he hstep
  have horig := origins_of_leaves (s := s) (t := u) he
  refine ⟨hm.placed h.placed, ?_, fun σ hf n hn => ?_⟩
  · simp only [horig, hflushes, h.origins]
  · obtain ⟨i, hfi, hbi⟩ := flushing_iff.mp hf
    simp only [horig, hflushes] at hfi hbi
    exact h.still_old hsettled hstep (flushing_iff.mpr ⟨i, hfi, hbi⟩) hn

/-- A flush begins: by an expiry, which finds only nodes that are old enough, or otherwise. -/
theorem Aging.begins (h : Aging c s) {staIdx : UInt8} {byTimer : Bool}
    (hsettled : Settled s (.msdu e)) {u : ApPs} {acts : List MsduAct}
    (hstep : (apPs c).step s.aps e = some (u, acts))
    (hu : u = rwmFlushTxingList c s.aps staIdx)
    (horig : s.origins u e =
      s.byTimer ++ List.replicate (u.flushes.length - s.aps.flushes.length) byTimer)
    (hjoins : s.joins e = s.joined)
    (hold : byTimer = true → ∀ n ∈ s.aps.txing staIdx, s.joined n + maxBufferTime ≤ s.now) :
    Aging c { aps := u, now := s.now, since := s.periods u e, joined := s.joins e,
              byTimer := s.origins u e } := by
  have hm := NodeMove.of_step h.placed.active h.placed.behind hstep
  have htxing : u.txing = s.aps.txing := hu ▸ rwmFlushTxingList_txing c s.aps staIdx
  rcases rwmFlushTxingList_flushes c s.aps staIdx with hsame | ⟨looping, hmore⟩
  · rw [← hu] at hsame
    rw [hsame, Nat.sub_self, List.replicate_zero, List.append_nil] at horig
    refine ⟨hm.placed h.placed, ?_, fun σ hf n hn => ?_⟩
    · simp only [horig, hsame, h.origins]
    · obtain ⟨i, hfi, hbi⟩ := flushing_iff.mp hf
      simp only [horig, hsame] at hfi hbi
      exact h.still_old hsettled hstep (flushing_iff.mpr ⟨i, hfi, hbi⟩) hn
  · rw [← hu] at hmore
    rw [hmore, List.length_append, List.length_singleton, Nat.add_sub_cancel_left] at horig
    refine ⟨hm.placed h.placed, ?_, fun σ hf n hn => ?_⟩
    · simp only [horig, hmore, List.length_append, List.length_replicate, h.origins,
        List.length_singleton]
    · obtain ⟨i, hfi, hbi⟩ := flushing_iff.mp hf
      simp only [horig, hmore, List.replicate_one] at hfi hbi
      rcases getElem?_begun h.origins hfi hbi with ⟨hfi, hbi⟩ | ⟨hf, hb⟩
      · exact h.still_old hsettled hstep (flushing_iff.mpr ⟨i, hfi, hbi⟩) hn
      · cases hf
        dsimp only at hn ⊢
        rw [htxing] at hn
        rw [hjoins]
        exact hold hb n hn

theorem flushContinues_flushes {s t : ApPs} {acts : List MsduAct} {i : Nat}
    (h : flushContinues c s i = some (t, acts)) :
    t.flushes = s.flushes ∨ (∃ σ, t.flushes = s.flushes.set i ⟨σ, false⟩) ∨
      (i < s.flushes.length ∧ t.flushes = s.flushes.eraseIdx i) := by
  unfold flushContinues at h
  split at h
  next => cases h
  next σ _ =>
    split at h
    next hpop =>
      obtain ⟨rest, -, rfl⟩ := rwmPopTxingList_eq_some hpop
      cases h
      exact .inl rfl
    next =>
      cases h
      exact .inr (.inl ⟨σ, rfl⟩)
  next hf =>
    cases h
    exact .inr (.inr ⟨(List.getElem?_eq_some_iff.mp hf).1, rfl⟩)

theorem Aging.continues (h : Aging c s) {i : Nat}
    (hsettled : Settled s (.msdu (.flushContinues i)))
    (hx : (timedPs c).step s (.msdu (.flushContinues i)) = some (t, a)) : Aging c t := by
  obtain ⟨-, u, acts, hstep, rfl, -⟩ := msdu_step hx
  have hm := NodeMove.of_step h.placed.active h.placed.behind hstep
  have hlen := h.origins
  rcases flushContinues_flushes hstep with hsame | ⟨σ, hset⟩ | ⟨hi, herase⟩
  · have horig : s.origins u (.flushContinues i) = s.byTimer := if_neg (by rw [hsame]; omega)
    refine ⟨hm.placed h.placed, ?_, fun σ hf n hn => ?_⟩
    · simp only [horig, hsame, hlen]
    · obtain ⟨j, hfj, hbj⟩ := flushing_iff.mp hf
      simp only [horig, hsame] at hfj hbj
      exact h.still_old hsettled hstep (flushing_iff.mpr ⟨j, hfj, hbj⟩) hn
  · have horig : s.origins u (.flushContinues i) = s.byTimer :=
      if_neg (by rw [hset, List.length_set]; omega)
    refine ⟨hm.placed h.placed, ?_, fun τ hf n hn => ?_⟩
    · simp only [horig, hset, List.length_set, hlen]
    · obtain ⟨j, hfj, hbj⟩ := flushing_iff.mp hf
      simp only [horig, hset, List.getElem?_set] at hfj hbj
      split at hfj
      next => split at hfj <;> simp at hfj
      next => exact h.still_old hsettled hstep (flushing_iff.mpr ⟨j, hfj, hbj⟩) hn
  · have horig : s.origins u (.flushContinues i) = s.byTimer.eraseIdx i :=
      if_pos (by rw [herase, List.length_eraseIdx_of_lt hi]; omega)
    refine ⟨hm.placed h.placed, ?_, fun τ hf n hn => ?_⟩
    · simp only [horig, herase]
      rw [List.length_eraseIdx_of_lt hi, List.length_eraseIdx_of_lt (by omega), hlen]
    · obtain ⟨j, hfj, hbj⟩ := flushing_iff.mp hf
      simp only [horig, herase, List.getElem?_eraseIdx] at hfj hbj
      split at hfj
      next hj =>
        rw [if_pos hj] at hbj
        exact h.still_old hsettled hstep (flushing_iff.mpr ⟨j, hfj, hbj⟩) hn
      next hj =>
        rw [if_neg hj] at hbj
        exact h.still_old hsettled hstep (flushing_iff.mpr ⟨j + 1, hfj, hbj⟩) hn

theorem Aging.msdu (h : Aging c s) (hsettled : Settled s (.msdu e))
    (hx : (timedPs c).step s (.msdu e) = some (t, a)) : Aging c t := by
  cases e with
  | apPsTimeout staIdx =>
    obtain ⟨hdue, u, acts, hstep, rfl, -⟩ := msdu_step hx
    have hu : u = rwmFlushTxingList c s.aps staIdx := by
      simp only [apPs, Option.ite_none_right_eq_some, Option.some.injEq, Prod.mk.injEq] at hstep
      exact hstep.2.1.symm
    refine h.begins hsettled hstep hu rfl rfl fun _ n hn => ?_
    -- the node was there when the period began, and the period is over
    have hjoined : s.joined n ≤ s.since staIdx := hsettled n hn
    have hover : s.since staIdx + maxBufferTime ≤ s.now := of_decide_eq_true hdue
    omega
  | flush staIdx =>
    obtain ⟨-, u, acts, hstep, rfl, -⟩ := msdu_step hx
    have hu : u = rwmFlushTxingList c s.aps staIdx := by
      simp only [apPs, Option.some.injEq, Prod.mk.injEq] at hstep
      exact hstep.1.symm
    exact h.begins hsettled hstep hu rfl rfl fun hfalse => absurd hfalse Bool.false_ne_true
  | flushContinues i => exact h.continues hsettled hx
  | _ => exact h.leaves hsettled rfl hx

theorem Aging.step {e : TimedEvent} (h : Aging c s) (hsettled : Settled s e)
    (hx : (timedPs c).step s e = some (t, a)) : Aging c t := by
  cases e with
  | passes ms =>
    cases hx
    refine ⟨h.placed, h.origins, fun σ hf n hn => ?_⟩
    have hold := h.old σ hf n hn
    dsimp only
    omega
  | msdu e => exact h.msdu hsettled hx

theorem freed_from_list {s t : ApPs} {acts : List MsduAct} {i : Nat}
    (h : flushContinues c s i = some (t, acts)) {n : MsduNode} (hn : n ∈ freedNodes acts) :
    ∃ σ, s.flushes[i]? = some ⟨σ, true⟩ ∧ n ∈ s.txing σ := by
  unfold flushContinues at h
  split at h
  next => cases h
  next σ hf =>
    split at h
    next node u hpop =>
      obtain ⟨rest, hlist, rfl⟩ := rwmPopTxingList_eq_some hpop
      cases h
      rw [List.mem_singleton.mp hn]
      exact ⟨σ, hf, hlist ▸ List.mem_cons_self⟩
    next =>
      cases h
      cases hn
  next =>
    cases h
    cases hn

theorem Aging.discards {e : TimedEvent} (h : Aging c s)
    (hx : (timedPs c).step s e = some (t, a)) : ∀ age ∈ a.discarded, maxBufferTime ≤ age := by
  cases e with
  | passes ms =>
    cases hx
    nofun
  | msdu e =>
    obtain ⟨-, u, acts, hstep, -, rfl⟩ := msdu_step hx
    intro age hage
    cases e with
    | flushContinues i =>
      simp only [TimedPs.discards] at hage
      split at hage
      next hb =>
        obtain ⟨n, hn, rfl⟩ := List.mem_map.mp hage
        obtain ⟨σ, hf, hmem⟩ := freed_from_list hstep hn
        have hold := h.old σ (flushing_iff.mpr ⟨i, hf, hb⟩) n hmem
        omega
      next => cases hage
    | _ => cases hage

theorem aging {h : Machine.History TimedEvent TimedAnswer}
    (hr : (timedPs c).ReachesUnder Settled h s) : Aging c s := by
  refine hr.stateInvariant (Aging c) ?_ fun hi hc hx => hi.step hc hx
  refine ⟨(tracked .init).placed, rfl, ?_⟩
  rintro σ ⟨i, hi, -⟩
  cases hi

/-- No expiry of a station's timer frees a node that has been in the list for less than
`MAX_BUFFER_TIME`, when each finds only nodes that were there as its period began. -/
theorem timeout_frees_old (c : ApConfig) {h : Machine.History TimedEvent TimedAnswer}
    {s : TimedPs} (hr : (timedPs c).ReachesUnder Settled h s) :
    ∀ x ∈ h, ∀ age ∈ x.2.discarded, maxBufferTime ≤ age := by
  intro x hx
  obtain ⟨pre, post, heq⟩ := List.append_of_mem hx
  obtain ⟨t, t', hr', -, hstep⟩ := hr.cut heq
  exact (aging hr').discards hstep

/-- A frame waits for a sleeping station. -/
def waits : List TimedEvent :=
  [.msdu (.transfer 0 1 true), .msdu (.coreContinues true), .msdu (.coreContinues true)]

/-- The timer expires and its thread frees the frame. -/
def expires : List TimedEvent := [.msdu (.apPsTimeout 1), .msdu (.flushContinues 0)]

theorem timeout_frees_old_one : ∃ h s, (timedPs oneAp).ReachesUnder Settled h s ∧
    (∃ x ∈ h, x.2.discarded = [maxBufferTime]) ∧
      ∀ x ∈ h, ∀ age ∈ x.2.discarded, maxBufferTime ≤ age := by
  have hrun : ∃ h s, (timedPs oneAp).exec
      ([.msdu (.psChanges 1 true)] ++ waits ++ [.passes maxBufferTime] ++ expires) =
        some (h, s) ∧ ∃ x ∈ h, x.2.discarded = [maxBufferTime] := by
    refine ⟨_, _, rfl, _, List.mem_of_getElem? (i := 6) rfl, rfl⟩
  obtain ⟨h, s, hx, hage⟩ := hrun
  have hr := Machine.reachesUnder_of_exec (C := Settled) (by decide) hx
  exact ⟨h, s, hr, hage, timeout_frees_old oneAp hr⟩

/-- The station polls its frame without waking, and the timer goes on running for the next. -/
theorem timeout_frees_fresh : ¬ ∀ (c : ApConfig)
    (h : Machine.History TimedEvent TimedAnswer) (s : TimedPs), (timedPs c).Reaches h s →
      ∀ x ∈ h, ∀ age ∈ x.2.discarded, maxBufferTime ≤ age := by
  intro hall
  have hrun : ∃ h s, (timedPs oneAp).exec
      ([.msdu (.psChanges 1 true)] ++ waits ++ [.passes 1, .msdu (.sendTxing 1),
        .msdu (.coreContinues true), .msdu (.coreContinues true), .passes 9998] ++ waits ++
        [.passes 1] ++ expires) = some (h, s) ∧ ∃ x ∈ h, x.2.discarded = [1] := by
    refine ⟨_, _, rfl, _, List.mem_of_getElem? (i := 14) rfl, rfl⟩
  obtain ⟨h, s, hx, x, hmem, hage⟩ := hrun
  have hold := hall oneAp h s (Machine.reaches_of_exec hx) x hmem 1 (by simp [hage])
  exact absurd hold (by decide)

end Aging

end BdkRtt.Wlan
