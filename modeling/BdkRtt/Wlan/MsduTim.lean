import BdkRtt.Wlan.MsduDelivery

namespace BdkRtt.Wlan

open Lib

section Bit

/-- The value of the last `rw_msg_send_tim_update` for a station, zero before the first. -/
def timBit (σ : UInt8) (acts : List MsduAct) : Bool :=
  acts.foldl (fun b a =>
    match a with
    | .timUpdate τ on => if τ = σ then on else b
    | _ => b) false

def MsduAct.updatesTim : MsduAct → Bool
  | .timUpdate _ _ => true
  | _ => false

variable (σ : UInt8) (log : List MsduAct) {acts : List MsduAct}

theorem timBit_concat (τ : UInt8) (on : Bool) :
    timBit σ (log ++ [.timUpdate τ on]) = if τ = σ then on else timBit σ log := by
  simp [timBit]

theorem timBit_append (h : ∀ a ∈ acts, a.updatesTim = false) :
    timBit σ (log ++ acts) = timBit σ log := by
  rw [timBit, List.foldl_append]
  change acts.foldl _ (timBit σ log) = _
  induction acts with
  | nil => rfl
  | cons a acts ih =>
    have ha : a.updatesTim = false := h a List.mem_cons_self
    rw [List.foldl_cons]
    cases a with
    | timUpdate τ on => cases ha
    | _ => exact ih fun b hb => h b (List.mem_cons_of_mem _ hb)

end Bit

section Agreement

/-- The core thread is in a call that has yet to bring the bit of the station in line. -/
def MsduCore.owes (σ : UInt8) : MsduCore → Prop
  | .buffers node | .pushes node => node.staIdx = σ
  | .popped _ τ => τ = σ
  | .sent τ nodeLeft => τ = σ ∧ nodeLeft = 0
  | .idle | .transfers _ => False

instance (σ : UInt8) (core : MsduCore) : Decidable (core.owes σ) := by
  cases core <;> unfold MsduCore.owes <;> infer_instance

/-- The bit of a station is set exactly while frames are waiting for it, but for the stretch
of a call that is about to set or clear it. -/
def TimAgrees (log : List MsduAct) (s : ApPs) : Prop :=
  ∀ σ, ¬ s.core.owes σ → (timBit σ log = true ↔ s.txing σ ≠ [])

/-- A flush does not take the last node of a list behind the back of the bit. -/
def FlushLeaves (c : ApConfig) (s : ApPs) : MsduEvent → Prop
  | .flushContinues i => ∀ f ∈ s.flushes[i]?, f.looping = true →
      ∀ p ∈ rwmPopTxingList c s f.staIdx, p.2.txing f.staIdx = [] → s.core.owes f.staIdx
  | _ => True

instance (c : ApConfig) (s : ApPs) (e : MsduEvent) : Decidable (FlushLeaves c s e) := by
  cases e <;> unfold FlushLeaves <;> infer_instance

variable {c : ApConfig} {s t : ApPs} {acts log : List MsduAct}

/-- The bit of every station, also where the core thread is in the middle of a call. -/
structure TimTracked (c : ApConfig) (log : List MsduAct) (s : ApPs) : Prop where
  placed : Placed c s
  waiting : ∀ σ, s.txing σ ≠ [] → timBit σ log = true
  settled : ∀ σ, ¬ s.core.owes σ → timBit σ log = true → s.txing σ ≠ []
  pushes : ∀ node, s.core = .pushes node → timBit node.staIdx log = true
  sent : ∀ σ, s.core = .sent σ 0 → s.txing σ = []
  popped : ∀ node σ, s.core = .popped node σ → σ.toNat < c.maxPsStaNum

theorem TimTracked.agrees (h : TimTracked c log s) : TimAgrees log s :=
  fun σ ho => ⟨h.settled σ ho, h.waiting σ⟩

/-- What touches neither a list nor the core thread nor the bit changes nothing. -/
theorem TimTracked.congr (h : TimTracked c log s) (hp : Placed c t) (hcore : t.core = s.core)
    (htxing : t.txing = s.txing) (hacts : ∀ a ∈ acts, a.updatesTim = false) :
    TimTracked c (log ++ acts) t where
  placed := hp
  waiting σ := by
    rw [htxing, timBit_append _ _ hacts]
    exact h.waiting σ
  settled σ := by
    rw [hcore, htxing, timBit_append _ _ hacts]
    exact h.settled σ
  pushes node := by
    rw [hcore, timBit_append _ _ hacts]
    exact h.pushes node
  sent σ := by
    rw [hcore, htxing]
    exact h.sent σ
  popped node σ := by
    rw [hcore]
    exact h.popped node σ

end Agreement

section Steps

variable {c : ApConfig} {s t : ApPs} {acts log : List MsduAct} {node : MsduNode} {σ : UInt8}

theorem lt_of_pop (h : rwmPopTxingList c s σ = some (node, t)) : σ.toNat < c.maxPsStaNum := by
  by_contra hge
  rw [rwmPopTxingList, if_pos (Nat.le_of_not_lt hge)] at h
  cases h

/-- The core thread begins a call or comes back from one that touches no list. -/
theorem TimTracked.moves (h : TimTracked c log s) (hp : Placed c t)
    (howes : ∀ σ, ¬ t.core.owes σ → ¬ s.core.owes σ) (htxing : t.txing = s.txing)
    (hacts : ∀ a ∈ acts, a.updatesTim = false)
    (hpushes : ∀ node, t.core ≠ .pushes node) (hsent : ∀ σ, t.core ≠ .sent σ 0)
    (hpopped : ∀ node σ, t.core ≠ .popped node σ) : TimTracked c (log ++ acts) t where
  placed := hp
  waiting σ := by
    rw [htxing, timBit_append _ _ hacts]
    exact h.waiting σ
  settled σ ho := by
    rw [htxing, timBit_append _ _ hacts]
    exact h.settled σ (howes σ ho)
  pushes node hc := absurd hc (hpushes node)
  sent σ hc := absurd hc (hsent σ)
  popped node σ hc := absurd hc (hpopped node σ)

/-- A node leaves the front of a list, for the air or for the heap. -/
theorem TimTracked.pops (h : TimTracked c log s) {rest : List MsduNode}
    (hlist : s.txing σ = node :: rest) (hp : Placed c t)
    (htxing : t.txing = setAt s.txing σ rest)
    (howes : ∀ τ, ¬ t.core.owes τ → ¬ s.core.owes τ ∧ (τ = σ → rest ≠ []))
    (hpushes : ∀ node, t.core = .pushes node → s.core = .pushes node)
    (hsent : ∀ τ, t.core = .sent τ 0 → s.core = .sent τ 0)
    (hpopped : ∀ node τ, t.core = .popped node τ → τ.toNat < c.maxPsStaNum) :
    TimTracked c log t where
  placed := hp
  waiting τ hne := by
    apply h.waiting
    by_cases hτ : τ = σ
    · rw [hτ, hlist]
      exact List.cons_ne_nil _ _
    · rwa [htxing, setAt_of_ne hτ] at hne
  settled τ ho hbit := by
    obtain ⟨ho', hrest⟩ := howes τ ho
    by_cases hτ : τ = σ
    · subst hτ
      rw [htxing, setAt_same]
      exact hrest rfl
    · rw [htxing, setAt_of_ne hτ]
      exact h.settled τ ho' hbit
  pushes node hc := h.pushes node (hpushes node hc)
  sent τ hc := by
    have hnil := h.sent τ (hsent τ hc)
    by_cases hτ : τ = σ
    · subst hτ
      rw [hlist] at hnil
      cases hnil
    · rwa [htxing, setAt_of_ne hτ]
  popped := hpopped

theorem txing_ne_nil_of_count (h : rwmTxlingListNodeCount c s σ ≠ 0) : s.txing σ ≠ [] := by
  intro hnil
  apply h
  unfold rwmTxlingListNodeCount
  split
  · rfl
  · rw [hnil]
    rfl

theorem TimTracked.buffers (h : TimTracked c log s) (hcore : s.core = .buffers node) (ok : Bool)
    (hm : coreContinues c s ok = some (t, acts)) (hp : Placed c t) :
    TimTracked c (log ++ acts) t := by
  have howes : ∀ τ, s.core.owes τ ↔ node.staIdx = τ := fun τ => by rw [hcore]; exact .rfl
  simp only [coreContinues, hcore] at hm
  split at hm
  next =>
    cases hm
    refine ⟨hp, fun τ => ?_, fun τ ho => ?_, fun n hc => ?_, nofun, nofun⟩
    · rw [timBit_concat]
      split
      next => exact fun _ => rfl
      next => exact h.waiting τ
    · have hτ : ¬ node.staIdx = τ := ho
      rw [timBit_concat, if_neg hτ]
      exact h.settled τ fun hs => hτ ((howes τ).mp hs)
    · cases hc
      rw [timBit_concat, if_pos rfl]
  next hcount =>
    cases hm
    rw [List.append_nil]
    refine ⟨hp, h.waiting, fun τ ho => ?_, fun n hc => ?_, nofun, nofun⟩
    · exact h.settled τ fun hs => ho ((howes τ).mp hs)
    · cases hc
      exact h.waiting _ (txing_ne_nil_of_count hcount)

theorem TimTracked.pushed (h : TimTracked c log s) (hcore : s.core = .pushes node) (ok : Bool)
    (hm : coreContinues c s ok = some (t, acts)) (hp : Placed c t) :
    TimTracked c (log ++ acts) t := by
  have hb : c.Buffers node :=
    h.placed.behind node (by rw [hcore]; exact List.mem_singleton_self _)
  simp only [coreContinues, hcore, rwmPushTxingList_of_lt hb.2] at hm
  cases hm
  rw [List.append_nil]
  refine ⟨hp, fun τ hne => ?_, fun τ _ hbit => ?_, nofun, nofun, nofun⟩
  · by_cases hτ : τ = node.staIdx
    · rw [hτ]
      exact h.pushes node hcore
    · dsimp only at hne
      exact h.waiting τ (by rwa [setAt_of_ne hτ] at hne)
  · dsimp only
    by_cases hτ : τ = node.staIdx
    · rw [hτ, setAt_same]
      exact List.append_ne_nil_of_right_ne_nil _ (List.cons_ne_nil _ _)
    · rw [setAt_of_ne hτ]
      refine h.settled τ (fun ho => hτ ?_) hbit
      rw [hcore] at ho
      exact ho.symm

theorem TimTracked.transmits (h : TimTracked c log s) (hcore : s.core = .popped node σ)
    (ok : Bool) (hm : coreContinues c s ok = some (t, acts)) (hp : Placed c t) :
    TimTracked c (log ++ acts) t := by
  have hlt := h.popped node σ hcore
  have hcount : rwmTxlingListNodeCount c s σ = (s.txing σ).length :=
    if_neg (Nat.not_le.mpr hlt)
  have hacts : ∀ a ∈ acts, a.updatesTim = false := by
    simp only [coreContinues, hcore, Option.some.injEq, Prod.mk.injEq] at hm
    rw [← hm.2]
    cases ok <;> simp [rwmTransferNode, MsduAct.updatesTim]
  simp only [coreContinues, hcore, hcount] at hm
  cases hm
  refine ⟨hp, fun τ => ?_, fun τ ho => ?_, nofun, fun τ hc => ?_, nofun⟩
  · rw [timBit_append _ _ hacts]
    exact h.waiting τ
  · rw [timBit_append _ _ hacts]
    intro hbit
    by_cases hτ : τ = σ
    · subst hτ
      exact fun hnil => ho ⟨rfl, by rw [hnil]; rfl⟩
    · refine h.settled τ (fun ho' => hτ ?_) hbit
      rw [hcore] at ho'
      exact ho'.symm
  · simp only [MsduCore.sent.injEq] at hc
    rw [← hc.1]
    exact List.length_eq_zero_iff.mp hc.2

theorem TimTracked.finishes (h : TimTracked c log s) {nodeLeft : Nat}
    (hcore : s.core = .sent σ nodeLeft) (ok : Bool)
    (hm : coreContinues c s ok = some (t, acts)) (hp : Placed c t) :
    TimTracked c (log ++ acts) t := by
  simp only [coreContinues, hcore] at hm
  cases hm
  by_cases h0 : nodeLeft = 0
  · subst h0
    simp only [ne_eq, not_true_eq_false, false_and, if_false, if_true] at hp ⊢
    refine ⟨hp, fun τ hne => ?_, fun τ _ hbit => ?_, nofun, nofun, nofun⟩
    · have hτ : ¬ σ = τ := fun hτ => hne (hτ ▸ h.sent σ hcore)
      rw [timBit_concat, if_neg hτ]
      exact h.waiting τ hne
    · rw [timBit_concat] at hbit
      split at hbit
      next => cases hbit
      next hτ =>
        refine h.settled τ (fun ho => hτ ?_) hbit
        rw [hcore] at ho
        exact ho.1
  · refine h.moves hp (fun τ _ ho => ?_) rfl ?_ nofun nofun nofun
    · rw [hcore] at ho
      exact h0 ho.2
    · split
      next => simp [MsduAct.updatesTim]
      next => simp

theorem TimTracked.coreContinues {ok : Bool} (h : TimTracked c log s)
    (hm : coreContinues c s ok = some (t, acts)) (hp : Placed c t) :
    TimTracked c (log ++ acts) t := by
  cases hcore : s.core with
  | idle => simp [Wlan.coreContinues, hcore] at hm
  | buffers node => exact h.buffers hcore ok hm hp
  | pushes node => exact h.pushed hcore ok hm hp
  | transfers node =>
    simp only [Wlan.coreContinues, hcore] at hm
    cases hm
    refine h.moves hp (fun τ _ => ?_) rfl ?_ nofun nofun nofun
    · rw [hcore]
      exact id
    · cases ok <;> simp [rwmTransferNode, MsduAct.updatesTim]
  | popped node σ => exact h.transmits hcore ok hm hp
  | sent σ nodeLeft => exact h.finishes hcore ok hm hp

theorem TimTracked.flushContinues {i : Nat} (h : TimTracked c log s)
    (hm : flushContinues c s i = some (t, acts)) (hp : Placed c t)
    (hleaves : FlushLeaves c s (.flushContinues i)) : TimTracked c (log ++ acts) t := by
  unfold Wlan.flushContinues at hm
  split at hm
  next => cases hm
  next σ hf =>
    have hkeeps := hleaves ⟨σ, true⟩ hf rfl
    split at hm
    next node u hpop =>
      obtain ⟨rest, hlist, rfl⟩ := rwmPopTxingList_eq_some hpop
      cases hm
      have hrest := hkeeps _ hpop
      dsimp only at hrest
      rw [setAt_same] at hrest
      have hpops := h.pops hlist hp rfl (fun τ ho => ⟨ho, fun hτ hnil => ho (hτ ▸ hrest hnil)⟩)
        (fun _ => id) (fun _ => id) h.popped
      exact hpops.congr hp rfl rfl (by simp [MsduAct.updatesTim])
    next =>
      cases hm
      exact h.congr hp rfl rfl nofun
  next =>
    cases hm
    exact h.congr hp rfl rfl nofun

theorem TimTracked.step {e : MsduEvent} (h : TimTracked c log s) (hleaves : FlushLeaves c s e)
    (hm : (apPs c).step s e = some (t, acts)) : TimTracked c (log ++ acts) t := by
  have hp : Placed c t := (NodeMove.of_step h.placed.active h.placed.behind hm).placed h.placed
  have hfree : s.core = .idle → ∀ σ, ¬ s.core.owes σ := fun hidle σ => by rw [hidle]; exact id
  simp only [apPs] at hm
  cases e with
  | transfer vifIdx staIdx alloc =>
    simp only [Option.ite_none_right_eq_some, Option.some.injEq] at hm
    obtain ⟨hidle, hm⟩ := hm
    unfold rwmTransfer at hm
    split at hm
    next =>
      cases hm
      exact h.congr hp rfl rfl (by simp [MsduAct.updatesTim])
    next =>
      obtain ⟨rfl, rfl⟩ := Prod.mk.inj hm
      rcases rwmPsTranferNode_spec c { s with allocated := s.allocated + 1 }
        ⟨s.allocated, vifIdx, staIdx⟩ with ⟨heq, _⟩ | ⟨heq, _⟩ <;>
      · rw [heq] at hp ⊢
        refine h.moves hp (fun σ _ => hfree hidle σ) rfl (by simp [MsduAct.updatesTim])
          (fun node hc => ?_) (fun σ hc => ?_) (fun node σ hc => ?_)
        all_goals cases hc
  | sendTxing staIdx =>
    simp only [Option.ite_none_right_eq_some, Option.some.injEq, Prod.mk.injEq] at hm
    obtain ⟨hidle, rfl, rfl⟩ := hm
    unfold rwmMsduSendTxingNode at hp ⊢
    split
    next => exact h.congr h.placed rfl rfl fun a ha => absurd ha List.not_mem_nil
    next node u hpop =>
      rw [hpop] at hp
      have hlt := lt_of_pop hpop
      obtain ⟨rest, hlist, rfl⟩ := rwmPopTxingList_eq_some hpop
      rw [List.append_nil]
      refine h.pops hlist hp rfl (fun τ ho => ⟨hfree hidle τ, fun hτ => absurd hτ.symm ho⟩)
        (fun n hc => ?_) (fun τ hc => ?_) fun n τ hc => ?_
      · cases hc
      · cases hc
      · cases hc
        exact hlt
  | coreContinues ok => exact h.coreContinues hm hp
  | psChanges staIdx inPs =>
    cases hm
    exact h.congr hp rfl rfl fun a ha => absurd ha List.not_mem_nil
  | psChangeInd staIdx psOn =>
    simp only [Option.some.injEq, rwmMsduPsChangeIndHandler] at hm
    split at hm
    next =>
      cases hm
      exact h.congr hp rfl rfl (by simp [MsduAct.updatesTim])
    next =>
      split at hm <;>
      · cases hm
        exact h.congr hp rfl rfl fun a ha => absurd ha List.not_mem_nil
  | apPsTimeout staIdx =>
    simp only [Option.ite_none_right_eq_some, Option.some.injEq, Prod.mk.injEq] at hm
    obtain ⟨_, rfl, rfl⟩ := hm
    unfold rwmFlushTxingList at hp ⊢
    split <;> exact h.congr (by simp_all) rfl rfl fun a ha => absurd ha List.not_mem_nil
  | flush staIdx =>
    simp only [Option.some.injEq, Prod.mk.injEq] at hm
    obtain ⟨rfl, rfl⟩ := hm
    unfold rwmFlushTxingList at hp ⊢
    split <;> exact h.congr (by simp_all) rfl rfl fun a ha => absurd ha List.not_mem_nil
  | flushContinues i => exact h.flushContinues hm hp hleaves

/-- A flush that takes the last node of a list leaves the bit of the station set. -/
theorem TimTracked.breaks {e : MsduEvent} (h : TimTracked c log s)
    (hm : (apPs c).step s e = some (t, acts)) (ht : TimAgrees (log ++ acts) t) :
    FlushLeaves c s e := by
  cases e with
  | flushContinues i =>
    rintro ⟨σ, looping⟩ hf rfl ⟨node, u⟩ hpop hnil
    by_contra ho
    simp only [apPs, Wlan.flushContinues, Option.mem_def.mp hf, Option.mem_def.mp hpop,
      Option.some.injEq, Prod.mk.injEq] at hm
    obtain ⟨rfl, rfl⟩ := hm
    obtain ⟨rest, hlist, rfl⟩ := rwmPopTxingList_eq_some hpop
    have hbit : timBit σ log = true := h.waiting σ (by rw [hlist]; exact List.cons_ne_nil _ _)
    refine (ht σ ho).mp ?_ hnil
    rwa [timBit_append _ _ (by simp [MsduAct.updatesTim])]
  | _ => trivial

end Steps

section Runs

variable {c : ApConfig}

theorem timTracked {h : Machine.History MsduEvent (List MsduAct)} {s : ApPs}
    (hr : (apPs c).ReachesUnder (FlushLeaves c) h s) : TimTracked c (actsOfMsdu h) s := by
  refine hr.invariant (fun h s => TimTracked c (actsOfMsdu h) s) ?_ ?_
  · exact ⟨(tracked .init).placed, fun _ hne => absurd rfl hne, nofun, nofun, nofun, nofun⟩
  · intro h s e t acts hinv hleaves hm
    rw [actsOfMsdu, List.flatMap_append, List.flatMap_singleton]
    exact hinv.step hleaves hm

/-- After every step the bit last sent for a station agrees with its list exactly in the runs
in which no flush takes the last node of a list. -/
theorem tim_agrees_with_list (c : ApConfig) {h : Machine.History MsduEvent (List MsduAct)}
    {s : ApPs} :
    (apPs c).ReachesUnder (FlushLeaves c) h s ↔
      (apPs c).ReachesWithin (fun h s => TimAgrees (actsOfMsdu h) s) h s := by
  refine Machine.reachesUnder_iff_within (fun hr => (timTracked hr).agrees) ?_
  intro h s e t acts hr hm ht
  refine (timTracked hr).breaks hm ?_
  rwa [actsOfMsdu, List.flatMap_append, List.flatMap_singleton] at ht

/-- A frame waits for a sleeping station until the timer expires. -/
def flushedStation : List MsduEvent :=
  [.psChanges 1 true, .transfer 0 1 true, .coreContinues true, .coreContinues true,
    .apPsTimeout 1, .flushContinues 0, .flushContinues 0, .flushContinues 0]

theorem tim_left_set :
    ∃ h s, (apPs oneAp).Reaches h s ∧ s.core = .idle ∧ s.flushes = [] ∧ s.txing 1 = [] ∧
      timBit 1 (actsOfMsdu h) = true := by
  have hrun : ∃ h s, (apPs oneAp).exec flushedStation = some (h, s) ∧ s.core = .idle ∧
      s.flushes = [] ∧ s.txing 1 = [] ∧ timBit 1 (actsOfMsdu h) = true :=
    ⟨_, _, rfl, rfl, rfl, rfl, rfl⟩
  obtain ⟨h, s, hx, hrest⟩ := hrun
  exact ⟨h, s, Machine.reaches_of_exec hx, hrest⟩

end Runs

end BdkRtt.Wlan
