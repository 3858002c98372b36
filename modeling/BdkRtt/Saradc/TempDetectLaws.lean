import BdkRtt.Saradc.TempDetect

namespace BdkRtt.Saradc

open Lib

section Armed

/-- The messages whose handling ends in a running timer or a conversion. -/
def TempMsg.leadsBack : TempMsg → Bool
  | .pauseTimer => false
  | .restartTimer | .changeParam | .timerPoll | .intPoll => true

/-- The timer is running, a conversion is under way, or a message is queued or being handled
that leads back to one of these. -/
def TempDetect.Armed (s : TempDetect) : Prop :=
  s.timer = true ∨ s.hdl = true ∨ s.thread ≠ .waits ∨
    .timerPoll ∈ s.queue ∨ .intPoll ∈ s.queue ∨ .changeParam ∈ s.queue

/-- Nothing is left that could start a conversion. -/
structure TempDetect.Quiet (s : TempDetect) : Prop where
  timer : s.timer = false
  hdl : s.hdl = false
  thread : s.thread = .waits
  queue : ∀ m ∈ s.queue, m.leadsBack = false

instance (s : TempDetect) : Decidable s.Quiet :=
  decidable_of_iff (s.timer = false ∧ s.hdl = false ∧ s.thread = .waits ∧
    ∀ m ∈ s.queue, m.leadsBack = false)
    ⟨fun ⟨ht, hh, hth, hq⟩ => ⟨ht, hh, hth, hq⟩, fun h => ⟨h.timer, h.hdl, h.thread, h.queue⟩⟩

/-- Each pause in the queue has a restart behind it. -/
def Answered : List TempMsg → Prop
  | [] => True
  | .pauseTimer :: queue => .restartTimer ∈ queue ∧ Answered queue
  | _ :: queue => Answered queue

instance : ∀ queue, Decidable (Answered queue)
  | [] => inferInstanceAs (Decidable True)
  | .pauseTimer :: queue =>
    have := instDecidableAnswered queue
    inferInstanceAs (Decidable (.restartTimer ∈ queue ∧ Answered queue))
  | .restartTimer :: queue => instDecidableAnswered queue
  | .changeParam :: queue => instDecidableAnswered queue
  | .timerPoll :: queue => instDecidableAnswered queue
  | .intPoll :: queue => instDecidableAnswered queue

/-- What is armed, or about to be by a restart that is queued. -/
def TempDetect.Goes (s : TempDetect) : Prop :=
  s.timer = true ∨ s.hdl = true ∨ s.thread ≠ .waits ∨ ∃ m ∈ s.queue, m.leadsBack = true

/-- A message can be dropped, or need not be, without the detection stopping. -/
def TempDetect.Keeps (s : TempDetect) : Prop :=
  s.queue.length < tempDetQitemCount ∨ s.timer = true ∨ ∃ m ∈ s.queue, m.leadsBack = true

instance (s : TempDetect) : Decidable s.Keeps := by
  unfold TempDetect.Keeps
  infer_instance

variable {s : TempDetect} {queue : List TempMsg} {m : TempMsg}

theorem TempDetect.Goes.armed (h : s.Goes) : s.Armed ∨ .restartTimer ∈ s.queue := by
  rcases h with ht | hh | hth | ⟨m, hm, hback⟩
  · exact .inl (.inl ht)
  · exact .inl (.inr (.inl hh))
  · exact .inl (.inr (.inr (.inl hth)))
  · cases m with
    | pauseTimer => cases hback
    | restartTimer => exact .inr hm
    | changeParam => exact .inl (.inr (.inr (.inr (.inr (.inr hm)))))
    | timerPoll => exact .inl (.inr (.inr (.inr (.inl hm))))
    | intPoll => exact .inl (.inr (.inr (.inr (.inr (.inl hm)))))

theorem answered_append (hm : m ≠ .pauseTimer) (h : Answered queue) :
    Answered (queue ++ [m]) := by
  induction queue with
  | nil => cases m <;> first | exact absurd rfl hm | trivial
  | cons a queue ih =>
    cases a with
    | pauseTimer => exact ⟨List.mem_append_left _ h.1, ih h.2⟩
    | _ => exact ih h

theorem answered_append_restart (queue : List TempMsg) :
    Answered (queue ++ [.restartTimer]) := by
  induction queue with
  | nil => trivial
  | cons a queue ih =>
    cases a with
    | pauseTimer => exact ⟨List.mem_append_right _ (List.mem_singleton_self _), ih⟩
    | _ => exact ih

theorem leadsBack_of_answered (h : Answered queue) (hne : queue ≠ []) :
    ∃ m ∈ queue, m.leadsBack = true := by
  cases queue with
  | nil => exact absurd rfl hne
  | cons a queue =>
    cases a with
    | pauseTimer => exact ⟨_, List.mem_cons_of_mem _ h.1, rfl⟩
    | _ => exact ⟨_, List.mem_cons_self, rfl⟩

theorem leadsBack_of_ne (hm : m ≠ .pauseTimer) : m.leadsBack = true := by
  cases m with
  | pauseTimer => exact absurd rfl hm
  | _ => rfl

theorem answered_tail (h : Answered (m :: queue)) : Answered queue := by
  cases m with
  | pauseTimer => exact h.2
  | _ => exact h

/-- A message is put at the end of the queue, or dropped because there are too many. -/
theorem sendMsg_cases (s : TempDetect) (m : TempMsg) :
    (s.queue.length < tempDetQitemCount ∧
      tempDetectSendMsg s m = { s with queue := s.queue ++ [m] }) ∨
    (tempDetQitemCount ≤ s.queue.length ∧ tempDetectSendMsg s m = s) := by
  unfold tempDetectSendMsg
  split
  next hroom => exact .inl ⟨hroom, rfl⟩
  next hfull => exact .inr ⟨Nat.le_of_not_lt hfull, rfl⟩

end Armed

section Steps

variable {s t : TempDetect} {acts : List TempAct}

/-- No call and no message is lost on the detection: a pause finds the timer running and room
in the queue, or nothing left to stop; a restart finds the timer stopped and room, or no pause
under way; a message that does not fit is not the last that leads back; the parameters change
when nothing else leads back only with another interval, and not while detection is paused;
and when the thread comes to a pause nothing is behind it or under way. -/
def Heeded (s : TempDetect) : TempEvent → Prop
  | .timerExpires => True
  | .converted => s.paused = true ∨ s.Keeps
  | .pauseTimer => .pauseTimer ∈ s.queue ∨
    (s.timer = true ∧ s.queue.length < tempDetQitemCount) ∨ s.Quiet
  | .restartDetect => Answered s.queue ∨
    (s.timer = false ∧ s.queue.length < tempDetQitemCount)
  | .changeConfiguration intval _ _ => s.paused = false ∨ .pauseTimer ∈ s.queue ∨
    s.detectIntval.toUInt32 = intvalOr intval
  | .threadContinues _ =>
    match s.thread, s.queue with
    | .polls, _ =>
      s.paused = true ∨ s.detectIntvalChange ≠ adcTmepDetectIntvalChange ∨ s.Keeps
    | .waits, .changeParam :: queue =>
      s.paused = true ∨ s.detectIntval.toUInt32 ≠ adcTmepDetectIntval ∨ s.timer = true ∨
        s.hdl = true ∨ ∃ m ∈ queue, m.leadsBack = true
    | .waits, .pauseTimer :: queue =>
      s.paused = false ∨ .pauseTimer ∈ queue ∨
        (s.hdl = false ∧ ∀ m ∈ queue, m.leadsBack = false)
    | _, _ => True

instance (s : TempDetect) (e : TempEvent) : Decidable (Heeded s e) := by
  unfold Heeded
  repeat' split
  all_goals infer_instance

/-- While detection is to run it goes on, and no pause is left unanswered; while it is to rest
a pause is queued, or it rests. -/
structure TempDetect.Obeys (s : TempDetect) : Prop where
  going : s.paused = false → Answered s.queue ∧ s.Goes
  resting : s.paused = true → .pauseTimer ∈ s.queue ∨ s.Quiet

theorem changeConfiguration_spec (s : TempDetect) (intval thre dist : UInt32) :
    let t := (tempDetectChangeConfiguration s intval thre dist).1
    t.queue = s.queue ∧ t.hdl = s.hdl ∧ t.thread = s.thread ∧ t.paused = s.paused ∧
      (s.detectIntval.toUInt32 ≠ intvalOr intval → t.timer = true) ∧
      (s.detectIntval.toUInt32 = intvalOr intval → t.timer = s.timer) := by
  dsimp only [tempDetectChangeConfiguration]
  by_cases heq : s.detectIntval.toUInt32 = intvalOr intval
  · rw [if_neg (not_not_intro heq)]
    exact ⟨rfl, rfl, rfl, rfl, fun h => absurd heq h, fun _ => rfl⟩
  · rw [if_pos heq]
    exact ⟨rfl, rfl, rfl, rfl, fun _ => rfl, fun h => absurd h heq⟩

theorem TempDetect.Obeys.sends (h : s.Obeys) {m : TempMsg} (hm : m ≠ .pauseTimer)
    (hquiet : ¬ s.Quiet) : (tempDetectSendMsg s m).Obeys := by
  rcases sendMsg_cases s m with ⟨-, heq⟩ | ⟨-, heq⟩
  · rw [heq]
    refine ⟨fun hp => ⟨answered_append hm (h.going hp).1, ?_⟩, fun hp => ?_⟩
    · exact .inr (.inr (.inr ⟨m, List.mem_append_right _ (List.mem_singleton_self m),
        leadsBack_of_ne hm⟩))
    · rcases h.resting hp with hmem | hq
      · exact .inl (List.mem_append_left _ hmem)
      · exact absurd hq hquiet
  · rw [heq]
    exact h

/-- What goes on stays in line while its queue is as it was. -/
theorem TempDetect.Obeys.moves (h : s.Obeys) (hqueue : t.queue = s.queue)
    (hpaused : t.paused = s.paused) (hgoes : t.Goes) (hquiet : ¬ s.Quiet) : t.Obeys := by
  refine ⟨fun hp => ?_, fun hp => ?_⟩
  · rw [hpaused] at hp
    rw [hqueue]
    exact ⟨(h.going hp).1, hgoes⟩
  · rw [hpaused] at hp
    rw [hqueue]
    exact .inl ((h.resting hp).resolve_right hquiet)

/-- The thread takes a message that leads back, and goes on with what it asks for. -/
theorem TempDetect.Obeys.takes (h : s.Obeys) {m : TempMsg} {queue : List TempMsg}
    (hq : s.queue = m :: queue) (hm : m ≠ .pauseTimer) (hqueue : t.queue = queue)
    (hpaused : t.paused = s.paused) (hgoes : s.paused = false → t.Goes) : t.Obeys := by
  refine ⟨fun hp => ?_, fun hp => ?_⟩
  · rw [hpaused] at hp
    have hanswered := (h.going hp).1
    rw [hq] at hanswered
    rw [hqueue]
    exact ⟨answered_tail hanswered, hgoes hp⟩
  · rw [hpaused] at hp
    rw [hqueue]
    rcases h.resting hp with hmem | hquiet
    · rw [hq] at hmem
      exact .inl ((List.mem_cons.mp hmem).resolve_left (Ne.symm hm))
    · have hback := hquiet.queue m (hq ▸ List.mem_cons_self)
      rw [leadsBack_of_ne hm] at hback
      cases hback

theorem TempDetect.Obeys.converted (h : s.Obeys) (hc : Heeded s .converted)
    (hhdl : s.hdl = true) :
    (tempDetectSendMsg { s with hdl := false } .intPoll).Obeys := by
  have hquiet : ¬ s.Quiet := fun hq => by simp [hq.hdl] at hhdl
  rcases sendMsg_cases { s with hdl := false } .intPoll with ⟨-, heq⟩ | ⟨hfull, heq⟩
  · rw [heq]
    refine ⟨fun hp => ⟨answered_append nofun (h.going hp).1, ?_⟩, fun hp => ?_⟩
    · exact .inr (.inr (.inr ⟨_, List.mem_append_right _ (List.mem_singleton_self _), rfl⟩))
    · exact .inl (List.mem_append_left _ ((h.resting hp).resolve_right hquiet))
  · rw [heq]
    refine ⟨fun hp => ⟨(h.going hp).1, ?_⟩, fun hp => ?_⟩
    · rcases hc with hpaused | hroom | htimer | hback
      · exact absurd (hp.symm.trans hpaused) nofun
      · exact absurd hroom (Nat.not_lt.mpr hfull)
      · exact .inl htimer
      · exact .inr (.inr (.inr hback))
    · exact .inl ((h.resting hp).resolve_right hquiet)

theorem TempDetect.Obeys.pauses (hc : Heeded s .pauseTimer) :
    (tempDetectPauseTimer s).Obeys := by
  unfold tempDetectPauseTimer
  dsimp only
  split
  next htimer =>
    rcases sendMsg_cases { s with paused := true } .pauseTimer with ⟨-, heq⟩ | ⟨hfull, heq⟩
    · rw [heq]
      exact ⟨nofun, fun _ => .inl (List.mem_append_right _ (List.mem_singleton_self _))⟩
    · rw [heq]
      refine ⟨nofun, fun _ => ?_⟩
      rcases hc with hmem | ⟨-, hroom⟩ | hquiet
      · exact .inl hmem
      · exact absurd hroom (Nat.not_lt.mpr hfull)
      · rw [hquiet.timer] at htimer
        cases htimer
  next htimer =>
    refine ⟨nofun, fun _ => ?_⟩
    rcases hc with hmem | ⟨hrun, -⟩ | hquiet
    · exact .inl hmem
    · exact absurd hrun htimer
    · exact .inr ⟨hquiet.timer, hquiet.hdl, hquiet.thread, hquiet.queue⟩

theorem TempDetect.Obeys.restarts (hc : Heeded s .restartDetect) :
    (tempDetectRestartDetect s).Obeys := by
  unfold tempDetectRestartDetect
  dsimp only
  split
  next htimer =>
    refine ⟨fun _ => ?_, nofun⟩
    rcases hc with hanswered | ⟨hstopped, -⟩
    · exact ⟨hanswered, .inl htimer⟩
    · rw [htimer] at hstopped
      cases hstopped
  next htimer =>
    rcases sendMsg_cases { s with paused := false } .restartTimer with ⟨-, heq⟩ | ⟨hfull, heq⟩
    · rw [heq]
      refine ⟨fun _ => ⟨answered_append_restart _, ?_⟩, nofun⟩
      exact .inr (.inr (.inr ⟨_, List.mem_append_right _ (List.mem_singleton_self _), rfl⟩))
    · rw [heq]
      refine ⟨fun _ => ?_, nofun⟩
      rcases hc with hanswered | ⟨-, hroom⟩
      · have hne : s.queue ≠ [] := by
          intro hnil
          rw [hnil] at hfull
          exact absurd hfull (by decide)
        exact ⟨hanswered, .inr (.inr (.inr (leadsBack_of_answered hanswered hne)))⟩
      · exact absurd hroom (Nat.not_lt.mpr hfull)

theorem TempDetect.Obeys.changes (h : s.Obeys) {intval thre dist : UInt32}
    (hc : Heeded s (.changeConfiguration intval thre dist)) :
    (tempDetectChangeConfiguration s intval thre dist).1.Obeys := by
  obtain ⟨hqueue, hhdl, hthread, hpaused, hother, hsame⟩ :=
    changeConfiguration_spec s intval thre dist
  refine ⟨fun hp => ?_, fun hp => ?_⟩
  · rw [hpaused] at hp
    obtain ⟨hanswered, hgoes⟩ := h.going hp
    rw [TempDetect.Goes, hqueue, hhdl, hthread]
    refine ⟨hanswered, ?_⟩
    by_cases heq : s.detectIntval.toUInt32 = intvalOr intval
    · rw [hsame heq]
      exact hgoes
    · exact .inl (hother heq)
  · rw [hpaused] at hp
    rw [hqueue]
    rcases h.resting hp with hmem | hquiet
    · exact .inl hmem
    · rcases hc with hgoing | hmem | heq
      · exact absurd (hp.symm.trans hgoing) nofun
      · exact .inl hmem
      · refine .inr ⟨(hsame heq).trans hquiet.timer, hhdl.trans hquiet.hdl,
          hthread.trans hquiet.thread, ?_⟩
        rw [hqueue]
        exact hquiet.queue

theorem TempDetect.Obeys.takesMsg (h : s.Obeys) (hthread : s.thread = .waits) {m : TempMsg}
    {queue : List TempMsg} (hq : s.queue = m :: queue) {opened : Bool}
    (hc : Heeded s (.threadContinues opened)) :
    (tempDetectTakes { s with queue := queue } m).1.Obeys := by
  simp only [Heeded, hthread, hq] at hc
  cases m with
  | pauseTimer =>
    refine ⟨fun hp => ?_, fun hp => ?_⟩
    · have hanswered := (h.going hp).1
      rw [hq] at hanswered
      exact ⟨hanswered.2, .inr (.inr (.inr ⟨_, hanswered.1, rfl⟩))⟩
    · rcases hc with hgoing | hmem | ⟨hhdl, hrest⟩
      · exact absurd (hp.symm.trans hgoing) nofun
      · exact .inl hmem
      · exact .inr ⟨rfl, hhdl, hthread, hrest⟩
  | restartTimer => exact h.takes hq nofun rfl rfl fun _ => .inl rfl
  | changeParam =>
    obtain ⟨hqueue, hhdl, -, hpaused, hother, hsame⟩ :=
      changeConfiguration_spec { s with queue := queue } adcTmepDetectIntval
        s.detectThre.toUInt32 adcTmepDistIntialVal
    refine h.takes hq nofun hqueue hpaused fun hp => ?_
    rw [TempDetect.Goes, tempDetectTakes, hqueue, hhdl]
    by_cases heq : s.detectIntval.toUInt32 = intvalOr adcTmepDetectIntval
    · rcases hc with hpaused | hne | htimer | hhdl | hback
      · exact absurd (hp.symm.trans hpaused) nofun
      · exact absurd heq hne
      · exact .inl ((hsame heq).trans htimer)
      · exact .inr (.inl hhdl)
      · exact .inr (.inr (.inr hback))
    · exact .inl (hother heq)
  | timerPoll =>
    simp only [tempDetectTakes]
    split
    next hhdl => exact h.takes hq nofun rfl rfl fun _ => .inr (.inl hhdl)
    next => exact h.takes hq nofun rfl rfl fun _ => .inr (.inr (.inl nofun))
  | intPoll => exact h.takes hq nofun rfl rfl fun _ => .inr (.inr (.inl nofun))

theorem TempDetect.Obeys.continues (h : s.Obeys) {opened : Bool}
    (hc : Heeded s (.threadContinues opened))
    (hx : tempThreadContinues s opened = some (t, acts)) : t.Obeys := by
  have hbusy : s.thread ≠ .waits → ¬ s.Quiet := fun hne hq => hne hq.thread
  cases hthread : s.thread with
  | waits =>
    simp only [tempThreadContinues, hthread] at hx
    cases hq : s.queue with
    | nil => simp [hq] at hx
    | cons m queue =>
      simp only [hq, Option.some.injEq] at hx
      have ht := h.takesMsg hthread hq hc
      simp only [hthread] at ht
      rwa [hx] at ht
  | enables =>
    have hquiet := hbusy (by simp [hthread])
    simp only [tempThreadContinues, hthread] at hx
    cases hx
    exact h.moves rfl rfl (.inr (.inr (.inl nofun))) hquiet
  | opens =>
    have hquiet := hbusy (by simp [hthread])
    simp only [tempThreadContinues, hthread] at hx
    split at hx
    next =>
      cases hx
      exact h.moves rfl rfl (.inr (.inl rfl)) hquiet
    next =>
      cases hx
      exact h.moves rfl rfl (.inr (.inr (.inl nofun))) hquiet
  | reloads =>
    have hquiet := hbusy (by simp [hthread])
    simp only [tempThreadContinues, hthread] at hx
    cases hx
    exact h.moves rfl rfl (.inl rfl) hquiet
  | polls =>
    have hquiet := hbusy (by simp [hthread])
    simp only [Heeded, hthread] at hc
    simp only [tempThreadContinues, hthread] at hx
    split at hx
    next hchange =>
      cases hx
      rcases sendMsg_cases { s with thread := .waits } .changeParam with ⟨-, heq⟩ | ⟨hfull, heq⟩
      · rw [heq]
        refine ⟨fun hp => ⟨answered_append nofun (h.going hp).1, ?_⟩, fun hp => ?_⟩
        · exact .inr (.inr (.inr ⟨_, List.mem_append_right _ (List.mem_singleton_self _), rfl⟩))
        · exact .inl (List.mem_append_left _ ((h.resting hp).resolve_right hquiet))
      · rw [heq]
        refine ⟨fun hp => ⟨(h.going hp).1, ?_⟩, fun hp => ?_⟩
        · rcases hc with hpaused | hne | hroom | htimer | hback
          · exact absurd (hp.symm.trans hpaused) nofun
          · exact absurd hchange hne
          · exact absurd hroom (Nat.not_lt.mpr hfull)
          · exact .inl htimer
          · exact .inr (.inr (.inr hback))
        · exact .inl ((h.resting hp).resolve_right hquiet)
    next =>
      cases hx
      exact h.moves rfl rfl (.inl rfl) hquiet

theorem TempDetect.Obeys.step {initVal : UInt16} {e : TempEvent} (h : s.Obeys)
    (hc : Heeded s e) (hx : (tempDetect initVal).step s e = some (t, acts)) : t.Obeys := by
  cases e with
  | timerExpires =>
    simp only [tempDetect, Option.ite_none_right_eq_some, Option.some.injEq,
      Prod.mk.injEq] at hx
    obtain ⟨htimer, rfl, -⟩ := hx
    exact h.sends (by decide) fun hq => by simp [hq.timer] at htimer
  | converted =>
    simp only [tempDetect, Option.ite_none_right_eq_some, Option.some.injEq,
      Prod.mk.injEq] at hx
    obtain ⟨hhdl, rfl, -⟩ := hx
    exact h.converted hc hhdl
  | pauseTimer =>
    cases hx
    exact .pauses hc
  | restartDetect =>
    cases hx
    exact .restarts hc
  | changeConfiguration intval thre dist =>
    have ht := h.changes hc
    simp only [tempDetect, Option.some.injEq] at hx
    rwa [hx] at ht
  | threadContinues opened => exact h.continues hc hx

end Steps

section Runs

variable {initVal : UInt16} {s : TempDetect}

end Runs

end BdkRtt.Saradc
