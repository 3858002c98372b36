import BdkRtt.Lib.Words
import BdkRtt.Wlan.ApIdle

namespace BdkRtt.Wlan.ApIdle

open Lib

section Radio

variable {s : Ap}

/-- `RF_HOLD_BY_AP_BIT` is set. -/
def Ap.Holds (s : Ap) : Prop := s.rfHoldStatus &&& rfHoldByApBit = rfHoldByApBit

instance (s : Ap) : Decidable s.Holds := inferInstanceAs (Decidable (_ = _))

theorem not_holds_and (x : UInt32) :
    (x &&& ~~~rfHoldByApBit) &&& rfHoldByApBit ≠ rfHoldByApBit := by
  rw [and_not_and_mask]
  decide

/-- The radio is off exactly when the access point does not hold it, and then the timer runs. -/
structure Radio (s : Ap) : Prop where
  count : s.psFakeGlobalApCount = 0 ∨ s.psFakeGlobalApCount = 1
  off : s.apRfOff = 1 ↔ ¬ s.Holds
  timed : s.apRfOff = 1 → s.psApBcnTimer.any (·.running) = true

theorem radio_apUp (hold : UInt32) : Radio (apUp hold) where
  count := .inl rfl
  off := iff_of_false (by change ¬ (0 : UInt32) = 1; decide) fun h => h (or_and_mask ..)
  timed h := absurd h (by change ¬ (0 : UInt32) = 1; decide)

theorem Radio.congr (h : Radio s) {t : Ap} (hcount : t.psFakeGlobalApCount = s.psFakeGlobalApCount)
    (hoff : t.apRfOff = s.apRfOff) (hhold : t.rfHoldStatus = s.rfHoldStatus)
    (htimer : t.psApBcnTimer = s.psApBcnTimer) : Radio t where
  count := hcount ▸ h.count
  off := by
    rw [Ap.Holds, hoff, hhold]
    exact h.off
  timed ht := htimer ▸ h.timed (hoff ▸ ht)

/-- With the radio up nothing is asked of the timer. -/
theorem radio_rfUp (hcount : s.psFakeGlobalApCount = 0 ∨ s.psFakeGlobalApCount = 1) :
    Radio s.rfUp where
  count := hcount
  off := iff_of_false (by change ¬ (0 : UInt32) = 1; decide) fun h => h (or_and_mask ..)
  timed h := absurd h (by change ¬ (0 : UInt32) = 1; decide)

theorem Radio.apPsDoRfUp (h : Radio s) : Radio s.apPsDoRfUp := by
  unfold Ap.apPsDoRfUp
  split
  · exact radio_rfUp h.count
  · exact h

theorem Radio.stop (h : Radio s) : Radio s.stopGlobalApBcnTimer :=
  { radio_rfUp h.count with
    timed := fun hoff => absurd hoff (by change ¬ (0 : UInt32) = 1; decide) }

theorem Radio.start (h : Radio s) (created : Bool) : Radio (s.startGlobalApBcnTimer created) :=
  { radio_rfUp h.count with
    timed := fun hoff => absurd hoff (by change ¬ (0 : UInt32) = 1; decide) }

/-- What a `RUN` does: a pause is over; or the radio goes down with the timer started; or up. -/
theorem apBcnTimerRealHandler_cases (h : Radio s) :
    (s.psFakePauseShot ≠ 0 ∧ s.apBcnTimerRealHandler = { s with psFakePauseShot := 0 }) ∨
    (s.psFakePauseShot = 0 ∧ s.psFakeGlobalApCount = 0 ∧
      s.apBcnTimerRealHandler = { (s.rtosChangePeriod 5).rfDown with psFakeGlobalApCount := 1 }) ∨
    (s.psFakePauseShot = 0 ∧ s.psFakeGlobalApCount = 1 ∧
      s.apBcnTimerRealHandler = { (s.rtosChangePeriod 4).rfUp with psFakeGlobalApCount := 0 }) := by
  obtain ⟨count, off, pause, timer, hold, idle, queue⟩ := s
  by_cases hpause : pause = 0
  · subst hpause
    rcases h.count with hcount | hcount
    · obtain rfl : count = 0 := hcount
      exact .inr (.inl ⟨rfl, rfl, rfl⟩)
    · obtain rfl : count = 1 := hcount
      exact .inr (.inr ⟨rfl, rfl, rfl⟩)
  · refine .inl ⟨hpause, ?_⟩
    unfold Ap.apBcnTimerRealHandler
    dsimp only
    rw [if_neg hpause]
    rcases h.count with hcount | hcount
    · obtain rfl : count = 0 := hcount
      rfl
    · obtain rfl : count = 1 := hcount
      rfl

/-- A `RUN` keeps the radio in order where there is a timer, or nothing is to be done. -/
theorem Radio.run (h : Radio s) (htimer : s.psFakePauseShot = 0 → s.psApBcnTimer.isSome = true) :
    Radio s.apBcnTimerRealHandler := by
  rcases apBcnTimerRealHandler_cases h with ⟨-, heq⟩ | ⟨hpause, -, heq⟩ | ⟨-, -, heq⟩
  · rw [heq]
    exact h.congr rfl rfl rfl rfl
  · rw [heq]
    obtain ⟨timer, hsome⟩ := Option.isSome_iff_exists.mp (htimer hpause)
    refine ⟨.inr rfl, iff_of_true rfl (not_holds_and _), fun _ => ?_⟩
    change Option.any _ (Option.map _ s.psApBcnTimer) = true
    rw [hsome]
    rfl
  · rw [heq]
    exact { radio_rfUp (s := s.rtosChangePeriod 4) h.count with count := .inl rfl }

end Radio

section Run

variable {hold : UInt32} {s t : Ap} {h : Machine.History Event Answer} {e : Event} {o : Answer}

/-- The last of the `STOP` and `START` messages that were handled is a `STOP`. -/
def lastIsStop (h : Machine.History Event Answer) : Bool :=
  h.foldl (fun b x =>
    match x.2.handled with
    | some .apPsStart => false
    | some .apPsStop => true
    | some .apPsRun | none => b) false

/-- What is promised of the radio after each step; and the timer is not started that has been
deinitialised. -/
structure RadioLaw (h : Machine.History Event Answer) (s : Ap) : Prop where
  off : s.apRfOff = 1 ↔ ¬ s.Holds
  timed : s.apRfOff = 1 → s.psApBcnTimer.any (·.running) = true
  stopped : lastIsStop h = true → s.Holds
  onNull : ∀ x ∈ h, x.2.onNull = false

/-- A `RUN` that is not paused is handled only while the timer is initialised. -/
def Timely (s : Ap) : Event → Prop
  | .psMsgProcess _ => s.ioQueue.head? = some .apPsRun → s.psFakePauseShot = 0 →
    s.psApBcnTimer.isSome = true
  | _ => True

instance : ∀ s e, Decidable (Timely s e)
  | _, .psMsgProcess _ => inferInstanceAs (Decidable (_ → _ → _))
  | _, .send _ | _, .apBcnTimerHandler _ | _, .apPsDoRfUp | _, .apBcnTimerPauseOneShotSet _ =>
    inferInstanceAs (Decidable True)

structure Inv (h : Machine.History Event Answer) (s : Ap) : Prop where
  radio : Radio s
  /-- Without a `START` there is no timer. -/
  stopped : lastIsStop h = true → s.psApBcnTimer = none
  onNull : ∀ x ∈ h, x.2.onNull = false

theorem Inv.law (hi : Inv h s) : RadioLaw h s where
  off := hi.radio.off
  timed := hi.radio.timed
  stopped hs := by
    by_contra hholds
    have htimed := hi.radio.timed (hi.radio.off.mpr hholds)
    rw [hi.stopped hs] at htimed
    cases htimed
  onNull := hi.onNull

theorem lastIsStop_append (x : Event × Answer) : lastIsStop (h ++ [x]) =
    match x.2.handled with
    | some .apPsStart => false
    | some .apPsStop => true
    | some .apPsRun | none => lastIsStop h := by
  rw [lastIsStop, List.foldl_append]
  rfl

theorem Inv.append (hi : Inv h s) (ht : Radio t)
    (hstopped : lastIsStop (h ++ [(e, o)]) = true → t.psApBcnTimer = none)
    (hnull : o.onNull = false) : Inv (h ++ [(e, o)]) t where
  radio := ht
  stopped := hstopped
  onNull x hx := by
    rcases List.mem_append.mp hx with hx | hx
    · exact hi.onNull x hx
    · exact List.mem_singleton.mp hx ▸ hnull

/-- A step that handles no message leaves the timer alone. -/
theorem Inv.quiet (hi : Inv h s) (ht : Radio t) (htimer : t.psApBcnTimer = s.psApBcnTimer) :
    Inv (h ++ [(e, .done)]) t := by
  refine hi.append ht (fun hs => ?_) rfl
  rw [htimer]
  exact hi.stopped (by rwa [lastIsStop_append] at hs)

/-- A `RUN` makes no timer. -/
theorem Radio.run_none (hr : Radio s) (htimer : s.psApBcnTimer = none) :
    s.apBcnTimerRealHandler.psApBcnTimer = none := by
  rcases apBcnTimerRealHandler_cases hr with ⟨-, heq⟩ | ⟨-, -, heq⟩ | ⟨-, -, heq⟩
  · rw [heq]
    exact htimer
  · rw [heq]
    exact congrArg (Option.map _) htimer
  · rw [heq]
    exact congrArg (Option.map _) htimer

theorem Inv.process (hi : Inv h s) {msg : PsMsg} {created : Bool}
    (hk : msg = .apPsRun → s.psFakePauseShot = 0 → s.psApBcnTimer.isSome = true) :
    Inv (h ++ [(e, (s.psMsgProcess created msg).2)]) (s.psMsgProcess created msg).1 := by
  cases msg with
  | apPsStart =>
    refine hi.append (hi.radio.start created) (fun hs => ?_) rfl
    rw [lastIsStop_append] at hs
    cases hs
  | apPsStop => exact hi.append hi.radio.stop (fun _ => rfl) rfl
  | apPsRun =>
    refine hi.append (hi.radio.run (hk rfl)) (fun hs => ?_) ?_
    · rw [lastIsStop_append] at hs
      exact hi.radio.run_none (hi.stopped hs)
    · change (_ && s.psApBcnTimer.isNone) = false
      by_cases hpause : s.psFakePauseShot = 0
      · rw [Option.isNone_eq_false_iff.mpr (hk rfl hpause), Bool.and_false]
      · rw [decide_eq_false hpause]
        rfl

theorem Inv.step (hi : Inv h s) (hk : Timely s e) (hs : s.step e = some (t, o)) :
    Inv (h ++ [(e, o)]) t := by
  cases e with
  | send msg =>
    unfold Ap.step at hs
    dsimp only at hs
    split at hs
    case isTrue => cases hs
    case isFalse =>
      cases hs
      exact hi.quiet (hi.radio.congr rfl rfl rfl rfl) rfl
  | apBcnTimerHandler pushed =>
    unfold Ap.step at hs
    dsimp only at hs
    split at hs
    case isFalse => cases hs
    case isTrue =>
      cases hs
      cases pushed with
      | true => exact hi.quiet (hi.radio.congr rfl rfl rfl rfl) rfl
      | false => exact hi.quiet hi.radio rfl
  | psMsgProcess created =>
    unfold Ap.step at hs
    dsimp only at hs
    unfold Timely at hk
    split at hs
    case h_1 => cases hs
    case h_2 msg rest hq =>
      obtain rfl : _ = t := congrArg Prod.fst (Option.some.inj hs)
      obtain rfl : _ = o := congrArg Prod.snd (Option.some.inj hs)
      have hrest : Inv h { s with ioQueue := rest } :=
        { hi with radio := hi.radio.congr rfl rfl rfl rfl }
      refine hrest.process fun hmsg => ?_
      rw [hq, hmsg] at hk
      exact hk rfl
  | apPsDoRfUp =>
    cases hs
    refine hi.quiet hi.radio.apPsDoRfUp ?_
    unfold Ap.apPsDoRfUp
    split <;> rfl
  | apBcnTimerPauseOneShotSet value =>
    cases hs
    exact hi.quiet (hi.radio.congr rfl rfl rfl rfl) rfl

theorem inv_of_reaches (hr : (apIdle hold).ReachesUnder Timely h s) : Inv h s :=
  hr.invariant Inv ⟨radio_apUp hold, nofun, nofun⟩ fun hi hk hs => hi.step hk hs

theorem law_of_reaches (hr : (apIdle hold).ReachesUnder Timely h s) : RadioLaw h s :=
  (inv_of_reaches hr).law

end Run

end BdkRtt.Wlan.ApIdle
