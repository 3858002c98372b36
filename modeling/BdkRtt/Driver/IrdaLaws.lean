import BdkRtt.Driver.Irda

namespace BdkRtt.Driver

open Lib

section Histories

def IrAnswer.accepted : IrAnswer → Bool
  | .isr accepted => accepted
  | .timer _ _ => false

def IrAnswer.sent : IrAnswer → List KeyMsg
  | .isr _ => []
  | .timer sent _ => sent.toList

def IrAnswer.stopped : IrAnswer → Bool
  | .isr _ => false
  | .timer _ stopped => stopped

abbrev IrHistory := Machine.History IrEvent IrAnswer

/-- The messages since the last accepted code. -/
def pressMsgs (h : IrHistory) : List KeyMsg := Machine.since IrAnswer.accepted IrAnswer.sent h

/-- The key code after an entry of the history. -/
def nextKey (key : Option UInt8) : IrEvent × IrAnswer → Option UInt8
  | (.isr i, .isr true) => some i.key
  | _ => key

/-- The last key code that was accepted. -/
def lastKey (h : IrHistory) : Option UInt8 := h.foldl nextKey none

variable {h : IrHistory} {e : IrEvent} {o : IrAnswer}

theorem lastKey_concat : lastKey (h ++ [(e, o)]) = nextKey (lastKey h) (e, o) := by
  simp [lastKey]

theorem pressMsgs_accepted (ho : o.accepted = true) : pressMsgs (h ++ [(e, o)]) = [] :=
  Machine.since_concat_reset ho

theorem pressMsgs_concat (ho : o.accepted = false) :
    pressMsgs (h ++ [(e, o)]) = pressMsgs h ++ o.sent :=
  Machine.since_concat ho

end Histories

section Law

/-- What a running press is classified by. -/
structure IrKey.SamePress (s t : IrKey) : Prop where
  keyCode : t.keyCode = s.keyCode
  repeatCnt : t.repeatCnt = s.repeatCnt
  timerCnt : t.timerCnt = s.timerCnt
  holdFlag : t.holdFlag = s.holdFlag
  timer : t.timer = s.timer

/-- Messages carry the accepted code; a press that ends by silence has given one message, or has
reported hold and given nothing else; another remote does not touch the running press. -/
structure IrLaw (irUserCode : UInt16) (h : IrHistory) (s : IrRun) (e : IrEvent) (t : IrRun)
    (o : IrAnswer) : Prop where
  accepts : ∀ i, e = .isr i → o = .isr true → i.Accepts irUserCode
  code : ∀ m ∈ o.sent, lastKey h = some m.code
  silence : o.stopped = true → (∃ m, pressMsgs (h ++ [(e, o)]) = [m]) ∨
    (pressMsgs h ≠ [] ∧ ∀ m ∈ pressMsgs (h ++ [(e, o)]), m.type = .hold)
  foreign : e.Foreign → s.key.timer = true → s.key.SamePress t.key

/-- The repeat bit of a frame that is not accepted is counted. -/
def IrInt.Counts (s : IrKey) (i : IrInt) : Prop :=
  i.repeatInt = true ∧ ¬ (i.endInt = true ∧ (i.rightInt = true ∨ s.validFlag = true))

instance (s : IrKey) (i : IrInt) : Decidable (i.Counts s) := inferInstanceAs (Decidable (_ ∧ _))

/-- While a press runs, a leader of another remote finds the repeats that it leaves, and no other
repeat of one is counted; when silence ends a press whose hold was reported, the repeats are
still those of a hold, and otherwise no hold of an earlier press is left over. -/
def Steady (s : IrRun) : IrEvent → Prop
  | .isr i => i.foreign = true → s.key.timer = true →
    if i.rightInt then s.key.repeatCnt = (if i.Counts s.key then 1 else 0) else ¬ i.Counts s.key
  | .timer => s.key.timerCnt + 1 > s.key.repeatCnt →
    if s.reported then keyLongCnt ≤ s.key.repeatCnt
    else s.key.repeatCnt < keyLongCnt ∨ s.key.holdFlag = false

end Law

section Handlers

variable {u : UInt16} {s : IrKey} {i : IrInt}

theorem irdaIsr_accepted (h : (irdaIsr u s i).2 = true) :
    i.Accepts u ∧ (irdaIsr u s i).1.keyCode = i.key ∧ (irdaIsr u s i).1.timer = true := by
  unfold irdaIsr at h ⊢
  simp only at h ⊢
  generalize (if i.rightInt = true then s.leader else s) = s' at h ⊢
  by_cases hend : i.endInt = true ∧ s'.validFlag = true
  · rw [if_pos hend] at h ⊢
    by_cases hacc : i.Accepts u
    · rw [if_pos hacc]
      refine ⟨hacc, ?_⟩
      simp only
      split <;> exact ⟨rfl, rfl⟩
    · rw [if_neg hacc] at h
      cases h
  · rw [if_neg hend] at h
    cases h

/-- An interrupt that accepts no code changes the repeats of the press at most. -/
theorem irdaIsr_rejected (h : (irdaIsr u s i).2 = false) :
    (irdaIsr u s i).1.keyCode = s.keyCode ∧ (irdaIsr u s i).1.timerCnt = s.timerCnt ∧
    (irdaIsr u s i).1.holdFlag = s.holdFlag ∧ (irdaIsr u s i).1.timer = s.timer ∧
    (irdaIsr u s i).1.repeatCnt =
      (if i.rightInt then 0 else s.repeatCnt) + (if i.Counts s then 1 else 0) := by
  unfold irdaIsr at h ⊢
  simp only at h ⊢
  by_cases hright : i.rightInt = true
  · simp only [hright, if_true, IrKey.leader, and_true] at h ⊢
    by_cases hend : i.endInt = true
    · by_cases hacc : i.Accepts u
      · simp [hend, hacc] at h
      · simp [hend, hacc, IrInt.Counts, hright]
    · cases hrep : i.repeatInt <;> simp [hend, hrep, IrInt.Counts, IrKey.repeated]
  · simp only [hright, Bool.false_eq_true, if_false] at h ⊢
    by_cases hend : i.endInt = true ∧ s.validFlag = true
    · by_cases hacc : i.Accepts u
      · simp [hend, hacc] at h
      · simp [hend, hacc, IrInt.Counts]
    · have hcounts : i.Counts s ↔ i.repeatInt = true := by
        simp only [IrInt.Counts, hright, Bool.false_eq_true, false_or, hend, not_false_eq_true,
          and_true]
      rw [if_neg hend]
      cases hrep : i.repeatInt <;> simp [hcounts, hrep, IrKey.repeated]

/-- The press goes on, and what it may report is a hold. -/
theorem timerHdl_running (h : ¬ s.timerCnt + 1 > s.repeatCnt) :
    (irdaKeyTimerHdl s).1.timer = s.timer ∧ (irdaKeyTimerHdl s).1.keyCode = s.keyCode ∧
    ∀ type ∈ (irdaKeyTimerHdl s).2, type = .hold := by
  unfold irdaKeyTimerHdl
  simp only
  rw [if_neg h]
  split
  · exact ⟨rfl, rfl, fun type ht => (Option.some.inj ht).symm⟩
  · refine ⟨rfl, rfl, fun type ht => ?_⟩
    cases ht

/-- The press ends, with a message unless a hold flag is set. -/
theorem timerHdl_silence (h : s.timerCnt + 1 > s.repeatCnt) :
    (irdaKeyTimerHdl s).1.timer = false ∧
    ((irdaKeyTimerHdl s).2 = none ↔ keyLongCnt ≤ s.repeatCnt ∧ s.holdFlag = true) ∧
    ((irdaKeyTimerHdl s).2 = some .hold ∨ (irdaKeyTimerHdl s).2 = none ↔
      keyLongCnt ≤ s.repeatCnt) := by
  have hshort : keyShortCnt < keyLongCnt := by decide
  unfold irdaKeyTimerHdl
  simp only
  rw [if_pos h]
  by_cases h1 : s.repeatCnt < keyShortCnt
  · have hno : ¬ keyLongCnt ≤ s.repeatCnt :=
      UInt8.not_le.mpr (UInt8.lt_trans h1 hshort)
    simp [h1, hno]
  · by_cases h2 : s.repeatCnt < keyLongCnt
    · have hno : ¬ keyLongCnt ≤ s.repeatCnt := UInt8.not_le.mpr h2
      simp [h1, h2, hno]
    · have hyes : keyLongCnt ≤ s.repeatCnt := UInt8.not_lt.mp h2
      cases hhold : s.holdFlag <;> simp [h1, h2, hyes]

end Handlers

section Runs

variable {u : UInt16} {h : IrHistory} {s t : IrRun} {e : IrEvent} {o : IrAnswer} {i : IrInt}

/-- A running press has the last accepted key, and has sent nothing but the holds reported. -/
def PressInv (h : IrHistory) (s : IrRun) : Prop :=
  s.key.timer = true → lastKey h = some s.key.keyCode ∧ (∀ m ∈ pressMsgs h, m.type = .hold) ∧
    (s.reported = true ↔ pressMsgs h ≠ [])

theorem mem_sent {r : Option KeyType} {code : UInt8} {stopped : Bool} {m : KeyMsg} :
    m ∈ (IrAnswer.timer (r.map fun type => ⟨type, code⟩) stopped).sent ↔
      ∃ type, r = some type ∧ m = ⟨type, code⟩ := by
  cases r with
  | none => simp [IrAnswer.sent]
  | some type => simp [IrAnswer.sent]

/-- What an interrupt does. -/
theorem irStep_isr (hs : irStep u s (.isr i) = some (t, o)) :
    ¬ (i.foreign = true ∧ i.Accepts u) ∧ t.key = (irdaIsr u s.key i).1 ∧
    t.reported = (if (irdaIsr u s.key i).2 then false else s.reported) ∧
    o = .isr (irdaIsr u s.key i).2 := by
  rw [irStep] at hs
  split at hs
  next => cases hs
  next hno =>
    cases hs
    exact ⟨hno, rfl, rfl, rfl⟩

/-- What an expiry does. -/
theorem irStep_timer (hs : irStep u s .timer = some (t, o)) :
    s.key.timer = true ∧ t.key = (irdaKeyTimerHdl s.key).1 ∧
    t.reported = (s.reported || (t.key.timer && (irdaKeyTimerHdl s.key).2.isSome)) ∧
    o = .timer ((irdaKeyTimerHdl s.key).2.map fun type => ⟨type, s.key.keyCode⟩)
      (!t.key.timer) := by
  rw [irStep] at hs
  split at hs
  next htimer =>
    cases hs
    exact ⟨htimer, rfl, rfl, rfl⟩
  next => cases hs

theorem PressInv.isr (hi : PressInv h s) (hs : irStep u s (.isr i) = some (t, o)) :
    PressInv (h ++ [(.isr i, o)]) t := by
  obtain ⟨-, htkey, htrep, rfl⟩ := irStep_isr hs
  intro htimer
  cases hacc : (irdaIsr u s.key i).2 with
  | true =>
    obtain ⟨-, hkey, -⟩ := irdaIsr_accepted hacc
    rw [hacc, if_pos rfl] at htrep
    rw [lastKey_concat, pressMsgs_accepted rfl, htkey, hkey, htrep]
    refine ⟨rfl, fun m hm => ?_, by simp⟩
    cases hm
  | false =>
    obtain ⟨hkey, -, -, hrun, -⟩ := irdaIsr_rejected hacc
    rw [htkey, hrun] at htimer
    rw [hacc, if_neg Bool.false_ne_true] at htrep
    rw [lastKey_concat, pressMsgs_concat rfl, htkey, hkey, htrep, IrAnswer.sent, List.append_nil]
    exact hi htimer

theorem PressInv.timer (hi : PressInv h s) (hs : irStep u s .timer = some (t, o)) :
    PressInv (h ++ [(.timer, o)]) t := by
  obtain ⟨hrun, htkey, htrep, rfl⟩ := irStep_timer hs
  obtain ⟨hlast, hhold, hreported⟩ := hi hrun
  intro htimer
  by_cases hsil : s.key.timerCnt + 1 > s.key.repeatCnt
  · rw [htkey, (timerHdl_silence hsil).1] at htimer
    cases htimer
  · obtain ⟨-, hkey, htype⟩ := timerHdl_running hsil
    rw [htimer, Bool.true_and] at htrep
    rw [lastKey_concat, pressMsgs_concat rfl, htrep, htkey, hkey]
    refine ⟨hlast, fun m hm => ?_, ?_⟩
    · rcases List.mem_append.mp hm with hm | hm
      · exact hhold m hm
      · obtain ⟨type, hmem, rfl⟩ := mem_sent.mp hm
        exact htype type hmem
    · cases hr : (irdaKeyTimerHdl s.key).2 with
      | none => simpa [IrAnswer.sent] using hreported
      | some type => simp [IrAnswer.sent]

theorem reaches_pressInv (hr : (irda u).Reaches h s) : PressInv h s := by
  refine hr.invariant PressInv (fun htimer => by cases htimer) ?_
  intro h s e t o hi _ hs
  cases e with
  | isr i => exact hi.isr (u := u) hs
  | timer => exact hi.timer (u := u) hs

/-- Another remote leaves the press alone exactly when its leader finds the repeats it leaves. -/
theorem irLaw_isr (hs : irStep u s (.isr i) = some (t, o)) :
    IrLaw u h s (.isr i) t o ↔ Steady s (.isr i) := by
  obtain ⟨hno, htkey, -, rfl⟩ := irStep_isr hs
  have hpress : i.foreign = true → (s.key.SamePress t.key ↔
      if i.rightInt then s.key.repeatCnt = (if i.Counts s.key then 1 else 0)
      else ¬ i.Counts s.key) := by
    intro hforeign
    have hrej : (irdaIsr u s.key i).2 = false := by
      by_contra hacc
      exact hno ⟨hforeign, (irdaIsr_accepted (Bool.not_eq_false _ ▸ hacc)).1⟩
    obtain ⟨hkey, hcnt, hhold, hrun, hrep⟩ := irdaIsr_rejected hrej
    have hiff : s.key.SamePress t.key ↔ t.key.repeatCnt = s.key.repeatCnt := by
      rw [htkey]
      exact ⟨fun h => h.repeatCnt, fun h => ⟨hkey, h, hcnt, hhold, hrun⟩⟩
    rw [hiff, htkey, hrep]
    by_cases hright : i.rightInt = true
    · rw [if_pos hright, if_pos hright, UInt8.zero_add, eq_comm]
    · rw [if_neg hright, if_neg hright]
      by_cases hcounts : i.Counts s.key
      · rw [if_pos hcounts]
        simp [hcounts]
      · rw [if_neg hcounts]
        simp [hcounts]
  constructor
  · intro hl hforeign htimer
    exact (hpress hforeign).mp (hl.foreign hforeign htimer)
  · intro hsteady
    refine ⟨fun j hj ho => ?_, fun m hm => ?_, fun hstop => ?_, fun hforeign htimer => ?_⟩
    · cases hj
      exact (irdaIsr_accepted (IrAnswer.isr.inj ho)).1
    · cases hm
    · cases hstop
    · exact (hpress hforeign).mpr (hsteady hforeign htimer)

/-- The messages of a press with the one, if any, at its end. -/
theorem silence_iff {msgs : List KeyMsg} {r : Option KeyType} {code : UInt8} {k : IrKey}
    {reported : Bool} (hhold : ∀ m ∈ msgs, m.type = .hold) (hreported : reported = true ↔ msgs ≠ [])
    (hnone : r = none ↔ keyLongCnt ≤ k.repeatCnt ∧ k.holdFlag = true)
    (htype : r = some .hold ∨ r = none ↔ keyLongCnt ≤ k.repeatCnt) :
    ((∃ m, msgs ++ (r.map fun type => (⟨type, code⟩ : KeyMsg)).toList = [m]) ∨
      (msgs ≠ [] ∧ ∀ m ∈ msgs ++ (r.map fun type => (⟨type, code⟩ : KeyMsg)).toList,
        m.type = .hold)) ↔
      if reported then keyLongCnt ≤ k.repeatCnt
      else k.repeatCnt < keyLongCnt ∨ k.holdFlag = false := by
  cases hrep : reported with
  | true =>
    have hne := hreported.mp hrep
    rw [if_pos rfl, ← htype]
    cases r with
    | none =>
      refine iff_of_true (.inr ⟨hne, fun m hm => ?_⟩) (.inr rfl)
      rw [Option.map_none, Option.toList_none, List.append_nil] at hm
      exact hhold m hm
    | some type =>
      obtain ⟨m₀, rest, rfl⟩ := List.exists_cons_of_ne_nil hne
      have hmem (m : KeyMsg) : m ∈ m₀ :: rest ++ (Option.map (fun type => (⟨type, code⟩ : KeyMsg))
          (some type)).toList ↔ m ∈ m₀ :: rest ∨ m = ⟨type, code⟩ := by
        simp [or_assoc]
      constructor
      · rintro (⟨m, hm⟩ | ⟨-, hall⟩)
        · simp at hm
        · exact .inl (congrArg some (hall ⟨type, code⟩ ((hmem _).mpr (.inr rfl))))
      · rintro (heq | heq)
        · refine .inr ⟨hne, fun m hm => ?_⟩
          rcases (hmem m).mp hm with hm | rfl
          · exact hhold m hm
          · exact Option.some.inj heq
        · cases heq
  | false =>
    have hnil : msgs = [] := by
      by_contra hne
      rw [hreported.mpr hne] at hrep
      cases hrep
    subst hnil
    have hsome : r ≠ none ↔ k.repeatCnt < keyLongCnt ∨ k.holdFlag = false := by
      rw [Ne, hnone, not_and_or, UInt8.not_le, Bool.not_eq_true]
    rw [if_neg Bool.false_ne_true, ← hsome]
    cases r with
    | none => simp
    | some type => simp

/-- A press ends well exactly when its repeats and the hold flag fit what it has reported. -/
theorem irLaw_timer (hi : PressInv h s) (hs : irStep u s .timer = some (t, o)) :
    IrLaw u h s .timer t o ↔ Steady s .timer := by
  obtain ⟨hrun, htkey, -, rfl⟩ := irStep_timer hs
  obtain ⟨hlast, hhold, hreported⟩ := hi hrun
  have hcode : ∀ m ∈ (IrAnswer.timer ((irdaKeyTimerHdl s.key).2.map
      fun type => ⟨type, s.key.keyCode⟩) (!t.key.timer)).sent, lastKey h = some m.code := by
    intro m hm
    obtain ⟨type, -, rfl⟩ := mem_sent.mp hm
    exact hlast
  by_cases hsil : s.key.timerCnt + 1 > s.key.repeatCnt
  · obtain ⟨hstop, hnone, htype⟩ := timerHdl_silence hsil
    have hmsgs : pressMsgs (h ++ [(.timer, .timer ((irdaKeyTimerHdl s.key).2.map
        fun type => ⟨type, s.key.keyCode⟩) (!t.key.timer))]) = pressMsgs h ++
          ((irdaKeyTimerHdl s.key).2.map fun type => ⟨type, s.key.keyCode⟩).toList :=
      pressMsgs_concat rfl
    have hsilence : ((∃ m, pressMsgs (h ++ [(.timer, .timer ((irdaKeyTimerHdl s.key).2.map
        fun type => ⟨type, s.key.keyCode⟩) (!t.key.timer))]) = [m]) ∨
        (pressMsgs h ≠ [] ∧ ∀ m ∈ pressMsgs (h ++ [(.timer, .timer ((irdaKeyTimerHdl s.key).2.map
          fun type => ⟨type, s.key.keyCode⟩) (!t.key.timer))]), m.type = .hold)) ↔
        if s.reported then keyLongCnt ≤ s.key.repeatCnt
        else s.key.repeatCnt < keyLongCnt ∨ s.key.holdFlag = false := by
      rw [hmsgs]
      exact silence_iff hhold hreported hnone htype
    constructor
    · exact fun hl _ => hsilence.mp (hl.silence (by rw [IrAnswer.stopped, htkey, hstop]; rfl))
    · intro hsteady
      refine ⟨fun i hi => ?_, hcode, fun _ => hsilence.mpr (hsteady hsil), fun hf => hf.elim⟩
      cases hi
  · obtain ⟨hkeep, -, -⟩ := timerHdl_running hsil
    refine iff_of_true ⟨fun i hi => ?_, hcode, fun hstop => ?_, fun hf => hf.elim⟩
      fun h => (hsil h).elim
    · cases hi
    · rw [IrAnswer.stopped, htkey, hkeep, hrun] at hstop
      cases hstop

end Runs

/-- In every run a step keeps the law exactly when it is steady. -/
theorem irda_law_iff_steady (irUserCode : UInt16) {h : IrHistory} {s t : IrRun} {e : IrEvent}
    {o : IrAnswer} (hr : (irda irUserCode).Reaches h s)
    (hs : (irda irUserCode).step s e = some (t, o)) :
    IrLaw irUserCode h s e t o ↔ Steady s e := by
  cases e with
  | isr i => exact irLaw_isr hs
  | timer => exact irLaw_timer (reaches_pressInv hr) hs

/-- The frame of key 18 of the remote 255, whole, and the leader of another remote. -/
def keyFrame : IrInt where
  rightInt := true
  endInt := true
  repeatInt := false
  fifo := 0xed1200ff
  foreign := false

def repeatFrame : IrInt where
  rightInt := false
  endInt := false
  repeatInt := true
  fifo := 0
  foreign := false

def otherLeader : IrInt where
  rightInt := true
  endInt := false
  repeatInt := false
  fifo := 0
  foreign := true

theorem irda_law_iff_steady_short : ∃ h s t, (irda 255).Reaches h s ∧
    (irda 255).step s .timer = some (t, .timer (some ⟨.short, 18⟩) true) ∧
    IrLaw 255 h s .timer t (.timer (some ⟨.short, 18⟩) true) := by
  have hrun : ((irda 255).exec [.isr keyFrame]).map
      (fun r => (r.2.reported, r.2.key)) = some (false, ⟨true, 18, false, 0, 0, false, true⟩) := by
    rfl
  obtain ⟨⟨h, s⟩, hx, heq⟩ := Option.map_eq_some_iff.mp hrun
  obtain ⟨hrep, hkey⟩ := Prod.mk.inj heq
  have hr := Machine.reaches_of_exec hx
  have hs : (irda 255).step s .timer = some (⟨⟨true, 18, false, 0, 1, false, false⟩, false⟩,
      .timer (some ⟨.short, 18⟩) true) := by
    change irStep 255 s .timer = _
    simp only at hrep hkey
    rw [irStep, hkey, hrep]
    rfl
  refine ⟨h, s, _, hr, hs, (irda_law_iff_steady 255 hr hs).mpr fun _ => ?_⟩
  simp only at hrep hkey
  rw [hrep, if_neg Bool.false_ne_true, hkey]
  exact .inl (by decide)

/-- The leader of another remote, seen after eleven repeats and a reported hold: the press ends
with a short one. -/
theorem irda_hold_then_short : ∃ h s, (irda 255).Reaches h s ∧
    pressMsgs h = [⟨.hold, 18⟩, ⟨.short, 18⟩] ∧ s.key.timer = false := by
  have hrun : ((irda 255).exec ([.isr keyFrame] ++ List.replicate 11 (.isr repeatFrame) ++
      [.timer, .isr otherLeader, .timer])).map (fun r => (pressMsgs r.1, r.2.key.timer)) =
        some ([⟨.hold, 18⟩, ⟨.short, 18⟩], false) := by
    decide
  obtain ⟨⟨h, s⟩, hx, heq⟩ := Option.map_eq_some_iff.mp hrun
  obtain ⟨hmsgs, htimer⟩ := Prod.mk.inj heq
  exact ⟨h, s, Machine.reaches_of_exec hx, hmsgs, htimer⟩

end BdkRtt.Driver
