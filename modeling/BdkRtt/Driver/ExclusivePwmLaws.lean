import BdkRtt.Driver.ExclusivePwm

namespace BdkRtt.Driver.ExclusivePwm

open Lib

section Bits

variable {c d : UInt8}

theorem enabled_or (x y : UInt32) (c : UInt8) :
    enabled (x ||| y) c = (enabled x c || enabled y c) := BitVec.getLsbD_or

theorem enabled_and_not (x y : UInt32) (hc : c < pwmCount) :
    enabled (x &&& ~~~y) c = (enabled x c && !enabled y c) := by
  have hlt : c.toNat * 4 < 32 := by
    have hsix : c.toNat < 6 := UInt8.lt_iff_toNat_lt.mp hc
    omega
  change (x.toBitVec &&& ~~~y.toBitVec).getLsbD _ = _
  rw [BitVec.getLsbD_and, BitVec.getLsbD_not, decide_eq_true hlt, Bool.true_and]
  rfl

theorem enabled_enableBit_ofNat : ∀ i < 6, ∀ j < 6,
    enabled (enableBit (UInt8.ofNat i)) (UInt8.ofNat j) = decide (j = i) := by
  decide

theorem enabled_enableBit (hc : c < pwmCount) (hd : d < pwmCount) :
    enabled (enableBit c) d = decide (d = c) := by
  have hbit := enabled_enableBit_ofNat c.toNat (UInt8.lt_iff_toNat_lt.mp hc) d.toNat
    (UInt8.lt_iff_toNat_lt.mp hd)
  rw [UInt8.ofNat_toNat, UInt8.ofNat_toNat] at hbit
  rw [hbit, decide_eq_decide, UInt8.toNat_inj]

end Bits

section Board

variable {p : Param} {b : Board} {now addr start : Nat} {value : UInt32} {c : UInt8}

theorem store_regs_of_ne {other : Nat} (h : other ≠ addr) :
    (b.store now addr value).regs other = b.regs other := Function.update_of_ne h ..

@[simp] theorem store_regs_self : (b.store now addr value).regs addr = value :=
  Function.update_self ..

theorem store_started_of_ne (h : addr ≠ pwmCtl) (c : UInt8) :
    (b.store now addr value).started c = b.started c := if_neg h

theorem store_started_ctl (c : UInt8) : (b.store now pwmCtl value).started c =
    if enabled value c then if enabled (b.regs pwmCtl) c then b.started c else some now
    else none := by
  simp only [Board.store, if_true]

/-- The counts of both channels are in their registers. -/
structure Loaded (p : Param) (b : Board) : Prop where
  endValue1 : b.regs (endValueAddr p.channelNum1) = p.endValue
  endValue2 : b.regs (endValueAddr p.channelNum2) = p.endValue
  dutyCycle1 : b.regs (dutyCycleAddr p.channelNum1) = p.dutyCycle1
  dutyCycle2 : b.regs (dutyCycleAddr p.channelNum2) = p.dutyCycle2

/-- The registers of the channels lie behind all others that the program stores to. -/
theorem endValueAddr_ne (haddr : addr ≤ pwmCtl) (c : UInt8) : endValueAddr c ≠ addr := by
  unfold pwmCtl at haddr
  unfold endValueAddr
  omega

theorem dutyCycleAddr_ne (haddr : addr ≤ pwmCtl) (c : UInt8) : dutyCycleAddr c ≠ addr := by
  unfold pwmCtl at haddr
  unfold dutyCycleAddr
  omega

theorem Loaded.store (h : Loaded p b) (haddr : addr ≤ pwmCtl) :
    Loaded p (b.store now addr value) where
  endValue1 := (store_regs_of_ne (endValueAddr_ne haddr _)).trans h.endValue1
  endValue2 := (store_regs_of_ne (endValueAddr_ne haddr _)).trans h.endValue2
  dutyCycle1 := (store_regs_of_ne (dutyCycleAddr_ne haddr _)).trans h.dutyCycle1
  dutyCycle2 := (store_regs_of_ne (dutyCycleAddr_ne haddr _)).trans h.dutyCycle2

/-- Which channels are on, by their bits and by when they were started. -/
structure Switched (p : Param) (b : Board) (start1 start2 : Option Nat) : Prop where
  started1 : b.started p.channelNum1 = start1
  started2 : b.started p.channelNum2 = start2
  enabled1 : enabled (b.regs pwmCtl) p.channelNum1 = start1.isSome
  enabled2 : enabled (b.regs pwmCtl) p.channelNum2 = start2.isSome

variable {start1 start2 : Option Nat}

theorem Switched.store (h : Switched p b start1 start2) (haddr : addr ≠ pwmCtl) :
    Switched p (b.store now addr value) start1 start2 where
  started1 := (store_started_of_ne haddr _).trans h.started1
  started2 := (store_started_of_ne haddr _).trans h.started2
  enabled1 := by rw [store_regs_of_ne haddr.symm]; exact h.enabled1
  enabled2 := by rw [store_regs_of_ne haddr.symm]; exact h.enabled2

variable (hc : p.channelNum1 < pwmCount) (hd : p.channelNum2 < pwmCount)
  (hne : p.channelNum1 ≠ p.channelNum2)

include hc hd in
theorem switched_off (b : Board) (now : Nat) : Switched p (b.store now pwmCtl
    (b.regs pwmCtl &&& ~~~(enableBit p.channelNum1 ||| enableBit p.channelNum2))) none none := by
  have hoff1 : enabled (b.regs pwmCtl &&& ~~~(enableBit p.channelNum1 |||
      enableBit p.channelNum2)) p.channelNum1 = false := by
    rw [enabled_and_not _ _ hc, enabled_or, enabled_enableBit hc hc]
    simp
  have hoff2 : enabled (b.regs pwmCtl &&& ~~~(enableBit p.channelNum1 |||
      enableBit p.channelNum2)) p.channelNum2 = false := by
    rw [enabled_and_not _ _ hd, enabled_or, enabled_enableBit hd hd]
    simp
  refine ⟨?_, ?_, ?_, ?_⟩
  · rw [store_started_ctl, hoff1, if_neg Bool.false_ne_true]
  · rw [store_started_ctl, hoff2, if_neg Bool.false_ne_true]
  · rw [store_regs_self, hoff1]; rfl
  · rw [store_regs_self, hoff2]; rfl

include hc hd hne in
theorem Switched.first (h : Switched p b none none) : Switched p (b.store now pwmCtl
    (b.regs pwmCtl ||| enableBit p.channelNum1)) (some now) none := by
  have hon : enabled (b.regs pwmCtl ||| enableBit p.channelNum1) p.channelNum1 = true := by
    rw [enabled_or, enabled_enableBit hc hc, decide_eq_true rfl, Bool.or_true]
  have hoff : enabled (b.regs pwmCtl ||| enableBit p.channelNum1) p.channelNum2 = false := by
    rw [enabled_or, enabled_enableBit hc hd, decide_eq_false hne.symm, h.enabled2]
    rfl
  refine ⟨?_, ?_, ?_, ?_⟩
  · rw [store_started_ctl, hon, if_pos rfl, h.enabled1]; rfl
  · rw [store_started_ctl, hoff, if_neg Bool.false_ne_true]
  · rw [store_regs_self, hon]; rfl
  · rw [store_regs_self, hoff]; rfl

include hd in
/-- The first channel's bit is set already. -/
theorem Switched.second (h : Switched p b (some start) none) : Switched p (b.store now pwmCtl
    (b.regs pwmCtl ||| (enableBit p.channelNum1 ||| enableBit p.channelNum2))) (some start)
      (some now) := by
  have hon1 : enabled (b.regs pwmCtl ||| (enableBit p.channelNum1 ||| enableBit p.channelNum2))
      p.channelNum1 = true := by
    rw [enabled_or, h.enabled1]
    rfl
  have hon2 : enabled (b.regs pwmCtl ||| (enableBit p.channelNum1 ||| enableBit p.channelNum2))
      p.channelNum2 = true := by
    rw [enabled_or, enabled_or, enabled_enableBit hd hd, decide_eq_true rfl, Bool.or_true,
      Bool.or_true]
  refine ⟨?_, ?_, ?_, ?_⟩
  · rw [store_started_ctl, hon1, if_pos rfl, h.enabled1]; exact h.started1
  · rw [store_started_ctl, hon2, if_pos rfl, h.enabled2]; rfl
  · rw [store_regs_self, hon1]; rfl
  · rw [store_regs_self, hon2]; rfl

end Board

section Outputs

variable {p : Param} {b : Board} {s : State} {c : UInt8} {start now read : Nat}

theorem not_high_of_off (h : b.started c = none) (n : Nat) : ¬ b.high c n := by
  rintro ⟨start, hstart, -⟩
  rw [h] at hstart
  cases hstart

theorem high_eq (h : b.started c = some start) : b.high c = (b.pulses c start).High := by
  funext n
  refine propext ⟨?_, fun hhigh => ⟨start, h, hhigh⟩⟩
  rintro ⟨start', hstart', hhigh⟩
  rw [h] at hstart'
  cases hstart'
  exact hhigh

/-- While the second channel is off, or without pulses, the outputs are right. -/
theorem right_of_silent (h : ∀ n, ¬ s.board.high p.channelNum2 n) : Right p s where
  apart := (apart_of_silent h).symm
  spaced := spaced_of_silent_right h
  back := spaced_of_silent_left h

theorem right_of_silent_first (h : ∀ n, ¬ s.board.high p.channelNum1 n) : Right p s where
  apart := apart_of_silent h
  spaced := spaced_of_silent_left h
  back := spaced_of_silent_right h

/-- The pulses of the two channels, with the counts of the call. -/
def Param.pulses1 (p : Param) (start : Nat) : Pulses :=
  ⟨start, p.dutyCycle1.toNat, p.endValue.toNat - p.dutyCycle1.toNat⟩

def Param.pulses2 (p : Param) (start : Nat) : Pulses :=
  ⟨start, p.dutyCycle2.toNat, p.endValue.toNat - p.dutyCycle2.toNat⟩

theorem Loaded.high1 (hl : Loaded p b) (h : b.started p.channelNum1 = some start) :
    b.high p.channelNum1 = (p.pulses1 start).High := by
  rw [high_eq h, Board.pulses, hl.endValue1, hl.dutyCycle1, Param.pulses1]

theorem Loaded.high2 (hl : Loaded p b) (h : b.started p.channelNum2 = some start) :
    b.high p.channelNum2 = (p.pulses2 start).High := by
  rw [high_eq h, Board.pulses, hl.endValue2, hl.dutyCycle2, Param.pulses2]

/-- Where both channels have pulses that leave room for others, they have one period. -/
theorem pulses_period (h1 : p.dutyCycle1.toNat < p.endValue.toNat)
    (h2 : p.dutyCycle2.toNat < p.endValue.toNat) :
    (p.pulses1 start).period = p.endValue.toNat ∧ (p.pulses2 now).period = p.endValue.toNat :=
  ⟨Nat.add_sub_cancel' (Nat.le_of_lt h1), Nat.add_sub_cancel' (Nat.le_of_lt h2)⟩

theorem InWindow.lt (h : InWindow p start read now) (h1 : 0 < p.dutyCycle1.toNat)
    (h2 : 0 < p.dutyCycle2.toNat) : p.dutyCycle1.toNat < p.endValue.toNat ∧
      p.dutyCycle2.toNat < p.endValue.toNat := by
  have hbehind := h.behind
  have hwithin := h.within
  omega

/-- With both channels on and both with pulses, the outputs are right exactly if the second one was
started in the window. -/
theorem right_iff_inWindow (hl : Loaded p s.board)
    (hs1 : s.board.started p.channelNum1 = some start)
    (hs2 : s.board.started p.channelNum2 = some s.now) (hle : start ≤ s.now)
    (h1 : 0 < p.dutyCycle1.toNat) (h2 : 0 < p.dutyCycle2.toNat) :
    Right p s ↔ InWindow p start s.read s.now := by
  have hhigh1 := hl.high1 hs1
  have hhigh2 := hl.high2 hs2
  have hperiods (hlt1 : p.dutyCycle1.toNat < p.endValue.toNat)
      (hlt2 : p.dutyCycle2.toNat < p.endValue.toNat) :
      (p.pulses1 start).period = p.endValue.toNat ∧
        (p.pulses2 s.now).period = p.endValue.toNat := pulses_period hlt1 hlt2
  constructor
  · intro hr
    have happart := hr.apart
    have hspaced := hr.spaced
    have hback := hr.back
    rw [hhigh1, hhigh2] at happart hspaced hback
    obtain ⟨hrest1, hrest2⟩ := Pulses.rest_pos_of_apart happart h1 h2
    obtain ⟨hperiod1, hperiod2⟩ := hperiods (Nat.lt_of_sub_pos hrest1) (Nat.lt_of_sub_pos hrest2)
    have hperiod := hperiod2.trans hperiod1.symm
    have hwithin := ((Pulses.apart_iff h1 h2 hperiod hle).mp happart).2
    have hbehind := (Pulses.spaced_iff h1 h2 hperiod hle happart).mp hspaced
    have hbefore := (Pulses.spaced_back_iff h1 h2 hperiod hle happart).mp hback
    rw [Pulses.phase, hperiod1] at hwithin hbehind hbefore
    exact ⟨hbehind, hwithin, hbefore⟩
  · intro hw
    obtain ⟨hlt1, hlt2⟩ := hw.lt h1 h2
    obtain ⟨hperiod1, hperiod2⟩ := hperiods hlt1 hlt2
    have hperiod := hperiod2.trans hperiod1.symm
    have hphase : Pulses.phase (p.pulses1 start) (p.pulses2 s.now) =
        (s.now - start) % p.endValue.toNat := by
      rw [Pulses.phase, hperiod1]
      rfl
    have happart : Apart (p.pulses1 start).High (p.pulses2 s.now).High := by
      rw [Pulses.apart_iff h1 h2 hperiod hle, hphase, hperiod1]
      exact ⟨Nat.le_of_add_right_le hw.behind, hw.within⟩
    refine ⟨?_, ?_, ?_⟩
    · rw [hhigh1, hhigh2]
      exact happart
    · rw [hhigh1, hhigh2, Pulses.spaced_iff h1 h2 hperiod hle happart, hphase]
      exact hw.behind
    · rw [hhigh1, hhigh2, Pulses.spaced_back_iff h1 h2 hperiod hle happart, hphase, hperiod1]
      exact hw.before

theorem right_iff (hl : Loaded p s.board) (hs1 : s.board.started p.channelNum1 = some start)
    (hs2 : s.board.started p.channelNum2 = some s.now) (hle : start ≤ s.now) :
    Right p s ↔ p.dutyCycle1 = 0 ∨ p.dutyCycle2 = 0 ∨ InWindow p start s.read s.now := by
  by_cases h1 : p.dutyCycle1 = 0
  · have hnone : (p.pulses1 start).duty = 0 := congrArg UInt32.toNat h1
    have hsilent : ∀ n, ¬ s.board.high p.channelNum1 n := by
      rw [hl.high1 hs1]
      exact Pulses.not_high_of_duty hnone
    exact iff_of_true (right_of_silent_first hsilent) (.inl h1)
  · by_cases h2 : p.dutyCycle2 = 0
    · have hnone : (p.pulses2 s.now).duty = 0 := congrArg UInt32.toNat h2
      have hsilent : ∀ n, ¬ s.board.high p.channelNum2 n := by
        rw [hl.high2 hs2]
        exact Pulses.not_high_of_duty hnone
      exact iff_of_true (right_of_silent hsilent) (.inr (.inl h2))
    · rw [right_iff_inWindow hl hs1 hs2 hle (UInt32.pos_iff_ne_zero.mpr h1)
        (UInt32.pos_iff_ne_zero.mpr h2), or_iff_right h1, or_iff_right h2]

end Outputs

section Steps

variable {p : Param} {b : Board} {s t : State} {now : Nat} {busy : Bool}

/-- The delay that a place belongs to. -/
def Pc.delay : Pc → Option Delay
  | .slot1Busy d _ => some d
  | .slot1Read d => some d
  | .slot2Busy d _ _ _ => some d
  | .slot2Read d _ _ => some d
  | .enable d => some d
  | .done => none

/-- A step of a delay, which leaves the channels as they are. -/
structure Waits (s t : State) (now : Nat) : Prop where
  delay : t.pc.delay = s.pc.delay
  ends : s.pc.delay ≠ none
  read : t.read = s.read ∨ t.read = now
  board : t.board = s.board ∨ t.board = s.board.store now timerReadCtl timerReadOp
  now : t.now = now

/-- What an access does, by the branch of the program that it takes. -/
inductive Move (p : Param) (s : State) (now : Nat) : State → Prop
  | slot1Busy {d i} (hpc : s.pc = .slot1Busy d i) (hi : ¬ i + 1 > timeOut) :
    Move p s now { s with now, pc := .slot1Busy d (i + 1) }
  | slot1Free {d i} (hpc : s.pc = .slot1Busy d i) :
    Move p s now { s with now, pc := .slot1Read d }
  | slot1Read {d} (hpc : s.pc = .slot1Read d) :
    Move p s now { s with
      board := s.board.store now timerReadCtl timerReadOp
      now
      read := now
      pc := .slot2Busy d (p.target d (timerAt now)) 0 0 }
  | slot2Busy {d target i j} (hpc : s.pc = .slot2Busy d target i j) (hj : ¬ j + 1 > timeOut) :
    Move p s now { s with now, pc := .slot2Busy d target i (j + 1) }
  | slot2Free {d target i j} (hpc : s.pc = .slot2Busy d target i j) :
    Move p s now { s with now, pc := .slot2Read d target i }
  | reaches {d target i} (hpc : s.pc = .slot2Read d target i) (hat : timerAt now ≥ target) :
    Move p s now { s with now, read := now, pc := .enable d }
  | givesUp {d target i} (hpc : s.pc = .slot2Read d target i) (hbelow : ¬ timerAt now ≥ target)
    (hout : i + 1 > timeOut) : Move p s now { s with now, read := now, pc := .enable d }
  | polls {d target i} (hpc : s.pc = .slot2Read d target i) (hi : ¬ i + 1 > timeOut) :
    Move p s now { s with
      board := s.board.store now timerReadCtl timerReadOp
      now
      read := now
      pc := .slot2Busy d target (i + 1) 0 }
  | first (hpc : s.pc = .enable .first) :
    Move p s now { s with
      board := (s.board.store now pwmCtl (s.board.regs pwmCtl ||| enableBit p.channelNum1)).store
        now timerReadCtl timerReadOp
      now
      pc := .slot1Busy .second 0 }
  | second (hpc : s.pc = .enable .second) :
    Move p s now { s with
      board := (s.board.store now pwmCtl (s.board.regs pwmCtl |||
        (enableBit p.channelNum1 ||| enableBit p.channelNum2))).store now globalInt 0x03
      now
      pc := .done }

theorem Move.of_next (h : s.next p now busy = some t) : Move p s now t := by
  rw [State.next] at h
  cases hpc : s.pc with
  | slot1Busy d i =>
    rw [hpc] at h
    obtain rfl := Option.some.inj h
    by_cases hbusy : busy ∧ ¬ i + 1 > timeOut
    · rw [if_pos hbusy]
      exact .slot1Busy hpc hbusy.2
    · rw [if_neg hbusy]
      exact .slot1Free hpc
  | slot1Read d =>
    rw [hpc] at h
    obtain rfl := Option.some.inj h
    exact .slot1Read hpc
  | slot2Busy d target i j =>
    rw [hpc] at h
    obtain rfl := Option.some.inj h
    by_cases hbusy : busy ∧ ¬ j + 1 > timeOut
    · rw [if_pos hbusy]
      exact .slot2Busy hpc hbusy.2
    · rw [if_neg hbusy]
      exact .slot2Free hpc
  | slot2Read d target i =>
    rw [hpc] at h
    dsimp only at h
    split at h
    next hat =>
      obtain rfl := Option.some.inj h
      exact .reaches hpc hat
    next hbelow =>
      split at h
      next hout =>
        obtain rfl := Option.some.inj h
        exact .givesUp hpc hbelow hout
      next hi =>
        obtain rfl := Option.some.inj h
        exact .polls hpc hi
  | enable d =>
    rw [hpc] at h
    cases d with
    | first =>
      obtain rfl := Option.some.inj h
      exact .first hpc
    | second =>
      obtain rfl := Option.some.inj h
      exact .second hpc
  | done =>
    rw [hpc] at h
    cases h

/-- An access either starts a channel or leaves both as they are. -/
theorem next_cases (h : s.next p now busy = some t) :
    ((∀ d, s.pc ≠ .enable d) ∧ Waits s t now) ∨
    (s.pc = .enable .first ∧ t = { s with
      board := (s.board.store now pwmCtl (s.board.regs pwmCtl ||| enableBit p.channelNum1)).store
        now timerReadCtl timerReadOp
      now
      pc := .slot1Busy .second 0 }) ∨
    (s.pc = .enable .second ∧ t = { s with
      board := (s.board.store now pwmCtl (s.board.regs pwmCtl |||
        (enableBit p.channelNum1 ||| enableBit p.channelNum2))).store now globalInt 0x03
      now
      pc := .done }) := by
  cases Move.of_next h with
  | slot1Busy hpc | slot1Free hpc | slot2Busy hpc | slot2Free hpc =>
    exact .inl ⟨by simp [hpc], by rw [hpc]; rfl, by simp [hpc, Pc.delay], .inl rfl, .inl rfl, rfl⟩
  | reaches hpc | givesUp hpc =>
    exact .inl ⟨by simp [hpc], by rw [hpc]; rfl, by simp [hpc, Pc.delay], .inr rfl, .inl rfl, rfl⟩
  | slot1Read hpc | polls hpc =>
    exact .inl ⟨by simp [hpc], by rw [hpc]; rfl, by simp [hpc, Pc.delay], .inr rfl, .inr rfl, rfl⟩
  | first hpc => exact .inr (.inl ⟨hpc, rfl⟩)
  | second hpc => exact .inr (.inr ⟨hpc, rfl⟩)

/-- The channels that are on in each delay. -/
def Stage (p : Param) (s : State) : Option Delay → Prop
  | some .first => Switched p s.board none none
  | some .second => ∃ start ≤ s.now, Switched p s.board (some start) none
  | none => ∃ start ≤ s.now, Switched p s.board (some start) (some s.now)

structure Inv (p : Param) (s : State) : Prop where
  loaded : Loaded p s.board
  read : s.read ≤ s.now
  stage : Stage p s s.pc.delay

theorem Waits.inv (hw : Waits s t now) (hi : Inv p s) (hnow : s.now ≤ now) : Inv p t where
  loaded := by
    rcases hw.board with hb | hb <;> rw [hb]
    · exact hi.loaded
    · exact hi.loaded.store (by decide)
  read := by
    have hread := hi.read
    rw [hw.now]
    rcases hw.read with hr | hr
    · rw [hr]
      exact Nat.le_trans hread hnow
    · exact Nat.le_of_eq hr
  stage := by
    have hsame {start1 start2 : Option Nat} (h : Switched p s.board start1 start2) :
        Switched p t.board start1 start2 := by
      rcases hw.board with hb | hb <;> rw [hb]
      · exact h
      · exact h.store (by decide)
    have hstage := hi.stage
    have hends := hw.ends
    rw [hw.delay]
    cases hd : s.pc.delay with
    | none => exact absurd hd hends
    | some d =>
      rw [hd] at hstage
      cases d with
      | first => exact hsame hstage
      | second =>
        obtain ⟨start, hle, hswitched⟩ := hstage
        exact ⟨start, by rw [hw.now]; exact Nat.le_trans hle hnow, hsame hswitched⟩

theorem Inv.right_of_delay (hi : Inv p s) {d : Delay} (hd : s.pc.delay = some d) : Right p s := by
  have hstage := hi.stage
  rw [hd] at hstage
  refine right_of_silent ?_
  cases d with
  | first => exact not_high_of_off hstage.started2
  | second =>
    obtain ⟨start, -, hswitched⟩ := hstage
    exact not_high_of_off hswitched.started2

theorem Param.Accepted.channels (hacc : p.Accepted) :
    p.channelNum1 < pwmCount ∧ p.channelNum2 < pwmCount := by
  obtain ⟨hchannels, -⟩ := hacc
  rw [not_or, ge_iff_le, ge_iff_le, UInt8.not_le, UInt8.not_le] at hchannels
  exact hchannels

/-- The first channel is started. -/
theorem Inv.first (hacc : p.Accepted) (hne : p.channelNum1 ≠ p.channelNum2) (hi : Inv p s)
    (hpc : s.pc = .enable .first) (hnow : s.now ≤ now) : Inv p { s with
      board := (s.board.store now pwmCtl (s.board.regs pwmCtl ||| enableBit p.channelNum1)).store
        now timerReadCtl timerReadOp
      now
      pc := .slot1Busy .second 0 } := by
  obtain ⟨hc, hd⟩ := hacc.channels
  have hstage : Switched p s.board none none := by
    have hs := hi.stage
    rwa [hpc] at hs
  refine ⟨(hi.loaded.store (Nat.le_refl _)).store (by decide), Nat.le_trans hi.read hnow, now,
    Nat.le_refl _, ?_⟩
  exact (hstage.first hc hd hne).store (by decide)

/-- The second channel is started. -/
theorem Inv.second (hacc : p.Accepted) (hi : Inv p s) (hpc : s.pc = .enable .second)
    (hnow : s.now ≤ now) : Inv p { s with
      board := (s.board.store now pwmCtl (s.board.regs pwmCtl |||
        (enableBit p.channelNum1 ||| enableBit p.channelNum2))).store now globalInt 0x03
      now
      pc := .done } ∧ ∃ start ≤ s.now, s.board.started p.channelNum1 = some start ∧
        Switched p ((s.board.store now pwmCtl (s.board.regs pwmCtl |||
          (enableBit p.channelNum1 ||| enableBit p.channelNum2))).store now globalInt 0x03)
          (some start) (some now) := by
  obtain ⟨-, hd⟩ := hacc.channels
  obtain ⟨start, hle, hswitched⟩ : Stage p s (some .second) := by
    have hs := hi.stage
    rwa [hpc] at hs
  have hon : Switched p ((s.board.store now pwmCtl (s.board.regs pwmCtl |||
      (enableBit p.channelNum1 ||| enableBit p.channelNum2))).store now globalInt 0x03)
      (some start) (some now) := (hswitched.second hd).store (by decide)
  refine ⟨⟨(hi.loaded.store (Nat.le_refl _)).store (by decide), Nat.le_trans hi.read hnow, start,
    Nat.le_trans hle hnow, hon⟩, start, hle, hswitched.started1, hon⟩

theorem Inv.next (hacc : p.Accepted) (hne : p.channelNum1 ≠ p.channelNum2) (hi : Inv p s)
    (hnow : s.now ≤ now) (h : s.next p now busy = some t) : Inv p t := by
  rcases next_cases h with ⟨-, hw⟩ | ⟨hpc, rfl⟩ | ⟨hpc, rfl⟩
  · exact hw.inv hi hnow
  · exact hi.first hacc hne hpc hnow
  · exact (hi.second hacc hpc hnow).1

theorem begin_pc (hacc : p.Accepted) (b : Board) (now : Nat) :
    (p.begin b now).pc = .slot1Busy .first 0 := by
  rw [Param.begin, if_neg hacc.1, if_neg hacc.2]

/-- The registers of the call, whose addresses are all different. -/
theorem begin_inv (hacc : p.Accepted) (hne : p.channelNum1 ≠ p.channelNum2) (b : Board)
    (now : Nat) : Inv p (p.begin b now) := by
  obtain ⟨hc, hd⟩ := hacc.channels
  have hnat : p.channelNum1.toNat ≠ p.channelNum2.toNat := fun h => hne (UInt8.toNat_inj.mp h)
  have hends : endValueAddr p.channelNum1 ≠ endValueAddr p.channelNum2 := by
    unfold endValueAddr
    omega
  have hduties : dutyCycleAddr p.channelNum1 ≠ dutyCycleAddr p.channelNum2 := by
    unfold dutyCycleAddr
    omega
  have hmixed (c d : UInt8) : endValueAddr c ≠ dutyCycleAddr d := by
    unfold endValueAddr dutyCycleAddr
    omega
  have hbehind (c : UInt8) : endValueAddr c ≠ pwmCtl ∧ dutyCycleAddr c ≠ pwmCtl :=
    ⟨endValueAddr_ne (Nat.le_refl _) c, dutyCycleAddr_ne (Nat.le_refl _) c⟩
  rw [Param.begin, if_neg hacc.1, if_neg hacc.2]
  refine ⟨Loaded.store (Loaded.store ⟨?_, ?_, ?_, ?_⟩ (by decide)) (by decide), Nat.le_refl _, ?_⟩
  · rw [store_regs_of_ne (hmixed _ _), store_regs_of_ne (hmixed _ _), store_regs_of_ne hends,
      store_regs_self]
  · rw [store_regs_of_ne (hmixed _ _), store_regs_of_ne (hmixed _ _), store_regs_self]
  · rw [store_regs_of_ne hduties, store_regs_self]
  · rw [store_regs_self]
  · have hoff := switched_off hc hd b now
    exact (((((hoff.store (hbehind _).1).store (hbehind _).1).store (hbehind _).2).store
      (hbehind _).2).store (by decide)).store (by decide)

end Steps

section Run

variable {p : Param} {b : Board} {s t : State} {now : Nat} {h : History} {e : Event} {o : Unit}

theorem step_next (hs : s.step p e = some (t, o)) : s.next p (s.now + e.lag) e.busy = some t := by
  obtain ⟨u, hu, heq⟩ := Option.map_eq_some_iff.mp hs
  rw [hu, (Prod.mk.inj heq).1]

/-- In every run, whatever its times. -/
theorem inv_of_reaches (hacc : p.Accepted) (hne : p.channelNum1 ≠ p.channelNum2)
    (hr : (tuyaPwmResetDutyCycle p b now).Reaches h s) : Inv p s :=
  hr.stateInvariant (Inv p) (begin_inv hacc hne b now) fun hi _ hs =>
    hi.next hacc hne (Nat.le_add_right ..) (step_next hs)

/-- Before the delays both channels are off. -/
theorem begin_right (hacc : p.Accepted) (hne : p.channelNum1 ≠ p.channelNum2) (b : Board)
    (now : Nat) : Right p (p.begin b now) :=
  (begin_inv hacc hne b now).right_of_delay (congrArg Pc.delay (begin_pc hacc b now))

/-- A step leaves the outputs right exactly if it is one of those that are kept. -/
theorem Inv.right_iff_kept (hacc : p.Accepted) (hne : p.channelNum1 ≠ p.channelNum2)
    (hi : Inv p s) (hs : s.step p e = some (t, o)) : Right p t ↔ Kept p s e := by
  have hnow : s.now ≤ s.now + e.lag := Nat.le_add_right ..
  rcases next_cases (step_next hs) with ⟨hpc, hw⟩ | ⟨hpc, rfl⟩ | ⟨hpc, rfl⟩
  · have hkept : Kept p s e := fun heq => absurd heq (hpc _)
    cases hd : s.pc.delay with
    | none => exact absurd hd hw.ends
    | some d => exact iff_of_true ((hw.inv hi hnow).right_of_delay (hw.delay.trans hd)) hkept
  · have hkept : Kept p s e := fun heq => by
      rw [hpc] at heq
      cases heq
    exact iff_of_true ((hi.first hacc hne hpc hnow).right_of_delay rfl) hkept
  · obtain ⟨hi', start, hle, hstart, hon⟩ := hi.second hacc hpc hnow
    rw [right_iff hi'.loaded hon.started1 hon.started2 (Nat.le_trans hle hnow), Kept, hstart]
    simp [hpc]

end Run

section Ends

variable {p : Param} {b : Board} {s t : State} {now : Nat} {busy : Bool} {h : History}

/-- How many accesses a delay may come before. -/
def Delay.rank : Delay → Nat
  | .first => 5 + (timeOut + 1) * (timeOut + 4) + 2 * (timeOut + 1)
  | .second => 0

/-- How many accesses there may still be. -/
def Pc.rank : Pc → Nat
  | .slot1Busy d i =>
    d.rank + 5 + (timeOut + 1) * (timeOut + 4) + (timeOut + 1) + (timeOut + 1 - i)
  | .slot1Read d => d.rank + 4 + (timeOut + 1) * (timeOut + 4) + (timeOut + 1)
  | .slot2Busy d _ i j => d.rank + 3 + (timeOut + 1 - i) * (timeOut + 4) + (timeOut + 1 - j)
  | .slot2Read d _ i => d.rank + 2 + (timeOut + 1 - i) * (timeOut + 4)
  | .enable d => d.rank + 1
  | .done => 0

theorem rank_lt (h : s.next p now busy = some t) : t.pc.rank < s.pc.rank := by
  cases Move.of_next h with
  | slot1Busy hpc hi =>
    rw [hpc, Pc.rank, Pc.rank]
    omega
  | slot1Free hpc =>
    rw [hpc, Pc.rank, Pc.rank]
    omega
  | slot1Read hpc =>
    rw [hpc, Pc.rank, Pc.rank, Nat.sub_zero]
    omega
  | slot2Busy hpc hj =>
    rw [hpc, Pc.rank, Pc.rank]
    omega
  | slot2Free hpc =>
    rw [hpc, Pc.rank, Pc.rank]
    omega
  | reaches hpc =>
    rw [hpc, Pc.rank, Pc.rank]
    omega
  | givesUp hpc =>
    rw [hpc, Pc.rank, Pc.rank]
    omega
  | @polls d target i hpc hi =>
    have hround : (timeOut + 1 - i) * (timeOut + 4) =
        (timeOut + 1 - (i + 1)) * (timeOut + 4) + (timeOut + 4) := by
      rw [← Nat.succ_mul]
      exact congrArg (· * _) (by omega)
    rw [hpc, Pc.rank, Pc.rank, hround]
    omega
  | first hpc =>
    rw [hpc, Pc.rank, Pc.rank, Delay.rank, Delay.rank]
    omega
  | second hpc =>
    rw [hpc]
    exact Nat.succ_pos _

/-- Every run of a call ends, whatever the timer does. -/
theorem length_le (hr : (tuyaPwmResetDutyCycle p b now).Reaches h s) :
    h.length + s.pc.rank ≤ (p.begin b now).pc.rank := by
  refine hr.invariant (fun h s => h.length + s.pc.rank ≤ (p.begin b now).pc.rank)
    (Nat.le_of_eq (Nat.zero_add _)) fun {h s e t o} hle _ hs => ?_
  have hlt := rank_lt (step_next hs)
  rw [List.length_append, List.length_singleton]
  omega

theorem step_isSome (hpc : s.pc ≠ .done) (e : Event) : (s.step p e).isSome := by
  rw [State.step, Option.isSome_map, State.next]
  split
  next => rfl
  next => rfl
  next => rfl
  next =>
    split
    next => rfl
    next => split <;> rfl
  next => rfl
  next => rfl
  next hdone => exact absurd hdone hpc

end Ends

section Timely

variable {p : Param} {b : Board} {s t : State} {now : Nat} {h : History} {e : Event} {o : Unit}

/-- The target of the second delay, by the count at which `slot1` was read. -/
def Aims (p : Param) (s : State) (target : UInt32) : Prop :=
  ∃ slot1, (∀ start ∈ s.board.started p.channelNum1, start ≤ slot1) ∧ slot1 ≤ s.read ∧
    slot1 / 2 ^ 32 = s.read / 2 ^ 32 ∧
    target.toNat = slot1 % 2 ^ 32 + p.dutyCycle1.toNat + p.deadBand1.toNat

/-- What a run that is timely has waited for. -/
def OnTime (p : Param) (s : State) : Prop :=
  match s.pc with
  | .slot2Busy .second target _ _ => Aims p s target
  | .slot2Read .second target _ => Aims p s target
  | .enable .second => ∀ start ∈ s.board.started p.channelNum1,
      start + p.dutyCycle1.toNat + p.deadBand1.toNat ≤ s.read
  | _ => True

theorem timerAt_toNat (count : Nat) : (timerAt count).toNat = count % 2 ^ 32 :=
  UInt32.toNat_ofNat'

theorem target_toNat {slot1 : UInt32}
    (h : slot1.toNat + p.dutyCycle1.toNat + p.deadBand1.toNat < 2 ^ 32) :
    (p.target .second slot1).toNat =
      slot1.toNat + p.dutyCycle1.toNat + p.deadBand1.toNat := by
  rw [Param.target, UInt32.toNat_add, UInt32.toNat_add]
  omega

theorem Inv.start_le (hi : Inv p s) (hd : s.pc.delay = some .second) :
    ∀ start ∈ s.board.started p.channelNum1, start ≤ s.now := by
  intro start hstart
  have hstage := hi.stage
  rw [hd] at hstage
  obtain ⟨start', hle, hswitched⟩ := hstage
  rw [hswitched.started1] at hstart
  cases hstart
  exact hle

/-- A read that the timer makes without wrapping either is at the target or goes on. -/
theorem Aims.reached {target : UInt32} (ha : Aims p s target)
    (hwrap : now / 2 ^ 32 = s.read / 2 ^ 32) (hat : timerAt now ≥ target) :
    ∀ start ∈ s.board.started p.channelNum1,
      start + p.dutyCycle1.toNat + p.deadBand1.toNat ≤ now := by
  intro start hstart
  obtain ⟨slot1, hfrom, hle, hsame, htarget⟩ := ha
  have hstart' := hfrom start hstart
  rw [ge_iff_le, UInt32.le_iff_toNat_le, timerAt_toNat, htarget] at hat
  omega

theorem OnTime.step (hi : Inv p s) (ho : OnTime p s) (ht : Timely p s e)
    (hs : s.step p e = some (t, o)) : OnTime p t := by
  have hread : s.read ≤ s.now + e.lag := Nat.le_add_right_of_le hi.read
  have hsame (now : Nat) (c : UInt8) :
      (s.board.store now timerReadCtl timerReadOp).started c = s.board.started c :=
    store_started_of_ne (by decide) c
  unfold OnTime at ho
  unfold Timely at ht
  cases Move.of_next (step_next hs) with
  | slot1Busy => trivial
  | slot1Free => trivial
  | @slot1Read d hpc =>
    rw [hpc] at ht
    cases d with
    | first => trivial
    | second =>
      have hstart := hi.start_le (congrArg Pc.delay hpc)
      refine ⟨s.now + e.lag, fun start hmem => ?_, Nat.le_refl _, rfl, ?_⟩
      · rw [hsame] at hmem
        exact Nat.le_add_right_of_le (hstart start hmem)
      · rw [target_toNat ht, timerAt_toNat]
  | @slot2Busy d target i j hpc =>
    rw [hpc] at ho
    cases d with
    | first => trivial
    | second => exact ho
  | @slot2Free d target i j hpc =>
    rw [hpc] at ho
    cases d with
    | first => trivial
    | second => exact ho
  | @reaches d target i hpc hat =>
    rw [hpc] at ho ht
    cases d with
    | first => trivial
    | second =>
      have ha : Aims p s target := ho
      exact ha.reached ht.1 hat
  | @givesUp d target i hpc hbelow hout =>
    rw [hpc] at ht
    cases d with
    | first => trivial
    | second => exact absurd ht.2 (not_or.mpr ⟨hbelow, not_not.mpr hout⟩)
  | @polls d target i hpc =>
    rw [hpc] at ho ht
    cases d with
    | first => trivial
    | second =>
      obtain ⟨slot1, hfrom, hle, hslot1, htarget⟩ := ho
      refine ⟨slot1, fun start hmem => ?_, Nat.le_trans hle hread, hslot1.trans ht.1.symm,
        htarget⟩
      rw [hsame] at hmem
      exact hfrom start hmem
  | first => trivial
  | second => trivial

/-- A delay that was long enough and not too long ends in the window. -/
theorem OnTime.kept (hi : Inv p s) (ho : OnTime p s) (ht : Timely p s e) : Kept p s e := by
  intro hpc
  unfold OnTime at ho
  unfold Timely at ht
  rw [hpc] at ho ht
  by_cases h2 : p.dutyCycle2 = 0
  · exact .inr (.inl h2)
  · refine .inr (.inr fun start hstart => ?_)
    have hlow := ho start hstart
    obtain ⟨hhigh, hback⟩ := ht start hstart
    have hread := hi.read
    have hpos : 0 < p.dutyCycle2.toNat := UInt32.pos_iff_ne_zero.mpr h2
    have hphase : (s.now + e.lag - start) % p.endValue.toNat = s.now + e.lag - start :=
      Nat.mod_eq_of_lt (by omega)
    refine ⟨?_, ?_, ?_⟩
    · rw [hphase]; omega
    · rw [hphase]; omega
    · rw [hphase]; omega

theorem onTime_of_reaches (hacc : p.Accepted) (hne : p.channelNum1 ≠ p.channelNum2)
    (hr : (tuyaPwmResetDutyCycle p b now).ReachesUnder (Timely p) h s) :
    Inv p s ∧ OnTime p s := by
  refine hr.stateInvariant (fun s => Inv p s ∧ OnTime p s) ⟨begin_inv hacc hne b now, ?_⟩
    fun hi ht hs =>
      ⟨hi.1.next hacc hne (Nat.le_add_right ..) (step_next hs), hi.2.step hi.1 ht hs⟩
  change OnTime p (p.begin b now)
  rw [OnTime, begin_pc hacc]
  trivial

/-- So the outputs are right when neither the target nor the timer wraps in the second delay, which
is not given up and not too late. -/
theorem right_of_timely (hacc : p.Accepted) (hne : p.channelNum1 ≠ p.channelNum2)
    (hr : (tuyaPwmResetDutyCycle p b now).ReachesUnder (Timely p) h s) : Right p s := by
  cases hr with
  | init => exact begin_right hacc hne b now
  | step hr ht hs =>
    obtain ⟨hi, ho⟩ := onTime_of_reaches hacc hne hr
    exact (hi.right_iff_kept hacc hne hs).mpr (ho.kept hi ht)

/-- Counts that do not fit the end value are never right, though their sum may be accepted when it
wraps. -/
theorem not_right_of_wraps (hacc : p.Accepted) (hne : p.channelNum1 ≠ p.channelNum2)
    (hr : (tuyaPwmResetDutyCycle p b now).Reaches h s) (hdone : s.pc = .done)
    (h1 : p.dutyCycle1 ≠ 0) (h2 : p.dutyCycle2 ≠ 0)
    (hwraps : p.endValue.toNat <
      p.dutyCycle1.toNat + p.dutyCycle2.toNat + p.deadBand1.toNat) : ¬ Right p s := by
  intro hright
  have hi := inv_of_reaches hacc hne hr
  obtain ⟨start, hle, hswitched⟩ : Stage p s none := by
    have hs := hi.stage
    rwa [hdone] at hs
  have hkept := (right_iff hi.loaded hswitched.started1 hswitched.started2 hle).mp hright
  have hw := (hkept.resolve_left h1).resolve_left h2
  have hbehind := hw.behind
  have hwithin := hw.within
  omega

end Timely

section Calls

variable {p : Param}

/-- The outputs are right in the runs in which the second channel is started in the window, and only
in those. -/
theorem exclusive_pwm_iff_kept (hacc : p.Accepted) (hne : p.channelNum1 ≠ p.channelNum2)
    (b : Board) (now : Nat) (h : History) (s : State) :
    (tuyaPwmResetDutyCycle p b now).ReachesUnder (Kept p) h s ↔
      (tuyaPwmResetDutyCycle p b now).ReachesWithin (fun _ => Right p) h s := by
  refine Machine.reachesUnder_iff_within (fun hr => ?_) fun hr hs hright => ?_
  · cases hr with
    | init => exact begin_right hacc hne b now
    | step hr hk hs =>
      exact ((inv_of_reaches hacc hne hr.reaches).right_iff_kept hacc hne hs).mpr hk
  · exact ((inv_of_reaches hacc hne hr.reaches).right_iff_kept hacc hne hs).mp hright

/-- All channels off. -/
def offBoard : Board := ⟨fun _ => 0, fun _ => none⟩

def halfBridge : Param := ⟨0, 1, 100, 100, 300, 20⟩

/-- The sum of these counts is 20 when it wraps. -/
def wrapping : Param := ⟨0, 1, 0x80000000, 0x80000000, 100, 10⟩

/-- A call whose polls find the timer read at once, with what passes before the last read of each
delay. -/
def quickly (wait1 wait2 : Nat) : List Event :=
  [⟨2, false⟩, ⟨2, false⟩, ⟨2, false⟩, ⟨wait1, false⟩, ⟨2, false⟩,
    ⟨2, false⟩, ⟨2, false⟩, ⟨2, false⟩, ⟨wait2, false⟩, ⟨2, false⟩]

def State.summary (s : State) : Option Nat × Option Nat × Nat × Nat × Pc :=
  (s.board.started 0, s.board.started 1, s.read, s.now, s.pc)

theorem exclusive_pwm_half_bridge : ∃ h s, (tuyaPwmResetDutyCycle halfBridge offBoard
    1000).ReachesWithin (fun _ => Right halfBridge) h s ∧
      s.summary = (some 1028, some 1154, 1152, 1154, .done) := by
  have hx : ((tuyaPwmResetDutyCycle halfBridge offBoard 1000).exec (quickly 20 118)).map
      (fun r => r.2.summary) = some (some 1028, some 1154, 1152, 1154, .done) := by
    decide +kernel
  obtain ⟨⟨h, s⟩, hexec, hs⟩ := Option.map_eq_some_iff.mp hx
  have hr : (tuyaPwmResetDutyCycle halfBridge offBoard 1000).ReachesUnder (Kept halfBridge) h s :=
    Machine.reachesUnder_of_exec (by decide +kernel) hexec
  exact ⟨h, s, (exclusive_pwm_iff_kept (by decide) (by decide) offBoard 1000 h s).mp hr, hs⟩

/-- When the timer wraps during the second delay, the second channel is started at once, and a sum
that wraps is accepted. -/
theorem exclusive_pwm_wrong :
    (halfBridge.Accepted ∧ ¬ ∀ h s, (tuyaPwmResetDutyCycle halfBridge offBoard
      (2 ^ 32 - 100)).Reaches h s → Right halfBridge s) ∧
      wrapping.Accepted ∧ ¬ ∀ h s, (tuyaPwmResetDutyCycle wrapping offBoard 1000).Reaches h s →
        Right wrapping s := by
  refine ⟨⟨by decide, fun hall => ?_⟩, by decide, fun hall => ?_⟩
  · have hx : ((tuyaPwmResetDutyCycle halfBridge offBoard (2 ^ 32 - 100)).exec (quickly 20 2)).map
        (fun r => r.2.summary) =
          some (some 4294967224, some 4294967234, 4294967232, 4294967234, .done) := by
      decide +kernel
    obtain ⟨⟨h, s⟩, hexec, hs⟩ := Option.map_eq_some_iff.mp hx
    simp only [State.summary, Prod.mk.injEq] at hs
    obtain ⟨hs1, hs2, hread, hnow, -⟩ := hs
    have hr := Machine.reaches_of_exec hexec
    have hi := inv_of_reaches (by decide) (by decide) hr
    rw [← hnow] at hs2
    have hright := (right_iff hi.loaded hs1 hs2 (by rw [hnow]; decide)).mp (hall h s hr)
    rw [hread, hnow] at hright
    exact absurd hright (by decide)
  · have hx : ((tuyaPwmResetDutyCycle wrapping offBoard 1000).exec (quickly 20 0x80000010)).map
        (fun r => r.2.pc) = some .done := by
      decide +kernel
    obtain ⟨⟨h, s⟩, hexec, hdone⟩ := Option.map_eq_some_iff.mp hx
    have hr := Machine.reaches_of_exec hexec
    exact not_right_of_wraps (by decide) (by decide) hr hdone (by decide) (by decide) (by decide)
      (hall h s hr)

end Calls

end BdkRtt.Driver.ExclusivePwm
