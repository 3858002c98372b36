import BdkRtt.Driver.I2c1
import Mathlib.Algebra.Group.Nat.Defs
import Mathlib.Algebra.GroupWithZero.Nat

namespace BdkRtt.Driver.I2c1

open Lib

section Bytes

variable {s t : State} {slave : Slave} {fuel i : Nat} {ack : Bool} {tx : UInt8} {b : UInt8}
  {bs : List UInt8}

/-- The start in front of a byte. -/
def State.front (s : State) : List Item := if s.config.sta then [.start] else []

/-- The state in which the interrupt for a byte that is sent begins. -/
def State.afterSent (s : State) (ack : Bool) : State :=
  { s with
    log := s.log ++ s.front ++ [.sent s.dat ack]
    config := { s.config with si := true, ackRx := ack } }

@[simp] theorem afterSent_msg (s : State) (ack : Bool) : (s.afterSent ack).msg = s.msg := rfl

@[simp] theorem afterSent_userBuf (s : State) (ack : Bool) :
    (s.afterSent ack).userBuf = s.userBuf := rfl

@[simp] theorem afterSent_accessed (s : State) (ack : Bool) :
    (s.afterSent ack).accessed = s.accessed := rfl

theorem byteTime_sent (h : s.config.txMode = true) :
    s.byteTime ack tx = (s.afterSent ack).isr.settle false := by
  have hsends : s.config.receives = false := by
    rw [Config.receives, h]
    exact Bool.and_false _
  rw [State.byteTime, State.transferByte, hsends, State.afterSent, State.front]
  cases s.config.sta <;> simp

theorem whileBusy_step (h : s.msg.transDone = 0) : whileBusy slave (fuel + 1) s i =
    whileBusy slave fuel (s.byteTime (slave.ack i) (slave.tx i)) (i + 1) := if_pos h

theorem whileBusy_done (h : s.msg.transDone ≠ 0) : whileBusy slave fuel s i = some s := by
  cases fuel with
  | zero => exact if_neg h
  | succ fuel => exact if_neg h

/-- The transfer has ended, with what it has left. -/
structure Ended (s t : State) (err : UInt8) (items : List Item) : Prop where
  done : t.msg.transDone = 1
  error : t.msg.errorNO = err
  log : t.log = s.log ++ s.front ++ items
  userBuf : t.userBuf = s.userBuf
  accessed : t.accessed = s.accessed

/-- The bits that `i2c1_isr` looks at, for the values that `AddrFlag` takes. -/
theorem flag_set : (0x13 : UInt8) &&& 0x10 ≠ 0 ∧ (0x18 : UInt8) &&& 0x10 ≠ 0 ∧
    (0x1b : UInt8) &&& 0x10 ≠ 0 ∧ (0x08 : UInt8) &&& 0x08 ≠ 0 ∧ (0x0a : UInt8) &&& 0x08 ≠ 0 ∧
    (0x0a : UInt8) &&& 0x02 ≠ 0 := by decide

theorem flag_clear : (0x08 : UInt8) &&& 0x10 = 0 ∧ (0x0a : UInt8) &&& 0x10 = 0 ∧
    (0x08 : UInt8) &&& 0x02 = 0 := by decide

theorem flag_or : (0x08 : UInt8) ||| 0x10 = 0x18 ∧ (0x0a : UInt8) ||| 0x13 = 0x1b ∧
    ((0x00 : UInt8) &&& ~~~0x0b) ||| 0x0a = 0x0a ∧ ((0x00 : UInt8) &&& ~~~0x0b) ||| 0x08 = 0x08 ∧
    ((0x08 : UInt8) &&& ~~~0x0b) ||| 0x0a = 0x0a := by decide

/-- An access is one from before, or the last one. -/
theorem of_mem_append {l : List Nat} {k p n : Nat} (hk : k ∈ l ++ [p]) (hp : p < n) :
    k ∈ l ∨ k < n := by
  rcases List.mem_append.mp hk with hk | hk
  · exact .inl hk
  · rw [List.mem_singleton.mp hk]
    exact .inr hp

theorem sentItems_cons (ack : Nat → Bool) (i : Nat) (b : UInt8) (bs : List UInt8) :
    sentItems ack i (b :: bs) =
      .sent b (ack i) :: if ack i then sentItems ack (i + 1) bs else [] := by
  rw [sentItems, Acked.sent]
  cases ack i <;> rfl

end Bytes

section Write

variable {s t : State} {slave : Slave} {fuel i : Nat} {ack : Bool} {tx : UInt8} {b : UInt8}
  {bs : List UInt8}

/-- A write that goes on. -/
structure Writing (s : State) : Prop where
  mode : s.msg.txMode = 1
  busy : s.msg.transDone = 0
  fine : s.msg.errorNO = 0
  sends : s.config.txMode = true
  width : s.msg.addrWidth = addrWidth8 ∨ s.msg.addrWidth = addrWidth16
  flag : s.msg.addrFlag = 0 ∨ s.msg.addrFlag = 0x08 ∨ s.msg.addrFlag = 0x13 ∨ s.msg.addrFlag = 0x18

/-- The bytes behind the one in the register. -/
def State.toWrite (s : State) : List UInt8 :=
  let data := s.userBuf.read s.msg.pData s.msg.remainNum.toNat
  if s.msg.addrFlag &&& 0x10 ≠ 0 then data
  else if s.msg.addrFlag &&& 0x08 = 0 ∧ s.msg.addrWidth = addrWidth16 then
    (s.msg.regAddr >>> 8).toUInt8 :: s.msg.regAddr.toUInt8 :: data
  else s.msg.regAddr.toUInt8 :: data

/-- Behind the last of the caller's bytes. -/
def State.bound (s : State) : Nat := s.msg.pData + s.msg.remainNum.toNat

theorem Writing.isr (h : Writing s) : (s.afterSent ack).isr =
    State.commit ((s.afterSent ack).isrWrite (s.afterSent ack).config.clear ack) := by
  have hsi : (s.afterSent ack).config.si ≠ false := nofun
  have hmode : (s.afterSent ack).msg.txMode &&& 0x01 ≠ 0 := by
    change s.msg.txMode &&& 0x01 ≠ 0
    rw [h.mode]
    decide
  rw [State.isr, if_neg hsi, if_pos hmode]
  rfl

theorem Writing.nack (h : Writing s) :
    Ended s (s.byteTime false tx) 1 [.sent s.dat false, .stop] := by
  rw [byteTime_sent h.sends, h.isr, State.isrWrite, if_pos rfl]
  exact ⟨rfl, rfl, by simp [State.settle, State.commit, State.afterSent], rfl, rfl⟩

theorem Writing.last (h : Writing s) (hrest : s.toWrite = []) :
    Ended s (s.byteTime true tx) 0 [.sent s.dat true, .stop] := by
  have hflag : s.msg.addrFlag &&& 0x10 ≠ 0 := by
    intro hzero
    rw [State.toWrite, if_neg (not_not.mpr hzero)] at hrest
    split at hrest <;> exact absurd hrest (List.cons_ne_nil _ _)
  have hremain : s.msg.remainNum = 0 := by
    rw [State.toWrite, if_pos hflag] at hrest
    have hlen := congrArg List.length hrest
    rw [Mem.length_read] at hlen
    exact UInt16.toNat_inj.mp hlen
  have hflag' : (s.afterSent true).msg.addrFlag &&& 0x10 ≠ 0 := hflag
  have hremain' : (s.afterSent true).msg.remainNum = 0 := hremain
  rw [byteTime_sent h.sends, h.isr, State.isrWrite, if_neg (by decide), if_pos hflag',
    if_pos hremain']
  exact ⟨rfl, h.fine, by simp [State.settle, State.commit, State.afterSent], rfl, rfl⟩

/-- What an acknowledged byte leaves to do. -/
structure Next (s t : State) (b : UInt8) (bs : List UInt8) : Prop where
  writing : Writing t
  dat : t.dat = b
  rest : t.toWrite = bs
  log : t.log = s.log ++ s.front ++ [.sent s.dat true]
  front : t.front = []
  userBuf : t.userBuf = s.userBuf
  bound : t.bound = s.bound
  accessed : ∀ k ∈ t.accessed, k ∈ s.accessed ∨ k < s.bound

/-- The driver puts the next byte into the register, with the state of the transfer behind it. -/
theorem Writing.goesOn (h : Writing s) {msg : Msg} {accessed : List Nat}
    (hisr : (s.afterSent true).isrWrite (s.afterSent true).config.clear true =
      ({ s.afterSent true with dat := b, msg, accessed }, (s.afterSent true).config.clear)) :
    (s.byteTime true tx).msg = msg ∧ (s.byteTime true tx).dat = b ∧
      (s.byteTime true tx).accessed = accessed ∧ (s.byteTime true tx).userBuf = s.userBuf ∧
      (s.byteTime true tx).log = s.log ++ s.front ++ [.sent s.dat true] ∧
      (s.byteTime true tx).config.txMode = true ∧ (s.byteTime true tx).config.sta = false := by
  rw [byteTime_sent h.sends, h.isr, hisr]
  exact ⟨rfl, rfl, rfl, rfl, List.append_nil _, h.sends, rfl⟩

/-- The bytes behind the register, and the register, after a byte of the register address. -/
theorem Writing.nextAddr (h : Writing s) {flag : UInt8}
    (hflag : flag = 0x08 ∨ flag = 0x13 ∨ flag = 0x18)
    (hisr : (s.afterSent true).isrWrite (s.afterSent true).config.clear true =
      ({ s.afterSent true with dat := b, msg := { s.msg with addrFlag := flag } },
        (s.afterSent true).config.clear))
    (hrest : ({ s with msg := { s.msg with addrFlag := flag } } : State).toWrite = bs) :
    Next s (s.byteTime true tx) b bs := by
  obtain ⟨hmsg, hdat, haccessed, hbuf, hlog, htx, hsta⟩ := h.goesOn hisr
  refine ⟨⟨?_, ?_, ?_, htx, ?_, ?_⟩, hdat, ?_, hlog, ?_, hbuf, ?_, fun k hk => .inl ?_⟩
  · rw [hmsg]; exact h.mode
  · rw [hmsg]; exact h.busy
  · rw [hmsg]; exact h.fine
  · rw [hmsg]; exact h.width
  · rw [hmsg]; exact .inr hflag
  · rw [← hrest, State.toWrite, State.toWrite, hmsg, hbuf]
  · rw [State.front, hsta]; rfl
  · rw [State.bound, State.bound, hmsg]
  · rwa [haccessed] at hk

/-- The same after the last byte of the address, and after a byte of the buffer. -/
theorem Writing.nextData (h : Writing s) (hflag : s.msg.addrFlag = 0x13 ∨ s.msg.addrFlag = 0x18)
    (hrest : s.toWrite = b :: bs) : Next s (s.byteTime true tx) b bs := by
  have hset : s.msg.addrFlag &&& 0x10 ≠ 0 := by rcases hflag with hf | hf <;> rw [hf] <;> decide
  rw [State.toWrite, if_pos hset] at hrest
  have hlen := congrArg List.length hrest
  rw [Mem.length_read, List.length_cons] at hlen
  have hremain : s.msg.remainNum ≠ 0 := by
    intro hzero
    rw [hzero] at hlen
    exact absurd hlen (by simp)
  have hone : (1 : UInt16).toNat = 1 := rfl
  have hless : (s.msg.remainNum - 1).toNat = bs.length := by
    rw [UInt16.toNat_sub_of_le _ _ (by rw [UInt16.le_iff_toNat_le]; omega), hone]
    omega
  rw [hlen, Nat.add_comm, Mem.read_add] at hrest
  obtain ⟨hb, hbs⟩ := List.cons.inj hrest
  have hisr : (s.afterSent true).isrWrite (s.afterSent true).config.clear true =
      ({ s.afterSent true with
          dat := b
          msg := { s.msg with pData := s.msg.pData + 1, remainNum := s.msg.remainNum - 1 }
          accessed := s.accessed ++ [s.msg.pData] }, (s.afterSent true).config.clear) := by
    simp [State.isrWrite, hset, hremain, ← hb]
  obtain ⟨hmsg, hdat, haccessed, hbuf, hlog, htx, hsta⟩ := h.goesOn hisr
  refine ⟨⟨?_, ?_, ?_, htx, ?_, ?_⟩, hdat, ?_, hlog, ?_, hbuf, ?_, fun k hk => ?_⟩
  · rw [hmsg]; exact h.mode
  · rw [hmsg]; exact h.busy
  · rw [hmsg]; exact h.fine
  · rw [hmsg]; exact h.width
  · rw [hmsg]; exact h.flag
  · rw [State.toWrite, hmsg, hbuf, if_pos hset, hless]
    exact hbs
  · rw [State.front, hsta]; rfl
  · rw [State.bound, State.bound, hmsg, hless, hlen]
    exact Nat.add_right_comm ..
  · rw [haccessed] at hk
    have hbound : s.msg.pData < s.bound := by
      rw [State.bound]
      omega
    exact of_mem_append hk hbound

theorem Writing.next (h : Writing s) (hrest : s.toWrite = b :: bs) :
    Next s (s.byteTime true tx) b bs := by
  rcases h.flag with hf | hf | hf | hf
  · rcases h.width with hw | hw
    · simp [State.toWrite, hf, hw, addrWidth8, addrWidth16] at hrest
      obtain ⟨rfl, rfl⟩ := hrest
      exact h.nextAddr (.inr (.inl rfl)) (by simp [State.isrWrite, hf, hw, addrWidth8])
        (by simp [State.toWrite, flag_set])
    · simp [State.toWrite, hf, hw] at hrest
      obtain ⟨rfl, rfl⟩ := hrest
      exact h.nextAddr (.inl rfl) (by simp [State.isrWrite, hf, hw, addrWidth8, addrWidth16])
        (by simp [State.toWrite, flag_clear])
  · simp [State.toWrite, hf, flag_clear] at hrest
    obtain ⟨rfl, rfl⟩ := hrest
    exact h.nextAddr (.inr (.inr rfl)) (by simp [State.isrWrite, hf, flag_clear, flag_or])
      (by simp [State.toWrite, flag_set])
  · exact h.nextData (.inl hf) hrest
  · exact h.nextData (.inr hf) hrest

/-- What a write has left when its loop ends. -/
structure Written (s t : State) (ack : Nat → Bool) (i : Nat) (bytes : List UInt8) : Prop where
  done : t.msg.transDone = 1
  error : t.msg.errorNO = 0 ↔ Acked.All ack i bytes.length
  log : t.log = s.log ++ s.front ++ sentItems ack i bytes ++ [.stop]
  accessed : ∀ k ∈ t.accessed, k ∈ s.accessed ∨ k < s.bound

theorem Ended.written_nack (h : Ended s t 1 [.sent s.dat false, .stop])
    (hack : slave.ack i = false) :
    Written s t slave.ack i (s.dat :: bs) where
  done := h.done
  error := by simp [h.error, Acked.all_succ, hack]
  log := by simp [h.log, sentItems_cons, hack]
  accessed k hk := .inl (h.accessed ▸ hk)

theorem Ended.written_last (h : Ended s t 0 [.sent s.dat true, .stop]) (hack : slave.ack i = true) :
    Written s t slave.ack i [s.dat] where
  done := h.done
  error := by simp [h.error, Acked.all_succ, Acked.all_zero, hack]
  log := by simp [h.log, sentItems, Acked.sent, hack]
  accessed k hk := .inl (h.accessed ▸ hk)

theorem Next.written (h : Next s t b bs) (hack : slave.ack i = true) {u : State}
    (hrun : Written t u slave.ack (i + 1) (b :: bs)) :
    Written s u slave.ack i (s.dat :: b :: bs) where
  done := hrun.done
  error := by rw [hrun.error, List.length_cons (a := s.dat), Acked.all_succ, hack]; simp
  log := by
    rw [hrun.log, h.log, h.front, sentItems_cons _ _ s.dat, hack]
    simp
  accessed k hk := by
    rcases hrun.accessed k hk with hk | hk
    · exact h.accessed k hk
    · exact .inr (h.bound ▸ hk)

/-- A byte that is not acknowledged is the last one of a write. -/
theorem Writing.refused (h : Writing s) (hack : slave.ack i = false) : ∃ t,
    whileBusy slave fuel (s.byteTime (slave.ack i) (slave.tx i)) (i + 1) = some t ∧
      Written s t slave.ack i (s.dat :: bs) := by
  have hend : Ended s (s.byteTime false (slave.tx i)) 1 _ := h.nack
  rw [hack]
  exact ⟨_, whileBusy_done (by rw [hend.done]; decide), hend.written_nack hack⟩

/-- A write ends, after its last byte or after the first one that is not acknowledged. -/
theorem Writing.run (h : Writing s) (hfuel : s.toWrite.length < fuel) :
    ∃ t, whileBusy slave fuel s i = some t ∧ Written s t slave.ack i (s.dat :: s.toWrite) := by
  generalize hbs : s.toWrite = bs at hfuel
  induction bs generalizing s i fuel with
  | nil =>
    obtain ⟨fuel, rfl⟩ := Nat.exists_eq_succ_of_ne_zero (Nat.ne_of_gt hfuel)
    rw [whileBusy_step h.busy]
    cases hack : slave.ack i with
    | false => exact hack ▸ h.refused hack
    | true =>
      have hend : Ended s (s.byteTime true (slave.tx i)) 0 _ := h.last hbs
      exact ⟨_, whileBusy_done (by rw [hend.done]; decide), hend.written_last hack⟩
  | cons b bs ih =>
    obtain ⟨fuel, rfl⟩ := Nat.exists_eq_succ_of_ne_zero (Nat.ne_of_gt (Nat.zero_lt_of_lt hfuel))
    rw [whileBusy_step h.busy]
    cases hack : slave.ack i with
    | false => exact hack ▸ h.refused hack
    | true =>
      have hnext : Next s (s.byteTime true (slave.tx i)) b bs := h.next hbs
      obtain ⟨t, ht, hrun⟩ := ih hnext.writing hnext.rest (Nat.lt_of_succ_lt_succ hfuel)
      rw [hnext.dat] at hrun
      exact ⟨t, ht, hnext.written hack hrun⟩

end Write

section Address

variable {s t : State} {slave : Slave} {fuel i : Nat} {ack : Bool} {tx : UInt8} {b : UInt8}
  {bs : List UInt8}

/-- A read that sends its address. -/
structure Addressing (s : State) : Prop where
  mode : s.msg.txMode = 0
  busy : s.msg.transDone = 0
  sends : s.config.txMode = true
  width : s.msg.addrWidth = addrWidth8 ∨ s.msg.addrWidth = addrWidth16
  flag : s.msg.addrFlag = 0 ∨ s.msg.addrFlag = 0x08 ∨ s.msg.addrFlag = 0x0a

/-- The bytes of the register address behind the byte in the register. -/
def State.toAddress (s : State) : List UInt8 :=
  if s.msg.addrFlag = 0x0a then []
  else if s.msg.addrFlag = 0x08 ∨ s.msg.addrWidth = addrWidth8 then [s.msg.regAddr.toUInt8]
  else [(s.msg.regAddr >>> 8).toUInt8, s.msg.regAddr.toUInt8]

theorem isr_of_read (hsi : s.config.si = true) (hmode : s.msg.txMode = 0) : s.isr =
    State.commit (s.isrRead s.config.clear s.config.ackRx s.config.sta) := by
  have hread : ¬ s.msg.txMode &&& 0x01 ≠ 0 := by
    rw [hmode]
    decide
  rw [State.isr, hsi, if_neg (by decide), if_neg hread]

theorem byteTime_sent_read (hsends : s.config.txMode = true) (hmode : s.msg.txMode = 0) :
    s.byteTime ack tx = State.settle false (State.commit
      ((s.afterSent ack).isrRead (s.afterSent ack).config.clear ack s.config.sta)) := by
  rw [byteTime_sent hsends, isr_of_read (s := s.afterSent ack) rfl hmode]
  rfl

theorem Addressing.notAll (h : Addressing s) : s.msg.addrFlag &&& 0x10 = 0 := by
  rcases h.flag with hf | hf | hf <;> rw [hf] <;> decide

theorem Addressing.nack (h : Addressing s) :
    Ended s (s.byteTime false tx) 1 [.sent s.dat false, .stop] := by
  rw [byteTime_sent_read h.sends h.mode, State.isrRead, if_pos ⟨h.notAll, rfl⟩]
  exact ⟨rfl, rfl, by simp [State.settle, State.commit, State.afterSent], rfl, rfl⟩

/-- Acknowledged bytes of the address have been sent, and the driver goes on with the byte `b`. -/
structure AddressNext (s t : State) (items : List Item) (flag b : UInt8) (sta : Bool) : Prop where
  msg : t.msg = { s.msg with addrFlag := flag }
  dat : t.dat = b
  sends : t.config.txMode = true
  sta : t.config.sta = sta
  log : t.log = s.log ++ s.front ++ items
  userBuf : t.userBuf = s.userBuf
  accessed : t.accessed = s.accessed

theorem Addressing.goesOn (h : Addressing s) {flag : UInt8} {sta : Bool}
    (hisr : (s.afterSent true).isrRead (s.afterSent true).config.clear true s.config.sta =
      ({ s.afterSent true with dat := b, msg := { s.msg with addrFlag := flag } },
        { (s.afterSent true).config.clear with sta })) :
    AddressNext s (s.byteTime true tx) [.sent s.dat true] flag b sta := by
  rw [byteTime_sent_read h.sends h.mode, hisr]
  exact ⟨rfl, rfl, h.sends, rfl, List.append_nil _, rfl, rfl⟩

theorem Addressing.next (h : Addressing s) (hrest : s.toAddress = b :: bs) (tx : UInt8) : ∃ flag,
    AddressNext s (s.byteTime true tx) [.sent s.dat true] flag b false ∧
      Addressing (s.byteTime true tx) ∧ (s.byteTime true tx).toAddress = bs := by
  have keep : ∀ {flag}, flag = 0x08 ∨ flag = 0x0a →
      AddressNext s (s.byteTime true tx) [.sent s.dat true] flag b false →
      Addressing (s.byteTime true tx) := fun hflag hn =>
    ⟨by rw [hn.msg]; exact h.mode, by rw [hn.msg]; exact h.busy, hn.sends,
      by rw [hn.msg]; exact h.width, by rw [hn.msg]; exact .inr hflag⟩
  rcases h.flag with hf | hf | hf
  · rcases h.width with hw | hw
    · simp [State.toAddress, hf, hw] at hrest
      obtain ⟨rfl, rfl⟩ := hrest
      have hn : AddressNext s (s.byteTime true tx) [.sent s.dat true] 0x0a
          s.msg.regAddr.toUInt8 false :=
        h.goesOn (by simp [State.isrRead, hf, hw, addrWidth8, Config.clear])
      exact ⟨_, hn, keep (.inr rfl) hn, by simp [State.toAddress, hn.msg]⟩
    · simp [State.toAddress, hf, hw, addrWidth8, addrWidth16] at hrest
      obtain ⟨rfl, rfl⟩ := hrest
      have hn : AddressNext s (s.byteTime true tx) [.sent s.dat true] 0x08
          (s.msg.regAddr >>> 8).toUInt8 false :=
        h.goesOn (by simp [State.isrRead, hf, hw, addrWidth8, addrWidth16, Config.clear])
      exact ⟨_, hn, keep (.inl rfl) hn, by simp [State.toAddress, hn.msg]⟩
  · simp [State.toAddress, hf] at hrest
    obtain ⟨rfl, rfl⟩ := hrest
    have hn : AddressNext s (s.byteTime true tx) [.sent s.dat true] 0x0a
        s.msg.regAddr.toUInt8 false :=
      h.goesOn (by simp [State.isrRead, hf, flag_clear, flag_or, Config.clear])
    exact ⟨_, hn, keep (.inr rfl) hn, by simp [State.toAddress, hn.msg]⟩
  · simp [State.toAddress, hf] at hrest

theorem Addressing.last (h : Addressing s) (hrest : s.toAddress = []) :
    AddressNext s (s.byteTime true tx) [.sent s.dat true] 0x1b
      ((s.msg.salveID <<< 1) ||| 1) true := by
  have hf : s.msg.addrFlag = 0x0a := by
    by_contra hne
    rw [State.toAddress, if_neg hne] at hrest
    split at hrest <;> exact absurd hrest (List.cons_ne_nil _ _)
  exact h.goesOn (by simp [State.isrRead, hf, flag_set, flag_clear, flag_or])

theorem AddressNext.front {items : List Item} {flag : UInt8}
    (h : AddressNext s t items flag b false) : t.front = [] := by
  rw [State.front, h.sta]
  rfl

theorem AddressNext.trans {items items' : List Item} {flag flag' b' : UInt8} {sta : Bool}
    {u : State} (h : AddressNext s t items flag b false)
    (h' : AddressNext t u items' flag' b' sta) :
    AddressNext s u (items ++ items') flag' b' sta where
  msg := by rw [h'.msg, h.msg]
  dat := h'.dat
  sends := h'.sends
  sta := h'.sta
  log := by
    rw [h'.log, h.front, h.log]
    simp
  userBuf := h'.userBuf.trans h.userBuf
  accessed := h'.accessed.trans h.accessed

theorem AddressNext.ended {items items' : List Item} {flag err : UInt8} {u : State}
    (h : AddressNext s t items flag b false) (h' : Ended t u err items') :
    Ended s u err (items ++ items') where
  done := h'.done
  error := h'.error
  log := by
    rw [h'.log, h.front, h.log]
    simp
  userBuf := h'.userBuf.trans h.userBuf
  accessed := h'.accessed.trans h.accessed

/-- A byte of the address that is not acknowledged ends the read. -/
theorem Addressing.refused (h : Addressing s) (hfuel : s.toAddress.length < fuel)
    (hack : ¬ Acked.All slave.ack i (s.toAddress.length + 1)) :
    ∃ t, whileBusy slave fuel s i = some t ∧
      Ended s t 1 (sentItems slave.ack i (s.dat :: s.toAddress) ++ [.stop]) := by
  generalize hbs : s.toAddress = bs at hfuel hack
  induction bs generalizing s i fuel with
  | nil =>
    obtain ⟨fuel, rfl⟩ := Nat.exists_eq_succ_of_ne_zero (Nat.ne_of_gt hfuel)
    have hfirst : slave.ack i = false := by
      simpa [Acked.all_succ, Acked.all_zero] using hack
    have hend : Ended s (s.byteTime false (slave.tx i)) 1 _ := h.nack
    rw [whileBusy_step h.busy, hfirst, sentItems_cons, hfirst]
    exact ⟨_, whileBusy_done (by rw [hend.done]; decide), hend⟩
  | cons b bs ih =>
    obtain ⟨fuel, rfl⟩ := Nat.exists_eq_succ_of_ne_zero (Nat.ne_of_gt (Nat.zero_lt_of_lt hfuel))
    rw [whileBusy_step h.busy, sentItems_cons]
    cases hfirst : slave.ack i with
    | false =>
      have hend : Ended s (s.byteTime false (slave.tx i)) 1 _ := h.nack
      exact ⟨_, whileBusy_done (by rw [hend.done]; decide), hend⟩
    | true =>
      obtain ⟨flag, hn, hnext, hrest⟩ := h.next hbs (slave.tx i)
      have hothers : ¬ Acked.All slave.ack (i + 1) (bs.length + 1) := fun hall =>
        hack (Acked.all_succ.mpr ⟨hfirst, hall⟩)
      obtain ⟨t, ht, hend⟩ := ih hnext hrest (Nat.lt_of_succ_lt_succ hfuel) hothers
      rw [hn.dat] at hend
      exact ⟨t, ht, hn.ended hend⟩

/-- An address that is acknowledged leads to the repeated start. -/
theorem Addressing.taken (h : Addressing s)
    (hack : Acked.All slave.ack i (s.toAddress.length + 1)) :
    ∃ t, whileBusy slave (fuel + (s.toAddress.length + 1)) s i =
        whileBusy slave fuel t (i + (s.toAddress.length + 1)) ∧
      AddressNext s t (sentItems slave.ack i (s.dat :: s.toAddress)) 0x1b
        ((s.msg.salveID <<< 1) ||| 1) true := by
  generalize hbs : s.toAddress = bs at hack
  induction bs generalizing s i with
  | nil =>
    obtain ⟨hfirst, -⟩ := Acked.all_succ.mp hack
    have hn : AddressNext s (s.byteTime true (slave.tx i)) _ _ _ _ := h.last hbs
    rw [sentItems_cons, hfirst]
    rw [List.length_nil, Nat.zero_add, whileBusy_step h.busy, hfirst]
    exact ⟨_, rfl, hn⟩
  | cons b bs ih =>
    obtain ⟨hfirst, hothers⟩ := Acked.all_succ.mp hack
    obtain ⟨flag, hn, hnext, hrest⟩ := h.next hbs (slave.tx i)
    obtain ⟨t, ht, htaken⟩ := ih hnext hrest hothers
    rw [hn.dat, hn.msg] at htaken
    refine ⟨t, ?_, ?_⟩
    · rw [List.length_cons, ← Nat.add_assoc, whileBusy_step h.busy, hfirst, ht,
        Nat.add_right_comm, Nat.add_assoc]
    · rw [sentItems_cons, hfirst]
      exact hn.trans htaken

end Address

section Receive

variable {s t : State} {slave : Slave} {fuel i m : Nat} {tx : UInt8}

/-- A read at its repeated start. -/
structure Restarted (s : State) : Prop where
  mode : s.msg.txMode = 0
  busy : s.msg.transDone = 0
  fine : s.msg.errorNO = 0
  flag : s.msg.addrFlag = 0x1b
  sends : s.config.txMode = true
  sta : s.config.sta = true

/-- A read that receives. -/
structure Receiving (s : State) : Prop where
  mode : s.msg.txMode = 0
  busy : s.msg.transDone = 0
  fine : s.msg.errorNO = 0
  flag : s.msg.addrFlag = 0x1b
  txMode : s.config.txMode = false
  sta : s.config.sta = false

/-- A repeated start that is not acknowledged ends the read too, but without an error. -/
theorem Restarted.nack (h : Restarted s) :
    Ended s (s.byteTime false tx) 0 [.sent s.dat false, .stop] := by
  have hflag : ¬ ((s.afterSent false).msg.addrFlag &&& 0x10 = 0 ∧ false = false) := by
    change ¬ (s.msg.addrFlag &&& 0x10 = 0 ∧ _)
    rw [h.flag]
    decide
  rw [byteTime_sent_read h.sends h.mode, State.isrRead, if_neg hflag, if_pos ⟨h.sta, rfl⟩]
  exact ⟨rfl, h.fine, by simp [State.settle, State.commit, State.afterSent], rfl, rfl⟩

theorem Restarted.taken (h : Restarted s) (tx : UInt8) : Receiving (s.byteTime true tx) ∧
    (s.byteTime true tx).log = s.log ++ [.start, .sent s.dat true] ∧
    (s.byteTime true tx).msg = s.msg ∧ (s.byteTime true tx).userBuf = s.userBuf ∧
    (s.byteTime true tx).accessed = s.accessed := by
  have hisr : (s.afterSent true).isrRead (s.afterSent true).config.clear true s.config.sta =
      (s.afterSent true,
        { (s.afterSent true).config.clear with txMode := false, ackTx := true }) := by
    simp [State.isrRead, State.isrReceive, h.flag, h.sta, flag_set]
  have hfront : s.front = [.start] := by rw [State.front, h.sta]; rfl
  rw [byteTime_sent_read h.sends h.mode, hisr]
  refine ⟨⟨h.mode, h.busy, h.fine, h.flag, rfl, rfl⟩, ?_, rfl, rfl, rfl⟩
  simp [State.settle, State.commit, State.afterSent, hfront, Config.clear]

/-- The state in which the interrupt for a received byte begins. -/
def State.afterReceived (s : State) (ack : Bool) (tx : UInt8) : State :=
  { s with dat := tx, config := { s.config with si := true, ackRx := ack } }

theorem Receiving.byteTime (h : Receiving s) (ack : Bool) (tx : UInt8) :
    s.byteTime ack tx = State.settle true (State.commit
      ((s.afterReceived ack tx).isrReceive (s.afterReceived ack tx).config.clear false)) := by
  have hreceives : s.config.receives = true := by rw [Config.receives, h.sta, h.txMode]; rfl
  have hread : (s.afterReceived ack tx).isrRead (s.afterReceived ack tx).config.clear ack false =
      (s.afterReceived ack tx).isrReceive (s.afterReceived ack tx).config.clear false := by
    have hflag : (s.afterReceived ack tx).msg.addrFlag = 0x1b := h.flag
    simp [State.isrRead, hflag, flag_set]
  rw [State.byteTime, State.transferByte, if_pos hreceives, hreceives, ← hread, ← h.sta]
  exact congrArg (State.settle true) (isr_of_read (s := s.afterReceived ack tx) rfl h.mode)

/-- A byte has been received and stored. -/
structure ReceiveNext (s t : State) (tx : UInt8) : Prop where
  receiving : Receiving t
  remainNum : t.msg.remainNum = s.msg.remainNum - 1
  pData : t.msg.pData = s.msg.pData + 1
  userBuf : t.userBuf = Function.update s.userBuf s.msg.pData tx
  log : t.log = s.log ++ [.received tx true]
  accessed : t.accessed = s.accessed ++ [s.msg.pData]

theorem Receiving.next (h : Receiving s) (hmore : s.msg.remainNum - 1 ≠ 0) (ack : Bool)
    (tx : UInt8) :
    ReceiveNext s (s.byteTime ack tx) tx := by
  have hmore' : (s.afterReceived ack tx).msg.remainNum - 1 ≠ 0 := hmore
  rw [h.byteTime, State.isrReceive, if_neg Bool.false_ne_true, if_neg hmore']
  exact ⟨⟨h.mode, h.busy, h.fine, h.flag, rfl, rfl⟩, rfl, rfl, by
    exact (Mem.write_cons _ _ _ _).trans (Mem.write_nil _ _), rfl, rfl⟩

/-- What a read has left when its loop ends. -/
structure Received (s t : State) (tx : Nat → UInt8) (i m : Nat) : Prop where
  done : t.msg.transDone = 1
  error : t.msg.errorNO = 0
  userBuf : t.userBuf = s.userBuf.write s.msg.pData (Mem.read tx i m)
  log : t.log = s.log ++ receivedItems tx i m ++ [.stop]
  accessed : ∀ k ∈ t.accessed, k ∈ s.accessed ∨ k < s.msg.pData + m

theorem Receiving.last (h : Receiving s) (hlast : s.msg.remainNum - 1 = 0) (ack : Bool) :
    Received s (s.byteTime ack (slave.tx i)) slave.tx i 1 := by
  have hlast' : (s.afterReceived ack (slave.tx i)).msg.remainNum - 1 = 0 := hlast
  rw [h.byteTime, State.isrReceive, if_neg Bool.false_ne_true, if_pos hlast']
  refine ⟨rfl, h.fine, rfl, ?_, fun k hk => of_mem_append hk (Nat.lt_succ_self _)⟩
  simp [State.settle, State.commit, State.afterReceived, receivedItems]

theorem ReceiveNext.received (h : ReceiveNext s t (slave.tx i)) {u : State}
    (hrun : Received t u slave.tx (i + 1) (m + 1)) : Received s u slave.tx i (m + 2) where
  done := hrun.done
  error := hrun.error
  userBuf := by
    have hlen : m + 2 = 1 + (m + 1) := by omega
    have hread : Mem.read slave.tx i (m + 2) = slave.tx i :: Mem.read slave.tx (i + 1) (m + 1) := by
      rw [hlen]
      exact Mem.read_add ..
    rw [hrun.userBuf, h.userBuf, h.pData, ← Mem.write_cons, hread]
  log := by rw [hrun.log, h.log]; simp [receivedItems]
  accessed k hk := by
    rcases hrun.accessed k hk with hk | hk
    · rw [h.accessed] at hk
      exact of_mem_append hk (by omega)
    · rw [h.pData] at hk
      exact .inr (by omega)

/-- The counter is a copy of the count with 16 bits. -/
theorem counter_sub_one {r : UInt16} (h : r = UInt16.ofNat (m + 1)) : r - 1 = UInt16.ofNat m := by
  rw [h, UInt16.ofNat_add]
  exact UInt16.add_sub_cancel ..

theorem counter_eq_zero (hm : m < 2 ^ 16) : UInt16.ofNat m = 0 ↔ m = 0 := by
  rw [← UInt16.toNat_inj, UInt16.toNat_ofNat_of_lt' hm]
  rfl

/-- A read receives as many bytes as its counter says, or as many as the counter can count. -/
theorem Receiving.run (h : Receiving s) (hremain : s.msg.remainNum = UInt16.ofNat (m + 1))
    (hm : m < 2 ^ 16) (hfuel : m < fuel) :
    ∃ t, whileBusy slave fuel s i = some t ∧ Received s t slave.tx i (m + 1) := by
  induction m generalizing s i fuel with
  | zero =>
    obtain ⟨fuel, rfl⟩ := Nat.exists_eq_succ_of_ne_zero (Nat.ne_of_gt hfuel)
    have hend : Received s _ slave.tx i 1 := h.last (counter_sub_one hremain) (slave.ack i)
    rw [whileBusy_step h.busy]
    exact ⟨_, whileBusy_done (by rw [hend.done]; decide), hend⟩
  | succ m ih =>
    obtain ⟨fuel, rfl⟩ := Nat.exists_eq_succ_of_ne_zero (Nat.ne_of_gt (Nat.zero_lt_of_lt hfuel))
    have hremain' := counter_sub_one hremain
    have hmore : s.msg.remainNum - 1 ≠ 0 := by
      rw [hremain', Ne, counter_eq_zero hm]
      exact Nat.succ_ne_zero m
    have hnext := h.next hmore (slave.ack i) (slave.tx i)
    obtain ⟨t, ht, hrun⟩ := ih hnext.receiving (hnext.remainNum.trans hremain')
      (Nat.lt_of_succ_lt hm) (Nat.lt_of_succ_lt_succ hfuel)
    rw [whileBusy_step h.busy]
    exact ⟨t, ht, hnext.received hrun⟩

end Receive

section Calls

variable {h : List (Call × UInt8)} {s : State} {x : Call}

/-- The byte with the bit for a read does not depend on the mask for the write. -/
theorem readByte_eq (op : Op) : (op.salveId <<< 1) ||| 1 = op.readByte := by
  rw [Op.readByte, ← UInt8.toBitVec_inj]
  simp only [UInt8.toBitVec_or, UInt8.toBitVec_shiftLeft, UInt8.toBitVec_and]
  generalize op.salveId.toBitVec = b
  revert b
  decide +kernel

theorem begin_writing (hmode : x.mode = .write)
    (hwidth : x.op.addrWidth = addrWidth8 ∨ x.op.addrWidth = addrWidth16) :
    Writing (s.begin x) ∧
      (s.begin x).dat :: (s.begin x).toWrite =
        x.op.addrBytes ++ x.userBuf.read 0 (x.count.toNat % 2 ^ 16) := by
  refine ⟨⟨by rw [State.begin, hmode]; rfl, rfl, rfl, rfl, hwidth, .inl rfl⟩, ?_⟩
  rcases hwidth with hw | hw
  · simp [State.begin, State.toWrite, Op.addrBytes, Op.regBytes, hw, addrWidth8, addrWidth16]
  · simp [State.begin, State.toWrite, Op.addrBytes, Op.regBytes, hw, addrWidth8, addrWidth16]

theorem begin_addressing (hmode : x.mode = .read)
    (hwidth : x.op.addrWidth = addrWidth8 ∨ x.op.addrWidth = addrWidth16) :
    Addressing (s.begin x) ∧ (s.begin x).dat :: (s.begin x).toAddress = x.op.addrBytes := by
  refine ⟨⟨by rw [State.begin, hmode]; rfl, rfl, rfl, hwidth, .inl rfl⟩, ?_⟩
  rcases hwidth with hw | hw
  · simp [State.begin, State.toAddress, Op.addrBytes, Op.regBytes, hw]
  · simp [State.begin, State.toAddress, Op.addrBytes, Op.regBytes, hw, addrWidth8, addrWidth16]

/-- How a call ends, in terms of the state in which its loop does. -/
theorem transfer_eq (hs : s.msg.transDone = 0) {t : State}
    (hrun : whileBusy x.slave maxBytes (s.begin x) 0 = some t) :
    s.transfer x = some ({ t with msg := { t.msg with transDone := 0 } }, t.msg.errorNO) := by
  rw [State.transfer, if_neg (not_not.mpr hs), hrun]
  rfl

theorem right_iff (hs : s.msg.transDone = 0) {t : State}
    (hrun : whileBusy x.slave maxBytes (s.begin x) 0 = some t) :
    Right s x ↔ (∀ k ∈ t.accessed, k < x.count.toNat) ∧
      match x.mode with
      | .write => WriteRight x t t.msg.errorNO
      | .read => ReadRight x t t.msg.errorNO := by
  rw [Right, transfer_eq hs hrun]
  constructor
  · rintro ⟨u, ret, heq, hright⟩
    obtain ⟨rfl, rfl⟩ := Prod.mk.inj (Option.some.inj heq)
    exact hright
  · exact fun hright => ⟨_, _, rfl, hright⟩

theorem sentItems_inj {ack : Nat → Bool} {i : Nat} {xs ys : List UInt8} :
    sentItems ack i xs = sentItems ack i ys ↔ Acked.sent ack i xs = Acked.sent ack i ys := by
  refine List.map_inj_right fun a b heq => ?_
  obtain ⟨hbyte, hack⟩ := Item.sent.inj heq
  exact Prod.ext hbyte hack

/-- The bytes of a write, of which the driver counts only those in front. -/
theorem writeBytes_eq (x : Call) : x.writeBytes =
    x.op.addrBytes ++ x.userBuf.read 0 (x.count.toNat % 2 ^ 16) ++
      x.userBuf.read (x.count.toNat % 2 ^ 16) (x.count.toNat - x.count.toNat % 2 ^ 16) := by
  have hcount : x.count.toNat =
      x.count.toNat % 2 ^ 16 + (x.count.toNat - x.count.toNat % 2 ^ 16) := by
    omega
  rw [Call.writeBytes, hcount, Mem.read_add, ← hcount, Nat.zero_add, List.append_assoc]

theorem counted_write (hmode : x.mode = .write) : Counted x ↔ x.count.toNat < 2 ^ 16 ∨
    ¬ Acked.All x.slave.ack 0 (x.op.addrBytes.length + x.count.toNat % 2 ^ 16) := by
  rw [Counted, hmode]

theorem counted_read (hmode : x.mode = .read) : Counted x ↔
    ¬ Acked.All x.slave.ack 0 x.op.addrBytes.length ∨
      x.slave.ack x.op.addrBytes.length = true ∧ x.count.toNat ≤ 2 ^ 16 := by
  rw [Counted, hmode]

theorem length_addrBytes_le (op : Op) : op.addrBytes.length ≤ 3 := by
  rw [Op.addrBytes, Op.regBytes]
  split <;> exact Nat.le_of_ble_eq_true rfl

theorem write_iff (hs : s.msg.transDone = 0) (hmode : x.mode = .write)
    (hwidth : x.op.addrWidth = addrWidth8 ∨ x.op.addrWidth = addrWidth16) :
    Right s x ↔ Counted x := by
  obtain ⟨hwriting, hbytes⟩ := begin_writing (s := s) hmode hwidth
  have hlen := congrArg List.length hbytes
  rw [List.length_cons, List.length_append, Mem.length_read] at hlen
  have haddr := length_addrBytes_le x.op
  obtain ⟨t, ht, hend⟩ : ∃ t, whileBusy x.slave maxBytes (s.begin x) 0 = some t ∧
      Written (s.begin x) t x.slave.ack 0 _ := hwriting.run (by unfold maxBytes; omega)
  rw [hbytes] at hend
  have haccessed : ∀ k ∈ t.accessed, k < x.count.toNat := fun k hk => by
    rcases hend.accessed k hk with hk | hk
    · exact absurd hk List.not_mem_nil
    · have hbound : (s.begin x).bound = x.count.toNat % 2 ^ 16 :=
        (Nat.zero_add _).trans (UInt32.toNat_toUInt16 _)
      exact Nat.lt_of_lt_of_le (hbound ▸ hk) (Nat.mod_le ..)
  have hlog : t.log = .start :: sentItems x.slave.ack 0 x.writeBytes ++ [.stop] ↔
      ¬ Acked.All x.slave.ack 0 (x.op.addrBytes.length + x.count.toNat % 2 ^ 16) ∨
        x.userBuf.read (x.count.toNat % 2 ^ 16) (x.count.toNat - x.count.toNat % 2 ^ 16) = [] := by
    have hbegin : (s.begin x).log ++ (s.begin x).front = [.start] := rfl
    rw [hend.log, hbegin, List.singleton_append, List.cons_append, List.cons_append,
      List.cons.injEq, List.append_left_inj, sentItems_inj, writeBytes_eq,
      Acked.sent_append_eq_iff, List.length_append, Mem.length_read]
    simp
  have herror : t.msg.errorNO = 0 ↔
      Acked.All x.slave.ack 0 (x.op.addrBytes.length + x.count.toNat % 2 ^ 16) := by
    rw [hend.error, List.length_append, Mem.length_read]
  have hwritten : x.writeBytes.length = x.op.addrBytes.length + x.count.toNat % 2 ^ 16 +
      (x.count.toNat - x.count.toNat % 2 ^ 16) := by
    rw [writeBytes_eq, List.length_append, List.length_append, Mem.length_read, Mem.length_read]
  rw [right_iff hs ht, hmode, counted_write hmode]
  constructor
  · rintro ⟨-, hlog', -⟩
    rcases hlog.mp hlog' with hnot | hnone
    · exact .inr hnot
    · have hrest := congrArg List.length hnone
      rw [Mem.length_read, List.length_nil] at hrest
      exact .inl (by omega)
  · rintro (hless | hnot)
    · have hsmall : x.count.toNat % 2 ^ 16 = x.count.toNat := Nat.mod_eq_of_lt hless
      rw [hsmall, Nat.sub_self] at hlog hwritten
      exact ⟨haccessed, hlog.mpr (.inr rfl), by rw [herror, hwritten, hsmall]; rfl⟩
    · refine ⟨haccessed, hlog.mpr (.inl hnot), ?_⟩
      rw [herror, hwritten]
      exact ⟨fun hall => absurd hall hnot, fun hall => (Acked.all_add.mp hall).1⟩

/-- The last byte that a read takes is the one that its counter of 16 bits stops at. -/
theorem count_eq (hcount : x.count ≠ 0) : ∃ m, m < 2 ^ 16 ∧ m + 1 ≤ x.count.toNat ∧
    x.count.toUInt16 = UInt16.ofNat (m + 1) ∧ (m + 1 = x.count.toNat ↔ x.count.toNat ≤ 2 ^ 16) := by
  have hpos : 0 < x.count.toNat := UInt32.pos_iff_ne_zero.mpr hcount
  refine ⟨(x.count.toNat - 1) % 2 ^ 16, Nat.mod_lt _ (Nat.two_pow_pos 16), by omega, ?_, by omega⟩
  rw [← UInt16.toNat_inj, UInt32.toNat_toUInt16, UInt16.toNat_ofNat']
  omega

theorem read_of_refused (hs : s.msg.transDone = 0) (hmode : x.mode = .read)
    (hwidth : x.op.addrWidth = addrWidth8 ∨ x.op.addrWidth = addrWidth16)
    (hnot : ¬ Acked.All x.slave.ack 0 x.op.addrBytes.length) : Right s x := by
  obtain ⟨haddressing, hbytes⟩ := begin_addressing (s := s) hmode hwidth
  have hlen := congrArg List.length hbytes
  rw [List.length_cons] at hlen
  have haddr := length_addrBytes_le x.op
  obtain ⟨t, ht, hend⟩ : ∃ t, whileBusy x.slave maxBytes (s.begin x) 0 = some t ∧
      Ended (s.begin x) t 1 _ :=
    haddressing.refused (by unfold maxBytes; omega) (hlen.symm ▸ hnot)
  rw [hbytes] at hend
  have hnot' : ¬ Acked.All x.slave.ack 0 x.readBytes := fun hall =>
    hnot (Acked.all_add.mp hall).1
  rw [right_iff hs ht, hmode]
  refine ⟨fun k hk => absurd (hend.accessed ▸ hk) List.not_mem_nil, ?_, ?_, ?_⟩
  · rw [hend.log, Call.readTail, if_neg hnot, List.append_nil]
    rfl
  · rw [hend.error]
    exact ⟨fun hzero => absurd hzero (by decide), fun hall => absurd hall hnot'⟩
  · rw [hend.userBuf, if_neg hnot', Mem.write_nil]
    rfl

/-- The state at the repeated start of a call. -/
theorem exists_restarted (hmode : x.mode = .read)
    (hwidth : x.op.addrWidth = addrWidth8 ∨ x.op.addrWidth = addrWidth16)
    (hall : Acked.All x.slave.ack 0 x.op.addrBytes.length) :
    ∃ t fuel, 2 ^ 16 < fuel ∧ whileBusy x.slave maxBytes (s.begin x) 0 =
        whileBusy x.slave fuel t x.op.addrBytes.length ∧
      Restarted t ∧ t.dat = x.op.readByte ∧ t.userBuf = x.userBuf ∧ t.accessed = [] ∧
      t.log = .start :: sentItems x.slave.ack 0 x.op.addrBytes ∧
      t.msg.remainNum = x.count.toUInt16 ∧ t.msg.pData = 0 := by
  obtain ⟨haddressing, hbytes⟩ := begin_addressing (s := s) hmode hwidth
  have hlen := congrArg List.length hbytes
  rw [List.length_cons] at hlen
  have haddr := length_addrBytes_le x.op
  have hfuel : maxBytes - x.op.addrBytes.length + x.op.addrBytes.length = maxBytes :=
    Nat.sub_add_cancel (by unfold maxBytes; omega)
  obtain ⟨t, ht, htaken⟩ : ∃ t, whileBusy x.slave
      (maxBytes - x.op.addrBytes.length + ((s.begin x).toAddress.length + 1)) (s.begin x) 0 = _ ∧
      AddressNext (s.begin x) t _ _ _ _ := haddressing.taken (hlen.symm ▸ hall)
  rw [hlen, hfuel, Nat.zero_add] at ht
  rw [hbytes] at htaken
  have hsta := htaken.sta
  refine ⟨t, _, ?_, ht, ⟨?_, ?_, ?_, ?_, htaken.sends, hsta⟩, ?_, htaken.userBuf,
    htaken.accessed, htaken.log, ?_, ?_⟩
  · unfold maxBytes
    omega
  · rw [htaken.msg]; exact haddressing.mode
  · rw [htaken.msg]; rfl
  · rw [htaken.msg]; rfl
  · rw [htaken.msg]
  · rw [htaken.dat]; exact readByte_eq x.op
  · rw [htaken.msg]; rfl
  · rw [htaken.msg]; rfl

/-- `i2c1_isr` leaves `ErrorNO` as it is when the repeated start is not acknowledged. -/
theorem not_right_of_nack (hs : s.msg.transDone = 0) (hmode : x.mode = .read)
    (hwidth : x.op.addrWidth = addrWidth8 ∨ x.op.addrWidth = addrWidth16)
    (hall : Acked.All x.slave.ack 0 x.op.addrBytes.length)
    (hnack : x.slave.ack x.op.addrBytes.length = false) : ¬ Right s x := by
  obtain ⟨t, fuel, hfuel, hrun, hstart, -⟩ := exists_restarted (s := s) hmode hwidth hall
  obtain ⟨fuel, rfl⟩ := Nat.exists_eq_succ_of_ne_zero (Nat.ne_of_gt (Nat.zero_lt_of_lt hfuel))
  have hend : Ended t (t.byteTime false (x.slave.tx x.op.addrBytes.length)) 0 _ := hstart.nack
  rw [whileBusy_step hstart.busy, hnack] at hrun
  rw [right_iff hs (hrun.trans (whileBusy_done (by rw [hend.done]; decide))), hmode]
  rintro ⟨-, -, hret, -⟩
  have hlast := (hret.mp hend.error) _ (Nat.lt_succ_self _)
  rw [Nat.zero_add, hnack] at hlast
  exact Bool.false_ne_true hlast

theorem length_receivedItems (tx : Nat → UInt8) (i m : Nat) :
    (receivedItems tx i m).length = m := by
  induction m generalizing i with
  | zero => rfl
  | succ m ih => rw [receivedItems, List.length_cons, ih]

theorem read_iff_of_ack (hs : s.msg.transDone = 0) (hmode : x.mode = .read)
    (hwidth : x.op.addrWidth = addrWidth8 ∨ x.op.addrWidth = addrWidth16) (hcount : x.count ≠ 0)
    (hall : Acked.All x.slave.ack 0 x.op.addrBytes.length)
    (hack : x.slave.ack x.op.addrBytes.length = true) : Right s x ↔ x.count.toNat ≤ 2 ^ 16 := by
  obtain ⟨t, fuel, hfuel, hrun, hstart, hdat, hbuf, haccessed, hlog, hremain, hdata⟩ :=
    exists_restarted (s := s) hmode hwidth hall
  obtain ⟨fuel, rfl⟩ := Nat.exists_eq_succ_of_ne_zero (Nat.ne_of_gt (Nat.zero_lt_of_lt hfuel))
  obtain ⟨m, hm, hle, hcopy, hiff⟩ := count_eq hcount
  obtain ⟨hreceiving, hlog', hmsg, hbuf', haccessed'⟩ :=
    hstart.taken (x.slave.tx x.op.addrBytes.length)
  rw [whileBusy_step hstart.busy, hack] at hrun
  obtain ⟨u, hu, hend⟩ : ∃ u, whileBusy x.slave fuel _ (x.op.addrBytes.length + 1) = some u ∧
      Received _ u x.slave.tx (x.op.addrBytes.length + 1) (m + 1) :=
    hreceiving.run (by rw [hmsg, hremain, hcopy]) hm
      (Nat.lt_of_lt_of_le hm (Nat.le_of_lt_succ hfuel))
  have hreads : Acked.All x.slave.ack 0 x.readBytes := by
    rw [Call.readBytes, Acked.all_add, Acked.all_succ, Nat.zero_add]
    exact ⟨hall, hack, Acked.all_zero⟩
  have htail : x.readTail = [.start, .sent x.op.readByte true] ++
      receivedItems x.slave.tx (x.op.addrBytes.length + 1) x.count.toNat := by
    rw [Call.readTail, if_pos hall, if_pos hack, hack]
    rfl
  have hlogs : u.log = .start :: sentItems x.slave.ack 0 x.op.addrBytes ++
      ([.start, .sent x.op.readByte true] ++
        receivedItems x.slave.tx (x.op.addrBytes.length + 1) (m + 1)) ++ [.stop] := by
    rw [hend.log, hlog', hlog, hdat]
    simp
  rw [right_iff hs (hrun.trans hu), hmode, ← hiff]
  constructor
  · rintro ⟨-, hlogr, -⟩
    rw [hlogs, htail, List.append_left_inj, List.append_right_inj, List.append_right_inj] at hlogr
    have hlen := congrArg List.length hlogr
    rwa [length_receivedItems, length_receivedItems] at hlen
  · intro heq
    refine ⟨fun k hk => ?_, ?_, ?_, ?_⟩
    · rcases hend.accessed k hk with hk | hk
      · rw [haccessed', haccessed] at hk
        exact absurd hk List.not_mem_nil
      · rw [hmsg, hdata] at hk
        omega
    · rw [hlogs, htail, heq]
    · exact ⟨fun _ => hreads, fun _ => hend.error⟩
    · rw [hend.userBuf, hbuf', hbuf, hmsg, hdata, if_pos hreads, heq]
      rfl

/-- No call leaves a transfer under way. -/
theorem idle (hr : i2c1.Reaches h s) : s.msg.transDone = 0 := by
  refine hr.stateInvariant (fun s => s.msg.transDone = 0) rfl fun {s x t o} hs _ ht => ?_
  have heq : s.transfer x = some (t, o) := ht
  rw [State.transfer, if_neg (not_not.mpr hs), Option.map_eq_some_iff] at heq
  obtain ⟨u, -, hu⟩ := heq
  rw [← (Prod.mk.inj hu).1]

/-- A call is right exactly if the 16-bit counter is enough for it, and if a slave that takes the
register address does not refuse its address behind the repeated start. -/
theorem i2c1_transfer_iff_counted (hr : i2c1.Reaches h s)
    (hwidth : x.op.addrWidth = addrWidth8 ∨ x.op.addrWidth = addrWidth16) (hcount : x.count ≠ 0) :
    Right s x ↔ Counted x := by
  have hs : s.msg.transDone = 0 := idle hr
  cases hmode : x.mode with
  | write => exact write_iff hs hmode hwidth
  | read =>
    rw [counted_read hmode]
    by_cases hall : Acked.All x.slave.ack 0 x.op.addrBytes.length
    · cases hack : x.slave.ack x.op.addrBytes.length with
      | false =>
        have hnot := not_right_of_nack hs hmode hwidth hall hack
        simp [hnot, hall]
      | true => rw [read_iff_of_ack hs hmode hwidth hcount hall hack]; simp [hall]
    · simp [hall, read_of_refused hs hmode hwidth hall]

/-- A slave that acknowledges all bytes but the one of the time `i`. -/
def refusing (i : Nat) : Slave := ⟨fun k => k != i, fun _ => 0x07⟩

def oneByte (slave : Slave) : Call := ⟨.read, ⟨addrWidth8, 0x50, 0x10⟩, 1, fun _ => 0, slave⟩

def longWrite : Call :=
  ⟨.write, ⟨addrWidth8, 0x50, 0x10⟩, 0x10000, fun _ => 0, ⟨fun _ => true, fun _ => 0⟩⟩

theorem i2c1_transfer_one : Right initState (oneByte (refusing 3)) :=
  (i2c1_transfer_iff_counted .init (.inl rfl) (by decide)).mpr (.inr ⟨rfl, by decide⟩)

/-- The refused address of a read shows as a success, and of 65536 bytes none is written. -/
theorem i2c1_transfer_wrong :
    ¬ Right initState (oneByte (refusing 2)) ∧ ¬ Right initState longWrite := by
  constructor
  · exact not_right_of_nack rfl rfl (.inl rfl) (by decide) rfl
  · rw [write_iff rfl rfl (.inl rfl), counted_write rfl]
    rintro (hless | hnot)
    · exact absurd hless (by decide)
    · exact hnot fun _ _ => rfl

end Calls

end BdkRtt.Driver.I2c1
