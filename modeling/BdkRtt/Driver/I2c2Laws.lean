import BdkRtt.Driver.I2c2
import Mathlib.Algebra.Group.Nat.Defs
import Mathlib.Algebra.GroupWithZero.Nat

namespace BdkRtt.Driver.I2c2

open Lib

section Address

variable {x : Call} {s t : State} {flag : UInt8} {cur : UInt32}

/-- The bits of `WkMode` for a master. -/
def Mode.bits : Mode → Bool → Bool → UInt8
  | .write, ten, inner => (if ten then alBit else 0) ||| if inner then iaBit else 0
  | .read, ten, inner => (if ten then alBit else 0) ||| (if inner then iaBit else 0) ||| rwBit

theorem low_bits : ∀ k < 16, UInt32.ofNat k &&& 0x02 = 0 →
    (UInt32.ofNat k).toUInt8 &&& ~~~rwBit =
        Mode.bits .write (decide (UInt32.ofNat k &&& 0x04 ≠ 0))
          (decide (UInt32.ofNat k &&& 0x08 ≠ 0)) ∧
      (UInt32.ofNat k).toUInt8 ||| rwBit =
        Mode.bits .read (decide (UInt32.ofNat k &&& 0x04 ≠ 0))
          (decide (UInt32.ofNat k &&& 0x08 ≠ 0)) := by
  decide

theorem wkMode_eq (h : x.opFlag &&& 0x02 = 0) : x.wkMode = x.mode.bits x.tenBit x.inner := by
  have hle : (x.opFlag &&& 0x0f).toNat < 16 := by
    rw [UInt32.toNat_and]
    exact Nat.and_lt_two_pow (n := 4) _ (by decide)
  have hand : ∀ m : UInt32, 0x0f &&& m = m → (x.opFlag &&& 0x0f) &&& m = x.opFlag &&& m := by
    intro m hm
    rw [UInt32.and_assoc, hm]
  have hbits := low_bits _ hle
  rw [UInt32.ofNat_toNat, hand _ (by decide), hand _ (by decide), hand _ (by decide)] at hbits
  obtain ⟨hwrite, hread⟩ := hbits h
  rw [Call.wkMode]
  cases x.mode with
  | write => exact hwrite
  | read => exact hread

/-- `gi2c2` when `cur` bytes have been transferred. -/
def Call.msg (x : Call) (flag : UInt8) (cur : UInt32) : Msg where
  wkMode := x.wkMode
  innerAddr := x.op.opAddr.toUInt8
  sendAddr := x.op.salveId
  currentNum := cur
  allDataNum := x.count
  addrFlag := flag
  transDone := 0
  ackCheck := 1

/-- The values of `AddrFlag`. -/
def flags : Mode → Bool → Bool → List UInt8
  | .write, false, false => [0x13]
  | .write, true, true => [0x01, 0x02, 0x1b]
  | .write, _, _ => [0x01, 0x13]
  | .read, false, false => [0x13]
  | .read, false, true => [0x01, 0x0a, 0x1b]
  | .read, true, false => [0x01, 0x02, 0x13]
  | .read, true, true => [0x01, 0x02, 0x0a, 0x1b]

def Call.Flag (x : Call) (flag : UInt8) : Prop := flag ∈ flags x.mode x.tenBit x.inner

/-- The rest of the address. -/
def Call.toPut (x : Call) (flag : UInt8) : List Item :=
  if flag &&& 0x10 ≠ 0 then []
  else (if flag = 0x01 ∧ x.tenBit then [.byte x.op.salveId] else []) ++
    (if flag &&& 0x08 = 0 ∧ x.inner then [.byte x.op.opAddr.toUInt8] else []) ++
    if x.mode = .read then [x.readItem] else []

def State.putItem (s : State) : Item → State
  | .start b => s.putStart b
  | .byte b => s.put b

theorem writeAddr_put (hmaster : x.opFlag &&& 0x02 = 0) (hmode : x.mode = .write)
    (hmsg : s.msg = x.msg flag cur) (hflag : x.Flag flag) (hopen : flag &&& 0x10 = 0) :
    ∃ flag' b, x.Flag flag' ∧ x.toPut flag = .byte b :: x.toPut flag' ∧
      s.writeAddr = (s.put b).setFlag flag' := by
  have hwk := wkMode_eq hmaster
  rw [hmode] at hwk
  rw [Call.Flag, hmode] at hflag
  cases hten : x.tenBit <;> cases hinner : x.inner <;> rw [hten, hinner] at hflag hwk <;>
    simp only [flags, List.mem_cons, List.not_mem_nil, or_false] at hflag
  · subst hflag
    exact absurd hopen (by decide)
  · rcases hflag with rfl | rfl
    · refine ⟨0x13, x.op.opAddr.toUInt8, ?_, ?_, ?_⟩
      · simp [Call.Flag, hmode, hten, hinner, flags]
      · simp +decide [Call.toPut, hmode, hten, hinner]
      · simp +decide [State.writeAddr, hmsg, Call.msg, hwk, Mode.bits]
        rfl
    · exact absurd hopen (by decide)
  · rcases hflag with rfl | rfl
    · refine ⟨0x13, x.op.salveId, ?_, ?_, ?_⟩
      · simp [Call.Flag, hmode, hten, hinner, flags]
      · simp +decide [Call.toPut, hmode, hten, hinner]
      · simp +decide [State.writeAddr, hmsg, Call.msg, hwk, Mode.bits]
        rfl
    · exact absurd hopen (by decide)
  · rcases hflag with rfl | rfl | rfl
    · refine ⟨0x02, x.op.salveId, ?_, ?_, ?_⟩
      · simp [Call.Flag, hmode, hten, hinner, flags]
      · simp +decide [Call.toPut, hmode, hten, hinner]
      · simp +decide [State.writeAddr, hmsg, Call.msg, hwk, Mode.bits]
    · refine ⟨0x1b, x.op.opAddr.toUInt8, ?_, ?_, ?_⟩
      · simp [Call.Flag, hmode, hten, hinner, flags]
      · simp +decide [Call.toPut, hmode, hten, hinner]
      · simp +decide [State.writeAddr, hmsg, Call.msg, hwk, Mode.bits]
        rfl
    · exact absurd hopen (by decide)

/-- The upper two bits of an address with eight. -/
theorem high_bits (b : UInt8) : (b >>> 7) &&& 0x06 = 0 := by
  rw [← UInt8.toBitVec_inj, UInt8.toBitVec_and, UInt8.toBitVec_shiftRight]
  generalize b.toBitVec = v
  revert v
  decide +kernel

/-- The lowest bit of an address byte. -/
theorem low_bit (b : UInt8) : (b <<< 1) &&& 0x01 = 0 ∧ (b <<< 1) &&& ~~~(0x01 : UInt8) = b <<< 1 ∧
    ((b <<< 1) ||| 0x01) &&& 0x01 ≠ 0 := by
  rw [Ne, ← UInt8.toBitVec_inj, ← UInt8.toBitVec_inj, ← UInt8.toBitVec_inj, UInt8.toBitVec_and,
    UInt8.toBitVec_and, UInt8.toBitVec_and, UInt8.toBitVec_or, UInt8.toBitVec_shiftLeft]
  generalize b.toBitVec = v
  revert v
  decide +kernel

def Item.isStart : Item → Bool
  | .start _ => true
  | .byte _ => false

theorem readAddr_put (stat : Stat) (hmaster : x.opFlag &&& 0x02 = 0) (hmode : x.mode = .read)
    (hmsg : s.msg = x.msg flag cur) (hflag : x.Flag flag) (hopen : flag &&& 0x10 = 0) :
    ∃ flag' item, x.Flag flag' ∧ x.toPut flag = item :: x.toPut flag' ∧
      s.readAddr { stat with sta := false } =
        ((s.putItem item).setFlag flag', { stat with sta := item.isStart }) ∧
      item.isStart = decide (flag' &&& 0x10 ≠ 0) ∧ (item.isStart = true → item = x.readItem) := by
  have hbyte {b : UInt8} : (Item.byte b).isStart = true → Item.byte b = x.readItem :=
    fun hstart => absurd hstart Bool.false_ne_true
  have hwk := wkMode_eq hmaster
  rw [hmode] at hwk
  rw [Call.Flag, hmode] at hflag
  cases hten : x.tenBit <;> cases hinner : x.inner <;> rw [hten, hinner] at hflag hwk <;>
    simp only [flags, List.mem_cons, List.not_mem_nil, or_false] at hflag
  · subst hflag
    exact absurd hopen (by decide)
  · rcases hflag with rfl | rfl | rfl
    · refine ⟨0x0a, .byte x.op.opAddr.toUInt8, ?_, ?_, ?_, rfl, hbyte⟩
      · simp [Call.Flag, hmode, hten, hinner, flags]
      · simp +decide [Call.toPut, hmode, hten, hinner]
      · simp +decide [State.readAddr, hmsg, Call.msg, hwk, Mode.bits, State.putItem, Item.isStart]
        rfl
    · refine ⟨0x1b, x.readItem, ?_, ?_, ?_, rfl, fun _ => rfl⟩
      · simp [Call.Flag, hmode, hten, hinner, flags]
      · simp +decide [Call.toPut, hmode, hten, hinner]
      · simp +decide [State.readAddr, hmsg, Call.msg, hwk, Mode.bits, Call.readItem, hten,
          State.putItem, Item.isStart]
        rfl
    · exact absurd hopen (by decide)
  · rcases hflag with rfl | rfl | rfl
    · refine ⟨0x02, .byte x.op.salveId, ?_, ?_, ?_, rfl, hbyte⟩
      · simp [Call.Flag, hmode, hten, hinner, flags]
      · simp +decide [Call.toPut, hmode, hten, hinner]
      · simp +decide [State.readAddr, hmsg, Call.msg, hwk, Mode.bits, State.putItem, Item.isStart]
    · refine ⟨0x13, x.readItem, ?_, ?_, ?_, rfl, fun _ => rfl⟩
      · simp [Call.Flag, hmode, hten, hinner, flags]
      · simp +decide [Call.toPut, hmode, hten, hinner]
      · simp +decide [State.readAddr, hmsg, Call.msg, hwk, Mode.bits, Call.readItem, hten,
          State.putItem, Item.isStart, high_bits]
        rfl
    · exact absurd hopen (by decide)
  · rcases hflag with rfl | rfl | rfl | rfl
    · refine ⟨0x02, .byte x.op.salveId, ?_, ?_, ?_, rfl, hbyte⟩
      · simp [Call.Flag, hmode, hten, hinner, flags]
      · simp +decide [Call.toPut, hmode, hten, hinner]
      · simp +decide [State.readAddr, hmsg, Call.msg, hwk, Mode.bits, State.putItem, Item.isStart]
    · refine ⟨0x0a, .byte x.op.opAddr.toUInt8, ?_, ?_, ?_, rfl, hbyte⟩
      · simp [Call.Flag, hmode, hten, hinner, flags]
      · simp +decide [Call.toPut, hmode, hten, hinner]
      · simp +decide [State.readAddr, hmsg, Call.msg, hwk, Mode.bits, State.putItem, Item.isStart]
        rfl
    · refine ⟨0x1b, x.readItem, ?_, ?_, ?_, rfl, fun _ => rfl⟩
      · simp [Call.Flag, hmode, hten, hinner, flags]
      · simp +decide [Call.toPut, hmode, hten, hinner]
      · simp +decide [State.readAddr, hmsg, Call.msg, hwk, Mode.bits, Call.readItem, hten,
          State.putItem, Item.isStart, high_bits]
        rfl
    · exact absurd hopen (by decide)

/-- The bytes in front of those of a write. -/
def Call.address (x : Call) : List Item :=
  match x.mode with
  | .write => x.slaveItems ++ x.innerItems
  | .read => (if x.tenBit || x.inner then x.slaveItems ++ x.innerItems else []) ++ [x.readItem]

def Call.data (x : Call) (cur : UInt32) : List Item :=
  match x.mode with
  | .write => (x.userBuf.read cur.toNat (x.count.toNat - cur.toNat)).map .byte
  | .read => []

theorem items_eq (x : Call) : x.items = x.address ++ x.data 0 := by
  rw [Call.items, Call.address, Call.data]
  cases x.mode with
  | write => rfl
  | read => exact (List.append_nil _).symm

/-- `INT_MODE` as `i2c2_send_start` leaves it. -/
def Call.startMode (x : Call) (stat : Stat) : BitVec 2 := stat.intMode ||| (x.msg 0 0).intMode

/-- `AddrFlag` behind the first byte of the address, and this byte. -/
def Call.firstFlag (x : Call) : UInt8 := if x.tenBit || x.inner then 0x01 else 0x13

def Call.firstByte (x : Call) : UInt8 :=
  if x.tenBit then 0xf0
  else if x.mode = .read ∧ x.inner = false then (x.op.salveId <<< 1) ||| 0x01
  else x.op.salveId <<< 1

theorem firstFlag_flag (x : Call) : x.Flag x.firstFlag := by
  cases hmode : x.mode <;> cases hten : x.tenBit <;> cases hinner : x.inner <;>
    simp [Call.Flag, Call.firstFlag, hmode, hten, hinner, flags]

theorem firstByte_toPut (x : Call) : .start x.firstByte :: x.toPut x.firstFlag = x.address := by
  cases hmode : x.mode <;> cases hten : x.tenBit <;> cases hinner : x.inner <;>
    simp +decide [Call.firstByte, Call.toPut, Call.firstFlag, Call.address, Call.slaveItems,
      Call.innerItems, Call.readItem, hmode, hten, hinner]

theorem firstByte_odd (x : Call) :
    x.firstByte &&& 0x01 ≠ 0 ↔ x.mode = .read ∧ x.firstFlag &&& 0x10 ≠ 0 := by
  cases hmode : x.mode <;> cases hten : x.tenBit <;> cases hinner : x.inner <;>
    simp +decide [Call.firstByte, Call.firstFlag, hmode, hten, hinner, low_bit]

theorem begin_eq (hmaster : x.opFlag &&& 0x02 = 0) (stat : Stat) : x.begin stat =
    { msg := x.msg x.firstFlag 0
      stat := { stat with intMode := x.startMode stat, stop := false, sta := true }
      pData := x.userBuf
      accessed := []
      tx := ⟨[], [.start x.firstByte]⟩
      rx := []
      address := x.firstByte } := by
  have hwk := wkMode_eq hmaster
  cases hmode : x.mode <;> cases hten : x.tenBit <;> cases hinner : x.inner <;>
    rw [hmode, hten, hinner] at hwk <;>
    simp +decide [Call.begin, State.sendStart, State.sendAddr, hwk, Mode.bits, State.putStart,
      State.setFlag, Call.startMode, Call.msg, Outbox.put, fifoDepth, low_bit, high_bits,
      Call.firstByte, Call.firstFlag, hmode, hten, hinner]

end Address

section Loops

variable {x : Call} {s t : State} {flag : UInt8} {cur : UInt32} {n : Nat}

/-- `cur` bytes of the buffer have been accessed, in order. -/
structure At (x : Call) (flag : UInt8) (cur : UInt32) (s : State) : Prop where
  msg : s.msg = x.msg flag cur
  accessed : s.accessed = List.range cur.toNat

theorem At.currentNum (h : At x flag cur s) : s.msg.currentNum = cur := by
  rw [h.msg]
  rfl

theorem At.wkMode (h : At x flag cur s) : s.msg.wkMode = x.wkMode := by
  rw [h.msg]
  rfl

theorem At.ackCheck (h : At x flag cur s) : s.msg.ackCheck ≠ 0 := by
  have hone : (1 : UInt8) ≠ 0 := by decide
  rw [h.msg]
  exact hone

/-- All of the address has been written. -/
theorem At.addressed (h : At x flag cur s) (hall : flag &&& 0x10 ≠ 0) :
    s.msg.addrFlag &&& 0x10 ≠ 0 := by
  rw [h.msg]
  exact hall

theorem At.addressing (h : At x flag cur s) (hopen : flag &&& 0x10 = 0) :
    ¬ s.msg.addrFlag &&& 0x10 ≠ 0 := by
  rw [h.msg]
  exact not_not.mpr hopen

theorem toNat_succ (h : cur.toNat + 1 ≤ x.count.toNat) : (cur + 1).toNat = cur.toNat + 1 := by
  have hlt := x.count.toNat_lt
  rw [UInt32.toNat_add]
  exact Nat.mod_eq_of_lt (Nat.lt_of_le_of_lt h hlt)

theorem ofNat_succ_sub (remain : UInt8) (n : Nat) :
    remain - 1 - UInt8.ofNat n = remain - UInt8.ofNat (n + 1) := by
  rw [← UInt8.toNat_inj, UInt8.toNat_sub, UInt8.toNat_sub, UInt8.toNat_sub, UInt8.toNat_ofNat',
    UInt8.toNat_ofNat', UInt8.toNat_one]
  omega

/-- What `n` rounds of the loop of a write do. -/
structure Put (x : Call) (flag : UInt8) (cur : UInt32) (n : Nat) (s t : State) : Prop where
  going : ∃ cur' : UInt32, cur'.toNat = cur.toNat + n ∧ At x flag cur' t
  tx : t.tx.all = s.tx.all ++ (s.pData.read cur.toNat n).map .byte
  pData : t.pData = s.pData
  address : t.address = s.address

theorem putData_spec (h : At x flag cur s) (hle : cur.toNat + n ≤ x.count.toNat)
    (hroom : s.tx.held.length + n ≤ fifoDepth) (remain : UInt8) : ∃ t,
    State.putData n s remain = (t, remain - UInt8.ofNat n) ∧ Put x flag cur n s t := by
  induction n generalizing s cur remain with
  | zero =>
    have hzero : remain - UInt8.ofNat 0 = remain := UInt8.sub_zero ..
    exact ⟨s, by rw [hzero]; rfl, ⟨cur, rfl, h⟩, by simp, rfl, rfl⟩
  | succ n ih =>
    have hcur := h.currentNum
    have hnat : (cur + 1).toNat = cur.toNat + 1 := toNat_succ (x := x) (by omega)
    have hnext : At x flag (cur + 1)
        { s.put (s.pData cur.toNat) with
          accessed := s.accessed ++ [cur.toNat]
          msg := { s.msg with currentNum := s.msg.currentNum + 1 } } := by
      refine ⟨?_, ?_⟩
      · rw [h.msg]; rfl
      · rw [hnat, List.range_succ, ← h.accessed]
    have hheld : (s.tx.put fifoDepth (.byte (s.pData cur.toNat))).held.length + n ≤ fifoDepth := by
      have hput : (s.tx.put fifoDepth (.byte (s.pData cur.toNat))).held.length ≤
          s.tx.held.length + 1 :=
        Outbox.length_held_put_le
      omega
    obtain ⟨t, ht, ⟨cur', hcur', hat⟩, htx, hpData, haddress⟩ :=
      ih hnext (by omega) hheld (remain - 1)
    refine ⟨t, ?_, ⟨cur', by omega, hat⟩, ?_, hpData, haddress⟩
    · rw [State.putData, hcur]
      rw [hcur] at ht
      rw [ht, ofNat_succ_sub]
    · rw [htx, hnat, Nat.add_comm n, Mem.read_add, List.map_append, ← List.append_assoc]
      refine congrArg (· ++ _) ?_
      exact Outbox.all_put (by omega)

/-- What `n` rounds of the loop of a read do. -/
structure Took (x : Call) (flag : UInt8) (cur : UInt32) (n : Nat) (s t : State) : Prop where
  going : ∃ cur' : UInt32, cur'.toNat = cur.toNat + n ∧ At x flag cur' t
  rx : t.rx = s.rx.drop n
  pData : t.pData = s.pData.write cur.toNat (s.rx.take n)
  tx : t.tx = s.tx
  address : t.address = s.address

theorem takeData_spec (h : At x flag cur s) (hle : cur.toNat + n ≤ x.count.toNat)
    (hfill : n ≤ s.rx.length) (remain : UInt8) : ∃ t,
    State.takeData n s remain = (t, remain - UInt8.ofNat n) ∧ Took x flag cur n s t := by
  induction n generalizing s cur remain with
  | zero =>
    have hzero : remain - UInt8.ofNat 0 = remain := UInt8.sub_zero ..
    exact ⟨s, by rw [hzero]; rfl, ⟨cur, rfl, h⟩, rfl, by simp, rfl, rfl⟩
  | succ n ih =>
    have hcur := h.currentNum
    have hnat : (cur + 1).toNat = cur.toNat + 1 := toNat_succ (x := x) (by omega)
    obtain ⟨b, bs, hrx⟩ :=
      List.exists_cons_of_length_pos (Nat.lt_of_lt_of_le (Nat.succ_pos n) hfill)
    have hnext : At x flag (cur + 1)
        { s with
          pData := s.pData.write cur.toNat [s.rx.headD 0]
          rx := s.rx.tail
          accessed := s.accessed ++ [cur.toNat]
          msg := { s.msg with currentNum := s.msg.currentNum + 1 } } := by
      refine ⟨?_, ?_⟩
      · rw [h.msg]; rfl
      · rw [hnat, List.range_succ, ← h.accessed]
    have htail : n ≤ s.rx.tail.length := by
      rw [List.length_tail]
      omega
    obtain ⟨t, ht, ⟨cur', hcur', hat⟩, hrx', hpData, htx, haddress⟩ :=
      ih hnext (by omega) htail (remain - 1)
    refine ⟨t, ?_, ⟨cur', by omega, hat⟩, ?_, ?_, htx, haddress⟩
    · rw [State.takeData, hcur]
      rw [hcur] at ht
      rw [ht, ofNat_succ_sub]
    · rw [hrx', List.drop_tail]
    · rw [hpData, hnat, hrx, List.headD_cons, List.tail_cons, List.take_succ_cons, Mem.write_cons,
        Mem.write_cons, Mem.write_nil]

/-- `remain_data_cnt` -/
theorem remain_toNat (h : At x flag cur s) (hle : cur.toNat ≤ x.count.toNat) :
    s.remaining = x.count.toNat - cur.toNat ∧
      (s.msg.allDataNum - s.msg.currentNum).toUInt8.toNat = s.remaining % 256 := by
  have hcount : s.msg.allDataNum - s.msg.currentNum = x.count - cur := by rw [h.msg]; rfl
  rw [State.remaining, hcount, UInt32.toNat_toUInt8, UInt32.toNat_sub_of_le _ _ hle]
  exact ⟨rfl, rfl⟩

theorem fifoEmptyNum_toNat (mode : BitVec 2) : 4 ≤ (fifoEmptyNum mode).toNat ∧
    (fifoEmptyNum mode).toNat ≤ 16 := by
  revert mode
  decide

theorem dataNum_toNat (mode : BitVec 2) : 1 ≤ (dataNum mode).toNat ∧ (dataNum mode).toNat ≤ 12 := by
  revert mode
  decide

end Loops

section History

variable {h : History} {e : Event} {o : Bool}

theorem arrived_concat (h : History) (e : Event) (o : Bool) :
    arrived (h ++ [(e, o)]) = arrived h ++ arrived [(e, o)] := List.flatMap_append

theorem arrived_of_ne (he : ∀ b, e ≠ .receive b) : arrived (h ++ [(e, o)]) = arrived h := by
  rw [arrived_concat]
  cases e with
  | receive b => exact absurd rfl (he b)
  | send => exact List.append_nil _
  | isrSent ack => exact List.append_nil _
  | isrReceived => exact List.append_nil _

theorem interrupts_concat (h : History) (e : Event) (o : Bool) :
    interrupts (h ++ [(e, o)]) = interrupts h + if e.isIsr then 1 else 0 := by
  rw [interrupts, interrupts, List.countP_append, List.countP_singleton]

theorem timesDone_concat (h : History) (e : Event) (o : Bool) :
    timesDone (h ++ [(e, o)]) = timesDone h + if o then 1 else 0 := by
  rw [timesDone, timesDone, List.countP_append, List.countP_singleton]

theorem not_nacked_nil : ¬ Nacked [] := by
  rintro ⟨o, ho⟩
  exact List.not_mem_nil ho

theorem nacked_concat : Nacked (h ++ [(e, o)]) ↔ Nacked h ∨ e = .isrSent false := by
  simp only [Nacked, List.mem_append, List.mem_singleton, Prod.mk.injEq]
  constructor
  · rintro ⟨p, hp | ⟨rfl, -⟩⟩
    · exact .inl ⟨p, hp⟩
    · exact .inr rfl
  · rintro (⟨p, hp⟩ | rfl)
    · exact ⟨p, .inl hp⟩
    · exact ⟨o, .inr ⟨rfl, rfl⟩⟩

theorem not_nacked_concat (hn : ¬ Nacked h) (he : e ≠ .isrSent false) :
    ¬ Nacked (h ++ [(e, o)]) := by
  intro hnacked
  rcases nacked_concat.mp hnacked with hnacked | rfl
  · exact hn hnacked
  · exact he rfl

end History

section Write

variable {x : Call} {h : History} {s t : State} {e : Event} {flag flag' : UInt8} {cur cur' : UInt32}
  {ack : Bool}

theorem wkMode_write (hmaster : x.opFlag &&& 0x02 = 0) (hmode : x.mode = .write) :
    x.wkMode &&& 0x03 = 0x00 ∧ x.wkMode &&& rwBit = 0 := by
  rw [wkMode_eq hmaster, hmode]
  cases x.tenBit <;> cases x.inner <;> decide

/-- A transfer that goes on. -/
structure Live (x : Call) (h : History) (s : State) (flag : UInt8) (cur : UInt32) : Prop where
  here : At x flag cur s
  valid : x.Flag flag
  le : cur.toNat ≤ x.count.toNat
  first : flag &&& 0x10 = 0 → cur = 0
  live : s.stat.stop = false
  acked : ¬ Nacked h
  once : timesDone h = 0

/-- A step that goes on, unless it is an interrupt for a byte that was refused. -/
theorem Live.goesOn (hl : Live x h s flag cur) (he : e ≠ .isrSent false) (hat : At x flag' cur' t)
    (hvalid : x.Flag flag') (hle : cur'.toNat ≤ x.count.toNat)
    (hfirst : flag' &&& 0x10 = 0 → cur' = 0) (hlive : t.stat.stop = false) :
    Live x (h ++ [(e, false)]) t flag' cur' where
  here := hat
  valid := hvalid
  le := hle
  first := hfirst
  live := hlive
  acked := not_nacked_concat hl.acked he
  once := by rw [timesDone_concat, hl.once]; rfl

structure Writing (x : Call) (h : History) (s : State) (flag : UInt8) (cur : UInt32) : Prop
    extends Live x h s flag cur where
  items : s.tx.all ++ x.toPut flag ++ x.data cur = x.items
  last : cur.toNat = x.count.toNat → s.stat.intMode = 0
  pData : s.pData = x.userBuf
  address : s.address &&& 0x01 = 0
  bounded : interrupts h + 1 ≤ s.tx.all.length

/-- The stop has been made. -/
structure Finished (x : Call) (h : History) (s : State) : Prop where
  stop : s.stat.stop = true
  done : s.msg.transDone = 1
  right : Right x h s

theorem Live.transDone (hl : Live x h s flag cur) : s.msg.transDone ≠ 1 := by
  rw [hl.here.msg]
  change (0 : UInt8) ≠ 1
  decide

/-- The register when the interrupt for bytes that were sent comes. -/
def State.answered (s : State) (ack : Bool) : State := { s with stat := { s.stat with ack } }

/-- A master that does not receive goes on sending, or is asked for more. -/
theorem enabled_of_sends (hlive : s.stat.stop = false) (hsends : s.receives = false) :
    ∃ e, (s.step e).isSome := by
  by_cases hheld : s.tx.held = []
  · have hle := (fifoEmptyNum_toNat s.stat.intMode).2
    refine ⟨.isrSent true, ?_⟩
    rw [State.step, if_pos ⟨hlive, hsends, by rw [hheld]; exact hle⟩]
    rfl
  · refine ⟨.send, ?_⟩
    rw [State.step, Option.isSome_map]
    exact Outbox.next_isSome hheld

theorem Writing.receives (hw : Writing x h s flag cur) : s.receives = false := by
  rw [State.receives, hw.address]
  rfl

theorem Writing.sends (hw : Writing x h s flag cur) (hreceives : s.receives = true) : False :=
  Bool.eq_false_iff.mp hw.receives hreceives

theorem Writing.right (hw : Writing x h s flag cur) (hmode : x.mode = .write) : Right x h s where
  sent := by
    rw [← hw.items, List.append_assoc]
    exact List.prefix_append ..
  accessed := ⟨cur.toNat, hw.le, hw.here.accessed, by rw [hmode]; exact hw.pData⟩
  once := by rw [if_neg hw.transDone, hw.once]
  nacked hn := absurd hn hw.acked
  done hd := absurd hd hw.transDone
  ends _ := by
    constructor
    · have hlen := congrArg List.length hw.items
      rw [List.length_append, List.length_append] at hlen
      have := hw.bounded
      omega
    · exact enabled_of_sends hw.live hw.receives

theorem Writing.send (hw : Writing x h s flag cur) {tx : Outbox Item} (hs : s.tx.next = some tx) :
    Writing x (h ++ [(.send, false)]) { s with tx } flag cur where
  toLive := hw.goesOn (by simp) ⟨hw.here.msg, hw.here.accessed⟩ hw.valid hw.le hw.first hw.live
  items := by rw [Outbox.all_next hs]; exact hw.items
  last := hw.last
  pData := hw.pData
  address := hw.address
  bounded := by rw [interrupts_concat, Outbox.all_next hs]; exact hw.bounded

/-- What an interrupt that only ends the transfer does. -/
structure Ends (s t : State) : Prop where
  stop : t.stat.stop = true
  done : t.msg.transDone = 1
  tx : t.tx = s.tx
  accessed : t.accessed = s.accessed
  pData : t.pData = s.pData

theorem Right.nack (hr : Right x h s) (honce : timesDone h = 0) (he : Ends s t) :
    Finished x (h ++ [(.isrSent false, true)]) t := by
  have harrived : arrived (h ++ [(.isrSent false, true)]) = arrived h := arrived_of_ne (by simp)
  have hnack : Nacked (h ++ [(.isrSent false, true)]) := nacked_concat.mpr (.inr rfl)
  refine ⟨he.stop, he.done, ?_, ?_, ?_, fun _ => he.done, fun _ hn => absurd hnack hn,
    fun hd => absurd he.done hd⟩
  · rw [he.tx]; exact hr.sent
  · rw [harrived, he.accessed, he.pData]; exact hr.accessed
  · rw [timesDone_concat, honce, he.done]; rfl

/-- The register is written back. -/
def State.commit (r : State × Stat) : State := { r.1 with stat := r.2 }

/-- `remain_data_cnt` of `i2c2_isr`. -/
def State.remain (s : State) : UInt8 := (s.msg.allDataNum - s.msg.currentNum).toUInt8

theorem isr_write (hmaster : x.opFlag &&& 0x02 = 0) (hmode : x.mode = .write)
    (h : At x flag cur s) :
    s.isr = State.commit (s.masterWrite s.stat s.remain) := by
  have hwk : s.msg.wkMode &&& 0x03 = 0x00 := by
    rw [h.wkMode]
    exact (wkMode_write hmaster hmode).1
  rw [State.isr, if_pos hwk]
  rfl

theorem At.answered (h : At x flag cur s) : At x flag cur (s.answered ack) := ⟨h.msg, h.accessed⟩

theorem Writing.nack (hmaster : x.opFlag &&& 0x02 = 0) (hmode : x.mode = .write)
    (hw : Writing x h s flag cur) : Ends s (s.answered false).isr := by
  rw [isr_write hmaster hmode hw.here.answered, State.masterWrite,
    if_pos ⟨hw.here.answered.ackCheck, rfl⟩]
  exact ⟨rfl, rfl, rfl, rfl, rfl⟩

/-- The register without `I2C2_SMBUS_STA`. -/
def State.quiet (s : State) : Stat := { s.stat with sta := false }

theorem masterWrite_ack (s : State) (remain : UInt8) :
    (s.answered true).masterWrite (s.answered true).stat remain =
      if s.msg.addrFlag &&& 0x10 ≠ 0 then
        (s.answered true).writeData (s.answered true).quiet remain
      else ((s.answered true).writeAddr, (s.answered true).quiet) := by
  rw [State.masterWrite, if_neg (fun hn => absurd hn.2 (by change ¬ true = false; decide))]
  rfl

theorem Writing.addr (hmaster : x.opFlag &&& 0x02 = 0) (hmode : x.mode = .write)
    (hw : Writing x h s flag cur) (hopen : flag &&& 0x10 = 0)
    (hroom : (fifoEmptyNum s.stat.intMode).toNat ≤ fifoDepth - s.tx.held.length) :
    ∃ flag', Writing x (h ++ [(.isrSent true, false)]) (s.answered true).isr flag' cur := by
  obtain ⟨flag', b, hflag', hput, haddr⟩ :=
    writeAddr_put hmaster hmode hw.here.answered.msg hw.valid hopen
  have hnot := hw.here.addressing hopen
  have hheld : s.tx.held.length < fifoDepth := by
    have := (fifoEmptyNum_toNat s.stat.intMode).1
    omega
  have hall : ((s.answered true).put b).tx.all = s.tx.all ++ [.byte b] := Outbox.all_put hheld
  rw [isr_write hmaster hmode hw.here.answered, masterWrite_ack, if_neg hnot, haddr]
  refine ⟨flag', ⟨hw.goesOn (by simp) ⟨?_, hw.here.accessed⟩ hflag' hw.le (fun _ => hw.first hopen)
    hw.live, ?_, hw.last, hw.pData, hw.address, ?_⟩⟩
  · change { s.msg with addrFlag := flag' } = _
    rw [hw.here.msg]
    rfl
  · change ((s.answered true).put b).tx.all ++ _ ++ _ = _
    rw [hall, ← hw.items, hput]
    simp
  · change _ ≤ ((s.answered true).put b).tx.all.length
    rw [hall, interrupts_concat, List.length_append]
    exact Nat.succ_le_succ hw.bounded

/-- `remain_data_cnt` is zero. -/
theorem Writing.stop (hmaster : x.opFlag &&& 0x02 = 0) (hmode : x.mode = .write)
    (hw : Writing x h s flag cur) (hall : flag &&& 0x10 ≠ 0) (hzero : s.remaining % 256 = 0) :
    Ends s (s.answered true).isr := by
  have hflag := hw.here.addressed hall
  have hremain : (s.answered true).remain = 0 := by
    rw [← UInt8.toNat_inj]
    exact (remain_toNat hw.here hw.le).2.trans hzero
  rw [isr_write hmaster hmode hw.here.answered, masterWrite_ack, if_pos hflag, State.writeData,
    if_pos hremain]
  exact ⟨rfl, rfl, rfl, rfl, rfl⟩

/-- The bytes behind those of a burst. -/
theorem data_add (hmode : x.mode = .write) {cur' : UInt32} {n : Nat}
    (hcur : cur'.toNat = cur.toNat + n) (hle : cur.toNat + n ≤ x.count.toNat) :
    x.data cur = (x.userBuf.read cur.toNat n).map .byte ++ x.data cur' := by
  have hsplit : x.count.toNat - cur.toNat = n + (x.count.toNat - cur'.toNat) := by omega
  rw [Call.data, Call.data, hmode]
  change (x.userBuf.read _ _).map _ = _ ++ (x.userBuf.read _ _).map _
  rw [hsplit, Mem.read_add, List.map_append, hcur]

theorem toPut_nil (hall : flag &&& 0x10 ≠ 0) : x.toPut flag = [] := by
  rw [Call.toPut, if_pos hall]

/-- A burst takes what remains and has room in the FIFO. -/
theorem writeData_burst (s : State) (stat : Stat) {remain : UInt8} (hremain : remain ≠ 0) :
    ∃ num : Nat,
    num ≤ remain.toNat ∧ num ≤ (fifoEmptyNum stat.intMode).toNat ∧ 0 < num ∧
      s.writeData stat remain = ((State.putData num s remain).1,
        if (State.putData num s remain).2 < fifoEmptyNum stat.intMode then
          { stat with sta := false, intMode := 0 }
        else stat) := by
  have hpos : 0 < remain.toNat := UInt8.pos_iff_ne_zero.mpr hremain
  have hempty := (fifoEmptyNum_toNat stat.intMode).1
  refine ⟨(if remain < fifoEmptyNum stat.intMode then remain
    else fifoEmptyNum stat.intMode).toNat, ?_, ?_, ?_, by rw [State.writeData, if_neg hremain]⟩
  all_goals
    split
    next hlt =>
      have hnat := UInt8.lt_iff_toNat_lt.mp hlt
      omega
    next hlt =>
      have hnat := mt UInt8.lt_iff_toNat_lt.mpr hlt
      omega

theorem Writing.burst (hmaster : x.opFlag &&& 0x02 = 0) (hmode : x.mode = .write)
    (hw : Writing x h s flag cur) (hall : flag &&& 0x10 ≠ 0) (hmore : s.remaining % 256 ≠ 0)
    (hroom : (fifoEmptyNum s.stat.intMode).toNat ≤ fifoDepth - s.tx.held.length) :
    ∃ cur', Writing x (h ++ [(.isrSent true, false)]) (s.answered true).isr flag cur' := by
  have hflag := hw.here.addressed hall
  obtain ⟨hremaining, hremain⟩ := remain_toNat hw.here hw.le
  obtain ⟨hempty, -⟩ := fifoEmptyNum_toNat s.stat.intMode
  have hne : (s.answered true).remain ≠ 0 := by
    rintro hzero
    rw [← UInt8.toNat_inj] at hzero
    exact hmore (hremain.symm.trans hzero)
  obtain ⟨num, hle, hle', hpos, hdata⟩ :=
    writeData_burst (s.answered true) (s.answered true).quiet hne
  change num ≤ (s.msg.allDataNum - s.msg.currentNum).toUInt8.toNat at hle
  change num ≤ (fifoEmptyNum s.stat.intMode).toNat at hle'
  obtain ⟨t, ht, ⟨cur', hcur', hat⟩, htx, hpData, haddress⟩ :=
    putData_spec (s := s.answered true) (n := num) hw.here.answered (by omega)
      (show s.tx.held.length + num ≤ fifoDepth by omega) (s.answered true).remain
  rw [isr_write hmaster hmode hw.here.answered, masterWrite_ack, if_pos hflag, hdata, ht]
  refine ⟨cur', ⟨hw.goesOn (by simp) ⟨hat.msg, hat.accessed⟩ hw.valid (by omega)
    (fun hopen => absurd hopen hall) ?_, ?_, fun hlast => ?_, hpData.trans hw.pData, ?_, ?_⟩⟩
  · change Stat.stop (if _ then _ else _) = false
    split <;> exact hw.live
  · change t.tx.all ++ _ ++ _ = _
    rw [htx, ← hw.items, data_add hmode hcur' (by omega), toPut_nil hall, List.append_nil,
      List.append_nil, List.append_assoc]
    change _ ++ ((s.pData.read _ _).map _ ++ _) = _
    rw [hw.pData]
    rfl
  · have hnone : (s.answered true).remain - UInt8.ofNat num < fifoEmptyNum s.stat.intMode := by
      have hnum : UInt8.ofNat num = (s.answered true).remain := by
        rw [← UInt8.toNat_inj, UInt8.toNat_ofNat']
        change _ = (s.msg.allDataNum - s.msg.currentNum).toUInt8.toNat
        omega
      rw [hnum, UInt8.sub_self, UInt8.lt_iff_toNat_lt]
      exact Nat.lt_of_lt_of_le (Nat.zero_lt_succ _) hempty
    exact congrArg Stat.intMode (if_pos hnone)
  · change t.address &&& 0x01 = 0
    rw [haddress]
    exact hw.address
  · change _ ≤ t.tx.all.length
    have := hw.bounded
    rw [htx, interrupts_concat, List.length_append, List.length_map, Mem.length_read]
    change _ ≤ s.tx.all.length + _
    change interrupts h + 1 + 1 ≤ _
    omega

theorem Right.complete (hr : Right x h s) (honce : timesDone h = 0)
    (he : Ends s t) (haccessed : s.accessed = List.range x.count.toNat)
    (hitems : match x.mode with
      | .write => s.tx.gone = x.items
      | .read => s.tx.all = x.items) : Finished x (h ++ [(.isrSent true, true)]) t := by
  have harrived : arrived (h ++ [(.isrSent true, true)]) = arrived h := arrived_of_ne (by simp)
  refine ⟨he.stop, he.done, ?_, ?_, ?_, fun _ => he.done, fun _ _ => ⟨?_, ?_⟩,
    fun hd => absurd he.done hd⟩
  · rw [he.tx]; exact hr.sent
  · rw [harrived, he.accessed, he.pData]; exact hr.accessed
  · rw [timesDone_concat, honce, he.done]; rfl
  · rw [he.accessed]; exact haccessed
  · rw [he.tx]; exact hitems

theorem Writing.complete (hmaster : x.opFlag &&& 0x02 = 0) (hmode : x.mode = .write)
    (hw : Writing x h s flag cur) (hall : flag &&& 0x10 ≠ 0) (hnone : s.remaining = 0)
    (hroom : (fifoEmptyNum s.stat.intMode).toNat ≤ fifoDepth - s.tx.held.length) :
    Finished x (h ++ [(.isrSent true, true)]) (s.answered true).isr := by
  have hcur : cur.toNat = x.count.toNat := by
    have := (remain_toNat hw.here hw.le).1
    have := hw.le
    omega
  have hheld : s.tx.held = [] := by
    rw [hw.last hcur] at hroom
    change 16 ≤ 16 - s.tx.held.length at hroom
    exact List.length_eq_zero_iff.mp (by omega)
  refine (hw.right hmode).complete hw.once
    (hw.stop hmaster hmode hall (by rw [hnone])) (by rw [hw.here.accessed, hcur]) ?_
  rw [hmode]
  change s.tx.gone = x.items
  rw [← hw.items, toPut_nil hall, Outbox.all, hheld, Call.data, hmode, hcur, Nat.sub_self]
  simp

end Write

section Run

variable {x : Call} {h : History} {s t : State} {e : Event} {o : Bool}

/-- The interrupts that can come, with what they do. -/
theorem step_isrSent {ack : Bool} (hs : s.step (.isrSent ack) = some (t, o)) :
    s.stat.stop = false ∧ s.receives = false ∧
      (fifoEmptyNum s.stat.intMode).toNat ≤ fifoDepth - s.tx.held.length ∧
      t = (s.answered ack).isr ∧ o = decide (t.msg.transDone = 1) := by
  rw [State.step] at hs
  split at hs
  next hguard =>
    obtain ⟨rfl, rfl⟩ := Prod.mk.inj (Option.some.inj hs)
    exact ⟨hguard.1, hguard.2.1, hguard.2.2, rfl, rfl⟩
  next => cases hs

theorem step_send (hs : s.step .send = some (t, o)) :
    ∃ tx, s.tx.next = some tx ∧ t = { s with tx } ∧ o = false := by
  rw [State.step, Option.map_eq_some_iff] at hs
  obtain ⟨tx, htx, heq⟩ := hs
  obtain ⟨rfl, rfl⟩ := Prod.mk.inj heq
  exact ⟨tx, htx, rfl, rfl⟩

theorem step_receives (hs : s.step e = some (t, o)) (he : e = .isrReceived ∨ ∃ b, e = .receive b) :
    s.stat.stop = false ∧ s.receives = true := by
  rcases he with rfl | ⟨b, rfl⟩ <;> rw [State.step] at hs <;> split at hs
  next hguard => exact ⟨hguard.1, hguard.2.1⟩
  next => cases hs
  next hguard => exact ⟨hguard.1, hguard.2.1⟩
  next => cases hs

theorem Finished.stopped (hf : Finished x h s) (hlive : s.stat.stop = false) : False :=
  Bool.eq_false_iff.mp hlive hf.stop

/-- Behind the stop the FIFO may still be emptied. -/
theorem Finished.step (hf : Finished x h s) (hs : s.step e = some (t, o)) :
    Finished x (h ++ [(e, o)]) t := by
  cases e with
  | send =>
    obtain ⟨tx, htx, rfl, rfl⟩ := step_send hs
    have hall := Outbox.all_next htx
    have harrived : arrived (h ++ [(.send, false)]) = arrived h := arrived_of_ne (by simp)
    have hnacked : Nacked (h ++ [(.send, false)]) ↔ Nacked h := by
      rw [nacked_concat]
      simp
    refine ⟨hf.stop, hf.done, ?_, ?_, ?_, ?_, ?_, fun hd => absurd hf.done hd⟩
    · rw [hall]; exact hf.right.sent
    · rw [harrived]; exact hf.right.accessed
    · rw [timesDone_concat]; exact hf.right.once
    · rw [hnacked]; exact hf.right.nacked
    · rw [hnacked]
      intro hd hn
      obtain ⟨haccessed, hitems⟩ := hf.right.done hd hn
      refine ⟨haccessed, ?_⟩
      have hsent := hf.right.sent
      cases hmode : x.mode with
      | write =>
        rw [hmode] at hitems
        have hle := hsent.length_le
        rw [← hitems, Outbox.all, List.length_append] at hle
        have hheld : s.tx.held = [] := List.length_eq_zero_iff.mp (by omega)
        rw [Outbox.next, hheld] at htx
        cases htx
      | read =>
        rw [hmode] at hitems
        exact hall.trans hitems
  | receive b => exact (hf.stopped (step_receives hs (.inr ⟨b, rfl⟩)).1).elim
  | isrSent ack => exact (hf.stopped (step_isrSent hs).1).elim
  | isrReceived => exact (hf.stopped (step_receives hs (.inl rfl)).1).elim

theorem Finished.kept (hf : Finished x h s) (hs : s.step e = some (t, o)) : Kept s e := by
  cases e with
  | send => trivial
  | receive b => trivial
  | isrReceived => exact (hf.stopped (step_receives hs (.inl rfl)).1).elim
  | isrSent ack => exact (hf.stopped (step_isrSent hs).1).elim

/-- The invariant of a write. -/
def WriteInv (x : Call) (h : History) (s : State) : Prop :=
  (∃ flag cur, Writing x h s flag cur) ∨ Finished x h s

theorem WriteInv.right (hmode : x.mode = .write) (hi : WriteInv x h s) : Right x h s := by
  rcases hi with ⟨flag, cur, hw⟩ | hf
  · exact hw.right hmode
  · exact hf.right

theorem Writing.mode {flag : UInt8} {cur : UInt32} (hmaster : x.opFlag &&& 0x02 = 0)
    (hmode : x.mode = .write) (hw : Writing x h s flag cur) : s.msg.wkMode &&& rwBit = 0 := by
  rw [hw.here.wkMode]
  exact (wkMode_write hmaster hmode).2

theorem Writing.notDone {flag : UInt8} {cur : UInt32} (hw : Writing x h s flag cur) :
    decide (s.msg.transDone = 1) = false := decide_eq_false hw.transDone

/-- What an interrupt does that is acknowledged. -/
theorem Writing.acked_step {flag : UInt8} {cur : UInt32} (hmaster : x.opFlag &&& 0x02 = 0)
    (hmode : x.mode = .write) (hw : Writing x h s flag cur)
    (hs : s.step (.isrSent true) = some (t, o)) :
    (∃ flag' cur', o = false ∧ Writing x (h ++ [(.isrSent true, o)]) t flag' cur') ∨
      (flag &&& 0x10 ≠ 0 ∧ s.remaining % 256 = 0 ∧ o = true ∧ Ends s t) := by
  obtain ⟨-, -, hroom, rfl, rfl⟩ := step_isrSent hs
  by_cases hopen : flag &&& 0x10 = 0
  · obtain ⟨flag', hw'⟩ := hw.addr hmaster hmode hopen hroom
    rw [hw'.notDone]
    exact .inl ⟨flag', cur, rfl, hw'⟩
  · by_cases hzero : s.remaining % 256 = 0
    · have hend := hw.stop hmaster hmode hopen hzero
      exact .inr ⟨hopen, hzero, decide_eq_true hend.done, hend⟩
    · obtain ⟨cur', hw'⟩ := hw.burst hmaster hmode hopen hzero hroom
      rw [hw'.notDone]
      exact .inl ⟨flag, cur', rfl, hw'⟩

theorem WriteInv.step (hmaster : x.opFlag &&& 0x02 = 0) (hmode : x.mode = .write)
    (hi : WriteInv x h s) (hk : Kept s e) (hs : s.step e = some (t, o)) :
    WriteInv x (h ++ [(e, o)]) t := by
  rcases hi with ⟨flag, cur, hw⟩ | hf
  · cases e with
    | send =>
      obtain ⟨tx, htx, rfl, rfl⟩ := step_send hs
      exact .inl ⟨flag, cur, hw.send htx⟩
    | receive b =>
      exact (hw.sends (step_receives hs (.inr ⟨b, rfl⟩)).2).elim
    | isrReceived => exact (hw.sends (step_receives hs (.inl rfl)).2).elim
    | isrSent ack =>
      cases ack with
      | false =>
        obtain ⟨-, -, -, rfl, rfl⟩ := step_isrSent hs
        have hend := hw.nack hmaster hmode
        rw [decide_eq_true hend.done]
        exact .inr ((hw.right hmode).nack hw.once hend)
      | true =>
        rcases hw.acked_step hmaster hmode hs with ⟨flag', cur', -, hw'⟩ | ⟨hall, hzero, rfl, hend⟩
        · exact .inl ⟨flag', cur', hw'⟩
        · have hwrite := hw.mode hmaster hmode
          have hflag := hw.here.addressed hall
          obtain ⟨-, -, hroom, rfl, -⟩ := step_isrSent hs
          exact .inr (hw.complete hmaster hmode hall (hk hwrite hflag hzero) hroom)
  · exact .inr (hf.step hs)

/-- An interrupt that ends a write too early breaks the law. -/
theorem WriteInv.kept (hmaster : x.opFlag &&& 0x02 = 0) (hmode : x.mode = .write)
    (hi : WriteInv x h s) (hs : s.step e = some (t, o)) (hright : Right x (h ++ [(e, o)]) t) :
    Kept s e := by
  rcases hi with ⟨flag, cur, hw⟩ | hf
  · have hwrite := hw.mode hmaster hmode
    cases e with
    | send => trivial
    | receive b => trivial
    | isrReceived => exact (hw.sends (step_receives hs (.inl rfl)).2).elim
    | isrSent ack =>
      cases ack with
      | false => exact fun hread => absurd hwrite hread
      | true =>
        intro _ hflag hzero
        rw [hw.here.msg] at hflag
        have hend := hw.stop hmaster hmode hflag hzero
        obtain ⟨-, -, -, rfl, -⟩ := step_isrSent hs
        have hacked : ¬ Nacked (h ++ [(.isrSent true, o)]) := not_nacked_concat hw.acked (by simp)
        have haccessed := (hright.done hend.done hacked).1
        rw [hend.accessed, hw.here.accessed] at haccessed
        have hcur := congrArg List.length haccessed
        rw [List.length_range, List.length_range] at hcur
        rw [(remain_toNat hw.here hw.le).1, hcur, Nat.sub_self]
  · exact hf.kept hs

end Run

end BdkRtt.Driver.I2c2
