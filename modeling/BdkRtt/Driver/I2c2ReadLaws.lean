import BdkRtt.Driver.I2c2Laws

namespace BdkRtt.Driver.I2c2

open Lib

section Read

variable {x : Call} {h : History} {s t : State} {flag : UInt8} {cur : UInt32} {ack : Bool}

theorem wkMode_read (hmaster : x.opFlag &&& 0x02 = 0) (hmode : x.mode = .read) :
    ¬ x.wkMode &&& 0x03 = 0x00 ∧ x.wkMode &&& rwBit ≠ 0 := by
  rw [wkMode_eq hmaster, hmode]
  cases x.tenBit <;> cases x.inner <;> decide

structure Reading (x : Call) (h : History) (s : State) (flag : UInt8) (cur : UInt32) : Prop
    extends Live x h s flag cur where
  items : s.tx.all ++ x.toPut flag = x.items
  address : s.address &&& 0x01 ≠ 0 ↔ flag &&& 0x10 ≠ 0
  room : (dataNum s.stat.intMode).toNat ≤ x.count.toNat - cur.toNat
  rx : s.rx = (arrived h).drop cur.toNat
  got : cur.toNat ≤ (arrived h).length
  pData : s.pData = x.userBuf.write 0 ((arrived h).take cur.toNat)
  bounded : interrupts h + 1 ≤ s.tx.all.length + cur.toNat + if s.receives then 1 else 0

theorem Reading.enabled (hr : Reading x h s flag cur) : ∃ e, (s.step e).isSome := by
  cases hreceives : s.receives with
  | true =>
    by_cases hlen : s.rx.length < fifoDepth
    · exact ⟨.receive 0, by rw [State.step, if_pos ⟨hr.live, hreceives, hlen⟩]; rfl⟩
    · have hfill : (dataNum s.stat.intMode).toNat ≤ s.rx.length := by
        have hle := (dataNum_toNat s.stat.intMode).2
        unfold fifoDepth at hlen
        omega
      exact ⟨.isrReceived, by rw [State.step, if_pos ⟨hr.live, hreceives, hfill⟩]; rfl⟩
  | false => exact enabled_of_sends hr.live hreceives

theorem Reading.right (hr : Reading x h s flag cur) (hmode : x.mode = .read) : Right x h s where
  sent := by
    rw [← hr.items]
    exact List.prefix_append ..
  accessed := ⟨cur.toNat, hr.le, hr.here.accessed, by rw [hmode]; exact ⟨hr.got, hr.pData⟩⟩
  once := by rw [if_neg hr.transDone, hr.once]
  nacked hn := absurd hn hr.acked
  done hd := absurd hd hr.transDone
  ends _ := by
    refine ⟨?_, hr.enabled⟩
    have hlen := congrArg List.length hr.items
    rw [List.length_append] at hlen
    have hbound := hr.bounded
    have hle := hr.le
    split at hbound <;> omega

theorem Reading.send (hr : Reading x h s flag cur) {tx : Outbox Item} (hs : s.tx.next = some tx) :
    Reading x (h ++ [(.send, false)]) { s with tx } flag cur := by
  have harrived : arrived (h ++ [(.send, false)]) = arrived h := arrived_of_ne (by simp)
  refine ⟨hr.goesOn (by simp) ⟨hr.here.msg, hr.here.accessed⟩ hr.valid hr.le hr.first hr.live, ?_,
    hr.address, hr.room, ?_, ?_, ?_, ?_⟩
  · rw [Outbox.all_next hs]; exact hr.items
  · rw [harrived]; exact hr.rx
  · rw [harrived]; exact hr.got
  · rw [harrived]; exact hr.pData
  · rw [interrupts_concat, Outbox.all_next hs]; exact hr.bounded

theorem Reading.receive (hr : Reading x h s flag cur) (b : UInt8) :
    Reading x (h ++ [(.receive b, false)]) { s with rx := s.rx ++ [b] } flag cur := by
  have harrived : arrived (h ++ [(.receive b, false)]) = arrived h ++ [b] := arrived_concat ..
  refine ⟨hr.goesOn (by simp) ⟨hr.here.msg, hr.here.accessed⟩ hr.valid hr.le hr.first hr.live,
    hr.items, hr.address, hr.room, ?_, ?_, ?_, ?_⟩
  · rw [harrived, List.drop_append_of_le_length hr.got, ← hr.rx]
  · rw [harrived, List.length_append]
    exact Nat.le_add_right_of_le hr.got
  · rw [harrived, List.take_append_of_le_length hr.got]
    exact hr.pData
  · rw [interrupts_concat]; exact hr.bounded

theorem isr_read (hmaster : x.opFlag &&& 0x02 = 0) (hmode : x.mode = .read) (h : At x flag cur s) :
    s.isr = State.commit (s.masterRead s.stat s.remain) := by
  have hwk : ¬ s.msg.wkMode &&& 0x03 = 0x00 := by
    rw [h.wkMode]
    exact (wkMode_read hmaster hmode).1
  rw [State.isr, if_neg hwk]
  rfl

theorem Reading.nack (hmaster : x.opFlag &&& 0x02 = 0) (hmode : x.mode = .read)
    (hr : Reading x h s flag cur) (hsta : s.stat.sta = true) : Ends s (s.answered false).isr := by
  rw [isr_read hmaster hmode hr.here.answered, State.masterRead,
    if_pos ⟨hsta, hr.here.answered.ackCheck, rfl⟩]
  exact ⟨rfl, rfl, rfl, rfl, rfl⟩

/-- An interrupt that goes on: a missing acknowledgement is noticed only behind a start. -/
theorem masterRead_ack (s : State) (ack : Bool) (remain : UInt8)
    (hgo : s.stat.sta = true → ack = true) :
    (s.answered ack).masterRead (s.answered ack).stat remain =
      if s.msg.addrFlag &&& 0x10 ≠ 0 then
        if s.stat.sta then (s.answered ack, { (s.answered ack).quiet with ack := true })
        else (s.answered ack).readData (s.answered ack).quiet remain
      else (s.answered ack).readAddr (s.answered ack).quiet := by
  have hnot : ¬ ((s.answered ack).stat.sta = true ∧ (s.answered ack).msg.ackCheck ≠ 0 ∧
      ack = false) := by
    rintro ⟨hsta, -, rfl⟩
    exact Bool.false_ne_true (hgo hsta)
  exact if_neg hnot

theorem readItem_odd {b : UInt8} (h : .start b = x.readItem) : b &&& 0x01 ≠ 0 := by
  rw [Call.readItem, Item.start.injEq] at h
  have hten : (0xf1 : UInt8) &&& 0x01 ≠ 0 := by decide
  rw [h]
  cases x.tenBit
  · exact (low_bit _).2.2
  · exact hten

/-- The interrupt for a byte of the address, behind which another one is written. -/
theorem Reading.addr (hmaster : x.opFlag &&& 0x02 = 0) (hmode : x.mode = .read) (ack : Bool)
    (hr : Reading x h s flag cur) (hopen : flag &&& 0x10 = 0)
    (hgo : s.stat.sta = true → ack = true)
    (hroom : (fifoEmptyNum s.stat.intMode).toNat ≤ fifoDepth - s.tx.held.length) :
    ∃ flag', At x flag' cur (s.answered ack).isr ∧ (ack = true →
      Reading x (h ++ [(.isrSent ack, false)]) (s.answered ack).isr flag' cur) := by
  obtain ⟨flag', item, hflag', hput, haddr, hstart, hitem⟩ := readAddr_put
    (s.answered ack).stat hmaster hmode (At.answered (s := s) hr.here).msg hr.valid hopen
  have hnot := hr.here.addressing hopen
  have hheld : s.tx.held.length < fifoDepth := by
    have := (fifoEmptyNum_toNat s.stat.intMode).1
    omega
  have heven : s.address &&& 0x01 = 0 := by
    by_contra hodd
    exact hr.address.mp hodd hopen
  have hreceives : s.receives = false := by rw [State.receives, heven]; rfl
  have hbound := hr.bounded
  rw [hreceives] at hbound
  rw [isr_read hmaster hmode hr.here.answered, masterRead_ack s _ _ hgo, if_neg hnot, State.quiet,
    haddr]
  have hat : At x flag' cur (State.commit (((s.answered ack).putItem item).setFlag flag',
      { (s.answered ack).stat with sta := item.isStart })) := by
    refine ⟨?_, by cases item <;> exact hr.here.accessed⟩
    have hmsg : { s.msg with addrFlag := flag' } = x.msg flag' cur := by rw [hr.here.msg]; rfl
    cases item <;> exact hmsg
  have hall : (State.commit (((s.answered ack).putItem item).setFlag flag',
      { (s.answered ack).stat with sta := item.isStart })).tx.all = s.tx.all ++ [item] := by
    cases item <;> exact Outbox.all_put hheld
  refine ⟨flag', hat, ?_⟩
  rintro rfl
  have harrived : arrived (h ++ [(.isrSent true, false)]) = arrived h := arrived_of_ne (by simp)
  refine ⟨hr.goesOn (by simp) hat hflag' hr.le (fun _ => hr.first hopen) hr.live, ?_, ?_,
    hr.room, ?_, ?_, ?_, ?_⟩
  · rw [hall, ← hr.items, hput]
    simp
  · cases item with
    | start b => exact ⟨fun _ => of_decide_eq_true hstart.symm, fun _ => readItem_odd (hitem rfl)⟩
    | byte b =>
      exact ⟨fun hodd => absurd heven hodd,
        fun hset => absurd hset (of_decide_eq_false hstart.symm)⟩
  · rw [harrived]; cases item <;> exact hr.rx
  · rw [harrived]; exact hr.got
  · rw [harrived]; cases item <;> exact hr.pData
  · rw [hall, interrupts_concat, List.length_append]
    refine Nat.le_trans ?_ (Nat.le_add_right ..)
    rw [List.length_singleton, Nat.add_right_comm s.tx.all.length]
    exact Nat.succ_le_succ hbound

/-- The interrupt for the address with the bit for a read. -/
theorem Reading.start (hmaster : x.opFlag &&& 0x02 = 0) (hmode : x.mode = .read)
    (hr : Reading x h s flag cur) (hall : flag &&& 0x10 ≠ 0) (hreceives : s.receives = false) :
    Reading x (h ++ [(.isrSent true, false)]) (s.answered true).isr flag cur := by
  have hodd := hr.address.mpr hall
  have hsta : s.stat.sta = true := by
    rw [State.receives, decide_eq_true hodd] at hreceives
    simpa using hreceives
  have hflag := hr.here.addressed hall
  have hbound := hr.bounded
  rw [hreceives] at hbound
  have harrived : arrived (h ++ [(.isrSent true, false)]) = arrived h := arrived_of_ne (by simp)
  rw [isr_read hmaster hmode hr.here.answered, masterRead_ack s _ _ (fun _ => rfl), if_pos hflag,
    if_pos hsta]
  refine ⟨hr.goesOn (by simp) ⟨hr.here.msg, hr.here.accessed⟩ hr.valid hr.le hr.first hr.live,
    hr.items, hr.address, hr.room, ?_, ?_, ?_, ?_⟩
  · rw [harrived]; exact hr.rx
  · rw [harrived]; exact hr.got
  · rw [harrived]; exact hr.pData
  · have hnow : (decide (s.address &&& 0x01 ≠ 0) && !false) = true := by
      rw [decide_eq_true hodd]
      rfl
    change interrupts _ + 1 ≤ s.tx.all.length + cur.toNat +
      if (decide (s.address &&& 0x01 ≠ 0) && !false) then 1 else 0
    rw [interrupts_concat, hnow]
    exact Nat.succ_le_succ hbound

/-- What comes behind the loop of a read. -/
def State.readEnd (s : State) (stat : Stat) (num remain : UInt8) : State × Stat :=
  if remain = 0 then (s.transDone, { stat with ack := false, sta := false, stop := true })
  else if remain < num then (s, { stat with ack := true, intMode := 3 })
  else (s, { stat with ack := true })

theorem Reading.took (hmaster : x.opFlag &&& 0x02 = 0) (hmode : x.mode = .read)
    (hr : Reading x h s flag cur) (hreceives : s.receives = true)
    (hfill : (dataNum s.stat.intMode).toNat ≤ s.rx.length) :
    ∃ t, Took x flag cur (dataNum s.stat.intMode).toNat s t ∧ s.isr = State.commit
      (t.readEnd s.quiet (dataNum s.stat.intMode) (s.remain - dataNum s.stat.intMode)) := by
  obtain ⟨hodd, hsta⟩ := (Bool.and_eq_true _ _).mp hreceives
  rw [Bool.not_eq_true'] at hsta
  have hflag := hr.here.addressed (hr.address.mp (of_decide_eq_true hodd))
  have hroom := hr.room
  have hle := hr.le
  obtain ⟨t, ht, htook⟩ := takeData_spec hr.here (by omega) hfill s.remain
  refine ⟨t, htook, ?_⟩
  have hack := masterRead_ack s s.stat.ack s.remain fun hset =>
    absurd (hsta.symm.trans hset) Bool.false_ne_true
  rw [if_pos hflag, hsta, if_neg Bool.false_ne_true] at hack
  have hisr : s.isr = State.commit (s.readData s.quiet s.remain) :=
    (isr_read hmaster hmode hr.here).trans (congrArg State.commit hack)
  have hnum : UInt8.ofNat (dataNum s.stat.intMode).toNat = dataNum s.stat.intMode :=
    UInt8.ofNat_toNat
  rw [hnum] at ht
  rw [hisr, State.readData]
  change State.commit ((State.takeData (dataNum s.stat.intMode).toNat s s.remain).1.readEnd _ _
    (State.takeData (dataNum s.stat.intMode).toNat s s.remain).2) = _
  rw [ht]
  rfl

/-- Whether the interrupt ends the transfer. -/
theorem remain_sub_eq_zero (h : At x flag cur s) (hle : cur.toNat ≤ x.count.toNat) {num : UInt8} :
    s.remain - num = 0 ↔ s.remaining % 256 = num.toNat := by
  have hremain := (remain_toNat h hle).2
  change s.remain.toNat = _ at hremain
  have hlt := s.remain.toNat_lt
  have hlt' := num.toNat_lt
  rw [← hremain, ← UInt8.toNat_inj, UInt8.toNat_sub, UInt8.toNat_zero]
  omega

/-- What the loop of a read stores comes behind what has been stored. -/
theorem Reading.stored (hr : Reading x h s flag cur) {n : Nat} {cur' : UInt32}
    (hcur : cur'.toNat = cur.toNat + n) (hfill : n ≤ s.rx.length) (ht : Took x flag cur n s t) :
    t.rx = (arrived h).drop cur'.toNat ∧ cur'.toNat ≤ (arrived h).length ∧
      t.pData = x.userBuf.write 0 ((arrived h).take cur'.toNat) := by
  have hlen : s.rx.length = (arrived h).length - cur.toNat := by rw [hr.rx, List.length_drop]
  have hgot := hr.got
  refine ⟨?_, by omega, ?_⟩
  · rw [ht.rx, hr.rx, List.drop_drop, hcur]
  · have htake : ((arrived h).take cur.toNat).length = cur.toNat := List.length_take_of_le hgot
    rw [ht.pData, hr.pData, hr.rx, hcur, List.take_add, ← Mem.write_append, htake, Nat.zero_add]

/-- A burst behind which bytes remain, with the next one that is announced. -/
theorem readEnd_more (t : State) (stat : Stat) {remain : UInt8} (hne : remain ≠ 0) : ∃ stat' : Stat,
    t.readEnd stat (dataNum stat.intMode) remain = (t, stat') ∧ stat'.stop = stat.stop ∧
      stat'.sta = stat.sta ∧ (dataNum stat'.intMode).toNat ≤ remain.toNat := by
  have hpos : 0 < remain.toNat := UInt8.pos_iff_ne_zero.mpr hne
  rw [State.readEnd, if_neg hne]
  split
  next => exact ⟨_, rfl, rfl, rfl, hpos⟩
  next hlt =>
    rw [UInt8.lt_iff_toNat_lt] at hlt
    exact ⟨_, rfl, rfl, rfl, Nat.le_of_not_lt hlt⟩

theorem Reading.more (hmaster : x.opFlag &&& 0x02 = 0) (hmode : x.mode = .read)
    (hr : Reading x h s flag cur) (hreceives : s.receives = true)
    (hfill : (dataNum s.stat.intMode).toNat ≤ s.rx.length)
    (hmore : s.remaining % 256 ≠ (dataNum s.stat.intMode).toNat) :
    ∃ cur', Reading x (h ++ [(.isrReceived, false)]) s.isr flag cur' := by
  obtain ⟨t, htook, hisr⟩ := hr.took hmaster hmode hreceives hfill
  obtain ⟨cur', hcur, hat⟩ := htook.going
  obtain ⟨hrx, hgot, hpData⟩ := hr.stored hcur hfill htook
  obtain ⟨hodd, -⟩ := (Bool.and_eq_true _ _).mp hreceives
  have hroom := hr.room
  have hle := hr.le
  have hpos := dataNum_toNat s.stat.intMode
  have hbound := hr.bounded
  rw [hreceives] at hbound
  obtain ⟨hremaining, hremain⟩ := remain_toNat hr.here hle
  change s.remain.toNat = _ at hremain
  have hzero : s.remain - dataNum s.stat.intMode ≠ 0 := fun hzero =>
    hmore ((remain_sub_eq_zero hr.here hle).mp hzero)
  have hleft : (s.remain - dataNum s.stat.intMode).toNat ≤ x.count.toNat - cur'.toNat := by
    rw [UInt8.toNat_sub, hremain]
    omega
  obtain ⟨stat, hend, hstop, hsta, hnext⟩ := readEnd_more t s.quiet hzero
  have hisr' : s.isr = { t with stat } := hisr.trans (congrArg State.commit hend)
  have hall : flag &&& 0x10 ≠ 0 := hr.address.mp (of_decide_eq_true hodd)
  have hreceives' : State.receives { t with stat } = true := by
    rw [State.receives, hsta, htook.address, hodd]
    rfl
  have harrived : arrived (h ++ [(.isrReceived, false)]) = arrived h := arrived_of_ne (by simp)
  rw [hisr']
  refine ⟨cur', ⟨hr.goesOn (by simp) ⟨hat.msg, hat.accessed⟩ hr.valid (by omega)
    (fun hopen => absurd hopen hall) (hstop.trans hr.live), ?_, ?_, Nat.le_trans hnext hleft, ?_,
    ?_, ?_, ?_⟩⟩
  · rw [htook.tx]; exact hr.items
  · rw [htook.address]; exact hr.address
  · rw [harrived]; exact hrx
  · rw [harrived]; exact hgot
  · rw [harrived]; exact hpData
  · rw [interrupts_concat, hreceives', htook.tx, hcur]
    change interrupts h + 1 + 1 ≤ _ + _ + 1
    change interrupts h + 1 ≤ _ + _ + 1 at hbound
    omega

/-- The burst that `remain_data_cnt` takes for the last one. -/
theorem Reading.final (hmaster : x.opFlag &&& 0x02 = 0) (hmode : x.mode = .read)
    (hr : Reading x h s flag cur) (hreceives : s.receives = true)
    (hfill : (dataNum s.stat.intMode).toNat ≤ s.rx.length)
    (hlast : s.remaining % 256 = (dataNum s.stat.intMode).toNat) :
    s.isr.msg.transDone = 1 ∧
      s.isr.accessed = List.range (cur.toNat + (dataNum s.stat.intMode).toNat) ∧
      (s.remaining = (dataNum s.stat.intMode).toNat →
        Finished x (h ++ [(.isrReceived, true)]) s.isr) := by
  obtain ⟨t, htook, hisr⟩ := hr.took hmaster hmode hreceives hfill
  obtain ⟨cur', hcur, hat⟩ := htook.going
  obtain ⟨hrx, hgot, hpData⟩ := hr.stored hcur hfill htook
  obtain ⟨hodd, -⟩ := (Bool.and_eq_true _ _).mp hreceives
  have hroom := hr.room
  have hle := hr.le
  have hall : flag &&& 0x10 ≠ 0 := hr.address.mp (of_decide_eq_true hodd)
  have hremaining := (remain_toNat hr.here hle).1
  have harrived : arrived (h ++ [(.isrReceived, true)]) = arrived h := arrived_of_ne (by simp)
  rw [State.readEnd, if_pos ((remain_sub_eq_zero hr.here hle).mpr hlast)] at hisr
  rw [hisr, ← hcur]
  refine ⟨rfl, hat.accessed, fun hrest => ⟨rfl, rfl, ?_, ?_, ?_, fun _ => rfl, fun _ _ => ⟨?_, ?_⟩,
    fun hd => absurd rfl hd⟩⟩
  · change t.tx.all <+: x.items
    rw [htook.tx, ← hr.items]
    exact List.prefix_append ..
  · refine ⟨cur'.toNat, by omega, hat.accessed, ?_⟩
    rw [hmode, harrived]
    exact ⟨hgot, hpData⟩
  · rw [timesDone_concat, hr.once]; rfl
  · refine hat.accessed.trans (congrArg List.range ?_)
    omega
  · rw [hmode]
    change t.tx.all = x.items
    rw [htook.tx, ← hr.items, toPut_nil hall, List.append_nil]

end Read

section Run

variable {x : Call} {h : History} {s t : State} {e : Event} {o : Bool} {stat : Stat}

/-- The invariant of a read. -/
def ReadInv (x : Call) (h : History) (s : State) : Prop :=
  (∃ flag cur, Reading x h s flag cur) ∨ Finished x h s

theorem ReadInv.right (hmode : x.mode = .read) (hi : ReadInv x h s) : Right x h s := by
  rcases hi with ⟨flag, cur, hr⟩ | hf
  · exact hr.right hmode
  · exact hf.right

theorem step_receive {b : UInt8} (hs : s.step (.receive b) = some (t, o)) :
    t = { s with rx := s.rx ++ [b] } ∧ o = false := by
  rw [State.step] at hs
  split at hs
  next =>
    obtain ⟨rfl, rfl⟩ := Prod.mk.inj (Option.some.inj hs)
    exact ⟨rfl, rfl⟩
  next => cases hs

theorem step_isrReceived (hs : s.step .isrReceived = some (t, o)) :
    s.receives = true ∧ (dataNum s.stat.intMode).toNat ≤ s.rx.length ∧ t = s.isr ∧
      o = decide (t.msg.transDone = 1) := by
  rw [State.step] at hs
  split at hs
  next hguard =>
    obtain ⟨rfl, rfl⟩ := Prod.mk.inj (Option.some.inj hs)
    exact ⟨hguard.2.1, hguard.2.2, rfl, rfl⟩
  next => cases hs

theorem Reading.mode {flag : UInt8} {cur : UInt32} (hmaster : x.opFlag &&& 0x02 = 0)
    (hmode : x.mode = .read) (hr : Reading x h s flag cur) : s.msg.wkMode &&& rwBit ≠ 0 := by
  rw [hr.here.wkMode]
  exact (wkMode_read hmaster hmode).2

theorem Reading.notDone {flag : UInt8} {cur : UInt32} (hr : Reading x h s flag cur) :
    decide (s.msg.transDone = 1) = false := decide_eq_false hr.transDone

theorem Reading.step {flag : UInt8} {cur : UInt32} (hmaster : x.opFlag &&& 0x02 = 0)
    (hmode : x.mode = .read) (hr : Reading x h s flag cur) (hk : Kept s e)
    (hs : s.step e = some (t, o)) : ReadInv x (h ++ [(e, o)]) t := by
  have hread := hr.mode hmaster hmode
  cases e with
  | send =>
    obtain ⟨tx, htx, rfl, rfl⟩ := step_send hs
    exact .inl ⟨flag, cur, hr.send htx⟩
  | receive b =>
    obtain ⟨rfl, rfl⟩ := step_receive hs
    exact .inl ⟨flag, cur, hr.receive b⟩
  | isrReceived =>
    obtain ⟨hreceives, hfill, rfl, rfl⟩ := step_isrReceived hs
    by_cases hlast : s.remaining % 256 = (dataNum s.stat.intMode).toNat
    · obtain ⟨hdone, -, hfinish⟩ := hr.final hmaster hmode hreceives hfill hlast
      rw [decide_eq_true hdone]
      exact .inr (hfinish (hk hlast))
    · obtain ⟨cur', hr'⟩ := hr.more hmaster hmode hreceives hfill hlast
      rw [hr'.notDone]
      exact .inl ⟨flag, cur', hr'⟩
  | isrSent ack =>
    obtain ⟨-, hreceives, hroom, rfl, rfl⟩ := step_isrSent hs
    cases ack with
    | false =>
      have hend := hr.nack hmaster hmode (hk hread)
      rw [decide_eq_true hend.done]
      exact .inr ((hr.right hmode).nack hr.once hend)
    | true =>
      by_cases hopen : flag &&& 0x10 = 0
      · obtain ⟨flag', -, hr'⟩ := hr.addr hmaster hmode true hopen (fun _ => rfl) hroom
        rw [(hr' rfl).notDone]
        exact .inl ⟨flag', cur, hr' rfl⟩
      · have hr' := hr.start hmaster hmode hopen hreceives
        rw [hr'.notDone]
        exact .inl ⟨flag, cur, hr'⟩

theorem ReadInv.step (hmaster : x.opFlag &&& 0x02 = 0) (hmode : x.mode = .read)
    (hi : ReadInv x h s) (hk : Kept s e) (hs : s.step e = some (t, o)) :
    ReadInv x (h ++ [(e, o)]) t := by
  rcases hi with ⟨flag, cur, hr⟩ | hf
  · exact hr.step hmaster hmode hk hs
  · exact .inr (hf.step hs)

/-- An interrupt that ends a read too early breaks the law, and so does one that goes on although a
byte was not acknowledged. -/
theorem ReadInv.kept (hmaster : x.opFlag &&& 0x02 = 0) (hmode : x.mode = .read)
    (hi : ReadInv x h s) (hs : s.step e = some (t, o)) (hright : Right x (h ++ [(e, o)]) t) :
    Kept s e := by
  rcases hi with ⟨flag, cur, hr⟩ | hf
  · have hread := hr.mode hmaster hmode
    cases e with
    | send => trivial
    | receive b => trivial
    | isrReceived =>
      intro hlast
      obtain ⟨hreceives, hfill, rfl, -⟩ := step_isrReceived hs
      obtain ⟨hdone, haccessed, -⟩ := hr.final hmaster hmode hreceives hfill hlast
      have hacked : ¬ Nacked (h ++ [(.isrReceived, o)]) := not_nacked_concat hr.acked (by simp)
      have hlen := congrArg List.length (haccessed.symm.trans (hright.done hdone hacked).1)
      rw [List.length_range, List.length_range] at hlen
      have hremaining := (remain_toNat hr.here hr.le).1
      omega
    | isrSent ack =>
      cases ack with
      | true => exact fun hwrite => absurd hwrite hread
      | false =>
        intro _
        by_contra hsta
        obtain ⟨-, hreceives, hroom, rfl, -⟩ := step_isrSent hs
        have hopen : flag &&& 0x10 = 0 := by
          by_contra hall
          rw [State.receives, decide_eq_true (hr.address.mpr hall),
            eq_false_of_ne_true hsta] at hreceives
          exact Bool.false_ne_true hreceives.symm
        obtain ⟨flag', hat, -⟩ := hr.addr hmaster hmode false hopen
          (fun hset => absurd hset hsta) hroom
        have hdone := hright.nacked (nacked_concat.mpr (.inr rfl))
        rw [hat.msg] at hdone
        exact absurd hdone (by change (0 : UInt8) ≠ 1; decide)
  · exact hf.kept hs

/-- The first burst of a read is not longer than the read. -/
theorem startMode_le (hmaster : x.opFlag &&& 0x02 = 0) (hmode : x.mode = .read)
    (hcount : x.count ≠ 0) (stat : Stat) : (dataNum (x.startMode stat)).toNat ≤ x.count.toNat := by
  have hor : ∀ a b : BitVec 2, (dataNum (a ||| b)).toNat ≤ (dataNum b).toNat := by decide
  have hpos : 0 < x.count.toNat := UInt32.pos_iff_ne_zero.mpr hcount
  refine Nat.le_trans (hor _ _) ?_
  have hread : (x.msg 0 0).wkMode &&& rwBit ≠ 0 := (wkMode_read hmaster hmode).2
  rw [Msg.intMode, if_pos hread]
  split
  next hmore => exact Nat.le_of_lt (UInt32.lt_iff_toNat_lt.mp hmore)
  next =>
    split
    next hmore => exact Nat.le_of_lt (UInt32.lt_iff_toNat_lt.mp hmore)
    next =>
      split
      next hmore => exact Nat.le_of_lt (UInt32.lt_iff_toNat_lt.mp hmore)
      next => exact hpos

theorem begin_reading (hmaster : x.opFlag &&& 0x02 = 0) (hmode : x.mode = .read)
    (hcount : x.count ≠ 0) :
    Reading x [] (x.begin stat) x.firstFlag 0 := by
  rw [begin_eq hmaster]
  refine ⟨⟨⟨rfl, rfl⟩, firstFlag_flag x, Nat.zero_le _, fun _ => rfl, rfl, not_nacked_nil, rfl⟩,
    ?_, ?_, startMode_le hmaster hmode hcount stat, rfl, Nat.le_refl 0,
    (Mem.write_nil _ _).symm, ?_⟩
  · rw [items_eq, Call.data, hmode]
    exact (firstByte_toPut x).trans (List.append_nil _).symm
  · rw [firstByte_odd x, hmode]
    exact ⟨And.right, fun hall => ⟨rfl, hall⟩⟩
  · exact Nat.le_add_right _ _

theorem begin_writing (hmaster : x.opFlag &&& 0x02 = 0) (hmode : x.mode = .write)
    (hcount : x.count ≠ 0) :
    Writing x [] (x.begin stat) x.firstFlag 0 := by
  have hpos : 0 < x.count.toNat := UInt32.pos_iff_ne_zero.mpr hcount
  rw [begin_eq hmaster]
  refine ⟨⟨⟨rfl, rfl⟩, firstFlag_flag x, Nat.zero_le _, fun _ => rfl, rfl, not_nacked_nil, rfl⟩, ?_,
    fun hzero => absurd hzero (Nat.ne_of_lt hpos), rfl, ?_, Nat.le_refl _⟩
  · rw [items_eq, ← firstByte_toPut]
    rfl
  · by_contra hodd
    have hread := ((firstByte_odd x).mp hodd).1
    rw [hmode] at hread
    cases hread

/-- The invariant of a run whose steps meet the condition. -/
theorem inv_of_kept (hmaster : x.opFlag &&& 0x02 = 0) (hcount : x.count ≠ 0)
    (hr : (transfer stat x).ReachesUnder Kept h s) :
    (x.mode = .write ∧ WriteInv x h s) ∨ (x.mode = .read ∧ ReadInv x h s) := by
  cases hmode : x.mode with
  | write =>
    exact .inl ⟨rfl, hr.invariant (WriteInv x) (.inl ⟨_, _, begin_writing hmaster hmode hcount⟩)
      fun hi hk hs => hi.step hmaster hmode hk hs⟩
  | read =>
    exact .inr ⟨rfl, hr.invariant (ReadInv x) (.inl ⟨_, _, begin_reading hmaster hmode hcount⟩)
      fun hi hk hs => hi.step hmaster hmode hk hs⟩

theorem right_of_kept (hmaster : x.opFlag &&& 0x02 = 0) (hcount : x.count ≠ 0)
    (hr : (transfer stat x).ReachesUnder Kept h s) : Right x h s := by
  rcases inv_of_kept hmaster hcount hr with ⟨hmode, hi⟩ | ⟨hmode, hi⟩
  · exact hi.right hmode
  · exact hi.right hmode

/-- The law holds at first, and in every run it goes on to hold exactly if no interrupt takes the
remaining bytes for fewer, nor goes on behind a byte of the address that was refused. -/
theorem i2c2_transfer_iff_kept (hmaster : x.opFlag &&& 0x02 = 0) (hcount : x.count ≠ 0)
    (stat : Stat) :
    Right x [] (transfer stat x).init ∧ ∀ h s, (transfer stat x).ReachesUnder Kept h s ↔
      (transfer stat x).ReachesWithin (Right x) h s := by
  refine ⟨right_of_kept hmaster hcount .init, fun h s =>
    Machine.reachesUnder_iff_within (right_of_kept hmaster hcount) fun hr hs hp => ?_⟩
  rcases inv_of_kept hmaster hcount hr with ⟨hmode, hi⟩ | ⟨hmode, hi⟩
  · exact hi.kept hmaster hmode hs hp
  · exact hi.kept hmaster hmode hs hp

/-- A read has no byte of its address refused other than behind a start. -/
def Noticed (s : State) (e : Event) : Prop :=
  e = .isrSent false → s.msg.wkMode &&& rwBit ≠ 0 → s.stat.sta = true

theorem Live.kept {flag : UInt8} {cur : UInt32} (hl : Live x h s flag cur)
    (hsmall : x.count.toNat < 256) (hn : Noticed s e) : Kept s e := by
  have hmod : s.remaining % 256 = s.remaining := by
    rw [(remain_toNat hl.here hl.le).1]
    omega
  cases e with
  | send => trivial
  | receive b => trivial
  | isrReceived => exact fun hlast => hmod ▸ hlast
  | isrSent ack =>
    cases ack with
    | false => exact hn rfl
    | true => exact fun _ _ hzero => hmod ▸ hzero

/-- So every call with fewer than 256 bytes is right but for such a byte. -/
theorem right_of_small (hmaster : x.opFlag &&& 0x02 = 0) (hcount : x.count ≠ 0)
    (hsmall : x.count.toNat < 256) (hr : (transfer stat x).ReachesUnder Noticed h s) :
    Right x h s := by
  refine @right_of_kept x h s stat hmaster hcount ?_
  induction hr with
  | init => exact .init
  | @step h s e t o _ hn hs ih =>
    refine .step ih ?_ hs
    have hlive : (∃ flag cur, Live x h s flag cur) ∨ Finished x h s := by
      rcases inv_of_kept hmaster hcount ih with
        ⟨-, ⟨flag, cur, hw⟩ | hf⟩ | ⟨-, ⟨flag, cur, hr⟩ | hf⟩
      · exact .inl ⟨flag, cur, hw.toLive⟩
      · exact .inr hf
      · exact .inl ⟨flag, cur, hr.toLive⟩
      · exact .inr hf
    rcases hlive with ⟨flag, cur, hl⟩ | hf
    · exact hl.kept hsmall hn
    · exact hf.kept hs

def idleStat : Stat := ⟨3, false, false, false⟩

/-- Six bytes at the register 0x10 of the slave 0x50. -/
def sixBytes (mode : Mode) : Call := ⟨mode, 0x08, ⟨0x50, 0x10⟩, 6, fun i => UInt8.ofNat i⟩

def wholePage : Call := ⟨.write, 0x08, ⟨0x50, 0x10⟩, 256, fun _ => 0⟩

theorem i2c2_transfer_six : ∃ h s,
    (transfer idleStat (sixBytes .write)).ReachesWithin (Right (sixBytes .write)) h s ∧
      s.tx.gone = [.start 0xa0, .byte 0x10, .byte 0, .byte 1, .byte 2, .byte 3, .byte 4, .byte 5] ∧
      s.msg.transDone = 1 := by
  obtain ⟨h, s, hx⟩ : ∃ h s, (transfer idleStat (sixBytes .write)).exec
      [.send, .isrSent true, .send, .isrSent true, .send, .send, .send, .send, .isrSent true,
        .send, .send, .isrSent true] = some (h, s) := ⟨_, _, rfl⟩
  have hr : (transfer idleStat (sixBytes .write)).ReachesUnder Kept h s :=
    Machine.reachesUnder_of_exec (by decide +kernel) hx
  have hwithin := ((i2c2_transfer_iff_kept (by decide) (by decide) idleStat).2 h s).mp hr
  refine ⟨h, s, hwithin, ?_⟩
  cases hx
  exact ⟨rfl, rfl⟩

/-- Of 256 bytes none is written, and a read goes on when the register address is refused. -/
theorem i2c2_transfer_wrong :
    (¬ ∀ h s, (transfer idleStat wholePage).Reaches h s → Right wholePage h s) ∧
      ¬ ∀ h s, (transfer idleStat (sixBytes .read)).Reaches h s → Right (sixBytes .read) h s := by
  constructor
  · intro hall
    obtain ⟨h, s, hx, hh, hdone, haccessed⟩ : ∃ h s, (transfer idleStat wholePage).exec
          [.send, .isrSent true, .send, .isrSent true] = some (h, s) ∧
        h = [(.send, false), (.isrSent true, false), (.send, false), (.isrSent true, true)] ∧
        s.msg.transDone = 1 ∧ s.accessed = [] :=
      ⟨_, _, rfl, rfl, rfl, rfl⟩
    have hacked : ¬ Nacked h := by
      rw [hh]
      rintro ⟨o, ho⟩
      simp at ho
    have hlaw := ((hall h s (Machine.reaches_of_exec hx)).done hdone hacked).1
    rw [haccessed] at hlaw
    exact absurd (congrArg List.length hlaw) (by rw [List.length_range]; decide)
  · intro hall
    obtain ⟨h, s, hx, hh, hdone⟩ : ∃ h s, (transfer idleStat (sixBytes .read)).exec
          [.send, .isrSent true, .send, .isrSent false] = some (h, s) ∧
        h = [(.send, false), (.isrSent true, false), (.send, false), (.isrSent false, false)] ∧
        s.msg.transDone = 0 :=
      ⟨_, _, rfl, rfl, rfl⟩
    have hnacked : Nacked h := by
      rw [hh]
      exact ⟨false, by simp⟩
    have hlaw := (hall h s (Machine.reaches_of_exec hx)).nacked hnacked
    rw [hdone] at hlaw
    exact absurd hlaw (by decide)

end Run

end BdkRtt.Driver.I2c2
