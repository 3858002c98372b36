import BdkRtt.Driver.SpiMaster

namespace BdkRtt.Driver.SpiMaster

open Lib

section Invariant

/-- What is to be clocked out. -/
def Message.bytes (m : Message) : List UInt8 := m.sendBuf ++ List.replicate m.recvLen 0xff

@[simp] theorem Message.length_bytes (m : Message) :
    m.bytes.length = m.sendBuf.length + m.recvLen := by
  rw [Message.bytes, List.length_append, List.length_replicate]

/-- What has still to be written to the TX FIFO. -/
def Locals.todo (l : Locals) : List UInt8 :=
  l.txPtr ++ List.replicate (l.totalLen - l.txPtr.length) 0xff

/-- The variables, in whichever callback they are at the moment. -/
def State.locals (s : State) : Locals :=
  match s.isr with
  | none | some (.txFinish _) => ⟨s.txPtr, s.txLen, s.totalLen, s.rxDrop, s.rxOffset⟩
  | some (.rxCallback drop offset _ _) => ⟨s.txPtr, s.txLen, s.totalLen, drop, offset⟩
  | some (.writeTxfifo l _) => l
  | some (.readRxfifo l txOk _) => { l with totalLen := l.totalLen - txOk.toNat }

/-- The bytes are clocked out in their order. -/
structure Sending (s : State) (m : Message) (l : Locals) : Prop where
  bytes : s.clocked.map Prod.fst ++ (s.shifting.toList ++ (s.txFifo ++ l.todo)) = m.bytes
  len : l.txLen = l.txPtr.length
  le : l.txPtr.length ≤ l.totalLen

/-- The first of the bytes received have been dropped, the next are in the buffer and the last in
the RX FIFO. -/
structure Receiving (s : State) (m : Message) (l : Locals) (drained : List UInt8)
    (rxbuf : List UInt8) : Prop where
  rxPtr : s.rxPtr = some rxbuf
  clocked : s.clocked.map Prod.snd = drained ++ s.rxFifo.map Prod.snd
  drop : l.drop = m.sendBuf.length - drained.length
  offset : l.offset = drained.length - m.sendBuf.length
  le : m.recvLen ≤ rxbuf.length
  stored : rxbuf.take l.offset = drained.drop m.sendBuf.length

/-- No byte of an earlier transfer is in the way of one that receives. -/
def State.Fresh (s : State) : Prop := s.rxPtr ≠ none → ∀ x ∈ s.rxFifo, x.1 = s.transfers

/-- The state in a transfer. -/
structure Busy (s : State) (m : Message) (l : Locals) : Prop where
  rxLen : s.rxLen = m.recvLen
  sending : Sending s m l
  receiving : m.recvLen ≠ 0 → ∃ drained rxbuf, Receiving s m l drained rxbuf
  fresh : s.Fresh
  sem : s.txSem = true → l.totalLen = 0

/-- The state between transfers. -/
structure Idle (s : State) (l : Locals) : Prop where
  txFifo : s.txFifo = []
  shifting : s.shifting = none
  rxPtr : s.rxPtr = none
  txSem : s.txSem = false
  txFinishFlag : s.txFinishFlag = true
  done : l.totalLen = 0

/-- The transfer clocked out its bytes, and what came in after the first `send_len` of them is in
`recv_buf`. -/
structure Transfer.Ok (r : Transfer) : Prop where
  out : r.clocked.map Prod.fst = r.msg.bytes
  stored : ∀ i, i < r.msg.recvLen →
    (r.recvBuf.getD [])[i]? = (r.clocked.map Prod.snd)[r.msg.sendBuf.length + i]?

/-- Every call that has returned did its transfer, and no byte was used by a later one. -/
structure Law (s : State) : Prop where
  returned : ∀ r ∈ s.returned, r.Ok
  uses : ∀ u ∈ s.uses, u.1 = u.2

structure Inv (s : State) (l : Locals) : Prop where
  law : Law s
  idle : s.msg = none → Idle s l
  busy : ∀ m, s.msg = some m → Busy s m l

/-- The callbacks move the variables about and nothing else. -/
def State.withLocals (s : State) (l : Locals) (isr : Option Isr) : State :=
  { s with
    txPtr := l.txPtr
    txLen := l.txLen
    totalLen := l.totalLen
    rxDrop := l.drop
    rxOffset := l.offset
    isr := isr }

theorem Inv.withLocals {s : State} {l : Locals} (h : Inv s l) (k : Locals) (isr : Option Isr) :
    Inv (s.withLocals k isr) l where
  law := ⟨h.law.returned, h.law.uses⟩
  idle hm :=
    have hi := h.idle hm
    ⟨hi.txFifo, hi.shifting, hi.rxPtr, hi.txSem, hi.txFinishFlag, hi.done⟩
  busy m hm := by
    have hb := h.busy m hm
    refine ⟨hb.rxLen, ⟨hb.sending.bytes, hb.sending.len, hb.sending.le⟩, fun hne => ?_, hb.fresh,
      hb.sem⟩
    obtain ⟨drained, rxbuf, hr⟩ := hb.receiving hne
    exact ⟨drained, rxbuf, hr.rxPtr, hr.clocked, hr.drop, hr.offset, hr.le, hr.stored⟩

end Invariant

section Receive

variable {s : State} {m : Message} {drop offset : Nat} {x : Nat × UInt8}

/-- `t` differs from `s` at most in what a byte that is received changes. -/
structure SameSide (s t : State) : Prop where
  eq : t = { s with rxPtr := t.rxPtr, uses := t.uses }
  rxPtr : t.rxPtr = none ↔ s.rxPtr = none

theorem sameSide_receive (s : State) (drop offset : Nat) (x : Nat × UInt8) :
    SameSide s (s.receive drop offset x).1 := by
  rw [State.receive]
  split
  next => exact ⟨rfl, .rfl⟩
  next heq =>
    split
    next => exact ⟨rfl, .rfl⟩
    next =>
      split
      next => exact ⟨rfl, ⟨nofun, fun h => by rw [h] at heq; cases heq⟩⟩
      next => exact ⟨rfl, .rfl⟩

/-- What a byte is used for is its own transfer's. -/
theorem receive_uses (hx : s.rxPtr ≠ none → x.1 = s.transfers) (hs : ∀ u ∈ s.uses, u.1 = u.2)
    (drop offset : Nat) : ∀ u ∈ (s.receive drop offset x).1.uses, u.1 = u.2 := by
  have hadd : s.rxPtr ≠ none → ∀ u ∈ s.uses ++ [(x.1, s.transfers)], u.1 = u.2 := by
    intro hne u hu
    rcases List.mem_append.mp hu with hu | hu
    · exact hs u hu
    · rw [List.mem_singleton.mp hu]
      exact hx hne
  rw [State.receive]
  split
  next => exact hs
  next heq =>
    have hne : s.rxPtr ≠ none := by
      rw [heq]
      exact nofun
    split
    next => exact hadd hne
    next =>
      split
      next => exact hadd hne
      next => exact hs

theorem take_set_succ {l : List UInt8} {n : Nat} (hn : n < l.length) (b : UInt8) :
    (l.set n b).take (n + 1) = l.take n ++ [b] := by
  rw [List.take_add_one, List.take_set_of_le (Nat.le_refl n), List.getElem?_set_self hn]
  rfl

/-- The next byte from the RX FIFO is dropped or stored as its position says. -/
theorem Receiving.receive {drained rxbuf : List UInt8} {rest : List (Nat × UInt8)} {l : Locals}
    (h : Receiving s m l drained rxbuf) (hfifo : s.rxFifo = x :: rest)
    (hlen : s.clocked.length ≤ m.sendBuf.length + m.recvLen) (hrx : s.rxLen = m.recvLen) :
    ∃ rxbuf', Receiving (({ s with rxFifo := rest }.receive l.drop l.offset x).1) m
      { l with
        drop := ({ s with rxFifo := rest }.receive l.drop l.offset x).2.1
        offset := ({ s with rxFifo := rest }.receive l.drop l.offset x).2.2 }
      (drained ++ [x.2]) rxbuf' := by
  have hclocked : s.clocked.map Prod.snd = drained ++ [x.2] ++ rest.map Prod.snd := by
    rw [h.clocked, hfifo, List.append_assoc]
    rfl
  have hroom : drained.length < m.sendBuf.length + m.recvLen := by
    have hcount := congrArg List.length hclocked
    rw [List.length_map, List.length_append, List.length_append] at hcount
    have hone : [x.2].length = 1 := rfl
    omega
  have hsucc : (drained ++ [x.2]).length = drained.length + 1 := by
    rw [List.length_append]
    rfl
  have hptr : ({ s with rxFifo := rest } : State).rxPtr = some rxbuf := h.rxPtr
  rw [State.receive, hptr]
  dsimp only
  by_cases hdrop : l.drop ≠ 0
  · rw [if_pos hdrop]
    have hlt : drained.length < m.sendBuf.length := by
      have := h.drop
      omega
    have hoff : l.offset = 0 := by
      rw [h.offset]
      omega
    refine ⟨rxbuf, rfl, hclocked, ?_, ?_, h.le, ?_⟩
    · change l.drop - 1 = _
      rw [hsucc, h.drop]
      omega
    · change l.offset = _
      rw [hsucc, hoff]
      omega
    · change rxbuf.take l.offset = _
      rw [hoff, List.take_zero, List.drop_of_length_le (by omega)]
  · rw [if_neg hdrop]
    have hle : m.sendBuf.length ≤ drained.length := by
      have := h.drop
      omega
    have hoff : l.offset < m.recvLen := by
      rw [h.offset]
      omega
    rw [if_pos (hrx ▸ hoff)]
    refine ⟨rxbuf.set l.offset x.2, rfl, hclocked, ?_, ?_, ?_, ?_⟩
    · change l.drop = _
      rw [hsucc, h.drop]
      omega
    · change l.offset + 1 = _
      rw [hsucc, h.offset]
      omega
    · rw [List.length_set]
      exact h.le
    · change (rxbuf.set l.offset x.2).take (l.offset + 1) = _
      rw [take_set_succ (Nat.lt_of_lt_of_le hoff h.le), h.stored, List.drop_append_of_le_length hle]

theorem Sending.length_clocked {l : Locals} (h : Sending s m l) :
    s.clocked.length ≤ m.sendBuf.length + m.recvLen := by
  have hlen := congrArg List.length h.bytes
  rw [List.length_append, List.length_map, Message.length_bytes] at hlen
  exact hlen ▸ Nat.le_add_right ..

theorem Inv.receive {l : Locals} {rest : List (Nat × UInt8)} (h : Inv s l)
    (hfifo : s.rxFifo = x :: rest) :
    Inv ({ s with rxFifo := rest }.receive l.drop l.offset x).1
      { l with
        drop := ({ s with rxFifo := rest }.receive l.drop l.offset x).2.1
        offset := ({ s with rxFifo := rest }.receive l.drop l.offset x).2.2 } := by
  obtain ⟨heq, hptr⟩ := sameSide_receive { s with rxFifo := rest } l.drop l.offset x
  have hfresh : s.Fresh → s.rxPtr ≠ none → x.1 = s.transfers :=
    fun hf hne => hf hne x (hfifo ▸ List.mem_cons_self ..)
  have hmsg : ({ s with rxFifo := rest }.receive l.drop l.offset x).1.msg = s.msg :=
    (congrArg State.msg heq :)
  have hx : s.rxPtr ≠ none → x.1 = s.transfers := by
    intro hne
    cases hm : s.msg with
    | none => exact absurd (h.idle hm).rxPtr hne
    | some m => exact hfresh (h.busy m hm).fresh hne
  refine ⟨⟨?_, receive_uses (s := { s with rxFifo := rest }) hx h.law.uses l.drop l.offset⟩,
    fun hm => ?_, fun m hm => ?_⟩
  · rw [(congrArg State.returned heq :)]
    exact h.law.returned
  · have hi := h.idle (hmsg.symm.trans hm)
    exact ⟨(congrArg State.txFifo heq :).trans hi.txFifo,
      (congrArg State.shifting heq :).trans hi.shifting, hptr.mpr hi.rxPtr,
      (congrArg State.txSem heq :).trans hi.txSem,
      (congrArg State.txFinishFlag heq :).trans hi.txFinishFlag, hi.done⟩
  · have hb := h.busy m (hmsg.symm.trans hm)
    refine ⟨(congrArg State.rxLen heq :).trans hb.rxLen, ⟨?_, hb.sending.len, hb.sending.le⟩,
      fun hne => ?_, fun hne y hy => ?_, fun hsem => ?_⟩
    · rw [(congrArg State.clocked heq :), (congrArg State.shifting heq :),
        (congrArg State.txFifo heq :)]
      exact hb.sending.bytes
    · obtain ⟨drained, rxbuf, hr⟩ := hb.receiving hne
      obtain ⟨rxbuf', hr'⟩ := hr.receive hfifo hb.sending.length_clocked hb.rxLen
      exact ⟨_, rxbuf', hr'⟩
    · rw [(congrArg State.rxFifo heq :)] at hy
      rw [(congrArg State.transfers heq :)]
      exact hb.fresh (fun hnone => hne (hptr.mpr hnone)) y (hfifo ▸ List.mem_cons_of_mem _ hy)
    · exact hb.sem ((congrArg State.txSem heq :).symm.trans hsem)

end Receive

section Isr

variable {d : Depths} {s : State}

abbrev State.fields (s : State) : Locals :=
  ⟨s.txPtr, s.txLen, s.totalLen, s.rxDrop, s.rxOffset⟩

theorem inv_txint (h : Inv s s.fields) (txint txfifoEmpty : Bool) :
    Inv (s.txint txint txfifoEmpty) (s.txint txint txfifoEmpty).locals := by
  cases txint with
  | true => exact h.withLocals s.fields (some (.writeTxfifo s.fields txfifoEmpty))
  | false => exact h.withLocals s.fields (some (.txFinish txfifoEmpty))

theorem inv_bkSpiRxCallback {drop offset : Nat}
    (h : Inv s ⟨s.txPtr, s.txLen, s.totalLen, drop, offset⟩) (txint txfifoEmpty : Bool) :
    Inv (s.bkSpiRxCallback drop offset txint txfifoEmpty)
      (s.bkSpiRxCallback drop offset txint txfifoEmpty).locals := by
  rw [State.bkSpiRxCallback]
  cases hfifo : s.rxFifo with
  | nil =>
    have hback := h.withLocals ⟨s.txPtr, s.txLen, s.totalLen, drop, offset⟩ s.isr
    dsimp only
    rw [← hfifo]
    exact inv_txint hback txint txfifoEmpty
  | cons x rest =>
    have hr := h.receive hfifo
    obtain ⟨heq, -⟩ := sameSide_receive { s with rxFifo := rest } drop offset x
    dsimp only at hr ⊢
    generalize { s with rxFifo := rest }.receive drop offset x = r at hr heq
    have hl : State.locals { r.1 with isr := some (.rxCallback r.2.1 r.2.2 txint txfifoEmpty) } =
        ⟨s.txPtr, s.txLen, s.totalLen, r.2.1, r.2.2⟩ := by
      change (⟨r.1.txPtr, r.1.txLen, r.1.totalLen, r.2.1, r.2.2⟩ : Locals) = _
      rw [(congrArg State.txPtr heq :), (congrArg State.txLen heq :),
        (congrArg State.totalLen heq :)]
    rw [hl]
    exact hr.withLocals r.1.fields (some (.rxCallback r.2.1 r.2.2 txint txfifoEmpty))

theorem inv_nextWrite {l : Locals} {txOk : Bool}
    (h : Inv s { l with totalLen := l.totalLen - txOk.toNat }) (txfifoEmpty : Bool) :
    Inv (s.nextWrite l txOk txfifoEmpty) (s.nextWrite l txOk txfifoEmpty).locals := by
  rw [State.nextWrite]
  cases txOk with
  | true =>
    rw [if_pos rfl]
    split
    next => exact h.withLocals _ (some (.txFinish txfifoEmpty))
    next =>
      exact h.withLocals s.fields
        (some (.writeTxfifo { l with totalLen := l.totalLen - 1 } txfifoEmpty))
  | false => exact h.withLocals _ (some (.txFinish txfifoEmpty))

theorem inv_spiReadRxfifo {l : Locals} {txOk : Bool}
    (h : Inv s { l with totalLen := l.totalLen - txOk.toNat }) (txfifoEmpty : Bool) :
    Inv (s.spiReadRxfifo l txOk txfifoEmpty) (s.spiReadRxfifo l txOk txfifoEmpty).locals := by
  rw [State.spiReadRxfifo]
  cases hfifo : s.rxFifo with
  | nil => exact inv_nextWrite h txfifoEmpty
  | cons x rest => exact inv_nextWrite (h.receive hfifo) txfifoEmpty

theorem todo_tail {l : Locals} (hlen : l.txLen = l.txPtr.length) (hne : l.txLen ≠ 0) :
    l.todo = l.txPtr.headD 0 :: Locals.todo { l with
      txPtr := l.txPtr.tail
      txLen := l.txLen - 1
      totalLen := l.totalLen - 1 } := by
  rw [Locals.todo, Locals.todo]
  cases hptr : l.txPtr with
  | nil =>
    rw [hptr] at hlen
    exact absurd hlen hne
  | cons b rest =>
    have hrest : l.totalLen - (rest.length + 1) = l.totalLen - 1 - rest.length := by omega
    change b :: (rest ++ List.replicate (l.totalLen - (rest.length + 1)) 0xff) = _
    rw [hrest]
    rfl

theorem todo_pad {l : Locals} (hlen : l.txLen = l.txPtr.length) (hzero : l.txLen = 0)
    (hne : l.totalLen ≠ 0) :
    l.todo = 0xff :: Locals.todo { l with totalLen := l.totalLen - 1 } := by
  have hptr : l.txPtr = [] := List.length_eq_zero_iff.mp (hlen.symm.trans hzero)
  obtain ⟨n, hn⟩ := Nat.exists_eq_succ_of_ne_zero hne
  rw [Locals.todo, Locals.todo]
  dsimp only
  rw [hptr, hn]
  rfl

/-- A byte is written to the TX FIFO. -/
theorem Inv.write {l k : Locals} {b : UInt8} (h : Inv s l) (hne : l.totalLen ≠ 0)
    (htodo : l.todo = b :: k.todo) (hlen : k.txLen = k.txPtr.length)
    (hle : k.txPtr.length ≤ k.totalLen) (hdrop : k.drop = l.drop) (hoffset : k.offset = l.offset)
    (isr : Option Isr) : Inv { s with txFifo := s.txFifo ++ [b], isr := isr } k where
  law := ⟨h.law.returned, h.law.uses⟩
  idle hm := absurd (h.idle hm).done hne
  busy m hm := by
    have hb := h.busy m hm
    refine ⟨hb.rxLen, ⟨?_, hlen, hle⟩, fun hrecv => ?_, hb.fresh,
      fun hsem => absurd (hb.sem hsem) hne⟩
    · have hbytes := hb.sending.bytes
      rw [htodo] at hbytes
      rw [← hbytes, List.append_assoc s.txFifo]
      rfl
    · obtain ⟨drained, rxbuf, hr⟩ := hb.receiving hrecv
      exact ⟨drained, rxbuf, hr.rxPtr, hr.clocked, hdrop.trans hr.drop, hoffset.trans hr.offset,
        hr.le, hoffset ▸ hr.stored⟩

/-- In a callback that still has to write, a transfer is going on. -/
theorem Inv.sending {l : Locals} (h : Inv s l) (hne : l.totalLen ≠ 0) :
    ∃ m, Sending s m l := by
  cases hm : s.msg with
  | none => exact absurd (h.idle hm).done hne
  | some m => exact ⟨m, (h.busy m hm).sending⟩

theorem inv_spiWriteTxfifo {l : Locals} (h : Inv s l) (txfifoEmpty : Bool) :
    Inv (s.spiWriteTxfifo d l txfifoEmpty) (s.spiWriteTxfifo d l txfifoEmpty).locals := by
  rw [State.spiWriteTxfifo]
  split
  next => exact h.withLocals l (some (.txFinish txfifoEmpty))
  next hne =>
    obtain ⟨m, hs⟩ := h.sending hne
    have hlen := hs.len
    have hle := hs.le
    split
    next =>
      split
      next htx =>
        refine h.write hne (todo_tail hlen htx) ?_ ?_ rfl rfl _
        · change l.txLen - 1 = l.txPtr.tail.length
          rw [hlen, List.length_tail]
        · change l.txPtr.tail.length ≤ l.totalLen - 1
          rw [List.length_tail]
          exact Nat.sub_le_sub_right hle 1
      next htx =>
        have hzero := not_not.mp htx
        refine h.write hne (todo_pad hlen hzero hne) hlen ?_ rfl rfl _
        change l.txPtr.length ≤ l.totalLen - 1
        omega
    next => exact h.withLocals s.fields (some (.readRxfifo l false txfifoEmpty))

theorem inv_bkSpiTxFinishCallback (h : Inv s s.fields) (txfifoEmpty : Bool) :
    Inv (s.bkSpiTxFinishCallback txfifoEmpty) (s.bkSpiTxFinishCallback txfifoEmpty).locals := by
  rw [State.bkSpiTxFinishCallback]
  split
  next hfin =>
    refine ⟨⟨h.law.returned, h.law.uses⟩, fun hm => ?_, fun m hm => ?_⟩
    · exact absurd ((h.idle hm).txFinishFlag.symm.trans hfin.2.2) nofun
    · have hb := h.busy m hm
      refine ⟨hb.rxLen, ⟨hb.sending.bytes, hb.sending.len, hb.sending.le⟩, fun hne => ?_, hb.fresh,
        fun _ => hfin.2.1⟩
      obtain ⟨drained, rxbuf, hr⟩ := hb.receiving hne
      exact ⟨drained, rxbuf, hr.rxPtr, hr.clocked, hr.drop, hr.offset, hr.le, hr.stored⟩
  next => exact h.withLocals s.fields none

theorem inv_spiIsr (h : Inv s s.locals) {i : Isr} (hi : s.isr = some i) :
    Inv (s.spiIsr d i) (s.spiIsr d i).locals := by
  rw [State.locals, hi] at h
  cases i with
  | rxCallback drop offset txint txfifoEmpty => exact inv_bkSpiRxCallback h txint txfifoEmpty
  | writeTxfifo l txfifoEmpty => exact inv_spiWriteTxfifo h txfifoEmpty
  | readRxfifo l txOk txfifoEmpty => exact inv_spiReadRxfifo h txfifoEmpty
  | txFinish txfifoEmpty => exact inv_bkSpiTxFinishCallback h txfifoEmpty

end Isr

section Run

variable {d : Depths} {s t : State} {o : Option Nat}

abbrev Run := Machine.History Event (Option Nat)

/-- What a transfer needs: that its size does not wrap, that nothing is left in the RX FIFO when it
begins nor lost from it, and that nothing is on its way when the caller wakes. -/
def Timely (d : Depths) (s : State) : Event → Prop
  | .xfer m => m.sendBuf.length + m.recvLen < 2 ^ 32 ∧
      (m.totalSize ≠ 0 → m.recvBuf ≠ none → s.rxFifo = [])
  | .shift _ => s.rxLen ≠ 0 → s.rxFifo.length < d.rx
  | .wake => s.txFifo = [] ∧ s.shifting = none ∧ (s.rxLen ≠ 0 → s.rxFifo = [])
  | _ => True

instance (d : Depths) (s : State) : ∀ e, Decidable (Timely d s e)
  | .xfer _ => inferInstanceAs (Decidable (_ ∧ _))
  | .shift _ => inferInstanceAs (Decidable (_ → _))
  | .wake => inferInstanceAs (Decidable (_ ∧ _))
  | .isr .. | .isrStep | .load => inferInstanceAs (Decidable True)

theorem inv_load {b : UInt8} {rest : List UInt8} {l : Locals} (h : Inv s l)
    (hshift : s.shifting = none) (hfifo : s.txFifo = b :: rest) :
    Inv { s with shifting := some b, txFifo := rest } l where
  law := ⟨h.law.returned, h.law.uses⟩
  idle hm := absurd (hfifo.symm.trans (h.idle hm).txFifo) nofun
  busy m hm := by
    have hb := h.busy m hm
    refine ⟨hb.rxLen, ⟨?_, hb.sending.len, hb.sending.le⟩, fun hne => ?_, hb.fresh, hb.sem⟩
    · have hbytes := hb.sending.bytes
      rw [hshift, hfifo] at hbytes
      exact hbytes
    · obtain ⟨drained, rxbuf, hr⟩ := hb.receiving hne
      exact ⟨drained, rxbuf, hr.rxPtr, hr.clocked, hr.drop, hr.offset, hr.le, hr.stored⟩

theorem inv_shift {b received : UInt8} {l : Locals} (h : Inv s l) (hshift : s.shifting = some b)
    (hroom : s.rxLen ≠ 0 → s.rxFifo.length < d.rx) :
    Inv { s with
      shifting := none
      clocked := s.clocked ++ [(b, received)]
      rxFifo := if s.rxFifo.length < d.rx then s.rxFifo ++ [(s.transfers, received)]
        else s.rxFifo } l where
  law := ⟨h.law.returned, h.law.uses⟩
  idle hm := absurd (hshift.symm.trans (h.idle hm).shifting) nofun
  busy m hm := by
    have hb := h.busy m hm
    refine ⟨hb.rxLen, ⟨?_, hb.sending.len, hb.sending.le⟩, fun hne => ?_, fun hne x hx => ?_,
      hb.sem⟩
    · have hbytes := hb.sending.bytes
      rw [hshift] at hbytes
      rw [← hbytes, List.map_append, List.append_assoc]
      rfl
    · obtain ⟨drained, rxbuf, hr⟩ := hb.receiving hne
      refine ⟨drained, rxbuf, hr.rxPtr, ?_, hr.drop, hr.offset, hr.le, hr.stored⟩
      rw [if_pos (hroom (hb.rxLen ▸ hne)), List.map_append, List.map_append, hr.clocked,
        List.append_assoc]
      rfl
    · have hfresh := hb.fresh hne
      dsimp only at hx
      split at hx
      next =>
        rcases List.mem_append.mp hx with hx | hx
        · exact hfresh x hx
        · rw [List.mem_singleton.mp hx]
      next => exact hfresh x hx

theorem inv_bkSpiMasterXfer {m : Message} (h : Inv s s.locals) (hm : s.msg = none)
    (hisr : s.isr = none) (hlt : m.sendBuf.length + m.recvLen < 2 ^ 32)
    (hfifo : m.totalSize ≠ 0 → m.recvBuf ≠ none → s.rxFifo = []) :
    Inv (s.bkSpiMasterXfer m) (s.bkSpiMasterXfer m).locals := by
  have hsize : m.totalSize = m.sendBuf.length + m.recvLen := by
    rw [Message.totalSize, Nat.add_comm, Nat.mod_eq_of_lt hlt]
  have hi := h.idle hm
  rw [State.bkSpiMasterXfer]
  split
  next hzero =>
    have hsend : m.sendBuf.length = 0 := by omega
    have hrecv : m.recvLen = 0 := by omega
    have hok : Transfer.Ok ⟨m, [], m.recvBuf⟩ := by
      refine ⟨?_, fun i hlt => absurd (hrecv ▸ hlt) (Nat.not_lt_zero i)⟩
      change [] = m.bytes
      rw [Message.bytes, List.length_eq_zero_iff.mp hsend, hrecv]
      rfl
    refine ⟨⟨fun r hr => ?_, h.law.uses⟩, fun _ => ?_, fun m hm' => ?_⟩
    · rcases List.mem_append.mp hr with hr | hr
      · exact h.law.returned r hr
      · rw [List.mem_singleton.mp hr]
        exact hok
    · exact ⟨hi.txFifo, hi.shifting, hi.rxPtr, hi.txSem, hi.txFinishFlag, hi.done⟩
    · exact absurd (hm.symm.trans hm') nofun
  next hne =>
    refine ⟨⟨h.law.returned, h.law.uses⟩, nofun, fun m' hm' => ?_⟩
    obtain rfl := Option.some.inj hm'
    have hlocals : State.locals { s with
        txPtr := m.sendBuf
        txLen := m.sendBuf.length
        rxPtr := m.recvBuf
        rxLen := m.recvLen
        rxOffset := 0
        rxDrop := m.sendBuf.length
        totalLen := m.totalSize
        txFinishFlag := false
        msg := some m
        transfers := s.transfers + 1
        clocked := [] } = ⟨m.sendBuf, m.sendBuf.length, m.totalSize, m.sendBuf.length, 0⟩ := by
      rw [State.locals, hisr]
    rw [hlocals]
    have hfresh : m.recvBuf ≠ none → s.rxFifo = [] := hfifo hne
    refine ⟨rfl, ⟨?_, rfl, ?_⟩, fun hrecv => ?_, fun hbuf x hx => ?_, fun hsem => ?_⟩
    · have hrest : m.totalSize - m.sendBuf.length = m.recvLen := by omega
      rw [hi.shifting, hi.txFifo, Locals.todo]
      change m.sendBuf ++ List.replicate (m.totalSize - m.sendBuf.length) 0xff = m.bytes
      rw [hrest, Message.bytes]
    · change m.sendBuf.length ≤ m.totalSize
      omega
    · have hle := m.recv_le
      cases hbuf : m.recvBuf with
      | none =>
        rw [hbuf] at hle
        exact absurd (Nat.le_zero.mp hle) hrecv
      | some rxbuf =>
        rw [hbuf] at hle
        refine ⟨[], rxbuf, rfl, ?_, rfl, (Nat.zero_sub _).symm, hle, ?_⟩
        · rw [hfresh (by rw [hbuf]; exact nofun)]
          rfl
        · rw [List.drop_nil]
          rfl
    · rw [hfresh hbuf] at hx
      cases hx
    · exact absurd (hi.txSem.symm.trans hsem) nofun

/-- A transfer with nothing left on its way has done what it should. -/
theorem transfer_ok {m : Message} {l : Locals} (hb : Busy s m l) (hdone : l.totalLen = 0)
    (hfifo : s.txFifo = []) (hshift : s.shifting = none) (hrx : s.rxLen ≠ 0 → s.rxFifo = []) :
    Transfer.Ok ⟨m, s.clocked, s.rxPtr⟩ := by
  have hptr : l.txPtr = [] :=
    List.length_eq_zero_iff.mp (Nat.le_zero.mp (hdone ▸ hb.sending.le))
  have hout : s.clocked.map Prod.fst = m.bytes := by
    have hbytes := hb.sending.bytes
    rw [Locals.todo, hptr, hdone, hfifo, hshift] at hbytes
    rw [← hbytes]
    exact (List.append_nil _).symm
  refine ⟨hout, fun i hi => ?_⟩
  have hi : i < m.recvLen := hi
  obtain ⟨drained, rxbuf, hr⟩ := hb.receiving (Nat.ne_zero_of_lt hi)
  have hall : s.clocked.map Prod.snd = drained := by
    rw [hr.clocked, hrx (hb.rxLen ▸ Nat.ne_zero_of_lt hi)]
    exact List.append_nil _
  have hlen := congrArg List.length hout
  rw [List.length_map, Message.length_bytes] at hlen
  have hdrained := congrArg List.length hall
  rw [List.length_map, hlen] at hdrained
  have hoffset : l.offset = m.recvLen := by
    rw [hr.offset]
    omega
  change (s.rxPtr.getD [])[i]? = (s.clocked.map Prod.snd)[m.sendBuf.length + i]?
  calc (s.rxPtr.getD [])[i]? = rxbuf[i]? := by rw [hr.rxPtr]; rfl
    _ = (rxbuf.take l.offset)[i]? := by rw [hoffset, List.getElem?_take_of_lt hi]
    _ = (s.clocked.map Prod.snd)[m.sendBuf.length + i]? := by
      rw [hr.stored, hall, List.getElem?_drop]

theorem inv_wake {m : Message} (h : Inv s s.locals) (hm : s.msg = some m) (hisr : s.isr = none)
    (hsem : s.txSem = true) (hfifo : s.txFifo = []) (hshift : s.shifting = none)
    (hrx : s.rxLen ≠ 0 → s.rxFifo = []) : Inv (s.wake m) (s.wake m).locals := by
  have hb := h.busy m hm
  refine ⟨⟨fun r hr => ?_, h.law.uses⟩, fun _ => ⟨hfifo, hshift, rfl, rfl, rfl, ?_⟩, nofun⟩
  · rcases List.mem_append.mp hr with hr | hr
    · exact h.law.returned r hr
    · rw [List.mem_singleton.mp hr]
      exact transfer_ok hb (hb.sem hsem) hfifo hshift hrx
  · change (State.locals { s.wake m with isr := s.isr }).totalLen = 0
    rw [State.locals, hisr]
    rfl

theorem step_inv {e : Event} (h : Inv s s.locals) (hc : Timely d s e)
    (hs : s.step d e = some (t, o)) : Inv t t.locals := by
  unfold State.step at hs
  cases e with
  | xfer m =>
    dsimp only at hs
    split at hs
    next hidle =>
      obtain rfl : _ = t := congrArg Prod.fst (Option.some.inj hs)
      exact inv_bkSpiMasterXfer h (Option.isNone_iff_eq_none.mp hidle.1)
        (Option.isNone_iff_eq_none.mp hidle.2) hc.1 hc.2
    next => cases hs
  | wake =>
    dsimp only at hs
    split at hs
    next => cases hs
    next m hm =>
      split at hs
      next hidle =>
        obtain rfl : _ = t := congrArg Prod.fst (Option.some.inj hs)
        exact inv_wake h hm (Option.isNone_iff_eq_none.mp hidle.1) hidle.2 hc.1 hc.2.1 hc.2.2
      next => cases hs
  | isr rxint txint txfifoEmpty =>
    dsimp only at hs
    split at hs
    next hidle =>
      have hfields : s.locals = s.fields := by
        rw [State.locals, Option.isNone_iff_eq_none.mp hidle.1]
      rw [hfields] at h
      split at hs
      next =>
        obtain rfl : _ = t := congrArg Prod.fst (Option.some.inj hs)
        exact h.withLocals s.fields (some (.rxCallback s.rxDrop s.rxOffset txint txfifoEmpty))
      next =>
        obtain rfl : _ = t := congrArg Prod.fst (Option.some.inj hs)
        exact inv_txint h txint txfifoEmpty
    next => cases hs
  | isrStep =>
    dsimp only at hs
    split at hs
    next => cases hs
    next i hi =>
      obtain rfl : _ = t := congrArg Prod.fst (Option.some.inj hs)
      exact inv_spiIsr h hi
  | load =>
    dsimp only at hs
    split at hs
    next b rest hshift hfifo =>
      obtain rfl : _ = t := congrArg Prod.fst (Option.some.inj hs)
      exact inv_load h hshift hfifo
    next => cases hs
  | shift received =>
    dsimp only at hs
    split at hs
    next => cases hs
    next b hshift =>
      obtain rfl : _ = t := congrArg Prod.fst (Option.some.inj hs)
      exact inv_shift h hshift hc

theorem inv_init : Inv init init.locals :=
  ⟨⟨nofun, nofun⟩, fun _ => ⟨rfl, rfl, rfl, rfl, rfl, rfl⟩, nofun⟩

/-- In the timely runs every transfer clocks out its bytes and receives those that come in for it,
and no other. -/
theorem transfers_complete {h : Run} (hr : (spi d).ReachesUnder (Timely d) h s) : Law s := by
  have hinv : Inv s s.locals := by
    induction hr with
    | init => exact inv_init
    | step hr hc hs ih => exact step_inv ih hc hs
  exact hinv.law

/-- Two bytes are read after a command of one byte. -/
theorem transfers_complete_read :
    ∃ h s, (spi ⟨8, 8, by decide, by decide⟩).ReachesUnder
        (Timely ⟨8, 8, by decide, by decide⟩) h s ∧
      s.returned.map Transfer.recvBuf = [some [0xEF, 0x40]] ∧ Law s := by
  have hexec : ((spi ⟨8, 8, by decide, by decide⟩).exec
      [.xfer ⟨[0x9F], some [0, 0], 2, by decide, by decide, by decide⟩, .isr false true false,
        .isrStep, .isrStep, .isrStep, .isrStep, .isrStep, .isrStep, .isrStep, .load, .shift 0xAA,
        .load, .shift 0xEF, .load, .shift 0x40, .isr true false true, .isrStep, .isrStep, .isrStep,
        .isrStep, .isrStep, .wake]).map (fun r => r.2.returned.map Transfer.recvBuf) =
      some [some [0xEF, 0x40]] := by decide +kernel
  obtain ⟨⟨h, s⟩, hx, hbuf⟩ := Option.map_eq_some_iff.mp hexec
  have hr : (spi ⟨8, 8, by decide, by decide⟩).ReachesUnder
      (Timely ⟨8, 8, by decide, by decide⟩) h s :=
    Machine.reachesUnder_of_exec (by decide +kernel) hx
  exact ⟨h, s, hr, hbuf, transfers_complete hr⟩

/-- The interrupt that writes the only byte also takes the TX FIFO for empty. -/
theorem transfers_cut_short : ¬ ∀ (d : Depths) (h : Run) (s : State), (spi d).Reaches h s →
    Law s := by
  intro hall
  obtain ⟨h, s, hx⟩ : ∃ h s, (spi ⟨16, 16, by decide, by decide⟩).exec
      [.xfer ⟨[0x06], none, 0, by decide, by decide, by decide⟩, .isr false true true, .isrStep,
        .isrStep, .isrStep, .wake] = some (h, s) := ⟨_, _, rfl⟩
  have hlaw := hall _ h s (Machine.reaches_of_exec hx)
  have hout : s.returned.map Transfer.clocked = [[]] ∧
      s.returned.map (fun r => r.msg.bytes) = [[0x06]] := by
    cases hx
    exact ⟨rfl, rfl⟩
  obtain ⟨r, hr, hnil⟩ := List.mem_map.mp (hout.1 ▸ List.mem_singleton_self _)
  have hbytes : r.msg.bytes ∈ s.returned.map fun r => r.msg.bytes := List.mem_map.mpr ⟨r, hr, rfl⟩
  rw [hout.2, List.mem_singleton] at hbytes
  have hok := (hlaw.returned r hr).out
  rw [hnil, hbytes] at hok
  cases hok

end Run

end BdkRtt.Driver.SpiMaster
