import BdkRtt.Driver.I2s
import Mathlib.Algebra.Group.Nat.Defs
import Mathlib.Order.Lattice

namespace BdkRtt.Driver.I2s

open Lib

section Steps

variable {x : Call} {h : History} {s t : State} {status : UInt32} {e : Event} {a : Answer}

/-- How the pointers and the counter follow the words that have been moved. -/
structure Inv (x : Call) (s : State) : Prop where
  reads : s.reads = List.range s.reads.length
  sends : s.reads.length ≤ x.count.toNat
  pTxBuf : ∀ i ∈ s.trans.pTxBuf, i = s.reads.length ∧ x.sendBuf.isSome
  writes : s.writes = List.range s.stores.length
  pRxBuf : ∀ i ∈ s.trans.pRxBuf, i = s.stores.length
  remain : s.trans.rxRemainDataCnt.toNat + s.stores.length = x.count.toNat
  stores : Consecutive s.stores
  recvBuf : s.recvBuf = x.recvBuf.map fun m => m.write 0 (s.stores.map x.words)
  kept : s.stores.length ≤ s.taken
  taken : s.taken ≤ x.count.toNat
  done : s.trans.transDone ≠ 0 ↔ s.taken = x.count.toNat
  last : s.trans.transDone ≠ 0 ↔ s.trans.rxRemainDataCnt = 0

theorem dataNum_pos (level : UInt8) : 8 ≤ dataNum level := by
  unfold dataNum
  split <;> omega

/-- A receive interrupt takes no words exactly if the transfer is done. -/
theorem Inv.rxNum_eq_zero (hi : Inv x s) : s.rxNum = 0 ↔ s.trans.transDone ≠ 0 := by
  have hpos := dataNum_pos s.level.rxLevel
  rw [hi.last, State.rxNum, ← UInt32.toNat_inj, UInt32.toNat_zero]
  omega

theorem Inv.right (hi : Inv x s) (hquiet : ∀ e ∈ h, e.2.done = true → e.2.accesses = 0) :
    Right x h s where
  reads := ⟨_, hi.sends, hi.reads⟩
  writes := ⟨_, by have := hi.remain; omega, hi.writes⟩
  stores := hi.stores
  recvBuf := hi.recvBuf
  taken := hi.taken
  done := hi.done
  quiet := hquiet

/-- The transmit interrupt touches nothing of the other side. -/
theorem txint_of_null (hnull : s.trans.pTxBuf = none) : s.txint x =
    { s with sent := s.sent ++ List.replicate (dataNum s.level.txLevel) 0xeeeeeeee } := by
  rw [State.txint, hnull]

theorem Inv.txint_of_some (hi : Inv x s) {i : Nat} (hsome : s.trans.pTxBuf = some i) : ∃ sent,
    s.txint x = { s with
      sent
      reads := List.range (s.reads.length + dataNum s.level.txLevel)
      trans := { s.trans with pTxBuf := some (s.reads.length + dataNum s.level.txLevel) } } := by
  obtain ⟨rfl, hbuf⟩ := hi.pTxBuf i hsome
  obtain ⟨sendBuf, hbuf⟩ := Option.isSome_iff_exists.mp hbuf
  refine ⟨s.sent ++ sendBuf.read s.reads.length (dataNum s.level.txLevel), ?_⟩
  have hreads : s.reads ++ List.range' s.reads.length (dataNum s.level.txLevel) =
      List.range (s.reads.length + dataNum s.level.txLevel) := by
    rw [← Consecutive.range_append_range', ← hi.reads]
  rw [State.txint, hsome, hbuf, ← hreads]

theorem Inv.txint (hi : Inv x s)
    (hfit : ∀ i ∈ s.trans.pTxBuf, i + dataNum s.level.txLevel ≤ x.count.toNat) :
    Inv x (s.txint x) := by
  cases htx : s.trans.pTxBuf with
  | none =>
    rw [txint_of_null htx]
    exact ⟨hi.reads, hi.sends, hi.pTxBuf, hi.writes, hi.pRxBuf, hi.remain, hi.stores, hi.recvBuf,
      hi.kept, hi.taken, hi.done, hi.last⟩
  | some i =>
    obtain ⟨sent, heq⟩ := hi.txint_of_some htx
    obtain ⟨rfl, hbuf⟩ := hi.pTxBuf i htx
    have hle := hfit _ htx
    rw [heq]
    refine ⟨?_, ?_, ?_, hi.writes, hi.pRxBuf, hi.remain, hi.stores, hi.recvBuf, hi.kept,
      hi.taken, hi.done, hi.last⟩
    · rw [List.length_range]
    · rw [List.length_range]; exact hle
    · rintro j hj
      rw [List.length_range]
      exact ⟨(Option.mem_some_iff.mp hj).symm, hbuf⟩

theorem Inv.drain (hi : Inv x s) (hfit : s.rxNum ≠ 0 → s.taken + s.rxNum < x.count.toNat) :
    Inv x s.drain := by
  have hdone : s.trans.transDone ≠ 0 ↔ s.taken + s.rxNum = x.count.toNat := by
    by_cases hzero : s.rxNum = 0
    · rw [hzero]; exact hi.done
    · have hlt := hfit hzero
      exact ⟨fun hd => absurd (hi.rxNum_eq_zero.mpr hd) hzero, fun hc => by omega⟩
  refine ⟨hi.reads, hi.sends, hi.pTxBuf, hi.writes, hi.pRxBuf, hi.remain, hi.stores, hi.recvBuf,
    Nat.le_add_right_of_le hi.kept, ?_, hdone, hi.last⟩
  by_cases hzero : s.rxNum = 0
  · rw [State.drain, hzero]; exact hi.taken
  · exact Nat.le_of_lt (hfit hzero)

/-- Words that are stored behind others are as if all had been stored at once. -/
theorem write_stores (m : Mem UInt32) (words : Nat → UInt32) (stores : List Nat) (i n : Nat) :
    (m.write 0 (stores.map words)).write stores.length (Mem.read words i n) =
      m.write 0 ((stores ++ List.range' i n).map words) := by
  have hread : Mem.read words i n = (List.range' i n).map words := by
    rw [List.range'_eq_map_range, List.map_map]
    rfl
  rw [hread, List.map_append, ← Mem.write_append, List.length_map, Nat.zero_add]

/-- The counter behind the words that are stored. -/
theorem Inv.store_remain (hi : Inv x s) (i : Nat) :
    (s.store x i).trans.rxRemainDataCnt.toNat + (s.stores.length + s.rxNum) = x.count.toNat ∧
      ((s.store x i).trans.transDone ≠ 0 ↔ (s.store x i).trans.rxRemainDataCnt = 0) := by
  have hle : s.rxNum ≤ s.trans.rxRemainDataCnt.toNat := Nat.min_le_right ..
  have hremain := hi.remain
  have hless : (s.trans.rxRemainDataCnt - UInt32.ofNat s.rxNum).toNat =
      s.trans.rxRemainDataCnt.toNat - s.rxNum := by
    have hlt := s.trans.rxRemainDataCnt.toNat_lt
    have hnum : (UInt32.ofNat s.rxNum).toNat = s.rxNum :=
      UInt32.toNat_ofNat_of_lt' (Nat.lt_of_le_of_lt hle hlt)
    rw [UInt32.toNat_sub_of_le _ _ (by rw [UInt32.le_iff_toNat_le, hnum]; exact hle), hnum]
  constructor
  · change (s.trans.rxRemainDataCnt - UInt32.ofNat s.rxNum).toNat + _ = _
    omega
  · by_cases hr : s.trans.rxRemainDataCnt - UInt32.ofNat s.rxNum = 0
    · have hset : (s.store x i).trans.transDone = 1 := if_pos hr
      rw [hset]
      exact ⟨fun _ => hr, fun _ => by decide⟩
    · have hset : (s.store x i).trans.transDone = s.trans.transDone := if_neg hr
      rw [hset]
      refine ⟨fun hd => absurd ?_ hr, fun hz => absurd hz hr⟩
      rw [hi.rxNum_eq_zero.mpr hd, hi.last.mp hd]
      rfl

theorem Inv.store_done (hi : Inv x s) (i : Nat) :
    (s.store x i).trans.transDone ≠ 0 ↔ s.stores.length + s.rxNum = x.count.toNat := by
  obtain ⟨hremain, hdone⟩ := hi.store_remain i
  rw [hdone, ← UInt32.toNat_inj, UInt32.toNat_zero]
  omega

theorem Inv.store (hi : Inv x s) {i : Nat} (hsome : s.trans.pRxBuf = some i)
    (hfit : s.rxNum ≠ 0 → (∀ k ∈ s.stores.getLast?, k + 1 = s.taken) ∧
      (s.taken = s.stores.length ∨ s.taken + s.rxNum < x.count.toNat)) :
    Inv x (s.store x i) := by
  obtain rfl := hi.pRxBuf i hsome
  have hlen : (s.store x s.stores.length).stores.length = s.stores.length + s.rxNum := by
    rw [State.store, List.length_append, List.length_range']
  obtain ⟨hremain, hlast⟩ := hi.store_remain s.stores.length
  refine ⟨hi.reads, hi.sends, hi.pTxBuf, ?_, ?_, ?_, ?_, ?_, ?_, ?_, ?_, hlast⟩
  · rw [hlen, ← Consecutive.range_append_range', ← hi.writes]
    rfl
  · rintro j hj
    rw [hlen]
    exact (Option.mem_some_iff.mp hj).symm
  · rw [hlen]
    exact hremain
  · by_cases hnone : s.rxNum = 0
    · change Consecutive (s.stores ++ List.range' s.taken s.rxNum)
      rw [hnone, List.range'_zero, List.append_nil]
      exact hi.stores
    · exact hi.stores.append_range' (hfit hnone).1
  · change s.recvBuf.map _ = _
    rw [hi.recvBuf, Option.map_map]
    refine congrArg (Option.map · x.recvBuf) (funext fun m => ?_)
    exact write_stores m x.words s.stores s.taken s.rxNum
  · rw [hlen]
    exact Nat.add_le_add_right hi.kept _
  · change s.taken + s.rxNum ≤ _
    by_cases hnone : s.rxNum = 0
    · rw [hnone]; exact hi.taken
    · rcases (hfit hnone).2 with heq | hlt <;> omega
  · rw [hi.store_done]
    change _ ↔ s.taken + s.rxNum = _
    have hkept := hi.kept
    by_cases hnone : s.rxNum = 0
    · have hd := hi.rxNum_eq_zero.mp hnone
      have hempty := hi.last.mp hd
      have hall := hi.remain
      have htaken := hi.done.mp hd
      rw [hempty, UInt32.toNat_zero] at hall
      omega
    · rcases (hfit hnone).2 with heq | hlt <;> omega

/-- What `Kept` asks of a receive interrupt. -/
def RxKept (x : Call) (s : State) (status : UInt32) : Prop :=
  s.rxNum ≠ 0 →
    (s.Drains status → s.taken + s.rxNum < x.count.toNat) ∧
    (¬ s.Drains status → (∀ k ∈ s.stores.getLast?, k + 1 = s.taken) ∧
      (s.taken = s.stores.length ∨ s.taken + s.rxNum < x.count.toNat))

theorem rxint_of_drains (hd : s.Drains status) : s.rxint x status = s.drain := by
  rw [State.rxint]
  split
  next => rfl
  next i hsome =>
    rcases hd with hnull | hempty
    · exact absurd (hsome.symm.trans hnull) nofun
    · exact if_pos hempty

theorem rxint_of_not_drains (hd : ¬ s.Drains status) :
    ∃ i, s.trans.pRxBuf = some i ∧ s.rxint x status = s.store x i := by
  rw [State.rxint]
  split
  next hnull => exact absurd (.inl hnull) hd
  next i hsome => exact ⟨i, hsome, if_neg fun hempty => hd (.inr hempty)⟩

theorem Inv.rxint (hi : Inv x s) (hk : RxKept x s status) : Inv x (s.rxint x status) := by
  by_cases hd : s.Drains status
  · rw [rxint_of_drains hd]
    exact hi.drain fun hnum => (hk hnum).1 hd
  · obtain ⟨i, hsome, heq⟩ := rxint_of_not_drains (x := x) hd
    rw [heq]
    exact hi.store hsome fun hnum => (hk hnum).2 hd

/-- The transmit side changes nothing that the receive side looks at. -/
theorem txint_frame (x : Call) (s : State) : ∃ sent reads pTxBuf,
    s.txint x = { s with sent, reads, trans := { s.trans with pTxBuf } } := by
  rw [State.txint]
  split <;> exact ⟨_, _, _, rfl⟩

/-- The state between the two sides of an interrupt. -/
def State.between (x : Call) (s : State) (status : UInt32) : State :=
  if status &&& 0x02 ≠ 0 then s.txint x else s

theorem between_frame (x : Call) (s : State) (status : UInt32) : ∃ sent reads pTxBuf,
    s.between x status = { s with sent, reads, trans := { s.trans with pTxBuf } } := by
  rw [State.between]
  split
  · exact txint_frame x s
  · exact ⟨_, _, _, rfl⟩

theorem isr_eq (x : Call) (s : State) (status : UInt32) : s.isr x status =
    if status &&& 0x01 ≠ 0 then (s.between x status).rxint x status else s.between x status := rfl

theorem Inv.between (hi : Inv x s) (hk : Kept x s (.isr status)) : Inv x (s.between x status) := by
  rw [State.between]
  split
  next htx => exact hi.txint fun i hmem => (hk.1 htx i hmem).2
  next => exact hi

theorem Inv.isr (hi : Inv x s) (hk : Kept x s (.isr status)) : Inv x (s.isr x status) := by
  rw [isr_eq]
  split
  next hrx =>
    obtain ⟨sent, reads, pTxBuf, heq⟩ := between_frame x s status
    have hk' : RxKept x (s.between x status) status := by
      rw [heq]
      exact hk.2 hrx
    exact (hi.between hk).rxint hk'
  next => exact hi.between hk

theorem Inv.step (hi : Inv x s) (hk : Kept x s e) : Inv x (s.step x e).1 := by
  cases e with
  | isr status => exact hi.isr hk
  | setLevel level =>
    exact ⟨hi.reads, hi.sends, hi.pTxBuf, hi.writes, hi.pRxBuf, hi.remain, hi.stores, hi.recvBuf,
      hi.kept, hi.taken, hi.done, hi.last⟩

/-- A receive interrupt leaves the logs of the buffers as they are once the transfer is done. -/
theorem rxint_reads (x : Call) (s : State) (status : UInt32) :
    (s.rxint x status).reads = s.reads ∧
      (s.rxNum = 0 → (s.rxint x status).writes = s.writes) := by
  by_cases hd : s.Drains status
  · rw [rxint_of_drains hd]
    exact ⟨rfl, fun _ => rfl⟩
  · obtain ⟨i, -, heq⟩ := rxint_of_not_drains (x := x) hd
    rw [heq]
    refine ⟨rfl, fun hnone => ?_⟩
    rw [State.store, hnone]
    exact List.append_nil _

/-- After the transfer no interrupt accesses a buffer. -/
theorem Inv.quiet (hi : Inv x s) (hk : Kept x s e) (hdone : (s.step x e).2.done = true) :
    (s.step x e).2.accesses = 0 := by
  cases e with
  | setLevel level => rfl
  | isr status =>
    have hset : s.trans.transDone ≠ 0 := of_decide_eq_true hdone
    have hnone := hi.rxNum_eq_zero.mpr hset
    obtain ⟨sent, reads, pTxBuf, heq⟩ := between_frame x s status
    have hreads : (s.between x status).reads = s.reads := by
      rw [State.between]
      split
      next htx =>
        cases hnull : s.trans.pTxBuf with
        | none => rw [txint_of_null hnull]
        | some i => exact absurd (hk.1 htx i hnull).1 hset
      next => rfl
    have hlogs : (s.isr x status).reads = s.reads ∧ (s.isr x status).writes = s.writes := by
      rw [isr_eq]
      split
      next =>
        obtain ⟨hr, hw⟩ := rxint_reads x (s.between x status) status
        rw [hr, hreads, hw (by rw [heq]; exact hnone), heq]
        exact ⟨rfl, rfl⟩
      next => exact ⟨hreads, by rw [heq]⟩
    change (s.isr x status).reads.length - s.reads.length +
      ((s.isr x status).writes.length - s.writes.length) = 0
    rw [hlogs.1, hlogs.2, Nat.sub_self, Nat.sub_self]

/-- An interrupt that sends too much, or after the transfer, breaks the law. -/
theorem Inv.tx_kept (hi : Inv x s) (hr : Right x (h ++ [(.isr status, (s.step x (.isr status)).2)])
    (s.isr x status)) (htx : status &&& 0x02 ≠ 0) : ∀ i ∈ s.trans.pTxBuf,
    s.trans.transDone = 0 ∧ i + dataNum s.level.txLevel ≤ x.count.toNat := by
  intro i hmem
  obtain ⟨rfl, -⟩ := hi.pTxBuf i hmem
  obtain ⟨sent, heq⟩ := hi.txint_of_some hmem
  have hreads : (s.isr x status).reads = List.range (s.reads.length + dataNum s.level.txLevel) := by
    have hbetween : (s.between x status).reads =
        List.range (s.reads.length + dataNum s.level.txLevel) := by
      rw [State.between, if_pos htx, heq]
    rw [isr_eq]
    split
    · rw [(rxint_reads x _ status).1, hbetween]
    · exact hbetween
  constructor
  · by_contra hset
    have hquiet := hr.quiet _ (List.mem_append_right _ (List.mem_singleton.mpr rfl))
      (decide_eq_true hset)
    change (s.isr x status).reads.length - s.reads.length + _ = 0 at hquiet
    have hpos := dataNum_pos s.level.txLevel
    rw [hreads, List.length_range] at hquiet
    omega
  · obtain ⟨k, hk, heq'⟩ := hr.reads
    have hlen := congrArg List.length (hreads.symm.trans heq')
    rw [List.length_range, List.length_range] at hlen
    exact hlen ▸ hk

/-- An interrupt that drops a word too much, or between words that are stored, breaks the law. -/
theorem Inv.rx_kept (hi : Inv x s) (hr : Right x h (s.rxint x status)) : RxKept x s status := by
  intro hnum
  have hnot : ¬ s.trans.transDone ≠ 0 := fun hd => hnum (hi.rxNum_eq_zero.mpr hd)
  constructor
  · intro hd
    rw [rxint_of_drains hd] at hr
    have hne : s.taken + s.rxNum ≠ x.count.toNat := fun heq => hnot (hr.done.mpr heq)
    exact Nat.lt_of_le_of_ne hr.taken hne
  · intro hd
    obtain ⟨i, -, heq⟩ := rxint_of_not_drains (x := x) hd
    rw [heq] at hr
    obtain ⟨n, hn⟩ := Nat.exists_eq_succ_of_ne_zero hnum
    have hstores : Consecutive (s.stores ++ List.range' s.taken s.rxNum) := hr.stores
    rw [hn] at hstores
    refine ⟨hstores.last_of_append, ?_⟩
    have hdone := (hi.store_done i).symm.trans hr.done
    change _ ↔ s.taken + s.rxNum = _ at hdone
    have hle : s.taken + s.rxNum ≤ x.count.toNat := hr.taken
    by_cases hlast : s.taken + s.rxNum = x.count.toNat
    · have hall := hdone.mpr hlast
      exact .inl (by omega)
    · exact .inr (Nat.lt_of_le_of_ne hle hlast)

theorem Inv.kept_of_right (hi : Inv x s)
    (hr : Right x (h ++ [(e, (s.step x e).2)]) (s.step x e).1) : Kept x s e := by
  cases e with
  | setLevel level => trivial
  | isr status =>
    have htx := hi.tx_kept hr
    refine ⟨htx, fun hrx => ?_⟩
    have hbetween : Inv x (s.between x status) := by
      rw [State.between]
      split
      next hset => exact hi.txint fun i hmem => (htx hset i hmem).2
      next => exact hi
    have hr' : Right x (h ++ [(.isr status, (s.step x (.isr status)).2)])
        ((s.between x status).rxint x status) := by
      have heq : (s.step x (.isr status)).1 = s.isr x status := rfl
      rwa [heq, isr_eq, if_pos hrx] at hr
    obtain ⟨sent, reads, pTxBuf, heq⟩ := between_frame x s status
    have hk := hbetween.rx_kept hr'
    rw [heq] at hk
    exact hk

end Steps

section Run

variable {x : Call} {h : History} {s : State}

theorem inv_begin (hcount : x.count ≠ 0) : Inv x x.begin := by
  have hpos : 0 < x.count.toNat := UInt32.pos_iff_ne_zero.mpr hcount
  refine ⟨rfl, Nat.zero_le _, ?_, rfl, ?_, rfl, .nil, ?_, Nat.le_refl _, Nat.zero_le _, ?_, ?_⟩
  · intro i hi
    cases hbuf : x.sendBuf with
    | none => rw [Call.begin, hbuf] at hi; exact absurd hi nofun
    | some m => rw [Call.begin, hbuf] at hi; exact ⟨(Option.mem_some_iff.mp hi).symm, rfl⟩
  · intro i hi
    cases hbuf : x.recvBuf with
    | none => rw [Call.begin, hbuf] at hi; exact absurd hi nofun
    | some m => rw [Call.begin, hbuf] at hi; exact (Option.mem_some_iff.mp hi).symm
  · cases hbuf : x.recvBuf with
    | none => rw [Call.begin, hbuf]; rfl
    | some m => rw [Call.begin, hbuf]; exact congrArg some (Mem.write_nil _ _).symm
  · exact ⟨fun hd => absurd rfl hd, fun htaken => absurd htaken (Nat.ne_of_lt hpos)⟩
  · exact ⟨fun hd => absurd rfl hd, fun hzero => absurd hzero hcount⟩

/-- The invariant of a run whose interrupts meet the condition. -/
theorem inv_of_kept (hcount : x.count ≠ 0) (hr : (transfer x).ReachesUnder (Kept x) h s) :
    Inv x s ∧ ∀ e ∈ h, e.2.done = true → e.2.accesses = 0 := by
  refine hr.invariant (fun h s => Inv x s ∧ ∀ e ∈ h, e.2.done = true → e.2.accesses = 0)
    ⟨inv_begin hcount, nofun⟩ fun {h s e t a} hi hk hs => ?_
  obtain ⟨rfl, rfl⟩ := Prod.mk.inj (Option.some.inj hs)
  refine ⟨hi.1.step hk, fun e' he' => ?_⟩
  rcases List.mem_append.mp he' with hmem | hmem
  · exact hi.2 e' hmem
  · rw [List.mem_singleton.mp hmem]
    exact hi.1.quiet hk

/-- The law holds at first, and in every run it goes on to hold exactly if each interrupt sends no
more than there is to send and drops no word that is accounted for. -/
theorem i2s_transfer_iff_kept (hcount : x.count ≠ 0) : Right x [] (transfer x).init ∧
    ∀ h s, (transfer x).ReachesUnder (Kept x) h s ↔ (transfer x).ReachesWithin (Right x) h s := by
  refine ⟨(inv_begin hcount).right nofun, fun h s =>
    Machine.reachesUnder_iff_within (fun hr => ?_) ?_⟩
  · obtain ⟨hi, hquiet⟩ := inv_of_kept hcount hr
    exact hi.right hquiet
  · intro h s e t a hr hs hright
    obtain ⟨rfl, rfl⟩ := Prod.mk.inj (Option.some.inj hs)
    exact (inv_of_kept hcount hr).1.kept_of_right hright

/-- Twenty words, with the buffers that are there. -/
def twenty (send recv : Bool) : Call where
  sendBuf := if send then some fun _ => 1 else none
  recvBuf := if recv then some fun _ => 0 else none
  count := 20
  words k := UInt32.ofNat k

theorem i2s_transfer_twenty : ∃ h s,
    (transfer (twenty true true)).ReachesWithin (Right (twenty true true)) h s ∧
      s.reads = List.range 16 ∧ s.stores = List.range 20 ∧ s.trans.transDone = 1 := by
  obtain ⟨h, s, hx⟩ : ∃ h s, (transfer (twenty true true)).exec [.isr 3, .isr 1] = some (h, s) :=
    ⟨_, _, rfl⟩
  have hr : (transfer (twenty true true)).ReachesUnder (Kept (twenty true true)) h s :=
    Machine.reachesUnder_of_exec (by decide +kernel) hx
  have hwithin := ((i2s_transfer_iff_kept (by decide)).2 h s).mp hr
  refine ⟨h, s, hwithin, ?_⟩
  cases hx
  exact ⟨rfl, rfl, rfl⟩

/-- The second transmit interrupt reads behind the send buffer, and without a receive buffer the
transfer is never done. -/
theorem i2s_transfer_wrong :
    (¬ ∀ h s, (transfer (twenty true true)).Reaches h s → Right (twenty true true) h s) ∧
      ¬ ∀ h s, (transfer (twenty true false)).Reaches h s → Right (twenty true false) h s := by
  constructor
  · intro hall
    obtain ⟨h, s, hx, hreads⟩ : ∃ h s,
        (transfer (twenty true true)).exec [.isr 2, .isr 2] = some (h, s) ∧
        s.reads.length = 32 := ⟨_, _, rfl, rfl⟩
    obtain ⟨k, hk, heq⟩ := (hall h s (Machine.reaches_of_exec hx)).reads
    rw [heq, List.length_range] at hreads
    rw [hreads] at hk
    exact absurd hk (by decide)
  · intro hall
    obtain ⟨h, s, hx, htaken⟩ : ∃ h s,
        (transfer (twenty true false)).exec [.isr 1, .isr 1] = some (h, s) ∧
        s.taken = 32 := ⟨_, _, rfl, rfl⟩
    have hle := (hall h s (Machine.reaches_of_exec hx)).taken
    rw [htaken] at hle
    exact absurd hle (by decide)

end Run

end BdkRtt.Driver.I2s
