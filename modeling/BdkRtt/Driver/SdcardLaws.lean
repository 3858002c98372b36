import BdkRtt.Driver.Sdcard
import BdkRtt.Lib.Mem
import Mathlib.Data.Nat.Init

namespace BdkRtt.Driver.Sdcard

open Lib

universe u

section Law

variable {β : Type u}

/-- The session variables say what the card does. -/
def State.Agrees (s : State β) : Prop :=
  s.card =
    if s.noNeedSendCmd12Flag then .transfer
    else match s.sdioWrFlag with
      | .rdData => .sending s.lastWrAddr
      | .wrData => .receiving s.lastWrAddr

/-- The effect that a call has on a plain store of blocks. -/
def Done.Effect (d : Done β) : Prop :=
  match d.call with
  | .sdcardReadNew firstBlock blockNum | .sdcardRead firstBlock blockNum =>
    d.buffer = (Mem.read d.before firstBlock blockNum).map some ∧ d.after = d.before
  | .sdcardWriteNew firstBlock data | .sdcardWrite firstBlock data =>
    d.after = Mem.write d.before firstBlock data

def State.Legal (s : State β) : Prop := ∀ x ∈ s.issued, x.1.Legal x.2

structure Law (s : State β) : Prop where
  legal : s.Legal
  agrees : s.Agrees
  effect : ∀ d ∈ s.returned, d.success = true → d.Effect

structure Inv (s : State β) : Prop where
  law : Law s
  status : s.noNeedSendCmd12Flag = false → s.sdioWrFlag = .wrData → s.wrStatus = true

/-- Nothing goes wrong in a call that meets the open stream with `op`, but for the blocks before
`first`. -/
def Env.FineFrom (env : Env) (op : OpFlag) (first blockNum : Nat) : Prop :=
  (op = .stopOther ∨ op = .stopSame → env.stop = .ok) ∧ (op ≠ .go → env.start = .ok) ∧
    ∀ i, first ≤ i → i < blockNum → env.block i = .ok

abbrev Env.Fine (env : Env) (op : OpFlag) (blockNum : Nat) : Prop := env.FineFrom op 0 blockNum

/-- The commands of the call reach the card. -/
structure Env.Reaches (env : Env) (op : OpFlag) (blockNum : Nat) : Prop where
  stop : op = .stopOther ∨ op = .stopSame → env.stop ≠ .lost
  start : op ≠ .go → env.start ≠ .lost
  last : env.last ≠ .lost ∨ env.Fine op blockNum

/-- The first block after `CMD25` is not the only thing that goes wrong. -/
def Env.FirstSeen (env : Env) (op : OpFlag) (blockNum : Nat) : Prop :=
  op ≠ .go → env.FineFrom op 1 blockNum → env.block 0 = .ok

/-- The calls that the driver is up to: one that goes the other way comes after a stream that is
open, single blocks after one that has ended, no command to the stream is lost, and the first block
after `CMD25` does not fail alone. -/
def Orderly (s : State β) (e : Event β) : Prop :=
  match e.call with
  | .sdcardReadNew firstBlock blockNum =>
    (s.noNeedSendCmd12Flag = true → s.sdioWrFlag = .rdData) ∧
      e.env.Reaches (s.opFlag .rdData firstBlock) blockNum
  | .sdcardWriteNew firstBlock data | .sdcardWrite firstBlock data =>
    (s.noNeedSendCmd12Flag = true → s.sdioWrFlag = .wrData) ∧
      e.env.Reaches (s.opFlag .wrData firstBlock) data.length ∧
      e.env.FirstSeen (s.opFlag .wrData firstBlock) data.length
  | .sdcardRead _ count =>
    s.noNeedSendCmd12Flag = true ∧
      (count < 256 ∨ ∃ i, i < count % 256 ∧ (e.env.cmd17 i ≠ .ok ∨ e.env.block i ≠ .ok))

instance (env : Env) (op : OpFlag) (first blockNum : Nat) :
    Decidable (env.FineFrom op first blockNum) := inferInstanceAs (Decidable (_ ∧ _ ∧ _))

instance (env : Env) (op : OpFlag) (blockNum : Nat) : Decidable (env.Reaches op blockNum) :=
  decidable_of_iff ((op = .stopOther ∨ op = .stopSame → env.stop ≠ .lost) ∧
    (op ≠ .go → env.start ≠ .lost) ∧ (env.last ≠ .lost ∨ env.Fine op blockNum))
    ⟨fun h => ⟨h.1, h.2.1, h.2.2⟩, fun h => ⟨h.1, h.2, h.3⟩⟩

instance (env : Env) (op : OpFlag) (blockNum : Nat) : Decidable (env.FirstSeen op blockNum) :=
  inferInstanceAs (Decidable (_ → _ → _))

instance (s : State β) : ∀ e : Event β, Decidable (Orderly s e)
  | ⟨.sdcardReadNew .., _⟩ => inferInstanceAs (Decidable (_ ∧ _))
  | ⟨.sdcardWriteNew .., _⟩ => inferInstanceAs (Decidable (_ ∧ _ ∧ _))
  | ⟨.sdcardWrite .., _⟩ => inferInstanceAs (Decidable (_ ∧ _ ∧ _))
  | ⟨.sdcardRead .., _⟩ => inferInstanceAs (Decidable (_ ∧ (_ ∨ _)))

end Law

section Commands

variable {β : Type u} {g : Geometry} {s t v : State β} {c : Command} {o : Outcome}

/-- `t` differs from `s` at most in what the card does and in the commands, which were legal. -/
structure Kept (s t : State β) : Prop where
  eq : t = { s with card := t.card, issued := t.issued }
  legal : s.Legal → t.Legal

theorem Kept.refl (s : State β) : Kept s s := ⟨rfl, id⟩

theorem Kept.trans (h : Kept s t) (h' : Kept t v) : Kept s v := by
  refine ⟨?_, h'.legal ∘ h.legal⟩
  rw [h'.eq, h.eq]

theorem Kept.store (h : Kept s t) : t.store = s.store := by rw [h.eq]

theorem Kept.returned (h : Kept s t) : t.returned = s.returned := by rw [h.eq]

theorem Kept.noNeed (h : Kept s t) : t.noNeedSendCmd12Flag = s.noNeedSendCmd12Flag := by rw [h.eq]

theorem kept_issue (hc : s.card.Legal c) (card : CardState) :
    Kept s { s with card := card, issued := s.issued ++ [(s.card, c)] } := by
  refine ⟨rfl, fun hs x hx => ?_⟩
  rcases List.mem_append.mp hx with hx | hx
  · exact hs x hx
  · rw [List.mem_singleton.mp hx]
    exact hc

/-- What a legal command does that the card takes. -/
theorem sendCmd_spec (hc : s.card.Legal c) (ho : o ≠ .lost) :
    ∃ t ret, s.sendCmd g c o = (t, ret) ∧ Kept s t ∧ t.card = s.card.take g c ∧
      (ret = sdOk ↔ o = .ok) := by
  unfold State.sendCmd
  dsimp only
  rw [if_pos hc]
  cases o with
  | ok => exact ⟨_, _, rfl, kept_issue hc _, rfl, iff_of_true rfl rfl⟩
  | crc => exact ⟨_, _, rfl, kept_issue hc _, rfl, iff_of_false (by decide) nofun⟩
  | lost => exact absurd rfl ho

theorem argBlock_cmdArg {addr : Nat} (h : addr < g.size) : argBlock g (cmdArg g addr) = addr := by
  have hpow : 0 < 2 ^ g.addrShiftBit := Nat.two_pow_pos _
  have hlt : addr * 2 ^ g.addrShiftBit < 2 ^ 32 :=
    Nat.lt_of_lt_of_le (Nat.mul_lt_mul_of_pos_right h hpow) g.shift_lt
  rw [argBlock, cmdArg, Nat.mod_eq_of_lt hlt, Nat.mul_div_cancel _ hpow]

theorem legal_cmd12 (h : s.card ≠ .transfer) : s.card.Legal .cmd12 := by
  cases hcard : s.card with
  | transfer => exact absurd hcard h
  | sending _ | receiving _ | rejecting => trivial

end Commands

section Read

variable {β : Type u} {g : Geometry} {s t : State β}

theorem sdcardRcvData_cons {k : Nat} (hcard : s.card = .sending k) (ret : SdioError) (o : Outcome)
    (os : List Outcome) : s.sdcardRcvData ret (o :: os) =
      match o with
      | .ok =>
        let r := { s with card := .sending (k + 1) }.sdcardRcvData ret os
        (r.1, r.2.1, some (s.store k) :: r.2.2)
      | .crc =>
        let r := { s with card := .sending (k + 1) }.sdcardRcvData sdDataCrcFail os
        (r.1, r.2.1, none :: r.2.2)
      | .lost => (s, sdDataTimeout, []) := by
  cases o <;> simp only [State.sdcardRcvData, hcard]

/-- What comes in from a card that sends. -/
theorem sdcardRcvData_spec {k : Nat} (hcard : s.card = .sending k) (ret : SdioError)
    (os : List Outcome) : ∃ t r buffer, s.sdcardRcvData ret os = (t, r, buffer) ∧ Kept s t ∧
      t.card ≠ .transfer ∧ (r = sdOk ↔ ret = sdOk ∧ ∀ o ∈ os, o = .ok) ∧
      (r = sdOk → t.card = .sending (k + os.length) ∧
        buffer = (Mem.read s.store k os.length).map some) := by
  induction os generalizing s k ret with
  | nil =>
    refine ⟨s, ret, [], rfl, .refl s, by rw [hcard]; exact nofun, ?_, fun _ => ⟨hcard, rfl⟩⟩
    exact ⟨fun h => ⟨h, nofun⟩, And.left⟩
  | cons o os ih =>
    rw [sdcardRcvData_cons hcard]
    have hnext : Kept s { s with card := .sending (k + 1) } := ⟨rfl, id⟩
    cases o with
    | ok =>
      obtain ⟨t, r, buffer, heq, hkept, hne, hiff, hok⟩ :=
        ih (s := { s with card := .sending (k + 1) }) rfl ret
      dsimp only
      rw [heq]
      refine ⟨t, r, some (s.store k) :: buffer, rfl, hnext.trans hkept, hne, ?_, fun hr => ?_⟩
      · rw [hiff, List.forall_mem_cons]
        exact and_congr_right fun _ => ⟨fun h => ⟨rfl, h⟩, And.right⟩
      · obtain ⟨hcard', hbuf⟩ := hok hr
        refine ⟨?_, ?_⟩
        · rw [hcard', List.length_cons, Nat.add_right_comm, Nat.add_assoc]
        · rw [hbuf, List.length_cons, Nat.add_comm os.length 1, Mem.read_add]
          rfl
    | crc =>
      obtain ⟨t, r, buffer, heq, hkept, hne, hiff, -⟩ :=
        ih (s := { s with card := .sending (k + 1) }) rfl sdDataCrcFail
      have hbad : ¬ r = sdOk := fun h => absurd (hiff.mp h).1 (by decide)
      dsimp only
      rw [heq]
      refine ⟨t, r, none :: buffer, rfl, hnext.trans hkept, hne, ?_, fun h => absurd h hbad⟩
      exact iff_of_false hbad fun h => absurd (h.2 .crc (List.mem_cons_self ..)) nofun
    | lost =>
      refine ⟨s, sdDataTimeout, [], rfl, .refl s, by rw [hcard]; exact nofun, ?_,
        fun h => absurd h (by decide)⟩
      exact iff_of_false (by decide) fun h => absurd (h.2 .lost (List.mem_cons_self ..)) nofun

theorem Env.mem_blocks {env : Env} {n : Nat} :
    (∀ o ∈ env.blocks n, o = .ok) ↔ ∀ i, i < n → env.block i = .ok := by
  rw [Env.blocks, List.forall_mem_map]
  exact ⟨fun h i hi => h i (List.mem_range.mpr hi), fun h i hi => h i (List.mem_range.mp hi)⟩

@[simp] theorem Env.length_blocks (env : Env) (n : Nat) : (env.blocks n).length = n := by
  rw [Env.blocks, List.length_map, List.length_range]

theorem opFlag_go {direction : Direction} {firstBlock : Nat}
    (h : s.opFlag direction firstBlock = .go) : s.sdioWrFlag = direction ∧
      s.noNeedSendCmd12Flag = false ∧ s.lastWrAddr = firstBlock := by
  unfold State.opFlag at h
  split at h
  next => cases h
  next hdir =>
    split at h
    next => cases h
    next hno =>
      split at h
      next hlast => exact ⟨not_not.mp hdir, Bool.eq_false_iff.mpr hno, hlast⟩
      next => cases h

/-- An open stream is ended with a command that is legal. -/
theorem cmd12_spec (hcard : s.card ≠ .transfer) {o : Outcome} (ho : o ≠ .lost) :
    ∃ t ret, s.sdcardCmd12Process g o = (t, ret) ∧ Kept s t ∧ t.card = .transfer ∧
      (ret = sdOk ↔ o = .ok) :=
  sendCmd_spec (legal_cmd12 hcard) ho

theorem writeStop_ok (hcard : s.card ≠ .transfer) (hstatus : s.wrStatus = true) {o : Outcome}
    (ho : o ≠ .lost) : ∃ t ret, s.sdcardSendWriteStop g 0 o = (t, ret) ∧ Kept s t ∧
      t.card = .transfer ∧ (ret = sdOk ↔ o = .ok) := by
  obtain ⟨t, ret, heq, hkept, ht, hret⟩ := cmd12_spec (g := g) hcard ho
  refine ⟨t, ret, ?_, hkept, ht, hret⟩
  rw [State.sdcardSendWriteStop, heq, if_pos hstatus]
  exact congrArg (Prod.mk t) (Nat.zero_add ret)

/-- After the end of the open stream the card is ready for a command. -/
structure Ready (s t : State β) (op : OpFlag) (o : Outcome) (ret : SdioError) : Prop where
  kept : Kept s t
  card : t.card = .transfer
  ret : ret = sdOk ↔ (op = .stopOther ∨ op = .stopSame → o = .ok)

/-- The open stream of `s`, if any, has been met with `op`. -/
structure Meets (s : State β) (direction : Direction) (op : OpFlag) : Prop where
  other : op = .stopOther → s.card ≠ .transfer ∧ (direction = .rdData → s.wrStatus = true)
  same : op = .stopSame → s.card ≠ .transfer ∧ (direction = .wrData → s.wrStatus = true)
  stopped : op = .stopped → s.card = .transfer

theorem Inv.meets (h : Inv s) {direction : Direction} (firstBlock : Nat)
    (hdir : s.noNeedSendCmd12Flag = true → s.sdioWrFlag = direction) :
    Meets { s with noNeedSendCmd12Flag := false } direction (s.opFlag direction firstBlock) := by
  have hagrees := h.law.agrees
  have hopen : s.noNeedSendCmd12Flag = false → s.card ≠ .transfer := by
    intro hno heq
    rw [State.Agrees, hno, heq] at hagrees
    cases hflag : s.sdioWrFlag with
    | rdData =>
      rw [hflag] at hagrees
      cases hagrees
    | wrData =>
      rw [hflag] at hagrees
      cases hagrees
  have hwrite : s.noNeedSendCmd12Flag = false → s.sdioWrFlag = .wrData → s.wrStatus = true :=
    h.status
  unfold State.opFlag
  split
  next hne =>
    have hno : s.noNeedSendCmd12Flag = false := Bool.eq_false_iff.mpr fun hno => hne (hdir hno)
    refine ⟨fun _ => ⟨hopen hno, fun hd => hwrite hno ?_⟩, nofun, nofun⟩
    cases hflag : s.sdioWrFlag with
    | rdData => exact absurd (hflag.trans hd.symm) hne
    | wrData => rfl
  next heq =>
    have heq := not_not.mp heq
    split
    next hno =>
      refine ⟨nofun, nofun, fun _ => ?_⟩
      rw [State.Agrees, if_pos hno] at hagrees
      exact hagrees
    next hno =>
      have hno := Bool.eq_false_iff.mpr hno
      split
      next => exact ⟨nofun, nofun, nofun⟩
      next => exact ⟨nofun, fun _ => ⟨hopen hno, fun hd => hwrite hno (heq.trans hd)⟩, nofun⟩

theorem readStop_spec {op : OpFlag} (h : Meets s .rdData op) (hop : op ≠ .go) {o : Outcome}
    (ho : op = .stopOther ∨ op = .stopSame → o ≠ .lost) :
    ∃ t ret, s.readStop g op o = (t, ret) ∧ Ready s t op o ret := by
  cases op with
  | go => exact absurd rfl hop
  | stopOther =>
    obtain ⟨hcard, hstatus⟩ := h.other rfl
    obtain ⟨t, ret, heq, hkept, ht, hret⟩ :=
      writeStop_ok (g := g) hcard (hstatus rfl) (ho (.inl rfl))
    exact ⟨t, ret, heq, hkept, ht, hret.trans ⟨fun h _ => h, fun h => h (.inl rfl)⟩⟩
  | stopSame =>
    obtain ⟨t, ret, heq, hkept, ht, hret⟩ := cmd12_spec (g := g) (h.same rfl).1 (ho (.inr rfl))
    exact ⟨t, ret, heq, hkept, ht, hret.trans ⟨fun h _ => h, fun h => h (.inr rfl)⟩⟩
  | stopped =>
    refine ⟨s, sdOk, rfl, .refl s, h.stopped rfl, iff_of_true rfl fun hor => ?_⟩
    exact absurd hor (by decide)

theorem writeStop_spec {op : OpFlag} (h : Meets s .wrData op) (hop : op ≠ .go) {o : Outcome}
    (ho : op = .stopOther ∨ op = .stopSame → o ≠ .lost) :
    ∃ t ret, s.writeStop g op o = (t, ret) ∧ Ready s t op o ret := by
  cases op with
  | go => exact absurd rfl hop
  | stopOther =>
    obtain ⟨t, ret, heq, hkept, ht, hret⟩ := cmd12_spec (g := g) (h.other rfl).1 (ho (.inl rfl))
    exact ⟨t, ret, heq, hkept, ht, hret.trans ⟨fun h _ => h, fun h => h (.inl rfl)⟩⟩
  | stopSame =>
    obtain ⟨hcard, hstatus⟩ := h.same rfl
    obtain ⟨t, ret, heq, hkept, ht, hret⟩ :=
      writeStop_ok (g := g) hcard (hstatus rfl) (ho (.inr rfl))
    exact ⟨t, ret, heq, hkept, ht, hret.trans ⟨fun h _ => h, fun h => h (.inr rfl)⟩⟩
  | stopped =>
    refine ⟨s, sdOk, rfl, .refl s, h.stopped rfl, iff_of_true rfl fun hor => ?_⟩
    exact absurd hor (by decide)

/-- The command that begins the next stream. -/
theorem Ready.start {op : OpFlag} {o : Outcome} {r : SdioError} (h : Ready s t op o r)
    {c : Command} (hc : CardState.transfer.Legal c) {o' : Outcome} (ho : o' ≠ .lost) :
    ∃ u r', t.sendCmd g c o' = (u, r') ∧ Kept s u ∧ u.card = CardState.transfer.take g c ∧
      (sdOk = r + r' ↔ (op = .stopOther ∨ op = .stopSame → o = .ok) ∧ o' = .ok) := by
  have hlegal : t.card.Legal c := by
    rw [h.card]
    exact hc
  obtain ⟨u, r', heq, hkept, hcard, hret⟩ := sendCmd_spec (g := g) hlegal ho
  refine ⟨u, r', heq, h.kept.trans hkept, ?_, ?_⟩
  · rw [hcard, h.card]
  · rw [← h.ret, ← hret]
    exact eq_comm.trans Nat.add_eq_zero_iff

/-- What `sdcard_read_multi_block` reads. -/
theorem readStream_spec (h : Inv s) {firstBlock blockNum : Nat} {env : Env}
    (hfirst : firstBlock < g.size) (hdir : s.noNeedSendCmd12Flag = true → s.sdioWrFlag = .rdData)
    (henv : env.Reaches (s.opFlag .rdData firstBlock) blockNum) :
    ∃ t ret buffer, { s with noNeedSendCmd12Flag := false }.readStream g
        (s.opFlag .rdData firstBlock) firstBlock blockNum env = (t, ret, buffer) ∧
      Kept { s with noNeedSendCmd12Flag := false } t ∧ t.card ≠ .transfer ∧
      (ret = sdOk ↔ env.Fine (s.opFlag .rdData firstBlock) blockNum) ∧
      (ret = sdOk → t.card = .sending (firstBlock + blockNum) ∧
        buffer = (Mem.read s.store firstBlock blockNum).map some) := by
  have hmeets := h.meets firstBlock hdir
  unfold State.readStream
  by_cases hop : s.opFlag .rdData firstBlock = .go
  · obtain ⟨hflag, hno, hlast⟩ := opFlag_go hop
    have hcard : s.card = .sending firstBlock := by
      have hagrees := h.law.agrees
      rw [State.Agrees, hno, hflag, hlast] at hagrees
      exact hagrees
    obtain ⟨t, ret, buffer, heq, hkept, hne, hiff, hok⟩ := sdcardRcvData_spec
      (s := { s with noNeedSendCmd12Flag := false }) hcard sdOk (env.blocks blockNum)
    rw [if_pos hop]
    refine ⟨t, ret, buffer, heq, hkept, hne, ?_, ?_⟩
    · rw [hiff, Env.mem_blocks, hop]
      refine ⟨fun hall => ⟨fun hor => absurd hor (by decide), fun hne => absurd rfl hne, ?_⟩,
        fun hfine => ⟨rfl, fun i => hfine.2.2 i (Nat.zero_le i)⟩⟩
      exact fun i _ => hall.2 i
    · rw [Env.length_blocks] at hok
      exact hok
  · obtain ⟨u, r, heq, hready⟩ := readStop_spec (g := g) hmeets hop henv.stop
    obtain ⟨v, r', hcmd, hkept, hcard, hsum⟩ :=
      hready.start (g := g) (c := .cmd18 (cmdArg g firstBlock)) trivial (henv.start hop)
    have hcmd : u.sdcardCmd18Process g firstBlock env.start = (v, r') := hcmd
    rw [CardState.take, argBlock_cmdArg hfirst] at hcard
    have hne : v.card ≠ .transfer := by
      rw [hcard]
      exact nofun
    rw [if_neg hop, heq]
    dsimp only
    rw [hcmd]
    dsimp only
    by_cases hgood : sdOk = r + r'
    · obtain ⟨t, ret, buffer, hrcv, hkept₂, hne₂, hiff, hok⟩ :=
        sdcardRcvData_spec hcard sdOk (env.blocks blockNum)
      rw [if_pos hgood]
      refine ⟨t, ret, buffer, hrcv, hkept.trans hkept₂, hne₂, ?_, fun hr => ?_⟩
      · rw [hiff, Env.mem_blocks]
        exact ⟨fun hall => ⟨(hsum.mp hgood).1, fun _ => (hsum.mp hgood).2, fun i _ => hall.2 i⟩,
          fun hfine => ⟨rfl, fun i => hfine.2.2 i (Nat.zero_le i)⟩⟩
      · rw [Env.length_blocks] at hok
        obtain ⟨hc, hb⟩ := hok hr
        exact ⟨hc, hb.trans (by rw [hkept.store])⟩
    · rw [if_neg hgood]
      refine ⟨v, r + r', [], rfl, hkept, hne, ?_, fun hr => absurd hr.symm hgood⟩
      exact iff_of_false (fun hr => hgood hr.symm)
        fun hfine => hgood (hsum.mpr ⟨hfine.1, hfine.2.1 hop⟩)

end Read

section Write

variable {β : Type u} {g : Geometry} {s t v : State β}

/-- `t` differs from `s` at most in the card, the status of its last block and the commands, which
were legal. -/
structure Used (s t : State β) : Prop where
  eq : t = { s with card := t.card, store := t.store, wrStatus := t.wrStatus, issued := t.issued }
  legal : s.Legal → t.Legal

theorem Kept.used (h : Kept s t) : Used s t := by
  refine ⟨?_, h.legal⟩
  rw [h.eq]

theorem Used.returned (h : Used s t) : t.returned = s.returned := by rw [h.eq]

theorem Used.noNeed (h : Used s t) : t.noNeedSendCmd12Flag = s.noNeedSendCmd12Flag := by rw [h.eq]

theorem Used.trans (h : Used s t) (h' : Used t v) : Used s v := by
  refine ⟨?_, h'.legal ∘ h.legal⟩
  rw [h'.eq, h.eq]

/-- The blocks have gone to a card that was receiving at `k`. -/
structure Sent (s t : State β) (k : Nat) (data : List β) : Prop where
  card : t.card = .receiving (k + data.length)
  store : t.store = Mem.write s.store k data
  status : t.wrStatus = true

theorem writeOtherBlocks_cons {k : Nat} (hcard : s.card = .receiving k) (b : β) (o : Outcome)
    (rest : List (β × Outcome)) : s.writeOtherBlocks ((b, o) :: rest) =
      match o with
      | .ok => State.writeOtherBlocks { s with
          card := .receiving (k + 1)
          store := Function.update s.store k b
          wrStatus := true } rest
      | .crc => some ({ s with card := .rejecting, wrStatus := false }, sdError)
      | .lost => none := by
  cases o <;> simp only [State.writeOtherBlocks, State.sendBlock, hcard]

/-- `t` comes after the blocks. -/
structure Streamed (s t : State β) (k : Nat) (blocks : List (β × Outcome)) (ret : SdioError) :
    Prop where
  used : Used s t
  card : t.card ≠ .transfer
  fine : ret = sdOk ↔ ∀ x ∈ blocks, x.2 = .ok
  sent : ret = sdOk → Sent s t k (blocks.map Prod.fst)

/-- What goes out to a card that receives. -/
theorem writeOtherBlocks_spec {k : Nat} (hcard : s.card = .receiving k)
    {blocks : List (β × Outcome)} (hstatus : s.wrStatus = true ∨ blocks ≠ []) {ret : SdioError}
    (h : s.writeOtherBlocks blocks = some (t, ret)) : Streamed s t k blocks ret := by
  induction blocks generalizing s k with
  | nil =>
    cases h
    refine ⟨(Kept.refl _).used, by rw [hcard]; exact nofun, iff_of_true rfl nofun, fun _ => ?_⟩
    exact ⟨hcard, (Mem.write_nil ..).symm, hstatus.resolve_right fun h => h rfl⟩
  | cons x rest ih =>
    obtain ⟨b, o⟩ := x
    rw [writeOtherBlocks_cons hcard] at h
    cases o with
    | ok =>
      obtain ⟨hused, hne, hret, hsent⟩ := ih rfl (.inl rfl) h
      have hnext : Used s { s with
          card := .receiving (k + 1)
          store := Function.update s.store k b
          wrStatus := true } := ⟨rfl, id⟩
      refine ⟨hnext.trans hused, hne, ?_, fun hr => ?_⟩
      · rw [hret, List.forall_mem_cons]
        exact ⟨fun h => ⟨rfl, h⟩, And.right⟩
      · obtain ⟨hc, hst, hw⟩ := hsent hr
        refine ⟨?_, ?_, hw⟩
        · rw [hc, List.map_cons, List.length_cons, Nat.add_right_comm, Nat.add_assoc]
        · rw [hst, List.map_cons, Mem.write_cons]
    | crc =>
      cases h
      refine ⟨⟨rfl, id⟩, nofun, iff_of_false (by decide) fun hok => ?_,
        fun hr => absurd hr (by decide)⟩
      exact absurd (hok _ (List.mem_cons_self ..)) nofun
    | lost => cases h

/-- The first block makes no difference unless it is the only one to fail. -/
theorem firstBlock_spec {k : Nat} (hcard : s.card = .receiving k) {b : β} {o : Outcome}
    {rest : List (β × Outcome)} (hfirst : (∀ x ∈ rest, x.2 = .ok) → o = .ok) {ret : SdioError}
    (h : s.sdcardWriteData true ((b, o) :: rest) = some (t, ret)) :
    Streamed s t k ((b, o) :: rest) ret := by
  have hrest : o ≠ .ok → rest ≠ [] := by
    rintro ho rfl
    exact ho (hfirst nofun)
  cases o with
  | ok =>
    refine writeOtherBlocks_spec hcard (.inr (List.cons_ne_nil _ _)) ?_
    rw [← h]
    simp only [State.sdcardWriteData, State.writeOtherBlocks, hcard]
  | crc =>
    cases rest with
    | nil => exact absurd rfl (hrest nofun)
    | cons x rest =>
      simp only [State.sdcardWriteData, State.sendBlock, hcard, State.writeOtherBlocks] at h
      cases h
  | lost =>
    simp only [State.sdcardWriteData, State.sendBlock, hcard] at h
    obtain ⟨hused, hne, hret, -⟩ := writeOtherBlocks_spec
      (s := { s with card := .receiving k, wrStatus := false }) rfl (.inr (hrest nofun)) h
    have hbad : ¬ ret = sdOk := fun hr => absurd (hfirst (hret.mp hr)) nofun
    have hnext : Used s { s with card := .receiving k, wrStatus := false } := ⟨rfl, id⟩
    refine ⟨hnext.trans hused, hne, iff_of_false hbad fun hok => ?_, fun hr => absurd hr hbad⟩
    exact absurd (hok _ (List.mem_cons_self ..)) nofun

variable {env : Env} {data : List β}

theorem map_fst_blocks : (data.zip (env.blocks data.length)).map Prod.fst = data :=
  List.map_fst_zip (Nat.le_of_eq (Env.length_blocks ..).symm)

theorem forall_zip_blocks : (∀ x ∈ data.zip (env.blocks data.length), x.2 = .ok) ↔
    ∀ i, i < data.length → env.block i = .ok := by
  rw [← Env.mem_blocks, ← List.map_snd_zip (Nat.le_of_eq (Env.length_blocks env data.length)),
    List.forall_mem_map, List.map_snd_zip (Nat.le_of_eq (Env.length_blocks ..))]

theorem zip_blocks_cons (b : β) : (b :: data).zip (env.blocks (b :: data).length) =
    (b, env.block 0) :: data.zip ((List.range data.length).map fun i => env.block (i + 1)) := by
  rw [Env.blocks, List.length_cons, List.range_succ_eq_map, List.map_cons, List.map_map]
  rfl

theorem forall_zip_others (h : ∀ x ∈ data.zip ((List.range data.length).map fun i =>
      env.block (i + 1)), x.2 = .ok) {i : Nat} (hi : 1 ≤ i) (hlt : i < data.length + 1) :
    env.block i = .ok := by
  obtain ⟨j, rfl⟩ := Nat.exists_eq_add_of_le' hi
  have hj : j < data.length := Nat.lt_of_succ_lt_succ hlt
  refine h (data[j], env.block (j + 1)) (List.mem_iff_getElem.mpr ⟨j, ?_, ?_⟩)
  · simpa using hj
  · simp

/-- What `sdcard_write_multi_block` writes. -/
theorem writeStream_spec (h : Inv s) {firstBlock : Nat} (hfirst : firstBlock < g.size)
    (hdata : data ≠ []) (hdir : s.noNeedSendCmd12Flag = true → s.sdioWrFlag = .wrData)
    (henv : env.Reaches (s.opFlag .wrData firstBlock) data.length)
    (hseen : env.FirstSeen (s.opFlag .wrData firstBlock) data.length) {ret : SdioError}
    (hrun : { s with noNeedSendCmd12Flag := false }.writeStream g (s.opFlag .wrData firstBlock)
      firstBlock data env = some (t, ret)) :
    Used { s with noNeedSendCmd12Flag := false } t ∧ t.card ≠ .transfer ∧
      (ret = sdOk ↔ env.Fine (s.opFlag .wrData firstBlock) data.length) ∧
      (ret = sdOk → Sent s t firstBlock data) := by
  have hmeets := h.meets firstBlock hdir
  unfold State.writeStream at hrun
  by_cases hop : s.opFlag .wrData firstBlock = .go
  · obtain ⟨hflag, hno, hlast⟩ := opFlag_go hop
    have hcard : s.card = .receiving firstBlock := by
      have hagrees := h.law.agrees
      rw [State.Agrees, hno, hflag, hlast] at hagrees
      exact hagrees
    rw [if_pos hop] at hrun
    obtain ⟨hused, hne, hret, hsent⟩ := writeOtherBlocks_spec
      (s := { s with noNeedSendCmd12Flag := false }) hcard (.inl (h.status hno hflag)) hrun
    rw [map_fst_blocks] at hsent
    refine ⟨hused, hne, ?_, fun hr => ⟨(hsent hr).card, (hsent hr).store, (hsent hr).status⟩⟩
    rw [hret, forall_zip_blocks, hop]
    exact ⟨fun hall => ⟨fun hor => absurd hor (by decide), fun hne => absurd rfl hne,
      fun i _ => hall i⟩, fun hfine i => hfine.2.2 i (Nat.zero_le i)⟩
  · obtain ⟨u, r, heq, hready⟩ := writeStop_spec (g := g) hmeets hop henv.stop
    obtain ⟨v, r', hcmd, hkept, hcard, hsum⟩ :=
      hready.start (g := g) (c := .cmd25 (cmdArg g firstBlock)) trivial (henv.start hop)
    have hcmd : u.sdcardCmd25Process g firstBlock env.start = (v, r') := hcmd
    rw [CardState.take, argBlock_cmdArg hfirst] at hcard
    rw [if_neg hop, heq] at hrun
    dsimp only at hrun
    rw [hcmd] at hrun
    dsimp only at hrun
    by_cases hgood : sdOk = r + r'
    · have hfirst : Streamed v t firstBlock (data.zip (env.blocks data.length)) ret := by
        rw [if_pos hgood] at hrun
        cases data with
        | nil => exact absurd rfl hdata
        | cons b data =>
          rw [zip_blocks_cons] at hrun ⊢
          refine firstBlock_spec hcard (fun hothers => hseen hop ?_) hrun
          exact ⟨(hsum.mp hgood).1, fun _ => (hsum.mp hgood).2, fun i => forall_zip_others hothers⟩
      obtain ⟨hused, hne, hret, hsent⟩ := hfirst
      rw [map_fst_blocks] at hsent
      refine ⟨hkept.used.trans hused, hne, ?_,
        fun hr => ⟨(hsent hr).card, ?_, (hsent hr).status⟩⟩
      · rw [hret, forall_zip_blocks]
        exact ⟨fun hall => ⟨(hsum.mp hgood).1, fun _ => (hsum.mp hgood).2, fun i _ => hall i⟩,
          fun hfine i => hfine.2.2 i (Nat.zero_le i)⟩
      · rw [(hsent hr).store, hkept.store]
    · rw [if_neg hgood] at hrun
      cases hrun
      refine ⟨hkept.used, by rw [hcard]; exact nofun, ?_, fun hr => absurd hr.symm hgood⟩
      exact iff_of_false (fun hr => hgood hr.symm)
        fun hfine => hgood (hsum.mpr ⟨hfine.1, hfine.2.1 hop⟩)

end Write

section Calls

variable {β : Type u} {g : Geometry} {s t v : State β} {env : Env}

/-- A call has ended and is still to be recorded. -/
structure Served (s t : State β) : Prop where
  legal : t.Legal
  agrees : t.Agrees
  status : t.noNeedSendCmd12Flag = false → t.sdioWrFlag = .wrData → t.wrStatus = true
  returned : t.returned = s.returned

/-- The stream of `t` has been ended. -/
structure Closed (t v : State β) : Prop where
  legal : v.Legal
  card : v.card = .transfer
  noNeed : v.noNeedSendCmd12Flag = true
  returned : v.returned = t.returned

theorem Closed.served (h : Closed t v) (hret : t.returned = s.returned) (d : Direction) (n : Nat) :
    Served s { v with sdioWrFlag := d, lastWrAddr := n } := by
  refine ⟨h.legal, ?_, fun hno => ?_, h.returned.trans hret⟩
  · rw [State.Agrees, if_pos h.noNeed]
    exact h.card
  · exact absurd (h.noNeed.symm.trans hno) (by decide)

theorem sum_ne_sdOk {r r' : SdioError} (h : r ≠ sdOk) : r + r' ≠ sdOk :=
  fun hsum => h (Nat.add_eq_zero_iff.mp hsum).1

theorem finishRead_spec (hlegal : t.Legal) (hcard : t.card ≠ .transfer) {ret : SdioError}
    (hret : ret ≠ sdOk) (hlast : env.last ≠ .lost) :
    ∃ v r, t.finishRead g ret env = (v, r) ∧ Closed t v ∧ r ≠ sdOk := by
  obtain ⟨v, r, heq, hkept, hv, -⟩ :=
    cmd12_spec (g := g) (s := { t with noNeedSendCmd12Flag := true }) hcard hlast
  have hstop : State.sdcardSendReadStop g { t with noNeedSendCmd12Flag := true } env.last =
      (v, r) := heq
  refine ⟨v, ret + r, ?_, ⟨hkept.legal hlegal, hv, hkept.noNeed, hkept.returned⟩,
    sum_ne_sdOk hret⟩
  rw [State.finishRead, if_pos hret.symm, hstop]

theorem finishWrite_spec (hlegal : t.Legal) (hcard : t.card ≠ .transfer) {ret : SdioError}
    (hret : ret ≠ sdOk) (hlast : env.last ≠ .lost) :
    ∃ v r, t.finishWrite g ret env = (v, r) ∧ Closed t v ∧ r ≠ sdOk := by
  obtain ⟨v, r, heq, hkept, hv, -⟩ := cmd12_spec (g := g) hcard hlast
  refine ⟨{ v with noNeedSendCmd12Flag := true },
    ret + ((if t.wrStatus then sdOk else sdError) + r + ret), ?_,
    ⟨hkept.legal hlegal, hv, rfl, hkept.returned⟩, sum_ne_sdOk hret⟩
  rw [State.finishWrite, if_pos hret, State.sdcardSendWriteStop, heq]

theorem sdcardReadMultiBlock_spec (h : Inv s) {firstBlock blockNum : Nat}
    (hinside : g.Inside firstBlock blockNum)
    (hdir : s.noNeedSendCmd12Flag = true → s.sdioWrFlag = .rdData)
    (henv : env.Reaches (s.opFlag .rdData firstBlock) blockNum) :
    ∃ t ret buffer, s.sdcardReadMultiBlock g firstBlock blockNum env = (t, ret, buffer) ∧
      Served s t ∧ (ret = sdOk → t.store = s.store ∧
        buffer = (Mem.read s.store firstBlock blockNum).map some) := by
  have hfirst : firstBlock < g.size := Nat.lt_of_lt_of_le (Nat.lt_add_of_pos_right hinside.1)
    hinside.2.1
  obtain ⟨t, ret, buffer, heq, hkept, hne, hfine, hok⟩ := readStream_spec h hfirst hdir henv
  unfold State.sdcardReadMultiBlock
  dsimp only
  rw [heq]
  dsimp only
  by_cases hret : ret = sdOk
  · obtain ⟨hcard, hbuf⟩ := hok hret
    rw [State.finishRead, if_neg (not_not.mpr hret.symm)]
    refine ⟨_, _, _, rfl, ⟨hkept.legal h.law.legal, ?_, fun _ => nofun, hkept.returned⟩,
      fun _ => ⟨hkept.store, hbuf⟩⟩
    rw [State.Agrees, hkept.noNeed]
    exact hcard
  · have hlast : env.last ≠ .lost := henv.last.resolve_right fun hf => hret (hfine.mpr hf)
    obtain ⟨v, r, hfin, hclosed, hr⟩ :=
      finishRead_spec (g := g) (hkept.legal h.law.legal) hne hret hlast
    rw [hfin]
    exact ⟨_, _, _, rfl,
      hclosed.served (s := s) hkept.returned .rdData (firstBlock + blockNum),
      fun hr' => absurd hr' hr⟩

theorem sdcardWriteMultiBlock_spec (h : Inv s) {firstBlock : Nat} {data : List β}
    (hinside : g.Inside firstBlock data.length)
    (hdir : s.noNeedSendCmd12Flag = true → s.sdioWrFlag = .wrData)
    (henv : env.Reaches (s.opFlag .wrData firstBlock) data.length)
    (hseen : env.FirstSeen (s.opFlag .wrData firstBlock) data.length) {ret : SdioError}
    (hrun : s.sdcardWriteMultiBlock g firstBlock data env = some (t, ret)) :
    Served s t ∧ (ret = sdOk → t.store = Mem.write s.store firstBlock data) := by
  have hfirst : firstBlock < g.size := Nat.lt_of_lt_of_le (Nat.lt_add_of_pos_right hinside.1)
    hinside.2.1
  have hdata : data ≠ [] := List.ne_nil_of_length_pos hinside.1
  unfold State.sdcardWriteMultiBlock at hrun
  dsimp only at hrun
  obtain ⟨⟨u, r⟩, hstream, hrun⟩ := Option.map_eq_some_iff.mp hrun
  obtain ⟨hused, hne, hfine, hsent⟩ := writeStream_spec h hfirst hdata hdir henv hseen hstream
  dsimp only at hrun
  by_cases hret : r = sdOk
  · obtain ⟨hcard, hstore, hstatus⟩ := hsent hret
    rw [State.finishWrite, if_neg (not_not.mpr hret)] at hrun
    cases hrun
    refine ⟨⟨hused.legal h.law.legal, ?_, fun _ _ => hstatus, hused.returned⟩, fun _ => hstore⟩
    rw [State.Agrees, hused.noNeed]
    exact hcard
  · have hlast : env.last ≠ .lost := henv.last.resolve_right fun hf => hret (hfine.mpr hf)
    obtain ⟨v, r', hfin, hclosed, hr⟩ :=
      finishWrite_spec (g := g) (hused.legal h.law.legal) hne hret hlast
    rw [hfin] at hrun
    cases hrun
    exact ⟨hclosed.served (s := s) hused.returned .wrData (firstBlock + data.length),
      fun hr' => absurd hr' hr⟩

/-- A single block is read from a card that is in transfer state, and leaves it there. -/
theorem sdcardReadSingleBlock_spec (hcard : s.card = .transfer) (addr : Nat) (haddr : addr < g.size)
    (cmd data : Outcome) : ∃ t ret block, s.sdcardReadSingleBlock g addr cmd data =
      (t, ret, block) ∧ Kept s t ∧ t.card = .transfer ∧
      (ret = sdOk ↔ cmd = .ok ∧ data = .ok) ∧ (ret = sdOk → block = [some (s.store addr)]) := by
  have hlegal : s.card.Legal (.cmd17 (cmdArg g addr)) := by
    rw [hcard]
    trivial
  unfold State.sdcardReadSingleBlock
  by_cases hlost : cmd = .lost
  · have hsend : s.sendCmd g (.cmd17 (cmdArg g addr)) cmd =
        ({ s with issued := s.issued ++ [(s.card, .cmd17 (cmdArg g addr))] }, sdCmdRspTimeout) := by
      unfold State.sendCmd
      dsimp only
      rw [if_pos hlegal, hlost]
    rw [hsend]
    refine ⟨_, sdCmdRspTimeout, [], rfl, kept_issue hlegal s.card, hcard, ?_,
      fun hr => absurd hr (by decide)⟩
    exact iff_of_false (by decide) fun h => absurd (hlost.symm.trans h.1) nofun
  · obtain ⟨t, ret, heq, hkept, ht, hret⟩ := sendCmd_spec (g := g) hlegal hlost
    rw [CardState.take, hcard] at ht
    rw [heq]
    dsimp only
    by_cases hr : ret = sdOk
    · rw [if_neg (not_not.mpr hr)]
      have hcmd := hret.mp hr
      cases data with
      | ok =>
        refine ⟨t, sdOk, _, rfl, hkept, ht, iff_of_true rfl ⟨hcmd, rfl⟩, fun _ => ?_⟩
        rw [argBlock_cmdArg haddr, hkept.store]
      | crc =>
        exact ⟨t, _, [], rfl, hkept, ht, iff_of_false (by decide) fun h => absurd h.2 nofun,
          fun hr => absurd hr (by decide)⟩
      | lost =>
        exact ⟨t, _, [], rfl, hkept, ht, iff_of_false (by decide) fun h => absurd h.2 nofun,
          fun hr => absurd hr (by decide)⟩
    · rw [if_pos hr]
      exact ⟨t, ret, [], rfl, hkept, ht, iff_of_false hr fun h => hr (hret.mpr h.1),
        fun hr' => absurd hr' hr⟩

theorem readBlocks_spec (hcard : s.card = .transfer) (addr : Nat)
    (outcomes : List (Outcome × Outcome)) (haddr : addr + outcomes.length ≤ g.size) :
    ∃ t ret buffer, s.readBlocks g addr outcomes = (t, ret, buffer) ∧ Kept s t ∧
      t.card = .transfer ∧ (ret = sdOk ↔ ∀ x ∈ outcomes, x.1 = .ok ∧ x.2 = .ok) ∧
      (ret = sdOk → buffer = (Mem.read s.store addr outcomes.length).map some) := by
  induction outcomes generalizing s addr with
  | nil => exact ⟨s, sdOk, [], rfl, .refl s, hcard, iff_of_true rfl nofun, fun _ => rfl⟩
  | cons x rest ih =>
    obtain ⟨cmd, data⟩ := x
    rw [List.length_cons] at haddr
    obtain ⟨t, ret, block, heq, hkept, ht, hret, hblock⟩ :=
      sdcardReadSingleBlock_spec (g := g) hcard addr (by omega) cmd data
    rw [State.readBlocks, heq]
    dsimp only
    by_cases hr : ret = sdOk
    · obtain ⟨u, ret', buffer, heq', hkept', hu, hret', hbuf⟩ :=
        ih ht (addr + 1) (by omega)
      rw [if_neg (not_not.mpr hr), heq']
      refine ⟨u, ret', _, rfl, hkept.trans hkept', hu, ?_, fun hr' => ?_⟩
      · rw [hret', List.forall_mem_cons]
        exact ⟨fun h => ⟨hret.mp hr, h⟩, And.right⟩
      · rw [hblock hr, hbuf hr', hkept.store, List.length_cons,
          Nat.add_comm rest.length 1, Mem.read_add]
        rfl
    · rw [if_pos hr]
      refine ⟨t, ret, [], rfl, hkept, ht, iff_of_false hr fun h => ?_, fun hr' => absurd hr' hr⟩
      exact hr (hret.mpr (h _ (List.mem_cons_self ..)))

/-- `sdcard_read` after a stream that has ended. -/
theorem sdcardRead_spec (h : Inv s) {startBlkAddr count : Nat}
    (hinside : g.Inside startBlkAddr count) (hno : s.noNeedSendCmd12Flag = true)
    (hcount : count < 256 ∨ ∃ i, i < count % 256 ∧ (env.cmd17 i ≠ .ok ∨ env.block i ≠ .ok)) :
    ∃ t ret buffer, s.sdcardRead g startBlkAddr count env = (t, ret, buffer) ∧ Served s t ∧
      (ret = count → t.store = s.store ∧
        buffer = (Mem.read s.store startBlkAddr count).map some) := by
  have hcard : s.card = .transfer := by
    have hagrees := h.law.agrees
    rw [State.Agrees, if_pos hno] at hagrees
    exact hagrees
  have hlen := Nat.mod_le count 256
  obtain ⟨t, ret, buffer, heq, hkept, ht, hret, hbuf⟩ := readBlocks_spec (g := g) hcard
    startBlkAddr ((List.range (count % 256)).map fun i => (env.cmd17 i, env.block i)) (by
      rw [List.length_map, List.length_range]
      exact Nat.le_trans (Nat.add_le_add_left hlen _) hinside.2.1)
  refine ⟨t, if ret = sdOk then count else 0, buffer, ?_, ⟨hkept.legal h.law.legal, ?_,
    fun hno' => ?_, hkept.returned⟩, fun hr => ?_⟩
  · rw [State.sdcardRead, heq]
  · rw [State.Agrees, hkept.noNeed, if_pos hno]
    exact ht
  · rw [hkept.noNeed, hno] at hno'
    cases hno'
  · have hok : ret = sdOk := by
      by_contra hne
      rw [if_neg hne] at hr
      exact absurd hinside.1 (by omega)
    have hall := hret.mp hok
    have hlt : count < 256 := by
      refine hcount.resolve_right ?_
      rintro ⟨i, hi, hbad⟩
      have hi := hall _ (List.mem_map_of_mem (List.mem_range.mpr hi))
      exact hbad.elim (fun h => h hi.1) fun h => h hi.2
    have hbuf := hbuf hok
    rw [List.length_map, List.length_range, Nat.mod_eq_of_lt hlt] at hbuf
    exact ⟨hkept.store, hbuf⟩

end Calls

section Runs

variable {β : Type u} {g : Geometry} {store : Nat → β}

theorem Served.inv {s t : State β} (h : Served s t) (hinv : Inv s) {d : Done β}
    (hd : d.success = true → d.Effect) : Inv { t with returned := t.returned ++ [d] } := by
  refine ⟨⟨h.legal, h.agrees, fun x hx => ?_⟩, h.status⟩
  rcases List.mem_append.mp hx with hx | hx
  · rw [h.returned] at hx
    exact hinv.law.effect x hx
  · rw [List.mem_singleton.mp hx]
    exact hd

theorem inv_init (store : Nat → β) : Inv (init store) :=
  ⟨⟨nofun, rfl, nofun⟩, nofun⟩

theorem step_inv {s t : State β} {e : Event β} {o : Nat} (h : Inv s) (hc : Orderly s e)
    (hs : State.step g s e = some (t, o)) : Inv t := by
  obtain ⟨call, env⟩ := e
  unfold State.step at hs
  split at hs
  next hinside =>
    obtain ⟨⟨u, ret, buffer⟩, hrun, hs⟩ := Option.map_eq_some_iff.mp hs
    obtain rfl : _ = t := congrArg Prod.fst hs
    cases call with
    | sdcardReadNew firstBlock blockNum =>
      obtain ⟨hdir, henv⟩ := hc
      obtain ⟨t, r, b, heq, hserved, hok⟩ := sdcardReadMultiBlock_spec (g := g) h hinside hdir henv
      cases (Option.some.inj hrun).symm.trans heq
      exact hserved.inv h fun hsucc => (hok (eq_of_beq hsucc)).symm
    | sdcardWriteNew firstBlock data | sdcardWrite firstBlock data =>
      obtain ⟨hdir, henv, hseen⟩ := hc
      obtain ⟨⟨t, r⟩, hrun, heq⟩ := Option.map_eq_some_iff.mp hrun
      obtain ⟨hserved, hok⟩ := sdcardWriteMultiBlock_spec h hinside hdir henv hseen hrun
      cases heq
      exact hserved.inv h fun hsucc => hok (eq_of_beq hsucc)
    | sdcardRead startBlkAddr count =>
      obtain ⟨hno, hcount⟩ := hc
      obtain ⟨t, r, b, heq, hserved, hok⟩ := sdcardRead_spec (g := g) h hinside hno hcount
      cases (Option.some.inj hrun).symm.trans heq
      exact hserved.inv h fun hsucc => (hok (eq_of_beq hsucc)).symm
  next => cases hs

end Runs

end BdkRtt.Driver.Sdcard
