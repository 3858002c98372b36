import BdkRtt.Wlan.AirkissMacs
import BdkRtt.Wlan.AirkissScanLaws
import Mathlib.Algebra.Group.Nat.Defs
import Mathlib.Data.List.Induction
import Mathlib.Order.Lattice

namespace BdkRtt.Wlan.Airkiss

open Lib

section Table

variable {m : Macs} {bs : List Beacon} {b : Beacon} {crc : UInt8}

/-- The loop finds an entry with the checksum, or there is none up to where it ends. -/
theorem find_cases (m : Macs) (crc : UInt8) (left i : Nat) :
    (m.find crc left i = i + left ∧ ∀ k, i ≤ k → k < i + left → (m.mac k).macCrc ≠ crc) ∨
      m.find crc left i < i + left ∧ (m.mac (m.find crc left i)).macCrc = crc := by
  induction left generalizing i with
  | zero => exact .inl ⟨rfl, fun k h h' => absurd h' (Nat.not_lt.mpr h)⟩
  | succ left ih =>
    rw [Macs.find]
    split
    next heq => exact .inr ⟨by omega, heq.symm⟩
    next hne =>
      rcases ih (i + 1) with ⟨hfind, hnone⟩ | ⟨hlt, hcrc⟩
      · refine .inl ⟨by omega, fun k h h' => ?_⟩
        rcases Nat.eq_or_lt_of_le h with rfl | h
        · exact Ne.symm hne
        · exact hnone k h (by omega)
      · exact .inr ⟨by omega, hcrc⟩

theorem write_one {α : Type} (m : Mem α) (i : Nat) (x : α) :
    m.write i [x] = Function.update m i x := by
  rw [Mem.write_cons, Mem.write_nil]

/-- What a beacon leaves of an entry with its checksum. -/
def MacParam.hear (x : MacParam) (channel : UInt16) : MacParam :=
  { x with channel := if channel ≠ 0 then channel else x.channel }

@[simp] theorem MacParam.hear_macCrc (x : MacParam) (channel : UInt16) :
    (x.hear channel).macCrc = x.macCrc := rfl

/-- A new checksum takes the entry behind the last one. -/
theorem note_of_new (h : ∀ k < m.macCnt.toNat, (m.mac k).macCrc ≠ crc) (channel : UInt16) :
    m.note crc channel = (⟨Function.update m.mac m.macCnt.toNat
      (MacParam.hear { m.mac m.macCnt.toNat with macCrc := crc } channel), m.macCnt + 1⟩,
      [m.macCnt.toNat]) := by
  have hfind : m.find crc m.macCnt.toNat 0 = m.macCnt.toNat := by
    rcases find_cases m crc m.macCnt.toNat 0 with ⟨hfind, -⟩ | ⟨hlt, hcrc⟩
    · rw [hfind, Nat.zero_add]
    · rw [Nat.zero_add] at hlt
      exact absurd hcrc (h _ hlt)
  rw [Macs.note]
  simp only [hfind, if_true, write_one]
  rfl

/-- A known checksum changes the channel of its entry at most. -/
theorem note_of_known (h : ∃ k < m.macCnt.toNat, (m.mac k).macCrc = crc) (channel : UInt16) :
    ∃ k < m.macCnt.toNat, (m.mac k).macCrc = crc ∧
      (m.note crc channel).1 = { m with mac := Function.update m.mac k ((m.mac k).hear channel) } ∧
      ∀ i ∈ (m.note crc channel).2, i < m.macCnt.toNat := by
  rcases find_cases m crc m.macCnt.toNat 0 with ⟨-, hnone⟩ | ⟨hlt, hcrc⟩
  · obtain ⟨k, hk, hcrc⟩ := h
    exact absurd hcrc (hnone k (Nat.zero_le k) (by omega))
  · rw [Nat.zero_add] at hlt
    refine ⟨_, hlt, hcrc, ?_⟩
    rw [Macs.note, MacParam.hear]
    simp only [if_neg (Nat.ne_of_lt hlt)]
    split
    next hch =>
      refine ⟨by rw [write_one], fun i hi => ?_⟩
      rw [List.mem_singleton.mp hi]
      exact hlt
    next hch => exact ⟨by rw [Function.update_eq_self], fun i hi => absurd hi List.not_mem_nil⟩

/-- The table stands for the beacons: one entry for each checksum, with the channel last read. -/
structure Macs.Of (m : Macs) (bs : List Beacon) : Prop where
  count : m.macCnt.toNat ≤ maxMac
  distinct : ∀ i j, i < j → j < m.macCnt.toNat → (m.mac i).macCrc ≠ (m.mac j).macCrc
  seen : ∀ i < m.macCnt.toNat, ∃ b ∈ bs, b.crc = (m.mac i).macCrc
  listed : ∀ b ∈ bs, ∃ i < m.macCnt.toNat, (m.mac i).macCrc = b.crc
  channel : ∀ i < m.macCnt.toNat, (m.mac i).channel = lastRead (m.mac i).macCrc bs
  blank : ∀ i, m.macCnt.toNat ≤ i → i < maxMac → (m.mac i).channel = 0

theorem Macs.of_clear (m : Macs) : m.clear.Of [] where
  count := Nat.zero_le _
  distinct _ j _ h := absurd h (Nat.not_lt_zero j)
  seen i h := absurd h (Nat.not_lt_zero i)
  listed _ h := absurd h List.not_mem_nil
  channel i h := absurd h (Nat.not_lt_zero i)
  blank i _ h := by
    have hlen : i < (List.replicate maxMac (⟨0, 0⟩ : MacParam)).length := by
      rw [List.length_replicate]
      exact h
    have hx := Mem.write_apply_mem m.mac 0 hlen
    rw [Nat.zero_add, List.getElem_replicate] at hx
    exact congrArg MacParam.channel hx

@[simp] theorem lastRead_append (crc : UInt8) (bs : List Beacon) (b : Beacon) :
    lastRead crc (bs ++ [b]) =
      if b.crc = crc ∧ b.read ≠ 0 then b.read else lastRead crc bs := by
  rw [lastRead, List.foldl_append]
  rfl

theorem lastRead_of_new (h : ∀ b ∈ bs, b.crc ≠ crc) : lastRead crc bs = 0 := by
  induction bs using List.reverseRecOn with
  | nil => rfl
  | append_singleton bs b ih =>
    rw [lastRead_append, if_neg fun hb => h b (by simp) hb.1]
    exact ih fun b' hb' => h b' (List.mem_append_left _ hb')

theorem Macs.Of.fresh (h : m.Of bs) (hnew : ∀ b' ∈ bs, b'.crc ≠ crc) :
    ∀ k < m.macCnt.toNat, (m.mac k).macCrc ≠ crc := by
  intro k hk heq
  obtain ⟨b', hb', hcrc⟩ := h.seen k hk
  exact hnew b' hb' (hcrc.trans heq)

theorem Macs.Of.note_new (h : m.Of bs) (hnew : ∀ b' ∈ bs, b'.crc ≠ b.crc)
    (hroom : m.macCnt.toNat < maxMac) : (m.note b.crc b.read).1.Of (bs ++ [b]) := by
  have hcnt : (m.macCnt + 1).toNat = m.macCnt.toNat + 1 := by
    have : (1 : UInt8).toNat = 1 := rfl
    have : maxMac = 50 := rfl
    rw [UInt8.toNat_add]
    omega
  have hfresh := h.fresh hnew
  have hsame {i : Nat} (hi : i < m.macCnt.toNat) (x : MacParam) :
      Function.update m.mac m.macCnt.toNat x i = m.mac i := Function.update_of_ne (by omega) x m.mac
  rw [note_of_new hfresh]
  refine ⟨?_, fun i j hij hj => ?_, fun i hi => ?_, fun b' hb' => ?_, fun i hi => ?_,
    fun i hi hi' => ?_⟩
  · rw [hcnt]
    exact hroom
  · rw [hcnt] at hj
    rcases Nat.eq_or_lt_of_le (Nat.le_of_lt_succ hj) with rfl | hj
    · simpa [hsame hij] using hfresh i hij
    · simpa [hsame hj, hsame (hij.trans hj)] using h.distinct i j hij hj
  · rw [hcnt] at hi
    rcases Nat.eq_or_lt_of_le (Nat.le_of_lt_succ hi) with rfl | hi
    · exact ⟨b, by simp, by simp⟩
    · obtain ⟨b', hb', hcrc⟩ := h.seen i hi
      exact ⟨b', List.mem_append_left _ hb', by simpa [hsame hi] using hcrc⟩
  · rw [hcnt]
    rcases List.mem_append.mp hb' with hb' | hb'
    · obtain ⟨i, hi, hcrc⟩ := h.listed b' hb'
      exact ⟨i, by omega, by simpa [hsame hi] using hcrc⟩
    · rw [List.mem_singleton.mp hb']
      exact ⟨_, Nat.lt_succ_self _, by simp⟩
  · rw [hcnt] at hi
    rw [lastRead_append]
    rcases Nat.eq_or_lt_of_le (Nat.le_of_lt_succ hi) with rfl | hi
    · simp [MacParam.hear, lastRead_of_new hnew, h.blank _ (Nat.le_refl _) hroom]
    · simp only [hsame hi, h.channel i hi]
      rw [if_neg fun hb => hfresh i hi hb.1.symm]
  · rw [hcnt] at hi
    have hne : i ≠ m.macCnt.toNat := by omega
    simp only [Function.update_of_ne hne]
    exact h.blank i (by omega) hi'

theorem Macs.Of.note_known (h : m.Of bs) (hold : ∃ b' ∈ bs, b'.crc = b.crc) :
    (m.note b.crc b.read).1.Of (bs ++ [b]) ∧ ∀ i ∈ (m.note b.crc b.read).2, i < maxMac := by
  obtain ⟨b', hb', hcrc⟩ := hold
  obtain ⟨i, hi, hlisted⟩ := h.listed b' hb'
  obtain ⟨k, hk, hkcrc, hnote, hwritten⟩ := note_of_known ⟨i, hi, hlisted.trans hcrc⟩ b.read
  have hcrcs (j : Nat) :
      (Function.update m.mac k ((m.mac k).hear b.read) j).macCrc = (m.mac j).macCrc := by
    rcases eq_or_ne j k with rfl | hne
    · rw [Function.update_self, MacParam.hear_macCrc]
    · rw [Function.update_of_ne hne]
  refine ⟨?_, fun i hi => Nat.lt_of_lt_of_le (hwritten i hi) h.count⟩
  rw [hnote]
  refine ⟨h.count, fun i j hij hj => ?_, fun i hi => ?_, fun b' hb' => ?_, fun i hi => ?_,
    fun i hi hi' => ?_⟩
  · simp only [hcrcs]
    exact h.distinct i j hij hj
  · obtain ⟨b', hb', hcrc⟩ := h.seen i hi
    exact ⟨b', List.mem_append_left _ hb', by simpa only [hcrcs] using hcrc⟩
  · simp only [hcrcs]
    rcases List.mem_append.mp hb' with hb' | hb'
    · exact h.listed b' hb'
    · rw [List.mem_singleton.mp hb']
      exact ⟨k, hk, hkcrc⟩
  · rw [hcrcs, lastRead_append]
    rcases eq_or_ne i k with rfl | hne
    · have hch := h.channel i hi
      rw [hkcrc] at hch
      simp [hkcrc, MacParam.hear, hch]
    · have hother : b.crc ≠ (m.mac i).macCrc := by
        rw [← hkcrc]
        rcases Nat.lt_or_gt_of_ne hne with hlt | hlt
        · exact Ne.symm (h.distinct i k hlt hk)
        · exact h.distinct k i hlt hi
      rw [if_neg fun hb => hother hb.1]
      simp only [Function.update_of_ne hne]
      exact h.channel i hi
  · simp only [Function.update_of_ne (Nat.ne_of_gt (Nat.lt_of_lt_of_le hk hi))]
    exact h.blank i hi hi'

end Table

section Steps

variable {macIeFind : MacIeFind} {g : Globals} {m : Macs} {bs : List Beacon}

theorem monitor_macs {data : Mem UInt8} {len : Nat} {r : Globals × List Nat}
    (h : airkissMonitorCallback macIeFind g data len = some r) :
    (r.1.macs, r.2) =
      (beacon macIeFind data len).elim (g.macs, []) fun b => g.macs.note b.crc b.read := by
  rw [airkissMonitorCallback] at h
  rw [beacon]
  split at h
  next hlen =>
    rw [if_pos hlen, ← Option.some.inj h]
    rfl
  next hlen =>
    have hsize : len ≠ 0 := by
      rintro rfl
      exact hlen (by decide)
    rw [if_neg hlen]
    rw [airkissCountUsefullPacket, if_neg hsize] at h
    split at h
    next hbeacon =>
      rw [if_pos hbeacon]
      obtain ⟨chans, -, rfl⟩ := Option.map_eq_some_iff.mp h
      rfl
    next hbeacon =>
      rw [if_neg hbeacon]
      split at h
      · obtain ⟨chans, -, rfl⟩ := Option.map_eq_some_iff.mp h
        rfl
      · rw [← Option.some.inj h]
        rfl

theorem lockFrom_macs {crc : UInt8} {left i : Nat} {r : Globals × List UInt16}
    (h : g.lockFrom crc left i = some r) :
    r.1.macs = g.macs := by
  induction left generalizing i g r with
  | zero => rw [← Option.some.inj h]
  | succ left ih =>
    rw [Globals.lockFrom] at h
    split at h
    · obtain ⟨c, -, hc⟩ := Option.bind_eq_some_iff.mp h
      split at hc
      · obtain ⟨r', hr', rfl⟩ := Option.map_eq_some_iff.mp hc
        have hmacs := ih hr'
        exact hmacs
      · exact ih hc
    · exact ih h

/-- Without an entry for the checksum the loop leaves the radio alone. -/
theorem lockFrom_none {crc : UInt8} {left i : Nat}
    (h : ∀ k, i ≤ k → k < i + left → (g.macs.mac k).macCrc ≠ crc) :
    g.lockFrom crc left i = some (g, []) := by
  induction left generalizing i with
  | zero => rfl
  | succ left ih =>
    rw [Globals.lockFrom, if_neg (Ne.symm (h i (Nat.le_refl i) (by omega)))]
    exact ih fun k hk hk' => h k (by omega) (by omega)

/-- With one entry for it, the radio goes to the channel of the entry where it is not there. -/
theorem lockFrom_one {crc : UInt8} {left i j : Nat} {r : Globals × List UInt16}
    (h : g.lockFrom crc left i = some r) (hj : i ≤ j) (hj' : j < i + left)
    (hcrc : (g.macs.mac j).macCrc = crc)
    (hother : ∀ k, i ≤ k → k < i + left → k ≠ j → (g.macs.mac k).macCrc ≠ crc) :
    r.2 = if g.channel ≠ some (g.macs.mac j).channel then [(g.macs.mac j).channel] else [] := by
  induction left generalizing i with
  | zero => exact absurd hj' (Nat.not_lt.mpr hj)
  | succ left ih =>
    rw [Globals.lockFrom] at h
    rcases Nat.eq_or_lt_of_le hj with rfl | hlt
    · rw [if_pos hcrc.symm] at h
      have hrest : ∀ k, i + 1 ≤ k → k < i + 1 + left → (g.macs.mac k).macCrc ≠ crc :=
        fun k hk hk' => hother k (by omega) (by omega) (by omega)
      obtain ⟨c, hc, hgo⟩ := Option.bind_eq_some_iff.mp h
      have hchannel : g.channel = some c.channel := by rw [Globals.channel, hc]; rfl
      split at hgo
      next hne =>
        obtain ⟨r', hr', rfl⟩ := Option.map_eq_some_iff.mp hgo
        rw [lockFrom_none (by exact hrest)] at hr'
        rw [← Option.some.inj hr', if_pos (by simpa [hchannel] using hne)]
      next heq =>
        rw [lockFrom_none hrest] at hgo
        rw [← Option.some.inj hgo, if_neg (by simpa [hchannel] using heq)]
    · rw [if_neg (Ne.symm (hother i (Nat.le_refl i) (by omega) (Nat.ne_of_lt hlt)))] at h
      exact ih h hlt (by omega) fun k hk hk' => hother k (by omega) (by omega)

/-- What the lock of a packet switches to, by the beacons that the table stands for. -/
theorem lock_switches (h : g.macs.Of bs) {crc : UInt8} {r : Globals × List UInt16}
    (hr : g.lockFrom crc g.macs.macCnt.toNat 0 = some r) (ch : UInt16) :
    ch ∈ r.2 ↔ (∃ b ∈ bs, b.crc = crc) ∧ g.channel ≠ some (lastRead crc bs) ∧
      ch = lastRead crc bs := by
  by_cases hold : ∃ b ∈ bs, b.crc = crc
  · obtain ⟨b, hb, rfl⟩ := hold
    obtain ⟨j, hj, hcrc⟩ := h.listed b hb
    have hone := lockFrom_one hr (Nat.zero_le j) (by omega) hcrc fun k _ hk hne => by
      rw [← hcrc]
      rcases Nat.lt_or_gt_of_ne hne with hlt | hlt
      · exact h.distinct k j hlt hj
      · exact Ne.symm (h.distinct j k hlt (by omega))
    rw [h.channel j hj, hcrc] at hone
    rw [hone]
    split
    next hne => simpa [hne] using fun _ => ⟨b, hb, rfl⟩
    next heq => simp [heq]
  · rw [lockFrom_none fun k _ hk => h.fresh (by simpa using hold) k (by omega)] at hr
    rw [← Option.some.inj hr]
    exact ⟨fun hch => absurd hch List.not_mem_nil, fun hch => absurd hch.1 hold⟩

theorem switch_macs {timerCnt : UInt32} {r : Globals × Option Switch}
    (h : g.switch timerCnt = some r) : r.1.macs = g.macs := by
  obtain ⟨c, -, rfl⟩ := Option.map_eq_some_iff.mp h
  rfl

/-- The channel timer leaves the table as it is, or clears it for a new round. -/
theorem switchChannel_macs {r : Globals × Option Switch}
    (h : airkissSwitchChannelCallback g = some r) :
    r.1.macs = g.macs ∨ r.1.macs = g.macs.clear := by
  obtain ⟨c, -, hgo⟩ := Option.bind_eq_some_iff.mp h
  split at hgo
  · obtain ⟨chans, -, hnext⟩ := Option.bind_eq_some_iff.mp hgo
    rw [Globals.nextOfAll] at hnext
    split at hnext
    · split at hnext
      · obtain ⟨first, -, hswitch⟩ := Option.bind_eq_some_iff.mp hnext
        have hmacs := switch_macs hswitch
        exact .inl hmacs
      · exact .inr (switch_macs hnext)
    · have hmacs := switch_macs hnext
      exact .inl hmacs
  · split at hgo
    · obtain ⟨next, -, hnext⟩ := Option.bind_eq_some_iff.mp hgo
      split at hnext
      · exact .inr (switch_macs hnext)
      · have hmacs := switch_macs hnext
        exact .inl hmacs
    · rw [← Option.some.inj hgo]
      exact .inl rfl

theorem keep_of {s : MacRun} (h : s.globals.macs.Of s.fresh)
    (hg : g.macs = s.globals.macs ∨ g.macs = s.globals.macs.clear) :
    (s.keep g).globals.macs.Of (s.keep g).fresh := by
  rw [MacRun.keep]
  rcases hg with hg | hg
  · split
    next hzero =>
      have hnil : s.fresh = [] := by
        refine List.eq_nil_iff_forall_not_mem.mpr fun b hb => ?_
        obtain ⟨i, hi, -⟩ := h.listed b hb
        rw [← hg, hzero] at hi
        exact absurd hi (Nat.not_lt_zero i)
      rw [← hnil, hg]
      exact h
    next => exact hg ▸ h
  · have hzero : g.macs.macCnt = 0 := by rw [hg]; rfl
    rw [if_pos hzero, hg]
    exact Macs.of_clear _

end Steps

section Runs

variable {macIeFind : MacIeFind} {g : Globals} {s t : MacRun} {e : MacEvent} {o : Unit}

structure MacInv (s : MacRun) : Prop where
  table : s.globals.macs.Of s.fresh
  written : ∀ i ∈ s.written, i < maxMac
  switches : ∀ x ∈ s.switches, x ∈ s.announced

theorem MacInv.law (h : MacInv s) : MacLaw s :=
  ⟨h.written, h.table.count, h.table.distinct, h.switches⟩

theorem macInv_init (macIeFind : MacIeFind) (g : Globals) : MacInv (macScan macIeFind g).init where
  table := Macs.of_clear g.macs
  written _ h := absurd h List.not_mem_nil
  switches _ h := absurd h List.not_mem_nil

/-- The entries that a beacon writes lie in the table where there is room for it. -/
theorem MacInv.frame (h : MacInv s) {data : Mem UInt8} {len : Nat} {r : Globals × List Nat}
    (hr : airkissMonitorCallback macIeFind s.globals data len = some r)
    (hc : RoomAndAnnounced macIeFind s (.frame data len)) :
    r.1.macs.Of (s.fresh ++ (beacon macIeFind data len).toList) ∧ ∀ i ∈ r.2, i < maxMac := by
  have hmacs := monitor_macs hr
  cases hb : beacon macIeFind data len with
  | none =>
    rw [hb] at hmacs
    obtain ⟨hmacs, hwritten⟩ := Prod.mk.inj hmacs
    rw [hmacs, hwritten]
    exact ⟨by simpa using h.table, fun i hi => absurd hi List.not_mem_nil⟩
  | some b =>
    rw [hb] at hmacs
    have hnote : r.1.macs = (s.globals.macs.note b.crc b.read).1 := congrArg Prod.fst hmacs
    have hwritten : r.2 = (s.globals.macs.note b.crc b.read).2 := congrArg Prod.snd hmacs
    rw [hnote, hwritten]
    by_cases hold : ∃ b' ∈ s.fresh, b'.crc = b.crc
    · exact h.table.note_known hold
    · have hroom := (hc b hb).resolve_right hold
      have hnew : ∀ b' ∈ s.fresh, b'.crc ≠ b.crc := by simpa using hold
      refine ⟨h.table.note_new hnew hroom, fun i hi => ?_⟩
      rw [note_of_new (h.table.fresh hnew)] at hi
      rw [List.mem_singleton.mp hi]
      exact hroom

/-- Where a packet locks the scan, and what it switches to. -/
theorem MacInv.lock (h : MacInv s) {data : Mem UInt8} {ret : Int} {r : Globals × List UInt16}
    (hr : airkissMainPacket s.globals data ret = some r) :
    r.1.macs = s.globals.macs ∧ ∀ ch, ch ∈ r.2 ↔ s.globals.chans.mode = airkissScanSelectedChan ∧
      ret = airkissStatusChannelLocked ∧ (∃ b ∈ s.fresh, b.crc = macCrc data) ∧
      s.globals.channel ≠ some (lastRead (macCrc data) s.fresh) ∧
      ch = lastRead (macCrc data) s.fresh := by
  have hidle {P : Prop} (hP : ¬ P) (Q : UInt16 → Prop) (hr : some (s.globals, []) = some r) :
      r.1.macs = s.globals.macs ∧ ∀ ch, ch ∈ r.2 ↔ P ∧ Q ch := by
    rw [← Option.some.inj hr]
    exact ⟨rfl, fun ch => ⟨fun hch => absurd hch List.not_mem_nil, fun hch => absurd hch.1 hP⟩⟩
  rw [airkissMainPacket] at hr
  split at hr
  next hmode =>
    simp only [hmode, true_and]
    rw [processAirkiss] at hr
    split at hr
    next hret => exact hidle (by rw [hret]; decide) _ hr
    next hret =>
      split at hr
      next hlocked =>
        simp only [hlocked, true_and]
        exact ⟨lockFrom_macs hr, lock_switches h.table hr⟩
      next hlocked => exact hidle hlocked _ hr
  next hmode => exact hidle hmode _ hr

theorem MacInv.step (h : MacInv s) (hc : RoomAndAnnounced macIeFind s e)
    (hs : s.step macIeFind e = some (t, o)) : MacInv t := by
  cases e with
  | frame data len =>
    obtain ⟨r, hr, ht⟩ := Option.map_eq_some_iff.mp hs
    obtain ⟨rfl, -⟩ := Prod.mk.inj ht
    obtain ⟨htable, hwritten⟩ := h.frame hr hc
    refine ⟨htable, fun i hi => ?_, fun x hx => List.mem_append_left _ (h.switches x hx)⟩
    exact (List.mem_append.mp hi).elim (h.written i) (hwritten i)
  | packet data ret =>
    obtain ⟨r, hr, ht⟩ := Option.map_eq_some_iff.mp hs
    obtain ⟨rfl, -⟩ := Prod.mk.inj ht
    obtain ⟨hmacs, hlock⟩ := h.lock hr
    refine ⟨hmacs ▸ h.table, h.written, fun x hx => ?_⟩
    rcases List.mem_append.mp hx with hx | hx
    · exact h.switches x hx
    · obtain ⟨ch, hch, rfl⟩ := List.mem_map.mp hx
      obtain ⟨hmode, hret, hold, hne, rfl⟩ := (hlock ch).mp hch
      exact hc hmode hret hold hne
  | expiry =>
    obtain ⟨r, hr, ht⟩ := Option.map_eq_some_iff.mp hs
    obtain ⟨rfl, -⟩ := Prod.mk.inj ht
    exact ⟨keep_of h.table (switchChannel_macs hr), h.written, h.switches⟩
  | restart =>
    obtain ⟨rfl, -⟩ := Prod.mk.inj (Option.some.inj hs)
    exact ⟨keep_of h.table (.inr rfl), h.written, h.switches⟩

/-- A step that breaks the condition breaks the law. -/
theorem MacInv.room (h : MacInv s) (hs : s.step macIeFind e = some (t, o)) (hlaw : MacLaw t) :
    RoomAndAnnounced macIeFind s e := by
  cases e with
  | frame data len =>
    obtain ⟨r, hr, ht⟩ := Option.map_eq_some_iff.mp hs
    obtain ⟨rfl, -⟩ := Prod.mk.inj ht
    intro b hb
    have hmacs := monitor_macs hr
    rw [Option.mem_def.mp hb] at hmacs
    by_cases hold : ∃ b' ∈ s.fresh, b'.crc = b.crc
    · exact .inr hold
    · have hnew : ∀ b' ∈ s.fresh, b'.crc ≠ b.crc := by simpa using hold
      have hfresh := h.table.fresh hnew
      refine .inl (hlaw.written _ (List.mem_append_right _ ?_))
      rw [Option.elim, note_of_new hfresh] at hmacs
      rw [(Prod.mk.inj hmacs).2]
      exact List.mem_singleton_self _
  | packet data ret =>
    obtain ⟨r, hr, ht⟩ := Option.map_eq_some_iff.mp hs
    obtain ⟨rfl, -⟩ := Prod.mk.inj ht
    intro hmode hret hold hne
    have hch := ((h.lock hr).2 _).mpr ⟨hmode, hret, hold, hne, rfl⟩
    exact hlaw.switches _ (List.mem_append_right _ (List.mem_map_of_mem hch))
  | expiry | restart => trivial

theorem reaches_macInv {h : Machine.History MacEvent Unit}
    (hr : (macScan macIeFind g).ReachesUnder (RoomAndAnnounced macIeFind) h s) : MacInv s :=
  hr.stateInvariant MacInv (macInv_init macIeFind g) fun hinv hc hs => hinv.step hc hs

/-- The runs in which the table of the transmitters is right are those in which it has room, and
in which the channel of a lock has been announced. -/
theorem airkiss_macs_iff_room (macIeFind : MacIeFind) (g : Globals)
    (h : Machine.History MacEvent Unit) (s : MacRun) :
    MacLaw (macScan macIeFind g).init ∧
      ((macScan macIeFind g).ReachesUnder (RoomAndAnnounced macIeFind) h s ↔
        (macScan macIeFind g).ReachesWithin (fun _ => MacLaw) h s) :=
  ⟨(macInv_init macIeFind g).law, Machine.reachesUnder_iff_within
    (fun hr => (reaches_macInv hr).law)
    (fun hr hs hlaw => (reaches_macInv hr).room hs hlaw)⟩

/-- A beacon of the `n`th transmitter. -/
def beaconOf (n : Nat) : Mem UInt8 := fun k =>
  if k = 0 then 0x80 else if k = 15 then UInt8.ofNat n else 0

theorem beaconOf_nodup : ((List.range 51).map fun n => macCrc (beaconOf n)).Nodup := by
  decide +kernel

theorem isBeacon_beaconOf (n : Nat) : isBeacon (beaconOf n) := by
  have hfctl : fctl (beaconOf n) = ofLe16 [0x80, 0] := rfl
  exact .inl (by rw [hfctl]; decide)

theorem beacon_beaconOf (n : Nat) : beacon (fun _ _ => none) (beaconOf n) 36 =
    some ⟨macCrc (beaconOf n), 0, none⟩ := by
  rw [beacon, if_neg (by decide), if_pos (isBeacon_beaconOf n)]
  rfl

theorem beaconOf_ne {n k : Nat} (hn : n < 51) (hk : k < n) :
    macCrc (beaconOf k) ≠ macCrc (beaconOf n) := by
  intro heq
  have hinj := List.inj_on_of_nodup_map beaconOf_nodup (List.mem_range.mpr (hk.trans hn))
    (List.mem_range.mpr hn) heq
  exact absurd hinj (by omega)

/-- The table is full of transmitters with different checksums. -/
theorem reaches_beacons {n : Nat} (hn : n ≤ 50) :
    ∃ h s, (macScan (fun _ _ => none) zeroGlobals).Reaches h s ∧ MacInv s ∧
      s.globals.macs.macCnt.toNat = n ∧
      (∀ b ∈ s.fresh, ∃ k < n, b.crc = macCrc (beaconOf k)) ∧
      ∃ c, s.globals.chans.chan[s.globals.chans.curChanIdx.toNat]? = some c := by
  induction n with
  | zero =>
    exact ⟨[], _, .init, macInv_init _ _, rfl, fun b hb => absurd hb List.not_mem_nil, _, rfl⟩
  | succ n ih =>
    obtain ⟨h, s, hr, hinv, hcnt, hfresh, c, hc⟩ := ih (by omega)
    obtain ⟨r, hmonitor, hchans⟩ := @monitor_chans (fun _ _ => none) s.globals (beaconOf n) 36 c hc
    have hs : (macScan (fun _ _ => none) zeroGlobals).step s (.frame (beaconOf n) 36) = some
        ({ s with
            globals := r.1
            fresh := s.fresh ++ [⟨macCrc (beaconOf n), 0, none⟩]
            announced := s.announced ++ []
            written := s.written ++ r.2 }, ()) := by
      change Option.map _ _ = _
      rw [hmonitor, beacon_beaconOf]
      rfl
    have hnew : ∀ b ∈ s.fresh, b.crc ≠ macCrc (beaconOf n) := by
      intro b hb heq
      obtain ⟨k, hk, hcrc⟩ := hfresh b hb
      exact beaconOf_ne (by omega) hk (hcrc.symm.trans heq)
    have hroom : RoomAndAnnounced (fun _ _ => none) s (.frame (beaconOf n) 36) :=
      fun b _ => .inl (by rw [hcnt]; exact hn)
    refine ⟨_, _, .step hr trivial hs, hinv.step hroom hs, ?_, fun b hb => ?_, ?_⟩
    · have hmacs := monitor_macs hmonitor
      rw [beacon_beaconOf, Option.elim, note_of_new (hinv.table.fresh hnew)] at hmacs
      have hone : (1 : UInt8).toNat = 1 := rfl
      have hadd := UInt8.toNat_add s.globals.macs.macCnt 1
      rw [(Prod.mk.inj hmacs).1]
      dsimp only
      omega
    · rcases List.mem_append.mp hb with hb | hb
      · obtain ⟨k, hk, hcrc⟩ := hfresh b hb
        exact ⟨k, by omega, hcrc⟩
      · rw [List.mem_singleton.mp hb]
        exact ⟨n, by omega, rfl⟩
    · refine ⟨c.hear (beaconOf n) 36, ?_⟩
      dsimp only
      rw [hchans]
      exact List.getElem?_set_self (List.getElem?_eq_some_iff.mp hc).1

/-- The beacon of the 51st transmitter is noted behind the table. -/
theorem airkiss_macs_full : ∃ h s, (macScan (fun _ _ => none) zeroGlobals).Reaches h s ∧
    ¬ MacLaw s := by
  -- the number stays a variable, so that no frame is evaluated
  obtain ⟨n, hn⟩ : ∃ n, n = maxMac := ⟨_, rfl⟩
  obtain ⟨h, s, hr, hinv, hcnt, hfresh, c, hc⟩ := reaches_beacons (Nat.le_of_eq hn)
  obtain ⟨r, hmonitor, -⟩ := @monitor_chans (fun _ _ => none) s.globals (beaconOf n) 36 c hc
  have hs : (macScan (fun _ _ => none) zeroGlobals).step s (.frame (beaconOf n) 36) = some _ :=
    Option.map_eq_some_iff.mpr ⟨r, hmonitor, rfl⟩
  refine ⟨_, _, .step hr trivial hs, fun hlaw => ?_⟩
  have hcond : RoomAndAnnounced (fun _ _ => none) s (.frame (beaconOf n) 36) :=
    hinv.room hs hlaw
  rcases hcond _ (beacon_beaconOf n) with hroom | ⟨b, hb, hcrc⟩
  · exact absurd hroom (by omega)
  · obtain ⟨k, hk, hbk⟩ := hfresh b hb
    exact beaconOf_ne (Nat.lt_succ_of_le (Nat.le_of_eq hn)) hk (hbk.symm.trans hcrc)

end Runs

end BdkRtt.Wlan.Airkiss
