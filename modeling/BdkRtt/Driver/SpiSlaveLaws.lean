import BdkRtt.Driver.SpiSlave
import Mathlib.Algebra.GroupWithZero.Nat

namespace BdkRtt.Driver.SpiSlave

open Lib

section Fifo

variable {f : RxFifo} {q r : Recent UInt8} {i : UInt16} {n : Nat} {x : UInt8}

theorem advance_toNat (h : i.toNat = n % spiSlaveRxFifoLen) :
    (advance i).toNat = (n + 1) % spiSlaveRxFifoLen := by
  have hlen : spiSlaveRxFifoLen = 512 := rfl
  have hlt : i.toNat < 512 := by
    rw [h, hlen]
    omega
  have hone : (1 : UInt16).toNat = 1 := rfl
  have hcap : (UInt16.ofNat 512).toNat = 512 := rfl
  have hadd : (i + 1).toNat = i.toNat + 1 := by
    rw [UInt16.toNat_add, hone]
    omega
  rw [succ_mod_cases (by decide), advance, hlen]
  simp only [ge_iff_le, UInt16.le_iff_toNat_le, hadd, hcap]
  rw [hlen] at h
  by_cases hend : i.toNat + 1 = 512
  · rw [if_pos (by omega), if_pos (by omega)]
    rfl
  · rw [if_neg (by omega), if_neg (by omega), hadd, h]

theorem toNat_mod (n : Nat) (hi : i.toNat = n % spiSlaveRxFifoLen) : i.toNat < 512 := by
  rw [hi]
  exact Nat.mod_lt n (by decide)

theorem RxFifo.Holds.length_arrived (h : f.Holds q) :
    q.arrived.length = q.next + q.unread.length := by
  have hle := h.sound.le
  rw [q.length_unread]
  omega

/-- The indices coincide where nothing waits, and only there. -/
theorem RxFifo.Holds.empty_iff (h : f.Holds q) : f.getIndex = f.putIndex ↔ q.unread = [] := by
  have hlen := h.length_arrived
  have hfits := h.sound.fits
  have hcap : spiSlaveRxFifoLen = 512 := rfl
  rw [← UInt16.toNat_inj, h.getIndex, h.putIndex, ← List.length_eq_zero_iff]
  constructor
  · intro heq
    by_contra hne
    exact mod_ne_of_lt (by omega) (by omega) heq.symm
  · intro hzero
    rw [hlen, hzero, Nat.add_zero]

theorem RxFifo.Holds.rxByte (h : f.Holds q) (ch : UInt8) :
    (rxByte f ch).Holds (q.arrive (spiSlaveRxFifoLen - 1) ch) := by
  have hcap : spiSlaveRxFifoLen = 512 := rfl
  have hlen := h.length_arrived
  have hfits := h.sound.fits
  have hput := advance_toNat h.putIndex
  have hlength : (q.arrived ++ [ch]).length = q.arrived.length + 1 := by simp
  have hpush : (f.buffer.write f.putIndex.toNat [ch]).Stream spiSlaveRxFifoLen
      (q.arrived ++ [ch]) q.next := by
    rw [h.putIndex]
    exact h.cells.push [ch] (by rw [List.length_singleton]; omega)
      (Nat.mod_lt _ (by decide))
  have hsound := h.sound.arrive ch
  have hunread := h.sound.unread_arrive ch
  rw [SpiSlave.rxByte]
  rw [Recent.arrive] at hsound hunread ⊢
  by_cases hroom : q.unread.length < spiSlaveRxFifoLen - 1
  · have hne : advance f.putIndex ≠ f.getIndex := by
      intro heq
      rw [← UInt16.toNat_inj, hput, h.getIndex] at heq
      exact mod_ne_of_lt (by omega) (by omega) heq
    rw [if_pos hroom] at hsound hunread ⊢
    rw [if_neg hne]
    refine ⟨hsound, by rw [hlength]; exact hput, h.getIndex, hpush, fun hfull => ?_⟩
    exact absurd (h.full hfull) (Nat.ne_of_lt hroom)
  · have heq : advance f.putIndex = f.getIndex := by
      rw [← UInt16.toNat_inj, hput, h.getIndex]
      have hround : q.arrived.length + 1 = q.next + 512 := by omega
      rw [hround, hcap, Nat.add_mod_right]
    rw [if_neg hroom] at hsound hunread ⊢
    rw [if_pos heq]
    refine ⟨hsound, by rw [hlength]; exact hput, advance_toNat h.getIndex,
      hpush.advance (by rw [hlength]; omega), fun _ => ?_⟩
    rw [hunread, if_neg hroom, List.length_tail, List.length_append, List.length_singleton]
    omega

theorem RxFifo.Holds.getByte_none (h : f.Holds q) (hpop : q.pop = none) : getByte f = none := by
  have hnil := Recent.pop_eq_none.mp hpop
  rw [getByte, if_pos]
  refine ⟨h.empty_iff.mpr hnil, ?_⟩
  by_contra hfull
  have hlength := h.full (by simpa using hfull)
  rw [hnil] at hlength
  exact absurd hlength (by decide)

theorem RxFifo.Holds.getByte (h : f.Holds q) (hpop : q.pop = some (x, r)) :
    ∃ f', getByte f = some (x, f') ∧ f'.Holds r := by
  have hunread := Recent.unread_of_pop hpop
  have hne : f.getIndex ≠ f.putIndex := by
    rw [ne_eq, h.empty_iff, hunread]
    exact List.cons_ne_nil _ _
  have hsound := h.sound.pop hpop
  obtain ⟨y, hy, heq⟩ := Option.map_eq_some_iff.mp hpop
  obtain ⟨rfl, rfl⟩ := Prod.mk.inj heq
  obtain ⟨hlt, rfl⟩ := List.getElem?_eq_some_iff.mp hy
  have hend : q.next % spiSlaveRxFifoLen + 1 ≤ spiSlaveRxFifoLen := Nat.mod_lt _ (by decide)
  have hread := h.cells.read hlt hend
  refine ⟨{ f with getIndex := advance f.getIndex, isFull := false }, ?_, hsound, h.putIndex,
    advance_toNat h.getIndex, h.cells.advance hlt, fun hfull => Bool.noConfusion hfull⟩
  rw [SpiSlave.getByte, if_neg fun hboth => hne hboth.1, h.getIndex]
  have hhead : f.buffer (q.next % spiSlaveRxFifoLen) = q.arrived[q.next] := by
    rw [List.drop_eq_getElem_cons hlt, List.take_succ_cons, List.take_zero] at hread
    simpa [Mem.read] using hread
  rw [hhead]

/-- The length is the number of bytes that wait. -/
theorem RxFifo.Holds.count (h : f.Holds q) :
    bkSpiSlaveGetRxFifo f = UInt32.ofNat q.unread.length := by
  have hcap : spiSlaveRxFifoLen = 512 := rfl
  have hfits := h.sound.fits
  have hp := toNat_mod _ h.putIndex
  have hg := toNat_mod _ h.getIndex
  have hdist := @distance_mod spiSlaveRxFifoLen q.next q.unread.length (by omega)
  rw [← h.length_arrived, ← h.putIndex, ← h.getIndex, distance] at hdist
  have htoNat : (UInt32.ofNat q.unread.length).toNat = q.unread.length :=
    UInt32.toNat_ofNat_of_lt' (by change _ < 2 ^ 32; omega)
  have hput : f.putIndex.toUInt32.toNat = f.putIndex.toNat := UInt16.toNat_toUInt32 _
  have hget : f.getIndex.toUInt32.toNat = f.getIndex.toNat := UInt16.toNat_toUInt32 _
  apply UInt32.toNat.inj
  rw [bkSpiSlaveGetRxFifo, htoNat]
  simp only [ge_iff_le, UInt16.le_iff_toNat_le]
  by_cases hle : f.getIndex.toNat ≤ f.putIndex.toNat
  · rw [if_neg (by omega)] at hdist
    rw [if_pos hle, UInt32.toNat_sub_of_le _ _ (by rw [UInt32.le_iff_toNat_le]; omega), hput, hget]
    exact hdist
  · rw [if_pos (by omega)] at hdist
    have hback : (f.getIndex.toUInt32 - f.putIndex.toUInt32).toNat =
        f.getIndex.toNat - f.putIndex.toNat := by
      rw [UInt32.toNat_sub_of_le _ _ (by rw [UInt32.le_iff_toNat_le]; omega), hput, hget]
    have hall : (UInt32.ofNat spiSlaveRxFifoLen).toNat = 512 := rfl
    rw [if_neg hle, UInt32.toNat_sub_of_le _ _ (by rw [UInt32.le_iff_toNat_le]; omega), hback, hall]
    omega

theorem holds_init : initFifo.Holds .empty where
  sound := Recent.sound_empty _
  putIndex := rfl
  getIndex := rfl
  cells := .nil _ _
  full h := absurd h (by decide)

theorem RxFifo.Holds.rx (h : f.Holds q) (bytes : List UInt8) :
    (bkSpiSlaveSpiRxCallback f bytes).Holds (recentFifo.receive q bytes) := by
  induction bytes generalizing f q with
  | nil => exact h
  | cons ch bytes ih => exact ih (h.rxByte ch)

end Fifo

section Runs

variable {s t : Run RxFifo} {a : Run (Recent UInt8)} {q : Recent UInt8} {c : Call} {e : Event}
  {o : Answer} {h : History}

def Follows (s : Run RxFifo) (a : Run (Recent UInt8)) : Prop :=
  s.queue.Holds a.queue ∧ s.call = a.call

theorem Follows.iterate (h : Follows s a) (c : Call) :
    ∃ b, iterate recentFifo a c = (b, (iterate softwareFifo s c).2) ∧
      Follows (iterate softwareFifo s c).1 b := by
  by_cases hsize : c.size = 0
  · rw [SpiSlave.iterate, SpiSlave.iterate, if_pos hsize, if_pos hsize]
    exact ⟨_, rfl, h.1, rfl⟩
  · rw [SpiSlave.iterate, SpiSlave.iterate, if_neg hsize, if_neg hsize]
    cases hpop : a.queue.pop with
    | none =>
      have hget : softwareFifo.get s.queue = none := h.1.getByte_none hpop
      have hspec : recentFifo.get a.queue = none := hpop
      rw [hget, hspec]
      exact ⟨_, rfl, h.1, rfl⟩
    | some x =>
      obtain ⟨f', hbyte, hholds⟩ := h.1.getByte hpop
      have hget : softwareFifo.get s.queue = some (x.1, f') := hbyte
      have hspec : recentFifo.get a.queue = some (x.1, x.2) := hpop
      rw [hget, hspec]
      exact ⟨_, rfl, hholds, rfl⟩

/-- Whatever the FIFO does, the queue does. -/
theorem Follows.step (h : Follows s a) (hs : (calls softwareFifo).step s e = some (t, o)) :
    ∃ b, (calls recentFifo).step a e = some (b, o) ∧ Follows t b := by
  cases e with
  | rx bytes =>
    obtain ⟨rfl, rfl⟩ := Prod.mk.inj (Option.some.inj hs)
    exact ⟨_, rfl, h.1.rx bytes, h.2⟩
  | getRxData rxBuf len =>
    change (if s.call.isSome then _ else _) = _ at hs
    change ∃ b, (if a.call.isSome then _ else _) = _ ∧ _
    rw [← h.2]
    split at hs
    · exact absurd hs (by simp)
    next hidle =>
      rw [if_neg hidle]
      split at hs
      next hnull =>
        obtain ⟨rfl, rfl⟩ := Prod.mk.inj (Option.some.inj hs)
        rw [if_pos hnull]
        exact ⟨a, rfl, h⟩
      next hnull =>
        obtain ⟨rfl, rfl⟩ := Prod.mk.inj (Option.some.inj hs)
        rw [if_neg hnull]
        exact ⟨_, rfl, h.1, rfl⟩
  | iterate =>
    obtain ⟨c, hc, heq⟩ := Option.map_eq_some_iff.mp hs
    obtain ⟨b, hb, hfollows⟩ := h.iterate c
    rw [heq] at hb hfollows
    refine ⟨b, ?_, hfollows⟩
    change a.call.map _ = _
    rw [← h.2, hc, ← hb]
    rfl
  | getRxFifo =>
    obtain ⟨rfl, rfl⟩ := Prod.mk.inj (Option.some.inj hs)
    refine ⟨a, ?_, h⟩
    have hcount : softwareFifo.count s.queue = recentFifo.count a.queue := h.1.count
    rw [hcount]
    rfl

@[simp] theorem arrivedIn_concat (h : History) (e : Event) (o : Answer) :
    arrivedIn (h ++ [(e, o)]) = arrivedIn h ++ arrivedIn [(e, o)] := List.flatMap_append

@[simp] theorem storedIn_concat (h : History) (e : Event) (o : Answer) :
    storedIn (h ++ [(e, o)]) = storedIn h ++ storedIn [(e, o)] := List.flatMap_append

theorem storedIn_cons (x : Event × Answer) (h : History) :
    storedIn (x :: h) = storedIn [x] ++ storedIn h := by
  rw [← List.singleton_append]
  exact List.flatMap_append

/-- The queue has had what has arrived, and what has been stored was taken from it. -/
def Recalls (h : History) (q : Recent UInt8) : Prop :=
  q.Sound (spiSlaveRxFifoLen - 1) ∧ q.arrived = arrivedIn h ∧ q.values = storedIn h

theorem Recalls.silent (hinv : Recalls h q) (harrived : arrivedIn [(e, o)] = [])
    (hstored : storedIn [(e, o)] = []) : Recalls (h ++ [(e, o)]) q := by
  refine ⟨hinv.1, ?_, ?_⟩
  · rw [arrivedIn_concat, harrived, List.append_nil]
    exact hinv.2.1
  · rw [storedIn_concat, hstored, List.append_nil]
    exact hinv.2.2

theorem Recalls.iterate (hinv : Recalls h a.queue) (c : Call) :
    Recalls (h ++ [(.iterate, (iterate recentFifo a c).2)]) (iterate recentFifo a c).1.queue := by
  rw [SpiSlave.iterate]
  split
  · exact hinv.silent rfl rfl
  · split
    next => exact hinv.silent rfl rfl
    next ch r hpop =>
      have hpop' : a.queue.pop = some (ch, r) := hpop
      refine ⟨hinv.1.pop hpop', ?_, ?_⟩
      · rw [arrivedIn_concat, ← hinv.2.1]
        obtain ⟨y, -, heq⟩ := Option.map_eq_some_iff.mp hpop'
        obtain ⟨-, rfl⟩ := Prod.mk.inj heq
        exact (List.append_nil _).symm
      · rw [storedIn_concat, ← hinv.2.2]
        exact Recent.values_of_pop hpop'

theorem execFrom_iterate (hc : s.call = some c) (es : List Event) :
    (calls softwareFifo).execFrom s (.iterate :: es) =
      ((calls softwareFifo).execFrom (iterate softwareFifo s c).1 es).map fun r =>
        ((.iterate, (iterate softwareFifo s c).2) :: r.1, r.2) := by
  have hstep : (calls softwareFifo).step s .iterate = some (iterate softwareFifo s c) := by
    change s.call.map _ = _
    rw [hc]
    rfl
  rw [Machine.execFrom, hstep]
  rfl

/-- The loop of a call that no interrupt disturbs. -/
theorem loop_returns {n : Nat} (hholds : s.queue.Holds q) (hc : s.call = some c)
    (hn : n = min c.size.toNat q.unread.length) :
    ∃ h t, (calls softwareFifo).execFrom s (List.replicate (n + 1) .iterate) = some (h, t) ∧
      t.call = none ∧ storedIn h = q.unread.take n ∧
      h.getLast?.map Prod.snd = some (.returned (c.len - c.size + UInt32.ofNat n)) := by
  induction n generalizing s q c with
  | zero =>
    have hend : iterate softwareFifo s c =
        ({ s with call := none }, .returned (c.len - c.size)) := by
      rw [SpiSlave.iterate]
      split
      next => rfl
      next hsize =>
        have hpos : c.size.toNat ≠ 0 := fun h => hsize (UInt32.toNat_inj.mp h)
        have hnil : q.unread = [] := List.length_eq_zero_iff.mp (by omega)
        have hget : softwareFifo.get s.queue = none :=
          hholds.getByte_none (Recent.pop_eq_none.mpr hnil)
        rw [hget]
    refine ⟨_, _, (execFrom_iterate hc []).trans (by rw [hend]; rfl), rfl, rfl, ?_⟩
    exact congrArg (some ∘ Answer.returned) (UInt32.add_zero _).symm
  | succ n ih =>
    have hsize : c.size ≠ 0 := by
      intro hzero
      rw [hzero, UInt32.toNat_zero] at hn
      omega
    have hone : (1 : UInt32).toNat = 1 := rfl
    have hless : (c.size - 1).toNat = c.size.toNat - 1 := by
      rw [UInt32.toNat_sub_of_le _ _ (by rw [UInt32.le_iff_toNat_le]; omega), hone]
    cases hpop : q.pop with
    | none =>
      rw [Recent.pop_eq_none.mp hpop, List.length_nil] at hn
      omega
    | some x =>
      obtain ⟨ch, r⟩ := x
      have hunread := Recent.unread_of_pop hpop
      obtain ⟨f', hget, hholds'⟩ := hholds.getByte hpop
      have hround : iterate softwareFifo s c =
          (⟨f', some { c with rxBuf := c.rxBuf + 1, size := c.size - 1 }⟩, .stored c.rxBuf ch) := by
        have hget' : softwareFifo.get s.queue = some (ch, f') := hget
        rw [SpiSlave.iterate, if_neg hsize, hget']
      obtain ⟨h, t, hexec, hidle, hstored, hlast⟩ :=
        @ih ⟨f', some { c with rxBuf := c.rxBuf + 1, size := c.size - 1 }⟩ r _ hholds' rfl (by
          rw [hless]
          rw [hunread, List.length_cons] at hn
          omega)
      refine ⟨_, t, (execFrom_iterate hc _).trans (by rw [hround, hexec]; rfl), hidle, ?_, ?_⟩
      · rw [storedIn_cons, hstored, hunread]
        rfl
      · have hreturn :
            c.len - (c.size - 1) + UInt32.ofNat n = c.len - c.size + UInt32.ofNat (n + 1) := by
          rw [UInt32.ofNat_add]
          grind
        obtain ⟨y, hy, -⟩ := Option.map_eq_some_iff.mp hlast
        rw [← hreturn, ← hlast, List.getLast?_cons, hy]
        rfl

theorem RxFifo.Holds.delivers (hholds : s.queue.Holds q) (hidle : s.call = none) :
    Delivers s q.unread := by
  intro rxBuf len
  rw [callEvents, share]
  by_cases hnull : rxBuf = 0
  · simp only [if_pos hnull]
    have hstep : (calls softwareFifo).step s (.getRxData rxBuf len) = some (s, .returned 0) := by
      change (if s.call.isSome then _ else _) = _
      rw [hidle, if_neg (by decide), if_pos hnull]
    refine ⟨[(.getRxData rxBuf len, .returned 0)], s, ?_, hidle, rfl, rfl⟩
    rw [Machine.execFrom, hstep]
    rfl
  · simp only [if_neg hnull]
    have hstep : (calls softwareFifo).step s (.getRxData rxBuf len) =
        some ({ s with call := some ⟨rxBuf, len, len⟩ }, .void) := by
      change (if s.call.isSome then _ else _) = _
      rw [hidle, if_neg (by decide), if_neg hnull]
    obtain ⟨h, t, hexec, hidle', hstored, hlast⟩ :=
      @loop_returns { s with call := some ⟨rxBuf, len, len⟩ } q _ _ hholds rfl rfl
    refine ⟨(.getRxData rxBuf len, .void) :: h, t, ?_, hidle', ?_, ?_⟩
    · rw [Machine.execFrom, hstep, Option.bind_some, hexec]
      rfl
    · rw [storedIn_cons, hstored]
      rfl
    · rw [UInt32.sub_self, UInt32.zero_add] at hlast
      obtain ⟨y, hy, -⟩ := Option.map_eq_some_iff.mp hlast
      rw [← hlast, List.getLast?_cons, hy]
      rfl

end Runs

end BdkRtt.Driver.SpiSlave
