import BdkRtt.Lib.Circle
import BdkRtt.Lib.Fifo
import BdkRtt.Audio.RingDmaWrite

namespace BdkRtt.Audio

open Lib

namespace DmaWrite

section Load

variable {rb : RbDmaWrSt} {i len : Nat} {n : UInt32}

/-- The indices of `rb`, the write index as it was sampled. -/
abbrev RbDmaWrSt.Marks (rb : RbDmaWrSt) (i len : Nat) : Prop :=
  DmaRing.Marks rb.capacity rb.rp rb.wp i len

/-- The copies come from the `k` positions from `i` on, and `rp` is left behind them. -/
structure Loads (rb : RbDmaWrSt) (i k : Nat) (r : List Nat × UInt32 × UInt32) : Prop where
  cells : r.1 = circle rb.capacity.toNat i k
  rp_le : r.2.1.toNat ≤ rb.capacity.toNat
  rp : r.2.1.toNat ≡ i + k [MOD rb.capacity.toNat]
  ret : r.2.2.toNat = k

/-- A copy that does not reach past the end of the buffer. -/
theorem loads_straight {k : Nat} (h : rb.Marks i len) (hn : n.toNat = k)
    (hfit : rb.rp.toNat + k ≤ rb.capacity.toNat) :
    Loads rb i k (memcpy rb.rp n, rb.rp + n, n) := by
  have hcap := rb.capacity.toNat_lt
  have hadd : (rb.rp + n).toNat = rb.rp.toNat + k := by
    rw [UInt32.toNat_add, hn]
    omega
  refine ⟨?_, ?_, ?_, hn⟩
  · rw [memcpy, hn, circle_straight h.rp hfit]
  · rw [hadd]
    exact hfit
  · rw [hadd]
    exact h.rp.add_right k

/-- Two copies, the second from the start of the buffer on. -/
theorem loads_around {m ret : UInt32} {k : Nat} (h : rb.Marks i len)
    (hm : m.toNat ≤ rb.capacity.toNat) (hret : ret.toNat = k)
    (hk : k = rb.capacity.toNat - rb.rp.toNat + m.toNat) :
    Loads rb i k (memcpy rb.rp (rb.capacity - rb.rp) ++ memcpy 0 m, m, ret) := by
  have hrp := h.rp_le
  have htail : (rb.capacity - rb.rp).toNat = rb.capacity.toNat - rb.rp.toNat :=
    UInt32.toNat_sub_of_le _ _ hrp
  refine ⟨?_, hm, ?_, hret⟩
  · rw [hk, circle_around h.rp (by omega) hm, memcpy, memcpy, htail]
    rfl
  · have hround : rb.rp.toNat + k = m.toNat + rb.capacity.toNat := by omega
    refine Nat.ModEq.trans ?_ (h.rp.add_right k)
    rw [hround]
    exact (Nat.add_mod_right ..).symm

theorem rbLoadDmaWrite_loads (h : rb.Marks i len) :
    Loads rb i (min n.toNat len) (rbLoadDmaWrite rb n) := by
  have hrp := h.rp_le
  have hwp := h.wp_lt
  have hlen := h.len_lt
  have hcap := rb.capacity.toNat_lt
  have htail : (rb.capacity - rb.rp).toNat = rb.capacity.toNat - rb.rp.toNat :=
    UInt32.toNat_sub_of_le _ _ hrp
  unfold rbLoadDmaWrite
  simp only
  split
  case isTrue hle =>
    have habove := h.above hle
    have hfill := h.fill_above hle
    refine loads_straight h ?_ (by omega)
    split
    case isTrue hgt =>
      have hgt' : (rb.wp - rb.rp).toNat < n.toNat := hgt
      omega
    case isFalse hnot =>
      have hle' : n.toNat ≤ (rb.wp - rb.rp).toNat := UInt32.not_lt.mp hnot
      omega
  case isFalse hnot =>
    have hbelow := h.below (UInt32.not_le.mp hnot)
    split
    case isTrue hgt =>
      have hgt' : (rb.capacity - rb.rp).toNat < n.toNat := hgt
      have hrest : (n - (rb.capacity - rb.rp)).toNat = n.toNat - (rb.capacity - rb.rp).toNat :=
        UInt32.toNat_sub_of_le _ _ (UInt32.le_of_lt hgt)
      split
      case isTrue hmore =>
        have hmore' : rb.wp.toNat < (n - (rb.capacity - rb.rp)).toNat := hmore
        refine loads_around h hwp.le ?_ (by omega)
        rw [UInt32.toNat_add, htail]
        omega
      case isFalse hless =>
        have hless' : (n - (rb.capacity - rb.rp)).toNat ≤ rb.wp.toNat := UInt32.not_lt.mp hless
        exact loads_around h (by omega) (by omega) (by omega)
    case isFalse hfit =>
      have hfit' : n.toNat ≤ (rb.capacity - rb.rp).toNat := UInt32.not_lt.mp hfit
      exact loads_straight h (by omega) (by omega)

theorem ofNat_sub_safeInterval {x : UInt32} (h : 4 ≤ x.toNat) :
    UInt32.ofNat (x.toNat - 4) = x - rwpSafeInterval := by
  have hle : rwpSafeInterval ≤ x := h
  rw [← UInt32.toNat_inj, UInt32.toNat_sub_of_le _ _ hle,
    UInt32.toNat_ofNat_of_lt' (Nat.lt_of_le_of_lt (Nat.sub_le ..) x.toNat_lt)]
  rfl

/-- The pause address stays four cells behind the read index. -/
theorem rbPauseDmaWrite_eq (rb : RbDmaWrSt) {j : Nat} (hcap : 4 < rb.capacity.toNat)
    (hle : rb.rp.toNat ≤ rb.capacity.toNat) (hrp : rb.rp.toNat ≡ j [MOD rb.capacity.toNat]) :
    rbPauseDmaWrite rb =
      GdmaChannel.cellAddr rb.address rb.capacity (j + (rb.capacity.toNat - 4)) := by
  have hmod := hrp.add_right (rb.capacity.toNat - 4)
  rw [GdmaChannel.cellAddr, ← hmod, rbPauseDmaWrite]
  split
  case isTrue hge =>
    have hge' : 4 ≤ rb.rp.toNat := hge
    have hround : rb.rp.toNat + (rb.capacity.toNat - 4) =
        rb.rp.toNat - 4 + rb.capacity.toNat := by omega
    rw [hround, Nat.add_mod_right, Nat.mod_eq_of_lt (by omega), ofNat_sub_safeInterval hge']
    grind
  case isFalse hnot =>
    have hnot' : rb.rp.toNat < 4 := UInt32.not_le.mp hnot
    rw [Nat.mod_eq_of_lt (by omega), UInt32.ofNat_add, ofNat_sub_safeInterval (by omega),
      UInt32.ofNat_toNat]
    grind

/-- What `rb_init_dma_write` and `rb_clear_dma_write` set is the same for a read index of zero. -/
theorem rbPauseDmaWrite_start (rb : RbDmaWrSt) {j : Nat} (h₀ : rb.rp = 0)
    (hcap : 4 < rb.capacity.toNat) (hj : 0 ≡ j [MOD rb.capacity.toNat]) :
    rb.address + rb.capacity - rwpSafeInterval =
      GdmaChannel.cellAddr rb.address rb.capacity (j + (rb.capacity.toNat - 4)) := by
  have hzero : rb.rp.toNat = 0 := by rw [h₀]; rfl
  rw [← rbPauseDmaWrite_eq rb hcap (by omega) (by rw [hzero]; exact hj), rbPauseDmaWrite, h₀,
    if_neg (by decide), UInt32.add_zero]

end Load

/-- The bytes between the read index and the address of the engine, oldest first. -/
def State.unread (s : State) : List UInt8 :=
  s.mem.window s.rb.capacity.toNat s.rb.rp.toNat (s.dma.current - s.rb.address).toNat

/-- The bytes `q` lie in the buffer from position `i` on, up to the engine. -/
structure Layout (addr capacity : UInt32) (s : State) (q : List UInt8) (i : Nat) : Prop where
  address_eq : s.rb.address = addr
  capacity_eq : s.rb.capacity = capacity
  loop : s.dma.OnLoop addr capacity (i + q.length)
  pause : s.dma.pause = GdmaChannel.cellAddr addr capacity (i + (capacity.toNat - 4))
  rp_le : s.rb.rp.toNat ≤ capacity.toNat
  rp : s.rb.rp.toNat ≡ i [MOD capacity.toNat]
  room : q.length + 4 ≤ capacity.toNat
  stored : s.mem.arc capacity.toNat i q.length = q

/-- The call has copied the first `k` bytes of `q` and goes on to the first `n`. -/
structure Pending (capacity : UInt32) (c : ReadCall) (q : List UInt8) (i k n : Nat) : Prop where
  k_le : k ≤ n
  n_le : n ≤ q.length
  bytes : c.bytes = q.take k
  cells : c.cells = circle capacity.toNat (i + k) (n - k)
  rp_le : c.rp.toNat ≤ capacity.toNat
  rp : c.rp.toNat ≡ i + n [MOD capacity.toNat]
  ret : c.readBytes.toNat = n

/-- The buffer holds the queue `q`. -/
def Holds (addr capacity : UInt32) (s : State) (q : List UInt8) : Prop :=
  ∃ i, Layout addr capacity s q i ∧ ∀ c ∈ s.call, ∃ k n, Pending capacity c q i k n

section Layout

variable {addr capacity : UInt32} {s : State} {q : List UInt8} {i : Nat}

theorem Layout.pos (h : Layout addr capacity s q i) : 0 < capacity.toNat := by
  have := h.room
  omega

theorem Layout.unread (h : Layout addr capacity s q i) : s.unread = q := by
  have hroom := h.room
  have hwindow : s.unread = s.mem.window capacity.toNat (i % capacity.toNat)
      ((i + q.length) % capacity.toNat) := by
    have hrp : s.rb.rp.toNat % capacity.toNat = i % capacity.toNat := h.rp
    rw [State.unread, h.capacity_eq, h.address_eq, h.loop.offset h.pos, ← hrp]
    rcases Nat.lt_or_eq_of_le h.rp_le with hlt | heq
    · rw [Nat.mod_eq_of_lt hlt]
    · rw [heq, Nat.mod_self, Mem.window_from_cap (Nat.mod_lt _ h.pos)]
  rw [hwindow, ← Mem.arc_eq_window (by omega), h.stored]

theorem Layout.marks (h : Layout addr capacity s q i) :
    (sampleWp s.rb s.dma).Marks i q.length := by
  have hroom := h.room
  have heq : (sampleWp s.rb s.dma).capacity = capacity := h.capacity_eq
  have hwp : (sampleWp s.rb s.dma).wp.toNat = (i + q.length) % capacity.toNat := by
    rw [sampleWp, h.address_eq]
    exact h.loop.offset h.pos
  refine ⟨?_, ?_, ?_, ?_⟩
  · rw [heq]
    exact h.rp_le
  · rw [heq]
    exact h.rp
  · rw [heq]
    exact hwp
  · rw [heq]
    omega

/-- The engine stands still only when the room is used up. -/
theorem Layout.stopped_iff (h : Layout addr capacity s q i) :
    s.dma.current = s.dma.pause ↔ q.length + 4 = capacity.toNat := by
  have hroom := h.room
  rw [h.loop.current, h.pause, GdmaChannel.cellAddr_inj h.pos]
  constructor
  · intro heq
    by_contra hne
    exact absurd heq.symm (mod_ne_of_lt (by omega) (by omega))
  · intro heq
    rw [← heq, Nat.add_sub_cancel]

/-- The engine's next cell has no unread byte in it. -/
theorem Layout.store_outside (h : Layout addr capacity s q i) :
    (s.dma.current - s.rb.address).toNat ∉
      circle capacity.toNat s.rb.rp.toNat s.unread.length := by
  have hroom := h.room
  have hrp : s.rb.rp.toNat % capacity.toNat = i % capacity.toNat := h.rp
  rw [h.unread, h.address_eq, h.loop.offset h.pos, ← circle_mod, hrp, circle_mod]
  intro hmem
  obtain ⟨j, hj, heq⟩ := List.mem_map.mp hmem
  have hlt := List.mem_range'_1.mp hj
  exact absurd heq.symm (mod_ne_of_lt (by omega) (by omega))

/-- One byte joins the buffer at its end; nothing else moves. -/
theorem Layout.store {t : State} {o : Answer} {b : UInt8} (h : Layout addr capacity s q i)
    (hs : s.store b = some (t, o)) :
    o = .stored b ∧ t.call = s.call ∧ Layout addr capacity t (q ++ [b]) i := by
  rw [State.store] at hs
  split at hs
  · cases hs
  · next hne =>
    simp only [Option.some.injEq, Prod.mk.injEq] at hs
    obtain ⟨rfl, rfl⟩ := hs
    have hroom := h.room
    have hmore : q.length + 4 ≠ capacity.toNat := fun heq => hne (h.stopped_iff.mpr heq)
    refine ⟨rfl, rfl, h.address_eq, h.capacity_eq, ?_, h.pause, h.rp_le, h.rp, ?_, ?_⟩
    · rw [List.length_append, List.length_singleton, ← Nat.add_assoc]
      exact h.loop.advance h.pos
    · rw [List.length_append, List.length_singleton]
      omega
    · rw [List.length_append, List.length_singleton, h.address_eq, h.loop.offset h.pos,
        Mem.arc_push b (by omega), h.stored]

theorem Pending.store {c : ReadCall} {k n : Nat} (h : Pending capacity c q i k n) (b : UInt8) :
    Pending capacity c (q ++ [b]) i k n where
  k_le := h.k_le
  n_le := by
    rw [List.length_append]
    exact Nat.le_add_right_of_le h.n_le
  bytes := by
    rw [h.bytes, List.take_append_of_le_length (h.k_le.trans h.n_le)]
  cells := h.cells
  rp_le := h.rp_le
  rp := h.rp
  ret := h.ret

/-- The next cell of the call has the next byte in it. -/
theorem Pending.load {c : ReadCall} {k n j : Nat} {cells : List Nat}
    (hL : Layout addr capacity s q i) (h : Pending capacity c q i k n)
    (hcells : c.cells = j :: cells) :
    Pending capacity { c with cells := cells, bytes := c.bytes ++ [s.mem j] } q i (k + 1) n := by
  have hlt : k < n := by
    have hlen := congrArg List.length (hcells.symm.trans h.cells)
    rw [List.length_cons, length_circle] at hlen
    omega
  have hk : k < q.length := Nat.lt_of_lt_of_le hlt h.n_le
  have hsplit : n - k = n - (k + 1) + 1 := by omega
  have hnext := h.cells
  rw [hcells, hsplit, circle_succ, List.cons.injEq] at hnext
  obtain ⟨rfl, rfl⟩ := hnext
  have hbyte : s.mem ((i + k) % capacity.toNat) = q[k] := by
    have hget := List.getElem_of_eq hL.stored (i := k) (by simpa using hk)
    rwa [Mem.getElem_arc] at hget
  refine ⟨hlt, h.n_le, ?_, rfl, h.rp_le, h.rp, h.ret⟩
  rw [hbyte, h.bytes]
  exact List.take_append_getElem hk

theorem Layout.sample (h : Layout addr capacity s q i) (call : Option ReadCall) :
    Layout addr capacity { s with rb := sampleWp s.rb s.dma, call := call } q i :=
  ⟨h.address_eq, h.capacity_eq, h.loop, h.pause, h.rp_le, h.rp, h.room, h.stored⟩

/-- The call has copied all its bytes: the pause address follows the read index. -/
theorem Layout.finish {c : ReadCall} {n : Nat} (h : Layout addr capacity s q i)
    (hcap : 4 < capacity.toNat) (hP : Pending capacity c q i n n) :
    Layout addr capacity (s.finishRead c).1 (q.drop n) (i + n) := by
  have hn := hP.n_le
  have hroom := h.room
  have hlen : i + n + (q.drop n).length = i + q.length := by
    rw [List.length_drop]
    omega
  refine ⟨h.address_eq, h.capacity_eq, ?_, ?_, hP.rp_le, hP.rp, ?_, ?_⟩
  · rw [hlen]
    exact ⟨h.loop.loopStart, h.loop.loopEnd, h.loop.current⟩
  · have hpause := rbPauseDmaWrite_eq { s.rb with rp := c.rp } (j := i + n)
      (by rw [h.capacity_eq]; exact hcap) (by rw [h.capacity_eq]; exact hP.rp_le)
      (by rw [h.capacity_eq]; exact hP.rp)
    rw [h.address_eq, h.capacity_eq] at hpause
    exact hpause
  · rw [List.length_drop]
    omega
  · have hstored := h.stored
    have hsplit : q.length = n + (q.drop n).length := by
      rw [List.length_drop]
      omega
    have hhead : (s.mem.arc capacity.toNat i n).length = n := Mem.length_arc
    rw [hsplit, Mem.arc_add] at hstored
    change s.mem.arc capacity.toNat (i + n) (q.drop n).length = q.drop n
    conv_rhs => rw [← hstored]
    rw [List.drop_left' hhead]

/-- With the engine at the start of the buffer nothing before it is unread. -/
theorem Layout.clear (h : Layout addr capacity s q i) (hcap : 4 < capacity.toNat)
    (hcur : s.dma.current = s.rb.address) (call : Option ReadCall) :
    Layout addr capacity
      { s with rb := (rbClearDmaWrite s.rb s.dma).1, dma := (rbClearDmaWrite s.rb s.dma).2,
               call := call } [] (i + q.length) := by
  have hzero : 0 ≡ i + q.length [MOD capacity.toNat] := by
    rw [Nat.ModEq, ← h.loop.offset h.pos, hcur, h.address_eq, UInt32.sub_self, Nat.zero_mod]
    rfl
  refine ⟨h.address_eq, h.capacity_eq, ⟨h.loop.loopStart, h.loop.loopEnd, h.loop.current⟩, ?_,
    Nat.zero_le _, hzero, hcap.le, rfl⟩
  have hpause := rbPauseDmaWrite_start { s.rb with wp := 0, rp := 0 } rfl
    (by rw [h.capacity_eq]; exact hcap) (j := i + q.length) (by rw [h.capacity_eq]; exact hzero)
  rw [h.address_eq, h.capacity_eq] at hpause
  rw [← hpause, ← h.address_eq, ← h.capacity_eq]
  rfl

end Layout

section Refinement

/-- `rb_clear_dma_write` finds the engine at the start of the buffer. -/
def ClearAtStart (s : State) : Event → Prop
  | .clear => s.dma.current = s.rb.address
  | _ => True

def Answer.toFifo : Answer → Fifo.Call UInt8 × Fifo.Answer UInt8
  | .busy => (.pop 0, .popped [])
  | .read bytes ret => (.pop ret.toNat, .popped bytes)
  | .stored b => (.push [b], .pushed 1)
  | .clear => (.clear, .cleared)
  | .fillSize n => (.fill, .size n.toNat)
  | .freeSize n => (.free, .size n.toNat)

/-- The same history in the words of a bounded queue: a read counts when it returns, with
the number of bytes it returns. -/
def asFifo (h : Machine.History Event Answer) : Fifo.History UInt8 :=
  h.map fun x => x.2.toFifo

/-- The step to `t` with answer `o` is one of the bounded queue. -/
def Simulated (addr capacity : UInt32) (q : List UInt8) (t : State) (o : Answer) : Prop :=
  ∃ q', Fifo.step (capacity.toNat - 4) q o.toFifo.1 = (q', o.toFifo.2) ∧
    Holds addr capacity t q'

variable {addr capacity : UInt32} {s t : State} {q : List UInt8} {i : Nat} {o : Answer}

theorem Layout.holds (h : Layout addr capacity s q i) (hcall : s.call = none) :
    Holds addr capacity s q :=
  ⟨i, h, by simp [hcall]⟩

theorem init_holds (mem : Mem UInt8) (ch : GdmaChannel) (hcap : 4 < capacity.toNat) :
    Holds addr capacity (init mem addr capacity ch) [] := by
  have hpause := rbPauseDmaWrite_start (rbInitDmaWrite addr capacity ch).1 rfl hcap
    (Nat.ModEq.refl 0)
  refine ⟨0, ⟨rfl, rfl, ⟨rfl, rfl, ?_⟩, hpause, Nat.zero_le _, rfl, hcap.le, rfl⟩, ?_⟩
  · simp [init, rbInitDmaWrite, GdmaChannel.setPauseAddr, GdmaChannel.config,
      GdmaChannel.cellAddr]
  · simp [init]

theorem store_simulated {b : UInt8} (hR : Holds addr capacity s q)
    (hs : s.store b = some (t, o)) : Simulated addr capacity q t o := by
  obtain ⟨i, hL, hP⟩ := hR
  obtain ⟨rfl, hcall, hL'⟩ := hL.store hs
  have hroom := hL'.room
  rw [List.length_append, List.length_singleton] at hroom
  refine ⟨q ++ [b], ?_, i, hL', ?_⟩
  · simp only [Answer.toFifo, Fifo.step, List.length_singleton]
    rw [if_pos (by omega)]
  · intro c hc
    obtain ⟨k, n, hP'⟩ := hP c (hcall ▸ hc)
    exact ⟨k, n, hP'.store b⟩

theorem beginRead_simulated (size count : UInt32) (hcall : s.call = none)
    (hL : Layout addr capacity s q i) :
    Simulated addr capacity q (s.beginRead size count).1 (s.beginRead size count).2 := by
  unfold State.beginRead
  simp only
  split
  case isTrue h₀ => exact ⟨q, rfl, hL.holds hcall⟩
  case isFalse h₀ =>
    have hloads := rbLoadDmaWrite_loads (n := size * count) hL.marks
    have heq : (sampleWp s.rb s.dma).capacity = capacity := hL.capacity_eq
    obtain ⟨hcells, hrp_le, hrp, hret⟩ := hloads
    rw [heq] at hcells hrp_le hrp
    refine ⟨q, rfl, i, hL.sample _, ?_⟩
    rintro c ⟨rfl⟩
    exact ⟨0, _, Nat.zero_le _, Nat.min_le_right .., rfl, hcells, hrp_le, hrp, hret⟩

theorem finish_simulated {c : ReadCall} (hcap : 4 < capacity.toNat) (hcall : s.call = some c)
    (hcells : c.cells = []) (hR : Holds addr capacity s q) :
    Simulated addr capacity q (s.finishRead c).1 (s.finishRead c).2 := by
  obtain ⟨i, hL, hP⟩ := hR
  obtain ⟨k, n, hP'⟩ := hP c hcall
  have hk := hP'.k_le
  obtain rfl : k = n := by
    have hlen := congrArg List.length (hcells.symm.trans hP'.cells)
    rw [List.length_nil, length_circle] at hlen
    omega
  refine ⟨q.drop k, ?_, (hL.finish hcap hP').holds rfl⟩
  simp only [State.finishRead, Answer.toFifo, Fifo.step, hP'.ret, hP'.bytes]

theorem idle_simulated {e : Event} (hcap : 4 < capacity.toNat) (hcall : s.call = none)
    (hL : Layout addr capacity s q i) (hclear : ClearAtStart s e)
    (hs : s.step e = some (t, o)) : Simulated addr capacity q t o := by
  cases e with
  | read size count =>
    simp only [State.step, hcall, Option.some.injEq] at hs
    have hbegin := beginRead_simulated size count hcall hL
    rwa [hs] at hbegin
  | load => simp [State.step, hcall] at hs
  | finish => simp [State.step, hcall] at hs
  | store b =>
    refine store_simulated (b := b) (hL.holds hcall) ?_
    rwa [State.step] at hs
  | clear =>
    simp only [State.step, hcall, Option.some.injEq, Prod.mk.injEq] at hs
    obtain ⟨rfl, rfl⟩ := hs
    exact ⟨[], rfl, (hL.clear hcap hclear none).holds rfl⟩
  | getFillSize =>
    simp only [State.step, hcall, Option.some.injEq, Prod.mk.injEq] at hs
    obtain ⟨rfl, rfl⟩ := hs
    refine ⟨q, ?_, (hL.sample none).holds rfl⟩
    simp [Fifo.step, Answer.toFifo, rbGetFillSizeDmaWrite, hL.marks.fillSize_eq]
  | getFreeSize =>
    simp only [State.step, hcall, Option.some.injEq, Prod.mk.injEq] at hs
    obtain ⟨rfl, rfl⟩ := hs
    refine ⟨q, ?_, (hL.sample none).holds rfl⟩
    have hfree : (rbGetFreeSizeDmaWrite (sampleWp s.rb s.dma)).toNat =
        capacity.toNat - 4 - q.length := by
      rw [← hL.capacity_eq]
      exact hL.marks.freeSize_eq
    simp [Fifo.step, Answer.toFifo, hfree]

theorem busy_simulated {e : Event} {c : ReadCall} (hcap : 4 < capacity.toNat)
    (hcall : s.call = some c) (hR : Holds addr capacity s q) (hs : s.step e = some (t, o)) :
    Simulated addr capacity q t o := by
  cases e with
  | store b =>
    refine store_simulated (b := b) hR ?_
    rwa [State.step] at hs
  | load =>
    simp only [State.step, hcall] at hs
    split at hs
    · next j cells hcells =>
      simp only [Option.some.injEq, Prod.mk.injEq] at hs
      obtain ⟨rfl, rfl⟩ := hs
      obtain ⟨i, hL, hP⟩ := hR
      obtain ⟨k, n, hP'⟩ := hP c hcall
      refine ⟨q, rfl, i, ⟨hL.address_eq, hL.capacity_eq, hL.loop, hL.pause, hL.rp_le, hL.rp,
        hL.room, hL.stored⟩, ?_⟩
      rintro c' ⟨rfl⟩
      exact ⟨k + 1, n, hP'.load hL hcells⟩
    · cases hs
  | finish =>
    simp only [State.step, hcall] at hs
    split at hs
    · next hcells =>
      rw [Option.some.injEq] at hs
      have hfinish := finish_simulated hcap hcall hcells hR
      rwa [hs] at hfinish
    · cases hs
  | _ => simp [State.step, hcall] at hs

theorem step_simulated {e : Event} (hcap : 4 < capacity.toNat) (hR : Holds addr capacity s q)
    (hclear : ClearAtStart s e) (hs : s.step e = some (t, o)) :
    Simulated addr capacity q t o := by
  rcases hcall : s.call with _ | c
  · obtain ⟨i, hL, -⟩ := hR
    exact idle_simulated hcap hcall hL hclear hs
  · exact busy_simulated hcap hcall hR hs

variable {mem : Mem UInt8} {ch : GdmaChannel} {h : Machine.History Event Answer}

/-- Every run of calls and stores is a run of the bounded queue with the same answers. -/
theorem dmaWrite_refines (hcap : 4 < capacity.toNat)
    (hr : (machine mem addr capacity ch).ReachesUnder ClearAtStart h s) :
    ∃ q, (Fifo.machine UInt8 (capacity.toNat - 4)).Reaches (asFifo h) q ∧
      Holds addr capacity s q := by
  refine hr.simulates (A := Fifo.machine UInt8 (capacity.toNat - 4))
    (fun x : Event × Answer => x.2.toFifo) (Holds addr capacity) (init_holds mem ch hcap) ?_
  intro s q e t o hR hc hs
  obtain ⟨q', hstep, hR'⟩ := step_simulated hcap hR hc hs
  exact ⟨q', congrArg some hstep, hR'⟩

/-- What a clear leaves to be read are the cells in front of the engine. -/
theorem Layout.unread_clear (h : Layout addr capacity s q i) (hcap : 4 < capacity.toNat)
    (call : Option ReadCall) :
    ({ s with rb := (rbClearDmaWrite s.rb s.dma).1, dma := (rbClearDmaWrite s.rb s.dma).2,
              call := call } : State).unread = [] ↔ ClearAtStart s .clear := by
  constructor
  · intro hnil
    have hcells : s.mem.window s.rb.capacity.toNat 0
        (s.dma.current - s.rb.address).toNat = [] := hnil
    have hlen := congrArg List.length hcells
    rw [Mem.length_window_of_le _ (Nat.zero_le _), Nat.sub_zero, List.length_nil] at hlen
    have hzero : s.dma.current - s.rb.address = 0 := UInt32.toNat_inj.mp hlen
    change s.dma.current = s.rb.address
    grind
  · intro hstart
    exact (h.clear hcap hstart call).unread

theorem beginRead_requests {size count : UInt32} (hL : Layout addr capacity s q i)
    (h₀ : size * count ≠ 0) : ∃ c, (s.beginRead size count).1.call = some c ∧
      c.readBytes.toNat = min (size * count).toNat q.length := by
  have hloads := rbLoadDmaWrite_loads (n := size * count) hL.marks
  have hret := hloads.ret
  simp only [State.beginRead, if_neg h₀]
  exact ⟨_, rfl, hret⟩

/-- The engine and `rb_read_dma_write` are a bounded queue of bytes as long as
`rb_clear_dma_write` finds the engine at the start of the buffer. -/
theorem dmaWrite_is_fifo (hcap : 4 < capacity)
    (hr : (machine mem addr capacity ch).ReachesUnder ClearAtStart h s) :
    (Fifo.machine UInt8 (capacity.toNat - 4)).Reaches (asFifo h) s.unread ∧
    Fifo.accepted (Fifo.sinceClear (asFifo h)) =
      Fifo.delivered (Fifo.sinceClear (asFifo h)) ++ s.unread ∧
    (s.dma.current = s.dma.pause ↔ s.unread.length + 4 = capacity.toNat) ∧
    (s.dma.current - s.rb.address).toNat ∉
      circle capacity.toNat s.rb.rp.toNat s.unread.length ∧
    s.dma.pause ∈ Space.span addr capacity.toNat ∧
    (∀ size count t o, size * count ≠ 0 → s.step (.read size count) = some (t, o) →
      ∃ c, t.call = some c ∧
        c.readBytes.toNat = min (size * count).toNat s.unread.length) ∧
    (∀ c t o, s.call = some c → s.step .finish = some (t, o) →
      o = .read (s.unread.take c.readBytes.toNat) c.readBytes ∧
      t.unread = s.unread.drop c.readBytes.toNat) ∧
    (∀ t o, s.step .clear = some (t, o) → (t.unread = [] ↔ ClearAtStart s .clear)) := by
  obtain ⟨q, hq, hR⟩ := dmaWrite_refines hcap hr
  obtain ⟨i, hL, hP⟩ := id hR
  obtain rfl := hL.unread
  refine ⟨hq, Fifo.conservation hq, hL.stopped_iff, hL.store_outside, ?_, ?_, ?_, ?_⟩
  · rw [hL.pause]
    exact GdmaChannel.cellAddr_mem_span hL.pos
  · intro size count t o h₀ hs
    rcases hcall : s.call with _ | c
    · simp only [State.step, hcall, Option.some.injEq] at hs
      have hbegin := beginRead_requests hL h₀
      rwa [hs] at hbegin
    · simp [State.step, hcall] at hs
  · intro c t o hcall hs
    obtain ⟨q', hstep, i', hL', -⟩ := busy_simulated hcap hcall hR hs
    simp only [State.step, hcall] at hs
    split at hs
    · rw [Option.some.injEq] at hs
      obtain rfl : o = .read c.bytes c.readBytes := (congrArg Prod.snd hs).symm
      simp only [Answer.toFifo, Fifo.step, Prod.mk.injEq, Fifo.Answer.popped.injEq] at hstep
      obtain ⟨rfl, hbytes⟩ := hstep
      exact ⟨by rw [← hbytes], hL'.unread⟩
    · cases hs
  · intro t o hs
    rcases hcall : s.call with _ | c
    · simp only [State.step, hcall, Option.some.injEq, Prod.mk.injEq] at hs
      obtain ⟨rfl, rfl⟩ := hs
      exact hL.unread_clear hcap none
    · simp [State.step, hcall] at hs

instance (s : State) : ∀ e, Decidable (ClearAtStart s e)
  | .clear => inferInstanceAs (Decidable (_ = _))
  | .read .. | .load | .finish | .store _ | .getFillSize | .getFreeSize => isTrue trivial

theorem dmaWrite_is_fifo_after_store : ∃ h s,
    (machine (fun _ => 0) 0x1000 8 GdmaChannel.reset).ReachesUnder ClearAtStart h s ∧
    s.unread = [7, 9] ∧
    Fifo.accepted (Fifo.sinceClear (asFifo h)) =
      Fifo.delivered (Fifo.sinceClear (asFifo h)) ++ s.unread := by
  have hrun : ∃ h s, (machine (fun _ => 0) 0x1000 8 GdmaChannel.reset).exec
      [.clear, .store 5, .read 1 1, .store 7, .load, .finish, .store 9] = some (h, s) ∧
      s.unread = [7, 9] :=
    ⟨_, _, rfl, rfl⟩
  obtain ⟨h, s, hx, hunread⟩ := hrun
  have hr := Machine.reachesUnder_of_exec (C := ClearAtStart) (by decide) hx
  exact ⟨h, s, hr, hunread, (dmaWrite_is_fifo (by decide) hr).2.1⟩

/-- One byte is stored.  A clear leaves the engine behind it, and a read after the clear
returns the byte from before. -/
theorem clear_keeps_stored :
    ¬ ∀ (mem : Mem UInt8) (addr capacity : UInt32) (ch : GdmaChannel)
      (h : Machine.History Event Answer) (s : State), 4 < capacity →
      (machine mem addr capacity ch).Reaches h s →
      Fifo.accepted (Fifo.sinceClear (asFifo h)) =
        Fifo.delivered (Fifo.sinceClear (asFifo h)) ++ s.unread := by
  intro hall
  have hrun : ∃ h s, (machine (fun _ => 0) 0x1000 8 GdmaChannel.reset).exec
      [.store 7, .clear, .read 1 1, .load, .finish] = some (h, s) ∧
      Fifo.sinceClear (asFifo h) =
        [(.pop 0, .popped []), (.pop 0, .popped []), (.pop 1, .popped [7])] :=
    ⟨_, _, rfl, rfl⟩
  obtain ⟨h, s, hx, hlast⟩ := hrun
  have hkept := hall _ _ _ _ h s (by decide) (Machine.reaches_of_exec hx)
  rw [hlast] at hkept
  cases hkept

end Refinement

end DmaWrite

end BdkRtt.Audio
