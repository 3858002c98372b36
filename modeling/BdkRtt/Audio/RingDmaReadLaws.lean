import BdkRtt.Lib.Circle
import BdkRtt.Lib.Fifo
import BdkRtt.Audio.RingDmaRead

namespace BdkRtt.Audio

open Lib

namespace DmaRead

section Store

variable {rb : RbDmaRdSt} {i len : Nat} {n : UInt32}

/-- The indices of `rb`, the read index as it was sampled. -/
abbrev RbDmaRdSt.Marks (rb : RbDmaRdSt) (i len : Nat) : Prop :=
  DmaRing.Marks rb.capacity rb.rp rb.wp i len

variable (buffer : Mem UInt8)

theorem rbStoreDmaRead_refused (h : rb.Marks i len) (hn : n.toNat + 4 < 2 ^ 32)
    (hroom : rb.capacity.toNat < len + n.toNat + 4) : rbStoreDmaRead rb buffer n = none := by
  have hlen := h.len_lt
  unfold rbStoreDmaRead
  simp only
  split
  case isTrue hle =>
    refine if_neg ?_
    rw [ge_iff_le, UInt32.le_iff_toNat_le, add_safeInterval_toNat hn, h.remain_above hle]
    omega
  case isFalse hnot =>
    refine if_neg ?_
    rw [ge_iff_le, UInt32.le_iff_toNat_le, add_safeInterval_toNat hn,
      h.remain_below (UInt32.not_le.mp hnot)]
    omega

/-- A `wp` at the capacity stands for position zero; it stays there only when `rp` is zero. -/
theorem rbWrapDmaRead_wp {wp : UInt32} (hwp : wp.toNat ≤ rb.capacity.toNat)
    (hend : wp.toNat = rb.capacity.toNat → rb.rp.toNat ≠ 0) :
    (rbWrapDmaRead { rb with wp := wp }).wp.toNat = wp.toNat % rb.capacity.toNat := by
  simp only [rbWrapDmaRead, ge_iff_le, UInt32.le_iff_toNat_le]
  split
  case isTrue h =>
    have heq : wp.toNat = rb.capacity.toNat := by omega
    rw [heq, Nat.mod_self]
    rfl
  case isFalse h =>
    have hlt : wp.toNat < rb.capacity.toNat := by
      rcases Nat.lt_or_eq_of_le hwp with hlt | heq
      · exact hlt
      · exact absurd ⟨heq.ge, fun h0 => hend heq (by rw [h0]; rfl)⟩ h
    exact (Nat.mod_eq_of_lt hlt).symm

@[simp] theorem rbWrapDmaRead_address (rb : RbDmaRdSt) :
    (rbWrapDmaRead rb).address = rb.address := by
  unfold rbWrapDmaRead
  split <;> rfl

@[simp] theorem rbWrapDmaRead_capacity (rb : RbDmaRdSt) :
    (rbWrapDmaRead rb).capacity = rb.capacity := by
  unfold rbWrapDmaRead
  split <;> rfl

/-- The copies of an accepted write go to the positions from `j` on, and leave `wp` behind
them. -/
def Stores (rb : RbDmaRdSt) (j : Nat) (xs : List UInt8) :
    Option (List (Nat × UInt8) × UInt32) → Prop
  | some (stores, wp) => stores = (circle rb.capacity.toNat j xs.length).zip xs ∧
      (rbWrapDmaRead { rb with wp := wp }).wp.toNat = (j + xs.length) % rb.capacity.toNat
  | none => False

/-- A copy that does not reach past the end of the buffer. -/
theorem stores_straight {j : Nat} (xs : List UInt8) {wp : UInt32}
    (hj : rb.wp.toNat ≡ j [MOD rb.capacity.toNat])
    (hfit : rb.wp.toNat + xs.length ≤ rb.capacity.toNat)
    (hwp : wp.toNat = rb.wp.toNat + xs.length)
    (hend : rb.wp.toNat + xs.length = rb.capacity.toNat → rb.rp.toNat ≠ 0) :
    Stores rb j xs (some (memcpy rb.wp.toNat xs, wp)) := by
  refine ⟨?_, ?_⟩
  · rw [memcpy, circle_straight hj hfit]
  · rw [rbWrapDmaRead_wp (by omega) (by omega), hwp]
    exact hj.add_right _

/-- Two copies, the second from the start of the buffer on. -/
theorem stores_around {j : Nat} {xs ys : List UInt8} {wp : UInt32}
    (hj : rb.wp.toNat ≡ j [MOD rb.capacity.toNat])
    (hxs : rb.wp.toNat + xs.length = rb.capacity.toNat)
    (hys : ys.length < rb.capacity.toNat) (hwp : wp.toNat = ys.length) :
    Stores rb j (xs ++ ys) (some (memcpy rb.wp.toNat xs ++ memcpy 0 ys, wp)) := by
  refine ⟨?_, ?_⟩
  · rw [List.length_append, circle_around hj hxs hys.le, List.zip_append (by simp)]
    rfl
  · have hround : (j + xs.length) % rb.capacity.toNat = 0 := by
      rw [← hj.add_right xs.length, hxs, Nat.mod_self]
    rw [rbWrapDmaRead_wp (by omega) (by omega), List.length_append, ← Nat.add_assoc,
      ← Nat.mod_add_mod, hround, Nat.zero_add, hwp]

theorem rbStoreDmaRead_accepted (h : rb.Marks i len) (hn : n.toNat + 4 < 2 ^ 32)
    (hroom : len + n.toNat + 4 ≤ rb.capacity.toNat) :
    Stores rb (i + len) (buffer.read 0 n.toNat) (rbStoreDmaRead rb buffer n) := by
  have hcap := rb.capacity.toNat_lt
  have hwp := h.wp_lt
  have hlen : (buffer.read 0 n.toNat).length = n.toNat := Mem.length_read ..
  have hadd : rb.wp.toNat + n.toNat ≤ rb.capacity.toNat →
      (rb.wp + n).toNat = rb.wp.toNat + n.toNat := by
    intro hle
    exact toNat_add_of_lt (by omega)
  unfold rbStoreDmaRead
  simp only
  split
  case isTrue hle =>
    have habove := h.above hle
    rw [if_pos (by
      rw [ge_iff_le, UInt32.le_iff_toNat_le, add_safeInterval_toNat hn, h.remain_above hle]
      omega)]
    by_cases hfit : n ≤ rb.capacity - rb.wp
    · have hfit' : n.toNat ≤ rb.capacity.toNat - rb.wp.toNat :=
        h.tail ▸ UInt32.le_iff_toNat_le.mp hfit
      rw [if_pos hfit]
      exact stores_straight _ h.wp_modEq (by omega) (by rw [hlen, hadd (by omega)]) (by omega)
    · have hlt := UInt32.not_le.mp hfit
      have hfit' : rb.capacity.toNat - rb.wp.toNat < n.toNat :=
        h.tail ▸ UInt32.lt_iff_toNat_lt.mp hlt
      have hrest : (n - (rb.capacity - rb.wp)).toNat =
          n.toNat - (rb.capacity - rb.wp).toNat :=
        UInt32.toNat_sub_of_le _ _ (UInt32.le_of_lt hlt)
      rw [if_neg hfit, read_split buffer (UInt32.le_of_lt hlt)]
      refine stores_around h.wp_modEq ?_ ?_ (Mem.length_read ..).symm
      · rw [Mem.length_read, h.tail]
        omega
      · rw [Mem.length_read, hrest, h.tail]
        omega
  case isFalse hnot =>
    have hlt := UInt32.not_le.mp hnot
    have hbelow := h.below hlt
    have hrp := h.rp_le
    rw [if_pos (by
      rw [ge_iff_le, UInt32.le_iff_toNat_le, add_safeInterval_toNat hn, h.remain_below hlt]
      omega)]
    exact stores_straight _ h.wp_modEq (by omega) (by rw [hlen, hadd (by omega)]) (by omega)

end Store

/-- The bytes between the address of the engine and the one it stops at, oldest first. -/
def State.inFlight (s : State) : List UInt8 :=
  s.mem.window s.rb.capacity.toNat (s.dma.current - s.rb.address).toNat
    (s.dma.pause - s.rb.address).toNat

/-- The engine stands at position `i` of the buffer; behind it lie the bytes `q` up to the
pause address, and then the bytes `done` that the call on the way has stored. -/
structure Layout (addr capacity : UInt32) (s : State) (q done : List UInt8) (i : Nat) :
    Prop where
  address_eq : s.rb.address = addr
  capacity_eq : s.rb.capacity = capacity
  loop : s.dma.OnLoop addr capacity i
  pause : s.dma.pause = GdmaChannel.cellAddr addr capacity (i + q.length)
  wp : s.rb.wp.toNat = (i + q.length) % capacity.toNat
  gap : q.length + done.length + 4 ≤ capacity.toNat ∨ q ++ done = []
  stored : s.mem.arc capacity.toNat i (q ++ done).length = q ++ done

/-- The call has stored `done` of its bytes and has `rest` to store. -/
structure Pending (s : State) (c : WriteCall) (q done rest : List UInt8) (i : Nat) : Prop where
  fits : c.size.toNat * c.count.toNat + 4 < 2 ^ 32
  request : c.buffer.read 0 (c.size.toNat * c.count.toNat) = done ++ rest
  room : q.length + (done ++ rest).length + 4 ≤ s.rb.capacity.toNat
  stores : c.stores =
    (circle s.rb.capacity.toNat (i + (q ++ done).length) rest.length).zip rest
  wp : (rbWrapDmaRead { s.rb with wp := c.wp }).wp.toNat =
    (i + q.length + (done ++ rest).length) % s.rb.capacity.toNat

/-- The buffer holds the queue `q`. -/
def Holds (addr capacity : UInt32) (s : State) (q : List UInt8) : Prop :=
  ∃ i, match s.call with
    | none => Layout addr capacity s q [] i
    | some c => ∃ done rest, Layout addr capacity s q done i ∧ Pending s c q done rest i

section Layout

theorem holds_idle {addr capacity : UInt32} {s : State} {q : List UInt8} (h : s.call = none) :
    Holds addr capacity s q ↔ ∃ i, Layout addr capacity s q [] i := by
  rw [Holds, h]

theorem holds_busy {addr capacity : UInt32} {s : State} {q : List UInt8} {c : WriteCall}
    (h : s.call = some c) : Holds addr capacity s q ↔
      ∃ i done rest, Layout addr capacity s q done i ∧ Pending s c q done rest i := by
  rw [Holds, h]

variable {addr capacity : UInt32} {s : State} {q done : List UInt8} {i : Nat}

theorem Layout.length_lt (h : Layout addr capacity s q done i) (hcap : 0 < capacity.toNat) :
    (q ++ done).length < capacity.toNat := by
  rw [List.length_append]
  rcases h.gap with hgap | hnil
  · omega
  · have := congrArg List.length hnil
    rw [List.length_append, List.length_nil] at this
    omega

theorem Layout.queued (h : Layout addr capacity s q done i) :
    s.mem.arc capacity.toNat i q.length = q := by
  have hstored := h.stored
  rw [List.length_append, Mem.arc_add] at hstored
  exact (List.append_inj hstored (by simp)).1

theorem Layout.inFlight (h : Layout addr capacity s q done i) (hcap : 0 < capacity.toNat) :
    s.inFlight = q := by
  have hlen := h.length_lt hcap
  rw [List.length_append] at hlen
  rw [State.inFlight, h.address_eq, h.capacity_eq, h.loop.offset hcap, h.pause,
    GdmaChannel.cellAddr_sub hcap, ← Mem.arc_eq_window (by omega), h.queued]

theorem Layout.marks (h : Layout addr capacity s q done i) (hcap : 0 < capacity.toNat) :
    (sampleRp s.rb s.dma).Marks i q.length := by
  have hlen := h.length_lt hcap
  rw [List.length_append] at hlen
  have hrp : (sampleRp s.rb s.dma).rp.toNat = i % capacity.toNat := by
    rw [sampleRp, h.address_eq]
    exact h.loop.offset hcap
  have hlt : i % capacity.toNat < capacity.toNat := Nat.mod_lt _ hcap
  have heq : (sampleRp s.rb s.dma).capacity = capacity := h.capacity_eq
  refine ⟨?_, ?_, ?_, ?_⟩
  · rw [hrp, heq]
    exact hlt.le
  · rw [hrp, heq]
    exact Nat.mod_modEq _ _
  · rw [heq]
    exact h.wp
  · rw [heq]
    omega

/-- The engine stands still only when it has caught up. -/
theorem Layout.stopped_iff (h : Layout addr capacity s q done i) (hcap : 0 < capacity.toNat) :
    s.dma.current = s.dma.pause ↔ q = [] := by
  have hlen := h.length_lt hcap
  rw [List.length_append] at hlen
  rw [h.loop.current, h.pause, GdmaChannel.cellAddr_inj hcap]
  constructor
  · intro heq
    rcases q with _ | ⟨b, q⟩
    · rfl
    · rw [List.length_cons] at heq hlen
      exact absurd heq.symm (mod_ne_of_lt (by omega) (by omega))
  · rintro rfl
    rfl

/-- One byte leaves the buffer at its front; nothing else moves. -/
theorem Layout.transfer {t : State} {o : Answer} (h : Layout addr capacity s q done i)
    (hcap : 0 < capacity.toNat) (hs : s.transfer = some (t, o)) :
    ∃ b q', q = b :: q' ∧ t = { s with dma := s.dma.advance } ∧ o = .transferred b ∧
      Layout addr capacity t q' done (i + 1) := by
  rw [State.transfer] at hs
  split at hs
  · cases hs
  · next hne =>
    simp only [Option.some.injEq, Prod.mk.injEq] at hs
    obtain ⟨rfl, rfl⟩ := hs
    rcases q with _ | ⟨b, q⟩
    · exact absurd ((h.stopped_iff hcap).mpr rfl) hne
    · have hstored := h.stored
      rw [List.cons_append, List.length_cons, Mem.arc_succ, List.cons.injEq] at hstored
      have hlen : i + (b :: q).length = i + 1 + q.length := by
        rw [List.length_cons]
        omega
      refine ⟨b, q, rfl, rfl, ?_, ?_⟩
      · rw [h.address_eq, h.loop.offset hcap, hstored.1]
      · refine ⟨h.address_eq, h.capacity_eq, h.loop.advance hcap, hlen ▸ h.pause, hlen ▸ h.wp, ?_,
          hstored.2⟩
        rcases h.gap with hgap | hnil
        · rw [List.length_cons] at hgap
          exact .inl (by omega)
        · cases hnil

end Layout

section Refinement

/-- The writes whose byte count leaves room for the gap in 32 bits. -/
def Fits : Event → Prop
  | .write _ size count => size.toNat * count.toNat + 4 < 2 ^ 32
  | _ => True

/-- `rb_clear_dma_read` finds the engine and its pause address at the start of the buffer. -/
def ClearAtStart (s : State) : Event → Prop
  | .clear => s.dma.current = s.rb.address ∧ s.dma.pause = s.rb.address
  | _ => True

def Answer.toFifo : Answer → Fifo.Call UInt8 × Fifo.Answer UInt8
  | .busy => (.pop 0, .popped [])
  | .write buffer size count ret =>
    (.push (buffer.read 0 (size.toNat * count.toNat)), .pushed ret.toNat)
  | .transferred b => (.pop 1, .popped [b])
  | .clear => (.clear, .cleared)
  | .fillSize n => (.fill, .size n.toNat)
  | .freeSize n => (.free, .size n.toNat)

/-- The same history in the words of a bounded queue: a write counts when it returns, and
the steps inside it take nothing out. -/
def asFifo (h : Machine.History Event Answer) : Fifo.History UInt8 :=
  h.map fun x => x.2.toFifo

/-- The step to `t` with answer `o` is one of the bounded queue. -/
def Simulated (addr capacity : UInt32) (q : List UInt8) (t : State) (o : Answer) : Prop :=
  ∃ q', Fifo.step (capacity.toNat - 4) q o.toFifo.1 = (q', o.toFifo.2) ∧
    Holds addr capacity t q'

variable {addr capacity : UInt32} {s t : State} {q : List UInt8} {o : Answer}

theorem init_holds (mem : Mem UInt8) (ch : GdmaChannel) :
    Holds addr capacity (init mem addr capacity ch) [] :=
  ⟨0, rfl, rfl, ⟨rfl, rfl, by simp [init, rbInitDmaRead, GdmaChannel.trigger,
      GdmaChannel.setPauseAddr, GdmaChannel.config, GdmaChannel.cellAddr]⟩,
    by simp [init, rbInitDmaRead, GdmaChannel.trigger, GdmaChannel.setPauseAddr,
      GdmaChannel.cellAddr], by simp [init, rbInitDmaRead], .inr rfl, rfl⟩

theorem transfer_simulated (hcap : 0 < capacity.toNat) (hR : Holds addr capacity s q)
    (hs : s.transfer = some (t, o)) : Simulated addr capacity q t o := by
  rcases hcall : s.call with _ | c
  · obtain ⟨i, hL⟩ := (holds_idle hcall).mp hR
    obtain ⟨b, q', rfl, rfl, rfl, hL'⟩ := hL.transfer hcap hs
    have hcall' : ({ s with dma := s.dma.advance } : State).call = none := hcall
    exact ⟨q', rfl, (holds_idle hcall').mpr ⟨i + 1, hL'⟩⟩
  · obtain ⟨i, done, rest, hL, hP⟩ := (holds_busy hcall).mp hR
    obtain ⟨b, q', rfl, rfl, rfl, hL'⟩ := hL.transfer hcap hs
    have hcall' : ({ s with dma := s.dma.advance } : State).call = some c := hcall
    have hroom := hP.room
    have hlen : i + (b :: q').length = i + 1 + q'.length := by
      rw [List.length_cons]
      omega
    have hlen' : i + (b :: q' ++ done).length = i + 1 + (q' ++ done).length := by
      rw [List.cons_append, List.length_cons]
      omega
    rw [List.length_cons] at hroom
    refine ⟨q', rfl, (holds_busy hcall').mpr ⟨i + 1, done, rest, hL', hP.fits, hP.request, ?_,
      hlen' ▸ hP.stores, hlen ▸ hP.wp⟩⟩
    dsimp only
    omega

theorem Layout.sample (h : Layout addr capacity s q [] i) (call : Option WriteCall) :
    Layout addr capacity { s with rb := sampleRp s.rb s.dma, call := call } q [] i :=
  ⟨h.address_eq, h.capacity_eq, h.loop, h.pause, h.wp, h.gap, h.stored⟩

theorem beginWrite_simulated (buffer : Mem UInt8) {size count : UInt32}
    (hcap : 0 < capacity.toNat) (hcall : s.call = none) (hR : Layout addr capacity s q [] i)
    (hfit : size.toNat * count.toNat + 4 < 2 ^ 32) :
    Simulated addr capacity q (s.beginWrite buffer size count).1
      (s.beginWrite buffer size count).2 := by
  have hmul : (size * count).toNat = size.toNat * count.toNat :=
    mul_toNat_of_fits (by omega)
  have hmarks := hR.marks hcap
  have heq : (sampleRp s.rb s.dma).capacity = capacity := hR.capacity_eq
  unfold State.beginWrite
  simp only
  split
  case isTrue h₀ =>
    refine ⟨q, ?_, i, ?_⟩
    · simp only [Answer.toFifo, ← hmul, h₀]
      simp [Fifo.step]
    · rw [hcall]
      exact hR
  case isFalse h₀ =>
    have hpos := toNat_pos h₀
    by_cases hroom : q.length + (size * count).toNat + 4 ≤ capacity.toNat
    · have hstores := rbStoreDmaRead_accepted buffer hmarks (by omega) (heq.symm ▸ hroom)
      split
      next hnone => rw [hnone] at hstores; exact hstores.elim
      next stores wp hsome =>
        rw [hsome, hmul] at hstores
        obtain ⟨hst, hwp⟩ := hstores
        refine ⟨q, rfl, i, [], buffer.read 0 (size.toNat * count.toNat), hR.sample _, hfit, rfl,
          ?_, ?_, ?_⟩
        · rw [List.nil_append, Mem.length_read, ← hmul]
          exact heq.symm ▸ hroom
        · rw [List.append_nil]
          exact hst
        · rw [List.nil_append]
          exact hwp
    · rw [rbStoreDmaRead_refused buffer hmarks (by omega) (by rw [heq]; omega)]
      refine ⟨q, ?_, i, ?_⟩
      · simp only [Answer.toFifo, Fifo.step, Mem.length_read]
        rw [if_neg (by omega)]
        rfl
      · simp only [hcall]
        exact hR.sample _

/-- One byte more lies behind the pause address; those in front of it are untouched. -/
theorem Layout.store {c : WriteCall} {done rest : List UInt8} {k : Nat} {b : UInt8}
    {stores : List (Nat × UInt8)} (hL : Layout addr capacity s q done i)
    (hP : Pending s c q done rest i) (hst : c.stores = (k, b) :: stores) :
    ∃ rest', rest = b :: rest' ∧
      Layout addr capacity { s with mem := s.mem.write k [b] } q (done ++ [b]) i ∧
      k = (i + (q ++ done).length) % capacity.toNat ∧
      stores = (circle capacity.toNat (i + (q ++ (done ++ [b])).length) rest'.length).zip
        rest' := by
  have hroom := hP.room
  have hstores := hP.stores
  rw [hL.capacity_eq] at hroom hstores
  rw [hst] at hstores
  rcases rest with _ | ⟨x, rest'⟩
  · simp at hstores
  · rw [List.length_cons, circle_succ, List.zip_cons_cons, List.cons.injEq,
      Prod.mk.injEq] at hstores
    obtain ⟨⟨rfl, rfl⟩, rfl⟩ := hstores
    rw [List.length_append, List.length_cons] at hroom
    have hlen : (q ++ (done ++ [b])).length = (q ++ done).length + 1 := by
      simp [Nat.add_assoc]
    refine ⟨rest', rfl, ⟨hL.address_eq, hL.capacity_eq, hL.loop, hL.pause, hL.wp, ?_, ?_⟩, rfl,
      ?_⟩
    · rw [List.length_append, List.length_singleton]
      exact .inl (by omega)
    · rw [hlen, Mem.arc_push b (by rw [List.length_append]; omega), hL.stored,
        List.append_assoc]
    · rw [hlen, Nat.add_assoc]

theorem store_simulated {c : WriteCall} {k : Nat} {b : UInt8} {stores : List (Nat × UInt8)}
    (hcall : s.call = some c) (hst : c.stores = (k, b) :: stores)
    (hR : Holds addr capacity s q) :
    Simulated addr capacity q
      { s with mem := s.mem.write k [b], call := some { c with stores := stores } } .busy := by
  obtain ⟨i, done, rest, hL, hP⟩ := (holds_busy hcall).mp hR
  obtain ⟨rest', rfl, hL', -, hstores⟩ := hL.store hP hst
  have hlist : done ++ b :: rest' = (done ++ [b]) ++ rest' := by simp
  refine ⟨q, rfl, i, done ++ [b], rest', ?_, hP.fits, ?_, ?_, ?_, ?_⟩
  · exact ⟨hL'.address_eq, hL'.capacity_eq, hL'.loop, hL'.pause, hL'.wp, hL'.gap, hL'.stored⟩
  · rw [← hlist]
    exact hP.request
  · rw [← hlist]
    exact hP.room
  · exact hL.capacity_eq ▸ hstores
  · rw [← hlist]
    exact hP.wp

/-- The call has stored all its bytes: the pause address moves behind them. -/
theorem Layout.finish {c : WriteCall} {done : List UInt8} (hL : Layout addr capacity s q done i)
    (hP : Pending s c q done [] i) :
    Layout addr capacity (s.finishWrite c).1 (q ++ done) [] i := by
  have hroom := hP.room
  have hwp := hP.wp
  rw [List.append_nil, hL.capacity_eq] at hroom hwp
  rw [Nat.add_assoc, ← List.length_append] at hwp
  refine ⟨(rbWrapDmaRead_address _).trans hL.address_eq,
    (rbWrapDmaRead_capacity _).trans hL.capacity_eq,
    ⟨hL.loop.loopStart, hL.loop.loopEnd, hL.loop.current⟩, ?_, hwp, .inl ?_, ?_⟩
  · rw [GdmaChannel.cellAddr, ← hwp, UInt32.ofNat_toNat]
    exact congrArg (· + _) ((rbWrapDmaRead_address _).trans hL.address_eq)
  · rw [List.length_append, List.length_nil]
    exact hroom
  · rw [List.append_nil]
    exact hL.stored

theorem finish_simulated {c : WriteCall} (hcall : s.call = some c) (hst : c.stores = [])
    (hR : Holds addr capacity s q) :
    Simulated addr capacity q (s.finishWrite c).1 (s.finishWrite c).2 := by
  obtain ⟨i, done, rest, hL, hP⟩ := (holds_busy hcall).mp hR
  have hrest : rest = [] := by
    have hlen := congrArg List.length hP.stores
    simp only [hst, List.length_nil, List.length_zip, length_circle] at hlen
    exact List.length_eq_zero_iff.mp (by omega)
  subst hrest
  have hroom := hP.room
  have hrequest := hP.request
  have hfits := hP.fits
  rw [List.append_nil] at hroom hrequest
  rw [hL.capacity_eq] at hroom
  have hmul : (c.size * c.count).toNat = done.length := by
    rw [mul_toNat_of_fits (by omega), ← hrequest, Mem.length_read]
  refine ⟨q ++ done, ?_, i, hL.finish hP⟩
  simp only [State.finishWrite, Answer.toFifo, Fifo.step, hrequest, hmul]
  rw [if_pos (by omega)]

/-- With both addresses at the start of the buffer nothing is in flight. -/
theorem Layout.clear (h : Layout addr capacity s q [] i) (hcap : 0 < capacity.toNat)
    (hcur : s.dma.current = s.rb.address) (hpause : s.dma.pause = s.rb.address)
    (call : Option WriteCall) :
    Layout addr capacity { s with rb := rbClearDmaRead s.rb, call := call } [] [] i := by
  obtain rfl : q = [] := (h.stopped_iff hcap).mp (hcur.trans hpause.symm)
  have hzero : i % capacity.toNat = 0 := by
    rw [← h.loop.offset hcap, hcur, h.address_eq, UInt32.sub_self]
    rfl
  exact ⟨h.address_eq, h.capacity_eq, h.loop, h.pause, hzero.symm, .inr rfl, rfl⟩

theorem idle_simulated {e : Event} (hcap : 0 < capacity.toNat) (hcall : s.call = none)
    (hL : Layout addr capacity s q [] i) (hfit : Fits e) (hclear : ClearAtStart s e)
    (hs : s.step e = some (t, o)) : Simulated addr capacity q t o := by
  cases e with
  | write buffer size count =>
    simp only [State.step, hcall, Option.some.injEq] at hs
    have hbegin := beginWrite_simulated buffer hcap hcall hL hfit
    rwa [hs] at hbegin
  | store => simp [State.step, hcall] at hs
  | finish => simp [State.step, hcall] at hs
  | transfer =>
    refine transfer_simulated hcap ((holds_idle hcall).mpr ⟨i, hL⟩) ?_
    rwa [State.step] at hs
  | clear =>
    simp only [State.step, hcall, Option.some.injEq, Prod.mk.injEq] at hs
    obtain ⟨rfl, rfl⟩ := hs
    exact ⟨[], rfl, (holds_idle rfl).mpr ⟨i, hL.clear hcap hclear.1 hclear.2 _⟩⟩
  | getFillSize =>
    simp only [State.step, hcall, Option.some.injEq, Prod.mk.injEq] at hs
    obtain ⟨rfl, rfl⟩ := hs
    refine ⟨q, ?_, (holds_idle rfl).mpr ⟨i, hL.sample _⟩⟩
    simp [Fifo.step, Answer.toFifo, rbGetFillSizeDmaRead, (hL.marks hcap).fillSize_eq]
  | getFreeSize =>
    simp only [State.step, hcall, Option.some.injEq, Prod.mk.injEq] at hs
    obtain ⟨rfl, rfl⟩ := hs
    refine ⟨q, ?_, (holds_idle rfl).mpr ⟨i, hL.sample _⟩⟩
    have hfree : (rbGetFreeSizeDmaRead (sampleRp s.rb s.dma)).toNat =
        capacity.toNat - 4 - q.length := by
      rw [← hL.capacity_eq]
      exact (hL.marks hcap).freeSize_eq
    simp [Fifo.step, Answer.toFifo, hfree]

theorem busy_simulated {e : Event} {c : WriteCall} (hcap : 0 < capacity.toNat)
    (hcall : s.call = some c) (hR : Holds addr capacity s q) (hs : s.step e = some (t, o)) :
    Simulated addr capacity q t o := by
  cases e with
  | transfer =>
    refine transfer_simulated hcap hR ?_
    rwa [State.step] at hs
  | store =>
    simp only [State.step, hcall] at hs
    split at hs
    · next k b stores hst =>
      simp only [Option.some.injEq, Prod.mk.injEq] at hs
      obtain ⟨rfl, rfl⟩ := hs
      exact store_simulated hcall hst hR
    · cases hs
  | finish =>
    simp only [State.step, hcall] at hs
    split at hs
    · next hst =>
      rw [Option.some.injEq] at hs
      have hfinish := finish_simulated hcall hst hR
      rwa [hs] at hfinish
    · cases hs
  | _ => simp [State.step, hcall] at hs

theorem step_simulated {e : Event} (hcap : 0 < capacity.toNat) (hR : Holds addr capacity s q)
    (hfit : Fits e) (hclear : ClearAtStart s e) (hs : s.step e = some (t, o)) :
    Simulated addr capacity q t o := by
  rcases hcall : s.call with _ | c
  · obtain ⟨i, hL⟩ := (holds_idle hcall).mp hR
    exact idle_simulated hcap hcall hL hfit hclear hs
  · exact busy_simulated hcap hcall hR hs

/-- A clear leaves the engine and its pause address where they are. -/
theorem Layout.cleared_iff (h : Layout addr capacity s q [] i) (hcap : 0 < capacity.toNat)
    (call : Option WriteCall) :
    (({ s with rb := rbClearDmaRead s.rb, call := call } : State).inFlight = [] ∧
      rbGetFillSizeDmaRead (sampleRp (rbClearDmaRead s.rb) s.dma) = 0) ↔
      ClearAtStart s .clear := by
  constructor
  · rintro ⟨hnil, hfill⟩
    have hempty : q = [] := (h.inFlight hcap).symm.trans hnil
    have hlt : (s.dma.current - s.rb.address).toNat < s.rb.capacity.toNat := by
      rw [h.address_eq, h.capacity_eq, h.loop.offset hcap]
      exact Nat.mod_lt _ hcap
    have hcur : s.dma.current = s.rb.address := by
      change DmaRing.fillSize s.rb.capacity (s.dma.current - s.rb.address) 0 = 0 at hfill
      have hzero := DmaRing.eq_zero_of_fillSize hlt hfill
      grind
    exact ⟨hcur, ((h.stopped_iff hcap).mpr hempty).symm.trans hcur⟩
  · rintro ⟨hcur, hpause⟩
    have hcleared := h.clear hcap hcur hpause call
    exact ⟨hcleared.inFlight hcap, UInt32.toNat_inj.mp (hcleared.marks hcap).fillSize_eq⟩

/-- The next byte of the call on the way goes to a cell with nothing in flight. -/
theorem store_outside {c : WriteCall} {k : Nat} {b : UInt8} {stores : List (Nat × UInt8)}
    (hcap : 0 < capacity.toNat) (hcall : s.call = some c) (hst : c.stores = (k, b) :: stores)
    (hR : Holds addr capacity s q) :
    k < capacity.toNat ∧
      k ∉ circle capacity.toNat (s.dma.current - s.rb.address).toNat s.inFlight.length := by
  obtain ⟨i, done, rest, hL, hP⟩ := (holds_busy hcall).mp hR
  obtain ⟨rest', rfl, -, rfl, -⟩ := hL.store hP hst
  have hroom := hP.room
  rw [hL.capacity_eq, List.length_append, List.length_cons] at hroom
  refine ⟨Nat.mod_lt _ hcap, ?_⟩
  rw [hL.inFlight hcap, hL.address_eq, hL.loop.offset hcap, circle_mod]
  intro hmem
  obtain ⟨j, hj, heq⟩ := List.mem_map.mp hmem
  have hlt := List.mem_range'_1.mp hj
  rw [List.length_append] at heq
  exact absurd heq.symm (mod_ne_of_lt (by omega) (by omega))

variable {mem : Mem UInt8} {ch : GdmaChannel} {h : Machine.History Event Answer}

/-- Every run of calls and transfers is a run of the bounded queue with the same answers. -/
theorem dmaRead_refines (hcap : 0 < capacity.toNat)
    (hr : (machine mem addr capacity ch).ReachesUnder (fun s e => Fits e ∧ ClearAtStart s e)
      h s) :
    ∃ q, (Fifo.machine UInt8 (capacity.toNat - 4)).Reaches (asFifo h) q ∧
      Holds addr capacity s q := by
  refine hr.simulates (A := Fifo.machine UInt8 (capacity.toNat - 4))
    (fun x : Event × Answer => x.2.toFifo) (Holds addr capacity) (init_holds mem ch) ?_
  intro s q e t o hR hc hs
  obtain ⟨q', hstep, hR'⟩ := step_simulated hcap hR hc.1 hc.2 hs
  exact ⟨q', congrArg some hstep, hR'⟩

theorem Holds.layout (hR : Holds addr capacity s q) :
    ∃ i done, Layout addr capacity s q done i := by
  rcases hcall : s.call with _ | c
  · obtain ⟨i, hL⟩ := (holds_idle hcall).mp hR
    exact ⟨i, [], hL⟩
  · obtain ⟨i, done, -, hL, -⟩ := (holds_busy hcall).mp hR
    exact ⟨i, done, hL⟩

/-- `rb_write_dma_read` and the engine are a bounded queue of bytes as long as
`rb_clear_dma_read` finds the engine at the start of the buffer. -/
theorem dmaRead_is_fifo (hcap : capacity ≠ 0)
    (hr : (machine mem addr capacity ch).ReachesUnder (fun s e => Fits e ∧ ClearAtStart s e)
      h s) :
    (Fifo.machine UInt8 (capacity.toNat - 4)).Reaches (asFifo h) s.inFlight ∧
    Fifo.accepted (Fifo.sinceClear (asFifo h)) =
      Fifo.delivered (Fifo.sinceClear (asFifo h)) ++ s.inFlight ∧
    (s.dma.current = s.dma.pause ↔ s.inFlight = []) ∧
    (∀ c k b stores, s.call = some c → c.stores = (k, b) :: stores →
      k < capacity.toNat ∧
      k ∉ circle capacity.toNat (s.dma.current - s.rb.address).toNat s.inFlight.length) ∧
    s.dma.pause ∈ Space.span addr capacity.toNat ∧
    (∀ t o, s.step .clear = some (t, o) →
      (t.inFlight = [] ∧ rbGetFillSizeDmaRead (sampleRp t.rb t.dma) = 0 ↔
        ClearAtStart s .clear)) := by
  have hcap' : 0 < capacity.toNat := toNat_pos hcap
  obtain ⟨q, hq, hR⟩ := dmaRead_refines hcap' hr
  obtain ⟨i, done, hL⟩ := hR.layout
  obtain rfl := hL.inFlight hcap'
  refine ⟨hq, Fifo.conservation hq, hL.stopped_iff hcap', ?_, ?_, ?_⟩
  · intro c k b stores hcall hst
    exact store_outside hcap' hcall hst hR
  · rw [hL.pause]
    exact GdmaChannel.cellAddr_mem_span hcap'
  · intro t o hs
    rcases hcall : s.call with _ | c
    · obtain ⟨j, hL'⟩ := (holds_idle hcall).mp hR
      simp only [State.step, hcall, Option.some.injEq, Prod.mk.injEq] at hs
      obtain ⟨rfl, rfl⟩ := hs
      exact hL'.cleared_iff hcap' none
    · simp [State.step, hcall] at hs

instance : ∀ e, Decidable (Fits e)
  | .write .. => inferInstanceAs (Decidable (_ < _))
  | .store | .finish | .transfer | .clear | .getFillSize | .getFreeSize => isTrue trivial

instance (s : State) : ∀ e, Decidable (ClearAtStart s e)
  | .clear => inferInstanceAs (Decidable (_ ∧ _))
  | .write .. | .store | .finish | .transfer | .getFillSize | .getFreeSize => isTrue trivial

def counting : Mem UInt8 := fun i => UInt8.ofNat (i + 1)

theorem dmaRead_is_fifo_after_transfer : ∃ h s,
    (machine (fun _ => 0) 0x1000 8 GdmaChannel.reset).ReachesUnder
      (fun s e => Fits e ∧ ClearAtStart s e) h s ∧ s.inFlight = [2] ∧
    Fifo.accepted (Fifo.sinceClear (asFifo h)) =
      Fifo.delivered (Fifo.sinceClear (asFifo h)) ++ s.inFlight := by
  have hrun : ∃ h s, (machine (fun _ => 0) 0x1000 8 GdmaChannel.reset).exec
      [.write counting 1 2, .store, .store, .finish, .transfer] = some (h, s) ∧
      s.inFlight = [2] :=
    ⟨_, _, rfl, rfl⟩
  obtain ⟨h, s, hx, hflight⟩ := hrun
  have hr := Machine.reachesUnder_of_exec (C := fun s e => Fits e ∧ ClearAtStart s e)
    (by decide) hx
  exact ⟨h, s, hr, hflight, (dmaRead_is_fifo (by decide) hr).2.1⟩

/-- Two bytes are written and one is transferred.  A clear leaves the engine at the other one:
the fill size is seven then, and the next transfer moves a byte from before the clear. -/
theorem clear_leaves_engine :
    (¬ ∀ (mem : Mem UInt8) (addr capacity : UInt32) (ch : GdmaChannel)
      (h : Machine.History Event Answer) (s : State), capacity ≠ 0 →
      (machine mem addr capacity ch).ReachesUnder (fun _ e => Fits e) h s →
      ∀ t o, s.step .clear = some (t, o) →
        rbGetFillSizeDmaRead (sampleRp t.rb t.dma) = 0) ∧
    ¬ ∀ (mem : Mem UInt8) (addr capacity : UInt32) (ch : GdmaChannel)
      (h : Machine.History Event Answer) (s : State), capacity ≠ 0 →
      (machine mem addr capacity ch).ReachesUnder (fun _ e => Fits e) h s →
      Fifo.accepted (Fifo.sinceClear (asFifo h)) =
        Fifo.delivered (Fifo.sinceClear (asFifo h)) ++ s.inFlight := by
  constructor
  · intro hall
    have hrun : ∃ h s, (machine (fun _ => 0) 0x1000 8 GdmaChannel.reset).exec
        [.write counting 1 2, .store, .store, .finish, .transfer] = some (h, s) ∧
        ∃ t o, s.step .clear = some (t, o) ∧
          rbGetFillSizeDmaRead (sampleRp t.rb t.dma) = 7 :=
      ⟨_, _, rfl, _, _, rfl, rfl⟩
    obtain ⟨h, s, hx, t, o, hs, hfill⟩ := hrun
    have hr := Machine.reachesUnder_of_exec (C := fun _ e => Fits e) (by decide) hx
    have hzero := hall _ _ _ _ h s (by decide) hr t o hs
    rw [hfill] at hzero
    exact absurd hzero (by decide)
  · intro hall
    have hrun : ∃ h s, (machine (fun _ => 0) 0x1000 8 GdmaChannel.reset).exec
        [.write counting 1 2, .store, .store, .finish, .transfer, .clear, .transfer] =
          some (h, s) ∧
        Fifo.sinceClear (asFifo h) = [(.pop 1, .popped [2])] :=
      ⟨_, _, rfl, rfl⟩
    obtain ⟨h, s, hx, hlast⟩ := hrun
    have hr := Machine.reachesUnder_of_exec (C := fun _ e => Fits e) (by decide) hx
    have hkept := hall _ _ _ _ h s (by decide) hr
    rw [hlast] at hkept
    cases hkept

end Refinement

end DmaRead

end BdkRtt.Audio
