import BdkRtt.Audio.IcodecDac
import BdkRtt.Audio.DataNodeLaws

universe u

namespace BdkRtt.Audio.IcodecDac

open Lib DataNode

section View

variable {β : Type u}

def Writer.reader : Writer β → Reader β UInt8
  | .reading _ r => r
  | _ => .idle

/-- The node list and the read of it that a write has begun. -/
def State.list (s : State β) : DataNode.State β UInt8 := ⟨s.nodeList, s.writer.reader⟩

/-- The calls as a queue of chunks sees them: what is placed in `send_fifo` is taken out of it, and
a reset empties it. -/
def asChunks : Event β × Answer β → Chunks.Call β UInt8 × Chunks.Answer β UInt8
  | (_, a) =>
    match a.stored, a.emptied, a.settled with
    | some node, _, _ => (.push node.dataPtr node.data, .done)
    | none, true, _ => (.flush, .flushed a.completed)
    | none, false, some r => (.pop r.size.toNat, .popped r.taken r.finished)
    | none, false, none => (.idle, .done)

abbrev History (β : Type u) := Machine.History (Event β) (Answer β)

def placed (h : History β) : List UInt8 := h.flatMap fun x => x.2.placed

def played (h : History β) : List UInt8 := h.flatMap fun x => x.2.played

/-- What the DMA gets to read: the zeros it starts with, and what is placed. -/
def stream (h : History β) : List UInt8 := List.replicate sendBufferSize 0 ++ placed h

/-- A write is filling the half that the pause address keeps the DMA out of. -/
def Writer.Refills : Writer β → Prop
  | .idle | .checked .. | .stored => False
  | _ => True

/-- Where the `k`-th half lies, and the last word in front of it. -/
def fillOf (k : Nat) : Nat := 1024 * (k % 2)

def pauseOf (k : Nat) : Nat := 2044 - 1024 * (k % 2)

/-- What is missing of the `k`-th half, from `base` on; positions are counted on without end. -/
structure Range (fillPos fillSize : UInt32) (k base : Nat) : Prop where
  from_le : 1024 * k ≤ base
  size : base + fillSize.toNat = 1024 * (k + 1)
  pos : 0 < fillSize.toNat
  at_pos : fillPos.toNat + 1024 * k = fillOf k + base

/-- The DMA plays and no half is behind. -/
structure Playing (s : State β) (k d p : Nat) : Prop where
  paused : s.paused = false
  pause : s.dma.srcPauseAddr = none
  writer : ¬ s.writer.Refills
  whole : p = 1024 * k
  due : (s.dma.halfPending = false ∧ s.dma.finishPending = false ∧
      1024 * k ≤ d ∧ d < 1024 * (k + 1)) ∨
    ((s.dma.halfPending = true ↔ k % 2 = 0) ∧ (s.dma.finishPending = true ↔ k % 2 = 1) ∧
      1024 * (k + 1) ≤ d ∧ d < 1024 * (k + 2))

/-- How far the write that refills the `k`-th half has come. -/
def Refilled (s : State β) (k p : Nat) : Prop :=
  match s.writer with
  | .idle | .checked .. | .stored | .refill => s.paused = true ∧ Range s.fillPos s.fillSize k p
  | .reading fillPos r => s.paused = true ∧ fillPos = s.fillPos ∧ r.asked = [(s.fillSize, true)] ∧
    r.dst.length ≤ s.fillSize.toNat ∧
    ∃ base, Range s.fillPos s.fillSize k base ∧ p = base + r.dst.length
  | .compare result => s.paused = true ∧ result.toNat ≤ s.fillSize.toNat ∧
    ∃ base, Range s.fillPos s.fillSize k base ∧ p = base + result.toNat
  | .filled => s.paused = true ∧ p = 1024 * (k + 1) ∧
    ∃ base, Range s.fillPos s.fillSize k base
  | .resume => s.paused = false ∧ p = 1024 * (k + 1)
  | .short result => s.paused = true ∧ result.toNat < s.fillSize.toNat ∧
    ∃ base, Range s.fillPos s.fillSize k base ∧ p = base + result.toNat
  | .moved result => s.paused = true ∧ result.toNat < s.fillSize.toNat ∧
    ∃ fillPos base, s.fillPos = fillPos + result ∧ Range fillPos s.fillSize k base ∧
      p = base + result.toNat

/-- The DMA plays the half in front of the one that is behind, and stops at its end. -/
structure Pausing (s : State β) (k d p : Nat) : Prop where
  half : s.dma.halfPending = false
  finish : s.dma.finishPending = false
  pause : s.dma.srcPauseAddr.map UInt32.toNat = some (pauseOf k)
  after : 1024 * (k + 1) ≤ d
  before : d + 4 ≤ 1024 * (k + 2)
  refilled : Refilled s k p

/-- The write of the half that is behind goes on, and the DMA is not touched. -/
theorem Pausing.keeps {k d p p' : Nat} (hpause : Pausing s k d p) (hdma : t.dma = s.dma)
    (hrefilled : Refilled t k p') : Pausing t k d p' where
  half := by rw [hdma, hpause.half]
  finish := by rw [hdma, hpause.finish]
  pause := by rw [hdma, hpause.pause]
  after := hpause.after
  before := hpause.before
  refilled := hrefilled

/-- The list is a queue, and a write that is going to store still finds room. -/
structure Listed (h : History β) (s : State β) : Prop where
  inv : DataNode.Inv s.list
  queue : (Chunks.machine β UInt8).Reaches (h.map asChunks) s.list.queue
  popped : placed h = (h.map asChunks).flatMap Chunks.poppedBy ++ s.list.reader.passed.elems
  room : ∀ node nextIndex writeIndex, s.writer = .checked node nextIndex writeIndex →
    writeIndex = s.nodeList.writeIndex ∧ nextIndex = s.nodeList.nextIndex writeIndex ∧
      nextIndex ≠ s.nodeList.readIndex

/-- The DMA has read the stream so far, and what it has not read is in `send_fifo`. -/
structure Heard (h : History β) (s : State β) : Prop where
  fifo : s.sendFifo.Stream sendBufferSize (stream h) (played h).length
  prior : played h = (stream h).take (played h).length
  addr : s.dma.srcAddr = (played h).length % sendBufferSize
  words : (played h).length % 4 = 0

structure Inv (h : History β) (s : State β) : Prop where
  listed : Listed h s
  heard : Heard h s
  phase : ∃ k, Playing s k (played h).length (placed h).length ∨
    Pausing s k (played h).length (placed h).length

/-- The range of `fill_pos` and `fill_size`; between the two assignments that move it, it counts as
moved. -/
def State.missing (s : State β) : UInt32 :=
  match s.writer with
  | .moved result => s.fillSize - result
  | _ => s.fillSize

/-- The range lies in one half, and the DMA is in the other one and stops at its end. -/
def State.Guarded (s : State β) : Prop :=
  ∃ i < 2, 1024 * i ≤ s.fillPos.toNat ∧ s.fillPos.toNat + s.missing.toNat ≤ 1024 * (i + 1) ∧
    s.dma.srcPauseAddr.map UInt32.toNat = some (1024 * (1 - i) + 1020) ∧
    s.dma.srcAddr / 1024 = 1 - i

/-- What a listener and the owners of the nodes rely on. -/
structure Law (h : History β) (s : State β) : Prop where
  /-- The nodes are a queue: what is placed is taken out of it in order. -/
  queue : (Chunks.machine β UInt8).Reaches (h.map asChunks) s.list.queue
  popped : placed h = (h.map asChunks).flatMap Chunks.poppedBy ++ s.list.reader.passed.elems
  /-- Behind the zeros of the start the DMA reads what is placed, each byte once. -/
  heard : played h <+: stream h
  /-- What is placed goes where the DMA has read before. -/
  unread : (placed h).length ≤ (played h).length
  guarded : s.paused = true → s.Guarded
  /-- A read of a write fills that range. -/
  refill : ∀ fillPos r, s.writer = .reading fillPos r →
    s.paused = true ∧ fillPos = s.fillPos ∧ r.asked = [(s.fillSize, true)]
  served : (s.dma.halfPending = true → ∃ enough, ∀ fuel ≥ enough,
      (s.step (.dacDmaHalfHandler fuel)).isSome) ∧
    (s.dma.finishPending = true → ∃ enough, ∀ fuel ≥ enough,
      (s.step (.dacDmaFinishHandler fuel)).isSome)

def Writer.Reads : Writer β → Prop
  | .reading .. => True
  | _ => False

/-- What the code does not see to: that an interrupt is served while the next half is played, that
a device is not opened while the pause address is set, and that the list is not emptied under a
read. -/
def Orderly (s : State β) : Event β → Prop
  | .dma => ¬ (s.dma.next.halfPending = true ∧ s.dma.next.finishPending = true)
  | .audioCodecOpen oflag => s.Opens oflag → s.dma.srcPauseAddr = none
  | .codecCmdReset _ => ¬ s.writer.Reads
  | .audioCodecClose _ => s.Closes → ¬ s.writer.Reads
  | _ => True

end View

section Concat

variable {β : Type u} {h : History β} {s t : State β} {e : Event β} {o : Answer β}

theorem placed_concat (h : History β) (x : Event β × Answer β) :
    placed (h ++ [x]) = placed h ++ x.2.placed := by
  simp [placed]

theorem played_concat (h : History β) (x : Event β × Answer β) :
    played (h ++ [x]) = played h ++ x.2.played := by
  simp [played]

theorem stream_concat (h : History β) (x : Event β × Answer β) :
    stream (h ++ [x]) = stream h ++ x.2.placed := by
  rw [stream, placed_concat, ← List.append_assoc, stream]

theorem length_stream (h : History β) : (stream h).length = sendBufferSize + (placed h).length := by
  rw [stream, List.length_append, List.length_replicate]

theorem Listed.concat (hl : Listed h s) (hinv : DataNode.Inv t.list)
    (hqueue : Chunks.step s.list.queue (asChunks (e, o)).1 =
      (t.list.queue, (asChunks (e, o)).2))
    (hplaced : s.list.reader.passed.elems ++ o.placed =
      Chunks.poppedBy (asChunks (e, o)) ++ t.list.reader.passed.elems)
    (hroom : ∀ node nextIndex writeIndex, t.writer = .checked node nextIndex writeIndex →
      writeIndex = t.nodeList.writeIndex ∧ nextIndex = t.nodeList.nextIndex writeIndex ∧
        nextIndex ≠ t.nodeList.readIndex) : Listed (h ++ [(e, o)]) t := by
  refine ⟨hinv, ?_, ?_, hroom⟩
  · rw [List.map_append]
    exact .step hl.queue trivial (congrArg some hqueue)
  · rw [placed_concat, List.map_append, List.flatMap_append]
    exact balance_concat hl.popped (by simpa using hplaced)

/-- A step that leaves the list alone. -/
theorem Listed.same (hl : Listed h s) (hlist : t.list = s.list)
    (hidle : asChunks (e, o) = (.idle, .done)) (hplaced : o.placed = [])
    (hroom : ∀ node nextIndex writeIndex, t.writer = .checked node nextIndex writeIndex →
      writeIndex = t.nodeList.writeIndex ∧ nextIndex = t.nodeList.nextIndex writeIndex ∧
        nextIndex ≠ t.nodeList.readIndex) : Listed (h ++ [(e, o)]) t := by
  refine hl.concat (hlist ▸ hl.inv) ?_ ?_ hroom
  · rw [hidle, hlist]
    rfl
  · rw [hidle, hplaced, hlist]
    exact List.append_nil _

/-- A step that places something and plays nothing. -/
theorem Heard.place (hh : Heard h s) (hplayed : o.played = [])
    (haddr : t.dma.srcAddr = s.dma.srcAddr)
    (hfifo : t.sendFifo.Stream sendBufferSize (stream h ++ o.placed) (played h).length) :
    Heard (h ++ [(e, o)]) t := by
  have hsame : played (h ++ [(e, o)]) = played h := by
    rw [played_concat, hplayed, List.append_nil]
  refine ⟨?_, ?_, ?_, ?_⟩
  · rw [hsame, stream_concat]
    exact hfifo
  · rw [hsame, stream_concat, List.take_append_of_le_length hh.fifo.le]
    exact hh.prior
  · rw [hsame, haddr]
    exact hh.addr
  · rw [hsame]
    exact hh.words

theorem Heard.same (hh : Heard h s) (hplaced : o.placed = []) (hplayed : o.played = [])
    (haddr : t.dma.srcAddr = s.dma.srcAddr) (hfifo : t.sendFifo = s.sendFifo) :
    Heard (h ++ [(e, o)]) t := by
  refine hh.place hplayed haddr ?_
  rw [hplaced, List.append_nil, hfifo]
  exact hh.fifo

/-- The DMA reads a word that has been placed. -/
theorem Heard.play (hh : Heard h s) (hbehind : (played h).length + 4 ≤ (stream h).length)
    (hplaced : o.placed = []) (hplayed : o.played = s.sendFifo.read s.dma.srcAddr 4)
    (hdma : t.dma = s.dma.next) (hfifo : t.sendFifo = s.sendFifo) :
    Heard (h ++ [(e, o)]) t := by
  have hwords := hh.words
  have hsame : stream (h ++ [(e, o)]) = stream h := by
    rw [stream_concat, hplaced, List.append_nil]
  have hlen : (played (h ++ [(e, o)])).length = (played h).length + 4 := by
    rw [played_concat, List.length_append, hplayed, Mem.length_read]
  have hend : (played h).length % sendBufferSize + 4 ≤ sendBufferSize := by
    unfold sendBufferSize
    omega
  refine ⟨?_, ?_, ?_, ?_⟩
  · rw [hsame, hlen, hfifo]
    exact hh.fifo.advance hbehind
  · rw [hsame, hlen, List.take_add, ← hh.prior, ← hh.fifo.read hbehind hend, ← hh.addr,
      played_concat, hplayed]
  · rw [hlen, hdma]
    unfold Dma.next
    dsimp only
    rw [hh.addr]
    unfold sendBufferSize at hend ⊢
    split <;> omega
  · rw [hlen]
    omega

end Concat

section Dma

variable {β : Type u} {h : History β} {s t : State β} {o : Answer β} {k d p : Nat}

/-- A half that is behind is filled from its start to its end. -/
theorem Refilled.bounds (h : Refilled s k p) : 1024 * k ≤ p ∧ p ≤ 1024 * (k + 1) := by
  unfold Refilled at h
  cases hat : s.writer with
  | idle | checked | stored | refill =>
    rw [hat] at h
    have hsize := h.2.size
    exact ⟨h.2.from_le, by omega⟩
  | reading fillPos r =>
    rw [hat] at h
    obtain ⟨-, -, -, hle, base, hrange, hp⟩ := h
    have hsize := hrange.size
    have hfrom := hrange.from_le
    omega
  | compare result =>
    rw [hat] at h
    obtain ⟨-, hle, base, hrange, hp⟩ := h
    have hsize := hrange.size
    have hfrom := hrange.from_le
    omega
  | filled =>
    rw [hat] at h
    obtain ⟨-, hp, -⟩ := h
    omega
  | resume =>
    rw [hat] at h
    obtain ⟨-, hp⟩ := h
    omega
  | short result =>
    rw [hat] at h
    obtain ⟨-, hlt, base, hrange, hp⟩ := h
    have hsize := hrange.size
    have hfrom := hrange.from_le
    omega
  | moved result =>
    rw [hat] at h
    obtain ⟨-, hlt, fillPos, base, -, hrange, hp⟩ := h
    have hsize := hrange.size
    have hfrom := hrange.from_le
    omega

theorem next_halfPending (d : Dma) :
    d.next.halfPending = true ↔ d.halfPending = true ∨ d.srcAddr + 4 = 1024 := by
  simp [Dma.next, sendBufferSize]

theorem next_finishPending (d : Dma) :
    d.next.finishPending = true ↔ d.finishPending = true ∨ d.srcAddr + 4 = 2048 := by
  simp [Dma.next, sendBufferSize]

theorem Playing.step_dma (hplay : Playing s k d p) (haddr : s.dma.srcAddr = d % sendBufferSize)
    (hwords : d % 4 = 0) (horderly : Orderly s .dma) :
    Playing { s with dma := s.dma.next } k (d + 4) p := by
  refine ⟨hplay.paused, hplay.pause, hplay.writer, hplay.whole, ?_⟩
  have hhalf := next_halfPending s.dma
  have hfinish := next_finishPending s.dma
  unfold Orderly at horderly
  unfold sendBufferSize at haddr
  rcases hplay.due with ⟨hno, hno', hge, hlt⟩ | ⟨hon, hon', hge, hlt⟩
  case inl =>
    rw [hno] at hhalf
    rw [hno'] at hfinish
    by_cases hend : d + 4 = 1024 * (k + 1)
    · refine .inr ⟨hhalf.trans ?_, hfinish.trans ?_, by omega, by omega⟩
      · simp only [Bool.false_eq_true, false_or]
        omega
      · simp only [Bool.false_eq_true, false_or]
        omega
    · refine .inl ⟨?_, ?_, by omega, by omega⟩
      · rw [← Bool.not_eq_true]
        simp only [hhalf, Bool.false_eq_true, false_or]
        omega
      · rw [← Bool.not_eq_true]
        simp only [hfinish, Bool.false_eq_true, false_or]
        omega
  case inr =>
    rw [hon] at hhalf
    rw [hon'] at hfinish
    rw [hhalf, hfinish] at horderly
    exact .inr ⟨hhalf.trans (by omega), hfinish.trans (by omega), by omega, by omega⟩

theorem Pausing.step_dma (hpause : Pausing s k d p) (haddr : s.dma.srcAddr = d % sendBufferSize)
    (hwords : d % 4 = 0) (hgoes : ¬ s.dma.stopped) :
    Pausing { s with dma := s.dma.next } k (d + 4) p := by
  have hafter := hpause.after
  have hbefore := hpause.before
  have hnot : s.dma.srcAddr ≠ pauseOf k := by
    intro heq
    refine hgoes (.inr ?_)
    rw [heq]
    exact hpause.pause
  have hhalf := next_halfPending s.dma
  have hfinish := next_finishPending s.dma
  rw [hpause.half] at hhalf
  rw [hpause.finish] at hfinish
  unfold sendBufferSize at haddr
  unfold pauseOf at hnot
  refine ⟨?_, ?_, hpause.pause, by omega, by omega, hpause.refilled⟩
  · rw [← Bool.not_eq_true]
    simp only [hhalf, Bool.false_eq_true, false_or]
    omega
  · rw [← Bool.not_eq_true]
    simp only [hfinish, Bool.false_eq_true, false_or]
    omega

theorem Inv.step_dma (hi : Inv h s) (horderly : Orderly s .dma)
    (hs : s.step .dma = some (t, o)) : Inv (h ++ [(.dma, o)]) t := by
  unfold State.step at hs
  dsimp only at hs
  split at hs
  case isTrue => cases hs
  case isFalse hgoes =>
    cases hs
    obtain ⟨k, hphase⟩ := hi.phase
    have haddr := hi.heard.addr
    have hwords := hi.heard.words
    have hbehind : (played h).length + 4 ≤ (stream h).length := by
      rw [length_stream]
      rcases hphase with hplay | hpause
      · have hwhole := hplay.whole
        have hdue := hplay.due
        unfold sendBufferSize
        omega
      · have hbefore := hpause.before
        have hbounds := hpause.refilled.bounds
        unfold sendBufferSize
        omega
    refine ⟨?_, hi.heard.play hbehind rfl rfl rfl rfl, k, ?_⟩
    · exact hi.listed.same rfl rfl rfl hi.listed.room
    · rw [played_concat, placed_concat, List.append_nil, List.length_append, Mem.length_read]
      exact hphase.imp (·.step_dma haddr hwords horderly) (·.step_dma haddr hwords hgoes)

end Dma

section Handler

variable {β : Type u} {h : History β} {s t : State β} {e : Event β} {o : Answer β} {k : Nat}

theorem reader_idle {w : Writer β} (h : ¬ w.Refills) : w.reader = .idle := by
  cases w with
  | reading => exact absurd trivial h
  | _ => rfl

theorem room_kept {l l' : RtDataNodeList β UInt8} (hinv : DataNode.Inv ⟨l, .idle⟩)
    (hinv' : DataNode.Inv ⟨l', .idle⟩) (hkept : Unwritten l l') (hle : l'.nodeCount ≤ l.nodeCount)
    (hroom : l.nextIndex l.writeIndex ≠ l.readIndex) :
    l.nextIndex l.writeIndex ≠ l'.readIndex := by
  obtain ⟨ns, hns, -⟩ := hinv
  obtain ⟨ns', hns', -⟩ := hinv'
  have hns : Holds l ns := hns
  have hns' : Holds l' ns' := hns'
  have hfull := mt hns.full_iff.mpr hroom
  rw [hns.nodeCount, hns'.nodeCount] at hle
  obtain ⟨pos, hr⟩ := hns
  have hlt := hr.room
  have hnext : l.nextIndex l.writeIndex = l'.nextIndex l'.writeIndex := by
    rw [RtDataNodeList.nextIndex, RtDataNodeList.nextIndex, hkept.size, hkept.writeIndex]
  rw [hnext]
  refine mt hns'.full_iff.mp ?_
  rw [hkept.size]
  omega

/-- What has room stays so when nodes go out of the list. -/
theorem Listed.room_read (hl : Listed h s) (hidle : s.writer.reader = .idle)
    {l : RtDataNodeList β UInt8} (hinv : DataNode.Inv ⟨l, .idle⟩) (hkept : Unwritten s.nodeList l)
    (hle : l.nodeCount ≤ s.nodeList.nodeCount) (node : RtDataNode β UInt8)
    (nextIndex writeIndex : Nat)
    (hat : s.writer = .checked node nextIndex writeIndex) :
    writeIndex = l.writeIndex ∧ nextIndex = l.nextIndex writeIndex ∧ nextIndex ≠ l.readIndex := by
  obtain ⟨rfl, rfl, hroom⟩ := hl.room node nextIndex writeIndex hat
  have hbefore : DataNode.Inv ⟨s.nodeList, .idle⟩ := hidle ▸ hl.inv
  refine ⟨hkept.writeIndex.symm, ?_, room_kept hbefore hinv hkept hle hroom⟩
  rw [RtDataNodeList.nextIndex, RtDataNodeList.nextIndex, hkept.size]

theorem fillOf_mod (k : Nat) : (sendBufferSize + 1024 * k) % sendBufferSize = fillOf k := by
  unfold sendBufferSize fillOf
  omega

/-- The half that has been played can be cleared. -/
theorem Heard.clear (hh : Heard h s) (hp : (placed h).length = 1024 * k)
    (hd : 1024 * (k + 1) ≤ (played h).length) {fill : UInt32} (hfill : fill.toNat = fillOf k) :
    (s.sendFifo.write fill.toNat (List.replicate (sendBufferSize / 2) 0)).Stream sendBufferSize
      (stream h) (played h).length := by
  have hpos : fill.toNat = (stream h).length % sendBufferSize := by
    rw [length_stream, hp, fillOf_mod, hfill]
  have hlen := length_stream h
  rw [hpos]
  refine hh.fifo.clear _ ?_ ?_
  · rw [List.length_replicate]
    unfold sendBufferSize at hlen ⊢
    omega
  · rw [← hpos, hfill, List.length_replicate]
    unfold sendBufferSize fillOf
    omega

theorem refilled_start (hw : ¬ s.writer.Refills) {p : Nat} :
    Refilled s k p ↔ s.paused = true ∧ Range s.fillPos s.fillSize k p := by
  unfold Refilled
  cases hat : s.writer with
  | idle | checked | stored => exact Iff.rfl
  | _ => exact absurd (hat ▸ trivial) hw

/-- What a handler answers that has read `x`. -/
abbrev handed (x : DataNode.Returned UInt8) (cs : List β) : Answer β where
  placed := x.dst
  settled := some { size := 1024, taken := x.taken, finished := cs }
  completed := cs

section Taken

variable {fuel : Nat} {l : RtDataNodeList β UInt8} {cs : List β} {x : DataNode.Returned UInt8}

theorem taken_length (hinv : DataNode.Inv ⟨s.nodeList, .idle⟩)
    (hread : s.nodeList.readWhole fuel 1024 true = some (l, cs, some x)) :
    x.dst.length ≤ 1024 ∧ x.ret.toUInt32.toNat = x.dst.length ∧
      (x.ret < 1024 ↔ x.dst.length < 1024) := by
  obtain ⟨-, -, x', hx, hright, hbuffer, hpop⟩ := readWhole_spec hinv hread
  obtain rfl := Option.some.inj hx
  have hdst : x.dst = x.taken := by rw [hright.dst, if_pos hbuffer]
  have hle : x.dst.length ≤ 1024 := by
    rw [hdst, ← (Chunks.step_pop hpop).2, List.length_take]
    exact Nat.min_le_left _ _
  have hint : x.ret.toInt = x.dst.length := by
    rw [hdst] at hle ⊢
    exact hright.ret (by omega)
  have hbound : Int32.toInt 1024 = 1024 := by decide
  refine ⟨hle, hdst ▸ hright.word, ?_⟩
  rw [Int32.lt_iff_toInt_lt, hint, hbound]
  omega

theorem Listed.takes (hl : Listed h s) (hw : ¬ s.writer.Refills)
    (hread : s.nodeList.readWhole fuel 1024 true = some (l, cs, some x))
    (hlist : t.nodeList = l) (hwriter : t.writer = s.writer) :
    Listed (h ++ [(e, handed x cs)]) t := by
  have hidle := reader_idle hw
  have hinv : DataNode.Inv ⟨s.nodeList, .idle⟩ := hidle ▸ hl.inv
  obtain ⟨hinv', hkept, x', hx, hright, hbuffer, hpop⟩ := readWhole_spec hinv hread
  obtain rfl := Option.some.inj hx
  have hdst : x.dst = x.taken := by rw [hright.dst, if_pos hbuffer]
  have hview : t.list = ⟨l, .idle⟩ := by rw [State.list, hlist, hwriter, hidle]
  have hview' : s.list = ⟨s.nodeList, .idle⟩ := by rw [State.list, hidle]
  refine hl.concat (hview ▸ hinv') ?_ ?_ ?_
  · rw [hview, hview']
    exact hpop
  · rw [hview, hview']
    exact hdst.trans (List.append_nil _).symm
  · rw [hlist, hwriter]
    exact hl.room_read hidle hinv' hkept (readWhole_nodeCount hinv hread)

theorem Heard.takes (hh : Heard h s) (hp : (placed h).length = 1024 * k)
    (hd : 1024 * (k + 1) ≤ (played h).length) {fill : UInt32} (hfill : fill.toNat = fillOf k)
    (hle : x.dst.length ≤ 1024) (haddr : t.dma.srcAddr = s.dma.srcAddr)
    (hfifo : t.sendFifo = (s.sendFifo.write fill.toNat
      (List.replicate (sendBufferSize / 2) 0)).write fill.toNat x.dst) :
    Heard (h ++ [(e, handed x cs)]) t := by
  have hclear := hh.clear hp hd hfill
  have hlen := length_stream h
  have hpos : fill.toNat = (stream h).length % sendBufferSize := by
    rw [hlen, hp, fillOf_mod, hfill]
  refine hh.place rfl haddr ?_
  rw [hfifo]
  rw [hpos] at hclear ⊢
  refine hclear.push _ ?_ ?_
  · unfold sendBufferSize at hlen ⊢
    omega
  · rw [← hpos, hfill]
    unfold sendBufferSize fillOf
    omega

end Taken

theorem handler_inv (hl : Listed h s) (hh : Heard h s) (hw : ¬ s.writer.Refills)
    (hpaused : s.paused = false) (hnone : s.dma.srcPauseAddr = none)
    (hhalf : s.dma.halfPending = false) (hfinish : s.dma.finishPending = false)
    (hp : (placed h).length = 1024 * k) (hd : 1024 * (k + 1) ≤ (played h).length)
    (hd' : (played h).length < 1024 * (k + 2)) {fuel : Nat} {fill pause : UInt32}
    (hfill : fill.toNat = fillOf k) (hpause : pause.toNat = pauseOf k)
    (hs : s.dacDmaHandler fuel fill pause = some (t, o)) : Inv (h ++ [(e, o)]) t := by
  have hwords := hh.words
  unfold State.dacDmaHandler at hs
  dsimp only at hs
  split at hs
  case isTrue =>
    cases hs
    refine ⟨?_, ?_, k, .inr ?_⟩
    · exact hl.same rfl rfl rfl hl.room
    · refine hh.place rfl rfl ?_
      rw [List.append_nil]
      exact hh.clear hp hd hfill
    · rw [played_concat, placed_concat, List.append_nil, List.append_nil]
      refine ⟨hhalf, hfinish, congrArg some hpause, hd, by omega, ?_⟩
      refine (refilled_start (by exact hw)).mpr ⟨rfl, by omega, ?_, Nat.succ_pos 1023, ?_⟩
      · rw [hp]
        rfl
      · rw [hp, hfill]
  case isFalse =>
    obtain ⟨⟨l, cs, ret⟩, hread, hs⟩ := Option.bind_eq_some_iff.mp hs
    obtain ⟨x, hret, hs⟩ := Option.map_eq_some_iff.mp hs
    obtain rfl : ret = some x := hret
    have hinv : DataNode.Inv ⟨s.nodeList, .idle⟩ := reader_idle hw ▸ hl.inv
    obtain ⟨hle, hword, hshort⟩ := taken_length hinv hread
    split at hs
    case isTrue hlt =>
      have hlt : x.dst.length < 1024 := hshort.mp hlt
      have hadd : (fill + x.ret.toUInt32).toNat = fill.toNat + x.dst.length := by
        rw [← hword]
        refine toNat_add_of_lt ?_
        unfold fillOf at hfill
        omega
      have hsub : (1024 - x.ret.toUInt32).toNat = 1024 - x.dst.length := by
        rw [← hword]
        refine UInt32.toNat_sub_of_le _ _ ?_
        rw [UInt32.le_iff_toNat_le, hword]
        exact hle
      cases hs
      refine ⟨hl.takes hw hread rfl rfl, hh.takes hp hd hfill hle rfl rfl, k, .inr ?_⟩
      rw [played_concat, placed_concat, List.append_nil, List.length_append]
      refine ⟨hhalf, hfinish, congrArg some hpause, hd, by omega, ?_⟩
      refine (refilled_start (by exact hw)).mpr ⟨rfl, ?_, ?_, ?_, ?_⟩
      · omega
      · rw [hsub]
        change _ + x.dst.length + _ = _
        omega
      · rw [hsub]
        omega
      · rw [hadd, hfill]
        change _ = _ + (_ + x.dst.length)
        omega
    case isFalse hge =>
      cases hs
      refine ⟨hl.takes hw hread rfl rfl, hh.takes hp hd hfill hle rfl rfl, k + 1, .inl ?_⟩
      rw [played_concat, placed_concat, List.append_nil, List.length_append]
      refine ⟨hpaused, hnone, hw, ?_, .inl ⟨hhalf, hfinish, hd, hd'⟩⟩
      change _ + x.dst.length = _
      have hge : ¬ x.dst.length < 1024 := mt hshort.mpr hge
      omega

/-- An interrupt is pending only while the DMA plays and the half behind it is due. -/
theorem Inv.pending (hi : Inv h s) (hon : s.dma.halfPending = true ∨ s.dma.finishPending = true) :
    ∃ k, Playing s k (played h).length (placed h).length ∧
      (s.dma.halfPending = true ↔ k % 2 = 0) ∧ (s.dma.finishPending = true ↔ k % 2 = 1) ∧
      1024 * (k + 1) ≤ (played h).length ∧ (played h).length < 1024 * (k + 2) := by
  obtain ⟨k, hplay | hpause⟩ := hi.phase
  · refine ⟨k, hplay, ?_⟩
    rcases hplay.due with ⟨hhalf, hfinish, -⟩ | hdue
    · rw [hhalf, hfinish] at hon
      simp at hon
    · exact hdue
  · rw [hpause.half, hpause.finish] at hon
    simp at hon

theorem Inv.step_half (hi : Inv h s) {fuel : Nat}
    (hs : s.step (.dacDmaHalfHandler fuel) = some (t, o)) :
    Inv (h ++ [(.dacDmaHalfHandler fuel, o)]) t := by
  unfold State.step at hs
  dsimp only at hs
  split at hs
  case isTrue hon =>
    obtain ⟨k, hplay, heven, hodd, hge, hlt⟩ := hi.pending (.inl hon)
    have hk := heven.mp hon
    have hfinish : s.dma.finishPending = false := by
      rw [← Bool.not_eq_true, hodd]
      omega
    have hl : Listed h { s with dma := { s.dma with halfPending := false } } :=
      ⟨hi.listed.inv, hi.listed.queue, hi.listed.popped, hi.listed.room⟩
    have hh : Heard h { s with dma := { s.dma with halfPending := false } } :=
      ⟨hi.heard.fifo, hi.heard.prior, hi.heard.addr, hi.heard.words⟩
    refine handler_inv hl hh hplay.writer hplay.paused hplay.pause rfl hfinish hplay.whole hge hlt
      ?_ ?_ hs
    · rw [fillOf, hk]
      rfl
    · rw [pauseOf, hk]
      rfl
  case isFalse => cases hs

theorem Inv.step_finish (hi : Inv h s) {fuel : Nat}
    (hs : s.step (.dacDmaFinishHandler fuel) = some (t, o)) :
    Inv (h ++ [(.dacDmaFinishHandler fuel, o)]) t := by
  unfold State.step at hs
  dsimp only at hs
  split at hs
  case isTrue hon =>
    obtain ⟨k, hplay, heven, hodd, hge, hlt⟩ := hi.pending (.inr hon)
    have hk := hodd.mp hon
    have hhalf : s.dma.halfPending = false := by
      rw [← Bool.not_eq_true, heven]
      omega
    have hl : Listed h
        { s with
          dma := { s.dma with finishPending := false }
          dmaIrqCnt := s.dmaIrqCnt + 1 } :=
      ⟨hi.listed.inv, hi.listed.queue, hi.listed.popped, hi.listed.room⟩
    have hh : Heard h
        { s with
          dma := { s.dma with finishPending := false }
          dmaIrqCnt := s.dmaIrqCnt + 1 } :=
      ⟨hi.heard.fifo, hi.heard.prior, hi.heard.addr, hi.heard.words⟩
    refine handler_inv hl hh hplay.writer hplay.paused hplay.pause hhalf rfl hplay.whole hge hlt
      ?_ ?_ hs
    · rw [fillOf, hk]
      rfl
    · rw [pauseOf, hk]
      rfl
  case isFalse => cases hs

end Handler

section Control

variable {β : Type u} {h : History β} {s t : State β} {e : Event β} {o : Answer β}

/-- A step that places nothing and plays nothing. -/
theorem Inv.same (hi : Inv h s) (hlisted : Listed (h ++ [(e, o)]) t) (hplaced : o.placed = [])
    (hplayed : o.played = []) (haddr : t.dma.srcAddr = s.dma.srcAddr)
    (hfifo : t.sendFifo = s.sendFifo)
    (hphase : ∃ k, Playing t k (played h).length (placed h).length ∨
      Pausing t k (played h).length (placed h).length) : Inv (h ++ [(e, o)]) t := by
  refine ⟨hlisted, hi.heard.same hplaced hplayed haddr hfifo, ?_⟩
  rw [played_concat, placed_concat, hplaced, hplayed, List.append_nil, List.append_nil]
  exact hphase

theorem Inv.empty (hi : Inv h s) (hreads : s.writer.reader = .idle) {fuel : Nat}
    (hs : s.empty fuel = some (t, o)) : Inv (h ++ [(e, o)]) t := by
  obtain ⟨⟨l, cs⟩, hempty, heq⟩ := Option.map_eq_some_iff.mp hs
  cases heq
  have hview : s.list = ⟨s.nodeList, .idle⟩ := by rw [State.list, hreads]
  have hinv : DataNode.Inv ⟨s.nodeList, .idle⟩ := hview ▸ hi.listed.inv
  have hstep := stepped_empty hinv rfl hempty
  obtain ⟨hinv', hkept, -, -⟩ := empty_spec hinv hempty
  have hview' : State.list { s with nodeList := l } = ⟨l, .idle⟩ := congrArg _ hreads
  refine hi.same ?_ rfl rfl rfl rfl ?_
  · refine hi.listed.concat (hview' ▸ hinv') ?_ ?_ ?_
    · rw [hview, hview']
      exact hstep.queue
    · rw [hview, hview']
      rfl
    · refine hi.listed.room_read hreads hinv' hkept ?_
      rw [empty_nodeCount hinv hempty]
      exact Nat.zero_le _
  · obtain ⟨k, hplay | hpause⟩ := hi.phase
    · exact ⟨k, .inl ⟨hplay.paused, hplay.pause, hplay.writer, hplay.whole, hplay.due⟩⟩
    · exact ⟨k, .inr (hpause.keeps rfl hpause.refilled)⟩

theorem not_reads {w : Writer β} (h : ¬ w.Reads) : w.reader = .idle := by
  cases w with
  | reading => exact absurd trivial h
  | _ => rfl

theorem Inv.setStat (hi : Inv h s) (stat : UInt32) : Inv h { s with stat := stat } := by
  refine ⟨⟨hi.listed.inv, hi.listed.queue, hi.listed.popped, hi.listed.room⟩,
    ⟨hi.heard.fifo, hi.heard.prior, hi.heard.addr, hi.heard.words⟩, ?_⟩
  obtain ⟨k, hplay | hpause⟩ := hi.phase
  · exact ⟨k, .inl ⟨hplay.paused, hplay.pause, hplay.writer, hplay.whole, hplay.due⟩⟩
  · exact ⟨k, .inr (hpause.keeps rfl hpause.refilled)⟩

theorem Inv.step_close (hi : Inv h s) {fuel : Nat} (horderly : Orderly s (.audioCodecClose fuel))
    (hs : s.step (.audioCodecClose fuel) = some (t, o)) :
    Inv (h ++ [(.audioCodecClose fuel, o)]) t := by
  unfold State.step State.audioCodecClose at hs
  dsimp only at hs
  split at hs
  case isTrue hcloses =>
    obtain ⟨⟨t', o'⟩, hempty, heq⟩ := Option.map_eq_some_iff.mp hs
    cases heq
    exact (hi.empty (not_reads (horderly hcloses)) hempty).setStat _
  case isFalse =>
    cases hs
    exact hi.same (hi.listed.same rfl rfl rfl hi.listed.room) rfl rfl rfl rfl hi.phase

theorem Inv.step_open (hi : Inv h s) {oflag : UInt32} (horderly : Orderly s (.audioCodecOpen oflag))
    (hs : s.step (.audioCodecOpen oflag) = some (t, o)) :
    Inv (h ++ [(.audioCodecOpen oflag, o)]) t := by
  cases hs
  unfold State.audioCodecOpen
  split
  case isTrue hopens =>
    refine hi.same (hi.listed.same rfl rfl rfl hi.listed.room) rfl rfl rfl rfl ?_
    have hnone : s.dma.srcPauseAddr = none := horderly hopens
    obtain ⟨k, hplay | hpause⟩ := hi.phase
    · exact ⟨k, .inl ⟨hplay.paused, rfl, hplay.writer, hplay.whole, hplay.due⟩⟩
    · have hset := hpause.pause
      rw [hnone] at hset
      cases hset
  case isFalse =>
    exact hi.same (hi.listed.same rfl rfl rfl hi.listed.room) rfl rfl rfl rfl hi.phase

end Control

section Write

variable {β : Type u} {h : History β} {s t : State β} {e : Event β} {o : Answer β}

/-- Outside the refill it does not matter to the DMA where a write is. -/
theorem phase_writer {d p : Nat} (hphase : ∃ k, Playing s k d p ∨ Pausing s k d p)
    (hw : ¬ s.writer.Refills) (hw' : ¬ t.writer.Refills) (hpaused : t.paused = s.paused)
    (hpos : t.fillPos = s.fillPos) (hsize : t.fillSize = s.fillSize) (hdma : t.dma = s.dma) :
    ∃ k, Playing t k d p ∨ Pausing t k d p := by
  obtain ⟨k, hplay | hpause⟩ := hphase
  · refine ⟨k, .inl ⟨hpaused.trans hplay.paused, ?_, hw', hplay.whole, ?_⟩⟩
    · rw [hdma]
      exact hplay.pause
    · rw [hdma]
      exact hplay.due
  · have hrefilled := (refilled_start hw).mp hpause.refilled
    rw [← hpaused, ← hpos, ← hsize] at hrefilled
    refine ⟨k, .inr ⟨?_, ?_, ?_, hpause.after, hpause.before, (refilled_start hw').mpr hrefilled⟩⟩
    · rw [hdma]
      exact hpause.half
    · rw [hdma]
      exact hpause.finish
    · rw [hdma]
      exact hpause.pause

theorem Inv.step_write (hi : Inv h s) {node : RtDataNode β UInt8}
    (hs : s.step (.audioCodecWrite node) = some (t, o)) :
    Inv (h ++ [(.audioCodecWrite node, o)]) t := by
  unfold State.step at hs
  dsimp only at hs
  split at hs
  case h_2 => cases hs
  case h_1 hat =>
    have hw : ¬ s.writer.Refills := hat ▸ id
    have hreader : s.list.reader = .idle := reader_idle hw
    unfold State.audioCodecWrite at hs
    dsimp only at hs
    split at hs
    case isTrue =>
      cases hs
      refine hi.same (hi.listed.same ?_ rfl rfl nofun) rfl rfl rfl rfl
        (phase_writer hi.phase hw id rfl rfl rfl rfl)
      exact congrArg (DataNode.State.mk s.nodeList) hreader.symm
    case isFalse hroom =>
      cases hs
      refine hi.same (hi.listed.same ?_ rfl rfl ?_) rfl rfl rfl rfl
        (phase_writer hi.phase hw id rfl rfl rfl rfl)
      · exact congrArg (DataNode.State.mk s.nodeList) hreader.symm
      · rintro _ _ _ ⟨⟩
        exact ⟨rfl, rfl, hroom⟩

theorem Inv.go_checked (hi : Inv h s) {node : RtDataNode β UInt8} {nextIndex writeIndex : Nat}
    (hat : s.writer = .checked node nextIndex writeIndex) (hs : s.go = some (t, o)) :
    Inv (h ++ [(.go, o)]) t := by
  unfold State.go at hs
  rw [hat] at hs
  cases hs
  have hw : ¬ s.writer.Refills := hat ▸ id
  have hreader : s.writer.reader = .idle := reader_idle hw
  have hview : s.list = ⟨s.nodeList, .idle⟩ := by rw [State.list, hreader]
  have hinv : DataNode.Inv ⟨s.nodeList, .idle⟩ := hview ▸ hi.listed.inv
  obtain ⟨rfl, rfl, hroom⟩ := hi.listed.room node nextIndex writeIndex hat
  have hwrite : s.nodeList.rtDataNodeWrite node = some
      ({ s.nodeList with
          node := s.nodeList.node.write s.nodeList.writeIndex [node]
          writeIndex := s.nodeList.nextIndex s.nodeList.writeIndex },
        node.dataSize.toInt32) := if_neg hroom
  have hstep := stepped_write hinv hwrite
  refine hi.same (hi.listed.concat hstep.inv ?_ ?_ nofun) rfl rfl rfl rfl
    (phase_writer hi.phase hw id rfl rfl rfl rfl)
  · rw [hview]
    exact hstep.queue
  · rw [hview]
    rfl

theorem Inv.go_stored (hi : Inv h s) (hat : s.writer = .stored) (hs : s.go = some (t, o)) :
    Inv (h ++ [(.go, o)]) t := by
  unfold State.go at hs
  rw [hat] at hs
  cases hs
  have hw : ¬ s.writer.Refills := hat ▸ id
  have hreader : s.list.reader = .idle := reader_idle hw
  cases hpaused : s.paused with
  | false =>
    refine hi.same (hi.listed.same ?_ rfl rfl nofun) rfl rfl rfl rfl
      (phase_writer hi.phase hw id hpaused.symm rfl rfl rfl)
    exact congrArg (DataNode.State.mk s.nodeList) hreader.symm
  | true =>
    refine hi.same (hi.listed.same ?_ rfl rfl nofun) rfl rfl rfl rfl ?_
    · exact congrArg (DataNode.State.mk s.nodeList) hreader.symm
    · obtain ⟨k, hplay | hpause⟩ := hi.phase
      · rw [hplay.paused] at hpaused
        cases hpaused
      · have hrefilled := (refilled_start hw).mp hpause.refilled
        exact ⟨k, .inr (hpause.keeps rfl ⟨rfl, hrefilled.2⟩)⟩

/-- What is copied goes behind what has been placed. -/
theorem Heard.push (hh : Heard h s) {k base : Nat} {fillPos fillSize readOffset : UInt32}
    (hafter : 1024 * (k + 1) ≤ (played h).length) (hrange : Range fillPos fillSize k base)
    (hp : (placed h).length = base + readOffset.toNat) {ys : List UInt8}
    (hle : readOffset.toNat + ys.length ≤ fillSize.toNat) :
    (s.sendFifo.write (fillPos + readOffset).toNat ys).Stream sendBufferSize (stream h ++ ys)
      (played h).length := by
  by_cases hys : ys = []
  · rw [hys, Mem.write_nil, List.append_nil]
    exact hh.fifo
  · have hpos := List.length_pos_iff.mpr hys
    have hlen := length_stream h
    have hsize := hrange.size
    have hfrom := hrange.from_le
    have hat := hrange.at_pos
    have hoff : (fillPos + readOffset).toNat = (stream h).length % sendBufferSize := by
      unfold fillOf at hat
      rw [toNat_add_of_lt (by omega), hlen]
      unfold sendBufferSize
      omega
    rw [hoff]
    refine hh.fifo.push ys ?_ ?_
    · unfold sendBufferSize at hlen ⊢
      omega
    · rw [hlen]
      unfold sendBufferSize
      omega

/-- A part of the read of a refill. -/
theorem Inv.read (hi : Inv h s) {e' : DataNode.Event β UInt8} {l : RtDataNodeList β UInt8}
    {r : Reader β UInt8} {a : DataNode.Answer β UInt8} {readOffset : UInt32}
    (hstep : Stepped s.list e' ⟨l, r⟩ a)
    (hcalls : asChunks (.go, (s.read s.fillPos readOffset l r a).2) = DataNode.asChunks (e', a))
    (hasked : s.list.reader.asked ++ askedBy e' = [(s.fillSize, true)])
    {k base : Nat} (hpause : Pausing s k (played h).length (placed h).length)
    (hpaused : s.paused = true) (hrange : Range s.fillPos s.fillSize k base)
    (hp : (placed h).length = base + s.list.reader.dst.length)
    (hoff : readOffset.toNat = s.list.reader.dst.length) :
    Inv (h ++ [(.go, (s.read s.fillPos readOffset l r a).2)])
      (s.read s.fillPos readOffset l r a).1 := by
  have hdst := hstep.dst
  -- the read goes on, or it has returned and what it copied is its result
  obtain ⟨hview, hroom, hle, hrefilled⟩ : (s.read s.fillPos readOffset l r a).1.list = ⟨l, r⟩ ∧
      (∀ node nextIndex writeIndex, (s.read s.fillPos readOffset l r a).1.writer ≠
        .checked node nextIndex writeIndex) ∧
      readOffset.toNat + a.copied.length ≤ s.fillSize.toNat ∧
      Refilled (s.read s.fillPos readOffset l r a).1 k ((placed h).length + a.copied.length) := by
    unfold Refilled State.read State.list
    dsimp only
    rw [hp, hoff, Nat.add_assoc, ← List.length_append, hdst]
    rcases hstep.outcome hasked with ⟨hnone, hasked'⟩ | ⟨x, hx, hsize, hbuffer, hidle⟩
    · rw [hnone]
      have hle := (readOffset_length hstep.inv hasked').2
      exact ⟨rfl, nofun, hle, hpaused, rfl, hasked', hle, base, hrange, rfl⟩
    · have hright := hstep.returned x hx
      have hcopied : x.dst = x.taken := by rw [hright.dst, if_pos hbuffer]
      have hword : x.ret.toUInt32.toNat = x.dst.length := hcopied ▸ hright.word
      have hle : x.dst.length ≤ s.fillSize.toNat := hsize ▸ hcopied ▸ hright.le
      rw [hx]
      refine ⟨congrArg _ hidle.symm, nofun, hle, hpaused, hword ▸ hle, base, hrange, ?_⟩
      rw [hword]
      rfl
  have hp' : (placed h).length = base + readOffset.toNat := by rw [hp, hoff]
  refine ⟨?_, hi.heard.place rfl rfl (hi.heard.push hpause.after hrange hp' hle), k, .inr ?_⟩
  · refine hi.listed.concat (hview ▸ hstep.inv) ?_ ?_ fun node nextIndex writeIndex hat =>
      absurd hat (hroom node nextIndex writeIndex)
    · rw [hview, hcalls]
      exact hstep.queue
    · rw [hview, hcalls]
      exact hstep.copied _ hasked
  · rw [played_concat, placed_concat, List.length_append, List.length_append]
    exact hpause.keeps rfl hrefilled

/-- A refill that is under way: the half in front of it is played, with the pause address set. -/
theorem Inv.pausing (hi : Inv h s) (hw : s.writer.Refills) :
    ∃ k, Pausing s k (played h).length (placed h).length := by
  obtain ⟨k, hplay | hpause⟩ := hi.phase
  · exact absurd hw hplay.writer
  · exact ⟨k, hpause⟩

theorem asChunks_read {l : RtDataNodeList β UInt8} {r : Reader β UInt8}
    {a : DataNode.Answer β UInt8} {fillPos readOffset : UInt32} {e' : DataNode.Event β UInt8}
    (he : DataNode.asChunks (e', a) = DataNode.asChunks (.go, a)) :
    asChunks (.go, (s.read fillPos readOffset l r a).2) = DataNode.asChunks (e', a) := by
  rw [he]
  unfold State.read asChunks DataNode.asChunks
  dsimp only
  cases a.settled <;> rfl

theorem Inv.go_refill (hi : Inv h s) (hat : s.writer = .refill) (hs : s.go = some (t, o)) :
    Inv (h ++ [(.go, o)]) t := by
  unfold State.go at hs
  rw [hat] at hs
  cases hs
  obtain ⟨k, hpause⟩ := hi.pausing (hat ▸ trivial)
  have hview : s.list = ⟨s.nodeList, .idle⟩ := by rw [State.list, hat]; rfl
  have hstep := stepped_read (hview ▸ hi.listed.inv) rfl s.fillSize true
  rw [← hview] at hstep
  have hrefilled := hpause.refilled
  unfold Refilled at hrefilled
  rw [hat] at hrefilled
  obtain ⟨hpaused, hrange⟩ := hrefilled
  refine hi.read hstep (asChunks_read rfl) ?_ hpause hpaused hrange ?_ ?_
  · rw [hview]
    rfl
  · rw [hview]
    rfl
  · rw [hview]
    rfl

theorem Inv.go_reading (hi : Inv h s) {fillPos : UInt32} {r : Reader β UInt8}
    (hat : s.writer = .reading fillPos r) (hs : s.go = some (t, o)) :
    Inv (h ++ [(.go, o)]) t := by
  unfold State.go at hs
  rw [hat] at hs
  obtain ⟨⟨l, r', a⟩, hgo, heq⟩ := Option.map_eq_some_iff.mp hs
  cases heq
  obtain ⟨k, hpause⟩ := hi.pausing (hat ▸ trivial)
  have hview : s.list = ⟨s.nodeList, r⟩ := by rw [State.list, hat]; rfl
  have hinv : DataNode.Inv ⟨s.nodeList, r⟩ := hview ▸ hi.listed.inv
  have hstep := stepped_go hinv hgo
  rw [← hview] at hstep
  have hrefilled := hpause.refilled
  unfold Refilled at hrefilled
  rw [hat] at hrefilled
  obtain ⟨hpaused, rfl, hasked, hle, base, hrange, hp⟩ := hrefilled
  refine hi.read hstep (asChunks_read rfl) ?_ hpause hpaused hrange ?_ ?_
  · rw [hview]
    exact (List.append_nil _).trans hasked
  · rw [hview]
    exact hp
  · rw [hview]
    exact (readOffset_length hinv hasked).1

/-- A statement of a refill that only moves the write on. -/
theorem Inv.refill (hi : Inv h s) (hreader : s.writer.reader = .idle)
    (hreader' : t.writer.reader = .idle) (hlist : t.nodeList = s.nodeList)
    (hfifo : t.sendFifo = s.sendFifo) (haddr : t.dma.srcAddr = s.dma.srcAddr)
    (hw : t.writer.Refills ∨ t.writer = .idle)
    (hphase : ∃ k, Playing t k (played h).length (placed h).length ∨
      Pausing t k (played h).length (placed h).length) : Inv (h ++ [(.go, ({} : Answer β))]) t := by
  refine hi.same (hi.listed.same ?_ rfl rfl ?_) rfl rfl haddr hfifo hphase
  · rw [State.list, State.list, hreader, hreader', hlist]
  · intro node nextIndex writeIndex hat
    rcases hw with hw | hw
    · rw [hat] at hw
      exact False.elim hw
    · rw [hat] at hw
      cases hw

theorem Inv.go_compare (hi : Inv h s) {result : UInt32} (hat : s.writer = .compare result)
    (hs : s.go = some (t, o)) : Inv (h ++ [(.go, o)]) t := by
  unfold State.go at hs
  rw [hat] at hs
  cases hs
  obtain ⟨k, hpause⟩ := hi.pausing (hat ▸ trivial)
  have hrefilled := hpause.refilled
  unfold Refilled at hrefilled
  rw [hat] at hrefilled
  obtain ⟨hpaused, hle, base, hrange, hp⟩ := hrefilled
  have hsize := hrange.size
  have hreader : s.writer.reader = .idle := by rw [hat]; rfl
  by_cases heq : result = s.fillSize
  · rw [if_pos heq]
    refine hi.refill hreader rfl rfl rfl rfl (.inl trivial) ⟨k, .inr ?_⟩
    refine hpause.keeps rfl ⟨hpaused, ?_, base, hrange⟩
    rw [heq] at hp
    omega
  · rw [if_neg heq]
    refine hi.refill hreader rfl rfl rfl rfl (.inl trivial) ⟨k, .inr ?_⟩
    have hlt : result.toNat < s.fillSize.toNat :=
      Nat.lt_of_le_of_ne hle fun h => heq (UInt32.toNat_inj.mp h)
    exact hpause.keeps rfl ⟨hpaused, hlt, base, hrange, hp⟩

theorem Inv.go_filled (hi : Inv h s) (hat : s.writer = .filled) (hs : s.go = some (t, o)) :
    Inv (h ++ [(.go, o)]) t := by
  unfold State.go at hs
  rw [hat] at hs
  cases hs
  obtain ⟨k, hpause⟩ := hi.pausing (hat ▸ trivial)
  have hrefilled := hpause.refilled
  unfold Refilled at hrefilled
  rw [hat] at hrefilled
  obtain ⟨-, hp, -⟩ := hrefilled
  have hreader : s.writer.reader = .idle := by rw [hat]; rfl
  refine hi.refill hreader rfl rfl rfl rfl (.inl trivial) ⟨k, .inr ?_⟩
  exact hpause.keeps rfl ⟨rfl, hp⟩

/-- The half is whole when the DMA is let into it. -/
theorem Inv.go_resume (hi : Inv h s) (hat : s.writer = .resume) (hs : s.go = some (t, o)) :
    Inv (h ++ [(.go, o)]) t := by
  unfold State.go at hs
  rw [hat] at hs
  cases hs
  obtain ⟨k, hpause⟩ := hi.pausing (hat ▸ trivial)
  have hbefore := hpause.before
  have hrefilled := hpause.refilled
  unfold Refilled at hrefilled
  rw [hat] at hrefilled
  obtain ⟨hpaused, hp⟩ := hrefilled
  have hreader : s.writer.reader = .idle := by rw [hat]; rfl
  refine hi.refill hreader rfl rfl rfl rfl (.inr rfl) ⟨k + 1, .inl ?_⟩
  exact ⟨hpaused, rfl, id, hp, .inl ⟨hpause.half, hpause.finish, hpause.after, by omega⟩⟩

theorem Inv.go_short (hi : Inv h s) {result : UInt32} (hat : s.writer = .short result)
    (hs : s.go = some (t, o)) : Inv (h ++ [(.go, o)]) t := by
  unfold State.go at hs
  rw [hat] at hs
  cases hs
  obtain ⟨k, hpause⟩ := hi.pausing (hat ▸ trivial)
  have hrefilled := hpause.refilled
  unfold Refilled at hrefilled
  rw [hat] at hrefilled
  obtain ⟨hpaused, hlt, base, hrange, hp⟩ := hrefilled
  have hreader : s.writer.reader = .idle := by rw [hat]; rfl
  refine hi.refill hreader rfl rfl rfl rfl (.inl trivial) ⟨k, .inr ?_⟩
  exact hpause.keeps rfl ⟨hpaused, hlt, s.fillPos, base, rfl, hrange, hp⟩

theorem Range.move {fillPos fillSize result : UInt32} {k base : Nat}
    (hr : Range fillPos fillSize k base) (hlt : result.toNat < fillSize.toNat) :
    Range (fillPos + result) (fillSize - result) k (base + result.toNat) := by
  have hsize := hr.size
  have hfrom := hr.from_le
  have hat := hr.at_pos
  have hsub : (fillSize - result).toNat = fillSize.toNat - result.toNat :=
    UInt32.toNat_sub_of_le _ _ (UInt32.le_iff_toNat_le.mpr (Nat.le_of_lt hlt))
  have hadd : (fillPos + result).toNat = fillPos.toNat + result.toNat := by
    refine toNat_add_of_lt ?_
    unfold fillOf at hat
    omega
  refine ⟨by omega, ?_, ?_, ?_⟩
  · rw [hsub]
    omega
  · rw [hsub]
    omega
  · rw [hadd]
    omega

theorem Inv.go_moved (hi : Inv h s) {result : UInt32} (hat : s.writer = .moved result)
    (hs : s.go = some (t, o)) : Inv (h ++ [(.go, o)]) t := by
  unfold State.go at hs
  rw [hat] at hs
  cases hs
  obtain ⟨k, hpause⟩ := hi.pausing (hat ▸ trivial)
  have hrefilled := hpause.refilled
  unfold Refilled at hrefilled
  rw [hat] at hrefilled
  obtain ⟨hpaused, hlt, fillPos, base, hpos, hrange, hp⟩ := hrefilled
  have hreader : s.writer.reader = .idle := by rw [hat]; rfl
  refine hi.refill hreader rfl rfl rfl rfl (.inr rfl) ⟨k, .inr ?_⟩
  refine hpause.keeps rfl ⟨hpaused, ?_⟩
  rw [hp]
  change Range s.fillPos _ _ _
  rw [hpos]
  exact hrange.move hlt

theorem Inv.step_go (hi : Inv h s) (hs : s.go = some (t, o)) : Inv (h ++ [(.go, o)]) t := by
  cases hat : s.writer with
  | idle =>
    unfold State.go at hs
    rw [hat] at hs
    cases hs
  | checked node nextIndex writeIndex => exact hi.go_checked hat hs
  | stored => exact hi.go_stored hat hs
  | refill => exact hi.go_refill hat hs
  | reading fillPos r => exact hi.go_reading hat hs
  | compare result => exact hi.go_compare hat hs
  | filled => exact hi.go_filled hat hs
  | resume => exact hi.go_resume hat hs
  | short result => exact hi.go_short hat hs
  | moved result => exact hi.go_moved hat hs

end Write

section Run

variable {β : Type u} {h : History β} {s t : State β} {e : Event β} {o : Answer β}

theorem inv_init [Inhabited β] : Inv [] (init : State β) := by
  refine ⟨⟨⟨[], holds_init (by decide), rfl⟩, .init, rfl, nofun⟩, ⟨?_, rfl, rfl, rfl⟩, 0, .inl ?_⟩
  · have hstream : stream ([] : History β) = List.replicate sendBufferSize 0 := List.append_nil _
    rw [hstream]
    refine ⟨Nat.zero_le _, ?_, ?_⟩
    · rw [List.length_replicate]
      exact Nat.le_add_left _ _
    · refine List.eq_replicate_iff.mpr ⟨?_, fun b hb => ?_⟩
      · rw [Mem.length_arc, List.length_replicate]
        rfl
      · obtain ⟨j, -, rfl⟩ := List.mem_map.mp hb
        rfl
  · exact ⟨rfl, rfl, id, rfl, .inl ⟨rfl, rfl, Nat.le_refl _, Nat.succ_pos _⟩⟩

theorem Inv.step (hi : Inv h s) (horderly : Orderly s e) (hs : s.step e = some (t, o)) :
    Inv (h ++ [(e, o)]) t := by
  cases e with
  | audioCodecWrite node => exact hi.step_write hs
  | go => exact hi.step_go hs
  | dma => exact hi.step_dma horderly hs
  | dacDmaHalfHandler fuel => exact hi.step_half hs
  | dacDmaFinishHandler fuel => exact hi.step_finish hs
  | codecCmdReset fuel => exact hi.empty (not_reads horderly) hs
  | audioCodecOpen oflag => exact hi.step_open horderly hs
  | audioCodecClose fuel => exact hi.step_close horderly hs

/-- While a half is behind, what is missing of it lies in it, and the DMA in the other one. -/
theorem Refilled.range {k p : Nat} (h : Refilled s k p) (hpaused : s.paused = true) :
    1024 * (k % 2) ≤ s.fillPos.toNat ∧
      s.fillPos.toNat + s.missing.toNat ≤ 1024 * (k % 2 + 1) := by
  have hwithin {fillPos fillSize : UInt32} {base : Nat} (hr : Range fillPos fillSize k base) :
      1024 * (k % 2) ≤ fillPos.toNat ∧ fillPos.toNat + fillSize.toNat ≤ 1024 * (k % 2 + 1) := by
    have hsize := hr.size
    have hfrom := hr.from_le
    have hat := hr.at_pos
    unfold fillOf at hat
    omega
  unfold Refilled at h
  unfold State.missing
  cases hat : s.writer with
  | idle | checked | stored | refill =>
    rw [hat] at h
    exact hwithin h.2
  | reading fillPos r =>
    rw [hat] at h
    obtain ⟨-, -, -, -, base, hrange, -⟩ := h
    exact hwithin hrange
  | compare result =>
    rw [hat] at h
    obtain ⟨-, -, base, hrange, -⟩ := h
    exact hwithin hrange
  | filled =>
    rw [hat] at h
    obtain ⟨-, -, base, hrange⟩ := h
    exact hwithin hrange
  | resume =>
    rw [hat] at h
    rw [h.1] at hpaused
    cases hpaused
  | short result =>
    rw [hat] at h
    obtain ⟨-, -, base, hrange, -⟩ := h
    exact hwithin hrange
  | moved result =>
    rw [hat] at h
    obtain ⟨-, hlt, fillPos, base, hpos, hrange, -⟩ := h
    rw [hpos]
    exact hwithin (hrange.move hlt)

theorem Inv.guarded (hi : Inv h s) (hpaused : s.paused = true) : s.Guarded := by
  obtain ⟨k, hplay | hpause⟩ := hi.phase
  · rw [hplay.paused] at hpaused
    cases hpaused
  · obtain ⟨hfrom, hto⟩ := hpause.refilled.range hpaused
    have hafter := hpause.after
    have hbefore := hpause.before
    refine ⟨k % 2, Nat.mod_lt _ Nat.two_pos, hfrom, hto, ?_, ?_⟩
    · rw [hpause.pause, pauseOf]
      congr 1
      omega
    · rw [hi.heard.addr]
      unfold sendBufferSize
      omega

theorem handler_ends (hinv : DataNode.Inv ⟨s.nodeList, .idle⟩) {fuel : Nat}
    (hfuel : 3 * s.nodeList.nodeCount < fuel) (fill pause : UInt32) :
    (s.dacDmaHandler fuel fill pause).isSome := by
  unfold State.dacDmaHandler
  dsimp only
  split
  case isTrue => rfl
  case isFalse =>
    obtain ⟨⟨l, cs, ret⟩, hread⟩ :=
      Option.isSome_iff_exists.mp (readWhole_ends hinv hfuel 1024 true)
    obtain ⟨-, -, x, hx, -⟩ := readWhole_spec hinv hread
    rw [hread, hx]
    rfl

theorem Inv.law (hi : Inv h s) : Law h s where
  queue := hi.listed.queue
  popped := hi.listed.popped
  heard := by
    rw [hi.heard.prior]
    exact List.take_prefix _ _
  unread := by
    obtain ⟨k, hplay | hpause⟩ := hi.phase
    · have hwhole := hplay.whole
      have hdue := hplay.due
      omega
    · have hbounds := hpause.refilled.bounds
      have hafter := hpause.after
      omega
  guarded := hi.guarded
  refill := by
    intro fillPos r hat
    obtain ⟨k, hpause⟩ := hi.pausing (hat ▸ trivial)
    have hrefilled := hpause.refilled
    unfold Refilled at hrefilled
    rw [hat] at hrefilled
    exact ⟨hrefilled.1, hrefilled.2.1, hrefilled.2.2.1⟩
  served := by
    have hidle (hon : s.dma.halfPending = true ∨ s.dma.finishPending = true) :
        DataNode.Inv ⟨s.nodeList, .idle⟩ := by
      obtain ⟨k, hplay, -⟩ := hi.pending hon
      have hinv := hi.listed.inv
      rw [State.list, reader_idle hplay.writer] at hinv
      exact hinv
    refine ⟨fun hon => ⟨3 * s.nodeList.nodeCount + 1, fun fuel hfuel => ?_⟩,
      fun hon => ⟨3 * s.nodeList.nodeCount + 1, fun fuel hfuel => ?_⟩⟩
    · rw [State.step, if_pos hon]
      exact handler_ends (by exact hidle (.inl hon)) (by exact hfuel) _ _
    · rw [State.step, if_pos hon]
      exact handler_ends (by exact hidle (.inr hon)) (by exact hfuel) _ _

theorem inv_of_reaches [Inhabited β] (hr : icodecDac.ReachesUnder Orderly h s) : Inv h s :=
  hr.invariant Inv inv_init fun hi horderly hs => hi.step horderly hs

end Run

section Examples

instance (w : Writer UInt32) : Decidable w.Reads := by
  cases w <;> unfold Writer.Reads <;> infer_instance

instance (s : State UInt32) : ∀ e, Decidable (Orderly s e)
  | .dma => inferInstanceAs (Decidable (¬ _))
  | .audioCodecOpen _ => inferInstanceAs (Decidable (_ → _))
  | .codecCmdReset _ => inferInstanceAs (Decidable (¬ _))
  | .audioCodecClose _ => inferInstanceAs (Decidable (_ → _))
  | .audioCodecWrite _ | .go | .dacDmaHalfHandler _ | .dacDmaFinishHandler _ =>
    inferInstanceAs (Decidable True)

/-- The device opened for the first time, when `n` words of the first half have been played. -/
def opened (n : Nat) : State UInt32 :=
  let s := init.audioCodecOpen 2
  { s with dma := { s.dma with srcAddr := 4 * n, halfPending := n = 256 } }

end Examples

end BdkRtt.Audio.IcodecDac
