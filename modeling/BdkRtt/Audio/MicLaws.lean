import BdkRtt.Audio.Mic
import BdkRtt.Lib.Words

namespace BdkRtt.Audio.Mic

open Lib

section View

abbrev History := Machine.History Event Answer

def Answer.handed (a : Answer) : List UInt8 := (a.written.map Write.bytes).getD []

/-- What the DMA has stored since `adc_dma_init` ran last. -/
def storedSince : History → List UInt8 := Machine.since Answer.initialised Answer.stored

def handedSince : History → List UInt8 := Machine.since Answer.initialised Answer.handed

/-- Every range that goes to the pipe lies in `recv_fifo`. -/
def Inside (h : History) : Prop :=
  ∀ x ∈ h, ∀ w ∈ x.2.written, w.buffer + w.bytes.length ≤ recvFifoLen

/-- What a reader of the record pipe relies on. -/
structure Law (h : History) (s : State) : Prop where
  inside : Inside h
  /-- What the DMA had stored when the handler ran last has gone to the pipe, in order. -/
  handed : handedSince h = (storedSince h).take s.served

/-- The handler runs before the DMA is a round ahead, `cur_ptr` is where the DMA was then, and what
has come in since does not pass the end. -/
def Whole (s : State) : Event → Prop
  | .adcDmaFinishHandler =>
    s.dma.stored < s.served + recvFifoLen ∧ s.curPtr = s.served % recvFifoLen ∧
      s.curPtr + (s.dma.stored - s.served) ≤ recvFifoLen
  | _ => True

structure Inv (h : History) (s : State) : Prop where
  fifo : s.recvFifo.Stream recvFifoLen (storedSince h) ((storedSince h).length - recvFifoLen)
  stored : s.dma.stored = (storedSince h).length
  words : s.dma.stored % 4 = 0
  curPtr_lt : s.curPtr < recvFifoLen
  served_le : s.served ≤ s.dma.stored
  law : Law h s

end View

section Concat

variable {h : History} {s t : State} {e : Event} {o : Answer}

theorem storedSince_concat (hinit : o.initialised = false) :
    storedSince (h ++ [(e, o)]) = storedSince h ++ o.stored :=
  Machine.since_concat hinit

theorem handedSince_concat (hinit : o.initialised = false) :
    handedSince (h ++ [(e, o)]) = handedSince h ++ o.handed :=
  Machine.since_concat hinit

theorem inside_concat (x : Event × Answer) : Inside (h ++ [x]) ↔
    Inside h ∧ ∀ w ∈ x.2.written, w.buffer + w.bytes.length ≤ recvFifoLen := by
  simp only [Inside, List.mem_append, List.mem_singleton, or_imp, forall_and, forall_eq]

/-- A step that stores and hands over nothing. -/
theorem Inv.quiet (hi : Inv h s) (hinit : o.initialised = false) (hstored : o.stored = [])
    (hwritten : o.written = none) (hfifo : t.recvFifo = s.recvFifo)
    (hdma : t.dma.stored = s.dma.stored) (hcur : t.curPtr = s.curPtr)
    (hserved : t.served = s.served) : Inv (h ++ [(e, o)]) t := by
  have hsame : storedSince (h ++ [(e, o)]) = storedSince h := by
    rw [storedSince_concat hinit, hstored, List.append_nil]
  refine ⟨?_, ?_, hdma ▸ hi.words, hcur ▸ hi.curPtr_lt, ?_, ?_, ?_⟩
  · rw [hsame, hfifo]
    exact hi.fifo
  · rw [hsame, hdma]
    exact hi.stored
  · rw [hserved, hdma]
    exact hi.served_le
  · exact (inside_concat _).mpr ⟨hi.law.inside, by simp [hwritten]⟩
  · rw [hsame, handedSince_concat hinit, hserved, ← hi.law.handed, Answer.handed, hwritten]
    exact List.append_nil _

/-- `adc_dma_init` begins a new stream. -/
theorem Inv.restart (hi : Inv h s) (hinit : o.initialised = true) (hwritten : o.written = none)
    (hdma : t.dma.stored = 0) (hcur : t.curPtr = s.curPtr) (hserved : t.served = 0) :
    Inv (h ++ [(e, o)]) t := by
  have hstored : storedSince (h ++ [(e, o)]) = [] := Machine.since_concat_reset hinit
  have hhanded : handedSince (h ++ [(e, o)]) = [] := Machine.since_concat_reset hinit
  refine ⟨?_, ?_, ?_, hcur ▸ hi.curPtr_lt, ?_, ?_, ?_⟩
  · rw [hstored]
    exact .nil _ _
  · rw [hstored, hdma]
    rfl
  · rw [hdma]
  · rw [hserved]
    exact Nat.zero_le _
  · exact (inside_concat _).mpr ⟨hi.law.inside, by simp [hwritten]⟩
  · rw [hstored, hhanded, List.take_nil]

end Concat

section Run

variable {memory : Mem UInt8} {h : History} {s t : State} {e : Event} {o : Answer}

theorem recvFifoLen_pos : 0 < recvFifoLen := by decide

theorem inv_init : Inv [] (init memory) where
  fifo := .nil _ _
  stored := rfl
  words := rfl
  curPtr_lt := recvFifoLen_pos
  served_le := Nat.le_refl _
  law := ⟨nofun, rfl⟩

theorem Inv.step_open (hi : Inv h s) {oflag : UInt16}
    (hs : s.step (.audioAdcOpen oflag) = some (t, o)) :
    Inv (h ++ [(.audioAdcOpen oflag, o)]) t := by
  unfold State.step State.audioAdcOpen at hs
  dsimp only at hs
  split at hs
  · cases hs
    exact hi.restart rfl rfl rfl rfl rfl
  · cases hs
    exact hi.quiet rfl rfl rfl rfl rfl rfl rfl

theorem Inv.step_control (hi : Inv h s) {cmd : Int32} {arg : UInt32}
    (hs : s.step (.audioAdcControl cmd arg) = some (t, o)) :
    Inv (h ++ [(.audioAdcControl cmd arg, o)]) t := by
  unfold State.step State.audioAdcControl at hs
  dsimp only at hs
  split at hs
  case isTrue =>
    unfold State.setChannel at hs
    split at hs
    · cases hs
      exact hi.restart rfl rfl rfl rfl rfl
    · cases hs
      exact hi.quiet rfl rfl rfl rfl rfl rfl rfl
  case isFalse =>
    -- the other commands leave `recv_fifo` and the place of the DMA alone
    split at hs
    · cases hs
      exact hi.quiet rfl rfl rfl rfl rfl rfl rfl
    · split at hs
      · split at hs <;> cases hs <;> exact hi.quiet rfl rfl rfl rfl rfl rfl rfl
      · cases hs
        exact hi.quiet rfl rfl rfl rfl rfl rfl rfl

theorem Inv.step_close (hi : Inv h s) (hs : s.step .audioAdcClose = some (t, o)) :
    Inv (h ++ [(.audioAdcClose, o)]) t := by
  unfold State.step State.audioAdcClose at hs
  dsimp only at hs
  split at hs <;> cases hs <;> exact hi.quiet rfl rfl rfl rfl rfl rfl rfl

theorem Inv.step_dma (hi : Inv h s) {word : UInt32} (hs : s.step (.dma word) = some (t, o)) :
    Inv (h ++ [(.dma word, o)]) t := by
  unfold State.step at hs
  dsimp only at hs
  split at hs
  case isFalse => cases hs
  case isTrue =>
    cases hs
    have hwords := hi.words
    have hlen : (storedSince h ++ le32 word).length = (storedSince h).length + 4 := by
      rw [List.length_append, length_le32]
    refine ⟨?_, ?_, ?_, hi.curPtr_lt, ?_, ?_, ?_⟩
    · rw [storedSince_concat rfl, State.dmaStore, Dma.writeAddr, hi.stored]
      refine hi.fifo.latest _ ?_
      rw [← hi.stored, length_le32, recvFifoLen, audioRecvBufferLen, audioRecvBufferCnt]
      omega
    · rw [storedSince_concat rfl, hlen, ← hi.stored]
      rfl
    · change (s.dma.stored + 4) % 4 = 0
      omega
    · exact Nat.le_trans hi.served_le (Nat.le_add_right _ _)
    · exact (inside_concat _).mpr ⟨hi.law.inside, nofun⟩
    · change _ = (storedSince _).take s.served
      rw [storedSince_concat rfl, handedSince_concat rfl,
        List.take_append_of_le_length (hi.stored ▸ hi.served_le), ← hi.law.handed]
      exact List.append_nil _

theorem handler_spec (hs : s.step .adcDmaFinishHandler = some (t, o)) :
    o = { written := some ⟨s.curPtr, s.recvFifo.read s.curPtr
      (distance recvFifoLen s.curPtr s.dma.writeAddr)⟩ } ∧
    t.recvFifo = s.recvFifo ∧ t.curPtr = s.dma.writeAddr ∧ t.served = s.dma.stored ∧
      t.dma.stored = s.dma.stored := by
  unfold State.step at hs
  dsimp only at hs
  split at hs
  case isFalse => cases hs
  case isTrue =>
    cases hs
    exact ⟨rfl, rfl, rfl, rfl, rfl⟩

/-- The range that the handler computes is what has come in since it ran last. -/
theorem distance_whole (hwhole : Whole s .adcDmaFinishHandler) (hle : s.served ≤ s.dma.stored) :
    distance recvFifoLen s.curPtr s.dma.writeAddr = s.dma.stored - s.served := by
  obtain ⟨hround, hcur, -⟩ := hwhole
  have hstored : s.dma.stored = s.served + (s.dma.stored - s.served) := by omega
  have hlt : s.dma.stored - s.served < recvFifoLen := by omega
  rw [hcur, Dma.writeAddr]
  conv_lhs => rw [hstored]
  exact distance_mod hlt

/-- What has come in since the handler ran last is in one piece behind `cur_ptr`. -/
theorem Inv.read_whole (hi : Inv h s) (hwhole : Whole s .adcDmaFinishHandler) :
    s.recvFifo.read s.curPtr (s.dma.stored - s.served) = (storedSince h).drop s.served := by
  obtain ⟨hround, hcur, hend⟩ := hwhole
  have hle := hi.served_le
  have hstored := hi.stored
  have hahead := hi.fifo.advance (n := s.served - ((storedSince h).length - recvFifoLen))
    (by omega)
  rw [Nat.add_sub_cancel' (by omega)] at hahead
  have hread := hahead.read (n := s.dma.stored - s.served) (by omega) (hcur ▸ hend)
  rw [hcur, hread]
  exact List.take_of_length_le (by rw [List.length_drop]; omega)

theorem Inv.step_handler (hi : Inv h s) (hwhole : Whole s .adcDmaFinishHandler)
    (hs : s.step .adcDmaFinishHandler = some (t, o)) :
    Inv (h ++ [(.adcDmaFinishHandler, o)]) t := by
  have hn := distance_whole hwhole hi.served_le
  have hread := hi.read_whole hwhole
  obtain ⟨-, -, hend⟩ := hwhole
  obtain ⟨rfl, hfifo, hcur, hserved, hdma⟩ := handler_spec hs
  have hsame : storedSince (h ++ [(.adcDmaFinishHandler, { written := some ⟨s.curPtr,
      s.recvFifo.read s.curPtr (distance recvFifoLen s.curPtr s.dma.writeAddr)⟩ })]) =
      storedSince h := (storedSince_concat rfl).trans (List.append_nil _)
  refine ⟨?_, ?_, hdma ▸ hi.words, ?_, ?_, ?_, ?_⟩
  · rw [hsame, hfifo]
    exact hi.fifo
  · rw [hsame, hdma]
    exact hi.stored
  · rw [hcur]
    exact Nat.mod_lt _ recvFifoLen_pos
  · rw [hserved, hdma]
  · refine (inside_concat _).mpr ⟨hi.law.inside, ?_⟩
    rintro w ⟨⟩
    rw [Mem.length_read, hn]
    exact hend
  · rw [hsame, handedSince_concat rfl, hserved, hi.stored, List.take_length]
    change handedSince h ++ s.recvFifo.read s.curPtr _ = _
    rw [hn, hread, hi.law.handed, List.take_append_drop]

theorem Inv.step (hi : Inv h s) (hwhole : Whole s e) (hs : s.step e = some (t, o)) :
    Inv (h ++ [(e, o)]) t := by
  cases e with
  | audioAdcOpen oflag => exact hi.step_open hs
  | audioAdcControl cmd arg => exact hi.step_control hs
  | audioAdcClose => exact hi.step_close hs
  | dma word => exact hi.step_dma hs
  | adcDmaFinishHandler => exact hi.step_handler hwhole hs

theorem inv_of_reaches (hr : (mic memory).ReachesUnder Whole h s) : Inv h s :=
  hr.invariant Inv inv_init fun hi hwhole hs => hi.step hwhole hs

section Examples

/-- A finish interrupt that is pending is served before the next one. -/
def Prompt (s : State) : Event → Prop
  | .dma _ => ¬ (s.dma.finishPending = true ∧ (s.dma.stored + 4) % audioRecvBufferLen = 0)
  | _ => True

instance (s : State) : ∀ e, Decidable (Whole s e)
  | .adcDmaFinishHandler => inferInstanceAs (Decidable (_ ∧ _))
  | .audioAdcOpen _ | .audioAdcControl .. | .audioAdcClose | .dma _ =>
    inferInstanceAs (Decidable True)

end Examples

end Run

end BdkRtt.Audio.Mic
