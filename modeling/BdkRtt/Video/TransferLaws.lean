import BdkRtt.Video.Delivery
import BdkRtt.Video.Transfer

namespace BdkRtt.Video

open Lib

section Numbers

/-- The packets numbered since the last one that ended a frame, starting from `c`. -/
def unfinished (c : Nat) (flags : List Bool) : Nat :=
  flags.foldl (fun n isEof => if isEof then 0 else n + 1) c

/-- The numbers that go out on one byte. -/
def numbers : Nat → List Bool → List Nat
  | _, [] => []
  | c, isEof :: flags => (c + 1) % 256 :: numbers (if isEof then 0 else c + 1) flags

@[simp] theorem length_numbers (c : Nat) (flags : List Bool) :
    (numbers c flags).length = flags.length := by
  induction flags generalizing c with
  | nil => rfl
  | cons b flags ih => simp [numbers, ih]

theorem numbers_append (c : Nat) (xs ys : List Bool) :
    numbers c (xs ++ ys) = numbers c xs ++ numbers (unfinished c xs) ys := by
  induction xs generalizing c with
  | nil => rfl
  | cons b xs ih => simp [numbers, unfinished, ih]

theorem unfinished_append (c : Nat) (xs ys : List Bool) :
    unfinished c (xs ++ ys) = unfinished (unfinished c xs) ys :=
  List.foldl_append

/-- The numbers count up exactly when the counter starts right, at most 255 of them are needed,
and only the last packet ends a frame. -/
theorem numbers_eq_range' {c j : Nat} {flags : List Bool} (hne : flags ≠ []) :
    numbers c flags = List.range' (j + 1) flags.length ↔
      c % 256 = j ∧ j + flags.length ≤ 255 ∧ ∀ b ∈ flags.dropLast, b = false := by
  induction flags generalizing c j with
  | nil => exact absurd rfl hne
  | cons b flags ih =>
    rw [numbers, List.length_cons, List.range'_succ, List.cons.injEq]
    cases flags with
    | nil =>
      simp only [numbers, List.length_nil, List.range'_zero, List.dropLast_singleton]
      constructor
      · rintro ⟨h, -⟩
        exact ⟨by omega, by omega, nofun⟩
      · rintro ⟨h, h', -⟩
        exact ⟨by omega, trivial⟩
    | cons b' flags =>
      rw [ih (by simp), List.dropLast_cons_cons, List.forall_mem_cons, List.length_cons]
      cases b with
      | false =>
        simp only [Bool.false_eq_true, if_false, true_and]
        constructor
        · rintro ⟨h, h', h'', h₃⟩
          exact ⟨by omega, by omega, h₃⟩
        · rintro ⟨h, h', h₃⟩
          exact ⟨by omega, by omega, by omega, h₃⟩
      | true =>
        simp only [if_true]
        constructor
        · rintro ⟨-, h', -⟩
          omega
        · rintro ⟨-, -, h', -⟩
          cases h'

end Numbers

section Handlers

/-- An element as the receiver takes it; the frame that it was cut from plays no part. -/
def TvideoElem.packet (e : TvideoElem) : Packet where
  frame := 0
  data := e.data
  length_lt := Nat.lt_of_le_of_lt e.fits (by decide)

variable {s : TvideoPool} {curptr : Mem UInt8} {newlen isEof frameLen : UInt32}

theorem vbHdr_bytes (hdr : VbHdr) (xs : List UInt8) : vbHdr (hdr.bytes ++ xs) = hdr := rfl

/-- What it means that a packet gets the element `e`. -/
structure Queues (s : TvideoPool) (newlen isEof : UInt32) (t : TvideoPool) (e : TvideoElem) :
    Prop where
  packet : newlen ≠ 0
  free : s.free = e.idx :: t.free
  ready : t.ready = s.ready ++ [e]
  frameId : t.frameId = s.frameId
  gPktSeq : t.gPktSeq = if isEof ≠ 0 then 0 else s.gPktSeq + 1
  id : e.hdr.id = s.frameId.toUInt32.toUInt8
  isEof : e.hdr.isEof = isEof.toUInt8
  pktSeq : e.hdr.pktSeq = (s.gPktSeq + 1).toUInt8
  long : vbHdrSize ≤ e.data.length

theorem tvideoRxHandler_cases (s : TvideoPool) (curptr : Mem UInt8)
    (newlen isEof frameLen : UInt32) :
    (tvideoRxHandler s curptr newlen isEof frameLen = (s, none) ∧ (newlen = 0 ∨ s.free = [])) ∨
      ∃ t e, tvideoRxHandler s curptr newlen isEof frameLen = (t, some e) ∧
        Queues s newlen isEof t e := by
  unfold tvideoRxHandler
  split
  next h => exact .inl ⟨rfl, .inl h⟩
  next h =>
    split
    next hfree => exact .inl ⟨rfl, .inr hfree⟩
    next idx free hfree =>
      refine .inr ⟨_, _, rfl, h, hfree, rfl, rfl, rfl, ?_, ?_, ?_, ?_⟩
      · exact congrArg VbHdr.id (vbHdr_bytes _ _)
      · exact congrArg VbHdr.isEof (vbHdr_bytes _ _)
      · exact congrArg VbHdr.pktSeq (vbHdr_bytes _ _)
      · simp [VbHdr.bytes, vbHdrSize]

/-- The receiver takes its packets one after another. -/
def recvAll (g : VbufSt) (mem : Space UInt8) : List (List UInt8) → VbufSt × Space UInt8
  | [] => (g, mem)
  | data :: rest =>
    let r := videoBufferRecvVideoData g mem data
    recvAll r.vbuf r.mem rest

theorem recv_ret (g : VbufSt) (mem : Space UInt8) (data : List UInt8) :
    (videoBufferRecvVideoData g mem data).ret = UInt32.ofNat data.length := by
  unfold videoBufferRecvVideoData
  dsimp only
  split
  · rfl
  split
  · rfl
  split
  · unfold copyPacket
    dsimp only
    split
    · split <;> rfl
    · rfl
  · rfl

/-- A poll sends everything that is ready, in order. -/
theorem tvideoPollHandler_eq (g : VbufSt) (mem : Space UInt8) (free : List Nat)
    (ready : List TvideoElem) :
    tvideoPollHandler g mem free ready =
      { free := free ++ ready.map TvideoElem.idx
        ready := []
        vbuf := (recvAll g mem (ready.map TvideoElem.data)).1
        mem := (recvAll g mem (ready.map TvideoElem.data)).2
        sent := ready } := by
  induction ready generalizing g mem free with
  | nil => simp [tvideoPollHandler, recvAll]
  | cons e ready ih =>
    rw [tvideoPollHandler]
    dsimp only
    rw [if_neg (not_not.mpr (recv_ret ..)), ih]
    simp [recvAll]

end Handlers

section Run

abbrev TvideoHistory := Machine.History TvideoEvent TvideoAnswer

/-- The packets that got an element, each with whether it was the last of its frame. -/
def queued (h : TvideoHistory) : List (TvideoElem × Bool) :=
  h.filterMap fun
    | (.nodeFull _ _ isEof _, .queued (some e)) => some (e, decide (isEof ≠ 0))
    | _ => none

def sent (h : TvideoHistory) : List TvideoElem :=
  h.flatMap fun
    | (_, .polled p) => p.sent
    | _ => []

def isEndFrame : TvideoEvent → Bool
  | .endFrame => true
  | _ => false

/-- The number of frames that ended. -/
def framesEnded (h : TvideoHistory) : Nat := h.countP fun x => isEndFrame x.1

theorem queued_append (h h' : TvideoHistory) : queued (h ++ h') = queued h ++ queued h' :=
  List.filterMap_append

theorem sent_append (h h' : TvideoHistory) : sent (h ++ h') = sent h ++ sent h' :=
  List.flatMap_append

theorem framesEnded_append (h h' : TvideoHistory) :
    framesEnded (h ++ h') = framesEnded h + framesEnded h' :=
  List.countP_append

variable {seq₀ : UInt32} {h : TvideoHistory} {s t : TvideoPool}

/-- The state is what the events so far make it, and the packets carry the numbers they should. -/
structure Counted (seq₀ : UInt32) (h : TvideoHistory) (s : TvideoPool) : Prop where
  numbers : (queued h).map (fun x => x.1.hdr.pktSeq.toNat) =
    numbers seq₀.toNat ((queued h).map Prod.snd)
  gPktSeq : s.gPktSeq = UInt32.ofNat (unfinished seq₀.toNat ((queued h).map Prod.snd))
  frameId : s.frameId = UInt16.ofNat (framesEnded h)
  ready : (queued h).map Prod.fst = sent h ++ s.ready

theorem toNat_toUInt8_succ (n : Nat) : (UInt32.ofNat n + 1).toUInt8.toNat = (n + 1) % 256 := by
  rw [UInt32.toNat_toUInt8, UInt32.toNat_add, UInt32.toNat_ofNat']
  simp only [UInt32.toNat_one]
  omega

theorem Counted.queues (hc : Counted seq₀ h s) {curptr : Mem UInt8}
    {newlen isEof frameLen : UInt32} {e : TvideoElem} (hq : Queues s newlen isEof t e) :
    Counted seq₀ (h ++ [(.nodeFull curptr newlen isEof frameLen, .queued (some e))]) t where
  numbers := by
    rw [queued_append, List.map_append, List.map_append, numbers_append, hc.numbers]
    simp only [queued, List.filterMap_cons, List.filterMap_nil, List.map_cons, List.map_nil,
      Video.numbers, hq.pktSeq, hc.gPktSeq, toNat_toUInt8_succ]
  gPktSeq := by
    rw [queued_append, List.map_append, unfinished_append, hq.gPktSeq, hc.gPktSeq]
    by_cases heof : isEof = 0
    · simp [queued, heof, unfinished, UInt32.ofNat_add]
    · simp [queued, heof, unfinished]
  frameId := by
    rw [framesEnded_append, hq.frameId]
    exact hc.frameId
  ready := by
    rw [queued_append, sent_append, List.map_append, hc.ready, hq.ready]
    simp [queued, sent]

/-- An entry that queues nothing. -/
theorem Counted.quiet (hc : Counted seq₀ h s) {x : TvideoEvent × TvideoAnswer}
    (hqueued : queued [x] = []) (hsent : sent [x] ++ t.ready = s.ready)
    (hseq : t.gPktSeq = s.gPktSeq)
    (hframe : t.frameId = s.frameId + UInt16.ofNat (framesEnded [x])) :
    Counted seq₀ (h ++ [x]) t where
  numbers := by
    rw [queued_append, hqueued, List.append_nil]
    exact hc.numbers
  gPktSeq := by
    rw [queued_append, hqueued, List.append_nil, hseq]
    exact hc.gPktSeq
  frameId := by
    rw [framesEnded_append, UInt16.ofNat_add, hframe, hc.frameId]
  ready := by
    rw [queued_append, hqueued, List.append_nil, sent_append, List.append_assoc, hsent]
    exact hc.ready

theorem Counted.step {e : TvideoEvent} {o : TvideoAnswer} (hc : Counted seq₀ h s)
    (hstep : (tvideo seq₀).step s e = some (t, o)) : Counted seq₀ (h ++ [(e, o)]) t := by
  have hstep' : tvideoStep s e = (t, o) := Option.some.inj hstep
  cases e with
  | nodeFull curptr newlen isEof frameLen =>
    rcases tvideoRxHandler_cases s curptr newlen isEof frameLen with ⟨hr, -⟩ | ⟨t', e, hr, hq⟩
    · rw [tvideoStep, hr] at hstep'
      cases hstep'
      exact hc.quiet rfl rfl rfl (UInt16.add_zero _).symm
    · rw [tvideoStep, hr] at hstep'
      cases hstep'
      exact hc.queues hq
  | endFrame =>
    cases hstep'
    exact hc.quiet rfl rfl rfl rfl
  | poll g mem =>
    rw [tvideoStep, tvideoPollHandler_eq] at hstep'
    cases hstep'
    exact hc.quiet rfl (by simp [sent]) rfl (UInt16.add_zero _).symm

theorem counted (hr : (tvideo seq₀).Reaches h s) : Counted seq₀ h s := by
  refine hr.invariant (Counted seq₀) ?_ fun hc _ hstep => hc.step hstep
  exact ⟨rfl, (UInt32.ofNat_toNat (x := seq₀)).symm, rfl, rfl⟩

end Run

section Frames

/-- Which packets of a stretch of events end a frame, whether they get an element or not. -/
def flags (h : TvideoHistory) : List Bool :=
  h.filterMap fun
    | (.nodeFull _ newlen isEof _, _) => if newlen = 0 then none else some (decide (isEof ≠ 0))
    | _ => none

def isLost : TvideoEvent × TvideoAnswer → Bool
  | (.nodeFull _ newlen _ _, .queued none) => decide (newlen ≠ 0)
  | _ => false

/-- No packet of the stretch is lost. -/
def Obtained (h : TvideoHistory) : Prop := ∀ x ∈ h, isLost x = false

/-- The stretch lies within one frame. -/
def WithinFrame (h : TvideoHistory) : Prop := ∀ x ∈ h, isEndFrame x.1 = false

instance (h : TvideoHistory) : Decidable (Obtained h) := inferInstanceAs (Decidable (∀ x ∈ h, _))

instance (h : TvideoHistory) : Decidable (WithinFrame h) :=
  inferInstanceAs (Decidable (∀ x ∈ h, _))

variable {seq₀ : UInt32} {h pre seg post : TvideoHistory} {s : TvideoPool}

theorem framesEnded_within (hseg : WithinFrame seg) : framesEnded seg = 0 :=
  List.countP_eq_zero.mpr fun x hx => by simp [hseg x hx]

/-- An element that was queued, with the state it was queued in. -/
theorem queues_of_mem (hr : (tvideo seq₀).Reaches h s) (hsplit : h = pre ++ (seg ++ post))
    {q : TvideoElem × Bool} (hq : q ∈ queued seg) :
    ∃ before newlen isEof t t', before <+: seg ∧ Counted seq₀ (pre ++ before) t ∧
      Queues t newlen isEof t' q.1 ∧ q.2 = decide (isEof ≠ 0) := by
  obtain ⟨⟨e, o⟩, hx, hxq⟩ := List.mem_filterMap.mp hq
  obtain ⟨before, after, rfl⟩ := List.append_of_mem hx
  have heq : h = (pre ++ before) ++ (e, o) :: (after ++ post) := by simp [hsplit]
  obtain ⟨t, t', ht, -, hstep⟩ := hr.cut heq
  have hstep' : tvideoStep t e = (t', o) := Option.some.inj hstep
  cases e with
  | nodeFull curptr newlen isEof frameLen =>
    rcases tvideoRxHandler_cases t curptr newlen isEof frameLen with ⟨hrx, -⟩ | ⟨u, e, hrx, hqs⟩
    · rw [tvideoStep, hrx] at hstep'
      cases hstep'
      cases hxq
    · rw [tvideoStep, hrx] at hstep'
      cases hstep'
      cases hxq
      exact ⟨before, newlen, isEof, t, u, List.prefix_append .., counted ht, hqs, rfl⟩
  | endFrame => cases hxq
  | poll => cases hxq

theorem WithinFrame.id_eq (hseg : WithinFrame seg) (hr : (tvideo seq₀).Reaches h s)
    (hsplit : h = pre ++ (seg ++ post)) {q : TvideoElem × Bool} (hq : q ∈ queued seg) :
    q.1.hdr.id = UInt8.ofNat (framesEnded pre) := by
  obtain ⟨before, newlen, isEof, t, t', hbefore, hc, hqs, -⟩ := queues_of_mem hr hsplit hq
  have hbefore' : framesEnded before = 0 :=
    framesEnded_within fun x hx => hseg x (hbefore.subset hx)
  apply UInt8.toNat_inj.mp
  rw [hqs.id, hc.frameId, framesEnded_append, hbefore', UInt32.toNat_toUInt8,
    UInt16.toNat_toUInt32, UInt16.toNat_ofNat', UInt8.toNat_ofNat']
  omega

theorem isEof_ne_of_mem (hr : (tvideo seq₀).Reaches h s) (hsplit : h = pre ++ (seg ++ post))
    {q : TvideoElem × Bool} (hq : q ∈ queued seg) (heof : q.2 = false) :
    q.1.hdr.isEof ≠ 1 := by
  obtain ⟨_, _, isEof, _, _, _, _, hqs, hflag⟩ := queues_of_mem hr hsplit hq
  have hzero : isEof = 0 := by simpa [heof] using hflag
  rw [hqs.isEof, hzero]
  decide

theorem packet_long (hr : (tvideo seq₀).Reaches h s) (hsplit : h = pre ++ (seg ++ post))
    {q : TvideoElem × Bool} (hq : q ∈ queued seg) :
    ¬ q.1.packet.len < UInt32.ofNat vbHdrSize := by
  obtain ⟨_, _, _, _, _, _, _, hqs, _⟩ := queues_of_mem hr hsplit hq
  rw [UInt32.lt_iff_toNat_lt, Packet.len_toNat]
  exact Nat.not_lt.mpr hqs.long

/-- When no packet is lost the packets that got an element are all the packets. -/
theorem Obtained.flags_eq (hob : Obtained seg) (hr : (tvideo seq₀).Reaches h s)
    (hsub : ∀ x ∈ seg, x ∈ h) : (queued seg).map Prod.snd = flags seg := by
  rw [queued, List.map_filterMap, flags]
  apply List.filterMap_congr
  rintro ⟨e, o⟩ hx
  obtain ⟨t, t', -, hstep⟩ := hr.of_mem (hsub _ hx)
  have hstep' : tvideoStep t e = (t', o) := Option.some.inj hstep
  cases e with
  | nodeFull curptr newlen isEof frameLen =>
    have hlost := hob _ hx
    rw [tvideoStep] at hstep'
    cases hstep'
    rcases tvideoRxHandler_cases t curptr newlen isEof frameLen with ⟨hrx, -⟩ | ⟨u, e, hrx, hqs⟩
    · simp only [hrx, isLost, decide_eq_false_iff_not, not_not] at hlost ⊢
      simp [hlost]
    · simp [hrx, hqs.packet]
  | endFrame => rfl
  | poll => rfl

/-- The numbers of a stretch continue where the packets before it stopped. -/
theorem numbers_of_reaches (hr : (tvideo seq₀).Reaches h s) (hsplit : h = pre ++ (seg ++ post)) :
    (queued seg).map (fun q => q.1.hdr.pktSeq.toNat) =
      numbers (unfinished seq₀.toNat ((queued pre).map Prod.snd))
        ((queued seg).map Prod.snd) := by
  have hall := (counted hr).numbers
  rw [hsplit, queued_append, queued_append] at hall
  simp only [List.map_append, numbers_append] at hall
  have hrest := (List.append_inj hall (by simp)).2
  exact (List.append_inj hrest (by simp)).1

end Frames

section Acceptance

variable {g : VbufSt} {mem : Space UInt8} {ar taken ps : List Packet} {p : Packet}

theorem Filled.complete (h : Filled ar taken mem g) : Filled ar taken mem g.complete where
  sub := h.sub
  run := h.run
  ids := h.ids
  count := h.count
  small := h.small
  fits := h.fits
  content := h.content
  ptr := h.ptr

theorem Filled.frameLen_eq (h : Filled ar taken mem g) :
    g.frameLen.toNat = (taken.flatMap Packet.payload).length := by
  rw [← h.content, Space.length_load]

/-- The packet that is waited for, and fits, is copied. -/
theorem Filled.recv (hf : Filled ar taken mem (g.startOfFrame p.hdr)) (hb : g.bufBase ≠ null)
    (hlong : ¬ p.len < UInt32.ofNat vbHdrSize) (he : (g.startOfFrame p.hdr).expects p.hdr)
    (hfit : ((taken ++ [p]).flatMap Packet.payload).length ≤ g.bufLen.toNat)
    (hframe : ∀ q ∈ taken, q.frame = p.frame) :
    let r := videoBufferRecvVideoData g mem p.data
    Filled (ar ++ [p]) (taken ++ [p]) r.mem r.vbuf ∧ r.vbuf.bufBase = g.bufBase ∧
      r.vbuf.bufLen = g.bufLen ∧ r.vbuf.frameId = (g.startOfFrame p.hdr).frameId ∧
      (p.hdr.isEof ≠ 1 → r.vbuf.startBuf = .copy) := by
  have hle : p.orgLen ≤ (g.startOfFrame p.hdr).leftLen := by
    rw [UInt32.le_iff_toNat_le, Packet.orgLen_toNat hlong, VbufSt.leftLen,
      UInt32.toNat_sub_of_le _ _ (UInt32.le_iff_toNat_le.mpr hf.fits), hf.frameLen_eq,
      VbufSt.startOfFrame_bufLen]
    rw [List.flatMap_append, List.length_append, List.flatMap_singleton] at hfit
    omega
  have hrecv := recv_used (p := p) mem (fun h => h.elim hb hlong)
  rw [if_pos he, copyPacket_takes mem ⟨he, hle⟩] at hrecv
  have hnext := hf.advance he hlong hle hframe
  rw [hrecv]
  refine ⟨?_, VbufSt.afterCopy_bufBase .., VbufSt.afterCopy_bufLen .., ?_, fun heof => ?_⟩
  · dsimp only [VbufSt.afterCopy]
    split
    · exact hnext.complete
    · exact hnext
  · dsimp only [VbufSt.afterCopy]
    split <;> rfl
  · dsimp only [VbufSt.afterCopy]
    rw [if_neg fun h => heof h.1]
    exact he.copying

/-- `ps` is the rest of a frame with the given id of which the packets `taken` are there, and the
whole frame fits into `bufLen` bytes. -/
structure Continues (id : UInt32) (bufLen : Nat) (taken ps : List Packet) : Prop where
  id : ∀ p ∈ ps, p.hdr.id.toUInt32 = id
  seq : ps.map (fun p => p.hdr.pktSeq.toNat) = List.range' (taken.length + 1) ps.length
  eof : ∀ p ∈ ps.dropLast, p.hdr.isEof ≠ 1
  long : ∀ p ∈ ps, ¬ p.len < UInt32.ofNat vbHdrSize
  frame : ∀ p ∈ taken ++ ps, p.frame = 0
  fit : ((taken ++ ps).flatMap Packet.payload).length ≤ bufLen

namespace Continues

variable {id : UInt32} {bufLen : Nat}

theorem head_seq (h : Continues id bufLen taken (p :: ps)) :
    p.hdr.pktSeq.toNat = taken.length + 1 := by
  have hseq := h.seq
  rw [List.map_cons, List.length_cons, List.range'_succ] at hseq
  exact List.head_eq_of_cons_eq hseq

theorem head_fit (h : Continues id bufLen taken (p :: ps)) :
    ((taken ++ [p]).flatMap Packet.payload).length ≤ bufLen := by
  refine Nat.le_trans ?_ h.fit
  simp

theorem head_eof (h : Continues id bufLen taken (p :: ps)) (hne : ps ≠ []) : p.hdr.isEof ≠ 1 := by
  apply h.eof
  rw [List.dropLast_cons_of_ne_nil hne]
  exact List.mem_cons_self ..

theorem head_frame (h : Continues id bufLen taken (p :: ps)) : ∀ q ∈ taken, q.frame = p.frame :=
  fun q hq => (h.frame q (by simp [hq])).trans (h.frame p (by simp)).symm

theorem tail (h : Continues id bufLen taken (p :: ps)) :
    Continues id bufLen (taken ++ [p]) ps where
  id q hq := h.id q (List.mem_cons_of_mem _ hq)
  seq := by
    have hseq := h.seq
    rw [List.map_cons, List.length_cons, List.range'_succ] at hseq
    rw [List.length_append]
    exact List.tail_eq_of_cons_eq hseq
  eof q hq := by
    apply h.eof
    rw [List.dropLast_cons_of_ne_nil fun h => by rw [h] at hq; cases hq]
    exact List.mem_cons_of_mem _ hq
  long q hq := h.long q (List.mem_cons_of_mem _ hq)
  frame := by
    rw [← List.append_cons]
    exact h.frame
  fit := by
    rw [← List.append_cons]
    exact h.fit

end Continues

/-- A frame of which some packets are taken takes the others. -/
theorem Filled.recvAll (hf : Filled ar taken mem g) (hcopy : ps ≠ [] → g.startBuf = .copy)
    (hb : g.bufBase ≠ null) (hc : Continues g.frameId g.bufLen.toNat taken ps) :
    let r := Video.recvAll g mem (ps.map Packet.data)
    Filled (ar ++ ps) (taken ++ ps) r.2 r.1 ∧ r.1.bufBase = g.bufBase ∧
      r.1.frameId = g.frameId := by
  induction ps generalizing ar taken mem g with
  | nil => simpa [Video.recvAll] using hf
  | cons p ps ih =>
    have hid := hc.id p (List.mem_cons_self ..)
    have hstart := VbufSt.startOfFrame_of_not fun h : g.startsFrame p.hdr => h.1 hid
    have he : (g.startOfFrame p.hdr).expects p.hdr := by
      rw [hstart]
      refine ⟨hid, ?_, hcopy (by simp)⟩
      have hsmall := hf.small
      apply UInt32.toNat_inj.mp
      rw [UInt8.toNat_toUInt32, hc.head_seq, UInt32.toNat_add, hf.count]
      simp only [UInt32.toNat_one]
      omega
    obtain ⟨hnext, hbase, hlen, hfid, hgo⟩ := Filled.recv (hstart.symm ▸ hf) hb
      (hc.long p (List.mem_cons_self ..)) he hc.head_fit hc.head_frame
    rw [hstart] at hfid
    have hrest := ih hnext (fun hne => hgo (hc.head_eof hne)) (hbase ▸ hb)
      (by rw [hfid, hlen]; exact hc.tail)
    rw [List.append_cons ar, List.append_cons taken]
    rw [hbase, hfid] at hrest
    exact hrest

/-- A whole frame with another id than the last one is taken. -/
theorem recvAll_frame {id : UInt32} (mem : Space UInt8) (hne : ps ≠ [])
    (hc : Continues id g.bufLen.toNat [] ps) (hid : id ≠ g.frameId) (hb : g.bufBase ≠ null) :
    let r := recvAll g mem (ps.map Packet.data)
    Filled ps ps r.2 r.1 ∧ r.1.bufBase = g.bufBase ∧ r.1.frameId = id := by
  obtain ⟨p, ps, rfl⟩ := List.exists_cons_of_ne_nil hne
  have hpid := hc.id p (List.mem_cons_self ..)
  have hstarts : g.startsFrame p.hdr := by
    refine ⟨?_, UInt8.toNat_inj.mp hc.head_seq⟩
    rw [hpid]
    exact hid
  have hstart : (g.startOfFrame p.hdr).frameId = id := by
    rw [VbufSt.startOfFrame, if_pos hstarts]
    exact hpid
  obtain ⟨hnext, hbase, hlen, hfid, hgo⟩ := (Filled.restart [] mem hstarts).recv hb
    (hc.long p (List.mem_cons_self ..)) hstarts.expects hc.head_fit hc.head_frame
  rw [hstart] at hfid
  have hrest := hnext.recvAll (fun hne => hgo (hc.head_eof hne)) (hbase ▸ hb)
    (by rw [hfid, hlen]; exact hc.tail)
  rw [hbase, hfid] at hrest
  exact hrest

def TvideoElem.payload (e : TvideoElem) : List UInt8 := e.data.drop vbHdrSize

/-- The receiver has all packets of the frame, and nothing else, in its buffer. -/
structure Accepted (g : VbufSt) (mem : Space UInt8) (es : List TvideoElem) : Prop where
  count : (Video.recvAll g mem (es.map TvideoElem.data)).1.framePktCnt.toNat = es.length
  content : (Video.recvAll g mem (es.map TvideoElem.data)).2.load g.bufBase
      (Video.recvAll g mem (es.map TvideoElem.data)).1.frameLen.toNat =
    es.flatMap TvideoElem.payload

theorem accepted_of_continues {es : List TvideoElem} {id : UInt32} (hne : es ≠ [])
    (hc : Continues id g.bufLen.toNat [] (es.map TvideoElem.packet)) (hid : id ≠ g.frameId)
    (hb : g.bufBase ≠ null) : Accepted g mem es := by
  have hmap : (es.map TvideoElem.packet).map Packet.data = es.map TvideoElem.data :=
    List.map_map ..
  obtain ⟨hf, hbase, -⟩ := recvAll_frame mem (by simpa using hne) hc hid hb
  rw [hmap] at hf hbase
  constructor
  · rw [hf.count, List.length_map]
  · rw [← hbase, hf.content]
    exact List.flatMap_map ..

end Acceptance

section Claim

variable {seq₀ : UInt32} {h pre seg post : TvideoHistory} {s : TvideoPool}

/-- The counter is at a multiple of 256 when the frame begins, 255 packets are enough for it, and
none but its last packet ends it. -/
def Numberable (seq₀ : UInt32) (pre seg : TvideoHistory) : Prop :=
  unfinished seq₀.toNat ((queued pre).map Prod.snd) % 256 = 0 ∧ (flags seg).length ≤ 255 ∧
    ∀ isEof ∈ (flags seg).dropLast, isEof = false

/-- The numbered packets of a frame are one the receiver can take. -/
theorem WithinFrame.continues (hseg : WithinFrame seg) (hr : (tvideo seq₀).Reaches h s)
    (hsplit : h = pre ++ (seg ++ post)) {bufLen : Nat}
    (hseq : ((queued seg).map fun q => q.1.hdr.pktSeq.toNat) = List.range' 1 (queued seg).length)
    (heof : ∀ q ∈ (queued seg).dropLast, q.2 = false)
    (hfit : (((queued seg).map Prod.fst).flatMap TvideoElem.payload).length ≤ bufLen) :
    Continues (UInt8.ofNat (framesEnded pre)).toUInt32 bufLen []
      (((queued seg).map Prod.fst).map TvideoElem.packet) := by
  rw [List.flatMap_map] at hfit
  rw [List.map_map]
  constructor
  case id =>
    rw [List.forall_mem_map]
    exact fun q hq => congrArg UInt8.toUInt32 (hseg.id_eq hr hsplit hq)
  case seq =>
    rw [List.map_map, List.length_map]
    exact hseq
  case eof =>
    rw [← List.map_dropLast, List.forall_mem_map]
    exact fun q hq => isEof_ne_of_mem hr hsplit (List.dropLast_subset _ hq) (heof q hq)
  case long =>
    rw [List.forall_mem_map]
    exact fun q hq => packet_long hr hsplit hq
  case frame =>
    rw [List.nil_append, List.forall_mem_map]
    exact fun q hq => rfl
  case fit =>
    rw [List.nil_append, List.flatMap_map]
    exact hfit

/-- A frame none of whose packets is lost is numbered from 1 on exactly when it can be, its id is
not that of the frame before it, and then a receiver at another id accepts it. -/
theorem video_packet_numbering (hr : (tvideo seq₀).Reaches h s)
    (hsplit : h = pre ++ (seg ++ post)) (hseg : WithinFrame seg) (hob : Obtained seg) :
    (queued h).map Prod.fst = sent h ++ s.ready ∧
    (((queued seg).map fun q => q.1.hdr.pktSeq.toNat) = List.range' 1 (flags seg).length ↔
      flags seg = [] ∨ Numberable seq₀ pre seg) ∧
    (∀ before prev a, pre = before ++ (prev ++ [(.endFrame, a)]) → WithinFrame prev →
      ∀ p ∈ queued prev, ∀ q ∈ queued seg, p.1.hdr.id ≠ q.1.hdr.id) ∧
    (flags seg ≠ [] → Numberable seq₀ pre seg → ∀ (g : VbufSt) (mem : Space UInt8),
      g.bufBase ≠ null → (∀ q ∈ queued seg, q.1.hdr.id.toUInt32 ≠ g.frameId) →
      (((queued seg).map Prod.fst).flatMap TvideoElem.payload).length ≤ g.bufLen.toNat →
      Accepted g mem ((queued seg).map Prod.fst)) := by
  have hsub : ∀ x ∈ seg, x ∈ h := fun x hx => by simp [hsplit, hx]
  have hflags := hob.flags_eq hr hsub
  have hnumbers : ((queued seg).map fun q => q.1.hdr.pktSeq.toNat) =
      List.range' 1 (flags seg).length ↔ flags seg = [] ∨ Numberable seq₀ pre seg := by
    rw [numbers_of_reaches hr hsplit, hflags]
    by_cases hnil : flags seg = []
    · simp [hnil, numbers]
    · rw [numbers_eq_range' hnil, Nat.zero_add, Numberable]
      simp [hnil]
  refine ⟨(counted hr).ready, hnumbers, ?ids, ?accepted⟩
  case ids =>
    intro before prev a hpre hprev p hp q hq heq
    have hsplit' : h = before ++ (prev ++ ([(.endFrame, a)] ++ (seg ++ post))) := by
      simp [hsplit, hpre]
    have hend : framesEnded [(TvideoEvent.endFrame, a)] = 1 := rfl
    rw [hprev.id_eq hr hsplit' hp, hseg.id_eq hr hsplit hq, hpre, framesEnded_append,
      framesEnded_append, framesEnded_within hprev, hend, ← UInt8.toNat_inj, UInt8.toNat_ofNat',
      UInt8.toNat_ofNat'] at heq
    omega
  case accepted =>
    intro hnil hn g mem hb hid hfit
    have hne : queued seg ≠ [] := by
      rintro hempty
      rw [hempty] at hflags
      exact hnil hflags.symm
    obtain ⟨q, hq⟩ := List.exists_mem_of_ne_nil _ hne
    have hother := hid q hq
    rw [hseg.id_eq hr hsplit hq] at hother
    refine accepted_of_continues (by simpa using hne)
      (hseg.continues hr hsplit ?_ (fun q hq => ?_) hfit) hother hb
    · rw [hnumbers.mpr (.inr hn), ← hflags, List.length_map]
    · apply hn.2.2
      rw [← hflags, ← List.map_dropLast]
      exact List.mem_map_of_mem hq

/-- One byte of a frame. -/
def byteNode (isEof : UInt32) : TvideoEvent := .nodeFull (fun _ => 0xaa) 1 isEof 1

def pollRound : TvideoEvent := .poll .opened fun _ => 0

theorem video_packet_numbering_first :
    ∃ h s, (tvideo 0).Reaches h s ∧
      (queued h).map (fun q => q.1.hdr.pktSeq.toNat) = [1, 2] ∧
      ∀ (g : VbufSt) (mem : Space UInt8), g.bufBase ≠ null → g.frameId = 0xffff →
        2 ≤ g.bufLen.toNat → Accepted g mem ((queued h).map Prod.fst) := by
  have hrun : ∃ h s, (tvideo 0).exec [byteNode 0, pollRound, byteNode 1] = some (h, s) ∧
      Obtained h ∧ WithinFrame h ∧ flags h = [false, true] ∧
      (∀ q ∈ queued h, q.1.hdr.id.toUInt32 ≠ 0xffff) ∧
      (((queued h).map Prod.fst).flatMap TvideoElem.payload).length = 2 :=
    ⟨_, _, rfl, by decide, by decide, by decide, by decide, by decide⟩
  obtain ⟨h, s, hx, hob, hseg, hflags, hid, hlen⟩ := hrun
  have hreach := Machine.reaches_of_exec hx
  have hsplit : h = [] ++ (h ++ []) := by simp
  obtain ⟨-, hnumbers, -, hacc⟩ := video_packet_numbering hreach hsplit hseg hob
  have hable : Numberable 0 [] h := by
    rw [Numberable, hflags]
    decide
  refine ⟨h, s, hreach, ?_, fun g mem hb hg hfit => ?_⟩
  · rw [hnumbers.mpr (.inr hable), hflags]
    rfl
  · refine hacc (by simp [hflags]) hable g mem hb ?_ (hlen ▸ hfit)
    rw [hg]
    exact hid

/-- The pool runs out in front of the last packet of a frame: the next frame, which gets its
element, carries the number 26. -/
theorem video_packet_numbered_after_lost_eof :
    ¬ ∀ (h : TvideoHistory) (s : TvideoPool) (pre seg post : TvideoHistory),
      (tvideo 0).Reaches h s → h = pre ++ (seg ++ post) → WithinFrame seg → Obtained seg →
      (queued seg).map (fun q => q.1.hdr.pktSeq.toNat) = List.range' 1 (flags seg).length := by
  intro hall
  have hrun : ∃ h s, (tvideo 0).exec (List.replicate 25 (byteNode 0) ++
      [byteNode 1, .endFrame, pollRound, byteNode 1]) = some (h, s) ∧
      WithinFrame (h.drop 27) ∧ Obtained (h.drop 27) ∧
      (queued (h.drop 27)).map (fun q => q.1.hdr.pktSeq.toNat) = [26] ∧
      flags (h.drop 27) = [true] :=
    ⟨_, _, rfl, by decide, by decide, by decide, by decide⟩
  obtain ⟨h, s, hx, hseg, hob, hseqs, hflags⟩ := hrun
  have hwrong := hall h s (h.take 27) (h.drop 27) [] (Machine.reaches_of_exec hx) (by simp) hseg hob
  rw [hseqs, hflags] at hwrong
  cases hwrong

end Claim

end BdkRtt.Video
