import BdkRtt.Video.Buffer
import BdkRtt.Lib.Words

namespace BdkRtt.Video

open Lib

section Packets

variable {g : VbufSt} {p : Packet}

theorem Packet.len_toNat (p : Packet) : p.len.toNat = p.data.length :=
  UInt32.toNat_ofNat_of_lt' p.length_lt

theorem Packet.orgLen_toNat (h : ¬ p.len < UInt32.ofNat vbHdrSize) :
    p.orgLen.toNat = p.payload.length := by
  have hle : UInt32.ofNat vbHdrSize ≤ p.len := UInt32.not_lt.mp h
  rw [orgLen, UInt32.toNat_sub_of_le _ _ hle, len_toNat, payload, List.length_drop]
  rfl

theorem VbufSt.startOfFrame_of_not (h : ¬ g.startsFrame p.hdr) : g.startOfFrame p.hdr = g :=
  if_neg h

/-- A packet that starts a frame is also the one the new frame waits for. -/
theorem VbufSt.startsFrame.expects (h : g.startsFrame p.hdr) :
    (g.startOfFrame p.hdr).expects p.hdr := by
  rw [startOfFrame, if_pos h]
  refine ⟨rfl, ?_, rfl⟩
  rw [h.2]
  rfl

theorem VbufSt.expects.copying {hdr : VbHdr} (h : g.expects hdr) : g.startBuf = .copy := h.2.2

@[simp] theorem VbufSt.startOfFrame_bufBase (hdr : VbHdr) :
    (g.startOfFrame hdr).bufBase = g.bufBase := by
  unfold startOfFrame
  split <;> rfl

@[simp] theorem VbufSt.startOfFrame_bufLen (hdr : VbHdr) :
    (g.startOfFrame hdr).bufLen = g.bufLen := by
  unfold startOfFrame
  split <;> rfl

@[simp] theorem VbufSt.startOfFrame_areadySemaphore (hdr : VbHdr) :
    (g.startOfFrame hdr).areadySemaphore = g.areadySemaphore := by
  unfold startOfFrame
  split <;> rfl

/-- What fits in the rest of the buffer does not make `frame_len` wrap. -/
theorem VbufSt.frameLen_add (h : g.frameLen.toNat ≤ g.bufLen.toNat) {n : UInt32}
    (hn : n ≤ g.leftLen) :
    (g.frameLen + n).toNat = g.frameLen.toNat + n.toNat ∧
      g.frameLen.toNat + n.toNat ≤ g.bufLen.toNat := by
  have hle : n.toNat ≤ (g.bufLen - g.frameLen).toNat := hn
  rw [UInt32.toNat_sub_of_le _ _ h] at hle
  have := g.bufLen.toNat_lt
  exact ⟨toNat_add_of_lt (by omega), by omega⟩

end Packets

section Steps

variable (s : Session)

/-- What the expected packet leaves of the driver's state. -/
def VbufSt.afterCopy (g : VbufSt) (mem : Space UInt8) (p : Packet) : VbufSt :=
  let f := (g.startOfFrame p.hdr).advance p.orgLen
  let mem := mem.store (g.startOfFrame p.hdr).bufPtr p.payload
  if p.hdr.isEof = 1 ∧ (checkImage mem f.bufBase f.frameLen).1 = true then f.complete else f

/-- The addresses examined after the expected packet. -/
def VbufSt.examined (g : VbufSt) (mem : Space UInt8) (p : Packet) : List UInt32 :=
  let f := (g.startOfFrame p.hdr).advance p.orgLen
  let mem := mem.store (g.startOfFrame p.hdr).bufPtr p.payload
  if p.hdr.isEof = 1 then (checkImage mem f.bufBase f.frameLen).2 else []

/-- All that an event can do. -/
inductive Move : Event → Session → Answer → Prop
  | opened {m e x} (hg : s.gVbuf = none) :
      Move (.openBuffer m e x) { s with gVbuf := some .opened } .none
  | openedBefore {m e x} : Move (.openBuffer m e x) s .none
  | refused {b l} : Move (.readFrame b l) s (.returned 0)
  | readFrame {g b l} (hg : s.gVbuf = some g) (hi : s.reader = .idle) (hb : b ≠ null)
      (hbase : g.bufBase = null) :
      Move (.readFrame b l)
        { s with gVbuf := some { g with areadySemaphore := 0 }, reader := .lending b l } .none
  | lend {g b l} (hg : s.gVbuf = some g) (hr : s.reader = .lending b l) :
      Move .lend
        { s with gVbuf := some { g with bufBase := b, bufLen := l }, reader := .blocked b l }
        .none
  | wake {g b l} (hg : s.gVbuf = some g) (hr : s.reader = .blocked b l)
      (hsem : g.areadySemaphore ≠ 0) :
      Move .wake
        { s with
          gVbuf := some { g with areadySemaphore := g.areadySemaphore - 1 }
          reader := .woken b l } .none
  | load {g b l} (hg : s.gVbuf = some g) (hr : s.reader = .woken b l) :
      Move .load { s with reader := .loaded b l g.frameLen } .none
  | giveBack {g b l n} (hg : s.gVbuf = some g) (hr : s.reader = .loaded b l n) :
      Move .giveBack
        { s with gVbuf := some { g with bufBase := null, bufLen := 0 }, reader := .idle }
        (.returned n)
  | passedOver {g p} (hg : s.gVbuf = some g)
      (h : g.bufBase = null ∨ p.len < UInt32.ofNat vbHdrSize ∨
        ¬ (g.startOfFrame p.hdr).expects p.hdr) :
      Move (.recv p) s (.accessed [] [])
  | full {g p} (hg : s.gVbuf = some g) (hb : g.bufBase ≠ null)
      (he : (g.startOfFrame p.hdr).expects p.hdr) :
      Move (.recv p)
        { s with
          gVbuf := some { g.startOfFrame p.hdr with startBuf := .full }
          taken := (s.kept g p).1
          copied := (s.kept g p).2 } (.accessed [] [])
  | copied {g p} (hg : s.gVbuf = some g) (hb : g.bufBase ≠ null)
      (hl : ¬ p.len < UInt32.ofNat vbHdrSize) (ht : g.takes p) :
      Move (.recv p)
        { s with
          gVbuf := some (g.afterCopy s.mem p)
          mem := s.mem.store (g.startOfFrame p.hdr).bufPtr p.payload
          taken := (s.kept g p).1 ++ [p]
          copied := (s.kept g p).2 ++
            Space.span (g.startOfFrame p.hdr).bufPtr p.orgLen.toNat }
        (.accessed (Space.span (g.startOfFrame p.hdr).bufPtr p.orgLen.toNat)
          (g.examined s.mem p))
  | outside {a x} (h : s.reader.lends a = false) :
      Move (.outside a x) { s with mem := s.mem.store a [x] } .none

variable {s}

theorem Session.kept_of_not {g : VbufSt} {p : Packet} (h : ¬ g.startsFrame p.hdr) :
    s.kept g p = (s.taken, s.copied) :=
  if_neg h

theorem copyPacket_takes {g : VbufSt} {p : Packet} (mem : Space UInt8) (ht : g.takes p) :
    copyPacket (g.startOfFrame p.hdr) mem p.data p.len =
      { vbuf := g.afterCopy mem p
        mem := mem.store (g.startOfFrame p.hdr).bufPtr p.payload
        ret := p.len
        written := Space.span (g.startOfFrame p.hdr).bufPtr p.orgLen.toNat
        examined := g.examined mem p } := by
  have hle : p.len - UInt32.ofNat vbHdrSize ≤ (g.startOfFrame p.hdr).leftLen := ht.2
  unfold copyPacket VbufSt.afterCopy VbufSt.examined
  simp only [if_pos hle]
  by_cases heof : p.hdr.isEof = 1
  · have heof' : (vbHdr p.data).isEof = 1 := heof
    simp only [heof, heof', if_true, true_and]
    rfl
  · have heof' : ¬ (vbHdr p.data).isEof = 1 := heof
    simp only [heof, heof', if_false, false_and]
    rfl

theorem recv_unused {g : VbufSt} {p : Packet} (hg : s.gVbuf = some g)
    (h : g.bufBase = null ∨ p.len < UInt32.ofNat vbHdrSize) :
    recvStep s g p = (s, .accessed [] []) := by
  have hsame : { s with gVbuf := some g } = s := by rw [← hg]
  have hrecv : videoBufferRecvVideoData g s.mem p.data =
      { vbuf := g, mem := s.mem, ret := p.len } := by
    unfold videoBufferRecvVideoData
    split
    next => rfl
    next hb => exact if_pos (h.resolve_left hb)
  simp only [recvStep, hrecv, if_pos h, hsame]

theorem recv_used {g : VbufSt} {p : Packet} (mem : Space UInt8)
    (h : ¬ (g.bufBase = null ∨ p.len < UInt32.ofNat vbHdrSize)) :
    videoBufferRecvVideoData g mem p.data =
      if (g.startOfFrame p.hdr).expects p.hdr then
        copyPacket (g.startOfFrame p.hdr) mem p.data p.len
      else { vbuf := g.startOfFrame p.hdr, mem := mem, ret := p.len } := by
  rw [videoBufferRecvVideoData, if_neg fun hb => h (.inl hb)]
  exact if_neg fun hl => h (.inr hl)

theorem Move.of_recvStep {g : VbufSt} (p : Packet) (hg : s.gVbuf = some g) :
    Move s (.recv p) (recvStep s g p).1 (recvStep s g p).2 := by
  have hsame : { s with gVbuf := some g } = s := by rw [← hg]
  by_cases hu : g.bufBase = null ∨ p.len < UInt32.ofNat vbHdrSize
  · rw [recv_unused hg hu]
    exact .passedOver hg (hu.imp_right .inl)
  rw [recvStep, recv_used s.mem hu]
  simp only [if_neg hu]
  by_cases he : (g.startOfFrame p.hdr).expects p.hdr
  · simp only [if_pos he]
    by_cases ht : g.takes p
    · rw [copyPacket_takes s.mem ht]
      simp only [if_pos ht]
      exact .copied hg (fun hb => hu (.inl hb)) (fun hl => hu (.inr hl)) ht
    · have hle : ¬ p.len - UInt32.ofNat vbHdrSize ≤ (g.startOfFrame p.hdr).leftLen :=
        fun h => ht ⟨he, h⟩
      simp only [if_neg ht, copyPacket, if_neg hle]
      exact .full hg (fun hb => hu (.inl hb)) he
  · have hs : ¬ g.startsFrame p.hdr := fun h => he h.expects
    have ht : ¬ g.takes p := fun h => he h.1
    have he' : ¬ g.expects p.hdr := by rwa [VbufSt.startOfFrame_of_not hs] at he
    simp only [VbufSt.startOfFrame_of_not hs, if_neg he', if_neg ht, Session.kept_of_not hs,
      hsame]
    exact .passedOver hg (.inr (.inr he))

theorem Move.of_step {e : Event} {t : Session} {o : Answer} (h : step s e = some (t, o)) :
    Move s e t o := by
  cases e with
  | openBuffer m e x =>
    simp only [step, Option.some.injEq, Prod.mk.injEq] at h
    obtain ⟨rfl, rfl⟩ := h
    cases hg : s.gVbuf with
    | none =>
      simp only [videoBufferOpen]
      have hsame : { s with gVbuf := none } = s := by rw [← hg]
      split
      · rw [hsame]; exact .openedBefore
      · split
        · rw [hsame]; exact .openedBefore
        · exact .opened hg
    | some g =>
      have hsame : { s with gVbuf := some g } = s := by rw [← hg]
      simp only [videoBufferOpen, hsame]
      exact .openedBefore
  | readFrame b l =>
    simp only [step] at h
    split at h
    next hi =>
      split at h
      next => cases h; exact .refused
      next hb =>
        split at h
        next => cases h; exact .refused
        next g hg =>
          split at h
          next hbase => cases h; exact .readFrame hg hi (fun hn => hb (.inl hn)) hbase
          next => cases h; exact .refused
    next => cases h
  | lend =>
    simp only [step] at h
    split at h
    next hr hg => cases h; exact .lend hg hr
    next => cases h
  | wake =>
    simp only [step] at h
    split at h
    next hr hg =>
      split at h
      next => cases h
      next hsem => cases h; exact .wake hg hr hsem
    next => cases h
  | load =>
    simp only [step] at h
    split at h
    next hr hg => cases h; exact .load hg hr
    next => cases h
  | giveBack =>
    simp only [step] at h
    split at h
    next hr hg => cases h; exact .giveBack hg hr
    next => cases h
  | recv p =>
    simp only [step] at h
    split at h
    next g hg => cases h; exact .of_recvStep p hg
    next => cases h
  | outside a x =>
    simp only [step] at h
    split at h
    next => cases h
    next ha => cases h; exact .outside (by simpa using ha)

end Steps

section Lending

@[simp] theorem VbufSt.afterCopy_bufBase (g : VbufSt) (mem : Space UInt8) (p : Packet) :
    (g.afterCopy mem p).bufBase = g.bufBase := by
  unfold afterCopy
  simp only
  split <;> simp [advance, complete]

@[simp] theorem VbufSt.afterCopy_bufLen (g : VbufSt) (mem : Space UInt8) (p : Packet) :
    (g.afterCopy mem p).bufLen = g.bufLen := by
  unfold afterCopy
  simp only
  split <;> simp [advance, complete]

/-- The driver holds a buffer exactly while a read call is pending, and it is that call's. -/
def Reader.Agrees (g : VbufSt) : Reader → Prop
  | .idle => g.bufBase = null
  | .lending b _ => g.bufBase = null ∧ g.areadySemaphore = 0 ∧ b ≠ null
  | .blocked b l | .woken b l | .loaded b l _ => g.bufBase = b ∧ g.bufLen = l ∧ b ≠ null

theorem Reader.Agrees.congr {r : Reader} {g g' : VbufSt} (h : r.Agrees g)
    (hbase : g'.bufBase = g.bufBase) (hlen : g'.bufLen = g.bufLen)
    (hsem : g.bufBase = null → g'.areadySemaphore = g.areadySemaphore) : r.Agrees g' := by
  cases r with
  | idle => exact hbase.trans h
  | lending b l => exact ⟨hbase.trans h.1, (hsem h.1).trans h.2.1, h.2.2⟩
  | blocked b l => exact ⟨hbase.trans h.1, hlen.trans h.2.1, h.2.2⟩
  | woken b l => exact ⟨hbase.trans h.1, hlen.trans h.2.1, h.2.2⟩
  | loaded b l n => exact ⟨hbase.trans h.1, hlen.trans h.2.1, h.2.2⟩

theorem Reader.Agrees.lent_eq {r : Reader} {g : VbufSt} (h : r.Agrees g)
    (hb : g.bufBase ≠ null) : r.lent = some (g.bufBase, g.bufLen) := by
  cases r with
  | idle => exact absurd h hb
  | lending b l => exact absurd h.1 hb
  | blocked b l => rw [h.1, h.2.1]; rfl
  | woken b l => rw [h.1, h.2.1]; rfl
  | loaded b l n => rw [h.1, h.2.1]; rfl

theorem Reader.Agrees.bufBase_ne {r : Reader} {g : VbufSt} {b l : UInt32} (h : r.Agrees g)
    (hr : r.lent = some (b, l)) : g.bufBase = b ∧ g.bufLen = l ∧ b ≠ null := by
  cases r with
  | idle | lending => cases hr
  | blocked | woken | loaded =>
    cases hr
    exact h

structure Session.Linked (s : Session) : Prop where
  closed : s.gVbuf = none → s.reader = .idle
  agrees : ∀ g, s.gVbuf = some g → s.reader.Agrees g

theorem Session.Linked.of_some {s : Session} {g : VbufSt} (hg : s.gVbuf = some g)
    (h : s.reader.Agrees g) : s.Linked where
  closed hn := by rw [hg] at hn; cases hn
  agrees g' hg' := by
    rw [hg] at hg'
    cases hg'
    exact h

theorem Session.Linked.move {s t : Session} {e : Event} {o : Answer} (hs : s.Linked)
    (h : Move s e t o) : t.Linked := by
  cases h with
  | opened hg =>
    refine .of_some rfl ?_
    rw [hs.closed hg]
    rfl
  | openedBefore => exact hs
  | refused => exact hs
  | readFrame hg hi hb hbase => exact .of_some rfl ⟨hbase, rfl, hb⟩
  | lend hg hr =>
    have ha := hs.agrees _ hg
    rw [hr] at ha
    exact .of_some rfl ⟨rfl, rfl, ha.2.2⟩
  | wake hg hr hsem =>
    have ha := hs.agrees _ hg
    rw [hr] at ha
    exact .of_some rfl ha
  | load hg hr =>
    have ha := hs.agrees _ hg
    rw [hr] at ha
    exact .of_some hg ha
  | giveBack hg hr => exact .of_some rfl rfl
  | passedOver => exact hs
  | full hg hb he =>
    refine .of_some rfl ((hs.agrees _ hg).congr ?_ ?_ ?_)
    · exact VbufSt.startOfFrame_bufBase _
    · exact VbufSt.startOfFrame_bufLen _
    · exact fun hn => absurd hn hb
  | copied hg hb hl ht =>
    refine .of_some rfl ((hs.agrees _ hg).congr ?_ ?_ ?_)
    · exact VbufSt.afterCopy_bufBase _ _ _
    · exact VbufSt.afterCopy_bufLen _ _ _
    · exact fun hn => absurd hn hb
  | outside => exact ⟨hs.closed, hs.agrees⟩

theorem linked {C : Session → Event → Prop} {mem : Space UInt8} {h s}
    (hr : (video mem).ReachesUnder C h s) : s.Linked :=
  hr.stateInvariant Session.Linked ⟨fun _ => rfl, fun _ hg => by cases hg⟩
    fun hs _ hstep => hs.move (.of_step hstep)

end Lending

end BdkRtt.Video
