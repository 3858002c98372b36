import BdkRtt.Video.Delivery

namespace BdkRtt.Video

open Lib

/-- The check of the finished frame `f` stays inside it: there are seven bytes, or the
comparison ends at one of the first two. -/
def Examinable (f : List UInt8) : Prop :=
  7 ≤ f.length ∨ (∃ b ∈ f[0]?, b ≠ 0xff) ∨ ∃ b ∈ f[1]?, b ≠ 0xd8

instance (f : List UInt8) : Decidable (Examinable f) :=
  inferInstanceAs (Decidable (_ ∨ _ ∨ _))

/-- The buffer about to be lent is the one the copy under way has filled so far. -/
def Reader.Resumes (g : VbufSt) : Reader → Prop
  | .lending b l => g.bufPtr = b + g.frameLen ∧ g.frameLen ≤ l
  | _ => True

instance (g : VbufSt) : ∀ r : Reader, Decidable (r.Resumes g)
  | .lending _ _ => inferInstanceAs (Decidable (_ ∧ _))
  | .idle | .blocked _ _ | .woken _ _ | .loaded _ _ _ => inferInstanceAs (Decidable True)

/-- Under this condition a buffer is lent while a copy is under way only where that copy
goes on in it, and an end-of-frame packet completes a frame the check stays inside. -/
def StaysInside (s : Session) : Event → Prop
  | .lend => ∀ g ∈ s.gVbuf, g.startBuf = .copy → s.reader.Resumes g
  | .recv p => ∀ g ∈ s.gVbuf, g.bufBase ≠ null → g.takes p → p.hdr.isEof = 1 →
      Examinable (s.mem.load g.bufBase (g.startOfFrame p.hdr).frameLen.toNat ++ p.payload)
  | _ => True

instance (s : Session) : ∀ e, Decidable (StaysInside s e)
  | .lend | .recv _ => inferInstanceAs (Decidable (∀ g ∈ s.gVbuf, _))
  | .openBuffer .. | .readFrame .. | .wake | .load | .giveBack | .outside .. =>
    inferInstanceAs (Decidable True)

section Check

variable {mem : Space UInt8} {base len : UInt32}

theorem mem_span_offset (p : UInt32) {i n : Nat} (h : i < n) :
    p + UInt32.ofNat i ∈ Space.span p n :=
  List.mem_map_of_mem (List.mem_range.mpr h)

theorem getElem?_load (mem : Space UInt8) (p : UInt32) {i n : Nat} {b : UInt8}
    (h : (mem.load p n)[i]? = some b) : i < n ∧ mem (p + UInt32.ofNat i) = b := by
  obtain ⟨hi, hb⟩ := List.getElem?_eq_some_iff.mp h
  rw [Space.length_load] at hi
  refine ⟨hi, ?_⟩
  rw [← hb]
  simp [Space.load, Space.span]

/-- All that the check can read. -/
theorem checkImage_reads {a : UInt32} (h : a ∈ (checkImage mem base len).2) :
    a = base ∨ a = base + 1 ∧ mem base = 0xff ∨
      (mem base = 0xff ∧ mem (base + 1) = 0xd8) ∧
        ∃ i : UInt32, i < 7 ∧ a = base + (len - 7) + i := by
  unfold checkImage at h
  simp only at h
  split at h
  · exact .inl (List.mem_singleton.mp h)
  split at h
  next h0 h1 =>
    rw [not_not] at h0
    rcases List.mem_pair.mp h with ha | ha
    · exact .inl ha
    · exact .inr (.inl ⟨ha, h0⟩)
  next h0 h1 =>
    rw [not_not] at h0 h1
    have hall : a ∈ [base, base + 1, base + (len - 7) + 0, base + (len - 7) + 1,
        base + (len - 7) + 3, base + (len - 7) + 3 + 1, base + (len - 7) + 3 + 2,
        base + (len - 7) + 3 + 3] := by
      rw [UInt32.add_zero]
      split at h
      · simp at h ⊢; tauto
      split at h
      · simp at h ⊢; tauto
      simpa using h
    simp only [List.mem_cons, List.not_mem_nil, or_false, UInt32.add_assoc _ 3] at hall
    rcases hall with ha | ha | ha | ha | ha | ha | ha | ha
    · exact .inl ha
    · exact .inr (.inl ⟨ha, h0⟩)
    all_goals exact .inr (.inr ⟨⟨h0, h1⟩, _, by decide, ha⟩)

theorem checkImage_examined (h : Examinable (mem.load base len.toNat)) :
    ∀ a ∈ (checkImage mem base len).2, a ∈ Space.span base len.toNat := by
  intro a ha
  have hfirst (hlen : 0 < len.toNat) : base ∈ Space.span base len.toNat := by
    simpa using mem_span_offset base hlen
  have hsecond (hlen : 1 < len.toNat) : base + 1 ∈ Space.span base len.toNat := by
    simpa using mem_span_offset base hlen
  rcases h with hlong | ⟨b, hb, hne⟩ | ⟨b, hb, hne⟩
  · rw [Space.length_load] at hlong
    rcases checkImage_reads ha with rfl | ⟨rfl, _⟩ | ⟨_, i, hi, rfl⟩
    · exact hfirst (by omega)
    · exact hsecond (by omega)
    · have hi' : i.toNat < 7 := hi
      have h7 : (len - 7).toNat = len.toNat - 7 := UInt32.toNat_sub_of_le _ _ hlong
      rw [Space.mem_span (Nat.le_of_lt len.toNat_lt),
        show base + (len - 7) + i - base = (len - 7) + i by grind, UInt32.toNat_add, h7]
      have := len.toNat_lt
      omega
  · obtain ⟨hlen, hmem⟩ := getElem?_load _ _ hb
    rw [show UInt32.ofNat 0 = 0 from rfl, UInt32.add_zero] at hmem
    rw [← hmem] at hne
    rcases checkImage_reads ha with rfl | ⟨_, hff⟩ | ⟨⟨hff, _⟩, _⟩
    · exact hfirst hlen
    · exact absurd hff hne
    · exact absurd hff hne
  · obtain ⟨hlen, hmem⟩ := getElem?_load _ _ hb
    rw [show UInt32.ofNat 1 = 1 from rfl] at hmem
    rw [← hmem] at hne
    rcases checkImage_reads ha with rfl | ⟨rfl, _⟩ | ⟨⟨_, hd8⟩, _⟩
    · exact hfirst (by omega)
    · exact hsecond hlen
    · exact absurd hd8 hne

end Check

/-- A copy under way fills the lent buffer from its start. -/
structure Placed (s : Session) (g : VbufSt) : Prop where
  copied : g.startBuf = .copy →
    s.copied = Space.span (g.bufPtr - g.frameLen) g.frameLen.toNat
  fits : g.startBuf = .copy → s.reader.lent.isSome = true →
    g.bufPtr = g.bufBase + g.frameLen ∧ g.frameLen.toNat ≤ g.bufLen.toNat

section Placing

variable {s : Session} {g : VbufSt} {p : Packet}

theorem Placed.of_not_copy (h : g.startBuf ≠ .copy) : Placed s g :=
  ⟨fun hc => absurd hc h, fun hc => absurd hc h⟩

/-- The copy fills the buffer up to `buf_ptr`, at the addresses `copied`. -/
structure Ready (g : VbufSt) (copied : List UInt32) : Prop where
  copied : copied = Space.span g.bufBase g.frameLen.toNat
  ptr : g.bufPtr = g.bufBase + g.frameLen
  fits : g.frameLen.toNat ≤ g.bufLen.toNat

theorem Ready.placed (h : Ready g s.copied) : Placed s g where
  copied _ := by rw [h.copied, h.ptr, UInt32.add_sub_cancel]
  fits _ _ := ⟨h.ptr, h.fits⟩

theorem Placed.ready (h : Placed s g) (hl : s.reader.Agrees g) (hb : g.bufBase ≠ null)
    (he : (g.startOfFrame p.hdr).expects p.hdr) :
    Ready (g.startOfFrame p.hdr) (s.kept g p).2 := by
  by_cases hs : g.startsFrame p.hdr
  · rw [Session.kept, VbufSt.startOfFrame, if_pos hs, if_pos hs]
    exact ⟨rfl, (UInt32.add_zero _).symm, Nat.zero_le _⟩
  · rw [VbufSt.startOfFrame_of_not hs] at he ⊢
    rw [Session.kept_of_not hs]
    have hlent : s.reader.lent.isSome = true := by rw [hl.lent_eq hb]; rfl
    obtain ⟨hptr, hfits⟩ := h.fits he.copying hlent
    refine ⟨?_, hptr, hfits⟩
    rw [h.copied he.copying, hptr, UInt32.add_sub_cancel]

theorem Ready.advance {c : List UInt32} (h : Ready g c) {n : UInt32} (hn : n ≤ g.leftLen) :
    Ready (g.advance n) (c ++ Space.span g.bufPtr n.toNat) := by
  obtain ⟨hadd, hle⟩ := VbufSt.frameLen_add h.fits hn
  constructor
  case copied =>
    simp only [VbufSt.advance]
    rw [hadd, Space.span_add, h.copied, h.ptr, UInt32.ofNat_toNat]
  case ptr =>
    simp only [VbufSt.advance]
    rw [h.ptr, UInt32.add_assoc]
  case fits =>
    simp only [VbufSt.advance]
    rwa [hadd]

theorem Placed.move {t : Session} {e : Event} {o : Answer}
    (hs : ∀ g, s.gVbuf = some g → Placed s g) (hl : s.Linked) (hk : StaysInside s e)
    (hm : Move s e t o) : ∀ g, t.gVbuf = some g → Placed t g := by
  intro g' hg'
  cases hm with
  | opened hg =>
    cases hg'
    exact .of_not_copy nofun
  | openedBefore | refused | passedOver => exact hs g' hg'
  | @readFrame g b l hg hi hb hbase =>
    cases hg'
    exact ⟨(hs g hg).copied, nofun⟩
  | @lend g b l hg hr =>
    cases hg'
    refine ⟨(hs g hg).copied, fun hc _ => ?_⟩
    have hlend := hk g hg
    rw [hr] at hlend
    exact hlend hc
  | @wake g b l hg hr hsem =>
    cases hg'
    exact ⟨(hs g hg).copied, fun hc _ => (hs g hg).fits hc (by rw [hr]; rfl)⟩
  | load hg hr => exact ⟨(hs g' hg').copied, fun hc _ => (hs g' hg').fits hc (by rw [hr]; rfl)⟩
  | @giveBack g b l n hg hr =>
    cases hg'
    exact ⟨(hs g hg).copied, nofun⟩
  | full hg hb he =>
    cases hg'
    exact .of_not_copy nofun
  | @copied g p hg hb hlen ht =>
    cases hg'
    have hr := ((hs g hg).ready (hl.agrees g hg) hb ht.1).advance ht.2
    unfold VbufSt.afterCopy
    simp only
    split
    next => exact .of_not_copy nofun
    next => exact hr.placed
  | outside => exact ⟨(hs g' hg').copied, (hs g' hg').fits⟩

end Placing

theorem placed {mem : Space UInt8} {h s} (hr : (video mem).ReachesUnder StaysInside h s) :
    ∀ g, s.gVbuf = some g → Placed s g := by
  induction hr with
  | init => exact nofun
  | step hr hk hstep ih => exact Placed.move ih (linked hr) hk (.of_step hstep)

/-- Every byte written lies in the buffer of the pending read call, and every byte examined
lies among those copied for the current frame. -/
theorem recvVideoData_inside (mem : Space UInt8) {h : Machine.History Event Answer}
    {s t : Session} {p : Packet} {written examined : List UInt32}
    (hr : (video mem).ReachesUnder StaysInside h s) (hk : StaysInside s (.recv p))
    (hstep : step s (.recv p) = some (t, .accessed written examined)) :
    (∀ a ∈ written, ∃ buf bufLen, s.reader.lent = some (buf, bufLen) ∧
      (a - buf).toNat < bufLen.toNat) ∧
    ∀ a ∈ examined, a ∈ t.copied := by
  have hl := linked hr
  have hs := placed hr
  cases Move.of_step hstep with
  | passedOver | full => exact ⟨nofun, nofun⟩
  | @copied g p hg hb hlen ht =>
    have hready := (hs g hg).ready (hl.agrees g hg) hb ht.1
    have hnext := hready.advance ht.2
    have hadd := VbufSt.frameLen_add hready.fits ht.2
    have hle := g.bufLen.toNat_lt
    simp only [VbufSt.startOfFrame_bufLen] at hadd
    constructor
    · intro a ha
      refine ⟨g.bufBase, g.bufLen, (hl.agrees g hg).lent_eq hb, ?_⟩
      have hmem := List.mem_append_right (s.kept g p).2 ha
      rw [hnext.copied, VbufSt.advance, VbufSt.startOfFrame_bufBase,
        Space.mem_span (Nat.le_of_lt (UInt32.toNat_lt _))] at hmem
      exact Nat.lt_of_lt_of_le hmem (by rw [hadd.1]; exact hadd.2)
    · intro a ha
      rw [hnext.copied]
      unfold VbufSt.examined at ha
      simp only at ha
      split at ha
      next heof =>
        refine checkImage_examined ?_ a ha
        have hptr : (g.startOfFrame p.hdr).bufPtr =
            g.bufBase + UInt32.ofNat (g.startOfFrame p.hdr).frameLen.toNat := by
          rw [UInt32.ofNat_toNat, hready.ptr, VbufSt.startOfFrame_bufBase]
        simp only [VbufSt.advance, VbufSt.startOfFrame_bufBase]
        rw [Packet.orgLen_toNat hlen] at hadd
        rw [hptr, hadd.1, Space.load_store_append _ _ (by omega)]
        exact hk g hg hb ht heof
      next => cases ha

theorem recvVideoData_inside_smallFrame :
    ∃ h s t examined, (video fun _ => 0).ReachesUnder StaysInside h s ∧
      step s (.recv smallFrame) = some (t, .accessed (Space.span 0x1000 9) examined) ∧
      ∀ a ∈ examined, a ∈ t.copied := by
  have hrun : ∃ h s t examined, (video fun _ => 0).exec
      [.openBuffer true true 0, .readFrame 0x1000 16, .lend] = some (h, s) ∧
      StaysInside s (.recv smallFrame) ∧
      step s (.recv smallFrame) = some (t, .accessed (Space.span 0x1000 9) examined) :=
    ⟨_, _, _, _, rfl, by decide, rfl⟩
  obtain ⟨h, s, t, examined, hx, hk, hstep⟩ := hrun
  have hreach := Machine.reachesUnder_of_exec (C := StaysInside) (by decide) hx
  exact ⟨h, s, t, examined, hreach, hstep, (recvVideoData_inside _ hreach hk hstep).2⟩

/-- A frame of four bytes: both markers and nothing else. -/
def shortFrame : Packet where
  frame := 0
  data := [1, 1, 1, 1, 0xff, 0xd8, 0xff, 0xd9]
  length_lt := by decide

theorem recvVideoData_reads_outside :
    ¬ ∀ (mem : Space UInt8) (h : Machine.History Event Answer) (s t : Session) (p : Packet)
      (written examined : List UInt32), (video mem).Reaches h s →
      step s (.recv p) = some (t, .accessed written examined) →
      (∀ a ∈ written, ∃ buf bufLen, s.reader.lent = some (buf, bufLen) ∧
        (a - buf).toNat < bufLen.toNat) ∧
      ∀ a ∈ examined, a ∈ t.copied := by
  intro hall
  have hrun : ∃ h s t, (video fun _ => 0).exec
      [.openBuffer true true 0, .readFrame 0x1000 16, .lend] = some (h, s) ∧
      step s (.recv shortFrame) =
        some (t, .accessed (Space.span 0x1000 4) [0x1000, 0x1001, 0xffd]) ∧
      t.copied = Space.span 0x1000 4 :=
    ⟨_, _, _, rfl, rfl, rfl⟩
  obtain ⟨h, s, t, hx, hstep, hcopied⟩ := hrun
  have hin := (hall _ h s t _ _ _ (Machine.reaches_of_exec hx) hstep).2 0xffd (by simp)
  rw [hcopied] at hin
  exact absurd hin (by decide)

end BdkRtt.Video
