import BdkRtt.Audio.RingBufferSteps

namespace BdkRtt.Audio

open Lib

section Spec

abbrev RbHistory := Machine.History RbEvent RbSeen

/-- The bytes that have been copied into the buffer. -/
def copied (h : RbHistory) : List UInt8 := h.flatMap fun x => x.2.copied

/-- The bytes that the reader has been given. -/
def delivered (h : RbHistory) : List UInt8 := h.flatMap fun x => x.2.delivered

/-- The bytes of a write that has been let through. -/
def begun : RbEvent × RbSeen → List UInt8
  | (.write buffer size count, seen) =>
    if seen.returned = none then buffer.read 0 (size * count).toNat else []
  | _ => []

def accepted (h : RbHistory) : List UInt8 := h.flatMap begun

/-- The reader has been given bytes that had been copied, in the order of the writes; and between
two writes the buffer holds the rest. -/
structure ReaderLaw (start : RbSt) (h : RbHistory) (s : RbRun) : Prop where
  fifo : delivered h <+: start.unread ++ copied h
  order : copied h <+: accepted h
  whole : s.writer = .idle → s.rb.Wf ∧ copied h = accepted h ∧
    start.unread ++ copied h = delivered h ++ s.rb.unread

/-- A write begins whose space test does not wrap, or a read does not come between the new `wp` and
the copy in front of it, or stays below the end. -/
def Undisturbed (s : RbRun) : RbEvent → Prop
  | .write _ size count => SumFits s.rb (size * count)
  | .read size count => ∀ buffer n r, s.writer = .copyHead buffer n r →
    (size * count).toNat ≤ s.rb.capacity.toNat - s.rb.rp.toNat
  | _ => True

end Spec

section Places

/-- There is room for the bytes between `wp` and `rp`, or the end. -/
structure Roomy (rb : RbSt) (n : UInt32) : Prop where
  wf : rb.Wf
  room : rb.unread.length + n.toNat + 4 ≤ rb.capacity.toNat
  fits : rb.wp.toNat + n.toNat ≤ rb.capacity.toNat

/-- There is room for the bytes when they go on at the start. -/
structure Around (rb : RbSt) (n r : UInt32) : Prop where
  wf : rb.Wf
  room : rb.unread.length + n.toNat + 4 ≤ rb.capacity.toNat
  above : rb.rp ≤ rb.wp
  rest : rb.wp.toNat + r.toNat = rb.capacity.toNat
  more : r < n

/-- The new `wp` is out, and what it counts in front of it is not there yet. -/
structure Published (rb : RbSt) (n r : UInt32) : Prop where
  wp_eq : rb.wp = n - r
  pos : 0 < rb.wp.toNat
  gap : rb.wp.toNat + 4 ≤ rb.rp.toNat
  rp_le : rb.rp.toNat ≤ rb.capacity.toNat

/-- All is copied, and `wp` may rest at the capacity. -/
structure Copied (rb : RbSt) : Prop where
  rp_le : rb.rp.toNat ≤ rb.capacity.toNat
  wp_le : rb.wp.toNat ≤ rb.capacity.toNat
  gap : rb.unread.length + 4 ≤ rb.capacity.toNat
  moved : rb.wp.toNat = rb.capacity.toNat → 0 < rb.rp.toNat

/-- At each place of the writer, the bytes that have been copied and not been read. -/
def WriterOk (rb : RbSt) (q : List UInt8) : RbWriter → Prop
  | .idle => rb.Wf ∧ q = rb.unread
  | .copy _ n => Roomy rb n ∧ q = rb.unread
  | .advance n => Roomy rb n ∧ q = rb.unread ++ rb.address.read rb.wp.toNat n.toNat
  | .copyTail _ n r => Around rb n r ∧ q = rb.unread
  | .wrap _ n r => Around rb n r ∧ q = rb.unread ++ rb.address.read rb.wp.toNat r.toNat
  | .copyHead _ n r =>
    Published rb n r ∧ q = rb.address.read rb.rp.toNat (rb.capacity.toNat - rb.rp.toNat)
  | .test _ => Copied rb ∧ q = rb.unread
  | .reset _ => Copied rb ∧ rb.wp = rb.capacity ∧ q = rb.unread

/-- The bytes of the write that are still to be copied. -/
def RbWriter.pending : RbWriter → List UInt8
  | .copy buffer n | .copyTail buffer n _ => buffer.read 0 n.toNat
  | .wrap buffer n r | .copyHead buffer n r => buffer.read r.toNat (n - r).toNat
  | .idle | .advance _ | .test _ | .reset _ => []

variable {rb : RbSt} {q : List UInt8} {n r : UInt32} {buffer : Mem UInt8}

/-- What a step makes of the bytes: those copied and not read, and those still to be copied. -/
structure Steps (q : List UInt8) (w : RbWriter) (x : RbEvent × RbSeen) (t : RbRun) : Prop where
  ok : ∃ q', WriterOk t.rb q' t.writer ∧ q ++ x.2.copied = x.2.delivered ++ q'
  pending : w.pending ++ begun x = x.2.copied ++ t.writer.pending

end Places

section Begin

variable {rb : RbSt} {n : UInt32} {buffer : Mem UInt8} {size count : UInt32}

theorem steps_refused (hw : rb.Wf) : Steps rb.unread .idle
    (.write buffer size count, { returned := some 0 }) ⟨rb, .idle⟩ :=
  ⟨⟨rb.unread, ⟨hw, rfl⟩, List.append_nil _⟩, rfl⟩

theorem steps_begun {w : RbWriter} (hok : WriterOk rb rb.unread w)
    (hpending : w.pending = buffer.read 0 (size * count).toNat) :
    Steps rb.unread .idle (.write buffer size count, {}) ⟨rb, w⟩ :=
  ⟨⟨rb.unread, hok, List.append_nil _⟩, hpending.symm⟩

/-- A request that passes the space test leaves the gap. -/
theorem room_of_space (hsum : SumFits rb n) (hw : rb.Wf) (h₀ : n ≠ 0)
    (hspace : (n + rwpSafeInterval).toNat ≤ rb.capacity.toNat - rb.unread.length) :
    rb.unread.length + n.toNat + 4 ≤ rb.capacity.toNat := by
  rcases hsum with h | h | h
  · exact absurd h h₀
  · rw [add_safeInterval_toNat (by omega)] at hspace
    omega
  · rw [rbGetFillSize_eq hw] at h
    omega

/-- A write that begins has room, or is turned down. -/
theorem begin_steps (hw : rb.Wf) (hsum : SumFits rb (size * count)) :
    Steps rb.unread .idle
      (.write buffer size count, (rbWriteBegin rb buffer size count).2)
      ⟨rb, (rbWriteBegin rb buffer size count).1⟩ := by
  have hwp := hw.wp_le
  have hremain : (rb.capacity - rb.wp).toNat = rb.capacity.toNat - rb.wp.toNat :=
    UInt32.toNat_sub_of_le _ _ hwp
  rw [rbWriteBegin]
  dsimp only
  by_cases h₀ : size * count = 0
  · rw [if_pos h₀]
    exact steps_refused hw
  · rw [if_neg h₀]
    by_cases habove : rb.rp ≤ rb.wp
    · rw [if_pos habove]
      by_cases hspace : rb.capacity - rb.wp + rb.rp ≥ size * count + rwpSafeInterval
      · rw [if_pos hspace]
        have hroom := room_of_space hsum hw h₀ (by
          rw [← remain_above_toNat hw habove]
          exact hspace)
        by_cases hfit : rb.capacity - rb.wp ≥ size * count
        · rw [if_pos hfit]
          have hfit' : (size * count).toNat ≤ (rb.capacity - rb.wp).toNat := hfit
          exact steps_begun ⟨⟨hw, hroom, by omega⟩, rfl⟩ rfl
        · rw [if_neg hfit]
          exact steps_begun ⟨⟨hw, hroom, habove, by omega, UInt32.not_le.mp hfit⟩, rfl⟩ rfl
      · rw [if_neg hspace]
        exact steps_refused hw
    · rw [if_neg habove]
      have hlt := UInt32.not_le.mp habove
      have hlen := unread_length_of_lt hlt
      have hrp := hw.rp_le
      by_cases hspace : rb.rp - rb.wp ≥ size * count + rwpSafeInterval
      · rw [if_pos hspace]
        have hroom := room_of_space hsum hw h₀ (by
          rw [← remain_below_toNat hw hlt]
          exact hspace)
        exact steps_begun ⟨⟨hw, hroom, by omega⟩, rfl⟩ rfl
      · rw [if_neg hspace]
        exact steps_refused hw

end Begin

section Go

variable {rb : RbSt} {q : List UInt8} {n r : UInt32} {buffer : Mem UInt8}

/-- The bytes behind `wp`, as far as a copy may go, are clear of the unread ones. -/
theorem Roomy.clear (h : Roomy rb n) : rb.rp ≤ rb.wp ∨ rb.wp.toNat + n.toNat + 4 ≤ rb.rp.toNat := by
  rcases UInt32.le_or_lt rb.rp rb.wp with hle | hlt
  · exact .inl hle
  · have hlen := unread_length_of_lt hlt
    have hroom := h.room
    have hrp := h.wf.rp_le
    omega

theorem unread_store {m : Mem UInt8} (xs : List UInt8) (hm : m = rb.address.write rb.wp.toNat xs)
    (h : rb.rp ≤ rb.wp ∨ rb.wp.toNat + xs.length ≤ rb.rp.toNat) :
    ({ rb with address := m } : RbSt).unread = rb.unread := by
  subst hm
  exact Mem.window_write_outside _ xs h

theorem wf_store {m : Mem UInt8} (hw : rb.Wf)
    (h : ({ rb with address := m } : RbSt).unread = rb.unread) :
    ({ rb with address := m } : RbSt).Wf :=
  ⟨hw.rp_le, hw.wp_lt, by rw [h]; exact hw.gap⟩

theorem go_copy (h : Roomy rb n) : Steps rb.unread (.copy buffer n)
    (.go, { copied := buffer.read 0 n.toNat })
    ⟨{ rb with address := rb.address.write rb.wp.toNat (buffer.read 0 n.toNat) }, .advance n⟩ := by
  have hunread := unread_store (buffer.read 0 n.toNat) rfl (h.clear.imp id fun hlt => by
    rw [Mem.length_read]
    omega)
  have hcopied := Mem.read_write_self rb.address rb.wp.toNat (buffer.read 0 n.toNat)
  rw [Mem.length_read] at hcopied
  refine ⟨⟨_, ⟨⟨wf_store h.wf hunread, ?_, h.fits⟩, rfl⟩, ?_⟩, rfl⟩
  · rw [hunread]
    exact h.room
  · rw [hunread]
    exact congrArg _ hcopied.symm

theorem go_advance (h : Roomy rb n) :
    Steps (rb.unread ++ rb.address.read rb.wp.toNat n.toNat) (.advance n) (.go, {})
      ⟨{ rb with wp := rb.wp + n }, .test n⟩ := by
  have hcap := rb.capacity.toNat_lt
  have hfits := h.fits
  have hadd : (rb.wp + n).toNat = rb.wp.toNat + n.toNat := toNat_add_of_lt (by omega)
  have hunread : ({ rb with wp := rb.wp + n } : RbSt).unread =
      rb.unread ++ rb.address.read rb.wp.toNat n.toNat := by
    rw [RbSt.unread, hadd]
    exact Mem.window_extend _
      (h.clear.imp id fun hlt => show rb.wp.toNat + n.toNat < rb.rp.toNat by omega)
  have hroom := h.room
  refine ⟨⟨_, ⟨⟨h.wf.rp_le, ?_, ?_, ?_⟩, rfl⟩, ?_⟩, rfl⟩
  · change (rb.wp + n).toNat ≤ rb.capacity.toNat
    omega
  · rw [hunread, List.length_append, Mem.length_read]
    change _ ≤ rb.capacity.toNat
    omega
  · intro hend
    change (rb.wp + n).toNat = rb.capacity.toNat at hend
    change 0 < rb.rp.toNat
    rcases h.clear with hle | hlt
    · rw [unread_length_of_le hle] at hroom
      omega
    · omega
  · rw [hunread]
    exact List.append_nil _

theorem go_copyTail (h : Around rb n r) : Steps rb.unread (.copyTail buffer n r)
    (.go, { copied := buffer.read 0 r.toNat })
    ⟨{ rb with address := rb.address.write rb.wp.toNat (buffer.read 0 r.toNat) },
      .wrap buffer n r⟩ := by
  have hunread := unread_store (buffer.read 0 r.toNat) rfl (.inl h.above)
  have hcopied := Mem.read_write_self rb.address rb.wp.toNat (buffer.read 0 r.toNat)
  rw [Mem.length_read] at hcopied
  refine ⟨⟨_, ⟨⟨wf_store h.wf hunread, ?_, h.above, h.rest, h.more⟩, rfl⟩, ?_⟩, ?_⟩
  · rw [hunread]
    exact h.room
  · rw [hunread]
    exact congrArg _ hcopied.symm
  · exact (List.append_nil _).trans (read_split buffer (UInt32.le_of_lt h.more))

theorem go_wrap (h : Around rb n r) :
    Steps (rb.unread ++ rb.address.read rb.wp.toNat r.toNat) (.wrap buffer n r) (.go, {})
      ⟨{ rb with wp := n - r }, .copyHead buffer n r⟩ := by
  have hmore : r.toNat < n.toNat := h.more
  have hsub : (n - r).toNat = n.toNat - r.toNat :=
    UInt32.toNat_sub_of_le _ _ (UInt32.le_of_lt h.more)
  have habove : rb.rp.toNat ≤ rb.wp.toNat := h.above
  have hrest := h.rest
  have hroom := h.room
  rw [unread_length_of_le h.above] at hroom
  refine ⟨⟨_, ⟨⟨rfl, ?_, ?_, h.wf.rp_le⟩, rfl⟩, ?_⟩, List.append_nil _⟩
  · change 0 < (n - r).toNat
    omega
  · change (n - r).toNat + 4 ≤ rb.rp.toNat
    omega
  · obtain ⟨d, hd⟩ := Nat.exists_eq_add_of_le habove
    have hlen : rb.capacity.toNat - rb.rp.toNat = d + r.toNat := by omega
    rw [RbSt.unread, Mem.window_of_le _ habove, hlen, Mem.read_add, hd, Nat.add_sub_cancel_left]
    exact List.append_nil _

theorem go_copyHead (h : Published rb n r) :
    Steps (rb.address.read rb.rp.toNat (rb.capacity.toNat - rb.rp.toNat)) (.copyHead buffer n r)
      (.go, { copied := buffer.read r.toNat rb.wp.toNat })
      ⟨{ rb with address := rb.address.write 0 (buffer.read r.toNat rb.wp.toNat) }, .test n⟩ := by
  have hgap := h.gap
  have hrp := h.rp_le
  have hlt : rb.wp.toNat < rb.rp.toNat := by omega
  have hhead := Mem.read_write_self rb.address 0 (buffer.read r.toNat rb.wp.toNat)
  rw [Mem.length_read] at hhead
  have hunread : ({ rb with
      address := rb.address.write 0 (buffer.read r.toNat rb.wp.toNat) } : RbSt).unread =
      rb.address.read rb.rp.toNat (rb.capacity.toNat - rb.rp.toNat) ++
        buffer.read r.toNat rb.wp.toNat := by
    rw [RbSt.unread, Mem.window_of_lt _ hlt, hhead, Mem.read_write_of_ge]
    rw [Mem.length_read]
    omega
  refine ⟨⟨_, ⟨⟨hrp, ?_, ?_, ?_⟩, rfl⟩, hunread.symm⟩, ?_⟩
  · change rb.wp.toNat ≤ rb.capacity.toNat
    omega
  · rw [hunread, List.length_append, Mem.length_read, Mem.length_read]
    change _ ≤ rb.capacity.toNat
    omega
  · intro _
    change 0 < rb.rp.toNat
    omega
  · rw [h.wp_eq]
    rfl

theorem go_test {t : RbSt} {w : RbWriter} {seen : RbSeen} (h : Copied rb)
    (hgo : rbWriteGo rb (.test n) = some (t, w, seen)) :
    Steps rb.unread (.test n) (.go, seen) ⟨t, w⟩ := by
  rw [rbWriteGo] at hgo
  split at hgo
  next hend =>
    cases hgo
    have hwp : rb.wp = rb.capacity := UInt32.le_antisymm h.wp_le hend.1
    exact ⟨⟨_, ⟨h, hwp, rfl⟩, List.append_nil _⟩, rfl⟩
  next hend =>
    cases hgo
    refine ⟨⟨_, ⟨⟨h.rp_le, .inl ?_, .inl h.gap⟩, rfl⟩, List.append_nil _⟩, rfl⟩
    refine Nat.lt_of_le_of_ne h.wp_le fun hwp => hend ⟨Nat.le_of_eq hwp.symm, fun h₀ => ?_⟩
    have hpos := h.moved hwp
    rw [h₀] at hpos
    exact Nat.lt_irrefl 0 hpos

/-- A `wp` at the capacity and one at 0 say the same, once the reader has begun. -/
theorem go_reset (h : Copied rb) (hwp : rb.wp = rb.capacity) :
    Steps rb.unread (.reset n) (.go, { returned := some n }) ⟨{ rb with wp := 0 }, .idle⟩ := by
  have hunread : ({ rb with wp := 0 } : RbSt).unread = rb.unread := by
    rw [RbSt.unread, RbSt.unread, hwp]
    exact (Mem.window_cap (h.moved (congrArg UInt32.toNat hwp)) h.rp_le).symm
  refine ⟨⟨_, ⟨⟨h.rp_le, .inr rfl, .inl ?_⟩, rfl⟩, ?_⟩, rfl⟩
  · rw [hunread]
    exact h.gap
  · rw [hunread]
    exact List.append_nil _

theorem go_steps {t : RbSt} {w w' : RbWriter} {seen : RbSeen} (h : WriterOk rb q w)
    (hgo : rbWriteGo rb w = some (t, w', seen)) : Steps q w (.go, seen) ⟨t, w'⟩ := by
  cases w with
  | idle => cases hgo
  | copy buffer n =>
    obtain ⟨hroomy, rfl⟩ := h
    cases hgo
    exact go_copy hroomy
  | advance n =>
    obtain ⟨hroomy, rfl⟩ := h
    cases hgo
    exact go_advance hroomy
  | copyTail buffer n r =>
    obtain ⟨haround, rfl⟩ := h
    cases hgo
    exact go_copyTail haround
  | wrap buffer n r =>
    obtain ⟨haround, rfl⟩ := h
    cases hgo
    exact go_wrap haround
  | copyHead buffer n r =>
    obtain ⟨hpublished, rfl⟩ := h
    cases hgo
    exact go_copyHead hpublished
  | test n =>
    obtain ⟨hcopied, rfl⟩ := h
    exact go_test hcopied hgo
  | reset n =>
    obtain ⟨hcopied, hwp, rfl⟩ := h
    cases hgo
    exact go_reset hcopied hwp

end Go

section Read

variable {rb : RbSt} {q : List UInt8} {n : UInt32} {w : RbWriter} {size count : UInt32}

theorem WriterOk.rp_le (h : WriterOk rb q w) : rb.rp.toNat ≤ rb.capacity.toNat := by
  cases w with
  | idle => exact h.1.rp_le
  | copy buffer n => exact h.1.wf.rp_le
  | advance n => exact h.1.wf.rp_le
  | copyTail buffer n r => exact h.1.wf.rp_le
  | wrap buffer n r => exact h.1.wf.rp_le
  | copyHead buffer n r => exact h.1.rp_le
  | test n => exact h.1.rp_le
  | reset n => exact h.1.rp_le

theorem WriterOk.wp_le (h : WriterOk rb q w) : rb.wp.toNat ≤ rb.capacity.toNat := by
  cases w with
  | idle => exact h.1.wp_le
  | copy buffer n => exact h.1.wf.wp_le
  | advance n => exact h.1.wf.wp_le
  | copyTail buffer n r => exact h.1.wf.wp_le
  | wrap buffer n r => exact h.1.wf.wp_le
  | copyHead buffer n r => exact Nat.le_trans (by have := h.1.gap; omega) h.1.rp_le
  | test n => exact h.1.wp_le
  | reset n => exact h.1.wp_le

/-- The buffer behind a read that has moved `rp`, with the bytes it took. -/
structure Moved (rb : RbSt) (rp : UInt32) (bytes : List UInt8) : Prop where
  rp_le : rp.toNat ≤ rb.capacity.toNat
  ahead : rb.rp ≤ rb.wp → rb.rp ≤ rp ∧ rp ≤ rb.wp
  unread : rb.unread = bytes ++ ({ rb with rp := rp } : RbSt).unread
  wf : rb.Wf → ({ rb with rp := rp } : RbSt).Wf

theorem moved_read (size count : UInt32) (hrp : rb.rp.toNat ≤ rb.capacity.toNat)
    (hwp : rb.wp.toNat ≤ rb.capacity.toNat) :
    ∃ rp, (rbRead rb size count).1 = { rb with rp := rp } ∧
      Moved rb rp (rbRead rb size count).2.bytes := by
  have htakes := rbRead_takes size count hrp hwp
  refine ⟨_, htakes.same, htakes.rp_le, htakes.ahead, ?_, fun hw => htakes.same ▸ htakes.wf hw⟩
  rw [← htakes.same, htakes.bytes, htakes.unread, List.take_append_drop]

variable {rp : UInt32} {bytes : List UInt8}

theorem Moved.length_le (h : Moved rb rp bytes) :
    ({ rb with rp := rp } : RbSt).unread.length ≤ rb.unread.length := by
  rw [h.unread, List.length_append]
  exact Nat.le_add_left ..

theorem Roomy.afterRead (h : Roomy rb n) (hm : Moved rb rp bytes) : Roomy { rb with rp := rp } n :=
  ⟨hm.wf h.wf, Nat.le_trans (by have := hm.length_le; omega) h.room, h.fits⟩

theorem Around.afterRead {r : UInt32} (h : Around rb n r) (hm : Moved rb rp bytes) :
    Around { rb with rp := rp } n r :=
  ⟨hm.wf h.wf, Nat.le_trans (by have := hm.length_le; omega) h.room, (hm.ahead h.above).2, h.rest,
    h.more⟩

theorem Copied.afterRead (h : Copied rb) (hm : Moved rb rp bytes) :
    Copied { rb with rp := rp } := by
  refine ⟨hm.rp_le, h.wp_le, Nat.le_trans (by have := hm.length_le; omega) h.gap, fun hend => ?_⟩
  have hle : rb.rp ≤ rb.wp := by
    rw [UInt32.le_iff_toNat_le]
    exact hend ▸ h.rp_le
  exact Nat.lt_of_lt_of_le (h.moved hend) (hm.ahead hle).1

/-- At each place but one, the reader takes bytes that are there. -/
theorem WriterOk.afterRead (hw : WriterOk rb q w) (hhead : ¬ ∃ buffer n r, w = .copyHead buffer n r)
    (hm : Moved rb rp bytes) : ∃ q', WriterOk { rb with rp := rp } q' w ∧ q = bytes ++ q' := by
  cases w with
  | idle =>
    obtain ⟨hwf, rfl⟩ := hw
    exact ⟨_, ⟨hm.wf hwf, rfl⟩, hm.unread⟩
  | copy buffer n =>
    obtain ⟨hroomy, rfl⟩ := hw
    exact ⟨_, ⟨hroomy.afterRead hm, rfl⟩, hm.unread⟩
  | advance n =>
    obtain ⟨hroomy, rfl⟩ := hw
    refine ⟨_, ⟨hroomy.afterRead hm, rfl⟩, ?_⟩
    rw [hm.unread, List.append_assoc]
  | copyTail buffer n r =>
    obtain ⟨haround, rfl⟩ := hw
    exact ⟨_, ⟨haround.afterRead hm, rfl⟩, hm.unread⟩
  | wrap buffer n r =>
    obtain ⟨haround, rfl⟩ := hw
    refine ⟨_, ⟨haround.afterRead hm, rfl⟩, ?_⟩
    rw [hm.unread, List.append_assoc]
  | copyHead buffer n r => exact absurd ⟨buffer, n, r, rfl⟩ hhead
  | test n =>
    obtain ⟨hcopied, rfl⟩ := hw
    exact ⟨_, ⟨hcopied.afterRead hm, rfl⟩, hm.unread⟩
  | reset n =>
    obtain ⟨hcopied, hwp, rfl⟩ := hw
    exact ⟨_, ⟨hcopied.afterRead hm, hwp, rfl⟩, hm.unread⟩

/-- Behind the new `wp`, a read that stays below the end takes bytes that are there. -/
theorem Published.read {r : UInt32} (h : Published rb n r)
    (hfit : (size * count).toNat ≤ rb.capacity.toNat - rb.rp.toNat) :
    ∃ rp, (rbRead rb size count).1 = { rb with rp := rp } ∧
      Published { rb with rp := rp } n r ∧
      rb.address.read rb.rp.toNat (rb.capacity.toNat - rb.rp.toNat) =
        (rbRead rb size count).2.bytes ++
          rb.address.read rp.toNat (rb.capacity.toNat - rp.toNat) := by
  by_cases h₀ : size * count = 0
  · have hnone : rbRead rb size count = (rb, ⟨[], 0⟩) := if_pos h₀
    rw [hnone]
    exact ⟨rb.rp, rfl, h, rfl⟩
  · have hcap := rb.capacity.toNat_lt
    have hgap := h.gap
    have hrp := h.rp_le
    have hlt : ¬ rb.rp ≤ rb.wp := by
      rw [UInt32.le_iff_toNat_le]
      omega
    have hremain : ¬ size * count > rb.capacity - rb.rp := by
      rw [gt_iff_lt, UInt32.lt_iff_toNat_lt, UInt32.toNat_sub_of_le _ _ hrp]
      omega
    have htail : rbRead rb size count = ({ rb with rp := rb.rp + size * count },
        ⟨rb.address.read rb.rp.toNat (size * count).toNat, size * count⟩) := by
      rw [rbRead]
      dsimp only
      rw [if_neg h₀, if_neg hlt, if_neg hremain]
    have hadd : (rb.rp + size * count).toNat = rb.rp.toNat + (size * count).toNat :=
      toNat_add_of_lt (by omega)
    rw [htail]
    refine ⟨_, rfl, ⟨h.wp_eq, h.pos, ?_, ?_⟩, ?_⟩
    · change rb.wp.toNat + 4 ≤ (rb.rp + size * count).toNat
      omega
    · change (rb.rp + size * count).toNat ≤ rb.capacity.toNat
      omega
    · obtain ⟨d, hd⟩ := Nat.exists_eq_add_of_le hfit
      have hrest : rb.capacity.toNat - (rb.rp.toNat + (size * count).toNat) = d := by omega
      rw [hd, hadd, hrest, Mem.read_add]

theorem read_steps (hw : WriterOk rb q w) (hquiet : Undisturbed ⟨rb, w⟩ (.read size count)) :
    Steps q w (.read size count,
        { delivered := (rbRead rb size count).2.bytes
          returned := some (rbRead rb size count).2.ret })
      ⟨(rbRead rb size count).1, w⟩ := by
  by_cases hhead : ∃ buffer n r, w = .copyHead buffer n r
  · obtain ⟨buffer, n, r, rfl⟩ := hhead
    obtain ⟨hpublished, rfl⟩ := hw
    obtain ⟨rp, hrb, hpublished', hbytes⟩ := hpublished.read (hquiet buffer n r rfl)
    rw [hrb]
    exact ⟨⟨_, ⟨hpublished', rfl⟩, (List.append_nil _).trans hbytes⟩, List.append_nil _⟩
  · obtain ⟨rp, hrb, hm⟩ := moved_read size count hw.rp_le hw.wp_le
    obtain ⟨q', hw', hq'⟩ := hw.afterRead hhead hm
    rw [hrb]
    exact ⟨⟨q', hw', (List.append_nil _).trans hq'⟩, List.append_nil _⟩

/-- A read that goes on beyond the end before the copy there delivers more than there is. -/
theorem read_disturbed {buffer : Mem UInt8} {r : UInt32} (hw : WriterOk rb q (.copyHead buffer n r))
    (hmore : rb.capacity.toNat - rb.rp.toNat < (size * count).toNat) :
    q.length < (rbRead rb size count).2.bytes.length := by
  obtain ⟨hpublished, rfl⟩ := hw
  have hgap := hpublished.gap
  have hpos := hpublished.pos
  have hlt : rb.wp < rb.rp := by
    rw [UInt32.lt_iff_toNat_lt]
    omega
  have hwp : rb.wp.toNat ≤ rb.capacity.toNat := Nat.le_trans (by omega) hpublished.rp_le
  rw [(rbRead_takes size count hpublished.rp_le hwp).bytes, List.length_take,
    unread_length_of_lt hlt, Mem.length_read]
  omega

end Read

section Run

variable {start : RbSt} {h : RbHistory} {s t : RbRun} {e : RbEvent} {o : RbSeen} {q : List UInt8}

theorem copied_concat (h : RbHistory) (x : RbEvent × RbSeen) :
    copied (h ++ [x]) = copied h ++ x.2.copied := by
  rw [copied, List.flatMap_append, List.flatMap_singleton, ← copied]

theorem delivered_concat (h : RbHistory) (x : RbEvent × RbSeen) :
    delivered (h ++ [x]) = delivered h ++ x.2.delivered := by
  rw [delivered, List.flatMap_append, List.flatMap_singleton, ← delivered]

theorem accepted_concat (h : RbHistory) (x : RbEvent × RbSeen) :
    accepted (h ++ [x]) = accepted h ++ begun x := by
  rw [accepted, List.flatMap_append, List.flatMap_singleton, ← accepted]

theorem run_steps (hw : WriterOk s.rb q s.writer) (hquiet : Undisturbed s e)
    (hstep : s.step e = some (t, o)) : Steps q s.writer (e, o) t := by
  obtain ⟨rb, w⟩ := s
  cases e with
  | write buffer size count =>
    cases w with
    | idle =>
      obtain ⟨hwf, rfl⟩ := hw
      cases hstep
      exact begin_steps hwf hquiet
    | _ => cases hstep
  | go =>
    obtain ⟨⟨rb', w', seen⟩, hgo, hr⟩ := Option.map_eq_some_iff.mp hstep
    cases hr
    exact go_steps hw hgo
  | read size count =>
    cases hstep
    exact read_steps hw hquiet
  | getFillSize =>
    cases hstep
    exact ⟨⟨q, hw, List.append_nil _⟩, List.append_nil _⟩

/-- What holds of the bytes all along. -/
structure RunOk (start : RbSt) (h : RbHistory) (s : RbRun) : Prop where
  ok : ∃ q, WriterOk s.rb q s.writer ∧ start.unread ++ copied h = delivered h ++ q
  pending : accepted h = copied h ++ s.writer.pending

theorem RunOk.step (hok : RunOk start h s) (hquiet : Undisturbed s e)
    (hstep : s.step e = some (t, o)) : RunOk start (h ++ [(e, o)]) t := by
  obtain ⟨q, hw, hq⟩ := hok.ok
  obtain ⟨⟨q', hw', hq'⟩, hpending⟩ := run_steps hw hquiet hstep
  refine ⟨⟨q', hw', ?_⟩, ?_⟩
  · rw [copied_concat, delivered_concat, ← List.append_assoc, hq, List.append_assoc, hq',
      List.append_assoc]
  · rw [accepted_concat, copied_concat, hok.pending, List.append_assoc, hpending,
      List.append_assoc]

theorem RunOk.law (hok : RunOk start h s) : ReaderLaw start h s := by
  obtain ⟨q, hw, hq⟩ := hok.ok
  refine ⟨⟨q, hq.symm⟩, ⟨_, hok.pending.symm⟩, fun hidle => ?_⟩
  have hpending := hok.pending
  rw [hidle] at hw hpending
  obtain ⟨hwf, rfl⟩ := hw
  exact ⟨hwf, ((List.append_nil _).symm.trans hpending.symm), hq⟩

theorem runOk_of_reaches (hstart : start.Wf)
    (hr : (preempted start).ReachesUnder Undisturbed h s) : RunOk start h s := by
  have hinit : WriterOk start start.unread .idle := ⟨hstart, rfl⟩
  exact hr.invariant (RunOk start) ⟨⟨start.unread, hinit, List.append_nil _⟩, rfl⟩
    fun hok hquiet hstep => hok.step hquiet hstep

/-- A read that comes between the new `wp` and the copy in front of it, and goes on beyond the end,
is given bytes that no write has copied. -/
theorem RunOk.broken (hok : RunOk start h s) {size count : UInt32}
    (hstep : s.step (.read size count) = some (t, o))
    (hloud : ¬ Undisturbed s (.read size count)) :
    ¬ ReaderLaw start (h ++ [(.read size count, o)]) t := by
  intro hlaw
  obtain ⟨q, hw, hq⟩ := hok.ok
  simp only [Undisturbed, not_forall, Nat.not_le] at hloud
  obtain ⟨buffer, n, r, hat, hmore⟩ := hloud
  cases hstep
  rw [hat] at hw
  have hlong := read_disturbed hw hmore
  have hle := hlaw.fifo.length_le
  rw [copied_concat, delivered_concat, ← List.append_assoc, hq, List.length_append,
    List.length_append, List.length_append] at hle
  simp only [List.length_nil] at hle
  omega

end Run

variable {addr : Mem UInt8} {capacity : UInt32} {calls : Machine.History RbCall RbAnswer}
  {start : RbSt} {h : RbHistory} {s : RbRun}

/-- From every buffer that calls have left, in every run in which no read comes between the new `wp`
and the copy in front of it and goes on beyond the end there, the reader is given what had been
copied, in order; and such a read breaks it. -/
theorem preempted_write_fifo (hstart : (ringBuffer addr capacity).ReachesUnder SumsFit calls start)
    (hr : (preempted start).ReachesUnder Undisturbed h s) :
    ReaderLaw start h s ∧ ∀ size count t o, s.step (.read size count) = some (t, o) →
      (ReaderLaw start (h ++ [(.read size count, o)]) t ↔ Undisturbed s (.read size count)) := by
  have hok := runOk_of_reaches (wf_of_sumsFit hstart) hr
  refine ⟨hok.law, fun size count t o hstep => ⟨fun hlaw => ?_, fun hquiet => ?_⟩⟩
  · by_contra hloud
    exact hok.broken hstep hloud hlaw
  · exact (hok.step hquiet hstep).law

theorem preempted_write_fifo_around :
    let start := (rbRead (rbWrite (rbInit (fun _ => 0) 16) (fun _ => 7) 1 12).1 1 12).1
    ∃ h s, (copied h).length = 4 ∧ ReaderLaw start h s := by
  intro start
  have hcalls : (ringBuffer (fun _ => 0) 16).exec [.write (fun _ => 7) 1 12, .read 1 12] =
      some (_, start) := rfl
  have hrun : ((preempted start).exec [.write (fun _ => 7) 1 6, .go, .go]).map
      (fun r => (copied r.1).length) = some 4 := by decide
  obtain ⟨⟨h, s⟩, hx, hcopied⟩ := Option.map_eq_some_iff.mp hrun
  have hfits : SumFits (rbInit (fun _ => 0) 16) 12 := .inr (.inl (by decide))
  have hfits' : SumFits start 6 := .inr (.inl (by decide))
  obtain ⟨calls, hstart⟩ :
      ∃ calls, (ringBuffer (fun _ => 0) 16).ReachesUnder SumsFit calls start := by
    refine ⟨_, Machine.reachesUnder_of_exec ?_ hcalls⟩
    exact ⟨hfits, fun _ _ => ⟨trivial, fun _ _ => trivial⟩⟩
  have hr : (preempted start).ReachesUnder Undisturbed h s := by
    refine Machine.reachesUnder_of_exec ?_ hx
    exact ⟨hfits', fun _ _ => ⟨trivial, fun _ _ => ⟨trivial, fun _ _ => trivial⟩⟩⟩
  exact ⟨h, s, hcopied, (preempted_write_fifo hstart hr).1⟩

/-- In a buffer of 16 bytes whose pointers are both at 12, a read of 6 bytes between the new `wp`
and the second copy of a write of 6 bytes is given 4 bytes of it and 2 old ones. -/
theorem write_publishes_early : ¬ ∀ (addr : Mem UInt8) (capacity : UInt32)
    (calls : Machine.History RbCall RbAnswer) (start : RbSt) (h : RbHistory) (s : RbRun),
    (ringBuffer addr capacity).Reaches calls start → (preempted start).Reaches h s →
    ReaderLaw start h s := by
  intro hall
  let start := (rbRead (rbWrite (rbInit (fun _ => 0) 16) (fun _ => 7) 1 12).1 1 12).1
  have hcalls : (ringBuffer (fun _ => 0) 16).exec [.write (fun _ => 7) 1 12, .read 1 12] =
      some (_, start) := rfl
  have hrun : ((preempted start).exec [.write (fun _ => 7) 1 6, .go, .go, .read 1 6]).map
      (fun r => ((delivered r.1).length, (copied r.1).length)) = some (6, 4) := by decide
  obtain ⟨⟨h, s⟩, hx, hlengths⟩ := Option.map_eq_some_iff.mp hrun
  obtain ⟨hdelivered, hcopied⟩ := Prod.mk.inj hlengths
  have hunread : start.unread = [] := rfl
  have hlaw := hall (fun _ => 0) 16 _ start h s (Machine.reaches_of_exec hcalls)
    (Machine.reaches_of_exec hx)
  have hle := hlaw.fifo.length_le
  rw [hdelivered, hunread, List.nil_append, hcopied] at hle
  exact absurd hle (by decide)

end BdkRtt.Audio
