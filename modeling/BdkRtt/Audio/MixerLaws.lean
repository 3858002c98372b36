import BdkRtt.Audio.Mixer
import BdkRtt.Audio.MixerSourceLaws

namespace BdkRtt.Audio.Mixer

open Lib

section List

variable {list : MusicSrcList Nat Nat}

/-- The list holds the buffers in the order of their numbers, and each byte is known by its
buffer's. -/
structure Queued (list : MusicSrcList Nat Nat) : Prop where
  unread : Unread list
  tagged : ∀ c ∈ pending list, ∀ n ∈ c.2, n = c.1
  ordered : (pending list).owners.Pairwise (· < ·)

theorem queued_nil : Queued [] := ⟨nofun, nofun, .nil⟩

theorem Queued.taken (h : Queued list) {n : Nat} {r : GotData Nat Nat} (hr : Takes n list r) :
    Queued r.list where
  unread := hr.unread
  tagged c hc m hm := by
    rw [hr.left] at hc
    obtain ⟨d, hd, howner, hsuffix⟩ := Chunks.mem_pop hc
    rw [howner]
    exact h.tagged d hd m (hsuffix.subset hm)
  ordered := by
    have howners := (pending list).owners_pop n
    rw [hr.left]
    exact (List.pairwise_append.mp (howners ▸ h.ordered)).2.1

theorem Queued.concat (h : Queued list) {n : Nat} {len : UInt32} (hlen : len ≠ 0)
    (hlt : ∀ m ∈ (pending list).owners, m < n) : Queued (list ++ [(dataBuf n len).node]) := by
  have hpending := pending_node list (dataBuf n len)
  refine ⟨h.unread.concat ?_, ?_, ?_⟩
  · intro h0
    have hzero : len.toNat = 0 := by
      rw [← List.length_replicate (n := len.toNat) (a := n), ← List.length_nil (α := Nat)]
      exact congrArg List.length h0
    exact hlen (UInt32.toNat_inj.mp hzero)
  · rw [hpending]
    intro c hc m hm
    rcases List.mem_append.mp hc with hc | hc
    · exact h.tagged c hc m hm
    · obtain rfl := List.mem_singleton.mp hc
      exact List.eq_of_mem_replicate hm
  · rw [hpending, Chunks.owners_append, List.pairwise_append]
    refine ⟨h.ordered, List.pairwise_singleton .., fun m hm k hk => ?_⟩
    obtain rfl : k = n := List.mem_singleton.mp hk
    exact hlt m hm

/-- Nothing in the list is older than its first node. -/
theorem Queued.le_of_mem (h : Queued list) {k m : Nat} (hk : ∀ node ∈ list.head?, k ≤ node.buf)
    (hm : m ∈ (pending list).elems) : k ≤ m := by
  obtain ⟨c, hc, hmc⟩ := List.mem_flatMap.mp hm
  rw [h.tagged c hc m hmc]
  have howner : c.1 ∈ (pending list).owners := List.mem_map_of_mem hc
  have hordered := h.ordered
  cases list with
  | nil => exact absurd hc List.not_mem_nil
  | cons node list =>
    have hfirst := hk node rfl
    rw [pending_cons, Chunks.owners_cons] at howner hordered
    rcases List.mem_cons.mp howner with heq | hrest
    · exact heq ▸ hfirst
    · exact Nat.le_of_lt (Nat.lt_of_le_of_lt hfirst ((List.pairwise_cons.mp hordered).1 _ hrest))

/-- A byte of the first node is among the first that are read. -/
theorem Queued.head_mem (h : Queued list) {node : MusicSrcNode Nat Nat}
    (hnode : node ∈ list.head?) {n : Nat} (hn : 0 < n) :
    node.buf ∈ (pending list).elems.take n := by
  cases list with
  | nil => cases hnode
  | cons first list =>
    obtain rfl : first = node := by simpa using hnode
    have hpos := rest_pos (h.unread first List.mem_cons_self)
    rw [pending_cons, Chunks.elems_cons]
    cases hrest : first.rest with
    | nil =>
      rw [hrest] at hpos
      exact absurd hpos (Nat.lt_irrefl 0)
    | cons m xs =>
      have hm : m = first.buf :=
        h.tagged (first.buf, first.rest) List.mem_cons_self m (hrest ▸ List.mem_cons_self)
      obtain ⟨n, rfl⟩ := Nat.exists_eq_succ_of_ne_zero (Nat.pos_iff_ne_zero.mp hn)
      rw [hm]
      exact List.mem_cons_self

end List

section Reading

theorem half_toNat (a : UInt32) : (a >>> 1).toNat = a.toNat / 2 := by
  simp [Nat.shiftRight_eq_div_pow]

/-- The microphone gives no more than it is asked for. -/
theorem mixerSoundRead_le (size : UInt32) (mic : List UInt32) {readBytes : UInt32}
    (h : readBytes.toNat ≤ size.toNat) :
    (mixerSoundRead size mic readBytes).toNat ≤ size.toNat := by
  induction mic generalizing readBytes with
  | nil => exact h
  | cons r mic ih =>
    rw [mixerSoundRead]
    split
    case isFalse => exact h
    case isTrue hlt =>
      dsimp only
      split
      case isTrue => exact h
      case isFalse =>
        have hsub : (size - readBytes).toNat = size.toNat - readBytes.toNat :=
          UInt32.toNat_sub_of_le _ _ (UInt32.le_of_lt hlt)
        have hrb : (min r (size - readBytes)).toNat ≤ size.toNat - readBytes.toNat := by
          rw [toNat_min, hsub]
          exact Nat.min_le_right _ _
        have hlt := UInt32.toNat_lt size
        exact ih (by rw [toNat_add_of_lt (by omega)]; omega)

end Reading

section Stock

variable {s : State}

/-- Every block of the pool is free or with the DAC, and every `DATA` buffer is given back or in
the list, in both cases once. -/
structure Stocked (s : State) : Prop where
  queued : Queued s.musicSrcList
  blocks : (s.mp ++ s.dacBufs).Perm (List.range mpBlockCount)
  buffers : (s.freedData ++ s.musicSrcList.map MusicSrcNode.buf).Perm (List.range s.dataCount)

theorem stocked_init : Stocked mixerDeviceOpen := ⟨queued_nil, .refl _, .refl _⟩

theorem Stocked.flush (h : Stocked s) : Stocked s.flush where
  queued := queued_nil
  blocks := h.blocks
  buffers := by
    rw [State.flush, mixerMusicSrcFlush, List.map_nil, List.append_nil]
    exact h.buffers

theorem Stocked.owner_lt (h : Stocked s) {n : Nat} (hn : n ∈ (pending s.musicSrcList).owners) :
    n < s.dataCount := by
  rw [owners_pending] at hn
  exact List.mem_range.mp (h.buffers.subset (List.mem_append_right _ hn))

theorem Stocked.data (h : Stocked s) (len : UInt32) (malloc : Bool) :
    Stocked (s.receive (.data len malloc)) := by
  have hrefused : Stocked { s with
      freedData := s.freedData ++ [s.dataCount], dataCount := s.dataCount + 1 } := by
    refine ⟨h.queued, h.blocks, ?_⟩
    rw [List.range_succ, List.append_assoc]
    refine List.Perm.trans (List.Perm.append_left _ List.perm_append_comm) ?_
    rw [← List.append_assoc]
    exact h.buffers.append_right _
  have hlength : (dataBuf s.dataCount len).data.length = len.toNat := List.length_replicate ..
  rw [State.receive, mixerMusicSrcIn, hlength]
  split
  case isTrue => exact hrefused
  case isFalse hlen =>
    split
    case isTrue => exact hrefused
    case isFalse =>
      have hne : len ≠ 0 := fun h0 => hlen (.inl (h0 ▸ rfl))
      refine ⟨h.queued.concat hne fun _ => h.owner_lt, h.blocks, ?_⟩
      rw [List.append_nil, List.map_append, List.range_succ, ← List.append_assoc]
      exact h.buffers.append_right _

theorem Stocked.receive (h : Stocked s) (msg : Msg) : Stocked (s.receive msg) := by
  cases msg with
  | audioSrcFlow =>
    rw [State.receive]
    split <;> exact ⟨h.queued, h.blocks, h.buffers⟩
  | audioSrcStatic =>
    rw [State.receive]
    split
    · exact ⟨h.queued, h.blocks, h.buffers⟩
    · exact Stocked.flush ⟨h.queued, h.blocks, h.buffers⟩
  | audioSetSampleRate rate =>
    rw [State.receive]
    split
    · exact ⟨h.queued, h.blocks, h.buffers⟩
    · split <;> exact ⟨h.queued, h.blocks, h.buffers⟩
  | pauseMixer =>
    rw [State.receive]
    refine Stocked.flush ?_
    split <;> exact ⟨h.queued, h.blocks, h.buffers⟩
  | replayMixer => exact ⟨h.queued, h.blocks, h.buffers⟩
  | data len malloc => exact h.data len malloc

theorem Stocked.single (h : Stocked s) (mic : List UInt32) (wr : UInt32) :
    Stocked (s.singleAcoustics mic wr) := by
  rw [State.singleAcoustics]
  split
  case h_1 => exact h
  case h_2 exchangeBuf mp hmp =>
    have hblocks := h.blocks
    rw [hmp, List.cons_append] at hblocks
    dsimp only
    split
    · exact h
    · split
      · exact h
      · refine ⟨h.queued, List.Perm.trans ?_ hblocks, h.buffers⟩
        rw [← List.append_assoc]
        exact List.perm_append_singleton _ _

end Stock

section Mux

variable {s : State} {mic : List UInt32} {wr : UInt32} {r : State × Played}

/-- The number of bytes that the microphone gives in the round. -/
def State.micBytes (s : State) (mic : List UInt32) : Nat :=
  (mixerSoundRead (s.expectedLen >>> 1) mic 0).toNat

/-- The round mixes: there are two blocks, and there is music. -/
def State.Mixes (s : State) : Prop :=
  s.isThdPause = false ∧ s.isMuxSrc = true ∧ 2 ≤ s.mp.length ∧ s.expectedLen ≠ 0

instance (s : State) : Decidable s.Mixes := inferInstanceAs (Decidable (_ ∧ _))

/-- What a round of the mux does with the two blocks and with what it takes from the list. -/
inductive MuxRound (s : State) (mic : List UInt32) (wr : UInt32) : State × Played → Prop
  | idle {mp} (hmp : mp.Perm s.mp) (hout : ¬(2 ≤ s.mp.length ∧ s.expectedLen ≠ 0)) :
    MuxRound s mic wr ({ s with mp }, [])
  | refused {outside inside mp got} (hmp : s.mp = outside :: inside :: mp)
      (hlen : s.expectedLen ≠ 0) (hgot : Takes (s.micBytes mic * 2) s.musicSrcList got)
      (hwr : wr.toNat < s.micBytes mic * 2) :
    MuxRound s mic wr
      ({ s with
        musicSrcList := got.list
        freedData := s.freedData ++ got.freed
        mp := inside :: outside :: mp }, [])
  | taken {outside inside mp got} (hmp : s.mp = outside :: inside :: mp)
      (hlen : s.expectedLen ≠ 0) (hgot : Takes (s.micBytes mic * 2) s.musicSrcList got)
      (hwr : s.micBytes mic * 2 ≤ wr.toNat) :
    MuxRound s mic wr
      ({ s with
        musicSrcList := got.list
        freedData := s.freedData ++ got.freed
        mp := outside :: mp
        dacBufs := if s.micBytes mic = 0 then s.dacBufs else s.dacBufs ++ [inside] }, got.copied)

theorem rtDeviceWrite_eq (wr size : UInt32) :
    rtDeviceWrite wr size = size ↔ size.toNat ≤ wr.toNat := by
  rw [rtDeviceWrite, ← UInt32.toNat_inj, toNat_min]
  omega

theorem expectedLen_le (s : State) : s.expectedLen.toNat ≤ 1024 := by
  rw [State.expectedLen, toNat_min]
  exact Nat.min_le_right _ _

theorem micBytes_le (s : State) (mic : List UInt32) :
    s.micBytes mic ≤ s.expectedLen.toNat / 2 := by
  rw [← half_toNat]
  exact mixerSoundRead_le _ mic (Nat.zero_le _)

theorem muxAcoustics_round (hr : s.muxAcoustics mic wr = some r)
    (h : Unread s.musicSrcList) : MuxRound s mic wr r := by
  rw [State.muxAcoustics] at hr
  split at hr
  case h_1 outside inside mp hmp =>
    have hcount : 2 ≤ s.mp.length := by
      rw [hmp]
      exact Nat.le_add_left 2 _
    dsimp only at hr
    split at hr
    case isTrue hlen =>
      obtain rfl := Option.some.inj hr
      refine .idle ?_ fun hout => hout.2 hlen
      rw [hmp]
      exact .swap ..
    case isFalse hlen =>
      have hle := micBytes_le s mic
      have hexp := expectedLen_le s
      have hread : (mixerSoundRead (s.expectedLen >>> 1) mic 0 * 2).toNat = s.micBytes mic * 2 :=
        toNat_mul_of_lt (by
          change s.micBytes mic * 2 < _
          omega)
      have hgot := mixerMusicSrcGetData_takes h true
        (mixerSoundRead (s.expectedLen >>> 1) mic 0 * 2)
      rw [if_pos rfl, hread] at hgot
      split at hr
      case isTrue => cases hr
      case isFalse =>
        split at hr
        case isTrue => cases hr
        case isFalse heq =>
          rw [Decidable.not_not] at heq
          rw [heq] at hr
          simp only [ne_eq, rtDeviceWrite_eq, hread] at hr
          split at hr
          case isTrue hlt =>
            obtain rfl := Option.some.inj hr
            exact .refused hmp hlen hgot (Nat.lt_of_not_le hlt)
          case isFalse hge =>
            obtain rfl := Option.some.inj hr
            have hzero : mixerSoundRead (s.expectedLen >>> 1) mic 0 * 2 = 0 ↔
                s.micBytes mic = 0 := by
              rw [← UInt32.toNat_inj, hread, UInt32.toNat_zero]
              omega
            simp only [hzero]
            exact .taken hmp hlen hgot (Decidable.not_not.mp hge)
  case h_2 hmp =>
    obtain rfl := Option.some.inj hr
    refine .idle (.refl _) fun hout => ?_
    have hcount := hout.1
    rcases hs : s.mp with _ | ⟨outside, _ | ⟨inside, mp⟩⟩
    · rw [hs] at hcount
      exact absurd hcount (Nat.not_succ_le_zero 1)
    · rw [hs] at hcount
      exact absurd hcount (Nat.not_succ_le_self 1)
    · exact hmp outside inside mp hs

/-- What is taken from the list is given back or still in it. -/
theorem Takes.bufs {n : Nat} {list : MusicSrcList Nat Nat} {got : GotData Nat Nat}
    (h : Takes n list got) :
    got.freed ++ got.list.map MusicSrcNode.buf = list.map MusicSrcNode.buf := by
  rw [← owners_pending, ← owners_pending, h.left, h.freed, Chunks.owners_pop]

theorem Stocked.mux (h : Stocked s) (hr : MuxRound s mic wr r)
    (hmic : 2 ≤ s.mp.length ∧ s.expectedLen ≠ 0 → s.micBytes mic ≠ 0) : Stocked r.1 := by
  cases hr with
  | idle hmp => exact ⟨h.queued, (hmp.append_right _).trans h.blocks, h.buffers⟩
  | @refused outside inside mp got hmp hlen hgot =>
    refine ⟨h.queued.taken hgot, ?_, ?_⟩
    · refine List.Perm.trans (List.Perm.append_right _ (.swap outside inside mp)) ?_
      exact hmp ▸ h.blocks
    · rw [List.append_assoc, hgot.bufs]
      exact h.buffers
  | @taken outside inside mp got hmp hlen hgot =>
    have hcount : 2 ≤ s.mp.length := by
      rw [hmp]
      exact Nat.le_add_left 2 _
    refine ⟨h.queued.taken hgot, ?_, ?_⟩
    · change (outside :: mp ++ if _ then _ else _).Perm _
      rw [if_neg (hmic ⟨hcount, hlen⟩)]
      have hblocks := h.blocks
      rw [hmp] at hblocks
      refine List.Perm.trans ?_ hblocks
      -- the inside block moves from the head of the free blocks to the end of the DAC's
      rw [List.cons_append, List.cons_append, List.cons_append, ← List.append_assoc]
      exact (List.perm_append_singleton ..).cons outside
    · rw [List.append_assoc, hgot.bufs]
      exact h.buffers

/-- Music older than the mark is played exactly when the oldest node is. -/
theorem fresh_iff (h : Stocked s) (hr : MuxRound s mic wr r)
    (hmix : 2 ≤ s.mp.length ∧ s.expectedLen ≠ 0) (hmic : s.micBytes mic ≠ 0) (mark : Nat) :
    (∀ n ∈ r.2, mark ≤ n) ↔
      (s.micBytes mic * 2 ≤ wr.toNat → ∀ node ∈ s.musicSrcList.head?, mark ≤ node.buf) := by
  cases hr with
  | idle _ hout => exact absurd hmix hout
  | refused _ _ _ hwr => exact ⟨fun _ hle => absurd hle (Nat.not_le_of_lt hwr), fun _ => nofun⟩
  | @taken _ _ _ got _ _ hgot hwr =>
    change (∀ n ∈ got.copied, mark ≤ n) ↔ _
    rw [hgot.copied]
    constructor
    · intro hplayed _ node hnode
      exact hplayed _ (h.queued.head_mem hnode (Nat.mul_pos (Nat.pos_of_ne_zero hmic) (by decide)))
    · intro hhead n hn
      exact h.queued.le_of_mem (hhead hwr) (List.mem_of_mem_take hn)

theorem round_flags (hr : s.round mic wr = some r) (h : Unread s.musicSrcList) :
    r.1.isMuxSrc = s.isMuxSrc ∧ r.1.isThdPause = s.isThdPause := by
  rw [State.round] at hr
  split at hr
  · obtain rfl := Option.some.inj hr
    exact ⟨rfl, rfl⟩
  · split at hr
    · cases muxAcoustics_round hr h <;> exact ⟨rfl, rfl⟩
    · obtain rfl := Option.some.inj hr
      rw [State.singleAcoustics]
      split
      · exact ⟨rfl, rfl⟩
      · dsimp only
        split
        · exact ⟨rfl, rfl⟩
        · split <;> exact ⟨rfl, rfl⟩

theorem MuxRound.played_nil (hr : MuxRound s mic wr r)
    (hout : ¬(2 ≤ s.mp.length ∧ s.expectedLen ≠ 0)) : r.2 = [] := by
  cases hr with
  | idle => rfl
  | refused hmp hlen | taken hmp hlen =>
    refine absurd ⟨?_, hlen⟩ hout
    rw [hmp]
    exact Nat.le_add_left 2 _

theorem round_cases (hr : s.round mic wr = some r) (h : Stocked s) :
    (¬ s.Mixes ∧ r.2 = [] ∧ Stocked r.1) ∨
      (s.isThdPause = false ∧ s.isMuxSrc = true ∧ MuxRound s mic wr r) := by
  rw [State.round] at hr
  split at hr
  case isTrue hpause =>
    obtain rfl := Option.some.inj hr
    exact .inl ⟨fun hmix => Bool.false_ne_true (hmix.1.symm.trans hpause), rfl, h⟩
  case isFalse hpause =>
    split at hr
    case isTrue hmux =>
      exact .inr ⟨Bool.eq_false_iff.mpr hpause, hmux, muxAcoustics_round hr h.queued.unread⟩
    case isFalse hmux =>
      obtain rfl := Option.some.inj hr
      exact .inl ⟨fun hmix => hmux hmix.2.1, rfl, h.single mic wr⟩

/-- The round neither mixes without a byte from the microphone nor plays music from before the
mark. -/
def RoundClean (s : State) (mark : Nat) (mic : List UInt32) (wr : UInt32) : Prop :=
  s.Mixes → s.micBytes mic ≠ 0 ∧
    (s.micBytes mic * 2 ≤ wr.toNat → ∀ node ∈ s.musicSrcList.head?, mark ≤ node.buf)

instance (s : State) (mark : Nat) (mic : List UInt32) (wr : UInt32) :
    Decidable (RoundClean s mark mic wr) :=
  inferInstanceAs (Decidable (_ → _))

theorem round_clean {mark : Nat} (hr : s.round mic wr = some r) (h : Stocked s)
    (hclean : RoundClean s mark mic wr) : Stocked r.1 ∧ ∀ n ∈ r.2, mark ≤ n := by
  rcases round_cases hr h with ⟨-, hnil, hstocked⟩ | ⟨hpause, hmux, hround⟩
  · exact ⟨hstocked, hnil ▸ nofun⟩
  · refine ⟨h.mux hround fun hmix => (hclean ⟨hpause, hmux, hmix⟩).1, ?_⟩
    by_cases hmix : 2 ≤ s.mp.length ∧ s.expectedLen ≠ 0
    · obtain ⟨hmic, hhead⟩ := hclean ⟨hpause, hmux, hmix⟩
      exact (fresh_iff h hround hmix hmic mark).mpr hhead
    · exact hround.played_nil hmix ▸ nofun

end Mux

section Run

variable {w : Watched}

/-- What the mixer is to keep to: no block and no buffer is lost or given back twice, music from
before the last `PAUSE` or `STATIC` is not played, and the mode is the one asked for last. -/
structure MixerLaw (h : Machine.History Event Answer) (w : Watched) : Prop where
  blocks : (w.mixer.mp ++ w.mixer.dacBufs).Perm (List.range mpBlockCount)
  buffers : (w.mixer.freedData ++ w.mixer.musicSrcList.map MusicSrcNode.buf).Perm
    (List.range w.mixer.dataCount)
  fresh : ∀ x ∈ h, ∀ n ∈ x.2.played, x.2.mark ≤ n
  mode : w.mixer.isThdPause = false → w.mixer.isMuxSrc = w.lastFlow

/-- A `REPLAY` finds that the last of `FLOW` and `STATIC` is of the kind of the last that came
while the mixer was playing, and the round is clean. -/
def Clean (w : Watched) : Event → Prop
  | .turn msg mic wr =>
    (msg = some .replayMixer → w.lastFlowPlaying = w.lastFlow) ∧
      let w := msg.elim w w.hear
      RoundClean w.mixer w.mark mic wr
  | .dacDone => True

instance : ∀ w e, Decidable (Clean w e)
  | _, .turn .. => inferInstanceAs (Decidable (_ ∧ _))
  | _, .dacDone => inferInstanceAs (Decidable True)

/-- The mode of the mixer is the one asked for last while it was playing. -/
structure Sound (w : Watched) : Prop where
  stocked : Stocked w.mixer
  mux : w.mixer.isMuxSrc = w.lastFlowPlaying
  mode : w.mixer.isThdPause = false → w.lastFlowPlaying = w.lastFlow

theorem hear_mixer (w : Watched) (msg : Msg) : (w.hear msg).mixer = w.mixer.receive msg := by
  cases msg <;> rfl

theorem receive_isThdPause (s : State) (msg : Msg) :
    (s.receive msg).isThdPause =
      if msg = .pauseMixer then true else if msg = .replayMixer then false else s.isThdPause := by
  cases msg with
  | audioSetSampleRate =>
    rw [State.receive]
    split
    · rfl
    · split <;> rfl
  | audioSrcFlow | audioSrcStatic =>
    rw [State.receive]
    split <;> rfl
  | pauseMixer =>
    simp only [State.receive, State.flush]
    split <;> rfl
  | replayMixer | data => rfl

theorem hear_isMuxSrc (w : Watched) (h : w.mixer.isMuxSrc = w.lastFlowPlaying) (msg : Msg) :
    (w.hear msg).mixer.isMuxSrc = (w.hear msg).lastFlowPlaying := by
  cases msg with
  | audioSrcFlow | audioSrcStatic =>
    simp only [Watched.hear, State.receive, State.flush]
    split
    · exact h
    · rfl
  | audioSetSampleRate =>
    simp only [Watched.hear, State.receive]
    split
    · exact h
    · split <;> exact h
  | pauseMixer =>
    simp only [Watched.hear, State.receive, State.flush]
    split <;> exact h
  | replayMixer | data => exact h

theorem Sound.hear (h : Sound w) {msg : Msg}
    (hreplay : msg = .replayMixer → w.lastFlowPlaying = w.lastFlow) : Sound (w.hear msg) := by
  refine ⟨hear_mixer w msg ▸ h.stocked.receive msg, hear_isMuxSrc w h.mux msg, ?_⟩
  rw [hear_mixer, receive_isThdPause]
  intro hplaying
  cases msg with
  | audioSrcFlow | audioSrcStatic =>
    change w.mixer.isThdPause = false at hplaying
    simp [Watched.hear, hplaying]
  | pauseMixer => cases hplaying
  | replayMixer => exact hreplay rfl
  | audioSetSampleRate | data => exact h.mode hplaying

/-- A clean turn keeps the mixer sound, and plays only what it may. -/
theorem Sound.step (h : Sound w) {e t o} (hclean : Clean w e) (hs : w.step e = some (t, o)) :
    Sound t ∧ ∀ n ∈ o.played, o.mark ≤ n := by
  cases e with
  | turn msg mic wr =>
    obtain ⟨hreplay, hround⟩ := hclean
    have hheard : Sound (msg.elim w w.hear) := by
      cases msg with
      | none => exact h
      | some msg => exact h.hear fun hmsg => hreplay (congrArg some hmsg)
    obtain ⟨r, hr, heq⟩ := Option.map_eq_some_iff.mp hs
    obtain ⟨rfl, rfl⟩ := Prod.mk.inj heq
    obtain ⟨hstocked, hfresh⟩ := round_clean hr hheard.stocked hround
    obtain ⟨hmux, hpause⟩ := round_flags hr hheard.stocked.queued.unread
    exact ⟨⟨hstocked, hmux.trans hheard.mux, fun hp => hheard.mode (hpause.symm.trans hp)⟩, hfresh⟩
  | dacDone =>
    rw [Watched.step] at hs
    split at hs
    case h_1 => cases hs
    case h_2 b dacBufs hbufs =>
      obtain ⟨rfl, rfl⟩ := Prod.mk.inj (Option.some.inj hs)
      have hblocks := h.stocked.blocks
      rw [hbufs] at hblocks
      exact ⟨⟨⟨h.stocked.queued, List.perm_middle.symm.trans hblocks, h.stocked.buffers⟩, h.mux,
        h.mode⟩, nofun⟩

theorem sound_of_reaches {h} (hr : mixerEntry.ReachesUnder Clean h w) :
    Sound w ∧ ∀ x ∈ h, ∀ n ∈ x.2.played, x.2.mark ≤ n := by
  refine hr.invariant (fun h w => Sound w ∧ ∀ x ∈ h, ∀ n ∈ x.2.played, x.2.mark ≤ n)
    ⟨⟨stocked_init, rfl, fun _ => rfl⟩, nofun⟩ ?_
  intro h w e t o ih hclean hs
  obtain ⟨hsound, hplayed⟩ := ih.1.step hclean hs
  refine ⟨hsound, fun x hx => ?_⟩
  rcases List.mem_append.mp hx with hx | hx
  · exact ih.2 x hx
  · exact List.mem_singleton.mp hx ▸ hplayed

theorem law_of_reaches {h} (hr : mixerEntry.ReachesUnder Clean h w) : MixerLaw h w := by
  obtain ⟨hsound, hfresh⟩ := sound_of_reaches hr
  exact ⟨hsound.stocked.blocks, hsound.stocked.buffers, hfresh,
    fun hplaying => hsound.mux.trans (hsound.mode hplaying)⟩

end Run

end BdkRtt.Audio.Mixer
