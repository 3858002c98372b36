import BdkRtt.Audio.SdlyMixer

namespace BdkRtt.Audio

open Lib

/-- `op_ptr` points into `fifo[0..sample_len]`, and that is inside `fifo`. -/
def SdelaySt.Inside (st : SdelaySt) : Prop :=
  st.opPtr ≤ st.sampleLen ∧ st.sampleLen < sdlyMaxFifoSize

section Setters

variable {e : SdelayEntity}

theorem sdlyConfig_inside (freq : UInt32) : (sdlyConfig freq e).Inside := by
  have h8k : 8000 * 180 / 1000 < sdlyMaxFifoSize := by decide
  have hother : 44100 * 180 / 1000 < sdlyMaxFifoSize := by decide
  unfold sdlyConfig
  split
  · exact ⟨Nat.le_refl _, h8k⟩
  · exact ⟨Nat.le_refl _, hother⟩

/-- A length that is cut off at a size. -/
theorem clamp_lt {len size : Nat} (hpos : 0 < size) (hsize : size ≤ sdlyMaxFifoSize) :
    (if len ≥ size then size - 1 else len) < sdlyMaxFifoSize := by
  split <;> omega

theorem sdlyChangeSampleTimeByadc_inside (h : e.Inside) (time : UInt32) :
    (sdlyChangeSampleTimeByadc time e).Inside := by
  have hsize : 0 < (if e.audioFreq = 8000 then sdlyMaxFifoSize8k else sdlyMaxFifoSize) ∧
      (if e.audioFreq = 8000 then sdlyMaxFifoSize8k else sdlyMaxFifoSize) ≤ sdlyMaxFifoSize := by
    split <;> decide
  simp only [sdlyChangeSampleTimeByadc]
  split
  · exact h
  · exact ⟨Nat.le_refl _, clamp_lt hsize.1 hsize.2⟩

theorem sdlySetSampleVol_inside (h : e.Inside) (vol : UInt8) : (sdlySetSampleVol vol e).Inside := by
  simp only [sdlySetSampleVol]
  split
  · exact h
  · exact ⟨Nat.le_refl _, clamp_lt (by decide) (Nat.le_refl _)⟩

theorem sdlyStartPlay_inside {st : SdelaySt} (h : st.Inside) : (sdlyStartPlay st).Inside :=
  ⟨Nat.le_refl _, h.2⟩

end Setters

section Loops

variable {st : SdelaySt}

theorem storeSample_inside (h : st.Inside) (mix : Int32) :
    (storeSample st mix).Inside ∧ (storeSample st mix).sampleLen = st.sampleLen := by
  obtain ⟨hptr, hlen⟩ := h
  unfold storeSample
  split
  · refine ⟨⟨?_, hlen⟩, rfl⟩
    simp only
    split <;> omega
  · exact ⟨⟨hptr, hlen⟩, rfl⟩

/-- What a round of a playing loop does to the entity. -/
def Keeps (body : Nat → SdelaySt × Mem Int16 → SdelaySt × Mem Int16) : Prop :=
  ∀ i r, r.1.Inside → (body i r).1.Inside ∧ (body i r).1.sampleLen = r.1.sampleLen

theorem keeps_single : Keeps (frameBody mixSingle stereoAt) :=
  fun _ _ h => storeSample_inside h _

theorem keeps_multi (adc : Mem Int16) : Keeps (frameBody mixMulti (stereosAt adc)) :=
  fun _ _ h => storeSample_inside h _

variable {body : Nat → SdelaySt × Mem Int16 → SdelaySt × Mem Int16}

/-- Nothing beyond the first `n` half-words of a buffer and the cells of the line is touched. -/
def Touches.Within (t : Touches) (n last : Nat) : Prop :=
  (∀ j ∈ t.sample, j < n) ∧ ∀ j ∈ t.fifo, j ≤ last

theorem Touches.within_none (n last : Nat) : Touches.none.Within n last := by
  constructor
  · intro j hj
    cases hj
  · intro j hj
    cases hj

/-- With an even number of half-words the loop ends and stays within them. -/
theorem hwordLoop_even (hbody : Keeps body) {n i : Nat} (hn : n % 2 = 0) (hlt : n < 2 ^ 15)
    (hi : i % 2 = 0) (hle : i ≤ n) {r : Played} (hr : r.1.1.Inside) {last : Nat}
    (hlast : r.1.1.sampleLen = last) (hw : r.2.Within n last) :
    ∃ q, hwordLoop (tracedBody body) n i r = some q ∧ q.1.1.Inside ∧ q.1.1.sampleLen = last ∧
      q.2.Within n last := by
  induction h : n - i using Nat.strong_induction_on generalizing i r with
  | _ d ih =>
    rw [hwordLoop]
    split
    next hin =>
      have hnext : i + 2 ≤ n := by omega
      rw [if_pos (by omega)]
      obtain ⟨hr', hlen⟩ := hbody i r.1 hr
      refine ih (n - (i + 2)) (by omega) (by omega) hnext hr' (hlen.trans hlast) ?_ rfl
      constructor
      · intro j hj
        rcases List.mem_append.mp hj with hj | hj
        · exact hw.1 j hj
        · simp only [List.mem_cons, List.not_mem_nil, or_false] at hj
          omega
      · intro j hj
        rcases List.mem_append.mp hj with hj | hj
        · exact hw.2 j hj
        · rw [List.mem_singleton.mp hj, ← hlast]
          exact hr.1
    next => exact ⟨r, rfl, hr, hlast, hw⟩

/-- With an odd number a loop that ends has touched the half-word behind the last one. -/
theorem hwordLoop_odd {n i : Nat} (hn : n % 2 = 1) {r q : Played} (hi : i % 2 = 0)
    (hin : i < n ∨ n ∈ r.2.sample) (h : hwordLoop (tracedBody body) n i r = some q) :
    n ∈ q.2.sample := by
  induction hd : n - i using Nat.strong_induction_on generalizing i r with
  | _ d ih =>
    rw [hwordLoop] at h
    split at h
    next hlt =>
      split at h
      next =>
        refine ih (n - (i + 2)) (by omega) (by omega) ?_ h rfl
        rcases Nat.lt_or_ge (i + 2) n with hnext | hnext
        · exact .inl hnext
        · right
          have hlast : n = i + 1 := by omega
          simp [tracedBody, hlast]
      next => cases h
    next hge =>
      cases h
      exact hin.resolve_left hge

end Loops

section Traces

variable {body : Nat → SdelaySt × Mem Int16 → SdelaySt × Mem Int16}

/-- Without what it touches, a traced loop is the loop. -/
theorem hwordLoop_traced (n i : Nat) (r : Played) :
    (hwordLoop (tracedBody body) n i r).map Prod.fst = hwordLoop body n i r.1 := by
  induction hd : n - i using Nat.strong_induction_on generalizing i r with
  | _ d ih =>
    rw [hwordLoop]
    conv_rhs => rw [hwordLoop]
    split
    · split
      · exact ih (n - (i + 2)) (by omega) _ _ rfl
      · rfl
    · rfl

theorem singleTouches_map (st : SdelaySt) (sample : Mem Int16) (len : UInt16) :
    (singleTouches st sample len).map Prod.fst = sdlyMixerSinglePlaying st sample len :=
  hwordLoop_traced ..

theorem multiTouches_map (st : SdelaySt) (sampleAdc sampleAudio : Mem Int16) (len : UInt16) :
    (multiTouches st sampleAdc sampleAudio len).map Prod.fst =
      sdlyMixerMultiPlaying st sampleAdc sampleAudio len :=
  hwordLoop_traced ..

end Traces

section Runs

/-- The bytes of the sample buffers that a call is given; the setters have none. -/
def SdlyCall.bytes : SdlyCall → Nat
  | .single _ len => len.toNat
  | .multi _ _ len => len.toNat
  | _ => 0

def SdlyLaw (s : Option SdelayEntity) : Prop := ∀ e, s = some e → e.Inside

/-- A call returns, and touches the bytes it is given and `fifo[0..sample_len]` only. -/
def SdlySafe (s : Option SdelayEntity) (c : SdlyCall) : Prop :=
  ∃ t touches, sdlyStep s c = some (t, touches) ∧
    (∀ j ∈ touches.sample, 2 * j + 2 ≤ c.bytes) ∧
    ∀ e, s = some e → ∀ j ∈ touches.fifo, j ≤ e.sampleLen

/-- The number of half-words to play is even, and without an entity nothing is played. -/
def SdlyCall.Fits (s : Option SdelayEntity) : SdlyCall → Prop
  | .startPlay => s.isSome
  | .single _ len => (len >>> 1).toNat % 2 = 0 ∧ (s = none → (len >>> 1).toNat = 0)
  | .multi _ _ len => (len >>> 1).toNat % 2 = 0 ∧ (s = none → (len >>> 1).toNat = 0)
  | _ => True

theorem toNat_half (len : UInt16) : (len >>> 1).toNat = len.toNat / 2 := by
  simp only [UInt16.toNat_shiftRight, Nat.shiftRight_eq_div_pow, UInt16.reduceToNat,
    Nat.reduceMod, Nat.reducePow]

variable {body : Nat → SdelaySt × Mem Int16 → SdelaySt × Mem Int16} {e : SdelayEntity}

theorem playing_even (hbody : Keeps body) (he : e.Inside) {len : UInt16} (m : Mem Int16)
    (heven : (len >>> 1).toNat % 2 = 0) :
    ∃ q, hwordLoop (tracedBody body) (len >>> 1).toNat 0 ((e.toSdelaySt, m), .none) = some q ∧
      q.1.1.Inside ∧ q.2.Within (len >>> 1).toNat e.sampleLen := by
  have hlt := len.toNat_lt
  have hhalf := toNat_half len
  obtain ⟨q, hq, hin, -, hw⟩ := hwordLoop_even hbody heven (by omega) (Nat.zero_mod 2)
    (Nat.zero_le _) (r := ((e.toSdelaySt, m), .none)) he rfl (Touches.within_none _ _)
  exact ⟨q, hq, hin, hw⟩

/-- A playing loop, from an entity whose pointer is right. -/
theorem playing_iff (hbody : Keeps body) (he : e.Inside) (len : UInt16) (m : Mem Int16) :
    (∃ q, hwordLoop (tracedBody body) (len >>> 1).toNat 0 ((e.toSdelaySt, m), .none) = some q ∧
      (∀ j ∈ q.2.sample, 2 * j + 2 ≤ len.toNat) ∧ ∀ j ∈ q.2.fifo, j ≤ e.sampleLen) ↔
      (len >>> 1).toNat % 2 = 0 := by
  have hhalf := toNat_half len
  constructor
  · rintro ⟨q, hq, hsample, -⟩
    by_contra hodd
    have hmem := hwordLoop_odd (by omega) (Nat.zero_mod 2) (.inl (by omega)) hq
    have := hsample _ hmem
    omega
  · intro heven
    obtain ⟨q, hq, -, hw⟩ := playing_even hbody he m heven
    refine ⟨q, hq, fun j hj => ?_, hw.2⟩
    have := hw.1 j hj
    omega

/-- A playing loop that returns leaves the pointer right. -/
theorem playing_inside (hbody : Keeps body) (he : e.Inside) {len : UInt16} {m : Mem Int16}
    {q : Played} (heven : (len >>> 1).toNat % 2 = 0)
    (hq : hwordLoop (tracedBody body) (len >>> 1).toNat 0 ((e.toSdelaySt, m), .none) = some q) :
    q.1.1.Inside := by
  obtain ⟨q', hq', hin, -⟩ := playing_even hbody he m heven
  rw [hq'] at hq
  exact Option.some.inj hq ▸ hin

theorem SdlyLaw.step {s t : Option SdelayEntity} {c : SdlyCall} {touches : Touches}
    (hl : SdlyLaw s) (hc : c.Fits s) (hs : sdlyStep s c = some (t, touches)) : SdlyLaw t := by
  cases s with
  | none =>
    obtain ⟨_, -, heq⟩ := Option.map_eq_some_iff.mp hs
    cases heq
    exact hl
  | some e =>
    obtain ⟨⟨e', touches'⟩, hrun, heq⟩ := Option.map_eq_some_iff.mp hs
    cases heq
    have he := hl e rfl
    have hin : e'.Inside := by
      cases c with
      | config freq =>
        cases hrun
        exact sdlyConfig_inside freq
      | changeSampleTimeByadc time =>
        cases hrun
        exact sdlyChangeSampleTimeByadc_inside he time
      | setSampleVol vol =>
        cases hrun
        exact sdlySetSampleVol_inside he vol
      | startPlay =>
        cases hrun
        exact sdlyStartPlay_inside he
      | single sample len =>
        obtain ⟨q, hq, hplay⟩ := Option.map_eq_some_iff.mp hrun
        cases hplay
        exact playing_inside keeps_single he hc.1 hq
      | multi sampleAdc sampleAudio len =>
        obtain ⟨q, hq, hplay⟩ := Option.map_eq_some_iff.mp hrun
        cases hplay
        exact playing_inside (keeps_multi sampleAdc) he hc.1 hq
    intro e₁ he₁
    cases he₁
    exact hin

theorem SdlySafe.of_quiet {s t : Option SdelayEntity} {c : SdlyCall}
    (hs : sdlyStep s c = some (t, .none)) : SdlySafe s c := by
  refine ⟨t, .none, hs, ?_, ?_⟩
  · intro j hj
    cases hj
  · intro e _ j hj
    cases hj

theorem sdlySafe_play (hbody : Keeps body) (he : e.Inside) {c : SdlyCall} {len : UInt16}
    {m : Mem Int16} (hlen : c.bytes = len.toNat)
    (hrun : c.run e = (hwordLoop (tracedBody body) (len >>> 1).toNat 0
      ((e.toSdelaySt, m), .none)).map e.play) :
    SdlySafe (some e) c ↔ (len >>> 1).toNat % 2 = 0 := by
  rw [← playing_iff hbody he len m]
  constructor
  · rintro ⟨t, touches, hs, hsample, hfifo⟩
    obtain ⟨r, hr, heq⟩ := Option.map_eq_some_iff.mp hs
    obtain ⟨q, hq, hplay⟩ := Option.map_eq_some_iff.mp (hrun ▸ hr)
    cases hplay
    cases heq
    exact ⟨q, hq, hlen ▸ hsample, hfifo e rfl⟩
  · rintro ⟨q, hq, hsample, hfifo⟩
    refine ⟨some (e.play q).1, q.2, ?_, hlen ▸ hsample, fun e' he' => Option.some.inj he' ▸ hfifo⟩
    rw [sdlyStep, hrun, hq]
    rfl

/-- Without an entity a mixer has to have nothing to play. -/
theorem sdlySafe_orphan {c : SdlyCall} {len : UInt16}
    (hrun : c.orphan = if (len >>> 1).toNat = 0 then some .none else none) :
    SdlySafe none c ↔ (len >>> 1).toNat = 0 := by
  constructor
  · rintro ⟨t, touches, hs, -⟩
    by_contra hne
    rw [sdlyStep, hrun, if_neg hne] at hs
    cases hs
  · intro heq
    apply SdlySafe.of_quiet (t := none)
    rw [sdlyStep, hrun, if_pos heq]
    rfl

theorem sdlySafe_iff {s : Option SdelayEntity} (hl : SdlyLaw s) (c : SdlyCall) :
    SdlySafe s c ↔ c.Fits s := by
  cases s with
  | none =>
    cases c with
    | config freq => exact iff_of_true (.of_quiet rfl) trivial
    | changeSampleTimeByadc time => exact iff_of_true (.of_quiet rfl) trivial
    | setSampleVol vol => exact iff_of_true (.of_quiet rfl) trivial
    | startPlay =>
      refine iff_of_false ?_ Bool.false_ne_true
      rintro ⟨t, touches, hs, -⟩
      cases hs
    | single sample len =>
      rw [sdlySafe_orphan rfl]
      exact ⟨fun h => ⟨by rw [h], fun _ => h⟩, fun h => h.2 rfl⟩
    | multi sampleAdc sampleAudio len =>
      rw [sdlySafe_orphan rfl]
      exact ⟨fun h => ⟨by rw [h], fun _ => h⟩, fun h => h.2 rfl⟩
  | some e =>
    have he := hl e rfl
    cases c with
    | config freq => exact iff_of_true (.of_quiet rfl) trivial
    | changeSampleTimeByadc time => exact iff_of_true (.of_quiet rfl) trivial
    | setSampleVol vol => exact iff_of_true (.of_quiet rfl) trivial
    | startPlay => exact iff_of_true (.of_quiet rfl) rfl
    | single sample len =>
      rw [sdlySafe_play keeps_single he (m := sample) rfl rfl]
      exact ⟨fun h => ⟨h, fun h' => by cases h'⟩, fun h => h.1⟩
    | multi sampleAdc sampleAudio len =>
      rw [sdlySafe_play (keeps_multi sampleAdc) he (m := sampleAudio) rfl rfl]
      exact ⟨fun h => ⟨h, fun h' => by cases h'⟩, fun h => h.1⟩

theorem sdlyInit_law (g : Option SdelayEntity) : SdlyLaw (sdlyInit g) := by
  intro e he
  obtain ⟨e₀, -, rfl⟩ := Option.map_eq_some_iff.mp he
  exact sdlyConfig_inside 8000

end Runs

/-- Along calls that fit the pointer is always right, and which calls are safe from there on is
told by their length alone. -/
theorem sdly_safe_iff_fits (g : Option SdelayEntity) {h : Machine.History SdlyCall Touches}
    {s : Option SdelayEntity} (hr : (sdly g).ReachesUnder (fun s c => c.Fits s) h s) :
    SdlyLaw s ∧ ∀ c, SdlySafe s c ↔ c.Fits s := by
  have hl : SdlyLaw s :=
    hr.stateInvariant SdlyLaw (sdlyInit_law g) fun hl hc hs => hl.step hc hs
  exact ⟨hl, sdlySafe_iff hl⟩

def zeroEntity : SdelayEntity where
  fifo _ := 0
  opPtr := 0
  sampleLen := 0
  status := .stop
  micphoneVol := 0
  pcmVol := 0
  audioFreq := 0
  maxSampleTime := 0
  sampleTime := 0
  decayValue := 0
  sampleTimeAdc := 0
  decayValueAdc := 0

theorem sdly_safe_iff_fits_start : ∃ s, (sdly (some zeroEntity)).ReachesUnder
    (fun s c => c.Fits s) [(.startPlay, .none)] s ∧ SdlyLaw s ∧
    SdlySafe s (.single (fun _ => 5) 8) := by
  have hr : (sdly (some zeroEntity)).ReachesUnder (fun s c => c.Fits s)
      ([] ++ [(.startPlay, .none)]) _ := .step .init rfl rfl
  have heven : ((8 : UInt16) >>> 1).toNat % 2 = 0 := by decide
  have h := sdly_safe_iff_fits (some zeroEntity) hr
  exact ⟨_, hr, h.1, (h.2 _).mpr ⟨heven, fun h => by cases h⟩⟩

/-- One half-word to play: the second one of the pair lies behind the buffer. -/
theorem not_sdlySafe_two_bytes : (sdly (some zeroEntity)).Reaches [] (sdlyInit (some zeroEntity)) ∧
    ¬ SdlySafe (sdlyInit (some zeroEntity)) (.single (fun _ => 5) 2) := by
  refine ⟨.init, fun h => ?_⟩
  have hodd := (sdlySafe_iff (sdlyInit_law _) _).mp h
  exact absurd hodd.1 (by decide)

end BdkRtt.Audio
