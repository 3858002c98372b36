import BdkRtt.Audio.SoundDelay

namespace BdkRtt.Audio

open Lib

section Arithmetic

/-- Saturation to 16 bits. -/
def sat16 (x : Int) : Int := max (-32768) (min 32767 x)

theorem toInt_sdlyLowPassFilter (x : Int32) : (sdlyLowPassFilter x).toInt = sat16 x.toInt := by
  have hmax : (32767 : Int32).toInt = 32767 := rfl
  have hmin : (-32768 : Int32).toInt = -32768 := rfl
  unfold sdlyLowPassFilter sat16
  simp only [gt_iff_lt, Int32.lt_iff_toInt_lt, hmax, hmin]
  split
  · rw [hmax]; omega
  · split
    · rw [hmin]; omega
    · omega

/-- A saturated value is not changed when it is stored. -/
theorem toInt_toInt16_sdlyLowPassFilter (x : Int32) :
    (sdlyLowPassFilter x).toInt16.toInt = sat16 x.toInt := by
  rw [Int32.toInt_toInt16, toInt_sdlyLowPassFilter, Int.bmod_eq_of_le]
  · unfold sat16; omega
  · unfold sat16; omega

theorem toInt_shiftRight_one (x : Int32) : (x >>> 1).toInt = x.toInt >>> (1 : Nat) :=
  BitVec.toInt_sshiftRight'

theorem toInt_shiftRight_four (x : Int32) : (x >>> 4).toInt = x.toInt >>> (4 : Nat) :=
  BitVec.toInt_sshiftRight'

theorem toInt_add {x y : Int32} (hlo : -2 ^ 31 ≤ x.toInt + y.toInt)
    (hhi : x.toInt + y.toInt < 2 ^ 31) : (x + y).toInt = x.toInt + y.toInt := by
  rw [Int32.toInt_add, Int.bmod_eq_of_le]
  · omega
  · omega

/-- The product with a volume stays within 32 bits. -/
theorem toInt_mul_vol {x : Int32} {vol : UInt16} (hlo : -65536 ≤ x.toInt) (hhi : x.toInt ≤ 65536)
    (hvol : vol.toNat ≤ 32767) :
    (x * Int32.ofNat vol.toNat).toInt = x.toInt * vol.toNat := by
  have hle := Int.mul_le_mul_of_nonneg_right hhi (Int.natCast_nonneg vol.toNat)
  have hge := Int.mul_le_mul_of_nonneg_right hlo (Int.natCast_nonneg vol.toNat)
  rw [Int32.toInt_mul, Int32.toInt_ofNat_of_lt (by omega), Int.bmod_eq_of_le]
  · omega
  · omega

end Arithmetic

section Frame

variable {st : SdelaySt}

/-- What a frame stores, from the value it finds and its right input. -/
def echo (y right : Int) : Int := sat16 ((y >>> (1 : Nat)) + right)

/-- What the microphone adds to the output. -/
def voice (mic : Nat) (y left : Int) : Int := sat16 (((y + left) * mic) >>> (4 : Nat))

theorem toInt_mixSample (hst : st.status = .start) (right : Int16) :
    (mixSample st right).toInt16.toInt = echo (st.fifo st.opPtr).toInt right.toInt := by
  have hy := (st.fifo st.opPtr).le_toInt
  have hy' := (st.fifo st.opPtr).toInt_lt
  have hr := right.le_toInt
  have hr' := right.toInt_lt
  have hshift : ((st.fifo st.opPtr).toInt32 >>> 1).toInt =
      (st.fifo st.opPtr).toInt >>> (1 : Nat) := by
    rw [toInt_shiftRight_one, Int16.toInt_toInt32]
  have hhalf : (st.fifo st.opPtr).toInt >>> (1 : Nat) = (st.fifo st.opPtr).toInt / 2 :=
    Int.shiftRight_eq_div_pow ..
  simp only [mixSample, if_pos hst]
  rw [toInt_toInt16_sdlyLowPassFilter, toInt_add, hshift, Int16.toInt_toInt32, echo]
  · rw [hshift, Int16.toInt_toInt32]; omega
  · rw [hshift, Int16.toInt_toInt32]; omega

theorem toInt_micSample (hvol : st.micphoneVol.toNat ≤ 32767) (left : Int16) :
    (micSample st left).toInt = voice st.micphoneVol.toNat (st.fifo st.opPtr).toInt left.toInt := by
  have hy := (st.fifo st.opPtr).le_toInt
  have hy' := (st.fifo st.opPtr).toInt_lt
  have hl := left.le_toInt
  have hl' := left.toInt_lt
  have hsum : ((st.fifo st.opPtr).toInt32 + left.toInt32).toInt =
      (st.fifo st.opPtr).toInt + left.toInt := by
    rw [toInt_add, Int16.toInt_toInt32, Int16.toInt_toInt32]
    all_goals
      rw [Int16.toInt_toInt32, Int16.toInt_toInt32]
      omega
  simp only [micSample]
  rw [toInt_sdlyLowPassFilter, toInt_shiftRight_four, toInt_mul_vol, hsum, voice]
  · omega
  · omega
  · exact hvol

theorem toInt_toInt16_micSample (hvol : st.micphoneVol.toNat ≤ 32767) (left : Int16) :
    (micSample st left).toInt16.toInt =
      voice st.micphoneVol.toNat (st.fifo st.opPtr).toInt left.toInt := by
  rw [← toInt_micSample hvol, micSample, toInt_toInt16_sdlyLowPassFilter, toInt_sdlyLowPassFilter]

/-- The output of a channel, from the music sample and what the microphone adds. -/
def blend (pcm : Nat) (audio mic : Int) : Int := sat16 (((audio * pcm) >>> (4 : Nat)) + mic)

theorem toInt_pcmSample (hvol : st.pcmVol.toNat ≤ 32767) (audio left : Int16) :
    (pcmSample st audio (micSample st left)).toInt16.toInt =
      blend st.pcmVol.toNat audio.toInt (micSample st left).toInt := by
  have ha := audio.le_toInt
  have ha' := audio.toInt_lt
  have hle := Int.mul_le_mul_of_nonneg_right ha (Int.natCast_nonneg st.pcmVol.toNat)
  have hge := Int.mul_le_mul_of_nonneg_right (Int.le_of_lt ha') (Int.natCast_nonneg st.pcmVol.toNat)
  have hmul : ((audio.toInt32 * Int32.ofNat st.pcmVol.toNat) >>> 4).toInt =
      (audio.toInt * st.pcmVol.toNat) >>> (4 : Nat) := by
    rw [toInt_shiftRight_four, toInt_mul_vol, Int16.toInt_toInt32]
    · rw [Int16.toInt_toInt32]; omega
    · rw [Int16.toInt_toInt32]; omega
    · exact hvol
  have hdiv : (audio.toInt * st.pcmVol.toNat) >>> (4 : Nat) =
      (audio.toInt * st.pcmVol.toNat) / 2 ^ 4 :=
    Int.shiftRight_eq_div_pow ..
  have hsat : (micSample st left).toInt = sat16 _ := toInt_sdlyLowPassFilter _
  unfold sat16 at hsat
  rw [pcmSample, toInt_toInt16_sdlyLowPassFilter, toInt_add, hmul, blend]
  · rw [hmul]; omega
  · rw [hmul]; omega

end Frame

section Line

variable {st₀ st : SdelaySt} {right : Nat → Int16} {n : Nat}

/-- The same with the half-words of the code. -/
def echo16 (y right : Int16) : Int16 :=
  (sdlyLowPassFilter (y.toInt32 >>> 1 + right.toInt32)).toInt16

/-- The state `n` frames after the start in `st₀`. -/
structure Playing (st₀ : SdelaySt) (right : Nat → Int16) (n : Nat) (st : SdelaySt) : Prop where
  status : st.status = .start
  sampleLen : st.sampleLen = st₀.sampleLen
  micphoneVol : st.micphoneVol = st₀.micphoneVol
  pcmVol : st.pcmVol = st₀.pcmVol
  line : DelayLine.Holds echo16 0 st₀.sampleLen ⟨st.fifo, st.opPtr⟩ right n

theorem playing_start : Playing st₀ right 0 (sdlyStartPlay st₀) where
  status := rfl
  sampleLen := rfl
  micphoneVol := rfl
  pcmVol := rfl
  line := DelayLine.holds_zero fun k hk => by
    show st₀.fifo.write 0 (List.replicate (st₀.sampleLen + 1) 0) k = 0
    simp [Mem.write, Nat.lt_succ_of_le hk]

/-- A frame is one element of the delay line, and nothing else changes. -/
theorem Playing.store (h : Playing st₀ right n st) :
    Playing st₀ right (n + 1) (storeSample st (mixSample st (right n))) := by
  have hmix : (mixSample st (right n)).toInt16 = echo16 (st.fifo st.opPtr) (right n) := by
    simp only [mixSample, if_pos h.status, echo16]
  have hstore : storeSample st (mixSample st (right n)) =
      { st with
        fifo := (DelayLine.feed echo16 st₀.sampleLen ⟨st.fifo, st.opPtr⟩ (right n)).cells
        opPtr := (DelayLine.feed echo16 st₀.sampleLen ⟨st.fifo, st.opPtr⟩ (right n)).pos } := by
    rw [storeSample, if_pos h.status, hmix, h.sampleLen]
    rfl
  rw [hstore]
  exact ⟨h.status, h.sampleLen, h.micphoneVol, h.pcmVol, h.line.feed⟩

/-- The integers that the recurrence of the half-words stands for. -/
def delayedFor (len : Nat) (right : Nat → Int16) (n : Nat) : Int :=
  DelayLine.delayed (fun y (r : Int16) => echo y r.toInt) 0 len right n

def storedFor (len : Nat) (right : Nat → Int16) (n : Nat) : Int :=
  DelayLine.stored (fun y (r : Int16) => echo y r.toInt) 0 len right n

theorem toInt_echo16 (y right : Int16) : (echo16 y right).toInt = echo y.toInt right.toInt := by
  have hplaying : (⟨fun _ => y, 0, 0, .start, 0, 0⟩ : SdelaySt).status = .start := rfl
  exact toInt_mixSample hplaying right

theorem Playing.read (h : Playing st₀ right n st) :
    (st.fifo st.opPtr).toInt = delayedFor st₀.sampleLen right n :=
  (congrArg Int16.toInt h.line.read).trans (DelayLine.map_delayed _ _ _ toInt_echo16 right n)

theorem Playing.cell (h : Playing st₀ right n st) {k : Nat} (hk : k < n)
    (hn : n ≤ k + st₀.sampleLen + 1) :
    (st.fifo (st₀.sampleLen - k % (st₀.sampleLen + 1))).toInt =
      storedFor st₀.sampleLen right k :=
  (congrArg Int16.toInt (h.line.cell hk hn)).trans
    (DelayLine.map_stored _ _ _ toInt_echo16 right k)

variable {ι : Type} {mix : SdelaySt → ι → SdelaySt × Stereo} {rightOf : ι → Int16}

/-- Every frame of a stream meets the state that the frames before it lead to. -/
theorem Playing.transduce (hmix : ∀ st x, (mix st x).1 = storeSample st (mixSample st (rightOf x)))
    {xs : List ι} (h : Playing st₀ right n st)
    (hright : ∀ i x, xs[i]? = some x → right (n + i) = rightOf x) :
    Playing st₀ right (n + xs.length) (Lib.transduce mix st xs).1 ∧
      (Lib.transduce mix st xs).2.length = xs.length ∧
      ∀ i x o, xs[i]? = some x → (Lib.transduce mix st xs).2[i]? = some o →
        ∃ t, Playing st₀ right (n + i) t ∧ o = (mix t x).2 := by
  induction xs generalizing st n with
  | nil => exact ⟨h, rfl, fun _ _ _ hx => by cases hx⟩
  | cons x xs ih =>
    have hnext : Playing st₀ right (n + 1) (mix st x).1 := by
      rw [hmix, ← hright 0 x rfl]
      exact h.store
    have hrest : ∀ i y, xs[i]? = some y → right (n + 1 + i) = rightOf y := by
      intro i y hy
      rw [show n + 1 + i = n + (i + 1) by omega]
      exact hright (i + 1) y hy
    obtain ⟨hlast, hlength, hout⟩ := ih hnext hrest
    refine ⟨?_, congrArg Nat.succ hlength, ?_⟩
    · rw [List.length_cons, show n + (xs.length + 1) = n + 1 + xs.length by omega]
      exact hlast
    · intro i y o hy ho
      cases i with
      | zero =>
        obtain rfl := Option.some.inj hy
        exact ⟨st, h, (Option.some.inj ho).symm⟩
      | succ i =>
        obtain ⟨t, ht, hto⟩ := hout i y o hy ho
        rw [show n + (i + 1) = n + 1 + i by omega]
        exact ⟨t, ht, hto⟩

end Line

section Loop

variable {ι : Type} {mix : SdelaySt → ι → SdelaySt × Stereo} {input : Mem Int16 → Nat → ι}

theorem framesFrom_congr (hinput : ∀ {m m' : Mem Int16} {i}, m i = m' i → m (i + 1) = m' (i + 1) →
    input m i = input m' i) {m m' : Mem Int16} {k n : Nat}
    (h : ∀ j, 2 * k ≤ j → m j = m' j) : framesFrom input m k n = framesFrom input m' k n := by
  induction n generalizing k with
  | zero => rfl
  | succ n ih =>
    rw [framesFrom, framesFrom, hinput (h _ (by omega)) (h _ (by omega)),
      ih fun j hj => h j (by omega)]

/-- The loop maps the frames of its buffer one by one, in place. -/
theorem hwordLoop_frameBody (hinput : ∀ {m m' : Mem Int16} {i}, m i = m' i →
    m (i + 1) = m' (i + 1) → input m i = input m' i) {k n : Nat} (hn : 2 * (k + n) < 2 ^ 15)
    (st : SdelaySt) (m : Mem Int16) :
    ∃ m', hwordLoop (frameBody mix input) (2 * (k + n)) (2 * k) (st, m) =
        some ((transduce mix st (framesFrom input m k n)).1, m') ∧
      framesFrom stereoAt m' k n = (transduce mix st (framesFrom input m k n)).2 ∧
      ∀ j < 2 * k, m' j = m j := by
  induction n generalizing k st m with
  | zero =>
    rw [hwordLoop, if_neg (by omega)]
    exact ⟨m, rfl, rfl, fun _ _ => rfl⟩
  | succ n ih =>
    rw [hwordLoop, if_pos (by omega), if_pos (by omega), framesFrom, transduce]
    let out := mix st (input m (2 * k))
    let m₁ := m.write (2 * k) [out.2.1, out.2.2]
    obtain ⟨m', hloop, hout, hkeep⟩ := ih (k := k + 1) (by omega) out.1 m₁
    have hsame : framesFrom input m₁ (k + 1) n = framesFrom input m (k + 1) n :=
      framesFrom_congr hinput fun j hj => Mem.write_apply_of_ge _ (by simp; omega)
    rw [hsame] at hloop hout
    have hfst : m' (2 * k) = out.2.1 :=
      (hkeep _ (by omega)).trans (Mem.write_apply_mem m _ (k := 0) (by simp))
    have hsnd : m' (2 * k + 1) = out.2.2 :=
      (hkeep _ (by omega)).trans (Mem.write_apply_mem m _ (k := 1) (by simp))
    refine ⟨m', ?_, ?_, ?_⟩
    · rw [show 2 * (k + (n + 1)) = 2 * (k + 1 + n) by omega]
      exact hloop
    · rw [framesFrom, hout, stereoAt, hfst, hsnd]
    · intro j hj
      rw [hkeep j (by omega)]
      exact Mem.write_apply_of_lt _ _ hj

/-- The whole loop, for a length in bytes with an even number of half-words. -/
theorem hwordLoop_call (hinput : ∀ {m m' : Mem Int16} {i}, m i = m' i → m (i + 1) = m' (i + 1) →
    input m i = input m' i) {len : UInt16} (heven : (len >>> 1).toNat % 2 = 0) (st : SdelaySt)
    (m : Mem Int16) :
    let xs := framesFrom input m 0 ((len >>> 1).toNat / 2)
    ∃ m', hwordLoop (frameBody mix input) (len >>> 1).toNat 0 (st, m) =
        some ((transduce mix st xs).1, m') ∧
      framesFrom stereoAt m' 0 ((len >>> 1).toNat / 2) = (transduce mix st xs).2 := by
  have hhalf : (len >>> 1).toNat < 2 ^ 15 := by
    have hlt := len.toNat_lt
    simp only [UInt16.toNat_shiftRight, Nat.shiftRight_eq_div_pow, UInt16.reduceToNat,
      Nat.reduceMod, Nat.reducePow]
    omega
  have hlen : (len >>> 1).toNat = 2 * (0 + (len >>> 1).toNat / 2) := by omega
  obtain ⟨m', hloop, hout, -⟩ := hwordLoop_frameBody hinput (hlen ▸ hhalf) st m
  rw [← hlen] at hloop
  exact ⟨m', hloop, hout⟩

theorem stereoAt_congr {m m' : Mem Int16} {i : Nat} (h : m i = m' i)
    (h' : m (i + 1) = m' (i + 1)) : stereoAt m i = stereoAt m' i :=
  Prod.ext h h'

theorem SingleCall.run_eq (st : SdelaySt) (c : SingleCall) :
    c.run st = some (transduce mixSingle st c.stream) := by
  obtain ⟨m', hloop, hout⟩ := hwordLoop_call stereoAt_congr c.even st c.sample
  rw [SingleCall.run, sdlyMixerSinglePlaying, hloop, Option.map_some, SingleCall.frames, hout]
  rfl

theorem MultiCall.run_eq (st : SdelaySt) (c : MultiCall) :
    c.run st = some (transduce mixMulti st c.stream) := by
  have hinput {m m' : Mem Int16} {i : Nat} (h : m i = m' i) (h' : m (i + 1) = m' (i + 1)) :
      stereosAt c.sampleAdc m i = stereosAt c.sampleAdc m' i :=
    Prod.ext rfl (stereoAt_congr h h')
  obtain ⟨m', hloop, hout⟩ := hwordLoop_call hinput c.even st c.sampleAudio
  rw [MultiCall.run, sdlyMixerMultiPlaying, hloop, Option.map_some, MultiCall.frames, hout]
  rfl

/-- Calls one after the other process the stream that they cut up. -/
theorem playAll_eq {κ : Type} {run : SdelaySt → κ → Option (SdelaySt × List Stereo)}
    {stream : κ → List ι} (hrun : ∀ st c, run st c = some (transduce mix st (stream c)))
    (st : SdelaySt) (calls : List κ) :
    playAll run st calls = some (transduce mix st (calls.flatMap stream)) := by
  induction calls generalizing st with
  | nil => rfl
  | cons c cs ih => simp [playAll, hrun, ih, transduce_append]

end Loop

section Stream

/-- What a stream with the right inputs `rightOf` becomes after a start in `st₀`: frame `n` is
mixed with the value delayed for it, and what it stores is in the line. -/
structure EchoRun {ι : Type} (st₀ : SdelaySt) (rightOf : ι → Int16) (mixed : Int → ι → Int × Int)
    (xs : List ι) (t : SdelaySt) (outs : List Stereo) : Prop where
  length : outs.length = xs.length
  mixed : ∀ n x o, xs[n]? = some x → outs[n]? = some o →
    (o.1.toInt, o.2.toInt) =
      mixed (delayedFor st₀.sampleLen (fun k => (xs.map rightOf).getD k 0) n) x
  stored : ∀ n < xs.length, xs.length ≤ n + st₀.sampleLen + 1 →
    (t.fifo (st₀.sampleLen - n % (st₀.sampleLen + 1))).toInt =
      storedFor st₀.sampleLen (fun k => (xs.map rightOf).getD k 0) n
  inFifo : t.opPtr < sdlyMaxFifoSize

variable {ι : Type} {mix : SdelaySt → ι → SdelaySt × Stereo} {rightOf : ι → Int16}
  {st₀ : SdelaySt}

theorem echoRun_transduce (hmix : ∀ st x, (mix st x).1 = storeSample st (mixSample st (rightOf x)))
    {mixed : Int → ι → Int × Int}
    (hout : ∀ st x, st.micphoneVol = st₀.micphoneVol → st.pcmVol = st₀.pcmVol →
      ((mix st x).2.1.toInt, (mix st x).2.2.toInt) = mixed (st.fifo st.opPtr).toInt x)
    (hlen : st₀.sampleLen < sdlyMaxFifoSize) (xs : List ι) :
    EchoRun st₀ rightOf mixed xs (transduce mix (sdlyStartPlay st₀) xs).1
      (transduce mix (sdlyStartPlay st₀) xs).2 := by
  have hstart : Playing st₀ (fun k => (xs.map rightOf).getD k 0) 0 (sdlyStartPlay st₀) :=
    playing_start
  have hright (i : Nat) (x : ι) (hx : xs[i]? = some x) :
      (xs.map rightOf).getD (0 + i) 0 = rightOf x := by
    simp [hx]
  obtain ⟨hlast, hlength, hread⟩ := hstart.transduce hmix hright
  rw [Nat.zero_add] at hlast
  constructor
  · exact hlength
  · intro n x o hx ho
    obtain ⟨t, ht, rfl⟩ := hread n x o hx ho
    rw [hout t x ht.micphoneVol ht.pcmVol, ht.read, Nat.zero_add]
  · exact fun n hn hold => hlast.cell hn hold
  · exact Nat.lt_of_le_of_lt hlast.line.pos_le hlen

/-- Both channels of the output without music. -/
def singleValue (mic : Nat) (y : Int) (x : Stereo) : Int × Int :=
  (voice mic y x.1.toInt, voice mic y x.1.toInt)

/-- The channels of the output with the music frame `x.2`. -/
def multiValue (mic pcm : Nat) (y : Int) (x : Stereo × Stereo) : Int × Int :=
  (blend pcm x.2.1.toInt (voice mic y x.1.1.toInt), blend pcm x.2.2.toInt (voice mic y x.1.1.toInt))

/-- The value mixed into a frame is the one stored `sampleLen + 1` frames before it, and neither
the output nor the last state depends on how the stream is cut into calls. -/
theorem echo_delay_line (st₀ : SdelaySt) (hlen : st₀.sampleLen < sdlyMaxFifoSize)
    (hmic : st₀.micphoneVol.toNat ≤ 32767) (hpcm : st₀.pcmVol.toNat ≤ 32767) :
    (∀ calls : List SingleCall, ∃ t outs,
      playAll (fun st c => c.run st) (sdlyStartPlay st₀) calls = some (t, outs) ∧
      EchoRun st₀ Prod.snd (singleValue st₀.micphoneVol.toNat) (calls.flatMap SingleCall.stream)
        t outs ∧
      ∀ calls' : List SingleCall,
        calls'.flatMap SingleCall.stream = calls.flatMap SingleCall.stream →
        playAll (fun st c => c.run st) (sdlyStartPlay st₀) calls' = some (t, outs)) ∧
    (∀ calls : List MultiCall, ∃ t outs,
      playAll (fun st c => c.run st) (sdlyStartPlay st₀) calls = some (t, outs) ∧
      EchoRun st₀ (fun x => x.1.2) (multiValue st₀.micphoneVol.toNat st₀.pcmVol.toNat)
        (calls.flatMap MultiCall.stream) t outs ∧
      ∀ calls' : List MultiCall,
        calls'.flatMap MultiCall.stream = calls.flatMap MultiCall.stream →
        playAll (fun st c => c.run st) (sdlyStartPlay st₀) calls' = some (t, outs)) := by
  constructor
  · intro calls
    refine ⟨_, _, playAll_eq SingleCall.run_eq _ calls, ?_, fun calls' h => ?_⟩
    · refine echoRun_transduce (fun st x => rfl) (fun st x hm hp => ?_) hlen _
      rw [← hm] at hmic ⊢
      simp only [mixSingle, singleValue, toInt_toInt16_micSample hmic]
    · rw [playAll_eq SingleCall.run_eq, h]
  · intro calls
    refine ⟨_, _, playAll_eq MultiCall.run_eq _ calls, ?_, fun calls' h => ?_⟩
    · refine echoRun_transduce (fun st x => rfl) (fun st x hm hp => ?_) hlen _
      rw [← hm] at hmic ⊢
      rw [← hp] at hpcm ⊢
      simp only [mixMulti, multiValue, toInt_pcmSample hpcm, toInt_micSample hmic]
    · rw [playAll_eq MultiCall.run_eq, h]

/-- A delay of two frames, and three frames of which the first has a click on the right. -/
def clickSt : SdelaySt where
  fifo := fun _ => 7
  opPtr := 0
  sampleLen := 1
  status := .stop
  micphoneVol := 16
  pcmVol := 16

def clickCall : SingleCall where
  sample := fun i => if i = 1 then 1000 else 0
  simpleLenByte := 12
  even := rfl

theorem echo_delay_line_click :
    ∃ t outs, playAll (fun st c => c.run st) (sdlyStartPlay clickSt) [clickCall] = some (t, outs) ∧
      outs.length = 3 ∧ ∀ o, outs[2]? = some o → (o.1.toInt, o.2.toInt) = (1000, 1000) := by
  obtain ⟨t, outs, hplay, hecho, -⟩ :=
    (echo_delay_line clickSt (by decide) (by decide) (by decide)).1 [clickCall]
  refine ⟨t, outs, hplay, hecho.length, fun o ho => ?_⟩
  have hmixed := hecho.mixed 2 (0, 0) o rfl ho
  rw [hmixed, delayedFor, DelayLine.delayed, if_neg (by decide), DelayLine.stored]
  decide

end Stream

end BdkRtt.Audio
