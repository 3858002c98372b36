import BdkRtt.Lib.DelayLine

namespace BdkRtt.Audio

open Lib

def sdlyMaxFifoSize : Nat := 8640 + 1

inductive SdelaySta
  | stop
  | start
  deriving DecidableEq

/-- The fields of `SDELAY_ST` that the mixer loops use, with `op_ptr` as an index into `fifo`. -/
structure SdelaySt where
  fifo : Mem Int16
  opPtr : Nat
  sampleLen : Nat
  status : SdelaySta
  micphoneVol : UInt16
  pcmVol : UInt16

def sdlyStartPlay (st : SdelaySt) : SdelaySt :=
  { st with
    fifo := st.fifo.write 0 (List.replicate (st.sampleLen + 1) 0)
    opPtr := st.sampleLen
    status := .start }

def sdlyLowPassFilter (sample : Int32) : Int32 :=
  if sample > 32767 then 32767
  else if sample < -32768 then -32768
  else sample

section Frame

/-- `mix_sample_tmp` of one frame, with the right input. -/
def mixSample (st : SdelaySt) (right : Int16) : Int32 :=
  let mix := if st.status = .start then (st.fifo st.opPtr).toInt32 >>> 1 else 0
  sdlyLowPassFilter (mix + right.toInt32)

/-- `temp` of one frame, with the left input. -/
def micSample (st : SdelaySt) (left : Int16) : Int32 :=
  let temp := (st.fifo st.opPtr).toInt32 + left.toInt32
  sdlyLowPassFilter ((temp * Int32.ofNat st.micphoneVol.toNat) >>> 4)

/-- `left_data` or `right_data` of one frame. -/
def pcmSample (st : SdelaySt) (audio : Int16) (temp : Int32) : Int32 :=
  sdlyLowPassFilter (((audio.toInt32 * Int32.ofNat st.pcmVol.toNat) >>> 4) + temp)

/-- The end of the body of both loops. -/
def storeSample (st : SdelaySt) (mix : Int32) : SdelaySt :=
  if st.status = .start then
    { st with
      fifo := st.fifo.write st.opPtr [mix.toInt16]
      opPtr := if st.opPtr = 0 then st.sampleLen else st.opPtr - 1 }
  else st

/-- A left and a right half-word. -/
abbrev Stereo := Int16 × Int16

def mixSingle (st : SdelaySt) (sample : Stereo) : SdelaySt × Stereo :=
  let mix := mixSample st sample.2
  let temp := micSample st sample.1
  (storeSample st mix, (temp.toInt16, temp.toInt16))

def mixMulti (st : SdelaySt) (sample : Stereo × Stereo) : SdelaySt × Stereo :=
  let (adc, audio) := sample
  let mix := mixSample st adc.2
  let temp := micSample st adc.1
  (storeSample st mix, ((pcmSample st audio.1 temp).toInt16, (pcmSample st audio.2 temp).toInt16))

end Frame

section Loop

/-- `for (i = 0; i < len_hword; i += 2)`, from `i` on.  The index has 16 bits; `none` is a
run in which it wraps, so that the next access is in front of the buffer. -/
def hwordLoop {σ : Type} (body : Nat → σ → σ) (lenHword i : Nat) (s : σ) : Option σ :=
  if i < lenHword then
    if i + 2 < 2 ^ 15 then hwordLoop body lenHword (i + 2) (body i s) else none
  else some s
termination_by lenHword - i

/-- A body that takes the frame `input m i` and leaves the result at `i` and `i + 1`. -/
def frameBody {ι : Type} (mix : SdelaySt → ι → SdelaySt × Stereo) (input : Mem Int16 → Nat → ι)
    (i : Nat) (s : SdelaySt × Mem Int16) : SdelaySt × Mem Int16 :=
  let out := mix s.1 (input s.2 i)
  (out.1, s.2.write i [out.2.1, out.2.2])

/-- The frame at `i` in a buffer of half-words. -/
def stereoAt (m : Mem Int16) (i : Nat) : Stereo := (m i, m (i + 1))

def sdlyMixerSinglePlaying (st : SdelaySt) (sample : Mem Int16) (simpleLenByte : UInt16) :
    Option (SdelaySt × Mem Int16) :=
  hwordLoop (frameBody mixSingle stereoAt) (simpleLenByte >>> 1).toNat 0 (st, sample)

/-- The frame at `i` in the buffer `m` with the one of the microphone. -/
def stereosAt (adc m : Mem Int16) (i : Nat) : Stereo × Stereo := (stereoAt adc i, stereoAt m i)

/-- `sdly_mixer_multi_playing`; the buffer that changes is `sample_audio`. -/
def sdlyMixerMultiPlaying (st : SdelaySt) (sampleAdc sampleAudio : Mem Int16)
    (sampleAdcLen : UInt16) : Option (SdelaySt × Mem Int16) :=
  hwordLoop (frameBody mixMulti (stereosAt sampleAdc)) (sampleAdcLen >>> 1).toNat 0
    (st, sampleAudio)

end Loop

section Calls

/-- The `n` frames of a buffer from frame `k` on. -/
def framesFrom {ι : Type} (input : Mem Int16 → Nat → ι) (m : Mem Int16) : Nat → Nat → List ι
  | _, 0 => []
  | k, n + 1 => input m (2 * k) :: framesFrom input m (k + 1) n

/-- The arguments of a call of even half-word length. -/
structure SingleCall where
  sample : Mem Int16
  simpleLenByte : UInt16
  even : (simpleLenByte >>> 1).toNat % 2 = 0

structure MultiCall where
  sampleAdc : Mem Int16
  sampleAudio : Mem Int16
  sampleAdcLen : UInt16
  even : (sampleAdcLen >>> 1).toNat % 2 = 0

def SingleCall.frames (c : SingleCall) : Nat := (c.simpleLenByte >>> 1).toNat / 2

def MultiCall.frames (c : MultiCall) : Nat := (c.sampleAdcLen >>> 1).toNat / 2

/-- The part of the stream that a call processes. -/
def SingleCall.stream (c : SingleCall) : List Stereo := framesFrom stereoAt c.sample 0 c.frames

def MultiCall.stream (c : MultiCall) : List (Stereo × Stereo) :=
  framesFrom (stereosAt c.sampleAdc) c.sampleAudio 0 c.frames

/-- One call with the frames it leaves in its buffer. -/
def SingleCall.run (st : SdelaySt) (c : SingleCall) : Option (SdelaySt × List Stereo) :=
  (sdlyMixerSinglePlaying st c.sample c.simpleLenByte).map fun s =>
    (s.1, framesFrom stereoAt s.2 0 c.frames)

def MultiCall.run (st : SdelaySt) (c : MultiCall) : Option (SdelaySt × List Stereo) :=
  (sdlyMixerMultiPlaying st c.sampleAdc c.sampleAudio c.sampleAdcLen).map fun s =>
    (s.1, framesFrom stereoAt s.2 0 c.frames)

/-- Calls one after the other, with all the frames that come out. -/
def playAll {κ : Type} (run : SdelaySt → κ → Option (SdelaySt × List Stereo)) :
    SdelaySt → List κ → Option (SdelaySt × List Stereo)
  | st, [] => some (st, [])
  | st, c :: cs => do
    let (t, out) ← run st c
    let (t', outs) ← playAll run t cs
    some (t', out ++ outs)

end Calls

end BdkRtt.Audio
