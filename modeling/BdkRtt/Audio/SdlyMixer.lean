import BdkRtt.Audio.SoundDelay
import BdkRtt.Lib.Machine

namespace BdkRtt.Audio

open Lib

/-- `SDLY_MAX_FIFO_SIZE_8K` -/
def sdlyMaxFifoSize8k : Nat := 1440 + 1

/-- `SDELAY_ST` -/
structure SdelayEntity extends SdelaySt where
  audioFreq : UInt32
  maxSampleTime : UInt32
  sampleTime : UInt32
  decayValue : Int32
  sampleTimeAdc : UInt32
  decayValueAdc : Int32

section Setting

def sdlySetMixerDefaultValue (e : SdelayEntity) : SdelayEntity :=
  { e with decayValue := 50, pcmVol := 30, micphoneVol := 50 }

/-- The other branch of `sdly_config` has 44100 Hz whatever `freq` is. -/
def sdlyConfig (freq : UInt32) (e : SdelayEntity) : SdelayEntity :=
  if freq = 8000 then
    { e with
      fifo := e.fifo.write 0 (List.replicate sdlyMaxFifoSize8k 0)
      maxSampleTime := 1440 * 1000 / 8000
      sampleTime := 180
      audioFreq := 8000
      sampleLen := 8000 * 180 / 1000
      opPtr := 8000 * 180 / 1000
      status := .stop }
  else
    { e with
      fifo := e.fifo.write 0 (List.replicate sdlyMaxFifoSize 0)
      maxSampleTime := 8640 * 1000 / 44100
      sampleTime := 180
      audioFreq := 44100
      sampleLen := 44100 * 180 / 1000
      opPtr := 44100 * 180 / 1000
      status := .stop }

/-- `sdly_init`, for what `sdram_malloc` gave to `sdly_init_mixer_entity`. -/
def sdlyInit (g : Option SdelayEntity) : Option SdelayEntity :=
  g.map fun e => sdlyConfig 8000 (sdlySetMixerDefaultValue e)

def sampleTimeOf (adc : UInt32) : UInt32 :=
  if adc < 2 then 6 else 6 + (adc <<< (1 : UInt32)) + adc

def sampleLenOf (audioFreq sampleTime : UInt32) : Nat := (audioFreq * sampleTime / 1000).toNat

def sdlyChangeSampleTimeByadc (time : UInt32) (e : SdelayEntity) : SdelayEntity :=
  let adc := time >>> 4
  if e.sampleTimeAdc = adc then e
  else
    let sampleTime := sampleTimeOf adc
    let size := if e.audioFreq = 8000 then sdlyMaxFifoSize8k else sdlyMaxFifoSize
    let len := sampleLenOf e.audioFreq sampleTime
    let len := if len ≥ size then size - 1 else len
    { e with
      sampleTimeAdc := adc
      -- both limits are 180 ms
      sampleTime := if sampleTime > 180 then 180 else sampleTime
      sampleLen := len
      fifo := e.fifo.write 0 (List.replicate (len + 1) 0)
      opPtr := len }

/-- There is one limit here, for both rates. -/
def sdlySetSampleVol (vol : UInt8) (e : SdelayEntity) : SdelayEntity :=
  let adc := vol.toUInt32
  let decay := Int32.ofNat vol.toNat
  if e.sampleTimeAdc = adc ∨ e.decayValueAdc = decay then e
  else
    let sampleTime := sampleTimeOf adc
    let len := sampleLenOf e.audioFreq sampleTime
    let len := if len ≥ sdlyMaxFifoSize then sdlyMaxFifoSize - 1 else len
    { e with
      sampleTimeAdc := adc
      decayValueAdc := decay
      sampleTime := sampleTime
      sampleLen := len
      fifo := e.fifo.write 0 (List.replicate (len + 1) 0)
      opPtr := len
      decayValue := if decay = 0 then 1 else decay + (decay >>> 1) }

end Setting

section Playing

/-- The half-words of its sample buffers and of `fifo` that a call reads or writes. -/
structure Touches where
  sample : List Nat
  fifo : List Nat

def Touches.none : Touches := ⟨[], []⟩

/-- A round of one of the loops, with what it touches. -/
def tracedBody (body : Nat → SdelaySt × Mem Int16 → SdelaySt × Mem Int16) (i : Nat)
    (r : (SdelaySt × Mem Int16) × Touches) : (SdelaySt × Mem Int16) × Touches :=
  (body i r.1, { sample := r.2.sample ++ [i, i + 1], fifo := r.2.fifo ++ [r.1.1.opPtr] })

abbrev Played := (SdelaySt × Mem Int16) × Touches

/-- `sdly_mixer_single_playing` with what it touches. -/
def singleTouches (st : SdelaySt) (sample : Mem Int16) (simpleLenByte : UInt16) : Option Played :=
  hwordLoop (tracedBody (frameBody mixSingle stereoAt)) (simpleLenByte >>> 1).toNat 0
    ((st, sample), .none)

/-- `sdly_mixer_multi_playing` with what it touches, in both of its buffers. -/
def multiTouches (st : SdelaySt) (sampleAdc sampleAudio : Mem Int16) (sampleAdcLen : UInt16) :
    Option Played :=
  hwordLoop (tracedBody (frameBody mixMulti (stereosAt sampleAdc))) (sampleAdcLen >>> 1).toNat 0
    ((st, sampleAudio), .none)

end Playing

inductive SdlyCall
  | config (freq : UInt32)
  | changeSampleTimeByadc (time : UInt32)
  | setSampleVol (vol : UInt8)
  | startPlay
  | single (sample : Mem Int16) (simpleLenByte : UInt16)
  | multi (sampleAdc sampleAudio : Mem Int16) (sampleAdcLen : UInt16)

/-- What a call does while `sound_delay_ptr` is `NULL`: the setters return, the others use it.
The mixers do so in their loop only. -/
def SdlyCall.orphan : SdlyCall → Option Touches
  | .config _ => some .none
  | .changeSampleTimeByadc _ => some .none
  | .setSampleVol _ => some .none
  | .startPlay => none
  | .single _ len => if (len >>> 1).toNat = 0 then some .none else none
  | .multi _ _ len => if (len >>> 1).toNat = 0 then some .none else none

def SdelayEntity.play (e : SdelayEntity) (r : Played) : SdelayEntity × Touches :=
  ({ e with toSdelaySt := r.1.1 }, r.2)

def SdlyCall.run (e : SdelayEntity) : SdlyCall → Option (SdelayEntity × Touches)
  | .config freq => some (sdlyConfig freq e, .none)
  | .changeSampleTimeByadc time => some (sdlyChangeSampleTimeByadc time e, .none)
  | .setSampleVol vol => some (sdlySetSampleVol vol e, .none)
  | .startPlay => some ({ e with toSdelaySt := sdlyStartPlay e.toSdelaySt }, .none)
  | .single sample len => (singleTouches e.toSdelaySt sample len).map e.play
  | .multi sampleAdc sampleAudio len =>
    (multiTouches e.toSdelaySt sampleAdc sampleAudio len).map e.play

/-- `none` is a call that follows `NULL` or whose loop does not end. -/
def sdlyStep (s : Option SdelayEntity) (c : SdlyCall) : Option (Option SdelayEntity × Touches) :=
  match s with
  | none => c.orphan.map fun touches => (none, touches)
  | some e => (c.run e).map fun r => (some r.1, r.2)

def sdly (g : Option SdelayEntity) : Machine (Option SdelayEntity) SdlyCall Touches where
  init := sdlyInit g
  step := sdlyStep

end BdkRtt.Audio
