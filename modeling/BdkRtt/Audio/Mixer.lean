import BdkRtt.Audio.MixerSource
import BdkRtt.Lib.Machine

namespace BdkRtt.Audio.Mixer

open Lib

section State

/-- An audio device as the mixer uses it. -/
structure AudioDevice where
  isOpen : Bool
  rate : UInt32

def AudioDevice.opened (d : AudioDevice) : AudioDevice := { d with isOpen := true }
def AudioDevice.closed (d : AudioDevice) : AudioDevice := { d with isOpen := false }
def AudioDevice.setRate (d : AudioDevice) (rate : UInt32) : AudioDevice := { d with rate }

/-- `g_mixer` and what it is connected to.  The buffers of the `DATA` messages are numbered in the
order of the messages, and a byte of music is known by the number of its buffer. -/
structure State where
  isMuxSrc : Bool
  isThdPause : Bool
  audioSampleRate : UInt32
  musicSrcList : MusicSrcList Nat Nat
  /-- The free blocks of `mp`. -/
  mp : List Nat
  adcDev : AudioDevice
  dacDev : AudioDevice
  /-- The blocks of `mp` that the DAC has taken and not given back. -/
  dacBufs : List Nat
  dataCount : Nat
  /-- The `DATA` buffers given back to their pool. -/
  freedData : List Nat

def mpBlockSize : UInt32 := 1024
def mpBlockCount : Nat := 9

/-- `mixer_init` and `mixer_device_open` -/
def mixerDeviceOpen : State where
  isMuxSrc := false
  isThdPause := false
  audioSampleRate := 8000
  musicSrcList := []
  mp := List.range mpBlockCount
  adcDev := ⟨true, 8000⟩
  dacDev := ⟨true, 8000⟩
  dacBufs := []
  dataCount := 0
  freedData := []

def State.flush (s : State) : State :=
  let r := mixerMusicSrcFlush s.musicSrcList
  { s with musicSrcList := r.1, freedData := s.freedData ++ r.2 }

end State

section Messages

/-- `MIXER_MSG_T`; `malloc` says whether there is memory for the node of a buffer. -/
inductive Msg
  | audioSrcFlow
  | audioSrcStatic
  | audioSetSampleRate (rate : UInt32)
  | pauseMixer
  | replayMixer
  | data (len : UInt32) (malloc : Bool)
  deriving DecidableEq

def dataBuf (n : Nat) (len : UInt32) : MusicBuf Nat Nat where
  buf := n
  data := List.replicate len.toNat n
  length_lt := by
    rw [List.length_replicate]
    exact UInt32.toNat_lt len

/-- The `switch` of `mixer_entry`. -/
def State.receive (s : State) : Msg → State
  | .audioSrcFlow =>
    if s.isThdPause then { s with dacDev := s.dacDev.opened } else { s with isMuxSrc := true }
  | .audioSrcStatic =>
    if s.isThdPause then { s with dacDev := s.dacDev.closed }
    else { s with isMuxSrc := false }.flush
  | .audioSetSampleRate rate =>
    if s.isThdPause then { s with dacDev := s.dacDev.setRate rate }
    else if s.audioSampleRate ≠ rate then
      { s with
        audioSampleRate := rate
        adcDev := s.adcDev.setRate rate
        dacDev := s.dacDev.setRate rate }
    else s
  | .pauseMixer =>
    let s := { s with isThdPause := true, adcDev := s.adcDev.closed }
    let s := if s.isMuxSrc then s else { s with dacDev := s.dacDev.closed }
    s.flush
  | .replayMixer =>
    { s with
      adcDev := s.adcDev.opened.setRate s.audioSampleRate
      dacDev := s.dacDev.opened.setRate s.audioSampleRate
      isThdPause := false }
  | .data len malloc =>
    let r := mixerMusicSrcIn s.isMuxSrc malloc (dataBuf s.dataCount len) s.musicSrcList
    { s with
      musicSrcList := r.1
      freedData := s.freedData ++ r.2
      dataCount := s.dataCount + 1 }

end Messages

section Rounds

/-- `mixer_sound_read`, after `readBytes`; `mic` are the results that the microphone still has,
0 from then on. -/
def mixerSoundRead (size : UInt32) : (mic : List UInt32) → (readBytes : UInt32) → UInt32
  | [], readBytes => readBytes
  | r :: mic, readBytes =>
    if readBytes < size then
      let rb := min r (size - readBytes)
      if rb = 0 then readBytes else mixerSoundRead size mic (readBytes + rb)
    else readBytes

/-- `rt_device_write`: the DAC takes at most what it is given. -/
def rtDeviceWrite (wr size : UInt32) : UInt32 := min wr size

/-- What a round hands to the DAC: the music in the block, for each byte the number of its
buffer. -/
abbrev Played := List Nat

/-- `mixer_single_acoustics`; a byte that is read makes two. -/
def State.singleAcoustics (s : State) (mic : List UInt32) (wr : UInt32) : State :=
  match s.mp with
  | [] => s
  | exchangeBuf :: mp =>
    let readBytes := mixerSoundRead (mpBlockSize >>> 1) mic 0
    if readBytes = 0 then s
    else
      let readBytes := readBytes * 2
      if rtDeviceWrite wr readBytes ≠ readBytes then s
      else { s with mp, dacBufs := s.dacBufs ++ [exchangeBuf] }

def State.expectedLen (s : State) : UInt32 :=
  min (mixerMusicSrcGetDataLen s.musicSrcList) mpBlockSize

/-- `mixer_mux_acoustics`; `none` where an assertion fails. -/
def State.muxAcoustics (s : State) (mic : List UInt32) (wr : UInt32) : Option (State × Played) :=
  match s.mp with
  | outsideSrcBuf :: insideSrcBuf :: mp =>
    let expectedLen := s.expectedLen
    if expectedLen = 0 then some ({ s with mp := insideSrcBuf :: outsideSrcBuf :: mp }, [])
    else if expectedLen &&& 1 = 1 then none
    else
      let readBytes := mixerSoundRead (expectedLen >>> 1) mic 0 * 2
      let got := mixerMusicSrcGetData true readBytes s.musicSrcList
      let insideDataLen := got.length
      if insideDataLen ≠ readBytes then none
      else
        let s := { s with
          musicSrcList := got.list
          freedData := s.freedData ++ got.freed
          mp := outsideSrcBuf :: mp }
        if rtDeviceWrite wr insideDataLen ≠ insideDataLen then
          some ({ s with mp := insideSrcBuf :: s.mp }, [])
        else
          -- the DAC takes the block if there is anything in it
          some ({ s with
            dacBufs := if insideDataLen = 0 then s.dacBufs else s.dacBufs ++ [insideSrcBuf] },
            got.copied)
  | _ => some (s, [])

/-- What follows the `switch` in the loop of `mixer_entry`. -/
def State.round (s : State) (mic : List UInt32) (wr : UInt32) : Option (State × Played) :=
  if s.isThdPause then some (s, [])
  else if s.isMuxSrc then s.muxAcoustics mic wr
  else some (s.singleAcoustics mic wr, [])

end Rounds

section Machine

/-- A turn of the loop has no message where the wait for one has timed out. -/
inductive Event
  | turn (msg : Option Msg) (mic : List UInt32) (wr : UInt32)
  /-- The DAC gives a block back. -/
  | dacDone

/-- The mixer and an observer of the messages, who knows whether the last of `FLOW` and `STATIC`
was `FLOW`, the same for those that came while the mixer was playing, and how many `DATA` messages
came before the last `PAUSE` or `STATIC`. -/
structure Watched where
  mixer : State
  lastFlow : Bool
  lastFlowPlaying : Bool
  mark : Nat

def Watched.hear (w : Watched) : Msg → Watched
  | .audioSrcFlow =>
    { w with
      mixer := w.mixer.receive .audioSrcFlow
      lastFlow := true
      lastFlowPlaying := if w.mixer.isThdPause then w.lastFlowPlaying else true }
  | .audioSrcStatic =>
    { mixer := w.mixer.receive .audioSrcStatic
      lastFlow := false
      lastFlowPlaying := if w.mixer.isThdPause then w.lastFlowPlaying else false
      mark := w.mixer.dataCount }
  | .pauseMixer =>
    { w with mixer := w.mixer.receive .pauseMixer, mark := w.mixer.dataCount }
  | msg => { w with mixer := w.mixer.receive msg }

/-- What the DAC gets of the music, and the mark that stood at the time. -/
structure Answer where
  played : Played
  mark : Nat

def Watched.step (w : Watched) : Event → Option (Watched × Answer)
  | .turn msg mic wr =>
    let w := msg.elim w w.hear
    (w.mixer.round mic wr).map fun r => ({ w with mixer := r.1 }, ⟨r.2, w.mark⟩)
  | .dacDone =>
    match w.mixer.dacBufs with
    | [] => none
    | b :: dacBufs =>
      some ({ w with mixer := { w.mixer with dacBufs, mp := b :: w.mixer.mp } }, ⟨[], w.mark⟩)

def mixerEntry : Machine Watched Event Answer where
  init := ⟨mixerDeviceOpen, false, false, 0⟩
  step := Watched.step

end Machine

end BdkRtt.Audio.Mixer
