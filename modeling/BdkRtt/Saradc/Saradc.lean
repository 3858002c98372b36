import BdkRtt.Lib.Machine
import Mathlib.Algebra.GroupWithZero.Nat

namespace BdkRtt.Saradc

open Lib

/-- `ADC_TEMP_BUFFER_SIZE` of the BK7231N. -/
abbrev adcTempBufferSize : Nat := 5 + 5

def adcTempSenserChannel : UInt8 := 7
def saradcAdcChnlMax : UInt8 := 12
def adcTempValMin : UInt16 := 50
def adcTempValMax : UInt16 := 700

inductive AdcClient
  | tadc | detect | single
  deriving DecidableEq

/-- A conversion: who started it, in which of its attempts, and on which channel. -/
structure Conv where
  client : AdcClient
  attempt : Nat
  channel : UInt8
  deriving DecidableEq

/-- A cell of a buffer, with the conversions its value has been computed from. -/
structure Cell where
  value : UInt16
  sources : List Conv
  deriving DecidableEq

def Cell.zero : Cell := ⟨0, []⟩

/-- `saradc_desc_t`, as far as the driver and the clients read it; the mode always has
`ADC_CONFIG_MODE_SHOULD_OFF`. -/
structure AdcDesc where
  channel : UInt8
  dataBuffSize : Nat
  currentSampleDataCnt : Nat
  hasData : Bool
  allDone : Bool
  pData : List Cell
  deriving DecidableEq

def AdcDesc.cell (d : AdcDesc) (i : Nat) : Cell := d.pData.getD i .zero

/-- Where a client is: not at it, at a turn of the loop around its open, waiting for the other
temperature client to be done, in front of its open, or waiting for the completion. -/
inductive AdcStage
  | idle
  | tries (n : Nat)
  | enables
  | opens
  | waits
  deriving DecidableEq

/-- A client: its descriptor, whether its handle is valid, the completions that have been
signalled to it (by its semaphore, or to the detection thread by `TMPD_INT_POLL`), and the
number of its attempts so far. -/
structure Party where
  desc : AdcDesc
  hdl : Bool
  stage : AdcStage
  signals : Nat
  attempt : Nat
  deriving DecidableEq

/-- The driver, its entry in the driver model, the hardware, and the clients; `hw` is the
conversion that fills the FIFO. -/
structure AdcState where
  busy : Bool
  current : AdcClient
  irq : Bool
  hw : Option Conv
  satCtrl : Nat
  opened : Bool
  useCnt : UInt32
  party : AdcClient → Party
  retryCount : Nat
  tempValue : UInt16

def AdcState.setParty (s : AdcState) (c : AdcClient) (p : Party) : AdcState :=
  { s with party := fun d => if d = c then p else s.party d }

/-- The conversion a client starts in its present attempt. -/
def Party.conv (p : Party) (c : AdcClient) : Conv := ⟨c, p.attempt, p.desc.channel⟩

/-- `saradc_open`, with whether it succeeds. -/
def saradcOpen (s : AdcState) (c : AdcClient) : AdcState × Bool :=
  let p := s.party c
  if saradcAdcChnlMax < p.desc.channel then (s, false)
  else if p.desc.dataBuffSize = 0 then (s, false)
  else if s.busy then (s, false)
  else
    ({ s with
        busy := true, current := c, irq := true, hw := some (p.conv c),
        satCtrl := if p.desc.channel = 8 then 3 else 1 }.setParty c
      { p with desc := { p.desc with hasData := false, allDone := false,
                                     currentSampleDataCnt := 0 } }, true)

/-- `saradc_close`. -/
def saradcClose (s : AdcState) : AdcState := { s with irq := false, hw := none, busy := false }

/-- `ddev_open` of the converter, with whether the status is success; the handle is valid
either way. -/
def ddevOpenSaradc (s : AdcState) (c : AdcClient) : AdcState × Bool :=
  if s.opened then ({ s with useCnt := s.useCnt + 1 }, false)
  else ({ (saradcOpen s c).1 with opened := true, useCnt := 0 + 1 }, (saradcOpen s c).2)

/-- `ddev_close` of a handle of the converter. -/
def ddevCloseSaradc (s : AdcState) (valid : Bool) : AdcState :=
  if valid then
    let s := { s with useCnt := s.useCnt - 1 }
    if s.useCnt = 0 then { saradcClose s with opened := false } else s
  else s

/-- The descriptor after a client has set it up. -/
def AdcDesc.prepared (channel : UInt8) : AdcDesc :=
  ⟨channel, adcTempBufferSize, 0, false, false, List.replicate adcTempBufferSize .zero⟩

def AdcDesc.from (d : AdcDesc) (value : Nat) (is : List Nat) : AdcDesc :=
  { d with pData := d.pData.set 0 ⟨UInt16.ofNat value, is.flatMap fun i => (d.cell i).sources⟩ }

def AdcDesc.value (d : AdcDesc) (i : Nat) : Nat := (d.cell i).value.toNat

/-- What a handler makes of the samples in the buffer. -/
def AdcDesc.computes (d : AdcDesc) (accuracy : Nat) : AdcClient → AdcDesc
  | .tadc =>
    let sum := ((d.value 1 + d.value 2) / 2 + (d.value 3 + d.value 4) / 2) / 2
    d.from (if accuracy ≠ 0 then sum >>> (accuracy - 1) else sum) [1, 2, 3, 4]
  | .detect =>
    let used := ([5, 6, 7, 8, 9].map d.value).filter fun v => v ≠ 0 && v ≠ 2048
    d.from (if used.length = 0 then 0 else used.sum / used.length / 4) [5, 6, 7, 8, 9]
  | .single =>
    let sum := ((d.value 6 + d.value 7) / 2 + (d.value 8 + d.value 9) / 2) / 2
    d.from (sum / 4) [6, 7, 8, 9]

/-- What `sadc_detect_handler`, `temp_detect_handler` and `temp_single_detect_handler` do with
a full buffer: close, compute, and signal, which for the detection thread can fail. -/
def completes (s : AdcState) (c : AdcClient) (sent : Bool) : AdcState :=
  let s := saradcClose (ddevCloseSaradc s (s.party c).hdl)
  let p := s.party c
  s.setParty c
    { p with
      hdl := false
      desc := p.desc.computes s.satCtrl c
      signals := if c ≠ .detect ∨ sent then p.signals + 1 else p.signals }

/-- The handler of the descriptor; that of the detection does nothing without a handle. -/
def adcHandler (s : AdcState) (c : AdcClient) (sent : Bool) : AdcState :=
  let p := s.party c
  if c = .detect ∧ p.hdl = false then s
  else if p.desc.dataBuffSize ≤ p.desc.currentSampleDataCnt then completes s c sent
  else s

/-- A sample goes into the next place of the buffer. -/
def AdcDesc.stores (d : AdcDesc) (value : UInt16) (hw : Option Conv) : AdcDesc :=
  { d with
    pData := d.pData.set d.currentSampleDataCnt ⟨value, hw.toList⟩
    currentSampleDataCnt := d.currentSampleDataCnt + 1
    hasData := true }

/-- The loop of `saradc_isr` over what the FIFO holds, with the places written.  A full buffer
pauses the converter, which empties the FIFO. -/
def isrLoop (s : AdcState) : List UInt16 → AdcState × List Nat
  | [] => (s, [])
  | v :: vs =>
    let p := s.party s.current
    let d := p.desc
    if d.currentSampleDataCnt < d.dataBuffSize then
      let s' := s.setParty s.current { p with desc := d.stores v s.hw }
      if d.currentSampleDataCnt + 1 = d.dataBuffSize then
        ({ s' with hw := none }, [d.currentSampleDataCnt])
      else ((isrLoop s' vs).1, d.currentSampleDataCnt :: (isrLoop s' vs).2)
    else isrLoop s vs

/-- `saradc_isr`. -/
def saradcIsr (s : AdcState) (values : List UInt16) (sent : Bool) : AdcState × List Nat :=
  let r := isrLoop s values
  let s := r.1
  let p := s.party s.current
  if p.desc.dataBuffSize ≤ p.desc.currentSampleDataCnt then
    (adcHandler (s.setParty s.current { p with desc := { p.desc with allDone := true } })
      s.current sent, r.2)
  else (s, r.2)

/-- What others see of a step: the places of the buffer of the current descriptor that were
written, and a value a client takes for the result of its attempt. -/
structure AdcAnswer where
  stored : List Nat
  report : Option (AdcClient × Cell)
  deriving DecidableEq

def AdcState.setStage (s : AdcState) (c : AdcClient) (stage : AdcStage) : AdcState :=
  s.setParty c { s.party c with stage := stage }

def AdcState.quietly (s : AdcState) : Option (AdcState × AdcAnswer) := some (s, ⟨[], none⟩)

/-- `tadc_obj_handler` up to its loop. -/
def tadcObjHandler (s : AdcState) (channel : UInt8) : AdcState :=
  let p := s.party .tadc
  s.setParty .tadc
    { p with desc := .prepared channel, stage := .tries 0, attempt := p.attempt + 1 }

/-- A turn of the loop of `tadc_obj_handler`, the `n`-th from zero. -/
def tadcTries (s : AdcState) (n : Nat) : AdcState :=
  if s.busy = false then
    let s := (ddevOpenSaradc s .tadc).1
    s.setParty .tadc { s.party .tadc with hdl := true, stage := .waits }
  else s.setStage .tadc (if n + 1 = 5 then .idle else .tries (n + 1))

/-- `temp_detect_enable` behind its wait, up to the open; `temp_detect_desc_init`. -/
def tempDetectDescInit (s : AdcState) : AdcState :=
  let p := s.party .detect
  s.setParty .detect
    { p with
      desc := { p.desc with hasData := false, currentSampleDataCnt := 0 }
      stage := .opens
      attempt := p.attempt + 1 }

/-- `temp_detect_open`. -/
def tempDetectOpen (s : AdcState) : AdcState :=
  if s.busy then
    s.setParty .detect { s.party .detect with hdl := false, stage := .idle }
  else
    let r := ddevOpenSaradc s .detect
    let s := if r.2 then r.1 else ddevCloseSaradc r.1 true
    s.setParty .detect { s.party .detect with hdl := r.2, stage := .idle }

/-- `temp_single_get_enable` behind its wait, up to the open; `temp_single_get_desc_init`. -/
def tempSingleGetDescInit (s : AdcState) : AdcState :=
  let p := s.party .single
  s.setParty .single
    { p with
      desc := .prepared adcTempSenserChannel, stage := .opens, attempt := p.attempt + 1 }

/-- The open of `temp_single_get_enable`, which looks at the handle and not at the status. -/
def tempSingleOpen (s : AdcState) : AdcState :=
  let s := (ddevOpenSaradc s .single).1
  s.setParty .single { s.party .single with hdl := true, stage := .waits }

/-- The end of a turn of `temp_single_get_current_temperature`, with what `temp_value` is. -/
def tempSingleTurns (s : AdcState) (value : UInt16) : AdcState :=
  let s := { s with tempValue := value, retryCount := s.retryCount - 1 }
  s.setStage .single
    (if (adcTempValMin < value ∧ value < adcTempValMax) ∨ s.retryCount = 0 then .idle
      else .enables)

/-- Taking a signal. -/
def AdcState.takes (s : AdcState) (c : AdcClient) : AdcState :=
  s.setParty c { s.party c with signals := (s.party c).signals - 1 }

inductive AdcEvent
  | tadcStarts (channel : UInt8)
  | tadcTries
  | tadcWakes
  | tadcTimesOut
  | detectEnables
  | detectInits
  | detectOpens
  | detectPolls
  | singleStarts
  | singleInits
  | singleOpens
  | singleWakes
  | singleTimesOut
  | isr (values : List UInt16) (sent : Bool)
  deriving DecidableEq

/-- The converter and its clients, each in a thread of its own.  What a client does with
interrupts disabled is one step, and so are its setting up of its descriptor and the
interrupt. -/
def saradc : Machine AdcState AdcEvent AdcAnswer where
  init :=
    { busy := false, current := .tadc, irq := false, hw := none, satCtrl := 0, opened := false,
      useCnt := 0, retryCount := 0, tempValue := 0
      party := fun c =>
        ⟨if c = .detect then .prepared adcTempSenserChannel else ⟨0, 0, 0, false, false, []⟩,
          false, .idle, 0, 0⟩ }
  step s e :=
    let detect := s.party .detect
    let single := s.party .single
    let tadc := s.party .tadc
    match e with
    | .tadcStarts channel =>
      if tadc.stage = .idle then (tadcObjHandler s channel).quietly else none
    | .tadcTries =>
      match tadc.stage with
      | .tries n => (tadcTries s n).quietly
      | _ => none
    | .tadcWakes =>
      if tadc.stage = .waits ∧ tadc.signals ≠ 0 then
        some ((s.takes .tadc).setStage .tadc .idle, ⟨[], some (.tadc, tadc.desc.cell 0)⟩)
      else none
    | .tadcTimesOut =>
      if tadc.stage = .waits ∧ tadc.signals = 0 then (s.setStage .tadc .idle).quietly else none
    | .detectEnables =>
      if detect.stage = .idle then
        (if detect.hdl then s else s.setStage .detect .enables).quietly
      else none
    | .detectInits =>
      if detect.stage = .enables ∧ single.hdl = false then (tempDetectDescInit s).quietly
      else none
    | .detectOpens => if detect.stage = .opens then (tempDetectOpen s).quietly else none
    | .detectPolls =>
      if detect.stage = .idle ∧ detect.signals ≠ 0 then
        some (s.takes .detect, ⟨[], some (.detect, detect.desc.cell 0)⟩)
      else none
    | .singleStarts =>
      if single.stage = .idle then
        ({ s with retryCount := 3, tempValue := 0 }.setStage .single .enables).quietly
      else none
    | .singleInits =>
      if single.stage = .enables ∧ detect.hdl = false then (tempSingleGetDescInit s).quietly
      else none
    | .singleOpens => if single.stage = .opens then (tempSingleOpen s).quietly else none
    | .singleWakes =>
      if single.stage = .waits ∧ single.signals ≠ 0 then
        some (tempSingleTurns (s.takes .single) (single.desc.cell 0).value,
          ⟨[], some (.single, single.desc.cell 0)⟩)
      else none
    | .singleTimesOut =>
      if single.stage = .waits ∧ single.signals = 0 then
        (tempSingleTurns s s.tempValue).quietly
      else none
    | .isr values sent =>
      if s.irq = true ∧ s.hw ≠ none then
        some ((saradcIsr s values sent).1, ⟨(saradcIsr s values sent).2, none⟩)
      else none

end BdkRtt.Saradc
