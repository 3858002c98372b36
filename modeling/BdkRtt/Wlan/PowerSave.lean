import BdkRtt.Lib.Machine

namespace BdkRtt.Wlan.PowerSave

open Lib

section State

/-- `PS_MODE_STATUS`, as far as it is set here. -/
inductive PsModeStatus
  | noPsMode | dtimPsMode
  deriving DecidableEq

/-- `PS_STA_BEACON_STATE` -/
inductive PsStaBeaconState
  | staGetInit | staGetTrue | staGetFalse | staGetTimeout
  deriving DecidableEq

/-- `PS_ARM_WAKEUP_WAY` -/
inductive PsArmWakeupWay
  | none | rw | peri | pwm | user | uping
  deriving DecidableEq

/-- `bk_ps_info` and the variables beside it that decide about sleep, and the register
`ICU_INTERRUPT_ENABLE`. -/
structure Ps where
  bkPsMode : PsModeStatus
  waitedBeacon : PsStaBeaconState
  psCanSleep : UInt8
  psRealSleep : UInt8
  psArmWakeupWay : PsArmWakeupWay
  psLock : UInt8
  psDisFlag : UInt32
  icuInterruptEnable : UInt32
  intEnableRegSave : UInt32

def coBit (pos : UInt32) : UInt32 := 1 <<< pos

/-- The bits 17 to 22: `FIQ_MAC_TX_RX_TIMER`, `FIQ_MAC_TX_RX_MISC`, `FIQ_MAC_RX_TRIGGER`,
`FIQ_MAC_TX_TRIGGER`, `FIQ_MAC_PROT_TRIGGER` and `FIQ_MAC_GENERAL`. -/
def macInterrupts : UInt32 :=
  coBit 18 ||| coBit 17 ||| coBit 19 ||| coBit 20 ||| coBit 22 ||| coBit 21

/-- Those that are looked at before the MAC goes to sleep: all but `FIQ_MAC_GENERAL`. -/
def macPending : UInt32 := coBit 18 ||| coBit 17 ||| coBit 19 ||| coBit 20 ||| coBit 21

/-- `FIQ_MAC_WAKEUP` -/
def macWakeup : UInt32 := coBit 26

def macArmWakeupEnBit : UInt32 := coBit 26

def needDisableBit : UInt32 := coBit 0
def needRebootBit : UInt32 := coBit 1

/-- Awake, with the MAC interrupts of the register enabled. -/
def awake (reg : UInt32) : Ps where
  bkPsMode := .noPsMode
  waitedBeacon := .staGetInit
  psCanSleep := 0
  psRealSleep := 0
  psArmWakeupWay := .none
  psLock := 1
  psDisFlag := 0
  icuInterruptEnable := reg ||| macInterrupts
  intEnableRegSave := 0

end State

section Sleep

/-- What `power_save_sleep` finds around it. -/
structure SleepEnv where
  netIfIsUp : Bool
  roleIsSta : Bool
  bleSwitchMacSleeped : Bool
  /-- `rwnxl_get_status_in_doze` -/
  inDoze : Bool
  /-- The register of the interrupts that are raised. -/
  intStatus : UInt32
  /-- Whether `rwnxl_sleep` puts the MAC to sleep. -/
  rwnxlSleep : Bool

/-- `PS_STA_DTIM_CAN_SLEEP` -/
def Ps.staDtimCanSleep (s : Ps) (env : SleepEnv) : Prop :=
  s.bkPsMode = .dtimPsMode ∧ env.netIfIsUp ∧ env.roleIsSta ∧
    (s.waitedBeacon = .staGetTrue ∨ s.psArmWakeupWay = .user) ∧ s.psCanSleep = 1

instance (s : Ps) (env : SleepEnv) : Decidable (s.staDtimCanSleep env) :=
  inferInstanceAs (Decidable (_ ∧ _))

def Ps.sleepStatusSet (s : Ps) : Ps := { s with psRealSleep := 1, psArmWakeupWay := .none }

/-- `power_save_sleep`, with interrupts disabled throughout. -/
def Ps.powerSaveSleep (s : Ps) (env : SleepEnv) : Ps × Bool :=
  if s.psRealSleep = 1 ∨ env.bleSwitchMacSleeped then (s, false)
  else if ¬ s.staDtimCanSleep env then (s, false)
  else if env.inDoze then (s, false)
  else if env.intStatus &&& macPending ≠ 0 then (s, false)
  else
    let s := { s with
      intEnableRegSave := s.icuInterruptEnable
      icuInterruptEnable := s.icuInterruptEnable &&& ~~~macInterrupts }
    if !env.rwnxlSleep then ({ s with icuInterruptEnable := s.intEnableRegSave }, false)
    else if s.psLock ≠ 0 then
      let s := { s with psLock := s.psLock - 1 }.sleepStatusSet
      ({ s with icuInterruptEnable := s.icuInterruptEnable ||| macWakeup }, true)
    else
      -- `ret` still is what `rwnxl_sleep` returned
      (s, true)

end Sleep

section Wakeup

/-- `power_save_wakeup`; `none` where the assertion fails. -/
def Ps.powerSaveWakeup (s : Ps) : Option Ps :=
  let s := { s with
    waitedBeacon := .staGetFalse
    icuInterruptEnable := (s.icuInterruptEnable ||| macInterrupts) &&& ~~~macWakeup }
  if s.psLock ≠ 0 then none else some { s with psLock := s.psLock + 1 }

/-- `power_save_dtim_exit_check`; the message that it sends comes back as another call. -/
def Ps.dtimExitCheck (s : Ps) : Ps :=
  if s.psDisFlag &&& needDisableBit ≠ 0 then
    { s with psDisFlag := s.psDisFlag &&& ~~~needDisableBit }
  else s

/-- A way above `PS_ARM_WAKEUP_NONE` and up to `PS_ARM_WAKEUP_USER`. -/
def PsArmWakeupWay.wakes : PsArmWakeupWay → Bool
  | .rw | .peri | .pwm | .user => true
  | .none | .uping => false

/-- `power_save_ieee_dtim_wakeup` -/
def Ps.ieeeDtimWakeup (s : Ps) : Option Ps :=
  if s.psArmWakeupWay.wakes ∧ s.psRealSleep ≠ 0 then
    s.powerSaveWakeup.map fun s => { s with psRealSleep := 0, psCanSleep := 1 }.dtimExitCheck
  else some s

/-- `power_save_dtim_wake`, which the interrupt of the MAC calls. -/
def Ps.dtimWake (s : Ps) (status : UInt32) : Option Ps :=
  if s.bkPsMode = .dtimPsMode ∧ s.psArmWakeupWay = .none ∧ status &&& macArmWakeupEnBit ≠ 0 then
    { s with
      icuInterruptEnable := s.icuInterruptEnable &&& ~~~macWakeup
      psArmWakeupWay := .rw }.ieeeDtimWakeup
  else some s

/-- `power_save_rf_dtim_manual_do_wakeup`, behind the part for the access point. -/
def Ps.rfDtimManualDoWakeup (s : Ps) (bleSwitchMacSleeped : Bool) : Option Ps :=
  if bleSwitchMacSleeped then some s
  else if s.bkPsMode = .dtimPsMode ∧ (s.psArmWakeupWay = .none ∨ s.psArmWakeupWay = .uping) ∧
      s.psRealSleep = 1 then
    { s with
      psArmWakeupWay := if s.psArmWakeupWay = PsArmWakeupWay.uping then .rw else .user
      icuInterruptEnable := s.icuInterruptEnable &&& ~~~macWakeup }.ieeeDtimWakeup
  else some s

end Wakeup

section Mode

/-- `power_save_dtim_enable_handler`; `connected` says that the station is at least connected. -/
def Ps.dtimEnableHandler (s : Ps) (connected : Bool) : Ps :=
  if connected then { s with psCanSleep := 1, bkPsMode := .dtimPsMode } else s

/-- `power_save_dtim_ps_exit` -/
def Ps.dtimPsExit (s : Ps) : Ps :=
  { s with waitedBeacon := .staGetInit, psCanSleep := 0, psRealSleep := 0 }

/-- `power_save_dtim_disable_handler`; `none` where it waits for the reboot. -/
def Ps.dtimDisableHandler (s : Ps) : Option Ps :=
  -- a station that sleeps is only reported
  let s := { s with bkPsMode := .noPsMode }.dtimPsExit
  if s.psDisFlag &&& needRebootBit ≠ 0 then none else some s

end Mode

section Machine

inductive Call
  | sleep (env : SleepEnv)
  | ieeeDtimWakeup
  | dtimWake (status : UInt32)
  | manualDoWakeup (bleSwitchMacSleeped : Bool)
  | enable (connected : Bool)
  | disable
  /-- `power_save_beacon_state_set`, from the handlers of the beacon and of the timers. -/
  | beaconStateSet (state : PsStaBeaconState)
  /-- `power_save_wkup_event_set` -/
  | wkupEventSet (value : UInt32)

inductive Answer
  | done
  | slept (ret : Bool)
  | assertFailed
  deriving DecidableEq

/-- Each call has its part of the state to itself: it runs with interrupts disabled, or in the
interrupt. -/
def Ps.step (s : Ps) : Call → Option (Ps × Answer)
  | .sleep env =>
    let r := s.powerSaveSleep env
    some (r.1, .slept r.2)
  | .ieeeDtimWakeup => some (woken s s.ieeeDtimWakeup)
  | .dtimWake status => some (woken s (s.dtimWake status))
  | .manualDoWakeup ble => some (woken s (s.rfDtimManualDoWakeup ble))
  | .enable connected => some (s.dtimEnableHandler connected, .done)
  | .disable => s.dtimDisableHandler.map fun s => (s, .done)
  | .beaconStateSet state => some ({ s with waitedBeacon := state }, .done)
  | .wkupEventSet value => some ({ s with psDisFlag := s.psDisFlag ||| value }, .done)
where
  woken (s : Ps) : Option Ps → Ps × Answer
    | none => (s, .assertFailed)
    | some t => (t, .done)

def powerSave (reg : UInt32) : Machine Ps Call Answer where
  init := awake reg
  step := Ps.step

end Machine

end BdkRtt.Wlan.PowerSave
