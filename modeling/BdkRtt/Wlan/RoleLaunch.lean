import BdkRtt.Lib.Machine

namespace BdkRtt.Wlan

open Lib

inductive LaunchReqType
  | sta | ap | pureStaScan | delifSta | delifAp
  deriving DecidableEq

structure LaunchReq where
  reqType : LaunchReqType
  deriving DecidableEq

inductive LaunchType
  | asap | reconn
  deriving DecidableEq

/-- `RL_ENTITY_T`, with the number of the allocation it came from. -/
structure RlEntity where
  id : Nat
  launchType : LaunchType
  relaunchLimit : UInt32
  launchCount : UInt32
  rlaunch : LaunchReq
  deriving DecidableEq

def rlAllocEntity (id : Nat) (param : LaunchReq) : RlEntity := ⟨id, .asap, 0, 0, param⟩

def RlEntity.relaunchedOut (e : RlEntity) : Bool :=
  e.relaunchLimit ≠ 0 && e.relaunchLimit ≤ e.launchCount

/-- The slots of one role: `jl_previous_sta` and `jl_following_sta`, or those of the AP. -/
structure Lane where
  previous : Option RlEntity
  following : Option RlEntity
  deriving DecidableEq

inductive PreEntityType
  | idle | sta | ap | mesh
  deriving DecidableEq

inductive LaunchStatus
  | over | cont
  deriving DecidableEq

def rlStatusStaIniting : UInt32 := 1
def rlStatusStaScanning : UInt32 := 2
def rlStatusStaScanOver : UInt32 := 3
def rlStatusStaConnecting : UInt32 := 4
def rlStatusStaDhcping : UInt32 := 5
def rlStatusMroleChannelSwitching : UInt32 := 6
def rlStatusMroleChannelSwitched : UInt32 := 7
def rlStatusStaLaunched : UInt32 := 9
def rlStatusStaLaunchFailed : UInt32 := 10
def rlStatusApTransmittedBcn : UInt32 := 0x14
def rlStatusApLaunched : UInt32 := 0x15
def rlStatusCancel : UInt32 := 0x8000

def rlPrivStatusMask : UInt32 := 0x00FF0000
def rlPrivStatusStaAdv : UInt32 := 0x00010000
def rlPrivStatusStaAdvRdy : UInt32 := 0x00020000
def rlStStatusMask : UInt32 := 0xFF000000
def rlStStatusRestartHold : UInt32 := 0x01000000
def rlStStatusRestartSt : UInt32 := 0x02000000
def rlStatusPause : UInt32 := 0x80

/-- `g_rl_socket`: the requests waiting for the enter timer. -/
structure RlSocket where
  staReq : Option LaunchReq
  apReq : Option LaunchReq
  deriving DecidableEq

/-- `g_role_launch`, `g_rl_socket`, `g_sta_cache` and `g_mrole_csa_flag`.  Of the timers it
has whether they run, of `rl_status` all but the two bits that are set and cleared again
within one call.  `allocated` counts the entities handed out. -/
structure RoleLaunch where
  enterTimer : Bool
  rlTimer : Bool
  rlStatus : UInt32
  preEntityType : PreEntityType
  preStaCancel : Bool
  preStaStatus : UInt32
  preApCancel : Bool
  preApStatus : UInt32
  sta : Lane
  ap : Lane
  mroleCsaFlag : UInt32
  socket : RlSocket
  staCache : Option LaunchReq
  allocated : Nat
  deriving DecidableEq

def RoleLaunch.zero : RoleLaunch where
  enterTimer := false
  rlTimer := false
  rlStatus := 0
  preEntityType := .idle
  preStaCancel := false
  preStaStatus := 0
  preApCancel := false
  preApStatus := 0
  sta := ⟨none, none⟩
  ap := ⟨none, none⟩
  mroleCsaFlag := 0
  socket := ⟨none, none⟩
  staCache := none
  allocated := 0

def RoleLaunch.setRlTimer (s : RoleLaunch) (b : Bool) : RoleLaunch := { s with rlTimer := b }

def RoleLaunch.setPreEntityType (s : RoleLaunch) (p : PreEntityType) : RoleLaunch :=
  { s with preEntityType := p }

def RoleLaunch.paused (s : RoleLaunch) : Bool := s.rlStatus &&& rlStatusPause ≠ 0

/-- `RL_STA_STATE_HOLD`: the restart hold bit without the restart bit. -/
def RoleLaunch.staHeld (s : RoleLaunch) : Bool :=
  s.rlStatus &&& (rlStStatusRestartHold ||| rlStStatusRestartSt) = rlStStatusRestartHold

def RoleLaunch.staAdmits (s : RoleLaunch) : Bool := !s.paused && !s.staHeld

def RoleLaunch.apAdmits (s : RoleLaunch) : Bool := !s.paused

/-- What happens to an entity: `rl_alloc_entity`, `rl_sta_request_start` or
`rl_ap_request_start`, `rl_free_entity`. -/
inductive Act
  | alloc (id : Nat)
  | start (id : Nat)
  | free (id : Nat)
  deriving DecidableEq

def rlPreStaInit (s : RoleLaunch) : RoleLaunch :=
  { s with preStaCancel := false, preStaStatus := 0 }

def rlPreApInit (s : RoleLaunch) : RoleLaunch :=
  { s with preApCancel := false, preApStatus := 0 }

def rlStaRequestStart (s : RoleLaunch) (req : LaunchReq) : RoleLaunch :=
  match req.reqType with
  | .sta | .pureStaScan => rlPreStaInit s
  | .delifSta | .ap | .delifAp => s

def rlApRequestStart (s : RoleLaunch) (req : LaunchReq) : RoleLaunch :=
  match req.reqType with
  | .ap => rlPreApInit s
  | .delifAp | .sta | .pureStaScan | .delifSta => s

def rlStaMayNextLaunch (s : RoleLaunch) : UInt32 :=
  let yes : UInt32 :=
    if s.mroleCsaFlag = rlStatusMroleChannelSwitched then 1
    else if s.preStaCancel ∧ (s.preStaStatus = rlStatusStaDhcping ∨
        s.preStaStatus = rlStatusStaIniting ∨ s.preStaStatus = rlStatusStaScanOver ∨
        s.preStaStatus = rlStatusStaConnecting) then 2
    else if s.preStaStatus = rlStatusStaLaunchFailed then 3
    else if s.preStaStatus = rlStatusStaLaunched then 4
    else 0
  if s.mroleCsaFlag = rlStatusMroleChannelSwitching then 0 else yes

def rlApMayNextLaunch (s : RoleLaunch) (preCancel : Bool) : UInt32 :=
  if preCancel = false then 1
  else
    let yes : UInt32 :=
      if s.preApStatus = rlStatusApTransmittedBcn + rlStatusCancel ∨
          s.preApStatus &&& ~~~rlStatusCancel = rlStatusApLaunched then 1
      else 0
    if s.mroleCsaFlag = rlStatusMroleChannelSwitching then 0 else yes

/-- What a launch function does to its role: the slots after it, the entities freed, the one
started, and its result. -/
structure LaneStep where
  lane : Lane
  freed : List RlEntity
  started : Option RlEntity
  ret : LaunchStatus
  deriving DecidableEq

/-- The body `rl_launch_sta` and `rl_launch_ap` have in common.  `mayNext` is whether the
entity in the previous slot may be given up, `admits` whether a start is allowed: where it is
not, the following entity is freed instead. -/
def Lane.launch (lane : Lane) (mayNext admits : Bool) : LaneStep :=
  match lane.previous with
  | none =>
    match lane.following with
    | none => ⟨lane, [], none, .over⟩
    | some next =>
      if admits then ⟨⟨some next, none⟩, [], some next, .cont⟩
      else ⟨⟨none, none⟩, [next], none, .over⟩
  | some pre =>
    if mayNext then
      match lane.following with
      | none => ⟨⟨none, none⟩, [pre], none, .over⟩
      | some next =>
        if admits then ⟨⟨some next, none⟩, [pre], some next, .cont⟩
        else ⟨⟨none, none⟩, [pre, next], none, .over⟩
    else ⟨lane, [], none, .cont⟩

/-- Whether the previous entity is to be cancelled: one waits that is to run as soon as
possible, or its own launches are used up. -/
def Lane.cancels (lane : Lane) : Bool :=
  lane.previous.isSome && lane.following.any (·.launchType = .asap) ||
    lane.previous.any (·.relaunchedOut)

def LaneStep.acts (r : LaneStep) : List Act :=
  r.freed.map (fun e => .free e.id) ++ r.started.toList.map fun e => .start e.id

/-- The start of the entity a launch function picked, if it picked one. -/
def startSta (s : RoleLaunch) : Option RlEntity → RoleLaunch
  | none => s
  | some e => rlStaRequestStart s e.rlaunch

def startAp (s : RoleLaunch) : Option RlEntity → RoleLaunch
  | none => s
  | some e => rlApRequestStart (rlPreApInit s) e.rlaunch

def rlLaunchSta (s : RoleLaunch) : RoleLaunch × List Act × LaunchStatus :=
  let s := { s with preStaCancel := s.preStaCancel || s.sta.cancels }
  let r := s.sta.launch (rlStaMayNextLaunch s ≠ 0) s.staAdmits
  (startSta { s with sta := r.lane } r.started, r.acts, r.ret)

def rlLaunchAp (s : RoleLaunch) : RoleLaunch × List Act × LaunchStatus :=
  let cancelPreFlag := s.ap.cancels
  let s := { s with preApCancel := s.preApCancel || cancelPreFlag }
  let r := s.ap.launch (rlApMayNextLaunch s cancelPreFlag ≠ 0) s.apAdmits
  (startAp { s with ap := r.lane } r.started, r.acts, r.ret)

/-- `rl_launch_handler`.  The timer has expired; it is started again unless both launches are
over. -/
def rlLaunchHandler (s : RoleLaunch) : RoleLaunch × List Act :=
  match s.preEntityType with
  | .ap =>
    let (s, apActs, apRet) := rlLaunchAp s
    if apRet = .over then
      let (s, staActs, staRet) := rlLaunchSta (s.setPreEntityType .sta)
      (s.setRlTimer (staRet = .cont), apActs ++ staActs)
    else (s.setRlTimer true, apActs)
  | .sta =>
    let (s, staActs, staRet) := rlLaunchSta s
    if staRet = .over then
      let (s, apActs, apRet) := rlLaunchAp (s.setPreEntityType .ap)
      (s.setRlTimer (apRet = .cont), staActs ++ apActs)
    else (s.setRlTimer true, staActs)
  | .idle | .mesh => (s.setRlTimer false, [])

/-- `_sta_request_enter`, with its result. -/
def staRequestEnter (s : RoleLaunch) (param : LaunchReq) : RoleLaunch × List Act × Nat :=
  let entity := rlAllocEntity s.allocated param
  let preEntityType := if s.preEntityType = .idle then .sta else s.preEntityType
  if s.ap.previous = none ∧ s.sta.previous = none ∧ s.staHeld = false then
    (rlStaRequestStart
      { s with
        sta := { s.sta with previous := some entity }
        preEntityType := preEntityType
        allocated := s.allocated + 1 } param,
      [.alloc entity.id, .start entity.id], 1)
  else if s.sta.following = none ∧ s.staHeld = false then
    ({ s with
        sta := { s.sta with following := some entity }
        rlTimer := true
        preEntityType := preEntityType
        allocated := s.allocated + 1 },
      [.alloc entity.id], 2)
  else ({ s with rlTimer := true }, [], 0)

/-- `_ap_request_enter`. -/
def apRequestEnter (s : RoleLaunch) (param : LaunchReq) : RoleLaunch × List Act :=
  let entity := rlAllocEntity s.allocated param
  let preEntityType := if s.preEntityType = .idle then .ap else s.preEntityType
  if s.ap.previous = none ∧ s.sta.previous = none then
    (rlApRequestStart
      { s with
        ap := { s.ap with previous := some entity }
        preEntityType := preEntityType
        allocated := s.allocated + 1 } param,
      [.alloc entity.id, .start entity.id])
  else if s.ap.following = none then
    ({ s with
        ap := { s.ap with following := some entity }
        rlTimer := true
        preEntityType := preEntityType
        allocated := s.allocated + 1 },
      [.alloc entity.id])
  else ({ s with rlTimer := true }, [])

/-- The station part of `rl_enter_handler`. -/
def enterSta (s : RoleLaunch) : Option LaunchReq → RoleLaunch × List Act
  | none => (s, [])
  | some param =>
    let (s, acts, ret) := staRequestEnter s param
    (if ret ≠ 0 ∧ param.reqType = .sta then { s with staCache := some param } else s, acts)

def enterAp (s : RoleLaunch) : Option LaunchReq → RoleLaunch × List Act
  | none => (s, [])
  | some param => apRequestEnter s param

/-- `rl_enter_handler`; `malloc` is whether its copy of the requests could be allocated. -/
def rlEnterHandler (s : RoleLaunch) (malloc : Bool) : RoleLaunch × List Act :=
  if malloc = false then (s, [])
  else
    let socket := s.socket
    let s := { s with socket := ⟨none, none⟩ }
    if s.paused then (s, [])
    else
      let (s, staActs) := enterSta s socket.staReq
      let (s, apActs) := enterAp s socket.apReq
      (s, staActs ++ apActs)

/-- The calls and updates that do not look at the slots. -/
inductive Update
  | staRequestEnter (param : LaunchReq)
  | apRequestEnter (param : LaunchReq)
  | staCacheRequestEnter (isMonitorMode : Bool)
  | staAdvRegisterCacheStation (param : LaunchReq)
  | preStaSetStatus (status : UInt32)
  | preApSetStatus (status : UInt32)
  | preStaSetCancel
  | preStaClearCancel
  | preApSetCancel
  | preApClearCancel
  | preStaInit
  | preApInit
  | initCsaStatus
  | setCsaSwitching
  | setCsaSwitched
  | setPause (en : Bool)
  | setPrivateState (st : UInt32)
  | resetPrivateState (st : UInt32)
  | setStState (st : UInt32)
  | resetStState (st : UInt32)
  deriving DecidableEq

def rlStatusResetPrivateState (s : RoleLaunch) (st : UInt32) : RoleLaunch :=
  { s with rlStatus := s.rlStatus &&& ~~~(st &&& rlPrivStatusMask) }

def rlStatusResetStState (s : RoleLaunch) (st : UInt32) : RoleLaunch :=
  { s with rlStatus := s.rlStatus &&& ~~~(st &&& rlStStatusMask) }

def rlStaRequestEnterHandle (s : RoleLaunch) (param : LaunchReq) : RoleLaunch :=
  { s with socket := { s.socket with staReq := some param }, enterTimer := true }

def rlStaRequestEnter (s : RoleLaunch) (param : LaunchReq) : RoleLaunch :=
  rlStaRequestEnterHandle (rlStatusResetStState s rlStStatusRestartHold) param

def rlApRequestEnter (s : RoleLaunch) (param : LaunchReq) : RoleLaunch :=
  { s with socket := { s.socket with apReq := some param }, enterTimer := true }

def rlStaCacheRequestEnter (s : RoleLaunch) (isMonitorMode : Bool) : RoleLaunch :=
  let staAdv := s.rlStatus &&& rlPrivStatusStaAdv ≠ 0
  let staAdvRdy := s.rlStatus &&& rlPrivStatusStaAdvRdy ≠ 0
  let t :=
    match s.staCache with
    | some param =>
      if isMonitorMode = false ∧ ¬ staAdvRdy ∧ s.staHeld = false then
        rlStaRequestEnterHandle
          (if staAdv then rlStatusResetPrivateState s rlPrivStatusStaAdv else s) param
      else if staAdv ∧ ¬ staAdvRdy then
        rlStaRequestEnter (rlStatusResetPrivateState s rlPrivStatusStaAdv) ⟨.delifSta⟩
      else s
    | none =>
      if staAdv ∧ ¬ staAdvRdy then
        rlStaRequestEnter (rlStatusResetPrivateState s rlPrivStatusStaAdv) ⟨.delifSta⟩
      else s
  { t with staCache := none }

def rlPreStaSetStatus (s : RoleLaunch) (status : UInt32) : RoleLaunch :=
  if status = rlStatusStaScanning ∧ s.preStaStatus ≠ rlStatusStaIniting ∧
      s.preStaStatus ≠ rlStatusStaScanOver then s
  else if status = rlStatusStaScanning ∧ s.preStaCancel then s
  else { s with preStaStatus := status }

def rlPreApSetStatus (s : RoleLaunch) (status : UInt32) : RoleLaunch :=
  { s with preApStatus := if s.preApCancel then status + rlStatusCancel else status }

def rlSetCsaSwitching (s : RoleLaunch) : RoleLaunch :=
  if s.preStaCancel ∨ s.preApCancel then s
  else { s with mroleCsaFlag := rlStatusMroleChannelSwitching }

def RoleLaunch.update (s : RoleLaunch) : Update → RoleLaunch
  | .staRequestEnter param => rlStaRequestEnter s param
  | .apRequestEnter param => rlApRequestEnter s param
  | .staCacheRequestEnter isMonitorMode => rlStaCacheRequestEnter s isMonitorMode
  | .staAdvRegisterCacheStation param => { s with staCache := some param }
  | .preStaSetStatus status => rlPreStaSetStatus s status
  | .preApSetStatus status => rlPreApSetStatus s status
  | .preStaSetCancel => { s with preStaCancel := true }
  | .preStaClearCancel => { s with preStaCancel := false }
  | .preApSetCancel => { s with preApCancel := true }
  | .preApClearCancel => { s with preApCancel := false }
  | .preStaInit => rlPreStaInit s
  | .preApInit => rlPreApInit s
  | .initCsaStatus => { s with mroleCsaFlag := 0 }
  | .setCsaSwitching => rlSetCsaSwitching s
  | .setCsaSwitched => { s with mroleCsaFlag := rlStatusMroleChannelSwitched }
  | .setPause true => { s with rlStatus := s.rlStatus ||| rlStatusPause }
  | .setPause false => { s with rlStatus := s.rlStatus &&& ~~~rlStatusPause }
  | .setPrivateState st => { s with rlStatus := s.rlStatus ||| (st &&& rlPrivStatusMask) }
  | .resetPrivateState st => rlStatusResetPrivateState s st
  | .setStState st => { s with rlStatus := s.rlStatus ||| (st &&& rlStStatusMask) }
  | .resetStState st => rlStatusResetStState s st

inductive LaunchEvent
  | update (u : Update)
  | enterExpires (malloc : Bool)
  | launchExpires
  deriving DecidableEq

/-- The role launcher from the zeroed `g_role_launch` on.  A timer expires only while it
runs, and is stopped then. -/
def roleLaunch : Machine RoleLaunch LaunchEvent (List Act) where
  init := .zero
  step s e :=
    match e with
    | .update u => some (s.update u, [])
    | .enterExpires malloc =>
      if s.enterTimer then some (rlEnterHandler { s with enterTimer := false } malloc) else none
    | .launchExpires => if s.rlTimer then some (rlLaunchHandler s) else none

end BdkRtt.Wlan
