import BdkRtt.Wlan.Msdu

namespace BdkRtt.Wlan

open Lib

def acVi : Nat := 2

/-- What `rwm_transfer_node` reads of an interface: whether it is active, whether the station
it has joined is capable of QoS, and the access categories under admission control. -/
structure VifInfo where
  active : Bool
  qosNeedEnabled : Bool
  acm : UInt8

/-- What `rwm_transfer_node` finds: the interface of the node, the table `mac_tid2ac`, and
whether the descriptor `tx_txdesc_prepare` gives for a queue is in use. -/
structure TransferEnv where
  vif : Option VifInfo
  macTid2ac : UInt8 → Nat
  txdescUsed : Nat → Bool

/-- Without `CFG_WFA_CERTIFICATION`. -/
def classify8021d : UInt8 := 4

/-- The admission-control loop, from an access category down. -/
def admittedAc (acm : UInt8) : Nat → Option Nat
  | 0 => if acm.toNat.testBit 0 then none else some 0
  | i + 1 => if acm.toNat.testBit (i + 1) then admittedAc acm i else some (i + 1)

def TransferEnv.queueIdx (env : TransferEnv) : Option Nat :=
  env.vif.bind fun vif =>
    if vif.active then
      if vif.qosNeedEnabled then admittedAc vif.acm (env.macTid2ac classify8021d) else some acVi
    else some acVi

/-- Whether `rwm_transfer_node` comes to `txu_cntrl_push`. -/
def TransferEnv.pushes (env : TransferEnv) : Bool :=
  env.queueIdx.any fun queueIdx => !env.txdescUsed queueIdx

/-- What moves the packet counter, and what it counts.  A `dec` of `none` is one that no frame
goes with. -/
inductive PckAct
  | inc (node : MsduNode)
  | dec (node : Option MsduNode)
  | push (node : MsduNode)
  | confirm (node : MsduNode)
  deriving DecidableEq

/-- The part of what the functions do that is about the counter: an increment is for the node
handed on behind it, a decrement for the node dropped in front of it. -/
def pckActs : List MsduAct → List PckAct
  | [] => []
  | .incPckCnt :: .handed node _ :: acts => .inc node :: pckActs acts
  | .dropped node :: .decPckCnt :: acts => .dec (some node) :: pckActs acts
  | .decPckCnt :: acts => .dec none :: pckActs acts
  | .pushed node :: acts => .push node :: pckActs acts
  | _ :: acts => pckActs acts

def pushedNodes (acts : List PckAct) : List MsduNode :=
  acts.filterMap fun
    | .push node => some node
    | _ => none

/-- The buffer with the frames that have been pushed and are not confirmed. -/
structure PckState where
  aps : ApPs
  unconfirmed : List MsduNode

def PckState.takes (s : PckState) (r : ApPs × List MsduAct) : PckState × List PckAct :=
  (⟨r.1, s.unconfirmed ++ pushedNodes (pckActs r.2)⟩, pckActs r.2)

inductive PckEvent
  | msdu (e : MsduEvent)
  | coreContinues (env : TransferEnv)
  | confirm (node : MsduNode)

/-- The buffer with `NX_POWERSAVE`.  Whether a node handed to `rwm_transfer_node` is pushed
is decided by what that finds; the lower part confirms, and counts down, each pushed frame
once. -/
def pckCntrl (c : ApConfig) : Machine PckState PckEvent (List PckAct) where
  init := ⟨(apPs c).init, []⟩
  step s e :=
    match e with
    | .msdu (.coreContinues _) => none
    | .msdu e => ((apPs c).step s.aps e).map s.takes
    | .coreContinues env => ((apPs c).step s.aps (.coreContinues env.pushes)).map s.takes
    | .confirm node =>
      if node ∈ s.unconfirmed then
        some ({ s with unconfirmed := s.unconfirmed.erase node }, [.confirm node])
      else none

end BdkRtt.Wlan
