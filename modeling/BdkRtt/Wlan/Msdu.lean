import BdkRtt.Lib.Machine

namespace BdkRtt.Wlan

open Lib

/-- `MSDU_NODE_T`, with the number of its allocation for its address. -/
structure MsduNode where
  id : Nat
  vifIdx : UInt8
  staIdx : UInt8
  deriving DecidableEq

/-- What the functions of the power-save buffer do that others can see. -/
inductive MsduAct
  | received (node : MsduNode)
  | handed (node : MsduNode) (moreData : Bool)
  | freed (node : MsduNode)
  | dropped (node : MsduNode)
  | pushed (node : MsduNode)
  | incPckCnt
  | decPckCnt
  | timUpdate (staIdx : UInt8) (on : Bool)
  | txingSender (staIdx : UInt8)
  deriving DecidableEq

/-- Where the core thread is in `rwm_ps_tranfer_node` or `rwm_msdu_send_txing_node`. -/
inductive MsduCore
  | idle
  | buffers (node : MsduNode)
  | pushes (node : MsduNode)
  | transfers (node : MsduNode)
  | popped (node : MsduNode) (staIdx : UInt8)
  | sent (staIdx : UInt8) (nodeLeft : Nat)
  deriving DecidableEq

/-- A thread inside `rwm_flush_txing_list`, in its loop or behind it. -/
structure Flush where
  staIdx : UInt8
  looping : Bool
  deriving DecidableEq

/-- `g_ap_ps` with the power-save state of the stations and the threads at work on it. -/
structure ApPs where
  active : Bool
  txing : UInt8 → List MsduNode
  timer : UInt8 → Bool
  inPs : UInt8 → Bool
  core : MsduCore
  flushes : List Flush
  allocated : Nat

def setAt {α : Type*} (f : UInt8 → α) (i : UInt8) (a : α) : UInt8 → α :=
  fun j => if j = i then a else f j

/-- The interfaces that are access points, and `MAX_PS_STA_NUM`. -/
structure ApConfig where
  isApInface : UInt8 → Bool
  maxPsStaNum : Nat

/-- `rwm_push_txing_list`. -/
def rwmPushTxingList (c : ApConfig) (s : ApPs) (node : MsduNode) (staIdx : UInt8) : ApPs :=
  if c.maxPsStaNum ≤ staIdx.toNat then s
  else { s with txing := setAt s.txing staIdx (s.txing staIdx ++ [node]) }

/-- `rwm_pop_txing_list`. -/
def rwmPopTxingList (c : ApConfig) (s : ApPs) (staIdx : UInt8) : Option (MsduNode × ApPs) :=
  if c.maxPsStaNum ≤ staIdx.toNat then none
  else
    match s.txing staIdx with
    | [] => none
    | node :: rest => some (node, { s with txing := setAt s.txing staIdx rest })

def rwmTxlingListNodeCount (c : ApConfig) (s : ApPs) (staIdx : UInt8) : Nat :=
  if c.maxPsStaNum ≤ staIdx.toNat then 0 else (s.txing staIdx).length

/-- `rwm_ps_tranfer_node` up to the choice of the way the node takes. -/
def rwmPsTranferNode (c : ApConfig) (s : ApPs) (node : MsduNode) : ApPs :=
  if c.isApInface node.vifIdx = false then { s with core := .transfers node }
  else if s.active = false then { s with core := .transfers node }
  else if (s.inPs node.staIdx ∨ rwmTxlingListNodeCount c s node.staIdx ≠ 0) ∧
      node.staIdx.toNat < c.maxPsStaNum then { s with core := .buffers node }
  else { s with core := .transfers node }

/-- `rwm_transfer`; `alloc` is whether its node could be allocated. -/
def rwmTransfer (c : ApConfig) (s : ApPs) (vifIdx staIdx : UInt8) (alloc : Bool) :
    ApPs × List MsduAct :=
  if alloc = false then (s, [.decPckCnt])
  else
    let node := ⟨s.allocated, vifIdx, staIdx⟩
    (rwmPsTranferNode c { s with allocated := s.allocated + 1 } node, [.received node])

/-- `rwm_transfer_node`; `ok` is whether it finds a descriptor and the access category is
admitted. -/
def rwmTransferNode (node : MsduNode) (moreData ok : Bool) : List MsduAct :=
  .handed node moreData :: if ok then [.pushed node] else [.dropped node, .decPckCnt]

/-- The next part of what the core thread is doing. -/
def coreContinues (c : ApConfig) (s : ApPs) (ok : Bool) : Option (ApPs × List MsduAct) :=
  match s.core with
  | .idle => none
  | .buffers node =>
    if rwmTxlingListNodeCount c s node.staIdx = 0 then
      some ({ s with core := .pushes node, timer := setAt s.timer node.staIdx true },
        [.timUpdate node.staIdx true])
    else some ({ s with core := .pushes node }, [])
  | .pushes node =>
    some ({ rwmPushTxingList c s node node.staIdx with core := .idle }, [])
  | .transfers node =>
    some ({ s with core := .idle }, .incPckCnt :: rwmTransferNode node false ok)
  | .popped node staIdx =>
    some ({ s with core := .sent staIdx (rwmTxlingListNodeCount c s staIdx) },
      .incPckCnt :: rwmTransferNode node true ok)
  | .sent staIdx nodeLeft =>
    some ({ s with core := .idle },
      if nodeLeft ≠ 0 ∧ s.inPs staIdx = false then [.txingSender staIdx]
      else if nodeLeft = 0 then [.timUpdate staIdx false]
      else [])

/-- `rwm_msdu_send_txing_node` up to the pop. -/
def rwmMsduSendTxingNode (c : ApConfig) (s : ApPs) (staIdx : UInt8) : ApPs :=
  match rwmPopTxingList c s staIdx with
  | none => s
  | some (node, s) => { s with core := .popped node staIdx }

/-- `rwm_msdu_ps_change_ind_handler`. -/
def rwmMsduPsChangeIndHandler (c : ApConfig) (s : ApPs) (staIdx : UInt8) (psOn : Bool) :
    ApPs × List MsduAct :=
  let nodeLeft := rwmTxlingListNodeCount c s staIdx
  if psOn = false ∧ nodeLeft ≠ 0 then
    ({ s with timer := setAt s.timer staIdx false }, [.txingSender staIdx])
  else if psOn = true ∧ nodeLeft ≠ 0 then ({ s with timer := setAt s.timer staIdx true }, [])
  else (s, [])

/-- `rwm_flush_txing_list` up to its loop. -/
def rwmFlushTxingList (c : ApConfig) (s : ApPs) (staIdx : UInt8) : ApPs :=
  if c.maxPsStaNum ≤ staIdx.toNat then s
  else
    { s with flushes := s.flushes ++ [⟨staIdx, rwmTxlingListNodeCount c s staIdx ≠ 0⟩] }

/-- One turn of the loop of the `i`-th flush, or what stands behind the loop. -/
def flushContinues (c : ApConfig) (s : ApPs) (i : Nat) : Option (ApPs × List MsduAct) :=
  match s.flushes[i]? with
  | none => none
  | some ⟨staIdx, true⟩ =>
    match rwmPopTxingList c s staIdx with
    | some (node, s) => some (s, [.freed node])
    | none => some ({ s with flushes := s.flushes.set i ⟨staIdx, false⟩ }, [])
  | some ⟨staIdx, false⟩ =>
    some ({ s with timer := setAt s.timer staIdx false, flushes := s.flushes.eraseIdx i }, [])

inductive MsduEvent
  | transfer (vifIdx staIdx : UInt8) (alloc : Bool)
  | sendTxing (staIdx : UInt8)
  | coreContinues (ok : Bool)
  | psChanges (staIdx : UInt8) (inPs : Bool)
  | psChangeInd (staIdx : UInt8) (psOn : Bool)
  | apPsTimeout (staIdx : UInt8)
  | flush (staIdx : UInt8)
  | flushContinues (i : Nat)
  deriving DecidableEq

/-- The buffer after `rwm_msdu_init`.  The core thread begins a call when it is done with the
last; everything else can come between any two parts of a call. -/
def apPs (c : ApConfig) : Machine ApPs MsduEvent (List MsduAct) where
  init := ⟨true, fun _ => [], fun _ => false, fun _ => false, .idle, [], 0⟩
  step s e :=
    match e with
    | .transfer vifIdx staIdx alloc =>
      if s.core = .idle then some (rwmTransfer c s vifIdx staIdx alloc) else none
    | .sendTxing staIdx =>
      if s.core = .idle then some (rwmMsduSendTxingNode c s staIdx, []) else none
    | .coreContinues ok => coreContinues c s ok
    | .psChanges staIdx inPs => some ({ s with inPs := setAt s.inPs staIdx inPs }, [])
    | .psChangeInd staIdx psOn => some (rwmMsduPsChangeIndHandler c s staIdx psOn)
    | .apPsTimeout staIdx =>
      if s.timer staIdx then some (rwmFlushTxingList c s staIdx, []) else none
    | .flush staIdx => some (rwmFlushTxingList c s staIdx, [])
    | .flushContinues i => flushContinues c s i

end BdkRtt.Wlan
