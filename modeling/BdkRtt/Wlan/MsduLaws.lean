import BdkRtt.Wlan.Msdu
import Mathlib.Data.List.Perm.Basic

namespace BdkRtt.Wlan

open Lib

section Frames

/-- The frames of one station: those with its interface and its index. -/
def framesOf (v σ : UInt8) (nodes : List MsduNode) : List MsduNode :=
  nodes.filter fun n => n.vifIdx = v ∧ n.staIdx = σ

def receivedNodes (acts : List MsduAct) : List MsduNode :=
  acts.filterMap fun
    | .received node => some node
    | _ => none

def handedNodes (acts : List MsduAct) : List MsduNode :=
  acts.filterMap fun
    | .handed node _ => some node
    | _ => none

def freedNodes (acts : List MsduAct) : List MsduNode :=
  acts.filterMap fun
    | .freed node => some node
    | _ => none

variable (v σ : UInt8)

@[simp] theorem framesOf_nil : framesOf v σ [] = [] := rfl

@[simp] theorem framesOf_append (xs ys : List MsduNode) :
    framesOf v σ (xs ++ ys) = framesOf v σ xs ++ framesOf v σ ys :=
  List.filter_append ..

theorem framesOf_cons (n : MsduNode) (xs : List MsduNode) :
    framesOf v σ (n :: xs) = framesOf v σ [n] ++ framesOf v σ xs :=
  framesOf_append v σ [n] xs

theorem framesOf_other {n : MsduNode} (h : n.staIdx ≠ σ) : framesOf v σ [n] = [] := by
  simp [framesOf, h]

theorem framesOf_eq_nil {xs : List MsduNode} (h : ∀ n ∈ xs, n.vifIdx = v → n.staIdx ≠ σ) :
    framesOf v σ xs = [] := by
  rw [framesOf, List.filter_eq_nil_iff]
  intro n hn
  simpa using h n hn

variable (acts acts' : List MsduAct)

@[simp] theorem receivedNodes_append :
    receivedNodes (acts ++ acts') = receivedNodes acts ++ receivedNodes acts' :=
  List.filterMap_append

@[simp] theorem handedNodes_append :
    handedNodes (acts ++ acts') = handedNodes acts ++ handedNodes acts' :=
  List.filterMap_append

@[simp] theorem freedNodes_append :
    freedNodes (acts ++ acts') = freedNodes acts ++ freedNodes acts' :=
  List.filterMap_append

end Frames

section Buffer

@[simp] theorem setAt_same {α : Type*} (f : UInt8 → α) (i : UInt8) (a : α) :
    setAt f i a i = a := if_pos rfl

theorem setAt_of_ne {α : Type*} {f : UInt8 → α} {i j : UInt8} {a : α} (h : j ≠ i) :
    setAt f i a j = f j := if_neg h

/-- The node the core thread has in hand and that is to leave before the list. -/
def MsduCore.ahead : MsduCore → List MsduNode
  | .transfers node | .popped node _ => [node]
  | .idle | .buffers _ | .pushes _ | .sent _ _ => []

/-- The node the core thread is about to put behind the list. -/
def MsduCore.behind : MsduCore → List MsduNode
  | .buffers node | .pushes node => [node]
  | .idle | .transfers _ | .popped _ _ | .sent _ _ => []

/-- The nodes of a station that are neither handed over nor freed, in the order in which they
are to leave. -/
def ApPs.pending (s : ApPs) (σ : UInt8) : List MsduNode :=
  s.core.ahead ++ s.txing σ ++ s.core.behind

/-- The nodes that go through a list. -/
def ApConfig.Buffers (c : ApConfig) (n : MsduNode) : Prop :=
  c.isApInface n.vifIdx = true ∧ n.staIdx.toNat < c.maxPsStaNum

variable {c : ApConfig} {s t : ApPs} {σ : UInt8} {node : MsduNode}

theorem rwmPopTxingList_eq_some (h : rwmPopTxingList c s σ = some (node, t)) :
    ∃ rest, s.txing σ = node :: rest ∧ t = { s with txing := setAt s.txing σ rest } := by
  unfold rwmPopTxingList at h
  split at h
  next => cases h
  next =>
    split at h
    next => cases h
    next n rest heq =>
      cases h
      exact ⟨rest, heq, rfl⟩

theorem rwmPushTxingList_of_lt (h : σ.toNat < c.maxPsStaNum) :
    rwmPushTxingList c s node σ =
      { s with txing := setAt s.txing σ (s.txing σ ++ [node]) } :=
  if_neg (Nat.not_le.mpr h)

theorem txing_of_count (h : rwmTxlingListNodeCount c s σ = 0) (hlt : σ.toNat < c.maxPsStaNum) :
    s.txing σ = [] := by
  rw [rwmTxlingListNodeCount, if_neg (Nat.not_le.mpr hlt)] at h
  exact List.length_eq_zero_iff.mp h

/-- A new node goes straight to the transfer only where nothing can be waiting before it. -/
theorem rwmPsTranferNode_spec (c : ApConfig) (s : ApPs) (node : MsduNode) :
    (rwmPsTranferNode c s node = { s with core := .buffers node } ∧ c.Buffers node) ∨
      (rwmPsTranferNode c s node = { s with core := .transfers node } ∧
        (s.active = true → c.Buffers node → s.txing node.staIdx = [])) := by
  unfold rwmPsTranferNode
  split
  next hap => exact .inr ⟨rfl, fun _ hb => absurd hb.1 (by simp [hap])⟩
  next hap =>
    split
    next hact => exact .inr ⟨rfl, fun h => absurd h (by simp [hact])⟩
    next =>
      split
      next hbuf => exact .inl ⟨rfl, by simpa using hap, hbuf.2⟩
      next hdirect =>
        refine .inr ⟨rfl, fun _ hb => txing_of_count ?_ hb.2⟩
        by_contra hne
        exact hdirect ⟨.inr hne, hb.2⟩

end Buffer

section Steps

/-- Where nodes go in a step. -/
inductive NodeMove (c : ApConfig) (s t : ApPs) (acts : List MsduAct) : Prop
  | stays (htxing : t.txing = s.txing) (hahead : t.core.ahead = s.core.ahead)
    (hbehind : t.core.behind = s.core.behind)
    (halloc : t.allocated = s.allocated) (hact : t.active = s.active)
    (hr : receivedNodes acts = []) (hh : handedNodes acts = []) (hf : freedNodes acts = [])
  | receives {node} (hid : node.id = s.allocated) (htxing : t.txing = s.txing)
    (hidle : s.core = .idle)
    (hway : (t.core = .buffers node ∧ c.Buffers node) ∨
      (t.core = .transfers node ∧ (c.Buffers node → s.txing node.staIdx = [])))
    (halloc : t.allocated = s.allocated + 1) (hact : t.active = s.active)
    (hacts : acts = [.received node])
  | pushes {node} (hcore : s.core = .pushes node)
    (htxing : t.txing = setAt s.txing node.staIdx (s.txing node.staIdx ++ [node]))
    (hidle : t.core = .idle)
    (halloc : t.allocated = s.allocated) (hact : t.active = s.active) (hacts : acts = [])
  | pops {node σ rest} (hidle : s.core = .idle) (hlist : s.txing σ = node :: rest)
    (htxing : t.txing = setAt s.txing σ rest) (hcore : t.core = .popped node σ)
    (halloc : t.allocated = s.allocated) (hact : t.active = s.active) (hacts : acts = [])
  | hands {node} (hahead : s.core.ahead = [node]) (hbehind : s.core.behind = [])
    (htxing : t.txing = s.txing) (hahead' : t.core.ahead = []) (hbehind' : t.core.behind = [])
    (halloc : t.allocated = s.allocated) (hact : t.active = s.active)
    (hr : receivedNodes acts = []) (hh : handedNodes acts = [node]) (hf : freedNodes acts = [])
  | frees {node σ rest} (hlist : s.txing σ = node :: rest)
    (htxing : t.txing = setAt s.txing σ rest) (hcore : t.core = s.core)
    (halloc : t.allocated = s.allocated) (hact : t.active = s.active)
    (hacts : acts = [.freed node])

variable {c : ApConfig} {s t : ApPs} {acts : List MsduAct}

theorem transferNode_nodes (node : MsduNode) (moreData ok : Bool) :
    receivedNodes (.incPckCnt :: rwmTransferNode node moreData ok) = [] ∧
      handedNodes (.incPckCnt :: rwmTransferNode node moreData ok) = [node] ∧
      freedNodes (.incPckCnt :: rwmTransferNode node moreData ok) = [] := by
  cases ok <;> exact ⟨rfl, rfl, rfl⟩

theorem NodeMove.of_coreContinues {ok : Bool} (hbehind : ∀ n ∈ s.core.behind, c.Buffers n)
    (h : coreContinues c s ok = some (t, acts)) : NodeMove c s t acts := by
  unfold coreContinues at h
  split at h
  next => cases h
  next node hcore =>
    split at h
    next =>
      cases h
      exact .stays rfl (by rw [hcore]; rfl) (by rw [hcore]; rfl) rfl rfl rfl rfl rfl
    next =>
      cases h
      exact .stays rfl (by rw [hcore]; rfl) (by rw [hcore]; rfl) rfl rfl rfl rfl rfl
  next node hcore =>
    have hb := hbehind node (by rw [hcore]; exact List.mem_singleton_self _)
    rw [rwmPushTxingList_of_lt hb.2] at h
    cases h
    exact .pushes hcore rfl rfl rfl rfl rfl
  next node hcore =>
    obtain ⟨hr, hh, hf⟩ := transferNode_nodes node false ok
    cases h
    exact .hands (by rw [hcore]; rfl) (by rw [hcore]; rfl) rfl rfl rfl rfl rfl hr hh hf
  next node σ hcore =>
    obtain ⟨hr, hh, hf⟩ := transferNode_nodes node true ok
    cases h
    exact .hands (by rw [hcore]; rfl) (by rw [hcore]; rfl) rfl rfl rfl rfl rfl hr hh hf
  next σ nodeLeft hcore =>
    cases h
    refine .stays rfl (by rw [hcore]; rfl) (by rw [hcore]; rfl) rfl rfl ?_ ?_ ?_ <;>
      repeat' split
    all_goals rfl

theorem NodeMove.of_transfer {vifIdx staIdx : UInt8} {alloc : Bool} (hact : s.active = true)
    (hidle : s.core = .idle) (h : rwmTransfer c s vifIdx staIdx alloc = (t, acts)) :
    NodeMove c s t acts := by
  unfold rwmTransfer at h
  split at h
  next =>
    cases h
    exact .stays rfl rfl rfl rfl rfl rfl rfl rfl
  next =>
    obtain ⟨rfl, rfl⟩ := Prod.mk.inj h
    rcases rwmPsTranferNode_spec c { s with allocated := s.allocated + 1 }
      ⟨s.allocated, vifIdx, staIdx⟩ with ⟨heq, hbuf⟩ | ⟨heq, hdirect⟩
    · rw [heq]
      exact .receives rfl rfl hidle (.inl ⟨rfl, hbuf⟩) rfl rfl rfl
    · rw [heq]
      exact .receives rfl rfl hidle (.inr ⟨rfl, hdirect hact⟩) rfl rfl rfl

theorem NodeMove.of_sendTxing {staIdx : UInt8} (hidle : s.core = .idle) :
    NodeMove c s (rwmMsduSendTxingNode c s staIdx) [] := by
  unfold rwmMsduSendTxingNode
  split
  next => exact .stays rfl rfl rfl rfl rfl rfl rfl rfl
  next node t hpop =>
    obtain ⟨rest, hlist, rfl⟩ := rwmPopTxingList_eq_some hpop
    exact .pops hidle hlist rfl rfl rfl rfl rfl

theorem NodeMove.of_flush (staIdx : UInt8) :
    NodeMove c s (rwmFlushTxingList c s staIdx) [] := by
  unfold rwmFlushTxingList
  split <;> exact .stays rfl rfl rfl rfl rfl rfl rfl rfl

theorem NodeMove.of_flushContinues {i : Nat} (h : flushContinues c s i = some (t, acts)) :
    NodeMove c s t acts := by
  unfold flushContinues at h
  split at h
  next => cases h
  next staIdx _ =>
    split at h
    next node u hpop =>
      obtain ⟨rest, hlist, rfl⟩ := rwmPopTxingList_eq_some hpop
      cases h
      exact .frees hlist rfl rfl rfl rfl rfl
    next =>
      cases h
      exact .stays rfl rfl rfl rfl rfl rfl rfl rfl
  next =>
    cases h
    exact .stays rfl rfl rfl rfl rfl rfl rfl rfl

theorem NodeMove.of_psChangeInd (staIdx : UInt8) (psOn : Bool) :
    NodeMove c s (rwmMsduPsChangeIndHandler c s staIdx psOn).1
      (rwmMsduPsChangeIndHandler c s staIdx psOn).2 := by
  simp only [rwmMsduPsChangeIndHandler]
  split
  next => exact .stays rfl rfl rfl rfl rfl rfl rfl rfl
  next => split <;> exact .stays rfl rfl rfl rfl rfl rfl rfl rfl

theorem NodeMove.of_step {e : MsduEvent} (hact : s.active = true)
    (hbehind : ∀ n ∈ s.core.behind, c.Buffers n) (h : (apPs c).step s e = some (t, acts)) :
    NodeMove c s t acts := by
  simp only [apPs] at h
  cases e with
  | transfer vifIdx staIdx alloc =>
    simp only [Option.ite_none_right_eq_some, Option.some.injEq] at h
    exact .of_transfer hact h.1 h.2
  | sendTxing staIdx =>
    simp only [Option.ite_none_right_eq_some, Option.some.injEq, Prod.mk.injEq] at h
    obtain ⟨hidle, rfl, rfl⟩ := h
    exact .of_sendTxing hidle
  | coreContinues ok => exact .of_coreContinues hbehind h
  | psChanges staIdx inPs =>
    cases h
    exact .stays rfl rfl rfl rfl rfl rfl rfl rfl
  | psChangeInd staIdx psOn =>
    have hm := NodeMove.of_psChangeInd (c := c) (s := s) staIdx psOn
    simp only [Option.some.injEq] at h
    rwa [h] at hm
  | apPsTimeout staIdx =>
    simp only [Option.ite_none_right_eq_some, Option.some.injEq, Prod.mk.injEq] at h
    obtain ⟨_, rfl, rfl⟩ := h
    exact .of_flush staIdx
  | flush staIdx =>
    simp only [Option.some.injEq, Prod.mk.injEq] at h
    obtain ⟨rfl, rfl⟩ := h
    exact .of_flush staIdx
  | flushContinues i => exact .of_flushContinues h

theorem NodeMove.active (h : NodeMove c s t acts) : t.active = s.active := by
  cases h <;> assumption

end Steps

end BdkRtt.Wlan
