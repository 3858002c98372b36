import BdkRtt.Wlan.MsduLaws
import Mathlib.Data.List.Nodup

namespace BdkRtt.Wlan

open Lib

section Stations

variable {c : ApConfig} {s t : ApPs} {acts log : List MsduAct}

/-- The frames of a station that have not been freed: those handed over and then those still
to leave, in that order. -/
def line (log : List MsduAct) (s : ApPs) (v σ : UInt8) : List MsduNode :=
  framesOf v σ (handedNodes log ++ s.pending σ)

/-- What a step does to the line of one station: nothing, a node joins at the end, or one is
taken out to be freed. -/
inductive LineMove (log acts : List MsduAct) (s t : ApPs) (v σ : UInt8) : Prop
  | stays (hline : line (log ++ acts) t v σ = line log s v σ)
    (hr : framesOf v σ (receivedNodes acts) = []) (hf : framesOf v σ (freedNodes acts) = [])
  | joins {m} (hline : line (log ++ acts) t v σ = line log s v σ ++ m)
    (hr : framesOf v σ (receivedNodes acts) = m) (hf : framesOf v σ (freedNodes acts) = [])
  | leaves {x m y} (hline : line log s v σ = x ++ m ++ y)
    (hline' : line (log ++ acts) t v σ = x ++ y)
    (hr : framesOf v σ (receivedNodes acts) = []) (hf : framesOf v σ (freedNodes acts) = m)

/-- The nodes in the lists and on their way there are those that go through a list, each in
the list of its station. -/
structure Placed (c : ApConfig) (s : ApPs) : Prop where
  active : s.active = true
  txing : ∀ σ, ∀ n ∈ s.txing σ, c.Buffers n ∧ n.staIdx = σ
  behind : ∀ n ∈ s.core.behind, c.Buffers n

theorem line_eq (log : List MsduAct) (s : ApPs) (v σ : UInt8) :
    line log s v σ = framesOf v σ (handedNodes log) ++ framesOf v σ s.core.ahead ++
      (framesOf v σ (s.txing σ) ++ framesOf v σ s.core.behind) := by
  simp only [line, ApPs.pending, framesOf_append, List.append_assoc]

theorem Placed.of_buffers (hp : Placed c s) {node : MsduNode} {v σ : UInt8}
    (hdirect : c.Buffers node → s.txing node.staIdx = [])
    (hmine : framesOf v σ [node] ≠ []) : framesOf v σ (s.txing σ) = [] := by
  have hkey : node.vifIdx = v ∧ node.staIdx = σ := by
    by_contra hno
    exact hmine (by simp [framesOf, hno])
  obtain ⟨rfl, rfl⟩ := hkey
  by_cases hb : c.Buffers node
  · rw [hdirect hb, framesOf_nil]
  · refine framesOf_eq_nil _ _ fun n hn hv hσ => hb ?_
    obtain ⟨⟨hap, hlt⟩, _⟩ := hp.txing _ n hn
    exact ⟨hv ▸ hap, hσ ▸ hlt⟩

theorem NodeMove.line (hm : NodeMove c s t acts) (hp : Placed c s) (v σ : UInt8) :
    LineMove log acts s t v σ := by
  cases hm with
  | stays htxing hahead hbehind _ _ hr hh hf =>
    refine .stays ?_ (by rw [hr]; rfl) (by rw [hf]; rfl)
    rw [line_eq, line_eq, handedNodes_append, hh, List.append_nil, htxing, hahead, hbehind]
  | @receives node _ htxing hidle hway _ _ hacts =>
    subst hacts
    refine .joins (m := framesOf v σ [node]) ?_ rfl rfl
    have hhanded : handedNodes (log ++ [.received node]) = handedNodes log := by
      rw [handedNodes_append]
      exact List.append_nil _
    rcases hway with ⟨hcore, _⟩ | ⟨hcore, hdirect⟩
    · rw [line_eq, line_eq, hhanded, htxing, hidle, hcore]
      simp [MsduCore.ahead, MsduCore.behind]
    · rw [line_eq, line_eq, hhanded, htxing, hidle, hcore]
      by_cases hmine : framesOf v σ [node] = []
      · simp [MsduCore.ahead, MsduCore.behind, hmine]
      · simp [MsduCore.ahead, MsduCore.behind, hp.of_buffers hdirect hmine]
  | @pushes node hcore htxing hidle _ _ hacts =>
    subst hacts
    refine .stays ?_ rfl rfl
    rw [line_eq, line_eq, List.append_nil, htxing, hidle, hcore]
    by_cases hσ : σ = node.staIdx
    · subst hσ
      simp [MsduCore.ahead, MsduCore.behind]
    · rw [setAt_of_ne hσ]
      simp [MsduCore.ahead, MsduCore.behind, framesOf_other v σ (Ne.symm hσ)]
  | @pops node ρ rest hidle hlist htxing hcore _ _ hacts =>
    subst hacts
    refine .stays ?_ rfl rfl
    have hsta := (hp.txing ρ node (by rw [hlist]; exact List.mem_cons_self)).2
    rw [line_eq, line_eq, List.append_nil, htxing, hidle, hcore]
    by_cases hσ : σ = ρ
    · subst hσ
      rw [setAt_same, hlist, framesOf_cons v σ node rest]
      simp [MsduCore.ahead, MsduCore.behind]
    · rw [setAt_of_ne hσ]
      simp [MsduCore.ahead, MsduCore.behind, framesOf_other v σ (hsta ▸ Ne.symm hσ)]
  | @hands node hahead hbehind htxing hahead' hbehind' _ _ hr hh hf =>
    refine .stays ?_ (by rw [hr]; rfl) (by rw [hf]; rfl)
    rw [line_eq, line_eq, handedNodes_append, hh, htxing, hahead, hbehind, hahead', hbehind']
    simp
  | @frees node ρ rest hlist htxing hcore _ _ hacts =>
    subst hacts
    have hhanded : handedNodes (log ++ [.freed node]) = handedNodes log := by
      rw [handedNodes_append]
      exact List.append_nil _
    have hsta := (hp.txing ρ node (by rw [hlist]; exact List.mem_cons_self)).2
    refine .leaves (x := framesOf v σ (handedNodes log) ++ framesOf v σ s.core.ahead)
      (m := framesOf v σ [node])
      (y := framesOf v σ (t.txing σ) ++ framesOf v σ s.core.behind) ?_ ?_ rfl rfl
    · rw [line_eq, htxing]
      by_cases hσ : σ = ρ
      · subst hσ
        rw [setAt_same, hlist, framesOf_cons v σ node rest]
        simp only [List.append_assoc]
      · rw [setAt_of_ne hσ, framesOf_other v σ (hsta ▸ Ne.symm hσ), List.append_nil]
    · rw [line_eq, hhanded, hcore]

theorem mem_setAt {f : UInt8 → List MsduNode} {i σ : UInt8} {xs : List MsduNode} {n : MsduNode}
    (h : n ∈ setAt f i xs σ) : (σ = i ∧ n ∈ xs) ∨ n ∈ f σ := by
  by_cases hσ : σ = i
  · subst hσ
    rw [setAt_same] at h
    exact .inl ⟨rfl, h⟩
  · rw [setAt_of_ne hσ] at h
    exact .inr h

theorem NodeMove.placed (hm : NodeMove c s t acts) (hp : Placed c s) : Placed c t := by
  have hact : t.active = true := hm.active.trans hp.active
  cases hm with
  | stays htxing _ hbehind =>
    refine ⟨hact, ?_, ?_⟩
    · rw [htxing]
      exact hp.txing
    · rw [hbehind]
      exact hp.behind
  | @receives node _ htxing hidle hway =>
    refine ⟨hact, ?_, ?_⟩
    · rw [htxing]
      exact hp.txing
    · rcases hway with ⟨hcore, hb⟩ | ⟨hcore, _⟩
      · rw [hcore]
        intro n hn
        rw [MsduCore.behind, List.mem_singleton] at hn
        rwa [hn]
      · rw [hcore]
        exact nofun
  | @pushes node hcore htxing hidle =>
    have hb : c.Buffers node := hp.behind node (by rw [hcore]; exact List.mem_singleton_self _)
    refine ⟨hact, fun σ n hn => ?_, ?_⟩
    · rw [htxing] at hn
      rcases mem_setAt hn with ⟨rfl, hmem⟩ | hmem
      · rcases List.mem_append.mp hmem with hmem | hmem
        · exact hp.txing _ n hmem
        · rw [List.mem_singleton] at hmem
          subst hmem
          exact ⟨hb, rfl⟩
      · exact hp.txing σ n hmem
    · rw [hidle]
      exact nofun
  | @pops node ρ rest hidle hlist htxing hcore =>
    refine ⟨hact, fun σ n hn => ?_, ?_⟩
    · rw [htxing] at hn
      rcases mem_setAt hn with ⟨rfl, hmem⟩ | hmem
      · exact hp.txing _ n (by rw [hlist]; exact List.mem_cons_of_mem _ hmem)
      · exact hp.txing σ n hmem
    · rw [hcore]
      exact nofun
  | hands _ _ htxing _ hbehind' =>
    refine ⟨hact, ?_, ?_⟩
    · rw [htxing]
      exact hp.txing
    · rw [hbehind']
      exact nofun
  | @frees node ρ rest hlist htxing hcore =>
    refine ⟨hact, fun σ n hn => ?_, ?_⟩
    · rw [htxing] at hn
      rcases mem_setAt hn with ⟨rfl, hmem⟩ | hmem
      · exact hp.txing _ n (by rw [hlist]; exact List.mem_cons_of_mem _ hmem)
      · exact hp.txing σ n hmem
    · rw [hcore]
      exact hp.behind

theorem NodeMove.fresh (hm : NodeMove c s t acts)
    (h : (receivedNodes log).map (·.id) = List.range s.allocated) :
    (receivedNodes (log ++ acts)).map (·.id) = List.range t.allocated := by
  rw [receivedNodes_append, List.map_append, h]
  cases hm with
  | stays _ _ _ halloc _ hr => rw [hr, halloc, List.map_nil, List.append_nil]
  | @receives node hid _ _ _ halloc _ hacts =>
    rw [hacts, halloc, List.range_succ, ← hid]
    rfl
  | pushes _ _ _ halloc _ hacts =>
    rw [hacts, halloc]
    exact List.append_nil _
  | pops _ _ _ _ halloc _ hacts =>
    rw [hacts, halloc]
    exact List.append_nil _
  | hands _ _ _ _ _ halloc _ hr => rw [hr, halloc, List.map_nil, List.append_nil]
  | frees _ _ _ halloc _ hacts =>
    rw [hacts, halloc]
    exact List.append_nil _

end Stations

section Delivery

variable {c : ApConfig} {s t : ApPs} {acts log : List MsduAct} {v σ : UInt8}

/-- The line of a station keeps the order in which its frames were received, and has all of
them but the freed. -/
structure InLine (log : List MsduAct) (s : ApPs) (v σ : UInt8) : Prop where
  ordered : (line log s v σ).Sublist (framesOf v σ (receivedNodes log))
  kept : (line log s v σ ++ framesOf v σ (freedNodes log)).Perm
    (framesOf v σ (receivedNodes log))

theorem LineMove.inLine (hm : LineMove log acts s t v σ) (h : InLine log s v σ) :
    InLine (log ++ acts) t v σ := by
  cases hm with
  | stays hline hr hf =>
    refine ⟨?_, ?_⟩ <;>
      rw [hline, receivedNodes_append, framesOf_append, hr, List.append_nil]
    · exact h.ordered
    · rw [freedNodes_append, framesOf_append, hf, List.append_nil]
      exact h.kept
  | @joins m hline hr hf =>
    refine ⟨?_, ?_⟩ <;> rw [hline, receivedNodes_append, framesOf_append, hr]
    · exact h.ordered.append (.refl m)
    · rw [freedNodes_append, framesOf_append, hf, List.append_nil, List.append_assoc]
      refine (List.Perm.append_left _ List.perm_append_comm).trans ?_
      rw [← List.append_assoc]
      exact h.kept.append_right m
  | @leaves x m y hline hline' hr hf =>
    have hord := h.ordered
    have hkept := h.kept
    rw [hline] at hord hkept
    refine ⟨?_, ?_⟩ <;>
      rw [hline', receivedNodes_append, framesOf_append, hr, List.append_nil]
    · exact ((List.sublist_append_left x m).append (.refl y)).trans hord
    · rw [freedNodes_append, framesOf_append, hf]
      refine List.Perm.trans ?_ hkept
      rw [List.perm_iff_count]
      intro n
      simp only [List.count_append]
      omega

/-- What the buffer did in a run. -/
def actsOfMsdu (h : Machine.History MsduEvent (List MsduAct)) : List MsduAct := h.flatMap (·.2)

structure ApPs.Tracked (c : ApConfig) (log : List MsduAct) (s : ApPs) : Prop where
  placed : Placed c s
  fresh : (receivedNodes log).map (·.id) = List.range s.allocated
  inLine : ∀ v σ, InLine log s v σ

theorem tracked {h : Machine.History MsduEvent (List MsduAct)} (hr : (apPs c).Reaches h s) :
    s.Tracked c (actsOfMsdu h) := by
  refine hr.invariant (fun h s => s.Tracked c (actsOfMsdu h)) ?_ ?_
  · exact ⟨⟨rfl, fun _ => nofun, nofun⟩, rfl, fun v σ => ⟨.refl _, .refl _⟩⟩
  · intro h s e t acts hinv _ hstep
    have hm := NodeMove.of_step hinv.placed.active hinv.placed.behind hstep
    rw [actsOfMsdu, List.flatMap_append, List.flatMap_singleton]
    exact ⟨hm.placed hinv.placed, hm.fresh hinv.fresh,
      fun v σ => (hm.line hinv.placed v σ).inLine (hinv.inLine v σ)⟩

/-- Frames of a station are handed over in the order in which they were received, and none
before one that is still to leave; and each node received is handed over, freed by a flush,
or still to leave, in one way and once. -/
theorem frames_in_order (c : ApConfig) {h : Machine.History MsduEvent (List MsduAct)} {s : ApPs}
    (hr : (apPs c).Reaches h s) (v σ : UInt8) :
    (receivedNodes (actsOfMsdu h)).Nodup ∧
    (framesOf v σ (handedNodes (actsOfMsdu h) ++ s.pending σ)).Sublist
      (framesOf v σ (receivedNodes (actsOfMsdu h))) ∧
    (framesOf v σ (handedNodes (actsOfMsdu h) ++ s.pending σ ++
      freedNodes (actsOfMsdu h))).Perm (framesOf v σ (receivedNodes (actsOfMsdu h))) := by
  have htracked := tracked hr
  refine ⟨List.Nodup.of_map (fun n => n.id) ?_, (htracked.inLine v σ).ordered, ?_⟩
  · rw [htracked.fresh]
    exact List.nodup_range
  · rw [framesOf_append]
    exact (htracked.inLine v σ).kept

/-- Interface 0 is an access point; there are lists for two stations. -/
def oneAp : ApConfig := ⟨fun v => v = 0, 2⟩

/-- A frame for a sleeping station, a second one after it has woken, and one of the two sent. -/
def wokenStation : List MsduEvent :=
  [.psChanges 1 true, .transfer 0 1 true, .coreContinues true, .coreContinues true,
    .psChanges 1 false, .transfer 0 1 true, .coreContinues true, .coreContinues true,
    .sendTxing 1, .coreContinues true, .coreContinues true]

theorem frames_in_order_woken :
    ∃ h s, (apPs oneAp).Reaches h s ∧ handedNodes (actsOfMsdu h) = [⟨0, 0, 1⟩] ∧
      s.pending 1 = [⟨1, 0, 1⟩] ∧
      (framesOf 0 1 (handedNodes (actsOfMsdu h) ++ s.pending 1)).Sublist
        (framesOf 0 1 (receivedNodes (actsOfMsdu h))) := by
  have hrun : ∃ h s, (apPs oneAp).exec wokenStation = some (h, s) ∧
      handedNodes (actsOfMsdu h) = [⟨0, 0, 1⟩] ∧ s.pending 1 = [⟨1, 0, 1⟩] :=
    ⟨_, _, rfl, rfl, rfl⟩
  obtain ⟨h, s, hx, hhanded, hpend⟩ := hrun
  have hr := Machine.reaches_of_exec hx
  exact ⟨h, s, hr, hhanded, hpend, (frames_in_order oneAp hr 0 1).2.1⟩

end Delivery

end BdkRtt.Wlan
