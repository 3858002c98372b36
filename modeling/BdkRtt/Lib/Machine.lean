import Mathlib.Data.List.Basic

universe u v w

namespace BdkRtt.Lib

/-- A component that answers one event at a time.  `none` is an event that cannot
occur in the state, or one whose code never returns. -/
structure Machine (σ : Type u) (ε : Type v) (ο : Type w) where
  init : σ
  step : σ → ε → Option (σ × ο)

namespace Machine

variable {σ : Type u} {ε : Type v} {ο : Type w}

/-- What an observer has seen of a run: its events, each with the answer given. -/
abbrev History (ε : Type v) (ο : Type w) := List (ε × ο)

/-- The finite runs in which every step meets the condition `C`. -/
inductive ReachesUnder (M : Machine σ ε ο) (C : σ → ε → Prop) : History ε ο → σ → Prop
  | init : ReachesUnder M C [] M.init
  | step {h s e t o} : ReachesUnder M C h s → C s e → M.step s e = some (t, o) →
      ReachesUnder M C (h ++ [(e, o)]) t

/-- All finite runs. -/
abbrev Reaches (M : Machine σ ε ο) : History ε ο → σ → Prop :=
  M.ReachesUnder fun _ _ => True

variable {M : Machine σ ε ο} {C D : σ → ε → Prop}

theorem ReachesUnder.mono (hCD : ∀ s e, C s e → D s e) {h s} (hr : M.ReachesUnder C h s) :
    M.ReachesUnder D h s := by
  induction hr with
  | init => exact .init
  | step _ hc hs ih => exact .step ih (hCD _ _ hc) hs

theorem ReachesUnder.reaches {h s} (hr : M.ReachesUnder C h s) : M.Reaches h s :=
  hr.mono fun _ _ _ => trivial

/-- An invariant of state and history that each permitted step keeps holds throughout. -/
theorem ReachesUnder.invariant (I : History ε ο → σ → Prop) (hinit : I [] M.init)
    (hstep : ∀ {h s e t o}, I h s → C s e → M.step s e = some (t, o) → I (h ++ [(e, o)]) t)
    {h s} (hr : M.ReachesUnder C h s) : I h s := by
  induction hr with
  | init => exact hinit
  | step _ hc hs ih => exact hstep ih hc hs

/-- The same rule for an invariant that does not look at the history. -/
theorem ReachesUnder.stateInvariant (I : σ → Prop) (hinit : I M.init)
    (hstep : ∀ {s e t o}, I s → C s e → M.step s e = some (t, o) → I t)
    {h s} (hr : M.ReachesUnder C h s) : I s :=
  hr.invariant (fun _ => I) hinit hstep

/-- A run can be cut in front of any of its events. -/
theorem ReachesUnder.cut {h s} (hr : M.ReachesUnder C h s) {pre e o post}
    (heq : h = pre ++ (e, o) :: post) :
    ∃ t t', M.ReachesUnder C pre t ∧ C t e ∧ M.step t e = some (t', o) := by
  induction hr generalizing post with
  | init => simp at heq
  | @step h s e' t o' hr hc hs ih =>
    rcases List.eq_nil_or_concat post with rfl | ⟨post, last, rfl⟩
    · obtain ⟨rfl, hlast⟩ := List.append_inj' heq rfl
      simp only [List.cons.injEq, Prod.mk.injEq, and_true] at hlast
      obtain ⟨rfl, rfl⟩ := hlast
      exact ⟨s, t, hr, hc, hs⟩
    · have hpre : h = pre ++ (e, o) :: post := by
        have : h ++ [(e', o')] = (pre ++ (e, o) :: post) ++ [last] := by
          simpa [List.concat_eq_append] using heq
        exact (List.append_inj' this rfl).1
      exact ih hpre

/-- Every entry of a history is a step of the machine. -/
theorem ReachesUnder.of_mem {h s} (hr : M.ReachesUnder C h s) {x : ε × ο} (hx : x ∈ h) :
    ∃ t t', C t x.1 ∧ M.step t x.1 = some (t', x.2) := by
  obtain ⟨pre, post, heq⟩ := List.append_of_mem hx
  obtain ⟨t, t', -, hc, hs⟩ := hr.cut heq
  exact ⟨t, t', hc, hs⟩

section Within

/-- The finite runs that have the property `P` after every step. -/
inductive ReachesWithin (M : Machine σ ε ο) (P : History ε ο → σ → Prop) :
    History ε ο → σ → Prop
  | init : ReachesWithin M P [] M.init
  | step {h s e t o} : ReachesWithin M P h s → M.step s e = some (t, o) →
      P (h ++ [(e, o)]) t → ReachesWithin M P (h ++ [(e, o)]) t

/-- When the permitted runs have the property and a step that is not permitted breaks it,
the runs with the property are the permitted ones. -/
theorem reachesUnder_iff_within {P : History ε ο → σ → Prop}
    (hkeep : ∀ {h s}, M.ReachesUnder C h s → P h s)
    (hbreak : ∀ {h s e t o}, M.ReachesUnder C h s → M.step s e = some (t, o) →
      P (h ++ [(e, o)]) t → C s e) {h s} :
    M.ReachesUnder C h s ↔ M.ReachesWithin P h s := by
  constructor
  · intro hr
    induction hr with
    | init => exact .init
    | step hr hc hs ih => exact .step ih hs (hkeep (.step hr hc hs))
  · intro hr
    induction hr with
    | init => exact .init
    | step _ hs hp ih => exact .step ih (hbreak ih hs hp) hs

end Within

section Simulation

variable {σ' ε' ο' : Type*} {A : Machine σ' ε' ο'}

/-- Forward simulation: along the renaming `f` of events and answers, the abstract machine
can take every step the concrete one takes. -/
theorem ReachesUnder.simulates (f : ε × ο → ε' × ο') (R : σ → σ' → Prop)
    (hinit : R M.init A.init)
    (hstep : ∀ {s a e t o}, R s a → C s e → M.step s e = some (t, o) →
      ∃ b, A.step a (f (e, o)).1 = some (b, (f (e, o)).2) ∧ R t b)
    {h s} (hr : M.ReachesUnder C h s) : ∃ a, A.Reaches (h.map f) a ∧ R s a := by
  induction hr with
  | init => exact ⟨A.init, .init, hinit⟩
  | step _ hc hs ih =>
    obtain ⟨a, ha, hR⟩ := ih
    obtain ⟨b, hb, hR'⟩ := hstep hR hc hs
    refine ⟨b, ?_, hR'⟩
    rw [List.map_append]
    exact .step ha trivial hb

end Simulation

section Relation

variable {τ : Type*}

/-- The finite runs of a transition relation from `a` on. -/
inductive RunsOf (R : σ → ε → ο → σ → Prop) (a : σ) : History ε ο → σ → Prop
  | init : RunsOf R a [] a
  | step {h s e o t} : RunsOf R a h s → R s e o t → RunsOf R a (h ++ [(e, o)]) t

/-- Refinement: with `Sim` between their states, every step of the machine is one of the
relation. -/
theorem ReachesUnder.refines {R : τ → ε → ο → τ → Prop} (Sim : σ → τ → Prop) {a : τ}
    (hinit : Sim M.init a) (hstep : ∀ {s b e t o}, Sim s b → C s e → M.step s e = some (t, o) →
      ∃ b', R b e o b' ∧ Sim t b')
    {h s} (hr : M.ReachesUnder C h s) : ∃ b, RunsOf R a h b ∧ Sim s b := by
  induction hr with
  | init => exact ⟨a, .init, hinit⟩
  | step _ hc hs ih =>
    obtain ⟨b, hb, hsim⟩ := ih
    obtain ⟨b', hR, hsim'⟩ := hstep hsim hc hs
    exact ⟨b', .step hb hR, hsim'⟩

end Relation

section Since

variable {α : Type*}

/-- What the answers carry since the last one that resets. -/
def since (reset : ο → Bool) (f : ο → List α) (h : History ε ο) : List α :=
  h.foldl (fun xs x => if reset x.2 then [] else xs ++ f x.2) []

variable {reset : ο → Bool} {f : ο → List α} {h : History ε ο} {e : ε} {o : ο}

theorem since_concat_reset (ho : reset o = true) : since reset f (h ++ [(e, o)]) = [] := by
  rw [since, List.foldl_append]
  exact if_pos ho

theorem since_concat (ho : reset o = false) :
    since reset f (h ++ [(e, o)]) = since reset f h ++ f o := by
  rw [since, List.foldl_append]
  exact if_neg (Bool.not_eq_true _ ▸ ho)

end Since

section Execution

/-- Running a list of events from a state, with the answers collected. -/
def execFrom (M : Machine σ ε ο) : σ → List ε → Option (History ε ο × σ)
  | s, [] => some ([], s)
  | s, e :: es => (M.step s e).bind fun r =>
    (M.execFrom r.1 es).map fun q => ((e, r.2) :: q.1, q.2)

def exec (M : Machine σ ε ο) (es : List ε) : Option (History ε ο × σ) :=
  M.execFrom M.init es

/-- The events can be taken in turn from the state, each under the condition. -/
def Permits (M : Machine σ ε ο) (C : σ → ε → Prop) : σ → List ε → Prop
  | _, [] => True
  | s, e :: es => C s e ∧ ∀ r ∈ M.step s e, M.Permits C r.1 es

instance decidablePermits (M : Machine σ ε ο) (C : σ → ε → Prop) [∀ s e, Decidable (C s e)] :
    ∀ s es, Decidable (M.Permits C s es)
  | _, [] => inferInstanceAs (Decidable True)
  | s, e :: es =>
    have : ∀ r : σ × ο, Decidable (M.Permits C r.1 es) := fun r => decidablePermits M C r.1 es
    inferInstanceAs (Decidable (C s e ∧ ∀ r ∈ M.step s e, M.Permits C r.1 es))

theorem permits_true (M : Machine σ ε ο) (s : σ) (es : List ε) :
    M.Permits (fun _ _ => True) s es := by
  induction es generalizing s with
  | nil => trivial
  | cons e es ih => exact ⟨trivial, fun r _ => ih r.1⟩

theorem ReachesUnder.append_exec {pre s es h t} (hr : M.ReachesUnder C pre s)
    (hp : M.Permits C s es) (hx : M.execFrom s es = some (h, t)) :
    M.ReachesUnder C (pre ++ h) t := by
  induction es generalizing pre s h with
  | nil =>
    simp only [execFrom, Option.some.injEq, Prod.mk.injEq] at hx
    obtain ⟨rfl, rfl⟩ := hx
    simpa using hr
  | cons e es ih =>
    simp only [execFrom, Option.bind_eq_some_iff, Option.map_eq_some_iff, Prod.exists,
      Prod.mk.injEq] at hx
    obtain ⟨t', o, hs, h', u, hx, rfl, rfl⟩ := hx
    simpa using ih (.step hr hp.1 hs) (hp.2 _ hs) hx

theorem reachesUnder_of_exec {es h s} (hp : M.Permits C M.init es)
    (hx : M.exec es = some (h, s)) : M.ReachesUnder C h s := by
  simpa using ReachesUnder.append_exec .init hp hx

theorem reaches_of_exec {es h s} (hx : M.exec es = some (h, s)) : M.Reaches h s :=
  reachesUnder_of_exec (M.permits_true _ _) hx

end Execution

end Machine

end BdkRtt.Lib
