import BdkRtt.At.Registry

universe u

namespace BdkRtt.At

open Lib

variable {κ : Type u}

inductive RegistryEvent (κ : Type u)
  | register (command : κ)
  | unregister (command : κ)
  deriving DecidableEq

section Spec

variable [DecidableEq κ]

abbrev RegistryHistory (κ : Type u) := Machine.History (RegistryEvent κ) AtsvrSt

/-- What an answered call makes of the registered commands. -/
def account (reg : List κ) : RegistryEvent κ × AtsvrSt → List κ
  | (.register command, .ok) => reg ++ [command]
  | (.unregister command, .ok) => reg.erase command
  | _ => reg

/-- The commands that are registered after the calls. -/
def registered (h : RegistryHistory κ) : List κ := h.foldl account []

theorem registered_concat (h : RegistryHistory κ) (x : RegistryEvent κ × AtsvrSt) :
    registered (h ++ [x]) = account (registered h) x := List.foldl_append

variable (cmd : κ → AtsvrCommand)

def RegistryEvent.perform (env : AtsvrEnv κ) : RegistryEvent κ → AtsvrEnv κ × AtsvrSt
  | .register command => atsvrRegisterCommand cmd env command
  | .unregister command => atsvrUnregisterCommand cmd env command

def registry : Machine (AtsvrEnv κ) (RegistryEvent κ) AtsvrSt where
  init := atsvrDefConfig κ
  step env e := some (e.perform cmd env)

/-- The table does what a registry should: it finds the registered names and no others, without
touching an empty slot, counts what is registered, and takes a further command while there is
room. -/
structure RegistryLaw (h : RegistryHistory κ) (env : AtsvrEnv κ) : Prop where
  found : ∀ name command, atsvrLookupAtCommand cmd env name 0 = .found command →
    command ∈ registered h ∧ (cmd command).name = some name
  finds : ∀ command ∈ registered h, ∀ name, (cmd command).name = some name →
    ∃ other, atsvrLookupAtCommand cmd env name 0 = .found other
  noFault : ∀ name len, atsvrLookupAtCommand cmd env name len ≠ .fault
  counts : env.numCommands = (registered h).length
  frees : ∀ command, (cmd command).Whole → command ∉ registered h →
    (registered h).length < atsvrMaxCommands → (atsvrRegisterCommand cmd env command).2 = .ok

/-- The call does not take a command out of the table. -/
def Keeps (env : AtsvrEnv κ) : RegistryEvent κ → Prop
  | .register _ => True
  | .unregister command => (cmd command).Whole → slotOf env command = none

end Spec

section Table

variable {cmd : κ → AtsvrCommand} {env : AtsvrEnv κ} {reg : List κ}

/-- The commands stand in the first slots, each once. -/
structure Filled (cmd : κ → AtsvrCommand) (env : AtsvrEnv κ) (reg : List κ) : Prop where
  slots : ∀ i, env.slot i = reg[i]?
  counts : env.numCommands = reg.length
  size : env.commands.length = atsvrMaxCommands
  fits : reg.length ≤ atsvrMaxCommands
  whole : ∀ command ∈ reg, (cmd command).Whole

theorem filled_init : Filled cmd (atsvrDefConfig κ) [] where
  slots i := by
    rw [AtsvrEnv.slot, atsvrDefConfig, List.getD_eq_getElem?_getD, List.getElem?_replicate,
      List.getElem?_nil]
    split <;> rfl
  counts := rfl
  size := List.length_replicate
  fits := Nat.zero_le _
  whole command h := absurd h List.not_mem_nil

/-- The lookup goes through the registered commands in turn. -/
theorem Filled.lookupFrom (h : Filled cmd env reg) {name : List UInt8} {len fuel i : Nat}
    (hfuel : reg.length ≤ i + fuel) :
    lookupFrom cmd env name len fuel i i =
      match (reg.drop i).find? (fun c => (cmd c).name.any (nameFits name len)) with
      | some command => .found command
      | none => .missing := by
  induction fuel generalizing i with
  | zero => rw [List.drop_eq_nil_of_le (show reg.length ≤ i from hfuel), At.lookupFrom,
      List.find?_nil]
  | succ fuel ih =>
    rw [At.lookupFrom]
    split
    next hin =>
      have hlt : i < reg.length := by
        rw [← h.counts]
        exact hin.2
      have hslot : env.slot i = some reg[i] := by
        rw [h.slots, List.getElem?_eq_getElem hlt]
      have hname := (h.whole reg[i] (List.getElem_mem hlt)).1
      rw [hslot, List.drop_eq_getElem_cons hlt]
      dsimp only
      cases hcmd : (cmd reg[i]).name with
      | none => exact absurd hcmd hname
      | some cmdName =>
        rw [List.find?_cons, hcmd, Option.any_some]
        dsimp only
        cases nameFits name len cmdName with
        | true => rfl
        | false => exact ih (by omega)
    next hout =>
      rw [h.counts] at hout
      have hfits := h.fits
      rw [List.drop_eq_nil_of_le (by omega), List.find?_nil]

theorem Filled.lookup (h : Filled cmd env reg) (name : List UInt8) (len : Nat) :
    atsvrLookupAtCommand cmd env name len =
      match reg.find? (fun c => (cmd c).name.any (nameFits name len)) with
      | some command => .found command
      | none => .missing := by
  have hfits : reg.length ≤ 0 + atsvrMaxCommands := by
    rw [Nat.zero_add]
    exact h.fits
  exact h.lookupFrom hfits

theorem nameFits_zero {name cmdName : List UInt8} :
    nameFits name 0 cmdName = true ↔ cmdName = name := by
  rw [nameFits, if_neg (not_not.mpr rfl), decide_eq_true_iff]
  constructor
  · exact And.right
  · rintro rfl
    exact ⟨rfl, rfl⟩

variable [DecidableEq κ]

theorem Filled.slotOf_eq_none (h : Filled cmd env reg) {command : κ} :
    slotOf env command = none ↔ command ∉ reg := by
  rw [slotOf, Scan.upTo_hit_none, h.counts]
  simp only [decide_eq_false_iff_not, h.slots]
  constructor
  · intro hnone hmem
    obtain ⟨i, hi⟩ := List.mem_iff_getElem?.mp hmem
    exact hnone i (List.getElem?_eq_some_iff.mp hi).1 hi
  · intro hnew i _ hi
    exact hnew (List.mem_of_getElem? hi)

theorem Filled.register (h : Filled cmd env reg) {command : κ} (hwhole : (cmd command).Whole)
    (hnew : command ∉ reg) (hroom : reg.length < atsvrMaxCommands) :
    (atsvrRegisterCommand cmd env command).2 = .ok ∧
      Filled cmd (atsvrRegisterCommand cmd env command).1 (reg ++ [command]) := by
  have hslot : ¬ (slotOf env command).isSome = true := by
    rw [h.slotOf_eq_none.mpr hnew]
    exact Bool.false_ne_true
  rw [atsvrRegisterCommand, if_neg (not_not.mpr hwhole), if_pos (by rw [h.counts]; exact hroom),
    if_neg hslot]
  refine ⟨rfl, fun i => ?_, ?_, ?_, ?_, ?_⟩
  · have hi := h.slots i
    simp only [AtsvrEnv.slot, List.getD_eq_getElem?_getD] at hi ⊢
    rw [h.counts, List.getElem?_set, List.getElem?_append]
    split
    next heq =>
      subst heq
      rw [if_pos (by rw [h.size]; exact hroom), if_neg (Nat.lt_irrefl _), Nat.sub_self]
      rfl
    next hne =>
      rw [hi]
      split
      next => rfl
      next hge =>
        rw [List.getElem?_eq_none (by omega), List.getElem?_eq_none (by simp; omega)]
  · rw [List.length_append, ← h.counts]
    rfl
  · rw [List.length_set, h.size]
  · rw [List.length_append]
    exact hroom
  · intro other hother
    rcases List.mem_append.mp hother with hmem | hmem
    · exact h.whole other hmem
    · rw [List.mem_singleton.mp hmem]
      exact hwhole

end Table

section Run

variable [DecidableEq κ]

variable {cmd : κ → AtsvrCommand} {env : AtsvrEnv κ} {h : RegistryHistory κ}

theorem Filled.law (hf : Filled cmd env (registered h)) : RegistryLaw cmd h env where
  found name command hfound := by
    rw [hf.lookup] at hfound
    split at hfound
    next other hfind =>
      obtain rfl := Lookup.found.inj hfound
      have hany := List.find?_some hfind
      obtain ⟨cmdName, hcmd, hfits⟩ := (Option.any_eq_true _ _).mp hany
      exact ⟨List.mem_of_find?_eq_some hfind, by rw [hcmd, nameFits_zero.mp hfits]⟩
    next => cases hfound
  finds command hmem name hname := by
    rw [hf.lookup]
    split
    next other hfind => exact ⟨other, rfl⟩
    next hfind =>
      refine absurd ?_ (List.find?_eq_none.mp hfind command hmem)
      rw [hname]
      exact nameFits_zero.mpr rfl
  noFault name len := by
    rw [hf.lookup]
    split
    · intro hfault
      cases hfault
    · intro hfault
      cases hfault
  counts := hf.counts
  frees command hwhole hnew hroom := (hf.register hwhole hnew hroom).1

/-- What a call leaves when it takes no command out. -/
theorem Filled.step (hf : Filled cmd env (registered h)) {e : RegistryEvent κ} {env' : AtsvrEnv κ}
    {o : AtsvrSt} (hkeeps : Keeps cmd env e)
    (hstep : (registry cmd).step env e = some (env', o)) :
    Filled cmd env' (registered (h ++ [(e, o)])) := by
  rw [registered_concat]
  cases e with
  | register command =>
    have hres : atsvrRegisterCommand cmd env command = (env', o) := Option.some.inj hstep
    by_cases hwhole : (cmd command).Whole
    · by_cases hroom : (registered h).length < atsvrMaxCommands
      · by_cases hnew : command ∈ registered h
        · have hslot : (slotOf env command).isSome = true := by
            rw [Option.isSome_iff_ne_none]
            exact fun hnone => hf.slotOf_eq_none.mp hnone hnew
          rw [atsvrRegisterCommand, if_neg (not_not.mpr hwhole),
            if_pos (by rw [hf.counts]; exact hroom), if_pos hslot] at hres
          cases hres
          exact hf
        · obtain ⟨hok, hf'⟩ := hf.register hwhole hnew hroom
          rw [hres] at hok hf'
          subst hok
          exact hf'
      · rw [atsvrRegisterCommand, if_neg (not_not.mpr hwhole),
          if_neg (by rw [hf.counts]; exact hroom)] at hres
        cases hres
        exact hf
    · rw [atsvrRegisterCommand, if_pos hwhole] at hres
      cases hres
      exact hf
  | unregister command =>
    have hres : atsvrUnregisterCommand cmd env command = (env', o) := Option.some.inj hstep
    by_cases hwhole : (cmd command).Whole
    · have hnone := hkeeps hwhole
      have hsame : atsvrUnregisterCommand cmd env command = (env, .ok) := by
        rw [atsvrUnregisterCommand, if_neg (not_not.mpr hwhole), hnone]
        exact ite_self _
      rw [hsame] at hres
      cases hres
      rw [account, List.erase_of_not_mem (hf.slotOf_eq_none.mp hnone)]
      exact hf
    · rw [atsvrUnregisterCommand, if_pos hwhole] at hres
      cases hres
      exact hf

/-- A command that is taken out stays in the count. -/
theorem Filled.unregister (hf : Filled cmd env (registered h)) {e : RegistryEvent κ}
    {env' : AtsvrEnv κ} {o : AtsvrSt} (hstep : (registry cmd).step env e = some (env', o))
    (hlaw : RegistryLaw cmd (h ++ [(e, o)]) env') : Keeps cmd env e := by
  cases e with
  | register command => trivial
  | unregister command =>
    intro hwhole
    by_contra hsome
    have hmem : command ∈ registered h := by
      by_contra hnew
      exact hsome (hf.slotOf_eq_none.mpr hnew)
    have hres : atsvrUnregisterCommand cmd env command = (env', o) := Option.some.inj hstep
    have hkept : env'.numCommands = env.numCommands ∧ o = .ok := by
      rw [atsvrUnregisterCommand, if_neg (not_not.mpr hwhole)] at hres
      obtain ⟨i, hi⟩ := Option.ne_none_iff_exists'.mp hsome
      rw [hi] at hres
      split at hres <;> cases hres <;> exact ⟨rfl, rfl⟩
    have hcounts := hlaw.counts
    rw [hkept.1, hkept.2, registered_concat, account, hf.counts,
      List.length_erase_of_mem hmem] at hcounts
    have hpos := List.length_pos_of_mem hmem
    omega

theorem filled_of_reaches (hr : (registry cmd).ReachesUnder (Keeps cmd) h env) :
    Filled cmd env (registered h) :=
  hr.invariant (fun h env => Filled cmd env (registered h)) filled_init
    fun hf hkeeps hstep => hf.step hkeeps hstep

end Run

/-- The registry does what it should throughout the runs in which no call takes out a command that
is in the table, and in no others. -/
theorem registry_obeys [DecidableEq κ] (cmd : κ → AtsvrCommand) (h : RegistryHistory κ)
    (env : AtsvrEnv κ) :
    ((registry cmd).ReachesUnder (Keeps cmd) h env → RegistryLaw cmd h env) ∧
      ((registry cmd).ReachesUnder (Keeps cmd) h env ↔
        (registry cmd).ReachesWithin (RegistryLaw cmd) h env) :=
  ⟨fun hr => (filled_of_reaches hr).law,
    Machine.reachesUnder_iff_within (fun hr => (filled_of_reaches hr).law)
      fun hr hstep hlaw => (filled_of_reaches hr).unregister hstep hlaw⟩

/-- A command that is registered and taken out again leaves an empty slot, which the next lookup
goes through. -/
theorem unregister_leaves_hole : ¬ ∀ (cmd : Nat → AtsvrCommand) (h : RegistryHistory Nat)
    (env : AtsvrEnv Nat), (registry cmd).Reaches h env → RegistryLaw cmd h env := by
  intro hall
  let cmd (n : Nat) : AtsvrCommand := ⟨some [0x41, UInt8.ofNat n], true⟩
  have hx : (registry cmd).exec [.register 0, .unregister 0] =
      some ([(.register 0, .ok), (.unregister 0, .ok)], ⟨List.replicate 64 none, 1⟩) := by decide
  exact (hall cmd _ _ (Machine.reaches_of_exec hx)).noFault [0x41, 0] 0 (by decide)

end BdkRtt.At
