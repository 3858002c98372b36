import BdkRtt.Lib.Machine
import BdkRtt.Lib.Scan

universe u

namespace BdkRtt.At

open Lib

def atsvrMaxCommands : Nat := 64

/-- The values of `_atsvr_st` that the functions here return. -/
inductive AtsvrSt
  | ok | error | general
  deriving DecidableEq

/-- `struct _atsvr_command`: the name without its terminator, `none` for NULL, and whether the
function is there. -/
structure AtsvrCommand where
  name : Option (List UInt8)
  function : Bool
  deriving DecidableEq

/-- The slots and the count of `_atsvr_env_t`; a command is known by its address. -/
structure AtsvrEnv (κ : Type u) where
  commands : List (Option κ)
  numCommands : Nat
  deriving DecidableEq

/-- `_atsvr_def_config`, without its internal commands. -/
def atsvrDefConfig (κ : Type u) : AtsvrEnv κ := ⟨List.replicate atsvrMaxCommands none, 0⟩

section Functions

-- The command structures are constants: what stands at each address.
variable {κ : Type u} [DecidableEq κ] (cmd : κ → AtsvrCommand) (env : AtsvrEnv κ)

/-- The test that both functions begin with. -/
def AtsvrCommand.Whole (c : AtsvrCommand) : Prop := c.name ≠ none ∧ c.function = true

instance (c : AtsvrCommand) : Decidable c.Whole := inferInstanceAs (Decidable (_ ∧ _))

def AtsvrEnv.slot (i : Nat) : Option κ := env.commands.getD i none

/-- The loop over the slots for a command. -/
def slotOf (command : κ) : Option Nat :=
  (Scan.upTo (fun i => decide (env.slot i = some command)) env.numCommands).hit

def atsvrRegisterCommand (command : κ) : AtsvrEnv κ × AtsvrSt :=
  if ¬ (cmd command).Whole then (env, .general)
  else if env.numCommands < atsvrMaxCommands then
    if (slotOf env command).isSome then (env, .general)
    else
      ({ env with
          commands := env.commands.set env.numCommands (some command)
          numCommands := env.numCommands + 1 }, .ok)
  else (env, .error)

def atsvrUnregisterCommand (command : κ) : AtsvrEnv κ × AtsvrSt :=
  if ¬ (cmd command).Whole then (env, .general)
  else if env.numCommands < atsvrMaxCommands then
    match slotOf env command with
    | some i => ({ env with commands := env.commands.set i none }, .ok)
    | none => (env, .ok)
  else (env, .ok)

/-- What `_atsvr_lookup_at_command` comes to; `fault` is an access through NULL. -/
inductive Lookup (κ : Type u)
  | fault | missing | found (command : κ)
  deriving DecidableEq

/-- Whether a command of that name is the one looked for. -/
def nameFits (name : List UInt8) (len : Nat) (cmdName : List UInt8) : Bool :=
  if len ≠ 0 then decide (cmdName.length ≥ len ∧ cmdName.take len = name.take len)
  else decide (cmdName.length = name.length ∧ cmdName = name)

/-- The loop of `_atsvr_lookup_at_command`; each round moves `i` on, so `ATSVR_MAX_COMMANDS`
rounds are enough. -/
def lookupFrom (name : List UInt8) (len : Nat) : Nat → (i n : Nat) → Lookup κ
  | 0, _, _ => .missing
  | fuel + 1, i, n =>
    if i < atsvrMaxCommands ∧ n < env.numCommands then
      match env.slot i with
      | none => .fault
      | some command =>
        match (cmd command).name with
        | none => lookupFrom name len fuel (i + 1) n
        | some cmdName =>
          if nameFits name len cmdName then .found command
          else lookupFrom name len fuel (i + 1) (n + 1)
    else .missing

def atsvrLookupAtCommand (name : List UInt8) (len : Nat) : Lookup κ :=
  lookupFrom cmd env name len atsvrMaxCommands 0 0

/-- A call of a command: its address, and the arguments it is given. -/
structure Call (κ : Type u) where
  command : κ
  argc : UInt8
  argv : List (List UInt8)
  deriving DecidableEq

/-- The length up to a `'.'` in the name, 0 when there is none. -/
def partialLen (name : List UInt8) : Nat :=
  if 0x2e ∈ name then name.idxOf 0x2e else 0

/-- `_atsvc_command_handle`, `none` for an access through NULL.  Behind the arguments, where there
is room, it puts `env`. -/
def atsvcCommandHandle (argc : UInt8) (argv : List (List UInt8)) :
    Option (AtsvrSt × Option (Call κ)) :=
  let name := argv.headD []
  match atsvrLookupAtCommand cmd env name (partialLen name) with
  | .fault => none
  | .missing => some (.general, none)
  | .found command =>
    if (cmd command).function then some (.ok, some ⟨command, argc, argv.take argc.toNat⟩)
    else some (.general, none)

end Functions

end BdkRtt.At
