import BdkRtt.At.Registry
import BdkRtt.Lib.Mem

universe u

namespace BdkRtt.At

open Lib

def atsvrMaxArg : Nat := 16

/-- `at_svr_opts.h` comes before the default of `_at_svr_opts.h`. -/
def atsvrInputBuffMaxSize : Nat := 2048

/-- The variables of `_atsvr_handle_input`.  A pointer into `inbuf` is its offset, `argc` is the
number of pointers stored, and `touched` are the bytes of `inbuf` that have been read or written,
by first offset and number. -/
structure Parse where
  inbuf : Mem UInt8
  argv : List Nat
  inArg : Bool
  isD : Nat
  limQ : Bool
  i : Nat
  offset : Nat
  touched : List (Nat × Nat)

/-- How a round of the loop ends. -/
inductive Round
  | fail (ret : Nat) (s : Parse)
  | done (s : Parse)
  | next (s : Parse)

section Loop

variable (len : Int) (s : Parse)

def Parse.argc : Nat := s.argv.length

/-- `case '\0'`. -/
def caseEnd : Round :=
  if s.argc = 0 ∨ s.isD = 1 ∨ s.limQ then .fail 2 s else .done s

/-- `case '='`. -/
def caseEqual : Round :=
  if s.argc = 1 then
    .next { s with inbuf := Function.update s.inbuf s.i 0, inArg := false, isD := 1 }
  else if s.argc = 0 then .fail 4 s
  else .next s

/-- `case '\\'`. -/
def caseEscape : Round :=
  let s := { s with offset := s.offset + 1 }
  if (s.offset : Int) + 1 > len then .fail 6 s
  else
    let n := (len - s.offset + 1).toNat
    .next { s with
      inbuf := s.inbuf.write s.i (s.inbuf.read (s.i + 1) n)
      touched := s.touched ++ [(s.i + 1, n), (s.i, n)] }

/-- `case ','`. -/
def caseComma : Round :=
  if s.isD = 1 ∧ s.argc = 1 then .fail 5 s
  else if s.inArg then
    .next { s with inArg := false, inbuf := Function.update s.inbuf s.i 0, limQ := true }
  else .next s

/-- `default`. -/
def caseDefault : Round :=
  if s.inArg then .next s
  else
    .next { s with
      inArg := true
      argv := s.argv ++ [s.i]
      limQ := false
      isD := if s.isD = 1 then 2 else s.isD }

/-- The body of the loop.  What is written of `inbuf` outside an escape is the byte that was
read. -/
def round : Round :=
  let s := { s with offset := s.offset + 1 }
  if (s.offset : Int) > len then .fail 7 s
  else
    let s := { s with touched := s.touched ++ [(s.i, 1)] }
    if s.inbuf s.i = 0 then caseEnd s
    else if s.inbuf s.i = 0x3d then caseEqual s
    else if s.inbuf s.i = 0x5c then caseEscape len s
    else if s.inbuf s.i = 0x2c then caseComma s
    else caseDefault s

/-- How the loop ends: with a `return`, or behind it. -/
inductive Loop
  | fail (ret : Nat) (s : Parse)
  | behind (s : Parse)

def Loop.parse : Loop → Parse
  | .fail _ s | .behind s => s

/-- The loop, with the number of rounds that `++i < ATSVR_INPUT_BUFF_MAX_SIZE` leaves. -/
def rounds : Nat → Parse → Loop
  | 0, s => .behind s
  | n + 1, s =>
    match round len s with
    | .fail ret s => .fail ret s
    | .done s => .behind s
    | .next s => rounds n { s with i := s.i + 1 }

end Loop

section Handle

variable {κ : Type u} [DecidableEq κ] (cmd : κ → AtsvrCommand) (env : AtsvrEnv κ)

/-- The string at an offset, as far as the buffer goes. -/
def cString (m : Mem UInt8) (len : Nat) (p : Nat) : List UInt8 :=
  (m.read p (len - p)).takeWhile (· ≠ 0)

def parseInput (inbuf : Mem UInt8) (len : Int) : Loop :=
  rounds len atsvrInputBuffMaxSize ⟨inbuf, [], false, 0, false, 0, 0, []⟩

/-- The arguments that `_atsvr_handle_input` passes on, where it does. -/
def passed (inbuf : Mem UInt8) (len : Int) : Option Parse :=
  match parseInput inbuf len with
  | .fail _ _ => none
  | .behind s => if s.argc < 1 then none else some s

/-- What `_atsvr_handle_input` returns: a number of its own, or what `_atsvc_command_handle`
does. -/
inductive Handled (κ : Type u)
  | refused (ret : Nat)
  | handed (r : Option (AtsvrSt × Option (Call κ)))
  deriving DecidableEq

/-- `_atsvr_handle_input`. -/
def atsvrHandleInput (inbuf : Mem UInt8) (len : Int) : Handled κ :=
  match parseInput inbuf len with
  | .fail ret _ => .refused ret
  | .behind s =>
    if s.argc < 1 then .refused 3
    else .handed (atsvcCommandHandle cmd env (UInt8.ofNat s.argc)
      (s.argv.map (cString s.inbuf len.toNat)))

end Handle

end BdkRtt.At
