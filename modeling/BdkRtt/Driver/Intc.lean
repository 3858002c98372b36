import BdkRtt.Lib.ListHeader
import BdkRtt.Lib.Machine

universe u

namespace BdkRtt.Driver.Intc

open Lib

def intcMaxCount : Nat := 32

/-- An `int_num` below `INTC_MAX_COUNT`. -/
abbrev IntNum := Fin intcMaxCount

/-- `BIT(i)` -/
def bit (i : IntNum) : BitVec 32 := 1#32 <<< i.val

/-- What a list header points at: `isr_hdr.isr`, or the `list` of an entry of `_isrs`. -/
inductive Ref
  | hdr
  | isr (intNum : IntNum)
deriving DecidableEq

section State

variable {η : Type u}

/-- `ISR_T` less its `list`; the handlers `η` are the functions there are. -/
structure Isr (η : Type u) where
  isrFunc : Option η
  pri : UInt8
  intNum : IntNum

/-- `_isrs`, `isr_hdr` and `isrs_mask`, with the links of both apart. -/
structure State (η : Type u) where
  links : Headers Ref
  isrs : IntNum → Isr η
  isrsMask : BitVec 32

inductive Event (η : Type u)
  | intcServiceRegister (intNum : IntNum) (intPri : UInt8) (isr : η)
  | intcServiceChangeHandler (intNum : IntNum) (isr : η)

/-- The label a call leaves by; the code returns nothing. -/
inductive Answer
  | ok
  | error
deriving DecidableEq

end State

section Functions

variable {η : Type u}

def State.setIsr (s : State η) (i : IntNum) (x : Isr η) : State η :=
  { s with isrs := Function.update s.isrs i x }

/-- `_isrs[int_num] = buf_ele` -/
def State.restore (s : State η) (i : IntNum) (list : ListHeader Ref) (x : Isr η) : State η :=
  { s.setIsr i x with links := Function.update s.links (.isr i) list }

def State.listAddHead (s : State η) (new head : Ref) : Option (State η) :=
  (s.links head).next.map fun next => { s with links := s.links.listAdd new head next }

def State.listAddTail (s : State η) (new head : Ref) : Option (State η) :=
  (s.links head).prev.map fun prev => { s with links := s.links.listAdd new prev head }

/-- `ok:` -/
def State.ok (s : State η) (i : IntNum) : State η × Answer :=
  ({ s with isrsMask := s.isrsMask ||| bit i }, .ok)

/-- The walk of `intc_service_register` from `pos` on, for the entry that was `list` and `x`. -/
def State.registerFrom (s : State η) (i : IntNum) (intPri : UInt8) (list : ListHeader Ref)
    (x : Isr η) : Nat → Ref → Option (State η × Answer)
  | 0, _ => none
  | _ + 1, .hdr => (s.listAddTail (.isr i) .hdr).map (·.ok i)
  | fuel + 1, .isr j =>
    (s.links (.isr j)).next.bind fun n =>
      if intPri < (s.isrs j).pri then (s.listAddTail (.isr i) (.isr j)).map (·.ok i)
      else if intPri = (s.isrs j).pri then some (s.restore i list x, .error)
      else s.registerFrom i intPri list x fuel n

def State.intcServiceRegister (fuel : Nat) (s : State η) (i : IntNum) (intPri : UInt8) (isr : η) :
    Option (State η × Answer) :=
  let s' := s.setIsr i ⟨some isr, intPri, i⟩
  (s'.links .hdr).next.bind fun pos =>
    if pos = .hdr then (s'.listAddHead (.isr i) .hdr).map (·.ok i)
    else s'.registerFrom i intPri (s.links (.isr i)) (s.isrs i) fuel pos

/-- The walk of `intc_service_change_handler` from `pos` on. -/
def State.changeFrom (s : State η) (i : IntNum) (isr : η) : Nat → Ref → Option (State η × Answer)
  | 0, _ => none
  | _ + 1, .hdr => some (s.restore i (s.links (.isr i)) (s.isrs i), .error)
  | fuel + 1, .isr j =>
    (s.links (.isr j)).next.bind fun n =>
      if (s.isrs i).pri = (s.isrs j).pri then
        some (s.restore i (s.links (.isr i)) { s.isrs i with isrFunc := some isr }, .ok)
      else s.changeFrom i isr fuel n

def State.intcServiceChangeHandler (fuel : Nat) (s : State η) (i : IntNum) (isr : η) :
    Option (State η × Answer) :=
  if (s.isrs i).isrFunc.isNone then some (s, .error)
  else (s.links .hdr).next.bind fun pos =>
    if pos = .hdr then some (s.restore i (s.links (.isr i)) (s.isrs i), .error)
    else s.changeFrom i isr fuel pos

/-- The handlers that `intc_hdl_entry` calls from `pos` on. -/
def State.hdlFrom (s : State η) : Nat → BitVec 32 → Ref → Option (List η)
  | 0, _, _ => none
  | _ + 1, _, .hdr => some []
  | fuel + 1, status, .isr j =>
    (s.links (.isr j)).next.bind fun n =>
      let i := (s.isrs j).intNum
      if bit i &&& status ≠ 0 then
        (s.isrs j).isrFunc.bind fun f =>
          let status := status &&& ~~~ bit i
          if status = 0 then some [f] else (s.hdlFrom fuel status n).map (f :: ·)
      else if status = 0 then some []
      else s.hdlFrom fuel status n

def State.intcHdlEntry (fuel : Nat) (s : State η) (intStatus : BitVec 32) : Option (List η) :=
  (s.links .hdr).next.bind (s.hdlFrom fuel (intStatus &&& s.isrsMask))

end Functions

section Machine

variable {η : Type u}

/-- A walk that has not ended after all nodes is back at one it has passed, and never ends. -/
def State.step (s : State η) : Event η → Option (State η × Answer)
  | .intcServiceRegister i intPri isr => s.intcServiceRegister (intcMaxCount + 1) i intPri isr
  | .intcServiceChangeHandler i isr => s.intcServiceChangeHandler (intcMaxCount + 1) i isr

/-- The variables as they are initialised. -/
def init : State η where
  links
    | .hdr => ⟨some .hdr, some .hdr⟩
    | .isr _ => ⟨none, none⟩
  isrs _ := ⟨none, 0, ⟨0, by decide⟩⟩
  isrsMask := 0

def intc (η : Type u) : Machine (State η) (Event η) Answer where
  init := init
  step := State.step

end Machine

end BdkRtt.Driver.Intc
