import BdkRtt.Lib.Machine
import Mathlib.Data.List.FinRange

namespace BdkRtt.Driver

open Lib

def drvFailure : UInt32 := -5
def drvSuccess : UInt32 := 0

abbrev ddMaxDev : Nat := 10
def ddMaxNameLen : Nat := 16

def ddHandleMagicWord : UInt32 := 0xA5A50000
def ddHandleMagicMask : UInt32 := 0xFFFF0000
def ddHandleIdMask : UInt32 := 0x0000FFFF

def ddHandleUnvalid : UInt32 := -1
def ddIdUnvalid : UInt32 := -1

/-- The bytes of a string in front of its NUL. -/
structure CString where
  chars : List UInt8
  noNul : 0 ∉ chars
  deriving DecidableEq

/-- Whether `os_strncmp` of the two strings is zero. -/
def strncmpEq : List UInt8 → List UInt8 → Nat → Bool
  | _, _, 0 => true
  | [], [], _ + 1 => true
  | [], _ :: _, _ + 1 => false
  | _ :: _, [], _ + 1 => false
  | a :: s, b :: t, n + 1 => a = b && strncmpEq s t n

inductive DdState
  | nodevice | closed | opened | brk | success
  deriving DecidableEq

/-- Which of the two entries are not NULL. -/
structure DdOperations where
  hasOpen : Bool
  hasClose : Bool
  deriving DecidableEq

structure DrvDev where
  name : Option CString
  useCnt : UInt32
  state : DdState
  op : Option DdOperations
  deriving DecidableEq

def DrvDev.zero : DrvDev := ⟨none, 0, .nodevice, none⟩

/-- `operation && (operation->open)`. -/
def DrvDev.callsOpen (dev : DrvDev) : Bool := dev.op.any (·.hasOpen)

def DrvDev.callsClose (dev : DrvDev) : Bool := dev.op.any (·.hasClose)

abbrev DrvTable := Fin ddMaxDev → DrvDev

def setDev (tbl : DrvTable) (i : Fin ddMaxDev) (dev : DrvDev) : DrvTable :=
  fun j => if j = i then dev else tbl j

/-- A call of a device's own function, made while a driver model function runs. -/
inductive OpCall
  | open (id : Fin ddMaxDev) (opFlag : UInt32)
  | close (id : Fin ddMaxDev)
  deriving DecidableEq

/-- What the caller gets: the result, the value stored through `status`, and the call made
of the device. -/
structure Answer where
  ret : UInt32
  status : Option UInt32
  called : Option OpCall
  deriving DecidableEq

def ddevMakeHandle (id : UInt32) : UInt32 :=
  if ddMaxDev ≤ id.toNat then ddHandleUnvalid else id + ddHandleMagicWord

def ddevGetIdFromHandle (handle : UInt32) : UInt32 :=
  let magic := handle &&& ddHandleMagicMask
  let id := handle &&& ddHandleIdMask
  if magic ≠ ddHandleMagicWord then ddIdUnvalid else id

/-- The index a loop over the table has in `i`. -/
def slotId (i : Fin ddMaxDev) : UInt32 := UInt32.ofNat i

/-- `&drv_dev_tbl[id]`, when it is in the table. -/
def devAt (id : UInt32) : Option (Fin ddMaxDev) :=
  if h : id.toNat < ddMaxDev then some ⟨id.toNat, h⟩ else none

/-- The first entry a name matches.  The name of an entry that has none is a NULL pointer;
`nullName` is the string the memory at address zero holds. -/
def findDev (nullName : CString) (tbl : DrvTable) (devName : CString) :
    Option (Fin ddMaxDev) :=
  (List.finRange ddMaxDev).find? fun i =>
    strncmpEq ((tbl i).name.getD nullName).chars devName.chars devName.chars.length

/-- `ddev_open`; `status` is whether its pointer is not NULL, and `result` what `op->open`
returns.  No match, or a match with an entry that holds no device, ends in the `ASSERT`. -/
def ddevOpen (nullName : CString) (tbl : DrvTable) (devName : Option CString) (status : Bool)
    (opFlag result : UInt32) : Option (DrvTable × Answer) :=
  match devName with
  | none => some (tbl, ⟨ddHandleUnvalid, none, none⟩)
  | some devName =>
    if status = false ∨ ddMaxNameLen < devName.chars.length then
      some (tbl, ⟨ddHandleUnvalid, none, none⟩)
    else
      match findDev nullName tbl devName with
      | none => none
      | some i =>
        let dev := tbl i
        match dev.state with
        | .opened =>
          some (setDev tbl i { dev with useCnt := dev.useCnt + 1 },
            ⟨ddevMakeHandle (slotId i), some drvFailure, none⟩)
        | .closed =>
          some (setDev tbl i { dev with state := .opened, useCnt := 0 + 1 },
            ⟨ddevMakeHandle (slotId i), some (if dev.callsOpen then result else drvFailure),
              if dev.callsOpen then some (.open i opFlag) else none⟩)
        | .nodevice | .brk | .success => none

/-- `ddev_close`.  It does not compare the id with the size of the table; `none` is a handle
whose id is past its end. -/
def ddevClose (tbl : DrvTable) (handle : UInt32) : Option (DrvTable × Answer) :=
  let id := ddevGetIdFromHandle handle
  if id = ddIdUnvalid then some (tbl, ⟨drvFailure, none, none⟩)
  else
    match devAt id with
    | none => none
    | some i =>
      let dev := { tbl i with useCnt := (tbl i).useCnt - 1 }
      if dev.useCnt = 0 then
        some (setDev tbl i { dev with state := .closed },
          ⟨drvSuccess, none, if dev.callsClose then some (.close i) else none⟩)
      else some (setDev tbl i dev, ⟨drvSuccess, none, none⟩)

/-- `ddev_register_dev`; a full table ends in the `ASSERT`. -/
def ddevRegisterDev (tbl : DrvTable) (devName : Option CString) (optr : Option DdOperations) :
    Option (DrvTable × Answer) :=
  match devName, optr with
  | some devName, some optr =>
    match (List.finRange ddMaxDev).find? fun i =>
        (tbl i).name.isNone && (tbl i).state = .nodevice with
    | none => none
    | some i =>
      some (setDev tbl i
        { tbl i with name := some devName, op := some optr, state := .closed },
        ⟨drvSuccess, none, none⟩)
  | _, _ => some (tbl, ⟨drvFailure, none, none⟩)

inductive Call
  | register (devName : Option CString) (optr : Option DdOperations)
  | open (devName : Option CString) (status : Bool) (opFlag result : UInt32)
  | close (handle : UInt32)
  deriving DecidableEq

/-- The driver model after `drv_model_init`. -/
def driverModel (nullName : CString) : Machine DrvTable Call Answer where
  init _ := .zero
  step tbl c :=
    match c with
    | .register devName optr => ddevRegisterDev tbl devName optr
    | .open devName status opFlag result => ddevOpen nullName tbl devName status opFlag result
    | .close handle => ddevClose tbl handle

end BdkRtt.Driver
