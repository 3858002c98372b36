import BdkRtt.Lib.Scan
import BdkRtt.Driver.ModelLaws

namespace BdkRtt.Driver

open Lib

def ddMaxSdev : Nat := 16

/-- A name that fits the driver model's limit. -/
structure DevName extends CString where
  fits : chars.length ≤ ddMaxNameLen
  deriving DecidableEq

/-- Whether the one entry is not NULL. -/
structure SddOperations where
  hasControl : Bool
  deriving DecidableEq

structure DrvSdev where
  name : Option CString
  state : DdState
  op : Option SddOperations
  deriving DecidableEq

def DrvSdev.zero : DrvSdev := ⟨none, .nodevice, none⟩

abbrev SdevTable := Fin ddMaxSdev → DrvSdev

/-- `drv_dev_tbl` and `drv_sdev_tbl`. -/
structure DrvTbls where
  dev : DrvTable
  sdev : SdevTable

/-- The entry of a table at an index, when it is in the table. -/
def entryAt {n : Nat} {α : Type} (tbl : Fin n → α) (i : Nat) : Option α :=
  if h : i < n then some (tbl ⟨i, h⟩) else none

def setAt {n : Nat} {α : Type} (tbl : Fin n → α) (i : Nat) (x : α) : Fin n → α :=
  fun j => if j.val = i then x else tbl j

/-- `0 == os_strncmp(dev_ptr->name, dev_name, name_len)`, where a NULL name is read at address
zero, which holds `nullName`. -/
def nameMatches (nullName : CString) (name : Option CString) (devName : CString) : Bool :=
  strncmpEq (name.getD nullName).chars devName.chars devName.chars.length

def devNameAt (tbl : DrvTable) (i : Nat) : Option CString := (entryAt tbl i).bind (·.name)

def sdevNameAt (tbl : SdevTable) (i : Nat) : Option CString := (entryAt tbl i).bind (·.name)

/-- What `sddev_control` and `sddev_register_dev` give: the result, and the entry whose
`control` was called, with the command. -/
structure SddAnswer where
  ret : UInt32
  called : Option (Nat × UInt32)
  deriving DecidableEq

/-- `sddev_control`; `result` is what `op->control` returns.  No match, or a match with an
entry that has no operations, ends in the `ASSERT`. -/
def sddevControl (nullName : CString) (tbl : SdevTable) (devName : CString)
    (cmd result : UInt32) : Option (SdevTable × SddAnswer) :=
  let s := Scan.upTo (fun i => nameMatches nullName (sdevNameAt tbl i) devName) ddMaxSdev
  s.hit.bind fun i => (entryAt tbl i).bind fun dev => dev.op.bind fun op =>
    if op.hasControl then some (tbl, ⟨result, some (i, cmd)⟩)
    else some (tbl, ⟨drvFailure, none⟩)

/-- `sddev_register_dev`; a full table ends in the `ASSERT`. -/
def sddevRegisterDev (tbl : SdevTable) (devName : Option CString)
    (optr : Option SddOperations) : Option (SdevTable × SddAnswer) :=
  match devName, optr with
  | some devName, some optr =>
    match (List.finRange ddMaxSdev).find? fun i =>
        (tbl i).name.isNone && (tbl i).state = .nodevice with
    | none => none
    | some i => some (setAt tbl i ⟨some devName, .closed, some optr⟩, ⟨drvSuccess, none⟩)
  | _, _ => some (tbl, ⟨drvFailure, none⟩)

/-- `ddev_unregister_dev`.  It leaves `use_cnt` as it is, and no match ends in the `ASSERT`. -/
def ddevUnregisterDev (nullName : CString) (tbl : DrvTable) (devName : Option CString) :
    Option (DrvTable × Answer) :=
  match devName with
  | none => some (tbl, ⟨drvFailure, none, none⟩)
  | some devName =>
    if ddMaxNameLen < devName.chars.length then some (tbl, ⟨drvFailure, none, none⟩)
    else
      let s := Scan.upTo (fun i => nameMatches nullName (devNameAt tbl i) devName) ddMaxDev
      s.hit.bind fun i => (entryAt tbl i).bind fun dev =>
        some (setAt tbl i { dev with name := none, op := none, state := .nodevice },
          ⟨drvSuccess, none, none⟩)

/-- `sddev_unregister_dev`.  Its loop has the other table's size. -/
def sddevUnregisterDev (nullName : CString) (tbl : SdevTable) (devName : Option CString) :
    Option (SdevTable × SddAnswer) :=
  match devName with
  | none => some (tbl, ⟨drvFailure, none⟩)
  | some devName =>
    if ddMaxNameLen < devName.chars.length then some (tbl, ⟨drvFailure, none⟩)
    else
      let s := Scan.upTo (fun i => nameMatches nullName (sdevNameAt tbl i) devName) ddMaxDev
      s.hit.bind fun i => (entryAt tbl i).bind fun dev =>
        some (setAt tbl i { dev with name := none, op := none, state := .nodevice },
          ⟨drvSuccess, none⟩)

inductive DevCall
  | register (devName : DevName) (optr : Option DdOperations)
  | open (devName : DevName) (status : Bool) (opFlag result : UInt32)
  | close (handle : UInt32)
  | unregister (devName : DevName)
  | sddevRegister (devName : DevName) (optr : Option SddOperations)
  | sddevControl (devName : DevName) (cmd result : UInt32)
  | sddevUnregister (devName : DevName)
  deriving DecidableEq

inductive DevAnswer
  | dev (a : Answer)
  | sdev (a : SddAnswer)
  deriving DecidableEq

/-- The answer of a function that works on the one table or on the other. -/
def DrvTbls.withDev (s : DrvTbls) (r : Option (DrvTable × Answer)) :
    Option (DrvTbls × DevAnswer) :=
  r.map fun x => ({ s with dev := x.1 }, .dev x.2)

def DrvTbls.withSdev (s : DrvTbls) (r : Option (SdevTable × SddAnswer)) :
    Option (DrvTbls × DevAnswer) :=
  r.map fun x => ({ s with sdev := x.1 }, .sdev x.2)

/-- Both tables after `drv_model_init`, under the calls that take a name. -/
def drvTables (nullName : CString) : Machine DrvTbls DevCall DevAnswer where
  init := ⟨fun _ => .zero, fun _ => .zero⟩
  step s c :=
    match c with
    | .register n optr => s.withDev (ddevRegisterDev s.dev (some n.toCString) optr)
    | .open n status opFlag result =>
      s.withDev (ddevOpen nullName s.dev (some n.toCString) status opFlag result)
    | .close handle => s.withDev (ddevClose s.dev handle)
    | .unregister n => s.withDev (ddevUnregisterDev nullName s.dev (some n.toCString))
    | .sddevRegister n optr => s.withSdev (sddevRegisterDev s.sdev (some n.toCString) optr)
    | .sddevControl n cmd result =>
      s.withSdev (sddevControl nullName s.sdev n.toCString cmd result)
    | .sddevUnregister n => s.withSdev (sddevUnregisterDev nullName s.sdev (some n.toCString))

/-- A search of a table for a name: the names the table holds, how long it is, and how far
the loop goes. -/
structure NameSearch where
  nameAt : Nat → Option CString
  size : Nat
  bound : Nat
  devName : CString

/-- The search a call makes, if it makes one. -/
def DrvTbls.search (s : DrvTbls) : DevCall → Option NameSearch
  | .register _ _ | .close _ | .sddevRegister _ _ => none
  | .open n status _ _ =>
    if status then some ⟨devNameAt s.dev, ddMaxDev, ddMaxDev, n.toCString⟩ else none
  | .unregister n => some ⟨devNameAt s.dev, ddMaxDev, ddMaxDev, n.toCString⟩
  | .sddevControl n _ _ => some ⟨sdevNameAt s.sdev, ddMaxSdev, ddMaxSdev, n.toCString⟩
  | .sddevUnregister n => some ⟨sdevNameAt s.sdev, ddMaxSdev, ddMaxDev, n.toCString⟩

/-- The entries the search compares the name with, and the one it takes. -/
def NameSearch.scan (nullName : CString) (q : NameSearch) : Scan :=
  Scan.upTo (fun i => nameMatches nullName (q.nameAt i) q.devName) q.bound

end BdkRtt.Driver
