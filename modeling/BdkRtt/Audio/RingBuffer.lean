import BdkRtt.Lib.Machine
import BdkRtt.Lib.Mem
import Mathlib.Algebra.Group.Nat.Defs

namespace BdkRtt.Audio

open Lib

/-- `RB_ST`: `address` is the memory the buffer was given, seen from its first byte. -/
structure RbSt where
  address : Mem UInt8
  capacity : UInt32
  wp : UInt32
  rp : UInt32

def rwpSafeInterval : UInt32 := 4

def rbInit (addr : Mem UInt8) (capacity : UInt32) : RbSt where
  address := addr
  capacity := capacity
  wp := 0
  rp := 0

def rbClear (rb : RbSt) : RbSt := { rb with wp := 0, rp := 0 }

/-- The bytes stored from `buffer` on, and the value returned. -/
structure RbRead where
  bytes : List UInt8
  ret : UInt32

def rbRead (rb : RbSt) (size count : UInt32) : RbSt × RbRead :=
  let requiredBytes := size * count
  let wp := rb.wp
  if requiredBytes = 0 then (rb, ⟨[], 0⟩)
  else if rb.rp ≤ wp then
    let remainBytes := wp - rb.rp
    let readBytes := if requiredBytes > remainBytes then remainBytes else requiredBytes
    ({ rb with rp := rb.rp + readBytes },
      ⟨rb.address.read rb.rp.toNat readBytes.toNat, readBytes⟩)
  else
    let remainBytes := rb.capacity - rb.rp
    if requiredBytes > remainBytes then
      let readBytes := remainBytes
      let head := rb.address.read rb.rp.toNat readBytes.toNat
      if requiredBytes - readBytes > wp then
        ({ rb with rp := wp }, ⟨head ++ rb.address.read 0 wp.toNat, readBytes + wp⟩)
      else
        ({ rb with rp := requiredBytes - readBytes },
          ⟨head ++ rb.address.read 0 (requiredBytes - readBytes).toNat, requiredBytes⟩)
    else
      ({ rb with rp := rb.rp + requiredBytes },
        ⟨rb.address.read rb.rp.toNat requiredBytes.toNat, requiredBytes⟩)

/-- The copies of `rb_write` with the new `wp`; `none` is the refusal. -/
def rbStore (rb : RbSt) (buffer : Mem UInt8) (writeBytes : UInt32) : Option RbSt :=
  let rp := rb.rp
  if rp ≤ rb.wp then
    let remainBytes := rb.capacity - rb.wp + rp
    if remainBytes ≥ writeBytes + rwpSafeInterval then
      let remainBytes := rb.capacity - rb.wp
      if remainBytes ≥ writeBytes then
        some { rb with
          address := rb.address.write rb.wp.toNat (buffer.read 0 writeBytes.toNat)
          wp := rb.wp + writeBytes }
      else
        let wp := writeBytes - remainBytes
        some { rb with
          address := (rb.address.write rb.wp.toNat (buffer.read 0 remainBytes.toNat)).write 0
            (buffer.read remainBytes.toNat wp.toNat)
          wp := wp }
    else none
  else
    let remainBytes := rp - rb.wp
    if remainBytes ≥ writeBytes + rwpSafeInterval then
      some { rb with
        address := rb.address.write rb.wp.toNat (buffer.read 0 writeBytes.toNat)
        wp := rb.wp + writeBytes }
    else none

def rbWrite (rb : RbSt) (buffer : Mem UInt8) (size count : UInt32) : RbSt × UInt32 :=
  let writeBytes := size * count
  if writeBytes = 0 then (rb, 0)
  else match rbStore rb buffer writeBytes with
    | none => (rb, 0)
    | some rb =>
      (if rb.wp ≥ rb.capacity ∧ rb.rp ≠ 0 then { rb with wp := 0 } else rb, writeBytes)

def rbGetFillSize (rb : RbSt) : UInt32 :=
  if rb.wp ≥ rb.rp then rb.wp - rb.rp else rb.capacity - rb.rp + rb.wp

def rbGetFreeSize (rb : RbSt) : UInt32 :=
  let freeSize := if rb.wp ≥ rb.rp then rb.capacity - rb.wp + rb.rp else rb.rp - rb.wp
  if freeSize > rwpSafeInterval then freeSize - rwpSafeInterval else 0

inductive RbCall
  | write (buffer : Mem UInt8) (size count : UInt32)
  | read (size count : UInt32)
  | clear
  | getFillSize
  | getFreeSize

inductive RbAnswer
  | write (ret : UInt32)
  | read (r : RbRead)
  | clear
  | size (n : UInt32)

def rbStep (rb : RbSt) : RbCall → RbSt × RbAnswer
  | .write buffer size count => ((rbWrite rb buffer size count).1,
      .write (rbWrite rb buffer size count).2)
  | .read size count => ((rbRead rb size count).1, .read (rbRead rb size count).2)
  | .clear => (rbClear rb, .clear)
  | .getFillSize => (rb, .size (rbGetFillSize rb))
  | .getFreeSize => (rb, .size (rbGetFreeSize rb))

/-- A buffer after `rb_init`, used by one call after the other. -/
def ringBuffer (addr : Mem UInt8) (capacity : UInt32) : Machine RbSt RbCall RbAnswer where
  init := rbInit addr capacity
  step rb c := some (rbStep rb c)

end BdkRtt.Audio
