import Mathlib.Algebra.Group.Nat.Defs
import BdkRtt.Lib.ListHeader
import BdkRtt.Lib.Machine
import BdkRtt.Lib.Mem

namespace BdkRtt.Rttos.MemHeap

open Lib

def rtAlignSize : Nat := 4

/-- `RT_MEMHEAP_SIZE`, with the names and ticks of `RT_USING_MEMTRACE`. -/
def rtMemheapSize : Nat := 36

def rtMemheapMagic : UInt32 := 0x1ea01ea0
def rtMemheapMask : UInt32 := 0xfffffffe
def rtMemheapUsed : UInt32 := 0x01
def rtMemheapMinialloc : Nat := 12

/-- Arithmetic of `rt_uint32_t`. -/
def add32 (x y : Nat) : Nat := (x + y) % 2 ^ 32
def sub32 (x y : Nat) : Nat := (x + (2 ^ 32 - y % 2 ^ 32)) % 2 ^ 32

/-- An assertion that fails stops the system. -/
def rtAssert (p : Prop) [Decidable p] : Option Unit := if p then some () else none

/-- `RT_ALIGN(size, RT_ALIGN_SIZE)`, and no less than `RT_MEMHEAP_MINIALLOC`. -/
def alignedSize (size : Nat) : Nat :=
  max rtMemheapMinialloc (add32 size (rtAlignSize - 1) / rtAlignSize * rtAlignSize)

/-- What the memory of the pool holds, by the offset from its start: the fields of the
`rt_memheap_item` that begins there, and the byte.  The links of the free list are also
those of `free_header`, which is `none`. -/
structure Memory where
  magic : Nat → UInt32
  links : Headers Nat
  freeLinks : Headers (Option Nat)
  data : Mem UInt8

/-- `struct rt_memheap`. -/
structure Heap extends Memory where
  poolSize : Nat
  availableSize : Nat
  maxUsedSize : Nat

namespace Memory

def setMagic (m : Memory) (a : Nat) (x : UInt32) : Memory :=
  { m with magic := Function.update m.magic a x }

def isUsed (m : Memory) (a : Nat) : Bool := m.magic a &&& rtMemheapUsed ≠ 0

/-- `MEMITEM_SIZE`. -/
def memitemSize (m : Memory) (a : Nat) : Option Nat :=
  (m.links a).next.map fun next => sub32 next (a + rtMemheapSize)

end Memory

namespace Heap

def modify (h : Heap) (f : Memory → Memory) : Heap := { h with toMemory := f h.toMemory }

def setLinks (h : Heap) (l : Headers Nat) : Heap := h.modify fun m => { m with links := l }

def setFreeLinks (h : Heap) (l : Headers (Option Nat)) : Heap :=
  h.modify fun m => { m with freeLinks := l }

/-- The available size goes down, and the mark of the greatest use up to it. -/
def useUp (h : Heap) (n : Nat) : Heap :=
  let availableSize := sub32 h.availableSize n
  { h with
    availableSize
    maxUsedSize := max h.maxUsedSize (sub32 h.poolSize availableSize) }

def giveBack (h : Heap) (n : Nat) : Heap :=
  { h with availableSize := add32 h.availableSize n }

/-- A new free block at `b` behind the one at `a`. -/
def newBlock (h : Heap) (b a : Nat) : Option Heap :=
  (h.links.insertAfter b a).map fun l => (h.modify (·.setMagic b rtMemheapMagic)).setLinks l

/-- A block goes to the front of the free list. -/
def enlist (h : Heap) (a : Nat) : Option Heap :=
  (h.freeLinks.insertAfter (some a) none).map h.setFreeLinks

def unlist (h : Heap) (a : Nat) : Option Heap :=
  (h.freeLinks.remove (some a)).map h.setFreeLinks

/-- A block leaves the free list and its links are cleared. -/
def unlistClear (h : Heap) (a : Nat) : Option Heap :=
  (h.unlist a).map fun h =>
    h.setFreeLinks ((h.freeLinks.setNext (some a) none).setPrev (some a) none)

end Heap

/-- `rt_memheap_init` on memory that holds anything. -/
def rtMemheapInit (m : Memory) (size : Nat) : Heap :=
  let poolSize := size / rtAlignSize * rtAlignSize
  let availableSize := sub32 poolSize (2 * rtMemheapSize)
  let last := availableSize + rtMemheapSize
  let links := fun a =>
    if a = last then ⟨some 0, some 0⟩ else if a = 0 then ⟨some last, some last⟩ else m.links a
  let freeLinks := fun a =>
    if a = none then ⟨some (some 0), some (some 0)⟩
    else if a = some 0 then ⟨some none, some none⟩
    else if a = some last then ⟨none, none⟩ else m.freeLinks a
  { (m.setMagic 0 rtMemheapMagic).setMagic last (rtMemheapMagic ||| rtMemheapUsed) with
    links
    freeLinks
    poolSize
    availableSize
    maxUsedSize := sub32 poolSize availableSize }

/-- The loop of `rt_memheap_alloc` over the free list. -/
def search (m : Memory) (size : Nat) : Nat → Option Nat → Nat → Option (Option Nat × Nat)
  | 0, _, _ => none
  | _ + 1, none, freeSize => some (none, freeSize)
  | fuel + 1, some a, freeSize =>
    if freeSize < size then
      (m.memitemSize a).bind fun freeSize =>
        if freeSize < size then
          (m.freeLinks (some a)).next.bind fun next => search m size fuel next freeSize
        else search m size fuel (some a) freeSize
    else some (some a, freeSize)

/-- The block at `a` is taken, and what it has too much split off. -/
def carve (h : Heap) (a size freeSize : Nat) : Option Heap :=
  if add32 (add32 size rtMemheapSize) rtMemheapMinialloc ≤ freeSize then do
    let b := a + size + rtMemheapSize
    let h ← h.newBlock b a
    let h ← h.unlistClear a
    let h ← h.enlist b
    return h.useUp (add32 size rtMemheapSize)
  else (h.useUp freeSize).unlistClear a

def rtMemheapAlloc (h : Heap) (size : Nat) : Option (Option Nat × Heap) :=
  let size := alignedSize size
  if size < h.availableSize then do
    let first ← (h.freeLinks none).next
    let (found, freeSize) ← search h.toMemory size (h.poolSize + 2) first 0
    if size ≤ freeSize then
      let a ← found
      let h ← carve h a size freeSize
      return (some (a + rtMemheapSize),
        h.modify fun m => m.setMagic a (m.magic a ||| rtMemheapUsed))
    else return (none, h)
  else return (none, h)

/-- The block at `a` becomes part of the free block in front of it, if there is one. -/
def mergeLeft (h : Heap) (a : Nat) : Option (Nat × Bool × Heap) := do
  let prev ← (h.links a).prev
  if h.isUsed prev then return (a, true, h)
  else
    let next ← (h.links a).next
    let l := (h.links.setNext prev (some next)).setPrev next (some prev)
    return (prev, false, (h.giveBack rtMemheapSize).setLinks l)

/-- The free block behind the one at `a` becomes part of it, if there is one. -/
def mergeRight (h : Heap) (a : Nat) : Option Heap := do
  let next ← (h.links a).next
  if h.isUsed next then return h
  else
    let nextNext ← (h.links next).next
    let l := (h.links.setPrev nextNext (some a)).setNext a (some nextNext)
    ((h.giveBack rtMemheapSize).setLinks l).unlist next

def rtMemheapFree (h : Heap) : Option Nat → Option Heap
  | none => some h
  | some p => do
    let a := p - rtMemheapSize
    rtAssert (h.magic a &&& rtMemheapMask = rtMemheapMagic)
    rtAssert (h.isUsed a)
    let next ← (h.links a).next
    rtAssert (h.magic next &&& rtMemheapMask = rtMemheapMagic)
    let h := h.modify fun m => m.setMagic a (m.magic a &&& ~~~rtMemheapUsed)
    let size ← h.memitemSize a
    let (a, insertHeader, h) ← mergeLeft (h.giveBack size) a
    let h ← mergeRight h a
    if insertHeader then h.enlist a else return h

/-- The block at `a` grows into the free block at `next` behind it. -/
def growInto (h : Heap) (a next oldsize newsize : Nat) : Option Heap := do
  let h ← (h.useUp (sub32 newsize oldsize)).unlist next
  let l ← h.links.remove next
  let b := add32 (a + rtMemheapSize) newsize
  let h ← (h.setLinks l).newBlock b a
  h.enlist b

/-- The free block behind the new one at `b` becomes part of it, if there is one, and is no
longer available. -/
def absorb (h : Heap) (b : Nat) : Option Heap := do
  let next ← (h.links b).next
  if h.isUsed next then return h
  else
    let size ← h.memitemSize next
    let nextNext ← (h.links next).next
    let l := (h.links.setPrev nextNext (some b)).setNext b (some nextNext)
    ({ h with availableSize := sub32 h.availableSize size }.setLinks l).unlist next

/-- What the block at `a` has too much becomes a free block. -/
def shrink (h : Heap) (a newsize : Nat) : Option Heap := do
  let b := a + newsize + rtMemheapSize
  let h ← h.newBlock b a
  let h ← absorb h b
  let h ← h.enlist b
  let size ← h.memitemSize b
  return h.giveBack size

/-- The way of `rt_memheap_realloc` by a new block. -/
def moveTo (h : Heap) (p oldsize newsize : Nat) : Option (Option Nat × Heap) := do
  let (found, h) ← rtMemheapAlloc h newsize
  match found with
  | none => return (none, h)
  | some q =>
    let copied := h.data.read p (min oldsize newsize)
    let h ← rtMemheapFree (h.modify fun m => { m with data := m.data.write q copied }) (some p)
    return (some q, h)

def rtMemheapRealloc (h : Heap) (ptr : Option Nat) (newsize : Nat) :
    Option (Option Nat × Heap) :=
  if newsize = 0 then (rtMemheapFree h ptr).map fun h => (none, h)
  else
    let newsize := alignedSize newsize
    match ptr with
    | none => rtMemheapAlloc h newsize
    | some p => do
      let a := p - rtMemheapSize
      let oldsize ← h.memitemSize a
      if oldsize < newsize then
        let next ← (h.links a).next
        rtAssert (a < next)
        if h.isUsed next then moveTo h p oldsize newsize
        else
          let nextsize ← h.memitemSize next
          if add32 newsize rtMemheapMinialloc < add32 nextsize oldsize then
            (growInto h a next oldsize newsize).map fun h => (some p, h)
          else moveTo h p oldsize newsize
      else if oldsize ≤ add32 (add32 newsize rtMemheapSize) rtMemheapMinialloc then
        return (some p, h)
      else (shrink h a newsize).map fun h => (some p, h)

/-- The heap and the pointers into it that its clients have. -/
structure State where
  heap : Heap
  live : List Nat

/-- `write` is a client that fills its block with anything. -/
inductive Event
  | alloc (size : Nat)
  | free (p : Option Nat)
  | realloc (p : Option Nat) (size : Nat)
  | write (p : Nat) (m : Memory)

inductive Reply
  | pointer (p : Option Nat)
  | done
  deriving DecidableEq

/-- The memory `m` in the bytes of the block at `a` with `size` bytes, and in every header
that would overlap them. -/
def Memory.overwrite (m m' : Memory) (a size : Nat) : Memory where
  magic x := if a < x ∧ x < a + rtMemheapSize + size then m'.magic x else m.magic x
  links x := if a < x ∧ x < a + rtMemheapSize + size then m'.links x else m.links x
  freeLinks x := match x with
    | some x =>
      if a < x ∧ x < a + rtMemheapSize + size then m'.freeLinks (some x) else m.freeLinks (some x)
    | none => m.freeLinks none
  data x :=
    if a + rtMemheapSize ≤ x ∧ x < a + rtMemheapSize + size then m'.data x else m.data x

/-- Sizes are `rt_uint32_t`; a client gives back and resizes only what it has. -/
def step (s : State) : Event → Option (State × Reply)
  | .alloc size =>
    if size < 2 ^ 32 then
      (rtMemheapAlloc s.heap size).map fun (p, heap) =>
        (⟨heap, p.toList ++ s.live⟩, .pointer p)
    else none
  | .free none => (rtMemheapFree s.heap none).map fun heap => (⟨heap, s.live⟩, .done)
  | .free (some p) =>
    if p ∈ s.live then
      (rtMemheapFree s.heap (some p)).map fun heap => (⟨heap, s.live.erase p⟩, .done)
    else none
  | .realloc none size =>
    if size < 2 ^ 32 then
      (rtMemheapRealloc s.heap none size).map fun (p, heap) =>
        (⟨heap, p.toList ++ s.live⟩, .pointer p)
    else none
  | .realloc (some p) size =>
    if p ∈ s.live ∧ size < 2 ^ 32 then
      (rtMemheapRealloc s.heap (some p) size).map fun (q, heap) =>
        let live := if q = none ∧ size ≠ 0 then s.live else q.toList ++ s.live.erase p
        (⟨heap, live⟩, .pointer q)
    else none
  | .write p m =>
    if p ∈ s.live then
      (s.heap.memitemSize (p - rtMemheapSize)).map fun size =>
        (⟨s.heap.modify (·.overwrite m (p - rtMemheapSize) size), s.live⟩, .done)
    else none

def machine (m : Memory) (size : Nat) : Machine State Event Reply where
  init := ⟨rtMemheapInit m size, []⟩
  step := step

end BdkRtt.Rttos.MemHeap
