import BdkRtt.Lib.Chunks
import BdkRtt.Lib.Mem
import Mathlib.Algebra.Group.Nat.Defs

universe u v

namespace BdkRtt.Audio.DataNode

open Lib

section List

/-- `struct rt_data_node`: a buffer and the bytes that it holds. -/
structure RtDataNode (β : Type u) (α : Type v) where
  dataPtr : β
  data : List α
  length_lt : data.length < 2 ^ 32

variable {β : Type u} {α : Type v}

def RtDataNode.dataSize (node : RtDataNode β α) : UInt32 := UInt32.ofNat node.data.length

/-- `struct rt_data_node_list` -/
structure RtDataNodeList (β : Type u) (α : Type v) where
  node : Mem (RtDataNode β α)
  size : Nat
  readIndex : Nat
  writeIndex : Nat
  dataOffset : UInt32

/-- `rt_data_node_init`, with memory for the list and its nodes. -/
def rtDataNodeInit [Inhabited β] (size : Nat) : RtDataNodeList β α where
  node := fun _ => { dataPtr := default, data := [], length_lt := Nat.two_pow_pos 32 }
  size := size
  readIndex := 0
  writeIndex := 0
  dataOffset := 0

/-- The index behind `i`. -/
def RtDataNodeList.nextIndex (l : RtDataNodeList β α) (i : Nat) : Nat :=
  if i + 1 ≥ l.size then 0 else i + 1

/-- `rt_data_node_write`, with the value returned: `none` for `-RT_ERROR`, when the list is full. -/
def RtDataNodeList.rtDataNodeWrite (l : RtDataNodeList β α) (node : RtDataNode β α) :
    Option (RtDataNodeList β α × Int32) :=
  let nextIndex := l.nextIndex l.writeIndex
  if nextIndex = l.readIndex then none
  else
    some ({ l with node := l.node.write l.writeIndex [node], writeIndex := nextIndex },
      node.dataSize.toInt32)

/-- How many nodes lie between the two indices. -/
def RtDataNodeList.nodeCount (l : RtDataNodeList β α) : Nat :=
  if l.readIndex ≤ l.writeIndex then l.writeIndex - l.readIndex
  else l.size - l.readIndex + l.writeIndex

end List

section Read

variable {β : Type u} {α : Type v}

/-- The parameters and variables of `rt_data_node_read`; `buffer` says whether the pointer is there,
`dst` is what has been copied to it, and `passed` the nodes that the read has finished, each with
what it took of it. -/
structure Locals (β : Type u) (α : Type v) where
  size : UInt32
  buffer : Bool
  readOffset : UInt32
  dst : List α
  passed : Chunks β α

/-- Where `rt_data_node_read` is: not called; at the top of the loop; behind the callback for a
node; with `next_index` and `write_index` read, in front of the second critical section. -/
inductive Reader (β : Type u) (α : Type v)
  | idle
  | body (v : Locals β α)
  | completed (v : Locals β α)
  | looked (v : Locals β α) (nextIndex writeIndex : Nat)

def Reader.readOffset : Reader β α → UInt32
  | .idle => 0
  | .body v | .completed v | .looked v .. => v.readOffset

/-- What a read is going to deliver, when nothing can change it any more. -/
structure Settled (β : Type u) (α : Type v) where
  size : UInt32
  taken : List α
  finished : List β

structure Returned (α : Type v) where
  size : UInt32
  buffer : Bool
  taken : List α
  dst : List α
  ret : Int32

structure Answer (β : Type u) (α : Type v) where
  /-- What a write that was not turned down returns. -/
  written : Option Int32 := none
  /-- What is copied to the buffer, behind what was copied before. -/
  copied : List α := []
  /-- The calls of `read_complete`. -/
  completed : List β := []
  settled : Option (Settled β α) := none
  returned : Option (Returned α) := none

/-- `copy_size`, where `remain_len` is signed and compared without a sign. -/
def copySize (want remain : UInt32) : Int32 :=
  let remainLen := remain.toInt32
  if want > remainLen.toUInt32 then remainLen else want.toInt32

/-- `rt_data_node_read` up to the first look at the indices. -/
def RtDataNodeList.rtDataNodeRead (l : RtDataNodeList β α) (size : UInt32) (buffer : Bool) :
    Reader β α × Answer β α :=
  if l.readIndex = l.writeIndex then
    (.idle,
      { settled := some { size, taken := [], finished := [] }
        returned := some { size, buffer, taken := [], dst := [], ret := (0 : UInt32).toInt32 } })
  else
    (.body { size, buffer, readOffset := 0, dst := [], passed := [] }, {})

/-- The loop up to the callback, or to its end where the node lasts longer than the read. -/
def RtDataNodeList.readBody (l : RtDataNodeList β α) (v : Locals β α) :
    RtDataNodeList β α × Reader β α × Answer β α :=
  let node := l.node l.readIndex
  let dataOffset := l.dataOffset
  let copy := (copySize (v.size - v.readOffset) (node.dataSize - dataOffset)).toUInt32
  let bytes := (node.data.drop dataOffset.toNat).take copy.toNat
  let readOffset := v.readOffset + copy
  let copied := if v.buffer then bytes else []
  let dst := v.dst ++ copied
  let dataOffset := dataOffset + copy
  let l := { l with dataOffset := dataOffset }
  if dataOffset ≥ node.dataSize then
    (l, .completed { v with readOffset, dst, passed := v.passed ++ [(node.dataPtr, bytes)] },
      { copied, completed := [node.dataPtr] })
  else if readOffset < v.size then (l, .body { v with readOffset, dst }, { copied })
  else
    let taken := v.passed.elems ++ bytes
    (l, .idle,
      { copied
        settled := some { size := v.size, taken, finished := v.passed.owners }
        returned := some
          { size := v.size, buffer := v.buffer, taken, dst, ret := v.size.toInt32 } })

/-- The first critical section behind the callback.  A read that found the last node, or has all it
wants, is settled here. -/
def RtDataNodeList.readLook (l : RtDataNodeList β α) (v : Locals β α) : Reader β α × Answer β α :=
  let nextIndex := l.nextIndex l.readIndex
  let writeIndex := l.writeIndex
  (.looked v nextIndex writeIndex,
    if nextIndex = writeIndex ∨ ¬ v.readOffset < v.size then
      { settled := some { size := v.size, taken := v.passed.elems, finished := v.passed.owners } }
    else {})

/-- The second critical section behind the callback, up to the next round or the end. -/
def RtDataNodeList.readNext (l : RtDataNodeList β α) (v : Locals β α) (nextIndex writeIndex : Nat) :
    RtDataNodeList β α × Reader β α × Answer β α :=
  let l := { l with readIndex := nextIndex, dataOffset := 0 }
  let returned (result : UInt32) : Answer β α :=
    { returned := some
        { size := v.size, buffer := v.buffer, taken := v.passed.elems, dst := v.dst
          ret := result.toInt32 } }
  if nextIndex = writeIndex then (l, .idle, returned v.readOffset)
  else if v.readOffset < v.size then (l, .body v, {})
  else (l, .idle, returned v.size)

/-- The next part of the read; `none` when there is none. -/
def RtDataNodeList.readGo (l : RtDataNodeList β α) :
    Reader β α → Option (RtDataNodeList β α × Reader β α × Answer β α)
  | .idle => none
  | .body v => some (l.readBody v)
  | .completed v => some (l, l.readLook v)
  | .looked v nextIndex writeIndex => some (l.readNext v nextIndex writeIndex)

/-- The rest of a read that nothing comes between, with the calls of `read_complete`. -/
def RtDataNodeList.readRest : Nat → RtDataNodeList β α → Reader β α →
    Option (RtDataNodeList β α × List β × Option (Returned α))
  | 0, _, _ => none
  | n + 1, l, r =>
    match l.readGo r with
    | none => some (l, [], none)
    | some (l, r, a) =>
      (l.readRest n r).map fun q => (q.1, a.completed ++ q.2.1, a.returned.or q.2.2)

/-- A read that nothing comes between; `fuel` bounds its parts. -/
def RtDataNodeList.readWhole (l : RtDataNodeList β α) (fuel : Nat) (size : UInt32)
    (buffer : Bool) : Option (RtDataNodeList β α × List β × Option (Returned α)) :=
  let r := l.rtDataNodeRead size buffer
  (l.readRest fuel r.1).map fun q => (q.1, q.2.1, r.2.returned.or q.2.2)

/-- `rt_data_node_empty`, which has interrupts disabled; `fuel` bounds the reads and the parts of
each. -/
def RtDataNodeList.rtDataNodeEmpty (fuel : Nat) : Nat → RtDataNodeList β α →
    Option (RtDataNodeList β α × List β)
  | 0, _ => none
  | n + 1, l =>
    if l.readIndex = l.writeIndex then some (l, [])
    else
      (l.readWhole fuel 1024 false).bind fun q =>
        (q.1.rtDataNodeEmpty fuel n).map fun r => (r.1, q.2.1 ++ r.2)

end Read

section Machine

variable (β : Type u) (α : Type v)

structure State where
  list : RtDataNodeList β α
  reader : Reader β α

inductive Event
  | rtDataNodeWrite (node : RtDataNode β α)
  | rtDataNodeRead (size : UInt32) (buffer : Bool)
  /-- The read that has begun goes on. -/
  | go
  | rtDataNodeEmpty (fuel : Nat)

variable {β α}

def State.step (s : State β α) : Event β α → Option (State β α × Answer β α)
  | .rtDataNodeWrite node =>
    match s.list.rtDataNodeWrite node with
    | none => some (s, {})
    | some (l, ret) => some ({ s with list := l }, { written := some ret })
  | .rtDataNodeRead size buffer =>
    match s.reader with
    | .idle =>
      let r := s.list.rtDataNodeRead size buffer
      some ({ s with reader := r.1 }, r.2)
    | _ => none
  | .go => (s.list.readGo s.reader).map fun r => (⟨r.1, r.2.1⟩, r.2.2)
  | .rtDataNodeEmpty fuel =>
    match s.reader with
    | .idle =>
      (s.list.rtDataNodeEmpty fuel fuel).map fun r => (⟨r.1, .idle⟩, { completed := r.2 })
    | _ => none

def dataNodeList [Inhabited β] (size : Nat) : Machine (State β α) (Event β α) (Answer β α) where
  init := ⟨rtDataNodeInit size, .idle⟩
  step := State.step

end Machine

end BdkRtt.Audio.DataNode
