import BdkRtt.Lib.Chunks
import Mathlib.Algebra.Group.Nat.Defs

universe u v

namespace BdkRtt.Audio.Mixer

open Lib

/-- `MUSIC_SRC_NODE_T` over samples of any kind; `len` counts the samples in the buffer. -/
structure MusicSrcNode (β : Type u) (α : Type v) where
  buf : β
  data : List α
  usePos : UInt32
  length_lt : data.length < 2 ^ 32

section List

variable {β : Type u} {α : Type v}

def MusicSrcNode.len (node : MusicSrcNode β α) : UInt32 := UInt32.ofNat node.data.length

/-- `music_src_list`, oldest node first. -/
abbrev MusicSrcList (β : Type u) (α : Type v) := List (MusicSrcNode β α)

/-- What a `DATA` message carries: a buffer and the bytes that it holds. -/
structure MusicBuf (β : Type u) (α : Type v) where
  buf : β
  data : List α
  length_lt : data.length < 2 ^ 32

def MusicBuf.node (b : MusicBuf β α) : MusicSrcNode β α := ⟨b.buf, b.data, 0, b.length_lt⟩

/-- `mixer_music_src_in`: the list and the buffers it gives back.  `malloc` says whether there is
memory for the node. -/
def mixerMusicSrcIn (isMuxSrc malloc : Bool) (b : MusicBuf β α) (list : MusicSrcList β α) :
    MusicSrcList β α × List β :=
  if b.data.length = 0 ∨ !isMuxSrc then (list, [b.buf])
  else if !malloc then (list, [b.buf])
  else (list ++ [b.node], [])

/-- `mixer_music_src_flush`, with the buffers it gives back. -/
def mixerMusicSrcFlush (list : MusicSrcList β α) : MusicSrcList β α × List β :=
  ([], list.map MusicSrcNode.buf)

/-- What `mixer_music_src_get_data` leaves, copies, gives back and returns. -/
structure GotData (β : Type u) (α : Type v) where
  list : MusicSrcList β α
  copied : List α
  freed : List β
  length : UInt32

/-- The loop of `mixer_music_src_get_data`. -/
def getDataLoop (expectedCnt : UInt32) : MusicSrcList β α → GotData β α
  | [] => ⟨[], [], [], 0⟩
  | node :: list =>
    let count := node.len - node.usePos
    let rest := node.data.drop node.usePos.toNat
    if count ≥ expectedCnt then
      let node := { node with usePos := node.usePos + expectedCnt }
      let copied := rest.take expectedCnt.toNat
      if node.len = node.usePos then ⟨list, copied, [node.buf], expectedCnt⟩
      else ⟨node :: list, copied, [], expectedCnt⟩
    else
      -- `use_pos` becomes `len`, so that the node goes
      let r := getDataLoop (expectedCnt - count) list
      ⟨r.list, rest.take count.toNat ++ r.copied, node.buf :: r.freed, count + r.length⟩

/-- `mixer_music_src_get_data`; `buf` says whether the pointer is there. -/
def mixerMusicSrcGetData (buf : Bool) (expectedLen : UInt32) (list : MusicSrcList β α) :
    GotData β α :=
  if expectedLen ≠ 0 ∧ buf then getDataLoop expectedLen list else ⟨list, [], [], 0⟩

/-- `mixer_music_src_get_data_len` -/
def mixerMusicSrcGetDataLen (list : MusicSrcList β α) : UInt32 :=
  list.foldl (fun length node => length + (node.len - node.usePos)) 0

end List

section Machine

/-- A memory pool; its blocks have different addresses. -/
structure MemPool where
  blkCount : Nat
  blkSize : Nat
  size_lt : blkCount * blkSize < 2 ^ 32

variable (P : MemPool)

/-- A block of the pool with the bytes put in it. -/
structure PoolBuf where
  buf : Fin P.blkCount
  data : List UInt8
  length_le : data.length ≤ P.blkSize

variable {P} in
def PoolBuf.toMusicBuf (b : PoolBuf P) : MusicBuf (Fin P.blkCount) UInt8 where
  buf := b.buf
  data := b.data
  length_lt := by
    have hcount : 0 < P.blkCount := b.buf.pos
    have hone : P.blkSize ≤ P.blkCount * P.blkSize := Nat.le_mul_of_pos_left _ hcount
    have := P.size_lt
    have := b.length_le
    omega

abbrev SrcList := MusicSrcList (Fin P.blkCount) UInt8

inductive SrcCall
  | srcIn (b : PoolBuf P) (malloc : Bool)
  | getData (buf : Bool) (expectedLen : UInt32)
  | flush
  | getDataLen

inductive SrcAnswer
  | srcIn (freed : List (Fin P.blkCount))
  | got (copied : List UInt8) (freed : List (Fin P.blkCount)) (length : UInt32)
  | flushed (freed : List (Fin P.blkCount))
  | dataLen (length : UInt32)

variable {P}

/-- One call, with `is_mux_src` set.  Nobody else has a block that is still in the list. -/
def srcStep (list : SrcList P) : SrcCall P → Option (SrcList P × SrcAnswer P)
  | .srcIn b malloc =>
    if b.buf ∈ list.map MusicSrcNode.buf then none
    else
      let r := mixerMusicSrcIn true malloc b.toMusicBuf list
      some (r.1, .srcIn r.2)
  | .getData buf expectedLen =>
    let r := mixerMusicSrcGetData buf expectedLen list
    some (r.list, .got r.copied r.freed r.length)
  | .flush =>
    let r := mixerMusicSrcFlush list
    some (r.1, .flushed r.2)
  | .getDataLen => some (list, .dataLen (mixerMusicSrcGetDataLen list))

variable (P) in
def srcMachine : Machine (SrcList P) (SrcCall P) (SrcAnswer P) where
  init := []
  step := srcStep

end Machine

end BdkRtt.Audio.Mixer
