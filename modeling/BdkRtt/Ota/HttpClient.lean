import BdkRtt.Lib.Bytes
import BdkRtt.Lib.Mem
import Mathlib.Algebra.Group.Nat.Defs

namespace BdkRtt.Ota.HttpClient

open Lib

section Partition

/-- `struct fal_partition`.  The end of its last sector still has an address. -/
structure FalPartition where
  len : UInt32
  len_le : len.toNat + 4096 ≤ 2 ^ 32

/-- A request that reaches the flash device, with addresses relative to the partition. -/
inductive FalRequest
  | read (addr size : UInt32)
  | erase (addr size : UInt32)
  | write (addr : UInt32) (buf : List UInt8)

/-- The bytes that a request reads or changes; an erase takes whole sectors of 4096. -/
def FalRequest.Covers : FalRequest → Nat → Prop
  | .read addr size, k => addr.toNat ≤ k ∧ k < addr.toNat + size.toNat
  | .erase addr size, k =>
    addr.toNat / 4096 ≤ k / 4096 ∧ k / 4096 ≤ (addr.toNat + size.toNat - 1) / 4096
  | .write addr buf, k => addr.toNat ≤ k ∧ k < addr.toNat + buf.length

instance : ∀ q k, Decidable (FalRequest.Covers q k)
  | .read .., _ | .erase .., _ | .write .., _ => inferInstanceAs (Decidable (_ ∧ _))

/-- What a request that succeeds leaves. -/
def FalRequest.done (cells : Mem UInt8) : FalRequest → Mem UInt8
  | .read .. => cells
  | .erase addr size => fun k => if (FalRequest.erase addr size).Covers k then 0xff else cells k
  | .write addr buf => cells.write addr.toNat buf

/-- What a request that fails may leave: anything in the bytes it was to change. -/
def FalRequest.broken (cells junk : Mem UInt8) : FalRequest → Mem UInt8
  | .read .. => cells
  | q => fun k => if q.Covers k then junk k else cells k

/-- The download partition, the requests made so far, and which of all requests fail. -/
structure Flash where
  cells : Mem UInt8
  requests : List FalRequest
  fails : Nat → Option (Mem UInt8)

def Flash.serve (f : Flash) (q : FalRequest) : Flash × Bool :=
  match f.fails f.requests.length with
  | none => ({ f with cells := q.done f.cells, requests := f.requests ++ [q] }, true)
  | some junk => ({ f with cells := q.broken f.cells junk, requests := f.requests ++ [q] }, false)

/-- The test at the head of the three `fal_partition` operations. -/
def FalPartition.request (part : FalPartition) (f : Flash) (addr size : UInt32)
    (q : FalRequest) : Flash × Bool :=
  if addr + size > part.len then (f, false) else f.serve q

/-- `fal_partition_read`, with what it puts in `buf` when the result is not negative. -/
def falPartitionRead (part : FalPartition) (f : Flash) (addr size : UInt32) :
    Flash × Option (List UInt8) :=
  let r := part.request f addr size (.read addr size)
  (r.1, if r.2 then some (r.1.cells.read addr.toNat size.toNat) else none)

def falPartitionErase (part : FalPartition) (f : Flash) (addr size : UInt32) : Flash × Bool :=
  part.request f addr size (.erase addr size)

def falPartitionWrite (part : FalPartition) (f : Flash) (addr : UInt32) (buf : List UInt8)
    (size : UInt32) : Flash × Bool :=
  part.request f addr size (.write addr (buf.take size.toNat))

end Partition

section Download

/-- The bytes that one `webclient_read` may give for a request of `length`. -/
abbrev Piece (length : UInt32) := { p : List UInt8 // 0 < p.length ∧ p.length ≤ length.toNat }

/-- What the function finds around it.  A session is a state of any type; `webclientRead` gives no
piece where the result is not positive. -/
structure Env (σ : Type) where
  /-- `webclient_session_create` -/
  session : Option σ
  /-- `webclient_get` -/
  respStatus : Int
  contentLength : Int32
  /-- `fal_partition_find` of the download partition. -/
  dlPart : Option FalPartition
  /-- Whether `web_malloc` gives the two buffers. -/
  bufferRead : Bool
  bufferSwap : Bool
  webclientRead : σ → (length : UInt32) → σ × Option (Piece length)
  /-- `fal_partition_find` of the described partition: its length. -/
  descPart : List UInt8 → Option UInt32
  rtOtaPartFwVerify : Flash → Int

variable {σ : Type}

def httpOtaBuffLen : UInt32 := 4096

/-- The inner loop: the part of the page that is there when it stops.  A piece has at least one
byte, so `nw` rounds are enough. -/
def readPage (env : Env σ) (nw : UInt32) : Nat → σ → List UInt8 → σ × List UInt8
  | 0, s, page => (s, page)
  | fuel + 1, s, page =>
    let r := env.webclientRead s (nw - UInt32.ofNat page.length)
    match r.2 with
    | none => (r.1, page)
    | some piece =>
      let page := page ++ piece.1
      if page.length < nw.toNat then readPage env nw fuel r.1 page else (r.1, page)

/-- The test of the first page: an image of a known partition has to fit in it. -/
def rblFits (env : Env σ) (page : List UInt8) : Bool :=
  -- the four bytes compared with "RBL" include its terminator
  if page.length ≥ 96 ∧ page.take 4 = [0x52, 0x42, 0x4c, 0] then
    let rawSize := ofLe32 (page.drop 84)
    let descPartName := ((page.drop 12).take 16).takeWhile fun c => c ≠ 0
    match env.descPart descPartName with
    | some len => !decide (rawSize > len - 96)
    | none => true
  else true

/-- The rest of a round: the page is compared, and stored where it differs. -/
def storePage (part : FalPartition) (f : Flash) (totalLength nw : UInt32) (page : List UInt8) :
    Flash × Bool :=
  match falPartitionRead part f totalLength nw with
  | (f, none) => (f, false)
  | (f, some swap) =>
    if page = swap then (f, true)
    else
      match falPartitionErase part f totalLength nw with
      | (f, false) => (f, false)
      | (f, true) =>
        match falPartitionWrite part f totalLength page nw with
        | (f, false) => (f, false)
        | (f, true) =>
          match falPartitionRead part f totalLength nw with
          | (f, none) => (f, false)
          | (f, some swap) => (f, decide (page = swap))

/-- The variables of the loop, with all the bytes that `webclient_read` has given.  The `int`
`total_length` is only added to, compared and passed on modulo `2 ^ 32`. -/
structure Download (σ : Type) where
  session : σ
  flash : Flash
  totalLength : UInt32
  received : List UInt8

/-- `nw`, the size of the next page. -/
def pageSize (env : Env σ) (totalLength : UInt32) : UInt32 :=
  let contentLength := env.contentLength.toUInt32
  if httpOtaBuffLen + totalLength > contentLength then contentLength - totalLength
  else httpOtaBuffLen

/-- One round; `false` stands for `goto __exit`. -/
def downloadRound (env : Env σ) (part : FalPartition) (d : Download σ) : Download σ × Bool :=
  let nw := pageSize env d.totalLength
  let r := readPage env nw nw.toNat d.session []
  let d := { d with session := r.1, received := d.received ++ r.2 }
  if r.2.length ≠ nw.toNat then (d, false)
  else if d.totalLength = 0 ∧ ¬ rblFits env r.2 then (d, false)
  else
    -- the first round also lifts the write protection of the flash
    let w := storePage part d.flash d.totalLength nw r.2
    let d := { d with flash := w.1 }
    if w.2 then ({ d with totalLength := d.totalLength + nw }, true) else (d, false)

/-- The outer loop, `none` when the fuel is used up. -/
def downloadLoop (env : Env σ) (part : FalPartition) : Nat → Download σ → Option (Download σ × Bool)
  | 0, _ => none
  | fuel + 1, d =>
    match downloadRound env part d with
    | (d, false) => some (d, false)
    | (d, true) =>
      if d.totalLength ≠ env.contentLength.toUInt32 then downloadLoop env part fuel d
      else some (d, true)

/-- How the function ends: whether it resets the device, and what it leaves. -/
structure Outcome where
  reset : Bool
  flash : Flash
  received : List UInt8

/-- What follows the loop; it is left with `true` when `total_length` is the content length. -/
def finish (env : Env σ) (r : Download σ × Bool) : Outcome where
  reset := r.2 && decide (env.rtOtaPartFwVerify r.1.flash ≥ 0)
  flash := r.1.flash
  received := r.1.received

/-- `http_ota_fw_download` up to the reset. -/
def httpOtaFwDownload (env : Env σ) (fuel : Nat) (f : Flash) : Option Outcome :=
  let exit := some ⟨false, f, []⟩
  match env.session with
  | none => exit
  | some s =>
    if env.respStatus ≠ 200 ∨ env.contentLength = 0 then exit
    else
      match env.dlPart with
      | none => exit
      | some part =>
        -- `content_length` is converted to the unsigned type of `len`
        if env.contentLength.toUInt32 > part.len ∨ !env.bufferRead ∨ !env.bufferSwap then exit
        else
          (downloadLoop env part fuel ⟨s, f, 0, []⟩).map (finish env)

end Download

end BdkRtt.Ota.HttpClient
