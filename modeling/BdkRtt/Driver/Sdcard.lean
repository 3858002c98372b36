import BdkRtt.Lib.Machine
import Mathlib.Logic.Function.Basic
import Mathlib.Algebra.Group.Nat.Defs

/-! The SD card driver, command by command and block by block. -/

namespace BdkRtt.Driver.Sdcard

open Lib

universe u

section Codes

/-- `SDIO_Error`, as a number. -/
abbrev SdioError := Nat

def sdOk : SdioError := 0
def sdCmdCrcFail : SdioError := 1
def sdDataCrcFail : SdioError := 2
def sdCmdRspTimeout : SdioError := 3
def sdDataTimeout : SdioError := 4
def sdError : SdioError := 9

/-- `SDIO_RD_DATA` and `SDIO_WR_DATA` -/
inductive Direction
  | rdData
  | wrData
deriving DecidableEq

end Codes

section Card

/-- The size of the card, and `Addr_shift_bit`, which `sdcard_initialize` takes from its OCR. -/
structure Geometry where
  size : Nat
  addrShiftBit : Nat
  size_lt : size < 2 ^ 32
  shift_lt : size * 2 ^ addrShiftBit ≤ 2 ^ 32

/-- The states of the card from `sdcard_initialize` on.  A card that has rejected a block waits for
the end of the stream. -/
inductive CardState
  | transfer
  | sending (block : Nat)
  | receiving (block : Nat)
  | rejecting
deriving DecidableEq

inductive Command
  | cmd12
  | cmd17 (arg : Nat)
  | cmd18 (arg : Nat)
  | cmd25 (arg : Nat)
deriving DecidableEq

def CardState.Legal : CardState → Command → Prop
  | .transfer, .cmd12 => False
  | .transfer, _ => True
  | _, .cmd12 => True
  | _, _ => False

instance : ∀ card c, Decidable (CardState.Legal card c)
  | .transfer, .cmd12 => isFalse not_false
  | .transfer, .cmd17 _ | .transfer, .cmd18 _ | .transfer, .cmd25 _ => isTrue trivial
  | .sending _, .cmd12 | .receiving _, .cmd12 | .rejecting, .cmd12 => isTrue trivial
  | .sending _, .cmd17 _ | .sending _, .cmd18 _ | .sending _, .cmd25 _ => isFalse not_false
  | .receiving _, .cmd17 _ | .receiving _, .cmd18 _ | .receiving _, .cmd25 _ => isFalse not_false
  | .rejecting, .cmd17 _ | .rejecting, .cmd18 _ | .rejecting, .cmd25 _ => isFalse not_false

/-- How a transfer goes.  The side that receives gets what is sent, gets it with a wrong CRC, or
does not get it. -/
inductive Outcome
  | ok
  | crc
  | lost
deriving DecidableEq

end Card

section State

/-- The calls of the driver, with the blocks of a write. -/
inductive Call (β : Type u)
  | sdcardReadNew (firstBlock blockNum : Nat)
  | sdcardWriteNew (firstBlock : Nat) (data : List β)
  | sdcardWrite (startBlkAddr : Nat) (userBuf : List β)
  | sdcardRead (startBlkAddr count : Nat)

/-- The outcomes in a call: of the command that ends the open stream, of the one that begins the
next, of each block and, with single blocks, of its command, and of the command that ends a stream
in which something went wrong.  A command with a wrong CRC in its response has been taken. -/
structure Env where
  stop : Outcome
  start : Outcome
  block : Nat → Outcome
  cmd17 : Nat → Outcome
  last : Outcome

/-- A call that has returned: the card before and after, whether it reported success, and what it
put in the buffer of a read (a block with a wrong CRC has any contents). -/
structure Done (β : Type u) where
  call : Call β
  before : Nat → β
  after : Nat → β
  success : Bool
  buffer : List (Option β)

/-- The card, the controller and the session variables. -/
structure State (β : Type u) where
  card : CardState
  store : Nat → β
  /-- `SDCARD_CMDRSP_WR_STATU` says that the card has accepted the last block. -/
  wrStatus : Bool
  sdioWrFlag : Direction
  lastWrAddr : Nat
  noNeedSendCmd12Flag : Bool
  /-- The commands issued so far, and the state that the card was in. -/
  issued : List (CardState × Command)
  returned : List (Done β)

end State

section Commands

variable {β : Type u} (g : Geometry)

/-- `addr << sdcard.Addr_shift_bit` -/
def cmdArg (addr : Nat) : Nat := addr * 2 ^ g.addrShiftBit % 2 ^ 32

/-- The block that the card takes an argument for. -/
def argBlock (arg : Nat) : Nat := arg / 2 ^ g.addrShiftBit

/-- What a command does to the card.  After `CMD17` it sends one block by itself. -/
def CardState.take : CardState → Command → CardState
  | _, .cmd12 => .transfer
  | card, .cmd17 _ => card
  | _, .cmd18 arg => .sending (argBlock g arg)
  | _, .cmd25 arg => .receiving (argBlock g arg)

/-- `sdio_send_cmd` and `sdio_wait_cmd_response` -/
def State.sendCmd (s : State β) (c : Command) (o : Outcome) : State β × SdioError :=
  let t := { s with issued := s.issued ++ [(s.card, c)] }
  if s.card.Legal c then
    match o with
    | .ok => ({ t with card := s.card.take g c }, sdOk)
    | .crc => ({ t with card := s.card.take g c }, sdCmdCrcFail)
    | .lost => (t, sdCmdRspTimeout)
  else (t, sdCmdRspTimeout)

def State.sdcardCmd12Process (s : State β) (o : Outcome) : State β × SdioError :=
  s.sendCmd g .cmd12 o

def State.sdcardCmd18Process (s : State β) (addr : Nat) (o : Outcome) : State β × SdioError :=
  s.sendCmd g (.cmd18 (cmdArg g addr)) o

def State.sdcardCmd25Process (s : State β) (blockAddr : Nat) (o : Outcome) :
    State β × SdioError :=
  s.sendCmd g (.cmd25 (cmdArg g blockAddr)) o

def State.sdcardSendReadStop (s : State β) (o : Outcome) : State β × SdioError :=
  s.sdcardCmd12Process g o

def State.sdcardSendWriteStop (s : State β) (err : SdioError) (o : Outcome) :
    State β × SdioError :=
  let ret := if s.wrStatus then sdOk else sdError
  let (s, ret') := s.sdcardCmd12Process g o
  (s, ret + ret' + err)

end Commands

section Data

variable {β : Type u} (g : Geometry)

/-- `sdcard_rcv_data`, with the outcomes of the blocks that it waits for. -/
def State.sdcardRcvData (s : State β) (ret : SdioError) :
    List Outcome → State β × SdioError × List (Option β)
  | [] => (s, ret, [])
  | o :: os =>
    match s.card, o with
    | .sending k, .ok =>
      let r := { s with card := .sending (k + 1) }.sdcardRcvData ret os
      (r.1, r.2.1, some (s.store k) :: r.2.2)
    | .sending k, .crc =>
      let r := { s with card := .sending (k + 1) }.sdcardRcvData sdDataCrcFail os
      (r.1, r.2.1, none :: r.2.2)
    | _, _ => (s, sdDataTimeout, [])

/-- A block is sent to the card. -/
def State.sendBlock (s : State β) (b : β) (o : Outcome) : State β :=
  match s.card, o with
  | .receiving k, .ok =>
    { s with
      card := .receiving (k + 1)
      store := Function.update s.store k b
      wrStatus := true }
  | .receiving _, .crc => { s with card := .rejecting, wrStatus := false }
  | _, _ => { s with wrStatus := false }

/-- The second loop of `sdcard_write_data`.  It waits for ever for the end of a block that the card
does not answer. -/
def State.writeOtherBlocks (s : State β) : List (β × Outcome) → Option (State β × SdioError)
  | [] => some (s, sdOk)
  | (b, o) :: rest =>
    match s.card, o with
    | .receiving _, .ok => (s.sendBlock b o).writeOtherBlocks rest
    | .receiving _, .crc => some (s.sendBlock b o, sdError)
    | _, _ => none

/-- The first block after the command is sent without a look at its status. -/
def State.sdcardWriteData (s : State β) (firstDataAfterCmd : Bool) (blocks : List (β × Outcome)) :
    Option (State β × SdioError) :=
  match firstDataAfterCmd, blocks with
  | true, (b, o) :: rest => (s.sendBlock b o).writeOtherBlocks rest
  | _, blocks => s.writeOtherBlocks blocks

/-- `sdcard_read_single_block` -/
def State.sdcardReadSingleBlock (s : State β) (readaddr : Nat) (cmd data : Outcome) :
    State β × SdioError × List (Option β) :=
  let (t, ret) := s.sendCmd g (.cmd17 (cmdArg g readaddr)) cmd
  if ret ≠ sdOk then (t, ret, [])
  else match data with
    | .ok => (t, sdOk, [some (t.store (argBlock g (cmdArg g readaddr)))])
    | .crc => (t, sdDataCrcFail, [])
    | .lost => (t, sdDataTimeout, [])

end Data

section Calls

variable {β : Type u} (g : Geometry)

/-- `op_flag` -/
inductive OpFlag
  /-- The open stream goes on. -/
  | go
  | stopOther
  | stopSame
  | stopped
deriving DecidableEq

def State.opFlag (s : State β) (direction : Direction) (firstBlock : Nat) : OpFlag :=
  if s.sdioWrFlag ≠ direction then .stopOther
  else if s.noNeedSendCmd12Flag then .stopped
  else if s.lastWrAddr = firstBlock then .go
  else .stopSame

/-- The outcomes of `n` blocks. -/
def Env.blocks (env : Env) (n : Nat) : List Outcome := (List.range n).map env.block

/-- The end of the open stream, where there is one to be ended. -/
def State.readStop (s : State β) (op : OpFlag) (o : Outcome) : State β × SdioError :=
  match op with
  | .stopOther => s.sdcardSendWriteStop g 0 o
  | .stopSame => s.sdcardSendReadStop g o
  | _ => (s, sdOk)

/-- What `sdcard_read_multi_block` reads. -/
def State.readStream (s : State β) (op : OpFlag) (firstBlock blockNum : Nat) (env : Env) :
    State β × SdioError × List (Option β) :=
  if op = .go then s.sdcardRcvData sdOk (env.blocks blockNum)
  else
    let (s, ret) := s.readStop g op env.stop
    let (s, ret') := s.sdcardCmd18Process g firstBlock env.start
    if sdOk = ret + ret' then s.sdcardRcvData sdOk (env.blocks blockNum)
    else (s, ret + ret', [])

/-- What comes after the blocks: the end of a stream in which something went wrong. -/
def State.finishRead (s : State β) (ret : SdioError) (env : Env) : State β × SdioError :=
  if sdOk ≠ ret then
    let (s, ret') := { s with noNeedSendCmd12Flag := true }.sdcardSendReadStop g env.last
    (s, ret + ret')
  else (s, ret)

def State.sdcardReadMultiBlock (s : State β) (firstBlock blockNum : Nat) (env : Env) :
    State β × SdioError × List (Option β) :=
  let op := s.opFlag .rdData firstBlock
  let (s, ret, buffer) :=
    { s with noNeedSendCmd12Flag := false }.readStream g op firstBlock blockNum env
  let (s, ret) := s.finishRead g ret env
  ({ s with sdioWrFlag := .rdData, lastWrAddr := firstBlock + blockNum }, ret, buffer)

def State.writeStop (s : State β) (op : OpFlag) (o : Outcome) : State β × SdioError :=
  match op with
  | .stopOther => s.sdcardSendReadStop g o
  | .stopSame => s.sdcardSendWriteStop g 0 o
  | _ => (s, sdOk)

/-- What `sdcard_write_multi_block` writes. -/
def State.writeStream (s : State β) (op : OpFlag) (firstBlock : Nat) (data : List β) (env : Env) :
    Option (State β × SdioError) :=
  if op = .go then s.sdcardWriteData false (data.zip (env.blocks data.length))
  else
    let (s, ret) := s.writeStop g op env.stop
    let (s, ret') := s.sdcardCmd25Process g firstBlock env.start
    if sdOk = ret + ret' then s.sdcardWriteData true (data.zip (env.blocks data.length))
    else some (s, ret + ret')

def State.finishWrite (s : State β) (ret : SdioError) (env : Env) : State β × SdioError :=
  if ret ≠ sdOk then
    let (s, ret') := s.sdcardSendWriteStop g ret env.last
    ({ s with noNeedSendCmd12Flag := true }, ret + ret')
  else (s, ret)

def State.sdcardWriteMultiBlock (s : State β) (firstBlock : Nat) (data : List β) (env : Env) :
    Option (State β × SdioError) :=
  let op := s.opFlag .wrData firstBlock
  let t : State β := { s with noNeedSendCmd12Flag := false }
  (t.writeStream g op firstBlock data env).map fun r =>
    let (s, ret) := r.1.finishWrite g r.2 env
    ({ s with lastWrAddr := firstBlock + data.length, sdioWrFlag := .wrData }, ret)

/-- The loop of `sdcard_read`, with the outcomes of its commands and blocks. -/
def State.readBlocks (s : State β) (startBlkAddr : Nat) :
    List (Outcome × Outcome) → State β × SdioError × List (Option β)
  | [] => (s, sdOk, [])
  | (cmd, data) :: rest =>
    let (s, ret, block) := s.sdcardReadSingleBlock g startBlkAddr cmd data
    if ret ≠ sdOk then (s, ret, [])
    else
      let r := s.readBlocks (startBlkAddr + 1) rest
      (r.1, r.2.1, block ++ r.2.2)

/-- `sdcard_read` counts its blocks with a byte, and returns `count` or 0. -/
def State.sdcardRead (s : State β) (startBlkAddr count : Nat) (env : Env) :
    State β × Nat × List (Option β) :=
  let numbs := List.range (count % 256)
  let r := s.readBlocks g startBlkAddr (numbs.map fun i => (env.cmd17 i, env.block i))
  (r.1, if r.2.1 = sdOk then count else 0, r.2.2)

end Calls

section Machine

variable {β : Type u} (g : Geometry)

/-- The blocks are there, and there is a buffer for them in memory. -/
def Geometry.Inside (firstBlock blockNum : Nat) : Prop :=
  1 ≤ blockNum ∧ firstBlock + blockNum ≤ g.size ∧ blockNum * 512 < 2 ^ 32

instance (firstBlock blockNum : Nat) : Decidable (g.Inside firstBlock blockNum) :=
  inferInstanceAs (Decidable (_ ∧ _ ∧ _))

def Call.Inside : Call β → Prop
  | .sdcardReadNew firstBlock blockNum => g.Inside firstBlock blockNum
  | .sdcardWriteNew firstBlock data => g.Inside firstBlock data.length
  | .sdcardWrite startBlkAddr userBuf => g.Inside startBlkAddr userBuf.length
  | .sdcardRead startBlkAddr count => g.Inside startBlkAddr count

instance : ∀ c : Call β, Decidable (c.Inside g)
  | .sdcardReadNew firstBlock blockNum => inferInstanceAs (Decidable (g.Inside firstBlock blockNum))
  | .sdcardWriteNew firstBlock data => inferInstanceAs (Decidable (g.Inside firstBlock data.length))
  | .sdcardWrite first userBuf => inferInstanceAs (Decidable (g.Inside first userBuf.length))
  | .sdcardRead startBlkAddr count => inferInstanceAs (Decidable (g.Inside startBlkAddr count))

structure Event (β : Type u) where
  call : Call β
  env : Env

/-- The call: what it leaves, what it returns and what is in the buffer. -/
def State.run (s : State β) (env : Env) : Call β → Option (State β × Nat × List (Option β))
  | .sdcardReadNew firstBlock blockNum => some (s.sdcardReadMultiBlock g firstBlock blockNum env)
  | .sdcardWriteNew firstBlock data | .sdcardWrite firstBlock data =>
    (s.sdcardWriteMultiBlock g firstBlock data env).map fun r => (r.1, r.2, [])
  | .sdcardRead startBlkAddr count => some (s.sdcardRead g startBlkAddr count env)

/-- `sdcard_read` reports success with `count`, the others do with `SD_OK`. -/
def Call.success : Call β → Nat → Bool
  | .sdcardRead _ count, ret => ret == count
  | _, ret => ret == sdOk

/-- A call that never returns is no step. -/
def State.step (s : State β) (e : Event β) : Option (State β × Nat) :=
  if e.call.Inside g then
    (s.run g e.env e.call).map fun r =>
      ({ r.1 with returned := r.1.returned ++
          [⟨e.call, s.store, r.1.store, e.call.success r.2.1, r.2.2⟩] }, r.2.1)
  else none

/-- The state after a successful `sdcard_initialize`. -/
def init (store : Nat → β) : State β where
  card := .transfer
  store := store
  wrStatus := false
  sdioWrFlag := .rdData
  lastWrAddr := 0
  noNeedSendCmd12Flag := true
  issued := []
  returned := []

end Machine

end BdkRtt.Driver.Sdcard
