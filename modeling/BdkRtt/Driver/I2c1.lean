import BdkRtt.Lib.Acked
import BdkRtt.Lib.Machine
import BdkRtt.Lib.Mem
import Mathlib.Algebra.Group.Nat.Defs

/-! The driver of the first I2C controller, with one interrupt for each byte on the bus. -/

namespace BdkRtt.Driver.I2c1

open Lib

def addrWidth8 : UInt8 := 1
def addrWidth16 : UInt8 := 2

section State

/-- `I2C_OP_ST`, of which only these fields are used. -/
structure Op where
  addrWidth : UInt8
  salveId : UInt8
  opAddr : UInt16

/-- `I2C1_MSG_ST`; `pData` is how far the pointer is behind `user_buf`. -/
structure Msg where
  txMode : UInt8
  regAddr : UInt16
  remainNum : UInt16
  pData : Nat
  salveID : UInt8
  addrFlag : UInt8
  transDone : UInt8
  errorNO : UInt8
  addrWidth : UInt8

/-- The bits of `REG_I2C1_CONFIG` that are used here. -/
structure Config where
  ensmb : Bool
  sta : Bool
  sto : Bool
  ackTx : Bool
  txMode : Bool
  si : Bool
  ackRx : Bool

/-- What is seen on the bus: a byte with its acknowledgement. -/
inductive Item
  | start
  | sent (byte : UInt8) (ack : Bool)
  | received (byte : UInt8) (ack : Bool)
  | stop
deriving DecidableEq

/-- `gi2c1`, the registers, the caller's buffer with the indices that have been accessed, and the
bus since the call began. -/
structure State where
  msg : Msg
  config : Config
  dat : UInt8
  userBuf : Mem UInt8
  accessed : List Nat
  log : List Item

/-- The slave: whether it acknowledges the byte of each time, and what it sends then. -/
structure Slave where
  ack : Nat → Bool
  tx : Nat → UInt8

end State

section Interrupt

/-- The branch of `i2c1_isr` for a master that writes, with `i2c1_config`. -/
def State.isrWrite (s : State) (c : Config) (ackRx : Bool) : State × Config :=
  if ackRx = false then
    ({ s with msg := { s.msg with transDone := 1, errorNO := 1 } }, { c with sto := true })
  else if s.msg.addrFlag &&& 0x10 ≠ 0 then
    if s.msg.remainNum = 0 then
      ({ s with msg := { s.msg with transDone := 1 } }, { c with sto := true })
    else
      ({ s with
          dat := s.userBuf s.msg.pData
          accessed := s.accessed ++ [s.msg.pData]
          msg := { s.msg with pData := s.msg.pData + 1, remainNum := s.msg.remainNum - 1 } }, c)
  else if s.msg.addrFlag &&& 0x08 = 0 then
    if s.msg.addrWidth = addrWidth8 then
      ({ s with
          dat := s.msg.regAddr.toUInt8
          msg := { s.msg with addrFlag := s.msg.addrFlag ||| 0x13 } }, c)
    else if s.msg.addrWidth = addrWidth16 then
      ({ s with
          dat := (s.msg.regAddr >>> 8).toUInt8
          msg := { s.msg with addrFlag := s.msg.addrFlag ||| 0x08 } }, c)
    else (s, c)
  else
    ({ s with
        dat := s.msg.regAddr.toUInt8
        msg := { s.msg with addrFlag := s.msg.addrFlag ||| 0x10 } }, c)

/-- Where all of the address has been sent. -/
def State.isrReceive (s : State) (c : Config) (sta : Bool) : State × Config :=
  let c := { c with txMode := false }
  if sta then (s, { c with ackTx := true })
  else
    let s := { s with
      userBuf := s.userBuf.write s.msg.pData [s.dat]
      accessed := s.accessed ++ [s.msg.pData]
      msg := { s.msg with pData := s.msg.pData + 1, remainNum := s.msg.remainNum - 1 } }
    if s.msg.remainNum = 0 then
      ({ s with msg := { s.msg with transDone := 1 } }, { c with ackTx := false, sto := true })
    else (s, { c with ackTx := true })

/-- The branch of `i2c1_isr` for a master that reads. -/
def State.isrRead (s : State) (c : Config) (ackRx sta : Bool) : State × Config :=
  if s.msg.addrFlag &&& 0x10 = 0 ∧ ackRx = false then
    ({ s with msg := { s.msg with transDone := 1, errorNO := 1 } }, { c with sto := true })
  else if sta ∧ ackRx = false then
    ({ s with msg := { s.msg with transDone := 1 } }, { c with sto := true })
  else if s.msg.addrFlag &&& 0x10 ≠ 0 then s.isrReceive c sta
  else if s.msg.addrFlag &&& 0x08 = 0 then
    if s.msg.addrWidth = addrWidth8 then
      ({ s with
          dat := s.msg.regAddr.toUInt8
          msg := { s.msg with addrFlag := (s.msg.addrFlag &&& ~~~0x0B) ||| 0x0A } }, c)
    else if s.msg.addrWidth = addrWidth16 then
      ({ s with
          dat := (s.msg.regAddr >>> 8).toUInt8
          msg := { s.msg with addrFlag := (s.msg.addrFlag &&& ~~~0x0B) ||| 0x08 } }, c)
    else (s, c)
  else if s.msg.addrFlag &&& 0x02 = 0 then
    ({ s with
        dat := s.msg.regAddr.toUInt8
        msg := { s.msg with addrFlag := (s.msg.addrFlag &&& ~~~0x0B) ||| 0x0A } }, c)
  else
    ({ s with
        dat := (s.msg.salveID <<< 1) ||| 0x01
        msg := { s.msg with addrFlag := s.msg.addrFlag ||| 0x13 } }, { c with sta := true })

/-- `i2c1_config` before the branches. -/
def Config.clear (c : Config) : Config := { c with sta := false, sto := false }

/-- `i2c1_config` is written back. -/
def State.commit (r : State × Config) : State := { r.1 with config := { r.2 with si := false } }

def State.isr (s : State) : State :=
  if s.config.si = false then s
  else if s.msg.txMode &&& 0x01 ≠ 0 then
    State.commit (s.isrWrite s.config.clear s.config.ackRx)
  else State.commit (s.isrRead s.config.clear s.config.ackRx s.config.sta)

end Interrupt

section Controller

/-- The controller is about to receive. -/
def Config.receives (c : Config) : Bool := !c.sta && !c.txMode

/-- A byte on the bus: behind a start or as it is, from `REG_I2C1_DAT` or into it. -/
def State.transferByte (s : State) (ack : Bool) (tx : UInt8) : State :=
  if s.config.receives then
    { s with dat := tx, config := { s.config with si := true, ackRx := ack } }
  else
    { s with
      log := s.log ++ if s.config.sta then [.start, .sent s.dat ack] else [.sent s.dat ack]
      config := { s.config with si := true, ackRx := ack } }

/-- A received byte is acknowledged as the interrupt has set `ACK_TX`, and a stop ends the
transfer. -/
def State.settle (receives : Bool) (s : State) : State :=
  let log := s.log ++ if receives then [.received s.dat s.config.ackTx] else []
  if s.config.sto then { s with log := log ++ [.stop], config := { s.config with sto := false } }
  else { s with log }

def State.byteTime (s : State) (ack : Bool) (tx : UInt8) : State :=
  (s.transferByte ack tx).isr.settle s.config.receives

end Controller

section Calls

inductive Mode
  | read
  | write
deriving DecidableEq

/-- `TxMode` -/
def Mode.txMode : Mode → UInt8
  | .read => 0
  | .write => 1

/-- A call of `i2c1_read` or of `i2c1_write`. -/
structure Call where
  mode : Mode
  op : Op
  count : UInt32
  userBuf : Mem UInt8
  slave : Slave

/-- The part of both functions in front of `while(gi2c1.TransDone == 0)`. -/
def State.begin (s : State) (x : Call) : State where
  msg :=
    { txMode := x.mode.txMode
      regAddr := x.op.opAddr
      remainNum := x.count.toUInt16
      pData := 0
      salveID := x.op.salveId
      addrFlag := 0
      transDone := 0
      errorNO := 0
      addrWidth := x.op.addrWidth }
  config := { s.config with txMode := true, ensmb := true, sta := true }
  dat := (x.op.salveId &&& 0x7f) <<< 1
  userBuf := x.userBuf
  accessed := []
  log := []

/-- `while(gi2c1.TransDone == 0)`, with the time of each byte. -/
def whileBusy (slave : Slave) : Nat → State → (i : Nat) → Option State
  | 0, s, _ => if s.msg.transDone = 0 then none else some s
  | fuel + 1, s, i =>
    if s.msg.transDone = 0 then whileBusy slave fuel (s.byteTime (slave.ack i) (slave.tx i)) (i + 1)
    else some s

/-- More bytes than a transfer has: the counter has 16 bits. -/
def maxBytes : Nat := 2 ^ 16 + 4

/-- `i2c1_read` and `i2c1_write`; `none` where they do not return. -/
def State.transfer (s : State) (x : Call) : Option (State × UInt8) :=
  if s.msg.transDone ≠ 0 then some (s, 0)
  else (whileBusy x.slave maxBytes (s.begin x) 0).map fun s =>
    ({ s with msg := { s.msg with transDone := 0 } }, s.msg.errorNO)

/-- `i2c1_init` -/
def initState : State where
  msg := ⟨0, 0, 0, 0, 0, 0, 0, 0, 0⟩
  config := ⟨false, false, false, false, false, false, false⟩
  dat := 0
  userBuf _ := 0
  accessed := []
  log := []

def i2c1 : Machine State Call UInt8 where
  init := initState
  step := State.transfer

end Calls

section Law

def Op.regBytes (op : Op) : List UInt8 :=
  if op.addrWidth = addrWidth8 then [op.opAddr.toUInt8]
  else [(op.opAddr >>> 8).toUInt8, op.opAddr.toUInt8]

/-- The slave address with the bit for a write, and the register address. -/
def Op.addrBytes (op : Op) : List UInt8 := (op.salveId &&& 0x7f) <<< 1 :: op.regBytes

def Op.readByte (op : Op) : UInt8 := ((op.salveId &&& 0x7f) <<< 1) ||| 1

def sentItems (ack : Nat → Bool) (i : Nat) (bytes : List UInt8) : List Item :=
  (Acked.sent ack i bytes).map fun x => .sent x.1 x.2

/-- `n` received bytes from the time `i` on, of which all but the last are acknowledged. -/
def receivedItems (tx : Nat → UInt8) : Nat → Nat → List Item
  | _, 0 => []
  | i, n + 1 => .received (tx i) (decide (n ≠ 0)) :: receivedItems tx (i + 1) n

/-- The bytes of a write. -/
def Call.writeBytes (x : Call) : List UInt8 := x.op.addrBytes ++ x.userBuf.read 0 x.count.toNat

def WriteRight (x : Call) (s : State) (ret : UInt8) : Prop :=
  s.log = .start :: sentItems x.slave.ack 0 x.writeBytes ++ [.stop] ∧
    (ret = 0 ↔ Acked.All x.slave.ack 0 x.writeBytes.length)

/-- The bytes that a read sends, behind its two starts. -/
def Call.readBytes (x : Call) : Nat := x.op.addrBytes.length + 1

/-- The bus behind the register address of a read. -/
def Call.readTail (x : Call) : List Item :=
  let n := x.op.addrBytes.length
  if Acked.All x.slave.ack 0 n then
    .start :: .sent x.op.readByte (x.slave.ack n) ::
      if x.slave.ack n then receivedItems x.slave.tx (n + 1) x.count.toNat else []
  else []

def ReadRight (x : Call) (s : State) (ret : UInt8) : Prop :=
  s.log = .start :: sentItems x.slave.ack 0 x.op.addrBytes ++ x.readTail ++ [.stop] ∧
    (ret = 0 ↔ Acked.All x.slave.ack 0 x.readBytes) ∧
    s.userBuf = x.userBuf.write 0 (if Acked.All x.slave.ack 0 x.readBytes then
      (List.range x.count.toNat).map fun k => x.slave.tx (x.readBytes + k) else [])

/-- The call returns, with the right bytes on the bus and in the buffer. -/
def Right (s : State) (x : Call) : Prop :=
  ∃ t ret, s.transfer x = some (t, ret) ∧ (∀ k ∈ t.accessed, k < x.count.toNat) ∧
    match x.mode with
    | .write => WriteRight x t ret
    | .read => ReadRight x t ret

/-- The 16-bit counter is enough, or a byte is refused before that shows; and a slave that takes the
register address takes its address for the read too. -/
def Counted (x : Call) : Prop :=
  let n := x.op.addrBytes.length
  match x.mode with
  | .write => x.count.toNat < 2 ^ 16 ∨
    ¬ Acked.All x.slave.ack 0 (n + x.count.toNat % 2 ^ 16)
  | .read => ¬ Acked.All x.slave.ack 0 n ∨ x.slave.ack n = true ∧ x.count.toNat ≤ 2 ^ 16

end Law

end BdkRtt.Driver.I2c1
