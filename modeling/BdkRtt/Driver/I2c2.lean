import BdkRtt.Lib.Machine
import BdkRtt.Lib.Mem
import BdkRtt.Lib.Outbox

/-! The second I2C controller as a master, whose bytes go through two FIFOs. -/

namespace BdkRtt.Driver.I2c2

open Lib

/-- The bits of `WkMode`. -/
def rwBit : UInt8 := 0x01
def msBit : UInt8 := 0x02
def alBit : UInt8 := 0x04
def iaBit : UInt8 := 0x08

section State

/-- `I2C_OP_ST`, of which a master uses these fields. -/
structure Op where
  salveId : UInt8
  opAddr : UInt16

/-- `I2C2_MSG_ST` without `pData`, which is never moved. -/
structure Msg where
  wkMode : UInt8
  innerAddr : UInt8
  sendAddr : UInt8
  currentNum : UInt32
  allDataNum : UInt32
  addrFlag : UInt8
  transDone : UInt8
  ackCheck : UInt8

/-- The bits of `REG_I2C2_STA` that are used here. -/
structure Stat where
  intMode : BitVec 2
  ack : Bool
  stop : Bool
  sta : Bool

/-- A byte for the bus, behind a start if it was written together with `I2C2_SMBUS_STA`. -/
inductive Item
  | start (byte : UInt8)
  | byte (byte : UInt8)
deriving DecidableEq

/-- `gi2c2`, the status register, the caller's buffer with the indices that have been accessed, the
FIFOs, and the byte behind the last start. -/
structure State where
  msg : Msg
  stat : Stat
  pData : Mem UInt8
  accessed : List Nat
  tx : Outbox Item
  rx : List UInt8
  address : UInt8

/-- The depth of each FIFO. -/
def fifoDepth : Nat := 16

end State

section Registers

/-- A write to `REG_I2C2_DAT`. -/
def State.put (s : State) (b : UInt8) : State := { s with tx := s.tx.put fifoDepth (.byte b) }

/-- The same where `I2C2_SMBUS_STA` is set too. -/
def State.putStart (s : State) (b : UInt8) : State :=
  { s with tx := s.tx.put fifoDepth (.start b), address := b }

def State.setFlag (s : State) (flag : UInt8) : State :=
  { s with msg := { s.msg with addrFlag := flag } }

def State.transDone (s : State) : State := { s with msg := { s.msg with transDone := 1 } }

end Registers

section Start

/-- `i2c2_send_addr`, for a start. -/
def State.sendAddr (s : State) : State :=
  if s.msg.wkMode &&& alBit = 0 then
    let txData := (s.msg.sendAddr <<< 1) &&& ~~~0x01
    let txData := if s.msg.wkMode = 0x01 then txData ||| 0x01 else txData
    let s := s.putStart txData
    let s := s.setFlag (s.msg.addrFlag + 1)
    if s.msg.wkMode = 0x00 ∨ s.msg.wkMode = 0x01 then s.setFlag (s.msg.addrFlag ||| 0x13) else s
  else
    let s := s.putStart ((0xf0 : UInt8) ||| ((s.msg.sendAddr >>> 7) &&& 0x06))
    s.setFlag (s.msg.addrFlag + 1)

/-- `int_mode` of `i2c2_send_start`. -/
def Msg.intMode (m : Msg) : BitVec 2 :=
  if m.wkMode &&& rwBit ≠ 0 then
    if m.allDataNum > 12 then 0
    else if m.allDataNum > 8 then 1
    else if m.allDataNum > 4 then 2
    else 3
  else if m.allDataNum < 4 ∨ m.wkMode &&& msBit ≠ 0 then 0
  else 1

/-- `i2c2_send_start`; the stop of the transfer before has been made. -/
def State.sendStart (s : State) : State :=
  if s.msg.wkMode &&& msBit ≠ 0 then s
  else
    let s' := s.sendAddr
    { s' with
      stat :=
        { s.stat with intMode := s.stat.intMode ||| s.msg.intMode, stop := false, sta := true } }

end Start

section Interrupt

/-- `fifo_empty_num` -/
def fifoEmptyNum (mode : BitVec 2) : UInt8 :=
  match mode with
  | 0 => 16
  | 1 => 12
  | 2 => 8
  | 3 => 4

/-- `data_num` of a read. -/
def dataNum (mode : BitVec 2) : UInt8 :=
  match mode with
  | 0 => 12
  | 1 => 8
  | 2 => 4
  | 3 => 1

/-- The loop of a write, with `remain_data_cnt`. -/
def State.putData : Nat → State → UInt8 → State × UInt8
  | 0, s, remain => (s, remain)
  | n + 1, s, remain =>
    let i := s.msg.currentNum.toNat
    State.putData n
      { s.put (s.pData i) with
        accessed := s.accessed ++ [i]
        msg := { s.msg with currentNum := s.msg.currentNum + 1 } } (remain - 1)

/-- The loop of a read. -/
def State.takeData : Nat → State → UInt8 → State × UInt8
  | 0, s, remain => (s, remain)
  | n + 1, s, remain =>
    let i := s.msg.currentNum.toNat
    State.takeData n
      { s with
        pData := s.pData.write i [s.rx.headD 0]
        rx := s.rx.tail
        accessed := s.accessed ++ [i]
        msg := { s.msg with currentNum := s.msg.currentNum + 1 } } (remain - 1)

/-- The branch of a master that writes, where all of the address has been written. -/
def State.writeData (s : State) (stat : Stat) (remain : UInt8) : State × Stat :=
  if remain = 0 then (s.transDone, { stat with stop := true })
  else
    let empty := fifoEmptyNum stat.intMode
    let num := if remain < empty then remain else empty
    let (s, remain) := State.putData num.toNat s remain
    (s, if remain < empty then { stat with sta := false, intMode := 0 } else stat)

/-- The same branch for the rest of the address. -/
def State.writeAddr (s : State) : State :=
  let flag := s.msg.addrFlag
  if s.msg.wkMode &&& alBit ≠ 0 then
    if s.msg.wkMode &&& iaBit ≠ 0 then
      if flag &&& 0x08 = 0 then
        if flag &&& 0x03 = 0x00 then s
        else if flag &&& 0x03 = 0x01 then (s.put s.msg.sendAddr).setFlag (flag + 1)
        else (s.put s.msg.innerAddr).setFlag (flag ||| 0x1b)
      else s.setFlag (flag ||| 0x13)
    else if flag &&& 0x03 = 0x00 then s
    else if flag &&& 0x03 = 0x01 then (s.put s.msg.sendAddr).setFlag (flag ||| 0x13)
    else s.setFlag (flag ||| 0x13)
  else if s.msg.wkMode &&& iaBit ≠ 0 then
    if flag &&& 0x08 = 0 then (s.put s.msg.innerAddr).setFlag (flag ||| 0x13)
    else s.setFlag (flag ||| 0x13)
  else s.setFlag (flag ||| 0x13)

def State.masterWrite (s : State) (stat : Stat) (remain : UInt8) : State × Stat :=
  let stat := { stat with sta := false }
  if s.msg.ackCheck ≠ 0 ∧ stat.ack = false then (s.transDone, { stat with stop := true })
  else if s.msg.addrFlag &&& 0x10 ≠ 0 then s.writeData stat remain
  else (s.writeAddr, stat)

/-- The branch of a master that reads, where all of the address has been sent. -/
def State.readData (s : State) (stat : Stat) (remain : UInt8) : State × Stat :=
  let num := dataNum stat.intMode
  let (s, remain) := State.takeData num.toNat s remain
  if remain = 0 then (s.transDone, { stat with ack := false, sta := false, stop := true })
  else if remain < num then (s, { stat with ack := true, intMode := 3 })
  else (s, { stat with ack := true })

/-- The same branch for the rest of the address. -/
def State.readAddr (s : State) (stat : Stat) : State × Stat :=
  let flag := s.msg.addrFlag
  let restart := (s.putStart (((s.msg.sendAddr >>> 7) &&& 0x06) ||| 0xf1)).setFlag (flag ||| 0x13)
  if s.msg.wkMode &&& alBit ≠ 0 then
    if s.msg.wkMode &&& iaBit ≠ 0 then
      if flag &&& 0x08 = 0 then
        if flag &&& 0x03 = 0x00 then (s, stat)
        else if flag &&& 0x03 = 0x01 then ((s.put s.msg.sendAddr).setFlag (flag + 1), stat)
        else ((s.put s.msg.innerAddr).setFlag (flag ||| 0x08), stat)
      else if flag &&& 0x03 = 0x02 then (restart, { stat with sta := true })
      else (s, stat)
    else if flag &&& 0x03 = 0x00 then (s, stat)
    else if flag &&& 0x03 = 0x01 then ((s.put s.msg.sendAddr).setFlag (flag + 1), stat)
    else if flag &&& 0x03 = 0x02 then (restart, { stat with sta := true })
    else (s, stat)
  else if s.msg.wkMode &&& iaBit ≠ 0 then
    if flag &&& 0x08 = 0 then
      ((s.put s.msg.innerAddr).setFlag ((flag &&& ~~~0x0b) ||| 0x0a), stat)
    else ((s.putStart ((s.msg.sendAddr <<< 1) ||| 0x01)).setFlag (flag ||| 0x13),
      { stat with sta := true })
  else (s.setFlag (flag ||| 0x13), stat)

def State.masterRead (s : State) (stat : Stat) (remain : UInt8) : State × Stat :=
  let sta := stat.sta
  let stat := { stat with sta := false }
  if sta ∧ s.msg.ackCheck ≠ 0 ∧ stat.ack = false then (s.transDone, { stat with stop := true })
  else if s.msg.addrFlag &&& 0x10 ≠ 0 then
    if sta then (s, { stat with ack := true }) else s.readData stat remain
  else s.readAddr stat

/-- `i2c2_isr` of a master, where `I2C2_SMBUS_SI` is set. -/
def State.isr (s : State) : State :=
  let remain := (s.msg.allDataNum - s.msg.currentNum).toUInt8
  let (t, stat) := if s.msg.wkMode &&& 0x03 = 0x00 then s.masterWrite s.stat remain
    else s.masterRead s.stat remain
  { t with stat }

end Interrupt

section Calls

inductive Mode
  | read
  | write
deriving DecidableEq

/-- A call of `i2c2_read` or of `i2c2_write` after `i2c2_open(op_flag)`. -/
structure Call where
  mode : Mode
  opFlag : UInt32
  op : Op
  count : UInt32
  userBuf : Mem UInt8

/-- `WkMode`, as `i2c2_open` and then the call set it. -/
def Call.wkMode (x : Call) : UInt8 :=
  let mode := (x.opFlag &&& 0x0f).toUInt8
  match x.mode with
  | .read => mode ||| rwBit
  | .write => mode &&& ~~~rwBit

/-- What both calls do before they wait for `TransDone`, with the status register that the transfer
before has left, and empty FIFOs. -/
def Call.begin (x : Call) (stat : Stat) : State :=
  State.sendStart
    { msg :=
        { wkMode := x.wkMode
          innerAddr := x.op.opAddr.toUInt8
          sendAddr := x.op.salveId
          currentNum := 0
          allDataNum := x.count
          addrFlag := 0
          transDone := 0
          ackCheck := 1 }
      stat
      pData := x.userBuf
      accessed := []
      tx := ⟨[], []⟩
      rx := []
      address := 0 }

inductive Event
  /-- A byte leaves the TX FIFO. -/
  | send
  /-- A byte is received into the RX FIFO. -/
  | receive (b : UInt8)
  /-- The interrupt for bytes that have been sent, with the slave's acknowledgement. -/
  | isrSent (ack : Bool)
  | isrReceived

/-- The slave has been told to send, and the interrupt for its address has come. -/
def State.receives (s : State) : Bool := decide (s.address &&& 0x01 ≠ 0) && !s.stat.sta

/-- An interrupt comes only when the FIFO has the room or holds the bytes that `INT_MODE` announces,
and a stop ends the transfer.  The answer is whether `TransDone` is set. -/
def State.step (s : State) : Event → Option (State × Bool)
  | .send => s.tx.next.map fun tx => ({ s with tx }, false)
  | .receive b =>
    if s.stat.stop = false ∧ s.receives = true ∧ s.rx.length < fifoDepth then
      some ({ s with rx := s.rx ++ [b] }, false)
    else none
  | .isrSent ack =>
    if s.stat.stop = false ∧ s.receives = false ∧
        (fifoEmptyNum s.stat.intMode).toNat ≤ fifoDepth - s.tx.held.length then
      let t := State.isr { s with stat := { s.stat with ack } }
      some (t, decide (t.msg.transDone = 1))
    else none
  | .isrReceived =>
    if s.stat.stop = false ∧ s.receives = true ∧ (dataNum s.stat.intMode).toNat ≤ s.rx.length then
      some (s.isr, decide (s.isr.msg.transDone = 1))
    else none

def transfer (stat : Stat) (x : Call) : Machine State Event Bool where
  init := x.begin stat
  step := State.step

end Calls

section Law

abbrev History := Machine.History Event Bool

def Call.tenBit (x : Call) : Bool := decide (x.opFlag &&& 0x04 ≠ 0)
def Call.inner (x : Call) : Bool := decide (x.opFlag &&& 0x08 ≠ 0)

/-- The slave address with the bit for a write; of ten bits the upper two are zero, since
`salve_id` has eight. -/
def Call.slaveItems (x : Call) : List Item :=
  if x.tenBit then [.start 0xf0, .byte x.op.salveId] else [.start (x.op.salveId <<< 1)]

def Call.innerItems (x : Call) : List Item := if x.inner then [.byte x.op.opAddr.toUInt8] else []

/-- The address with the bit for a read. -/
def Call.readItem (x : Call) : Item :=
  .start (if x.tenBit then 0xf1 else (x.op.salveId <<< 1) ||| 0x01)

/-- The bytes that a call sends: of a read, the slave address with the bit for a write comes first
if there is more to send behind it. -/
def Call.items (x : Call) : List Item :=
  match x.mode with
  | .write => x.slaveItems ++ x.innerItems ++ (x.userBuf.read 0 x.count.toNat).map .byte
  | .read => (if x.tenBit || x.inner then x.slaveItems ++ x.innerItems else []) ++ [x.readItem]

/-- The bytes that have been received. -/
def arrived (h : History) : List UInt8 := h.flatMap fun
  | (.receive b, _) => [b]
  | _ => []

def Event.isIsr : Event → Bool
  | .isrSent _ => true
  | .isrReceived => true
  | _ => false

def interrupts (h : History) : Nat := h.countP fun e => e.1.isIsr

/-- A byte that was sent has not been acknowledged. -/
def Nacked (h : History) : Prop := ∃ o, (.isrSent false, o) ∈ h

/-- How often `TransDone` has been set. -/
def timesDone (h : History) : Nat := h.countP fun e => e.2

structure Right (x : Call) (h : History) (s : State) : Prop where
  /-- What has been written for the bus is in the right order. -/
  sent : s.tx.all <+: x.items
  /-- The bytes of the buffer have been accessed in order, and none behind them. -/
  accessed : ∃ n ≤ x.count.toNat, s.accessed = List.range n ∧
    match x.mode with
    | .write => s.pData = x.userBuf
    | .read => n ≤ (arrived h).length ∧ s.pData = x.userBuf.write 0 ((arrived h).take n)
  once : timesDone h = if s.msg.transDone = 1 then 1 else 0
  nacked : Nacked h → s.msg.transDone = 1
  /-- Without such a byte the transfer is done after its last byte. -/
  done : s.msg.transDone = 1 → ¬ Nacked h → s.accessed = List.range x.count.toNat ∧
    match x.mode with
    | .write => s.tx.gone = x.items
    | .read => s.tx.all = x.items
  /-- Until then it can go on, and not for ever. -/
  ends : s.msg.transDone ≠ 1 →
    interrupts h ≤ x.items.length + x.count.toNat ∧ ∃ e, (s.step e).isSome

/-- `AllDataNum - CurrentNum` -/
def State.remaining (s : State) : Nat := (s.msg.allDataNum - s.msg.currentNum).toNat

/-- An interrupt does not take the bytes that remain for the last ones because there are 256 of
them, or a multiple of 256, more; and a read has no byte of its address refused other than behind a
start. -/
def Kept (s : State) : Event → Prop
  | .isrSent true => s.msg.wkMode &&& rwBit = 0 → s.msg.addrFlag &&& 0x10 ≠ 0 →
    s.remaining % 256 = 0 → s.remaining = 0
  | .isrSent false => s.msg.wkMode &&& rwBit ≠ 0 → s.stat.sta = true
  | .isrReceived =>
    s.remaining % 256 = (dataNum s.stat.intMode).toNat →
      s.remaining = (dataNum s.stat.intMode).toNat
  | _ => True

instance decidableKept (s : State) : (e : Event) → Decidable (Kept s e)
  | .isrSent true => inferInstanceAs (Decidable (s.msg.wkMode &&& rwBit = 0 →
      s.msg.addrFlag &&& 0x10 ≠ 0 → s.remaining % 256 = 0 → s.remaining = 0))
  | .isrSent false =>
    inferInstanceAs (Decidable (s.msg.wkMode &&& rwBit ≠ 0 → s.stat.sta = true))
  | .isrReceived => inferInstanceAs (Decidable (s.remaining % 256 =
      (dataNum s.stat.intMode).toNat → s.remaining = (dataNum s.stat.intMode).toNat))
  | .send => .isTrue trivial
  | .receive _ => .isTrue trivial

end Law

end BdkRtt.Driver.I2c2
