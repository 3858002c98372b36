import BdkRtt.Lib.Reading
import BdkRtt.Wlan.BkAwareLaws

namespace BdkRtt.Wlan

open Lib

section Parser

/-- A call of `recv_cb`, with the pointers it is given as offsets in the frame. -/
structure Report where
  macAddr : Nat
  data : Nat
  dataLen : Int
  deriving DecidableEq

def Report.call (data : Mem UInt8) (r : Report) : RecvCall where
  macAddr := vectorAt 6 data r.macAddr
  data := data.read r.data r.dataLen.toNat
  dataLen := r.dataLen

variable (env : BkAwareEnv)

/-- `bk_aware_is_peer_exist` on the address at `p`. -/
def peerExistAt (p : Nat) (next : Bool → Reading UInt8 (List Report)) :
    List EtherAddr → Reading UInt8 (List Report)
  | [] => next false
  | peer :: peers =>
    .read p 6 fun peerAddr => if peer == peerAddr then next true else peerExistAt p next peers

/-- The second side of the test for the callback: `is_multicast_ether_addr` on `addr3`. -/
def configAt (reports : List Report) : Reading UInt8 (List Report) :=
  .cell 16 fun addr3 => if addr3 &&& 0x01 != 0 then .done reports else .done []

/-- The callback part of the parser, with `p` behind the version byte. -/
def reportAt (p : Nat) (userLen : UInt8) : Reading UInt8 (List Report) :=
  let reports : List Report := [⟨10, p, (userLen.toNat : Int) - 5⟩]
  if env.recvCb then
    peerExistAt 10 (fun exist =>
      if exist then
        .read 4 6 fun addr1 => if addr1 == env.localAddr then .done reports else configAt reports
      else configAt reports) env.list
  else .done []

/-- `bk_aware_monitor_cb` with each access to the frame; `os_memcmp` reads all that it compares. -/
def monitorReading : Reading UInt8 (List Report) :=
  .read 0 2 fun framectrl =>
  if !env.inited then .done []
  else if ofLe16 framectrl.toList &&& macFctrlTypesubtypeMask = macFctrlAction then
    let p := sizeofMacHdr
    .cell p fun category =>
    let p := p + 1
    if category ≠ wlanActionVendorSpecific then .done []
    else .read p 3 fun oui =>
    if oui ≠ env.oui then .done []
    else
    let p := p + 3
    let p := p + 4 -- the random value
    .cell p fun eid =>
    if eid ≠ wlanEidVendorSpecific then .done []
    else
    let p := p + 1
    .cell p fun userLen =>
    let p := p + 1
    .read p 3 fun oui =>
    if oui ≠ env.oui then .done []
    else
    let p := p + 3
    .cell p fun type =>
    if type ≠ 4 then .done []
    else
    let p := p + 1
    .cell p fun _version =>
    reportAt env (p + 1) userLen
  else .done []

/-- The fields of an aware frame, in the order in which the parser comes to them. -/
def awareFields : List (FormatField UInt8) :=
  [⟨0, 2, fun framectrl => env.inited &&
      decide (ofLe16 framectrl.toList &&& macFctrlTypesubtypeMask = macFctrlAction)⟩,
    .cell 24 fun category => category = wlanActionVendorSpecific,
    ⟨25, 3, fun oui => oui = env.oui⟩,
    .cell 32 fun eid => eid = wlanEidVendorSpecific,
    .cell 33 fun _ => true,
    ⟨34, 3, fun oui => oui = env.oui⟩,
    .cell 37 fun type => type = 4,
    .cell 38 fun _ => true]

/-- Whether the callback is there for a frame with these addresses. -/
def Reported (hdr : MacHdr) : Prop :=
  env.recvCb = true ∧
    ((hdr.addr2 ∈ env.list ∧ hdr.addr1 = env.localAddr) ∨ isMulticastEtherAddr hdr.addr3 = true)

instance (hdr : MacHdr) : Decidable (Reported env hdr) := inferInstanceAs (Decidable (_ ∧ _))

end Parser

section Run

variable {env : BkAwareEnv} {data : Mem UInt8} {len p : Nat} {userLen : UInt8}
  {next : Bool → Reading UInt8 (List Report)}

theorem run_peerExistAt (peers : List EtherAddr) :
    (peerExistAt p next peers).run data =
      (next (decide (data.block p 6 ∈ peers))).run data := by
  induction peers with
  | nil => rfl
  | cons peer peers ih =>
    rw [peerExistAt, Reading.run_read]
    by_cases hpeer : peer = data.block p 6
    · rw [if_pos (beq_iff_eq.mpr hpeer), decide_eq_true (hpeer ▸ List.mem_cons_self)]
    · rw [if_neg (fun h => hpeer (beq_iff_eq.mp h)), ih]
      simp [Ne.symm hpeer]

theorem inside_peerExistAt (hp : p + 6 ≤ len) (hnext : ∀ b, (next b).Inside data len)
    (peers : List EtherAddr) : (peerExistAt p next peers).Inside data len := by
  induction peers with
  | nil => exact hnext false
  | cons peer peers ih =>
    rw [peerExistAt, Reading.inside_read]
    refine ⟨hp, ?_⟩
    split
    · exact hnext true
    · exact ih

theorem run_configAt (reports : List Report) : (configAt reports).run data =
    if isMulticastEtherAddr (macHdrAt data 0).addr3 then reports else [] := by
  have hmulticast : isMulticastEtherAddr (macHdrAt data 0).addr3 =
      (data 16 &&& 0x01 != 0) := by
    simp [isMulticastEtherAddr, macHdrAt, vectorAt]
  rw [configAt, Reading.run_cell, Reading.run_ite, hmulticast]
  rfl

theorem inside_configAt (reports : List Report) (hlen : 17 ≤ len) :
    (configAt reports).Inside data len := by
  rw [configAt, Reading.inside_cell, Reading.inside_when]
  exact ⟨hlen, fun _ => trivial⟩

theorem run_reportAt : (reportAt env p userLen).run data =
    if Reported env (macHdrAt data 0) then [⟨10, p, (userLen.toNat : Int) - 5⟩] else [] := by
  have haddr1 : (macHdrAt data 0).addr1 = data.block 4 6 := rfl
  have haddr2 : (macHdrAt data 0).addr2 = data.block 10 6 := rfl
  rw [reportAt, Reading.run_ite, run_peerExistAt, Reading.run_ite, Reading.run_read,
    Reading.run_ite]
  simp only [Reported, haddr1, haddr2, run_configAt, Reading.run_done]
  cases env.recvCb <;> by_cases hpeer : data.block 10 6 ∈ env.list <;>
    by_cases hlocal : data.block 4 6 = env.localAddr <;> simp [hpeer, hlocal]

theorem inside_reportAt (hlen : 39 ≤ len) : (reportAt env p userLen).Inside data len := by
  rw [reportAt, Reading.inside_when]
  intro _
  refine inside_peerExistAt (by omega) (fun exist => ?_) env.list
  have hconfig : (configAt [⟨10, p, (userLen.toNat : Int) - 5⟩]).Inside data len :=
    inside_configAt _ (by omega)
  rw [Reading.inside_ite, Reading.inside_read, Reading.inside_ite]
  split
  · refine ⟨by omega, ?_⟩
    split
    · trivial
    · exact hconfig
  · exact hconfig

theorem map_run_reportAt :
    ((reportAt env p userLen).run data).map (Report.call data) =
      bkAwareDeliver env (macHdrAt data 0) data p userLen := by
  have hlen : ((userLen.toNat : Int) - 5).toNat = userLen.toNat - 5 := by omega
  rw [run_reportAt, bkAwareDeliver]
  cases hcb : env.recvCb with
  | false =>
    have hnot : ¬ Reported env (macHdrAt data 0) := by
      rintro ⟨hyes, -⟩
      rw [hcb] at hyes
      cases hyes
    rw [if_neg hnot]
    rfl
  | true =>
    have hguard : ((bkAwareIsPeerExist env (macHdrAt data 0).addr2 &&
        (macHdrAt data 0).addr1 == env.localAddr) ||
        isMulticastEtherAddr (macHdrAt data 0).addr3) =
        decide (Reported env (macHdrAt data 0)) := by
      rw [Bool.eq_iff_iff]
      simp [Reported, hcb]
    rw [if_pos rfl, hguard]
    by_cases hreported : Reported env (macHdrAt data 0)
    · rw [if_pos hreported, if_pos (decide_eq_true hreported), List.map_singleton, Report.call,
        hlen]
      rfl
    · rw [if_neg hreported, if_neg (fun h => hreported (of_decide_eq_true h))]
      rfl

/-- The two models of the parser make the same calls. -/
theorem bkAwareMonitorCb_eq_run (env : BkAwareEnv) (data : Mem UInt8) :
    bkAwareMonitorCb env data = ((monitorReading env).run data).map (Report.call data) := by
  rw [monitorReading, bkAwareMonitorCb]
  simp only [Reading.run_read, Reading.run_cell, Reading.run_ite, Reading.run_done,
    Mem.toList_block, apply_ite (List.map (Report.call data)), List.map_nil, map_run_reportAt]
  rfl

end Run

section Bounds

variable {env : BkAwareEnv} {data : Mem UInt8} {len : Nat}

/-- The parser reads only the frame, and the payload it reports lies in it. -/
structure MonitorInside (env : BkAwareEnv) (data : Mem UInt8) (len : Nat) : Prop where
  reads : ∀ a ∈ (monitorReading env).touched data, a.1 + a.2 ≤ len
  payload : ∀ r ∈ (monitorReading env).run data, 0 ≤ r.dataLen ∧ r.data + r.dataLen ≤ len

/-- The frame is not cut off in a field that the parser comes to, and where it is passed on, its
length byte counts the five bytes in front of the payload and a payload that is there. -/
structure FrameWhole (env : BkAwareEnv) (data : Mem UInt8) (len : Nat) : Prop where
  fields : FormatField.Whole (awareFields env) data len
  payload : (∀ f ∈ awareFields env, f.Fits data) → Reported env (macHdrAt data 0) →
    5 ≤ (data 33).toNat ∧ 34 + (data 33).toNat ≤ len

theorem inside_monitorReading :
    (monitorReading env).Inside data len ↔ FormatField.Whole (awareFields env) data len := by
  have hreport (p : Nat) (userLen : UInt8) :
      39 ≤ len ∧ (reportAt env p userLen).Inside data len ↔ 39 ≤ len :=
    and_iff_left_of_imp inside_reportAt
  rw [monitorReading, awareFields]
  simp only [Reading.inside_read, Reading.inside_cell, Reading.inside_when, Reading.inside_unless,
    FormatField.whole_cons, FormatField.whole_nil, FormatField.fits_cell, FormatField.held_cell,
    FormatField.fits_mk, FormatField.held_mk, sizeofMacHdr, Nat.reduceAdd, hreport, not_not, ne_eq,
    Bool.not_eq_true', Bool.not_eq_false, Bool.and_eq_true, decide_eq_true_eq, and_imp, and_true,
    implies_true, true_implies]

theorem run_monitorReading : (monitorReading env).run data =
    if (∀ f ∈ awareFields env, f.Fits data) ∧ Reported env (macHdrAt data 0) then
      [⟨10, 39, ((data 33).toNat : Int) - 5⟩]
    else [] := by
  rw [monitorReading, awareFields]
  simp only [Reading.run_read, Reading.run_cell, Reading.run_ite, Reading.run_done,
    List.forall_mem_cons, List.not_mem_nil, FormatField.fits_cell, FormatField.fits_mk,
    sizeofMacHdr, Nat.reduceAdd, run_reportAt, Bool.and_eq_true, decide_eq_true_eq]
  cases hinit : env.inited with
  | false => simp
  | true =>
    simp only [Bool.not_true, Bool.false_eq_true, if_false, ne_eq, ite_not, ← ite_and]
    congr 1
    simp [and_assoc]

/-- The parser stays in exactly the frames that are whole. -/
theorem monitor_inside_iff_whole (env : BkAwareEnv) (data : Mem UInt8) (len : Nat) :
    MonitorInside env data len ↔ FrameWhole env data len := by
  constructor
  · rintro ⟨hreads, hpayload⟩
    refine ⟨inside_monitorReading.mp (Reading.inside_iff.mpr hreads), fun hfields hreported => ?_⟩
    have hmem : (⟨10, 39, ((data 33).toNat : Int) - 5⟩ : Report) ∈
        (monitorReading env).run data := by
      rw [run_monitorReading, if_pos ⟨hfields, hreported⟩]
      exact List.mem_singleton_self _
    obtain ⟨hnonneg, hinside⟩ := hpayload _ hmem
    dsimp only at hnonneg hinside
    omega
  · rintro ⟨hfields, hpayload⟩
    refine ⟨Reading.inside_iff.mp (inside_monitorReading.mpr hfields), fun r hr => ?_⟩
    rw [run_monitorReading] at hr
    split at hr
    next hall =>
      obtain ⟨hmin, hmax⟩ := hpayload hall.1 hall.2
      rw [List.mem_singleton.mp hr]
      dsimp only
      omega
    next => exact absurd hr List.not_mem_nil

/-- A frame as `bk_aware_send` makes them is whole for every station. -/
theorem actionFrame_whole {hdr : MacHdr} {oui : Oui} {randomValue : UInt32} {body : List UInt8}
    (hbody : body.length ≤ bkAwareMaxDataLen)
    (h : data.Has 0 (actionFrame hdr oui randomValue body)) :
    FrameWhole env data (actionFrame hdr oui randomValue body).length := by
  have hbound : body.length ≤ 250 := hbody
  simp only [actionFrame, Mem.has_append, Mem.has_singleton, List.length_append,
    length_macHdr_bytes, List.length_singleton, Vector.length_toList, length_le32, Nat.zero_add,
    Nat.reduceAdd, and_assoc] at h
  have huser : (data 33).toNat = 5 + body.length := by
    rw [h.2.2.2.2.2.1, UInt8.toNat_ofNat']
    omega
  rw [length_actionFrame]
  refine ⟨FormatField.whole_of_held fun f hf => ?_, fun _ _ => ?_⟩
  · have hend : ∀ f ∈ awareFields env, f.Held 39 := by
      simp [awareFields]
    exact Nat.le_trans (hend f hf) (Nat.le_add_right ..)
  · omega

/-- Whatever `bk_aware_send` puts on the air is whole where it arrives. -/
theorem bkAwareSend_whole {station : BkAwareEnv} {frame : Option (Mem UInt8)} {randomValue : UInt32}
    {peer : Option EtherAddr} {src : Option (List UInt8)} {sent : List UInt8}
    (hsent : sent ∈ (bkAwareSend station frame randomValue peer src).2) (h : data.Has 0 sent) :
    FrameWhole env data sent.length := by
  obtain ⟨dest, body, -, -, hbody, -, rfl⟩ := mem_bkAwareSend hsent
  exact actionFrame_whole hbody h

theorem Report.call_congr {data' : Mem UInt8} {r : Report} (hdata : ∀ k < len, data' k = data k)
    (hmac : r.macAddr + 6 ≤ len) (hpayload : r.data + r.dataLen.toNat ≤ len) :
    r.call data' = r.call data := by
  have haddr : vectorAt 6 data' r.macAddr = vectorAt 6 data r.macAddr :=
    Mem.block_congr fun k _ hk => hdata k (Nat.lt_of_lt_of_le hk hmac)
  have hbytes : data'.read r.data r.dataLen.toNat = data.read r.data r.dataLen.toNat :=
    Mem.read_congr fun k _ hk => hdata k (Nat.lt_of_lt_of_le hk hpayload)
  rw [Report.call, Report.call, haddr, hbytes]

/-- What lies behind a whole frame has no part in what the callback is given. -/
theorem FrameWhole.same {data' : Mem UInt8} (h : FrameWhole env data len)
    (hdata : ∀ k < len, data' k = data k) :
    bkAwareMonitorCb env data' = bkAwareMonitorCb env data := by
  obtain ⟨-, hrun⟩ := (inside_monitorReading.mpr h.fields).congr hdata
  rw [bkAwareMonitorCb_eq_run, bkAwareMonitorCb_eq_run, hrun, run_monitorReading]
  split
  next hall =>
    obtain ⟨hmin, hmax⟩ := h.payload hall.1 hall.2
    rw [List.map_singleton, List.map_singleton, Report.call_congr hdata]
    · dsimp only
      omega
    · dsimp only
      omega
  next => rfl

/-- A group frame with the length byte 0. -/
def lengthless : List UInt8 :=
  (actionFrame { sentHdr sender receiver.localAddr with addr3 := #v[1, 0, 0, 0, 0, 0] } sender.oui
    0 []).set 33 0

/-- The parser compares three bytes behind the 25th, the last of the first frame, and it gives out
the 39 bytes of the second as one with a payload of -5. -/
theorem monitor_leaves_frame :
    ¬ MonitorInside receiver (fun k => lengthless.getD k 0) 25 ∧
      ¬ MonitorInside receiver (fun k => lengthless.getD k 0) lengthless.length := by
  constructor
  · intro h
    exact absurd (h.reads (25, 3) (by decide)) (by decide)
  · intro h
    have hmem : (⟨10, 39, -5⟩ : Report) ∈
        (monitorReading receiver).run fun k => lengthless.getD k 0 := by decide
    exact absurd (h.payload _ hmem).1 (by decide)

end Bounds

end BdkRtt.Wlan
