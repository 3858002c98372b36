import BdkRtt.Wlan.BkAware

namespace BdkRtt.Wlan

open Lib

section Fields

@[simp] theorem length_macHdr_bytes (hdr : MacHdr) : hdr.bytes.length = 24 := by
  simp [MacHdr.bytes]

theorem vectorAt_of_has {n : Nat} {m : Mem UInt8} {p : Nat} {v : Vector UInt8 n}
    (h : m.Has p v.toList) : vectorAt n m p = v := by
  apply Vector.ext
  intro k hk
  have hget := congrArg (fun xs : List UInt8 => xs[k]?) h
  simpa [Mem.read, vectorAt, hk] using hget

theorem ofLe16_of_has {m : Mem UInt8} {p : Nat} {w : UInt16} (h : m.Has p (le16 w)) :
    ofLe16 (m.read p 2) = w := by
  rw [show m.read p 2 = le16 w from h, ofLe16_le16]

/-- A header is read back from the bytes it was written as. -/
theorem macHdrAt_of_has {m : Mem UInt8} {p : Nat} {hdr : MacHdr} (h : m.Has p hdr.bytes) :
    macHdrAt m p = hdr := by
  simp only [MacHdr.bytes, Mem.has_append, List.length_append, length_le16, Vector.length_toList,
    and_assoc] at h
  obtain ⟨hfctl, hdurid, haddr1, haddr2, haddr3, hseq⟩ := h
  simp only [macHdrAt, ofLe16_of_has hfctl, ofLe16_of_has hdurid, vectorAt_of_has haddr1,
    vectorAt_of_has haddr2, vectorAt_of_has haddr3, ofLe16_of_has hseq]

end Fields

section Wire

variable {hdr : MacHdr} {oui : Oui} {randomValue : UInt32} {body : List UInt8}

/-- The action frame as it is on the air, without the check sequence. -/
def actionFrame (hdr : MacHdr) (oui : Oui) (randomValue : UInt32) (body : List UInt8) :
    List UInt8 :=
  hdr.bytes ++ [wlanActionVendorSpecific] ++ oui.toList ++ le32 randomValue ++
    [wlanEidVendorSpecific] ++ [UInt8.ofNat (3 + 1 + 1 + body.length)] ++ oui.toList ++ [4] ++
    [1] ++ body

theorem length_actionFrame : (actionFrame hdr oui randomValue body).length = 39 + body.length := by
  simp [actionFrame]
  omega

theorem has_body {rx : Mem UInt8} (h : rx.Has 0 (actionFrame hdr oui randomValue body)) :
    rx.Has 39 body := by
  have hbody := (Mem.has_append.mp h).2
  simpa using hbody

/-- The parser reaches the callback exactly on the frames with its own identifier. -/
theorem bkAwareMonitorCb_actionFrame (rcv : BkAwareEnv) {rx : Mem UInt8}
    (h : rx.Has 0 (actionFrame hdr oui randomValue body)) (hfctl : hdr.fctl = macFctrlAction) :
    bkAwareMonitorCb rcv rx =
      if rcv.inited ∧ rcv.oui = oui then
        bkAwareDeliver rcv hdr rx 39 (UInt8.ofNat (5 + body.length))
      else [] := by
  simp only [actionFrame, Mem.has_append, Mem.has_singleton, List.length_append,
    length_macHdr_bytes, List.length_singleton, Vector.length_toList, length_le32, Nat.zero_add,
    Nat.reduceAdd, and_assoc] at h
  obtain ⟨hhdr, hcategory, houi, -, heid, hlen, houi2, htype, -, -⟩ := h
  unfold bkAwareMonitorCb
  simp only [macHdrAt_of_has hhdr, hfctl, sizeofMacHdr, hcategory, vectorAt_of_has houi, heid,
    hlen, vectorAt_of_has houi2, htype, Nat.reduceAdd]
  have hmask : macFctrlAction &&& macFctrlTypesubtypeMask = macFctrlAction := rfl
  cases hinit : rcv.inited with
  | false => simp
  | true =>
    by_cases hmine : rcv.oui = oui
    · simp [hmine, hmask]
    · simp [hmine, Ne.symm hmine, hmask]

end Wire

section Exchange

variable {env rcv : BkAwareEnv} {buf rx : Mem UInt8} {randomValue : UInt32}
  {peerAddr : EtherAddr} {data : List UInt8}

/-- The header of a frame that `env` sends to `peerAddr`. -/
def sentHdr (env : BkAwareEnv) (peerAddr : EtherAddr) : MacHdr where
  fctl := macFctrlAction
  durid := 0
  addr1 := peerAddr
  addr2 := env.localAddr
  addr3 := if isMulticastEtherAddr peerAddr then peerAddr else env.localAddr
  seq := 0

theorem bkAwareConstructFrame_eq (env : BkAwareEnv) (buf : Mem UInt8) (randomValue : UInt32)
    (peerAddr : EtherAddr) (data : List UInt8) :
    ∃ frame, bkAwareConstructFrame env (some buf) randomValue peerAddr data =
        some (frame, 39 + data.length) ∧
      frame.Has 0 (actionFrame (sentHdr env peerAddr) env.oui randomValue data) := by
  have hhdr : Mem.Cursor.Wrote
      ⟨buf.write 0 (sentHdr env peerAddr).bytes, sizeofMacHdr⟩ 0 (sentHdr env peerAddr).bytes :=
    ⟨Mem.has_write_self buf 0 _, by rw [length_macHdr_bytes]; rfl⟩
  have hall := ((((((((hhdr.put [wlanActionVendorSpecific]).put env.oui.toList).put
    (le32 randomValue)).put [wlanEidVendorSpecific]).put
    [UInt8.ofNat (3 + 1 + 1 + data.length)]).put env.oui.toList).put [4]).put [1]).put data
  have hlength : (actionFrame (sentHdr env peerAddr) env.oui randomValue data).length =
      39 + data.length := length_actionFrame
  have hpos := hall.2.trans ((Nat.zero_add _).trans hlength)
  exact ⟨_, congrArg (fun n => some (_, n)) hpos, hall.1⟩

@[simp] theorem bkAwareIsPeerExist_iff : bkAwareIsPeerExist env peerAddr ↔ peerAddr ∈ env.list := by
  simp [bkAwareIsPeerExist]

/-- Who gets a frame that `env` sends to `peerAddr`. -/
def Hears (rcv env : BkAwareEnv) (peerAddr : EtherAddr) : Prop :=
  (env.localAddr ∈ rcv.list ∧ peerAddr = rcv.localAddr) ∨ isMulticastEtherAddr peerAddr ∨
    isMulticastEtherAddr env.localAddr

instance : Decidable (Hears rcv env peerAddr) := inferInstanceAs (Decidable (_ ∨ _))

theorem bkAwareDeliver_sent (hlen : data.length ≤ bkAwareMaxDataLen)
    (hbody : rx.Has 39 data) :
    bkAwareDeliver rcv (sentHdr env peerAddr) rx 39 (UInt8.ofNat (5 + data.length)) =
      if rcv.recvCb ∧ Hears rcv env peerAddr then [⟨env.localAddr, data, data.length⟩] else [] := by
  have huser : (UInt8.ofNat (5 + data.length)).toNat = 5 + data.length := by
    rw [UInt8.toNat_ofNat', Nat.mod_eq_of_lt]
    have : data.length ≤ 250 := hlen
    omega
  have hguard : ((bkAwareIsPeerExist rcv (sentHdr env peerAddr).addr2 &&
      (sentHdr env peerAddr).addr1 == rcv.localAddr) ||
      isMulticastEtherAddr (sentHdr env peerAddr).addr3) = decide (Hears rcv env peerAddr) := by
    rw [Bool.eq_iff_iff]
    cases hm : isMulticastEtherAddr peerAddr <;> simp [sentHdr, Hears, hm]
  rw [bkAwareDeliver, hguard, huser, Nat.add_sub_cancel_left,
    show rx.read 39 data.length = data from hbody]
  have hint : ((5 + data.length : Nat) : Int) - 5 = data.length := by omega
  rw [hint]
  cases rcv.recvCb <;> simp [sentHdr]

/-- What a station does with a frame sent to `peerAddr`: it calls the callback exactly once, with
the sender's address and the data, when it hears the frame, and not at all otherwise. -/
theorem aware_frame_round_trip (env : BkAwareEnv) (buf : Mem UInt8) (randomValue : UInt32)
    (peerAddr : EtherAddr) (data : List UInt8) (hlen : data.length ≤ bkAwareMaxDataLen) :
    ∃ frame, bkAwareConstructFrame env (some buf) randomValue peerAddr data =
        some (frame, 39 + data.length) ∧
      ∀ (rcv : BkAwareEnv) (rx : Mem UInt8), rx.Has 0 (frame.read 0 (39 + data.length)) →
        bkAwareMonitorCb rcv rx =
          if rcv.inited ∧ rcv.oui = env.oui ∧ rcv.recvCb ∧ Hears rcv env peerAddr then
            [⟨env.localAddr, data, data.length⟩]
          else [] := by
  obtain ⟨frame, hframe, hhas⟩ := bkAwareConstructFrame_eq env buf randomValue peerAddr data
  refine ⟨frame, hframe, fun rcv rx hrx => ?_⟩
  rw [← length_actionFrame, hhas] at hrx
  rw [bkAwareMonitorCb_actionFrame rcv hrx rfl, bkAwareDeliver_sent hlen (has_body hrx), ← ite_and]
  simp only [and_assoc]

/-- Two stations, the second with the first as its peer. -/
def sender : BkAwareEnv where
  list := [#v[2, 0, 0, 0, 0, 2]]
  localAddr := #v[2, 0, 0, 0, 0, 1]
  oui := #v[0xC8, 0x47, 0x8C]
  inited := true
  recvCb := false

def receiver : BkAwareEnv :=
  { sender with list := [sender.localAddr], localAddr := #v[2, 0, 0, 0, 0, 2], recvCb := true }

theorem aware_frame_round_trip_peer :
    ∃ frame, bkAwareConstructFrame sender (some fun _ => 0) 7 receiver.localAddr [10, 20, 30] =
        some (frame, 42) ∧
      bkAwareMonitorCb receiver frame = [⟨sender.localAddr, [10, 20, 30], 3⟩] := by
  obtain ⟨frame, hframe, hcall⟩ := aware_frame_round_trip sender (fun _ => 0) 7
    receiver.localAddr [10, 20, 30] (by decide)
  refine ⟨frame, hframe, ?_⟩
  rw [hcall receiver frame (by rw [Mem.Has, Mem.length_read])]
  decide

/-- The length is 39 with no data, and a station whose own address has the group bit is heard by
stations that do not have it as a peer. -/
theorem aware_frame_length_and_group_sender :
    let env := { sender with localAddr := #v[3, 0, 0, 0, 0, 1] }
    let rcv := { receiver with list := [] }
    ∃ frame n, bkAwareConstructFrame env (some fun _ => 0) 0 #v[2, 0, 0, 0, 0, 9] [] =
        some (frame, n) ∧
      n ≠ 40 ∧ isMulticastEtherAddr #v[2, 0, 0, 0, 0, 9] = false ∧
      bkAwareIsPeerExist rcv env.localAddr = false ∧ bkAwareMonitorCb rcv frame ≠ [] :=
  ⟨_, _, rfl, by decide, by decide, by decide, by decide⟩

/-- Everything `bk_aware_send` puts on the air is an action frame to a known peer, with data that
fits. -/
theorem mem_bkAwareSend {frame : Option (Mem UInt8)} {peer : Option EtherAddr}
    {src : Option (List UInt8)} {sent : List UInt8}
    (h : sent ∈ (bkAwareSend env frame randomValue peer src).2) :
    ∃ dest body, peer = some dest ∧ src = some body ∧ body.length ≤ bkAwareMaxDataLen ∧
      dest ∈ env.list ∧ sent = actionFrame (sentHdr env dest) env.oui randomValue body := by
  unfold bkAwareSend at h
  split at h
  · cases h
  split at h
  · cases h
  next body =>
    split at h
    · cases h
    next hlen =>
      split at h
      · cases h
      next dest =>
        split at h
        next hpeer =>
          cases frame with
          | none => cases h
          | some buf =>
            obtain ⟨out, hout, hhas⟩ := bkAwareConstructFrame_eq env buf randomValue dest body
            rw [hout] at h
            obtain rfl := List.mem_singleton.mp h
            refine ⟨dest, body, rfl, rfl, by omega, bkAwareIsPeerExist_iff.mp hpeer, ?_⟩
            rw [← length_actionFrame]
            exact hhas
        · cases h

end Exchange

end BdkRtt.Wlan
