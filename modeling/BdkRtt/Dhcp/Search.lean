import BdkRtt.Dhcp.Leases
import Mathlib.Logic.Function.Iterate

/-! The search of `next_yiaddr` for an address to offer. -/

namespace BdkRtt.Dhcp

open Lib

section ByteOrder

theorem htonl_and (x y : UInt32) : htonl (x &&& y) = htonl x &&& htonl y := by
  apply UInt32.eq_of_toBitVec_eq
  apply BitVec.eq_of_getLsbD_eq
  intro i hi
  simp only [UInt32.toBitVec_and, BitVec.getLsbD_and, getLsbD_htonl _ hi]

theorem htonl_not (x : UInt32) : htonl (~~~x) = ~~~htonl x := by
  apply UInt32.eq_of_toBitVec_eq
  apply BitVec.eq_of_getLsbD_eq
  intro i hi
  have hj : 8 * (3 - i / 8) + i % 8 < 32 := by omega
  simp only [UInt32.toBitVec_not, BitVec.getLsbD_not, getLsbD_htonl _ hi, hi, hj]

@[simp] theorem ntohl_htonl (x : UInt32) : ntohl (htonl x) = x := htonl_htonl x

theorem ntohl_inj {x y : UInt32} : ntohl x = ntohl y ↔ x = y := by
  refine ⟨fun h => ?_, congrArg ntohl⟩
  rw [← htonl_ntohl x, h, htonl_ntohl]

end ByteOrder

section Masks

variable (x y m : UInt32)

theorem or_and (z : UInt32) : (x ||| y) &&& z = x &&& z ||| y &&& z :=
  UInt32.toBitVec_inj.mp BitVec.and_or_distrib_right

theorem and_mask_or_and_not : x &&& m ||| x &&& ~~~m = x := by
  apply UInt32.eq_of_toBitVec_eq
  apply BitVec.eq_of_getLsbD_eq
  intro i hi
  simp only [UInt32.toBitVec_or, UInt32.toBitVec_and, UInt32.toBitVec_not, BitVec.getLsbD_or,
    BitVec.getLsbD_and, BitVec.getLsbD_not, hi, decide_true, Bool.true_and]
  cases x.toBitVec.getLsbD i <;> cases m.toBitVec.getLsbD i <;> rfl

theorem and_mask_and_not : x &&& m &&& ~~~m = 0 := by
  rw [UInt32.and_assoc, UInt32.and_not_self, UInt32.and_zero]

theorem and_not_and_mask : x &&& ~~~m &&& m = 0 := by
  rw [UInt32.and_assoc, UInt32.not_and_self, UInt32.and_zero]

theorem and_mask_and_mask : x &&& m &&& m = x &&& m := by
  rw [UInt32.and_assoc, UInt32.and_self]

variable {x y m}

/-- Under a mask of the last bits, words are counted modulo its size. -/
theorem and_eq_and_iff {k : Nat} (hm : m.toNat = 2 ^ k - 1) :
    x &&& m = y &&& m ↔ x.toNat % 2 ^ k = y.toNat % 2 ^ k := by
  rw [← UInt32.toNat_inj, UInt32.toNat_and, UInt32.toNat_and, hm, Nat.and_two_pow_sub_one_eq_mod,
    Nat.and_two_pow_sub_one_eq_mod]

theorem toNat_add_mod {k : Nat} (hk : k ≤ 32) : (x + y).toNat % 2 ^ k =
    (x.toNat + y.toNat) % 2 ^ k := by
  rw [UInt32.toNat_add, Nat.mod_mod_of_dvd _ (Nat.pow_dvd_pow 2 hk)]

theorem add_and_congr {k : Nat} (hk : k ≤ 32) (hm : m.toNat = 2 ^ k - 1) (h : x &&& m = y &&& m)
    (z : UInt32) : (x + z) &&& m = (y + z) &&& m := by
  rw [and_eq_and_iff hm] at h ⊢
  rw [toNat_add_mod hk, toNat_add_mod hk, Nat.add_mod, h, ← Nat.add_mod]

end Masks

section Subnet

variable (dhcps : DhcpServerData)

/-- The host part of an address is in its last bits. -/
def DhcpServerData.Contiguous : Prop :=
  ∃ k, k ≤ 32 ∧ (ntohl (~~~dhcps.netmask)).toNat = 2 ^ k - 1

/-- The address, in network order, is in the subnet. -/
def DhcpServerData.InSubnet (ip : UInt32) : Prop :=
  ip &&& dhcps.netmask = dhcps.myIp &&& dhcps.netmask

instance (ip : UInt32) : Decidable (dhcps.InSubnet ip) := inferInstanceAs (Decidable (_ = _))

/-- There is an address left in the subnet. -/
def DhcpServerData.HasFree : Prop :=
  ∃ ip, dhcps.InSubnet ip ∧ acValidIp dhcps (ntohl ip) = true

variable {dhcps}

/-- The network and the host part, in host order. -/
theorem ntohl_mask (dhcps : DhcpServerData) : ntohl (~~~dhcps.netmask) = ~~~ntohl dhcps.netmask :=
  htonl_not ..

theorem ntohl_net (dhcps : DhcpServerData) : ntohl (dhcps.myIp &&& dhcps.netmask) =
    ntohl dhcps.myIp &&& ntohl dhcps.netmask :=
  htonl_and ..

theorem inSubnet_iff {ip : UInt32} : dhcps.InSubnet ip ↔
    ntohl ip &&& ntohl dhcps.netmask = ntohl (dhcps.myIp &&& dhcps.netmask) := by
  rw [DhcpServerData.InSubnet, ← ntohl_inj]
  exact Eq.congr_left (htonl_and ..)

/-- `succIp` goes to the next host of the subnet. -/
theorem succIp_inSubnet (ip : UInt32) : dhcps.InSubnet (htonl (succIp dhcps ip)) := by
  rw [inSubnet_iff, ntohl_htonl, succIp, ntohl_net, ntohl_mask, or_and, and_mask_and_mask,
    and_not_and_mask, UInt32.or_zero]

theorem succIp_and_host (ip : UInt32) :
    succIp dhcps ip &&& ntohl (~~~dhcps.netmask) = (ip + 1) &&& ntohl (~~~dhcps.netmask) := by
  rw [succIp, ntohl_net, ntohl_mask, or_and, and_mask_and_not, and_mask_and_mask, UInt32.zero_or]

/-- An address of the subnet is the one that its host part leads to. -/
theorem net_or_host {ip : UInt32} (h : dhcps.InSubnet ip) :
    ntohl (dhcps.myIp &&& dhcps.netmask) ||| (ntohl ip &&& ntohl (~~~dhcps.netmask)) =
      ntohl ip := by
  rw [← inSubnet_iff.mp h, ntohl_mask, and_mask_or_and_not]

theorem succIp_congr {x y : UInt32} (hk : dhcps.Contiguous)
    (h : x &&& ntohl (~~~dhcps.netmask) = y &&& ntohl (~~~dhcps.netmask)) :
    succIp dhcps x = succIp dhcps y := by
  obtain ⟨k, hk, hm⟩ := hk
  rw [succIp, succIp, add_and_congr hk hm h]

/-- The search reaches the host after `n + 1` steps that is `n + 1` further on. -/
theorem succIp_iterate (hk : dhcps.Contiguous) (n : Nat) (ip : UInt32) :
    (succIp dhcps)^[n + 1] ip = succIp dhcps (ip + UInt32.ofNat n) := by
  induction n generalizing ip with
  | zero =>
    rw [show UInt32.ofNat 0 = 0 from rfl, UInt32.add_zero]
    rfl
  | succ n ih =>
    rw [Function.iterate_succ_apply, ih]
    apply succIp_congr hk
    obtain ⟨k, hk, hm⟩ := hk
    rw [add_and_congr hk hm (succIp_and_host ip) (UInt32.ofNat n), UInt32.add_assoc,
      UInt32.ofNat_add, UInt32.add_comm 1]
    rfl

end Subnet

section Search

variable {dhcps : DhcpServerData} {c : Mac}

theorem searchIp_isSome {fuel n : Nat} (hn : n < fuel) {ip : UInt32}
    (hv : acValidIp dhcps ((succIp dhcps)^[n + 1] ip) = true) :
    ∃ found, searchIp dhcps fuel ip = some found := by
  induction fuel generalizing n ip with
  | zero => cases hn
  | succ fuel ih =>
    unfold searchIp
    split
    next => exact ⟨_, rfl⟩
    next hnext =>
      cases n with
      | zero => exact absurd hv hnext
      | succ n => exact ih (Nat.lt_of_succ_lt_succ hn) hv

/-- Where no address is left the loop never ends. -/
theorem searchIp_eq_none (h : ¬ dhcps.HasFree) (fuel : Nat) (ip : UInt32) :
    searchIp dhcps fuel ip = none := by
  induction fuel generalizing ip with
  | zero => rfl
  | succ fuel ih =>
    unfold searchIp
    have hv : ¬ acValidIp dhcps (succIp dhcps ip) = true := fun hv =>
      h ⟨_, succIp_inSubnet ip, by rwa [ntohl_htonl]⟩
    rw [if_neg hv]
    exact ih _

/-- Where an address is left the search comes to it before it has gone round. -/
theorem searchIp_complete (hk : dhcps.Contiguous) (h : dhcps.HasFree) (ip : UInt32) :
    ∃ found, searchIp dhcps (2 ^ 32) ip = some found := by
  obtain ⟨free, hsub, hv⟩ := h
  let n := ntohl free - 1 - ip
  have hsum : ip + n = ntohl free - 1 := by
    rw [UInt32.add_comm]
    exact UInt32.sub_add_cancel ..
  refine searchIp_isSome (n := n.toNat) n.toNat_lt ?_
  rw [succIp_iterate hk, UInt32.ofNat_toNat, hsum, succIp, UInt32.sub_add_cancel,
    net_or_host hsub]
  exact hv

theorem nextYiaddr_eq_none (hmac : acLookupMac dhcps c = clientIpNotFound)
    (h : ¬ dhcps.HasFree) : nextYiaddr dhcps c = none := by
  unfold nextYiaddr
  dsimp only
  rw [if_pos hmac, searchIp_eq_none h]

/-- An address that may be offered to the client. -/
def DhcpServerData.Offers (dhcps : DhcpServerData) (c : Mac) (ip : UInt32) : Prop :=
  acLookupMac dhcps c ≠ clientIpNotFound ∧ ip = acLookupMac dhcps c ∨
    dhcps.InSubnet ip ∧ acValidIp dhcps (ntohl ip) = true

/-- `next_yiaddr` returns, with an address that may be offered, exactly when there is one; where
there is none it never does. -/
theorem next_yiaddr_returns (dhcps : DhcpServerData) (hk : dhcps.Contiguous) (c : Mac) :
    ((∃ r, nextYiaddr dhcps c = some r ∧ dhcps.Offers c r.2) ↔
      acLookupMac dhcps c ≠ clientIpNotFound ∨ dhcps.HasFree) ∧
    (¬ dhcps.HasFree → ∀ fuel, searchIp dhcps fuel dhcps.currentIp = none) := by
  refine ⟨⟨fun ⟨r, _, hoff⟩ => ?_, fun h => ?_⟩, fun h fuel => searchIp_eq_none h fuel _⟩
  · rcases hoff with ⟨hmac, -⟩ | ⟨hsub, hv⟩
    · exact .inl hmac
    · exact .inr ⟨r.2, hsub, hv⟩
  · unfold nextYiaddr
    dsimp only
    by_cases hmac : acLookupMac dhcps c = clientIpNotFound
    · obtain ⟨found, hfound⟩ :=
        searchIp_complete hk (h.resolve_left fun hne => hne hmac) dhcps.currentIp
      obtain ⟨hv, x, rfl⟩ := searchIp_spec hfound
      rw [if_pos hmac, hfound]
      exact ⟨_, rfl, .inr ⟨succIp_inSubnet x, by rwa [ntohl_htonl]⟩⟩
    · rw [if_neg hmac]
      exact ⟨_, rfl, .inl ⟨hmac, rfl⟩⟩

theorem next_yiaddr_returns_home : homeServer.Contiguous ∧
    ∃ r, nextYiaddr homeServer ⟨2, 0, 0, 0, 0, 5⟩ = some r ∧
      homeServer.Offers ⟨2, 0, 0, 0, 0, 5⟩ r.2 := by
  have hk : homeServer.Contiguous := ⟨8, by decide, by decide⟩
  have hfree : homeServer.HasFree := ⟨0x0700a8c0, by decide, by decide⟩
  exact ⟨hk, (next_yiaddr_returns homeServer hk _).1.mpr (.inr hfree)⟩

/-- The server at 192.168.0.1 in a subnet of two addresses. -/
def pairServer : DhcpServerData := dhcpServerInit 0x0100a8c0 0xfcffffff 0x0100a8c0 3600 false

/-- The same server after a client has been given the other address. -/
def fullPair : DhcpServerData :=
  { (acAdd pairServer ⟨1, 0, 0, 0, 0, 0⟩ 0x0200a8c0).1 with clientIp := 0x0200a8c0 }

theorem fullPair_full : ¬ fullPair.HasFree := by
  rintro ⟨ip, hsub, hv⟩
  have hcases : ∀ y : UInt32, y &&& 3 = 0 ∨ y &&& 3 = 1 ∨ y &&& 3 = 2 ∨ y &&& 3 = 3 := by
    intro y
    simp only [← UInt32.toNat_inj, UInt32.toNat_and]
    have hlt : y.toNat &&& 3 < 2 ^ 2 := Nat.and_lt_two_pow _ (by decide)
    change y.toNat &&& 3 = 0 ∨ y.toNat &&& 3 = 1 ∨ y.toNat &&& 3 = 2 ∨ y.toNat &&& 3 = 3
    omega
  have hip : ntohl (fullPair.myIp &&& fullPair.netmask) ||| (ntohl ip &&& 3) = ntohl ip :=
    net_or_host hsub
  rw [← hip] at hv
  rcases hcases (ntohl ip) with h | h | h | h
  all_goals
    rw [h] at hv
    exact absurd hv (by decide)

theorem next_yiaddr_spins : ¬ ∀ (myIp netmask routerIp addressTimeout : UInt32) (nackDns : Bool)
    (h : Machine.History Message (Int × Option Response)) (dhcps : DhcpServerData),
    (dhcpServer (dhcpServerInit myIp netmask routerIp addressTimeout nackDns)).Reaches h dhcps →
    dhcps.Contiguous → ∀ c, ∃ r, nextYiaddr dhcps c = some r ∧ dhcps.Offers c r.2 := by
  intro hall
  have hrun : ∃ h, (dhcpServer pairServer).exec [request 1 2] = some (h, fullPair) := ⟨_, rfl⟩
  obtain ⟨h, hx⟩ := hrun
  obtain ⟨r, hr, -⟩ := hall _ _ _ _ _ h fullPair (Machine.reaches_of_exec hx)
    ⟨2, by decide, by decide⟩ ⟨2, 0, 0, 0, 0, 0⟩
  rw [nextYiaddr_eq_none (by decide) fullPair_full] at hr
  cases hr

end Search

end BdkRtt.Dhcp
