import BdkRtt.Dhcp.Server
import Mathlib.Data.List.Nodup
import Mathlib.Tactic.IntervalCases

namespace BdkRtt.Dhcp

section ByteOrder

/-- The bytes change places, and the bits keep theirs in them. -/
theorem getLsbD_htonl (x : UInt32) {i : Nat} (hi : i < 32) :
    (htonl x).toBitVec.getLsbD i = x.toBitVec.getLsbD (8 * (3 - i / 8) + i % 8) := by
  simp only [htonl, UInt32.toBitVec_or, UInt32.toBitVec_and, UInt32.toBitVec_shiftLeft,
    UInt32.toBitVec_shiftRight]
  interval_cases i <;> simp [UInt32.toBitVec_ofNat]

theorem htonl_htonl (x : UInt32) : htonl (htonl x) = x := by
  apply UInt32.eq_of_toBitVec_eq
  apply BitVec.eq_of_getLsbD_eq
  intro i hi
  have hj : 8 * (3 - i / 8) + i % 8 < 32 := by omega
  rw [getLsbD_htonl _ hi, getLsbD_htonl _ hj]
  congr 1
  omega

@[simp] theorem htonl_ntohl (x : UInt32) : htonl (ntohl x) = x := htonl_htonl x

theorem htonl_eq_zero {x : UInt32} : htonl x = 0 ↔ x = 0 := by
  constructor
  · intro h
    rw [← htonl_htonl x, h]
    rfl
  · rintro rfl
    rfl

end ByteOrder

def DhcpServerData.clients (dhcps : DhcpServerData) : List ClientMacCache :=
  dhcps.ipMacMapping.clients

def DhcpServerData.Records (dhcps : DhcpServerData) (chaddr : Mac) : Prop :=
  ∃ e ∈ dhcps.clients, e.clientMac = chaddr

instance (dhcps : DhcpServerData) (chaddr : Mac) : Decidable (dhcps.Records chaddr) :=
  inferInstanceAs (Decidable (∃ e ∈ dhcps.clients, _))

/-- No client and no address is recorded twice, and no entry looks like a miss. -/
structure DhcpServerData.Wf (dhcps : DhcpServerData) : Prop where
  macs : (dhcps.clients.map (·.clientMac)).Nodup
  ips : (dhcps.clients.map (·.clientIp)).Nodup
  found : ∀ e ∈ dhcps.clients, e.clientIp ≠ clientIpNotFound

/-- Entries are only ever added, for the client whose message it is, and the subnet stays. -/
structure DhcpServerData.Before (dhcps : DhcpServerData) (c : Mac)
    (dhcps' : DhcpServerData) : Prop where
  clients : dhcps.clients <+: dhcps'.clients
  own : dhcps'.clients = dhcps.clients ∨ dhcps'.Records c
  myIp : dhcps'.myIp = dhcps.myIp
  netmask : dhcps'.netmask = dhcps.netmask

theorem DhcpServerData.Before.of_clients {dhcps dhcps' : DhcpServerData} {c : Mac}
    (h : dhcps'.clients = dhcps.clients) (hmy : dhcps'.myIp = dhcps.myIp)
    (hmask : dhcps'.netmask = dhcps.netmask) : dhcps.Before c dhcps' :=
  ⟨h ▸ List.prefix_refl _, .inl h, hmy, hmask⟩

theorem DhcpServerData.Before.refl (dhcps : DhcpServerData) (c : Mac) : dhcps.Before c dhcps :=
  .of_clients rfl rfl rfl

theorem DhcpServerData.Before.trans {d₁ d₂ d₃ : DhcpServerData} {c : Mac}
    (h : d₁.Before c d₂) (h' : d₂.Before c d₃) : d₁.Before c d₃ where
  clients := h.clients.trans h'.clients
  own := by
    rcases h'.own with he | hr
    · rw [he, DhcpServerData.Records, he]
      exact h.own
    · exact .inr hr
  myIp := h'.myIp.trans h.myIp
  netmask := h'.netmask.trans h.netmask

section Lookup

variable {dhcps : DhcpServerData} {c : Mac} {ip : UInt32}

theorem clients_length_le (dhcps : DhcpServerData) : dhcps.clients.length ≤ macIpCacheSize :=
  dhcps.ipMacMapping.bounded

theorem acLookupMac_of_mem (hw : dhcps.Wf) (he : ⟨c, ip⟩ ∈ dhcps.clients) :
    acLookupMac dhcps c = ip := by
  have hfind : (dhcps.clients.find? fun e => e.clientMac = c) = some ⟨c, ip⟩ := by
    obtain ⟨e, hfind⟩ := Option.isSome_iff_exists.mp
      (List.find?_isSome (p := fun e : ClientMacCache => e.clientMac = c)
        |>.mpr ⟨_, he, by simp⟩)
    have hmac : e.clientMac = c := by simpa using List.find?_some hfind
    rw [hfind]
    apply congrArg
    exact List.inj_on_of_nodup_map hw.macs (List.mem_of_find?_eq_some hfind) he hmac
  unfold acLookupMac
  rw [show dhcps.ipMacMapping.clients = dhcps.clients from rfl, hfind]

theorem acLookupMac_of_not_records (h : ¬ dhcps.Records c) :
    acLookupMac dhcps c = clientIpNotFound := by
  have hfind : (dhcps.clients.find? fun e => e.clientMac = c) = none := by
    rw [List.find?_eq_none]
    exact fun e he hc => h ⟨e, he, by simpa using hc⟩
  unfold acLookupMac
  rw [show dhcps.ipMacMapping.clients = dhcps.clients from rfl, hfind]

theorem DhcpServerData.Records.entry (h : dhcps.Records c) : ∃ ip, ⟨c, ip⟩ ∈ dhcps.clients := by
  obtain ⟨⟨mac, ip⟩, he, rfl⟩ := h
  exact ⟨ip, he⟩

theorem acLookupMac_eq_notFound (hw : dhcps.Wf) :
    acLookupMac dhcps c = clientIpNotFound ↔ ¬ dhcps.Records c := by
  constructor
  · intro h hr
    obtain ⟨ip, he⟩ := DhcpServerData.Records.entry hr
    rw [acLookupMac_of_mem hw he] at h
    exact hw.found _ he h
  · exact acLookupMac_of_not_records

theorem mem_of_acLookupMac (hw : dhcps.Wf) (h : acLookupMac dhcps c ≠ clientIpNotFound) :
    ⟨c, acLookupMac dhcps c⟩ ∈ dhcps.clients := by
  have hr : dhcps.Records c := not_not.mp fun hn => h (acLookupMac_of_not_records hn)
  obtain ⟨ip, he⟩ := hr.entry
  rwa [acLookupMac_of_mem hw he]

theorem acLookupIp_isSome : (acLookupIp dhcps ip).isSome = true ↔
    ∃ e ∈ dhcps.clients, e.clientIp = ip := by
  simp only [acLookupIp, Option.isSome_map, List.find?_isSome, decide_eq_true_eq]
  rfl

/-- What the address check promises. -/
theorem acValidIp_spec (h : acValidIp dhcps ip = true) :
    ip ≠ ntohl (dhcps.myIp &&& dhcps.netmask) ∧
      ∀ e ∈ dhcps.clients, e.clientIp ≠ htonl ip := by
  unfold acValidIp at h
  split at h
  next => cases h
  next hn =>
    split at h
    next => cases h
    next hl =>
      rw [acLookupIp_isSome] at hl
      exact ⟨fun he => hn (.inr (.inl he)), fun e he hip => hl ⟨e, he, hip⟩⟩

end Lookup

section Giving

variable {dhcps dhcps' : DhcpServerData} {c c' : Mac} {ip ip' : UInt32}

/-- The client may use the address: it is recorded for it, or the cache is full and knows
neither. -/
def DhcpServerData.Gives (dhcps : DhcpServerData) (c : Mac) (ip : UInt32) : Prop :=
  ⟨c, ip⟩ ∈ dhcps.clients ∨
    dhcps.clients.length = macIpCacheSize ∧ ¬ dhcps.Records c ∧
      ∀ e ∈ dhcps.clients, e.clientIp ≠ ip

theorem DhcpServerData.Gives.later (h : dhcps.Gives c ip) (hb : dhcps.Before c' dhcps') :
    dhcps'.Gives c ip := by
  rcases h with h | ⟨hfull, hc, hip⟩
  · exact .inl (hb.clients.subset h)
  · have hsame : dhcps'.clients = dhcps.clients := by
      refine (hb.clients.eq_of_length_le ?_).symm
      rw [hfull]
      exact clients_length_le dhcps'
    refine .inr ⟨hsame ▸ hfull, ?_, hsame ▸ hip⟩
    rwa [DhcpServerData.Records, hsame]

/-- A client on record is given its recorded address only. -/
theorem DhcpServerData.Gives.eq_recorded (hw : dhcps.Wf) (h : dhcps.Gives c ip)
    (hr : dhcps.Records c) :
    acLookupMac dhcps c = ip := by
  rcases h with h | ⟨_, hc, _⟩
  · exact acLookupMac_of_mem hw h
  · exact absurd hr hc

/-- A recorded address is given to the client it is recorded for. -/
theorem DhcpServerData.Gives.eq_owner (hw : dhcps.Wf) (h : dhcps.Gives c ip)
    (he : ⟨c', ip⟩ ∈ dhcps.clients) : c = c' := by
  rcases h with h | ⟨_, _, hip⟩
  · have := List.inj_on_of_nodup_map hw.ips h he rfl
    cases this
    rfl
  · exact absurd rfl (hip _ he)

theorem acAdd_before (dhcps : DhcpServerData) (c : Mac) (ip : UInt32) :
    dhcps.Before c (acAdd dhcps c ip).1 := by
  unfold acAdd
  split
  next =>
    exact ⟨List.prefix_append _ _,
      .inr ⟨_, List.mem_append_right _ (List.mem_singleton.mpr rfl), rfl⟩, rfl, rfl⟩
  next => exact .refl _ _

@[simp] theorem acAdd_clientIp (dhcps : DhcpServerData) (c : Mac) (ip : UInt32) :
    (acAdd dhcps c ip).1.clientIp = dhcps.clientIp := by
  unfold acAdd
  split <;> rfl

theorem length_of_full (h : ¬ acNotFull dhcps = true) :
    dhcps.clients.length = macIpCacheSize := by
  rw [acNotFull, decide_eq_true_eq, Nat.not_lt] at h
  exact Nat.le_antisymm (clients_length_le _) h

theorem acAdd_wf (hw : dhcps.Wf) (hc : ¬ dhcps.Records c) (h0 : ip ≠ clientIpNotFound)
    (hip : ∀ e ∈ dhcps.clients, e.clientIp ≠ ip) : (acAdd dhcps c ip).1.Wf := by
  unfold acAdd
  split
  next =>
    constructor
    case macs =>
      simp only [DhcpServerData.clients, List.map_append, List.map_singleton]
      refine List.Nodup.append hw.macs (List.nodup_singleton _) ?_
      simpa [DhcpServerData.Records, DhcpServerData.clients] using hc
    case ips =>
      simp only [DhcpServerData.clients, List.map_append, List.map_singleton]
      refine List.Nodup.append hw.ips (List.nodup_singleton _) ?_
      simpa [DhcpServerData.clients] using hip
    case found =>
      intro e he
      rcases List.mem_append.mp he with he | he
      · exact hw.found e he
      · rw [List.mem_singleton.mp he]
        exact h0
  next => exact hw

theorem acAdd_gives (hc : ¬ dhcps.Records c) (hip : ∀ e ∈ dhcps.clients, e.clientIp ≠ ip) :
    (acAdd dhcps c ip).1.Gives c ip := by
  unfold acAdd
  split
  next => exact .inl (List.mem_append_right _ (List.mem_singleton.mpr rfl))
  next h => exact .inr ⟨Nat.le_antisymm (clients_length_le _) (Nat.not_lt.mp h), hc, hip⟩

end Giving

section Search

variable {dhcps : DhcpServerData}

theorem searchIp_spec {fuel : Nat} {ip ip' : UInt32} (h : searchIp dhcps fuel ip = some ip') :
    acValidIp dhcps ip' = true ∧ ∃ x, ip' = succIp dhcps x := by
  induction fuel generalizing ip with
  | zero => cases h
  | succ fuel ih =>
    unfold searchIp at h
    split at h
    next hv =>
      cases h
      exact ⟨hv, ip, rfl⟩
    next => exact ih h

/-- The network address is never valid, so no valid address of the subnet is zero. -/
theorem succIp_ne_zero {x : UInt32} (h : acValidIp dhcps (succIp dhcps x) = true) :
    succIp dhcps x ≠ 0 := by
  intro h0
  have hnet : ntohl (dhcps.myIp &&& dhcps.netmask) = 0 := (UInt32.or_eq_zero_iff.mp h0).1
  exact (acValidIp_spec h).1 (h0.trans hnet.symm)

theorem clientIp_ne_zero {ip : UInt32}
    (hsub : ip &&& dhcps.netmask = dhcps.myIp &&& dhcps.netmask)
    (h : acValidIp dhcps (ntohl ip) = true) : ip ≠ 0 := by
  rintro rfl
  rw [UInt32.zero_and] at hsub
  exact (acValidIp_spec h).1 (by rw [← hsub])

theorem nextYiaddr_spec {r : DhcpServerData × UInt32} {c : Mac} (hw : dhcps.Wf)
    (h : nextYiaddr dhcps c = some r) :
    r.1.Wf ∧ dhcps.Before c r.1 ∧ r.1.Gives c r.2 := by
  unfold nextYiaddr at h
  simp only at h
  split at h
  next hmac =>
    split at h
    next => cases h
    next ip hs =>
      cases h
      obtain ⟨hv, x, rfl⟩ := searchIp_spec hs
      have hc : ¬ dhcps.Records c := (acLookupMac_eq_notFound hw).mp hmac
      have hip := (acValidIp_spec hv).2
      have h0 : htonl (succIp dhcps x) ≠ clientIpNotFound :=
        fun h => succIp_ne_zero hv (htonl_eq_zero.mp h)
      have hw' : DhcpServerData.Wf { dhcps with currentIp := succIp dhcps x } :=
        ⟨hw.macs, hw.ips, hw.found⟩
      have hb : dhcps.Before c { dhcps with currentIp := succIp dhcps x } :=
        .of_clients rfl rfl rfl
      exact ⟨acAdd_wf hw' hc h0 hip, hb.trans (acAdd_before _ c _), acAdd_gives hc hip⟩
  next hmac =>
    cases h
    exact ⟨hw, .refl _ _, .inl (mem_of_acLookupMac hw hmac)⟩

end Search

end BdkRtt.Dhcp
