import BdkRtt.Dhcp.ServerLaws

namespace BdkRtt.Dhcp

open Lib

/-- The branches of the address check that decide `got_ip`. -/
def Walk.assessed (chaddr : Mac) (w : Walk) : Bool :=
  w.dhcps.clientIp &&& w.dhcps.netmask = w.dhcps.myIp &&& w.dhcps.netmask ∧
    (acLookupMac w.dhcps chaddr ≠ clientIpNotFound ∨
      acValidIp w.dhcps (ntohl w.dhcps.clientIp) = true)

/-- No option of the message names an address that leaves the `got_ip` of an earlier one
standing. -/
def walkAssesses (m : Message) : Nat → (off len : Nat) → Walk → Bool
  | 0, _, _, _ => true
  | fuel + 1, off, len, w =>
    if 0 < len ∧ m.data off ≠ 0xff then
      let consumed := sizeofBootpOption + (m.data (off + 1)).toNat
      ((nameOption m off w).gotIp = false ∨ (nameOption m off w).assessed m.chaddr) &&
        walkAssesses m fuel (off + consumed) (len - consumed) (walkOption m off w)
    else true

def Assesses (dhcps : DhcpServerData) (m : Message) : Prop :=
  m.accepted = true → walkAssesses m (m.len - sizeofBootpHeader) sizeofBootpHeader
    (m.len - sizeofBootpHeader) { dhcps := dhcps } = true

instance (dhcps : DhcpServerData) (m : Message) : Decidable (Assesses dhcps m) :=
  inferInstanceAs (Decidable (_ → _))

section Walking

variable {m : Message} {dhcps : DhcpServerData} {c : Mac} {w : Walk}

/-- What holds of the server and the locals between two options. -/
structure Walk.Ok (dhcps : DhcpServerData) (c : Mac) (w : Walk) : Prop where
  wf : w.dhcps.Wf
  before : dhcps.Before c w.dhcps
  named : w.gotIp = true → w.gotClientIp = true
  gives : w.gotIp = true → w.dhcps.Gives c w.dhcps.clientIp
  acks : w.responseType = some .ack → w.gotIp = true ∧ w.needIp = true

/-- Naming an address touches neither the entries nor `got_ip`. -/
structure Walk.Names (c : Mac) (w w' : Walk) : Prop where
  wf : w.dhcps.Wf → w'.dhcps.Wf
  before : w.dhcps.Before c w'.dhcps
  gotIp : w'.gotIp = w.gotIp
  gotClientIp : w.gotClientIp = true → w'.gotClientIp = true
  needIp : w.needIp = true → w'.needIp = true
  type : w'.responseType = some .ack → w.responseType = some .ack

theorem Walk.Names.refl (c : Mac) (w : Walk) : w.Names c w :=
  ⟨id, .refl _ _, rfl, id, id, id⟩

theorem Walk.Names.trans {w₁ w₂ w₃ : Walk} (h : w₁.Names c w₂) (h' : w₂.Names c w₃) :
    w₁.Names c w₃ where
  wf := h'.wf ∘ h.wf
  before := h.before.trans h'.before
  gotIp := h'.gotIp.trans h.gotIp
  gotClientIp := h'.gotClientIp ∘ h.gotClientIp
  needIp := h'.needIp ∘ h.needIp
  type := h.type ∘ h'.type

theorem messageOption_names (m : Message) (off : Nat) (w : Walk) :
    w.Names m.chaddr (messageOption m off w) := by
  unfold messageOption
  split
  next =>
    split
    next => exact ⟨id, .refl _ _, rfl, id, id, nofun⟩
    next =>
      split
      next =>
        split
        next =>
          exact ⟨fun h => ⟨h.macs, h.ips, h.found⟩, .of_clients rfl rfl rfl, rfl,
            fun _ => rfl, fun _ => rfl, id⟩
        next => exact ⟨id, .refl _ _, rfl, id, fun _ => rfl, id⟩
      next => exact .refl _ w
  next => exact .refl _ w

theorem requestedIpOption_names (m : Message) (off : Nat) (w : Walk) :
    w.Names m.chaddr (requestedIpOption m off w) := by
  unfold requestedIpOption
  split
  next =>
    exact ⟨fun h => ⟨h.macs, h.ips, h.found⟩, .of_clients rfl rfl rfl, rfl,
      fun _ => rfl, id, id⟩
  next => exact .refl _ w

theorem nameOption_names (m : Message) (off : Nat) (w : Walk) :
    w.Names m.chaddr (nameOption m off w) :=
  (messageOption_names m off w).trans (requestedIpOption_names m off _)

/-- The state in which the address check finds the walk. -/
structure Walk.Named (dhcps : DhcpServerData) (c : Mac) (w : Walk) : Prop where
  wf : w.dhcps.Wf
  before : dhcps.Before c w.dhcps
  named : w.gotIp = true → w.gotClientIp = true

theorem Walk.assessed_iff : w.assessed c = true ↔
    w.dhcps.clientIp &&& w.dhcps.netmask = w.dhcps.myIp &&& w.dhcps.netmask ∧
      (acLookupMac w.dhcps c ≠ clientIpNotFound ∨
        acValidIp w.dhcps (ntohl w.dhcps.clientIp) = true) :=
  decide_eq_true_iff

/-- Where the check decides nothing, `got_ip` was not set before either. -/
theorem gotIp_of_unassessed {P : Prop} (ha : w.gotIp = false ∨ w.assessed c = true)
    (hn : ¬ w.assessed c = true) (hg : w.gotIp = true) : P := by
  rcases ha with ha | ha
  · rw [ha] at hg
    cases hg
  · exact absurd ha hn

/-- The address check grants only addresses the client may use, unless it leaves an
earlier verdict standing. -/
theorem checkClientIp_gives (h : w.Named dhcps c) (ha : w.gotIp = false ∨ w.assessed c = true) :
    (checkClientIp c w).dhcps.Wf ∧ dhcps.Before c (checkClientIp c w).dhcps ∧
      ((checkClientIp c w).gotIp = true → (checkClientIp c w).gotClientIp = true ∧
        (checkClientIp c w).dhcps.Gives c (checkClientIp c w).dhcps.clientIp) := by
  unfold checkClientIp
  simp only
  split
  next hn =>
    refine ⟨h.wf, h.before, fun hg => ?_⟩
    rw [h.named hg] at hn
    cases hn
  next hn =>
    have hnamed : w.gotClientIp = true := by simpa using hn
    split
    next hsub =>
      split
      next hmac =>
        refine ⟨h.wf, h.before, fun hg => ⟨hnamed, .inl ?_⟩⟩
        have heq : acLookupMac w.dhcps c = w.dhcps.clientIp := by simpa using hg
        rw [← heq]
        exact mem_of_acLookupMac h.wf hmac
      next hmac =>
        have hc : ¬ w.dhcps.Records c := (acLookupMac_eq_notFound h.wf).mp (not_not.mp hmac)
        split
        next hv =>
          have hip := (acValidIp_spec hv).2
          rw [htonl_ntohl] at hip
          split
          next =>
            have hb := acAdd_before w.dhcps c w.dhcps.clientIp
            refine ⟨acAdd_wf h.wf hc (clientIp_ne_zero hsub hv) hip, h.before.trans hb,
              fun _ => ⟨hnamed, ?_⟩⟩
            rw [acAdd_clientIp]
            exact acAdd_gives hc hip
          next hfull =>
            exact ⟨h.wf, h.before, fun _ => ⟨hnamed, .inr ⟨length_of_full hfull, hc, hip⟩⟩⟩
        next hv =>
          refine ⟨h.wf, h.before, gotIp_of_unassessed ha ?_⟩
          rw [Walk.assessed_iff]
          exact fun hn => hn.2.elim hmac hv
    next hsub =>
      refine ⟨h.wf, h.before, gotIp_of_unassessed ha ?_⟩
      rw [Walk.assessed_iff]
      exact fun hn => hsub hn.1

theorem checkClientIp_frame (c : Mac) (w : Walk) :
    (checkClientIp c w).responseType = w.responseType ∧
      (checkClientIp c w).needIp = w.needIp := by
  unfold checkClientIp
  simp only
  repeat' split
  all_goals exact ⟨rfl, rfl⟩

theorem walkOption_ok {off : Nat} (h : w.Ok dhcps m.chaddr)
    (ha : (nameOption m off w).gotIp = false ∨ (nameOption m off w).assessed m.chaddr = true) :
    (walkOption m off w).Ok dhcps m.chaddr := by
  have hn := nameOption_names m off w
  have hnamed : (nameOption m off w).Named dhcps m.chaddr :=
    ⟨hn.wf h.wf, h.before.trans hn.before, fun hg =>
      hn.gotClientIp (h.named (hn.gotIp ▸ hg))⟩
  obtain ⟨hwf, hbefore, hgives⟩ := checkClientIp_gives hnamed ha
  obtain ⟨htype, hneed⟩ := checkClientIp_frame m.chaddr (nameOption m off w)
  unfold walkOption settleResponse
  split
  next hset =>
    refine ⟨hwf, hbefore, fun hg => (hgives hg).1, fun hg => (hgives hg).2, fun hack => ?_⟩
    exact ⟨by simpa using hack, hset⟩
  next hunset =>
    refine ⟨hwf, hbefore, fun hg => (hgives hg).1, fun hg => (hgives hg).2, fun hack => ?_⟩
    rw [htype] at hack
    rw [hneed] at hunset
    exact absurd (hn.needIp (h.acks (hn.type hack)).2) hunset

theorem walkOptions_ok {fuel off len : Nat} (h : w.Ok dhcps m.chaddr)
    (ha : walkAssesses m fuel off len w = true) :
    (walkOptions m fuel off len w).Ok dhcps m.chaddr := by
  induction fuel generalizing off len w with
  | zero => exact h
  | succ fuel ih =>
    unfold walkOptions
    unfold walkAssesses at ha
    split
    next hcond =>
      rw [if_pos hcond] at ha
      simp only [Bool.and_eq_true, decide_eq_true_eq] at ha
      exact ih (walkOption_ok h ha.1) ha.2
    next => exact h

end Walking

def Response.isLease (r : Response) : Bool := r.type = .offer ∨ r.type = .ack

theorem makeResponse_gives {d₀ : DhcpServerData} {w : Walk} {c : Mac}
    {type : DhcpMessageType} {r : DhcpServerData × Response} (h : w.Ok d₀ c)
    (ht : w.responseType = some type) (hr : makeResponse w.dhcps c type = some r) :
    r.1.Wf ∧ d₀.Before c r.1 ∧ r.2.chaddr = c ∧
      (r.2.isLease = true → r.1.Gives c r.2.yiaddr) := by
  unfold makeResponse at hr
  simp only at hr
  cases type with
  | ack =>
    cases hr
    exact ⟨h.wf, h.before, rfl, fun _ => h.gives (h.acks ht).1⟩
  | offer =>
    obtain ⟨q, hq, rfl⟩ := Option.map_eq_some_iff.mp hr
    obtain ⟨hwf, hb, hg⟩ := nextYiaddr_spec h.wf hq
    exact ⟨hwf, h.before.trans hb, rfl, fun _ => hg⟩
  | nak =>
    cases hr
    exact ⟨h.wf, h.before, rfl, nofun⟩

/-- One datagram: entries are only added, and an OFFER or ACK carries an address its client
may use from then on. -/
theorem processDhcpMessage_gives {dhcps dhcps' : DhcpServerData} {m : Message} {ret : Int}
    {r : Option Response} (hw : dhcps.Wf) (ha : Assesses dhcps m)
    (h : processDhcpMessage dhcps m = some (dhcps', ret, r)) :
    dhcps'.Wf ∧ dhcps.Before m.chaddr dhcps' ∧
      ∀ q ∈ r, q.chaddr = m.chaddr ∧ (q.isLease = true → dhcps'.Gives m.chaddr q.yiaddr) := by
  unfold processDhcpMessage at h
  split at h
  next hacc =>
    have hok : (optionsOf dhcps m).Ok dhcps m.chaddr :=
      walkOptions_ok ⟨hw, .refl _ _, nofun, nofun, nofun⟩ (ha hacc)
    simp only at h
    split at h
    next hnone =>
      simp only [Option.some.injEq, Prod.mk.injEq] at h
      obtain ⟨rfl, rfl, rfl⟩ := h
      exact ⟨hok.wf, hok.before, nofun⟩
    next type ht =>
      obtain ⟨q, hq, heq⟩ := Option.map_eq_some_iff.mp h
      cases heq
      obtain ⟨hwf, hb, hc, hg⟩ := makeResponse_gives hok ht hq
      refine ⟨hwf, hb, fun p hp => ?_⟩
      cases hp
      exact ⟨hc, hg⟩
  next =>
    cases h
    exact ⟨hw, .refl _ _, nofun⟩

/-- The OFFER and ACK responses of a run. -/
def leases (h : Machine.History Message (Int × Option Response)) : List Response :=
  (h.filterMap fun x => x.2.2).filter Response.isLease

theorem leases_concat (h : Machine.History Message (Int × Option Response)) (m : Message)
    (ret : Int) (r : Option Response) :
    leases (h ++ [(m, ret, r)]) = leases h ++ r.toList.filter Response.isLease := by
  cases r <;> simp [leases]

structure Server.Inv (h : Machine.History Message (Int × Option Response))
    (dhcps : DhcpServerData) : Prop where
  wf : dhcps.Wf
  gives : ∀ r ∈ leases h, dhcps.Gives r.chaddr r.yiaddr

theorem inv_of_reaches {dhcps₀ : DhcpServerData} (h₀ : dhcps₀.ipMacMapping = .empty) {h dhcps}
    (hr : (dhcpServer dhcps₀).ReachesUnder Assesses h dhcps) : Server.Inv h dhcps := by
  refine hr.invariant Server.Inv ?_ ?_
  · have hnil : dhcps₀.clients = [] := by rw [DhcpServerData.clients, h₀]; rfl
    refine ⟨⟨?_, ?_, ?_⟩, fun q hq => absurd hq List.not_mem_nil⟩ <;> simp [dhcpServer, hnil]
  · rintro h s m t ⟨ret, r⟩ hinv ha hstep
    obtain ⟨hwf, hb, hr⟩ := processDhcpMessage_gives hinv.wf ha hstep
    refine ⟨hwf, fun q hq => ?_⟩
    rw [leases_concat, List.mem_append, List.mem_filter, Option.mem_toList] at hq
    rcases hq with hq | ⟨hq, hl⟩
    · exact (hinv.gives q hq).later hb
    · obtain ⟨hc, hg⟩ := hr q hq
      rw [hc]
      exact hg hl

/-- A client answered while the cache has room is recorded, and of two OFFERs or ACKs the
one of which went to a recorded client, equal addresses went to one client and one client
was given equal addresses. -/
theorem leases_exclusive (myIp netmask routerIp addressTimeout : UInt32) (nackDns : Bool)
    {h : Machine.History Message (Int × Option Response)} {dhcps : DhcpServerData}
    (hr : (dhcpServer (dhcpServerInit myIp netmask routerIp addressTimeout nackDns)).ReachesUnder
      Assesses h dhcps) :
    (∀ l ∈ leases h, ∀ l' ∈ leases h, dhcps.Records l.chaddr →
      (l.yiaddr = l'.yiaddr → l.chaddr = l'.chaddr) ∧
      (l.chaddr = l'.chaddr → l.yiaddr = l'.yiaddr)) ∧
    ∀ m dhcps' ret r, Assesses dhcps m →
      processDhcpMessage dhcps m = some (dhcps', ret, some r) → r.isLease = true →
      dhcps.ipMacMapping.clients.length < macIpCacheSize → dhcps'.Records r.chaddr := by
  have hinv := inv_of_reaches rfl hr
  constructor
  · intro l hl l' hl' hrec
    have hmine := (hinv.gives l hl).eq_recorded hinv.wf hrec
    constructor
    · intro heq
      obtain ⟨ip, he⟩ := hrec.entry
      rw [acLookupMac_of_mem hinv.wf he] at hmine
      rw [hmine, heq] at he
      exact ((hinv.gives l' hl').eq_owner hinv.wf he).symm
    · intro heq
      rw [heq] at hrec hmine
      exact hmine.symm.trans ((hinv.gives l' hl').eq_recorded hinv.wf hrec)
  · intro m dhcps' ret r ha hstep hl hroom
    obtain ⟨_, hb, hresp⟩ := processDhcpMessage_gives hinv.wf ha hstep
    obtain ⟨hc, hg⟩ := hresp r rfl
    rw [hc]
    rcases hg hl with hg | ⟨hfull, hnot, _⟩
    · exact ⟨_, hg, rfl⟩
    · rcases hb.own with hsame | hrec
      · rw [hsame] at hfull
        exact absurd hfull (Nat.ne_of_lt hroom)
      · exact hrec

/-- A REQUEST from the client with this first byte for the address 192.168.0.`host`. -/
def request (client host : UInt8) : Message where
  data i := ([(0, 1), (1, 1), (2, 6), (28, client), (240, 53), (241, 1), (242, 3), (243, 50),
    (244, 4), (245, 192), (246, 168), (248, host), (249, 255)].lookup i).getD 0
  len := 250

/-- The server at 192.168.0.1 in a subnet of 254 addresses. -/
def homeServer : DhcpServerData := dhcpServerInit 0x0100a8c0 0x00ffffff 0x0100a8c0 3600 false

theorem leases_exclusive_request :
    ∃ h dhcps l, (dhcpServer homeServer).ReachesUnder Assesses h dhcps ∧ leases h = [l] ∧
      l.yiaddr = 0x0700a8c0 ∧ ∀ l' ∈ leases h, l.yiaddr = l'.yiaddr → l.chaddr = l'.chaddr := by
  have hrun : ∃ h dhcps l, (dhcpServer homeServer).exec [request 1 7] = some (h, dhcps) ∧
      leases h = [l] ∧ l.yiaddr = 0x0700a8c0 ∧ dhcps.Records l.chaddr :=
    ⟨_, _, _, rfl, rfl, rfl, by decide⟩
  obtain ⟨h, dhcps, l, hx, hl, hy, hrec⟩ := hrun
  have hr := Machine.reachesUnder_of_exec (C := Assesses) (by decide) hx
  refine ⟨h, dhcps, l, hr, hl, hy, fun l' hl' => ?_⟩
  exact ((leases_exclusive _ _ _ _ _ hr).1 l (by simp [hl]) l' hl' hrec).1

theorem leases_shared_when_full :
    ¬ ∀ (myIp netmask routerIp addressTimeout : UInt32) (nackDns : Bool)
      (h : Machine.History Message (Int × Option Response)) (dhcps : DhcpServerData),
      (dhcpServer (dhcpServerInit myIp netmask routerIp addressTimeout nackDns)).Reaches
        h dhcps →
      ∀ l ∈ leases h, ∀ l' ∈ leases h, l.yiaddr ≠ 0 → l.yiaddr = l'.yiaddr →
        l.chaddr = l'.chaddr := by
  intro hall
  have hrun : ∃ h dhcps l l', (dhcpServer homeServer).exec
      [request 1 11, request 2 12, request 3 13, request 4 14, request 5 15, request 6 16,
        request 7 17, request 8 18, request 9 19, request 10 19] = some (h, dhcps) ∧
      (leases h).drop 8 = [l, l'] ∧ l.yiaddr = 0x1300a8c0 ∧ l'.yiaddr = 0x1300a8c0 ∧
      l.chaddr ≠ l'.chaddr :=
    ⟨_, _, _, _, rfl, rfl, rfl, rfl, by decide⟩
  obtain ⟨h, dhcps, l, l', hx, hl, hy, hy', hne⟩ := hrun
  have hmem : ∀ r ∈ [l, l'], r ∈ leases h := by
    intro r hr
    rw [← hl] at hr
    exact List.mem_of_mem_drop hr
  refine hne (hall _ _ _ _ _ h dhcps (Machine.reaches_of_exec hx) l (hmem l (by simp)) l'
    (hmem l' (by simp)) ?_ (hy.trans hy'.symm))
  rw [hy]
  decide

end BdkRtt.Dhcp
