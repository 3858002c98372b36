import BdkRtt.Dhcp.Options
import BdkRtt.Dhcp.Search

/-! Which addresses `process_dhcp_message` acknowledges. -/

namespace BdkRtt.Dhcp

open Lib

section Naming

variable (m : Message)

/-- The options that the loop takes. -/
def Message.options : List Nat :=
  ((optionLoop m (m.len - sizeofBootpHeader + 1) sizeofBootpHeader
    (m.len - sizeofBootpHeader)).getD []).filter fun off => m.data off ≠ 0xff

/-- The option makes the message a REQUEST. -/
def Message.asksAt (off : Nat) : Bool :=
  m.data off = 53 ∧ m.data (off + 1) = 1 ∧ m.data (off + 2) = 3

/-- The address that an option names. -/
def Message.namedAt (off : Nat) : Option UInt32 :=
  if m.asksAt off then if m.ciaddr ≠ 0 then some m.ciaddr else none
  else if m.data off = 50 ∧ m.data (off + 1) = 4 then some (leWord m.data (off + 2))
  else none

def Message.asks : Bool := m.options.any m.asksAt

/-- The addresses that the message names, in their order. -/
def Message.named : List UInt32 := m.options.filterMap m.namedAt

variable {m}

/-- One more round than there are bytes makes no difference. -/
theorem walkOptions_succ {fuel off len : Nat} (h : len ≤ fuel) (w : Walk) :
    walkOptions m (fuel + 1) off len w = walkOptions m fuel off len w := by
  induction fuel generalizing off len w with
  | zero =>
    obtain rfl : len = 0 := Nat.le_zero.mp h
    rfl
  | succ fuel ih =>
    rw [walkOptions]
    conv_rhs => rw [walkOptions]
    split
    next =>
      refine ih ?_ _
      rw [sizeofBootpOption]
      omega
    next => rfl

theorem optionsOf_eq (dhcps : DhcpServerData) (m : Message) :
    optionsOf dhcps m = m.options.foldl (fun w off => walkOption m off w) { dhcps := dhcps } := by
  obtain ⟨offs, hoffs⟩ := optionLoop_isSome (m := m) sizeofBootpHeader
    (Nat.lt_succ_self (m.len - sizeofBootpHeader))
  rw [optionsOf, ← walkOptions_succ (Nat.le_refl _), walkOptions_eq hoffs, Message.options, hoffs]
  rfl

/-- What an option does before the address is looked at. -/
theorem nameOption_eq (m : Message) (off : Nat) (w : Walk) : ∃ type, nameOption m off w =
    { w with
      responseType := type
      needIp := w.needIp || m.asksAt off
      gotClientIp := w.gotClientIp || (m.namedAt off).isSome
      dhcps := { w.dhcps with clientIp := (m.namedAt off).getD w.dhcps.clientIp } } ∧
    (type = w.responseType ∨ type = some .offer) := by
  unfold nameOption messageOption requestedIpOption Message.namedAt
  by_cases hmsg : m.data off = 53 ∧ m.data (off + 1) = 1
  · have hip : ¬ (m.data off = 50 ∧ m.data (off + 1) = 4) := by
      rw [hmsg.1]
      exact fun h => absurd h.1 (by decide)
    rw [if_pos hmsg, if_neg hip]
    by_cases hask : m.data (off + 2) = 3
    · have hasks : m.asksAt off = true := decide_eq_true ⟨hmsg.1, hmsg.2, hask⟩
      have hdisc : ¬ m.data (off + 2) = 1 := by
        rw [hask]
        decide
      rw [if_neg hdisc, if_pos hask, if_pos hasks, hasks]
      refine ⟨w.responseType, ?_, .inl rfl⟩
      split <;> simp
    · have hasks : m.asksAt off = false := decide_eq_false fun h => hask h.2.2
      rw [hasks, if_neg Bool.false_ne_true, if_neg hip, if_neg hask]
      split
      next => exact ⟨some .offer, by simp, .inr rfl⟩
      next => exact ⟨w.responseType, by simp, .inl rfl⟩
  · have hasks : m.asksAt off = false := decide_eq_false fun h => hmsg ⟨h.1, h.2.1⟩
    rw [if_neg hmsg, hasks, if_neg Bool.false_ne_true]
    refine ⟨w.responseType, ?_, .inl rfl⟩
    split <;> simp

end Naming

section Table

variable {dhcps : DhcpServerData} {c : Mac} {ip : UInt32}

/-- The addresses that the server keeps: its own, the network's and the one for broadcasts. -/
def DhcpServerData.Reserved (dhcps : DhcpServerData) (ip : UInt32) : Prop :=
  ip = dhcps.myIp ∨ ip = dhcps.myIp &&& dhcps.netmask ∨
    ip = dhcps.myIp ||| (0xffffffff &&& ~~~dhcps.netmask)

theorem acValidIp_iff : acValidIp dhcps (ntohl ip) = true ↔
    ¬ dhcps.Reserved ip ∧ ∀ e ∈ dhcps.clients, e.clientIp ≠ ip := by
  have hcond : (ntohl ip = ntohl dhcps.myIp ∨ ntohl ip = ntohl (dhcps.myIp &&& dhcps.netmask) ∨
      ntohl ip = ntohl (dhcps.myIp ||| (0xffffffff &&& ~~~dhcps.netmask))) ↔ dhcps.Reserved ip :=
    or_congr ntohl_inj (or_congr ntohl_inj ntohl_inj)
  unfold acValidIp
  rw [htonl_ntohl]
  by_cases hres : dhcps.Reserved ip
  · rw [if_pos (hcond.mpr hres)]
    exact iff_of_false Bool.false_ne_true fun h => h.1 hres
  · rw [if_neg fun h => hres (hcond.mp h)]
    by_cases hip : (acLookupIp dhcps ip).isSome = true
    · rw [if_pos hip]
      obtain ⟨e, he, heq⟩ := acLookupIp_isSome.mp hip
      exact iff_of_false Bool.false_ne_true fun h => h.2 e he heq
    · rw [if_neg hip]
      rw [acLookupIp_isSome] at hip
      exact iff_of_true rfl ⟨hres, fun e he heq => hip ⟨e, he, heq⟩⟩

/-- Every address of the table could be given to a client. -/
structure DhcpServerData.TableOk (dhcps : DhcpServerData) : Prop where
  wf : dhcps.Wf
  inSubnet : ∀ e ∈ dhcps.clients, dhcps.InSubnet e.clientIp
  reserved : ∀ e ∈ dhcps.clients, ¬ dhcps.Reserved e.clientIp

theorem DhcpServerData.TableOk.congr {dhcps' : DhcpServerData} (h : dhcps.TableOk)
    (hclients : dhcps'.clients = dhcps.clients) (hmy : dhcps'.myIp = dhcps.myIp)
    (hmask : dhcps'.netmask = dhcps.netmask) : dhcps'.TableOk := by
  refine ⟨⟨?_, ?_, ?_⟩, fun e he => ?_, fun e he => ?_⟩
  · rw [hclients]
    exact h.wf.macs
  · rw [hclients]
    exact h.wf.ips
  · rw [hclients]
    exact h.wf.found
  · rw [DhcpServerData.InSubnet, hmy, hmask]
    exact h.inSubnet e (hclients ▸ he)
  · rw [DhcpServerData.Reserved, hmy, hmask]
    exact h.reserved e (hclients ▸ he)

theorem clients_acAdd (dhcps : DhcpServerData) (c : Mac) (ip : UInt32) :
    (acAdd dhcps c ip).1.clients =
      dhcps.clients ++ if acNotFull dhcps then [⟨c, ip⟩] else [] := by
  unfold acAdd acNotFull
  split
  next h => rw [decide_eq_true h, if_pos rfl]; rfl
  next h => rw [decide_eq_false h, if_neg Bool.false_ne_true, List.append_nil]

theorem acAdd_fields (dhcps : DhcpServerData) (c : Mac) (ip : UInt32) :
    (acAdd dhcps c ip).1.myIp = dhcps.myIp ∧ (acAdd dhcps c ip).1.netmask = dhcps.netmask := by
  unfold acAdd
  split <;> exact ⟨rfl, rfl⟩

theorem acAdd_tableOk (h : dhcps.TableOk) (hc : ¬ dhcps.Records c) (hsub : dhcps.InSubnet ip)
    (hv : acValidIp dhcps (ntohl ip) = true) : (acAdd dhcps c ip).1.TableOk := by
  obtain ⟨hres, hip⟩ := acValidIp_iff.mp hv
  obtain ⟨hmy, hmask⟩ := acAdd_fields dhcps c ip
  have hmem : ∀ e ∈ (acAdd dhcps c ip).1.clients, e ∈ dhcps.clients ∨ e.clientIp = ip := by
    intro e he
    rw [clients_acAdd] at he
    rcases List.mem_append.mp he with he | he
    · exact .inl he
    · split at he
      next => exact .inr (congrArg _ (List.mem_singleton.mp he))
      next => cases he
  refine ⟨acAdd_wf h.wf hc (clientIp_ne_zero hsub hv) hip, fun e he => ?_, fun e he => ?_⟩
  · rw [DhcpServerData.InSubnet, hmy, hmask]
    rcases hmem e he with he | rfl
    · exact h.inSubnet e he
    · exact hsub
  · rw [DhcpServerData.Reserved, hmy, hmask]
    rcases hmem e he with he | rfl
    · exact h.reserved e he
    · exact hres

/-- The lookups see the entries and the subnet only. -/
theorem acLookupMac_congr {dhcps' : DhcpServerData} (h : dhcps'.clients = dhcps.clients) (c : Mac) :
    acLookupMac dhcps' c = acLookupMac dhcps c := by
  unfold acLookupMac
  rw [show dhcps'.ipMacMapping.clients = dhcps.ipMacMapping.clients from h]

theorem acNotFull_congr {dhcps' : DhcpServerData} (h : dhcps'.clients = dhcps.clients) :
    acNotFull dhcps' = acNotFull dhcps := by
  unfold acNotFull
  rw [show dhcps'.ipMacMapping.clients = dhcps.ipMacMapping.clients from h]

theorem acValidIp_congr {dhcps' : DhcpServerData} (h : dhcps'.clients = dhcps.clients)
    (hmy : dhcps'.myIp = dhcps.myIp) (hmask : dhcps'.netmask = dhcps.netmask) (ip : UInt32) :
    acValidIp dhcps' (ntohl ip) = true ↔ acValidIp dhcps (ntohl ip) = true := by
  rw [acValidIp_iff, acValidIp_iff, DhcpServerData.Reserved, hmy, hmask, h]
  rfl

end Table

section Judging

variable (s : DhcpServerData) (c : Mac)

/-- The server could give the address to a new client. -/
def DhcpServerData.eligible (ip : UInt32) : Bool :=
  s.InSubnet ip ∧ acValidIp s (ntohl ip) = true

/-- What the addresses named so far have put into the table. -/
def learned (ns : List UInt32) : List ClientMacCache :=
  if ¬ s.Records c ∧ acNotFull s = true then
    ((ns.find? s.eligible).map fun ip => ⟨c, ip⟩).toList
  else []

/-- The address is granted when it is named after those in `pre`. -/
def Grants (pre : List UInt32) (ip : UInt32) : Prop :=
  s.InSubnet ip ∧
    if s.Records c then acLookupMac s c = ip
    else acValidIp s (ntohl ip) = true ∧
      (acNotFull s = true → (pre ++ [ip]).find? s.eligible = some ip)

/-- The address does not change the verdict on those before it. -/
def PassedOver (ip : UInt32) : Prop :=
  ¬ s.InSubnet ip ∨
    ¬ s.Records c ∧ ¬ acNotFull s = true ∧ ¬ acValidIp s (ntohl ip) = true

/-- One of the addresses has been granted, and those after it were passed over. -/
inductive Stands : List UInt32 → Prop
  | granted {pre : List UInt32} {ip : UInt32} : Grants s c pre ip → Stands (pre ++ [ip])
  | passed {pre : List UInt32} {ip : UInt32} : PassedOver s c ip → Stands pre → Stands (pre ++ [ip])

variable {s c} {pre ns : List UInt32} {ip : UInt32}

theorem stands_concat :
    Stands s c (pre ++ [ip]) ↔ Grants s c pre ip ∨ PassedOver s c ip ∧ Stands s c pre := by
  constructor
  · intro h
    generalize hx : pre ++ [ip] = ns at h
    cases h with
    | granted h =>
      obtain ⟨rfl, hip⟩ := List.append_inj' hx rfl
      cases hip
      exact .inl h
    | passed hpass h =>
      obtain ⟨rfl, hip⟩ := List.append_inj' hx rfl
      cases hip
      exact .inr ⟨hpass, h⟩
  · rintro (h | ⟨hpass, h⟩)
    · exact .granted h
    · exact .passed hpass h

theorem not_stands_nil : ¬ Stands s c [] := by
  intro h
  generalize hx : ([] : List UInt32) = ns at h
  cases h with
  | granted _ => simp at hx
  | passed _ _ => simp at hx

theorem eligible_iff : s.eligible ip = true ↔ s.InSubnet ip ∧ acValidIp s (ntohl ip) = true :=
  decide_eq_true_iff

/-- A client that is not in the table is only granted an address that could be given to it. -/
theorem exists_eligible_of_stands (h : Stands s c ns) (hc : ¬ s.Records c) :
    ∃ ip ∈ ns, s.eligible ip = true := by
  induction h with
  | @granted pre ip h =>
    rw [Grants, if_neg hc] at h
    exact ⟨ip, List.mem_append_right _ (List.mem_singleton_self ip), eligible_iff.mpr ⟨h.1, h.2.1⟩⟩
  | passed _ _ ih =>
    obtain ⟨ip, hip, hel⟩ := ih
    exact ⟨ip, List.mem_append_left _ hip, hel⟩

theorem learned_of_records (h : s.Records c) : learned s c ns = [] :=
  if_neg fun hn => hn.1 h

theorem learned_of_full (h : ¬ acNotFull s = true) : learned s c ns = [] :=
  if_neg fun hn => h hn.2

theorem learned_of_room (hc : ¬ s.Records c) (h : acNotFull s = true) :
    learned s c ns = ((ns.find? s.eligible).map fun ip => ⟨c, ip⟩).toList :=
  if_pos ⟨hc, h⟩

/-- An address that no new client could have, or one after another, adds nothing. -/
theorem learned_concat (h : ¬ s.eligible ip = true ∨ ∃ a, ns.find? s.eligible = some a) :
    learned s c (ns ++ [ip]) = learned s c ns := by
  have hfind : (ns ++ [ip]).find? s.eligible = ns.find? s.eligible := by
    rw [List.find?_append]
    rcases h with h | ⟨a, ha⟩
    · rw [List.find?_singleton, if_neg h, Option.or_none]
    · rw [ha, Option.some_or]
  unfold learned
  rw [hfind]

/-- Naming the last address once more makes no difference. -/
theorem grants_again : Grants s c (pre ++ [ip]) ip ↔ Grants s c pre ip := by
  have hfind : (pre ++ [ip] ++ [ip]).find? s.eligible = (pre ++ [ip]).find? s.eligible := by
    rw [List.find?_append, List.find?_append]
    cases pre.find? s.eligible with
    | some a => rfl
    | none =>
      rw [Option.none_or]
      cases [ip].find? s.eligible <;> rfl
  rw [Grants, Grants, hfind]

theorem stands_again : Stands s c (pre ++ [ip] ++ [ip]) ↔ Stands s c (pre ++ [ip]) := by
  rw [stands_concat, grants_again, stands_concat]
  constructor
  · rintro (h | ⟨-, h⟩)
    · exact .inl h
    · exact h
  · rintro (h | ⟨hpass, h⟩)
    · exact .inl h
    · exact .inr ⟨hpass, .inr ⟨hpass, h⟩⟩

theorem learned_again : learned s c (pre ++ [ip] ++ [ip]) = learned s c (pre ++ [ip]) := by
  apply learned_concat
  by_cases h : s.eligible ip = true
  · refine .inr (Option.isSome_iff_exists.mp (List.find?_isSome.mpr ⟨ip, ?_, h⟩))
    exact List.mem_append_right _ (List.mem_singleton_self ip)
  · exact .inl h

end Judging

section Walking

variable {s : DhcpServerData} {m : Message} {c : Mac} {w : Walk} {pre ns : List UInt32}

/-- The server and the verdict after the addresses `ns`. -/
structure Judged (s : DhcpServerData) (c : Mac) (ns : List UInt32) (w : Walk) : Prop where
  table : w.dhcps.TableOk
  myIp : w.dhcps.myIp = s.myIp
  netmask : w.dhcps.netmask = s.netmask
  clients : w.dhcps.clients = s.clients ++ learned s c ns
  got : w.gotIp = true ↔ Stands s c ns

theorem Judged.inSubnet (h : Judged s c ns w) (ip : UInt32) :
    w.dhcps.InSubnet ip ↔ s.InSubnet ip := by
  rw [DhcpServerData.InSubnet, DhcpServerData.InSubnet, h.myIp, h.netmask]

theorem checkClientIp_of_out (hgot : w.gotClientIp = true)
    (hsub : ¬ w.dhcps.InSubnet w.dhcps.clientIp) : checkClientIp c w = w := by
  unfold DhcpServerData.InSubnet at hsub
  unfold checkClientIp
  dsimp only
  rw [if_neg (by rw [hgot]; decide), if_neg hsub]

theorem checkClientIp_of_known (hgot : w.gotClientIp = true)
    (hsub : w.dhcps.InSubnet w.dhcps.clientIp) (hmac : acLookupMac w.dhcps c ≠ clientIpNotFound) :
    checkClientIp c w = { w with gotIp := acLookupMac w.dhcps c == w.dhcps.clientIp } := by
  unfold DhcpServerData.InSubnet at hsub
  unfold checkClientIp
  dsimp only
  rw [if_neg (by rw [hgot]; decide), if_pos hsub, if_pos hmac]

theorem checkClientIp_of_new (hgot : w.gotClientIp = true)
    (hsub : w.dhcps.InSubnet w.dhcps.clientIp) (hmac : acLookupMac w.dhcps c = clientIpNotFound) :
    checkClientIp c w =
      if acValidIp w.dhcps (ntohl w.dhcps.clientIp) then
        { w with dhcps := (acAdd w.dhcps c w.dhcps.clientIp).1, gotIp := true }
      else w := by
  unfold DhcpServerData.InSubnet at hsub
  unfold checkClientIp
  dsimp only
  rw [if_neg (by rw [hgot]; decide), if_pos hsub, if_neg (not_not.mpr hmac)]
  split
  next =>
    split
    next => rfl
    next hfull =>
      have hadd : (acAdd w.dhcps c w.dhcps.clientIp).1 = w.dhcps := by
        unfold acAdd
        rw [dif_neg fun h => hfull (decide_eq_true h)]
      rw [hadd]
  next => rfl

/-- The address is outside the subnet. -/
theorem Judged.out (h : Judged s c pre w) (hgot : w.gotClientIp = true)
    (hsub : ¬ s.InSubnet w.dhcps.clientIp) :
    Judged s c (pre ++ [w.dhcps.clientIp]) (checkClientIp c w) := by
  rw [checkClientIp_of_out hgot (mt (h.inSubnet _).mp hsub)]
  refine ⟨h.table, h.myIp, h.netmask, ?_, ?_⟩
  · rw [h.clients, learned_concat (.inl fun hel => hsub (eligible_iff.mp hel).1)]
  · rw [h.got, stands_concat]
    exact ⟨fun hst => .inr ⟨.inl hsub, hst⟩,
      fun hst => hst.elim (fun hg => absurd hg.1 hsub) And.right⟩

/-- The client was in the table when the message arrived. -/
theorem Judged.known (h : Judged s c pre w) (hs : s.TableOk) (hgot : w.gotClientIp = true)
    (hsub : s.InSubnet w.dhcps.clientIp) (hc : s.Records c) :
    Judged s c (pre ++ [w.dhcps.clientIp]) (checkClientIp c w) := by
  have hclients : w.dhcps.clients = s.clients := by
    rw [h.clients, learned_of_records hc, List.append_nil]
  have hmac : acLookupMac w.dhcps c = acLookupMac s c := acLookupMac_congr hclients c
  have hne : acLookupMac w.dhcps c ≠ clientIpNotFound := by
    rw [hmac]
    exact fun h => (acLookupMac_eq_notFound hs.wf).mp h hc
  rw [checkClientIp_of_known hgot ((h.inSubnet _).mpr hsub) hne]
  refine ⟨h.table, h.myIp, h.netmask, ?_, ?_⟩
  · rw [hclients, learned_of_records hc, List.append_nil]
  · rw [stands_concat, Grants, if_pos hc, beq_iff_eq, hmac]
    refine ⟨fun heq => .inl ⟨hsub, heq⟩, fun hst => ?_⟩
    rcases hst with hg | ⟨hout | ⟨hn, -⟩, -⟩
    · exact hg.2
    · exact absurd hsub hout
    · exact absurd hc hn

/-- Another address has been given to the client in this message. -/
theorem Judged.given (h : Judged s c pre w) (hgot : w.gotClientIp = true)
    (hsub : s.InSubnet w.dhcps.clientIp) (hc : ¬ s.Records c) (hroom : acNotFull s = true)
    {a : UInt32} (ha : pre.find? s.eligible = some a) :
    Judged s c (pre ++ [w.dhcps.clientIp]) (checkClientIp c w) := by
  have hmem : ⟨c, a⟩ ∈ w.dhcps.clients := by
    rw [h.clients, learned_of_room hc hroom, ha]
    exact List.mem_append_right _ (List.mem_singleton_self _)
  have hmac : acLookupMac w.dhcps c = a := acLookupMac_of_mem h.table.wf hmem
  have hne : acLookupMac w.dhcps c ≠ clientIpNotFound := by
    rw [hmac]
    exact h.table.wf.found _ hmem
  have hv : acValidIp s (ntohl a) = true := (eligible_iff.mp (List.find?_some ha)).2
  have hfind : (pre ++ [w.dhcps.clientIp]).find? s.eligible = some a := by
    rw [List.find?_append, ha, Option.some_or]
  rw [checkClientIp_of_known hgot ((h.inSubnet _).mpr hsub) hne]
  refine ⟨h.table, h.myIp, h.netmask, ?_, ?_⟩
  · rw [learned_concat (.inr ⟨a, ha⟩)]
    exact h.clients
  · rw [stands_concat, Grants, if_neg hc, hfind, beq_iff_eq, hmac]
    refine ⟨fun heq => .inl ⟨hsub, heq ▸ hv, fun _ => congrArg some heq⟩, fun hst => ?_⟩
    rcases hst with hg | ⟨hout | ⟨-, hfull, -⟩, -⟩
    · exact Option.some.inj (hg.2.2 hroom)
    · exact absurd hsub hout
    · exact absurd hroom hfull

/-- The table knows nothing of the client yet. -/
theorem Judged.fresh (h : Judged s c pre w) (hgot : w.gotClientIp = true)
    (hsub : s.InSubnet w.dhcps.clientIp) (hc : ¬ s.Records c)
    (hnone : acNotFull s = true → pre.find? s.eligible = none) :
    Judged s c (pre ++ [w.dhcps.clientIp]) (checkClientIp c w) := by
  have hlearned : learned s c pre = [] := by
    by_cases hroom : acNotFull s = true
    · rw [learned_of_room hc hroom, hnone hroom]
      rfl
    · exact learned_of_full hroom
  have hclients : w.dhcps.clients = s.clients := by
    rw [h.clients, hlearned, List.append_nil]
  have hc' : ¬ w.dhcps.Records c := by
    rw [DhcpServerData.Records, hclients]
    exact hc
  have hvalid := acValidIp_congr hclients h.myIp h.netmask w.dhcps.clientIp
  rw [checkClientIp_of_new hgot ((h.inSubnet _).mpr hsub) (acLookupMac_of_not_records hc')]
  by_cases hv : acValidIp w.dhcps (ntohl w.dhcps.clientIp) = true
  · have hel : s.eligible w.dhcps.clientIp = true := eligible_iff.mpr ⟨hsub, hvalid.mp hv⟩
    have hfind : acNotFull s = true →
        (pre ++ [w.dhcps.clientIp]).find? s.eligible = some w.dhcps.clientIp := by
      intro hroom
      rw [List.find?_append, hnone hroom, Option.none_or, List.find?_singleton, if_pos hel]
    obtain ⟨hmy, hmask⟩ := acAdd_fields w.dhcps c w.dhcps.clientIp
    rw [if_pos hv]
    refine ⟨acAdd_tableOk h.table hc' ((h.inSubnet _).mpr hsub) hv, hmy.trans h.myIp,
      hmask.trans h.netmask, ?_, iff_of_true rfl (stands_concat.mpr (.inl ⟨hsub, ?_⟩))⟩
    · rw [clients_acAdd, acNotFull_congr hclients, hclients]
      by_cases hroom : acNotFull s = true
      · rw [if_pos hroom, learned_of_room hc hroom, hfind hroom]
        rfl
      · rw [if_neg hroom, learned_of_full hroom]
    · rw [if_neg hc]
      exact ⟨hvalid.mp hv, hfind⟩
  · have hv' : ¬ acValidIp s (ntohl w.dhcps.clientIp) = true := mt hvalid.mpr hv
    rw [if_neg hv]
    refine ⟨h.table, h.myIp, h.netmask, ?_, ?_⟩
    · rw [learned_concat (.inl fun hel => hv' (eligible_iff.mp hel).2)]
      exact h.clients
    · rw [h.got, stands_concat]
      refine ⟨fun hst => .inr ⟨.inr ⟨hc, fun hroom => ?_, hv'⟩, hst⟩, fun hst => ?_⟩
      · obtain ⟨a, ha, hel⟩ := exists_eligible_of_stands hst hc
        exact List.find?_eq_none.mp (hnone hroom) a ha hel
      · refine hst.elim (fun hg => ?_) And.right
        rw [Grants, if_neg hc] at hg
        exact absurd hg.2.1 hv'

/-- What looking at the address does to the verdict. -/
theorem Judged.check (h : Judged s c pre w) (hs : s.TableOk) (hgot : w.gotClientIp = true) :
    Judged s c (pre ++ [w.dhcps.clientIp]) (checkClientIp c w) := by
  by_cases hsub : s.InSubnet w.dhcps.clientIp
  · by_cases hc : s.Records c
    · exact h.known hs hgot hsub hc
    · by_cases hroom : acNotFull s = true
      · cases ha : pre.find? s.eligible with
        | none => exact h.fresh hgot hsub hc fun _ => ha
        | some a => exact h.given hgot hsub hc hroom ha
      · exact h.fresh hgot hsub hc fun hroom' => absurd hroom' hroom
  · exact h.out hgot hsub

theorem Judged.congr {w' : Walk} (h : Judged s c ns w) (hclients : w'.dhcps.clients =
    w.dhcps.clients) (hmy : w'.dhcps.myIp = w.dhcps.myIp)
    (hmask : w'.dhcps.netmask = w.dhcps.netmask) (hgot : w'.gotIp = w.gotIp) :
    Judged s c ns w' where
  table := h.table.congr hclients hmy hmask
  myIp := hmy.trans h.myIp
  netmask := hmask.trans h.netmask
  clients := hclients.trans h.clients
  got := by
    rw [hgot]
    exact h.got

theorem Judged.again {ip : UInt32} (h : Judged s c (pre ++ [ip] ++ [ip]) w) :
    Judged s c (pre ++ [ip]) w where
  table := h.table
  myIp := h.myIp
  netmask := h.netmask
  clients := h.clients.trans (by rw [learned_again])
  got := h.got.trans stands_again

theorem checkClientIp_keeps (c : Mac) (w : Walk) :
    (checkClientIp c w).gotClientIp = w.gotClientIp ∧
      (checkClientIp c w).dhcps.clientIp = w.dhcps.clientIp := by
  unfold checkClientIp
  dsimp only
  repeat' split
  all_goals exact ⟨rfl, by simp⟩

/-- The walk after the addresses `ns`, in a message that has asked for one or not. -/
structure Walk.After (s : DhcpServerData) (c : Mac) (ns : List UInt32) (asked : Bool) (w : Walk) :
    Prop where
  judged : Judged s c ns w
  named : w.gotClientIp = true ↔ ns ≠ []
  last : ∀ ip ∈ ns.getLast?, w.dhcps.clientIp = ip
  need : w.needIp = asked
  type : w.responseType = some .ack ↔ asked = true ∧ Stands s c ns

/-- The address is looked at after every option, whether the option named it or not. -/
theorem Walk.After.check {asked : Bool} (h : w.After s c ns asked) (hs : s.TableOk)
    (w' : Walk) (named : Option UInt32) (hclients : w'.dhcps.clients = w.dhcps.clients)
    (hmy : w'.dhcps.myIp = w.dhcps.myIp) (hmask : w'.dhcps.netmask = w.dhcps.netmask)
    (hgot : w'.gotIp = w.gotIp) (hnamed : w'.gotClientIp = (w.gotClientIp || named.isSome))
    (hip : w'.dhcps.clientIp = named.getD w.dhcps.clientIp) :
    Judged s c (ns ++ named.toList) (checkClientIp c w') ∧
      (w'.gotClientIp = true ↔ ns ++ named.toList ≠ []) ∧
      ∀ ip ∈ (ns ++ named.toList).getLast?, w'.dhcps.clientIp = ip := by
  have hj : Judged s c ns w' := h.judged.congr hclients hmy hmask hgot
  cases named with
  | some ip =>
    have hgot' : w'.gotClientIp = true := by rw [hnamed, Option.isSome_some, Bool.or_true]
    have hcheck := hj.check hs hgot'
    rw [hip] at hcheck
    refine ⟨hcheck, iff_of_true hgot' (by simp), fun x hx => ?_⟩
    rw [Option.toList_some, List.getLast?_concat] at hx
    cases hx
    exact hip
  | none =>
    rw [Option.isSome_none, Bool.or_false] at hnamed
    rw [Option.getD_none] at hip
    rw [Option.toList_none, List.append_nil, hnamed, hip]
    refine ⟨?_, h.named, h.last⟩
    rcases List.eq_nil_or_concat ns with rfl | ⟨pre, ip, rfl⟩
    · have hno : w'.gotClientIp = false := by
        rw [hnamed]
        exact Bool.eq_false_iff.mpr fun hg => h.named.mp hg rfl
      unfold checkClientIp
      dsimp only
      rw [if_pos hno]
      exact hj
    · rw [List.concat_eq_append] at h hj ⊢
      have hlast : w'.dhcps.clientIp = ip := hip.trans (h.last ip List.getLast?_concat)
      have hgot' : w'.gotClientIp = true := hnamed.trans (h.named.mpr (by simp))
      have hcheck := hj.check hs hgot'
      rw [hlast] at hcheck
      exact hcheck.again

/-- What one option does. -/
theorem walkOption_after {asked : Bool} (hs : s.TableOk) (off : Nat)
    (h : w.After s m.chaddr ns asked) : (walkOption m off w).After s m.chaddr
      (ns ++ (m.namedAt off).toList) (asked || m.asksAt off) := by
  obtain ⟨type, heq, htype⟩ := nameOption_eq m off w
  obtain ⟨hj, hnamed, hlast⟩ := h.check hs (nameOption m off w) (m.namedAt off)
    (by rw [heq]; rfl) (by rw [heq]) (by rw [heq]) (by rw [heq]) (by rw [heq]) (by rw [heq])
  obtain ⟨hgot, hip⟩ := checkClientIp_keeps m.chaddr (nameOption m off w)
  obtain ⟨htype', hneed⟩ := checkClientIp_frame m.chaddr (nameOption m off w)
  have hneed' : (nameOption m off w).needIp = (asked || m.asksAt off) := by
    rw [heq, ← h.need]
  rw [← hgot] at hnamed
  rw [← hip] at hlast
  rw [hneed'] at hneed
  unfold walkOption settleResponse
  split
  next hask =>
    rw [hneed] at hask
    refine ⟨hj.congr rfl rfl rfl rfl, hnamed, hlast, hneed, ?_⟩
    rw [hask, ← hj.got]
    cases (checkClientIp m.chaddr (nameOption m off w)).gotIp with
    | true => exact iff_of_true rfl ⟨rfl, rfl⟩
    | false => exact iff_of_false nofun fun h => absurd h.2 Bool.false_ne_true
  next hask =>
    rw [hneed] at hask
    refine ⟨hj, hnamed, hlast, hneed, iff_of_false ?_ fun h => hask h.1⟩
    rw [htype', heq]
    dsimp only
    rcases htype with rfl | rfl
    · rw [h.type]
      exact fun h => hask (by rw [h.1, Bool.true_or])
    · exact nofun

theorem foldl_after {asked : Bool} (hs : s.TableOk) (offs : List Nat)
    (h : w.After s m.chaddr ns asked) :
    (offs.foldl (fun w off => walkOption m off w) w).After s m.chaddr
      (ns ++ offs.filterMap m.namedAt) (asked || offs.any m.asksAt) := by
  induction offs generalizing w ns asked with
  | nil =>
    rw [List.filterMap_nil, List.append_nil, List.any_nil, Bool.or_false]
    exact h
  | cons off offs ih =>
    have hrest := ih (walkOption_after hs off h)
    rw [List.append_assoc, Bool.or_assoc] at hrest
    rw [List.foldl_cons, List.any_cons, List.filterMap_cons]
    cases hn : m.namedAt off with
    | none =>
      rw [hn] at hrest
      exact hrest
    | some ip =>
      rw [hn] at hrest
      exact hrest

theorem optionsOf_after (hs : s.TableOk) (m : Message) :
    (optionsOf s m).After s m.chaddr m.named m.asks := by
  have hstart : Walk.After s m.chaddr [] false { dhcps := s } := by
    refine ⟨⟨hs, rfl, rfl, ?_, ?_⟩, ?_, nofun, rfl, ?_⟩
    · unfold learned
      rw [List.find?_nil, Option.map_none, Option.toList_none, ite_self, List.append_nil]
    · exact iff_of_false Bool.false_ne_true not_stands_nil
    · exact iff_of_false Bool.false_ne_true fun h => h rfl
    · exact iff_of_false nofun fun h => absurd h.1 Bool.false_ne_true
  have hall := foldl_after hs m.options hstart
  rw [List.nil_append, Bool.false_or] at hall
  rw [optionsOf_eq]
  exact hall

end Walking

section Tables

variable {s s' : DhcpServerData} {m : Message} {c : Mac}

theorem nextYiaddr_tableOk {r : DhcpServerData × UInt32} (h : s.TableOk)
    (hr : nextYiaddr s c = some r) : r.1.TableOk := by
  unfold nextYiaddr at hr
  dsimp only at hr
  split at hr
  next hmac =>
    split at hr
    next => cases hr
    next ip hsearch =>
      cases hr
      obtain ⟨hv, x, rfl⟩ := searchIp_spec hsearch
      refine acAdd_tableOk (h.congr rfl rfl rfl) ((acLookupMac_eq_notFound h.wf).mp hmac)
        (succIp_inSubnet x : s.InSubnet _) ?_
      rw [ntohl_htonl]
      exact hv
  next =>
    cases hr
    exact h

theorem makeResponse_tableOk {type : DhcpMessageType} {r : DhcpServerData × Response}
    (h : s.TableOk) (hr : makeResponse s c type = some r) : r.1.TableOk := by
  cases type with
  | ack | nak =>
    cases hr
    exact h
  | offer =>
    obtain ⟨q, hq, rfl⟩ := Option.map_eq_some_iff.mp hr
    exact nextYiaddr_tableOk h hq

theorem processDhcpMessage_tableOk {ret : Int} {r : Option Response} (h : s.TableOk)
    (hr : processDhcpMessage s m = some (s', ret, r)) : s'.TableOk := by
  have hw := (optionsOf_after h m).judged.table
  unfold processDhcpMessage at hr
  generalize optionsOf s m = w at hw hr
  split at hr
  next =>
    dsimp only at hr
    split at hr
    next =>
      cases hr
      exact hw
    next type _ =>
      obtain ⟨q, hq, heq⟩ := Option.map_eq_some_iff.mp hr
      cases heq
      exact makeResponse_tableOk hw hq
  next =>
    cases hr
    exact h

/-- In every run of the server, whatever the messages, the table is in order. -/
theorem tableOk_of_reaches {s₀ : DhcpServerData} (h₀ : s₀.ipMacMapping = .empty) {h}
    (hr : (dhcpServer s₀).Reaches h s) : s.TableOk := by
  refine hr.stateInvariant DhcpServerData.TableOk ?_ ?_
  · have hnil : s₀.clients = [] := by
      rw [DhcpServerData.clients, h₀]
      rfl
    refine ⟨⟨?_, ?_, ?_⟩, ?_, ?_⟩ <;> simp [dhcpServer, hnil]
  · rintro t m t' ⟨ret, r⟩ hok - hstep
    have hproc : processDhcpMessage t m = some (t', ret, r) := hstep
    exact processDhcpMessage_tableOk hok hproc

end Tables

section Acks

variable {s : DhcpServerData} {m : Message}

/-- The acknowledged address is one that the client may have, and not one that the message should
not have asked for. -/
structure AckSound (s : DhcpServerData) (m : Message) (r : Response) : Prop where
  inSubnet : s.InSubnet r.yiaddr
  reserved : ¬ s.Reserved r.yiaddr
  mapped : ⟨m.chaddr, r.yiaddr⟩ ∈ s.clients ∨ ∀ e ∈ s.clients, e.clientIp ≠ r.yiaddr
  refused : ∀ ip ∈ m.named, (¬ s.InSubnet ip ∨
    ∃ e ∈ s.clients, e.clientIp = ip ∧ e.clientMac ≠ m.chaddr) → r.yiaddr ≠ ip

/-- Every ACK that the message is answered with is sound. -/
def AcksSound (s : DhcpServerData) (m : Message) : Prop :=
  ∀ s' ret r, processDhcpMessage s m = some (s', ret, some r) → r.type = .ack → AckSound s m r

/-- A REQUEST does not name, last, an address that is passed over when an earlier one was
granted. -/
def LastCounts (s : DhcpServerData) (m : Message) : Prop :=
  m.accepted = true → m.asks = true → ∀ pre ip, m.named = pre ++ [ip] →
    PassedOver s m.chaddr ip → ¬ Stands s m.chaddr pre

/-- A message is acknowledged when it asks and the verdict on its addresses stands; the address sent
back is the last one. -/
theorem ack_iff (hs : s.TableOk) {r : Response} :
    (∃ s' ret, processDhcpMessage s m = some (s', ret, some r) ∧ r.type = .ack) ↔
      m.accepted = true ∧ m.asks = true ∧ Stands s m.chaddr m.named ∧
        r = ⟨.ack, m.chaddr, (optionsOf s m).dhcps.clientIp,
          responseOptions (optionsOf s m).dhcps .ack⟩ := by
  have hafter := optionsOf_after hs m
  unfold processDhcpMessage
  generalize optionsOf s m = w at hafter ⊢
  by_cases hacc : m.accepted = true
  · rw [if_pos hacc]
    dsimp only
    cases htype : w.responseType with
    | none =>
      refine iff_of_false (fun ⟨_, _, h, _⟩ => by cases h) fun ⟨_, hask, hst, _⟩ => ?_
      cases htype.symm.trans (hafter.type.mpr ⟨hask, hst⟩)
    | some type =>
      cases type with
      | ack =>
        obtain ⟨hask, hst⟩ := hafter.type.mp htype
        constructor
        · rintro ⟨s', ret, h, -⟩
          cases h
          exact ⟨hacc, hask, hst, rfl⟩
        · rintro ⟨-, -, -, rfl⟩
          exact ⟨_, _, rfl, rfl⟩
      | nak =>
        refine iff_of_false (fun ⟨_, _, h, hack⟩ => ?_) fun ⟨_, hask, hst, _⟩ => ?_
        · cases h
          cases hack
        · cases htype.symm.trans (hafter.type.mpr ⟨hask, hst⟩)
      | offer =>
        refine iff_of_false (fun ⟨_, _, h, hack⟩ => ?_) fun ⟨_, hask, hst, _⟩ => ?_
        · obtain ⟨q, hq, heq⟩ := Option.map_eq_some_iff.mp h
          obtain ⟨_, _, rfl⟩ := Option.map_eq_some_iff.mp hq
          cases heq
          cases hack
        · cases htype.symm.trans (hafter.type.mpr ⟨hask, hst⟩)
  · rw [if_neg hacc]
    exact iff_of_false (fun ⟨_, _, h, _⟩ => by cases h) fun h => hacc h.1

/-- A granted address is one that the client may have. -/
theorem Grants.sound (hs : s.TableOk) {pre : List UInt32} {ip : UInt32}
    (h : Grants s m.chaddr pre ip) : ¬ s.Reserved ip ∧
      (⟨m.chaddr, ip⟩ ∈ s.clients ∨ ∀ e ∈ s.clients, e.clientIp ≠ ip) := by
  by_cases hc : s.Records m.chaddr
  · rw [Grants, if_pos hc] at h
    obtain ⟨a, ha⟩ := hc.entry
    obtain rfl : a = ip := (acLookupMac_of_mem hs.wf ha).symm.trans h.2
    exact ⟨hs.reserved _ ha, .inl ha⟩
  · rw [Grants, if_neg hc] at h
    obtain ⟨hres, hip⟩ := acValidIp_iff.mp h.2.1
    exact ⟨hres, .inr hip⟩

/-- What is refused cannot have been granted. -/
theorem refused_ne (hs : s.TableOk) {ip a : UInt32} {c : Mac} (hsub : s.InSubnet a)
    (hmapped : ⟨c, a⟩ ∈ s.clients ∨ ∀ e ∈ s.clients, e.clientIp ≠ a)
    (h : ¬ s.InSubnet ip ∨ ∃ e ∈ s.clients, e.clientIp = ip ∧ e.clientMac ≠ c) : a ≠ ip := by
  rintro rfl
  rcases h with hout | ⟨e, he, heq, hne⟩
  · exact hout hsub
  · rcases hmapped with hmine | hfree
    · have hsame := List.inj_on_of_nodup_map hs.wf.ips he hmine heq
      rw [hsame] at hne
      exact hne rfl
    · exact hfree e he heq

/-- In every state that the server can be in, the ACKs of a message are sound exactly when its last
address is not passed over in favour of an earlier one. -/
theorem acks_sound (myIp netmask routerIp addressTimeout : UInt32) (nackDns : Bool)
    {h : Machine.History Message (Int × Option Response)} {s : DhcpServerData}
    (hr : (dhcpServer (dhcpServerInit myIp netmask routerIp addressTimeout nackDns)).Reaches h s)
    (m : Message) : AcksSound s m ↔ LastCounts s m := by
  have hs := tableOk_of_reaches rfl hr
  have hafter := optionsOf_after hs m
  constructor
  · intro hsound hacc hask pre ip hnamed hpass hst
    have hstands : Stands s m.chaddr m.named := by
      rw [hnamed]
      exact .passed hpass hst
    obtain ⟨s', ret, hproc, hack⟩ := (ack_iff hs).mpr ⟨hacc, hask, hstands, rfl⟩
    have hip : (optionsOf s m).dhcps.clientIp = ip := by
      apply hafter.last
      rw [hnamed, List.getLast?_concat]
      rfl
    obtain ⟨hsub, hres, hmapped, -⟩ := hsound s' ret _ hproc hack
    dsimp only at hsub hres hmapped
    rw [hip] at hsub hres hmapped
    rcases hpass with hout | ⟨hc, -, hv⟩
    · exact hout hsub
    · refine hv (acValidIp_iff.mpr ⟨hres, hmapped.resolve_left fun hmine => ?_⟩)
      exact hc ⟨_, hmine, rfl⟩
  · intro hlast s' ret r hproc hack
    obtain ⟨hacc, hask, hst, rfl⟩ := (ack_iff hs).mp ⟨s', ret, hproc, hack⟩
    have hne : m.named ≠ [] := fun hnil => not_stands_nil (hnil ▸ hst)
    obtain ⟨pre, ip, hnamed⟩ := (List.eq_nil_or_concat m.named).resolve_left hne
    rw [List.concat_eq_append] at hnamed
    have hip : (optionsOf s m).dhcps.clientIp = ip := by
      apply hafter.last
      rw [hnamed, List.getLast?_concat]
      rfl
    have hgrants : Grants s m.chaddr pre ip := by
      rw [hnamed, stands_concat] at hst
      exact hst.resolve_right fun h => hlast hacc hask pre ip hnamed h.1 h.2
    obtain ⟨hres, hmapped⟩ := hgrants.sound hs
    rw [hip]
    exact ⟨hgrants.1, hres, hmapped, fun a _ ha => refused_ne hs hgrants.1 hmapped ha⟩

theorem acks_sound_request : AcksSound homeServer (request 1 7) := by
  refine (acks_sound _ _ _ _ _ .init (request 1 7)).mpr fun _ _ pre ip hnamed _ => ?_
  have hone : (request 1 7).named = [] ++ [0x0700a8c0] := rfl
  obtain ⟨rfl, -⟩ := List.append_inj' (hone.symm.trans hnamed) rfl
  exact not_stands_nil

/-- A REQUEST for 192.168.0.7 that then names 10.0.0.1. -/
def doubleRequest : Message where
  data i := ([(0, 1), (1, 1), (2, 6), (28, 1), (240, 53), (241, 1), (242, 3), (243, 50),
    (244, 4), (245, 192), (246, 168), (248, 7), (249, 50), (250, 4), (251, 10), (254, 1),
    (255, 255)].lookup i).getD 0
  len := 256

theorem foreign_address_acked :
    ¬ ∀ (myIp netmask routerIp addressTimeout : UInt32) (nackDns : Bool)
      (h : Machine.History Message (Int × Option Response)) (s : DhcpServerData),
      (dhcpServer (dhcpServerInit myIp netmask routerIp addressTimeout nackDns)).Reaches h s →
      ∀ m, AcksSound s m := by
  intro hall
  have hrun : ∃ s' ret r, processDhcpMessage homeServer doubleRequest = some (s', ret, some r) ∧
      r.type = .ack ∧ r.yiaddr = 0x0100000a :=
    ⟨_, _, _, rfl, rfl, rfl⟩
  obtain ⟨s', ret, r, hproc, hack, hip⟩ := hrun
  have hsub := (hall _ _ _ _ _ [] homeServer .init doubleRequest s' ret r hproc hack).inSubnet
  rw [hip] at hsub
  exact absurd hsub (by decide)

end Acks

end BdkRtt.Dhcp
