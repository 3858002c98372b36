import BdkRtt.Lib.Keyed
import BdkRtt.Wlan.BkAwarePeers

universe u

namespace BdkRtt.Wlan

open Lib

variable {κ : Type u}

section Spec

/-- A finite map of peers. -/
abbrev PeerMap (κ : Type u) := EtherAddr → Option (BkAwarePeerInfo κ)

/-- What the calls should do, on a map: an entry gets the address of its own memory, and only the
peers there are can be modified. -/
def PeerEvent.onMap (M : PeerMap κ) : PeerEvent κ → PeerMap κ × PeerAnswer κ
  | .add (some peer) priv info =>
    if (M peer.peerAddr).isSome then (M, .exist, none)
    else if priv.isSome ∧ info.isSome then
      (Function.update M peer.peerAddr (some { peer with priv := priv }), .ok, none)
    else (M, .noMem, none)
  | .del (some addr) =>
    if (M addr).isSome then (Function.update M addr none, .ok, none) else (M, .notFound, none)
  | .mod (some peer) =>
    (if (M peer.peerAddr).isSome then Function.update M peer.peerAddr (some peer) else M, .ok, none)
  | .get (some addr) true =>
    (M, match M addr with
      | some peer => (.ok, some peer)
      | none => (.notFound, none))
  | .add none .. | .del none | .mod none | .get none _ | .get (some _) false => (M, .arg, none)

def peerMap : Machine (PeerMap κ) (PeerEvent κ) (Option (PeerAnswer κ)) where
  init _ := none
  step M e := some ((e.onMap M).1, some (e.onMap M).2)

/-- The map after an answered call, where a call that returns `BK_OK` has been carried out. -/
def settle (M : PeerMap κ) : PeerEvent κ × Option (PeerAnswer κ) → PeerMap κ
  | (.add (some peer) priv _, some (.ok, _)) =>
    Function.update M peer.peerAddr (some { peer with priv := priv })
  | (.del (some addr), some (.ok, _)) => Function.update M addr none
  | (.mod (some peer), some (.ok, _)) => Function.update M peer.peerAddr (some peer)
  | _ => M

abbrev PeerHistory (κ : Type u) := Machine.History (PeerEvent κ) (Option (PeerAnswer κ))

/-- What the last successful calls have left at each address. -/
def settled (h : PeerHistory κ) : PeerMap κ := h.foldl settle fun _ => none

theorem settled_concat (h : PeerHistory κ) (x : PeerEvent κ × Option (PeerAnswer κ)) :
    settled (h ++ [x]) = settle (settled h) x := List.foldl_append

variable (t : PeerTable κ)

/-- No address occurs twice, and both lookups answer as the map does. -/
structure Maps (M : PeerMap κ) : Prop where
  unique : t.list.Pairwise fun a b =>
    (t.entry a).map PeerEntry.addr ≠ (t.entry b).map PeerEntry.addr
  exist : ∀ addr, t.bkAwareIsPeerExist addr = some (M addr).isSome
  get : ∀ addr, t.bkAwareGetPeer (some addr) true = some (match M addr with
    | some peer => (.ok, some peer)
    | none => (.notFound, none))

/-- The table is the map of the last successful calls, and `priv->peer->priv = priv`. -/
structure PeerLaw (h : PeerHistory κ) (t : PeerTable κ) : Prop extends Maps t (settled h) where
  back : ∀ priv ∈ t.list, ∃ e, t.entry priv = some e ∧ e.info.priv = some priv

/-- A call that modifies a peer does it for one in the table, and hands back the pointer of its
entry. -/
def HandsBack (t : PeerTable κ) : PeerEvent κ → Prop
  | .mod (some peer) =>
    ∃ e, t.search peer.peerAddr t.list = some (some e) ∧ peer.priv = some e.priv
  | _ => True

end Spec

section Entries

/-- The list and the memory hold these entries. -/
structure Holds (t : PeerTable κ) (es : List (PeerEntry κ)) : Prop where
  inited : t.inited = true
  list : t.list = es.map PeerEntry.priv
  privs : ∀ e ∈ es, t.priv e.priv = some (some e.peer)
  infos : ∀ e ∈ es, t.info e.peer = some e.info
  privNodup : (es.map PeerEntry.priv).Nodup
  peerNodup : (es.map PeerEntry.peer).Nodup
  addrNodup : (es.map PeerEntry.addr).Nodup

/-- The entry with another structure copied over what it had. -/
def PeerEntry.modify (peer : BkAwarePeerInfo κ) (e : PeerEntry κ) : PeerEntry κ :=
  { e with info := peer }

def infosOf (es : List (PeerEntry κ)) : PeerMap κ := fun addr =>
  (Keyed.lookup PeerEntry.addr es addr).map PeerEntry.info

/-- The entries after a call. -/
def PeerEvent.after (es : List (PeerEntry κ)) : PeerEvent κ → List (PeerEntry κ)
  | .add (some peer) (some priv) (some info) =>
    if (Keyed.lookup PeerEntry.addr es peer.peerAddr).isSome then es
    else es ++ [⟨priv, info, { peer with priv := some priv }⟩]
  | .del (some addr) => Keyed.remove PeerEntry.addr es addr
  | .mod (some peer) => Keyed.change PeerEntry.addr es peer.peerAddr (.modify peer)
  | _ => es

variable {t : PeerTable κ} {es : List (PeerEntry κ)} {e : PeerEntry κ} {addr : EtherAddr}

theorem isSome_infosOf : (infosOf es addr).isSome =
    (Keyed.lookup PeerEntry.addr es addr).isSome := Option.isSome_map

theorem holds_fresh : Holds (PeerTable.fresh κ) [] where
  inited := rfl
  list := rfl
  privs _ he := absurd he List.not_mem_nil
  infos _ he := absurd he List.not_mem_nil
  privNodup := List.nodup_nil
  peerNodup := List.nodup_nil
  addrNodup := List.nodup_nil

theorem Holds.entry (h : Holds t es) (he : e ∈ es) : t.entry e.priv = some e := by
  rw [PeerTable.entry, h.privs e he, Option.bind_some, Option.bind_some, h.infos e he]
  rfl

theorem Holds.search (h : Holds t es) (addr : EtherAddr) :
    t.search addr t.list = some (Keyed.lookup PeerEntry.addr es addr) := by
  rw [h.list]
  have hentry : ∀ e ∈ es, t.entry e.priv = some e := fun e he => h.entry he
  clear h
  induction es with
  | nil => rfl
  | cons e es ih =>
    rw [List.map_cons, PeerTable.search, hentry e List.mem_cons_self, Option.bind_some,
      Keyed.lookup_cons, ih fun e' he' => hentry e' (List.mem_cons_of_mem e he')]
    split <;> rfl

theorem Holds.maps (h : Holds t es) : Maps t (infosOf es) where
  unique := by
    rw [h.list, List.pairwise_map]
    have haddr := List.pairwise_map.mp (List.nodup_iff_pairwise_ne.mp h.addrNodup)
    refine haddr.imp_of_mem fun {a b} ha hb hne heq => hne ?_
    rw [h.entry ha, h.entry hb] at heq
    exact Option.some.inj heq
  exist addr := by
    rw [PeerTable.bkAwareIsPeerExist, h.search, isSome_infosOf]
    rfl
  get addr := by
    have hinited : ¬ (!t.inited) = true := by
      rw [h.inited]
      exact Bool.false_ne_true
    rw [PeerTable.bkAwareGetPeer, if_neg hinited, infosOf, h.search]
    cases Keyed.lookup PeerEntry.addr es addr <;> rfl

theorem infosOf_remove (es : List (PeerEntry κ)) (addr : EtherAddr) :
    infosOf (Keyed.remove PeerEntry.addr es addr) = Function.update (infosOf es) addr none := by
  funext k
  rw [infosOf, Keyed.lookup_remove, Function.update_apply]
  split <;> rfl

theorem infosOf_concat (h : Keyed.lookup PeerEntry.addr es e.addr = none) :
    infosOf (es ++ [e]) = Function.update (infosOf es) e.addr (some e.info) := by
  funext k
  rw [infosOf, Keyed.lookup_concat h, Function.update_apply]
  split <;> rfl

theorem infosOf_change (es : List (PeerEntry κ)) (peer : BkAwarePeerInfo κ) :
    infosOf (Keyed.change PeerEntry.addr es peer.peerAddr (.modify peer)) =
      if (infosOf es peer.peerAddr).isSome then
        Function.update (infosOf es) peer.peerAddr (some peer)
      else infosOf es := by
  funext k
  have hkey : ∀ e : PeerEntry κ, e.addr = peer.peerAddr → (e.modify peer).addr = peer.peerAddr :=
    fun _ _ => rfl
  rw [infosOf, Keyed.lookup_change hkey, isSome_infosOf]
  by_cases hk : k = peer.peerAddr
  · rw [if_pos hk, hk]
    cases hfound : Keyed.lookup PeerEntry.addr es peer.peerAddr with
    | none =>
      rw [if_neg (by rw [Option.isSome_none]; exact Bool.false_ne_true), infosOf, hfound]
      rfl
    | some e =>
      rw [if_pos Option.isSome_some, Function.update_self]
      rfl
  · rw [if_neg hk]
    split
    · rw [Function.update_of_ne hk]
      rfl
    · rfl

/-- The call on the map is the call on the entries. -/
theorem onMap_infosOf (es : List (PeerEntry κ)) (x : PeerEvent κ) :
    (x.onMap (infosOf es)).1 = infosOf (x.after es) := by
  cases x with
  | add peer priv info =>
    cases peer with
    | none => rfl
    | some peer =>
      rw [PeerEvent.onMap, isSome_infosOf]
      cases hfound : Keyed.lookup PeerEntry.addr es peer.peerAddr with
      | some e =>
        rw [Option.isSome_some, if_pos rfl]
        cases priv <;> cases info <;> first | rfl | rw [PeerEvent.after, hfound]; rfl
      | none =>
        rw [Option.isSome_none, if_neg Bool.false_ne_true]
        cases priv with
        | none => rfl
        | some priv =>
          cases info with
          | none => rfl
          | some info =>
            rw [PeerEvent.after, hfound, Option.isSome_none, if_neg Bool.false_ne_true,
              if_pos ⟨rfl, rfl⟩]
            exact (infosOf_concat (e := ⟨priv, info, { peer with priv := some priv }⟩) hfound).symm
  | del addr =>
    cases addr with
    | none => rfl
    | some addr =>
      rw [PeerEvent.onMap, PeerEvent.after, infosOf_remove]
      split
      next => rfl
      next hnone =>
        refine (Function.update_eq_self_iff.mpr ?_).symm
        exact (Option.not_isSome_iff_eq_none.mp hnone).symm
  | mod peer =>
    cases peer with
    | none => rfl
    | some peer => exact (infosOf_change es peer).symm
  | get addr peerOut =>
    cases addr with
    | none => rfl
    | some addr => cases peerOut <;> rfl

variable [DecidableEq κ]

theorem Holds.add (h : Holds t es) {peer : BkAwarePeerInfo κ} {priv info : κ}
    (hnew : Keyed.lookup PeerEntry.addr es peer.peerAddr = none) (hpriv : t.Free priv)
    (hinfo : t.Free info) :
    Holds { t with
        list := t.list ++ [priv]
        priv := Function.update t.priv priv (some (some info))
        info := Function.update t.info info (some { peer with priv := some priv }) }
      (es ++ [⟨priv, info, { peer with priv := some priv }⟩]) := by
  have hprivs : ∀ e ∈ es, e.priv ≠ priv := by
    rintro e he rfl
    have hused := h.privs e he
    rw [hpriv.1] at hused
    cases hused
  have hinfos : ∀ e ∈ es, e.peer ≠ info := by
    rintro e he rfl
    have hused := h.infos e he
    rw [hinfo.2] at hused
    cases hused
  constructor
  · exact h.inited
  · rw [List.map_append, ← h.list]
    rfl
  · intro e he
    rcases List.mem_append.mp he with he | he
    · rw [← h.privs e he]
      exact Function.update_of_ne (hprivs e he) ..
    · rw [List.mem_singleton.mp he]
      exact Function.update_self ..
  · intro e he
    rcases List.mem_append.mp he with he | he
    · rw [← h.infos e he]
      exact Function.update_of_ne (hinfos e he) ..
    · rw [List.mem_singleton.mp he]
      exact Function.update_self ..
  · exact Keyed.nodup_concat h.privNodup hprivs
  · exact Keyed.nodup_concat h.peerNodup hinfos
  · exact Keyed.nodup_concat h.addrNodup (Keyed.lookup_eq_none.mp hnew)

theorem Holds.del (h : Holds t es) (he : Keyed.lookup PeerEntry.addr es addr = some e) :
    Holds { t with
        list := t.list.erase e.priv
        priv := Function.update t.priv e.priv none
        info := Function.update t.info e.peer none }
      (Keyed.remove PeerEntry.addr es addr) := by
  have hmem := Keyed.mem_of_lookup he
  have hsub : (Keyed.remove PeerEntry.addr es addr).Sublist es := List.filter_sublist
  have hother : ∀ e' ∈ Keyed.remove PeerEntry.addr es addr, e' ∈ es ∧ e' ≠ e := by
    intro e' he'
    obtain ⟨he', hne⟩ := Keyed.mem_remove.mp he'
    exact ⟨he', fun heq => hne (heq ▸ Keyed.key_of_lookup he)⟩
  constructor
  · exact h.inited
  · obtain ⟨pre, post, rfl, hremove⟩ := Keyed.split_of_lookup h.addrNodup he
    have hpriv := h.privNodup
    rw [List.map_append, List.map_cons, List.nodup_append] at hpriv
    have hpre : e.priv ∉ pre.map PeerEntry.priv := fun hin =>
      hpriv.2.2 _ hin _ List.mem_cons_self rfl
    change t.list.erase e.priv = _
    rw [h.list, hremove, List.map_append, List.map_cons, List.erase_append_right _ hpre,
      List.erase_cons_head, List.map_append]
  · intro e' he'
    obtain ⟨he', hne⟩ := hother e' he'
    rw [← h.privs e' he']
    exact Function.update_of_ne
      (fun heq => hne (List.inj_on_of_nodup_map h.privNodup he' hmem heq)) ..
  · intro e' he'
    obtain ⟨he', hne⟩ := hother e' he'
    rw [← h.infos e' he']
    exact Function.update_of_ne
      (fun heq => hne (List.inj_on_of_nodup_map h.peerNodup he' hmem heq)) ..
  · exact h.privNodup.sublist (hsub.map _)
  · exact h.peerNodup.sublist (hsub.map _)
  · exact h.addrNodup.sublist (hsub.map _)

theorem Holds.mod (h : Holds t es) {peer : BkAwarePeerInfo κ}
    (he : Keyed.lookup PeerEntry.addr es peer.peerAddr = some e) :
    Holds { t with info := Function.update t.info e.peer (some peer) }
      (Keyed.change PeerEntry.addr es peer.peerAddr (.modify peer)) := by
  have hmem := Keyed.mem_of_lookup he
  have hpriv : (Keyed.change PeerEntry.addr es peer.peerAddr (.modify peer)).map PeerEntry.priv =
      es.map PeerEntry.priv := by
    refine Keyed.map_change (fun e _ => ?_) es
    rfl
  have hpeer : (Keyed.change PeerEntry.addr es peer.peerAddr (.modify peer)).map PeerEntry.peer =
      es.map PeerEntry.peer := by
    refine Keyed.map_change (fun e _ => ?_) es
    rfl
  have haddr : (Keyed.change PeerEntry.addr es peer.peerAddr (.modify peer)).map PeerEntry.addr =
      es.map PeerEntry.addr := by
    refine Keyed.map_change (fun e hkey => ?_) es
    exact hkey.symm
  constructor
  · exact h.inited
  · rw [hpriv]
    exact h.list
  · intro e' he'
    rcases Keyed.mem_change he' with ⟨hin, -⟩ | ⟨e', hin, -, rfl⟩
    · exact h.privs e' hin
    · exact h.privs e' hin
  · intro e' he'
    rcases Keyed.mem_change he' with ⟨hin, hne⟩ | ⟨e', hin, hkey, rfl⟩
    · rw [← h.infos e' hin]
      refine Function.update_of_ne (fun heq => hne ?_) ..
      rw [List.inj_on_of_nodup_map h.peerNodup hin hmem heq]
      exact Keyed.key_of_lookup he
    · have hsame := Keyed.lookup_of_mem h.addrNodup hin
      rw [hkey, he] at hsame
      obtain rfl := Option.some.inj hsame
      exact Function.update_self ..
  · rw [hpriv]
    exact h.privNodup
  · rw [hpeer]
    exact h.peerNodup
  · rw [haddr]
    exact h.addrNodup

/-- The call answers as the map does, and leaves the entries as they are to be. -/
def Performs (t : PeerTable κ) (es : List (PeerEntry κ)) (x : PeerEvent κ) : Prop :=
  ∃ t', x.perform t = some (t', (x.onMap (infosOf es)).2) ∧ Holds t' (x.after es)

omit [DecidableEq κ] in
theorem Holds.not_uninited (h : Holds t es) : ¬ (!t.inited) = true := by
  rw [h.inited]
  exact Bool.false_ne_true

theorem Holds.performs_add (h : Holds t es) {peer : Option (BkAwarePeerInfo κ)}
    {priv info : Option κ} (hx : (PeerEvent.add peer priv info).Allocates t) :
    Performs t es (.add peer priv info) := by
  cases peer with
  | none => exact ⟨t, rfl, h⟩
  | some peer =>
    have hexist := h.maps.exist peer.peerAddr
    rw [isSome_infosOf] at hexist
    unfold Performs PeerEvent.perform PeerTable.bkAwareAddPeer
    rw [PeerEvent.onMap, isSome_infosOf]
    dsimp only
    rw [hexist]
    cases hfound : Keyed.lookup PeerEntry.addr es peer.peerAddr with
    | some e =>
      refine ⟨t, rfl, ?_⟩
      cases priv <;> cases info <;> first | exact h | rw [PeerEvent.after, hfound]; exact h
    | none =>
      cases priv with
      | none => exact ⟨t, rfl, h⟩
      | some priv =>
        cases info with
        | none => exact ⟨t, rfl, h⟩
        | some info =>
          refine ⟨_, rfl, ?_⟩
          rw [PeerEvent.after, hfound]
          exact h.add hfound (hx.1 priv rfl) (hx.2.1 info rfl)

theorem Holds.performs_del (h : Holds t es) (addr : Option EtherAddr) :
    Performs t es (.del addr) := by
  cases addr with
  | none => exact ⟨t, rfl, h⟩
  | some addr =>
    rw [Performs, PeerEvent.perform, PeerTable.bkAwareDelPeer, if_neg h.not_uninited, h.search,
      PeerEvent.onMap, isSome_infosOf]
    cases hfound : Keyed.lookup PeerEntry.addr es addr with
    | some e => exact ⟨_, rfl, h.del hfound⟩
    | none =>
      refine ⟨t, rfl, ?_⟩
      rw [PeerEvent.after, Keyed.remove_of_lookup_eq_none hfound]
      exact h

theorem Holds.performs_mod (h : Holds t es) (peer : Option (BkAwarePeerInfo κ)) :
    Performs t es (.mod peer) := by
  cases peer with
  | none => exact ⟨t, rfl, h⟩
  | some peer =>
    rw [Performs, PeerEvent.perform, PeerTable.bkAwareModPeer, if_neg h.not_uninited, h.search]
    cases hfound : Keyed.lookup PeerEntry.addr es peer.peerAddr with
    | some e => exact ⟨_, rfl, h.mod hfound⟩
    | none =>
      refine ⟨t, rfl, ?_⟩
      rw [PeerEvent.after, Keyed.change_of_lookup_eq_none hfound]
      exact h

theorem Holds.performs_get (h : Holds t es) (addr : Option EtherAddr) (peerOut : Bool) :
    Performs t es (.get addr peerOut) := by
  refine ⟨t, ?_, h⟩
  cases addr with
  | none =>
    rw [PeerEvent.perform]
    unfold PeerTable.bkAwareGetPeer
    rw [if_neg h.not_uninited]
    rfl
  | some addr =>
    cases peerOut with
    | false =>
      rw [PeerEvent.perform]
      unfold PeerTable.bkAwareGetPeer
      rw [if_neg h.not_uninited]
      rfl
    | true =>
      rw [PeerEvent.perform, h.maps.get addr]
      rfl

/-- Each call answers as it does on the map, and leaves the entries after it. -/
theorem Holds.perform (h : Holds t es) {x : PeerEvent κ} (hx : x.Allocates t) :
    Performs t es x := by
  cases x with
  | add peer priv info => exact h.performs_add hx
  | del addr => exact h.performs_del addr
  | mod peer => exact h.performs_mod peer
  | get addr peerOut => exact h.performs_get addr peerOut

end Entries

section Run

variable {t t' : PeerTable κ} {es : List (PeerEntry κ)} {h : PeerHistory κ}
  {x : PeerEvent κ} {o : Option (PeerAnswer κ)}

/-- The entries point back to the memory they stand in, and are what the last successful calls
have left. -/
structure EntriesOk (h : PeerHistory κ) (t : PeerTable κ) (es : List (PeerEntry κ)) : Prop
    extends Holds t es where
  settled : infosOf es = settled h
  back : ∀ e ∈ es, e.info.priv = some e.priv

theorem EntriesOk.law (hes : EntriesOk h t es) : PeerLaw h t where
  toMaps := hes.settled ▸ hes.maps
  back priv hpriv := by
    rw [hes.list] at hpriv
    obtain ⟨e, he, rfl⟩ := List.mem_map.mp hpriv
    exact ⟨e, hes.entry he, hes.back e he⟩

/-- The only entry at an address is the one that the loop finds. -/
theorem Holds.eq_of_search (hes : Holds t es) {e e' : PeerEntry κ} {addr : EtherAddr}
    (hsearch : t.search addr t.list = some (some e)) (he' : e' ∈ es) (haddr : e'.addr = addr) :
    e' = e := by
  have hsame := Keyed.lookup_of_mem hes.addrNodup he'
  rw [hes.search] at hsearch
  rw [haddr, Option.some.inj hsearch] at hsame
  exact (Option.some.inj hsame).symm

/-- A call that hands back the pointer leaves on the map what its answer says. -/
theorem settle_onMap (hes : Holds t es) (hback : HandsBack t x) :
    settle (infosOf es) (x, some (x.onMap (infosOf es)).2) = (x.onMap (infosOf es)).1 := by
  cases x with
  | add peer priv info =>
    cases peer with
    | none => rfl
    | some peer =>
      rw [PeerEvent.onMap]
      split
      · rfl
      · split <;> rfl
  | del addr =>
    cases addr with
    | none => rfl
    | some addr =>
      rw [PeerEvent.onMap]
      split <;> rfl
  | mod peer =>
    cases peer with
    | none => rfl
    | some peer =>
      obtain ⟨e, hfound, -⟩ := hback
      rw [hes.search] at hfound
      rw [PeerEvent.onMap, isSome_infosOf, Option.some.inj hfound, Option.isSome_some, if_pos rfl]
      rfl
  | get addr peerOut =>
    cases addr with
    | none => rfl
    | some addr => cases peerOut <;> rfl

theorem after_back (hes : Holds t es) (hback : HandsBack t x)
    (hall : ∀ e ∈ es, e.info.priv = some e.priv) :
    ∀ e ∈ x.after es, e.info.priv = some e.priv := by
  cases x with
  | add peer priv info =>
    cases peer with
    | none => exact hall
    | some peer =>
      cases priv with
      | none => exact hall
      | some priv =>
        cases info with
        | none => exact hall
        | some info =>
          rw [PeerEvent.after]
          split
          · exact hall
          · intro e he
            rcases List.mem_append.mp he with he | he
            · exact hall e he
            · rw [List.mem_singleton.mp he]
  | del addr =>
    cases addr with
    | none => exact hall
    | some addr => exact fun e he => hall e (Keyed.mem_remove.mp he).1
  | mod peer =>
    cases peer with
    | none => exact hall
    | some peer =>
      intro e' he'
      rcases Keyed.mem_change he' with ⟨hin, -⟩ | ⟨e', hin, haddr, rfl⟩
      · exact hall e' hin
      · obtain ⟨e, hfound, hpriv⟩ := hback
        rw [hes.eq_of_search hfound hin haddr]
        exact hpriv
  | get addr peerOut => exact hall

variable [DecidableEq κ]

/-- What a step of the table can be. -/
theorem Holds.step (hes : Holds t es) (hstep : peerTable.step t x = some (t', o)) :
    o = some (x.onMap (infosOf es)).2 ∧ Holds t' (x.after es) := by
  rw [peerTable] at hstep
  dsimp only at hstep
  split at hstep
  next hx =>
    obtain ⟨t₁, hperform, hafter⟩ := hes.perform hx
    rw [hperform] at hstep
    obtain ⟨rfl, rfl⟩ := Prod.mk.inj (Option.some.inj hstep)
    exact ⟨rfl, hafter⟩
  next => cases hstep

/-- In every run the table is a finite map. -/
theorem table_is_map (hr : peerTable.Reaches h t) : ∃ M, peerMap.Reaches h M ∧ Maps t M := by
  have hsim := hr.simulates (A := peerMap) id (fun t M => ∃ es, Holds t es ∧ M = infosOf es)
    ⟨[], holds_fresh, rfl⟩ ?_
  · obtain ⟨M, hM, es, hes, rfl⟩ := hsim
    rw [List.map_id] at hM
    exact ⟨_, hM, hes.maps⟩
  · rintro t M x t' o ⟨es, hes, rfl⟩ - hstep
    obtain ⟨rfl, hafter⟩ := hes.step hstep
    exact ⟨_, congrArg some (Prod.ext (onMap_infosOf es x) rfl), _, hafter, rfl⟩

theorem EntriesOk.step (hes : EntriesOk h t es) (hback : HandsBack t x)
    (hstep : peerTable.step t x = some (t', o)) : EntriesOk (h ++ [(x, o)]) t' (x.after es) := by
  obtain ⟨rfl, hafter⟩ := hes.toHolds.step hstep
  refine ⟨hafter, ?_, after_back hes.toHolds hback hes.back⟩
  rw [settled_concat, ← hes.settled, settle_onMap hes.toHolds hback, onMap_infosOf]

theorem entriesOk_of_reaches (hr : peerTable.ReachesUnder HandsBack h t) : ∃ es, EntriesOk h t es :=
  hr.invariant (fun h t => ∃ es, EntriesOk h t es)
    ⟨[], holds_fresh, rfl, fun _ he => absurd he List.not_mem_nil⟩
    fun hes hback hstep => hes.elim fun _ hes => ⟨_, hes.step hback hstep⟩

/-- A step that keeps the law hands back the pointer. -/
theorem EntriesOk.handsBack (hes : EntriesOk h t es) (hstep : peerTable.step t x = some (t', o))
    (hlaw : PeerLaw (h ++ [(x, o)]) t') : HandsBack t x := by
  cases x with
  | add peer priv info => trivial
  | del addr => trivial
  | get addr peerOut => trivial
  | mod peer =>
    cases peer with
    | none => trivial
    | some peer =>
      obtain ⟨rfl, hafter⟩ := hes.toHolds.step hstep
      cases hfound : Keyed.lookup PeerEntry.addr es peer.peerAddr with
      | none =>
        -- the call returns `BK_OK` for a peer that the table still does not have
        have hexist := hlaw.exist peer.peerAddr
        rw [hafter.maps.exist, PeerEvent.after, Keyed.change_of_lookup_eq_none hfound,
          isSome_infosOf, hfound, settled_concat] at hexist
        change some false = some (Function.update (Wlan.settled h) peer.peerAddr (some peer)
          peer.peerAddr).isSome at hexist
        rw [Function.update_self] at hexist
        cases hexist
      | some e =>
        refine ⟨e, by rw [hes.search, hfound], ?_⟩
        have hin : e.modify peer ∈ PeerEvent.after es (.mod (some peer)) := by
          rw [PeerEvent.after, Keyed.change]
          refine List.mem_map.mpr ⟨e, Keyed.mem_of_lookup hfound, ?_⟩
          rw [if_pos (Keyed.key_of_lookup hfound)]
        have hpriv : e.priv ∈ t'.list := by
          rw [hafter.list]
          exact List.mem_map.mpr ⟨_, hin, rfl⟩
        obtain ⟨e', hentry, hback⟩ := hlaw.back e.priv hpriv
        have hentry' : t'.entry e.priv = some (e.modify peer) := hafter.entry hin
        rw [hentry'] at hentry
        obtain rfl := Option.some.inj hentry
        exact hback

end Run

/-- In every run the table is a finite map, in which only the peers there are can be modified.
It is the map of the last successful calls, with every entry's back pointer, throughout the runs
in which each call that modifies hands back the pointer of an entry, and in no others. -/
theorem peer_table_obeys [DecidableEq κ] (h : PeerHistory κ) (t : PeerTable κ) :
    (peerTable.Reaches h t → ∃ M, peerMap.Reaches h M ∧ Maps t M) ∧
      (peerTable.ReachesUnder HandsBack h t → PeerLaw h t) ∧
      (peerTable.ReachesUnder HandsBack h t ↔ peerTable.ReachesWithin PeerLaw h t) := by
  have hkeep {h : PeerHistory κ} {t : PeerTable κ} (hr : peerTable.ReachesUnder HandsBack h t) :
      PeerLaw h t := by
    obtain ⟨es, hes⟩ := entriesOk_of_reaches hr
    exact hes.law
  refine ⟨table_is_map, hkeep, Machine.reachesUnder_iff_within hkeep ?_⟩
  intro h t x t' o hr hstep hlaw
  obtain ⟨es, hes⟩ := entriesOk_of_reaches hr
  exact hes.handsBack hstep hlaw

/-- A peer that its user knows by address only. -/
def strange : BkAwarePeerInfo Nat where
  peerAddr := Vector.replicate 6 2
  lmk := Vector.replicate 16 0
  channel := 0
  ifidx := 0
  encrypt := false
  priv := none

/-- A peer that is added and modified by a structure of the user's own has its pointer
overwritten. -/
theorem modify_loses_pointer : ¬ ∀ (h : PeerHistory Nat) (t : PeerTable Nat),
    peerTable.Reaches h t → PeerLaw h t := by
  intro hall
  have hx : (peerTable.exec [.add (some strange) (some 1) (some 2), .mod (some strange)]) =
      some ([(.add (some strange) (some 1) (some 2), some (.ok, none)),
        (.mod (some strange), some (.ok, none))], _) := rfl
  obtain ⟨e, he, hpriv⟩ := (hall _ _ (Machine.reaches_of_exec hx)).back 1 List.mem_cons_self
  cases he
  cases hpriv

end BdkRtt.Wlan
