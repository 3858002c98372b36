import BdkRtt.Lib.Machine
import BdkRtt.Wlan.BkAware

universe u

namespace BdkRtt.Wlan

open Lib

/-- `bk_aware_peer_info_t`; a pointer is `none` for NULL. -/
structure BkAwarePeerInfo (κ : Type u) where
  peerAddr : EtherAddr
  lmk : Vector UInt8 16
  channel : UInt8
  ifidx : UInt8
  encrypt : Bool
  priv : Option κ
  deriving DecidableEq

/-- What the functions return. -/
inductive PeerErr
  | ok
  | notInit
  | arg
  | noMem
  | notFound
  | exist
  deriving DecidableEq

/-- The `struct bk_aware_peer_priv`s in list order, and what the memory at an address holds: such a
structure, of which only the pointer `peer` is looked at, or a copied `bk_aware_peer_info_t`. -/
structure PeerTable (κ : Type u) where
  inited : Bool
  list : List κ
  priv : κ → Option (Option κ)
  info : κ → Option (BkAwarePeerInfo κ)

/-- The table behind `bk_aware_init`. -/
def PeerTable.fresh (κ : Type u) : PeerTable κ where
  inited := true
  list := []
  priv _ := none
  info _ := none

/-- An element of the list, with what its pointers lead to. -/
structure PeerEntry (κ : Type u) where
  priv : κ
  peer : κ
  info : BkAwarePeerInfo κ
  deriving DecidableEq

def PeerEntry.addr {κ : Type u} (e : PeerEntry κ) : EtherAddr := e.info.peerAddr

namespace PeerTable

variable {κ : Type u} (t : PeerTable κ)

/-- `priv->peer` and what is there; `none` where a pointer does not lead to memory in use. -/
def entry (priv : κ) : Option (PeerEntry κ) :=
  (t.priv priv).bind fun peer => peer.bind fun peer => (t.info peer).map fun info =>
    ⟨priv, peer, info⟩

/-- The loop over the list that all functions have; `none` is an access through a bad pointer. -/
def search (addr : EtherAddr) : List κ → Option (Option (PeerEntry κ))
  | [] => some none
  | priv :: rest =>
    (t.entry priv).bind fun e => if e.addr = addr then some (some e) else search addr rest

def bkAwareIsPeerExist (addr : EtherAddr) : Option Bool :=
  (t.search addr t.list).map Option.isSome

variable [DecidableEq κ]

/-- `bk_aware_add_peer`, with what the two calls of `os_malloc` return. -/
def bkAwareAddPeer (peer : Option (BkAwarePeerInfo κ)) (priv info : Option κ) :
    Option (PeerTable κ × PeerErr) :=
  match peer with
  | none => some (t, .arg)
  | some peer =>
    (t.bkAwareIsPeerExist peer.peerAddr).map fun exist =>
      if exist then (t, .exist)
      else
        match priv, info with
        | some priv, some info =>
          ({ t with
              list := t.list ++ [priv]
              priv := Function.update t.priv priv (some (some info))
              info := Function.update t.info info (some { peer with priv := some priv }) }, .ok)
        | _, _ => (t, .noMem)

def bkAwareDelPeer (addr : Option EtherAddr) : Option (PeerTable κ × PeerErr) :=
  match addr with
  | none => some (t, .arg)
  | some addr =>
    if !t.inited then some (t, .notInit)
    else
      (t.search addr t.list).map fun found =>
        match found with
        | some e =>
          ({ t with
              list := t.list.erase e.priv
              priv := Function.update t.priv e.priv none
              info := Function.update t.info e.peer none }, .ok)
        | none => (t, .notFound)

def bkAwareModPeer (peer : Option (BkAwarePeerInfo κ)) : Option (PeerTable κ × PeerErr) :=
  match peer with
  | none => some (t, .arg)
  | some peer =>
    if !t.inited then some (t, .notInit)
    else
      (t.search peer.peerAddr t.list).map fun found =>
        match found with
        | some e => ({ t with info := Function.update t.info e.peer (some peer) }, .ok)
        | none => (t, .ok)

/-- `bk_aware_get_peer`, with what is copied to `peer_out`, a pointer that may be NULL. -/
def bkAwareGetPeer (addr : Option EtherAddr) (peerOut : Bool) :
    Option (PeerErr × Option (BkAwarePeerInfo κ)) :=
  if !t.inited then some (.notInit, none)
  else
    match addr, peerOut with
    | some addr, true =>
      (t.search addr t.list).map fun found =>
        match found with
        | some e => (.ok, some e.info)
        | none => (.notFound, none)
    | _, _ => some (.arg, none)

end PeerTable

section Machine

variable {κ : Type u}

inductive PeerEvent (κ : Type u)
  | add (peer : Option (BkAwarePeerInfo κ)) (priv info : Option κ)
  | del (addr : Option EtherAddr)
  | mod (peer : Option (BkAwarePeerInfo κ))
  | get (addr : Option EtherAddr) (peerOut : Bool)
  deriving DecidableEq

/-- What a call returns and copies out. -/
abbrev PeerAnswer (κ : Type u) := PeerErr × Option (BkAwarePeerInfo κ)

variable [DecidableEq κ] (t : PeerTable κ)

def PeerEvent.perform : PeerEvent κ → Option (PeerTable κ × PeerAnswer κ)
  | .add peer priv info => (t.bkAwareAddPeer peer priv info).map fun r => (r.1, r.2, none)
  | .del addr => (t.bkAwareDelPeer addr).map fun r => (r.1, r.2, none)
  | .mod peer => (t.bkAwareModPeer peer).map fun r => (r.1, r.2, none)
  | .get addr peerOut => (t.bkAwareGetPeer addr peerOut).map fun r => (t, r)

/-- Nothing stands at the address. -/
def PeerTable.Free (a : κ) : Prop := t.priv a = none ∧ t.info a = none

/-- What `os_malloc` returns is not in use. -/
def PeerEvent.Allocates : PeerEvent κ → Prop
  | .add _ priv info =>
    (∀ a ∈ priv, t.Free a) ∧ (∀ a ∈ info, t.Free a) ∧ ∀ a ∈ priv, ∀ b ∈ info, a ≠ b
  | _ => True

instance (a : κ) : Decidable (t.Free a) := inferInstanceAs (Decidable (_ ∧ _))

instance (e : PeerEvent κ) : Decidable (e.Allocates t) :=
  match e with
  | .add .. => inferInstanceAs (Decidable (_ ∧ _))
  | .del _ | .mod _ | .get .. => inferInstanceAs (Decidable True)

/-- The table under calls of its functions; the answer `none` is an access through a bad
pointer. -/
def peerTable : Machine (PeerTable κ) (PeerEvent κ) (Option (PeerAnswer κ)) where
  init := .fresh κ
  step t e :=
    if e.Allocates t then
      match e.perform t with
      | some (t, o) => some (t, some o)
      | none => some (t, none)
    else none

end Machine

end BdkRtt.Wlan
