import BdkRtt.Video.NodeRx
import BdkRtt.Lib.Words

namespace BdkRtt.Video.NodeRx

open Lib

section View

abbrev History := Machine.History Event Answer

def Answer.handed (a : Answer) : List UInt8 := (a.nodeFull.map NodeFull.bytes).getD []

/-- What the DMA has stored. -/
def received (h : History) : List UInt8 := h.flatMap fun x => x.2.stored

/-- What `node_full_handler` has been called with. -/
def handed (h : History) : List UInt8 := h.flatMap fun x => x.2.handed

/-- The same since the DMA was turned on. -/
def receivedSince : History → List UInt8 := Machine.since Answer.restarted Answer.stored

def handedSince : History → List UInt8 := Machine.since Answer.restarted Answer.handed

def Inside (desc : Desc) (h : History) : Prop :=
  ∀ x ∈ h, ∀ n ∈ x.2.nodeFull, n.curptr + n.bytes.length ≤ desc.rxbufLen.toNat

/-- At the end of a frame everything has been handed on. -/
def Complete (h : History) : Prop :=
  ∀ pre frameLen o, h = pre ++ [(.frameEndHandler frameLen, o)] → handed h = received h

/-- What the consumer of the nodes relies on. -/
structure Law (desc : Desc) (h : History) (s : State) : Prop where
  inside : Inside desc h
  /-- Each byte once and in order. -/
  order : handed h <+: received h
  complete : Complete h
  /-- A node that is full is handed on as long as its interrupt is pending. -/
  behind : (received h).length ≤ (handed h).length + s.dma.stored % desc.nodeLen.toNat +
    if s.dma.finishPending then desc.nodeLen.toNat else 0
  /-- What has not been handed on is in `rxbuf`. -/
  kept : (received h).length ≤ (handed h).length + desc.rxbufLen.toNat
  position : s.rxReadLen.toNat = (handedSince h).length % desc.rxbufLen.toNat

/-- What the handlers rely on: the interrupt of a full node is served before the next node is full
and before the DMA comes round to what has not been handed on, and before the end of a frame. -/
def Served (desc : Desc) (s : State) : Event → Prop
  | .dma _ => s.dma.finishPending = true →
    ¬ s.FillsNode desc ∧ s.dma.stored % desc.rxbufLen.toNat ≠ s.rxReadLen.toNat
  | .nodeRxHandler => True
  | .frameEndHandler _ => s.dma.finishPending = false

/-- Position `r` lies in the node from `base` on. -/
structure InNode (desc : Desc) (r base : Nat) : Prop where
  dvd : desc.nodeLen.toNat ∣ base
  le : base ≤ r
  lt : r < base + desc.nodeLen.toNat

/-- So does the DMA, or it is in the next one and the interrupt is pending. -/
structure Ahead (desc : Desc) (d : Dma) (r base : Nat) : Prop extends InNode desc r base where
  dma : d.finishPending = false ∧ r ≤ d.stored ∧ d.stored < base + desc.nodeLen.toNat ∨
    d.finishPending = true ∧ base + desc.nodeLen.toNat ≤ d.stored ∧
      d.stored < base + desc.nodeLen.toNat + desc.nodeLen.toNat

structure Inv (driver : Driver) (desc : Desc) (h : History) (s : State) : Prop where
  rounds : ∃ pre, received h = pre ++ receivedSince h ∧ handed h = pre ++ handedSince h
  fifo : s.rxbuf.Stream desc.rxbufLen.toNat (receivedSince h) (handedSince h).length
  prior : handedSince h = (receivedSince h).take (handedSince h).length
  stored : s.dma.stored = (receivedSince h).length
  node : ∃ base, Ahead desc s.dma (handedSince h).length base
  /-- The cameras hand on whole nodes, or the rest of a frame behind which they start anew. -/
  whole : driver ≠ .spiHslave → desc.nodeLen.toNat ∣ (handedSince h).length
  position : s.rxReadLen.toNat = (handedSince h).length % desc.rxbufLen.toNat
  inside : Inside desc h
  complete : Complete h

end View

section Numbers

theorem mod_of_base {b n r : Nat} (hdvd : n ∣ b) (hle : b ≤ r) (hlt : r < b + n) :
    r % n = r - b := by
  obtain ⟨k, rfl⟩ := Nat.exists_eq_add_of_le hle
  rw [Nat.add_sub_cancel_left, Nat.add_mod, Nat.mod_eq_zero_of_dvd hdvd, Nat.zero_add, Nat.mod_mod,
    Nat.mod_eq_of_lt (by omega)]

/-- A node that begins in front of the end does not pass it. -/
theorem node_fits {n cap i : Nat} (hdvd : n ∣ cap) (hi : i < cap) : i + (n - i % n) ≤ cap := by
  obtain ⟨k, rfl⟩ := hdvd
  have hdiv := Nat.div_add_mod i n
  have hq : i / n < k := Nat.div_lt_of_lt_mul hi
  have hle : n * (i / n + 1) ≤ n * k := Nat.mul_le_mul_left n hq
  rw [Nat.mul_succ] at hle
  omega

theorem toInt32_pos {w : UInt32} : 0 < w.toInt32 ↔ 0 < w.toNat ∧ w.toNat < 2 ^ 31 := by
  have hint : w.toInt32.toInt = (w.toNat : Int).bmod (2 ^ 32) := BitVec.toInt_eq_toNat_bmod _
  have hlt := w.toNat_lt
  rw [Int32.lt_iff_toInt_lt, hint, Int.bmod_def]
  change (0 : Int) < _ ↔ _
  omega

variable {desc : Desc} {d : Dma} {r base : Nat}

theorem Desc.node_le (desc : Desc) : desc.nodeLen.toNat ≤ desc.rxbufLen.toNat :=
  Nat.le_of_dvd desc.buf_pos desc.dvd

theorem Desc.node_lt (desc : Desc) : desc.nodeLen.toNat < 2 ^ 16 :=
  Nat.lt_of_le_of_lt desc.node_le desc.rxbufLen.toNat_lt

theorem Dma.toNat_leftLen (d : Dma) (desc : Desc) :
    (d.leftLen desc).toNat = desc.nodeLen.toNat - d.stored % desc.nodeLen.toNat := by
  have hlt := Nat.mod_lt d.stored desc.node_pos
  have hnode := desc.node_lt
  have hof : (UInt32.ofNat (d.stored % desc.nodeLen.toNat)).toNat =
      d.stored % desc.nodeLen.toNat :=
    UInt32.toNat_ofNat_of_lt' (by change _ < 2 ^ 32; omega)
  rw [Dma.leftLen, UInt32.toNat_sub_of_le, hof]
  rw [UInt32.le_iff_toNat_le, hof]
  omega

theorem InNode.mod_eq (h : InNode desc r base) : r % desc.nodeLen.toNat = r - base :=
  mod_of_base h.dvd h.le h.lt

/-- What is left of the node, counted from the place in `rxbuf`. -/
theorem InNode.mod_mod (h : InNode desc r base) :
    r % desc.rxbufLen.toNat % desc.nodeLen.toNat = r - base := by
  rw [Nat.mod_mod_of_dvd _ desc.dvd, h.mod_eq]

theorem InNode.fits (h : InNode desc r base) :
    r % desc.rxbufLen.toNat + (desc.nodeLen.toNat - (r - base)) ≤ desc.rxbufLen.toNat := by
  rw [← h.mod_mod]
  exact node_fits desc.dvd (Nat.mod_lt _ desc.buf_pos)

theorem Ahead.dma_of_off (h : Ahead desc d r base) (hoff : d.finishPending = false) :
    r ≤ d.stored ∧ d.stored < base + desc.nodeLen.toNat := by
  rcases h.dma with ⟨-, hle, hlt⟩ | ⟨hon, -⟩
  · exact ⟨hle, hlt⟩
  · rw [hoff] at hon
    cases hon

theorem Ahead.stored_mod (h : Ahead desc d r base) : d.stored % desc.nodeLen.toNat =
    d.stored - base - if d.finishPending then desc.nodeLen.toNat else 0 := by
  rcases h.dma with ⟨hoff, hle, hlt⟩ | ⟨hon, hle, hlt⟩
  · rw [hoff, mod_of_base h.dvd (Nat.le_trans h.le hle) hlt]
    rfl
  · rw [hon, mod_of_base (Nat.dvd_add h.dvd (Nat.dvd_refl _)) hle hlt, if_pos rfl]
    omega

end Numbers

section Concat

variable {driver : Driver} {desc : Desc} {h : History} {s t : State} {e : Event} {o : Answer}

theorem received_concat (x : Event × Answer) : received (h ++ [x]) = received h ++ x.2.stored := by
  simp [received]

theorem handed_concat (x : Event × Answer) : handed (h ++ [x]) = handed h ++ x.2.handed := by
  simp [handed]

theorem inside_concat (x : Event × Answer) : Inside desc (h ++ [x]) ↔ Inside desc h ∧
    ∀ n ∈ x.2.nodeFull, n.curptr + n.bytes.length ≤ desc.rxbufLen.toNat := by
  simp only [Inside, List.mem_append, List.mem_singleton, or_imp, forall_and, forall_eq]

theorem complete_of_not_end (hend : ∀ frameLen, e ≠ .frameEndHandler frameLen) :
    Complete (h ++ [(e, o)]) := by
  intro pre frameLen o' heq
  have hlast := (List.append_inj' heq rfl).2
  simp only [List.cons.injEq, Prod.mk.injEq, and_true] at hlast
  exact absurd hlast.1 (hend frameLen)

/-- What has come in and has not been handed on, in this round and altogether. -/
theorem Inv.unhanded (hi : Inv driver desc h s) :
    (received h).length + (handedSince h).length =
      (handed h).length + (receivedSince h).length := by
  obtain ⟨pre, hreceived, hhanded⟩ := hi.rounds
  rw [hreceived, hhanded, List.length_append, List.length_append]
  omega

theorem Inv.law (hi : Inv driver desc h s) : Law desc h s where
  inside := hi.inside
  order := by
    obtain ⟨pre, hreceived, hhanded⟩ := hi.rounds
    rw [hreceived, hhanded, List.prefix_append_right_inj, hi.prior]
    exact List.take_prefix _ _
  complete := hi.complete
  behind := by
    obtain ⟨base, hnode⟩ := hi.node
    have hun := hi.unhanded
    have hstored := hi.stored
    have hle := hnode.le
    rw [hnode.stored_mod]
    omega
  kept := by
    have hun := hi.unhanded
    have hfits := hi.fifo.fits
    omega
  position := hi.position

end Concat

section Handlers

variable {driver : Driver} {desc : Desc} {s t : State} {o : Answer} {r base : Nat}

/-- A handler hands on the `n` bytes behind position `r`. -/
structure Takes (desc : Desc) (rxbuf : Mem UInt8) (o : Answer) (r n : Nat) : Prop where
  stored : o.stored = []
  handed : o.handed = rxbuf.read (r % desc.rxbufLen.toNat) n
  inside : ∀ x ∈ o.nodeFull, x.curptr + x.bytes.length ≤ desc.rxbufLen.toNat

theorem takes_node {copyLen : UInt16} {n : Nat} (hn : copyLen.toNat = n) (hstored : o.stored = [])
    (hpos : s.rxReadLen.toNat = r % desc.rxbufLen.toNat)
    (hfits : r % desc.rxbufLen.toNat + n ≤ desc.rxbufLen.toNat)
    (hfull : o.nodeFull =
      some ⟨s.rxReadLen.toNat, s.rxbuf.read s.rxReadLen.toNat copyLen.toNat, 0, 0⟩) :
    Takes desc s.rxbuf o r n := by
  subst hn
  refine ⟨hstored, ?_, ?_⟩
  · rw [Answer.handed, hfull, hpos]
    rfl
  · rw [hfull]
    rintro x ⟨⟩
    rw [Mem.length_read, hpos]
    exact hfits

theorem takes_rest {recLen isEof frameLen : UInt32} {n : Nat} (hn : recLen.toNat = n)
    (hstored : o.stored = []) (hpos : s.rxReadLen.toNat = r % desc.rxbufLen.toNat)
    (hfits : r % desc.rxbufLen.toNat + n ≤ desc.rxbufLen.toNat)
    (hfull : o.nodeFull =
      if 0 < recLen.toInt32 then
        some ⟨s.rxReadLen.toNat, s.rxbuf.read s.rxReadLen.toNat recLen.toNat, isEof, frameLen⟩
      else none) :
    Takes desc s.rxbuf o r n := by
  subst hn
  have hlt : recLen.toNat < 2 ^ 31 := by
    have hbuf := desc.rxbufLen.toNat_lt
    omega
  simp only [toInt32_pos, hlt, and_true] at hfull
  refine ⟨hstored, ?_, ?_⟩
  · rw [Answer.handed, hfull, hpos]
    split
    case isTrue => rfl
    case isFalse hzero =>
      rw [Nat.eq_zero_of_not_pos hzero]
      rfl
  · rw [hfull]
    split
    case isTrue =>
      rintro x ⟨⟩
      rw [Mem.length_read, hpos]
      exact hfits
    case isFalse => exact nofun

theorem toNat_mod_node (hpos : s.rxReadLen.toNat = r % desc.rxbufLen.toNat)
    (hnode : InNode desc r base) :
    (s.rxReadLen.toUInt32 % desc.nodeLen).toNat = r - base := by
  rw [UInt32.toNat_mod, UInt16.toNat_toUInt32, hpos, hnode.mod_mod]

/-- `rx_read_len` of the high-speed slave behind `n` bytes that do not pass the end. -/
theorem toNat_moved {n : Nat} {newLen : UInt16}
    (hnew : newLen.toNat = r % desc.rxbufLen.toNat + n) :
    (newLen % desc.rxbufLen).toNat = (r + n) % desc.rxbufLen.toNat := by
  rw [UInt16.toNat_mod, hnew, Nat.mod_add_mod]

/-- What a handler of a full node does: it hands on the rest of the node. -/
structure TakesNode (desc : Desc) (s : State) (o : Answer) (t : State) (r base : Nat) : Prop where
  takes : Takes desc s.rxbuf o r (base + desc.nodeLen.toNat - r)
  restarted : o.restarted = false
  rxbuf : t.rxbuf = s.rxbuf
  dma : t.dma = s.dma
  position : t.rxReadLen.toNat = (base + desc.nodeLen.toNat) % desc.rxbufLen.toNat

theorem spiHslave_node (hpos : s.rxReadLen.toNat = r % desc.rxbufLen.toNat)
    (hnode : InNode desc r base) (hs : spiHslaveNodeRxHandler desc s = (t, o)) :
    TakesNode desc s o t r base := by
  have hle := hnode.le
  have hlt := hnode.lt
  have hfits := hnode.fits
  have hbuf := desc.rxbufLen.toNat_lt
  have hn : base + desc.nodeLen.toNat - r = desc.nodeLen.toNat - (r - base) := by omega
  have hend : base + desc.nodeLen.toNat = r + (desc.nodeLen.toNat - (r - base)) := by omega
  have hcopy : (desc.nodeLen - s.rxReadLen.toUInt32 % desc.nodeLen).toUInt16.toNat =
      desc.nodeLen.toNat - (r - base) := by
    rw [UInt32.toNat_toUInt16, UInt32.toNat_sub_of_le, toNat_mod_node hpos hnode,
      Nat.mod_eq_of_lt (by have := desc.node_lt; omega)]
    rw [UInt32.le_iff_toNat_le, toNat_mod_node hpos hnode]
    omega
  cases hs
  refine ⟨takes_node (hcopy.trans hn.symm) rfl hpos (hn ▸ hfits) rfl, rfl, rfl, rfl, ?_⟩
  rw [hend]
  refine toNat_moved ?_
  rw [UInt16.toNat_add, hpos, hcopy, Nat.mod_eq_of_lt (by omega)]

theorem camera_node (hpos : s.rxReadLen.toNat = r % desc.rxbufLen.toNat)
    (hnode : InNode desc r base) (hwhole : desc.nodeLen.toNat ∣ r)
    (hs : takeNode desc s = (t, o)) : TakesNode desc s o t r base := by
  have hbuf := desc.rxbufLen.toNat_lt
  have hmod := hnode.mod_eq
  rw [Nat.mod_eq_zero_of_dvd hwhole] at hmod
  have hle := hnode.le
  obtain rfl : base = r := by omega
  have hcopy : desc.nodeLen.toUInt16.toNat = desc.nodeLen.toNat := by
    rw [UInt32.toNat_toUInt16, Nat.mod_eq_of_lt desc.node_lt]
  have hfits := hnode.fits
  rw [Nat.sub_self, Nat.sub_zero] at hfits
  have hnew : (s.rxReadLen + desc.nodeLen.toUInt16).toNat =
      base % desc.rxbufLen.toNat + desc.nodeLen.toNat := by
    rw [UInt16.toNat_add, hpos, hcopy, Nat.mod_eq_of_lt (by omega)]
  have hn : base + desc.nodeLen.toNat - base = desc.nodeLen.toNat := by omega
  cases hs
  refine ⟨takes_node (hcopy.trans hn.symm) rfl hpos (by rw [hn]; exact hfits) rfl,
    rfl, rfl, rfl, ?_⟩
  dsimp only
  rw [← Nat.mod_add_mod]
  split
  case isTrue hend =>
    -- the node is the last one of `rxbuf`
    have hge : desc.rxbufLen.toNat ≤ _ := UInt16.le_iff_toNat_le.mp hend
    rw [hnew] at hge
    have hwrap : base % desc.rxbufLen.toNat + desc.nodeLen.toNat = desc.rxbufLen.toNat := by omega
    rw [hwrap, Nat.mod_self]
    rfl
  case isFalse hend =>
    have hlt : (s.rxReadLen + desc.nodeLen.toUInt16).toNat < desc.rxbufLen.toNat :=
      UInt16.lt_iff_toNat_lt.mp (UInt16.not_le.mp hend)
    exact hnew.trans (Nat.mod_eq_of_lt (hnew ▸ hlt)).symm

theorem nodeRx_spec (hpos : s.rxReadLen.toNat = r % desc.rxbufLen.toNat)
    (hnode : InNode desc r base)
    (hwhole : driver ≠ .spiHslave → desc.nodeLen.toNat ∣ r)
    (hs : driver.nodeRx desc s = (t, o)) : TakesNode desc s o t r base := by
  cases driver with
  | spiHslave => exact spiHslave_node hpos hnode hs
  | spidmaIntf => exact camera_node hpos hnode (hwhole nofun) hs
  | cameraIntf => exact camera_node hpos hnode (hwhole nofun) hs

theorem toNat_recLen (s : State) (desc : Desc) :
    (desc.nodeLen - s.dma.leftLen desc).toNat = s.dma.stored % desc.nodeLen.toNat := by
  have hleft := s.dma.toNat_leftLen desc
  have hlt := Nat.mod_lt s.dma.stored desc.node_pos
  rw [UInt32.toNat_sub_of_le, hleft]
  · omega
  · rw [UInt32.le_iff_toNat_le, hleft]
    omega

/-- What is left of a frame at its end, when no interrupt is pending. -/
theorem toNat_recLen_off (hnode : Ahead desc s.dma r base) (hoff : s.dma.finishPending = false) :
    (desc.nodeLen - s.dma.leftLen desc).toNat = s.dma.stored - base := by
  rw [toNat_recLen, hnode.stored_mod, hoff]
  simp only [Bool.false_eq_true, if_false, Nat.sub_zero]

/-- At the end of a frame the high-speed slave hands on what the DMA has stored. -/
theorem spiHslave_end (hpos : s.rxReadLen.toNat = r % desc.rxbufLen.toNat)
    (hnode : Ahead desc s.dma r base) (hoff : s.dma.finishPending = false)
    (hs : spiHslaveDataEndHandler desc s = (t, o)) :
    Takes desc s.rxbuf o r (s.dma.stored - r) ∧ o.restarted = false ∧ t.rxbuf = s.rxbuf ∧
      t.dma = s.dma ∧ t.rxReadLen.toNat = s.dma.stored % desc.rxbufLen.toNat := by
  have hbuf := desc.rxbufLen.toNat_lt
  have hle := hnode.le
  have hfits := hnode.fits
  obtain ⟨hge, hlt⟩ := hnode.dma_of_off hoff
  have hmod := toNat_mod_node hpos hnode.toInNode
  have hrec : (desc.nodeLen - s.dma.leftLen desc -
      s.rxReadLen.toUInt32 % desc.nodeLen).toNat = s.dma.stored - r := by
    rw [UInt32.toNat_sub_of_le, toNat_recLen_off hnode hoff, hmod]
    · omega
    · rw [UInt32.le_iff_toNat_le, toNat_recLen_off hnode hoff, hmod]
      omega
  have hnew : (s.rxReadLen.toUInt32 + (desc.nodeLen - s.dma.leftLen desc -
      s.rxReadLen.toUInt32 % desc.nodeLen)).toUInt16.toNat =
        r % desc.rxbufLen.toNat + (s.dma.stored - r) := by
    rw [UInt32.toNat_toUInt16, UInt32.toNat_add, hrec, UInt16.toNat_toUInt32, hpos]
    omega
  cases hs
  refine ⟨takes_rest hrec rfl hpos (by omega) rfl, rfl, rfl, rfl, ?_⟩
  have hmoved := toNat_moved hnew
  rw [Nat.add_sub_cancel' hge] at hmoved
  exact hmoved

/-- At the end of a frame the cameras do so too, and start anew. -/
theorem camera_end (hpos : s.rxReadLen.toNat = r % desc.rxbufLen.toNat)
    (hnode : Ahead desc s.dma r base) (hwhole : desc.nodeLen.toNat ∣ r)
    (hoff : s.dma.finishPending = false) {isEof frameLen : UInt32}
    (hs : takeRest desc s isEof frameLen = (t, o)) :
    Takes desc s.rxbuf o r (s.dma.stored - r) ∧ o.restarted = true ∧ t.rxReadLen = 0 ∧
      t.dma = { s.dma with stored := 0 } := by
  have hfits := hnode.fits
  have hrec := toNat_recLen_off hnode hoff
  have hmod := hnode.mod_eq
  rw [Nat.mod_eq_zero_of_dvd hwhole] at hmod
  have hle := hnode.le
  obtain ⟨hge, hlt⟩ := hnode.dma_of_off hoff
  obtain rfl : base = r := by omega
  cases hs
  exact ⟨takes_rest hrec rfl hpos (by omega) rfl, rfl, rfl, rfl⟩

end Handlers

section Steps

variable {driver : Driver} {desc : Desc} {h : History} {s t : State} {e : Event} {o : Answer}

/-- What lies behind the first byte that has not been handed on. -/
theorem Inv.read (hi : Inv driver desc h s) {n : Nat}
    (hn : (handedSince h).length + n ≤ s.dma.stored)
    (hfits : (handedSince h).length % desc.rxbufLen.toNat + n ≤ desc.rxbufLen.toNat) :
    s.rxbuf.read ((handedSince h).length % desc.rxbufLen.toNat) n =
      ((receivedSince h).drop (handedSince h).length).take n :=
  hi.fifo.read (hi.stored ▸ hn) hfits

/-- A handler takes some bytes, and the DMA goes on. -/
theorem Inv.take (hi : Inv driver desc h s) {n : Nat}
    (htakes : Takes desc s.rxbuf o (handedSince h).length n) (hrestarted : o.restarted = false)
    (hn : (handedSince h).length + n ≤ s.dma.stored) (hfifo : t.rxbuf = s.rxbuf)
    (hdma : t.dma.stored = s.dma.stored)
    (hfits : (handedSince h).length % desc.rxbufLen.toNat + n ≤ desc.rxbufLen.toNat)
    (hpos : t.rxReadLen.toNat = ((handedSince h).length + n) % desc.rxbufLen.toNat)
    (hnode : ∃ base, Ahead desc t.dma ((handedSince h).length + n) base)
    (hwhole : driver ≠ .spiHslave → desc.nodeLen.toNat ∣ (handedSince h).length + n)
    (hcomplete : handed (h ++ [(e, o)]) = received (h ++ [(e, o)]) ∨
      ∀ frameLen, e ≠ .frameEndHandler frameLen) :
    Inv driver desc (h ++ [(e, o)]) t := by
  have hstored : receivedSince (h ++ [(e, o)]) = receivedSince h := by
    rw [receivedSince, Machine.since_concat hrestarted, htakes.stored]
    exact List.append_nil _
  have hhanded : handedSince (h ++ [(e, o)]) =
      handedSince h ++ ((receivedSince h).drop (handedSince h).length).take n := by
    rw [← hi.read hn hfits, ← htakes.handed]
    exact Machine.since_concat hrestarted
  have hlen : (handedSince (h ++ [(e, o)])).length = (handedSince h).length + n := by
    have hle := hi.stored
    rw [hhanded, List.length_append, List.length_take, List.length_drop]
    omega
  refine ⟨?_, ?_, ?_, ?_, ?_, ?_, ?_, ?_, ?_⟩
  · obtain ⟨pre, hreceived, hpre⟩ := hi.rounds
    refine ⟨pre, ?_, ?_⟩
    · rw [received_concat, htakes.stored, List.append_nil, hreceived, hstored]
    · rw [handed_concat, hpre, hhanded, List.append_assoc, htakes.handed, hi.read hn hfits]
  · rw [hstored, hlen, hfifo]
    exact hi.fifo.advance (hi.stored ▸ hn)
  · rw [hlen, hstored, List.take_add, ← hi.prior, hhanded]
  · rw [hdma, hstored]
    exact hi.stored
  · rw [hlen]
    exact hnode
  · rw [hlen]
    exact hwhole
  · rw [hlen]
    exact hpos
  · exact (inside_concat _).mpr ⟨hi.inside, htakes.inside⟩
  · rcases hcomplete with heq | hend
    · exact fun _ _ _ _ => heq
    · exact complete_of_not_end hend

theorem fillsNode_of_off {base r : Nat} (hnode : Ahead desc s.dma r base)
    (hoff : s.dma.finishPending = false) :
    s.FillsNode desc ↔ s.dma.stored + 1 = base + desc.nodeLen.toNat := by
  obtain ⟨hge, hlt⟩ := hnode.dma_of_off hoff
  have hle := hnode.le
  unfold State.FillsNode
  constructor
  · intro hzero
    by_contra hne
    rw [mod_of_base hnode.dvd (by omega) (by omega)] at hzero
    omega
  · intro heq
    rw [heq]
    exact Nat.mod_eq_zero_of_dvd (Nat.dvd_add hnode.dvd (Nat.dvd_refl _))

theorem Ahead.step_dma {base r : Nat} (hnode : Ahead desc s.dma r base) {x : UInt8}
    (hserved : Served desc s (.dma x)) : Ahead desc (s.dmaStore desc x).dma r base := by
  refine ⟨hnode.toInNode, ?_⟩
  have hpos := desc.node_pos
  have hpending : (s.dmaStore desc x).dma.finishPending =
      (s.dma.finishPending || decide (s.FillsNode desc)) := rfl
  have hstored : (s.dmaStore desc x).dma.stored = s.dma.stored + 1 := rfl
  rw [hpending, hstored]
  rcases hnode.dma with ⟨hoff, hge, hlt'⟩ | ⟨hon, hge, hlt'⟩
  case inl =>
    have hfills := fillsNode_of_off hnode hoff
    rw [hoff, Bool.false_or, decide_eq_false_iff_not, decide_eq_true_iff, hfills]
    omega
  case inr =>
    have hnot := (hserved hon).1
    refine .inr ⟨by rw [hon, Bool.true_or], Nat.le_succ_of_le hge, ?_⟩
    refine Nat.lt_of_le_of_ne hlt' fun heq => hnot ?_
    rw [State.FillsNode, heq]
    exact Nat.mod_eq_zero_of_dvd
      (Nat.dvd_add (Nat.dvd_add hnode.dvd (Nat.dvd_refl _)) (Nat.dvd_refl _))

/-- The place of the DMA is that of the first byte not handed on only when `rxbuf` is full. -/
theorem full_iff {base r : Nat} (hnode : Ahead desc s.dma r base)
    (hon : s.dma.finishPending = true) (hfits : s.dma.stored ≤ r + desc.rxbufLen.toNat) :
    s.dma.stored % desc.rxbufLen.toNat = r % desc.rxbufLen.toNat ↔
      s.dma.stored = r + desc.rxbufLen.toNat := by
  have hlt := hnode.lt
  constructor
  · intro heq
    rcases hnode.dma with ⟨hoff, -⟩ | ⟨-, hge, -⟩
    · rw [hoff] at hon
      cases hon
    · by_contra hne
      exact absurd heq (mod_ne_of_lt (by omega) (by omega))
  · intro heq
    rw [heq, Nat.add_mod_right]

theorem Inv.step_dma (hi : Inv driver desc h s) {x : UInt8} (hserved : Served desc s (.dma x))
    (hs : s.step driver desc (.dma x) = some (t, o)) : Inv driver desc (h ++ [(.dma x, o)]) t := by
  obtain ⟨base, hnode⟩ := hi.node
  have hfits := hi.fifo.fits
  have hstored := hi.stored
  have hroom : (receivedSince h).length + 1 ≤
      (handedSince h).length + desc.rxbufLen.toNat := by
    rcases hnode.dma with ⟨hoff, hge, hlt⟩ | ⟨hon, -⟩
    · have hle := hnode.le
      have hbuf := desc.node_le
      omega
    · have hne := (hserved hon).2
      rw [hi.position, Ne, full_iff hnode hon (hstored ▸ hfits)] at hne
      omega
  cases hs
  have hreceived : receivedSince (h ++ [(.dma x, { stored := [x] })]) = receivedSince h ++ [x] :=
    Machine.since_concat rfl
  have hhanded : handedSince (h ++ [(.dma x, { stored := [x] })]) = handedSince h :=
    (Machine.since_concat rfl).trans (List.append_nil _)
  refine ⟨?_, ?_, ?_, ?_, ?_, ?_, ?_, ?_, ?_⟩
  · obtain ⟨pre, hpre, hpre'⟩ := hi.rounds
    refine ⟨pre, ?_, ?_⟩
    · rw [received_concat, hpre, hreceived, List.append_assoc]
    · rw [handed_concat, hpre', hhanded]
      exact List.append_nil _
  · rw [hreceived, hhanded, State.dmaStore, hstored]
    exact hi.fifo.push [x] hroom (Nat.mod_lt _ desc.buf_pos)
  · rw [hreceived, hhanded, List.take_append_of_le_length hi.fifo.le]
    exact hi.prior
  · rw [hreceived, List.length_append, ← hstored]
    rfl
  · rw [hhanded]
    exact ⟨base, hnode.step_dma hserved⟩
  · rw [hhanded]
    exact hi.whole
  · rw [hhanded]
    exact hi.position
  · exact (inside_concat _).mpr ⟨hi.inside, nofun⟩
  · exact complete_of_not_end nofun

theorem Inv.step_node (hi : Inv driver desc h s)
    (hs : s.step driver desc .nodeRxHandler = some (t, o)) :
    Inv driver desc (h ++ [(.nodeRxHandler, o)]) t := by
  unfold State.step at hs
  dsimp only at hs
  split at hs
  case isFalse => cases hs
  case isTrue hon =>
    obtain ⟨base, hnode⟩ := hi.node
    have hlt := hnode.lt
    have hge : base + desc.nodeLen.toNat ≤ s.dma.stored ∧
        s.dma.stored < base + desc.nodeLen.toNat + desc.nodeLen.toNat := by
      rcases hnode.dma with ⟨hoff, -⟩ | ⟨-, hge⟩
      · rw [hoff] at hon
        cases hon
      · exact hge
    have hrx : driver.nodeRx desc { s with dma := { s.dma with finishPending := false } } =
        (t, o) := Option.some.inj hs
    have hspec := nodeRx_spec (by exact hi.position) hnode.toInNode hi.whole hrx
    have hend : (handedSince h).length + (base + desc.nodeLen.toNat - (handedSince h).length) =
        base + desc.nodeLen.toNat := by omega
    have hnext : Ahead desc t.dma (base + desc.nodeLen.toNat) (base + desc.nodeLen.toNat) := by
      have hpos := desc.node_pos
      rw [hspec.dma]
      exact ⟨⟨Nat.dvd_add hnode.dvd (Nat.dvd_refl _), Nat.le_refl _, by omega⟩, .inl ⟨rfl, hge⟩⟩
    have hfits := hnode.fits
    refine hi.take hspec.takes hspec.restarted ?_ hspec.rxbuf ?_ ?_ ?_ ?_ ?_ (.inr nofun)
    · rw [hend]
      exact hge.1
    · rw [hspec.dma]
    · have hle := hnode.le
      omega
    · rw [hend]
      exact hspec.position
    · rw [hend]
      exact ⟨_, hnext⟩
    · rw [hend]
      exact fun _ => hnext.dvd

/-- At the end of a frame everything goes on, when no interrupt is pending. -/
theorem Inv.handed_all (hi : Inv driver desc h s)
    (htakes : Takes desc s.rxbuf o (handedSince h).length (s.dma.stored - (handedSince h).length))
    (hfits : (handedSince h).length % desc.rxbufLen.toNat +
      (s.dma.stored - (handedSince h).length) ≤ desc.rxbufLen.toNat) :
    handed (h ++ [(e, o)]) = received (h ++ [(e, o)]) := by
  obtain ⟨pre, hreceived, hpre⟩ := hi.rounds
  have hle := hi.fifo.le
  have hstored := hi.stored
  have hrest : ((receivedSince h).drop (handedSince h).length).take
      (s.dma.stored - (handedSince h).length) = (receivedSince h).drop (handedSince h).length :=
    List.take_of_length_le (by rw [List.length_drop]; omega)
  rw [handed_concat, received_concat, htakes.stored, htakes.handed, hi.read (by omega) hfits,
    hrest, hreceived, hpre, List.append_nil, List.append_assoc]
  congr 1
  conv_lhs => rw [hi.prior]
  rw [List.length_take, Nat.min_eq_left hle, List.take_append_drop]

/-- A handler takes everything, and the DMA starts anew. -/
theorem Inv.restart (hi : Inv driver desc h s)
    (htakes : Takes desc s.rxbuf o (handedSince h).length
      (s.dma.stored - (handedSince h).length))
    (hfits : (handedSince h).length % desc.rxbufLen.toNat +
      (s.dma.stored - (handedSince h).length) ≤ desc.rxbufLen.toNat)
    (hrestarted : o.restarted = true) (hread : t.rxReadLen = 0)
    (hdma : t.dma = { s.dma with stored := 0 }) (hoff : s.dma.finishPending = false) :
    Inv driver desc (h ++ [(e, o)]) t := by
  have hstored : receivedSince (h ++ [(e, o)]) = [] := Machine.since_concat_reset hrestarted
  have hhanded : handedSince (h ++ [(e, o)]) = [] := Machine.since_concat_reset hrestarted
  have hall := hi.handed_all (e := e) htakes hfits
  refine ⟨⟨received (h ++ [(e, o)]), ?_, ?_⟩, ?_, ?_, ?_, ?_, ?_, ?_, ?_, ?_⟩
  · rw [hstored, List.append_nil]
  · rw [hhanded, List.append_nil, hall]
  · rw [hstored, hhanded]
    exact .nil _ _
  · rw [hhanded, hstored]
    rfl
  · rw [hdma, hstored]
    rfl
  · have hpos := desc.node_pos
    rw [hhanded, hdma]
    exact ⟨0, ⟨Nat.dvd_zero _, Nat.le_refl _, by rw [Nat.zero_add]; exact hpos⟩,
      .inl ⟨hoff, Nat.le_refl _, by rw [Nat.zero_add]; exact hpos⟩⟩
  · rw [hhanded]
    exact fun _ => Nat.dvd_zero _
  · rw [hhanded, hread]
    exact (Nat.zero_mod _).symm
  · exact (inside_concat _).mpr ⟨hi.inside, htakes.inside⟩
  · exact fun _ _ _ _ => hall

theorem Inv.step_end (hi : Inv driver desc h s) {frameLen : UInt32}
    (hoff : s.dma.finishPending = false)
    (hs : s.step driver desc (.frameEndHandler frameLen) = some (t, o)) :
    Inv driver desc (h ++ [(.frameEndHandler frameLen, o)]) t := by
  obtain ⟨base, hnode⟩ := hi.node
  obtain ⟨hge, hlt⟩ := hnode.dma_of_off hoff
  have hle := hnode.le
  have hfits := hnode.fits
  have hfits' : (handedSince h).length % desc.rxbufLen.toNat +
      (s.dma.stored - (handedSince h).length) ≤ desc.rxbufLen.toNat := by omega
  have hs' : driver.frameEnd desc s frameLen = (t, o) := Option.some.inj hs
  have hcamera (hne : driver ≠ .spiHslave) {isEof len : UInt32}
      (hrest : takeRest desc s isEof len = (t, o)) :
      Inv driver desc (h ++ [(.frameEndHandler frameLen, o)]) t := by
    obtain ⟨htakes, hrestarted, hread, hdma⟩ :=
      camera_end hi.position hnode (hi.whole hne) hoff hrest
    exact hi.restart htakes hfits' hrestarted hread hdma hoff
  cases driver with
  | spiHslave =>
    obtain ⟨htakes, hrestarted, hfifo, hdma, hpos⟩ := spiHslave_end hi.position hnode hoff hs'
    have hall := hi.handed_all (e := .frameEndHandler frameLen) htakes hfits'
    have hend : (handedSince h).length + (s.dma.stored - (handedSince h).length) =
        s.dma.stored := Nat.add_sub_cancel' hge
    refine hi.take htakes hrestarted (Nat.le_of_eq hend) hfifo (by rw [hdma]) hfits' ?_ ?_
      (absurd rfl) (.inl hall)
    · rw [hend]
      exact hpos
    · rw [hend, hdma]
      exact ⟨base, ⟨hnode.dvd, Nat.le_trans hle hge, hlt⟩, .inl ⟨hoff, Nat.le_refl _, hlt⟩⟩
  | spidmaIntf => exact hcamera nofun hs'
  | cameraIntf => exact hcamera nofun hs'

theorem Inv.step (hi : Inv driver desc h s) (hserved : Served desc s e)
    (hs : s.step driver desc e = some (t, o)) : Inv driver desc (h ++ [(e, o)]) t := by
  cases e with
  | dma x => exact hi.step_dma hserved hs
  | nodeRxHandler => exact hi.step_node hs
  | frameEndHandler frameLen => exact hi.step_end hserved hs

end Steps

section Breaks

variable {driver : Driver} {desc : Desc} {h : History} {s t : State} {e : Event} {o : Answer}

/-- A DMA that fills a second node, or comes round to what has not been handed on, shows. -/
theorem Inv.dma_of_law (hi : Inv driver desc h s) {x : UInt8}
    (hs : s.step driver desc (.dma x) = some (t, o)) (hlaw : Law desc (h ++ [(.dma x, o)]) t) :
    Served desc s (.dma x) := by
  intro hon
  obtain ⟨base, hnode⟩ := hi.node
  have hlt := hnode.lt
  have hun := hi.unhanded
  have hstored := hi.stored
  have hge : base + desc.nodeLen.toNat ≤ s.dma.stored := by
    rcases hnode.dma with ⟨hoff, -⟩ | ⟨-, hge, -⟩
    · rw [hoff] at hon
      cases hon
    · exact hge
  cases hs
  have hreceived : (received (h ++ [(.dma x, { stored := [x] })])).length =
      (received h).length + 1 := by
    rw [received_concat, List.length_append]
    rfl
  have hhanded : (handed (h ++ [(.dma x, { stored := [x] })])).length = (handed h).length := by
    rw [handed_concat, List.length_append]
    rfl
  constructor
  · intro hfills
    have hbehind := hlaw.behind
    have hstored' : (s.dmaStore desc x).dma.stored % desc.nodeLen.toNat = 0 := hfills
    have hpending : (s.dmaStore desc x).dma.finishPending = true := by
      change (s.dma.finishPending || _) = true
      rw [hon, Bool.true_or]
    have hnext : base + desc.nodeLen.toNat < s.dma.stored + 1 := by omega
    have hmod : (s.dma.stored + 1) % desc.nodeLen.toNat = 0 := hfills
    rw [hreceived, hhanded, hstored', hpending, if_pos rfl] at hbehind
    by_cases hend : s.dma.stored + 1 < base + desc.nodeLen.toNat + desc.nodeLen.toNat
    · rw [mod_of_base (Nat.dvd_add hnode.dvd (Nat.dvd_refl _)) (by omega) hend] at hmod
      omega
    · omega
  · intro heq
    have hkept := hlaw.kept
    rw [hi.position, full_iff hnode hon (hstored ▸ hi.fifo.fits)] at heq
    rw [hreceived, hhanded] at hkept
    omega

/-- What the end of a frame hands on, also when an interrupt is pending. -/
theorem length_rest {recLen isEof frameLen : UInt32} {m : Mem UInt8} {p : Nat}
    (hfull : o.nodeFull =
      if 0 < recLen.toInt32 then some ⟨p, m.read p recLen.toNat, isEof, frameLen⟩ else none) :
    o.handed.length = if 0 < recLen.toInt32 then recLen.toNat else 0 := by
  rw [Answer.handed, hfull]
  split
  · exact Mem.length_read ..
  · rfl

/-- With an interrupt pending, the full node is not handed on at the end of a frame. -/
theorem Inv.end_of_law (hi : Inv driver desc h s) {frameLen : UInt32}
    (hs : s.step driver desc (.frameEndHandler frameLen) = some (t, o))
    (hlaw : Law desc (h ++ [(.frameEndHandler frameLen, o)]) t) : s.dma.finishPending = false := by
  by_contra hne
  have hon := Bool.eq_true_of_not_eq_false hne
  obtain ⟨base, hnode⟩ := hi.node
  have hle := hnode.le
  have hlt := hnode.lt
  have hun := hi.unhanded
  have hstored := hi.stored
  have hmod := hnode.stored_mod
  rw [hon, if_pos rfl] at hmod
  have hnodeLt := desc.node_lt
  have hrec := toNat_recLen s desc
  have hge : base + desc.nodeLen.toNat ≤ s.dma.stored ∧
      s.dma.stored < base + desc.nodeLen.toNat + desc.nodeLen.toNat := by
    rcases hnode.dma with ⟨hoff, -⟩ | ⟨-, hge⟩
    · exact absurd hoff hne
    · exact hge
  have hall := congrArg List.length (hlaw.complete _ _ _ rfl)
  have hs' : driver.frameEnd desc s frameLen = (t, o) := Option.some.inj hs
  have hcamera {isEof len : UInt32} (hwhole : desc.nodeLen.toNat ∣ (handedSince h).length)
      (hrest : takeRest desc s isEof len = (t, o)) : False := by
    have hzero := hnode.mod_eq
    rw [Nat.mod_eq_zero_of_dvd hwhole] at hzero
    cases hrest
    rw [handed_concat, received_concat, List.length_append, List.length_append,
      length_rest rfl, hrec, hmod] at hall
    change _ = (received h).length + 0 at hall
    split at hall <;> omega
  cases driver with
  | spiHslave =>
    have halready := toNat_mod_node hi.position hnode.toInNode
    cases hs'
    rw [handed_concat, received_concat, List.length_append, List.length_append,
      length_rest rfl] at hall
    change _ = (received h).length + 0 at hall
    simp only [toInt32_pos, UInt32.toNat_sub, hrec, hmod, halready] at hall
    split at hall <;> omega
  | spidmaIntf => exact hcamera (hi.whole nofun) hs'
  | cameraIntf => exact hcamera (hi.whole nofun) hs'

theorem Inv.served_of_law (hi : Inv driver desc h s) (hs : s.step driver desc e = some (t, o))
    (hlaw : Law desc (h ++ [(e, o)]) t) : Served desc s e := by
  cases e with
  | dma x => exact hi.dma_of_law hs hlaw
  | nodeRxHandler => trivial
  | frameEndHandler frameLen => exact hi.end_of_law hs hlaw

end Breaks

section Run

variable {driver : Driver} {desc : Desc} {rxbuf : Mem UInt8} {h : History} {s : State}

theorem inv_init : Inv driver desc [] (init rxbuf) where
  rounds := ⟨[], rfl, rfl⟩
  fifo := .nil _ _
  prior := rfl
  stored := rfl
  node := ⟨0, ⟨Nat.dvd_zero _, Nat.le_refl _, by rw [Nat.zero_add]; exact desc.node_pos⟩,
    .inl ⟨rfl, Nat.le_refl _, by rw [Nat.zero_add]; exact desc.node_pos⟩⟩
  whole := fun _ => Nat.dvd_zero _
  position := (Nat.zero_mod _).symm
  inside := nofun
  complete := by
    intro pre frameLen o heq
    cases pre <;> cases heq

theorem inv_of_reaches (hr : (receiver driver desc rxbuf).ReachesUnder (Served desc) h s) :
    Inv driver desc h s :=
  hr.invariant (Inv driver desc) inv_init fun hi hserved hs => hi.step hserved hs

/-- The received bytes are handed on, each once and in order, in exactly the runs in which the
interrupt of a full node is served in time. -/
theorem receive_in_order :
    ((receiver driver desc rxbuf).ReachesUnder (Served desc) h s → Law desc h s) ∧
    ((receiver driver desc rxbuf).ReachesUnder (Served desc) h s ↔
      (receiver driver desc rxbuf).ReachesWithin (Law desc) h s) :=
  ⟨fun hr => (inv_of_reaches hr).law,
    Machine.reachesUnder_iff_within (fun hr => (inv_of_reaches hr).law)
      fun hr hs hlaw => (inv_of_reaches hr).served_of_law hs hlaw⟩

end Run

section Examples

instance (desc : Desc) (s : State) : ∀ e, Decidable (Served desc s e)
  | .dma _ => inferInstanceAs (Decidable (_ → _))
  | .nodeRxHandler => inferInstanceAs (Decidable True)
  | .frameEndHandler _ => inferInstanceAs (Decidable (_ = _))

/-- Two nodes of two bytes. -/
def twoNodes : Desc := ⟨4, 2, by decide, by decide, by decide⟩

theorem receive_in_order_frame : ∃ h s,
    (receiver .cameraIntf twoNodes fun _ => 0).exec
      [.dma 1, .dma 2, .nodeRxHandler, .dma 3, .frameEndHandler 3, .dma 4] = some (h, s) ∧
    Law twoNodes h s := by
  obtain ⟨h, s, hx⟩ : ∃ h s,
      (receiver .cameraIntf twoNodes fun _ => 0).exec
        [.dma 1, .dma 2, .nodeRxHandler, .dma 3, .frameEndHandler 3, .dma 4] =
        some (h, s) := ⟨_, _, rfl⟩
  exact ⟨h, s, hx,
    receive_in_order.1 (Machine.reachesUnder_of_exec (C := Served twoNodes) (by decide) hx)⟩

/-- The interrupts of full nodes are served in time, but maybe behind the end of a frame. -/
def Prompt (desc : Desc) (s : State) : Event → Prop
  | .dma x => Served desc s (.dma x)
  | _ => True

instance (desc : Desc) (s : State) : ∀ e, Decidable (Prompt desc s e)
  | .dma x => inferInstanceAs (Decidable (Served desc s (.dma x)))
  | .nodeRxHandler | .frameEndHandler _ => inferInstanceAs (Decidable True)

/-- The bytes are handed on in order whenever full nodes are served in time. -/
def InOrder (driver : Driver) : Prop :=
  ∀ desc rxbuf h s, (receiver driver desc rxbuf).ReachesUnder (Prompt desc) h s →
    handed h <+: received h

theorem InOrder.exec {driver : Driver} (hall : InOrder driver) (es : List Event) {h : History}
    {s : State}
    (hp : (receiver driver twoNodes fun _ => 0).Permits (Prompt twoNodes) (init fun _ => 0) es)
    (hx : (receiver driver twoNodes fun _ => 0).exec es = some (h, s)) :
    handed h <+: received h :=
  hall _ _ _ _ (Machine.reachesUnder_of_exec hp hx)

/-- A node that is full at the end of a frame is handed on twice. -/
theorem receive_torn :
    ¬ InOrder .spiHslave ∧ ¬ InOrder .spidmaIntf ∧ ¬ InOrder .cameraIntf := by
  refine ⟨fun hall => ?_, fun hall => ?_, fun hall => ?_⟩
  · have hprefix := hall.exec
      [.dma 1, .frameEndHandler 0, .dma 2, .frameEndHandler 0, .nodeRxHandler] (by decide) rfl
    exact absurd hprefix (by decide)
  · have hprefix := hall.exec
      [.dma 1, .dma 2, .dma 3, .frameEndHandler 0, .nodeRxHandler] (by decide) rfl
    exact absurd hprefix (by decide)
  · have hprefix := hall.exec
      [.dma 1, .dma 2, .dma 3, .frameEndHandler 0, .nodeRxHandler] (by decide) rfl
    exact absurd hprefix (by decide)

end Examples

end BdkRtt.Video.NodeRx
