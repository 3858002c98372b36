import BdkRtt.Ota.HttpFlashLaws

namespace BdkRtt.Ota

open Lib Flash

section Trace

/-- The writes among the requests store `s`, each behind the one before, from `a` on. -/
inductive WritesFrom : Nat → List FlashOp → List UInt8 → Prop
  | nil {a} : WritesFrom a [] []
  | erase {a param ops s} : WritesFrom a ops s → WritesFrom a (.erase param :: ops) s
  | write {addr : UInt32} {src ops s} : WritesFrom (addr.toNat + src.length) ops s →
      WritesFrom addr.toNat (.write src addr :: ops) (src ++ s)

/-- Every byte is written into a sector that was erased before; `erased` are the sectors that
already are. -/
def ErasedFirst : (erased : Nat → Prop) → List FlashOp → Prop
  | _, [] => True
  | erased, .erase param :: ops => ErasedFirst (fun n => erased n ∨ n = param.toNat / 4096) ops
  | erased, .write src addr :: ops =>
    (∀ k, addr.toNat ≤ k → k < addr.toNat + src.length → erased (k / 4096)) ∧
      ErasedFirst erased ops

variable {a : Nat} {ops ops' : List FlashOp} {s s' : List UInt8}

theorem WritesFrom.append (h : WritesFrom a ops s) (h' : WritesFrom (a + s.length) ops' s') :
    WritesFrom a (ops ++ ops') (s ++ s') := by
  induction h with
  | nil => exact h'
  | erase _ ih => exact .erase (ih h')
  | write _ ih =>
    rw [List.append_assoc]
    exact .write (ih (by rw [Nat.add_assoc, ← List.length_append]; exact h'))

/-- The bytes written by the requests. -/
def written : List FlashOp → Nat
  | [] => 0
  | .erase _ :: ops => written ops
  | .write src _ :: ops => src.length + written ops

theorem WritesFrom.length_eq (h : WritesFrom a ops s) : s.length = written ops := by
  induction h with
  | nil => rfl
  | erase _ ih => exact ih
  | write _ ih => rw [List.length_append, ih, written]

theorem written_append (ops ops' : List FlashOp) :
    written (ops ++ ops') = written ops + written ops' := by
  induction ops with
  | nil => exact (Nat.zero_add _).symm
  | cons op ops ih =>
    cases op with
    | erase => exact ih
    | write => rw [List.cons_append, written, written, ih, Nat.add_assoc]

/-- The sectors erased by the requests, and those that were. -/
def Erased (erased : Nat → Prop) (ops : List FlashOp) (n : Nat) : Prop :=
  erased n ∨ ∃ param, .erase param ∈ ops ∧ n = param.toNat / 4096

theorem ErasedFirst.mono {E E' : Nat → Prop} (hE : ∀ n, E n → E' n) (h : ErasedFirst E ops) :
    ErasedFirst E' ops := by
  induction ops generalizing E E' with
  | nil => trivial
  | cons op ops ih =>
    cases op with
    | erase => exact ih (fun n => Or.imp_left (hE n)) h
    | write => exact ⟨fun k hlo hhi => hE _ (h.1 k hlo hhi), ih hE h.2⟩

theorem ErasedFirst.append {E : Nat → Prop} (h : ErasedFirst E ops)
    (h' : ErasedFirst (Erased E ops) ops') : ErasedFirst E (ops ++ ops') := by
  induction ops generalizing E with
  | nil => exact h'.mono fun n hn => hn.resolve_right fun ⟨_, hmem, _⟩ => List.not_mem_nil hmem
  | cons op ops ih =>
    cases op with
    | erase param =>
      refine ih h (h'.mono fun n hn => ?_)
      rcases hn with hn | ⟨p, hmem, hn⟩
      · exact .inl (.inl hn)
      · cases List.mem_cons.mp hmem with
        | inl heq =>
          obtain rfl := FlashOp.erase.inj heq
          exact .inl (.inr hn)
        | inr hmem => exact .inr ⟨p, hmem, hn⟩
    | write src addr =>
      refine ⟨h.1, ih h.2 (h'.mono fun n hn => ?_)⟩
      rcases hn with hn | ⟨p, hmem, hn⟩
      · exact .inl hn
      · exact .inr ⟨p, (List.mem_cons.mp hmem).resolve_left (by intro h; cases h), hn⟩

end Trace

section Progress

/-- The OTA partition after the bytes `s` went in order to their places: the sector they end in
is erased behind them. -/
structure Progress (m₀ : Mem UInt8) (s : List UInt8) (ops : List FlashOp) (address : UInt32) :
    Prop where
  writes : WritesFrom otaStart ops s
  erasedFirst : ErasedFirst (fun _ => False) ops
  content : (opsCells m₀ ops).Has otaStart s
  address_eq : address.toNat = otaStart + s.length
  clean : s.length % 4096 ≠ 0 →
    Erased (fun _ => False) ops ((otaStart + s.length) / 4096) ∧
      ∀ k, otaStart + s.length ≤ k → k / 4096 = (otaStart + s.length) / 4096 →
        opsCells m₀ ops k = 0xff

theorem progress_init (m₀ : Mem UInt8) : Progress m₀ [] [] otaPt.partitionStartAddr :=
  ⟨.nil, trivial, rfl, rfl, fun h => absurd rfl h⟩

variable {m₀ : Mem UInt8} {s b : List UInt8} {ops : List FlashOp} {address : UInt32}

/-- A write behind the bytes, into cells that are erased. -/
theorem Progress.write (h : Progress m₀ s ops address)
    (herased : Erased (fun _ => False) ops ((otaStart + s.length) / 4096))
    (hclean : ∀ k, otaStart + s.length ≤ k → k / 4096 = (otaStart + s.length) / 4096 →
      opsCells m₀ ops k = 0xff)
    (hsector : s.length % 4096 + b.length ≤ 4096) (hfit : s.length + b.length < otaLength) :
    Progress m₀ (s ++ b) (ops ++ [.write b address]) (address + UInt32.ofNat b.length) := by
  have hstart : otaStart = 0x132000 := rfl
  have hend : otaLength = 0xae000 := rfl
  have haddr := h.address_eq
  have hcells : opsCells m₀ (ops ++ [.write b address]) =
      program (opsCells m₀ ops) (otaStart + s.length) b := by
    rw [opsCells_append, ← haddr]
    rfl
  refine ⟨?writes, ?erasedFirst, ?content, ?address, fun hmod => ⟨?erased, ?clean⟩⟩
  case writes =>
    have hwrite : WritesFrom address.toNat [.write b address] (b ++ []) := .write .nil
    rw [haddr, List.append_nil] at hwrite
    exact h.writes.append hwrite
  case erasedFirst =>
    refine h.erasedFirst.append ⟨fun k hlo hhi => ?_, trivial⟩
    have hk : k / 4096 = (otaStart + s.length) / 4096 := by omega
    rw [hk]
    exact herased
  case content =>
    rw [hcells, Mem.has_append]
    constructor
    · rw [Mem.Has, Mem.read_congr fun k _ hk => program_apply_of_lt _ _ _ hk]
      exact h.content
    · apply List.ext_getElem (by simp)
      intro k _ hk
      simp only [Mem.read, List.getElem_map, List.getElem_range]
      rw [program_apply_add, hclean _ (by omega) (by omega), List.getD_eq_getElem _ _ hk]
      exact UInt8.neg_one_and
  case address =>
    rw [UInt32.toNat_add, UInt32.toNat_ofNat_of_lt' (show _ < 2 ^ 32 by omega), haddr,
      List.length_append, Nat.add_assoc]
    exact Nat.mod_eq_of_lt (by omega)
  case erased =>
    rw [List.length_append] at hmod ⊢
    have hk : (otaStart + (s.length + b.length)) / 4096 = (otaStart + s.length) / 4096 := by omega
    rw [hk]
    refine herased.imp_right fun hex => hex.imp fun p hp => ?_
    exact ⟨List.mem_append_left _ hp.1, hp.2⟩
  case clean =>
    intro k hlo hk
    rw [List.length_append] at hmod hlo hk
    rw [hcells, program_apply_of_ge _ _ (by omega)]
    exact hclean k (by omega) (by omega)

/-- The erase in front of a sector. -/
theorem Progress.erase (h : Progress m₀ s ops address) (hmod : s.length % 4096 = 0) :
    Progress m₀ s (ops ++ [.erase address]) address ∧
      Erased (fun _ => False) (ops ++ [.erase address]) ((otaStart + s.length) / 4096) ∧
      ∀ k, otaStart + s.length ≤ k → k / 4096 = (otaStart + s.length) / 4096 →
        opsCells m₀ (ops ++ [.erase address]) k = 0xff := by
  have hstart : otaStart = 0x132000 := rfl
  have haddr := h.address_eq
  have hcells (k : Nat) : opsCells m₀ (ops ++ [.erase address]) k =
      if k / 4096 = (otaStart + s.length) / 4096 then 0xff else opsCells m₀ ops k := by
    rw [opsCells_append, ← haddr]
    rfl
  refine ⟨⟨?_, ?_, ?_, haddr, fun hne => absurd hmod hne⟩, ?_, fun k _ hk => ?_⟩
  · rw [← List.append_nil s]
    exact h.writes.append (.erase .nil)
  · exact h.erasedFirst.append trivial
  · rw [Mem.Has, Mem.read_congr fun k _ hk => (hcells k).trans (if_neg (by omega))]
    exact h.content
  · exact .inr ⟨address, List.mem_append_right _ (List.mem_singleton.mpr rfl), by rw [haddr]⟩
  · rw [hcells, if_pos hk]

/-- A block behind whole blocks goes to its place. -/
theorem Progress.block (h : Progress m₀ s ops address) (hmod : s.length % 1024 = 0)
    (hb : b.length ≤ 1024) (hfit : s.length + b.length < otaLength) :
    Progress m₀ (s ++ b) (ops ++ (blockOps address b).1) (blockOps address b).2 := by
  have hstart : otaStart = 0x132000 := rfl
  have haddr := h.address_eq
  have haccepts : Accepts address b.length := by
    rw [Accepts]
    omega
  have hzero : address % 0x1000 = 0 ↔ s.length % 4096 = 0 := by
    rw [← UInt32.toNat_inj, UInt32.toNat_mod, haddr]
    simp only [UInt32.reduceToNat]
    omega
  rw [blockOps]
  simp only [hzero, haccepts, if_true]
  split
  next hsector =>
    obtain ⟨h', herased, hclean⟩ := h.erase hsector
    rw [← List.append_assoc]
    exact h'.write herased hclean (by omega) hfit
  next hsector =>
    obtain ⟨herased, hclean⟩ := h.clean hsector
    rw [List.nil_append]
    exact h.write herased hclean (by omega) hfit

/-- Whole blocks, one after the other. -/
theorem Progress.blocks (h : Progress m₀ s ops address) (hmod : s.length % 1024 = 0)
    {bs : List (List UInt8)} (hbs : ∀ b ∈ bs, b.length = 1024)
    (hfit : s.length + bs.flatten.length < otaLength) :
    Progress m₀ (s ++ bs.flatten) (ops ++ (blocksOps address bs).1) (blocksOps address bs).2 := by
  induction bs generalizing s ops address with
  | nil =>
    rw [List.flatten_nil, List.append_nil, blocksOps, List.append_nil]
    exact h
  | cons b bs ih =>
    have hb := hbs b (List.mem_cons_self ..)
    rw [List.flatten_cons, List.length_append] at hfit
    have hnext := h.block hmod (Nat.le_of_eq hb) (by omega)
    have hbs' := ih hnext (by rw [List.length_append]; omega)
      (fun b' hb' => hbs b' (List.mem_cons_of_mem _ hb')) (by rw [List.length_append]; omega)
    rw [List.flatten_cons, ← List.append_assoc, blocksOps]
    simp only [← List.append_assoc]
    exact hbs'

end Progress

section Law

/-- All requests for a stream: its whole blocks, and what is left at the end. -/
def contentOps (x : List UInt8) : List FlashOp :=
  (streamOps x).1 ++ (blockOps (streamOps x).2 (rest 1024 x)).1

variable {f₀ : Chip} {x : List UInt8} {d : HttpData} {ops : List FlashOp}

theorem Tracks.finish (hchip : OnChip f₀) (h : Tracks f₀ x d ops) :
    ops ++ (httpFinish d).2 = contentOps x ∧
      (httpFinish d).1.chip.cells = opsCells f₀.cells (contentOps x) := by
  have hlen : d.wrLastLen.toUInt32.toNat = d.wrLastLen.toNat := UInt16.toNat_toUInt32 _
  have hsrc : (d.wrBuf.read 0 d.wrLastLen.toNat).length = d.wrLastLen.toUInt32.toNat := by
    rw [Mem.length_read, hlen]
  obtain ⟨hwrote, hops, _⟩ := httpFlashWr_spec
    (show OnChip d.chip by rw [OnChip, h.flashSize]; exact hchip) h.inOta hsrc
    (by rw [hlen]; exact Nat.le_of_lt h.last_lt)
  have hall : ops ++ (httpFinish d).2 = contentOps x := by
    rw [contentOps, ← h.pending, ← h.address, ← h.ops_eq, httpFinish, hops]
  refine ⟨hall, ?_⟩
  rw [← hall, opsCells_append, ← h.cells]
  exact hwrote.cells

/-- What fits below the end of the partition is stored. -/
theorem content_stored {x : List UInt8} (hfit : x.length < otaLength) (m₀ : Mem UInt8) :
    ∃ address, Progress m₀ x (contentOps x) address := by
  have hflat := flatten_blocks 1024 x
  have hlen : (blocks 1024 x).flatten.length + (rest 1024 x).length = x.length := by
    rw [← List.length_append, hflat]
  have hrest : (rest 1024 x).length = x.length % 1024 := length_rest ..
  have hblocks := (progress_init m₀).blocks rfl (fun b hb => length_of_mem_blocks hb)
    (show 0 + (blocks 1024 x).flatten.length < otaLength by omega)
  rw [List.nil_append, List.nil_append] at hblocks
  have hlast := hblocks.block (by omega) (show (rest 1024 x).length ≤ 1024 by omega) (by omega)
  rw [hflat] at hlast
  exact ⟨_, hlast⟩

theorem blockOps_written (address : UInt32) (b : List UInt8) :
    (blockOps address b).2.toNat = address.toNat + written (blockOps address b).1 := by
  have hend : otaStart + otaLength = 0x1e0000 := rfl
  have herased : written (if address % 0x1000 = 0 then [.erase address] else []) = 0 := by
    split <;> rfl
  unfold blockOps
  dsimp only
  split
  next hfit =>
    have hfit' : address.toNat + b.length < otaStart + otaLength := hfit
    rw [written_append, herased, UInt32.toNat_add,
      UInt32.toNat_ofNat_of_lt' (show _ < 2 ^ 32 by omega), Nat.zero_add, written, written,
      Nat.add_zero]
    exact Nat.mod_eq_of_lt (by omega)
  next => rw [herased, Nat.add_zero]

theorem blocksOps_written (address : UInt32) (bs : List (List UInt8)) :
    (blocksOps address bs).2.toNat = address.toNat + written (blocksOps address bs).1 := by
  induction bs generalizing address with
  | nil => rfl
  | cons b bs ih =>
    rw [blocksOps]
    dsimp only
    rw [ih, blockOps_written, written_append, Nat.add_assoc]

/-- The requests never write up to the end of the partition. -/
theorem written_lt (x : List UInt8) : written (contentOps x) < otaLength := by
  have hfirst := blocksOps_written otaPt.partitionStartAddr (blocks 1024 x)
  have hlast := blockOps_written (streamOps x).2 (rest 1024 x)
  have hend := ((streamOps_inOta x).blockOps (rest 1024 x)).upper
  rw [contentOps, written_append]
  rw [← streamOps] at hfirst
  change _ = otaStart + _ at hfirst
  omega

/-- What the writer owes to the stream `received h`, when the content ends after the run `h`. -/
structure HttpLaw (f₀ : Chip) (h : Machine.History Page (List FlashOp)) (d : HttpData) :
    Prop where
  bounded : d.wrLastLen.toUInt32 < httpFlashWrBufMax
  independent : ∀ wrBuf wrTmpBuf h' d', (httpWriter f₀ wrBuf wrTmpBuf).Reaches h' d' →
    received h' = received h → (httpFinish d').1.chip.cells = (httpFinish d).1.chip.cells
  inPlace : WritesFrom otaStart (requests h ++ (httpFinish d).2) ((received h).take otaLength)
  erasedFirst : ErasedFirst (fun _ => False) (requests h ++ (httpFinish d).2)
  content : (httpFinish d).1.chip.cells.Has otaStart ((received h).take otaLength)

theorem not_inPlace_of_full (hfull : otaLength ≤ x.length) :
    ¬ WritesFrom otaStart (contentOps x) (x.take otaLength) := by
  intro h
  have hlen := h.length_eq
  have hlt := written_lt x
  rw [List.length_take] at hlen
  omega

/-- Of a stream of the partition's length the last block is not stored. -/
theorem last_block_dropped (m₀ : Mem UInt8) (hlen : x.length = otaLength) :
    opsCells m₀ (contentOps x) (otaStart + otaLength - 1) = 0xff := by
  have hstart : otaStart = 0x132000 := rfl
  have hend : otaLength = 0xae000 := rfl
  generalize hy : x.take (695 * 1024) = y
  generalize hz : x.drop (695 * 1024) = z
  have hx : x = y ++ z := by rw [← hy, ← hz, List.take_append_drop]
  have hylen : y.length = 695 * 1024 := by
    rw [← hy, List.length_take]
    omega
  have hzlen : z.length = 1024 := by
    rw [← hz, List.length_drop]
    omega
  have hyrest : rest 1024 y = [] := by
    rw [← List.length_eq_zero_iff, length_rest]
    omega
  obtain ⟨hblocks, hrest⟩ : blocks 1024 (y ++ z) = blocks 1024 y ++ [rest 1024 y ++ z] ∧
      rest 1024 (y ++ z) = [] :=
    append_full (by decide) (by rw [hyrest, hzlen]; rfl)
  rw [hyrest, List.nil_append] at hblocks
  have hflat := flatten_blocks 1024 y
  rw [hyrest, List.append_nil] at hflat
  have hprogress := (progress_init m₀).blocks rfl (fun b hb => length_of_mem_blocks hb)
    (show 0 + (blocks 1024 y).flatten.length < otaLength by rw [hflat]; omega)
  rw [List.nil_append, List.nil_append, hflat, ← streamOps] at hprogress
  have haddr := hprogress.address_eq
  have hzero : ¬ (streamOps y).2 % 0x1000 = 0 := by
    rw [← UInt32.toNat_inj, UInt32.toNat_mod, haddr]
    simp only [UInt32.reduceToNat]
    omega
  have hdrop : blockOps (streamOps y).2 z = ([], (streamOps y).2) := by
    rw [blockOps]
    simp only [hzero, if_false]
    exact if_neg (by rw [Accepts]; omega)
  have hempty : blockOps (streamOps y).2 [] =
      ([.write [] (streamOps y).2], (streamOps y).2 + UInt32.ofNat 0) := by
    rw [blockOps]
    simp only [hzero, if_false]
    exact if_pos (show _ + 0 < _ by omega)
  have hstream : streamOps x = streamOps y := by
    rw [hx, streamOps, hblocks, blocksOps_concat, ← streamOps, hdrop, List.append_nil]
  rw [contentOps, hstream, hx, hrest, hempty, opsCells_append]
  change program _ _ [] _ = _
  rw [program_nil]
  exact (hprogress.clean (by omega)).2 _ (by omega) (by omega)

end Law

/-- The streams that end below the end of the partition, and only they, are stored. -/
theorem http_ota_stores_stream {f₀ : Chip} (hchip : OnChip f₀) (wrBuf : Mem UInt8)
    (wrTmpBuf : Bool) {h : Machine.History Page (List FlashOp)} {d : HttpData}
    (hr : (httpWriter f₀ wrBuf wrTmpBuf).Reaches h d) :
    HttpLaw f₀ h d ↔ (received h).length < otaLength := by
  have htracks := tracks hchip hr
  obtain ⟨hops, hcells⟩ := htracks.finish hchip
  constructor
  · intro hlaw
    have hin := hlaw.inPlace
    rw [hops] at hin
    exact Nat.lt_of_not_le fun hfull => not_inPlace_of_full hfull hin
  · intro hfit
    obtain ⟨address, hprogress⟩ := content_stored hfit f₀.cells
    have htake : (received h).take otaLength = received h :=
      List.take_of_length_le (Nat.le_of_lt hfit)
    refine ⟨?_, ?_, ?_, ?_, ?_⟩
    · rw [UInt32.lt_iff_toNat_lt, UInt16.toNat_toUInt32]
      exact htracks.last_lt
    · intro wrBuf' wrTmpBuf' h' d' hr' hsame
      obtain ⟨_, hcells'⟩ := (tracks hchip hr').finish hchip
      rw [hcells, hcells', hsame]
    · rw [hops, htake]
      exact hprogress.writes
    · rw [hops]
      exact hprogress.erasedFirst
    · rw [hcells, htake]
      exact hprogress.content

theorem http_ota_stores_stream_page :
    HttpLaw (filled 0x200000 0) [(⟨[1, 2, 3], by decide⟩, [])]
        (httpWrToFlash (httpFlashInit (filled 0x200000 0) (fun _ => 0) false)
          ⟨[1, 2, 3], by decide⟩).1 ↔ 3 < otaLength :=
  http_ota_stores_stream (by decide) (fun _ => 0) false (.step .init trivial rfl)

/-- The run of one page. -/
theorem reaches_page (f : Chip) (wrBuf : Mem UInt8) (wrTmpBuf : Bool) (page : Page) :
    (httpWriter f wrBuf wrTmpBuf).Reaches
      [(page, (httpWrToFlash (httpFlashInit f wrBuf wrTmpBuf) page).2)]
      (httpWrToFlash (httpFlashInit f wrBuf wrTmpBuf) page).1 :=
  .step .init trivial rfl

/-- A stream of zeros, as long as the partition, leaves its last byte erased. -/
theorem http_ota_drops_last_block :
    ∃ (page : Page) (o : List FlashOp) (d : HttpData),
      (httpWriter (filled 0x200000 0) (fun _ => 0) false).Reaches [(page, o)] d ∧
      page.1 = List.replicate otaLength 0 ∧
      (httpFinish d).1.chip.cells (otaStart + otaLength - 1) ≠ 0 := by
  have hpage : (List.replicate otaLength (0 : UInt8)).length < 2 ^ 32 := by
    rw [List.length_replicate]
    decide
  have hr := reaches_page (filled 0x200000 0) (fun _ => 0) false ⟨_, hpage⟩
  refine ⟨_, _, _, hr, rfl, ?_⟩
  rw [((tracks (by decide) hr).finish (by decide)).2, last_block_dropped]
  · decide
  · exact (congrArg List.length (List.append_nil _)).trans List.length_replicate

end BdkRtt.Ota
