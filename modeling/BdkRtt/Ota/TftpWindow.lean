import BdkRtt.Ota.TftpLaws

namespace BdkRtt.Ota

open Lib Flash

section Reach

instance (flashSize address len : UInt32) : Decidable (Refused flashSize address len) :=
  inferInstanceAs (Decidable (_ ∨ _ ∨ _))

/-- The flash that a request reaches, by first address and number of bytes, where the driver does
not refuse it. -/
def TftpOut.reach (flashSize : UInt32) : TftpOut → Option (Nat × Nat)
  | .erase param =>
    if param &&& 0xfff000 ≥ flashSize then none else some ((param &&& 0xfff000).toNat, 4096)
  | .write _ count address =>
    if Refused flashSize address count then none else some (address.toNat, count.toNat)
  | .header _ address => if Refused flashSize address 32 then none else some (address.toNat, 32)
  | .ack _ | .store _ _ => none

def ImgHead.bytes (img : ImgHead) : List UInt8 :=
  le32 img.bkupAddr ++ le32 img.bkupLen ++ le32 img.exAddr ++ le32 img.osAddr ++
    le32 img.hdAddr ++ le32 img.crc ++ le32 img.status ++ le32 img.bk

/-- A request as the flash driver performs it. -/
def TftpOut.perform (f : Chip) : TftpOut → Chip
  | .erase param => flashEraseSector f param
  | .write userBuf count address => flashWrite f userBuf count address
  | .header img address => flashWrite f img.bytes 32 address
  | .ack _ | .store _ _ => f

end Reach

section Memory

variable (coCrc32 : List UInt8 → UInt32 → UInt32) (flashSize : UInt32)

/-- What `store_block` does with the memory it is given: it reads bytes of `src`, by offset and
number, and copies bytes into the check buffer. -/
inductive StoreAccess
  | src (offset count : Nat)
  | fData (count : Nat)

/-- The accesses of `store_block`, where `fData` says that `os_malloc` gives the check buffer; a
write that the driver refuses reads nothing. -/
def storeAccesses (fData : Bool) (c : TftpClient) (block : UInt32) (src : List UInt8)
    (len : UInt32) : List StoreAccess :=
  let sendHd := sendPtkHd src
  let c := startBlock c block sendHd
  .src 0 24 ::
    if c.osDataAddr ≥ 0x200000 ∨ c.osDataAddr < 0x27000 then []
    else
      let count := (len - 24).toNat
      (if Refused flashSize c.osDataAddr (len - 24) then [] else [.src 24 count]) ++
        (if fData then [.fData count, .src 24 count] else []) ++
        if sendHd.seq ≠ sendHd.totalSeq then [.src 0 len.toNat]
        else [.src (len - 4).toNat 4, .src 0 (len - 4).toNat]

/-- The bytes of `src` are those of the block that came in, and the check buffer has 1024. -/
def StoreAccess.Inside (len : UInt32) : StoreAccess → Prop
  | .src offset count => offset + count ≤ len.toNat
  | .fData count => count ≤ 1024

/-- The erases and writes of `store_block` lie in the window, and its accesses to `src` and the
check buffer inside these. -/
structure StaysInside (fData : Bool) (c : TftpClient) (block : UInt32) (src : List UInt8)
    (len : UInt32) : Prop where
  flash : ∀ o ∈ (storeBlock coCrc32 c block src len).2, ∀ r ∈ o.reach flashSize,
    0x27000 ≤ r.1 ∧ r.1 + r.2 ≤ 0x200000
  memory : ∀ a ∈ storeAccesses flashSize fData c block src len, a.Inside len

/-- The sector of the address, of which the driver takes 24 bits, lies in the window or beyond the
chip. -/
def SectorFits (param : UInt32) : Prop :=
  flashSize.toNat ≤ param.toNat % 2 ^ 24 / 4096 * 4096 ∨
    0x27000 ≤ param.toNat % 2 ^ 24 ∧ param.toNat % 2 ^ 24 < 0x200000

instance (param : UInt32) : Decidable (SectorFits flashSize param) :=
  inferInstanceAs (Decidable (_ ∨ _ ∧ _))

/-- Where the block goes. -/
def blockAddr (c : TftpClient) (block : UInt32) (src : List UInt8) : UInt32 :=
  if block ≠ 0 then c.osDataAddr else (sendPtkHd src).os1FlashAddr

/-- The CRC that the block carries on. -/
def blockCrc (c : TftpClient) (block : UInt32) : UInt32 := if block ≠ 0 then c.tftpCrc else 0

/-- The test of `store_block`, which looks at the start of the block only. -/
def InWindow (addr : UInt32) : Prop := 0x27000 ≤ addr ∧ addr < 0x200000

/-- The block is the last of its image and has the right CRC. -/
def Closes (c : TftpClient) (block : UInt32) (src : List UInt8) (len : UInt32) : Prop :=
  Last src ∧ coCrc32 (src.take (len - 4).toNat) (blockCrc c block) =
    ofLe32 (src.drop (len - 4).toNat)

/-- The packets that `store_block` should take. -/
structure BlockFits (fData : Bool) (c : TftpClient) (block : UInt32) (src : List UInt8)
    (len : UInt32) : Prop where
  whole : 24 ≤ len.toNat
  sector : blockAddr c block src % 0x1000 = 0 → SectorFits flashSize (blockAddr c block src)
  payload : InWindow (blockAddr c block src) →
    ¬ Refused flashSize (blockAddr c block src) (len - 24) →
      (blockAddr c block src).toNat + (len.toNat - 24) ≤ 0x200000
  check : InWindow (blockAddr c block src) → fData = true → len.toNat ≤ 1048
  headerSector : InWindow (blockAddr c block src) → Closes coCrc32 c block src len →
    SectorFits flashSize (sendPtkHd src).osHdAddr
  header : InWindow (blockAddr c block src) → Closes coCrc32 c block src len →
    ¬ Refused flashSize (sendPtkHd src).osHdAddr 32 →
      0x27000 ≤ (sendPtkHd src).osHdAddr.toNat ∧
        (sendPtkHd src).osHdAddr.toNat + 32 ≤ 0x200000

end Memory

section Laws

variable {coCrc32 : List UInt8 → UInt32 → UInt32} {flashSize : UInt32}

theorem eraseAddr_toNat (param : UInt32) :
    (param &&& (0xfff000 : UInt32)).toNat = param.toNat % 2 ^ 24 / 4096 * 4096 := by
  have hlow : (param &&& (0xffffff : UInt32)).toNat = param.toNat % 2 ^ 24 := by
    rw [UInt32.toNat_and]
    exact Nat.and_two_pow_sub_one_eq_mod param.toNat 24
  have hmask : param &&& (0xfff000 : UInt32) = (param &&& 0xffffff) &&& 0xfff000 := by
    rw [UInt32.and_assoc]
    rfl
  have h24 : param.toNat % 2 ^ 24 < 2 ^ 24 := Nat.mod_lt _ (by decide)
  rw [hmask, sectorAddr_toNat (by rw [hlow]; exact h24), hlow]

/-- An erase stays in the window just when its sector fits. -/
theorem reach_erase (param : UInt32) :
    (∀ r ∈ (TftpOut.erase param).reach flashSize, 0x27000 ≤ r.1 ∧ r.1 + r.2 ≤ 0x200000) ↔
      SectorFits flashSize param := by
  rw [TftpOut.reach, SectorFits]
  have haddr := eraseAddr_toNat param
  split
  next hoff =>
    rw [ge_iff_le, UInt32.le_iff_toNat_le, haddr] at hoff
    exact iff_of_true (fun r hr => absurd hr (Option.not_mem_none r)) (.inl hoff)
  next hon =>
    rw [ge_iff_le, UInt32.le_iff_toNat_le, haddr] at hon
    simp only [Option.mem_some_iff, forall_eq', haddr, hon, false_or]
    omega

theorem reach_write (userBuf : List UInt8) (count address : UInt32) :
    (∀ r ∈ (TftpOut.write userBuf count address).reach flashSize,
        0x27000 ≤ r.1 ∧ r.1 + r.2 ≤ 0x200000) ↔
      (¬ Refused flashSize address count →
        0x27000 ≤ address.toNat ∧ address.toNat + count.toNat ≤ 0x200000) := by
  rw [TftpOut.reach]
  split
  next hoff => simp [hoff]
  next hon => simp [hon]

theorem reach_header (img : ImgHead) (address : UInt32) :
    (∀ r ∈ (TftpOut.header img address).reach flashSize,
        0x27000 ≤ r.1 ∧ r.1 + r.2 ≤ 0x200000) ↔
      (¬ Refused flashSize address 32 →
        0x27000 ≤ address.toNat ∧ address.toNat + 32 ≤ 0x200000) := by
  rw [TftpOut.reach]
  split
  next hoff => simp [hoff]
  next hon => simp [hon]

theorem startBlock_osDataAddr (c : TftpClient) (block : UInt32) (src : List UInt8) :
    (startBlock c block (sendPtkHd src)).osDataAddr = blockAddr c block src := by
  rw [startBlock, blockAddr]
  split <;> rfl

theorem startBlock_tftpCrc (c : TftpClient) (block : UInt32) (src : List UInt8) :
    (startBlock c block (sendPtkHd src)).tftpCrc = blockCrc c block := by
  rw [startBlock, blockCrc]
  split <;> rfl

theorem not_inWindow {addr : UInt32} : ¬ InWindow addr ↔ addr ≥ 0x200000 ∨ addr < 0x27000 := by
  rw [InWindow, not_and_or, UInt32.not_le, UInt32.not_lt]
  exact or_comm

/-- The requests of `store_block`, in the order of its tests. -/
theorem forall_storeBlock (coCrc32 : List UInt8 → UInt32 → UInt32) (c : TftpClient)
    (block : UInt32) (src : List UInt8) (len : UInt32) {P : TftpOut → Prop}
    {header : Prop} (hstore : P (.store block (src.take len.toNat)))
    (hheader : ∀ img, P (.header img (sendPtkHd src).osHdAddr) ↔ header) :
    (∀ o ∈ (storeBlock coCrc32 c block src len).2, P o) ↔
      (blockAddr c block src % 0x1000 = 0 → P (.erase (blockAddr c block src))) ∧
      (InWindow (blockAddr c block src) →
        P (.write ((src.drop 24).take (len - 24).toNat) (len - 24) (blockAddr c block src)) ∧
        (Closes coCrc32 c block src len → P (.erase (sendPtkHd src).osHdAddr) ∧ header)) := by
  have herased : (∀ o ∈ (if blockAddr c block src % 0x1000 = 0 then
      [TftpOut.erase (blockAddr c block src)] else []), P o) ↔
      (blockAddr c block src % 0x1000 = 0 → P (.erase (blockAddr c block src))) := by
    split
    next h => simp [h]
    next h => simp [h]
  unfold storeBlock
  dsimp only
  rw [startBlock_osDataAddr, startBlock_tftpCrc]
  split
  next hout =>
    have hnot : ¬ InWindow (blockAddr c block src) := not_inWindow.mpr hout
    simp only [List.forall_mem_cons, hstore, herased, hnot, false_implies, and_true, true_and]
  next hin =>
    have hwindow : InWindow (blockAddr c block src) := not_not.mp fun h => hin (not_inWindow.mp h)
    split
    next hseq =>
      have hopen : ¬ Closes coCrc32 c block src len := fun h => hseq h.1
      simp only [List.cons_append, List.forall_mem_cons, List.forall_mem_append, hstore, herased,
        hwindow, hopen, List.not_mem_nil, false_implies, true_implies, implies_true, and_true,
        true_and]
    next hseq =>
      have hlast : Last src := not_not.mp hseq
      split
      next hcrc =>
        have hcloses : Closes coCrc32 c block src len := ⟨hlast, hcrc⟩
        simp only [List.cons_append, List.forall_mem_cons, List.forall_mem_append, hstore,
          herased, hwindow, hcloses, hheader, List.not_mem_nil, false_implies, true_implies,
          implies_true, and_true, true_and, and_assoc]
      next hcrc =>
        have hopen : ¬ Closes coCrc32 c block src len := fun h => hcrc h.2
        simp only [List.cons_append, List.forall_mem_cons, List.forall_mem_append, hstore,
          herased, hwindow, hopen, List.not_mem_nil, false_implies, true_implies, implies_true,
          and_true, true_and]

variable (flashSize) (fData : Bool) (c : TftpClient) (block : UInt32) (src : List UInt8)
  (len : UInt32)

theorem len_sub {n : UInt32} (h : n.toNat ≤ len.toNat) : (len - n).toNat = len.toNat - n.toNat :=
  UInt32.toNat_sub_of_le _ _ (UInt32.le_iff_toNat_le.mpr h)

theorem forall_storeAccesses {P : StoreAccess → Prop} :
    (∀ a ∈ storeAccesses flashSize fData c block src len, P a) ↔
      P (.src 0 24) ∧ (InWindow (blockAddr c block src) →
        (¬ Refused flashSize (blockAddr c block src) (len - 24) →
          P (.src 24 (len - 24).toNat)) ∧
        (fData = true → P (.fData (len - 24).toNat) ∧ P (.src 24 (len - 24).toNat)) ∧
        (¬ Last src → P (.src 0 len.toNat)) ∧
        (Last src → P (.src (len - 4).toNat 4) ∧ P (.src 0 (len - 4).toNat))) := by
  rw [storeAccesses]
  dsimp only
  rw [startBlock_osDataAddr, List.forall_mem_cons]
  apply and_congr_right'
  split
  next hout =>
    have hnot : ¬ InWindow (blockAddr c block src) := not_inWindow.mpr hout
    simp only [hnot, List.not_mem_nil, false_implies, implies_true]
  next hin =>
    have hwindow : InWindow (blockAddr c block src) := not_not.mp fun h => hin (not_inWindow.mp h)
    have hread : (∀ a ∈ (if Refused flashSize (blockAddr c block src) (len - 24) then []
        else [StoreAccess.src 24 (len - 24).toNat]), P a) ↔
        (¬ Refused flashSize (blockAddr c block src) (len - 24) →
          P (.src 24 (len - 24).toNat)) := by
      split
      next h => simp [h]
      next h => simp [h]
    have hcheck : (∀ a ∈ (if fData = true then
        [StoreAccess.fData (len - 24).toNat, .src 24 (len - 24).toNat] else []), P a) ↔
        (fData = true → P (.fData (len - 24).toNat) ∧ P (.src 24 (len - 24).toNat)) := by
      split
      next h => simp [h]
      next h => simp [h]
    have hcrc : (∀ a ∈ (if (sendPtkHd src).seq ≠ (sendPtkHd src).totalSeq then
        [StoreAccess.src 0 len.toNat]
        else [.src (len - 4).toNat 4, .src 0 (len - 4).toNat]), P a) ↔
        (¬ Last src → P (.src 0 len.toNat)) ∧
          (Last src → P (.src (len - 4).toNat 4) ∧ P (.src 0 (len - 4).toNat)) := by
      rw [Last]
      split
      next h => simp [h]
      next h => simp [not_not.mp h]
    simp only [List.forall_mem_append, hread, hcheck, hcrc, hwindow, true_implies, and_assoc]

/-- The memory accesses stay inside for a block that has its whole head, and a payload for which
the check buffer has room, if it is there. -/
theorem accesses_inside :
    (∀ a ∈ storeAccesses flashSize fData c block src len, a.Inside len) ↔ 24 ≤ len.toNat ∧
      (InWindow (blockAddr c block src) → fData = true → len.toNat ≤ 1048) := by
  rw [forall_storeAccesses]
  apply and_congr_right
  intro h24
  change 24 ≤ len.toNat at h24
  have hcount := len_sub len (n := 24) h24
  have htail := len_sub len (n := 4) (Nat.le_trans (by decide) h24)
  simp only [UInt32.reduceToNat] at hcount htail
  simp only [StoreAccess.Inside, hcount, htail]
  apply imp_congr_right
  intro _
  constructor
  · rintro ⟨-, hcheck, -⟩ hdata
    have := (hcheck hdata).1
    omega
  · intro hcheck
    refine ⟨fun _ => by omega, fun hdata => ?_, fun _ => by omega, fun _ => by omega⟩
    have := hcheck hdata
    omega

/-- The flash that the requests reach, by the conditions on the packet. -/
theorem flash_inside :
    (∀ o ∈ (storeBlock coCrc32 c block src len).2, ∀ r ∈ o.reach flashSize,
        0x27000 ≤ r.1 ∧ r.1 + r.2 ≤ 0x200000) ↔
      (blockAddr c block src % 0x1000 = 0 → SectorFits flashSize (blockAddr c block src)) ∧
      (InWindow (blockAddr c block src) →
        (¬ Refused flashSize (blockAddr c block src) (len - 24) →
          0x27000 ≤ (blockAddr c block src).toNat ∧
            (blockAddr c block src).toNat + (len - 24).toNat ≤ 0x200000) ∧
        (Closes coCrc32 c block src len → SectorFits flashSize (sendPtkHd src).osHdAddr ∧
          (¬ Refused flashSize (sendPtkHd src).osHdAddr 32 →
            0x27000 ≤ (sendPtkHd src).osHdAddr.toNat ∧
              (sendPtkHd src).osHdAddr.toNat + 32 ≤ 0x200000))) := by
  have hflash := forall_storeBlock coCrc32 c block src len
    (P := fun o => ∀ r ∈ o.reach flashSize, 0x27000 ≤ r.1 ∧ r.1 + r.2 ≤ 0x200000)
    (fun r hr => absurd hr (Option.not_mem_none r))
    (fun img => reach_header img (sendPtkHd src).osHdAddr)
  simpa only [reach_erase, reach_write] using hflash

variable {flashSize fData c block src len}

theorem StaysInside.fits (h : StaysInside coCrc32 flashSize fData c block src len) :
    BlockFits coCrc32 flashSize fData c block src len := by
  obtain ⟨hsector, hrest⟩ := (flash_inside ..).mp h.flash
  obtain ⟨h24, hcheck⟩ := (accesses_inside ..).mp h.memory
  have hcount : (len - 24).toNat = len.toNat - 24 := len_sub len h24
  refine ⟨h24, hsector, fun hin hok => ?_, hcheck, fun hin hcloses => ((hrest hin).2 hcloses).1,
    fun hin hcloses => ((hrest hin).2 hcloses).2⟩
  rw [← hcount]
  exact ((hrest hin).1 hok).2

theorem BlockFits.staysInside (h : BlockFits coCrc32 flashSize fData c block src len) :
    StaysInside coCrc32 flashSize fData c block src len := by
  have hcount : (len - 24).toNat = len.toNat - 24 := len_sub len h.whole
  refine ⟨(flash_inside ..).mpr ⟨h.sector, fun hin => ⟨fun hok => ⟨hin.1, ?_⟩, fun hcloses =>
    ⟨h.headerSector hin hcloses, h.header hin hcloses⟩⟩⟩,
    (accesses_inside ..).mpr ⟨h.whole, h.check⟩⟩
  rw [hcount]
  exact h.payload hin hok

end Laws

section Frame

/-- Only bytes of these ranges differ. -/
def Frame (rs : List (Nat × Nat)) (m m' : Mem UInt8) : Prop :=
  ∀ k, (∀ r ∈ rs, k < r.1 ∨ r.1 + r.2 ≤ k) → m' k = m k

theorem Frame.refl (rs : List (Nat × Nat)) (m : Mem UInt8) : Frame rs m m := fun _ _ => rfl

theorem Frame.append {rs rs' : List (Nat × Nat)} {m m' m'' : Mem UInt8} (h : Frame rs m m')
    (h' : Frame rs' m' m'') : Frame (rs ++ rs') m m'' := by
  intro k hk
  rw [h' k fun r hr => hk r (List.mem_append_right _ hr),
    h k fun r hr => hk r (List.mem_append_left _ hr)]

variable {f : Chip}

theorem flashWrite_frame (hsize : f.flashSize ∈ flashConfigSizes) {userBuf : List UInt8}
    {count address : UInt32} (hbuf : userBuf.length = count.toNat) :
    Frame (if Refused f.flashSize address count then none
        else some (address.toNat, count.toNat)).toList
      f.cells (flashWrite f userBuf count address).cells ∧
      (flashWrite f userBuf count address).flashSize = f.flashSize := by
  rw [flashWrite]
  split
  next hrefused =>
    rw [flashWriteData_refused hrefused]
    exact ⟨.refl _ _, rfl⟩
  next hok =>
    obtain ⟨-, h23⟩ := flashConfigSizes_line hsize
    have hline := lineAddr_toNat address
    obtain ⟨hlow, hrest⟩ := not_or.mp hok
    obtain ⟨hlen, hend⟩ := not_or.mp hrest
    rw [ge_iff_le, UInt32.le_iff_toNat_le] at hlow
    rw [gt_iff_lt, UInt32.lt_iff_toNat_lt] at hlen hend
    have hsum : (lineAddr address + count).toNat = (lineAddr address).toNat + count.toNat :=
      toNat_add_of_lt (by omega)
    obtain ⟨hcells, hflashSize⟩ := flashWriteData_accepted f hbuf (by omega) (by omega) hok
    refine ⟨fun k hk => ?_, hflashSize⟩
    rw [hcells]
    rcases hk _ List.mem_cons_self with hlt | hge
    · exact program_apply_of_lt _ _ userBuf hlt
    · exact program_apply_of_ge _ _ (by rw [hbuf]; exact hge)

theorem flashEraseSector_frame (param : UInt32) :
    Frame ((TftpOut.erase param).reach f.flashSize).toList f.cells
      (flashEraseSector f param).cells := by
  rw [TftpOut.reach, flashEraseSector]
  split
  next => exact .refl _ _
  next =>
    have haddr := eraseAddr_toNat param
    rw [operate_se f (by rw [haddr]; omega)]
    intro k hk
    have hout := hk _ List.mem_cons_self
    dsimp only at hout ⊢
    exact if_neg (by omega)

/-- A request changes no byte of the chip but those it reaches. -/
theorem perform_frame (hsize : f.flashSize ∈ flashConfigSizes) (o : TftpOut)
    (hbuf : ∀ w ∈ flashWrites [o], w.userBuf.length = w.count.toNat) :
    Frame (o.reach f.flashSize).toList f.cells (o.perform f).cells ∧
      (o.perform f).flashSize = f.flashSize := by
  cases o with
  | ack | store => exact ⟨.refl _ _, rfl⟩
  | erase param => exact ⟨flashEraseSector_frame param, flashEraseSector_flashSize f⟩
  | write userBuf count address =>
    exact flashWrite_frame hsize (hbuf ⟨userBuf, count, address⟩ List.mem_cons_self)
  | header img address => exact flashWrite_frame hsize rfl

theorem performs_frame (hsize : f.flashSize ∈ flashConfigSizes) {outs : List TftpOut}
    (hbuf : ∀ w ∈ flashWrites outs, w.userBuf.length = w.count.toNat) :
    Frame (outs.filterMap (·.reach f.flashSize)) f.cells
      (outs.foldl TftpOut.perform f).cells := by
  induction outs generalizing f with
  | nil => exact .refl _ _
  | cons o outs ih =>
    have hcons : flashWrites (o :: outs) = flashWrites [o] ++ flashWrites outs :=
      flashWrites_append [o] outs
    rw [hcons] at hbuf
    obtain ⟨hfirst, hkept⟩ := perform_frame hsize o fun w hw =>
      hbuf w (List.mem_append_left _ hw)
    have hrest := ih (f := o.perform f) (by rw [hkept]; exact hsize) fun w hw =>
      hbuf w (List.mem_append_right _ hw)
    rw [hkept] at hrest
    have hsplit : (o :: outs).filterMap (·.reach f.flashSize) =
        (o.reach f.flashSize).toList ++ outs.filterMap (·.reach f.flashSize) := by
      rw [List.filterMap_cons]
      cases o.reach f.flashSize <;> rfl
    rw [hsplit]
    exact hfirst.append hrest

variable {coCrc32 : List UInt8 → UInt32 → UInt32} {fData : Bool} {c : TftpClient}
  {block : UInt32} {src : List UInt8} {len : UInt32}

theorem storeBlock_writes (h24 : 24 ≤ len.toNat) (hfits : len.toNat ≤ src.length) :
    ∀ w ∈ flashWrites (storeBlock coCrc32 c block src len).2,
      w.userBuf.length = w.count.toNat := by
  have hcount : (len - 24).toNat = len.toNat - 24 := len_sub len h24
  have hall := (forall_storeBlock coCrc32 c block src len
    (P := fun o => ∀ w ∈ flashWrites [o], w.userBuf.length = w.count.toNat)
    (fun w hw => absurd hw List.not_mem_nil)
    (fun img => iff_true_intro fun w hw => absurd hw List.not_mem_nil)).mpr
  intro w hw
  obtain ⟨o, ho, hw⟩ := List.mem_filterMap.mp hw
  refine hall ⟨fun _ w hw => absurd hw List.not_mem_nil, fun _ => ⟨fun w hw => ?_, fun _ =>
    ⟨fun w hw => absurd hw List.not_mem_nil, trivial⟩⟩⟩ o ho w
    (List.mem_filterMap.mpr ⟨o, List.mem_cons_self, hw⟩)
  obtain rfl := List.mem_singleton.mp hw
  dsimp only
  rw [List.length_take, List.length_drop, hcount]
  omega

/-- A packet that fits changes no byte outside the window, on whatever chip. -/
theorem BlockFits.frame (hsize : f.flashSize ∈ flashConfigSizes)
    (hfits : len.toNat ≤ src.length)
    (h : BlockFits coCrc32 f.flashSize fData c block src len) {k : Nat}
    (hk : k < 0x27000 ∨ 0x200000 ≤ k) :
    ((storeBlock coCrc32 c block src len).2.foldl TftpOut.perform f).cells k = f.cells k := by
  have hinside := h.staysInside.flash
  apply performs_frame hsize (storeBlock_writes h.whole hfits)
  intro r hr
  obtain ⟨o, ho, hreach⟩ := List.mem_filterMap.mp hr
  have := hinside o ho r hreach
  omega

end Frame

/-- `store_block` stays in the window and in the memory it is given, for whatever packet and from
whatever state, if and only if the packet fits. -/
theorem store_block_inside (coCrc32 : List UInt8 → UInt32 → UInt32) (flashSize : UInt32)
    (fData : Bool) (c : TftpClient) (block : UInt32) (src : List UInt8) (len : UInt32) :
    StaysInside coCrc32 flashSize fData c block src len ↔
      BlockFits coCrc32 flashSize fData c block src len :=
  ⟨StaysInside.fits, BlockFits.staysInside⟩

/-- The sector at the address in the first packet is erased before the address is looked at. -/
theorem store_block_erases_first : ¬ ∀ (coCrc32 : List UInt8 → UInt32 → UInt32)
    (flashSize : UInt32) (fData : Bool) (c : TftpClient) (block : UInt32) (src : List UInt8)
    (len : UInt32), flashSize ∈ flashConfigSizes →
      StaysInside coCrc32 flashSize fData c block src len := by
  intro h
  have hin := h (fun _ _ => 0) 0x200000 true
    ⟨.data, 69, 1, 1, 512, 0, 0, ⟨0, 0, 0, 0, 0, 0, 0, 0⟩, false⟩ 0 (List.replicate 536 0) 536
    (by simp [flashConfigSizes])
  exact absurd (hin.fits.sector (by decide)) (by decide)

end BdkRtt.Ota
