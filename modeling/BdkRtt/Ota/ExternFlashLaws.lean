import BdkRtt.Ota.ExternFlash
import BdkRtt.Ota.HttpClientLaws
import BdkRtt.Flash.DriverLaws

namespace BdkRtt.Ota.ExternFlash

open Lib Flash
open HttpClient (FalPartition FalRequest Download falPartitionRead falPartitionErase
  falPartitionWrite storePage downloadRound downloadLoop contentLen)

section Requests

/-- The requests from `f` to `g` have all been served. -/
structure Unfailed (f g : HttpClient.Flash) : Prop where
  fails : g.fails = f.fails
  grows : f.requests.length ≤ g.requests.length
  served : ∀ i, f.requests.length ≤ i → i < g.requests.length → f.fails i = none

variable {f g h : HttpClient.Flash} {part : FalPartition} {q : FalRequest} {addr size : UInt32}

theorem Unfailed.trans (hfg : Unfailed f g) (hgh : Unfailed g h) : Unfailed f h where
  fails := hgh.fails.trans hfg.fails
  grows := Nat.le_trans hfg.grows hgh.grows
  served i hle hlt := by
    rcases Nat.lt_or_ge i g.requests.length with hi | hi
    · exact hfg.served i hle hi
    · rw [← hfg.fails]
      exact hgh.served i hi hlt

theorem request_unfailed (hok : part.request f addr size q = (g, true)) : Unfailed f g := by
  unfold FalPartition.request HttpClient.Flash.serve at hok
  split at hok
  case isTrue => cases hok
  case isFalse =>
    cases hat : f.fails f.requests.length with
    | some junk =>
      rw [hat] at hok
      cases hok
    | none =>
      rw [hat] at hok
      cases hok
      refine ⟨rfl, by simp, fun i hle hlt => ?_⟩
      have heq : i = f.requests.length := by
        rw [List.length_append, List.length_singleton] at hlt
        omega
      rw [heq]
      exact hat

theorem read_unfailed {xs : List UInt8} (hok : falPartitionRead part f addr size = (g, some xs)) :
    Unfailed f g := by
  unfold falPartitionRead at hok
  dsimp only at hok
  split at hok
  case isFalse => cases hok
  case isTrue hserved =>
    obtain rfl : _ = g := congrArg Prod.fst hok
    exact request_unfailed (Prod.ext rfl hserved)

/-- A read that gives something leaves the cells as they are. -/
theorem read_some {xs : List UInt8} (hok : falPartitionRead part f addr size = (g, some xs)) :
    g.cells = f.cells ∧ xs = f.cells.read addr.toNat size.toNat ∧ ¬ addr + size > part.len := by
  have hxs := HttpClient.falPartitionRead_some hok
  unfold falPartitionRead FalPartition.request at hok
  by_cases hout : addr + size > part.len
  · rw [if_pos hout] at hok
    cases hok
  · rw [if_neg hout] at hok
    have hcells : g.cells = f.cells := by
      obtain rfl : (f.serve (.read addr size)).1 = g := congrArg Prod.fst hok
      unfold HttpClient.Flash.serve
      split <;> rfl
    exact ⟨hcells, hcells ▸ hxs, hout⟩

theorem storePage_unfailed {totalLength nw : UInt32} {page : List UInt8}
    (hok : storePage part f totalLength nw page = (g, true)) : Unfailed f g := by
  unfold storePage at hok
  split at hok
  case h_1 => cases hok
  case h_2 g₁ swap h₁ =>
    have hread := read_unfailed h₁
    split at hok
    case isTrue =>
      cases hok
      exact hread
    case isFalse =>
      split at hok
      case h_1 => cases hok
      case h_2 g₂ h₂ =>
        have herase := hread.trans (request_unfailed h₂)
        split at hok
        case h_1 => cases hok
        case h_2 g₃ h₃ =>
          have hwrite := herase.trans (request_unfailed h₃)
          split at hok
          case h_1 => cases hok
          case h_2 g₄ swap' h₄ =>
            obtain rfl : g₄ = g := congrArg Prod.fst hok
            exact hwrite.trans (read_unfailed h₄)

end Requests

section Loop

variable {σ : Type} {env : HttpClient.Env σ} {part : FalPartition} {d e : Download σ}

theorem downloadRound_unfailed (hok : downloadRound env part d = (e, true)) :
    Unfailed d.flash e.flash := by
  unfold downloadRound at hok
  dsimp only at hok
  split at hok
  case isTrue => cases hok
  case isFalse =>
    split at hok
    case isTrue => cases hok
    case isFalse =>
      split at hok
      case isFalse => cases hok
      case isTrue hstore =>
        cases hok
        exact storePage_unfailed (Prod.ext rfl hstore)

theorem downloadLoop_unfailed {fuel : Nat} (hok : downloadLoop env part fuel d = some (e, true)) :
    Unfailed d.flash e.flash := by
  induction fuel generalizing d with
  | zero => cases hok
  | succ fuel ih =>
    rw [downloadLoop] at hok
    split at hok
    case h_1 => cases hok
    case h_2 d' hround =>
      have hfirst := downloadRound_unfailed hround
      split at hok
      case isTrue => exact hfirst.trans (ih hok)
      case isFalse =>
        cases hok
        exact hfirst

end Loop

section Header

variable {σ : Type} {env : Env σ} {chip c : Chip} {header : List UInt8}

theorem headerAddr_fits : flashRblHeaderAddr.toNat + rblHeaderLen.toNat ≤ 2 ^ 24 := by decide

theorem flashRead_header (chip : Chip) :
    chip.Same (flashRead chip rblHeaderLen flashRblHeaderAddr).1 ∧
      (flashRead chip rblHeaderLen flashRblHeaderAddr).2 =
        chip.cells.read flashRblHeaderAddr.toNat rblHeaderLen.toNat :=
  flashReadData_spec chip flashRblHeaderAddr rblHeaderLen headerAddr_fits

/-- The comparison looks at what is in the flash, whatever the erase and the write have done. -/
theorem copyHeader_true (hok : copyHeader env chip header = (c, true)) :
    c.cells.read flashRblHeaderAddr.toNat rblHeaderLen.toNat = header := by
  rw [copyHeader] at hok
  generalize spoil env.writeFails _ = chip' at hok
  obtain ⟨hcells, hread⟩ := flashRead_header chip'
  generalize flashRead chip' rblHeaderLen flashRblHeaderAddr = r at hok hcells hread
  obtain rfl : r.1 = c := congrArg Prod.fst hok
  have hsame := of_decide_eq_true (congrArg Prod.snd hok)
  rw [hcells.cells, hsame, hread]

/-- On a flash of two megabytes that does what it is told, the header arrives. -/
theorem copyHeader_arrives (hsize : chip.flashSize = 0x200000) (herase : env.eraseFails = none)
    (hwrite : env.writeFails = none) (hlen : header.length = rblHeaderLen.toNat) :
    (copyHeader env chip header).2 = true := by
  have hlt : flashRblHeaderAddr.toNat < 2 ^ 24 := by decide
  have hfit : flashRblHeaderAddr.toNat + rblHeaderLen.toNat ≤ (0x200000 : UInt32).toNat := by
    decide
  rw [copyHeader, herase, hwrite]
  have hcells := flashEraseSector_cells chip hlt
  have hsize' : (flashEraseSector chip flashRblHeaderAddr).flashSize = 0x200000 :=
    (flashEraseSector_flashSize chip).trans hsize
  change decide (header = (flashRead (flashWrite (flashEraseSector chip flashRblHeaderAddr) header
    rblHeaderLen flashRblHeaderAddr) rblHeaderLen flashRblHeaderAddr).2) = true
  generalize flashEraseSector chip flashRblHeaderAddr = erased at hcells hsize'
  have hprograms := (flashWriteData_programs erased hlen (by rw [hsize']; decide)
    (by rw [hsize']; exact hfit)).cells
  change (flashWrite erased header rblHeaderLen flashRblHeaderAddr).cells = _ at hprograms
  generalize flashWrite erased header rblHeaderLen flashRblHeaderAddr = written at hprograms
  rw [(flashRead_header written).2, hprograms, decide_eq_true_iff]
  have hlen' : header.length = 96 := hlen
  have haddr : flashRblHeaderAddr.toNat = 0x1FD000 := rfl
  apply List.ext_getElem (by rw [hlen, Mem.length_read])
  intro k hk _
  have hin : flashRblHeaderAddr.toNat / 4096 * 4096 < chip.flashSize.toNat ∧
      (flashRblHeaderAddr.toNat + k) / 4096 = flashRblHeaderAddr.toNat / 4096 := by
    rw [hsize, haddr]
    exact ⟨by decide, by omega⟩
  simp only [Mem.read, List.getElem_map, List.getElem_range]
  rw [program_apply_add, hcells, if_pos hin, List.getD_eq_getElem _ _ hk]
  exact UInt8.neg_one_and.symm

end Header

section Download

variable {σ : Type} {env : Env σ} {f : HttpClient.Flash} {chip : Chip}

/-- What holds of the way the function ends, but for the header. -/
structure SafeLaw (env : Env σ) (f : HttpClient.Flash) (r : Outcome) : Prop where
  protect : r.protect = .flashUnprotectLastBlock
  image : r.reset → r.received.length = contentLen env.toEnv ∧
    r.flash.cells.read 0 (contentLen env.toEnv) = r.received
  verified : r.reset → ∃ g, g.cells = r.flash.cells ∧ 0 ≤ env.rtOtaPartFwVerify g
  /-- No request of the flash has failed. -/
  unfailed : r.reset → Unfailed f r.flash
  /-- Nothing else has failed. -/
  checked : r.reset → env.session.isSome ∧ env.respStatus = 200 ∧ env.bufferRead ∧
    env.bufferSwap ∧ env.partitionInit = 0 ∧
      ∃ part, env.dlPart = some part ∧ contentLen env.toEnv ≤ part.len.toNat

/-- The header in the internal flash is that of the image. -/
def HeaderLaw (r : Outcome) : Prop :=
  r.reset → r.chip.cells.read flashRblHeaderAddr.toNat 96 = r.flash.cells.read 0 96

theorem safe_leave {received : List UInt8} : SafeLaw env f (leave false f received chip) :=
  ⟨rfl, nofun, nofun, nofun, nofun⟩

/-- Either the function gives up before its loop, or the loop decides. -/
theorem download_cases (env : Env σ) :
    (∀ fuel f chip, httpOtaExternFlashDownload env fuel f chip = some (leave false f [] chip)) ∨
    ∃ s part, env.session = some s ∧ env.respStatus = 200 ∧ env.contentLength ≠ 0 ∧
      env.dlPart = some part ∧ contentLen env.toEnv ≤ part.len.toNat ∧
      env.bufferRead = true ∧ env.bufferSwap = true ∧ env.partitionInit = 0 ∧
      ∀ fuel f chip, httpOtaExternFlashDownload env fuel f chip =
        (downloadLoop env.toEnv part fuel ⟨s, f, 0, []⟩).map (finish env part chip) := by
  unfold httpOtaExternFlashDownload
  cases env.session with
  | none => exact .inl fun _ _ _ => rfl
  | some s =>
    by_cases hstatus : env.respStatus ≠ 200 ∨ env.contentLength = 0
    · exact .inl fun _ _ _ => if_pos hstatus
    · cases env.dlPart with
      | none => exact .inl fun _ _ _ => if_neg hstatus
      | some part =>
        by_cases hbad : env.contentLength.toUInt32 > part.len ∨ !env.bufferRead ∨
            !env.bufferSwap ∨ env.partitionInit ≠ 0
        · exact .inl fun _ _ _ => (if_neg hstatus).trans (if_pos hbad)
        · refine .inr ⟨s, part, rfl, ?_, ?_, rfl, ?_, ?_, ?_, ?_,
            fun _ _ _ => (if_neg hstatus).trans (if_neg hbad)⟩
          · by_contra hne
            exact hstatus (.inl hne)
          · exact fun hzero => hstatus (.inr hzero)
          · exact UInt32.le_iff_toNat_le.mp (UInt32.not_lt.mp fun h => hbad (.inl h))
          · by_contra hne
            exact hbad (.inr (.inl (by simpa using hne)))
          · by_contra hne
            exact hbad (.inr (.inr (.inl (by simpa using hne))))
          · by_contra hne
            exact hbad (.inr (.inr (.inr hne)))

theorem finish_eq {part : FalPartition} {d : Download σ} {g : HttpClient.Flash}
    {header : List UInt8} {c : Chip} (hverify : 0 ≤ env.rtOtaPartFwVerify d.flash)
    (hread : falPartitionRead part d.flash env.offset rblHeaderLen = (g, some header))
    (hcopy : copyHeader env chip header = (c, true)) :
    finish env part chip (d, true) = leave true g d.received c := by
  have hgood : ¬ (true = false ∨ env.rtOtaPartFwVerify d.flash < 0) := by
    rintro (hfalse | hlt)
    · cases hfalse
    · exact absurd hverify (Int.not_le.mpr hlt)
  unfold finish
  dsimp only
  rw [if_neg hgood, hread]
  dsimp only
  rw [hcopy]

/-- When the device is reset, everything behind the loop has gone well. -/
theorem finish_reset {part : FalPartition} {d : Download σ} {b : Bool}
    (hreset : (finish env part chip (d, b)).reset = true) :
    b = true ∧ 0 ≤ env.rtOtaPartFwVerify d.flash ∧ ∃ g header c,
      falPartitionRead part d.flash env.offset rblHeaderLen = (g, some header) ∧
      copyHeader env chip header = (c, true) ∧
      finish env part chip (d, b) = leave true g d.received c := by
  unfold finish at hreset ⊢
  dsimp only at hreset ⊢
  by_cases hbad : b = false ∨ env.rtOtaPartFwVerify d.flash < 0
  · rw [if_pos hbad] at hreset
    cases hreset
  · rw [if_neg hbad] at hreset ⊢
    rw [not_or, Bool.not_eq_false, not_lt] at hbad
    refine ⟨hbad.1, hbad.2, ?_⟩
    cases hread : falPartitionRead part d.flash env.offset rblHeaderLen with
    | mk g header =>
      rw [hread] at hreset
      cases header with
      | none => cases hreset
      | some header =>
        have hc : (copyHeader env chip header).2 = true := hreset
        refine ⟨g, header, (copyHeader env chip header).1, rfl, Prod.ext rfl hc, ?_⟩
        dsimp only
        rw [hc]

theorem finish_protect {part : FalPartition} {r : Download σ × Bool} :
    (finish env part chip r).protect = .flashUnprotectLastBlock := by
  unfold finish
  dsimp only
  split
  · rfl
  · split <;> rfl

theorem download_safe (env : Env σ) (f : HttpClient.Flash) (chip : Chip) :
    ∃ r, (∀ fuel, contentLen env.toEnv ≤ fuel →
        httpOtaExternFlashDownload env fuel f chip = some r) ∧ SafeLaw env f r := by
  rcases download_cases env with hexit | ⟨s, part, hs, hstatus, hne, hpart, hle, hread, hswap,
    hinit, hloop⟩
  · exact ⟨_, fun fuel _ => hexit fuel f chip, safe_leave⟩
  · have hlen : contentLen env.toEnv + 4096 ≤ 2 ^ 32 := by
      have := part.len_le
      omega
    have hpos : 0 < contentLen env.toEnv := toNat_pos fun h0 => hne (by
      rw [← Int32.toInt32_toUInt32 env.contentLength, h0]
      rfl)
    obtain ⟨⟨d, b⟩, hr, -, himage⟩ := HttpClient.loop_outcome part s hlen hpos f
    refine ⟨finish env part chip (d, b), fun fuel hfuel => ?_, finish_protect, ?_, ?_, ?_, ?_⟩
    · rw [hloop, HttpClient.downloadLoop_mono hfuel hr]
      rfl
    · intro hreset
      obtain ⟨rfl, -, g, header, c, hheader, -, heq⟩ := finish_reset hreset
      obtain ⟨hcount, hcells⟩ := himage rfl
      rw [heq]
      refine ⟨hcount, ?_⟩
      change g.cells.read _ _ = d.received
      rw [(read_some hheader).1]
      exact hcells
    · intro hreset
      obtain ⟨rfl, hverify, g, header, c, hheader, -, heq⟩ := finish_reset hreset
      rw [heq]
      exact ⟨d.flash, (read_some hheader).1.symm, hverify⟩
    · intro hreset
      obtain ⟨rfl, -, g, header, c, hheader, -, heq⟩ := finish_reset hreset
      rw [heq]
      exact (downloadLoop_unfailed hr).trans (read_unfailed hheader)
    · intro _
      exact ⟨by rw [hs]; rfl, hstatus, hread, hswap, hinit, part, hpart, hle⟩

/-- The partition begins where its flash does; or the header cannot be read, or nothing can be
stored, and the device is not reset at all. -/
def HeaderAtOffset (part : FalPartition) (offset : UInt32) : Prop :=
  offset = 0 ∨ offset + rblHeaderLen > part.len ∨ part.len = 0

theorem download_header {part : FalPartition} {fuel : Nat} {r : Outcome}
    (hpart : env.dlPart = some part) (hat : HeaderAtOffset part env.offset)
    (hr : httpOtaExternFlashDownload env fuel f chip = some r) : HeaderLaw r := by
  intro hreset
  rcases download_cases env with hexit | ⟨s, part', hs, hstatus, hne, hpart', hle, hread, hswap,
    hinit, hloop⟩
  · rw [hexit] at hr
    cases hr
    cases hreset
  · rw [hpart] at hpart'
    cases hpart'
    rw [hloop] at hr
    obtain ⟨⟨d, b⟩, hd, rfl⟩ := Option.map_eq_some_iff.mp hr
    obtain ⟨-, -, g, header, c, hheader, hcopy, heq⟩ := finish_reset hreset
    obtain ⟨hcells, hbytes, hin⟩ := read_some hheader
    rw [heq]
    change c.cells.read flashRblHeaderAddr.toNat rblHeaderLen.toNat = g.cells.read 0 96
    rw [copyHeader_true hcopy, hbytes, hcells]
    rcases hat with hzero | hout | hempty
    · rw [hzero]
      rfl
    · exact absurd hout hin
    · -- a partition without a byte does not take the image
      refine absurd (toNat_pos fun h0 => hne ?_) (Nat.not_lt.mpr (hempty ▸ hle))
      rw [← Int32.toInt32_toUInt32 env.contentLength, h0]
      rfl

end Download

section Whole

variable {σ : Type} {env : HttpClient.Env σ} {part : FalPartition} {f : HttpClient.Flash}
  {s s' : σ} {nw addr size : UInt32}

theorem readPage_whole (fuel : Nat) {length : UInt32} {piece : HttpClient.Piece length}
    (hlen : nw - UInt32.ofNat ([] : List UInt8).length = length)
    (hgive : env.webclientRead s length = (s', some piece)) (hfull : piece.1.length = nw.toNat) :
    HttpClient.readPage env nw (fuel + 1) s [] = (s', piece.1) := by
  subst hlen
  rw [HttpClient.readPage]
  dsimp only
  rw [hgive]
  exact if_neg (by rw [List.nil_append, hfull]; exact Nat.lt_irrefl _)

theorem read_served (hfails : f.fails f.requests.length = none) (hin : ¬ addr + size > part.len) :
    falPartitionRead part f addr size =
      ({ f with requests := f.requests ++ [.read addr size] },
        some (f.cells.read addr.toNat size.toNat)) := by
  rw [falPartitionRead, FalPartition.request, if_neg hin, HttpClient.Flash.serve, hfails]
  rfl

/-- A page that is there already is left as it is. -/
theorem storePage_same (hfails : f.fails f.requests.length = none)
    (hin : ¬ addr + size > part.len) :
    storePage part f addr size (f.cells.read addr.toNat size.toNat) =
      ({ f with requests := f.requests ++ [.read addr size] }, true) := by
  rw [storePage, read_served hfails hin]
  exact if_pos rfl

end Whole

section Fails

/-- A partition that holds an image already. -/
def imageCells : Mem UInt8 := fun k => [0x52, 0x42, 0x4c].getD k 0

def plainEnv (part : FalPartition) (offset n : UInt32) : Env Unit where
  session := some ()
  respStatus := 200
  contentLength := n.toInt32
  dlPart := some part
  bufferRead := true
  bufferSwap := true
  webclientRead := fun s length =>
    (s, if h : 0 < length.toNat then
      some ⟨imageCells.read 0 length.toNat, by simpa using h, by simp⟩ else none)
  descPart := fun _ => none
  rtOtaPartFwVerify := fun _ => 0
  offset := offset
  partitionInit := 0
  eraseFails := none
  writeFails := none

def plainFlash : HttpClient.Flash := ⟨imageCells, [], fun _ => none⟩

def plainChip : Chip := ⟨0x200000, fun _ => 0xff, 0, []⟩

variable {part : FalPartition} {offset n : UInt32}

theorem plain_round (hpos : 0 < n.toNat) (hle : n.toNat ≤ 96) (hfit : n.toNat ≤ part.len.toNat) :
    downloadRound (plainEnv part offset n).toEnv part ⟨(), plainFlash, 0, []⟩ =
      (⟨(), { plainFlash with requests := [.read 0 n] }, 0 + n, imageCells.read 0 n.toNat⟩,
        true) := by
  have hsize : HttpClient.pageSize (plainEnv part offset n).toEnv 0 = n := by
    have hcontent : (plainEnv part offset n).contentLength.toUInt32 = n := UInt32.toUInt32_toInt32 _
    have hbig : HttpClient.httpOtaBuffLen + 0 > n := by
      rw [gt_iff_lt, UInt32.lt_iff_toNat_lt]
      change n.toNat < 4096
      omega
    rw [HttpClient.pageSize, hcontent, if_pos hbig, UInt32.sub_zero]
  have hin : ¬ (0 : UInt32) + n > part.len := by
    rw [UInt32.zero_add, gt_iff_lt, UInt32.not_lt]
    exact hfit
  have hpage : HttpClient.readPage (plainEnv part offset n).toEnv n n.toNat () [] =
      ((), imageCells.read 0 n.toNat) := by
    obtain ⟨m, hm⟩ := Nat.exists_eq_succ_of_ne_zero (Nat.ne_of_gt hpos)
    have hgive : (plainEnv part offset n).webclientRead () n =
        ((), some ⟨imageCells.read 0 n.toNat, by simpa using hpos, by simp⟩) := by
      simp only [plainEnv, dif_pos hpos]
    have hwhole := readPage_whole m (UInt32.sub_zero n) hgive (Mem.length_read ..)
    rw [← Nat.succ_eq_add_one, ← hm] at hwhole
    exact hwhole
  have hfits :
      HttpClient.rblFits (plainEnv part offset n).toEnv (imageCells.read 0 n.toNat) = true := by
    unfold HttpClient.rblFits
    split <;> rfl
  have hstore : storePage part plainFlash 0 n (imageCells.read 0 n.toNat) =
      ({ plainFlash with requests := [.read 0 n] }, true) :=
    storePage_same (f := plainFlash) rfl hin
  unfold downloadRound
  dsimp only
  rw [hsize, hpage]
  dsimp only
  rw [if_neg (by rw [Mem.length_read]; exact fun hne => hne rfl), if_neg (by simp [hfits])]
  change (if (storePage part plainFlash 0 n (imageCells.read 0 n.toNat)).2 = true then _ else _) = _
  rw [hstore]
  rfl

/-- In a partition that begins further on, the header is taken from behind the image. -/
theorem plain_breaks (hnot : ¬ HeaderAtOffset part offset) (hpos : 0 < n.toNat) (hle : n.toNat ≤ 96)
    (hfit : n.toNat ≤ part.len.toNat) :
    ∃ fuel r, httpOtaExternFlashDownload (plainEnv part offset n) fuel plainFlash plainChip =
      some r ∧ ¬ HeaderLaw r := by
  rw [HeaderAtOffset, not_or, not_or] at hnot
  obtain ⟨hoffset, hin, -⟩ := hnot
  have hcontent : (plainEnv part offset n).contentLength.toUInt32 = n := UInt32.toUInt32_toInt32 _
  have hloop : downloadLoop (plainEnv part offset n).toEnv part 1 ⟨(), plainFlash, 0, []⟩ =
      some (⟨(), { plainFlash with requests := [.read 0 n] }, 0 + n,
        imageCells.read 0 n.toNat⟩, true) := by
    rw [downloadLoop, plain_round hpos hle hfit]
    exact if_neg (by rw [hcontent, UInt32.zero_add]; exact fun hne => hne rfl)
  have hstatus : ¬ ((200 : Int) ≠ 200 ∨ (plainEnv part offset n).contentLength = 0) := by
    rintro (hne | hzero)
    · exact hne rfl
    · rw [← hcontent, hzero] at hpos
      exact absurd hpos (by decide)
  have hgood : ¬ ((plainEnv part offset n).contentLength.toUInt32 > part.len ∨ (!true) = true ∨
      (!true) = true ∨ (0 : Int) ≠ 0) := by
    rintro (hbig | hfalse | hfalse | hne)
    · rw [hcontent, gt_iff_lt, UInt32.lt_iff_toNat_lt] at hbig
      omega
    · cases hfalse
    · cases hfalse
    · exact hne rfl
  have hdownload : httpOtaExternFlashDownload (plainEnv part offset n) 1 plainFlash plainChip =
      (downloadLoop (plainEnv part offset n).toEnv part 1 ⟨(), plainFlash, 0, []⟩).map
        (finish (plainEnv part offset n) part plainChip) :=
    (if_neg hstatus).trans (if_neg hgood)
  rw [hloop] at hdownload
  refine ⟨1, _, hdownload, fun hlaw => ?_⟩
  have hread : falPartitionRead part { plainFlash with requests := [.read 0 n] } offset
      rblHeaderLen = _ :=
    read_served (f := { plainFlash with requests := [.read 0 n] }) rfl hin
  have harrives : (copyHeader (plainEnv part offset n) plainChip
      (imageCells.read offset.toNat rblHeaderLen.toNat)).2 = true :=
    copyHeader_arrives rfl rfl rfl (Mem.length_read ..)
  obtain ⟨c, hcopy⟩ : ∃ c, copyHeader (plainEnv part offset n) plainChip
      (imageCells.read offset.toNat rblHeaderLen.toNat) = (c, true) := ⟨_, Prod.ext rfl harrives⟩
  have hfinish : finish (plainEnv part offset n) part plainChip
      (⟨(), { plainFlash with requests := [.read 0 n] }, 0 + n, imageCells.read 0 n.toNat⟩, true) =
      leave true { plainFlash with requests := [.read 0 n] ++ [.read offset rblHeaderLen] }
        (imageCells.read 0 n.toNat) c :=
    finish_eq (Int.le_refl 0) hread hcopy
  rw [hfinish] at hlaw
  have hheader : c.cells.read flashRblHeaderAddr.toNat 96 = imageCells.read 0 96 := hlaw rfl
  have hcells : c.cells.read flashRblHeaderAddr.toNat 96 = imageCells.read offset.toNat 96 :=
    copyHeader_true hcopy
  -- the first byte of the image is not found again behind it
  have hfirst := congrArg List.head? (hcells.symm.trans hheader)
  have hother : imageCells (offset.toNat + 0) ≠ 0x52 := by
    obtain ⟨k, hk⟩ := Nat.exists_eq_succ_of_ne_zero (Nat.ne_of_gt (toNat_pos hoffset))
    rw [hk]
    rcases k with _ | _ | k
    · decide
    · decide
    · intro heq
      cases heq
  exact hother (Option.some.inj hfirst)

end Fails

/-- Whatever the response, the flash and its failures: the device is reset only on the image that
was received and verified, never behind an error, and the protection is put back.  The header that
is handed over is that of the image for all of them exactly when the offset makes no difference. -/
theorem handover (part : FalPartition) (offset : UInt32) :
    (∀ (σ : Type) (env : Env σ) f chip, ∃ r, (∀ fuel, contentLen env.toEnv ≤ fuel →
      httpOtaExternFlashDownload env fuel f chip = some r) ∧ SafeLaw env f r) ∧
    ((∀ (σ : Type) (env : Env σ) f chip fuel r, env.dlPart = some part → env.offset = offset →
      httpOtaExternFlashDownload env fuel f chip = some r → HeaderLaw r) ↔
        HeaderAtOffset part offset) := by
  refine ⟨fun σ env f chip => download_safe env f chip, fun hall => ?_, ?_⟩
  · by_contra hnot
    have hempty : part.len ≠ 0 := fun hzero => hnot (.inr (.inr hzero))
    have hpos := toNat_pos hempty
    have hn : (UInt32.ofNat (min 96 part.len.toNat)).toNat = min 96 part.len.toNat :=
      UInt32.toNat_ofNat_of_lt' (by change _ < 2 ^ 32; omega)
    obtain ⟨fuel, r, hr, hbreak⟩ := plain_breaks (n := UInt32.ofNat (min 96 part.len.toNat)) hnot
      (by omega) (by omega) (by omega)
    exact hbreak (hall _ _ _ _ fuel r rfl rfl hr)
  · intro hat σ env f chip fuel r hpart hoffset hr
    exact download_header hpart (hoffset ▸ hat) hr

/-- A download partition of 816 kilobytes. -/
def dlPart : FalPartition := ⟨0xcc000, by decide⟩

theorem handover_at_start :
    ∃ r, httpOtaExternFlashDownload (plainEnv dlPart 0 96) 96 plainFlash plainChip = some r ∧
      SafeLaw (plainEnv dlPart 0 96) plainFlash r ∧ HeaderLaw r := by
  obtain ⟨hall, hheader⟩ := handover dlPart 0
  obtain ⟨r, hr, hsafe⟩ := hall Unit (plainEnv dlPart 0 96) plainFlash plainChip
  have hcontent : contentLen (plainEnv dlPart 0 96).toEnv ≤ 96 := by decide
  have hat : HeaderAtOffset dlPart 0 := .inl rfl
  have hdownload := hr 96 hcontent
  exact ⟨r, hdownload, hsafe, hheader.mpr hat Unit _ _ _ 96 r rfl rfl hdownload⟩

theorem handover_wrong_header :
    ¬ ∀ (env : Env Unit) f chip fuel r,
      httpOtaExternFlashDownload env fuel f chip = some r → HeaderLaw r := by
  intro hall
  have hnot : ¬ HeaderAtOffset dlPart 0x1000 := by
    rw [HeaderAtOffset]
    decide
  have hpos : 0 < (96 : UInt32).toNat := by decide
  have hfit : (96 : UInt32).toNat ≤ dlPart.len.toNat := by decide
  obtain ⟨fuel, r, hr, hbreak⟩ := plain_breaks hnot hpos (Nat.le_refl 96) hfit
  exact hbreak (hall _ _ _ _ _ hr)

end BdkRtt.Ota.ExternFlash
