import BdkRtt.Lib.Words
import BdkRtt.Ota.HttpClient

namespace BdkRtt.Ota.HttpClient

open Lib

section Flash

/-- The second flash comes from the first by requests that stay inside `S`. -/
structure Touches (S : Nat → Prop) (f g : Flash) : Prop where
  requests : ∃ qs, g.requests = f.requests ++ qs ∧ ∀ q ∈ qs, ∀ k, q.Covers k → S k
  cells : ∀ k, ¬ S k → g.cells k = f.cells k

variable {S T : Nat → Prop} {f g h : Flash} {part : FalPartition} {q : FalRequest}
  {addr size : UInt32}

theorem Touches.refl (S : Nat → Prop) (f : Flash) : Touches S f f where
  requests := ⟨[], (List.append_nil _).symm, fun _ hq => absurd hq List.not_mem_nil⟩
  cells _ _ := rfl

theorem Touches.trans (hfg : Touches S f g) (hgh : Touches S g h) : Touches S f h where
  requests := by
    obtain ⟨qs, hqs, hS⟩ := hfg.requests
    obtain ⟨rs, hrs, hS'⟩ := hgh.requests
    refine ⟨qs ++ rs, by rw [hrs, hqs, List.append_assoc], fun q hq => ?_⟩
    exact (List.mem_append.mp hq).elim (hS q) (hS' q)
  cells k hk := (hgh.cells k hk).trans (hfg.cells k hk)

theorem Touches.mono (hST : ∀ k, S k → T k) (h : Touches S f g) : Touches T f g where
  requests := by
    obtain ⟨qs, hqs, hS⟩ := h.requests
    exact ⟨qs, hqs, fun q hq k hk => hST k (hS q hq k hk)⟩
  cells k hk := h.cells k fun hS => hk (hST k hS)

theorem done_apply {cells : Mem UInt8} {k : Nat} (hk : ¬ q.Covers k) :
    q.done cells k = cells k := by
  cases q with
  | read => rfl
  | erase => exact if_neg hk
  | write addr buf =>
    rcases Nat.lt_or_ge k addr.toNat with hlt | hge
    · exact Mem.write_apply_of_lt _ _ hlt
    · exact Mem.write_apply_of_ge _ (Nat.le_of_not_lt fun hlt => hk ⟨hge, hlt⟩)

theorem broken_apply {cells junk : Mem UInt8} {k : Nat} (hk : ¬ q.Covers k) :
    q.broken cells junk k = cells k := by
  cases q with
  | read => rfl
  | erase => exact if_neg hk
  | write => exact if_neg hk

theorem serve_touches (hS : ∀ k, q.Covers k → S k) : Touches S f (f.serve q).1 := by
  unfold Flash.serve
  cases f.fails f.requests.length with
  | none =>
    exact ⟨⟨[q], rfl, fun r hr => List.mem_singleton.mp hr ▸ hS⟩,
      fun k hk => done_apply fun hc => hk (hS k hc)⟩
  | some junk =>
    exact ⟨⟨[q], rfl, fun r hr => List.mem_singleton.mp hr ▸ hS⟩,
      fun k hk => broken_apply fun hc => hk (hS k hc)⟩

theorem request_touches (hS : ∀ k, q.Covers k → S k) :
    Touches S f (part.request f addr size q).1 := by
  unfold FalPartition.request
  split
  · exact .refl S f
  · exact serve_touches hS

/-- A read gives what the partition holds, before and after it. -/
theorem falPartitionRead_some {xs : List UInt8}
    (hr : falPartitionRead part f addr size = (g, some xs)) :
    xs = g.cells.read addr.toNat size.toNat := by
  simp only [falPartitionRead, Prod.mk.injEq, Option.ite_none_right_eq_some,
    Option.some.injEq] at hr
  obtain ⟨rfl, -, rfl⟩ := hr
  rfl

end Flash

section Page

variable {f : Flash} {totalLength nw : UInt32} {page : List UInt8}

/-- Where the rest of a round may read, erase and write. -/
def InPage (totalLength : UInt32) (k : Nat) : Prop :=
  totalLength.toNat ≤ k ∧ k < totalLength.toNat + 4096

/-- Whichever way the rest of a round takes, it stays in the sector of its page, and where it
succeeds the page is there. -/
theorem storePage_spec (part : FalPartition) (hmod : totalLength.toNat % 4096 = 0)
    (hnw : 0 < nw.toNat) (hle : nw.toNat ≤ 4096) {r : Flash × Bool}
    (hr : storePage part f totalLength nw page = r) :
    Touches (InPage totalLength) f r.1 ∧
      (r.2 = true → r.1.cells.read totalLength.toNat nw.toNat = page) := by
  have hread (g : Flash) : Touches (InPage totalLength) g
      (falPartitionRead part g totalLength nw).1 :=
    request_touches fun k hk => ⟨hk.1, Nat.lt_of_lt_of_le hk.2 (by omega)⟩
  have herase (g : Flash) : Touches (InPage totalLength) g
      (falPartitionErase part g totalLength nw).1 :=
    request_touches fun k hk => by
      obtain ⟨hlo, hhi⟩ := hk
      constructor <;> omega
  have hwrite (g : Flash) : Touches (InPage totalLength) g
      (falPartitionWrite part g totalLength page nw).1 :=
    request_touches fun k hk => ⟨hk.1, Nat.lt_of_lt_of_le hk.2 (by
      have := List.length_take_le nw.toNat page
      omega)⟩
  unfold storePage at hr
  have h1 := hread f
  split at hr
  case h_1 g hg =>
    rw [hg] at h1
    subst hr
    exact ⟨h1, nofun⟩
  case h_2 g swap hg =>
    rw [hg] at h1
    split at hr
    case isTrue heq =>
      subst hr
      exact ⟨h1, fun _ => (heq.trans (falPartitionRead_some hg)).symm⟩
    case isFalse =>
      have h2 := h1.trans (herase g)
      split at hr
      case h_1 g' hg' =>
        rw [hg'] at h2
        subst hr
        exact ⟨h2, nofun⟩
      case h_2 g' hg' =>
        rw [hg'] at h2
        have h3 := h2.trans (hwrite g')
        split at hr
        case h_1 g'' hg'' =>
          rw [hg''] at h3
          subst hr
          exact ⟨h3, nofun⟩
        case h_2 g'' hg'' =>
          rw [hg''] at h3
          have h4 := h3.trans (hread g'')
          split at hr
          case h_1 e he =>
            rw [he] at h4
            subst hr
            exact ⟨h4, nofun⟩
          case h_2 e swap' he =>
            rw [he] at h4
            subst hr
            refine ⟨h4, fun heq => ?_⟩
            rw [decide_eq_true_eq] at heq
            exact (heq.trans (falPartitionRead_some he)).symm

end Page

section Loop

variable {σ : Type} {env : Env σ} {f : Flash} {d : Download σ}

/-- The number of bytes announced by the server, as the loop counts. -/
def contentLen (env : Env σ) : Nat := env.contentLength.toUInt32.toNat

/-- Rounded up to a whole sector. -/
def sectorEnd (n : Nat) : Nat := (n + 4095) / 4096 * 4096

/-- What holds in front of each round and behind the last. -/
structure Progress (env : Env σ) (f : Flash) (d : Download σ) : Prop where
  stored : d.flash.cells.read 0 d.totalLength.toNat = d.received
  touched : Touches (fun k => k < sectorEnd (contentLen env)) f d.flash
  le : d.totalLength.toNat ≤ contentLen env
  aligned : d.totalLength.toNat < contentLen env → d.totalLength.toNat % 4096 = 0

theorem pageSize_toNat (hlen : contentLen env + 4096 ≤ 2 ^ 32) {totalLength : UInt32}
    (hlt : totalLength.toNat < contentLen env) :
    (pageSize env totalLength).toNat = min 4096 (contentLen env - totalLength.toNat) := by
  have hsum : (httpOtaBuffLen + totalLength).toNat = 4096 + totalLength.toNat :=
    toNat_add_of_lt (show 4096 + totalLength.toNat < _ by omega)
  have hsub : (env.contentLength.toUInt32 - totalLength).toNat =
      contentLen env - totalLength.toNat :=
    UInt32.toNat_sub_of_le _ _ (UInt32.le_iff_toNat_le.mpr (Nat.le_of_lt hlt))
  unfold pageSize
  dsimp only
  split
  case isTrue h =>
    have : contentLen env < 4096 + totalLength.toNat := hsum ▸ UInt32.lt_iff_toNat_lt.mp h
    rw [hsub]
    omega
  case isFalse h =>
    have : 4096 + totalLength.toNat ≤ contentLen env :=
      hsum ▸ UInt32.le_iff_toNat_le.mp (UInt32.not_lt.mp h)
    rw [show httpOtaBuffLen.toNat = 4096 from rfl]
    omega

/-- A round that is not the last of its kind stores one page more; any round stays in front of
the end of the last sector. -/
theorem downloadRound_spec (part : FalPartition) (hlen : contentLen env + 4096 ≤ 2 ^ 32)
    (h : Progress env f d) (hlt : d.totalLength.toNat < contentLen env) {r : Download σ × Bool}
    (hr : downloadRound env part d = r) :
    Touches (fun k => k < sectorEnd (contentLen env)) f r.1.flash ∧
      (r.2 = true → Progress env f r.1 ∧ d.totalLength.toNat < r.1.totalLength.toNat) := by
  have hnw := pageSize_toNat hlen hlt
  have hmod := h.aligned hlt
  have hin : ∀ k, InPage d.totalLength k → k < sectorEnd (contentLen env) := by
    intro k hk
    have := hk.2
    rw [sectorEnd]
    omega
  unfold downloadRound at hr
  dsimp only at hr
  split at hr
  case isTrue =>
    subst hr
    exact ⟨h.touched, nofun⟩
  case isFalse hsize =>
    split at hr
    case isTrue =>
      subst hr
      exact ⟨h.touched, nofun⟩
    case isFalse =>
      rw [Ne, Decidable.not_not] at hsize
      have hpos : 0 < (pageSize env d.totalLength).toNat := by omega
      have hfit : (pageSize env d.totalLength).toNat ≤ 4096 := by omega
      obtain ⟨htouch, hstored⟩ := storePage_spec (f := d.flash) part hmod hpos hfit rfl
      have htouched := h.touched.trans (htouch.mono hin)
      split at hr
      case isFalse =>
        subst hr
        exact ⟨htouched, nofun⟩
      case isTrue hok =>
        have htotal : (d.totalLength + pageSize env d.totalLength).toNat =
            d.totalLength.toNat + (pageSize env d.totalLength).toNat :=
          toNat_add_of_lt (by omega)
        subst hr
        refine ⟨htouched, fun _ => ⟨⟨?_, htouched, ?_, ?_⟩, ?_⟩⟩
        · -- the pages in front of this one lie below its sector
          rw [htotal, Mem.read_add, Nat.zero_add, hstored hok, ← h.stored]
          congr 1
          exact Mem.read_congr fun k _ hk => htouch.cells k fun hp => by
            have := hp.1
            omega
        · change (_ + _ : UInt32).toNat ≤ _
          omega
        · change (_ + _ : UInt32).toNat < _ → (_ + _ : UInt32).toNat % 4096 = 0
          omega
        · change _ < (_ + _ : UInt32).toNat
          omega

/-- The loop ends after no more rounds than there are bytes. -/
theorem downloadLoop_spec (part : FalPartition) (hlen : contentLen env + 4096 ≤ 2 ^ 32) (fuel : Nat)
    (h : Progress env f d) (hlt : d.totalLength.toNat < contentLen env)
    (hfuel : contentLen env - d.totalLength.toNat ≤ fuel) :
    ∃ r, downloadLoop env part fuel d = some r ∧
      Touches (fun k => k < sectorEnd (contentLen env)) f r.1.flash ∧
      (r.2 = true → Progress env f r.1 ∧ r.1.totalLength.toNat = contentLen env) := by
  induction fuel generalizing d with
  | zero => omega
  | succ fuel ih =>
    obtain ⟨htouched, hnext⟩ := downloadRound_spec part hlen h hlt rfl
    rw [downloadLoop]
    split
    case h_1 e he =>
      rw [he] at htouched
      exact ⟨_, rfl, htouched, nofun⟩
    case h_2 e he =>
      rw [he] at htouched hnext
      obtain ⟨hprogress, hgrow⟩ := hnext rfl
      have hle : e.totalLength.toNat ≤ contentLen env := hprogress.le
      have hgrow : d.totalLength.toNat < e.totalLength.toNat := hgrow
      split
      case isTrue hne =>
        have : e.totalLength.toNat ≠ contentLen env := fun heq => hne (UInt32.toNat_inj.mp heq)
        exact ih hprogress (by omega) (by omega)
      case isFalse heq =>
        exact ⟨_, rfl, htouched, fun _ => ⟨hprogress, by rw [Decidable.not_not.mp heq]; rfl⟩⟩

variable {part : FalPartition}

theorem downloadLoop_succ {fuel : Nat} {r : Download σ × Bool}
    (hr : downloadLoop env part fuel d = some r) : downloadLoop env part (fuel + 1) d = some r := by
  induction fuel generalizing d with
  | zero => cases hr
  | succ fuel ih =>
    rw [downloadLoop] at hr ⊢
    cases hround : downloadRound env part d with
    | mk e b =>
      rw [hround] at hr
      cases b with
      | false => exact hr
      | true =>
        dsimp only at hr ⊢
        split at hr
        case isTrue hne => exact (if_pos hne).trans (ih hr)
        case isFalse heq => exact (if_neg heq).trans hr

theorem downloadLoop_mono {fuel fuel' : Nat} (hle : fuel ≤ fuel') {r : Download σ × Bool}
    (hr : downloadLoop env part fuel d = some r) : downloadLoop env part fuel' d = some r := by
  induction hle with
  | refl => exact hr
  | step _ ih => exact downloadLoop_succ ih

/-- Two downloads that differ in their flash only. -/
structure Agree (d e : Download σ) : Prop where
  session : d.session = e.session
  totalLength : d.totalLength = e.totalLength
  received : d.received = e.received

/-- What a round that succeeds has read, whether it stored the page or left it out. -/
theorem downloadRound_true {e : Download σ} (hr : downloadRound env part d = (e, true)) :
    let nw := pageSize env d.totalLength
    let r := readPage env nw nw.toNat d.session []
    e.session = r.1 ∧ e.totalLength = d.totalLength + nw ∧ e.received = d.received ++ r.2 := by
  unfold downloadRound at hr
  dsimp only at hr ⊢
  split at hr
  · cases hr
  · split at hr
    · cases hr
    · split at hr
      · cases hr
        exact ⟨rfl, rfl, rfl⟩
      · cases hr

theorem downloadRound_agree {d' e e' : Download σ} (h : Agree d d')
    (hr : downloadRound env part d = (e, true)) (hr' : downloadRound env part d' = (e', true)) :
    Agree e e' := by
  obtain ⟨hs, ht, hb⟩ := downloadRound_true hr
  obtain ⟨hs', ht', hb'⟩ := downloadRound_true hr'
  rw [← h.session, ← h.totalLength] at hs' hb'
  rw [← h.totalLength] at ht'
  rw [← h.received] at hb'
  exact ⟨hs.trans hs'.symm, ht.trans ht'.symm, hb.trans hb'.symm⟩

theorem downloadLoop_agree {fuel : Nat} {d' e e' : Download σ} (h : Agree d d')
    (hr : downloadLoop env part fuel d = some (e, true))
    (hr' : downloadLoop env part fuel d' = some (e', true)) : Agree e e' := by
  induction fuel generalizing d d' with
  | zero => cases hr
  | succ fuel ih =>
    rw [downloadLoop] at hr hr'
    split at hr
    case h_1 => cases hr
    case h_2 c hc =>
      split at hr'
      case h_1 => cases hr'
      case h_2 c' hc' =>
        have hagree := downloadRound_agree h hc hc'
        rw [← hagree.totalLength] at hr'
        split at hr
        case isTrue hne =>
          rw [if_pos hne] at hr'
          exact ih hagree hr hr'
        case isFalse heq =>
          rw [if_neg heq] at hr'
          cases hr
          cases hr'
          exact hagree

end Loop

section Outcome

variable {σ : Type} {env : Env σ} {f : Flash}

/-- Either the function gives up before its loop, or the loop decides. -/
theorem httpOtaFwDownload_cases (env : Env σ) :
    (∀ fuel f, httpOtaFwDownload env fuel f = some ⟨false, f, []⟩) ∨
    ∃ s part, contentLen env + 4096 ≤ 2 ^ 32 ∧ 0 < contentLen env ∧ ∀ fuel f,
      httpOtaFwDownload env fuel f =
        (downloadLoop env part fuel ⟨s, f, 0, []⟩).map (finish env) := by
  unfold httpOtaFwDownload
  cases env.session with
  | none => exact .inl fun _ _ => rfl
  | some s =>
    by_cases hstatus : env.respStatus ≠ 200 ∨ env.contentLength = 0
    · exact .inl fun _ _ => if_pos hstatus
    · cases env.dlPart with
      | none => exact .inl fun _ _ => if_neg hstatus
      | some part =>
        by_cases hbig : env.contentLength.toUInt32 > part.len ∨ !env.bufferRead ∨ !env.bufferSwap
        · exact .inl fun _ _ => (if_neg hstatus).trans (if_pos hbig)
        · refine .inr ⟨s, part, ?_, ?_, fun _ _ => (if_neg hstatus).trans (if_neg hbig)⟩
          · have hle : contentLen env ≤ part.len.toNat :=
              UInt32.le_iff_toNat_le.mp (UInt32.not_lt.mp fun h => hbig (.inl h))
            have := part.len_le
            omega
          · refine toNat_pos fun h0 => hstatus (.inr ?_)
            rw [← Int32.toInt32_toUInt32 env.contentLength, h0]
            rfl

theorem progress_init {s : σ} (f : Flash) (hpos : 0 < contentLen env) :
    Progress env f ⟨s, f, 0, []⟩ where
  stored := rfl
  touched := .refl _ f
  le := Nat.le_of_lt hpos
  aligned _ := rfl

/-- The received bytes are the content, and lie where they belong. -/
def Outcome.Image (env : Env σ) (r : Outcome) : Prop :=
  r.received.length = contentLen env ∧ r.flash.cells.read 0 (contentLen env) = r.received

/-- The loop, once entered. -/
theorem loop_outcome (part : FalPartition) (s : σ) (hlen : contentLen env + 4096 ≤ 2 ^ 32)
    (hpos : 0 < contentLen env) (f : Flash) :
    ∃ r, downloadLoop env part (contentLen env) ⟨s, f, 0, []⟩ = some r ∧
      Touches (fun k => k < sectorEnd (contentLen env)) f r.1.flash ∧
      (r.2 = true → (finish env r).Image env) := by
  obtain ⟨r, hr, htouched, hdone⟩ := downloadLoop_spec part hlen (contentLen env)
    (progress_init (s := s) f hpos) hpos (Nat.sub_le _ _)
  refine ⟨r, hr, htouched, fun hend => ?_⟩
  obtain ⟨hprogress, htotal⟩ := hdone hend
  have hstored := hprogress.stored
  rw [htotal] at hstored
  exact ⟨by rw [finish, ← hstored, Mem.length_read], hstored⟩

/-- Two runs of the loop to its end leave the same image. -/
theorem loop_same {part : FalPartition} {s : σ} (hlen : contentLen env + 4096 ≤ 2 ^ 32)
    (hpos : 0 < contentLen env) {f g : Flash} {d e : Download σ} {m n : Nat}
    (hf : downloadLoop env part m ⟨s, f, 0, []⟩ = some (d, true))
    (hg : downloadLoop env part n ⟨s, g, 0, []⟩ = some (e, true)) :
    e.flash.cells.read 0 (contentLen env) = d.flash.cells.read 0 (contentLen env) := by
  have image {h : Flash} {c : Download σ} {k : Nat}
      (hc : downloadLoop env part k ⟨s, h, 0, []⟩ = some (c, true)) :
      c.flash.cells.read 0 (contentLen env) = c.received := by
    obtain ⟨r, hr, -, himage⟩ := loop_outcome part s hlen hpos h
    have hmax := downloadLoop_mono (Nat.le_max_left (contentLen env) k) hr
    rw [downloadLoop_mono (Nat.le_max_right (contentLen env) k) hc] at hmax
    cases hmax
    exact (himage rfl).2
  -- both runs are brought to the same fuel
  have hstart : Agree (σ := σ) ⟨s, f, 0, []⟩ ⟨s, g, 0, []⟩ := ⟨rfl, rfl, rfl⟩
  have hagree : Agree d e := downloadLoop_agree hstart
    (downloadLoop_mono (Nat.le_max_left m n) hf) (downloadLoop_mono (Nat.le_max_right m n) hg)
  rw [image hf, image hg, hagree.received]

/-- Everything that is to hold of the way the function ends. -/
structure DownloadLaw (env : Env σ) (f : Flash) (r : Outcome) : Prop where
  image : r.reset → r.Image env
  verified : r.reset → 0 ≤ env.rtOtaPartFwVerify r.flash
  touched : Touches (fun k => k < sectorEnd (contentLen env)) f r.flash
  /-- What the partition held before, and so which pages are left out, makes no difference. -/
  same : ∀ {g fuel r'}, httpOtaFwDownload env fuel g = some r' → r.reset → r'.reset →
    r'.flash.cells.read 0 (contentLen env) = r.flash.cells.read 0 (contentLen env)

/-- However the body is cut, whatever the partition held and wherever a read, an erase or a
write fails: the download ends, and resets the device only on the image it has received. -/
theorem download_integrity (env : Env σ) (f : Flash) :
    ∃ r, (∀ fuel, contentLen env ≤ fuel → httpOtaFwDownload env fuel f = some r) ∧
      DownloadLaw env f r := by
  rcases httpOtaFwDownload_cases env with hexit | ⟨s, part, hlen, hpos, hloop⟩
  · exact ⟨_, fun fuel _ => hexit fuel f, nofun, nofun, .refl _ f, nofun⟩
  · obtain ⟨⟨d, b⟩, hr, htouched, himage⟩ := loop_outcome part s hlen hpos f
    refine ⟨finish env (d, b), fun fuel hle => ?_, ?_, ?_, htouched, ?_⟩
    · rw [hloop, downloadLoop_mono hle hr]
      rfl
    · intro hreset
      exact himage (Bool.and_eq_true_iff.mp hreset).1
    · intro hreset
      exact of_decide_eq_true (Bool.and_eq_true_iff.mp hreset).2
    · intro g fuel r' hr' hreset hreset'
      rw [hloop] at hr'
      obtain ⟨⟨e, c⟩, he, rfl⟩ := Option.map_eq_some_iff.mp hr'
      obtain ⟨rfl, -⟩ := Bool.and_eq_true_iff.mp hreset
      obtain ⟨rfl, -⟩ := Bool.and_eq_true_iff.mp hreset'
      exact loop_same hlen hpos hr he

/-- A body that comes in single bytes, on a flash that serves every request. -/
example :
    let env : Env (List UInt8) :=
      { session := some [1, 2, 3]
        respStatus := 200
        contentLength := 3
        dlPart := some ⟨0xcc000, by decide⟩
        bufferRead := true
        bufferSwap := true
        webclientRead := fun s length => match s with
          | [] => ([], none)
          | c :: s => if h : 1 ≤ length.toNat then (s, some ⟨[c], by simp, h⟩) else (s, none)
        descPart := fun _ => none
        rtOtaPartFwVerify := fun _ => 0 }
    (httpOtaFwDownload env 3 ⟨fun _ => 7, [], fun _ => none⟩).map (fun r => (r.reset, r.received)) =
      some (true, [1, 2, 3]) := by
  decide

end Outcome

end BdkRtt.Ota.HttpClient
