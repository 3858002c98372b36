import BdkRtt.Saradc.Saradc
import Mathlib.Data.List.Basic

namespace BdkRtt.Saradc

open Lib

section Parties

variable {s : AdcState} {c d : AdcClient} {p q : Party}

@[simp] theorem party_setParty_same : (s.setParty c p).party c = p := if_pos rfl

theorem party_setParty_of_ne (h : d ≠ c) : (s.setParty c p).party d = s.party d := if_neg h

@[simp] theorem setParty_setParty : (s.setParty c p).setParty c q = s.setParty c q := by
  simp only [AdcState.setParty]
  congr 1
  funext d
  by_cases h : d = c <;> simp [h]

theorem setParty_self : s.setParty c (s.party c) = s := by
  have hparty : (fun d => if d = c then s.party c else s.party d) = s.party := by
    funext d
    by_cases h : d = c <;> simp [h]
  simp only [AdcState.setParty, hparty]

@[simp] theorem setParty_current : (s.setParty c p).current = s.current := rfl

@[simp] theorem setParty_hw : (s.setParty c p).hw = s.hw := rfl

end Parties

section Buffers

/-- The buffer has the size the descriptor says. -/
structure AdcDesc.Sized (d : AdcDesc) : Prop where
  size : d.dataBuffSize = adcTempBufferSize
  length : d.pData.length = adcTempBufferSize

/-- All samples so far are of one conversion. -/
def AdcDesc.Tagged (d : AdcDesc) (k : Conv) : Prop :=
  ∀ i < d.currentSampleDataCnt, (d.cell i).sources = [k]

/-- The value of a cell has been computed from one conversion, and from nothing else. -/
def Cell.Of (x : Cell) (k : Conv) : Prop := x.sources ≠ [] ∧ ∀ j ∈ x.sources, j = k

variable {d : AdcDesc} {k : Conv}

theorem cell_set_same {i : Nat} {x : Cell} (h : i < d.pData.length) :
    AdcDesc.cell { d with pData := d.pData.set i x } i = x := by
  simp [AdcDesc.cell, List.getD_eq_getElem?_getD, h]

theorem cell_set_of_ne {i j : Nat} {x : Cell} (h : i ≠ j) :
    AdcDesc.cell { d with pData := d.pData.set i x } j = d.cell j := by
  simp [AdcDesc.cell, List.getD_eq_getElem?_getD, h]

/-- The computation of a handler keeps to the conversion that has filled the buffer. -/
theorem computes_of (c : AdcClient) (accuracy : Nat) (hs : d.Sized) (ht : d.Tagged k)
    (hfull : d.currentSampleDataCnt = adcTempBufferSize) :
    (d.computes accuracy c).Sized ∧ ((d.computes accuracy c).cell 0).Of k ∧
      (d.computes accuracy c).channel = d.channel := by
  have hfrom : ∀ v is, is ≠ [] → (∀ i ∈ is, i < adcTempBufferSize) →
      (d.from v is).Sized ∧ ((d.from v is).cell 0).Of k ∧
        (d.from v is).channel = d.channel := by
    intro v is hne his
    have hcell : (d.from v is).cell 0 =
        ⟨UInt16.ofNat v, is.flatMap fun i => (d.cell i).sources⟩ :=
      cell_set_same (by rw [hs.length]; decide)
    have hsources : ∀ i ∈ is, (d.cell i).sources = [k] :=
      fun i hi => ht i (by rw [hfull]; exact his i hi)
    refine ⟨⟨hs.size, ?_⟩, ?_, rfl⟩
    · simp only [AdcDesc.from, List.length_set, hs.length]
    · rw [hcell]
      refine ⟨?_, fun j hj => ?_⟩
      · obtain ⟨i, hi⟩ := List.exists_mem_of_ne_nil is hne
        refine List.ne_nil_of_mem (a := k) (List.mem_flatMap.mpr ⟨i, hi, ?_⟩)
        rw [hsources i hi]
        exact List.mem_singleton_self k
      · obtain ⟨i, hi, hmem⟩ := List.mem_flatMap.mp hj
        rw [hsources i hi] at hmem
        exact List.mem_singleton.mp hmem
  cases c with
  | tadc => exact hfrom _ _ (List.cons_ne_nil _ _) (by decide)
  | detect => exact hfrom _ _ (List.cons_ne_nil _ _) (by decide)
  | single => exact hfrom _ _ (List.cons_ne_nil _ _) (by decide)

/-- A sample of the conversion goes into the next cell. -/
theorem AdcDesc.Sized.stores (hs : d.Sized) (ht : d.Tagged k)
    (hroom : d.currentSampleDataCnt < adcTempBufferSize) (v : UInt16) :
    (d.stores v (some k)).Sized ∧ (d.stores v (some k)).Tagged k := by
  refine ⟨⟨hs.size, ?_⟩, fun i hi => ?_⟩
  · simp only [AdcDesc.stores, List.length_set, hs.length]
  · rcases Nat.lt_succ_iff_lt_or_eq.mp hi with hlt | rfl
    · have hcell := cell_set_of_ne (d := d) (x := ⟨v, [k]⟩) (Nat.ne_of_gt hlt)
      exact (congrArg Cell.sources hcell).trans (ht i hlt)
    · have hcell := cell_set_same (d := d) (x := ⟨v, [k]⟩) (by rw [hs.length]; exact hroom)
      exact congrArg Cell.sources hcell

end Buffers

section Interrupt

variable {s : AdcState} {k : Conv}

/-- The loop of the interrupt only fills the buffer of the current descriptor, inside it, and
takes the conversion off the hardware when the buffer is full. -/
theorem isrLoop_spec (hw : s.hw = some k) (hs : (s.party s.current).desc.Sized)
    (ht : (s.party s.current).desc.Tagged k)
    (hroom : (s.party s.current).desc.currentSampleDataCnt < adcTempBufferSize)
    (values : List UInt16) :
    ∃ h d, (isrLoop s values).1 = ({ s with hw := h }.setParty s.current
        { s.party s.current with desc := d }) ∧
      d.channel = (s.party s.current).desc.channel ∧ d.Sized ∧ d.Tagged k ∧
      (d.currentSampleDataCnt < adcTempBufferSize ∧ h = some k ∨
        d.currentSampleDataCnt = adcTempBufferSize) ∧
      ∀ i ∈ (isrLoop s values).2, i < adcTempBufferSize := by
  induction values generalizing s with
  | nil =>
    refine ⟨some k, (s.party s.current).desc, ?_, rfl, hs, ht, .inl ⟨hroom, rfl⟩, nofun⟩
    rw [← hw]
    exact setParty_self.symm
  | cons v vs ih =>
    obtain ⟨hs', ht'⟩ := hs.stores ht hroom v
    have hlt : (s.party s.current).desc.currentSampleDataCnt <
        (s.party s.current).desc.dataBuffSize := by rw [hs.size]; exact hroom
    by_cases hfull : (s.party s.current).desc.currentSampleDataCnt + 1 =
        (s.party s.current).desc.dataBuffSize
    · refine ⟨none, (s.party s.current).desc.stores v (some k), ?_, rfl, hs', ht',
        .inr (hfull.trans hs.size), ?_⟩
      · simp only [isrLoop, if_pos hlt, if_pos hfull, hw]
        rfl
      · simp only [isrLoop, if_pos hlt, if_pos hfull, List.mem_singleton]
        rintro i rfl
        exact hroom
    · have hroom' : (s.party s.current).desc.currentSampleDataCnt + 1 < adcTempBufferSize := by
        rw [hs.size] at hfull
        exact Nat.lt_of_le_of_ne hroom hfull
      obtain ⟨h, d, hstate, hchannel, hsized, htagged, hcnt, hstored⟩ :=
        ih (s := s.setParty s.current
          { s.party s.current with desc := (s.party s.current).desc.stores v (some k) })
          hw (by simpa using hs') (by simpa using ht')
          (by simp only [setParty_current, party_setParty_same]; exact hroom')
      refine ⟨h, d, ?_, ?_, hsized, htagged, hcnt, ?_⟩
      · simp only [isrLoop, if_pos hlt, if_neg hfull, hw, hstate]
        simp only [setParty_current, party_setParty_same]
        exact setParty_setParty (s := { s with hw := h })
      · simp only [setParty_current, party_setParty_same] at hchannel
        exact hchannel
      · simp only [isrLoop, if_pos hlt, if_neg hfull, hw, List.mem_cons]
        rintro i (rfl | hi)
        · exact hroom
        · exact hstored i hi

end Interrupt

section Sharing

/-- Where a client stands while it owns the converter. -/
def AdcClient.home : AdcClient → AdcStage
  | .detect => .idle
  | _ => .waits

theorem home_ne_opens (c : AdcClient) : c.home ≠ .opens := by cases c <;> nofun

theorem home_of_ne {c : AdcClient} (hc : c ≠ .detect) : c.home = .waits := by
  cases c with
  | detect => exact absurd rfl hc
  | tadc => rfl
  | single => rfl

/-- What holds of a client, given whether it owns the converter. -/
structure Party.Ok (c : AdcClient) (p : Party) (own : Prop) : Prop where
  hdl : p.hdl = true ↔ own
  channel : c ≠ .tadc → p.desc.channel ≤ saradcAdcChnlMax
  sized : (c ≠ .detect ∧ (p.stage = .idle ∨ p.stage = .enables)) ∨ p.desc.Sized
  owner : own → p.stage = c.home ∧ p.signals = 0 ∧
    p.desc.currentSampleDataCnt < adcTempBufferSize ∧ p.desc.Tagged (p.conv c)
  signalled : p.signals ≠ 0 → p.signals = 1 ∧ (p.desc.cell 0).Of (p.conv c) ∧
    p.stage ≠ .opens ∧ (c ≠ .detect → p.stage = .waits)
  waits : c ≠ .detect → p.stage = .waits → own ∨ p.signals ≠ 0

/-- The driver, the hardware and the clients agree on the owner. -/
structure AdcInv (s : AdcState) (owner : Option AdcClient) : Prop where
  party : ∀ c, (s.party c).Ok c (owner = some c)
  free : owner = none → s.busy = false ∧ s.opened = false ∧ s.hw = none
  owned : ∀ c, owner = some c → s.busy = true ∧ s.opened = true ∧ s.useCnt = 1 ∧
    s.current = c ∧ s.hw = some ((s.party c).conv c)

variable {s t : AdcState} {o o' : Option AdcClient} {c : AdcClient} {p : Party} {own : Prop}

/-- A client with nothing signalled and without the converter. -/
theorem Party.Ok.quiet (hown : ¬ own) (hhdl : p.hdl = false) (hsignals : p.signals = 0)
    (hchannel : c ≠ .tadc → p.desc.channel ≤ saradcAdcChnlMax)
    (hsized : (c ≠ .detect ∧ (p.stage = .idle ∨ p.stage = .enables)) ∨ p.desc.Sized)
    (hstage : c ≠ .detect → p.stage ≠ .waits) : p.Ok c own where
  hdl := by simp [hhdl, hown]
  channel := hchannel
  sized := hsized
  owner h := absurd h hown
  signalled h := absurd hsignals h
  waits hc h := absurd h (hstage hc)

/-- Away from its wait, a client other than the detection has nothing and awaits nothing. -/
theorem Party.Ok.away (h : p.Ok c own) (hc : c ≠ .detect) (hstage : p.stage ≠ .waits) :
    ¬ own ∧ p.hdl = false ∧ p.signals = 0 := by
  have hown : ¬ own := fun ho => hstage ((h.owner ho).1.trans (home_of_ne hc))
  refine ⟨hown, ?_, ?_⟩
  · exact Bool.eq_false_iff.mpr fun ht => hown (h.hdl.mp ht)
  · by_contra hsig
    exact hstage ((h.signalled hsig).2.2.2 hc)

theorem Party.Ok.detect_away (h : p.Ok .detect own) (hstage : p.stage ≠ .idle) :
    ¬ own ∧ p.hdl = false := by
  have hown : ¬ own := fun ho => hstage (h.owner ho).1
  exact ⟨hown, Bool.eq_false_iff.mpr fun ht => hown (h.hdl.mp ht)⟩

/-- With a signal to take, the client no longer owns the converter. -/
theorem Party.Ok.done (h : p.Ok c own) (hsig : p.signals ≠ 0) : ¬ own ∧ p.hdl = false := by
  have hown : ¬ own := fun ho => hsig (h.owner ho).2.1
  exact ⟨hown, Bool.eq_false_iff.mpr fun ht => hown (h.hdl.mp ht)⟩

theorem Party.Ok.prepared (h : p.Ok c own)
    (hstage : p.stage ≠ .idle ∧ p.stage ≠ .enables) : p.desc.Sized := by
  rcases h.sized with ⟨-, hidle | henables⟩ | hsized
  · exact absurd hidle hstage.1
  · exact absurd henables hstage.2
  · exact hsized

theorem Party.Ok.owner_sized (h : p.Ok c own) (ho : own) : p.desc.Sized := by
  rcases h.sized with ⟨hc, hstage⟩ | hsized
  · rw [(h.owner ho).1, home_of_ne hc] at hstage
    rcases hstage with hstage | hstage <;> cases hstage
  · exact hsized

theorem prepared_sized (channel : UInt8) : (AdcDesc.prepared channel).Sized :=
  ⟨rfl, List.length_replicate⟩

/-- A step of one client leaves the others as they are. -/
theorem AdcInv.clients (h : AdcInv s o) (hothers : ∀ d ≠ c, t.party d = s.party d)
    (hsame : ∀ d ≠ c, (o = some d ↔ o' = some d)) (hp : (t.party c).Ok c (o' = some c)) (d) :
    (t.party d).Ok d (o' = some d) := by
  by_cases hd : d = c
  · subst hd
    exact hp
  · rw [hothers d hd, ← propext (hsame d hd)]
    exact h.party d

theorem AdcInv.busy_iff (h : AdcInv s o) : s.busy = true ↔ o ≠ none := by
  cases o with
  | none => simp [(h.free rfl).1]
  | some c => simp [(h.owned c rfl).1]

theorem AdcInv.hdl_iff (h : AdcInv s o) (c : AdcClient) :
    (s.party c).hdl = true ↔ o = some c := (h.party c).hdl

/-- The converter is free, and the open of a client with a descriptor of its own succeeds. -/
theorem open_free (h : AdcInv s none) (hsized : (s.party c).desc.Sized)
    (hchannel : (s.party c).desc.channel ≤ saradcAdcChnlMax) :
    ddevOpenSaradc s c = ({ s with
          busy := true, current := c, irq := true, hw := some ((s.party c).conv c),
          satCtrl := if (s.party c).desc.channel = 8 then 3 else 1,
          opened := true, useCnt := 0 + 1 }.setParty c
        { s.party c with desc := { (s.party c).desc with
            hasData := false, allDone := false, currentSampleDataCnt := 0 } }, true) := by
  obtain ⟨hbusy, hopened, -⟩ := h.free rfl
  have hsize : ¬ (s.party c).desc.dataBuffSize = 0 := by rw [hsized.size]; decide
  simp only [ddevOpenSaradc, hopened, saradcOpen, if_neg (UInt8.not_lt.mpr hchannel),
    if_neg hsize, hbusy]
  rfl

theorem AdcInv.opens (h : AdcInv s none) (hsized : (s.party c).desc.Sized)
    (hchannel : (s.party c).desc.channel ≤ saradcAdcChnlMax)
    (hsignals : (s.party c).signals = 0) :
    AdcInv ((ddevOpenSaradc s c).1.setParty c
      { (ddevOpenSaradc s c).1.party c with hdl := true, stage := c.home }) (some c) := by
  rw [open_free h hsized hchannel, party_setParty_same, setParty_setParty]
  refine ⟨h.clients (fun d hd => party_setParty_of_ne hd) ?_ ?_, nofun, ?_⟩
  · intro d hd
    simp [Ne.symm hd]
  · rw [party_setParty_same]
    exact
      { hdl := by simp
        channel := fun _ => hchannel
        sized := .inr ⟨hsized.size, hsized.length⟩
        owner := fun _ => ⟨rfl, hsignals, Nat.succ_pos _, nofun⟩
        signalled := fun hsig => absurd hsignals hsig
        waits := fun _ _ => .inl rfl }
  · rintro d hd
    obtain rfl := Option.some.inj hd
    rw [party_setParty_same]
    exact ⟨rfl, rfl, rfl, rfl, rfl⟩

/-- A full buffer of the owner: the converter is free again, and the value is of the conversion
the owner has started. -/
theorem AdcInv.completes (h : AdcInv s (some c))
    (hothers : ∀ d ≠ c, t.party d = s.party d) (huse : t.useCnt = 1) {d : AdcDesc}
    (hparty : t.party c = { s.party c with desc := d })
    (hchannel : d.channel = (s.party c).desc.channel)
    (hsized : d.Sized) (htagged : d.Tagged ((s.party c).conv c))
    (hfull : d.currentSampleDataCnt = adcTempBufferSize) (sent : Bool) :
    AdcInv (completes t c sent) none := by
  obtain ⟨hstage, hsignals, -⟩ := (h.party c).owner rfl
  have hhdl : (t.party c).hdl = true := by
    rw [hparty]
    exact (h.hdl_iff c).mpr rfl
  obtain ⟨hsized', hof, hchannel'⟩ := computes_of c t.satCtrl hsized htagged hfull
  have hconv : ((d.computes t.satCtrl c).cell 0).Of
      (Party.conv { s.party c with desc := d.computes t.satCtrl c } c) := by
    simpa only [Party.conv, hchannel', hchannel] using hof
  have hclose : saradcClose (ddevCloseSaradc t (t.party c).hdl) =
      { saradcClose t with useCnt := 0, opened := false } := by
    simp [hhdl, ddevCloseSaradc, saradcClose, huse]
  rw [Saradc.completes, hclose]
  refine ⟨h.clients (fun d hd => (party_setParty_of_ne hd).trans (hothers d hd)) ?_ ?_,
    fun _ => ⟨rfl, rfl, rfl⟩, nofun⟩
  · intro d hd
    simp [Ne.symm hd]
  · rw [party_setParty_same]
    simp only [saradcClose, hparty, hsignals]
    exact
      { hdl := by simp
        channel := fun hc => by rw [hchannel', hchannel]; exact (h.party c).channel hc
        sized := .inr hsized'
        owner := nofun
        signalled := fun hsig => by
          refine ⟨?_, hconv, ?_, fun hc => hstage.trans (home_of_ne hc)⟩
          · exact if_pos (by_contra fun hn => hsig (if_neg hn))
          · rw [hstage]
            exact home_ne_opens c
        waits := fun hc _ => .inr (by simp [hc]) }

theorem adcHandler_full {sent : Bool} (hhdl : (s.party c).hdl = true)
    (hfull : (s.party c).desc.dataBuffSize ≤ (s.party c).desc.currentSampleDataCnt) :
    adcHandler s c sent = Saradc.completes s c sent := by
  rw [adcHandler, if_neg, if_pos hfull]
  simp [hhdl]

/-- The interrupt fills the buffer of the owner, and completes it when it is full. -/
theorem AdcInv.isr (h : AdcInv s (some c)) (values : List UInt16) (sent : Bool) :
    (∃ o, AdcInv (saradcIsr s values sent).1 o) ∧
      ∀ i ∈ (saradcIsr s values sent).2, i < adcTempBufferSize := by
  obtain ⟨hbusy, hopened, huse, rfl, hw⟩ := h.owned c rfl
  obtain ⟨hstage, hsignals, hroom, htagged⟩ := (h.party s.current).owner rfl
  have hsized := (h.party s.current).owner_sized rfl
  obtain ⟨hw', d, hloop, hchannel, hsized', htagged', hcnt, hstored⟩ :=
    isrLoop_spec hw hsized htagged hroom values
  simp only [saradcIsr, hloop, setParty_current, party_setParty_same]
  rcases hcnt with ⟨hlt, rfl⟩ | hfull
  · rw [if_neg (by rw [hsized'.size]; exact Nat.not_le_of_lt hlt)]
    refine ⟨⟨some s.current, h.clients (fun d hd => party_setParty_of_ne hd) ?_ ?_, nofun, ?_⟩,
      hstored⟩
    · exact fun d _ => Iff.rfl
    · have hp := h.party s.current
      have hconv : Party.conv { s.party s.current with desc := d } s.current =
          (s.party s.current).conv s.current := by
        simp only [Party.conv, hchannel]
      rw [party_setParty_same]
      exact
        { hdl := hp.hdl
          channel := fun hc => by rw [hchannel]; exact hp.channel hc
          sized := .inr hsized'
          owner := fun _ => ⟨hstage, hsignals, hlt, by rw [hconv]; exact htagged'⟩
          signalled := fun hsig => absurd hsignals hsig
          waits := fun _ _ => .inl rfl }
    · intro c hc
      obtain rfl := Option.some.inj hc
      refine ⟨hbusy, hopened, huse, rfl, ?_⟩
      rw [party_setParty_same]
      simp only [setParty_hw, Party.conv, hchannel]
  · have hfull' : d.dataBuffSize ≤ d.currentSampleDataCnt :=
      Nat.le_of_eq (hsized'.size.trans hfull.symm)
    rw [if_pos hfull', setParty_setParty, adcHandler_full
      (by rw [party_setParty_same]; exact (h.hdl_iff s.current).mpr rfl)
      (by rw [party_setParty_same]; exact hfull')]
    refine ⟨⟨none, ?_⟩, hstored⟩
    refine h.completes (d := { d with allDone := true }) ?_ ?_ ?_ hchannel
      ⟨hsized'.size, hsized'.length⟩ htagged' hfull sent
    · exact fun d hd => party_setParty_of_ne hd
    · exact huse
    · exact party_setParty_same

end Sharing

section Steps

/-- The steps that leave the converter to its owner until the interrupt is done with it, and do
not ask it for a channel it does not have: no wait times out, an open of the single measurement
does not meet a busy converter, and the detection takes a result before it starts again. -/
def Undisturbed (s : AdcState) : AdcEvent → Prop
  | .tadcTries => s.busy = false → (s.party .tadc).desc.channel ≤ saradcAdcChnlMax
  | .tadcTimesOut => False
  | .detectInits => (s.party .detect).signals = 0
  | .singleOpens => s.busy = false
  | .singleTimesOut => False
  | _ => True

instance (s : AdcState) (e : AdcEvent) : Decidable (Undisturbed s e) := by
  cases e <;> unfold Undisturbed <;> infer_instance

def AdcEvent.byClient : AdcEvent → Bool
  | .isr _ _ => false
  | _ => true

/-- The driver and the hardware are as they were. -/
structure AdcState.Same (t s : AdcState) : Prop where
  busy : t.busy = s.busy
  current : t.current = s.current
  irq : t.irq = s.irq
  hw : t.hw = s.hw
  opened : t.opened = s.opened
  useCnt : t.useCnt = s.useCnt

/-- A step of a client leaves the owner and its conversion alone; a reported value has been
computed from a conversion of the client's present attempt, on its channel; and samples go
inside the buffer of the owner. -/
structure AdcKeeps (s : AdcState) (e : AdcEvent) (t : AdcState) (a : AdcAnswer) : Prop where
  untouched : e.byClient = true → ∀ c, (s.party c).hdl = true →
    t.party c = s.party c ∧ t.Same s
  report : ∀ c x, a.report = some (c, x) → x.Of ((s.party c).conv c)
  stored : ∀ i ∈ a.stored, (s.party s.current).hdl = true ∧
    i < (s.party s.current).desc.dataBuffSize ∧
    (s.party s.current).desc.dataBuffSize = (s.party s.current).desc.pData.length

variable {s t : AdcState} {o : Option AdcClient} {c : AdcClient} {e : AdcEvent}
  {a : AdcAnswer} {r : Option (AdcClient × Cell)}

/-- A client that does not own the converter changes what is its own. -/
theorem AdcInv.moves (h : AdcInv s o) (ho : o ≠ some c) (hsame : t.Same s)
    (hothers : ∀ d ≠ c, t.party d = s.party d) (hp : (t.party c).Ok c (o = some c))
    (hr : ∀ d x, r = some (d, x) → x.Of ((s.party d).conv d)) :
    ∃ o', AdcInv t o' ∧ AdcKeeps s e t ⟨[], r⟩ := by
  have hne : ∀ d, o = some d → d ≠ c := by
    rintro d hd rfl
    exact ho hd
  refine ⟨o, ⟨h.clients hothers (fun d _ => Iff.rfl) hp, ?_, ?_⟩, ?_, hr, nofun⟩
  · rw [hsame.busy, hsame.opened, hsame.hw]
    exact h.free
  · intro d hd
    rw [hsame.busy, hsame.opened, hsame.useCnt, hsame.current, hsame.hw, hothers d (hne d hd)]
    exact h.owned d hd
  · exact fun _ d hd => ⟨hothers d (hne d ((h.hdl_iff d).mp hd)), hsame⟩

/-- The same where the step only changes the client. -/
theorem AdcInv.movesParty (h : AdcInv s o) (ho : o ≠ some c) {p : Party}
    (hp : p.Ok c (o = some c)) (hr : ∀ d x, r = some (d, x) → x.Of ((s.party d).conv d)) :
    ∃ o', AdcInv (s.setParty c p) o' ∧ AdcKeeps s e (s.setParty c p) ⟨[], r⟩ := by
  refine h.moves ho ⟨rfl, rfl, rfl, rfl, rfl, rfl⟩ (fun d hd => party_setParty_of_ne hd) ?_ hr
  rw [party_setParty_same]
  exact hp

/-- Where nobody owns the converter, a step that says nothing only has to find an owner. -/
theorem AdcInv.keeps (h : AdcInv s none) : AdcKeeps s e t ⟨[], none⟩ where
  untouched _ c hc := nomatch (h.hdl_iff c).mp hc
  report _ _ hx := nomatch hx
  stored _ hi := nomatch hi

theorem AdcInv.eq_none (h : AdcInv s o) (hbusy : s.busy = false) : o = none := by
  by_contra hne
  rw [h.busy_iff.mpr hne] at hbusy
  cases hbusy

theorem AdcInv.step_tadc_starts {channel : UInt8} (h : AdcInv s o)
    (hx : saradc.step s (.tadcStarts channel) = some (t, a)) :
    ∃ o', AdcInv t o' ∧ AdcKeeps s (.tadcStarts channel) t a := by
  simp only [saradc, Option.ite_none_right_eq_some, AdcState.quietly, Option.some.injEq,
    Prod.mk.injEq] at hx
  obtain ⟨hstage, rfl, rfl⟩ := hx
  obtain ⟨hown, hhdl, hsignals⟩ := (h.party .tadc).away nofun (by rw [hstage]; nofun)
  refine h.movesParty hown ?_ nofun
  exact .quiet hown hhdl hsignals (fun hc => absurd rfl hc) (.inr (prepared_sized channel)) nofun

theorem AdcInv.step_tadc_tries (h : AdcInv s o) (hc : Undisturbed s .tadcTries)
    (hx : saradc.step s .tadcTries = some (t, a)) :
    ∃ o', AdcInv t o' ∧ AdcKeeps s .tadcTries t a := by
  simp only [saradc] at hx
  split at hx
  next n hstage =>
    have hp := h.party .tadc
    obtain ⟨hown, hhdl, hsignals⟩ := hp.away nofun (by rw [hstage]; nofun)
    have hsized := hp.prepared ⟨by rw [hstage]; nofun, by rw [hstage]; nofun⟩
    simp only [AdcState.quietly, tadcTries, Option.some.injEq, Prod.mk.injEq] at hx
    obtain ⟨rfl, rfl⟩ := hx
    by_cases hbusy : s.busy = false
    · obtain rfl := h.eq_none hbusy
      rw [if_pos hbusy]
      exact ⟨_, h.opens hsized (hc hbusy) hsignals, h.keeps⟩
    · rw [if_neg hbusy]
      refine h.movesParty hown ?_ nofun
      refine .quiet hown hhdl hsignals (fun hc => absurd rfl hc) (.inr hsized) fun _ => ?_
      dsimp only
      split <;> nofun
  next => cases hx

theorem AdcInv.step_tadc_wakes (h : AdcInv s o)
    (hx : saradc.step s .tadcWakes = some (t, a)) :
    ∃ o', AdcInv t o' ∧ AdcKeeps s .tadcWakes t a := by
  simp only [saradc, Option.ite_none_right_eq_some, Option.some.injEq, Prod.mk.injEq] at hx
  obtain ⟨⟨hstage, hsig⟩, rfl, rfl⟩ := hx
  have hp := h.party .tadc
  obtain ⟨hown, hhdl⟩ := hp.done hsig
  obtain ⟨hone, hof, -⟩ := hp.signalled hsig
  rw [AdcState.setStage, AdcState.takes, party_setParty_same, setParty_setParty]
  refine h.movesParty hown ?_ ?_
  · exact .quiet hown hhdl (by rw [hone]) (fun hc => absurd rfl hc) (.inl ⟨nofun, .inl rfl⟩) nofun
  · rintro d x hd
    obtain ⟨rfl, rfl⟩ := Prod.mk.inj (Option.some.inj hd)
    exact hof

theorem AdcInv.step_detect_enables (h : AdcInv s o)
    (hx : saradc.step s .detectEnables = some (t, a)) :
    ∃ o', AdcInv t o' ∧ AdcKeeps s .detectEnables t a := by
  simp only [saradc, Option.ite_none_right_eq_some, AdcState.quietly, Option.some.injEq,
    Prod.mk.injEq] at hx
  obtain ⟨hstage, rfl, rfl⟩ := hx
  have hp := h.party .detect
  split
  next => exact ⟨o, h, fun _ c _ => ⟨rfl, rfl, rfl, rfl, rfl, rfl, rfl⟩, nofun, nofun⟩
  next hhdl =>
    have hown : o ≠ some .detect := fun ho => hhdl (hp.hdl.mpr ho)
    refine h.movesParty hown ?_ nofun
    exact
      { hdl := hp.hdl
        channel := hp.channel
        sized := .inr (hp.sized.resolve_left fun hs => hs.1 rfl)
        owner := fun ho => absurd ho hown
        signalled := fun hsig =>
          ⟨(hp.signalled hsig).1, (hp.signalled hsig).2.1, nofun, fun hc => absurd rfl hc⟩
        waits := fun hc => absurd rfl hc }

theorem AdcInv.step_detect_inits (h : AdcInv s o) (hc : Undisturbed s .detectInits)
    (hx : saradc.step s .detectInits = some (t, a)) :
    ∃ o', AdcInv t o' ∧ AdcKeeps s .detectInits t a := by
  simp only [saradc, Option.ite_none_right_eq_some, AdcState.quietly, Option.some.injEq,
    Prod.mk.injEq] at hx
  obtain ⟨⟨hstage, -⟩, rfl, rfl⟩ := hx
  have hp := h.party .detect
  obtain ⟨hown, hhdl⟩ := hp.detect_away (by rw [hstage]; nofun)
  have hsized := hp.sized.resolve_left fun hs => hs.1 rfl
  refine h.movesParty hown ?_ nofun
  exact .quiet hown hhdl hc hp.channel (.inr ⟨hsized.size, hsized.length⟩) nofun

theorem AdcInv.step_detect_opens (h : AdcInv s o)
    (hx : saradc.step s .detectOpens = some (t, a)) :
    ∃ o', AdcInv t o' ∧ AdcKeeps s .detectOpens t a := by
  simp only [saradc, Option.ite_none_right_eq_some, AdcState.quietly, Option.some.injEq,
    Prod.mk.injEq] at hx
  obtain ⟨hstage, rfl, rfl⟩ := hx
  have hp := h.party .detect
  obtain ⟨hown, hhdl⟩ := hp.detect_away (by rw [hstage]; nofun)
  have hsized := hp.sized.resolve_left fun hs => hs.1 rfl
  have hsignals : (s.party .detect).signals = 0 := by
    by_contra hsig
    exact (hp.signalled hsig).2.2.1 hstage
  rw [tempDetectOpen]
  split
  next =>
    refine h.movesParty hown ?_ nofun
    exact .quiet hown rfl hsignals hp.channel (.inr hsized) nofun
  next hbusy =>
    obtain rfl := h.eq_none (Bool.not_eq_true _ ▸ hbusy)
    have hopen : (ddevOpenSaradc s .detect).2 = true := by
      rw [open_free h hsized (hp.channel nofun)]
    simp only [hopen, if_true]
    exact ⟨_, h.opens hsized (hp.channel nofun) hsignals, h.keeps⟩

theorem AdcInv.step_detect_polls (h : AdcInv s o)
    (hx : saradc.step s .detectPolls = some (t, a)) :
    ∃ o', AdcInv t o' ∧ AdcKeeps s .detectPolls t a := by
  simp only [saradc, Option.ite_none_right_eq_some, Option.some.injEq, Prod.mk.injEq] at hx
  obtain ⟨⟨hstage, hsig⟩, rfl, rfl⟩ := hx
  have hp := h.party .detect
  obtain ⟨hown, hhdl⟩ := hp.done hsig
  obtain ⟨hone, hof, -⟩ := hp.signalled hsig
  refine h.movesParty hown ?_ ?_
  · exact .quiet hown hhdl (by rw [hone]) hp.channel
      (.inr (hp.sized.resolve_left fun hs => hs.1 rfl)) fun hc => absurd rfl hc
  · rintro d x hd
    obtain ⟨rfl, rfl⟩ := Prod.mk.inj (Option.some.inj hd)
    exact hof

theorem AdcInv.step_single_starts (h : AdcInv s o)
    (hx : saradc.step s .singleStarts = some (t, a)) :
    ∃ o', AdcInv t o' ∧ AdcKeeps s .singleStarts t a := by
  simp only [saradc, Option.ite_none_right_eq_some, AdcState.quietly, Option.some.injEq,
    Prod.mk.injEq] at hx
  obtain ⟨hstage, rfl, rfl⟩ := hx
  have hp := h.party .single
  obtain ⟨hown, hhdl, hsignals⟩ := hp.away nofun (by rw [hstage]; nofun)
  refine h.moves hown ⟨rfl, rfl, rfl, rfl, rfl, rfl⟩ (fun d hd => party_setParty_of_ne hd) ?_
    nofun
  rw [AdcState.setStage, party_setParty_same]
  exact .quiet hown hhdl hsignals hp.channel (.inl ⟨nofun, .inr rfl⟩) nofun

theorem AdcInv.step_single_inits (h : AdcInv s o)
    (hx : saradc.step s .singleInits = some (t, a)) :
    ∃ o', AdcInv t o' ∧ AdcKeeps s .singleInits t a := by
  simp only [saradc, Option.ite_none_right_eq_some, AdcState.quietly, Option.some.injEq,
    Prod.mk.injEq] at hx
  obtain ⟨⟨hstage, -⟩, rfl, rfl⟩ := hx
  obtain ⟨hown, hhdl, hsignals⟩ := (h.party .single).away nofun (by rw [hstage]; nofun)
  refine h.movesParty hown ?_ nofun
  exact .quiet hown hhdl hsignals (fun _ => by show (7 : UInt8) ≤ 12; decide)
    (.inr (prepared_sized _)) nofun

theorem AdcInv.step_single_opens (h : AdcInv s o) (hc : Undisturbed s .singleOpens)
    (hx : saradc.step s .singleOpens = some (t, a)) :
    ∃ o', AdcInv t o' ∧ AdcKeeps s .singleOpens t a := by
  simp only [saradc, Option.ite_none_right_eq_some, AdcState.quietly, Option.some.injEq,
    Prod.mk.injEq] at hx
  obtain ⟨hstage, rfl, rfl⟩ := hx
  have hp := h.party .single
  obtain ⟨-, -, hsignals⟩ := hp.away nofun (by rw [hstage]; nofun)
  have hsized := hp.prepared ⟨by rw [hstage]; nofun, by rw [hstage]; nofun⟩
  obtain rfl := h.eq_none hc
  exact ⟨_, h.opens hsized (hp.channel nofun) hsignals, h.keeps⟩

/-- A turn of the single measurement ends it, or leads to the next one. -/
theorem turned (s : AdcState) (value : UInt16) :
    ((tempSingleTurns s value).party .single).stage = .idle ∨
    ((tempSingleTurns s value).party .single).stage = .enables := by
  rw [tempSingleTurns, AdcState.setStage, party_setParty_same]
  split
  next => exact .inl rfl
  next => exact .inr rfl

theorem turned_ne_waits {value : UInt16} :
    ((tempSingleTurns s value).party .single).stage ≠ .waits := by
  rcases turned s value with hstage | hstage <;> rw [hstage] <;> nofun

theorem AdcInv.step_single_wakes (h : AdcInv s o)
    (hx : saradc.step s .singleWakes = some (t, a)) :
    ∃ o', AdcInv t o' ∧ AdcKeeps s .singleWakes t a := by
  simp only [saradc, Option.ite_none_right_eq_some, Option.some.injEq, Prod.mk.injEq] at hx
  obtain ⟨⟨hstage, hsig⟩, rfl, rfl⟩ := hx
  have hp := h.party .single
  obtain ⟨hown, hhdl⟩ := hp.done hsig
  obtain ⟨hone, hof, -⟩ := hp.signalled hsig
  refine h.moves hown ⟨rfl, rfl, rfl, rfl, rfl, rfl⟩ (fun d hd => ?_) ?_ ?_
  · exact (party_setParty_of_ne hd).trans (party_setParty_of_ne hd)
  · refine .quiet hown hhdl ?_ hp.channel (.inl ⟨nofun, turned _ _⟩) fun _ => turned_ne_waits
    show (s.party .single).signals - 1 = 0
    rw [hone]
  · rintro d x hd
    obtain ⟨rfl, rfl⟩ := Prod.mk.inj (Option.some.inj hd)
    exact hof

theorem AdcInv.step_isr {values : List UInt16} {sent : Bool} (h : AdcInv s o)
    (hx : saradc.step s (.isr values sent) = some (t, a)) :
    ∃ o', AdcInv t o' ∧ AdcKeeps s (.isr values sent) t a := by
  simp only [saradc, Option.ite_none_right_eq_some, Option.some.injEq, Prod.mk.injEq] at hx
  obtain ⟨⟨-, hhw⟩, rfl, rfl⟩ := hx
  cases o with
  | none => exact absurd (h.free rfl).2.2 hhw
  | some c =>
    obtain ⟨⟨o', hinv⟩, hstored⟩ := h.isr values sent
    obtain ⟨-, -, -, rfl, -⟩ := h.owned c rfl
    have hsized := (h.party s.current).owner_sized rfl
    refine ⟨o', hinv, nofun, nofun, fun i hi => ⟨(h.hdl_iff _).mpr rfl, ?_, ?_⟩⟩
    · rw [hsized.size]
      exact hstored i hi
    · rw [hsized.size, hsized.length]

/-- What a permitted step does, and that it leaves an owner the parties agree on. -/
theorem AdcInv.step (h : AdcInv s o) (hc : Undisturbed s e) (hx : saradc.step s e = some (t, a)) :
    ∃ o', AdcInv t o' ∧ AdcKeeps s e t a := by
  cases e with
  | tadcStarts channel => exact h.step_tadc_starts hx
  | tadcTries => exact h.step_tadc_tries hc hx
  | tadcWakes => exact h.step_tadc_wakes hx
  | tadcTimesOut => exact hc.elim
  | detectEnables => exact h.step_detect_enables hx
  | detectInits => exact h.step_detect_inits hc hx
  | detectOpens => exact h.step_detect_opens hx
  | detectPolls => exact h.step_detect_polls hx
  | singleStarts => exact h.step_single_starts hx
  | singleInits => exact h.step_single_inits hx
  | singleOpens => exact h.step_single_opens hc hx
  | singleWakes => exact h.step_single_wakes hx
  | singleTimesOut => exact hc.elim
  | isr values sent => exact h.step_isr hx

end Steps

section Runs

/-- The clients share the converter: one owns it at most, and the driver is busy exactly then;
it works for the owner; a client that has given up has no handle; and the value a client is
signalled has been computed from a conversion of its present attempt. -/
structure AdcShared (s : AdcState) : Prop where
  one : ∀ c d, (s.party c).hdl = true → (s.party d).hdl = true → c = d
  busy : s.busy = true ↔ ∃ c, (s.party c).hdl = true
  works : ∀ c, (s.party c).hdl = true → s.current = c ∧ s.hw = some ((s.party c).conv c)
  gaveUp : ∀ c ≠ .detect, (s.party c).stage ≠ .waits → (s.party c).hdl = false
  result : ∀ c, (s.party c).signals ≠ 0 → ((s.party c).desc.cell 0).Of ((s.party c).conv c)

variable {s t : AdcState} {o : Option AdcClient} {h : Machine.History AdcEvent AdcAnswer}

theorem AdcInv.shared (h : AdcInv s o) : AdcShared s where
  one c d hc hd := by
    have heq := ((h.hdl_iff c).mp hc).symm.trans ((h.hdl_iff d).mp hd)
    exact Option.some.inj heq
  busy := by
    rw [h.busy_iff, Option.ne_none_iff_exists']
    exact exists_congr fun c => (h.hdl_iff c).symm
  works c hc := by
    obtain ⟨-, -, -, hcurrent, hw⟩ := h.owned c ((h.hdl_iff c).mp hc)
    exact ⟨hcurrent, hw⟩
  gaveUp c hc hstage := ((h.party c).away hc hstage).2.1
  result c hsig := ((h.party c).signalled hsig).2.1

theorem adc_inv (hr : saradc.ReachesUnder Undisturbed h s) : ∃ o, AdcInv s o := by
  refine hr.stateInvariant (fun s => ∃ o, AdcInv s o) ⟨none, ?_, ?_, nofun⟩ ?_
  · intro c
    cases c with
    | tadc => exact .quiet nofun rfl rfl (fun hc => absurd rfl hc) (.inl ⟨nofun, .inl rfl⟩) nofun
    | detect => exact .quiet nofun rfl rfl (fun _ => by decide) (.inr (prepared_sized _)) nofun
    | single => exact .quiet nofun rfl rfl (fun _ => by decide) (.inl ⟨nofun, .inl rfl⟩) nofun
  · exact fun _ => ⟨rfl, rfl, rfl⟩
  · rintro s e t a ⟨o, hinv⟩ hc hx
    obtain ⟨o', hinv', -⟩ := hinv.step hc hx
    exact ⟨o', hinv'⟩

theorem Cell.Of.eq {x : Cell} {j k : Conv} (hj : x.Of j) (hk : x.Of k) : j = k := by
  obtain ⟨i, hi⟩ := List.exists_mem_of_ne_nil _ hj.1
  exact (hj.2 i hi).symm.trans (hk.2 i hi)

/-- A wait that times out does so with the converter. -/
theorem AdcInv.timed_out (h : AdcInv s o) (c : AdcClient) (hc : c ≠ .detect)
    (hstage : (s.party c).stage = .waits) (hsig : (s.party c).signals = 0) :
    (s.party c).hdl = true :=
  (h.party c).hdl.mpr (((h.party c).waits hc hstage).resolve_right fun hn => hn hsig)

/-- Each step that is not permitted ends the sharing. -/
theorem AdcInv.undisturbed (h : AdcInv s o) {e : AdcEvent} {a : AdcAnswer}
    (hx : saradc.step s e = some (t, a)) (ht : AdcShared t) : Undisturbed s e := by
  cases e with
  | tadcTries =>
    intro hbusy
    obtain rfl := h.eq_none hbusy
    by_contra hchannel
    simp only [saradc] at hx
    split at hx
    next n hstage =>
      have hopen : saradcOpen s .tadc = (s, false) := if_pos (UInt8.not_le.mp hchannel)
      simp only [AdcState.quietly, tadcTries, if_pos hbusy, ddevOpenSaradc, (h.free rfl).2.1,
        hopen, Option.some.injEq, Prod.mk.injEq] at hx
      obtain ⟨rfl, -⟩ := hx
      have hbusy' := ht.busy.mpr ⟨.tadc, rfl⟩
      exact Bool.false_ne_true (hbusy.symm.trans hbusy')
    next => cases hx
  | tadcTimesOut =>
    simp only [saradc, Option.ite_none_right_eq_some, AdcState.quietly, Option.some.injEq,
      Prod.mk.injEq] at hx
    obtain ⟨⟨hstage, hsig⟩, rfl, -⟩ := hx
    have hhdl := h.timed_out .tadc nofun hstage hsig
    exact Bool.false_ne_true ((ht.gaveUp .tadc nofun nofun).symm.trans hhdl)
  | detectInits =>
    simp only [saradc, Option.ite_none_right_eq_some, AdcState.quietly, Option.some.injEq,
      Prod.mk.injEq] at hx
    obtain ⟨-, rfl, -⟩ := hx
    by_contra hsig
    have hold := ((h.party .detect).signalled hsig).2.1
    have hconv := congrArg Conv.attempt (hold.eq (ht.result .detect hsig))
    exact absurd hconv (Nat.ne_of_lt (Nat.lt_succ_self _))
  | singleOpens =>
    simp only [saradc, Option.ite_none_right_eq_some, AdcState.quietly, Option.some.injEq,
      Prod.mk.injEq] at hx
    obtain ⟨hstage, rfl, -⟩ := hx
    by_contra hbusy
    obtain ⟨c, rfl⟩ := Option.ne_none_iff_exists'.mp
      (h.busy_iff.mp (Bool.not_eq_false _ ▸ hbusy))
    obtain ⟨hown, -⟩ := (h.party .single).away nofun (by rw [hstage]; nofun)
    have hne : c ≠ .single := fun hc => hown (congrArg some hc)
    have hparty : (tempSingleOpen s).party c = s.party c := by
      simp only [tempSingleOpen, ddevOpenSaradc, (h.owned c rfl).2.1, if_true]
      exact party_setParty_of_ne hne
    have hhdl := (h.hdl_iff c).mpr rfl
    exact hne (ht.one c .single (by rw [hparty]; exact hhdl) rfl)
  | singleTimesOut =>
    simp only [saradc, Option.ite_none_right_eq_some, AdcState.quietly, Option.some.injEq,
      Prod.mk.injEq] at hx
    obtain ⟨⟨hstage, hsig⟩, rfl, -⟩ := hx
    have hhdl := h.timed_out .single nofun hstage hsig
    exact Bool.false_ne_true ((ht.gaveUp .single nofun turned_ne_waits).symm.trans hhdl)
  | _ => trivial

/-- The clients share the converter in exactly those runs in which no step disturbs it; and in
these no step of a client touches the owner, every reported value is of the attempt it is
reported for, and every sample goes inside the owner's buffer. -/
theorem adc_shared (h : Machine.History AdcEvent AdcAnswer) (s : AdcState) :
    (saradc.ReachesUnder Undisturbed h s ↔ saradc.ReachesWithin (fun _ s => AdcShared s) h s) ∧
    (saradc.ReachesUnder Undisturbed h s → ∀ e t a, Undisturbed s e →
      saradc.step s e = some (t, a) → AdcKeeps s e t a) := by
  refine ⟨Machine.reachesUnder_iff_within ?_ ?_, ?_⟩
  · intro h s hr
    obtain ⟨o, hinv⟩ := adc_inv hr
    exact hinv.shared
  · intro h s e t a hr hx ht
    obtain ⟨o, hinv⟩ := adc_inv hr
    exact hinv.undisturbed hx ht
  · intro hr e t a hc hx
    obtain ⟨o, hinv⟩ := adc_inv hr
    obtain ⟨-, -, hkeeps⟩ := hinv.step hc hx
    exact hkeeps

/-- A conversion of the third channel, up to the signal. -/
def measured : List AdcEvent :=
  [.tadcStarts 3, .tadcTries, .isr [510, 512, 514] true,
    .isr [516, 518, 520, 522, 524, 526, 528] true]

theorem adc_shared_measured : ∃ h s, saradc.ReachesWithin (fun _ s => AdcShared s) h s ∧
    ∃ t x, saradc.step s .tadcWakes = some (t, ⟨[], some (.tadc, x)⟩) ∧ x.value = 515 ∧
      x.Of ⟨.tadc, 1, 3⟩ := by
  have hrun : ∃ h s, saradc.exec measured = some (h, s) ∧
      (s.party .tadc).conv .tadc = ⟨.tadc, 1, 3⟩ ∧
      ∃ t x, saradc.step s .tadcWakes = some (t, ⟨[], some (.tadc, x)⟩) ∧ x.value = 515 :=
    ⟨_, _, rfl, rfl, _, _, rfl, rfl⟩
  obtain ⟨h, s, hx, hconv, t, x, hwakes, hvalue⟩ := hrun
  have hr := Machine.reachesUnder_of_exec (C := Undisturbed) (by decide) hx
  obtain ⟨hwithin, hkeeps⟩ := adc_shared h s
  have hof := (hkeeps hr .tadcWakes _ _ trivial hwakes).report _ _ rfl
  rw [hconv] at hof
  exact ⟨h, s, hwithin.mp hr, t, x, hwakes, hvalue, hof⟩

/-- A client whose wait has timed out goes on to own the converter. -/
theorem timed_out_keeps_handle : ¬ ∀ (h : Machine.History AdcEvent AdcAnswer) (s : AdcState),
    saradc.Reaches h s → AdcShared s ∧
      ∀ e t a, saradc.step s e = some (t, a) → AdcKeeps s e t a := by
  intro hall
  have hrun : ∃ h s, saradc.exec [.tadcStarts 3, .tadcTries, .tadcTimesOut] = some (h, s) ∧
      (s.party .tadc).stage = .idle ∧ (s.party .tadc).hdl = true := ⟨_, _, rfl, rfl, rfl⟩
  obtain ⟨h, s, hx, hstage, hhdl⟩ := hrun
  have hgone := (hall h s (Machine.reaches_of_exec hx)).1.gaveUp .tadc nofun
    (by rw [hstage]; nofun)
  exact Bool.false_ne_true (hgone.symm.trans hhdl)

end Runs

end BdkRtt.Saradc
