import BdkRtt.Driver.Devices

namespace BdkRtt.Driver

open Lib

section Entries

variable {n : Nat} {α : Type} {tbl : Fin n → α}

@[simp] theorem entryAt_val (i : Fin n) : entryAt tbl i.val = some (tbl i) := dif_pos i.isLt

theorem setAt_of_ne {i : Nat} {j : Fin n} {x : α} (h : j.val ≠ i) : setAt tbl i x j = tbl j :=
  if_neg h

@[simp] theorem devNameAt_val (t : DrvTable) (i : Fin ddMaxDev) :
    devNameAt t i.val = (t i).name := by
  simp [devNameAt]

end Entries

section Matching

/-- A comparison as long as the name it looks for asks only for a prefix. -/
theorem strncmpEq_length {m n : List UInt8} : strncmpEq m n n.length = true ↔ n <+: m := by
  induction n generalizing m with
  | nil => cases m <;> simp [strncmpEq]
  | cons b n ih =>
    cases m with
    | nil => simp [strncmpEq]
    | cons a m =>
      rw [List.length_cons, strncmpEq, Bool.and_eq_true, decide_eq_true_eq, ih,
        List.cons_prefix_cons]
      exact and_congr eq_comm Iff.rfl

theorem nameMatches_some (nullName : CString) {m n : CString} :
    nameMatches nullName (some m) n = true ↔ n.chars <+: m.chars := strncmpEq_length

theorem findDev_eq_hit (nullName : CString) (tbl : DrvTable) (n : CString) :
    (findDev nullName tbl n).map Fin.val =
      (Scan.upTo (fun i => nameMatches nullName (devNameAt tbl i) n) ddMaxDev).hit := by
  rw [← Scan.find_finRange]
  simp only [devNameAt_val]
  rfl

end Matching

section Held

/-- An entry that holds a name holds a device. -/
def DrvDev.Held (dev : DrvDev) : Prop :=
  dev.name ≠ none → dev.state = .closed ∨ dev.state = .opened

def DrvSdev.Held (dev : DrvSdev) : Prop := dev.name ≠ none → dev.op ≠ none

structure DrvTbls.Held (s : DrvTbls) : Prop where
  dev : ∀ i, (s.dev i).Held
  sdev : ∀ i, (s.sdev i).Held

variable {nullName : CString} {s s' : DrvTbls} {c : DevCall} {a : DevAnswer}

theorem held_setDev {tbl : DrvTable} {i : Fin ddMaxDev} {dev : DrvDev}
    (h : ∀ j, (tbl j).Held) (hdev : dev.Held) (j : Fin ddMaxDev) :
    (setDev tbl i dev j).Held := by
  by_cases hj : j = i
  · subst hj
    rwa [setDev_same]
  · rw [setDev_of_ne hj]
    exact h j

theorem Move.held {tbl tbl' : DrvTable} {c : Call} {a : Answer}
    (hm : Move nullName tbl c tbl' a) (h : ∀ j, (tbl j).Held) : ∀ j, (tbl' j).Held := by
  cases hm with
  | registerFails | openFails | closeFails => exact h
  | registers => exact held_setDev h fun _ => .inl rfl
  | joins _ _ hst => exact held_setDev h fun _ => .inr hst
  | opens => exact held_setDev h fun _ => .inr rfl
  | @leaves _ i => exact held_setDev h (h i)
  | closes => exact held_setDev h fun _ => .inl rfl

theorem held_setAt {n : Nat} {α : Type} {P : α → Prop} {tbl : Fin n → α} {i : Nat} {x : α}
    (h : ∀ j, P (tbl j)) (hx : P x) (j : Fin n) : P (setAt tbl i x j) := by
  by_cases hj : j.val = i
  · rw [show setAt tbl i x j = x from if_pos hj]
    exact hx
  · rw [setAt_of_ne hj]
    exact h j

theorem sddevRegisterDev_held {tbl tbl' : SdevTable} {n : Option CString}
    {o : Option SddOperations} {a : SddAnswer}
    (hx : sddevRegisterDev tbl n o = some (tbl', a)) (h : ∀ j, (tbl j).Held) :
    ∀ j, (tbl' j).Held := by
  unfold sddevRegisterDev at hx
  split at hx
  next n o =>
    split at hx
    next => cases hx
    next i _ =>
      cases hx
      exact held_setAt h fun _ => Option.some_ne_none o
  next =>
    cases hx
    exact h

/-- A `ddev_unregister_dev` that returns has emptied the entry the loop broke at, if the name
was short enough for a search. -/
theorem ddevUnregisterDev_takes {tbl : DrvTable} {n : DevName} {i : Nat}
    (hhit : (Scan.upTo (fun i => nameMatches nullName (devNameAt tbl i) n.toCString)
      ddMaxDev).hit = some i) :
    ∃ k : Fin ddMaxDev, k.val = i ∧ ddevUnregisterDev nullName tbl (some n.toCString) =
      some (setAt tbl i { tbl k with name := none, op := none, state := .nodevice },
        ⟨drvSuccess, none, none⟩) := by
  obtain ⟨hi, -, -⟩ := Scan.upTo_hit.mp hhit
  have hentry : entryAt tbl i = some (tbl ⟨i, hi⟩) := dif_pos hi
  refine ⟨⟨i, hi⟩, rfl, ?_⟩
  simp only [ddevUnregisterDev, if_neg (Nat.not_lt.mpr n.fits), hhit, hentry, Option.bind_some]

theorem ddevUnregisterDev_stops {tbl : DrvTable} {n : DevName}
    (hhit : (Scan.upTo (fun i => nameMatches nullName (devNameAt tbl i) n.toCString)
      ddMaxDev).hit = none) :
    ddevUnregisterDev nullName tbl (some n.toCString) = none := by
  simp only [ddevUnregisterDev, if_neg (Nat.not_lt.mpr n.fits), hhit, Option.bind_none]

theorem sddevUnregisterDev_takes {tbl : SdevTable} {n : DevName} {i : Nat}
    (hhit : (Scan.upTo (fun i => nameMatches nullName (sdevNameAt tbl i) n.toCString)
      ddMaxDev).hit = some i) :
    ∃ k : Fin ddMaxSdev, k.val = i ∧ sddevUnregisterDev nullName tbl (some n.toCString) =
      some (setAt tbl i { tbl k with name := none, op := none, state := .nodevice },
        ⟨drvSuccess, none⟩) := by
  obtain ⟨hi, -, -⟩ := Scan.upTo_hit.mp hhit
  have hin : i < ddMaxSdev := Nat.lt_trans hi (by decide)
  have hentry : entryAt tbl i = some (tbl ⟨i, hin⟩) := dif_pos hin
  refine ⟨⟨i, hin⟩, rfl, ?_⟩
  simp only [sddevUnregisterDev, if_neg (Nat.not_lt.mpr n.fits), hhit, hentry,
    Option.bind_some]

theorem sddevUnregisterDev_stops {tbl : SdevTable} {n : DevName}
    (hhit : (Scan.upTo (fun i => nameMatches nullName (sdevNameAt tbl i) n.toCString)
      ddMaxDev).hit = none) :
    sddevUnregisterDev nullName tbl (some n.toCString) = none := by
  simp only [sddevUnregisterDev, if_neg (Nat.not_lt.mpr n.fits), hhit, Option.bind_none]

theorem sddevControl_same {tbl tbl' : SdevTable} {n : CString} {cmd result : UInt32}
    {a : SddAnswer} (hx : sddevControl nullName tbl n cmd result = some (tbl', a)) :
    tbl' = tbl := by
  simp only [sddevControl, Option.bind_eq_some_iff] at hx
  obtain ⟨i, -, dev, -, op, -, hx⟩ := hx
  split at hx <;> cases hx <;> rfl

theorem withDev_some {r : Option (DrvTable × Answer)}
    (hx : s.withDev r = some (s', a)) :
    ∃ tbl b, r = some (tbl, b) ∧ s' = { s with dev := tbl } ∧ a = .dev b := by
  simp only [DrvTbls.withDev, Option.map_eq_some_iff, Prod.mk.injEq] at hx
  obtain ⟨⟨tbl, b⟩, hr, rfl, rfl⟩ := hx
  exact ⟨tbl, b, hr, rfl, rfl⟩

theorem withSdev_some {r : Option (SdevTable × SddAnswer)}
    (hx : s.withSdev r = some (s', a)) :
    ∃ tbl b, r = some (tbl, b) ∧ s' = { s with sdev := tbl } ∧ a = .sdev b := by
  simp only [DrvTbls.withSdev, Option.map_eq_some_iff, Prod.mk.injEq] at hx
  obtain ⟨⟨tbl, b⟩, hr, rfl, rfl⟩ := hx
  exact ⟨tbl, b, hr, rfl, rfl⟩

theorem step_held (h : s.Held) (hx : (drvTables nullName).step s c = some (s', a)) :
    s'.Held := by
  cases c with
  | register n o =>
    obtain ⟨tbl, b, hr, rfl, rfl⟩ := withDev_some hx
    have hm : Move nullName s.dev (.register (some n.toCString) o) tbl b := .of_register hr
    exact ⟨hm.held h.dev, h.sdev⟩
  | «open» n status f r =>
    obtain ⟨tbl, b, hr, rfl, rfl⟩ := withDev_some hx
    exact ⟨(Move.of_open hr).held h.dev, h.sdev⟩
  | close handle =>
    obtain ⟨tbl, b, hr, rfl, rfl⟩ := withDev_some hx
    have hm : Move nullName s.dev (.close handle) tbl b := .of_close hr
    exact ⟨hm.held h.dev, h.sdev⟩
  | unregister n =>
    obtain ⟨tbl, b, hr, rfl, rfl⟩ := withDev_some hx
    cases hhit : (Scan.upTo (fun i => nameMatches nullName (devNameAt s.dev i) n.toCString)
      ddMaxDev).hit with
    | none => rw [ddevUnregisterDev_stops hhit] at hr; cases hr
    | some i =>
      obtain ⟨k, -, hk⟩ := ddevUnregisterDev_takes hhit
      rw [hk] at hr
      cases hr
      exact ⟨held_setAt h.dev fun hne => absurd rfl hne, h.sdev⟩
  | sddevRegister n o =>
    obtain ⟨tbl, b, hr, rfl, rfl⟩ := withSdev_some hx
    exact ⟨h.dev, sddevRegisterDev_held hr h.sdev⟩
  | sddevControl n cmd r =>
    obtain ⟨tbl, b, hr, rfl, rfl⟩ := withSdev_some hx
    rw [sddevControl_same hr]
    exact h
  | sddevUnregister n =>
    obtain ⟨tbl, b, hr, rfl, rfl⟩ := withSdev_some hx
    cases hhit : (Scan.upTo (fun i => nameMatches nullName (sdevNameAt s.sdev i) n.toCString)
      ddMaxDev).hit with
    | none => rw [sddevUnregisterDev_stops hhit] at hr; cases hr
    | some i =>
      obtain ⟨k, -, hk⟩ := sddevUnregisterDev_takes hhit
      rw [hk] at hr
      cases hr
      exact ⟨h.dev, held_setAt h.sdev fun hne => absurd rfl hne⟩

theorem reaches_held {h : Machine.History DevCall DevAnswer}
    (hr : (drvTables nullName).Reaches h s) : s.Held := by
  refine hr.stateInvariant DrvTbls.Held ?_ fun hi _ hs => step_held hi hs
  exact ⟨fun _ hne => absurd rfl hne, fun _ hne => absurd rfl hne⟩

end Held

section Lookup

variable {nullName : CString} {s : DrvTbls} {c : DevCall} {q : NameSearch}

/-- A call that takes entry `i` of its table changes no other entry of either table, and calls
no other entry's functions. -/
inductive Takes (s : DrvTbls) : DevCall → Nat → DrvTbls → DevAnswer → Prop
  | opens {n : DevName} {f r : UInt32} {i : Fin ddMaxDev} {dev : DrvDev} {a : Answer}
    (hst : dev.state = .opened) (hname : dev.name = (s.dev i).name)
    (hret : a.ret = ddevMakeHandle (slotId i)) (hcalled : ∀ op ∈ a.called, op = .open i f) :
    Takes s (.open n true f r) i { s with dev := setDev s.dev i dev } (.dev a)
  | unregisters {n : DevName} {i : Fin ddMaxDev} {dev : DrvDev} {a : Answer}
    (hname : dev.name = none) (hst : dev.state = .nodevice) (hcalled : a.called = none) :
    Takes s (.unregister n) i { s with dev := setAt s.dev i dev } (.dev a)
  | controls {n : DevName} {cmd r : UInt32} {i : Nat} {a : SddAnswer}
    (hcalled : ∀ x ∈ a.called, x = (i, cmd)) :
    Takes s (.sddevControl n cmd r) i s (.sdev a)
  | sddevUnregisters {n : DevName} {i : Fin ddMaxSdev} {dev : DrvSdev} {a : SddAnswer}
    (hname : dev.name = none) (hst : dev.state = .nodevice) (hcalled : a.called = none) :
    Takes s (.sddevUnregister n) i { s with sdev := setAt s.sdev i dev } (.sdev a)

/-- The search compares its name with names only, inside the table; the call takes an entry
registered under exactly that name, whenever there is one, and otherwise takes none. -/
structure LooksUp (nullName : CString) (s : DrvTbls) (c : DevCall) (q : NameSearch) :
    Prop where
  exact : (q.scan nullName).Exact (fun i => q.nameAt i ≠ none)
    (fun i => q.nameAt i = some q.devName) q.size
  takes : ∀ i, (q.scan nullName).hit = some i →
    ∃ s' a, (drvTables nullName).step s c = some (s', a) ∧ Takes s c i s' a
  stops : (q.scan nullName).hit = none → (drvTables nullName).step s c = none

/-- An entry in use under a name that does not begin with the one looked for. -/
def NameSearch.Other (q : NameSearch) (i : Nat) : Prop :=
  ∃ m, q.nameAt i = some m ∧ ¬ q.devName.chars <+: m.chars

/-- All entries in front of one with the name, which the loop reaches, are in use under other
names that do not begin with it; or, where no entry has the name, all the loop reaches are. -/
def NameSearch.Apart (q : NameSearch) : Prop :=
  (∃ i < q.bound, q.nameAt i = some q.devName ∧ ∀ j < i, q.Other j) ∨
    (∀ j < q.bound, q.Other j) ∧ ∀ i < q.size, q.nameAt i ≠ some q.devName

theorem search_bound (hq : s.search c = some q) : q.bound ≤ q.size := by
  cases c with
  | register | close | sddevRegister => cases hq
  | «open» n status f r =>
    cases status with
    | false => cases hq
    | true => cases hq; exact le_rfl
  | unregister n => cases hq; exact le_rfl
  | sddevControl n cmd r => cases hq; exact le_rfl
  | sddevUnregister n =>
    cases hq
    exact (show ddMaxDev ≤ ddMaxSdev by decide)

theorem NameSearch.other_iff {i : Nat} : (q.nameAt i ≠ none ∧
    nameMatches nullName (q.nameAt i) q.devName = false) ↔ q.Other i := by
  unfold Other
  cases q.nameAt i with
  | none => simp
  | some m =>
    simp only [ne_eq, reduceCtorEq, not_false_eq_true, true_and, Option.some.injEq,
      exists_eq_left', ← nameMatches_some nullName, Bool.not_eq_true]

theorem NameSearch.exact_iff (nullName : CString) (hq : s.search c = some q) :
    (q.scan nullName).Exact (fun i => q.nameAt i ≠ none)
      (fun i => q.nameAt i = some q.devName) q.size ↔ q.Apart := by
  rw [NameSearch.scan, Scan.upTo_exact_iff (search_bound hq)]
  · simp only [other_iff, Apart]
  · intro i hi
    simp [hi]
  · intro i hi
    rw [hi]
    exact (nameMatches_some nullName).mpr List.prefix_rfl

theorem open_takes (hheld : s.Held) {n : DevName} {f r : UInt32} {i : Nat}
    (hhit : (Scan.upTo (fun i => nameMatches nullName (devNameAt s.dev i) n.toCString)
      ddMaxDev).hit = some i) (hname : devNameAt s.dev i ≠ none) :
    ∃ s' a, (drvTables nullName).step s (.open n true f r) = some (s', a) ∧
      Takes s (.open n true f r) i s' a := by
  rw [← findDev_eq_hit] at hhit
  obtain ⟨k, hfind, rfl⟩ := Option.map_eq_some_iff.mp hhit
  rw [devNameAt_val] at hname
  have hshort : ¬ (true = false ∨ ddMaxNameLen < n.chars.length) := by
    simpa using n.fits
  rcases hheld.dev k hname with hst | hst
  · have hstep : (drvTables nullName).step s (.open n true f r) = some
        ({ s with dev := setDev s.dev k { s.dev k with state := .opened, useCnt := 0 + 1 } },
          .dev ⟨ddevMakeHandle (slotId k),
            some (if (s.dev k).callsOpen then r else drvFailure),
            if (s.dev k).callsOpen then some (.open k f) else none⟩) := by
      simp only [drvTables, ddevOpen, if_neg hshort, hfind, hst]
      rfl
    refine ⟨_, _, hstep, .opens rfl rfl rfl fun op hop => ?_⟩
    dsimp only at hop
    split at hop <;> cases hop
    rfl
  · have hstep : (drvTables nullName).step s (.open n true f r) = some
        ({ s with dev := setDev s.dev k { s.dev k with useCnt := (s.dev k).useCnt + 1 } },
          .dev ⟨ddevMakeHandle (slotId k), some drvFailure, none⟩) := by
      simp only [drvTables, ddevOpen, if_neg hshort, hfind, hst]
      rfl
    exact ⟨_, _, hstep, .opens hst rfl rfl fun op hop => absurd hop (Option.not_mem_none op)⟩

theorem open_stops {n : DevName} {f r : UInt32}
    (hhit : (Scan.upTo (fun i => nameMatches nullName (devNameAt s.dev i) n.toCString)
      ddMaxDev).hit = none) :
    (drvTables nullName).step s (.open n true f r) = none := by
  rw [← findDev_eq_hit, Option.map_eq_none_iff] at hhit
  have hshort : ¬ (true = false ∨ ddMaxNameLen < n.chars.length) := by
    simpa using n.fits
  simp only [drvTables, ddevOpen, if_neg hshort, hhit]
  rfl

theorem control_takes (hheld : s.Held) {n : DevName} {cmd r : UInt32} {i : Nat}
    (hhit : (Scan.upTo (fun i => nameMatches nullName (sdevNameAt s.sdev i) n.toCString)
      ddMaxSdev).hit = some i) (hname : sdevNameAt s.sdev i ≠ none) :
    ∃ s' a, (drvTables nullName).step s (.sddevControl n cmd r) = some (s', a) ∧
      Takes s (.sddevControl n cmd r) i s' a := by
  obtain ⟨hi, -, -⟩ := Scan.upTo_hit.mp hhit
  have hentry : entryAt s.sdev i = some (s.sdev ⟨i, hi⟩) := dif_pos hi
  rw [sdevNameAt, hentry] at hname
  obtain ⟨op, hop⟩ := Option.ne_none_iff_exists'.mp (hheld.sdev ⟨i, hi⟩ hname)
  cases hcontrol : op.hasControl with
  | false =>
    refine ⟨_, _, ?_, Takes.controls (a := ⟨drvFailure, none⟩) nofun⟩
    simp only [drvTables, sddevControl, hhit, hentry, Option.bind_some, hop, hcontrol]
    rfl
  | true =>
    refine ⟨_, _, ?_, Takes.controls (a := ⟨r, some (i, cmd)⟩) fun x hx => ?_⟩
    · simp only [drvTables, sddevControl, hhit, hentry, Option.bind_some, hop, hcontrol]
      rfl
    · cases hx
      rfl

theorem looksUp_of_exact (hheld : s.Held) (hq : s.search c = some q)
    (hexact : (q.scan nullName).Exact (fun i => q.nameAt i ≠ none)
      (fun i => q.nameAt i = some q.devName) q.size) : LooksUp nullName s c q := by
  have hnamed : ∀ i, (q.scan nullName).hit = some i → q.nameAt i ≠ none := by
    intro i hi
    rw [hexact.hit i hi]
    exact Option.some_ne_none _
  cases c with
  | register | close | sddevRegister => cases hq
  | «open» n status f r =>
    cases status with
    | false => cases hq
    | true =>
      cases hq
      exact ⟨hexact, fun i hi => open_takes hheld hi (hnamed i hi), open_stops⟩
  | unregister n =>
    cases hq
    refine ⟨hexact, fun i hi => ?_, fun hi => ?_⟩
    · obtain ⟨k, rfl, hk⟩ := ddevUnregisterDev_takes hi
      exact ⟨_, _, congrArg s.withDev hk, .unregisters rfl rfl rfl⟩
    · exact congrArg s.withDev (ddevUnregisterDev_stops hi)
  | sddevControl n cmd r =>
    cases hq
    refine ⟨hexact, fun i hi => control_takes hheld hi (hnamed i hi), fun hi => ?_⟩
    simp only [NameSearch.scan] at hi
    simp only [drvTables, sddevControl, hi]
    rfl
  | sddevUnregister n =>
    cases hq
    refine ⟨hexact, fun i hi => ?_, fun hi => ?_⟩
    · obtain ⟨k, rfl, hk⟩ := sddevUnregisterDev_takes hi
      exact ⟨_, _, congrArg s.withSdev hk, .sddevUnregisters rfl rfl rfl⟩
    · exact congrArg s.withSdev (sddevUnregisterDev_stops hi)

/-- After any calls, a search finds what is registered under exactly its name, and reads no
empty entry, when the names in front of it do not begin with it and leave no gap. -/
theorem device_lookup (nullName : CString) {h : Machine.History DevCall DevAnswer}
    {s : DrvTbls} (hr : (drvTables nullName).Reaches h s) (c : DevCall) (q : NameSearch)
    (hq : s.search c = some q) : LooksUp nullName s c q ↔ q.Apart := by
  rw [← NameSearch.exact_iff nullName hq]
  exact ⟨LooksUp.exact, looksUp_of_exact (reaches_held hr) hq⟩

/-- `"ab"`. -/
def longName : DevName := ⟨⟨[0x61, 0x62], by decide⟩, by decide⟩

/-- `"a"`. -/
def shortName : DevName := ⟨⟨[0x61], by decide⟩, by decide⟩

/-- The calls that register both names. -/
def registerBoth (first second : DevName) : List DevCall :=
  [.register first (some ⟨true, true⟩), .register second (some ⟨true, true⟩)]

theorem device_lookup_longer : ∃ h s q, (drvTables shortName.toCString).Reaches h s ∧
    s.search (.open longName true 0 0) = some q ∧
      LooksUp shortName.toCString s (.open longName true 0 0) q := by
  have hrun : ∃ h s, (drvTables shortName.toCString).exec (registerBoth shortName longName) =
      some (h, s) ∧ devNameAt s.dev 0 = some shortName.toCString ∧
      devNameAt s.dev 1 = some longName.toCString := ⟨_, _, rfl, rfl, rfl⟩
  obtain ⟨h, s, hx, h0, h1⟩ := hrun
  have hr := Machine.reaches_of_exec hx
  refine ⟨h, s, _, hr, rfl, (device_lookup shortName.toCString hr _ _ rfl).mpr (.inl ⟨1, ?_⟩)⟩
  refine ⟨show 1 < ddMaxDev by decide, h1, fun j hj => ?_⟩
  obtain rfl : j = 0 := by omega
  exact ⟨_, h0, show ¬ longName.chars <+: shortName.chars by decide⟩

/-- A name is found under a longer one that was registered first. -/
theorem shorter_name_found : ¬ ∀ (nullName : CString) (h : Machine.History DevCall DevAnswer)
    (s : DrvTbls) (c : DevCall) (q : NameSearch), (drvTables nullName).Reaches h s →
      s.search c = some q → LooksUp nullName s c q := by
  intro hall
  have hrun : ∃ h s, (drvTables shortName.toCString).exec (registerBoth longName shortName) =
      some (h, s) ∧ devNameAt s.dev 0 = some longName.toCString := ⟨_, _, rfl, rfl⟩
  obtain ⟨h, s, hx, h0⟩ := hrun
  have hr := Machine.reaches_of_exec hx
  have hlook := hall shortName.toCString h s (.open shortName true 0 0) _ hr rfl
  have hhit : (NameSearch.scan shortName.toCString
      ⟨devNameAt s.dev, ddMaxDev, ddMaxDev, shortName.toCString⟩).hit = some 0 := by
    refine Scan.upTo_hit.mpr ⟨show 0 < ddMaxDev by decide, ?_, fun j hj =>
      absurd hj (Nat.not_lt_zero j)⟩
    simp only [h0]
    decide
  have hname : devNameAt s.dev 0 = some shortName.toCString := hlook.exact.hit 0 hhit
  rw [h0] at hname
  exact absurd hname (by decide)

end Lookup

end BdkRtt.Driver
