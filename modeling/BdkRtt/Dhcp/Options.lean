import BdkRtt.Dhcp.Server

/-! The bytes of a message that the option loop reads. -/

namespace BdkRtt.Dhcp

section Loop

/-- The places of the types that the option loop reads, up to the one at which it ends. -/
def optionLoop (m : Message) : Nat → (off len : Nat) → Option (List Nat)
  | 0, _, _ => none
  | fuel + 1, off, len =>
    if 0 < len then
      if m.data off = 0xff then some [off]
      else
        let consumed := sizeofBootpOption + (m.data (off + 1)).toNat
        (optionLoop m fuel (off + consumed) (len - consumed)).map (off :: ·)
    else some []

/-- The bytes that are read of a value. -/
def valueReads (m : Message) (off : Nat) : List Nat :=
  if m.data off = 53 ∧ m.data (off + 1) = 1 then [off + 2]
  else if m.data off = 50 ∧ m.data (off + 1) = 4 then [off + 2, off + 3, off + 4, off + 5]
  else []

/-- The bytes that are read at a type. -/
def optionReads (m : Message) (off : Nat) : List Nat :=
  if m.data off = 0xff then [off] else off :: (off + 1) :: valueReads m off

variable {m : Message}

/-- The loop ends. -/
theorem optionLoop_isSome {fuel len : Nat} (off : Nat) (h : len < fuel) :
    ∃ offs, optionLoop m fuel off len = some offs := by
  induction fuel generalizing off len with
  | zero => cases h
  | succ fuel ih =>
    unfold optionLoop
    split
    next hlen =>
      split
      next => exact ⟨_, rfl⟩
      next =>
        have hless : len - (sizeofBootpOption + (m.data (off + 1)).toNat) < fuel := by
          rw [sizeofBootpOption]
          omega
        obtain ⟨offs, hoffs⟩ :=
          ih (off + (sizeofBootpOption + (m.data (off + 1)).toNat)) hless
        exact ⟨off :: offs, congrArg (Option.map (off :: ·)) hoffs⟩
    next => exact ⟨[], rfl⟩

/-- `process_dhcp_message` takes the options at these places in turn. -/
theorem walkOptions_eq {fuel off len : Nat} {offs : List Nat} {w : Walk}
    (h : optionLoop m fuel off len = some offs) : walkOptions m fuel off len w =
      (offs.filter fun off => m.data off ≠ 0xff).foldl (fun w off => walkOption m off w) w := by
  induction fuel generalizing off len offs w with
  | zero => cases h
  | succ fuel ih =>
    unfold optionLoop at h
    unfold walkOptions
    split at h
    next hlen =>
      split at h
      next hend =>
        cases h
        rw [if_neg fun hand => hand.2 hend, List.filter_cons_of_neg (by simp [hend])]
        rfl
      next hend =>
        obtain ⟨offs, hoffs, rfl⟩ := Option.map_eq_some_iff.mp h
        rw [if_pos ⟨hlen, hend⟩, List.filter_cons_of_pos (by simp [hend])]
        exact ih hoffs
    next hlen =>
      cases h
      rw [if_neg fun hand => hlen hand.1]
      rfl

end Loop

section Places

variable (m : Message)

/-- Where the options are from `start` on: a `PAD` is one byte, another option has its length in its
second byte, and nothing comes after an `END`. -/
inductive Message.OptionAt (start : Nat) : Nat → Prop
  | first : OptionAt start start
  | pad {off : Nat} : OptionAt start off → off < m.len → m.data off = 0 → OptionAt start (off + 1)
  | next {off : Nat} : OptionAt start off → off < m.len → m.data off ≠ 0 → m.data off ≠ 0xff →
      OptionAt start (off + (sizeofBootpOption + (m.data (off + 1)).toNat))

/-- The loop ends, every byte it reads is in the message, and it looks at the options of the
message. -/
def Message.LoopInside : Prop :=
  ∃ fuel offs, optionLoop m fuel sizeofBootpHeader (m.len - sizeofBootpHeader) = some offs ∧
    (∀ off ∈ offs, ∀ i ∈ optionReads m off, i < m.len) ∧
    ∀ off, off ∈ offs ↔ m.OptionAt sizeofBootpHeader off ∧ off < m.len

/-- There is no `PAD` in front of the `END`, no option ends with its type, and the value of the two
options that are looked at is there. -/
def Message.WellFormed : Prop :=
  ∀ off, m.OptionAt sizeofBootpHeader off → off < m.len → m.data off ≠ 0xff →
    m.data off ≠ 0 ∧ off + 1 < m.len ∧
    (m.data off = 53 ∧ m.data (off + 1) = 1 → off + 2 < m.len) ∧
    (m.data off = 50 ∧ m.data (off + 1) = 4 → off + 5 < m.len)

end Places

section Inside

variable {m : Message}

theorem optionReads_inside {off : Nat} (hoff : off < m.len) :
    (∀ i ∈ optionReads m off, i < m.len) ↔ (m.data off ≠ 0xff → off + 1 < m.len ∧
      (m.data off = 53 ∧ m.data (off + 1) = 1 → off + 2 < m.len) ∧
      (m.data off = 50 ∧ m.data (off + 1) = 4 → off + 5 < m.len)) := by
  unfold optionReads valueReads
  split
  next hend => simp [hend, hoff]
  next hend =>
    split
    next hmsg => simp [hmsg, hoff]
    next hmsg =>
      split
      next hip =>
        simp [hip, hoff]
        omega
      next hip => simp [hend, hmsg, hip, hoff]

theorem optionAt_outside {start off : Nat} (h : m.OptionAt start off) (hstart : m.len ≤ start) :
    off = start := by
  induction h with
  | first => rfl
  | pad _ hlt _ ih =>
    rw [ih] at hlt
    exact absurd hlt (Nat.not_lt.mpr hstart)
  | next _ hlt _ _ ih =>
    rw [ih] at hlt
    exact absurd hlt (Nat.not_lt.mpr hstart)

theorem optionAt_end {start off : Nat} (h : m.OptionAt start off) (hend : m.data start = 0xff) :
    off = start := by
  induction h with
  | first => rfl
  | pad _ _ hpad ih =>
    rw [ih, hend] at hpad
    cases hpad
  | next _ _ _ hne ih =>
    rw [ih] at hne
    exact absurd hend hne

/-- The options from a place on are the one there and those after it. -/
theorem optionAt_next {start off : Nat} (hstart : start < m.len) (hpad : m.data start ≠ 0)
    (hend : m.data start ≠ 0xff) : m.OptionAt start off ↔
      off = start ∨ m.OptionAt (start + (sizeofBootpOption + (m.data (start + 1)).toNat)) off := by
  constructor
  · intro h
    induction h with
    | first => exact .inl rfl
    | pad _ hlt hpad' ih =>
      rcases ih with rfl | ih
      · exact absurd hpad' hpad
      · exact .inr (ih.pad hlt hpad')
    | next _ hlt hpad' hend' ih =>
      rcases ih with rfl | ih
      · exact .inr .first
      · exact .inr (ih.next hlt hpad' hend')
  · rintro (rfl | h)
    · exact .first
    · induction h with
      | first => exact .next .first hstart hpad hend
      | pad _ hlt hpad' ih => exact ih.pad hlt hpad'
      | next _ hlt hpad' hend' ih => exact ih.next hlt hpad' hend'

/-- In a message without `PAD` the loop looks at its options. -/
theorem mem_optionLoop {fuel off : Nat} {offs : List Nat}
    (hpad : ∀ x, m.OptionAt off x → x < m.len → m.data x ≠ 0)
    (h : optionLoop m fuel off (m.len - off) = some offs) (x : Nat) :
    x ∈ offs ↔ m.OptionAt off x ∧ x < m.len := by
  induction fuel generalizing off offs with
  | zero => cases h
  | succ fuel ih =>
    unfold optionLoop at h
    split at h
    next hlen =>
      have hoff : off < m.len := Nat.lt_of_sub_pos hlen
      split at h
      next hend =>
        cases h
        rw [List.mem_singleton]
        constructor
        · rintro rfl
          exact ⟨.first, hoff⟩
        · exact fun hx => optionAt_end hx.1 hend
      next hend =>
        obtain ⟨rest, hrest, rfl⟩ := Option.map_eq_some_iff.mp h
        have hne := hpad off .first hoff
        rw [Nat.sub_sub] at hrest
        have hmem := ih (fun y hy => hpad y ((optionAt_next hoff hne hend).mpr (.inr hy))) hrest
        rw [List.mem_cons, hmem, optionAt_next hoff hne hend]
        constructor
        · rintro (rfl | hx)
          · exact ⟨.inl rfl, hoff⟩
          · exact ⟨.inr hx.1, hx.2⟩
        · rintro ⟨rfl | hx, hlt⟩
          · exact .inl rfl
          · exact .inr ⟨hx, hlt⟩
    next hlen =>
      cases h
      have hout : m.len ≤ off := Nat.le_of_sub_eq_zero (Nat.eq_zero_of_not_pos hlen)
      refine ⟨nofun, fun hx => ?_⟩
      rw [optionAt_outside hx.1 hout] at hx
      exact absurd hx.2 (Nat.not_lt.mpr hout)

/-- The loop never looks at two bytes that follow one another. -/
theorem succ_not_mem_optionLoop {fuel off len : Nat} {offs : List Nat}
    (h : optionLoop m fuel off len = some offs) :
    (∀ x ∈ offs, off ≤ x) ∧ ∀ x ∈ offs, x + 1 ∉ offs := by
  induction fuel generalizing off len offs with
  | zero => cases h
  | succ fuel ih =>
    unfold optionLoop at h
    split at h
    next =>
      split at h
      next =>
        cases h
        refine ⟨fun x hx => Nat.le_of_eq (List.mem_singleton.mp hx).symm, fun x hx hx' => ?_⟩
        rw [List.mem_singleton.mp hx] at hx'
        exact Nat.succ_ne_self off (List.mem_singleton.mp hx')
      next =>
        obtain ⟨rest, hrest, rfl⟩ := Option.map_eq_some_iff.mp h
        obtain ⟨hle, hsucc⟩ := ih hrest
        have hfar : ∀ x ∈ rest, off + 2 ≤ x := fun x hx =>
          Nat.le_trans (Nat.add_le_add_left (Nat.le_add_right ..) off) (hle x hx)
        refine ⟨fun x hx => ?_, fun x hx hx' => ?_⟩
        · rcases List.mem_cons.mp hx with rfl | hx
          · exact Nat.le_refl _
          · exact Nat.le_of_add_right_le (hfar x hx)
        · rcases List.mem_cons.mp hx with rfl | hx
          · rcases List.mem_cons.mp hx' with heq | hx'
            · exact Nat.succ_ne_self _ heq
            · exact Nat.not_succ_le_self _ (hfar _ hx')
          · rcases List.mem_cons.mp hx' with heq | hx'
            · have := hfar x hx
              omega
            · exact hsucc x hx hx'
    next =>
      cases h
      exact ⟨nofun, nofun⟩

theorem loopInside_of_wellFormed (h : m.WellFormed) : m.LoopInside := by
  obtain ⟨offs, hoffs⟩ := optionLoop_isSome (m := m) sizeofBootpHeader
    (Nat.lt_succ_self (m.len - sizeofBootpHeader))
  have hpad : ∀ x, m.OptionAt sizeofBootpHeader x → x < m.len → m.data x ≠ 0 := by
    intro x hx hlt hpad
    refine (h x hx hlt ?_).1 hpad
    rw [hpad]
    decide
  have hmem := mem_optionLoop hpad hoffs
  refine ⟨_, offs, hoffs, fun off hoff => ?_, hmem⟩
  obtain ⟨hat, hlt⟩ := (hmem off).mp hoff
  exact (optionReads_inside hlt).mpr fun hend => (h off hat hlt hend).2

theorem wellFormed_of_loopInside (h : m.LoopInside) : m.WellFormed := by
  obtain ⟨fuel, offs, hoffs, hreads, hmem⟩ := h
  intro off hat hlt hend
  have hoff : off ∈ offs := (hmem off).mpr ⟨hat, hlt⟩
  have hinside := (optionReads_inside hlt).mp (hreads off hoff) hend
  refine ⟨fun hpad => ?_, hinside⟩
  have hnext : off + 1 ∈ offs := (hmem (off + 1)).mpr ⟨hat.pad hlt hpad, hinside.1⟩
  exact (succ_not_mem_optionLoop hoffs).2 off hoff hnext

/-- The option loop always ends.  It reads nothing but the message, and looks at the options that
are there, exactly when the message is well formed. -/
theorem option_loop_inside (m : Message) : m.LoopInside ↔ m.WellFormed :=
  ⟨wellFormed_of_loopInside, loopInside_of_wellFormed⟩

/-- A host name of no bytes and the type of a message, in 243 bytes. -/
def cutMessage : Message where
  data i := ([(0, 1), (1, 1), (2, 6), (240, 12), (242, 53)].lookup i).getD 0
  len := 243

theorem option_loop_outside : ¬ ∀ m : Message, m.accepted = true → m.LoopInside := by
  intro hall
  have hat : cutMessage.OptionAt sizeofBootpHeader 242 :=
    .next .first (by decide) (by decide) (by decide)
  have hwell := wellFormed_of_loopInside (hall cutMessage (by decide))
  exact absurd (hwell 242 hat (by decide) (by decide)).2.1 (by decide)

end Inside

end BdkRtt.Dhcp
