import BdkRtt.Lib.Mem

universe u v w

namespace BdkRtt.Lib

variable {α : Type u} {β : Type v}

/-- The `n` cells from offset `p` on, as an array. -/
def Mem.block (m : Mem α) (p n : Nat) : Vector α n := Vector.ofFn fun k => m (p + k)

theorem Mem.block_congr {m m' : Mem α} {p n : Nat} (h : ∀ k, p ≤ k → k < p + n → m k = m' k) :
    m.block p n = m'.block p n := by
  apply Vector.ext
  intro k hk
  rw [Mem.block, Mem.block, Vector.getElem_ofFn, Vector.getElem_ofFn]
  exact h _ (Nat.le_add_right ..) (Nat.add_lt_add_left hk p)

theorem Mem.get_block (m : Mem α) (p n : Nat) (k : Fin n) : (m.block p n).get k = m (p + k) := by
  change (m.block p n)[k.val] = m (p + k)
  rw [Mem.block, Vector.getElem_ofFn]

theorem Mem.toList_block (m : Mem α) (p n : Nat) : (m.block p n).toList = m.read p n := by
  apply List.ext_getElem
  · rw [Vector.length_toList, length_read]
  · intro k hk _
    rw [Vector.length_toList] at hk
    simp [Mem.block, Mem.read]

/-- A computation that reads memory block by block, and goes on with what it has read. -/
inductive Reading (α : Type u) (β : Type v)
  | done (b : β)
  | read (p n : Nat) (next : Vector α n → Reading α β)

namespace Reading

/-- The reading of one cell. -/
def cell (p : Nat) (next : α → Reading α β) : Reading α β :=
  read p 1 fun v => next (v.get ⟨0, Nat.zero_lt_one⟩)

def run (m : Mem α) : Reading α β → β
  | done b => b
  | read p n next => (next (m.block p n)).run m

/-- `t`, and then what `f` reads after it. -/
def bind {γ : Type w} (t : Reading α β) (f : β → Reading α γ) : Reading α γ :=
  match t with
  | done b => f b
  | read p n next => read p n fun v => (next v).bind f

/-- The blocks that are read, by first offset and number of cells. -/
def touched (m : Mem α) : Reading α β → List (Nat × Nat)
  | done _ => []
  | read p n next => (p, n) :: (next (m.block p n)).touched m

/-- Every cell read lies below `len`. -/
def Inside (m : Mem α) (len : Nat) : Reading α β → Prop
  | done _ => True
  | read p n next => p + n ≤ len ∧ (next (m.block p n)).Inside m len

variable {m m' : Mem α} {len : Nat} {t t' : Reading α β}

@[simp] theorem run_done (b : β) : (done b : Reading α β).run m = b := rfl

@[simp] theorem run_read (p n : Nat) (next : Vector α n → Reading α β) :
    (read p n next).run m = (next (m.block p n)).run m := rfl

@[simp] theorem run_cell (p : Nat) (next : α → Reading α β) :
    (cell p next).run m = (next (m p)).run m := by
  rw [cell, run_read, Mem.get_block]
  rfl

@[simp] theorem inside_done (b : β) : (done b : Reading α β).Inside m len := trivial

@[simp] theorem inside_read {p n : Nat} {next : Vector α n → Reading α β} :
    (read p n next).Inside m len ↔ p + n ≤ len ∧ (next (m.block p n)).Inside m len := Iff.rfl

@[simp] theorem inside_cell {p : Nat} {next : α → Reading α β} :
    (cell p next).Inside m len ↔ p + 1 ≤ len ∧ (next (m p)).Inside m len := by
  rw [cell, inside_read, Mem.get_block]
  rfl

@[simp] theorem run_bind {γ : Type w} {f : β → Reading α γ} :
    (t.bind f).run m = (f (t.run m)).run m := by
  induction t with
  | done b => rfl
  | read p n next ih => exact ih _

@[simp] theorem inside_bind {γ : Type w} {f : β → Reading α γ} :
    (t.bind f).Inside m len ↔ t.Inside m len ∧ (f (t.run m)).Inside m len := by
  induction t with
  | done b => exact (iff_of_eq (true_and _)).symm
  | read p n next ih =>
    rw [bind, inside_read, ih, inside_read, run_read, and_assoc]

theorem run_ite {c : Prop} [Decidable c] :
    (if c then t else t').run m = if c then t.run m else t'.run m :=
  apply_ite (run m) c t t'

theorem inside_ite {c : Prop} [Decidable c] :
    (if c then t else t').Inside m len ↔ if c then t.Inside m len else t'.Inside m len := by
  split <;> exact Iff.rfl

/-- A test that breaks the reading off. -/
theorem inside_unless {c : Prop} [Decidable c] {b : β} :
    (if c then done b else t).Inside m len ↔ (¬ c → t.Inside m len) := by
  rw [inside_ite]
  split
  next hc => exact iff_of_true trivial fun hnot => absurd hc hnot
  next hc => exact (imp_iff_right hc).symm

theorem inside_when {c : Prop} [Decidable c] {b : β} :
    (if c then t else done b).Inside m len ↔ (c → t.Inside m len) := by
  rw [inside_ite]
  split
  next hc => exact (imp_iff_right hc).symm
  next hc => exact iff_of_true trivial fun hyes => absurd hyes hc

theorem inside_iff : t.Inside m len ↔ ∀ a ∈ t.touched m, a.1 + a.2 ≤ len := by
  induction t with
  | done b => exact iff_of_true trivial fun a ha => absurd ha List.not_mem_nil
  | read p n next ih =>
    rw [inside_read, ih, touched]
    constructor
    · rintro ⟨hfirst, hrest⟩ a ha
      rcases List.mem_cons.mp ha with rfl | ha
      · exact hfirst
      · exact hrest a ha
    · intro h
      exact ⟨h (p, n) List.mem_cons_self, fun a ha => h a (List.mem_cons_of_mem _ ha)⟩

/-- What lies beyond `len` has no part in a computation that stays below it. -/
theorem Inside.congr (h : t.Inside m len) (hm : ∀ k < len, m' k = m k) :
    t.Inside m' len ∧ t.run m' = t.run m := by
  induction t with
  | done b => exact ⟨trivial, rfl⟩
  | read p n next ih =>
    obtain ⟨hle, hnext⟩ := h
    have hblock : m'.block p n = m.block p n :=
      Mem.block_congr fun k _ hk => hm k (Nat.lt_of_lt_of_le hk hle)
    rw [inside_read, run_read, hblock]
    exact ⟨⟨hle, (ih _ hnext).1⟩, (ih _ hnext).2⟩

end Reading

section Fields

/-- A field of a format: where it stands, and what must stand there. -/
structure FormatField (α : Type u) where
  place : Nat
  size : Nat
  fits : Vector α size → Bool

namespace FormatField

/-- A field of one cell. -/
def cell (place : Nat) (fits : α → Bool) : FormatField α where
  place := place
  size := 1
  fits v := fits (v.get ⟨0, Nat.zero_lt_one⟩)

def Fits (f : FormatField α) (m : Mem α) : Prop := f.fits (m.block f.place f.size) = true

instance (f : FormatField α) (m : Mem α) : Decidable (f.Fits m) :=
  inferInstanceAs (Decidable (_ = _))

def Held (f : FormatField α) (len : Nat) : Prop := f.place + f.size ≤ len

/-- No field is cut off by the end, as long as those in front of it fit. -/
def Whole (fs : List (FormatField α)) (m : Mem α) (len : Nat) : Prop :=
  ∀ j f, fs[j]? = some f → (∀ g ∈ fs.take j, g.Fits m) → f.Held len

variable {m : Mem α} {len : Nat} {f : FormatField α} {fs : List (FormatField α)}

@[simp] theorem fits_mk {place size : Nat} {fits : Vector α size → Bool} :
    (⟨place, size, fits⟩ : FormatField α).Fits m ↔ fits (m.block place size) = true := Iff.rfl

@[simp] theorem held_mk {place size : Nat} {fits : Vector α size → Bool} :
    (⟨place, size, fits⟩ : FormatField α).Held len ↔ place + size ≤ len := Iff.rfl

@[simp] theorem fits_cell {place : Nat} {fits : α → Bool} :
    (cell place fits).Fits m ↔ fits (m place) = true := by
  change fits ((m.block place 1).get ⟨0, Nat.zero_lt_one⟩) = true ↔ _
  rw [Mem.get_block]
  rfl

@[simp] theorem held_cell {place : Nat} {fits : α → Bool} :
    (cell place fits).Held len ↔ place + 1 ≤ len := Iff.rfl

theorem whole_nil : Whole [] m len := by
  intro j f hj
  rw [List.getElem?_nil] at hj
  cases hj

/-- The fields are looked at in turn, up to the first that does not fit. -/
theorem whole_cons : Whole (f :: fs) m len ↔ f.Held len ∧ (f.Fits m → Whole fs m len) := by
  constructor
  · intro h
    refine ⟨h 0 f rfl fun g hg => absurd hg List.not_mem_nil, fun hf j g hj hbefore => ?_⟩
    refine h (j + 1) g hj fun g' hg' => ?_
    rcases List.mem_cons.mp hg' with rfl | hg'
    · exact hf
    · exact hbefore g' hg'
  · rintro ⟨hheld, hrest⟩ j g hj hbefore
    cases j with
    | zero =>
      obtain rfl := Option.some.inj hj
      exact hheld
    | succ j =>
      exact hrest (hbefore f List.mem_cons_self) j g hj fun g' hg' =>
        hbefore g' (List.mem_cons_of_mem f hg')

theorem whole_of_held (h : ∀ f ∈ fs, f.Held len) : Whole fs m len :=
  fun _ f hj _ => h f (List.mem_of_getElem? hj)

end FormatField

end Fields

end BdkRtt.Lib
