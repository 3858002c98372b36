import BdkRtt.At.ParseLaws
import Mathlib.Algebra.GroupWithZero.Nat
import Mathlib.Data.List.TakeWhile

universe u

namespace BdkRtt.At

open Lib

section Render

/-- The bytes that an argument must escape. -/
def special (c : UInt8) : Bool := c = 0x2c ∨ c = 0x3d ∨ c = 0x5c

def escape (a : List UInt8) : List UInt8 :=
  a.flatMap fun c => if special c then [0x5c, c] else [c]

/-- `name=a1,...,an` with its terminator. -/
def commandLine (name : List UInt8) (args : List (List UInt8)) : List UInt8 :=
  name ++ 0x3d :: ([0x2c].intercalate (args.map escape) ++ [0])

/-- The characters in front of the last argument, an escape counted as one. -/
def frontLen (name : List UInt8) (args : List (List UInt8)) : Nat :=
  name.length + 1 + (args.dropLast.map fun a => a.length + 1).sum

/-- No argument begins with an escape, and neither the beginning of the last argument nor an escape
in it lies beyond the characters that the parser looks at. -/
structure ReadsPlainly (name : List UInt8) (args : List (List UInt8)) : Prop where
  named : name ≠ []
  begins : ∀ a ∈ args, ∀ c ∈ a.head?, special c = false
  reaches : frontLen name args < atsvrInputBuffMaxSize
  ends : ∀ a ∈ args.getLast?,
    ∀ c ∈ a.drop (atsvrInputBuffMaxSize - frontLen name args), special c = false

theorem escape_cons (c : UInt8) (a : List UInt8) :
    escape (c :: a) = (if special c then [0x5c, c] else [c]) ++ escape a := List.flatMap_cons

theorem escape_of_plain {a : List UInt8} (h : ∀ c ∈ a, special c = false) : escape a = a := by
  induction a with
  | nil => rfl
  | cons c a ih =>
    rw [escape_cons, h c List.mem_cons_self, ih fun x hx => h x (List.mem_cons_of_mem c hx)]
    rfl

theorem length_le_escape (a : List UInt8) : a.length ≤ (escape a).length := by
  induction a with
  | nil => exact Nat.le_refl 0
  | cons c a ih =>
    rw [escape_cons, List.length_append, List.length_cons]
    split <;> simp only [List.length_cons, List.length_nil] <;> omega

theorem escape_eq_self_iff {a : List UInt8} : escape a = a ↔ ∀ c ∈ a, special c = false := by
  refine ⟨fun h => ?_, escape_of_plain⟩
  induction a with
  | nil => exact fun c hc => absurd hc List.not_mem_nil
  | cons c a ih =>
    rw [escape_cons] at h
    cases hc : special c with
    | true =>
      rw [hc, if_pos rfl] at h
      have hlen := congrArg List.length h
      have hle := length_le_escape a
      simp only [List.length_append, List.length_cons, List.length_nil] at hlen
      omega
    | false =>
      rw [hc, if_neg Bool.false_ne_true] at h
      have hrest := ih (List.cons.inj h).2
      intro x hx
      rcases List.mem_cons.mp hx with rfl | hx
      · exact hc
      · exact hrest x hx

theorem intercalate_concat (sep : List UInt8) (as : List (List UInt8)) (a : List UInt8) :
    sep.intercalate (as ++ [a]) = (as.flatMap fun b => b ++ sep) ++ a := by
  induction as with
  | nil => simp [List.intercalate]
  | cons b as ih =>
    cases as with
    | nil => simp [List.intercalate]
    | cons c as =>
      rw [List.cons_append, List.cons_append, List.intercalate_cons_cons, ← List.cons_append, ih]
      simp [List.flatMap_cons]

end Render

section Scans

/-- `k` rounds of the reader that go on. -/
inductive Scans : Nat → Line → List UInt8 → Line → List UInt8 → Prop
  | refl {t rest} : Scans 0 t rest t rest
  | step {k t rest t' rest' t'' rest''} : scanRound t rest = .next t' rest' →
      Scans k t' rest' t'' rest'' → Scans (k + 1) t rest t'' rest''

variable {j k n : Nat} {t t' t'' : Line} {rest rest' rest'' : List UInt8}

theorem Scans.trans (h : Scans j t rest t' rest') (h' : Scans k t' rest' t'' rest'') :
    Scans (j + k) t rest t'' rest'' := by
  induction h with
  | refl => rw [Nat.zero_add]; exact h'
  | step hround _ ih =>
    rw [Nat.add_right_comm]
    exact .step hround (ih h')

theorem Scans.scan (h : Scans k t rest t' rest') (n : Nat) :
    scan (k + n) t rest = scan n t' rest' := by
  induction h with
  | refl => rw [Nat.zero_add]
  | step hround _ ih =>
    rw [Nat.add_right_comm, At.scan, hround]
    exact ih

theorem Scans.split (h : Scans k t rest t'' rest'') (hj : j ≤ k) :
    ∃ t' rest', Scans j t rest t' rest' ∧ Scans (k - j) t' rest' t'' rest'' := by
  induction j generalizing k t rest with
  | zero => exact ⟨t, rest, .refl, h⟩
  | succ j ih =>
    cases h with
    | refl => omega
    | @step k _ _ t₁ rest₁ _ _ hround hrest =>
      obtain ⟨t', rest', hfirst, hlast⟩ := ih hrest (Nat.le_of_succ_le_succ hj)
      rw [Nat.succ_sub_succ]
      exact ⟨t', rest', .step hround hfirst, hlast⟩

/-- A byte that the reader takes as it is. -/
structure Plain (c : UInt8) : Prop where
  ne_zero : c ≠ 0
  ordinary : special c = false

theorem Plain.ne_special {c d : UInt8} (h : Plain c) (hd : special d = true) : c ≠ d := by
  rintro rfl
  rw [h.ordinary] at hd
  cases hd

theorem scanRound_plain {c : UInt8} (hc : Plain c) (t : Line) (rest : List UInt8) :
    scanRound t (c :: rest) =
      if t.cur.isSome then .next (t.push c) rest else .next (t.begin c) rest := by
  rw [scanRound, if_neg hc.ne_zero, if_neg (hc.ne_special (by decide)),
    if_neg (hc.ne_special (by decide)), if_neg (hc.ne_special (by decide))]

theorem scanRound_escape {c : UInt8} (t : Line) {rest : List UInt8} (hrest : rest ≠ []) :
    scanRound t (0x5c :: c :: rest) = .next (t.push c) rest := by
  obtain ⟨d, rest, rfl⟩ := List.exists_cons_of_ne_nil hrest
  rfl

/-- In an open argument each character of an escaped string is one round. -/
theorem scans_escape {closed : List (List UInt8)} {b xs : List UInt8} {isD : Nat} {limQ : Bool}
    (hxs : 0 ∉ xs) (hrest : rest ≠ []) (hk : k ≤ xs.length) :
    Scans k ⟨closed, some b, isD, limQ⟩ (escape xs ++ rest)
      ⟨closed, some (b ++ xs.take k), isD, limQ⟩ (escape (xs.drop k) ++ rest) := by
  induction k generalizing b xs with
  | zero =>
    rw [List.take_zero, List.append_nil, List.drop_zero]
    exact .refl
  | succ k ih =>
    cases xs with
    | nil => simp at hk
    | cons c xs =>
      have hround : scanRound ⟨closed, some b, isD, limQ⟩ (escape (c :: xs) ++ rest) =
          .next ⟨closed, some (b ++ [c]), isD, limQ⟩ (escape xs ++ rest) := by
        have hne : escape xs ++ rest ≠ [] := by
          intro hnil
          exact hrest (List.append_eq_nil_iff.mp hnil).2
        rw [escape_cons, List.append_assoc]
        cases hc : special c with
        | true =>
          rw [if_pos rfl]
          exact scanRound_escape _ hne
        | false =>
          have hplain : Plain c := ⟨fun h0 => hxs (h0 ▸ List.mem_cons_self), hc⟩
          rw [if_neg Bool.false_ne_true]
          exact scanRound_plain hplain _ _
      have hstep := ih (b := b ++ [c]) (fun h0 => hxs (List.mem_cons_of_mem c h0))
        (Nat.le_of_succ_le_succ hk)
      rw [List.append_assoc] at hstep
      exact .step hround hstep

/-- The first `k` characters of an argument that begins plainly. -/
theorem scans_arg (closed : List (List UInt8)) {a : List UInt8} (isD : Nat) (limQ : Bool)
    (ha : a ≠ []) (hbegins : ∀ c ∈ a.head?, special c = false) (hzero : 0 ∉ a) (hrest : rest ≠ [])
    (hpos : 0 < k) (hk : k ≤ a.length) :
    Scans k ⟨closed, none, isD, limQ⟩ (escape a ++ rest)
      ⟨closed, some (a.take k), if isD = 1 then 2 else isD, false⟩ (escape (a.drop k) ++ rest) := by
  obtain ⟨c, a, rfl⟩ := List.exists_cons_of_ne_nil ha
  obtain ⟨k, rfl⟩ := Nat.exists_eq_succ_of_ne_zero (Nat.ne_of_gt hpos)
  have hc := hbegins c rfl
  have hplain : Plain c := ⟨fun h0 => hzero (h0 ▸ List.mem_cons_self), hc⟩
  rw [escape_cons, hc, if_neg Bool.false_ne_true]
  exact .step (scanRound_plain hplain _ _)
    (scans_escape (fun h0 => hzero (List.mem_cons_of_mem c h0)) hrest (Nat.le_of_succ_le_succ hk))

/-- An argument with the comma behind it. -/
theorem scans_argComma {closed : List (List UInt8)} {a : List UInt8} {isD : Nat} {limQ : Bool}
    (ha : a ≠ []) (hbegins : ∀ c ∈ a.head?, special c = false) (hzero : 0 ∉ a) :
    Scans (a.length + 1) ⟨closed, none, isD, limQ⟩ (escape a ++ [0x2c] ++ rest)
      ⟨closed ++ [a], none, if isD = 1 then 2 else isD, true⟩ rest := by
  have harg := scans_arg closed isD limQ ha hbegins hzero
    (List.cons_ne_nil 0x2c rest) (List.length_pos_of_ne_nil ha) (Nat.le_refl a.length)
  rw [List.take_length, List.drop_length] at harg
  have hisD : ¬ (if isD = 1 then 2 else isD) = 1 := by
    split
    · decide
    · assumption
  rw [List.append_assoc]
  refine harg.trans (.step ?_ .refl)
  rw [escape, List.flatMap_nil, List.nil_append, scanRound]
  simp only [hisD, false_and, if_false, Option.isSome_some, if_true]
  rfl

theorem scans_args {as : List (List UInt8)} (has : ∀ a ∈ as, a ≠ [] ∧ 0 ∉ a ∧
      ∀ c ∈ a.head?, special c = false) (closed : List (List UInt8)) (isD : Nat) (limQ : Bool)
    (rest : List UInt8) :
    ∃ isD' limQ', Scans (as.map fun a => a.length + 1).sum ⟨closed, none, isD, limQ⟩
      ((as.flatMap fun a => escape a ++ [0x2c]) ++ rest)
      ⟨closed ++ as, none, isD', limQ'⟩ rest := by
  induction as generalizing closed isD limQ with
  | nil => exact ⟨isD, limQ, by rw [List.append_nil]; exact .refl⟩
  | cons a as ih =>
    obtain ⟨hne, hzero, hbegins⟩ := has a List.mem_cons_self
    obtain ⟨isD', limQ', hrest⟩ := ih (fun b hb => has b (List.mem_cons_of_mem a hb))
      (closed ++ [a]) (if isD = 1 then 2 else isD) true
    refine ⟨isD', limQ', ?_⟩
    rw [List.map_cons, List.sum_cons, List.flatMap_cons, List.append_assoc]
    rw [List.append_assoc, List.singleton_append] at hrest
    exact (scans_argComma hne hbegins hzero).trans hrest

theorem scans_name {name : List UInt8} (hne : name ≠ []) (hname : ∀ c ∈ name, Plain c) :
    Scans (name.length + 1) ⟨[], none, 0, false⟩ (name ++ 0x3d :: rest) ⟨[name], none, 1, false⟩
      rest := by
  have harg := scans_arg [] 0 false hne
    (fun c hc => (hname c (List.mem_of_mem_head? hc)).ordinary)
    (fun h0 => (hname 0 h0).ne_zero rfl) (List.cons_ne_nil 0x3d rest)
    (List.length_pos_of_ne_nil hne) (Nat.le_refl name.length)
  rw [List.take_length, List.drop_length, escape_of_plain fun c hc => (hname c hc).ordinary] at harg
  exact harg.trans (.step rfl .refl)

theorem Line.args_length (t : Line) :
    t.args.length = t.closed.length + t.cur.toList.length := List.length_append

/-- What a round that goes on can make of the arguments. -/
inductive Moves (t : Line) : Line → Prop
  | close (isD limQ) : Moves t { t.close with isD := isD, limQ := limQ }
  | push (x) : Moves t (t.push x)
  | begin {c} : Plain c → t.cur = none → Moves t (t.begin c)
  | keep : Moves t t

theorem scanRound_moves (h : scanRound t rest = .next t' rest') : Moves t t' := by
  cases rest with
  | nil => cases h
  | cons c rest =>
    rw [scanRound] at h
    split at h
    · split at h <;> cases h
    next hzero =>
    split at h
    · split at h
      · cases h
        exact .close ..
      · split at h <;> cases h
        exact .push c
    next hequal =>
    split at h
    · rcases rest with _ | ⟨x, _ | ⟨y, rest⟩⟩ <;> cases h
      exact .push x
    next hback =>
    split at h
    · split at h
      · cases h
      · split at h <;> cases h
        · exact .close ..
        · exact .keep
    next hcomma =>
    have hplain : Plain c := ⟨hzero, by simp [special, hequal, hback, hcomma]⟩
    split at h
    · cases h
      exact .push c
    next hcur =>
      cases h
      exact .begin hplain (Option.not_isSome_iff_eq_none.mp hcur)

theorem Moves.args_le (h : Moves t t') : t.args.length ≤ t'.args.length := by
  cases h with
  | close isD limQ =>
    change t.args.length ≤ (t.args ++ []).length
    rw [List.append_nil]
  | push x =>
    rw [Line.args_length, Line.args_length, Line.push]
    cases t.cur <;> exact Nat.le_refl _
  | begin hplain hcur =>
    rw [Line.args_length, Line.args_length, Line.begin, hcur]
    exact Nat.le_add_right ..
  | keep => exact Nat.le_refl _

theorem Scans.args_le (h : Scans k t rest t' rest') : t.args.length ≤ t'.args.length := by
  induction h with
  | refl => exact Nat.le_refl _
  | step hround _ ih => exact (scanRound_moves hround).args_le.trans ih

variable {name last : List UInt8} {init : List (List UInt8)}

theorem frontLen_concat (name last : List UInt8) (init : List (List UInt8)) :
    frontLen name (init ++ [last]) =
      name.length + 1 + (init.map fun a => a.length + 1).sum := by
  rw [frontLen, List.dropLast_concat]

theorem commandLine_concat (name last : List UInt8) (init : List (List UInt8)) :
    commandLine name (init ++ [last]) =
      name ++ 0x3d :: ((init.flatMap fun a => escape a ++ [0x2c]) ++ (escape last ++ [0])) := by
  rw [commandLine, List.map_append, List.map_singleton, intercalate_concat, List.flatMap_map,
    List.append_assoc]

/-- The line up to its last argument. -/
theorem scans_front (last : List UInt8) (hne : name ≠ []) (hname : ∀ c ∈ name, Plain c)
    (hinit : ∀ a ∈ init, a ≠ [] ∧ 0 ∉ a ∧ ∀ c ∈ a.head?, special c = false) :
    ∃ isD limQ, Scans (frontLen name (init ++ [last])) ⟨[], none, 0, false⟩
      (commandLine name (init ++ [last])) ⟨name :: init, none, isD, limQ⟩
      (escape last ++ [0]) := by
  obtain ⟨isD, limQ, hargs⟩ := scans_args hinit [name] 1 false (escape last ++ [0])
  refine ⟨isD, limQ, ?_⟩
  rw [frontLen_concat, commandLine_concat]
  exact (scans_name hne hname).trans hargs

/-- The end of a line whose arguments all begin plainly, where its last argument comes in time. -/
theorem scanLine_reaches (hne : name ≠ []) (hname : ∀ c ∈ name, Plain c)
    (hinit : ∀ a ∈ init, a ≠ [] ∧ 0 ∉ a ∧ ∀ c ∈ a.head?, special c = false)
    (hlast : last ≠ [] ∧ 0 ∉ last ∧ ∀ c ∈ last.head?, special c = false)
    (hfront : frontLen name (init ++ [last]) < atsvrInputBuffMaxSize) :
    ∃ t, scanLine (commandLine name (init ++ [last])) =
        .behind t (escape (last.drop (atsvrInputBuffMaxSize - frontLen name (init ++ [last]))) ++
          [0]) ∧
      t.closed = name :: init ∧
      t.cur = some (last.take (atsvrInputBuffMaxSize - frontLen name (init ++ [last]))) := by
  obtain ⟨isD, limQ, hscans⟩ := scans_front last hne hname hinit
  obtain ⟨hlne, hzero, hbegins⟩ := hlast
  obtain ⟨k, hk⟩ := Nat.exists_eq_add_of_lt hfront
  rw [scanLine, hk, Nat.add_assoc, hscans.scan, Nat.add_sub_cancel_left]
  by_cases hle : k + 1 ≤ last.length
  · have harg := scans_arg (name :: init) isD limQ hlne hbegins hzero
      (List.cons_ne_nil 0 []) (Nat.succ_pos k) hle
    have hscan := harg.scan 0
    rw [Nat.add_zero] at hscan
    exact ⟨_, hscan, rfl, rfl⟩
  · have harg := scans_arg (name :: init) isD limQ hlne hbegins hzero
      (List.cons_ne_nil 0 []) (List.length_pos_of_ne_nil hlne) (Nat.le_refl last.length)
    obtain ⟨n, hn⟩ := Nat.exists_eq_add_of_le (show last.length + 1 ≤ k + 1 by omega)
    have hsplit : k + 1 = last.length + (n + 1) := by omega
    have hisD : ¬ (if isD = 1 then 2 else isD) = 1 := by
      split
      · decide
      · assumption
    have hdone : scanRound ⟨name :: init, some last, if isD = 1 then 2 else isD, false⟩ [0] =
        .done := by
      rw [scanRound, if_pos rfl, if_neg]
      simp [Line.args, hisD]
    rw [List.drop_of_length_le (show last.length ≤ k + 1 by omega),
      List.take_of_length_le (show last.length ≤ k + 1 by omega), hsplit, harg.scan,
      List.drop_length, List.take_length]
    refine ⟨⟨name :: init, some last, if isD = 1 then 2 else isD, false⟩, ?_, rfl, rfl⟩
    change scan (n + 1) _ [0] = .behind _ [0]
    rw [At.scan, hdone]

theorem scanLine_short (hne : name ≠ []) (hname : ∀ c ∈ name, Plain c)
    (hinit : ∀ a ∈ init, a ≠ [] ∧ 0 ∉ a ∧ ∀ c ∈ a.head?, special c = false)
    (hfront : atsvrInputBuffMaxSize ≤ frontLen name (init ++ [last])) :
    ∃ t rest, scanLine (commandLine name (init ++ [last])) = .behind t rest ∧
      t.args.length ≤ init.length + 1 := by
  obtain ⟨isD, limQ, hscans⟩ := scans_front last hne hname hinit
  obtain ⟨t, rest, hfirst, hrest⟩ := hscans.split hfront
  have hscan := hfirst.scan 0
  rw [Nat.add_zero] at hscan
  refine ⟨t, rest, hscan, hrest.args_le.trans ?_⟩
  rw [Line.args_length]
  exact Nat.le_refl _

end Scans

section Strings

variable {m : Mem UInt8} {len i p n : Nat} {last : UInt8} {s : Parse} {t t' : Line}
  {rest rest' a : List UInt8}

/-- The bytes up to a terminator. -/
def cut (a : List UInt8) : List UInt8 := a.takeWhile (· ≠ 0)

theorem cut_append (h : 0 ∈ a) (b : List UInt8) : cut (a ++ b) = cut a := by
  induction a with
  | nil => exact absurd h List.not_mem_nil
  | cons c a ih =>
    rw [cut, cut, List.cons_append, List.takeWhile_cons, List.takeWhile_cons]
    split
    next hc =>
      have hne : c ≠ 0 := of_decide_eq_true hc
      congr 1
      exact ih ((List.mem_cons.mp h).resolve_left (Ne.symm hne))
    next => rfl

theorem cut_zero (a : List UInt8) : cut (a ++ [0]) = cut a := by
  induction a with
  | nil => rfl
  | cons c a ih =>
    rw [cut, cut, List.cons_append, List.takeWhile_cons, List.takeWhile_cons]
    split
    next => exact congrArg _ ih
    next => rfl

theorem cut_of_not_mem (h : 0 ∉ a) : cut a = a :=
  List.takeWhile_eq_self_iff.mpr fun _ hc => decide_eq_true fun h0 => h (h0 ▸ hc)

/-- A string that stands in the buffer is read up to its terminator. -/
theorem cString_eq (h : m.Has p a) (h0 : 0 ∈ a) (hin : p + a.length ≤ len) :
    cString m len p = cut a := by
  obtain ⟨d, hd⟩ := Nat.exists_eq_add_of_le (show a.length ≤ len - p by omega)
  rw [cString, hd, Mem.read_add, h]
  exact cut_append h0 _

/-- The arguments as they are read out of the buffer. -/
def Line.strings (t : Line) (rest : List UInt8) : List (List UInt8) :=
  t.closed.map cut ++ t.cur.toList.map fun a => cut (a ++ rest)

theorem Rests.strings (h : Rests len last s t rest) (h0 : 0 ∈ rest) :
    s.argv.map (cString s.inbuf len) = t.strings rest := by
  obtain ⟨ps, qs, hargv, hclosed, hcur⟩ := h.points
  have hinside := h.inside
  rw [hargv, List.map_append, Line.strings]
  congr 1
  · apply List.forall₂_eq_eq_eq ▸ List.forall₂_map_left_iff.mpr (List.forall₂_map_right_iff.mpr _)
    refine hclosed.imp fun p a hp => ?_
    rw [cString_eq hp.2 (List.mem_append_right a List.mem_cons_self)
      (by have := hp.1; simp only [List.length_append, List.length_singleton]; omega), cut_zero]
  · apply List.forall₂_eq_eq_eq ▸ List.forall₂_map_left_iff.mpr (List.forall₂_map_right_iff.mpr _)
    refine hcur.imp fun p a hp => ?_
    have hend := hp.1
    exact cString_eq (Mem.has_append.mpr ⟨hp.2, by rw [hend]; exact h.has⟩)
      (List.mem_append_right a h0) (by rw [List.length_append]; omega)

/-- Every argument begins with a byte that the reader takes as it is. -/
def Opens (t : Line) : Prop := ∀ a ∈ t.args, ∃ c ∈ a.head?, Plain c

theorem Opens.moves (h : Opens t) (hmoves : Moves t t') : Opens t' := by
  cases hmoves with
  | close isD limQ =>
    intro a ha
    change a ∈ t.args ++ [] at ha
    rw [List.append_nil] at ha
    exact h a ha
  | push x =>
    intro a ha
    rcases List.mem_append.mp ha with ha | ha
    · exact h a (List.mem_append_left _ ha)
    · obtain ⟨b, hb, rfl⟩ := Option.map_eq_some_iff.mp (Option.mem_toList.mp ha)
      obtain ⟨c, hc, hplain⟩ := h b (List.mem_append_right _ (Option.mem_toList.mpr hb))
      refine ⟨c, ?_, hplain⟩
      rw [List.head?_append, Option.mem_def.mp hc]
      rfl
  | @begin c hplain hcur =>
    intro a ha
    rcases List.mem_append.mp ha with ha | ha
    · exact h a (List.mem_append_left _ ha)
    · rw [List.mem_singleton.mp ha]
      exact ⟨c, rfl, hplain⟩
  | keep => exact h

theorem Opens.scan (h : Opens t) : Opens (scan n t rest).line := by
  induction n generalizing t rest with
  | zero => exact h
  | succ n ih =>
    rw [At.scan]
    cases hround : scanRound t rest with
    | next t' rest' => exact ih (h.moves (scanRound_moves hround))
    | fail ret => exact h
    | done => exact h

theorem Opens.strings (h : Opens t) : ∀ a ∈ t.strings rest, ∃ c ∈ a.head?, Plain c := by
  have hcut (a b : List UInt8) (ha : a ∈ t.args) : ∃ c ∈ (cut (a ++ b)).head?, Plain c := by
    obtain ⟨c, hc, hplain⟩ := h a ha
    obtain ⟨a', rfl⟩ : ∃ a', a = c :: a' := by
      cases a with
      | nil => cases hc
      | cons d a' =>
        obtain rfl := Option.some.inj hc
        exact ⟨a', rfl⟩
    refine ⟨c, ?_, hplain⟩
    rw [cut, List.cons_append, List.takeWhile_cons, if_pos (decide_eq_true hplain.ne_zero)]
    rfl
  intro a ha
  rcases List.mem_append.mp ha with ha | ha
  · obtain ⟨b, hb, rfl⟩ := List.mem_map.mp ha
    have hb' := hcut b [] (List.mem_append_left _ hb)
    rw [List.append_nil] at hb'
    exact hb'
  · obtain ⟨b, hb, rfl⟩ := List.mem_map.mp ha
    exact hcut b rest (List.mem_append_right _ hb)

end Strings

section Call

variable {κ : Type u} {cmd : κ → AtsvrCommand} {env : AtsvrEnv κ}
  {m : Mem UInt8} {len : Int} {t : Line} {rest : List UInt8}

/-- Of a line that ends with a terminator some byte is left to end the last argument. -/
theorem Rests.zero_mem {n : Nat} {s : Parse} (h : Rests n 0 s t rest) : 0 ∈ rest := by
  have hne : rest ≠ [] := fun hnil => h.lastNot hnil rfl
  exact List.mem_of_getLast? (h.lastIs hne)

theorem handleInput_behind (hlast : (rawLine m len).getLast? = some 0)
    (hend : scanLine (rawLine m len) = .behind t rest) (hargs : t.args ≠ []) :
    atsvrHandleInput cmd env m len = .handed (atsvcCommandHandle cmd env
      (UInt8.ofNat t.args.length) (t.strings rest)) := by
  have hends := parseInput_ends m len
  rw [hend, hlast, Option.getD_some] at hends
  rw [atsvrHandleInput]
  cases hp : parseInput m len with
  | fail ret s =>
    rw [hp] at hends
    exact hends.elim
  | behind s =>
    rw [hp] at hends
    have hrests : Rests len.toNat 0 s t rest := hends
    have hargc := hrests.argc
    have hsome : ¬ s.argc < 1 := by
      rw [hargc]
      exact Nat.not_lt.mpr (List.length_pos_of_ne_nil hargs)
    dsimp only
    rw [if_neg hsome, hrests.strings hrests.zero_mem, hargc]

theorem handleInput_handed (hlast : (rawLine m len).getLast? = some 0)
    {r : Option (AtsvrSt × Option (Call κ))} (hr : atsvrHandleInput cmd env m len = .handed r) :
    ∃ t rest, scanLine (rawLine m len) = .behind t rest ∧
      r = atsvcCommandHandle cmd env (UInt8.ofNat t.args.length) (t.strings rest) := by
  have hends := parseInput_ends m len
  rw [hlast, Option.getD_some] at hends
  rw [atsvrHandleInput] at hr
  cases hp : parseInput m len with
  | fail ret s =>
    rw [hp] at hr
    cases hr
  | behind s =>
    rw [hp] at hr hends
    cases hs : scanLine (rawLine m len) with
    | fail ret t =>
      rw [hs] at hends
      exact hends.elim
    | behind t rest =>
      rw [hs] at hends
      have hrests : Rests len.toNat 0 s t rest := hends
      dsimp only at hr
      split at hr
      · cases hr
      · rw [hrests.strings hrests.zero_mem, hrests.argc] at hr
        exact ⟨t, rest, rfl, (Handled.handed.inj hr).symm⟩

theorem commandHandle_call {argc : UInt8} {argv : List (List UInt8)} {status : AtsvrSt}
    {call : Call κ} (h : atsvcCommandHandle cmd env argc argv = some (status, some call)) :
    call.argv = argv.take argc.toNat := by
  rw [atsvcCommandHandle] at h
  split at h
  · cases h
  · cases h
  · split at h
    · cases h
      rfl
    · cases h

theorem commandHandle_found {argc : UInt8} {name : List UInt8} {args : List (List UInt8)}
    {command : κ} (h : atsvrLookupAtCommand cmd env name (partialLen name) = .found command)
    (hfunction : (cmd command).function = true) :
    atsvcCommandHandle cmd env argc (name :: args) =
      some (.ok, some ⟨command, argc, (name :: args).take argc.toNat⟩) := by
  rw [atsvcCommandHandle, List.headD_cons, h]
  exact if_pos hfunction

end Call

section RoundTrip

variable {κ : Type u} {cmd : κ → AtsvrCommand} {env : AtsvrEnv κ} {command : κ}
  {name : List UInt8} {args : List (List UInt8)} {m : Mem UInt8}

theorem commandLine_getLast (name : List UInt8) (args : List (List UInt8)) :
    (commandLine name args).getLast? = some 0 := by
  rw [commandLine, ← List.cons_append, ← List.append_assoc, List.getLast?_concat]

theorem rawLine_of_has {line : List UInt8} (h : m.Has 0 line) :
    rawLine m (line.length : Int) = line := h

theorem strings_of_zero_free {t : Line} {rest : List UInt8} (hclosed : ∀ a ∈ t.closed, 0 ∉ a)
    {a : List UInt8} (hcur : t.cur = some a) (ha : 0 ∉ a ++ rest) :
    t.strings (rest ++ [0]) = t.closed ++ [a ++ rest] := by
  have hmap : t.closed.map cut = t.closed :=
    (List.map_congr_left fun b hb => cut_of_not_mem (hclosed b hb)).trans (List.map_id' _)
  rw [Line.strings, hmap, hcur, Option.toList_some, List.map_singleton, ← List.append_assoc,
    cut_zero, cut_of_not_mem ha]

theorem zero_not_mem_escape {a : List UInt8} (h : 0 ∉ a) : 0 ∉ escape a := by
  intro h0
  obtain ⟨c, hc, hmem⟩ := List.mem_flatMap.mp h0
  have hne : (0 : UInt8) ≠ c := fun heq => h (heq ▸ hc)
  split at hmem
  · rcases List.mem_cons.mp hmem with h0 | h0
    · cases h0
    · exact hne (List.mem_singleton.mp h0)
  · exact hne (List.mem_singleton.mp hmem)

theorem toNat_argc {n : Nat} (h : n ≤ atsvrMaxArg) : (UInt8.ofNat n).toNat = n := by
  rw [atsvrMaxArg] at h
  rw [UInt8.toNat_ofNat']
  omega

/-- What the parser has of a line whose last argument comes in time. -/
theorem strings_reaches {init : List (List UInt8)} {last : List UInt8} (hne : name ≠ [])
    (hname : ∀ c ∈ name, Plain c) (hargs : ∀ a ∈ init ++ [last], a ≠ [] ∧ 0 ∉ a)
    (hbegins : ∀ a ∈ init ++ [last], ∀ c ∈ a.head?, special c = false)
    (hfront : frontLen name (init ++ [last]) < atsvrInputBuffMaxSize) :
    ∃ t rest d, d = atsvrInputBuffMaxSize - frontLen name (init ++ [last]) ∧
      scanLine (commandLine name (init ++ [last])) = .behind t rest ∧
      t.args.length = init.length + 2 ∧
      t.strings rest = name :: init ++ [last.take d ++ escape (last.drop d)] := by
  have hall (a : List UInt8) (ha : a ∈ init ++ [last]) :
      a ≠ [] ∧ 0 ∉ a ∧ ∀ c ∈ a.head?, special c = false :=
    ⟨(hargs a ha).1, (hargs a ha).2, hbegins a ha⟩
  have hlast := hall last (List.mem_append_right _ (List.mem_singleton_self last))
  obtain ⟨t, hscan, hclosed, hcur⟩ := scanLine_reaches hne hname
    (fun a ha => hall a (List.mem_append_left _ ha)) hlast hfront
  refine ⟨t, _, _, rfl, hscan, ?_, ?_⟩
  · rw [Line.args_length, hclosed, hcur]
    rfl
  · rw [strings_of_zero_free _ hcur, hclosed]
    · intro h0
      rcases List.mem_append.mp h0 with h0 | h0
      · exact hlast.2.1 (List.mem_of_mem_take h0)
      · exact zero_not_mem_escape (fun h0 => hlast.2.1 (List.mem_of_mem_drop h0)) h0
    · intro a ha
      rw [hclosed] at ha
      rcases List.mem_cons.mp ha with rfl | ha
      · exact fun h0 => (hname 0 h0).ne_zero rfl
      · exact (hargs a (List.mem_append_left _ ha)).2

theorem handed_of_readsPlainly (hname : ∀ c ∈ name, Plain c) (hargs : args ≠ [])
    (hmax : args.length < atsvrMaxArg) (hstrings : ∀ a ∈ args, a ≠ [] ∧ 0 ∉ a)
    (hfound : atsvrLookupAtCommand cmd env name (partialLen name) = .found command)
    (hfunction : (cmd command).function = true) (hin : m.Has 0 (commandLine name args))
    (h : ReadsPlainly name args) :
    atsvrHandleInput cmd env m (commandLine name args).length =
      .handed (some (.ok, some ⟨command, UInt8.ofNat (args.length + 1), name :: args⟩)) := by
  obtain ⟨init, last, rfl⟩ := List.eq_nil_or_concat args |>.resolve_left hargs
  rw [List.concat_eq_append] at *
  obtain ⟨t, rest, d, hd, hscan, hlen, hread⟩ :=
    strings_reaches h.named hname hstrings h.begins h.reaches
  have hends := h.ends last List.getLast?_concat
  rw [← hd] at hends
  rw [escape_of_plain hends, List.take_append_drop] at hread
  have hlen' : t.args.length = (init ++ [last]).length + 1 := by
    rw [hlen, List.length_append, List.length_singleton]
  have hraw := rawLine_of_has hin
  have hlast : (rawLine m (commandLine name (init ++ [last])).length).getLast? = some 0 := by
    rw [hraw, commandLine_getLast]
  rw [← hraw] at hscan
  have hsome : t.args ≠ [] := List.ne_nil_of_length_pos (by omega)
  have htoNat : (UInt8.ofNat ((init ++ [last]).length + 1)).toNat = (init ++ [last]).length + 1 :=
    toNat_argc hmax
  have htake : (name :: (init ++ [last])).take ((init ++ [last]).length + 1) =
      name :: (init ++ [last]) := List.take_of_length_le (Nat.le_of_eq List.length_cons)
  rw [handleInput_behind hlast hscan hsome, hread, hlen', List.cons_append,
    commandHandle_found hfound hfunction, htoNat, htake]

/-- When the command is called with the name and the arguments, they are what the line was read
as. -/
theorem line_of_handed (hin : m.Has 0 (commandLine name args))
    (h : atsvrHandleInput cmd env m (commandLine name args).length =
      .handed (some (.ok, some ⟨command, UInt8.ofNat (args.length + 1), name :: args⟩))) :
    ∃ t rest, scanLine (commandLine name args) = .behind t rest ∧
      name :: args = (t.strings rest).take (UInt8.ofNat t.args.length).toNat := by
  obtain ⟨t, rest, hscan, hcall⟩ := handleInput_handed
    (by rw [rawLine_of_has hin]; exact commandLine_getLast ..) h
  rw [rawLine_of_has hin] at hscan
  exact ⟨t, rest, hscan, commandHandle_call hcall.symm⟩

section Line

variable {t : Line} {rest : List UInt8} (hscan : scanLine (commandLine name args) = .behind t rest)
  (hargv : name :: args = (t.strings rest).take (UInt8.ofNat t.args.length).toNat)

include hscan hargv

theorem first_plain_of_line {a : List UInt8} (ha : a ∈ name :: args) : ∃ c ∈ a.head?, Plain c := by
  have hopens : Opens (scanLine (commandLine name args)).line :=
    Opens.scan fun a ha => absurd ha List.not_mem_nil
  rw [hscan] at hopens
  exact hopens.strings a (List.mem_of_mem_take (hargv ▸ ha))

omit hscan in
theorem length_le_of_line : args.length + 1 ≤ t.args.length := by
  have hlen := congrArg List.length hargv
  simp only [List.length_cons, List.length_append, List.length_take, Line.strings,
    List.length_map] at hlen
  rw [Line.args_length]
  omega

end Line

theorem readsPlainly_of_handed (hname : ∀ c ∈ name, Plain c) (hargs : args ≠ [])
    (hmax : args.length < atsvrMaxArg) (hstrings : ∀ a ∈ args, a ≠ [] ∧ 0 ∉ a)
    (hin : m.Has 0 (commandLine name args))
    (h : atsvrHandleInput cmd env m (commandLine name args).length =
      .handed (some (.ok, some ⟨command, UInt8.ofNat (args.length + 1), name :: args⟩))) :
    ReadsPlainly name args := by
  obtain ⟨init, last, rfl⟩ := List.eq_nil_or_concat args |>.resolve_left hargs
  rw [List.concat_eq_append] at *
  obtain ⟨t, rest, hscan, hargv⟩ := line_of_handed hin h
  have hne : name ≠ [] := by
    rintro rfl
    obtain ⟨c, hc, -⟩ := first_plain_of_line hscan hargv List.mem_cons_self
    cases hc
  have hbegins : ∀ a ∈ init ++ [last], ∀ c ∈ a.head?, special c = false := by
    intro a ha c hc
    obtain ⟨d, hd, hplain⟩ := first_plain_of_line hscan hargv (List.mem_cons_of_mem _ ha)
    obtain rfl := Option.some.inj (hc.symm.trans hd)
    exact hplain.ordinary
  have hle := length_le_of_line hargv
  rw [List.length_append, List.length_singleton] at hle hmax
  have hreaches : frontLen name (init ++ [last]) < atsvrInputBuffMaxSize := by
    refine Nat.lt_of_not_le fun hshort => ?_
    obtain ⟨t', rest', hscan', hlen⟩ := scanLine_short hne hname
      (fun a ha => ⟨(hstrings a (List.mem_append_left _ ha)).1,
        (hstrings a (List.mem_append_left _ ha)).2, hbegins a (List.mem_append_left _ ha)⟩) hshort
    rw [hscan] at hscan'
    cases hscan'
    omega
  obtain ⟨t', rest', d, hd, hscan', hlen, hread⟩ :=
    strings_reaches hne hname hstrings hbegins hreaches
  rw [hscan] at hscan'
  cases hscan'
  refine ⟨hne, hbegins, hreaches, ?_⟩
  intro a ha
  rw [List.getLast?_concat] at ha
  obtain rfl := Option.some.inj ha
  rw [← hd, ← escape_eq_self_iff]
  have hall : (UInt8.ofNat t.args.length).toNat = init.length + 2 := by
    rw [hlen]
    exact toNat_argc hmax
  rw [hread, hall, List.take_of_length_le (by simp), ← List.cons_append] at hargv
  have hlast := (List.append_inj hargv rfl).2
  have htail := List.cons.inj hlast
  exact (List.append_cancel_left ((List.take_append_drop d _).trans htail.1)).symm

/-- A command gets the arguments that were escaped just where the line reads plainly. -/
theorem argument_round_trip (hname : ∀ c ∈ name, Plain c) (hargs : args ≠ [])
    (hmax : args.length < atsvrMaxArg) (hstrings : ∀ a ∈ args, a ≠ [] ∧ 0 ∉ a)
    (hfound : atsvrLookupAtCommand cmd env name (partialLen name) = .found command)
    (hfunction : (cmd command).function = true) (hin : m.Has 0 (commandLine name args)) :
    atsvrHandleInput cmd env m (commandLine name args).length =
        .handed (some (.ok, some ⟨command, UInt8.ofNat (args.length + 1), name :: args⟩)) ↔
      ReadsPlainly name args :=
  ⟨readsPlainly_of_handed hname hargs hmax hstrings hin,
    handed_of_readsPlainly hname hargs hmax hstrings hfound hfunction hin⟩

theorem argument_round_trip_comma :
    atsvrHandleInput (fun _ : Nat => ⟨some [0x41], true⟩) ⟨[some 0], 1⟩
        (fun k => (commandLine [0x41] [[0x62, 0x2c]]).getD k 0)
        (commandLine [0x41] [[0x62, 0x2c]]).length =
        .handed (some (.ok, some ⟨0, 2, [[0x41], [0x62, 0x2c]]⟩)) ↔
      ReadsPlainly [0x41] [[0x62, 0x2c]] :=
  argument_round_trip
    (by
      intro c hc
      rw [List.mem_singleton.mp hc]
      exact ⟨by decide, by decide⟩)
    (by decide) (by decide)
    (by
      intro a ha
      rw [List.mem_singleton.mp ha]
      exact ⟨by decide, by decide⟩)
    (by decide) rfl rfl

/-- Of the argument `,b` in the line `A=\,b` the comma is lost: the byte behind a backslash does not
begin an argument. -/
theorem argument_loses_escape : ¬ ∀ (cmd : Nat → AtsvrCommand) (env : AtsvrEnv Nat)
    (command : Nat) (name : List UInt8) (args : List (List UInt8)) (m : Mem UInt8),
    (∀ c ∈ name, Plain c) → args ≠ [] → args.length < atsvrMaxArg →
    (∀ a ∈ args, a ≠ [] ∧ 0 ∉ a) →
    atsvrLookupAtCommand cmd env name (partialLen name) = .found command →
    (cmd command).function = true → m.Has 0 (commandLine name args) →
    atsvrHandleInput cmd env m (commandLine name args).length =
      .handed (some (.ok, some ⟨command, UInt8.ofNat (args.length + 1), name :: args⟩)) := by
  intro hall
  have hname (c : UInt8) (hc : c ∈ ([0x41] : List UInt8)) : Plain c := by
    rw [List.mem_singleton.mp hc]
    exact ⟨by decide, by decide⟩
  have hstrings (a : List UInt8) (ha : a ∈ [([0x2c, 0x62] : List UInt8)]) : a ≠ [] ∧ 0 ∉ a := by
    rw [List.mem_singleton.mp ha]
    exact ⟨by decide, by decide⟩
  have hin : Mem.Has (fun k => (commandLine [0x41] [[0x2c, 0x62]]).getD k 0) 0
      (commandLine [0x41] [[0x2c, 0x62]]) := rfl
  have hhanded := hall (fun _ => ⟨some [0x41], true⟩) ⟨[some 0], 1⟩ 0 [0x41] [[0x2c, 0x62]] _ hname
    (by decide) (by decide) hstrings (by decide) rfl hin
  have hplain := readsPlainly_of_handed hname (by decide) (by decide) hstrings hin hhanded
  have hcomma := hplain.begins [0x2c, 0x62] List.mem_cons_self 0x2c rfl
  cases hcomma

end RoundTrip

end BdkRtt.At
