import BdkRtt.Text.ConvUtf8
import Mathlib.Data.List.Count
import Mathlib.Algebra.BigOperators.Group.List.Basic
import Mathlib.Algebra.GroupWithZero.Nat

namespace BdkRtt.Text.ConvUtf8

open Lib

section Characters

/-- The two bytes are a character between B0A1 and F7FE. -/
def IsPair (hi lo : UInt8) : Prop := 0xB0 ≤ hi ∧ hi ≤ 0xF7 ∧ 0xA1 ≤ lo ∧ lo ≤ 0xFE

instance (hi lo : UInt8) : Decidable (IsPair hi lo) := inferInstanceAs (Decidable (_ ∧ _))

inductive GbToken
  | single (b : UInt8)
  | pair (hi lo : UInt8)

def GbToken.isSingle : GbToken → Bool
  | .single _ => true
  | .pair _ _ => false

/-- The string as pairs, wherever one begins, and bytes of their own. -/
def gbTokens : List UInt8 → List GbToken
  | [] => []
  | [b] => [.single b]
  | hi :: lo :: rest =>
    if IsPair hi lo then .pair hi lo :: gbTokens rest else .single hi :: gbTokens (lo :: rest)

/-- The row of a character, 94 of them to each first byte. -/
def gbRow (hi lo : UInt8) : Nat := (hi.toNat - 0xB0) * 94 + (lo.toNat - 0xA1)

def GbToken.row : GbToken → List Nat
  | .single _ => []
  | .pair hi lo => [gbRow hi lo]

def GbToken.utf8 (t : Tables) : GbToken → List UInt8
  | .single b => [b]
  | .pair hi lo => t.utf8 (gbRow hi lo)

/-- A character of a valid string. -/
inductive GbChar
  | ascii (b : UInt8) (h : b ≠ 0 ∧ b < 0x80)
  | hanzi (hi lo : UInt8) (h : IsPair hi lo)

def GbChar.bytes : GbChar → List UInt8
  | .ascii b _ => [b]
  | .hanzi hi lo _ => [hi, lo]

def GbChar.token : GbChar → GbToken
  | .ascii b _ => .single b
  | .hanzi hi lo _ => .pair hi lo

def GbChar.utf8 (t : Tables) (c : GbChar) : List UInt8 := c.token.utf8 t

end Characters

section Law

/-- `conv_utf8` has written what it has allocated and read the input; a valid string has come out
whole. -/
structure ConvRun.Within (t : Tables) (s : NulString) (r : ConvRun) : Prop where
  out : r.out.length ≤ convUtf8Len s
  reads : ∀ k ∈ r.reads, k ≤ s.strlen
  rows : ∀ k ∈ r.rows, k < tGb2312Utf8Rows
  complete : ∀ cs : List GbChar, s.bytes = cs.flatMap GbChar.bytes →
    r.out = cs.flatMap (GbChar.utf8 t) ++ [0]

structure GbResult.Within (s : NulString) (r : GbResult) : Prop where
  writes : ∀ k ∈ r.run.writes, k < s.strlen
  back : r.back ≤ s.strlen + 1
  reads : ∀ k ∈ r.run.reads, k ≤ s.strlen
  lookups : ∀ k ∈ r.run.lookups, 0 ≤ k ∧ k < unicodeToGb2312Rows

/-- Whether there is memory or not, both loops end, and both functions stay in their buffers. -/
structure CharsetLaw (t : Tables) (s : NulString) : Prop where
  conv : ∀ malloc, ∃ r, convUtf8 t s malloc = some r ∧ ∀ run ∈ r, run.Within t s
  back : ∀ malloc, ∃ r, utf8ToGb2312 t s malloc = some r ∧ ∀ result ∈ r, result.Within s

/-- Other than one byte stands by itself, and the table has a row for each pair. -/
structure GbFits (bytes : List UInt8) : Prop where
  singles : (gbTokens bytes).countP GbToken.isSingle ≠ 1
  rows : ∀ hi lo, .pair hi lo ∈ gbTokens bytes → ¬ (hi = 0xF7 ∧ 0xFA ≤ lo)

/-- How many bytes the character that begins with `firstCh` takes. -/
def byteCount (firstCh : UInt8) : Nat :=
  let nbyte := getUtf8ByteNumForWord firstCh
  if 2 ≤ nbyte ∧ nbyte ≤ 6 then nbyte else 1

/-- How many of them are put in its place. -/
def outCount (firstCh : UInt8) : Nat :=
  let nbyte := getUtf8ByteNumForWord firstCh
  if nbyte = 0 then 1 else if nbyte = 2 ∨ nbyte = 3 then 2 else 0

/-- Where the characters begin: their first bytes, and how many bytes are left from there on. -/
def utf8Starts : List UInt8 → List (UInt8 × Nat)
  | [] => []
  | x :: xs => (x, xs.length + 1) :: utf8Starts (xs.drop (byteCount x - 1))
termination_by xs => xs.length
decreasing_by
  rw [List.length_drop, List.length_cons]
  omega

/-- The bytes that the last character lacks. -/
def missing (bytes : List UInt8) : Nat :=
  ((utf8Starts bytes).map fun c => byteCount c.1).sum - bytes.length

/-- The bytes by which the characters become fewer. -/
def saved (bytes : List UInt8) : Nat :=
  ((utf8Starts bytes).map fun c => byteCount c.1 - outCount c.1).sum

/-- More is saved than is missing, and a character of three bytes lacks one at most. -/
structure Utf8Fits (bytes : List UInt8) : Prop where
  saves : missing bytes < saved bytes
  three : ∀ c ∈ utf8Starts bytes, getUtf8ByteNumForWord c.1 = 3 → 2 ≤ c.2

end Law

section Pairs

variable {hi lo : UInt8}

theorem isPair_toNat : IsPair hi lo ↔
    (0xB0 ≤ hi.toNat ∧ hi.toNat ≤ 0xF7) ∧ (0xA1 ≤ lo.toNat ∧ lo.toNat ≤ 0xFE) := by
  rw [and_assoc]
  exact Iff.rfl

/-- The code as sixteen bits, and the gaps between the rows of 94 taken out of it. -/
theorem gbCode_toNat (h : IsPair hi lo) :
    ((hi.toUInt16 <<< 8 + lo.toUInt16) - (0xB0A1 : UInt16) -
      (hi.toUInt16 - (0xB0 : UInt16)) * ((0xA1 : UInt16) + (0x01 : UInt16))).toNat =
      gbRow hi lo := by
  obtain ⟨⟨hhi, hhi'⟩, hlo, hlo'⟩ := isPair_toNat.mp h
  have hshift : (hi.toUInt16 <<< 8).toNat = hi.toNat * 256 := by
    rw [UInt16.toNat_shiftLeft, UInt8.toNat_toUInt16]
    change (hi.toNat <<< 8) % 2 ^ 16 = _
    rw [Nat.shiftLeft_eq]
    omega
  have hcode : ((hi.toUInt16 <<< 8) + lo.toUInt16).toNat = hi.toNat * 256 + lo.toNat := by
    rw [UInt16.toNat_add, hshift, UInt8.toNat_toUInt16]
    omega
  have hdist : ((hi.toUInt16 - 0xB0) * (0xA1 + 0x01)).toNat = (hi.toNat - 0xB0) * 162 := by
    rw [UInt16.toNat_mul, UInt16.toNat_sub, UInt8.toNat_toUInt16]
    change (2 ^ 16 - 0xB0 + hi.toNat) % 2 ^ 16 * 162 % 2 ^ 16 = _
    omega
  have hstart : (0xB0A1 : UInt16).toNat = 0xB0A1 := UInt16.toNat_ofNat_of_lt (by decide)
  have hsub : ((hi.toUInt16 <<< 8 + lo.toUInt16) - (0xB0A1 : UInt16)).toNat =
      hi.toNat * 256 + lo.toNat - 0xB0A1 := by
    rw [UInt16.toNat_sub_of_le, hcode, hstart]
    rw [UInt16.le_iff_toNat_le, hcode, hstart]
    omega
  rw [UInt16.toNat_sub_of_le, hsub, hdist]
  · unfold gbRow
    omega
  · rw [UInt16.le_iff_toNat_le, hsub, hdist]
    omega

theorem convUtf8ForGb2312_pair (h : IsPair hi lo) :
    convUtf8ForGb2312 hi lo = some (gbRow hi lo) := by
  obtain ⟨⟨hhi, hhi'⟩, hlo, hlo'⟩ := isPair_toNat.mp h
  have hfirst : ¬ (hi < 0xB0 ∨ hi > 0xF7) := by
    rintro (hlt | hgt)
    · exact Nat.not_lt.mpr hhi hlt
    · exact Nat.not_lt.mpr hhi' hgt
  have hsecond : ¬ (lo < 0xA1 ∨ lo > 0xFE) := by
    rintro (hlt | hgt)
    · exact Nat.not_lt.mpr hlo hlt
    · exact Nat.not_lt.mpr hlo' hgt
  rw [convUtf8ForGb2312, if_neg hfirst, if_neg hsecond, ← gbCode_toNat h]

theorem convUtf8ForGb2312_none (h : ¬ IsPair hi lo) : convUtf8ForGb2312 hi lo = none := by
  unfold convUtf8ForGb2312
  split
  · rfl
  next hfirst =>
    split
    · rfl
    next hsecond =>
      rw [not_or] at hfirst hsecond
      exact absurd (isPair_toNat.mpr ⟨⟨Nat.not_lt.mp hfirst.1, Nat.not_lt.mp hfirst.2⟩,
        Nat.not_lt.mp hsecond.1, Nat.not_lt.mp hsecond.2⟩) h

/-- The five codes that the table leaves out behind D7F9 are those that it lacks in the end. -/
theorem gbRow_lt (h : IsPair hi lo) :
    gbRow hi lo < tGb2312Utf8Rows ↔ ¬ (hi = 0xF7 ∧ 0xFA ≤ lo) := by
  obtain ⟨⟨hhi, hhi'⟩, hlo, hlo'⟩ := isPair_toNat.mp h
  rw [← UInt8.toNat_inj, UInt8.le_iff_toNat_le]
  change (hi.toNat - 0xB0) * 94 + (lo.toNat - 0xA1) < 6763 ↔
    ¬ (hi.toNat = 0xF7 ∧ 0xFA ≤ lo.toNat)
  omega

theorem gbTokens_pair (h : IsPair hi lo) (rest : List UInt8) :
    gbTokens (hi :: lo :: rest) = .pair hi lo :: gbTokens rest := by
  rw [gbTokens, if_pos h]

theorem not_pair_zero (hi : UInt8) : ¬ IsPair hi 0 := by
  rintro ⟨-, -, h, -⟩
  revert h
  decide

theorem not_pair_ascii (h : hi < 0x80) : ¬ IsPair hi lo := by
  rintro ⟨hle, -⟩
  have hlt := UInt8.lt_of_le_of_lt hle h
  revert hlt
  decide

end Pairs

section ConvLoop

variable {t : Tables} {input : Mem UInt8}

theorem round_pair {s : ConvRun} (h : IsPair (input s.ptr) (input (s.ptr + 1))) :
    s.round t input = {
      ptr := s.ptr + 2
      out := s.out ++ t.utf8 (gbRow (input s.ptr) (input (s.ptr + 1)))
      reads := s.reads ++ [s.ptr, s.ptr, s.ptr + 1]
      rows := s.rows ++ [gbRow (input s.ptr) (input (s.ptr + 1))] } := by
  rw [ConvRun.round, convUtf8ForGb2312_pair h]

theorem round_single {s : ConvRun} (h : ¬ IsPair (input s.ptr) (input (s.ptr + 1))) :
    s.round t input = {
      ptr := s.ptr + 1
      out := s.out ++ [input s.ptr]
      reads := s.reads ++ [s.ptr, s.ptr, s.ptr + 1] ++ [s.ptr]
      rows := s.rows } := by
  rw [ConvRun.round, convUtf8ForGb2312_none h]

theorem convLoop_round {fuel : Nat} {s : ConvRun} (h : input s.ptr ≠ 0) :
    convLoop t input (fuel + 1) s = convLoop t input fuel (s.round t input) := by
  rw [convLoop, if_neg h]

/-- `r` is where the loop ends that has the string `xs` before it in `s`. -/
structure ConvRun.Ends (t : Tables) (s r : ConvRun) (xs : List UInt8) : Prop where
  out : r.out = s.out ++ (gbTokens xs).flatMap (GbToken.utf8 t) ++ [0]
  rows : r.rows = s.rows ++ (gbTokens xs).flatMap GbToken.row
  reads : ∀ k ∈ r.reads, k ∈ s.reads ∨ k ≤ s.ptr + xs.length

theorem convLoop_nil {fuel : Nat} {s : ConvRun} (h : input s.ptr = 0) :
    ∃ r, convLoop t input fuel s = some r ∧ s.Ends t r [] := by
  refine ⟨s.finish, ?_, ?_, ?_, fun k hk => ?_⟩
  · cases fuel <;> exact if_pos h
  · rw [gbTokens, List.flatMap_nil, List.append_nil]
    rfl
  · rw [gbTokens, List.flatMap_nil, List.append_nil]
    rfl
  · rcases List.mem_append.mp hk with hk | hk
    · exact .inl hk
    · exact .inr (Nat.le_of_eq (List.mem_singleton.mp hk))

/-- A byte of its own in front. -/
theorem ConvRun.Ends.single {s r : ConvRun} {x : UInt8} {xs : List UInt8} (hx : input s.ptr = x)
    (hpair : ¬ IsPair x (input (s.ptr + 1)))
    (htokens : gbTokens (x :: xs) = .single x :: gbTokens xs)
    (h : (s.round t input).Ends t r xs) : s.Ends t r (x :: xs) := by
  rw [round_single (hx ▸ hpair), hx] at h
  refine ⟨?_, ?_, fun k hk => ?_⟩
  · rw [h.out, htokens, List.flatMap_cons]
    simp only [List.append_assoc]
    rfl
  · rw [h.rows, htokens, List.flatMap_cons]
    rfl
  · rw [List.length_cons]
    refine or_iff_not_imp_left.mpr fun hold => ?_
    have hk := h.reads k hk
    simp only [List.mem_append, List.mem_cons, List.not_mem_nil, or_false, hold, false_or] at hk
    omega

/-- A pair in front. -/
theorem ConvRun.Ends.pair {s r : ConvRun} {hi lo : UInt8} {xs : List UInt8}
    (hhi : input s.ptr = hi) (hlo : input (s.ptr + 1) = lo) (hpair : IsPair hi lo)
    (h : (s.round t input).Ends t r xs) : s.Ends t r (hi :: lo :: xs) := by
  subst hhi hlo
  rw [round_pair hpair] at h
  refine ⟨?_, ?_, fun k hk => ?_⟩
  · rw [h.out, gbTokens_pair hpair, List.flatMap_cons]
    simp only [List.append_assoc]
    rfl
  · rw [h.rows, gbTokens_pair hpair, List.flatMap_cons]
    simp only [List.append_assoc]
    rfl
  · rw [List.length_cons, List.length_cons]
    refine or_iff_not_imp_left.mpr fun hold => ?_
    have hk := h.reads k hk
    simp only [List.mem_append, List.mem_cons, List.not_mem_nil, or_false, hold, false_or] at hk
    omega

/-- From the start of a string on, the loop ends behind its last token. -/
theorem convLoop_run {fuel : Nat} {s : ConvRun} {xs : List UInt8} (hfuel : xs.length ≤ fuel)
    (hs : StringAt input s.ptr xs) : ∃ r, convLoop t input fuel s = some r ∧ s.Ends t r xs := by
  induction xs using gbTokens.induct generalizing fuel s with
  | case1 => exact convLoop_nil hs
  | case2 b =>
    obtain ⟨hb, hne, hnul⟩ := hs
    obtain ⟨fuel, rfl⟩ := Nat.exists_eq_add_one_of_ne_zero (Nat.ne_of_gt hfuel)
    have hpair : ¬ IsPair b (input (s.ptr + 1)) := by
      rw [show input (s.ptr + 1) = 0 from hnul]
      exact not_pair_zero b
    have hround : input (s.round t input).ptr = 0 := by
      rw [round_single (hb ▸ hpair)]
      exact hnul
    obtain ⟨r, hr, hends⟩ := @convLoop_nil t _ fuel _ hround
    refine ⟨r, ?_, .single hb hpair rfl hends⟩
    rw [convLoop_round (hb ▸ hne), hr]
  | case3 hi lo rest hpair ih =>
    obtain ⟨hhi, hne, hlo, -, hrest⟩ := hs
    rw [List.length_cons, List.length_cons] at hfuel
    obtain ⟨fuel, rfl⟩ := Nat.exists_eq_add_one_of_ne_zero (Nat.ne_of_gt (Nat.zero_lt_of_lt hfuel))
    have hround : StringAt input (s.round t input).ptr rest := by
      rw [round_pair (by rw [hhi, hlo]; exact hpair)]
      exact hrest
    have hle : rest.length ≤ fuel := by omega
    obtain ⟨r, hr, hends⟩ := ih hle hround
    refine ⟨r, ?_, .pair hhi hlo hpair hends⟩
    rw [convLoop_round (hhi ▸ hne), hr]
  | case4 hi lo rest hpair ih =>
    obtain ⟨hhi, hne, hrest⟩ := hs
    rw [List.length_cons] at hfuel
    obtain ⟨fuel, rfl⟩ := Nat.exists_eq_add_one_of_ne_zero (Nat.ne_of_gt (Nat.zero_lt_of_lt hfuel))
    have hpair' : ¬ IsPair hi (input (s.ptr + 1)) := hrest.1 ▸ hpair
    have hround : StringAt input (s.round t input).ptr (lo :: rest) := by
      rw [round_single (hhi ▸ hpair')]
      exact hrest
    obtain ⟨r, hr, hends⟩ := ih (Nat.le_of_succ_le_succ hfuel) hround
    refine ⟨r, ?_, .single hhi hpair' (by rw [gbTokens, if_neg hpair]) hends⟩
    rw [convLoop_round (hhi ▸ hne), hr]

end ConvLoop

section Conv

variable {t : Tables} {s : NulString}

def singles (bytes : List UInt8) : Nat := (gbTokens bytes).countP GbToken.isSingle

def pairs (bytes : List UInt8) : Nat := (gbTokens bytes).countP fun x => !x.isSingle

/-- A pair is two bytes of the string and three of the output, any other byte one of both. -/
theorem length_eq (bytes : List UInt8) : bytes.length = 2 * pairs bytes + singles bytes ∧
    ((gbTokens bytes).flatMap (GbToken.utf8 t)).length = 3 * pairs bytes + singles bytes := by
  induction bytes using gbTokens.induct with
  | case1 => exact ⟨rfl, rfl⟩
  | case2 b => exact ⟨rfl, rfl⟩
  | case3 hi lo rest hpair ih =>
    simp only [pairs, singles, gbTokens_pair hpair, List.flatMap_cons, List.length_append,
      List.length_cons, List.countP_cons, GbToken.isSingle, GbToken.utf8, Tables.utf8] at ih ⊢
    simp only [List.length_nil, Bool.not_false, Bool.false_eq_true, if_true, if_false]
    omega
  | case4 hi lo rest hpair ih =>
    simp only [pairs, singles, gbTokens, if_neg hpair, List.flatMap_cons, List.length_append,
      List.length_cons, List.countP_cons, GbToken.isSingle, GbToken.utf8] at ih ⊢
    simp only [List.length_nil, Bool.not_true, Bool.false_eq_true, if_true, if_false]
    omega

theorem out_fits (bytes : List UInt8) :
    ((gbTokens bytes).flatMap (GbToken.utf8 t) ++ [0]).length ≤ bytes.length / 2 * 3 + 1 ↔
      singles bytes ≠ 1 := by
  obtain ⟨hlen, hout⟩ := length_eq (t := t) bytes
  rw [List.length_append, hout, hlen, List.length_singleton]
  omega

/-- The tokens of a valid string are its characters. -/
theorem gbTokens_flatMap (cs : List GbChar) :
    gbTokens (cs.flatMap GbChar.bytes) = cs.map GbChar.token := by
  induction cs with
  | nil => rw [List.flatMap_nil, gbTokens, List.map_nil]
  | cons c cs ih =>
    rw [List.flatMap_cons, List.map_cons, ← ih]
    cases c with
    | ascii b h =>
      cases hrest : cs.flatMap GbChar.bytes with
      | nil => rfl
      | cons lo rest => exact if_neg (not_pair_ascii h.2)
    | hanzi hi lo h => exact gbTokens_pair h _

theorem isPair_of_mem {bytes : List UInt8} {hi lo : UInt8} (h : .pair hi lo ∈ gbTokens bytes) :
    IsPair hi lo := by
  induction bytes using gbTokens.induct with
  | case1 => cases h
  | case2 b => cases List.mem_singleton.mp h
  | case3 hi' lo' rest hpair ih =>
    rw [gbTokens_pair hpair] at h
    rcases List.mem_cons.mp h with heq | h
    · cases heq
      exact hpair
    · exact ih h
  | case4 hi' lo' rest hpair ih =>
    rw [gbTokens, if_neg hpair] at h
    rcases List.mem_cons.mp h with heq | h
    · cases heq
    · exact ih h

theorem rows_fit (bytes : List UInt8) :
    (∀ k ∈ (gbTokens bytes).flatMap GbToken.row, k < tGb2312Utf8Rows) ↔
      ∀ hi lo, .pair hi lo ∈ gbTokens bytes → ¬ (hi = 0xF7 ∧ 0xFA ≤ lo) := by
  constructor
  · intro h hi lo hmem
    refine (gbRow_lt (isPair_of_mem hmem)).mp (h _ (List.mem_flatMap.mpr ⟨_, hmem, ?_⟩))
    exact List.mem_singleton_self _
  · intro h k hk
    obtain ⟨token, hmem, hk⟩ := List.mem_flatMap.mp hk
    cases token with
    | single b => cases hk
    | pair hi lo =>
      rw [List.mem_singleton.mp hk]
      exact (gbRow_lt (isPair_of_mem hmem)).mpr (h hi lo hmem)

theorem convUtf8_run (t : Tables) (s : NulString) : ∃ r, convUtf8 t s true = some (some r) ∧
    r.out = (gbTokens s.bytes).flatMap (GbToken.utf8 t) ++ [0] ∧
    r.rows = (gbTokens s.bytes).flatMap GbToken.row ∧ ∀ k ∈ r.reads, k ≤ s.strlen := by
  obtain ⟨r, hr, hends⟩ := convLoop_run (t := t)
    (s := { ptr := 0, out := [], reads := List.range (s.strlen + 1), rows := [] })
    (Nat.le_refl s.strlen) s.stands
  refine ⟨r, ?_, hends.out, hends.rows, fun k hk => ?_⟩
  · rw [convUtf8, if_pos rfl, hr, Option.map_some]
  · rcases hends.reads k hk with hk | hk
    · exact Nat.le_of_lt_succ (List.mem_range.mp hk)
    · exact Nat.le_trans hk (Nat.le_of_eq (Nat.zero_add _))

theorem convUtf8_iff : (∀ malloc, ∃ r, convUtf8 t s malloc = some r ∧ ∀ run ∈ r, run.Within t s) ↔
    GbFits s.bytes := by
  obtain ⟨r, hr, hout, hrows, hreads⟩ := convUtf8_run t s
  constructor
  · intro h
    obtain ⟨r', hr', hwithin⟩ := h true
    obtain rfl := Option.some.inj (hr.symm.trans hr')
    have hin := hwithin r rfl
    exact ⟨(out_fits s.bytes).mp (hout ▸ hin.out), (rows_fit s.bytes).mp (hrows ▸ hin.rows)⟩
  · rintro hfits malloc
    cases malloc
    · exact ⟨none, rfl, fun run hrun => by cases hrun⟩
    refine ⟨some r, hr, fun run hrun => ?_⟩
    obtain rfl := Option.some.inj hrun
    refine ⟨?_, hreads, ?_, fun cs hcs => ?_⟩
    · rw [hout]
      exact (out_fits s.bytes).mpr hfits.singles
    · rw [hrows]
      exact (rows_fit s.bytes).mpr hfits.rows
    · rw [hout, hcs, gbTokens_flatMap, List.flatMap_map]
      rfl

end Conv

section GbRounds

variable {t : Tables} {utf8 : Mem UInt8} {s : GbRun} {len : Nat}

theorem searchFrom_inside (table : Nat → UInt16 × UInt16) (unicodeKey : UInt16) {first last n : Int}
    (hfirst : 0 ≤ first) (hlast : last < n) :
    ∀ k ∈ (searchFrom table unicodeKey first last).2, 0 ≤ k ∧ k < n := by
  induction first, last using searchFrom.induct table unicodeKey with
  | case1 first last h mid row heq =>
    rw [searchFrom, dif_pos h]
    simp only
    rw [if_pos heq]
    intro k hk
    rw [List.mem_singleton.mp hk]
    omega
  | case2 first last h mid row hne hgt ih =>
    rw [searchFrom, dif_pos h]
    simp only
    rw [if_neg hne, if_pos hgt]
    intro k hk
    rcases List.mem_cons.mp hk with rfl | hk
    · omega
    · exact ih hfirst (by omega) k hk
  | case3 first last h mid row hne hgt ih =>
    rw [searchFrom, dif_pos h]
    simp only
    rw [if_neg hne, if_neg hgt]
    intro k hk
    rcases List.mem_cons.mp hk with rfl | hk
    · omega
    · exact ih (by omega) hlast k hk
  | case4 first last h =>
    rw [searchFrom, dif_neg h]
    exact fun k hk => absurd hk List.not_mem_nil

theorem byteCount_pos (x : UInt8) : 0 < byteCount x := by
  simp only [byteCount]
  split <;> omega

theorem outCount_le (x : UInt8) : outCount x ≤ byteCount x := by
  simp only [outCount, byteCount]
  split
  · split <;> omega
  · split <;> split <;> omega

/-- What a round does at a character that begins with `x`. -/
structure GbRun.Moves (x : UInt8) (s s' : GbRun) : Prop where
  i : s'.i = s.i + byteCount x
  j : s'.j = s.j + outCount x
  reads : ∀ k ∈ s'.reads, k ∈ s.reads ∨ k ≤ s.i + 1 ∨
    (getUtf8ByteNumForWord x = 3 ∧ k = s.i + 2)
  third : getUtf8ByteNumForWord x = 3 → s.i + 2 ∈ s'.reads
  kept : ∀ k ∈ s.reads, k ∈ s'.reads
  writes : ∀ k ∈ s'.writes, k ∈ s.writes ∨ k < s'.j
  lookups : ∀ k ∈ s'.lookups, k ∈ s.lookups ∨ (0 ≤ k ∧ k < unicodeToGb2312Rows)

section Cases

variable {x : UInt8}

/-- The lead byte has been read. -/
def GbRun.lead (s : GbRun) : GbRun := { s with reads := s.reads ++ [s.i] }

theorem copyOne_moves (h : getUtf8ByteNumForWord x = 0) : s.Moves x (s.lead.copyOne utf8) where
  i := by simp [GbRun.copyOne, GbRun.lead, byteCount, h]
  j := by simp [GbRun.copyOne, GbRun.lead, outCount, h]
  reads k hk := by
    simp only [GbRun.copyOne, GbRun.lead, List.mem_append, List.mem_singleton] at hk
    grind
  third hthree := by omega
  kept k hk := by simp [GbRun.copyOne, GbRun.lead, hk]
  writes k hk := by
    simp only [GbRun.copyOne, GbRun.lead, GbRun.store, List.mem_append, List.mem_singleton] at hk ⊢
    grind
  lookups k hk := .inl hk

theorem copyTwo_moves (h : getUtf8ByteNumForWord x = 2) : s.Moves x (s.lead.copyTwo utf8) where
  i := by simp [GbRun.copyTwo, GbRun.lead, byteCount, h]
  j := by simp [GbRun.copyTwo, GbRun.lead, outCount, h]
  reads k hk := by
    simp only [GbRun.copyTwo, GbRun.lead, List.mem_append, List.mem_cons, List.not_mem_nil,
      or_false] at hk
    grind
  third hthree := by omega
  kept k hk := by simp [GbRun.copyTwo, GbRun.lead, hk]
  writes k hk := by
    simp only [GbRun.copyTwo, GbRun.lead, GbRun.store, List.mem_append, List.mem_singleton] at hk ⊢
    grind
  lookups k hk := .inl hk

theorem convert_moves (t : Tables) (h : getUtf8ByteNumForWord x = 3) :
    s.Moves x (s.lead.convert t utf8) where
  i := by simp [GbRun.convert, GbRun.lead, byteCount, h]
  j := by simp [GbRun.convert, GbRun.lead, outCount, h]
  reads k hk := by
    simp only [GbRun.convert, GbRun.lead, List.mem_append, List.mem_cons, List.not_mem_nil,
      or_false] at hk
    grind
  third _ := by simp [GbRun.convert, GbRun.lead]
  kept k hk := by simp [GbRun.convert, GbRun.lead, hk]
  writes k hk := by
    simp only [GbRun.convert, GbRun.lead, GbRun.store, List.mem_append, List.mem_singleton] at hk ⊢
    grind
  lookups k hk := by
    rcases List.mem_append.mp hk with hk | hk
    · exact .inl hk
    · exact .inr (searchFrom_inside _ _ (by decide) (by decide) k hk)

theorem skip_moves {n : Nat} (hn : byteCount x = n) (hout : outCount x = 0)
    (h : getUtf8ByteNumForWord x ≠ 3) : s.Moves x { s.lead with i := s.i + n } where
  i := by rw [hn]
  j := by rw [hout]; rfl
  reads k hk := by
    simp only [GbRun.lead, List.mem_append, List.mem_singleton] at hk
    grind
  third hthree := absurd hthree h
  kept k hk := List.mem_append_left _ hk
  writes k hk := .inl hk
  lookups k hk := .inl hk

end Cases

theorem round_moves (t : Tables) (utf8 : Mem UInt8) (s : GbRun) :
    s.Moves (utf8 s.i) (s.round t utf8) := by
  simp only [GbRun.round]
  split
  next hzero => exact copyOne_moves hzero
  next hzero =>
    split
    next htwo => exact copyTwo_moves htwo
    next htwo =>
      split
      next hthree => exact convert_moves t hthree
      next hthree =>
        have hout : outCount (utf8 s.i) = 0 := by
          simp only [outCount]
          rw [if_neg hzero, if_neg (not_or.mpr ⟨htwo, hthree⟩)]
        split
        next hmany =>
          refine skip_moves ?_ hout hthree
          simp only [byteCount]
          rw [if_pos ⟨by omega, hmany.2⟩]
        next hmany =>
          refine skip_moves ?_ hout hthree
          simp only [byteCount]
          rw [if_neg (by omega)]

end GbRounds

section GbLoop

variable {t : Tables} {bytes : List UInt8} {utf8 : Mem UInt8}

/-- `r` is where the loop ends that has `xs` of the string before it in `s`. -/
structure GbRun.Ends (len : Nat) (s r : GbRun) (xs : List UInt8) : Prop where
  j : r.j = s.j + ((utf8Starts xs).map fun c => outCount c.1).sum
  reads : (∀ k ∈ r.reads, k ≤ len) ↔ (∀ k ∈ s.reads, k ≤ len) ∧
    ∀ c ∈ utf8Starts xs, getUtf8ByteNumForWord c.1 = 3 → 2 ≤ c.2
  writes : (∀ k ∈ s.writes, k < s.j) → ∀ k ∈ r.writes, k < r.j
  lookups : (∀ k ∈ s.lookups, 0 ≤ k ∧ k < unicodeToGb2312Rows) →
    ∀ k ∈ r.lookups, 0 ≤ k ∧ k < unicodeToGb2312Rows

theorem GbRun.Ends.refl {len : Nat} (s : GbRun) : s.Ends len s [] where
  j := by rw [utf8Starts, List.map_nil, List.sum_nil, Nat.add_zero]
  reads := by
    rw [utf8Starts]
    exact (and_iff_left fun c hc => absurd hc List.not_mem_nil).symm
  writes := id
  lookups := id

theorem GbRun.Ends.cons {len : Nat} {x : UInt8} {xs : List UInt8} {s s' r : GbRun}
    (hlen : len = s.i + (xs.length + 1)) (hm : s.Moves x s')
    (h : s'.Ends len r (xs.drop (byteCount x - 1))) : s.Ends len r (x :: xs) where
  j := by
    rw [h.j, hm.j, utf8Starts, List.map_cons, List.sum_cons, Nat.add_assoc]
  reads := by
    have hround : (∀ k ∈ s'.reads, k ≤ len) ↔
        (∀ k ∈ s.reads, k ≤ len) ∧ (getUtf8ByteNumForWord x = 3 → 2 ≤ xs.length + 1) := by
      constructor
      · intro hin
        refine ⟨fun k hk => hin k (hm.kept k hk), fun hthree => ?_⟩
        have := hin _ (hm.third hthree)
        omega
      · rintro ⟨hin, hthree⟩ k hk
        rcases hm.reads k hk with hk | hk | ⟨hx, hk⟩
        · exact hin k hk
        · omega
        · have := hthree hx
          omega
    rw [h.reads, hround, utf8Starts, and_assoc]
    refine and_congr_right fun _ => ?_
    constructor
    · rintro ⟨hfirst, hrest⟩ c hc
      rcases List.mem_cons.mp hc with rfl | hc
      · exact hfirst
      · exact hrest c hc
    · intro hall
      exact ⟨hall _ List.mem_cons_self, fun c hc => hall c (List.mem_cons_of_mem _ hc)⟩
  writes hin := h.writes fun k hk => by
    rcases hm.writes k hk with hk | hk
    · have hold := hin k hk
      have hj := hm.j
      omega
    · exact hk
  lookups hin := h.lookups fun k hk => (hm.lookups k hk).elim (hin k) id

theorem gbLoop_run (hs : StringAt utf8 0 bytes) {fuel : Nat} {s : GbRun} {xs : List UInt8}
    (hxs : bytes.drop s.i = xs) (hfuel : xs.length ≤ fuel) :
    ∃ r, gbLoop t utf8 bytes.length fuel s = some r ∧ s.Ends bytes.length r xs := by
  induction xs using utf8Starts.induct generalizing fuel s with
  | case1 =>
    have hle : ¬ s.i < bytes.length := Nat.not_lt.mpr (List.drop_eq_nil_iff.mp hxs)
    refine ⟨s, ?_, .refl s⟩
    cases fuel
    · rw [gbLoop, if_neg hle]
    · rw [gbLoop, if_neg hle]
  | case2 x xs ih =>
    have hx : utf8 s.i = x := Nat.zero_add s.i ▸ hs.drop hxs
    have hlen : bytes.length = s.i + (xs.length + 1) := by
      have hdrop := congrArg List.length hxs
      rw [List.length_drop, List.length_cons] at hdrop
      omega
    rw [List.length_cons] at hfuel
    obtain ⟨fuel, rfl⟩ := Nat.exists_eq_add_one_of_ne_zero (Nat.ne_of_gt (Nat.zero_lt_of_lt hfuel))
    have hm := hx ▸ round_moves t utf8 s
    have hrest : bytes.drop (s.round t utf8).i = xs.drop (byteCount x - 1) := by
      rw [hm.i, ← List.drop_drop, hxs]
      obtain ⟨n, hn⟩ := Nat.exists_eq_add_one_of_ne_zero (Nat.ne_of_gt (byteCount_pos x))
      rw [hn, List.drop_succ_cons, Nat.add_sub_cancel]
    have hle : (xs.drop (byteCount x - 1)).length ≤ fuel := by
      rw [List.length_drop]
      omega
    obtain ⟨r, hr, hends⟩ := ih hrest hle
    refine ⟨r, ?_, .cons hlen hm hends⟩
    rw [gbLoop, if_pos (by omega), hr]

end GbLoop

section Back

variable {t : Tables} {s : NulString} {bytes : List UInt8}

/-- The bytes that are put in place of the characters. -/
def outLen (bytes : List UInt8) : Nat := ((utf8Starts bytes).map fun c => outCount c.1).sum

theorem length_le_byteCount (bytes : List UInt8) :
    bytes.length ≤ ((utf8Starts bytes).map fun c => byteCount c.1).sum := by
  induction bytes using utf8Starts.induct with
  | case1 => exact Nat.zero_le _
  | case2 x xs ih =>
    simp only [utf8Starts, List.map_cons, List.sum_cons, List.length_cons]
    rw [List.length_drop] at ih
    have hpos := byteCount_pos x
    omega

theorem outLen_add_saved (bytes : List UInt8) :
    outLen bytes + saved bytes = ((utf8Starts bytes).map fun c => byteCount c.1).sum := by
  induction bytes using utf8Starts.induct with
  | case1 =>
    rw [outLen, saved, utf8Starts]
    rfl
  | case2 x xs ih =>
    rw [outLen, saved] at ih ⊢
    rw [utf8Starts]
    simp only [List.map_cons, List.sum_cons]
    have hle := outCount_le x
    omega

/-- The terminator still has a place in `temp` when more is saved than is missing. -/
theorem outLen_lt_iff (bytes : List UInt8) :
    outLen bytes < bytes.length ↔ missing bytes < saved bytes := by
  have hlen := length_le_byteCount bytes
  have hsum := outLen_add_saved bytes
  rw [missing]
  omega

theorem utf8ToGb2312_run (t : Tables) (s : NulString) (hne : s.bytes ≠ []) (temp : Mem UInt8) :
    ∃ r, utf8ToGb2312 t s (some temp) = some (some r) ∧ r.back = outLen s.bytes + 1 ∧
      ((∀ k ∈ r.run.writes, k < s.strlen) ↔ outLen s.bytes < s.strlen) ∧
      ((∀ k ∈ r.run.reads, k ≤ s.strlen) ↔
        ∀ c ∈ utf8Starts s.bytes, getUtf8ByteNumForWord c.1 = 3 → 2 ≤ c.2) ∧
      ∀ k ∈ r.run.lookups, 0 ≤ k ∧ k < unicodeToGb2312Rows := by
  have hpos : ¬ s.strlen ≤ 0 := fun hle => hne (List.length_eq_zero_iff.mp (Nat.le_zero.mp hle))
  let start : GbRun := {
    i := 0
    j := 0
    temp
    reads := List.range (s.strlen + 1)
    writes := []
    lookups := [] }
  obtain ⟨r, hr, hends⟩ := gbLoop_run (t := t) s.stands (s := start) rfl (Nat.le_refl s.strlen)
  have hj : r.j = outLen s.bytes := hends.j.trans (Nat.zero_add _)
  have hwrites := hends.writes fun k hk => absurd hk List.not_mem_nil
  refine ⟨r.finish s.mem, ?_, congrArg (· + 1) hj, ?_, ?_, ?_⟩
  · rw [utf8ToGb2312, if_neg hpos]
    change (gbLoop t s.mem s.bytes.length s.strlen start).map _ = _
    rw [hr, Option.map_some]
  · rw [← hj]
    constructor
    · intro hin
      exact hin _ (List.mem_append_right _ (List.mem_singleton_self _))
    · intro hlt k hk
      rcases List.mem_append.mp hk with hk | hk
      · exact Nat.lt_trans (hwrites k hk) hlt
      · exact List.mem_singleton.mp hk ▸ hlt
  · refine hends.reads.trans (and_iff_right fun k hk => ?_)
    exact Nat.le_of_lt_succ (List.mem_range.mp hk)
  · exact hends.lookups fun k hk => absurd hk List.not_mem_nil

theorem utf8ToGb2312_iff :
    (∀ malloc, ∃ r, utf8ToGb2312 t s malloc = some r ∧ ∀ result ∈ r, result.Within s) ↔
      s.bytes = [] ∨ Utf8Fits s.bytes := by
  by_cases hne : s.bytes = []
  · refine iff_of_true (fun malloc => ⟨none, ?_, fun result hr => by cases hr⟩) (.inl hne)
    have hzero : s.strlen ≤ 0 := Nat.le_of_eq (List.length_eq_zero_iff.mpr hne)
    unfold utf8ToGb2312
    exact if_pos hzero
  · rw [or_iff_right hne]
    constructor
    · intro h
      obtain ⟨r, hr, -, hwrites, hreads, -⟩ := utf8ToGb2312_run t s hne fun _ => 0
      obtain ⟨r', hr', hwithin⟩ := h (some fun _ => 0)
      obtain rfl := Option.some.inj (hr.symm.trans hr')
      have hin := hwithin r rfl
      exact ⟨(outLen_lt_iff _).mp (hwrites.mp hin.writes), hreads.mp hin.reads⟩
    · intro hfits malloc
      have hlt := (outLen_lt_iff _).mpr hfits.saves
      cases malloc with
      | none =>
        refine ⟨none, ?_, fun result hr => by cases hr⟩
        unfold utf8ToGb2312
        split <;> rfl
      | some temp =>
        obtain ⟨r, hr, hback, hwrites, hreads, hlookups⟩ := utf8ToGb2312_run t s hne temp
        refine ⟨some r, hr, fun result hresult => ?_⟩
        obtain rfl := Option.some.inj hresult
        refine ⟨hwrites.mpr hlt, ?_, hreads.mpr hfits.three, hlookups⟩
        rw [hback]
        exact Nat.succ_le_succ (Nat.le_of_lt hlt)

end Back

section Main

/-- The two conversions of a string stay in their buffers exactly when both conditions are met. -/
theorem charset_law_iff_fits (t : Tables) (s : NulString) :
    CharsetLaw t s ↔ GbFits s.bytes ∧ (s.bytes = [] ∨ Utf8Fits s.bytes) := by
  rw [← convUtf8_iff (t := t), ← utf8ToGb2312_iff (t := t)]
  constructor
  · intro h
    exact ⟨h.conv, h.back⟩
  · rintro ⟨hconv, hback⟩
    exact ⟨hconv, hback⟩

/-- The first row of each table, over and over. -/
def firstRows : Tables where
  tGb2312Utf8 _ := (0xE5, 0x95, 0x8A)
  unicodeToGb2312 _ := (0x4E00, 0xD2BB)

/-- `conv_utf8` takes one byte for this string, and stores two. -/
def letterA : NulString := .ofList [0x61] (List.forall_mem_singleton.mpr (by decide))

theorem not_charset_law_letterA : ¬ CharsetLaw firstRows letterA := by
  intro h
  have hfits := (convUtf8_iff (t := firstRows)).mp h.conv
  exact hfits.singles rfl

end Main

end BdkRtt.Text.ConvUtf8
