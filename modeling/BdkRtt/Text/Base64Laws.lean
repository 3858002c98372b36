import BdkRtt.Text.Base64
import Mathlib.Tactic.IntervalCases

namespace BdkRtt.Text

open Lib

section Symbols

theorem dtable_symbol_nat : ∀ i < 64, dtable (base64Table.getD i 0) = UInt8.ofNat i ∧
    base64Table.getD i 0 ≠ pad := by
  decide +kernel

theorem dtable_symbol {i : UInt8} (hi : i.toNat < 64) : dtable (symbol i) = i := by
  rw [symbol, (dtable_symbol_nat _ hi).1, UInt8.ofNat_toNat]

theorem symbol_ne_pad {i : UInt8} (hi : i.toNat < 64) : symbol i ≠ pad :=
  (dtable_symbol_nat _ hi).2

theorem dtable_pad : dtable pad = 0 := by decide +kernel

theorem dtable_lineFeed : dtable lineFeed = 0x80 := by decide +kernel

theorem ne_foreign {i : UInt8} (hi : i.toNat < 64) : i ≠ 0x80 := by
  rintro rfl
  exact absurd hi (by decide)

/-- The byte is not foreign to the decoder, which reads the index from it. -/
structure Reads (x i : UInt8) : Prop where
  value : dtable x = i
  own : dtable x ≠ 0x80

theorem symbol_reads {i : UInt8} (hi : i.toNat < 64) : Reads (symbol i) i where
  value := dtable_symbol hi
  own := by
    rw [dtable_symbol hi]
    exact ne_foreign hi

theorem pad_reads : Reads pad 0 where
  value := dtable_pad
  own := by
    rw [dtable_pad]
    decide

variable (a b c : UInt8)

theorem masked_lt {m : UInt8} {k : Nat} (hk : k < 8) (hm : m.toNat * 2 ^ k < 64) :
    ((a &&& m) <<< UInt8.ofNat k).toNat < 2 ^ 6 := by
  have hle : (a &&& m).toNat ≤ m.toNat := by
    rw [UInt8.toNat_and]
    exact Nat.and_le_right
  have hmul := Nat.mul_le_mul_right (2 ^ k) hle
  have hof : (UInt8.ofNat k).toNat = k := UInt8.toNat_ofNat_of_lt' (by change _ < 256; omega)
  rw [UInt8.toNat_shiftLeft, hof, Nat.mod_eq_of_lt hk, Nat.shiftLeft_eq]
  exact Nat.lt_of_le_of_lt (Nat.mod_le ..) (by omega)

theorem shifted_lt {k : Nat} (hk : k < 8) (h2 : 2 ≤ k) :
    (a >>> UInt8.ofNat k).toNat < 2 ^ 6 := by
  have hlt := a.toNat_lt
  have hof : (UInt8.ofNat k).toNat = k := UInt8.toNat_ofNat_of_lt' (by change _ < 256; omega)
  rw [UInt8.toNat_shiftRight, hof, Nat.mod_eq_of_lt hk, Nat.shiftRight_eq_div_pow]
  have hpow : 2 ^ 2 ≤ 2 ^ k := Nat.pow_le_pow_right (by decide) h2
  calc a.toNat / 2 ^ k ≤ a.toNat / 2 ^ 2 := Nat.div_le_div_left hpow (by decide)
    _ < 2 ^ 6 := by omega

theorem or_lt {x y : UInt8} (hx : x.toNat < 2 ^ 6) (hy : y.toNat < 2 ^ 6) :
    (x ||| y).toNat < 64 := by
  rw [UInt8.toNat_or]
  exact Nat.or_lt_two_pow hx hy

theorem index_zero : (a >>> 2).toNat < 64 := shifted_lt a (k := 2) (by decide) (by decide)

theorem index_one : (((a &&& 0x03) <<< 4) ||| (b >>> 4)).toNat < 64 :=
  or_lt (masked_lt a (k := 4) (by decide) (by decide))
    (shifted_lt b (k := 4) (by decide) (by decide))

theorem index_two : (((b &&& 0x0f) <<< 2) ||| (c >>> 6)).toNat < 64 :=
  or_lt (masked_lt b (k := 2) (by decide) (by decide))
    (shifted_lt c (k := 6) (by decide) (by decide))

theorem index_three : (c &&& 0x3f).toNat < 64 := by
  rw [UInt8.toNat_and]
  exact Nat.lt_of_le_of_lt Nat.and_le_right (by decide)

theorem index_one_tail : ((a &&& 0x03) <<< 4).toNat < 64 :=
  masked_lt a (k := 4) (by decide) (by decide)

theorem index_two_tail : ((b &&& 0x0f) <<< 2).toNat < 64 :=
  masked_lt b (k := 2) (by decide) (by decide)

end Symbols

section Bits

theorem eq_of_bits {x y : UInt8} (h : ∀ i < 8, x.toBitVec.getLsbD i = y.toBitVec.getLsbD i) :
    x = y :=
  UInt8.eq_of_toBitVec_eq (BitVec.eq_of_getLsbD_eq h)

variable (a b c : UInt8)

/-- The three bytes come back from the indices of their group. -/
theorem first_byte :
    ((a >>> 2) <<< 2) ||| ((((a &&& 0x03) <<< 4) ||| (b >>> 4)) >>> 4) = a := by
  apply eq_of_bits
  intro i hi
  interval_cases i <;> simp

theorem second_byte : ((((a &&& 0x03) <<< 4) ||| (b >>> 4)) <<< 4) |||
    ((((b &&& 0x0f) <<< 2) ||| (c >>> 6)) >>> 2) = b := by
  apply eq_of_bits
  intro i hi
  interval_cases i <;> simp

theorem third_byte : ((((b &&& 0x0f) <<< 2) ||| (c >>> 6)) <<< 6) ||| (c &&& 0x3f) = c := by
  apply eq_of_bits
  intro i hi
  interval_cases i <;> simp

theorem first_byte_tail : ((a >>> 2) <<< 2) ||| (((a &&& 0x03) <<< 4) >>> 4) = a := by
  apply eq_of_bits
  intro i hi
  interval_cases i <;> simp

theorem second_byte_tail : ((((a &&& 0x03) <<< 4) ||| (b >>> 4)) <<< 4) |||
    (((b &&& 0x0f) <<< 2) >>> 2) = b := by
  apply eq_of_bits
  intro i hi
  interval_cases i <;> simp

/-- Padding stands for zero bytes. -/
theorem second_byte_pad : (((a &&& 0x03) <<< 4) <<< 4) ||| ((0 : UInt8) >>> 2) = 0 := by
  apply eq_of_bits
  intro i hi
  interval_cases i <;> simp

theorem third_byte_pad : (((b &&& 0x0f) <<< 2) <<< 6) ||| (0 : UInt8) = 0 := by
  apply eq_of_bits
  intro i hi
  interval_cases i <;> simp

end Bits

section Groups

/-- What a group of four symbols does to the decoder between groups. -/
theorem decode_group {st : DecodeSt} (hst : st.count = 0) {w x y z i j k l : UInt8}
    (hw : Reads w i) (hx : Reads x j) (hy : Reads y k) (hz : Reads z l) :
    ∃ st', [w, x, y, z].foldl decodeStep st = st' ∧ st'.count = 0 ∧ st'.input 2 = y ∧
      st'.input 3 = z ∧ st'.written = st.written ++
        [(i <<< 2) ||| (j >>> 4), (j <<< 4) ||| (k >>> 2), (k <<< 6) ||| l] := by
  refine ⟨_, rfl, ?_⟩
  rw [← hw.value, ← hx.value, ← hy.value, ← hz.value]
  simp [decodeStep, hst, hw.own, hx.own, hy.own, hz.own]

theorem decode_lineFeed (st : DecodeSt) : decodeStep st lineFeed = st :=
  if_pos dtable_lineFeed

end Groups

section Encoded

/-- Induction over a source group by group. -/
theorem group_induction {P : List UInt8 → Prop} (nil : P []) (one : ∀ a, P [a])
    (two : ∀ a b, P [a, b]) (group : ∀ a b c src, P src → P (a :: b :: c :: src)) :
    ∀ src, P src
  | [] => nil
  | [a] => one a
  | [a, b] => two a b
  | a :: b :: c :: src => group a b c src (group_induction nil one two group src)

/-- The groups of a source, the last one perhaps not full. -/
def groups (n : Nat) : Nat := (n + 2) / 3

theorem encodeFrom_group (lineLen : Nat) (a b c : UInt8) (src : List UInt8) :
    encodeFrom lineLen (a :: b :: c :: src) =
      [symbol (a >>> 2), symbol (((a &&& 0x03) <<< 4) ||| (b >>> 4)),
        symbol (((b &&& 0x0f) <<< 2) ||| (c >>> 6)), symbol (c &&& 0x3f)] ++
      if lineLen + 4 ≥ 72 then lineFeed :: encodeFrom 0 src else encodeFrom (lineLen + 4) src := by
  rw [encodeFrom]
  split <;> rfl

theorem encodeFrom_nil (lineLen : Nat) :
    encodeFrom lineLen [] = if lineLen ≠ 0 then [lineFeed] else [] := by
  rw [encodeFrom, encodeTail]
  simp

theorem encodeFrom_one (lineLen : Nat) (a : UInt8) :
    encodeFrom lineLen [a] =
      [symbol (a >>> 2), symbol ((a &&& 0x03) <<< 4), pad, pad] ++ [lineFeed] := by
  rw [encodeFrom, encodeTail]
  · rfl
  · simp

theorem encodeFrom_two (lineLen : Nat) (a b : UInt8) :
    encodeFrom lineLen [a, b] =
      [symbol (a >>> 2), symbol (((a &&& 0x03) <<< 4) ||| (b >>> 4)),
        symbol ((b &&& 0x0f) <<< 2), pad] ++ [lineFeed] := by
  rw [encodeFrom, encodeTail]
  · rfl
  · simp

theorem groups_succ (a b c : UInt8) (src : List UInt8) :
    groups (a :: b :: c :: src).length = groups src.length + 1 := by
  simp only [groups, List.length_cons]
  omega

/-- Every group is four symbols, and every line of eighteen groups has a line feed. -/
theorem length_encodeFrom (src : List UInt8) {j : Nat} (hj : j < 18) :
    (encodeFrom (4 * j) src).length =
      4 * groups src.length + (j + groups src.length + 17) / 18 := by
  induction src using group_induction generalizing j with
  | nil =>
    rw [encodeFrom_nil]
    split
    · simp only [groups, List.length_nil, List.length_singleton]
      omega
    · simp only [groups, List.length_nil]
      omega
  | one a =>
    rw [encodeFrom_one]
    simp only [groups, List.length_append, List.length_cons, List.length_nil]
    omega
  | two a b =>
    rw [encodeFrom_two]
    simp only [groups, List.length_append, List.length_cons, List.length_nil]
    omega
  | group a b c src ih =>
    rw [encodeFrom_group, List.length_append, groups_succ]
    split
    · have h := ih (j := 0) (by omega)
      rw [Nat.mul_zero] at h
      simp only [List.length_cons, List.length_nil, h]
      omega
    · have h := ih (j := j + 1) (by omega)
      rw [Nat.mul_add] at h
      simp only [List.length_cons, List.length_nil, h]
      omega

theorem symbolCount_append (xs ys : List UInt8) :
    symbolCount (xs ++ ys) = symbolCount xs + symbolCount ys := by
  rw [symbolCount, List.filter_append, List.length_append]
  rfl

theorem symbolCount_of_symbols {xs : List UInt8} (h : ∀ x ∈ xs, dtable x ≠ 0x80) :
    symbolCount xs = xs.length := by
  rw [symbolCount, List.filter_eq_self.mpr]
  intro x hx
  exact decide_eq_true (h x hx)

/-- Four symbols and a line feed, or none. -/
theorem symbolCount_four {w x y z i j k l : UInt8} (hw : Reads w i) (hx : Reads x j)
    (hy : Reads y k) (hz : Reads z l) : symbolCount [w, x, y, z] = 4 := by
  rw [symbolCount_of_symbols]
  · rfl
  · simp [hw.own, hx.own, hy.own, hz.own]

theorem symbolCount_lineFeed : symbolCount [lineFeed] = 0 := by
  simp [symbolCount, dtable_lineFeed]

theorem symbolCount_encodeFrom (lineLen : Nat) (src : List UInt8) :
    symbolCount (encodeFrom lineLen src) = 4 * groups src.length := by
  induction src using group_induction generalizing lineLen with
  | nil =>
    rw [encodeFrom_nil]
    split
    · exact symbolCount_lineFeed
    · rfl
  | one a =>
    rw [encodeFrom_one, symbolCount_append, symbolCount_lineFeed,
      symbolCount_four (symbol_reads (index_zero a)) (symbol_reads (index_one_tail a)) pad_reads
        pad_reads]
    simp [groups]
  | two a b =>
    rw [encodeFrom_two, symbolCount_append, symbolCount_lineFeed,
      symbolCount_four (symbol_reads (index_zero a)) (symbol_reads (index_one a b))
        (symbol_reads (index_two_tail b)) pad_reads]
    simp [groups]
  | group a b c src ih =>
    rw [encodeFrom_group, symbolCount_append, groups_succ,
      symbolCount_four (symbol_reads (index_zero a)) (symbol_reads (index_one a b))
        (symbol_reads (index_two b c)) (symbol_reads (index_three c))]
    split
    · rw [← List.singleton_append, symbolCount_append, symbolCount_lineFeed, ih]
      omega
    · rw [ih]
      omega

/-- The zero bytes that padding stands for. -/
def padding (n : Nat) : Nat := (3 - n % 3) % 3

/-- What the decoder has between groups, when the source `src` has gone through since `st`. -/
structure Decodes (st st' : DecodeSt) (src : List UInt8) : Prop where
  count : st'.count = 0
  written : st'.written = st.written ++ (src ++ List.replicate (padding src.length) 0)
  idle : src = [] → st' = st
  one : src ≠ [] → (st'.input 2 = pad ↔ src.length % 3 = 1)
  two : src ≠ [] → (st'.input 3 = pad ↔ src.length % 3 ≠ 0)

theorem Decodes.nil {st : DecodeSt} (hst : st.count = 0) : Decodes st st [] where
  count := hst
  written := (List.append_nil _).symm
  idle _ := rfl
  one h := absurd rfl h
  two h := absurd rfl h

/-- A full group in front of what goes through later. -/
theorem Decodes.group {st mid st' : DecodeSt} {a b c : UInt8} {src : List UInt8}
    (hwritten : mid.written = st.written ++ [a, b, c]) (hone : mid.input 2 ≠ pad)
    (htwo : mid.input 3 ≠ pad) (h : Decodes mid st' src) :
    Decodes st st' (a :: b :: c :: src) := by
  have hlen : (a :: b :: c :: src).length % 3 = src.length % 3 := by
    simp only [List.length_cons]
    omega
  have hpad : padding (a :: b :: c :: src).length = padding src.length := by
    rw [padding, hlen, padding]
  refine ⟨h.count, ?_, fun h => ?_, fun _ => ?_, fun _ => ?_⟩
  · rw [h.written, hwritten, hpad, List.append_assoc]
    rfl
  · cases h
  · rw [hlen]
    rcases eq_or_ne src [] with rfl | hne
    · rw [h.idle rfl]
      exact iff_of_false hone (by decide)
    · exact h.one hne
  · rw [hlen]
    rcases eq_or_ne src [] with rfl | hne
    · rw [h.idle rfl]
      exact iff_of_false htwo (by decide)
    · exact h.two hne

/-- The decoder takes in again what the encoder has put out. -/
theorem foldl_decodeStep_encodeFrom (lineLen : Nat) (src : List UInt8) {st : DecodeSt}
    (hst : st.count = 0) : Decodes st ((encodeFrom lineLen src).foldl decodeStep st) src := by
  induction src using group_induction generalizing lineLen st with
  | nil =>
    rw [encodeFrom_nil]
    split
    · rw [List.foldl_cons, decode_lineFeed]
      exact .nil hst
    · exact .nil hst
  | one a =>
    obtain ⟨st', hfold, hcount, htwo, hthree, hwritten⟩ := decode_group hst
      (symbol_reads (index_zero a)) (symbol_reads (index_one_tail a)) pad_reads pad_reads
    rw [encodeFrom_one, List.foldl_append, hfold, List.foldl_cons, decode_lineFeed]
    refine ⟨hcount, ?_, fun h => ?_, fun _ => iff_of_true htwo rfl, fun _ => iff_of_true hthree ?_⟩
    · rw [List.foldl_nil, hwritten, first_byte_tail, second_byte_pad]
      rfl
    · cases h
    · exact Nat.one_ne_zero
  | two a b =>
    obtain ⟨st', hfold, hcount, htwo, hthree, hwritten⟩ := decode_group hst
      (symbol_reads (index_zero a)) (symbol_reads (index_one a b)) (symbol_reads (index_two_tail b))
      pad_reads
    have hone : st'.input 2 ≠ pad := htwo ▸ symbol_ne_pad (index_two_tail b)
    rw [encodeFrom_two, List.foldl_append, hfold, List.foldl_cons, decode_lineFeed]
    refine ⟨hcount, ?_, fun h => ?_, fun _ => iff_of_false hone ?_,
      fun _ => iff_of_true hthree ?_⟩
    · rw [List.foldl_nil, hwritten, first_byte, second_byte_tail, third_byte_pad]
      rfl
    · cases h
    · exact Nat.succ_succ_ne_one 0
    · exact Nat.succ_ne_zero 1
  | group a b c src ih =>
    obtain ⟨mid, hfold, hcount, htwo, hthree, hwritten⟩ := decode_group hst
      (symbol_reads (index_zero a)) (symbol_reads (index_one a b))
      (symbol_reads (index_two b c)) (symbol_reads (index_three c))
    have hbytes : mid.written = st.written ++ [a, b, c] := by
      rw [hwritten, first_byte, second_byte, third_byte]
    have hrest (l : Nat) := ih l hcount
    have hone : mid.input 2 ≠ pad := htwo ▸ symbol_ne_pad (index_two b c)
    have htwo : mid.input 3 ≠ pad := hthree ▸ symbol_ne_pad (index_three c)
    rw [encodeFrom_group, List.foldl_append, hfold]
    split
    · rw [List.foldl_cons, decode_lineFeed]
      exact .group hbytes hone htwo (hrest 0)
    · exact .group hbytes hone htwo (hrest (lineLen + 4))

theorem Decodes.decoded {st' : DecodeSt} {src : List UInt8} (h : Decodes .start st' src) :
    st'.decoded = src.length := by
  have hlen : st'.written.length = src.length + padding src.length := by
    rw [h.written, List.length_append, List.length_append, List.length_replicate]
    exact Nat.zero_add _
  rcases eq_or_ne src [] with rfl | hne
  · rw [h.idle rfl]
    rfl
  have hpos : 0 < src.length := List.length_pos_iff.mpr hne
  have hone := h.one hne
  have htwo := h.two hne
  have hpad : padding src.length = (3 - src.length % 3) % 3 := rfl
  rw [DecodeSt.decoded, if_pos (by omega)]
  split
  next heq =>
    have := hone.mp heq
    omega
  next hne =>
    have h1 : src.length % 3 ≠ 1 := fun h => hne (hone.mpr h)
    split
    next heq =>
      have := htwo.mp heq
      omega
    next hne' =>
      have h0 : src.length % 3 = 0 := by
        by_contra h
        exact hne' (htwo.mpr h)
      omega

end Encoded

section Bounds

theorem base64CalcEncodeLength_toNat {n : Nat} (hn : 4 * n < 2 ^ 31) :
    (base64CalcEncodeLength (UInt32.ofNat n)).toNat = 4 * n / 3 + 4 + (4 * n / 3 + 4) / 72 + 1 := by
  have hof : (UInt32.ofNat n).toNat = n := UInt32.toNat_ofNat_of_lt' (by change _ < 2 ^ 32; omega)
  simp only [base64CalcEncodeLength, UInt32.toNat_add, UInt32.toNat_div, UInt32.toNat_mul, hof,
    UInt32.reduceToNat]
  rw [Nat.mul_comm n 4, Nat.mod_eq_of_lt (by omega : 4 * n < 2 ^ 32),
    Nat.mod_eq_of_lt (by omega : 4 * n / 3 + 4 < 2 ^ 32)]
  generalize hlen : 4 * n / 3 + 4 = len
  rw [Nat.mod_eq_of_lt (by omega : len + len / 72 < 2 ^ 32), Nat.mod_eq_of_lt (by omega)]

theorem length_le_calc {src : List UInt8} (hsrc : 4 * src.length < 2 ^ 31) :
    (encodeFrom 0 src).length + 1 ≤
      (base64CalcEncodeLength (UInt32.ofNat src.length)).toNat := by
  have hlen := length_encodeFrom src (j := 0) (by omega)
  rw [Nat.mul_zero] at hlen
  rw [hlen, base64CalcEncodeLength_toNat hsrc, groups]
  omega

/-- Three bytes are written for every four symbols. -/
theorem length_written (src : List UInt8) {st : DecodeSt} (hst : st.count < 4) :
    4 * (src.foldl decodeStep st).written.length + 3 * (src.foldl decodeStep st).count =
      4 * st.written.length + 3 * (st.count + symbolCount src) := by
  induction src generalizing st with
  | nil => rfl
  | cons b src ih =>
    rw [List.foldl_cons]
    rcases eq_or_ne (dtable b) 0x80 with hb | hb
    · have hcount : symbolCount (b :: src) = symbolCount src := by simp [symbolCount, hb]
      rw [decodeStep, if_pos hb, hcount]
      exact ih hst
    · have hcount : symbolCount (b :: src) = symbolCount src + 1 := by simp [symbolCount, hb]
      have hstep : (decodeStep st b).count < 4 ∧
          4 * (decodeStep st b).written.length + 3 * (decodeStep st b).count =
            4 * st.written.length + 3 * (st.count + 1) := by
        rw [decodeStep, if_neg hb]
        by_cases hfull : st.count + 1 = 4
        · rw [if_pos hfull]
          simp only [List.length_append, List.length_cons, List.length_nil]
          omega
        · rw [if_neg hfull]
          exact ⟨by simp only; omega, rfl⟩
      rw [ih hstep.1, hcount]
      omega

/-- What the decoder writes fits in the length calculated for it. -/
theorem length_decode_le (zalloc out : Bool) (src : List UInt8) :
    (base64Decode zalloc out src).out.length ≤ base64CalcDecodeLength true src := by
  unfold base64Decode
  split
  · split
    · exact Nat.zero_le _
    next heq =>
      split
      · have hwritten := length_written src (show DecodeSt.start.count < 4 from Nat.zero_lt_succ 3)
        rw [base64CalcDecodeLength, if_pos rfl, if_neg heq]
        simp only [DecodeSt.start, List.length_nil] at hwritten ⊢
        omega
      · exact Nat.zero_le _
  · exact Nat.zero_le _

end Bounds

theorem base64Encode_text (src : List UInt8) : (base64Encode true src).text = encodeFrom 0 src := by
  simp [Base64Result.text, base64Encode]

theorem base64Decode_encodeFrom (src : List UInt8) :
    base64Decode true true (encodeFrom 0 src) =
      { ret := 1
        out := src ++ List.replicate (padding src.length) 0
        outLen := some src.length } := by
  have h := foldl_decodeStep_encodeFrom 0 src (show DecodeSt.start.count = 0 from rfl)
  have hcount : symbolCount (encodeFrom 0 src) % 4 = 0 := by
    rw [symbolCount_encodeFrom]
    exact Nat.mul_mod_right ..
  have hwritten : ((encodeFrom 0 src).foldl decodeStep .start).written =
      src ++ List.replicate (padding src.length) 0 := h.written
  simp only [base64Decode, if_true, hcount, ne_eq, not_true_eq_false, if_false, hwritten, h.decoded]

/-- With the table a text decodes to the source it was encoded from and without it to nothing;
encoder and decoder stay within the lengths that are calculated for them. -/
theorem base64_round_trip (x : List UInt8) (hx : 4 * x.length < 2 ^ 31) :
    (base64Encode true x).ret = 1 ∧
    (base64Encode true x).out = (base64Encode true x).text ++ [0] ∧
    (base64Encode true x).outLen = some (base64Encode true x).text.length ∧
    (base64Encode true x).out.length ≤
      (base64CalcEncodeLength (UInt32.ofNat x.length)).toNat ∧
    (base64Decode true true (base64Encode true x).text).ret = 1 ∧
    (base64Decode true true (base64Encode true x).text).text = x ∧
    (∀ out src, base64Decode false out src = { ret := 0, out := [], outLen := some 0 }) ∧
    ∀ zalloc out src,
      (base64Decode zalloc out src).out.length ≤ base64CalcDecodeLength true src := by
  rw [base64Encode_text, base64Decode_encodeFrom]
  refine ⟨rfl, rfl, rfl, ?_, rfl, ?_, fun _ _ => rfl, length_decode_le⟩
  · have := length_le_calc hx
    simpa [base64Encode] using this
  · simp [Base64Result.text]

theorem base64_round_trip_man : (base64Encode true [77, 97, 110, 77]).text =
      [84, 87, 70, 117, 84, 81, 61, 61, 10] ∧
    (base64Decode true true (base64Encode true [77, 97, 110, 77]).text).text = [77, 97, 110, 77] :=
  ⟨by decide +kernel, (base64_round_trip [77, 97, 110, 77] (by decide)).2.2.2.2.2.1⟩

/-- Without memory for its table the decoder gives up, and so does the calculation of the
length that another call would then need. -/
theorem base64_no_table : (base64Decode false true (base64Encode true [77]).text).ret = 0 ∧
    (base64Decode false true (base64Encode true [77]).text).text ≠ [77] ∧
    base64CalcDecodeLength false (base64Encode true [77]).text <
      (base64Decode true true (base64Encode true [77]).text).out.length := by
  decide +kernel

end BdkRtt.Text
