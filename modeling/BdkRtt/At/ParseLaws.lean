import BdkRtt.At.Parse

namespace BdkRtt.At

open Lib

section Scan

/-- The arguments of a line so far: those that are closed, the one that is open, and the flags. -/
structure Line where
  closed : List (List UInt8)
  cur : Option (List UInt8)
  isD : Nat
  limQ : Bool

def Line.args (t : Line) : List (List UInt8) := t.closed ++ t.cur.toList

def Line.close (t : Line) : Line := { t with closed := t.args, cur := none }

/-- A further byte of the open argument; behind a closed one it is lost. -/
def Line.push (t : Line) (x : UInt8) : Line := { t with cur := t.cur.map (· ++ [x]) }

def Line.begin (t : Line) (x : UInt8) : Line :=
  { t with cur := some [x], limQ := false, isD := if t.isD = 1 then 2 else t.isD }

/-- What a round makes of the rest of the line. -/
inductive ScanRound
  | fail (ret : Nat)
  | done
  | next (t : Line) (rest : List UInt8)

/-- An escaped byte, which must not be the last of the line. -/
def scanEscape (t : Line) : List UInt8 → ScanRound
  | x :: y :: rest => .next (t.push x) (y :: rest)
  | _ => .fail 6

def scanRound (t : Line) : List UInt8 → ScanRound
  | [] => .fail 7
  | c :: rest =>
    if c = 0 then if t.args = [] ∨ t.isD = 1 ∨ t.limQ then .fail 2 else .done
    else if c = 0x3d then
      if t.args.length = 1 then .next { t.close with isD := 1 } rest
      else if t.args = [] then .fail 4
      else .next (t.push c) rest
    else if c = 0x5c then scanEscape t rest
    else if c = 0x2c then
      if t.isD = 1 ∧ t.args.length = 1 then .fail 5
      else if t.cur.isSome then .next { t.close with limQ := true } rest
      else .next t rest
    else if t.cur.isSome then .next (t.push c) rest
    else .next (t.begin c) rest

/-- How the line ends: in an error, or with a rest that is not looked at any more. -/
inductive ScanEnd
  | fail (ret : Nat) (t : Line)
  | behind (t : Line) (rest : List UInt8)

def ScanEnd.line : ScanEnd → Line
  | .fail _ t | .behind t _ => t

/-- The line read as a list, one character a round. -/
def scan : Nat → Line → List UInt8 → ScanEnd
  | 0, t, rest => .behind t rest
  | n + 1, t, rest =>
    match scanRound t rest with
    | .fail ret => .fail ret t
    | .done => .behind t rest
    | .next t rest => scan n t rest

def scanLine (raw : List UInt8) : ScanEnd := scan atsvrInputBuffMaxSize ⟨[], none, 0, false⟩ raw

end Scan

section Tracks

/-- An argument that stands in the buffer below `i`, with its terminator. -/
def Stands (m : Mem UInt8) (i p : Nat) (a : List UInt8) : Prop :=
  p + a.length < i ∧ m.Has p (a ++ [0])

/-- An argument whose last byte stands in front of `i`. -/
def Ends (m : Mem UInt8) (i p : Nat) (a : List UInt8) : Prop := p + a.length = i ∧ m.Has p a

/-- The pointers stored are those of the arguments. -/
def Points (m : Mem UInt8) (i : Nat) (argv : List Nat) (t : Line) : Prop :=
  ∃ ps qs, argv = ps ++ qs ∧ List.Forall₂ (Stands m i) ps t.closed ∧
    List.Forall₂ (Ends m i) qs t.cur.toList

/-- The buffer as the reader of the list has it: the arguments in front of `i`, the rest from there
on, and behind it copies of `last`, the last byte of the line, that the escapes have left. -/
structure Rests (len : Nat) (last : UInt8) (s : Parse) (t : Line) (rest : List UInt8) : Prop where
  inside : s.i + rest.length ≤ len
  has : s.inbuf.Has s.i rest
  points : Points s.inbuf s.i s.argv t
  stale : ∀ j, s.i + rest.length ≤ j → j < len → s.inbuf j = last
  lastIs : rest ≠ [] → rest.getLast? = some last
  lastNot : rest = [] → last ≠ 0
  touched : ∀ a ∈ s.touched, a.1 + a.2 ≤ len

/-- The parser in the buffer is at the same place as the reader of the list. -/
structure Tracks (len : Nat) (last : UInt8) (s : Parse) (t : Line) (rest : List UInt8) : Prop
    extends Rests len last s t rest where
  offset : s.offset + rest.length = len
  behind : s.i ≤ s.offset
  inArg : s.inArg = t.cur.isSome
  isD : s.isD = t.isD
  limQ : s.limQ = t.limQ

variable {m m' : Mem UInt8} {i len : Nat} {last : UInt8} {argv : List Nat} {s : Parse} {t : Line}
  {rest : List UInt8}

theorem Stands.mono {p j : Nat} {a : List UInt8} (h : Stands m i p a) (hij : i ≤ j)
    (hm : ∀ k < i, m' k = m k) : Stands m' j p a := by
  refine ⟨Nat.lt_of_lt_of_le h.1 hij, ?_⟩
  have hlt := h.1
  rw [Mem.Has, Mem.read_congr fun k _ hk => hm k ?_]
  · exact h.2
  · simp only [List.length_append, List.length_singleton] at hk
    omega

theorem Points.length (h : Points m i argv t) : argv.length = t.args.length := by
  obtain ⟨ps, qs, rfl, hclosed, hcur⟩ := h
  rw [Line.args, List.length_append, List.length_append, hclosed.length_eq, hcur.length_eq]

/-- With the next byte behind it the open argument goes on. -/
theorem Points.push (h : Points m i argv t) (hm : ∀ k < i, m' k = m k) :
    Points m' (i + 1) argv (t.push (m' i)) := by
  obtain ⟨ps, qs, rfl, hclosed, hcur⟩ := h
  refine ⟨ps, qs, rfl, hclosed.imp fun p a hp => hp.mono (Nat.le_succ i) hm, ?_⟩
  rw [Line.push]
  cases hopen : t.cur with
  | none =>
    rw [hopen] at hcur
    cases hcur
    exact .nil
  | some a =>
    rw [hopen] at hcur
    obtain ⟨p, _, ⟨hend, hhas⟩, hnil, rfl⟩ := List.forall₂_cons_right_iff.mp hcur
    cases hnil
    refine .cons ⟨?_, Mem.has_append.mpr ⟨?_, ?_⟩⟩ .nil
    · rw [List.length_append, List.length_singleton, ← Nat.add_assoc, hend]
    · rw [Mem.Has, Mem.read_congr fun k _ hk => hm k (by omega)]
      exact hhas
    · rw [hend]
      exact Mem.has_singleton.mpr rfl

theorem Points.begin (h : Points m i argv t) (hcur : t.cur = none) :
    Points m (i + 1) (argv ++ [i]) (t.begin (m i)) := by
  obtain ⟨ps, qs, rfl, hclosed, hopen⟩ := h
  rw [hcur] at hopen
  cases hopen
  refine ⟨ps, [i], by rw [List.append_nil],
    hclosed.imp fun p a hp => hp.mono (Nat.le_succ i) fun _ _ => rfl, .cons ⟨rfl, ?_⟩ .nil⟩
  exact Mem.has_singleton.mpr rfl

/-- A terminator closes the open argument. -/
theorem Points.close (h : Points m i argv t) :
    Points (Function.update m i 0) (i + 1) argv t.close := by
  obtain ⟨ps, qs, rfl, hclosed, hcur⟩ := h
  have hbelow (k : Nat) (hk : k < i) : Function.update m i 0 k = m k :=
    Function.update_of_ne (Nat.ne_of_lt hk) ..
  refine ⟨ps ++ qs, [], by rw [List.append_nil], List.rel_append
    (hclosed.imp fun p a hp => hp.mono (Nat.le_succ i) hbelow) (hcur.imp ?_), .nil⟩
  rintro p a ⟨hend, hhas⟩
  refine ⟨by omega, Mem.has_append.mpr ⟨?_, ?_⟩⟩
  · rw [Mem.Has, Mem.read_congr fun k _ hk => hbelow k (by omega)]
    exact hhas
  · rw [hend]
    exact Mem.has_singleton.mpr (Function.update_self ..)

theorem Points.keep (h : Points m i argv t) (hcur : t.cur = none) : Points m (i + 1) argv t := by
  obtain ⟨ps, qs, rfl, hclosed, hopen⟩ := h
  rw [hcur] at hopen
  refine ⟨ps, qs, rfl, hclosed.imp fun p a hp => hp.mono (Nat.le_succ i) fun _ _ => rfl, ?_⟩
  rw [hcur]
  cases hopen
  exact .nil

/-- A round that takes one byte off the rest, and changes that one at most. -/
theorem Tracks.advance {c : UInt8} {t' : Line} {argv' : List Nat} {inArg' limQ' : Bool}
    {isD' : Nat} (h : Tracks len last s t (c :: rest)) (hc : c ≠ 0)
    (hm : ∀ k, k ≠ s.i → m' k = s.inbuf k) (hpoints : Points m' (s.i + 1) argv' t')
    (hin : inArg' = t'.cur.isSome) (hisD : isD' = t'.isD) (hlimQ : limQ' = t'.limQ) :
    Tracks len last ⟨m', argv', inArg', isD', limQ', s.i + 1, s.offset + 1,
      s.touched ++ [(s.i, 1)]⟩ t' rest := by
  have hoffset := h.offset
  have hbehind := h.behind
  rw [List.length_cons] at hoffset
  refine ⟨⟨by dsimp only; omega, ?_, hpoints, ?_, ?_, ?_, ?_⟩, by dsimp only; omega,
    Nat.succ_le_succ hbehind, hin, hisD, hlimQ⟩
  · rw [Mem.Has, Mem.read_congr fun k hk _ => hm k (by dsimp only at hk; omega)]
    exact (Mem.has_cons.mp h.has).2
  · intro j hj hlt
    dsimp only at hj ⊢
    rw [hm j (by omega)]
    exact h.stale j (by rw [List.length_cons]; omega) hlt
  · intro hne
    rw [← h.lastIs (List.cons_ne_nil c rest), List.getLast?_cons_of_ne_nil hne]
  · rintro rfl
    obtain rfl : c = last := Option.some.inj (h.lastIs (List.cons_ne_nil c []))
    exact hc
  · intro a ha
    rcases List.mem_append.mp ha with ha | ha
    · exact h.touched a ha
    · rw [List.mem_singleton.mp ha]
      dsimp only
      omega

/-- A round that takes an escape off the rest: the bytes behind the backslash move up. -/
theorem Tracks.escape {c x y : UInt8} (h : Tracks len last s t (c :: x :: y :: rest)) :
    Tracks len last ⟨s.inbuf.write s.i (x :: y :: rest), s.argv, s.inArg, s.isD, s.limQ, s.i + 1,
      s.offset + 2, s.touched ++ [(s.i, 1)] ++
        [(s.i + 1, (x :: y :: rest).length), (s.i, (x :: y :: rest).length)]⟩
      (t.push x) (y :: rest) := by
  have hoffset := h.offset
  have hbehind := h.behind
  simp only [List.length_cons] at hoffset
  have hself : (s.inbuf.write s.i (x :: y :: rest)).Has s.i (x :: y :: rest) :=
    Mem.has_write_self ..
  obtain ⟨hx, hrest⟩ := Mem.has_cons.mp hself
  refine ⟨⟨by simp only [List.length_cons]; omega, hrest, ?_, ?_, ?_,
    fun hnil => absurd hnil (List.cons_ne_nil y rest), ?_⟩, by simp only [List.length_cons]; omega,
    by dsimp only; omega, ?_, h.isD, h.limQ⟩
  · have hbelow (k : Nat) (hk : k < s.i) : s.inbuf.write s.i (x :: y :: rest) k = s.inbuf k :=
      Mem.write_apply_of_lt _ _ hk
    have hpush := h.points.push hbelow
    rw [hx] at hpush
    exact hpush
  · intro j hj hlt
    simp only [List.length_cons] at hj ⊢
    rw [Mem.write_apply_of_ge _ (by simp only [List.length_cons]; omega)]
    rcases Nat.eq_or_lt_of_le hj with rfl | hlt'
    · have hlast := h.lastIs (List.cons_ne_nil _ _)
      rw [List.getLast?_eq_getElem?] at hlast
      have hplace := Mem.Has.apply_of_getElem? h.has hlast
      simp only [List.length_cons] at hplace
      rw [← hplace]
      congr 1
      omega
    · exact h.stale j (by simp only [List.length_cons]; omega) hlt
  · intro _
    rw [← h.lastIs (List.cons_ne_nil _ _)]
    rfl
  · intro a ha
    rcases List.mem_append.mp ha with ha | ha
    · rcases List.mem_append.mp ha with ha | ha
      · exact h.touched a ha
      · rw [List.mem_singleton.mp ha]
        dsimp only
        omega
    · simp only [List.mem_cons, List.not_mem_nil, or_false, List.length_cons] at ha
      rcases ha with rfl | rfl
      · dsimp only
        omega
      · dsimp only
        omega
  · dsimp only
    rw [h.inArg, Line.push, Option.isSome_map]

/-- A round of the parser and one of the reader go the same way. -/
def Agrees (len : Nat) (last : UInt8) (t : Line) (rest : List UInt8) : Round → ScanRound → Prop
  | .fail ret s, .fail ret' =>
    ret = ret' ∧ s.argc = t.args.length ∧ ∀ a ∈ s.touched, a.1 + a.2 ≤ len
  | .done s, .done => Rests len last s t rest
  | .next s, .next t rest' => Tracks len last { s with i := s.i + 1 } t rest'
  | _, _ => False

/-- The parser when it has read its byte. -/
def Parse.looked (s : Parse) : Parse :=
  { s with offset := s.offset + 1, touched := s.touched ++ [(s.i, 1)] }

section Cases

variable {c : UInt8} (h : Tracks len last s t (c :: rest))

include h

theorem Tracks.argc : s.looked.argc = t.args.length := h.points.length

theorem Tracks.argc_eq_zero : s.looked.argc = 0 ↔ t.args = [] := by
  rw [h.argc, List.length_eq_zero_iff]

theorem Tracks.looked_touched : ∀ a ∈ s.looked.touched, a.1 + a.2 ≤ len := by
  intro a ha
  rcases List.mem_append.mp ha with ha | ha
  · exact h.touched a ha
  · have hoffset := h.offset
    have hbehind := h.behind
    rw [List.length_cons] at hoffset
    rw [List.mem_singleton.mp ha]
    dsimp only
    omega

theorem Tracks.place : s.inbuf s.i = c := (Mem.has_cons.mp h.has).1

/-- The byte stays and goes on with the open argument, if there is one. -/
theorem Tracks.stay (hc : c ≠ 0) :
    Tracks len last { s.looked with i := s.i + 1 } (t.push c) rest := by
  have hpush := h.points.push fun _ _ => rfl
  rw [h.place] at hpush
  refine h.advance hc (fun _ _ => rfl) hpush ?_ h.isD h.limQ
  rw [Line.push, Option.isSome_map]
  exact h.inArg

/-- A terminator takes the place of the byte. -/
theorem Tracks.terminate (hc : c ≠ 0) {isD' isD'' : Nat} {limQ' limQ'' : Bool}
    (hisD : isD' = isD'') (hlimQ : limQ' = limQ'') :
    Tracks len last ⟨Function.update s.inbuf s.i 0, s.argv, false, isD', limQ', s.i + 1,
      s.offset + 1, s.touched ++ [(s.i, 1)]⟩ { t.close with isD := isD'', limQ := limQ'' } rest :=
  h.advance hc (fun _ hk => Function.update_of_ne hk ..) h.points.close rfl hisD hlimQ

theorem Tracks.caseEnd : Agrees len last t (c :: rest) (caseEnd s.looked)
    (if t.args = [] ∨ t.isD = 1 ∨ t.limQ then .fail 2 else .done) := by
  have hif : (s.looked.argc = 0 ∨ s.looked.isD = 1 ∨ s.looked.limQ = true) ↔
      (t.args = [] ∨ t.isD = 1 ∨ t.limQ = true) := by
    rw [h.argc_eq_zero]
    exact or_congr_right (or_congr (by rw [← h.isD]; rfl) (by rw [← h.limQ]; rfl))
  rw [At.caseEnd, if_congr hif rfl rfl]
  split
  next => exact ⟨rfl, h.argc, h.looked_touched⟩
  next =>
    exact ⟨h.inside, h.has, h.points, h.stale, h.lastIs, h.lastNot, h.looked_touched⟩

theorem Tracks.caseEqual (hc : c ≠ 0) : Agrees len last t (c :: rest) (caseEqual s.looked)
    (if t.args.length = 1 then .next { t.close with isD := 1 } rest
      else if t.args = [] then .fail 4 else .next (t.push c) rest) := by
  rw [At.caseEqual, h.argc]
  split
  next => exact h.terminate hc rfl h.limQ
  next =>
    simp only [List.length_eq_zero_iff]
    split
    next => exact ⟨rfl, h.argc, h.looked_touched⟩
    next => exact h.stay hc

theorem Tracks.caseComma (hc : c ≠ 0) : Agrees len last t (c :: rest) (caseComma s.looked)
    (if t.isD = 1 ∧ t.args.length = 1 then .fail 5
      else if t.cur.isSome then .next { t.close with limQ := true } rest else .next t rest) := by
  have hif : (s.looked.isD = 1 ∧ s.looked.argc = 1) ↔ (t.isD = 1 ∧ t.args.length = 1) := by
    rw [h.argc]
    exact and_congr_left' (by rw [← h.isD]; rfl)
  have hin : s.looked.inArg = true ↔ t.cur.isSome = true := by
    rw [← h.inArg]
    rfl
  rw [At.caseComma, if_congr hif rfl rfl, if_congr hin rfl rfl]
  split
  next => exact ⟨rfl, h.argc, h.looked_touched⟩
  next =>
    split
    next => exact h.terminate hc h.isD rfl
    next hclosed =>
      have hcur : t.cur = none := Option.not_isSome_iff_eq_none.mp hclosed
      exact h.advance hc (fun _ _ => rfl) (h.points.keep hcur) h.inArg h.isD h.limQ

theorem Tracks.caseDefault (hc : c ≠ 0) : Agrees len last t (c :: rest) (caseDefault s.looked)
    (if t.cur.isSome then .next (t.push c) rest else .next (t.begin c) rest) := by
  have hin : s.looked.inArg = true ↔ t.cur.isSome = true := by
    rw [← h.inArg]
    rfl
  rw [At.caseDefault, if_congr hin rfl rfl]
  split
  next => exact h.stay hc
  next hclosed =>
    have hbegin := h.points.begin (Option.not_isSome_iff_eq_none.mp hclosed)
    rw [h.place] at hbegin
    refine h.advance hc (fun _ _ => rfl) hbegin rfl ?_ rfl
    rw [Line.begin, ← h.isD]
    rfl

theorem Tracks.caseEscape : Agrees len last t (c :: rest) (caseEscape len s.looked)
    (scanEscape t rest) := by
  have hoffset := h.offset
  rw [List.length_cons] at hoffset
  rw [At.caseEscape]
  rcases rest with _ | ⟨x, _ | ⟨y, rest⟩⟩
  · rw [if_pos (by simp only [Parse.looked, List.length_nil] at hoffset ⊢; omega)]
    exact ⟨rfl, h.argc, h.looked_touched⟩
  · rw [if_pos (by simp only [Parse.looked, List.length_singleton] at hoffset ⊢; omega)]
    exact ⟨rfl, h.argc, h.looked_touched⟩
  · simp only [List.length_cons] at hoffset
    rw [if_neg (by simp only [Parse.looked]; omega)]
    have hcount : ((len : Int) - ((s.looked.offset + 1 : Nat) : Int) + 1).toNat =
        (x :: y :: rest).length := by
      simp only [Parse.looked, List.length_cons]
      omega
    have hread : s.inbuf.read (s.i + 1) (x :: y :: rest).length = x :: y :: rest :=
      (Mem.has_cons.mp h.has).2
    rw [hcount]
    change Tracks len last ⟨s.inbuf.write s.i (s.inbuf.read (s.i + 1) (x :: y :: rest).length),
      s.argv, s.inArg, s.isD, s.limQ, s.i + 1, s.offset + 2, _⟩ (t.push x) (y :: rest)
    rw [hread]
    exact h.escape

end Cases

theorem Tracks.round (h : Tracks len last s t rest) :
    Agrees len last t rest (round len s) (scanRound t rest) := by
  cases rest with
  | nil =>
    have hoffset := h.offset
    rw [List.length_nil] at hoffset
    rw [At.round, if_pos (by dsimp only; omega)]
    exact ⟨rfl, h.points.length, h.touched⟩
  | cons c rest =>
    have hoffset := h.offset
    rw [List.length_cons] at hoffset
    have hround : At.round len s =
        if c = 0 then At.caseEnd s.looked
        else if c = 0x3d then At.caseEqual s.looked
        else if c = 0x5c then At.caseEscape len s.looked
        else if c = 0x2c then At.caseComma s.looked
        else At.caseDefault s.looked := by
      rw [At.round, if_neg (by dsimp only; omega), ← h.place]
      rfl
    rw [hround, scanRound]
    by_cases hc : c = 0
    · rw [if_pos hc, if_pos hc]
      exact h.caseEnd
    rw [if_neg hc, if_neg hc]
    split
    next => exact h.caseEqual hc
    next =>
      split
      next => exact h.caseEscape
      next =>
        split
        next => exact h.caseComma hc
        next => exact h.caseDefault hc

/-- The loop ends as the reader does. -/
def EndsAlike (len : Nat) (last : UInt8) : Loop → ScanEnd → Prop
  | .fail ret s, .fail ret' t =>
    ret = ret' ∧ s.argc = t.args.length ∧ ∀ a ∈ s.touched, a.1 + a.2 ≤ len
  | .behind s, .behind t rest => Rests len last s t rest
  | _, _ => False

theorem Tracks.rounds (h : Tracks len last s t rest) (n : Nat) :
    EndsAlike len last (rounds len n s) (scan n t rest) := by
  induction n generalizing s t rest with
  | zero => exact h.toRests
  | succ n ih =>
    have hround := h.round
    rw [At.rounds, scan]
    cases hs : At.round len s <;> cases ht : scanRound t rest <;> rw [hs, ht] at hround
    case fail.fail => exact hround
    case done.done => exact hround
    case next.next => exact ih hround
    all_goals exact hround.elim

variable (m)

/-- The bytes of the line. -/
def rawLine (m : Mem UInt8) (len : Int) : List UInt8 := m.read 0 len.toNat

theorem tracks_init (len : Nat) :
    Tracks len ((m.read 0 len).getLast?.getD 1) ⟨m, [], false, 0, false, 0, 0, []⟩
      ⟨[], none, 0, false⟩ (m.read 0 len) := by
  have hlen := Mem.length_read m 0 len
  refine ⟨⟨by rw [hlen]; exact Nat.le_of_eq (Nat.zero_add len), by rw [Mem.Has, hlen],
    ⟨[], [], rfl, .nil, .nil⟩, fun j hj hlt => ?_, fun hne => ?_, fun hnil => ?_,
    fun a ha => absurd ha List.not_mem_nil⟩, by rw [hlen]; exact Nat.zero_add len, Nat.le_refl 0,
    rfl, rfl, rfl⟩
  · rw [hlen] at hj
    dsimp only at hj
    omega
  · rw [List.getLast?_eq_some_getLast hne]
    rfl
  · rw [hnil]
    decide

/-- The parser in the buffer ends as the reader of the line does. -/
theorem parseInput_ends (len : Int) :
    EndsAlike len.toNat ((rawLine m len).getLast?.getD 1) (parseInput m len)
      (scanLine (rawLine m len)) := by
  rw [rawLine]
  cases len with
  | ofNat n => exact (tracks_init m n).rounds _
  | negSucc n =>
    have hround : At.round (.negSucc n) ⟨m, [], false, 0, false, 0, 0, []⟩ =
        .fail 7 ⟨m, [], false, 0, false, 0, 1, []⟩ := by
      rw [At.round, if_pos (by dsimp only; omega)]
    have hparse : parseInput m (.negSucc n) = .fail 7 ⟨m, [], false, 0, false, 0, 1, []⟩ := by
      rw [parseInput, atsvrInputBuffMaxSize, rounds, hround]
    rw [hparse]
    exact ⟨rfl, rfl, fun a ha => absurd ha List.not_mem_nil⟩

end Tracks

section Safety

/-- What `_atsvr_handle_input` does with the memory it is given: it stays in the buffer and in its
own array, and each argument it passes on is a string that ends in the buffer. -/
structure InputSafe (inbuf : Mem UInt8) (len : Int) : Prop where
  touched : ∀ a ∈ (parseInput inbuf len).parse.touched, a.1 + a.2 ≤ len.toNat
  stored : (parseInput inbuf len).parse.argc ≤ atsvrMaxArg
  argc : ∀ s ∈ passed inbuf len, s.argc < 256
  strings : ∀ s ∈ passed inbuf len, ∀ p ∈ s.argv, ∃ k, p ≤ k ∧ k < len.toNat ∧ s.inbuf k = 0

/-- The line has no more arguments than there is room for, and one that the parser leaves open has
a terminator in the bytes it does not look at. -/
structure LineFits (raw : List UInt8) : Prop where
  few : (scanLine raw).line.args.length ≤ atsvrMaxArg
  ends : ∀ t rest, scanLine raw = .behind t rest → ∀ a ∈ t.cur, 0 ∈ a ++ rest

variable {m : Mem UInt8} {i len : Nat} {last : UInt8} {s : Parse} {t : Line} {rest : List UInt8}

theorem partner_of_mem {α β : Type*} {R : α → β → Prop} {ps : List α} {as : List β}
    (h : List.Forall₂ R ps as) {p : α} (hp : p ∈ ps) : ∃ a ∈ as, R p a := by
  induction h with
  | nil => exact absurd hp List.not_mem_nil
  | @cons q a ps as hq _ ih =>
    rcases List.mem_cons.mp hp with rfl | hp
    · exact ⟨a, List.mem_cons_self, hq⟩
    · obtain ⟨b, hb, hR⟩ := ih hp
      exact ⟨b, List.mem_cons_of_mem _ hb, hR⟩

theorem Rests.argc (h : Rests len last s t rest) : s.argc = t.args.length := h.points.length

theorem Stands.ends {p : Nat} {a : List UInt8} (h : Stands m i p a) :
    ∃ k, p ≤ k ∧ k < i ∧ m k = 0 :=
  ⟨p + a.length, Nat.le_add_right .., h.1, Mem.has_singleton.mp (Mem.has_append.mp h.2).2⟩

/-- A byte of the open argument, or of the rest behind it. -/
theorem Rests.zero_of_mem (h : Rests len last s t rest) {p : Nat} {a : List UInt8}
    (ha : Ends s.inbuf s.i p a) (h0 : 0 ∈ a ++ rest) :
    ∃ k, p ≤ k ∧ k < len ∧ s.inbuf k = 0 := by
  obtain ⟨k, hk⟩ := List.mem_iff_getElem?.mp h0
  have hlt := (List.getElem?_eq_some_iff.mp hk).1
  have hhas : s.inbuf.Has p (a ++ rest) := Mem.has_append.mpr ⟨ha.2, by rw [ha.1]; exact h.has⟩
  have hinside := h.inside
  have hend := ha.1
  rw [List.length_append] at hlt
  exact ⟨p + k, Nat.le_add_right .., by omega, Mem.Has.apply_of_getElem? hhas hk⟩

/-- Behind the rest there is no terminator but where the rest has one. -/
theorem Rests.mem_of_zero (h : Rests len last s t rest) {p k : Nat} {a : List UInt8}
    (ha : Ends s.inbuf s.i p a) (hpk : p ≤ k) (hk : k < len) (h0 : s.inbuf k = 0) :
    0 ∈ a ++ rest := by
  have hhas : s.inbuf.Has p (a ++ rest) := Mem.has_append.mpr ⟨ha.2, by rw [ha.1]; exact h.has⟩
  have hend := ha.1
  by_cases hin : k < s.i + rest.length
  · have hlt : k - p < (a ++ rest).length := by
      rw [List.length_append]
      omega
    have hplace := Mem.Has.apply_of_getElem? hhas (List.getElem?_eq_getElem hlt)
    rw [Nat.add_sub_cancel' hpk, h0] at hplace
    rw [hplace]
    exact List.getElem_mem hlt
  · have hlast := h.stale k (by omega) hk
    rw [h0] at hlast
    apply List.mem_append_right
    by_cases hne : rest = []
    · exact absurd hlast.symm (h.lastNot hne)
    · rw [hlast]
      exact List.mem_of_getLast? (h.lastIs hne)

theorem Rests.strings_iff (h : Rests len last s t rest) :
    (∀ p ∈ s.argv, ∃ k, p ≤ k ∧ k < len ∧ s.inbuf k = 0) ↔ ∀ a ∈ t.cur, 0 ∈ a ++ rest := by
  obtain ⟨ps, qs, hargv, hclosed, hcur⟩ := h.points
  rw [hargv]
  constructor
  · intro hall a ha
    rw [Option.mem_def.mp ha] at hcur
    obtain ⟨p, _, hp, hnil, rfl⟩ := List.forall₂_cons_right_iff.mp hcur
    obtain ⟨k, hpk, hk, h0⟩ := hall p (List.mem_append_right _ List.mem_cons_self)
    exact h.mem_of_zero hp hpk hk h0
  · intro hall p hp
    have hinside := h.inside
    rcases List.mem_append.mp hp with hp | hp
    · obtain ⟨a, ha, hstands⟩ := partner_of_mem hclosed hp
      obtain ⟨k, hpk, hk, h0⟩ := hstands.ends
      exact ⟨k, hpk, by omega, h0⟩
    · obtain ⟨a, ha, hends⟩ := partner_of_mem hcur hp
      exact h.zero_of_mem hends (hall a (Option.mem_toList.mp ha))

variable (m) (len : Int)

theorem parse_touched : ∀ a ∈ (parseInput m len).parse.touched, a.1 + a.2 ≤ len.toNat := by
  have hends := parseInput_ends m len
  cases hp : parseInput m len <;> cases hs : scanLine (rawLine m len) <;> rw [hp, hs] at hends
  case fail.fail => exact hends.2.2
  case behind.behind => exact hends.touched
  all_goals exact hends.elim

theorem parse_argc :
    (parseInput m len).parse.argc = (scanLine (rawLine m len)).line.args.length := by
  have hends := parseInput_ends m len
  cases hp : parseInput m len <;> cases hs : scanLine (rawLine m len) <;> rw [hp, hs] at hends
  case fail.fail => exact hends.2.1
  case behind.behind => exact hends.argc
  all_goals exact hends.elim

theorem passed_strings : (∀ s ∈ passed m len, ∀ p ∈ s.argv, ∃ k, p ≤ k ∧ k < len.toNat ∧
      s.inbuf k = 0) ↔
    ∀ t rest, scanLine (rawLine m len) = .behind t rest → ∀ a ∈ t.cur, 0 ∈ a ++ rest := by
  have hends := parseInput_ends m len
  rw [passed]
  cases hp : parseInput m len <;> cases hs : scanLine (rawLine m len) <;> rw [hp, hs] at hends
  case fail.fail =>
    refine iff_of_true (fun s h => absurd h (Option.not_mem_none s)) ?_
    intro t rest heq
    cases heq
  case behind.behind s t rest =>
    have hstrings := hends.strings_iff
    dsimp only
    constructor
    · intro hall t' rest' heq
      cases heq
      refine hstrings.mp fun p hp' => hall s ?_ p hp'
      have hsome : ¬ s.argc < 1 := Nat.not_lt.mpr (List.length_pos_of_mem hp')
      rw [if_neg hsome]
      rfl
    · intro hall s' hs'
      split at hs'
      · cases hs'
      · obtain rfl := Option.some.inj hs'
        exact hstrings.mpr (hall t rest rfl)
  all_goals exact hends.elim

end Safety

/-- The parser is safe on a buffer and a length if and only if the line fits. -/
theorem input_safe_iff_fits (m : Mem UInt8) (len : Int) :
    InputSafe m len ↔ LineFits (rawLine m len) := by
  constructor
  · intro h
    exact ⟨parse_argc m len ▸ h.stored, (passed_strings m len).mp h.strings⟩
  · intro h
    have hstored : (parseInput m len).parse.argc ≤ atsvrMaxArg := parse_argc m len ▸ h.few
    refine ⟨parse_touched m len, hstored, ?_, (passed_strings m len).mpr h.ends⟩
    intro s hs
    rw [passed] at hs
    cases hp : parseInput m len with
    | fail =>
      rw [hp] at hs
      cases hs
    | behind s' =>
      rw [hp] at hs hstored
      dsimp only at hs
      split at hs
      · cases hs
      · obtain rfl := Option.some.inj hs
        exact Nat.lt_of_le_of_lt hstored (by decide)

/-- A line of seventeen arguments. -/
def manyCommas (k : Nat) : UInt8 := if k = 33 then 0 else if k % 2 = 0 then 0x41 else 0x2c

theorem input_stores_too_many : ¬ ∀ (m : Mem UInt8) (len : Int), InputSafe m len := by
  intro h
  exact absurd (h manyCommas 34).stored (by decide)

end BdkRtt.At
