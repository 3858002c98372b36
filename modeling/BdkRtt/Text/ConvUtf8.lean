import BdkRtt.Lib.Bytes
import BdkRtt.Lib.NulString

namespace BdkRtt.Text.ConvUtf8

open Lib

section Tables

/-- The two tables, row by row, with what lies in memory behind them. -/
structure Tables where
  tGb2312Utf8 : Nat → UInt8 × UInt8 × UInt8
  unicodeToGb2312 : Nat → UInt16 × UInt16

def tGb2312Utf8Rows : Nat := 6763
def unicodeToGb2312Rows : Nat := 6763

end Tables

section ToUtf8

/-- `conv_utf8_for_gb2312`: the row that is copied. -/
def convUtf8ForGb2312 (hiBits lowBit : UInt8) : Option Nat :=
  if hiBits < 0xB0 ∨ hiBits > 0xF7 then none
  else if lowBit < 0xA1 ∨ lowBit > 0xFE then none
  else
    let gbCode : UInt16 := (hiBits.toUInt16 <<< 8) + lowBit.toUInt16
    let distCnt : UInt16 := hiBits.toUInt16 - 0xB0
    let distCnt := distCnt * (0xA1 + 0x01)
    some (gbCode - 0xB0A1 - distCnt).toNat

/-- What is stored from `out_bak` on, the bytes of the input that are read, and the rows of the
table. -/
structure ConvRun where
  ptr : Nat
  out : List UInt8
  reads : List Nat
  rows : List Nat

def Tables.utf8 (t : Tables) (row : Nat) : List UInt8 :=
  [(t.tGb2312Utf8 row).1, (t.tGb2312Utf8 row).2.1, (t.tGb2312Utf8 row).2.2]

/-- One round of the loop, its test included. -/
def ConvRun.round (t : Tables) (input : Mem UInt8) (s : ConvRun) : ConvRun :=
  let reads := s.reads ++ [s.ptr, s.ptr, s.ptr + 1]
  match convUtf8ForGb2312 (input s.ptr) (input (s.ptr + 1)) with
  | some row =>
    { ptr := s.ptr + 2, out := s.out ++ t.utf8 row, reads, rows := s.rows ++ [row] }
  | none =>
    { s with ptr := s.ptr + 1, out := s.out ++ [input s.ptr], reads := reads ++ [s.ptr] }

/-- The test that ends the loop, and the terminator. -/
def ConvRun.finish (s : ConvRun) : ConvRun :=
  { s with out := s.out ++ [0], reads := s.reads ++ [s.ptr] }

/-- `while(*ptr)`; `none` when `fuel` rounds are not enough. -/
def convLoop (t : Tables) (input : Mem UInt8) : Nat → ConvRun → Option ConvRun
  | 0, s => if input s.ptr = 0 then some s.finish else none
  | fuel + 1, s =>
    if input s.ptr = 0 then some s.finish else convLoop t input fuel (s.round t input)

/-- How much `conv_utf8` allocates. -/
def convUtf8Len (input : NulString) : Nat := input.strlen / 2 * 3 + 1

/-- `conv_utf8`, with a round for each byte at the most; the inner `none` is `NULL`. -/
def convUtf8 (t : Tables) (input : NulString) (malloc : Bool) : Option (Option ConvRun) :=
  if malloc then
    -- `strlen` has read all of the input
    (convLoop t input.mem input.strlen
      { ptr := 0, out := [], reads := List.range (input.strlen + 1), rows := [] }).map some
  else some none

end ToUtf8

section ToGb2312

/-- `SearchCodeTable` between `first` and `end`, with the rows it looks at. -/
def searchFrom (table : Nat → UInt16 × UInt16) (unicodeKey : UInt16) (first last : Int) :
    UInt16 × List Int :=
  if _h : first ≤ last then
    let mid := (first + last) / 2
    let row := table mid.toNat
    if row.1 = unicodeKey then (row.2, [mid])
    else if row.1 > unicodeKey then
      let r := searchFrom table unicodeKey first (mid - 1)
      (r.1, mid :: r.2)
    else
      let r := searchFrom table unicodeKey (mid + 1) last
      (r.1, mid :: r.2)
  else (0, [])
termination_by (last + 1 - first).toNat
decreasing_by all_goals omega

def searchCodeTable (t : Tables) (unicodeKey : UInt16) : UInt16 × List Int :=
  searchFrom t.unicodeToGb2312 unicodeKey 0 (unicodeToGb2312Rows - 1)

theorem shifted_lt_self {temp : UInt8} (h : temp ≠ 0) : (temp >>> 1).toNat < temp.toNat := by
  have hpos : temp.toNat ≠ 0 := fun hz => h (UInt8.toNat_inj.mp hz)
  rw [UInt8.toNat_shiftRight]
  change temp.toNat >>> 1 < temp.toNat
  rw [Nat.shiftRight_eq_div_pow]
  omega

/-- The loop of `GetUtf8ByteNumForWord`. -/
def byteNumLoop (firstCh temp : UInt8) (num : Nat) : Nat :=
  if _h : temp &&& firstCh = 0 then num else byteNumLoop firstCh (temp >>> 1) (num + 1)
termination_by temp.toNat
decreasing_by
  apply shifted_lt_self
  rintro rfl
  exact _h (UInt8.zero_and)

def getUtf8ByteNumForWord (firstCh : UInt8) : Nat := byteNumLoop firstCh 0x80 0

/-- The variables of `Utf8ToGb2312`, and what it has read of its input, written to `temp` and
looked up in the table. -/
structure GbRun where
  i : Nat
  j : Nat
  temp : Mem UInt8
  reads : List Nat
  writes : List Nat
  lookups : List Int

def GbRun.store (s : GbRun) (k : Nat) (b : UInt8) : GbRun :=
  { s with temp := s.temp.write k [b], writes := s.writes ++ [k] }

/-- `case 0` -/
def GbRun.copyOne (utf8 : Mem UInt8) (s : GbRun) : GbRun :=
  { s.store s.j (utf8 s.i) with i := s.i + 1, j := s.j + 1, reads := s.reads ++ [s.i] }

/-- `case 2` -/
def GbRun.copyTwo (utf8 : Mem UInt8) (s : GbRun) : GbRun :=
  { (s.store s.j (utf8 s.i)).store (s.j + 1) (utf8 (s.i + 1)) with
    i := s.i + 2
    j := s.j + 2
    reads := s.reads ++ [s.i, s.i + 1] }

/-- `case 3`: the UTF-8 is decoded in `temp`, low byte first, and its GB2312 put over it. -/
def GbRun.convert (t : Tables) (utf8 : Mem UInt8) (s : GbRun) : GbRun :=
  let high := ((utf8 s.i &&& 0x0F) <<< 4) ||| ((utf8 (s.i + 1) >>> 2) &&& 0x0F)
  let low := ((utf8 (s.i + 1) &&& 0x03) <<< 6) + (utf8 (s.i + 2) &&& 0x3F)
  let u := (s.store (s.j + 1) high).store s.j low
  let r := searchCodeTable t (ofLe16 (u.temp.read s.j 2))
  let v := (u.store s.j ((r.1 &&& 0xff00) >>> 8).toUInt8).store (s.j + 1) (r.1 &&& 0x00ff).toUInt8
  { v with
    i := s.i + 3
    j := s.j + 2
    reads := s.reads ++ [s.i, s.i + 1, s.i + 1, s.i + 2]
    lookups := s.lookups ++ r.2 }

/-- One round of the loop: the lead byte is read, and the `switch` made. -/
def GbRun.round (t : Tables) (utf8 : Mem UInt8) (s : GbRun) : GbRun :=
  let nbyte := getUtf8ByteNumForWord (utf8 s.i)
  let s := { s with reads := s.reads ++ [s.i] }
  if nbyte = 0 then s.copyOne utf8
  else if nbyte = 2 then s.copyTwo utf8
  else if nbyte = 3 then s.convert t utf8
  else if 4 ≤ nbyte ∧ nbyte ≤ 6 then { s with i := s.i + nbyte }
  else { s with i := s.i + 1 }

/-- `while (i < len)`; `none` when `fuel` rounds are not enough. -/
def gbLoop (t : Tables) (utf8 : Mem UInt8) (len : Nat) : Nat → GbRun → Option GbRun
  | 0, s => if s.i < len then none else some s
  | fuel + 1, s => if s.i < len then gbLoop t utf8 len fuel (s.round t utf8) else some s

/-- What `Utf8ToGb2312` has done, how many bytes it has put back, and the input then. -/
structure GbResult where
  run : GbRun
  back : Nat
  utf8 : Mem UInt8

/-- The terminator, and the copy back. -/
def GbRun.finish (utf8 : Mem UInt8) (s : GbRun) : GbResult :=
  let s := { s.store s.j 0 with j := s.j + 1 }
  { run := s, back := s.j, utf8 := utf8.write 0 (s.temp.read 0 s.j) }

/-- `Utf8ToGb2312` of a string, with a round for each byte at the most; the inner `none` is
`NULL`, and `malloc` the memory there is for `temp`. -/
def utf8ToGb2312 (t : Tables) (utf8 : NulString) (malloc : Option (Mem UInt8)) :
    Option (Option GbResult) :=
  if utf8.strlen ≤ 0 then some none
  else
    match malloc with
    | none => some none
    | some temp =>
      -- `strlen` has read all of the input
      (gbLoop t utf8.mem utf8.strlen utf8.strlen
        { i := 0, j := 0, temp, reads := List.range (utf8.strlen + 1), writes := [],
          lookups := [] }).map fun s => some (s.finish utf8.mem)

end ToGb2312

end BdkRtt.Text.ConvUtf8
