import BdkRtt.Lib.Mem

namespace BdkRtt.Text

open Lib

/-- `base_64_table` -/
def base64Table : List UInt8 :=
  ['A', 'B', 'C', 'D', 'E', 'F', 'G', 'H', 'I', 'J', 'K', 'L', 'M', 'N', 'O', 'P', 'Q', 'R',
    'S', 'T', 'U', 'V', 'W', 'X', 'Y', 'Z', 'a', 'b', 'c', 'd', 'e', 'f', 'g', 'h', 'i', 'j',
    'k', 'l', 'm', 'n', 'o', 'p', 'q', 'r', 's', 't', 'u', 'v', 'w', 'x', 'y', 'z', '0', '1',
    '2', '3', '4', '5', '6', '7', '8', '9', '+', '/'].map fun ch => UInt8.ofNat ch.toNat

def symbol (i : UInt8) : UInt8 := base64Table.getD i.toNat 0

/-- `'='` -/
def pad : UInt8 := 61

/-- `'\n'` -/
def lineFeed : UInt8 := 10

/-- The return value, the bytes written from `out` on, and what is stored in `*out_len`. -/
structure Base64Result where
  ret : UInt8
  out : List UInt8
  outLen : Option Nat

/-- What the caller has in `out`. -/
def Base64Result.text (r : Base64Result) : List UInt8 := r.out.take (r.outLen.getD 0)

section Encoding

def base64CalcEncodeLength (srcLen : UInt32) : UInt32 :=
  let encLen := srcLen * 4 / 3 + 4
  encLen + encLen / 72 + 1

/-- The end of `base64_encode`, after the loop. -/
def encodeTail (lineLen : Nat) : List UInt8 → List UInt8
  | [] => if lineLen ≠ 0 then [lineFeed] else []
  | [a] => [symbol (a >>> 2), symbol ((a &&& 0x03) <<< 4), pad, pad, lineFeed]
  | a :: b :: _ =>
    [symbol (a >>> 2), symbol (((a &&& 0x03) <<< 4) ||| (b >>> 4)), symbol ((b &&& 0x0f) <<< 2),
      pad, lineFeed]

/-- What `base64_encode` writes from its loop on, with `line_len` symbols in the line. -/
def encodeFrom : Nat → List UInt8 → List UInt8
  | lineLen, a :: b :: c :: input =>
    let group :=
      [symbol (a >>> 2), symbol (((a &&& 0x03) <<< 4) ||| (b >>> 4)),
        symbol (((b &&& 0x0f) <<< 2) ||| (c >>> 6)), symbol (c &&& 0x3f)]
    if lineLen + 4 ≥ 72 then group ++ lineFeed :: encodeFrom 0 input
    else group ++ encodeFrom (lineLen + 4) input
  | lineLen, input => encodeTail lineLen input

/-- `base64_encode`; `out` is there or `NULL`. -/
def base64Encode (out : Bool) (src : List UInt8) : Base64Result :=
  if out then
    let text := encodeFrom 0 src
    { ret := 1
      out := text ++ [0]
      outLen := some text.length }
  else { ret := 0, out := [], outLen := none }

end Encoding

section Decoding

/-- `dtable` as both functions build it. -/
def dtable : UInt8 → UInt8 :=
  Function.update
    ((List.range 64).foldl
      (fun t i => Function.update t (base64Table.getD i 0) (UInt8.ofNat i)) fun _ => 0x80)
    pad 0

/-- The symbols of a text; 32 bits count them, as they count the text. -/
def symbolCount (src : List UInt8) : Nat := (src.filter fun b => dtable b ≠ 0x80).length

/-- `base64_calc_decode_length`; `zalloc` tells whether `os_zalloc` gives the table. -/
def base64CalcDecodeLength (zalloc : Bool) (src : List UInt8) : Nat :=
  if zalloc then
    if symbolCount src % 4 ≠ 0 then 0 else symbolCount src
  else 0

/-- `in`, `block`, `count` and what has been written. -/
structure DecodeSt where
  input : Mem UInt8
  block : Mem UInt8
  count : Nat
  written : List UInt8

/-- `in` is not read before it is set. -/
def DecodeSt.start : DecodeSt where
  input _ := 0
  block _ := 0
  count := 0
  written := []

def decodeStep (st : DecodeSt) (b : UInt8) : DecodeSt :=
  if dtable b = 0x80 then st
  else
    let input := Function.update st.input st.count b
    let block := Function.update st.block st.count (dtable b)
    if st.count + 1 = 4 then
      { input := input
        block := block
        count := 0
        written := st.written ++
          [(block 0 <<< 2) ||| (block 1 >>> 4), (block 1 <<< 4) ||| (block 2 >>> 2),
            (block 2 <<< 6) ||| block 3] }
    else { st with input := input, block := block, count := st.count + 1 }

/-- `pos - out` after the loop. -/
def DecodeSt.decoded (st : DecodeSt) : Nat :=
  if st.written.length > 0 then
    if st.input 2 = pad then st.written.length - 2
    else if st.input 3 = pad then st.written.length - 1
    else st.written.length
  else st.written.length

def base64Decode (zalloc out : Bool) (src : List UInt8) : Base64Result :=
  if zalloc then
    if symbolCount src % 4 ≠ 0 then { ret := 0, out := [], outLen := none }
    else if out then
      let st := src.foldl decodeStep .start
      { ret := 1
        out := st.written
        outLen := some st.decoded }
    else { ret := 0, out := [], outLen := some (symbolCount src * 3 / 4) }
  else { ret := 0, out := [], outLen := some 0 }

end Decoding

end BdkRtt.Text
