import BdkRtt.Wlan.PingPong
import Mathlib.Data.List.Forall2

namespace BdkRtt.Wlan.PingPong

open Lib

section Histories

abbrev Run := Machine.History Event Answer

def Answer.accepts : Answer → Option Frame
  | .wrote frame ret => if ret = 0 then none else some frame
  | _ => none

/-- What a read has returned to its caller. -/
structure Delivery where
  count : Nat
  ret : Nat
  stored : Stored
deriving DecidableEq

def Answer.delivers : Answer → Option Delivery
  | .read count ret stored => stored.map (⟨count, ret, ·⟩)
  | _ => none

/-- The frames of the writes that returned something, in that order. -/
def accepted (h : Run) : List Frame := h.filterMap (·.2.accepts)

/-- What the reads that found a frame returned, in that order. -/
def delivered (h : Run) : List Delivery := h.filterMap (·.2.delivers)

/-- The accepted frames that no read has returned. -/
def unread (h : Run) : List Frame := (accepted h).drop (delivered h).length

variable {h : Run} {e : Event} {o : Answer}

theorem accepted_concat : accepted (h ++ [(e, o)]) = accepted h ++ o.accepts.toList := by
  rw [accepted, List.filterMap_append]
  cases hacc : o.accepts <;> simp [accepted, hacc]

theorem delivered_concat : delivered (h ++ [(e, o)]) = delivered h ++ o.delivers.toList := by
  rw [delivered, List.filterMap_append]
  cases hdel : o.delivers <;> simp [delivered, hdel]

end Histories

section Slots

def BufId.other : BufId → BufId
  | .buf1 => .buf2
  | .buf2 => .buf1

@[simp] theorem BufId.other_ne (b : BufId) : b.other ≠ b := by cases b <;> nofun

/-- Where `pingpong_init` puts the buffers. -/
def BufId.base : BufId → Nat
  | .buf1 => 0
  | .buf2 => bufLen

/-- The slot of the frame that is accepted after `n` others. -/
def slot : Nat → BufId
  | 0 => .buf1
  | n + 1 => (slot n).other

@[simp] theorem slot_add_two (n : Nat) : slot (n + 2) = slot n := by
  change (slot n).other.other = slot n
  cases slot n <;> rfl

theorem slot_succ_ne (n : Nat) : slot (n + 1) ≠ slot n := (slot n).other_ne

end Slots

section Contents

/-- What the first cells of a slot hold of the frame. -/
def Frame.stored (f : Frame) : List UInt8 := f.bytes.take bufLen

/-- The read with this outcome returned the frame: `min count BUF_LEN` bytes, and they start with
those of the frame that were stored. -/
structure Carries (f : Frame) (d : Delivery) : Prop where
  ret : d.ret = min d.count bufLen
  length : d.stored.bytes.length = d.ret
  bytes : f.bytes.take d.ret <+: d.stored.bytes
  actual : d.stored.actual = f.actual

/-- The slot holds the frame for the reader. -/
structure Full (mem : Mem UInt8) (b : BufId) (x : BuffStr) (f : Frame) : Prop where
  readEnable : x.readEnable = true
  writeEnable : x.writeEnable = false
  cells : mem.Has b.base f.stored
  actual : x.actual = f.actual

/-- The slot is the writer's. -/
structure Free (x : BuffStr) : Prop where
  readEnable : x.readEnable = false
  writeEnable : x.writeEnable = true

def Holds (mem : Mem UInt8) (b : BufId) (x : BuffStr) : Option Frame → Prop
  | none => Free x
  | some f => Full mem b x f

/-- The next two frames after the first `d` are in their slots, if they have been accepted. -/
def Slots (as : List Frame) (d : Nat) (mem : Mem UInt8) (buf : BufId → BuffStr) : Prop :=
  ∀ n, d ≤ n → n < d + 2 → Holds mem (slot n) (buf (slot n)) as[n]?

variable {as bs : List Frame} {d k : Nat} {mem : Mem UInt8} {buf : BufId → BuffStr} {x : BuffStr}

theorem slot_injOn {n : Nat} (hk : d ≤ k ∧ k < d + 2) (hn : d ≤ n ∧ n < d + 2) (hne : n ≠ k) :
    slot n ≠ slot k := by
  rcases Nat.lt_or_gt_of_ne hne with hlt | hgt
  · obtain rfl : k = n + 1 := by omega
    exact (slot_succ_ne n).symm
  · obtain rfl : n = k + 1 := by omega
    exact slot_succ_ne k

/-- A slot changes along with what is known of its frame. -/
theorem Slots.update (h : Slots as d mem buf) (hk : d ≤ k ∧ k < d + 2)
    (hx : Holds mem (slot k) x bs[k]?) (hrest : ∀ n, n < d + 2 → n ≠ k → bs[n]? = as[n]?) :
    Slots bs d mem (Function.update buf (slot k) x) := by
  intro n hdn hnd
  by_cases hne : n = k
  · subst hne
    rw [Function.update_self]
    exact hx
  · rw [Function.update_of_ne (slot_injOn hk ⟨hdn, hnd⟩ hne), hrest n hnd hne]
    exact h n hdn hnd

/-- The reader gives back the slot it has read. -/
theorem Slots.release (h : Slots as d mem buf) (hroom : as.length ≤ d + 2) (hx : Free x) :
    Slots as (d + 1) mem (Function.update buf (slot d) x) := by
  intro n hdn hnd
  by_cases hn : n = d + 1
  · subst hn
    rw [Function.update_of_ne (slot_succ_ne d)]
    exact h (d + 1) (by omega) (by omega)
  · obtain rfl : n = d + 2 := by omega
    rw [slot_add_two, Function.update_self, List.getElem?_eq_none hroom]
    exact hx

theorem read_write_base {b c : BufId} (hbc : b ≠ c) {ys : List UInt8} {n : Nat}
    (hys : ys.length ≤ bufLen) (hn : n ≤ bufLen) :
    (mem.write b.base ys).read c.base n = mem.read c.base n := by
  cases b <;> cases c
  · exact absurd rfl hbc
  · exact Mem.read_write_of_ge _ (by rw [BufId.base, BufId.base, Nat.zero_add]; exact hys)
  · exact Mem.read_write_of_le _ _ (by rw [BufId.base, BufId.base, Nat.zero_add]; exact hn)
  · exact absurd rfl hbc

theorem Frame.length_stored (f : Frame) : f.stored.length ≤ bufLen := List.length_take_le ..

/-- The writer's slot takes the bytes. -/
theorem Slots.write (h : Slots as d mem buf) (hk : d ≤ as.length ∧ as.length < d + 2)
    {ys : List UInt8} (hys : ys.length ≤ bufLen) :
    Slots as d (mem.write (slot as.length).base ys) buf := by
  intro n hdn hnd
  have hold := h n hdn hnd
  cases hf : as[n]? with
  | none =>
    rw [hf] at hold
    exact hold
  | some f =>
    rw [hf] at hold
    obtain ⟨hn, -⟩ := List.getElem?_eq_some_iff.mp hf
    have hne := slot_injOn ⟨hdn, hnd⟩ hk (Nat.ne_of_gt hn)
    refine { hold with cells := ?_ }
    exact (read_write_base hne hys f.length_stored).trans hold.cells

end Contents

section Parties

/-- The slot a party would use next, from its pointer and its switch. -/
def Points (current : BufId) (switch : Bool) (n : Nat) : Prop :=
  current = slot (if switch then n + 1 else n)

/-- The slot that is being read. -/
def Reader.reads : Reader → Option BufId
  | .measure _ b | .copy _ b _ | .forward _ b _ | .stamp _ b _ | .leave _ b _ => some b
  | _ => none

/-- The slot that is being written. -/
def Writer.writes : Writer → Option BufId
  | .copy _ b | .stamp _ b | .leave _ b => some b
  | _ => none

/-- `buf->offset` is not 0 until the reader leaves. -/
def Reader.moved : Reader → Bool
  | .stamp .. | .leave .. => true
  | _ => false

/-- What the reader knows, with the accepted frames `as` of which `d` have been delivered. -/
def Reader.At (as : List Frame) (d : Nat) (current : BufId) (switch : Bool) : Reader → Prop
  | .idle | .enter _ => Points current switch d
  | .advance _ => current = slot (d + 1)
  | .clear _ => current = slot d
  | .select _ => current = slot d ∧ switch = false
  | .check _ b => b = slot d ∧ current = slot d ∧ switch = false
  | .measure _ b => b = slot d ∧ current = slot d ∧ d < as.length
  | .copy count b len =>
    b = slot d ∧ current = slot d ∧ d < as.length ∧ len = min count bufLen
  | .forward count b bytes | .stamp count b bytes =>
    b = slot d ∧ current = slot d ∧ ∃ hd : d < as.length,
      Carries as[d] ⟨count, bytes.length, ⟨bytes, as[d].actual⟩⟩
  | .leave count b stored =>
    b = slot d ∧ current = slot d ∧ ∃ hd : d < as.length,
      Carries as[d] ⟨count, stored.bytes.length, stored⟩

/-- What the writer knows when `n` frames have been accepted; `actual` are those of the slots. -/
def Writer.At (mem : Mem UInt8) (actual : BufId → UInt32) (n d : Nat) (current : BufId)
    (switch : Bool) : Writer → Prop
  | .idle | .enter _ => Points current switch n
  | .advance _ => current = slot (n + 1)
  | .clear _ => current = slot n
  | .select _ => current = slot n ∧ switch = false
  | .check _ b => b = slot n ∧ current = slot n ∧ switch = false
  | .copy _ b => b = slot n ∧ current = slot n ∧ n < d + 2
  | .stamp frame b => b = slot n ∧ current = slot n ∧ n < d + 2 ∧ mem.Has b.base frame.stored
  | .leave frame b => b = slot n ∧ current = slot n ∧ n < d + 2 ∧ mem.Has b.base frame.stored ∧
    actual b = frame.actual

/-- What `pingpong_init` sets and nothing changes. -/
structure Shape (b : BufId) (x : BuffStr) : Prop where
  addr : x.addr = b.base
  next : x.nextBufAddr = b.other
  length : x.length = bufLen

/-- The state between any two steps, when the frames `as` have been accepted and `d` of them
delivered. -/
structure Inv (as : List Frame) (d : Nat) (s : State) : Prop where
  le : d ≤ as.length
  room : as.length ≤ d + 2
  shape : ∀ b, Shape b (s.buf b)
  slots : Slots as d s.mem s.buf
  offset : ∀ b, (s.reader.moved = true → b ≠ slot d) → (s.buf b).offset = 0
  reader : s.reader.At as d s.currentRead s.readSwitch
  writer : s.writer.At s.mem (fun b => (s.buf b).actual) as.length d s.currentWrite s.writeSwitch

variable {as : List Frame} {d : Nat} {s t : State} {o : Answer}

theorem inv_init (memory : Mem UInt8) (actual : BufId → UInt32) :
    Inv [] 0 (pingpongInit memory actual) where
  le := Nat.le_refl 0
  room := Nat.zero_le _
  shape b := by cases b <;> exact ⟨rfl, rfl, rfl⟩
  slots n _ _ := by cases slot n <;> exact ⟨rfl, rfl⟩
  offset b _ := by cases b <;> rfl
  reader := rfl
  writer := rfl

/-- A step of the reader that stores nothing. -/
theorem Inv.readerMoves (hi : Inv as d s) {r : Reader} {current : BufId} {switch : Bool}
    (hr : r.At as d current switch) (hmoved : r.moved = s.reader.moved) :
    Inv as d { s with currentRead := current, readSwitch := switch, reader := r } :=
  { hi with
    offset := fun b hb => hi.offset b fun hm => hb (hmoved.trans hm)
    reader := hr }

/-- A step of the writer that stores nothing. -/
theorem Inv.writerMoves (hi : Inv as d s) {w : Writer} {current : BufId} {switch : Bool}
    (hw : w.At s.mem (fun b => (s.buf b).actual) as.length d current switch) :
    Inv as d { s with currentWrite := current, writeSwitch := switch, writer := w } :=
  { hi with writer := hw }

/-- An update of a slot that keeps a field keeps it in every slot. -/
theorem update_field {α : Type*} (g : BuffStr → α) (buf : BufId → BuffStr) {b : BufId}
    {x : BuffStr} (hx : g x = g (buf b)) :
    (fun c => g (Function.update buf b x c)) = fun c => g (buf c) := by
  funext c
  by_cases hc : c = b
  · subst hc
    rw [Function.update_self]
    exact hx
  · rw [Function.update_of_ne hc]

theorem shape_update {buf : BufId → BuffStr} (h : ∀ b, Shape b (buf b)) {b : BufId} {x : BuffStr}
    (hx : Shape b x) (c : BufId) : Shape c (Function.update buf b x c) := by
  by_cases hc : c = b
  · subst hc
    rw [Function.update_self]
    exact hx
  · rw [Function.update_of_ne hc]
    exact h c

end Parties

section Reader

variable {as : List Frame} {d : Nat} {s t : State} {o : Answer}

/-- What a step of the reader does. -/
inductive ReadStep (as : List Frame) (d : Nat) (t : State) : Answer → Prop
  | runs : Inv as d t → ReadStep as d t .running
  | empty (count : Nat) : as.length = d → Inv as d t → ReadStep as d t (.read count 0 none)
  | delivers {r : Delivery} (hd : d < as.length) : Carries as[d] r → Inv as (d + 1) t →
      ReadStep as d t (.read r.count r.ret (some r.stored))

/-- The slot of the next frame to be read. -/
theorem Inv.front (hi : Inv as d s) (hd : d < as.length) :
    Full s.mem (slot d) (s.buf (slot d)) as[d] := by
  have hold := hi.slots d (Nat.le_refl d) (by omega)
  rw [List.getElem?_eq_getElem hd] at hold
  exact hold

theorem Inv.readEnable_iff (hi : Inv as d s) :
    (s.buf (slot d)).readEnable = true ↔ d < as.length := by
  constructor
  · intro hr
    by_contra hn
    have hold := hi.slots d (Nat.le_refl d) (by omega)
    rw [List.getElem?_eq_none (Nat.not_lt.mp hn)] at hold
    exact Bool.noConfusion (hold.readEnable.symm.trans hr)
  · exact fun hd => (hi.front hd).readEnable

/-- What the reader copies is the next frame. -/
theorem Inv.carries (hi : Inv as d s) (hd : d < as.length) (count : Nat) :
    Carries as[d]
      ⟨count, (s.mem.read (slot d).base (min count bufLen)).length,
        ⟨s.mem.read (slot d).base (min count bufLen), as[d].actual⟩⟩ where
  ret := Mem.length_read ..
  length := rfl
  bytes := by
    have hcells := (hi.front hd).cells
    rw [Mem.length_read]
    generalize hlen : min count bufLen = len
    have hle : len ≤ bufLen := by omega
    have hbegin : as[d].bytes.take len = as[d].stored.take len := by
      rw [Frame.stored, List.take_take, Nat.min_eq_left hle]
    rw [hbegin, ← hcells]
    rcases Nat.le_total len as[d].stored.length with hshort | hlong
    · exact ⟨[], by rw [List.append_nil, Mem.take_read _ hshort]⟩
    · rw [List.take_of_length_le (by rw [Mem.length_read]; exact hlong),
        ← Mem.take_read _ hlong]
      exact List.take_prefix ..
  actual := rfl

theorem Inv.forward (hi : Inv as d s) (hd : d < as.length) {r : Reader} {n : Nat}
    (hmoved : r.moved = true) (hr : r.At as d s.currentRead s.readSwitch) :
    Inv as d { s.setBuf (slot d) (·.forward n) with reader := r } where
  le := hi.le
  room := hi.room
  shape := by
    have hshape := hi.shape (slot d)
    exact shape_update hi.shape ⟨hshape.addr, hshape.next, hshape.length⟩
  slots := by
    have hfull := hi.front hd
    refine hi.slots.update ⟨Nat.le_refl d, by omega⟩ ?_ fun _ _ _ => rfl
    rw [List.getElem?_eq_getElem hd]
    exact ⟨hfull.readEnable, hfull.writeEnable, hfull.cells, hfull.actual⟩
  offset b hb := by
    have hne := hb hmoved
    refine (congrArg BuffStr.offset (Function.update_of_ne hne ..)).trans ?_
    exact hi.offset b fun _ => hne
  reader := hr
  writer := by
    have hactual := update_field BuffStr.actual s.buf (b := slot d)
      (x := (s.buf (slot d)).forward n) rfl
    have hw := hi.writer
    rw [← hactual] at hw
    exact hw

theorem Writer.At.delivered {mem : Mem UInt8} {actual : BufId → UInt32} {n : Nat} {current : BufId}
    {switch : Bool} {w : Writer} (hw : w.At mem actual n d current switch) :
    w.At mem actual n (d + 1) current switch := by
  cases w with
  | copy => exact ⟨hw.1, hw.2.1, Nat.lt_succ_of_lt hw.2.2⟩
  | stamp => exact ⟨hw.1, hw.2.1, Nat.lt_succ_of_lt hw.2.2.1, hw.2.2.2⟩
  | leave => exact ⟨hw.1, hw.2.1, Nat.lt_succ_of_lt hw.2.2.1, hw.2.2.2⟩
  | _ => exact hw

theorem Inv.leave (hi : Inv as d s) (hd : d < as.length) (hcurrent : s.currentRead = slot d) :
    Inv as (d + 1)
      { s.setBuf (slot d) BuffStr.release with readSwitch := true, reader := .idle } where
  le := hd
  room := Nat.le_succ_of_le hi.room
  shape := by
    have hshape := hi.shape (slot d)
    exact shape_update hi.shape ⟨hshape.addr, hshape.next, hshape.length⟩
  slots := hi.slots.release hi.room ⟨rfl, rfl⟩
  offset b _ := by
    by_cases hb : b = slot d
    · subst hb
      change (Function.update s.buf (slot d) _ (slot d)).offset = 0
      rw [Function.update_self]
      rfl
    · refine (congrArg BuffStr.offset (Function.update_of_ne hb ..)).trans ?_
      exact hi.offset b fun _ => hb
  reader := hcurrent.trans (slot_add_two d).symm
  writer := by
    have hactual := update_field BuffStr.actual s.buf (b := slot d)
      (x := (s.buf (slot d)).release) rfl
    have hw := hi.writer.delivered
    rw [← hactual] at hw
    exact hw

theorem Inv.readStep (hi : Inv as d s) (hs : s.readFromPingpongBuf = some (t, o)) :
    ReadStep as d t o := by
  have hr := hi.reader
  rw [State.readFromPingpongBuf] at hs
  split at hs
  next => cases hs
  next count hat =>
    rw [hat] at hr
    cases hs
    refine .runs (hi.readerMoves ?_ ?_)
    · split
      next hsw => exact hr.trans (congrArg slot (if_pos hsw))
      next hsw => exact ⟨hr.trans (congrArg slot (if_neg hsw)), Bool.not_eq_true _ ▸ hsw⟩
    · rw [hat]
      split <;> rfl
  next count hat =>
    rw [hat] at hr
    cases hs
    refine .runs (hi.readerMoves ?_ (hat ▸ rfl))
    change (s.buf s.currentRead).nextBufAddr = slot d
    rw [(hi.shape _).next, hr]
    exact slot_add_two d
  next count hat =>
    rw [hat] at hr
    cases hs
    exact .runs (hi.readerMoves ⟨hr, rfl⟩ (hat ▸ rfl))
  next count hat =>
    rw [hat] at hr
    cases hs
    exact .runs (hi.readerMoves ⟨hr.1, hr.1, hr.2⟩ (hat ▸ rfl))
  next count b hat =>
    rw [hat] at hr
    obtain ⟨rfl, hcurrent, hswitch⟩ := hr
    split at hs
    next hfull =>
      cases hs
      exact .runs (hi.readerMoves ⟨rfl, hcurrent, hi.readEnable_iff.mp hfull⟩ (hat ▸ rfl))
    next hempty =>
      cases hs
      have hlen : as.length = d :=
        Nat.le_antisymm (Nat.not_lt.mp (hempty ∘ hi.readEnable_iff.mpr)) hi.le
      refine .empty count hlen (hi.readerMoves ?_ (hat ▸ rfl))
      rw [hswitch]
      exact hcurrent
  next count b hat =>
    rw [hat] at hr
    obtain ⟨rfl, hcurrent, hd⟩ := hr
    cases hs
    refine .runs (hi.readerMoves ⟨rfl, hcurrent, hd, ?_⟩ (hat ▸ rfl))
    rw [(hi.shape _).length, hi.offset _ fun hm => by rw [hat] at hm; nomatch hm]
    rfl
  next count b len hat =>
    rw [hat] at hr
    obtain ⟨rfl, hcurrent, hd, rfl⟩ := hr
    cases hs
    refine .runs (hi.readerMoves ⟨rfl, hcurrent, hd, ?_⟩ (hat ▸ rfl))
    rw [(hi.shape _).addr]
    exact hi.carries hd count
  next count b bytes hat =>
    rw [hat] at hr
    obtain ⟨rfl, hcurrent, hd, hc⟩ := hr
    cases hs
    exact .runs (hi.forward hd rfl ⟨rfl, hcurrent, hd, hc⟩)
  next count b bytes hat =>
    rw [hat] at hr
    obtain ⟨rfl, hcurrent, hd, hc⟩ := hr
    cases hs
    refine .runs (hi.readerMoves ⟨rfl, hcurrent, hd, ?_⟩ (hat ▸ rfl))
    rw [(hi.front hd).actual]
    exact hc
  next count b stored hat =>
    rw [hat] at hr
    obtain ⟨rfl, hcurrent, hd, hc⟩ := hr
    cases hs
    exact .delivers hd hc (hi.leave hd hcurrent)

end Reader

section Writer

variable {as : List Frame} {d : Nat} {s t : State} {o : Answer}

/-- What a step of the writer does. -/
inductive WriteStep (as : List Frame) (d : Nat) (t : State) : Answer → Prop
  | runs : Inv as d t → WriteStep as d t .running
  | full (frame : Frame) : as.length = d + 2 → Inv as d t → WriteStep as d t (.wrote frame 0)
  | accepts (frame : Frame) : as.length < d + 2 → Inv (as ++ [frame]) d t →
      WriteStep as d t (.wrote frame bufLen)

/-- The slot of the next frame to be accepted. -/
theorem Inv.writeEnable_iff (hi : Inv as d s) :
    (s.buf (slot as.length)).writeEnable = true ↔ as.length < d + 2 := by
  constructor
  · intro hw
    by_contra hn
    have hlen : as.length = d + 2 := Nat.le_antisymm hi.room (Nat.not_lt.mp hn)
    rw [hlen, slot_add_two, (hi.front (by omega)).writeEnable] at hw
    exact Bool.noConfusion hw
  · intro hn
    have hold := hi.slots as.length hi.le hn
    rw [List.getElem?_eq_none (Nat.le_refl _)] at hold
    exact hold.writeEnable

theorem Inv.copy (hi : Inv as d s) (hroom : as.length < d + 2) {frame : Frame}
    (hcurrent : s.currentWrite = slot as.length) :
    Inv as d { s with
      mem := s.mem.write (slot as.length).base frame.stored
      writer := .stamp frame (slot as.length) } where
  le := hi.le
  room := hi.room
  shape := hi.shape
  slots := hi.slots.write ⟨hi.le, hroom⟩ frame.length_stored
  offset := hi.offset
  reader := hi.reader
  writer := ⟨rfl, hcurrent, hroom, Mem.has_write_self ..⟩

theorem Inv.stamp (hi : Inv as d s) (hroom : as.length < d + 2) {frame : Frame}
    (hcurrent : s.currentWrite = slot as.length)
    (hcells : s.mem.Has (slot as.length).base frame.stored) :
    Inv as d { s.setBuf (slot as.length) (·.stamp frame.actual) with
      writer := .leave frame (slot as.length) } where
  le := hi.le
  room := hi.room
  shape := by
    have hshape := hi.shape (slot as.length)
    exact shape_update hi.shape ⟨hshape.addr, hshape.next, hshape.length⟩
  slots := by
    have hold := hi.slots as.length hi.le hroom
    refine hi.slots.update ⟨hi.le, hroom⟩ ?_ fun _ _ _ => rfl
    rw [List.getElem?_eq_none (Nat.le_refl _)] at hold ⊢
    exact ⟨hold.readEnable, hold.writeEnable⟩
  offset b hb := by
    have hoffset := congrFun (update_field BuffStr.offset s.buf (b := slot as.length)
      (x := (s.buf (slot as.length)).stamp frame.actual) rfl) b
    exact hoffset.trans (hi.offset b hb)
  reader := hi.reader
  writer := by
    refine ⟨rfl, hcurrent, hroom, hcells, ?_⟩
    change (Function.update s.buf (slot as.length) _ (slot as.length)).actual = frame.actual
    rw [Function.update_self]
    rfl

theorem Reader.At.accepted {r : Reader} {current : BufId} {switch : Bool}
    (hr : r.At as d current switch) (frame : Frame) : r.At (as ++ [frame]) d current switch := by
  have hlt : d < as.length → d < (as ++ [frame]).length := fun hd =>
    Nat.lt_of_lt_of_le hd (List.prefix_append ..).length_le
  cases r with
  | measure => exact ⟨hr.1, hr.2.1, hlt hr.2.2⟩
  | copy => exact ⟨hr.1, hr.2.1, hlt hr.2.2.1, hr.2.2.2⟩
  | forward | stamp =>
    obtain ⟨hb, hcurrent, hd, hc⟩ := hr
    refine ⟨hb, hcurrent, hlt hd, ?_⟩
    rw [List.getElem_append_left hd]
    exact hc
  | leave =>
    obtain ⟨hb, hcurrent, hd, hc⟩ := hr
    refine ⟨hb, hcurrent, hlt hd, ?_⟩
    rw [List.getElem_append_left hd]
    exact hc
  | _ => exact hr

theorem Inv.publish (hi : Inv as d s) (hroom : as.length < d + 2) {frame : Frame}
    (hcurrent : s.currentWrite = slot as.length)
    (hcells : s.mem.Has (slot as.length).base frame.stored)
    (hactual : (s.buf (slot as.length)).actual = frame.actual) :
    Inv (as ++ [frame]) d
      { s.setBuf (slot as.length) BuffStr.publish with writeSwitch := true, writer := .idle } where
  le := Nat.le_trans hi.le (List.prefix_append ..).length_le
  room := by
    rw [List.length_append]
    exact hroom
  shape := by
    have hshape := hi.shape (slot as.length)
    exact shape_update hi.shape ⟨hshape.addr, hshape.next, hshape.length⟩
  slots := by
    refine hi.slots.update ⟨hi.le, hroom⟩ ?_ fun n _ hne => ?_
    · rw [List.getElem?_concat_length]
      exact ⟨rfl, rfl, hcells, hactual⟩
    · rcases Nat.lt_or_gt_of_ne hne with hlt | hgt
      · exact List.getElem?_append_left hlt
      · rw [List.getElem?_eq_none (Nat.le_of_lt hgt), List.getElem?_eq_none]
        rw [List.length_append]
        exact hgt
  offset b hb := by
    have hoffset := congrFun (update_field BuffStr.offset s.buf (b := slot as.length)
      (x := (s.buf (slot as.length)).publish) rfl) b
    exact hoffset.trans (hi.offset b hb)
  reader := hi.reader.accepted frame
  writer := by
    change s.currentWrite = slot ((as ++ [frame]).length + 1)
    rw [List.length_append, hcurrent]
    exact (slot_add_two _).symm

theorem Inv.writeStep (hi : Inv as d s) (hs : s.writeToPingpongBuf = some (t, o)) :
    WriteStep as d t o := by
  have hw := hi.writer
  rw [State.writeToPingpongBuf] at hs
  split at hs
  next => cases hs
  next frame hat =>
    rw [hat] at hw
    cases hs
    refine .runs (hi.writerMoves ?_)
    split
    next hsw => exact hw.trans (congrArg slot (if_pos hsw))
    next hsw => exact ⟨hw.trans (congrArg slot (if_neg hsw)), Bool.not_eq_true _ ▸ hsw⟩
  next frame hat =>
    rw [hat] at hw
    cases hs
    refine .runs (hi.writerMoves ?_)
    change (s.buf s.currentWrite).nextBufAddr = slot as.length
    rw [(hi.shape _).next, hw]
    exact slot_add_two as.length
  next frame hat =>
    rw [hat] at hw
    cases hs
    exact .runs (hi.writerMoves ⟨hw, rfl⟩)
  next frame hat =>
    rw [hat] at hw
    cases hs
    exact .runs (hi.writerMoves ⟨hw.1, hw.1, hw.2⟩)
  next frame b hat =>
    rw [hat] at hw
    obtain ⟨rfl, hcurrent, hswitch⟩ := hw
    split at hs
    next hfree =>
      cases hs
      exact .runs (hi.writerMoves ⟨rfl, hcurrent, hi.writeEnable_iff.mp hfree⟩)
    next hfull =>
      cases hs
      have hlen : as.length = d + 2 :=
        Nat.le_antisymm hi.room (Nat.not_lt.mp (hfull ∘ hi.writeEnable_iff.mpr))
      refine .full frame hlen (hi.writerMoves ?_)
      rw [hswitch]
      exact hcurrent
  next frame b hat =>
    rw [hat] at hw
    obtain ⟨rfl, hcurrent, hroom⟩ := hw
    cases hs
    have hbytes : frame.bytes.take (min bufLen frame.bytes.length) = frame.stored := by
      rw [← List.take_take, List.take_length]
      rfl
    rw [hbytes, (hi.shape _).addr]
    exact .runs (hi.copy hroom hcurrent)
  next frame b hat =>
    rw [hat] at hw
    obtain ⟨rfl, hcurrent, hroom, hcells⟩ := hw
    cases hs
    exact .runs (hi.stamp hroom hcurrent hcells)
  next frame b hat =>
    rw [hat] at hw
    obtain ⟨rfl, hcurrent, hroom, hcells, hactual⟩ := hw
    cases hs
    exact .accepts frame hroom (hi.publish hroom hcurrent hcells hactual)

end Writer

section Run

variable {h : Run} {s t : State} {o : Answer}

/-- `t` differs from `s` at most in the reader and the switch it uses. -/
def ReaderOnly (s t : State) : Prop :=
  t = { s with currentRead := t.currentRead, readSwitch := t.readSwitch, reader := t.reader }

/-- Until it has found a frame, a read takes a pending switch and nothing else. -/
theorem readerOnly_of_reads (hreads : s.reader.reads = none)
    (hs : s.readFromPingpongBuf = some (t, o)) : ReaderOnly s t := by
  rw [State.readFromPingpongBuf] at hs
  split at hs
  next => cases hs
  case h_6 => split at hs <;> cases hs <;> rfl
  case h_2 | h_3 | h_4 | h_5 =>
    cases hs
    rfl
  all_goals
    next hat =>
      rw [hat] at hreads
      cases hreads

/-- The buffer as its two users see it, in the state `s` after `h`. -/
structure Law (h : Run) (s : State) : Prop where
  /-- Each read that finds a frame returns the next one that was accepted. -/
  inOrder : List.Forall₂ Carries ((accepted h).take (delivered h).length) (delivered h)
  apart : ∀ b, s.writer.writes = some b → s.reader.reads ≠ some b
  /-- The unread frames are in the slots that are enabled for the reader. -/
  held : (unread h).length =
    ([BufId.buf1, .buf2].countP fun b => (s.buf b).readEnable)
  /-- A write fails when both slots hold unread frames, and only then. -/
  wrote : ∀ t frame ret, s.step .writer = some (t, .wrote frame ret) →
    ret = 0 ∧ (unread h).length = 2 ∨ ret = bufLen ∧ (unread h).length < 2
  /-- A read fails when there is nothing unread, and only then. -/
  read : ∀ t count ret stored, s.step .reader = some (t, .read count ret stored) →
    stored = none ∧ ret = 0 ∧ unread h = [] ∨ stored.isSome = true ∧ unread h ≠ []
  /-- A read that finds nothing leaves the slots and the writer alone all the way. -/
  empty : ∀ t o, s.reader.reads = none → s.step .reader = some (t, o) → ReaderOnly s t

/-- The invariant of a run. -/
structure Known (h : Run) (s : State) : Prop where
  inOrder : List.Forall₂ Carries ((accepted h).take (delivered h).length) (delivered h)
  inv : Inv (accepted h) (delivered h).length s

theorem Known.silent (hk : Known h s) {e : Event} (hacc : o.accepts = none)
    (hdel : o.delivers = none) (hi : Inv (accepted h) (delivered h).length t) :
    Known (h ++ [(e, o)]) t := by
  have hac : accepted (h ++ [(e, o)]) = accepted h := by
    rw [accepted_concat, hacc]
    exact List.append_nil _
  have hde : delivered (h ++ [(e, o)]) = delivered h := by
    rw [delivered_concat, hdel]
    exact List.append_nil _
  constructor
  · rw [hac, hde]
    exact hk.inOrder
  · rw [hac, hde]
    exact hi

theorem Known.read (hk : Known h s) (hs : s.readFromPingpongBuf = some (t, o)) :
    Known (h ++ [(.reader, o)]) t := by
  cases hk.inv.readStep hs with
  | runs hi => exact hk.silent rfl rfl hi
  | empty _ _ hi => exact hk.silent rfl rfl hi
  | @delivers r hd hc hi =>
    have hac : accepted (h ++ [(.reader, .read r.count r.ret (some r.stored))]) = accepted h :=
      accepted_concat.trans (List.append_nil _)
    have hde : delivered (h ++ [(.reader, .read r.count r.ret (some r.stored))]) =
        delivered h ++ [r] := delivered_concat
    constructor
    · rw [hac, hde, List.length_append, List.length_singleton, List.take_add_one,
        List.getElem?_eq_getElem hd]
      exact List.rel_append hk.inOrder (.cons hc .nil)
    · rw [hac, hde, List.length_append]
      exact hi

theorem Known.write (hk : Known h s) (hs : s.writeToPingpongBuf = some (t, o)) :
    Known (h ++ [(.writer, o)]) t := by
  cases hk.inv.writeStep hs with
  | runs hi => exact hk.silent rfl rfl hi
  | full _ _ hi => exact hk.silent rfl rfl hi
  | accepts frame hroom hi =>
    have hac : accepted (h ++ [(.writer, .wrote frame bufLen)]) = accepted h ++ [frame] :=
      accepted_concat
    have hde : delivered (h ++ [(.writer, .wrote frame bufLen)]) = delivered h :=
      delivered_concat.trans (List.append_nil _)
    constructor
    · rw [hac, hde, List.take_append_of_le_length hk.inv.le]
      exact hk.inOrder
    · rw [hac, hde]
      exact hi

theorem Known.step (hk : Known h s) {e : Event} (hs : s.step e = some (t, o)) :
    Known (h ++ [(e, o)]) t := by
  cases e with
  | readCall count =>
    rw [State.step] at hs
    split at hs
    next hat =>
      cases hs
      have hr := hk.inv.reader
      rw [hat] at hr
      exact hk.silent rfl rfl (hk.inv.readerMoves hr (hat ▸ rfl))
    next => cases hs
  | reader => exact hk.read hs
  | writeCall frame =>
    rw [State.step] at hs
    split at hs
    next hat =>
      cases hs
      have hw := hk.inv.writer
      rw [hat] at hw
      exact hk.silent rfl rfl (hk.inv.writerMoves hw)
    next => cases hs
  | writer => exact hk.write hs

theorem Reader.At.reads {as : List Frame} {d : Nat} {current b : BufId} {switch : Bool}
    {r : Reader} (hr : r.At as d current switch) (hb : r.reads = some b) :
    b = slot d ∧ d < as.length := by
  cases r with
  | measure => exact ⟨Option.some.inj hb ▸ hr.1, hr.2.2⟩
  | copy => exact ⟨Option.some.inj hb ▸ hr.1, hr.2.2.1⟩
  | forward | stamp | leave =>
    obtain ⟨hslot, -, hd, -⟩ := hr
    exact ⟨Option.some.inj hb ▸ hslot, hd⟩
  | _ => cases hb

theorem Writer.At.writes {mem : Mem UInt8} {actual : BufId → UInt32} {n d : Nat}
    {current b : BufId} {switch : Bool} {w : Writer} (hw : w.At mem actual n d current switch)
    (hb : w.writes = some b) : b = slot n ∧ n < d + 2 := by
  cases w with
  | copy => exact ⟨Option.some.inj hb ▸ hw.1, hw.2.2⟩
  | stamp => exact ⟨Option.some.inj hb ▸ hw.1, hw.2.2.1⟩
  | leave => exact ⟨Option.some.inj hb ▸ hw.1, hw.2.2.1⟩
  | _ => cases hb

/-- Each slot is one of the next two. -/
theorem countP_slot (d : Nat) (p : BufId → Bool) :
    [BufId.buf1, .buf2].countP p = [slot d, slot (d + 1)].countP p := by
  have hperm : [BufId.buf1, .buf2].Perm [slot d, slot (d + 1)] := by
    change [BufId.buf1, .buf2].Perm [slot d, (slot d).other]
    cases slot d
    · exact .refl _
    · exact .swap ..
  exact hperm.countP_eq p

theorem Inv.held {as : List Frame} {d : Nat} (hi : Inv as d s) :
    [BufId.buf1, .buf2].countP (fun b => (s.buf b).readEnable) = as.length - d := by
  have hslot : ∀ n, d ≤ n → n < d + 2 →
      (s.buf (slot n)).readEnable = decide (n < as.length) := by
    intro n hdn hnd
    have hold := hi.slots n hdn hnd
    by_cases hn : n < as.length
    · rw [List.getElem?_eq_getElem hn] at hold
      rw [hold.readEnable, decide_eq_true hn]
    · rw [List.getElem?_eq_none (Nat.not_lt.mp hn)] at hold
      rw [hold.readEnable, decide_eq_false hn]
  have hle := hi.le
  have hroom := hi.room
  rw [countP_slot d]
  simp only [List.countP_cons, List.countP_nil, hslot d (Nat.le_refl d) (by omega),
    hslot (d + 1) (by omega) (by omega), decide_eq_true_eq]
  split <;> split <;> omega

theorem Known.law (hk : Known h s) : Law h s where
  inOrder := hk.inOrder
  apart b hw hr := by
    obtain ⟨hwrite, hroom⟩ := hk.inv.writer.writes hw
    obtain ⟨hread, hd⟩ := hk.inv.reader.reads hr
    refine slot_injOn ⟨Nat.le_refl _, by omega⟩ ⟨hk.inv.le, hroom⟩ (Nat.ne_of_gt hd) ?_
    exact hwrite.symm.trans hread
  held := by
    rw [hk.inv.held]
    exact List.length_drop
  wrote t frame ret hs := by
    rw [unread, List.length_drop]
    cases hk.inv.writeStep hs with
    | full _ hlen => exact .inl ⟨rfl, by omega⟩
    | accepts _ hroom => exact .inr ⟨rfl, by omega⟩
  read t count ret stored hs := by
    cases hk.inv.readStep hs with
    | empty _ hlen => exact .inl ⟨rfl, rfl, List.drop_eq_nil_of_le (Nat.le_of_eq hlen)⟩
    | delivers hd => exact .inr ⟨rfl, fun hnil => Nat.not_le.mpr hd (List.drop_eq_nil_iff.mp hnil)⟩
  empty t o hreads hs := readerOnly_of_reads hreads hs

/-- One writer and one reader, in any order of their steps. -/
theorem read_write_frames (memory : Mem UInt8) (actual : BufId → UInt32)
    (hr : (pingpong memory actual).Reaches h s) : Law h s := by
  have hinit : Known [] (pingpong memory actual).init := ⟨.nil, inv_init memory actual⟩
  have hk : Known h s := hr.invariant Known hinit fun hk _ hs => hk.step hs
  exact hk.law

/-- A write of the frame and a read of it, one after the other. -/
def writeThenRead (frame : Frame) (count : Nat) : List Event :=
  .writeCall frame :: List.replicate 6 .writer ++ .readCall count :: List.replicate 8 .reader

theorem read_write_frames_once : ∃ h s, (pingpong (fun _ => 0) fun _ => 0).Reaches h s ∧
    delivered h = [⟨2, 2, ⟨[7, 8], 3⟩⟩] ∧ Law h s := by
  obtain ⟨h, s, hx⟩ : ∃ h s,
      (pingpong (fun _ => 0) fun _ => 0).exec (writeThenRead ⟨[7, 8, 9], 3⟩ 2) = some (h, s) :=
    ⟨_, _, rfl⟩
  have hr := Machine.reaches_of_exec hx
  refine ⟨h, s, hr, ?_, read_write_frames _ _ hr⟩
  cases hx
  rfl

/-- A read with nothing unread can take the switch, and the bytes of a read can be more than the
writer's. -/
theorem read_changes_pointer :
    (¬ ∀ (memory : Mem UInt8) (actual : BufId → UInt32) (h g : Run) (s t : State) (count n : Nat),
      (pingpong memory actual).Reaches h s → unread h = [] →
      (pingpong memory actual).execFrom s (.readCall count :: List.replicate n .reader) =
        some (g, t) → t.reader = .idle → t = s) ∧
    ¬ ∀ (memory : Mem UInt8) (actual : BufId → UInt32) (h : Run) (s : State),
      (pingpong memory actual).Reaches h s →
      List.Forall₂ (fun f d => d.stored.bytes = f.bytes.take (min d.count bufLen))
        ((accepted h).take (delivered h).length) (delivered h) := by
  constructor
  · intro hall
    obtain ⟨h, s, hx⟩ : ∃ h s,
        (pingpong (fun _ => 0) fun _ => 0).exec (writeThenRead ⟨[], 0⟩ 1) = some (h, s) :=
      ⟨_, _, rfl⟩
    have hr := Machine.reaches_of_exec hx
    have hlast : s.currentRead = .buf1 := by
      cases hx
      rfl
    have hunread : unread h = [] := by
      cases hx
      rfl
    obtain ⟨g, t, hg, hidle, hnext⟩ : ∃ g t,
        (pingpong (fun _ => 0) fun _ => 0).execFrom s (.readCall 1 :: List.replicate 5 .reader) =
          some (g, t) ∧ t.reader = .idle ∧ t.currentRead = .buf2 := by
      cases hx
      exact ⟨_, _, rfl, rfl, rfl⟩
    have heq := hall _ _ _ _ _ _ _ _ hr hunread hg hidle
    rw [heq, hlast] at hnext
    cases hnext
  · intro hall
    obtain ⟨h, s, hx⟩ : ∃ h s,
        (pingpong (fun _ => 0) fun _ => 0).exec (writeThenRead ⟨[], 0⟩ 1) = some (h, s) :=
      ⟨_, _, rfl⟩
    have horder := hall _ _ _ _ (Machine.reaches_of_exec hx)
    cases hx
    obtain ⟨hbytes, -⟩ := List.forall₂_cons.mp horder
    cases hbytes

end Run

end BdkRtt.Wlan.PingPong
