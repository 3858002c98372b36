import BdkRtt.Audio.RingBufferSpace

namespace BdkRtt.Audio

open Lib

section Writer

/-- Where `rb_write` is: not called, or in front of one of its steps. -/
inductive RbWriter
  | idle
  /-- The only copy. -/
  | copy (buffer : Mem UInt8) (writeBytes : UInt32)
  /-- `rb->wp += write_bytes` -/
  | advance (writeBytes : UInt32)
  /-- The copy up to the end of the buffer. -/
  | copyTail (buffer : Mem UInt8) (writeBytes remainBytes : UInt32)
  /-- `rb->wp = write_bytes - remain_bytes` -/
  | wrap (buffer : Mem UInt8) (writeBytes remainBytes : UInt32)
  /-- The copy to the start of the buffer. -/
  | copyHead (buffer : Mem UInt8) (writeBytes remainBytes : UInt32)
  /-- The last test, which reads `rb->rp` again. -/
  | test (writeBytes : UInt32)
  /-- `rb->wp = 0` -/
  | reset (writeBytes : UInt32)

/-- What is seen of a step: the bytes it copies into the buffer or hands to the reader, and what a
call returns. -/
structure RbSeen where
  copied : List UInt8 := []
  delivered : List UInt8 := []
  returned : Option UInt32 := none

variable (rb : RbSt)

/-- `rb_write` up to its first copy, or its end. -/
def rbWriteBegin (buffer : Mem UInt8) (size count : UInt32) : RbWriter × RbSeen :=
  let writeBytes := size * count
  if writeBytes = 0 then (.idle, { returned := some 0 })
  else
    let rp := rb.rp
    if rp ≤ rb.wp then
      let remainBytes := rb.capacity - rb.wp + rp
      if remainBytes ≥ writeBytes + rwpSafeInterval then
        let remainBytes := rb.capacity - rb.wp
        if remainBytes ≥ writeBytes then (.copy buffer writeBytes, {})
        else (.copyTail buffer writeBytes remainBytes, {})
      else (.idle, { returned := some 0 })
    else
      let remainBytes := rp - rb.wp
      if remainBytes ≥ writeBytes + rwpSafeInterval then (.copy buffer writeBytes, {})
      else (.idle, { returned := some 0 })

/-- The next step of `rb_write`. -/
def rbWriteGo : RbWriter → Option (RbSt × RbWriter × RbSeen)
  | .idle => none
  | .copy buffer writeBytes =>
    let bytes := buffer.read 0 writeBytes.toNat
    some ({ rb with address := rb.address.write rb.wp.toNat bytes }, .advance writeBytes,
      { copied := bytes })
  | .advance writeBytes => some ({ rb with wp := rb.wp + writeBytes }, .test writeBytes, {})
  | .copyTail buffer writeBytes remainBytes =>
    let bytes := buffer.read 0 remainBytes.toNat
    some ({ rb with address := rb.address.write rb.wp.toNat bytes },
      .wrap buffer writeBytes remainBytes, { copied := bytes })
  | .wrap buffer writeBytes remainBytes =>
    some ({ rb with wp := writeBytes - remainBytes }, .copyHead buffer writeBytes remainBytes, {})
  | .copyHead buffer writeBytes remainBytes =>
    let bytes := buffer.read remainBytes.toNat rb.wp.toNat
    some ({ rb with address := rb.address.write 0 bytes }, .test writeBytes, { copied := bytes })
  | .test writeBytes =>
    if rb.wp ≥ rb.capacity ∧ rb.rp ≠ 0 then some (rb, .reset writeBytes, {})
    else some (rb, .idle, { returned := some writeBytes })
  | .reset writeBytes => some ({ rb with wp := 0 }, .idle, { returned := some writeBytes })

/-- The rest of a write that nothing comes between. -/
def rbWriteRest : Nat → RbSt → RbWriter → RbSeen → RbSt × RbWriter × RbSeen
  | 0, rb, w, seen => (rb, w, seen)
  | n + 1, rb, w, seen =>
    match rbWriteGo rb w with
    | none => (rb, w, seen)
    | some (rb, w, seen') =>
      rbWriteRest n rb w { seen' with copied := seen.copied ++ seen'.copied }

end Writer

section Machine

structure RbRun where
  rb : RbSt
  writer : RbWriter

inductive RbEvent
  | write (buffer : Mem UInt8) (size count : UInt32)
  /-- The write that has begun goes on. -/
  | go
  /-- A complete `rb_read`, made from an interrupt or between two writes. -/
  | read (size count : UInt32)
  | getFillSize

def RbRun.step (s : RbRun) : RbEvent → Option (RbRun × RbSeen)
  | .write buffer size count =>
    match s.writer with
    | .idle =>
      let r := rbWriteBegin s.rb buffer size count
      some ({ s with writer := r.1 }, r.2)
    | _ => none
  | .go => (rbWriteGo s.rb s.writer).map fun r => (⟨r.1, r.2.1⟩, r.2.2)
  | .read size count =>
    let r := rbRead s.rb size count
    some ({ s with rb := r.1 }, { delivered := r.2.bytes, returned := some r.2.ret })
  | .getFillSize => some (s, { returned := some (rbGetFillSize s.rb) })

/-- A buffer whose writes are interrupted by a reader. -/
def preempted (rb : RbSt) : Machine RbRun RbEvent RbSeen where
  init := ⟨rb, .idle⟩
  step := RbRun.step

end Machine

section Whole

variable (rb : RbSt) (buffer : Mem UInt8) (n : UInt32)

/-- A write that ends in `rb'` and returns `ret`. -/
def Ends (r : RbSt × RbWriter × RbSeen) (rb : RbSt) (ret : UInt32) : Prop :=
  r.1 = rb ∧ r.2.1 = .idle ∧ r.2.2.returned = some ret

theorem ends_idle (k : Nat) {ret : UInt32} {seen : RbSeen} (h : seen.returned = some ret) :
    Ends (rbWriteRest k rb .idle seen) rb ret := by
  cases k <;> exact ⟨rfl, rfl, h⟩

theorem ends_test (k : Nat) (seen : RbSeen) :
    Ends (rbWriteRest (k + 2) rb (.test n) seen)
      (if rb.wp ≥ rb.capacity ∧ rb.rp ≠ 0 then { rb with wp := 0 } else rb) n := by
  rw [rbWriteRest, rbWriteGo]
  by_cases hend : rb.wp ≥ rb.capacity ∧ rb.rp ≠ 0
  · rw [if_pos hend, if_pos hend]
    exact ends_idle _ k rfl
  · rw [if_neg hend, if_neg hend]
    exact ends_idle rb (k + 1) rfl

/-- A write that nothing comes between is the write of the other model. -/
theorem rbWriteRest_ends (size count : UInt32) :
    Ends (rbWriteRest 5 rb (rbWriteBegin rb buffer size count).1
        (rbWriteBegin rb buffer size count).2)
      (rbWrite rb buffer size count).1 (rbWrite rb buffer size count).2 := by
  rw [rbWriteBegin, rbWrite, rbStore]
  dsimp only
  by_cases h₀ : size * count = 0
  · rw [if_pos h₀, if_pos h₀]
    exact ends_idle rb 5 rfl
  · rw [if_neg h₀, if_neg h₀]
    by_cases habove : rb.rp ≤ rb.wp
    · rw [if_pos habove, if_pos habove]
      by_cases hspace : rb.capacity - rb.wp + rb.rp ≥ size * count + rwpSafeInterval
      · rw [if_pos hspace, if_pos hspace]
        by_cases hfit : rb.capacity - rb.wp ≥ size * count
        · rw [if_pos hfit, if_pos hfit]
          exact ends_test _ _ 1 _
        · rw [if_neg hfit, if_neg hfit]
          exact ends_test _ _ 0 _
      · rw [if_neg hspace, if_neg hspace]
        exact ends_idle rb 5 rfl
    · rw [if_neg habove, if_neg habove]
      by_cases hspace : rb.rp - rb.wp ≥ size * count + rwpSafeInterval
      · rw [if_pos hspace, if_pos hspace]
        exact ends_test _ _ 1 _
      · rw [if_neg hspace, if_neg hspace]
        exact ends_idle rb 5 rfl

end Whole

end BdkRtt.Audio
