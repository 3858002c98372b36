import BdkRtt.Lib.Bytes

namespace BdkRtt.Lib

/-- A tagged value.  In memory the type and the length stand in front of it, as words. -/
structure Tlv where
  type : UInt32
  value : List UInt8
  deriving DecidableEq

namespace Tlv

def size (x : Tlv) : Nat := 8 + x.value.length

def bytes (x : Tlv) : List UInt8 :=
  le32 x.type ++ (le32 (UInt32.ofNat x.value.length) ++ x.value)

@[simp] theorem length_bytes (x : Tlv) : x.bytes.length = x.size := by
  simp only [bytes, size, List.length_append, length_le32]
  omega

def tableSize : List Tlv → Nat
  | [] => 0
  | x :: xs => x.size + tableSize xs

def tableBytes : List Tlv → List UInt8
  | [] => []
  | x :: xs => x.bytes ++ tableBytes xs

@[simp] theorem length_tableBytes (xs : List Tlv) : (tableBytes xs).length = tableSize xs := by
  induction xs with
  | nil => rfl
  | cons x xs ih => rw [tableBytes, tableSize, List.length_append, length_bytes, ih]

/-- The value of the first item of the type. -/
def find (t : UInt32) : List Tlv → Option (List UInt8)
  | [] => none
  | x :: xs => if x.type = t then some x.value else find t xs

/-- Where the first item of the type starts, or the end if there is none. -/
def offset (t : UInt32) : List Tlv → Nat
  | [] => 0
  | x :: xs => if x.type = t then 0 else x.size + offset t xs

/-- `new` over the start of the value of that type, which is a fresh one of `n` zeros at the end
if there is none. -/
def put (t : UInt32) (n : Nat) (new : List UInt8) : List Tlv → List Tlv
  | [] => [⟨t, new ++ (List.replicate n 0).drop new.length⟩]
  | x :: xs =>
    if x.type = t then ⟨t, new ++ x.value.drop new.length⟩ :: xs else x :: put t n new xs

variable {t t' : UInt32} {n : Nat} {new : List UInt8} {xs : List Tlv}

theorem mem_of_find {v : List UInt8} (h : find t xs = some v) : ⟨t, v⟩ ∈ xs := by
  induction xs with
  | nil => cases h
  | cons x xs ih =>
    rw [find] at h
    split at h
    next hx =>
      obtain rfl := Option.some.inj h
      exact List.mem_cons.mpr (.inl (by rw [← hx]))
    next => exact List.mem_cons_of_mem _ (ih h)

theorem offset_lt {v : List UInt8} (h : find t xs = some v) :
    offset t xs + 8 + v.length ≤ tableSize xs := by
  induction xs with
  | nil => cases h
  | cons x xs ih =>
    rw [find] at h
    rw [offset, tableSize]
    split at h
    next hx =>
      obtain rfl := Option.some.inj h
      rw [if_pos hx, size]
      omega
    next hx =>
      have := ih h
      rw [if_neg hx]
      omega

theorem offset_eq (h : find t xs = none) : offset t xs = tableSize xs := by
  induction xs with
  | nil => rfl
  | cons x xs ih =>
    rw [find] at h
    split at h
    next => cases h
    next hx => rw [offset, if_neg hx, tableSize, ih h]

theorem find_put_self (t : UInt32) (n : Nat) (new : List UInt8) (xs : List Tlv) :
    ∃ v, find t (put t n new xs) = some (new ++ v) := by
  induction xs with
  | nil => exact ⟨_, by rw [put, find, if_pos rfl]⟩
  | cons x xs ih =>
    rw [put]
    split
    next => exact ⟨_, by rw [find, if_pos rfl]⟩
    next hx =>
      obtain ⟨v, hv⟩ := ih
      exact ⟨v, by rw [find, if_neg hx, hv]⟩

theorem find_put_other (h : t' ≠ t) : find t' (put t n new xs) = find t' xs := by
  induction xs with
  | nil =>
    simp only [put, find]
    exact if_neg (Ne.symm h)
  | cons x xs ih =>
    rw [put]
    split
    next hx => rw [find, find, if_neg (Ne.symm h), if_neg (by rw [hx]; exact Ne.symm h)]
    next => rw [find, find, ih]

/-- A table keeps its types, and gets the new one. -/
theorem mem_types_put {u : UInt32} :
    u ∈ (put t n new xs).map type ↔ u = t ∨ u ∈ xs.map type := by
  induction xs with
  | nil => simp [put]
  | cons x xs ih =>
    rw [put]
    split
    next hx => simp [hx]
    next =>
      rw [List.map_cons, List.mem_cons, ih, List.map_cons, List.mem_cons]
      exact or_left_comm

theorem nodup_put (h : (xs.map type).Nodup) : ((put t n new xs).map type).Nodup := by
  induction xs with
  | nil => exact List.pairwise_singleton _ _
  | cons x xs ih =>
    obtain ⟨hx, hxs⟩ := List.nodup_cons.mp h
    rw [put]
    split
    next ht =>
      rw [List.map_cons, ← ht]
      exact h
    next ht =>
      rw [List.map_cons]
      exact List.nodup_cons.mpr ⟨fun hmem => (mem_types_put.mp hmem).elim ht hx, ih hxs⟩

/-- An item of the table after a `put` was there, or is the one that was put. -/
theorem mem_put {x : Tlv} (hnew : new.length ≤ n) (hx : x ∈ put t n new xs)
    (hsized : ∀ y ∈ xs, y.type = t → y.value.length = n) :
    x ∈ xs ∨ (x.type = t ∧ x.value.length = n) := by
  induction xs with
  | nil =>
    obtain rfl := List.mem_singleton.mp hx
    refine .inr ⟨rfl, ?_⟩
    simp only [List.length_append, List.length_drop, List.length_replicate]
    omega
  | cons y ys ih =>
    rw [put] at hx
    split at hx
    next hy =>
      cases List.mem_cons.mp hx with
      | inl hxy =>
        have hlen := hsized y (List.mem_cons_self ..) hy
        subst hxy
        refine .inr ⟨rfl, ?_⟩
        simp only [List.length_append, List.length_drop, hlen]
        omega
      | inr hmem => exact .inl (List.mem_cons_of_mem _ hmem)
    next =>
      cases List.mem_cons.mp hx with
      | inl hxy => exact .inl (List.mem_cons.mpr (.inl hxy))
      | inr hmem =>
        exact (ih hmem fun z hz => hsized z (List.mem_cons_of_mem _ hz)).imp
          (List.mem_cons_of_mem _) id

section Image

/-- The item as it is written into a buffer: the value first, then the two words. -/
def writeItem (buf : List UInt8) (o : Nat) (t : UInt32) (n : Nat) (new : List UInt8) : List UInt8 :=
  splice (splice (splice buf (o + 8) new) o (le32 t)) (o + 4) (le32 (UInt32.ofNat n))

theorem writeItem_append (xs ys : List UInt8) (k : Nat) (t : UInt32) (n : Nat)
    (new : List UInt8) :
    writeItem (xs ++ ys) (xs.length + k) t n new = xs ++ writeItem ys k t n new := by
  simp only [writeItem, Nat.add_assoc, splice_append_right]

theorem writeItem_item {w l v : List UInt8} (post : List UInt8) (hw : w.length = 4)
    (hl : l.length = 4) (hv : v.length = n) (hnew : new.length ≤ n) :
    writeItem (w ++ (l ++ v) ++ post) 0 t n new =
      bytes ⟨t, new ++ v.drop new.length⟩ ++ post := by
  have hvalue : splice (w ++ (l ++ v) ++ post) 8 new =
      w ++ (l ++ (new ++ (v.drop new.length ++ post))) := by
    have h := splice_append (w ++ l) (v.take new.length) (v.drop new.length ++ post) new
      (by rw [List.length_take]; omega)
    rw [← List.append_assoc (v.take _), List.take_append_drop, List.length_append, hw, hl] at h
    simpa only [List.append_assoc] using h
  have htype (rest : List UInt8) : splice (w ++ rest) 0 (le32 t) = le32 t ++ rest :=
    splice_append [] w rest (le32 t) hw.symm
  have hlen (rest : List UInt8) : splice (le32 t ++ (l ++ rest)) 4 (le32 (UInt32.ofNat n)) =
      le32 t ++ (le32 (UInt32.ofNat n) ++ rest) :=
    splice_append (le32 t) l rest (le32 (UInt32.ofNat n)) hl.symm
  have hsize : (new ++ v.drop new.length).length = n := by
    rw [List.length_append, List.length_drop]
    omega
  rw [writeItem, Nat.zero_add, hvalue, htype, Nat.zero_add, hlen, bytes, hsize]
  simp only [List.append_assoc]

/-- The room a fresh item needs. -/
def room (t : UInt32) (n : Nat) (xs : List Tlv) : Nat := if find t xs = none then 8 + n else 0

variable (hnew : new.length ≤ n) (hsized : ∀ y ∈ xs, y.type = t → y.value.length = n)
include hnew hsized

theorem tableSize_put : tableSize (put t n new xs) = tableSize xs + room t n xs := by
  induction xs with
  | nil =>
    simp only [put, tableSize, size, room, find, List.length_append, List.length_drop,
      List.length_replicate, if_true]
    omega
  | cons y ys ih =>
    have hys := ih fun z hz => hsized z (List.mem_cons_of_mem _ hz)
    rw [room] at hys ⊢
    rw [put, find]
    split
    next hy =>
      have hlen := hsized y (List.mem_cons_self ..) hy
      simp only [tableSize, size, List.length_append, List.length_drop, reduceCtorEq, if_false]
      omega
    next =>
      rw [tableSize, tableSize, hys]
      omega

/-- Written where the search ended, the item makes the table that `put` gives. -/
theorem writeItem_table :
    writeItem (tableBytes xs ++ List.replicate (room t n xs) 0) (offset t xs) t n new =
      tableBytes (put t n new xs) := by
  induction xs with
  | nil =>
    have hzeros : List.replicate (8 + n) (0 : UInt8) =
        List.replicate 4 0 ++ (List.replicate 4 0 ++ List.replicate n 0) ++ [] := by
      rw [List.append_nil, List.replicate_append_replicate, List.replicate_append_replicate]
      congr 1
      omega
    simp only [tableBytes, room, find, offset, put, if_true, List.nil_append]
    rw [hzeros, writeItem_item [] (List.length_replicate ..) (List.length_replicate ..)
      (List.length_replicate ..) hnew]
  | cons y ys ih =>
    have hys := ih fun z hz => hsized z (List.mem_cons_of_mem _ hz)
    rw [room] at hys ⊢
    rw [offset, put, find]
    split
    next hy =>
      have hlen := hsized y (List.mem_cons_self ..) hy
      rw [if_neg (Option.some_ne_none _), List.replicate_zero, List.append_nil, tableBytes, bytes,
        writeItem_item _ (length_le32 _) (length_le32 _) hlen hnew, tableBytes]
    next =>
      rw [tableBytes, ← length_bytes, List.append_assoc, writeItem_append, hys, tableBytes]

end Image

end Tlv

end BdkRtt.Lib
