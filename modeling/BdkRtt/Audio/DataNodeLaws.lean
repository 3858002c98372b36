import BdkRtt.Audio.DataNode
import BdkRtt.Lib.Circle
import BdkRtt.Lib.Words

universe u v

namespace BdkRtt.Audio.DataNode

open Lib

section Ring

variable {β : Type u} {α : Type v} {l t : RtDataNodeList β α} {ns : List (RtDataNode β α)}
  {n : RtDataNode β α}

/-- The nodes between the two indices, oldest first. -/
def RtDataNodeList.nodes (l : RtDataNodeList β α) : List (RtDataNode β α) :=
  l.node.arc l.size l.readIndex l.nodeCount

/-- Counted on without end, `write_index` is as far ahead of `read_index` as there are nodes. -/
structure Ringed (l : RtDataNodeList β α) (ns : List (RtDataNode β α)) (pos : Nat) : Prop where
  read : l.readIndex = pos % l.size
  write : l.writeIndex = (pos + ns.length) % l.size
  room : ns.length < l.size
  nodes : l.node.arc l.size pos ns.length = ns

def Holds (l : RtDataNodeList β α) (ns : List (RtDataNode β α)) : Prop := ∃ pos, Ringed l ns pos

theorem holds_init [Inhabited β] {size : Nat} (hsize : 2 ≤ size) :
    Holds (rtDataNodeInit (α := α) size : RtDataNodeList β α) [] :=
  ⟨0, (Nat.zero_mod _).symm, (Nat.zero_mod _).symm, Nat.lt_of_lt_of_le Nat.two_pos hsize, rfl⟩

theorem nextIndex_mod {pos : Nat} (hsize : 0 < l.size) :
    l.nextIndex (pos % l.size) = (pos + 1) % l.size := by
  have hlt := Nat.mod_lt pos hsize
  rw [succ_mod_cases hsize, RtDataNodeList.nextIndex]
  by_cases hend : pos % l.size + 1 = l.size
  · rw [if_pos (by omega), if_pos hend]
  · rw [if_neg (by omega), if_neg hend]

theorem Holds.nodeCount (h : Holds l ns) : l.nodeCount = ns.length := by
  obtain ⟨pos, hr⟩ := h
  rw [RtDataNodeList.nodeCount, hr.read, hr.write]
  have hlt := Nat.mod_lt pos (Nat.zero_lt_of_lt hr.room)
  rcases add_mod_cases (i := pos) hr.room with ⟨heq, -⟩ | heq
  · rw [heq, if_pos (Nat.le_add_right ..), Nat.add_sub_cancel_left]
  · have hroom := hr.room
    rw [if_neg (by omega)]
    omega

theorem Holds.eq_nodes (h : Holds l ns) : l.nodes = ns := by
  have hcount := h.nodeCount
  obtain ⟨pos, hr⟩ := h
  rw [RtDataNodeList.nodes, hcount, hr.read]
  unfold Mem.arc
  rw [circle_mod]
  exact hr.nodes

theorem Holds.empty_iff (h : Holds l ns) : l.readIndex = l.writeIndex ↔ ns = [] := by
  obtain ⟨pos, hr⟩ := h
  rw [hr.read, hr.write]
  constructor
  · intro heq
    by_contra hne
    exact mod_ne_of_lt (Nat.lt_add_of_pos_right (List.length_pos_iff.mpr hne))
      (Nat.add_lt_add_left hr.room pos) heq.symm
  · rintro rfl
    rfl

theorem Holds.head (h : Holds l (n :: ns)) : l.node l.readIndex = n := by
  obtain ⟨pos, hr⟩ := h
  have hnodes := hr.nodes
  rw [List.length_cons, Mem.arc_succ] at hnodes
  rw [hr.read]
  exact (List.cons.inj hnodes).1

/-- The list is full when the index behind `write_index` is `read_index`. -/
theorem Holds.full_iff (h : Holds l ns) :
    l.nextIndex l.writeIndex = l.readIndex ↔ ns.length = l.size - 1 := by
  obtain ⟨pos, hr⟩ := h
  have hroom := hr.room
  rw [hr.write, nextIndex_mod (Nat.zero_lt_of_lt hroom), hr.read]
  constructor
  · intro heq
    by_contra hne
    have hbehind : pos < pos + ns.length + 1 := by omega
    have hround : pos + ns.length + 1 < pos + l.size := by omega
    exact mod_ne_of_lt hbehind hround heq
  · intro hlen
    rw [show pos + ns.length + 1 = pos + l.size by omega, Nat.add_mod_right]

theorem Holds.write (h : Holds l ns) {ret : Int32} (hw : l.rtDataNodeWrite n = some (t, ret)) :
    Holds t (ns ++ [n]) ∧ t.readIndex = l.readIndex ∧ t.dataOffset = l.dataOffset ∧
      t.size = l.size := by
  have hfull := h.full_iff
  obtain ⟨pos, hr⟩ := h
  have hroom := hr.room
  unfold RtDataNodeList.rtDataNodeWrite at hw
  dsimp only at hw
  split at hw
  case isTrue => cases hw
  case isFalse hnext =>
    cases hw
    have hlen : ns.length ≠ l.size - 1 := mt hfull.mpr hnext
    refine ⟨⟨pos, hr.read, ?_, ?_, ?_⟩, rfl, rfl, rfl⟩
    · rw [List.length_append, List.length_singleton, ← Nat.add_assoc]
      change l.nextIndex l.writeIndex = _
      rw [hr.write, nextIndex_mod (Nat.zero_lt_of_lt hroom)]
    · rw [List.length_append, List.length_singleton]
      change _ < l.size
      omega
    · rw [List.length_append, List.length_singleton]
      change (l.node.write l.writeIndex [n]).arc l.size pos (ns.length + 1) = _
      rw [hr.write, Mem.arc_push n hroom, hr.nodes]

theorem Holds.write_none (h : Holds l ns) :
    l.rtDataNodeWrite n = none ↔ ns.length = l.size - 1 := by
  rw [← h.full_iff]
  unfold RtDataNodeList.rtDataNodeWrite
  dsimp only
  split
  case isTrue heq => exact iff_of_true rfl heq
  case isFalse hne => exact iff_of_false nofun hne

/-- The offset says nothing about the ring. -/
theorem Holds.setOffset (h : Holds l ns) (dataOffset : UInt32) :
    Holds { l with dataOffset := dataOffset } ns :=
  let ⟨pos, hr⟩ := h
  ⟨pos, hr.read, hr.write, hr.room, hr.nodes⟩

theorem Holds.next (h : Holds l (n :: ns)) :
    Holds { l with readIndex := l.nextIndex l.readIndex, dataOffset := 0 } ns := by
  obtain ⟨pos, hr⟩ := h
  have hroom := hr.room
  rw [List.length_cons] at hroom
  have hnodes := hr.nodes
  rw [List.length_cons, Mem.arc_succ] at hnodes
  refine ⟨pos + 1, ?_, ?_, Nat.lt_of_succ_lt hroom, (List.cons.inj hnodes).2⟩
  · change l.nextIndex l.readIndex = _
    rw [hr.read, nextIndex_mod (Nat.zero_lt_of_lt hroom)]
  · change l.writeIndex = _
    rw [hr.write, List.length_cons, Nat.add_right_comm, Nat.add_assoc]

/-- The head is the last node when the index behind it is `write_index`. -/
theorem Holds.last_iff (h : Holds l (n :: ns)) :
    l.nextIndex l.readIndex = l.writeIndex ↔ ns = [] :=
  h.next.empty_iff

end Ring

section Rest

variable {β : Type u} {α : Type v}

def RtDataNode.chunk (n : RtDataNode β α) : β × List α := (n.dataPtr, n.data)

/-- What the nodes hold when the first of them has been read up to `dataOffset`. -/
def rest (dataOffset : Nat) : List (RtDataNode β α) → Chunks β α
  | [] => []
  | n :: ns => (n.dataPtr, n.data.drop dataOffset) :: ns.map RtDataNode.chunk

theorem rest_zero (ns : List (RtDataNode β α)) : rest 0 ns = ns.map RtDataNode.chunk := by
  cases ns <;> rfl

/-- The offset lies in the first node. -/
def OffsetIn (dataOffset : Nat) : List (RtDataNode β α) → Prop
  | [] => dataOffset = 0
  | n :: _ => dataOffset ≤ n.data.length

theorem offsetIn_zero (ns : List (RtDataNode β α)) : OffsetIn 0 ns := by
  cases ns with
  | nil => rfl
  | cons n ns => exact Nat.zero_le _

theorem rest_append {off : Nat} {ns : List (RtDataNode β α)} (h : OffsetIn off ns)
    (n : RtDataNode β α) : rest off (ns ++ [n]) = rest off ns ++ [n.chunk] := by
  cases ns with
  | nil =>
    obtain rfl : off = 0 := h
    rfl
  | cons m ns => simp [rest]

theorem OffsetIn.append {off : Nat} {ns : List (RtDataNode β α)} (h : OffsetIn off ns)
    (n : RtDataNode β α) : OffsetIn off (ns ++ [n]) := by
  cases ns with
  | nil =>
    obtain rfl : off = 0 := h
    exact Nat.zero_le _
  | cons m ns => exact h

end Rest

section View

variable {β : Type u} {α : Type v}

/-- The read is going to end without another round. -/
abbrev Ends (v : Locals β α) (nextIndex writeIndex : Nat) : Prop :=
  nextIndex = writeIndex ∨ ¬ v.readOffset < v.size

/-- The nodes that a read has finished before it is settled. -/
def Reader.passed : Reader β α → Chunks β α
  | .idle => []
  | .body v | .completed v => v.passed
  | .looked v nextIndex writeIndex => if Ends v nextIndex writeIndex then [] else v.passed

/-- What has been copied to the buffer. -/
def Reader.dst : Reader β α → List α
  | .idle => []
  | .body v | .completed v | .looked v .. => v.dst

/-- The read that has yet to return. -/
def Reader.asked : Reader β α → List (UInt32 × Bool)
  | .idle => []
  | .body v | .completed v | .looked v .. => [(v.size, v.buffer)]

/-- What a read that is settled has yet to return. -/
def Reader.owed : Reader β α → List (UInt32 × List α)
  | .looked v nextIndex writeIndex =>
    if Ends v nextIndex writeIndex then [(v.size, v.passed.elems)] else []
  | _ => []

/-- What is left of the nodes in the ring; the first of them may be finished. -/
def Reader.left (r : Reader β α) (dataOffset : Nat) (ns : List (RtDataNode β α)) : Chunks β α :=
  match r with
  | .idle | .body _ => rest dataOffset ns
  | .completed _ | .looked .. => rest 0 ns.tail

def State.left (s : State β α) : Chunks β α :=
  s.reader.left s.list.dataOffset.toNat s.list.nodes

/-- The queue as the callers see it: a read takes its bytes out when it is settled. -/
def State.queue (s : State β α) : Chunks β α := s.reader.passed ++ s.left

structure Counted (v : Locals β α) : Prop where
  length : v.readOffset.toNat = v.passed.elems.length
  le : v.readOffset.toNat ≤ v.size.toNat
  dst : v.dst = if v.buffer then v.passed.elems else []

/-- The last node was begun when the read still wanted a byte, or was its first. -/
def Finished (v : Locals β α) : Prop :=
  ∃ p i xs, v.passed = p ++ [(i, xs)] ∧ (p = [] ∨ (Chunks.elems p).length < v.size.toNat)

def ReaderOk (l : RtDataNodeList β α) (ns : List (RtDataNode β α)) : Reader β α → Prop
  | .idle => OffsetIn l.dataOffset.toNat ns
  | .body v => OffsetIn l.dataOffset.toNat ns ∧ ns ≠ [] ∧ Counted v ∧
    (v.passed = [] ∨ v.readOffset < v.size)
  | .completed v => ns ≠ [] ∧ Counted v ∧ Finished v
  | .looked v nextIndex writeIndex => ns ≠ [] ∧ Counted v ∧
    nextIndex = l.nextIndex l.readIndex ∧ (nextIndex ≠ writeIndex → ns.tail ≠ [])

/-- The ring holds its nodes, and the read in progress is within them. -/
def Inv (s : State β α) : Prop := ∃ ns, Holds s.list ns ∧ ReaderOk s.list ns s.reader

/-- The calls as a queue of chunks sees them: a read counts where it is settled. -/
def asChunks : Event β α × Answer β α → Chunks.Call β α × Chunks.Answer β α
  | (.rtDataNodeWrite node, a) =>
    match a.written with
    | some _ => (.push node.dataPtr node.data, .done)
    | none => (.idle, .done)
  | (.rtDataNodeEmpty _, a) => (.flush, .flushed a.completed)
  | (.rtDataNodeRead .., a) | (.go, a) =>
    match a.settled with
    | some r => (.pop r.size.toNat, .popped r.taken r.finished)
    | none => (.idle, .done)

/-- A read has copied what it takes and returns how much it is, in the 32 bits of an `int`. -/
structure Returned.Right (r : Returned α) : Prop where
  word : r.ret.toUInt32.toNat = r.taken.length
  le : r.taken.length ≤ r.size.toNat
  ret : r.taken.length < 2 ^ 31 → r.ret.toInt = r.taken.length
  dst : r.dst = if r.buffer then r.taken else []

def askedBy : Event β α → List (UInt32 × Bool)
  | .rtDataNodeRead size buffer => [(size, buffer)]
  | _ => []

def servedBy (a : Answer β α) : List (UInt32 × Bool) :=
  a.returned.toList.map fun r => (r.size, r.buffer)

def settledBy (a : Answer β α) : List (UInt32 × List α) :=
  a.settled.toList.map fun r => (r.size, r.taken)

def returnedBy (a : Answer β α) : List (UInt32 × List α) :=
  a.returned.toList.map fun r => (r.size, r.taken)

/-- One step, as the queue of chunks sees it. -/
structure Stepped (s : State β α) (e : Event β α) (t : State β α) (o : Answer β α) : Prop where
  inv : Inv t
  queue : Chunks.step s.queue (asChunks (e, o)).1 = (t.queue, (asChunks (e, o)).2)
  completed : Chunks.owners s.reader.passed ++ o.completed =
    Chunks.finishedBy (asChunks (e, o)) ++ Chunks.owners t.reader.passed
  asked : s.reader.asked ++ askedBy e = servedBy o ++ t.reader.asked
  settled : s.reader.owed ++ settledBy o = returnedBy o ++ t.reader.owed
  copied : ∀ m, s.reader.asked ++ askedBy e = [(m, true)] → s.reader.passed.elems ++ o.copied =
    Chunks.poppedBy (asChunks (e, o)) ++ t.reader.passed.elems
  dst : s.reader.dst ++ o.copied = (o.returned.map Returned.dst).getD t.reader.dst
  returned : ∀ r ∈ o.returned, r.Right

end View

section Step

variable {β : Type u} {α : Type v} {s : State β α} {l : RtDataNodeList β α}
  {ns : List (RtDataNode β α)} {n : RtDataNode β α} {v : Locals β α}

theorem copySize_toNat (want remain : UInt32) :
    (copySize want remain).toUInt32.toNat = min want.toNat remain.toNat := by
  unfold copySize
  dsimp only
  rw [UInt32.toUInt32_toInt32]
  split
  case isTrue hgt =>
    have hgt : remain.toNat < want.toNat := hgt
    rw [UInt32.toUInt32_toInt32]
    omega
  case isFalse hle =>
    have hle : ¬ remain.toNat < want.toNat := hle
    rw [UInt32.toUInt32_toInt32]
    omega

theorem dataSize_toNat (n : RtDataNode β α) : n.dataSize.toNat = n.data.length :=
  UInt32.toNat_ofNat_of_lt' n.length_lt

theorem returned_right {size w : UInt32} {buffer : Bool} {taken dst : List α}
    (hlen : w.toNat = taken.length) (hle : taken.length ≤ size.toNat)
    (hdst : dst = if buffer then taken else []) :
    ({ size, buffer, taken, dst, ret := w.toInt32 } : Returned α).Right := by
  refine ⟨hlen, hle, fun hlt : taken.length < 2 ^ 31 => ?_, hdst⟩
  change w.toInt32.toInt = taken.length
  have hlt : 2 * w.toNat < 2 ^ 32 := by omega
  rw [← hlen, ← Int32.toInt_toBitVec]
  exact BitVec.toInt_eq_toNat_of_lt hlt

theorem left_eq (h : Holds l ns) (r : Reader β α) :
    State.left ⟨l, r⟩ = r.left l.dataOffset.toNat ns := by
  rw [State.left, h.eq_nodes]

theorem queue_eq (h : Holds l ns) (r : Reader β α) :
    State.queue ⟨l, r⟩ = r.passed ++ r.left l.dataOffset.toNat ns := by
  rw [State.queue, left_eq h]

/-- A node behind the others is a chunk behind the others. -/
theorem left_append {r : Reader β α} (h : ReaderOk l ns r) :
    r.left l.dataOffset.toNat (ns ++ [n]) = r.left l.dataOffset.toNat ns ++ [n.chunk] := by
  cases r with
  | idle => exact rest_append h n
  | body v => exact rest_append h.1 n
  | completed v | looked v =>
    change rest 0 (ns ++ [n]).tail = rest 0 ns.tail ++ [n.chunk]
    rw [rest_zero, rest_zero, List.tail_append_of_ne_nil h.1, List.map_append]
    rfl

theorem ReaderOk.append {t : RtDataNodeList β α} {r : Reader β α} (h : ReaderOk l ns r)
    (hread : t.readIndex = l.readIndex) (hoffset : t.dataOffset = l.dataOffset)
    (hsize : t.size = l.size) : ReaderOk t (ns ++ [n]) r := by
  have hne : ns ++ [n] ≠ [] := List.append_ne_nil_of_right_ne_nil _ (List.cons_ne_nil _ _)
  cases r with
  | idle =>
    change OffsetIn t.dataOffset.toNat (ns ++ [n])
    rw [hoffset]
    exact OffsetIn.append h n
  | body v =>
    obtain ⟨hin, -, hv, hwants⟩ := h
    refine ⟨?_, hne, hv, hwants⟩
    rw [hoffset]
    exact hin.append n
  | completed v => exact ⟨hne, h.2⟩
  | looked v nextIndex writeIndex =>
    obtain ⟨hns, hv, hnext, htail⟩ := h
    refine ⟨hne, hv, ?_, fun hw => ?_⟩
    · rw [hnext, RtDataNodeList.nextIndex, RtDataNodeList.nextIndex, hread, hsize]
    · rw [List.tail_append_of_ne_nil hns]
      exact List.append_ne_nil_of_left_ne_nil (htail hw) _

/-- A write adds a chunk, whatever the read in progress has come to. -/
theorem stepped_write (h : Inv s) {l' : RtDataNodeList β α} {ret : Int32}
    (hw : s.list.rtDataNodeWrite n = some (l', ret)) :
    Stepped s (.rtDataNodeWrite n) { s with list := l' } { written := some ret } := by
  obtain ⟨l, r⟩ := s
  obtain ⟨ns, hns, hr⟩ := h
  obtain ⟨hns', hread, hoffset, hsize⟩ := hns.write hw
  refine ⟨⟨_, hns', hr.append hread hoffset hsize⟩, ?_, List.append_nil _, List.append_nil _,
    List.append_nil _, fun _ _ => List.append_nil _,
    List.append_nil _, nofun⟩
  · refine Prod.ext ?_ rfl
    change State.queue ⟨l, r⟩ ++ [n.chunk] = State.queue ⟨l', r⟩
    rw [queue_eq hns, queue_eq hns', hoffset, left_append hr,
      List.append_assoc]

theorem stepped_full (h : Inv s) : Stepped s (.rtDataNodeWrite n) s {} :=
  ⟨h, rfl, List.append_nil _, List.append_nil _, List.append_nil _, fun _ _ => List.append_nil _,
    List.append_nil _, nofun⟩

theorem stepped_read (h : Inv s) (hidle : s.reader = .idle) (size : UInt32) (buffer : Bool) :
    Stepped s (.rtDataNodeRead size buffer)
      { s with reader := (s.list.rtDataNodeRead size buffer).1 }
      (s.list.rtDataNodeRead size buffer).2 := by
  obtain ⟨l, r⟩ := s
  obtain rfl : r = .idle := hidle
  obtain ⟨ns, hns, hr⟩ := h
  unfold RtDataNodeList.rtDataNodeRead
  dsimp only
  split
  case isTrue heq =>
    obtain rfl : ns = [] := hns.empty_iff.mp heq
    refine ⟨⟨[], hns, hr⟩, ?_, rfl, rfl, rfl, fun _ _ => rfl, rfl, ?_⟩
    · rw [queue_eq hns]
      exact Prod.ext rfl (congrArg (Chunks.Answer.popped · []) List.take_nil)
    · rintro _ ⟨⟩
      exact returned_right rfl (Nat.zero_le _) (by cases buffer <;> rfl)
  case isFalse hne =>
    have hcounted : Counted
        ({ size, buffer, readOffset := 0, dst := [], passed := [] } : Locals β α) :=
      ⟨rfl, Nat.zero_le _, by cases buffer <;> rfl⟩
    exact ⟨⟨ns, hns, hr, mt hns.empty_iff.mpr hne, hcounted, .inl rfl⟩, rfl, rfl, rfl, rfl,
      fun _ _ => rfl, rfl, nofun⟩

/-- A read that ends behind a node has taken the nodes it finished and no others. -/
theorem Finished.step_pop (h : Finished v) (hv : Counted v) {q : Chunks β α}
    (hend : v.passed.elems.length = v.size.toNat ∨ q = []) :
    Chunks.step (v.passed ++ q) (.pop v.size.toNat) =
      (q, .popped v.passed.elems v.passed.owners) := by
  obtain ⟨p, i, xs, heq, hwants⟩ := h
  have hlen : v.passed.elems.length = (Chunks.elems p).length + xs.length := by
    rw [heq, Chunks.elems_append, Chunks.elems_cons, Chunks.elems_nil, List.append_nil,
      List.length_append]
  have hle := hv.length ▸ hv.le
  have hpop : Chunks.pop v.size.toNat (v.passed ++ q) = (v.passed.owners, q) := by
    rw [heq, List.append_assoc, List.singleton_append,
      Chunks.pop_exact hwants (hlen ▸ hle) (hlen ▸ hend), Chunks.owners_append]
    rfl
  have htake : (v.passed ++ q).elems.take v.size.toNat = v.passed.elems := by
    rcases hend with hall | rfl
    · rw [Chunks.elems_append, ← hall, List.take_left]
    · rw [List.append_nil, List.take_of_length_le hle]
  rw [Chunks.step, hpop, htake]

theorem stepped_look (h : Inv s) (hat : s.reader = .completed v) :
    Stepped s .go { s with reader := (s.list.readLook v).1 } (s.list.readLook v).2 := by
  obtain ⟨l, r⟩ := s
  obtain rfl : r = .completed v := hat
  obtain ⟨ns, hns, hne, hcounted, hfinished⟩ := h
  obtain ⟨n, ns, rfl⟩ := List.exists_cons_of_ne_nil hne
  have hlast : l.nextIndex l.readIndex = l.writeIndex ↔ ns = [] := hns.last_iff
  have hinv : Inv ⟨l, (l.readLook v).1⟩ :=
    ⟨n :: ns, hns, hne, hcounted, rfl, fun hw => mt hlast.mpr hw⟩
  have hpassed : Reader.passed (l.readLook v).1 =
      if Ends v (l.nextIndex l.readIndex) l.writeIndex then [] else v.passed := rfl
  have howed : Reader.owed (l.readLook v).1 =
      if Ends v (l.nextIndex l.readIndex) l.writeIndex then [(v.size, v.passed.elems)] else [] :=
    rfl
  have hanswer : (l.readLook v).2 =
      if Ends v (l.nextIndex l.readIndex) l.writeIndex then
        { settled := some { size := v.size, taken := v.passed.elems, finished := v.passed.owners } }
      else {} := rfl
  have hqueue : (⟨l, (l.readLook v).1⟩ : State β α).queue =
      Reader.passed (l.readLook v).1 ++ rest 0 ns := queue_eq hns _
  by_cases hends : Ends v (l.nextIndex l.readIndex) l.writeIndex
  case neg =>
    rw [if_neg hends] at hpassed howed hanswer
    rw [hanswer]
    refine ⟨hinv, ?_, ?_, rfl, ?_, fun _ _ => ?_, List.append_nil _, nofun⟩
    · refine Prod.ext ?_ rfl
      rw [hqueue, hpassed]
      exact queue_eq hns (.completed v)
    · rw [hpassed]
      exact List.append_nil _
    · rw [howed]
      rfl
    · rw [hpassed]
      exact List.append_nil _
  case pos =>
    rw [if_pos hends] at hpassed howed hanswer
    rw [hanswer]
    refine ⟨hinv, ?_, ?_, rfl, ?_, fun _ _ => ?_, List.append_nil _, nofun⟩
    · rw [hqueue, hpassed, queue_eq hns]
      refine hfinished.step_pop hcounted ?_
      rcases hends with hlastOne | hdone
      · rw [hlast.mp hlastOne]
        exact .inr rfl
      · have hdone : ¬ v.readOffset.toNat < v.size.toNat := hdone
        have hall := Nat.le_antisymm hcounted.le (Nat.not_lt.mp hdone)
        exact .inl (hcounted.length.symm.trans hall)
    · rw [hpassed]
      rfl
    · rw [howed]
      rfl
    · rw [hpassed]
      rfl

/-- What one round copies, in numbers. -/
theorem copy_toNat (hin : l.dataOffset.toNat ≤ n.data.length) (hv : Counted v) :
    (copySize (v.size - v.readOffset) (n.dataSize - l.dataOffset)).toUInt32.toNat =
      min (v.size.toNat - v.readOffset.toNat) (n.data.length - l.dataOffset.toNat) := by
  have hle : l.dataOffset.toNat ≤ n.dataSize.toNat := (dataSize_toNat n).symm ▸ hin
  rw [copySize_toNat, UInt32.toNat_sub_of_le _ _ hv.le, UInt32.toNat_sub_of_le _ _ hle,
    dataSize_toNat]

/-- The variables when a round has copied the `c` bytes that were left of a node. -/
def Locals.advance (v : Locals β α) (c : UInt32) (i : β) (bytes : List α) : Locals β α :=
  { v with
    readOffset := v.readOffset + c
    dst := v.dst ++ if v.buffer then bytes else []
    passed := v.passed ++ [(i, bytes)] }

theorem Counted.advance (h : Counted v) {c : UInt32} {i : β} {bytes : List α}
    (hc : c.toNat ≤ v.size.toNat - v.readOffset.toNat) (hbytes : bytes.length = c.toNat) :
    Counted (v.advance c i bytes) := by
  have hle := h.le
  have hadd : (v.readOffset + c).toNat = v.readOffset.toNat + c.toNat := by
    have hlt := v.size.toNat_lt
    rw [toNat_add_of_lt (by omega)]
  refine ⟨?_, ?_, ?_⟩
  · change (v.readOffset + c).toNat = (v.passed ++ [(i, bytes)]).elems.length
    rw [hadd, Chunks.elems_append, List.length_append, h.length]
    simp [hbytes]
  · change (v.readOffset + c).toNat ≤ v.size.toNat
    omega
  · change (v.dst ++ if v.buffer then bytes else []) =
      if v.buffer then (v.passed ++ [(i, bytes)]).elems else []
    rw [h.dst, Chunks.elems_append]
    cases v.buffer <;> simp

/-- A read that the node outlasts takes what is still wanted off the node. -/
theorem step_pop_within {p : Chunks β α} {i : β} {xs : List α} {q : Chunks β α} {m : Nat}
    (hwants : p = [] ∨ p.elems.length < m) (hlt : m - p.elems.length < xs.length)
    (hle : p.elems.length ≤ m) :
    Chunks.step (p ++ (i, xs) :: q) (.pop m) =
      (((i, xs.drop (m - p.elems.length)) :: q),
        .popped (p.elems ++ xs.take (m - p.elems.length)) p.owners) := by
  have hpop : Chunks.pop m (p ++ (i, xs) :: q) =
      (p.owners, (i, xs.drop (m - p.elems.length)) :: q) := by
    rw [Chunks.pop_append hwants, Chunks.pop, if_pos hlt, List.append_nil]
  have htake : (p ++ (i, xs) :: q).elems.take m = p.elems ++ xs.take (m - p.elems.length) := by
    rw [Chunks.elems_append, List.take_append, List.take_of_length_le hle, Chunks.elems_cons,
      List.take_append_of_le_length (Nat.le_of_lt hlt)]
  rw [Chunks.step, hpop, htake]

/-- The list when a round has copied `c` bytes. -/
def RtDataNodeList.advance (l : RtDataNodeList β α) (c : UInt32) : RtDataNodeList β α :=
  { l with dataOffset := l.dataOffset + c }

/-- A round takes all that is left of the node, or all that is wanted. -/
theorem readBody_cases (hns : Holds l (n :: ns)) (hin : l.dataOffset.toNat ≤ n.data.length)
    (hv : Counted v) : ∃ c : UInt32,
    (l.dataOffset + c).toNat = l.dataOffset.toNat + c.toNat ∧
    ((c.toNat = n.data.length - l.dataOffset.toNat ∧
      c.toNat ≤ v.size.toNat - v.readOffset.toNat ∧
      l.readBody v = (l.advance c,
        .completed (v.advance c n.dataPtr (n.data.drop l.dataOffset.toNat)),
        { copied := if v.buffer then n.data.drop l.dataOffset.toNat else []
          completed := [n.dataPtr] })) ∨
    (c.toNat = v.size.toNat - v.readOffset.toNat ∧
      c.toNat < n.data.length - l.dataOffset.toNat ∧
      ∃ bytes, bytes = (n.data.drop l.dataOffset.toNat).take c.toNat ∧
        l.readBody v = (l.advance c, .idle,
          { copied := if v.buffer then bytes else []
            settled := some
              { size := v.size, taken := v.passed.elems ++ bytes, finished := v.passed.owners }
            returned := some
              { size := v.size, buffer := v.buffer, taken := v.passed.elems ++ bytes
                dst := v.dst ++ if v.buffer then bytes else []
                ret := v.size.toInt32 } }))) := by
  have hcopy := copy_toNat hin hv
  have hlen := n.length_lt
  have hle := hv.le
  have hsize := v.size.toNat_lt
  unfold RtDataNodeList.readBody
  dsimp only
  rw [hns.head]
  generalize (copySize (v.size - v.readOffset) (n.dataSize - l.dataOffset)).toUInt32 = c at hcopy ⊢
  have hadd : (l.dataOffset + c).toNat = l.dataOffset.toNat + c.toNat :=
    toNat_add_of_lt (by omega)
  refine ⟨c, hadd, ?_⟩
  split
  case isTrue hge =>
    have hge : n.dataSize.toNat ≤ (l.dataOffset + c).toNat := hge
    rw [dataSize_toNat, hadd] at hge
    have hall : (n.data.drop l.dataOffset.toNat).take c.toNat = n.data.drop l.dataOffset.toNat :=
      List.take_of_length_le (by rw [List.length_drop]; omega)
    refine .inl ⟨by omega, by omega, ?_⟩
    rw [hall]
    rfl
  case isFalse hlt =>
    have hlt : ¬ n.dataSize.toNat ≤ (l.dataOffset + c).toNat := hlt
    rw [dataSize_toNat, hadd] at hlt
    have hsum : (v.readOffset + c).toNat = v.readOffset.toNat + c.toNat :=
      toNat_add_of_lt (by omega)
    have hdone : ¬ v.readOffset + c < v.size := by
      refine fun hgt : (v.readOffset + c).toNat < v.size.toNat => ?_
      omega
    rw [if_neg hdone]
    exact .inr ⟨by omega, by omega, _, rfl, rfl⟩

theorem stepped_body (h : Inv s) (hat : s.reader = .body v) :
    Stepped s .go ⟨(s.list.readBody v).1, (s.list.readBody v).2.1⟩ (s.list.readBody v).2.2 := by
  obtain ⟨l, r⟩ := s
  obtain rfl : r = .body v := hat
  obtain ⟨ns, hns, hin, hne, hv, hwants⟩ := h
  obtain ⟨n, ns, rfl⟩ := List.exists_cons_of_ne_nil hne
  have hin : l.dataOffset.toNat ≤ n.data.length := hin
  have hlen := hv.length
  have hle := hv.le
  have hwants : v.passed = [] ∨ v.passed.elems.length < v.size.toNat := by
    rw [← hlen]
    exact hwants
  have hqueue : (⟨l, .body v⟩ : State β α).queue =
      v.passed ++ (n.dataPtr, n.data.drop l.dataOffset.toNat) :: ns.map RtDataNode.chunk :=
    queue_eq hns _
  have hns' (c : UInt32) : Holds (l.advance c) (n :: ns) := hns.setOffset _
  obtain ⟨c, hadd, ⟨hc, hroom, heq⟩ | ⟨hc, hmore, bytes, hbytes, heq⟩⟩ := readBody_cases hns hin hv
  case inl =>
    rw [heq]
    have hcounted := hv.advance (i := n.dataPtr) hroom
      (hc ▸ List.length_drop)
    refine ⟨⟨n :: ns, hns' c, hne, hcounted, _, _, _, rfl, hwants⟩, ?_, ?_, rfl, rfl, ?_,
      rfl, nofun⟩
    · rw [hqueue, queue_eq (hns' c)]
      refine Prod.ext ?_ rfl
      change v.passed ++ (n.dataPtr, n.data.drop l.dataOffset.toNat) :: ns.map RtDataNode.chunk =
        v.passed ++ [(n.dataPtr, n.data.drop l.dataOffset.toNat)] ++ rest 0 ns
      rw [rest_zero, List.append_assoc, List.singleton_append]
    · exact (Chunks.owners_append v.passed [(n.dataPtr, _)]).symm
    · intro m hm
      have hbuffer : v.buffer = true := congrArg Prod.snd (List.cons.inj hm).1
      change v.passed.elems ++ (if v.buffer then _ else _) =
        (v.passed ++ [(n.dataPtr, n.data.drop l.dataOffset.toNat)]).elems
      rw [if_pos hbuffer, Chunks.elems_append, Chunks.elems_cons, Chunks.elems_nil, List.append_nil]
  case inr =>
    rw [heq]
    have hlength : bytes.length = c.toNat := by
      rw [hbytes, List.length_take, List.length_drop]
      omega
    refine ⟨⟨n :: ns, hns' c, ?_⟩, ?_, rfl, rfl, rfl, ?_, rfl, ?_⟩
    · change (l.dataOffset + c).toNat ≤ n.data.length
      rw [hadd]
      exact Nat.le_of_lt (Nat.add_lt_of_lt_sub' hmore)
    · rw [hqueue, queue_eq (hns' c)]
      change Chunks.step _ (.pop v.size.toNat) =
        ((n.dataPtr, n.data.drop (l.dataOffset + c).toNat) :: ns.map RtDataNode.chunk,
          .popped (v.passed.elems ++ bytes) v.passed.owners)
      rw [hadd, hbytes, hc, ← List.drop_drop, hlen]
      refine step_pop_within hwants ?_ (hlen ▸ hle)
      rw [List.length_drop, ← hlen, ← hc]
      exact hmore
    · intro m hm
      have hbuffer : v.buffer = true := congrArg Prod.snd (List.cons.inj hm).1
      change v.passed.elems ++ (if v.buffer then _ else _) = v.passed.elems ++ bytes ++ []
      rw [if_pos hbuffer, List.append_nil]
    · rintro _ ⟨⟩
      have hall : v.size.toNat = (v.passed.elems ++ bytes).length := by
        rw [List.length_append, hlength]
        omega
      refine returned_right hall (Nat.le_of_eq hall.symm) ?_
      rw [hv.dst]
      cases v.buffer <;> rfl

/-- The list behind a node that has been read. -/
def RtDataNodeList.pass (l : RtDataNodeList β α) (nextIndex : Nat) : RtDataNodeList β α :=
  { l with readIndex := nextIndex, dataOffset := 0 }

theorem readNext_cases (l : RtDataNodeList β α) (hv : Counted v) (nextIndex writeIndex : Nat) :
    (Ends v nextIndex writeIndex ∧ ∃ result : UInt32, result.toNat = v.passed.elems.length ∧
      l.readNext v nextIndex writeIndex = (l.pass nextIndex, .idle,
        { returned := some
            { size := v.size, buffer := v.buffer, taken := v.passed.elems, dst := v.dst
              ret := result.toInt32 } })) ∨
    (¬ Ends v nextIndex writeIndex ∧
      l.readNext v nextIndex writeIndex = (l.pass nextIndex, .body v, {})) := by
  unfold RtDataNodeList.readNext
  dsimp only
  by_cases hlast : nextIndex = writeIndex
  · rw [if_pos hlast]
    exact .inl ⟨.inl hlast, v.readOffset, hv.length, rfl⟩
  · rw [if_neg hlast]
    by_cases hwants : v.readOffset < v.size
    · rw [if_pos hwants]
      exact .inr ⟨not_or.mpr ⟨hlast, not_not.mpr hwants⟩, rfl⟩
    · rw [if_neg hwants]
      have hdone : ¬ v.readOffset.toNat < v.size.toNat := hwants
      have hall := Nat.le_antisymm (Nat.not_lt.mp hdone) hv.le
      exact .inl ⟨.inr hwants, v.size, hall.trans hv.length, rfl⟩

theorem stepped_next {nextIndex writeIndex : Nat} (h : Inv s)
    (hat : s.reader = .looked v nextIndex writeIndex) :
    Stepped s .go
      ⟨(s.list.readNext v nextIndex writeIndex).1, (s.list.readNext v nextIndex writeIndex).2.1⟩
      (s.list.readNext v nextIndex writeIndex).2.2 := by
  obtain ⟨l, r⟩ := s
  obtain rfl : r = .looked v nextIndex writeIndex := hat
  obtain ⟨ns, hns, hne, hv, hnext, htail⟩ := h
  obtain ⟨n, ns, rfl⟩ := List.exists_cons_of_ne_nil hne
  have hnext : nextIndex = l.nextIndex l.readIndex := hnext
  have hlen := hv.length
  have hle := hv.le
  have hns' : Holds (l.pass nextIndex) ns := hnext ▸ hns.next
  have hqueue : (⟨l, .looked v nextIndex writeIndex⟩ : State β α).queue =
      (if Ends v nextIndex writeIndex then [] else v.passed) ++ rest 0 ns :=
    queue_eq hns _
  have hpassed : Reader.passed (.looked v nextIndex writeIndex : Reader β α) =
      if Ends v nextIndex writeIndex then [] else v.passed := rfl
  have howed : Reader.owed (.looked v nextIndex writeIndex : Reader β α) =
      if Ends v nextIndex writeIndex then [(v.size, v.passed.elems)] else [] := rfl
  obtain ⟨hends, result, hresult, heq⟩ | ⟨hends, heq⟩ := readNext_cases l hv nextIndex writeIndex
  case inl =>
    rw [if_pos hends] at hqueue hpassed howed
    rw [heq]
    refine ⟨⟨ns, hns', offsetIn_zero ns⟩, ?_, ?_, rfl, ?_, fun _ _ => ?_,
      List.append_nil _, ?_⟩
    · rw [hqueue, queue_eq hns']
      rfl
    · rw [hpassed]
      rfl
    · rw [howed]
      rfl
    · rw [hpassed]
      rfl
    · rintro _ ⟨⟩
      exact returned_right hresult (hlen ▸ hle) hv.dst
  case inr =>
    rw [if_neg hends] at hqueue hpassed howed
    rw [heq]
    obtain ⟨hmore, hwants⟩ := not_or.mp hends
    refine ⟨⟨ns, hns', offsetIn_zero ns, htail hmore, hv, .inr (not_not.mp hwants)⟩, ?_, ?_, rfl,
      ?_, fun _ _ => ?_, List.append_nil _, nofun⟩
    · rw [hqueue, queue_eq hns']
      rfl
    · rw [hpassed]
      exact List.append_nil _
    · rw [howed]
      rfl
    · rw [hpassed]
      exact List.append_nil _

/-- What the parts of a read can be. -/
theorem readGo_cases {t : RtDataNodeList β α} {r r' : Reader β α} {a : Answer β α}
    (hgo : l.readGo r = some (t, r', a)) :
    (∃ v, r = .body v ∧ l.readBody v = (t, r', a)) ∨
    (∃ v, r = .completed v ∧ t = l ∧ l.readLook v = (r', a)) ∨
    (∃ v nextIndex writeIndex, r = .looked v nextIndex writeIndex ∧
      l.readNext v nextIndex writeIndex = (t, r', a)) := by
  cases r with
  | idle => cases hgo
  | body v => exact .inl ⟨v, rfl, Option.some.inj hgo⟩
  | completed v =>
    obtain ⟨rfl, hlook⟩ := Prod.mk.inj (Option.some.inj hgo)
    exact .inr (.inl ⟨v, rfl, rfl, hlook⟩)
  | looked v nextIndex writeIndex =>
    exact .inr (.inr ⟨v, nextIndex, writeIndex, rfl, Option.some.inj hgo⟩)

theorem stepped_go (h : Inv s) {r : Reader β α} {a : Answer β α}
    (hgo : s.list.readGo s.reader = some (l, r, a)) : Stepped s .go ⟨l, r⟩ a := by
  obtain ⟨v, hat, heq⟩ | ⟨v, hat, rfl, heq⟩ | ⟨v, nextIndex, writeIndex, hat, heq⟩ :=
    readGo_cases hgo
  · have hbody := stepped_body h hat
    rw [heq] at hbody
    exact hbody
  · have hlook := stepped_look h hat
    rw [heq] at hlook
    exact hlook
  · have hnext := stepped_next h hat
    rw [heq] at hnext
    exact hnext

/-- What goes out of the nodes in a part of a read is reported in it. -/
theorem Stepped.owners_left {t : State β α} {o : Answer β α} (h : Stepped s .go t o) :
    s.left.owners = o.completed ++ t.left.owners := by
  have hqueue : s.queue.owners = Chunks.finishedBy (asChunks (.go, o)) ++ t.queue.owners := by
    have hstep := h.queue
    rcases o with ⟨written, copied, completed, _ | r, returned⟩
    · obtain ⟨hqueue, -⟩ := Prod.mk.inj hstep
      rw [← hqueue]
      rfl
    · obtain ⟨hqueue, hanswer⟩ := Prod.mk.inj hstep
      obtain ⟨-, hfinished⟩ := Chunks.Answer.popped.inj hanswer
      rw [← hqueue]
      change _ = r.finished ++ _
      rw [← hfinished]
      exact (Chunks.owners_pop _ _).symm
  rw [State.queue, State.queue, Chunks.owners_append, Chunks.owners_append, ← List.append_assoc,
    ← h.completed, List.append_assoc] at hqueue
  exact List.append_cancel_left hqueue

end Step

section Ending

variable {β : Type u} {α : Type v} {s : State β α} {l t : RtDataNodeList β α}
  {r r' : Reader β α} {a : Answer β α} {v : Locals β α}

/-- What a read leaves alone. -/
structure Unwritten (l t : RtDataNodeList β α) : Prop where
  size : t.size = l.size
  writeIndex : t.writeIndex = l.writeIndex

theorem Unwritten.trans {l' : RtDataNodeList β α} (h : Unwritten l l') (h' : Unwritten l' t) :
    Unwritten l t :=
  ⟨h'.size.trans h.size, h'.writeIndex.trans h.writeIndex⟩

theorem readGo_unwritten (hgo : l.readGo r = some (t, r', a)) : Unwritten l t := by
  obtain ⟨v, -, heq⟩ | ⟨v, -, rfl, -⟩ | ⟨v, nextIndex, writeIndex, -, heq⟩ := readGo_cases hgo
  · obtain rfl : (l.readBody v).1 = t := congrArg Prod.fst heq
    unfold RtDataNodeList.readBody
    dsimp only
    split
    · exact ⟨rfl, rfl⟩
    · split <;> exact ⟨rfl, rfl⟩
  · exact ⟨rfl, rfl⟩
  · obtain rfl : (l.readNext v nextIndex writeIndex).1 = t := congrArg Prod.fst heq
    unfold RtDataNodeList.readNext
    dsimp only
    split
    · exact ⟨rfl, rfl⟩
    · split <;> exact ⟨rfl, rfl⟩

/-- How many parts a read has at most to go, with so many nodes in the ring. -/
def Reader.due (nodes : Nat) : Reader β α → Nat
  | .idle => 0
  | .body _ => 3 * nodes
  | .completed _ => 3 * nodes - 1
  | .looked .. => 3 * nodes - 2

/-- Each round looks at a node, and none is looked at twice. -/
theorem readGo_due (h : Inv ⟨l, r⟩) (hgo : l.readGo r = some (t, r', a)) :
    r'.due t.nodeCount < r.due l.nodeCount := by
  obtain ⟨ns, hns, hr⟩ := h
  rw [hns.nodeCount]
  obtain ⟨v, rfl, heq⟩ | ⟨v, rfl, rfl, heq⟩ | ⟨v, nextIndex, writeIndex, rfl, heq⟩ :=
    readGo_cases hgo
  · obtain ⟨hin, hne, hv, -⟩ := hr
    obtain ⟨n, ns, rfl⟩ := List.exists_cons_of_ne_nil hne
    obtain ⟨c, -, ⟨-, -, hbody⟩ | ⟨-, -, bytes, -, hbody⟩⟩ := readBody_cases hns hin hv
    all_goals
      have hns' : Holds (l.advance c) (n :: ns) := hns.setOffset _
      rw [hbody] at heq
      cases heq
      rw [hns'.nodeCount, List.length_cons]
    · change 3 * (ns.length + 1) - 1 < 3 * (ns.length + 1)
      omega
    · change 0 < 3 * (ns.length + 1)
      omega
  · obtain rfl : (t.readLook v).1 = r' := congrArg Prod.fst heq
    have hpos := List.length_pos_iff.mpr hr.1
    rw [hns.nodeCount]
    change 3 * ns.length - 2 < 3 * ns.length - 1
    omega
  · obtain ⟨hne, hv, hnext, -⟩ := hr
    obtain ⟨n, ns, rfl⟩ := List.exists_cons_of_ne_nil hne
    have hnext : nextIndex = l.nextIndex l.readIndex := hnext
    have hns' : Holds (l.pass nextIndex) ns := hnext ▸ hns.next
    rw [List.length_cons]
    obtain ⟨-, result, -, hend⟩ | ⟨-, hmore⟩ := readNext_cases l hv nextIndex writeIndex
    · rw [hend] at heq
      cases heq
      change 0 < 3 * (ns.length + 1) - 2
      omega
    · rw [hmore] at heq
      cases heq
      rw [hns'.nodeCount]
      change 3 * ns.length < 3 * (ns.length + 1) - 2
      omega

/-- The rest of a read is nothing, or a part and the rest behind it. -/
theorem readRest_cases {fuel : Nat} {cs : List β} {ret : Option (Returned α)}
    (hrest : l.readRest (fuel + 1) r = some (t, cs, ret)) :
    (r = .idle ∧ t = l ∧ cs = [] ∧ ret = none) ∨
    ∃ l' r' a cs' ret', l.readGo r = some (l', r', a) ∧
      RtDataNodeList.readRest fuel l' r' = some (t, cs', ret') ∧ cs = a.completed ++ cs' ∧
      ret = a.returned.or ret' := by
  unfold RtDataNodeList.readRest at hrest
  cases hgo : l.readGo r with
  | none =>
    rw [hgo] at hrest
    cases hrest
    cases r with
    | idle => exact .inl ⟨rfl, rfl, rfl, rfl⟩
    | body v | completed v | looked v => cases hgo
  | some q =>
    obtain ⟨l', r', a⟩ := q
    rw [hgo] at hrest
    obtain ⟨⟨t', cs', ret'⟩, hrest', heq⟩ := Option.map_eq_some_iff.mp hrest
    cases heq
    exact .inr ⟨l', r', a, cs', ret', rfl, hrest', rfl, rfl⟩

/-- The rest of a read ends, and reports what goes out of the nodes in it. -/
theorem readRest_spec {fuel : Nat} {cs : List β} {ret : Option (Returned α)} (h : Inv ⟨l, r⟩)
    (hrest : l.readRest fuel r = some (t, cs, ret)) : Inv ⟨t, .idle⟩ ∧ Unwritten l t ∧
      (State.left ⟨l, r⟩).owners = cs ++ (State.left ⟨t, .idle⟩).owners := by
  induction fuel generalizing l r cs ret with
  | zero => cases hrest
  | succ fuel ih =>
    rcases readRest_cases hrest with
      ⟨rfl, rfl, rfl, rfl⟩ | ⟨l', r', a, cs', ret', hgo, hrest', rfl, rfl⟩
    case inl => exact ⟨h, ⟨rfl, rfl⟩, rfl⟩
    case inr =>
      have hstep := stepped_go h hgo
      obtain ⟨hinv, hkept, howners⟩ := ih hstep.inv hrest'
      refine ⟨hinv, (readGo_unwritten hgo).trans hkept, ?_⟩
      rw [hstep.owners_left, howners, List.append_assoc]

theorem readRest_ends {fuel : Nat} (h : Inv ⟨l, r⟩) (hfuel : r.due l.nodeCount < fuel) :
    (l.readRest fuel r).isSome := by
  induction fuel generalizing l r with
  | zero => exact absurd hfuel (Nat.not_lt_zero _)
  | succ fuel ih =>
    unfold RtDataNodeList.readRest
    cases hgo : l.readGo r with
    | none => rfl
    | some q =>
      obtain ⟨l', r', a⟩ := q
      have hdue := readGo_due h hgo
      rw [Option.isSome_map]
      exact ih (stepped_go h hgo).inv (by omega)

theorem read_body (hne : l.readIndex ≠ l.writeIndex) (size : UInt32) (buffer : Bool) :
    (l.rtDataNodeRead size buffer).1 =
      .body { size, buffer, readOffset := 0, dst := [], passed := [] } := by
  unfold RtDataNodeList.rtDataNodeRead
  rw [if_neg hne]

theorem queue_idle (h : Inv ⟨l, .idle⟩) :
    (State.queue ⟨l, .idle⟩).length = l.nodeCount := by
  obtain ⟨ns, hns, -⟩ := h
  rw [queue_eq hns, hns.nodeCount]
  cases ns with
  | nil => rfl
  | cons n ns => exact congrArg (· + 1) (List.length_map _)

theorem queue_nil_iff (h : Inv ⟨l, .idle⟩) :
    State.queue ⟨l, .idle⟩ = [] ↔ l.readIndex = l.writeIndex := by
  obtain ⟨ns, hns, -⟩ := h
  rw [hns.empty_iff, queue_eq hns]
  cases ns with
  | nil => exact iff_of_true rfl rfl
  | cons n ns => exact iff_of_false (List.cons_ne_nil _ _) (List.cons_ne_nil _ _)

/-- A part of a read either leaves it going on or returns from it. -/
theorem Stepped.outcome {s t : State β α} {e : Event β α} {o : Answer β α} (h : Stepped s e t o)
    {m : UInt32} {b : Bool} (hasked : s.reader.asked ++ askedBy e = [(m, b)]) :
    (o.returned = none ∧ t.reader.asked = [(m, b)]) ∨
    ∃ x, o.returned = some x ∧ x.size = m ∧ x.buffer = b ∧ t.reader = .idle := by
  have hserved := h.asked
  rw [hasked] at hserved
  cases hret : o.returned with
  | none =>
    have hby : servedBy o = [] := by rw [servedBy, hret]; rfl
    rw [hby] at hserved
    exact .inl ⟨rfl, hserved.symm⟩
  | some x =>
    have hby : servedBy o = [(x.size, x.buffer)] := by rw [servedBy, hret]; rfl
    rw [hby] at hserved
    obtain ⟨hpair, hnone⟩ := List.cons.inj hserved
    obtain ⟨rfl, rfl⟩ := Prod.mk.inj hpair
    have hnone : t.reader.asked = [] := hnone.symm
    refine .inr ⟨x, rfl, rfl, rfl, ?_⟩
    cases hreader : t.reader with
    | idle => rfl
    | body v | completed v | looked v =>
      rw [hreader] at hnone
      cases hnone

/-- `read_offset` counts what has been copied. -/
theorem readOffset_length (h : Inv s) {m : UInt32} (hasked : s.reader.asked = [(m, true)]) :
    s.reader.readOffset.toNat = s.reader.dst.length ∧ s.reader.dst.length ≤ m.toNat := by
  obtain ⟨l, r⟩ := s
  obtain ⟨ns, -, hr⟩ := h
  have hcounted (v : Locals β α) (hv : Counted v) (hasked : [(v.size, v.buffer)] = [(m, true)]) :
      v.readOffset.toNat = v.dst.length ∧ v.dst.length ≤ m.toNat := by
    obtain ⟨rfl, hbuffer⟩ := Prod.mk.inj (List.cons.inj hasked).1
    rw [hv.dst, if_pos hbuffer, ← hv.length]
    exact ⟨rfl, hv.le⟩
  cases r with
  | idle => cases hasked
  | body v => exact hcounted v hr.2.2.1 hasked
  | completed v => exact hcounted v hr.2.1 hasked
  | looked v nextIndex writeIndex => exact hcounted v hr.2.1 hasked

theorem asChunks_unsettled {o : Answer β α} (h : o.settled = none) :
    asChunks (.go, o) = (.idle, .done) := by
  unfold asChunks
  dsimp only
  rw [h]

theorem asChunks_settled {o : Answer β α} {y : Settled β α} (h : o.settled = some y) :
    asChunks (.go, o) = (.pop y.size.toNat, .popped y.taken y.finished) := by
  unfold asChunks
  dsimp only
  rw [h]

/-- A part of a read either leaves the queue as it is, or settles what the read takes out of it. -/
theorem Stepped.settles {s t : State β α} {o : Answer β α} (h : Stepped s .go t o) :
    (settledBy o = [] ∧ s.queue = t.queue) ∨
    ∃ y : Settled β α, settledBy o = [(y.size, y.taken)] ∧
      Chunks.step s.queue (.pop y.size.toNat) = (t.queue, .popped y.taken y.finished) := by
  have hqueue := h.queue
  cases hset : o.settled with
  | none =>
    rw [asChunks_unsettled hset] at hqueue
    exact .inl ⟨by rw [settledBy, hset]; rfl, congrArg Prod.fst hqueue⟩
  | some y =>
    rw [asChunks_settled hset] at hqueue
    exact .inr ⟨y, by rw [settledBy, hset]; rfl, hqueue⟩

theorem readRest_idle {fuel : Nat} {cs : List β} {ret : Option (Returned α)}
    (hrest : l.readRest fuel .idle = some (t, cs, ret)) : t = l ∧ cs = [] ∧ ret = none := by
  cases fuel with
  | zero => cases hrest
  | succ fuel =>
    cases hrest
    exact ⟨rfl, rfl, rfl⟩

theorem owed_settled {owed : List (UInt32 × List α)} {m k : UInt32} {xs ys : List α}
    (h : owed ++ [(k, ys)] = [(m, xs)]) : owed = [] ∧ k = m ∧ ys = xs := by
  have h : owed ++ [(k, ys)] = [] ++ [(m, xs)] := h
  obtain ⟨hnil, hlast⟩ := List.append_inj' h rfl
  obtain ⟨rfl, rfl⟩ := Prod.mk.inj (List.cons.inj hlast).1
  exact ⟨hnil, rfl, rfl⟩

/-- The rest of a read returns what it takes out of the queue, or what it has already taken. -/
theorem readRest_returned {fuel : Nat} {cs : List β} {ret : Option (Returned α)} {m : UInt32}
    {b : Bool} (h : Inv ⟨l, r⟩) (hasked : r.asked = [(m, b)])
    (hrest : l.readRest fuel r = some (t, cs, ret)) :
    ∃ x, ret = some x ∧ x.Right ∧ x.buffer = b ∧
      ((r.owed = [] ∧ ∃ is, Chunks.step (State.queue ⟨l, r⟩) (.pop m.toNat) =
        (State.queue ⟨t, .idle⟩, .popped x.taken is)) ∨
      (r.owed = [(m, x.taken)] ∧ State.queue ⟨l, r⟩ = State.queue ⟨t, .idle⟩)) := by
  induction fuel generalizing l r cs ret with
  | zero => cases hrest
  | succ fuel ih =>
    rcases readRest_cases hrest with
      ⟨rfl, -⟩ | ⟨l', r', a, cs', ret', hgo, hrest', rfl, rfl⟩
    case inl => cases hasked
    case inr =>
      have hstep := stepped_go h hgo
      have hsettled := hstep.settled
      rcases hstep.outcome ((List.append_nil _).trans hasked) with
        ⟨hnone, hasked'⟩ | ⟨x, hx, rfl, rfl, hidle⟩
      case inl =>
        obtain ⟨x, hret, hright, hbuffer, hcase⟩ := ih hstep.inv hasked' hrest'
        refine ⟨x, by rw [hnone]; exact hret, hright, hbuffer, ?_⟩
        have hby : returnedBy a = [] := by rw [returnedBy, hnone]; rfl
        rw [hby] at hsettled
        rcases hstep.settles with ⟨hby, hsame⟩ | ⟨y, hby, hpop⟩
        case inl =>
          rw [hby, List.append_nil] at hsettled
          have howed : r.owed = r'.owed := hsettled
          rw [hsame, howed]
          exact hcase
        case inr =>
          rw [hby] at hsettled
          have howed : r.owed ++ [(y.size, y.taken)] = r'.owed := hsettled
          rcases hcase with ⟨hnil, -⟩ | ⟨hlater, hsame⟩
          · rw [hnil] at howed
            exact absurd howed (List.append_ne_nil_of_right_ne_nil _ (List.cons_ne_nil _ _))
          · obtain ⟨hnil, hsize, htaken⟩ := owed_settled (howed.trans hlater)
            rw [hsize, htaken, hsame] at hpop
            exact .inl ⟨hnil, y.finished, hpop⟩
      case inr =>
        obtain rfl : r' = .idle := hidle
        obtain ⟨rfl, -, rfl⟩ := readRest_idle hrest'
        refine ⟨x, by rw [hx]; rfl, hstep.returned x hx, rfl, ?_⟩
        have hby : returnedBy a = [(x.size, x.taken)] := by rw [returnedBy, hx]; rfl
        rw [hby] at hsettled
        rcases hstep.settles with ⟨hby, hsame⟩ | ⟨y, hby, hpop⟩
        case inl =>
          rw [hby, List.append_nil] at hsettled
          exact .inr ⟨hsettled, hsame⟩
        case inr =>
          rw [hby] at hsettled
          obtain ⟨hnil, hsize, htaken⟩ := owed_settled hsettled
          rw [hsize, htaken] at hpop
          exact .inl ⟨hnil, y.finished, hpop⟩

theorem readWhole_spec {fuel : Nat} {cs : List β} {ret : Option (Returned α)} {m : UInt32}
    {b : Bool} (h : Inv ⟨l, .idle⟩) (hread : l.readWhole fuel m b = some (t, cs, ret)) :
    Inv ⟨t, .idle⟩ ∧ Unwritten l t ∧ ∃ x, ret = some x ∧ x.Right ∧ x.buffer = b ∧
      Chunks.step (State.queue ⟨l, .idle⟩) (.pop m.toNat) =
        (State.queue ⟨t, .idle⟩, .popped x.taken cs) := by
  obtain ⟨⟨t', cs', ret'⟩, hrest, heq⟩ := Option.map_eq_some_iff.mp hread
  cases heq
  have hstep := stepped_read h rfl m b
  by_cases hempty : l.readIndex = l.writeIndex
  case pos =>
    have hbegun : l.rtDataNodeRead m b =
        (.idle,
          { settled := some { size := m, taken := [], finished := [] }
            returned := some
              { size := m, buffer := b, taken := [], dst := [], ret := (0 : UInt32).toInt32 } }) :=
      if_pos hempty
    dsimp only at hstep
    rw [hbegun] at hrest hstep
    rw [hbegun]
    obtain ⟨rfl, rfl, rfl⟩ := readRest_idle hrest
    have hqueue : State.queue ⟨t', .idle⟩ = [] := (queue_nil_iff h).mpr hempty
    refine ⟨h, ⟨rfl, rfl⟩, _, rfl, hstep.returned _ rfl, rfl, ?_⟩
    rw [hqueue]
    exact Prod.ext rfl (congrArg (Chunks.Answer.popped · []) List.take_nil)
  case neg =>
    have hbegun : l.rtDataNodeRead m b =
        (.body { size := m, buffer := b, readOffset := 0, dst := [], passed := [] }, {}) :=
      if_neg hempty
    dsimp only at hstep
    rw [hbegun] at hrest hstep
    rw [hbegun]
    obtain ⟨hinv, hkept, howners⟩ := readRest_spec hstep.inv hrest
    obtain ⟨x, hret, hright, hbuffer, ⟨-, is, hpop⟩ | ⟨hnil, -⟩⟩ :=
      readRest_returned hstep.inv rfl hrest
    case inr => cases hnil
    have hpop : Chunks.step (State.queue ⟨l, .idle⟩) (.pop m.toNat) = _ := hpop
    have hall := Chunks.owners_pop m.toNat (State.queue ⟨l, .idle⟩)
    rw [(Chunks.step_pop hpop).1] at hall
    obtain rfl : is = cs' := List.append_cancel_right (hall.trans howners)
    exact ⟨hinv, hkept, x, hret, hright, hbuffer, hpop⟩

theorem readWhole_nodeCount {fuel : Nat} {cs : List β} {ret : Option (Returned α)} {m : UInt32}
    {b : Bool} (h : Inv ⟨l, .idle⟩) (hread : l.readWhole fuel m b = some (t, cs, ret)) :
    t.nodeCount ≤ l.nodeCount := by
  obtain ⟨hinv, -, x, -, -, -, hpop⟩ := readWhole_spec h hread
  have hlen := Chunks.length_pop m.toNat (State.queue ⟨l, .idle⟩)
  rw [(Chunks.step_pop hpop).1, queue_idle h, queue_idle hinv] at hlen
  exact hlen ▸ Nat.le_add_left _ _

theorem readWhole_ends {fuel : Nat} (h : Inv ⟨l, .idle⟩) (hfuel : 3 * l.nodeCount < fuel)
    (m : UInt32) (b : Bool) : (l.readWhole fuel m b).isSome := by
  have hinv := (stepped_read h rfl m b).inv
  dsimp only at hinv
  unfold RtDataNodeList.readWhole
  dsimp only
  rw [Option.isSome_map]
  refine readRest_ends hinv (Nat.lt_of_le_of_lt ?_ hfuel)
  by_cases hempty : l.readIndex = l.writeIndex
  · rw [RtDataNodeList.rtDataNodeRead, if_pos hempty]
    exact Nat.zero_le _
  · rw [read_body hempty]
    exact Nat.le_refl _

/-- `rt_data_node_empty` leaves nothing and has reported every node. -/
theorem empty_spec {fuel n : Nat} {cs : List β} (h : Inv ⟨l, .idle⟩)
    (hempty : l.rtDataNodeEmpty fuel n = some (t, cs)) :
    Inv ⟨t, .idle⟩ ∧ Unwritten l t ∧ t.readIndex = t.writeIndex ∧
      (State.queue ⟨l, .idle⟩).owners = cs := by
  induction n generalizing l cs with
  | zero => cases hempty
  | succ n ih =>
    unfold RtDataNodeList.rtDataNodeEmpty at hempty
    split at hempty
    case isTrue heq =>
      cases hempty
      exact ⟨h, ⟨rfl, rfl⟩, heq, congrArg Chunks.owners ((queue_nil_iff h).mpr heq)⟩
    case isFalse =>
      obtain ⟨⟨l', cs', ret⟩, hread, hempty'⟩ := Option.bind_eq_some_iff.mp hempty
      obtain ⟨⟨t', ds⟩, hlater, heq⟩ := Option.map_eq_some_iff.mp hempty'
      cases heq
      obtain ⟨hinv, hkept, x, -, -, -, hpop⟩ := readWhole_spec h hread
      obtain ⟨hinv', hkept', hend, rfl⟩ := ih hinv hlater
      refine ⟨hinv', hkept.trans hkept', hend, ?_⟩
      have hrest : Chunks.pop 1024 (State.queue ⟨l, .idle⟩) = (cs', State.queue ⟨l', .idle⟩) :=
        (Chunks.step_pop hpop).1
      have hall := Chunks.owners_pop 1024 (State.queue ⟨l, .idle⟩)
      rw [hrest] at hall
      exact hall.symm

theorem empty_nodeCount {fuel n : Nat} {cs : List β} (h : Inv ⟨l, .idle⟩)
    (hempty : l.rtDataNodeEmpty fuel n = some (t, cs)) : t.nodeCount = 0 := by
  obtain ⟨hinv, -, hend, -⟩ := empty_spec h hempty
  rw [← queue_idle hinv, (queue_nil_iff hinv).mpr hend]
  rfl

/-- With enough fuel `rt_data_node_empty` ends: each of its reads takes a byte or a node. -/
theorem empty_ends {fuel n : Nat} (h : Inv ⟨l, .idle⟩)
    (hfuel : 3 * (State.queue ⟨l, .idle⟩).weight < fuel)
    (hn : (State.queue ⟨l, .idle⟩).weight < n) : (l.rtDataNodeEmpty fuel n).isSome := by
  induction n generalizing l with
  | zero => exact absurd hn (Nat.not_lt_zero _)
  | succ n ih =>
    unfold RtDataNodeList.rtDataNodeEmpty
    split
    case isTrue => rfl
    case isFalse hne =>
      have hqueue : State.queue ⟨l, .idle⟩ ≠ [] := mt (queue_nil_iff h).mp hne
      have hcount : l.nodeCount ≤ (State.queue ⟨l, .idle⟩).weight :=
        queue_idle h ▸ Nat.le_add_left _ _
      obtain ⟨⟨l', cs, ret⟩, hread⟩ := Option.isSome_iff_exists.mp
        (readWhole_ends h (Nat.lt_of_le_of_lt (Nat.mul_le_mul_left 3 hcount) hfuel) 1024 false)
      obtain ⟨hinv, -, x, -, -, -, hpop⟩ := readWhole_spec h hread
      have hless := Chunks.weight_pop_lt (Nat.succ_pos 1023) hqueue
      have hrest : Chunks.pop 1024 (State.queue ⟨l, .idle⟩) = (cs, State.queue ⟨l', .idle⟩) :=
        (Chunks.step_pop hpop).1
      rw [hrest] at hless
      rw [hread, Option.bind_some, Option.isSome_map]
      exact ih hinv (Nat.lt_trans (Nat.mul_lt_mul_of_pos_left hless (Nat.succ_pos 2)) hfuel)
        (Nat.lt_of_lt_of_le hless (Nat.le_of_lt_succ hn))

end Ending

section Run

variable {β : Type u} {α : Type v} {s t : State β α} {e : Event β α} {o : Answer β α}

theorem stepped_empty (h : Inv s) (hidle : s.reader = .idle) {fuel : Nat} {l : RtDataNodeList β α}
    {cs : List β} (hempty : s.list.rtDataNodeEmpty fuel fuel = some (l, cs)) :
    Stepped s (.rtDataNodeEmpty fuel) ⟨l, .idle⟩ { completed := cs } := by
  obtain ⟨l₀, r⟩ := s
  obtain rfl : r = .idle := hidle
  obtain ⟨hinv, -, hend, howners⟩ := empty_spec h hempty
  refine ⟨hinv, ?_, (List.append_nil cs).symm, rfl, rfl, nofun, rfl, nofun⟩
  have hqueue : State.queue ⟨l, .idle⟩ = [] := (queue_nil_iff hinv).mpr hend
  refine Prod.ext hqueue.symm ?_
  exact congrArg Chunks.Answer.flushed howners

theorem stepped (h : Inv s) (hs : s.step e = some (t, o)) : Stepped s e t o := by
  cases e with
  | rtDataNodeWrite node =>
    unfold State.step at hs
    dsimp only at hs
    split at hs
    case h_1 =>
      cases hs
      exact stepped_full h
    case h_2 l ret hw =>
      cases hs
      exact stepped_write h hw
  | rtDataNodeRead size buffer =>
    unfold State.step at hs
    dsimp only at hs
    split at hs
    case h_1 hidle =>
      cases hs
      exact stepped_read h hidle size buffer
    case h_2 => cases hs
  | go =>
    obtain ⟨⟨l, r, a⟩, hgo, heq⟩ := Option.map_eq_some_iff.mp hs
    cases heq
    exact stepped_go h hgo
  | rtDataNodeEmpty fuel =>
    unfold State.step at hs
    dsimp only at hs
    split at hs
    case h_1 hidle =>
      obtain ⟨⟨l, cs⟩, hempty, heq⟩ := Option.map_eq_some_iff.mp hs
      cases heq
      exact stepped_empty h hidle hempty
    case h_2 => cases hs

theorem size_step (h : Inv s) (hs : s.step e = some (t, o)) : t.list.size = s.list.size := by
  cases e with
  | rtDataNodeWrite node =>
    obtain ⟨ns, hns, -⟩ := h
    unfold State.step at hs
    dsimp only at hs
    split at hs
    case h_1 =>
      cases hs
      rfl
    case h_2 l ret hw =>
      cases hs
      exact (hns.write hw).2.2.2
  | rtDataNodeRead size buffer =>
    unfold State.step at hs
    dsimp only at hs
    split at hs
    case h_1 =>
      cases hs
      rfl
    case h_2 => cases hs
  | go =>
    obtain ⟨⟨l, r, a⟩, hgo, heq⟩ := Option.map_eq_some_iff.mp hs
    cases heq
    exact (readGo_unwritten hgo).size
  | rtDataNodeEmpty fuel =>
    obtain ⟨l, r⟩ := s
    unfold State.step at hs
    dsimp only at hs
    split at hs
    case h_1 hidle =>
      obtain ⟨⟨l', cs⟩, hempty, heq⟩ := Option.map_eq_some_iff.mp hs
      cases heq
      exact (empty_spec h hempty).2.1.size
    case h_2 => cases hs

variable {size : Nat} {h : Machine.History (Event β α) (Answer β α)}

/-- What a run leaves behind it. -/
structure Ledger (size : Nat) (h : Machine.History (Event β α) (Answer β α)) (s : State β α) :
    Prop where
  inv : Inv s
  size : s.list.size = size
  queue : (Chunks.machine β α).Reaches (h.map asChunks) s.queue
  completed : h.flatMap (fun x => x.2.completed) =
    (h.map asChunks).flatMap Chunks.finishedBy ++ s.reader.passed.owners
  asked : h.flatMap (fun x => askedBy x.1) =
    h.flatMap (fun x => servedBy x.2) ++ s.reader.asked
  settled : h.flatMap (fun x => settledBy x.2) =
    h.flatMap (fun x => returnedBy x.2) ++ s.reader.owed
  returned : ∀ x ∈ h, ∀ r ∈ x.2.returned, r.Right

theorem ledger_init [Inhabited β] (hsize : 2 ≤ size) :
    Ledger size [] (⟨rtDataNodeInit size, .idle⟩ : State β α) :=
  ⟨⟨[], holds_init hsize, rfl⟩, rfl, .init, rfl, rfl, rfl, nofun⟩

/-- A balance that each step keeps by what it adds. -/
theorem balance_concat {γ : Type*} {before made : List γ} {rest : List γ} {new : List γ}
    {done left : List γ} (hbefore : before = made ++ rest) (hstep : rest ++ new = done ++ left) :
    before ++ new = made ++ done ++ left := by
  rw [hbefore, List.append_assoc, hstep, List.append_assoc]

theorem Ledger.step (hl : Ledger size h s) (hs : s.step e = some (t, o)) :
    Ledger size (h ++ [(e, o)]) t := by
  have hstep := stepped hl.inv hs
  refine ⟨hstep.inv, (size_step hl.inv hs).trans hl.size, ?_, ?_, ?_, ?_, ?_⟩
  · rw [List.map_append]
    exact .step hl.queue trivial (congrArg some hstep.queue)
  · rw [List.flatMap_append, List.map_append, List.flatMap_append]
    exact balance_concat hl.completed (by simpa using hstep.completed)
  · rw [List.flatMap_append, List.flatMap_append]
    exact balance_concat hl.asked (by simpa using hstep.asked)
  · rw [List.flatMap_append, List.flatMap_append]
    exact balance_concat hl.settled (by simpa using hstep.settled)
  · intro x hx
    rcases List.mem_append.mp hx with hx | hx
    · exact hl.returned x hx
    · obtain rfl := List.mem_singleton.mp hx
      exact hstep.returned

theorem ledger_of_reaches [Inhabited β] (hsize : 2 ≤ size) (hr : (dataNodeList size).Reaches h s) :
    Ledger size h s :=
  hr.invariant (Ledger size) (ledger_init hsize) fun hl _ hs => hl.step hs

/-- The list is a queue of chunks: the reads take its bytes in order, over the nodes they lie in,
and report each node once; it is full with `size - 1` nodes, and both loops of the code end. -/
structure InOrder (size : Nat) (h : Machine.History (Event β α) (Answer β α)) (s : State β α) :
    Prop where
  queue : (Chunks.machine β α).Reaches (h.map asChunks) s.queue
  completed : h.flatMap (fun x => x.2.completed) =
    (h.map asChunks).flatMap Chunks.finishedBy ++ s.reader.passed.owners
  asked : h.flatMap (fun x => askedBy x.1) =
    h.flatMap (fun x => servedBy x.2) ++ s.reader.asked
  settled : h.flatMap (fun x => settledBy x.2) =
    h.flatMap (fun x => returnedBy x.2) ++ s.reader.owed
  returned : ∀ x ∈ h, ∀ r ∈ x.2.returned, r.Right
  count : s.reader = .idle → s.queue.length = s.list.nodeCount
  full : ∀ node, s.list.rtDataNodeWrite node = none ↔ s.list.nodeCount = size - 1
  turnedDown : ∀ node t o, s.step (.rtDataNodeWrite node) = some (t, o) → o.written = none → t = s
  readEnds : ∃ enough, ∀ fuel ≥ enough, (s.list.readRest fuel s.reader).isSome
  emptied : ∀ fuel t o, s.step (.rtDataNodeEmpty fuel) = some (t, o) →
    t.list.readIndex = t.list.writeIndex ∧ t.list.nodeCount = 0
  emptyEnds : s.reader = .idle →
    ∃ enough, ∀ fuel ≥ enough, (s.step (.rtDataNodeEmpty fuel)).isSome

theorem step_turned_down {node : RtDataNode β α}
    (hs : s.step (.rtDataNodeWrite node) = some (t, o)) (hnone : o.written = none) : t = s := by
  unfold State.step at hs
  dsimp only at hs
  split at hs
  case h_1 =>
    cases hs
    rfl
  case h_2 =>
    cases hs
    cases hnone

theorem step_emptied (hi : Inv s) {fuel : Nat} (hs : s.step (.rtDataNodeEmpty fuel) = some (t, o)) :
    t.list.readIndex = t.list.writeIndex ∧ t.list.nodeCount = 0 := by
  obtain ⟨l, r⟩ := s
  unfold State.step at hs
  dsimp only at hs
  split at hs
  case h_1 =>
    obtain ⟨⟨l', cs⟩, hempty, heq⟩ := Option.map_eq_some_iff.mp hs
    cases heq
    exact ⟨(empty_spec hi hempty).2.2.1, empty_nodeCount hi hempty⟩
  case h_2 => cases hs

theorem step_empty_ends (hi : Inv s) (hidle : s.reader = .idle) {fuel : Nat}
    (hfuel : 3 * s.queue.weight + 1 ≤ fuel) : (s.step (.rtDataNodeEmpty fuel)).isSome := by
  obtain ⟨l, r⟩ := s
  obtain rfl : r = .idle := hidle
  change (Option.map _ (l.rtDataNodeEmpty fuel fuel)).isSome
  rw [Option.isSome_map]
  exact empty_ends hi hfuel (by omega)

theorem Ledger.full (hl : Ledger size h s) (node : RtDataNode β α) :
    s.list.rtDataNodeWrite node = none ↔ s.list.nodeCount = size - 1 := by
  obtain ⟨ns, hns, -⟩ := hl.inv
  rw [hns.write_none, hns.nodeCount, hl.size]

theorem Ledger.count (hl : Ledger size h s) (hidle : s.reader = .idle) :
    s.queue.length = s.list.nodeCount := by
  obtain ⟨l, r⟩ := s
  obtain rfl : r = .idle := hidle
  exact queue_idle hl.inv

theorem data_node_list_in_order [Inhabited β] (hsize : 2 ≤ size)
    (hr : (dataNodeList size).Reaches h s) : InOrder size h s :=
  have hl := ledger_of_reaches hsize hr
  { queue := hl.queue
    completed := hl.completed
    asked := hl.asked
    settled := hl.settled
    returned := hl.returned
    count := hl.count
    full := hl.full
    turnedDown := fun _ _ _ => step_turned_down
    readEnds := ⟨s.reader.due s.list.nodeCount + 1, fun _ => readRest_ends hl.inv⟩
    emptied := fun _ _ _ => step_emptied hl.inv
    emptyEnds := fun hidle => ⟨3 * s.queue.weight + 1, fun _ => step_empty_ends hl.inv hidle⟩ }

section Examples

theorem data_node_list_in_order_twice : ∃ h s,
    (dataNodeList 2).exec
      [.rtDataNodeWrite ⟨0x1000, [1, 2], by decide⟩, .rtDataNodeRead 4 true, .go, .go, .go,
        .rtDataNodeWrite ⟨0x2000, [], by decide⟩] = some (h, s) ∧
    InOrder 2 h (s : State UInt32 UInt8) := by
  obtain ⟨h, s, hx⟩ : ∃ h s,
      (dataNodeList 2).exec
        [.rtDataNodeWrite ⟨0x1000, [1, 2], by decide⟩, .rtDataNodeRead 4 true, .go, .go, .go,
          .rtDataNodeWrite ⟨0x2000, [], by decide⟩] =
        some (h, (s : State UInt32 UInt8)) := ⟨_, _, rfl⟩
  exact ⟨h, s, hx, data_node_list_in_order (by decide) (Machine.reaches_of_exec hx)⟩

theorem reaches_write [Inhabited β] {l t : RtDataNodeList β α} {r : Reader β α} {n : RtDataNode β α}
    {ret : Int32} (hr : (dataNodeList size).Reaches h ⟨l, r⟩)
    (hw : l.rtDataNodeWrite n = some (t, ret)) : ∃ h', (dataNodeList size).Reaches h' ⟨t, r⟩ := by
  refine ⟨_, .step hr trivial (e := .rtDataNodeWrite n) (o := { written := some ret }) ?_⟩
  change State.step ⟨l, r⟩ (.rtDataNodeWrite n) = some (⟨t, r⟩, { written := some ret })
  unfold State.step
  dsimp only
  rw [hw]

theorem reaches_read [Inhabited β] {l : RtDataNodeList β α}
    (hr : (dataNodeList size).Reaches h ⟨l, .idle⟩) (hne : l.readIndex ≠ l.writeIndex)
    (m : UInt32) :
    ∃ h', (dataNodeList size).Reaches h'
      ⟨l, .body { size := m, buffer := false, readOffset := 0, dst := [], passed := [] }⟩ := by
  refine ⟨_, .step hr trivial (e := .rtDataNodeRead m false)
    (o := (l.rtDataNodeRead m false).2) ?_⟩
  rw [← read_body hne]
  rfl

theorem reaches_go [Inhabited β] {l t : RtDataNodeList β α} {r r' : Reader β α} {a : Answer β α}
    (hr : (dataNodeList size).Reaches h ⟨l, r⟩) (hgo : l.readGo r = some (t, r', a)) :
    (dataNodeList size).Reaches (h ++ [(.go, a)]) ⟨t, r'⟩ :=
  .step hr trivial (congrArg (Option.map _) hgo)

theorem readNext_last {l : RtDataNodeList β α} {v : Locals β α} {nextIndex writeIndex : Nat}
    (hlast : nextIndex = writeIndex) : l.readNext v nextIndex writeIndex =
      ({ l with readIndex := nextIndex, dataOffset := 0 }, .idle,
        { returned := some
            { size := v.size, buffer := v.buffer, taken := v.passed.elems, dst := v.dst
              ret := v.readOffset.toInt32 } }) := by
  unfold RtDataNodeList.readNext
  exact if_pos hlast

/-- A node is read as a whole, and its size returned. -/
theorem reads_all (n : RtDataNode UInt32 UInt8) : ∃ (h : Machine.History _ _)
    (s : State UInt32 UInt8), (dataNodeList 2).Reaches h s ∧ ∃ x ∈ h, ∃ r ∈ x.2.returned,
      r.taken = n.data ∧ r.ret = n.dataSize.toInt32 := by
  obtain ⟨⟨l, ret⟩, hw⟩ : ∃ q, (rtDataNodeInit 2).rtDataNodeWrite n = some q := ⟨_, rfl⟩
  obtain ⟨hns, -, hoffset, -⟩ := (holds_init (Nat.le_refl 2)).write hw
  have hoffset : l.dataOffset = 0 := hoffset
  have hns : Holds l [n] := hns
  let v : Locals UInt32 UInt8 :=
    { size := n.dataSize, buffer := false, readOffset := 0, dst := [], passed := [] }
  have hv : Counted v := ⟨rfl, Nat.zero_le _, rfl⟩
  have hin : l.dataOffset.toNat ≤ n.data.length := hoffset ▸ Nat.zero_le _
  have hne : l.readIndex ≠ l.writeIndex := mt hns.empty_iff.mp (List.cons_ne_nil _ _)
  obtain ⟨h₁, hwritten⟩ := reaches_write .init hw
  obtain ⟨h₂, hread⟩ := reaches_read hwritten hne n.dataSize
  have hsize : v.size.toNat = n.data.length := dataSize_toNat n
  have hstart : v.readOffset.toNat = 0 := rfl
  obtain ⟨c, -, ⟨hc, -, hbody⟩ | ⟨hc, hmore, -⟩⟩ := readBody_cases hns hin hv
  case inr => omega
  have hlast := (hns.setOffset (l.dataOffset + c)).last_iff.mpr rfl
  obtain ⟨v', hv'⟩ : ∃ v', v' = v.advance c n.dataPtr (n.data.drop l.dataOffset.toNat) := ⟨_, rfl⟩
  rw [← hv'] at hbody
  have hlooked := reaches_go (reaches_go hread (congrArg some hbody)) rfl
  refine ⟨_, _, reaches_go hlooked (congrArg some (readNext_last hlast)), _,
    List.mem_append_right _ List.mem_cons_self, _, rfl, ?_, ?_⟩
  · change v'.passed.elems = n.data
    rw [hv', hoffset]
    exact List.append_nil _
  · change v'.readOffset.toInt32 = n.dataSize.toInt32
    have hword : v'.readOffset.toNat = n.dataSize.toNat := by
      rw [hv', dataSize_toNat]
      change (0 + c).toNat = _
      rw [UInt32.zero_add, hc, hoffset]
      rfl
    rw [UInt32.toNat_inj.mp hword]

theorem data_node_list_negative :
    ¬ ∀ (h : Machine.History (Event UInt32 UInt8) (Answer UInt32 UInt8)) s,
      (dataNodeList 2).Reaches h s →
        ∀ x ∈ h, ∀ r ∈ x.2.returned, r.ret.toInt = r.taken.length := by
  intro hall
  obtain ⟨n, hn⟩ : ∃ n : RtDataNode UInt32 UInt8, n.data.length = 2 ^ 31 :=
    have hlen : (List.replicate (2 ^ 31) (0 : UInt8)).length = 2 ^ 31 := List.length_replicate
    ⟨⟨0x400000, _, hlen ▸ Nat.pow_lt_pow_right Nat.one_lt_two (Nat.lt_succ_self 31)⟩, hlen⟩
  obtain ⟨h, s, hr, x, hx, r, hr', htaken, hret⟩ := reads_all n
  have hlaw := hall h s hr x hx r hr'
  rw [htaken, hret, RtDataNode.dataSize, hn] at hlaw
  exact absurd hlaw (by decide)

end Examples

end Run

end BdkRtt.Audio.DataNode
