/-
This file models the year table, the ring of at most `MAXDAY` listed days, and
compares it with the bounded first-in first-out queue it is meant to be.

The class keeps a size next to the head and the tail index, and decides
"full", "empty" and "where is the newest entry" by three different formulas.
The full test `queue_tail + 1 == queue_head` is not reduced modulo `MAXDAY`, so it
misses the one state where the tail index is the last slot and the head is slot
`0`, and it refuses the last free slot everywhere else; the empty test of `del`
compares head and tail and cannot tell a full ring from an empty one; `GetTail`
steps back from the tail without wrapping. The refinement theorem says that these
are the only ways in which the ring leaves the queue.
-/

import ExmOnvif.Library.Ring
import ExmOnvif.Recorder.Layout

namespace ExmOnvif.Recorder

open Library

/-! ### The year table -/

/-- `struct year_block`, without its magic. Both indices are only ever assigned reduced
modulo `MAXDAY`. -/
structure YearBlock where
  queueSize : Nat
  queueHead : Nat
  queueTail : Nat
  seekBlockData : Nat → SeekBlock
  headBound : queueHead < maxday
  tailBound : queueTail < maxday

namespace YearBlock

/-- The table `format` writes on a new disk. -/
def format : YearBlock :=
  ⟨0, 0, 0, fun _ => SeekBlock.zero, by decide, by decide⟩

/-- `YearBlocks::get_day_num`. -/
def getDayNum (yb : YearBlock) : Nat := yb.queueSize

/-- The ring after `sb` has been copied to the tail slot. -/
def enqueue (yb : YearBlock) (sb : SeekBlock) : YearBlock where
  queueSize := uint32 (yb.queueSize + 1)
  queueHead := yb.queueHead
  queueTail := (yb.queueTail + 1) % maxday
  seekBlockData := Function.update yb.seekBlockData yb.queueTail sb
  headBound := yb.headBound
  tailBound := Nat.mod_lt _ (by decide)

/-- The ring after the head slot has been cleared and stepped over. -/
def dequeue (yb : YearBlock) : YearBlock where
  queueSize := uint32Pred yb.queueSize
  queueHead := (yb.queueHead + 1) % maxday
  queueTail := yb.queueTail
  seekBlockData := Function.update yb.seekBlockData yb.queueHead SeekBlock.zero
  headBound := Nat.mod_lt _ (by decide)
  tailBound := yb.tailBound

/-- `YearBlocks::add`. `written` is what `hd_write` made of the table afterwards; a failed
write is reported and not undone. -/
def add (yb : YearBlock) (sb : SeekBlock) (written : Bool) : Reply Unit × YearBlock :=
  if sb.time = 0 ∨ sb.seek = 0 then (.err .blockErrZero, yb)
  else if yb.queueTail + 1 = yb.queueHead then (.err .blockErrFull, yb)
  else (if written then .ok () else .err .hdErrWrite, yb.enqueue sb)

/-- `YearBlocks::del`. Its argument is only logged. -/
def del (yb : YearBlock) (written : Bool) : Reply Unit × YearBlock :=
  if yb.queueTail = yb.queueHead then (.err .blockErrEmpty, yb)
  else (if written then .ok () else .err .hdErrWrite, yb.dequeue)

/-- Reading one entry of the 800-entry array. -/
def readSlot (yb : YearBlock) (index : Nat) : Reply SeekBlock :=
  if index < maxday then .ok (yb.seekBlockData index) else .outOfBounds

/-- `YearBlocks::GetHead`. -/
def getHead (yb : YearBlock) : Reply SeekBlock :=
  if yb.queueSize = 0 then .err .blockErrEmpty else yb.readSlot yb.queueHead

/-- `YearBlocks::GetTail`. The index `queue_tail-1` is unsigned. -/
def getTail (yb : YearBlock) : Reply SeekBlock :=
  if yb.queueSize = 0 then .err .blockErrEmpty
  else yb.readSlot (uint32Pred yb.queueTail)

/-- The loop of `YearBlocks::TimeIn`, from index `day` for `count` more entries. -/
def timeInFrom (yb : YearBlock) (time : Nat) : Nat → Nat → Reply Int
  | _, 0 => .err .blockErrNotIn
  | day, count + 1 =>
    match yb.readSlot day with
    | .ok sb => if sb.time / secofday = time / secofday then .ok sb.seek
        else timeInFrom yb time (day + 1) count
    | .err code => .err code
    | .outOfBounds => .outOfBounds

/-- `YearBlocks::TimeIn`. -/
def timeIn (yb : YearBlock) (time : Nat) : Reply Int :=
  yb.timeInFrom time yb.queueHead yb.queueSize

/-- The listed days, oldest first. -/
def queued (yb : YearBlock) : List SeekBlock :=
  ringList yb.seekBlockData maxday yb.queueHead yb.queueSize

end YearBlock

/-! ### The bounded queue -/

/-- The calls a year table receives. -/
inductive YearCall where
  | add (sb : SeekBlock) (written : Bool)
  | del (written : Bool)
  | getHead
  | getTail
deriving DecidableEq, Repr

/-- What a call answers: a status for `add` and `del`, an entry for the two getters. -/
inductive YearAnswer where
  | status (reply : Reply Unit)
  | entry (reply : Reply SeekBlock)
deriving DecidableEq, Repr

/-- The year table serving one call. -/
def YearBlock.serve (yb : YearBlock) : YearCall → YearAnswer × YearBlock
  | .add sb written => (.status (yb.add sb written).1, (yb.add sb written).2)
  | .del written => (.status (yb.del written).1, (yb.del written).2)
  | .getHead => (.entry yb.getHead, yb)
  | .getTail => (.entry yb.getTail, yb)

/-- The bounded queue of days serving one call: `MAXDAY` slots, refusing an entry exactly
when none is free. -/
def serveFifo (days : List SeekBlock) : YearCall → YearAnswer × List SeekBlock
  | .add sb written =>
    if maxday ≤ days.length then (.status (.err .blockErrFull), days)
    else (.status (if written then .ok () else .err .hdErrWrite), days ++ [sb])
  | .del written =>
    if days.length = 0 then (.status (.err .blockErrEmpty), days)
    else (.status (if written then .ok () else .err .hdErrWrite), days.tail)
  | .getHead => (.entry (days.head?.elim (.err .blockErrEmpty) .ok), days)
  | .getTail => (.entry (days.getLast?.elim (.err .blockErrEmpty) .ok), days)

/-- The table holds exactly the days of the queue. -/
structure YearBlock.Holds (yb : YearBlock) (days : List SeekBlock) : Prop where
  size : yb.queueSize = days.length
  bounded : days.length ≤ maxday
  entries : yb.queued = days

/-- Along a list of calls the table answers as the queue does and holds the same days
before and after every call. -/
def YearBlock.Follows (yb : YearBlock) (days : List SeekBlock) : List YearCall → Prop
  | [] => yb.Holds days
  | call :: calls =>
    yb.Holds days ∧ (yb.serve call).1 = (serveFifo days call).1 ∧
      (yb.serve call).2.Follows (serveFifo days call).2 calls

/-- The calls the ring arithmetic gets right, read off the table before the call: an `add`
that leaves a slot free, or fills the last one while the head is at slot `0`; a `del` on a
ring that is not full; a `GetTail` on an empty ring or on one whose tail is not at slot `0`. -/
def YearBlock.Sound (yb : YearBlock) : YearCall → Prop
  | .add _ _ => yb.queueSize + 1 < maxday ∨ yb.queueSize + 1 = maxday ∧ yb.queueHead = 0
  | .del _ => yb.queueSize < maxday
  | .getHead => True
  | .getTail => yb.queueSize = 0 ∨ yb.queueTail ≠ 0

/-- Every call of the list is sound where it is made. -/
def YearBlock.SoundRun (yb : YearBlock) : List YearCall → Prop
  | [] => True
  | call :: calls => yb.Sound call ∧ (yb.serve call).2.SoundRun calls

/-- An `add` of an entry with a non-zero time and a non-zero seek. -/
def YearCall.NonZero : YearCall → Prop
  | .add sb _ => sb.time ≠ 0 ∧ sb.seek ≠ 0
  | _ => True

/-! ### The ring invariant -/

/-- The three counters agree: the tail is `queueSize` slots past the head. -/
structure YearBlock.Ring (yb : YearBlock) : Prop where
  bounded : yb.queueSize ≤ maxday
  tail : yb.queueTail = (yb.queueHead + yb.queueSize) % maxday

namespace YearBlock

theorem format_ring : format.Ring := ⟨by decide, by decide⟩

@[simp]
theorem queued_length (yb : YearBlock) : yb.queued.length = yb.queueSize :=
  ringList_length _ _ _ _

theorem Ring.holds {yb : YearBlock} (ring : yb.Ring) : yb.Holds yb.queued where
  size := yb.queued_length.symm
  bounded := yb.queued_length.symm ▸ ring.bounded
  entries := rfl

/-- Head and tail meet exactly when the ring is empty or full. -/
theorem Ring.tail_eq_head_iff {yb : YearBlock} (ring : yb.Ring) :
    yb.queueTail = yb.queueHead ↔ yb.queueSize = 0 ∨ yb.queueSize = maxday := by
  have tail := ring.tail
  have bounded := ring.bounded
  have headBound := yb.headBound
  simp only [maxday] at *
  omega

/-- The unreduced full test fires exactly when one slot is left and the head is not slot `0`. -/
theorem Ring.full_test_iff {yb : YearBlock} (ring : yb.Ring) :
    yb.queueTail + 1 = yb.queueHead ↔ yb.queueSize + 1 = maxday ∧ yb.queueHead ≠ 0 := by
  have tail := ring.tail
  have bounded := ring.bounded
  have headBound := yb.headBound
  simp only [maxday] at *
  omega

theorem Ring.enqueue {yb : YearBlock} (ring : yb.Ring) (sb : SeekBlock)
    (room : yb.queueSize < maxday) : (yb.enqueue sb).Ring := by
  have tail := ring.tail
  have size : uint32 (yb.queueSize + 1) = yb.queueSize + 1 :=
    uint32_of_lt (by simp only [maxday] at room; omega)
  constructor
  · show uint32 (yb.queueSize + 1) ≤ maxday
    omega
  · show (yb.queueTail + 1) % maxday = (yb.queueHead + uint32 (yb.queueSize + 1)) % maxday
    rw [tail, size, offset_mod, Nat.add_assoc]

theorem Ring.queued_enqueue {yb : YearBlock} (ring : yb.Ring) (sb : SeekBlock)
    (room : yb.queueSize < maxday) : (yb.enqueue sb).queued = yb.queued ++ [sb] := by
  have size : uint32 (yb.queueSize + 1) = yb.queueSize + 1 :=
    uint32_of_lt (by simp only [maxday] at room; omega)
  show ringList (Function.update yb.seekBlockData yb.queueTail sb) maxday yb.queueHead
    (uint32 (yb.queueSize + 1)) = _
  rw [size, ring.tail]
  exact ringList_append _ sb room

theorem dequeue_queueTail (yb : YearBlock) : yb.dequeue.queueTail = yb.queueTail := rfl

theorem dequeue_queueHead (yb : YearBlock) :
    yb.dequeue.queueHead = (yb.queueHead + 1) % maxday := rfl

/-- A non-empty ring has one entry more than the ring behind its head. -/
theorem dequeue_queueSize {yb : YearBlock} (count : Nat)
    (size : yb.queueSize = count + 1) : yb.dequeue.queueSize = count := by
  simp [YearBlock.dequeue, uint32Pred, size]

theorem Ring.dequeue {yb : YearBlock} (ring : yb.Ring) (nonempty : yb.queueSize ≠ 0) :
    yb.dequeue.Ring := by
  obtain ⟨count, size⟩ := Nat.exists_eq_succ_of_ne_zero nonempty
  have less := dequeue_queueSize count size
  have bounded := ring.bounded
  constructor
  · omega
  · rw [dequeue_queueTail, dequeue_queueHead, less, ring.tail, size, offset_mod,
      Nat.succ_eq_add_one, Nat.add_assoc, Nat.add_comm 1 count]

theorem Ring.queued_dequeue {yb : YearBlock} (ring : yb.Ring) (nonempty : yb.queueSize ≠ 0) :
    yb.dequeue.queued = yb.queued.tail := by
  obtain ⟨count, size⟩ := Nat.exists_eq_succ_of_ne_zero nonempty
  have room : count < maxday := by
    have bounded := ring.bounded
    omega
  have cleared : ringList (Function.update yb.seekBlockData yb.queueHead SeekBlock.zero) maxday
      ((yb.queueHead + 1) % maxday) count =
        ringList yb.seekBlockData maxday ((yb.queueHead + 1) % maxday) count := by
    have stepped := ringList_tail yb.seekBlockData yb.queueHead SeekBlock.zero room
    rwa [Nat.mod_eq_of_lt yb.headBound] at stepped
  rw [queued, dequeue_queueSize count size, queued, size, ringList_cons, List.tail_cons]
  exact cleared

theorem getHead_eq (yb : YearBlock) :
    yb.getHead = yb.queued.head?.elim (.err .blockErrEmpty) .ok := by
  unfold getHead
  by_cases empty : yb.queueSize = 0
  · simp [empty, queued]
  · obtain ⟨count, size⟩ := Nat.exists_eq_succ_of_ne_zero empty
    rw [if_neg empty, queued, size, ringList_head? _ yb.headBound, readSlot,
      if_pos yb.headBound]
    rfl

/-- Off slot `0` the newest entry sits one slot before the tail. -/
theorem Ring.getTail_of_ne_zero {yb : YearBlock} (ring : yb.Ring)
    (tail : yb.queueSize = 0 ∨ yb.queueTail ≠ 0) :
    yb.getTail = yb.queued.getLast?.elim (.err .blockErrEmpty) .ok := by
  unfold getTail
  by_cases empty : yb.queueSize = 0
  · simp [empty, queued]
  · obtain ⟨count, size⟩ := Nat.exists_eq_succ_of_ne_zero empty
    have tailBound := yb.tailBound
    have index : uint32Pred yb.queueTail = (yb.queueHead + count) % maxday := by
      have ringTail := ring.tail
      have headBound := yb.headBound
      have positive := tail.resolve_left empty
      simp only [maxday, uint32Pred, if_neg positive] at *
      omega
    rw [if_neg empty, index, queued, size, ringList_getLast?, readSlot,
      if_pos (Nat.mod_lt _ (by decide))]
    rfl

/-- With the tail at slot `0` the getter reads in front of the array. -/
theorem getTail_of_zero {yb : YearBlock} (nonempty : yb.queueSize ≠ 0)
    (tail : yb.queueTail = 0) : yb.getTail = .outOfBounds := by
  unfold getTail
  rw [if_neg nonempty, tail]
  rfl

/-- What `GetTail` returns is the newest listed day. -/
theorem Ring.getTail_eq_ok {yb : YearBlock} (ring : yb.Ring) {sb : SeekBlock}
    (newest : yb.getTail = .ok sb) : yb.queued.getLast? = some sb := by
  have tail : yb.queueSize = 0 ∨ yb.queueTail ≠ 0 := by
    by_contra wrapped
    rw [not_or, not_not] at wrapped
    rw [getTail_of_zero wrapped.1 wrapped.2] at newest
    cases newest
  rw [ring.getTail_of_ne_zero tail] at newest
  cases last : yb.queued.getLast? with
  | none =>
    rw [last] at newest
    cases newest
  | some other =>
    rw [last] at newest
    cases newest
    rfl

theorem getTail_eq_empty {yb : YearBlock} (empty : yb.getTail = .err .blockErrEmpty) :
    yb.queueSize = 0 := by
  by_contra nonempty
  unfold getTail readSlot at empty
  rw [if_neg nonempty] at empty
  split at empty <;> cases empty

/-! ### The refinement -/

/-- A sound call answers as the queue does and leaves a ring that holds the queue's days. -/
theorem Ring.serve_of_sound {yb : YearBlock} (ring : yb.Ring) (call : YearCall)
    (nonZero : call.NonZero) (sound : yb.Sound call) :
    (yb.serve call).1 = (serveFifo yb.queued call).1 ∧
      (yb.serve call).2.queued = (serveFifo yb.queued call).2 ∧ (yb.serve call).2.Ring := by
  have bounded := ring.bounded
  cases call with
  | add sb written =>
    have accepted : ¬(sb.time = 0 ∨ sb.seek = 0) := by simpa [YearCall.NonZero] using nonZero
    have notFull : yb.queueTail + 1 ≠ yb.queueHead := by
      rw [Ne, ring.full_test_iff]
      rintro ⟨last, off⟩
      rcases sound with fewer | ⟨_, zero⟩
      · omega
      · exact off zero
    have room : yb.queueSize < maxday := by
      rcases sound with fewer | ⟨last, _⟩ <;> omega
    simp only [serve, add, serveFifo, if_neg accepted, if_neg notFull, queued_length,
      if_neg (Nat.not_le.mpr room)]
    exact ⟨trivial, ring.queued_enqueue sb room, ring.enqueue sb room⟩
  | del written =>
    have meet := ring.tail_eq_head_iff
    have notFull : yb.queueSize ≠ maxday := Nat.ne_of_lt sound
    by_cases empty : yb.queueSize = 0
    · simp only [serve, del, serveFifo, if_pos (meet.mpr (Or.inl empty)), queued_length,
        if_pos empty]
      exact ⟨trivial, trivial, ring⟩
    · have apart : yb.queueTail ≠ yb.queueHead := fun same =>
        (meet.mp same).elim empty notFull
      simp only [serve, del, serveFifo, if_neg apart, queued_length, if_neg empty]
      exact ⟨trivial, ring.queued_dequeue empty, ring.dequeue empty⟩
  | getHead => exact ⟨congrArg YearAnswer.entry yb.getHead_eq, rfl, ring⟩
  | getTail => exact ⟨congrArg YearAnswer.entry (ring.getTail_of_ne_zero sound), rfl, ring⟩

/-- An unsound call gives an answer the queue does not give. -/
theorem Ring.serve_of_not_sound {yb : YearBlock} (ring : yb.Ring) (call : YearCall)
    (nonZero : call.NonZero) (unsound : ¬yb.Sound call) :
    (yb.serve call).1 ≠ (serveFifo yb.queued call).1 := by
  have bounded := ring.bounded
  cases call with
  | add sb written =>
    have accepted : ¬(sb.time = 0 ∨ sb.seek = 0) := by simpa [YearCall.NonZero] using nonZero
    have full := ring.full_test_iff
    simp only [Sound, not_or, not_and, Nat.not_lt] at unsound
    by_cases all : yb.queueSize = maxday
    · -- every slot is taken, and the ring takes the entry all the same
      have missed : yb.queueTail + 1 ≠ yb.queueHead := fun fires => by
        have := (full.mp fires).1
        omega
      simp only [serve, add, serveFifo, if_neg accepted, if_neg missed, queued_length,
        if_pos (Nat.le_of_eq all.symm)]
      cases written <;> simp
    · -- one slot is free, and the ring refuses the entry
      have last : yb.queueSize + 1 = maxday := by omega
      have fires := full.mpr ⟨last, unsound.2 last⟩
      simp only [serve, add, serveFifo, if_neg accepted, if_pos fires, queued_length,
        if_neg (show ¬maxday ≤ yb.queueSize by omega)]
      cases written <;> simp
  | del written =>
    simp only [Sound, Nat.not_lt] at unsound
    have all : yb.queueSize = maxday := Nat.le_antisymm bounded unsound
    have some : yb.queueSize ≠ 0 := by rw [all]; decide
    simp only [serve, del, serveFifo, if_pos (ring.tail_eq_head_iff.mpr (Or.inr all)),
      queued_length, if_neg some]
    cases written <;> simp
  | getHead => exact absurd trivial unsound
  | getTail =>
    simp only [Sound, not_or, not_not] at unsound
    obtain ⟨count, size⟩ := Nat.exists_eq_succ_of_ne_zero unsound.1
    simp only [serve, serveFifo, getTail_of_zero unsound.1 unsound.2, queued, size,
      ringList_getLast?]
    simp

/-- From any ring, a list of calls follows the queue exactly when each call is sound where
it is made. -/
theorem Ring.follows_iff {yb : YearBlock} (ring : yb.Ring) (calls : List YearCall)
    (nonZero : ∀ call ∈ calls, call.NonZero) :
    yb.Follows yb.queued calls ↔ yb.SoundRun calls := by
  induction calls generalizing yb with
  | nil => exact ⟨fun _ => trivial, fun _ => ring.holds⟩
  | cons call calls inductionHypothesis =>
    have headNonZero := nonZero call List.mem_cons_self
    have tailNonZero := fun other member => nonZero other (List.mem_cons_of_mem call member)
    by_cases sound : yb.Sound call
    · obtain ⟨answer, days, next⟩ := ring.serve_of_sound call headNonZero sound
      simp only [Follows, SoundRun, ← days, answer, sound, true_and]
      rw [inductionHypothesis next tailNonZero]
      exact ⟨And.right, fun rest => ⟨ring.holds, rest⟩⟩
    · refine ⟨fun follows => ?_, fun run => absurd run.1 sound⟩
      exact absurd follows.2.1 (ring.serve_of_not_sound call headNonZero sound)

end YearBlock

/-! ### Filling the ring -/

/-- Adding from slot `0` on stays sound for at most as many days as there are slots. -/
theorem YearBlock.Ring.adds_le {yb : YearBlock} (ring : yb.Ring) (head : yb.queueHead = 0)
    (sb : SeekBlock) (nonZero : (YearCall.add sb true).NonZero) (count : Nat)
    (run : yb.SoundRun (List.replicate count (.add sb true))) :
    yb.queueSize + count ≤ maxday := by
  induction count generalizing yb with
  | zero => exact ring.bounded
  | succ count inductionHypothesis =>
    rw [List.replicate_succ] at run
    obtain ⟨sound, rest⟩ := run
    obtain ⟨-, days, next⟩ := ring.serve_of_sound _ nonZero sound
    have room : yb.queueSize < maxday := by
      rcases sound with fewer | ⟨last, _⟩ <;> omega
    have size : (yb.serve (.add sb true)).2.queueSize = yb.queueSize + 1 := by
      rw [← queued_length, days, serveFifo, queued_length,
        if_neg (Nat.not_le.mpr room), List.length_append, queued_length, List.length_singleton]
    have kept : (yb.serve (.add sb true)).2.queueHead = 0 := by
      rw [← head, serve, YearBlock.add]
      split
      · rfl
      · split <;> rfl
    have bound := inductionHypothesis next kept rest
    omega

/-- The year table started empty is the bounded queue of its days, call by call, exactly as
long as every call is sound where it is made. -/
theorem year_queue_refines_fifo (calls : List YearCall)
    (nonZero : ∀ call ∈ calls, call.NonZero) :
    YearBlock.format.Follows [] calls ↔ YearBlock.format.SoundRun calls :=
  YearBlock.format_ring.follows_iff calls nonZero

/-- Three sound calls on an empty table. -/
theorem year_queue_refines_fifo_three_calls :
    YearBlock.format.Follows [] [.add ⟨100, 2046⟩ true, .getTail, .del true] := by
  refine (year_queue_refines_fifo _ ?_).mpr ?_
  · simp [YearCall.NonZero]
  · refine ⟨Or.inl (by decide), Or.inr (by decide), ?_, trivial⟩
    show _ < maxday
    decide

/-- On the 801st day without a removal the ring takes the entry over the oldest one, where
the queue has no free slot. -/
theorem year_queue_overwrites_oldest :
    (∀ call ∈ List.replicate 801 (YearCall.add ⟨100, 2046⟩ true), call.NonZero) ∧
      ¬YearBlock.format.Follows [] (List.replicate 801 (.add ⟨100, 2046⟩ true)) := by
  have nonZero : ∀ call ∈ List.replicate 801 (YearCall.add ⟨100, 2046⟩ true), call.NonZero := by
    intro call member
    rw [List.eq_of_mem_replicate member]
    exact ⟨by decide, by decide⟩
  refine ⟨nonZero, fun follows => ?_⟩
  have run := (YearBlock.format_ring.follows_iff _ nonZero).mp follows
  have bound := YearBlock.format_ring.adds_le rfl _ ⟨by decide, by decide⟩ 801 run
  exact absurd bound (by decide)

end ExmOnvif.Recorder
