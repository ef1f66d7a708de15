/-
This file models the two searches of the year table and says when they are right.

Both loops run from the head index for as many slots as days are listed, and unlike `add`
and `del` they do not reduce the index modulo `MAXDAY`. In a ring that has come round they
leave the array behind slot `MAXDAY - 1`, unless they have found what they look for by then.
-/

import ExmOnvif.Recorder.YearBlocks

namespace ExmOnvif.Recorder

open Library

/-! ### The searches -/

namespace YearBlock

/-- The loop of both searches, from index `day` for `count` more entries. -/
def searchFrom (yb : YearBlock) (test : SeekBlock → Bool) (answer : SeekBlock → Int) :
    Nat → Nat → Reply Int
  | _, 0 => .err .blockErrNotIn
  | day, count + 1 =>
    match yb.readSlot day with
    | .ok sb => if test sb then .ok (answer sb) else searchFrom yb test answer (day + 1) count
    | .err code => .err code
    | .outOfBounds => .outOfBounds

/-- The test of `TimeIn`. The division of the language rounds towards zero. -/
def sameDay (iTime : Int) (sb : SeekBlock) : Bool :=
  (sb.time : Int).tdiv secofday = iTime.tdiv secofday

/-- The test of `SeekIn`. -/
def atSeek (llSeek : Int) (sb : SeekBlock) : Bool := sb.seek = llSeek

/-- `YearBlocks::TimeIn`, for any number that is handed to it. -/
def timeInSigned (yb : YearBlock) (iTime : Int) : Reply Int :=
  yb.searchFrom (sameDay iTime) SeekBlock.seek yb.queueHead yb.queueSize

/-- `YearBlocks::SeekIn`. -/
def seekIn (yb : YearBlock) (llSeek : Int) : Reply Int :=
  yb.searchFrom (atSeek llSeek) (fun sb => sb.time) yb.queueHead yb.queueSize

/-- The days that the loops come to before the end of the array include one to be found, or
no day is listed behind it. -/
def Reaches (yb : YearBlock) (test : SeekBlock → Bool) : Prop :=
  yb.queueHead + yb.queueSize ≤ maxday ∨
    ∃ sb ∈ yb.queued.take (maxday - yb.queueHead), test sb = true

end YearBlock

/-- What a search of the listed days is to answer. -/
def lookedUp (days : List SeekBlock) (test : SeekBlock → Bool) (answer : SeekBlock → Int) :
    Reply Int :=
  (days.find? test).elim (.err .blockErrNotIn) fun sb => .ok (answer sb)

/-! ### When the searches are right -/

namespace YearBlock

/-- For a time as the clock gives it, this is the search of the year table. -/
theorem timeInSigned_natCast (yb : YearBlock) (time : Nat) :
    yb.timeInSigned time = yb.timeIn time := by
  unfold timeInSigned timeIn
  generalize yb.queueHead = day
  induction yb.queueSize generalizing day with
  | zero => rfl
  | succ count inductionHypothesis =>
    have test (sb : SeekBlock) :
        sameDay time sb = true ↔ sb.time / secofday = time / secofday := by
      unfold sameDay
      rw [decide_eq_true_eq, Int.tdiv_eq_ediv_of_nonneg (Int.natCast_nonneg _),
        Int.tdiv_eq_ediv_of_nonneg (Int.natCast_nonneg _)]
      norm_cast
    rw [searchFrom, timeInFrom, inductionHypothesis]
    cases yb.readSlot day with
    | ok sb => exact if_congr (test sb) rfl rfl
    | err code => rfl
    | outOfBounds => rfl

/-- A search from an index on is right exactly when the days end before the array does, or one
of those in the array is to be found. -/
theorem searchFrom_eq_iff (yb : YearBlock) (test : SeekBlock → Bool) (answer : SeekBlock → Int)
    {day : Nat} (inside : day ≤ maxday) (count : Nat) :
    yb.searchFrom test answer day count =
        lookedUp (ringList yb.seekBlockData maxday day count) test answer ↔
      day + count ≤ maxday ∨
        ∃ sb ∈ (ringList yb.seekBlockData maxday day count).take (maxday - day),
          test sb = true := by
  induction count generalizing day with
  | zero => exact iff_of_true rfl (.inl inside)
  | succ count inductionHypothesis =>
    rcases Nat.lt_or_eq_of_le inside with inside | ended
    · rw [searchFrom, readSlot, if_pos inside, ringList_cons, ringList_mod, Nat.mod_eq_of_lt inside,
        show maxday - day = maxday - (day + 1) + 1 by omega, List.take_succ_cons]
      dsimp only
      split
      · rename_i found
        refine iff_of_true ?_ (.inr ⟨_, List.mem_cons_self, found⟩)
        rw [lookedUp, List.find?_cons_of_pos found]
        rfl
      · rename_i other
        have rest := @inductionHypothesis (day + 1) inside
        rw [lookedUp, List.find?_cons_of_neg other, ← lookedUp, rest]
        simp only [List.mem_cons, exists_eq_or_imp, other, Bool.false_eq_true, false_or]
        rw [Nat.add_assoc, Nat.add_comm 1 count]
    · -- The loop has come to the end of the array.
      subst ended
      refine iff_of_false (fun same => ?_) ?_
      · rw [searchFrom, readSlot, if_neg (Nat.lt_irrefl _), lookedUp] at same
        cases found : (ringList yb.seekBlockData maxday maxday (count + 1)).find? test with
        | none =>
          rw [found] at same
          cases same
        | some sb =>
          rw [found] at same
          cases same
      · rw [Nat.sub_self, List.take_zero]
        rintro (short | ⟨sb, member, -⟩)
        · omega
        · cases member

/-- A search that is not right has left the array. -/
theorem searchFrom_cases (yb : YearBlock) (test : SeekBlock → Bool) (answer : SeekBlock → Int)
    {day : Nat} (inside : day ≤ maxday) (count : Nat) :
    yb.searchFrom test answer day count =
        lookedUp (ringList yb.seekBlockData maxday day count) test answer ∨
      yb.searchFrom test answer day count = .outOfBounds := by
  induction count generalizing day with
  | zero => exact Or.inl rfl
  | succ count inductionHypothesis =>
    rcases Nat.lt_or_eq_of_le inside with inside | ended
    · rw [searchFrom, readSlot, if_pos inside, ringList_cons, ringList_mod, Nat.mod_eq_of_lt inside]
      dsimp only
      split
      · rename_i found
        refine Or.inl ?_
        rw [lookedUp, List.find?_cons_of_pos found]
        rfl
      · rename_i other
        rw [lookedUp, List.find?_cons_of_neg other, ← lookedUp]
        exact @inductionHypothesis (day + 1) inside
    · refine Or.inr ?_
      rw [searchFrom, readSlot, if_neg (Nat.not_lt.mpr (Nat.le_of_eq ended.symm))]

theorem search_eq_iff (yb : YearBlock) (test : SeekBlock → Bool) (answer : SeekBlock → Int) :
    yb.searchFrom test answer yb.queueHead yb.queueSize = lookedUp yb.queued test answer ↔
      yb.Reaches test :=
  yb.searchFrom_eq_iff test answer (Nat.le_of_lt yb.headBound) yb.queueSize

end YearBlock

/-- The searches return the oldest listed day that is looked for, or say that there is none,
exactly when the days do not come round the ring or one to be found is listed before that. -/
theorem year_lookup_iff (yb : YearBlock) (iTime llSeek : Int) :
    (yb.timeInSigned iTime = lookedUp yb.queued (YearBlock.sameDay iTime) SeekBlock.seek ∧
        yb.seekIn llSeek = lookedUp yb.queued (YearBlock.atSeek llSeek) fun sb => sb.time) ↔
      yb.Reaches (YearBlock.sameDay iTime) ∧ yb.Reaches (YearBlock.atSeek llSeek) :=
  and_congr (yb.search_eq_iff _ _) (yb.search_eq_iff _ _)

/-! ### A ring that has come round -/

/-- The table after some calls. -/
def YearBlock.after (yb : YearBlock) (calls : List YearCall) : YearBlock :=
  calls.foldl (fun before call => (before.serve call).2) yb

theorem YearBlock.after_append (yb : YearBlock) (calls more : List YearCall) :
    yb.after (calls ++ more) = (yb.after calls).after more :=
  List.foldl_append

/-- A day listed and taken off again, some times over. -/
def comeAndGo (sb : SeekBlock) (times : Nat) : List YearCall :=
  (List.replicate times [YearCall.add sb true, .del true]).flatten

/-- A ring with two free slots takes a day. -/
theorem YearBlock.Ring.add_of_spare {yb : YearBlock} (ring : yb.Ring)
    (spare : yb.queueSize + 1 < maxday) {sb : SeekBlock}
    (nonZero : ¬(sb.time = 0 ∨ sb.seek = 0)) :
    (yb.add sb true).2 = yb.enqueue sb ∧ (yb.enqueue sb).Ring ∧
      (yb.enqueue sb).queueSize = yb.queueSize + 1 ∧
          (yb.enqueue sb).queued = yb.queued ++ [sb] := by
  have room : yb.queueSize < maxday := Nat.lt_of_succ_lt spare
  have notFull : yb.queueTail + 1 ≠ yb.queueHead := by
    rw [Ne, ring.full_test_iff]
    omega
  have days := ring.queued_enqueue sb room
  refine ⟨?_, ring.enqueue sb room, ?_, days⟩
  · rw [add, if_neg nonZero, if_neg notFull]
  · rw [← queued_length, days, List.length_append, queued_length, List.length_singleton]

/-- An empty ring moves on by one slot each time. -/
theorem YearBlock.Ring.after_comeAndGo {yb : YearBlock} (ring : yb.Ring)
    (empty : yb.queueSize = 0) {sb : SeekBlock} (nonZero : ¬(sb.time = 0 ∨ sb.seek = 0))
    (times : Nat) :
    (yb.after (comeAndGo sb times)).Ring ∧ (yb.after (comeAndGo sb times)).queueSize = 0 ∧
      (yb.after (comeAndGo sb times)).queueHead = (yb.queueHead + times) % maxday := by
  induction times generalizing yb with
  | zero => exact ⟨ring, empty, (Nat.mod_eq_of_lt yb.headBound).symm⟩
  | succ times inductionHypothesis =>
    obtain ⟨added, full, size, -⟩ := ring.add_of_spare (by rw [empty]; decide) nonZero
    rw [empty] at size
    have apart : (yb.enqueue sb).queueTail ≠ (yb.enqueue sb).queueHead := by
      rw [Ne, full.tail_eq_head_iff, size]
      decide
    have moved : yb.after (comeAndGo sb (times + 1)) =
        (yb.enqueue sb).dequeue.after (comeAndGo sb times) := by
      show ((yb.add sb true).2.del true).2.after (comeAndGo sb times) = _
      rw [added, del, if_neg apart]
    rw [moved]
    obtain ⟨ringAfter, emptyAfter, head⟩ :=
      inductionHypothesis (full.dequeue (by rw [size]; decide)) (dequeue_queueSize 0 size)
    refine ⟨ringAfter, emptyAfter, ?_⟩
    rw [head, dequeue_queueHead, offset_mod, Nat.add_assoc, Nat.add_comm 1 times]
    rfl

/-- The calls that list one day in the last slot and the next one in the first. -/
def comeRound (first second : SeekBlock) : List YearCall :=
  comeAndGo first 799 ++ [.add first true, .add second true]

theorem comeRound_nonZero {first second : SeekBlock}
    (firstNonZero : first.time ≠ 0 ∧ first.seek ≠ 0)
    (secondNonZero : second.time ≠ 0 ∧ second.seek ≠ 0) :
    ∀ call ∈ comeRound first second, call.NonZero := by
  intro call member
  rcases List.mem_append.mp member with earlier | last
  · obtain ⟨pair, repeated, member⟩ := List.mem_flatten.mp earlier
    rw [List.eq_of_mem_replicate repeated] at member
    rcases List.mem_pair.mp member with rfl | rfl
    · exact firstNonZero
    · exact trivial
  · rcases List.mem_pair.mp last with rfl | rfl
    · exact firstNonZero
    · exact secondNonZero

/-- In the ring of two days that comes round, only the first one is within reach. -/
theorem YearBlock.comeRound_reaches {first second : SeekBlock}
    (firstNonZero : ¬(first.time = 0 ∨ first.seek = 0))
    (secondNonZero : ¬(second.time = 0 ∨ second.seek = 0)) (test : SeekBlock → Bool) :
    (format.after (comeRound first second)).Reaches test ↔ test first = true := by
  obtain ⟨ring, empty, head⟩ := format_ring.after_comeAndGo rfl firstNonZero 799
  generalize listed : format.after (comeAndGo first 799) = idle at ring empty head
  obtain ⟨added, ring, size, days⟩ := ring.add_of_spare (by rw [empty]; decide) firstNonZero
  obtain ⟨addedNext, -, sizeNext, daysNext⟩ :=
    ring.add_of_spare (by rw [size, empty]; decide) secondNonZero
  have reached : format.after (comeRound first second) = (idle.enqueue first).enqueue second := by
    rw [comeRound, after_append, listed]
    show ((idle.add first true).2.add second true).2 = _
    rw [added, addedNext]
  have none : idle.queued = [] := List.eq_nil_of_length_eq_zero (by rw [queued_length, empty])
  unfold Reaches
  rw [reached, daysNext, days, none, sizeNext, size, empty,
    show ((idle.enqueue first).enqueue second).queueHead = 799 from head]
  simp [maxday]

/-- After 799 days that came and went, two listed days come round the ring. The search for the
second one leaves the array. -/
theorem wrapped_day_missed :
    ¬∀ (calls : List YearCall) (iTime llSeek : Int), (∀ call ∈ calls, call.NonZero) →
      (YearBlock.format.after calls).timeInSigned iTime =
          lookedUp (YearBlock.format.after calls).queued (YearBlock.sameDay iTime)
            SeekBlock.seek ∧
        (YearBlock.format.after calls).seekIn llSeek =
          lookedUp (YearBlock.format.after calls).queued (YearBlock.atSeek llSeek)
            fun sb => sb.time := by
  intro claimed
  have nonZero : ∀ call ∈ comeRound ⟨86400, 2046⟩ ⟨172800, 4072⟩, call.NonZero :=
    comeRound_nonZero (by decide) (by decide)
  have right := (claimed _ 172800 4072 nonZero).1
  have reached := (YearBlock.search_eq_iff _ _ _).mp right
  rw [YearBlock.comeRound_reaches (by decide) (by decide)] at reached
  exact absurd reached (by decide)

end ExmOnvif.Recorder
