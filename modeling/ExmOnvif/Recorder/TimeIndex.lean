/-
This file models the report of the recorded stretches of a day.

`printOneDay` goes through a range of a day table with one cursor and two searches, one for
a filled slot and one for an empty one. A stretch is closed when three empty slots follow it
or the range ends. Where there is a filled slot in the range, the marks written are those of
the sections of the range. Where there is none, the mark that opens a stretch is written all
the same, at the end of the range, and nothing closes it.
-/

import ExmOnvif.Library.Sections
import ExmOnvif.Recorder.YearSearch
import ExmOnvif.Recorder.DayBlocks

namespace ExmOnvif.Recorder

open Library

/-! ### The report -/

/-- `JG`: so many empty slots close a stretch. -/
def jg : Nat := 3

/-- The test that ends `find`. -/
def Stops (value : Nat) (sb : SeekBlock) : Prop :=
  if value = 0 then sb.seek = 0 ∧ sb.time = 0 else sb.seek ≠ 0 ∨ sb.time ≠ 0

instance (value : Nat) (sb : SeekBlock) : Decidable (Stops value sb) :=
  inferInstanceAs (Decidable (if value = 0 then _ else _))

/-- `find`: the slots passed over, from slot `start` on, of `size` slots at most. -/
def find (table : DayTable) (value : Nat) : Nat → Nat → Nat
  | _, 0 => 0
  | start, size + 1 =>
    if Stops value (table.slots start) then 0 else find table value (start + 1) size + 1

/-- The two kinds of mark `write_str` adds to the report. -/
inductive Mark where
  | start (time : Int)
  | stop (time : Int)
deriving DecidableEq

/-- `write_str`. -/
def writeStr (ctime : Int → String) : Mark → String
  | .start time => "start:\tblock: " ++ toString time ++ " --> " ++ ctime time
  | .stop time => "end:\tblock:" ++ toString time ++ " --> " ++ ctime time

/-- The inner loop of `printOneDay`: the marks it writes and the cursor behind it. -/
def printEnd (table : DayTable) (todaytime : Int) (iBeginTime size : Nat) :
    Nat → Nat → Option (List Mark × Nat)
  | 0, _ => none
  | turns + 1, num =>
    if num ≥ size then some ([], num)
    else
      let run := num + find table 0 (iBeginTime + num) (size - num)
      let tmp := find table 1 (iBeginTime + run) (size - run)
      if tmp ≥ jg ∨ run + tmp = size then
        some ([.stop (todaytime + iBeginTime + (run + tmp : Nat) - tmp)], run + tmp)
      else printEnd table todaytime iBeginTime size turns (run + tmp)

/-- The outer loop. -/
def printFrom (table : DayTable) (todaytime : Int) (iBeginTime size : Nat) :
    Nat → Nat → Option (List Mark)
  | 0, _ => none
  | turns + 1, num =>
    if num ≥ size then some []
    else
      let first := num + find table 1 (iBeginTime + num) (size - num)
      match printEnd table todaytime iBeginTime size turns first with
      | none => none
      | some (marks, next) =>
        (printFrom table todaytime iBeginTime size turns next).map fun rest =>
          .start (todaytime + iBeginTime + first) :: (marks ++ rest)

/-- `RWlogic::printOneDay`: the marks it writes, or nothing yet when its loops need more
turns. -/
def printOneDay (table : DayTable) (todaytime : Int) (iBeginTime iEndTime turns : Nat) :
    Option (List Mark) :=
  printFrom table todaytime iBeginTime (iEndTime - iBeginTime) turns 0

/-! ### The searches -/

theorem stops_zero (sb : SeekBlock) : Stops 0 sb ↔ ¬sb.Filled := by
  unfold Stops SeekBlock.Filled
  rw [if_pos rfl, not_or, not_not, not_not]

theorem stops_one (sb : SeekBlock) : Stops 1 sb ↔ sb.Filled := by
  unfold Stops SeekBlock.Filled
  rw [if_neg (by decide)]

/-- A search passes over slots that do not end it, and ends inside its range only at one that
does. -/
theorem find_spec (table : DayTable) (value start size : Nat) :
    find table value start size ≤ size ∧
      (∀ slot, start ≤ slot → slot < start + find table value start size →
        ¬Stops value (table.slots slot)) ∧
      (find table value start size < size →
        Stops value (table.slots (start + find table value start size))) := by
  induction size generalizing start with
  | zero => exact ⟨Nat.le_refl 0, fun slot behind before => by rw [find] at before; omega,
      fun inside => absurd inside (Nat.lt_irrefl 0)⟩
  | succ size inductionHypothesis =>
    rw [find]
    split
    · rename_i here
      exact ⟨Nat.zero_le _, fun slot behind before => by omega, fun _ => here⟩
    · rename_i goesOn
      obtain ⟨bound, passed, ends⟩ := inductionHypothesis (start + 1)
      refine ⟨by omega, fun slot behind before => ?_, fun inside => ?_⟩
      · rcases Nat.eq_or_lt_of_le behind with rfl | further
        · exact goesOn
        · exact passed slot further (by omega)
      · rw [← Nat.add_assoc, Nat.add_right_comm]
        exact ends (by omega)

/-- What a search for a filled slot leaves behind. -/
theorem find_filled (table : DayTable) {start size count : Nat}
    (found : find table 1 start size = count) :
    count ≤ size ∧
      (∀ slot, start ≤ slot → slot < start + count → ¬(table.slots slot).Filled) ∧
      (count < size → (table.slots (start + count)).Filled) := by
  have spec := find_spec table 1 start size
  simp only [stops_one, found] at spec
  exact spec

/-- What a search for an empty slot leaves behind. -/
theorem find_empty (table : DayTable) {start size count : Nat}
    (found : find table 0 start size = count) :
    count ≤ size ∧
      (∀ slot, start ≤ slot → slot < start + count → (table.slots slot).Filled) ∧
      (count < size → ¬(table.slots (start + count)).Filled) := by
  have spec := find_spec table 0 start size
  simp only [stops_zero, found, not_not] at spec
  exact spec

/-! ### Closing a stretch -/

section

variable (table : DayTable) (todaytime : Int) (iBeginTime size : Nat)

/-- The slots of the table that hold something. -/
def DayTable.filled (slot : Nat) : Prop := (table.slots slot).Filled

instance (slot : Nat) : Decidable (table.filled slot) :=
  inferInstanceAs (Decidable (table.slots slot).Filled)

/-- What the inner loop has found when it was entered at a filled slot: where the stretch ends,
and the cursor, behind a gap or at the end of the range. -/
structure Closed (num past next : Nat) : Prop where
  ordered : num < past
  behind : past ≤ next
  inside : next ≤ size
  last : table.filled (iBeginTime + past - 1)
  unbroken : Unbroken table.filled jg (iBeginTime + num) (iBeginTime + past)
  empty : ∀ slot, iBeginTime + past ≤ slot → slot < iBeginTime + next → ¬table.filled slot
  ends : past + jg ≤ next ∨ next = size
  again : next < size → table.filled (iBeginTime + next)

/-- The inner loop closes the stretch. -/
theorem printEnd_closes {turns num : Nat} (enough : size - num < turns) (inside : num < size)
    (here : table.filled (iBeginTime + num)) :
    ∃ past next, printEnd table todaytime iBeginTime size turns num =
        some ([.stop (todaytime + (iBeginTime + past : Nat))], next) ∧
      Closed table iBeginTime size num past next := by
  induction turns generalizing num with
  | zero => exact absurd enough (Nat.not_lt_zero _)
  | succ turns inductionHypothesis =>
    obtain ⟨length, run⟩ : ∃ length, find table 0 (iBeginTime + num) (size - num) = length :=
      ⟨_, rfl⟩
    obtain ⟨tmp, gap⟩ : ∃ tmp, find table 1 (iBeginTime + (num + length))
        (size - (num + length)) = tmp := ⟨_, rfl⟩
    obtain ⟨runBound, runFilled, runEnd⟩ := find_empty table run
    obtain ⟨gapBound, gapEmpty, gapEnd⟩ := find_filled table gap
    have some : 0 < length := by
      refine Nat.pos_of_ne_zero fun zero => ?_
      rw [zero] at runEnd
      exact runEnd (by omega) here
    have every : ∀ slot, iBeginTime + num ≤ slot → slot < iBeginTime + (num + length) →
        table.filled slot := fun slot behind before => runFilled slot behind (by omega)
    rw [printEnd, if_neg (Nat.not_le.mpr inside), run]
    dsimp only
    rw [gap]
    split
    · rename_i closes
      refine ⟨num + length, num + length + tmp, ?_, ?_⟩
      · have time : todaytime + iBeginTime + (num + length + tmp : Nat) - tmp =
            todaytime + (iBeginTime + (num + length) : Nat) := by omega
        rw [time]
      · refine ⟨by omega, by omega, by omega, every _ (by omega) (by omega),
          Unbroken.of_filled (by decide) every, fun slot behind before =>
            gapEmpty slot behind (by omega), ?_, fun further => ?_⟩
        · rcases closes with long | finished
          · exact Or.inl (by omega)
          · exact Or.inr finished
        · have next := gapEnd (by omega)
          rwa [Nat.add_assoc iBeginTime] at next
    · rename_i short
      rw [not_or] at short
      have next : table.filled (iBeginTime + (num + length + tmp)) := by
        have found := gapEnd (by omega)
        rwa [Nat.add_assoc iBeginTime] at found
      obtain ⟨past, cursor, result, closed⟩ :=
        inductionHypothesis (by omega) (by omega : num + length + tmp < size) next
      have ordered := closed.ordered
      have joined := Unbroken.join (by decide) every (by omega) next closed.unbroken
      exact ⟨past, cursor, result, { closed with ordered := by omega, unbroken := joined }⟩

/-! ### The marks of a range -/

/-- The two marks of a section. -/
def Mark.pair (part : Nat × Nat) : List Mark :=
  [.start (todaytime + part.1), .stop (todaytime + part.2)]

/-- A section that was closed, in front of those behind it. -/
theorem Closed.sections {num past next : Nat} {parts : List (Nat × Nat)}
    (closed : Closed table iBeginTime size num past next)
    (here : table.filled (iBeginTime + num))
    (rest : Sections table.filled jg (iBeginTime + next) (iBeginTime + size) parts) :
    Sections table.filled jg (iBeginTime + num) (iBeginTime + size)
      ((iBeginTime + num, iBeginTime + past) :: parts) := by
  have ordered := closed.ordered
  have behind := closed.behind
  have inside := closed.inside
  have head : Section table.filled jg (iBeginTime + num) (iBeginTime + size)
      (iBeginTime + num, iBeginTime + past) :=
    ⟨Nat.le_refl _, Nat.add_lt_add_left ordered _, by dsimp only; omega, here, closed.last,
      closed.unbroken⟩
  have front : ∀ slot, iBeginTime + num ≤ slot → slot < iBeginTime + num → ¬table.filled slot :=
    fun slot above below => absurd above (Nat.not_le.mpr below)
  rcases closed.ends with far | finished
  · exact Sections.cons head (by dsimp only; omega) front closed.empty rest
  · subst finished
    have nothing : parts = [] :=
      (Sections.of_empty fun slot above below => absurd above (Nat.not_le.mpr below)).unique rest
    rw [nothing]
    exact Sections.single head front closed.empty

/-- From a filled slot, or from the end of the range, the outer loop writes the marks of the
sections that follow. -/
theorem printFrom_sections {turns num : Nat} (enough : size - num + 1 < turns)
    (inside : num ≤ size) (here : num < size → table.filled (iBeginTime + num)) :
    ∃ parts, printFrom table todaytime iBeginTime size turns num =
        some (parts.flatMap (Mark.pair todaytime)) ∧
      Sections table.filled jg (iBeginTime + num) (iBeginTime + size) parts := by
  induction turns generalizing num with
  | zero => exact absurd enough (Nat.not_lt_zero _)
  | succ turns inductionHypothesis =>
    rcases Nat.lt_or_eq_of_le inside with inside | finished
    · have filled := here inside
      have stays : find table 1 (iBeginTime + num) (size - num) = 0 := by
        obtain ⟨left, space⟩ := Nat.exists_eq_succ_of_ne_zero (Nat.sub_ne_zero_of_lt inside)
        rw [space, find, if_pos ((stops_one _).mpr filled)]
      obtain ⟨past, next, closing, closed⟩ :=
        printEnd_closes table todaytime iBeginTime size (by omega : size - num < turns) inside
          filled
      have ordered := closed.ordered
      have behind := closed.behind
      obtain ⟨parts, printed, sections⟩ :=
        inductionHypothesis (by omega) closed.inside closed.again
      refine ⟨(iBeginTime + num, iBeginTime + past) :: parts, ?_,
        closed.sections table iBeginTime size filled sections⟩
      rw [printFrom, if_neg (Nat.not_le.mpr inside), stays, Nat.add_zero]
      dsimp only
      rw [closing]
      dsimp only
      rw [printed, Option.map_some, List.flatMap_cons, Mark.pair, Int.natCast_add, Int.add_assoc]
      rfl
    · refine ⟨[], ?_, Sections.of_empty fun slot above below => by omega⟩
      rw [printFrom, if_pos (Nat.le_of_eq finished.symm)]
      rfl

/-- The outer loop starts where the first search ends. -/
theorem printFrom_first {turns num count : Nat} (inside : num + count < size)
    (found : find table 1 (iBeginTime + num) (size - num) = count) :
    printFrom table todaytime iBeginTime size turns num =
      printFrom table todaytime iBeginTime size turns (num + count) := by
  cases turns with
  | zero => rfl
  | succ turns =>
    obtain ⟨-, -, ends⟩ := find_filled table found
    have filled := ends (by omega)
    rw [Nat.add_assoc] at filled
    have stays : find table 1 (iBeginTime + (num + count)) (size - (num + count)) = 0 := by
      obtain ⟨left, space⟩ := Nat.exists_eq_succ_of_ne_zero (Nat.sub_ne_zero_of_lt inside)
      rw [space, find, if_pos ((stops_one _).mpr filled)]
    rw [printFrom, printFrom, if_neg (by omega), if_neg (by omega), found, stays, Nat.add_zero]

end

/-- Where a slot of the range is filled, the marks are those of the sections of the range. -/
theorem printOneDay_sections {table : DayTable} {iBeginTime iEndTime : Nat} (todaytime : Int)
    (recorded : ∃ slot, iBeginTime ≤ slot ∧ slot < iEndTime ∧ table.filled slot) :
    ∃ parts, Sections table.filled jg iBeginTime iEndTime parts ∧
      ∀ turns, iEndTime - iBeginTime + 1 < turns →
        printOneDay table todaytime iBeginTime iEndTime turns =
          some (parts.flatMap (Mark.pair todaytime)) := by
  obtain ⟨slot, behind, before, here⟩ := recorded
  obtain ⟨count, found⟩ : ∃ count, find table 1 iBeginTime (iEndTime - iBeginTime) = count :=
    ⟨_, rfl⟩
  obtain ⟨bound, empty, ends⟩ := find_filled table found
  have inside : count < iEndTime - iBeginTime := by
    refine Nat.lt_of_not_le fun beyond => empty slot behind (by omega) here
  have whole : iBeginTime + (iEndTime - iBeginTime) = iEndTime := by omega
  obtain ⟨parts, sections⟩ : ∃ parts,
      Sections table.filled jg (iBeginTime + count) iEndTime parts := by
    obtain ⟨parts, -, sections⟩ := printFrom_sections table todaytime iBeginTime
      (iEndTime - iBeginTime) (Nat.lt_succ_self _) (Nat.le_of_lt inside) ends
    rw [whole] at sections
    exact ⟨parts, sections⟩
  refine ⟨parts, sections.extend (by omega) empty, fun turns enough => ?_⟩
  obtain ⟨others, printed, same⟩ := printFrom_sections table todaytime iBeginTime
    (iEndTime - iBeginTime) (by omega : iEndTime - iBeginTime - count + 1 < turns)
    (Nat.le_of_lt inside) ends
  rw [whole] at same
  have skip : printFrom table todaytime iBeginTime (iEndTime - iBeginTime) turns 0 =
      printFrom table todaytime iBeginTime (iEndTime - iBeginTime) turns count := by
    have first := @printFrom_first table todaytime iBeginTime (iEndTime - iBeginTime) turns 0 count
      (by omega) found
    rwa [Nat.zero_add] at first
  rw [printOneDay, skip, printed, sections.unique same]

/-- The report ends, and writes exactly the marks of the one list of sections that the range
has. -/
theorem printOneDay_reports {table : DayTable} {iBeginTime iEndTime : Nat} (todaytime : Int)
    (recorded : ∃ slot, iBeginTime ≤ slot ∧ slot < iEndTime ∧ table.filled slot) :
    ∃ parts, Sections table.filled jg iBeginTime iEndTime parts ∧
      (∀ others, Sections table.filled jg iBeginTime iEndTime others → others = parts) ∧
        ∃ enough, ∀ turns, enough ≤ turns →
          printOneDay table todaytime iBeginTime iEndTime turns =
            some (parts.flatMap (Mark.pair todaytime)) := by
  obtain ⟨parts, sections, printed⟩ := printOneDay_sections todaytime recorded
  exact ⟨parts, sections, fun others same => sections.unique same,
    iEndTime - iBeginTime + 2, fun turns enough => printed turns enough⟩

/-- A day with two groups four seconds apart. -/
def twoGroups : DayTable := (DayTable.blank.set 10 ⟨1, 5000⟩).set 14 ⟨1, 5400⟩

theorem printOneDay_reports_twoGroups :
    ∃ parts, Sections twoGroups.filled jg 0 20 parts ∧
      (∀ others, Sections twoGroups.filled jg 0 20 others → others = parts) ∧
        ∃ enough, ∀ turns, enough ≤ turns →
          printOneDay twoGroups 86400 0 20 turns = some (parts.flatMap (Mark.pair 86400)) :=
  printOneDay_reports 86400 ⟨10, by decide, by decide, Or.inl (by decide)⟩

example : printOneDay twoGroups 86400 0 20 30 =
    some [.start 86410, .stop 86411, .start 86414, .stop 86415] := by decide

/-- Where no slot of the range is filled, there is one mark, at the end of the range. -/
theorem printOneDay_nothing {table : DayTable} {iBeginTime iEndTime : Nat} (todaytime : Int)
    (some : iBeginTime < iEndTime)
    (empty : ∀ slot, iBeginTime ≤ slot → slot < iEndTime → ¬table.filled slot) (turns : Nat) :
    printOneDay table todaytime iBeginTime iEndTime (turns + 2) =
      Option.some [.start (todaytime + iEndTime)] := by
  have passed : find table 1 (iBeginTime + 0) (iEndTime - iBeginTime - 0) =
      iEndTime - iBeginTime := by
    obtain ⟨count, found⟩ : ∃ count, find table 1 iBeginTime (iEndTime - iBeginTime) = count :=
      ⟨_, rfl⟩
    obtain ⟨bound, -, ends⟩ := find_filled table found
    rw [Nat.add_zero, Nat.sub_zero, found]
    refine Nat.le_antisymm bound (Nat.le_of_not_lt fun inside => ?_)
    exact empty (iBeginTime + count) (by omega) (by omega) (ends inside)
  have time : todaytime + iBeginTime + (iEndTime - iBeginTime : Nat) = todaytime + iEndTime := by
    omega
  rw [printOneDay, printFrom, if_neg (by omega), passed, Nat.zero_add]
  dsimp only
  rw [printEnd, if_pos (Nat.le_refl _)]
  dsimp only
  rw [printFrom, if_pos (Nat.le_refl _), time]
  rfl

/-! ### The answer to a query -/

/-- A day table as `DayBlocks(seek, true, false)` has it: blank when the disk has none at the
place. -/
def readTable (disk : Int → Option DayTable) (seek : Int) : DayTable :=
  (disk seek).getD DayTable.blank

/-- Where the range of a query is cut. -/
def iTmpTime (timestart timeend : Nat) : Nat :=
  if timestart % secofday > timeend % secofday then secofday else timeend % secofday

/-- The code that `get_time_index` returns and the marks it writes, once there were turns
enough. -/
def timeIndexMarks (yb : YearBlock) (disk : Int → Option DayTable)
    (timestart timeend turns : Nat) : Option (Reply Unit × List Mark) :=
  match yb.timeIn timestart with
  | .ok seek =>
    if seek < 0 then some (.err .blockErrNotIn, [])
    else
      (printOneDay (readTable disk seek) (timestart / secofday * secofday : Nat)
        (timestart % secofday) (iTmpTime timestart timeend) turns).map fun marks => (.ok (), marks)
  | .err _ => some (.err .blockErrNotIn, [])
  | .outOfBounds => some (.outOfBounds, [])

/-- The string of some marks. -/
def markString (ctime : Int → String) (marks : List Mark) : String :=
  String.join (marks.map (writeStr ctime))

/-- `RWlogic::get_time_index`. -/
def getTimeIndex (ctime : Int → String) (yb : YearBlock) (disk : Int → Option DayTable)
    (timestart timeend : Nat) (timeindex : String) (turns : Nat) : Option (Reply Unit × String) :=
  (timeIndexMarks yb disk timestart timeend turns).map fun answer =>
    (answer.1, timeindex ++ markString ctime answer.2)

/-- Start and end marks in turn, each start a recorded second of the range and before its
end. -/
inductive Paired (recorded : Nat → Prop) (low high : Nat) : List Mark → Prop
  | done : Paired recorded low high []
  | pair {start past : Nat} {marks : List Mark} : low ≤ start → start < high → recorded start →
      start < past → past ≤ high → Paired recorded low high marks →
      Paired recorded low high (.start start :: .stop past :: marks)

/-- The table of a day holds something for a second. -/
def RecordedAt (disk : Int → Option DayTable) (sb : SeekBlock) (time : Nat) : Prop :=
  (readTable disk sb.seek).filled (time % secofday)

/-- A query about the day of `sb` is answered, and well. -/
def WellAnswered (ctime : Int → String) (yb : YearBlock) (disk : Int → Option DayTable)
    (sb : SeekBlock) (timestart timeend : Nat) (timeindex : String) : Prop :=
  ∃ marks, Paired (RecordedAt disk sb) timestart timeend marks ∧
    ∃ enough, ∀ turns, enough ≤ turns → ∃ status, status ≠ .outOfBounds ∧
      timeIndexMarks yb disk timestart timeend turns = some (status, marks) ∧
      getTimeIndex ctime yb disk timestart timeend timeindex turns =
        some (status, timeindex ++ markString ctime marks)

section

variable {ctime : Int → String} {yb : YearBlock} {disk : Int → Option DayTable} {sb : SeekBlock}
  {timestart timeend : Nat} {timeindex : String}

/-- A range of one day ends at its end, unless it is the whole day. -/
theorem iTmpTime_cases (ordered : timestart ≤ timeend)
    (within : timeend ≤ (timestart / secofday + 1) * secofday) :
    (timestart % secofday = 0 ∧ timeend = timestart + secofday ∧
        iTmpTime timestart timeend = 0) ∨
      timestart / secofday * secofday + iTmpTime timestart timeend = timeend ∧
        timestart % secofday ≤ iTmpTime timestart timeend ∧
        iTmpTime timestart timeend ≤ secofday := by
  unfold iTmpTime
  by_cases cut : timestart % secofday > timeend % secofday
  · rw [if_pos cut]
    simp only [secofday] at *
    omega
  · rw [if_neg cut]
    simp only [secofday] at *
    omega

/-- The answer with the marks that were written. -/
theorem wellAnswered_iff {status : Reply Unit} {marks : List Mark} {enough : Nat}
    (written : ∀ turns, enough ≤ turns →
      timeIndexMarks yb disk timestart timeend turns = some (status, marks))
    (defined : status ≠ .outOfBounds) :
    WellAnswered ctime yb disk sb timestart timeend timeindex ↔
      Paired (RecordedAt disk sb) timestart timeend marks := by
  constructor
  · rintro ⟨others, paired, more, answered⟩
    obtain ⟨other, -, same, -⟩ := answered (enough + more) (Nat.le_add_left _ _)
    rw [written (enough + more) (Nat.le_add_right _ _)] at same
    cases same
    exact paired
  · intro paired
    refine ⟨marks, paired, enough, fun turns late => ⟨status, defined, written turns late, ?_⟩⟩
    rw [getTimeIndex, written turns late]
    rfl

/-- The marks of sections are paired. -/
theorem Paired.of_sections {low high today begin : Nat} {table : DayTable}
    {parts : List (Nat × Nat)} {recorded : Nat → Prop}
    (sections : ∀ part ∈ parts, Section table.filled jg begin high part)
    (above : low ≤ today + begin) (same : ∀ slot, slot < high → table.filled slot →
      recorded (today + slot)) :
    Paired recorded low (today + high) (parts.flatMap (Mark.pair today)) := by
  induction parts with
  | nil => exact .done
  | cons part parts inductionHypothesis =>
    have head := sections part List.mem_cons_self
    have behind := head.behind
    have ordered := head.ordered
    have inside := head.inside
    have rest := inductionHypothesis fun other member =>
      sections other (List.mem_cons_of_mem _ member)
    rw [List.flatMap_cons, Mark.pair, ← Int.natCast_add, ← Int.natCast_add]
    exact .pair (by omega) (by omega) (same part.1 (by omega) head.first) (by omega) (by omega) rest

/-- A day that is found is reported. -/
theorem timeIndexMarks_eq (found : yb.timeIn timestart = .ok sb.seek) (placed : ¬sb.seek < 0)
    (turns : Nat) :
    timeIndexMarks yb disk timestart timeend turns =
      (printOneDay (readTable disk sb.seek) (timestart / secofday * secofday : Nat)
        (timestart % secofday) (iTmpTime timestart timeend) turns).map
          fun marks => (.ok (), marks) := by
  rw [timeIndexMarks, found]
  dsimp only
  rw [if_neg placed]

theorem startOfDay (time : Nat) : time / secofday * secofday + time % secofday = time := by
  rw [Nat.mul_comm]
  exact Nat.div_add_mod time secofday

theorem recordedAt_slot {slot : Nat} (inside : slot < secofday) :
    RecordedAt disk sb (timestart / secofday * secofday + slot) ↔
      (readTable disk sb.seek).filled slot := by
  rw [RecordedAt, Nat.mul_comm, Nat.mul_add_mod, Nat.mod_eq_of_lt inside]

/-- The seconds of a range are the slots that are searched. -/
theorem recorded_iff_slot
    (whole : timestart / secofday * secofday + iTmpTime timestart timeend = timeend)
    (bound : iTmpTime timestart timeend ≤ secofday) :
    (∃ time, timestart ≤ time ∧ time < timeend ∧ RecordedAt disk sb time) ↔
      ∃ slot, timestart % secofday ≤ slot ∧ slot < iTmpTime timestart timeend ∧
        (readTable disk sb.seek).filled slot := by
  have start := startOfDay timestart
  constructor
  · rintro ⟨time, behind, before, here⟩
    have low : timestart / secofday * secofday ≤ time := by omega
    obtain ⟨slot, rfl⟩ := Nat.exists_eq_add_of_le low
    have inside : slot < secofday := by omega
    exact ⟨slot, by omega, by omega, (recordedAt_slot inside).mp here⟩
  · rintro ⟨slot, behind, before, here⟩
    exact ⟨timestart / secofday * secofday + slot, by omega, by omega,
      (recordedAt_slot (Nat.lt_of_lt_of_le before bound)).mpr here⟩

/-- A range with a recorded second is answered by the marks of its sections. -/
theorem wellAnswered_of_recorded (found : yb.timeIn timestart = .ok sb.seek)
    (placed : ¬sb.seek < 0)
    (whole : timestart / secofday * secofday + iTmpTime timestart timeend = timeend)
    (bound : iTmpTime timestart timeend ≤ secofday)
    (recorded : ∃ slot, timestart % secofday ≤ slot ∧ slot < iTmpTime timestart timeend ∧
      (readTable disk sb.seek).filled slot) :
    WellAnswered ctime yb disk sb timestart timeend timeindex := by
  obtain ⟨parts, sections, printed⟩ := printOneDay_sections
    (timestart / secofday * secofday : Nat) recorded
  have written : ∀ turns, iTmpTime timestart timeend - timestart % secofday + 2 ≤ turns →
      timeIndexMarks yb disk timestart timeend turns =
        some (.ok (), parts.flatMap (Mark.pair (timestart / secofday * secofday : Nat))) := by
    intro turns enough
    rw [timeIndexMarks_eq found placed, printed turns enough]
    rfl
  have paired := @Paired.of_sections timestart (iTmpTime timestart timeend)
    (timestart / secofday * secofday) (timestart % secofday) (readTable disk sb.seek) parts
    (RecordedAt disk sb) sections.each (Nat.le_of_eq (startOfDay timestart).symm)
    fun slot inside here => (recordedAt_slot (Nat.lt_of_lt_of_le inside bound)).mpr here
  rw [whole] at paired
  exact (wellAnswered_iff written (by decide)).mpr paired

/-- A range with nothing recorded is answered by a start mark at its end. -/
theorem not_wellAnswered_of_blank (found : yb.timeIn timestart = .ok sb.seek)
    (placed : ¬sb.seek < 0) (before : timestart < timeend)
    (whole : timestart / secofday * secofday + iTmpTime timestart timeend = timeend)
    (blank : ∀ slot, timestart % secofday ≤ slot → slot < iTmpTime timestart timeend →
      ¬(readTable disk sb.seek).filled slot) :
    ¬WellAnswered ctime yb disk sb timestart timeend timeindex := by
  have start := startOfDay timestart
  have written : ∀ turns, 2 ≤ turns → timeIndexMarks yb disk timestart timeend turns =
      some (.ok (), [.start timeend]) := by
    intro turns enough
    obtain ⟨more, rfl⟩ := Nat.exists_eq_add_of_le enough
    rw [timeIndexMarks_eq found placed, Nat.add_comm 2,
      printOneDay_nothing _ (by omega) blank, ← Int.natCast_add, whole]
    rfl
  rw [wellAnswered_iff written (by decide)]
  exact fun paired => nomatch paired

/-- A range that is not empty is answered well exactly when something is recorded in it. -/
theorem wellAnswered_range (found : yb.timeIn timestart = .ok sb.seek) (placed : ¬sb.seek < 0)
    (before : timestart < timeend)
    (whole : timestart / secofday * secofday + iTmpTime timestart timeend = timeend)
    (bound : iTmpTime timestart timeend ≤ secofday) :
    WellAnswered ctime yb disk sb timestart timeend timeindex ↔
      ∃ time, timestart ≤ time ∧ time < timeend ∧ RecordedAt disk sb time := by
  rw [recorded_iff_slot whole bound]
  by_cases recorded : ∃ slot, timestart % secofday ≤ slot ∧ slot < iTmpTime timestart timeend ∧
      (readTable disk sb.seek).filled slot
  · exact iff_of_true (wellAnswered_of_recorded found placed whole bound recorded) recorded
  · refine iff_of_false (not_wellAnswered_of_blank found placed before whole ?_) recorded
    exact fun slot behind inside here => recorded ⟨slot, behind, inside, here⟩

/-- A range that is taken for empty is answered by no mark. -/
theorem wellAnswered_of_empty (found : yb.timeIn timestart = .ok sb.seek) (placed : ¬sb.seek < 0)
    (taken : iTmpTime timestart timeend ≤ timestart % secofday) :
    WellAnswered ctime yb disk sb timestart timeend timeindex := by
  have written : ∀ turns, 1 ≤ turns →
      timeIndexMarks yb disk timestart timeend turns = some (.ok (), []) := by
    intro turns enough
    obtain ⟨more, rfl⟩ := Nat.exists_eq_add_of_le enough
    rw [timeIndexMarks_eq found placed, printOneDay, Nat.add_comm 1, printFrom,
      if_pos (by omega)]
    rfl
  exact (wellAnswered_iff written (by decide)).mpr .done

/-- A day without a place on the disk is answered by an error and no mark. -/
theorem wellAnswered_of_unplaced (found : yb.timeIn timestart = .ok sb.seek)
    (unplaced : sb.seek < 0) : WellAnswered ctime yb disk sb timestart timeend timeindex := by
  have written : ∀ turns, 0 ≤ turns →
      timeIndexMarks yb disk timestart timeend turns = some (.err .blockErrNotIn, []) := by
    intro turns _
    rw [timeIndexMarks, found]
    dsimp only
    rw [if_pos unplaced]
  exact (wellAnswered_iff written (by decide)).mpr .done

/-- A search that leaves the array is no answer. -/
theorem not_wellAnswered_of_left (left : yb.timeIn timestart = .outOfBounds) :
    ¬WellAnswered ctime yb disk sb timestart timeend timeindex := by
  rintro ⟨marks, -, enough, answered⟩
  obtain ⟨status, defined, written, -⟩ := answered enough (Nat.le_refl _)
  rw [timeIndexMarks, left] at written
  cases written
  exact defined rfl

/-- The whole day is cut to nothing, so a range that is cut at its end is not the whole day. -/
theorem not_wholeDay (before : timestart < timeend)
    (whole : timestart / secofday * secofday + iTmpTime timestart timeend = timeend) :
    ¬(timestart % secofday = 0 ∧ timeend = timestart + secofday) := by
  rintro ⟨midnight, day⟩
  have cut : iTmpTime timestart timeend = 0 := by
    rw [iTmpTime, day, Nat.add_mod_right, if_neg (Nat.lt_irrefl _)]
    exact midnight
  have low := Nat.div_mul_le_self timestart secofday
  omega

/-- The answer about a day that is found. -/
theorem wellAnswered_found (found : yb.timeIn timestart = .ok sb.seek)
    (ordered : timestart ≤ timeend)
    (within : timeend ≤ (timestart / secofday + 1) * secofday) :
    WellAnswered ctime yb disk sb timestart timeend timeindex ↔
      sb.seek < 0 ∨ timestart = timeend ∨
        (timestart % secofday = 0 ∧ timeend = timestart + secofday) ∨
          ∃ time, timestart ≤ time ∧ time < timeend ∧ RecordedAt disk sb time := by
  by_cases placed : sb.seek < 0
  · exact iff_of_true (wellAnswered_of_unplaced found placed) (Or.inl placed)
  rcases iTmpTime_cases ordered within with ⟨midnight, day, cut⟩ | ⟨whole, behind, bound⟩
  · exact iff_of_true (wellAnswered_of_empty found placed (by omega))
      (Or.inr (Or.inr (Or.inl ⟨midnight, day⟩)))
  rcases Nat.eq_or_lt_of_le ordered with same | before
  · have start := startOfDay timestart
    exact iff_of_true (wellAnswered_of_empty found placed (by omega)) (Or.inr (Or.inl same))
  · rw [wellAnswered_range found placed before whole bound, or_iff_right placed,
      or_iff_right (Nat.ne_of_lt before), or_iff_right (not_wholeDay before whole)]

end

/-- A query inside a listed day is answered well exactly when the search of the year table
comes to the day before the end of the array, and the range is empty, is taken for empty as the
whole day is, or has a recorded second. -/
theorem time_index_iff (ctime : Int → String) {yb : YearBlock} (disk : Int → Option DayTable)
    {sb : SeekBlock} {timestart timeend : Nat} (timeindex : String)
    (listed : yb.queued.find? (YearBlock.sameDay timestart) = some sb)
    (ordered : timestart ≤ timeend)
    (within : timeend ≤ (timestart / secofday + 1) * secofday) :
    WellAnswered ctime yb disk sb timestart timeend timeindex ↔
      yb.Reaches (YearBlock.sameDay timestart) ∧
        (sb.seek < 0 ∨ timestart = timeend ∨
          (timestart % secofday = 0 ∧ timeend = timestart + secofday) ∨
            ∃ time, timestart ≤ time ∧ time < timeend ∧ RecordedAt disk sb time) := by
  have looked : lookedUp yb.queued (YearBlock.sameDay timestart) SeekBlock.seek = .ok sb.seek := by
    rw [lookedUp, listed]
    rfl
  have right := yb.search_eq_iff (YearBlock.sameDay timestart) SeekBlock.seek
  rw [looked] at right
  have search : yb.timeIn timestart = yb.searchFrom (YearBlock.sameDay timestart) SeekBlock.seek
      yb.queueHead yb.queueSize := (yb.timeInSigned_natCast timestart).symm
  by_cases reaches : yb.Reaches (YearBlock.sameDay timestart)
  · have found : yb.timeIn timestart = .ok sb.seek := by rw [search, right.mpr reaches]
    rw [and_iff_right reaches]
    exact wellAnswered_found found ordered within
  · have left : yb.timeIn timestart = .outOfBounds := by
      rw [search]
      refine (yb.searchFrom_cases _ _ (Nat.le_of_lt yb.headBound) _).resolve_left fun same => ?_
      exact reaches ((yb.search_eq_iff _ _).mp same)
    exact iff_of_false (not_wellAnswered_of_left left) fun both => reaches both.1

/-- A year table with one day. -/
def oneDay : YearBlock := YearBlock.format.enqueue ⟨86400, firstDaySeek⟩

/-- The disk of a recorder with groups at two seconds of its only day. -/
def twoGroupsDisk (seek : Int) : Option DayTable :=
  if seek = firstDaySeek then some twoGroups else none

theorem time_index_iff_twoGroups :
    WellAnswered toString oneDay twoGroupsDisk ⟨86400, firstDaySeek⟩ 86400 86420 "" ↔
      oneDay.Reaches (YearBlock.sameDay 86400) ∧
        (firstDaySeek < 0 ∨ 86400 = 86420 ∨
          (86400 % secofday = 0 ∧ 86420 = 86400 + secofday) ∨
          ∃ time, 86400 ≤ time ∧ time < 86420 ∧
            RecordedAt twoGroupsDisk ⟨86400, firstDaySeek⟩ time) :=
  time_index_iff toString twoGroupsDisk "" (by decide) (by decide) (by decide)

/-- Between the two groups nothing is recorded, and the answer is a start mark at the end of the
range. -/
theorem lone_start_mark :
    ¬WellAnswered toString oneDay twoGroupsDisk ⟨86400, firstDaySeek⟩ 86411 86413 "" := by
  rintro ⟨marks, paired, enough, answered⟩
  obtain ⟨status, -, written, -⟩ := answered (enough + 2) (Nat.le_add_right _ _)
  have found : oneDay.timeIn 86411 = .ok firstDaySeek := by decide
  have empty : ∀ slot, 11 ≤ slot → slot < 13 →
      ¬(readTable twoGroupsDisk firstDaySeek).filled slot := by
    intro slot behind before
    have two : slot = 11 ∨ slot = 12 := by omega
    rcases two with rfl | rfl
    · decide
    · decide
  have lone : timeIndexMarks oneDay twoGroupsDisk 86411 86413 (enough + 2) =
      some (.ok (), [.start 86413]) := by
    rw [@timeIndexMarks_eq oneDay twoGroupsDisk ⟨86400, firstDaySeek⟩ 86411 86413 found (by decide)]
    exact congrArg _ (printOneDay_nothing (86400 : Nat) (by decide) empty enough)
  rw [lone] at written
  cases written
  cases paired

end ExmOnvif.Recorder
