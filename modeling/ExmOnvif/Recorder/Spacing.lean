/-
This file follows the write position over whole lives of the recorder.

As long as it moves on block by block, and goes back to the front of the disk only
past the last table, it is in the way of no group that a listed day indexes; and
neither is the block behind the newest table, where a start goes on that finds that
table without an entry.
-/

import ExmOnvif.Recorder.OutOfWay

namespace ExmOnvif.Recorder

open Library

/-! ### The condition on an iteration -/

namespace Writer

/-- Where the disk-full test leaves the write position. -/
def groupPlace (w : Writer) : Int :=
  if w.hdSize - w.seek < leaveBlocks then
    if w.yb.getDayNum = 1 then firstDaySeek + dayBlocks else firstDaySeek
  else w.seek

/-- Between `place` and the write position lie the tables of all listed days and of the
current one. -/
def Swept (w : Writer) (place : Int) : Prop :=
  (place ≤ w.db.llSeek ∧ w.db.llSeek < w.seek) ∧
    ∀ day ∈ w.yb.queued, place ≤ day.seek ∧ day.seek < w.seek

/-- The position goes back to the front of the disk only past the last table. -/
def GoesBackSwept (w : Writer) : Prop := w.hdSize - w.seek < leaveBlocks → w.Swept w.groupPlace

/-- The writer behind the day test of an iteration, if it gets there. -/
def opened (w : Writer) (input : Input) : Option Writer :=
  if w.RollsOver input then
    match w.closeDay input.io with
    | (.ok (), closed) => some (closed.openDay input.io input.nowAgain)
    | _ => none
  else some w

/-- The condition on the group of an iteration: the position goes back swept, and the group
does not run into the current day's table. -/
def GroupSparing (w : Writer) (input : Input) : Prop :=
  w.GoesBackSwept ∧ Apart w.groupPlace input.groupBlocks w.db.llSeek dayBlocks

/-- The condition on an iteration, read off the writer before it. -/
structure Sparing (w : Writer) (input : Input) : Prop where
  room : w.HasRoom input
  rolls : w.RollsOver input → w.hdSize - w.seek < dayBlocks → w.Swept firstDaySeek
  group : ∀ opened ∈ w.opened input, opened.GroupSparing input

instance (w : Writer) (place : Int) : Decidable (w.Swept place) :=
  inferInstanceAs (Decidable (_ ∧ _))

instance (w : Writer) (input : Input) : Decidable (w.HasRoom input) :=
  inferInstanceAs (Decidable (_ → _))

instance (w : Writer) : Decidable w.GoesBackSwept := inferInstanceAs (Decidable (_ → _))

instance (w : Writer) (input : Input) : Decidable (w.GroupSparing input) :=
  inferInstanceAs (Decidable (_ ∧ _))

end Writer

/-- A start finds no entry in the current day's table. -/
def Boot.StartsEmpty (b : Boot) (trace : List Event) : Prop :=
  ∀ ready, init trace b = some ready → ∀ slot, ¬(ready.db.table.slots slot).Filled

/-- The conditions under which groups are spared. -/
def Machine.Spares : Machine → Action → Prop
  | .off _ trace, .boot b => b.Known ∧ b.StartsEmpty trace
  | .on _ w, .iterate input => w.Sparing input
  | _, _ => True

/-- One step that meets the conditions. -/
def Machine.SparingStep (m : Machine) (action : Action) (after : Machine) : Prop :=
  m.Step action after ∧ m.Spares action

/-! ### The invariant of a running recorder -/

/-- Every listed table, and the one in memory, is out of the way of the write position, and the
tables of the other days are out of the way of the block behind the current day's table. -/
structure Writer.Spaced (w : Writer) : Prop where
  newest : ∀ day ∈ w.yb.queued.getLast?, day.seek = w.db.llSeek
  days : ∀ day ∈ w.yb.queued, TableOutOfWay w.trace day.seek w.seek
  table : ∀ slot, (w.db.table.slots slot).OutOfWay w.trace w.db.llSeek w.seek
  others : ∀ day ∈ w.yb.queued, day.seek ≠ w.db.llSeek →
    TableOutOfWay w.trace day.seek (w.db.llSeek + dayBlocks)
  beside : TablesBeside w.trace

/-- The last of the days left is the last of all. -/
theorem getLast?_of_rest {days rest : List SeekBlock} (same : rest = days ∨ rest = days.tail)
    {day : SeekBlock} (last : rest.getLast? = some day) : days.getLast? = some day := by
  rcases same with rfl | rfl
  · exact last
  · rw [List.getLast?_tail] at last
    split at last
    · cases last
    · exact last

namespace Writer

theorem diskFull_seek (w : Writer) (io : Driver) : (w.diskFull io).seek = w.groupPlace := by
  unfold diskFull groupPlace
  split
  · split <;> rfl
  · rfl

namespace Spaced

variable {w : Writer}

theorem of_eq {after : Writer} (spaced : w.Spaced) (yb : after.yb = w.yb)
    (seek : after.seek = w.seek) (db : after.db = w.db) (trace : after.trace = w.trace) :
    after.Spaced := by
  obtain ⟨newest, days, table, others, beside⟩ := spaced
  constructor
  · rwa [yb, db]
  · rwa [yb, trace, seek]
  · rwa [db, trace, seek]
  · rwa [yb, db, trace]
  · rwa [trace]

/-- Events in front of the day tables, and a day taken off. -/
theorem of_fronts {after : Writer} (spaced : w.Spaced) (fronts : w.Fronts after)
    (seek : after.seek = w.seek)
    (queue : after.yb.queued = w.yb.queued ∨ after.yb.queued = w.yb.queued.tail) :
    after.Spaced := by
  obtain ⟨events, trace, front⟩ := fronts.trace
  have listed : ∀ day ∈ after.yb.queued, day ∈ w.yb.queued := by
    rcases queue with same | tail
    · exact fun day member => same ▸ member
    · exact fun day member => List.mem_of_mem_tail (tail ▸ member)
  constructor
  · rw [fronts.db]
    exact fun day last => spaced.newest day (getLast?_of_rest queue last)
  · rw [trace, seek]
    exact fun day member => (spaced.days day (listed day member)).front front
  · rw [fronts.db, trace, seek]
    exact fun slot => (spaced.table slot).append (groups_front front)
  · rw [fronts.db, trace]
    exact fun day member other => (spaced.others day (listed day member) other).front front
  · rw [trace]
    exact spaced.beside.append (fun event member => (front event member).tableless)
      (groups_front front)

/-- The position goes back past all tables. -/
theorem moved (spaced : w.Spaced) {place : Int} (swept : w.Swept place) :
    ({ w with seek := place } : Writer).Spaced where
  newest := spaced.newest
  days day member := (spaced.days day member).back (swept.2 day member).1 (swept.2 day member).2
  table slot := (spaced.table slot).back swept.1.1 swept.1.2
  others := spaced.others
  beside := spaced.beside

theorem writeDay (spaced : w.Spaced) (io : Driver) : (w.writeDay io).Spaced where
  newest := spaced.newest
  days day member := (spaced.days day member).wrote _ _ fun here =>
    here ▸ spaced.table
  table slot := @SeekBlock.OutOfWay.append _ _ _ _ (spaced.table slot) [_] rfl
  others day member other := (spaced.others day member other).wrote _ _ fun here =>
    absurd here.symm other
  beside := spaced.beside.wrote _ _ fun slot => (spaced.table slot).beside

theorem maybeCoverDayblock (spaced : w.Spaced) (ring : w.yb.Ring) (spare : w.yb.queueSize < maxday)
    (io : Driver) (blocks seek : Int) : (w.maybeCoverDayblock io blocks seek).2.Spaced := by
  obtain ⟨fronts, same⟩ := w.maybeCoverDayblock_fronts io blocks seek
  refine spaced.of_fronts fronts same ?_
  rcases w.maybeCoverDayblock_cases io blocks seek ring spare with
    ⟨_, result⟩ | ⟨_, _, _, _, result⟩ | ⟨sb, rest, queue, _, result⟩
  · rw [result]
    exact Or.inl rfl
  · rw [result]
    exact Or.inl rfl
  · have some : w.yb.queueSize ≠ 0 := by
      rw [← YearBlock.queued_length, queue]
      exact Nat.succ_ne_zero _
    rw [result]
    exact Or.inr (ring.queued_dequeue some)

theorem diskFull (spaced : w.Spaced) (io : Driver) (swept : w.GoesBackSwept) :
    (w.diskFull io).Spaced := by
  have fronts := w.diskFull_fronts io
  have queue := congrArg YearBlock.queued (w.diskFull_yb io)
  by_cases full : w.hdSize - w.seek < leaveBlocks
  · refine (spaced.moved (swept full)).of_fronts ?_ (w.diskFull_seek io) (Or.inl queue)
    exact ⟨fronts.hdSize, fronts.db, fronts.number, fronts.running, fronts.iOldTime, fronts.trace⟩
  · refine spaced.of_fronts fronts ?_ (Or.inl queue)
    rw [w.diskFull_seek io, groupPlace, if_neg full]

theorem closeDay (spaced : w.Spaced) (ring : w.yb.Ring) (spare : w.yb.queueSize < maxday)
    (io : Driver) (swept : w.hdSize - w.seek < dayBlocks → w.Swept firstDaySeek) :
    (w.closeDay io).2.Spaced := by
  have closed := spaced.writeDay io
  unfold Writer.closeDay
  dsimp only
  split
  · rename_i short
    have moved : ({ w.writeDay io with seek := firstDaySeek } : Writer).Spaced :=
      closed.moved (swept short)
    exact moved.maybeCoverDayblock ring spare io dayBlocks firstDaySeek
  · exact closed

/-- The table of a new day has no entry yet, and the position moves on past it. -/
theorem openDay (spaced : w.Spaced) (ring : w.yb.Ring) (io : Driver) {now : Nat}
    (room : w.yb.queueSize + 1 < maxday) (timed : now ≠ 0) (placed : w.seek ≠ 0) :
    (w.openDay io now).Spaced := by
  have empty : ∀ slot, ¬(DayTable.blank.slots slot).Filled := fun _ => SeekBlock.not_filled_zero
  have notFull : w.yb.queueTail + 1 ≠ w.yb.queueHead := by
    rw [Ne, ring.full_test_iff]
    omega
  have queue := ring.queued_enqueue ⟨now, w.seek⟩ (by omega)
  have year : ∀ event ∈ [Event.wrote ⟨firstBlock, yearBlocks,
      .yearTable (w.yb.enqueue ⟨now, w.seek⟩), io firstBlock yearBlocks⟩,
      .listed (w.number + 1) ⟨now, w.seek⟩], event.Tableless := by
    intro event member
    simp only [List.mem_cons, List.not_mem_nil, or_false] at member
    rcases member with rfl | rfl <;> trivial
  rcases w.openDay_cases io now notFull with ⟨refused, -⟩ | ⟨-, listed⟩
  · exact absurd refused (not_or.mpr ⟨timed, placed⟩)
  rw [listed]
  have moved : ∀ day ∈ (w.yb.enqueue ⟨now, w.seek⟩).queued,
      TableOutOfWay (w.dayLaid io) day.seek (w.seek + dayBlocks) := by
    intro day member
    rw [queue] at member
    rcases List.mem_append.mp member with earlier | new
    · exact (spaced.days day earlier).advance_wrote _ _ empty
    · rw [List.mem_singleton.mp new]
      intro table read slot
      rcases storedTable_wrote read with ⟨-, rfl⟩ | ⟨apart, -⟩
      · exact .of_empty (empty slot)
      · have length := dayBlocks_eq
        unfold Apart at apart
        dsimp only at apart
        omega
  have laid := fun day member => (moved day member).append year rfl
  constructor
  · intro day last
    rw [queue, List.getLast?_concat] at last
    cases last
    rfl
  · exact laid
  · exact fun slot => .of_empty (empty slot)
  · exact fun day member _ => laid day member
  · exact (spaced.beside.wrote_blank _ _ _).append year rfl

/-- A group laid apart from the current day's table. Its entry is out of the way, too. -/
theorem layGroup (spaced : w.Spaced) (sound : w.Sound) (input : Input)
    (apart : Apart w.seek input.groupBlocks w.db.llSeek dayBlocks) :
    (w.layGroup input).Spaced ∧
      (groupEntry input w.seek).OutOfWay (w.layGroup input).trace w.db.llSeek
        (w.layGroup input).seek := by
  have tables := sound.disk.tables
  have heads := sound.disk.heads
  refine ⟨⟨spaced.newest, ?_, ?_, ?_, spaced.beside.laid input w.seek⟩, ?_⟩
  · exact fun day member => (spaced.days day member).advance_laid tables heads input
  · intro slot
    have elsewhere := (spaced.table slot).seek_ne heads (sound.table slot)
    exact ((spaced.table slot).laid elsewhere).advance apart (Int.le_of_lt input.groupBlocks_pos)
  · exact fun day member other =>
      (spaced.days day member).laid (spaced.others day member other) tables heads input
  · intro filled block newest
    have laid : newestGroup (input.groupEvents w.seek ++ w.trace) w.seek = some block := newest
    rw [newestGroup_laid, if_pos rfl] at laid
    cases laid
    rcases apart with before | after
    · exact Or.inr ⟨before, Int.le_refl _⟩
    · exact Or.inl ⟨after, Or.inl (Int.le_refl _)⟩

theorem indexGroup (spaced : w.Spaced) (input : Input) (now : Nat) (start : Int)
    (entry : (groupEntry input start).OutOfWay w.trace w.db.llSeek w.seek) :
    (w.indexGroup input now start).Spaced := by
  have stored : ({ w with db := w.db.store (groupEntry input start) now } : Writer).Spaced := by
    refine ⟨spaced.newest, spaced.days, fun slot => ?_, spaced.others, spaced.beside⟩
    by_cases same : slot = now % secofday
    · rw [same]
      exact (w.db.table.set_slot now _).symm ▸ entry
    · exact (w.db.table.set_slot_of_ne _ same).symm ▸ spaced.table slot
  have noted : ({ w with
      db := w.db.store (groupEntry input start) now
      trace := .indexed now w.db.llSeek (groupEntry input start) :: w.trace } : Writer).Spaced :=
    ⟨stored.newest, stored.days, stored.table, stored.others, stored.beside⟩
  rcases w.indexGroup_cases input now start with same | stopped | ⟨-, indexed | written | failed⟩
  · rw [same]
    exact spaced
  · rw [stopped]
    exact spaced.of_eq rfl rfl rfl rfl
  · rw [indexed]
    exact noted
  · rw [written]
    exact noted.writeDay input.io
  · rw [failed]
    exact (stored.writeDay input.io).of_eq rfl rfl rfl rfl

/-- The part of an iteration behind the day test. -/
theorem record (spaced : w.Spaced) (sound : w.Sound) {input : Input} (now : Nat)
    (sparing : w.GroupSparing input) : (w.record input now).Spaced := by
  obtain ⟨swept, apart⟩ := sparing
  have full := sound.diskFull input.io
  have checked := (spaced.diskFull input.io swept).maybeCoverDayblock full.year.ring
    full.year.spare input.io leaveBlocks (w.diskFull input.io).seek
  have checkedSound := full.maybeCoverDayblock input.io leaveBlocks (w.diskFull input.io).seek
  obtain ⟨fronts, place⟩ := (w.diskFull input.io).maybeCoverDayblock_fronts input.io leaveBlocks
    (w.diskFull input.io).seek
  unfold Writer.record
  dsimp only
  split
  · rename_i passed result
    rw [result] at checked checkedSound fronts place
    have clear : Apart passed.seek input.groupBlocks passed.db.llSeek dayBlocks := by
      rw [place, w.diskFull_seek, fronts.db, (w.diskFull_fronts input.io).db]
      exact apart
    obtain ⟨laid, entry⟩ := checked.layGroup checkedSound input clear
    exact (laid.indexGroup input now _ entry).of_eq rfl rfl rfl rfl
  · rename_i failed result
    rw [result] at checked
    exact checked.of_eq rfl rfl rfl rfl

/-- One iteration that meets the condition keeps the invariant. -/
theorem iterate (spaced : w.Spaced) (sound : w.Sound) {input : Input} (sparing : w.Sparing input)
    (timed : input.nowAgain ≠ 0) : (w.iterate input).Spaced := by
  obtain ⟨room, rolls, group⟩ := sparing
  unfold opened at group
  unfold Writer.iterate
  by_cases midnight : w.RollsOver input
  · have closed := spaced.closeDay sound.year.ring sound.year.spare input.io (rolls midnight)
    have closedSound := sound.closeDay input.io
    have fewer := w.closeDay_queueSize input.io sound.year.ring sound.year.spare
    simp only [midnight, if_true] at group ⊢
    split
    · rename_i passed result
      simp only [result] at group closed closedSound fewer
      have free := Nat.lt_of_le_of_lt (Nat.succ_le_succ fewer) (room midnight)
      have front := firstDaySeek_eq
      have behind := closedSound.behind
      have opened := closed.openDay closedSound.year.ring input.io free timed (by omega)
      exact opened.record (closedSound.openDay input.io _ free) _ (group _ rfl)
    · rename_i failed result
      rw [result] at closed
      exact closed.of_eq rfl rfl rfl rfl
  · simp only [midnight, if_false] at group ⊢
    exact spaced.record sound input.now (group _ rfl)

end Spaced

end Writer

/-! ### Starts -/

/-- The days listed besides the newest one are out of the way of the block behind its table. -/
def OthersOutOfWay (yb : YearBlock) (trace : List Event) : Prop :=
  ∀ newest ∈ yb.queued.getLast?, ∀ day ∈ yb.queued, day.seek ≠ newest.seek →
    TableOutOfWay trace day.seek (newest.seek + dayBlocks)

/-- What `Init` leaves of the groups of the disk. -/
structure Untouched (w : Writer) : Prop where
  others : OthersOutOfWay w.yb w.trace
  beside : TablesBeside w.trace
  read : ∀ table, storedTable w.trace w.db.llSeek = some table → table = w.db.table

theorem formatTrace_beside {trace : List Event} (beside : TablesBeside trace) (io : Driver) :
    TablesBeside (formatTrace io ++ trace) := by
  have single : ∀ {trace : List Event} (event : Event), TablesBeside trace → event.Tableless →
      groups [event] = [] → TablesBeside (event :: trace) := fun event beside tableless none =>
    @TablesBeside.append _ beside [event]
      (fun _ member => (List.mem_singleton.mp member).symm ▸ tableless) none
  have year := single (.wrote ⟨firstBlock, yearBlocks, .yearTable .format,
    io firstBlock yearBlocks⟩) beside trivial rfl
  have bac := fun {trace : List Event} (beside : TablesBeside trace) =>
    single (.wrote ⟨backupSeek, dayBlocks, .backup DayTable.blank, io backupSeek dayBlocks⟩)
      beside trivial rfl
  exact (bac ((bac year).wrote_blank firstDaySeek 0 _)).wrote_blank firstDaySeek 0 _

theorem Boot.year_untouched {trace : List Event} {b : Boot} (known : b.Known)
    (beside : TablesBeside trace)
    (others : ∀ yb, storedYear trace = some yb → OthersOutOfWay yb trace) :
    OthersOutOfWay (b.year trace).1 (b.year trace).2 ∧ TablesBeside (b.year trace).2 := by
  unfold Boot.year
  rw [known.1, Option.or_none]
  cases stored : storedYear trace with
  | some yb => exact ⟨others yb stored, beside⟩
  | none => exact ⟨(fun _ newest => nomatch newest), formatTrace_beside beside b.io⟩

theorem Boot.readBackup_front (b : Boot) (trace : List Event) :
    ∃ events, (b.readBackup trace).2 = events ++ trace ∧ ∀ event ∈ events, event.Front := by
  unfold Boot.readBackup
  split
  · exact ⟨[], rfl, fun _ member => absurd member List.not_mem_nil⟩
  · refine ⟨[_], rfl, fun event member => ?_⟩
    rw [List.mem_singleton.mp member]
    exact backup_front

/-- The day table is read, or a blank one is written in its place. -/
theorem Boot.writer_untouched {b : Boot} (known : b.Known) {yb : YearBlock} {trace : List Event}
    (dbbac : DayTable) {listed : SeekBlock} (last : yb.queued.getLast? = some listed)
    (others : OthersOutOfWay yb trace) (beside : TablesBeside trace) :
    Untouched (b.writer yb dbbac trace listed.seek) := by
  unfold Boot.writer Boot.readDay
  rw [known.2, Option.or_none]
  cases stored : storedTable trace listed.seek with
  | some table => exact ⟨others, beside, fun other read => Option.some.inj (read.symm.trans stored)⟩
  | none =>
    refine ⟨fun newest tail day member other => ?_, beside.wrote_blank _ _ _, fun table read => ?_⟩
    · have same : listed = newest := Option.some.inj (last.symm.trans tail)
      exact (others newest tail day member other).wrote _ _ fun here =>
        absurd (here.symm.trans (congrArg SeekBlock.seek same)) other
    · rcases storedTable_wrote read with ⟨-, blank⟩ | ⟨-, before⟩
      · exact blank
      · cases stored.symm.trans before

theorem init_untouched {trace : List Event} {b : Boot} {ready : Writer} (known : b.Known)
    (sound : (Machine.off 0 trace).Sound) (beside : TablesBeside trace)
    (others : ∀ yb, storedYear trace = some yb → OthersOutOfWay yb trace)
    (up : init trace b = some ready) : Untouched ready := by
  have disk := OnDisk.of_boot known sound.1 sound.2.1 sound.2.2
  obtain ⟨yearOthers, yearBeside⟩ := Boot.year_untouched known beside others
  obtain ⟨events, backup, front⟩ := b.readBackup_front (b.year trace).2
  have tableless := fun event member => (front event member).tableless
  have backedOthers : OthersOutOfWay (b.year trace).1 (b.readBackup (b.year trace).2).2 := by
    rw [backup]
    exact fun newest last day member other => (yearOthers newest last day member other).front front
  have backedBeside : TablesBeside (b.readBackup (b.year trace).2).2 := by
    rw [backup]
    exact yearBeside.append tableless (groups_front front)
  rcases init_cases up with ⟨sb, newest, rfl⟩ | ⟨empty, -, -, -, rfl⟩
  · exact Boot.writer_untouched known _ (disk.year.ring.getTail_eq_ok newest) backedOthers
      backedBeside
  · have none : (b.year trace).1.queueSize = 0 := YearBlock.getTail_eq_empty empty
    have queue := disk.year.ring.queued_enqueue ⟨b.initNow, firstDaySeek⟩ (by rw [none]; decide)
    rw [List.length_eq_zero_iff.mp ((YearBlock.queued_length _).trans none), List.nil_append]
      at queue
    refine @Boot.writer_untouched b known _ _ _ ⟨b.initNow, firstDaySeek⟩ ?_ ?_ ?_
    · rw [queue]
      rfl
    · intro newest last day member other
      rw [queue] at last member
      cases last
      cases List.mem_singleton.mp member
      exact absurd rfl other
    · refine @TablesBeside.append _ backedBeside [_, _] ?_ rfl
      intro event member
      simp only [List.mem_cons, List.not_mem_nil, or_false] at member
      rcases member with rfl | rfl <;> trivial

/-- A start without an entry to go on from leaves everything out of the way. -/
theorem boot_spaced {trace : List Event} {b : Boot} {w : Writer} (known : b.Known)
    (empty : b.StartsEmpty trace) (sound : (Machine.off 0 trace).Sound)
    (beside : TablesBeside trace)
    (others : ∀ yb, storedYear trace = some yb → OthersOutOfWay yb trace)
    (up : boot trace b = some w) : w.Spaced := by
  obtain ⟨ready, initialized, started⟩ := Option.bind_eq_some_iff.mp up
  have untouched := init_untouched known sound beside others initialized
  have noEntry := empty ready initialized
  have none : ready.db.table.getTail = .err .blockErrEmpty :=
    DayTable.getTail_of_empty fun slot _ => noEntry slot
  have left := init_initialized known sound.1 sound.2.1 sound.2.2 initialized
  obtain ⟨listed, newest, ⟨sb, found, -⟩ | ⟨-, rfl⟩⟩ := Writer.start_cases started
  · cases none.symm.trans found
  obtain ⟨last, place⟩ := left.current listed newest
  have elsewhere : ∀ day ∈ ready.yb.queued, day.seek ≠ ready.db.llSeek →
      TableOutOfWay ready.trace day.seek (ready.db.llSeek + dayBlocks) := by
    rw [← place]
    exact untouched.others listed last
  refine ⟨fun day tail => ?_, fun day member => ?_, fun slot => .of_empty (noEntry slot),
    elsewhere, untouched.beside⟩
  · rw [last] at tail
    cases tail
    exact place
  · by_cases current : day.seek = ready.db.llSeek
    · intro table read slot
      rw [current] at read
      rw [untouched.read table read]
      exact .of_empty (noEntry slot)
    · exact elsewhere day member current

/-! ### Whole lives -/

/-- The invariant. A year table is written at a positive time only. -/
def Machine.Spaced : Machine → Prop
  | .off clock trace => (storedYear trace ≠ none → clock ≠ 0) ∧ TablesBeside trace ∧
    ∀ yb, storedYear trace = some yb → OthersOutOfWay yb trace
  | .on clock w => clock ≠ 0 ∧ w.Spaced

/-- Both invariants. -/
structure Machine.SoundAndSpaced (m : Machine) : Prop where
  sound : m.Sound
  spaced : m.Spaced

theorem Writer.Spaced.othersOutOfWay {w : Writer} (spaced : w.Spaced) :
    OthersOutOfWay w.yb w.trace := by
  intro newest last day member other
  rw [spaced.newest newest last] at other ⊢
  exact spaced.others day member other

theorem Writer.Spaced.stop {w : Writer} (spaced : w.Spaced) (io : Driver) : (w.stop io).Spaced := by
  have written : ((w.write io firstBlock yearBlocks (.yearTable w.yb)).write io backupSeek dayBlocks
      (.backup w.dbbac)).Spaced := by
    refine spaced.of_fronts ⟨rfl, rfl, rfl, rfl, rfl, [_, _], rfl, fun event member => ?_⟩ rfl
      (Or.inl rfl)
    rcases List.mem_cons.mp member with rfl | last
    · exact backup_front
    · rw [List.mem_singleton.mp last]
      exact year_front
  exact written.writeDay io

/-- The first year table of a disk is written at a positive time. -/
theorem boot_timed {trace : List Event} {b : Boot} {w : Writer} {clock : Nat} (known : b.Known)
    (timed : storedYear trace ≠ none → clock ≠ 0) (later : clock ≤ b.initNow)
    (order : b.initNow ≤ b.startNow) (up : boot trace b = some w) : b.startNow ≠ 0 := by
  obtain ⟨ready, initialized, -⟩ := Option.bind_eq_some_iff.mp up
  intro zero
  have start : clock = 0 ∧ b.initNow = 0 := by omega
  have none : storedYear trace = none := by
    by_contra some
    exact timed some start.1
  rcases init_cases initialized with ⟨sb, newest, -⟩ | ⟨-, -, positive, -, -⟩
  · rw [Boot.year, none, known.1] at newest
    cases format_getTail.symm.trans newest
  · exact positive start.2

theorem Machine.SparingStep.orderly {m after : Machine} {action : Action}
    (step : m.SparingStep action after) : m.OrderlyStep action after := by
  refine ⟨step.1, ?_⟩
  have spares := step.2
  cases step.1 with
  | boot => exact spares.1
  | iterate => exact spares.room
  | stop => trivial
  | kill => trivial

theorem Machine.SparingStep.spaced {m after : Machine} {action : Action}
    (step : m.SparingStep action after) (sound : m.Sound) (spaced : m.Spaced) : after.Spaced := by
  obtain ⟨taken, spares⟩ := step
  cases taken with
  | boot later order up =>
    obtain ⟨timed, beside, others⟩ := spaced
    exact ⟨boot_timed spares.1 timed later order up,
      boot_spaced spares.1 spares.2 sound beside others up⟩
  | @iterate clock w input running later order =>
    obtain ⟨timed, kept⟩ := spaced
    have read : clock ≤ w.lastRead input := by
      unfold Writer.lastRead
      split <;> omega
    exact ⟨by omega, kept.iterate sound spares (by omega)⟩
  | @stop clock w io =>
    obtain ⟨timed, kept⟩ := spaced
    have stopped := kept.stop io
    have disk := (Writer.Sound.stop sound io).disk
    exact ⟨fun _ => timed, stopped.beside,
      fun yb read => disk.written yb read ▸ stopped.othersOutOfWay⟩
  | @kill clock w =>
    obtain ⟨timed, kept⟩ := spaced
    have whole : w.Sound := sound
    exact ⟨fun _ => timed, kept.beside,
      fun yb read => whole.disk.written yb read ▸ kept.othersOutOfWay⟩

theorem new_disk_spaced (clock : Nat) : (Machine.off clock []).Spaced :=
  ⟨fun some => absurd rfl some, (fun _ _ read => nomatch read), fun _ read => nomatch read⟩

/-- Both invariants hold along every life whose steps meet the conditions. -/
theorem run_spaced {clock : Nat} {actions : List Action} {m : Machine}
    (run : Runs Machine.SparingStep (.off clock []) actions m) : m.SoundAndSpaced := by
  refine run.invariant ⟨new_disk_sound clock, new_disk_spaced clock⟩ ?_
  rintro before action after step ⟨sound, spaced⟩
  exact ⟨step.1.sound step.orderly.2 sound, step.spaced sound spaced⟩

end ExmOnvif.Recorder
