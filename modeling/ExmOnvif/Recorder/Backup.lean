/-
This file says when the backup table takes over a day that is covered.

Before the earliest day is taken off the year queue, its table is to be kept as the backup
table, where `is_in` looks for a day that is no longer listed. The object the backup is
copied from is built without reading the disk, so what is kept is a blank table. The copy is
also made before `del` can refuse, which it does when the ring is full.
-/

import ExmOnvif.Recorder.DayIndex

namespace ExmOnvif.Recorder

namespace Writer

/-! ### What a backup is for -/

/-- The writer after `maybe_cover_dayblock`. -/
def checked (w : Writer) (io : Driver) (blocks seek : Int) : Writer :=
  (w.maybeCoverDayblock io blocks seek).2

/-- A cover check keeps the table of a day it takes off, and is of no effect on the backup
and the year queue otherwise. -/
structure KeepsBackup (w : Writer) (io : Driver) (blocks seek : Int) : Prop where
  taken : ∀ sb table, w.yb.getHead = .ok sb → storedTable w.trace sb.seek = some table →
    (w.checked io blocks seek).yb = w.yb.dequeue →
      (w.checked io blocks seek).dbbac = table ∧
        storedBackup (w.checked io blocks seek).trace = some table ∧
          ∀ t, t / secofday = sb.time / secofday →
            (w.checked io blocks seek).isIn t = some (table.timeIn t).position
  kept : (w.checked io blocks seek).yb ≠ w.yb.dequeue →
    (w.checked io blocks seek).dbbac = w.dbbac ∧
      storedBackup (w.checked io blocks seek).trace = storedBackup w.trace ∧
        (w.checked io blocks seek).yb = w.yb

/-- The days behind the first one have no answer for a second: the search stays inside the
array, and a day it finds has a table on the disk, clear of the year table and of the backup,
with nothing in it for the second. -/
def Silent (w : Writer) (t : Nat) : Prop :=
  w.yb.dequeue.timeIn t ≠ .outOfBounds ∧
    (0 < (w.yb.dequeue.timeIn t).number →
      (Apart firstBlock yearBlocks (w.yb.dequeue.timeIn t).number dayBlocks ∧
        Apart backupSeek dayBlocks (w.yb.dequeue.timeIn t).number dayBlocks) ∧
      ∃ other, storedTable w.trace (w.yb.dequeue.timeIn t).number = some other ∧
        (other.timeIn t).position = 0)

/-- The earliest day is not covered, or there is nothing in it to be kept. -/
def NothingToKeep (w : Writer) (io : Driver) (blocks seek : Int) : Prop :=
  ∀ sb, w.yb.getHead = .ok sb → Covers sb blocks seek →
    if w.yb.queueTail = w.yb.queueHead then
      w.dbbac = DayTable.blank ∧
        storedBackup w.trace = if io backupSeek dayBlocks then some DayTable.blank else none
    else ∀ table, storedTable w.trace sb.seek = some table →
      table = DayTable.blank ∧ io backupSeek dayBlocks = true ∧
        ∀ t, t / secofday = sb.time / secofday → w.Silent t

/-! ### What the check leaves behind -/

/-- The ring behind its head is another ring. -/
theorem dequeue_ne (yb : YearBlock) : yb.dequeue ≠ yb := by
  intro same
  have head : (yb.queueHead + 1) % maxday = yb.queueHead := congrArg YearBlock.queueHead same
  have bound := yb.headBound
  simp only [maxday] at head bound
  omega

/-- Without a covered day nothing is done. -/
theorem checked_of_clear {w : Writer} {blocks seek : Int} (io : Driver)
    (clear : ∀ sb, w.yb.getHead = .ok sb → ¬Covers sb blocks seek) :
    w.checked io blocks seek = w := by
  unfold checked maybeCoverDayblock
  cases head : w.yb.getHead with
  | ok sb =>
    dsimp only
    rw [if_neg (clear sb head)]
  | err code => rfl
  | outOfBounds => rfl

/-- A full ring refuses, but the backup is replaced by then. -/
theorem checked_of_refused {w : Writer} {blocks seek : Int} (io : Driver) {sb : SeekBlock}
    (head : w.yb.getHead = .ok sb) (covers : Covers sb blocks seek)
    (full : w.yb.queueTail = w.yb.queueHead) :
    w.checked io blocks seek = w.backUp io DayTable.blank := by
  unfold checked maybeCoverDayblock
  rw [head]
  dsimp only
  have refused : (w.backUp io DayTable.blank).yb.queueTail =
      (w.backUp io DayTable.blank).yb.queueHead := full
  rw [if_pos covers, delDay, if_pos refused]

theorem checked_of_taken {w : Writer} {blocks seek : Int} (io : Driver) {sb : SeekBlock}
    (head : w.yb.getHead = .ok sb) (covers : Covers sb blocks seek)
    (spare : w.yb.queueTail ≠ w.yb.queueHead) :
    w.checked io blocks seek = w.uncovered io := by
  unfold checked maybeCoverDayblock
  rw [head]
  dsimp only
  have passes : (w.backUp io DayTable.blank).yb.queueTail ≠
      (w.backUp io DayTable.blank).yb.queueHead := spare
  rw [if_pos covers, delDay, if_neg passes, YearBlock.del, if_neg passes]
  rfl

/-- A backup is read back if the driver stored it. -/
theorem storedBackup_backUp (w : Writer) (io : Driver) (table : DayTable) :
    storedBackup (w.backUp io table).trace =
      if io backupSeek dayBlocks then some table else none := by
  have touches : ¬Apart backupSeek dayBlocks backupSeek dayBlocks := by decide
  show storedBackup (.wrote ⟨backupSeek, dayBlocks, .backup table, io backupSeek dayBlocks⟩ ::
    w.trace) = _
  rw [storedBackup, newestWrite_self touches]
  cases io backupSeek dayBlocks with
  | true => exact if_pos rfl
  | false => rfl

/-- The year table is written elsewhere. -/
theorem storedBackup_uncovered (w : Writer) (io : Driver) :
    storedBackup (w.uncovered io).trace =
      if io backupSeek dayBlocks then some DayTable.blank else none := by
  have apart : Apart firstBlock yearBlocks backupSeek dayBlocks := by decide
  rw [← w.storedBackup_backUp io DayTable.blank]
  unfold storedBackup uncovered
  rw [newestWrite_of_apart apart]
  rfl

/-- What the two writes of a check leave of a day table. -/
theorem storedTable_uncovered (w : Writer) (io : Driver) (seek : Int) :
    storedTable (w.uncovered io).trace seek =
      if Apart firstBlock yearBlocks seek dayBlocks ∧ Apart backupSeek dayBlocks seek dayBlocks then
        storedTable w.trace seek
      else none := by
  unfold storedTable uncovered
  by_cases year : Apart firstBlock yearBlocks seek dayBlocks
  · rw [newestWrite_of_apart year, newestWrite]
    by_cases backup : Apart backupSeek dayBlocks seek dayBlocks
    · rw [newestWrite_of_apart backup, if_pos ⟨year, backup⟩]
    · rw [newestWrite_self backup, if_neg fun both => backup both.2]
  · rw [newestWrite_self year, if_neg fun both => year both.1]

theorem position_blank (t : Nat) : (DayTable.blank.timeIn t).position = 0 := by
  have walk : ∀ turns, DayTable.blank.timeInWindow (t % secofday) turns = .err .blockErrNotIn := by
    intro turns
    induction turns with
    | zero => rfl
    | succ turns inductionHypothesis =>
      have zero : ¬(DayTable.blank.slots (t % secofday)).seek ≠ 0 := fun other => other rfl
      rw [DayTable.timeInWindow, if_neg zero, inductionHypothesis]
  have empty : DayTable.blank.timeIn t = .err .blockErrNotIn := by
    unfold DayTable.timeIn
    dsimp only
    rw [if_neg fun both => both.1 rfl]
    exact walk _
  rw [empty]
  rfl

/-- After a day is taken off, nothing is found for a second exactly when the other days have
no answer for it. -/
theorem isIn_uncovered (w : Writer) (io : Driver) (t : Nat) :
    (w.uncovered io).isIn t = some 0 ↔ w.Silent t := by
  have year : (w.uncovered io).yb.timeIn t = w.yb.dequeue.timeIn t := rfl
  have backup : ((w.uncovered io).dbbac.timeIn t).position = 0 := position_blank t
  have found : ∀ reply : Reply Int, reply ≠ .outOfBounds →
      ((if reply.number ≤ 0 then some ((w.uncovered io).dbbac.timeIn t).position
        else (storedTable (w.uncovered io).trace reply.number).map
          fun table => (table.timeIn t).position) = some 0 ↔
        (0 < reply.number →
          (Apart firstBlock yearBlocks reply.number dayBlocks ∧
            Apart backupSeek dayBlocks reply.number dayBlocks) ∧
          ∃ other, storedTable w.trace reply.number = some other ∧
            (other.timeIn t).position = 0)) := by
    intro reply _
    by_cases none : reply.number ≤ 0
    · rw [if_pos none, backup]
      exact iff_of_true rfl fun positive => absurd none (Int.not_le.mpr positive)
    · rw [if_neg none, w.storedTable_uncovered io, forall_prop_of_true (Int.not_le.mp none)]
      split
      · rename_i apart
        rw [Option.map_eq_some_iff, and_iff_right apart]
      · rename_i cut
        exact iff_of_false (fun answer => nomatch answer) fun clear => cut clear.1
  unfold isIn Silent
  rw [year]
  cases reply : w.yb.dequeue.timeIn t with
  | ok seek =>
    have inside : (Reply.ok seek : Reply Int) ≠ .outOfBounds := fun same => nomatch same
    rw [and_iff_right inside]
    exact found _ inside
  | err code =>
    have inside : (Reply.err code : Reply Int) ≠ .outOfBounds := fun same => nomatch same
    rw [and_iff_right inside]
    exact found _ inside
  | outOfBounds => exact iff_of_false (fun answer => nomatch answer) fun clear => clear.1 rfl

/-! ### When the table of a covered day is kept -/

theorem keepsBackup_of_clear {w : Writer} {blocks seek : Int} (io : Driver)
    (clear : ∀ sb, w.yb.getHead = .ok sb → ¬Covers sb blocks seek) :
    w.KeepsBackup io blocks seek := by
  have same := checked_of_clear io clear
  refine ⟨fun sb table _ _ taken => ?_, fun _ => ?_⟩
  · rw [same] at taken
    exact absurd taken.symm (dequeue_ne w.yb)
  · rw [same]
    exact ⟨rfl, rfl, rfl⟩

theorem keepsBackup_of_refused {w : Writer} {blocks seek : Int} (io : Driver) {sb : SeekBlock}
    (head : w.yb.getHead = .ok sb) (covers : Covers sb blocks seek)
    (full : w.yb.queueTail = w.yb.queueHead) :
    w.KeepsBackup io blocks seek ↔
      w.dbbac = DayTable.blank ∧
        storedBackup w.trace = if io backupSeek dayBlocks then some DayTable.blank else none := by
  have after := checked_of_refused io head covers full
  have queue : (w.checked io blocks seek).yb = w.yb := by
    rw [after]
    rfl
  have stored := w.storedBackup_backUp io DayTable.blank
  constructor
  · intro keeps
    obtain ⟨table, disk, -⟩ := keeps.kept (by rw [queue]; exact (dequeue_ne w.yb).symm)
    rw [after] at table disk
    exact ⟨table.symm, by rw [← disk, stored]⟩
  · rintro ⟨table, disk⟩
    refine ⟨fun sb other _ _ taken => ?_, fun _ => ⟨?_, ?_, queue⟩⟩
    · rw [queue] at taken
      exact absurd taken.symm (dequeue_ne w.yb)
    · rw [after]
      exact table.symm
    · rw [after, stored, disk]

theorem keepsBackup_of_taken {w : Writer} {blocks seek : Int} (io : Driver) {sb : SeekBlock}
    (head : w.yb.getHead = .ok sb) (covers : Covers sb blocks seek)
    (spare : w.yb.queueTail ≠ w.yb.queueHead) :
    w.KeepsBackup io blocks seek ↔
      ∀ table, storedTable w.trace sb.seek = some table →
        table = DayTable.blank ∧ io backupSeek dayBlocks = true ∧
          ∀ t, t / secofday = sb.time / secofday → w.Silent t := by
  have after := checked_of_taken io head covers spare
  have queue : (w.checked io blocks seek).yb = w.yb.dequeue := by
    rw [after]
    rfl
  have disk := w.storedBackup_uncovered io
  constructor
  · intro keeps table stored
    obtain ⟨memory, copy, answers⟩ := keeps.taken sb table head stored queue
    rw [after] at memory copy answers
    have blank : table = DayTable.blank := memory.symm
    subst blank
    refine ⟨rfl, ?_, fun t sameDay => ?_⟩
    · by_contra refused
      rw [disk, if_neg refused] at copy
      cases copy
    · have answer := answers t sameDay
      rw [position_blank] at answer
      exact (w.isIn_uncovered io t).mp answer
  · intro nothing
    refine ⟨fun other table first stored _ => ?_, fun left => absurd queue left⟩
    have same : other = sb := by
      rw [head] at first
      cases first
      rfl
    subst same
    obtain ⟨rfl, accepted, silent⟩ := nothing table stored
    rw [after, disk, if_pos accepted]
    refine ⟨rfl, rfl, fun t sameDay => ?_⟩
    rw [position_blank]
    exact (w.isIn_uncovered io t).mpr (silent t sameDay)

end Writer

/-- A cover check keeps the table of the day it takes off exactly when that table is blank and
nothing else answers for the day, and changes nothing in a full ring exactly when the backup
is blank already. -/
theorem cover_backup_iff (w : Writer) (io : Driver) (blocks seek : Int) :
    w.KeepsBackup io blocks seek ↔ w.NothingToKeep io blocks seek := by
  by_cases clear : ∀ sb, w.yb.getHead = .ok sb → ¬Writer.Covers sb blocks seek
  · exact iff_of_true (Writer.keepsBackup_of_clear io clear)
      fun sb head covers => absurd covers (clear sb head)
  · push Not at clear
    obtain ⟨sb, head, covers⟩ := clear
    have only : w.NothingToKeep io blocks seek ↔
        if w.yb.queueTail = w.yb.queueHead then
          w.dbbac = DayTable.blank ∧
            storedBackup w.trace = if io backupSeek dayBlocks then some DayTable.blank else none
        else ∀ table, storedTable w.trace sb.seek = some table →
          table = DayTable.blank ∧ io backupSeek dayBlocks = true ∧
            ∀ t, t / secofday = sb.time / secofday → w.Silent t := by
      refine ⟨fun nothing => nothing sb head covers, fun nothing other first _ => ?_⟩
      rw [head] at first
      cases first
      exact nothing
    rw [only]
    split
    · rename_i full
      exact Writer.keepsBackup_of_refused io head covers full
    · rename_i spare
      exact Writer.keepsBackup_of_taken io head covers spare

/-! ### A recorded day that is lost -/

/-- A day table with one group, recorded at the second second of the day. -/
def oneGroup : DayTable := DayTable.blank.set 86401 ⟨1, 4072⟩

/-- A writer that has come back to the first day, with a newer day listed behind it. -/
def backAtFirstDay : Writer where
  hdSize := 400000
  yb := (YearBlock.format.enqueue ⟨86400, firstDaySeek⟩).enqueue ⟨172800, 200000⟩
  db := ⟨200000, DayTable.blank, 0⟩
  number := 1
  dbbac := DayTable.blank
  seek := firstDaySeek
  iOldTime := 172800
  running := true
  trace := [.wrote ⟨200000, dayBlocks, .dayTable 1 DayTable.blank, true⟩,
    .wrote ⟨firstDaySeek, dayBlocks, .dayTable 0 oneGroup, true⟩]

/-- Covering the first day leaves a blank backup, and its group is no longer found. -/
theorem covered_day_lost :
    ¬backAtFirstDay.KeepsBackup (fun _ _ => true) leaveBlocks firstDaySeek := by
  intro keeps
  obtain ⟨memory, -⟩ := keeps.taken ⟨86400, firstDaySeek⟩ oneGroup (by decide) rfl rfl
  have slot : SeekBlock.zero = ⟨1, 4072⟩ := congrArg (fun table => table.slots 1) memory
  cases slot

end ExmOnvif.Recorder
