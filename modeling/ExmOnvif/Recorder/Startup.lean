/-
This file models how the recorder comes up and goes down: `RWlogic::Init`, the
first lines of `RWlogic::writedata`, and the destructor.

`Init` reads the year table, formats a disk that has none, and takes the newest
listed day as the current one. `writedata` then decides where to go on. It takes
the position of the last indexed group, not the position behind it; and it takes
the day of the year table's newest entry as the day of the last group, unless the
day table is found empty, in which case it takes the clock.

What is on the disk where the history does not tell, because another write cut
into it or the driver refused one, is given from outside: a table, or no magic.
-/

import ExmOnvif.Recorder.Writer

namespace ExmOnvif.Recorder

/-! ### Init -/

/-- What a start of the program meets: the size of the disk, the clock readings of `Init` and
of `writedata`, the unknown contents of the three tables, and the driver's answers. -/
structure Boot where
  hdSize : Int
  initNow : Nat
  startNow : Nat
  foundYear : Option YearBlock
  foundBackup : Option DayTable
  foundDay : Option DayTable
  io : Driver

/-- The writes of `format`, and of deleting the two day objects it used. -/
def formatTrace (io : Driver) : List Event :=
  let year := Event.wrote ⟨firstBlock, yearBlocks, .yearTable YearBlock.format,
    io firstBlock yearBlocks⟩
  let bac := Event.wrote ⟨backupSeek, dayBlocks, .backup DayTable.blank, io backupSeek dayBlocks⟩
  let day := Event.wrote ⟨firstDaySeek, dayBlocks, .dayTable 0 DayTable.blank,
    io firstDaySeek dayBlocks⟩
  [day, bac, day, bac, year]

namespace Boot

/-- `new YearBlocks()`; a disk without the magic is formatted. -/
def year (b : Boot) (trace : List Event) : YearBlock × List Event :=
  match (storedYear trace).or b.foundYear with
  | some yb => (yb, trace)
  | none => (YearBlock.format, formatTrace b.io ++ trace)

/-- `new DayBlocks()`; a backup table without the magic is cleared and written. -/
def readBackup (b : Boot) (trace : List Event) : DayTable × List Event :=
  match (storedBackup trace).or b.foundBackup with
  | some table => (table, trace)
  | none =>
    (DayTable.blank, .wrote ⟨backupSeek, dayBlocks, .backup DayTable.blank,
      b.io backupSeek dayBlocks⟩ :: trace)

/-- `new DayBlocks(seek)`; a day table without the magic is cleared and written. -/
def readDay (b : Boot) (trace : List Event) (seek : Int) : DayTable × List Event :=
  match (storedTable trace seek).or b.foundDay with
  | some table => (table, trace)
  | none =>
    (DayTable.blank, .wrote ⟨seek, dayBlocks, .dayTable 0 DayTable.blank,
      b.io seek dayBlocks⟩ :: trace)

/-- The objects of `Init`, with the current day at `seek`. -/
def writer (b : Boot) (yb : YearBlock) (dbbac : DayTable) (trace : List Event) (seek : Int) :
    Writer where
  hdSize := b.hdSize
  yb := yb
  db := ⟨seek, (b.readDay trace seek).1, 0⟩
  number := 0
  dbbac := dbbac
  seek := 0
  iOldTime := 0
  running := true
  trace := (b.readDay trace seek).2

end Boot

/-- `RWlogic::Init`. An empty year table gets the first day of the disk; if that fails, or the
newest entry lies outside the array, there is nothing to go on with. -/
def init (trace : List Event) (b : Boot) : Option Writer :=
  let year := b.year trace
  let bac := b.readBackup year.2
  match year.1.getTail with
  | .ok sb => some (b.writer year.1 bac.1 bac.2 sb.seek)
  | .err .blockErrEmpty =>
    let sb : SeekBlock := ⟨b.initNow, firstDaySeek⟩
    let written := b.io firstBlock yearBlocks
    match year.1.add sb written with
    | (.ok (), yb) =>
      some (b.writer yb bac.1 (.wrote ⟨firstBlock, yearBlocks, .yearTable yb, written⟩ ::
        .listed 0 sb :: bac.2) firstDaySeek)
    | _ => none
  | _ => none

/-- All `Init` can do: take the newest listed day, or list the first day of an empty queue. -/
theorem init_cases {trace : List Event} {b : Boot} {w : Writer} (up : init trace b = some w) :
    (∃ sb, (b.year trace).1.getTail = .ok sb ∧
      w = b.writer (b.year trace).1 (b.readBackup (b.year trace).2).1
        (b.readBackup (b.year trace).2).2 sb.seek) ∨
      ((b.year trace).1.getTail = .err .blockErrEmpty ∧ b.io firstBlock yearBlocks = true ∧
        b.initNow ≠ 0 ∧ (b.year trace).1.queueTail + 1 ≠ (b.year trace).1.queueHead ∧
        w = b.writer ((b.year trace).1.enqueue ⟨b.initNow, firstDaySeek⟩)
          (b.readBackup (b.year trace).2).1
          (.wrote ⟨firstBlock, yearBlocks,
              .yearTable ((b.year trace).1.enqueue ⟨b.initNow, firstDaySeek⟩),
              b.io firstBlock yearBlocks⟩ ::
            .listed 0 ⟨b.initNow, firstDaySeek⟩ :: (b.readBackup (b.year trace).2).2)
          firstDaySeek) := by
  unfold init at up
  dsimp only at up
  split at up
  · rename_i sb newest
    exact Or.inl ⟨sb, newest, (Option.some.inj up).symm⟩
  · rename_i empty
    refine Or.inr ⟨empty, ?_⟩
    unfold YearBlock.add at up
    by_cases zero : b.initNow = 0 ∨ firstDaySeek = 0
    · rw [if_pos zero] at up
      cases up
    by_cases full : (b.year trace).1.queueTail + 1 = (b.year trace).1.queueHead
    · rw [if_neg zero, if_pos full] at up
      cases up
    rw [if_neg zero, if_neg full] at up
    cases written : b.io firstBlock yearBlocks with
    | false =>
      rw [written] at up
      cases up
    | true =>
      rw [written] at up
      exact ⟨rfl, (not_or.mp zero).1, full, (Option.some.inj up).symm⟩
  · cases up

/-! ### The start of `writedata` and the end of the program -/

namespace Writer

/-- The start of `RWlogic::writedata`: resume at the last indexed group, or behind the table
when `GetTail` finds none. -/
def start (w : Writer) (now : Nat) : Option Writer :=
  match w.yb.getTail with
  | .ok listed =>
    match w.db.table.getTail with
    | .ok sb => some { w with seek := sb.seek, iOldTime := listed.time }
    | _ => some { w with seek := w.db.getNext, iOldTime := now }
  | _ => none

/-- `RWlogic::~RWlogic`: the year table, the backup and the current day's table are written. -/
def stop (w : Writer) (io : Driver) : Writer :=
  ((w.write io firstBlock yearBlocks (.yearTable w.yb)).write io backupSeek dayBlocks
    (.backup w.dbbac)).writeDay io

theorem start_of_tail {w : Writer} (now : Nat) {listed sb : SeekBlock}
    (newest : w.yb.getTail = .ok listed) (found : w.db.table.getTail = .ok sb) :
    w.start now = some { w with seek := sb.seek, iOldTime := listed.time } := by
  rw [start, newest, found]

theorem start_of_empty {w : Writer} (now : Nat) {listed : SeekBlock}
    (newest : w.yb.getTail = .ok listed)
    (empty : w.db.table.getTail = .err .blockErrEmpty) :
    w.start now = some { w with seek := w.db.getNext, iOldTime := now } := by
  rw [start, newest, empty]

/-- All the start can do. -/
theorem start_cases {w after : Writer} {now : Nat} (started : w.start now = some after) :
    ∃ listed, w.yb.getTail = .ok listed ∧
      ((∃ sb, w.db.table.getTail = .ok sb ∧
          after = { w with seek := sb.seek, iOldTime := listed.time }) ∨
        (w.db.table.getTail = .err .blockErrEmpty ∧
          after = { w with seek := w.db.getNext, iOldTime := now })) := by
  cases newest : w.yb.getTail with
  | ok listed =>
    refine ⟨listed, rfl, ?_⟩
    rcases w.db.table.getTail_cases with ⟨sb, found⟩ | empty
    · rw [start_of_tail now newest found] at started
      exact Or.inl ⟨sb, found, (Option.some.inj started).symm⟩
    · rw [start_of_empty now newest empty] at started
      exact Or.inr ⟨empty, (Option.some.inj started).symm⟩
  | err code =>
    rw [start, newest] at started
    cases started
  | outOfBounds =>
    rw [start, newest] at started
    cases started

end Writer

/-- `Init`, and the start of `writedata`. -/
def boot (trace : List Event) (b : Boot) : Option Writer :=
  (init trace b).bind fun w => w.start b.startNow

/-- `Init` on a disk whose tables are all read back. -/
theorem init_stored {trace : List Event} (b : Boot) {yb : YearBlock} {sb : SeekBlock}
    {dbbac table : DayTable} (year : storedYear trace = some yb) (newest : yb.getTail = .ok sb)
    (backup : storedBackup trace = some dbbac) (day : storedTable trace sb.seek = some table) :
    init trace b = some
      { hdSize := b.hdSize, yb := yb, db := ⟨sb.seek, table, 0⟩, number := 0, dbbac := dbbac
        seek := 0, iOldTime := 0, running := true, trace := trace } := by
  simp only [init, Boot.year, year, Option.some_or, Boot.readBackup, backup, newest, Boot.writer,
    Boot.readDay, day]

section Stopped

/-- The recorder a start makes of the tables of a stopped one. -/
def Writer.restarted (w : Writer) (io : Driver) (hdSize seek : Int) (iOldTime : Nat) : Writer where
  hdSize := hdSize
  yb := w.yb
  db := ⟨w.db.llSeek, w.db.table, 0⟩
  number := 0
  dbbac := w.dbbac
  seek := seek
  iOldTime := iOldTime
  running := true
  trace := (w.stop io).trace

variable {w : Writer} {io : Driver} {listed : SeekBlock}

/-- `Init` after a stop whose writes are all stored goes on with the tables of that stop. -/
theorem init_stopped (b : Boot) (stores : ∀ seek blocks, io seek blocks = true)
    (newest : w.yb.getTail = .ok listed) (current : listed.seek = w.db.llSeek)
    (behind : firstDaySeek ≤ w.db.llSeek) :
    init (w.stop io).trace b = some (w.restarted io b.hdSize 0 0) := by
  have trace : (w.stop io).trace = .wrote ⟨w.db.llSeek, dayBlocks, .dayTable w.number w.db.table,
      true⟩ :: .wrote ⟨backupSeek, dayBlocks, .backup w.dbbac, true⟩ ::
        .wrote ⟨firstBlock, yearBlocks, .yearTable w.yb, true⟩ :: w.trace := by
    simp only [Writer.stop, Writer.writeDay, Writer.write, stores]
  have dayYear : Apart w.db.llSeek dayBlocks firstBlock yearBlocks :=
    Or.inr (Int.le_trans year_front behind)
  have backupYear : Apart backupSeek dayBlocks firstBlock yearBlocks := by decide
  have yearYear : ¬Apart firstBlock yearBlocks firstBlock yearBlocks := by decide
  have dayBackup : Apart w.db.llSeek dayBlocks backupSeek dayBlocks :=
    Or.inr (Int.le_trans backup_front behind)
  have backupBackup : ¬Apart backupSeek dayBlocks backupSeek dayBlocks := by decide
  have dayDay : ¬Apart w.db.llSeek dayBlocks w.db.llSeek dayBlocks := by
    have blocks := dayBlocks_eq
    rintro (before | after) <;> omega
  have year : storedYear (w.stop io).trace = some w.yb := by
    rw [trace, storedYear, newestWrite_of_apart dayYear, newestWrite_of_apart backupYear,
      newestWrite_self yearYear]
    exact if_pos rfl
  have backup : storedBackup (w.stop io).trace = some w.dbbac := by
    rw [trace, storedBackup, newestWrite_of_apart dayBackup, newestWrite_self backupBackup]
    exact if_pos rfl
  have day : storedTable (w.stop io).trace listed.seek = some w.db.table := by
    rw [trace, current, storedTable, newestWrite_self dayDay]
    exact if_pos rfl
  rw [init_stored b year newest backup day, current]
  rfl

theorem boot_stopped_empty (b : Boot) (stores : ∀ seek blocks, io seek blocks = true)
    (newest : w.yb.getTail = .ok listed) (current : listed.seek = w.db.llSeek)
    (behind : firstDaySeek ≤ w.db.llSeek) (empty : w.db.table.getTail = .err .blockErrEmpty) :
    boot (w.stop io).trace b =
      some (w.restarted io b.hdSize (w.db.llSeek + dayBlocks) b.startNow) := by
  rw [boot, init_stopped b stores newest current behind, Option.bind_some]
  exact @Writer.start_of_empty (w.restarted io b.hdSize 0 0) b.startNow listed newest empty

theorem boot_stopped_tail (b : Boot) (stores : ∀ seek blocks, io seek blocks = true)
    (newest : w.yb.getTail = .ok listed) (current : listed.seek = w.db.llSeek)
    (behind : firstDaySeek ≤ w.db.llSeek) {sb : SeekBlock} (found : w.db.table.getTail = .ok sb) :
    boot (w.stop io).trace b = some (w.restarted io b.hdSize sb.seek listed.time) := by
  rw [boot, init_stopped b stores newest current behind, Option.bind_some]
  exact @Writer.start_of_tail (w.restarted io b.hdSize 0 0) b.startNow listed sb newest found

end Stopped

/-! ### A new disk -/

/-- The start on a new disk whose driver stores the formatting. -/
def startFormatted (hdSize : Int) (io : Driver) (initNow startNow : Nat) : Option Writer :=
  if io firstBlock yearBlocks ∧ io backupSeek dayBlocks ∧ io firstDaySeek dayBlocks then
    boot [] ⟨hdSize, initNow, startNow, none, none, none, io⟩
  else none

/-- The writer a new disk starts with. -/
def Writer.fresh (hdSize : Int) (io : Driver) (initNow startNow : Nat) : Writer where
  hdSize := hdSize
  yb := YearBlock.format.enqueue ⟨initNow, firstDaySeek⟩
  db := DayBlocks.create firstDaySeek
  number := 0
  dbbac := DayTable.blank
  seek := firstDaySeek + dayBlocks
  iOldTime := startNow
  running := true
  trace :=
    .wrote ⟨firstBlock, yearBlocks, .yearTable (YearBlock.format.enqueue ⟨initNow, firstDaySeek⟩),
      io firstBlock yearBlocks⟩ :: .listed 0 ⟨initNow, firstDaySeek⟩ :: formatTrace io

theorem formatted_backup {io : Driver} (stored : io backupSeek dayBlocks = true) :
    storedBackup (formatTrace io) = some DayTable.blank := by
  have day : Apart firstDaySeek dayBlocks backupSeek dayBlocks := by decide
  have bac : ¬Apart backupSeek dayBlocks backupSeek dayBlocks := by decide
  rw [storedBackup, formatTrace, newestWrite_of_apart day, newestWrite_self bac, stored]
  exact if_pos rfl

theorem formatted_day {io : Driver} (stored : io firstDaySeek dayBlocks = true) :
    storedTable (formatTrace io) firstDaySeek = some DayTable.blank := by
  have day : ¬Apart firstDaySeek dayBlocks firstDaySeek dayBlocks := by decide
  rw [storedTable, formatTrace, newestWrite_self day, stored]
  exact if_pos rfl

theorem format_add {sb : SeekBlock} (nonZero : ¬(sb.time = 0 ∨ sb.seek = 0)) :
    YearBlock.format.add sb true = (.ok (), YearBlock.format.enqueue sb) := by
  have notFull : YearBlock.format.queueTail + 1 ≠ YearBlock.format.queueHead := by decide
  rw [YearBlock.add, if_neg nonZero, if_neg notFull]
  rfl

theorem format_getTail : YearBlock.format.getTail = .err .blockErrEmpty := rfl

theorem format_enqueue_getTail (sb : SeekBlock) :
    (YearBlock.format.enqueue sb).getTail = .ok sb := by
  have listed : (YearBlock.format.enqueue sb).queueSize ≠ 0 := by
    show uint32 1 ≠ 0
    decide
  rw [YearBlock.getTail, if_neg listed]
  rfl

theorem first_nonZero {now : Nat} (positive : now ≠ 0) : ¬(now = 0 ∨ firstDaySeek = 0) := by
  rintro (zero | zero)
  · exact positive zero
  · exact absurd zero (by decide)

theorem init_formatted (hdSize : Int) (io : Driver) (initNow startNow : Nat)
    (positive : initNow ≠ 0) (year : io firstBlock yearBlocks = true)
    (backup : io backupSeek dayBlocks = true) (day : io firstDaySeek dayBlocks = true) :
    init [] ⟨hdSize, initNow, startNow, none, none, none, io⟩ =
      some { Writer.fresh hdSize io initNow startNow with seek := 0, iOldTime := 0 } := by
  have added := @format_add ⟨initNow, firstDaySeek⟩ (first_nonZero positive)
  have apart : Apart firstBlock yearBlocks firstDaySeek dayBlocks := by decide
  have behind : storedTable (.wrote ⟨firstBlock, yearBlocks,
      .yearTable (YearBlock.format.enqueue ⟨initNow, firstDaySeek⟩), true⟩ ::
        .listed 0 ⟨initNow, firstDaySeek⟩ :: formatTrace io) firstDaySeek =
            some DayTable.blank := by
    rw [storedTable, newestWrite_of_apart apart, newestWrite]
    exact formatted_day day
  simp only [init, Boot.year, storedYear, newestWrite, Option.or_none, Boot.readBackup,
    List.append_nil, formatted_backup backup, Writer.fresh, Boot.writer, Boot.readDay,
    DayBlocks.create, format_getTail, year, added, behind]

theorem boot_formatted (hdSize : Int) (io : Driver) (initNow startNow : Nat)
    (positive : initNow ≠ 0) (year : io firstBlock yearBlocks = true)
    (backup : io backupSeek dayBlocks = true) (day : io firstDaySeek dayBlocks = true) :
    boot [] ⟨hdSize, initNow, startNow, none, none, none, io⟩ =
      some (Writer.fresh hdSize io initNow startNow) := by
  have newest := format_enqueue_getTail ⟨initNow, firstDaySeek⟩
  have empty : (DayBlocks.create firstDaySeek).table.getTail = .err .blockErrEmpty :=
    DayTable.getTail_blank
  rw [boot, init_formatted hdSize io initNow startNow positive year backup day, Option.bind_some]
  exact Writer.start_of_empty startNow newest empty

theorem startFormatted_eq (hdSize : Int) (io : Driver) (initNow startNow : Nat)
    (positive : initNow ≠ 0)
    (stores : io firstBlock yearBlocks ∧ io backupSeek dayBlocks ∧ io firstDaySeek dayBlocks) :
    startFormatted hdSize io initNow startNow = some (Writer.fresh hdSize io initNow startNow) := by
  rw [startFormatted, if_pos stores]
  exact boot_formatted hdSize io initNow startNow positive stores.1 stores.2.1 stores.2.2

theorem boot_at_zero (hdSize : Int) (io : Driver) (startNow : Nat) :
    boot [] ⟨hdSize, 0, startNow, none, none, none, io⟩ = none := by
  have refused : ∀ written, YearBlock.format.add ⟨0, firstDaySeek⟩ written =
      (.err .blockErrZero, YearBlock.format) := fun _ => if_pos (Or.inl rfl)
  simp only [boot, init, Boot.year, storedYear, newestWrite, Option.or_none, List.append_nil,
    format_getTail, refused, Option.bind_none]

/-- A writer started on a new disk is the fresh one. -/
theorem startFormatted_eq_some {hdSize : Int} {io : Driver} {initNow startNow : Nat} {w : Writer}
    (started : startFormatted hdSize io initNow startNow = some w) :
    initNow ≠ 0 ∧ w = Writer.fresh hdSize io initNow startNow := by
  by_cases stores : io firstBlock yearBlocks ∧ io backupSeek dayBlocks ∧ io firstDaySeek dayBlocks
  · by_cases zero : initNow = 0
    · rw [startFormatted, if_pos stores, zero, boot_at_zero] at started
      cases started
    · rw [startFormatted_eq hdSize io initNow startNow zero stores] at started
      exact ⟨zero, (Option.some.inj started).symm⟩
  · rw [startFormatted, if_neg stores] at started
    cases started

/-- The first group of a new disk is the last entry of its day. -/
theorem fresh_recorded_tail :
    ((Writer.fresh 60000 (fun _ _ => true) 100 100).iterate
      (.single 101 1000 200)).db.table.getTail = .ok ⟨101, 4072⟩ := by
  refine DayTable.getTail_of_last (by decide) (by decide) (by decide) fun slot above filled => ?_
  have other : slot ≠ 101 % secofday := by
    show slot ≠ 101
    omega
  refine absurd filled ?_
  show ¬((DayTable.blank.set 101 ⟨1, 4072⟩).slots slot).Filled
  rw [DayTable.set_slot_of_ne _ _ other]
  exact SeekBlock.not_filled_zero

section Stored

variable (hdSize : Int) (initNow startNow : Nat)

theorem fresh_storedYear :
    storedYear (Writer.fresh hdSize (fun _ _ => true) initNow startNow).trace =
      some (YearBlock.format.enqueue ⟨initNow, firstDaySeek⟩) := by
  have touches : ¬Apart firstBlock yearBlocks firstBlock yearBlocks := by decide
  rw [Writer.fresh, storedYear, newestWrite_self touches]
  exact if_pos rfl

theorem fresh_storedBackup :
    storedBackup (Writer.fresh hdSize (fun _ _ => true) initNow startNow).trace =
      some DayTable.blank := by
  have apart : Apart firstBlock yearBlocks backupSeek dayBlocks := by decide
  rw [Writer.fresh, storedBackup, newestWrite_of_apart apart, newestWrite]
  exact @formatted_backup (fun _ _ => true) rfl

theorem fresh_storedTable :
    storedTable (Writer.fresh hdSize (fun _ _ => true) initNow startNow).trace firstDaySeek =
      some DayTable.blank := by
  have apart : Apart firstBlock yearBlocks firstDaySeek dayBlocks := by decide
  rw [Writer.fresh, storedTable, newestWrite_of_apart apart, newestWrite]
  exact @formatted_day (fun _ _ => true) rfl

end Stored

end ExmOnvif.Recorder
