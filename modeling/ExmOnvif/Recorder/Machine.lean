/-
This file runs the recorder over its whole life: it is started on a disk, makes
iterations, is stopped with its tables written or loses power, and is started
again on whatever the disk holds by then.

The base invariant says what every start can rely on: the year table read back is
the one last written, its days lie behind the backup table, and every entry of
every day table on the disk is the place of a group that was laid there.
-/

import ExmOnvif.Recorder.Playback

namespace ExmOnvif.Recorder

open Library

/-! ### The machine -/

/-- The recorder, switched off over a disk or running, with the last time it read. -/
inductive Machine where
  | off (clock : Nat) (trace : List Event)
  | on (clock : Nat) (w : Writer)

/-- What can happen to the recorder. -/
inductive Action where
  | boot (b : Boot)
  | iterate (input : Input)
  | stop (io : Driver)
  | kill

/-- The last clock reading of an iteration. -/
def Writer.lastRead (w : Writer) (input : Input) : Nat :=
  if w.RollsOver input then input.nowAgain else input.now

/-- One step of the recorder's life. The clock never goes back. -/
inductive Machine.Step : Machine → Action → Machine → Prop
  | boot {clock : Nat} {trace : List Event} {b : Boot} {w : Writer} (later : clock ≤ b.initNow)
      (order : b.initNow ≤ b.startNow) (up : boot trace b = some w) :
      Step (.off clock trace) (.boot b) (.on b.startNow w)
  | iterate {clock : Nat} {w : Writer} {input : Input} (running : w.running = true)
      (later : clock ≤ input.now) (order : input.now ≤ input.nowAgain) :
      Step (.on clock w) (.iterate input) (.on (w.lastRead input) (w.iterate input))
  | stop {clock : Nat} {w : Writer} {io : Driver} :
      Step (.on clock w) (.stop io) (.off clock (w.stop io).trace)
  | kill {clock : Nat} {w : Writer} : Step (.on clock w) .kill (.off clock w.trace)

/-- No table is found on the disk that the history does not tell of. -/
def Boot.Known (b : Boot) : Prop := b.foundYear = none ∧ b.foundDay = none

/-- At a roll-over the year queue has room. -/
def Writer.HasRoom (w : Writer) (input : Input) : Prop :=
  w.RollsOver input → w.yb.queueSize + 1 < maxday

/-- The conditions of the base invariant. -/
def Machine.Orderly : Machine → Action → Prop
  | _, .boot b => b.Known
  | .on _ w, .iterate input => w.HasRoom input
  | _, _ => True

/-! ### The base invariant -/

/-- A year table whose ring is in order, with all its days behind the backup table. -/
structure YearSound (yb : YearBlock) : Prop where
  ring : yb.Ring
  spare : yb.queueSize < maxday
  behind : ∀ sb ∈ yb.queued, firstDaySeek ≤ sb.seek

/-- An index entry is empty or the place of a group. -/
def Placed (trace : List Event) (sb : SeekBlock) : Prop :=
  sb = SeekBlock.zero ∨ firstDaySeek ≤ sb.seek ∧
    ∃ block, (sb.seek, block) ∈ groups trace ∧ sb.seek < block.nextMultMediaBlock

/-- Every entry of every day table ever written is empty or the place of a group. -/
def TablesPlaced (trace : List Event) : Prop :=
  ∀ seek blocks number table stored,
    .wrote ⟨seek, blocks, .dayTable number table, stored⟩ ∈ trace →
      ∀ slot, Placed trace (table.slots slot)

/-- No group of the history is empty. -/
def HeadsPlaced (trace : List Event) : Prop :=
  ∀ group ∈ groups trace, group.1 < group.2.nextMultMediaBlock

/-- The year table in memory is sound and the only one that can be read back. -/
structure OnDisk (yb : YearBlock) (trace : List Event) : Prop where
  year : YearSound yb
  tables : TablesPlaced trace
  heads : HeadsPlaced trace
  written : ∀ other, storedYear trace = some other → other = yb

/-- The base invariant of a running recorder. -/
structure Writer.Sound (w : Writer) : Prop where
  disk : OnDisk w.yb w.trace
  behind : firstDaySeek ≤ w.seek
  day : firstDaySeek ≤ w.db.llSeek
  table : ∀ slot, Placed w.trace (w.db.table.slots slot)

/-- The base invariant. -/
def Machine.Sound : Machine → Prop
  | .off _ trace => TablesPlaced trace ∧ HeadsPlaced trace ∧
    ∀ yb, storedYear trace = some yb → YearSound yb
  | .on _ w => w.Sound

/-- A day listed at the end of a sound queue with room. -/
theorem YearSound.enqueue {yb : YearBlock} (year : YearSound yb) (sb : SeekBlock)
    (room : yb.queueSize + 1 < maxday) (behind : firstDaySeek ≤ sb.seek) :
    YearSound (yb.enqueue sb) := by
  have queue := year.ring.queued_enqueue sb (by omega)
  refine ⟨year.ring.enqueue sb (by omega), ?_, fun other member => ?_⟩
  · rw [← YearBlock.queued_length, queue, List.length_append, YearBlock.queued_length,
      List.length_singleton]
    exact room
  · rw [queue] at member
    rcases List.mem_append.mp member with earlier | new
    · exact year.behind other earlier
    · rw [List.mem_singleton.mp new]
      exact behind

/-- A day taken off the front of a sound queue. -/
theorem YearSound.dequeue {yb : YearBlock} (year : YearSound yb) (some : yb.queueSize ≠ 0) :
    YearSound yb.dequeue := by
  refine ⟨year.ring.dequeue some, ?_, fun sb member => ?_⟩
  · obtain ⟨count, size⟩ := Nat.exists_eq_succ_of_ne_zero some
    have spare := year.spare
    rw [YearBlock.dequeue_queueSize count size]
    omega
  · rw [year.ring.queued_dequeue some] at member
    exact year.behind sb (List.mem_of_mem_tail member)

/-- A roll-over lists no day before the new table is laid. -/
theorem Writer.closeDay_queueSize (w : Writer) (io : Driver) (ring : w.yb.Ring)
    (spare : w.yb.queueSize < maxday) : (w.closeDay io).2.yb.queueSize ≤ w.yb.queueSize := by
  unfold closeDay
  dsimp only
  split
  · rcases maybeCoverDayblock_cases { w.writeDay io with seek := firstDaySeek } io dayBlocks
      firstDaySeek ring spare with ⟨_, result⟩ | ⟨_, _, _, _, result⟩ | ⟨sb, rest, queue, _, result⟩
    · rw [result]
      exact Nat.le_refl _
    · rw [result]
      exact Nat.le_refl _
    · rw [result]
      have some : w.yb.queueSize ≠ 0 := by
        rw [← YearBlock.queued_length]
        exact queue ▸ Nat.succ_ne_zero _
      show w.yb.dequeue.queueSize ≤ _
      rw [← YearBlock.queued_length, ring.queued_dequeue some, List.length_tail,
        YearBlock.queued_length]
      exact Nat.sub_le _ _
  · exact Nat.le_refl _

theorem Placed.append {trace : List Event} {sb : SeekBlock} (placed : Placed trace sb)
    (events : List Event) : Placed (events ++ trace) sb := by
  rcases placed with zero | ⟨behind, block, member, nonempty⟩
  · exact Or.inl zero
  · refine Or.inr ⟨behind, block, ?_, nonempty⟩
    rw [groups_append]
    exact List.mem_append_right _ member

theorem Placed.of_filled {trace : List Event} {sb : SeekBlock} (placed : Placed trace sb)
    (filled : sb.Filled) : firstDaySeek ≤ sb.seek ∧
      ∃ block, (sb.seek, block) ∈ groups trace ∧ sb.seek < block.nextMultMediaBlock := by
  rcases placed with zero | there
  · rw [zero] at filled
    exact absurd filled SeekBlock.not_filled_zero
  · exact there

/-- New events keep the tables placed if the day tables among them are. -/
theorem TablesPlaced.append {trace : List Event} (placed : TablesPlaced trace)
    (events : List Event)
    (new : ∀ seek blocks number table stored,
      .wrote ⟨seek, blocks, .dayTable number table, stored⟩ ∈ events →
        ∀ slot, Placed (events ++ trace) (table.slots slot)) :
    TablesPlaced (events ++ trace) := by
  intro seek blocks number table stored member slot
  rcases List.mem_append.mp member with recent | old
  · exact new seek blocks number table stored recent slot
  · exact (placed seek blocks number table stored old slot).append events

theorem HeadsPlaced.append {events trace : List Event} (heads : HeadsPlaced trace)
    (new : HeadsPlaced events) : HeadsPlaced (events ++ trace) := by
  intro group member
  rw [groups_append] at member
  rcases List.mem_append.mp member with recent | old
  · exact new group recent
  · exact heads group old

theorem HeadsPlaced.of_nil {events : List Event} (none : groups events = []) :
    HeadsPlaced events := by
  intro group member
  rw [none] at member
  exact absurd member List.not_mem_nil

theorem storedYear_append {events : List Event} (trace : List Event)
    (apart : ∀ write, .wrote write ∈ events →
      Apart write.seek write.blocks firstBlock yearBlocks) :
    storedYear (events ++ trace) = storedYear trace := by
  rw [storedYear, newestWrite_append_of_apart events trace apart, storedYear]

/-- A year table just written is the only one that can be read back. -/
theorem storedYear_wrote {yb other : YearBlock} {stored : Bool} {trace : List Event}
    (read : storedYear (.wrote ⟨firstBlock, yearBlocks, .yearTable yb, stored⟩ :: trace) =
      some other) : other = yb := by
  have touches : ¬Apart firstBlock yearBlocks firstBlock yearBlocks := by decide
  rw [storedYear, newestWrite_self touches] at read
  cases stored with
  | false => cases read
  | true => exact (Option.some.inj ((if_pos rfl).symm.trans read)).symm

/-- A day table read back was written. -/
theorem storedTable_mem {trace : List Event} {seek : Int} {table : DayTable}
    (read : storedTable trace seek = some table) :
    ∃ blocks number, .wrote ⟨seek, blocks, .dayTable number table, true⟩ ∈ trace := by
  unfold storedTable at read
  split at read
  · rename_i place blocks number other newest
    split at read
    · rename_i same
      cases read
      rw [← same]
      exact ⟨blocks, number, newestWrite_mem newest⟩
    · cases read
  · cases read

namespace OnDisk

variable {yb : YearBlock} {trace : List Event}

/-- Events that leave the year table alone and write no unplaced day table. -/
theorem append (disk : OnDisk yb trace) (events : List Event)
    (apart : ∀ write, .wrote write ∈ events →
      Apart write.seek write.blocks firstBlock yearBlocks)
    (new : ∀ seek blocks number table stored,
      .wrote ⟨seek, blocks, .dayTable number table, stored⟩ ∈ events →
        ∀ slot, Placed (events ++ trace) (table.slots slot))
    (heads : HeadsPlaced events) : OnDisk yb (events ++ trace) where
  year := disk.year
  tables := disk.tables.append events new
  heads := disk.heads.append heads
  written := fun other read => disk.written other ((storedYear_append trace apart).symm.trans read)

/-- A write of the backup table. -/
theorem backUp (disk : OnDisk yb trace) (table : DayTable) (stored : Bool) :
    OnDisk yb (.wrote ⟨backupSeek, dayBlocks, .backup table, stored⟩ :: trace) := by
  refine disk.append [_] ?_ ?_ (.of_nil rfl)
  · intro made member
    cases List.mem_singleton.mp member
    exact Or.inr (Int.le_refl _)
  · intro seek blocks number other kept member
    cases List.mem_singleton.mp member

/-- A write of a day table whose entries are placed. -/
theorem wrote_day (disk : OnDisk yb trace) {seek : Int} (number : Nat) {table : DayTable}
    (stored : Bool) (behind : firstDaySeek ≤ seek)
    (placed : ∀ slot, Placed trace (table.slots slot)) :
    OnDisk yb (.wrote ⟨seek, dayBlocks, .dayTable number table, stored⟩ :: trace) := by
  refine disk.append [_] ?_ ?_ (.of_nil rfl)
  · intro made member
    cases List.mem_singleton.mp member
    exact Or.inr (Int.le_trans year_front behind)
  · intro place blocks other same kept member slot
    cases List.mem_singleton.mp member
    exact (placed slot).append _

/-- A change of the year queue, noted and written. -/
theorem rewritten {other : YearBlock} (disk : OnDisk other trace) (year : YearSound yb)
    (stored : Bool) (event : Event) (noted : ∀ write, event ≠ .wrote write) :
    OnDisk yb (.wrote ⟨firstBlock, yearBlocks, .yearTable yb, stored⟩ :: event :: trace) where
  year := year
  tables := by
    refine disk.tables.append [.wrote ⟨firstBlock, yearBlocks, .yearTable yb, stored⟩, event] ?_
    intro seek blocks number table kept member
    rcases List.mem_cons.mp member with same | last
    · cases same
    · exact absurd (List.mem_singleton.mp last).symm (noted _)
  heads := by
    refine @HeadsPlaced.append [_, event] trace disk.heads (.of_nil ?_)
    refine groups_eq_nil fun seek blocks block kept member => ?_
    rcases List.mem_cons.mp member with same | last
    · cases same
    · exact absurd (List.mem_singleton.mp last).symm (noted _)
  written := fun _ read => storedYear_wrote read

end OnDisk

namespace Writer.Sound

variable {w : Writer}

theorem year (sound : w.Sound) : YearSound w.yb := sound.disk.year

theorem of_eq {after : Writer} (sound : w.Sound) (yb : after.yb = w.yb) (seek : after.seek = w.seek)
    (db : after.db = w.db) (trace : after.trace = w.trace) : after.Sound where
  disk := by
    rw [yb, trace]
    exact sound.disk
  behind := seek ▸ sound.behind
  day := db ▸ sound.day
  table := by
    rw [db, trace]
    exact sound.table

theorem writeDay (sound : w.Sound) (io : Driver) : (w.writeDay io).Sound :=
  ⟨sound.disk.wrote_day _ _ sound.day sound.table, sound.behind, sound.day,
    fun slot => (sound.table slot).append [_]⟩

/-- The tables written at the end of the program. -/
theorem stop (sound : w.Sound) (io : Driver) : (w.stop io).Sound := by
  have year : OnDisk w.yb (.wrote ⟨firstBlock, yearBlocks, .yearTable w.yb,
      io firstBlock yearBlocks⟩ :: w.trace) := by
    refine ⟨sound.year, sound.disk.tables.append [_] ?_,
      @HeadsPlaced.append [_] _ sound.disk.heads (.of_nil rfl), fun _ read => storedYear_wrote read⟩
    intro seek blocks number table stored member
    cases List.mem_singleton.mp member
  have backed : (({ w with trace := .wrote ⟨firstBlock, yearBlocks, .yearTable w.yb,
      io firstBlock yearBlocks⟩ :: w.trace } : Writer).write io backupSeek dayBlocks
        (.backup w.dbbac)).Sound :=
    ⟨year.backUp _ _, sound.behind, sound.day, fun slot => (sound.table slot).append [_, _]⟩
  exact backed.writeDay io

theorem backUp (sound : w.Sound) (io : Driver) (table : DayTable) : (w.backUp io table).Sound :=
  ⟨sound.disk.backUp _ _, sound.behind, sound.day, fun slot => (sound.table slot).append [_]⟩

theorem uncovered (sound : w.Sound) (io : Driver) (some : w.yb.queueSize ≠ 0) :
    (w.uncovered io).Sound := by
  have backed := sound.backUp io DayTable.blank
  refine ⟨?_, sound.behind, sound.day, fun slot => (backed.table slot).append [_, _]⟩
  exact backed.disk.rewritten (sound.year.dequeue some) _ .unlisted fun _ same =>
    Event.noConfusion same

theorem maybeCoverDayblock (sound : w.Sound) (io : Driver) (blocks seek : Int) :
    (w.maybeCoverDayblock io blocks seek).2.Sound := by
  rcases w.maybeCoverDayblock_cases io blocks seek sound.year.ring sound.year.spare with
    ⟨_, result⟩ | ⟨_, _, _, _, result⟩ | ⟨sb, rest, queue, _, result⟩
  · rw [result]
    exact sound
  · rw [result]
    exact sound
  · rw [result]
    refine sound.uncovered io ?_
    rw [← YearBlock.queued_length, queue]
    exact Nat.succ_ne_zero _

theorem diskFull (sound : w.Sound) (io : Driver) : (w.diskFull io).Sound := by
  unfold Writer.diskFull
  split
  · split
    · have backed := sound.backUp io w.db.table
      exact ⟨backed.disk, first_day_front, backed.day, backed.table⟩
    · exact ⟨sound.disk, Int.le_refl _, sound.day, sound.table⟩
  · exact sound

theorem closeDay (sound : w.Sound) (io : Driver) : (w.closeDay io).2.Sound := by
  have closed := sound.writeDay io
  unfold Writer.closeDay
  dsimp only
  split
  · refine Writer.Sound.maybeCoverDayblock ?_ io dayBlocks firstDaySeek
    exact ⟨closed.disk, Int.le_refl _, closed.day, closed.table⟩
  · exact closed

theorem openDay (sound : w.Sound) (io : Driver) (now : Nat) (room : w.yb.queueSize + 1 < maxday) :
    (w.openDay io now).Sound := by
  have behind : firstDaySeek ≤ w.seek + dayBlocks :=
    Int.le_trans sound.behind (Int.le_add_of_nonneg_right (by decide))
  have laid : OnDisk w.yb (w.dayLaid io) :=
    sound.disk.wrote_day _ _ sound.behind fun _ => Or.inl rfl
  have notFull : w.yb.queueTail + 1 ≠ w.yb.queueHead := by
    rw [Ne, sound.year.ring.full_test_iff]
    omega
  rcases w.openDay_cases io now notFull with ⟨_, unlisted⟩ | ⟨_, listed⟩
  · rw [unlisted]
    exact ⟨laid, behind, sound.behind, fun _ => Or.inl rfl⟩
  · rw [listed]
    refine ⟨?_, behind, sound.behind, fun _ => Or.inl rfl⟩
    exact laid.rewritten (sound.year.enqueue ⟨now, w.seek⟩ room sound.behind) _
      (.listed (w.number + 1) ⟨now, w.seek⟩) fun _ same => Event.noConfusion same

/-- Laying a group at the write position, which is then a place an entry can point at. -/
theorem layGroup (sound : w.Sound) (input : Input) :
    (w.layGroup input).Sound ∧ Placed (w.layGroup input).trace (groupEntry input w.seek) := by
  have positive := input.groupBlocks_pos
  have apart : ∀ write, .wrote write ∈ input.groupEvents w.seek →
      Apart write.seek write.blocks firstBlock yearBlocks := by
    intro write member
    have front := year_front
    have behind := sound.behind
    rcases List.mem_cons.mp member with head | media
    · cases head
      exact Or.inr (Int.le_trans year_front sound.behind)
    · obtain ⟨_, same, low, -⟩ := channelsWrites_inside _ _ _ _ media
      cases same
      exact Or.inr (by omega)
  have noTable : ∀ seek blocks number table stored,
      .wrote ⟨seek, blocks, .dayTable number table, stored⟩ ∉ input.groupEvents w.seek := by
    intro seek blocks number table stored member
    rcases List.mem_cons.mp member with head | media
    · cases head
    · exact absurd (channelsWrites_media _ _ _ _ media) Content.noConfusion
  have heads : HeadsPlaced (input.groupEvents w.seek) := by
    intro group member
    rw [Input.groupEvents, groups, groups_channelsWrites] at member
    rw [List.mem_singleton.mp member]
    exact Int.lt_add_of_pos_right _ positive
  have laid := sound.disk.append (input.groupEvents w.seek) apart
    (fun seek blocks number table stored member => absurd member (noTable _ _ _ _ _)) heads
  refine ⟨⟨laid, ?_, sound.day, fun slot => ?_⟩, Or.inr ⟨?_, ?_⟩⟩
  · exact Int.le_trans sound.behind (Int.le_add_of_nonneg_right (Int.le_of_lt positive))
  · exact (sound.table slot).append (input.groupEvents w.seek)
  · exact sound.behind
  · exact ⟨input.headBlock w.seek, List.mem_cons_self, Int.lt_add_of_pos_right _ positive⟩

theorem indexGroup (sound : w.Sound) (input : Input) (now : Nat) (start : Int)
    (placed : Placed w.trace (groupEntry input start)) :
    (w.indexGroup input now start).Sound := by
  have stored : ({ w with db := w.db.store (groupEntry input start) now } : Writer).Sound := by
    refine ⟨sound.disk, sound.behind, sound.day, fun slot => ?_⟩
    by_cases same : slot = now % secofday
    · rw [same]
      exact (w.db.table.set_slot now _).symm ▸ placed
    · exact (w.db.table.set_slot_of_ne _ same).symm ▸ sound.table slot
  have noted : ({ w with
      db := w.db.store (groupEntry input start) now
      trace := .indexed now w.db.llSeek (groupEntry input start) :: w.trace } : Writer).Sound := by
    refine ⟨?_, stored.behind, stored.day, fun slot => (stored.table slot).append [_]⟩
    refine stored.disk.append [_] ?_ ?_ (.of_nil rfl)
    · intro write member
      cases List.mem_singleton.mp member
    · intro seek blocks number table kept member
      cases List.mem_singleton.mp member
  rcases w.indexGroup_cases input now start with same | stopped | ⟨-, indexed | written | failed⟩
  · rw [same]
    exact sound
  · rw [stopped]
    exact sound.of_eq rfl rfl rfl rfl
  · rw [indexed]
    exact noted
  · rw [written]
    exact noted.writeDay input.io
  · rw [failed]
    exact (stored.writeDay input.io).of_eq rfl rfl rfl rfl

theorem record (sound : w.Sound) (input : Input) (now : Nat) : (w.record input now).Sound := by
  have checked := (sound.diskFull input.io).maybeCoverDayblock input.io leaveBlocks
    (w.diskFull input.io).seek
  unfold Writer.record
  dsimp only
  split
  · rename_i passed result
    rw [result] at checked
    obtain ⟨laid, placed⟩ := checked.layGroup input
    exact (laid.indexGroup input now _ placed).of_eq rfl rfl rfl rfl
  · rename_i failed result
    rw [result] at checked
    exact checked.of_eq rfl rfl rfl rfl

theorem iterate (sound : w.Sound) (input : Input) (room : w.HasRoom input) :
    (w.iterate input).Sound := by
  have closed := sound.closeDay input.io
  unfold Writer.iterate
  split
  · rename_i midnight
    have fewer := w.closeDay_queueSize input.io sound.year.ring sound.year.spare
    split
    · rename_i passed result
      rw [result] at closed fewer
      exact (closed.openDay input.io _ (Nat.lt_of_le_of_lt (Nat.succ_le_succ fewer)
        (room midnight))).record input _
    · rename_i failed result
      rw [result] at closed
      exact closed.of_eq rfl rfl rfl rfl
  · exact sound.record input _

end Writer.Sound

/-! ### Starts -/

theorem YearSound.format : YearSound YearBlock.format :=
  ⟨YearBlock.format_ring, by decide, fun _ member => absurd member List.not_mem_nil⟩

/-- The year table of a start is the one on the disk, or that of a formatted disk. -/
theorem OnDisk.of_boot {trace : List Event} {b : Boot} (known : b.Known)
    (tables : TablesPlaced trace) (heads : HeadsPlaced trace)
    (years : ∀ yb, storedYear trace = some yb → YearSound yb) :
    OnDisk (b.year trace).1 (b.year trace).2 := by
  unfold Boot.year
  rw [known.1, Option.or_none]
  cases stored : storedYear trace with
  | some yb =>
    refine ⟨years yb stored, tables, heads, fun other read => ?_⟩
    rw [stored] at read
    exact (Option.some.inj read).symm
  | none =>
    refine ⟨YearSound.format, ?_, heads.append (.of_nil rfl), fun other read => ?_⟩
    · refine tables.append (formatTrace b.io) ?_
      intro seek blocks number table kept member slot
      simp only [formatTrace, List.mem_cons, List.not_mem_nil, or_false, Event.wrote.injEq,
        Write.mk.injEq, reduceCtorEq, and_false, false_and, false_or, Content.dayTable.injEq]
        at member
      rcases member with ⟨-, -, ⟨-, rfl⟩, -⟩ | ⟨-, -, ⟨-, rfl⟩, -⟩
      · exact Or.inl rfl
      · exact Or.inl rfl
    · have day : Apart firstDaySeek dayBlocks firstBlock yearBlocks := by decide
      have bac : Apart backupSeek dayBlocks firstBlock yearBlocks := by decide
      have newest : storedYear (formatTrace b.io ++ trace) = storedYear (.wrote ⟨firstBlock,
          yearBlocks, .yearTable YearBlock.format, b.io firstBlock yearBlocks⟩ :: trace) := by
        refine @storedYear_append [_, _, _, _] _ fun write member => ?_
        simp only [List.mem_cons, List.not_mem_nil, or_false, Event.wrote.injEq] at member
        rcases member with rfl | rfl | rfl | rfl
        · exact day
        · exact bac
        · exact day
        · exact bac
      exact storedYear_wrote (newest.symm.trans read)

theorem OnDisk.readBackup {yb : YearBlock} {trace : List Event} (disk : OnDisk yb trace)
    (b : Boot) : OnDisk yb (b.readBackup trace).2 := by
  unfold Boot.readBackup
  split
  · exact disk
  · exact disk.backUp _ _

/-- The day table of a start is one on the disk, or a blank one just written. -/
theorem OnDisk.readDay {yb : YearBlock} {trace : List Event} (disk : OnDisk yb trace) {b : Boot}
    (known : b.Known) {seek : Int} (behind : firstDaySeek ≤ seek) :
    OnDisk yb (b.readDay trace seek).2 ∧
      (∀ slot, Placed (b.readDay trace seek).2 ((b.readDay trace seek).1.slots slot)) ∧
      ((b.readDay trace seek).1 = DayTable.blank ∨
        storedTable (b.readDay trace seek).2 seek = some (b.readDay trace seek).1) := by
  unfold Boot.readDay
  rw [known.2, Option.or_none]
  cases stored : storedTable trace seek with
  | some table =>
    obtain ⟨blocks, number, member⟩ := storedTable_mem stored
    exact ⟨disk, disk.tables seek blocks number table true member, Or.inr stored⟩
  | none =>
    exact ⟨disk.wrote_day 0 _ behind fun _ => Or.inl rfl, fun _ => Or.inl rfl, Or.inl rfl⟩

/-- What `Init` leaves: a sound disk, with the newest listed day as the current one. -/
structure Initialized (w : Writer) : Prop where
  disk : OnDisk w.yb w.trace
  day : firstDaySeek ≤ w.db.llSeek
  table : ∀ slot, Placed w.trace (w.db.table.slots slot)
  read : w.db.table = DayTable.blank ∨ storedTable w.trace w.db.llSeek = some w.db.table
  current : ∀ listed, w.yb.getTail = .ok listed →
    w.yb.queued.getLast? = some listed ∧ listed.seek = w.db.llSeek

theorem OnDisk.initialized {yb : YearBlock} {trace : List Event} (disk : OnDisk yb trace)
    {b : Boot} (known : b.Known) (dbbac : DayTable) {day : SeekBlock}
    (newest : yb.queued.getLast? = some day) : Initialized (b.writer yb dbbac trace day.seek) := by
  have behind := disk.year.behind day (List.mem_of_getLast? newest)
  obtain ⟨kept, placed, read⟩ := disk.readDay known behind
  refine ⟨kept, behind, placed, read, fun listed tail => ?_⟩
  have last := disk.year.ring.getTail_eq_ok tail
  rw [newest] at last
  exact ⟨last ▸ newest, congrArg SeekBlock.seek (Option.some.inj last).symm⟩

theorem init_initialized {trace : List Event} {b : Boot} {w : Writer} (known : b.Known)
    (tables : TablesPlaced trace) (heads : HeadsPlaced trace)
    (years : ∀ yb, storedYear trace = some yb → YearSound yb) (up : init trace b = some w) :
    Initialized w := by
  have disk := (OnDisk.of_boot known tables heads years).readBackup b
  rcases init_cases up with ⟨sb, newest, rfl⟩ | ⟨empty, -, -, -, rfl⟩
  · exact disk.initialized known _ (disk.year.ring.getTail_eq_ok newest)
  · have none : (b.year trace).1.queueSize = 0 := YearBlock.getTail_eq_empty empty
    have room : (b.year trace).1.queueSize + 1 < maxday := by
      rw [none]
      decide
    have listed := disk.rewritten (disk.year.enqueue ⟨b.initNow, firstDaySeek⟩ room
      (Int.le_refl _)) (b.io firstBlock yearBlocks) (.listed 0 ⟨b.initNow, firstDaySeek⟩)
      fun _ same => Event.noConfusion same
    have newest : ((b.year trace).1.enqueue ⟨b.initNow, firstDaySeek⟩).queued.getLast? =
        some ⟨b.initNow, firstDaySeek⟩ := by
      rw [disk.year.ring.queued_enqueue _ (by omega), List.getLast?_concat]
    exact listed.initialized known _ newest

/-- A start keeps the base invariant. -/
theorem boot_sound {trace : List Event} {b : Boot} {w : Writer} (known : b.Known)
    (tables : TablesPlaced trace) (heads : HeadsPlaced trace)
    (years : ∀ yb, storedYear trace = some yb → YearSound yb) (up : boot trace b = some w) :
    w.Sound := by
  obtain ⟨ready, initialized, started⟩ := Option.bind_eq_some_iff.mp up
  have sound := init_initialized known tables heads years initialized
  obtain ⟨listed, -, ⟨sb, found, rfl⟩ | ⟨-, rfl⟩⟩ := Writer.start_cases started
  · refine ⟨sound.disk, ?_, sound.day, sound.table⟩
    obtain ⟨index, -, filled, same⟩ := DayTable.getTail_eq_ok found
    have placed := ((sound.table index).of_filled filled).1
    rw [same] at placed
    exact placed
  · refine ⟨sound.disk, ?_, sound.day, sound.table⟩
    exact Int.le_trans sound.day (Int.le_add_of_nonneg_right (by decide))

/-- The base invariant holds along every orderly life of the recorder. -/
theorem Machine.Step.sound {m after : Machine} {action : Action} (step : m.Step action after)
    (orderly : m.Orderly action) (sound : m.Sound) : after.Sound := by
  cases step with
  | boot later order up => exact boot_sound orderly sound.1 sound.2.1 sound.2.2 up
  | iterate running later order => exact Writer.Sound.iterate sound _ orderly
  | @stop clock w io =>
    have stopped := Writer.Sound.stop sound io
    exact ⟨stopped.disk.tables, stopped.disk.heads,
      fun yb read => stopped.disk.written yb read ▸ stopped.year⟩
  | @kill clock w =>
    have kept : w.Sound := sound
    exact ⟨kept.disk.tables, kept.disk.heads, fun yb read => kept.disk.written yb read ▸ kept.year⟩

theorem new_disk_sound (clock : Nat) : (Machine.off clock []).Sound :=
  ⟨fun _ _ _ _ _ member => absurd member List.not_mem_nil,
    fun _ member => absurd member List.not_mem_nil, fun _ read => nomatch read⟩

/-- One orderly step. -/
def Machine.OrderlyStep (m : Machine) (action : Action) (after : Machine) : Prop :=
  m.Step action after ∧ m.Orderly action

theorem run_sound {clock : Nat} {actions : List Action} {m : Machine}
    (run : Runs Machine.OrderlyStep (.off clock []) actions m) : m.Sound := by
  refine run.invariant (new_disk_sound clock) ?_
  rintro before action after ⟨step, orderly⟩ sound
  exact step.sound orderly sound

end ExmOnvif.Recorder
