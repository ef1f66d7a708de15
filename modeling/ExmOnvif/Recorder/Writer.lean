/-
This file models `RWlogic::writedata`, the loop that lays recorded media on the
disk.

One iteration of the loop is cut at the places where the source makes a
decision: the day roll-over, the disk-full test, the cover check
`maybe_cover_dayblock` and the group write. Every write and every change of the
year queue is also noted in a trace, newest first. The driver `hd_write` is outside
the repository: an iteration is given its answers.
-/

import ExmOnvif.Recorder.Disk

namespace ExmOnvif.Recorder

/-! ### One media group -/

/-- The collections one channel hands over: the byte sizes of what is popped from its two
queues, `none` for an empty queue. -/
structure Channel where
  video : Option Nat
  audio : Option Nat
deriving DecidableEq

/-- `GetBlocks()` of the `SecBlocks` made from a collection of `size` bytes. -/
def mediaBlocks (size : Nat) : Int := getBlockNum (uint32 (size + sizeofHdFrame))

namespace Channel

/-- The blocks one channel adds to a group; audio is only looked at behind a video. -/
def blocks (channel : Channel) : Int :=
  match channel.video with
  | none => 0
  | some video => mediaBlocks video + (channel.audio.elim 0 mediaBlocks)

/-- The writes of one channel from `seek` on, newest first. -/
def writes (io : Driver) (seek : Int) (channel : Channel) : List Event :=
  match channel.video with
  | none => []
  | some video =>
    let after := seek + mediaBlocks video
    let written := Event.wrote ⟨seek, mediaBlocks video, .media, io seek (mediaBlocks video)⟩
    match channel.audio with
    | none => [written]
    | some audio =>
      [.wrote ⟨after, mediaBlocks audio, .media, io after (mediaBlocks audio)⟩, written]

/-- `add_vidoe` and `add_audio` on the head block. -/
def head (seek : Int) (channel : Channel) : ChannelHead :=
  match channel.video with
  | none => ⟨0, 0, 0, 0⟩
  | some video =>
    match channel.audio with
    | none => ⟨seek, video, 0, 0⟩
    | some audio => ⟨seek, video, seek + mediaBlocks video, audio⟩

end Channel

/-- The blocks of the channels of a group. -/
def channelsBlocks : List Channel → Int
  | [] => 0
  | channel :: channels => channel.blocks + channelsBlocks channels

/-- The writes of the channels of a group, newest first. -/
def channelsWrites (io : Driver) : Int → List Channel → List Event
  | _, [] => []
  | seek, channel :: channels =>
    channelsWrites io (seek + channel.blocks) channels ++ channel.writes io seek

/-- The channel entries of a head block. -/
def channelsHeads : Int → List Channel → List ChannelHead
  | _, [] => []
  | seek, channel :: channels =>
    channel.head seek :: channelsHeads (seek + channel.blocks) channels

/-- `channel_mask`, from channel number `index` on. -/
def channelMask : Nat → List Channel → Nat
  | _, [] => 0
  | index, channel :: channels =>
    (if channel.video.isSome then 1 <<< index else 0) ||| channelMask (index + 1) channels

/-! ### Where the media of a group go -/

theorem mediaBlocks_nonneg (size : Nat) : 0 ≤ mediaBlocks size :=
  Int.natCast_nonneg _

theorem Channel.blocks_nonneg (channel : Channel) : 0 ≤ channel.blocks := by
  obtain ⟨_ | video, _ | audio⟩ := channel
  · exact Int.le_refl 0
  · exact Int.le_refl 0
  · exact Int.add_nonneg (mediaBlocks_nonneg video) (Int.le_refl 0)
  · exact Int.add_nonneg (mediaBlocks_nonneg video) (mediaBlocks_nonneg audio)

theorem channelsBlocks_nonneg (channels : List Channel) : 0 ≤ channelsBlocks channels := by
  induction channels with
  | nil => exact Int.le_refl 0
  | cons channel channels inductionHypothesis =>
    exact Int.add_nonneg channel.blocks_nonneg inductionHypothesis

theorem Channel.writes_inside (io : Driver) (seek : Int) (channel : Channel) (event : Event)
    (member : event ∈ channel.writes io seek) :
    ∃ write, event = .wrote write ∧ seek ≤ write.seek ∧
      write.seek + write.blocks ≤ seek + channel.blocks := by
  obtain ⟨_ | video, _ | audio⟩ := channel
  · exact absurd member List.not_mem_nil
  · exact absurd member List.not_mem_nil
  · rw [List.mem_singleton.mp member]
    refine ⟨_, rfl, Int.le_refl _, ?_⟩
    simp only [Channel.blocks, Option.elim]
    omega
  · have videoBlocks := mediaBlocks_nonneg video
    have audioBlocks := mediaBlocks_nonneg audio
    rcases List.mem_cons.mp member with rfl | second
    · refine ⟨_, rfl, ?_, ?_⟩ <;> simp only [Channel.blocks, Option.elim] <;> omega
    · rw [List.mem_singleton.mp second]
      refine ⟨_, rfl, Int.le_refl _, ?_⟩
      simp only [Channel.blocks, Option.elim]
      omega

/-- The media writes of a group stay inside its channels' stretch. -/
theorem channelsWrites_inside (io : Driver) (channels : List Channel) (seek : Int)
    (event : Event) (member : event ∈ channelsWrites io seek channels) :
    ∃ write, event = .wrote write ∧ seek ≤ write.seek ∧
      write.seek + write.blocks ≤ seek + channelsBlocks channels := by
  induction channels generalizing seek with
  | nil => exact absurd member List.not_mem_nil
  | cons channel channels inductionHypothesis =>
    have blocks := channel.blocks_nonneg
    have rest := channelsBlocks_nonneg channels
    rcases List.mem_append.mp member with later | own
    · obtain ⟨write, rfl, low, high⟩ := inductionHypothesis _ later
      exact ⟨write, rfl, by omega, by simp only [channelsBlocks]; omega⟩
    · obtain ⟨write, rfl, low, high⟩ := channel.writes_inside io seek event own
      exact ⟨write, rfl, low, by simp only [channelsBlocks]; omega⟩

/-- They are media. -/
theorem channelsWrites_media (io : Driver) (channels : List Channel) (seek : Int) (write : Write)
    (member : .wrote write ∈ channelsWrites io seek channels) : write.content = .media := by
  induction channels generalizing seek with
  | nil => exact absurd member List.not_mem_nil
  | cons channel channels inductionHypothesis =>
    rcases List.mem_append.mp member with later | own
    · exact inductionHypothesis _ later
    · obtain ⟨_ | video, _ | audio⟩ := channel
      · exact absurd own List.not_mem_nil
      · exact absurd own List.not_mem_nil
      · cases List.mem_singleton.mp own
        rfl
      · rcases List.mem_cons.mp own with first | second
        · cases first
          rfl
        · cases List.mem_singleton.mp second
          rfl

/-! ### The writer -/

/-- What the writer thread works on: the capacity, the year table, the current day with the
number of its object, the backup table, the write position and the time of the last group. -/
structure Writer where
  hdSize : Int
  yb : YearBlock
  db : DayBlocks
  number : Nat
  dbbac : DayTable
  seek : Int
  iOldTime : Nat
  running : Bool
  trace : List Event

/-- What one iteration meets: its one or two clock readings, the contents of the channels'
queues, and the driver's answers. -/
structure Input where
  now : Nat
  nowAgain : Nat
  channels : Fin maxChannel → Channel
  io : Driver

/-- The group of an iteration, channel by channel. -/
def Input.group (input : Input) : List Channel := List.ofFn input.channels

/-- The blocks of the group of an iteration: the head block and the channels. -/
def Input.groupBlocks (input : Input) : Int := 1 + channelsBlocks input.group

/-- The head block of the group at `start`. -/
def Input.headBlock (input : Input) (start : Int) : HeadBlock where
  allMediaHead := channelsHeads (start + 1) input.group
  nextMultMediaBlock := start + input.groupBlocks

/-- An iteration that finds media on channel 0 only, with a driver that stores everything. -/
def Input.single (now video audio : Nat) : Input where
  now := now
  nowAgain := now
  channels := fun index => if index.val = 0 then ⟨some video, some audio⟩ else ⟨none, none⟩
  io := fun _ _ => true

namespace Writer

/-- `Blocks::write`. -/
def write (w : Writer) (io : Driver) (seek blocks : Int) (content : Content) : Writer :=
  { w with trace := .wrote ⟨seek, blocks, content, io seek blocks⟩ :: w.trace }

/-- The current day table written at its place. -/
def writeDay (w : Writer) (io : Driver) : Writer :=
  w.write io w.db.llSeek dayBlocks (.dayTable w.number w.db.table)

/-- `yb->del`: past the empty test the table is rewritten. -/
def delDay (w : Writer) (io : Driver) : Reply Unit × Writer :=
  let written := io firstBlock yearBlocks
  if w.yb.queueTail = w.yb.queueHead then ((w.yb.del written).1, w)
  else ((w.yb.del written).1,
    { w with
      yb := (w.yb.del written).2
      trace := .wrote ⟨firstBlock, yearBlocks, .yearTable (w.yb.del written).2, written⟩ ::
        .unlisted :: w.trace })

/-- `yb->add` of the current day: past the two refusals the table is rewritten. -/
def addDay (w : Writer) (io : Driver) (sb : SeekBlock) : Writer :=
  let written := io firstBlock yearBlocks
  if (sb.time = 0 ∨ sb.seek = 0) ∨ w.yb.queueTail + 1 = w.yb.queueHead then w
  else
    { w with
      yb := (w.yb.add sb written).2
      trace := .wrote ⟨firstBlock, yearBlocks, .yearTable (w.yb.add sb written).2, written⟩ ::
        .listed w.number sb :: w.trace }

/-- An accepted day goes into the queue and the table is rewritten. -/
theorem addDay_accepted (w : Writer) (io : Driver) {sb : SeekBlock}
    (nonZero : ¬(sb.time = 0 ∨ sb.seek = 0)) (notFull : w.yb.queueTail + 1 ≠ w.yb.queueHead) :
    w.addDay io sb =
      { w with
        yb := w.yb.enqueue sb
        trace := .wrote ⟨firstBlock, yearBlocks, .yearTable (w.yb.enqueue sb),
          io firstBlock yearBlocks⟩ :: .listed w.number sb :: w.trace } := by
  have accepted : ¬((sb.time = 0 ∨ sb.seek = 0) ∨ w.yb.queueTail + 1 = w.yb.queueHead) :=
    not_or.mpr ⟨nonZero, notFull⟩
  rw [addDay, if_neg accepted, YearBlock.add, if_neg nonZero, if_neg notFull]

/-- The test of `maybe_cover_dayblock`: the earliest day starts in the stretch. -/
def Covers (sb : SeekBlock) (blocks seek : Int) : Prop :=
  0 ≤ sb.seek - seek ∧ sb.seek - seek ≤ blocks

instance (sb : SeekBlock) (blocks seek : Int) : Decidable (Covers sb blocks seek) :=
  inferInstanceAs (Decidable (_ ∧ _))

/-- The backup table replaced and written. -/
def backUp (w : Writer) (io : Driver) (table : DayTable) : Writer :=
  ({ w with dbbac := table }).write io backupSeek dayBlocks (.backup table)

/-- `RWlogic::maybe_cover_dayblock`. The table it backs up is a new one, not read from the
disk. -/
def maybeCoverDayblock (w : Writer) (io : Driver) (blocks seek : Int) : Reply Unit × Writer :=
  match w.yb.getHead with
  | .ok sb =>
    if Covers sb blocks seek then (w.backUp io DayTable.blank).delDay io else (.ok (), w)
  | .err code => (.err code, w)
  | .outOfBounds => (.outOfBounds, w)

/-- The new day of a roll-over: a blank table at the write position, written and listed. -/
def openDay (w : Writer) (io : Driver) (now : Nat) : Writer :=
  let opened := ({ w with db := DayBlocks.create w.seek, number := w.number + 1 }).writeDay io
  let added := opened.addDay io ⟨now, w.seek⟩
  { added with seek := w.seek + dayBlocks }

/-- The history with the table of a new day laid at the write position. -/
def dayLaid (w : Writer) (io : Driver) : List Event :=
  .wrote ⟨w.seek, dayBlocks, .dayTable (w.number + 1) DayTable.blank, io w.seek dayBlocks⟩ ::
    w.trace

/-- All the opening of a day can do: its table is laid, and it is listed unless refused. -/
theorem openDay_cases (w : Writer) (io : Driver) (now : Nat)
    (notFull : w.yb.queueTail + 1 ≠ w.yb.queueHead) :
    ((now = 0 ∨ w.seek = 0) ∧
      w.openDay io now =
        { w with
          db := DayBlocks.create w.seek
          number := w.number + 1
          seek := w.seek + dayBlocks
          trace := w.dayLaid io }) ∨
      (¬(now = 0 ∨ w.seek = 0) ∧
        w.openDay io now =
          { w with
            yb := w.yb.enqueue ⟨now, w.seek⟩
            db := DayBlocks.create w.seek
            number := w.number + 1
            seek := w.seek + dayBlocks
            trace := .wrote ⟨firstBlock, yearBlocks, .yearTable (w.yb.enqueue ⟨now, w.seek⟩),
              io firstBlock yearBlocks⟩ :: .listed (w.number + 1) ⟨now, w.seek⟩ ::
                w.dayLaid io }) := by
  unfold openDay
  dsimp only
  by_cases refused : now = 0 ∨ w.seek = 0
  · refine Or.inl ⟨refused, ?_⟩
    rw [addDay, if_pos (Or.inl refused)]
    rfl
  · refine Or.inr ⟨refused, ?_⟩
    rw [addDay_accepted]
    · rfl
    · exact refused
    · exact notFull

/-- The roll-over up to the new table: the old one is written, and if the rest of the disk
is too short for a table the write position goes back to the start, past a cover check. -/
def closeDay (w : Writer) (io : Driver) : Reply Unit × Writer :=
  let closed := w.writeDay io
  if w.hdSize - w.seek < dayBlocks then
    ({ closed with seek := firstDaySeek }).maybeCoverDayblock io dayBlocks firstDaySeek
  else (.ok (), closed)

/-- The disk-full test. With one listed day the position goes behind the first day table,
otherwise onto it. -/
def diskFull (w : Writer) (io : Driver) : Writer :=
  if w.hdSize - w.seek < leaveBlocks then
    if w.yb.getDayNum = 1 then
      { w.backUp io w.db.table with seek := firstDaySeek + dayBlocks }
    else { w with seek := firstDaySeek }
  else w

/-- The media of a group, then its head block. -/
def layGroup (w : Writer) (input : Input) : Writer :=
  let laid := { w with
    seek := w.seek + input.groupBlocks
    trace := channelsWrites input.io (w.seek + 1) input.group ++ w.trace }
  laid.write input.io w.seek 1 (.head (input.headBlock w.seek))

/-- The index entry of the group at `start`: its channel mask in place of a time. -/
def groupEntry (input : Input) (start : Int) : SeekBlock :=
  ⟨channelMask 0 input.group, start⟩

/-- `AddBlock` on the current day, with the table write of a tenth addition. Every error but
`BLOCK_ERR_DAY_SEC_MUT` ends the loop. -/
def indexGroup (w : Writer) (input : Input) (now : Nat) (start : Int) : Writer :=
  let sb := groupEntry input start
  let added := w.db.addBlock sb now (input.io w.db.llSeek dayBlocks)
  match added.1 with
  | .ok () =>
    let noted := { w with db := added.2, trace := .indexed now w.db.llSeek sb :: w.trace }
    if w.db.flushes then noted.writeDay input.io else noted
  | .err .blockErrDaySecMut => w
  | .err .hdErrWrite => ({ w with db := added.2, running := false }).writeDay input.io
  | _ => { w with running := false }

/-- All an indexing can do: nothing in a second already taken, end the loop on an entry without
a channel, or store the entry, with the table write of a tenth addition. -/
theorem indexGroup_cases (w : Writer) (input : Input) (now : Nat) (start : Int) :
    w.indexGroup input now start = w ∨
      w.indexGroup input now start = { w with running := false } ∨
      (((groupEntry input start).time ≠ 0 ∧ (groupEntry input start).seek ≠ 0 ∧
          (w.db.table.slots (now % secofday)).seek = 0) ∧
        (w.indexGroup input now start =
            { w with
              db := w.db.store (groupEntry input start) now
              trace := .indexed now w.db.llSeek (groupEntry input start) :: w.trace } ∨
          w.indexGroup input now start =
            ({ w with
              db := w.db.store (groupEntry input start) now
              trace := .indexed now w.db.llSeek (groupEntry input start) :: w.trace }).writeDay
                input.io ∨
          w.indexGroup input now start =
            ({ w with db := w.db.store (groupEntry input start) now, running := false }).writeDay
              input.io)) := by
  by_cases zero : (groupEntry input start).time = 0 ∨ (groupEntry input start).seek = 0
  · exact Or.inr (Or.inl (by simp only [indexGroup, DayBlocks.addBlock, if_pos zero]))
  by_cases taken : (w.db.table.slots (now % secofday)).seek ≠ 0
  · exact Or.inl (by simp only [indexGroup, DayBlocks.addBlock, if_neg zero, if_pos taken])
  rw [not_or] at zero
  refine Or.inr (Or.inr ⟨⟨zero.1, zero.2, not_not.mp taken⟩, ?_⟩)
  rw [← not_or] at zero
  simp only [indexGroup, DayBlocks.addBlock, if_neg zero, if_neg taken]
  cases flushes : w.db.flushes with
  | false => exact Or.inl (by simp)
  | true =>
    cases written : input.io w.db.llSeek dayBlocks with
    | false => exact Or.inr (Or.inr (by simp))
    | true => exact Or.inr (Or.inl (by simp))

/-- The part of an iteration behind the day test. -/
def record (w : Writer) (input : Input) (now : Nat) : Writer :=
  let placed := w.diskFull input.io
  match placed.maybeCoverDayblock input.io leaveBlocks placed.seek with
  | (.ok (), checked) =>
    { (checked.layGroup input).indexGroup input now checked.seek with iOldTime := now }
  | (_, checked) => { checked with running := false }

/-- The day test: has the clock left the day of the last group? -/
def RollsOver (w : Writer) (input : Input) : Prop :=
  input.now / secofday ≠ w.iOldTime / secofday

instance (w : Writer) (input : Input) : Decidable (w.RollsOver input) :=
  inferInstanceAs (Decidable (_ ≠ _))

/-- One iteration of `RWlogic::writedata`. -/
def iterate (w : Writer) (input : Input) : Writer :=
  if w.RollsOver input then
    match w.closeDay input.io with
    | (.ok (), closed) => (closed.openDay input.io input.nowAgain).record input input.nowAgain
    | (_, closed) => { closed with running := false }
  else w.record input input.now

/-- The writer in front of the cover check of an iteration, if it gets there. -/
def placed (w : Writer) (input : Input) : Option Writer :=
  if w.RollsOver input then
    match w.closeDay input.io with
    | (.ok (), closed) => some ((closed.openDay input.io input.nowAgain).diskFull input.io)
    | _ => none
  else some (w.diskFull input.io)

end Writer

/-- One iteration of a running writer. -/
def Iteration (w : Writer) (input : Input) (after : Writer) : Prop :=
  w.running = true ∧ after = w.iterate input

/-! ### What the checks in front of a group can do -/

/-- The writer after the earliest day has been backed up and taken off. -/
def Writer.uncovered (w : Writer) (io : Driver) : Writer :=
  { w with
    dbbac := DayTable.blank
    yb := w.yb.dequeue
    trace := .wrote ⟨firstBlock, yearBlocks, .yearTable w.yb.dequeue, io firstBlock yearBlocks⟩ ::
      .unlisted :: .wrote ⟨backupSeek, dayBlocks, .backup DayTable.blank,
        io backupSeek dayBlocks⟩ :: w.trace }

/-- All a cover check can do: fail on an empty queue, let the head pass, or take it off. -/
theorem Writer.maybeCoverDayblock_cases (w : Writer) (io : Driver) (blocks seek : Int)
    (ring : w.yb.Ring) (spare : w.yb.queueSize < maxday) :
    (w.yb.queued = [] ∧ w.maybeCoverDayblock io blocks seek = (.err .blockErrEmpty, w)) ∨
      (∃ sb rest, w.yb.queued = sb :: rest ∧ ¬Covers sb blocks seek ∧
        w.maybeCoverDayblock io blocks seek = (.ok (), w)) ∨
      (∃ sb rest, w.yb.queued = sb :: rest ∧ Covers sb blocks seek ∧
        w.maybeCoverDayblock io blocks seek =
          (if io firstBlock yearBlocks then .ok () else .err .hdErrWrite, w.uncovered io)) := by
  unfold maybeCoverDayblock
  rw [w.yb.getHead_eq]
  cases listed : w.yb.queued with
  | nil => exact Or.inl ⟨rfl, rfl⟩
  | cons sb rest =>
    have some : w.yb.queueSize ≠ 0 := by
      rw [← YearBlock.queued_length, listed]
      exact Nat.succ_ne_zero _
    have apart : w.yb.queueTail ≠ w.yb.queueHead := by
      rw [Ne, ring.tail_eq_head_iff]
      omega
    refine Or.inr ?_
    by_cases covers : Covers sb blocks seek
    · refine Or.inr ⟨sb, rest, rfl, covers, ?_⟩
      simp only [List.head?_cons, Option.elim, if_pos covers, backUp, write, delDay, apart,
        if_false, YearBlock.del, uncovered]
    · refine Or.inl ⟨sb, rest, rfl, covers, ?_⟩
      simp only [List.head?_cons, Option.elim, if_neg covers]

/-- An event in front of the day tables: a write of the year table or of the backup, or a day
taken off. -/
def Event.Front : Event → Prop
  | .wrote ⟨seek, blocks, .yearTable _, _⟩ => seek + blocks ≤ firstDaySeek
  | .wrote ⟨seek, blocks, .backup _, _⟩ => seek + blocks ≤ firstDaySeek
  | .unlisted => True
  | _ => False

/-- The second writer differs from the first in the year queue, the backup table, the write
position and events in front of the day tables. -/
structure Writer.Fronts (before after : Writer) : Prop where
  hdSize : after.hdSize = before.hdSize
  db : after.db = before.db
  number : after.number = before.number
  running : after.running = before.running
  iOldTime : after.iOldTime = before.iOldTime
  trace : ∃ events, after.trace = events ++ before.trace ∧ ∀ event ∈ events, event.Front

namespace Writer

theorem Fronts.refl (w : Writer) : w.Fronts w :=
  ⟨rfl, rfl, rfl, rfl, rfl, [], rfl, fun _ member => absurd member List.not_mem_nil⟩

theorem Fronts.trans {first second third : Writer} (left : first.Fronts second)
    (right : second.Fronts third) : first.Fronts third := by
  obtain ⟨early, earlyTrace, earlyFront⟩ := left.trace
  obtain ⟨late, lateTrace, lateFront⟩ := right.trace
  refine ⟨right.hdSize.trans left.hdSize, right.db.trans left.db, right.number.trans left.number,
    right.running.trans left.running, right.iOldTime.trans left.iOldTime, late ++ early, ?_, ?_⟩
  · rw [lateTrace, earlyTrace, List.append_assoc]
  · intro event member
    rcases List.mem_append.mp member with later | earlier
    · exact lateFront event later
    · exact earlyFront event earlier

theorem backUp_fronts (w : Writer) (io : Driver) (table : DayTable) :
    w.Fronts (w.backUp io table) := by
  refine ⟨rfl, rfl, rfl, rfl, rfl, [_], rfl, fun event member => ?_⟩
  rw [List.mem_singleton.mp member]
  exact backup_front

theorem delDay_fronts (w : Writer) (io : Driver) :
    w.Fronts (w.delDay io).2 ∧ (w.delDay io).2.seek = w.seek := by
  unfold delDay
  dsimp only
  split
  · exact ⟨Fronts.refl w, rfl⟩
  · refine ⟨⟨rfl, rfl, rfl, rfl, rfl, [_, _], rfl, fun event member => ?_⟩, rfl⟩
    rcases List.mem_cons.mp member with rfl | last
    · exact year_front
    · rw [List.mem_singleton.mp last]
      trivial

theorem maybeCoverDayblock_fronts (w : Writer) (io : Driver) (blocks seek : Int) :
    w.Fronts (w.maybeCoverDayblock io blocks seek).2 ∧
      (w.maybeCoverDayblock io blocks seek).2.seek = w.seek := by
  unfold maybeCoverDayblock
  split
  · split
    · obtain ⟨fronts, same⟩ := (w.backUp io DayTable.blank).delDay_fronts io
      exact ⟨(w.backUp_fronts io _).trans fronts, same⟩
    · exact ⟨Fronts.refl w, rfl⟩
  · exact ⟨Fronts.refl w, rfl⟩
  · exact ⟨Fronts.refl w, rfl⟩

theorem diskFull_fronts (w : Writer) (io : Driver) : w.Fronts (w.diskFull io) := by
  unfold diskFull
  split
  · split
    · have fronts := w.backUp_fronts io w.db.table
      exact ⟨rfl, rfl, rfl, rfl, rfl, fronts.trace⟩
    · exact ⟨rfl, rfl, rfl, rfl, rfl, (Fronts.refl w).trace⟩
  · exact Fronts.refl w

theorem diskFull_yb (w : Writer) (io : Driver) : (w.diskFull io).yb = w.yb := by
  unfold diskFull
  split
  · split <;> rfl
  · rfl

/-- All the part behind the day test can do: past the disk-full test and the cover check it
ends the loop, or it lays and indexes a group at the position the disk-full test left. -/
theorem record_cases (w : Writer) (input : Input) (now : Nat) :
    ∃ checked : Writer, w.Fronts checked ∧ checked.seek = (w.diskFull input.io).seek ∧
      (w.record input now = { checked with running := false } ∨
        w.record input now =
          { (checked.layGroup input).indexGroup input now checked.seek with iOldTime := now }) := by
  obtain ⟨fronts, same⟩ := (w.diskFull input.io).maybeCoverDayblock_fronts input.io leaveBlocks
    (w.diskFull input.io).seek
  refine ⟨_, (w.diskFull_fronts input.io).trans fronts, same, ?_⟩
  unfold record
  dsimp only
  split
  · rename_i checked passed
    rw [passed]
    exact Or.inr rfl
  · rename_i checked failed
    rw [failed]
    exact Or.inl rfl

end Writer

end ExmOnvif.Recorder
