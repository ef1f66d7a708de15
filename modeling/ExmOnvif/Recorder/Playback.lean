/-
This file follows the playback pointers through the recorder's writes.

Every head block stores where the writer means to lay the next group: the write
position at the end of its own iteration. The next iteration may still move that
position, for a new day table or because the disk is full, and nothing goes back
to correct the pointer. What is proved is that the pointers link up wherever the
position is left alone, and that `ReadDisk::read_proc`, started from a second
indexed in such a stretch, then comes by all its later groups in recording order.
-/

import Mathlib.Data.List.Chain
import ExmOnvif.Library.Runs
import ExmOnvif.Recorder.Startup

namespace ExmOnvif.Recorder

open Library

/-! ### Groups and the reader -/

/-- A group on the disk: where its head block is, and what that block says. -/
abbrev Group := Int × HeadBlock

/-- The groups of a history, newest first. -/
def groups : List Event → List Group
  | [] => []
  | .wrote ⟨seek, _, .head block, _⟩ :: trace => (seek, block) :: groups trace
  | _ :: trace => groups trace

/-- Does `new SecBlocks(size, seek)` find the magic of a written `SecBlocks` object? -/
def secAt (trace : List Event) (seek : Int) : Bool :=
  match newestWrite seek 1 trace with
  | some ⟨place, _, .media, true⟩ => place = seek
  | some ⟨place, _, .head _, true⟩ => place = seek
  | _ => false

/-- Both media of a channel are found where the head block has them. -/
def HeadBlock.readable (block : HeadBlock) (trace : List Event) (channel : Nat) : Bool :=
  match block.allMediaHead[channel]? with
  | none => false
  | some entry => secAt trace entry.videoSeek && secAt trace entry.audioSeek

/-- The inner loop of `ReadDisk::read_proc`: the positions of the head blocks it reads in a
number of turns. -/
def readProc (trace : List Event) (channel : Nat) : Nat → Int → List Int
  | 0, _ => []
  | turns + 1, seek =>
    match storedHead trace seek with
    | none => []
    | some block =>
      seek ::
        if block.readable trace channel then readProc trace channel turns block.nextMultMediaBlock
        else []

/-- Each group points at the group behind it (the list is newest first). -/
def Linked (groups : List Group) : Prop :=
  groups.IsChain fun later earlier => earlier.2.nextMultMediaBlock = later.1

/-! ### The condition on one iteration -/

/-- The iteration leaves the write position alone: no new day, and room left on the disk. -/
def Writer.Stays (w : Writer) (input : Input) : Prop :=
  ¬w.RollsOver input ∧ leaveBlocks ≤ w.hdSize - w.seek

instance (w : Writer) (input : Input) : Decidable (w.Stays input) :=
  inferInstanceAs (Decidable (_ ∧ _))

/-- One iteration that leaves the write position alone. -/
def StayingIteration (w : Writer) (input : Input) (after : Writer) : Prop :=
  Iteration w input after ∧ w.Stays input

/-- A channel that hands over a video and an audio collection of at least a block. -/
def Channel.Complete (channel : Channel) : Prop :=
  ∃ video audio, channel = ⟨some video, some audio⟩ ∧
    0 < mediaBlocks video ∧ 0 < mediaBlocks audio

/-- The group of the iteration can be read back: the driver stores it, the table of the day
is not in its way, and the channel is in it. -/
def Writer.ReadsBack (w : Writer) (input : Input) (channel : Fin maxChannel) : Prop :=
  (∀ seek blocks, input.io seek blocks = true) ∧
    Apart w.db.llSeek dayBlocks w.seek input.groupBlocks ∧ (input.channels channel).Complete

/-- One iteration that leaves the write position alone and whose group can be read back. -/
def ReadableIteration (channel : Fin maxChannel) (w : Writer) (input : Input) (after : Writer) :
    Prop :=
  StayingIteration w input after ∧ w.ReadsBack input channel

/-! ### What an iteration adds to the history -/

theorem groups_append (events trace : List Event) :
    groups (events ++ trace) = groups events ++ groups trace := by
  induction events with
  | nil => rfl
  | cons event events inductionHypothesis =>
    obtain ⟨seek, blocks, content, stored⟩ | _ | _ | _ := event
    · cases content <;> simp only [List.cons_append, groups, inductionHypothesis]
    all_goals exact inductionHypothesis

theorem groups_eq_nil {events : List Event}
    (noHead : ∀ seek blocks block stored, .wrote ⟨seek, blocks, .head block, stored⟩ ∉ events) :
    groups events = [] := by
  induction events with
  | nil => rfl
  | cons event events inductionHypothesis =>
    have rest := inductionHypothesis fun seek blocks block stored member =>
      noHead seek blocks block stored (List.mem_cons_of_mem _ member)
    obtain ⟨seek, blocks, content, stored⟩ | _ | _ | _ := event
    · cases content with
      | head block => exact absurd List.mem_cons_self (noHead seek blocks block stored)
      | _ => exact rest
    all_goals exact rest

/-- An event of the current day's index, from the indexing of the group at `start`. -/
def Event.OfDay (day start : Int) : Event → Prop
  | .wrote ⟨seek, blocks, .dayTable _ _, _⟩ => seek = day ∧ blocks = dayBlocks
  | .indexed _ _ sb => sb.seek = start
  | _ => False

/-- The writes of the group at `start`, newest first. -/
def Input.groupEvents (input : Input) (start : Int) : List Event :=
  .wrote ⟨start, 1, .head (input.headBlock start), input.io start 1⟩ ::
    channelsWrites input.io (start + 1) input.group

/-- A group was laid at `start` and indexed. -/
structure Laid (w : Writer) (input : Input) (start : Int) (after : Writer) : Prop where
  seek : after.seek = start + input.groupBlocks
  llSeek : after.db.llSeek = w.db.llSeek
  trace : ∃ day front, after.trace = day ++ (input.groupEvents start ++ (front ++ w.trace)) ∧
    (∀ event ∈ day, event.OfDay w.db.llSeek start) ∧ ∀ event ∈ front, event.Front

/-- The loop was ended in front of a group at `start`. -/
structure Ended (w : Writer) (start : Int) (after : Writer) : Prop where
  running : after.running = false
  seek : after.seek = start
  llSeek : after.db.llSeek = w.db.llSeek
  trace : ∃ front, after.trace = front ++ w.trace ∧ ∀ event ∈ front, event.Front

theorem Writer.indexGroup_ofDay (w : Writer) (input : Input) (now : Nat) (start : Int) :
    (w.indexGroup input now start).seek = w.seek ∧
      (w.indexGroup input now start).db.llSeek = w.db.llSeek ∧
      ∃ day, (w.indexGroup input now start).trace = day ++ w.trace ∧
        ∀ event ∈ day, event.OfDay w.db.llSeek start := by
  rcases w.indexGroup_cases input now start with same | stopped | ⟨-, noted | written | failed⟩
  · rw [same]
    exact ⟨rfl, rfl, [], rfl, fun _ member => absurd member List.not_mem_nil⟩
  · rw [stopped]
    exact ⟨rfl, rfl, [], rfl, fun _ member => absurd member List.not_mem_nil⟩
  · rw [noted]
    refine ⟨rfl, rfl, [_], rfl, fun event member => ?_⟩
    rw [List.mem_singleton.mp member]
    exact rfl
  · rw [written]
    refine ⟨rfl, rfl, [_, _], rfl, fun event member => ?_⟩
    rcases List.mem_cons.mp member with rfl | last
    · exact ⟨rfl, rfl⟩
    · rw [List.mem_singleton.mp last]
      exact rfl
  · rw [failed]
    refine ⟨rfl, rfl, [_], rfl, fun event member => ?_⟩
    rw [List.mem_singleton.mp member]
    exact ⟨rfl, rfl⟩

/-- Behind the day test an iteration ends the loop in front of the group, or lays one. -/
theorem Writer.record_laid (w : Writer) (input : Input) (now : Nat) :
    Ended w (w.diskFull input.io).seek (w.record input now) ∨
      Laid w input (w.diskFull input.io).seek (w.record input now) := by
  obtain ⟨checked, fronts, place, stopped | laid⟩ := w.record_cases input now
  · rw [stopped]
    exact Or.inl ⟨rfl, place, congrArg DayBlocks.llSeek fronts.db, fronts.trace⟩
  · obtain ⟨front, frontTrace, isFront⟩ := fronts.trace
    obtain ⟨seek, llSeek, day, dayTrace, isDay⟩ :=
      (checked.layGroup input).indexGroup_ofDay input now checked.seek
    rw [laid, ← place]
    refine Or.inr ⟨seek, ?_, day, front, ?_, ?_, isFront⟩
    · rw [← fronts.db]
      exact llSeek
    · rw [← frontTrace]
      exact dayTrace
    · rw [← fronts.db]
      exact isDay

/-! ### The pointers link up -/

theorem groups_channelsWrites (io : Driver) (channels : List Channel) (seek : Int) :
    groups (channelsWrites io seek channels) = [] := by
  induction channels generalizing seek with
  | nil => rfl
  | cons channel channels inductionHypothesis =>
    rw [channelsWrites, groups_append, inductionHypothesis, List.nil_append]
    obtain ⟨_ | video, _ | audio⟩ := channel <;> rfl

theorem groups_front {events : List Event} (front : ∀ event ∈ events, event.Front) :
    groups events = [] :=
  groups_eq_nil fun _ _ _ _ member => front _ member

theorem groups_day {day start : Int} {events : List Event}
    (ofDay : ∀ event ∈ events, event.OfDay day start) : groups events = [] :=
  groups_eq_nil fun _ _ _ _ member => ofDay _ member

theorem Laid.groups_eq {w after : Writer} {input : Input} {start : Int}
    (laid : Laid w input start after) :
    groups after.trace = (start, input.headBlock start) :: groups w.trace := by
  obtain ⟨day, front, trace, isDay, isFront⟩ := laid.trace
  rw [trace, groups_append, groups_append, groups_append, groups_day isDay, groups_front isFront,
    Input.groupEvents, groups, groups_channelsWrites]
  rfl

/-- The newest group of a running writer points at the write position. -/
structure Writer.Tip (w : Writer) : Prop where
  behind : firstDaySeek ≤ w.seek
  pointer : w.running = true → ∀ group ∈ (groups w.trace).head?,
    group.2.nextMultMediaBlock = w.seek

theorem Writer.diskFull_behind (w : Writer) (io : Driver) (behind : firstDaySeek ≤ w.seek) :
    firstDaySeek ≤ (w.diskFull io).seek := by
  unfold diskFull
  split
  · split
    · exact first_day_front
    · exact Int.le_refl _
  · exact behind

theorem Input.groupBlocks_pos (input : Input) : 0 < input.groupBlocks := by
  have blocks := channelsBlocks_nonneg input.group
  rw [groupBlocks]
  omega

theorem Writer.record_tip (w : Writer) (input : Input) (now : Nat)
    (behind : firstDaySeek ≤ w.seek) : (w.record input now).Tip := by
  have placed := w.diskFull_behind input.io behind
  rcases w.record_laid input now with ended | laid
  · refine ⟨ended.seek ▸ placed, fun running => ?_⟩
    rw [ended.running] at running
    cases running
  · refine ⟨?_, fun _ group newest => ?_⟩
    · rw [laid.seek]
      exact Int.le_trans placed (Int.le_add_of_nonneg_right (Int.le_of_lt input.groupBlocks_pos))
    · rw [laid.groups_eq, List.head?_cons, Option.mem_some_iff] at newest
      rw [← newest, laid.seek]
      rfl

theorem Writer.closeDay_behind (w : Writer) (io : Driver) (behind : firstDaySeek ≤ w.seek) :
    firstDaySeek ≤ (w.closeDay io).2.seek := by
  unfold closeDay
  dsimp only
  split
  · have covered := maybeCoverDayblock_fronts { w.writeDay io with seek := firstDaySeek } io
      dayBlocks firstDaySeek
    exact Int.le_of_eq covered.2.symm
  · exact behind

/-- Whatever an iteration does, its group ends up pointing at the position it leaves. -/
theorem Writer.iterate_tip (w : Writer) (input : Input) (behind : firstDaySeek ≤ w.seek) :
    (w.iterate input).Tip := by
  have closedBehind := w.closeDay_behind input.io behind
  unfold iterate
  split
  · split
    · rename_i closed passed
      rw [passed] at closedBehind
      refine record_tip _ input _ ?_
      show firstDaySeek ≤ closed.seek + dayBlocks
      have blocks := dayBlocks_eq
      have shown : firstDaySeek ≤ closed.seek := closedBehind
      omega
    · rename_i closed failed
      rw [failed] at closedBehind
      exact ⟨closedBehind, fun running => by cases running⟩
  · exact record_tip w input _ behind

theorem Writer.diskFull_of_room (w : Writer) (io : Driver)
    (room : leaveBlocks ≤ w.hdSize - w.seek) : w.diskFull io = w := by
  rw [diskFull, if_neg (Int.not_lt.mpr room)]

/-- An iteration that leaves the position alone ends the loop or lays its group there. -/
theorem Writer.iterate_of_stays (w : Writer) (input : Input) (stays : w.Stays input) :
    Ended w w.seek (w.iterate input) ∨ Laid w input w.seek (w.iterate input) := by
  have done := w.record_laid input input.now
  rw [w.diskFull_of_room input.io stays.2] at done
  rw [iterate, if_neg stays.1]
  exact done

theorem run_tip {start w : Writer} {inputs : List Input} (tip : start.Tip)
    (run : Runs Iteration start inputs w) : w.Tip := by
  refine run.invariant tip ?_
  rintro before input after ⟨_, rfl⟩ kept
  exact before.iterate_tip input kept.behind

/-- In a stretch that leaves the position alone, each group points at the next one, the newest
group in front of the stretch included. -/
theorem stretch_linked {middle w : Writer} {more : List Input} (tip : middle.Tip)
    (stretch : Runs StayingIteration middle more w) :
    ∃ recent, w.trace = recent ++ middle.trace ∧
      Linked (groups recent ++ (groups middle.trace).take 1) := by
  induction stretch with
  | nil =>
    refine ⟨[], rfl, ?_⟩
    cases groups middle.trace with
    | nil => exact List.isChain_nil
    | cons group rest => exact List.isChain_singleton group
  | @snoc labels before after input run taken inductionHypothesis =>
    obtain ⟨recent, trace, linked⟩ := inductionHypothesis
    obtain ⟨⟨running, rfl⟩, stays⟩ := taken
    have beforeTip := run_tip tip (run.weaken fun _ _ _ step => step.1)
    rcases before.iterate_of_stays input stays with ended | laid
    · obtain ⟨front, frontTrace, isFront⟩ := ended.trace
      refine ⟨front ++ recent, by rw [frontTrace, trace, List.append_assoc], ?_⟩
      rw [groups_append, groups_front isFront, List.nil_append]
      exact linked
    · obtain ⟨day, front, added, isDay, isFront⟩ := laid.trace
      refine ⟨day ++ (input.groupEvents before.seek ++ (front ++ recent)), ?_, ?_⟩
      · simp only [added, trace, List.append_assoc]
      · rw [groups_append, groups_append, groups_append, groups_day isDay, groups_front isFront,
          Input.groupEvents, groups, groups_channelsWrites]
        refine List.IsChain.cons linked fun group newest => ?_
        have first : group ∈ (groups recent ++ (groups middle.trace).take 1).head? := newest
        rw [List.head?_append, List.head?_take, if_neg Nat.one_ne_zero] at first
        refine beforeTip.pointer running group ?_
        rw [trace, groups_append, List.head?_append]
        exact first

/-! ### The groups stay readable -/

theorem storedHead_congr {trace other : List Event} {seek : Int}
    (same : newestWrite seek 1 trace = newestWrite seek 1 other) :
    storedHead trace seek = storedHead other seek := by
  rw [storedHead, same, storedHead]

theorem secAt_congr {trace other : List Event} {seek : Int}
    (same : newestWrite seek 1 trace = newestWrite seek 1 other) :
    secAt trace seek = secAt other seek := by
  rw [secAt, same, secAt]

/-- A media write is found where it was made, under writes that lie apart from its start. -/
theorem secAt_of_media {events trace : List Event} {seek blocks : Int} (some : 0 < blocks)
    (apart : ∀ write, .wrote write ∈ events → Apart write.seek write.blocks seek 1) :
    secAt (events ++ .wrote ⟨seek, blocks, .media, true⟩ :: trace) seek = true := by
  have touches : ¬Apart seek blocks seek 1 := by
    rintro (before | after)
    · omega
    · omega
  rw [secAt, newestWrite_append_of_apart events _ apart, newestWrite_self touches]
  exact decide_eq_true rfl

/-- The two media of a channel are found under writes that lie behind them. -/
theorem Channel.writes_found {io : Driver} (stores : ∀ seek blocks, io seek blocks = true)
    {video audio : Nat} (videoBlocks : 0 < mediaBlocks video) (audioBlocks : 0 < mediaBlocks audio)
    (seek : Int) (later trace : List Event)
    (behind : ∀ write, .wrote write ∈ later →
      seek + (mediaBlocks video + mediaBlocks audio) ≤ write.seek) :
    secAt (later ++ (Channel.writes io seek ⟨some video, some audio⟩ ++ trace)) seek = true ∧
      secAt (later ++ (Channel.writes io seek ⟨some video, some audio⟩ ++ trace))
        (seek + mediaBlocks video) = true := by
  simp only [Channel.writes, stores, List.cons_append, List.nil_append]
  constructor
  · rw [List.append_cons]
    refine secAt_of_media videoBlocks fun write member => ?_
    rcases List.mem_append.mp member with far | near
    · have low := behind write far
      exact Or.inr (by omega)
    · cases List.mem_singleton.mp near
      exact Or.inr (Int.add_le_add_left videoBlocks seek)
  · refine secAt_of_media audioBlocks fun write member => ?_
    have low := behind write member
    exact Or.inr (by omega)

/-- The entry of a complete channel points at its media, inside the group's stretch. -/
theorem channelsWrites_entry {io : Driver} (stores : ∀ seek blocks, io seek blocks = true)
    {channel : Channel} (complete : channel.Complete) (channels : List Channel) (index : Nat)
    (seek : Int) (trace : List Event) (present : channels[index]? = some channel) :
    ∃ entry, (channelsHeads seek channels)[index]? = some entry ∧
      (seek ≤ entry.videoSeek ∧ entry.videoSeek < seek + channelsBlocks channels ∧
        secAt (channelsWrites io seek channels ++ trace) entry.videoSeek = true) ∧
      seek ≤ entry.audioSeek ∧ entry.audioSeek < seek + channelsBlocks channels ∧
        secAt (channelsWrites io seek channels ++ trace) entry.audioSeek = true := by
  induction channels generalizing index seek trace with
  | nil => cases present
  | cons first channels inductionHypothesis =>
    have rest := channelsBlocks_nonneg channels
    have own := first.blocks_nonneg
    rw [channelsWrites, List.append_assoc, channelsBlocks]
    cases index with
    | succ index =>
      obtain ⟨entry, there, ⟨videoLow, videoHigh, video⟩, audioLow, audioHigh, audio⟩ :=
        inductionHypothesis index (seek + first.blocks) (first.writes io seek ++ trace) present
      exact ⟨entry, there, ⟨by omega, by omega, video⟩, by omega, by omega, audio⟩
    | zero =>
      obtain ⟨video, audio, rfl, videoBlocks, audioBlocks⟩ := complete
      cases present
      have blocks : Channel.blocks ⟨some video, some audio⟩ =
        mediaBlocks video + mediaBlocks audio := rfl
      have found := Channel.writes_found stores videoBlocks audioBlocks seek
        (channelsWrites io (seek + Channel.blocks ⟨some video, some audio⟩) channels) trace
        fun write member => by
          obtain ⟨_, same, low, -⟩ := channelsWrites_inside io channels _ _ member
          cases same
          exact low
      refine ⟨⟨seek, video, seek + mediaBlocks video, audio⟩, rfl, ⟨Int.le_refl _, ?_, found.1⟩,
        ?_, ?_, found.2⟩
      · show seek < _
        omega
      · show seek ≤ seek + mediaBlocks video
        omega
      · show seek + mediaBlocks video < _
        omega

/-- A group of the stretch is on the disk with the media of the channel, away from everything
the next iterations write. -/
structure Kept (w : Writer) (channel : Nat) (group : Group) : Prop where
  behind : firstDaySeek ≤ group.1
  before : group.2.nextMultMediaBlock ≤ w.seek
  nonempty : group.1 < group.2.nextMultMediaBlock
  apart : ∀ place, group.1 ≤ place → place < group.2.nextMultMediaBlock →
    Apart w.db.llSeek dayBlocks place 1
  head : storedHead w.trace group.1 = some group.2
  media : ∃ entry, group.2.allMediaHead[channel]? = some entry ∧
    (group.1 ≤ entry.videoSeek ∧ entry.videoSeek < group.2.nextMultMediaBlock ∧
      secAt w.trace entry.videoSeek = true) ∧
    group.1 ≤ entry.audioSeek ∧ entry.audioSeek < group.2.nextMultMediaBlock ∧
      secAt w.trace entry.audioSeek = true

theorem Event.Front.apart {write : Write} (front : (Event.wrote write).Front) {place blocks : Int}
    (behind : firstDaySeek ≤ place) : Apart write.seek write.blocks place blocks := by
  obtain ⟨seek, blocks, content, stored⟩ := write
  cases content with
  | yearTable yb => exact Or.inl (Int.le_trans front behind)
  | backup table => exact Or.inl (Int.le_trans front behind)
  | dayTable number table => exact front.elim
  | media => exact front.elim
  | head block => exact front.elim

theorem Event.OfDay.apart {write : Write} {day start place : Int}
    (ofDay : (Event.wrote write).OfDay day start) (away : Apart day dayBlocks place 1) :
    Apart write.seek write.blocks place 1 := by
  obtain ⟨seek, blocks, content, stored⟩ := write
  cases content with
  | dayTable number table =>
    obtain ⟨rfl, rfl⟩ := ofDay
    exact away
  | yearTable yb => exact ofDay.elim
  | backup table => exact ofDay.elim
  | media => exact ofDay.elim
  | head block => exact ofDay.elim

theorem Ended.newestWrite_eq {w after : Writer} {start place : Int} (ended : Ended w start after)
    (behind : firstDaySeek ≤ place) :
    newestWrite place 1 after.trace = newestWrite place 1 w.trace := by
  obtain ⟨front, trace, isFront⟩ := ended.trace
  rw [trace]
  exact newestWrite_append_of_apart _ _ fun write member => (isFront _ member).apart behind

/-- Laying a group leaves alone what lies in front of it, behind the first day table and away
from the current day's table. -/
theorem Laid.newestWrite_eq {w after : Writer} {input : Input} {start place : Int}
    (laid : Laid w input start after) (behind : firstDaySeek ≤ place) (before : place < start)
    (away : Apart w.db.llSeek dayBlocks place 1) :
    newestWrite place 1 after.trace = newestWrite place 1 w.trace := by
  obtain ⟨day, front, trace, isDay, isFront⟩ := laid.trace
  rw [trace, newestWrite_append_of_apart day, newestWrite_append_of_apart (input.groupEvents start),
    newestWrite_append_of_apart front]
  · exact fun write member => (isFront _ member).apart behind
  · intro write member
    rcases List.mem_cons.mp member with head | media
    · cases head
      exact Or.inr before
    · obtain ⟨_, same, low, -⟩ := channelsWrites_inside _ _ _ _ media
      cases same
      exact Or.inr (by omega)
  · exact fun write member => (isDay _ member).apart away

/-- A kept group is kept by whatever leaves its blocks alone. -/
theorem Kept.of_newestWrite_eq {w after : Writer} {channel : Nat} {group : Group}
    (kept : Kept w channel group) (further : w.seek ≤ after.seek)
    (sameDay : after.db.llSeek = w.db.llSeek)
    (same : ∀ place, firstDaySeek ≤ place → place < w.seek → Apart w.db.llSeek dayBlocks place 1 →
      newestWrite place 1 after.trace = newestWrite place 1 w.trace) :
    Kept after channel group := by
  have inside : ∀ place, group.1 ≤ place → place < group.2.nextMultMediaBlock →
      newestWrite place 1 after.trace = newestWrite place 1 w.trace := fun place low high =>
    same place (Int.le_trans kept.behind low) (Int.lt_of_lt_of_le high kept.before)
      (kept.apart place low high)
  refine ⟨kept.behind, Int.le_trans kept.before further, kept.nonempty, ?_, ?_, ?_⟩
  · rw [sameDay]
    exact kept.apart
  · rw [storedHead_congr (inside group.1 (Int.le_refl _) kept.nonempty)]
    exact kept.head
  · obtain ⟨entry, there, ⟨videoLow, videoHigh, video⟩, audioLow, audioHigh, audio⟩ := kept.media
    refine ⟨entry, there, ⟨videoLow, videoHigh, ?_⟩, audioLow, audioHigh, ?_⟩
    · rw [secAt_congr (inside _ videoLow videoHigh)]
      exact video
    · rw [secAt_congr (inside _ audioLow audioHigh)]
      exact audio

/-- A group that can be read back is kept when it is laid. -/
theorem Laid.kept {w after : Writer} {input : Input} {channel : Fin maxChannel}
    (laid : Laid w input w.seek after) (behind : firstDaySeek ≤ w.seek)
    (reads : w.ReadsBack input channel) :
    Kept after channel (w.seek, input.headBlock w.seek) := by
  obtain ⟨stores, away, complete⟩ := reads
  obtain ⟨day, front, trace, isDay, -⟩ := laid.trace
  have positive := input.groupBlocks_pos
  have next : (input.headBlock w.seek).nextMultMediaBlock = w.seek + input.groupBlocks := rfl
  have tableApart : ∀ place, w.seek ≤ place → place < w.seek + input.groupBlocks →
      Apart w.db.llSeek dayBlocks place 1 := by
    intro place low high
    rcases away with before | after
    · exact Or.inl (Int.le_trans before low)
    · exact Or.inr (Int.le_trans high after)
  have dayApart : ∀ place, w.seek ≤ place → place < w.seek + input.groupBlocks →
      ∀ write, .wrote write ∈ day → Apart write.seek write.blocks place 1 :=
    fun place low high write member => (isDay _ member).apart (tableApart place low high)
  have headTouches : ¬Apart w.seek 1 w.seek 1 := by
    rintro (early | late) <;> omega
  refine ⟨behind, laid.seek ▸ Int.le_refl _, ?_, ?_, ?_, ?_⟩
  · rw [next]
    exact Int.lt_add_of_pos_right _ positive
  · rw [laid.llSeek]
    exact tableApart
  · rw [trace, storedHead, newestWrite_append_of_apart day _ (dayApart w.seek (Int.le_refl _)
      (Int.lt_add_of_pos_right _ positive)), Input.groupEvents, List.cons_append,
      newestWrite_self headTouches, stores]
    exact if_pos rfl
  · have present : input.group[channel.val]? = some (input.channels channel) := by
      rw [Input.group, List.getElem?_ofFn, dif_pos channel.isLt]
    obtain ⟨entry, there, ⟨videoLow, videoHigh, video⟩, audioLow, audioHigh, audio⟩ :=
      channelsWrites_entry stores complete input.group channel (w.seek + 1)
        (front ++ w.trace) present
    have blocks : w.seek + input.groupBlocks = w.seek + 1 + channelsBlocks input.group := by
      rw [Input.groupBlocks, Int.add_assoc]
    have visible : ∀ place, w.seek + 1 ≤ place → place < w.seek + input.groupBlocks →
        secAt (channelsWrites input.io (w.seek + 1) input.group ++ (front ++ w.trace)) place =
          true → secAt after.trace place = true := by
      intro place low high found
      have headApart : Apart w.seek 1 place 1 := Or.inl low
      rw [← found, trace]
      refine secAt_congr ?_
      rw [newestWrite_append_of_apart day _ (dayApart place (by omega) high), Input.groupEvents,
        List.cons_append, newestWrite_of_apart headApart]
    rw [next]
    exact ⟨entry, there, ⟨by omega, by omega, visible _ videoLow (by omega) video⟩, by omega,
      by omega, visible _ audioLow (by omega) audio⟩

/-- After a stretch that can be read back, every group of it is kept, and every entry it indexed
is one of its groups. -/
theorem stretch_kept {middle w : Writer} {more : List Input} {channel : Fin maxChannel}
    (tip : middle.Tip) (stretch : Runs (ReadableIteration channel) middle more w)
    (recent : List Event) (trace : w.trace = recent ++ middle.trace) :
    (∀ group ∈ groups recent, Kept w channel group) ∧
      ∀ now day sb, .indexed now day sb ∈ recent → ∃ block, (sb.seek, block) ∈ groups recent := by
  induction stretch generalizing recent with
  | nil =>
    cases List.append_left_eq_self.mp trace.symm
    exact ⟨fun _ member => absurd member List.not_mem_nil,
      fun _ _ _ member => absurd member List.not_mem_nil⟩
  | @snoc labels before after input run taken inductionHypothesis =>
    obtain ⟨⟨⟨running, rfl⟩, stays⟩, reads⟩ := taken
    have staying := run.weaken fun _ _ _ step => step.1
    obtain ⟨earlier, beforeTrace, -⟩ := stretch_linked tip staying
    have beforeTip := run_tip tip (staying.weaken fun _ _ _ step => step.1)
    obtain ⟨kept, indexed⟩ := inductionHypothesis earlier beforeTrace
    rcases before.iterate_of_stays input stays with ended | laid
    · obtain ⟨front, frontTrace, isFront⟩ := ended.trace
      have split : recent = front ++ earlier := by
        rw [frontTrace, beforeTrace, ← List.append_assoc] at trace
        exact (List.append_cancel_right trace).symm
      rw [split, groups_append, groups_front isFront, List.nil_append]
      refine ⟨fun group member => ?_, fun now day sb member => ?_⟩
      · exact (kept group member).of_newestWrite_eq (Int.le_of_eq ended.seek.symm) ended.llSeek
          fun place behind _ _ => ended.newestWrite_eq behind
      · rcases List.mem_append.mp member with new | old
        · exact (isFront _ new).elim
        · exact indexed now day sb old
    · obtain ⟨day, front, added, isDay, isFront⟩ := laid.trace
      have split : recent = day ++ (input.groupEvents before.seek ++ (front ++ earlier)) := by
        have whole : recent ++ middle.trace =
            (day ++ (input.groupEvents before.seek ++ (front ++ earlier))) ++ middle.trace := by
          rw [← trace, added, beforeTrace]
          simp only [List.append_assoc]
        exact List.append_cancel_right whole
      have further : before.seek ≤ (before.iterate input).seek := by
        rw [laid.seek]
        exact Int.le_add_of_nonneg_right (Int.le_of_lt input.groupBlocks_pos)
      have newest : groups recent =
          (before.seek, input.headBlock before.seek) :: groups earlier := by
        rw [split, groups_append, groups_append, groups_append, groups_day isDay,
          groups_front isFront, Input.groupEvents, groups, groups_channelsWrites]
        rfl
      rw [newest]
      refine ⟨fun group member => ?_, fun now place sb member => ?_⟩
      · rcases List.mem_cons.mp member with rfl | old
        · exact laid.kept beforeTip.behind reads
        · exact (kept group old).of_newestWrite_eq further laid.llSeek
            fun place behind below away => laid.newestWrite_eq behind below away
      · rw [split] at member
        rcases List.mem_append.mp member with ofDay | other
        · have same : sb.seek = before.seek := isDay _ ofDay
          exact ⟨_, List.mem_cons.mpr (Or.inl (by rw [same]))⟩
        · rcases List.mem_append.mp other with own | rest
          · rcases List.mem_cons.mp own with head | media
            · cases head
            · obtain ⟨_, same, -⟩ := channelsWrites_inside _ _ _ _ media
              cases same
          · rcases List.mem_append.mp rest with inFront | old
            · exact (isFront _ inFront).elim
            · obtain ⟨block, there⟩ := indexed now place sb old
              exact ⟨block, List.mem_cons_of_mem _ there⟩

/-- Over linked and kept groups the reader comes by all of them, oldest first. -/
theorem readProc_of_linked {w : Writer} {channel : Nat} (later : List Group) (group : Group)
    (earlier : List Group) (linked : Linked (later ++ group :: earlier))
    (kept : ∀ other ∈ later ++ [group], Kept w channel other) :
    readProc w.trace channel (later.length + 1) group.1 =
      group.1 :: (later.map Prod.fst).reverse := by
  induction later using List.reverseRecOn generalizing group earlier with
  | nil =>
    have own := kept group List.mem_cons_self
    rw [readProc, own.head]
    simp [readProc]
  | append_singleton later next inductionHypothesis =>
    have own := kept group (List.mem_append_right _ List.mem_cons_self)
    have readable : group.2.readable w.trace channel = true := by
      obtain ⟨entry, there, ⟨-, -, video⟩, -, -, audio⟩ := own.media
      rw [HeadBlock.readable, there]
      exact Bool.and_eq_true_iff.mpr ⟨video, audio⟩
    rw [List.append_assoc] at linked
    have pointer : group.2.nextMultMediaBlock = next.1 := by
      have pair := List.IsChain.right_of_append linked
      exact (List.isChain_cons_cons.mp pair).1
    have rest := inductionHypothesis next (group :: earlier) linked fun other member =>
      kept other (List.mem_append_left _ member)
    rw [readProc, own.head, List.length_append, List.length_singleton]
    simp only [readable, if_true, pointer, rest, List.map_append, List.map_cons, List.map_nil,
      List.reverse_append, List.reverse_cons, List.reverse_nil, List.nil_append,
      List.singleton_append]

/-! ### Playback -/

theorem Writer.fresh_tip (hdSize : Int) (io : Driver) (initNow startNow : Nat) :
    (Writer.fresh hdSize io initNow startNow).Tip :=
  ⟨first_day_front, fun _ _ newest => nomatch newest⟩

/-- After any run from a new disk, in a stretch of iterations that leave the write position
alone, the pointer in each head block is the position of the next head block, the newest group
in front of the stretch included. If the stretch can also be read back, the reader started at
any second it indexed comes by every later group in recording order. -/
theorem playback_chain {hdSize : Int} {io : Driver} {initNow startNow : Nat}
    {start middle w : Writer} {inputs more : List Input}
    (started : startFormatted hdSize io initNow startNow = some start)
    (run : Runs Iteration start inputs middle) (stretch : Runs StayingIteration middle more w) :
    ∃ recent, w.trace = recent ++ middle.trace ∧
      Linked (groups recent ++ (groups middle.trace).take 1) ∧
      ∀ channel, Runs (ReadableIteration channel) middle more w →
        ∀ now day sb, .indexed now day sb ∈ recent →
          ∃ later block earlier, groups recent = later ++ (sb.seek, block) :: earlier ∧
            readProc w.trace channel (later.length + 1) sb.seek =
              sb.seek :: (later.map Prod.fst).reverse := by
  obtain ⟨-, rfl⟩ := startFormatted_eq_some started
  have tip := run_tip (Writer.fresh_tip hdSize io initNow startNow) run
  obtain ⟨recent, trace, linked⟩ := stretch_linked tip stretch
  refine ⟨recent, trace, linked, fun channel readable now day sb indexed => ?_⟩
  obtain ⟨kept, listed⟩ := stretch_kept tip readable recent trace
  obtain ⟨block, member⟩ := listed now day sb indexed
  obtain ⟨later, earlier, split⟩ := List.append_of_mem member
  refine ⟨later, block, earlier, split, ?_⟩
  refine readProc_of_linked later (sb.seek, block) earlier ?_ fun other present => ?_
  · rw [← split]
    exact List.IsChain.left_of_append linked
  · refine kept other ?_
    rw [split]
    rcases List.mem_append.mp present with newer | same
    · exact List.mem_append_left _ newer
    · rw [List.mem_singleton.mp same]
      exact List.mem_append_right _ List.mem_cons_self

theorem single_readsBack (w : Writer) (now : Nat)
    (away : Apart w.db.llSeek dayBlocks w.seek (Input.single now 1000 200).groupBlocks) :
    w.ReadsBack (.single now 1000 200) 0 :=
  ⟨fun _ _ => rfl, away, 1000, 200, rfl, by decide, by decide⟩

/-- Two groups of one day, read back from the first. -/
theorem playback_chain_two_groups :
    ∃ start w, startFormatted 60000 (fun _ _ => true) 100 100 = some start ∧
      Runs (ReadableIteration 0) start [.single 101 1000 200, .single 102 1000 200] w ∧
      ∃ recent, w.trace = recent ++ start.trace ∧
        Linked (groups recent ++ (groups start.trace).take 1) ∧
        ∀ now day sb, .indexed now day sb ∈ recent →
          ∃ later block earlier, groups recent = later ++ (sb.seek, block) :: earlier ∧
            readProc w.trace (0 : Fin maxChannel) (later.length + 1) sb.seek =
              sb.seek :: (later.map Prod.fst).reverse := by
  have started := startFormatted_eq 60000 (fun _ _ => true) 100 100 (by decide) (by decide)
  have first : ReadableIteration 0 (Writer.fresh 60000 (fun _ _ => true) 100 100)
      (.single 101 1000 200) _ :=
    ⟨⟨⟨rfl, rfl⟩, by decide⟩, single_readsBack _ 101 (by decide)⟩
  have second : ReadableIteration 0 ((Writer.fresh 60000 (fun _ _ => true) 100 100).iterate
      (.single 101 1000 200)) (.single 102 1000 200) _ :=
    ⟨⟨⟨rfl, rfl⟩, by decide⟩, single_readsBack _ 102 (by decide)⟩
  have stretch := (Runs.nil.snoc first).snoc second
  obtain ⟨recent, trace, linked, reads⟩ :=
    playback_chain started .nil (stretch.weaken fun _ _ _ step => step.1)
  exact ⟨_, _, started, stretch, recent, trace, linked, reads 0 stretch⟩

/-- Over midnight the next group goes behind a new day table, and the pointer of the group
before it shows the table. -/
theorem playback_chain_broken_at_midnight :
    ∃ start w, startFormatted 60000 (fun _ _ => true) 100 100 = some start ∧
      Runs Iteration start [.single 101 1000 200, .single 86500 1000 200] w ∧
      ∃ first second, groups w.trace = [second, first] ∧
        first.2.nextMultMediaBlock ≠ second.1 := by
  have started := startFormatted_eq 60000 (fun _ _ => true) 100 100 (by decide) (by decide)
  have first : Iteration (Writer.fresh 60000 (fun _ _ => true) 100 100)
      (.single 101 1000 200) _ := ⟨rfl, rfl⟩
  have second : Iteration ((Writer.fresh 60000 (fun _ _ => true) 100 100).iterate
      (.single 101 1000 200)) (.single 86500 1000 200) _ := ⟨rfl, rfl⟩
  exact ⟨_, _, started, (Runs.nil.snoc first).snoc second, _, _, rfl, by decide⟩

end ExmOnvif.Recorder
