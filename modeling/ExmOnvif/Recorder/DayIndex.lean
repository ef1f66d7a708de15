/-
This file follows which day table the recorder indexes its groups in.

The current day is changed when the clock leaves the day of `iOldTime`, and after
a restart `iOldTime` comes from the year table, or from the clock when the day
table is found empty. In the second case the listed day can be an old one, and
the groups of a new day then go into its table. The cover check can also take the
current day itself off the year queue. Where neither happens, and the year ring
has not come round, every group is indexed in the table of the listed day it was
recorded on, and `is_in` finds it there.
-/

import ExmOnvif.Recorder.Machine

namespace ExmOnvif.Recorder

open Library

/-! ### Looking a time up -/

/-- The number `TimeIn` returns. -/
def Reply.number : Reply Int → Int
  | .ok seek => seek
  | .err code => code.toInt
  | .outOfBounds => 0

/-- A number that is not a position is answered with zero. -/
def Reply.position (reply : Reply Int) : Int := if reply.number ≤ 0 then 0 else reply.number

/-- `RWlogic::is_in`: the year table, then the day table on the disk, or the backup table for
a day that is not listed. There is no answer when the search leaves the year array or the
history does not tell what the day table holds. -/
def Writer.isIn (w : Writer) (starttime : Nat) : Option Int :=
  match w.yb.timeIn starttime with
  | .outOfBounds => none
  | reply =>
    if reply.number ≤ 0 then some (w.dbbac.timeIn starttime).position
    else (storedTable w.trace reply.number).map fun table => (table.timeIn starttime).position

/-- The days of the year table are in order, none of them lies ahead of the clock, and the
ring has not come round. -/
structure Dated (yb : YearBlock) (clock : Nat) : Prop where
  flat : yb.queueHead + yb.queueSize = yb.queueTail
  days : yb.queued.Pairwise fun first second => first.time / secofday < second.time / secofday
  past : ∀ sb ∈ yb.queued, sb.time ≤ clock

/-- In an unwrapped ring of distinct days, the search returns the day that was asked for. -/
theorem YearBlock.timeInFrom_eq (yb : YearBlock) {time head count : Nat} {sb : SeekBlock}
    (flat : head + count ≤ maxday)
    (days : (ringList yb.seekBlockData maxday head count).Pairwise
      fun first second => first.time / secofday < second.time / secofday)
    (listed : sb ∈ ringList yb.seekBlockData maxday head count)
    (sameDay : sb.time / secofday = time / secofday) :
    yb.timeInFrom time head count = .ok sb.seek := by
  induction count generalizing head with
  | zero => exact absurd listed List.not_mem_nil
  | succ count inductionHypothesis =>
    have inside : head < maxday := by omega
    rw [ringList_cons, Nat.mod_eq_of_lt inside] at days listed
    have order := List.pairwise_cons.mp days
    rw [timeInFrom, readSlot, if_pos inside]
    dsimp only
    by_cases first : (yb.seekBlockData head).time / secofday = time / secofday
    · rw [if_pos first]
      rcases List.mem_cons.mp listed with same | later
      · rw [same]
      · have before := order.1 sb later
        omega
    · rw [if_neg first]
      rcases List.mem_cons.mp listed with same | later
      · rw [← same] at first
        exact absurd sameDay first
      · have room : count ≠ 0 := by
          intro none
          rw [none] at later
          exact absurd later List.not_mem_nil
        have next : (head + 1) % maxday = head + 1 := Nat.mod_eq_of_lt (by omega)
        rw [next] at order later
        exact inductionHypothesis (by omega) order.2 later

theorem Dated.timeIn_eq {yb : YearBlock} {clock time : Nat} (dated : Dated yb clock)
    {sb : SeekBlock} (listed : sb ∈ yb.queued) (sameDay : sb.time / secofday = time / secofday) :
    yb.timeIn time = .ok sb.seek := by
  have flat := dated.flat
  have bound := yb.tailBound
  exact yb.timeInFrom_eq (by omega) dated.days listed sameDay

theorem Dated.later {yb : YearBlock} {clock next : Nat} (dated : Dated yb clock)
    (later : clock ≤ next) : Dated yb next :=
  ⟨dated.flat, dated.days, fun sb member => Nat.le_trans (dated.past sb member) later⟩

theorem Dated.format (clock : Nat) : Dated YearBlock.format clock :=
  ⟨rfl, List.Pairwise.nil, fun _ member => absurd member List.not_mem_nil⟩

/-- No listed day is newer than the last one. -/
theorem Dated.le_last {yb : YearBlock} {clock : Nat} (dated : Dated yb clock) {last sb : SeekBlock}
    (newest : yb.queued.getLast? = some last) (listed : sb ∈ yb.queued) :
    sb.time / secofday ≤ last.time / secofday := by
  obtain ⟨others, split⟩ := List.getLast?_eq_some_iff.mp newest
  have days := dated.days
  rw [split] at days listed
  rcases List.mem_append.mp listed with earlier | same
  · exact Nat.le_of_lt ((List.pairwise_append.mp days).2.2 sb earlier last List.mem_cons_self)
  · rw [List.mem_singleton.mp same]

/-- Taking a day off. -/
theorem Dated.dequeue {yb : YearBlock} {clock : Nat} (dated : Dated yb clock) (ring : yb.Ring)
    (some : yb.queueSize ≠ 0) : Dated yb.dequeue clock := by
  have queue := ring.queued_dequeue some
  obtain ⟨count, size⟩ := Nat.exists_eq_succ_of_ne_zero some
  have flat := dated.flat
  have bound := yb.tailBound
  refine ⟨?_, ?_, fun sb member => ?_⟩
  · rw [YearBlock.dequeue_queueSize count size, YearBlock.dequeue_queueHead,
      YearBlock.dequeue_queueTail, Nat.mod_eq_of_lt (by omega)]
    omega
  · rw [queue]
    exact dated.days.sublist (List.tail_sublist _)
  · rw [queue] at member
    exact dated.past sb (List.mem_of_mem_tail member)

/-- Listing a day behind all the others. -/
theorem Dated.enqueue {yb : YearBlock} {clock : Nat} (dated : Dated yb clock) (ring : yb.Ring)
    (sb : SeekBlock) (room : yb.queueTail + 1 < maxday) (now : sb.time ≤ clock)
    (newer : ∀ other ∈ yb.queued, other.time / secofday < sb.time / secofday) :
    Dated (yb.enqueue sb) clock := by
  have flat := dated.flat
  have free : yb.queueSize < maxday := by omega
  have queue := ring.queued_enqueue sb free
  have size : (yb.enqueue sb).queueSize = yb.queueSize + 1 := by
    rw [← YearBlock.queued_length, queue, List.length_append, YearBlock.queued_length,
      List.length_singleton]
  refine ⟨?_, ?_, fun other member => ?_⟩
  · rw [size]
    show yb.queueHead + (yb.queueSize + 1) = (yb.queueTail + 1) % maxday
    rw [Nat.mod_eq_of_lt room]
    omega
  · rw [queue]
    refine List.pairwise_append.mpr ⟨dated.days, List.pairwise_singleton _ _, ?_⟩
    intro other member last same
    rw [List.mem_singleton.mp same]
    exact newer other member
  · rw [queue] at member
    rcases List.mem_append.mp member with earlier | new
    · exact dated.past other earlier
    · rw [List.mem_singleton.mp new]
      exact now

/-- A day listed in an empty ring is read back only if the ring did not come round. -/
theorem YearBlock.room_of_getTail {yb : YearBlock} {sb listed : SeekBlock} (ring : yb.Ring)
    (empty : yb.queueSize = 0) (newest : (yb.enqueue sb).getTail = .ok listed) :
    yb.queueTail + 1 < maxday := by
  have bound := yb.tailBound
  by_contra wrapped
  have last : yb.queueTail + 1 = maxday := by omega
  have some : (yb.enqueue sb).queueSize ≠ 0 := by
    rw [← queued_length, ring.queued_enqueue sb (by rw [empty]; decide), List.length_append,
      List.length_singleton]
    exact Nat.succ_ne_zero _
  have zero : (yb.enqueue sb).queueTail = 0 := by
    show (yb.queueTail + 1) % maxday = 0
    rw [last, Nat.mod_self]
  rw [getTail_of_zero some zero] at newest
  cases newest

/-! ### The conditions and the invariant -/

/-- The cover check in front of the group does not take the only listed day off. -/
def Writer.KeepsDay (w : Writer) (input : Input) : Prop :=
  ∀ placed ∈ w.placed input, placed.yb.queued.length = 1 → ∀ sb ∈ placed.yb.queued,
    ¬Writer.Covers sb leaveBlocks placed.seek

instance (w : Writer) (input : Input) : Decidable (w.KeepsDay input) :=
  inferInstanceAs (Decidable (∀ placed ∈ w.placed input, _))

/-- A start that finds the day table empty happens on the newest listed day. -/
def Boot.StartsOnDay (b : Boot) (trace : List Event) : Prop :=
  ∀ ready, init trace b = some ready → ready.db.table.getTail = .err .blockErrEmpty →
    ∀ listed, ready.yb.getTail = .ok listed → b.startNow / secofday = listed.time / secofday

/-- The conditions under which index and day agree. -/
def Machine.Agrees : Machine → Action → Prop
  | .off _ trace, .boot b => b.Known ∧ b.StartsOnDay trace
  | .on _ w, .iterate input =>
    (w.RollsOver input → w.yb.queueTail + 1 < maxday) ∧ w.KeepsDay input
  | _, _ => True

/-- One step that meets the conditions. -/
def Machine.AgreeingStep (m : Machine) (action : Action) (after : Machine) : Prop :=
  m.Step action after ∧ m.Agrees action

/-- The newest listed day is the current one, and the day of `time`. -/
def Writer.OnDay (w : Writer) (time : Nat) : Prop :=
  ∃ sb, w.yb.queued.getLast? = some sb ∧ sb.seek = w.db.llSeek ∧
    sb.time / secofday = time / secofday

/-- The invariant of a running recorder. -/
structure Writer.Dated (w : Writer) (clock : Nat) : Prop where
  year : Recorder.Dated w.yb clock
  old : w.iOldTime ≤ clock
  current : w.running = true → w.OnDay w.iOldTime

/-- The invariant. -/
def Machine.Dated : Machine → Prop
  | .off clock trace => ∀ yb, storedYear trace = some yb → Recorder.Dated yb clock
  | .on clock w => w.Dated clock

/-- Both invariants. -/
structure Machine.SoundAndDated (m : Machine) : Prop where
  sound : m.Sound
  dated : m.Dated

/-- A group was indexed under `now` on the day of `now`, and is found there once the table is
written. -/
structure Indexed (w : Writer) (now : Nat) (day : Int) (sb : SeekBlock) : Prop where
  listed : ∃ entry ∈ w.yb.queued, entry.seek = day ∧ entry.time / secofday = now / secofday
  found : ∀ io : Driver, io day dayBlocks = true → (w.writeDay io).isIn now = some sb.seek

/-- The new part of a history indexes nothing. -/
def NoIndex (before after : List Event) : Prop :=
  ∃ recent, after = recent ++ before ∧ ∀ now day sb, .indexed now day sb ∉ recent

theorem NoIndex.trans {first second third : List Event} (left : NoIndex first second)
    (right : NoIndex second third) : NoIndex first third := by
  obtain ⟨early, rfl, earlyNone⟩ := left
  obtain ⟨late, rfl, lateNone⟩ := right
  refine ⟨late ++ early, (List.append_assoc _ _ _).symm, fun now day sb member => ?_⟩
  rcases List.mem_append.mp member with new | old
  · exact lateNone now day sb new
  · exact earlyNone now day sb old

theorem Writer.Fronts.noIndex {w after : Writer} (fronts : w.Fronts after) :
    NoIndex w.trace after.trace := by
  obtain ⟨events, trace, front⟩ := fronts.trace
  exact ⟨events, trace, fun _ _ _ member => front _ member⟩

/-! ### The group of an iteration -/

namespace Writer

theorem indexGroup_yb (w : Writer) (input : Input) (now : Nat) (start : Int) :
    (w.indexGroup input now start).yb = w.yb := by
  rcases w.indexGroup_cases input now start with same | stopped | ⟨-, noted | written | failed⟩
  · rw [same]
  · rw [stopped]
  · rw [noted]
  · rw [written]
    rfl
  · rw [failed]
    rfl

/-- An indexed group is in the table under its second. -/
theorem indexGroup_found (w : Writer) (input : Input) (now : Nat) (start : Int) :
    ∃ recent, (w.indexGroup input now start).trace = recent ++ w.trace ∧
      ∀ time day sb, .indexed time day sb ∈ recent → time = now ∧ day = w.db.llSeek ∧
        sb.seek = start ∧ (w.indexGroup input now start).db.table.timeIn now = .ok start := by
  rcases w.indexGroup_cases input now start with same | stopped | ⟨free, noted | written | failed⟩
  · rw [same]
    exact ⟨[], rfl, fun _ _ _ member => absurd member List.not_mem_nil⟩
  · rw [stopped]
    exact ⟨[], rfl, fun _ _ _ member => absurd member List.not_mem_nil⟩
  · rw [noted]
    refine ⟨[_], rfl, fun time day sb member => ?_⟩
    cases List.mem_singleton.mp member
    exact ⟨rfl, rfl, rfl, w.db.table.timeIn_set now free.1 free.2.1⟩
  · rw [written]
    refine ⟨[_, _], rfl, fun time day sb member => ?_⟩
    rcases List.mem_cons.mp member with first | last
    · cases first
    · cases List.mem_singleton.mp last
      exact ⟨rfl, rfl, rfl, w.db.table.timeIn_set now free.1 free.2.1⟩
  · rw [failed]
    refine ⟨[_], rfl, fun time day sb member => ?_⟩
    cases List.mem_singleton.mp member

/-- What is looked up on the current day, once its table is written. -/
theorem isIn_of_onDay {w : Writer} {clock now : Nat} {start : Int} (sound : w.Sound)
    (dated : Recorder.Dated w.yb clock) (onDay : w.OnDay now)
    (found : w.db.table.timeIn now = .ok start) (positive : 0 < start) (io : Driver)
    (stored : io w.db.llSeek dayBlocks = true) : (w.writeDay io).isIn now = some start := by
  obtain ⟨entry, newest, place, sameDay⟩ := onDay
  have day : (w.writeDay io).yb.timeIn now = .ok w.db.llSeek := by
    rw [← place]
    exact dated.timeIn_eq (List.mem_of_getLast? newest) sameDay
  have ahead : ¬w.db.llSeek ≤ 0 := by
    have first := firstDaySeek_eq
    have behind := sound.day
    omega
  have touches : ¬Apart w.db.llSeek dayBlocks w.db.llSeek dayBlocks := by
    have blocks := dayBlocks_eq
    rintro (before | after) <;> omega
  have read : storedTable (w.writeDay io).trace w.db.llSeek = some w.db.table := by
    show storedTable (.wrote ⟨w.db.llSeek, dayBlocks, .dayTable w.number w.db.table,
      io w.db.llSeek dayBlocks⟩ :: w.trace) w.db.llSeek = some w.db.table
    rw [storedTable, newestWrite_self touches, stored]
    exact if_pos rfl
  have position : (w.db.table.timeIn now).position = start := by
    rw [found]
    exact if_neg (Int.not_le.mpr positive)
  rw [isIn, day]
  simp only [Reply.number, if_neg ahead, read, Option.map_some, position]

/-- The cover check in front of a group leaves the current day listed. -/
theorem cover_onDay {w : Writer} {clock now : Nat} (io : Driver) (sound : w.Sound)
    (dated : Recorder.Dated w.yb clock) (onDay : w.OnDay now)
    (keeps : w.yb.queued.length = 1 → ∀ sb ∈ w.yb.queued, ¬Covers sb leaveBlocks w.seek) :
    Recorder.Dated (w.maybeCoverDayblock io leaveBlocks w.seek).2.yb clock ∧
      (w.maybeCoverDayblock io leaveBlocks w.seek).2.OnDay now := by
  rcases w.maybeCoverDayblock_cases io leaveBlocks w.seek sound.year.ring sound.year.spare with
    ⟨_, result⟩ | ⟨_, _, _, _, result⟩ | ⟨sb, rest, queue, covers, result⟩
  · rw [result]
    exact ⟨dated, onDay⟩
  · rw [result]
    exact ⟨dated, onDay⟩
  · have some : w.yb.queueSize ≠ 0 := by
      rw [← YearBlock.queued_length, queue]
      exact Nat.succ_ne_zero _
    rw [result]
    refine ⟨dated.dequeue sound.year.ring some, ?_⟩
    obtain ⟨entry, newest, place, sameDay⟩ := onDay
    refine ⟨entry, ?_, place, sameDay⟩
    show w.yb.dequeue.queued.getLast? = _
    rw [sound.year.ring.queued_dequeue some, queue, List.tail_cons]
    cases rest with
    | nil => exact absurd covers (keeps (queue ▸ rfl) sb (queue ▸ List.mem_cons_self))
    | cons second others =>
      rw [queue, List.getLast?_cons_cons] at newest
      exact newest

/-- A group laid and indexed on the day of `now`. -/
theorem laid_dated {w : Writer} (input : Input) {clock now : Nat} (sound : w.Sound)
    (dated : Recorder.Dated w.yb clock) (onDay : w.OnDay now) (past : now ≤ clock) :
    ({ (w.layGroup input).indexGroup input now w.seek with iOldTime := now } : Writer).Dated clock ∧
      ∃ recent, ((w.layGroup input).indexGroup input now w.seek).trace = recent ++ w.trace ∧
        ∀ time day sb, .indexed time day sb ∈ recent →
          Indexed { (w.layGroup input).indexGroup input now w.seek with iOldTime := now }
            time day sb := by
  obtain ⟨laid, placed⟩ := sound.layGroup input
  obtain ⟨-, llSeek, -⟩ := (w.layGroup input).indexGroup_ofDay input now w.seek
  have year : ((w.layGroup input).indexGroup input now w.seek).yb = w.yb :=
    (w.layGroup input).indexGroup_yb input now w.seek
  have resultSound : ({ (w.layGroup input).indexGroup input now w.seek with iOldTime := now } :
      Writer).Sound := (laid.indexGroup input now _ placed).of_eq rfl rfl rfl rfl
  have resultDated : Recorder.Dated
      ({ (w.layGroup input).indexGroup input now w.seek with iOldTime := now } : Writer).yb clock :=
    year.symm ▸ dated
  have resultDay : ({ (w.layGroup input).indexGroup input now w.seek with iOldTime := now } :
      Writer).OnDay now := by
    obtain ⟨entry, newest, place, sameDay⟩ := onDay
    exact ⟨entry, (congrArg (fun yb => yb.queued.getLast?) year).trans newest,
      place.trans llSeek.symm, sameDay⟩
  obtain ⟨recent, trace, found⟩ := (w.layGroup input).indexGroup_found input now w.seek
  refine ⟨⟨resultDated, past, fun _ => resultDay⟩, recent ++ input.groupEvents w.seek, ?_, ?_⟩
  · rw [trace, List.append_assoc]
    rfl
  intro time day sb member
  rcases List.mem_append.mp member with new | group
  · obtain ⟨rfl, sameDay, start, inTable⟩ := found time day sb new
    have table : day = ((w.layGroup input).indexGroup input time w.seek).db.llSeek :=
      sameDay.trans llSeek.symm
    refine ⟨?_, fun io stored => ?_⟩
    · obtain ⟨entry, newest, place, entryDay⟩ := resultDay
      exact ⟨entry, List.mem_of_getLast? newest, place.trans table.symm, entryDay⟩
    · have positive : 0 < w.seek := Int.lt_of_lt_of_le (by decide) sound.behind
      rw [start]
      exact isIn_of_onDay resultSound resultDated resultDay inTable positive io (table ▸ stored)
  · rcases List.mem_cons.mp group with head | media
    · cases head
    · obtain ⟨_, same, -⟩ := channelsWrites_inside _ _ _ _ media
      cases same

/-- The part of an iteration behind the day test, on the day of `now`. -/
theorem record_dated {w : Writer} {input : Input} {clock now : Nat} (sound : w.Sound)
    (dated : Recorder.Dated w.yb clock) (onDay : w.OnDay now) (past : now ≤ clock)
    (old : w.iOldTime ≤ clock)
    (keeps : (w.diskFull input.io).yb.queued.length = 1 →
      ∀ sb ∈ (w.diskFull input.io).yb.queued,
        ¬Covers sb leaveBlocks (w.diskFull input.io).seek) :
    (w.record input now).Dated clock ∧
      ∃ recent, (w.record input now).trace = recent ++ w.trace ∧
        ∀ time day sb, .indexed time day sb ∈ recent →
            Indexed (w.record input now) time day sb := by
  have placedSound := sound.diskFull input.io
  have fronts := w.diskFull_fronts input.io
  have sameYear : (w.diskFull input.io).yb = w.yb := w.diskFull_yb input.io
  have placedDay : (w.diskFull input.io).OnDay now := by
    obtain ⟨entry, newest, place, sameDay⟩ := onDay
    exact ⟨entry, sameYear ▸ newest, fronts.db ▸ place, sameDay⟩
  obtain ⟨checkedDated, checkedDay⟩ := cover_onDay input.io placedSound (sameYear ▸ dated)
    placedDay keeps
  have checkedSound := placedSound.maybeCoverDayblock input.io leaveBlocks
    (w.diskFull input.io).seek
  obtain ⟨checkedFronts, -⟩ := (w.diskFull input.io).maybeCoverDayblock_fronts input.io
    leaveBlocks (w.diskFull input.io).seek
  have allFronts := fronts.trans checkedFronts
  unfold record
  dsimp only
  split
  · rename_i checked result
    rw [result] at checkedDated checkedDay checkedSound allFronts
    obtain ⟨kept, recent, trace, indexed⟩ :=
      laid_dated input checkedSound checkedDated checkedDay past
    obtain ⟨front, frontTrace, none⟩ := allFronts.noIndex
    refine ⟨kept, recent ++ front, ?_, fun time day sb member => ?_⟩
    · rw [List.append_assoc, ← frontTrace]
      exact trace
    · rcases List.mem_append.mp member with new | early
      · exact indexed time day sb new
      · exact absurd early (none time day sb)
  · rename_i checked result
    rw [result] at checkedDated checkedDay allFronts
    obtain ⟨recent, trace, none⟩ := allFronts.noIndex
    refine ⟨⟨checkedDated, ?_, fun running => nomatch running⟩, recent, trace, ?_⟩
    · exact allFronts.iOldTime ▸ old
    · exact fun time day sb member => absurd member (none time day sb)

/-- The roll-over in front of the new table keeps the order of the days. -/
theorem closeDay_dated {w : Writer} {clock : Nat} (io : Driver) (sound : w.Sound)
    (dated : Recorder.Dated w.yb clock) :
    Recorder.Dated (w.closeDay io).2.yb clock ∧
      (∀ sb ∈ (w.closeDay io).2.yb.queued, sb ∈ w.yb.queued) ∧
      (w.closeDay io).2.yb.queueTail = w.yb.queueTail ∧
      (w.closeDay io).2.iOldTime = w.iOldTime ∧ NoIndex w.trace (w.closeDay io).2.trace := by
  have quiet : NoIndex w.trace (w.writeDay io).trace :=
    ⟨[_], rfl, fun _ _ _ member => by cases List.mem_singleton.mp member⟩
  unfold closeDay
  dsimp only
  split
  · obtain ⟨fronts, -⟩ := maybeCoverDayblock_fronts { w.writeDay io with seek := firstDaySeek } io
      dayBlocks firstDaySeek
    have noIndex := quiet.trans fronts.noIndex
    have sameTime := fronts.iOldTime
    rcases maybeCoverDayblock_cases { w.writeDay io with seek := firstDaySeek } io dayBlocks
      firstDaySeek sound.year.ring sound.year.spare with
      ⟨_, result⟩ | ⟨_, _, _, _, result⟩ | ⟨sb, rest, queue, _, result⟩
    · rw [result] at noIndex sameTime ⊢
      exact ⟨dated, fun _ member => member, rfl, sameTime, noIndex⟩
    · rw [result] at noIndex sameTime ⊢
      exact ⟨dated, fun _ member => member, rfl, sameTime, noIndex⟩
    · have some : w.yb.queueSize ≠ 0 := by
        rw [← YearBlock.queued_length]
        exact queue ▸ Nat.succ_ne_zero _
      rw [result] at noIndex sameTime ⊢
      refine ⟨dated.dequeue sound.year.ring some, fun other member => ?_, rfl, sameTime, noIndex⟩
      have inTail : other ∈ w.yb.queued.tail :=
        sound.year.ring.queued_dequeue some ▸ member
      exact List.mem_of_mem_tail inTail
  · exact ⟨dated, fun _ member => member, rfl, rfl, quiet⟩

/-- A new day, listed behind all the others, is the current one. -/
theorem openDay_dated {w : Writer} {clock now : Nat} (io : Driver) (sound : w.Sound)
    (dated : Recorder.Dated w.yb clock) (room : w.yb.queueTail + 1 < maxday) (past : now ≤ clock)
    (newer : ∀ other ∈ w.yb.queued, other.time / secofday < now / secofday) (positive : now ≠ 0) :
    Recorder.Dated (w.openDay io now).yb clock ∧ (w.openDay io now).OnDay now ∧
      (w.openDay io now).iOldTime = w.iOldTime ∧ NoIndex w.trace (w.openDay io now).trace := by
  have flat := dated.flat
  have free : w.yb.queueSize < maxday := by omega
  have notFull : w.yb.queueTail + 1 ≠ w.yb.queueHead := by omega
  have placed : w.seek ≠ 0 := by
    have first := firstDaySeek_eq
    have behind := sound.behind
    omega
  rcases w.openDay_cases io now notFull with ⟨refused, -⟩ | ⟨-, listed⟩
  · exact absurd refused (not_or.mpr ⟨positive, placed⟩)
  · rw [listed]
    refine ⟨dated.enqueue sound.year.ring _ room past newer, ⟨⟨now, w.seek⟩, ?_, rfl, rfl⟩, rfl,
      [_, _, _], rfl, fun time day sb member => ?_⟩
    · show (w.yb.enqueue ⟨now, w.seek⟩).queued.getLast? = _
      rw [sound.year.ring.queued_enqueue _ free, List.getLast?_concat]
    · simp only [List.mem_cons, List.not_mem_nil, or_false, reduceCtorEq] at member

/-- An iteration that meets the conditions keeps the invariant, and what it indexes is found. -/
theorem iterate_dated {w : Writer} {input : Input} {clock : Nat} (sound : w.Sound)
    (dated : w.Dated clock) (running : w.running = true) (later : clock ≤ input.now)
    (order : input.now ≤ input.nowAgain)
    (room : w.RollsOver input → w.yb.queueTail + 1 < maxday) (keeps : w.KeepsDay input) :
    (w.iterate input).Dated (w.lastRead input) ∧
      ∃ recent, (w.iterate input).trace = recent ++ w.trace ∧
        ∀ time day sb, .indexed time day sb ∈ recent → Indexed (w.iterate input) time day sb := by
  obtain ⟨last, newest, place, lastDay⟩ := dated.current running
  have old := dated.old
  unfold KeepsDay placed at keeps
  unfold iterate lastRead
  by_cases midnight : w.RollsOver input
  · have read : clock ≤ input.nowAgain := Nat.le_trans later order
    have laterDay : w.iOldTime / secofday < input.now / secofday :=
      Nat.lt_of_le_of_ne (Nat.div_le_div_right (Nat.le_trans old later)) (Ne.symm midnight)
    have againDay : input.now / secofday ≤ input.nowAgain / secofday := Nat.div_le_div_right order
    have positive : input.nowAgain ≠ 0 := by
      intro zero
      rw [zero, Nat.zero_div] at againDay
      exact Nat.not_lt_zero _ (Nat.lt_of_lt_of_le laterDay againDay)
    have closedSound := sound.closeDay input.io
    obtain ⟨closedDated, members, sameTail, sameTime, quiet⟩ :=
      closeDay_dated input.io sound (dated.year.later read)
    simp only [midnight, if_true] at keeps ⊢
    split
    · rename_i closed result
      simp only [result] at keeps closedSound closedDated members sameTail sameTime quiet
      have free : closed.yb.queueTail + 1 < maxday := sameTail ▸ room midnight
      have newer : ∀ other ∈ closed.yb.queued,
          other.time / secofday < input.nowAgain / secofday := by
        intro other member
        have upTo := dated.year.le_last newest (members other member)
        omega
      obtain ⟨openedDated, openedDay, openedTime, openedQuiet⟩ :=
        openDay_dated input.io closedSound closedDated free (Nat.le_refl _) newer positive
      have openedSound := closedSound.openDay input.io input.nowAgain (by
        have flat := closedDated.flat
        omega)
      obtain ⟨kept, recent, trace, indexed⟩ := record_dated openedSound openedDated openedDay
        (Nat.le_refl _) (by rw [openedTime, sameTime]; omega) (keeps _ rfl)
      obtain ⟨front, frontTrace, none⟩ := quiet.trans openedQuiet
      refine ⟨kept, recent ++ front, by rw [trace, frontTrace, List.append_assoc], ?_⟩
      intro time day sb member
      rcases List.mem_append.mp member with new | early
      · exact indexed time day sb new
      · exact absurd early (none time day sb)
    · rename_i closed result
      rw [result] at closedDated sameTime quiet
      obtain ⟨recent, trace, none⟩ := quiet
      refine ⟨⟨closedDated, ?_, fun stopped => nomatch stopped⟩, recent, trace, ?_⟩
      · rw [sameTime]
        omega
      · exact fun time day sb member => absurd member (none time day sb)
  · have sameDay : input.now / secofday = w.iOldTime / secofday := not_not.mp midnight
    simp only [midnight, if_false] at keeps ⊢
    exact record_dated sound (dated.year.later later)
      ⟨last, newest, place, lastDay.trans sameDay.symm⟩ (Nat.le_refl _) (Nat.le_trans old later)
      (keeps _ rfl)

end Writer

/-! ### Whole lives -/

/-- A start on the right day keeps the invariant. -/
theorem boot_dated {trace : List Event} {b : Boot} {w : Writer} {clock : Nat} (known : b.Known)
    (tables : TablesPlaced trace) (heads : HeadsPlaced trace)
    (years : ∀ yb, storedYear trace = some yb → YearSound yb)
    (dates : ∀ yb, storedYear trace = some yb → Dated yb clock) (later : clock ≤ b.initNow)
    (order : b.initNow ≤ b.startNow) (onDay : b.StartsOnDay trace) (up : boot trace b = some w) :
    w.Dated b.startNow := by
  obtain ⟨ready, initialized, started⟩ := Option.bind_eq_some_iff.mp up
  have disk := OnDisk.of_boot known tables heads years
  have dated : Dated (b.year trace).1 b.startNow := by
    unfold Boot.year
    rw [known.1, Option.or_none]
    cases stored : storedYear trace with
    | some yb => exact (dates yb stored).later (Nat.le_trans later order)
    | none => exact Dated.format _
  obtain ⟨listed, newest, rest⟩ := Writer.start_cases started
  obtain ⟨last, place⟩ := (init_initialized known tables heads years initialized).current _ newest
  have yearDated : Dated ready.yb b.startNow := by
    rcases init_cases initialized with ⟨sb, tail, rfl⟩ | ⟨empty, -, -, -, rfl⟩
    · exact dated
    · have none : (b.year trace).1.queueSize = 0 := YearBlock.getTail_eq_empty empty
      have room := YearBlock.room_of_getTail disk.year.ring none newest
      refine dated.enqueue disk.year.ring _ room order fun other member => ?_
      rw [List.length_eq_zero_iff.mp ((YearBlock.queued_length _).trans none)] at member
      exact absurd member List.not_mem_nil
  have past := yearDated.past listed (List.mem_of_getLast? last)
  rcases rest with ⟨sb, found, rfl⟩ | ⟨empty, rfl⟩
  · exact ⟨yearDated, past, fun _ => ⟨listed, last, place, rfl⟩⟩
  · exact ⟨yearDated, Nat.le_refl _, fun _ =>
      ⟨listed, last, place, (onDay ready initialized empty listed newest).symm⟩⟩

/-- Steps that meet the conditions are orderly. -/
theorem Machine.Agrees.orderly {m : Machine} {action : Action} (agrees : m.Agrees action)
    (dated : m.Dated) (possible : ∃ after, m.Step action after) : m.Orderly action := by
  obtain ⟨after, step⟩ := possible
  cases step with
  | boot => exact agrees.1
  | @iterate clock w input =>
    intro midnight
    have flat := (show w.Dated clock from dated).year.flat
    have room := agrees.1 midnight
    omega
  | stop => trivial
  | kill => trivial

theorem Machine.AgreeingStep.dated {m after : Machine} {action : Action}
    (step : m.AgreeingStep action after) (sound : m.Sound) (dated : m.Dated) : after.Dated := by
  obtain ⟨taken, agrees⟩ := step
  cases taken with
  | boot later order up =>
    exact boot_dated agrees.1 sound.1 sound.2.1 sound.2.2 dated later order agrees.2 up
  | iterate running later order =>
    exact (Writer.iterate_dated sound dated running later order agrees.1 agrees.2).1
  | @stop clock w io =>
    have stopped := Writer.Sound.stop sound io
    have kept : w.Dated clock := dated
    exact fun yb read => stopped.disk.written yb read ▸ kept.year
  | @kill clock w =>
    have kept : w.Dated clock := dated
    have whole : w.Sound := sound
    exact fun yb read => whole.disk.written yb read ▸ kept.year

/-- In every life from a new disk whose steps meet the conditions, every group that an iteration
indexes is indexed on the listed day of its own time, and `is_in` finds it once the table is
written. -/
theorem index_day_agreement {clock now : Nat} {actions : List Action} {w : Writer} {input : Input}
    {after : Machine} (run : Runs Machine.AgreeingStep (.off clock []) actions (.on now w))
    (step : Machine.AgreeingStep (.on now w) (.iterate input) after) :
    ∃ recent, after = .on (w.lastRead input) (w.iterate input) ∧
      (w.iterate input).trace = recent ++ w.trace ∧
      ∀ time day sb, .indexed time day sb ∈ recent → Indexed (w.iterate input) time day sb := by
  have kept : (Machine.on now w).SoundAndDated := by
    refine run.invariant ⟨new_disk_sound clock, fun _ read => nomatch read⟩ ?_
    rintro before action later taken ⟨sound, dated⟩
    exact ⟨taken.1.sound (taken.2.orderly dated ⟨_, taken.1⟩) sound, taken.dated sound dated⟩
  obtain ⟨taken, room, keeps⟩ := step
  cases taken with
  | iterate running later order =>
    obtain ⟨-, recent, trace, indexed⟩ :=
      Writer.iterate_dated kept.sound kept.dated running later order room keeps
    exact ⟨recent, rfl, trace, indexed⟩

/-- A group on the first day, a stop, and a start on the next day. The recorder goes on with the
first day, rolls over, and indexes the next group on the new day. -/
theorem index_day_agreement_next_day :
    ∃ w, Runs Machine.AgreeingStep (.off 100 [])
        [.boot ⟨60000, 100, 100, none, none, none, fun _ _ => true⟩,
          .iterate (.single 101 1000 200), .stop fun _ _ => true,
          .boot ⟨60000, 86500, 86500, none, none, none, fun _ _ => true⟩] (.on 86500 w) ∧
      w.RollsOver (.single 86501 1000 200) ∧
      ∃ recent, (w.iterate (.single 86501 1000 200)).trace = recent ++ w.trace ∧
        (∃ time day sb, .indexed time day sb ∈ recent) ∧
        ∀ time day sb, .indexed time day sb ∈ recent →
          Indexed (w.iterate (.single 86501 1000 200)) time day sb := by
  have up := boot_formatted 60000 (fun _ _ => true) 100 100 (by decide) rfl rfl rfl
  have first : Machine.AgreeingStep (.off 100 [])
      (.boot ⟨60000, 100, 100, none, none, none, fun _ _ => true⟩)
      (.on 100 (Writer.fresh 60000 (fun _ _ => true) 100 100)) := by
    refine ⟨.boot (by decide) (by decide) up, ⟨rfl, rfl⟩, ?_⟩
    intro ready initialized _ listed newest
    rw [init_formatted 60000 _ 100 100 (by decide) rfl rfl rfl] at initialized
    cases initialized
    cases (format_enqueue_getTail ⟨100, firstDaySeek⟩).symm.trans newest
    rfl
  have second : Machine.AgreeingStep (.on 100 (Writer.fresh 60000 (fun _ _ => true) 100 100))
      (.iterate (.single 101 1000 200)) (.on 101 ((Writer.fresh 60000 (fun _ _ => true) 100
        100).iterate (.single 101 1000 200))) :=
    ⟨.iterate rfl (by decide) (by decide), by decide, by decide⟩
  have newest := format_enqueue_getTail ⟨100, firstDaySeek⟩
  have initialized := @init_stopped ((Writer.fresh 60000 (fun _ _ => true) 100 100).iterate
    (.single 101 1000 200)) (fun _ _ => true) ⟨100, firstDaySeek⟩
    ⟨60000, 86500, 86500, none, none, none, fun _ _ => true⟩ (fun _ _ => rfl) newest rfl
    (Int.le_refl _)
  have again := @boot_stopped_tail ((Writer.fresh 60000 (fun _ _ => true) 100 100).iterate
    (.single 101 1000 200)) (fun _ _ => true) ⟨100, firstDaySeek⟩
    ⟨60000, 86500, 86500, none, none, none, fun _ _ => true⟩ (fun _ _ => rfl) newest rfl
    (Int.le_refl _) _ fresh_recorded_tail
  have fourth : Machine.AgreeingStep (.off 101 (((Writer.fresh 60000 (fun _ _ => true) 100
      100).iterate (.single 101 1000 200)).stop fun _ _ => true).trace)
      (.boot ⟨60000, 86500, 86500, none, none, none, fun _ _ => true⟩)
      (.on 86500 (((Writer.fresh 60000 (fun _ _ => true) 100 100).iterate
        (.single 101 1000 200)).restarted (fun _ _ => true) 60000 4072 100)) := by
    refine ⟨.boot (by decide) (by decide) again, ⟨rfl, rfl⟩, ?_⟩
    intro ready read empty
    cases initialized.symm.trans read
    cases fresh_recorded_tail.symm.trans empty
  have run := (((Runs.nil.snoc first).snoc second).snoc
    ⟨@Machine.Step.stop _ _ fun _ _ => true, trivial⟩).snoc fourth
  have step : Machine.AgreeingStep (.on 86500 (((Writer.fresh 60000 (fun _ _ => true) 100
      100).iterate (.single 101 1000 200)).restarted (fun _ _ => true) 60000 4072 100))
      (.iterate (.single 86501 1000 200)) _ :=
    ⟨.iterate rfl (by decide) (by decide), by decide, by decide⟩
  obtain ⟨recent, -, trace, indexed⟩ := index_day_agreement run step
  refine ⟨_, run, by decide, recent, trace, ⟨86501, 4072, ⟨1, 6098⟩, ?_⟩, indexed⟩
  cases recent with
  | nil => exact absurd (congrArg List.length trace) (by decide)
  | cons event recent =>
    have newest : Event.indexed 86501 4072 ⟨1, 6098⟩ = event := (List.cons.inj trace).1
    exact newest ▸ List.mem_cons_self

/-- The recorder loses power on its first day before it has recorded anything, and is started
again on the next day. It takes that day for the one of its empty table, and indexes the first
group of the new day on the old one. -/
theorem group_indexed_on_old_day :
    ∃ now w recent, Runs Machine.Step (.off 100 [])
        [.boot ⟨60000, 100, 100, none, none, none, fun _ _ => true⟩, .kill,
          .boot ⟨60000, 86500, 86500, none, none, none, fun _ _ => true⟩] (.on now w) ∧
      Machine.Step (.on now w) (.iterate (.single 86501 1000 200))
        (.on 86501 (w.iterate (.single 86501 1000 200))) ∧
      (w.iterate (.single 86501 1000 200)).trace = recent ++ w.trace ∧
      ∃ time day sb, .indexed time day sb ∈ recent ∧
        ¬∃ entry ∈ (w.iterate (.single 86501 1000 200)).yb.queued,
          entry.seek = day ∧ entry.time / secofday = time / secofday := by
  have up := boot_formatted 60000 (fun _ _ => true) 100 100 (by decide) rfl rfl rfl
  have again : boot (Writer.fresh 60000 (fun _ _ => true) 100 100).trace
      ⟨60000, 86500, 86500, none, none, none, fun _ _ => true⟩ =
        some { Writer.fresh 60000 (fun _ _ => true) 100 100 with iOldTime := 86500 } := by
    have newest := format_enqueue_getTail ⟨100, firstDaySeek⟩
    have empty : (DayBlocks.create firstDaySeek).table.getTail = .err .blockErrEmpty :=
      DayTable.getTail_blank
    have initialized := init_stored ⟨60000, 86500, 86500, none, none, none, fun _ _ => true⟩
      (fresh_storedYear 60000 100 100) newest (fresh_storedBackup 60000 100 100)
      (fresh_storedTable 60000 100 100)
    rw [boot, initialized, Option.bind_some]
    exact Writer.start_of_empty 86500 newest empty
  refine ⟨86500, _, [_, _, _, _], ((Runs.nil.snoc (.boot (by decide) (by decide) up)).snoc
    .kill).snoc (.boot (by decide) (by decide) again), .iterate rfl (by decide) (by decide), rfl,
    86501, 2046, ⟨1, 4072⟩, List.mem_cons_self, by decide⟩

end ExmOnvif.Recorder
