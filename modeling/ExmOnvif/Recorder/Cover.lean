/-
This file follows the listed day tables through the recorder's writes.

A day table stays listed in the year queue until `maybe_cover_dayblock` takes it
off, and while it is listed nothing but its own table should be written over it.
The check looks at one day only, the head of the queue, compares only where that
table starts, and is not made when a new day table is laid in the middle of the
disk. What is proved is that this is enough as long as the queue head is the only
table in the way: in every run whose iterations run into no other listed table,
every listed table stays clear of everything written since it was listed.
-/

import ExmOnvif.Library.Runs
import ExmOnvif.Recorder.Startup

namespace ExmOnvif.Recorder

open Library

/-! ### What was written since a day was listed -/

/-- A listed day: the number of its object, its entry, and the writes made since. -/
structure Listing where
  number : Nat
  day : SeekBlock
  since : List Write

/-- The listed days of a history, oldest first. -/
def listings : List Event → List Listing
  | [] => []
  | .wrote write :: trace =>
    (listings trace).map fun listing => { listing with since := write :: listing.since }
  | .listed number sb :: trace => listings trace ++ [⟨number, sb, []⟩]
  | .unlisted :: trace => (listings trace).tail
  | .indexed _ _ _ :: trace => listings trace

/-- The write is one of the table of day object `number`. -/
def Write.IsTable (write : Write) (number : Nat) : Prop :=
  match write.content with
  | .dayTable other _ => other = number
  | _ => False

instance : (write : Write) → (number : Nat) → Decidable (write.IsTable number)
  | ⟨_, _, .dayTable other _, _⟩, number => inferInstanceAs (Decidable (other = number))
  | ⟨_, _, .yearTable _, _⟩, _ => isFalse id
  | ⟨_, _, .backup _, _⟩, _ => isFalse id
  | ⟨_, _, .media, _⟩, _ => isFalse id
  | ⟨_, _, .head _, _⟩, _ => isFalse id

/-- Everything written since the day was listed is its own table or lies apart from it. -/
def Listing.Clear (listing : Listing) : Prop :=
  ∀ write ∈ listing.since,
    write.IsTable listing.number ∨ Apart listing.day.seek dayBlocks write.seek write.blocks

instance (listing : Listing) : Decidable listing.Clear :=
  inferInstanceAs (Decidable (∀ write ∈ listing.since, _))

/-! ### The condition on one iteration -/

/-- Laying the table of a new day runs into no listed table. At the end of the disk, where
the cover check is made first, the queue head is allowed to be in the way. -/
def Writer.RollOverClear (w : Writer) : Prop :=
  w.yb.queueSize + 1 < maxday ∧
    if w.hdSize - w.seek < dayBlocks then
      ∀ sb ∈ w.yb.queued.tail, Apart sb.seek dayBlocks firstDaySeek dayBlocks
    else ∀ sb ∈ w.yb.queued, Apart sb.seek dayBlocks w.seek dayBlocks

/-- Laying a group runs into no listed table but the queue head, and into that one only if
it starts inside the stretch the cover check looks at. -/
def Writer.GroupClear (w : Writer) (blocks : Int) : Prop :=
  (∀ sb ∈ w.yb.queued.tail, Apart sb.seek dayBlocks w.seek blocks) ∧
    ∀ sb ∈ w.yb.queued.head?,
      Apart sb.seek dayBlocks w.seek blocks ∨ Writer.Covers sb leaveBlocks w.seek

/-- The group condition on a writer that may not have got to the check. -/
def PlacedClear (blocks : Int) : Option Writer → Prop
  | none => True
  | some placed => placed.GroupClear blocks

/-- The condition on an iteration, read off the writer before it. -/
def Writer.RunsClear (w : Writer) (input : Input) : Prop :=
  (w.RollsOver input → w.RollOverClear) ∧ PlacedClear input.groupBlocks (w.placed input)

instance (w : Writer) : Decidable w.RollOverClear :=
  inferInstanceAs (Decidable (_ ∧ ite _ _ _))

instance (w : Writer) (blocks : Int) : Decidable (w.GroupClear blocks) :=
  inferInstanceAs (Decidable (_ ∧ _))

instance (blocks : Int) : (placed : Option Writer) → Decidable (PlacedClear blocks placed)
  | none => isTrue trivial
  | some placed => inferInstanceAs (Decidable (placed.GroupClear blocks))

instance (w : Writer) (input : Input) : Decidable (w.RunsClear input) :=
  inferInstanceAs (Decidable (_ ∧ _))

/-- One iteration that runs into no listed table but the queue head. -/
def ClearIteration (w : Writer) (input : Input) (after : Writer) : Prop :=
  Iteration w input after ∧ w.RunsClear input

/-! ### The invariant -/

/-- The history lists the days of the year queue, every listed table is clear, lies behind
the backup table, and is apart from the current day's table unless it is that table. -/
structure ListedClear (yb : YearBlock) (trace : List Event) (number : Nat) (day : Int) :
    Prop where
  ring : yb.Ring
  spare : yb.queueSize < maxday
  days : (listings trace).map Listing.day = yb.queued
  clear : ∀ listing ∈ listings trace, listing.Clear
  behind : ∀ sb ∈ yb.queued, firstDaySeek ≤ sb.seek
  current : ∀ listing ∈ listings trace,
    (listing.number = number ∧ listing.day.seek = day) ∨
      (listing.number ≤ number ∧ Apart listing.day.seek dayBlocks day dayBlocks)

namespace ListedClear

variable {yb : YearBlock} {trace : List Event} {number : Nat} {day : Int}

theorem mem_queued (inv : ListedClear yb trace number day) {listing : Listing}
    (member : listing ∈ listings trace) : listing.day ∈ yb.queued :=
  inv.days ▸ List.mem_map_of_mem member

/-- A write that is its own table or apart, listing by listing, keeps every table clear. -/
theorem wrote (inv : ListedClear yb trace number day) (write : Write)
    (safe : ∀ listing ∈ listings trace,
      write.IsTable listing.number ∨ Apart listing.day.seek dayBlocks write.seek write.blocks) :
    ListedClear yb (.wrote write :: trace) number day where
  ring := inv.ring
  spare := inv.spare
  days := by
    rw [← inv.days, listings, List.map_map]
    rfl
  clear := by
    intro listing member
    obtain ⟨before, present, rfl⟩ := List.mem_map.mp member
    intro other written
    rcases List.mem_cons.mp written with rfl | earlier
    · exact safe before present
    · exact inv.clear before present other earlier
  behind := inv.behind
  current := by
    intro listing member
    obtain ⟨before, present, rfl⟩ := List.mem_map.mp member
    exact inv.current before present

/-- A write apart from all listed tables. -/
theorem wrote_apart (inv : ListedClear yb trace number day) (write : Write)
    (apart : ∀ sb ∈ yb.queued, Apart sb.seek dayBlocks write.seek write.blocks) :
    ListedClear yb (.wrote write :: trace) number day :=
  inv.wrote write fun _ member => Or.inr (apart _ (inv.mem_queued member))

/-- A write in front of the first day table. -/
theorem wrote_front (inv : ListedClear yb trace number day) (write : Write)
    (front : write.seek + write.blocks ≤ firstDaySeek) :
    ListedClear yb (.wrote write :: trace) number day :=
  inv.wrote_apart write fun sb member => Or.inr (Int.le_trans front (inv.behind sb member))

/-- A write of the current day's table. -/
theorem wrote_day (inv : ListedClear yb trace number day) (table : DayTable) (stored : Bool) :
    ListedClear yb (.wrote ⟨day, dayBlocks, .dayTable number table, stored⟩ :: trace) number
      day := by
  refine inv.wrote _ fun listing member => ?_
  rcases inv.current listing member with ⟨same, _⟩ | ⟨_, apart⟩
  · exact Or.inl same.symm
  · exact Or.inr apart

theorem indexed (inv : ListedClear yb trace number day) (now : Nat) (place : Int)
    (sb : SeekBlock) : ListedClear yb (.indexed now place sb :: trace) number day :=
  ⟨inv.ring, inv.spare, inv.days, inv.clear, inv.behind, inv.current⟩

/-- Taking the queue head off. -/
theorem unlisted (inv : ListedClear yb trace number day) (nonempty : yb.queueSize ≠ 0) :
    ListedClear yb.dequeue (.unlisted :: trace) number day where
  ring := inv.ring.dequeue nonempty
  spare := by
    obtain ⟨count, size⟩ := Nat.exists_eq_succ_of_ne_zero nonempty
    have spare := inv.spare
    rw [YearBlock.dequeue_queueSize count size]
    omega
  days := by
    rw [listings, inv.ring.queued_dequeue nonempty, ← inv.days, List.map_tail]
  clear := fun listing member => inv.clear listing (List.mem_of_mem_tail member)
  behind := fun sb member => by
    rw [inv.ring.queued_dequeue nonempty] at member
    exact inv.behind sb (List.mem_of_mem_tail member)
  current := fun listing member => inv.current listing (List.mem_of_mem_tail member)

/-- Moving on to a new day object whose place no listed table touches. -/
theorem succ (inv : ListedClear yb trace number day) (place : Int)
    (apart : ∀ sb ∈ yb.queued, Apart sb.seek dayBlocks place dayBlocks) :
    ListedClear yb trace (number + 1) place where
  ring := inv.ring
  spare := inv.spare
  days := inv.days
  clear := inv.clear
  behind := inv.behind
  current := by
    intro listing member
    refine Or.inr ⟨?_, apart _ (inv.mem_queued member)⟩
    rcases inv.current listing member with ⟨same, _⟩ | ⟨older, _⟩ <;> omega

/-- Listing the current day. -/
theorem listed (inv : ListedClear yb trace number day) (sb : SeekBlock) (place : sb.seek = day)
    (behind : firstDaySeek ≤ day) (room : yb.queueSize + 1 < maxday) :
    ListedClear (yb.enqueue sb) (.listed number sb :: trace) number day where
  ring := inv.ring.enqueue sb (by omega)
  spare := by
    rw [← YearBlock.queued_length, inv.ring.queued_enqueue sb (by omega), List.length_append,
      YearBlock.queued_length, List.length_singleton]
    exact room
  days := by
    rw [listings, inv.ring.queued_enqueue sb (by omega), List.map_append, inv.days]
    rfl
  clear := by
    intro listing member
    rcases List.mem_append.mp member with earlier | new
    · exact inv.clear listing earlier
    · rw [List.mem_singleton.mp new]
      exact fun write written => absurd written List.not_mem_nil
  behind := by
    intro other member
    rw [inv.ring.queued_enqueue sb (by omega)] at member
    rcases List.mem_append.mp member with earlier | new
    · exact inv.behind other earlier
    · rw [List.mem_singleton.mp new, place]
      exact behind
  current := by
    intro listing member
    rcases List.mem_append.mp member with earlier | new
    · exact inv.current listing earlier
    · rw [List.mem_singleton.mp new]
      exact Or.inl ⟨rfl, place⟩

/-- A stretch of media writes inside a range apart from all listed tables. -/
theorem append_apart (inv : ListedClear yb trace number day) (events : List Event)
    (seek blocks : Int)
    (apart : ∀ sb ∈ yb.queued, Apart sb.seek dayBlocks seek blocks)
    (inside : ∀ event ∈ events, ∃ write, event = .wrote write ∧ seek ≤ write.seek ∧
      write.seek + write.blocks ≤ seek + blocks) :
    ListedClear yb (events ++ trace) number day := by
  induction events with
  | nil => exact inv
  | cons event events inductionHypothesis =>
    have rest := inductionHypothesis fun other member =>
      inside other (List.mem_cons_of_mem event member)
    obtain ⟨write, rfl, low, high⟩ := inside event List.mem_cons_self
    refine rest.wrote_apart write fun sb member => ?_
    rcases apart sb member with before | after
    · exact Or.inl (Int.le_trans before low)
    · exact Or.inr (Int.le_trans high after)

end ListedClear

/-! ### One iteration -/

/-- The invariant, read on a writer. -/
structure Writer.CoverInv (w : Writer) : Prop where
  listed : ListedClear w.yb w.trace w.number w.db.llSeek
  behind : firstDaySeek ≤ w.seek

namespace Writer.CoverInv

variable {w : Writer}

theorem writeDay (inv : w.CoverInv) (io : Driver) : (w.writeDay io).CoverInv :=
  ⟨inv.listed.wrote_day _ _, inv.behind⟩

theorem backUp (inv : w.CoverInv) (io : Driver) (table : DayTable) : (w.backUp io table).CoverInv :=
  ⟨inv.listed.wrote_front _ backup_front, inv.behind⟩

theorem uncovered (inv : w.CoverInv) (io : Driver) (some : w.yb.queueSize ≠ 0) :
    (w.uncovered io).CoverInv := by
  refine ⟨?_, inv.behind⟩
  exact ((inv.listed.wrote_front _ backup_front).unlisted some).wrote_front _ year_front

/-- A passed cover check keeps the invariant. Past it, the queue is what it was or has lost
its head, and the head is still there only if it does not start in the checked stretch. -/
theorem maybeCoverDayblock (inv : w.CoverInv) (io : Driver) (blocks seek : Int) :
    (w.maybeCoverDayblock io blocks seek).2.CoverInv ∧
      (w.maybeCoverDayblock io blocks seek).2.seek = w.seek ∧
      (w.maybeCoverDayblock io blocks seek).2.yb.queueSize ≤ w.yb.queueSize ∧
      ((w.maybeCoverDayblock io blocks seek).1 = .ok () →
        ∀ sb ∈ (w.maybeCoverDayblock io blocks seek).2.yb.queued,
          sb ∈ w.yb.queued.tail ∨ w.yb.queued.head? = some sb ∧ ¬Covers sb blocks seek) := by
  rcases w.maybeCoverDayblock_cases io blocks seek inv.listed.ring inv.listed.spare with
    ⟨_, result⟩ | ⟨sb, rest, queue, passes, result⟩ | ⟨sb, rest, queue, _, result⟩
  · rw [result]
    exact ⟨inv, rfl, Nat.le_refl _, fun failed => by cases failed⟩
  · rw [result]
    refine ⟨inv, rfl, Nat.le_refl _, fun _ other member => ?_⟩
    rw [queue] at member ⊢
    rcases List.mem_cons.mp member with rfl | later
    · exact Or.inr ⟨rfl, passes⟩
    · exact Or.inl later
  · have some : w.yb.queueSize ≠ 0 := by
      rw [← YearBlock.queued_length, queue]
      exact Nat.succ_ne_zero _
    have tail := inv.listed.ring.queued_dequeue some
    rw [result]
    refine ⟨inv.uncovered io some, rfl, ?_, fun _ other member => Or.inl (tail ▸ member)⟩
    show w.yb.dequeue.queueSize ≤ _
    rw [← YearBlock.queued_length, tail, List.length_tail, YearBlock.queued_length]
    exact Nat.sub_le _ _

/-- A table that starts behind a stretch and is not covered by it lies apart from it. -/
theorem apart_of_not_covers {sb : SeekBlock} {blocks seek : Int} (behind : seek ≤ sb.seek)
    (passes : ¬Covers sb blocks seek) : Apart sb.seek dayBlocks seek blocks := by
  have far : blocks < sb.seek - seek := by
    by_contra near
    exact passes ⟨by omega, by omega⟩
  exact Or.inr (by omega)

/-- The roll-over in front of the new table leaves a place that no listed table touches. -/
theorem closeDay (inv : w.CoverInv) (io : Driver) (rolls : w.RollOverClear) :
    (w.closeDay io).2.CoverInv ∧
      ((w.closeDay io).1 = .ok () →
        (w.closeDay io).2.yb.queueSize + 1 < maxday ∧
          ∀ sb ∈ (w.closeDay io).2.yb.queued,
            Apart sb.seek dayBlocks (w.closeDay io).2.seek dayBlocks) := by
  obtain ⟨room, clear⟩ := rolls
  unfold Writer.closeDay
  by_cases short : w.hdSize - w.seek < dayBlocks
  · have moved : ({ w.writeDay io with seek := firstDaySeek } : Writer).CoverInv :=
      ⟨(inv.writeDay io).listed, Int.le_refl _⟩
    obtain ⟨kept, same, fewer, left⟩ := moved.maybeCoverDayblock io dayBlocks firstDaySeek
    rw [if_pos short] at clear
    simp only [short, if_true]
    refine ⟨kept, fun passed => ⟨?_, fun sb member => ?_⟩⟩
    · exact Nat.lt_of_le_of_lt (Nat.succ_le_succ fewer) room
    rw [same]
    rcases left passed sb member with later | ⟨head, passes⟩
    · exact clear sb later
    · exact apart_of_not_covers (inv.listed.behind sb (List.mem_of_mem_head? head)) passes
  · rw [if_neg short] at clear
    simp only [short, if_false]
    exact ⟨inv.writeDay io, fun _ => ⟨room, clear⟩⟩

/-- The new day's table goes to a free place and its listing into a free slot. -/
theorem openDay (inv : w.CoverInv) (io : Driver) (now : Nat) (room : w.yb.queueSize + 1 < maxday)
    (apart : ∀ sb ∈ w.yb.queued, Apart sb.seek dayBlocks w.seek dayBlocks) :
    (w.openDay io now).CoverInv := by
  have blocks := dayBlocks_eq
  have behind := inv.behind
  have written := (inv.listed.succ w.seek apart).wrote_day DayTable.blank (io w.seek dayBlocks)
  have notFull : w.yb.queueTail + 1 ≠ w.yb.queueHead := by
    rw [Ne, inv.listed.ring.full_test_iff]
    omega
  refine ⟨?_, ?_⟩
  · rcases w.openDay_cases io now notFull with ⟨_, unlisted⟩ | ⟨_, listed⟩
    · rw [unlisted]
      exact written
    · rw [listed]
      exact (written.listed ⟨now, w.seek⟩ rfl behind room).wrote_front _ year_front
  · show firstDaySeek ≤ w.seek + dayBlocks
    omega

theorem diskFull (inv : w.CoverInv) (io : Driver) : (w.diskFull io).CoverInv := by
  unfold Writer.diskFull
  split
  · split
    · exact ⟨(inv.backUp io w.db.table).listed, first_day_front⟩
    · exact ⟨inv.listed, Int.le_refl _⟩
  · exact inv

/-- A group laid apart from all listed tables keeps them clear. -/
theorem layGroup (inv : w.CoverInv) (input : Input)
    (apart : ∀ sb ∈ w.yb.queued, Apart sb.seek dayBlocks w.seek input.groupBlocks) :
    (w.layGroup input).CoverInv := by
  have blocks := channelsBlocks_nonneg input.group
  have behind := inv.behind
  have laid : ListedClear w.yb (channelsWrites input.io (w.seek + 1) input.group ++ w.trace)
      w.number w.db.llSeek := by
    refine inv.listed.append_apart _ w.seek input.groupBlocks apart fun event member => ?_
    obtain ⟨write, same, low, high⟩ := channelsWrites_inside _ _ _ event member
    exact ⟨write, same, by omega, by rw [Input.groupBlocks]; omega⟩
  refine ⟨laid.wrote_apart _ fun sb member => ?_, ?_⟩
  · show Apart sb.seek dayBlocks w.seek 1
    rcases apart sb member with before | after
    · exact Or.inl before
    · refine Or.inr ?_
      rw [Input.groupBlocks] at after
      omega
  · show firstDaySeek ≤ w.seek + input.groupBlocks
    rw [Input.groupBlocks]
    omega

theorem indexGroup (inv : w.CoverInv) (input : Input) (now : Nat) (start : Int) :
    (w.indexGroup input now start).CoverInv := by
  rcases w.indexGroup_cases input now start with same | stopped | ⟨-, noted | written | failed⟩
  · rw [same]
    exact inv
  · rw [stopped]
    exact ⟨inv.listed, inv.behind⟩
  · rw [noted]
    exact ⟨inv.listed.indexed _ _ _, inv.behind⟩
  · rw [written]
    exact ⟨(inv.listed.indexed _ _ _).wrote_day _ _, inv.behind⟩
  · rw [failed]
    exact ⟨inv.listed.wrote_day _ _, inv.behind⟩

/-- The part of an iteration behind the day test. -/
theorem record (inv : w.CoverInv) (input : Input) (now : Nat)
    (group : (w.diskFull input.io).GroupClear input.groupBlocks) :
    (w.record input now).CoverInv := by
  obtain ⟨tailApart, headApart⟩ := group
  obtain ⟨kept, same, -, left⟩ :=
    (inv.diskFull input.io).maybeCoverDayblock input.io leaveBlocks (w.diskFull input.io).seek
  unfold Writer.record
  simp only
  split
  · rename_i checked passed
    rw [passed] at kept same left
    have apart : ∀ sb ∈ checked.yb.queued,
        Apart sb.seek dayBlocks checked.seek input.groupBlocks := by
      intro sb member
      rw [same]
      rcases left rfl sb member with later | ⟨head, passes⟩
      · exact tailApart sb later
      · exact (headApart sb head).resolve_right passes
    have recorded := (kept.layGroup input apart).indexGroup input now checked.seek
    exact ⟨recorded.listed, recorded.behind⟩
  · rename_i checked failed
    rw [failed] at kept
    exact ⟨kept.listed, kept.behind⟩

/-- One iteration that runs into no listed table but the queue head keeps the invariant. -/
theorem iterate (inv : w.CoverInv) (input : Input) (clear : w.RunsClear input) :
    (w.iterate input).CoverInv := by
  obtain ⟨rolls, group⟩ := clear
  unfold Writer.iterate
  unfold Writer.placed at group
  by_cases midnight : w.RollsOver input
  · obtain ⟨kept, left⟩ := inv.closeDay input.io (rolls midnight)
    simp only [midnight, if_true] at group ⊢
    split
    · rename_i closed passed
      simp only [passed] at group kept left
      obtain ⟨room, apart⟩ := left trivial
      exact (kept.openDay input.io input.nowAgain room apart).record input _ group
    · rename_i closed failed
      rw [failed] at kept
      exact ⟨kept.listed, kept.behind⟩
  · simp only [midnight, if_false] at group ⊢
    exact inv.record input input.now group

end Writer.CoverInv

/-! ### Runs from a new disk -/

theorem Writer.fresh_coverInv (hdSize : Int) (io : Driver) (initNow startNow : Nat) :
    (Writer.fresh hdSize io initNow startNow).CoverInv := by
  have empty : ListedClear YearBlock.format (formatTrace io) 0 firstDaySeek :=
    { ring := YearBlock.format_ring
      spare := by decide
      days := rfl
      clear := fun _ member => absurd member List.not_mem_nil
      behind := fun _ member => absurd member List.not_mem_nil
      current := fun _ member => absurd member List.not_mem_nil }
  have listed := empty.listed ⟨initNow, firstDaySeek⟩ rfl (Int.le_refl _) (by decide)
  exact ⟨listed.wrote_front _ year_front, first_day_front⟩

/-- From a new disk, in every run whose iterations run into no listed table but the queue
head, the history lists the days of the year queue, and each of their tables is clear of
everything written since it was listed, its own writes apart. -/
theorem listed_days_stay_clear {hdSize : Int} {io : Driver} {initNow startNow : Nat}
    {start w : Writer} {inputs : List Input}
    (started : startFormatted hdSize io initNow startNow = some start)
    (run : Runs ClearIteration start inputs w) :
    (listings w.trace).map Listing.day = w.yb.queued ∧
      ∀ listing ∈ listings w.trace, listing.Clear := by
  obtain ⟨-, rfl⟩ := startFormatted_eq_some started
  have inv : w.CoverInv := by
    refine run.invariant (Writer.fresh_coverInv hdSize io initNow startNow) ?_
    rintro before input after ⟨⟨_, rfl⟩, clear⟩ kept
    exact kept.iterate input clear
  exact ⟨inv.listed.days, inv.listed.clear⟩

/-- One group on the day of the start, and one behind midnight. Behind the table of the new day
the disk is full, and the cover check takes the first day off. -/
theorem listed_days_stay_clear_over_midnight :
    ∃ start w, startFormatted 13300 (fun _ _ => true) 100 100 = some start ∧
      Runs ClearIteration start [.single 101 1000 200, .single 86500 1000 200] w ∧
      start.yb.queued = [⟨100, 2046⟩] ∧ w.yb.queued = [⟨86500, 4076⟩] ∧
      (listings w.trace).map Listing.day = w.yb.queued ∧
      ∀ listing ∈ listings w.trace, listing.Clear := by
  have started := startFormatted_eq 13300 (fun _ _ => true) 100 100 (by decide) (by decide)
  have first : ClearIteration (Writer.fresh 13300 (fun _ _ => true) 100 100)
      (.single 101 1000 200) _ := ⟨⟨rfl, rfl⟩, by decide⟩
  have second : ClearIteration ((Writer.fresh 13300 (fun _ _ => true) 100 100).iterate
      (.single 101 1000 200)) (.single 86500 1000 200) _ := ⟨⟨rfl, rfl⟩, by decide⟩
  have run := (Runs.nil.snoc first).snoc second
  exact ⟨_, _, started, run, rfl, rfl, listed_days_stay_clear started run⟩

/-- The check looks at the queue head only. On this disk the first group of a new day goes back
to the first day table, takes that day off, and runs into the table of the new day. -/
theorem listed_day_overwritten :
    ∃ start w, startFormatted 13300 (fun _ _ => true) 100 100 = some start ∧
      Runs Iteration start [.single 86500 1100000 200] w ∧
      ∃ listing ∈ listings w.trace, listing.day ∈ w.yb.queued ∧ ¬listing.Clear := by
  have started := startFormatted_eq 13300 (fun _ _ => true) 100 100 (by decide) (by decide)
  have step : Iteration (Writer.fresh 13300 (fun _ _ => true) 100 100)
      (.single 86500 1100000 200) _ := ⟨rfl, rfl⟩
  exact ⟨_, _, started, Runs.nil.snoc step, by decide⟩

end ExmOnvif.Recorder
