/-
This file is about where the indexed groups lie, seen from a position on the disk.

The groups of a day follow its table. They are behind the write position until that
comes round, and from then on ahead of it, behind the table it meets first. A table
whose groups lie like this is out of the way of the position, and stays so when the
position moves on past something that leaves the table readable.
-/

import ExmOnvif.Recorder.Machine

namespace ExmOnvif.Recorder

open Library

/-! ### What a day table points at -/

/-- The newest group laid at `seek`. -/
def newestGroup (trace : List Event) (seek : Int) : Option HeadBlock :=
  ((groups trace).find? fun group => group.1 = seek).map Prod.snd

/-- The place of a group has a newest group, and it is not empty. -/
theorem newestGroup_of_mem {trace : List Event} (heads : HeadsPlaced trace) {seek : Int}
    {block : HeadBlock} (member : (seek, block) ∈ groups trace) :
    ∃ newest, newestGroup trace seek = some newest ∧ seek < newest.nextMultMediaBlock := by
  cases found : (groups trace).find? fun group => group.1 = seek with
  | none =>
    have missed := List.find?_eq_none.mp found _ member
    exact absurd (decide_eq_true rfl) missed
  | some group =>
    have same : group.1 = seek := by simpa using List.find?_some found
    refine ⟨group.2, congrArg (Option.map Prod.snd) found, ?_⟩
    rw [← same]
    exact heads group (List.mem_of_find?_eq_some found)

theorem newestGroup_append {events : List Event} (none : groups events = []) (trace : List Event)
    (seek : Int) : newestGroup (events ++ trace) seek = newestGroup trace seek := by
  rw [newestGroup, newestGroup, groups_append, none, List.nil_append]

theorem newestGroup_laid (input : Input) (start : Int) (trace : List Event) (seek : Int) :
    newestGroup (input.groupEvents start ++ trace) seek =
      if seek = start then some (input.headBlock start) else newestGroup trace seek := by
  have laid : groups (input.groupEvents start ++ trace) =
      (start, input.headBlock start) :: groups trace := by
    rw [groups_append, Input.groupEvents, groups, groups_channelsWrites]
    rfl
  rw [newestGroup, laid, List.find?_cons]
  by_cases same : seek = start
  · simp only [same, decide_true, if_true, Option.map_some]
  · have other : decide (start = seek) = false := decide_eq_false fun equal => same equal.symm
    simp only [other, if_neg same, newestGroup]

/-- An event that is not the write of a day table. -/
def Event.Tableless : Event → Prop
  | .wrote ⟨_, _, .dayTable _ _, _⟩ => False
  | _ => True

theorem Event.Front.tableless {event : Event} (front : event.Front) : event.Tableless := by
  rcases event with ⟨_, _, content, _⟩ | _ | _ | _
  · cases content with
    | dayTable => exact front
    | _ => trivial
  all_goals trivial

/-- A table read back behind other writes was there before, and they are apart from it. -/
theorem storedTable_append {events trace : List Event} {day : Int} {table : DayTable}
    (tableless : ∀ event ∈ events, event.Tableless)
    (read : storedTable (events ++ trace) day = some table) :
    (∀ write, .wrote write ∈ events → Apart write.seek write.blocks day dayBlocks) ∧
      storedTable trace day = some table := by
  induction events with
  | nil => exact ⟨fun _ member => absurd member List.not_mem_nil, read⟩
  | cons event events inductionHypothesis =>
    have others := fun other member => tableless other (List.mem_cons_of_mem event member)
    have first := tableless event List.mem_cons_self
    rcases event with write | _ | _ | _
    · by_cases apart : Apart write.seek write.blocks day dayBlocks
      · rw [storedTable, List.cons_append, newestWrite_of_apart apart] at read
        obtain ⟨rest, before⟩ := inductionHypothesis others read
        refine ⟨fun other member => ?_, before⟩
        rcases List.mem_cons.mp member with same | later
        · cases same
          exact apart
        · exact rest other later
      · rw [storedTable, List.cons_append, newestWrite_self apart] at read
        obtain ⟨_, _, content, stored⟩ := write
        cases content with
        | dayTable => exact absurd first id
        | _ => cases read
    all_goals
      obtain ⟨rest, before⟩ := inductionHypothesis others read
      refine ⟨fun other member => rest other ?_, before⟩
      rcases List.mem_cons.mp member with same | later
      · cases same
      · exact later

/-- A table read back behind the write of a table is that one, or was there before. -/
theorem storedTable_wrote {trace : List Event} {seek day : Int} {number : Nat}
    {written table : DayTable} {stored : Bool}
    (read : storedTable (.wrote ⟨seek, dayBlocks, .dayTable number written, stored⟩ :: trace) day =
      some table) :
    seek = day ∧ table = written ∨
      Apart seek dayBlocks day dayBlocks ∧ storedTable trace day = some table := by
  by_cases apart : Apart seek dayBlocks day dayBlocks
  · rw [storedTable, newestWrite_of_apart apart] at read
    exact Or.inr ⟨apart, read⟩
  · rw [storedTable, newestWrite_self apart] at read
    cases stored with
    | false => cases read
    | true =>
      dsimp only at read
      split at read
      · rename_i same
        exact Or.inl ⟨same, (Option.some.inj read).symm⟩
      · cases read

/-! ### Groups without a gap -/

/-- Two stretches in a row that are apart from a day table are apart from it together. -/
theorem Apart.add {seek first second day : Int} (left : Apart seek first day dayBlocks)
    (right : Apart (seek + first) second day dayBlocks) :
    Apart seek (first + second) day dayBlocks := by
  have blocks := dayBlocks_eq
  unfold Apart at left right ⊢
  omega

theorem Channel.apart_of_writes {io : Driver} {seek day : Int} {channel : Channel}
    (beside : Apart seek 0 day dayBlocks)
    (apart : ∀ write, .wrote write ∈ channel.writes io seek →
      Apart write.seek write.blocks day dayBlocks) : Apart seek channel.blocks day dayBlocks := by
  obtain ⟨_ | video, _ | audio⟩ := channel
  · exact beside
  · exact beside
  · have only := apart _ List.mem_cons_self
    show Apart seek (mediaBlocks video + 0) day dayBlocks
    rw [Int.add_zero]
    exact only
  · exact (apart _ (List.mem_cons_of_mem _ List.mem_cons_self)).add (apart _ List.mem_cons_self)

/-- The writes of a group's channels leave no gap. -/
theorem channels_apart_of_writes {io : Driver} {channels : List Channel} {seek day : Int}
    (beside : Apart seek 0 day dayBlocks)
    (apart : ∀ write, .wrote write ∈ channelsWrites io seek channels →
      Apart write.seek write.blocks day dayBlocks) :
    Apart seek (channelsBlocks channels) day dayBlocks := by
  induction channels generalizing seek with
  | nil => exact beside
  | cons channel channels inductionHypothesis =>
    have first := Channel.apart_of_writes beside fun write member =>
      apart write (List.mem_append_right _ member)
    have next : Apart (seek + channel.blocks) 0 day dayBlocks := by
      have blocks := channel.blocks_nonneg
      unfold Apart at first ⊢
      omega
    exact first.add (inductionHypothesis next fun write member =>
      apart write (List.mem_append_left _ member))

/-- A table that can be read back behind a group lies apart from all of its blocks. -/
theorem apart_of_group {input : Input} {start day : Int} {trace : List Event} {table : DayTable}
    (read : storedTable (input.groupEvents start ++ trace) day = some table) :
    Apart start input.groupBlocks day dayBlocks ∧ storedTable trace day = some table := by
  have tableless : ∀ event ∈ input.groupEvents start, event.Tableless := by
    intro event member
    rcases List.mem_cons.mp member with rfl | media
    · trivial
    · obtain ⟨write, rfl, -, -⟩ := channelsWrites_inside _ _ _ _ media
      have content := channelsWrites_media _ _ _ _ media
      obtain ⟨_, _, _, _⟩ := write
      cases content
      trivial
  obtain ⟨apart, before⟩ := storedTable_append tableless read
  have head := apart _ List.mem_cons_self
  have next : Apart (start + 1) 0 day dayBlocks := by
    unfold Apart at head ⊢
    dsimp only at head
    omega
  exact ⟨head.add (channels_apart_of_writes next fun write member =>
    apart write (List.mem_cons_of_mem _ member)), before⟩

/-! ### Out of the way of a position -/

/-- The group of an entry of the table at `day` lies behind that table, and the position `place`
is past the group or in front of the table; or the position has come round to the front of the
table, and the group was laid there in front of the position. -/
def SeekBlock.OutOfWay (sb : SeekBlock) (trace : List Event) (day place : Int) : Prop :=
  sb.Filled → ∀ block, newestGroup trace sb.seek = some block →
    day + dayBlocks ≤ sb.seek ∧ (block.nextMultMediaBlock ≤ place ∨ place ≤ day) ∨
      place ≤ day ∧ block.nextMultMediaBlock ≤ place

/-- The group of an entry is apart from the table at `day`. -/
def SeekBlock.Beside (sb : SeekBlock) (trace : List Event) (day : Int) : Prop :=
  sb.Filled → ∀ block, newestGroup trace sb.seek = some block →
    day + dayBlocks ≤ sb.seek ∨ block.nextMultMediaBlock ≤ day

/-- The entry points at a group that holds the block `place`: its head block or one of the
media blocks behind it. -/
def SeekBlock.Over (sb : SeekBlock) (trace : List Event) (place : Int) : Prop :=
  sb.Filled ∧ ∃ block, newestGroup trace sb.seek = some block ∧
    sb.seek ≤ place ∧ place < block.nextMultMediaBlock

namespace SeekBlock

variable {sb : SeekBlock} {trace : List Event} {day place : Int}

theorem OutOfWay.beside (away : sb.OutOfWay trace day place) : sb.Beside trace day := by
  intro filled block newest
  have cases := away filled block newest
  omega

theorem OutOfWay.not_over (away : sb.OutOfWay trace day place) : ¬sb.Over trace place := by
  rintro ⟨filled, block, newest, inside⟩
  have blocks := dayBlocks_eq
  have cases := away filled block newest
  omega

/-- The block behind a table is inside a group of that table only where the group starts. -/
theorem Beside.not_over (beside : sb.Beside trace day) (elsewhere : sb.seek ≠ day + dayBlocks) :
    ¬sb.Over trace (day + dayBlocks) := by
  rintro ⟨filled, block, newest, inside⟩
  have blocks := dayBlocks_eq
  have cases := beside filled block newest
  omega

/-- The position moves on past something laid apart from the table. -/
theorem OutOfWay.advance (away : sb.OutOfWay trace day place) {blocks : Int}
    (apart : Apart place blocks day dayBlocks) (nonneg : 0 ≤ blocks) :
    sb.OutOfWay trace day (place + blocks) := by
  intro filled block newest
  have length := dayBlocks_eq
  have cases := away filled block newest
  unfold Apart at apart
  omega

/-- The position goes back in front of the table, from behind it. -/
theorem OutOfWay.back (away : sb.OutOfWay trace day place) {front : Int} (ahead : front ≤ day)
    (past : day < place) : sb.OutOfWay trace day front := by
  intro filled block newest
  have cases := away filled block newest
  omega

/-- No group was laid at the position yet. -/
theorem OutOfWay.seek_ne (away : sb.OutOfWay trace day place) (heads : HeadsPlaced trace)
    (placed : Placed trace sb) (filled : sb.Filled) : sb.seek ≠ place := by
  obtain ⟨-, block, member, -⟩ := placed.of_filled filled
  obtain ⟨newest, there, nonempty⟩ := newestGroup_of_mem heads member
  have blocks := dayBlocks_eq
  have cases := away filled newest there
  omega

/-- A group laid elsewhere changes nothing. -/
theorem OutOfWay.laid (away : sb.OutOfWay trace day place) {input : Input} {start : Int}
    (elsewhere : sb.Filled → sb.seek ≠ start) :
    sb.OutOfWay (input.groupEvents start ++ trace) day place := by
  intro filled block newest
  rw [newestGroup_laid, if_neg (elsewhere filled)] at newest
  exact away filled block newest

theorem OutOfWay.append (away : sb.OutOfWay trace day place) {events : List Event}
    (none : groups events = []) : sb.OutOfWay (events ++ trace) day place := by
  intro filled block newest
  rw [newestGroup_append none] at newest
  exact away filled block newest

theorem Beside.append (beside : sb.Beside trace day) {events : List Event}
    (none : groups events = []) : sb.Beside (events ++ trace) day := by
  intro filled block newest
  rw [newestGroup_append none] at newest
  exact beside filled block newest

theorem OutOfWay.of_empty (empty : ¬sb.Filled) : sb.OutOfWay trace day place :=
  fun filled => absurd filled empty

end SeekBlock

/-- The groups of the table on the disk at `day` are out of the way of `place`. -/
def TableOutOfWay (trace : List Event) (day place : Int) : Prop :=
  ∀ table, storedTable trace day = some table →
    ∀ slot, (table.slots slot).OutOfWay trace day place

/-- Every table that can be read back is apart from its groups. -/
def TablesBeside (trace : List Event) : Prop :=
  ∀ day table, storedTable trace day = some table → ∀ slot, (table.slots slot).Beside trace day

namespace TableOutOfWay

variable {trace : List Event} {day place : Int}

theorem append (away : TableOutOfWay trace day place) {events : List Event}
    (tableless : ∀ event ∈ events, event.Tableless) (none : groups events = []) :
    TableOutOfWay (events ++ trace) day place :=
  fun table read slot => (away table (storedTable_append tableless read).2 slot).append none

theorem front (away : TableOutOfWay trace day place) {events : List Event}
    (front : ∀ event ∈ events, event.Front) : TableOutOfWay (events ++ trace) day place :=
  away.append (fun event member => (front event member).tableless) (groups_front front)

/-- Another table is laid, or this one again. -/
theorem wrote (away : TableOutOfWay trace day place) {seek : Int} (number : Nat)
    {written : DayTable} (stored : Bool)
    (same : seek = day → ∀ slot, (written.slots slot).OutOfWay trace day place) :
    TableOutOfWay (.wrote ⟨seek, dayBlocks, .dayTable number written, stored⟩ :: trace) day
      place := by
  intro table read slot
  rcases storedTable_wrote read with ⟨here, rfl⟩ | ⟨-, before⟩
  · exact @SeekBlock.OutOfWay.append _ _ _ _ (same here slot) [_] rfl
  · exact @SeekBlock.OutOfWay.append _ _ _ _ (away table before slot) [_] rfl

/-- The position moves on past a table just laid. -/
theorem advance_wrote (away : TableOutOfWay trace day place) (number : Nat) {written : DayTable}
    (stored : Bool) (empty : ∀ slot, ¬(written.slots slot).Filled) :
    TableOutOfWay (.wrote ⟨place, dayBlocks, .dayTable number written, stored⟩ :: trace) day
      (place + dayBlocks) := by
  intro table read slot
  rcases storedTable_wrote read with ⟨-, rfl⟩ | ⟨apart, before⟩
  · exact .of_empty (empty slot)
  · exact @SeekBlock.OutOfWay.append _ _ _ _ ((away table before slot).advance apart (by decide))
      [_] rfl

theorem back (away : TableOutOfWay trace day place) {front : Int} (ahead : front ≤ day)
    (past : day < place) : TableOutOfWay trace day front :=
  fun table read slot => (away table read slot).back ahead past

/-- A group at the position is laid over no group of the table. -/
theorem laid {start : Int} (here : TableOutOfWay trace day start)
    (away : TableOutOfWay trace day place) (tables : TablesPlaced trace)
    (heads : HeadsPlaced trace) (input : Input) :
    TableOutOfWay (input.groupEvents start ++ trace) day place := by
  intro table read slot
  obtain ⟨-, before⟩ := apart_of_group read
  obtain ⟨_, _, member⟩ := storedTable_mem before
  exact (away table before slot).laid
    ((here table before slot).seek_ne heads (tables _ _ _ _ _ member slot))

/-- The position moves on past the group. -/
theorem advance_laid (away : TableOutOfWay trace day place) (tables : TablesPlaced trace)
    (heads : HeadsPlaced trace) (input : Input) :
    TableOutOfWay (input.groupEvents place ++ trace) day (place + input.groupBlocks) := by
  intro table read slot
  obtain ⟨apart, before⟩ := apart_of_group read
  exact (away.laid away tables heads input table read slot).advance apart
    (Int.le_of_lt input.groupBlocks_pos)

end TableOutOfWay

namespace TablesBeside

variable {trace : List Event}

theorem append (beside : TablesBeside trace) {events : List Event}
    (tableless : ∀ event ∈ events, event.Tableless) (none : groups events = []) :
    TablesBeside (events ++ trace) :=
  fun day table read slot =>
    (beside day table (storedTable_append tableless read).2 slot).append none

theorem wrote (beside : TablesBeside trace) {seek : Int} (number : Nat) {written : DayTable}
    (stored : Bool) (new : ∀ slot, (written.slots slot).Beside trace seek) :
    TablesBeside (.wrote ⟨seek, dayBlocks, .dayTable number written, stored⟩ :: trace) := by
  intro day table read slot
  rcases storedTable_wrote read with ⟨rfl, rfl⟩ | ⟨-, before⟩
  · exact @SeekBlock.Beside.append _ _ _ (new slot) [_] rfl
  · exact @SeekBlock.Beside.append _ _ _ (beside day table before slot) [_] rfl

/-- A blank table has no groups. -/
theorem wrote_blank (beside : TablesBeside trace) (seek : Int) (number : Nat) (stored : Bool) :
    TablesBeside (.wrote ⟨seek, dayBlocks, .dayTable number DayTable.blank, stored⟩ :: trace) :=
  beside.wrote number stored fun _ filled => absurd filled SeekBlock.not_filled_zero

/-- A group that leaves a table readable is laid apart from it. -/
theorem laid (beside : TablesBeside trace) (input : Input) (start : Int) :
    TablesBeside (input.groupEvents start ++ trace) := by
  intro day table read slot filled block newest
  obtain ⟨apart, before⟩ := apart_of_group read
  rw [newestGroup_laid] at newest
  split at newest
  · rename_i same
    cases newest
    rw [same]
    exact Or.symm apart
  · exact beside day table before slot filled block newest

end TablesBeside

end ExmOnvif.Recorder
