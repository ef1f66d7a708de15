/-
This file is about where a restarted recorder goes on.

`writedata` takes the position from the last entry `GetTail` finds in the current
day's table. That entry is where the last indexed group starts, not where it ends,
so the first group after a restart is laid over it, unless the cover check takes
off the only listed day. Where the table has no entry the recorder goes on behind
the table, and no group of another day that is still listed lies there.
-/

import ExmOnvif.Recorder.Spacing

namespace ExmOnvif.Recorder

open Library

/-! ### Groups under the index -/

/-- The block `place` is inside a group that one of the days still indexes. -/
def IndexedOver (trace : List Event) (days : List SeekBlock) (place : Int) : Prop :=
  ∃ day ∈ days, ∃ table, storedTable trace day.seek = some table ∧
    ∃ slot, (table.slots slot).Over trace place

/-! ### The condition -/

/-- The days that stay listed behind the cover check in front of a group at `place`. -/
def staying (days : List SeekBlock) (place : Int) : List SeekBlock :=
  match days with
  | [] => []
  | day :: later => if Writer.Covers day leaveBlocks place then later else day :: later

namespace Writer

/-- The start goes on inside a group of the current day: `GetTail` finds an entry, or the entry
it does not look at, that of second `0`, is the group right behind the table. -/
def GoesOnInside (w : Writer) : Prop :=
  (∃ sb, w.db.table.getTail = .ok sb) ∨
    (w.db.table.slots 0).Filled ∧ (w.db.table.slots 0).seek = w.db.llSeek + dayBlocks

/-- The first group behind a start is laid on no indexed one: the start goes on inside a group
only if the cover check takes off the only listed day, and at the end of the disk it goes back
past all tables, with no entry in the current one. -/
structure RestartSafe (w : Writer) : Prop where
  inside : w.GoesOnInside → staying w.yb.queued w.seek = []
  back : w.hdSize - w.seek < leaveBlocks →
    (∀ slot, ¬(w.db.table.slots slot).Filled) ∧ w.Swept w.groupPlace

/-- A start on a blank table goes on inside no group. -/
theorem RestartSafe.of_blank {w : Writer} (blank : w.db.table = DayTable.blank)
    (room : leaveBlocks ≤ w.hdSize - w.seek) : w.RestartSafe := by
  refine ⟨?_, fun short => absurd room (Int.not_le.mpr short)⟩
  rintro (⟨sb, found⟩ | ⟨filled, -⟩)
  · rw [blank, DayTable.getTail_blank] at found
    cases found
  · rw [blank] at filled
    exact absurd filled SeekBlock.not_filled_zero

/-- A passed cover check leaves the staying days listed. -/
theorem queued_of_passed {w checked : Writer} {io : Driver} {place : Int} (ring : w.yb.Ring)
    (spare : w.yb.queueSize < maxday)
    (passed : w.maybeCoverDayblock io leaveBlocks place = (.ok (), checked)) :
    checked.yb.queued = staying w.yb.queued place := by
  rcases w.maybeCoverDayblock_cases io leaveBlocks place ring spare with
    ⟨_, result⟩ | ⟨day, later, queue, passes, result⟩ | ⟨day, later, queue, covers, result⟩
  · rw [result] at passed
    cases passed
  · rw [result] at passed
    cases passed
    rw [queue, staying, if_neg passes]
  · have some : w.yb.queueSize ≠ 0 := by
      rw [← YearBlock.queued_length, queue]
      exact Nat.succ_ne_zero _
    rw [result] at passed
    cases (Prod.mk.inj passed).2
    show w.yb.dequeue.queued = _
    rw [ring.queued_dequeue some, queue, staying, if_pos covers, List.tail_cons]

end Writer

theorem staying_subset {days : List SeekBlock} {place : Int} {day : SeekBlock}
    (member : day ∈ staying days place) : day ∈ days := by
  unfold staying at member
  split at member
  · exact member
  · split at member
    · exact List.mem_cons_of_mem _ member
    · exact member

/-- The newest day stays listed as long as any day does. -/
theorem staying_getLast {days : List SeekBlock} {place : Int} {newest : SeekBlock}
    (last : days.getLast? = some newest) (some : staying days place ≠ []) :
    newest ∈ staying days place := by
  unfold staying at some ⊢
  split at some
  · exact absurd rfl some
  · rename_i day later
    split at some
    · rename_i covers
      obtain ⟨second, rest, rfl⟩ := List.exists_cons_of_ne_nil some
      rw [List.getLast?_cons_cons] at last
      simp only [covers, if_true]
      exact List.mem_of_getLast? last
    · rename_i passes
      simp only [passes, if_false]
      exact List.mem_of_getLast? last

/-! ### The groups on the disk -/

/-- What the checks in front of a group write takes no group and no table off the disk. -/
theorem Writer.Fronts.indexedOver_iff {w after : Writer} (fronts : w.Fronts after)
    {days : List SeekBlock} (behind : ∀ day ∈ days, firstDaySeek ≤ day.seek) (place : Int) :
    IndexedOver after.trace days place ↔ IndexedOver w.trace days place := by
  obtain ⟨events, trace, front⟩ := fronts.trace
  have sameGroups : newestGroup after.trace = newestGroup w.trace := by
    funext seek
    rw [newestGroup, newestGroup, trace, groups_append, groups_front front, List.nil_append]
  have sameTable : ∀ day ∈ days,
      storedTable after.trace day.seek = storedTable w.trace day.seek := by
    intro day member
    rw [storedTable, storedTable, trace, newestWrite_append_of_apart]
    exact fun write written => (front _ written).apart (behind day member)
  constructor
  · rintro ⟨day, member, table, stored, slot, filled, block, newest, inside⟩
    rw [sameTable day member] at stored
    rw [sameGroups] at newest
    exact ⟨day, member, table, stored, slot, filled, block, newest, inside⟩
  · rintro ⟨day, member, table, stored, slot, filled, block, newest, inside⟩
    rw [← sameTable day member] at stored
    rw [← sameGroups] at newest
    exact ⟨day, member, table, stored, slot, filled, block, newest, inside⟩

/-! ### Restarts -/

/-- A recorder that goes on from an entry starts inside a group that stays indexed as long as
any day stays listed. -/
theorem Initialized.indexedOver {w : Writer} (initialized : Initialized w) {listed : SeekBlock}
    (newest : w.yb.getTail = .ok listed) {slot : Nat} (filled : (w.db.table.slots slot).Filled)
    {place : Int} (same : (w.db.table.slots slot).seek = place)
    (some : staying w.yb.queued place ≠ []) :
    IndexedOver w.trace (staying w.yb.queued place) place := by
  obtain ⟨last, current⟩ := initialized.current listed newest
  have stored : storedTable w.trace listed.seek = Option.some w.db.table := by
    rcases initialized.read with blank | read
    · rw [blank] at filled
      exact absurd filled SeekBlock.not_filled_zero
    · rw [current]
      exact read
  obtain ⟨-, block, member, -⟩ := (initialized.table slot).of_filled filled
  obtain ⟨group, there, nonempty⟩ := newestGroup_of_mem initialized.disk.heads member
  refine ⟨listed, staying_getLast last some, w.db.table, stored, slot, filled, group, there, ?_⟩
  rw [same] at nonempty ⊢
  exact ⟨Int.le_refl _, nonempty⟩

/-- The table at the newest day is out of the way of the block behind it, unless `GetTail` finds
an entry or misses the one of the group there. -/
theorem Untouched.not_over {w : Writer} (untouched : Untouched w) (elsewhere : ¬w.GoesOnInside)
    {table : DayTable} (read : storedTable w.trace w.db.llSeek = some table) (slot : Nat) :
    ¬(table.slots slot).Over w.trace (w.db.llSeek + dayBlocks) := by
  obtain ⟨noTail, zero⟩ := not_or.mp elsewhere
  have beside := untouched.beside w.db.llSeek table read slot
  rw [untouched.read table read] at beside ⊢
  intro standing
  rcases Nat.eq_zero_or_pos slot with first | later
  · rw [first] at standing beside
    exact beside.not_over (fun here => zero ⟨standing.1, here⟩) standing
  · exact DayTable.not_filled_of_getTail (w.db.table.getTail_cases.resolve_left noTail) later
      standing.1

/-- What a start leaves: tables that are untouched, and a position at the entry `GetTail` finds
or behind the current day's table. -/
theorem boot_cases {trace : List Event} {b : Boot} {w : Writer} {clock : Nat} (known : b.Known)
    (kept : (Machine.off clock trace).SoundAndSpaced) (up : boot trace b = some w) :
    Initialized w ∧ Untouched w ∧ (∃ listed, w.yb.getTail = .ok listed) ∧
      ((∃ sb, w.db.table.getTail = .ok sb ∧ w.seek = sb.seek) ∨
        (∀ sb, w.db.table.getTail ≠ .ok sb) ∧ w.seek = w.db.llSeek + dayBlocks) := by
  obtain ⟨ready, initialized, started⟩ := Option.bind_eq_some_iff.mp up
  have sound := init_initialized known kept.sound.1 kept.sound.2.1 kept.sound.2.2 initialized
  have untouched := init_untouched known kept.sound kept.spaced.2.1 kept.spaced.2.2 initialized
  obtain ⟨listed, newest, ⟨sb, found, rfl⟩ | ⟨empty, rfl⟩⟩ := Writer.start_cases started
  · exact ⟨⟨sound.disk, sound.day, sound.table, sound.read, sound.current⟩,
      ⟨untouched.others, untouched.beside, untouched.read⟩, ⟨listed, newest⟩,
      Or.inl ⟨sb, found, rfl⟩⟩
  · refine ⟨⟨sound.disk, sound.day, sound.table, sound.read, sound.current⟩,
      ⟨untouched.others, untouched.beside, untouched.read⟩, ⟨listed, newest⟩,
      Or.inr ⟨fun sb found => ?_, rfl⟩⟩
    cases empty.symm.trans found

/-- The group of an iteration past the day test and the cover check. -/
theorem Writer.groups_of_passed {w checked : Writer} {input : Input} (sameDay : ¬w.RollsOver input)
    (passed : (w.diskFull input.io).maybeCoverDayblock input.io leaveBlocks
      (w.diskFull input.io).seek = (.ok (), checked)) :
    groups (w.iterate input).trace =
      (checked.seek, input.headBlock checked.seek) :: groups checked.trace := by
  have recorded : (w.iterate input).trace =
      ((checked.layGroup input).indexGroup input input.now checked.seek).trace := by
    rw [iterate, if_neg sameDay, record]
    simp only [passed]
  obtain ⟨-, -, day, dayTrace, isDay⟩ :=
    (checked.layGroup input).indexGroup_ofDay input input.now checked.seek
  have laid : (checked.layGroup input).trace =
      input.groupEvents checked.seek ++ checked.trace := rfl
  rw [recorded, dayTrace, groups_append, groups_day isDay, laid, groups_append, Input.groupEvents,
    groups, groups_channelsWrites]
  rfl

/-- A start that does not go on inside a group goes on outside all groups that listed days
index. -/
theorem spared_of_restartSafe {w : Writer} {listed : SeekBlock} (initialized : Initialized w)
    (untouched : Untouched w) (newest : w.yb.getTail = .ok listed)
    (behind : ¬w.GoesOnInside → w.seek = w.db.llSeek + dayBlocks) (safe : w.RestartSafe) :
    ¬IndexedOver w.trace (staying w.yb.queued w.groupPlace) w.groupPlace := by
  obtain ⟨last, current⟩ := initialized.current listed newest
  have others : ∀ day ∈ w.yb.queued, day.seek ≠ w.db.llSeek →
      TableOutOfWay w.trace day.seek (w.db.llSeek + dayBlocks) := by
    rw [← current]
    exact untouched.others listed last
  rintro ⟨day, stays, table, read, slot, standing⟩
  have member := staying_subset stays
  by_cases short : w.hdSize - w.seek < leaveBlocks
  · -- the position goes back to the front, past all tables
    obtain ⟨empty, -, swept⟩ := safe.back short
    have outside : ¬w.GoesOnInside := by
      rintro (⟨sb, found⟩ | ⟨filled, -⟩)
      · obtain ⟨index, -, filled, -⟩ := DayTable.getTail_eq_ok found
        exact empty index filled
      · exact empty 0 filled
    obtain ⟨ahead, past⟩ := swept day member
    by_cases same : day.seek = w.db.llSeek
    · rw [same] at read
      rw [untouched.read table read] at standing
      exact empty slot standing.1
    · rw [behind outside] at past
      exact ((others day member same table read slot).back ahead past).not_over standing
  · have place : w.groupPlace = w.seek := if_neg short
    rw [place] at stays standing
    by_cases inside : w.GoesOnInside
    · rw [safe.inside inside] at stays
      exact absurd stays List.not_mem_nil
    · rw [behind inside] at standing
      by_cases same : day.seek = w.db.llSeek
      · rw [same] at read
        exact untouched.not_over inside read slot standing
      · exact (others day member same table read slot).not_over standing

/-- A start that goes on inside a group lays its first group on it, as long as any day stays
listed. -/
theorem restartSafe_of_spared {w : Writer} {listed : SeekBlock} (initialized : Initialized w)
    (newest : w.yb.getTail = .ok listed)
    (tail : ∀ sb, w.db.table.getTail = .ok sb → w.seek = sb.seek)
    (behind : (∀ sb, w.db.table.getTail ≠ .ok sb) → w.seek = w.db.llSeek + dayBlocks)
    (room : leaveBlocks ≤ w.hdSize - w.seek)
    (spared : ¬IndexedOver w.trace (staying w.yb.queued w.groupPlace) w.groupPlace) :
    w.RestartSafe := by
  refine ⟨fun inside => ?_, fun short => absurd room (Int.not_le.mpr short)⟩
  have place : w.groupPlace = w.seek := if_neg (Int.not_lt.mpr room)
  rw [place] at spared
  by_contra some
  by_cases found : ∃ sb, w.db.table.getTail = .ok sb
  · obtain ⟨sb, tailEntry⟩ := found
    obtain ⟨index, -, filled, same⟩ := DayTable.getTail_eq_ok tailEntry
    rw [← tail sb tailEntry] at same
    exact spared (initialized.indexedOver newest filled same some)
  · obtain ⟨filled, same⟩ := inside.resolve_left found
    rw [← behind (not_exists.mp found)] at same
    exact spared (initialized.indexedOver newest filled same some)

/-- After every life of the recorder whose steps meet the conditions, the first group a restart
lays on the same day starts outside all groups that listed days still index if the restart is
safe, and with room left on the disk only then. -/
theorem restart_spares_groups_iff {clock now : Nat} {actions : List Action} {trace : List Event}
    {b : Boot} {w checked : Writer} {input : Input}
    (run : Runs Machine.SparingStep (.off clock []) actions (.off now trace)) (known : b.Known)
    (up : boot trace b = some w) (sameDay : ¬w.RollsOver input)
    (passed : (w.diskFull input.io).maybeCoverDayblock input.io leaveBlocks
      (w.diskFull input.io).seek = (.ok (), checked)) :
    (groups (w.iterate input).trace).head? = some (checked.seek, input.headBlock checked.seek) ∧
      (w.RestartSafe → ¬IndexedOver checked.trace checked.yb.queued checked.seek) ∧
      (leaveBlocks ≤ w.hdSize - w.seek →
        ¬IndexedOver checked.trace checked.yb.queued checked.seek → w.RestartSafe) := by
  obtain ⟨initialized, untouched, ⟨listed, newest⟩, position⟩ :=
    boot_cases known (run_spaced run) up
  have tail : ∀ sb, w.db.table.getTail = .ok sb → w.seek = sb.seek := by
    intro sb found
    rcases position with ⟨other, same, place⟩ | ⟨none, -⟩
    · rw [found] at same
      cases same
      exact place
    · exact absurd found (none sb)
  have behind : (∀ sb, w.db.table.getTail ≠ .ok sb) → w.seek = w.db.llSeek + dayBlocks := by
    intro none
    rcases position with ⟨sb, found, -⟩ | ⟨-, place⟩
    · exact absurd found (none sb)
    · exact place
  obtain ⟨fronts, place⟩ := (w.diskFull input.io).maybeCoverDayblock_fronts input.io leaveBlocks
    (w.diskFull input.io).seek
  have queue : checked.yb.queued = staying w.yb.queued w.groupPlace := by
    have kept := Writer.queued_of_passed (w.diskFull_yb input.io ▸ initialized.disk.year.ring)
      (w.diskFull_yb input.io ▸ initialized.disk.year.spare) passed
    rw [kept, w.diskFull_yb, w.diskFull_seek]
  rw [passed] at fronts place
  have same : checked.seek = w.groupPlace := place.trans (w.diskFull_seek input.io)
  have front : ∀ day ∈ checked.yb.queued, firstDaySeek ≤ day.seek := by
    rw [queue]
    exact fun day member => initialized.disk.year.behind day (staying_subset member)
  refine ⟨by rw [Writer.groups_of_passed sameDay passed, List.head?_cons], ?_⟩
  rw [((w.diskFull_fronts input.io).trans fronts).indexedOver_iff front, queue, same]
  exact ⟨spared_of_restartSafe initialized untouched newest fun outside =>
      behind (not_exists.mp (not_or.mp outside).1),
    restartSafe_of_spared initialized newest tail behind⟩

/-- With room on the disk and the earliest day out of the way, the checks in front of a group
change nothing. -/
theorem Writer.passed_of_room {w : Writer} (io : Driver) {sb : SeekBlock}
    (room : leaveBlocks ≤ w.hdSize - w.seek) (head : w.yb.getHead = .ok sb)
    (passes : ¬Covers sb leaveBlocks w.seek) :
    (w.diskFull io).maybeCoverDayblock io leaveBlocks (w.diskFull io).seek = (.ok (), w) := by
  rw [w.diskFull_of_room io room]
  simp only [maybeCoverDayblock, head, passes, if_false]

/-- A start that finds the newest day's table blank. -/
theorem Machine.SparingStep.of_blank {clock : Nat} {trace : List Event} {b : Boot} {ready : Writer}
    {listed : SeekBlock} (known : b.Known) (later : clock ≤ b.initNow)
    (order : b.initNow ≤ b.startNow) (initialized : init trace b = some ready)
    (newest : ready.yb.getTail = .ok listed) (blank : ready.db.table = DayTable.blank) :
    Machine.SparingStep (.off clock trace) (.boot b)
      (.on b.startNow { ready with seek := ready.db.getNext, iOldTime := b.startNow }) := by
  have empty : ready.db.table.getTail = .err .blockErrEmpty := blank ▸ DayTable.getTail_blank
  have started := Writer.start_of_empty b.startNow newest empty
  refine ⟨.boot later order (Option.bind_eq_some_iff.mpr ⟨ready, initialized, started⟩), known, ?_⟩
  intro other same slot
  cases initialized.symm.trans same
  rw [blank]
  exact SeekBlock.not_filled_zero

/-- A recorder with a group on its first day loses power behind midnight, before the table of the
new day is written with an entry. It is started, stopped and started again on that day. -/
theorem restart_spares_groups_new_day :
    ∃ (now : Nat) (trace : List Event) (w checked : Writer),
      Runs Machine.SparingStep (.off 100 [])
        [.boot ⟨60000, 100, 100, none, none, none, fun _ _ => true⟩,
          .iterate (.single 101 1000 200), .iterate (.single 86500 1000 200), .kill,
          .boot ⟨60000, 86600, 86600, none, none, none, fun _ _ => true⟩, .stop fun _ _ => true]
        (.off now trace) ∧
      boot trace ⟨60000, 86700, 86700, none, none, none, fun _ _ => true⟩ = some w ∧
      w.RestartSafe ∧
      (∃ day ∈ w.yb.queued, ∃ table, storedTable w.trace day.seek = some table ∧
        (table.slots 101).Over w.trace 4072) ∧
      (groups (w.iterate (.single 86701 1000 200)).trace).head? =
        some (checked.seek, (Input.single 86701 1000 200).headBlock checked.seek) ∧
      ¬IndexedOver checked.trace checked.yb.queued checked.seek := by
  have first := @Machine.SparingStep.of_blank 100 [] _ _ ⟨100, firstDaySeek⟩ ⟨rfl, rfl⟩ (by decide)
    (by decide) (init_formatted 60000 (fun _ _ => true) 100 100 (by decide) rfl rfl rfl)
    (format_enqueue_getTail _) rfl
  have second : Machine.SparingStep (.on 100 (Writer.fresh 60000 (fun _ _ => true) 100 100))
      (.iterate (.single 101 1000 200)) (.on 101 ((Writer.fresh 60000 (fun _ _ => true) 100
        100).iterate (.single 101 1000 200))) :=
    ⟨.iterate rfl (by decide) (by decide), by decide, by decide, by decide⟩
  have third : Machine.SparingStep (.on 101 ((Writer.fresh 60000 (fun _ _ => true) 100 100).iterate
      (.single 101 1000 200))) (.iterate (.single 86500 1000 200)) (.on 86500 (((Writer.fresh 60000
        (fun _ _ => true) 100 100).iterate (.single 101 1000 200)).iterate
          (.single 86500 1000 200))) :=
    ⟨.iterate rfl (by decide) (by decide), by decide, by decide, by decide⟩
  -- the table of the new day is read back as it was laid
  have read := @init_stored (((Writer.fresh 60000 (fun _ _ => true) 100 100).iterate
    (.single 101 1000 200)).iterate (.single 86500 1000 200)).trace
    ⟨60000, 86600, 86600, none, none, none, fun _ _ => true⟩ _ ⟨86500, 4076⟩ DayTable.blank
    DayTable.blank rfl rfl rfl rfl
  have fifth := @Machine.SparingStep.of_blank 86500 _ _ _ ⟨86500, 4076⟩ ⟨rfl, rfl⟩ (by decide)
    (by decide) read rfl rfl
  have run := (((((Runs.nil.snoc first).snoc second).snoc third).snoc ⟨.kill, trivial⟩).snoc
    fifth).snoc ⟨@Machine.Step.stop _ _ fun _ _ => true, trivial⟩
  -- whatever is stopped with a blank table goes on behind it
  have spared : ∀ (w : Writer) (actions : List Action),
      Runs Machine.SparingStep (.off 100 []) actions (.off 86600 (w.stop fun _ _ => true).trace) →
      w.yb.getTail = .ok ⟨86500, 4076⟩ → w.yb.getHead = .ok ⟨100, firstDaySeek⟩ →
      w.db.llSeek = 4076 → w.db.table = DayTable.blank →
      ∃ next checked : Writer, boot (w.stop fun _ _ => true).trace
          ⟨60000, 86700, 86700, none, none, none, fun _ _ => true⟩ = some next ∧
        next.yb = w.yb ∧ next.trace = (w.stop fun _ _ => true).trace ∧ next.RestartSafe ∧
        (groups (next.iterate (.single 86701 1000 200)).trace).head? =
          some (checked.seek, (Input.single 86701 1000 200).headBlock checked.seek) ∧
        ¬IndexedOver checked.trace checked.yb.queued checked.seek := by
    intro w actions life newest oldest place blank
    have empty : w.db.table.getTail = .err .blockErrEmpty := blank ▸ DayTable.getTail_blank
    have up := boot_stopped_empty ⟨60000, 86700, 86700, none, none, none, fun _ _ => true⟩
      (fun _ _ => rfl) newest place.symm (place ▸ by decide) empty
    have room : leaveBlocks ≤ 60000 - (w.db.llSeek + dayBlocks) := by
      rw [place]
      decide
    have safe : (w.restarted (fun _ _ => true) 60000 (w.db.llSeek + dayBlocks)
        86700).RestartSafe := .of_blank blank room
    have passes : ¬Writer.Covers ⟨100, firstDaySeek⟩ leaveBlocks (w.db.llSeek + dayBlocks) := by
      rw [place]
      decide
    have passed := @Writer.passed_of_room (w.restarted (fun _ _ => true) 60000
      (w.db.llSeek + dayBlocks) 86700) (fun _ _ => true) _ room oldest passes
    have sameDay : ¬(86701 / secofday ≠ 86700 / secofday) := by decide
    obtain ⟨laid, outside, -⟩ := @restart_spares_groups_iff _ _ _ _ _ _ _ (.single 86701 1000 200)
      life ⟨rfl, rfl⟩ up sameDay passed
    exact ⟨_, _, up, rfl, rfl, safe, laid, outside safe⟩
  obtain ⟨w, checked, up, days, trace, safe, laid, outside⟩ := spared _ _ run rfl rfl rfl rfl
  refine ⟨86600, _, w, checked, run, up, safe, ?_, laid, outside⟩
  rw [days, trace]
  exact ⟨⟨100, firstDaySeek⟩, List.mem_cons_self, _, rfl, by decide, _, rfl, by decide⟩

/-- The recorder lays one group, is stopped, and is started again on the same day. It goes on
where that group starts. -/
theorem restart_overwrites_group :
    ∃ (now : Nat) (trace : List Event) (w checked : Writer),
      Runs Machine.Step (.off 100 [])
        [.boot ⟨60000, 100, 100, none, none, none, fun _ _ => true⟩,
          .iterate (.single 101 1000 200), .stop fun _ _ => true] (.off now trace) ∧
      boot trace ⟨60000, 200, 200, none, none, none, fun _ _ => true⟩ = some w ∧
      ¬w.RollsOver (.single 201 1000 200) ∧
      (w.diskFull fun _ _ => true).maybeCoverDayblock (fun _ _ => true) leaveBlocks
        (w.diskFull fun _ _ => true).seek = (.ok (), checked) ∧
      (groups (w.iterate (.single 201 1000 200)).trace).head? =
        some (checked.seek, (Input.single 201 1000 200).headBlock checked.seek) ∧
      IndexedOver checked.trace checked.yb.queued checked.seek := by
  have up := boot_formatted 60000 (fun _ _ => true) 100 100 (by decide) rfl rfl rfl
  have newest := format_enqueue_getTail ⟨100, firstDaySeek⟩
  have again := @boot_stopped_tail ((Writer.fresh 60000 (fun _ _ => true) 100 100).iterate
    (.single 101 1000 200)) (fun _ _ => true) ⟨100, firstDaySeek⟩
    ⟨60000, 200, 200, none, none, none, fun _ _ => true⟩ (fun _ _ => rfl) newest rfl
    (Int.le_refl _) _ fresh_recorded_tail
  have passed := @Writer.passed_of_room (((Writer.fresh 60000 (fun _ _ => true) 100 100).iterate
    (.single 101 1000 200)).restarted (fun _ _ => true) 60000 4072 100) (fun _ _ => true)
    ⟨100, firstDaySeek⟩ (by decide) rfl (by decide)
  refine ⟨101, _, _, _, ((Runs.nil.snoc (.boot (by decide) (by decide) up)).snoc
    (.iterate rfl (by decide) (by decide))).snoc .stop, again, by decide, passed, rfl, ?_⟩
  refine ⟨⟨100, firstDaySeek⟩, List.mem_cons_self, _, rfl, 101, by decide, _, rfl, ?_⟩
  decide

end ExmOnvif.Recorder
