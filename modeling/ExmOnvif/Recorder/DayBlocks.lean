/-
This file models a day table: one index entry for each second of a day, each
pointing at the head block of the media group recorded in that second.

`GetTail` walks the slots from index `SECOFDAY` down to index `1`. The first index
lies behind the array, in the bytes that pad the table to whole blocks, which
every table built by this program holds at zero; the last slot it never looks at
is slot `0`, so a table whose only group was recorded at midnight sharp is
reported empty. `TimeIn` searches a window of slots and tests the middle one each
time.
-/

import ExmOnvif.Recorder.Layout

namespace ExmOnvif.Recorder

/-! ### The table -/

/-- The entries of a `struct day_block`, followed by the padding up to the block end. -/
structure DayTable where
  slots : Nat → SeekBlock
  padded : ∀ index, secofday ≤ index → slots index = SeekBlock.zero

/-- The test the getters make on a slot. -/
def SeekBlock.Filled (sb : SeekBlock) : Prop := sb.seek ≠ 0 ∨ sb.time ≠ 0

instance (sb : SeekBlock) : Decidable sb.Filled :=
  inferInstanceAs (Decidable (sb.seek ≠ 0 ∨ sb.time ≠ 0))

theorem SeekBlock.not_filled_zero : ¬SeekBlock.zero.Filled := by decide

namespace DayTable

/-- The table the constructor builds without reading the disk. -/
def blank : DayTable := ⟨fun _ => SeekBlock.zero, fun _ _ => rfl⟩

/-- The table with the entry of second `time` replaced. -/
def set (table : DayTable) (time : Nat) (sb : SeekBlock) : DayTable where
  slots := Function.update table.slots (time % secofday) sb
  padded := fun index outside => by
    have inside : time % secofday < secofday := Nat.mod_lt _ (by decide)
    rw [Function.update_of_ne (by omega)]
    exact table.padded index outside

/-- The loop of `DayBlocks::GetTail`, from index `i` down to index `1`. -/
def getTailFrom (table : DayTable) : Nat → Reply SeekBlock
  | 0 => .err .blockErrEmpty
  | index + 1 =>
    if (table.slots (index + 1)).Filled then .ok ⟨index + 1, (table.slots (index + 1)).seek⟩
    else getTailFrom table index

/-- `DayBlocks::GetTail`. The entry's time is replaced by its slot number. -/
def getTail (table : DayTable) : Reply SeekBlock := table.getTailFrom secofday

/-- The loop of `DayBlocks::TimeIn`: every turn tests the slot in the middle. -/
def timeInWindow (table : DayTable) (daysec : Nat) : Nat → Reply Int
  | 0 => .err .blockErrNotIn
  | turns + 1 =>
    if (table.slots daysec).seek ≠ 0 then .ok (table.slots daysec).seek
    else timeInWindow table daysec turns

/-- `DayBlocks::TimeIn`. -/
def timeIn (table : DayTable) (time : Nat) : Reply Int :=
  let daysec := time % secofday
  if (table.slots daysec).time ≠ 0 ∧ (table.slots daysec).seek ≠ 0 then
    .ok (table.slots daysec).seek
  else
    table.timeInWindow daysec ((if secofday - daysec > 10 then daysec + 10 else secofday) -
      (if daysec ≤ 10 then 0 else daysec - 10))

/-! ### What the walk down the table returns -/

/-- The loop of `GetTail` finds the highest filled slot behind slot `0`. -/
theorem getTailFrom_last (table : DayTable) (start : Nat) :
    (∃ index, 0 < index ∧ index ≤ start ∧ (table.slots index).Filled ∧
      (∀ slot, index < slot → slot ≤ start → ¬(table.slots slot).Filled) ∧
      table.getTailFrom start = .ok ⟨index, (table.slots index).seek⟩) ∨
    ((∀ slot, 0 < slot → slot ≤ start → ¬(table.slots slot).Filled) ∧
      table.getTailFrom start = .err .blockErrEmpty) := by
  induction start with
  | zero => exact Or.inr ⟨fun slot positive below => by omega, rfl⟩
  | succ start inductionHypothesis =>
    by_cases filled : (table.slots (start + 1)).Filled
    · refine Or.inl ⟨start + 1, by omega, Nat.le_refl _, filled,
        fun slot above below => by omega, ?_⟩
      rw [getTailFrom, if_pos filled]
    · have behind : ∀ slot, ¬slot ≤ start → slot ≤ start + 1 → ¬(table.slots slot).Filled := by
        intro slot above below
        rw [show slot = start + 1 by omega]
        exact filled
      rw [getTailFrom, if_neg filled]
      rcases inductionHypothesis with
        ⟨index, positive, below, there, highest, found⟩ | ⟨nothing, found⟩
      · refine Or.inl ⟨index, positive, by omega, there, fun slot above upto => ?_, found⟩
        by_cases lower : slot ≤ start
        · exact highest slot above lower
        · exact behind slot lower upto
      · refine Or.inr ⟨fun slot above upto => ?_, found⟩
        by_cases lower : slot ≤ start
        · exact nothing slot above lower
        · exact behind slot lower upto

/-- A found slot is one of the day's seconds. -/
theorem getTail_eq_ok {table : DayTable} {sb : SeekBlock} (found : table.getTail = .ok sb) :
    ∃ index, index < secofday ∧ (table.slots index).Filled ∧
      (table.slots index).seek = sb.seek := by
  rcases table.getTailFrom_last secofday with ⟨index, -, -, filled, -, result⟩ | ⟨-, result⟩
  · cases result.symm.trans found
    refine ⟨index, ?_, filled, rfl⟩
    by_contra outside
    rw [table.padded index (by omega)] at filled
    exact SeekBlock.not_filled_zero filled
  · cases result.symm.trans found

/-- A table with nothing behind slot `0` is reported empty. -/
theorem getTail_of_empty {table : DayTable}
    (empty : ∀ slot, 0 < slot → ¬(table.slots slot).Filled) :
    table.getTail = .err .blockErrEmpty := by
  rcases table.getTailFrom_last secofday with ⟨index, positive, -, filled, -⟩ | ⟨-, result⟩
  · exact absurd filled (empty index positive)
  · exact result

/-- A table reported empty has nothing behind slot `0`. -/
theorem not_filled_of_getTail {table : DayTable} (empty : table.getTail = .err .blockErrEmpty)
    {slot : Nat} (positive : 0 < slot) : ¬(table.slots slot).Filled := by
  rcases table.getTailFrom_last secofday with ⟨_, -, -, -, -, result⟩ | ⟨nothing, -⟩
  · cases result.symm.trans empty
  · intro filled
    refine nothing slot positive (Nat.le_of_not_lt fun outside => ?_) filled
    rw [table.padded slot (Nat.le_of_lt outside)] at filled
    exact SeekBlock.not_filled_zero filled

theorem getTail_blank : blank.getTail = .err .blockErrEmpty :=
  getTail_of_empty fun _ _ => SeekBlock.not_filled_zero

/-- A table whose highest filled slot is known returns it. -/
theorem getTail_of_last {table : DayTable} {index : Nat} (positive : 0 < index)
    (inside : index < secofday) (filled : (table.slots index).Filled)
    (last : ∀ slot, index < slot → ¬(table.slots slot).Filled) :
    table.getTail = .ok ⟨index, (table.slots index).seek⟩ := by
  rcases table.getTailFrom_last secofday with ⟨other, -, -, there, highest, result⟩ | ⟨nothing, -⟩
  · have same : other = index := by
      refine Nat.le_antisymm ?_ ?_
      · exact Nat.le_of_not_lt fun above => last other above there
      · exact Nat.le_of_not_lt fun above => highest index above (Nat.le_of_lt inside) filled
    rw [← same]
    exact result
  · exact absurd filled (nothing index positive (Nat.le_of_lt inside))

/-- The walk ends in an entry or in `BLOCK_ERR_EMPTY`. -/
theorem getTail_cases (table : DayTable) :
    (∃ sb, table.getTail = .ok sb) ∨ table.getTail = .err .blockErrEmpty := by
  rcases table.getTailFrom_last secofday with ⟨_, -, -, -, -, result⟩ | ⟨-, result⟩
  · exact Or.inl ⟨_, result⟩
  · exact Or.inr result

@[simp]
theorem set_slot (table : DayTable) (time : Nat) (sb : SeekBlock) :
    (table.set time sb).slots (time % secofday) = sb :=
  Function.update_self _ _ _

theorem set_slot_of_ne (table : DayTable) {time slot : Nat} (sb : SeekBlock)
    (other : slot ≠ time % secofday) : (table.set time sb).slots slot = table.slots slot :=
  Function.update_of_ne other _ _

/-- An entry just set is found under its own second. -/
theorem timeIn_set (table : DayTable) (time : Nat) {sb : SeekBlock} (timed : sb.time ≠ 0)
    (placed : sb.seek ≠ 0) : (table.set time sb).timeIn time = .ok sb.seek := by
  simp only [timeIn, set_slot]
  rw [if_pos ⟨timed, placed⟩]

end DayTable

/-! ### The object that keeps a table -/

/-- A `DayBlocks` object: where its table goes, the table, and the additions since it was
last written. -/
structure DayBlocks where
  llSeek : Int
  table : DayTable
  iOperateTimes : Nat

namespace DayBlocks

/-- `new DayBlocks(seek, false, _)`: built without reading the disk. -/
def create (seek : Int) : DayBlocks := ⟨seek, DayTable.blank, 0⟩

/-- `Blocks::GetNext` of a day table. -/
def getNext (db : DayBlocks) : Int := db.llSeek + dayBlocks

/-- Every tenth addition writes the table. -/
def flushes (db : DayBlocks) : Bool := db.iOperateTimes + 1 ≥ 10

/-- The object after an entry has been stored. -/
def store (db : DayBlocks) (sb : SeekBlock) (time : Nat) : DayBlocks :=
  { db with
    table := db.table.set time sb
    iOperateTimes := if db.flushes then 0 else db.iOperateTimes + 1 }

/-- `DayBlocks::AddBlock`. `written` is what `hd_write` makes of the table when this is a
tenth addition. -/
def addBlock (db : DayBlocks) (sb : SeekBlock) (time : Nat) (written : Bool) :
    Reply Unit × DayBlocks :=
  if sb.time = 0 ∨ sb.seek = 0 then (.err .blockErrZero, db)
  else if (db.table.slots (time % secofday)).seek ≠ 0 then (.err .blockErrDaySecMut, db)
  else (if db.flushes ∧ written = false then .err .hdErrWrite else .ok (), db.store sb time)

end DayBlocks

end ExmOnvif.Recorder
