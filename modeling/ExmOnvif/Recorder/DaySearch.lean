/-
This file is about the searches of a day table: the first and the last entry, the entry of a
second or one close to it, and the time of an entry by its place on the disk.

Three of them look at the wrong slots. `GetTail` starts one slot behind the array and ends before
slot `0`. The window of `TimeIn` around an empty second is walked through, but every turn tests
the empty second itself. `SeekIn` returns in its first turn, whatever it found. The results are
right as long as the slots that are missed hold nothing.
-/

import ExmOnvif.Library.Runs
import ExmOnvif.Recorder.DayBlocks

namespace ExmOnvif.Recorder

open Library

namespace DayTable

/-! ### The searches -/

/-- The loop of `DayBlocks::GetHead`, with `count` slots left from `i` on. -/
def getHeadFrom (table : DayTable) : Nat → Nat → Reply SeekBlock
  | _, 0 => .err .blockErrEmpty
  | i, count + 1 =>
    if (table.slots i).Filled then .ok (table.slots i) else getHeadFrom table (i + 1) count

/-- `DayBlocks::GetHead`. -/
def getHead (table : DayTable) : Reply SeekBlock := table.getHeadFrom 0 secofday

/-- The slots the loop of `GetHead` looks at. -/
def headLooks (table : DayTable) : Nat → Nat → List Nat
  | _, 0 => []
  | i, count + 1 => i :: if (table.slots i).Filled then [] else headLooks table (i + 1) count

/-- The slots the loop of `GetTail` looks at. -/
def tailLooks (table : DayTable) : Nat → List Nat
  | 0 => []
  | i + 1 => (i + 1) :: if (table.slots (i + 1)).Filled then [] else tailLooks table i

/-- The loop of `DayBlocks::SeekIn`. Both branches of its test return. -/
def seekInFrom (table : DayTable) (llSeek : Int) (sec : Nat) : Nat → Reply Nat
  | 0 => .err .blockErrNotIn
  | _ + 1 =>
    if (table.slots sec).seek = llSeek ∧ (table.slots sec).time ≠ 0 then
      .ok (table.slots sec).time
    else .err .blockErrNotIn

/-- `DayBlocks::SeekIn`. -/
def seekIn (table : DayTable) (llSeek : Int) : Reply Nat := table.seekInFrom llSeek 0 secofday

/-! ### A second and what is close to it -/

/-- The test of `AddBlock` for a slot that is taken. -/
def Taken (table : DayTable) (sec : Nat) : Prop := (table.slots sec).seek ≠ 0

instance (table : DayTable) (sec : Nat) : Decidable (table.Taken sec) :=
  inferInstanceAs (Decidable ((table.slots sec).seek ≠ 0))

/-- The seconds of the day within ten of a second. -/
def Window (daysec sec : Nat) : Prop := daysec - 10 ≤ sec ∧ sec < min secofday (daysec + 10)

instance (daysec sec : Nat) : Decidable (Window daysec sec) :=
  inferInstanceAs (Decidable (_ ∧ _))

/-- `TimeIn` returns the entry of the second itself, or of another one in the window, and only
otherwise that there is none. -/
structure NearbyFound (table : DayTable) (time : Nat) : Prop where
  here : table.Taken (time % secofday) →
    table.timeIn time = .ok (table.slots (time % secofday)).seek
  near : ¬table.Taken (time % secofday) →
    (∃ sec, Window (time % secofday) sec ∧ table.Taken sec ∧
      table.timeIn time = .ok (table.slots sec).seek) ∨
    (table.timeIn time = .err .blockErrNotIn ∧
      ∀ sec, Window (time % secofday) sec → ¬table.Taken sec)

theorem timeInWindow_of_taken {table : DayTable} {daysec turns : Nat} (some : 0 < turns)
    (taken : table.Taken daysec) :
    table.timeInWindow daysec turns = .ok (table.slots daysec).seek := by
  obtain ⟨less, rfl⟩ := Nat.exists_eq_succ_of_ne_zero (Nat.ne_of_gt some)
  rw [timeInWindow]
  exact if_pos taken

theorem timeInWindow_of_free {table : DayTable} {daysec : Nat} (free : ¬table.Taken daysec)
    (turns : Nat) : table.timeInWindow daysec turns = .err .blockErrNotIn := by
  induction turns with
  | zero => rfl
  | succ turns inductionHypothesis =>
    rw [timeInWindow, inductionHypothesis]
    exact if_neg free

/-- The second itself decides. -/
theorem timeIn_eq (table : DayTable) (time : Nat) :
    table.timeIn time = if table.Taken (time % secofday) then
      .ok (table.slots (time % secofday)).seek else .err .blockErrNotIn := by
  have inside : time % secofday < secofday := Nat.mod_lt _ (by decide)
  unfold timeIn
  dsimp only
  by_cases taken : table.Taken (time % secofday)
  · rw [if_pos taken]
    split
    · rfl
    · refine timeInWindow_of_taken ?_ taken
      split <;> split <;> omega
  · rw [if_neg taken, if_neg fun both => taken both.2, timeInWindow_of_free taken]

/-- For every table and every time: what `TimeIn` returns is right if and only if the second
itself is taken or nothing in the window is. -/
theorem nearby_found_iff (table : DayTable) (time : Nat) :
    table.NearbyFound time ↔ table.Taken (time % secofday) ∨
      ∀ sec, Window (time % secofday) sec → ¬table.Taken sec := by
  constructor
  · intro found
    by_cases taken : table.Taken (time % secofday)
    · exact Or.inl taken
    · refine Or.inr ?_
      rcases found.near taken with ⟨sec, _, _, same⟩ | ⟨_, nothing⟩
      · rw [timeIn_eq, if_neg taken] at same
        cases same
      · exact nothing
  · intro condition
    refine ⟨fun taken => by rw [timeIn_eq, if_pos taken], fun free => Or.inr ⟨?_, ?_⟩⟩
    · rw [timeIn_eq, if_neg free]
    · exact condition.resolve_left free

/-- One entry, at second `15`: it is not found from second `10`. -/
theorem neighbour_missed : ¬(blank.set 15 ⟨15, 2046⟩).NearbyFound 10 := by
  intro found
  have missed : (blank.set 15 ⟨15, 2046⟩).timeIn 10 = .err .blockErrNotIn := by decide
  rcases found.near (by decide) with ⟨sec, -, -, same⟩ | ⟨-, nothing⟩
  · rw [missed] at same
    cases same
  · exact nothing 15 (by decide) (by decide)

end DayTable

/-! ### Tables built by `AddBlock` -/

/-- The arguments of a call of `AddBlock`, with what the write of the table comes to. -/
structure AddCall where
  sb : SeekBlock
  time : Nat
  written : Bool

/-- The slot of a call. -/
def AddCall.slot (call : AddCall) : Nat := call.time % secofday

theorem AddCall.slot_lt (call : AddCall) : call.slot < secofday := Nat.mod_lt _ (by decide)

namespace DayBlocks

/-- Some calls of `AddBlock`. -/
abbrev Calls : DayBlocks → List AddCall → DayBlocks → Prop :=
  Runs fun before call after => (before.addBlock call.sb call.time call.written).2 = after

/-- Some calls of `AddBlock`, all of them successful. -/
abbrev Added : DayBlocks → List AddCall → DayBlocks → Prop :=
  Runs fun before call after =>
    before.addBlock call.sb call.time call.written = (.ok (), after)

/-- A call stores its entry in a free slot or changes nothing, and it is not successful in the
second case. -/
theorem addBlock_cases (db : DayBlocks) (call : AddCall) :
    (call.sb.time ≠ 0 ∧ call.sb.seek ≠ 0 ∧ ¬db.table.Taken call.slot ∧
      (db.addBlock call.sb call.time call.written).2.table = db.table.set call.time call.sb) ∨
    ((db.addBlock call.sb call.time call.written).1 ≠ .ok () ∧
      (db.addBlock call.sb call.time call.written).2 = db) := by
  unfold addBlock
  split
  · exact Or.inr ⟨(fun same => nomatch same), rfl⟩
  · rename_i proper
    split
    · exact Or.inr ⟨(fun same => nomatch same), rfl⟩
    · rename_i free
      rw [not_or] at proper
      exact Or.inl ⟨proper.1, proper.2, free, rfl⟩

end DayBlocks

/-- Every entry of the table has both its fields set, or none. -/
def DayTable.Proper (table : DayTable) : Prop :=
  ∀ sec, (table.slots sec).Filled → (table.slots sec).time ≠ 0 ∧ (table.slots sec).seek ≠ 0

theorem DayTable.Proper.set {table : DayTable} (proper : table.Proper) (time : Nat)
    {sb : SeekBlock} (timed : sb.time ≠ 0) (placed : sb.seek ≠ 0) : (table.set time sb).Proper := by
  intro sec filled
  by_cases same : sec = time % secofday
  · rw [same, DayTable.set_slot]
    exact ⟨timed, placed⟩
  · rw [DayTable.set_slot_of_ne _ _ same] at filled ⊢
    exact proper sec filled

/-- Whatever the calls come to, the table stays proper. -/
theorem DayBlocks.Calls.proper {db after : DayBlocks} {calls : List AddCall}
    (run : db.Calls calls after) (blank : db.table = DayTable.blank) : after.table.Proper := by
  refine @Runs.invariant _ _ _ _ _ _ (fun db => db.table.Proper) ?_ ?_ run
  · rw [blank]
    exact fun _ filled => absurd filled SeekBlock.not_filled_zero
  · rintro before call after rfl proper
    rcases before.addBlock_cases call with ⟨timed, placed, -, stored⟩ | ⟨-, same⟩
    · rw [stored]
      exact proper.set call.time timed placed
    · rw [same]
      exact proper

/-- The table holds the entries of the calls and nothing else. -/
structure Stored (calls : List AddCall) (table : DayTable) : Prop where
  proper : table.Proper
  entry : ∀ call ∈ calls, (table.slots call.slot).Filled ∧ table.slots call.slot = call.sb
  call : ∀ sec, (table.slots sec).Filled → ∃ call ∈ calls, call.slot = sec

theorem Stored.snoc {calls : List AddCall} {table : DayTable} (stored : Stored calls table)
    {call : AddCall} (timed : call.sb.time ≠ 0) (placed : call.sb.seek ≠ 0)
    (free : ¬table.Taken call.slot) :
    Stored (calls ++ [call]) (table.set call.time call.sb) where
  proper := stored.proper.set call.time timed placed
  entry := by
    intro other member
    rcases List.mem_append.mp member with before | new
    · obtain ⟨filled, same⟩ := stored.entry other before
      have apart : other.slot ≠ call.time % secofday := by
        intro equal
        rw [equal] at filled
        exact free (stored.proper _ filled).2
      rw [DayTable.set_slot_of_ne _ _ apart]
      exact ⟨filled, same⟩
    · rw [List.mem_singleton.mp new, AddCall.slot, DayTable.set_slot]
      exact ⟨Or.inl placed, rfl⟩
  call := by
    intro sec filled
    by_cases same : sec = call.time % secofday
    · exact ⟨call, List.mem_append_right _ (List.mem_singleton.mpr rfl), same.symm⟩
    · rw [DayTable.set_slot_of_ne _ _ same] at filled
      obtain ⟨other, member, there⟩ := stored.call sec filled
      exact ⟨other, List.mem_append_left _ member, there⟩

theorem DayBlocks.Added.stored {db after : DayBlocks} {calls : List AddCall}
    (run : db.Added calls after) (blank : db.table = DayTable.blank) :
    Stored calls after.table := by
  induction run with
  | nil =>
    rw [blank]
    exact ⟨fun _ filled => absurd filled SeekBlock.not_filled_zero,
      fun _ member => absurd member List.not_mem_nil,
      fun _ filled => absurd filled SeekBlock.not_filled_zero⟩
  | @snoc calls before after call earlier done inductionHypothesis =>
    rcases before.addBlock_cases call with ⟨timed, placed, free, stored⟩ | ⟨failed, -⟩
    · rw [done] at stored
      rw [stored]
      exact inductionHypothesis.snoc timed placed free
    · rw [done] at failed
      exact absurd rfl failed

/-! ### The first and the last entry -/

namespace DayTable

/-- The loop of `GetHead` finds the lowest filled slot. -/
theorem getHeadFrom_cases (table : DayTable) (i count : Nat) :
    (∃ index, i ≤ index ∧ index < i + count ∧ (table.slots index).Filled ∧
      (∀ slot, i ≤ slot → slot < index → ¬(table.slots slot).Filled) ∧
      table.getHeadFrom i count = .ok (table.slots index)) ∨
    ((∀ slot, i ≤ slot → slot < i + count → ¬(table.slots slot).Filled) ∧
      table.getHeadFrom i count = .err .blockErrEmpty) := by
  induction count generalizing i with
  | zero => exact Or.inr ⟨fun slot above below => by omega, rfl⟩
  | succ count inductionHypothesis =>
    by_cases filled : (table.slots i).Filled
    · refine Or.inl ⟨i, Nat.le_refl _, by omega, filled, fun slot above below => by omega, ?_⟩
      rw [getHeadFrom, if_pos filled]
    · have before : ∀ slot, i ≤ slot → ¬i + 1 ≤ slot → ¬(table.slots slot).Filled := by
        intro slot above below
        rw [show slot = i by omega]
        exact filled
      rw [getHeadFrom, if_neg filled]
      rcases inductionHypothesis (i + 1) with
        ⟨index, above, below, there, lowest, found⟩ | ⟨nothing, found⟩
      · refine Or.inl ⟨index, by omega, by omega, there, fun slot low under => ?_, found⟩
        by_cases later : i + 1 ≤ slot
        · exact lowest slot later under
        · exact before slot low later
      · refine Or.inr ⟨fun slot low under => ?_, found⟩
        by_cases later : i + 1 ≤ slot
        · exact nothing slot later (by omega)
        · exact before slot low later

/-- Both searches look only at slots of the array. -/
def LooksInside (table : DayTable) : Prop :=
  ∀ slot ∈ table.headLooks 0 secofday ++ table.tailLooks secofday, slot < secofday

/-- `GetTail` looks behind the array first, whatever the table holds. -/
theorem not_looksInside (table : DayTable) : ¬table.LooksInside := by
  intro inside
  exact Nat.lt_irrefl secofday
    (inside secofday (List.mem_append_right _ (by rw [secofday, tailLooks]; exact .head _)))

end DayTable

/-- `GetHead` and `GetTail` return the entry of the earliest second and, under its number, that
of the latest one, and only say that there is none when nothing was added. -/
structure EndsFound (calls : List AddCall) (table : DayTable) : Prop where
  head : ∀ sb, table.getHead = .ok sb ↔
    ∃ call ∈ calls, sb = call.sb ∧ ∀ other ∈ calls, call.slot ≤ other.slot
  headEmpty : table.getHead = .err .blockErrEmpty ↔ calls = []
  tail : ∀ sb, table.getTail = .ok sb ↔
    ∃ call ∈ calls, sb = ⟨call.slot, call.sb.seek⟩ ∧ ∀ other ∈ calls, other.slot ≤ call.slot
  tailEmpty : table.getTail = .err .blockErrEmpty ↔ calls = []

section Ends

variable {calls : List AddCall} {table : DayTable} (stored : Stored calls table)

include stored

/-- An extreme slot belongs to an extreme call. -/
theorem Stored.extreme {index : Nat} {order : Nat → Nat → Prop}
    (antisymm : ∀ one other, order one other → order other one → one = other)
    (filled : (table.slots index).Filled)
    (extreme : ∀ slot < secofday, (table.slots slot).Filled → order index slot)
    (view : AddCall → Prop) :
    (∃ call ∈ calls, view call ∧ ∀ other ∈ calls, order call.slot other.slot) ↔
      ∃ call ∈ calls, view call ∧ call.slot = index := by
  constructor
  · rintro ⟨call, member, seen, least⟩
    obtain ⟨owner, owned, there⟩ := stored.call index filled
    have forth := least owner owned
    have back := extreme call.slot call.slot_lt (stored.entry call member).1
    rw [there] at forth
    exact ⟨call, member, seen, antisymm _ _ forth back⟩
  · rintro ⟨call, member, seen, rfl⟩
    exact ⟨call, member, seen,
      fun other inside => extreme other.slot other.slot_lt (stored.entry other inside).1⟩

/-- The entry of a slot is that of its call. -/
theorem Stored.slot_iff {index : Nat} (filled : (table.slots index).Filled) {Result : Type}
    (view : Nat → SeekBlock → Result) (result : Result) :
    view index (table.slots index) = result ↔
      ∃ call ∈ calls, result = view call.slot call.sb ∧ call.slot = index := by
  constructor
  · rintro rfl
    obtain ⟨call, member, rfl⟩ := stored.call index filled
    exact ⟨call, member, by rw [(stored.entry call member).2], rfl⟩
  · rintro ⟨call, member, rfl, rfl⟩
    rw [(stored.entry call member).2]

/-- A table without a filled slot was not added to. -/
theorem Stored.calls_nil (nothing : ∀ slot < secofday, ¬(table.slots slot).Filled) :
    calls = [] := by
  rw [List.eq_nil_iff_forall_not_mem]
  exact fun call member => nothing call.slot call.slot_lt (stored.entry call member).1

theorem Stored.calls_ne_nil {index : Nat} (filled : (table.slots index).Filled) : calls ≠ [] := by
  obtain ⟨call, member, -⟩ := stored.call index filled
  exact List.ne_nil_of_mem member

/-- `GetHead` is right. -/
theorem Stored.head_found :
    (∀ sb, table.getHead = .ok sb ↔
      ∃ call ∈ calls, sb = call.sb ∧ ∀ other ∈ calls, call.slot ≤ other.slot) ∧
    (table.getHead = .err .blockErrEmpty ↔ calls = []) := by
  unfold DayTable.getHead
  rcases table.getHeadFrom_cases 0 secofday with
    ⟨index, -, -, filled, lowest, found⟩ | ⟨nothing, found⟩
  · rw [found]
    refine ⟨fun sb => ?_, iff_of_false (fun same => nomatch same) (stored.calls_ne_nil filled)⟩
    have least : ∀ slot < secofday, (table.slots slot).Filled → index ≤ slot :=
      fun slot _ there => Nat.le_of_not_lt fun under => lowest slot (Nat.zero_le _) under there
    rw [stored.extreme (fun _ _ => Nat.le_antisymm) filled least, Reply.ok.injEq]
    exact stored.slot_iff filled (fun _ sb => sb) sb
  · rw [found]
    have none := stored.calls_nil fun slot below => nothing slot (Nat.zero_le _) (by omega)
    refine ⟨fun sb => iff_of_false (fun same => nomatch same) ?_, iff_of_true rfl none⟩
    rw [none]
    rintro ⟨call, member, -⟩
    exact absurd member List.not_mem_nil

/-- `GetTail` is right when there is an entry behind second `0`. -/
theorem Stored.tail_found {later : AddCall} (member : later ∈ calls) (behind : later.slot ≠ 0) :
    (∀ sb, table.getTail = .ok sb ↔
      ∃ call ∈ calls, sb = ⟨call.slot, call.sb.seek⟩ ∧ ∀ other ∈ calls, other.slot ≤ call.slot) ∧
    (table.getTail = .err .blockErrEmpty ↔ calls = []) := by
  unfold DayTable.getTail
  rcases table.getTailFrom_last secofday with
    ⟨index, -, -, filled, highest, found⟩ | ⟨nothing, -⟩
  · rw [found]
    refine ⟨fun sb => ?_, iff_of_false (fun same => nomatch same) (stored.calls_ne_nil filled)⟩
    have most : ∀ slot < secofday, (table.slots slot).Filled → slot ≤ index :=
      fun slot below there => Nat.le_of_not_lt fun above =>
        highest slot above (Nat.le_of_lt below) there
    rw [@Stored.extreme _ _ stored _ (fun one other => other ≤ one)
      (fun _ _ forth back => Nat.le_antisymm back forth) filled most, Reply.ok.injEq]
    exact stored.slot_iff filled (fun index sb => ⟨index, sb.seek⟩) sb
  · exact absurd (stored.entry later member).1
      (nothing later.slot (Nat.pos_of_ne_zero behind) (Nat.le_of_lt later.slot_lt))

/-- With entries in second `0` only, `GetTail` says that there is none. -/
theorem Stored.tail_missed (only : ∀ call ∈ calls, call.slot = 0) :
    table.getTail = .err .blockErrEmpty := by
  refine DayTable.getTail_of_empty fun slot positive filled => ?_
  obtain ⟨call, member, there⟩ := stored.call slot filled
  rw [only call member] at there
  omega

theorem Stored.endsFound_iff :
    EndsFound calls table ↔ calls = [] ∨ ∃ call ∈ calls, call.slot ≠ 0 := by
  obtain ⟨head, headEmpty⟩ := stored.head_found
  constructor
  · intro found
    by_cases behind : ∃ call ∈ calls, call.slot ≠ 0
    · exact Or.inr behind
    · refine Or.inl (found.tailEmpty.mp (stored.tail_missed fun call member => ?_))
      exact Decidable.not_not.mp fun other => behind ⟨call, member, other⟩
  · rintro (rfl | ⟨call, member, behind⟩)
    · have none : table.getTail = .err .blockErrEmpty :=
        stored.tail_missed fun _ member => absurd member List.not_mem_nil
      refine ⟨head, headEmpty, fun sb => ?_, iff_of_true none rfl⟩
      rw [none]
      refine iff_of_false (fun same => nomatch same) ?_
      rintro ⟨call, member, -⟩
      exact absurd member List.not_mem_nil
    · obtain ⟨tail, tailEmpty⟩ := stored.tail_found member behind
      exact ⟨head, headEmpty, tail, tailEmpty⟩

end Ends

/-- After any successful additions to a blank table the two searches never stay inside the array,
and what they return is right if and only if nothing was added or something behind second `0`. -/
theorem ends_found_iff {db after : DayBlocks} {calls : List AddCall} (run : db.Added calls after)
    (blank : db.table = DayTable.blank) :
    ¬(EndsFound calls after.table ∧ after.table.LooksInside) ∧
      (EndsFound calls after.table ↔ calls = [] ∨ ∃ call ∈ calls, call.slot ≠ 0) :=
  ⟨fun both => after.table.not_looksInside both.2, (run.stored blank).endsFound_iff⟩

/-- The addition of an entry in the first second of a day. -/
def midnight : AddCall := ⟨⟨86400, 2046⟩, 86400, true⟩

/-- The additions of an entry ten seconds later and of one a minute later. -/
def morning : List AddCall :=
  [⟨⟨86410, 2050⟩, 86410, true⟩, ⟨⟨86460, 2060⟩, 86460, true⟩]

theorem morning_added : ∃ after, (DayBlocks.create 2046).Added (midnight :: morning) after ∧
    after.table = ((DayTable.blank.set 86400 ⟨86400, 2046⟩).set 86410 ⟨86410, 2050⟩).set 86460
      ⟨86460, 2060⟩ :=
  ⟨_, Runs.cons rfl (Runs.cons rfl (Runs.cons rfl .nil)), rfl⟩

/-- Three entries, one of them in second `0`: the ends are found, with a look outside. -/
theorem ends_found_iff_morning :
    ∃ after, (DayBlocks.create 2046).Added (midnight :: morning) after ∧
      EndsFound (midnight :: morning) after.table ∧ ¬after.table.LooksInside := by
  obtain ⟨after, run, -⟩ := morning_added
  obtain ⟨outside, found⟩ := ends_found_iff run rfl
  have ends := found.mpr (Or.inr ⟨_, List.mem_cons_of_mem _ List.mem_cons_self, by decide⟩)
  exact ⟨after, run, ends, fun inside => outside ⟨ends, inside⟩⟩

/-- The table with an entry at midnight: `GetTail` says that it is empty. -/
theorem midnight_missed :
    ¬(EndsFound [midnight] (DayTable.blank.set 86400 ⟨86400, 2046⟩) ∧
      (DayTable.blank.set 86400 ⟨86400, 2046⟩).LooksInside) := by
  rintro ⟨found, -⟩
  have none : (DayTable.blank.set 86400 ⟨86400, 2046⟩).getTail = .err .blockErrEmpty := by
    refine DayTable.getTail_of_empty fun slot positive => ?_
    rw [DayTable.set_slot_of_ne _ _ (Nat.ne_of_gt positive)]
    exact SeekBlock.not_filled_zero
  exact absurd (found.tailEmpty.mp none) (List.cons_ne_nil _ _)

/-! ### The time of an entry -/

/-- A slot holds an entry with a place on the disk. -/
def DayTable.Holds (table : DayTable) (llSeek : Int) (sec : Nat) : Prop :=
  (table.slots sec).Filled ∧ (table.slots sec).seek = llSeek

instance (table : DayTable) (llSeek : Int) (sec : Nat) : Decidable (table.Holds llSeek sec) :=
  inferInstanceAs (Decidable (_ ∧ _))

/-- `SeekIn` returns the time of a slot that holds the place, or that there is none. -/
def DayTable.SeekFound (table : DayTable) (llSeek : Int) : Prop :=
  (∃ sec < secofday, table.Holds llSeek sec ∧ table.seekIn llSeek = .ok (table.slots sec).time) ∨
    (table.seekIn llSeek = .err .blockErrNotIn ∧ ∀ sec < secofday, ¬table.Holds llSeek sec)

/-- Slot `0` decides. -/
theorem DayTable.Proper.seekIn_eq {table : DayTable} (proper : table.Proper) (llSeek : Int) :
    table.seekIn llSeek =
      if table.Holds llSeek 0 then .ok (table.slots 0).time else .err .blockErrNotIn := by
  unfold DayTable.seekIn
  rw [secofday, DayTable.seekInFrom]
  refine if_congr ⟨fun both => ⟨Or.inr both.2, both.1⟩, fun holds => ⟨holds.2, ?_⟩⟩ rfl rfl
  exact (proper 0 holds.1).1

/-- For every table built by `AddBlock` and every block number: what `SeekIn` returns is right
if and only if slot `0` holds it or no slot does. -/
theorem seek_found_iff {db after : DayBlocks} {calls : List AddCall} (run : db.Calls calls after)
    (blank : db.table = DayTable.blank) (llSeek : Int) :
    after.table.SeekFound llSeek ↔
      after.table.Holds llSeek 0 ∨ ∀ sec < secofday, ¬after.table.Holds llSeek sec := by
  have proper := run.proper blank
  unfold DayTable.SeekFound
  rw [proper.seekIn_eq llSeek]
  by_cases first : after.table.Holds llSeek 0
  · rw [if_pos first]
    exact iff_of_true (Or.inl ⟨0, by decide, first, rfl⟩) (Or.inl first)
  · rw [if_neg first, or_iff_right first]
    constructor
    · rintro (⟨sec, -, -, same⟩ | ⟨-, nothing⟩)
      · cases same
      · exact nothing
    · exact fun nothing => Or.inr ⟨rfl, nothing⟩

/-- Of three entries `SeekIn` finds that of second `0`, and not the others. -/
theorem seek_found_iff_morning :
    ∃ after, (DayBlocks.create 2046).Calls (midnight :: morning) after ∧
      after.table.SeekFound 2046 ∧ ¬after.table.SeekFound 2060 := by
  obtain ⟨after, added, table⟩ := morning_added
  have run : (DayBlocks.create 2046).Calls (midnight :: morning) after :=
    added.weaken fun _ _ _ step => congrArg Prod.snd step
  refine ⟨after, run, (seek_found_iff run rfl 2046).mpr (Or.inl ?_), fun found => ?_⟩
  · rw [table]
    decide
  · rcases (seek_found_iff run rfl 2060).mp found with first | nothing
    · rw [table] at first
      exact absurd first (by decide)
    · refine nothing 60 (by decide) ?_
      rw [table]
      decide

/-- One entry, at second `10`: `SeekIn` does not find it. -/
theorem second_missed : ¬(DayTable.blank.set 10 ⟨10, 2046⟩).SeekFound 2046 := by
  rintro (⟨sec, -, -, found⟩ | ⟨-, nothing⟩)
  · have missed : (DayTable.blank.set 10 ⟨10, 2046⟩).seekIn 2046 = .err .blockErrNotIn := by decide
    rw [missed] at found
    cases found
  · exact nothing 10 (by decide) (by decide)

end ExmOnvif.Recorder
