/-
This file models the rounds of the disk manager: the check for disks that are not
mounted, and the loop over the partitions that makes room, tells that a disk is full and
unlocks the recordings of a partition that has been full for too long.

The sum of the capacities is never set back to zero. One flag tells for all partitions
together that a disk is full, and each partition in turn sets or clears it. The counter
of a partition counts the rounds in which no room could be made; it goes back to zero
when the partition has room, but not when room could be made.
-/

import Mathlib.Algebra.Ring.Int.Defs
import Mathlib.Algebra.BigOperators.Group.List.Basic
import ExmOnvif.Library.Runs

namespace ExmOnvif.DiskMan

open Library

/-! ### A round -/

/-- What does not change from round to round. -/
structure Setup where
  /-- `get_ide_flag`. -/
  ideFlag : Int
  /-- `get_hd_type`. -/
  hdType : Int
  autoUnlockTime : Int
  hderrRebootEnable : Int

/-- `MAX_PARTITION_NUM`. -/
def maxPartitionNum : Nat := 16

/-- `DISK_MAN_LOOP`: the seconds from round to round. -/
def diskManLoop : Int := 10

/-- `get_hd_rmval`: `HD_RMVAL` or `CF_RMVAL`. -/
def Setup.hdRmval (setup : Setup) : Int := if setup.hdType = 1 then 280 else 80

/-- The rounds after which a partition is unlocked. -/
def Setup.patience (setup : Setup) : Int := setup.autoUnlockTime.tdiv diskManLoop

/-- What is found of a partition: its free space, and what `remove_oldest_from_partition` returns
if it is called. -/
structure Finding where
  free : Int
  removed : Int
deriving DecidableEq, Repr

/-- What is found in a round. -/
structure Round where
  /-- The capacities of the disks that are present. -/
  capacities : List Int
  /-- `mpdisk_get_sys_disktotal`. -/
  partTotal : Int
  /-- `hdutil_get_hderr_reboot_flag`. -/
  rebootFlag : Int
  partitions : List Finding

/-- What a round does to the rest of the system. -/
inductive Action where
  /-- The call of `hwrbt`. -/
  | reboot
  /-- `set_cferr_flag`. -/
  | cferr
  /-- `send_state2main`. -/
  | sendState
  /-- `fileindex_lock_by_time` with zero for the lock, over all times and channels. -/
  | unlock (partition : Nat)
deriving DecidableEq, Repr

/-- The variables of the manager, with what the last round has done. -/
structure Manager where
  diskTotal : Int
  diskFull : Bool
  fulllock : Bool
  diskfullCounter : Nat → Int
  actions : List Action

/-- A sum in a `long` of 32 bits. -/
def long (value : Int) : Int := Int.bmod value (2 ^ 32)

namespace Manager

/-- The variables when the thread starts. -/
def start : Manager := ⟨0, false, false, fun _ => 0, []⟩

def act (manager : Manager) (action : Action) : Manager :=
  { manager with actions := manager.actions ++ [action] }

/-- `set_disk_full_flag`. -/
def setDiskFullFlag (setup : Setup) (flag : Bool) (manager : Manager) : Manager :=
  if setup.ideFlag = 0 then manager
  else if manager.diskFull ≠ flag then { manager with diskFull := flag }.act .sendState
  else manager

/-- A write to `diskfull_counter`. -/
def setCounter (partition : Nat) (value : Int) (manager : Manager) : Option Manager :=
  if partition < maxPartitionNum then
    some { manager with
      diskfullCounter := Function.update manager.diskfullCounter partition value }
  else none

/-- `disk_full`. -/
def full (setup : Setup) (partition : Nat) (manager : Manager) : Option Manager :=
  let manager := manager.setDiskFullFlag setup true
  let count := manager.diskfullCounter partition + 1
  if setup.patience ≤ count then
    (manager.setCounter partition 0).map fun after => after.act (.unlock partition)
  else manager.setCounter partition count

/-- The body of the loop over the partitions. -/
def visit (setup : Setup) (partition : Nat) (finding : Finding) (manager : Manager) :
    Option Manager :=
  if finding.free < setup.hdRmval then
    if finding.removed ≠ 0 then
      (manager.full setup partition).map fun after => { after with fulllock := true }
    else some ({ manager with fulllock := false }.setDiskFullFlag setup false)
  else (manager.setDiskFullFlag setup false).setCounter partition 0

/-- The loop over the partitions, from a partition on. -/
def visitAll (setup : Setup) : Nat → List Finding → Manager → Option Manager
  | _, [], manager => some manager
  | partition, finding :: findings, manager =>
    (manager.visit setup partition finding).bind (visitAll setup (partition + 1) findings)

/-- The check for disks that are not mounted. -/
def checkCapacity (setup : Setup) (round : Round) (manager : Manager) : Manager :=
  let diskTotal := round.capacities.foldl (fun total capacity => long (total + capacity))
    manager.diskTotal
  let manager := { manager with diskTotal := diskTotal, actions := [] }
  if 1000 ≤ diskTotal ∧ round.partTotal < 1000 then
    if setup.hderrRebootEnable ≠ 0 ∧ round.rebootFlag = 1 then manager.act .reboot
    else manager.act .cferr
  else manager

/-- A round of `diskman_thread`. -/
def round (setup : Setup) (round : Round) (manager : Manager) : Option Manager :=
  (manager.checkCapacity setup round).visitAll setup 1 round.partitions

end Manager

/-! ### One partition -/

section Partitions

variable (setup : Setup)

/-- The partition has too little room and none could be made. -/
def Finding.Full (finding : Finding) : Prop :=
  finding.free < setup.hdRmval ∧ finding.removed ≠ 0

/-- The partition had too little room and room was made. -/
def Finding.Freed (finding : Finding) : Prop :=
  finding.free < setup.hdRmval ∧ finding.removed = 0

instance (finding : Finding) : Decidable (finding.Full setup) := inferInstanceAs (Decidable (_ ∧ _))

instance (finding : Finding) : Decidable (finding.Freed setup) :=
  inferInstanceAs (Decidable (_ ∧ _))

/-- The recordings are unlocked, if the counter was this one. -/
def Finding.Unlocks (finding : Finding) (count : Int) : Prop :=
  finding.Full setup ∧ setup.patience ≤ count + 1

instance (finding : Finding) (count : Int) : Decidable (finding.Unlocks setup count) :=
  inferInstanceAs (Decidable (_ ∧ _))

/-- The counter afterwards. -/
def Finding.counted (finding : Finding) (count : Int) : Int :=
  if finding.Unlocks setup count then 0
  else if finding.Full setup then count + 1
  else if finding.Freed setup then count
  else 0

/-- What the visit of a partition changes. -/
structure Visited (partition : Nat) (finding : Finding) (before after : Manager) : Prop where
  diskTotal : after.diskTotal = before.diskTotal
  diskFull : setup.ideFlag ≠ 0 → (after.diskFull = true ↔ finding.Full setup)
  counter : after.diskfullCounter = Function.update before.diskfullCounter partition
    (finding.counted setup (before.diskfullCounter partition))
  unlocks : ∀ other, .unlock other ∈ after.actions ↔ .unlock other ∈ before.actions ∨
    other = partition ∧ finding.Unlocks setup (before.diskfullCounter partition)

end Partitions

namespace Manager

variable {setup : Setup} {partition : Nat} {finding : Finding} {before after : Manager}

section Flag

variable (setup) (flag : Bool) (manager : Manager)

@[simp]
theorem setDiskFullFlag_diskTotal :
    (manager.setDiskFullFlag setup flag).diskTotal = manager.diskTotal := by
  unfold setDiskFullFlag act
  split_ifs <;> rfl

@[simp]
theorem setDiskFullFlag_counter :
    (manager.setDiskFullFlag setup flag).diskfullCounter = manager.diskfullCounter := by
  unfold setDiskFullFlag act
  split_ifs <;> rfl

theorem setDiskFullFlag_diskFull (ide : setup.ideFlag ≠ 0) :
    (manager.setDiskFullFlag setup flag).diskFull = flag := by
  unfold setDiskFullFlag act
  rw [if_neg ide]
  split_ifs with same
  · rfl
  · exact not_not.mp same

@[simp]
theorem setDiskFullFlag_unlock {other : Nat} :
    .unlock other ∈ (manager.setDiskFullFlag setup flag).actions ↔
      .unlock other ∈ manager.actions := by
  unfold setDiskFullFlag act
  split_ifs <;> simp

end Flag

theorem setCounter_eq_some {value : Int} (stored : before.setCounter partition value = some after) :
    after = { before with
      diskfullCounter := Function.update before.diskfullCounter partition value } := by
  unfold setCounter at stored
  split at stored
  · exact (Option.some.inj stored).symm
  · cases stored

/-- A partition is counted in `disk_full`, and unlocked when its time has come. -/
theorem full_visited (isFull : finding.Full setup)
    (counted : before.full setup partition = some after) :
    Visited setup partition finding before after := by
  unfold full at counted
  by_cases due : setup.patience ≤ before.diskfullCounter partition + 1
  · rw [if_pos (by rwa [setDiskFullFlag_counter]), Option.map_eq_some_iff] at counted
    obtain ⟨stored, cleared, rfl⟩ := counted
    rw [setCounter_eq_some cleared]
    have unlocks : finding.Unlocks setup (before.diskfullCounter partition) := ⟨isFull, due⟩
    refine ⟨?_, fun ide => ?_, ?_, fun other => ?_⟩
    · exact setDiskFullFlag_diskTotal _ _ _
    · exact iff_of_true (setDiskFullFlag_diskFull _ _ _ ide) isFull
    · simp only [act, setDiskFullFlag_counter, Finding.counted, if_pos unlocks]
    · simp only [act, List.mem_append, setDiskFullFlag_unlock, List.mem_singleton,
        Action.unlock.injEq, unlocks, and_true]
  · rw [if_neg (by rwa [setDiskFullFlag_counter])] at counted
    rw [setCounter_eq_some counted]
    have waits : ¬finding.Unlocks setup (before.diskfullCounter partition) := fun unlocks =>
      due unlocks.2
    refine ⟨?_, fun ide => ?_, ?_, fun other => ?_⟩
    · exact setDiskFullFlag_diskTotal _ _ _
    · exact iff_of_true (setDiskFullFlag_diskFull _ _ _ ide) isFull
    · simp only [setDiskFullFlag_counter, Finding.counted, if_neg waits, if_pos isFull]
    · simp only [setDiskFullFlag_unlock, waits, and_false, or_false]

/-- A partition that is not full clears the flag, and unlocks nothing. -/
theorem visited_of_not_full (notFull : ¬finding.Full setup)
    (diskTotal : after.diskTotal = before.diskTotal)
    (cleared : setup.ideFlag ≠ 0 → after.diskFull = false)
    (counter : after.diskfullCounter = Function.update before.diskfullCounter partition
      (if finding.Freed setup then before.diskfullCounter partition else 0))
    (unlocks : ∀ other, .unlock other ∈ after.actions ↔ .unlock other ∈ before.actions) :
    Visited setup partition finding before after := by
  have waits : ¬finding.Unlocks setup (before.diskfullCounter partition) := fun unlocks =>
    notFull unlocks.1
  refine ⟨diskTotal, fun ide => iff_of_false ?_ notFull, ?_, fun other => ?_⟩
  · rw [cleared ide]
    exact Bool.false_ne_true
  · rw [counter, Finding.counted, if_neg waits, if_neg notFull]
  · simp only [unlocks, waits, and_false, or_false]

/-- A visit says whether the partition is full, and counts. -/
theorem visit_visited (visited : before.visit setup partition finding = some after) :
    Visited setup partition finding before after := by
  unfold visit at visited
  by_cases low : finding.free < setup.hdRmval
  · rw [if_pos low] at visited
    by_cases failed : finding.removed ≠ 0
    · rw [if_pos failed, Option.map_eq_some_iff] at visited
      obtain ⟨marked, counted, rfl⟩ := visited
      obtain ⟨diskTotal, diskFull, counter, unlocks⟩ := full_visited ⟨low, failed⟩ counted
      exact ⟨diskTotal, diskFull, counter, unlocks⟩
    · rw [if_neg failed] at visited
      cases visited
      have freed : finding.Freed setup := ⟨low, not_not.mp failed⟩
      refine visited_of_not_full (fun full => failed full.2) (setDiskFullFlag_diskTotal _ _ _)
        (setDiskFullFlag_diskFull _ _ _) ?_ fun other => setDiskFullFlag_unlock _ _ _
      rw [setDiskFullFlag_counter, if_pos freed, Function.update_eq_self]
  · rw [if_neg low] at visited
    rw [setCounter_eq_some visited]
    have notFreed : ¬finding.Freed setup := fun freed => low freed.1
    refine visited_of_not_full (fun full => low full.1) (setDiskFullFlag_diskTotal _ _ _)
      (setDiskFullFlag_diskFull _ _ _) ?_ fun other => setDiskFullFlag_unlock _ _ _
    rw [setDiskFullFlag_counter, if_neg notFreed]

theorem map_defined_iff {result : Option Manager} (change : Manager → Manager) :
    (∃ after, result.map change = some after) ↔ ∃ marked, result = some marked := by
  cases result with
  | none => exact iff_of_false (fun ⟨_, other⟩ => by cases other) fun ⟨_, other⟩ => by cases other
  | some marked => exact iff_of_true ⟨_, rfl⟩ ⟨_, rfl⟩

theorem setCounter_defined_iff {value : Int} :
    (∃ after, before.setCounter partition value = some after) ↔ partition < maxPartitionNum := by
  unfold setCounter
  split
  · next inside => exact iff_of_true ⟨_, rfl⟩ inside
  · next outside => exact iff_of_false (fun ⟨_, other⟩ => by cases other) outside

theorem full_defined_iff :
    (∃ after, before.full setup partition = some after) ↔ partition < maxPartitionNum := by
  unfold full
  dsimp only
  split
  · rw [map_defined_iff]
    exact setCounter_defined_iff
  · exact setCounter_defined_iff

theorem visit_defined_iff :
    (∃ after, before.visit setup partition finding = some after) ↔
      partition < maxPartitionNum ∨ finding.Freed setup := by
  unfold visit
  by_cases low : finding.free < setup.hdRmval
  · rw [if_pos low]
    by_cases failed : finding.removed ≠ 0
    · have notFreed : ¬finding.Freed setup := fun freed => failed freed.2
      rw [if_pos failed, or_iff_left notFreed, map_defined_iff]
      exact full_defined_iff
    · rw [if_neg failed]
      exact iff_of_true ⟨_, rfl⟩ (.inr ⟨low, not_not.mp failed⟩)
  · have notFreed : ¬finding.Freed setup := fun freed => low freed.1
    rw [if_neg low, or_iff_left notFreed]
    exact setCounter_defined_iff

end Manager

/-! ### The loop -/

/-- The finding of a partition, when they are numbered from a number on. -/
def foundAt : Nat → List Finding → Nat → Option Finding
  | _, [], _ => none
  | first, finding :: findings, partition =>
    if partition = first then some finding else foundAt (first + 1) findings partition

theorem foundAt_of_lt {first partition : Nat} {findings : List Finding} (low : partition < first) :
    foundAt first findings partition = none := by
  induction findings generalizing first with
  | nil => rfl
  | cons finding findings inductionHypothesis =>
    rw [foundAt, if_neg (Nat.ne_of_lt low), inductionHypothesis (Nat.lt_succ_of_lt low)]

namespace Manager

variable {setup : Setup} {first : Nat} {findings : List Finding} {before after : Manager}

theorem visitAll_cons {finding : Finding} :
    before.visitAll setup first (finding :: findings) = some after ↔
      ∃ middle, before.visit setup first finding = some middle ∧
        middle.visitAll setup (first + 1) findings = some after :=
  Option.bind_eq_some_iff

/-- The loop comes to its end if no counter outside of the array is touched. -/
theorem visitAll_defined_iff :
    (∃ after, before.visitAll setup first findings = some after) ↔
      ∀ partition finding, foundAt first findings partition = some finding →
        partition < maxPartitionNum ∨ finding.Freed setup := by
  induction findings generalizing first before with
  | nil => exact iff_of_true ⟨before, rfl⟩ fun _ _ found => by cases found
  | cons finding findings inductionHypothesis =>
    constructor
    · rintro ⟨after, all⟩ partition other found
      obtain ⟨middle, visited, rest⟩ := visitAll_cons.mp all
      rw [foundAt] at found
      split at found
      · next same =>
        cases found
        rw [same]
        exact visit_defined_iff.mp ⟨middle, visited⟩
      · exact inductionHypothesis.mp ⟨after, rest⟩ partition other found
    · intro inside
      obtain ⟨middle, visited⟩ := visit_defined_iff.mpr (inside first finding (if_pos rfl))
      have later : ∀ partition other, foundAt (first + 1) findings partition = some other →
          partition < maxPartitionNum ∨ other.Freed setup := by
        intro partition other found
        refine inside partition other ?_
        rw [foundAt, if_neg, found]
        rintro rfl
        rw [foundAt_of_lt (Nat.lt_succ_self _)] at found
        cases found
      obtain ⟨after, rest⟩ := inductionHypothesis.mpr later
      exact ⟨after, visitAll_cons.mpr ⟨middle, visited, rest⟩⟩

theorem visitAll_diskTotal (all : before.visitAll setup first findings = some after) :
    after.diskTotal = before.diskTotal := by
  induction findings generalizing first before with
  | nil =>
    cases all
    rfl
  | cons finding findings inductionHypothesis =>
    obtain ⟨middle, visited, rest⟩ := visitAll_cons.mp all
    rw [inductionHypothesis rest, (visit_visited visited).diskTotal]

/-- The flag is what the last partition says. -/
theorem visitAll_diskFull (ide : setup.ideFlag ≠ 0)
    (all : before.visitAll setup first findings = some after) :
    after.diskFull = true ↔
      if findings = [] then before.diskFull = true
      else ∃ last ∈ findings.getLast?, last.Full setup := by
  induction findings generalizing first before with
  | nil =>
    cases all
    exact Iff.rfl
  | cons finding findings inductionHypothesis =>
    obtain ⟨middle, visited, rest⟩ := visitAll_cons.mp all
    rw [inductionHypothesis rest, if_neg (List.cons_ne_nil _ _)]
    cases findings with
    | nil =>
      rw [if_pos rfl, (visit_visited visited).diskFull ide]
      simp
    | cons second findings =>
      rw [if_neg (List.cons_ne_nil _ _), List.getLast?_cons_cons]

/-- Each counter changes by what was found of its partition. -/
theorem visitAll_counter (all : before.visitAll setup first findings = some after)
    (partition : Nat) :
    after.diskfullCounter partition = (foundAt first findings partition).elim
        (before.diskfullCounter partition)
        (fun finding => finding.counted setup (before.diskfullCounter partition)) ∧
      (.unlock partition ∈ after.actions ↔ .unlock partition ∈ before.actions ∨
        ∃ finding ∈ foundAt first findings partition,
          finding.Unlocks setup (before.diskfullCounter partition)) := by
  induction findings generalizing first before with
  | nil =>
    cases all
    simp [foundAt]
  | cons finding findings inductionHypothesis =>
    obtain ⟨middle, visited, rest⟩ := visitAll_cons.mp all
    obtain ⟨counter, unlocks⟩ := inductionHypothesis rest
    have one := visit_visited visited
    rw [counter, unlocks, one.counter, one.unlocks, foundAt]
    by_cases same : partition = first
    · subst same
      rw [if_pos rfl, foundAt_of_lt (Nat.lt_succ_self _), Function.update_self]
      simp
    · rw [if_neg same, Function.update_of_ne same]
      simp [same]

section Check

variable (setup) (found : Round) (manager : Manager)

@[simp]
theorem checkCapacity_diskFull :
    (manager.checkCapacity setup found).diskFull = manager.diskFull := by
  unfold checkCapacity act
  dsimp only
  split_ifs <;> rfl

@[simp]
theorem checkCapacity_counter :
    (manager.checkCapacity setup found).diskfullCounter = manager.diskfullCounter := by
  unfold checkCapacity act
  dsimp only
  split_ifs <;> rfl

theorem checkCapacity_unlock (partition : Nat) :
    .unlock partition ∉ (manager.checkCapacity setup found).actions := by
  unfold checkCapacity act
  dsimp only
  split_ifs <;> simp

theorem checkCapacity_diskTotal :
    (manager.checkCapacity setup found).diskTotal =
      found.capacities.foldl (fun total capacity => long (total + capacity)) manager.diskTotal := by
  unfold checkCapacity act
  dsimp only
  split_ifs <;> rfl

end Check

end Manager

/-! ### Runs -/

/-- One round, with what it does. -/
def Steps (setup : Setup) (before : Manager) (entry : Round × List Action) (after : Manager) :
    Prop :=
  before.round setup entry.1 = some after ∧ after.actions = entry.2

section FullFlag

variable {setup : Setup} {history : List (Round × List Action)} {manager : Manager}

/-- The partitions that were looked at in some rounds, in their order. -/
def seen (history : List (Round × List Action)) : List Finding :=
  history.flatMap fun entry => entry.1.partitions

/-- The flag is what the partition says that was looked at last. -/
theorem run_diskFull (ide : setup.ideFlag ≠ 0)
    (run : Runs (Steps setup) Manager.start history manager) :
    manager.diskFull = true ↔ ∃ last ∈ (seen history).getLast?, last.Full setup := by
  induction run with
  | nil => exact iff_of_false Bool.false_ne_true fun ⟨_, member, _⟩ => by cases member
  | @snoc history before after entry _ taken inductionHypothesis =>
    rw [Manager.visitAll_diskFull ide taken.1, Manager.checkCapacity_diskFull,
      inductionHypothesis]
    have split : seen (history ++ [entry]) = seen history ++ entry.1.partitions := by
      simp [seen]
    rw [split, List.getLast?_append]
    split
    · next nothing => rw [nothing, List.getLast?_nil, Option.none_or]
    · next something =>
      rw [List.getLast?_eq_some_getLast something, Option.some_or]

/-- The round tells that a disk is full exactly if a partition is. -/
def Reports (setup : Setup) (manager : Manager) (found : Round) : Prop :=
  ∃ after, manager.round setup found = some after ∧
    (after.diskFull = true ↔ ∃ finding ∈ found.partitions, finding.Full setup)

/-- No partition has a number beyond the counters, unless room was made in it. If a partition of the
round is full, the last one is. If the round has no partition, the one that was looked at last was
not full. -/
def Tells (setup : Setup) (history : List (Round × List Action)) (found : Round) : Prop :=
  (∀ partition finding, foundAt 1 found.partitions partition = some finding →
      partition < maxPartitionNum ∨ finding.Freed setup) ∧
    if found.partitions = [] then ∀ last ∈ (seen history).getLast?, ¬last.Full setup
    else (∃ finding ∈ found.partitions, finding.Full setup) →
      ∃ last ∈ found.partitions.getLast?, last.Full setup

/-- After every run, a round reports the full disks exactly if it does not come to a partition that
is not full after one that is. -/
theorem disk_full_reported_iff (setup : Setup) (ide : setup.ideFlag ≠ 0)
    (history : List (Round × List Action)) (manager : Manager)
    (run : Runs (Steps setup) Manager.start history manager) (found : Round) :
    Reports setup manager found ↔ Tells setup history found := by
  unfold Reports Tells
  rw [← @Manager.visitAll_defined_iff setup 1 found.partitions (manager.checkCapacity setup found)]
  have flag : ∀ after, manager.round setup found = some after → (after.diskFull = true ↔
      if found.partitions = [] then ∃ last ∈ (seen history).getLast?, last.Full setup
      else ∃ last ∈ found.partitions.getLast?, last.Full setup) := by
    intro after done
    rw [Manager.visitAll_diskFull ide done, Manager.checkCapacity_diskFull, run_diskFull ide run]
  have last : (∃ last ∈ found.partitions.getLast?, last.Full setup) →
      ∃ finding ∈ found.partitions, finding.Full setup := fun ⟨last, member, isFull⟩ =>
    ⟨last, List.mem_of_getLast? member, isFull⟩
  constructor
  · rintro ⟨after, done, reports⟩
    refine ⟨⟨after, done⟩, ?_⟩
    rw [flag after done] at reports
    split_ifs at reports ⊢ with none
    · intro old member isFull
      obtain ⟨finding, inside, _⟩ := reports.mp ⟨old, member, isFull⟩
      rw [none] at inside
      cases inside
    · exact reports.mpr
  · rintro ⟨⟨after, done⟩, tells⟩
    refine ⟨after, done, ?_⟩
    rw [flag after done]
    split_ifs at tells ⊢ with none
    · refine iff_of_false (fun ⟨old, member, isFull⟩ => tells old member isFull) ?_
      rintro ⟨finding, inside, _⟩
      rw [none] at inside
      cases inside
    · exact ⟨last, tells⟩

/-- A hard disk, unlocked after an hour. -/
def hourSetup : Setup := ⟨1, 1, 3600, 1⟩

/-- A round with a full partition, and one in which the partition behind it is full. -/
theorem disk_full_reported_second_round :
    ∃ manager, Runs (Steps hourSetup) Manager.start
        [(⟨[], 1000, 0, [⟨0, -1⟩, ⟨1000, 0⟩]⟩, [.sendState, .sendState])] manager ∧
      Reports hourSetup manager ⟨[], 1000, 0, [⟨1000, 0⟩, ⟨0, -1⟩]⟩ := by
  have run : Runs (Steps hourSetup) Manager.start
      [(⟨[], 1000, 0, [⟨0, -1⟩, ⟨1000, 0⟩]⟩, [.sendState, .sendState])] _ :=
    Runs.cons ⟨rfl, rfl⟩ .nil
  refine ⟨_, run, (disk_full_reported_iff hourSetup (by decide) _ _ run _).mpr ⟨?_, ?_⟩⟩
  · intro partition finding found
    refine .inl ?_
    unfold foundAt foundAt foundAt at found
    split at found
    · next same =>
      rw [same]
      decide
    · split at found
      · next same =>
        rw [same]
        decide
      · cases found
  · exact fun _ => ⟨⟨0, -1⟩, rfl, by decide⟩

/-- The second partition has room, and clears what the first one has set. -/
theorem second_partition_clears :
    ¬Reports hourSetup Manager.start ⟨[], 1000, 0, [⟨0, -1⟩, ⟨1000, 0⟩]⟩ := by
  rintro ⟨after, done, reports⟩
  rw [Manager.visitAll_diskFull (by decide) done] at reports
  obtain ⟨last, member, isFull⟩ := reports.mpr ⟨⟨0, -1⟩, List.mem_cons_self, by decide⟩
  cases member
  exact absurd isFull (by decide)

end FullFlag

section Unmounted

variable {setup : Setup} {history : List (Round × List Action)} {manager : Manager}

theorem long_zero : long 0 = 0 := rfl

/-- A sum in steps is the sum, in 32 bits. -/
theorem foldl_long (capacities : List Int) (total : Int) :
    capacities.foldl (fun total capacity => long (total + capacity)) (long total) =
      long (total + capacities.sum) := by
  induction capacities generalizing total with
  | nil => rw [List.foldl_nil, List.sum_nil, Int.add_zero]
  | cons capacity capacities inductionHypothesis =>
    have step : long (long total + capacity) = long (total + capacity) := Int.bmod_add_bmod
    rw [List.foldl_cons, step, inductionHypothesis, List.sum_cons, Int.add_assoc]

/-- The capacities reported in some rounds, all together. -/
def reported (history : List (Round × List Action)) : Int :=
  (history.map fun entry => entry.1.capacities.sum).sum

/-- The sum of all capacities is kept from round to round. -/
theorem run_diskTotal (run : Runs (Steps setup) Manager.start history manager) :
    manager.diskTotal = long (reported history) := by
  induction run with
  | nil => exact long_zero.symm
  | @snoc history before after entry _ taken inductionHypothesis =>
    rw [Manager.visitAll_diskTotal taken.1, Manager.checkCapacity_diskTotal, inductionHypothesis,
      foldl_long]
    simp [reported]

/-- The device is rebooted, or the flag for a disk error is raised. -/
def Alarmed (manager : Manager) : Prop := .reboot ∈ manager.actions ∨ .cferr ∈ manager.actions

theorem checkCapacity_alarmed_iff (found : Round) :
    Alarmed (manager.checkCapacity setup found) ↔
      1000 ≤ (manager.checkCapacity setup found).diskTotal ∧ found.partTotal < 1000 := by
  rw [Manager.checkCapacity_diskTotal]
  unfold Alarmed Manager.checkCapacity Manager.act
  dsimp only
  split_ifs with entered reboots
  · simp [entered]
  · simp [entered]
  · simp [entered]

/-- The partitions are mounted, or the sum of all rounds is on the same side of the threshold as
that of this round. -/
def InSum (history : List (Round × List Action)) (found : Round) : Prop :=
  1000 ≤ found.partTotal ∨
    1000 ≤ found.capacities.sum ∧ 1000 ≤ long (reported history + found.capacities.sum) ∨
    found.capacities.sum < 1000 ∧ long (reported history + found.capacities.sum) < 1000

/-- After every run, a round finds out that the disks are not mounted exactly if the capacities of
the earlier rounds do not matter. -/
theorem unmounted_detected_iff (setup : Setup) (history : List (Round × List Action))
    (manager : Manager) (run : Runs (Steps setup) Manager.start history manager) (found : Round) :
    (Alarmed (manager.checkCapacity setup found) ↔
        1000 ≤ found.capacities.sum ∧ found.partTotal < 1000) ↔ InSum history found := by
  rw [checkCapacity_alarmed_iff, Manager.checkCapacity_diskTotal, run_diskTotal run, foldl_long]
  unfold InSum
  omega

/-- A round in which the disk was there and mounted. -/
def mountedRound : Round := ⟨[500000], 400000, 0, []⟩

/-- The disk is not mounted any more in the second round. -/
theorem unmounted_detected_second_round :
    ∃ manager, Runs (Steps hourSetup) Manager.start [(mountedRound, [])] manager ∧
      Alarmed (manager.checkCapacity hourSetup ⟨[500000], 0, 1, []⟩) := by
  have run : Runs (Steps hourSetup) Manager.start [(mountedRound, [])]
      { Manager.start with diskTotal := 500000 } := .snoc .nil ⟨rfl, rfl⟩
  exact ⟨_, run, ((unmounted_detected_iff hourSetup _ _ run ⟨[500000], 0, 1, []⟩).mpr
    (.inr (.inl (by decide)))).mpr (by decide)⟩

/-- The disk was taken away after the first round. -/
theorem removed_disk_reboots :
    ∃ manager, Runs (Steps hourSetup) Manager.start [(mountedRound, [])] manager ∧
      ¬(Alarmed (manager.checkCapacity hourSetup ⟨[], 0, 1, []⟩) ↔
        1000 ≤ ([] : List Int).sum ∧ (0 : Int) < 1000) := by
  refine ⟨{ Manager.start with diskTotal := 500000 }, .snoc .nil ⟨rfl, rfl⟩, fun detects => ?_⟩
  have alarmed : Alarmed (Manager.checkCapacity hourSetup ⟨[], 0, 1, []⟩
      { Manager.start with diskTotal := 500000 }) := checkCapacity_alarmed_iff _ |>.mpr (by decide)
  exact absurd (detects.mp alarmed).1 (by decide)

end Unmounted

section Unlocking

variable {setup : Setup} {history : List (Round × List Action)} {manager after : Manager}
  {partition : Nat}

/-- The partition was full in a round, and no room could be made. -/
def FullIn (setup : Setup) (partition : Nat) (found : Round) : Prop :=
  ∃ finding ∈ foundAt 1 found.partitions partition, finding.Full setup

/-- The rounds end with as many as it takes in which the partition was full, with no unlocking
before the last one of them. -/
def Earned (setup : Setup) (partition : Nat) (history : List (Round × List Action)) : Prop :=
  ∃ front back, history = front ++ back ∧ back.length = setup.patience.toNat ∧
    (∀ entry ∈ back, FullIn setup partition entry.1) ∧
    ∀ entry ∈ back.dropLast, .unlock partition ∉ entry.2

/-- While the counter of a partition is not zero, the partition is there and no room is made in
it. -/
def Keeps (setup : Setup) (manager : Manager) (found : Round) : Prop :=
  ∀ partition, manager.diskfullCounter partition ≠ 0 →
    ∃ finding ∈ foundAt 1 found.partitions partition, ¬finding.Freed setup

/-- One round in which every counter goes on or goes back to zero. -/
def KeptSteps (setup : Setup) (before : Manager) (entry : Round × List Action) (after : Manager) :
    Prop :=
  Steps setup before entry after ∧ Keeps setup before entry.1

/-- The counter is the number of rounds at the end in which the partition was full, since it was
unlocked. -/
def Streak (setup : Setup) (partition : Nat) (history : List (Round × List Action)) (count : Int) :
    Prop :=
  ∃ front back, history = front ++ back ∧ (back.length : Int) = count ∧
    ∀ entry ∈ back, FullIn setup partition entry.1 ∧ .unlock partition ∉ entry.2

theorem Streak.zero (history : List (Round × List Action)) : Streak setup partition history 0 :=
  ⟨history, [], (List.append_nil _).symm, rfl, fun _ member => by cases member⟩

/-- The counter and the unlocking of a partition in one round. -/
theorem Steps.counter {entry : Round × List Action} (taken : Steps setup manager entry after)
    (partition : Nat) :
    after.diskfullCounter partition = (foundAt 1 entry.1.partitions partition).elim
        (manager.diskfullCounter partition)
        (fun finding => finding.counted setup (manager.diskfullCounter partition)) ∧
      (.unlock partition ∈ entry.2 ↔ ∃ finding ∈ foundAt 1 entry.1.partitions partition,
        finding.Unlocks setup (manager.diskfullCounter partition)) := by
  obtain ⟨done, same⟩ := taken
  obtain ⟨counter, unlocks⟩ := Manager.visitAll_counter done partition
  rw [Manager.checkCapacity_counter] at counter unlocks
  rw [← same, unlocks, or_iff_right (Manager.checkCapacity_unlock _ _ _ _)]
  exact ⟨counter, Iff.rfl⟩

theorem Streak.step {entry : Round × List Action} (taken : KeptSteps setup manager entry after)
    (streak : Streak setup partition history (manager.diskfullCounter partition)) :
    Streak setup partition (history ++ [entry]) (after.diskfullCounter partition) := by
  obtain ⟨step, keeps⟩ := taken
  obtain ⟨counter, unlocks⟩ := step.counter partition
  rw [counter]
  cases found : foundAt 1 entry.1.partitions partition with
  | none =>
    have zero : manager.diskfullCounter partition = 0 := by
      by_contra counting
      obtain ⟨finding, member, _⟩ := keeps partition counting
      rw [found] at member
      cases member
    rw [Option.elim_none, zero]
    exact Streak.zero _
  | some finding =>
    rw [Option.elim_some, Finding.counted]
    split_ifs with due isFull freed
    · exact Streak.zero _
    · obtain ⟨front, back, split, length, all⟩ := streak
      refine ⟨front, back ++ [entry], by rw [split, List.append_assoc], ?_, ?_⟩
      · rw [List.length_append, List.length_singleton, ← length]
        rfl
      · intro other member
        rcases List.mem_append.mp member with earlier | last
        · exact all other earlier
        · rw [List.mem_singleton.mp last, unlocks]
          refine ⟨⟨finding, found, isFull⟩, ?_⟩
          rintro ⟨same, here, unlocked⟩
          rw [found] at here
          cases here
          exact due unlocked
    · have zero : manager.diskfullCounter partition = 0 := by
        by_contra counting
        obtain ⟨other, member, notFreed⟩ := keeps partition counting
        rw [found] at member
        cases member
        exact notFreed freed
      rw [zero]
      exact Streak.zero _
    · exact Streak.zero _

theorem run_streak (run : Runs (KeptSteps setup) Manager.start history manager)
    (partition : Nat) : Streak setup partition history (manager.diskfullCounter partition) := by
  induction run with
  | nil => exact Streak.zero []
  | snoc _ taken inductionHypothesis => exact inductionHypothesis.step taken

/-- In every run in which no room is made in a partition, and none goes away, while its counter is
not zero, a partition is unlocked only at the end of as many rounds as it takes in which it was
full, counted since it was last unlocked. -/
theorem unlocking_earned (setup : Setup) (history : List (Round × List Action))
    (manager after : Manager) (entry : Round × List Action)
    (run : Runs (KeptSteps setup) Manager.start history manager)
    (taken : KeptSteps setup manager entry after) (partition : Nat)
    (unlocked : .unlock partition ∈ entry.2) : Earned setup partition (history ++ [entry]) := by
  obtain ⟨finding, found, isFull, due⟩ := (taken.1.counter partition).2.mp unlocked
  obtain ⟨front, back, split, length, all⟩ := run_streak run partition
  by_cases patient : setup.patience.toNat = 0
  · exact ⟨history ++ [entry], [], (List.append_nil _).symm, patient.symm, by simp, by simp⟩
  have enough : setup.patience.toNat ≤ back.length + 1 := by omega
  -- The rounds that are counted are the last ones.
  have cut : back.length + 1 - setup.patience.toNat ≤ back.length := by omega
  refine ⟨front ++ back.take (back.length + 1 - setup.patience.toNat),
    back.drop (back.length + 1 - setup.patience.toNat) ++ [entry], ?_, ?_, ?_, ?_⟩
  · rw [split, List.append_assoc, List.append_assoc, ← List.append_assoc (List.take _ _),
      List.take_append_drop]
  · rw [List.length_append, List.length_drop, List.length_singleton]
    omega
  · intro other member
    rcases List.mem_append.mp member with earlier | last
    · exact (all other (List.mem_of_mem_drop earlier)).1
    · rw [List.mem_singleton.mp last]
      exact ⟨finding, found, isFull⟩
  · intro other member
    rw [List.dropLast_concat] at member
    exact (all other (List.mem_of_mem_drop member)).2

/-- A round with one partition, full. -/
def fullRound : Round := ⟨[], 1000, 0, [⟨0, -1⟩]⟩

/-- A round with one partition, in which room was made. -/
def freedRound : Round := ⟨[], 1000, 0, [⟨0, 0⟩]⟩

/-- The manager after some rounds with one partition, full. -/
def waiting (count : Nat) (actions : List Action) : Manager :=
  ⟨0, true, true, Function.update (fun _ => 0) 1 count, actions⟩

theorem waiting_full {count : Nat} (few : count + 1 < 360) :
    (waiting count []).full hourSetup 1 = some (waiting (count + 1) []) := by
  have early : ¬hourSetup.patience ≤ (waiting count []).diskfullCounter 1 + 1 := by
    show ¬(360 : Int) ≤ count + 1
    omega
  have flagged : (waiting count []).setDiskFullFlag hourSetup true = waiting count [] := rfl
  rw [Manager.full, flagged, if_neg early]
  show some _ = some _
  unfold waiting
  simp only [Function.update_idem, Function.update_self]
  rfl

theorem waiting_round {count : Nat} (actions : List Action) (few : count + 1 < 360) :
    (waiting count actions).round hourSetup fullRound = some (waiting (count + 1) []) := by
  have visited : (waiting count []).visit hourSetup 1 ⟨0, -1⟩ = some (waiting (count + 1) []) := by
    rw [Manager.visit, if_pos (by decide), if_pos (by decide), waiting_full few]
    rfl
  show ((waiting count []).visit hourSetup 1 ⟨0, -1⟩).bind _ = _
  rw [visited]
  rfl

theorem keeps_full (count : Nat) (actions : List Action) :
    Keeps hourSetup (waiting count actions) fullRound := by
  intro partition counting
  refine ⟨⟨0, -1⟩, ?_, by decide⟩
  have one : partition = 1 := by
    by_contra other
    have zero : (waiting count actions).diskfullCounter partition = 0 := by
      unfold waiting
      dsimp only
      exact Function.update_of_ne other _ _
    exact counting zero
  rw [one]
  rfl

/-- Rounds with one partition, full, from the start on. -/
def waited (count : Nat) : List (Round × List Action) :=
  (fullRound, [.sendState]) :: List.replicate count (fullRound, [])

theorem run_waited {count : Nat} (few : count + 1 < 360) :
    ∃ actions, Runs (KeptSteps hourSetup) Manager.start (waited count)
      (waiting (count + 1) actions) := by
  induction count with
  | zero =>
    refine ⟨[.sendState], .snoc .nil ⟨⟨?_, rfl⟩, fun _ counting => absurd rfl counting⟩⟩
    rfl
  | succ count inductionHypothesis =>
    obtain ⟨actions, run⟩ := inductionHypothesis (by omega)
    have longer : waited (count + 1) = waited count ++ [(fullRound, [])] := by
      rw [waited, List.replicate_succ', ← List.cons_append]
      rfl
    rw [longer]
    exact ⟨[], run.snoc ⟨⟨waiting_round actions few, rfl⟩, keeps_full _ _⟩⟩

/-- The partition is unlocked in the round that makes the hour full. -/
theorem unlocking_earned_hour : Earned hourSetup 1 (waited 358 ++ [(fullRound, [.unlock 1])]) := by
  obtain ⟨actions, run⟩ := @run_waited 358 (by decide)
  have taken : KeptSteps hourSetup (waiting 359 actions) (fullRound, [.unlock 1]) _ :=
    ⟨⟨rfl, rfl⟩, keeps_full _ _⟩
  exact unlocking_earned hourSetup _ _ _ _ run taken 1 (by decide)

/-- Room is made in the last round but one, and the partition is unlocked all the same. -/
theorem unlocked_after_room :
    ∃ manager after, Runs (Steps hourSetup) Manager.start
        (waited 358 ++ [(freedRound, [.sendState])]) manager ∧
      Steps hourSetup manager (fullRound, [.sendState, .unlock 1]) after ∧
      ¬Earned hourSetup 1 (waited 358 ++ [(freedRound, [.sendState])] ++
        [(fullRound, [.sendState, .unlock 1])]) := by
  obtain ⟨actions, run⟩ := @run_waited 358 (by decide)
  have waits : Runs (Steps hourSetup) Manager.start (waited 358) (waiting 359 actions) :=
    run.weaken fun _ _ _ taken => taken.1
  have freed : Steps hourSetup (waiting 359 actions) (freedRound, [.sendState]) _ := ⟨rfl, rfl⟩
  refine ⟨_, _, waits.snoc freed, ⟨rfl, rfl⟩, ?_⟩
  rintro ⟨front, back, split, length, all, _⟩
  have total := congrArg List.length split
  have patience : hourSetup.patience.toNat = 360 := rfl
  have one : front.length = 1 := by
    simp only [waited, List.length_append, List.length_cons, List.length_replicate,
      List.length_nil, length, patience] at total
    omega
  have last : back = List.replicate 358 (fullRound, []) ++
      [(freedRound, [.sendState]), (fullRound, [.sendState, .unlock 1])] := by
    have dropped := congrArg (List.drop front.length) split
    rw [List.drop_left, one] at dropped
    rw [← dropped]
    simp only [waited, List.cons_append, List.drop_succ_cons, List.drop_zero, List.append_assoc,
      List.nil_append]
  have inside : (freedRound, [Action.sendState]) ∈ back := by
    rw [last]
    exact List.mem_append_right _ List.mem_cons_self
  obtain ⟨finding, member, isFull⟩ := all _ inside
  cases member
  exact absurd isFull (by decide)

end Unlocking

end ExmOnvif.DiskMan
