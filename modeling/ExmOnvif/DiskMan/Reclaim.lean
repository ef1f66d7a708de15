/-
This file models how the disk manager makes room on a partition, and proves when it
stops with enough room or with nothing left to delete.

The oldest ten files of the index that are neither locked nor being recorded are deleted
at a time. That there is nothing left to delete is concluded from a free space, in whole
megabytes, that did not change.
-/

import Mathlib.Algebra.BigOperators.Group.Finset.Basic
import Mathlib.Algebra.Order.BigOperators.Group.Finset
import ExmOnvif.Library.Settling
import ExmOnvif.FileIndex.Index

namespace ExmOnvif.DiskMan

open Library FileIndex HdModule

/-! ### The partition -/

/-- A partition: its index and its files, and the kilobytes they take of those there are. -/
structure Partition where
  index : Index
  size : Text → Nat
  capacity : Nat

/-- The rows of the files that may be deleted. -/
def Removable (row : Row) : Prop := row.lock = 0 ∧ row.ing = 0

namespace Partition

/-- `get_disk_free`: the free space, in megabytes. -/
def getDiskFree (partition : Partition) : Nat :=
  (partition.capacity - ∑ name ∈ partition.index.files, partition.size name) / 1024

section Calls

-- The disk's type, and which of the calls to `remove` succeed.
variable (hdType : Int) (removed : Text → Bool)

/-- `fileindex_del_oldest` of ten files. -/
def delTen (partition : Partition) : Partition :=
  { partition with index := partition.index.delOldest 10 removed }

/-- The free space to stop at: `HD_RM_STOP` or `CF_RM_STOP`. -/
def rmStop : Nat := if hdType = 1 then 450 else 150

/-- `remove_oldest_from_partition`, with what it returns. -/
def removeOldest (partition : Partition) : Option (Int × Partition) :=
  (settle (delTen removed) getDiskFree (rmStop hdType) (partition.index.rows.length + 1)
    partition.getDiskFree partition).map fun after =>
      (if rmStop hdType ≤ after.getDiskFree then 0 else -1, after)

/-! ### What is asked of it -/

/-- A file that may be deleted is left. -/
def Left (partition : Partition) : Prop :=
  ∃ row ∈ partition.index.rows, Removable row ∧ row.name ∈ partition.index.files

/-- Only files that may be deleted are deleted, and no younger one before an older one. -/
def DeletesOldest (before after : Partition) : Prop :=
  ∀ name ∈ before.index.files, name ∉ after.index.files →
    ∃ row ∈ before.index.rows, Removable row ∧ row.name = name ∧
      ∀ other ∈ after.index.rows, Removable other → row.start ≤ other.start

/-- There is enough room, or nothing left to delete. -/
def Reclaimed (result : Int) (after : Partition) : Prop :=
  result = 0 ∧ rmStop hdType ≤ after.getDiskFree ∨ result < 0 ∧ ¬after.Left

/-- Whenever files are left that may be deleted and there is not enough room, the last ten have
changed the reading of the free space. -/
def Shows (partition : Partition) : Prop :=
  ∀ count, ((delTen removed)^[count + 1] partition).Left →
    ((delTen removed)^[count + 1] partition).getDiskFree < rmStop hdType →
      ((delTen removed)^[count] partition).getDiskFree ≠
        ((delTen removed)^[count + 1] partition).getDiskFree

end Calls

/-! ### Ten files -/

variable {hdType : Int} {removed : Text → Bool} {partition : Partition}

theorem delTen_rows (partition : Partition) :
    (partition.delTen removed).index.rows =
      partition.index.rows.filter fun row => decide (row.name ∉ partition.index.oldest 10) := rfl

theorem delTen_files (partition : Partition) :
    (partition.delTen removed).index.files =
      partition.index.files.filter fun name =>
        ¬(name ∈ partition.index.oldest 10 ∧ removed name = true) := rfl

theorem delTen_files_subset (partition : Partition) :
    (partition.delTen removed).index.files ⊆ partition.index.files :=
  Finset.filter_subset _ _

theorem mem_delTen_rows {row : Row} (member : row ∈ (partition.delTen removed).index.rows) :
    row ∈ partition.index.rows ∧ row.name ∉ partition.index.oldest 10 := by
  rw [delTen_rows] at member
  obtain ⟨inside, kept⟩ := List.mem_filter.mp member
  exact ⟨inside, of_decide_eq_true kept⟩

/-- The files that may be deleted, oldest first. -/
def queue (partition : Partition) : List Row :=
  (partition.index.rows.filter fun row => decide (row.lock = 0 ∧ row.ing = 0)).insertionSort
    fun first second => first.start ≤ second.start

theorem mem_queue {row : Row} :
    row ∈ partition.queue ↔ row ∈ partition.index.rows ∧ Removable row := by
  rw [queue, List.mem_insertionSort, List.mem_filter, decide_eq_true_iff]
  rfl

theorem queue_pairwise (partition : Partition) :
    partition.queue.Pairwise fun first second => first.start ≤ second.start := by
  have total : Std.Total fun first second : Row => first.start ≤ second.start :=
    ⟨fun first second => le_total _ _⟩
  have trans : IsTrans Row fun first second => first.start ≤ second.start :=
    ⟨fun _ _ _ => le_trans⟩
  exact List.pairwise_insertionSort _ _

/-- A selected name is that of a file that may be deleted, which is no younger than those that are
not selected. -/
theorem mem_oldest {name : Text} {count : Nat} (member : name ∈ partition.index.oldest count) :
    ∃ row ∈ partition.index.rows, Removable row ∧ row.name = name ∧
      ∀ other ∈ partition.index.rows, Removable other →
        other.name ∉ partition.index.oldest count → row.start ≤ other.start := by
  obtain ⟨row, front, same⟩ := List.mem_map.mp member
  obtain ⟨inside, removable⟩ := mem_queue.mp (List.mem_of_mem_take front)
  refine ⟨row, inside, removable, same, fun other listed may kept => ?_⟩
  have queued : other ∈ partition.queue.take count ++ partition.queue.drop count := by
    rw [List.take_append_drop]
    exact mem_queue.mpr ⟨listed, may⟩
  have sorted := queue_pairwise partition
  rw [← List.take_append_drop count partition.queue, List.pairwise_append] at sorted
  rcases List.mem_append.mp queued with early | late
  · exact absurd (List.mem_map_of_mem early) kept
  · exact sorted.2.2 row front other late

theorem delTen_free_le (partition : Partition) :
    partition.getDiskFree ≤ (partition.delTen removed).getDiskFree := by
  refine Nat.div_le_div_right (Nat.sub_le_sub_left ?_ _)
  exact Finset.sum_le_sum_of_subset (delTen_files_subset partition)

theorem Left.of_delTen (left : (partition.delTen removed).Left) : partition.Left := by
  obtain ⟨row, listed, may, present⟩ := left
  exact ⟨row, (mem_delTen_rows listed).1, may, delTen_files_subset partition present⟩

/-- Without files that may be deleted nothing is. -/
theorem delTen_free_of_none (none : partition.index.oldest 10 = []) :
    partition.getDiskFree = (partition.delTen removed).getDiskFree := by
  have files : (partition.delTen removed).index.files = partition.index.files := by
    rw [delTen_files]
    refine Finset.filter_true_of_mem fun name _ both => ?_
    rw [none] at both
    cases both.1
  unfold getDiskFree
  rw [files]
  rfl

/-- A reading that changes costs the index a row. -/
theorem delTen_rows_length (moved : partition.getDiskFree ≠
      (partition.delTen removed).getDiskFree) :
    (partition.delTen removed).index.rows.length < partition.index.rows.length := by
  cases chosen : partition.index.oldest 10 with
  | nil => exact absurd (delTen_free_of_none chosen) moved
  | cons name names =>
    have member : name ∈ partition.index.oldest 10 := by
      rw [chosen]
      exact List.mem_cons_self
    obtain ⟨row, listed, _, same, _⟩ := mem_oldest member
    rw [delTen_rows]
    refine List.length_filter_lt_length_iff_exists.mpr ⟨row, listed, ?_⟩
    rw [same, decide_eq_true_iff, not_not]
    exact member

/-! ### The loop -/

theorem deletesOldest_refl (partition : Partition) : DeletesOldest partition partition :=
  fun _ present gone => absurd present gone

/-- Ten more files. -/
theorem DeletesOldest.delTen {before after : Partition} (deletes : DeletesOldest before after)
    (rows : ∀ row ∈ after.index.rows, row ∈ before.index.rows) :
    DeletesOldest before (after.delTen removed) := by
  intro name present gone
  by_cases still : name ∈ after.index.files
  · have chosen : name ∈ after.index.oldest 10 := by
      by_contra spared
      refine gone ?_
      rw [delTen_files]
      exact Finset.mem_filter.mpr ⟨still, fun both => spared both.1⟩
    obtain ⟨row, listed, may, same, younger⟩ := mem_oldest chosen
    refine ⟨row, rows row listed, may, same, fun other kept removable => ?_⟩
    obtain ⟨inside, spared⟩ := mem_delTen_rows kept
    exact younger other inside removable spared
  · obtain ⟨row, listed, may, same, younger⟩ := deletes name present still
    exact ⟨row, listed, may, same, fun other kept => younger other (mem_delTen_rows kept).1⟩

theorem iterate_delTen (partition : Partition) (count : Nat) :
    DeletesOldest partition ((delTen removed)^[count] partition) ∧
      ∀ row ∈ ((delTen removed)^[count] partition).index.rows, row ∈ partition.index.rows := by
  induction count with
  | zero => exact ⟨deletesOldest_refl partition, fun _ member => member⟩
  | succ count inductionHypothesis =>
    rw [Function.iterate_succ_apply']
    obtain ⟨deletes, rows⟩ := inductionHypothesis
    exact ⟨deletes.delTen rows, fun row member => rows row (mem_delTen_rows member).1⟩

/-- The room is made in the end, with the oldest files deleted that may be; there is enough of it
or nothing left to delete exactly if the reading shows every ten files that matter. -/
theorem space_reclaim_iff (partition : Partition) (hdType : Int) (removed : Text → Bool) :
    ∃ result after, partition.removeOldest hdType removed = some (result, after) ∧
      DeletesOldest partition after ∧
      (Reclaimed hdType result after ↔ partition.Shows hdType removed) := by
  have ends : ∃ after, settle (delTen removed) getDiskFree (rmStop hdType)
      (partition.index.rows.length + 1) partition.getDiskFree partition = some after :=
    settle_ends (fun partition => partition.index.rows.length)
      (fun _ moved => delTen_rows_length moved) (Nat.lt_succ_self _)
  obtain ⟨after, ended⟩ := ends
  have returned : partition.removeOldest hdType removed =
      some (if rmStop hdType ≤ after.getDiskFree then 0 else -1, after) := by
    rw [removeOldest, ended, Option.map_some]
  refine ⟨_, after, returned, ?_, ?_⟩
  · obtain ⟨count, there, _⟩ := settle_cases ended
    rw [there]
    exact (iterate_delTen partition (count + 1)).1
  · refine Iff.trans ?_ (settled_iff delTen_free_le (fun _ => Left.of_delTen) ended)
    unfold Reclaimed
    by_cases enough : rmStop hdType ≤ after.getDiskFree
    · rw [if_pos enough]
      exact ⟨fun _ => Or.inl enough, fun _ => Or.inl ⟨rfl, enough⟩⟩
    · rw [if_neg enough]
      refine ⟨fun either => Or.inr ?_, fun either => Or.inr ⟨by decide, ?_⟩⟩
      · rcases either with ⟨zero, _⟩ | ⟨_, nothing⟩
        · cases zero
        · exact nothing
      · exact either.resolve_left enough

/-- The rows of eleven finished files. -/
def elevenRows : List Row :=
  (List.range 11).map fun number => ⟨[Char.ofNat (65 + number)], number, number + 1, 0, 0, 0, 0⟩

/-- A card with eleven files of fifty kilobytes each and not enough room. -/
def elevenFiles : Partition :=
  ⟨⟨elevenRows, (elevenRows.map Row.name).toFinset⟩, fun _ => 50, 102400⟩

/-- Ten of the files take less than a megabyte, and the eleventh is not deleted. -/
theorem small_files_not_counted :
    ∃ after, elevenFiles.removeOldest 0 (fun _ => true) = some (-1, after) ∧ after.Left ∧
      ¬Reclaimed 0 (-1) after := by
  have before : elevenFiles.getDiskFree = 99 := by decide +kernel
  have after : (elevenFiles.delTen fun _ => true).getDiskFree = 99 := by decide +kernel
  have left : (elevenFiles.delTen fun _ => true).Left := by
    refine ⟨⟨['K'], 10, 11, 0, 0, 0, 0⟩, ?_, ⟨rfl, rfl⟩, ?_⟩
    · decide +kernel
    · decide +kernel
  refine ⟨_, ?_, left, ?_⟩
  · rw [removeOldest, settle, before, if_pos (Or.inl after.symm), Option.map_some, after]
    rfl
  · rintro (⟨zero, _⟩ | ⟨_, nothing⟩)
    · cases zero
    · exact nothing left

end Partition

end ExmOnvif.DiskMan
