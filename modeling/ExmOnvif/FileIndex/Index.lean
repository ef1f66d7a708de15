/-
This file models the index of the recorded files of a partition, which is a table of a
database, together with the files themselves, and proves when the two agree.

A file is renamed when its recording ends, when it is locked and when it is unlocked, and
the oldest files are deleted to make room. Each time the table is changed in one step and
the disk in another; the results of the second kind of step are not looked at. The
database is taken to do what it is told.
-/

import Mathlib.Data.Finset.Basic
import Mathlib.Data.List.Sort
import ExmOnvif.Library.Runs
import ExmOnvif.HdModule.FileName

namespace ExmOnvif.FileIndex

open Library HdModule

/-! ### The table and the files -/

/-- A row of the table. -/
structure Row where
  name : Text
  start : Int
  stop : Int
  ch : Int
  trig : Int
  ing : Int
  lock : Int
deriving DecidableEq, Repr

/-- The table of a partition and the recorded files that exist there. -/
structure Index where
  rows : List Row
  files : Finset Text

/-- `hdutil_lock_filename`. -/
def lockFilename (filename : Text) : Text :=
  if lockFileFlag ∈ filename then filename
  else
    match strstr imgFileExt filename with
    | none => filename
    | some found =>
      if remoteTrigFlag ∈ filename then
        filename.takeWhile (fun char => decide (char ≠ remoteTrigFlag)) ++
          remoteTrigFlag :: lockFileFlag :: imgFileExt
      else filename.take (filename.length - found.length) ++ lockFileFlag :: imgFileExt

/-- `hdutil_unlock_filename`. -/
def unlockFilename (filename : Text) : Text :=
  if lockFileFlag ∉ filename then filename
  else if strstr recordingFileExt filename ≠ none then filename
  else filename.takeWhile (fun char => decide (char ≠ lockFileFlag)) ++ imgFileExt

/-- The name a file is locked or unlocked under. -/
def target (flag : Int) (filename : Text) : Text :=
  if flag = 0 then unlockFilename filename else lockFilename filename

namespace Index

section Calls

-- The C library's `mktime`, and what a file information has in it before a name is read.
variable (mktime : Tm → Int) (stack : FileInfo)

/-- The row that `fileindex_add` inserts. -/
def rowOf (filename : Text) : Row :=
  let finfo :=
    match filename2finfo mktime filename stack with
    | some (_, finfo) => finfo
    | none => stack
  ⟨filename, finfo.stime, finfo.stime + finfo.len, finfo.channel, finfo.trig, finfo.ingFlag,
    finfo.lock⟩

/-- `fileindex_add`. -/
def add (index : Index) (filename : Text) : Index :=
  { index with rows := index.rows ++ [rowOf mktime stack filename] }

/-- `fileindex_del_file`. -/
def delFile (index : Index) (filename : Text) : Index :=
  { index with rows := index.rows.filter fun row => decide (row.name ≠ filename) }

/-- `rename`, of a file that exists. -/
def move (index : Index) (oldname newname : Text) (renamed : Bool) : Index :=
  if renamed then { index with files := insert newname (index.files.erase oldname) } else index

/-- `fileindex_rename`, with what it returns. -/
def rename (index : Index) (oldname newname : Text) (renamed : Bool) : Int × Index :=
  if oldname ∈ index.files then
    (0, (((index.add mktime stack newname).move oldname newname renamed).delFile oldname))
  else (-1, index.delFile oldname)

/-- The rows that `fileindex_del_oldest` selects. -/
def oldest (index : Index) (no : Nat) : List Text :=
  (((index.rows.filter fun row => decide (row.lock = 0 ∧ row.ing = 0)).insertionSort
    fun first second => first.start ≤ second.start).take no).map Row.name

/-- `fileindex_del_oldest`. -/
def delOldest (index : Index) (no : Int) (removed : Text → Bool) : Index :=
  if no ≤ 0 then index
  else
    { rows := index.rows.filter fun row => decide (row.name ∉ index.oldest no.toNat)
      files := index.files.filter fun name =>
        ¬(name ∈ index.oldest no.toNat ∧ removed name = true) }

/-- The rows that `fileindex_lock_by_time` selects. Without a start the next condition stands
right behind a number, and the database does not understand the command. -/
def selected (index : Index) (flag starttime stoptime trig ch : Int) : List Text :=
  if starttime = -1 ∧ ¬(stoptime = -1 ∧ trig = -1 ∧ ch = -1) then []
  else
    (index.rows.filter fun row => decide (row.lock = 1 - flag ∧ row.ing = 0 ∧
      (starttime ≠ -1 → row.start ≤ stoptime) ∧ (stoptime ≠ -1 → starttime ≤ row.stop) ∧
      (trig ≠ -1 → row.trig = trig) ∧ (ch ≠ -1 → row.ch = ch))).map Row.name

/-- The files are renamed one by one. -/
def lockNames (flag : Int) : List Text → (Nat → FileInfo) → (Nat → Bool) → Index → Index
  | [], _, _, index => index
  | name :: names, stackAt, renamed, index =>
    lockNames flag names (fun turn => stackAt (turn + 1)) (fun turn => renamed (turn + 1))
      (index.rename mktime (stackAt 0) name (target flag name) (renamed 0)).2

-- What it has there in a call that reads one name after the other.
variable (stackAt : Nat → FileInfo)

/-- `fileindex_lock_by_time`. -/
def lockByTime (index : Index) (flag starttime stoptime trig ch : Int) (renamed : Nat → Bool) :
    Index :=
  lockNames mktime flag (index.selected flag starttime stoptime trig ch) stackAt renamed index

/-- What is asked of an index, with the results of the calls to the disk. -/
inductive Call where
  | rename (oldname newname : Text) (renamed : Bool)
  | lockByTime (flag starttime stoptime trig ch : Int) (renamed : Nat → Bool)
  | delOldest (no : Int) (removed : Text → Bool)

/-- One call. -/
def call (index : Index) : Call → Index
  | .rename oldname newname renamed => (index.rename mktime (stackAt 0) oldname newname renamed).2
  | .lockByTime flag starttime stoptime trig ch renamed =>
    index.lockByTime mktime stackAt flag starttime stoptime trig ch renamed
  | .delOldest no removed => index.delOldest no removed

/-! ### Agreement -/

/-- The number of rows with a name. -/
def listed (index : Index) (name : Text) : Nat :=
  index.rows.countP fun row => decide (row.name = name)

/-- Every file has exactly one row with its name, and every row names a file. -/
structure Agrees (index : Index) : Prop where
  once : ∀ name ∈ index.files, index.listed name = 1
  existing : ∀ row ∈ index.rows, row.name ∈ index.files

/-- Renaming a file succeeds, under a name that no file has. -/
def Renames (index : Index) (oldname newname : Text) (renamed : Bool) : Prop :=
  oldname ∈ index.files → renamed = true ∧ newname ∉ index.files

/-- All the files are renamed, each under a name that no file has then. -/
def RenamesAll (flag : Int) : List Text → (Nat → FileInfo) → (Nat → Bool) → Index → Prop
  | [], _, _, _ => True
  | name :: names, stackAt, renamed, index =>
    index.Renames name (target flag name) (renamed 0) ∧
      RenamesAll flag names (fun turn => stackAt (turn + 1)) (fun turn => renamed (turn + 1))
        (index.rename mktime (stackAt 0) name (target flag name) (renamed 0)).2

/-- The disk does what the table says. -/
def Obeyed (index : Index) : Call → Prop
  | .rename oldname newname renamed => index.Renames oldname newname renamed
  | .lockByTime flag starttime stoptime trig ch renamed =>
    RenamesAll mktime flag (index.selected flag starttime stoptime trig ch) stackAt renamed index
  | .delOldest no removed =>
    0 < no → ∀ name ∈ index.oldest no.toNat, name ∈ index.files → removed name = true

instance (index : Index) (oldname newname : Text) (renamed : Bool) :
    Decidable (index.Renames oldname newname renamed) := inferInstanceAs (Decidable (_ → _))

instance (flag : Int) : (names : List Text) → (stackAt : Nat → FileInfo) →
    (renamed : Nat → Bool) → (index : Index) →
      Decidable (RenamesAll mktime flag names stackAt renamed index)
  | [], _, _, _ => isTrue trivial
  | name :: names, stackAt, renamed, index =>
    haveI := instDecidableRenamesAll flag names (fun turn => stackAt (turn + 1))
      (fun turn => renamed (turn + 1))
      (index.rename mktime (stackAt 0) name (target flag name) (renamed 0)).2
    inferInstanceAs (Decidable (_ ∧ _))

instance (index : Index) : (call : Call) → Decidable (index.Obeyed mktime stackAt call)
  | .rename _ _ _ => inferInstanceAs (Decidable (_ → _))
  | .lockByTime flag _ _ _ _ renamed =>
    inferInstanceAs (Decidable (RenamesAll mktime flag _ stackAt renamed index))
  | .delOldest no _ => inferInstanceAs (Decidable (0 < no → ∀ name ∈ _, _ → _))

end Calls

/-! ### One call -/

variable {mktime : Tm → Int} {stack : FileInfo} {stackAt : Nat → FileInfo} {index : Index}

/-- The agreement, counted. -/
theorem agrees_iff :
    index.Agrees ↔ ∀ name, index.listed name = if name ∈ index.files then 1 else 0 := by
  constructor
  · intro agrees name
    split
    · next present => exact agrees.once name present
    · next absent =>
      refine List.countP_eq_zero.mpr fun row member same => absent ?_
      rw [← of_decide_eq_true same]
      exact agrees.existing row member
  · intro counted
    refine ⟨fun name present => (counted name).trans (if_pos present), fun row member => ?_⟩
    by_contra absent
    have none := counted row.name
    rw [if_neg absent] at none
    exact List.countP_eq_zero.mp none row member (decide_eq_true rfl)

theorem listed_add (index : Index) (filename name : Text) :
    (index.add mktime stack filename).listed name =
      index.listed name + if filename = name then 1 else 0 := by
  unfold listed add
  rw [List.countP_append, List.countP_singleton]
  exact congrArg _ (if_congr decide_eq_true_iff rfl rfl)

theorem listed_filter (rows : List Row) (files files' : Finset Text) (kept : Text → Prop)
    [DecidablePred kept] (name : Text) :
    listed ⟨rows.filter fun row => decide (kept row.name), files⟩ name =
      if kept name then listed ⟨rows, files'⟩ name else 0 := by
  unfold listed
  rw [List.countP_filter]
  split
  · next keeps =>
    refine List.countP_congr fun row _ => ?_
    simp only [Bool.and_eq_true, decide_eq_true_eq]
    exact ⟨fun both => both.1, fun same => ⟨same, same ▸ keeps⟩⟩
  · next drops =>
    refine List.countP_eq_zero.mpr fun row _ both => drops ?_
    simp only [Bool.and_eq_true, decide_eq_true_eq] at both
    exact both.1 ▸ both.2

theorem listed_delFile (index : Index) (filename name : Text) :
    (index.delFile filename).listed name = if name ≠ filename then index.listed name else 0 :=
  listed_filter index.rows index.files index.files (· ≠ filename) name

/-- Renaming a file keeps the agreement where the disk obeys. -/
theorem Agrees.rename (agrees : index.Agrees) {oldname newname : Text} {renamed : Bool}
    (renames : index.Renames oldname newname renamed) :
    (index.rename mktime stack oldname newname renamed).2.Agrees := by
  rw [agrees_iff] at agrees ⊢
  intro name
  unfold Index.rename
  split
  · next present =>
    obtain ⟨rfl, free⟩ := renames present
    have different : newname ≠ oldname := fun same => free (same ▸ present)
    have files : name ∈ (((index.add mktime stack newname).move oldname newname true).delFile
        oldname).files ↔ name = newname ∨ name ≠ oldname ∧ name ∈ index.files := by
      simp only [delFile, move, add, if_true, Finset.mem_insert, Finset.mem_erase]
    have counted : (((index.add mktime stack newname).move oldname newname true).delFile
        oldname).listed name = if name ≠ oldname then
          index.listed name + (if newname = name then 1 else 0) else 0 := by
      rw [listed_delFile, ← listed_add]
      rfl
    simp only
    rw [counted]
    by_cases old : name = oldname
    · rw [if_neg (not_not.mpr old), if_neg]
      rw [files, old]
      rintro (same | ⟨other, _⟩)
      · exact different same.symm
      · exact other rfl
    · rw [if_pos old, agrees name]
      by_cases new : newname = name
      · subst new
        rw [if_neg free, if_pos rfl, if_pos (files.mpr (Or.inl rfl))]
      · rw [if_neg new, Nat.add_zero]
        refine if_congr ?_ rfl rfl
        rw [files]
        exact ⟨fun inside => Or.inr ⟨old, inside⟩,
          fun either => either.elim (fun same => absurd same.symm new) And.right⟩
  · next absent =>
    simp only
    rw [listed_delFile, agrees name]
    by_cases old : name = oldname
    · rw [if_neg (not_not.mpr old), old]
      exact (if_neg absent).symm
    · rw [if_pos old]
      rfl

theorem Agrees.lockNames {flag : Int} {names : List Text} {renamed : Nat → Bool}
    (agrees : index.Agrees) (all : RenamesAll mktime flag names stackAt renamed index) :
    (Index.lockNames mktime flag names stackAt renamed index).Agrees := by
  induction names generalizing stackAt renamed index with
  | nil => exact agrees
  | cons name names inductionHypothesis =>
    exact inductionHypothesis (agrees.rename all.1) all.2

/-- Deleting files keeps the agreement where the disk obeys. -/
theorem Agrees.delOldest (agrees : index.Agrees) {no : Int} {removed : Text → Bool}
    (obeyed : 0 < no → ∀ name ∈ index.oldest no.toNat, name ∈ index.files →
      removed name = true) : (index.delOldest no removed).Agrees := by
  unfold Index.delOldest
  split
  · exact agrees
  · next asked =>
    have gone := obeyed (not_le.mp asked)
    rw [agrees_iff] at agrees ⊢
    intro name
    rw [listed_filter index.rows _ index.files (· ∉ index.oldest no.toNat) name]
    by_cases chosen : name ∈ index.oldest no.toNat
    · rw [if_neg (not_not.mpr chosen), if_neg]
      rw [Finset.mem_filter]
      exact fun both => both.2 ⟨chosen, gone name chosen both.1⟩
    · rw [if_pos chosen]
      refine (agrees name).trans (if_congr ?_ rfl rfl)
      rw [Finset.mem_filter]
      exact ⟨fun inside => ⟨inside, fun both => chosen both.1⟩, And.left⟩

theorem Agrees.call (agrees : index.Agrees) {call : Call}
    (obeyed : index.Obeyed mktime stackAt call) : (index.call mktime stackAt call).Agrees := by
  cases call with
  | rename oldname newname renamed => exact agrees.rename obeyed
  | lockByTime flag starttime stoptime trig ch renamed => exact agrees.lockNames obeyed
  | delOldest no removed => exact agrees.delOldest obeyed

/-! ### Runs -/

/-- A call that the disk obeys. -/
def Step (mktime : Tm → Int) (before : Index) (call : Call) (after : Index) : Prop :=
  ∃ stackAt : Nat → FileInfo,
    before.call mktime stackAt call = after ∧ before.Obeyed mktime stackAt call

/-- The table and the files agree after every run in which the disk obeys. -/
theorem index_agrees {start : Index} {calls : List Call} (initial : start.Agrees)
    (run : Runs (Step mktime) start calls index) : index.Agrees := by
  refine Runs.invariant initial ?_ run
  rintro before call after ⟨stackAt, rfl, obeyed⟩ agrees
  exact agrees.call obeyed

/-- A file information before a name is read. -/
def blankInfo : FileInfo :=
  ⟨0, 0, 0, 0, 0, 0, 0, 0, ['/', 'h', 'q', 'd', 'a', 't', 'a', '/', 's', 'd', 'a', '1']⟩

/-- A file while it is recorded. -/
def recording : Text := nameWith blankInfo ⟨70, 0, 1, 14, 25, 4⟩ recordingFileExt

/-- The file when it is finished. -/
def recorded : Text :=
  nameWith { blankInfo with len := 30 } ⟨70, 0, 1, 14, 25, 4⟩ imgFileExt

/-- An index of one file. -/
def single : Index := ⟨[rowOf secondOfDay blankInfo recording], {recording}⟩

theorem single_agrees : single.Agrees where
  once := by
    intro name member
    rw [Finset.mem_singleton.mp member]
    exact List.countP_eq_length.mpr fun row inside => by
      rw [List.mem_singleton.mp inside]
      exact decide_eq_true rfl
  existing := by
    intro row member
    rw [List.mem_singleton.mp member]
    exact Finset.mem_singleton_self recording

/-- A file of the minute before. -/
def earlier : Text :=
  nameWith { blankInfo with len := 60 } ⟨70, 0, 1, 14, 24, 4⟩ imgFileExt

/-- An index of two files, one of them recorded. -/
def couple : Index :=
  ⟨[rowOf secondOfDay blankInfo earlier, rowOf secondOfDay blankInfo recording],
    {earlier, recording}⟩

/-- A recording ends, all files are locked and unlocked again, and the oldest one is deleted. -/
theorem index_agrees_two_files :
    ∃ index, Runs (Step secondOfDay) couple
        [.rename recording recorded true, .lockByTime 1 (-1) (-1) (-1) (-1) fun _ => true,
          .lockByTime 0 (-1) (-1) (-1) (-1) fun _ => true, .delOldest 1 fun _ => true] index ∧
      index.files = {recorded} ∧ index.Agrees := by
  have initial : couple.Agrees := ⟨by decide +kernel, by decide +kernel⟩
  have run : Runs (Step secondOfDay) couple
      [.rename recording recorded true, .lockByTime 1 (-1) (-1) (-1) (-1) fun _ => true,
        .lockByTime 0 (-1) (-1) (-1) (-1) fun _ => true, .delOldest 1 fun _ => true] _ :=
    .cons ⟨fun _ => blankInfo, rfl, by decide +kernel⟩
      (.cons ⟨fun _ => blankInfo, rfl, by decide +kernel⟩
        (.cons ⟨fun _ => blankInfo, rfl, by decide +kernel⟩
          (.cons ⟨fun _ => blankInfo, rfl, by decide +kernel⟩ .nil)))
  exact ⟨_, run, by decide +kernel, index_agrees initial run⟩

/-- Renaming fails, and the file stays behind without a row. -/
theorem file_without_row :
    single.Agrees ∧
      ¬(single.call secondOfDay (fun _ => blankInfo)
        (.rename recording recorded false)).Agrees := by
  refine ⟨single_agrees, fun agrees => ?_⟩
  have here : recording ∈ single.files := Finset.mem_singleton_self recording
  have failed : single.call secondOfDay (fun _ => blankInfo) (.rename recording recorded false) =
      (single.add secondOfDay blankInfo recorded).delFile recording := by
    show (single.rename secondOfDay blankInfo recording recorded false).2 = _
    unfold Index.rename
    rw [if_pos here]
    rfl
  rw [failed] at agrees
  have once := agrees.once recording here
  rw [listed_delFile, if_neg (not_not.mpr rfl)] at once
  cases once

end Index

end ExmOnvif.FileIndex
