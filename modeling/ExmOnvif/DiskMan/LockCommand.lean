/-
This file models the command that locks or unlocks the recordings of some channels for a
time, and proves for which channels it does what it says.

The channels are given as bits. Each bit is cut out of the mask and compared with one, so
that only the first channel is ever seen. For a time that does not begin before it ends,
all recordings of the channel are meant, and the index is asked without any bound for the
time; but a question without a start is one that the database does not understand. What
is asked for a proper time reaches the recordings that overlap it, and each of them is
locked if its new name can be read as the name of a locked file.
-/

import Mathlib.Algebra.Order.Group.Nat
import ExmOnvif.FileIndex.LockByTime
import ExmOnvif.HdModule.FieldCase

namespace ExmOnvif.DiskMan

open Library HdModule FileIndex

/-! ### The command -/

/-- `gt_time_struct`. -/
structure GtTime where
  year : Nat
  month : Nat
  day : Nat
  hour : Nat
  minute : Nat
  second : Nat
deriving DecidableEq, Repr

/-- `gttime2tm`. -/
def gttime2tm (gttime : GtTime) : Tm :=
  { year := gttime.year - 1900
    mon := gttime.month - 1
    mday := gttime.day
    hour := gttime.hour
    min := gttime.minute
    sec := gttime.second }

/-- `usr_lock_file_time_struct`. -/
structure UsrLockFileTime where
  mode : Nat
  lockCh : Nat
  start : GtTime
  stop : GtTime
deriving DecidableEq, Repr

/-- What the system does in the calls to the index of a channel. -/
structure Around where
  /-- What is on the stack when a name is read. -/
  stackAt : Nat → FileInfo
  /-- Whether `rename` succeeds. -/
  renamed : Nat → Bool

section Command

variable (mktime : Tm → Int) (around : Nat → Around)

/-- A turn of the loop of `usr_lock_file_time`, on the indexes of `/hqdata/sda1` to
`/hqdata/sda4`. -/
def lockChannel (lockfile : UsrLockFileTime) (partitions : Nat → Index) (i : Nat) : Nat → Index :=
  let startTimet := mktime (gttime2tm lockfile.start)
  let stopTimet := mktime (gttime2tm lockfile.stop)
  if lockfile.lockCh &&& 1 <<< i = 1 then
    Function.update partitions i
      (if stopTimet ≤ startTimet then
        (partitions i).lockByTime mktime (around i).stackAt lockfile.mode (-1) (-1) (-1) i
          (around i).renamed
      else
        (partitions i).lockByTime mktime (around i).stackAt lockfile.mode startTimet stopTimet (-1)
          i (around i).renamed)
  else partitions

/-- `usr_lock_file_time`, with what it returns. -/
def usrLockFileTime (path : Option Text) (lockfile : Option UsrLockFileTime)
    (partitions : Nat → Index) : Int × (Nat → Index) :=
  match path, lockfile with
  | some _, some lockfile =>
    (0, (List.range 4).foldl (lockChannel mktime around lockfile) partitions)
  | _, _ => (-1, partitions)

end Command

/-! ### What is asked of it -/

/-- An index whose rows were made from the names of the files, whatever was on the stack. -/
structure Listing (mktime : Tm → Int) extends Index where
  made : ∀ row ∈ rows, ∀ stack, row = Index.rowOf mktime stack row.name

/-- The channel is in the mask. -/
def UsrLockFileTime.Selects (lockfile : UsrLockFileTime) (i : Nat) : Prop :=
  lockfile.lockCh.testBit i = true

instance (lockfile : UsrLockFileTime) (i : Nat) : Decidable (lockfile.Selects i) :=
  inferInstanceAs (Decidable (_ = true))

/-- The row is of a finished file of the channel that overlaps the time, if it is one. -/
structure Meant (mktime : Tm → Int) (lockfile : UsrLockFileTime) (i : Nat) (index : Index)
    (row : Row) : Prop where
  listed : row ∈ index.rows
  existing : row.name ∈ index.files
  finished : row.ing = 0
  ch : row.ch = i
  overlaps : mktime (gttime2tm lockfile.start) < mktime (gttime2tm lockfile.stop) →
    row.start ≤ mktime (gttime2tm lockfile.stop) ∧ mktime (gttime2tm lockfile.start) ≤ row.stop

/-- The row is one of the file with this name, which may have been renamed. -/
def OfFile (mode : Int) (name : Text) (row : Row) : Prop :=
  row.name = name ∨ row.name = target mode name

/-- The file is in the index, and only as locked or only as not locked. -/
def HasLock (mode : Int) (name : Text) (index : Index) : Prop :=
  (∃ row ∈ index.rows, OfFile mode name row) ∧
    ∀ row ∈ index.rows, OfFile mode name row → row.lock = mode

/-- The rows of the channel are in the index as before, and its files are there. -/
def Untouched (i : Nat) (before after : Index) : Prop :=
  ∀ row ∈ before.rows, row.ch = i →
    row ∈ after.rows ∧ (row.name ∈ before.files → row.name ∈ after.files)

/-- The finished files of the selected channels that overlap the time have the lock, and the files
of the others are as they were. -/
def Covers (mktime : Tm → Int) (lockfile : UsrLockFileTime) (before after : Nat → Index) : Prop :=
  ∀ i < 4,
    if lockfile.Selects i then
      ∀ row, Meant mktime lockfile i (before i) row → HasLock lockfile.mode row.name (after i)
    else after i = before i ∧ ∀ partition < 4, Untouched i (before partition) (after partition)

/-- The new name of the file is read as one with the lock. -/
def Lockable (mktime : Tm → Int) (mode : Int) (name : Text) : Prop :=
  ∀ stack, (Index.rowOf mktime stack (target mode name)).lock = mode

/-! ### The lock of a name -/

section Names

variable {mktime : Tm → Int} {stack : FileInfo} {name : Text} {mode : Int}

/-- The lock that is read from a name. -/
def lockOf (name : Text) : Int := if lockFileFlag ∈ name then 1 else 0

theorem readField_lock {p : Text} {info next : FileInfo}
    (read : readField mktime p info = some next) : next.lock = info.lock := by
  unfold readField at read
  split at read
  · cases read
    rfl
  · split at read
    · cases read
      rfl
    · split at read
      · simp only at read
        split at read
        · cases read
        · cases read
          rfl
      · split at read
        · cases read
          rfl
        · split at read <;> cases read <;> rfl

/-- The fields of a name say nothing of the lock. -/
theorem scan_lock {marked : Bool} {p : Text} {info next : FileInfo} {code : Int}
    (scanned : HdModule.scan mktime marked p info = some (code, next)) :
    next.lock = info.lock := by
  fun_induction HdModule.scan mktime marked p info with
  | case1 | case2 | case4 =>
    cases scanned
    rfl
  | case3 _ _ _ _ inductionHypothesis => exact inductionHypothesis scanned
  | case5 => cases scanned
  | case6 _ _ _ _ _ _ _ _ read inductionHypothesis =>
    exact (inductionHypothesis scanned).trans (readField_lock read)

/-- The lock of a row is that of its name, or the name is not read and it is what was there. -/
theorem rowOf_lock (mktime : Tm → Int) (stack : FileInfo) (name : Text) :
    (Index.rowOf mktime stack name).lock = lockOf name ∨
      (Index.rowOf mktime stack name).lock = stack.lock := by
  unfold Index.rowOf
  cases read : filename2finfo mktime name stack with
  | none => exact .inr rfl
  | some result =>
    obtain ⟨code, finfo⟩ := result
    unfold filename2finfo at read
    split at read
    · cases read
      exact .inr rfl
    · cases copied : readPartition name stack.partition with
      | none =>
        rw [copied] at read
        cases read
      | some partition =>
        rw [copied] at read
        exact .inl (scan_lock read)

theorem rowOf_name (mktime : Tm → Int) (stack : FileInfo) (name : Text) :
    (Index.rowOf mktime stack name).name = name := rfl

/-- What a row says that does not depend on the stack is what its name says. -/
theorem lock_of_made {row : Row} (made : ∀ stack, row = Index.rowOf mktime stack row.name) :
    row.lock = lockOf row.name := by
  have there : ∀ lock : Int, row.lock = lockOf row.name ∨ row.lock = lock := fun lock => by
    have either := rowOf_lock mktime ⟨0, 0, 0, 0, 0, 0, lock, 0, []⟩ row.name
    rwa [← made] at either
  rcases there 2 with same | two
  · exact same
  · exact (there 3).resolve_right (by omega)

theorem lockOf_cases (name : Text) : lockOf name = 0 ∨ lockOf name = 1 := by
  unfold lockOf
  split
  · exact .inr rfl
  · exact .inl rfl

/-- The new name has the lock, or it is the old one. -/
theorem target_cases (known : mode = 0 ∨ mode = 1) (name : Text) :
    target mode name = name ∨ lockOf (target mode name) = mode := by
  unfold target
  rcases known with rfl | rfl
  · rw [if_pos rfl]
    unfold unlockFilename
    split
    · exact .inl rfl
    · split
      · exact .inl rfl
      · refine .inr (if_neg ?_)
        rw [List.mem_append, not_or]
        exact ⟨fun member => by simpa using List.mem_takeWhile_imp member, by decide⟩
  · rw [if_neg (by decide)]
    unfold lockFilename
    split
    · exact .inl rfl
    · split
      · exact .inl rfl
      · refine .inr (if_pos ?_)
        split <;> simp

/-- A name with the lock stays. -/
theorem target_of_lockOf (same : lockOf name = mode) : target mode name = name := by
  unfold lockOf at same
  unfold target
  split at same
  · next locked =>
    rw [← same, if_neg (by decide)]
    exact if_pos locked
  · next open_ =>
    rw [← same, if_pos rfl]
    exact if_pos open_

end Names

/-! ### What the renaming of files leaves -/

section Renaming

variable {mktime : Tm → Int} {stack : FileInfo} {stackAt : Nat → FileInfo}
  {renamed : Nat → Bool} {flag : Int} {names : List Text} {index : Index} {name newname : Text}
  {row : Row}

theorem mem_rename {succeeds : Bool}
    (member : row ∈ (index.rename mktime stack name newname succeeds).2.rows) :
    row.name ≠ name ∧ (row ∈ index.rows ∨ row = Index.rowOf mktime stack newname) := by
  have rows : (index.rename mktime stack name newname succeeds).2.rows =
      (if name ∈ index.files then index.rows ++ [Index.rowOf mktime stack newname]
        else index.rows).filter fun row => decide (row.name ≠ name) := by
    unfold Index.rename Index.move Index.add Index.delFile
    split
    · split <;> rfl
    · rfl
  rw [rows, List.mem_filter, decide_eq_true_eq] at member
  refine ⟨member.2, ?_⟩
  have inside := member.1
  split at inside
  · rcases List.mem_append.mp inside with old | new
    · exact .inl old
    · exact .inr (List.mem_singleton.mp new)
  · exact .inl inside

theorem rename_keeps {succeeds : Bool} (member : row ∈ index.rows) (other : row.name ≠ name) :
    row ∈ (index.rename mktime stack name newname succeeds).2.rows := by
  unfold Index.rename Index.move Index.add Index.delFile
  split
  · split <;>
      exact List.mem_filter.mpr ⟨List.mem_append_left _ member, decide_eq_true other⟩
  · exact List.mem_filter.mpr ⟨member, decide_eq_true other⟩

theorem rename_adds {succeeds : Bool} (existing : name ∈ index.files) (other : newname ≠ name) :
    Index.rowOf mktime stack newname ∈
      (index.rename mktime stack name newname succeeds).2.rows := by
  unfold Index.rename Index.move Index.add Index.delFile
  rw [if_pos existing]
  split <;>
    exact List.mem_filter.mpr ⟨List.mem_append_right _ (List.mem_singleton.mpr rfl),
      decide_eq_true other⟩

theorem rename_files {succeeds : Bool} {file : Text} (member : file ∈ index.files)
    (other : file ≠ name) :
    file ∈ (index.rename mktime stack name newname succeeds).2.files := by
  unfold Index.rename Index.move Index.add Index.delFile
  split
  · split
    · exact Finset.mem_insert_of_mem (Finset.mem_erase.mpr ⟨other, member⟩)
    · exact member
  · exact member

/-- A row is an old one with none of the names, or the one of a new name. -/
theorem mem_lockNames
    (member : row ∈ (Index.lockNames mktime flag names stackAt renamed index).rows) :
    row ∈ index.rows ∧ row.name ∉ names ∨
      ∃ name ∈ names, ∃ turn, row = Index.rowOf mktime (stackAt turn) (target flag name) := by
  induction names generalizing stackAt renamed index with
  | nil => exact .inl ⟨member, List.not_mem_nil⟩
  | cons name names inductionHypothesis =>
    rcases inductionHypothesis member with ⟨before, outside⟩ | ⟨other, inside, turn, same⟩
    · obtain ⟨different, old | new⟩ := mem_rename before
      · exact .inl ⟨old, fun listed => (List.mem_cons.mp listed).elim different outside⟩
      · exact .inr ⟨name, List.mem_cons_self, 0, new⟩
    · exact .inr ⟨other, List.mem_cons_of_mem _ inside, turn + 1, same⟩

/-- What has none of the names stays. -/
theorem lockNames_keeps (member : row ∈ index.rows) (outside : row.name ∉ names) :
    row ∈ (Index.lockNames mktime flag names stackAt renamed index).rows := by
  induction names generalizing stackAt renamed index with
  | nil => exact member
  | cons name names inductionHypothesis =>
    obtain ⟨other, rest⟩ := not_or.mp (List.mem_cons.not.mp outside)
    exact inductionHypothesis (rename_keeps member other) rest

theorem lockNames_files (member : name ∈ index.files) (outside : name ∉ names) :
    name ∈ (Index.lockNames mktime flag names stackAt renamed index).files := by
  induction names generalizing stackAt renamed index with
  | nil => exact member
  | cons first names inductionHypothesis =>
    obtain ⟨other, rest⟩ := not_or.mp (List.mem_cons.not.mp outside)
    exact inductionHypothesis (rename_files member other) rest

/-- A file with one of the names is in the index with its new one. -/
theorem lockNames_adds (listed : name ∈ names) (existing : name ∈ index.files)
    (fresh : target flag name ∉ names) :
    ∃ row ∈ (Index.lockNames mktime flag names stackAt renamed index).rows,
      row.name = target flag name := by
  induction names generalizing stackAt renamed index with
  | nil => exact absurd listed List.not_mem_nil
  | cons first names inductionHypothesis =>
    obtain ⟨other, rest⟩ := not_or.mp (List.mem_cons.not.mp fresh)
    by_cases here : name = first
    · subst here
      rw [Index.lockNames]
      exact ⟨Index.rowOf mktime (stackAt 0) (target flag name),
        lockNames_keeps (rename_adds existing other) rest, rowOf_name _ _ _⟩
    · exact inductionHypothesis ((List.mem_cons.mp listed).resolve_left here)
        (rename_files existing here) rest

end Renaming

/-! ### What the command asks for -/

section Asking

variable {mktime : Tm → Int} {around : Nat → Around} {lockfile : UsrLockFileTime}
  {partitions : Nat → Index} {path : Text} {i : Nat}

/-- The time is one that the index can be asked for. -/
def Bounded (mktime : Tm → Int) (lockfile : UsrLockFileTime) : Prop :=
  mktime (gttime2tm lockfile.start) < mktime (gttime2tm lockfile.stop) ∧
    mktime (gttime2tm lockfile.start) ≠ -1

instance (mktime : Tm → Int) (lockfile : UsrLockFileTime) : Decidable (Bounded mktime lockfile) :=
  inferInstanceAs (Decidable (_ ∧ _))

/-- The names that are found for a channel. -/
def asked (mktime : Tm → Int) (lockfile : UsrLockFileTime) (i : Nat) (index : Index) :
    List Text :=
  if i = 0 ∧ Bounded mktime lockfile then
    index.selected lockfile.mode (mktime (gttime2tm lockfile.start))
      (mktime (gttime2tm lockfile.stop)) (-1) 0
  else []

/-- Only the first bit of the mask is ever equal to one. -/
theorem bit_eq_one : lockfile.lockCh &&& 1 <<< i = 1 ↔ i = 0 ∧ lockfile.Selects 0 := by
  unfold UsrLockFileTime.Selects
  constructor
  · intro one
    have lowest := congrArg (fun word => word.testBit 0) one
    simp only [Nat.testBit_and, Nat.one_shiftLeft, Nat.testBit_two_pow, Nat.testBit_one_zero,
      Bool.and_eq_true, decide_eq_true_eq] at lowest
    exact ⟨lowest.2, lowest.1⟩
  · rintro ⟨rfl, bit⟩
    rw [Nat.shiftLeft_zero, Nat.and_one_is_mod]
    rwa [Nat.testBit_zero, decide_eq_true_eq] at bit

theorem lockChannel_zero (selects : lockfile.Selects 0) :
    lockChannel mktime around lockfile partitions 0 =
      Function.update partitions 0 (Index.lockNames mktime lockfile.mode
        (asked mktime lockfile 0 (partitions 0)) (around 0).stackAt (around 0).renamed
        (partitions 0)) := by
  have nothing : ∀ stoptime, (partitions 0).selected lockfile.mode (-1) stoptime (-1)
      ((0 : Nat) : Int) = [] := fun stoptime => if_pos ⟨rfl, by omega⟩
  unfold lockChannel Index.lockByTime asked
  dsimp only
  rw [if_pos (bit_eq_one.mpr ⟨rfl, selects⟩)]
  congr 1
  by_cases late : mktime (gttime2tm lockfile.stop) ≤ mktime (gttime2tm lockfile.start)
  · rw [if_pos late, nothing, if_neg fun bounded => absurd bounded.2.1 (not_lt.mpr late)]
  · rw [if_neg late]
    by_cases missing : mktime (gttime2tm lockfile.start) = -1
    · rw [missing, nothing, if_neg fun bounded => bounded.2.2 missing]
    · rw [if_pos ⟨rfl, lt_of_not_ge late, missing⟩]
      rfl

theorem lockChannel_other (other : ¬(i = 0 ∧ lockfile.Selects 0)) :
    lockChannel mktime around lockfile partitions i = partitions :=
  if_neg fun one => other (bit_eq_one.mp one)

/-- What the command does to the index of a selected channel. -/
theorem usrLockFileTime_selected (selects : lockfile.Selects i) :
    (usrLockFileTime mktime around (some path) (some lockfile) partitions).2 i =
      Index.lockNames mktime lockfile.mode (asked mktime lockfile i (partitions i))
        (around i).stackAt (around i).renamed (partitions i) := by
  show ([0, 1, 2, 3].foldl (lockChannel mktime around lockfile) partitions) i = _
  simp only [List.foldl_cons, List.foldl_nil]
  rw [lockChannel_other (by omega), lockChannel_other (by omega), lockChannel_other (by omega)]
  by_cases first : i = 0
  · subst first
    rw [lockChannel_zero selects, Function.update_self]
  · have none : asked mktime lockfile i (partitions i) = [] := if_neg fun bounded =>
      first bounded.1
    rw [none]
    by_cases other : lockfile.Selects 0
    · rw [lockChannel_zero other, Function.update_of_ne first]
      rfl
    · rw [lockChannel_other fun both => other both.2]
      rfl

/-- The index of a channel that is not selected stays. -/
theorem usrLockFileTime_other (other : ¬lockfile.Selects i) :
    (usrLockFileTime mktime around (some path) (some lockfile) partitions).2 i =
      partitions i := by
  show ([0, 1, 2, 3].foldl (lockChannel mktime around lockfile) partitions) i = _
  simp only [List.foldl_cons, List.foldl_nil]
  rw [lockChannel_other (by omega), lockChannel_other (by omega), lockChannel_other (by omega)]
  by_cases first : lockfile.Selects 0
  · have later : i ≠ 0 := fun same => other (same ▸ first)
    rw [lockChannel_zero first, Function.update_of_ne later]
  · rw [lockChannel_other fun both => first both.2]

/-- A name that is found is that of a row of the first channel that has not the lock. -/
theorem mem_asked {index : Index} {name : Text} (member : name ∈ asked mktime lockfile i index) :
    i = 0 ∧ ∃ row ∈ index.rows, row.name = name ∧ row.lock = 1 - lockfile.mode ∧ row.ch = 0 := by
  unfold asked at member
  split at member
  · next bounded =>
    unfold Index.selected at member
    rw [if_neg fun missing => bounded.2.2 missing.1] at member
    obtain ⟨row, inside, same⟩ := List.mem_map.mp member
    obtain ⟨listed, chosen⟩ := List.mem_filter.mp inside
    have chosen := of_decide_eq_true chosen
    exact ⟨bounded.1, row, listed, same, chosen.1, chosen.2.2.2.2.2 (by decide)⟩
  · cases member

/-- A row that is meant is found if it has not the lock. -/
theorem asked_of_meant {index : Index} {row : Row} (bounded : Bounded mktime lockfile)
    (meant : Meant mktime lockfile 0 index row) (lock : row.lock = 1 - lockfile.mode) :
    row.name ∈ asked mktime lockfile 0 index := by
  obtain ⟨start, stop⟩ := meant.overlaps bounded.1
  unfold asked Index.selected
  rw [if_pos ⟨rfl, bounded⟩, if_neg fun missing => bounded.2 missing.1]
  refine List.mem_map.mpr ⟨row, List.mem_filter.mpr ⟨meant.listed, decide_eq_true ?_⟩, rfl⟩
  exact ⟨lock, meant.finished, fun _ => start, fun _ => stop, fun given => absurd rfl given,
    fun _ => meant.ch⟩

end Asking

/-! ### Which files are covered -/

section Covering

variable {mktime : Tm → Int} {lockfile : UsrLockFileTime} {index : Listing mktime} {row : Row}
  {i : Nat} {stackAt : Nat → FileInfo} {renamed : Nat → Bool}

/-- The command reaches the file: it is one of the first channel, for a proper time, and its new
name is read as one with the lock. -/
def Reached (mktime : Tm → Int) (lockfile : UsrLockFileTime) (i : Nat) (row : Row) : Prop :=
  i = 0 ∧ Bounded mktime lockfile ∧ Lockable mktime lockfile.mode row.name

/-- There is one row for a name. -/
theorem Listing.unique {other : Row} (member : row ∈ index.rows) (listed : other ∈ index.rows)
    (same : other.name = row.name) : other = row := by
  have stack : FileInfo := ⟨0, 0, 0, 0, 0, 0, 0, 0, []⟩
  rw [index.made other listed stack, index.made row member stack, same]

/-- The names that are found are those of files without the lock. -/
theorem lockOf_asked {name : Text} (member : name ∈ asked mktime lockfile i index.toIndex) :
    lockOf name = 1 - lockfile.mode := by
  obtain ⟨_, row, listed, rfl, lock, _⟩ := mem_asked member
  rw [← lock_of_made (index.made row listed), lock]

/-- A file with the lock keeps it. -/
theorem hasLock_of_lock (member : row ∈ index.rows) (lock : row.lock = lockfile.mode) :
    HasLock lockfile.mode row.name (Index.lockNames mktime lockfile.mode
      (asked mktime lockfile i index.toIndex) stackAt renamed index.toIndex) := by
  have named := (lock_of_made (index.made row member)).symm.trans lock
  have stays := target_of_lockOf named
  have outside : row.name ∉ asked mktime lockfile i index.toIndex := fun inside => by
    have other := lockOf_asked inside
    omega
  refine ⟨⟨row, lockNames_keeps member outside, .inl rfl⟩, fun other inside ofFile => ?_⟩
  have same : other.name = row.name := ofFile.elim id fun renamed => renamed.trans stays
  rcases mem_lockNames inside with ⟨old, _⟩ | ⟨_, _, turn, new⟩
  · rw [Listing.unique member old same, lock]
  · rw [new, rowOf_name] at same
    rw [new, same, ← index.made row member, lock]

/-- A file that is reached gets the lock. -/
theorem hasLock_of_reached (known : (lockfile.mode : Int) = 0 ∨ (lockfile.mode : Int) = 1)
    (meant : Meant mktime lockfile i index.toIndex row) (reached : Reached mktime lockfile i row)
    (open_ : row.lock ≠ lockfile.mode) :
    HasLock lockfile.mode row.name (Index.lockNames mktime lockfile.mode
      (asked mktime lockfile i index.toIndex) stackAt renamed index.toIndex) := by
  obtain ⟨rfl, bounded, lockable⟩ := reached
  have named := lock_of_made (index.made row meant.listed)
  have lock : row.lock = 1 - lockfile.mode := by
    have either := lockOf_cases row.name
    omega
  have moves : target lockfile.mode row.name ≠ row.name := fun stays => by
    have stack : FileInfo := ⟨0, 0, 0, 0, 0, 0, 0, 0, []⟩
    have locked := lockable stack
    rw [stays, ← index.made row meant.listed] at locked
    exact open_ locked
  have newLock : lockOf (target lockfile.mode row.name) = lockfile.mode :=
    (target_cases known row.name).resolve_left moves
  have fresh : target lockfile.mode row.name ∉ asked mktime lockfile 0 index.toIndex :=
    fun inside => by
      have other := lockOf_asked inside
      omega
  have found := asked_of_meant bounded meant lock
  obtain ⟨new, inside, name⟩ :=
    @lockNames_adds mktime stackAt renamed lockfile.mode _ index.toIndex _ found meant.existing
      fresh
  refine ⟨⟨new, inside, .inr name⟩, fun other member ofFile => ?_⟩
  rcases mem_lockNames member with ⟨old, outside⟩ | ⟨first, listed, turn, rfl⟩
  · have same : other.name = target lockfile.mode row.name :=
      ofFile.resolve_left fun same => outside (same ▸ found)
    rw [index.made other old ⟨0, 0, 0, 0, 0, 0, 0, 0, []⟩, same]
    exact lockable _
  · rcases ofFile with same | same
    · rw [rowOf_name] at same
      rcases target_cases known first with stays | other
      · exact absurd (by rw [← same, stays, stays]) moves
      · have lockHere := named.symm.trans lock
        rw [same] at other
        omega
    · rw [rowOf_name] at same
      rw [same]
      exact lockable _

/-- A file that is not reached has not the lock afterwards, for some memory. -/
theorem exists_not_hasLock (meant : Meant mktime lockfile i index.toIndex row)
    (open_ : row.lock ≠ lockfile.mode) (missed : ¬Reached mktime lockfile i row) :
    ∃ stack, ∀ renamed, ¬HasLock lockfile.mode row.name (Index.lockNames mktime lockfile.mode
      (asked mktime lockfile i index.toIndex) (fun _ => stack) renamed index.toIndex) := by
  by_cases bounded : i = 0 ∧ Bounded mktime lockfile
  · have notLockable : ¬Lockable mktime lockfile.mode row.name :=
      fun lockable => missed ⟨bounded.1, bounded.2, lockable⟩
    obtain ⟨stack, other⟩ := not_forall.mp notLockable
    refine ⟨stack, fun renamed hasLock => ?_⟩
    obtain ⟨⟨found, inside, ofFile⟩, all⟩ := hasLock
    have lock := all found inside ofFile
    have same : found = row ∨
        found = Index.rowOf mktime stack (target lockfile.mode row.name) := by
      rcases mem_lockNames inside with ⟨old, _⟩ | ⟨first, _, turn, rfl⟩
      · rcases ofFile with name | name
        · exact .inl (Listing.unique meant.listed old name)
        · refine .inr ?_
          rw [← name]
          exact index.made found old stack
      · rcases ofFile with name | name
        · rw [rowOf_name] at name
          rw [name]
          exact .inl (index.made row meant.listed stack).symm
        · rw [rowOf_name] at name
          rw [name]
          exact .inr rfl
    rcases same with rfl | rfl
    · exact open_ lock
    · exact other lock
  · refine ⟨⟨0, 0, 0, 0, 0, 0, 0, 0, []⟩, fun renamed hasLock => ?_⟩
    have none : asked mktime lockfile i index.toIndex = [] := if_neg bounded
    rw [none] at hasLock
    exact open_ (hasLock.2 row meant.listed (.inl rfl))

/-- The files of another channel stay in every index. -/
theorem untouched_of_asked {partition : Nat} (other : i ≠ partition) :
    Untouched i index.toIndex (Index.lockNames mktime lockfile.mode
      (asked mktime lockfile partition index.toIndex) stackAt renamed index.toIndex) := by
  intro row member ch
  have outside : row.name ∉ asked mktime lockfile partition index.toIndex := fun inside => by
    obtain ⟨first, found, listed, same, _, zero⟩ := mem_asked inside
    rw [Listing.unique member listed same] at zero
    omega
  exact ⟨lockNames_keeps member outside, fun existing => lockNames_files existing outside⟩

/-- The command does what it says for all memory that it may find exactly if each file that is
meant either has the lock already or is reached. -/
theorem covers_iff (mktime : Tm → Int) (lockfile : UsrLockFileTime)
    (partitions : Nat → Listing mktime) (path : Text)
    (known : lockfile.mode = 0 ∨ lockfile.mode = 1) :
    (∀ around, Covers mktime lockfile (fun i => (partitions i).toIndex)
      (usrLockFileTime mktime around (some path) (some lockfile)
        fun i => (partitions i).toIndex).2) ↔
      ∀ i < 4, lockfile.Selects i → ∀ row, Meant mktime lockfile i (partitions i).toIndex row →
        row.lock = lockfile.mode ∨ Reached mktime lockfile i row := by
  have mode : (lockfile.mode : Int) = 0 ∨ (lockfile.mode : Int) = 1 := by omega
  constructor
  · intro covers i below selects row meant
    by_contra neither
    obtain ⟨open_, missed⟩ := not_or.mp neither
    obtain ⟨stack, without⟩ := exists_not_hasLock meant open_ missed
    have covered := covers (fun _ => ⟨fun _ => stack, fun _ => true⟩) i below
    rw [if_pos selects, usrLockFileTime_selected selects] at covered
    exact without _ (covered row meant)
  · intro reaches around i below
    split
    · next selects =>
      intro row meant
      rw [usrLockFileTime_selected selects]
      by_cases lock : row.lock = lockfile.mode
      · exact hasLock_of_lock meant.listed lock
      · exact hasLock_of_reached mode meant
          ((reaches i below selects row meant).resolve_left lock) lock
    · next other =>
      refine ⟨usrLockFileTime_other other, fun partition _ => ?_⟩
      by_cases selects : lockfile.Selects partition
      · rw [usrLockFileTime_selected selects]
        exact untouched_of_asked fun same => other (same ▸ selects)
      · rw [usrLockFileTime_other selects]
        exact fun row member _ => ⟨member, fun existing => existing⟩

end Covering

/-! ### Single recordings -/

/-- The fields of a recording of half a minute, with what follows them. -/
def clip (channel : Char) (tail : Text) : List Piece :=
  [.known .channel true ['0', channel] [],
    .known .stime true ['1', '9', '7', '0', '0', '1', '0', '1', '0', '0', '0', '1', '0', '0'] [],
    .known .len true ['3', '0'] [], .known .trig true ['0', '0'] tail]

/-- The name of the recording. -/
def clipName (channel : Char) (tail : Text) : Text := nameOf ['H', 'Q'] (clip channel tail)

theorem clip_proper {channel : Char} {tail : Text} (digit : channel.isDigit = true)
    (ends : ∀ char ∈ tail.head?, char.isAlphanum = false) :
    ∀ piece ∈ clip channel tail, piece.Proper := by
  have nothing : ∀ char ∈ ([] : Text).head?, char.isAlphanum = false := by
    rintro char ⟨⟩
  unfold clip
  rw [List.forall_mem_cons, List.forall_mem_cons, List.forall_mem_cons, List.forall_mem_singleton]
  refine ⟨⟨?_, nothing⟩, ⟨⟨List.all_iff_forall_prop.mp (by decide), by decide⟩, nothing⟩,
    ⟨List.all_iff_forall_prop.mp (by decide), nothing⟩,
    ⟨List.all_iff_forall_prop.mp (by decide), by decide, by decide⟩, ends⟩
  show ∀ char ∈ ['0', channel], char.isDigit = true
  rw [List.forall_mem_cons, List.forall_mem_singleton]
  exact ⟨by decide, digit⟩

/-- Its row does not depend on the stack. -/
theorem rowOf_clipName {channel : Char} {tail : Text} (digit : channel.isDigit = true)
    (ends : ∀ char ∈ tail.head?, char.isAlphanum = false)
    (within : ∀ piece ∈ clip channel tail, Within piece.text)
    (short : (clipName channel tail).length ≤ 100)
    (plain : strstr ['s', 'd'] (clipName channel tail) = none) (stack : FileInfo) :
    Index.rowOf secondOfDay stack (clipName channel tail) =
      ⟨clipName channel tail, 60, 90, numeral 10 decimalDigit ['0', channel], 0,
        if strstr recordingFileExt (clipName channel tail) = none then 0 else 1,
        lockOf (clipName channel tail)⟩ := by
  have read := @filename2finfo_nameOf secondOfDay stack ['H', 'Q'] (clip channel tail) (by decide)
    (clip_proper digit ends) within short
  have partition : readPartition (nameOf ['H', 'Q'] (clip channel tail)) stack.partition =
      some ['/', 'h', 'q', 'd', 'a', 't', 'a', '/', 's', 'd', 'a', '1'] := by
    unfold readPartition
    rw [show strstr ['s', 'd'] (nameOf ['H', 'Q'] (clip channel tail)) = none from plain]
  rw [partition] at read
  unfold Index.rowOf
  rw [show filename2finfo secondOfDay (clipName channel tail) stack = _ from read]
  rfl

/-- The row of a recording that is not locked. -/
def clipRow (channel : Char) : Row :=
  ⟨clipName channel imgFileExt, 60, 90, numeral 10 decimalDigit ['0', channel], 0, 0, 0⟩

theorem clipRow_made {channel : Char} (known : channel = '0' ∨ channel = '1') (stack : FileInfo) :
    clipRow channel = Index.rowOf secondOfDay stack (clipRow channel).name := by
  have ends : ∀ char ∈ imgFileExt.head?, char.isAlphanum = false := by
    rintro char ⟨⟩
    rfl
  rcases known with rfl | rfl
  · exact (rowOf_clipName (by decide) ends (by decide) (by decide) (by decide) stack).symm
  · exact (rowOf_clipName (by decide) ends (by decide) (by decide) (by decide) stack).symm

/-- A partition with one recording. -/
def clipListing (channel : Char) (known : channel = '0' ∨ channel = '1') : Listing secondOfDay where
  rows := [clipRow channel]
  files := {clipName channel imgFileExt}
  made row member stack := by
    rw [List.mem_singleton.mp member]
    exact clipRow_made known stack

/-- The command to lock some channels for the second minute of a day. -/
def lockMinute (lockCh : Nat) : UsrLockFileTime :=
  ⟨1, lockCh, ⟨1970, 1, 1, 0, 1, 0⟩, ⟨1970, 1, 1, 0, 2, 0⟩⟩

theorem clip_lockable : Lockable secondOfDay 1 (clipName '0' imgFileExt) := by
  intro stack
  have moved : target 1 (clipName '0' imgFileExt) = clipName '0' (lockFileFlag :: imgFileExt) := by
    decide
  have ends : ∀ char ∈ (lockFileFlag :: imgFileExt).head?, char.isAlphanum = false := by
    rintro char ⟨⟩
    rfl
  rw [moved, rowOf_clipName (by decide) ends (by decide) (by decide) (by decide)]
  decide

/-- The recording of the first channel is locked. -/
theorem covers_iff_first_channel :
    (lockMinute 1).mode = 1 ∧ ∀ around,
      Covers secondOfDay (lockMinute 1) (fun _ => (clipListing '0' (.inl rfl)).toIndex)
        (usrLockFileTime secondOfDay around (some []) (some (lockMinute 1))
          fun _ => (clipListing '0' (.inl rfl)).toIndex).2 := by
  have only : ∀ i < 4, (lockMinute 1).Selects i → i = 0 := by decide
  refine ⟨rfl, (covers_iff secondOfDay (lockMinute 1) (fun _ => clipListing '0' (.inl rfl)) []
    (.inr rfl)).mpr fun i below selects row meant => .inr ?_⟩
  have name : row.name = clipName '0' imgFileExt := by
    rw [List.mem_singleton.mp meant.listed]
    rfl
  refine ⟨only i below selects, by decide, ?_⟩
  rw [name]
  exact clip_lockable

/-- The recording of the second channel stays as it is. -/
theorem second_channel_missed :
    ¬∀ (mktime : Tm → Int) (lockfile : UsrLockFileTime) (partitions : Nat → Listing mktime)
      (path : Text), lockfile.mode = 0 ∨ lockfile.mode = 1 → ∀ around,
        Covers mktime lockfile (fun i => (partitions i).toIndex)
          (usrLockFileTime mktime around (some path) (some lockfile)
            fun i => (partitions i).toIndex).2 := by
  intro covers
  have meant : Meant secondOfDay (lockMinute 2) 1 (clipListing '1' (.inr rfl)).toIndex
      (clipRow '1') :=
    { listed := List.mem_singleton.mpr rfl
      existing := Finset.mem_singleton.mpr rfl
      finished := rfl
      ch := by decide
      overlaps := fun _ => by decide }
  have missed : ¬Reached secondOfDay (lockMinute 2) 1 (clipRow '1') :=
    fun reached => absurd reached.1 (by decide)
  obtain ⟨stack, without⟩ := exists_not_hasLock meant (by decide) missed
  have covered := covers secondOfDay (lockMinute 2) (fun _ => clipListing '1' (.inr rfl)) []
    (.inr rfl) (fun _ => ⟨fun _ => stack, fun _ => true⟩) 1 (by decide)
  have selects : (lockMinute 2).Selects 1 := by decide
  rw [if_pos selects, usrLockFileTime_selected selects] at covered
  exact without _ (covered _ meant)

end ExmOnvif.DiskMan
