/-
This file proves which recordings are locked or unlocked by a call for a time: those that
overlap the time, of an alarm and a channel, where minus one stands for any.

The command to the database is put together of a piece for each bound. Each of the two
pieces for the time is left out if the other bound is missing, and the first of all the
pieces is the only one with a blank in front. So the call selects what it is meant to if
both bounds are given, or nothing at all; what it selects with one bound is a question of
the rows.

A row that is selected is then renamed only if its file is there and its name changes;
else it is deleted. The names that a file is renamed to change no more, so the table and
the files tell after the call which rows were renamed.
-/

import ExmOnvif.FileIndex.Index

namespace ExmOnvif.FileIndex.Index

open Library HdModule

variable {index : Index} {flag starttime stoptime trig ch : Int}

/-! ### The rows of a call -/

/-- What every call asks of a row: a finished file that is not yet locked, or not yet unlocked, of
an alarm and a channel. -/
def Wanted (flag trig ch : Int) (row : Row) : Prop :=
  row.ing = 0 ∧ row.lock = 1 - flag ∧ (trig ≠ -1 → row.trig = trig) ∧ (ch ≠ -1 → row.ch = ch)

instance (flag trig ch : Int) (row : Row) : Decidable (Wanted flag trig ch row) :=
  inferInstanceAs (Decidable (_ ∧ _ ∧ _ ∧ _))

/-- The row overlaps the time, as far as it is bounded. -/
def Overlaps (starttime stoptime : Int) (row : Row) : Prop :=
  (stoptime ≠ -1 → row.start ≤ stoptime) ∧ (starttime ≠ -1 → starttime ≤ row.stop)

instance (starttime stoptime : Int) (row : Row) : Decidable (Overlaps starttime stoptime row) :=
  inferInstanceAs (Decidable (_ ∧ _))

/-- The database understands the command. -/
def Understood (starttime stoptime trig ch : Int) : Prop :=
  starttime ≠ -1 ∨ stoptime = -1 ∧ trig = -1 ∧ ch = -1

instance (starttime stoptime trig ch : Int) : Decidable (Understood starttime stoptime trig ch) :=
  inferInstanceAs (Decidable (_ ∨ _))

/-- What the pieces for the time ask of a row. -/
def Compared (starttime stoptime : Int) (row : Row) : Prop :=
  (starttime ≠ -1 → row.start ≤ stoptime) ∧ (stoptime ≠ -1 → starttime ≤ row.stop)

instance (starttime stoptime : Int) (row : Row) : Decidable (Compared starttime stoptime row) :=
  inferInstanceAs (Decidable (_ ∧ _))

/-- The rows that the command selects. -/
def chosen (index : Index) (flag starttime stoptime trig ch : Int) : List Row :=
  index.rows.filter fun row => decide (Understood starttime stoptime trig ch ∧
    Wanted flag trig ch row ∧ Compared starttime stoptime row)

/-- The rows that are meant. -/
def meant (index : Index) (flag starttime stoptime trig ch : Int) : List Row :=
  index.rows.filter fun row => decide (Wanted flag trig ch row ∧ Overlaps starttime stoptime row)

/-- The names that the command finds are those of its rows. -/
theorem selected_eq : index.selected flag starttime stoptime trig ch =
    (index.chosen flag starttime stoptime trig ch).map Row.name := by
  unfold selected chosen
  split
  · next refused =>
    rw [List.filter_eq_nil_iff.mpr, List.map_nil]
    intro row _ selects
    exact (of_decide_eq_true selects).1.elim (fun given => given refused.1) refused.2
  · next understood =>
    have plain : Understood starttime stoptime trig ch := by
      by_cases given : starttime = -1
      · exact Or.inr (not_not.mp fun some => understood ⟨given, some⟩)
      · exact Or.inl given
    refine congrArg _ (List.filter_congr fun row _ => decide_eq_decide.mpr ?_)
    unfold Wanted Compared
    tauto

/-! ### The names -/

/-- A file that is locked or unlocked keeps its name from then on. -/
theorem target_target (flag : Int) (name : Text) :
    target flag (target flag name) = target flag name := by
  unfold target
  by_cases unlocking : flag = 0
  · rw [if_pos unlocking, if_pos unlocking]
    by_cases open_ : lockFileFlag ∉ name
    · have same : unlockFilename name = name := if_pos open_
      rw [same, same]
    · by_cases recording : strstr recordingFileExt name ≠ none
      · have same : unlockFilename name = name := (if_neg open_).trans (if_pos recording)
        rw [same, same]
      · have unlocked : unlockFilename name =
            name.takeWhile (fun char => decide (char ≠ lockFileFlag)) ++ imgFileExt :=
          (if_neg open_).trans (if_neg recording)
        have clear : lockFileFlag ∉ unlockFilename name := by
          rw [unlocked, List.mem_append]
          rintro (front | extension)
          · exact absurd (List.mem_takeWhile_imp front) (by decide)
          · exact absurd extension (by decide)
        exact if_pos clear
  · rw [if_neg unlocking, if_neg unlocking]
    by_cases locked : lockFileFlag ∈ name
    · have same : lockFilename name = name := if_pos locked
      rw [same, same]
    · cases search : strstr imgFileExt name with
      | none =>
        have same : lockFilename name = name := by
          unfold lockFilename
          rw [if_neg locked, search]
        rw [same, same]
      | some found =>
        have marked : lockFileFlag ∈ lockFilename name := by
          unfold lockFilename
          rw [if_neg locked, search]
          dsimp only
          split
          · exact List.mem_append_right _ (List.mem_cons_of_mem _ List.mem_cons_self)
          · exact List.mem_append_right _ List.mem_cons_self
        exact if_pos marked

/-- A name that changes is not one that a file is renamed to. -/
theorem ne_target {name : Text} (changes : target flag name ≠ name) (other : Text) :
    name ≠ target flag other := by
  rintro rfl
  exact changes (target_target flag other)

/-! ### One file -/

section Rename

variable {mktime : Tm → Int} {stack : FileInfo} {oldname newname name : Text} {renamed : Bool}

theorem rename_rows :
    (index.rename mktime stack oldname newname renamed).2.rows =
      (if oldname ∈ index.files then index.rows ++ [rowOf mktime stack newname]
        else index.rows).filter fun row => decide (row.name ≠ oldname) := by
  unfold rename
  split
  · cases renamed <;> rfl
  · rfl

theorem rename_files :
    (index.rename mktime stack oldname newname renamed).2.files =
      if oldname ∈ index.files ∧ renamed = true then insert newname (index.files.erase oldname)
        else index.files := by
  unfold rename
  by_cases present : oldname ∈ index.files
  · rw [if_pos present]
    cases renamed with
    | true => rw [if_pos ⟨present, rfl⟩]; rfl
    | false => rw [if_neg fun both => Bool.false_ne_true both.2]; rfl
  · rw [if_neg present, if_neg fun both => present both.1]
    rfl

/-- The file of a name that changes is there afterwards unless it is the one that is renamed. -/
theorem mem_files_rename (changes : target flag name ≠ name) :
    name ∈ (index.rename mktime stack oldname (target flag oldname) renamed).2.files ↔
      name ∈ index.files ∧ ¬(name = oldname ∧ renamed = true) := by
  have other := ne_target changes oldname
  rw [rename_files]
  split
  · next both =>
    rw [Finset.mem_insert, Finset.mem_erase, or_iff_right other, and_comm, both.2]
    simp only [and_true]
  · next neither =>
    exact ⟨fun inside => ⟨inside, fun both => neither ⟨both.1 ▸ inside, both.2⟩⟩, And.left⟩

/-- A row with a name that changes is there afterwards unless it has the name of the file. -/
theorem mem_rows_rename {row : Row} (changes : target flag row.name ≠ row.name) :
    row ∈ (index.rename mktime stack oldname (target flag oldname) renamed).2.rows ↔
      row ∈ index.rows ∧ row.name ≠ oldname := by
  have other : row ≠ rowOf mktime stack (target flag oldname) :=
    fun same => ne_target changes oldname (congrArg Row.name same)
  rw [rename_rows, List.mem_filter, decide_eq_true_eq]
  split
  · rw [List.mem_append, List.mem_singleton, or_iff_left other]
  · exact Iff.rfl

/-- The rows with another name are counted as before, but for the new one. -/
theorem listed_rename (different : name ≠ oldname) :
    (index.rename mktime stack oldname newname renamed).2.listed name =
      index.listed name + if oldname ∈ index.files ∧ newname = name then 1 else 0 := by
  unfold rename
  by_cases present : oldname ∈ index.files
  · have moved : ((index.add mktime stack newname).move oldname newname renamed).listed name =
        (index.add mktime stack newname).listed name := by
      cases renamed <;> rfl
    rw [if_pos present]
    dsimp only
    rw [listed_delFile, if_pos different, moved, listed_add]
    exact congrArg _ (if_congr (and_iff_right present).symm rfl rfl)
  · rw [if_neg present, if_neg fun both => present both.1]
    dsimp only
    rw [listed_delFile, if_pos different, Nat.add_zero]

/-- Each row with the old name goes, and one comes if there is the file and its name changes. -/
theorem length_rename :
    (index.rename mktime stack oldname newname renamed).2.rows.length + index.listed oldname =
      index.rows.length + if oldname ∈ index.files ∧ newname ≠ oldname then 1 else 0 := by
  have split (rows : List Row) : (rows.filter fun row => decide (row.name ≠ oldname)).length +
      rows.countP (fun row => decide (row.name = oldname)) = rows.length := by
    rw [← List.countP_eq_length_filter, Nat.add_comm,
      List.length_eq_countP_add_countP fun row : Row => decide (row.name = oldname)]
    refine congrArg _ (List.countP_congr fun row _ => ?_)
    simp
  rw [rename_rows]
  unfold listed
  by_cases present : oldname ∈ index.files
  · have counted := split (index.rows ++ [rowOf mktime stack newname])
    rw [List.countP_append, List.countP_singleton, List.length_append, List.length_singleton]
      at counted
    rw [if_pos present]
    by_cases differs : newname = oldname
    · have new : decide ((rowOf mktime stack newname).name = oldname) = true :=
        decide_eq_true differs
      rw [if_neg fun both => both.2 differs]
      rw [if_pos new] at counted
      omega
    · have new : ¬decide ((rowOf mktime stack newname).name = oldname) = true :=
        fun same => differs (of_decide_eq_true same)
      rw [if_pos ⟨present, differs⟩]
      rw [if_neg new] at counted
      omega
  · rw [if_neg present, if_neg fun both => present both.1]
    exact split index.rows

end Rename

/-! ### The files of a call, one after the other -/

section LockNames

variable {mktime : Tm → Int} {stackAt : Nat → FileInfo} {names : List Text} {name : Text}
  {renamed : Nat → Bool}

/-- The file of a name that changes is there after the call unless its turn renames it. -/
theorem mem_files_lockNames (changes : target flag name ≠ name) :
    name ∈ (lockNames mktime flag names stackAt renamed index).files ↔
      name ∈ index.files ∧ ¬∃ turn, names[turn]? = some name ∧ renamed turn = true := by
  induction names generalizing index stackAt renamed with
  | nil => simp [lockNames]
  | cons head names inductionHypothesis =>
    rw [lockNames, inductionHypothesis, mem_files_rename changes, and_assoc, ← not_or]
    refine and_congr_right fun _ => not_congr ⟨?_, ?_⟩
    · rintro (⟨same, done⟩ | ⟨turn, there, done⟩)
      · exact ⟨0, congrArg some same.symm, done⟩
      · exact ⟨turn + 1, there, done⟩
    · rintro ⟨_ | turn, there, done⟩
      · exact Or.inl ⟨(Option.some.inj there).symm, done⟩
      · exact Or.inr ⟨turn, there, done⟩

/-- A row with a name that changes is there after the call unless the call goes through its name. -/
theorem mem_rows_lockNames {row : Row} (changes : target flag row.name ≠ row.name) :
    row ∈ (lockNames mktime flag names stackAt renamed index).rows ↔
      row ∈ index.rows ∧ row.name ∉ names := by
  induction names generalizing index stackAt renamed with
  | nil => simp [lockNames]
  | cons head names inductionHypothesis =>
    rw [lockNames, inductionHypothesis, mem_rows_rename changes, List.mem_cons, not_or, and_assoc]

/-- The names that change, with a row for each. -/
structure Listed (flag : Int) (index : Index) (names : List Text) : Prop where
  distinct : (names.filter fun name => decide (target flag name ≠ name)).Nodup
  listed : ∀ name ∈ names, target flag name ≠ name → 0 < index.listed name

/-- What is left to do is listed after a turn. -/
theorem Listed.rename {stack : FileInfo} {done : Bool}
    (listed : Listed flag index (name :: names)) :
    Listed flag (index.rename mktime stack name (target flag name) done).2 names := by
  have tail : (names.filter fun name => decide (target flag name ≠ name)).Nodup := by
    have distinct := listed.distinct
    rw [List.filter_cons] at distinct
    split at distinct
    · exact distinct.of_cons
    · exact distinct
  refine ⟨tail, fun other member changes => ?_⟩
  have different : other ≠ name := by
    rintro rfl
    have distinct := listed.distinct
    rw [List.filter_cons, if_pos (decide_eq_true changes), List.nodup_cons, List.mem_filter]
      at distinct
    exact distinct.1 ⟨member, decide_eq_true changes⟩
  rw [listed_rename different]
  exact Nat.add_pos_left (listed.listed other (List.mem_cons_of_mem _ member) changes) _

/-- A turn brings no row. -/
theorem Listed.length_rename {stack : FileInfo} {done : Bool}
    (listed : Listed flag index (name :: names)) :
    (index.rename mktime stack name (target flag name) done).2.rows.length ≤ index.rows.length := by
  have counted := @Index.length_rename index mktime stack name (target flag name) done
  split at counted
  · next both =>
    have := listed.listed name List.mem_cons_self both.2
    omega
  · omega

/-- The call brings no row. -/
theorem Listed.length_lockNames (listed : Listed flag index names) :
    (lockNames mktime flag names stackAt renamed index).rows.length ≤ index.rows.length := by
  induction names generalizing index stackAt renamed with
  | nil => exact le_rfl
  | cons head names inductionHypothesis =>
    exact (inductionHypothesis listed.rename).trans listed.length_rename

/-- A row with a name that does not change is lost. -/
theorem Listed.length_lockNames_lt (listed : Listed flag index names) (member : name ∈ names)
    (kept : target flag name = name) (row : 0 < index.listed name) :
    (lockNames mktime flag names stackAt renamed index).rows.length < index.rows.length := by
  induction names generalizing index stackAt renamed with
  | nil => cases member
  | cons head names inductionHypothesis =>
    by_cases first : name = head
    · subst first
      have counted := @Index.length_rename index mktime (stackAt 0) name (target flag name)
        (renamed 0)
      rw [if_neg fun both => both.2 kept] at counted
      have tail : Listed flag (index.rename mktime (stackAt 0) name (target flag name)
          (renamed 0)).2 names := listed.rename
      have rest := @Listed.length_lockNames _ flag mktime (fun turn => stackAt (turn + 1)) names
        (fun turn => renamed (turn + 1)) tail
      rw [lockNames]
      omega
    · have later := (List.mem_cons.mp member).resolve_left first
      have still : 0 < (index.rename mktime (stackAt 0) head (target flag head)
          (renamed 0)).2.listed name := by
        rw [listed_rename first]
        exact Nat.add_pos_left row _
      exact (inductionHypothesis listed.rename later still).trans_le listed.length_rename

end LockNames

/-! ### Rows that are renamed -/

/-- A row of the table is renamed: its file has its locked or unlocked name instead of the old
one, and there is a row with that name instead of it. -/
structure RowRenamed (flag : Int) (before : Index) (row : Row) (after : Index) : Prop where
  changes : target flag row.name ≠ row.name
  listed : row ∈ before.rows
  present : row.name ∈ before.files
  files : after.files = insert (target flag row.name) (before.files.erase row.name)
  rows : ∃ new : Row, new.name = target flag row.name ∧
    after.rows.Perm (new :: before.rows.erase row)

/-- What a run that renames rows has done. -/
structure Relabels (flag : Int) (before : Index) (rows : List Row) (after : Index) : Prop where
  changes : ∀ row ∈ rows, target flag row.name ≠ row.name
  present : ∀ row ∈ rows, row.name ∈ before.files
  distinct : (rows.map Row.name).Nodup
  files : ∀ name, target flag name ≠ name →
    (name ∈ after.files ↔ name ∈ before.files ∧ name ∉ rows.map Row.name)
  length : after.rows.length = before.rows.length
  others : ∀ row ∈ before.rows, row ∉ rows → row ∈ after.rows

/-- No name is renamed to one that changes, so no row is renamed twice. -/
theorem relabels {before after : Index} {rows : List Row}
    (run : Runs (RowRenamed flag) before rows after) : Relabels flag before rows after := by
  induction run with
  | nil =>
    refine ⟨?_, ?_, List.nodup_nil, fun name _ => ?_, rfl, fun _ member _ => member⟩
    · intro row member
      cases member
    · intro row member
      cases member
    · simp
  | @snoc rows state next row _ taken inductionHypothesis =>
    obtain ⟨changes, listed, present, files, new, _, perm⟩ := taken
    obtain ⟨here, fresh⟩ := (inductionHypothesis.files row.name changes).mp present
    refine ⟨?_, ?_, ?_, fun name other => ?_, ?_, ?_⟩
    · intro some member
      rcases List.mem_append.mp member with earlier | last
      · exact inductionHypothesis.changes some earlier
      · rwa [List.mem_singleton.mp last]
    · intro some member
      rcases List.mem_append.mp member with earlier | last
      · exact inductionHypothesis.present some earlier
      · rwa [List.mem_singleton.mp last]
    · rw [List.map_append, List.map_singleton]
      refine List.nodup_append.mpr ⟨inductionHypothesis.distinct, List.nodup_singleton _, ?_⟩
      rintro name member _ last rfl
      exact fresh (List.mem_singleton.mp last ▸ member)
    · rw [files, Finset.mem_insert, or_iff_right (ne_target other row.name), Finset.mem_erase,
        inductionHypothesis.files name other, List.map_append, List.map_singleton, List.mem_append,
        List.mem_singleton, not_or]
      tauto
    · rw [perm.length_eq, List.length_cons, List.length_erase_of_mem listed,
        ← inductionHypothesis.length]
      have := List.length_pos_of_mem listed
      omega
    · intro some member outside
      rw [List.mem_append, List.mem_singleton, not_or] at outside
      have kept := inductionHypothesis.others some member outside.1
      exact perm.mem_iff.mpr (List.mem_cons_of_mem _ ((List.mem_erase_of_ne outside.2).mpr kept))

/-- Deleting the rows of a name that only one row has takes that row. -/
theorem filter_name_eq_erase {rows : List Row} {row : Row} (member : row ∈ rows)
    (once : rows.countP (fun other => decide (other.name = row.name)) = 1) :
    (rows.filter fun other => decide (other.name ≠ row.name)) = rows.erase row := by
  induction rows with
  | nil => cases member
  | cons head rows inductionHypothesis =>
    by_cases first : head = row
    · subst first
      rw [List.countP_cons, if_pos (decide_eq_true rfl)] at once
      have none : rows.countP (fun other => decide (other.name = head.name)) = 0 := by omega
      rw [List.erase_cons_head, List.filter_cons, if_neg (by simp), List.filter_eq_self]
      intro other inside
      exact decide_eq_true fun same =>
        List.countP_eq_zero.mp none other inside (decide_eq_true same)
    · have later : row ∈ rows := (List.mem_cons.mp member).resolve_left (Ne.symm first)
      have some : 0 < rows.countP fun other => decide (other.name = row.name) :=
        List.countP_pos_iff.mpr ⟨row, later, decide_eq_true rfl⟩
      have differs : head.name ≠ row.name := by
        intro same
        rw [List.countP_cons, if_pos (decide_eq_true same)] at once
        omega
      rw [List.countP_cons, if_neg (by simpa using differs)] at once
      rw [List.filter_cons, if_pos (decide_eq_true differs), inductionHypothesis later once,
        List.erase_cons_tail (by simpa using first)]

/-- A narrower filter leaves a part. -/
theorem filter_sublist_filter {Element : Type} {elements : List Element}
    {narrow wide : Element → Bool}
    (included : ∀ element ∈ elements, narrow element = true → wide element = true) :
    (elements.filter narrow).Sublist (elements.filter wide) := by
  have same : elements.filter narrow = (elements.filter wide).filter narrow := by
    rw [List.filter_filter]
    refine List.filter_congr fun element member => ?_
    cases holds : narrow element with
    | true => rw [included element member holds, Bool.true_and]
    | false => rfl
  rw [same]
  exact List.filter_sublist

/-- The rows with a name, counted by their names. -/
theorem count_name (rows : List Row) (name : Text) :
    (rows.map Row.name).count name = rows.countP fun row => decide (row.name = name) := by
  rw [List.count, List.countP_map]
  refine List.countP_congr fun row _ => ?_
  simp

/-- Each of the rows can be renamed: its name changes, its file is there and has no other row, and
the disk renames it. -/
structure Renamable (flag : Int) (index : Index) (rows : List Row) (renamed : Nat → Bool) :
    Prop where
  changes : ∀ row ∈ rows, target flag row.name ≠ row.name
  present : ∀ row ∈ rows, row.name ∈ index.files
  once : ∀ row ∈ rows, index.listed row.name = 1
  obeyed : ∀ turn < rows.length, renamed turn = true

section Turns

variable {mktime : Tm → Int} {stackAt : Nat → FileInfo} {rows : List Row} {renamed : Nat → Bool}

/-- No two of the rows have the same name. -/
theorem Renamable.distinct (renamable : Renamable flag index rows renamed)
    (among : rows.Sublist index.rows) : (rows.map Row.name).Nodup := by
  refine List.nodup_iff_count_le_one.mpr fun name => ?_
  by_cases named : name ∈ rows.map Row.name
  · obtain ⟨row, member, rfl⟩ := List.mem_map.mp named
    have once := renamable.once row member
    have counted := among.countP_le (p := fun other => decide (other.name = row.name))
    unfold listed at once
    rwa [once, ← count_name] at counted
  · exact (List.count_eq_zero.mpr named).trans_le (Nat.zero_le 1)

/-- Rows that can be renamed are renamed in turn. -/
theorem Renamable.runs (renamable : Renamable flag index rows renamed)
    (members : ∀ row ∈ rows, row ∈ index.rows) (distinct : (rows.map Row.name).Nodup) :
    Runs (RowRenamed flag) index rows
      (lockNames mktime flag (rows.map Row.name) stackAt renamed index) := by
  induction rows generalizing index stackAt renamed with
  | nil => exact .nil
  | cons row rows inductionHypothesis =>
    have changes := renamable.changes row List.mem_cons_self
    have present := renamable.present row List.mem_cons_self
    have once := renamable.once row List.mem_cons_self
    have done := renamable.obeyed 0 (Nat.zero_lt_succ _)
    have listed := members row List.mem_cons_self
    rw [List.map_cons, List.nodup_cons] at distinct
    have different (other : Row) (member : other ∈ rows) : other.name ≠ row.name :=
      fun same => distinct.1 (same ▸ List.mem_map_of_mem member)
    have taken : RowRenamed flag index row
        (index.rename mktime (stackAt 0) row.name (target flag row.name) (renamed 0)).2 := by
      refine ⟨changes, listed, present, ?_, rowOf mktime (stackAt 0) (target flag row.name), rfl,
        ?_⟩
      · rw [rename_files, if_pos ⟨present, done⟩]
      · have new : [rowOf mktime (stackAt 0) (target flag row.name)].filter
            (fun other => decide (other.name ≠ row.name)) =
              [rowOf mktime (stackAt 0) (target flag row.name)] :=
          List.filter_eq_self.mpr fun other member => by
            rw [List.mem_singleton.mp member]
            exact decide_eq_true changes
        rw [rename_rows, if_pos present, List.filter_append, filter_name_eq_erase listed once, new]
        exact List.perm_append_singleton _ _
    refine Runs.cons taken (inductionHypothesis ⟨?_, ?_, ?_, ?_⟩ ?_ distinct.2)
    · exact fun other member => renamable.changes other (List.mem_cons_of_mem _ member)
    · intro other member
      rw [mem_files_rename (renamable.changes other (List.mem_cons_of_mem _ member))]
      exact ⟨renamable.present other (List.mem_cons_of_mem _ member),
        fun both => different other member both.1⟩
    · intro other member
      have kept := renamable.changes other (List.mem_cons_of_mem _ member)
      rw [listed_rename (different other member), if_neg fun both => ne_target kept _ both.2.symm]
      exact renamable.once other (List.mem_cons_of_mem _ member)
    · exact fun turn small => renamable.obeyed (turn + 1) (Nat.succ_lt_succ small)
    · intro other member
      rw [mem_rows_rename (renamable.changes other (List.mem_cons_of_mem _ member))]
      exact ⟨members other (List.mem_cons_of_mem _ member), different other member⟩

end Turns

/-! ### When a call is right -/

section Calls

variable {mktime : Tm → Int} {stackAt : Nat → FileInfo} {renamed : Nat → Bool}

/-- A call goes through the names of the rows that its command selects. -/
theorem lockByTime_eq :
    index.lockByTime mktime stackAt flag starttime stoptime trig ch renamed =
      lockNames mktime flag ((index.chosen flag starttime stoptime trig ch).map Row.name) stackAt
        renamed index := by
  unfold lockByTime
  rw [selected_eq]

/-- The call renames exactly the rows that are meant, each to its locked or unlocked name. -/
def LocksOverlap (mktime : Tm → Int) (stackAt : Nat → FileInfo) (renamed : Nat → Bool)
    (index : Index) (flag starttime stoptime trig ch : Int) : Prop :=
  Runs (RowRenamed flag) index (index.meant flag starttime stoptime trig ch)
    (index.lockByTime mktime stackAt flag starttime stoptime trig ch renamed)

/-- Both bounds of the time are given, or nothing is. Without a start no row is meant; without an
end the rows that are meant are those from before the epoch. -/
def Answerable (index : Index) (flag starttime stoptime trig ch : Int) : Prop :=
  if starttime = -1 then
    stoptime = -1 ∧ trig = -1 ∧ ch = -1 ∨
      ∀ row ∈ index.rows, Wanted flag trig ch row → ¬Overlaps starttime stoptime row
  else
    stoptime = -1 → ∀ row ∈ index.rows, Wanted flag trig ch row →
      (row.start ≤ -1 ↔ starttime ≤ row.stop)

/-- The command selects the rows that are meant. -/
theorem chosen_eq_meant_iff_rows :
    index.chosen flag starttime stoptime trig ch = index.meant flag starttime stoptime trig ch ↔
      ∀ row ∈ index.rows, Wanted flag trig ch row →
        (Understood starttime stoptime trig ch ∧ Compared starttime stoptime row ↔
          Overlaps starttime stoptime row) := by
  unfold chosen meant
  constructor
  · intro same row member wanted
    have both := congrArg (fun rows => row ∈ rows) same
    simp only [List.mem_filter, decide_eq_true_eq] at both
    have both := Iff.of_eq both
    tauto
  · intro agree
    refine List.filter_congr fun row member => decide_eq_decide.mpr ?_
    have rowAgrees := agree row member
    tauto

/-- Without a start the pieces of the command do not fit together, unless there is none. -/
theorem not_understood (missing : starttime = -1) (some : ¬(stoptime = -1 ∧ trig = -1 ∧ ch = -1)) :
    ¬Understood starttime stoptime trig ch :=
  fun understood => understood.elim (fun given => given missing) some

/-- Without bounds every row overlaps. -/
theorem compared_of_unbounded (missing : starttime = -1) (open_ : stoptime = -1) (row : Row) :
    Compared starttime stoptime row ∧ Overlaps starttime stoptime row :=
  ⟨⟨fun given => absurd missing given, fun given => absurd open_ given⟩,
    fun given => absurd open_ given, fun given => absurd missing given⟩

/-- With both bounds the comparisons are those that are meant. -/
theorem compared_iff_of_bounded (given : starttime ≠ -1) (closed : stoptime ≠ -1) (row : Row) :
    Compared starttime stoptime row ↔ Overlaps starttime stoptime row := by
  unfold Compared Overlaps
  rw [forall_prop_of_true given, forall_prop_of_true closed, forall_prop_of_true closed,
    forall_prop_of_true given]

/-- With a start alone the row is compared with the end that is not there. -/
theorem compared_iff_of_open (given : starttime ≠ -1) (open_ : stoptime = -1) (row : Row) :
    (Compared starttime stoptime row ↔ row.start ≤ -1) ∧
      (Overlaps starttime stoptime row ↔ starttime ≤ row.stop) := by
  have noEnd : ¬stoptime ≠ -1 := not_not.mpr open_
  unfold Compared Overlaps
  rw [forall_prop_of_true given, forall_prop_of_false noEnd, forall_prop_of_false noEnd,
    forall_prop_of_true given, and_true, true_and, open_]
  exact ⟨Iff.rfl, Iff.rfl⟩

/-- The command selects the rows that are meant for exactly the tables and times for which it can
be answered. -/
theorem chosen_eq_meant_iff :
    index.chosen flag starttime stoptime trig ch = index.meant flag starttime stoptime trig ch ↔
      index.Answerable flag starttime stoptime trig ch := by
  rw [chosen_eq_meant_iff_rows]
  unfold Answerable
  split
  · next missing =>
    by_cases nothing : stoptime = -1 ∧ trig = -1 ∧ ch = -1
    · refine iff_of_true (fun row _ _ => ?_) (Or.inl nothing)
      obtain ⟨compared, overlaps⟩ := compared_of_unbounded missing nothing.1 row
      exact iff_of_true ⟨Or.inr nothing, compared⟩ overlaps
    · rw [or_iff_right nothing]
      refine forall_congr' fun row => forall_congr' fun _ => forall_congr' fun _ => ?_
      have refused : ¬(Understood starttime stoptime trig ch ∧ Compared starttime stoptime row) :=
        fun both => not_understood missing nothing both.1
      rw [iff_false_left refused]
  · next given =>
    have understood : Understood starttime stoptime trig ch := Or.inl given
    by_cases open_ : stoptime = -1
    · rw [forall_prop_of_true open_]
      refine forall_congr' fun row => forall_congr' fun _ => forall_congr' fun _ => ?_
      obtain ⟨compared, overlaps⟩ := compared_iff_of_open given open_ row
      rw [and_iff_right understood, compared, overlaps]
    · refine iff_of_true (fun row _ _ => ?_) fun absent => absurd absent open_
      rw [and_iff_right understood]
      exact compared_iff_of_bounded given open_ row

/-! ### What a call that is right has done -/

theorem mem_rows_of_mem_chosen {row : Row}
    (member : row ∈ index.chosen flag starttime stoptime trig ch) : row ∈ index.rows :=
  (List.mem_filter.mp member).1

theorem mem_rows_of_mem_meant {row : Row}
    (member : row ∈ index.meant flag starttime stoptime trig ch) : row ∈ index.rows :=
  (List.mem_filter.mp member).1

namespace LocksOverlap

variable (right : LocksOverlap mktime stackAt renamed index flag starttime stoptime trig ch)

include right

theorem done : Relabels flag index (index.meant flag starttime stoptime trig ch)
    (lockNames mktime flag ((index.chosen flag starttime stoptime trig ch).map Row.name) stackAt
      renamed index) := by
  unfold LocksOverlap at right
  rw [lockByTime_eq] at right
  exact relabels right

/-- A row whose name the command finds is gone, so it is one that is meant. -/
theorem mem_meant {row other : Row} (changes : target flag row.name ≠ row.name)
    (selected : other ∈ index.chosen flag starttime stoptime trig ch)
    (named : row.name = other.name) (member : row ∈ index.rows) :
    row ∈ index.meant flag starttime stoptime trig ch := by
  by_contra outside
  have still := right.done.others row member outside
  exact ((mem_rows_lockNames changes).mp still).2 (named ▸ List.mem_map_of_mem selected)

theorem listed : Listed flag index
    ((index.chosen flag starttime stoptime trig ch).map Row.name) where
  distinct := by
    have among : ((index.chosen flag starttime stoptime trig ch).filter
        fun row => decide (target flag row.name ≠ row.name)).Sublist
          (index.meant flag starttime stoptime trig ch) := by
      have isMeant (row : Row) (member : row ∈ (index.chosen flag starttime stoptime trig ch).filter
          fun row => decide (target flag row.name ≠ row.name)) :
          row ∈ index.meant flag starttime stoptime trig ch := by
        obtain ⟨selected, changes⟩ := List.mem_filter.mp member
        exact right.mem_meant (of_decide_eq_true changes) selected rfl
          (mem_rows_of_mem_chosen selected)
      unfold chosen meant at isMeant ⊢
      rw [List.filter_filter] at isMeant ⊢
      exact filter_sublist_filter fun row member holds =>
        (List.mem_filter.mp (isMeant row (List.mem_filter.mpr ⟨member, holds⟩))).2
    rw [List.filter_map]
    exact right.done.distinct.sublist (among.map Row.name)
  listed := by
    intro name member _
    obtain ⟨row, selected, rfl⟩ := List.mem_map.mp member
    exact List.countP_pos_iff.mpr ⟨row, mem_rows_of_mem_chosen selected, decide_eq_true rfl⟩

/-- The name of every row that the command selects changes: else a row would be lost. -/
theorem changes {row : Row} (selected : row ∈ index.chosen flag starttime stoptime trig ch) :
    target flag row.name ≠ row.name := by
  intro kept
  have listed : 0 < index.listed row.name := List.countP_pos_iff.mpr
    ⟨row, mem_rows_of_mem_chosen selected, decide_eq_true rfl⟩
  have fewer : (lockNames mktime flag ((index.chosen flag starttime stoptime trig ch).map Row.name)
      stackAt renamed index).rows.length < index.rows.length :=
    right.listed.length_lockNames_lt (List.mem_map_of_mem selected) kept listed
  exact absurd right.done.length fewer.ne

/-- The file of a row that is meant is gone, so there is a turn that renames it. -/
theorem turn {row : Row} (member : row ∈ index.meant flag starttime stoptime trig ch) :
    ∃ turn, ((index.chosen flag starttime stoptime trig ch).map Row.name)[turn]? = some row.name ∧
      renamed turn = true := by
  have changes := right.done.changes row member
  have gone := (right.done.files row.name changes).not.mpr
    fun both => both.2 (List.mem_map_of_mem member)
  rw [mem_files_lockNames changes, not_and, not_not] at gone
  exact gone (right.done.present row member)

theorem chosen_eq_meant :
    index.chosen flag starttime stoptime trig ch = index.meant flag starttime stoptime trig ch := by
  refine List.filter_congr fun row member => ?_
  have iff : row ∈ index.chosen flag starttime stoptime trig ch ↔
      row ∈ index.meant flag starttime stoptime trig ch := by
    constructor
    · exact fun selected => right.mem_meant (right.changes selected) selected rfl member
    · intro meant
      obtain ⟨turn, there, _⟩ := right.turn meant
      obtain ⟨other, selected, named⟩ := List.mem_map.mp (List.mem_of_getElem? there)
      have also := right.mem_meant (right.changes selected) selected rfl
        (mem_rows_of_mem_chosen selected)
      rwa [← List.inj_on_of_nodup_map right.done.distinct also meant named]
  unfold chosen meant at iff
  rw [List.mem_filter, List.mem_filter, and_iff_right member, and_iff_right member] at iff
  exact Bool.eq_iff_iff.mpr iff

theorem renamable :
    Renamable flag index (index.meant flag starttime stoptime trig ch) renamed where
  changes := right.done.changes
  present := right.done.present
  once := by
    intro row member
    have named : ∀ other ∈ index.rows, decide (other.name = row.name) = true →
        decide (Wanted flag trig ch other ∧ Overlaps starttime stoptime other) = true := by
      intro other inside same
      have selected : row ∈ index.chosen flag starttime stoptime trig ch :=
        right.chosen_eq_meant ▸ member
      have changes := right.done.changes row member
      rw [← of_decide_eq_true same] at changes
      exact (List.mem_filter.mp (right.mem_meant changes selected (of_decide_eq_true same)
        inside)).2
    have atMost := (filter_sublist_filter named).countP_le
      (p := fun other => decide (other.name = row.name))
    have once : (index.meant flag starttime stoptime trig ch).countP
        (fun other => decide (other.name = row.name)) = 1 := by
      rw [← count_name]
      exact List.count_eq_one_of_mem right.done.distinct (List.mem_map_of_mem member)
    have atLeast : 0 < index.listed row.name :=
      List.countP_pos_iff.mpr ⟨row, mem_rows_of_mem_meant member, decide_eq_true rfl⟩
    unfold meant at once
    rw [once, List.countP_filter] at atMost
    simp only [Bool.and_self] at atMost
    exact le_antisymm atMost atLeast
  obeyed := by
    intro turn small
    obtain ⟨other, there, obeyed⟩ := right.turn (List.getElem_mem small)
    rw [right.chosen_eq_meant] at there
    have here : ((index.meant flag starttime stoptime trig ch).map Row.name)[turn]? =
        some (index.meant flag starttime stoptime trig ch)[turn].name := by
      rw [List.getElem?_map, List.getElem?_eq_getElem small]
      rfl
    have same := (List.getElem?_inj (by rwa [List.length_map]) right.done.distinct).mp
      (here.trans there.symm)
    rwa [same]

end LocksOverlap

/-- A command that selects the rows that are meant renames them if they can be renamed. -/
theorem locksOverlap_of_renamable
    (selects : index.chosen flag starttime stoptime trig ch =
      index.meant flag starttime stoptime trig ch)
    (renamable : Renamable flag index (index.meant flag starttime stoptime trig ch) renamed) :
    LocksOverlap mktime stackAt renamed index flag starttime stoptime trig ch := by
  unfold LocksOverlap
  rw [lockByTime_eq, selects]
  exact renamable.runs (fun row => mem_rows_of_mem_meant)
    (renamable.distinct List.filter_sublist)

/-- A call is right for exactly those tables and times for which its command can be answered, when
the rows that are meant can be renamed. -/
theorem locksOverlap_iff :
    LocksOverlap mktime stackAt renamed index flag starttime stoptime trig ch ↔
      index.Answerable flag starttime stoptime trig ch ∧
        Renamable flag index (index.meant flag starttime stoptime trig ch) renamed :=
  ⟨fun right => ⟨chosen_eq_meant_iff.mp right.chosen_eq_meant, right.renamable⟩,
    fun both => locksOverlap_of_renamable (chosen_eq_meant_iff.mpr both.1) both.2⟩

end Calls

/-- A finished recording of the first channel that is not locked. -/
def finishedRow : Row := ⟨recorded, 0, 30, 0, 0, 0, 0⟩

/-- All the recordings of the first channel are to be locked, and none is. -/
theorem channel_not_locked :
    ¬LocksOverlap secondOfDay (fun _ => blankInfo) (fun _ => true) ⟨[finishedRow], {recorded}⟩ 1
      (-1) (-1) (-1) 0 := by
  intro right
  have row := chosen_eq_meant_iff_rows.mp right.chosen_eq_meant finishedRow List.mem_cons_self
    (by decide)
  exact absurd row (by decide)

/-- A finished recording of the second channel, at the same time. -/
def secondChannel : Row :=
  ⟨nameWith { blankInfo with len := 30, channel := 1 } ⟨70, 0, 1, 14, 25, 4⟩ imgFileExt, 0, 30, 1,
    0, 0, 0⟩

/-- The recording of the first channel is locked and that of the second is not. -/
theorem locksOverlap_first_channel :
    LocksOverlap secondOfDay (fun _ => blankInfo) (fun _ => true)
      ⟨[secondChannel, finishedRow], {secondChannel.name, recorded}⟩ 1 10 20 (-1) 0 := by
  have answerable : Answerable ⟨[secondChannel, finishedRow], {secondChannel.name, recorded}⟩ 1 10
      20 (-1) 0 := by
    unfold Answerable
    rw [if_neg (by decide)]
    exact fun absent => absurd absent (by decide)
  refine locksOverlap_iff.mpr ⟨answerable, ?_⟩
  have meant : Index.meant ⟨[secondChannel, finishedRow], {secondChannel.name, recorded}⟩ 1 10 20
      (-1) 0 = [finishedRow] := rfl
  rw [meant]
  refine ⟨fun row member => ?_, fun row member => ?_, fun row member => ?_, fun _ _ => rfl⟩
  · rw [List.mem_singleton.mp member]
    decide +kernel
  · rw [List.mem_singleton.mp member]
    exact Finset.mem_insert_of_mem (Finset.mem_singleton_self _)
  · rw [List.mem_singleton.mp member]
    decide +kernel

/-! ### The calls of the program -/

section Program

variable {mktime : Tm → Int} {stackAt : Nat → FileInfo} {renamed : Nat → Bool}

/-- `lock_recent_file`: what was recorded from some seconds ago until now. -/
theorem lock_recent_file {timenow preRec channel : Int} (now : 0 ≤ timenow - preRec)
    (recent : 0 ≤ preRec)
    (renamable : Renamable 1 index (index.meant 1 (timenow - preRec) timenow (-1) channel)
      renamed) :
    LocksOverlap mktime stackAt renamed index 1 (timenow - preRec) timenow (-1) channel := by
  refine locksOverlap_of_renamable (chosen_eq_meant_iff_rows.mpr fun row _ _ => ?_) renamable
  have understood : Understood (timenow - preRec) timenow (-1) channel := Or.inl (by omega)
  rw [and_iff_right understood]
  exact compared_iff_of_bounded (by omega) (by omega) row

/-- `lock_all_fn`. -/
theorem lock_all_fn {mode : Int}
    (renamable : Renamable mode index (index.meant mode (-1) (-1) (-1) (-1)) renamed) :
    LocksOverlap mktime stackAt renamed index mode (-1) (-1) (-1) (-1) := by
  refine locksOverlap_of_renamable (chosen_eq_meant_iff_rows.mpr fun row _ _ => ?_) renamable
  obtain ⟨compared, overlaps⟩ := compared_of_unbounded rfl rfl row
  exact iff_of_true ⟨Or.inr ⟨rfl, rfl, rfl⟩, compared⟩ overlaps

end Program

end ExmOnvif.FileIndex.Index
