/-
This file proves which names of finished recordings can be locked and unlocked again
without a change to anything but the mark.

Both functions look for a single character in the name and write from there on, with an
end that they know beforehand: the unlocking one behind everything that follows the mark,
and the locking one behind what follows the mark of a recording by hand. What else stands
there is lost, which the repair of interrupted recordings puts there.
-/

import ExmOnvif.FileIndex.Convert

namespace ExmOnvif.FileIndex

open Library HdModule Index

/-! ### The names of finished recordings -/

/-- What can follow the marks of a finished recording: the extension, in a name with a missing end
in front of it, locked or not, and the same for a program stream. -/
inductive Ending where
  | avi
  | old
  | lockedOld
  | ps
  | oldPs
deriving DecidableEq, Repr

/-- The text of an ending. -/
def Ending.text : Ending → Text
  | .avi => imgFileExt
  | .old => oldFileExt
  | .lockedOld => ['_', 'O', 'L', 'D', lockFileFlag] ++ imgFileExt
  | .ps => psExt
  | .oldPs => ['_', 'O', 'L', 'D'] ++ psExt

/-- The two marks, each of them there or not. -/
def flags (remote lock : Bool) : Text :=
  (if remote then [remoteTrigFlag] else []) ++ if lock then [lockFileFlag] else []

/-- The name of a finished recording. -/
def finishedName (info : FileInfo) (tm : Tm) (remote lock : Bool) (ending : Ending) : Text :=
  folder info tm ++ fields info tm ++ (flags remote lock ++ ending.text)

/-- The names that are made for a recording are among them. -/
theorem nameWith_eq (info : FileInfo) (tm : Tm) (ending : Ending) :
    nameWith info tm ending.text = finishedName info tm (decide (info.remote = 1))
      (decide (info.remote = 1 ∨ info.trig ≠ 0)) ending := by
  have same : marks info =
      flags (decide (info.remote = 1)) (decide (info.remote = 1 ∨ info.trig ≠ 0)) := by
    unfold marks flags
    by_cases remote : info.remote = 1
    · simp only [remote, if_true, decide_true, true_or]
      rfl
    · by_cases alarm : info.trig ≠ 0
      · simp only [remote, alarm, if_false, if_true, decide_true, decide_false, false_or,
          Bool.false_eq_true, List.nil_append, ne_eq, not_false_eq_true]
      · simp only [remote, alarm, if_false, decide_false, or_self, Bool.false_eq_true,
          List.append_nil]
  rw [nameWith, finishedName, same, List.append_assoc]

/-- The ends of the names that the repair gives a recording. -/
theorem form_endings (form : Form) :
    (∃ ending : Ending, form.old = ending.text) ∧
      ∃ ending : Ending, form.finished = ending.text := by
  cases form with
  | avi => exact ⟨⟨.old, rfl⟩, .avi, rfl⟩
  | ps => exact ⟨⟨.oldPs, rfl⟩, .ps, rfl⟩

/-! ### Locking and unlocking -/

/-- A name without its lock. -/
def withoutLock (name : Text) : Text := name.filter fun char => decide (char ≠ lockFileFlag)

/-- Locking and unlocking change the mark of a name and nothing else. -/
structure Reversible (name : Text) : Prop where
  unlock : unlockFilename name = withoutLock name
  lock : lockFileFlag ∉ name → ∀ front, name = front ++ imgFileExt →
    lockFilename name = front ++ lockFileFlag :: imgFileExt
  back : lockFileFlag ∉ name → unlockFilename (lockFilename name) = name
  lockAgain : lockFilename (lockFilename name) = lockFilename name
  unlockAgain : unlockFilename (unlockFilename name) = unlockFilename name

variable {name body rest : Text}

theorem unlockFilename_of_notMem (open_ : lockFileFlag ∉ name) : unlockFilename name = name :=
  if_pos open_

theorem lockFilename_of_mem (locked : lockFileFlag ∈ name) : lockFilename name = name :=
  if_pos locked

theorem withoutLock_of_notMem (open_ : lockFileFlag ∉ name) : withoutLock name = name :=
  List.filter_eq_self.mpr fun _ member => decide_eq_true fun same => open_ (same ▸ member)

/-- Everything behind the mark is replaced by the extension. -/
theorem unlockFilename_locked (open_ : lockFileFlag ∉ body)
    (finished : strstr recordingFileExt (body ++ lockFileFlag :: rest) = none) :
    unlockFilename (body ++ lockFileFlag :: rest) = body ++ imgFileExt := by
  have locked : lockFileFlag ∈ body ++ lockFileFlag :: rest :=
    List.mem_append_right _ List.mem_cons_self
  unfold unlockFilename
  rw [if_neg (not_not.mpr locked), if_neg (not_not.mpr finished), takeWhile_mark open_]

theorem withoutLock_locked (open_ : lockFileFlag ∉ body) :
    withoutLock (body ++ lockFileFlag :: rest) = body ++ withoutLock rest := by
  have front := withoutLock_of_notMem open_
  unfold withoutLock at front ⊢
  rw [List.filter_append, front, List.filter_cons_of_neg
    (p := fun char => decide (char ≠ lockFileFlag)) (by decide)]

/-- A name in which the mark stands right before the extension can be unlocked. -/
theorem Reversible.of_locked (open_ : lockFileFlag ∉ body)
    (finished : strstr recordingFileExt (body ++ lockFileFlag :: imgFileExt) = none) :
    Reversible (body ++ lockFileFlag :: imgFileExt) := by
  have locked : lockFileFlag ∈ body ++ lockFileFlag :: imgFileExt :=
    List.mem_append_right _ List.mem_cons_self
  have unlocked := unlockFilename_locked open_ finished
  have out : lockFileFlag ∉ body ++ imgFileExt := by
    rw [List.mem_append, not_or]
    exact ⟨open_, by decide⟩
  refine ⟨?_, fun absent => absurd locked absent, fun absent => absurd locked absent, ?_, ?_⟩
  · rw [unlocked, withoutLock_locked open_]
    rfl
  · rw [lockFilename_of_mem locked, lockFilename_of_mem locked]
  · rw [unlocked, unlockFilename_of_notMem out]

/-- A name can be locked if the mark comes right before its extension. -/
theorem Reversible.of_unlocked (open_ : lockFileFlag ∉ body ++ imgFileExt)
    (finished : strstr recordingFileExt (body ++ lockFileFlag :: imgFileExt) = none)
    (locks : lockFilename (body ++ imgFileExt) = body ++ lockFileFlag :: imgFileExt) :
    Reversible (body ++ imgFileExt) := by
  have locked : lockFileFlag ∈ body ++ lockFileFlag :: imgFileExt :=
    List.mem_append_right _ List.mem_cons_self
  have front : lockFileFlag ∉ body := fun member => open_ (List.mem_append_left _ member)
  have same := unlockFilename_of_notMem open_
  refine ⟨?_, fun _ front split => ?_, fun _ => ?_, ?_, ?_⟩
  · rw [same, withoutLock_of_notMem open_]
  · rw [locks, List.append_cancel_right split]
  · rw [locks, unlockFilename_locked front finished]
  · rw [locks, lockFilename_of_mem locked]
  · rw [same, same]

/-- A name without the extension and without the mark is left alone. -/
theorem Reversible.of_foreign (open_ : lockFileFlag ∉ name)
    (foreign : strstr imgFileExt name = none) : Reversible name := by
  have unlocked := unlockFilename_of_notMem open_
  have kept : lockFilename name = name := by
    unfold lockFilename
    rw [if_neg open_, foreign]
  refine ⟨?_, fun _ front split => ?_, fun _ => ?_, ?_, ?_⟩
  · rw [unlocked, withoutLock_of_notMem open_]
  · have found := @strstr_ne_none Char imgFileExt _ front []
    rw [List.append_nil, ← split] at found
    exact absurd foreign found
  · rw [kept, unlocked]
  · rw [kept, kept]
  · rw [unlocked, unlocked]

/-- The mark comes before the first extension. -/
theorem lockFilename_plain (open_ : lockFileFlag ∉ body ++ imgFileExt)
    (byHand : remoteTrigFlag ∉ body ++ imgFileExt) (noDot : '.' ∉ body) :
    lockFilename (body ++ imgFileExt) = body ++ lockFileFlag :: imgFileExt := by
  have found : strstr imgFileExt (body ++ imgFileExt) = some imgFileExt := by
    have skipped := @strstr_skip_first Char ['A', 'V', 'I'] _ '.' body imgFileExt
      fun char member same => noDot (same ▸ member)
    exact skipped.trans (strstr_here (List.prefix_refl imgFileExt))
  unfold lockFilename
  rw [if_neg open_, found]
  simp only
  rw [if_neg byHand, List.length_append, Nat.add_sub_cancel, List.take_left]

/-- After a recording by hand the mark comes behind the other one, with the extension. -/
theorem lockFilename_byHand (open_ : lockFileFlag ∉ body ++ remoteTrigFlag :: rest)
    (extension : strstr imgFileExt (body ++ remoteTrigFlag :: rest) ≠ none)
    (first : remoteTrigFlag ∉ body) :
    lockFilename (body ++ remoteTrigFlag :: rest) =
      body ++ remoteTrigFlag :: lockFileFlag :: imgFileExt := by
  have marked : remoteTrigFlag ∈ body ++ remoteTrigFlag :: rest :=
    List.mem_append_right _ List.mem_cons_self
  obtain ⟨found, search⟩ := Option.ne_none_iff_exists'.mp extension
  unfold lockFilename
  rw [if_neg open_, search]
  simp only
  rw [if_pos marked, takeWhile_mark first]

/-! ### Which names are reversible -/

section Names

variable {front tail : Text} {remote lock : Bool} {ending : Ending}

/-- A text without the two marks and without a dot. -/
structure Unmarked (front : Text) : Prop where
  remote : remoteTrigFlag ∉ front
  lock : lockFileFlag ∉ front
  dot : '.' ∉ front

theorem Unmarked.strstr (unmarked : Unmarked front) (pattern : Text) :
    strstr ('.' :: pattern) (front ++ tail) = strstr ('.' :: pattern) tail :=
  strstr_skip_first fun _ member same => unmarked.dot (same ▸ member)

theorem Unmarked.notMem (unmarked : Unmarked front) (open_ : lockFileFlag ∉ tail) :
    lockFileFlag ∉ front ++ tail := by
  rw [List.mem_append, not_or]
  exact ⟨unmarked.lock, open_⟩

/-- With the mark in front of the ending, the extension is the only ending that is kept. -/
theorem reversible_locked_iff (unmarked : Unmarked front) :
    Reversible (front ++ (flags remote true ++ ending.text)) ↔ ending = .avi := by
  have open_ : lockFileFlag ∉ front ++ flags remote false :=
    unmarked.notMem (by cases remote <;> decide)
  have whole : front ++ (flags remote true ++ ending.text) =
      front ++ flags remote false ++ lockFileFlag :: ending.text := by
    cases remote <;> simp [flags]
  have finished : strstr recordingFileExt (front ++ flags remote false ++
      lockFileFlag :: ending.text) = none := by
    rw [← whole]
    refine (unmarked.strstr ['I', 'N', 'G']).trans ?_
    cases remote <;> cases ending <;> decide
  rw [whole]
  constructor
  · intro reversible
    have kept := reversible.unlock
    rw [unlockFilename_locked open_ finished, withoutLock_locked open_] at kept
    have ends := List.append_cancel_left kept
    cases ending with
    | avi => rfl
    | old | lockedOld | ps | oldPs => exact absurd ends (by decide)
  · rintro rfl
    exact Reversible.of_locked open_ finished

/-- A name without marks can be locked. -/
theorem reversible_plain (unmarked : Unmarked front) (clear : Unmarked tail) :
    Reversible (front ++ (tail ++ imgFileExt)) := by
  have whole : front ++ (tail ++ imgFileExt) = front ++ tail ++ imgFileExt :=
    (List.append_assoc _ _ _).symm
  have body : Unmarked (front ++ tail) := by
    constructor <;> rw [List.mem_append, not_or]
    · exact ⟨unmarked.remote, clear.remote⟩
    · exact ⟨unmarked.lock, clear.lock⟩
    · exact ⟨unmarked.dot, clear.dot⟩
  have open_ : lockFileFlag ∉ front ++ tail ++ imgFileExt := body.notMem (by decide)
  have byHand : remoteTrigFlag ∉ front ++ tail ++ imgFileExt := by
    rw [List.mem_append, not_or]
    exact ⟨body.remote, by decide⟩
  have finished : strstr recordingFileExt (front ++ tail ++ lockFileFlag :: imgFileExt) = none :=
    (body.strstr ['I', 'N', 'G']).trans (by decide)
  rw [whole]
  exact Reversible.of_unlocked open_ finished (lockFilename_plain open_ byHand body.dot)

/-- The extension is found behind the front, if at all. -/
theorem extension_behind (unmarked : Unmarked front) (there : strstr imgFileExt tail ≠ none) :
    strstr imgFileExt (front ++ tail) ≠ none :=
  fun none => there ((unmarked.strstr ['A', 'V', 'I']).symm.trans none)

/-- The name of a recording by hand can be locked. -/
theorem reversible_byHand (unmarked : Unmarked front) :
    Reversible (front ++ remoteTrigFlag :: imgFileExt) := by
  have split : ∀ rest, front ++ remoteTrigFlag :: rest = front ++ [remoteTrigFlag] ++ rest :=
    fun rest => List.append_cons front remoteTrigFlag rest
  have open_ : lockFileFlag ∉ front ++ remoteTrigFlag :: imgFileExt := unmarked.notMem (by decide)
  have locks := lockFilename_byHand open_ (extension_behind unmarked (by decide)) unmarked.remote
  have finished :
      strstr recordingFileExt (front ++ remoteTrigFlag :: lockFileFlag :: imgFileExt) = none :=
    (unmarked.strstr ['I', 'N', 'G']).trans (by decide)
  rw [split imgFileExt] at open_ locks ⊢
  rw [split (lockFileFlag :: imgFileExt)] at locks finished
  exact Reversible.of_unlocked open_ finished locks

/-- With a missing end the locking takes off what says so. -/
theorem not_reversible_byHand_old (unmarked : Unmarked front) :
    ¬Reversible (front ++ remoteTrigFlag :: oldFileExt) := by
  intro reversible
  have open_ : lockFileFlag ∉ front ++ remoteTrigFlag :: oldFileExt := unmarked.notMem (by decide)
  have whole : front ++ remoteTrigFlag :: oldFileExt =
      front ++ remoteTrigFlag :: ['_', 'O', 'L', 'D'] ++ imgFileExt :=
    (List.append_assoc front (remoteTrigFlag :: ['_', 'O', 'L', 'D']) imgFileExt).symm
  have written := lockFilename_byHand open_ (extension_behind unmarked (by decide)) unmarked.remote
  have ends := written.symm.trans (reversible.lock open_ _ whole)
  rw [List.append_assoc] at ends
  exact absurd (List.append_cancel_left ends) (by decide)

/-- A name without the extension is left alone behind every front. -/
theorem reversible_foreign (unmarked : Unmarked front) (open_ : lockFileFlag ∉ tail)
    (foreign : strstr imgFileExt tail = none) : Reversible (front ++ tail) :=
  Reversible.of_foreign (unmarked.notMem open_) ((unmarked.strstr ['A', 'V', 'I']).trans foreign)

/-- Without it, only the name of a recording by hand with a missing end is not kept. -/
theorem reversible_unlocked_iff (unmarked : Unmarked front) :
    Reversible (front ++ (flags remote false ++ ending.text)) ↔
      ¬(remote = true ∧ ending = .old) := by
  cases ending with
  | ps | oldPs =>
    refine iff_of_true (reversible_foreign unmarked ?_ ?_) fun both => by cases both.2
    · cases remote <;> decide
    · cases remote <;> decide
  | lockedOld =>
    refine iff_of_true ?_ fun both => by cases both.2
    have whole : front ++ (flags remote false ++ Ending.lockedOld.text) =
        front ++ (flags remote false ++ ['_', 'O', 'L', 'D']) ++ lockFileFlag :: imgFileExt := by
      simp [Ending.text]
    rw [whole]
    refine Reversible.of_locked (unmarked.notMem (by cases remote <;> decide)) ?_
    rw [← whole]
    exact (unmarked.strstr ['I', 'N', 'G']).trans (by cases remote <;> decide)
  | avi =>
    refine iff_of_true ?_ fun both => by cases both.2
    cases remote with
    | false => exact reversible_plain unmarked ⟨by decide, by decide, by decide⟩
    | true => exact reversible_byHand unmarked
  | old =>
    cases remote with
    | false =>
      refine iff_of_true ?_ fun both => by cases both.1
      exact @reversible_plain front ['_', 'O', 'L', 'D'] unmarked
        ⟨by decide, by decide, by decide⟩
    | true =>
      exact iff_of_false (not_reversible_byHand_old unmarked) fun holds => holds ⟨rfl, rfl⟩

variable {localtime : Int → Option Tm} {info : FileInfo} {tm : Tm}

theorem unmarked_fields (nameable : Nameable localtime info) (dated : Dated tm) :
    Unmarked (folder info tm ++ fields info tm) where
  remote := notMem_fields nameable dated (by decide) (by decide) (by decide)
  lock := notMem_fields nameable dated (by decide) (by decide) (by decide)
  dot := notMem_fields nameable dated (by decide) (by decide) (by decide)

/-- The names of finished recordings that can be locked and unlocked are those without a mark in
front of anything but the extension, if they are locked, and those without the mark of a recording
by hand in front of the missing end, if they are not. -/
theorem reversible_iff (nameable : Nameable localtime info) (dated : Dated tm)
    (remote lock : Bool) (ending : Ending) :
    Reversible (finishedName info tm remote lock ending) ↔
      (lock = true → ending = .avi) ∧
        (lock = false → ¬(remote = true ∧ ending = .old)) := by
  have unmarked := unmarked_fields nameable dated
  unfold finishedName
  cases lock with
  | true =>
    rw [reversible_locked_iff unmarked]
    exact ⟨fun ends => ⟨fun _ => ends, fun open_ => absurd open_.symm Bool.false_ne_true⟩,
      fun both => both.1 rfl⟩
  | false =>
    rw [reversible_unlocked_iff unmarked]
    exact ⟨fun kept => ⟨fun locked => absurd locked Bool.false_ne_true, fun _ => kept⟩,
      fun both => both.2 rfl⟩

theorem reversible_iff_recorded :
    Reversible (finishedName blankInfo ⟨70, 0, 1, 14, 25, 4⟩ true true .avi) :=
  (reversible_iff nameable_blankInfo dated_firstDay true true .avi).mpr
    ⟨fun _ => rfl, fun open_ => absurd open_.symm Bool.false_ne_true⟩

/-- The information of a recording with an alarm. -/
def alarmInfo : FileInfo := { blankInfo with trig := 1 }

/-- The repair names a recording with an alarm whose end is missing, and unlocked this name is that
of a complete one. -/
theorem missing_end_lost : ¬Reversible (nameWith alarmInfo ⟨70, 0, 1, 14, 25, 4⟩ Form.avi.old) := by
  have nameable : Nameable firstDay alarmInfo :=
    ⟨nameable_blankInfo.partition, by decide, by decide, by decide, by decide,
      nameable_blankInfo.year⟩
  have unmarked := unmarked_fields nameable dated_firstDay
  have named : nameWith alarmInfo ⟨70, 0, 1, 14, 25, 4⟩ Form.avi.old =
      finishedName alarmInfo ⟨70, 0, 1, 14, 25, 4⟩ false true .old := nameWith_eq _ _ .old
  rw [named]
  intro reversible
  have ends := (reversible_locked_iff unmarked).mp reversible
  cases ends

end Names

end ExmOnvif.FileIndex
