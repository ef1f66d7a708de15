/-
This file is about the flags in the names of the recorded files.

A file has in its name the alarms and the recording by hand that were running when it was
created. The recording thread cuts its file where they change; it learns of a change from
the cut flag, or from the state of the channel, which it looks at once in each turn before
it reads a frame.

A change that raises no cut flag and comes behind that look, or that the state does not
show at the next one, is missed, and the frame goes into the file of what was before.
-/

import ExmOnvif.HdModule.RecordThread

namespace ExmOnvif.HdModule

open Library

namespace HdEnc

/-! ### What a call is about to do, by the channel before it -/

variable (hd : HdEnc)

/-- The watch closes the file: no frame has come for ten seconds. -/
def Closes : Call → Prop
  | .hdSecondProc watched _ =>
    watched = .attached ∧ 10 ≤ hd.watchcnt + 1 ∧ (hd.watchcnt + 1) % 10 = 0
  | _ => False

/-- The flags of the files that are created behind a call. -/
def flagsBehind : Call → Flags
  | .trigRecordEvent trig _ =>
    if hd.enable ≠ 0 ∧ trig ≠ 0 then ⟨hd.trig ||| trig, hd.remoteTrigged⟩ else hd.flags
  | .remoteStartRecord _ => ⟨hd.trig, true⟩
  | .remoteStopRecord => ⟨hd.trig, false⟩
  | .clearHdmodTrigFlag => ⟨0, hd.remoteTrigged⟩
  | .hdSecondProc _ _ =>
    if hd.state = .idle then hd.flags
    else ⟨if hd.recordlen = 1 then 0 else hd.trig, hd.remoteTrigged && hd.remoteTrigTime ≠ 1⟩

/-- An alarm or a recording by hand keeps the channel in the locked state, or brings it there. -/
def Locks : Call → Prop
  | .trigRecordEvent trig _ => hd.state = .alarm ∨ hd.enable ≠ 0 ∧ trig ≠ 0
  | .remoteStartRecord _ => True
  | .remoteStopRecord => hd.state = .alarm ∧ hd.trig ≠ 0
  | .clearHdmodTrigFlag => hd.state = .alarm ∧ hd.remoteTrigged = true
  | .hdSecondProc _ _ =>
    hd.state = .alarm ∧ ¬(hd.remoteTrigTime = 1 ∧ hd.recordlen = 0) ∧
      ¬(hd.recordlen = 1 ∧ (hd.remoteTrigged = false ∨ hd.remoteTrigTime = 1))

/-- The cut flag is set, or the call sets it: for another alarm, with a recording by hand that
begins or ends, with an alarm that ends during one, and when the file has its length. -/
def Cuts : Call → Prop
  | .trigRecordEvent trig _ =>
    hd.cutflag = true ∨ (hd.enable ≠ 0 ∧ trig ≠ 0) ∧ hd.state = .alarm ∧ hd.trig ≠ trig
  | .remoteStartRecord _ => hd.cutflag = true ∨ hd.remoteTrigged = false ∧ hd.state ≠ .idle
  | .remoteStopRecord => hd.cutflag = true ∨ hd.remoteTrigged = true
  | .clearHdmodTrigFlag => hd.cutflag = true ∨ hd.remoteTrigged = true
  | .hdSecondProc _ _ =>
    hd.cutflag = true ∨ hd.state ≠ .idle ∧
      (hd.aviinfo ≠ none ∧ hd.maxLen ≤ hd.filelen + 1 ∨
        hd.remoteTrigTime = 1 ∧ hd.recordlen ≠ 0 ∨
        hd.recordlen = 1 ∧ hd.remoteTrigged = true)

instance : (call : Call) → Decidable (hd.Closes call)
  | .hdSecondProc _ _ => inferInstanceAs (Decidable (_ ∧ _))
  | .trigRecordEvent _ _ => inferInstanceAs (Decidable False)
  | .remoteStartRecord _ => inferInstanceAs (Decidable False)
  | .remoteStopRecord => inferInstanceAs (Decidable False)
  | .clearHdmodTrigFlag => inferInstanceAs (Decidable False)

instance : (call : Call) → Decidable (hd.Locks call)
  | .trigRecordEvent _ _ => inferInstanceAs (Decidable (_ ∨ _))
  | .remoteStartRecord _ => inferInstanceAs (Decidable True)
  | .remoteStopRecord => inferInstanceAs (Decidable (_ ∧ _))
  | .clearHdmodTrigFlag => inferInstanceAs (Decidable (_ ∧ _))
  | .hdSecondProc _ _ => inferInstanceAs (Decidable (_ ∧ _))

instance : (call : Call) → Decidable (hd.Cuts call)
  | .trigRecordEvent _ _ => inferInstanceAs (Decidable (_ ∨ _))
  | .remoteStartRecord _ => inferInstanceAs (Decidable (_ ∨ _))
  | .remoteStopRecord => inferInstanceAs (Decidable (_ ∨ _))
  | .clearHdmodTrigFlag => inferInstanceAs (Decidable (_ ∨ _))
  | .hdSecondProc _ _ => inferInstanceAs (Decidable (_ ∨ _))

variable {hd}

/-! ### The seconds of the recording -/

theorem watchProc_closes {watched : Watched} {renamed : Bool}
    (closes : ¬hd.Closes (.hdSecondProc watched renamed)) :
    ∃ watchcnt, hd.watchProc watched renamed = { hd with watchcnt := watchcnt } := by
  unfold watchProc
  cases watched with
  | absent => exact ⟨_, rfl⟩
  | detached => exact ⟨_, rfl⟩
  | attached =>
    simp only
    split
    · exact ⟨_, rfl⟩
    · next ten =>
      split
      · next turn => exact absurd ⟨rfl, Nat.le_of_not_lt ten, turn⟩ closes
      · exact ⟨_, rfl⟩

theorem fileProc_aviinfo (hd : HdEnc) : hd.fileProc.aviinfo = hd.aviinfo := by
  unfold fileProc
  split <;> rfl

theorem remoteProc_aviinfo (hd : HdEnc) : hd.remoteProc.aviinfo = hd.aviinfo := by
  unfold remoteProc
  grind

theorem recordProc_aviinfo (hd : HdEnc) : hd.recordProc.aviinfo = hd.aviinfo := by
  unfold recordProc
  grind

theorem hdSecondProc_aviinfo (hd : HdEnc) (watched : Watched) (renamed : Bool) :
    (hd.hdSecondProc watched renamed).aviinfo = (hd.watchProc watched renamed).aviinfo := by
  unfold hdSecondProc
  simp only
  split
  · rfl
  · rw [recordProc_aviinfo, remoteProc_aviinfo, fileProc_aviinfo]

theorem remoteProc_kept (hd : HdEnc) :
    hd.remoteProc.trig = hd.trig ∧ hd.remoteProc.recordlen = hd.recordlen := by
  unfold remoteProc
  split
  · split
    · split <;> exact ⟨rfl, rfl⟩
    · exact ⟨rfl, rfl⟩
  · exact ⟨rfl, rfl⟩

theorem remoteProc_remoteTrigged (hd : HdEnc) :
    hd.remoteProc.remoteTrigged = (hd.remoteTrigged && hd.remoteTrigTime ≠ 1) := by
  unfold remoteProc
  grind

theorem remoteProc_locked (hd : HdEnc) :
    hd.remoteProc.state = .alarm ↔
      hd.state = .alarm ∧ ¬(hd.remoteTrigTime = 1 ∧ hd.recordlen = 0) := by
  have rest := hd.restState_ne_alarm
  unfold remoteProc
  grind

theorem remoteProc_cutflag (hd : HdEnc) :
    hd.remoteProc.cutflag = true ↔
      hd.cutflag = true ∨ hd.remoteTrigTime = 1 ∧ hd.recordlen ≠ 0 := by
  unfold remoteProc
  grind

theorem recordProc_flags (hd : HdEnc) :
    hd.recordProc.flags = ⟨if hd.recordlen = 1 then 0 else hd.trig, hd.remoteTrigged⟩ := by
  unfold recordProc flags
  grind

theorem recordProc_locked (hd : HdEnc) :
    hd.recordProc.state = .alarm ↔
      hd.state = .alarm ∧ ¬(hd.recordlen = 1 ∧ hd.remoteTrigged = false) := by
  unfold recordProc
  grind

theorem recordProc_cutflag (hd : HdEnc) :
    hd.recordProc.cutflag = true ↔
      hd.cutflag = true ∨ hd.recordlen = 1 ∧ hd.remoteTrigged = true := by
  unfold recordProc
  grind

theorem fileProc_cutflag (hd : HdEnc) :
    hd.fileProc.cutflag = true ↔
      hd.cutflag = true ∨ hd.aviinfo ≠ none ∧ hd.maxLen ≤ hd.filelen + 1 := by
  unfold fileProc
  grind

/-! ### What a call does -/

theorem closed_call {call : Call} (closes : hd.Closes call) : (hd.call call).aviinfo = none := by
  cases call with
  | hdSecondProc watched renamed =>
    obtain ⟨rfl, ten, turn⟩ := closes
    rw [HdEnc.call, hdSecondProc_aviinfo, watchProc, if_neg (Nat.not_lt.mpr ten), if_pos turn]
    exact (RecordThread.closeRecordFile_aviinfo _ renamed).1
  | _ => exact closes.elim

theorem file_call {call : Call} (closes : ¬hd.Closes call) :
    (hd.call call).aviinfo = hd.aviinfo := by
  cases call with
  | trigRecordEvent trig reclen =>
    simp only [HdEnc.call, HdEnc.trigRecordEvent]
    grind
  | remoteStartRecord reclen => rfl
  | remoteStopRecord => rfl
  | clearHdmodTrigFlag =>
    simp only [HdEnc.call, HdEnc.clearHdmodTrigFlag]
    grind
  | hdSecondProc watched renamed =>
    obtain ⟨watchcnt, result⟩ := watchProc_closes closes
    rw [HdEnc.call, hdSecondProc_aviinfo, result]

theorem flags_call (hd : HdEnc) (call : Call) : (hd.call call).flags = hd.flagsBehind call := by
  cases call with
  | trigRecordEvent trig reclen =>
    simp only [HdEnc.call, HdEnc.trigRecordEvent, flagsBehind, flags]
    grind
  | remoteStartRecord reclen => rfl
  | remoteStopRecord => rfl
  | clearHdmodTrigFlag =>
    simp only [HdEnc.call, HdEnc.clearHdmodTrigFlag, flagsBehind, flags]
    grind
  | hdSecondProc watched renamed =>
    obtain ⟨watchcnt, _, _, _, result, _⟩ := hd.watchProc_cases watched renamed
    simp only [HdEnc.call, HdEnc.hdSecondProc, flagsBehind, result]
    split
    · rfl
    · obtain ⟨_, _, counted, _⟩ := fileProc_cases (hd.watchProc watched renamed)
      rw [result] at counted
      rw [counted, recordProc_flags, remoteProc_remoteTrigged, (remoteProc_kept _).1,
        (remoteProc_kept _).2]

theorem locked_call (hd : HdEnc) (call : Call) :
    (hd.call call).state = .alarm ↔ hd.Locks call := by
  cases call with
  | trigRecordEvent trig reclen =>
    simp only [HdEnc.call, HdEnc.trigRecordEvent, Locks]
    grind
  | remoteStartRecord reclen => exact iff_of_true rfl trivial
  | remoteStopRecord =>
    simp only [HdEnc.call, HdEnc.remoteStopRecord, Locks]
    grind
  | clearHdmodTrigFlag =>
    have rest := hd.restState_ne_alarm
    simp only [HdEnc.call, HdEnc.clearHdmodTrigFlag, Locks]
    grind
  | hdSecondProc watched renamed =>
    obtain ⟨watchcnt, _, _, _, result, _⟩ := hd.watchProc_cases watched renamed
    simp only [HdEnc.call, HdEnc.hdSecondProc, Locks, result]
    split
    · next idle =>
      rw [idle]
      exact iff_of_false RecState.noConfusion fun locked => RecState.noConfusion locked.1
    · obtain ⟨_, _, counted, _⟩ := fileProc_cases (hd.watchProc watched renamed)
      rw [result] at counted
      rw [counted, recordProc_locked, remoteProc_locked, remoteProc_remoteTrigged,
        (remoteProc_kept _).2, and_assoc, Bool.and_eq_false_iff, decide_eq_false_iff_not, not_not]

theorem cut_call {call : Call} (closes : ¬hd.Closes call) :
    (hd.call call).cutflag = true ↔ hd.Cuts call := by
  cases call with
  | trigRecordEvent trig reclen =>
    simp only [HdEnc.call, HdEnc.trigRecordEvent, Cuts]
    grind
  | remoteStartRecord reclen =>
    simp only [HdEnc.call, HdEnc.remoteStartRecord, Cuts]
    grind
  | remoteStopRecord =>
    simp only [HdEnc.call, HdEnc.remoteStopRecord, Cuts]
    grind
  | clearHdmodTrigFlag =>
    simp only [HdEnc.call, HdEnc.clearHdmodTrigFlag, Cuts]
    grind
  | hdSecondProc watched renamed =>
    obtain ⟨watchcnt, result⟩ := watchProc_closes closes
    simp only [HdEnc.call, HdEnc.hdSecondProc, Cuts, result]
    split
    · next idle => exact (or_iff_left fun running => running.1 idle).symm
    · next running =>
      obtain ⟨cutflag, filelen, counted, _⟩ := fileProc_cases { hd with watchcnt := watchcnt }
      have cut := fileProc_cutflag { hd with watchcnt := watchcnt }
      rw [recordProc_cutflag, remoteProc_cutflag, remoteProc_remoteTrigged,
        (remoteProc_kept _).2, cut, counted]
      simp only
      grind

theorem cuts_of_cutflag (call : Call) (set : hd.cutflag = true) : hd.Cuts call := by
  cases call <;> exact Or.inl set

/-- A call opens no file. -/
theorem call_file (hd : HdEnc) (call : Call) :
    (hd.call call).aviinfo = none ∨ (hd.call call).aviinfo = hd.aviinfo := by
  by_cases closes : hd.Closes call
  · exact Or.inl (closed_call closes)
  · exact Or.inr (file_call closes)

end HdEnc

namespace RecordThread

/-! ### Calls around the thread -/

/-- A step of the thread, a call from outside, or the order to end. -/
inductive Event where
  | own (act : Act)
  | call (call : HdEnc.Call)
  | stop
deriving DecidableEq, Repr

/-- One step. -/
def turn (thread : RecordThread) : Event → Option RecordThread
  | .own act => thread.own act
  | .call call => some { thread with hd := thread.hd.call call }
  | .stop => some { thread with hd := { thread.hd with threadexit := true } }

/-- Every frame went into a file with the flags of the test for a cut in its turn. -/
def Labelled (thread : RecordThread) : Prop :=
  ∀ pair ∈ thread.appended, pair.1 = pair.2

/-- The turn creates a file. -/
def Opens (thread : RecordThread) (hd : HdEnc) : Prop :=
  thread.newstate ≠ .idle ∧ (hd.aviinfo = none ∨ thread.place = .closing true) ∧
    (thread.buffer.bind (thread.reads[·]?)).any Frame.isKeyframe = true

/-- A call for which no cut is needed, or that raises the cut flag. -/
def Kept (thread : RecordThread) (call : HdEnc.Call) : Prop :=
  thread.hd.aviinfo = none ∨ thread.hd.Closes call ∨ thread.hd.Cuts call ∨
    thread.hd.flagsBehind call = thread.hd.flags ∧
      ((thread.hd.Locks call ↔ thread.hd.state = .alarm) ∨
        thread.hd.aviinfo = some thread.hd.flags)

/-- A call that takes the channel to or from the locked state, while the thread knows the state
before it. -/
def Swings (thread : RecordThread) (call : HdEnc.Call) : Prop :=
  (thread.state = .alarm ↔ thread.hd.state = .alarm) ∧
    ¬(thread.hd.Locks call ↔ thread.hd.state = .alarm)

/-- Where the turn is about to create a file, the call leaves the flags that it has looked at. -/
def Agrees (thread : RecordThread) (call : HdEnc.Call) : Prop :=
  thread.newstate ≠ .idle →
    thread.hd.aviinfo = none ∨ thread.hd.Closes call ∨ thread.place = .closing true →
    (thread.buffer.bind (thread.reads[·]?)).any Frame.isKeyframe = true →
      thread.hd.flagsBehind call = thread.seen

/-- A call that the thread will notice in time. -/
def Noticed (thread : RecordThread) (call : HdEnc.Call) : Prop :=
  match thread.place with
  | .top | .finished => thread.Kept call ∨ thread.Swings call
  | .reading | .testing =>
    thread.Kept call ∨ thread.state ≠ thread.newstate ∧ thread.state ≠ .idle
  | .closing closeflag =>
    (closeflag = true ∨ thread.Kept call ∨ thread.Swings call) ∧ thread.Agrees call
  | .writing => (thread.Kept call ∨ thread.Swings call) ∧ thread.Agrees call

/-- The thread notices what the call changes. -/
def InTime (thread : RecordThread) : Event → Prop
  | .call call => thread.Noticed call
  | _ => True

/-! ### One step -/

/-- The flags of the file are those of the channel, or a cut is due. -/
def Due (thread : RecordThread) (pending : Prop) : Prop :=
  thread.hd.aviinfo = none ∨ thread.hd.aviinfo = some thread.hd.flags ∨
    thread.hd.cutflag = true ∨ pending

/-- The flags of the file in each part of the turn. -/
def Fits (thread : RecordThread) : Prop :=
  match thread.place with
  | .top | .finished => thread.Due ¬(thread.state = .alarm ↔ thread.hd.state = .alarm)
  | .reading | .testing =>
    thread.Due (thread.state ≠ thread.newstate ∧ thread.state ≠ .idle)
  | .closing closeflag =>
    (closeflag = true ∨ (thread.hd.aviinfo = none ∨ thread.hd.aviinfo = some thread.seen) ∧
      thread.Due ¬(thread.state = .alarm ↔ thread.hd.state = .alarm)) ∧
      (thread.Opens thread.hd → thread.hd.flags = thread.seen)
  | .writing =>
    ((thread.hd.aviinfo = none ∨ thread.hd.aviinfo = some thread.seen) ∧
      thread.Due ¬(thread.state = .alarm ↔ thread.hd.state = .alarm)) ∧
      (thread.Opens thread.hd → thread.hd.flags = thread.seen)

/-- What the thread keeps to in each step. -/
structure Matched (thread : RecordThread) : Prop where
  labelled : thread.Labelled
  stopped : thread.state = .idle → thread.hd.aviinfo = none ∨ thread.place = .closing true
  settled : thread.place = .writing ∨ (∃ closeflag, thread.place = .closing closeflag) →
    thread.state = thread.newstate
  fits : thread.Fits

theorem start_matched (hd : HdEnc) : (start hd).Matched where
  labelled := fun _ member => nomatch member
  stopped := fun _ => Or.inl rfl
  settled := by rintro (place | ⟨_, place⟩) <;> cases place
  fits := Or.inl rfl

theorem Matched.phased {thread : RecordThread} (matched : thread.Matched) : thread.Phased :=
  ⟨matched.stopped, matched.settled⟩

/-- What is due stays due under a call that the thread notices. -/
theorem Due.call {thread : RecordThread} {call : HdEnc.Call} {pending after : Prop}
    (due : thread.Due pending) (change : thread.Kept call ∨ after)
    (same : (thread.hd.Locks call ↔ thread.hd.state = .alarm) → pending → after) :
    Due { thread with hd := thread.hd.call call } after := by
  by_cases closes : thread.hd.Closes call
  · exact Or.inl (HdEnc.closed_call closes)
  have file := HdEnc.file_call closes
  have cut := HdEnc.cut_call closes
  have flags := thread.hd.flags_call call
  rcases change with (none | closing | raised | ⟨kept, alarm | label⟩) | noticed
  · exact Or.inl (file.trans none)
  · exact absurd closing closes
  · exact Or.inr (Or.inr (Or.inl (cut.mpr raised)))
  · rcases due with none | label | raised | noticed
    · exact Or.inl (file.trans none)
    · exact Or.inr (Or.inl (file.trans (label.trans (congrArg some (flags.trans kept).symm))))
    · exact Or.inr (Or.inr (Or.inl (cut.mpr (HdEnc.cuts_of_cutflag call raised))))
    · exact Or.inr (Or.inr (Or.inr (same alarm noticed)))
  · exact Or.inr (Or.inl (file.trans (label.trans (congrArg some (flags.trans kept).symm))))
  · exact Or.inr (Or.inr (Or.inr noticed))

/-- Between two looks at the state a change to or from the locked state is due. -/
theorem Due.swing {thread : RecordThread} {call : HdEnc.Call}
    (due : thread.Due ¬(thread.state = .alarm ↔ thread.hd.state = .alarm))
    (change : thread.Kept call ∨ thread.Swings call) :
    Due { thread with hd := thread.hd.call call }
      ¬(thread.state = .alarm ↔ (thread.hd.call call).state = .alarm) := by
  rw [HdEnc.locked_call]
  refine due.call (change.imp_right ?_) ?_
  · rintro ⟨known, moved⟩ same
    exact moved (same.symm.trans known)
  · intro alarm pending same
    exact pending (same.trans alarm)

/-- The file of the turn is not replaced by a call. -/
theorem file_call {thread : RecordThread} {call : HdEnc.Call} {label : Flags}
    (file : thread.hd.aviinfo = none ∨ thread.hd.aviinfo = some label) :
    (thread.hd.call call).aviinfo = none ∨ (thread.hd.call call).aviinfo = some label := by
  rcases thread.hd.call_file call with none | same
  · exact Or.inl none
  · rw [same]
    exact file

/-- A file that the turn creates has the flags that it has looked at. -/
theorem Agrees.opens {thread : RecordThread} {call : HdEnc.Call} (agrees : thread.Agrees call)
    (opens : thread.Opens (thread.hd.call call)) : (thread.hd.call call).flags = thread.seen := by
  obtain ⟨running, opened, key⟩ := opens
  rw [HdEnc.flags_call]
  refine agrees running ?_ key
  by_cases closes : thread.hd.Closes call
  · exact Or.inr (Or.inl closes)
  · rw [HdEnc.file_call closes] at opened
    exact opened.imp_right Or.inr

theorem Matched.call {thread : RecordThread} (matched : thread.Matched) {call : HdEnc.Call}
    (noticed : thread.Noticed call) :
    Matched { thread with hd := thread.hd.call call } where
  labelled := matched.labelled
  stopped := (matched.phased.of_hd (thread.hd.call_file call)).stopped
  settled := matched.settled
  fits := by
    have fits := matched.fits
    unfold Fits at fits ⊢
    unfold Noticed at noticed
    rcases thread with ⟨_, place, _, _, _, _, _, _, _, _, _, _, _⟩
    cases place with
    | top => exact fits.swing noticed
    | reading => exact fits.call noticed fun _ pending => pending
    | testing => exact fits.call noticed fun _ pending => pending
    | closing closeflag =>
      refine ⟨?_, noticed.2.opens⟩
      rcases fits.1 with cut | ⟨file, due⟩
      · exact Or.inl cut
      · rcases noticed.1 with cut | change
        · exact Or.inl cut
        · exact Or.inr ⟨file_call file, due.swing change⟩
    | writing => exact ⟨⟨file_call fits.1.1, fits.1.2.swing noticed.1⟩, noticed.2.opens⟩
    | finished => exact fits.swing noticed

/-! ### The thread's own steps -/

theorem Matched.sample {thread : RecordThread} (matched : thread.Matched)
    (top : thread.place = .top) : thread.sample.Matched := by
  have stopped := matched.phased.idle (by rw [top]; nofun)
  have phased := matched.phased.sample top
  have fits := matched.fits
  unfold Fits at fits
  rw [top] at fits
  refine ⟨matched.labelled, phased.stopped, phased.settled, ?_⟩
  by_cases before : thread.state = .idle
  · have none := stopped before
    unfold Fits
    rcases sample_place thread with place | place <;> rw [place] <;> exact Or.inl none
  · have kept : thread.sample.state = thread.state :=
      if_neg fun connecting => before connecting.1
    have due : thread.sample.Due ¬(thread.state = .alarm ↔ thread.hd.state = .alarm) := fits
    unfold Fits
    rcases sample_place thread with place | place <;> rw [place] <;> simp only <;> rw [kept]
    · rcases due with none | label | cut | pending
      · exact Or.inl none
      · exact Or.inr (Or.inl label)
      · exact Or.inr (Or.inr (Or.inl cut))
      · refine Or.inr (Or.inr (Or.inr ⟨fun same => pending ?_, before⟩))
        rw [same]
        rfl
    · exact due

theorem Matched.again {thread : RecordThread} (labelled : thread.Labelled)
    (stopped : thread.state = .idle → thread.hd.aviinfo = none)
    (due : thread.Due (thread.state ≠ thread.newstate ∧ thread.state ≠ .idle)) :
    thread.again.Matched := by
  unfold RecordThread.again
  split
  · have phased : Phased { thread with place := .reading } :=
      phased_of_idle stopped fun _ => ⟨nofun, nofun⟩
    exact ⟨labelled, phased.stopped, phased.settled, due⟩
  · have phased : Phased { thread with place := .testing } :=
      phased_of_idle stopped fun _ => ⟨nofun, nofun⟩
    exact ⟨labelled, phased.stopped, phased.settled, due⟩

theorem Matched.read {thread : RecordThread} (matched : thread.Matched)
    (reading : thread.place = .reading) (result : Option Frame) :
    (thread.read result).Matched := by
  have stopped := matched.phased.idle (by rw [reading]; nofun)
  have fits := matched.fits
  unfold Fits at fits
  rw [reading] at fits
  cases result with
  | none => exact Matched.again matched.labelled stopped fits
  | some frame =>
    unfold RecordThread.read
    simp only
    split
    · exact Matched.again matched.labelled stopped fits
    · split
      · exact Matched.again matched.labelled stopped fits
      · exact Matched.again matched.labelled stopped fits

theorem Matched.test {thread : RecordThread} (matched : thread.Matched)
    (testing : thread.place = .testing) : thread.test.Matched := by
  have fits := matched.fits
  unfold Fits at fits
  rw [testing] at fits
  have closeflag : (thread.hd.cutflag ||
      decide (thread.state ≠ thread.newstate ∧ thread.state ≠ .idle)) = true ↔
      thread.hd.cutflag = true ∨ thread.state ≠ thread.newstate ∧ thread.state ≠ .idle := by
    rw [Bool.or_eq_true, decide_eq_true_eq]
  have phased := matched.phased.test testing
  refine ⟨matched.labelled, phased.stopped, phased.settled, ⟨?_, fun _ => rfl⟩⟩
  rcases fits with none | label | cut | pending
  · exact Or.inr ⟨Or.inl none, Or.inl none⟩
  · exact Or.inr ⟨Or.inr label, Or.inr (Or.inl label)⟩
  · exact Or.inl (closeflag.mpr (Or.inl cut))
  · exact Or.inl (closeflag.mpr (Or.inr pending))

theorem Matched.close {thread : RecordThread} (matched : thread.Matched) {closeflag : Bool}
    (closing : thread.place = .closing closeflag) (renamed : Bool) :
    Matched { thread with
      hd := if closeflag then thread.hd.closeRecordFile renamed else thread.hd
      place := .writing } := by
  have closed := closeRecordFile_aviinfo thread.hd renamed
  have phased := matched.phased.close closing renamed
  have fits := matched.fits
  unfold Fits at fits
  rw [closing] at fits
  cases closeflag with
  | true =>
    refine ⟨matched.labelled, phased.stopped, phased.settled,
      ⟨⟨Or.inl closed.1, Or.inl closed.1⟩, fun opens => ?_⟩⟩
    have flags : (thread.hd.closeRecordFile renamed).flags = thread.hd.flags := by
      unfold HdEnc.closeRecordFile
      split
      · rfl
      · split <;> rfl
    exact flags.trans (fits.2 ⟨opens.1, Or.inr closing, opens.2.2⟩)
  | false =>
    refine ⟨matched.labelled, phased.stopped, phased.settled, ⟨?_, fun opens => ?_⟩⟩
    · exact fits.1.resolve_left Bool.false_ne_true
    · rcases opens.2.1 with none | place
      · exact fits.2 ⟨opens.1, Or.inl none, opens.2.2⟩
      · cases place

/-- A turn ends, with or without a frame. -/
theorem Due.ended {thread next : RecordThread}
    (due : thread.Due ¬(thread.state = .alarm ↔ thread.hd.state = .alarm))
    (labelled : next.Labelled) (file : next.hd.aviinfo = thread.hd.aviinfo)
    (flags : next.hd.flags = thread.hd.flags) (cut : next.hd.cutflag = thread.hd.cutflag)
    (alarm : next.hd.state = thread.hd.state)
    (state : next.state = thread.state ∨ thread.hd.aviinfo = none)
    (stopped : thread.state = .idle → thread.hd.aviinfo = none) (top : next.place = .top) :
    next.Matched := by
  have phased : next.Phased := by
    refine phased_of_idle (fun idle => file.trans ?_) (by rw [top]; exact fun _ => ⟨nofun, nofun⟩)
    rcases state with same | none
    · exact stopped (same.symm.trans idle)
    · exact none
  refine ⟨labelled, phased.stopped, phased.settled, ?_⟩
  unfold Fits
  rw [top]
  unfold Due
  rw [file, flags, cut, alarm]
  rcases state with same | none
  · rw [same]
    exact due
  · exact Or.inl none

theorem Labelled.concat {thread : RecordThread} (labelled : thread.Labelled) {label seen : Flags}
    (same : label = seen) :
    ∀ pair ∈ thread.appended ++ [(label, seen)], pair.1 = pair.2 := by
  intro pair member
  rcases List.mem_append.mp member with before | last
  · exact labelled pair before
  · rw [List.mem_singleton.mp last]
    exact same

theorem Matched.write {thread : RecordThread} (matched : thread.Matched)
    (writing : thread.place = .writing) (free created attached : Bool) :
    (thread.write free created attached).Matched := by
  have settled := matched.settled (Or.inl writing)
  have stopped := matched.phased.idle (by rw [writing]; nofun)
  have fits := matched.fits
  unfold Fits at fits
  rw [writing] at fits
  obtain ⟨⟨file, due⟩, opens⟩ := fits
  have appended : ∀ number label, thread.hd.aviinfo = some label →
      (thread.append number label).Matched := by
    intro number label present
    refine due.ended (matched.labelled.concat ?_) rfl rfl rfl rfl (Or.inl rfl) stopped rfl
    rcases file with none | same
    · rw [none] at present
      cases present
    · exact Option.some.inj (present.symm.trans same)
  unfold RecordThread.write
  split
  · exact due.ended matched.labelled rfl rfl rfl rfl (Or.inl rfl) stopped rfl
  · next number buffer =>
    split
    · next recorded =>
      split
      · next busy =>
        split
        · next none =>
          split
          · exact due.ended matched.labelled rfl rfl rfl rfl (Or.inl rfl) stopped rfl
          · split
            · exact due.ended matched.labelled rfl rfl rfl rfl (Or.inr none) stopped rfl
            · have same : thread.hd.flags = thread.seen := by
                refine opens ⟨busy, Or.inl none, ?_⟩
                rw [buffer, Option.bind_some]
                exact recorded.1
              refine ⟨matched.labelled.concat same, fun idle => ?_, ?_, Or.inr (Or.inl rfl)⟩
              · exact absurd (settled.symm.trans idle) busy
              · rintro (place | ⟨_, place⟩) <;> cases place
        · next label present => exact appended number label present
      · split
        · exact due.ended matched.labelled rfl rfl rfl rfl (Or.inl rfl) stopped rfl
        · exact due.ended matched.labelled rfl rfl rfl rfl (Or.inl rfl) stopped rfl
    · split
      · split
        · exact due.ended matched.labelled rfl rfl rfl rfl (Or.inl rfl) stopped rfl
        · next label present => exact appended number label present
      · exact due.ended matched.labelled rfl rfl rfl rfl (Or.inl rfl) stopped rfl

/-! ### Runs with calls -/

theorem Matched.own {thread next : RecordThread} (matched : thread.Matched) {act : Act}
    (taken : thread.own act = some next) : next.Matched := by
  have taken := own_cases taken
  cases act with
  | sample =>
    obtain ⟨top, _, rfl⟩ := taken
    exact matched.sample top
  | read result =>
    obtain ⟨reading, rfl⟩ := taken
    exact matched.read reading result
  | test =>
    obtain ⟨testing, rfl⟩ := taken
    exact matched.test testing
  | close renamed =>
    obtain ⟨closeflag, closing, rfl⟩ := taken
    exact matched.close closing renamed
  | write free created attached =>
    obtain ⟨writing, rfl⟩ := taken
    exact matched.write writing free created attached
  | finish renamed =>
    obtain ⟨_, _, rfl⟩ := taken
    have closed := closeRecordFile_aviinfo thread.hd renamed
    have phased : Phased { thread with
        hd := thread.hd.closeRecordFile renamed, place := .finished } :=
      phased_of_idle (fun _ => closed.1) fun _ => ⟨nofun, nofun⟩
    exact ⟨matched.labelled, phased.stopped, phased.settled, Or.inl closed.1⟩

theorem Matched.turn {thread next : RecordThread} (matched : thread.Matched) {event : Event}
    (taken : thread.turn event = some next) (inTime : thread.InTime event) : next.Matched := by
  cases event with
  | own act => exact matched.own taken
  | call call =>
    cases taken
    exact matched.call inTime
  | stop =>
    cases taken
    refine ⟨matched.labelled, matched.stopped, matched.settled, ?_⟩
    have fits := matched.fits
    unfold Fits at fits ⊢
    rcases thread with ⟨_, place, _, _, _, _, _, _, _, _, _, _, _⟩
    cases place <;> exact fits

/-- Every frame is in a file with the flags of its turn, in every run in which the thread notices
each change of the flags in time. -/
theorem labels_match {para : Para} {events : List Event} {thread : RecordThread}
    (run : Runs (fun before event after => before.turn event = some after ∧ before.InTime event)
      (start (HdEnc.blank.initHdencCh para)) events thread) : thread.Labelled := by
  have matched : thread.Matched := by
    refine Runs.invariant (start_matched _) ?_ run
    rintro before event after ⟨taken, inTime⟩ matched
    exact matched.turn taken inTime
  exact matched.labelled

instance (thread : RecordThread) (call : HdEnc.Call) : Decidable (thread.Kept call) :=
  inferInstanceAs (Decidable (_ ∨ _ ∨ _ ∨ _ ∧ (_ ∨ _)))

instance (thread : RecordThread) (call : HdEnc.Call) : Decidable (thread.Swings call) :=
  inferInstanceAs (Decidable (_ ∧ _))

instance (thread : RecordThread) (call : HdEnc.Call) : Decidable (thread.Agrees call) :=
  inferInstanceAs (Decidable (_ → _ → _ → _))

instance (thread : RecordThread) (call : HdEnc.Call) : Decidable (thread.Noticed call) := by
  unfold Noticed
  split <;> infer_instance

instance (thread : RecordThread) (event : Event) : Decidable (thread.InTime event) :=
  match event with
  | .call call => inferInstanceAs (Decidable (thread.Noticed call))
  | .own _ => isTrue trivial
  | .stop => isTrue trivial

/-- An alarm during a recording ahead of it: the file is cut. -/
theorem labels_match_alarm :
    ∃ thread, Runs (fun before event after => before.turn event = some after ∧
        before.InTime event) (start (HdEnc.blank.initHdencCh ⟨0, 600, 30, 60, 1⟩))
        [.own .sample, .own (.read (some ⟨.intra, 7⟩)), .own .test, .own (.close true),
          .own (.write true true true), .call (.trigRecordEvent 1 0), .own .sample,
          .own (.read (some ⟨.intra, 8⟩)), .own .test, .own (.close true),
          .own (.write true true true)] thread ∧
      thread.appended = [(⟨0, false⟩, ⟨0, false⟩), (⟨1, false⟩, ⟨1, false⟩)] ∧
        thread.Labelled := by
  obtain ⟨thread, run, tested⟩ := @Runs.of_any_guarded RecordThread Event
    (start (HdEnc.blank.initHdencCh ⟨0, 600, 30, 60, 1⟩)) turn InTime _
    [.own .sample, .own (.read (some ⟨.intra, 7⟩)), .own .test, .own (.close true),
      .own (.write true true true), .call (.trigRecordEvent 1 0), .own .sample,
      .own (.read (some ⟨.intra, 8⟩)), .own .test, .own (.close true),
      .own (.write true true true)]
    (fun thread => decide (thread.appended =
      [(⟨0, false⟩, ⟨0, false⟩), (⟨1, false⟩, ⟨1, false⟩)])) (by decide +kernel)
  exact ⟨thread, run, of_decide_eq_true tested, labels_match run⟩

/-- One alarm is cleared and another one comes between two turns: the state is the same as before,
and the frame goes into the file of the first alarm. -/
theorem label_of_old_alarm :
    ∃ thread, Runs (fun before event after => before.turn event = some after)
        (start (HdEnc.blank.initHdencCh ⟨0, 600, 30, 60, 1⟩))
        [.call (.trigRecordEvent 1 0), .own .sample, .own (.read (some ⟨.intra, 7⟩)), .own .test,
          .own (.close true), .own (.write true true true), .call .clearHdmodTrigFlag,
          .call (.trigRecordEvent 2 0), .own .sample, .own (.read (some ⟨.predicted, 8⟩)),
          .own .test, .own (.close true), .own (.write true true true)] thread ∧
      ¬thread.Labelled := by
  obtain ⟨thread, run, tested⟩ := @Runs.of_any RecordThread Event
    (start (HdEnc.blank.initHdencCh ⟨0, 600, 30, 60, 1⟩)) turn
    [.call (.trigRecordEvent 1 0), .own .sample, .own (.read (some ⟨.intra, 7⟩)), .own .test,
      .own (.close true), .own (.write true true true), .call .clearHdmodTrigFlag,
      .call (.trigRecordEvent 2 0), .own .sample, .own (.read (some ⟨.predicted, 8⟩)), .own .test,
      .own (.close true), .own (.write true true true)]
    (fun thread => decide ((⟨1, false⟩, ⟨2, false⟩) ∈ thread.appended)) (by decide +kernel)
  refine ⟨thread, run, fun labelled => ?_⟩
  have same := labelled _ (of_decide_eq_true tested)
  exact absurd same (by decide)

end RecordThread

end ExmOnvif.HdModule
