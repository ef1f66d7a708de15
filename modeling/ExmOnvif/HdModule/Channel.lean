/-
This file models a channel of the recording module: what it records, and how long.

A channel records ahead of any event, on motion, on an alarm or by hand. The alarms and
the recording by hand have a counter of seconds each, which the second handler of the
module counts down; motion shares the counter of the alarms. The files of an alarm or a
recording by hand are locked against deletion, and the recording thread cuts its file
where the kind of recording changes.

The channel is in the locked state exactly while an alarm or a recording by hand is
running, unless the recording by hand ends during motion.
-/

import Mathlib.Data.BitVec
import ExmOnvif.Library.Runs

namespace ExmOnvif.HdModule

open Library

/-! ### Channels -/

/-- `state`: 0 is idle, 1 records ahead of an event, 2 records an alarm. -/
inductive RecState where
  | idle
  | ahead
  | alarm
deriving DecidableEq, Repr

/-- The flags in the name of a file. -/
structure Flags where
  trig : BitVec 16
  remote : Bool
deriving DecidableEq, Repr

/-- `hd_enc_struct`. Of the file that is open there are the flags in its name. -/
structure HdEnc where
  recType : Int
  preRec : Int
  dlyRec : Int
  maxLen : Int
  enable : Int
  state : RecState
  trig : BitVec 16
  recordlen : Int
  remoteTrigged : Bool
  remoteTrigTime : Int
  cutflag : Bool
  filelen : Int
  aviinfo : Option Flags
  watchcnt : Nat
  threadexit : Bool
deriving DecidableEq, Repr

/-- What the parameter file says of a channel. -/
structure Para where
  recType : Int
  preRec : Int
  dlyRec : Int
  maxLen : Int
  enable : Int
deriving DecidableEq, Repr

/-- `MOTION_DLY_REC`. -/
def motionDlyRec : Int := 10

/-- What an `int` keeps of a number. -/
def int32 (value : Int) : Int := value.bmod (2 ^ 32)

namespace HdEnc

/-- The channel in static memory. -/
def blank : HdEnc := ⟨0, 0, 0, 0, 0, .idle, 0, 0, false, 0, false, 0, none, 0, false⟩

/-- `init_hdenc_ch`. Its `memset` clears no more than the size of a pointer. -/
def initHdencCh (hd : HdEnc) (para : Para) : HdEnc :=
  { hd with
    recType := para.recType
    preRec := para.preRec
    dlyRec := para.dlyRec
    maxLen := para.maxLen
    enable := para.enable
    recordlen := 0
    state := if para.preRec ≠ 0 ∧ para.recType = 0 then .ahead else hd.state
    watchcnt := 0
    remoteTrigTime := 0
    remoteTrigged := false
    threadexit := false }

/-- The flags that a file opened now gets in its name. -/
def flags (hd : HdEnc) : Flags := ⟨hd.trig, hd.remoteTrigged⟩

/-- `close_record_file`. The cut is forgotten unless renaming the file fails. -/
def closeRecordFile (hd : HdEnc) (renamed : Bool) : HdEnc :=
  match hd.aviinfo with
  | none => hd
  | some _ =>
    if renamed then { hd with aviinfo := none, cutflag := false, filelen := 0 }
    else { hd with aviinfo := none }

/-! ### The operations -/

/-- `trig_record_event`. -/
def trigRecordEvent (hd : HdEnc) (trig : BitVec 16) (reclen : Nat) : Int × HdEnc :=
  if trig = 0 ∧ hd.recType = 0 then (0, hd)
  else if hd.enable = 0 then (-1, hd)
  else if trig = 0 then
    (0, { hd with
      recordlen := if hd.recordlen < int32 (motionDlyRec + reclen) then
        int32 (motionDlyRec + reclen) else hd.recordlen
      state := if hd.state = .idle then .ahead else hd.state })
  else
    (0, { hd with
      cutflag := if hd.state = .alarm ∧ hd.trig ≠ trig then true else hd.cutflag
      state := .alarm
      trig := hd.trig ||| trig
      recordlen := if hd.recordlen < int32 (reclen + hd.dlyRec) then
        int32 (reclen + hd.dlyRec) else hd.recordlen })

/-- `remote_start_record`. -/
def remoteStartRecord (hd : HdEnc) (reclen : Nat) : HdEnc :=
  { hd with
    remoteTrigTime := if reclen = 0 then 65535 else reclen
    cutflag := if hd.remoteTrigged = false ∧ hd.state ≠ .idle then true else hd.cutflag
    remoteTrigged := true
    state := .alarm }

/-- `remote_stop_record`. -/
def remoteStopRecord (hd : HdEnc) : HdEnc :=
  { hd with
    cutflag := if hd.remoteTrigged then true else hd.cutflag
    remoteTrigged := false
    state := if hd.trig = 0 then if hd.preRec = 0 ∨ hd.recType = 1 then .idle else .ahead
      else hd.state
    recordlen := if hd.trig = 0 then 0 else hd.recordlen
    remoteTrigTime := 0 }

/-- The state without an alarm and a recording by hand. -/
def restState (hd : HdEnc) : RecState :=
  if hd.recType = 0 ∧ hd.preRec ≠ 0 then .ahead else .idle

/-- `clear_hdmod_trig_flag`. -/
def clearHdmodTrigFlag (hd : HdEnc) : HdEnc :=
  if hd.remoteTrigged = false then
    { hd with trig := 0, recordlen := 0, state := hd.restState }
  else { hd with trig := 0, recordlen := 0, cutflag := true }

/-! ### The second handler -/

/-- What the handler finds of the recording thread: there is none, it has no encoder, or it has
one. -/
inductive Watched where
  | absent
  | detached
  | attached
deriving DecidableEq, Repr

/-- The watch over the recording thread: after ten seconds without a frame the file is closed. -/
def watchProc (hd : HdEnc) (watched : Watched) (renamed : Bool) : HdEnc :=
  match watched with
  | .absent => { hd with watchcnt := 0 }
  | .detached => hd
  | .attached =>
    if hd.watchcnt + 1 < 10 then { hd with watchcnt := hd.watchcnt + 1 }
    else if (hd.watchcnt + 1) % 10 = 0 then
      { hd with watchcnt := hd.watchcnt + 1 }.closeRecordFile renamed
    else { hd with watchcnt := hd.watchcnt + 1 }

/-- The seconds of the file. -/
def fileProc (hd : HdEnc) : HdEnc :=
  if hd.aviinfo = none then hd
  else
    { hd with
      filelen := hd.filelen + 1
      cutflag := if hd.maxLen ≤ hd.filelen + 1 then true else hd.cutflag }

/-- The seconds of the recording by hand. -/
def remoteProc (hd : HdEnc) : HdEnc :=
  if 0 < hd.remoteTrigTime then
    if hd.remoteTrigTime - 1 = 0 then
      if hd.recordlen = 0 then
        { hd with remoteTrigTime := 0, state := hd.restState, remoteTrigged := false }
      else { hd with remoteTrigTime := 0, cutflag := true, remoteTrigged := false }
    else { hd with remoteTrigTime := hd.remoteTrigTime - 1 }
  else hd

/-- The seconds of the alarm or the motion. -/
def recordProc (hd : HdEnc) : HdEnc :=
  if 0 < hd.recordlen then
    if hd.recordlen - 1 = 0 then
      if hd.remoteTrigged = false then
        { hd with
          recordlen := 0
          state := if 0 < hd.preRec ∧ hd.recType = 0 then .ahead else .idle
          trig := 0 }
      else { hd with recordlen := 0, cutflag := true, trig := 0 }
    else { hd with recordlen := hd.recordlen - 1 }
  else hd

/-- `hd_second_proc`, for one channel. -/
def hdSecondProc (hd : HdEnc) (watched : Watched) (renamed : Bool) : HdEnc :=
  let hd := hd.watchProc watched renamed
  if hd.state = .idle then hd else hd.fileProc.remoteProc.recordProc

/-- What is asked of a channel. The length of a recording is not negative. -/
inductive Call where
  | trigRecordEvent (trig : BitVec 16) (reclen : Nat)
  | remoteStartRecord (reclen : Nat)
  | remoteStopRecord
  | clearHdmodTrigFlag
  | hdSecondProc (watched : Watched) (renamed : Bool)
deriving DecidableEq, Repr

/-- One call. -/
def call (hd : HdEnc) : Call → HdEnc
  | .trigRecordEvent trig reclen => (hd.trigRecordEvent trig reclen).2
  | .remoteStartRecord reclen => hd.remoteStartRecord reclen
  | .remoteStopRecord => hd.remoteStopRecord
  | .clearHdmodTrigFlag => hd.clearHdmodTrigFlag
  | .hdSecondProc watched renamed => hd.hdSecondProc watched renamed

/-! ### What each handler can do -/

/-- The watch changes nothing of what is recorded. -/
theorem watchProc_cases (hd : HdEnc) (watched : Watched) (renamed : Bool) :
    ∃ watchcnt cutflag filelen aviinfo, hd.watchProc watched renamed =
        { hd with watchcnt := watchcnt, cutflag := cutflag, filelen := filelen,
                  aviinfo := aviinfo } ∧
      (aviinfo = none ∨ aviinfo = hd.aviinfo ∧ cutflag = hd.cutflag) := by
  unfold watchProc closeRecordFile
  cases watched with
  | absent => exact ⟨_, _, _, _, rfl, Or.inr ⟨rfl, rfl⟩⟩
  | detached => exact ⟨_, _, _, _, rfl, Or.inr ⟨rfl, rfl⟩⟩
  | attached =>
    simp only
    split
    · exact ⟨_, _, _, _, rfl, Or.inr ⟨rfl, rfl⟩⟩
    · split
      · split
        · exact ⟨_, _, _, _, rfl, Or.inr ⟨rfl, rfl⟩⟩
        · split
          · exact ⟨_, _, _, _, rfl, Or.inl rfl⟩
          · exact ⟨_, _, _, _, rfl, Or.inl rfl⟩
      · exact ⟨_, _, _, _, rfl, Or.inr ⟨rfl, rfl⟩⟩

theorem fileProc_cases (hd : HdEnc) :
    ∃ cutflag filelen, hd.fileProc = { hd with cutflag := cutflag, filelen := filelen } ∧
      (hd.cutflag = true → cutflag = true) := by
  unfold fileProc
  split
  · exact ⟨_, _, rfl, fun set => set⟩
  · refine ⟨_, _, rfl, fun set => ?_⟩
    split
    · rfl
    · exact set

/-! ### The mode of a channel -/

/-- The locked state is that of an alarm or a recording by hand, an alarm and a recording by hand
have time left, and a channel with time left is not idle. -/
structure Mode (hd : HdEnc) : Prop where
  locked : hd.state = .alarm ↔ hd.trig ≠ 0 ∨ hd.remoteTrigged = true
  triggered : hd.trig ≠ 0 → 0 < hd.recordlen
  manual : hd.remoteTrigged = true ↔ 0 < hd.remoteTrigTime
  busy : 0 < hd.recordlen ∨ 0 < hd.remoteTrigTime → hd.state ≠ .idle

/-- A recording by hand does not run out during motion without an alarm, and the length of an
alarm that nothing else keeps running is an `int`. -/
def Clean (hd : HdEnc) : Call → Prop
  | .trigRecordEvent trig reclen =>
    trig = 0 ∨ hd.enable = 0 ∨ 0 < hd.recordlen ∨ reclen + hd.dlyRec < 2 ^ 31
  | .hdSecondProc _ _ => ¬(hd.remoteTrigTime = 1 ∧ hd.trig = 0 ∧ 1 < hd.recordlen)
  | _ => True

instance (hd : HdEnc) (call : Call) : Decidable (hd.Clean call) := by
  cases call <;> unfold Clean <;> infer_instance

/-- The mode with what keeps it. -/
structure Sound (hd : HdEnc) : Prop extends Mode hd where
  recordlen_nonneg : 0 ≤ hd.recordlen
  dlyRec_pos : 1 ≤ hd.dlyRec

theorem restState_ne_alarm (hd : HdEnc) : hd.restState ≠ .alarm := by
  unfold restState
  split <;> decide

/-- What is read of a channel for its mode. -/
theorem Sound.of_same {hd other : HdEnc} (sound : hd.Sound) (state : other.state = hd.state)
    (trig : other.trig = hd.trig) (recordlen : other.recordlen = hd.recordlen)
    (remoteTrigged : other.remoteTrigged = hd.remoteTrigged)
    (remoteTrigTime : other.remoteTrigTime = hd.remoteTrigTime)
    (dlyRec : other.dlyRec = hd.dlyRec) :
    other.Sound where
  locked := by rw [state, trig, remoteTrigged]; exact sound.locked
  triggered := by rw [trig, recordlen]; exact sound.triggered
  manual := by rw [remoteTrigged, remoteTrigTime]; exact sound.manual
  busy := by rw [recordlen, remoteTrigTime, state]; exact sound.busy
  recordlen_nonneg := by rw [recordlen]; exact sound.recordlen_nonneg
  dlyRec_pos := by rw [dlyRec]; exact sound.dlyRec_pos

theorem initHdencCh_sound {para : Para} (delayed : 1 ≤ para.dlyRec) :
    (blank.initHdencCh para).Sound where
  locked := by
    unfold initHdencCh blank
    simp only
    split <;> simp
  triggered := fun set => absurd rfl set
  manual := by simp [initHdencCh]
  busy := by simp [initHdencCh]
  recordlen_nonneg := le_refl 0
  dlyRec_pos := delayed

theorem or_ne_zero {first second : BitVec 16} (nonzero : second ≠ 0) : first ||| second ≠ 0 := by
  intro zero
  exact nonzero (BitVec.or_eq_zero_iff.mp zero).2

theorem int32_of_small {value : Int} (nonneg : 0 ≤ value) (small : value < 2 ^ 31) :
    int32 value = value := by
  unfold int32
  rw [Int.bmod_eq_of_le] <;> omega

theorem Sound.trigRecordEvent {hd : HdEnc} (sound : hd.Sound) {trig : BitVec 16} {reclen : Nat}
    (clean : hd.Clean (.trigRecordEvent trig reclen)) :
    (hd.trigRecordEvent trig reclen).2.Sound := by
  have nonneg := sound.recordlen_nonneg
  have delayed := sound.dlyRec_pos
  unfold HdEnc.trigRecordEvent
  split
  · exact sound
  · split
    · exact sound
    · next enabled =>
      split
      · next motion =>
        -- Motion leaves the alarms as they are.
        refine ⟨⟨?_, ?_, sound.manual, ?_⟩, ?_, delayed⟩
        · simp only
          rw [← sound.locked]
          split
          · next idle => simp [idle]
          · rfl
        · intro set
          have before := sound.triggered set
          simp only
          split <;> omega
        · intro _
          simp only
          split
          · decide
          · assumption
        · simp only
          split <;> omega
      · next alarm =>
        have long : 0 < (if hd.recordlen < int32 (reclen + hd.dlyRec) then
            int32 (reclen + hd.dlyRec) else hd.recordlen) := by
          rcases clean with zero | disabled | running | small
          · exact absurd zero alarm
          · exact absurd disabled enabled
          · split <;> omega
          · rw [int32_of_small (by omega) small]
            split <;> omega
        refine ⟨⟨?_, fun _ => long, sound.manual, fun _ => ?_⟩, long.le, delayed⟩
        · simp only [true_iff]
          exact Or.inl (or_ne_zero alarm)
        · simp

theorem Sound.remoteStartRecord {hd : HdEnc} (sound : hd.Sound) (reclen : Nat) :
    (hd.remoteStartRecord reclen).Sound where
  locked := by simp [HdEnc.remoteStartRecord]
  triggered := sound.triggered
  manual := by
    simp only [HdEnc.remoteStartRecord, true_iff]
    split <;> omega
  busy := by simp [HdEnc.remoteStartRecord]
  recordlen_nonneg := sound.recordlen_nonneg
  dlyRec_pos := sound.dlyRec_pos

theorem Sound.remoteStopRecord {hd : HdEnc} (sound : hd.Sound) : hd.remoteStopRecord.Sound := by
  unfold HdEnc.remoteStopRecord
  by_cases quiet : hd.trig = 0
  · rw [if_pos quiet, if_pos quiet]
    refine ⟨⟨?_, ?_, ?_, ?_⟩, le_refl 0, sound.dlyRec_pos⟩
    · simp only [quiet]
      split <;> simp
    · exact fun set => absurd quiet set
    · simp
    · simp
  · rw [if_neg quiet, if_neg quiet]
    have alarm := sound.locked.mpr (Or.inl quiet)
    refine ⟨⟨?_, sound.triggered, ?_, ?_⟩, sound.recordlen_nonneg, sound.dlyRec_pos⟩
    · exact iff_of_true alarm (Or.inl quiet)
    · simp
    · simp [alarm]

/-- The alarm and the motion are over; a recording by hand goes on in the locked state. -/
theorem Sound.released {hd next : HdEnc} (sound : hd.Sound) (trig : next.trig = 0)
    (recordlen : next.recordlen = 0) (remoteTrigged : next.remoteTrigged = hd.remoteTrigged)
    (remoteTrigTime : next.remoteTrigTime = hd.remoteTrigTime) (dlyRec : next.dlyRec = hd.dlyRec)
    (state : (hd.remoteTrigged = false → next.state ≠ .alarm) ∧
      (hd.remoteTrigged = true → next.state = hd.state)) : next.Sound := by
  have locked : next.state = .alarm ↔ hd.remoteTrigged = true := by
    cases remote : hd.remoteTrigged with
    | false => exact iff_of_false (state.1 remote) Bool.false_ne_true
    | true => exact iff_of_true ((state.2 remote).trans (sound.locked.mpr (Or.inr remote))) rfl
  refine ⟨⟨?_, ?_, ?_, ?_⟩, ?_, ?_⟩
  · rw [locked, trig, remoteTrigged]
    simp
  · exact fun set => absurd trig set
  · rw [remoteTrigged, remoteTrigTime]
    exact sound.manual
  · rw [recordlen, remoteTrigTime]
    rintro (nothing | running)
    · exact absurd nothing (lt_irrefl 0)
    · rw [locked.mpr (sound.manual.mpr running)]
      exact RecState.noConfusion
  · exact recordlen.ge
  · rw [dlyRec]
    exact sound.dlyRec_pos

theorem Sound.clearHdmodTrigFlag {hd : HdEnc} (sound : hd.Sound) :
    hd.clearHdmodTrigFlag.Sound := by
  unfold HdEnc.clearHdmodTrigFlag
  split
  · next none =>
    exact sound.released rfl rfl rfl rfl rfl
      ⟨fun _ => hd.restState_ne_alarm, fun running => absurd none (by rw [running]; decide)⟩
  · next running =>
    exact sound.released rfl rfl rfl rfl rfl ⟨fun none => absurd none running, fun _ => rfl⟩

/-- The seconds of an alarm keep the mode. -/
theorem Sound.recordProc {hd : HdEnc} (sound : hd.Sound) : hd.recordProc.Sound := by
  unfold HdEnc.recordProc
  split
  · next left =>
    split
    · split
      · next none =>
        refine sound.released rfl rfl rfl rfl rfl
          ⟨fun _ => ?_, fun running => absurd none (by rw [running]; decide)⟩
        simp only
        split <;> decide
      · next running =>
        exact sound.released rfl rfl rfl rfl rfl ⟨fun none => absurd none running, fun _ => rfl⟩
    · refine ⟨⟨sound.locked, fun _ => ?_, sound.manual, fun _ => sound.busy (Or.inl left)⟩, ?_,
        sound.dlyRec_pos⟩ <;> simp only <;> omega
  · exact sound

/-- The seconds of both kinds keep the mode, unless a recording by hand runs out during motion. -/
theorem Sound.timers {hd : HdEnc} (sound : hd.Sound)
    (clean : ¬(hd.remoteTrigTime = 1 ∧ hd.trig = 0 ∧ 1 < hd.recordlen)) :
    hd.remoteProc.recordProc.Sound := by
  have nonneg := sound.recordlen_nonneg
  by_cases running : 0 < hd.remoteTrigTime
  · have remote := sound.manual.mpr running
    have alarm := sound.locked.mpr (Or.inr remote)
    by_cases last : hd.remoteTrigTime - 1 = 0
    · by_cases ended : hd.recordlen = 0
      · have quiet : hd.trig = 0 := by
          by_contra set
          have left := sound.triggered set
          omega
        rw [HdEnc.remoteProc, if_pos running, if_pos last, if_pos ended]
        refine Sound.recordProc ⟨⟨?_, sound.triggered, ?_, ?_⟩, nonneg, sound.dlyRec_pos⟩
        · simp [restState_ne_alarm, quiet]
        · simp
        · simp [ended]
      · rw [HdEnc.remoteProc, if_pos running, if_pos last, if_neg ended]
        by_cases quiet : hd.trig = 0
        · -- The motion runs out in the same second.
          have same : hd.recordlen = 1 := by
            have short : ¬1 < hd.recordlen := fun long => clean ⟨by omega, quiet, long⟩
            omega
          rw [HdEnc.recordProc, if_pos (by simp only; omega), if_pos (by simp only; omega),
            if_pos rfl]
          refine ⟨⟨?_, fun set => absurd rfl set, ?_, ?_⟩, le_refl 0, sound.dlyRec_pos⟩
          · simp only
            split <;> simp
          · simp
          · simp
        · refine Sound.recordProc ⟨⟨?_, sound.triggered, ?_, ?_⟩, nonneg, sound.dlyRec_pos⟩
          · exact iff_of_true alarm (Or.inl quiet)
          · simp
          · simp [alarm]
    · rw [HdEnc.remoteProc, if_pos running, if_neg last]
      refine Sound.recordProc ⟨⟨sound.locked, sound.triggered, ?_, ?_⟩, nonneg, sound.dlyRec_pos⟩
      · exact iff_of_true remote (by simp only; omega)
      · simp [alarm]
  · rw [HdEnc.remoteProc, if_neg running]
    exact sound.recordProc

theorem Sound.hdSecondProc {hd : HdEnc} (sound : hd.Sound) {watched : Watched} {renamed : Bool}
    (clean : hd.Clean (.hdSecondProc watched renamed)) :
    (hd.hdSecondProc watched renamed).Sound := by
  obtain ⟨watchcnt, cutflag, filelen, aviinfo, result, _⟩ := hd.watchProc_cases watched renamed
  unfold HdEnc.hdSecondProc
  rw [result]
  simp only
  split
  · exact sound.of_same rfl rfl rfl rfl rfl rfl
  · obtain ⟨cut, length, counted, _⟩ := fileProc_cases { hd with
      watchcnt := watchcnt, cutflag := cutflag, filelen := filelen, aviinfo := aviinfo }
    rw [counted]
    refine Sound.timers ?_ clean
    exact sound.of_same rfl rfl rfl rfl rfl rfl

theorem Sound.call {hd : HdEnc} (sound : hd.Sound) {call : Call} (clean : hd.Clean call) :
    (hd.call call).Sound := by
  cases call with
  | trigRecordEvent trig reclen => exact sound.trigRecordEvent clean
  | remoteStartRecord reclen => exact sound.remoteStartRecord reclen
  | remoteStopRecord => exact sound.remoteStopRecord
  | clearHdmodTrigFlag => exact sound.clearHdmodTrigFlag
  | hdSecondProc watched renamed => exact sound.hdSecondProc clean

/-- A channel is in the locked state exactly while an alarm or a recording by hand is running, in
every run in which no recording by hand ends during motion. -/
theorem recording_mode {para : Para} {calls : List Call} {hd : HdEnc} (delayed : 1 ≤ para.dlyRec)
    (run : Runs (fun before call after => before.call call = after ∧ before.Clean call)
      (blank.initHdencCh para) calls hd) : hd.Mode := by
  have sound : hd.Sound := by
    refine Runs.invariant (initHdencCh_sound delayed) ?_ run
    rintro before call after ⟨rfl, clean⟩ sound
    exact sound.call clean
  exact sound.toMode

theorem recording_mode_alarm :
    ∃ hd, Runs (fun before call after => before.call call = after ∧ before.Clean call)
        (blank.initHdencCh ⟨1, 600, 30, 60, 1⟩)
        [.trigRecordEvent 0 0, .trigRecordEvent 5 0, .remoteStartRecord 20,
          .hdSecondProc .attached true] hd ∧
      hd.trig = 5 ∧ hd.remoteTrigged = true ∧ hd.Mode := by
  obtain ⟨hd, run, tested⟩ := @Runs.of_any_guarded HdEnc Call
    (blank.initHdencCh ⟨1, 600, 30, 60, 1⟩) (fun before call => some (before.call call)) Clean _
    [.trigRecordEvent 0 0, .trigRecordEvent 5 0, .remoteStartRecord 20,
      .hdSecondProc .attached true]
    (fun hd => decide (hd.trig = 5 ∧ hd.remoteTrigged = true)) (by decide +kernel)
  have taken := run.weaken
    (fun before call after step => (⟨Option.some.inj step.1, step.2⟩ :
      before.call call = after ∧ before.Clean call))
  obtain ⟨trig, remote⟩ := of_decide_eq_true tested
  exact ⟨hd, taken, trig, remote, recording_mode (by decide) taken⟩

/-- A recording by hand of one second ends during motion, and the channel stays in the locked
state. -/
theorem locked_by_motion :
    ∃ hd, Runs (fun before call after => before.call call = after)
        (blank.initHdencCh ⟨1, 600, 30, 60, 1⟩)
        [.trigRecordEvent 0 0, .remoteStartRecord 1, .hdSecondProc .attached true] hd ∧
            ¬hd.Mode := by
  obtain ⟨hd, run, tested⟩ := @Runs.of_any HdEnc Call
    (blank.initHdencCh ⟨1, 600, 30, 60, 1⟩) (fun before call => some (before.call call))
    [.trigRecordEvent 0 0, .remoteStartRecord 1, .hdSecondProc .attached true]
    (fun hd => decide (hd.state = .alarm ∧ hd.trig = 0 ∧ hd.remoteTrigged = false))
    (by decide +kernel)
  obtain ⟨alarm, quiet, stopped⟩ := of_decide_eq_true tested
  refine ⟨hd, run.weaken (fun before call after step => Option.some.inj step), fun mode => ?_⟩
  rcases mode.locked.mp alarm with set | set
  · exact set quiet
  · rw [stopped] at set
    cases set

end HdEnc

end ExmOnvif.HdModule
