/-
This file settles when the alarm of the trigger inputs is told: the message to the gates,
the log entry and the recordings of an alarm.

The call compares whole words. It tells an alarm whenever the word has changed and is not
empty, so also when one input ends while another goes on, and when it clears a bit of the
motion detection. With several channels the length of the recording is never set.
-/

import ExmOnvif.Ipmain.Alarm

namespace ExmOnvif.Ipmain

/-- The message, the log entry and the recordings of an alarm, apart from the recordings of
triggers that are no alarm. -/
def Effect.isAlarm : Effect → Bool
  | .sendDevTrigState _ => true
  | .dumpAlarminfo _ _ => true
  | .trigRecordEvent _ trig _ => trig != 0
  | _ => false

theorem Effect.isAlarm_trigRecordEvent {trig : Dword} (alarm : trig ≠ 0) (channel : Int)
    (reclen : BitVec 16) : (Effect.trigRecordEvent channel trig reclen).isAlarm = true :=
  bne_iff_ne.mpr alarm

/-- The video channel of an input is one that can be recorded. -/
def Call.hasChannel (call : Call) (input : Nat) : Bool :=
  decide (0 ≤ call.para.alarmTriginVideoCh input ∧ call.para.alarmTriginVideoCh input ≤ 4)

/-- The inputs that become valid in a call after a run. -/
def risen (device : Device) (events : List Event) (call : Call) : List Nat :=
  (List.range device.triginNum).filter fun input =>
    call.valid device input && !lastValid device events input

/-- What a call after a run has to tell: nothing without a new alarm. -/
def dueReport (device : Device) (events : List Event) (call : Call) : List Effect :=
  let alarmstate := (call.processTriginEvent device (.after device events)).1.regTrigState
  if risen device events call = [] then []
  else [.sendDevTrigState alarmstate, .dumpAlarminfo alarmstate call.timep] ++
    if call.para.multiChannelEnable = 0 then [.trigRecordEvent 0 alarmstate 0]
    else ((risen device events call).filter call.hasChannel).map fun input =>
      .trigRecordEvent (call.para.alarmTriginVideoCh input) alarmstate 0

namespace Call

variable (device : Device) (call : Call) (state : AlarmState)

/-- The loop over the inputs tells no alarm. -/
theorem filter_scan (oldtrigstate : Dword) :
    (call.scan device oldtrigstate).2.filter Effect.isAlarm = [] := by
  rw [scan_effects, List.filter_eq_nil_iff]
  intro effect member
  obtain ⟨input, _, done⟩ := List.mem_flatMap.mp member
  unfold inputEffects immediates plainRecord at done
  split at done
  · split at done
    · cases done
    · obtain ⟨event, _, rfl⟩ := List.mem_map.mp done
      exact Bool.false_ne_true
  · split at done
    · split at done
      · cases List.mem_singleton.mp done
        exact Bool.false_ne_true
      · cases done
    · cases done

/-- The recordings of the loop with several channels. -/
theorem filter_multiEffects (oldtrigstate actualTrig alarmstate : Dword) (alarm : alarmstate ≠ 0)
    (inputs : List Nat) :
    (inputs.flatMap (call.multiEffects oldtrigstate actualTrig alarmstate)).filter Effect.isAlarm =
      (inputs.filter (call.playable oldtrigstate actualTrig)).map fun input =>
        .trigRecordEvent (call.para.alarmTriginVideoCh input) alarmstate call.reclen := by
  have kept := @Effect.isAlarm_trigRecordEvent alarmstate alarm
  induction inputs with
  | nil => rfl
  | cons input inputs inductionHypothesis =>
    rw [List.flatMap_cons, List.filter_append, inductionHypothesis]
    unfold multiEffects
    by_cases taken : call.playable oldtrigstate actualTrig input = true
    · rw [if_pos taken, List.filter_append, List.filter_cons_of_pos taken, List.map_cons]
      split
      · rw [List.filter_cons_of_neg Bool.false_ne_true, List.filter_cons_of_pos (kept _ _)]
        rfl
      · rw [List.filter_cons_of_pos (kept _ _)]
        rfl
    · rw [if_neg taken, List.filter_cons_of_neg taken]
      rfl

/-- What a report tells. -/
theorem filter_isAlarm_report (oldtrigstate actualTrig : Dword) (alarm : state.regTrigState ≠ 0) :
    (call.report device oldtrigstate actualTrig state).2.filter Effect.isAlarm =
      [.sendDevTrigState state.regTrigState, .dumpAlarminfo state.regTrigState call.timep] ++
        if call.para.multiChannelEnable = 0 then [.trigRecordEvent 0 state.regTrigState 0]
        else ((List.range device.triginNum).filter (call.playable oldtrigstate actualTrig)).map
          fun input => .trigRecordEvent (call.para.alarmTriginVideoCh input) state.regTrigState
            call.reclen := by
  have kept := @Effect.isAlarm_trigRecordEvent state.regTrigState alarm
  unfold report
  by_cases single : call.para.multiChannelEnable = 0
  · rw [if_pos single, if_pos single]
    dsimp only
    rw [List.append_assoc, List.filter_append, List.filter_append,
      List.filter_cons_of_pos (kept _ _)]
    split <;> rfl
  · rw [if_neg single, if_neg single, (call.foldl_playMulti _ _ _ _ _).2, List.filter_append,
      filter_multiEffects _ _ _ _ alarm]
    rfl

/-- What a call tells: the report, when the word has changed and is not empty. -/
theorem filter_isAlarm_processTriginEvent :
    (call.processTriginEvent device state).2.filter Effect.isAlarm =
      let actualTrig := (call.scan device state.regTrigState).1
      if actualTrig ≠ 0 ∧ state.regTrigState ≠ actualTrig then
        [.sendDevTrigState actualTrig, .dumpAlarminfo actualTrig call.timep] ++
          if call.para.multiChannelEnable = 0 then [.trigRecordEvent 0 actualTrig 0]
          else ((List.range device.triginNum).filter
            (call.playable state.regTrigState actualTrig)).map fun input =>
              .trigRecordEvent (call.para.alarmTriginVideoCh input) actualTrig call.reclen
      else [] := by
  rw [processTriginEvent_eq]
  dsimp only
  split
  case isTrue changed =>
    rw [List.filter_append, filter_scan, List.nil_append,
      filter_isAlarm_report _ _ _ _ _ changed.1]
  case isFalse => exact call.filter_scan device _

end Call

section Edges

variable (device : Device) (events : List Event) (call : Call)

theorem mem_risen {input : Nat} :
    input ∈ risen device events call ↔
      input < device.triginNum ∧ call.valid device input = true ∧
        lastValid device events input = false := by
  simp [risen]

/-- The inputs taken up by the report are the new ones with a channel. -/
theorem filter_playable :
    (List.range device.triginNum).filter
    (call.playable (AlarmState.after device events).regTrigState
        (call.scan device (AlarmState.after device events).regTrigState).1) =
      (risen device events call).filter call.hasChannel := by
  unfold risen
  rw [List.filter_filter]
  refine List.filter_congr fun input member => ?_
  have small := List.mem_range.mp member
  unfold Call.playable Call.hasChannel
  rw [Call.scan_trigBit _ _ _ small, AlarmState.after_trigBit _ _ small, Bool.and_comm]

/-- A new alarm changes the word and does not leave it empty. -/
theorem changed_of_risen (new : risen device events call ≠ []) :
    (call.scan device (AlarmState.after device events).regTrigState).1 ≠ 0 ∧
      (AlarmState.after device events).regTrigState ≠
        (call.scan device (AlarmState.after device events).regTrigState).1 := by
  obtain ⟨input, member⟩ := List.exists_mem_of_ne_nil _ new
  obtain ⟨small, held, before⟩ := (mem_risen device events call).mp member
  have set := call.scan_trigBit device (AlarmState.after device events).regTrigState small
  rw [held] at set
  refine ⟨fun empty => ?_, fun same => ?_⟩
  · rw [empty] at set
    simp at set
  · rw [← AlarmState.after_trigBit device events small, same, set] at before
    cases before

/-- Without a valid input the loop collects nothing. -/
theorem scan_eq_zero_iff (oldtrigstate : Dword) :
    (call.scan device oldtrigstate).1 = 0 ↔
      ∀ input < device.triginNum, call.valid device input = false := by
  constructor
  · intro empty input small
    rw [← call.scan_trigBit device oldtrigstate small, empty]
    simp
  · intro invalid
    refine BitVec.eq_of_getLsbD_eq fun bit _ => ?_
    rw [Bool.eq_iff_iff, Call.scan_getLsbD]
    constructor
    · rintro ⟨input, small, _, held⟩
      rw [invalid input small] at held
      cases held
    · intro set
      simp at set

/-- Without a new alarm the word stays when each of its bits is that of a valid input. -/
theorem eq_scan_iff (old : risen device events call = []) :
    (AlarmState.after device events).regTrigState =
        (call.scan device (AlarmState.after device events).regTrigState).1 ↔
      ∀ bit, (AlarmState.after device events).regTrigState.getLsbD bit = true →
        ∃ input < device.triginNum, trigBit input = bit ∧ call.valid device input = true := by
  constructor
  · intro same bit set
    rwa [same, Call.scan_getLsbD] at set
  · intro within
    refine BitVec.eq_of_getLsbD_eq fun bit _ => ?_
    rw [Bool.eq_iff_iff, Call.scan_getLsbD]
    refine ⟨within bit, ?_⟩
    rintro ⟨input, small, rfl, held⟩
    rw [AlarmState.after_trigBit device events small]
    by_contra fresh
    have member : input ∈ risen device events call :=
      (mem_risen device events call).mpr ⟨small, held, Bool.eq_false_iff.mpr fresh⟩
    rw [old] at member
    cases member

/-- The recordings carry the length zero when it is zero, or when there are none. -/
theorem records_eq_iff (alarmstate : Dword) :
    ((risen device events call).filter call.hasChannel).map (fun input =>
          Effect.trigRecordEvent (call.para.alarmTriginVideoCh input) alarmstate call.reclen) =
        ((risen device events call).filter call.hasChannel).map (fun input =>
          Effect.trigRecordEvent (call.para.alarmTriginVideoCh input) alarmstate 0) ↔
      call.reclen = 0 ∨ ∀ input < device.triginNum, call.valid device input = true →
        lastValid device events input = false → call.hasChannel input = false := by
  rw [List.map_inj_left]
  constructor
  · intro same
    refine or_iff_not_imp_left.mpr fun stale input small held fresh => ?_
    by_contra channel
    have member : input ∈ risen device events call :=
      (mem_risen device events call).mpr ⟨small, held, fresh⟩
    have equal := same input (List.mem_filter.mpr ⟨member, Bool.not_eq_false _ ▸ channel⟩)
    exact stale (Effect.trigRecordEvent.inj equal).2.2
  · rintro (zero | without) input member
    · rw [zero]
    · obtain ⟨new, channel⟩ := List.mem_filter.mp member
      obtain ⟨small, held, fresh⟩ := (mem_risen device events call).mp new
      rw [without input small held fresh] at channel
      cases channel

end Edges

/-- What a call tells is what is due exactly when it finds a new alarm, or no alarm, or a word
in which nothing has to be cleared; and when, with several channels, the length of the recordings
happens to be zero if there are any. -/
theorem alarm_told_iff (device : Device) (events : List Event) (call : Call) :
    (call.processTriginEvent device (.after device events)).2.filter Effect.isAlarm =
        dueReport device events call ↔
      ((∃ input < device.triginNum, call.valid device input = true ∧
            lastValid device events input = false) ∨
          (∀ input < device.triginNum, call.valid device input = false) ∨
          ∀ bit, (AlarmState.after device events).regTrigState.getLsbD bit = true →
            ∃ input < device.triginNum, trigBit input = bit ∧ call.valid device input = true) ∧
        (call.para.multiChannelEnable = 0 ∨ call.reclen = 0 ∨
          ∀ input < device.triginNum, call.valid device input = true →
            lastValid device events input = false → call.hasChannel input = false) := by
  rw [Call.filter_isAlarm_processTriginEvent]
  unfold dueReport
  rw [Call.processTriginEvent_regTrigState]
  dsimp only
  by_cases new : risen device events call = []
  · -- Nothing is due: the word must stay, or be empty.
    have none : ∀ input < device.triginNum, call.valid device input = true →
        lastValid device events input ≠ false := by
      intro input small held fresh
      have member : input ∈ risen device events call :=
        (mem_risen device events call).mpr ⟨small, held, fresh⟩
      rw [new] at member
      cases member
    have still : ¬ ∃ input < device.triginNum, call.valid device input = true ∧
        lastValid device events input = false := by
      rintro ⟨input, small, held, fresh⟩
      exact none input small held fresh
    have unrecorded : call.para.multiChannelEnable = 0 ∨ call.reclen = 0 ∨
        ∀ input < device.triginNum, call.valid device input = true →
          lastValid device events input = false → call.hasChannel input = false :=
      Or.inr (Or.inr fun input small held fresh => absurd fresh (none input small held))
    rw [if_pos new, ← scan_eq_zero_iff device call (AlarmState.after device events).regTrigState,
      ← eq_scan_iff device events call new, or_iff_right still, and_iff_left unrecorded]
    split
    case isTrue changed => simpa using changed
    case isFalse unchanged => simpa [or_iff_not_imp_left] using unchanged
  · -- The report is made: only the length of the recordings can be wrong.
    obtain ⟨input, member⟩ := List.exists_mem_of_ne_nil _ new
    have first : ∃ input < device.triginNum, call.valid device input = true ∧
        lastValid device events input = false :=
      ⟨input, (mem_risen device events call).mp member⟩
    rw [if_neg new, if_pos (changed_of_risen device events call new), List.append_cancel_left_eq,
      filter_playable]
    simp only [first, true_or, true_and]
    by_cases single : call.para.multiChannelEnable = 0
    · simp only [single, if_true, true_or]
    · rw [if_neg single, if_neg single, records_eq_iff]
      simp only [single, false_or]

/-- An input that is armed all day and takes no action. -/
def armedTrigin : AlarmTrigin :=
  ⟨1, fun _ => 0, fun _ => 0, fun _ => 0, ⟨0, 0, 0, 0⟩⟩

/-- A call with one channel and every input armed all day. -/
def armedCall (trig oldtrig : Dword) : Call where
  trig := trig
  oldtrig := oldtrig
  timep := 0
  para := ⟨fun _ => armedTrigin, fun _ => armedTrigin, fun _ => ⟨0, 0, 0, 0⟩, fun _ => 0, 0, 0⟩
  clock := fun _ => some 0
  aplay := fun _ _ => false
  reclen := 0

/-- Two inputs are triggered; when one of them ends, an alarm is told again. -/
theorem ended_input_told :
    ¬ ∀ device events call,
      (Call.processTriginEvent device call (.after device events)).2.filter Effect.isAlarm =
        dueReport device events call := by
  intro told
  have := told ⟨2, 1, 0, by decide⟩ [.call (armedCall 3 0)] (armedCall 1 3)
  revert this
  decide

end ExmOnvif.Ipmain
