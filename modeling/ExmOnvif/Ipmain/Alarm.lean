/-
This file models the alarms of the trigger inputs: what makes an input valid, the actions
that are taken at once, the word in which the valid inputs are kept, and the report, the
log entry, the recordings and the playback that follow.

The word keeps input `i` at bit `i` below ten and at bit `i + 16` from ten on; the bits
from ten on belong to the motion detection, which shares the word. The word is written
whole, so a call also clears what the motion detection has left there.
-/

import Mathlib.Data.List.Induction
import Mathlib.Logic.Function.Basic

namespace ExmOnvif.Ipmain

/-! ### The settings -/

/-- A `DWORD`. -/
abbrev Dword := BitVec 32

/-- `MAX_TRIG_EVENT`. -/
def maxTrigEvent : Nat := 10

/-- The hours in which an input gives an alarm. -/
structure Interval where
  starthour : Int
  startmin : Int
  endhour : Int
  endmin : Int
deriving DecidableEq, Repr

/-- `alarm_trigin_struct`. -/
structure AlarmTrigin where
  setalarm : Int
  imact : Fin maxTrigEvent → Int
  ackact : Fin maxTrigEvent → Int
  rstact : Fin maxTrigEvent → Int
  interval : Interval

/-- The parameters of the main process that the alarms depend on. -/
structure Para where
  trigin : Nat → AlarmTrigin
  motion : Nat → AlarmTrigin
  /-- The hours of `vadc.quad.motion`. -/
  quadMotion : Nat → Interval
  alarmTriginVideoCh : Nat → Int
  playbackEnable : Int
  multiChannelEnable : Int

/-- The device. None in the tables of the devices has more than sixteen inputs. -/
structure Device where
  /-- `get_trigin_num`. -/
  triginNum : Nat
  /-- `get_video_num`. -/
  videoNum : Nat
  /-- `get_quad_flag`. -/
  quadFlag : Int
  fits : triginNum ≤ 16

/-- What a call of `process_trigin_event` is given and finds. -/
structure Call where
  trig : Dword
  oldtrig : Dword
  timep : Int
  para : Para
  /-- The minute of the day when the hours of an input are asked for, if it can be told. -/
  clock : Nat → Option Int
  /-- Whether a sound is being played when an event of an input is acted on. -/
  aplay : Nat → Fin maxTrigEvent → Bool
  /-- What the local `reclen` holds before it is written. -/
  reclen : BitVec 16

/-- The comparison of the minutes in `is_alarm_interval`. -/
def Interval.answer (interval : Interval) : Option Int → Int
  | none => 0
  | some timenow =>
    let timestart := interval.starthour * 60 + interval.startmin
    let timestop := interval.endhour * 60 + interval.endmin
    if timestart < timestop then
      if timestart ≤ timenow ∧ timenow ≤ timestop then 1 else 0
    else if timestop < timestart then
      if 0 ≤ timenow ∧ timenow ≤ 1440 ∧ (timenow ≤ timestop ∨ timestart ≤ timenow) then 1 else 0
    else 1

/-- `is_alarm_interval`; type 1 stands for a trigger input, type 2 for motion. -/
def isAlarmInterval (device : Device) (para : Para) (clock : Option Int) (type number : Nat) :
    Int :=
  if type = 1 then
    if device.triginNum ≤ number then 0 else (para.trigin number).interval.answer clock
  else if type = 2 then
    if device.videoNum ≤ number then 0 else (para.quadMotion number).answer clock
  else -22

/-! ### The actions -/

/-- What an action does to the rest of the system. -/
inductive Act where
  /-- `set_net_scr_full`. -/
  | netScrFull (channel : Int)
  /-- `set_net_scr_quad`. -/
  | netScrQuad
  /-- `set_relay_output`. -/
  | relayOutput (out value : Int)
  /-- `MAIN_REQUEST_APLAY`, sent to the image process and to the encoder. -/
  | requestAplay (channel : Int)
deriving DecidableEq, Repr

/-- `get_alarm_event`. -/
def getAlarmEvent (device : Device) (para : Para) (ch type : Nat) (event : Fin maxTrigEvent) :
    Int :=
  if device.triginNum + device.videoNum ≤ ch ∨ 2 < type then 0
  else
    let trigin :=
      if ch < device.triginNum then para.trigin ch else para.motion (ch - device.triginNum)
    match type with
    | 0 => trigin.imact event
    | 1 => trigin.ackact event
    | _ => trigin.rstact event

/-- `take_alarm_action`. An event without a meaning is only logged. -/
def takeAlarmAction (device : Device) (para : Para) (aplay : Bool) (alarmChn : Nat)
    (event : Int) : List Act :=
  if 29 < event ∧ event < 34 ∧ device.quadFlag = 1 then [.netScrFull (event - 30)]
  else if event = 34 ∧ device.quadFlag = 1 then [.netScrQuad]
  else if event = 0 then []
  else if 0 < event ∧ event < 9 then [.relayOutput ((event - 1) / 2) (event % 2)]
  else if event = 40 then
    if aplay then [] else [.requestAplay (para.alarmTriginVideoCh alarmChn)]
  else if 50 < event ∧ event ≤ 58 then
    [.relayOutput ((event - 51) / 2) (event % 2), .relayOutput ((event - 51) / 2) (1 - event % 2),
      .relayOutput ((event - 51) / 2) (event % 2)]
  else []

/-- What a call does. -/
inductive Effect where
  /-- The call of `take_alarm_action` for an input. -/
  | immediate (input : Nat) (event : Int) (acts : List Act)
  /-- `send_dev_trig_state` to all gates. -/
  | sendDevTrigState (alarmstate : Dword)
  /-- `dump_alarminfo_to_log`. -/
  | dumpAlarminfo (alarmstate : Dword) (timep : Int)
  /-- `trig_record_event`. -/
  | trigRecordEvent (channel : Int) (trig : Dword) (reclen : BitVec 16)
  /-- `alarm_playback`. -/
  | alarmPlayback (channel : Int)
deriving DecidableEq, Repr

/-! ### A call -/

/-- What is kept from call to call. -/
structure AlarmState where
  regTrigState : Dword
  /-- `pb_Tag.pb`. -/
  pb : Nat → Int
  alarmPlaybackCh : Int

/-- The bit of an input in the word. -/
def trigBit (input : Nat) : Nat := if input < 10 then input else input + 16

namespace Call

variable (device : Device) (call : Call)

/-- The channel on which a trigger that is no alarm is recorded. -/
def plainChannel (input : Nat) : Int :=
  if call.para.multiChannelEnable = 0 then 0 else call.para.alarmTriginVideoCh input

/-- The recording of a trigger that is no alarm, when the trigger is new. -/
def plainRecord (input : Nat) : List Effect :=
  if call.oldtrig.getLsbD input = false then [.trigRecordEvent (call.plainChannel input) 0 0]
  else []

/-- The immediate actions of an input. -/
def immediates (input : Nat) : List Effect :=
  (List.finRange maxTrigEvent).map fun event =>
    let code := getAlarmEvent device call.para input 0 event
    .immediate input code (takeAlarmAction device call.para (call.aplay input event) input code)

/-- The body of the loop over the inputs, on `actual_trig` and what is done. -/
def visit (oldtrigstate : Dword) (scan : Dword × List Effect) (input : Nat) :
    Dword × List Effect :=
  if call.trig.getLsbD input = false then scan
  else if (call.para.trigin input).setalarm ≠ 1 then (scan.1, scan.2 ++ call.plainRecord input)
  else if isAlarmInterval device call.para (call.clock input) 1 input ≠ 1 then
    (scan.1, scan.2 ++ call.plainRecord input)
  else
    let actualTrig := scan.1 ||| 1#32 <<< trigBit input
    if oldtrigstate.getLsbD (trigBit input) = true then (actualTrig, scan.2)
    else (actualTrig, scan.2 ++ call.immediates device input)

/-- The loop over the inputs. -/
def scan (oldtrigstate : Dword) : Dword × List Effect :=
  (List.range device.triginNum).foldl (call.visit device oldtrigstate) (0, [])

/-- The inputs that the loops of the report take up: those new in the word, with a channel that
can be played back. -/
def playable (oldtrigstate actualTrig : Dword) (input : Nat) : Bool :=
  actualTrig.getLsbD (trigBit input) && !oldtrigstate.getLsbD (trigBit input) &&
    decide (0 ≤ call.para.alarmTriginVideoCh input ∧ call.para.alarmTriginVideoCh input ≤ 4)

/-- The body of the loop of the report with one channel, on the state and the count. -/
def playSingle (oldtrigstate actualTrig : Dword) (found : AlarmState × Nat) (input : Nat) :
    AlarmState × Nat :=
  if call.playable oldtrigstate actualTrig input then
    let videoCh := call.para.alarmTriginVideoCh input
    let current := found.1.alarmPlaybackCh
    ({ found.1 with
        pb := Function.update found.1.pb input 1
        alarmPlaybackCh :=
          if current ≠ -1 ∧ videoCh ≠ current then 4
          else if videoCh ≠ current then videoCh
          else current }, found.2 + 1)
  else found

/-- The body of the loop of the report with several channels. -/
def playMulti (oldtrigstate actualTrig alarmstate : Dword) (done : AlarmState × List Effect)
    (input : Nat) : AlarmState × List Effect :=
  if call.playable oldtrigstate actualTrig input then
    let videoCh := call.para.alarmTriginVideoCh input
    let playback := if call.para.playbackEnable ≠ 0 then [.alarmPlayback videoCh] else []
    ({ done.1 with pb := Function.update done.1.pb input 1 },
      done.2 ++ playback ++ [.trigRecordEvent videoCh alarmstate call.reclen])
  else done

/-- The report of a change of the word, with its log entry, recordings and playback. -/
def report (oldtrigstate actualTrig : Dword) (state : AlarmState) : AlarmState × List Effect :=
  let alarmstate := state.regTrigState
  let told := [.sendDevTrigState alarmstate, .dumpAlarminfo alarmstate call.timep]
  if call.para.multiChannelEnable = 0 then
    let found := (List.range device.triginNum).foldl (call.playSingle oldtrigstate actualTrig)
      (state, 0)
    let playback := if 0 < found.2 ∧ call.para.playbackEnable ≠ 0 then
      [.alarmPlayback found.1.alarmPlaybackCh] else []
    (found.1, told ++ [.trigRecordEvent 0 alarmstate 0] ++ playback)
  else
    (List.range device.triginNum).foldl (call.playMulti oldtrigstate actualTrig alarmstate)
      (state, told)

/-- `process_trigin_event`. -/
def processTriginEvent (state : AlarmState) : AlarmState × List Effect :=
  let oldtrigstate := state.regTrigState
  let scanned := call.scan device oldtrigstate
  let actualDiff := oldtrigstate ^^^ scanned.1
  let state := if actualDiff ≠ 0 then { state with regTrigState := scanned.1 } else state
  if scanned.1 ≠ 0 ∧ actualDiff ≠ 0 then
    let reported := call.report device oldtrigstate scanned.1 state
    (reported.1, scanned.2 ++ reported.2)
  else (state, scanned.2)

end Call

/-! ### A run -/

/-- What happens to the word: a call, or a write of `video_motion_detected`. -/
inductive Event where
  | call (call : Call)
  | motion (channel : Fin 4) (alarmbit : Bool)

namespace AlarmState

/-- The state after `init_devstat`. -/
def start : AlarmState := ⟨0, fun _ => 0, -1⟩

/-- The write of a bit of the motion detection. -/
def setMotion (channel : Fin 4) (alarmbit : Bool) (state : AlarmState) : AlarmState :=
  { state with
    regTrigState :=
      if alarmbit then state.regTrigState ||| 1#32 <<< (10 + channel.val)
      else state.regTrigState &&& ~~~(1#32 <<< (10 + channel.val)) }

def step (device : Device) (state : AlarmState) : Event → AlarmState
  | .call call => (call.processTriginEvent device state).1
  | .motion channel alarmbit => state.setMotion channel alarmbit

/-- The state after a run from the start. -/
def after (device : Device) (events : List Event) : AlarmState := events.foldl (step device) start

end AlarmState

/-! ### The loop over the inputs -/

theorem trigBit_lt {input : Nat} (fits : input < 16) : trigBit input < 32 := by
  unfold trigBit
  split <;> omega

theorem trigBit_injective {first second : Nat} (same : trigBit first = trigBit second) :
    first = second := by
  unfold trigBit at same
  split at same <;> split at same <;> omega

/-- The bits of the motion detection are those of no input. -/
theorem trigBit_ne_motion (input : Nat) (channel : Fin 4) : trigBit input ≠ 10 + channel.val := by
  have := channel.isLt
  unfold trigBit
  split <;> omega

/-- A single bit of a word. -/
theorem getLsbD_one_shiftLeft (position bit : Nat) (fits : position < 32) :
    (1#32 <<< position).getLsbD bit = decide (position = bit) := by
  rw [BitVec.getLsbD_shiftLeft, BitVec.getLsbD_one]
  by_cases same : position = bit
  · subst same
    simp [fits]
  · have : ¬ (¬ bit < position ∧ bit - position = 0) := by omega
    rw [decide_eq_false same]
    simp only [Bool.and_eq_false_iff, Bool.not_eq_false', decide_eq_true_eq,
      decide_eq_false_iff_not]
    omega

namespace Call

variable (device : Device) (call : Call) (state : AlarmState)

/-- The input is triggered, armed and inside its hours. -/
def valid (input : Nat) : Bool :=
  call.trig.getLsbD input && decide ((call.para.trigin input).setalarm = 1) &&
    decide (isAlarmInterval device call.para (call.clock input) 1 input = 1)

/-- What the loop does for an input. -/
def inputEffects (oldtrigstate : Dword) (input : Nat) : List Effect :=
  if call.valid device input then
    if oldtrigstate.getLsbD (trigBit input) then [] else call.immediates device input
  else if call.trig.getLsbD input then call.plainRecord input
  else []

theorem visit_eq (oldtrigstate : Dword) (scan : Dword × List Effect) (input : Nat) :
    call.visit device oldtrigstate scan input =
      (scan.1 ||| (if call.valid device input then 1#32 <<< trigBit input else 0),
        scan.2 ++ call.inputEffects device oldtrigstate input) := by
  unfold visit inputEffects valid
  by_cases triggered : call.trig.getLsbD input = true
  · by_cases armed : (call.para.trigin input).setalarm = 1
    · by_cases inside : isAlarmInterval device call.para (call.clock input) 1 input = 1
      · by_cases before : oldtrigstate.getLsbD (trigBit input) = true
        · simp [triggered, armed, inside, before]
        · simp [triggered, armed, inside, before]
      · simp [triggered, armed, inside]
    · simp [triggered, armed]
  · simp [triggered]

/-- The two accumulators of the loop, apart. -/
theorem foldl_visit (oldtrigstate : Dword) (inputs : List Nat) (scan : Dword × List Effect) :
    (inputs.foldl (call.visit device oldtrigstate) scan).2 =
        scan.2 ++ inputs.flatMap (call.inputEffects device oldtrigstate) ∧
      ∀ bit, (inputs.foldl (call.visit device oldtrigstate) scan).1.getLsbD bit =
        (scan.1.getLsbD bit || inputs.any fun input => call.valid device input &&
          (1#32 <<< trigBit input).getLsbD bit) := by
  induction inputs generalizing scan with
  | nil => simp
  | cons input inputs inductionHypothesis =>
    obtain ⟨effects, bits⟩ := inductionHypothesis (call.visit device oldtrigstate scan input)
    rw [List.foldl_cons]
    refine ⟨?_, fun bit => ?_⟩
    · rw [effects, visit_eq, List.flatMap_cons, List.append_assoc]
    · rw [bits, visit_eq, BitVec.getLsbD_or, List.any_cons, Bool.or_assoc]
      by_cases held : call.valid device input = true
      · simp [held]
      · simp [held]

theorem scan_effects (oldtrigstate : Dword) :
    (call.scan device oldtrigstate).2 =
      (List.range device.triginNum).flatMap (call.inputEffects device oldtrigstate) := by
  unfold scan
  rw [(call.foldl_visit device oldtrigstate _ _).1, List.nil_append]

/-- The word that the loop collects has the bits of the valid inputs. -/
theorem scan_getLsbD (oldtrigstate : Dword) (bit : Nat) :
    (call.scan device oldtrigstate).1.getLsbD bit = true ↔
      ∃ input < device.triginNum, trigBit input = bit ∧ call.valid device input = true := by
  have fits := device.fits
  unfold scan
  rw [(call.foldl_visit device oldtrigstate _ _).2, Bool.or_eq_true, List.any_eq_true]
  constructor
  · rintro (nothing | ⟨input, member, held⟩)
    · simp at nothing
    · have small := List.mem_range.mp member
      rw [getLsbD_one_shiftLeft _ _ (trigBit_lt (by omega)), Bool.and_eq_true,
        decide_eq_true_eq] at held
      exact ⟨input, small, held.2, held.1⟩
  · rintro ⟨input, small, same, held⟩
    refine Or.inr ⟨input, List.mem_range.mpr small, ?_⟩
    rw [getLsbD_one_shiftLeft _ _ (trigBit_lt (by omega)), held, decide_eq_true same]
    rfl

/-- The bit of an input in the word that the loop collects. -/
theorem scan_trigBit (oldtrigstate : Dword) {input : Nat} (small : input < device.triginNum) :
    (call.scan device oldtrigstate).1.getLsbD (trigBit input) = call.valid device input := by
  rw [Bool.eq_iff_iff, scan_getLsbD]
  constructor
  · rintro ⟨other, _, same, held⟩
    rwa [← trigBit_injective same]
  · exact fun held => ⟨input, small, rfl, held⟩

/-! ### The word after a call -/

theorem playSingle_regTrigState (oldtrigstate actualTrig : Dword) (inputs : List Nat)
    (found : AlarmState × Nat) :
    (inputs.foldl (call.playSingle oldtrigstate actualTrig) found).1.regTrigState =
      found.1.regTrigState := by
  induction inputs generalizing found with
  | nil => rfl
  | cons input inputs inductionHypothesis =>
    rw [List.foldl_cons, inductionHypothesis]
    unfold playSingle
    split <;> rfl

/-- What the loop with several channels does for an input. -/
def multiEffects (oldtrigstate actualTrig alarmstate : Dword) (input : Nat) : List Effect :=
  if call.playable oldtrigstate actualTrig input then
    (if call.para.playbackEnable ≠ 0 then [.alarmPlayback (call.para.alarmTriginVideoCh input)]
      else []) ++ [.trigRecordEvent (call.para.alarmTriginVideoCh input) alarmstate call.reclen]
  else []

theorem foldl_playMulti (oldtrigstate actualTrig alarmstate : Dword) (inputs : List Nat)
    (done : AlarmState × List Effect) :
    (inputs.foldl (call.playMulti oldtrigstate actualTrig alarmstate) done).1.regTrigState =
        done.1.regTrigState ∧
      (inputs.foldl (call.playMulti oldtrigstate actualTrig alarmstate) done).2 =
        done.2 ++ inputs.flatMap (call.multiEffects oldtrigstate actualTrig alarmstate) := by
  induction inputs generalizing done with
  | nil => simp
  | cons input inputs inductionHypothesis =>
    obtain ⟨word, effects⟩ :=
      inductionHypothesis (call.playMulti oldtrigstate actualTrig alarmstate done input)
    rw [List.foldl_cons, word, effects, List.flatMap_cons]
    unfold playMulti multiEffects
    by_cases taken : call.playable oldtrigstate actualTrig input = true
    · simp [taken]
    · simp [taken]

theorem report_regTrigState (oldtrigstate actualTrig : Dword) :
    (call.report device oldtrigstate actualTrig state).1.regTrigState = state.regTrigState := by
  unfold report
  by_cases single : call.para.multiChannelEnable = 0
  · rw [if_pos single]
    exact call.playSingle_regTrigState _ _ _ _
  · rw [if_neg single]
    exact (call.foldl_playMulti _ _ _ _ _).1

/-- The word is the same whether a word that differs in nothing is written or not. -/
theorem processTriginEvent_eq :
    call.processTriginEvent device state =
      let scanned := call.scan device state.regTrigState
      let written := { state with regTrigState := scanned.1 }
      if scanned.1 ≠ 0 ∧ state.regTrigState ≠ scanned.1 then
        let reported := call.report device state.regTrigState scanned.1 written
        (reported.1, scanned.2 ++ reported.2)
      else (written, scanned.2) := by
  unfold processTriginEvent
  have differs : state.regTrigState ^^^ (call.scan device state.regTrigState).1 ≠ 0 ↔
      state.regTrigState ≠ (call.scan device state.regTrigState).1 :=
    not_congr BitVec.xor_eq_zero_iff
  simp only [differs]
  by_cases same : state.regTrigState = (call.scan device state.regTrigState).1
  · simp only [← same, ne_eq, not_true_eq_false, and_false, if_false]
  · simp only [ne_eq, same, not_false_eq_true, if_true]

/-- After a call the word is the one the loop has collected. -/
theorem processTriginEvent_regTrigState :
    (call.processTriginEvent device state).1.regTrigState =
      (call.scan device state.regTrigState).1 := by
  rw [processTriginEvent_eq]
  dsimp only
  split
  · rw [report_regTrigState]
  · rfl

end Call

/-! ### The edges -/

/-- Whether an input was valid in the last call of a run. -/
def lastValid (device : Device) (events : List Event) : Nat → Bool :=
  events.foldl (fun before event => match event with
    | .call call => call.valid device
    | .motion _ _ => before) fun _ => false

theorem AlarmState.setMotion_trigBit (channel : Fin 4) (alarmbit : Bool) (state : AlarmState)
    (input : Nat) :
    (state.setMotion channel alarmbit).regTrigState.getLsbD (trigBit input) =
      state.regTrigState.getLsbD (trigBit input) := by
  have apart : decide (10 + channel.val = trigBit input) = false :=
    decide_eq_false (trigBit_ne_motion input channel).symm
  have small : 10 + channel.val < 32 := by omega
  unfold setMotion
  cases alarmbit with
  | true =>
    simp only [if_true, BitVec.getLsbD_or, getLsbD_one_shiftLeft _ _ small, apart, Bool.or_false]
  | false =>
    simp only [Bool.false_eq_true, if_false, BitVec.getLsbD_and, BitVec.getLsbD_not,
      getLsbD_one_shiftLeft _ _ small, apart, Bool.not_false, Bool.and_true]
    cases held : state.regTrigState.getLsbD (trigBit input) with
    | false => rfl
    | true => simpa using BitVec.lt_of_getLsbD held

/-- The word keeps which inputs were valid in the last call. -/
theorem AlarmState.after_trigBit (device : Device) (events : List Event) {input : Nat}
    (small : input < device.triginNum) :
    (after device events).regTrigState.getLsbD (trigBit input) = lastValid device events input := by
  induction events using List.reverseRecOn with
  | nil => simp [after, start, lastValid]
  | append_singleton events event inductionHypothesis =>
    unfold after lastValid at inductionHypothesis ⊢
    rw [List.foldl_append, List.foldl_append, List.foldl_cons, List.foldl_nil, List.foldl_cons,
      List.foldl_nil]
    cases event with
    | call call =>
      show (call.processTriginEvent device _).1.regTrigState.getLsbD _ = _
      rw [Call.processTriginEvent_regTrigState, Call.scan_trigBit _ _ _ small]
    | motion channel alarmbit =>
      show (setMotion channel alarmbit _).regTrigState.getLsbD _ = _
      rw [setMotion_trigBit, inductionHypothesis]

/-- The immediate actions of an input. -/
def Effect.immediateOf (input : Nat) : Effect → Bool
  | .immediate other _ _ => other == input
  | _ => false

namespace Call

variable (device : Device) (call : Call) (state : AlarmState)

theorem filter_immediates (input other : Nat) :
    (call.immediates device other).filter (Effect.immediateOf input) =
      if other = input then call.immediates device other else [] := by
  unfold immediates
  rw [List.filter_map]
  by_cases same : other = input
  · rw [if_pos same, List.filter_eq_self.mpr]
    intro event _
    simpa [Effect.immediateOf] using same
  · rw [if_neg same, List.filter_eq_nil_iff.mpr, List.map_nil]
    intro event _
    simpa [Effect.immediateOf] using same

theorem filter_inputEffects (oldtrigstate : Dword) (input other : Nat) :
    (call.inputEffects device oldtrigstate other).filter (Effect.immediateOf input) =
      if other = input ∧ call.valid device input = true ∧
          oldtrigstate.getLsbD (trigBit input) = false
      then call.immediates device input else [] := by
  unfold inputEffects plainRecord
  by_cases held : call.valid device other = true
  · by_cases before : oldtrigstate.getLsbD (trigBit other) = true
    · have : ¬ (other = input ∧ call.valid device input = true ∧
          oldtrigstate.getLsbD (trigBit input) = false) := by
        rintro ⟨rfl, _, clear⟩
        rw [before] at clear
        cases clear
      rw [if_neg this, if_pos held, if_pos before, List.filter_nil]
    · rw [if_pos held, if_neg before, filter_immediates]
      by_cases same : other = input
      · subst same
        simp [held, before]
      · simp [same]
  · have : ¬ (other = input ∧ call.valid device input = true ∧
        oldtrigstate.getLsbD (trigBit input) = false) := by
      rintro ⟨rfl, now, _⟩
      exact held now
    rw [if_neg this, if_neg held]
    split
    · split <;> simp [Effect.immediateOf]
    · rfl

/-- Nothing of the report is an immediate action. -/
theorem filter_report (oldtrigstate actualTrig : Dword) (input : Nat) :
    (call.report device oldtrigstate actualTrig state).2.filter (Effect.immediateOf input) =
      [] := by
  unfold report
  by_cases single : call.para.multiChannelEnable = 0
  · rw [if_pos single]
    dsimp only
    split <;> rfl
  · rw [if_neg single, (call.foldl_playMulti _ _ _ _ _).2, List.filter_append, List.filter_flatMap]
    have none : ∀ other, (call.multiEffects oldtrigstate actualTrig state.regTrigState other).filter
        (Effect.immediateOf input) = [] := by
      intro other
      unfold multiEffects
      split
      · split <;> rfl
      · rfl
    simp only [none]
    simp [Effect.immediateOf]

theorem flatMap_range_only (count input : Nat) (chosen : Prop) [Decidable chosen]
    (effects : List Effect) :
    (List.range count).flatMap (fun other => if other = input ∧ chosen then effects else []) =
      if input < count ∧ chosen then effects else [] := by
  induction count with
  | zero => simp
  | succ count inductionHypothesis =>
    rw [List.range_succ, List.flatMap_append, inductionHypothesis, List.flatMap_singleton]
    by_cases last : count = input
    · subst last
      simp
    · have : input < count + 1 ↔ input < count := by omega
      simp [last, this]

/-- The immediate actions of an input in a call: its own, when it is valid and new in the word. -/
theorem processTriginEvent_immediates {input : Nat} (small : input < device.triginNum) :
    (call.processTriginEvent device state).2.filter (Effect.immediateOf input) =
      if call.valid device input = true ∧ state.regTrigState.getLsbD (trigBit input) = false
      then call.immediates device input else [] := by
  have scanned : (call.scan device state.regTrigState).2.filter (Effect.immediateOf input) =
      if call.valid device input = true ∧ state.regTrigState.getLsbD (trigBit input) = false
      then call.immediates device input else [] := by
    rw [scan_effects, List.filter_flatMap]
    simp only [filter_inputEffects]
    rw [flatMap_range_only]
    simp only [small, true_and]
  rw [processTriginEvent_eq]
  dsimp only
  split
  · rw [List.filter_append, filter_report, List.append_nil, scanned]
  · exact scanned

end Call

/-! ### The immediate actions -/

/-- What the codes of the events stand for. An output and a pulse have two codes for each relay,
the first of which sets it; the actions on the screens are for devices with four screens. -/
inductive Stands (device : Device) (videoCh : Int) (playing : Bool) : Int → List Act → Prop where
  | fullScreen (channel : Int) (small : 0 ≤ channel ∧ channel < 4) (quad : device.quadFlag = 1) :
      Stands device videoCh playing (30 + channel) [.netScrFull channel]
  | fourScreens (quad : device.quadFlag = 1) : Stands device videoCh playing 34 [.netScrQuad]
  | noScreens (code : Int) (screen : 30 ≤ code ∧ code ≤ 34) (single : device.quadFlag ≠ 1) :
      Stands device videoCh playing code []
  | output (out value : Int) (small : 0 ≤ out ∧ out < 4) (bit : value = 0 ∨ value = 1) :
      Stands device videoCh playing (2 * out + 2 - value) [.relayOutput out value]
  | pulse (out value : Int) (small : 0 ≤ out ∧ out < 4) (bit : value = 0 ∨ value = 1) :
      Stands device videoCh playing (2 * out + 52 - value)
        [.relayOutput out value, .relayOutput out (1 - value), .relayOutput out value]
  | sound (silent : playing = false) : Stands device videoCh playing 40 [.requestAplay videoCh]
  | soundPlaying (busy : playing = true) : Stands device videoCh playing 40 []
  | undefined (code : Int)
      (free : code ≤ 0 ∨ 9 ≤ code ∧ code < 30 ∨ 34 < code ∧ code ≤ 50 ∧ code ≠ 40 ∨ 58 < code) :
      Stands device videoCh playing code []

/-- `take_alarm_action` does what the code of the event stands for. -/
theorem takeAlarmAction_stands (device : Device) (para : Para) (aplay : Bool) (alarmChn : Nat)
    (event : Int) :
    Stands device (para.alarmTriginVideoCh alarmChn) aplay event
      (takeAlarmAction device para aplay alarmChn event) := by
  unfold takeAlarmAction
  by_cases full : 29 < event ∧ event < 34 ∧ device.quadFlag = 1
  · rw [if_pos full]
    have shown := @Stands.fullScreen device (para.alarmTriginVideoCh alarmChn) aplay (event - 30)
      (by omega) full.2.2
    rwa [show 30 + (event - 30) = event by omega] at shown
  rw [if_neg full]
  by_cases four : event = 34 ∧ device.quadFlag = 1
  · rw [if_pos four, four.1]
    exact .fourScreens four.2
  rw [if_neg four]
  by_cases zero : event = 0
  · rw [if_pos zero]
    exact .undefined event (by omega)
  rw [if_neg zero]
  by_cases switched : 0 < event ∧ event < 9
  · rw [if_pos switched]
    have done := @Stands.output device (para.alarmTriginVideoCh alarmChn) aplay ((event - 1) / 2)
      (event % 2) (by omega) (by omega)
    rwa [show 2 * ((event - 1) / 2) + 2 - event % 2 = event by omega] at done
  rw [if_neg switched]
  by_cases sounded : event = 40
  · rw [if_pos sounded, sounded]
    cases aplay with
    | false => exact .sound rfl
    | true => exact .soundPlaying rfl
  rw [if_neg sounded]
  by_cases pulsed : 50 < event ∧ event ≤ 58
  · rw [if_pos pulsed]
    have done := @Stands.pulse device (para.alarmTriginVideoCh alarmChn) aplay ((event - 51) / 2)
      (event % 2) (by omega) (by omega)
    rwa [show 2 * ((event - 51) / 2) + 52 - event % 2 = event by omega] at done
  rw [if_neg pulsed]
  by_cases screen : 30 ≤ event ∧ event ≤ 34
  · exact .noScreens event screen (by omega)
  · exact .undefined event (by omega)

/-- The event of an immediate action is the one the settings give. -/
theorem getAlarmEvent_imact {device : Device} {input : Nat} (small : input < device.triginNum)
    (para : Para) (event : Fin maxTrigEvent) :
    getAlarmEvent device para input 0 event = (para.trigin input).imact event := by
  unfold getAlarmEvent
  rw [if_neg (by omega)]
  simp only [small, if_true]

/-- After each call of a run the word has the bits of the valid inputs and no others, and for an
input that is valid and was not in the call before, and for no other, `take_alarm_action` is
called with each of its ten immediate events and does what the event stands for. -/
theorem alarm_edges (device : Device) (events : List Event) (call : Call) :
    (∀ bit,
      (call.processTriginEvent device (.after device events)).1.regTrigState.getLsbD bit = true ↔
        ∃ input < device.triginNum, trigBit input = bit ∧ call.valid device input = true) ∧
      ∀ input < device.triginNum,
        (call.processTriginEvent device (.after device events)).2.filter
            (Effect.immediateOf input) =
          (if call.valid device input = true ∧ lastValid device events input = false
          then (List.finRange maxTrigEvent).map fun event =>
            let code := (call.para.trigin input).imact event
            .immediate input code
              (takeAlarmAction device call.para (call.aplay input event) input code)
          else []) ∧
        ∀ event, Stands device (call.para.alarmTriginVideoCh input) (call.aplay input event)
          ((call.para.trigin input).imact event)
          (takeAlarmAction device call.para (call.aplay input event) input
            ((call.para.trigin input).imact event)) := by
  refine ⟨fun bit => ?_, fun input small => ⟨?_, fun event => ?_⟩⟩
  · rw [Call.processTriginEvent_regTrigState]
    exact call.scan_getLsbD device _ bit
  · rw [Call.processTriginEvent_immediates _ _ _ small,
      AlarmState.after_trigBit device events small]
    unfold Call.immediates
    simp only [getAlarmEvent_imact small]
  · exact takeAlarmAction_stands device call.para (call.aplay input event) input _

/-- A call of a device with sixteen inputs, all armed all day, whose first two immediate events
set relay 1 and pulse relay 2. -/
def relayCall (trig oldtrig : Dword) : Call where
  trig := trig
  oldtrig := oldtrig
  timep := 0
  para :=
    let trigin : AlarmTrigin :=
      ⟨1, fun event => [3, 56].getD event 0, fun _ => 0,
        fun _ => 0, ⟨0, 0, 0, 0⟩⟩
    ⟨fun _ => trigin, fun _ => trigin, fun _ => ⟨0, 0, 0, 0⟩, fun _ => 0, 0, 0⟩
  clock := fun _ => some 0
  aplay := fun _ _ => false
  reclen := 0

/-- Input 3 stays and input 12 is new: input 12 sets relay 1 and pulses relay 2, input 3 does
nothing more. -/
theorem alarm_edges_relay :
    let device : Device := ⟨16, 4, 0, by decide⟩
    let effects := ((relayCall 0x1008 8).processTriginEvent device
      (.after device [.call (relayCall 8 0)])).2
    effects.filter (Effect.immediateOf 12) =
        [.immediate 12 3 [.relayOutput 1 1],
          .immediate 12 56 [.relayOutput 2 0, .relayOutput 2 1, .relayOutput 2 0]] ++
          List.replicate 8 (.immediate 12 0 []) ∧
      effects.filter (Effect.immediateOf 3) = [] :=
  ⟨((alarm_edges ⟨16, 4, 0, by decide⟩ [.call (relayCall 8 0)] (relayCall 0x1008 8)).2 12
      (by decide)).1.trans (by decide),
    ((alarm_edges ⟨16, 4, 0, by decide⟩ [.call (relayCall 8 0)] (relayCall 0x1008 8)).2 3
      (by decide)).1.trans (by decide)⟩

end ExmOnvif.Ipmain
