/-
This file models the threads between the cameras and the disk: the four
`read_pool_proc` producers and the `writedata` consumer, with the queues and the
condition variable `start_again` between them.

A producer pushes its video collection, then its audio collection, and the one of
channel 0 then signals. The writer waits for a signal without a predicate, and
takes at most one collection from each queue, audio only behind a video. A signal
that finds no blocked writer is lost. Two things are followed through every
interleaving: which audio collection is recorded beside which video, and what
stays queued when the writer goes back to wait.

Collections are known by their number on their channel.
-/

import Mathlib.Data.List.Basic
import Mathlib.Logic.Function.Basic
import ExmOnvif.Library.Runs
import ExmOnvif.Recorder.Layout

namespace ExmOnvif.Recorder

open Library

/-! ### The threads -/

/-- Where a producer is: reading frames, between its two pushes, or in front of the signal. -/
inductive ProducerAt where
  | collecting
  | videoPushed
  | signalling
deriving DecidableEq

/-- Where the writer is: in front of the wait, blocked in it, choosing the write position, at
one of the four steps of a channel, writing the head block, or behind its loop. From
`testAudio` on it holds the number of the video it popped. -/
inductive WriterAt where
  | entering
  | blocked
  | placing
  | testVideo (channel : Fin maxChannel)
  | popVideo (channel : Fin maxChannel)
  | testAudio (channel : Fin maxChannel) (video : Nat)
  | popAudio (channel : Fin maxChannel) (video : Nat)
  | writing
  | ended
deriving DecidableEq

/-- What a head block records for a channel. -/
structure Recorded where
  channel : Fin maxChannel
  video : Nat
  audio : Option Nat
deriving DecidableEq

/-- The queues, the threads' positions, the pairs each producer has pushed in full, and what
has been recorded, newest first. -/
structure Pipeline where
  producer : Fin maxChannel → ProducerAt
  made : Fin maxChannel → Nat
  mbVideoQueue : Fin maxChannel → List Nat
  mbAudioQueue : Fin maxChannel → List Nat
  writer : WriterAt
  recorded : List Recorded

/-- One step of one thread. `spurious` is a return from the wait without a signal, which the
wait allows; `place` and `write` say whether the writer stays in its loop. -/
inductive Move where
  | pushVideo (channel : Fin maxChannel)
  | pushAudio (channel : Fin maxChannel)
  | signal
  | wait
  | spurious
  | place (passes : Bool)
  | testVideo
  | popVideo
  | testAudio
  | popAudio
  | write (goesOn : Bool)
deriving DecidableEq

/-- The channel loop of `writedata` behind a channel. -/
def WriterAt.behind (channel : Fin maxChannel) : WriterAt :=
  if inside : channel.val + 1 < maxChannel then .testVideo ⟨channel.val + 1, inside⟩ else .writing

/-- The video the writer has popped from a channel and not yet recorded. -/
def WriterAt.held (writer : WriterAt) (channel : Fin maxChannel) : List Nat :=
  match writer with
  | .testAudio other video => if other = channel then [video] else []
  | .popAudio other video => if other = channel then [video] else []
  | _ => []

/-- The videos a producer is ahead of its audio. -/
def ProducerAt.ahead : ProducerAt → Nat
  | .videoPushed => 1
  | _ => 0

theorem WriterAt.held_behind (channel other : Fin maxChannel) :
    (WriterAt.behind channel).held other = [] := by
  unfold behind
  split <;> rfl

namespace Pipeline

/-- The threads before their first step. -/
def initial : Pipeline where
  producer := fun _ => .collecting
  made := fun _ => 0
  mbVideoQueue := fun _ => []
  mbAudioQueue := fun _ => []
  writer := .entering
  recorded := []

/-- `read_pool_proc` behind the push of an audio collection. -/
def afterAudio (channel : Fin maxChannel) : ProducerAt :=
  if channel = 0 then .signalling else .collecting

/-- One step of the system; `none` when the thread is not there. -/
def step (p : Pipeline) : Move → Option Pipeline
  | .pushVideo channel =>
    if p.producer channel = .collecting then
      some { p with
        producer := Function.update p.producer channel .videoPushed
        mbVideoQueue :=
          Function.update p.mbVideoQueue channel (p.mbVideoQueue channel ++ [p.made channel]) }
    else none
  | .pushAudio channel =>
    if p.producer channel = .videoPushed then
      some { p with
        producer := Function.update p.producer channel (afterAudio channel)
        made := Function.update p.made channel (p.made channel + 1)
        mbAudioQueue :=
          Function.update p.mbAudioQueue channel (p.mbAudioQueue channel ++ [p.made channel]) }
    else none
  | .signal =>
    if p.producer 0 = .signalling then
      some { p with
        producer := Function.update p.producer 0 .collecting
        writer := if p.writer = .blocked then .placing else p.writer }
    else none
  | .wait => if p.writer = .entering then some { p with writer := .blocked } else none
  | .spurious => if p.writer = .blocked then some { p with writer := .placing } else none
  | .place passes =>
    if p.writer = .placing then
      some { p with writer := if passes then .testVideo 0 else .ended }
    else none
  | .testVideo =>
    match p.writer with
    | .testVideo channel =>
      some { p with
        writer :=
          if (p.mbVideoQueue channel).length > 0 then .popVideo channel else .behind channel }
    | _ => none
  | .popVideo =>
    match p.writer with
    | .popVideo channel =>
      match p.mbVideoQueue channel with
      | [] => none
      | video :: rest =>
        some { p with
          mbVideoQueue := Function.update p.mbVideoQueue channel rest
          writer := .testAudio channel video }
    | _ => none
  | .testAudio =>
    match p.writer with
    | .testAudio channel video =>
      if (p.mbAudioQueue channel).length > 0 then
        some { p with writer := .popAudio channel video }
      else
        some { p with
          writer := .behind channel
          recorded := ⟨channel, video, none⟩ :: p.recorded }
    | _ => none
  | .popAudio =>
    match p.writer with
    | .popAudio channel video =>
      match p.mbAudioQueue channel with
      | [] => none
      | audio :: rest =>
        some { p with
          mbAudioQueue := Function.update p.mbAudioQueue channel rest
          writer := .behind channel
          recorded := ⟨channel, video, some audio⟩ :: p.recorded }
    | _ => none
  | .write goesOn =>
    if p.writer = .writing then some { p with writer := if goesOn then .entering else .ended }
    else none

/-- One step, as a relation. -/
def Steps (p : Pipeline) (move : Move) (after : Pipeline) : Prop := p.step move = some after

/-- All a step can do, one case for each branch of each thread. -/
inductive Taken (p : Pipeline) : Move → Pipeline → Prop
  | pushVideo {channel : Fin maxChannel} (collecting : p.producer channel = .collecting) :
      Taken p (.pushVideo channel)
        { p with
          producer := Function.update p.producer channel .videoPushed
          mbVideoQueue :=
            Function.update p.mbVideoQueue channel (p.mbVideoQueue channel ++ [p.made channel]) }
  | pushAudio {channel : Fin maxChannel} (pushed : p.producer channel = .videoPushed) :
      Taken p (.pushAudio channel)
        { p with
          producer := Function.update p.producer channel (afterAudio channel)
          made := Function.update p.made channel (p.made channel + 1)
          mbAudioQueue :=
            Function.update p.mbAudioQueue channel (p.mbAudioQueue channel ++ [p.made channel]) }
  | signal (signalling : p.producer 0 = .signalling) :
      Taken p .signal
        { p with
          producer := Function.update p.producer 0 .collecting
          writer := if p.writer = .blocked then .placing else p.writer }
  | wait (there : p.writer = .entering) : Taken p .wait { p with writer := .blocked }
  | spurious (there : p.writer = .blocked) : Taken p .spurious { p with writer := .placing }
  | place {passes : Bool} (there : p.writer = .placing) :
      Taken p (.place passes) { p with writer := if passes then .testVideo 0 else .ended }
  | videoThere {channel : Fin maxChannel} (there : p.writer = .testVideo channel) :
      Taken p .testVideo { p with writer := .popVideo channel }
  | videoMissing {channel : Fin maxChannel} (there : p.writer = .testVideo channel)
      (empty : p.mbVideoQueue channel = []) :
      Taken p .testVideo { p with writer := .behind channel }
  | popVideo {channel : Fin maxChannel} {video : Nat} {rest : List Nat}
      (there : p.writer = .popVideo channel) (queue : p.mbVideoQueue channel = video :: rest) :
      Taken p .popVideo
        { p with
          mbVideoQueue := Function.update p.mbVideoQueue channel rest
          writer := .testAudio channel video }
  | audioThere {channel : Fin maxChannel} {video : Nat}
      (there : p.writer = .testAudio channel video) (some : p.mbAudioQueue channel ≠ []) :
      Taken p .testAudio { p with writer := .popAudio channel video }
  | audioMissing {channel : Fin maxChannel} {video : Nat}
      (there : p.writer = .testAudio channel video) (empty : p.mbAudioQueue channel = []) :
      Taken p .testAudio
        { p with writer := .behind channel, recorded := ⟨channel, video, none⟩ :: p.recorded }
  | popAudio {channel : Fin maxChannel} {video audio : Nat} {rest : List Nat}
      (there : p.writer = .popAudio channel video)
        (queue : p.mbAudioQueue channel = audio :: rest) :
      Taken p .popAudio
        { p with
          mbAudioQueue := Function.update p.mbAudioQueue channel rest
          writer := .behind channel
          recorded := ⟨channel, video, some audio⟩ :: p.recorded }
  | write {goesOn : Bool} (there : p.writer = .writing) :
      Taken p (.write goesOn) { p with writer := if goesOn then .entering else .ended }

theorem Steps.taken {p after : Pipeline} {move : Move} (steps : p.Steps move after) :
    p.Taken move after := by
  unfold Steps step at steps
  split at steps
  case h_1 channel =>
    split at steps
    · rename_i collecting
      cases steps
      exact .pushVideo collecting
    · cases steps
  case h_2 channel =>
    split at steps
    · rename_i pushed
      cases steps
      exact .pushAudio pushed
    · cases steps
  case h_3 =>
    split at steps
    · rename_i signalling
      cases steps
      exact .signal signalling
    · cases steps
  case h_4 =>
    split at steps
    · rename_i there
      cases steps
      exact .wait there
    · cases steps
  case h_5 =>
    split at steps
    · rename_i there
      cases steps
      exact .spurious there
    · cases steps
  case h_6 passes =>
    split at steps
    · rename_i there
      cases steps
      exact .place there
    · cases steps
  case h_7 =>
    split at steps
    · rename_i channel there
      cases steps
      split
      · exact .videoThere there
      · rename_i none
        exact .videoMissing there (List.length_eq_zero_iff.mp (Nat.eq_zero_of_not_pos none))
    · cases steps
  case h_8 =>
    split at steps
    · rename_i channel there
      split at steps
      · cases steps
      · rename_i video rest queue
        cases steps
        exact .popVideo there queue
    · cases steps
  case h_9 =>
    split at steps
    · rename_i channel video there
      split at steps
      · rename_i some
        cases steps
        exact .audioThere there (List.ne_nil_of_length_pos some)
      · rename_i none
        cases steps
        exact .audioMissing there (List.length_eq_zero_iff.mp (Nat.eq_zero_of_not_pos none))
    · cases steps
  case h_10 =>
    split at steps
    · rename_i channel video there
      split at steps
      · cases steps
      · rename_i audio rest queue
        cases steps
        exact .popAudio there queue
    · cases steps
  case h_11 goesOn =>
    split at steps
    · rename_i there
      cases steps
      exact .write there
    · cases steps

/-! ### Audio beside video -/

/-- Every recorded video has the audio of its own number beside it. -/
def Paired (p : Pipeline) : Prop := ∀ entry ∈ p.recorded, entry.audio = some entry.video

/-- The step does not look for audio between the two pushes of a producer: a test of an audio
queue finds something. -/
def AudioThere (p : Pipeline) : Move → Prop
  | .testAudio => ∀ channel video, p.writer = .testAudio channel video → p.mbAudioQueue channel ≠ []
  | _ => True

/-- One step in which a test of an audio queue finds something. -/
def PairedSteps (p : Pipeline) (move : Move) (after : Pipeline) : Prop :=
  p.Steps move after ∧ p.AudioThere move

/-- On a channel the pairs below `next` are recorded: the audio queue holds the rest in order,
and so does the video queue behind the video in the writer's hand. -/
structure InTurn (p : Pipeline) (channel : Fin maxChannel) (next : Nat) : Prop where
  recorded : next ≤ p.made channel
  audio : p.mbAudioQueue channel = List.range' next (p.made channel - next)
  video : p.writer.held channel ++ p.mbVideoQueue channel =
    List.range' next (p.made channel + (p.producer channel).ahead - next)

/-- Every channel is in turn and every record is a pair. -/
def Ordered (p : Pipeline) : Prop :=
  (∃ next : Fin maxChannel → Nat, ∀ channel, p.InTurn channel (next channel)) ∧ p.Paired

variable {p after : Pipeline} {move : Move}

/-- Nothing changes for a channel whose queues, producer and held video stay as they are. -/
theorem InTurn.of_eq {channel : Fin maxChannel} {next : Nat} (inTurn : p.InTurn channel next)
    (made : after.made channel = p.made channel)
    (audio : after.mbAudioQueue channel = p.mbAudioQueue channel)
    (video : after.mbVideoQueue channel = p.mbVideoQueue channel)
    (ahead : (after.producer channel).ahead = (p.producer channel).ahead)
    (held : after.writer.held channel = p.writer.held channel) : after.InTurn channel next where
  recorded := made ▸ inTurn.recorded
  audio := by rw [audio, made, inTurn.audio]
  video := by rw [held, video, made, ahead, inTurn.video]

/-- A step of the writer that touches no queue and leaves its hand as it is. -/
theorem InTurn.writer {writer : WriterAt} {next : Fin maxChannel → Nat}
    (inTurn : ∀ channel, p.InTurn channel (next channel))
    (held : ∀ channel, writer.held channel = p.writer.held channel) (channel : Fin maxChannel) :
    ({ p with writer := writer } : Pipeline).InTurn channel (next channel) :=
  (inTurn channel).of_eq rfl rfl rfl rfl (held channel)

/-- The number of pairs made so far is the one number behind the queued ones. -/
theorem range'_snoc {next made : Nat} (below : next ≤ made) :
    List.range' next (made - next) ++ [made] = List.range' next (made + 1 - next) := by
  rw [Nat.succ_sub below, List.range'_1_concat, Nat.add_sub_cancel' below]

theorem InTurn.pushVideo {channel : Fin maxChannel} {next : Nat} (inTurn : p.InTurn channel next)
    (collecting : p.producer channel = .collecting) :
    ({ p with
        producer := Function.update p.producer channel .videoPushed
        mbVideoQueue := Function.update p.mbVideoQueue channel
          (p.mbVideoQueue channel ++ [p.made channel]) } : Pipeline).InTurn channel next := by
  obtain ⟨recorded, audio, video⟩ := inTurn
  refine ⟨recorded, audio, ?_⟩
  rw [collecting] at video
  simp only [Function.update_self]
  rw [← List.append_assoc, video]
  exact range'_snoc recorded

theorem InTurn.pushAudio {channel : Fin maxChannel} {next : Nat} (inTurn : p.InTurn channel next)
    (between : p.producer channel = .videoPushed) :
    ({ p with
        producer := Function.update p.producer channel (afterAudio channel)
        made := Function.update p.made channel (p.made channel + 1)
        mbAudioQueue := Function.update p.mbAudioQueue channel
          (p.mbAudioQueue channel ++ [p.made channel]) } : Pipeline).InTurn channel next := by
  obtain ⟨recorded, audio, video⟩ := inTurn
  rw [between] at video
  refine ⟨?_, ?_, ?_⟩
  · simp only [Function.update_self]
    exact Nat.le_succ_of_le recorded
  · simp only [Function.update_self]
    rw [audio]
    exact range'_snoc recorded
  · simp only [Function.update_self]
    rw [video]
    unfold afterAudio
    split <;> rfl

/-- The audio that is popped has the number of the video in the writer's hand, because both lists
start at `next`. -/
theorem InTurn.popAudio {channel : Fin maxChannel} {next video audio : Nat} {rest : List Nat}
    {entry : Recorded} (inTurn : p.InTurn channel next) (there : p.writer = .popAudio channel video)
    (queue : p.mbAudioQueue channel = audio :: rest) :
    audio = video ∧
      ({ p with
          mbAudioQueue := Function.update p.mbAudioQueue channel rest
          writer := .behind channel
          recorded := entry :: p.recorded } : Pipeline).InTurn channel (next + 1) := by
  obtain ⟨recorded, audios, videos⟩ := inTurn
  rw [queue] at audios
  rw [there] at videos
  simp only [WriterAt.held, if_true] at videos
  obtain ⟨count, size⟩ : ∃ count, p.made channel - next = count + 1 := by
    refine Nat.exists_eq_succ_of_ne_zero fun none => ?_
    rw [none] at audios
    cases audios
  rw [size, List.range'_succ] at audios
  have more : p.made channel + (p.producer channel).ahead - next =
      count + (p.producer channel).ahead + 1 := by omega
  rw [more, List.range'_succ, List.singleton_append] at videos
  obtain ⟨sameAudio, audioRest⟩ := List.cons.inj audios
  obtain ⟨sameVideo, videoRest⟩ := List.cons.inj videos
  refine ⟨sameAudio.trans sameVideo.symm, ?_, ?_, ?_⟩
  · show next + 1 ≤ p.made channel
    omega
  · simp only [Function.update_self]
    rw [audioRest]
    congr 1
    omega
  · simp only [WriterAt.held_behind, List.nil_append]
    rw [videoRest]
    congr 1
    omega

/-- A step keeps the order as long as a test of an audio queue finds something. -/
theorem Taken.ordered (taken : p.Taken move after) (audioThere : p.AudioThere move)
    (ordered : p.Ordered) : after.Ordered := by
  obtain ⟨⟨next, inTurn⟩, paired⟩ := ordered
  cases taken with
  | @pushVideo pushed collecting =>
    refine ⟨⟨next, fun channel => ?_⟩, paired⟩
    by_cases same : channel = pushed
    · subst same
      exact (inTurn channel).pushVideo collecting
    · refine (inTurn channel).of_eq rfl rfl ?_ ?_ rfl
      · exact Function.update_of_ne same _ _
      · exact congrArg ProducerAt.ahead (Function.update_of_ne same _ _)
  | @pushAudio pushed between =>
    refine ⟨⟨next, fun channel => ?_⟩, paired⟩
    by_cases same : channel = pushed
    · subst same
      exact (inTurn channel).pushAudio between
    · refine (inTurn channel).of_eq ?_ ?_ rfl ?_ rfl
      · exact Function.update_of_ne same _ _
      · exact Function.update_of_ne same _ _
      · exact congrArg ProducerAt.ahead (Function.update_of_ne same _ _)
  | signal signalling =>
    refine ⟨⟨next, fun channel => (inTurn channel).of_eq rfl rfl rfl ?_ ?_⟩, paired⟩
    · by_cases same : channel = 0
      · subst same
        simp only [Function.update_self, signalling]
        rfl
      · exact congrArg ProducerAt.ahead (Function.update_of_ne same _ _)
    · dsimp only
      split
      · rename_i blocked
        rw [blocked]
        rfl
      · rfl
  | wait there => exact ⟨⟨next, InTurn.writer inTurn fun _ => by rw [there]; rfl⟩, paired⟩
  | spurious there => exact ⟨⟨next, InTurn.writer inTurn fun _ => by rw [there]; rfl⟩, paired⟩
  | @place passes there =>
    refine ⟨⟨next, InTurn.writer inTurn fun _ => ?_⟩, paired⟩
    rw [there]
    cases passes <;> rfl
  | videoThere there => exact ⟨⟨next, InTurn.writer inTurn fun _ => by rw [there]; rfl⟩, paired⟩
  | videoMissing there _ =>
    refine ⟨⟨next, InTurn.writer inTurn fun other => ?_⟩, paired⟩
    rw [there, WriterAt.held_behind]
    rfl
  | @popVideo popped video rest there queue =>
    refine ⟨⟨next, fun channel => ?_⟩, paired⟩
    by_cases same : channel = popped
    · subst same
      obtain ⟨recorded, audio, held⟩ := inTurn channel
      rw [there, queue] at held
      refine ⟨recorded, audio, ?_⟩
      simp only [Function.update_self, WriterAt.held, if_true]
      exact held
    · refine (inTurn channel).of_eq rfl rfl ?_ rfl ?_
      · exact Function.update_of_ne same _ _
      · rw [there]
        exact if_neg fun equal => same equal.symm
  | audioThere there _ => exact ⟨⟨next, InTurn.writer inTurn fun _ => by rw [there]; rfl⟩, paired⟩
  | audioMissing there empty => exact absurd empty (audioThere _ _ there)
  | @popAudio popped video audio rest there queue =>
    obtain ⟨number, taken⟩ :=
      @InTurn.popAudio p popped _ _ _ _ ⟨popped, video, some audio⟩ (inTurn popped) there queue
    refine ⟨⟨Function.update next popped (next popped + 1), fun channel => ?_⟩, ?_⟩
    · by_cases same : channel = popped
      · subst same
        rw [Function.update_self]
        exact taken
      · rw [Function.update_of_ne same]
        refine (inTurn channel).of_eq rfl ?_ rfl rfl ?_
        · exact Function.update_of_ne same _ _
        · rw [there, WriterAt.held_behind]
          exact (if_neg fun equal => same equal.symm).symm
    · intro entry member
      rcases List.mem_cons.mp member with rfl | earlier
      · exact congrArg some number
      · exact paired entry earlier
  | @write goesOn there =>
    refine ⟨⟨next, InTurn.writer inTurn fun _ => ?_⟩, paired⟩
    rw [there]
    cases goesOn <;> rfl

/-- What is recorded stays recorded. -/
theorem Taken.recorded_suffix (taken : p.Taken move after) : p.recorded <:+ after.recorded := by
  cases taken with
  | audioMissing => exact List.suffix_cons _ _
  | popAudio => exact List.suffix_cons _ _
  | _ => exact List.suffix_rfl

/-- An audio test that finds nothing records a video without audio. -/
theorem Taken.audioThere_of_paired (taken : p.Taken move after) (paired : after.Paired) :
    p.AudioThere move := by
  cases taken with
  | audioThere there some =>
    intro channel video here
    rw [there] at here
    cases here
    exact some
  | audioMissing there empty =>
    have alone : (none : Option Nat) = some _ := paired _ List.mem_cons_self
    cases alone
  | _ => trivial

theorem initial_inTurn (channel : Fin maxChannel) : initial.InTurn channel 0 :=
  ⟨Nat.le_refl 0, rfl, rfl⟩

/-- In every interleaving, every recorded video has the audio of its own number beside it
exactly when no audio queue was tested between the two pushes of its producer. -/
theorem audio_beside_video {moves : List Move} (run : Runs Steps initial moves p) :
    p.Paired ↔ Runs PairedSteps initial moves p := by
  constructor
  · intro paired
    induction run with
    | nil => exact .nil
    | snoc _ taken inductionHypothesis =>
      have earlier : Paired _ := fun entry member =>
        paired entry (taken.taken.recorded_suffix.mem member)
      exact (inductionHypothesis earlier).snoc ⟨taken, taken.taken.audioThere_of_paired paired⟩
  · intro quiet
    have ordered : p.Ordered := by
      refine quiet.invariant ⟨⟨fun _ => 0, initial_inTurn⟩, fun _ member => nomatch member⟩ ?_
      rintro before move later ⟨taken, audioThere⟩ kept
      exact taken.taken.ordered audioThere kept
    exact ordered.2

/-- One pair on channel 0, recorded. -/
theorem audio_beside_video_one_pair :
    ∃ p : Pipeline, Runs Steps initial
      [.wait, .pushVideo 0, .pushAudio 0, .signal, .place true, .testVideo,
        .popVideo, .testAudio, .popAudio] p ∧ p.recorded = [⟨0, 0, some 0⟩] ∧
      Runs PairedSteps initial [.wait, .pushVideo 0, .pushAudio 0, .signal, .place true,
        .testVideo, .popVideo, .testAudio, .popAudio] p := by
  have run : Runs Steps initial [.wait, .pushVideo 0, .pushAudio 0, .signal, .place true,
      .testVideo, .popVideo, .testAudio, .popAudio] _ := Runs.of_foldlM rfl
  refine ⟨_, run, rfl, (audio_beside_video run).mp ?_⟩
  unfold Paired
  decide

/-- The writer tests channel 1 for audio between its producer's two pushes. The video goes
without audio, and the audio left over goes with the next video. -/
theorem audio_shifted :
    ∃ (moves : List Move) (p : Pipeline), Runs Steps initial moves p ∧
      Recorded.mk 1 0 none ∈ p.recorded ∧ Recorded.mk 1 1 (some 0) ∈ p.recorded ∧
      ¬p.Paired := by
  have run : Runs Steps initial
      [.wait, .pushVideo 0, .pushAudio 0, .signal, .place true, .testVideo, .popVideo, .testAudio,
        .popAudio, .pushVideo 1, .testVideo, .popVideo, .testAudio, .pushAudio 1, .testVideo,
        .testVideo, .write true, .wait, .pushVideo 0, .pushAudio 0, .pushVideo 1, .pushAudio 1,
        .signal, .place true, .testVideo, .popVideo, .testAudio, .popAudio, .testVideo, .popVideo,
        .testAudio, .popAudio] _ := Runs.of_foldlM rfl
  refine ⟨_, _, run, by decide, by decide, ?_⟩
  unfold Paired
  decide

/-! ### What stays queued while the writer waits -/

/-- A signal finds the writer blocked. -/
def SignalMet (p : Pipeline) : Move → Prop
  | .signal => p.writer = .blocked
  | _ => True

instance (p : Pipeline) : (move : Move) → Decidable (p.SignalMet move)
  | .signal => inferInstanceAs (Decidable (p.writer = .blocked))
  | .pushVideo _ | .pushAudio _ | .wait | .spurious | .place _ | .testVideo | .popVideo
  | .testAudio | .popAudio | .write _ => isTrue trivial

/-- One step in which no signal is lost. -/
def SignalledSteps (p : Pipeline) (move : Move) (after : Pipeline) : Prop :=
  p.Steps move after ∧ p.SignalMet move

end Pipeline

/-- The writer is woken and has not yet popped the video of channel 0. -/
def WriterAt.inFront : WriterAt → Nat
  | .placing => 1
  | .testVideo channel => if channel = 0 then 1 else 0
  | .popVideo channel => if channel = 0 then 1 else 0
  | _ => 0

/-- The producer has pushed a video and not yet signalled. -/
def ProducerAt.pending : ProducerAt → Nat
  | .collecting => 0
  | _ => 1

theorem WriterAt.inFront_behind (channel : Fin maxChannel) :
    (WriterAt.behind channel).inFront = 0 := by
  unfold behind
  split
  · rename_i inside
    have later : (⟨channel.val + 1, inside⟩ : Fin maxChannel) ≠ 0 := fun zero =>
      Nat.succ_ne_zero channel.val (congrArg Fin.val zero)
    show (if (⟨channel.val + 1, inside⟩ : Fin maxChannel) = 0 then 1 else 0) = 0
    rw [if_neg later]
  · rfl

namespace Pipeline

variable {p after : Pipeline} {move : Move}

/-- At most one video of channel 0 waits for a signal that is still to come, and one for a
writer that is already woken. -/
def Backlog (p : Pipeline) : Prop :=
  p.writer ≠ .ended →
    (p.mbVideoQueue 0).length ≤ (p.producer 0).pending + p.writer.inFront

theorem Backlog.at_writer (backlog : p.Backlog) {writer : WriterAt} (there : p.writer = writer)
    (running : writer ≠ .ended) :
    (p.mbVideoQueue 0).length ≤ (p.producer 0).pending + writer.inFront := by
  subst there
  exact backlog running

/-- A step that leaves the queue and the producer of channel 0 alone, and the writer no less in
front of that queue. -/
theorem Backlog.goOn (backlog : p.Backlog) {writer : WriterAt} (there : p.writer = writer)
    (running : writer ≠ .ended) (queue : after.mbVideoQueue 0 = p.mbVideoQueue 0)
    (producer : after.producer 0 = p.producer 0)
    (front : writer.inFront ≤ after.writer.inFront) : after.Backlog := by
  intro _
  rw [queue, producer]
  exact Nat.le_trans (backlog.at_writer there running) (Nat.add_le_add_left front _)

theorem Taken.backlog (taken : p.Taken move after) (met : p.SignalMet move)
    (backlog : p.Backlog) : after.Backlog := by
  cases taken with
  | @pushVideo channel collecting =>
    intro running
    have before := backlog running
    by_cases first : channel = 0
    · subst first
      rw [collecting] at before
      simp only [Function.update_self, List.length_append, List.length_singleton]
      simp only [ProducerAt.pending] at before ⊢
      omega
    · have other : (0 : Fin maxChannel) ≠ channel := fun same => first same.symm
      simp only [Function.update_of_ne other]
      exact before
  | @pushAudio channel pushed =>
    intro running
    have before := backlog running
    by_cases first : channel = 0
    · subst first
      rw [pushed] at before
      simp only [Function.update_self]
      exact before
    · have other : (0 : Fin maxChannel) ≠ channel := fun same => first same.symm
      simp only [Function.update_of_ne other]
      exact before
  | signal signalling =>
    intro _
    have blocked : p.writer = .blocked := met
    have before := backlog.at_writer blocked nofun
    rw [signalling] at before
    simp only [Function.update_self, blocked, if_true]
    exact before
  | wait there => exact backlog.goOn there nofun rfl rfl (Nat.le_refl _)
  | spurious there => exact backlog.goOn there nofun rfl rfl (Nat.zero_le _)
  | @place passes there =>
    cases passes with
    | false => exact fun running => absurd rfl running
    | true => exact backlog.goOn there nofun rfl rfl (Nat.le_refl _)
  | videoThere there => exact backlog.goOn there nofun rfl rfl (Nat.le_refl _)
  | @videoMissing channel there empty =>
    intro _
    have before := backlog.at_writer there nofun
    simp only [WriterAt.inFront_behind]
    by_cases first : channel = 0
    · subst first
      rw [empty]
      exact Nat.zero_le _
    · simp only [WriterAt.inFront, if_neg first] at before
      exact before
  | @popVideo channel video rest there queue =>
    intro _
    have before := backlog.at_writer there nofun
    by_cases first : channel = 0
    · subst first
      rw [queue] at before
      simp only [Function.update_self]
      exact Nat.le_of_succ_le_succ before
    · have other : (0 : Fin maxChannel) ≠ channel := fun same => first same.symm
      simp only [WriterAt.inFront, if_neg first] at before
      simp only [Function.update_of_ne other]
      exact before
  | audioThere there _ => exact backlog.goOn there nofun rfl rfl (Nat.le_refl _)
  | audioMissing there _ => exact backlog.goOn there nofun rfl rfl (Nat.zero_le _)
  | popAudio there _ => exact backlog.goOn there nofun rfl rfl (Nat.zero_le _)
  | @write goesOn there =>
    cases goesOn with
    | false => exact fun running => absurd rfl running
    | true => exact backlog.goOn there nofun rfl rfl (Nat.le_refl _)

/-- In every interleaving that loses no signal, whenever the writer is blocked and the producer
of channel 0 is not on its way to a signal, no group of channel 0 is left in the queue. -/
theorem no_stranded_groups {moves : List Move} (run : Runs SignalledSteps initial moves p)
    (blocked : p.writer = .blocked) (idle : p.producer 0 = .collecting) :
    p.mbVideoQueue 0 = [] := by
  have backlog : p.Backlog := by
    refine run.invariant (fun _ => Nat.zero_le _) ?_
    rintro before move later ⟨taken, met⟩ kept
    exact taken.taken.backlog met kept
  have none := backlog (by rw [blocked]; exact WriterAt.noConfusion)
  rw [blocked, idle] at none
  exact List.length_eq_zero_iff.mp (Nat.eq_zero_of_le_zero none)

/-- One group, signalled to a blocked writer and written. -/
theorem no_stranded_groups_one_group :
    ∃ p : Pipeline, Runs SignalledSteps initial [.wait, .pushVideo 0, .pushAudio 0, .signal,
        .place true, .testVideo, .popVideo, .testAudio, .popAudio, .testVideo, .testVideo,
        .testVideo, .write true, .wait] p ∧
      p.writer = .blocked ∧ p.producer 0 = .collecting ∧ p.mbVideoQueue 0 = [] := by
  have run : Runs SignalledSteps initial [.wait, .pushVideo 0, .pushAudio 0, .signal,
      .place true, .testVideo, .popVideo, .testAudio, .popAudio, .testVideo, .testVideo,
      .testVideo, .write true, .wait] _ := Runs.of_foldlM_guarded rfl
  exact ⟨_, run, rfl, rfl, no_stranded_groups run rfl rfl⟩

/-- The second group is signalled while the writer writes the first one. The signal is lost,
and the writer goes back to wait with the group in the queue. -/
theorem group_stranded :
    ∃ (moves : List Move) (p : Pipeline), Runs Steps initial moves p ∧ p.writer = .blocked ∧
      p.producer 0 = .collecting ∧ p.mbVideoQueue 0 ≠ [] := by
  have run : Runs Steps initial
      [.wait, .pushVideo 0, .pushAudio 0, .signal, .place true, .testVideo, .popVideo, .testAudio,
        .popAudio, .testVideo, .testVideo, .testVideo, .pushVideo 0, .pushAudio 0, .signal,
        .write true, .wait] _ := Runs.of_foldlM rfl
  exact ⟨_, _, run, rfl, rfl, by decide⟩

end Pipeline

end ExmOnvif.Recorder
