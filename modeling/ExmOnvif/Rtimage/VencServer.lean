/-
This file models the thread that reads the frames of one encoder and passes them on to the
viewers, and says when the gaps of the pool stay away from the viewers.

The thread compares the number of each frame with the number before it. On a gap it skips the
one frame it has just read, but it leaves the flags of the viewers as they are: a viewer whose
`send_i_flag` is set is sent the P frame that is read next, although frames are missing before
it. Everything is in order in the runs in which that never happens.
-/

import ExmOnvif.Library.Runs
import ExmOnvif.Rtimage.Sending

namespace ExmOnvif.Rtimage

open Library

/-! ### Passing a frame on to the viewers -/

namespace Stream

/-- Whether the viewer takes a frame of the encoder: every viewer takes the video, and
those that asked for it take the audio. -/
def takes (stream : Stream) (no : Int) (video : Bool) : Bool :=
  0 < stream.usr.servStat && no = stream.usr.vencNo && (video || stream.usr.servStat = 3)

/-- The viewer is offered the frame if it takes it. -/
def serve (stream : Stream) (no : Int) (sending : Sending) : Stream :=
  if stream.takes no sending.frame.video then stream.send sending else stream

/-- The frame was read and not passed on. -/
def miss (stream : Stream) (no : Int) (frame : MediaFrame) (seq : BitVec 32) : Stream :=
  if stream.takes no frame.video then { stream with log := ⟨frame, seq, .skipped⟩ :: stream.log }
  else stream

end Stream

/-- `send_media_frames`, with the number of viewers that something was sent to. -/
def sendMediaFrames (no : Int) (frame : MediaFrame) (seq : BitVec 32)
    (conditions : Nat → Conditions) (streams : List Stream) : List Stream × Nat :=
  (streams.mapIdx fun slot stream => stream.serve no ⟨frame, seq, conditions slot⟩,
    (streams.mapIdx fun slot stream => stream.takes no frame.video &&
      0 < (stream.fate ⟨frame, seq, conditions slot⟩).ret).count true)

/-! ### The thread -/

/-- What `read_video_frame` returns. -/
structure VideoRead where
  ret : Int
  frame : MediaFrame
  seq : BitVec 32
  video : frame.video = true

/-- The thread of an encoder, with the viewers. -/
structure VencServer where
  no : Int
  oldSeq : BitVec 32
  /-- Whether frames were lost since one was last passed on. The thread does not keep this. -/
  skipped : Bool
  streams : List Stream

/-- What happens while no playback is active. -/
inductive VencEvent where
  /-- A round of the thread, with what each viewer meets. -/
  | read (read : VideoRead) (conditions : Nat → Conditions)
  /-- The thread for the audio passes a frame on. -/
  | audio (frame : MediaFrame) (sound : frame.video = false) (seq : BitVec 32)
      (conditions : Nat → Conditions)
  /-- A viewer takes a slot. -/
  | join (slot : Nat) (subscription : Subscription)

namespace VencServer

/-- The thread begins with the number -1. -/
def start (no : Int) (subscriptions : List Subscription) : VencServer :=
  ⟨no, -1, false, subscriptions.map .start⟩

/-- Whether the frame is passed on: it comes next and was read without an error. -/
def passes (server : VencServer) (read : VideoRead) : Bool :=
  server.oldSeq + 1 = read.seq && 0 ≤ read.ret

/-- The frame is not passed on. A read that fails and brings no number loses nothing. -/
def skip (server : VencServer) (read : VideoRead) : VencServer :=
  if read.ret < 0 ∧ read.seq = server.oldSeq then server
  else
    { server with
      oldSeq := read.seq
      skipped := true
      streams := server.streams.map fun stream => stream.miss server.no read.frame read.seq }

/-- A round of `venc_server_thread`. -/
def round (server : VencServer) (read : VideoRead) (conditions : Nat → Conditions) : VencServer :=
  if server.passes read then
    { server with
      oldSeq := read.seq
      skipped := false
      streams := (sendMediaFrames server.no read.frame read.seq conditions server.streams).1 }
  else server.skip read

def step (server : VencServer) : VencEvent → VencServer
  | .read read conditions => server.round read conditions
  | .audio frame _ seq conditions =>
    { server with streams := (sendMediaFrames server.no frame seq conditions server.streams).1 }
  | .join slot subscription =>
    { server with streams := server.streams.set slot (.start subscription) }

/-- Every viewer would refuse a P frame: it waits for its first I frame, or the flag of the
I frame is clear. -/
def refusesP (server : VencServer) : Bool :=
  server.streams.all fun stream =>
    stream.takes server.no true → stream.usr.info.sendIFlag → stream.usr.waiting

/-- A P frame is passed on after a loss only when every viewer would refuse it. -/
def Refused (server : VencServer) : VencEvent → Prop
  | .read read _ => server.skipped = true → server.passes read = true → read.frame.flag = .p →
      server.refusesP = true
  | _ => True

instance (server : VencServer) (event : VencEvent) : Decidable (server.Refused event) :=
  match event with
  | .read read _ => inferInstanceAs (Decidable (server.skipped = true →
      server.passes read = true → read.frame.flag = .p → server.refusesP = true))
  | .audio .. => inferInstanceAs (Decidable True)
  | .join .. => inferInstanceAs (Decidable True)

end VencServer

/-! ### What the viewers are to see -/

/-- Whether the viewer was shown a video frame. -/
def Offer.shown (offer : Offer) : Bool := offer.frame.video && offer.written

/-- The number of the last video frame that was written. -/
def lastShown (past : List Offer) : Option (BitVec 32) := (past.find? Offer.shown).map Offer.seq

/-- Each P frame that was written comes next after the last video frame that was written. -/
def Follows (log : List Offer) : Prop :=
  ∀ offer past, offer :: past <:+ log → offer.frame.flag = .p → offer.written →
    ∃ last, lastShown past = some last ∧ offer.seq = last + 1

theorem follows_nil : Follows [] := by
  intro offer past earlier
  cases List.suffix_nil.mp earlier

theorem Follows.cons {log : List Offer} {offer : Offer} (follows : Follows log)
    (fits : offer.frame.flag = .p → offer.written →
      ∃ last, lastShown log = some last ∧ offer.seq = last + 1) : Follows (offer :: log) := by
  intro other past earlier inter written
  rcases List.suffix_cons_iff.mp earlier with same | earlier
  · cases same
    exact fits inter written
  · exact follows other past earlier inter written

theorem lastShown_cons_of_hidden {offer : Offer} (past : List Offer)
    (hidden : ¬offer.shown = true) :
    lastShown (offer :: past) = lastShown past := by
  unfold lastShown
  rw [List.find?_cons_of_neg hidden]

theorem lastShown_cons_of_shown {offer : Offer} (past : List Offer) (shown : offer.shown = true) :
    lastShown (offer :: past) = some offer.seq := by
  unfold lastShown
  rw [List.find?_cons_of_pos shown]
  rfl

/-! ### What a viewer is left with by each event -/

namespace Stream

/-- Whether a P frame would be sent to the viewer if there is room. -/
def Ready (stream : Stream) : Prop :=
  stream.usr.info.sendIFlag = true ∧ stream.usr.waiting = false

/-- What holds of a viewer between two events: one that would be sent a P frame was shown the
last frame the thread passed on, unless frames were lost since. -/
structure InStep (no : Int) (oldSeq : BitVec 32) (skipped : Bool) (stream : Stream) : Prop where
  calm : stream.usr.Calm
  decodable : Decodable stream.log
  follows : Follows stream.log
  current : stream.takes no true = true → skipped = false → stream.Ready →
    Unbroken stream.log ∧ lastShown stream.log = some oldSeq

theorem inStep_start (no : Int) (oldSeq : BitVec 32) (skipped : Bool)
    (subscription : Subscription) : (start subscription).InStep no oldSeq skipped where
  calm := (sound_start subscription).calm
  decodable := decodable_nil
  follows := follows_nil
  current _ _ ready := by cases ready.1

namespace InStep

variable {no : Int} {oldSeq : BitVec 32} {skipped : Bool} {stream : Stream}

/-- A viewer that does not take the frame is left alone. -/
theorem of_refused (inStep : stream.InStep no oldSeq skipped) (seq : BitVec 32) (lost : Bool)
    (refuses : ¬stream.takes no true = true) : stream.InStep no seq lost where
  calm := inStep.calm
  decodable := inStep.decodable
  follows := inStep.follows
  current takes := absurd takes refuses

/-- Frames are lost. -/
theorem miss (inStep : stream.InStep no oldSeq skipped) (read : VideoRead) :
    (stream.miss no read.frame read.seq).InStep no read.seq true := by
  unfold Stream.miss
  split
  · refine ⟨inStep.calm, inStep.decodable.cons ?_, inStep.follows.cons ?_, fun _ kept => ?_⟩
    · exact fun _ written => by cases written
    · exact fun _ written => by cases written
    · cases kept
  · rename_i refuses
    rw [read.video] at refuses
    exact inStep.of_refused _ _ refuses

/-- An audio frame changes nothing of the video. -/
theorem audio (inStep : stream.InStep no oldSeq skipped) {sending : Sending}
    (sound : sending.frame.video = false) : (stream.serve no sending).InStep no oldSeq skipped := by
  unfold Stream.serve
  split
  · rename_i taken
    have flags := MediaFrame.flags_of_audio sound
    obtain ⟨calm, sends⟩ := AvUsr.sendMediaFrame2usr_sends inStep.calm sending.frame sending.seq
      sending.conditions
    obtain ⟨waiting, sendIFlag⟩ := sends.of_audio sound
    refine ⟨calm, inStep.decodable.cons fun inter => absurd inter flags.2,
      inStep.follows.cons fun inter => absurd inter flags.2, fun _ kept ready => ?_⟩
    have takes : stream.takes no true = true := by
      unfold takes at taken ⊢
      rw [sound] at taken
      simp only [Bool.and_eq_true] at taken ⊢
      exact ⟨taken.1, rfl⟩
    obtain ⟨unbroken, last⟩ :=
      inStep.current takes kept ⟨sendIFlag.symm.trans ready.1, waiting.symm.trans ready.2⟩
    refine ⟨unbroken.cons fun video => ?_, (lastShown_cons_of_hidden _ fun shown => ?_).trans last⟩
    · rw [sound] at video
      cases video
    · unfold Offer.shown at shown
      rw [sound] at shown
      cases shown
  · exact inStep

/-- A video frame is passed on. After a loss it is an I frame, or one the viewer refuses. -/
theorem pass (inStep : stream.InStep no oldSeq skipped) {sending : Sending}
    (video : sending.frame.video = true) (next : oldSeq + 1 = sending.seq)
    (refused : skipped = true → sending.frame.flag = .p → stream.takes no true = true →
      ¬stream.Ready)
    (succeeded : (stream.serve no sending).Succeeded) :
    (stream.serve no sending).InStep no sending.seq false := by
  unfold Stream.serve at succeeded ⊢
  rw [video] at succeeded ⊢
  split
  · rename_i takes
    rw [if_pos takes] at succeeded
    obtain ⟨-, succeeds⟩ := succeeded.of_send
    have current : sending.frame.flag ≠ .i → stream.Ready →
        Unbroken stream.log ∧ lastShown stream.log = some oldSeq := by
      intro inter ready
      have inter : sending.frame.flag = .p := by
        by_contra other
        exact inter (MediaFrame.intra_of_video video other)
      refine inStep.current takes (Bool.eq_false_iff.mpr fun lost => ?_) ready
      exact refused lost inter takes ready
    have sound := sound_send inStep.calm inStep.decodable
      (fun other set begun => (current other ⟨set, begun⟩).1) succeeds
    obtain ⟨-, sends⟩ := AvUsr.sendMediaFrame2usr_sends inStep.calm sending.frame sending.seq
      sending.conditions
    refine ⟨sound.calm, sound.decodable, inStep.follows.cons fun inter written => ?_,
      fun _ _ ready => ⟨sound.unbroken ready.1 ready.2, lastShown_cons_of_shown _ ?_⟩⟩
    · obtain ⟨ret, wrote⟩ := Offer.wrote_of_written written
      have other : sending.frame.flag ≠ .i := fun intra => by cases inter.symm.trans intra
      exact ⟨oldSeq, (current other (sends.ready_of_wrote video other wrote)).2, next.symm⟩
    · obtain ⟨ret, wrote⟩ := sends.wrote_of_ready video ready.1 ready.2
      exact Bool.and_eq_true_iff.mpr ⟨video, Offer.written_of_wrote wrote (succeeds ret wrote)⟩
  · rename_i refuses
    exact inStep.of_refused _ _ refuses

end InStep

theorem Succeeded.of_serve {stream : Stream} {no : Int} {sending : Sending}
    (succeeded : (stream.serve no sending).Succeeded) : stream.Succeeded := by
  unfold serve at succeeded
  split at succeeded
  · exact succeeded.of_send.1
  · exact succeeded

theorem Succeeded.of_miss {stream : Stream} {no : Int} {frame : MediaFrame} {seq : BitVec 32}
    (succeeded : (stream.miss no frame seq).Succeeded) : stream.Succeeded := by
  unfold miss at succeeded
  split at succeeded
  · exact fun offer member => succeeded offer (.tail _ member)
  · exact succeeded

end Stream

/-! ### Whole runs -/

namespace VencServer

/-- Every viewer without a failed write is in step with the thread. -/
def Sound (server : VencServer) : Prop :=
  ∀ stream ∈ server.streams, stream.Succeeded →
    stream.InStep server.no server.oldSeq server.skipped

theorem sound_start (no : Int) (subscriptions : List Subscription) :
    (start no subscriptions).Sound := by
  intro stream member _
  obtain ⟨subscription, -, rfl⟩ := List.mem_map.mp member
  exact Stream.inStep_start _ _ _ subscription

/-- A viewer after a frame was passed on is a viewer before it that was served. -/
theorem exists_of_mem_sendMediaFrames {no : Int} {frame : MediaFrame} {seq : BitVec 32}
    {conditions : Nat → Conditions} {streams : List Stream} {after : Stream}
    (member : after ∈ (sendMediaFrames no frame seq conditions streams).1) :
    ∃ stream ∈ streams, ∃ slot, after = stream.serve no ⟨frame, seq, conditions slot⟩ := by
  obtain ⟨slot, bound, rfl⟩ := List.mem_mapIdx.mp member
  exact ⟨streams[slot], List.getElem_mem bound, slot, rfl⟩

theorem Sound.skip {server : VencServer} (sound : server.Sound) (read : VideoRead) :
    (server.skip read).Sound := by
  unfold VencServer.skip
  split
  · exact sound
  · intro after member succeeded
    obtain ⟨stream, present, rfl⟩ := List.mem_map.mp member
    exact (sound stream present succeeded.of_miss).miss read

theorem Sound.round {server : VencServer} (sound : server.Sound) (read : VideoRead)
    (conditions : Nat → Conditions) (refused : server.Refused (.read read conditions)) :
    (server.round read conditions).Sound := by
  unfold VencServer.round
  split
  · rename_i passes
    intro after member succeeded
    obtain ⟨stream, present, slot, rfl⟩ := exists_of_mem_sendMediaFrames member
    have next : server.oldSeq + 1 = read.seq :=
      of_decide_eq_true (Bool.and_eq_true_iff.mp passes).1
    refine (sound stream present succeeded.of_serve).pass read.video next ?_ succeeded
    intro lost inter takes ready
    have refuses := List.all_eq_true.mp (refused lost passes inter) stream present
    have waits := of_decide_eq_true refuses takes ready.1
    cases waits.symm.trans ready.2
  · exact sound.skip read

theorem Sound.step {server : VencServer} {event : VencEvent} (sound : server.Sound)
    (refused : server.Refused event) : (server.step event).Sound := by
  cases event with
  | read read conditions => exact sound.round read conditions refused
  | audio frame silent seq conditions =>
    intro after member succeeded
    obtain ⟨stream, present, slot, rfl⟩ := exists_of_mem_sendMediaFrames member
    exact (sound stream present succeeded.of_serve).audio silent
  | join slot subscription =>
    intro stream member succeeded
    rcases List.mem_or_eq_of_mem_set member with member | rfl
    · exact sound stream member succeeded
    · exact Stream.inStep_start _ _ _ subscription

end VencServer

/-- In every run in which the viewers refuse the P frames that follow a loss, a viewer none of
whose writes failed is shown each P frame right after the frame before it, and after a gap is
shown an I frame first. -/
theorem gaps_stay_away {no : Int} {subscriptions : List Subscription} {events : List VencEvent}
    {server : VencServer}
    (run : Runs (fun before event after => before.step event = after ∧ before.Refused event)
      (.start no subscriptions) events server) :
    ∀ stream ∈ server.streams, stream.Succeeded →
      Follows stream.log ∧ Decodable stream.log := by
  have sound := run.invariant (VencServer.sound_start no subscriptions)
    fun before event after taken sound => by
      obtain ⟨rfl, refused⟩ := taken
      exact sound.step refused
  intro stream member succeeded
  have inStep := sound stream member succeeded
  exact ⟨inStep.follows, inStep.decodable⟩

/-- A frame of the pool, read without an error. -/
def keyRead (seq : BitVec 32) : VencEvent := .read ⟨0, keyFrame, seq, rfl⟩ fun _ => openSocket

def deltaRead (seq : BitVec 32) : VencEvent := .read ⟨0, deltaFrame, seq, rfl⟩ fun _ => openSocket

/-- After a gap of three frames the thread reads an I frame and a P frame. -/
theorem gaps_stay_away_resumed :
    ∃ server, Runs (fun before event after => before.step event = after ∧ before.Refused event)
      (VencServer.start 0 [someViewer])
        [keyRead 0, keyRead 1, deltaRead 5, keyRead 6, deltaRead 7] server ∧
      ∃ stream ∈ server.streams, stream.log.map Offer.written = [true, true, false, true, false] ∧
        stream.Succeeded ∧ Follows stream.log ∧ Decodable stream.log := by
  have evaluated : ([keyRead 0, keyRead 1, deltaRead 5, keyRead 6, deltaRead 7].foldlM
      (fun (before : VencServer) event =>
        if before.Refused event then some (before.step event) else none)
      (.start 0 [someViewer])).any (fun server => server.streams.any fun stream =>
        stream.log.map Offer.written = [true, true, false, true, false] ∧
          ∀ offer ∈ stream.log, offer.failed = false) = true := by
    decide +kernel
  obtain ⟨server, run, found⟩ := Runs.of_any_guarded evaluated
  have run := run.weaken fun before event after taken =>
    (⟨Option.some.inj taken.1, taken.2⟩ : before.step event = after ∧ before.Refused event)
  obtain ⟨stream, member, passed⟩ := List.any_eq_true.mp found
  obtain ⟨written, succeeded⟩ := of_decide_eq_true passed
  exact ⟨server, run, stream, member, written, succeeded,
    gaps_stay_away run stream member succeeded⟩

/-- A gap of three frames behind the first I frame that is shown. -/
def gapEvents : List VencEvent := [keyRead 0, keyRead 1, deltaRead 5, deltaRead 6]

/-- The frame that is read at the gap is skipped, and the P frame behind it is shown. -/
theorem gap_passed_on :
    ¬∀ (subscriptions : List Subscription) (events : List VencEvent) (server : VencServer),
      Runs (fun before event after => before.step event = after)
        (VencServer.start 0 subscriptions) events server →
      ∀ stream ∈ server.streams, stream.Succeeded → Follows stream.log ∧ Decodable stream.log := by
  intro claimed
  have shown := claimed [someViewer] gapEvents _ (.of_foldl _ _) _ (.head _) (by
    unfold Stream.Succeeded
    decide +kernel)
  obtain ⟨last, before, next⟩ := shown.1 _ _ (List.suffix_refl _) rfl rfl
  have before : some (1 : BitVec 32) = some last := before
  cases before
  exact absurd next (by decide)

end ExmOnvif.Rtimage
