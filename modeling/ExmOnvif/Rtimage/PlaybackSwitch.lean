/-
This file models how a channel of the image server is switched between the live pictures and
the playback, and says when every viewer is restarted at an I frame. Which pool the frames of a
channel are taken from is decided by a flag of the channel. That a viewer waits for an I frame
is decided by a flag of the viewer. The three functions that switch a channel set the second
flag for the first viewer in the list that watches the channel they are called for, and stop.

A second viewer of the channel, and every viewer of another channel whose playback is cancelled
with it, goes on with whatever frame comes next from the new pool.
-/

import ExmOnvif.Rtimage.BufferMap
import ExmOnvif.Rtimage.VencServer

namespace ExmOnvif.Rtimage

open Library

/-! ### The channels -/

/-- `MAX_VIDEO_ENCODER`. -/
def maxVideoEncoder : Nat := 5

/-- The pool a frame is taken from. -/
inductive Source where
  | live
  | playback
deriving DecidableEq, Repr

/-- What `venc_server_thread` and `playback_t` keep for a channel. -/
structure PlaybackChannel where
  oldSeq : BitVec 32
  /-- Negative for the live pictures, and the number of the channel during a playback. -/
  playbackFlag : Int
  /-- Minus one when the pool of the playback is connected. -/
  pbVenc : Int
  /-- The frames to wait until it is connected. -/
  pbVct : Int

namespace PlaybackChannel

/-- `init_playback_parm`, and what the thread sets before its loop. -/
def init (pbVct : Int) : PlaybackChannel := ⟨-1, -1, 0, pbVct⟩

def source (channel : PlaybackChannel) : Source :=
  if channel.playbackFlag < 0 then .live else .playback

/-- The thread connects the pool of the playback once. -/
def connect (channel : PlaybackChannel) : PlaybackChannel :=
  if channel.pbVct = 0 ∧ channel.pbVenc = 0 then { channel with pbVenc := -1 } else channel

/-- A frame came in sequence. -/
def countDown (channel : PlaybackChannel) : PlaybackChannel :=
  if 0 < channel.pbVct then { channel with pbVct := channel.pbVct - 1 } else channel

theorem source_congr {channel other : PlaybackChannel}
    (same : channel.playbackFlag = other.playbackFlag) : channel.source = other.source := by
  unfold source
  rw [same]

@[simp]
theorem connect_playbackFlag (channel : PlaybackChannel) :
    channel.connect.playbackFlag = channel.playbackFlag := by
  unfold connect
  split <;> rfl

@[simp]
theorem countDown_playbackFlag (channel : PlaybackChannel) :
    channel.countDown.playbackFlag = channel.playbackFlag := by
  unfold countDown
  split <;> rfl

end PlaybackChannel

/-! ### The viewers -/

/-- A video frame that was sent. -/
structure SentFrame where
  source : Source
  flag : FrameType
deriving DecidableEq

/-- A viewer with the video frames that were sent to it, latest first. -/
structure Watcher where
  stream : Stream
  sent : List SentFrame

namespace Watcher

def start (subscription : Subscription) : Watcher := ⟨.start subscription, []⟩

/-- The encoder the viewer is subscribed to. -/
def vencNo (watcher : Watcher) : Int := watcher.stream.usr.vencNo

/-- What was sent after a frame came for the viewer. -/
def record (watcher : Watcher) (source : Source) (sending : Sending) : List SentFrame :=
  match watcher.stream.fate sending with
  | .wrote _ => if sending.frame.video then ⟨source, sending.frame.flag⟩ :: watcher.sent
      else watcher.sent
  | _ => watcher.sent

/-- The viewer is offered the frame if it takes it. -/
def serve (watcher : Watcher) (no : Int) (source : Source) (sending : Sending) : Watcher :=
  if watcher.stream.takes no sending.frame.video then
    ⟨watcher.stream.send sending, watcher.record source sending⟩
  else watcher

/-- The viewer is to wait for an I frame. -/
def restart (watcher : Watcher) : Watcher :=
  { watcher with stream.usr.info.firstFlag := true }

end Watcher

/-- The image server, with its list of viewers. -/
structure PlaybackServer where
  channels : Fin maxVideoEncoder → PlaybackChannel
  watchers : List Watcher

/-- What happens to the server. -/
inductive PlaybackEvent where
  | en (no : Fin maxVideoEncoder)
  /-- The number is compared with those of the viewers only, and is any number. -/
  | cancel (no : Int)
  | toLive (no : Fin maxVideoEncoder)
  /-- A round of the thread of a channel, with what it reads from either pool. -/
  | round (no : Fin maxVideoEncoder) (live playback : VideoRead) (conditions : Nat → Conditions)
  /-- The thread for the audio of a channel passes a frame on. -/
  | audio (no : Fin maxVideoEncoder) (frame : MediaFrame) (sound : frame.video = false)
      (seq : BitVec 32) (conditions : Nat → Conditions)
  /-- A viewer takes a slot of the list. -/
  | join (slot : Nat) (subscription : Subscription)

namespace PlaybackServer

def start (pbVct : Fin maxVideoEncoder → Int) (subscriptions : List Subscription) :
    PlaybackServer :=
  ⟨fun no => .init (pbVct no), subscriptions.map .start⟩

def setChannel (server : PlaybackServer) (no : Fin maxVideoEncoder) (channel : PlaybackChannel) :
    PlaybackServer :=
  { server with channels := Function.update server.channels no channel }

/-- The first slot of a viewer of the channel, the number of slots when there is none. -/
def firstSlot (server : PlaybackServer) (no : Int) : Nat :=
  server.watchers.findIdx fun watcher => watcher.vencNo = no

/-- The loop over the viewers that all three functions end with: it stops at the first one. -/
def restartFirst (server : PlaybackServer) (no : Int) : PlaybackServer :=
  { server with watchers := server.watchers.modify (server.firstSlot no) Watcher.restart }

/-- `mutichannel_set_playback_en`. -/
def mutichannelSetPlaybackEn (server : PlaybackServer) (no : Fin maxVideoEncoder) :
    PlaybackServer :=
  let channel := server.channels no
  if channel.playbackFlag < 0 then
    if channel.pbVenc = -1 then
      (server.setChannel no { channel with playbackFlag := no }).restartFirst no
    else server
  else server

/-- `mutichannel_set_playback_cancel`. The flags of all channels are set. -/
def mutichannelSetPlaybackCancel (server : PlaybackServer) (no : Int) : PlaybackServer :=
  { server with
    channels := fun other => { server.channels other with playbackFlag := -1 } }.restartFirst no

/-- `mutichannel_set_playback_to_live`. -/
def mutichannelSetPlaybackToLive (server : PlaybackServer) (no : Fin maxVideoEncoder) :
    PlaybackServer :=
  (server.setChannel no { server.channels no with playbackFlag := -2 }).restartFirst no

/-- `send_media_frames`. The viewers of the frame ask for the state of its channel. -/
def sendMediaFrames (server : PlaybackServer) (no : Fin maxVideoEncoder) (source : Source)
    (frame : MediaFrame) (seq : BitVec 32) (conditions : Nat → Conditions) : PlaybackServer :=
  { server with
    watchers := server.watchers.mapIdx fun slot watcher =>
      watcher.serve no source ⟨frame, seq,
        { conditions slot with playbackStat := (server.channels no).playbackFlag }⟩ }

/-- The viewers are served as by the thread of one encoder, whatever the pool is. -/
theorem sendMediaFrames_streams (server : PlaybackServer) (no : Fin maxVideoEncoder)
    (source : Source) (frame : MediaFrame) (seq : BitVec 32) (conditions : Nat → Conditions) :
    (server.sendMediaFrames no source frame seq conditions).watchers.map Watcher.stream =
      (Rtimage.sendMediaFrames no frame seq
        (fun slot =>
          { conditions slot with playbackStat := (server.channels no).playbackFlag })
        (server.watchers.map Watcher.stream)).1 := by
  unfold sendMediaFrames Rtimage.sendMediaFrames
  dsimp only
  refine List.ext_getElem (by simp only [List.length_map, List.length_mapIdx]) fun slot _ _ => ?_
  simp only [List.getElem_map, List.getElem_mapIdx]
  unfold Watcher.serve Stream.serve
  dsimp only
  split <;> rfl

/-- A round of `venc_server_thread`. Both pools are read, the live one decides whether
something is sent, and the flag of the channel decides what. -/
def round (server : PlaybackServer) (no : Fin maxVideoEncoder) (live playback : VideoRead)
    (conditions : Nat → Conditions) : PlaybackServer :=
  let channel := (server.channels no).connect
  let numbered := { channel with oldSeq := live.seq }
  if channel.oldSeq + 1 = live.seq then
    let server := server.setChannel no numbered.countDown
    if 0 ≤ live.ret then
      if channel.playbackFlag < 0 then
        server.sendMediaFrames no .live live.frame live.seq conditions
      else if channel.playbackFlag = no then
        server.sendMediaFrames no .playback playback.frame playback.seq conditions
      else server
    else server
  else server.setChannel no numbered

def step (server : PlaybackServer) : PlaybackEvent → PlaybackServer
  | .en no => server.mutichannelSetPlaybackEn no
  | .cancel no => server.mutichannelSetPlaybackCancel no
  | .toLive no => server.mutichannelSetPlaybackToLive no
  | .round no live playback conditions => server.round no live playback conditions
  | .audio no frame _ seq conditions =>
    server.sendMediaFrames no (server.channels no).source frame seq conditions
  | .join slot subscription =>
    { server with watchers := server.watchers.set slot (.start subscription) }

end PlaybackServer

/-! ### When a switch reaches every viewer -/

namespace PlaybackServer

/-- The event changes the pool of the channel. -/
def Changes (server : PlaybackServer) : PlaybackEvent → Fin maxVideoEncoder → Prop
  | .en no, other =>
    other = no ∧ (server.channels other).playbackFlag < 0 ∧ (server.channels other).pbVenc = -1
  | .cancel _, other => 0 ≤ (server.channels other).playbackFlag
  | .toLive no, other => other = no ∧ 0 ≤ (server.channels other).playbackFlag
  | _, _ => False

end PlaybackServer

/-- The channel a call is made for. -/
def PlaybackEvent.named : PlaybackEvent → Option Int
  | .en no => some no
  | .cancel no => some no
  | .toLive no => some no
  | _ => none

/-- Whether a P frame would be sent to the viewer if there is room. -/
def Watcher.ready (watcher : Watcher) : Bool :=
  watcher.stream.usr.info.sendIFlag && !watcher.stream.usr.waiting

namespace PlaybackServer

/-- Each viewer of a channel whose pool the event changes refuses a P frame already, or its head
was sent and it is the first viewer of the channel the call is made for. -/
def Reached (server : PlaybackServer) (event : PlaybackEvent) : Prop :=
  ∀ (slot : Fin server.watchers.length) (no : Fin maxVideoEncoder),
    (server.watchers.get slot).vencNo = no → server.Changes event no →
      (server.watchers.get slot).ready = false ∨
        event.named = some (no : Int) ∧ server.firstSlot no = slot ∧
          (server.watchers.get slot).stream.usr.info.sendAckFlag = true

instance (server : PlaybackServer) (event : PlaybackEvent) (no : Fin maxVideoEncoder) :
    Decidable (server.Changes event no) :=
  match event with
  | .en _ => inferInstanceAs (Decidable (_ ∧ _ ∧ _))
  | .cancel _ => inferInstanceAs (Decidable (0 ≤ _))
  | .toLive _ => inferInstanceAs (Decidable (_ ∧ _))
  | .round .. => inferInstanceAs (Decidable False)
  | .audio .. => inferInstanceAs (Decidable False)
  | .join .. => inferInstanceAs (Decidable False)

instance (server : PlaybackServer) (event : PlaybackEvent) : Decidable (server.Reached event) :=
  inferInstanceAs (Decidable (∀ (_ : Fin server.watchers.length) (_ : Fin maxVideoEncoder),
    _ → _ → _ ∨ _))

end PlaybackServer

/-- Where the pool changed, the first frame from the new one is an I frame. -/
def KeyedSwitches (sent : List SentFrame) : Prop :=
  ∀ frame before earlier, frame :: before :: earlier <:+ sent → frame.source ≠ before.source →
    frame.flag = .i

/-! ### What a viewer is left with -/

namespace AvUsr

/-- A viewer stays with its encoder unless it is let go. -/
theorem sendFrame_vencNo (frame : MediaFrame) (seq : BitVec 32) (conditions : Conditions)
    (usr : AvUsr) :
    (usr.sendFrame frame seq conditions).1.vencNo = usr.vencNo ∨
      (usr.sendFrame frame seq conditions).1.vencNo = -1 := by
  obtain ⟨checked, untouched, outcome⟩ := sendFrame_cases frame seq conditions usr
  have same : checked.vencNo = usr.vencNo := congrArg Prod.snd untouched
  rcases outcome with dropped | ⟨-, wrote⟩
  · rw [dropped]
    exact .inl same
  · rw [wrote]
    unfold write
    dsimp only
    split
    · exact .inl same
    split
    · exact .inr rfl
    · exact .inl same

theorem sendMediaFrame2usr_vencNo (frame : MediaFrame) (seq : BitVec 32) (conditions : Conditions)
    (usr : AvUsr) :
    (usr.sendMediaFrame2usr frame seq conditions).1.vencNo = usr.vencNo ∨
      (usr.sendMediaFrame2usr frame seq conditions).1.vencNo = -1 := by
  have first : (usr.checkFirst frame.flag conditions).1.vencNo = usr.vencNo :=
    congrArg Prod.snd (checkFirst_untouched frame.flag conditions usr)
  unfold sendMediaFrame2usr
  dsimp only
  split
  · split
    · rw [← first]
      exact sendFrame_vencNo _ _ _ _
    · exact .inl first
  split
  · split
    · exact .inl rfl
    · exact sendFrame_vencNo _ _ _ _
  · exact .inl rfl

end AvUsr

theorem keyedSwitches_nil : KeyedSwitches [] := by
  intro frame before earlier later
  cases List.suffix_nil.mp later

theorem KeyedSwitches.cons {sent : List SentFrame} {frame : SentFrame}
    (keyed : KeyedSwitches sent)
    (fits : frame.flag = .i ∨ (sent.head?.map SentFrame.source) = some frame.source) :
    KeyedSwitches (frame :: sent) := by
  intro other before earlier later differs
  rcases List.suffix_cons_iff.mp later with same | later
  · cases same
    refine fits.resolve_right fun last => differs ?_
    exact (Option.some.inj last).symm
  · exact keyed other before earlier later differs

namespace Watcher

theorem record_of_audio {watcher : Watcher} {source : Source} {sending : Sending}
    (sound : sending.frame.video = false) : watcher.record source sending = watcher.sent := by
  unfold record
  split
  · rw [if_neg (Bool.eq_false_iff.mp sound)]
  · rfl

theorem record_of_idle {watcher : Watcher} {source : Source} {sending : Sending}
    (idle : watcher.stream.fate sending = .acked ∨ watcher.stream.fate sending = .dropped) :
    watcher.record source sending = watcher.sent := by
  unfold record
  rcases idle with acked | dropped
  · rw [acked]
  · rw [dropped]

theorem record_of_wrote {watcher : Watcher} {source : Source} {sending : Sending} {ret : Int}
    (video : sending.frame.video = true) (wrote : watcher.stream.fate sending = .wrote ret) :
    watcher.record source sending = ⟨source, sending.frame.flag⟩ :: watcher.sent := by
  unfold record
  rw [wrote]
  exact if_pos video

/-- A viewer that watches a channel after a call watched it before. -/
theorem vencNo_of_send (watcher : Watcher) (sending : Sending) (no : Fin maxVideoEncoder)
    (here : (watcher.stream.send sending).usr.vencNo = no) : watcher.vencNo = no := by
  rcases AvUsr.sendMediaFrame2usr_vencNo sending.frame sending.seq sending.conditions
    watcher.stream.usr with kept | gone
  · exact kept.symm.trans here
  · have negative : (-1 : Int) = no := gone.symm.trans here
    omega

/-- The pool of the last video frame that was sent. -/
def lastSource (watcher : Watcher) : Option Source := watcher.sent.head?.map SentFrame.source

/-- What holds of a viewer between two events: one that would be sent a P frame was sent its
last frame from the pool its channel is taken from. -/
structure InStep (source : Fin maxVideoEncoder → Source) (watcher : Watcher) : Prop where
  calm : watcher.stream.usr.Calm
  keyed : KeyedSwitches watcher.sent
  current : ∀ no : Fin maxVideoEncoder, watcher.vencNo = no → watcher.ready = true →
    watcher.lastSource = some (source no)

theorem inStep_start (source : Fin maxVideoEncoder → Source) (subscription : Subscription) :
    (start subscription).InStep source where
  calm dropping := by cases dropping
  keyed := keyedSwitches_nil
  current _ _ ready := by cases ready

namespace InStep

variable {source : Fin maxVideoEncoder → Source} {watcher : Watcher}

/-- A video frame was sent: an I frame, or one to a viewer that was in step before. -/
theorem of_sent {after : Watcher} {no : Fin maxVideoEncoder} {flag : FrameType}
    (inStep : watcher.InStep source) (calm : after.stream.usr.Calm)
    (sent : after.sent = ⟨source no, flag⟩ :: watcher.sent) (here : watcher.vencNo = no)
    (stays : ∀ other : Fin maxVideoEncoder, after.vencNo = other → watcher.vencNo = other)
    (needed : flag = .i ∨ watcher.ready = true) : after.InStep source := by
  refine ⟨calm, ?_, fun other same _ => ?_⟩
  · rw [sent]
    refine inStep.keyed.cons (needed.imp_right fun ready => ?_)
    exact inStep.current no here ready
  · have same : (no : Int) = (other : Int) := here.symm.trans (stays other same)
    have same : no = other := Fin.ext (Int.ofNat.inj same)
    unfold lastSource
    rw [sent, same]
    rfl

/-- A frame of the pool the channel is taken from is offered. -/
theorem serve (inStep : watcher.InStep source) (no : Fin maxVideoEncoder) (sending : Sending) :
    (watcher.serve no (source no) sending).InStep source := by
  unfold Watcher.serve
  split
  · rename_i takes
    have here : watcher.vencNo = no := by
      unfold Stream.takes at takes
      simp only [Bool.and_eq_true, decide_eq_true_eq] at takes
      exact takes.1.2.symm
    obtain ⟨calm, sends⟩ := AvUsr.sendMediaFrame2usr_sends inStep.calm sending.frame sending.seq
      sending.conditions
    have sends : AvUsr.Sends sending.frame watcher.stream.usr (watcher.stream.send sending).usr
      (watcher.stream.fate sending) := sends
    have calm : (watcher.stream.send sending).usr.Calm := calm
    have stays := vencNo_of_send watcher sending
    generalize outcome : watcher.stream.fate sending = fate at sends
    cases sends with
    | audio _ sound waiting sendIFlag =>
      rw [record_of_audio sound]
      refine ⟨calm, inStep.keyed, fun other same ready => ?_⟩
      unfold Watcher.ready at ready
      dsimp only at ready
      rw [waiting, sendIFlag] at ready
      exact inStep.current other (stays other same) ready
    | held _ video idle waits =>
      rw [record_of_idle (by rw [outcome]; exact idle)]
      refine ⟨calm, inStep.keyed, fun other same ready => ?_⟩
      unfold Watcher.ready at ready
      dsimp only at ready
      rw [waits, Bool.not_true, Bool.and_false] at ready
      cases ready
    | dropped video clear =>
      rw [record_of_idle (.inr outcome)]
      refine ⟨calm, inStep.keyed, fun other same ready => ?_⟩
      unfold Watcher.ready at ready
      dsimp only at ready
      rw [clear, Bool.false_and] at ready
      cases ready
    | wrote ret video needed =>
      rw [record_of_wrote video outcome]
      refine inStep.of_sent calm rfl here stays (needed.imp_right fun set => ?_)
      unfold Watcher.ready
      rw [set.1, set.2]
      rfl
  · exact inStep

/-- The pools of other channels change, or the viewer would refuse a P frame. -/
theorem switch {other : Fin maxVideoEncoder → Source} (inStep : watcher.InStep source)
    (kept : ∀ no : Fin maxVideoEncoder, watcher.vencNo = no → watcher.ready = true →
      other no = source no) : watcher.InStep other where
  calm := inStep.calm
  keyed := inStep.keyed
  current no here ready := by
    rw [kept no here ready]
    exact inStep.current no here ready

/-- A viewer that is to wait for an I frame would be sent a P frame only if its head was not
sent, and then it would have been before. -/
theorem ready_of_restart (watcher : Watcher) (ready : watcher.restart.ready = true) :
    watcher.ready = true ∧ watcher.stream.usr.info.sendAckFlag = false := by
  have flags := Bool.and_eq_true_iff.mp ready
  have unacked : watcher.stream.usr.info.sendAckFlag = false := by
    have begun := flags.2
    unfold restart AvUsr.waiting at begun
    dsimp only at begun
    rw [Bool.and_true, Bool.not_eq_true'] at begun
    exact begun
  refine ⟨Bool.and_eq_true_iff.mpr ⟨flags.1, ?_⟩, unacked⟩
  unfold AvUsr.waiting
  rw [unacked]
  rfl

theorem restart (inStep : watcher.InStep source) : watcher.restart.InStep source where
  calm := inStep.calm
  keyed := inStep.keyed
  current no here ready := inStep.current no here (ready_of_restart watcher ready).1

end InStep

end Watcher

/-! ### Whole runs -/

namespace PlaybackServer

def source (server : PlaybackServer) (no : Fin maxVideoEncoder) : Source :=
  (server.channels no).source

/-- Every viewer is in step with its channel. -/
def Sound (server : PlaybackServer) : Prop :=
  ∀ watcher ∈ server.watchers, watcher.InStep server.source

theorem sound_start (pbVct : Fin maxVideoEncoder → Int) (subscriptions : List Subscription) :
    (start pbVct subscriptions).Sound := by
  intro watcher member
  obtain ⟨subscription, -, rfl⟩ := List.mem_map.mp member
  exact Watcher.inStep_start _ subscription

namespace Sound

variable {server : PlaybackServer}

/-- Nothing is sent, and the flag of no channel changes. -/
theorem of_kept (sound : server.Sound) {after : PlaybackServer}
    (source : after.source = server.source) (watchers : after.watchers = server.watchers) :
    after.Sound := by
  intro watcher member
  rw [watchers] at member
  rw [source]
  exact sound watcher member

/-- A channel is changed in other respects. -/
theorem setChannel (sound : server.Sound) {no : Fin maxVideoEncoder} {channel : PlaybackChannel}
    (same : channel.playbackFlag = (server.channels no).playbackFlag) :
    (server.setChannel no channel).Sound := by
  refine sound.of_kept (funext fun other => ?_) rfl
  unfold PlaybackServer.source PlaybackServer.setChannel
  dsimp only
  by_cases here : other = no
  · rw [here, Function.update_self]
    exact PlaybackChannel.source_congr same
  · rw [Function.update_of_ne here]

theorem sendMediaFrames (sound : server.Sound) (no : Fin maxVideoEncoder) (frame : MediaFrame)
    (seq : BitVec 32) (conditions : Nat → Conditions) :
    (server.sendMediaFrames no (server.source no) frame seq conditions).Sound := by
  intro watcher member
  obtain ⟨slot, bound, rfl⟩ := List.mem_mapIdx.mp member
  exact (sound _ (List.getElem_mem bound)).serve no _

theorem round (sound : server.Sound) (no : Fin maxVideoEncoder) (live playback : VideoRead)
    (conditions : Nat → Conditions) : (server.round no live playback conditions).Sound := by
  have numbered : (server.setChannel no
      { (server.channels no).connect with oldSeq := live.seq }).Sound :=
    sound.setChannel (PlaybackChannel.connect_playbackFlag _)
  have counted : (server.setChannel no
      { (server.channels no).connect with oldSeq := live.seq }.countDown).Sound :=
    sound.setChannel (by simp)
  have source : (server.setChannel no
      { (server.channels no).connect with oldSeq := live.seq }.countDown).source no =
        if (server.channels no).connect.playbackFlag < 0 then .live else .playback := by
    unfold PlaybackServer.source PlaybackServer.setChannel
    dsimp only
    rw [Function.update_self]
    exact PlaybackChannel.source_congr (PlaybackChannel.countDown_playbackFlag _)
  unfold PlaybackServer.round
  dsimp only
  split
  · split
    · split
      · rename_i negative
        rw [if_pos negative] at source
        rw [← source]
        exact counted.sendMediaFrames no _ _ _
      · rename_i running
        rw [if_neg running] at source
        split
        · rw [← source]
          exact counted.sendMediaFrames no _ _ _
        · exact counted
    · exact counted
  · exact numbered

/-- The channels are switched, and the loop over the viewers reaches all that it has to. -/
theorem restartFirst (sound : server.Sound) {event : PlaybackEvent} {no : Int}
    {channels : Fin maxVideoEncoder → PlaybackChannel} (named : event.named = some no)
    (reached : server.Reached event)
    (changes : ∀ other, (channels other).source ≠ server.source other →
      server.Changes event other) :
    ({ server with channels }.restartFirst no).Sound := by
  intro watcher member
  obtain ⟨slot, bound, rfl⟩ := List.mem_iff_getElem.mp member
  unfold PlaybackServer.restartFirst at bound ⊢
  dsimp only at bound ⊢
  have below : slot < server.watchers.length := by
    rw [List.length_modify] at bound
    exact bound
  have inStep := sound _ (List.getElem_mem below)
  have found := reached ⟨slot, below⟩
  rw [List.getElem_modify]
  split
  · refine inStep.restart.switch fun other here ready => ?_
    obtain ⟨ready, unacked⟩ := Watcher.InStep.ready_of_restart _ ready
    by_contra differs
    rcases found other here (changes other differs) with refuses | ⟨-, -, acked⟩
    · cases refuses.symm.trans ready
    · cases acked.symm.trans unacked
  · rename_i later
    refine inStep.switch fun other here ready => ?_
    by_contra differs
    rcases found other here (changes other differs) with refuses | ⟨same, first, -⟩
    · cases refuses.symm.trans ready
    · have same : no = other := Option.some.inj (named.symm.trans same)
      rw [same] at later
      exact later first

theorem en (sound : server.Sound) (no : Fin maxVideoEncoder) (reached : server.Reached (.en no)) :
    (server.mutichannelSetPlaybackEn no).Sound := by
  unfold mutichannelSetPlaybackEn
  dsimp only
  split
  · rename_i negative
    split
    · rename_i connected
      refine sound.restartFirst rfl reached fun other differs => ?_
      by_cases here : other = no
      · rw [here]
        exact ⟨rfl, negative, connected⟩
      · refine absurd ?_ differs
        rw [Function.update_of_ne here]
        rfl
    · exact sound
  · exact sound

theorem cancel (sound : server.Sound) (no : Int) (reached : server.Reached (.cancel no)) :
    (server.mutichannelSetPlaybackCancel no).Sound := by
  refine sound.restartFirst rfl reached fun other differs => ?_
  by_contra negative
  refine differs ?_
  unfold PlaybackServer.source PlaybackChannel.source
  dsimp only
  rw [if_pos (by decide), if_pos (Int.not_le.mp negative)]

theorem toLive (sound : server.Sound) (no : Fin maxVideoEncoder)
    (reached : server.Reached (.toLive no)) : (server.mutichannelSetPlaybackToLive no).Sound := by
  refine sound.restartFirst rfl reached fun other differs => ?_
  by_cases here : other = no
  · refine ⟨here, ?_⟩
    by_contra negative
    refine differs ?_
    rw [here] at negative ⊢
    unfold PlaybackServer.source PlaybackChannel.source
    rw [Function.update_self, if_pos (Int.not_le.mp negative)]
    exact if_pos (by decide : (-2 : Int) < 0)
  · refine absurd ?_ differs
    rw [Function.update_of_ne here]
    rfl

theorem step {event : PlaybackEvent} (sound : server.Sound) (reached : server.Reached event) :
    (server.step event).Sound := by
  cases event with
  | en no => exact sound.en no reached
  | cancel no => exact sound.cancel no reached
  | toLive no => exact sound.toLive no reached
  | round no live playback conditions => exact sound.round no live playback conditions
  | audio no frame silent seq conditions => exact sound.sendMediaFrames no frame seq conditions
  | join slot subscription =>
    intro watcher member
    rcases List.mem_or_eq_of_mem_set member with member | rfl
    · exact sound watcher member
    · exact Watcher.inStep_start _ subscription

end Sound

end PlaybackServer

/-- In every run in which each switch reaches the viewers it has to, the first video frame a
viewer is sent from another pool than before is an I frame. -/
theorem switches_at_key_frames {pbVct : Fin maxVideoEncoder → Int}
    {subscriptions : List Subscription} {events : List PlaybackEvent} {server : PlaybackServer}
    (run : Runs (fun before event after => before.step event = after ∧ before.Reached event)
      (.start pbVct subscriptions) events server) :
    ∀ watcher ∈ server.watchers, KeyedSwitches watcher.sent := by
  have sound := run.invariant (PlaybackServer.sound_start pbVct subscriptions)
    fun before event after taken sound => by
      obtain ⟨rfl, reached⟩ := taken
      exact sound.step reached
  exact fun watcher member => (sound watcher member).keyed

def firstChannel : Fin maxVideoEncoder := ⟨0, by decide⟩

/-- Both pools bring a frame, the live one the frame with this number. -/
def poolRound (live playback : MediaFrame) (shown : live.video = true ∧ playback.video = true)
    (seq : BitVec 32) : PlaybackEvent :=
  .round firstChannel ⟨0, live, seq, shown.1⟩ ⟨0, playback, seq, shown.2⟩ fun _ => openSocket

/-- The head and an I frame are sent. In the third round the pool of the playback is connected,
and the playback begins. -/
def playbackBegins : List PlaybackEvent :=
  [poolRound keyFrame keyFrame ⟨rfl, rfl⟩ 0, poolRound keyFrame keyFrame ⟨rfl, rfl⟩ 1,
    poolRound deltaFrame deltaFrame ⟨rfl, rfl⟩ 2, .en firstChannel,
    poolRound deltaFrame deltaFrame ⟨rfl, rfl⟩ 3]

/-- The only viewer is not sent the P frame of the playback, but the I frame behind it. -/
theorem switches_at_key_frames_single :
    ∃ server, Runs (fun before event after => before.step event = after ∧ before.Reached event)
      (PlaybackServer.start (fun _ => 2) [someViewer])
      (playbackBegins ++ [poolRound deltaFrame keyFrame ⟨rfl, rfl⟩ 4]) server ∧
      ∃ watcher ∈ server.watchers,
        watcher.sent = [⟨.playback, .i⟩, ⟨.live, .p⟩, ⟨.live, .i⟩] ∧
            KeyedSwitches watcher.sent := by
  have evaluated : ((playbackBegins ++ [poolRound deltaFrame keyFrame ⟨rfl, rfl⟩ 4]).foldlM
      (fun (before : PlaybackServer) event =>
        if before.Reached event then some (before.step event) else none)
      (.start (fun _ => 2) [someViewer])).any (fun server => server.watchers.any fun watcher =>
        watcher.sent = [⟨.playback, .i⟩, ⟨.live, .p⟩, ⟨.live, .i⟩]) = true := by
    decide +kernel
  obtain ⟨server, run, found⟩ := Runs.of_any_guarded evaluated
  have run := run.weaken fun before event after taken =>
    (⟨Option.some.inj taken.1, taken.2⟩ : before.step event = after ∧ before.Reached event)
  obtain ⟨watcher, member, sent⟩ := List.any_eq_true.mp found
  exact ⟨server, run, watcher, member, of_decide_eq_true sent,
    switches_at_key_frames run watcher member⟩

/-- A second viewer of the channel is sent the P frame of the playback. -/
theorem second_viewer_missed :
    ¬∀ (pbVct : Fin maxVideoEncoder → Int) (subscriptions : List Subscription)
      (events : List PlaybackEvent) (server : PlaybackServer),
      Runs (fun before event after => before.step event = after)
        (PlaybackServer.start pbVct subscriptions) events server →
      ∀ watcher ∈ server.watchers, KeyedSwitches watcher.sent := by
  intro claimed
  have keyed := claimed (fun _ => 2) [someViewer, someViewer] playbackBegins _ (.of_foldl _ _) _
    (.tail _ (.head _))
  have intra := keyed ⟨.playback, .p⟩ ⟨.live, .p⟩ [⟨.live, .i⟩]
    (by decide +kernel) (by decide)
  cases intra

end ExmOnvif.Rtimage
