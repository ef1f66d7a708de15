/-
This file compares the blocks a group can take with the blocks that are kept free for it.

`LEAVE_BLOCKS` comes from an estimate of the bit rate. What a group can take follows from the
buffers the producers fill: each of the four channels has one for video and one for audio,
and together they are larger than the estimate. A group stays below it exactly when the
frames the channels have gathered, each with its header and each collection rounded up to
whole blocks, take no more than 9215 blocks; so it does whenever a channel has no video.
-/

import ExmOnvif.Recorder.MediaBlocks
import ExmOnvif.Recorder.Writer

namespace ExmOnvif.Recorder

/-! ### What the producers hand over -/

/-- The buffer of a video collection of `read_pool_proc`. -/
def videoBuffer : UInt32 := 1224 * 1024

/-- The buffer of an audio collection. -/
def audioBuffer : UInt32 := 128 * 1024

/-- What a channel has been handed for the collections at the heads of its two queues. -/
structure Offered where
  video : Option (List Frame)
  audio : Option (List Frame)

/-- The size of the collection that is gathered of frames. -/
def gatheredSize (uBufSize : UInt32) (media : Media) (frames : List Frame) : Option Nat :=
  match MultMediaBlocks.collect uBufSize media frames with
  | .error _ => none
  | .ok (_, blocks) => (MultMediaBlocks.getBuffSize blocks).toOption

/-- The queues as `read_pool_proc` fills them. -/
def Offered.channel (offered : Offered) : Channel where
  video := offered.video.bind (gatheredSize videoBuffer .video)
  audio := offered.audio.bind (gatheredSize audioBuffer .audio)

/-- The queues hold what `read_pool_proc` has gathered of the frames. -/
def Input.FromPool (input : Input) (offered : Fin maxChannel → Offered) : Prop :=
  ∀ index, input.channels index = (offered index).channel

/-! ### What a group takes -/

/-- The writes of a group at the position of the writer, newest first. -/
def Writer.groupWrites (w : Writer) (input : Input) : List Event :=
  .wrote ⟨w.seek, 1, .head (input.headBlock w.seek), input.io w.seek 1⟩ ::
    channelsWrites input.io (w.seek + 1) input.group

theorem Writer.layGroup_trace (w : Writer) (input : Input) :
    (w.layGroup input).trace = w.groupWrites input ++ w.trace := rfl

/-- A group takes no more than `LEAVE_BLOCKS`, and stays on the disk wherever so many blocks
are left behind the position that the disk-full test passed or set. -/
structure Input.Reserved (input : Input) : Prop where
  small : input.groupBlocks ≤ leaveBlocks
  inside : ∀ w placed : Writer, w.placed input = some placed →
    placed.seek + leaveBlocks ≤ placed.hdSize → ∀ write, .wrote write ∈ placed.groupWrites input →
      write.seek + write.blocks ≤ placed.hdSize

/-- The bytes of the frames that go into a room, one after the other, each with its header. A frame
that does not fit is left out, and what follows it may still fit. -/
def keptBytes : Nat → List Frame → Nat
  | _, [] => 0
  | room, frame :: frames =>
    if sizeofMediaBlock + frame.size ≤ room then
      sizeofMediaBlock + frame.size + keptBytes (room - (sizeofMediaBlock + frame.size)) frames
    else keptBytes room frames

/-- The blocks that frames take in a buffer, with the two headers in front of them. -/
def framesBlocks (uBufSize : UInt32) (frames : List Frame) : Nat :=
  (36 + keptBytes (uBufSize.toNat - 36) frames + 511) / 512

/-- The blocks of a channel; without a video its audio is not looked at. -/
def Offered.blocks (offered : Offered) : Nat :=
  match offered.video with
  | none => 0
  | some video => framesBlocks videoBuffer video + offered.audio.elim 0 (framesBlocks audioBuffer)

/-! ### The sizes of collections -/

/-- A room takes no more than it has. -/
theorem keptBytes_le (room : Nat) (frames : List Frame) : keptBytes room frames ≤ room := by
  induction frames generalizing room with
  | nil => exact Nat.zero_le room
  | cons frame frames inductionHypothesis =>
    rw [keptBytes]
    split
    · have := inductionHypothesis (room - (sizeofMediaBlock + frame.size))
      omega
    · exact inductionHypothesis room

/-- The frames that are accepted are those that fit into what is left of the buffer. -/
theorem MultMediaBlocks.addAll_keptBytes {media : Media} {blocks after : Blocks}
    {frames more accepted : List Frame} (holds : blocks.Holds frames)
    (room : mb + sizeofMediaBlock + framesSize frames ≤ blocks.uSize)
    (inside : blocks.uSize ≤ blocks.cBuff.capacity)
    (gathered : addAll media.frame blocks more = .ok (accepted, after)) :
    framesSize accepted =
      keptBytes (blocks.uSize - (mb + sizeofMediaBlock + framesSize frames)) more := by
  induction more generalizing blocks frames accepted with
  | nil =>
    cases gathered
    rfl
  | cons frame more inductionHypothesis =>
    have small : blocks.uSize < 2 ^ 32 := Nat.lt_of_le_of_lt inside holds.small
    have test := @refuses_iff _ _ frame (Nat.add_assoc mb _ _ ▸ room) small
    rw [addAll] at gathered
    by_cases refused : Refuses blocks.uSize (sizeofMediaBlock + framesSize frames) frame
    · have exceeds := test.mp refused
      rw [add_refused holds refused, ok_bind] at gathered
      obtain ⟨⟨others, last⟩, rest, same⟩ := bind_eq_ok gathered
      cases same
      have left : ¬sizeofMediaBlock + frame.size ≤
          blocks.uSize - (mb + sizeofMediaBlock + framesSize frames) := by
        have header : 0 < sizeofMediaBlock := by decide
        have place : mb = sizeofHdFrame := rfl
        omega
      rw [keptBytes, if_neg left]
      exact inductionHypothesis holds room inside rest
    · have fits := Nat.not_lt.mp (mt test.mpr refused)
      rw [← Nat.add_assoc] at fits
      obtain ⟨head, length, added⟩ := add_accepted holds refused (Nat.le_trans fits inside)
      have held := appended_holds holds length (Nat.le_trans fits inside)
      rw [added, ok_bind] at gathered
      obtain ⟨⟨others, last⟩, rest, same⟩ := bind_eq_ok gathered
      cases same
      have tail := inductionHypothesis held (by
        rw [framesSize_append]
        show _ ≤ blocks.uSize
        simp only [mb]
        omega) inside rest
      have taken : sizeofMediaBlock + frame.size ≤
          blocks.uSize - (mb + sizeofMediaBlock + framesSize frames) := by
        have place : mb = sizeofHdFrame := rfl
        omega
      have left : blocks.uSize - (mb + sizeofMediaBlock + framesSize (frames ++ [frame])) =
          blocks.uSize - (mb + sizeofMediaBlock + framesSize frames) -
            (sizeofMediaBlock + frame.size) := by
        rw [framesSize_append]
        omega
      rw [keptBytes, if_pos taken, ← left]
      exact congrArg (sizeofMediaBlock + frame.size + ·) tail

/-- The size of a collection: its header and the frames that fit behind the headers. -/
theorem gatheredSize_eq {uBufSize : UInt32} (media : Media) (frames : List Frame)
    (room : 36 ≤ uBufSize.toNat) (small : uBufSize.toNat + blocksize ≤ 2 ^ 32) :
    gatheredSize uBufSize media frames = some (16 + keptBytes (uBufSize.toNat - 36) frames) := by
  have positive : 0 < uBufSize.toNat := Nat.lt_of_lt_of_le (by decide) room
  obtain ⟨head, created, holds⟩ := MultMediaBlocks.create_holds media positive small
  obtain ⟨-, large, -⟩ := MultMediaBlocks.create_capacity media.collection positive small
  obtain ⟨accepted, blocks, gathered, kept, -⟩ :=
    @MultMediaBlocks.addAll_of_room _ _ media frames holds room large
  have bytes := MultMediaBlocks.addAll_keptBytes holds room large gathered
  unfold gatheredSize
  rw [MultMediaBlocks.collect, created, ok_bind, gathered]
  show (MultMediaBlocks.getBuffSize blocks).toOption = _
  rw [MultMediaBlocks.getBuffSize_eq kept, List.nil_append, bytes]
  rfl

/-- The blocks of a collection are those of its frames. -/
theorem mediaBlocks_gathered {uBufSize : UInt32} (frames : List Frame)
    (room : 36 ≤ uBufSize.toNat) (small : uBufSize.toNat + blocksize ≤ 2 ^ 32) :
    mediaBlocks (16 + keptBytes (uBufSize.toNat - 36) frames) =
      (framesBlocks uBufSize frames : Nat) := by
  have bound := keptBytes_le (uBufSize.toNat - 36) frames
  unfold mediaBlocks framesBlocks getBlockNum uint32
  simp only [sizeofHdFrame, blocksize] at *
  omega

theorem Offered.channel_blocks (offered : Offered) :
    offered.channel.blocks = (offered.blocks : Nat) := by
  have video (frames : List Frame) :=
    gatheredSize_eq .video frames (show 36 ≤ videoBuffer.toNat by decide) (by decide)
  have audio (frames : List Frame) :=
    gatheredSize_eq .audio frames (show 36 ≤ audioBuffer.toNat by decide) (by decide)
  have videoBlocks (frames : List Frame) :=
    @mediaBlocks_gathered videoBuffer frames (by decide) (by decide)
  have audioBlocks (frames : List Frame) :=
    @mediaBlocks_gathered audioBuffer frames (by decide) (by decide)
  obtain ⟨_ | frames, _ | others⟩ := offered
  · rfl
  · rfl
  · simp only [Offered.channel, Channel.blocks, Offered.blocks, Option.bind_some, Option.bind_none,
      video, videoBlocks, Option.elim_none]
    rfl
  · simp only [Offered.channel, Channel.blocks, Offered.blocks, Option.bind_some, video, audio,
      videoBlocks, audioBlocks, Option.elim_some]
    rfl

/-- The blocks of a group are those of the frames and the head. -/
theorem Input.groupBlocks_eq {input : Input} {offered : Fin maxChannel → Offered}
    (fromPool : input.FromPool offered) :
    input.groupBlocks = 1 + (((offered 0).blocks + (offered 1).blocks + (offered 2).blocks +
      (offered 3).blocks : Nat) : Int) := by
  have group : input.group = [(offered 0).channel, (offered 1).channel, (offered 2).channel,
      (offered 3).channel] := by
    rw [← fromPool 0, ← fromPool 1, ← fromPool 2, ← fromPool 3]
    rfl
  unfold Input.groupBlocks
  rw [group]
  simp only [channelsBlocks, Offered.channel_blocks]
  omega

/-- The writes of a group stay inside its blocks. -/
theorem Writer.groupWrites_inside {w : Writer} {input : Input} {write : Write}
    (written : .wrote write ∈ w.groupWrites input) :
    write.seek + write.blocks ≤ w.seek + input.groupBlocks := by
  have blocks := channelsBlocks_nonneg input.group
  unfold Input.groupBlocks
  rcases List.mem_cons.mp written with head | media
  · cases head
    dsimp only
    omega
  · obtain ⟨other, same, -, high⟩ := channelsWrites_inside input.io input.group _ _ media
    cases same
    omega

/-- A group that is not larger than what is reserved stays on the disk. -/
theorem Input.Reserved.of_small {input : Input} (small : input.groupBlocks ≤ leaveBlocks) :
    input.Reserved := by
  refine ⟨small, ?_⟩
  intro w placed _ room write written
  have inside := Writer.groupWrites_inside written
  omega

/-- What is reserved is enough for a group exactly when the frames of its channels, with their
headers and rounded up to whole blocks, take no more than 9215 blocks. -/
theorem space_reserved_iff {input : Input} {offered : Fin maxChannel → Offered}
    (fromPool : input.FromPool offered) :
    input.Reserved ↔ (offered 0).blocks + (offered 1).blocks + (offered 2).blocks +
      (offered 3).blocks ≤ 9215 := by
  have leave : leaveBlocks = 9216 := by decide
  have taken := Input.groupBlocks_eq fromPool
  constructor
  · intro reserved
    have small := reserved.small
    omega
  · intro few
    exact .of_small (by omega)

/-- A channel never takes more than its two buffers. -/
theorem Offered.blocks_le (offered : Offered) : offered.blocks ≤ 2704 := by
  have video (frames : List Frame) : framesBlocks videoBuffer frames ≤ 2448 := by
    have bound := keptBytes_le (videoBuffer.toNat - 36) frames
    have size : videoBuffer.toNat = 1253376 := by decide
    unfold framesBlocks
    omega
  have audio (frames : List Frame) : framesBlocks audioBuffer frames ≤ 256 := by
    have bound := keptBytes_le (audioBuffer.toNat - 36) frames
    have size : audioBuffer.toNat = 131072 := by decide
    unfold framesBlocks
    omega
  obtain ⟨_ | frames, _ | others⟩ := offered
  · exact Nat.zero_le _
  · exact Nat.zero_le _
  · have := video frames
    simp only [Offered.blocks, Option.elim_none]
    omega
  · have := video frames
    have := audio others
    simp only [Offered.blocks, Option.elim_some]
    omega

/-- As long as one channel has no video, what is reserved is enough. -/
theorem Input.Reserved.of_quiet_channel {input : Input} {offered : Fin maxChannel → Offered}
    (fromPool : input.FromPool offered) {quiet : Fin maxChannel}
    (none : (offered quiet).video = none) : input.Reserved := by
  have taken := Input.groupBlocks_eq fromPool
  have leave : leaveBlocks = 9216 := by decide
  have nothing : (offered quiet).blocks = 0 := by
    unfold Offered.blocks
    rw [none]
  have first := (offered 0).blocks_le
  have second := (offered 1).blocks_le
  have third := (offered 2).blocks_le
  have fourth := (offered 3).blocks_le
  have one : quiet = 0 ∨ quiet = 1 ∨ quiet = 2 ∨ quiet = 3 := by
    exact (by decide : ∀ index : Fin maxChannel, index = 0 ∨ index = 1 ∨ index = 2 ∨ index = 3)
      quiet
  refine .of_small ?_
  rcases one with rfl | rfl | rfl | rfl <;> omega

/-- A frame of 300000 bytes. -/
def largeFrame : Frame := ⟨List.replicate 300000 0, by rw [List.length_replicate]; decide⟩

/-- Large frames that fit are all taken. -/
theorem keptBytes_largeFrames {room count : Nat} (fits : 300016 * count ≤ room) :
    keptBytes room (List.replicate count largeFrame) = 300016 * count := by
  have bytes : largeFrame.size = 300000 := List.length_replicate
  have size : sizeofMediaBlock + largeFrame.size = 300016 := by
    rw [bytes]
    rfl
  induction count generalizing room with
  | zero => rfl
  | succ count inductionHypothesis =>
    rw [List.replicate_succ, keptBytes, size, if_pos (by omega), inductionHypothesis (by omega)]
    omega

/-- Every channel has been handed a number of large frames, and no sound. -/
def largeFrames (count : Nat) : Fin maxChannel → Offered :=
  fun _ => ⟨some (List.replicate count largeFrame), some []⟩

/-- An iteration that finds them. -/
def largeInput (count : Nat) : Input where
  now := 86400
  nowAgain := 86400
  channels := fun index => (largeFrames count index).channel
  io := fun _ _ => true

theorem largeFrames_blocks {count : Nat} (fits : count ≤ 4) (index : Fin maxChannel) :
    (largeFrames count index).blocks = (36 + 300016 * count + 511) / 512 + 1 := by
  have size : videoBuffer.toNat = 1253376 := by decide
  unfold largeFrames Offered.blocks framesBlocks
  dsimp only
  rw [keptBytes_largeFrames (by omega)]
  rfl

theorem largeInput_fromPool (count : Nat) : (largeInput count).FromPool (largeFrames count) :=
  fun _ => rfl

/-- Three large frames of each channel have room. -/
theorem space_reserved_iff_three : (largeInput 3).Reserved := by
  refine (space_reserved_iff (largeInput_fromPool 3)).mpr ?_
  simp only [largeFrames_blocks (show 3 ≤ 4 by decide)]
  decide

/-- Four of them take 9381 blocks of the 9216. -/
theorem reservation_exceeded :
    (largeInput 4).FromPool (largeFrames 4) ∧ ¬(largeInput 4).Reserved := by
  refine ⟨largeInput_fromPool 4, fun reserved => ?_⟩
  have small := reserved.small
  rw [Input.groupBlocks_eq (largeInput_fromPool 4)] at small
  simp only [largeFrames_blocks (le_refl 4)] at small
  exact absurd small (by decide)

end ExmOnvif.Recorder
