/-
This file follows the frames of one channel through a whole recording: gathered
into a video and an audio collection, written to the disk one behind the other, read
back with the sizes kept in the head block, and split into frames again by
`ReadDisk::readdataprocess`.

Writer and reader count the bytes separately, both in unsigned arithmetic. The
counts agree whenever the frames were gathered in bounds, and the round trip then
gives back the accepted frames; where a buffer is too small for its two headers, it
does so only as long as the frames stay inside its one block.
-/

import ExmOnvif.Recorder.SecBlocks

namespace ExmOnvif.Recorder

open Library

/-! ### The reading side -/

/-- `FrameQueue::push(buf, size, type)`: a copy of the bytes; an I frame is marked by the type
`noblock`. -/
def push (bytes : List UInt8) (isI : Bool) : Except Fault Blocks := do
  let fresh := Blocks.create bytes.length 0 (if isI then .noblock else .block)
  let buffer ← fresh.cBuff.put 0 bytes
  pure { fresh with cBuff := buffer }

/-- One of the two loops of `readdataprocess`, while a playback runs: `size` bytes are left at
`place`, and `isfirst` says whether the next frame is pushed as an I frame. Every turn reads a
header inside the buffer, so a loop that goes on after as many turns as the buffer has room for
headers has left it. -/
def splitFrames (buffer : Buffer) : Nat → Nat → Nat → Bool → Except Fault (List Blocks)
  | 0, _, size, _ => if size = 0 then pure [] else .error .outOfBounds
  | turns + 1, place, size, isfirst =>
    if size = 0 then pure []
    else do
      let length ← buffer.getWord (place + MultMediaBlocks.sizeField)
      let bytes ← buffer.get (place + sizeofMediaBlock) length
      let pushed ← push bytes isfirst
      let rest ← splitFrames buffer turns (place + sizeofMediaBlock + length)
        (uint32Sub (uint32Sub size length) sizeofMediaBlock) false
      pure (pushed :: rest)

/-- `ReadDisk::readdataprocess`: what it pushes onto `video_queue` and `audio_queue`. -/
def readdataprocess (video audio : Blocks) : Except Fault (List Blocks × List Blocks) := do
  let videoSize ← video.cBuff.getWord (MultMediaBlocks.mb + MultMediaBlocks.sizeField)
  let audioSize ← audio.cBuff.getWord (MultMediaBlocks.mb + MultMediaBlocks.sizeField)
  let videoQueue ← splitFrames video.cBuff (video.cBuff.capacity / sizeofMediaBlock)
    (MultMediaBlocks.mb + sizeofMediaBlock) (uint32Sub videoSize sizeofMediaBlock) true
  let audioQueue ← splitFrames audio.cBuff (audio.cBuff.capacity / sizeofMediaBlock)
    (MultMediaBlocks.mb + sizeofMediaBlock) (uint32Sub audioSize sizeofMediaBlock) false
  pure (videoQueue, audioQueue)

/-! ### One group, recorded and played -/

/-- A collection made ready for the disk and written at `seek`, as `writedata` does it: the
disk, the block count the position moves on by, and the size kept in the head block. -/
def writeCollection (collection : Blocks) (seek : Nat) (disk : Memory) :
    Except Fault (Memory × Nat × Nat) := do
  let size ← MultMediaBlocks.getBuffSize collection
  let blocks ← SecBlocks.ofMedia collection size
  let written ← SecBlocks.write blocks seek disk
  pure (written, blocks.uNumOfBlocks, uint32Sub blocks.uSize sizeofHdFrame)

/-- What comes of one group: the frames `add` accepted, and the queues after the playback. -/
structure RoundTrip where
  acceptedVideo : List Frame
  acceptedAudio : List Frame
  videoQueue : List Blocks
  audioQueue : List Blocks

/-- The frames of one channel gathered, written at `seek`, read back and split. -/
def roundTrip (disk : Memory) (seek : Nat) (videoSize audioSize : UInt32)
    (video audio : List Frame) : Except Fault RoundTrip := do
  let mbVideo ← MultMediaBlocks.collect videoSize .video video
  let mbAudio ← MultMediaBlocks.collect audioSize .audio audio
  let (disk, videoBlocks, videoBufSize) ← writeCollection mbVideo.2 seek disk
  let (disk, _, audioBufSize) ← writeCollection mbAudio.2 (seek + videoBlocks) disk
  let sbVideo ← SecBlocks.read disk videoBufSize seek
  let sbAudio ← SecBlocks.read disk audioBufSize (seek + videoBlocks)
  let queues ← readdataprocess sbVideo.2 sbAudio.2
  pure ⟨mbVideo.1, mbAudio.1, queues.1, queues.2⟩

/-- What a queued block stands for: its type, and the bytes of the frame. -/
def Blocks.content (blocks : Blocks) : BlockType × List UInt8 :=
  (blocks.bType, load blocks.cBuff.memory 0 blocks.uSize)

/-- The contents frames are queued with; with `isfirst` the first one is marked as I frame. -/
def contents : Bool → List Frame → List (BlockType × List UInt8)
  | _, [] => []
  | isfirst, frame :: frames =>
    (if isfirst then .noblock else .block, frame.bytes) :: contents false frames

/-- The queues hold exactly the accepted frames. -/
def RoundTrip.Exact (result : RoundTrip) : Prop :=
  result.videoQueue.map Blocks.content = contents true result.acceptedVideo ∧
    result.audioQueue.map Blocks.content = contents false result.acceptedAudio

/-! ### Splitting -/

theorem push_eq {bytes : List UInt8} (isI : Bool) (small : bytes.length + blocksize ≤ 2 ^ 32) :
    ∃ blocks, push bytes isI = .ok blocks ∧
      blocks.content = (if isI then .noblock else .block, bytes) := by
  obtain ⟨covers, upto⟩ := SecBlocks.getBlockNum_covers small
  have capacity : uint32 (getBlockNum bytes.length * blocksize) =
      getBlockNum bytes.length * blocksize := uint32_of_lt (Nat.lt_of_lt_of_le upto small)
  refine ⟨{ Blocks.create bytes.length 0 (if isI then .noblock else .block) with
    cBuff := (Blocks.create bytes.length 0 (if isI then .noblock else .block)).cBuff.stored 0
      bytes }, ?_, ?_⟩
  · unfold push
    dsimp only
    rw [Buffer.put_of_le, ok_bind]
    · rfl
    · rw [Nat.zero_add]
      exact Nat.le_trans covers (Nat.le_of_eq capacity.symm)
  · exact congrArg (Prod.mk _) (load_store _ 0 bytes)

theorem sizeofMediaBlock_mul_le (frames : List Frame) :
    frames.length * sizeofMediaBlock ≤ framesSize frames := by
  induction frames with
  | nil => simp only [List.length_nil, Nat.zero_mul, framesSize, Nat.le_refl]
  | cons frame frames inductionHypothesis =>
    simp only [List.length_cons, framesSize, Nat.succ_mul]
    omega

/-- The loop pushes exactly the frames that lie in the buffer. -/
theorem splitFrames_eq {buffer : Buffer} (small : buffer.capacity < 2 ^ 32)
    {frames : List Frame} {turns place : Nat} (isfirst : Bool)
    (there : FramesAt buffer.memory place frames)
    (inside : place + framesSize frames ≤ buffer.capacity) (enough : frames.length ≤ turns) :
    ∃ queue, splitFrames buffer turns place (framesSize frames) isfirst = .ok queue ∧
      queue.map Blocks.content = contents isfirst frames := by
  induction frames generalizing turns place isfirst with
  | nil =>
    refine ⟨[], ?_, rfl⟩
    cases turns <;> rfl
  | cons frame frames inductionHypothesis =>
    obtain ⟨less, rfl⟩ := Nat.exists_eq_succ_of_ne_zero
      (Nat.ne_of_gt (Nat.lt_of_lt_of_le (Nat.succ_pos _) enough))
    obtain ⟨length, bytes, rest⟩ := there
    simp only [framesSize] at inside
    have bounded : frame.size < 2 ^ 31 := frame.bounded
    have word : buffer.word (place + MultMediaBlocks.sizeField) = frame.size := length
    have left : uint32Sub (uint32Sub (sizeofMediaBlock + frame.size + framesSize frames)
        frame.size) sizeofMediaBlock = framesSize frames := by
      simp only [uint32Sub, uint32, sizeofMediaBlock] at *
      omega
    have some : sizeofMediaBlock + frame.size + framesSize frames ≠ 0 := by
      simp only [sizeofMediaBlock]
      omega
    obtain ⟨pushed, done, content⟩ := @push_eq frame.bytes isfirst (by
      show frame.size + blocksize ≤ 2 ^ 32
      simp only [blocksize]
      omega)
    obtain ⟨queue, split, queued⟩ :=
      inductionHypothesis false rest (by omega) (Nat.le_of_succ_le_succ enough)
    refine ⟨pushed :: queue, ?_, ?_⟩
    · rw [framesSize, splitFrames, if_neg some, Buffer.getWord_of_le, ok_bind, word,
        Buffer.get_of_le, ok_bind, bytes, done, ok_bind, left, split]
      · rfl
      all_goals
        simp only [MultMediaBlocks.sizeField, sizeofMediaBlock] at *
        omega
    · rw [List.map_cons, content, queued]
      rfl

/-- Two sealed blocks are split into their frames. -/
theorem readdataprocess_eq {video audio : Blocks} {videoFrames audioFrames : List Frame}
    (videoSmall : video.cBuff.capacity < 2 ^ 32)
    (videoInside : SecBlocks.sealedSize videoFrames ≤ video.cBuff.capacity)
    (videoSealed : SecBlocks.Sealed video.cBuff.memory videoFrames)
    (audioSmall : audio.cBuff.capacity < 2 ^ 32)
    (audioInside : SecBlocks.sealedSize audioFrames ≤ audio.cBuff.capacity)
    (audioSealed : SecBlocks.Sealed audio.cBuff.memory audioFrames) :
    ∃ videoQueue audioQueue, readdataprocess video audio = .ok (videoQueue, audioQueue) ∧
      videoQueue.map Blocks.content = contents true videoFrames ∧
      audioQueue.map Blocks.content = contents false audioFrames := by
  have left : ∀ frames : List Frame, SecBlocks.sealedSize frames < 2 ^ 32 →
      uint32Sub (sizeofMediaBlock + framesSize frames) sizeofMediaBlock = framesSize frames := by
    intro frames small
    simp only [uint32Sub, uint32, SecBlocks.sealedSize, sizeofMediaBlock] at *
    omega
  have header : ∀ frames : List Frame,
      MultMediaBlocks.mb + MultMediaBlocks.sizeField + 4 ≤ SecBlocks.sealedSize frames := by
    intro frames
    simp only [MultMediaBlocks.mb, MultMediaBlocks.sizeField, SecBlocks.sealedSize,
      sizeofMediaBlock]
    omega
  have turns : ∀ (frames : List Frame) (capacity : Nat), SecBlocks.sealedSize frames ≤ capacity →
      frames.length ≤ capacity / sizeofMediaBlock := by
    intro frames capacity inside
    have headers := sizeofMediaBlock_mul_le frames
    simp only [SecBlocks.sealedSize] at inside
    exact (Nat.le_div_iff_mul_le (by decide)).mpr (by omega)
  obtain ⟨videoQueue, videoSplit, videoContents⟩ := splitFrames_eq videoSmall true
    videoSealed.there videoInside (turns _ _ videoInside)
  obtain ⟨audioQueue, audioSplit, audioContents⟩ := splitFrames_eq audioSmall false
    audioSealed.there audioInside (turns _ _ audioInside)
  have videoWord : video.cBuff.word (MultMediaBlocks.mb + MultMediaBlocks.sizeField) =
    sizeofMediaBlock + framesSize videoFrames := videoSealed.used
  have audioWord : audio.cBuff.word (MultMediaBlocks.mb + MultMediaBlocks.sizeField) =
    sizeofMediaBlock + framesSize audioFrames := audioSealed.used
  refine ⟨videoQueue, audioQueue, ?_, videoContents, audioContents⟩
  rw [readdataprocess,
    Buffer.getWord_of_le (Nat.le_trans (header videoFrames) videoInside), ok_bind,
    Buffer.getWord_of_le (Nat.le_trans (header audioFrames) audioInside), ok_bind, videoWord,
    audioWord, left _ (Nat.lt_of_le_of_lt videoInside videoSmall),
    left _ (Nat.lt_of_le_of_lt audioInside audioSmall), videoSplit, ok_bind, audioSplit, ok_bind]
  rfl

/-! ### The round trip -/

/-- A gathered collection goes to the disk as its sealed block. -/
theorem writeCollection_eq {collection : Blocks} {frames : List Frame}
    (holds : collection.Holds frames) (seek : Nat) (disk : Memory) :
    writeCollection collection seek disk = .ok (store disk (seek * blocksize)
      (load (SecBlocks.sealedBlocks collection frames).cBuff.memory 0
        (getBlockNum (SecBlocks.sealedSize frames) * blocksize)),
      getBlockNum (SecBlocks.sealedSize frames), sizeofMediaBlock + framesSize frames) := by
  obtain ⟨made, ready⟩ := SecBlocks.ofMedia_ready holds
  have small := ready.small
  have kept : uint32Sub (SecBlocks.sealedSize frames) sizeofHdFrame =
      sizeofMediaBlock + framesSize frames := by
    simp only [uint32Sub, uint32, SecBlocks.sealedSize, sizeofHdFrame, blocksize] at *
    omega
  rw [writeCollection, MultMediaBlocks.getBuffSize_eq holds, ok_bind, made, ok_bind,
    SecBlocks.write_eq ready, ok_bind, ready.size, kept]
  rfl

/-- Frames gathered in bounds come back. -/
theorem roundTrip_of_serves (disk : Memory) (seek : Nat) {videoSize audioSize : UInt32}
    {video audio : List Frame} (videoServes : MultMediaBlocks.Serves videoSize video)
    (audioServes : MultMediaBlocks.Serves audioSize audio) :
    ∃ result, roundTrip disk seek videoSize audioSize video audio = .ok result ∧
      result.Exact := by
  obtain ⟨acceptedVideo, mbVideo, videoGathered, videoHolds⟩ :=
    @MultMediaBlocks.collect_of_serves _ .video _ videoServes
  obtain ⟨acceptedAudio, mbAudio, audioGathered, audioHolds⟩ :=
    @MultMediaBlocks.collect_of_serves _ .audio _ audioServes
  obtain ⟨-, videoReady⟩ := SecBlocks.ofMedia_ready videoHolds
  obtain ⟨-, audioReady⟩ := SecBlocks.ofMedia_ready audioHolds
  obtain ⟨videoCovers, -⟩ := SecBlocks.getBlockNum_covers videoReady.small
  obtain ⟨audioCovers, -⟩ := SecBlocks.getBlockNum_covers audioReady.small
  have next : ∀ count, (seek + count) * blocksize = seek * blocksize + count * blocksize :=
    fun count => Nat.add_mul _ _ _
  -- the audio block is written behind the video block and leaves it alone
  obtain ⟨sbVideo, videoRead, videoInside, videoSmall, videoSealed⟩ :=
    @SecBlocks.read_eq (store (store disk (seek * blocksize) (load
      (SecBlocks.sealedBlocks mbVideo acceptedVideo).cBuff.memory 0
        (getBlockNum (SecBlocks.sealedSize acceptedVideo) * blocksize)))
      ((seek + getBlockNum (SecBlocks.sealedSize acceptedVideo)) * blocksize) (load
      (SecBlocks.sealedBlocks mbAudio acceptedAudio).cBuff.memory 0
        (getBlockNum (SecBlocks.sealedSize acceptedAudio) * blocksize))) _ _ seek
      videoReady.small videoReady.isSealed (by
        intro offset inside
        rw [store_outside, store_load _ _ _ (Nat.lt_of_lt_of_le inside videoCovers), Nat.zero_add]
        rw [next]
        omega)
  obtain ⟨sbAudio, audioRead, audioInside, audioSmall, audioSealed⟩ :=
    @SecBlocks.read_eq (store (store disk (seek * blocksize) (load
      (SecBlocks.sealedBlocks mbVideo acceptedVideo).cBuff.memory 0
        (getBlockNum (SecBlocks.sealedSize acceptedVideo) * blocksize)))
      ((seek + getBlockNum (SecBlocks.sealedSize acceptedVideo)) * blocksize) (load
      (SecBlocks.sealedBlocks mbAudio acceptedAudio).cBuff.memory 0
        (getBlockNum (SecBlocks.sealedSize acceptedAudio) * blocksize))) _ _
      (seek + getBlockNum (SecBlocks.sealedSize acceptedVideo)) audioReady.small
      audioReady.isSealed (by
        intro offset inside
        rw [store_load _ _ _ (Nat.lt_of_lt_of_le inside audioCovers), Nat.zero_add])
  obtain ⟨videoQueue, audioQueue, processed, exact⟩ := readdataprocess_eq videoSmall videoInside
    videoSealed audioSmall audioInside audioSealed
  refine ⟨⟨acceptedVideo, acceptedAudio, videoQueue, audioQueue⟩, ?_, exact⟩
  rw [roundTrip, videoGathered, ok_bind, audioGathered, ok_bind, writeCollection_eq videoHolds,
    ok_bind]
  dsimp only
  rw [writeCollection_eq audioHolds, ok_bind]
  dsimp only
  rw [videoRead, ok_bind, audioRead, ok_bind, processed, ok_bind]
  rfl

/-- For every disk, position, buffer sizes and frames: the queues hold exactly the frames that
`add` accepted, byte for byte, in order and with the I frame marked, if and only if both sizes
serve their frames. -/
theorem media_group_round_trip_iff (disk : Memory) (seek : Nat) (videoSize audioSize : UInt32)
    (video audio : List Frame) :
    (∃ result, roundTrip disk seek videoSize audioSize video audio = .ok result ∧ result.Exact) ↔
      MultMediaBlocks.Serves videoSize video ∧ MultMediaBlocks.Serves audioSize audio := by
  constructor
  · rintro ⟨result, done, -⟩
    by_contra fails
    by_cases videoServes : MultMediaBlocks.Serves videoSize video
    · obtain ⟨accepted, blocks, gathered, -⟩ :=
        @MultMediaBlocks.collect_of_serves _ .video _ videoServes
      have audioFails : ¬MultMediaBlocks.Serves audioSize audio := fun serves =>
        fails ⟨videoServes, serves⟩
      rw [roundTrip, gathered, ok_bind, MultMediaBlocks.collect_of_not_serves audioFails,
        error_bind] at done
      cases done
    · rw [roundTrip, MultMediaBlocks.collect_of_not_serves videoServes, error_bind] at done
      cases done
  · rintro ⟨videoServes, audioServes⟩
    exact roundTrip_of_serves disk seek videoServes audioServes

/-- A 20-byte collection is one block with 512 bytes. Its size less the two headers wraps, so
that `add` lets in a frame of 500 bytes and writes past the end of the block. -/
theorem media_group_out_of_bounds :
    ¬∃ result, roundTrip (fun _ => 0) 2047 20 1000
        [⟨List.replicate 500 0xff, by rw [List.length_replicate]; decide⟩] [] = .ok result ∧
      result.Exact := by
  have size : framesSize [⟨List.replicate 500 0xff, by rw [List.length_replicate]; decide⟩] =
      516 := by
    simp only [framesSize, Frame.size, List.length_replicate, sizeofMediaBlock]
  have fails : ¬MultMediaBlocks.Serves 20
      [⟨List.replicate 500 0xff, by rw [List.length_replicate]; decide⟩] := by
    rw [MultMediaBlocks.Serves, size]
    decide
  rintro ⟨result, done, -⟩
  rw [roundTrip, MultMediaBlocks.collect_of_not_serves fails, error_bind] at done
  cases done

end ExmOnvif.Recorder
