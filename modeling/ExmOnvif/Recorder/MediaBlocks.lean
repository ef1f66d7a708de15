/-
This file models the buffers in which frames are gathered: `Blocks`, a zeroed
buffer of whole disk blocks, and `MultMediaBlocks`, which keeps a collection
header behind the place of the later disk header and appends frames behind it,
each with a header of its own.

`add` decides whether a frame still fits by subtracting the two headers and the
bytes in use from the size of the buffer. The subtraction is unsigned: in a buffer
too small for the two headers it wraps, and every frame is let in, also one that
reaches past the end of the buffer.
-/

import ExmOnvif.Library.Bytes
import ExmOnvif.Recorder.Layout

namespace ExmOnvif.Recorder

open Library

/-! ### Buffers -/

/-- What ends a call early: an access outside a buffer, or a thrown number. -/
inductive Fault where
  | outOfBounds
  | thrown (code : Int)
deriving DecidableEq, Repr

/-- A call goes on with what the call before it returned. -/
theorem ok_bind {Value Result : Type} (value : Value) (next : Value → Except Fault Result) :
    (Except.ok value >>= next) = next value := rfl

theorem error_bind {Value Result : Type} (fault : Fault) (next : Value → Except Fault Result) :
    (Except.error fault >>= next) = Except.error fault := rfl

/-- A call that came to its end got through its first part. -/
theorem bind_eq_ok {Value Result : Type} {part : Except Fault Value}
    {next : Value → Except Fault Result} {result : Result} (done : part >>= next = .ok result) :
    ∃ value, part = .ok value ∧ next value = .ok result := by
  cases part with
  | error fault => cases done
  | ok value => exact ⟨value, rfl, done⟩

/-- A buffer of `capacity` bytes. -/
structure Buffer where
  capacity : Nat
  memory : Memory

namespace Buffer

/-- A buffer cleared by `memset`. -/
def zeroed (capacity : Nat) : Buffer := ⟨capacity, fun _ => 0⟩

/-- The buffer with `bytes` stored from `place` on. -/
def stored (buffer : Buffer) (place : Nat) (bytes : List UInt8) : Buffer :=
  ⟨buffer.capacity, store buffer.memory place bytes⟩

/-- The word at `place`. -/
def word (buffer : Buffer) (place : Nat) : Nat := wordOf (load buffer.memory place 4)

/-- `memcpy` into a buffer. -/
def put (buffer : Buffer) (place : Nat) (bytes : List UInt8) : Except Fault Buffer :=
  if place + bytes.length ≤ buffer.capacity then .ok (buffer.stored place bytes)
  else .error .outOfBounds

/-- `memcpy` from a buffer. -/
def get (buffer : Buffer) (place count : Nat) : Except Fault (List UInt8) :=
  if place + count ≤ buffer.capacity then .ok (load buffer.memory place count)
  else .error .outOfBounds

/-- An `unsigned int` written into a buffer. -/
def putWord (buffer : Buffer) (place value : Nat) : Except Fault Buffer :=
  buffer.put place (wordBytes value)

/-- An `unsigned int` read from a buffer. -/
def getWord (buffer : Buffer) (place : Nat) : Except Fault Nat :=
  if place + 4 ≤ buffer.capacity then .ok (buffer.word place) else .error .outOfBounds

variable {buffer : Buffer} {place count : Nat} {bytes : List UInt8}

@[simp]
theorem stored_capacity : (buffer.stored place bytes).capacity = buffer.capacity := rfl

@[simp]
theorem stored_memory : (buffer.stored place bytes).memory = store buffer.memory place bytes := rfl

theorem put_of_le (inside : place + bytes.length ≤ buffer.capacity) :
    buffer.put place bytes = .ok (buffer.stored place bytes) :=
  if_pos inside

theorem put_of_lt (outside : buffer.capacity < place + bytes.length) :
    buffer.put place bytes = .error .outOfBounds :=
  if_neg (Nat.not_le.mpr outside)

theorem put_eq_ok {after : Buffer} (done : buffer.put place bytes = .ok after) :
    after = buffer.stored place bytes := by
  rw [put] at done
  split at done
  · exact (Except.ok.inj done).symm
  · cases done

theorem get_of_le (inside : place + count ≤ buffer.capacity) :
    buffer.get place count = .ok (load buffer.memory place count) :=
  if_pos inside

theorem get_eq_ok {loaded : List UInt8} (done : buffer.get place count = .ok loaded) :
    place + count ≤ buffer.capacity ∧ loaded = load buffer.memory place count := by
  rw [get] at done
  split at done
  · rename_i inside
    exact ⟨inside, (Except.ok.inj done).symm⟩
  · cases done

theorem getWord_of_le (inside : place + 4 ≤ buffer.capacity) :
    buffer.getWord place = .ok (buffer.word place) :=
  if_pos inside

theorem putWord_of_le (value : Nat) (inside : place + 4 ≤ buffer.capacity) :
    buffer.putWord place value = .ok (buffer.stored place (wordBytes value)) :=
  put_of_le inside

theorem putWord_of_lt (value : Nat) (outside : buffer.capacity < place + 4) :
    buffer.putWord place value = .error .outOfBounds :=
  put_of_lt outside

theorem word_stored {value : Nat} (small : value < 2 ^ 32) :
    (buffer.stored place (wordBytes value)).word place = value := by
  rw [word, stored_memory, wordOf_load_store _ _ small]

theorem word_stored_apart {start : Nat} (bytes : List UInt8)
    (apart : start + bytes.length ≤ place ∨ place + 4 ≤ start) :
    (buffer.stored start bytes).word place = buffer.word place := by
  rw [word, stored_memory, load_store_apart _ apart, word]

/-- The second of two words written at one place covers the first. -/
theorem stored_word_stored (buffer : Buffer) (place first second : Nat) :
    (buffer.stored place (wordBytes first)).stored place (wordBytes second) =
      buffer.stored place (wordBytes second) :=
  congrArg (Buffer.mk buffer.capacity) (store_store rfl)

end Buffer

/-! ### Blocks -/

/-- `blocktype`. -/
inductive BlockType where
  | noblock
  | block
  | collection
  | year
  | day
  | dayBac
  | sec
  | audio
  | video
  | multmedia
  | multVideo
  | multAudio
deriving DecidableEq, Repr

/-- `class Blocks`. `SetSeek` refuses negative positions, so a position is a natural. -/
structure Blocks where
  cBuff : Buffer
  bType : BlockType
  uSize : Nat
  uNumOfBlocks : Nat
  llSeek : Nat

/-- `Blocks(uBufSize, llSeek, bt)`: a zeroed buffer of whole blocks. -/
def Blocks.create (uBufSize llSeek : Nat) (bt : BlockType) : Blocks where
  cBuff := Buffer.zeroed (uint32 (getBlockNum uBufSize * blocksize))
  bType := bt
  uSize := uBufSize
  uNumOfBlocks := getBlockNum uBufSize
  llSeek := llSeek

/-- The value of an `unsigned int` difference. -/
def uint32Sub (left right : Nat) : Nat := uint32 (left + 2 ^ 32 - right)

/-! ### Collections of frames -/

/-- One frame of the encoder. Its length is a `long` of a 32-bit machine. -/
structure Frame where
  bytes : List UInt8
  bounded : bytes.length < 2 ^ 31

/-- The two kinds of frames that are gathered. -/
inductive Media where
  | video
  | audio
deriving DecidableEq, Repr

/-- The type a frame is added under. -/
def Media.frame : Media → BlockType
  | .video => .video
  | .audio => .audio

/-- The type of the collection it is added to. -/
def Media.collection : Media → BlockType
  | .video => .multVideo
  | .audio => .multAudio

/-- `get_frame_buff_size`. -/
def Frame.size (frame : Frame) : Nat := frame.bytes.length

theorem Frame.size_lt (frame : Frame) : frame.size < 2 ^ 32 :=
  Nat.lt_trans frame.bounded (by decide)

namespace MultMediaBlocks

def audioHead : List UInt8 := [0x61, 0x75, 0x64, 0x69, 0x6f, 0xa5, 0xaa, 0x5a]

def videoHead : List UInt8 := [0x76, 0x69, 0x64, 0x65, 0x6f, 0xa5, 0xaa, 0x5a]

def multAudioHead : List UInt8 := [0x61, 0x75, 0x64, 0x69, 0x6f, 0x6d, 0x75, 0xaa]

def multVideoHead : List UInt8 := [0x76, 0x69, 0x64, 0x65, 0x6f, 0x6d, 0x75, 0xaa]

def multMediaHead : List UInt8 := [0x6d, 0x75, 0x6c, 0x74, 0xaa, 0x5a, 0xa5, 0x55]

/-- The head `add_head` copies; other types are thrown out. -/
def headOf : BlockType → Except Fault (List UInt8)
  | .video => .ok videoHead
  | .multVideo => .ok multVideoHead
  | .audio => .ok audioHead
  | .multAudio => .ok multAudioHead
  | _ => .error (.thrown 0)

/-- Where `mb` points: the place of the disk header is left free. -/
def mb : Nat := sizeofHdFrame

/-- Where the size of a `media_block` is kept, behind its head. -/
def sizeField : Nat := 8

/-- `MultMediaBlocks(uBufSize, bt)`. -/
def create (uBufSize : Nat) (bt : BlockType) : Except Fault Blocks :=
  let fresh := Blocks.create uBufSize 0 bt
  if bt = .multmedia then do
    let buffer ← fresh.cBuff.put mb multMediaHead
    pure { fresh with cBuff := buffer }
  else do
    let sized ← fresh.cBuff.putWord (mb + sizeField) sizeofMediaBlock
    let head ← headOf bt
    let buffer ← sized.put mb head
    pure { fresh with cBuff := buffer }

/-- `get_buff_size`: the size kept in the collection header. -/
def getBuffSize (blocks : Blocks) : Except Fault Nat := blocks.cBuff.getWord (mb + sizeField)

/-- The test of `add`, on a buffer of `uSize` bytes with `used` of them in the collection. -/
def Refuses (uSize used : Nat) (frame : Frame) : Prop :=
  uint32Sub (uint32Sub uSize sizeofHdFrame) used < uint32 (frame.size + sizeofMediaBlock)

instance (uSize used : Nat) (frame : Frame) : Decidable (Refuses uSize used frame) :=
  inferInstanceAs (Decidable (_ < _))

/-- `add`: the frame behind the collection, with its header in front of it. -/
def add (blocks : Blocks) (frame : Frame) (bt : BlockType) : Except Fault (Int × Blocks) := do
  let used ← getBuffSize blocks
  if Refuses blocks.uSize used frame then pure (-1, blocks)
  else do
    let head ← headOf bt
    let headed ← blocks.cBuff.put (mb + used) head
    let sized ← headed.putWord (mb + used + sizeField) frame.size
    let counted ← sized.putWord (mb + sizeField) (uint32 (used + sizeofMediaBlock))
    let behind ← counted.getWord (mb + sizeField)
    let copied ← counted.put (mb + behind) frame.bytes
    let buffer ← copied.putWord (mb + sizeField) (uint32 (behind + frame.size))
    pure (0, { blocks with cBuff := buffer })

/-- A list of frames handed to `add` one after the other, and those it accepted. -/
def addAll (bt : BlockType) : Blocks → List Frame → Except Fault (List Frame × Blocks)
  | blocks, [] => pure ([], blocks)
  | blocks, frame :: frames => do
    let added ← add blocks frame bt
    let rest ← addAll bt added.2 frames
    pure (if added.1 = 0 then frame :: rest.1 else rest.1, rest.2)

end MultMediaBlocks

/-! ### What a collection holds -/

/-- The bytes frames take, each with its header. -/
def framesSize : List Frame → Nat
  | [] => 0
  | frame :: frames => sizeofMediaBlock + frame.size + framesSize frames

/-- The frames lie one behind the other from `place` on. -/
def FramesAt (memory : Memory) : Nat → List Frame → Prop
  | _, [] => True
  | place, frame :: frames =>
    wordOf (load memory (place + MultMediaBlocks.sizeField) 4) = frame.size ∧
      load memory (place + sizeofMediaBlock) frame.size = frame.bytes ∧
      FramesAt memory (place + sizeofMediaBlock + frame.size) frames

/-- A collection holds the frames: they are inside the buffer, and the header counts them. -/
structure Blocks.Holds (blocks : Blocks) (frames : List Frame) : Prop where
  inside : MultMediaBlocks.mb + sizeofMediaBlock + framesSize frames ≤ blocks.cBuff.capacity
  small : blocks.cBuff.capacity < 2 ^ 32
  whole : blocks.cBuff.capacity % blocksize = 0
  used : blocks.cBuff.word (MultMediaBlocks.mb + MultMediaBlocks.sizeField) =
    sizeofMediaBlock + framesSize frames
  frames : FramesAt blocks.cBuff.memory (MultMediaBlocks.mb + sizeofMediaBlock) frames

theorem framesSize_append_list (frames more : List Frame) :
    framesSize (frames ++ more) = framesSize frames + framesSize more := by
  induction frames with
  | nil => rw [List.nil_append, framesSize, Nat.zero_add]
  | cons first frames inductionHypothesis =>
    rw [List.cons_append, framesSize, framesSize, inductionHypothesis]
    exact (Nat.add_assoc _ _ _).symm

theorem framesSize_append (frames : List Frame) (frame : Frame) :
    framesSize (frames ++ [frame]) = framesSize frames + sizeofMediaBlock + frame.size := by
  rw [framesSize_append_list, framesSize, framesSize, Nat.add_zero, Nat.add_assoc]

/-- Memories that agree on the stretch hold the same frames. -/
theorem FramesAt.congr {memory other : Memory} {frames : List Frame} {place : Nat}
    (there : FramesAt memory place frames)
    (same : ∀ address, place ≤ address → address < place + framesSize frames →
      other address = memory address) : FramesAt other place frames := by
  induction frames generalizing place with
  | nil => trivial
  | cons frame frames inductionHypothesis =>
    obtain ⟨size, bytes, rest⟩ := there
    simp only [framesSize, sizeofMediaBlock] at same
    refine ⟨?_, ?_, inductionHypothesis rest fun address low high => same address ?_ ?_⟩
    · rw [← size]
      refine congrArg wordOf (load_congr fun offset below => same _ ?_ ?_) <;>
        simp only [MultMediaBlocks.sizeField] <;> omega
    · rw [← bytes]
      refine load_congr fun offset below => same _ ?_ ?_ <;>
        simp only [sizeofMediaBlock] <;> omega
    · simp only [sizeofMediaBlock] at low
      omega
    · simp only [sizeofMediaBlock] at high
      omega

/-- One more frame behind the others. -/
theorem FramesAt.append {memory : Memory} {frames : List Frame} {frame : Frame} {place : Nat}
    (there : FramesAt memory place frames)
    (size : wordOf (load memory (place + framesSize frames + MultMediaBlocks.sizeField) 4) =
      frame.size)
    (bytes : load memory (place + framesSize frames + sizeofMediaBlock) frame.size = frame.bytes) :
    FramesAt memory place (frames ++ [frame]) := by
  induction frames generalizing place with
  | nil => exact ⟨size, bytes, trivial⟩
  | cons first frames inductionHypothesis =>
    obtain ⟨firstSize, firstBytes, rest⟩ := there
    have same : place + framesSize (first :: frames) =
        place + sizeofMediaBlock + first.size + framesSize frames := by
      simp only [framesSize]
      omega
    rw [same] at size bytes
    exact ⟨firstSize, firstBytes, inductionHypothesis rest size bytes⟩

namespace MultMediaBlocks

theorem headOf_frame (media : Media) :
    ∃ head, headOf media.frame = .ok head ∧ head.length = 8 := by
  cases media with
  | video => exact ⟨videoHead, rfl, rfl⟩
  | audio => exact ⟨audioHead, rfl, rfl⟩

theorem headOf_collection (media : Media) :
    ∃ head, headOf media.collection = .ok head ∧ head.length = 8 := by
  cases media with
  | video => exact ⟨multVideoHead, rfl, rfl⟩
  | audio => exact ⟨multAudioHead, rfl, rfl⟩

variable {blocks : Blocks} {frames : List Frame} {media : Media}

theorem getBuffSize_eq (holds : blocks.Holds frames) :
    getBuffSize blocks = .ok (sizeofMediaBlock + framesSize frames) := by
  have inside := holds.inside
  rw [getBuffSize, Buffer.getWord_of_le, holds.used]
  simp only [mb, sizeField, sizeofHdFrame, sizeofMediaBlock] at *
  omega

/-! ### One frame -/

theorem add_refused (holds : blocks.Holds frames) {frame : Frame}
    (refused : Refuses blocks.uSize (sizeofMediaBlock + framesSize frames) frame) :
    add blocks frame media.frame = .ok (-1, blocks) := by
  rw [add, getBuffSize_eq holds, ok_bind, if_pos refused]
  rfl

/-- The collection after a frame has been appended behind `used` bytes. -/
def appended (blocks : Blocks) (used : Nat) (head : List UInt8) (frame : Frame) : Blocks :=
  { blocks with
    cBuff := ((((blocks.cBuff.stored (mb + used) head).stored (mb + used + sizeField)
      (wordBytes frame.size)).stored (mb + sizeField) (wordBytes (used + sizeofMediaBlock))).stored
      (mb + (used + sizeofMediaBlock)) frame.bytes).stored (mb + sizeField)
      (wordBytes (used + sizeofMediaBlock + frame.size)) }

theorem add_accepted (holds : blocks.Holds frames)
    {frame : Frame}
    (accepted : ¬Refuses blocks.uSize (sizeofMediaBlock + framesSize frames) frame)
    (fits : mb + sizeofMediaBlock + framesSize frames + sizeofMediaBlock + frame.size ≤
      blocks.cBuff.capacity) :
    ∃ head, head.length = 8 ∧ add blocks frame media.frame =
      .ok (0, appended blocks (sizeofMediaBlock + framesSize frames) head frame) := by
  obtain ⟨head, found, length⟩ := headOf_frame media
  refine ⟨head, length, ?_⟩
  have small := holds.small
  have size : frame.bytes.length = frame.size := rfl
  simp only [mb, sizeofHdFrame, sizeofMediaBlock] at fits
  have counted : uint32 (sizeofMediaBlock + framesSize frames + sizeofMediaBlock) =
      sizeofMediaBlock + framesSize frames + sizeofMediaBlock :=
    uint32_of_lt (by simp only [sizeofMediaBlock]; omega)
  have total : uint32 (sizeofMediaBlock + framesSize frames + sizeofMediaBlock + frame.size) =
      sizeofMediaBlock + framesSize frames + sizeofMediaBlock + frame.size :=
    uint32_of_lt (by simp only [sizeofMediaBlock]; omega)
  rw [add, getBuffSize_eq holds, ok_bind, if_neg accepted, found, ok_bind, Buffer.put_of_le,
    ok_bind, Buffer.putWord_of_le, ok_bind, Buffer.putWord_of_le, ok_bind, Buffer.getWord_of_le,
    ok_bind, counted, Buffer.word_stored, Buffer.put_of_le, ok_bind, Buffer.putWord_of_le, ok_bind,
    total]
  · rfl
  all_goals
    simp only [Buffer.stored_capacity, mb, sizeField, sizeofHdFrame, sizeofMediaBlock]
    omega

/-- An accepted frame that fits goes behind the others. -/
theorem appended_holds (holds : blocks.Holds frames) {frame : Frame} {head : List UInt8}
    (length : head.length = 8)
    (fits : mb + sizeofMediaBlock + framesSize frames + sizeofMediaBlock + frame.size ≤
      blocks.cBuff.capacity) :
    (appended blocks (sizeofMediaBlock + framesSize frames) head frame).Holds
      (frames ++ [frame]) := by
  have small := holds.small
  have size : frame.bytes.length = frame.size := rfl
  have word : ∀ value, (wordBytes value).length = 4 := wordBytes_length
  have place : mb + sizeofMediaBlock + framesSize frames =
      mb + (sizeofMediaBlock + framesSize frames) := Nat.add_assoc _ _ _
  refine ⟨?_, small, holds.whole, ?_, FramesAt.append ?_ ?_ ?_⟩
  · rw [framesSize_append]
    simp only [appended, Buffer.stored_capacity]
    omega
  · rw [framesSize_append]
    simp only [appended]
    rw [Buffer.word_stored]
    · omega
    · simp only [mb, sizeofHdFrame, sizeofMediaBlock] at fits ⊢
      omega
  · refine holds.frames.congr fun address low high => ?_
    simp only [mb, sizeofHdFrame, sizeofMediaBlock] at low high
    simp only [appended, Buffer.stored_memory]
    rw [store_outside, store_outside, store_outside, store_outside, store_outside]
    all_goals
      simp only [word, length, mb, sizeField, sizeofHdFrame, sizeofMediaBlock]
      omega
  · simp only [appended, Buffer.stored_memory]
    rw [place, load_store_apart, load_store_apart, load_store_apart,
      wordOf_load_store _ _ frame.size_lt]
    all_goals
      simp only [word, mb, sizeField, sizeofHdFrame, sizeofMediaBlock]
      omega
  · simp only [appended, Buffer.stored_memory]
    have next : mb + sizeofMediaBlock + framesSize frames + sizeofMediaBlock =
        mb + (sizeofMediaBlock + framesSize frames + sizeofMediaBlock) := by omega
    rw [next, load_store_apart]
    · exact load_store _ _ frame.bytes
    · simp only [word, mb, sizeField, sizeofHdFrame, sizeofMediaBlock]
      omega

/-- An accepted frame that does not fit is written past the end of the buffer. -/
theorem add_overflow (holds : blocks.Holds frames)
    {frame : Frame}
    (accepted : ¬Refuses blocks.uSize (sizeofMediaBlock + framesSize frames) frame)
    (exceeds : blocks.cBuff.capacity <
      mb + sizeofMediaBlock + framesSize frames + sizeofMediaBlock + frame.size) :
    add blocks frame media.frame = .error .outOfBounds := by
  obtain ⟨head, found, length⟩ := headOf_frame media
  have small := holds.small
  have inside := holds.inside
  have size : frame.bytes.length = frame.size := rfl
  rw [add, getBuffSize_eq holds, ok_bind, if_neg accepted, found, ok_bind]
  by_cases headFits : mb + (sizeofMediaBlock + framesSize frames) + head.length ≤
      blocks.cBuff.capacity
  · rw [Buffer.put_of_le headFits, ok_bind]
    by_cases sizeFits : mb + (sizeofMediaBlock + framesSize frames) + sizeField + 4 ≤
        blocks.cBuff.capacity
    · have counted : uint32 (sizeofMediaBlock + framesSize frames + sizeofMediaBlock) =
          sizeofMediaBlock + framesSize frames + sizeofMediaBlock := by
        refine uint32_of_lt ?_
        simp only [mb, sizeField, sizeofHdFrame, sizeofMediaBlock] at sizeFits ⊢
        omega
      rw [Buffer.putWord_of_le, ok_bind, Buffer.putWord_of_le, ok_bind, Buffer.getWord_of_le,
        ok_bind, counted, Buffer.word_stored, Buffer.put_of_lt, error_bind]
      all_goals
        simp only [Buffer.stored_capacity, mb, sizeField, sizeofHdFrame, sizeofMediaBlock] at *
        omega
    · rw [Buffer.putWord_of_lt, error_bind]
      exact Nat.not_le.mp sizeFits
  · rw [Buffer.put_of_lt (Nat.not_le.mp headFits), error_bind]

/-- In a buffer with room for the headers the test is the right one. -/
theorem refuses_iff {uSize used : Nat} {frame : Frame} (room : sizeofHdFrame + used ≤ uSize)
    (small : uSize < 2 ^ 32) :
    Refuses uSize used frame ↔ uSize < sizeofHdFrame + used + sizeofMediaBlock + frame.size := by
  have bounded : frame.size < 2 ^ 31 := frame.bounded
  simp only [Refuses, uint32Sub, uint32, sizeofHdFrame, sizeofMediaBlock] at *
  omega

/-- In a buffer without that room it lets every frame in. -/
theorem not_refuses {uSize used : Nat} {frame : Frame} (short : uSize < sizeofHdFrame + used)
    (inside : sizeofHdFrame + used ≤ blocksize) : ¬Refuses uSize used frame := by
  have bounded : frame.size < 2 ^ 31 := frame.bounded
  simp only [Refuses, uint32Sub, uint32, sizeofHdFrame, sizeofMediaBlock, blocksize] at *
  omega

/-! ### Lists of frames -/

/-- In a buffer with room for the headers every list of frames is gathered in bounds, and all of
it when it fits. -/
theorem addAll_of_room (more : List Frame)
    (holds : blocks.Holds frames)
    (room : mb + sizeofMediaBlock + framesSize frames ≤ blocks.uSize)
    (inside : blocks.uSize ≤ blocks.cBuff.capacity) :
    ∃ accepted after, addAll media.frame blocks more = .ok (accepted, after) ∧
      after.Holds (frames ++ accepted) ∧
      mb + sizeofMediaBlock + framesSize (frames ++ accepted) ≤ blocks.uSize ∧
      (mb + sizeofMediaBlock + framesSize (frames ++ more) ≤ blocks.uSize → accepted = more) := by
  induction more generalizing blocks frames with
  | nil =>
    refine ⟨[], blocks, rfl, ?_, ?_, fun _ => rfl⟩
    · rwa [List.append_nil]
    · rwa [List.append_nil]
  | cons frame more inductionHypothesis =>
    have small : blocks.uSize < 2 ^ 32 := Nat.lt_of_le_of_lt inside holds.small
    have test := @refuses_iff _ _ frame (Nat.add_assoc mb _ _ ▸ room) small
    by_cases refused : Refuses blocks.uSize (sizeofMediaBlock + framesSize frames) frame
    · obtain ⟨accepted, after, gathered, kept, bound, -⟩ := inductionHypothesis holds room inside
      refine ⟨accepted, after, ?_, kept, bound, fun fits => ?_⟩
      · rw [addAll, add_refused holds refused, ok_bind, gathered]
        rfl
      · have exceeds := test.mp refused
        rw [List.append_cons, framesSize_append_list, framesSize_append] at fits
        simp only [mb] at fits
        omega
    · have fits := Nat.not_lt.mp (mt test.mpr refused)
      rw [← Nat.add_assoc] at fits
      obtain ⟨head, length, added⟩ :=
        add_accepted holds refused (Nat.le_trans fits inside)
      have held := appended_holds holds length (Nat.le_trans fits inside)
      obtain ⟨accepted, after, gathered, kept, bound, whole⟩ := inductionHypothesis held (by
        rw [framesSize_append]
        show _ ≤ blocks.uSize
        simp only [mb]
        omega) inside
      rw [List.append_assoc] at kept bound whole
      refine ⟨frame :: accepted, after, ?_, kept, bound, fun fits => ?_⟩
      · rw [addAll, added, ok_bind, gathered]
        rfl
      · rw [whole fits]

/-- In a block too small for the headers all frames are accepted, and they are gathered in
bounds exactly when they happen to fit into the one block. -/
theorem addAll_of_short (more : List Frame)
    (holds : blocks.Holds frames) (short : blocks.uSize < mb + sizeofMediaBlock)
    (one : blocks.cBuff.capacity = blocksize) :
    (mb + sizeofMediaBlock + framesSize frames + framesSize more ≤ blocksize →
      ∃ after, addAll media.frame blocks more = .ok (more, after) ∧ after.Holds (frames ++ more)) ∧
    (blocksize < mb + sizeofMediaBlock + framesSize frames + framesSize more →
      addAll media.frame blocks more = .error .outOfBounds) := by
  induction more generalizing blocks frames with
  | nil =>
    refine ⟨fun _ => ⟨blocks, rfl, by rwa [List.append_nil]⟩, fun exceeds => ?_⟩
    exact absurd (one ▸ holds.inside) (Nat.not_le.mpr exceeds)
  | cons frame more inductionHypothesis =>
    have inside := one ▸ holds.inside
    have accepted : ¬Refuses blocks.uSize (sizeofMediaBlock + framesSize frames) frame := by
      refine not_refuses ?_ (Nat.add_assoc mb _ _ ▸ inside)
      simp only [mb] at short
      omega
    by_cases fits : mb + sizeofMediaBlock + framesSize frames + sizeofMediaBlock + frame.size ≤
        blocks.cBuff.capacity
    · obtain ⟨head, length, added⟩ := add_accepted holds accepted fits
      have held := appended_holds holds length fits
      obtain ⟨within, exceeds⟩ := inductionHypothesis held short one
      rw [framesSize_append] at within exceeds
      simp only [framesSize]
      rw [addAll, added, ok_bind]
      constructor
      · intro room
        obtain ⟨after, gathered, kept⟩ := within (by omega)
        refine ⟨after, ?_, by rwa [List.append_assoc] at kept⟩
        rw [gathered]
        rfl
      · intro outside
        rw [exceeds (by omega)]
        rfl
    · simp only [framesSize]
      rw [addAll, add_overflow holds accepted (Nat.not_le.mp fits)]
      refine ⟨fun room => ?_, fun _ => rfl⟩
      rw [one] at fits
      omega

/-! ### Fresh collections -/

/-- A fresh collection with a list of frames handed to it. -/
def collect (uBufSize : UInt32) (media : Media) (frames : List Frame) :
    Except Fault (List Frame × Blocks) := do
  let blocks ← create uBufSize.toNat media.collection
  addAll media.frame blocks frames

/-- The size of a buffer serves a list of frames: the block count does not wrap, and either
there is room for the headers or all the frames fit into one block. -/
def Serves (uBufSize : UInt32) (frames : List Frame) : Prop :=
  (0 < uBufSize.toNat ∧ uBufSize.toNat + blocksize ≤ 2 ^ 32) ∧
    (mb + sizeofMediaBlock ≤ uBufSize.toNat ∨
      mb + sizeofMediaBlock + framesSize frames ≤ blocksize)

instance (uBufSize : UInt32) (frames : List Frame) : Decidable (Serves uBufSize frames) :=
  inferInstanceAs (Decidable (_ ∧ _))

theorem create_capacity {uBufSize : Nat} (bt : BlockType) (positive : 0 < uBufSize)
    (small : uBufSize + blocksize ≤ 2 ^ 32) :
    let capacity := (Blocks.create uBufSize 0 bt).cBuff.capacity
    capacity % blocksize = 0 ∧ uBufSize ≤ capacity ∧ capacity < uBufSize + blocksize := by
  simp only [Blocks.create, Buffer.zeroed, uint32, getBlockNum, blocksize] at *
  omega

/-- The fresh collection, with its header. -/
def freshBlocks (uBufSize : Nat) (bt : BlockType) (head : List UInt8) : Blocks :=
  { Blocks.create uBufSize 0 bt with
    cBuff := ((Blocks.create uBufSize 0 bt).cBuff.stored (mb + sizeField)
      (wordBytes sizeofMediaBlock)).stored mb head }

/-- A fresh collection is empty. -/
theorem create_holds {uBufSize : Nat} (media : Media) (positive : 0 < uBufSize)
    (small : uBufSize + blocksize ≤ 2 ^ 32) :
    ∃ head, create uBufSize media.collection = .ok (freshBlocks uBufSize media.collection head) ∧
      (freshBlocks uBufSize media.collection head).Holds [] := by
  obtain ⟨head, found, length⟩ := headOf_collection media
  obtain ⟨whole, large, upto⟩ := create_capacity media.collection positive small
  have other : media.collection ≠ .multmedia := by cases media <;> decide
  have header : mb + sizeofMediaBlock ≤
      (Blocks.create uBufSize 0 media.collection).cBuff.capacity := by
    simp only [mb, sizeofHdFrame, sizeofMediaBlock, blocksize] at whole ⊢
    omega
  refine ⟨head, ?_, header, Nat.lt_of_lt_of_le upto small, whole, ?_, trivial⟩
  · rw [create, if_neg other, Buffer.putWord_of_le, ok_bind, found, ok_bind, Buffer.put_of_le,
      ok_bind]
    · rfl
    all_goals
      simp only [Buffer.stored_capacity, mb, sizeField, sizeofHdFrame, sizeofMediaBlock] at *
      omega
  · rw [freshBlocks, Buffer.word_stored_apart, Buffer.word_stored]
    · rfl
    · decide
    · rw [length]
      exact Or.inl (Nat.le_refl _)

/-- Without a block there is no room for a header. -/
theorem create_fault {uBufSize : Nat} (media : Media)
    (none : (Blocks.create uBufSize 0 media.collection).cBuff.capacity = 0) :
    create uBufSize media.collection = .error .outOfBounds := by
  have other : media.collection ≠ .multmedia := by cases media <;> decide
  rw [create, if_neg other, Buffer.putWord_of_lt, error_bind]
  rw [none]
  decide

/-- A size that serves the frames gathers them. -/
theorem collect_of_serves {uBufSize : UInt32} (serves : Serves uBufSize frames) :
    ∃ accepted blocks, collect uBufSize media frames = .ok (accepted, blocks) ∧
      blocks.Holds accepted := by
  obtain ⟨⟨positive, small⟩, room⟩ := serves
  obtain ⟨head, created, holds⟩ := create_holds media positive small
  obtain ⟨whole, large, upto⟩ := create_capacity media.collection positive small
  rw [collect, created, ok_bind]
  by_cases headers : mb + sizeofMediaBlock ≤ uBufSize.toNat
  · obtain ⟨accepted, blocks, gathered, kept, -⟩ := @addAll_of_room _ _ media frames holds headers
      large
    exact ⟨accepted, blocks, gathered, kept⟩
  · have one : (freshBlocks uBufSize.toNat media.collection head).cBuff.capacity = blocksize := by
      show (Blocks.create uBufSize.toNat 0 media.collection).cBuff.capacity = _
      simp only [mb, sizeofHdFrame, sizeofMediaBlock, blocksize] at *
      omega
    obtain ⟨after, gathered, kept⟩ :=
      (addAll_of_short frames holds (Nat.not_le.mp headers) one).1 (room.resolve_left headers)
    exact ⟨frames, after, gathered, kept⟩

/-- A size that does not serve the frames ends outside the buffer. -/
theorem collect_of_not_serves {uBufSize : UInt32} (fails : ¬Serves uBufSize frames) :
    collect uBufSize media frames = .error .outOfBounds := by
  have bound : uBufSize.toNat < 2 ^ 32 := uBufSize.toNat_lt
  by_cases sized : 0 < uBufSize.toNat ∧ uBufSize.toNat + blocksize ≤ 2 ^ 32
  · obtain ⟨positive, small⟩ := sized
    obtain ⟨head, created, holds⟩ := create_holds media positive small
    obtain ⟨whole, large, upto⟩ := create_capacity media.collection positive small
    obtain ⟨headers, exceeds⟩ := not_or.mp fun room => fails ⟨⟨positive, small⟩, room⟩
    have one : (freshBlocks uBufSize.toNat media.collection head).cBuff.capacity = blocksize := by
      show (Blocks.create uBufSize.toNat 0 media.collection).cBuff.capacity = _
      simp only [mb, sizeofHdFrame, sizeofMediaBlock, blocksize] at *
      omega
    rw [collect, created, ok_bind]
    exact (addAll_of_short frames holds (Nat.not_le.mp headers) one).2 (Nat.not_le.mp exceeds)
  · rw [collect, create_fault, error_bind]
    simp only [Blocks.create, Buffer.zeroed, uint32, getBlockNum, blocksize] at *
    omega

end MultMediaBlocks

end ExmOnvif.Recorder
