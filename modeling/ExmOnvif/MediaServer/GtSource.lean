/-
This file models how the media server hands recorded video on, in pieces of the size that is
asked for, and is about the bytes that arrive.

A frame that does not go into one piece is handed on in several. What is left of it is counted,
but not where the rest begins: that is taken from the size of the piece before. Two pieces come
out right in this way. Where the rest is again too long for one piece, the size of that piece is
set to something else than its size.
-/

import Mathlib.Algebra.Ring.Nat
import ExmOnvif.Library.Bytes
import ExmOnvif.Library.Runs

namespace ExmOnvif.MediaServer

open Library

/-! ### The source -/

/-- `Blocks`, as far as they are read: what is behind `GetBuf`, and what `GetSize` gives. -/
structure Blocks where
  cBuff : Bytes
  uSize : Nat
  allocated : uSize ≤ cBuff.length
  unsigned : uSize < 2 ^ 32

/-- The bytes of a frame. -/
def Blocks.bytes (bs : Blocks) : Bytes :=
  bs.cBuff.take bs.uSize

/-- The fields of `GTsource`, and of the `FramedSource` below it, that decide what is handed on. -/
structure GTsource where
  videoQueue : List Blocks
  newFrameDataStart : Bytes
  newFrameSize : Nat
  isOver : Bool
  leftValue : Nat
  fTo : Bytes
  fMaxSize : Nat
  fFrameSize : Nat
  fNumTruncatedBytes : Nat

/-- What is asked for: a place for so many bytes at most. -/
structure Request where
  buffer : Bytes
  maxSize : Nat
  room : maxSize ≤ buffer.length
  unsigned : maxSize < 2 ^ 32

namespace GTsource

/-- `memmove` to `fTo`, from a place in the frame. Undefined outside of the two buffers. -/
def memmove (source : GTsource) (offset size : Nat) : Option GTsource :=
  if offset + size ≤ source.newFrameDataStart.length ∧ size ≤ source.fTo.length then
    some { source with
      fTo := (source.newFrameDataStart.drop offset).take size ++ source.fTo.drop size }
  else none

/-- `copyvideo`. Undefined when a frame is taken from an empty queue. -/
def copyvideo (source : GTsource) : Option GTsource :=
  if source.isOver = false then
    if source.fMaxSize < source.leftValue then
      -- The piece has `fMaxSize` bytes, which is not what `fFrameSize` becomes.
      match source.memmove source.fFrameSize source.fMaxSize with
      | none => none
      | some source => some { source with
          isOver := false
          fFrameSize := (source.fFrameSize + (source.leftValue - source.fMaxSize)) % 2 ^ 32
          leftValue := source.leftValue - source.fMaxSize }
    else
      match source.memmove source.fFrameSize source.leftValue with
      | none => none
      | some source => some { source with isOver := true, fFrameSize := source.leftValue }
  else
    match source.videoQueue with
    | [] => none
    | bs :: videoQueue =>
      if source.fMaxSize < bs.uSize then
        { source with
          videoQueue := videoQueue
          newFrameDataStart := bs.cBuff
          newFrameSize := bs.uSize
          isOver := false
          leftValue := bs.uSize - source.fMaxSize
          fFrameSize := source.fMaxSize
          fNumTruncatedBytes := bs.uSize - source.fMaxSize }.memmove 0 source.fMaxSize
      else
        { source with
          videoQueue := videoQueue
          newFrameDataStart := bs.cBuff
          newFrameSize := bs.uSize
          isOver := true
          fFrameSize := bs.uSize }.memmove 0 bs.uSize

/-- `getNextFrame`, which comes to `copyvideo` for video. -/
def getNextFrame (source : GTsource) (request : Request) : Option GTsource :=
  { source with
    fTo := request.buffer, fMaxSize := request.maxSize, fNumTruncatedBytes := 0 }.copyvideo

end GTsource

/-! ### Runs -/

/-- A piece as it is handed on: what was asked for, the size that is told, and the bytes. -/
structure Piece where
  maxSize : Nat
  size : Nat
  bytes : Bytes

/-- The piece behind a call. -/
def GTsource.piece (source : GTsource) : Piece :=
  ⟨source.fMaxSize, source.fFrameSize, source.fTo.take source.fFrameSize⟩

/-- The source, all frames that have been queued, and all pieces that have been handed on. -/
structure Playback where
  source : GTsource
  frames : List Blocks
  pieces : List Piece

/-- Another frame is queued, or a piece is asked for. -/
inductive Event where
  | push (bs : Blocks)
  | request (request : Request)

/-- What happens. -/
inductive Step : Playback → Event → Playback → Prop
  | push (play : Playback) (bs : Blocks) :
      Step play (.push bs) { play with
        source := { play.source with videoQueue := play.source.videoQueue ++ [bs] }
        frames := play.frames ++ [bs] }
  | request {play : Playback} {request : Request} {source : GTsource}
      (got : play.source.getNextFrame request = some source) :
      Step play (.request request)
        { play with source := source, pieces := play.pieces ++ [source.piece] }

namespace Playback

/-- Before the first call. -/
def start (source : GTsource) : Playback := ⟨source, source.videoQueue, []⟩

/-- The bytes handed on, one piece behind the other. -/
def delivered (play : Playback) : Bytes := play.pieces.flatMap Piece.bytes

/-- The frames that have been taken from the queue. -/
def popped (play : Playback) : List Blocks :=
  play.frames.take (play.frames.length - play.source.videoQueue.length)

/-- Every byte is handed on once and in order: no piece is larger than asked for, together they are
the beginning of the frames, and the source is at the end of a frame exactly when nothing of the
frames taken is missing. -/
structure Delivers (play : Playback) : Prop where
  bounded : ∀ piece ∈ play.pieces, piece.size ≤ piece.maxSize
  inOrder : play.delivered <+: play.frames.flatMap Blocks.bytes
  finished : play.source.isOver = true ↔ play.delivered = play.popped.flatMap Blocks.bytes

/-- A call does not come with more left of a frame than it asks for. -/
def Rests (play : Playback) : Event → Prop
  | .push _ => True
  | .request request => play.source.isOver = false → play.source.leftValue ≤ request.maxSize

end Playback

/-! ### One call -/

section Call

variable {source : GTsource} {request : Request}

/-- What lies at the beginning of the place after as many bytes were copied there. -/
theorem take_moved {data place : Bytes} {offset size : Nat} (inside : offset + size ≤ data.length) :
    ((data.drop offset).take size ++ place.drop size).take size = (data.drop offset).take size := by
  refine List.take_left' ?_
  rw [List.length_take, List.length_drop]
  omega

/-- The rest of a frame goes into one piece. -/
theorem getNextFrame_rest (started : source.isOver = false)
    (fits : source.leftValue ≤ request.maxSize)
    (inside : source.fFrameSize + source.leftValue ≤ source.newFrameDataStart.length) :
    ∃ after, source.getNextFrame request = some after ∧ after.isOver = true ∧
      after.videoQueue = source.videoQueue ∧ after.piece = ⟨request.maxSize, source.leftValue,
        (source.newFrameDataStart.drop source.fFrameSize).take source.leftValue⟩ := by
  refine ⟨{ source with
      fTo := (source.newFrameDataStart.drop source.fFrameSize).take source.leftValue ++
        request.buffer.drop source.leftValue
      fMaxSize := request.maxSize
      fNumTruncatedBytes := 0
      isOver := true
      fFrameSize := source.leftValue }, ?_, rfl, rfl, ?_⟩
  · rw [GTsource.getNextFrame, GTsource.copyvideo, if_pos started, if_neg (Nat.not_lt.mpr fits),
      GTsource.memmove, if_pos ⟨inside, Nat.le_trans fits request.room⟩]
  · exact congrArg (Piece.mk _ _) (take_moved inside)

section Pop

variable {bs : Blocks} {videoQueue : List Blocks}

/-- A frame that goes into one piece. -/
theorem getNextFrame_whole (atEnd : source.isOver = true)
    (queue : source.videoQueue = bs :: videoQueue) (fits : bs.uSize ≤ request.maxSize) :
    ∃ after, source.getNextFrame request = some after ∧ after.isOver = true ∧
      after.videoQueue = videoQueue ∧ after.piece = ⟨request.maxSize, bs.uSize, bs.bytes⟩ := by
  have inside : 0 + bs.uSize ≤ bs.cBuff.length := (Nat.zero_add _).symm ▸ bs.allocated
  refine ⟨{ source with
      videoQueue := videoQueue
      newFrameDataStart := bs.cBuff
      newFrameSize := bs.uSize
      fTo := (bs.cBuff.drop 0).take bs.uSize ++ request.buffer.drop bs.uSize
      fMaxSize := request.maxSize
      fNumTruncatedBytes := 0
      isOver := true
      fFrameSize := bs.uSize }, ?_, rfl, rfl, ?_⟩
  · have ended : ¬source.isOver = false := by
      rw [Bool.not_eq_false]
      exact atEnd
    rw [GTsource.getNextFrame, GTsource.copyvideo, if_neg ended]
    simp only [queue]
    rw [if_neg (Nat.not_lt.mpr fits), GTsource.memmove,
      if_pos ⟨inside, Nat.le_trans fits request.room⟩]
  · exact congrArg (Piece.mk _ _) (take_moved inside)

/-- The first piece of a frame that goes into several. -/
theorem getNextFrame_begin (atEnd : source.isOver = true)
    (queue : source.videoQueue = bs :: videoQueue) (larger : request.maxSize < bs.uSize) :
    ∃ after, source.getNextFrame request = some after ∧ after.isOver = false ∧
      after.videoQueue = videoQueue ∧ after.newFrameDataStart = bs.cBuff ∧
      after.fFrameSize = request.maxSize ∧ after.leftValue = bs.uSize - request.maxSize ∧
      after.piece = ⟨request.maxSize, request.maxSize, bs.bytes.take request.maxSize⟩ := by
  have inside : 0 + request.maxSize ≤ bs.cBuff.length := by
    rw [Nat.zero_add]
    exact Nat.le_trans (Nat.le_of_lt larger) bs.allocated
  refine ⟨{ source with
      videoQueue := videoQueue
      newFrameDataStart := bs.cBuff
      newFrameSize := bs.uSize
      fTo := (bs.cBuff.drop 0).take request.maxSize ++ request.buffer.drop request.maxSize
      fMaxSize := request.maxSize
      fNumTruncatedBytes := bs.uSize - request.maxSize
      isOver := false
      leftValue := bs.uSize - request.maxSize
      fFrameSize := request.maxSize }, ?_, rfl, rfl, rfl, rfl, rfl, ?_⟩
  · have ended : ¬source.isOver = false := by
      rw [Bool.not_eq_false]
      exact atEnd
    rw [GTsource.getNextFrame, GTsource.copyvideo, if_neg ended]
    simp only [queue]
    rw [if_pos larger, GTsource.memmove, if_pos ⟨inside, request.room⟩]
  · refine congrArg (Piece.mk _ _) ((take_moved inside).trans ?_)
    rw [List.drop_zero, Blocks.bytes, List.take_take, Nat.min_eq_left (Nat.le_of_lt larger)]

end Pop

/-- No frame can be taken from an empty queue. -/
theorem getNextFrame_empty (atEnd : source.isOver = true) (queue : source.videoQueue = []) :
    source.getNextFrame request = none := by
  have ended : ¬source.isOver = false := by
    rw [Bool.not_eq_false]
    exact atEnd
  rw [GTsource.getNextFrame, GTsource.copyvideo, if_neg ended]
  simp only [queue]

end Call

/-! ### What has been handed on -/

/-- What has been handed on of some frames: all of them, or the beginning of the last one, with the
rest of it where the size of the last piece says. -/
inductive Handed (source : GTsource) (delivered : Bytes) : List Blocks → Prop
  | ended {popped : List Blocks} (atEnd : source.isOver = true)
      (all : delivered = popped.flatMap Blocks.bytes) : Handed source delivered popped
  | inside {popped : List Blocks} {bs : Blocks} (started : source.isOver = false)
      (place : source.newFrameDataStart = bs.cBuff)
      (counted : source.fFrameSize + source.leftValue = bs.uSize) (left : 0 < source.leftValue)
      (begun : delivered = popped.flatMap Blocks.bytes ++ bs.bytes.take source.fFrameSize) :
      Handed source delivered (popped ++ [bs])

section Handed

variable {source : GTsource} {delivered : Bytes} {popped : List Blocks}

theorem flatMap_snoc (popped : List Blocks) (bs : Blocks) :
    (popped ++ [bs]).flatMap Blocks.bytes = popped.flatMap Blocks.bytes ++ bs.bytes := by
  rw [List.flatMap_append, List.flatMap_singleton]

theorem length_bytes (bs : Blocks) : bs.bytes.length = bs.uSize :=
  List.length_take_of_le bs.allocated

theorem Handed.isPrefix (handed : Handed source delivered popped) :
    delivered <+: popped.flatMap Blocks.bytes := by
  cases handed with
  | ended atEnd all =>
    exact all ▸ List.prefix_refl _
  | inside started place counted left begun =>
    rw [begun, flatMap_snoc]
    exact (List.prefix_append_right_inj _).mpr (List.take_prefix _ _)

theorem Handed.over_iff (handed : Handed source delivered popped) :
    source.isOver = true ↔ delivered = popped.flatMap Blocks.bytes := by
  cases handed with
  | ended atEnd all => exact ⟨fun _ => all, fun _ => atEnd⟩
  | @inside popped bs started place counted left begun =>
    rw [started, begun, flatMap_snoc]
    constructor
    · intro atEnd
      cases atEnd
    · intro same
      have lengths := congrArg List.length (List.append_cancel_left same)
      rw [List.length_take, length_bytes] at lengths
      omega

/-- A call that does not come with more left than it asks for hands on what is next. -/
theorem Handed.request {request : Request} (handed : Handed source delivered popped)
    (rests : source.isOver = false → source.leftValue ≤ request.maxSize)
    (more : source.isOver = true → source.videoQueue ≠ []) :
    ∃ after popped', source.getNextFrame request = some after ∧
      popped' ++ after.videoQueue = popped ++ source.videoQueue ∧
      Handed after (delivered ++ after.piece.bytes) popped' ∧
      after.piece.size ≤ after.piece.maxSize := by
  cases handed with
  | @inside popped bs started place counted left begun =>
    have within : source.fFrameSize + source.leftValue ≤ source.newFrameDataStart.length := by
      rw [place, counted]
      exact bs.allocated
    obtain ⟨after, got, atEnd, queue, piece⟩ := getNextFrame_rest started (rests started) within
    refine ⟨after, popped ++ [bs], got, queue ▸ rfl, .ended atEnd ?_, piece ▸ rests started⟩
    have rest : (bs.cBuff.drop source.fFrameSize).take source.leftValue =
        bs.bytes.drop source.fFrameSize := by
      rw [Blocks.bytes, List.drop_take, ← counted, Nat.add_sub_cancel_left]
    rw [piece, begun, flatMap_snoc, place, rest, List.append_assoc, List.take_append_drop]
  | ended atEnd all =>
    cases queue : source.videoQueue with
    | nil => exact absurd queue (more atEnd)
    | cons bs videoQueue =>
      by_cases larger : request.maxSize < bs.uSize
      · obtain ⟨after, got, started, queue', place, size, left, piece⟩ :=
          getNextFrame_begin atEnd queue larger
        refine ⟨after, popped ++ [bs], got, ?_, .inside started place ?_ ?_ ?_, ?_⟩
        · rw [queue', List.append_assoc]
          rfl
        · omega
        · omega
        · rw [piece, all, size]
        · exact piece ▸ Nat.le_refl _
      · obtain ⟨after, got, atEnd', queue', piece⟩ :=
          getNextFrame_whole atEnd queue (Nat.not_lt.mp larger)
        refine ⟨after, popped ++ [bs], got, ?_, .ended atEnd' ?_, ?_⟩
        · rw [queue', List.append_assoc]
          rfl
        · rw [piece, all, flatMap_snoc]
        · rw [piece]
          exact Nat.not_lt.mp larger

end Handed

/-! ### Runs of calls -/

namespace Playback

/-- What every step keeps. -/
structure Sound (play : Playback) : Prop where
  bounded : ∀ piece ∈ play.pieces, piece.size ≤ piece.maxSize
  handed : ∃ popped, popped ++ play.source.videoQueue = play.frames ∧
    Handed play.source play.delivered popped

theorem sound_start {source : GTsource} (atEnd : source.isOver = true) : (start source).Sound :=
  ⟨fun _ member => absurd member List.not_mem_nil, [], rfl, .ended atEnd rfl⟩

theorem Sound.step {before after : Playback} {event : Event} (sound : before.Sound)
    (step : Step before event after) (rests : before.Rests event) : after.Sound := by
  obtain ⟨popped, queued, handed⟩ := sound.handed
  cases step with
  | push bs =>
    refine ⟨sound.bounded, popped, ?_, ?_⟩
    · rw [← queued, List.append_assoc]
    · cases handed with
      | ended atEnd all => exact .ended atEnd all
      | inside started place counted left begun => exact .inside started place counted left begun
  | @request request source got =>
    have more : before.source.isOver = true → before.source.videoQueue ≠ [] := by
      intro atEnd empty
      rw [getNextFrame_empty atEnd empty] at got
      cases got
    obtain ⟨after, popped', got', queued', handed', fits⟩ := handed.request rests more
    rw [got, Option.some.injEq] at got'
    subst got'
    refine ⟨?_, popped', queued'.trans queued, ?_⟩
    · intro piece member
      rcases List.mem_append.mp member with earlier | last
      · exact sound.bounded piece earlier
      · rw [List.mem_singleton.mp last]
        exact fits
    · rw [delivered, List.flatMap_append, List.flatMap_singleton]
      exact handed'

theorem Sound.delivers {play : Playback} (sound : play.Sound) : play.Delivers := by
  obtain ⟨popped, queued, handed⟩ := sound.handed
  have taken : play.popped = popped := by
    rw [Playback.popped, ← queued, List.length_append, Nat.add_sub_cancel]
    exact List.take_left' rfl
  refine ⟨sound.bounded, ?_, taken.symm ▸ handed.over_iff⟩
  rw [← queued, List.flatMap_append]
  exact handed.isPrefix.trans (List.prefix_append _ _)

/-- A step in which no call comes with more left of a frame than it asks for. -/
def RestingStep (before : Playback) (event : Event) (after : Playback) : Prop :=
  Step before event after ∧ before.Rests event

/-- In every run in which no call comes with more left of a frame than it asks for, every byte is
handed on once and in order, and the next such call is defined unless the queue is empty where a
frame is due. -/
theorem run_delivers {source : GTsource} {events : List Event} {play : Playback}
    (atEnd : source.isOver = true)
    (run : Library.Runs RestingStep (start source) events play) :
    play.Delivers ∧ ∀ request, play.Rests (.request request) →
      (play.source.isOver = true → play.source.videoQueue ≠ []) →
        ∃ after, Step play (.request request) after := by
  have sound : play.Sound := run.invariant (sound_start atEnd)
    fun _ _ _ step sound => sound.step step.1 step.2
  refine ⟨sound.delivers, fun request rests more => ?_⟩
  obtain ⟨popped, -, handed⟩ := sound.handed
  obtain ⟨after, -, got, -⟩ := handed.request rests more
  exact ⟨_, .request got⟩

/-- A frame of some bytes, and a request for two, three or four. -/
def frameOf (bytes : Bytes) (small : bytes.length < 2 ^ 32) : Blocks :=
  ⟨bytes, bytes.length, Nat.le_refl _, small⟩
def two : Request := ⟨[0, 0], 2, Nat.le_refl _, by decide⟩
def three : Request := ⟨[0, 0, 0], 3, Nat.le_refl _, by decide⟩
def four : Request := ⟨[0, 0, 0, 0], 4, Nat.le_refl _, by decide⟩

/-- A source behind nothing, with frames in the queue. -/
def fresh (videoQueue : List Blocks) : GTsource :=
  ⟨videoQueue, [], 0, true, 0, [], 0, 0, 0⟩

theorem two_pieces_delivered : ∃ play : Playback,
    play.delivered = [1, 2, 3, 4, 5] ∧ play.source.isOver = true ∧ play.Delivers := by
  have first := (@Library.Runs.nil _ _ RestingStep
      (start (fresh [frameOf [1, 2, 3, 4, 5] (by decide)]))).snoc
    ⟨@Step.request _ three _ rfl, fun started => Bool.noConfusion started⟩
  have second := first.snoc ⟨@Step.request _ four _ rfl, fun _ => by decide⟩
  exact ⟨_, rfl, rfl, (run_delivers rfl second).1⟩

/-- Every run delivers what it should, which is not so: of a frame of six bytes, in pieces of two,
the second piece is told to have four. -/
theorem second_piece_too_large : ¬∀ source events play, source.isOver = true →
    Library.Runs Step (start source) events play → play.Delivers := by
  intro all
  have first := (@Library.Runs.nil _ _ Step
      (start (fresh (List.replicate 10 (frameOf [1, 2, 3, 4, 5, 6] (by decide)))))).snoc
    (@Step.request _ two _ rfl)
  have delivers := all _ _ _ rfl (first.snoc (@Step.request _ two _ rfl))
  have fits := delivers.bounded _ (List.mem_append_right _ (List.mem_singleton_self _))
  exact absurd fits (by decide)

end Playback

end ExmOnvif.MediaServer
