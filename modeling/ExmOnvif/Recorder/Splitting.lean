/-
This file follows the two loops of `ReadDisk::readdataprocess` over whatever the disk holds
behind a valid head. The size of the collection and the sizes of its frames come from the
block itself, and neither loop looks where it is.

Each loop counts down the size that is left, in unsigned arithmetic, and stops at zero. When the
sizes do not add up the count passes zero and wraps, and the loop goes on through the memory
behind the buffer. The loops stop inside their buffers exactly when the sizes add up.
-/

import ExmOnvif.Recorder.Checksum
import ExmOnvif.Recorder.MediaGroup

namespace ExmOnvif.Recorder

open Library MultMediaBlocks

/-! ### The loops -/

/-- What `push` is called with: a place in the buffer, a length, and the mark of an I frame. -/
structure PushCall where
  place : Nat
  length : Nat
  isI : Bool
deriving DecidableEq, Repr

/-- The `size` of the `struct media_block` at `place`. -/
def mbSize (memory : Memory) (place : Nat) : Nat := wordOf (load memory (place + sizeField) 4)

/-- A loop of `readdataprocess` with `fuel` tests left, from its test number `turn` on, where
`isRead` says what each test finds in `isRead`. A loop that is still going on is `none`. -/
def splitLoop (memory : Memory) (isRead : Nat → Bool) :
    Nat → Nat → Nat → Nat → Bool → Option (List PushCall)
  | 0, _, _, _, _ => none
  | fuel + 1, turn, place, size, isfirst =>
    if isRead turn ∧ 0 < size then do
      let pushed ← splitLoop memory isRead fuel (turn + 1)
        (place + sizeofMediaBlock + mbSize memory place)
        (uint32Sub (uint32Sub size (mbSize memory place)) sizeofMediaBlock) false
      pure (⟨place + sizeofMediaBlock, mbSize memory place, isfirst⟩ :: pushed)
    else pure []

/-- The loop over the collection in a block, from its first test on. -/
def splitCollection (memory : Memory) (isRead : Nat → Bool) (isfirst : Bool) (fuel : Nat) :
    Option (List PushCall) :=
  splitLoop memory isRead fuel 0 (mb + sizeofMediaBlock)
    (uint32Sub (mbSize memory mb) sizeofMediaBlock) isfirst

/-- The loop stops, however `isRead` changes meanwhile, and every frame it pushes lies inside the
buffer. -/
def SplitsInside (buffer : Buffer) (isfirst : Bool) : Prop :=
  ∀ isRead : Nat → Bool, ∃ fuel pushed,
    splitCollection buffer.memory isRead isfirst fuel = some pushed ∧
      ∀ call ∈ pushed, call.place + call.length ≤ buffer.capacity

/-- Both loops of `readdataprocess` stop and stay inside their buffers. -/
def RobustSplitting (video audio : Blocks) : Prop :=
  SplitsInside video.cBuff true ∧ SplitsInside audio.cBuff false

/-! ### Sizes that add up -/

/-- From one frame header to the next, the sizes lead from `place` to `stop`. -/
inductive LeadsTo (memory : Memory) (stop : Nat) : Nat → Prop
  | stop : LeadsTo memory stop stop
  | frame {place : Nat} :
      LeadsTo memory stop (place + sizeofMediaBlock + mbSize memory place) →
        LeadsTo memory stop place

/-- The sizes of the frames add up to the size of the collection, which counts its own header,
and the collection lies inside the buffer. -/
structure AddsUp (buffer : Buffer) : Prop where
  header : sizeofMediaBlock ≤ mbSize buffer.memory mb
  inside : mb + mbSize buffer.memory mb ≤ buffer.capacity
  frames : LeadsTo buffer.memory (mb + mbSize buffer.memory mb) (mb + sizeofMediaBlock)

variable {memory : Memory} {stop place : Nat}

theorem LeadsTo.le (leads : LeadsTo memory stop place) : place ≤ stop := by
  induction leads with
  | stop => exact Nat.le_refl _
  | frame _ inductionHypothesis => omega

/-- Before its end a chain has a frame. -/
theorem LeadsTo.next (leads : LeadsTo memory stop place) (before : place < stop) :
    LeadsTo memory stop (place + sizeofMediaBlock + mbSize memory place) := by
  cases leads with
  | stop => exact absurd before (Nat.lt_irrefl _)
  | frame rest => exact rest

theorem uint32Sub_lt (left right : Nat) : uint32Sub left right < 2 ^ 32 :=
  Nat.mod_lt _ (Nat.two_pow_pos _)

theorem splitLoop_stopped (memory : Memory) {isRead : Nat → Bool} {turn size : Nat} (place : Nat)
    (isfirst : Bool) (stopped : ¬(isRead turn ∧ 0 < size)) :
    splitLoop memory isRead 1 turn place size isfirst = some [] :=
  if_neg stopped

/-- Sizes that lead to the end of a buffer keep the loop inside it. -/
theorem LeadsTo.splitLoop {capacity : Nat} (leads : LeadsTo memory stop place)
    (inside : stop ≤ capacity) (small : capacity < 2 ^ 32) (isRead : Nat → Bool) (turn : Nat)
    (isfirst : Bool) :
    ∃ fuel pushed,
      splitLoop memory isRead fuel turn place (stop - place) isfirst = some pushed ∧
        ∀ call ∈ pushed, call.place + call.length ≤ capacity := by
  induction leads generalizing turn isfirst with
  | stop =>
    refine ⟨1, [], splitLoop_stopped _ _ _ ?_, List.forall_mem_nil _⟩
    omega
  | @frame place rest inductionHypothesis =>
    have within := rest.le
    by_cases goes : isRead turn ∧ 0 < stop - place
    · obtain ⟨fuel, pushed, done, all⟩ := inductionHypothesis (turn + 1) false
      have left : uint32Sub (uint32Sub (stop - place) (mbSize memory place)) sizeofMediaBlock =
          stop - (place + sizeofMediaBlock + mbSize memory place) := by
        simp only [uint32Sub, uint32, sizeofMediaBlock] at *
        omega
      refine ⟨fuel + 1, ⟨place + sizeofMediaBlock, _, isfirst⟩ :: pushed, ?_,
        List.forall_mem_cons.mpr ⟨Nat.le_trans within inside, all⟩⟩
      rw [Recorder.splitLoop, if_pos goes, left, done]
      rfl
    · exact ⟨1, [], splitLoop_stopped _ _ _ goes, List.forall_mem_nil _⟩

/-- One turn of a loop that stays inside the buffer: what is left adds up exactly when the whole
does. Had the count wrapped, what is left would reach past every buffer. -/
theorem leadsTo_turn {capacity size : Nat} (small : capacity < 2 ^ 32) (left : 0 < size)
    (bounded : size < 2 ^ 32) (here : place + sizeofMediaBlock + mbSize memory place ≤ capacity) :
    LeadsTo memory (place + sizeofMediaBlock + mbSize memory place +
          uint32Sub (uint32Sub size (mbSize memory place)) sizeofMediaBlock)
        (place + sizeofMediaBlock + mbSize memory place) ∧
      place + sizeofMediaBlock + mbSize memory place +
        uint32Sub (uint32Sub size (mbSize memory place)) sizeofMediaBlock ≤ capacity ↔
    LeadsTo memory (place + size) place ∧ place + size ≤ capacity := by
  have total : place + sizeofMediaBlock + mbSize memory place +
        uint32Sub (uint32Sub size (mbSize memory place)) sizeofMediaBlock ≤ capacity ∨
      place + sizeofMediaBlock + mbSize memory place ≤ place + size →
      place + sizeofMediaBlock + mbSize memory place +
        uint32Sub (uint32Sub size (mbSize memory place)) sizeofMediaBlock = place + size := by
    simp only [uint32Sub, uint32, sizeofMediaBlock] at *
    omega
  constructor
  · rintro ⟨leads, ends⟩
    rw [total (Or.inl ends)] at leads ends
    exact ⟨leads.frame, ends⟩
  · rintro ⟨leads, ends⟩
    have next := leads.next (Nat.lt_add_of_pos_right left)
    rw [total (Or.inr next.le)]
    exact ⟨next, ends⟩

/-- A loop that is never told to stop and stays inside its buffer was led by sizes that add up. -/
theorem leadsTo_of_splitLoop {capacity fuel turn size : Nat} {isfirst : Bool}
    {pushed : List PushCall} (small : capacity < 2 ^ 32) (started : place ≤ capacity)
    (bounded : size < 2 ^ 32)
    (done : splitLoop memory (fun _ => true) fuel turn place size isfirst = some pushed)
    (inside : ∀ call ∈ pushed, call.place + call.length ≤ capacity) :
    LeadsTo memory (place + size) place ∧ place + size ≤ capacity := by
  induction fuel generalizing turn place size isfirst pushed with
  | zero => cases done
  | succ fuel inductionHypothesis =>
    by_cases left : 0 < size
    · rw [splitLoop, if_pos ⟨rfl, left⟩] at done
      obtain ⟨rest, going, equal⟩ := Option.bind_eq_some_iff.mp done
      cases equal
      have here : place + sizeofMediaBlock + mbSize memory place ≤ capacity :=
        inside _ (List.mem_cons_self ..)
      exact (leadsTo_turn small left bounded here).mp (inductionHypothesis here
        (uint32Sub_lt _ _) going fun call member => inside call (List.mem_cons_of_mem _ member))
    · obtain rfl := Nat.eq_zero_of_not_pos left
      exact ⟨.stop, started⟩

/-- What the loop counts down adds up exactly when the collection does. -/
theorem addsUp_iff {buffer : Buffer} (small : buffer.capacity < 2 ^ 32) :
    AddsUp buffer ↔
      LeadsTo buffer.memory (mb + sizeofMediaBlock +
          uint32Sub (mbSize buffer.memory mb) sizeofMediaBlock) (mb + sizeofMediaBlock) ∧
        mb + sizeofMediaBlock + uint32Sub (mbSize buffer.memory mb) sizeofMediaBlock ≤
          buffer.capacity := by
  have bounded : mbSize buffer.memory mb < 2 ^ 32 := wordOf_lt _
  have total : sizeofMediaBlock ≤ mbSize buffer.memory mb →
      mb + sizeofMediaBlock + uint32Sub (mbSize buffer.memory mb) sizeofMediaBlock =
        mb + mbSize buffer.memory mb := by
    simp only [uint32Sub, uint32, sizeofMediaBlock] at *
    omega
  constructor
  · rintro ⟨counted, ends, leads⟩
    rw [total counted]
    exact ⟨leads, ends⟩
  · rintro ⟨leads, ends⟩
    have counted : sizeofMediaBlock ≤ mbSize buffer.memory mb := by
      simp only [uint32Sub, uint32, sizeofMediaBlock] at *
      omega
    rw [total counted] at leads ends
    exact ⟨counted, ends, leads⟩

/-- The header of the collection lies inside the buffer: then the loop over it is safe exactly
when the sizes add up. -/
theorem splitsInside_iff {buffer : Buffer} (isfirst : Bool) (small : buffer.capacity < 2 ^ 32)
    (header : mb + sizeofMediaBlock ≤ buffer.capacity) :
    SplitsInside buffer isfirst ↔ AddsUp buffer := by
  rw [addsUp_iff small]
  constructor
  · intro safe
    obtain ⟨fuel, pushed, done, inside⟩ := safe fun _ => true
    exact leadsTo_of_splitLoop small header (uint32Sub_lt _ _) done inside
  · rintro ⟨leads, ends⟩ isRead
    have size := Nat.add_sub_cancel_left (n := mb + sizeofMediaBlock)
      (m := uint32Sub (mbSize buffer.memory mb) sizeofMediaBlock)
    unfold splitCollection
    rw [← size]
    exact leads.splitLoop ends small isRead 0 isfirst

/-! ### The loops with a bound on their turns -/

section Bounded

variable {buffer : Buffer}

theorem splitFrames_zero (turns place : Nat) (isfirst : Bool) :
    splitFrames buffer turns place 0 isfirst = .ok [] := by
  cases turns with
  | zero => rfl
  | succ turns => rfl

/-- A turn inside the buffer pushes its frame. -/
theorem splitFrames_inside {turns size : Nat} (isfirst : Bool)
    (small : buffer.capacity + blocksize ≤ 2 ^ 32) (left : 0 < size)
    (here : place + sizeofMediaBlock + mbSize buffer.memory place ≤ buffer.capacity) :
    ∃ pushed, splitFrames buffer (turns + 1) place size isfirst =
      splitFrames buffer turns (place + sizeofMediaBlock + mbSize buffer.memory place)
        (uint32Sub (uint32Sub size (mbSize buffer.memory place)) sizeofMediaBlock) false >>=
          fun rest => pure (pushed :: rest) := by
  have header : place + sizeField + 4 ≤ buffer.capacity := by
    simp only [sizeofMediaBlock, sizeField] at *
    omega
  have short : (load buffer.memory (place + sizeofMediaBlock)
      (mbSize buffer.memory place)).length + blocksize ≤ 2 ^ 32 := by
    rw [load_length]
    omega
  obtain ⟨pushed, queued, -⟩ := push_eq isfirst short
  have length : buffer.word (place + sizeField) = mbSize buffer.memory place := rfl
  refine ⟨pushed, ?_⟩
  rw [splitFrames, if_neg (Nat.ne_of_gt left), Buffer.getWord_of_le header, ok_bind, length,
    Buffer.get_of_le here, ok_bind, queued, ok_bind]

/-- A turn that leaves the buffer is a fault. -/
theorem splitFrames_outside {turns size : Nat} (isfirst : Bool) (left : 0 < size)
    (out : ¬place + sizeofMediaBlock + mbSize buffer.memory place ≤ buffer.capacity) :
    splitFrames buffer (turns + 1) place size isfirst = .error .outOfBounds := by
  rw [splitFrames, if_neg (Nat.ne_of_gt left), Buffer.getWord]
  by_cases header : place + sizeField + 4 ≤ buffer.capacity
  · have bytes : buffer.get (place + sizeofMediaBlock) (buffer.word (place + sizeField)) =
        .error .outOfBounds := if_neg out
    rw [if_pos header, ok_bind, bytes, error_bind]
  · rw [if_neg header, error_bind]

/-- What is done with a result does not decide whether there is one. -/
theorem bind_pure_ok_iff {Value Result : Type} {value : Except Fault Value}
    (done : Value → Result) :
    (∃ result, (value >>= fun rest => pure (done rest)) = .ok result) ↔
      ∃ rest, value = .ok rest := by
  cases value with
  | error fault => exact iff_of_false (fun ⟨_, ok⟩ => nomatch ok) fun ⟨_, ok⟩ => nomatch ok
  | ok rest => exact iff_of_true ⟨done rest, rfl⟩ ⟨rest, rfl⟩

/-- `splitFrames` counts its turns and stops with a fault where it would leave the buffer. It
comes to an end exactly when the sizes add up. -/
theorem splitFrames_ok_iff {turns size : Nat} (isfirst : Bool)
    (small : buffer.capacity + blocksize ≤ 2 ^ 32) (started : place ≤ buffer.capacity)
    (bounded : size < 2 ^ 32)
    (enough : place + size ≤ buffer.capacity → size ≤ turns * sizeofMediaBlock) :
    (∃ queue, splitFrames buffer turns place size isfirst = .ok queue) ↔
      LeadsTo buffer.memory (place + size) place ∧ place + size ≤ buffer.capacity := by
  have below : buffer.capacity < 2 ^ 32 := Nat.lt_of_lt_of_le (Nat.lt_add_of_pos_right (by decide))
    small
  induction turns generalizing place size isfirst with
  | zero =>
    by_cases left : 0 < size
    · rw [splitFrames, if_neg (Nat.ne_of_gt left)]
      refine iff_of_false ?_ ?_
      · rintro ⟨_, faulty⟩
        cases faulty
      · rintro ⟨_, ends⟩
        have none := enough ends
        omega
    · obtain rfl := Nat.eq_zero_of_not_pos left
      exact iff_of_true ⟨[], splitFrames_zero ..⟩ ⟨.stop, started⟩
  | succ turns inductionHypothesis =>
    by_cases left : 0 < size
    · by_cases here : place + sizeofMediaBlock + mbSize buffer.memory place ≤ buffer.capacity
      · obtain ⟨pushed, turn⟩ := @splitFrames_inside place buffer turns size isfirst small left here
        have fewer : place + sizeofMediaBlock + mbSize buffer.memory place +
            uint32Sub (uint32Sub size (mbSize buffer.memory place)) sizeofMediaBlock ≤
              buffer.capacity →
            uint32Sub (uint32Sub size (mbSize buffer.memory place)) sizeofMediaBlock ≤
              turns * sizeofMediaBlock := by
          simp only [uint32Sub, uint32, sizeofMediaBlock] at *
          omega
        rw [turn]
        exact (bind_pure_ok_iff _).trans
          ((inductionHypothesis false here (uint32Sub_lt _ _) fewer).trans
            (leadsTo_turn below left bounded here))
      · rw [splitFrames_outside isfirst left here]
        refine iff_of_false ?_ ?_
        · rintro ⟨_, faulty⟩
          cases faulty
        · rintro ⟨leads, ends⟩
          exact here (Nat.le_trans (leads.next (Nat.lt_add_of_pos_right left)).le ends)
    · obtain rfl := Nat.eq_zero_of_not_pos left
      exact iff_of_true ⟨[], splitFrames_zero ..⟩ ⟨.stop, started⟩

end Bounded

/-! ### Blocks with a valid head -/

/-- A buffer as `SecBlocks(uBufSize, llSeek)` lets it through: whole disk blocks that start with
the head. The sizes in it may be anything, and so may the checksum. -/
structure Opened (buffer : Buffer) : Prop where
  whole : ∃ size, buffer.capacity = uint32 (getBlockNum size * blocksize)
  inside : SecBlocks.framehead.length ≤ buffer.capacity
  head : load buffer.memory 0 SecBlocks.framehead.length = SecBlocks.framehead

theorem Opened.room {buffer : Buffer} (opened : Opened buffer) :
    mb + sizeofMediaBlock ≤ buffer.capacity ∧ buffer.capacity + blocksize ≤ 2 ^ 32 := by
  obtain ⟨⟨size, whole⟩, inside, -⟩ := opened
  simp only [uint32, blocksize, mb, sizeofHdFrame, sizeofMediaBlock,
    SecBlocks.framehead_length] at *
  omega

theorem Opened.splitsInside_iff {buffer : Buffer} (opened : Opened buffer) (isfirst : Bool) :
    SplitsInside buffer isfirst ↔ AddsUp buffer := by
  obtain ⟨header, small⟩ := opened.room
  refine Recorder.splitsInside_iff isfirst (Nat.lt_of_lt_of_le ?_ small) header
  exact Nat.lt_add_of_pos_right (by decide)

/-- The loop with a bound on its turns, over such a buffer. -/
theorem Opened.splitFrames {buffer : Buffer} (opened : Opened buffer) (isfirst : Bool) :
    buffer.getWord (mb + sizeField) = .ok (mbSize buffer.memory mb) ∧
      ((∃ queue, splitFrames buffer (buffer.capacity / sizeofMediaBlock) (mb + sizeofMediaBlock)
          (uint32Sub (mbSize buffer.memory mb) sizeofMediaBlock) isfirst = .ok queue) ↔
        AddsUp buffer) := by
  obtain ⟨header, small⟩ := opened.room
  have below : buffer.capacity < 2 ^ 32 :=
    Nat.lt_of_lt_of_le (Nat.lt_add_of_pos_right (by decide)) small
  refine ⟨Buffer.getWord_of_le (Nat.le_trans (by decide) header), ?_⟩
  rw [addsUp_iff below]
  refine splitFrames_ok_iff isfirst small header (uint32Sub_lt _ _) fun ends => ?_
  simp only [mb, sizeofHdFrame, sizeofMediaBlock] at *
  omega

/-- What the constructor returns is such a buffer. -/
theorem read_opened {disk : Memory} {uBufSize llSeek crc : Nat} {blocks : Blocks}
    (done : SecBlocks.read disk uBufSize llSeek = .ok (crc, blocks)) : Opened blocks.cBuff := by
  obtain ⟨filled, copied, done⟩ := bind_eq_ok done
  obtain ⟨head, taken, done⟩ := bind_eq_ok done
  obtain ⟨inside, rfl⟩ := Buffer.get_eq_ok taken
  by_cases valid : load filled.memory 0 SecBlocks.framehead.length = SecBlocks.framehead
  · rw [if_neg (not_not.mpr valid)] at done
    obtain ⟨verified, checked, done⟩ := bind_eq_ok done
    rw [(SecBlocks.inside_of_verifyCrc checked).verifyCrc] at checked
    cases checked
    cases done
    refine ⟨⟨uint32 (uBufSize + sizeofHdFrame), ?_⟩, ?_, valid⟩
    · rw [Buffer.put_eq_ok copied]
      rfl
    · rw [← Nat.zero_add SecBlocks.framehead.length]
      exact inside
  · rw [if_pos valid] at done
    cases done

/-- For blocks with a valid head, `readdataprocess` comes to its end exactly when the sizes add
up in both. -/
theorem readdataprocess_ok_iff {video audio : Blocks} (videoOpened : Opened video.cBuff)
    (audioOpened : Opened audio.cBuff) :
    (∃ queues, readdataprocess video audio = .ok queues) ↔
      AddsUp video.cBuff ∧ AddsUp audio.cBuff := by
  obtain ⟨videoWord, videoSplit⟩ := videoOpened.splitFrames true
  obtain ⟨audioWord, audioSplit⟩ := audioOpened.splitFrames false
  rw [readdataprocess, videoWord, ok_bind, audioWord, ok_bind, ← videoSplit, ← audioSplit]
  constructor
  · rintro ⟨queues, done⟩
    obtain ⟨videoQueue, videoDone, done⟩ := bind_eq_ok done
    obtain ⟨audioQueue, audioDone, _⟩ := bind_eq_ok done
    exact ⟨⟨videoQueue, videoDone⟩, audioQueue, audioDone⟩
  · rintro ⟨⟨videoQueue, videoDone⟩, audioQueue, audioDone⟩
    rw [videoDone, ok_bind, audioDone, ok_bind]
    exact ⟨_, rfl⟩

/-- For all blocks with a valid head: both loops stop and stay inside their buffers, however
`isRead` changes, if and only if the sizes add up in both blocks. -/
theorem splitting_robust_iff {video audio : Blocks} (videoOpened : Opened video.cBuff)
    (audioOpened : Opened audio.cBuff) :
    RobustSplitting video audio ↔ AddsUp video.cBuff ∧ AddsUp audio.cBuff :=
  and_congr (videoOpened.splitsInside_iff true) (audioOpened.splitsInside_iff false)

/-- A block with one frame of 16 bytes. -/
def oneFrame : Blocks := ⟨SecBlocks.smallBlock, .noblock, 68, 1, 2046⟩

theorem smallBlock_opened : Opened SecBlocks.smallBlock :=
  ⟨⟨1, by decide⟩, by decide, by decide +kernel⟩

theorem splitting_robust_iff_one_frame :
    RobustSplitting oneFrame oneFrame ↔ AddsUp oneFrame.cBuff ∧ AddsUp oneFrame.cBuff :=
  splitting_robust_iff smallBlock_opened smallBlock_opened

/-- The same block after a torn write: the size of the frame is `17`, one more than there is. -/
def tornFrame : Blocks :=
  { oneFrame with
    cBuff := SecBlocks.smallBlock.stored (mb + sizeofMediaBlock + sizeField) (wordBytes 17) }

theorem tornFrame_opened : Opened tornFrame.cBuff :=
  ⟨⟨1, by decide⟩, by decide, by decide +kernel⟩

/-- The count passes zero, and the loop goes on behind the buffer. -/
theorem torn_frame_leaves : Opened tornFrame.cBuff ∧ Opened oneFrame.cBuff ∧
    ¬RobustSplitting tornFrame oneFrame := by
  refine ⟨tornFrame_opened, smallBlock_opened, fun ⟨safe, _⟩ => ?_⟩
  obtain ⟨-, -, frames⟩ := (tornFrame_opened.splitsInside_iff true).mp safe
  have size : mbSize tornFrame.cBuff.memory mb = 48 := by decide +kernel
  have torn : mbSize tornFrame.cBuff.memory (mb + sizeofMediaBlock) = 17 := by decide +kernel
  have past := (frames.next (by rw [size]; decide)).le
  rw [size, torn] at past
  exact absurd past (by decide)

end ExmOnvif.Recorder
