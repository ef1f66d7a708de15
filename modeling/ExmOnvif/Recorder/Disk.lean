/-
This file models the recorder's disk as the history of what was written to it.

The history also notes when a day enters and leaves the year queue and when a
group enters a day table. What the disk holds at a place is what the newest write
that touches the place put there: a table or a head block is read back when that
write put it there whole, and nothing can be said about it when another write cut
into it or the driver refused the write.
-/

import ExmOnvif.Recorder.YearBlocks
import ExmOnvif.Recorder.DayBlocks

namespace ExmOnvif.Recorder

/-! ### What is written -/

/-- `struct one_channel_media`: where a group keeps the media of one channel. -/
structure ChannelHead where
  videoSeek : Int
  videoBufSize : Nat
  audioSeek : Int
  audioBufSize : Nat
deriving DecidableEq

/-- `struct mult_media_block`: the head block of a group. -/
structure HeadBlock where
  allMediaHead : List ChannelHead
  nextMultMediaBlock : Int
deriving DecidableEq

/-- The five kinds of object the recorder writes. A day table carries the number of the
`DayBlocks` object it was written from. -/
inductive Content where
  | yearTable (yb : YearBlock)
  | backup (table : DayTable)
  | dayTable (number : Nat) (table : DayTable)
  | media
  | head (block : HeadBlock)

/-- One call of `hd_write`. -/
structure Write where
  seek : Int
  blocks : Int
  content : Content
  stored : Bool

/-- The history of a disk: its writes, and the changes of the year queue. -/
inductive Event where
  | wrote (write : Write)
  | listed (number : Nat) (sb : SeekBlock)
  | unlisted
  | indexed (now : Nat) (day : Int) (sb : SeekBlock)

/-- Two stretches of blocks have no block in common. -/
def Apart (seek blocks otherSeek otherBlocks : Int) : Prop :=
  seek + blocks ≤ otherSeek ∨ otherSeek + otherBlocks ≤ seek

instance (seek blocks otherSeek otherBlocks : Int) :
    Decidable (Apart seek blocks otherSeek otherBlocks) :=
  inferInstanceAs (Decidable (_ ∨ _))

/-- The answers of `hd_write` during one iteration, by position and block count. -/
abbrev Driver := Int → Int → Bool

/-! ### What is read back -/

/-- The newest write that touches a stretch of blocks. -/
def newestWrite (seek blocks : Int) : List Event → Option Write
  | [] => none
  | .wrote write :: trace =>
    if Apart write.seek write.blocks seek blocks then newestWrite seek blocks trace
    else some write
  | .listed _ _ :: trace => newestWrite seek blocks trace
  | .unlisted :: trace => newestWrite seek blocks trace
  | .indexed _ _ _ :: trace => newestWrite seek blocks trace

/-- The year table on the disk. -/
def storedYear (trace : List Event) : Option YearBlock :=
  match newestWrite firstBlock yearBlocks trace with
  | some ⟨seek, _, .yearTable yb, true⟩ => if seek = firstBlock then some yb else none
  | _ => none

/-- The backup table on the disk. -/
def storedBackup (trace : List Event) : Option DayTable :=
  match newestWrite backupSeek dayBlocks trace with
  | some ⟨seek, _, .backup table, true⟩ => if seek = backupSeek then some table else none
  | _ => none

/-- The day table on the disk at `seek`. -/
def storedTable (trace : List Event) (seek : Int) : Option DayTable :=
  match newestWrite seek dayBlocks trace with
  | some ⟨place, _, .dayTable _ table, true⟩ => if place = seek then some table else none
  | _ => none

/-- The head block on the disk at `seek`. -/
def storedHead (trace : List Event) (seek : Int) : Option HeadBlock :=
  match newestWrite seek 1 trace with
  | some ⟨place, _, .head block, true⟩ => if place = seek then some block else none
  | _ => none

/-- A write elsewhere does not change what is read back. -/
theorem newestWrite_of_apart {write : Write} {seek blocks : Int}
    (apart : Apart write.seek write.blocks seek blocks) (trace : List Event) :
    newestWrite seek blocks (.wrote write :: trace) = newestWrite seek blocks trace := by
  rw [newestWrite, if_pos apart]

/-- Neither do many. -/
theorem newestWrite_append_of_apart {seek blocks : Int} (events trace : List Event)
    (apart : ∀ write, .wrote write ∈ events → Apart write.seek write.blocks seek blocks) :
    newestWrite seek blocks (events ++ trace) = newestWrite seek blocks trace := by
  induction events with
  | nil => rfl
  | cons event events inductionHypothesis =>
    have rest := inductionHypothesis fun write member => apart write (List.mem_cons_of_mem _ member)
    obtain write | _ | _ | _ := event
    · rw [List.cons_append, newestWrite_of_apart (apart write List.mem_cons_self)]
      exact rest
    all_goals exact rest

/-- A write that touches the stretch is what is read back. -/
theorem newestWrite_self {write : Write} {seek blocks : Int}
    (touches : ¬Apart write.seek write.blocks seek blocks) (trace : List Event) :
    newestWrite seek blocks (.wrote write :: trace) = some write := by
  rw [newestWrite, if_neg touches]

/-- What is read back was written. -/
theorem newestWrite_mem {seek blocks : Int} {trace : List Event} {write : Write}
    (newest : newestWrite seek blocks trace = some write) : .wrote write ∈ trace := by
  induction trace with
  | nil => cases newest
  | cons event trace inductionHypothesis =>
    obtain other | _ | _ | _ := event
    · by_cases apart : Apart other.seek other.blocks seek blocks
      · rw [newestWrite_of_apart apart] at newest
        exact List.mem_cons_of_mem _ (inductionHypothesis newest)
      · rw [newestWrite_self apart] at newest
        cases newest
        exact List.mem_cons_self
    all_goals exact List.mem_cons_of_mem _ (inductionHypothesis newest)

end ExmOnvif.Recorder
