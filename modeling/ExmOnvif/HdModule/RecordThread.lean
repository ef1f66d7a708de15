/-
This file models the recording thread of a channel and proves which frames it writes.

In each turn the thread looks at the state of its channel, reads frames until it has one
that can be written, closes its file where it has to be cut, and writes the frame; a file
begins with a key frame. Whatever else runs in the module changes the channel in the
meantime, and can close the file.

The loop that reads frames is left by a failed read as well, unless it waits for a key
frame. The frame in the buffer is then the one of the turn before.
-/

import ExmOnvif.HdModule.Channel

namespace ExmOnvif.HdModule

open Library

/-! ### The thread -/

/-- The type of a video frame, which the encoder passes to the pool as its flag too. -/
inductive FrameType where
  | intra
  | predicted
deriving DecidableEq, Repr

/-- A frame with its number in the pool. -/
structure Frame where
  type : FrameType
  seq : BitVec 32
deriving DecidableEq, Repr

/-- `is_keyframe`. -/
def Frame.isKeyframe (frame : Frame) : Bool := decide (frame.type = .intra)

/-- Where the thread is in its turn. -/
inductive Place where
  | top
  | reading
  | testing
  | closing (closeflag : Bool)
  | writing
  | finished
deriving DecidableEq, Repr

/-- `record_file_thread` with its channel. The buffer holds one of the frames that were read,
given by its number among them; `closed` and `file` are the frames of the files before this one
and of this one, `seen` are the flags at the last test for a cut, and `appended` has for each
frame the flags of its file and those at the test. -/
structure RecordThread where
  hd : HdEnc
  place : Place
  state : RecState
  newstate : RecState
  firstFlag : Bool
  oldSeq : BitVec 32
  buffer : Option Nat
  connectEnc : Bool
  reads : List Frame
  closed : List (List Nat)
  file : List Nat
  seen : Flags
  appended : List (Flags × Flags)
deriving DecidableEq, Repr

/-- What the thread does, with what it is told by the pool and the disk. -/
inductive Act where
  | sample
  | read (result : Option Frame)
  | test
  | close (renamed : Bool)
  | write (free created attached : Bool)
  | finish (renamed : Bool)
deriving DecidableEq, Repr

namespace RecordThread

/-- The thread at its start. -/
def start (hd : HdEnc) : RecordThread :=
  { hd := { hd with aviinfo := none }, place := .top, state := .idle, newstate := .idle,
    firstFlag := true, oldSeq := -1, buffer := none, connectEnc := false, reads := [],
    closed := [], file := [], seen := hd.flags, appended := [] }

/-- The top of the loop. -/
def sample (thread : RecordThread) : RecordThread :=
  let connecting := thread.state = .idle ∧ thread.hd.state ≠ .idle
  let connectEnc := if connecting then true else thread.connectEnc
  { thread with
    newstate := thread.hd.state
    state := if connecting then thread.hd.state else thread.state
    connectEnc := connectEnc
    place := if connectEnc then .reading else .top }

/-- The condition at the end of the reading loop. -/
def again (thread : RecordThread) : RecordThread :=
  if thread.firstFlag = true ∧ thread.hd.threadexit = false then { thread with place := .reading }
  else { thread with place := .testing }

/-- One read. -/
def read (thread : RecordThread) : Option Frame → RecordThread
  | none => thread.again
  | some frame =>
    let next :=
      { thread with
        hd := { thread.hd with watchcnt := 0 }
        reads := thread.reads ++ [frame]
        buffer := some thread.reads.length
        oldSeq := frame.seq }
    if frame.type = .intra then { next with firstFlag := false }.again
    else if thread.oldSeq + 1 = frame.seq then next.again
    else { next with firstFlag := true }.again

/-- The test for a cut. -/
def test (thread : RecordThread) : RecordThread :=
  { thread with
    hd := { thread.hd with watchcnt := 0 }
    place := .closing (thread.hd.cutflag ||
      decide (thread.state ≠ thread.newstate ∧ thread.state ≠ .idle))
    state := thread.newstate
    seen := thread.hd.flags }

/-- A frame goes into the file that is open. -/
def append (thread : RecordThread) (number : Nat) (label : Flags) : RecordThread :=
  { thread with
    file := thread.file ++ [number]
    appended := thread.appended ++ [(label, thread.seen)]
    place := .top }

/-- A file is created, and the frame is its first. -/
def create (thread : RecordThread) (number : Nat) : RecordThread :=
  { thread with
    hd := { thread.hd with aviinfo := some thread.hd.flags }
    closed := thread.closed ++ [thread.file]
    file := [number]
    appended := thread.appended ++ [(thread.hd.flags, thread.seen)]
    place := .top }

/-- The rest of the turn. -/
def write (thread : RecordThread) (free created attached : Bool) : RecordThread :=
  match thread.buffer with
  -- The loop is left without a frame only when the thread is told to end.
  | none => { thread with place := .top }
  | some number =>
    if (thread.reads[number]?).any Frame.isKeyframe = true ∧ thread.hd.threadexit = false then
      if thread.newstate ≠ .idle then
        match thread.hd.aviinfo with
        | none =>
          if free = false then
            { thread with hd := { thread.hd with threadexit := true }, place := .top }
          else if created = false then { thread with state := .idle, place := .top }
          else thread.create number
        | some label => thread.append number label
      else if attached then { thread with connectEnc := false, oldSeq := -1, place := .top }
      else { thread with place := .top }
    else if thread.state ≠ .idle ∧ thread.hd.threadexit = false then
      match thread.hd.aviinfo with
      | none => { thread with place := .top }
      | some label => thread.append number label
    else { thread with place := .top }

/-- One step of the thread. -/
def own (thread : RecordThread) : Act → Option RecordThread
  | .sample =>
    if thread.place = .top ∧ thread.hd.threadexit = false then some thread.sample else none
  | .read result => if thread.place = .reading then some (thread.read result) else none
  | .test => if thread.place = .testing then some thread.test else none
  | .close renamed =>
    match thread.place with
    | .closing closeflag =>
      some { thread with
        hd := if closeflag then thread.hd.closeRecordFile renamed else thread.hd
        place := .writing }
    | _ => none
  | .write free created attached =>
    if thread.place = .writing then some (thread.write free created attached) else none
  | .finish renamed =>
    if thread.place = .top ∧ thread.hd.threadexit = true then
      some { thread with hd := thread.hd.closeRecordFile renamed, place := .finished }
    else none

/-- What goes on around the thread: anything happens to its channel, except that no one else opens
a file, and that the order to end is not taken back. -/
def outside (thread : RecordThread) (hd : HdEnc) (closed : Bool) : RecordThread :=
  { thread with
    hd :=
      { hd with
        aviinfo := if closed then none else thread.hd.aviinfo
        threadexit := hd.threadexit || thread.hd.threadexit } }

/-- A step of the thread or of what is around it. -/
inductive Doing where
  | own (act : Act)
  | outside (hd : HdEnc) (closed : Bool)
deriving DecidableEq, Repr

/-- One step. -/
def step (thread : RecordThread) : Doing → Option RecordThread
  | .own act => thread.own act
  | .outside hd closed => some (thread.outside hd closed)

/-- What the thread's own steps do, and where in the turn. -/
theorem own_cases {thread next : RecordThread} {act : Act} (taken : thread.own act = some next) :
    match act with
    | .sample => thread.place = .top ∧ thread.hd.threadexit = false ∧ next = thread.sample
    | .read result => thread.place = .reading ∧ next = thread.read result
    | .test => thread.place = .testing ∧ next = thread.test
    | .close renamed => ∃ closeflag, thread.place = .closing closeflag ∧
        next = { thread with
          hd := if closeflag then thread.hd.closeRecordFile renamed else thread.hd
          place := .writing }
    | .write free created attached =>
      thread.place = .writing ∧ next = thread.write free created attached
    | .finish renamed => thread.place = .top ∧ thread.hd.threadexit = true ∧
        next = { thread with hd := thread.hd.closeRecordFile renamed, place := .finished } := by
  cases act with
  | close renamed =>
    simp only [own] at taken
    split at taken
    · next closeflag closing => exact ⟨closeflag, closing, (Option.some.inj taken).symm⟩
    · cases taken
  | sample =>
    simp only [own, Option.ite_none_right_eq_some, Option.some.injEq] at taken
    exact ⟨taken.1.1, taken.1.2, taken.2.symm⟩
  | finish renamed =>
    simp only [own, Option.ite_none_right_eq_some, Option.some.injEq] at taken
    exact ⟨taken.1.1, taken.1.2, taken.2.symm⟩
  | read result =>
    simp only [own, Option.ite_none_right_eq_some, Option.some.injEq] at taken
    exact ⟨taken.1, taken.2.symm⟩
  | test =>
    simp only [own, Option.ite_none_right_eq_some, Option.some.injEq] at taken
    exact ⟨taken.1, taken.2.symm⟩
  | write free created attached =>
    simp only [own, Option.ite_none_right_eq_some, Option.some.injEq] at taken
    exact ⟨taken.1, taken.2.symm⟩

/-! ### The state the thread goes by -/

/-- An idle thread has no file, once it has closed it, and behind the test for a cut the thread
goes by the state it sampled. -/
structure Phased (thread : RecordThread) : Prop where
  stopped : thread.state = .idle → thread.hd.aviinfo = none ∨ thread.place = .closing true
  settled : thread.place = .writing ∨ (∃ closeflag, thread.place = .closing closeflag) →
    thread.state = thread.newstate

theorem Phased.idle {thread : RecordThread} (phased : thread.Phased)
    (place : thread.place ≠ .closing true) (idle : thread.state = .idle) :
    thread.hd.aviinfo = none :=
  (phased.stopped idle).resolve_right place

/-- In front of the test for a cut, and behind the turn. -/
theorem phased_of_idle {thread : RecordThread}
    (stopped : thread.state = .idle → thread.hd.aviinfo = none)
    (place : ∀ closeflag, thread.place ≠ .writing ∧ thread.place ≠ .closing closeflag) :
    thread.Phased := by
  refine ⟨fun idle => Or.inl (stopped idle), ?_⟩
  rintro (writing | ⟨closeflag, closing⟩)
  · exact absurd writing (place true).1
  · exact absurd closing (place closeflag).2

theorem Phased.of_hd {thread : RecordThread} (phased : thread.Phased) {hd : HdEnc}
    (file : hd.aviinfo = none ∨ hd.aviinfo = thread.hd.aviinfo) :
    Phased { thread with hd := hd } := by
  refine ⟨fun idle => ?_, phased.settled⟩
  rcases file with none | same
  · exact Or.inl none
  · rcases phased.stopped idle with none | closing
    · exact Or.inl (same.trans none)
    · exact Or.inr closing

theorem sample_place (thread : RecordThread) :
    thread.sample.place = .reading ∨ thread.sample.place = .top :=
  ite_eq_or_eq _ _ _

theorem Phased.sample {thread : RecordThread} (phased : thread.Phased)
    (top : thread.place = .top) : thread.sample.Phased := by
  refine phased_of_idle ?_ fun closeflag => ?_
  · simp only [RecordThread.sample]
    split
    · next connecting => exact fun idle => absurd idle connecting.2
    · exact phased.idle (by rw [top]; nofun)
  · rcases sample_place thread with place | place <;> rw [place] <;> exact ⟨nofun, nofun⟩

theorem Phased.test {thread : RecordThread} (phased : thread.Phased)
    (testing : thread.place = .testing) : thread.test.Phased := by
  refine ⟨fun idle => ?_, fun _ => rfl⟩
  -- Becoming idle is a change of the state, unless the thread was idle and had no file.
  by_cases before : thread.state = .idle
  · exact Or.inl (phased.idle (by rw [testing]; nofun) before)
  · right
    have changed : thread.state ≠ thread.newstate := fun same => before (same.trans idle)
    simp only [RecordThread.test, Place.closing.injEq, Bool.or_eq_true, decide_eq_true_eq]
    exact Or.inr ⟨changed, before⟩

theorem closeRecordFile_aviinfo (hd : HdEnc) (renamed : Bool) :
    (hd.closeRecordFile renamed).aviinfo = none ∧
      (hd.closeRecordFile renamed).threadexit = hd.threadexit := by
  unfold HdEnc.closeRecordFile
  split
  · next none => exact ⟨none, rfl⟩
  · split <;> exact ⟨rfl, rfl⟩

theorem Phased.close {thread : RecordThread} (phased : thread.Phased) {closeflag : Bool}
    (closing : thread.place = .closing closeflag) (renamed : Bool) :
    Phased { thread with
      hd := if closeflag then thread.hd.closeRecordFile renamed else thread.hd
      place := .writing } := by
  refine ⟨fun idle => Or.inl ?_, fun _ => phased.settled (Or.inr ⟨closeflag, closing⟩)⟩
  cases closeflag with
  | true => exact (closeRecordFile_aviinfo thread.hd renamed).1
  | false => exact phased.idle (by rw [closing]; nofun) idle

/-! ### Frames in a row -/

/-- The frames that were written, by their numbers. -/
def written (thread : RecordThread) : List Nat := (thread.closed ++ [thread.file]).flatten

/-- The frame of a number is a key frame. -/
def Key (thread : RecordThread) (number : Nat) : Prop :=
  (thread.reads[number]?).any Frame.isKeyframe = true

/-- The frame of a number was read right behind the one it follows. -/
def Follows (thread : RecordThread) (number : Nat) : Prop :=
  ∃ previous frame, thread.reads[number]? = some frame ∧ 0 < number ∧
    thread.reads[number - 1]? = some previous ∧ frame.seq = previous.seq + 1

/-- The frames are written in the order in which they were read, none of them twice; every file
begins with a key frame; and a frame that is none follows the one that was read before it. -/
structure Continuous (thread : RecordThread) : Prop where
  ordered : thread.written.Pairwise (· < ·)
  read : ∀ number ∈ thread.written, number < thread.reads.length
  begun : ∀ file ∈ thread.closed ++ [thread.file], ∀ number, file.head? = some number →
    thread.Key number
  followed : ∀ number ∈ thread.written, ∀ frame, thread.reads[number]? = some frame →
    frame.type = .predicted → thread.Follows number

/-- A read fails only while the thread waits for a key frame, or when the frame in the buffer will
not be written. -/
def Spared (thread : RecordThread) : Doing → Prop
  | .own (.read none) =>
    thread.firstFlag = true ∨ thread.hd.threadexit = true ∨ thread.newstate = .idle ∨
      (∀ number ∈ thread.buffer, ¬thread.Key number) ∧
        (thread.hd.aviinfo = none ∨ thread.state ≠ thread.newstate ∧ thread.state ≠ .idle)
  | _ => True

instance (thread : RecordThread) (number : Nat) : Decidable (thread.Key number) :=
  inferInstanceAs (Decidable (_ = true))

instance (thread : RecordThread) (doing : Doing) : Decidable (thread.Spared doing) :=
  match doing with
  | .own (.read none) => inferInstanceAs (Decidable (_ ∨ _ ∨ _ ∨ _ ∧ _))
  | .own (.read (some _)) => isTrue trivial
  | .own .sample => isTrue trivial
  | .own .test => isTrue trivial
  | .own (.close _) => isTrue trivial
  | .own (.write _ _ _) => isTrue trivial
  | .own (.finish _) => isTrue trivial
  | .outside _ _ => isTrue trivial

/-! ### One step -/

/-- The frame in the buffer can be written. -/
def Fresh (thread : RecordThread) : Prop :=
  ∃ number, thread.buffer = some number ∧ number + 1 = thread.reads.length ∧
    (∀ earlier ∈ thread.written, earlier < number) ∧
    (∃ last, thread.reads.getLast? = some last ∧ thread.oldSeq = last.seq) ∧
    (thread.Key number ∨ thread.hd.aviinfo = none ∨ thread.Follows number)

/-- The frame in the buffer will not be written: the thread ends, or the channel is idle, or the
frame is no key frame and there is no file for it. -/
def Passed (thread : RecordThread) (nowhere : Prop) : Prop :=
  thread.hd.threadexit = true ∨ thread.newstate = .idle ∨
    (∀ number ∈ thread.buffer, ¬thread.Key number) ∧
      (thread.hd.aviinfo = none ∨ nowhere)

/-- The frame in the buffer between the reading loop and the end of the turn. -/
def Held (thread : RecordThread) : Prop :=
  match thread.place with
  | .testing =>
    thread.Fresh ∨ thread.Passed (thread.state ≠ thread.newstate ∧ thread.state ≠ .idle)
  | .closing closeflag => thread.Fresh ∨ thread.Passed (closeflag = true)
  | .writing => thread.Fresh ∨ thread.Passed False
  | _ => True

/-- What the thread keeps to in each step. -/
structure Tracked (thread : RecordThread) : Prop where
  continuous : thread.Continuous
  opened : thread.hd.aviinfo ≠ none → thread.file ≠ []
  synced : thread.hd.aviinfo = none ∨
    ∃ last, thread.reads.getLast? = some last ∧ thread.oldSeq = last.seq
  stopped : thread.state = .idle → thread.hd.aviinfo = none ∨ thread.place = .closing true
  settled : thread.place = .writing ∨ (∃ closeflag, thread.place = .closing closeflag) →
    thread.state = thread.newstate
  held : thread.Held

theorem start_tracked (hd : HdEnc) : (start hd).Tracked where
  continuous :=
    { ordered := List.Pairwise.nil
      read := fun _ member => nomatch member
      begun := by
        intro file member number first
        rw [List.mem_singleton.mp member] at first
        cases first
      followed := fun _ member => nomatch member }
  opened := fun file => absurd rfl file
  synced := Or.inl rfl
  stopped := fun _ => Or.inl rfl
  settled := by rintro (place | ⟨_, place⟩) <;> cases place
  held := trivial

theorem Tracked.phased {thread : RecordThread} (tracked : thread.Tracked) : thread.Phased :=
  ⟨tracked.stopped, tracked.settled⟩

/-- Nothing is read and nothing is written. -/
theorem Continuous.of_same {thread next : RecordThread} (continuous : thread.Continuous)
    (reads : next.reads = thread.reads) (closed : next.closed = thread.closed)
    (file : next.file = thread.file) : next.Continuous := by
  have written : next.written = thread.written := by
    unfold RecordThread.written
    rw [closed, file]
  refine ⟨?_, ?_, ?_, ?_⟩
  · rw [written]
    exact continuous.ordered
  · rw [written, reads]
    exact continuous.read
  · unfold Key
    rw [closed, file, reads]
    exact continuous.begun
  · unfold Follows
    rw [written, reads]
    exact continuous.followed

theorem Passed.imp {thread next : RecordThread} {before after : Prop}
    (passed : thread.Passed before)
    (exit : thread.hd.threadexit = true → next.hd.threadexit = true)
    (newstate : next.newstate = thread.newstate) (buffer : next.buffer = thread.buffer)
    (reads : next.reads = thread.reads)
    (nowhere : thread.hd.aviinfo = none ∨ before → next.hd.aviinfo = none ∨ after) :
    next.Passed after := by
  unfold Passed Key
  rw [newstate, buffer, reads]
  rcases passed with exiting | idle | ⟨other, none⟩
  · exact Or.inl (exit exiting)
  · exact Or.inr (Or.inl idle)
  · exact Or.inr (Or.inr ⟨other, nowhere none⟩)

theorem Fresh.of_hd {thread : RecordThread} {hd : HdEnc} {place : Place} {state : RecState}
    {seen : Flags} (fresh : thread.Fresh)
    (file : hd.aviinfo = none ∨ hd.aviinfo = thread.hd.aviinfo) :
    Fresh { thread with hd := hd, place := place, state := state, seen := seen } := by
  obtain ⟨number, buffer, last, later, synced, writable⟩ := fresh
  refine ⟨number, buffer, last, later, synced, ?_⟩
  rcases writable with key | none | follows
  · exact Or.inl key
  · refine Or.inr (Or.inl ?_)
    rcases file with gone | same
    · exact gone
    · exact same.trans none
  · exact Or.inr (Or.inr follows)

/-- The channel changes around the thread. -/
theorem Tracked.of_hd {thread : RecordThread} (tracked : thread.Tracked) {hd : HdEnc}
    (file : hd.aviinfo = none ∨ hd.aviinfo = thread.hd.aviinfo)
    (exit : thread.hd.threadexit = true → hd.threadexit = true) :
    Tracked { thread with hd := hd } where
  continuous := tracked.continuous.of_same rfl rfl rfl
  opened := by
    intro present
    rcases file with none | same
    · exact absurd none present
    · exact tracked.opened (same ▸ present)
  synced := by
    rcases file with none | same
    · exact Or.inl none
    · rcases tracked.synced with none | last
      · exact Or.inl (same.trans none)
      · exact Or.inr last
  stopped := (tracked.phased.of_hd file).stopped
  settled := tracked.settled
  held := by
    have held := tracked.held
    have nowhere : ∀ {before : Prop},
        thread.hd.aviinfo = none ∨ before → hd.aviinfo = none ∨ before := by
      intro before
      rcases file with none | same
      · exact fun _ => Or.inl none
      · rw [same]
        exact fun either => either
    unfold Held at held ⊢
    rcases thread with ⟨_, place, _, _, _, _, _, _, _, _, _, _, _⟩
    cases place with
    | testing =>
      exact held.imp (fun fresh => fresh.of_hd file)
        fun passed => passed.imp exit rfl rfl rfl nowhere
    | closing closeflag =>
      exact held.imp (fun fresh => fresh.of_hd file)
        fun passed => passed.imp exit rfl rfl rfl nowhere
    | writing =>
      exact held.imp (fun fresh => fresh.of_hd file)
        fun passed => passed.imp exit rfl rfl rfl nowhere
    | top => trivial
    | reading => trivial
    | finished => trivial

theorem Tracked.sample {thread : RecordThread} (tracked : thread.Tracked)
    (top : thread.place = .top) : thread.sample.Tracked where
  continuous := tracked.continuous.of_same rfl rfl rfl
  opened := tracked.opened
  synced := tracked.synced
  stopped := (tracked.phased.sample top).stopped
  settled := (tracked.phased.sample top).settled
  held := by
    unfold Held
    rcases sample_place thread with place | place <;> rw [place] <;> trivial

/-! ### Reading -/

theorem getElem?_read {reads : List Frame} {frame : Frame} {number : Nat}
    (known : number < reads.length) : (reads ++ [frame])[number]? = reads[number]? :=
  List.getElem?_append_left known

/-- What was written is not touched by the next frame. -/
theorem Continuous.read_frame {thread next : RecordThread} (continuous : thread.Continuous)
    {frame : Frame} (reads : next.reads = thread.reads ++ [frame])
    (closed : next.closed = thread.closed) (file : next.file = thread.file) :
    next.Continuous := by
  have same : next.written = thread.written := by
    unfold written
    rw [closed, file]
  refine ⟨?_, ?_, ?_, ?_⟩
  · rw [same]
    exact continuous.ordered
  · rw [same, reads, List.length_append]
    exact fun number member => Nat.lt_add_right 1 (continuous.read number member)
  · rw [closed, file]
    intro part member number first
    have inside : number ∈ thread.written :=
      List.mem_flatten.mpr ⟨part, member, List.mem_of_mem_head? first⟩
    unfold Key
    rw [reads, getElem?_read (continuous.read number inside)]
    exact continuous.begun part member number first
  · rw [same]
    intro number member
    have known := continuous.read number member
    unfold Follows
    rw [reads, getElem?_read known, getElem?_read (Nat.lt_of_le_of_lt (Nat.sub_le _ _) known)]
    exact continuous.followed number member

theorem again_tracked {thread : RecordThread} (continuous : thread.Continuous)
    (opened : thread.hd.aviinfo ≠ none → thread.file ≠ [])
    (synced : thread.hd.aviinfo = none ∨
      ∃ last, thread.reads.getLast? = some last ∧ thread.oldSeq = last.seq)
    (stopped : thread.state = .idle → thread.hd.aviinfo = none)
    (leaves : thread.firstFlag = false → thread.hd.threadexit = false →
      thread.Fresh ∨ thread.Passed (thread.state ≠ thread.newstate ∧ thread.state ≠ .idle)) :
    thread.again.Tracked := by
  unfold again
  split
  · have phased : Phased { thread with place := .reading } :=
      phased_of_idle stopped fun _ => ⟨nofun, nofun⟩
    exact ⟨continuous.of_same rfl rfl rfl, opened, synced, phased.stopped, phased.settled, trivial⟩
  · next left =>
    have phased : Phased { thread with place := .testing } :=
      phased_of_idle stopped fun _ => ⟨nofun, nofun⟩
    refine ⟨continuous.of_same rfl rfl rfl, opened, synced, phased.stopped, phased.settled, ?_⟩
    show _ ∨ _
    by_cases exit : thread.hd.threadexit = true
    · exact Or.inr (Or.inl exit)
    · rw [Bool.not_eq_true] at exit
      have first : thread.firstFlag = false := by
        by_contra waiting
        rw [Bool.not_eq_false] at waiting
        exact left ⟨waiting, exit⟩
      rcases leaves first exit with fresh | passed
      · exact Or.inl (fresh.of_hd (Or.inr rfl))
      · exact Or.inr (passed.imp (fun exiting => exiting) rfl rfl rfl fun none => none)

/-- The frame just read is fresh. -/
theorem fresh_read {thread next : RecordThread} (continuous : thread.Continuous) {frame : Frame}
    (reads : next.reads = thread.reads ++ [frame]) (closed : next.closed = thread.closed)
    (file : next.file = thread.file) (buffer : next.buffer = some thread.reads.length)
    (seq : next.oldSeq = frame.seq)
    (writable : frame.type = .intra ∨ next.hd.aviinfo = none ∨
      ∃ last, thread.reads.getLast? = some last ∧ frame.seq = last.seq + 1) : next.Fresh := by
  have here : next.reads[thread.reads.length]? = some frame := by
    rw [reads, List.getElem?_append_right (le_refl _), Nat.sub_self, List.getElem?_cons_zero]
  refine ⟨thread.reads.length, buffer, ?_, ?_, ⟨frame, ?_, seq⟩, ?_⟩
  · rw [reads, List.length_append, List.length_singleton]
  · unfold written
    rw [closed, file]
    exact continuous.read
  · rw [reads, List.getLast?_append, List.getLast?_singleton, Option.some_or]
  · rcases writable with intra | none | ⟨last, found, follows⟩
    · left
      unfold Key
      rw [here, Option.any_some, Frame.isKeyframe, decide_eq_true intra]
    · exact Or.inr (Or.inl none)
    · refine Or.inr (Or.inr ⟨last, frame, here, ?_, ?_, follows⟩)
      · rw [List.length_pos_iff]
        rintro empty
        rw [empty] at found
        cases found
      · rw [List.getLast?_eq_getElem?] at found
        have known : thread.reads.length - 1 < thread.reads.length := by
          obtain ⟨inside, _⟩ := List.getElem?_eq_some_iff.mp found
          exact inside
        rw [reads, getElem?_read known, found]

theorem Tracked.read {thread : RecordThread} (tracked : thread.Tracked)
    (reading : thread.place = .reading) {result : Option Frame}
    (spared : thread.Spared (.own (.read result))) : (thread.read result).Tracked := by
  have stopped := tracked.phased.idle (by rw [reading]; nofun)
  have continuous := tracked.continuous
  cases result with
  | none =>
    refine again_tracked continuous tracked.opened tracked.synced stopped fun first exit => ?_
    rcases spared with waiting | exiting | idle | passed
    · rw [first] at waiting
      cases waiting
    · exact Or.inr (Or.inl exiting)
    · exact Or.inr (Or.inr (Or.inl idle))
    · exact Or.inr (Or.inr (Or.inr passed))
  | some frame =>
    have last : (thread.reads ++ [frame]).getLast? = some frame := by
      rw [List.getLast?_append, List.getLast?_singleton, Option.some_or]
    unfold RecordThread.read
    simp only
    split
    · next intra =>
      refine again_tracked (continuous.read_frame rfl rfl rfl) tracked.opened
        (Or.inr ⟨frame, last, rfl⟩) stopped fun _ _ => Or.inl ?_
      exact fresh_read continuous rfl rfl rfl rfl rfl (Or.inl intra)
    · split
      · next follows =>
        refine again_tracked (continuous.read_frame rfl rfl rfl) tracked.opened
          (Or.inr ⟨frame, last, rfl⟩) stopped fun _ _ => Or.inl ?_
        refine fresh_read continuous rfl rfl rfl rfl rfl (Or.inr ?_)
        rcases tracked.synced with none | ⟨previous, found, same⟩
        · exact Or.inl none
        · exact Or.inr ⟨previous, found, by rw [← follows, same]⟩
      · refine again_tracked (continuous.read_frame rfl rfl rfl) tracked.opened
          (Or.inr ⟨frame, last, rfl⟩) stopped fun first _ => ?_
        cases first

/-! ### Cutting and writing -/

theorem Tracked.test {thread : RecordThread} (tracked : thread.Tracked)
    (testing : thread.place = .testing) : thread.test.Tracked where
  continuous := tracked.continuous.of_same rfl rfl rfl
  opened := tracked.opened
  synced := tracked.synced
  stopped := (tracked.phased.test testing).stopped
  settled := (tracked.phased.test testing).settled
  held := by
    have held := tracked.held
    unfold Held at held ⊢
    rw [testing] at held
    rcases held with fresh | passed
    · exact Or.inl (fresh.of_hd (Or.inr rfl))
    · refine Or.inr (passed.imp (fun exiting => exiting) rfl rfl rfl ?_)
      rintro (none | changed)
      · exact Or.inl none
      · right
        simp only [Bool.or_eq_true, decide_eq_true_eq]
        exact Or.inr changed

theorem Tracked.close {thread : RecordThread} (tracked : thread.Tracked) {closeflag : Bool}
    (closing : thread.place = .closing closeflag) (renamed : Bool) :
    Tracked { thread with
      hd := if closeflag then thread.hd.closeRecordFile renamed else thread.hd
      place := .writing } := by
  have closed := closeRecordFile_aviinfo thread.hd renamed
  have phased := tracked.phased.close closing renamed
  have held := tracked.held
  unfold Held at held
  rw [closing] at held
  cases closeflag with
  | true =>
    have gone := tracked.of_hd (Or.inl closed.1) (by rw [closed.2]; exact fun exiting => exiting)
    refine ⟨tracked.continuous.of_same rfl rfl rfl, gone.opened, gone.synced, phased.stopped,
      phased.settled, ?_⟩
    rcases held with fresh | passed
    · exact Or.inl (fresh.of_hd (Or.inl closed.1))
    · refine Or.inr (passed.imp ?_ rfl rfl rfl fun _ => Or.inl closed.1)
      intro exiting
      exact closed.2.trans exiting
  | false =>
    refine ⟨tracked.continuous.of_same rfl rfl rfl, tracked.opened, tracked.synced, phased.stopped,
      phased.settled, ?_⟩
    rcases held with fresh | passed
    · exact Or.inl (fresh.of_hd (Or.inr rfl))
    · refine Or.inr (passed.imp (fun exiting => exiting) rfl rfl rfl ?_)
      rintro (none | closed)
      · exact Or.inl none
      · cases closed

/-- A turn ends without a frame. -/
theorem Tracked.skip {thread next : RecordThread} (tracked : thread.Tracked)
    (reads : next.reads = thread.reads) (closed : next.closed = thread.closed)
    (file : next.file = thread.file) (same : next.hd.aviinfo = thread.hd.aviinfo)
    (synced : next.hd.aviinfo = none ∨ next.oldSeq = thread.oldSeq)
    (stopped : next.state = .idle → next.hd.aviinfo = none) (top : next.place = .top) :
    next.Tracked where
  continuous := tracked.continuous.of_same reads closed file
  opened := by
    rw [same, file]
    exact tracked.opened
  synced := by
    rcases synced with none | seq
    · exact Or.inl none
    · rw [same, reads, seq]
      exact tracked.synced
  stopped := fun idle => Or.inl (stopped idle)
  settled := (phased_of_idle stopped (by rw [top]; exact fun _ => ⟨nofun, nofun⟩)).settled
  held := by
    unfold Held
    rw [top]
    trivial

/-- A turn ends with the frame behind those that were written. -/
theorem Tracked.put {thread next : RecordThread} (tracked : thread.Tracked) {number : Nat}
    (reads : next.reads = thread.reads) (written : next.written = thread.written ++ [number])
    (known : number < thread.reads.length) (later : ∀ earlier ∈ thread.written, earlier < number)
    (writable : thread.Key number ∨ thread.Follows number)
    (begun : ∀ file ∈ next.closed ++ [next.file], ∀ first, file.head? = some first →
      thread.Key first)
    (file : next.file ≠ []) (synced : ∃ last, next.reads.getLast? = some last ∧
      next.oldSeq = last.seq)
    (busy : next.state ≠ .idle) (top : next.place = .top) : next.Tracked where
  continuous := by
    have continuous := tracked.continuous
    refine ⟨?_, ?_, ?_, ?_⟩
    · rw [written, List.pairwise_append]
      refine ⟨continuous.ordered, List.pairwise_singleton _ _, fun earlier member other last => ?_⟩
      rw [List.mem_singleton.mp last]
      exact later earlier member
    · rw [written, reads]
      intro other member
      rcases List.mem_append.mp member with before | last
      · exact continuous.read other before
      · rw [List.mem_singleton.mp last]
        exact known
    · unfold Key
      rw [reads]
      exact begun
    · unfold Follows
      rw [written, reads]
      intro other member frame found predicted
      rcases List.mem_append.mp member with before | last
      · exact continuous.followed other before frame found predicted
      · rw [List.mem_singleton.mp last] at found ⊢
        rcases writable with key | follows
        · unfold Key at key
          rw [found, Option.any_some, Frame.isKeyframe, predicted] at key
          cases key
        · exact follows
  opened := fun _ => file
  synced := Or.inr synced
  stopped := fun idle => absurd idle busy
  settled := (phased_of_idle (fun idle => absurd idle busy)
    (by rw [top]; exact fun _ => ⟨nofun, nofun⟩)).settled
  held := by
    unfold Held
    rw [top]
    trivial

theorem Tracked.append {thread : RecordThread} (tracked : thread.Tracked) {number : Nat}
    {label : Flags} (file : thread.hd.aviinfo = some label) (busy : thread.state ≠ .idle)
    (known : number < thread.reads.length) (later : ∀ earlier ∈ thread.written, earlier < number)
    (writable : thread.Key number ∨ thread.Follows number) :
    (thread.append number label).Tracked := by
  have present : thread.hd.aviinfo ≠ none := by rw [file]; exact Option.some_ne_none label
  have nonempty := tracked.opened present
  refine tracked.put rfl ?_ known later writable ?_ ?_ (tracked.synced.resolve_left present) busy
    rfl
  · simp only [written, RecordThread.append, List.flatten_append, List.flatten_singleton,
      List.append_assoc]
  · intro part member first head
    rcases List.mem_append.mp member with before | last
    · exact tracked.continuous.begun part (List.mem_append_left _ before) first head
    · rw [List.mem_singleton.mp last] at head
      refine tracked.continuous.begun thread.file
        (List.mem_append_right _ (List.mem_singleton_self _)) first ?_
      rw [← head]
      exact (List.head?_append_of_ne_nil _ nonempty).symm
  · exact List.append_ne_nil_of_left_ne_nil nonempty _

theorem Tracked.create {thread : RecordThread} (tracked : thread.Tracked) {number : Nat}
    (busy : thread.state ≠ .idle) (known : number < thread.reads.length)
    (later : ∀ earlier ∈ thread.written, earlier < number) (key : thread.Key number)
    (synced : ∃ last, thread.reads.getLast? = some last ∧ thread.oldSeq = last.seq) :
    (thread.create number).Tracked := by
  refine tracked.put rfl ?_ known later (Or.inl key) ?_ (List.cons_ne_nil _ _) synced busy rfl
  · simp only [written, RecordThread.create, List.flatten_append, List.flatten_singleton]
  · intro part member first head
    rcases List.mem_append.mp member with before | last
    · exact tracked.continuous.begun part before first head
    · rw [List.mem_singleton.mp last] at head
      cases head
      exact key

/-- The frame in the buffer is fresh where it is written. -/
theorem Tracked.fresh {thread : RecordThread} (tracked : thread.Tracked)
    (writing : thread.place = .writing) (running : thread.hd.threadexit = false)
    (busy : thread.newstate ≠ .idle) {number : Nat} (buffer : thread.buffer = some number)
    (recorded : thread.Key number ∨ thread.hd.aviinfo ≠ none) :
    number < thread.reads.length ∧ (∀ earlier ∈ thread.written, earlier < number) ∧
      (∃ last, thread.reads.getLast? = some last ∧ thread.oldSeq = last.seq) ∧
      (thread.Key number ∨ thread.hd.aviinfo = none ∨ thread.Follows number) := by
  have held := tracked.held
  unfold Held at held
  rw [writing] at held
  rcases held with ⟨same, found, last, later, synced, writable⟩ | exiting | idle | ⟨other, nowhere⟩
  · obtain rfl : number = same := Option.some.inj (buffer.symm.trans found)
    exact ⟨last ▸ Nat.lt_succ_self number, later, synced, writable⟩
  · rw [running] at exiting
    cases exiting
  · exact absurd idle busy
  · have closed : thread.hd.aviinfo = none := nowhere.resolve_right id
    exact absurd (recorded.resolve_right (not_not.mpr closed)) (other number buffer)

theorem Tracked.write {thread : RecordThread} (tracked : thread.Tracked)
    (writing : thread.place = .writing) (free created attached : Bool) :
    (thread.write free created attached).Tracked := by
  have settled := tracked.settled (Or.inl writing)
  have stopped := tracked.phased.idle (by rw [writing]; nofun)
  unfold RecordThread.write
  split
  · exact tracked.skip rfl rfl rfl rfl (Or.inr rfl) stopped rfl
  · next number buffer =>
    split
    · next recorded =>
      obtain ⟨key, running⟩ := recorded
      split
      · next busy =>
        obtain ⟨known, later, synced, _⟩ := tracked.fresh writing running busy buffer (Or.inl key)
        have recording : thread.state ≠ .idle := settled ▸ busy
        split
        · next none =>
          split
          · exact tracked.skip rfl rfl rfl rfl (Or.inr rfl) stopped rfl
          · split
            · exact tracked.skip rfl rfl rfl rfl (Or.inr rfl) (fun _ => none) rfl
            · exact tracked.create recording known later key synced
        · next label file => exact tracked.append file recording known later (Or.inl key)
      · next idle =>
        have closed : thread.hd.aviinfo = none := stopped (settled.trans (not_not.mp idle))
        split
        · exact tracked.skip rfl rfl rfl rfl (Or.inl closed) (fun _ => closed) rfl
        · exact tracked.skip rfl rfl rfl rfl (Or.inr rfl) stopped rfl
    · split
      · next recording =>
        obtain ⟨busy, running⟩ := recording
        split
        · exact tracked.skip rfl rfl rfl rfl (Or.inr rfl) stopped rfl
        · next label file =>
          have present : thread.hd.aviinfo ≠ none := by rw [file]; exact Option.some_ne_none label
          obtain ⟨known, later, _, writable⟩ :=
            tracked.fresh writing running (settled ▸ busy) buffer (Or.inr present)
          refine tracked.append file busy known later ?_
          rcases writable with key | none | follows
          · exact Or.inl key
          · exact absurd none present
          · exact Or.inr follows
      · exact tracked.skip rfl rfl rfl rfl (Or.inr rfl) stopped rfl

/-! ### Runs of the thread -/

/-- Every step keeps the frames in a row. -/
theorem Tracked.step {thread next : RecordThread} (tracked : thread.Tracked) {doing : Doing}
    (taken : thread.step doing = some next) (spared : thread.Spared doing) : next.Tracked := by
  cases doing with
  | outside hd closed =>
    cases taken
    refine tracked.of_hd ?_ fun exiting => by simp only [exiting, Bool.or_true]
    cases closed with
    | true => exact Or.inl rfl
    | false => exact Or.inr rfl
  | own act =>
    have taken := own_cases taken
    cases act with
    | sample =>
      obtain ⟨top, _, rfl⟩ := taken
      exact tracked.sample top
    | read result =>
      obtain ⟨reading, rfl⟩ := taken
      exact tracked.read reading spared
    | test =>
      obtain ⟨testing, rfl⟩ := taken
      exact tracked.test testing
    | close renamed =>
      obtain ⟨closeflag, closing, rfl⟩ := taken
      exact tracked.close closing renamed
    | write free created attached =>
      obtain ⟨writing, rfl⟩ := taken
      exact tracked.write writing free created attached
    | finish renamed =>
      obtain ⟨_, _, rfl⟩ := taken
      have closed := closeRecordFile_aviinfo thread.hd renamed
      have gone := tracked.of_hd (Or.inl closed.1) (by rw [closed.2]; exact fun exiting => exiting)
      have phased : Phased { thread with
          hd := thread.hd.closeRecordFile renamed, place := .finished } :=
        phased_of_idle (fun _ => closed.1) fun _ => ⟨nofun, nofun⟩
      exact ⟨tracked.continuous.of_same rfl rfl rfl, gone.opened, gone.synced, phased.stopped,
        phased.settled, trivial⟩

/-- The frames of the files are in a row, in every run in which no read fails in the middle of a
recording. -/
theorem frames_continuous {hd : HdEnc} {doings : List Doing} {thread : RecordThread}
    (run : Runs (fun before doing after => before.step doing = some after ∧ before.Spared doing)
      (start hd) doings thread) : thread.Continuous := by
  have tracked : thread.Tracked := by
    refine Runs.invariant (start_tracked hd) ?_ run
    rintro before doing after ⟨taken, spared⟩ tracked
    exact tracked.step taken spared
  exact tracked.continuous

/-- A failed read while the thread waits for a key frame, a key frame and the frame behind it. -/
theorem frames_continuous_two :
    ∃ thread, Runs (fun before doing after => before.step doing = some after ∧
        before.Spared doing) (start (HdEnc.blank.initHdencCh ⟨0, 600, 30, 60, 1⟩))
        [.own .sample, .own (.read none), .own (.read (some ⟨.intra, 7⟩)), .own .test,
          .own (.close true), .own (.write true true true), .own .sample,
          .own (.read (some ⟨.predicted, 8⟩)), .own .test, .own (.close true),
          .own (.write true true true)] thread ∧
      thread.file = [0, 1] ∧ thread.Continuous := by
  obtain ⟨thread, run, tested⟩ := @Runs.of_any_guarded RecordThread Doing
    (start (HdEnc.blank.initHdencCh ⟨0, 600, 30, 60, 1⟩)) step Spared _
    [.own .sample, .own (.read none), .own (.read (some ⟨.intra, 7⟩)), .own .test,
      .own (.close true), .own (.write true true true), .own .sample,
      .own (.read (some ⟨.predicted, 8⟩)), .own .test, .own (.close true),
      .own (.write true true true)]
    (fun thread => decide (thread.file = [0, 1])) (by decide +kernel)
  exact ⟨thread, run, of_decide_eq_true tested, frames_continuous run⟩

/-- A read fails behind a key frame, and the key frame is written once more. -/
theorem frame_written_twice :
    ∃ thread, Runs (fun before doing after => before.step doing = some after)
        (start (HdEnc.blank.initHdencCh ⟨0, 600, 30, 60, 1⟩))
        [.own .sample, .own (.read (some ⟨.intra, 7⟩)), .own .test, .own (.close true),
          .own (.write true true true), .own .sample, .own (.read none), .own .test,
          .own (.close true), .own (.write true true true)] thread ∧ ¬thread.Continuous := by
  obtain ⟨thread, run, tested⟩ := @Runs.of_any RecordThread Doing
    (start (HdEnc.blank.initHdencCh ⟨0, 600, 30, 60, 1⟩)) step
    [.own .sample, .own (.read (some ⟨.intra, 7⟩)), .own .test, .own (.close true),
      .own (.write true true true), .own .sample, .own (.read none), .own .test,
      .own (.close true), .own (.write true true true)]
    (fun thread => decide (thread.written = [0, 0])) (by decide +kernel)
  refine ⟨thread, run, fun continuous => ?_⟩
  have ordered := continuous.ordered
  rw [of_decide_eq_true tested] at ordered
  exact absurd ordered (by decide)

end RecordThread

end ExmOnvif.HdModule
