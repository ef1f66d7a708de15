/-
This file proves when the map that the image server keeps of a viewer's socket buffer agrees
with what is in the buffer. The map is a ring of elements, one for each frame written: a frame
written appends an element, and the bytes that left the socket since the last call remove
elements from the front, the last of them in part.

The map is read as a queue, and the queue of each step is the queue of frames with the bytes
drained. The ring never fills, because both admission checks look at the sum of the two
counters, which is the length of the queue whatever the elements are. The single counters are
right only where the type of a frame says whether it is audio: both functions of the map count
PCM as audio and everything else as video, while the encoders deliver their audio as AAC.
-/

import ExmOnvif.Library.Ring
import ExmOnvif.Library.Runs
import ExmOnvif.Rtimage.Sending

namespace ExmOnvif.Rtimage

open Library

/-! ### The queue of frames in the buffer -/

/-- A frame of which bytes are still in the buffer. -/
structure Queued where
  video : Bool
  flag : FrameType
  size : Int

namespace Queued

/-- The bytes of the frames together. -/
def totalSize (queue : List Queued) : Int := (queue.map size).sum

/-- The frames that remain when the bytes at the front are gone. -/
def drain : Int → List Queued → List Queued
  | _, [] => []
  | bytes, first :: rest =>
    if first.size ≤ bytes then drain (bytes - first.size) rest
    else { first with size := first.size - bytes } :: rest

theorem totalSize_nil : totalSize [] = 0 := rfl

theorem totalSize_cons (first : Queued) (rest : List Queued) :
    totalSize (first :: rest) = first.size + totalSize rest := by
  rw [totalSize, List.map_cons, List.sum_cons, totalSize]

theorem totalSize_append (queue : List Queued) (last : Queued) :
    totalSize (queue ++ [last]) = totalSize queue + last.size := by
  rw [totalSize, List.map_append, List.sum_append, List.map_singleton, List.sum_singleton,
    totalSize]

/-- No more is drained than there is, so exactly that much is gone. -/
theorem totalSize_drain {bytes : Int} {queue : List Queued} (positive : 0 ≤ bytes)
    (enough : bytes ≤ totalSize queue) :
    totalSize (drain bytes queue) = totalSize queue - bytes := by
  induction queue generalizing bytes with
  | nil =>
    rw [totalSize_nil] at enough
    rw [drain, totalSize_nil]
    omega
  | cons first rest inductionHypothesis =>
    rw [totalSize_cons] at enough ⊢
    rw [drain]
    split
    · rw [inductionHypothesis (by omega) (by omega)]
      omega
    · rw [totalSize_cons]
      dsimp only
      omega

/-- A frame that remains was there before, with its kind. -/
theorem of_mem_drain {bytes : Int} {queue : List Queued} {queued : Queued}
    (member : queued ∈ drain bytes queue) :
    ∃ before ∈ queue, queued.video = before.video ∧ queued.flag = before.flag := by
  induction queue generalizing bytes with
  | nil => cases member
  | cons first rest inductionHypothesis =>
    rw [drain] at member
    split at member
    · obtain ⟨before, earlier, same⟩ := inductionHypothesis member
      exact ⟨before, .tail _ earlier, same⟩
    · rcases List.mem_cons.mp member with rfl | member
      · exact ⟨first, .head _, rfl, rfl⟩
      · exact ⟨queued, .tail _ member, rfl, rfl⟩

/-- The type of the frame says whether it is audio. -/
def Matched (queued : Queued) : Prop := queued.flag = .pcm ↔ queued.video = false

/-- The frames counted as audio. -/
def sounds (queue : List Queued) : Nat := queue.countP fun queued => queued.flag = .pcm

/-- The frames counted as video. -/
def others (queue : List Queued) : Nat := queue.countP fun queued => queued.flag ≠ .pcm

theorem sounds_cons (first : Queued) (rest : List Queued) :
    (sounds (first :: rest) : Int) = sounds rest + if first.flag = .pcm then 1 else 0 := by
  unfold sounds
  rw [List.countP_cons]
  by_cases sound : first.flag = .pcm
  · simp [sound]
  · simp [sound]

theorem others_cons (first : Queued) (rest : List Queued) :
    (others (first :: rest) : Int) = others rest + if first.flag = .pcm then 0 else 1 := by
  unfold others
  rw [List.countP_cons]
  by_cases sound : first.flag = .pcm
  · simp [sound]
  · simp [sound]

theorem sounds_append (queue : List Queued) (last : Queued) :
    (sounds (queue ++ [last]) : Int) = sounds queue + if last.flag = .pcm then 1 else 0 := by
  have single := sounds_cons last []
  unfold sounds at *
  rw [List.countP_append, Int.natCast_add, single, List.countP_nil]
  simp only [Int.natCast_zero, Int.zero_add]

theorem others_append (queue : List Queued) (last : Queued) :
    (others (queue ++ [last]) : Int) = others queue + if last.flag = .pcm then 0 else 1 := by
  have single := others_cons last []
  unfold others at *
  rw [List.countP_append, Int.natCast_add, single, List.countP_nil]
  simp only [Int.natCast_zero, Int.zero_add]

theorem others_add_sounds (queue : List Queued) : others queue + sounds queue = queue.length := by
  have whole := List.length_eq_countP_add_countP (fun queued : Queued => queued.flag = .pcm)
    (l := queue)
  simp only [decide_eq_true_eq] at whole
  unfold others sounds
  rw [whole, Nat.add_comm]

/-- Where the types say what is audio, the two counts are those of the video and the audio. -/
theorem counts_of_matched {queue : List Queued} (matched : ∀ queued ∈ queue, queued.Matched) :
    others queue = queue.countP (fun queued => queued.video) ∧
      sounds queue = queue.countP fun queued => !queued.video := by
  unfold others sounds
  refine ⟨List.countP_congr fun queued member => ?_, List.countP_congr fun queued member => ?_⟩
  · have kind : queued.flag = .pcm ↔ queued.video = false := matched queued member
    simp only [kind, ne_eq, Bool.not_eq_false, decide_eq_true_eq]
  · have kind : queued.flag = .pcm ↔ queued.video = false := matched queued member
    simp only [kind, decide_eq_true_eq, Bool.not_eq_true']

end Queued

/-! ### The map as a queue -/

namespace SendMap

/-- A change of a counter moves nothing. -/
@[simp]
theorem count_tail (map : SendMap) (flag : FrameType) (change : Int) :
    (map.count flag change).tail = map.tail := by
  unfold count
  split <;> rfl

theorem next_eq {place : Nat} (below : place < maxMapBufFrames) :
    next place = (place + 1) % maxMapBufFrames := by
  unfold next
  split
  · have last : place + 1 = maxMapBufFrames := by omega
    rw [last, Nat.mod_self]
  · rw [Nat.mod_eq_of_lt (by omega)]

/-- Elements are removed at the head only. -/
theorem delLoop_tail (rounds : Nat) (remain : Int) (map : SendMap) :
    (delLoop rounds remain map).tail = map.tail := by
  induction rounds generalizing remain map with
  | zero => rfl
  | succ rounds inductionHypothesis =>
    unfold delLoop
    dsimp only
    split
    · split
      · rw [count_tail]
      · rw [inductionHypothesis, count_tail]
    · rfl

theorem delEle_tail (map : SendMap) (bytes : Int) : (map.delEle bytes).tail = map.tail := by
  unfold delEle
  split
  · rfl
  split
  · rfl
  · exact delLoop_tail _ _ _

/-- The element at a place, with whether the frame it stands for is video. -/
def element (map : SendMap) (media : Nat → Bool) (place : Nat) : Queued :=
  ⟨media place, (map.frameMap place).flag, (map.frameMap place).size⟩

/-- An element is written, for a frame of which it is known whether it is video. -/
theorem element_update (map : SendMap) (media : Nat → Bool) (place : Nat) (video : Bool)
    (frame : MapFrame) :
    { map with frameMap := Function.update map.frameMap place frame }.element
        (Function.update media place video) =
      Function.update (map.element media) place ⟨video, frame.flag, frame.size⟩ := by
  funext other
  unfold element
  dsimp only
  by_cases same : other = place
  · rw [same, Function.update_self, Function.update_self, Function.update_self]
  · rw [Function.update_of_ne same, Function.update_of_ne same, Function.update_of_ne same]

/-- The elements from the head up to the tail. -/
def queued (map : SendMap) (media : Nat → Bool) : List Queued :=
  ringList (map.element media) maxMapBufFrames map.head (gap maxMapBufFrames map.head map.tail)

/-- The map holds the queue, and its counters tell PCM from the rest. -/
structure Holds (map : SendMap) (media : Nat → Bool) (queue : List Queued) : Prop where
  headBelow : map.head < maxMapBufFrames
  tailBelow : map.tail < maxMapBufFrames
  elements : map.queued media = queue
  vFrames : map.vFrames = Queued.others queue
  aFrames : map.aFrames = Queued.sounds queue

namespace Holds

variable {map : SendMap} {media : Nat → Bool} {queue : List Queued}

theorem length (holds : map.Holds media queue) :
    gap maxMapBufFrames map.head map.tail = queue.length := by
  rw [← holds.elements, queued, ringList_length]

/-- The sum of the counters is the length, whatever the elements are. -/
theorem sum (holds : map.Holds media queue) : map.vFrames + map.aFrames = queue.length := by
  rw [holds.vFrames, holds.aFrames, ← Queued.others_add_sounds]
  exact (Int.natCast_add _ _).symm

theorem sum_eq_mod (holds : map.Holds media queue) :
    map.vFrames + map.aFrames = ((map.tail : Int) - map.head) % maxMapBufFrames := by
  have headBelow := holds.headBelow
  have tailBelow := holds.tailBelow
  rw [holds.sum, ← holds.length]
  unfold gap maxMapBufFrames at *
  omega

theorem tail_eq (holds : map.Holds media queue) :
    (map.head + queue.length) % maxMapBufFrames = map.tail := by
  rw [← holds.length]
  exact add_gap holds.headBelow holds.tailBelow

theorem head_eq_tail_iff (holds : map.Holds media queue) : map.head = map.tail ↔ queue = [] := by
  rw [← List.length_eq_zero_iff]
  constructor
  · intro met
    rw [← holds.length]
    refine gap_unique holds.headBelow (by decide) ?_
    rw [Nat.add_zero, Nat.mod_eq_of_lt holds.headBelow, met]
  · intro none
    rw [← holds.tail_eq, none, Nat.add_zero, Nat.mod_eq_of_lt holds.headBelow]

/-- A counter that moved with the queue is right again. -/
theorem of_count {change : Int} {flag : FrameType} (headBelow : map.head < maxMapBufFrames)
    (tailBelow : map.tail < maxMapBufFrames) (same : map.queued media = queue)
    (vFrames : map.vFrames + (if flag = .pcm then 0 else change) = Queued.others queue)
    (aFrames : map.aFrames + (if flag = .pcm then change else 0) = Queued.sounds queue) :
    (map.count flag change).Holds media queue := by
  unfold count
  split
  · rename_i sound
    rw [if_pos sound] at vFrames aFrames
    exact ⟨headBelow, tailBelow, same, by rw [← vFrames, Int.add_zero], aFrames⟩
  · rename_i other
    rw [if_neg other] at vFrames aFrames
    exact ⟨headBelow, tailBelow, same, vFrames, by rw [← aFrames, Int.add_zero]⟩

/-- The element at the head is the first of the queue. -/
theorem first {first : Queued} {rest : List Queued} (holds : map.Holds media (first :: rest)) :
    first = map.element media map.head := by
  have elements := holds.elements
  rw [queued, holds.length, List.length_cons, ringList_cons, Nat.mod_eq_of_lt holds.headBelow]
    at elements
  exact (List.cons.inj elements).1.symm

/-- The elements behind the first one. -/
theorem rest {first : Queued} {rest : List Queued} (holds : map.Holds media (first :: rest)) :
    ringList (map.element media) maxMapBufFrames ((map.head + 1) % maxMapBufFrames) rest.length =
      rest := by
  have elements := holds.elements
  rw [queued, holds.length, List.length_cons, ringList_cons] at elements
  exact (List.cons.inj elements).2

theorem below (holds : map.Holds media queue) : queue.length < maxMapBufFrames := by
  rw [← holds.length]
  exact Nat.mod_lt _ (by decide)

/-- `del_ele_from_map` steps over the first element. -/
theorem pop {first : Queued} {rest : List Queued} (holds : map.Holds media (first :: rest)) :
    ({ map with head := next map.head }.count (map.frameMap map.head).flag (-1)).Holds media
      rest := by
  have kind : (map.frameMap map.head).flag = first.flag := by
    rw [holds.first]
    rfl
  have vFrames := holds.vFrames
  have aFrames := holds.aFrames
  rw [Queued.others_cons] at vFrames
  rw [Queued.sounds_cons] at aFrames
  have shorter : gap maxMapBufFrames ((map.head + 1) % maxMapBufFrames) map.tail = rest.length := by
    rw [gap_forward holds.headBelow holds.tailBelow (by rw [holds.length, List.length_cons]; omega),
      holds.length, List.length_cons, Nat.add_sub_cancel]
  rw [kind, next_eq holds.headBelow]
  refine of_count (Nat.mod_lt _ (by decide)) holds.tailBelow ?_ ?_ ?_
  · unfold queued
    dsimp only
    rw [shorter]
    exact holds.rest
  · dsimp only
    rw [vFrames]
    split <;> omega
  · dsimp only
    rw [aFrames]
    split <;> omega

/-- `del_ele_from_map` takes bytes off the first element. -/
theorem cut {first : Queued} {rest : List Queued} (holds : map.Holds media (first :: rest))
    (size : Int) :
    { map with
      frameMap := Function.update map.frameMap map.head
        ⟨(map.frameMap map.head).flag, size⟩ }.Holds media ({ first with size } :: rest) := by
  refine ⟨holds.headBelow, holds.tailBelow, ?_, ?_, ?_⟩
  · unfold queued
    dsimp only
    have written := element_update map media map.head (media map.head)
      ⟨(map.frameMap map.head).flag, size⟩
    rw [Function.update_eq_self] at written
    rw [written, holds.length, List.length_cons, ringList_cons,
      Nat.mod_eq_of_lt holds.headBelow, Function.update_self]
    refine congrArg₂ List.cons ?_ ?_
    · rw [holds.first]
      rfl
    · have tail := ringList_tail (map.element media) map.head
        ⟨media map.head, (map.frameMap map.head).flag, size⟩
        (Nat.lt_of_succ_lt holds.below)
      rw [Nat.mod_eq_of_lt holds.headBelow] at tail
      exact tail.trans holds.rest
  · rw [Queued.others_cons]
    exact holds.vFrames.trans (Queued.others_cons first rest)
  · rw [Queued.sounds_cons]
    exact holds.aFrames.trans (Queued.sounds_cons first rest)

/-- `add_ele2map` appends an element, and the tail does not meet the head. -/
theorem addEle (holds : map.Holds media queue) (room : queue.length + 1 < maxMapBufFrames)
    (video : Bool) (flag : FrameType) (size : Int) :
    (map.addEle flag size).Holds (Function.update media map.tail video)
      (queue ++ [⟨video, flag, size⟩]) := by
  have longer : gap maxMapBufFrames map.head ((map.tail + 1) % maxMapBufFrames) =
      queue.length + 1 := by
    rw [gap_newer holds.headBelow holds.tailBelow (by rw [holds.length]; exact room), holds.length]
  unfold SendMap.addEle
  rw [next_eq holds.tailBelow]
  refine of_count holds.headBelow (Nat.mod_lt _ (by decide)) ?_ ?_ ?_
  · unfold queued
    dsimp only
    have written := element_update map media map.tail video ⟨flag, size⟩
    have elements := holds.elements
    rw [queued, holds.length] at elements
    rw [longer]
    have appended := @ringList_append _ (map.element media) _ map.head _ ⟨video, flag, size⟩
      holds.below
    rw [holds.tail_eq, elements] at appended
    exact (congrArg (fun slots => ringList slots _ _ _) written).trans appended
  · rw [Queued.others_append, holds.vFrames]
  · rw [Queued.sounds_append, holds.aFrames]

/-- The loop of `del_ele_from_map` drains the queue. It has a round for each element. -/
theorem delLoop {rounds : Nat} (remain : Int) (holds : map.Holds media queue)
    (some : queue ≠ []) (enough : queue.length ≤ rounds) :
    (SendMap.delLoop rounds remain map).Holds media (Queued.drain remain queue) := by
  induction rounds generalizing map queue remain with
  | zero => exact absurd (List.length_eq_zero_iff.mp (Nat.le_zero.mp enough)) some
  | succ rounds inductionHypothesis =>
    cases queue with
    | nil => exact absurd rfl some
    | cons first rest =>
      have size : (map.frameMap map.head).size = first.size := by
        rw [holds.first]
        rfl
      have popped := holds.pop
      unfold SendMap.delLoop
      dsimp only
      rw [size, Queued.drain]
      split
      · split
        · rename_i met
          have none := popped.head_eq_tail_iff.mp met
          rw [none] at popped ⊢
          exact popped
        · rename_i apart
          exact inductionHypothesis _ popped (fun none => apart (popped.head_eq_tail_iff.mpr none))
            (Nat.le_of_succ_le_succ enough)
      · exact holds.cut _

/-- `del_ele_from_map` drains the queue. When nothing left the socket, it does nothing. -/
theorem delEle (holds : map.Holds media queue) (bytes : Int) :
    (map.delEle bytes).Holds media (if bytes ≤ 0 then queue else Queued.drain bytes queue) := by
  unfold SendMap.delEle
  split
  · rename_i met
    have none := holds.head_eq_tail_iff.mp met
    rw [none] at holds ⊢
    split
    · exact holds
    · exact holds
  · rename_i apart
    split
    · exact holds
    · exact holds.delLoop bytes (fun none => apart (holds.head_eq_tail_iff.mpr none))
        (Nat.le_of_lt holds.below)

end Holds

end SendMap

/-! ### What a call does to the map -/

/-- Whether a call with this outcome called `add_ele2map`. -/
def Fate.adds : Fate → Bool
  | .acked => true
  | .wrote ret => 0 < ret
  | .dropped | .skipped => false

/-- What a viewer knows about its buffer. -/
structure Backlog where
  map : SendMap
  sendBuffers : Int
  totalPut : Int
  totalOut : Int
  sendAckFlag : Bool

def AvUsr.backlog (usr : AvUsr) : Backlog where
  map := usr.info.map
  sendBuffers := usr.sock.sendBuffers
  totalPut := usr.info.totalPut
  totalOut := usr.info.totalOut
  sendAckFlag := usr.info.sendAckFlag

/-- What no check of a frame changes. -/
def AvUsr.untouched (usr : AvUsr) : Backlog × Int := (usr.backlog, usr.vencNo)

/-- The map holds a queue of as many bytes as the buffer has. -/
structure Backlog.Sound (backlog : Backlog) (media : Nat → Bool) (queue : List Queued) :
    Prop where
  holds : backlog.map.Holds media queue
  sizes : Queued.totalSize queue = backlog.sendBuffers
  bytes : backlog.totalPut - backlog.totalOut = backlog.sendBuffers
  acked : backlog.sendAckFlag = true

namespace AvUsr

theorem adjustUsrSockBuf_untouched (usr : AvUsr) (conditions : Conditions) :
    (usr.adjustUsrSockBuf conditions).untouched = usr.untouched := by
  unfold adjustUsrSockBuf
  split <;> rfl

/-- A check leaves the buffer alone, and lets a frame pass only when there is room for
`reserve` elements. -/
structure Leaves (reserve : Int) (usr : AvUsr) (pending : Pending) : Prop where
  untouched : pending.1.untouched = usr.untouched
  room : pending.2 = true → usr.info.map.vFrames + usr.info.map.aFrames + reserve ≤ maxMapBufFrames

theorem checkRoom_leaves (conditions : Conditions) (usr : AvUsr) :
    Leaves 10 usr (usr.checkRoom conditions) := by
  have adjusted := adjustUsrSockBuf_untouched usr conditions
  unfold checkRoom
  split
  · exact ⟨rfl, fun passed => by cases passed⟩
  rename_i room
  have room := Int.not_lt.mp room
  split
  · dsimp only
    split
    · exact ⟨adjusted, fun _ => room⟩
    · exact ⟨adjusted, fun _ => room⟩
  split
  · exact ⟨rfl, fun _ => room⟩
  · exact ⟨rfl, fun _ => room⟩

theorem Leaves.next {reserve : Int} {usr : AvUsr} {pending : Pending} {check : AvUsr → Pending}
    (first : Leaves reserve usr pending)
    (second : (check pending.1).1.untouched = pending.1.untouched) :
    Leaves reserve usr (pending.next check) := by
  unfold Pending.next
  split
  · rename_i passed
    exact ⟨second.trans first.untouched, fun _ => first.room passed⟩
  · exact first

theorem checkResume_untouched (usr : AvUsr) : usr.checkResume.1.untouched = usr.untouched := by
  unfold checkResume
  split
  · split
    · rfl
    dsimp only
    split
    · split <;> rfl
    · split <;> rfl
  · rfl

theorem checkP_untouched (usr : AvUsr) : usr.checkP.1.untouched = usr.untouched := by
  unfold checkP
  split
  · split <;> rfl
  · split <;> rfl

theorem checkType_untouched (flag : FrameType) (seq : BitVec 32) (usr : AvUsr) :
    (usr.checkType flag seq).1.untouched = usr.untouched := by
  have checked := checkP_untouched usr
  unfold checkType
  split
  · rfl
  unfold Pending.next
  split
  · dsimp only
    split
    · exact checked
    · exact checked
  · exact checked

theorem checkVideo_leaves (flag : FrameType) (seq : BitVec 32) (conditions : Conditions)
    (usr : AvUsr) : Leaves 10 usr (usr.checkVideo flag seq conditions) :=
  ((checkRoom_leaves conditions usr).next (checkResume_untouched _)).next
    (checkType_untouched _ _ _)

theorem checkAudio_leaves (len : Int) (conditions : Conditions) (usr : AvUsr) :
    Leaves 2 usr (usr.checkAudio len conditions) := by
  have fitted : (if usr.lacksAudio len then usr.adjustUsrSockBuf conditions else usr).untouched =
      usr.untouched := by
    split
    · exact adjustUsrSockBuf_untouched usr conditions
    · rfl
  unfold checkAudio
  split
  · exact ⟨rfl, fun passed => by cases passed⟩
  split
  · exact ⟨rfl, fun passed => by cases passed⟩
  rename_i room
  have room := Int.not_lt.mp room
  dsimp only
  generalize (if usr.lacksAudio len then usr.adjustUsrSockBuf conditions else usr) = fit at fitted
  split
  · exact ⟨fitted, fun _ => room⟩
  split
  · split
    · exact ⟨fitted, fun _ => room⟩
    · exact ⟨fitted, fun _ => room⟩
  · exact ⟨fitted, fun _ => room⟩

theorem checkFirst_untouched (flag : FrameType) (conditions : Conditions) (usr : AvUsr) :
    (usr.checkFirst flag conditions).1.untouched = usr.untouched := by
  unfold checkFirst
  split
  · split
    · split <;> rfl
    · split <;> rfl
  · rfl

end AvUsr

namespace Backlog.Sound

variable {usr : AvUsr} {media : Nat → Bool} {queue : List Queued} {conditions : Conditions}

/-- What is in the buffer is no more than was there, and was counted. -/
theorem measure (sound : usr.backlog.Sound media queue)
    (within : conditions.outBuffer ≤ usr.sock.sendBuffers)
    (counted : 0 ≤ conditions.outBuffer ∨ conditions.outBuffer = usr.sock.sendBuffers) :
    ∃ left, (usr.measure conditions).backlog.Sound media left ∧
      ∀ queued ∈ left, ∃ before ∈ queue, queued.video = before.video ∧
        queued.flag = before.flag := by
  have sizes : Queued.totalSize queue = usr.sock.sendBuffers := sound.sizes
  have bytes : usr.info.totalPut - usr.info.totalOut = usr.sock.sendBuffers := sound.bytes
  refine ⟨_, ⟨sound.holds.delEle _, ?_, ?_, sound.acked⟩, fun queued member => ?_⟩
  · change _ = conditions.outBuffer
    split
    · omega
    · rw [Queued.totalSize_drain (by omega) (by omega)]
      omega
  · change usr.info.totalPut - (usr.info.totalOut + (usr.sock.sendBuffers - conditions.outBuffer)) =
      conditions.outBuffer
    omega
  · split at member
    · exact ⟨queued, member, rfl, rfl⟩
    · exact Queued.of_mem_drain member

/-- A frame that is written is one more element, behind the others. -/
theorem write (sound : usr.backlog.Sound media queue)
    (room : queue.length + 1 < maxMapBufFrames) (frame : MediaFrame)
    (positive : 0 < conditions.written) :
    (usr.write frame conditions).backlog.Sound (Function.update media usr.info.map.tail frame.video)
      (queue ++ [⟨frame.video, frame.type, conditions.written⟩]) := by
  have sizes : Queued.totalSize queue = usr.sock.sendBuffers := sound.sizes
  have bytes : usr.info.totalPut - usr.info.totalOut = usr.sock.sendBuffers := sound.bytes
  unfold AvUsr.write
  rw [if_pos positive]
  refine ⟨sound.holds.addEle room _ _ _, ?_, ?_, sound.acked⟩
  · rw [Queued.totalSize_append, sizes]
    rfl
  · change usr.info.totalPut + conditions.written - usr.info.totalOut =
      usr.sock.sendBuffers + conditions.written
    omega

end Backlog.Sound

namespace AvUsr

/-- A write that fails puts nothing into the buffer. -/
theorem write_backlog {conditions : Conditions} (usr : AvUsr) (frame : MediaFrame)
    (failed : ¬0 < conditions.written) : (usr.write frame conditions).backlog = usr.backlog := by
  unfold write
  rw [if_neg failed]
  split <;> rfl

/-- A frame is dropped or written after the checks, and written only where there is room. -/
theorem sendFrame_cases (frame : MediaFrame) (seq : BitVec 32) (conditions : Conditions)
    (usr : AvUsr) :
    ∃ checked : AvUsr, checked.untouched = (usr.measure conditions).untouched ∧
      (usr.sendFrame frame seq conditions = (checked, .dropped) ∨
        checked.info.map.vFrames + checked.info.map.aFrames + 2 ≤ maxMapBufFrames ∧
          usr.sendFrame frame seq conditions =
            (checked.write frame conditions, .wrote conditions.written)) := by
  have leaves : Leaves 2 (usr.measure conditions)
      (if frame.video then (usr.measure conditions).checkVideo frame.flag seq conditions
        else (usr.measure conditions).checkAudio frame.len conditions) := by
    split
    · have checked := checkVideo_leaves frame.flag seq conditions (usr.measure conditions)
      exact ⟨checked.untouched, fun passed => by have := checked.room passed; omega⟩
    · exact checkAudio_leaves frame.len conditions (usr.measure conditions)
  unfold sendFrame
  dsimp only
  generalize (if frame.video then (usr.measure conditions).checkVideo frame.flag seq conditions
    else (usr.measure conditions).checkAudio frame.len conditions) = pending at leaves
  refine ⟨pending.1, leaves.untouched, ?_⟩
  have same : pending.1.info.map = (usr.measure conditions).info.map :=
    congrArg (fun kept => kept.1.map) leaves.untouched
  cases passed : pending.2 with
  | true =>
    refine .inr ⟨?_, by simp⟩
    rw [same]
    exact leaves.room passed
  | false => exact .inl (by simp)

end AvUsr

/-- A call behind the head leaves the elements that are still in the buffer, and appends the
frame when it is written. -/
theorem Backlog.Sound.sendFrame {usr : AvUsr} {media : Nat → Bool} {queue : List Queued}
    {conditions : Conditions} (sound : usr.backlog.Sound media queue)
    (matched : ∀ queued ∈ queue, queued.Matched)
    (within : conditions.outBuffer ≤ usr.sock.sendBuffers)
    (counted : 0 ≤ conditions.outBuffer ∨ conditions.outBuffer = usr.sock.sendBuffers)
    (frame : MediaFrame) (seq : BitVec 32) :
    ∃ left : List Queued, (∀ queued ∈ left, queued.Matched) ∧
      ((usr.sendFrame frame seq conditions).2.adds = false ∧
          (usr.sendFrame frame seq conditions).1.backlog.Sound media left ∨
        (usr.sendFrame frame seq conditions).2.adds = true ∧
          (usr.sendFrame frame seq conditions).1.backlog.Sound
            (Function.update media usr.info.map.tail frame.video)
            (left ++ [⟨frame.video, frame.type, conditions.written⟩])) := by
  obtain ⟨left, measured, origin⟩ := sound.measure within counted
  obtain ⟨checked, untouched, outcome⟩ := AvUsr.sendFrame_cases frame seq conditions usr
  have same : checked.backlog = (usr.measure conditions).backlog := congrArg Prod.fst untouched
  rw [← same] at measured
  refine ⟨left, fun queued member => ?_, ?_⟩
  · obtain ⟨before, earlier, video, flag⟩ := origin queued member
    unfold Queued.Matched
    rw [video, flag]
    exact matched before earlier
  rcases outcome with dropped | ⟨room, wrote⟩
  · rw [dropped]
    exact .inl ⟨rfl, measured⟩
  · rw [wrote]
    by_cases positive : 0 < conditions.written
    · have tail : checked.info.map.tail = usr.info.map.tail := by
        have moved : checked.info.map.tail = (usr.measure conditions).info.map.tail :=
          congrArg (fun backlog => backlog.map.tail) same
        exact moved.trans (SendMap.delEle_tail _ _)
      have sum : checked.info.map.vFrames + checked.info.map.aFrames = left.length :=
        measured.holds.sum
      rw [← tail]
      exact .inr ⟨decide_eq_true positive, measured.write (by omega) frame positive⟩
    · refine .inl ⟨decide_eq_false positive, ?_⟩
      rw [AvUsr.write_backlog checked frame positive]
      exact measured

/-! ### A viewer with what was put into its buffer -/

/-- A viewer, with what the map does not say. -/
structure Tracked where
  usr : AvUsr
  /-- For each place of the map, whether the frame put there last was video. -/
  media : Nat → Bool
  /-- Whether `add_ele2map` ever found the tail at the head. -/
  met : Bool

namespace Tracked

def init (subscription : Subscription) : Tracked := ⟨.init subscription, fun _ => false, false⟩

/-- What a call of `send_media_frame2usr` leaves, and what becomes of the frame. -/
def sent (tracked : Tracked) (sending : Sending) : AvUsr × Fate :=
  tracked.usr.sendMediaFrame2usr sending.frame sending.seq sending.conditions

/-- A call of `send_media_frame2usr`. -/
def send (tracked : Tracked) (sending : Sending) : Tracked :=
  let sent := tracked.sent sending
  if sent.2.adds then
    { usr := sent.1
      media := Function.update tracked.media tracked.usr.info.map.tail sending.frame.video
      met := tracked.met || sent.1.info.map.tail == sent.1.info.map.head }
  else { tracked with usr := sent.1 }

/-- The first state of a viewer: the device connected to it, or its head was sent. -/
inductive Begun : Tracked → Prop
  | gate (subscription : Subscription) : subscription.gate = true → Begun (init subscription)
  | head (subscription : Subscription) (sending : Sending) : subscription.gate = false →
      sending.frame.video = true → 0 ≤ sending.conditions.ackRet →
      Begun ((init subscription).send sending)

/-- Whether the call looks how much is in the buffer. -/
def measures (tracked : Tracked) (sending : Sending) : Bool :=
  (tracked.usr.checkFirst sending.frame.flag sending.conditions).2

/-- No more is in the buffer than after the last call. -/
def Within (tracked : Tracked) (sending : Sending) : Prop :=
  tracked.measures sending = true →
    sending.conditions.outBuffer ≤ tracked.usr.sock.sendBuffers

/-- The bytes in the buffer could be counted, and the type of a frame that is put into the map
says whether it is audio. -/
structure Regular (tracked : Tracked) (sending : Sending) : Prop where
  counted : tracked.measures sending = true →
    0 ≤ sending.conditions.outBuffer ∨
      sending.conditions.outBuffer = tracked.usr.sock.sendBuffers
  typed : (tracked.sent sending).2.adds = true →
    (sending.frame.type = .pcm ↔ sending.frame.video = false)

/-- The map agrees with the buffer. -/
structure Exact (tracked : Tracked) : Prop where
  sum : tracked.usr.info.map.vFrames + tracked.usr.info.map.aFrames =
    ((tracked.usr.info.map.tail : Int) - tracked.usr.info.map.head) % maxMapBufFrames
  vFrames : tracked.usr.info.map.vFrames =
    (tracked.usr.info.map.queued tracked.media).countP fun queued => queued.video
  aFrames : tracked.usr.info.map.aFrames =
    (tracked.usr.info.map.queued tracked.media).countP fun queued => !queued.video
  sizes : ((tracked.usr.info.map.queued tracked.media).map Queued.size).sum =
    tracked.usr.sock.sendBuffers
  bytes : tracked.usr.info.totalPut - tracked.usr.info.totalOut = tracked.usr.sock.sendBuffers
  apart : tracked.met = false

/-- What holds of a viewer between two calls. -/
structure Sound (tracked : Tracked) : Prop where
  backlog : ∃ queue, tracked.usr.backlog.Sound tracked.media queue ∧
    ∀ queued ∈ queue, queued.Matched
  apart : tracked.met = false

theorem Sound.exact {tracked : Tracked} (sound : tracked.Sound) : tracked.Exact := by
  obtain ⟨⟨queue, backlog, matched⟩, apart⟩ := sound
  obtain ⟨videos, audios⟩ := Queued.counts_of_matched matched
  have elements : tracked.usr.info.map.queued tracked.media = queue := backlog.holds.elements
  refine ⟨backlog.holds.sum_eq_mod, ?_, ?_, ?_, backlog.bytes, apart⟩
  · rw [elements, ← videos]
    exact backlog.holds.vFrames
  · rw [elements, ← audios]
    exact backlog.holds.aFrames
  · rw [elements]
    exact backlog.sizes

/-- The call of a viewer whose head was sent. -/
theorem sent_acked {tracked : Tracked} (acked : tracked.usr.info.sendAckFlag = true)
    (sending : Sending) :
    tracked.sent sending =
      if tracked.measures sending then
        (tracked.usr.checkFirst sending.frame.flag sending.conditions).1.sendFrame sending.frame
          sending.seq sending.conditions
      else ((tracked.usr.checkFirst sending.frame.flag sending.conditions).1, .dropped) := by
  unfold sent AvUsr.sendMediaFrame2usr
  rw [if_pos acked]
  rfl

/-- A call that adds no element. -/
theorem Sound.of_kept {tracked : Tracked} {sending : Sending} {queue : List Queued}
    (idle : (tracked.sent sending).2.adds = false) (apart : tracked.met = false)
    (backlog : (tracked.sent sending).1.backlog.Sound tracked.media queue)
    (matched : ∀ queued ∈ queue, queued.Matched) : (tracked.send sending).Sound := by
  unfold send
  dsimp only
  rw [if_neg (Bool.eq_false_iff.mp idle)]
  exact ⟨⟨queue, backlog, matched⟩, apart⟩

/-- A call that adds an element. -/
theorem Sound.of_added {tracked : Tracked} {sending : Sending} {queue : List Queued}
    {queued : Queued} (adds : (tracked.sent sending).2.adds = true) (apart : tracked.met = false)
    (backlog : (tracked.sent sending).1.backlog.Sound
      (Function.update tracked.media tracked.usr.info.map.tail sending.frame.video)
      (queue ++ [queued]))
    (matched : ∀ queued ∈ queue, queued.Matched) (last : queued.Matched) :
    (tracked.send sending).Sound := by
  unfold send
  dsimp only
  rw [if_pos adds]
  refine ⟨⟨_, backlog, fun other member => ?_⟩, ?_⟩
  · rcases List.mem_append.mp member with member | member
    · exact matched other member
    · rw [List.mem_singleton.mp member]
      exact last
  · have filled : ¬(tracked.sent sending).1.info.map.head =
        (tracked.sent sending).1.info.map.tail := fun met =>
      List.append_ne_nil_of_right_ne_nil _ (List.cons_ne_nil _ _)
        (backlog.holds.head_eq_tail_iff.mp met)
    rw [apart, Bool.false_or, beq_eq_false_iff_ne]
    exact fun met => filled met.symm

theorem Sound.send {tracked : Tracked} {sending : Sending} (sound : tracked.Sound)
    (within : tracked.Within sending) (regular : tracked.Regular sending) :
    (tracked.send sending).Sound := by
  obtain ⟨⟨queue, backlog, matched⟩, apart⟩ := sound
  have sent := sent_acked backlog.acked sending
  have first : (tracked.usr.checkFirst sending.frame.flag sending.conditions).1.backlog =
      tracked.usr.backlog :=
    congrArg Prod.fst (AvUsr.checkFirst_untouched sending.frame.flag sending.conditions _)
  cases looked : tracked.measures sending with
  | false =>
    rw [if_neg (Bool.eq_false_iff.mp looked)] at sent
    refine .of_kept (by rw [sent]; rfl) apart ?_ matched
    rw [sent, first]
    exact backlog
  | true =>
    have within := within looked
    have counted := regular.counted looked
    rw [if_pos looked] at sent
    rw [← first] at backlog
    generalize (tracked.usr.checkFirst sending.frame.flag sending.conditions).1 = usr at *
    have buffers : usr.sock.sendBuffers = tracked.usr.sock.sendBuffers :=
      congrArg Backlog.sendBuffers first
    have tail : usr.info.map.tail = tracked.usr.info.map.tail :=
      congrArg (fun backlog => backlog.map.tail) first
    rw [← buffers] at within counted
    obtain ⟨left, leftMatched, ⟨idle, after⟩ | ⟨adds, after⟩⟩ :=
      backlog.sendFrame matched within counted sending.frame sending.seq
    · rw [← sent] at idle after
      exact .of_kept idle apart after leftMatched
    · rw [← sent] at adds after
      rw [tail] at after
      exact .of_added adds apart after leftMatched (regular.typed adds)

theorem holds_empty (media : Nat → Bool) : SendMap.empty.Holds media [] :=
  ⟨by decide, by decide, rfl, rfl, rfl⟩

theorem Begun.sound {tracked : Tracked} (begun : tracked.Begun) : tracked.Sound := by
  cases begun with
  | gate subscription gate =>
    exact ⟨⟨[], ⟨holds_empty _, rfl, rfl, gate⟩, fun _ member => by cases member⟩, rfl⟩
  | head subscription sending plain video acked =>
    have sent : (init subscription).sent sending =
        ((AvUsr.init subscription).acknowledge sending.conditions, .acked) := by
      unfold Tracked.sent AvUsr.sendMediaFrame2usr
      have unacked : (init subscription).usr.info.sendAckFlag = false := plain
      rw [if_neg (Bool.eq_false_iff.mp unacked), if_pos video, if_pos acked]
      rfl
    have typed : Queued.Matched ⟨true, .p, sending.conditions.outBuffer⟩ := by
      unfold Queued.Matched
      simp
    have holds := (holds_empty (init subscription).media).addEle (by decide) true .p
      sending.conditions.outBuffer
    have none : ∀ queued ∈ ([] : List Queued), queued.Matched := fun _ member => by cases member
    refine .of_added (by rw [sent]; rfl) rfl ?_ none typed
    rw [sent, video]
    exact ⟨holds, Int.add_zero _, Int.sub_zero _, rfl⟩

end Tracked

/-- In a run in which the bytes in the buffer can be counted and the types of the frames put into
the map say which are audio, the map agrees with the buffer throughout. -/
theorem send_map_exact {start tracked : Tracked} {sendings : List Sending} (begun : start.Begun)
    (run : Runs (fun before sending after => before.send sending = after ∧
      before.Within sending ∧ before.Regular sending) start sendings tracked) : tracked.Exact := by
  refine Tracked.Sound.exact (run.invariant begun.sound fun before sending after taken sound => ?_)
  obtain ⟨rfl, within, regular⟩ := taken
  exact sound.send within regular

/-- A viewer that the device connected to. -/
def gateViewer : Subscription := ⟨3, 0, 1, 30, 40, 200 * 1024, true⟩

/-- A sound as the map expects it. -/
def pcmFrame : MediaFrame := ⟨false, .pcm, .pcm, 80, by decide⟩

/-- Sixty bytes are in the buffer. -/
def filledSocket : Conditions := { openSocket with outBuffer := 60 }

def keySending : Sending := ⟨keyFrame, 1, openSocket⟩

def pcmSending : Sending := ⟨pcmFrame, 0, filledSocket⟩

/-- An I frame and a sound are written, and forty bytes of the first left the socket between. -/
theorem send_map_exact_pcm :
    let keyed := (Tracked.init gateViewer).send keySending
    let filled := keyed.send pcmSending
    filled.Exact ∧ filled.usr.info.map.vFrames = 1 ∧ filled.usr.info.map.aFrames = 1 ∧
      filled.usr.sock.sendBuffers = 160 := by
  intro keyed filled
  have first : (Tracked.init gateViewer).send keySending = keyed ∧
      (Tracked.init gateViewer).Within keySending ∧ (Tracked.init gateViewer).Regular keySending :=
    ⟨rfl, fun _ => by decide, fun _ => .inl (by decide), fun _ => by decide⟩
  have second : keyed.send pcmSending = filled ∧ keyed.Within pcmSending ∧
      keyed.Regular pcmSending :=
    ⟨rfl, fun _ => by decide +kernel, fun _ => .inl (by decide), fun _ => by decide⟩
  refine ⟨send_map_exact (.gate gateViewer rfl) (.snoc (.snoc .nil first) second), ?_, ?_, ?_⟩
  · decide +kernel
  · decide +kernel
  · decide +kernel

/-- The AAC frame of an encoder is counted as a video frame. -/
theorem aac_counted_as_video :
    ¬∀ (start tracked : Tracked) (sendings : List Sending), start.Begun →
      Runs (fun before sending after => before.send sending = after ∧ before.Within sending)
        start sendings tracked → tracked.Exact := by
  intro always
  have run : Runs (fun before sending after => before.send sending = after ∧ before.Within sending)
      (Tracked.init gateViewer) [⟨soundFrame, 0, openSocket⟩] _ :=
    .snoc .nil ⟨rfl, fun _ => Int.le_refl 0⟩
  have exact := always _ _ _ (.gate gateViewer rfl) run
  have counted := exact.aFrames
  revert counted
  decide +kernel

end ExmOnvif.Rtimage
