/-
This file models how a frame is sent to one viewer of the image server, and proves that
dropping frames keeps the stream decodable. A viewer is sent the head of the stream first and
then waits for an I frame. From there on, frames are dropped when the socket is too full, and
a P frame is written only while the flag `send_i_flag` is set.

Every way to drop a video frame behind the head clears that flag, except one that is reached
only while all video is being dropped, where the flag is clear already.
-/

import Mathlib.Algebra.Ring.Int.Defs
import Mathlib.Data.List.Infix
import Mathlib.Logic.Function.Basic

namespace ExmOnvif.Rtimage

/-! ### Frames -/

/-- The `FRAMETYPE_` constants. -/
inductive FrameType where
  | i
  | p
  | b
  | pcm
  | adpcm
  | aac
  | md
deriving DecidableEq, Repr

/-- A frame with the flag it has in the pool. What a video pool holds is I and P frames. -/
structure MediaFrame where
  /-- Whether the media type of the source is video. -/
  video : Bool
  flag : FrameType
  type : FrameType
  len : Int
  proper : if video then flag = .i ∨ flag = .p else flag ≠ .i ∧ flag ≠ .p

namespace MediaFrame

theorem intra_of_video {frame : MediaFrame} (video : frame.video = true)
    (other : frame.flag ≠ .p) : frame.flag = .i := by
  have proper := frame.proper
  rw [if_pos video] at proper
  exact proper.resolve_right other

theorem flags_of_audio {frame : MediaFrame} (audio : frame.video = false) :
    frame.flag ≠ .i ∧ frame.flag ≠ .p := by
  have proper := frame.proper
  rw [if_neg (by simp [audio])] at proper
  exact proper

theorem video_of_inter {frame : MediaFrame} (inter : frame.flag = .p) : frame.video = true := by
  by_contra audio
  exact (flags_of_audio (Bool.eq_false_iff.mpr audio)).2 inter

end MediaFrame

/-! ### The map of the socket buffer -/

/-- `MAX_MAP_BUF_FRAMES`. -/
def maxMapBufFrames : Nat := 600

/-- `map_frame_t`. -/
structure MapFrame where
  flag : FrameType
  size : Int

/-- `stream_send_map_t`: the frames that are still in the buffer of the socket. -/
structure SendMap where
  vFrames : Int
  aFrames : Int
  head : Nat
  tail : Nat
  frameMap : Nat → MapFrame

namespace SendMap

def empty : SendMap := ⟨0, 0, 0, 0, fun _ => ⟨.i, 0⟩⟩

/-- The next place of the ring. -/
def next (place : Nat) : Nat := if maxMapBufFrames ≤ place + 1 then 0 else place + 1

/-- The counters after `change` more elements of the type. Only PCM counts as audio. -/
def count (map : SendMap) (flag : FrameType) (change : Int) : SendMap :=
  if flag = .pcm then { map with aFrames := map.aFrames + change }
  else { map with vFrames := map.vFrames + change }

/-- `add_ele2map`. -/
def addEle (map : SendMap) (flag : FrameType) (size : Int) : SendMap :=
  { map with
    frameMap := Function.update map.frameMap map.tail ⟨flag, size⟩
    tail := next map.tail }.count flag 1

/-- The loop of `del_ele_from_map`. -/
def delLoop : Nat → Int → SendMap → SendMap
  | 0, _, map => map
  | rounds + 1, remain, map =>
    let frame := map.frameMap map.head
    if frame.size ≤ remain then
      let map := { map with head := next map.head }.count frame.flag (-1)
      if map.head = map.tail then map else delLoop rounds (remain - frame.size) map
    else
      { map with
        frameMap := Function.update map.frameMap map.head ⟨frame.flag, frame.size - remain⟩ }

/-- `del_ele_from_map`. -/
def delEle (map : SendMap) (bytes : Int) : SendMap :=
  if map.head = map.tail then map
  else if bytes ≤ 0 then map
  else delLoop maxMapBufFrames bytes map

end SendMap

/-! ### A viewer -/

/-- `socket_attrib_t`. -/
structure SockAttr where
  sendBufLen : Int
  sendBufRemain : Int
  sendBuffers : Int

/-- `stream_send_info_t`. -/
structure SendInfo where
  firstFlag : Bool
  sendAckFlag : Bool
  sendIFlag : Bool
  requireIFlag : Bool
  dropPFlag : Bool
  dropVFlag : Bool
  dropAFlag : Bool
  dropVFrames : Int
  dropAFrames : Int
  lastVSeq : BitVec 32
  totalPut : Int
  totalOut : Int
  map : SendMap

/-- `av_usr_t`, as far as sending is concerned. -/
structure AvUsr where
  servStat : Int
  vencNo : Int
  streamIdx : Int
  thDropP : Int
  thDropV : Int
  sock : SockAttr
  info : SendInfo

/-- What a viewer asks for, and the settings of the server. -/
structure Subscription where
  servStat : Int
  vencNo : Int
  streamIdx : Int
  thDropP : Int
  thDropV : Int
  sendBufLen : Int
  /-- Whether the device was asked to connect to the viewer. -/
  gate : Bool

/-- A viewer after `init_av_usr_info` and the subscription. Where the device connects to the
viewer, no head is sent. -/
def AvUsr.init (subscription : Subscription) : AvUsr where
  servStat := subscription.servStat
  vencNo := subscription.vencNo
  streamIdx := subscription.streamIdx
  thDropP := subscription.thDropP
  thDropV := subscription.thDropV
  sock := ⟨subscription.sendBufLen, 0, 0⟩
  info := {
    firstFlag := subscription.gate
    sendAckFlag := subscription.gate
    sendIFlag := false
    requireIFlag := subscription.gate
    dropPFlag := false
    dropVFlag := false
    dropAFlag := false
    dropVFrames := 0
    dropAFrames := 0
    lastVSeq := 0
    totalPut := 0
    totalOut := 0
    map := .empty }

/-! ### Sending a frame -/

/-- What a call of `send_media_frame2usr` meets. -/
structure Conditions where
  /-- What `send_rtstream_ack_pkt` returns. -/
  ackRet : Int
  /-- `get_fd_out_buffer_num`. -/
  outBuffer : Int
  /-- `get_playback_stat`. -/
  playbackStat : Int
  /-- `net_pkts_sta`. -/
  pktsSta : BitVec 32
  /-- `pkts_limit`, which is compared as an unsigned number. -/
  pktsLimit : BitVec 32
  /-- What `net_set_tcp_sendbuf_len` returns for the largest buffer. -/
  setRet : Int
  /-- `net_get_tcp_sendbuf_len`. -/
  sendbufLen : Int
  /-- What `write_frame_data2sdk` or `write_frame_data2trans` returns. -/
  written : Int

/-- What becomes of a frame. -/
inductive Fate where
  /-- The head was sent in its place. -/
  | acked
  | dropped
  /-- It was written, with what the write returned. -/
  | wrote (ret : Int)
  /-- The thread that read it did not pass it on. -/
  | skipped
deriving DecidableEq, Repr

/-- What `send_media_frame2usr` returns. -/
def Fate.ret : Fate → Int
  | .acked => 1
  | .dropped | .skipped => 0
  | .wrote ret => ret

namespace AvUsr

/-- A part of the buffer: four fifths, as the product with `0.8` is truncated. -/
def usable (len : Int) : Int := (4 * len).tdiv 5

/-- `adjust_usr_sock_buf`. -/
def adjustUsrSockBuf (usr : AvUsr) (conditions : Conditions) : AvUsr :=
  if conditions.setRet < 0 then usr
  else
    let len := usable conditions.sendbufLen
    { usr with
      sock.sendBufLen := len
      sock.sendBufRemain := if len < usr.sock.sendBufRemain then len else usr.sock.sendBufRemain }

/-- The bytes that left the socket since the last call. -/
def measure (usr : AvUsr) (conditions : Conditions) : AvUsr :=
  let sendBytes := usr.sock.sendBuffers - conditions.outBuffer
  { usr with
    sock.sendBufRemain := conditions.outBuffer
    sock.sendBuffers := conditions.outBuffer
    info.map := usr.info.map.delEle sendBytes
    info.totalOut := usr.info.totalOut + sendBytes }

/-- The head of the stream was sent: a false element stands for it in the map. -/
def acknowledge (usr : AvUsr) (conditions : Conditions) : AvUsr :=
  { usr with
    sock.sendBuffers := conditions.outBuffer
    info.map := usr.info.map.addEle .p conditions.outBuffer
    info.totalPut := conditions.outBuffer
    info.totalOut := 0
    info.sendAckFlag := true
    info.firstFlag := true
    info.requireIFlag := true }

/-- A video frame is dropped, and the next P frame needs an I frame first. -/
def dropVideo (usr : AvUsr) (frames : Int) : AvUsr :=
  { usr with
    info.sendIFlag := false
    info.dropVFrames := usr.info.dropVFrames + frames }

/-- A video frame is dropped, and with it the video that follows. -/
def startDropV (usr : AvUsr) : AvUsr := { usr.dropVideo 1 with info.dropVFlag := true }

/-- An audio frame is dropped, and with it the audio that follows. -/
def startDropA (usr : AvUsr) : AvUsr :=
  { usr with
    info.dropAFlag := true
    info.dropAFrames := usr.info.dropAFrames + 1 }

end AvUsr

/-- A viewer, and whether the frame is still to be written. -/
abbrev Pending := AvUsr × Bool

/-- One check after another. -/
def Pending.next (pending : Pending) (check : AvUsr → Pending) : Pending :=
  if pending.2 then check pending.1 else pending

namespace AvUsr

/-- Whether there is room in the map, and in the socket when few packets are sent. -/
def checkRoom (conditions : Conditions) (usr : AvUsr) : Pending :=
  if (maxMapBufFrames : Int) < usr.info.map.vFrames + usr.info.map.aFrames + 10 then
    (usr.startDropV, false)
  else if conditions.pktsSta < conditions.pktsLimit then
    let usr := usr.adjustUsrSockBuf conditions
    if usr.sock.sendBufLen - usr.sock.sendBufRemain < (usr.sock.sendBufLen * 3).tdiv 5 then
      (usr.startDropV, false)
    else (usr, true)
  else if conditions.sendbufLen ≠ 512 * 1024 then
    ({ usr with sock.sendBufLen := usable (512 * 1024) }, true)
  else (usr, true)

/-- Whether the video is to be resumed after it was dropped. -/
def checkResume (usr : AvUsr) : Pending :=
  if usr.info.dropVFlag then
    if usr.info.dropPFlag ∧ ¬usr.info.map.vFrames < 10 then (usr.dropVideo 1, false)
    else
      let usr : AvUsr := if usr.info.dropPFlag then { usr with info.dropVFlag := false } else usr
      if usr.info.map.vFrames + 10 < usr.thDropV then
        ({ usr with info.dropVFlag := false }, true)
      else
        -- This is the one way to drop a video frame that leaves `send_i_flag` as it is.
        ({ usr with info.dropVFrames := usr.info.dropVFrames + 1 }, false)
  else (usr, true)

/-- Whether the number of frames in the map allows a P frame. -/
def checkP (usr : AvUsr) : Pending :=
  if usr.info.dropPFlag then
    if usr.info.map.vFrames + 10 < usr.thDropP then
      ({ usr with info.dropPFlag := false }, true)
    else (usr.dropVideo 1, false)
  else if usr.thDropP ≤ usr.info.map.vFrames then
    ({ usr.dropVideo 2 with info.dropPFlag := true }, false)
  else (usr, true)

/-- An I frame is sent. A P frame is sent only after an I frame. -/
def checkType (flag : FrameType) (seq : BitVec 32) (usr : AvUsr) : Pending :=
  if flag = .i then ({ usr with info.sendIFlag := true, info.lastVSeq := seq }, true)
  else usr.checkP.next fun usr =>
    if usr.info.sendIFlag then (usr, true) else (usr.dropVideo 1, false)

/-- The checks of a video frame. -/
def checkVideo (flag : FrameType) (seq : BitVec 32) (conditions : Conditions) (usr : AvUsr) :
    Pending :=
  ((usr.checkRoom conditions).next checkResume).next (checkType flag seq)

/-- Whether an audio frame does not fit into the socket. The comparison is unsigned. -/
def lacksAudio (usr : AvUsr) (len : Int) : Bool :=
  (usr.sock.sendBufLen - usr.sock.sendBufRemain - 1024) % 2 ^ 32 < (len + 64) % 2 ^ 32

/-- The checks of an audio frame. -/
def checkAudio (len : Int) (conditions : Conditions) (usr : AvUsr) : Pending :=
  if 40 < usr.info.map.aFrames then (usr.startDropA, false)
  else if (maxMapBufFrames : Int) < usr.info.map.vFrames + usr.info.map.aFrames + 2 then
    (usr.startDropA, false)
  else
    let usr : AvUsr := if usr.lacksAudio len then usr.adjustUsrSockBuf conditions else usr
    if usr.lacksAudio len then (usr.startDropA, false)
    else if usr.info.dropAFlag then
      if usr.info.map.aFrames < 10 then ({ usr with info.dropAFlag := false }, true)
      else (usr, false)
    else (usr, true)

/-- The frame is written. A viewer that the device connected to is let go when that fails. -/
def write (frame : MediaFrame) (conditions : Conditions) (usr : AvUsr) : AvUsr :=
  if 0 < conditions.written then
    { usr with
      sock.sendBuffers := usr.sock.sendBuffers + conditions.written
      sock.sendBufRemain := usr.sock.sendBufRemain + conditions.written
      info.map := usr.info.map.addEle frame.type conditions.written
      info.totalPut := usr.info.totalPut + conditions.written }
  else if usr.streamIdx ≠ -1 then { usr with servStat := 0, vencNo := -1, streamIdx := -1 }
  else usr

/-- A viewer whose head was sent waits for an I frame. -/
def checkFirst (flag : FrameType) (conditions : Conditions) (usr : AvUsr) : Pending :=
  if usr.info.firstFlag then
    if flag = .p then
      if conditions.playbackStat < 0 ∧ usr.info.requireIFlag then
        ({ usr with info.requireIFlag := false }, false)
      else (usr, false)
    else if flag = .i then ({ usr with info.firstFlag := false }, true)
    else (usr, true)
  else (usr, true)

/-- What is left to do for a frame behind the head. -/
def sendFrame (frame : MediaFrame) (seq : BitVec 32) (conditions : Conditions) (usr : AvUsr) :
    AvUsr × Fate :=
  let usr := usr.measure conditions
  let pending := if frame.video then usr.checkVideo frame.flag seq conditions
    else usr.checkAudio frame.len conditions
  if pending.2 then (pending.1.write frame conditions, .wrote conditions.written)
  else (pending.1, .dropped)

/-- `send_media_frame2usr`. When the head cannot be sent, the frame is sent all the same. -/
def sendMediaFrame2usr (frame : MediaFrame) (seq : BitVec 32) (conditions : Conditions)
    (usr : AvUsr) : AvUsr × Fate :=
  if usr.info.sendAckFlag then
    let pending := usr.checkFirst frame.flag conditions
    if pending.2 then pending.1.sendFrame frame seq conditions else (pending.1, .dropped)
  else if frame.video then
    if 0 ≤ conditions.ackRet then (usr.acknowledge conditions, .acked)
    else usr.sendFrame frame seq conditions
  else (usr, .dropped)

end AvUsr

/-! ### The stream of a viewer -/

/-- A frame that came for a viewer, and what became of it. -/
structure Offer where
  frame : MediaFrame
  seq : BitVec 32
  fate : Fate

namespace Offer

/-- Whether the frame was written to the viewer. -/
def written (offer : Offer) : Bool :=
  match offer.fate with
  | .wrote ret => 0 < ret
  | _ => false

/-- Whether a write of the frame was attempted and failed. -/
def failed (offer : Offer) : Bool :=
  match offer.fate with
  | .wrote ret => ret ≤ 0
  | _ => false

theorem wrote_of_written {offer : Offer} (written : offer.written = true) :
    ∃ ret, offer.fate = .wrote ret := by
  obtain ⟨frame, seq, fate⟩ := offer
  cases fate with
  | acked => cases written
  | dropped => cases written
  | wrote ret => exact ⟨ret, rfl⟩
  | skipped => cases written

theorem written_of_wrote {offer : Offer} {ret : Int} (wrote : offer.fate = .wrote ret)
    (positive : 0 < ret) : offer.written = true := by
  unfold written
  rw [wrote]
  exact decide_eq_true positive

end Offer

/-- Among the offers, latest first, an I frame was written, and every video frame behind the
last such I frame was written too. -/
def Unbroken (past : List Offer) : Prop :=
  ∃ since key before, past = since ++ key :: before ∧ key.frame.flag = .i ∧ key.written ∧
    ∀ offer ∈ since, offer.frame.video → offer.written ∧ offer.frame.flag ≠ .i

/-- A P frame was written only where nothing was missing since the last I frame. -/
def Decodable (log : List Offer) : Prop :=
  ∀ offer past, offer :: past <:+ log → offer.frame.flag = .p → offer.written → Unbroken past

/-- A viewer with the frames that came for it, latest first. -/
structure Stream where
  usr : AvUsr
  log : List Offer

/-- A call of `send_media_frame2usr`. -/
structure Sending where
  frame : MediaFrame
  seq : BitVec 32
  conditions : Conditions

namespace Stream

def start (subscription : Subscription) : Stream := ⟨.init subscription, []⟩

def send (stream : Stream) (sending : Sending) : Stream :=
  let sent := stream.usr.sendMediaFrame2usr sending.frame sending.seq sending.conditions
  ⟨sent.1, ⟨sending.frame, sending.seq, sent.2⟩ :: stream.log⟩

/-- Call after call. -/
def run (subscription : Subscription) (sendings : List Sending) : Stream :=
  sendings.foldl send (start subscription)

end Stream

/-! ### What a call does to the flags -/

namespace AvUsr

/-- No P frame can be sent while all video is dropped. -/
def Calm (usr : AvUsr) : Prop := usr.info.dropVFlag → usr.info.sendIFlag = false

/-- The head was sent and no I frame came since. -/
def waiting (usr : AvUsr) : Bool := usr.info.sendAckFlag && usr.info.firstFlag

/-- What a check does that drops the frame or lets it pass: a dropped frame leaves the flag
of the I frame clear. -/
structure Gates (usr : AvUsr) (pending : Pending) : Prop where
  calm : pending.1.Calm
  waiting : pending.1.waiting = usr.waiting
  dropped : pending.2 = false → pending.1.info.sendIFlag = false
  passed : pending.2 = true → pending.1.info.sendIFlag = usr.info.sendIFlag

namespace Gates

theorem of_dropped {usr after : AvUsr} (waiting : after.waiting = usr.waiting)
    (clear : after.info.sendIFlag = false) : Gates usr (after, false) where
  calm _ := clear
  waiting := waiting
  dropped _ := clear
  passed going := by cases going

theorem of_passed {usr after : AvUsr} (calm : after.Calm) (waiting : after.waiting = usr.waiting)
    (kept : after.info.sendIFlag = usr.info.sendIFlag) : Gates usr (after, true) where
  calm := calm
  waiting := waiting
  dropped stopped := by cases stopped
  passed _ := kept

theorem next {usr : AvUsr} {pending : Pending} {check : AvUsr → Pending}
    (first : Gates usr pending)
    (second : pending.1.Calm → Gates pending.1 (check pending.1)) :
    Gates usr (pending.next check) := by
  unfold Pending.next
  split
  · rename_i going
    have checked := second first.calm
    refine ⟨checked.calm, checked.waiting.trans first.waiting, checked.dropped, fun passed => ?_⟩
    rw [checked.passed passed, first.passed going]
  · exact first

end Gates

theorem adjustUsrSockBuf_info (usr : AvUsr) (conditions : Conditions) :
    (usr.adjustUsrSockBuf conditions).info = usr.info := by
  unfold adjustUsrSockBuf
  split <;> rfl

theorem Calm.congr {usr other : AvUsr} (same : usr.info = other.info) (calm : other.Calm) :
    usr.Calm := by
  unfold Calm
  rw [same]
  exact calm

theorem waiting_congr {usr other : AvUsr} (same : usr.info = other.info) :
    usr.waiting = other.waiting := by
  unfold waiting
  rw [same]

theorem checkRoom_gates {usr : AvUsr} (calm : usr.Calm) (conditions : Conditions) :
    Gates usr (usr.checkRoom conditions) := by
  have adjusted := adjustUsrSockBuf_info usr conditions
  unfold checkRoom
  split
  · exact .of_dropped rfl rfl
  split
  · dsimp only
    split
    · exact .of_dropped (waiting_congr adjusted :) rfl
    · exact .of_passed (calm.congr adjusted) (waiting_congr adjusted) (by rw [adjusted])
  split
  · exact .of_passed calm rfl rfl
  · exact .of_passed calm rfl rfl

/-- Here the flag of the I frame may be left as it is, for it is clear while video is dropped.
Video that goes on is not dropped any more. -/
theorem checkResume_gates {usr : AvUsr} (calm : usr.Calm) :
    Gates usr usr.checkResume ∧
      (usr.checkResume.2 = true → usr.checkResume.1.info.dropVFlag = false) := by
  unfold checkResume
  split
  · rename_i dropping
    have clear := calm dropping
    split
    · exact ⟨.of_dropped rfl rfl, fun going => by cases going⟩
    dsimp only
    split
    · split
      · exact ⟨.of_passed (fun set => by cases set) rfl rfl, fun _ => rfl⟩
      · exact ⟨.of_dropped rfl clear, fun going => by cases going⟩
    · split
      · exact ⟨.of_passed (fun set => by cases set) rfl rfl, fun _ => rfl⟩
      · exact ⟨.of_dropped rfl clear, fun going => by cases going⟩
  · rename_i steady
    exact ⟨.of_passed calm rfl rfl, fun _ => by simpa using steady⟩

theorem checkP_gates {usr : AvUsr} (calm : usr.Calm) : Gates usr usr.checkP := by
  unfold checkP
  split
  · split
    · exact .of_passed calm rfl rfl
    · exact .of_dropped rfl rfl
  · split
    · exact .of_dropped rfl rfl
    · exact .of_passed calm rfl rfl

/-- What the checks of a video frame do to the flags: the flag of the I frame says afterwards
whether the frame goes on. -/
structure Checked (flag : FrameType) (usr : AvUsr) (pending : Pending) : Prop where
  calm : pending.1.Calm
  waiting : pending.1.waiting = usr.waiting
  sendIFlag : pending.1.info.sendIFlag = pending.2
  needed : pending.2 = true → flag = .i ∨ usr.info.sendIFlag = true

theorem Gates.checked_of_dropped {flag : FrameType} {usr : AvUsr} {pending : Pending}
    (gates : Gates usr pending) (stopped : ¬pending.2 = true) : Checked flag usr pending := by
  have clear : pending.2 = false := Bool.eq_false_iff.mpr stopped
  exact ⟨gates.calm, gates.waiting, (gates.dropped clear).trans clear.symm,
    fun going => absurd going stopped⟩

/-- A P frame goes on only while the flag of the I frame is set. -/
theorem checkType_checked (flag : FrameType) (seq : BitVec 32) {usr : AvUsr} (calm : usr.Calm)
    (steady : usr.info.dropVFlag = false) : Checked flag usr (usr.checkType flag seq) := by
  unfold checkType
  split
  · rename_i intra
    exact ⟨fun dropping => absurd dropping (Bool.eq_false_iff.mp steady), rfl, rfl,
      fun _ => .inl intra⟩
  have gates := checkP_gates calm
  unfold Pending.next
  split
  · rename_i going
    dsimp only
    split
    · rename_i set
      exact ⟨gates.calm, gates.waiting, set, fun _ => .inr ((gates.passed going).symm.trans set)⟩
    · exact ⟨fun _ => rfl, gates.waiting, rfl, fun going => by cases going⟩
  · rename_i stopped
    exact gates.checked_of_dropped stopped

theorem checkVideo_checked (flag : FrameType) (seq : BitVec 32) (conditions : Conditions)
    {usr : AvUsr} (calm : usr.Calm) : Checked flag usr (usr.checkVideo flag seq conditions) := by
  have room := checkRoom_gates calm conditions
  have resumed := room.next fun calm => (checkResume_gates calm).1
  have steady : ((usr.checkRoom conditions).next checkResume).2 = true →
      ((usr.checkRoom conditions).next checkResume).1.info.dropVFlag = false := by
    unfold Pending.next
    split
    · exact (checkResume_gates room.calm).2
    · rename_i stopped
      exact fun going => absurd going stopped
  unfold checkVideo
  generalize (usr.checkRoom conditions).next checkResume = pending at resumed steady
  unfold Pending.next
  split
  · rename_i going
    have typed := checkType_checked flag seq resumed.calm (steady going)
    refine ⟨typed.calm, typed.waiting.trans resumed.waiting, typed.sendIFlag, fun passed => ?_⟩
    rw [← resumed.passed going]
    exact typed.needed passed
  · rename_i stopped
    exact resumed.checked_of_dropped stopped

/-- The checks of an audio frame leave the flags of the video as they are. -/
theorem checkAudio_kept (len : Int) (conditions : Conditions) (usr : AvUsr) :
    (usr.checkAudio len conditions).1.waiting = usr.waiting ∧
      (usr.checkAudio len conditions).1.info.sendIFlag = usr.info.sendIFlag ∧
      (usr.checkAudio len conditions).1.info.dropVFlag = usr.info.dropVFlag := by
  have fitted : (if usr.lacksAudio len then usr.adjustUsrSockBuf conditions else usr).info =
      usr.info := by
    split
    · exact adjustUsrSockBuf_info usr conditions
    · rfl
  unfold checkAudio
  split
  · exact ⟨rfl, rfl, rfl⟩
  split
  · exact ⟨rfl, rfl, rfl⟩
  dsimp only
  generalize (if usr.lacksAudio len then usr.adjustUsrSockBuf conditions else usr) = fit at fitted
  simp only [waiting, ← fitted]
  split
  · exact ⟨rfl, rfl, rfl⟩
  split
  · split <;> exact ⟨rfl, rfl, rfl⟩
  · exact ⟨rfl, rfl, rfl⟩

theorem write_kept (frame : MediaFrame) (conditions : Conditions) (usr : AvUsr) :
    (usr.write frame conditions).waiting = usr.waiting ∧
      (usr.write frame conditions).info.sendIFlag = usr.info.sendIFlag ∧
      (usr.write frame conditions).info.dropVFlag = usr.info.dropVFlag := by
  unfold write
  split
  · exact ⟨rfl, rfl, rfl⟩
  split <;> exact ⟨rfl, rfl, rfl⟩

theorem Calm.of_kept {usr after : AvUsr} (calm : usr.Calm)
    (sendIFlag : after.info.sendIFlag = usr.info.sendIFlag)
    (dropVFlag : after.info.dropVFlag = usr.info.dropVFlag) : after.Calm := by
  intro dropping
  rw [dropVFlag] at dropping
  rw [sendIFlag]
  exact calm dropping

/-- What a call can do to the flags, by what becomes of the frame. -/
inductive Sends (frame : MediaFrame) (usr after : AvUsr) : Fate → Prop
  | audio (fate : Fate) : frame.video = false → after.waiting = usr.waiting →
      after.info.sendIFlag = usr.info.sendIFlag → Sends frame usr after fate
  /-- The head was sent, or the viewer still waits for an I frame. -/
  | held (fate : Fate) : frame.video = true → fate = .acked ∨ fate = .dropped →
      after.waiting = true → Sends frame usr after fate
  | dropped : frame.video = true → after.info.sendIFlag = false → Sends frame usr after .dropped
  | wrote (ret : Int) : frame.video = true →
      frame.flag = .i ∨ usr.info.sendIFlag = true ∧ usr.waiting = false →
      Sends frame usr after (.wrote ret)

theorem Sends.of_audio {frame : MediaFrame} {usr after : AvUsr} {fate : Fate}
    (sends : Sends frame usr after fate) (sound : frame.video = false) :
    after.waiting = usr.waiting ∧ after.info.sendIFlag = usr.info.sendIFlag := by
  cases sends with
  | audio _ _ waiting sendIFlag => exact ⟨waiting, sendIFlag⟩
  | held _ video => cases sound.symm.trans video
  | dropped video => cases sound.symm.trans video
  | wrote _ video => cases sound.symm.trans video

/-- A video frame other than an I frame is written only with the flag of the I frame set. -/
theorem Sends.ready_of_wrote {frame : MediaFrame} {usr after : AvUsr} {fate : Fate} {ret : Int}
    (sends : Sends frame usr after fate) (video : frame.video = true) (other : frame.flag ≠ .i)
    (wrote : fate = .wrote ret) : usr.info.sendIFlag = true ∧ usr.waiting = false := by
  cases sends with
  | audio _ sound => cases sound.symm.trans video
  | held _ _ fate =>
    rcases fate with rfl | rfl
    · cases wrote
    · cases wrote
  | dropped => cases wrote
  | wrote _ _ needed => exact needed.resolve_left other

/-- A viewer that would be sent a P frame after a video frame was sent that frame. -/
theorem Sends.wrote_of_ready {frame : MediaFrame} {usr after : AvUsr} {fate : Fate}
    (sends : Sends frame usr after fate) (video : frame.video = true)
    (set : after.info.sendIFlag = true) (begun : after.waiting = false) :
    ∃ ret, fate = .wrote ret := by
  cases sends with
  | audio _ sound => cases sound.symm.trans video
  | held _ _ _ waits => cases waits.symm.trans begun
  | dropped _ clear => cases clear.symm.trans set
  | wrote ret => exact ⟨ret, rfl⟩

theorem sendFrame_sends {frame : MediaFrame} {usr : AvUsr} (calm : usr.Calm)
    (ready : frame.flag = .i ∨ usr.waiting = false ∨ frame.video = false) (seq : BitVec 32)
    (conditions : Conditions) :
    (usr.sendFrame frame seq conditions).1.Calm ∧
      Sends frame usr (usr.sendFrame frame seq conditions).1
        (usr.sendFrame frame seq conditions).2 := by
  have measured : (usr.measure conditions).Calm := calm
  unfold sendFrame
  dsimp only
  cases video : frame.video with
  | true =>
    have checked := checkVideo_checked frame.flag seq conditions measured
    simp only [if_true]
    generalize (usr.measure conditions).checkVideo frame.flag seq conditions = pending at checked
    split
    · rename_i going
      obtain ⟨-, sendIFlag, dropVFlag⟩ := write_kept frame conditions pending.1
      refine ⟨checked.calm.of_kept sendIFlag dropVFlag, .wrote _ video ?_⟩
      rcases checked.needed going with intra | set
      · exact .inl intra
      rcases ready with intra | ready | audio
      · exact .inl intra
      · exact .inr ⟨set, ready⟩
      · rw [video] at audio
        cases audio
    · rename_i stopped
      exact ⟨checked.calm,
        .dropped video (checked.sendIFlag.trans (Bool.eq_false_iff.mpr stopped))⟩
  | false =>
    obtain ⟨waiting, sendIFlag, dropVFlag⟩ := checkAudio_kept frame.len conditions
      (usr.measure conditions)
    have calm := measured.of_kept sendIFlag dropVFlag
    simp only [Bool.false_eq_true, if_false]
    generalize (usr.measure conditions).checkAudio frame.len conditions = pending at *
    split
    · obtain ⟨waitingKept, sendIKept, dropVKept⟩ := write_kept frame conditions pending.1
      exact ⟨calm.of_kept sendIKept dropVKept,
        .audio _ video (waitingKept.trans waiting) (sendIKept.trans sendIFlag)⟩
    · exact ⟨calm, .audio _ video waiting sendIFlag⟩

theorem checkFirst_kept (flag : FrameType) (conditions : Conditions) (usr : AvUsr) :
    (usr.checkFirst flag conditions).1.info.sendIFlag = usr.info.sendIFlag ∧
      (usr.checkFirst flag conditions).1.info.dropVFlag = usr.info.dropVFlag := by
  unfold checkFirst
  split
  · split
    · split <;> exact ⟨rfl, rfl⟩
    · split <;> exact ⟨rfl, rfl⟩
  · exact ⟨rfl, rfl⟩

/-- A viewer that waits is held back at a P frame, and waits no more at an I frame. -/
theorem checkFirst_cases {usr : AvUsr} (acked : usr.info.sendAckFlag = true) (flag : FrameType)
    (conditions : Conditions) :
    ((usr.checkFirst flag conditions).2 = false ∧ flag = .p ∧
        (usr.checkFirst flag conditions).1.waiting = true) ∨
      ((usr.checkFirst flag conditions).2 = true ∧
        (flag = .i ∨ flag ≠ .p ∨ usr.waiting = false) ∧
        (flag ≠ .i → (usr.checkFirst flag conditions).1.waiting = usr.waiting)) := by
  unfold checkFirst
  split
  · rename_i first
    split
    · rename_i inter
      refine .inl ?_
      split
      · exact ⟨rfl, inter, by simp [waiting, acked, first]⟩
      · exact ⟨rfl, inter, by simp [waiting, acked, first]⟩
    · rename_i other
      refine .inr ?_
      split
      · rename_i intra
        exact ⟨rfl, .inl intra, fun differs => absurd intra differs⟩
      · exact ⟨rfl, .inr (.inl other), fun _ => rfl⟩
  · rename_i begun
    exact .inr ⟨rfl, .inr (.inr (by simp [waiting, begun])), fun _ => rfl⟩

/-- The first flag matters to nothing but the waiting. -/
theorem Sends.of_first {frame : MediaFrame} {usr first after : AvUsr} {fate : Fate}
    (sends : Sends frame first after fate)
    (waiting : frame.flag ≠ .i → first.waiting = usr.waiting)
    (sendIFlag : first.info.sendIFlag = usr.info.sendIFlag) : Sends frame usr after fate := by
  cases sends with
  | audio _ audio waits set =>
    exact .audio _ audio (waits.trans (waiting (MediaFrame.flags_of_audio audio).1))
      (set.trans sendIFlag)
  | held _ video fate waits => exact .held _ video fate waits
  | dropped video clear => exact .dropped video clear
  | wrote _ video needed =>
    refine .wrote _ video ?_
    by_cases intra : frame.flag = .i
    · exact .inl intra
    · rw [← sendIFlag, ← waiting intra]
      exact needed

theorem sendMediaFrame2usr_sends {usr : AvUsr} (calm : usr.Calm) (frame : MediaFrame)
    (seq : BitVec 32) (conditions : Conditions) :
    (usr.sendMediaFrame2usr frame seq conditions).1.Calm ∧
      Sends frame usr (usr.sendMediaFrame2usr frame seq conditions).1
        (usr.sendMediaFrame2usr frame seq conditions).2 := by
  unfold sendMediaFrame2usr
  split
  · rename_i acked
    obtain ⟨sendIFlag, dropVFlag⟩ := checkFirst_kept frame.flag conditions usr
    have calm := calm.of_kept sendIFlag dropVFlag
    have first := checkFirst_cases acked frame.flag conditions
    dsimp only
    generalize usr.checkFirst frame.flag conditions = pending at *
    rcases first with ⟨stopped, inter, waits⟩ | ⟨going, ready, waiting⟩
    · rw [if_neg (Bool.eq_false_iff.mp stopped)]
      exact ⟨calm, .held _ (MediaFrame.video_of_inter inter) (.inr rfl) waits⟩
    · rw [if_pos going]
      have ready : frame.flag = .i ∨ pending.1.waiting = false ∨ frame.video = false := by
        cases video : frame.video with
        | false => exact .inr (.inr rfl)
        | true =>
          by_cases intra : frame.flag = .i
          · exact .inl intra
          · rw [waiting intra]
            rcases ready with intra | other | begun
            · exact .inl intra
            · exact .inl (MediaFrame.intra_of_video video other)
            · exact .inr (.inl begun)
      obtain ⟨calm, sends⟩ := sendFrame_sends calm ready seq conditions
      exact ⟨calm, sends.of_first waiting sendIFlag⟩
  rename_i unacked
  split
  · rename_i video
    split
    · exact ⟨calm, .held _ video (.inl rfl) rfl⟩
    · exact sendFrame_sends calm (.inr (.inl (by simp [waiting, unacked]))) seq conditions
  · rename_i audio
    exact ⟨calm, .audio _ (Bool.eq_false_iff.mpr audio) rfl rfl⟩

end AvUsr

/-! ### No P frame without its I frame -/

theorem Unbroken.cons {past : List Offer} {offer : Offer} (unbroken : Unbroken past)
    (kept : offer.frame.video → offer.written ∧ offer.frame.flag ≠ .i) :
    Unbroken (offer :: past) := by
  obtain ⟨since, key, before, rfl, intra, written, behind⟩ := unbroken
  refine ⟨offer :: since, key, before, rfl, intra, written, fun other member => ?_⟩
  rcases List.mem_cons.mp member with rfl | member
  · exact kept
  · exact behind other member

theorem Unbroken.of_intra {offer : Offer} (past : List Offer) (intra : offer.frame.flag = .i)
    (written : offer.written) : Unbroken (offer :: past) :=
  ⟨[], offer, past, rfl, intra, written, fun _ member => by cases member⟩

theorem decodable_nil : Decodable [] := by
  intro offer past earlier
  cases List.suffix_nil.mp earlier

theorem Decodable.cons {log : List Offer} {offer : Offer} (decodable : Decodable log)
    (fits : offer.frame.flag = .p → offer.written → Unbroken log) : Decodable (offer :: log) := by
  intro other past earlier inter written
  rcases List.suffix_cons_iff.mp earlier with same | earlier
  · cases same
    exact fits inter written
  · exact decodable other past earlier inter written

namespace Stream

/-- What becomes of the frame of a call. -/
def fate (stream : Stream) (sending : Sending) : Fate :=
  (stream.usr.sendMediaFrame2usr sending.frame sending.seq sending.conditions).2

/-- What holds of a stream between two calls. -/
structure Sound (stream : Stream) : Prop where
  calm : stream.usr.Calm
  unbroken : stream.usr.info.sendIFlag = true → stream.usr.waiting = false → Unbroken stream.log
  decodable : Decodable stream.log

/-- A call needs an unbroken stream unless it is about an I frame. -/
theorem sound_send {stream : Stream} {sending : Sending} (calm : stream.usr.Calm)
    (decodable : Decodable stream.log)
    (unbroken : sending.frame.flag ≠ .i → stream.usr.info.sendIFlag = true →
      stream.usr.waiting = false → Unbroken stream.log)
    (succeeds : ∀ ret, stream.fate sending = .wrote ret → 0 < ret) :
    (stream.send sending).Sound := by
  obtain ⟨calmly, sends⟩ :=
    AvUsr.sendMediaFrame2usr_sends calm sending.frame sending.seq sending.conditions
  unfold fate at succeeds
  unfold send
  dsimp only
  generalize stream.usr.sendMediaFrame2usr sending.frame sending.seq sending.conditions = sent at *
  obtain ⟨after, fate⟩ := sent
  cases sends with
  | audio _ audio waiting set =>
    have flags := MediaFrame.flags_of_audio audio
    refine ⟨calmly, fun sendI begun => ?_, decodable.cons fun inter => absurd inter flags.2⟩
    refine (unbroken flags.1 (set.symm.trans sendI) (waiting.symm.trans begun)).cons fun video => ?_
    rw [audio] at video
    cases video
  | held _ video fate waits =>
    refine ⟨calmly, fun _ begun => ?_, decodable.cons fun _ written => ?_⟩
    · rw [waits] at begun
      cases begun
    · rcases fate with rfl | rfl <;> cases written
  | dropped video clear =>
    refine ⟨calmly, fun sendI => ?_, decodable.cons fun _ written => by cases written⟩
    rw [clear] at sendI
    cases sendI
  | wrote ret video needed =>
    have written : (⟨sending.frame, sending.seq, .wrote ret⟩ : Offer).written = true :=
      Offer.written_of_wrote rfl (succeeds ret rfl)
    by_cases intra : sending.frame.flag = .i
    · refine ⟨calmly, fun _ _ => .of_intra _ intra written, decodable.cons fun inter => ?_⟩
      rw [intra] at inter
      cases inter
    · have ready := needed.resolve_left intra
      have whole := unbroken intra ready.1 ready.2
      exact ⟨calmly, fun _ _ => whole.cons fun _ => ⟨written, intra⟩,
        decodable.cons fun _ _ => whole⟩

theorem sound_start (subscription : Subscription) : (start subscription).Sound where
  calm dropping := by cases dropping
  unbroken set := by cases set
  decodable := decodable_nil

theorem run_append (subscription : Subscription) (sendings : List Sending) (sending : Sending) :
    run subscription (sendings ++ [sending]) = (run subscription sendings).send sending := by
  unfold run
  rw [List.foldl_append]
  rfl

/-- No write to the viewer failed. -/
def Succeeded (stream : Stream) : Prop := ∀ offer ∈ stream.log, offer.failed = false

theorem Succeeded.of_send {stream : Stream} {sending : Sending}
    (succeeded : (stream.send sending).Succeeded) :
    stream.Succeeded ∧ ∀ ret, stream.fate sending = .wrote ret → 0 < ret := by
  refine ⟨fun offer member => succeeded offer (.tail _ member), fun ret wrote => ?_⟩
  have passed := succeeded _ (.head _)
  unfold fate at wrote
  rw [wrote] at passed
  have passed : decide (ret ≤ 0) = false := passed
  exact Int.not_le.mp (of_decide_eq_false passed)

theorem sound_run {subscription : Subscription} {sendings : List Sending}
    (succeeded : (run subscription sendings).Succeeded) :
    (run subscription sendings).Sound := by
  induction sendings using List.reverseRecOn with
  | nil => exact sound_start subscription
  | append_singleton sendings sending inductionHypothesis =>
    rw [run_append] at succeeded ⊢
    obtain ⟨earlier, succeeds⟩ := succeeded.of_send
    have sound := inductionHypothesis earlier
    exact sound_send sound.calm sound.decodable (fun _ => sound.unbroken) succeeds

end Stream

/-- No P frame is written to a viewer unless an I frame was written before it and every video
frame that came between the last such I frame and the P frame was written too. -/
theorem frames_decodable {subscription : Subscription} {sendings : List Sending}
    (succeed : ∀ offer ∈ (Stream.run subscription sendings).log, offer.failed = false) :
    Decodable (Stream.run subscription sendings).log :=
  (Stream.sound_run succeed).decodable

/-- A viewer of the first encoder, that wants audio too. -/
def someViewer : Subscription := ⟨3, 0, -1, 30, 40, 200 * 1024, false⟩

/-- A socket with room for everything. -/
def openSocket : Conditions := ⟨0, 0, -1, 1, 0, 0, 512 * 1024, 100⟩

def keyFrame : MediaFrame := ⟨true, .i, .i, 80, .inl rfl⟩

def deltaFrame : MediaFrame := ⟨true, .p, .p, 80, .inr rfl⟩

def soundFrame : MediaFrame := ⟨false, .aac, .aac, 80, by decide⟩

/-- The calls for the head, an I frame, a sound and a P frame. -/
def fewSendings : List Sending :=
  [⟨keyFrame, 0, openSocket⟩, ⟨keyFrame, 1, openSocket⟩, ⟨soundFrame, 0, openSocket⟩,
    ⟨deltaFrame, 2, openSocket⟩]

/-- The last three frames are written. -/
theorem frames_decodable_few :
    (∀ offer ∈ (Stream.run someViewer fewSendings).log, offer.failed = false) ∧
      (Stream.run someViewer fewSendings).log.map Offer.written = [true, true, true, false] ∧
      Decodable (Stream.run someViewer fewSendings).log :=
  ⟨by decide +kernel, by decide +kernel, frames_decodable (by decide +kernel)⟩

end ExmOnvif.Rtimage
