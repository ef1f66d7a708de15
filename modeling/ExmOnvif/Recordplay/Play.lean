/-
This file proves what is played of a period: of each file the frames and the sound in the order in
which they were recorded, from a frame on and up to another one. In a file that is not the last one
this is the frame in front of its last one, so that the last frame of such a file is not played,
unless it is the only one of a file behind the first.
-/

import ExmOnvif.Recordplay.PlaybackFile

namespace ExmOnvif.Recordplay

open Avilib Library

/-! ### Parts of a recording -/

/-- The calls up to a number of frames. -/
def upTo : Nat → List Call → List Call
  | 0, _ => []
  | _ + 1, [] => []
  | count + 1, call :: calls =>
    call :: if call.IsVideo then upTo count calls else upTo (count + 1) calls

/-- The calls from a frame on. -/
def fromFrame : Nat → List Call → List Call
  | _, [] => []
  | 0, call :: calls => if call.IsVideo then call :: calls else fromFrame 0 calls
  | k + 1, call :: calls => if call.IsVideo then fromFrame k calls else fromFrame (k + 1) calls

/-- The number of the frames among some calls. -/
def frames (calls : List Call) : Nat := (calls.filter (·.IsVideo)).length

variable {before rest skipped calls : List Call} {call : Call} {count k : Nat}

theorem frames_append (before rest : List Call) :
    frames (before ++ rest) = frames before + frames rest := by
  rw [frames, List.filter_append, List.length_append]
  rfl

theorem frames_cons (call : Call) (calls : List Call) :
    frames (call :: calls) = (if call.IsVideo then 1 else 0) + frames calls := by
  by_cases video : call.IsVideo
  · rw [frames, List.filter_cons, if_pos (decide_eq_true video), List.length_cons, if_pos video,
      Nat.add_comm]
    rfl
  · rw [frames, List.filter_cons, decide_eq_false video, if_neg (by decide), if_neg video,
      Nat.zero_add]
    rfl

/-- From a frame on, which is the first of them. -/
theorem fromFrame_split (inside : k < frames calls) :
    ∃ before frame rest, calls = before ++ frame :: rest ∧ frames before = k ∧ frame.IsVideo ∧
      fromFrame k calls = frame :: rest := by
  induction calls generalizing k with
  | nil => cases inside
  | cons call calls inductionHypothesis =>
    rw [frames_cons] at inside
    by_cases video : call.IsVideo
    · cases k with
      | zero => exact ⟨[], call, calls, rfl, rfl, video, if_pos video⟩
      | succ k =>
        rw [if_pos video] at inside
        obtain ⟨before, frame, rest, rfl, number, first, same⟩ :=
          @inductionHypothesis k (by omega)
        refine ⟨call :: before, frame, rest, rfl, ?_, first, ?_⟩
        · rw [frames_cons, if_pos video, number, Nat.add_comm]
        · rw [fromFrame, if_pos video, same]
    · rw [if_neg video, Nat.zero_add] at inside
      obtain ⟨before, frame, rest, rfl, number, first, same⟩ := inductionHypothesis inside
      refine ⟨call :: before, frame, rest, rfl, ?_, first, ?_⟩
      · rw [frames_cons, if_neg video, number, Nat.zero_add]
      · cases k <;> rw [fromFrame, if_neg video, same]

/-- Calls that are no frames are in front of the next frame. -/
theorem upTo_skipped (none : ∀ call ∈ skipped, ¬call.IsVideo) :
    upTo (count + 1) (skipped ++ call :: rest) =
      skipped ++ call :: if call.IsVideo then upTo count rest else upTo (count + 1) rest := by
  induction skipped with
  | nil => rfl
  | cons first skipped inductionHypothesis =>
    rw [List.cons_append, upTo, if_neg (none first List.mem_cons_self),
      inductionHypothesis fun other member => none other (List.mem_cons_of_mem _ member)]
    rfl

/-! ### Recordings -/

/-- A recording, with the second at which it begins. -/
structure Recording where
  old : Bytes
  fpIdx : Bool
  media : Media
  calls : List Call
  stime : Int
deriving DecidableEq

namespace Recording

variable (recording : Recording)

/-- The recording when it begins. -/
def start : Avi := aviOpenOutputFile recording.old recording.fpIdx recording.media

/-- The line of the index for a recording that was closed. -/
def record : Record := ⟨(recording.start.run recording.calls).close, recording.stime⟩

/-- The frames in a second, as they are read. -/
def fps : ℚ := wordInt (frate recording.media.fps % 2 ^ 32) / 10000

/-- What is played of a call. Sound without a channel is not. -/
def played (call : Call) : Option Played :=
  let data := call.item.data ++ padding call.item.data call.behind
  if call.IsVideo then some (.video data (call.item.flags = 0x10))
  else if recording.media.aChans ≠ 0 then some (.audio data)
  else none

/-- A recording in which nothing failed, with frames that are not too long. -/
structure Complete (bufLen : Int) : Prop where
  compressor : recording.media.compressor.length = 4
  chans : recording.media.aChans < 2 ^ 16
  small : (recording.start.run recording.calls).close.length < 2 ^ 31
  entered : recording.start.entered recording.calls = recording.calls
  whole : ∀ call ∈ recording.calls, call.Whole
  frame : 0 < frames recording.calls
  fits : ∀ call ∈ recording.calls,
    ((call.item.data.length + call.item.data.length % 2 : Nat) : Int) ≤ bufLen

/-- The file that is read, with the front of its header. -/
structure Front (front : Avi) (hasIndex : Bool) : Prop where
  media : front.media = recording.media
  closed : (recording.start.run recording.calls).close = recorded front hasIndex recording.calls

theorem Complete.front {recording : Recording} {bufLen : Int}
    (complete : recording.Complete bufLen) :
    ∃ front hasIndex, recording.Front front hasIndex := by
  have entered := complete.entered
  rw [start] at entered
  obtain ⟨front, hasIndex, same, closed⟩ := @close_recorded _ complete.compressor recording.old
    recording.fpIdx recording.calls (by
      rw [entered]
      exact fun call member => (complete.whole call member).clean)
  rw [entered] at closed
  exact ⟨front, hasIndex, same, closed⟩

/-- A reader of the recording behind some calls. -/
structure At (front : Avi) (hasIndex : Bool) (reader : Reader)
    (before rest : List Call) : Prop where
  split : recording.calls = before ++ rest
  file : reader.file = recorded front hasIndex recording.calls
  info : reader.info = front.info
  index : reader.videoIndex =
    some (((entriesFrom headerBytes recording.calls).filter (·.IsVideo)).map IndexEntry.video)
  pos : reader.pos = headerBytes + (chunksBytes (chunksOf before)).length
  videoPos : reader.videoPos = frames before

section Steps

variable {recording : Recording} {front : Avi} {hasIndex : Bool} {reader : Reader} {bufLen : Int}
  {playback : Playback} {played : Played} {turns : Nat}

/-- What is played of a call is what is read of it. -/
theorem Complete.delivered (complete : recording.Complete bufLen)
    (member : call ∈ recording.calls) :
    call.delivered recording.media bufLen bufLen =
      if call.IsVideo then some (.video (call.item.data ++ padding call.item.data call.behind))
      else if recording.media.aChans ≠ 0 then
        some (.audio (call.item.data ++ padding call.item.data call.behind))
      else none := by
  have fits := not_lt.mpr (complete.fits call member)
  simp only [Call.delivered, gt_iff_lt, if_neg fits]

/-- Nothing is played of sound without a channel. -/
theorem not_played (none : recording.played call = none) :
    ¬call.IsVideo ∧ ¬recording.media.aChans ≠ 0 := by
  simp only [played] at none
  by_cases video : call.IsVideo
  · rw [if_pos video] at none
    cases none
  · by_cases sound : recording.media.aChans ≠ 0
    · rw [if_neg video, if_pos sound] at none
      cases none
    · exact ⟨video, sound⟩

/-- A chunk is one of the video if it is that of a frame. -/
theorem isVideo_chunk (front : Avi) (call : Call) :
    isVideo front.info.videoTag call.chunk.tag ↔ call.IsVideo := by
  have videoTag : front.info.videoTag = streamTag 0 [100, 98] := rfl
  have tag : call.chunk.tag = call.item.tag := rfl
  rw [videoTag, tag, Call.IsVideo]
  rcases tag_of_item call.item with video | audio
  · rw [video]
    decide
  · rw [audio]
    decide

/-- Each call that is left came through. -/
theorem At.whole (complete : recording.Complete bufLen)
    (here : recording.At front hasIndex reader before rest) : ∀ call ∈ rest, call.Whole :=
  fun call member => complete.whole call (here.split ▸ List.mem_append_right _ member)

/-- A reader passes a chunk. -/
theorem At.past (complete : recording.Complete bufLen)
    (here : recording.At front hasIndex reader before (call :: rest)) :
    recording.At front hasIndex (reader.past call.chunk) (before ++ [call]) rest := by
  have came : call.Whole := here.whole complete call List.mem_cons_self
  refine ⟨?_, here.file, here.info, here.index, ?_, ?_⟩
  · rw [here.split, List.append_assoc, List.singleton_append]
  · have grown := length_chunksBytes_call call
    rw [Call.growth, if_pos came] at grown
    show reader.pos + call.chunk.size = _
    rw [here.pos, chunksOf_append, chunksBytes_append, List.length_append, grown, Nat.add_assoc]
  · show reader.videoPos + _ = _
    rw [here.videoPos, here.info, frames_append, frames_cons]
    by_cases video : call.IsVideo
    · rw [if_pos ((isVideo_chunk front call).mpr video), if_pos video]
      rfl
    · rw [if_neg (mt (isVideo_chunk front call).mp video), if_neg video]
      rfl

/-- It passes some chunks. -/
theorem At.past_all (complete : recording.Complete bufLen) {skipped : List Call}
    (here : recording.At front hasIndex reader before (skipped ++ rest)) :
    recording.At front hasIndex ((skipped.map Call.chunk).foldl Reader.past reader)
        (before ++ skipped) rest := by
  induction skipped generalizing reader before with
  | nil =>
    rw [List.append_nil]
    exact here
  | cons call skipped inductionHypothesis =>
    have behind := inductionHypothesis (here.past complete)
    rw [List.append_assoc, List.singleton_append] at behind
    exact behind

/-- Nothing is delivered of sound without a channel. -/
theorem At.unread (complete : recording.Complete bufLen) (same : recording.Front front hasIndex)
    (here : recording.At front hasIndex reader before (skipped ++ rest))
    (unread : ∀ call ∈ skipped, recording.played call = none) :
    ∀ chunk ∈ skipped.map Call.chunk, delivery reader.info bufLen bufLen chunk = none := by
  have chans : front.media.aChans < 2 ^ 16 := by
    rw [same.media]
    exact complete.chans
  intro chunk member
  obtain ⟨other, from_skipped, rfl⟩ := List.mem_map.mp member
  have known : other ∈ recording.calls := by
    rw [here.split]
    exact List.mem_append_right _ (List.mem_append_left _ from_skipped)
  obtain ⟨noVideo, silent⟩ := not_played (unread other from_skipped)
  rw [here.info, delivery_chunk chans, same.media, complete.delivered known, if_neg noVideo,
    if_neg silent]

/-- The next call of which something is played is read. -/
theorem At.readData (complete : recording.Complete bufLen) (same : recording.Front front hasIndex)
    (here : recording.At front hasIndex playback.aviinfo before (skipped ++ call :: rest))
    (unread : ∀ call ∈ skipped, recording.played call = none)
    (read : recording.played call = some played) (enough : skipped.length < turns) :
    ∃ next, playback.readData bufLen turns = some ({ playback with aviinfo := next }, played) ∧
      recording.At front hasIndex next (before ++ skipped ++ [call]) rest := by
  have compressor : front.media.compressor.length = 4 := by
    rw [same.media]
    exact complete.compressor
  have chans : front.media.aChans < 2 ^ 16 := by
    rw [same.media]
    exact complete.chans
  have small := complete.small
  rw [same.closed] at small
  have chunks : chunksOf (skipped ++ call :: rest) =
      skipped.map Call.chunk ++ call.chunk :: rest.map Call.chunk := by
    rw [chunksOf_whole (here.whole complete), List.map_append, List.map_cons]
  have ready := before_recorded compressor small here.file here.split here.pos
  rw [chunks] at ready
  have unreadChunks := here.unread complete same unread
  let next : Reader := ((skipped.map Call.chunk).foldl Reader.past playback.aviinfo).past call.chunk
  have there : recording.At front hasIndex next (before ++ skipped ++ [call]) rest :=
    (here.past_all complete).past complete
  have callMember : call ∈ recording.calls := by
    rw [here.split]
    exact List.mem_append_right _ (List.mem_append_right _ List.mem_cons_self)
  refine ⟨next, ?_, there⟩
  have delivered := complete.delivered callMember
  rw [← same.media, ← delivery_chunk chans call, ← here.info, same.media] at delivered
  have short : (skipped.map Call.chunk).length < turns := by
    rw [List.length_map]
    exact enough
  by_cases video : call.IsVideo
  · rw [if_pos video] at delivered
    have taken : playback.aviinfo.readData bufLen bufLen turns = some (next, _) :=
      (ready.readData_next unreadChunks delivered short).1
    have split : recording.calls = (before ++ skipped) ++ call :: rest := by
      rw [here.split, List.append_assoc]
    have number : next.videoPos = frames (before ++ skipped) + 1 := by
      rw [there.videoPos, frames_append, frames_cons, if_pos video]
      rfl
    have inside : ¬next.videoPos > next.videoFrames := by
      rw [Reader.videoFrames, there.index, Option.getD_some, List.length_map,
        length_filter_entriesFrom, ← frames, split, frames_append, frames_cons,
        if_pos video, number]
      omega
    have key : ((((entriesFrom headerBytes recording.calls).filter (·.IsVideo)).map
        IndexEntry.video).getD (next.videoPos - 1) ⟨0, 0, 0⟩).key = call.item.flags := by
      rw [number, Nat.add_sub_cancel, List.getD_eq_getElem?_getD, frames,
        entry_of_split split video]
      rfl
    simp only [Recording.played, if_pos video] at read
    rw [Playback.readData, taken]
    simp only [Option.bind_eq_bind, Option.bind_some, there.index, if_neg inside, key,
      Option.pure_def]
    rw [Option.some.inj read]
  · rw [if_neg video] at delivered
    simp only [Recording.played, if_neg video] at read
    by_cases sound : recording.media.aChans ≠ 0
    · rw [if_pos sound] at delivered read
      have taken : playback.aviinfo.readData bufLen bufLen turns = some (next, _) :=
        (ready.readData_next unreadChunks delivered short).1
      rw [Playback.readData, taken]
      simp only [Option.bind_eq_bind, Option.bind_some, Option.pure_def]
      rw [Option.some.inj read]
    · rw [if_neg sound] at read
      cases read

/-- A frame or some sound is neither an end nor an error. -/
theorem process_played {next : Playback} (read : recording.played call = some played)
    (taken : playback.readfileframe bufLen turns = some (next, played)) (count : Nat) :
    playback.process bufLen turns (count + 1) = played :: next.process bufLen turns count := by
  rw [Playback.process, taken]
  simp only [Recording.played] at read
  split at read
  · cases read
    rfl
  · split at read
    · cases read
      rfl
    · cases read

/-- Something is played of a frame. -/
theorem played_video (recording : Recording) (video : call.IsVideo) :
    recording.played call =
      some (.video (call.item.data ++ padding call.item.data call.behind)
        (call.item.flags = 0x10)) :=
  if_pos video

/-- While there is a frame, something is played. -/
theorem played_next (some : 0 < frames rest) : ∃ skipped call behind played,
    rest = skipped ++ call :: behind ∧ (∀ call ∈ skipped, recording.played call = none) ∧
      recording.played call = Option.some played := by
  obtain ⟨before, frame, behind, rfl, _, video, _⟩ := fromFrame_split some
  have member : frame ∈ before ++ frame :: behind := List.mem_append_right _ List.mem_cons_self
  cases all : (before ++ frame :: behind).filterMap recording.played with
  | nil =>
    have silent := List.filterMap_eq_nil_iff.mp all frame member
    rw [played_video recording video] at silent
    cases silent
  | cons played others =>
    obtain ⟨skipped, call, rest, same, unread, read, _⟩ := List.filterMap_eq_cons_iff.mp all
    exact ⟨skipped, call, rest, played, same, unread, read⟩

/-- What is played up to some frames begins with the next call of which something is played. -/
theorem filterMap_upTo {behind : List Call}
    (unread : ∀ call ∈ skipped, recording.played call = none)
    (read : recording.played call = some played) (count : Nat) :
    (upTo (count + 1) (skipped ++ call :: behind)).filterMap recording.played =
      played :: (upTo (count + 1 - if call.IsVideo then 1 else 0) behind).filterMap
          recording.played := by
  have nothing : skipped.filterMap recording.played = [] := List.filterMap_eq_nil_iff.mpr unread
  rw [upTo_skipped fun other member => (not_played (unread other member)).1, List.filterMap_append,
    nothing, List.nil_append, List.filterMap_cons_some read]
  by_cases video : call.IsVideo
  · rw [if_pos video, if_pos video, Nat.add_sub_cancel]
  · rw [if_neg video, if_neg video, Nat.sub_zero]

/-! ### The files -/

/-- The number of frames up to which a file is played, with the files behind it. -/
def limit (stop : Int) (recording : Recording) (others : List Recording) : Nat :=
  if others = [] then
    (min (passframes recording.fps (stop + 1 - recording.stime)) (frames recording.calls)).toNat
  else frames recording.calls - 1

/-- What is played of the files behind the first one: of each one frame at least. -/
def later (stop : Int) : List Recording → List Played
  | [] => []
  | recording :: others =>
    (upTo (max 1 (limit stop recording others)) (fromFrame 0 recording.calls)).filterMap
      recording.played ++ later stop others

/-- A recording is opened at a frame. -/
theorem Complete.opened (complete : recording.Complete bufLen)
    (same : recording.Front front hasIndex)
    (turns : Nat) : ∃ reader : Reader,
    aviOpenInputFile recording.record.file true (turns + 8) = some (.ok reader) ∧
      reader.videoFrames = frames recording.calls ∧ reader.info.fps = recording.fps ∧
      ∀ before frame rest, recording.calls = before ++ frame :: rest → frame.IsVideo →
        recording.At front hasIndex (reader.seekFrame (frames before)) before (frame :: rest) := by
  have compressor : front.media.compressor.length = 4 := by
    rw [same.media]
    exact complete.compressor
  have small := complete.small
  rw [same.closed] at small
  obtain ⟨before, frame, rest, split, _, video, _⟩ := fromFrame_split complete.frame
  obtain ⟨first, found⟩ : ∃ first, recording.calls.find? (·.IsVideo) = some first := by
    cases found : recording.calls.find? (·.IsVideo) with
    | none =>
      have noFrame := List.find?_eq_none.mp found frame (by
        rw [split]
        exact List.mem_append_right _ List.mem_cons_self)
      exact absurd (decide_eq_true video) noFrame
    | some first => exact ⟨first, rfl⟩
  obtain ⟨audioBytes, opened⟩ := open_recorded compressor small found
    (complete.whole first (List.mem_of_find?_eq_some found)) turns
  refine ⟨_, (congrArg (fun file => aviOpenInputFile file true (turns + 8)) same.closed).trans
    opened, ?_,
    ?_, fun before frame rest split video => ?_⟩
  · rw [Reader.videoFrames, Option.getD_some, List.length_map, length_filter_entriesFrom]
    rfl
  · show front.info.fps = _
    rw [Avi.info, fps, same.media]
  · exact ⟨split, rfl, rfl, rfl, seekFrame_pos compressor small rfl split video, rfl⟩

/-- Playing is in front of some calls of a file, and there are others behind it. -/
structure Playing (stop : Int) (playback : Playback) (recording : Recording) (front : Avi)
    (hasIndex : Bool) (before rest : List Call) (others : List Recording) : Prop where
  ends : playback.stop = stop
  records : ∃ opened, playback.records = opened ++ others.map record ∧
    playback.fileindex = opened.length
  here : recording.At front hasIndex playback.aviinfo before rest
  last : others = [] → playback.lastframe =
    min (passframes recording.fps (stop + 1 - recording.stime)) (frames recording.calls)

variable {stop : Int} {others : List Recording}

theorem At.videoFrames (here : recording.At front hasIndex reader before rest) :
    reader.videoFrames = frames recording.calls := by
  rw [Reader.videoFrames, here.index, Option.getD_some, List.length_map,
    length_filter_entriesFrom, frames]

/-- No frame is among calls of which nothing is played. -/
theorem frames_unread (unread : ∀ call ∈ skipped, recording.played call = none) :
    frames skipped = 0 := by
  rw [frames, List.filter_eq_nil_iff.mpr fun other member => by
    rw [decide_eq_false (not_played (unread other member)).1]
    decide]
  rfl

/-- In the file that is open the next of what is played of it is read. -/
theorem Playing.step {behind : List Call} (complete : recording.Complete bufLen)
    (same : recording.Front front hasIndex)
    (playing : Playing stop playback recording front hasIndex before
    (skipped ++ call :: behind) others)
    (enough : recording.calls.length < turns)
    (unread : ∀ call ∈ skipped, recording.played call = none)
    (read : recording.played call = some played) :
    ∃ next, playback.readData bufLen turns = some (next, played) ∧
      Playing stop next recording front hasIndex (before ++ skipped ++ [call]) behind others ∧
      ∀ most, frames before < most →
        (upTo (most - frames before) (skipped ++ call :: behind)).filterMap recording.played =
          played :: (upTo (most - frames (before ++ skipped ++ [call])) behind).filterMap
            recording.played := by
  have split := congrArg List.length playing.here.split
  have short : skipped.length < turns := by
    rw [List.length_append, List.length_append] at split
    omega
  obtain ⟨next, taken, there⟩ := playing.here.readData complete same unread read short
  refine ⟨_, taken, ⟨playing.ends, playing.records, there, playing.last⟩, fun most inside => ?_⟩
  obtain ⟨count, rest⟩ : ∃ count, most - frames before = count + 1 :=
    ⟨most - frames before - 1, by omega⟩
  have left : most - frames (before ++ skipped ++ [call]) =
      count + 1 - if call.IsVideo then 1 else 0 := by
    rw [frames_append, frames_append, frames_cons, frames_unread unread, ← rest]
    show most - (frames before + 0 + ((if call.IsVideo then 1 else 0) + 0)) = _
    omega
  rw [rest, left]
  exact filterMap_upTo unread read count

/-- All of the files are opened when no line of the index is left. -/
theorem Playing.all_opened
    (playing : Playing stop playback recording front hasIndex before rest others) :
    playback.fileindex = playback.records.length ↔ others = [] := by
  obtain ⟨opened, records, fileindex⟩ := playing.records
  rw [records, fileindex, List.length_append, List.length_map]
  constructor
  · intro same
    exact List.eq_nil_of_length_eq_zero (by omega)
  · rintro rfl
    rfl

/-- The end of the last file is found when it is opened. -/
theorem lastframe_found {isLast : Prop} [Decidable isLast] (last : isLast ↔ others = [])
    (order : others = [] → recording.stime ≤ stop)
    (count : reader.videoFrames = frames recording.calls)
    (fps : reader.info.fps = recording.fps) (old : Int) :
    ∃ lastframe, (if isLast then lastf stop recording.record reader else .ok old) = .ok lastframe ∧
      (others = [] → lastframe =
        min (passframes recording.fps (stop + 1 - recording.stime)) (frames recording.calls)) := by
  by_cases none : others = []
  · refine ⟨_, ?_, fun _ => rfl⟩
    have begun : ¬stop < recording.record.stime := not_lt.mpr (order none)
    rw [if_pos (last.mpr none), lastf, if_neg begun, count, fps]
    rfl
  · exact ⟨old, if_neg (mt last.mp none), fun none' => absurd none' none⟩

/-- Behind a file the next one is opened at its first frame. -/
theorem Playing.nextFile {recording' : Recording} {others : List Recording}
    (playing : Playing stop playback recording front hasIndex before rest (recording' :: others))
    (complete : recording'.Complete bufLen) (order : others = [] → recording'.stime ≤ stop)
    (turns : Nat) :
    ∃ next front hasIndex before frame rest, playback.nextFile (turns + 8) = some (.ok next) ∧
      recording'.Front front hasIndex ∧ frame.IsVideo ∧ frames before = 0 ∧
      fromFrame 0 recording'.calls = frame :: rest ∧
      Playing stop next recording' front hasIndex before (frame :: rest) others := by
  obtain ⟨opened, records, fileindex⟩ := playing.records
  obtain ⟨front, hasIndex, same⟩ := complete.front
  obtain ⟨reader, taken, count, fps, seek⟩ := complete.opened same turns
  obtain ⟨before, frame, rest, split, number, video, from_frame⟩ := fromFrame_split complete.frame
  have there := seek before frame rest split video
  have index : ¬reader.videoIndex = none := by
    rw [show reader.videoIndex = _ from there.index]
    exact Option.some_ne_none _
  have line : playback.records[playback.fileindex]? = some recording'.record := by
    rw [records, fileindex, List.getElem?_append_right (Nat.le_refl _), Nat.sub_self]
    rfl
  have number' : playback.records.length = playback.fileindex + 1 ↔ others = [] := by
    rw [records, fileindex, List.length_append, List.length_map, List.length_cons]
    constructor
    · intro lengths
      exact List.eq_nil_of_length_eq_zero (by omega)
    · rintro rfl
      rfl
  rw [number] at there
  obtain ⟨lastframe, found, last⟩ := lastframe_found number' order count fps playback.lastframe
  refine ⟨{ playback with
      fileindex := playback.fileindex + 1, lastframe := lastframe, aviinfo := reader.seekFrame 0 },
    front, hasIndex, before, frame, rest, ?_, same, video, number, from_frame,
    ⟨playing.ends, ⟨opened ++ [recording'.record], ?_, ?_⟩, there, last⟩⟩
  · rw [← playing.ends] at found
    rw [Playback.nextFile, line]
    simp only [Option.bind_eq_bind, Option.bind_some, taken, found, if_neg index, Option.pure_def]
  · rw [List.append_assoc]
    exact records
  · show playback.fileindex + 1 = _
    rw [fileindex, List.length_append, List.length_singleton]

/-- A file that is not over is read on. -/
theorem Playing.readfileframe_inside
    (playing : Playing stop playback recording front hasIndex before rest others)
    (inside : frames before < limit stop recording others) :
    playback.readfileframe bufLen turns = playback.readData bufLen turns := by
  rw [Playback.readfileframe, playing.here.videoPos, playing.here.videoFrames]
  by_cases none : others = []
  · rw [limit, if_pos none] at inside
    have more : ¬(frames before : Int) ≥ playback.lastframe := by
      rw [playing.last none]
      omega
    rw [if_pos (playing.all_opened.mpr none), if_neg more]
  · rw [limit, if_neg none] at inside
    have more : ¬(frames before : Int) ≥ frames recording.calls - 1 := by omega
    rw [if_neg (mt playing.all_opened.mp none), if_neg more]

/-- Behind the last file playing is over. -/
theorem Playing.readfileframe_over
    (playing : Playing stop playback recording front hasIndex before rest [])
    (beyond : limit stop recording [] ≤ frames before) :
    playback.readfileframe bufLen turns = some (playback, .over) := by
  rw [limit, if_pos rfl] at beyond
  have all : (frames before : Int) ≥ playback.lastframe := by
    rw [playing.last rfl]
    omega
  rw [Playback.readfileframe, if_pos (playing.all_opened.mpr rfl),
    playing.here.videoPos, if_pos all]

/-- Behind another file the next one is read. -/
theorem Playing.readfileframe_next {recording' : Recording}
    (playing : Playing stop playback recording front hasIndex before rest (recording' :: others))
    (beyond : limit stop recording (recording' :: others) ≤ frames before) {next : Playback}
    (opened : playback.nextFile turns = some (.ok next)) :
    playback.readfileframe bufLen turns = next.readData bufLen turns := by
  have some : ¬recording' :: others = [] := List.cons_ne_nil _ _
  rw [limit, if_neg some] at beyond
  have all : (frames before : Int) ≥ frames recording.calls - 1 := by omega
  rw [Playback.readfileframe, if_neg (mt playing.all_opened.mp some), playing.here.videoPos,
    playing.here.videoFrames, if_pos all, opened]

/-- What is played from some place of a file on: the rest of it, and the files behind it. -/
theorem Playing.process (complete : ∀ recording' ∈ recording :: others, recording'.Complete bufLen)
    (order : ∀ recording' ∈ (recording :: others).getLast?, recording'.stime ≤ stop)
    (enough : ∀ recording' ∈ recording :: others, recording'.calls.length + 8 ≤ turns)
    (same : recording.Front front hasIndex)
    (playing : Playing stop playback recording front hasIndex before rest others) (count : Nat) :
    playback.process bufLen turns count =
      ((upTo (limit stop recording others - frames before) rest).filterMap recording.played ++
        later stop others ++ [Played.over]).take count := by
  induction count generalizing playback recording others front hasIndex before rest with
  | zero => rfl
  | succ count inductionHypothesis =>
    have first := complete recording List.mem_cons_self
    have short := enough recording List.mem_cons_self
    by_cases inside : frames before < limit stop recording others
    · have total : limit stop recording others ≤ frames recording.calls := by
        rw [limit]
        split <;> omega
      have remain : 0 < frames rest := by
        rw [playing.here.split, frames_append] at total
        omega
      obtain ⟨skipped, call, behind, played, rfl, unread, read⟩ := @played_next _ recording remain
      obtain ⟨next, taken, there, split⟩ :=
        playing.step first same (show recording.calls.length < turns by omega) unread read
      rw [← playing.readfileframe_inside inside] at taken
      rw [process_played read taken, inductionHypothesis complete order enough same there,
        split _ inside]
      rfl
    · have beyond : limit stop recording others ≤ frames before := not_lt.mp inside
      rw [Nat.sub_eq_zero_of_le beyond, upTo, List.filterMap_nil, List.nil_append]
      cases others with
      | nil =>
        rw [Playback.process, playing.readfileframe_over beyond, later, List.nil_append,
          List.take_succ_cons, List.take_nil]
      | cons recording' others =>
        have complete' : ∀ other ∈ recording' :: others, other.Complete bufLen :=
          fun other member => complete other (List.mem_cons_of_mem _ member)
        have enough' : ∀ other ∈ recording' :: others, other.calls.length + 8 ≤ turns :=
          fun other member => enough other (List.mem_cons_of_mem _ member)
        have order' : ∀ other ∈ (recording' :: others).getLast?, other.stime ≤ stop := order
        have second := complete' recording' List.mem_cons_self
        have short' := enough' recording' List.mem_cons_self
        have last : others = [] → recording'.stime ≤ stop := by
          rintro rfl
          exact order' recording' rfl
        obtain ⟨turns, rfl⟩ : ∃ turns', turns = turns' + 8 := ⟨turns - 8, by omega⟩
        obtain ⟨next, front', hasIndex', before', frame, rest', opened, same', video,
          number, from_frame, there⟩ := playing.nextFile second last turns
        have read := played_video recording' video
        have enoughTurns : recording'.calls.length < turns + 8 := by omega
        obtain ⟨next', taken, there', split⟩ :=
          @Playing.step _ [] _ _ _ _ _ _ _ _ _ _ _ second same' there enoughTurns
            (fun _ member => nomatch member) read
        have one : frames before' < max 1 (limit stop recording' others) := by omega
        have left : max 1 (limit stop recording' others) - frames (before' ++ [] ++ [frame]) =
            limit stop recording' others - frames (before' ++ [] ++ [frame]) := by
          rw [List.append_nil, frames_append, number, frames_cons, if_pos video]
          omega
        have playedNext := split _ one
        rw [number, Nat.sub_zero, left] at playedNext
        rw [← playing.readfileframe_next beyond opened] at taken
        rw [process_played read taken,
          inductionHypothesis complete' order' enough' same' there', later, from_frame]
        rw [List.nil_append] at playedNext
        rw [playedNext]
        simp only [List.cons_append, List.append_assoc, List.take_succ_cons]

/-- The frame of the first file at which playing begins. -/
def startFrame (start : Int) (recording : Recording) : Int :=
  if start > recording.stime then passframes recording.fps (start - recording.stime) else 0

theorem startFrame_eq (start : Int) (recording : Recording) :
    (if (if start > recording.stime then start - recording.stime else 0) ≠ 0 then
      passframes recording.fps
        (if start > recording.stime then start - recording.stime else 0) else 0) =
      startFrame start recording := by
  by_cases behind : start > recording.stime
  · have some : start - recording.stime ≠ 0 := by omega
    rw [startFrame, if_pos behind, if_pos behind, if_pos some]
  · rw [startFrame, if_neg behind, if_neg behind, if_neg (by decide)]

/-- Playing begins at a frame of the first file. -/
theorem openfile_inside (complete : recording.Complete bufLen)
    (order : others = [] → recording.stime ≤ stop)
    {start : Int} {p : Nat} (begins : startFrame start recording = p)
    (inside : p < frames recording.calls) (turns : Nat) :
    ∃ playback front hasIndex before frame rest,
      playbackOpenfile ((recording :: others).map record) start stop (turns + 8) =
        some (.ok playback) ∧
      recording.Front front hasIndex ∧ frames before = p ∧
      fromFrame p recording.calls = frame :: rest ∧
      Playing stop playback recording front hasIndex before (frame :: rest) others := by
  obtain ⟨front, hasIndex, same⟩ := complete.front
  obtain ⟨reader, taken, count, fps, seek⟩ := complete.opened same turns
  obtain ⟨before, frame, rest, split, number, video, from_frame⟩ := fromFrame_split inside
  have there := seek before frame rest split video
  have index : ¬reader.videoIndex = none := by
    rw [show reader.videoIndex = _ from there.index]
    exact Option.some_ne_none _
  have only : others.map record = [] ↔ others = [] := List.map_eq_nil_iff
  obtain ⟨lastframe, found, last⟩ := lastframe_found only order count fps 0
  have first := startFrame_eq start recording
  rw [begins] at first
  have good : ¬((p : Int) < 0 ∨ (p : Int) ≥ frames recording.calls) := by omega
  rw [number] at there
  refine ⟨⟨(recording :: others).map record, stop, 1, lastframe, reader.seekFrame p⟩,
    front, hasIndex, before, frame, rest, ?_, same, number, from_frame,
    ⟨rfl, ⟨[recording.record], rfl, rfl⟩, there, last⟩⟩
  have start_record : recording.record.stime = recording.stime := rfl
  rw [List.map_cons, playbackOpenfile]
  simp only [Option.bind_eq_bind, Option.bind_some, taken, fps, start_record, first, count,
    if_neg good, found, if_neg index, Option.pure_def, Int.toNat_natCast]

/-- At no other place playing begins. -/
theorem openfile_outside (complete : recording.Complete bufLen) {start : Int}
    (outside : startFrame start recording < 0 ∨ startFrame start recording ≥ frames recording.calls)
    (others : List Recording) (turns : Nat) :
    playbackOpenfile ((recording :: others).map record) start stop (turns + 8) =
      some (.error .fileAccess) := by
  obtain ⟨front, hasIndex, same⟩ := complete.front
  obtain ⟨reader, taken, count, fps, _⟩ := complete.opened same turns
  have start_record : recording.record.stime = recording.stime := rfl
  have first := startFrame_eq start recording
  rw [List.map_cons, playbackOpenfile]
  simp only [Option.bind_eq_bind, Option.bind_some, taken, fps, start_record, first, count,
    if_pos outside, Option.pure_def]

end Steps

end Recording

open Recording

/-- A period over complete recordings, the last of which begins no later than it stops, is opened
just if it begins at a frame of the first of them. Then the first one is played from there on and
the others from their first frames on, the last one up to the frame of the stop and each other one
up to the frame in front of its last one; but of each file behind the first one frame is played at
least. -/
theorem played_in_order {recording : Recording} {others : List Recording} {start stop bufLen : Int}
    {turns : Nat} (complete : ∀ recording' ∈ recording :: others, recording'.Complete bufLen)
    (order : ∀ recording' ∈ (recording :: others).getLast?, recording'.stime ≤ stop)
    (enough : ∀ recording' ∈ recording :: others, recording'.calls.length + 8 ≤ turns) :
    (startFrame start recording < 0 ∨ startFrame start recording ≥ frames recording.calls →
      playbackOpenfile ((recording :: others).map record) start stop turns =
        some (.error .fileAccess)) ∧
    ∀ p : Nat, startFrame start recording = p → p < frames recording.calls →
      ∃ playback, playbackOpenfile ((recording :: others).map record) start stop turns =
          some (.ok playback) ∧
        ∀ count, playback.process bufLen turns count =
          ((upTo (limit stop recording others - p) (fromFrame p recording.calls)).filterMap
            recording.played ++ later stop others ++ [Played.over]).take count := by
  have first := complete recording List.mem_cons_self
  have short := enough recording List.mem_cons_self
  have last : others = [] → recording.stime ≤ stop := by
    rintro rfl
    exact order recording rfl
  obtain ⟨fewer, rfl⟩ : ∃ fewer, turns = fewer + 8 := ⟨turns - 8, by omega⟩
  refine ⟨fun outside => openfile_outside first outside others fewer, fun p begins inside => ?_⟩
  obtain ⟨playback, front, hasIndex, before, frame, rest, opened, same, rfl, from_frame, playing⟩ :=
    openfile_inside first last begins inside fewer
  refine ⟨playback, opened, fun count => ?_⟩
  rw [from_frame]
  exact playing.process complete order enough same count

theorem played_in_order_two :
    let media : Media := ⟨704, 576, 1, fourcc "H264", 1, 1, 8000, 16⟩
    let first : Recording := ⟨[], false, media, [⟨.video [1, 2] true, 0, .whole⟩,
      ⟨.video [3] false, 7, .whole⟩, ⟨.audio [4], 0, .whole⟩, ⟨.video [5, 6] false, 0, .whole⟩],
        100⟩
    let second : Recording := ⟨[], true, media, [⟨.video [7, 8] true, 0, .whole⟩,
      ⟨.video [9, 10] false, 0, .whole⟩, ⟨.video [11, 12] false, 0, .whole⟩], 103⟩
    ∃ playback, playbackOpenfile [first.record, second.record] 101 104 20 = some (.ok playback) ∧
      ∀ count, playback.process 100 20 count = [Played.video [3, 7] false, .video [7, 8] true,
        .video [9, 10] false, .over].take count := by
  intro media first second
  have firstComplete : first.Complete 100 :=
    ⟨rfl, by decide, by rw [start, length_close rfl] <;> decide, by decide, by decide,
      by decide, by decide⟩
  have secondComplete : second.Complete 100 :=
    ⟨rfl, by decide, by rw [start, length_close rfl] <;> decide, by decide, by decide,
      by decide, by decide⟩
  have complete : ∀ recording ∈ [first, second], recording.Complete 100 :=
    List.forall_mem_cons.mpr ⟨firstComplete, List.forall_mem_singleton.mpr secondComplete⟩
  have begins : startFrame 101 first = (1 : Nat) := by decide +kernel
  have all : (upTo (limit 104 first [second] - 1) (fromFrame 1 first.calls)).filterMap
    first.played ++
      later 104 [second] ++ [Played.over] = [Played.video [3, 7] false, .video [7, 8] true,
        .video [9, 10] false, .over] := by decide +kernel
  obtain ⟨playback, opened, plays⟩ :=
    (@played_in_order first [second] 101 104 100 20 complete (by decide) (by decide)).2 1
      begins (by decide)
  refine ⟨playback, opened, fun count => ?_⟩
  rw [plays, all]

end ExmOnvif.Recordplay
