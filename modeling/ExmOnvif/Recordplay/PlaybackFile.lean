/-
This file models how the recordings of a period are played: the first one is opened at the frame of
the start, and behind each of them the next one from its first frame on.

In a file that is not the last one playing stops in front of its last frame, and in the last one at
the frame of the stop.
-/

import ExmOnvif.Avilib.Sequence

namespace ExmOnvif.Recordplay

open Avilib Library

/-! ### A period -/

/-- The errors of playing. -/
inductive PlaybackErr where
  | noFile
  | fileAccess
  | fileNoindex
deriving DecidableEq, Repr

/-- A line of the index: the file, and the second at which it begins, which is in its name. -/
structure Record where
  file : Bytes
  stime : Int
deriving DecidableEq

/-- `hd_playback_struct`, with the lines of the index, while a file is open. -/
structure Playback where
  records : List Record
  stop : Int
  fileindex : Nat
  lastframe : Int
  aviinfo : Reader
deriving DecidableEq

/-- A `double` that is made a `long`. -/
def truncate (value : ℚ) : Int := value.num.tdiv value.den

/-- The frames of some seconds. -/
def passframes (fps : ℚ) (passtime : Int) : Int :=
  if fps = 0 then passtime * 25 else truncate (passtime * fps)

/-- The frame at which the last file ends. -/
def lastf (stop : Int) (record : Record) (avifile : Reader) : Except PlaybackErr Int :=
  if stop < record.stime then .error .fileAccess
  else .ok (min (passframes avifile.info.fps (stop + 1 - record.stime)) avifile.videoFrames)

/-- `playback_openfile`, where the index has been made. -/
def playbackOpenfile (records : List Record) (start stop : Int) (turns : Nat) :
    Option (Except PlaybackErr Playback) :=
  match records with
  | [] => some (.error .noFile)
  | first :: rest => do
    match ← aviOpenInputFile first.file true turns with
    | .error _ => return .error .fileAccess
    | .ok avifile =>
      let passtime := if start > first.stime then start - first.stime else 0
      let videoPos := if passtime ≠ 0 then passframes avifile.info.fps passtime else 0
      if videoPos < 0 ∨ videoPos ≥ avifile.videoFrames then return .error .fileAccess
      else
        match if rest = [] then lastf stop first avifile else .ok 0 with
        | .error err => return .error err
        | .ok lastframe =>
          if avifile.videoIndex = none then return .error .fileAccess
          else return .ok ⟨records, stop, 1, lastframe, avifile.seekFrame videoPos.toNat⟩

/-! ### The next frame -/

/-- What is played: a frame, which may be a key frame, or some sound; or playing is over. -/
inductive Played where
  | video (data : Bytes) (flag : Bool)
  | audio (data : Bytes)
  | over
  | error
deriving DecidableEq, Repr

/-- What follows the choice of the file in `playbackreadfileframe`. -/
def Playback.readData (playback : Playback) (bufLen : Int) (turns : Nat) :
    Option (Playback × Played) := do
  let (avi, data) ← playback.aviinfo.readData bufLen bufLen turns
  let playback := { playback with aviinfo := avi }
  match data with
  | .video data =>
    match avi.videoIndex with
    | none => return (playback, .error)
    | some index =>
      if avi.videoPos > avi.videoFrames then return (playback, .error)
      else
        let key := (index.getD (avi.videoPos - 1) ⟨0, 0, 0⟩).key
        return (playback, .video data (key = 0x10))
  | .audio data => return (playback, .audio data)
  | .atEnd => return (playback, .over)
  | .videoTooLong _ => return (playback, .error)
  | .audioTooLong _ => return (playback, .error)

/-- The next file is opened. -/
def Playback.nextFile (playback : Playback) (turns : Nat) :
    Option (Except PlaybackErr Playback) := do
  let record ← playback.records[playback.fileindex]?
  match ← aviOpenInputFile record.file true turns with
  | .error _ => return .error .fileAccess
  | .ok avifile =>
    match if playback.records.length = playback.fileindex + 1
      then lastf playback.stop record avifile
        else .ok playback.lastframe with
    | .error err => return .error err
    | .ok lastframe =>
      if avifile.videoIndex = none then return .error .fileAccess
      else return .ok { playback with
        fileindex := playback.fileindex + 1
        lastframe := lastframe
        aviinfo := avifile.seekFrame 0 }

/-- `playbackreadfileframe`. -/
def Playback.readfileframe (playback : Playback) (bufLen : Int) (turns : Nat) :
    Option (Playback × Played) :=
  if playback.fileindex = playback.records.length then
    if playback.aviinfo.videoPos ≥ playback.lastframe then some (playback, .over)
    else playback.readData bufLen turns
  else if (playback.aviinfo.videoPos : Int) ≥ playback.aviinfo.videoFrames - 1 then
    match playback.nextFile turns with
    | none => none
    | some (.error _) => some (playback, .error)
    | some (.ok next) => next.readData bufLen turns
  else playback.readData bufLen turns

/-- What `playback_process` sends, until playing is over or fails. -/
def Playback.process (bufLen : Int) (turns : Nat) : Nat → Playback → List Played
  | 0, _ => []
  | count + 1, playback =>
    match playback.readfileframe bufLen turns with
    | none => []
    | some (_, .over) => [.over]
    | some (_, .error) => [.error]
    | some (next, played) => played :: process bufLen turns count next

end ExmOnvif.Recordplay
