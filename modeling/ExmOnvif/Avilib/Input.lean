/-
This file models how an AVI file is opened for reading, and how its frames are read: by the index,
or one chunk after the other.

The file is gone through chunk by chunk for its headers and its index, and the headers are
interpreted. An index that does not fit the first frame of the file is made anew from the chunks. A
number of a file can have its highest bit set. It is then negative, moves back in the file, and is
too large a size to be allocated.
-/

import ExmOnvif.Library.Scan
import ExmOnvif.Avilib.Output

namespace ExmOnvif.Avilib

open Library

/-! ### Numbers and tags -/

/-- `PAD_EVEN`. -/
def padEven (n : Int) : Int := (n + 1) / 2 * 2

/-- A place in a file. -/
def Seekable (place : Int) : Prop := 0 ≤ place ∧ place < 2 ^ 31

instance (place : Int) : Decidable (Seekable place) := inferInstanceAs (Decidable (_ ∧ _))

/-- `lseek` to a place, from another one where it fails. -/
def seekTo (pos : Nat) (place : Int) : Nat := if Seekable place then place.toNat else pos

/-- `lseek` by a number of bytes. -/
def seekBy (pos : Nat) (n : Int) : Nat := seekTo pos (pos + n)

/-- `strncasecmp` finds two tags to be the same. -/
def sameTag (tag other : Bytes) : Prop := tag.map tolower = other.map tolower

instance (tag other : Bytes) : Decidable (sameTag tag other) := inferInstanceAs (Decidable (_ = _))

/-- The errors of opening a file. -/
inductive AviErr where
  | read
  | noMem
  | noAvi
  | noHdrl
  | noMovi
  | noVids
deriving DecidableEq, Repr

/-! ### The chunks of the file -/

/-- What is known of a file while it is gone through. -/
structure Layout where
  pos : Nat
  hdrl : Option Bytes
  moviStart : Nat
  idx : Option (List Bytes)
deriving DecidableEq, Repr

/-- The rows of sixteen bytes of an index. -/
def rowsOf (bytes : Bytes) (count : Nat) : List Bytes :=
  (List.range count).map fun row => readAt bytes (16 * row) 16

/-- A turn of the first loop of `AVI_parse_input_file`. -/
def layoutTurn (file : Bytes) (layout : Layout) : Option (Layout ⊕ Except AviErr Layout) :=
  let data := readAt file layout.pos 8
  if data.length ≠ 8 then some (.inr (.ok layout))
  else
    let pos := layout.pos + 8
    let n := padEven (wordInt (wordOf (data.drop 4)))
    if sameTag (data.take 4) (fourcc "LIST") then
      let name := readAt file pos 4
      if name.length ≠ 4 then some (.inr (.error .read))
      else
        let pos := pos + 4
        let n := n - 4
        if sameTag name (fourcc "hdrl") then
          if n < 0 then some (.inr (.error .noMem))
          else
            let hdrl := readAt file pos n.toNat
            if hdrl.length ≠ n.toNat then some (.inr (.error .read))
            else some (.inl { layout with pos := pos + n.toNat, hdrl := some hdrl })
        else if sameTag name (fourcc "movi") then
          some (.inl { layout with pos := seekBy pos n, moviStart := pos })
        else some (.inl { layout with pos := seekBy pos n })
    else if sameTag (data.take 4) (fourcc "idx1") then
      if n < 0 then some (.inr (.error .noMem))
      else
        let rows := readAt file pos n.toNat
        if rows.length ≠ n.toNat then some (.inr (.error .read))
        else
          some (.inl { layout with
            pos := pos + n.toNat
            idx := some (rowsOf rows (n.toNat / 16)) })
    else some (.inl { layout with pos := seekBy pos n })

/-! ### The headers -/

/-- What the headers say. -/
structure Info where
  width : Int
  height : Int
  fps : ℚ
  compressor : Bytes
  videoFrames : Int
  videoStrn : Nat
  aFmt : Nat
  aChans : Nat
  aRate : Int
  aBits : Nat
  audioStrn : Nat
deriving DecidableEq

/-- An `avi_t` that was set to zero. -/
def Info.zero : Info := ⟨0, 0, 0, [], 0, 0, 0, 0, 0, 0, 0⟩

/-- The stream of the last header. -/
inductive Lasttag where
  | none
  | vids
  | auds
deriving DecidableEq, Repr

/-- The variables of the loop over the headers. -/
structure Headers where
  i : Int
  info : Info
  lasttag : Lasttag
  vidsStrhSeen : Bool
  vidsStrfSeen : Bool
  audsStrhSeen : Bool
  numStream : Nat
deriving DecidableEq

/-- Some bytes of the headers, where they are inside. -/
def bytesAt (hdrl : Bytes) (i : Int) (count : Nat) : Option Bytes :=
  if 0 ≤ i ∧ i + count ≤ hdrl.length then some (readAt hdrl i.toNat count) else none

/-- `str2ulong`, inside the headers. -/
def wordAt (hdrl : Bytes) (i : Int) : Option Nat := (bytesAt hdrl i 4).map wordOf

/-- The number of two bytes. -/
def shortOf : Bytes → Nat
  | [first, second] => first.toNat + 2 ^ 8 * second.toNat
  | _ => 0

/-- `str2ushort`, inside the headers. -/
def shortAt (hdrl : Bytes) (i : Int) : Option Nat := (bytesAt hdrl i 2).map shortOf

/-- The header of a stream. -/
def strh (hdrl : Bytes) (i : Int) (headers : Headers) : Option Headers := do
  let kind ← bytesAt hdrl i 4
  if sameTag kind (fourcc "vids") ∧ ¬headers.vidsStrhSeen then
    let compressor ← bytesAt hdrl (i + 4) 4
    let scale ← wordAt hdrl (i + 20)
    let rate ← wordAt hdrl (i + 24)
    let frames ← wordAt hdrl (i + 32)
    let fps : ℚ := if wordInt scale ≠ 0 then wordInt rate / wordInt scale else headers.info.fps
    return { headers with
      info := { headers.info with
        compressor := compressor
        fps := fps
        videoFrames := wordInt frames
        videoStrn := headers.numStream }
      vidsStrhSeen := true
      lasttag := .vids
      numStream := headers.numStream + 1 }
  else if sameTag kind (fourcc "auds") ∧ ¬headers.audsStrhSeen then
    let _ ← wordAt hdrl (i + 32)
    return { headers with
      info := { headers.info with audioStrn := headers.numStream }
      audsStrhSeen := true
      lasttag := .auds
      numStream := headers.numStream + 1 }
  else return { headers with lasttag := .none, numStream := headers.numStream + 1 }

/-- The format of a stream. -/
def strf (hdrl : Bytes) (i : Int) (headers : Headers) : Option Headers :=
  match headers.lasttag with
  | .vids => do
    let width ← wordAt hdrl (i + 4)
    let height ← wordAt hdrl (i + 8)
    let _ ← bytesAt hdrl (i + 16) 4
    return { headers with
      info := { headers.info with width := wordInt width, height := wordInt height }
      vidsStrfSeen := true
      lasttag := .none }
  | .auds => do
    let fmt ← shortAt hdrl i
    let chans ← shortAt hdrl (i + 2)
    let rate ← wordAt hdrl (i + 4)
    let _ ← wordAt hdrl (i + 8)
    let bits ← shortAt hdrl (i + 14)
    return { headers with
      info := { headers.info with
        aFmt := fmt
        aChans := chans
        aRate := wordInt rate
        aBits := bits }
      lasttag := .none }
  | .none => some { headers with lasttag := .none }

/-- A turn of the loop over the headers. It fails where it reads outside them. -/
def headerTurn (hdrl : Bytes) (headers : Headers) : Option (Headers ⊕ Headers) :=
  if ¬headers.i < hdrl.length then some (.inr headers)
  else do
    let tag ← bytesAt hdrl headers.i 4
    if sameTag tag (fourcc "LIST") then return .inl { headers with i := headers.i + 12 }
    else
      let n := padEven (wordInt (← wordAt hdrl (headers.i + 4)))
      let i := headers.i + 8
      let after ←
        if sameTag tag (fourcc "strh") then strh hdrl i headers
        else if sameTag tag (fourcc "strf") then strf hdrl i headers
        else some { headers with lasttag := .none }
      return .inl { after with i := i + n }

/-- The tag of a stream, by its number. -/
def streamTag (strn : Nat) (kind : Bytes) : Bytes :=
  [UInt8.ofNat (strn / 10 + 48), UInt8.ofNat (strn % 10 + 48)] ++ kind

/-- `video_tag`. -/
def Info.videoTag (info : Info) : Bytes := streamTag info.videoStrn [100, 98]

/-- `audio_tag`. Where there is no sound it is that of the stream 99. -/
def Info.audioTag (info : Info) : Bytes :=
  streamTag (if info.aChans = 0 then 99 else info.audioStrn) [119, 98]

/-! ### The index -/

/-- The tag, the flags, the place and the length of a row. -/
def rowTag (row : Bytes) : Bytes := row.take 4

@[inherit_doc rowTag]
def rowFlags (row : Bytes) : Nat := wordOf (readAt row 4 4)

@[inherit_doc rowTag]
def rowPos (row : Bytes) : Nat := wordOf (readAt row 8 4)

@[inherit_doc rowTag]
def rowLen (row : Bytes) : Nat := wordOf (readAt row 12 4)

/-- A row is one of the video stream. -/
def isVideo (videoTag row : Bytes) : Prop := sameTag (row.take 3) (videoTag.take 3)

instance (videoTag row : Bytes) : Decidable (isVideo videoTag row) :=
  inferInstanceAs (Decidable (sameTag _ _))

/-- Where the places of an index are counted from. -/
inductive IdxType where
  | unknown
  | file
  | movi
deriving DecidableEq, Repr

/-- The chunk that a row of the index is about stands at a place. `none` where that cannot be
read. -/
def standsAt (file row : Bytes) (pos : Nat) (place : Int) : Option Bool :=
  let data := readAt file (seekTo pos place) 8
  if data.length ≠ 8 then none
  else some (sameTag (data.take 4) (rowTag row) ∧ wordOf (data.drop 4) = rowLen row)

/-- `idx_type`, by the first row of the video stream. -/
def idxType (file : Bytes) (layout : Layout) (videoTag : Bytes) (rows : List Bytes) :
    Except AviErr IdxType :=
  match rows.find? fun row => isVideo videoTag row with
  | none => .error .noVids
  | some row =>
    let pos := wordInt (rowPos row)
    match standsAt file row layout.moviStart pos with
    | none => .error .read
    | some true => .ok .file
    | some false =>
      match standsAt file row (seekTo layout.moviStart pos + 8) (pos + layout.moviStart - 4) with
      | none => .error .read
      | some true => .ok .movi
      | some false => .ok .unknown

/-- The tag is one of a video or an audio chunk. -/
def isMedia (data : Bytes) : Bool :=
  ((data.getD 2 0 == 100 || data.getD 2 0 == 68) &&
      (data.getD 3 0 == 98 || data.getD 3 0 == 66 || data.getD 3 0 == 99 || data.getD 3 0 == 67)) ||
    ((data.getD 2 0 == 119 || data.getD 2 0 == 87) && (data.getD 3 0 == 98 || data.getD 3 0 == 66))

/-- A place in the file, and the rows that were found in front of it. -/
structure Found where
  pos : Nat
  rows : List Bytes
deriving DecidableEq, Repr

/-- A turn of the loop that searches through the file. -/
def searchTurn (file : Bytes) (found : Found) : Option (Found ⊕ List Bytes) :=
  let data := readAt file found.pos 8
  if data.length ≠ 8 then some (.inr found.rows)
  else if sameTag (data.take 4) (fourcc "LIST") then
    some (.inl { found with pos := seekBy (found.pos + 8) 4 })
  else
    let n := wordOf (data.drop 4)
    let row := data.take 4 ++ (wordBytes 0 ++ (wordBytes found.pos ++ wordBytes n))
    some (.inl ⟨seekBy (found.pos + 8) (padEven (wordInt n)),
      if isMedia data then found.rows ++ [row] else found.rows⟩)

/-- An entry of `video_index`. -/
structure VideoEntry where
  key : Nat
  pos : Int
  len : Int
deriving DecidableEq, Repr

/-- An `avi_t` that is open for reading. -/
structure Reader where
  file : Bytes
  pos : Nat
  info : Info
  moviStart : Nat
  videoIndex : Option (List VideoEntry)
  audioBytes : Int
  videoPos : Nat
deriving DecidableEq

/-- `video_frames`. -/
def Reader.videoFrames (reader : Reader) : Nat := (reader.videoIndex.getD []).length

/-- The arrays that are made of the index, and the place where reading begins. -/
def withIndex (file : Bytes) (info : Info) (moviStart : Nat) (idxType : IdxType)
    (rows : List Bytes) :
    Except AviErr Reader :=
  let ioff : Int := if idxType = .movi then moviStart + 4 else 8
  let video := (rows.filter fun row => isVideo info.videoTag row).map fun row =>
    (⟨rowFlags row, wordInt (rowPos row) + ioff, wordInt (rowLen row)⟩ : VideoEntry)
  let audio := rows.filter fun row => sameTag (rowTag row) info.audioTag
  if video = [] then .error .noVids
  else .ok ⟨file, moviStart, info, moviStart, some video,
    (audio.map fun row => wordInt (rowLen row)).sum, 0⟩

/-- `AVI_open_input_file`, with a number of turns for each loop. It gives nothing where that number
does not do, or where it reads outside the headers. -/
def aviOpenInputFile (file : Bytes) (getIndex : Bool) (turns : Nat) :
    Option (Except AviErr Reader) :=
  let data := readAt file 0 12
  if data.length ≠ 12 then some (.error .read)
  else if ¬(sameTag (data.take 4) (fourcc "RIFF") ∧ sameTag (data.drop 8) (fourcc "AVI ")) then
    some (.error .noAvi)
  else do
    match ← scan (layoutTurn file) turns ⟨12, none, 0, none⟩ with
    | .error err => return .error err
    | .ok layout =>
      match layout.hdrl with
      | none => return .error .noHdrl
      | some hdrl =>
        let headers ← scan (headerTurn hdrl) turns ⟨0, .zero, .none, false, false, false, 0⟩
        let info := headers.info
        if ¬(headers.vidsStrhSeen ∧ headers.vidsStrfSeen) then return .error .noVids
        else if ¬getIndex then
          return .ok ⟨file, max layout.pos file.length, info, layout.moviStart, none, 0, 0⟩
        else if layout.moviStart = 0 then return .error .noMovi
        else
          match layout.idx.elim (.ok .unknown) (idxType file layout info.videoTag) with
          | .error err => return .error err
          | .ok .unknown =>
            let rows ← scan (searchTurn file) turns ⟨layout.moviStart, []⟩
            return withIndex file info layout.moviStart .file rows
          | .ok kind => return withIndex file info layout.moviStart kind (layout.idx.getD [])

/-! ### Reading -/

/-- `AVI_read_frame`: the frame and whether it is a key frame, or nothing where minus one is
returned. It gives no result where a frame would be longer than any buffer. -/
def Reader.readFrame (reader : Reader) : Option (Reader × Option (Bytes × Bool)) :=
  match reader.videoIndex with
  | none => some (reader, none)
  | some index =>
    match index[reader.videoPos]? with
    | none => some (reader, none)
    | some entry =>
      if entry.len < 0 then none
      else
        let pos := seekTo reader.pos entry.pos
        let vidbuf := readAt reader.file pos entry.len.toNat
        let moved := { reader with pos := pos + vidbuf.length }
        if vidbuf.length ≠ entry.len.toNat then some (moved, none)
        else some ({ moved with videoPos := reader.videoPos + 1 }, some (vidbuf, entry.key = 0x10))

/-- What `AVI_read_data` returns, with what it has stored, and with the length. -/
inductive ReadData where
  | video (data : Bytes)
  | audio (data : Bytes)
  | atEnd
  | videoTooLong (len : Int)
  | audioTooLong (len : Int)
deriving DecidableEq, Repr

/-- A turn of the loop of `AVI_read_data`. -/
def readDataTurn (maxVidbuf maxAudbuf : Int) (reader : Reader) :
    Option (Reader ⊕ (Reader × ReadData)) :=
  let data := readAt reader.file reader.pos 8
  if data.length ≠ 8 then some (.inr ({ reader with pos := reader.pos + data.length }, .atEnd))
  else if sameTag (data.take 4) (fourcc "LIST") then
    some (.inl { reader with pos := seekBy (reader.pos + 8) 4 })
  else
    let pos := reader.pos + 8
    let n := padEven (wordInt (wordOf (data.drop 4)))
    if isVideo reader.info.videoTag (data.take 4) then
      let reader := { reader with videoPos := reader.videoPos + 1 }
      if n > maxVidbuf then some (.inr ({ reader with pos := seekBy pos n }, .videoTooLong n))
      else if n < 0 then none
      else
        let vidbuf := readAt reader.file pos n.toNat
        let reader := { reader with pos := pos + vidbuf.length }
        some (.inr (reader, if vidbuf.length = n.toNat then .video vidbuf else .atEnd))
    else if sameTag (data.take 4) reader.info.audioTag then
      if n > maxAudbuf then some (.inr ({ reader with pos := seekBy pos n }, .audioTooLong n))
      else if n < 0 then none
      else
        let audbuf := readAt reader.file pos n.toNat
        let reader := { reader with pos := pos + audbuf.length }
        some (.inr (reader, if audbuf.length = n.toNat then .audio audbuf else .atEnd))
    else if ¬Seekable (pos + n) then some (.inr ({ reader with pos := pos }, .atEnd))
    else some (.inl { reader with pos := seekBy pos n })

/-- `AVI_read_data`, in a number of turns. -/
def Reader.readData (reader : Reader) (maxVidbuf maxAudbuf : Int) (turns : Nat) :
    Option (Reader × ReadData) :=
  scan (readDataTurn maxVidbuf maxAudbuf) turns reader

end ExmOnvif.Avilib
