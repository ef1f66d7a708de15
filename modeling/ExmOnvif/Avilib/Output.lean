/-
This file models how a recording is written to an AVI file: the room for the header, a chunk for
each frame and each piece of sound, and at the end the index and the header.

The entry of the index is made before the chunk is written, and stays where writing fails. What is
written next goes to the place of the chunk that failed. Where a `write` fails and a later one comes
through, the chunk counts as written, with bytes too many in the file, and what follows goes behind
them, while the places in the index do not.

The machine is a little-endian one with words of four bytes, and `long` and `size_t` are words.
The frame rate, a `double`, is a rational number here.
-/

import Mathlib.Data.Rat.Floor
import ExmOnvif.Library.Chunks

namespace ExmOnvif.Avilib

open Library

/-! ### Writing bytes -/

/-- The loop of `avi_write` with the count `r`, and what each call of `write` returns: how much it
has taken, or nothing where it fails. It gives what has been written and what is returned. -/
def writeLoop (buf : Bytes) : List (Option Nat) → Nat → Option (Bytes × Nat)
  | [], r => if r < buf.length then none else some ([], r)
  | some count :: replies, r =>
    if r < buf.length then
      let piece := (buf.drop r).take count
      (writeLoop buf replies (r + piece.length)).map fun (written, ret) => (piece ++ written, ret)
    else none
  | none :: replies, r =>
    -- The result of `write` is kept without a sign, so that a failure is added as minus one.
    if r < buf.length then writeLoop buf replies ((r + (2 ^ 32 - 1)) % 2 ^ 32)
    else none

/-- `avi_write`, which makes as many calls of `write` as there are replies. -/
def aviWrite (buf : Bytes) (replies : List (Option Nat)) : Option (Bytes × Nat) :=
  writeLoop buf replies 0

/-! ### The file -/

/-- `HEADERBYTES`. -/
def headerBytes : Nat := 2048

/-- `AVI_MAX_LEN`. -/
def aviMaxLen : Nat := 2 ^ 32 - 1 - 2 ^ 20 * 16 - headerBytes

/-- A tag of four characters. -/
def fourcc (text : String) : Bytes := text.toList.map fun char => UInt8.ofNat char.toNat

/-- What `AVI_set_video` and `AVI_set_audio` set. -/
structure Media where
  width : Nat
  height : Nat
  fps : ℚ
  compressor : Bytes
  aFmt : Nat
  aChans : Nat
  aRate : Nat
  aBits : Nat
deriving DecidableEq

/-- What the recorder sets. -/
structure Media.Valid (media : Media) : Prop where
  compressor : media.compressor.length = 4
  chans : media.aChans < 2 ^ 16
  bits : media.aChans ≠ 0 → media.aBits ≠ 0

instance (media : Media) : Decidable media.Valid :=
  decidable_of_iff
    (media.compressor.length = 4 ∧ media.aChans < 2 ^ 16 ∧ (media.aChans ≠ 0 → media.aBits ≠ 0))
    ⟨fun all => ⟨all.1, all.2.1, all.2.2⟩, fun valid => ⟨valid.1, valid.2, valid.3⟩⟩

/-- An entry of the index. -/
structure IndexEntry where
  tag : Bytes
  flags : Nat
  pos : Nat
  len : Nat
deriving DecidableEq, Repr

/-- The sixteen bytes of an entry. -/
def IndexEntry.bytes (entry : IndexEntry) : Bytes :=
  entry.tag ++ (wordBytes entry.flags ++ (wordBytes entry.pos ++ wordBytes entry.len))

/-- An `avi_t` that is open for writing, with its file. The entries of `idx` are in memory, or in
the file `fp_idx` where that could be created. -/
structure Avi where
  media : Media
  file : Bytes
  pos : Nat
  /-- The place in the file where the next write goes. -/
  offset : Nat
  nIdx : Nat
  idx : List IndexEntry
  fpIdx : Bool
  videoFrames : Nat
  audioBytes : Nat
deriving DecidableEq

/-- `AVI_open_output_file`, `AVI_set_video` and `AVI_set_audio`. A file of this name keeps what it
has behind the room for the header. -/
def aviOpenOutputFile (old : Bytes) (fpIdx : Bool) (media : Media) : Avi where
  media := media
  file := writeAt old 0 (List.replicate headerBytes 0)
  pos := headerBytes
  offset := headerBytes
  nIdx := 0
  idx := []
  fpIdx := fpIdx
  videoFrames := 0
  audioBytes := 0

/-- What becomes of a chunk: it is written as it is, or with bytes too many, or writing fails behind
some bytes. -/
inductive Reach where
  | whole
  | repeated (written : Bytes)
  | broken (reached : Bytes)
deriving DecidableEq, Repr

/-- The chunk is not written with bytes too many. -/
def Reach.Clean : Reach → Prop
  | .repeated _ => False
  | _ => True

instance : (reach : Reach) → Decidable reach.Clean
  | .whole => .isTrue trivial
  | .repeated _ => .isFalse id
  | .broken _ => .isTrue trivial

/-- What becomes of a chunk by what the calls of `avi_write` for its head and for its data have
written and returned. The second one is not made if the first one fails. -/
def Reach.of (chunk : Chunk) (head data : Bytes × Nat) : Reach :=
  if head.2 ≠ 8 then .broken head.1
  else if data.2 ≠ (chunk.data ++ chunk.pad).length then .broken (head.1 ++ data.1)
  else if head.1 ++ data.1 = chunk.bytes then .whole
  else .repeated (head.1 ++ data.1)

/-- `avi_add_chunk`. Only where it fails it goes back to its place in the file. -/
def Avi.addChunk (avi : Avi) (chunk : Chunk) : Reach → Avi × Int
  | .whole =>
    ({ avi with
      file := writeAt avi.file avi.offset chunk.bytes
      offset := avi.offset + chunk.size
      pos := avi.pos + chunk.size }, 0)
  | .repeated written =>
    ({ avi with
      file := writeAt avi.file avi.offset written
      offset := avi.offset + written.length
      pos := avi.pos + chunk.size }, 0)
  | .broken reached =>
    ({ avi with file := writeAt avi.file avi.offset reached, offset := avi.pos }, -1)

/-- `avi_add_index_entry`. -/
def Avi.addIndexEntry (avi : Avi) (tag : Bytes) (flags pos len : Nat) : Avi :=
  { avi with idx := avi.idx ++ [⟨tag, flags, pos, len⟩], nIdx := avi.nIdx + 1 }

/-- The padding: a byte of what stands behind the data in memory. -/
def padding (data : Bytes) (behind : UInt8) : Bytes := if data.length % 2 = 1 then [behind] else []

theorem padding_length (data : Bytes) (behind : UInt8) :
    (padding data behind).length = data.length % 2 := by
  unfold padding
  rcases Nat.mod_two_eq_zero_or_one data.length with even | odd
  · rw [if_neg (by omega), even, List.length_nil]
  · rw [if_pos odd, odd, List.length_singleton]

/-- What is written: a frame of the video, which may be a key frame, or some sound. -/
inductive Item where
  | video (data : Bytes) (keyframe : Bool)
  | audio (data : Bytes)
deriving DecidableEq, Repr

namespace Item

/-- The bytes of a frame or of some sound. -/
def data : Item → Bytes
  | video data _ => data
  | audio data => data

/-- The tag of the chunk. -/
def tag : Item → Bytes
  | video _ _ => fourcc "00dc"
  | audio _ => fourcc "01wb"

/-- The flags of the entry. -/
def flags : Item → Nat
  | video _ keyframe => if keyframe then 0x10 else 0
  | audio _ => 0

/-- The chunk for an item, with what stands behind its data in memory. -/
def chunk (item : Item) (behind : UInt8) : Chunk where
  tag := item.tag
  data := item.data
  pad := padding item.data behind
  tag_length := by cases item <;> rfl
  pad_length := padding_length _ _

end Item

/-- There is room for the chunk and for the index behind it. -/
def Avi.Room (avi : Avi) (length : Nat) : Prop :=
  (avi.pos + 8 + length + 8 + (avi.nIdx + 1) * 16) % 2 ^ 32 ≤ aviMaxLen

instance (avi : Avi) (length : Nat) : Decidable (avi.Room length) :=
  inferInstanceAs (Decidable (_ ≤ _))

/-- `avi_write_data`. -/
def Avi.writeData (avi : Avi) (item : Item) (behind : UInt8) (reach : Reach) : Avi × Int :=
  if ¬avi.Room item.data.length then (avi, -1)
  else
    (avi.addIndexEntry item.tag item.flags avi.pos item.data.length).addChunk
      (item.chunk behind) reach

/-- `AVI_write_frame` and `AVI_write_audio`. -/
def Avi.write (avi : Avi) (item : Item) (behind : UInt8) (reach : Reach) : Avi × Int :=
  match avi.writeData item behind reach with
  | (avi, ret) =>
    if ret ≠ 0 then (avi, -1)
    else
      match item with
      | .video _ _ => ({ avi with videoFrames := avi.videoFrames + 1 }, 0)
      | .audio data => ({ avi with audioBytes := avi.audioBytes + data.length }, 0)

/-! ### The header -/

/-- A word of two bytes. -/
def shortBytes (value : Nat) : Bytes := [UInt8.ofNat value, UInt8.ofNat (value / 2 ^ 8)]

/-- A number that may be negative as a word. -/
def longBytes (value : Int) : Bytes := wordBytes (value % 2 ^ 32).toNat

/-- `frate`. -/
def frate (fps : ℚ) : Nat := if fps < 1 / 1000 then 0 else ⌊10000 * fps + 1 / 2⌋.toNat

/-- `ms_per_frame`. -/
def msPerFrame (fps : ℚ) : Nat := if fps < 1 / 1000 then 0 else ⌊1000000 / fps + 1 / 2⌋.toNat

/-- `avi_sampsize`. -/
def aviSampsize (aBits aChans : Nat) : Nat := max ((aBits + 7) / 8 * aChans) 4

/-- The words of some numbers. -/
def words (values : List Nat) : Bytes := values.flatMap wordBytes

/-- The flags of the file: `AVIF_ISINTERLEAVED`, and `AVIF_HASINDEX` where there is an index. -/
def aviFlags (hasIndex : Bool) : Nat := if hasIndex then 0x110 else 0x100

namespace Avi

variable (avi : Avi)

/-- The main header. -/
def mainHeader (hasIndex : Bool) : Bytes :=
  fourcc "avih" ++ words [56, msPerFrame avi.media.fps, 0, 0, aviFlags hasIndex, avi.videoFrames, 0,
    if avi.audioBytes ≠ 0 then 2 else 1, 0, avi.media.width, avi.media.height, 0, 0, 0, 0]

/-- The header of the video stream. -/
def videoStrh : Bytes :=
  fourcc "strh" ++ (wordBytes 64 ++ (fourcc "vids" ++ (avi.media.compressor ++
    (words [0, 0, 0, 10000, frate avi.media.fps, 0, avi.videoFrames, 0] ++
      (longBytes (-1) ++ words [0, 0, 0, 0, 0])))))

/-- The format of the video stream. -/
def videoStrf : Bytes :=
  fourcc "strf" ++ (wordBytes 40 ++ (words [40, avi.media.width, avi.media.height] ++
    (shortBytes 1 ++ (shortBytes 24 ++ (avi.media.compressor ++
      words [avi.media.width * avi.media.height * 3, 0, 0, 0, 0])))))

/-- `sampsize`. -/
def sampsize : Nat := aviSampsize avi.media.aBits avi.media.aChans

/-- The length of the audio stream, in samples. The product is one of four bytes. -/
def audioLength : Int := (Int.bmod (4 * avi.audioBytes) (2 ^ 32)).tdiv avi.sampsize

/-- The header of the audio stream. -/
def audioStrh : Bytes :=
  fourcc "strh" ++ (wordBytes 64 ++ (fourcc "auds" ++ (words [0, 0, 0, 0, avi.sampsize / 4,
    avi.media.aRate * (avi.sampsize / 4) / avi.media.aChans / avi.media.aChans, 0] ++
      (longBytes avi.audioLength ++ (wordBytes (1024 * 2 * avi.media.aChans) ++
        (longBytes (-1) ++ words [avi.sampsize / 4, 0, 0, 0, 0]))))))

/-- The format of the audio stream. -/
def audioStrf : Bytes :=
  fourcc "strf" ++ (wordBytes 16 ++ (shortBytes avi.media.aFmt ++ (shortBytes avi.media.aChans ++
    (words [avi.media.aRate / avi.media.aBits * 8 / avi.media.aChans,
      avi.media.aRate * (avi.sampsize / 4) / avi.media.aChans] ++
      (shortBytes (avi.sampsize / 4) ++ shortBytes avi.media.aBits)))))

/-- A list with its name, behind its length. -/
def list (name : String) (content : Bytes) : Bytes :=
  fourcc "LIST" ++ (wordBytes (4 + content.length) ++ (fourcc name ++ content))

/-- The list of the headers. -/
def hdrl (hasIndex : Bool) : Bytes :=
  avi.mainHeader hasIndex ++ (list "strl" (avi.videoStrh ++ avi.videoStrf) ++
    if avi.media.aChans ≠ 0 then list "strl" (avi.audioStrh ++ avi.audioStrf) else [])

/-- `njunk`. -/
def njunk (hasIndex : Bool) : Nat := headerBytes - (24 + (avi.hdrl hasIndex).length) - 8 - 12

/-- The header as it is written. -/
def header (moviLen : Nat) (hasIndex : Bool) : Bytes :=
  fourcc "RIFF" ++ (wordBytes (avi.pos - 8) ++ (fourcc "AVI " ++
    (list "hdrl" (avi.hdrl hasIndex) ++
      (fourcc "JUNK" ++ (wordBytes (avi.njunk hasIndex) ++
        (fourcc "AVI file" ++ (List.replicate (avi.njunk hasIndex - 8) 0 ++
          (fourcc "LIST" ++ (wordBytes moviLen ++ fourcc "movi")))))))))

/-- The index as it is written. -/
def indexBytes : Bytes :=
  fourcc "idx1" ++ (wordBytes (16 * avi.nIdx) ++ avi.idx.flatMap IndexEntry.bytes)

/-- The index is written behind the chunks. -/
def writeIndex : Avi :=
  { avi with
    file := writeAt avi.file avi.offset avi.indexBytes
    offset := avi.offset + avi.indexBytes.length
    pos := avi.pos + avi.indexBytes.length }

/-- `AVI_fix_header`, where all of it is written. An index that is copied from `fp_idx` counts only
if there is something to copy. -/
def fixHeader (writeindex : Bool) : Avi :=
  let moviLen := avi.pos - headerBytes + 4
  let hasIndex := writeindex && (!avi.fpIdx || !avi.idx.isEmpty)
  let avi := if writeindex then avi.writeIndex else avi
  { avi with file := writeAt avi.file 0 (avi.header moviLen hasIndex), offset := headerBytes }

/-- `AVI_close` of a file that was written: the file is cut behind the index. -/
def close : Bytes :=
  let avi := avi.fixHeader true
  avi.file.take avi.pos

end Avi

end ExmOnvif.Avilib
