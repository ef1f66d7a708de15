/-
This file proves how a file is opened that is made of a header, chunks and an index. The count of
the index is what is written in front of it, which need not be the number of its entries.

The index is taken as it is where its first entry for a frame leads to that frame.
-/

import Mathlib.Data.List.Find
import ExmOnvif.Avilib.Opened

namespace ExmOnvif.Avilib

open Library

/-! ### The file -/

/-- An index, with its count. -/
def indexOf (count : Nat) (entries : List IndexEntry) : Bytes :=
  fourcc "idx1" ++ (wordBytes (16 * count) ++ entries.flatMap IndexEntry.bytes)

/-- A file with a header, some bytes, and an index. -/
def aviFile (front : Avi) (hasIndex : Bool) (movi : Bytes) (count : Nat)
    (entries : List IndexEntry) :
    Bytes :=
  front.header (4 + movi.length) hasIndex ++ (movi ++ indexOf count entries)

/-- An entry of the kind that is written. -/
structure IndexEntry.Valid (entry : IndexEntry) : Prop where
  tag : entry.tag = fourcc "00dc" ∨ entry.tag = fourcc "01wb"
  flags : entry.flags < 2 ^ 32
  pos : entry.pos < 2 ^ 31

/-- An entry for a frame. -/
def IndexEntry.IsVideo (entry : IndexEntry) : Prop := entry.tag = fourcc "00dc"

instance (entry : IndexEntry) : Decidable entry.IsVideo := inferInstanceAs (Decidable (_ = _))

/-- The entry of `video_index`. -/
def IndexEntry.video (entry : IndexEntry) : VideoEntry :=
  ⟨entry.flags, ((entry.pos + 8 : Nat) : Int), wordInt (entry.len % 2 ^ 32)⟩

variable {front : Avi} {hasIndex : Bool} {movi : Bytes} {count : Nat} {entries : List IndexEntry}
  {entry : IndexEntry}

theorem IndexEntry.Valid.tag_length (valid : entry.Valid) : entry.tag.length = 4 := by
  rcases valid.tag with video | audio
  · rw [video]
    rfl
  · rw [audio]
    rfl

theorem tags_of_valid (valid : ∀ entry ∈ entries, entry.Valid) :
    ∀ entry ∈ entries, entry.tag.length = 4 := fun entry member => (valid entry member).tag_length

theorem IndexEntry.length_bytes (four : entry.tag.length = 4) : entry.bytes.length = 16 := by
  simp only [IndexEntry.bytes, List.length_append, four, wordBytes_length]

theorem length_entries (four : ∀ entry ∈ entries, entry.tag.length = 4) :
    (entries.flatMap IndexEntry.bytes).length = 16 * entries.length := by
  induction entries with
  | nil => rfl
  | cons entry entries inductionHypothesis =>
    have rest := inductionHypothesis fun entry member => four entry (List.mem_cons_of_mem _ member)
    rw [List.flatMap_cons, List.length_append, rest, List.length_cons,
      IndexEntry.length_bytes (four entry List.mem_cons_self)]
    omega

/-- The parts of the file stand at their places. -/
theorem aviFile_parts (compressor : front.media.compressor.length = 4) :
    At (aviFile front hasIndex movi count entries) 0 (front.header (4 + movi.length) hasIndex) ∧
      At (aviFile front hasIndex movi count entries) headerBytes movi ∧
      At (aviFile front hasIndex movi count entries) (headerBytes + movi.length)
        (indexOf count entries) := by
  have whole : At (aviFile front hasIndex movi count entries) 0
    (aviFile front hasIndex movi count entries) := at_start _
  have length := length_header compressor (4 + movi.length) hasIndex
  have behind := whole.right
  rw [length, Nat.zero_add] at behind
  exact ⟨whole.left, behind.left, behind.right⟩

theorem length_aviFile (compressor : front.media.compressor.length = 4)
    (four : ∀ entry ∈ entries, entry.tag.length = 4) :
    (aviFile front hasIndex movi count entries).length =
      headerBytes + movi.length + (8 + 16 * entries.length) := by
  have length := length_header compressor (4 + movi.length) hasIndex
  have tag : (fourcc "idx1").length = 4 := rfl
  simp only [aviFile, indexOf, List.length_append, length, tag, wordBytes_length,
    length_entries four]
  omega

/-! ### The rows -/

/-- The rows of an index are its entries. -/
theorem rowsOf_entries (four : ∀ entry ∈ entries, entry.tag.length = 4) :
    rowsOf (entries.flatMap IndexEntry.bytes) entries.length = entries.map IndexEntry.bytes := by
  induction entries with
  | nil => rfl
  | cons entry entries inductionHypothesis =>
    have length := IndexEntry.length_bytes (four entry List.mem_cons_self)
    have rest := inductionHypothesis fun entry member => four entry (List.mem_cons_of_mem _ member)
    rw [List.map_cons, ← rest, List.flatMap_cons]
    simp only [rowsOf, List.length_cons, List.range_succ_eq_map, List.map_cons, List.map_map]
    congr 1
    · rw [readAt, Nat.mul_zero, List.drop_zero, ← length, List.take_left]
    · refine List.map_congr_left fun row _ => ?_
      have place : 16 * (row + 1) = entry.bytes.length + 16 * row := by omega
      rw [Function.comp_apply, readAt, readAt, place, ← List.drop_drop, List.drop_left]

/-- The fields of a row that was made of an entry. -/
theorem row_fields (valid : entry.Valid) :
    rowTag entry.bytes = entry.tag ∧ rowFlags entry.bytes = entry.flags ∧
      wordInt (rowPos entry.bytes) = entry.pos ∧ rowLen entry.bytes = entry.len % 2 ^ 32 := by
  have whole : At entry.bytes 0 entry.bytes := at_start _
  have flags := whole.right.left
  have place := whole.right.right.left
  have length := whole.right.right.right
  rw [valid.tag_length] at flags place length
  refine ⟨List.take_left' valid.tag_length, ?_, ?_, ?_⟩
  · exact (congrArg wordOf (flags.read (wordBytes_length _))).trans (wordOf_wordBytes valid.flags)
  · have read := (congrArg wordOf (place.read (wordBytes_length _))).trans (wordOf_wordBytes_mod _)
    exact (congrArg wordInt read).trans (wordInt_mod valid.pos)
  · exact (congrArg wordOf (length.read (wordBytes_length _))).trans (wordOf_wordBytes_mod _)

/-- The rows of the video stream are those of the frames. -/
theorem isVideo_row (front : Avi) (valid : entry.Valid) :
    isVideo front.info.videoTag entry.bytes ↔ entry.IsVideo := by
  have first : entry.bytes.take 3 = entry.tag.take 3 :=
    List.take_append_of_le_length (by rw [valid.tag_length]; decide)
  have videoTag : front.info.videoTag = streamTag 0 [100, 98] := rfl
  rw [isVideo, first, videoTag, IndexEntry.IsVideo]
  rcases valid.tag with frame | sound
  · rw [frame]
    decide
  · rw [sound]
    decide

/-- The tag of the sound, where there is a channel. -/
theorem audioTag_of_sound (sound : front.media.aChans ≠ 0) (chans : front.media.aChans < 2 ^ 16) :
    front.info.audioTag = streamTag 1 [119, 98] := by
  have some : front.info.aChans = front.media.aChans :=
    (if_pos sound).trans (Nat.mod_eq_of_lt chans)
  have stream : front.info.audioStrn = 1 := if_pos sound
  rw [Info.audioTag, some, if_neg sound, stream]

/-- The rows for frames are made to the entries of the video. -/
theorem video_rows (front : Avi) (valid : ∀ entry ∈ entries, entry.Valid) :
    (((entries.map IndexEntry.bytes).filter fun row => isVideo front.info.videoTag row).map
      fun row =>
      (⟨rowFlags row, wordInt (rowPos row) + 8, wordInt (rowLen row)⟩ : VideoEntry)) =
      (entries.filter (·.IsVideo)).map IndexEntry.video := by
  have rows : (entries.map IndexEntry.bytes).filter (fun row => isVideo front.info.videoTag row) =
      (entries.filter (·.IsVideo)).map IndexEntry.bytes := by
    rw [List.filter_map]
    refine congrArg _ (List.filter_congr fun entry member => ?_)
    exact decide_eq_decide.mpr (isVideo_row front (valid entry member))
  rw [rows, List.map_map]
  refine List.map_congr_left fun entry member => ?_
  obtain ⟨_, flags, place, length⟩ := row_fields (valid entry (List.mem_of_mem_filter member))
  rw [Function.comp_apply, flags, place, length]
  rfl

/-- The entries for frames are the index of the video. -/
theorem withIndex_indexed (file : Bytes) (front : Avi) (valid : ∀ entry ∈ entries, entry.Valid)
    (some : ∃ entry ∈ entries, entry.IsVideo) : ∃ audioBytes,
    withIndex file front.info headerBytes .file (entries.map IndexEntry.bytes) =
      .ok ⟨file, headerBytes, front.info, headerBytes,
        .some ((entries.filter (·.IsVideo)).map IndexEntry.video), audioBytes, 0⟩ := by
  have someFrame : (entries.filter (·.IsVideo)).map IndexEntry.video ≠ [] := by
    obtain ⟨entry, member, frame⟩ := some
    exact List.ne_nil_of_mem
      (List.mem_map_of_mem (List.mem_filter.mpr ⟨member, decide_eq_true frame⟩))
  have fromStart : (if IdxType.file = .movi then (headerBytes : Int) + 4 else 8) = 8 :=
    if_neg (by decide)
  simp only [withIndex, fromStart, video_rows front valid, if_neg someFrame]
  exact ⟨_, rfl⟩

/-- Without a frame there is none. -/
theorem withIndex_no_video (file : Bytes) (front : Avi) (valid : ∀ entry ∈ entries, entry.Valid)
    (noFrame : ∀ entry ∈ entries, ¬entry.IsVideo) :
    withIndex file front.info headerBytes .file (entries.map IndexEntry.bytes) =
        .error .noVids := by
  have none : entries.filter (·.IsVideo) = [] :=
    List.filter_eq_nil_iff.mpr fun entry member frame =>
      noFrame entry member (of_decide_eq_true frame)
  have fromStart : (if IdxType.file = .movi then (headerBytes : Int) + 4 else 8) = 8 :=
    if_neg (by decide)
  simp only [withIndex, fromStart, video_rows front valid, none, List.map_nil, if_true]

/-- The places of an index are taken as they are where the first entry for a frame leads to it. -/
theorem idxType_indexed (valid : ∀ entry ∈ entries, entry.Valid)
    (first : entries.find? (·.IsVideo) = some entry)
    (stands : readAt (aviFile front hasIndex movi count entries) entry.pos 8 =
      entry.tag ++ wordBytes entry.len) (layout : Layout) :
    idxType (aviFile front hasIndex movi count entries) layout front.info.videoTag
      (entries.map IndexEntry.bytes) = .ok .file := by
  have entryValid := valid entry (List.mem_of_find?_eq_some first)
  obtain ⟨tag, _, place, dataLength⟩ := row_fields entryValid
  have four := entryValid.tag_length
  have foundRow : (entries.map IndexEntry.bytes).find?
    (fun row => isVideo front.info.videoTag row) =
      some entry.bytes := by
    rw [List.find?_map]
    have same : entries.find? ((fun row => decide (isVideo front.info.videoTag row)) ∘
        IndexEntry.bytes) = entries.find? (·.IsVideo) := by
      refine List.find?_congr fun entry member => ?_
      exact decide_eq_decide.mpr (isVideo_row front (valid entry member))
    rw [same, first]
    rfl
  have there : standsAt (aviFile front hasIndex movi count entries) entry.bytes layout.moviStart
      (wordInt (rowPos entry.bytes)) = some true := by
    rw [place, standsAt, seekTo_natCast entryValid.pos, stands,
      if_neg (by rw [front_length four]; decide), take_front four, drop_front four, tag, dataLength,
      wordOf_wordBytes_mod]
    exact congrArg some (decide_eq_true ⟨rfl, rfl⟩)
  rw [idxType, foundRow]
  simp only [there]

/-! ### Opening it -/

section Turns

variable (compressor : front.media.compressor.length = 4) (valid : ∀ entry ∈ entries, entry.Valid)

include compressor valid

/-- What is read at the index. -/
theorem layoutTurn_index (countSmall : 16 * count < 2 ^ 31) :
    layoutTurn (aviFile front hasIndex movi count entries)
        ⟨headerBytes + movi.length, some (front.hdrl hasIndex), headerBytes, none⟩ =
      if entries.length < count then some (.inr (.error .read))
      else some (.inl ⟨headerBytes + movi.length + 8 + 16 * count, some (front.hdrl hasIndex),
        headerBytes, some (rowsOf
            ((entries.flatMap IndexEntry.bytes).take (16 * count)) count)⟩) := by
  obtain ⟨_, _, index⟩ := @aviFile_parts front hasIndex movi count entries compressor
  have length := @length_aviFile front hasIndex movi count entries compressor (tags_of_valid valid)
  have all := length_entries (tags_of_valid valid)
  have four : (fourcc "idx1").length = 4 := rfl
  have noList : ¬sameTag (fourcc "idx1") (fourcc "LIST") := by decide
  have indexTag : sameTag (fourcc "idx1") (fourcc "idx1") := rfl
  have size : padEven (wordInt (wordOf (wordBytes (16 * count)))) = ((16 * count : Nat) : Int) := by
    rw [wordOf_wordBytes (by omega), wordInt_of_small countSmall, padEven_natCast]
    omega
  have positive : ¬((16 * count : Nat) : Int) < 0 := by omega
  have rest : (aviFile front hasIndex movi count entries).drop
      (headerBytes + movi.length + 8) = entries.flatMap IndexEntry.bytes := by
    have rows : At (aviFile front hasIndex movi count entries) (headerBytes + movi.length + 8)
      (entries.flatMap IndexEntry.bytes) := index.right.right
    refine (rows.eq_of_length ?_).symm
    rw [List.length_drop, length, all]
    omega
  have read : readAt (aviFile front hasIndex movi count entries) (headerBytes + movi.length + 8)
      (16 * count) = (entries.flatMap IndexEntry.bytes).take (16 * count) := by
    rw [readAt, rest]
  rw [layoutTurn, read_front index four]
  simp only [front_length four, take_front four, drop_front four, ne_eq,
    not_true_eq_false, if_false, if_neg noList, if_pos indexTag, size, if_neg positive,
    Int.toNat_natCast, read]
  by_cases cut : entries.length < count
  · have less : ¬((entries.flatMap IndexEntry.bytes).take (16 * count)).length = 16 * count := by
      rw [List.length_take, all]
      omega
    rw [if_pos less, if_pos cut]
  · have whole : ¬¬((entries.flatMap IndexEntry.bytes).take (16 * count)).length = 16 * count := by
      rw [List.length_take, all]
      omega
    rw [if_neg whole, if_neg cut, Nat.mul_div_cancel_left _ (by decide)]

variable (even : movi.length % 2 = 0)
  (small : (aviFile front hasIndex movi count entries).length < 2 ^ 31)

include even small

/-- The header is gone through, to the index. -/
theorem scan_layout_front (turns : Nat) :
    scan (layoutTurn (aviFile front hasIndex movi count entries)) (turns + 3) ⟨12, none, 0, none⟩ =
      scan (layoutTurn (aviFile front hasIndex movi count entries)) turns
        ⟨headerBytes + movi.length, some (front.hdrl hasIndex), headerBytes, none⟩ := by
  obtain ⟨header, _, _⟩ := @aviFile_parts front hasIndex movi count entries compressor
  have length := @length_aviFile front hasIndex movi count entries compressor (tags_of_valid valid)
  have distance : (((4 + movi.length + (4 + movi.length) % 2 : Nat) : Int) - 4) =
      (movi.length : Int) := by omega
  have behind : seekBy headerBytes (((4 + movi.length + (4 + movi.length) % 2 : Nat) : Int) - 4) =
      headerBytes + movi.length := by
    rw [distance, seekBy_natCast (by omega)]
  rw [scan_layout compressor header (by omega), show (2048 : Nat) = headerBytes from rfl, behind]

/-- The chunks and the index are found when the file is gone through. -/
theorem scan_layout_indexed (counted : count = entries.length) (turns : Nat) :
    scan (layoutTurn (aviFile front hasIndex movi count entries)) (turns + 5) ⟨12, none, 0, none⟩ =
      some (.ok ⟨(aviFile front hasIndex movi count entries).length, some (front.hdrl hasIndex),
        headerBytes, some (entries.map IndexEntry.bytes)⟩) := by
  have length := @length_aviFile front hasIndex movi count entries compressor (tags_of_valid valid)
  have turn := @layoutTurn_index front hasIndex movi count entries compressor valid (by omega)
  have all : (entries.flatMap IndexEntry.bytes).take (16 * count) =
      entries.flatMap IndexEntry.bytes := by
    rw [counted, ← length_entries (tags_of_valid valid), List.take_length]
  have place : headerBytes + movi.length + 8 + 16 * count =
      (aviFile front hasIndex movi count entries).length := by omega
  have rows : rowsOf (entries.flatMap IndexEntry.bytes) count = entries.map IndexEntry.bytes := by
    rw [counted, rowsOf_entries (tags_of_valid valid)]
  rw [if_neg (by omega), all, rows, place] at turn
  exact (scan_layout_front compressor valid even small (turns + 2)).trans
    ((scan_next (turns + 1) turn).trans (scan_result turns (layoutTurn_end (Nat.le_refl _))))

/-- A file with fewer entries than the count of its index is not opened. -/
theorem open_cut (countSmall : 16 * count < 2 ^ 31) (cut : entries.length < count)
    (getIndex : Bool) (turns : Nat) :
    aviOpenInputFile (aviFile front hasIndex movi count entries) getIndex (turns + 4) =
      some (.error .read) := by
  obtain ⟨header, _, _⟩ := @aviFile_parts front hasIndex movi count entries compressor
  have riff : readAt (aviFile front hasIndex movi count entries) 0 12 = _ :=
    (parts_of_header compressor header).riff.read rfl
  have turn := @layoutTurn_index front hasIndex movi count entries compressor valid countSmall
  rw [if_pos cut] at turn
  have layout := (scan_layout_front compressor valid even small (turns + 1)).trans
    (scan_result turns turn)
  rw [aviOpenInputFile, riff, if_neg (riff_length _), if_neg (riff_tags _), layout]
  rfl

/-- A file is opened by its index where the first entry for a frame leads to it. -/
theorem open_indexed (counted : count = entries.length)
    (first : entries.find? (·.IsVideo) = some entry)
    (stands : readAt (aviFile front hasIndex movi count entries) entry.pos 8 =
      entry.tag ++ wordBytes entry.len) (turns : Nat) :
    ∃ audioBytes, aviOpenInputFile (aviFile front hasIndex movi count entries) true (turns + 8) =
      some (.ok ⟨aviFile front hasIndex movi count entries, headerBytes, front.info, headerBytes,
        some ((entries.filter (·.IsVideo)).map IndexEntry.video), audioBytes, 0⟩) := by
  obtain ⟨header, _, _⟩ := @aviFile_parts front hasIndex movi count entries compressor
  have riff : readAt (aviFile front hasIndex movi count entries) 0 12 = _ :=
    (parts_of_header compressor header).riff.read rfl
  have layout := scan_layout_indexed compressor valid even small counted (turns + 3)
  obtain ⟨headers, scanned, info, strh, strf⟩ := scan_headers front hasIndex compressor turns
  have kind := idxType_indexed valid first stands
    ⟨(aviFile front hasIndex movi count entries).length, some (front.hdrl hasIndex), headerBytes,
      some (entries.map IndexEntry.bytes)⟩
  have frame := List.find?_some first
  obtain ⟨audioBytes, arrays⟩ :=
    withIndex_indexed (aviFile front hasIndex movi count entries) front valid
    ⟨entry, List.mem_of_find?_eq_some first, of_decide_eq_true frame⟩
  have streams : ¬¬(headers.vidsStrhSeen = true ∧ headers.vidsStrfSeen = true) :=
    not_not.mpr ⟨strh, strf⟩
  refine ⟨audioBytes, ?_⟩
  rw [aviOpenInputFile, riff, if_neg (riff_length _), if_neg (riff_tags _)]
  simp only [Option.bind_eq_bind, layout, Option.bind_some, scanned, info, if_neg streams,
    not_true_eq_false, if_false, if_neg (show ¬headerBytes = 0 by decide), Option.elim_some, kind,
    Option.getD_some, arrays, Option.pure_def]

end Turns

/-! ### Reading a frame -/

/-- A frame is read under its number where its entry leads to it. -/
theorem readFrame_entry {reader : Reader} {file data : Bytes} {k : Nat}
    (opened : reader.file = file)
    (index : reader.videoIndex = some ((entries.filter (·.IsVideo)).map IndexEntry.video))
    (number : reader.videoPos = k) (found : (entries.filter (·.IsVideo))[k]? = some entry)
    (length : data.length = entry.len) (inside : entry.pos + 8 + entry.len < 2 ^ 31)
    (here : At file (entry.pos + 8) data) :
    ∃ pos, reader.readFrame = some ({ reader with pos := pos, videoPos := k + 1 },
      some (data, decide (entry.flags = 0x10))) := by
  have row : ((entries.filter (·.IsVideo)).map IndexEntry.video)[k]? =
      some ⟨entry.flags, ((entry.pos + 8 : Nat) : Int), (entry.len : Int)⟩ := by
    rw [List.getElem?_map, found, Option.map_some, IndexEntry.video, wordInt_mod (by omega)]
  have place : seekTo reader.pos ((entry.pos + 8 : Nat) : Int) = entry.pos + 8 :=
    seekTo_natCast (by omega)
  refine ⟨entry.pos + 8 + entry.len, ?_⟩
  rw [Reader.readFrame, index, number]
  simp only [row, if_neg (not_lt.mpr (Int.natCast_nonneg entry.len)), place,
    Int.toNat_natCast, opened, here.read length, length, ne_eq, not_true_eq_false, if_false]

end ExmOnvif.Avilib
