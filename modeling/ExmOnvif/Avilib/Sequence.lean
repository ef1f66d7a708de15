/-
This file proves what is read when the chunks of a file are read one after the other: from a chunk
on each of the chunks behind it, in the order in which they were written, and then the end.

A frame or a piece of sound comes with its padding, which is a byte that stood behind it in the
memory of the writer.
-/

import ExmOnvif.Avilib.RoundTrip

namespace ExmOnvif.Avilib

open Library

/-! ### The next chunk -/

section Next

variable {reader : Reader} {chunk : Chunk} {chunks : List Chunk} {maxVidbuf maxAudbuf : Int}

/-- What a chunk is read as, if it is one of the streams. -/
def delivery (info : Info) (maxVidbuf maxAudbuf : Int) (chunk : Chunk) : Option ReadData :=
  let n : Int := ((chunk.data.length + chunk.data.length % 2 : Nat) : Int)
  if isVideo info.videoTag chunk.tag then
    some (if n > maxVidbuf then .videoTooLong n else .video (chunk.data ++ chunk.pad))
  else if sameTag chunk.tag info.audioTag then
    some (if n > maxAudbuf then .audioTooLong n else .audio (chunk.data ++ chunk.pad))
  else none

/-- The reader behind a chunk. -/
def Reader.past (reader : Reader) (chunk : Chunk) : Reader :=
  { reader with
    pos := reader.pos + chunk.size
    videoPos := reader.videoPos + if isVideo reader.info.videoTag chunk.tag then 1 else 0 }

/-- A turn at a chunk: it is read, or passed over. -/
theorem readDataTurn_chunk (here : At reader.file reader.pos chunk.bytes)
    (noList : ¬sameTag chunk.tag (fourcc "LIST")) (inside : reader.pos + chunk.size < 2 ^ 31) :
    readDataTurn maxVidbuf maxAudbuf reader =
      (delivery reader.info maxVidbuf maxAudbuf chunk).elim (some (.inl (reader.past chunk)))
        fun data => some (.inr (reader.past chunk, data)) := by
  have four := chunk.tag_length
  have size : chunk.size = 8 + (chunk.data.length + chunk.data.length % 2) := rfl
  have content : (chunk.data ++ chunk.pad).length = chunk.data.length + chunk.data.length % 2 := by
    rw [List.length_append, chunk.pad_length]
  have data := (Chunk.at_data here).read content
  have padded : padEven (wordInt (wordOf (wordBytes chunk.data.length))) =
      ((chunk.data.length + chunk.data.length % 2 : Nat) : Int) := by
    rw [wordOf_wordBytes (by omega), wordInt_of_small (by omega), padEven_natCast]
  have behind : reader.pos + 8 + (chunk.data.length + chunk.data.length % 2) =
      reader.pos + chunk.size := by
    omega
  have seek : seekBy (reader.pos + 8) ((chunk.data.length + chunk.data.length % 2 : Nat) : Int) =
      reader.pos + chunk.size := by
    rw [seekBy_natCast (by omega), behind]
  have nonneg : ¬((chunk.data.length + chunk.data.length % 2 : Nat) : Int) < 0 := by omega
  rw [readDataTurn, Chunk.read_head here]
  simp only [front_length four, take_front four, drop_front four, ne_eq,
    not_true_eq_false, if_false, if_neg noList, padded, seek, if_neg nonneg, Int.toNat_natCast,
    data, content, if_true, delivery]
  by_cases video : isVideo reader.info.videoTag chunk.tag
  · by_cases long : ((chunk.data.length + chunk.data.length % 2 : Nat) : Int) > maxVidbuf
    · simp only [if_pos video, if_pos long, Option.elim_some, Reader.past]
    · simp only [if_pos video, if_neg long, Option.elim_some, Reader.past, behind]
  · by_cases audio : sameTag chunk.tag reader.info.audioTag
    · by_cases long : ((chunk.data.length + chunk.data.length % 2 : Nat) : Int) > maxAudbuf
      · simp only [if_neg video, if_pos audio, if_pos long, Option.elim_some, Reader.past,
          Nat.add_zero]
      · simp only [if_neg video, if_pos audio, if_neg long, Option.elim_some, Reader.past, behind,
          Nat.add_zero]
    · have seekable : Seekable (((reader.pos + 8 : Nat) : Int) +
          ((chunk.data.length + chunk.data.length % 2 : Nat) : Int)) := by
        unfold Seekable
        omega
      simp only [if_neg video, if_neg audio, if_neg (not_not.mpr seekable), Option.elim_none,
        Reader.past, Nat.add_zero]

/-- The reader stands in front of some chunks. -/
structure Reader.Before (reader : Reader) (chunks : List Chunk) : Prop where
  here : At reader.file reader.pos (chunksBytes chunks)
  noList : ∀ chunk ∈ chunks, ¬sameTag chunk.tag (fourcc "LIST")
  inside : reader.pos + (chunksBytes chunks).length < 2 ^ 31

theorem Reader.Before.past (before : reader.Before (chunk :: chunks)) :
    (reader.past chunk).Before chunks := by
  have place : reader.pos + (chunksBytes (chunk :: chunks)).length =
      reader.pos + chunk.size + (chunksBytes chunks).length := by
    rw [chunksBytes_cons, List.length_append, chunk.length_bytes, Nat.add_assoc]
  refine ⟨?_, fun other member => before.noList other (List.mem_cons_of_mem _ member), ?_⟩
  · have behind := before.here.right
    rwa [chunk.length_bytes] at behind
  · have inside := before.inside
    rwa [place] at inside

theorem Reader.Before.turn (before : reader.Before (chunk :: chunks)) :
    readDataTurn maxVidbuf maxAudbuf reader =
      (delivery reader.info maxVidbuf maxAudbuf chunk).elim (some (.inl (reader.past chunk)))
        fun data => some (.inr (reader.past chunk, data)) := by
  have inside := before.inside
  have length := chunk.length_bytes
  rw [chunksBytes_cons, List.length_append] at inside
  exact readDataTurn_chunk before.here.left (before.noList chunk List.mem_cons_self) (by omega)

/-! ### All of them -/

/-- The chunks that are read one after the other, a number of calls at most. -/
def Reader.readAll (maxVidbuf maxAudbuf : Int) (turns : Nat) : Nat → Reader → List ReadData
  | 0, _ => []
  | calls + 1, reader =>
    match reader.readData maxVidbuf maxAudbuf turns with
    | none => []
    | some (_, .atEnd) => [.atEnd]
    | some (next, data) => data :: readAll maxVidbuf maxAudbuf turns calls next

/-- Nothing more is read. -/
def Reader.Done (maxVidbuf maxAudbuf : Int) (reader : Reader) : Prop :=
  ∀ turns, ∃ next, reader.readData maxVidbuf maxAudbuf (turns + 2) = some (next, .atEnd)

theorem foldl_past (reader : Reader) (chunks : List Chunk) :
    (chunks.foldl Reader.past reader).file = reader.file ∧
      (chunks.foldl Reader.past reader).pos = reader.pos + (chunksBytes chunks).length ∧
      (chunks.foldl Reader.past reader).info = reader.info := by
  induction chunks generalizing reader with
  | nil => exact ⟨rfl, rfl, rfl⟩
  | cons chunk chunks inductionHypothesis =>
    obtain ⟨file, pos, info⟩ := inductionHypothesis (reader.past chunk)
    refine ⟨file, pos.trans ?_, info⟩
    rw [chunksBytes_cons, List.length_append, chunk.length_bytes, ← Nat.add_assoc]
    rfl

theorem delivery_ne_atEnd {info : Info} {data : ReadData}
    (read : delivery info maxVidbuf maxAudbuf chunk = some data) : data ≠ .atEnd := by
  simp only [delivery] at read
  rintro rfl
  split at read
  · split at read <;> cases read
  · split at read
    · split at read <;> cases read
    · cases read

/-- Chunks of no stream are passed over. -/
theorem Reader.Before.scan_skipped {others : List Chunk} (before : reader.Before (chunks ++ others))
    (skipped : ∀ chunk ∈ chunks, delivery reader.info maxVidbuf maxAudbuf chunk = none)
    (turns : Nat) :
    scan (readDataTurn maxVidbuf maxAudbuf) (chunks.length + turns) reader =
        scan (readDataTurn maxVidbuf maxAudbuf) turns (chunks.foldl Reader.past reader) ∧
      (chunks.foldl Reader.past reader).Before others ∧
        (chunks.foldl Reader.past reader).info = reader.info := by
  have scanned := @scan_items Reader (Reader × ReadData) Chunk (readDataTurn maxVidbuf maxAudbuf)
    (fun state items => state.Before (items ++ others) ∧ state.info = reader.info ∧
      ∀ chunk ∈ items, delivery reader.info maxVidbuf maxAudbuf chunk = none)
    Reader.past ?_ chunks reader ⟨before, rfl, skipped⟩ turns
  · exact ⟨scanned.1, scanned.2.1, scanned.2.2.1⟩
  · intro state chunk items ⟨ready, same, unread⟩
    have turn := @turn _ _ _ maxVidbuf maxAudbuf ready
    rw [same, unread chunk List.mem_cons_self] at turn
    exact ⟨turn, ready.past, same,
      fun other member => unread other (List.mem_cons_of_mem _ member)⟩

/-- The next chunk of a stream is read, behind those of none. -/
theorem Reader.Before.readData_next {skipped rest : List Chunk} {data : ReadData} {turns : Nat}
    (before : reader.Before (skipped ++ chunk :: rest))
    (unread : ∀ chunk ∈ skipped, delivery reader.info maxVidbuf maxAudbuf chunk = none)
    (read : delivery reader.info maxVidbuf maxAudbuf chunk = some data)
    (enough : skipped.length < turns) :
    reader.readData maxVidbuf maxAudbuf turns =
        some ((skipped.foldl Reader.past reader).past chunk, data) ∧
      ((skipped.foldl Reader.past reader).past chunk).Before rest := by
  obtain ⟨scanned, there, same⟩ := before.scan_skipped unread (turns - skipped.length)
  have turn := @Reader.Before.turn _ _ _ maxVidbuf maxAudbuf there
  rw [same, read] at turn
  have result := scan_result (turns - skipped.length - 1) turn
  rw [Nat.sub_add_cancel (by omega)] at result
  rw [Nat.add_sub_cancel' (by omega)] at scanned
  exact ⟨scanned.trans result, there.past⟩

/-- From some chunks on, those of the streams are read in order, and then the end. -/
theorem readAll_chunks (before : reader.Before chunks) {turns : Nat}
    (enough : chunks.length + 2 ≤ turns)
    (done : ∀ last : Reader, last.file = reader.file →
      last.pos = reader.pos + (chunksBytes chunks).length → last.Done maxVidbuf maxAudbuf)
    (calls : Nat) :
    reader.readAll maxVidbuf maxAudbuf turns calls =
      (chunks.filterMap (delivery reader.info maxVidbuf maxAudbuf) ++
          [ReadData.atEnd]).take calls := by
  induction calls generalizing reader chunks with
  | zero => rfl
  | succ calls inductionHypothesis =>
    rw [Reader.readAll]
    cases delivered : chunks.filterMap (delivery reader.info maxVidbuf maxAudbuf) with
    | nil =>
      have skipped := List.filterMap_eq_nil_iff.mp delivered
      rw [← List.append_nil chunks] at before
      have scanned := (before.scan_skipped skipped (turns - chunks.length)).1
      obtain ⟨file, pos, _⟩ := foldl_past reader chunks
      obtain ⟨next, ended⟩ := done _ file pos (turns - chunks.length - 2)
      rw [Nat.sub_add_cancel (by omega)] at ended
      rw [Nat.add_sub_cancel' (by omega)] at scanned
      rw [Reader.readData, scanned, ← Reader.readData, ended, List.nil_append, List.take_succ_cons,
        List.take_nil]
    | cons data others =>
      obtain ⟨skipped, chunk, rest, rfl, unread, read, rfl⟩ :=
        List.filterMap_eq_cons_iff.mp delivered
      have length := @List.length_append _ skipped (chunk :: rest)
      rw [List.length_cons] at length
      obtain ⟨result, there⟩ :=
        before.readData_next unread read (show skipped.length < turns by omega)
      obtain ⟨file, pos, info⟩ := foldl_past reader skipped
      have placed : (chunksBytes (skipped ++ chunk :: rest)).length =
          (chunksBytes skipped).length + (chunk.size + (chunksBytes rest).length) := by
        rw [chunksBytes_append, chunksBytes_cons, List.length_append, List.length_append,
          chunk.length_bytes]
      have further : ((skipped.foldl Reader.past reader).past chunk).pos =
        reader.pos + (chunksBytes skipped).length + chunk.size := congrArg (· + chunk.size) pos
      have behind := inductionHypothesis there (by omega) fun last sameFile samePos =>
        done last (sameFile.trans file) (by rw [samePos, further, placed]; omega)
      have sameInfo : ((skipped.foldl Reader.past reader).past chunk).info = reader.info := info
      rw [sameInfo] at behind
      rw [result, List.cons_append, List.take_succ_cons, ← behind]
      have going := delivery_ne_atEnd read
      cases data with
      | atEnd => exact absurd rfl going
      | video data => rfl
      | audio data => rfl
      | videoTooLong length => rfl
      | audioTooLong length => rfl

end Next

/-! ### A recording -/

section Recorded

variable {front : Avi} {hasIndex : Bool} {entered : List Call} {maxVidbuf maxAudbuf : Int}

/-- The index is no chunk of a stream. -/
theorem no_stream_index (info : Info) : ¬isVideo info.videoTag (fourcc "idx1") ∧
    ¬sameTag (fourcc "idx1") info.audioTag := by
  refine ⟨fun same => ?_, fun same => ?_⟩
  · have third : tolower 120 = tolower 100 := congrArg (fun tag : Bytes => tag.getD 2 0) same
    exact absurd third (by decide)
  · have third : tolower 120 = tolower 119 := congrArg (fun tag : Bytes => tag.getD 2 0) same
    exact absurd third (by decide)

/-- At the index nothing more is read. -/
theorem done_at_index (compressor : front.media.compressor.length = 4)
    (small : (recorded front hasIndex entered).length < 2 ^ 31) {last : Reader}
    (opened : last.file = recorded front hasIndex entered)
    (place : last.pos = headerBytes + (chunksBytes (chunksOf entered)).length) :
    last.Done maxVidbuf maxAudbuf := by
  intro turns
  obtain ⟨noVideo, noAudio⟩ := no_stream_index last.info
  have length := @length_recorded front hasIndex entered compressor
  have index : At last.file last.pos
      (indexOf entered.length (entriesFrom headerBytes entered)) := by
    rw [opened, place]
    exact (aviFile_parts compressor).2.2
  have four : (fourcc "idx1").length = 4 := rfl
  have noList : ¬sameTag (fourcc "idx1") (fourcc "LIST") := by decide
  have size : padEven (wordInt (wordOf (wordBytes (16 * entered.length)))) =
      ((16 * entered.length : Nat) : Int) := by
    rw [wordOf_wordBytes (by omega), wordInt_of_small (by omega), padEven_natCast]
    omega
  have seekable : Seekable
      (((last.pos + 8 : Nat) : Int) + ((16 * entered.length : Nat) : Int)) := by
    unfold Seekable
    omega
  have behind : seekBy (last.pos + 8) ((16 * entered.length : Nat) : Int) = last.file.length := by
    rw [seekBy_natCast (by omega), opened, length]
    omega
  have passed : readDataTurn maxVidbuf maxAudbuf last =
      some (.inl { last with pos := last.file.length }) := by
    rw [readDataTurn, read_front index four]
    simp only [front_length four, take_front four, drop_front four, ne_eq,
      not_true_eq_false, if_false, if_neg noList, if_neg noVideo, if_neg noAudio, size,
      if_neg (not_not.mpr seekable), behind]
  have ended : readDataTurn maxVidbuf maxAudbuf { last with pos := last.file.length } =
      some (.inr ({ last with pos := last.file.length }, .atEnd)) := by
    rw [readDataTurn, readAt_behind (Nat.le_refl _)]
    rfl
  exact ⟨_, (scan_next (turns + 1) passed).trans (scan_result turns ended)⟩

/-- What a call that came through is read as. Without a channel the sound is passed over. -/
def Call.delivered (media : Media) (maxVidbuf maxAudbuf : Int) (call : Call) : Option ReadData :=
  let n : Int := ((call.item.data.length + call.item.data.length % 2 : Nat) : Int)
  let data := call.item.data ++ padding call.item.data call.behind
  if call.IsVideo then some (if n > maxVidbuf then .videoTooLong n else .video data)
  else if media.aChans ≠ 0 then some (if n > maxAudbuf then .audioTooLong n else .audio data)
  else none

/-- What some calls are read as, and the end. -/
def deliveries (media : Media) (maxVidbuf maxAudbuf : Int) (calls : List Call) : List ReadData :=
  (calls.filter (·.Whole)).filterMap (Call.delivered media maxVidbuf maxAudbuf) ++ [.atEnd]

theorem delivery_chunk (chans : front.media.aChans < 2 ^ 16) (call : Call) :
    delivery front.info maxVidbuf maxAudbuf call.chunk =
      call.delivered front.media maxVidbuf maxAudbuf := by
  have tag : call.chunk.tag = call.item.tag := rfl
  have data : call.chunk.data = call.item.data := rfl
  have pad : call.chunk.pad = padding call.item.data call.behind := rfl
  have videoTag : front.info.videoTag = streamTag 0 [100, 98] := rfl
  have audioTag : front.info.audioTag =
      if front.media.aChans ≠ 0 then streamTag 1 [119, 98] else streamTag 99 [119, 98] := by
    by_cases sound : front.media.aChans ≠ 0
    · rw [audioTag_of_sound sound chans, if_pos sound]
    · have none : front.info.aChans = 0 := if_neg sound
      rw [Info.audioTag, none, if_pos rfl, if_neg sound]
  simp only [delivery, Call.delivered, tag, data, pad, videoTag, audioTag, Call.IsVideo]
  rcases tag_of_item call.item with video | audio
  · have same : isVideo (streamTag 0 [100, 98]) (fourcc "00dc") := by decide
    simp only [video, if_pos same, if_true]
  · have other : ¬isVideo (streamTag 0 [100, 98]) (fourcc "01wb") := by decide
    have noVideo : ¬fourcc "01wb" = fourcc "00dc" := by decide
    by_cases sound : front.media.aChans ≠ 0
    · have same : sameTag (fourcc "01wb") (streamTag 1 [119, 98]) := by decide
      simp only [audio, if_neg other, if_neg noVideo, if_pos sound, if_pos same]
    · have silent : ¬sameTag (fourcc "01wb") (streamTag 99 [119, 98]) := by decide
      simp only [audio, if_neg other, if_neg noVideo, if_neg sound, if_neg silent]

/-- The reader at the chunk of a frame, as `playback_openfile` sets `video_pos` and the place in the
file for playing from there. -/
def Reader.seekFrame (reader : Reader) (k : Nat) : Reader :=
  { reader with
    pos := seekTo reader.pos (((reader.videoIndex.getD []).getD k ⟨0, 8, 0⟩).pos - 8)
    videoPos := k }

/-- The entry of a frame is that for the place behind the chunks that were written in front of
it. -/
theorem entry_of_split {before rest : List Call} {frame : Call}
    (split : entered = before ++ frame :: rest)
    (video : frame.IsVideo) :
    (((entriesFrom headerBytes entered).filter (·.IsVideo)).map
        IndexEntry.video)[(before.filter (·.IsVideo)).length]? =
      some (frame.entry (headerBytes + (chunksBytes (chunksOf before)).length)).video := by
  have count : (((entriesFrom headerBytes before).filter (·.IsVideo)).map IndexEntry.video).length =
      (before.filter (·.IsVideo)).length := by
    rw [List.length_map, length_filter_entriesFrom]
  have frameEntry : (frame.entry (headerBytes + (chunksBytes (chunksOf before)).length)).IsVideo :=
    video
  rw [split, entriesFrom_append, List.filter_append, List.map_append,
    List.getElem?_append_right (Nat.le_of_eq count), count, Nat.sub_self, entriesFrom,
    List.filter_cons, if_pos (decide_eq_true frameEntry), List.map_cons, List.getElem?_cons_zero]

/-- There the reader is set for playing from a frame. -/
theorem seekFrame_pos {reader : Reader} {before rest : List Call} {frame : Call}
    (compressor : front.media.compressor.length = 4)
    (small : (recorded front hasIndex entered).length < 2 ^ 31)
    (index : reader.videoIndex =
      some (((entriesFrom headerBytes entered).filter (·.IsVideo)).map IndexEntry.video))
    (split : entered = before ++ frame :: rest) (video : frame.IsVideo) :
    (reader.seekFrame (before.filter (·.IsVideo)).length).pos =
      headerBytes + (chunksBytes (chunksOf before)).length := by
  have length := @length_recorded front hasIndex entered compressor
  have behind : (chunksBytes (chunksOf before)).length ≤
      (chunksBytes (chunksOf entered)).length := by
    rw [split, chunksOf_append, chunksBytes_append, List.length_append]
    exact Nat.le_add_right _ _
  have place : (((headerBytes + (chunksBytes (chunksOf before)).length + 8 : Nat) : Int) - 8) =
      ((headerBytes + (chunksBytes (chunksOf before)).length : Nat) : Int) := by omega
  rw [Reader.seekFrame, index, Option.getD_some, List.getD_eq_getElem?_getD,
    entry_of_split split video, Option.getD_some]
  exact (congrArg (seekTo reader.pos) place).trans (seekTo_natCast (by omega))

/-- Between the chunks the reader stands in front of those that were written then. -/
theorem before_recorded {reader : Reader} {before rest : List Call}
    (compressor : front.media.compressor.length = 4)
    (small : (recorded front hasIndex entered).length < 2 ^ 31)
    (opened : reader.file = recorded front hasIndex entered) (split : entered = before ++ rest)
    (place : reader.pos = headerBytes + (chunksBytes (chunksOf before)).length) :
    reader.Before (chunksOf rest) := by
  have length := @length_recorded front hasIndex entered compressor
  have all : (chunksBytes (chunksOf entered)).length =
      (chunksBytes (chunksOf before)).length + (chunksBytes (chunksOf rest)).length := by
    rw [split, chunksOf_append, chunksBytes_append, List.length_append]
  have here : At reader.file reader.pos (chunksBytes (chunksOf rest)) := by
    have chunks := @at_recorded front hasIndex entered compressor
    rw [split, chunksOf_append, chunksBytes_append, ← split] at chunks
    rw [opened, place]
    exact chunks.right
  have noList : ∀ chunk ∈ chunksOf rest, ¬sameTag chunk.tag (fourcc "LIST") := by
    intro chunk member
    obtain ⟨call, _, rfl⟩ := List.mem_map.mp member
    have tag : call.chunk.tag = call.item.tag := rfl
    rw [tag]
    rcases tag_of_item call.item with video | audio
    · rw [video]
      decide
    · rw [audio]
      decide
  exact ⟨here, noList, by omega⟩

/-- From a place between the chunks on, what came through is read in order. -/
theorem readAll_recorded {reader : Reader} {before rest : List Call} {turns : Nat}
    (compressor : front.media.compressor.length = 4) (chans : front.media.aChans < 2 ^ 16)
    (small : (recorded front hasIndex entered).length < 2 ^ 31)
    (opened : reader.file = recorded front hasIndex entered) (info : reader.info = front.info)
    (split : entered = before ++ rest)
    (place : reader.pos = headerBytes + (chunksBytes (chunksOf before)).length)
    (enough : rest.length + 2 ≤ turns) (calls : Nat) :
    reader.readAll maxVidbuf maxAudbuf turns calls =
      (deliveries front.media maxVidbuf maxAudbuf rest).take calls := by
  have length := @length_recorded front hasIndex entered compressor
  have all : (chunksBytes (chunksOf entered)).length =
      (chunksBytes (chunksOf before)).length + (chunksBytes (chunksOf rest)).length := by
    rw [split, chunksOf_append, chunksBytes_append, List.length_append]
  have fewer : (chunksOf rest).length ≤ rest.length := by
    rw [chunksOf, List.length_map]
    exact List.length_filter_le _ _
  have read := @readAll_chunks reader (chunksOf rest) maxVidbuf maxAudbuf
    (before_recorded compressor small opened split place) turns (by omega)
    (fun last sameFile samePos =>
      done_at_index compressor small (sameFile.trans opened) (by omega)) calls
  rw [read, info, chunksOf, List.filterMap_map]
  have same : delivery front.info maxVidbuf maxAudbuf ∘ Call.chunk =
      Call.delivered front.media maxVidbuf maxAudbuf := funext fun call => delivery_chunk chans call
  rw [same, deliveries]

end Recorded

/-- A recording in which no chunk was written with bytes too many is played in order. It is opened
where its first frame came through, and then all that came through is read in the order in which it
was written, and the end behind it: from the start, or from any frame on, also one that did not come
through. -/
theorem read_in_order {media : Media} {old : Bytes} {fpIdx : Bool} {calls : List Call} {call : Call}
    (compressor : media.compressor.length = 4)
    (clean : ∀ call ∈ (aviOpenOutputFile old fpIdx media).entered calls, call.Clean)
    (chans : media.aChans < 2 ^ 16)
    (small : ((aviOpenOutputFile old fpIdx media).run calls).close.length < 2 ^ 31)
    (first : ((aviOpenOutputFile old fpIdx media).entered calls).find? (·.IsVideo) = some call)
    (whole : call.Whole) (turns : Nat) (maxVidbuf maxAudbuf : Int) :
    ∃ reader, aviOpenInputFile ((aviOpenOutputFile old fpIdx media).run calls).close true
        (turns + 8) = some (.ok reader) ∧
      (∀ turns reads, ((aviOpenOutputFile old fpIdx media).entered calls).length + 2 ≤ turns →
        reader.readAll maxVidbuf maxAudbuf turns reads =
          (deliveries media maxVidbuf maxAudbuf
            ((aviOpenOutputFile old fpIdx media).entered calls)).take reads) ∧
      ∀ before frame rest turns reads,
        (aviOpenOutputFile old fpIdx media).entered calls = before ++ frame :: rest →
        frame.IsVideo → rest.length + 3 ≤ turns →
        (reader.seekFrame (before.filter (·.IsVideo)).length).readAll maxVidbuf maxAudbuf
          turns reads =
          (deliveries media maxVidbuf maxAudbuf (frame :: rest)).take reads := by
  obtain ⟨front, hasIndex, rfl, closed⟩ := close_recorded compressor old fpIdx clean
  rw [closed] at small ⊢
  obtain ⟨audioBytes, opened⟩ := open_recorded compressor small first whole turns
  refine ⟨_, opened, fun turns reads enough => ?_,
    fun before frame rest turns reads split video enough => ?_⟩
  · exact @readAll_recorded front hasIndex _ maxVidbuf maxAudbuf _ [] _ turns compressor chans small
      rfl rfl rfl rfl enough reads
  · exact readAll_recorded compressor chans small rfl rfl split
      (seekFrame_pos compressor small rfl split video) enough reads

theorem read_in_order_recording :
    let media : Media := ⟨704, 576, 25, fourcc "H264", 1, 1, 8000, 16⟩
    let calls : List Call := [⟨.audio [1, 2, 3], 7, .whole⟩, ⟨.video [4, 5] true, 0, .whole⟩,
      ⟨.video [6, 7, 8] false, 0, .broken [48]⟩, ⟨.video [9] false, 0, .whole⟩]
    let start := aviOpenOutputFile [] false media
    ∃ reader, aviOpenInputFile (start.run calls).close true 8 = some (.ok reader) ∧
      (∀ turns reads, (start.entered calls).length + 2 ≤ turns →
        reader.readAll 100 100 turns reads =
          (deliveries media 100 100 (start.entered calls)).take reads) ∧
      ∀ before frame rest turns reads, start.entered calls = before ++ frame :: rest →
        frame.IsVideo → rest.length + 3 ≤ turns →
        (reader.seekFrame (before.filter (·.IsVideo)).length).readAll 100 100 turns reads =
          (deliveries media 100 100 (frame :: rest)).take reads :=
  @read_in_order _ _ _ _ ⟨.video [4, 5] true, 0, .whole⟩ rfl (by decide) (by decide)
    (by rw [length_close rfl] <;> decide) rfl rfl 0 100 100

end ExmOnvif.Avilib
