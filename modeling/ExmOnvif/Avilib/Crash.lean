/-
This file proves what becomes of a recording that ends while a chunk is written, and is repaired.

The chunks that came through keep their frames, in which nothing is a key frame any more. The chunk
that was cut is counted if its head was written. If it is a frame without its first four bytes, the
count is one too large, and the file cannot be opened again.
-/

import ExmOnvif.Avilib.Repair

namespace ExmOnvif.Avilib

open Library

/-! ### The file that is left -/

/-- A recording that has begun: its first header is written. -/
def begun (fpIdx : Bool) (media : Media) : Avi :=
  (aviOpenOutputFile [] fpIdx media).fixHeader false

section Crash

variable {media : Media} {fpIdx : Bool} {calls : List Call} {last : Call} {reached : Bytes}

theorem begun_file (compressor : media.compressor.length = 4) :
    (begun fpIdx media).file = (aviOpenOutputFile [] fpIdx media).header 4 false := by
  have length := @length_header (aviOpenOutputFile [] fpIdx media) compressor 4 false
  have old : (aviOpenOutputFile [] fpIdx media).file.length = headerBytes := by
    have longer := length_writeAt (List.replicate headerBytes (0 : UInt8)) (Nat.zero_le [].length)
    rw [List.length_replicate, Nat.zero_add, List.length_nil, Nat.zero_max] at longer
    exact longer
  have pos : (aviOpenOutputFile [] fpIdx media).pos - headerBytes + 4 = 4 := by
    rw [show (aviOpenOutputFile [] fpIdx media).pos = headerBytes from rfl, Nat.sub_self]
  simp only [begun, Avi.fixHeader, Bool.false_and, Bool.false_eq_true, if_false, pos]
  exact writeAt_over (Nat.le_of_eq (old.trans length.symm))

/-- While all comes through, nothing stands behind the chunks. -/
theorem run_whole {avi : Avi} (there : avi.offset = avi.pos) (ends : avi.file.length = avi.pos)
    (whole : ∀ call ∈ calls, call.Whole) :
    (avi.run calls).offset = (avi.run calls).pos ∧
      (avi.run calls).file.length = (avi.run calls).pos := by
  induction calls generalizing avi with
  | nil => exact ⟨there, ends⟩
  | cons call calls inductionHypothesis =>
    have kept : (avi.write call.item call.behind call.reach).1.offset =
          (avi.write call.item call.behind call.reach).1.pos ∧
        (avi.write call.item call.behind call.reach).1.file.length =
          (avi.write call.item call.behind call.reach).1.pos := by
      by_cases room : avi.Room call.item.data.length
      · have came := whole call List.mem_cons_self
        obtain ⟨media, file, pos, offset, nIdx, idx, fpIdx, videoFrames, audioBytes⟩ := avi
        obtain rfl : offset = pos := there
        have length : file.length = offset := ends
        obtain ⟨item, behind, reach⟩ := call
        cases came
        have longer := length_writeAt (item.chunk behind).bytes (Nat.le_of_eq length.symm)
        rw [Chunk.length_bytes, length, Nat.max_eq_right (Nat.le_add_right _ _)] at longer
        rw [Avi.write, Avi.writeData, if_neg (not_not.mpr room)]
        cases item <;> exact ⟨rfl, longer⟩
      · rw [write_of_full room]
        exact ⟨there, ends⟩
    exact inductionHypothesis kept.1 kept.2 fun other member =>
      whole other (List.mem_cons_of_mem _ member)

/-- There is room as long as the file stays small. -/
theorem entered_of_small {avi : Avi} (there : avi.offset = avi.pos)
    (reached : avi.pos ≤ avi.file.length) (clean : ∀ call ∈ calls, call.Clean)
    (small : avi.pos + (chunksBytes (calls.map Call.chunk)).length +
      16 * (avi.nIdx + calls.length) + 8 ≤
      aviMaxLen) : avi.entered calls = calls := by
  induction calls generalizing avi with
  | nil => rfl
  | cons call calls inductionHypothesis =>
    have size : call.chunk.size =
      8 + (call.item.data.length + call.item.data.length % 2) := rfl
    have max : aviMaxLen < 2 ^ 32 := by decide
    rw [List.map_cons, chunksBytes_cons, List.length_append, call.chunk.length_bytes,
      List.length_cons] at small
    have room : avi.Room call.item.data.length := by
      unfold Avi.Room
      rw [Nat.mod_eq_of_lt (by omega)]
      omega
    have laid := @laid_write avi call there reached room (clean call List.mem_cons_self)
    have grown := length_chunksBytes_call call
    have growth : call.growth ≤ call.chunk.size := by
      rw [Call.growth]
      split <;> omega
    have pos := laid.pos
    have count := laid.nIdx
    rw [List.length_singleton] at count
    rw [Avi.entered, if_pos room, inductionHypothesis laid.offset laid.reached
      (fun other member => clean other (List.mem_cons_of_mem _ member)) (by omega)]
    rfl

/-- What is left when the recording ends while a chunk is written. -/
theorem crash_file (compressor : media.compressor.length = 4) (whole : ∀ call ∈ calls, call.Whole)
    (cut : last.reach = .broken reached)
    (small : headerBytes + (chunksBytes (chunksOf calls)).length + last.chunk.size +
      16 * (calls.length + 1) + 8 ≤ aviMaxLen) :
    ((begun fpIdx media).run (calls ++ [last])).file =
      interrupted (aviOpenOutputFile [] fpIdx media) (chunksBytes (chunksOf calls) ++ reached) := by
  have header := @begun_file media fpIdx compressor
  have length := @length_header (aviOpenOutputFile [] fpIdx media) compressor 4 false
  have start : (begun fpIdx media).file.length = (begun fpIdx media).pos := by
    rw [header, length]
    rfl
  have there : (begun fpIdx media).offset = (begun fpIdx media).pos := rfl
  have clean : ∀ call ∈ calls, call.Clean := fun call member => (whole call member).clean
  have count : (begun fpIdx media).nIdx = 0 := rfl
  have pos : (begun fpIdx media).pos = headerBytes := rfl
  have size : last.chunk.size = 8 + (last.item.data.length + last.item.data.length % 2) := rfl
  have max : aviMaxLen < 2 ^ 32 := by decide
  have entered : (begun fpIdx media).entered calls = calls := by
    refine entered_of_small there (Nat.le_of_eq start.symm) clean ?_
    rw [← chunksOf_whole whole, count, pos]
    omega
  have laid := laid_run there (Nat.le_of_eq start.symm) calls (by rwa [entered])
  have place := laid.pos
  have number := laid.nIdx
  rw [entered] at place number
  have room : ((begun fpIdx media).run calls).Room last.item.data.length := by
    unfold Avi.Room
    rw [Nat.mod_eq_of_lt (by omega)]
    omega
  obtain ⟨stands, ended⟩ := run_whole there start whole
  have file := laid.file
  rw [← ended, List.take_length, entered, ← start, List.take_length, header] at file
  have run : (begun fpIdx media).run (calls ++ [last]) =
      (((begun fpIdx media).run calls).write last.item last.behind last.reach).1 := by
    rw [Avi.run, List.foldl_append]
    rfl
  rw [run, cut, Avi.write, Avi.writeData, if_neg (not_not.mpr room)]
  show writeAt ((begun fpIdx media).run calls).file
    ((begun fpIdx media).run calls).offset reached = _
  rw [stands, ← ended, writeAt_end, file, List.append_assoc]
  rfl

/-! ### The heads -/

/-- The chunks of which the head is in the file. -/
def headsOf (calls : List Call) (last : Call) (reached : Bytes) : List Chunk :=
  chunksOf calls ++ if 8 ≤ reached.length then [last.chunk] else []

theorem head_begins (chunk : Chunk) : chunk.tag ++ wordBytes chunk.data.length <+: chunk.bytes := by
  rw [Chunk.bytes, ← List.append_assoc]
  exact List.prefix_append _ _

/-- They are what is found in the file. -/
theorem heads_of_crash {front : Avi} (compressor : front.media.compressor.length = 4)
    (reach : reached <+: last.chunk.bytes) (cut : reached.length < last.chunk.size)
    (small : headerBytes + (chunksBytes (chunksOf calls)).length + last.chunk.size < 2 ^ 31) :
    Heads (interrupted front (chunksBytes (chunksOf calls) ++ reached)) headerBytes
      (headsOf calls last reached) := by
  have length := length_header compressor 4 false
  have whole := at_start (interrupted front (chunksBytes (chunksOf calls) ++ reached))
  have chunks := whole.right
  rw [length, Nat.zero_add] at chunks
  have tags : ∀ chunk ∈ headsOf calls last reached,
      chunk.tag = fourcc "00dc" ∨ chunk.tag = fourcc "01wb" := by
    intro chunk member
    rcases List.mem_append.mp member with came | torn
    · obtain ⟨call, _, rfl⟩ := List.mem_map.mp came
      exact tag_of_item call.item
    · split at torn
      · rw [List.mem_singleton.mp torn]
        exact tag_of_item last.item
      · cases torn
  have fileLength : (interrupted front (chunksBytes (chunksOf calls) ++ reached)).length =
      headerBytes + ((chunksBytes (chunksOf calls)).length + reached.length) := by
    rw [interrupted, List.length_append, List.length_append, length]
  by_cases long : 8 ≤ reached.length
  · have all : headsOf calls last reached = chunksOf calls ++ [last.chunk] := by
      rw [headsOf, if_pos long]
    have bytes : (chunksBytes (headsOf calls last reached)).length =
        (chunksBytes (chunksOf calls)).length + last.chunk.size := by
      rw [all, chunksBytes_append, List.length_append]
      exact congrArg _ ((congrArg List.length (List.append_nil _)).trans last.chunk.length_bytes)
    refine ⟨fun place chunk member => ?_, tags, by omega, by omega⟩
    rw [all, places_append] at member
    rcases List.mem_append.mp member with came | torn
    · exact (at_of_mem_places chunks.left came).shorter (head_begins chunk)
    · obtain ⟨rfl, rfl⟩ := Prod.mk.inj (List.mem_singleton.mp torn)
      refine chunks.right.shorter (List.prefix_of_prefix_length_le (head_begins _) reach ?_)
      rw [List.length_append, last.chunk.tag_length, wordBytes_length]
      exact long
  · have all : headsOf calls last reached = chunksOf calls := by
      rw [headsOf, if_neg long, List.append_nil]
    rw [all] at tags ⊢
    refine ⟨fun place chunk member => ?_, tags, by omega, by omega⟩
    exact (at_of_mem_places chunks.left member).shorter (head_begins chunk)

/-- Where the sound has a channel, the chunks are those of the streams. -/
theorem streams_of_crash {front : Avi} (chans : front.media.aChans < 2 ^ 16)
    (sound : ∀ call ∈ calls ++ [last], ¬call.IsVideo → front.media.aChans ≠ 0) :
    Streams front.info (headsOf calls last reached) := by
  refine ⟨rfl, fun chunk member audio => ?_⟩
  have channel : front.media.aChans ≠ 0 := by
    have noVideo : ¬fourcc "01wb" = fourcc "00dc" := by decide
    rcases List.mem_append.mp member with came | torn
    · obtain ⟨call, from_calls, rfl⟩ := List.mem_map.mp came
      refine sound call (List.mem_append_left _ (List.mem_of_mem_filter from_calls)) fun video => ?_
      exact noVideo (audio.symm.trans video)
    · split at torn
      · rw [List.mem_singleton.mp torn] at audio
        exact sound last (List.mem_append_right _ List.mem_cons_self) fun video =>
          noVideo (audio.symm.trans video)
      · cases torn
  rw [audio, audioTag_of_sound channel chans]
  decide

/-- Where all came through, the chunks are at the places of the calls. -/
theorem places_chunksOf (pos : Nat) (whole : ∀ call ∈ calls, call.Whole) :
    places pos (chunksOf calls) = (placed pos calls).map fun (place, call) =>
        (place, call.chunk) := by
  induction calls generalizing pos with
  | nil => rfl
  | cons call calls inductionHypothesis =>
    have came := whole call List.mem_cons_self
    have growth : call.growth = call.chunk.size := if_pos came
    rw [chunksOf_cons, if_pos came, List.singleton_append, places, placed, List.map_cons, growth,
      inductionHypothesis _ fun other member => whole other (List.mem_cons_of_mem _ member)]

/-- A recording that ended while a chunk was written is repaired. If the length of its first frame
is even, it can be opened then if and only if every frame has its first four bytes in the file; and
every frame that came through is read under its number, with its padding, and as none that is a key
frame. -/
theorem repair_after_crash {first : Chunk} (compressor : media.compressor.length = 4)
    (chans : media.aChans < 2 ^ 16)
    (sound : ∀ call ∈ calls ++ [last], ¬call.IsVideo → media.aChans ≠ 0)
    (whole : ∀ call ∈ calls, call.Whole) (torn : last.reach = .broken reached)
    (reach : reached <+: last.chunk.bytes) (cut : reached.length < last.chunk.size)
    (small : headerBytes + (chunksBytes (chunksOf calls)).length + last.chunk.size +
      16 * (calls.length + 1) + 9 < 2 ^ 31)
    (found : (headsOf calls last reached).find? (·.tag = fourcc "00dc") = some first)
    (even : first.data.length % 2 = 0) (turns : Nat) : ∃ repaired,
    aviFixBadFile ((begun fpIdx media).run (calls ++ [last])).file
        ((headsOf calls last reached).length + (turns + 8)) =
      some (repaired, seconds (videosOf (headsOf calls last reached))
        (wordInt (frate media.fps % 2 ^ 32) / 10000)) ∧
      ((∃ reader, aviOpenInputFile repaired true (turns + 8) = some (.ok reader)) ↔
        Flagged ((begun fpIdx media).run (calls ++ [last])).file headerBytes
          (headsOf calls last reached)) ∧
      ∀ reader, aviOpenInputFile repaired true (turns + 8) = some (.ok reader) →
        reader.videoFrames = videosOf (headsOf calls last reached) ∧
        ∀ k frame there, (calls.filter (·.IsVideo))[k]? = some frame →
          ∃ pos, { reader with pos := there, videoPos := k }.readFrame =
            some ({ reader with pos := pos, videoPos := k + 1 },
              some (frame.item.data ++ padding frame.item.data frame.behind, false)) := by
  have max : 2 ^ 31 ≤ aviMaxLen := by decide
  have file := @crash_file media fpIdx calls last reached compressor whole torn (by omega)
  have heads := @heads_of_crash calls last reached
    (aviOpenOutputFile [] fpIdx media) compressor reach cut
    (by omega)
  have streams := @streams_of_crash calls last reached
    (aviOpenOutputFile [] fpIdx media) chans sound
  have length : (interrupted (aviOpenOutputFile [] fpIdx media)
      (chunksBytes (chunksOf calls) ++ reached)).length =
      headerBytes + ((chunksBytes (chunksOf calls)).length + reached.length) := by
    rw [interrupted, List.length_append, List.length_append, length_header compressor]
  have count : (headsOf calls last reached).length ≤ calls.length + 1 := by
    rw [headsOf, chunksOf_whole whole, List.length_append, List.length_map]
    split
    · exact Nat.le_refl _
    · exact Nat.le_succ _
  rw [file]
  obtain ⟨repaired, fixed, opens, reads⟩ :=
    repaired_iff compressor heads streams (by omega) found even turns
  refine ⟨repaired, fixed, opens, fun reader opened => ?_⟩
  obtain ⟨frames, each⟩ := reads reader opened
  refine ⟨frames, fun k frame there kth => ?_⟩
  rw [← placed_filter_snd headerBytes calls, List.getElem?_map] at kth
  obtain ⟨⟨place, call⟩, found, rfl⟩ := Option.map_eq_some_iff.mp kth
  have member := List.mem_of_mem_filter (List.mem_of_getElem? found)
  have came : call.Whole := whole call (by
    rw [← placed_snd headerBytes calls]
    exact List.mem_map_of_mem member)
  have here : At (interrupted (aviOpenOutputFile [] fpIdx media)
      (chunksBytes (chunksOf calls) ++ reached)) headerBytes (chunksBytes (chunksOf calls)) := by
    have behind := (at_start (interrupted (aviOpenOutputFile [] fpIdx media)
      (chunksBytes (chunksOf calls) ++ reached))).right
    rw [length_header compressor, Nat.zero_add] at behind
    exact behind.left
  have kthPlace : ((places headerBytes (headsOf calls last reached)).filter
      (·.2.tag = fourcc "00dc"))[k]? = some (place, call.chunk) := by
    have front : ((places headerBytes (chunksOf calls)).filter (·.2.tag = fourcc "00dc"))[k]? =
        some (place, call.chunk) := by
      rw [places_chunksOf headerBytes whole, List.filter_map, List.getElem?_map]
      exact congrArg (Option.map _) found
    rw [headsOf, places_append, List.filter_append,
      List.getElem?_append_left (List.getElem?_eq_some_iff.mp front).1, front]
  exact each k place call.chunk there kthPlace (at_of_mem_placed here member came)

end Crash

theorem repair_after_crash_frame :
    let media : Media := ⟨704, 576, 25, fourcc "H264", 1, 1, 8000, 16⟩
    let calls : List Call := [⟨.audio [1, 2, 3], 7, .whole⟩, ⟨.video [4, 5] true, 0, .whole⟩]
    let torn : Call := ⟨.video [6, 7, 8, 9, 10] false, 0, .broken [48, 48, 100, 99, 5, 0, 0, 0, 6]⟩
    let heads := headsOf calls torn [48, 48, 100, 99, 5, 0, 0, 0, 6]
    ∃ repaired, aviFixBadFile ((begun false media).run (calls ++ [torn])).file (heads.length + 8) =
        some (repaired, seconds (videosOf heads) (wordInt (frate media.fps % 2 ^ 32) / 10000)) ∧
      ((∃ reader, aviOpenInputFile repaired true 8 = some (.ok reader)) ↔
        Flagged ((begun false media).run (calls ++ [torn])).file headerBytes heads) ∧
      ∀ reader, aviOpenInputFile repaired true 8 = some (.ok reader) →
        reader.videoFrames = videosOf heads ∧
        ∀ k frame there, (calls.filter (·.IsVideo))[k]? = some frame →
          ∃ pos, { reader with pos := there, videoPos := k }.readFrame =
            some ({ reader with pos := pos, videoPos := k + 1 },
              some (frame.item.data ++ padding frame.item.data frame.behind, false)) :=
  @repair_after_crash ⟨704, 576, 25, fourcc "H264", 1, 1, 8000, 16⟩ false
    [⟨.audio [1, 2, 3], 7, .whole⟩, ⟨.video [4, 5] true, 0, .whole⟩]
    ⟨.video [6, 7, 8, 9, 10] false, 0, .broken [48, 48, 100, 99, 5, 0, 0, 0, 6]⟩
    [48, 48, 100, 99, 5, 0, 0, 0, 6] ((Item.video [4, 5] true).chunk 0) rfl (by decide)
    (fun _ _ _ => by decide) (by decide) rfl (by decide) (by decide) (by decide) rfl (by decide) 0

end ExmOnvif.Avilib
