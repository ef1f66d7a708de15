/-
This file proves that a recording is read back by its index: the frames that were written are found
under their numbers, also where a write failed in between.

A write that failed has left its entry. The frames behind it keep their numbers, and its own number
leads to the chunk that was written in its place.
-/

import ExmOnvif.Avilib.Indexed

namespace ExmOnvif.Avilib

open Library

/-! ### The recorded file -/

/-- The calls with the places that their entries name. -/
def placed : Nat → List Call → List (Nat × Call)
  | _, [] => []
  | pos, call :: calls => (pos, call) :: placed (pos + call.growth) calls

theorem entriesFrom_eq (pos : Nat) (calls : List Call) :
    entriesFrom pos calls = (placed pos calls).map fun (pos, call) => call.entry pos := by
  induction calls generalizing pos with
  | nil => rfl
  | cons call calls inductionHypothesis =>
    rw [entriesFrom, placed, List.map_cons, inductionHypothesis]

theorem placed_snd (pos : Nat) (calls : List Call) : (placed pos calls).map Prod.snd = calls := by
  induction calls generalizing pos with
  | nil => rfl
  | cons call calls inductionHypothesis =>
    rw [placed, List.map_cons, inductionHypothesis]

/-- No place is behind the chunks. -/
theorem le_of_mem_placed {start pos : Nat} {call : Call} {calls : List Call}
    (member : (pos, call) ∈ placed start calls) :
    pos ≤ start + (chunksBytes (chunksOf calls)).length := by
  induction calls generalizing start with
  | nil => cases member
  | cons first calls inductionHypothesis =>
    rw [chunksBytes_chunksOf_cons, List.length_append, length_chunksBytes_call]
    rcases List.mem_cons.mp member with same | later
    · obtain ⟨rfl, rfl⟩ := Prod.mk.inj same
      exact Nat.le_add_right _ _
    · rw [← Nat.add_assoc]
      exact inductionHypothesis later

/-- A call that came through has its chunk at its place. -/
theorem at_of_mem_placed {file : Bytes} {start pos : Nat} {call : Call} {calls : List Call}
    (here : At file start (chunksBytes (chunksOf calls)))
    (member : (pos, call) ∈ placed start calls)
    (whole : call.Whole) : At file pos call.chunk.bytes := by
  induction calls generalizing start with
  | nil => cases member
  | cons first calls inductionHypothesis =>
    rw [chunksBytes_chunksOf_cons] at here
    rcases List.mem_cons.mp member with same | later
    · obtain ⟨rfl, rfl⟩ := Prod.mk.inj same
      have chunk := here.left
      rwa [chunksBytes_call, if_pos whole] at chunk
    · have behind := here.right
      rw [length_chunksBytes_call] at behind
      exact inductionHypothesis behind later

/-- A file with a header, the chunks of some calls, and the index. -/
def recorded (front : Avi) (hasIndex : Bool) (entered : List Call) : Bytes :=
  aviFile front hasIndex (chunksBytes (chunksOf entered)) entered.length
    (entriesFrom headerBytes entered)

/-- What a recording leaves when it is closed. -/
theorem close_recorded {media : Media} (compressor : media.compressor.length = 4) (old : Bytes)
    (fpIdx : Bool) {calls : List Call}
    (clean : ∀ call ∈ (aviOpenOutputFile old fpIdx media).entered calls, call.Clean) :
    ∃ (front : Avi) (hasIndex : Bool), front.media = media ∧
      ((aviOpenOutputFile old fpIdx media).run calls).close =
        recorded front hasIndex ((aviOpenOutputFile old fpIdx media).entered calls) := by
  have room : headerBytes ≤ (aviOpenOutputFile old fpIdx media).file.length := by
    have longer := length_writeAt (List.replicate headerBytes (0 : UInt8)) (Nat.zero_le old.length)
    rw [List.length_replicate, Nat.zero_add] at longer
    exact Nat.le_trans (Nat.le_max_right _ _) (Nat.le_of_eq longer.symm)
  have laid := @laid_run (aviOpenOutputFile old fpIdx media) rfl room calls clean
  have compressorKept :
      ((aviOpenOutputFile old fpIdx media).run calls).media.compressor.length = 4 := by
    rw [laid.media]
    exact compressor
  have behind : headerBytes ≤ ((aviOpenOutputFile old fpIdx media).run calls).pos := by
    rw [laid.pos]
    exact Nat.le_add_right _ _
  obtain ⟨front, hasIndex, kept, closed⟩ :=
    close_eq compressorKept laid.offset laid.reached behind
  refine ⟨front, hasIndex, kept.trans laid.media, ?_⟩
  have start : (aviOpenOutputFile old fpIdx media).pos = headerBytes := rfl
  have noEntries : (aviOpenOutputFile old fpIdx media).idx = [] := rfl
  have none : (aviOpenOutputFile old fpIdx media).nIdx = 0 := rfl
  have drop : (((aviOpenOutputFile old fpIdx media).file.take headerBytes) ++
      chunksBytes (chunksOf ((aviOpenOutputFile old fpIdx media).entered calls))).drop headerBytes =
      chunksBytes (chunksOf ((aviOpenOutputFile old fpIdx media).entered calls)) :=
    List.drop_left' (List.length_take_of_le room)
  rw [closed, laid.file, start, drop, Avi.indexBytes, laid.nIdx, laid.idx, laid.pos,
    start, noEntries, none, List.nil_append, Nat.zero_add, Nat.add_sub_cancel_left,
    Nat.add_comm _ 4]
  rfl

/-! ### Opening it -/

section Recorded

variable {front : Avi} {hasIndex : Bool} {entered : List Call} {file : Bytes} {pos : Nat}
    {call : Call}

/-- A frame of the video. -/
def Call.IsVideo (call : Call) : Prop := call.item.tag = fourcc "00dc"

instance (call : Call) : Decidable call.IsVideo := inferInstanceAs (Decidable (_ = _))

theorem tag_of_item (item : Item) : item.tag = fourcc "00dc" ∨ item.tag = fourcc "01wb" := by
  cases item with
  | video data keyframe => exact Or.inl rfl
  | audio data => exact Or.inr rfl

theorem flags_lt (item : Item) : item.flags < 2 ^ 32 := by
  cases item with
  | video data keyframe => cases keyframe <;> exact of_decide_eq_true rfl
  | audio data => exact of_decide_eq_true rfl

theorem length_entriesFrom (pos : Nat) (calls : List Call) :
    (entriesFrom pos calls).length = calls.length := by
  rw [entriesFrom_eq, List.length_map, ← List.length_map Prod.snd, placed_snd]

/-- The entries for frames are those of the frames. -/
theorem filter_entriesFrom (pos : Nat) (calls : List Call) :
    (entriesFrom pos calls).filter (·.IsVideo) =
      ((placed pos calls).filter (·.2.IsVideo)).map fun (pos, call) => call.entry pos := by
  rw [entriesFrom_eq, List.filter_map]
  rfl

theorem placed_filter_snd (pos : Nat) (calls : List Call) :
    ((placed pos calls).filter (·.2.IsVideo)).map Prod.snd = calls.filter (·.IsVideo) := by
  conv_rhs => rw [← placed_snd pos calls, List.filter_map]
  rfl

theorem length_filter_entriesFrom (pos : Nat) (calls : List Call) :
    ((entriesFrom pos calls).filter (·.IsVideo)).length = (calls.filter (·.IsVideo)).length := by
  rw [filter_entriesFrom, List.length_map, ← placed_filter_snd pos calls, List.length_map]

theorem at_recorded (compressor : front.media.compressor.length = 4) :
    At (recorded front hasIndex entered) headerBytes (chunksBytes (chunksOf entered)) :=
  (aviFile_parts compressor).2.1

/-- What stands at the place of a call that came through. -/
theorem read_chunk (here : At file pos call.chunk.bytes) :
    readAt file pos 8 = call.item.tag ++ wordBytes call.item.data.length ∧
      pos + 8 + call.item.data.length ≤ file.length := by
  have within := here.length_le (Chunk.bytes_ne_nil _)
  have length := Chunk.length_bytes call.chunk
  have data : call.chunk.data = call.item.data := rfl
  rw [Chunk.size, data] at length
  exact ⟨Chunk.read_head here, by omega⟩

/-- The entries are valid where the chunks end early enough. -/
theorem entriesFrom_valid (small : headerBytes + (chunksBytes (chunksOf entered)).length < 2 ^ 31) :
    ∀ entry ∈ entriesFrom headerBytes entered, entry.Valid := by
  intro entry member
  rw [entriesFrom_eq] at member
  obtain ⟨⟨pos, call⟩, here, rfl⟩ := List.mem_map.mp member
  exact ⟨tag_of_item call.item, flags_lt call.item,
    Nat.lt_of_le_of_lt (le_of_mem_placed here) small⟩

theorem length_recorded (compressor : front.media.compressor.length = 4) :
    (recorded front hasIndex entered).length =
      headerBytes + (chunksBytes (chunksOf entered)).length + (8 + 16 * entered.length) := by
  have four : ∀ entry ∈ entriesFrom headerBytes entered, entry.tag.length = 4 := by
    intro entry member
    rw [entriesFrom_eq] at member
    obtain ⟨⟨pos, call⟩, here, rfl⟩ := List.mem_map.mp member
    rcases tag_of_item call.item with video | audio
    · exact congrArg List.length video
    · exact congrArg List.length audio
  rw [recorded, length_aviFile compressor four, length_entriesFrom]

/-- A recorded file is opened by its index where its first frame came through. -/
theorem open_recorded (compressor : front.media.compressor.length = 4)
    (small : (recorded front hasIndex entered).length < 2 ^ 31)
    (first : entered.find? (·.IsVideo) = some call) (whole : call.Whole) (turns : Nat) :
    ∃ audioBytes, aviOpenInputFile (recorded front hasIndex entered) true (turns + 8) =
      some (.ok ⟨recorded front hasIndex entered, headerBytes, front.info, headerBytes,
        some (((entriesFrom headerBytes entered).filter (·.IsVideo)).map IndexEntry.video),
        audioBytes, 0⟩) := by
  have length := @length_recorded front hasIndex entered compressor
  have valid := @entriesFrom_valid entered (by omega)
  have even := chunksBytes_even (chunksOf entered)
  rw [← placed_snd headerBytes entered, List.find?_map] at first
  obtain ⟨⟨pos, call⟩, found, rfl⟩ := Option.map_eq_some_iff.mp first
  have chunk := at_of_mem_placed (@at_recorded front hasIndex entered compressor)
    (List.mem_of_find?_eq_some found) whole
  have entry : (entriesFrom headerBytes entered).find? (·.IsVideo) = some (call.entry pos) := by
    rw [entriesFrom_eq, List.find?_map]
    exact congrArg (Option.map _) found
  exact open_indexed compressor valid even small (length_entriesFrom _ _).symm entry
    (read_chunk chunk).1 turns

/-! ### Reading frames -/

/-- The frames that are read one after the other, a number of them at most. -/
def Reader.frames : Nat → Reader → List (Bytes × Bool)
  | 0, _ => []
  | count + 1, reader =>
    match reader.readFrame with
    | some (next, some frame) => frame :: frames count next
    | _ => []

/-- A frame with whether it is a key frame. -/
def Call.frame (call : Call) : Bytes × Bool := (call.item.data, call.item.flags = 0x10)

/-- The number of a frame that came through leads to it. -/
theorem readFrame_recorded {reader : Reader} {k : Nat}
    (compressor : front.media.compressor.length = 4)
    (small : (recorded front hasIndex entered).length < 2 ^ 31)
    (opened : reader.file = recorded front hasIndex entered)
    (index : reader.videoIndex =
      some (((entriesFrom headerBytes entered).filter (·.IsVideo)).map IndexEntry.video))
    (number : reader.videoPos = k)
    (frame : (entered.filter (·.IsVideo))[k]? = some call) (whole : call.Whole) :
    ∃ pos, reader.readFrame =
      some ({ reader with pos := pos, videoPos := k + 1 }, some call.frame) := by
  rw [← placed_filter_snd headerBytes entered, List.getElem?_map] at frame
  obtain ⟨⟨pos, call⟩, found, rfl⟩ := Option.map_eq_some_iff.mp frame
  have chunk := at_of_mem_placed (@at_recorded front hasIndex entered compressor)
    (List.mem_of_mem_filter (List.mem_of_getElem? found)) whole
  obtain ⟨_, within⟩ := read_chunk chunk
  have entry : ((entriesFrom headerBytes entered).filter (·.IsVideo))[k]? =
      some (call.entry pos) := by
    rw [filter_entriesFrom, List.getElem?_map, found]
    rfl
  have inside : pos + 8 + call.item.data.length < 2 ^ 31 := Nat.lt_of_le_of_lt within small
  exact readFrame_entry opened index number entry rfl inside (Chunk.at_data chunk).left

/-- Where all came through, the frames are read in order, to the last one. -/
theorem frames_recorded {reader : Reader} {k : Nat}
    (compressor : front.media.compressor.length = 4)
    (small : (recorded front hasIndex entered).length < 2 ^ 31)
    (opened : reader.file = recorded front hasIndex entered)
    (index : reader.videoIndex =
      some (((entriesFrom headerBytes entered).filter (·.IsVideo)).map IndexEntry.video))
    (number : reader.videoPos = k)
    (whole : ∀ call ∈ entered, call.Whole) (count : Nat) :
    reader.frames count = (((entered.filter (·.IsVideo)).drop k).map Call.frame).take count := by
  induction count generalizing reader k with
  | zero => rfl
  | succ count inductionHypothesis =>
    rw [Reader.frames]
    cases here : (entered.filter (·.IsVideo))[k]? with
    | none =>
      have ended : (((entriesFrom headerBytes entered).filter (·.IsVideo)).map
          IndexEntry.video)[reader.videoPos]? = none := by
        rw [number, filter_entriesFrom, List.map_map, List.getElem?_map]
        rw [← placed_filter_snd headerBytes entered, List.getElem?_map] at here
        rw [Option.map_eq_none_iff.mp here, Option.map_none]
      have behind := List.getElem?_eq_none_iff.mp here
      rw [Reader.readFrame, index, List.drop_eq_nil_of_le behind]
      simp only [ended]
      rfl
    | some call =>
      have inside := List.getElem?_eq_some_iff.mp here
      have member : call ∈ entered := List.mem_of_mem_filter (List.mem_of_getElem? here)
      obtain ⟨pos, read⟩ :=
        readFrame_recorded compressor small opened index number here (whole call member)
      rw [read, List.drop_eq_getElem_cons inside.1, inside.2, List.map_cons, List.take_succ_cons]
      have rest : Reader.frames count { reader with pos := pos, videoPos := k + 1 } = _ :=
        inductionHypothesis opened index rfl
      exact congrArg (call.frame :: ·) rest

end Recorded

/-- The length of a recording. -/
theorem length_close {media : Media} (compressor : media.compressor.length = 4) (old : Bytes)
    (fpIdx : Bool) {calls : List Call}
    (clean : ∀ call ∈ (aviOpenOutputFile old fpIdx media).entered calls, call.Clean) :
    ((aviOpenOutputFile old fpIdx media).run calls).close.length = headerBytes +
      (chunksBytes (chunksOf ((aviOpenOutputFile old fpIdx media).entered calls))).length +
        (8 + 16 * ((aviOpenOutputFile old fpIdx media).entered calls).length) := by
  obtain ⟨front, hasIndex, same, closed⟩ := close_recorded compressor old fpIdx clean
  have compressorKept : front.media.compressor.length = 4 := by
    rw [same]
    exact compressor
  rw [closed, length_recorded compressorKept]

/-- A recording in which no chunk was written with bytes too many is read back. If its first frame
came through and the file is not too long, it is opened, with an entry for every frame for which
there was room; every frame that came through is read under its number, with whether it is a key
frame, whatever failed; and if nothing failed, the frames are read in order, to the last one. -/
theorem read_back {media : Media} {old : Bytes} {fpIdx : Bool} {calls : List Call} {call : Call}
    (compressor : media.compressor.length = 4)
    (clean : ∀ call ∈ (aviOpenOutputFile old fpIdx media).entered calls, call.Clean)
    (small : ((aviOpenOutputFile old fpIdx media).run calls).close.length < 2 ^ 31)
    (first : ((aviOpenOutputFile old fpIdx media).entered calls).find? (·.IsVideo) = some call)
    (whole : call.Whole) (turns : Nat) :
    ∃ reader, aviOpenInputFile ((aviOpenOutputFile old fpIdx media).run calls).close true
        (turns + 8) = some (.ok reader) ∧
      reader.videoFrames =
        (((aviOpenOutputFile old fpIdx media).entered calls).filter (·.IsVideo)).length ∧
      (∀ k frame place, (((aviOpenOutputFile old fpIdx media).entered calls).filter
          (·.IsVideo))[k]? = some frame → frame.Whole →
        ∃ pos, { reader with pos := place, videoPos := k }.readFrame =
          some ({ reader with pos := pos, videoPos := k + 1 }, some frame.frame)) ∧
      ((∀ call ∈ (aviOpenOutputFile old fpIdx media).entered calls, call.Whole) →
        ∀ count, reader.frames count =
          ((((aviOpenOutputFile old fpIdx media).entered calls).filter (·.IsVideo)).map
            Call.frame).take count) := by
  obtain ⟨front, hasIndex, same, closed⟩ := close_recorded compressor old fpIdx clean
  rw [closed] at small ⊢
  have compressorKept : front.media.compressor.length = 4 := by
    rw [same]
    exact compressor
  obtain ⟨audioBytes, opened⟩ := open_recorded compressorKept small first whole turns
  refine ⟨_, opened, ?_, fun k frame place number came => ?_, fun all count => ?_⟩
  · rw [Reader.videoFrames, Option.getD_some, List.length_map, length_filter_entriesFrom]
  · exact readFrame_recorded compressorKept small rfl rfl rfl number came
  · exact @frames_recorded _ _ _ _ 0 compressorKept small rfl rfl rfl all count

theorem read_back_recording :
    let media : Media := ⟨704, 576, 25, fourcc "H264", 1, 1, 8000, 16⟩
    let calls : List Call := [⟨.audio [1, 2, 3], 0, .whole⟩, ⟨.video [4, 5] true, 0, .whole⟩,
      ⟨.video [6, 7, 8] false, 0, .broken [48]⟩, ⟨.video [9] false, 0, .whole⟩]
    let start := aviOpenOutputFile [] false media
    ∃ reader, aviOpenInputFile (start.run calls).close true 8 = some (.ok reader) ∧
      reader.videoFrames = ((start.entered calls).filter (·.IsVideo)).length ∧
      (∀ k frame place, ((start.entered calls).filter (·.IsVideo))[k]? = some frame →
        frame.Whole → ∃ pos, { reader with pos := place, videoPos := k }.readFrame =
          some ({ reader with pos := pos, videoPos := k + 1 }, some frame.frame)) ∧
      ((∀ call ∈ start.entered calls, call.Whole) → ∀ count, reader.frames count =
        (((start.entered calls).filter (·.IsVideo)).map Call.frame).take count) :=
  @read_back _ _ _ _ ⟨.video [4, 5] true, 0, .whole⟩ rfl (by decide)
    (by rw [length_close rfl] <;> decide) rfl rfl 0

end ExmOnvif.Avilib
