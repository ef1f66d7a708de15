/-
This file models how a recording is repaired that was not closed, and proves what is lost with it.

A new index is made of the chunks. In it the lengths are those with the padding, and no frame is a
key frame. A frame is counted before its first four bytes are read, and makes its entry behind them.
-/

import ExmOnvif.Avilib.RoundTrip

namespace ExmOnvif.Avilib

open Library

/-! ### The repair -/

/-- The variables of `gen_index_from_file`, with the index that is written. -/
structure GenIndex where
  pos : Nat
  videos : Nat
  audios : Nat
  entries : List IndexEntry
deriving DecidableEq, Repr

/-- `avi_add_entry_file`, with a length that may be negative. -/
def GenIndex.add (gen : GenIndex) (tag : Bytes) (flags pos : Nat) (len : Int) : GenIndex :=
  { gen with entries := gen.entries ++ [⟨tag, flags, pos, (len % 2 ^ 32).toNat⟩] }

/-- The loop goes on behind a chunk, or ends where it cannot get there. -/
def GenIndex.skip (gen : GenIndex) (n : Int) : GenIndex ⊕ GenIndex :=
  if Seekable (gen.pos + n) then .inl { gen with pos := seekBy gen.pos n } else .inr gen

/-- A turn of the loop of `gen_index_from_file`. -/
def genIndexTurn (file : Bytes) (info : Info) (gen : GenIndex) : Option (GenIndex ⊕ GenIndex) :=
  let data := readAt file gen.pos 8
  if data.length ≠ 8 then some (.inr gen)
  else if sameTag (data.take 4) (fourcc "LIST") then
    some (.inl { gen with pos := seekBy (gen.pos + 8) 4 })
  else
    let n := padEven (wordInt (wordOf (data.drop 4)))
    let offset := gen.pos
    let gen := { gen with pos := gen.pos + 8 }
    if isVideo info.videoTag (data.take 4) then
      let gen := { gen with videos := gen.videos + 1 }
      let flag := readAt file gen.pos 4
      if flag.length ≠ 4 then some (.inr gen)
      else
        let keyflag := if flag = [0, 0, 1, 0xb0] then 1 else 0
        some (({ gen with pos := gen.pos + 4 }.add (fourcc "00dc") keyflag offset n).skip (n - 4))
    else if sameTag (data.take 4) info.audioTag then
      some (({ gen with audios := gen.audios + 1 }.add (fourcc "01wb") 0 offset n).skip n)
    else some (gen.skip n)

/-- `gen_index_from_file`, where the file for the index can be created. -/
def genIndexFromFile (file : Bytes) (turns : Nat) : Option (Except AviErr GenIndex) := do
  match ← aviOpenInputFile file false turns with
  | .error err => return .error err
  | .ok reader => return .ok (← scan (genIndexTurn file reader.info) turns ⟨headerBytes, 0, 0, []⟩)

/-- What is written into a header of what was read from one. -/
def Info.media (info : Info) : Media where
  width := (info.width % 2 ^ 32).toNat
  height := (info.height % 2 ^ 32).toNat
  fps := info.fps
  compressor := info.compressor
  aFmt := info.aFmt
  aChans := info.aChans
  aRate := info.aRate.toNat
  aBits := info.aBits

/-- The seconds of some frames. -/
def seconds (videos : Nat) (fps : ℚ) : Int :=
  if fps = 0 then 0 else if 0 ≤ fps then ⌊videos / fps⌋ else ⌈videos / fps⌉

/-- `avi_fix_bad_file`: the file as it is left, and what is returned. Nothing is given where the
second opening of the file fails. -/
def aviFixBadFile (file : Bytes) (turns : Nat) : Option (Bytes × Int) := do
  match ← aviOpenInputFile file true turns with
  | .error _ => return (file, -1)
  | .ok reader =>
    match ← genIndexFromFile file turns with
    | .error _ => none
    | .ok gen =>
      -- The index goes to an even place. A byte in front of it that was never written is zero.
      let file := file ++ List.replicate (file.length % 2) 0
      let avi : Avi := ⟨reader.info.media, file, file.length, file.length, gen.videos + gen.audios,
        gen.entries, true, reader.videoFrames, (reader.audioBytes % 2 ^ 32).toNat⟩
      return (avi.close, seconds gen.videos reader.info.fps)

/-! ### Going through the chunks -/

section Heads

variable {file : Bytes} {chunk : Chunk} {chunks : List Chunk} {pos turns : Nat} {info : Info}

/-- From a place on the file has the heads of some chunks, the last of which may be cut, and then
nothing. -/
structure Heads (file : Bytes) (pos : Nat) (chunks : List Chunk) : Prop where
  head : ∀ place chunk, (place, chunk) ∈ places pos chunks →
    At file place (chunk.tag ++ wordBytes chunk.data.length)
  tag : ∀ chunk ∈ chunks, chunk.tag = fourcc "00dc" ∨ chunk.tag = fourcc "01wb"
  inside : pos + (chunksBytes chunks).length < 2 ^ 31
  ended : file.length < pos + (chunksBytes chunks).length + 8

theorem Heads.first (heads : Heads file pos (chunk :: chunks)) :
    At file pos (chunk.tag ++ wordBytes chunk.data.length) :=
  heads.head pos chunk List.mem_cons_self

theorem Heads.rest (heads : Heads file pos (chunk :: chunks)) :
    Heads file (pos + chunk.size) chunks := by
  have length : pos + (chunksBytes (chunk :: chunks)).length =
      pos + chunk.size + (chunksBytes chunks).length := by
    rw [chunksBytes_cons, List.length_append, chunk.length_bytes, Nat.add_assoc]
  refine ⟨fun place other member => heads.head place other (List.mem_cons_of_mem _ member),
    fun other member => heads.tag other (List.mem_cons_of_mem _ member), ?_, ?_⟩
  · rw [← length]
    exact heads.inside
  · rw [← length]
    exact heads.ended

/-- What is read at the head of a chunk. -/
theorem Heads.read (heads : Heads file pos (chunk :: chunks)) :
    readAt file pos 8 = chunk.tag ++ wordBytes chunk.data.length := by
  refine heads.first.read ?_
  rw [List.length_append, chunk.tag_length, wordBytes_length]

theorem Heads.small (heads : Heads file pos (chunk :: chunks)) : pos + chunk.size < 2 ^ 31 := by
  have inside := heads.inside
  rw [chunksBytes_cons, List.length_append, chunk.length_bytes] at inside
  omega

theorem Heads.length (heads : Heads file pos (chunk :: chunks)) :
    wordOf (wordBytes chunk.data.length) = chunk.data.length ∧
      padEven (wordInt chunk.data.length) =
        ((chunk.data.length + chunk.data.length % 2 : Nat) : Int) := by
  have small := heads.small
  rw [Chunk.size] at small
  exact ⟨wordOf_wordBytes (by omega), by rw [wordInt_of_small (by omega), padEven_natCast]⟩

/-- Behind the chunks less is left than a head. -/
theorem Heads.read_end (heads : Heads file pos []) : (readAt file pos 8).length ≠ 8 := by
  have ended : file.length < pos + 0 + 8 := heads.ended
  rw [readAt_length]
  omega

theorem Heads.no_list (heads : Heads file pos (chunk :: chunks)) :
    ¬sameTag chunk.tag (fourcc "LIST") ∧ ¬sameTag chunk.tag (fourcc "idx1") := by
  rcases heads.tag chunk List.mem_cons_self with video | audio
  · rw [video]
    decide
  · rw [audio]
    decide

/-- The chunks are passed over when the file is gone through. -/
theorem Heads.scan_layout {layout : Layout} (heads : Heads file pos chunks)
    (place : layout.pos = pos)
    (turns : Nat) : ∃ last, scan (layoutTurn file) (chunks.length + (turns + 1)) layout =
      some (.ok { layout with pos := last }) := by
  induction chunks generalizing layout pos with
  | nil =>
    subst place
    have ended : layoutTurn file layout = some (.inr (.ok layout)) := if_pos heads.read_end
    refine ⟨layout.pos, ?_⟩
    rw [List.length_nil, Nat.zero_add, scan_result turns ended]
  | cons chunk chunks inductionHypothesis =>
    obtain ⟨noList, noIndex⟩ := heads.no_list
    have small := heads.small
    have size : chunk.size = 8 + (chunk.data.length + chunk.data.length % 2) := rfl
    have head : At file layout.pos (chunk.tag ++ (wordBytes chunk.data.length ++ [])) := by
      rw [List.append_nil, place]
      exact heads.first
    have turn := layoutTurn_skip layout head chunk.tag_length noList noIndex (by omega)
    obtain ⟨last, scanned⟩ := @inductionHypothesis (pos + chunk.size)
      { layout with pos := layout.pos + 8 + (chunk.data.length + chunk.data.length % 2) } heads.rest
      (show layout.pos + 8 + _ = _ by omega)
    refine ⟨last, ?_⟩
    rw [List.length_cons, Nat.add_right_comm, scan_next _ turn, scanned]

/-- The rows that are made of the chunks when a file without an index is searched through. -/
def searchEntries (pos : Nat) (chunks : List Chunk) : List IndexEntry :=
  (places pos chunks).map fun (place, chunk) => ⟨chunk.tag, 0, place, chunk.data.length⟩

theorem mem_of_mem_places {place : Nat} (member : (place, chunk) ∈ places pos chunks) :
    chunk ∈ chunks := by
  rw [← places_snd pos chunks]
  exact List.mem_map_of_mem member

theorem Heads.searchEntries_valid (heads : Heads file pos chunks) :
    ∀ entry ∈ searchEntries pos chunks, entry.Valid := by
  intro entry member
  obtain ⟨⟨place, chunk⟩, here, rfl⟩ := List.mem_map.mp member
  have before := (le_of_mem_places here).2
  have inside := heads.inside
  exact ⟨heads.tag chunk (mem_of_mem_places here), of_decide_eq_true rfl,
    show place < 2 ^ 31 by omega⟩

/-- The search makes a row of every chunk. -/
theorem Heads.scan_search {found : Found} (heads : Heads file pos chunks) (place : found.pos = pos)
    (turns : Nat) : scan (searchTurn file) (chunks.length + (turns + 1)) found =
      some (found.rows ++ (searchEntries pos chunks).map IndexEntry.bytes) := by
  induction chunks generalizing found pos with
  | nil =>
    subst place
    have ended : searchTurn file found = some (.inr found.rows) := if_pos heads.read_end
    rw [List.length_nil, Nat.zero_add, scan_result turns ended]
    exact congrArg some (List.append_nil _).symm
  | cons chunk chunks inductionHypothesis =>
    obtain ⟨noList, _⟩ := heads.no_list
    have four := chunk.tag_length
    have small := heads.small
    have size : chunk.size = 8 + (chunk.data.length + chunk.data.length % 2) := rfl
    have media : isMedia (chunk.tag ++ wordBytes chunk.data.length) = true := by
      rcases heads.tag chunk List.mem_cons_self with video | audio
      · rw [video]
        rfl
      · rw [audio]
        rfl
    have behind : seekBy (pos + 8) ((chunk.data.length + chunk.data.length % 2 : Nat) : Int) =
        pos + chunk.size := by
      rw [seekBy_natCast (by omega)]
      omega
    have turn : searchTurn file found = some (.inl ⟨pos + chunk.size, found.rows ++
        [(⟨chunk.tag, 0, pos, chunk.data.length⟩ : IndexEntry).bytes]⟩) := by
      rw [searchTurn, place, heads.read]
      simp only [front_length four, take_front four, drop_front four, ne_eq, not_true_eq_false,
        if_false, if_neg noList, heads.length.1, heads.length.2, behind, media, if_true]
      rfl
    rw [List.length_cons, Nat.add_right_comm, scan_next _ turn, inductionHypothesis heads.rest rfl,
      List.append_assoc]
    rfl

/-- The flag of a new entry for a chunk. -/
def keyflag (file : Bytes) (pos : Nat) (chunk : Chunk) : Nat :=
  if chunk.tag = fourcc "00dc" ∧ readAt file (pos + 8) 4 = [0, 0, 1, 0xb0] then 1 else 0

/-- The new entry for a chunk. -/
def repairEntry (file : Bytes) (pos : Nat) (chunk : Chunk) : IndexEntry :=
  ⟨chunk.tag, keyflag file pos chunk, pos, chunk.data.length + chunk.data.length % 2⟩

/-- The new entries for some chunks. -/
def repairEntries (file : Bytes) (pos : Nat) (chunks : List Chunk) : List IndexEntry :=
  (places pos chunks).map fun (place, chunk) => repairEntry file place chunk

/-- A frame has the four bytes that are read of it. -/
def HasFlag (file : Bytes) (pos : Nat) (chunk : Chunk) : Prop :=
  chunk.tag = fourcc "00dc" → pos + 12 ≤ file.length

instance (file : Bytes) (pos : Nat) (chunk : Chunk) : Decidable (HasFlag file pos chunk) :=
  inferInstanceAs (Decidable (_ → _))

/-- Where the tags of an information lead the chunks to their streams. -/
structure Streams (info : Info) (chunks : List Chunk) : Prop where
  video : info.videoTag = streamTag 0 [100, 98]
  audio : ∀ chunk ∈ chunks, chunk.tag = fourcc "01wb" → sameTag chunk.tag info.audioTag

theorem Streams.tail (streams : Streams info (chunk :: chunks)) : Streams info chunks :=
  ⟨streams.video, fun other member => streams.audio other (List.mem_cons_of_mem _ member)⟩

/-- What is known behind a chunk. -/
def GenIndex.past (file : Bytes) (gen : GenIndex) (chunk : Chunk) : GenIndex where
  pos := gen.pos + chunk.size
  videos := gen.videos + if chunk.tag = fourcc "00dc" then 1 else 0
  audios := gen.audios + if chunk.tag = fourcc "00dc" then 0 else 1
  entries := gen.entries ++ [repairEntry file gen.pos chunk]

/-- A turn at a frame or a piece of sound. -/
theorem Heads.genTurn {gen : GenIndex} (heads : Heads file pos (chunk :: chunks))
    (streams : Streams info (chunk :: chunks)) (place : gen.pos = pos) :
    genIndexTurn file info gen =
      if HasFlag file pos chunk then some (.inl (gen.past file chunk))
      else some (.inr { gen with pos := pos + 8, videos := gen.videos + 1 }) := by
  obtain ⟨noList, _⟩ := heads.no_list
  have four := chunk.tag_length
  have small := heads.small
  have size : chunk.size = 8 + (chunk.data.length + chunk.data.length % 2) := rfl
  have len : (((chunk.data.length + chunk.data.length % 2 : Nat) : Int) % 2 ^ 32).toNat =
      chunk.data.length + chunk.data.length % 2 := by omega
  rw [genIndexTurn, place, heads.read]
  simp only [front_length four, take_front four, drop_front four, ne_eq,
    not_true_eq_false, if_false, if_neg noList, heads.length.1, heads.length.2, streams.video]
  rcases heads.tag chunk List.mem_cons_self with video | audio
  · have frame : isVideo (streamTag 0 [100, 98]) chunk.tag := by
      rw [video]
      decide
    rw [if_pos frame]
    by_cases long : pos + 12 ≤ file.length
    · have flagLength : (readAt file (pos + 8) 4).length = 4 := by
        rw [readAt_length]
        omega
      have distance : ((pos + 8 + 4 : Nat) : Int) +
          (((chunk.data.length + chunk.data.length % 2 : Nat) : Int) - 4) =
          ((pos + chunk.size : Nat) : Int) := by omega
      have seekable : Seekable ((pos + chunk.size : Nat) : Int) := ⟨Int.natCast_nonneg _, by omega⟩
      have flag : HasFlag file pos chunk := fun _ => long
      rw [if_pos flag]
      simp only [flagLength, not_true_eq_false, if_false, GenIndex.add, GenIndex.skip, distance,
        if_pos seekable, seekBy, seekTo, Int.toNat_natCast, len]
      simp only [GenIndex.past, place, repairEntry, keyflag, video, if_true, true_and, Nat.add_zero]
    · have flagLength : ¬(readAt file (pos + 8) 4).length = 4 := by
        rw [readAt_length]
        omega
      have flag : ¬HasFlag file pos chunk := fun has => long (has video)
      rw [if_neg flag]
      simp only [flagLength, not_false_eq_true, if_true]
  · have noVideo : ¬chunk.tag = fourcc "00dc" := by
      rw [audio]
      decide
    have noFrame : ¬isVideo (streamTag 0 [100, 98]) chunk.tag := by
      rw [audio]
      decide
    have flag : HasFlag file pos chunk := fun video => absurd video noVideo
    have distance : ((pos + 8 : Nat) : Int) +
        ((chunk.data.length + chunk.data.length % 2 : Nat) : Int) =
        ((pos + chunk.size : Nat) : Int) := by omega
    have seekable : Seekable ((pos + chunk.size : Nat) : Int) := ⟨Int.natCast_nonneg _, by omega⟩
    rw [if_neg noFrame, if_pos (streams.audio chunk List.mem_cons_self audio), if_pos flag]
    simp only [GenIndex.add, GenIndex.skip, distance, if_pos seekable, seekBy, seekTo,
      Int.toNat_natCast, len]
    rw [audio] at noVideo
    simp only [GenIndex.past, place, repairEntry, keyflag, audio, noVideo, false_and, if_false,
      Nat.add_zero]

/-- While the frames have the bytes that are read of them, the loop goes on. -/
theorem Heads.scan_gen {gen : GenIndex} {others : List Chunk}
    (heads : Heads file gen.pos (chunks ++ others)) (streams : Streams info (chunks ++ others))
    (flags : ∀ place chunk, (place, chunk) ∈ places gen.pos chunks → HasFlag file place chunk)
    (turns : Nat) :
    scan (genIndexTurn file info) (chunks.length + turns) gen =
        scan (genIndexTurn file info) turns (chunks.foldl (GenIndex.past file) gen) ∧
      Heads file (chunks.foldl (GenIndex.past file) gen).pos others ∧ Streams info others := by
  have scanned := @scan_items GenIndex GenIndex Chunk (genIndexTurn file info)
    (fun state items => Heads file state.pos (items ++ others) ∧ Streams info (items ++ others) ∧
      ∀ place chunk, (place, chunk) ∈ places state.pos items → HasFlag file place chunk)
    (GenIndex.past file) ?_ chunks gen ⟨heads, streams, flags⟩ turns
  · exact ⟨scanned.1, scanned.2.1, scanned.2.2.1⟩
  · intro state chunk items ⟨there, known, has⟩
    have turn := there.genTurn known rfl
    rw [if_pos (has state.pos chunk List.mem_cons_self)] at turn
    exact ⟨turn, there.rest, known.tail,
      fun place other member => has place other (List.mem_cons_of_mem _ member)⟩

/-- The number of the frames among some chunks. -/
def videosOf (chunks : List Chunk) : Nat := chunks.countP fun chunk => chunk.tag = fourcc "00dc"

/-- What is known behind some chunks. -/
theorem foldl_gen (file : Bytes) (gen : GenIndex) (chunks : List Chunk) :
    (chunks.foldl (GenIndex.past file) gen).pos = gen.pos + (chunksBytes chunks).length ∧
      (chunks.foldl (GenIndex.past file) gen).videos = gen.videos + videosOf chunks ∧
      (chunks.foldl (GenIndex.past file) gen).videos +
        (chunks.foldl (GenIndex.past file) gen).audios =
        gen.videos + gen.audios + chunks.length ∧
      (chunks.foldl (GenIndex.past file) gen).entries =
        gen.entries ++ repairEntries file gen.pos chunks := by
  induction chunks generalizing gen with
  | nil => exact ⟨rfl, rfl, rfl, (List.append_nil _).symm⟩
  | cons chunk chunks inductionHypothesis =>
    obtain ⟨pos, videos, all, entries⟩ := inductionHypothesis (gen.past file chunk)
    have length := chunk.length_bytes
    refine ⟨pos.trans ?_, videos.trans ?_, all.trans ?_, entries.trans ?_⟩
    · rw [chunksBytes_cons, List.length_append, length, ← Nat.add_assoc]
      rfl
    · rw [videosOf, videosOf, List.countP_cons, GenIndex.past]
      by_cases video : chunk.tag = fourcc "00dc"
      · simp only [if_pos video, decide_eq_true video, if_true]
        omega
      · simp only [if_neg video, decide_eq_false video, Bool.false_eq_true, if_false]
        omega
    · rw [List.length_cons, GenIndex.past]
      by_cases video : chunk.tag = fourcc "00dc"
      · simp only [if_pos video]
        omega
      · simp only [if_neg video]
        omega
    · exact List.append_assoc _ _ _

/-- Every frame has the bytes that are read of it. -/
def Flagged (file : Bytes) (pos : Nat) (chunks : List Chunk) : Prop :=
  ∀ placed ∈ places pos chunks, HasFlag file placed.1 placed.2

instance (file : Bytes) (pos : Nat) (chunks : List Chunk) : Decidable (Flagged file pos chunks) :=
  inferInstanceAs (Decidable (∀ placed ∈ places pos chunks, _))

/-- A frame in front of another chunk has them. -/
theorem Heads.flagged {last : Chunk} (heads : Heads file pos (chunks ++ [last])) :
    Flagged file pos chunks := by
  intro (place, chunk) member _
  have before := (le_of_mem_places member).2
  have size : chunk.size = 8 + (chunk.data.length + chunk.data.length % 2) := rfl
  have lastHead := heads.head (pos + (chunksBytes chunks).length) last (by
    rw [places_append]
    exact List.mem_append_right _ List.mem_cons_self)
  have within := lastHead.length_le
    (List.ne_nil_of_length_pos (by rw [List.length_append, wordBytes_length]; omega))
  rw [List.length_append, last.tag_length, wordBytes_length] at within
  show place + 12 ≤ file.length
  omega

/-- The new index: all chunks are counted. They all have their entries, unless the last one is a
frame that has not the bytes that are read of it, which gets none. -/
theorem Heads.gen (heads : Heads file pos chunks) (streams : Streams info chunks) (turns : Nat) :
    ∃ gen, scan (genIndexTurn file info) (chunks.length + (turns + 1)) ⟨pos, 0, 0, []⟩ = some gen ∧
      gen.videos = videosOf chunks ∧ gen.videos + gen.audios = chunks.length ∧
      gen.entries =
        repairEntries file pos (if Flagged file pos chunks then chunks else chunks.dropLast) := by
  by_cases flagged : Flagged file pos chunks
  · rw [if_pos flagged]
    rw [← List.append_nil chunks] at heads streams
    obtain ⟨scanned, there, _⟩ := @Heads.scan_gen _ _ _ ⟨pos, 0, 0, []⟩ _ heads streams
      (fun place chunk member => flagged (place, chunk) member) (turns + 1)
    obtain ⟨_, videos, all, entries⟩ := foldl_gen file ⟨pos, 0, 0, []⟩ chunks
    have ended : genIndexTurn file info (chunks.foldl (GenIndex.past file) ⟨pos, 0, 0, []⟩) = _ :=
      if_pos there.read_end
    exact ⟨_, scanned.trans (scan_result turns ended), videos.trans (Nat.zero_add _),
      all.trans (Nat.zero_add _), entries⟩
  · rw [if_neg flagged]
    rcases List.eq_nil_or_concat chunks with rfl | ⟨init, lost, rfl⟩
    · exact absurd (fun _ member => nomatch member) flagged
    · rw [List.concat_eq_append] at heads streams flagged ⊢
      obtain ⟨scanned, there, known⟩ := @Heads.scan_gen _ _ _ ⟨pos, 0, 0, []⟩ _ heads streams
        (fun place chunk member => heads.flagged (place, chunk) member) (turns + 2)
      obtain ⟨place, videos, all, entries⟩ := foldl_gen file ⟨pos, 0, 0, []⟩ init
      have cut : ¬HasFlag file (pos + (chunksBytes init).length) lost := by
        intro has
        refine flagged fun placed member => ?_
        rw [places_append] at member
        rcases List.mem_append.mp member with inInit | inLast
        · exact heads.flagged placed inInit
        · rw [List.mem_singleton.mp inLast]
          exact has
      have video : lost.tag = fourcc "00dc" := by
        by_contra other
        exact cut fun same => absurd same other
      have turn := there.genTurn known rfl
      rw [place, if_neg cut] at turn
      have result := scanned.trans (scan_result (turns + 1) turn)
      have longer : init.length + (turns + 2) = (init ++ [lost]).length + (turns + 1) := by
        rw [List.length_append, List.length_singleton]
        omega
      have one : videosOf (init ++ [lost]) = videosOf init + 1 := by
        rw [videosOf, List.countP_append, List.countP_singleton, decide_eq_true video]
        rfl
      rw [longer] at result
      refine ⟨_, result, ?_, ?_, ?_⟩
      · exact (congrArg (· + 1) (videos.trans (Nat.zero_add _))).trans one.symm
      · rw [List.length_append]
        exact (Nat.add_right_comm _ 1 _).trans (congrArg (· + 1) (all.trans (Nat.zero_add _)))
      · rw [List.dropLast_concat]
        exact entries

end Heads

/-! ### A recording that was not closed -/

/-- A file with the header that is written first. -/
def interrupted (front : Avi) (rest : Bytes) : Bytes := front.header 4 false ++ rest

section Interrupted

variable {front : Avi} {rest : Bytes} {chunks : List Chunk}

theorem at_interrupted (front : Avi) (rest : Bytes) :
    At (interrupted front rest) 0 (front.header 4 false) :=
  (at_start (interrupted front rest)).left

/-- The file is gone through. -/
theorem scan_interrupted (compressor : front.media.compressor.length = 4)
    (heads : Heads (interrupted front rest) headerBytes chunks) (turns : Nat) : ∃ last,
    scan (layoutTurn (interrupted front rest)) (chunks.length + (turns + 8)) ⟨12, none, 0, none⟩ =
      some (.ok ⟨last, some (front.hdrl false), headerBytes, none⟩) := by
  have header := scan_layout compressor (at_interrupted front rest) (by decide)
    (chunks.length + (turns + 4 + 1))
  have start : seekBy 2048 (((4 + 4 % 2 : Nat) : Int) - 4) = headerBytes := by decide
  rw [start] at header
  obtain ⟨last, scanned⟩ := @Heads.scan_layout _ _ _
    ⟨headerBytes, some (front.hdrl false), 2048, none⟩ heads rfl (turns + 4)
  refine ⟨last, ?_⟩
  have more : chunks.length + (turns + 8) = chunks.length + (turns + 4 + 1) + 3 := by omega
  rw [more, header, scanned]
  rfl

/-- Without the index it is opened. -/
theorem open_interrupted (compressor : front.media.compressor.length = 4)
    (heads : Heads (interrupted front rest) headerBytes chunks) (turns : Nat) : ∃ reader,
    aviOpenInputFile (interrupted front rest) false (chunks.length + (turns + 8)) =
      some (.ok reader) ∧ reader.info = front.info := by
  have riff : readAt (interrupted front rest) 0 12 = _ :=
    (parts_of_header compressor (at_interrupted front rest)).riff.read rfl
  obtain ⟨last, layout⟩ := scan_interrupted compressor heads turns
  obtain ⟨headers, scanned, info, strh, strf⟩ :=
    scan_headers front false compressor (chunks.length + turns)
  have streams : ¬¬(headers.vidsStrhSeen = true ∧ headers.vidsStrfSeen = true) :=
    not_not.mpr ⟨strh, strf⟩
  rw [Nat.add_assoc] at scanned
  rw [aviOpenInputFile, riff, if_neg (riff_length _), if_neg (riff_tags _)]
  simp only [Option.bind_eq_bind, layout, Option.bind_some, scanned, info, if_neg streams,
    Bool.false_eq_true, not_false_eq_true, if_true, Option.pure_def]
  exact ⟨_, rfl, rfl⟩

/-- With the index it is opened where it has a frame. -/
theorem open_searched (compressor : front.media.compressor.length = 4)
    (heads : Heads (interrupted front rest) headerBytes chunks) (turns : Nat) :
    (videosOf chunks = 0 → aviOpenInputFile (interrupted front rest) true
        (chunks.length + (turns + 8)) = some (.error .noVids)) ∧
      (videosOf chunks ≠ 0 → ∃ reader, aviOpenInputFile (interrupted front rest) true
        (chunks.length + (turns + 8)) = some (.ok reader) ∧ reader.info = front.info) := by
  have riff : readAt (interrupted front rest) 0 12 = _ :=
    (parts_of_header compressor (at_interrupted front rest)).riff.read rfl
  obtain ⟨last, layout⟩ := scan_interrupted compressor heads turns
  obtain ⟨headers, scanned, info, strh, strf⟩ :=
    scan_headers front false compressor (chunks.length + turns)
  have streams : ¬¬(headers.vidsStrhSeen = true ∧ headers.vidsStrfSeen = true) :=
    not_not.mpr ⟨strh, strf⟩
  have searched := @Heads.scan_search _ _ _ ⟨headerBytes, []⟩ heads rfl (turns + 7)
  have opened : aviOpenInputFile (interrupted front rest) true (chunks.length + (turns + 8)) =
      some (withIndex (interrupted front rest) front.info headerBytes .file
        ((searchEntries headerBytes chunks).map IndexEntry.bytes)) := by
    rw [Nat.add_assoc] at scanned
    rw [aviOpenInputFile, riff, if_neg (riff_length _), if_neg (riff_tags _)]
    simp only [Option.bind_eq_bind, layout, Option.bind_some, scanned, info, if_neg streams,
      not_true_eq_false, if_false, if_neg (show ¬headerBytes = 0 by decide), Option.elim_none,
      searched, Option.pure_def, List.nil_append]
  have valid := heads.searchEntries_valid
  rw [opened]
  refine ⟨fun none => ?_, fun some => ?_⟩
  · rw [withIndex_no_video _ front valid]
    intro entry member frame
    obtain ⟨⟨place, chunk⟩, here, rfl⟩ := List.mem_map.mp member
    exact List.countP_eq_zero.mp none chunk (mem_of_mem_places here) (decide_eq_true frame)
  · obtain ⟨chunk, member, frame⟩ := List.countP_pos_iff.mp (Nat.pos_of_ne_zero some)
    rw [← places_snd headerBytes chunks] at member
    obtain ⟨⟨place, chunk⟩, here, rfl⟩ := List.mem_map.mp member
    obtain ⟨audioBytes, arrays⟩ := withIndex_indexed (interrupted front rest) front valid
      ⟨_, List.mem_map_of_mem here, of_decide_eq_true frame⟩
    exact ⟨_, congrArg Option.some arrays, rfl⟩

/-- The chunks that get an entry. -/
def keptChunks (file : Bytes) (chunks : List Chunk) : List Chunk :=
  if Flagged file headerBytes chunks then chunks else chunks.dropLast

/-- The file with the zero that makes its length even. -/
def evenRest (front : Avi) (rest : Bytes) : Bytes :=
  rest ++ List.replicate ((interrupted front rest).length % 2) 0

theorem length_evenRest (compressor : front.media.compressor.length = 4) :
    (evenRest front rest).length = rest.length + rest.length % 2 := by
  have length := length_header compressor 4 false
  have whole : (interrupted front rest).length = headerBytes + rest.length := by
    rw [interrupted, List.length_append, length]
  have even : headerBytes % 2 = 0 := rfl
  rw [evenRest, List.length_append, List.length_replicate, whole]
  omega

theorem interrupted_even (front : Avi) (rest : Bytes) :
    interrupted front rest ++ List.replicate ((interrupted front rest).length % 2) 0 =
      front.header 4 false ++ evenRest front rest := List.append_assoc _ _ _

/-- A file that is written up to its end is closed with what stands behind its header. -/
theorem close_whole {avi : Avi} {header movi : Bytes} (compressor : avi.media.compressor.length = 4)
    (length : header.length = headerBytes) (file : avi.file = header ++ movi)
    (there : avi.offset = avi.pos) (pos : avi.pos = headerBytes + movi.length) :
      ∃ (other : Avi) (hasIndex : Bool),
    other.media = avi.media ∧ avi.close = aviFile other hasIndex movi avi.nIdx avi.idx := by
  have whole : avi.file.length = headerBytes + movi.length := by
    rw [file, List.length_append, length]
  obtain ⟨other, hasIndex, same, closed⟩ := close_eq compressor there
    (Nat.le_of_eq (pos.trans whole.symm)) (by rw [pos]; exact Nat.le_add_right _ _)
  refine ⟨other, hasIndex, same, closed.trans ?_⟩
  have behind : (avi.file.take avi.pos).drop headerBytes = movi := by
    rw [pos, ← whole, List.take_length, file, ← length, List.drop_left]
  rw [behind, pos, Nat.add_sub_cancel_left, Nat.add_comm movi.length 4]
  rfl

/-- What the repair leaves. Without a frame it leaves the file as it is. -/
theorem fix_interrupted (compressor : front.media.compressor.length = 4)
    (heads : Heads (interrupted front rest) headerBytes chunks)
    (streams : Streams front.info chunks)
    (turns : Nat) :
    (videosOf chunks = 0 → aviFixBadFile (interrupted front rest) (chunks.length + (turns + 8)) =
        some (interrupted front rest, -1)) ∧
      (videosOf chunks ≠ 0 → ∃ (other : Avi) (hasIndex : Bool),
        other.media.compressor.length = 4 ∧
        aviFixBadFile (interrupted front rest) (chunks.length + (turns + 8)) =
          some (aviFile other hasIndex (evenRest front rest) chunks.length
            (repairEntries (interrupted front rest) headerBytes
              (keptChunks (interrupted front rest) chunks)),
            seconds (videosOf chunks) front.info.fps)) := by
  obtain ⟨noFrame, someFrame⟩ := open_searched compressor heads turns
  refine ⟨fun none => ?_, fun some => ?_⟩
  · rw [aviFixBadFile, noFrame none]
    rfl
  · obtain ⟨reader, opened, info⟩ := someFrame some
    obtain ⟨again, openedAgain, infoAgain⟩ := open_interrupted compressor heads turns
    obtain ⟨gen, generated, videos, all, entries⟩ := heads.gen streams (turns + 7)
    have index : genIndexFromFile (interrupted front rest) (chunks.length + (turns + 8)) =
        Option.some (.ok gen) := by
      rw [genIndexFromFile, openedAgain]
      simp only [Option.bind_eq_bind, Option.bind_some, infoAgain, generated, Option.pure_def]
    have length := length_header compressor 4 false
    have pos : (front.header 4 false ++ evenRest front rest).length =
        headerBytes + (evenRest front rest).length := by
      rw [List.length_append, length]
    obtain ⟨other, hasIndex, kept, closed⟩ := @close_whole
      ⟨front.info.media, front.header 4 false ++ evenRest front rest,
        (front.header 4 false ++ evenRest front rest).length,
        (front.header 4 false ++ evenRest front rest).length, gen.videos + gen.audios,
          gen.entries, true,
        reader.videoFrames, (reader.audioBytes % 2 ^ 32).toNat⟩
      (front.header 4 false) (evenRest front rest) compressor length rfl rfl pos
    refine ⟨other, hasIndex, ?_, ?_⟩
    · rw [kept]
      exact compressor
    · rw [aviFixBadFile, opened]
      simp only [Option.bind_eq_bind, Option.bind_some, index, info, interrupted_even, closed,
        Option.pure_def]
      rw [all, videos, entries]
      rfl

/-- The new entries are valid. -/
theorem repairEntries_valid {file : Bytes} {pos : Nat} {kept : List Chunk}
    (tag : ∀ chunk ∈ kept, chunk.tag = fourcc "00dc" ∨ chunk.tag = fourcc "01wb")
    (inside : pos + (chunksBytes kept).length < 2 ^ 31) :
    ∀ entry ∈ repairEntries file pos kept, entry.Valid := by
  intro entry member
  obtain ⟨⟨place, chunk⟩, here, rfl⟩ := List.mem_map.mp member
  have before := (le_of_mem_places here).2
  refine ⟨tag chunk (mem_of_mem_places here), ?_, show place < 2 ^ 31 by omega⟩
  show keyflag file place chunk < 2 ^ 32
  unfold keyflag
  split <;> decide

theorem length_repairEntries (file : Bytes) (pos : Nat) (kept : List Chunk) :
    (repairEntries file pos kept).length = kept.length := by
  rw [repairEntries, List.length_map, ← List.length_map Prod.snd, places_snd]

/-- What stood in the file stands in the repaired one. -/
theorem at_repaired {other : Avi} {hasIndex : Bool} {count place : Nat} {entries : List IndexEntry}
    {bytes : Bytes} (compressor : front.media.compressor.length = 4)
    (otherCompressor : other.media.compressor.length = 4) (behind : headerBytes ≤ place)
    (here : At (interrupted front rest) place bytes) :
    At (aviFile other hasIndex (evenRest front rest) count entries) place bytes := by
  have length := length_header compressor 4 false
  have otherLength := length_header otherCompressor (4 + (evenRest front rest).length) hasIndex
  obtain ⟨offset, rfl⟩ := Nat.exists_eq_add_of_le behind
  rw [← length, interrupted] at here
  have there := here.other_front (other.header (4 + (evenRest front rest).length) hasIndex)
    (List.replicate ((interrupted front rest).length % 2) 0 ++ indexOf count entries)
  rw [otherLength, ← List.append_assoc rest] at there
  exact there

/-- A repaired file whose frames all have the bytes that are read of them is opened by its new
index, if the length of its first frame is even. -/
theorem open_repaired {other : Avi} {hasIndex : Bool} {place : Nat} {first : Chunk}
    (compressor : front.media.compressor.length = 4)
    (otherCompressor : other.media.compressor.length = 4)
    (heads : Heads (interrupted front rest) headerBytes chunks)
    (small : (interrupted front rest).length + 9 + 16 * chunks.length < 2 ^ 31)
    (found : (places headerBytes chunks).find? (·.2.tag = fourcc "00dc") = some (place, first))
    (even : first.data.length % 2 = 0) (turns : Nat) : ∃ audioBytes,
    aviOpenInputFile (aviFile other hasIndex (evenRest front rest) chunks.length
        (repairEntries (interrupted front rest) headerBytes chunks)) true (turns + 8) =
      some (.ok ⟨aviFile other hasIndex (evenRest front rest) chunks.length
        (repairEntries (interrupted front rest) headerBytes chunks), headerBytes, other.info,
        headerBytes, some (((repairEntries (interrupted front rest) headerBytes chunks).filter
          (·.IsVideo)).map IndexEntry.video), audioBytes, 0⟩) := by
  have valid := @repairEntries_valid
    (interrupted front rest) headerBytes chunks heads.tag heads.inside
  have movi := @length_evenRest front rest compressor
  have entries := length_repairEntries (interrupted front rest) headerBytes chunks
  have length := @length_aviFile other hasIndex
    (evenRest front rest) chunks.length _ otherCompressor
    (tags_of_valid valid)
  have whole : (interrupted front rest).length = headerBytes + rest.length := by
    rw [interrupted, List.length_append, length_header compressor]
  have member := List.mem_of_find?_eq_some found
  have firstEntry : (repairEntries (interrupted front rest) headerBytes chunks).find? (·.IsVideo) =
      some (repairEntry (interrupted front rest) place first) := by
    rw [repairEntries, List.find?_map]
    exact congrArg (Option.map _) found
  have head : At (aviFile other hasIndex (evenRest front rest) chunks.length
      (repairEntries (interrupted front rest) headerBytes chunks)) place _ :=
    at_repaired compressor otherCompressor (le_of_mem_places member).1
      (heads.head place first member)
  refine open_indexed otherCompressor valid (by omega) (by omega) entries.symm firstEntry ?_ turns
  have eight : (first.tag ++ wordBytes first.data.length).length = 8 := by
    rw [List.length_append, first.tag_length, wordBytes_length]
  refine (head.read eight).trans ?_
  show first.tag ++ wordBytes first.data.length =
    first.tag ++ wordBytes (first.data.length + first.data.length % 2)
  rw [even, Nat.add_zero]

/-- The new entries that are for frames. -/
theorem filter_repairEntries (file : Bytes) (pos : Nat) (kept : List Chunk) :
    (repairEntries file pos kept).filter (·.IsVideo) =
      ((places pos kept).filter (·.2.tag = fourcc "00dc")).map
        fun (place, chunk) => repairEntry file place chunk := by
  rw [repairEntries, List.filter_map]
  rfl

theorem length_filter_repairEntries (file : Bytes) (pos : Nat) (kept : List Chunk) :
    ((repairEntries file pos kept).filter (·.IsVideo)).length = videosOf kept := by
  conv_rhs => rw [videosOf, ← places_snd pos kept, List.countP_map, List.countP_eq_length_filter]
  rw [filter_repairEntries, List.length_map]
  rfl

/-- No frame of a repaired file is a key frame. -/
theorem keyflag_ne (file : Bytes) (pos : Nat) (chunk : Chunk) :
    decide (keyflag file pos chunk = 0x10) = false := by
  unfold keyflag
  split <;> rfl

/-- A repaired file where a frame has not the bytes that are read of it is not opened any more. -/
theorem open_repaired_cut {other : Avi} {hasIndex : Bool}
    (compressor : front.media.compressor.length = 4)
    (otherCompressor : other.media.compressor.length = 4)
    (heads : Heads (interrupted front rest) headerBytes chunks)
    (small : (interrupted front rest).length + 9 + 16 * chunks.length < 2 ^ 31)
    (cut : ¬Flagged (interrupted front rest) headerBytes chunks) (getIndex : Bool) (turns : Nat) :
    aviOpenInputFile (aviFile other hasIndex (evenRest front rest) chunks.length
        (repairEntries (interrupted front rest) headerBytes chunks.dropLast)) getIndex (turns + 4) =
      some (.error .read) := by
  have tags : ∀ chunk ∈ chunks.dropLast, chunk.tag = fourcc "00dc" ∨ chunk.tag = fourcc "01wb" :=
    fun chunk member => heads.tag chunk (List.dropLast_subset chunks member)
  have someChunk : chunks ≠ [] := by
    rintro rfl
    exact cut fun _ member => nomatch member
  have shorter : (chunksBytes chunks.dropLast).length ≤ (chunksBytes chunks).length := by
    conv_rhs => rw [← List.dropLast_append_getLast someChunk, chunksBytes_append,
      List.length_append]
    exact Nat.le_add_right _ _
  have inside := heads.inside
  have valid := @repairEntries_valid (interrupted front rest) headerBytes _ tags (by omega)
  have movi := @length_evenRest front rest compressor
  have entries := length_repairEntries (interrupted front rest) headerBytes chunks.dropLast
  rw [List.length_dropLast] at entries
  have positive := List.length_pos_of_ne_nil someChunk
  have length := @length_aviFile other hasIndex
    (evenRest front rest) chunks.length _ otherCompressor
    (tags_of_valid valid)
  have whole : (interrupted front rest).length = headerBytes + rest.length := by
    rw [interrupted, List.length_append, length_header compressor]
  exact open_cut otherCompressor valid (by omega) (by omega) (by omega) (by omega) getIndex turns

/-- A repaired file can be opened if and only if its frames all have the bytes that are read of
them. Then it has all of them, and a frame that was whole is read with its padding. -/
theorem repaired_iff {first : Chunk} (compressor : front.media.compressor.length = 4)
    (heads : Heads (interrupted front rest) headerBytes chunks)
    (streams : Streams front.info chunks)
    (small : (interrupted front rest).length + 9 + 16 * chunks.length < 2 ^ 31)
    (found : chunks.find? (·.tag = fourcc "00dc") = some first) (even : first.data.length % 2 = 0)
    (turns : Nat) : ∃ repaired,
    aviFixBadFile (interrupted front rest) (chunks.length + (turns + 8)) =
        some (repaired, seconds (videosOf chunks) front.info.fps) ∧
      ((∃ reader, aviOpenInputFile repaired true (turns + 8) = some (.ok reader)) ↔
        Flagged (interrupted front rest) headerBytes chunks) ∧
      ∀ reader, aviOpenInputFile repaired true (turns + 8) = some (.ok reader) →
        reader.videoFrames = videosOf chunks ∧
        ∀ k place chunk there, ((places headerBytes chunks).filter
            (·.2.tag = fourcc "00dc"))[k]? = some (place, chunk) →
          At (interrupted front rest) place chunk.bytes →
          ∃ pos, { reader with pos := there, videoPos := k }.readFrame =
            some ({ reader with pos := pos, videoPos := k + 1 },
              some (chunk.data ++ chunk.pad, false)) := by
  have someFrame : videosOf chunks ≠ 0 := by
    have frame := List.find?_some found
    exact Nat.ne_of_gt (List.countP_pos_iff.mpr ⟨first, List.mem_of_find?_eq_some found, frame⟩)
  obtain ⟨other, hasIndex, otherCompressor, fixed⟩ :=
    (fix_interrupted compressor heads streams turns).2 someFrame
  rw [← places_snd headerBytes chunks, List.find?_map] at found
  obtain ⟨⟨place, first⟩, firstPlaced, rfl⟩ := Option.map_eq_some_iff.mp found
  refine ⟨_, fixed, ?_⟩
  by_cases flagged : Flagged (interrupted front rest) headerBytes chunks
  · rw [keptChunks, if_pos flagged]
    obtain ⟨audioBytes, opened⟩ :=
      @open_repaired _ _ _ _ hasIndex _ _ compressor otherCompressor heads
      small firstPlaced even turns
    refine ⟨iff_of_true ⟨_, opened⟩ flagged, fun reader same => ?_⟩
    rw [opened] at same
    cases same
    refine ⟨?_, fun k place chunk there kth here => ?_⟩
    · rw [Reader.videoFrames, Option.getD_some, List.length_map, length_filter_repairEntries]
    · have bytes := here.length_le chunk.bytes_ne_nil
      have content : (chunk.data ++ chunk.pad).length = chunk.data.length +
          chunk.data.length % 2 := by
        rw [List.length_append, chunk.pad_length]
      have size : chunk.size = 8 + (chunk.data.length + chunk.data.length % 2) := rfl
      rw [chunk.length_bytes] at bytes
      have member := List.mem_of_mem_filter (List.mem_of_getElem? kth)
      have entry : ((repairEntries (interrupted front rest) headerBytes chunks).filter
          (·.IsVideo))[k]? = some (repairEntry (interrupted front rest) place chunk) := by
        rw [filter_repairEntries, List.getElem?_map, kth]
        rfl
      have data : At (aviFile other hasIndex (evenRest front rest) chunks.length
          (repairEntries (interrupted front rest) headerBytes chunks)) (place + 8)
          (chunk.data ++ chunk.pad) := at_repaired compressor otherCompressor
        (Nat.le_trans (le_of_mem_places member).1 (Nat.le_add_right _ 8)) (Chunk.at_data here)
      have inside : place + 8 + (chunk.data.length + chunk.data.length % 2) < 2 ^ 31 := by omega
      obtain ⟨pos, read⟩ := @readFrame_entry _ _
        ⟨aviFile other hasIndex (evenRest front rest) chunks.length
          (repairEntries (interrupted front rest) headerBytes chunks), there, other.info,
            headerBytes,
          some (((repairEntries (interrupted front rest) headerBytes chunks).filter
            (·.IsVideo)).map IndexEntry.video), audioBytes, k⟩ _ _ k rfl rfl rfl entry
              content inside data
      have noKey : decide ((repairEntry (interrupted front rest) place chunk).flags = 0x10) =
        false :=
        keyflag_ne _ _ _
      rw [noKey] at read
      exact ⟨pos, read⟩
  · rw [keptChunks, if_neg flagged]
    have closed := @open_repaired_cut _ _ _ _ hasIndex compressor otherCompressor heads small
      flagged true
      (turns + 4)
    refine ⟨iff_of_false ?_ flagged, fun reader opened => ?_⟩
    · rintro ⟨reader, opened⟩
      rw [closed] at opened
      cases opened
    · rw [closed] at opened
      cases opened

end Interrupted

end ExmOnvif.Avilib
