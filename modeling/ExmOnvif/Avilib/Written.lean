/-
This file proves what the writer of AVI files leaves in the file: the header, the chunks of the
calls that came through, and an index with an entry for every call for which there was room.

A write that fails within a buffer is not the end of it. The count goes back by one, and the byte in
front of the failure is written once more.
-/

import ExmOnvif.Avilib.Output

namespace ExmOnvif.Avilib

open Library

/-! ### Writing bytes -/

section Write

variable {buf written : Bytes} {replies : List (Option Nat)} {r ret : Nat}

/-- A write gives back the length, and then a byte too much for every failure, or minus one, and
then the failures are one more than the bytes. -/
theorem writeLoop_counts (small : buf.length < 2 ^ 31) (within : r ≤ buf.length)
    (ran : writeLoop buf replies r = some (written, ret)) :
    (ret = buf.length ∧ r + written.length = buf.length + replies.count none) ∨
      (ret = 2 ^ 32 - 1 ∧ r + written.length + 1 = replies.count none) := by
  induction replies generalizing r written with
  | nil =>
    rw [writeLoop] at ran
    by_cases on : r < buf.length
    · rw [if_pos on] at ran
      cases ran
    · rw [if_neg on] at ran
      cases ran
      exact Or.inl ⟨by omega, by simp only [List.length_nil, List.count_nil]; omega⟩
  | cons reply replies inductionHypothesis =>
    cases reply with
    | some count =>
      rw [writeLoop] at ran
      by_cases on : r < buf.length
      · rw [if_pos on] at ran
        obtain ⟨⟨behind, ret'⟩, rest, same⟩ := Option.map_eq_some_iff.mp ran
        cases same
        have piece : ((buf.drop r).take count).length ≤ buf.length - r := by
          rw [List.length_take, List.length_drop]
          exact Nat.min_le_right _ _
        have counts := inductionHypothesis (by omega) rest
        rw [List.length_append, List.count_cons_of_ne (by nofun)]
        omega
      · rw [if_neg on] at ran
        cases ran
    | none =>
      rw [writeLoop] at ran
      by_cases on : r < buf.length
      · rw [if_pos on] at ran
        rw [List.count_cons_self]
        rcases Nat.eq_zero_or_pos r with rfl | positive
        · -- The count is now the largest number, and the loop ends.
          cases replies with
          | nil =>
            rw [writeLoop, if_neg (by omega)] at ran
            cases ran
            exact Or.inr ⟨rfl, rfl⟩
          | cons next replies =>
            cases next <;> rw [writeLoop, if_neg (by omega)] at ran <;> cases ran
        · have back : (r + (2 ^ 32 - 1)) % 2 ^ 32 = r - 1 := by omega
          rw [back] at ran
          have counts := inductionHypothesis (by omega) ran
          omega
      · rw [if_neg on] at ran
        cases ran

/-- Without a failure the rest of the buffer is written. -/
theorem writeLoop_of_no_failure (clean : none ∉ replies) (within : r ≤ buf.length)
    (ran : writeLoop buf replies r = some (written, ret)) : written = buf.drop r := by
  induction replies generalizing r written with
  | nil =>
    rw [writeLoop] at ran
    by_cases on : r < buf.length
    · rw [if_pos on] at ran
      cases ran
    · rw [if_neg on] at ran
      cases ran
      rw [List.drop_eq_nil_of_le (Nat.le_of_not_lt on)]
  | cons reply replies inductionHypothesis =>
    cases reply with
    | none => exact absurd List.mem_cons_self clean
    | some count =>
      rw [writeLoop] at ran
      by_cases on : r < buf.length
      · rw [if_pos on] at ran
        obtain ⟨⟨behind, ret'⟩, rest, same⟩ := Option.map_eq_some_iff.mp ran
        cases same
        have piece : ((buf.drop r).take count).length ≤ buf.length - r := by
          rw [List.length_take, List.length_drop]
          exact Nat.min_le_right _ _
        rw [inductionHypothesis (fun member => clean (List.mem_cons_of_mem _ member))
          (by omega) rest, ← List.drop_drop]
        conv_rhs => rw [← List.take_append_drop count (buf.drop r)]
        congr 1
        by_cases short : count ≤ (buf.drop r).length
        · rw [List.length_take_of_le short]
        · rw [List.take_of_length_le (by omega), List.drop_eq_nil_of_le (Nat.le_refl _),
            List.drop_eq_nil_of_le (by omega)]
      · rw [if_neg on] at ran
        cases ran

/-- `avi_write` writes the buffer and returns its length if and only if no call of `write` fails. -/
theorem aviWrite_clean_iff (small : buf.length < 2 ^ 31)
    (ran : aviWrite buf replies = some (written, ret)) :
    (ret = buf.length ∧ written = buf) ↔ none ∉ replies := by
  have counts := writeLoop_counts small (Nat.zero_le _) ran
  rw [Nat.zero_add] at counts
  constructor
  · rintro ⟨whole, exact_⟩ failed
    have positive := List.count_pos_iff.mpr failed
    have length := congrArg List.length exact_
    omega
  · intro clean
    have none := List.count_eq_zero.mpr clean
    have same := writeLoop_of_no_failure clean (Nat.zero_le _) ran
    rw [List.drop_zero] at same
    exact ⟨by omega, same⟩

/-- A chunk is written as it is if and only if no call of `write` fails. -/
theorem reach_whole_iff {chunk : Chunk} {head data : Bytes × Nat} {first second : List (Option Nat)}
    (small : chunk.data.length + 1 < 2 ^ 31)
    (headRan : aviWrite (chunk.tag ++ wordBytes chunk.data.length) first = some head)
    (dataRan : aviWrite (chunk.data ++ chunk.pad) second = some data) :
    Reach.of chunk head data = .whole ↔ none ∉ first ∧ none ∉ second := by
  have headLength : (chunk.tag ++ wordBytes chunk.data.length).length = 8 := by
    rw [List.length_append, chunk.tag_length, wordBytes_length]
  have dataLength : (chunk.data ++ chunk.pad).length < 2 ^ 31 := by
    rw [List.length_append, chunk.pad_length]
    omega
  have parts : chunk.bytes =
      (chunk.tag ++ wordBytes chunk.data.length) ++ (chunk.data ++ chunk.pad) := by
    rw [Chunk.bytes, List.append_assoc]
  have headSmall : (chunk.tag ++ wordBytes chunk.data.length).length < 2 ^ 31 := by
    rw [headLength]
    decide
  rw [← aviWrite_clean_iff headSmall headRan, ← aviWrite_clean_iff dataLength dataRan, Reach.of,
    headLength]
  by_cases headWhole : head.2 = 8
  · rw [if_neg (not_not.mpr headWhole)]
    by_cases dataWhole : data.2 = (chunk.data ++ chunk.pad).length
    · have headCounts := writeLoop_counts headSmall (Nat.zero_le _) headRan
      rw [if_neg (not_not.mpr dataWhole)]
      -- At least as many bytes as there are have gone out, so that the front is that of the chunk.
      have same : head.1 ++ data.1 = chunk.bytes ↔
          head.1 = chunk.tag ++ wordBytes chunk.data.length ∧ data.1 = chunk.data ++ chunk.pad := by
        rw [parts]
        refine ⟨fun all => ?_, fun both => by rw [both.1, both.2]⟩
        have dataCounts := writeLoop_counts dataLength (Nat.zero_le _) dataRan
        have lengths := congrArg List.length all
        rw [List.length_append, List.length_append] at lengths
        exact List.append_inj all (by omega)
      by_cases exact_ : head.1 ++ data.1 = chunk.bytes
      · rw [if_pos exact_]
        exact iff_of_true rfl ⟨⟨headWhole, (same.mp exact_).1⟩, dataWhole, (same.mp exact_).2⟩
      · rw [if_neg exact_]
        exact iff_of_false (fun other => by cases other)
          fun all => exact_ (same.mpr ⟨all.1.2, all.2.2⟩)
    · rw [if_pos dataWhole]
      exact iff_of_false (fun other => by cases other) fun all => dataWhole all.2.1
  · rw [if_pos headWhole]
    exact iff_of_false (fun other => by cases other) fun all => headWhole all.1.1

/-- `avi_write` writes the buffer and returns its length if and only if no call of `write` fails.
Where it returns the length although some failed, there are as many bytes too much; and it returns
an error only behind one failure more than bytes. -/
theorem aviWrite_exact (small : buf.length < 2 ^ 31)
    (ran : aviWrite buf replies = some (written, ret)) :
    ((ret = buf.length ∧ written = buf) ↔ none ∉ replies) ∧
      ((ret = buf.length ∧ written.length = buf.length + replies.count none) ∨
        (ret = 2 ^ 32 - 1 ∧ written.length + 1 = replies.count none)) := by
  have counts := writeLoop_counts small (Nat.zero_le _) ran
  rw [Nat.zero_add] at counts
  exact ⟨aviWrite_clean_iff small ran, counts⟩

theorem aviWrite_exact_repeated : aviWrite [1, 2] [some 1, none, some 2] = some ([1, 1, 2], 2) ∧
    (((2 = [1, 2].length ∧ [1, 1, 2] = ([1, 2] : Bytes)) ↔
        none ∉ [some 1, none, some 2]) ∧
      ((2 = [1, 2].length ∧ [1, 1, 2].length = [1, 2].length + [some 1, none, some 2].count none) ∨
        (2 = 2 ^ 32 - 1 ∧ [1, 1, 2].length + 1 = [some 1, none, some 2].count none))) :=
  ⟨by decide, @aviWrite_exact [1, 2] [1, 1, 2] [some 1, none, some 2] 2 (by decide) (by decide)⟩

end Write

/-! ### Runs -/

/-- A call of `AVI_write_frame` or `AVI_write_audio`. -/
structure Call where
  item : Item
  behind : UInt8
  reach : Reach
deriving DecidableEq, Repr

namespace Call

/-- The chunk is written. -/
def Whole (call : Call) : Prop := call.reach = .whole

instance (call : Call) : Decidable call.Whole := inferInstanceAs (Decidable (_ = _))

/-- The chunk is not written with bytes too many. -/
def Clean (call : Call) : Prop := call.reach.Clean

instance (call : Call) : Decidable call.Clean := inferInstanceAs (Decidable call.reach.Clean)

theorem Whole.clean {call : Call} (whole : call.Whole) : call.Clean := by
  rw [Clean, whole]
  trivial

/-- The chunk of the call. -/
def chunk (call : Call) : Chunk := call.item.chunk call.behind

/-- The entry of the call, for the place where its chunk begins. -/
def entry (call : Call) (pos : Nat) : IndexEntry :=
  ⟨call.item.tag, call.item.flags, pos, call.item.data.length⟩

/-- The bytes by which the call makes the file longer. -/
def growth (call : Call) : Nat := if call.Whole then call.chunk.size else 0

end Call

/-- The chunks of the calls that came through. -/
def chunksOf (calls : List Call) : List Chunk := (calls.filter (·.Whole)).map Call.chunk

/-- The entries of some calls, each for the place where the file ends before it. -/
def entriesFrom : Nat → List Call → List IndexEntry
  | _, [] => []
  | pos, call :: calls => call.entry pos :: entriesFrom (pos + call.growth) calls

/-- The calls for which there is room. -/
def Avi.entered : Avi → List Call → List Call
  | _, [] => []
  | avi, call :: calls =>
    (if avi.Room call.item.data.length then [call] else []) ++
      entered (avi.write call.item call.behind call.reach).1 calls

/-- The state after some calls. -/
def Avi.run (avi : Avi) (calls : List Call) : Avi :=
  calls.foldl (fun avi call => (avi.write call.item call.behind call.reach).1) avi

theorem chunksOf_cons (call : Call) (calls : List Call) :
    chunksOf (call :: calls) =
      (if call.Whole then [call.chunk] else []) ++ chunksOf calls := by
  unfold chunksOf
  by_cases whole : call.Whole
  · simp only [List.filter_cons, decide_eq_true whole, if_true, if_pos whole, List.map_cons,
      List.singleton_append]
  · simp only [List.filter_cons, decide_eq_false whole, Bool.false_eq_true, if_false, if_neg whole,
      List.nil_append]

theorem chunksBytes_call (call : Call) :
    chunksBytes (chunksOf [call]) = if call.Whole then call.chunk.bytes else [] := by
  rw [chunksOf_cons]
  by_cases whole : call.Whole
  · rw [if_pos whole, if_pos whole]
    exact List.append_nil _
  · rw [if_neg whole, if_neg whole]
    rfl

theorem chunksBytes_chunksOf_cons (call : Call) (calls : List Call) :
    chunksBytes (chunksOf (call :: calls)) =
      chunksBytes (chunksOf [call]) ++ chunksBytes (chunksOf calls) := by
  rw [chunksOf_cons, chunksOf_cons call [], chunksBytes_append, chunksBytes_append]
  exact congrArg (· ++ _) (List.append_nil _).symm

theorem length_chunksBytes_call (call : Call) :
    (chunksBytes (chunksOf [call])).length = call.growth := by
  rw [chunksBytes_call, Call.growth]
  split
  · exact Chunk.length_bytes _
  · rfl

/-- What is kept while chunks are written. -/
structure Laid (start avi : Avi) (entered : List Call) : Prop where
  media : avi.media = start.media
  fpIdx : avi.fpIdx = start.fpIdx
  idx : avi.idx = start.idx ++ entriesFrom start.pos entered
  nIdx : avi.nIdx = start.nIdx + entered.length
  pos : avi.pos = start.pos + (chunksBytes (chunksOf entered)).length
  offset : avi.offset = avi.pos
  reached : avi.pos ≤ avi.file.length
  file : avi.file.take avi.pos = start.file.take start.pos ++ chunksBytes (chunksOf entered)

variable {start avi : Avi} {call : Call}

/-- A call for which there is no room changes nothing. -/
theorem write_of_full (full : ¬avi.Room call.item.data.length) :
    (avi.write call.item call.behind call.reach).1 = avi := by
  rw [Avi.write, Avi.writeData, if_pos full]
  rfl

/-- A call for which there is room makes its entry, and its chunk if that is written. -/
theorem laid_write (there : avi.offset = avi.pos) (reached : avi.pos ≤ avi.file.length)
    (room : avi.Room call.item.data.length) (clean : call.Clean) :
    Laid avi (avi.write call.item call.behind call.reach).1 [call] := by
  obtain ⟨media, file, pos, offset, nIdx, idx, fpIdx, videoFrames, audioBytes⟩ := avi
  obtain rfl : offset = pos := there
  obtain ⟨item, behind, reach⟩ := call
  have bytes := chunksBytes_call ⟨item, behind, reach⟩
  have grown := length_chunksBytes_call ⟨item, behind, reach⟩
  rw [Avi.write, Avi.writeData, if_neg (not_not.mpr room)]
  cases reach with
  | whole =>
    have longer := length_writeAt (item.chunk behind).bytes reached
    have all := take_writeAt (item.chunk behind).bytes reached
    rw [Chunk.length_bytes] at longer all
    cases item <;>
      exact ⟨rfl, rfl, rfl, rfl, congrArg _ grown.symm, rfl,
        Nat.le_trans (Nat.le_max_right _ _) (Nat.le_of_eq longer.symm),
          all.trans (congrArg _ bytes.symm)⟩
  | repeated written => exact clean.elim
  | broken written =>
    refine ⟨rfl, rfl, rfl, rfl, rfl, rfl, ?_, ?_⟩
    · have longer := length_writeAt written reached
      exact Nat.le_trans reached
        (Nat.le_trans (Nat.le_max_left _ _) (Nat.le_of_eq longer.symm))
    · exact (take_writeAt_front written reached).trans (List.append_nil _).symm

theorem entriesFrom_append (pos : Nat) (calls others : List Call) :
    entriesFrom pos (calls ++ others) =
      entriesFrom pos calls ++
        entriesFrom (pos + (chunksBytes (chunksOf calls)).length) others := by
  induction calls generalizing pos with
  | nil => rfl
  | cons call calls inductionHypothesis =>
    rw [List.cons_append, entriesFrom, entriesFrom, inductionHypothesis, chunksBytes_chunksOf_cons,
      List.length_append, length_chunksBytes_call, Nat.add_assoc, List.cons_append]

theorem chunksOf_append (calls others : List Call) :
    chunksOf (calls ++ others) = chunksOf calls ++ chunksOf others := by
  rw [chunksOf, List.filter_append, List.map_append]
  rfl

/-- Where all came through, every call has its chunk. -/
theorem chunksOf_whole {calls : List Call} (whole : ∀ call ∈ calls, call.Whole) :
    chunksOf calls = calls.map Call.chunk := by
  rw [chunksOf, List.filter_eq_self.mpr fun call member => decide_eq_true (whole call member)]

theorem Laid.refl (there : avi.offset = avi.pos) (reached : avi.pos ≤ avi.file.length) :
    Laid avi avi [] where
  media := rfl
  fpIdx := rfl
  idx := (List.append_nil _).symm
  nIdx := rfl
  pos := rfl
  offset := there
  reached := reached
  file := (List.append_nil _).symm

theorem Laid.trans {middle : Avi} {calls others : List Call} (first : Laid start middle calls)
    (second : Laid middle avi others) : Laid start avi (calls ++ others) where
  media := second.media.trans first.media
  fpIdx := second.fpIdx.trans first.fpIdx
  idx := by rw [second.idx, first.idx, first.pos, entriesFrom_append, List.append_assoc]
  nIdx := by rw [second.nIdx, first.nIdx, List.length_append, Nat.add_assoc]
  pos := by
    rw [second.pos, first.pos, chunksOf_append, chunksBytes_append, List.length_append,
      Nat.add_assoc]
  offset := second.offset
  reached := second.reached
  file := by rw [second.file, first.file, chunksOf_append, chunksBytes_append, List.append_assoc]

/-- What is kept over any number of calls. -/
theorem laid_run (there : avi.offset = avi.pos) (reached : avi.pos ≤ avi.file.length)
    (calls : List Call) (clean : ∀ call ∈ avi.entered calls, call.Clean) :
    Laid avi (avi.run calls) (avi.entered calls) := by
  induction calls generalizing avi with
  | nil => exact Laid.refl there reached
  | cons call calls inductionHypothesis =>
    have written : Laid avi (avi.write call.item call.behind call.reach).1
        (if avi.Room call.item.data.length then [call] else []) := by
      by_cases room : avi.Room call.item.data.length
      · rw [if_pos room]
        rw [Avi.entered, if_pos room] at clean
        exact laid_write there reached room (clean call List.mem_cons_self)
      · rw [if_neg room, write_of_full room]
        exact Laid.refl there reached
    refine written.trans (inductionHypothesis written.offset written.reached fun other member => ?_)
    exact clean other (List.mem_append_right _ member)

/-! ### The closed file -/

theorem fourcc_length_four {text : String} (four : text.toList.length = 4) :
    (fourcc text).length = 4 := by
  rw [fourcc, List.length_map, four]

theorem length_words (values : List Nat) : (words values).length = 4 * values.length := by
  induction values with
  | nil => rfl
  | cons value values inductionHypothesis =>
    have cons : words (value :: values) = wordBytes value ++ words values := rfl
    rw [cons, List.length_append, inductionHypothesis, wordBytes_length, List.length_cons]
    omega

@[simp]
theorem length_shortBytes (value : Nat) : (shortBytes value).length = 2 := rfl

@[simp]
theorem length_longBytes (value : Int) : (longBytes value).length = 4 := rfl

@[simp]
theorem length_list (name : String) (content : Bytes) (four : name.toList.length = 4) :
    (Avi.list name content).length = 12 + content.length := by
  have nameLength := fourcc_length_four four
  have listLength : (fourcc "LIST").length = 4 := rfl
  simp only [Avi.list, List.length_append, wordBytes_length, nameLength, listLength]
  omega

variable {moviLen : Nat} {hasIndex : Bool}

theorem length_mainHeader (avi : Avi) (hasIndex : Bool) :
    (avi.mainHeader hasIndex).length = 64 := rfl

theorem length_videoStrh (compressor : avi.media.compressor.length = 4) :
    avi.videoStrh.length = 72 := by
  have tags : (fourcc "strh").length = 4 ∧ (fourcc "vids").length = 4 := ⟨rfl, rfl⟩
  simp only [Avi.videoStrh, List.length_append, compressor, tags, length_words, length_longBytes,
    wordBytes_length, List.length_cons, List.length_nil]

theorem length_videoStrf (compressor : avi.media.compressor.length = 4) :
    avi.videoStrf.length = 48 := by
  have tag : (fourcc "strf").length = 4 := rfl
  simp only [Avi.videoStrf, List.length_append, compressor, tag, length_words, length_shortBytes,
    wordBytes_length, List.length_cons, List.length_nil]

theorem length_audioStrh (avi : Avi) : avi.audioStrh.length = 72 := by
  have tags : (fourcc "strh").length = 4 ∧ (fourcc "auds").length = 4 := ⟨rfl, rfl⟩
  simp only [Avi.audioStrh, List.length_append, tags, length_words, length_longBytes,
    wordBytes_length, List.length_cons, List.length_nil]

theorem length_audioStrf (avi : Avi) : avi.audioStrf.length = 24 := by
  have tag : (fourcc "strf").length = 4 := rfl
  simp only [Avi.audioStrf, List.length_append, tag, length_words, length_shortBytes,
    wordBytes_length, List.length_cons, List.length_nil]

/-- The list of the headers is as long as it takes. -/
theorem length_hdrl (compressor : avi.media.compressor.length = 4) (hasIndex : Bool) :
    (avi.hdrl hasIndex).length = if avi.media.aChans ≠ 0 then 304 else 196 := by
  rw [Avi.hdrl, List.length_append, List.length_append, length_mainHeader,
    length_list "strl" _ rfl, List.length_append, length_videoStrh compressor,
    length_videoStrf compressor]
  by_cases sound : avi.media.aChans ≠ 0
  · rw [if_pos sound, if_pos sound, length_list "strl" _ rfl, List.length_append, length_audioStrh,
      length_audioStrf]
  · rw [if_neg sound, if_neg sound, List.length_nil]

/-- The header fills its room. -/
theorem length_header (compressor : avi.media.compressor.length = 4) (moviLen : Nat)
    (hasIndex : Bool) : (avi.header moviLen hasIndex).length = headerBytes := by
  have tags : (fourcc "RIFF").length = 4 ∧ (fourcc "AVI ").length = 4 ∧
      (fourcc "JUNK").length = 4 ∧ (fourcc "AVI file").length = 8 ∧
      (fourcc "LIST").length = 4 ∧ (fourcc "movi").length = 4 :=
    ⟨rfl, rfl, rfl, rfl, rfl, rfl⟩
  have list := length_list "hdrl" (avi.hdrl hasIndex) rfl
  have inner := length_hdrl compressor hasIndex
  simp only [Avi.header, List.length_append, list, tags, wordBytes_length, List.length_replicate,
    Avi.njunk, headerBytes]
  split at inner <;> omega

/-- The closed file is the header, what was written, and the index. -/
theorem close_eq (compressor : avi.media.compressor.length = 4) (there : avi.offset = avi.pos)
    (reached : avi.pos ≤ avi.file.length) (room : headerBytes ≤ avi.pos) :
    ∃ (front : Avi) (hasIndex : Bool), front.media = avi.media ∧
      avi.close = front.header (avi.pos - headerBytes + 4) hasIndex ++
        ((avi.file.take avi.pos).drop headerBytes ++ avi.indexBytes) := by
  refine ⟨avi.writeIndex, !avi.fpIdx || !avi.idx.isEmpty, rfl, ?_⟩
  have length := @length_header avi.writeIndex compressor (avi.pos - headerBytes + 4)
    (!avi.fpIdx || !avi.idx.isEmpty)
  have behind : headerBytes ≤ (avi.file.take avi.pos).length := by
    rwa [List.length_take_of_le reached]
  have longer : (avi.writeIndex.header (avi.pos - headerBytes + 4)
      (!avi.fpIdx || !avi.idx.isEmpty)).length ≤ avi.pos + avi.indexBytes.length := by
    rw [length]
    exact Nat.le_add_right_of_le room
  have chunks : (avi.writeIndex.file.take (avi.pos + avi.indexBytes.length)).drop headerBytes =
      (avi.file.take avi.pos).drop headerBytes ++ avi.indexBytes := by
    rw [Avi.writeIndex, there, take_writeAt avi.indexBytes reached,
      List.drop_append_of_le_length behind]
  refine (take_writeAt_start _ longer).trans ?_
  rw [length]
  exact congrArg _ chunks

end ExmOnvif.Avilib
