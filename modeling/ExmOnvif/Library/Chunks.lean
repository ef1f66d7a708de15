/-
This file is about files as strings of bytes: what is read at a place, what a write leaves, and
files that are made of chunks.

A chunk is a tag of four bytes, the length of the data in a word, the data, and a byte more where
the length is odd, so that the next chunk begins at an even place.
-/

import ExmOnvif.Library.Bytes

namespace ExmOnvif.Library

section Places

variable {file bytes more front : List UInt8} {place count : Nat}

/-! ### Reading -/

/-- What is read of a file at a place: less than is asked for where the file ends. -/
def readAt (file : List UInt8) (place count : Nat) : List UInt8 := (file.drop place).take count

/-- The bytes stand in the file at a place. -/
def At (file : List UInt8) (place : Nat) (bytes : List UInt8) : Prop := bytes <+: file.drop place

theorem readAt_behind (ended : file.length ≤ place) : readAt file place count = [] := by
  rw [readAt, List.drop_eq_nil_of_le ended, List.take_nil]

theorem readAt_length (file : List UInt8) (place count : Nat) :
    (readAt file place count).length = min count (file.length - place) := by
  rw [readAt, List.length_take, List.length_drop]

theorem At.read (here : At file place bytes) (length : bytes.length = count) :
    readAt file place count = bytes := by
  rw [← length]
  exact (List.prefix_iff_eq_take.mp here).symm

theorem At.left (here : At file place (bytes ++ more)) : At file place bytes :=
  (List.prefix_append bytes more).trans here

theorem At.right (here : At file place (bytes ++ more)) :
    At file (place + bytes.length) more := by
  obtain ⟨rest, split⟩ := here
  refine ⟨rest, ?_⟩
  rw [← List.drop_drop, ← split, List.append_assoc, List.drop_left]

theorem At.shorter (here : At file place bytes) (front : more <+: bytes) : At file place more :=
  front.trans here

theorem At.length_le (here : At file place bytes) (some : bytes ≠ []) :
    place + bytes.length ≤ file.length := by
  have within : bytes.length ≤ (file.drop place).length := List.IsPrefix.length_le here
  rw [List.length_drop] at within
  have positive := List.length_pos_of_ne_nil some
  omega

theorem at_start (file : List UInt8) : At file 0 file := List.prefix_rfl

/-- What stands behind a front of known length. -/
theorem at_behind (front bytes rest : List UInt8) (length : front.length = place) :
    At (front ++ (bytes ++ rest)) place bytes := by
  subst length
  rw [At, List.drop_left]
  exact List.prefix_append _ _

/-- What stands in a piece of the file stands in the file. -/
theorem At.within {start : Nat} (piece : At file start front) (here : At front place bytes) :
    At file (start + place) bytes := by
  obtain ⟨rest, split⟩ := piece
  refine here.trans ?_
  rw [← List.drop_drop, ← split]
  by_cases inside : place ≤ front.length
  · rw [List.drop_append_of_le_length inside]
    exact List.prefix_append _ _
  · rw [List.drop_eq_nil_of_le (Nat.le_of_not_le inside)]
    exact List.nil_prefix

/-- What stands behind a front stands behind another one, whatever follows. -/
theorem At.other_front {rest : List UInt8} (here : At (front ++ rest) (front.length + place) bytes)
    (other more : List UInt8) : At (other ++ (rest ++ more)) (other.length + place) bytes := by
  rw [At, ← List.drop_drop, List.drop_left] at here
  have piece : At (other ++ (rest ++ more)) other.length rest := at_behind other rest more rfl
  exact piece.within here

/-! ### Writing -/

/-- The file after a write at a place. A gap in front of it reads as zeros. -/
def writeAt (file : List UInt8) (place : Nat) (bytes : List UInt8) : List UInt8 :=
  file.take place ++ (List.replicate (place - file.length) 0 ++
    (bytes ++ file.drop (place + bytes.length)))

theorem writeAt_eq (reached : place ≤ file.length) :
    writeAt file place bytes = file.take place ++ (bytes ++ file.drop (place + bytes.length)) := by
  rw [writeAt, Nat.sub_eq_zero_of_le reached, List.replicate_zero, List.nil_append]

/-- Up to its end a write leaves what was in front of it, and what it has written. -/
theorem take_writeAt (bytes : List UInt8) (reached : place ≤ file.length) :
    (writeAt file place bytes).take (place + bytes.length) = file.take place ++ bytes := by
  rw [writeAt_eq reached, ← List.append_assoc]
  refine List.take_left' ?_
  rw [List.length_append, List.length_take_of_le reached]

theorem take_writeAt_front (bytes : List UInt8) (reached : place ≤ file.length) :
    (writeAt file place bytes).take place = file.take place := by
  rw [writeAt_eq reached]
  exact List.take_left' (List.length_take_of_le reached)

/-- A write at the start leaves what is behind it. -/
theorem take_writeAt_start (bytes : List UInt8) (within : bytes.length ≤ count) :
    (writeAt file 0 bytes).take count = bytes ++ (file.take count).drop bytes.length := by
  rw [writeAt_eq (Nat.zero_le _), List.take_zero, List.nil_append, Nat.zero_add, List.take_append,
    List.take_of_length_le within, List.drop_take]

/-- A write over all of a file leaves what it has written. -/
theorem writeAt_over (within : file.length ≤ bytes.length) : writeAt file 0 bytes = bytes := by
  rw [writeAt_eq (Nat.zero_le _), List.take_zero, List.nil_append, Nat.zero_add,
    List.drop_eq_nil_of_le within, List.append_nil]

theorem writeAt_end (file bytes : List UInt8) : writeAt file file.length bytes = file ++ bytes := by
  rw [writeAt_eq (Nat.le_refl _), List.take_length, List.drop_eq_nil_of_le (Nat.le_add_right _ _),
    List.append_nil]

theorem length_writeAt (bytes : List UInt8) (reached : place ≤ file.length) :
    (writeAt file place bytes).length = max file.length (place + bytes.length) := by
  rw [writeAt_eq reached, List.length_append, List.length_append, List.length_take_of_le reached,
    List.length_drop]
  omega

end Places

/-! ### Chunks -/

/-- A chunk. -/
structure Chunk where
  tag : List UInt8
  data : List UInt8
  pad : List UInt8
  tag_length : tag.length = 4
  pad_length : pad.length = data.length % 2
deriving DecidableEq

variable {file : List UInt8} {place : Nat}

namespace Chunk

/-- How a chunk is stored. -/
def bytes (chunk : Chunk) : List UInt8 :=
  chunk.tag ++ (wordBytes chunk.data.length ++ (chunk.data ++ chunk.pad))

/-- The bytes it takes. -/
def size (chunk : Chunk) : Nat := 8 + (chunk.data.length + chunk.data.length % 2)

theorem length_bytes (chunk : Chunk) : chunk.bytes.length = chunk.size := by
  simp only [bytes, size, List.length_append, chunk.tag_length, chunk.pad_length, wordBytes_length]
  omega

theorem bytes_ne_nil (chunk : Chunk) : chunk.bytes ≠ [] := by
  refine List.ne_nil_of_length_pos ?_
  rw [length_bytes, size]
  omega

theorem size_even (chunk : Chunk) : chunk.size % 2 = 0 := by
  rw [size]
  omega

/-- The tag and the length are what is read first. -/
theorem read_head {chunk : Chunk} (here : At file place chunk.bytes) :
    readAt file place 8 = chunk.tag ++ wordBytes chunk.data.length := by
  rw [bytes, ← List.append_assoc] at here
  refine here.left.read ?_
  rw [List.length_append, chunk.tag_length, wordBytes_length]

/-- Behind them stand the data and the padding. -/
theorem at_data {chunk : Chunk} (here : At file place chunk.bytes) :
    At file (place + 8) (chunk.data ++ chunk.pad) := by
  rw [bytes, ← List.append_assoc] at here
  have behind := here.right
  rwa [List.length_append, chunk.tag_length, wordBytes_length] at behind

end Chunk

variable {chunk : Chunk} {chunks : List Chunk}

/-- How some chunks are stored. -/
def chunksBytes (chunks : List Chunk) : List UInt8 := chunks.flatMap Chunk.bytes

/-- The chunks with the places where they begin, from a place on. -/
def places : Nat → List Chunk → List (Nat × Chunk)
  | _, [] => []
  | place, chunk :: chunks => (place, chunk) :: places (place + chunk.size) chunks

theorem chunksBytes_cons (chunk : Chunk) (chunks : List Chunk) :
    chunksBytes (chunk :: chunks) = chunk.bytes ++ chunksBytes chunks := rfl

theorem chunksBytes_append (chunks others : List Chunk) :
    chunksBytes (chunks ++ others) = chunksBytes chunks ++ chunksBytes others :=
  List.flatMap_append

theorem chunksBytes_even (chunks : List Chunk) : (chunksBytes chunks).length % 2 = 0 := by
  induction chunks with
  | nil => rfl
  | cons chunk chunks inductionHypothesis =>
    rw [chunksBytes_cons, List.length_append, chunk.length_bytes]
    have even := chunk.size_even
    omega

theorem places_append (place : Nat) (chunks others : List Chunk) :
    places place (chunks ++ others) =
      places place chunks ++ places (place + (chunksBytes chunks).length) others := by
  induction chunks generalizing place with
  | nil => rfl
  | cons chunk chunks inductionHypothesis =>
    rw [List.cons_append, places, places, inductionHypothesis, chunksBytes_cons, List.length_append,
      chunk.length_bytes, Nat.add_assoc, List.cons_append]

theorem places_snd (start : Nat) (chunks : List Chunk) :
    (places start chunks).map Prod.snd = chunks := by
  induction chunks generalizing start with
  | nil => rfl
  | cons chunk chunks inductionHypothesis =>
    rw [places, List.map_cons, inductionHypothesis]

/-- A chunk begins and ends between the first place and the last one. -/
theorem le_of_mem_places {start : Nat} (member : (place, chunk) ∈ places start chunks) :
    start ≤ place ∧ place + chunk.size ≤ start + (chunksBytes chunks).length := by
  induction chunks generalizing start with
  | nil => cases member
  | cons first chunks inductionHypothesis =>
    rw [chunksBytes_cons, List.length_append, first.length_bytes]
    rcases List.mem_cons.mp member with same | later
    · obtain ⟨rfl, rfl⟩ := Prod.mk.inj same
      omega
    · have before := inductionHypothesis later
      omega

/-- Each chunk stands at its place. -/
theorem at_of_mem_places {start : Nat} (here : At file start (chunksBytes chunks))
    (member : (place, chunk) ∈ places start chunks) : At file place chunk.bytes := by
  induction chunks generalizing start with
  | nil => cases member
  | cons first chunks inductionHypothesis =>
    rw [chunksBytes_cons] at here
    rcases List.mem_cons.mp member with same | later
    · obtain ⟨rfl, rfl⟩ := Prod.mk.inj same
      exact here.left
    · have behind := here.right
      rw [first.length_bytes] at behind
      exact inductionHypothesis behind later

end ExmOnvif.Library
