/-
This file says what the checksum of a block is worth.

The table is that of CRC-32, but one word of the block is taken in at a time, and only its lowest
byte counts. A change of another byte is never seen, and neither is one behind the last whole
word. A change of a byte that counts always changes the checksum.

`verify_crc` returns the checksum it expected as its error code. Where the expected checksum is
`0` the block passes, whatever checksum it carries.
-/

import ExmOnvif.Library.Crc
import ExmOnvif.Recorder.SecBlocks

namespace ExmOnvif.Recorder

open Library

namespace SecBlocks

/-! ### The table and the polynomial -/

/-- The polynomial of CRC-32, lowest bit first. -/
def crcPoly : BitVec 32 := 0xedb88320#32

/-- CRC-32 of a message, bit by bit. -/
def crc32Of (message : List (BitVec 8)) : BitVec 32 :=
  ~~~remainder crcPoly (BitVec.allOnes 32) message

/-- The table holds the remainders of single bytes. -/
theorem crc32Tab_eq (byte : BitVec 8) :
    (crc32Tab.getD byte.toNat 0).toBitVec = bitSteps crcPoly 8 (byte.setWidth 32) := by
  have entries : ∀ index : Fin 256, (crc32Tab.getD index 0).toBitVec =
      bitSteps crcPoly 8 (BitVec.ofNat 32 index) := by decide +kernel
  rw [← BitVec.ofNat_toNat]
  exact entries byte.toFin

/-- One turn of the loop adds the lowest byte of the word. -/
theorem crc32Step_eq (crc word : UInt32) : (crc32Step crc word).toBitVec =
    byteStep crcPoly crc.toBitVec (word.toBitVec.setWidth 8) := by
  have index : ((crc ^^^ word) &&& 0xff).toNat = ((crc ^^^ word).toBitVec.setWidth 8).toNat := by
    rw [UInt32.toNat_and, BitVec.toNat_setWidth]
    exact Nat.and_two_pow_sub_one_eq_mod _ 8
  have low : (crc.toBitVec ^^^ (word.toBitVec.setWidth 8).setWidth 32).setWidth 8 =
      (crc ^^^ word).toBitVec.setWidth 8 := by
    rw [UInt32.toBitVec_xor, BitVec.setWidth_xor, BitVec.setWidth_xor,
      BitVec.setWidth_setWidth_of_le _ (by decide), BitVec.setWidth_eq]
  have high : (crc.toBitVec ^^^ (word.toBitVec.setWidth 8).setWidth 32) >>> 8 =
      crc.toBitVec >>> 8 := by
    refine BitVec.eq_of_getLsbD_eq fun place _ => ?_
    rw [BitVec.getLsbD_ushiftRight, BitVec.getLsbD_ushiftRight, BitVec.getLsbD_xor,
      BitVec.getLsbD_setWidth, BitVec.getLsbD_of_ge (word.toBitVec.setWidth 8) _ (by omega),
      Bool.and_false, Bool.xor_false]
  rw [byteStep, bitSteps_eight, low, high, ← crc32Tab_eq, ← index]
  rfl

/-- The checksum of words is CRC-32 of their lowest bytes. -/
theorem crc32_eq (words : List UInt32) :
    (crc32 words).toBitVec = crc32Of (words.map fun word => word.toBitVec.setWidth 8) := by
  have turns : ∀ start : UInt32, (words.foldl crc32Step start).toBitVec =
      remainder crcPoly start.toBitVec (words.map fun word => word.toBitVec.setWidth 8) := by
    induction words with
    | nil => exact fun _ => rfl
    | cons word words inductionHypothesis =>
      intro start
      rw [List.foldl_cons, inductionHypothesis, crc32Step_eq, List.map_cons]
      rfl
  rw [crc32, UInt32.toBitVec_xor, turns, crc32Of]
  exact BitVec.xor_allOnes

/-! ### The bytes that count -/

/-- The lowest bytes of the first words of a memory. -/
def lowBytes (memory : Memory) (count : Nat) : List (BitVec 8) :=
  (List.range count).map fun index => (memory (4 * index)).toBitVec

theorem wordsOf_low (memory : Memory) (count : Nat) :
    (wordsOf memory count).map (fun word => word.toBitVec.setWidth 8) = lowBytes memory count := by
  rw [wordsOf, lowBytes, List.map_map]
  refine List.map_congr_left fun index _ => ?_
  have word : load memory (4 * index) 4 = [memory (4 * index), memory (4 * index + 1),
      memory (4 * index + 2), memory (4 * index + 3)] := rfl
  refine BitVec.eq_of_toNat_eq ?_
  rw [Function.comp_apply, BitVec.toNat_setWidth, word, wordOf]
  show (UInt32.ofNat _).toNat % 2 ^ 8 = (memory (4 * index)).toNat
  have small := (memory (4 * index)).toNat_lt
  rw [UInt32.toNat_ofNat']
  omega

/-- The bytes of a block that count for its checksum, with the checksum's own place cleared. -/
def checkedBytes (memory : Memory) : List (BitVec 8) :=
  lowBytes (store memory crcPlace (wordBytes 0)) (crcWords (wordOf (load memory sizePlace 4)))

/-- The checksum expected of a block. -/
def expected (buffer : Buffer) : Nat :=
  (crc32 (wordsOf (store buffer.memory crcPlace (wordBytes 0))
    (crcWords (buffer.word sizePlace)))).toNat

theorem expected_eq (buffer : Buffer) :
    expected buffer = (crc32Of (checkedBytes buffer.memory)).toNat := by
  rw [expected, checkedBytes, ← wordsOf_low, ← crc32_eq]
  rfl

theorem expected_lt (buffer : Buffer) : expected buffer < 2 ^ 32 := UInt32.toNat_lt _

/-- The header and the words that are taken in lie inside the buffer. -/
structure Inside (buffer : Buffer) : Prop where
  header : sizeofHdFrame ≤ buffer.capacity
  words : 4 * crcWords (buffer.word sizePlace) ≤ buffer.capacity

/-- The member `verify_crc`: like the other one, but the checksum stays cleared. -/
def verifyCrcMember (buffer : Buffer) : Except Fault (Nat × Buffer) := do
  let crc ← buffer.getWord crcPlace
  let cleared ← buffer.putWord crcPlace 0
  let size ← cleared.getWord sizePlace
  let words ← getWords cleared (crcWords size)
  pure (if crc ≠ (crc32 words).toNat then (crc32 words).toNat else 0, cleared)

/-- The verdict of both. -/
def verdict (buffer : Buffer) : Nat :=
  if buffer.word crcPlace ≠ expected buffer then expected buffer else 0

section Inside

variable {buffer : Buffer}

/-- Clearing the checksum leaves the size. -/
theorem getWord_size_cleared (header : crcPlace + 4 ≤ buffer.capacity) :
    (buffer.stored crcPlace (wordBytes 0)).getWord sizePlace = .ok (buffer.word sizePlace) := by
  rw [Buffer.getWord_of_le, Buffer.word_stored_apart _ (Or.inr (by decide))]
  exact Nat.le_trans (by decide) header

/-- A checksum stored in place of the cleared one. -/
theorem putWord_cleared (header : crcPlace + 4 ≤ buffer.capacity) (crc : Nat) :
    (buffer.stored crcPlace (wordBytes 0)).putWord crcPlace crc =
      .ok (buffer.stored crcPlace (wordBytes crc)) := by
  rw [Buffer.putWord_of_le, Buffer.stored_word_stored]
  exact header

/-- The words of a block with its checksum cleared. -/
theorem Inside.getWords (inside : Inside buffer) :
    getWords (buffer.stored crcPlace (wordBytes 0)) (crcWords (buffer.word sizePlace)) =
      .ok (wordsOf (store buffer.memory crcPlace (wordBytes 0))
        (crcWords (buffer.word sizePlace))) :=
  if_pos inside.words

theorem Inside.makeCrc (inside : Inside buffer) :
    makeCrc buffer = .ok (buffer.stored crcPlace (wordBytes (expected buffer))) := by
  have header : crcPlace + 4 ≤ buffer.capacity := inside.header
  rw [SecBlocks.makeCrc, Buffer.putWord_of_le _ header, ok_bind, getWord_size_cleared header,
    ok_bind, inside.getWords, ok_bind, putWord_cleared header]
  rfl

/-- `verify_crc` leaves the block as it was. -/
theorem Inside.verifyCrc (inside : Inside buffer) :
    verifyCrc buffer = .ok (verdict buffer, buffer) := by
  have header : crcPlace + 4 ≤ buffer.capacity := inside.header
  have same : buffer.stored crcPlace (wordBytes (buffer.word crcPlace)) = buffer :=
    congrArg (Buffer.mk buffer.capacity) (store_word_self buffer.memory crcPlace)
  rw [SecBlocks.verifyCrc, Buffer.getWord_of_le header, ok_bind, Buffer.putWord_of_le _ header,
    ok_bind, getWord_size_cleared header, ok_bind, inside.getWords, ok_bind,
    putWord_cleared header, ok_bind, same]
  rfl

theorem Inside.verifyCrcMember (inside : Inside buffer) :
    verifyCrcMember buffer = .ok (verdict buffer, buffer.stored crcPlace (wordBytes 0)) := by
  have header : crcPlace + 4 ≤ buffer.capacity := inside.header
  rw [SecBlocks.verifyCrcMember, Buffer.getWord_of_le header, ok_bind,
    Buffer.putWord_of_le _ header, ok_bind, getWord_size_cleared header, ok_bind, inside.getWords,
    ok_bind]
  rfl

theorem getWords_outside (outside : ¬4 * crcWords (buffer.word sizePlace) ≤ buffer.capacity) :
    getWords (buffer.stored crcPlace (wordBytes 0)) (crcWords (buffer.word sizePlace)) =
      .error .outOfBounds :=
  if_neg outside

/-- A block that `make_crc` gets through lies inside its buffer. -/
theorem inside_of_makeCrc {made : Buffer} (done : makeCrc buffer = .ok made) : Inside buffer := by
  by_cases header : crcPlace + 4 ≤ buffer.capacity
  · refine ⟨header, Decidable.byContradiction fun outside => ?_⟩
    rw [makeCrc, Buffer.putWord_of_le _ header, ok_bind, getWord_size_cleared header, ok_bind,
      getWords_outside outside, error_bind] at done
    cases done
  · rw [makeCrc, Buffer.putWord_of_lt _ (Nat.lt_of_not_le header), error_bind] at done
    cases done

/-- So does one that `verify_crc` gets through. -/
theorem inside_of_verifyCrc {result : Nat × Buffer} (done : verifyCrc buffer = .ok result) :
    Inside buffer := by
  by_cases header : crcPlace + 4 ≤ buffer.capacity
  · refine ⟨header, Decidable.byContradiction fun outside => ?_⟩
    rw [verifyCrc, Buffer.getWord_of_le header, ok_bind, Buffer.putWord_of_le _ header, ok_bind,
      getWord_size_cleared header, ok_bind, getWords_outside outside, error_bind] at done
    cases done
  · rw [verifyCrc, Buffer.getWord, if_neg header, error_bind] at done
    cases done

/-- What is stored at the checksum's place does not change which checksum is expected. -/
theorem expected_stored (buffer : Buffer) (crc : Nat) :
    expected (buffer.stored crcPlace (wordBytes crc)) = expected buffer := by
  have size : (buffer.stored crcPlace (wordBytes crc)).word sizePlace = buffer.word sizePlace :=
    Buffer.word_stored_apart _ (Or.inr (by decide))
  have length : (wordBytes crc).length = (wordBytes 0).length := rfl
  rw [expected, size, Buffer.stored_memory, store_store length]
  rfl

/-- A block with its checksum made. -/
theorem Inside.made (inside : Inside buffer) :
    Inside (buffer.stored crcPlace (wordBytes (expected buffer))) ∧
      (buffer.stored crcPlace (wordBytes (expected buffer))).word crcPlace =
        expected (buffer.stored crcPlace (wordBytes (expected buffer))) := by
  have size : (buffer.stored crcPlace (wordBytes (expected buffer))).word sizePlace =
      buffer.word sizePlace := Buffer.word_stored_apart _ (Or.inr (by decide))
  refine ⟨⟨inside.header, ?_⟩, ?_⟩
  · rw [size]
    exact inside.words
  · rw [Buffer.word_stored (expected_lt buffer), expected_stored]

end Inside

/-! ### The verdict -/

/-- `verify_crc` returns `0` exactly for the checksum computed again, and leaves the block as it
was; a block with its checksum made passes; and the member returns the same. -/
structure VerdictRight (buffer : Buffer) : Prop where
  verdict : ∃ crc1, verifyCrc buffer = .ok (crc1, buffer) ∧
    (crc1 = 0 ↔ buffer.word crcPlace = expected buffer)
  made : ∀ made, makeCrc buffer = .ok made → verifyCrc made = .ok (0, made)
  member : ∃ crc1 rest, verifyCrc buffer = .ok (crc1, buffer) ∧
    verifyCrcMember buffer = .ok (crc1, rest)

theorem verdict_eq_zero_iff (buffer : Buffer) :
    verdict buffer = 0 ↔ buffer.word crcPlace = expected buffer ∨ expected buffer = 0 := by
  unfold verdict
  by_cases same : buffer.word crcPlace = expected buffer
  · rw [if_neg (not_not.mpr same)]
    exact iff_of_true rfl (Or.inl same)
  · rw [if_pos same, or_iff_right same]

theorem expected_eq_zero_iff (buffer : Buffer) :
    expected buffer = 0 ↔ crc32Of (checkedBytes buffer.memory) = 0#32 := by
  rw [expected_eq, ← BitVec.toNat_inj]
  rfl

/-- For every block inside its buffer: the verdict is right if and only if the block carries no
checksum or CRC-32 of the bytes that count is not `0`. -/
theorem verdict_right_iff {buffer : Buffer} (inside : Inside buffer) :
    VerdictRight buffer ↔
      buffer.word crcPlace = 0 ∨ crc32Of (checkedBytes buffer.memory) ≠ 0#32 := by
  rw [ne_eq, ← expected_eq_zero_iff buffer]
  have accepted := verdict_eq_zero_iff buffer
  constructor
  · rintro ⟨⟨crc1, verified, zero⟩, -, -⟩
    rw [inside.verifyCrc] at verified
    cases verified
    by_cases none : expected buffer = 0
    · refine Or.inl ?_
      rw [← none]
      exact zero.mp (accepted.mpr (Or.inr none))
    · exact Or.inr none
  · intro condition
    refine ⟨⟨_, inside.verifyCrc, ?_⟩, fun made done => ?_,
      ⟨_, _, inside.verifyCrc, inside.verifyCrcMember⟩⟩
    · rw [accepted]
      refine or_iff_left_of_imp fun none => ?_
      rw [none]
      exact condition.resolve_right (not_not.mpr none)
    · obtain ⟨madeInside, fits⟩ := inside.made
      rw [inside.makeCrc] at done
      cases done
      rw [madeInside.verifyCrc, (verdict_eq_zero_iff _).mpr (Or.inl fits)]

/-- A collection with one frame of 16 bytes. -/
def smallCollection : List UInt8 :=
  framehead ++ [0, 0, 0, 0] ++ wordBytes 48 ++ wordBytes 1 ++
    MultMediaBlocks.multVideoHead ++ wordBytes 48 ++ wordBytes 0 ++
    MultMediaBlocks.videoHead ++ wordBytes 16 ++ wordBytes 0 ++
    [0x2a, 0, 0, 0, 0x94, 0, 0, 0, 0xed, 0, 0, 0, 0x0a, 0, 0, 0]

/-- The block of that collection. It carries the checksum `1`. -/
def smallBlock : Buffer := ⟨512, fun address => smallCollection.getD address 0⟩

theorem smallBlock_inside : Inside smallBlock := ⟨by decide, by decide +kernel⟩

/-- With another first byte of the frame the verdict is right. -/
theorem verdict_right_iff_small : VerdictRight (smallBlock.stored 52 [1]) :=
  (verdict_right_iff ⟨by decide, by decide +kernel⟩).mpr (Or.inr (by decide +kernel))

/-- The expected checksum of the block is `0`, so that it passes with the checksum `1`. -/
theorem wrong_checksum_passes : ¬VerdictRight smallBlock := by
  rintro ⟨⟨crc1, verified, zero⟩, -, -⟩
  have none : expected smallBlock = 0 := by decide +kernel
  have carried : smallBlock.word crcPlace = 1 := by decide +kernel
  rw [smallBlock_inside.verifyCrc, Except.ok.injEq, Prod.mk.injEq] at verified
  rw [← verified.1, verdict_eq_zero_iff, none, carried] at zero
  exact absurd (zero.mp (Or.inr rfl)) Nat.one_ne_zero

/-! ### A changed byte -/

/-- The place is outside the size and the checksum. -/
def Plain (place : Nat) : Prop := place < sizePlace ∨ sizeofHdFrame ≤ place

/-- The byte at the place is the lowest one of a word that the checksum takes in. -/
def Counts (buffer : Buffer) (place : Nat) : Prop :=
  place % 4 = 0 ∧ place < 4 * crcWords (buffer.word sizePlace)

/-- Memories that agree on the first bytes of the words have the same low bytes. -/
theorem lowBytes_congr {memory other : Memory} {count : Nat}
    (same : ∀ index < count, memory (4 * index) = other (4 * index)) :
    lowBytes memory count = lowBytes other count :=
  List.map_congr_left fun index member =>
    congrArg UInt8.toBitVec (same index (List.mem_range.mp member))

theorem lowBytes_split (memory : Memory) (index more : Nat) :
    lowBytes memory (index + 1 + more) = lowBytes memory index ++
      (memory (4 * index)).toBitVec :: lowBytes (fun address => memory (4 * (index + 1) + address))
        more := by
  simp only [lowBytes, List.range_add, List.range_one, List.map_append, List.map_map,
    List.map_cons, List.map_nil, List.append_assoc, List.singleton_append, Nat.add_zero]
  congr 2
  refine List.map_congr_left fun offset _ => ?_
  rw [Function.comp_apply, Nat.mul_add 4 (index + 1)]

/-- A single changed low byte changes CRC-32. -/
theorem crc32Of_ne {memory other : Memory} {index count : Nat} (inside : index < count)
    (differ : memory (4 * index) ≠ other (4 * index))
    (same : ∀ address, address ≠ 4 * index → memory address = other address) :
    crc32Of (lowBytes memory count) ≠ crc32Of (lowBytes other count) := by
  obtain ⟨more, rfl⟩ := Nat.exists_eq_add_of_lt inside
  rw [Nat.add_right_comm]
  have front : lowBytes memory index = lowBytes other index :=
    lowBytes_congr fun before below => same _ (by omega)
  have behind : lowBytes (fun address => memory (4 * (index + 1) + address)) more =
      lowBytes (fun address => other (4 * (index + 1) + address)) more :=
    lowBytes_congr fun after _ => same _ (by omega)
  rw [lowBytes_split, lowBytes_split, front, behind]
  intro equal
  have high : crcPoly.msb = true := by decide
  have apart := remainder_ne high (by decide) (BitVec.allOnes 32) (lowBytes other index)
    (lowBytes (fun address => other (4 * (index + 1) + address)) more)
    fun bytes => differ (UInt8.toBitVec_inj.mp bytes)
  exact apart (BitVec.not_inj.mp equal)

section Changed

variable {made : Buffer} {place : Nat} {value : UInt8} (plain : Plain place)

include plain

theorem word_changed {field : Nat} (size : sizePlace ≤ field) (crc : field ≤ crcPlace) :
    (made.stored place [value]).word field = made.word field := by
  refine Buffer.word_stored_apart [value] ?_
  unfold Plain at plain
  simp only [List.length_singleton, sizePlace, crcPlace, sizeofHdFrame] at *
  omega

/-- The cleared block with the byte changed, at the byte and elsewhere. -/
theorem cleared_changed (address : Nat) :
    store (store made.memory place [value]) crcPlace (wordBytes 0) address =
      if address = place then value else store made.memory crcPlace (wordBytes 0) address := by
  unfold Plain at plain
  by_cases here : address = place
  · have outside : address < crcPlace ∨ crcPlace + (wordBytes 0).length ≤ address := by
      simp only [wordBytes_length, sizePlace, crcPlace, sizeofHdFrame] at *
      omega
    rw [if_pos here, store_outside outside, here]
    exact @store_inside _ _ _ 0 Nat.one_pos
  · rw [if_neg here]
    refine store_congr (store_outside ?_)
    rw [List.length_singleton]
    omega

theorem Inside.changed (inside : Inside made) : Inside (made.stored place [value]) := by
  refine ⟨inside.header, ?_⟩
  rw [word_changed plain (Nat.le_refl _) (by decide)]
  exact inside.words

/-- The bytes that count in the changed block. -/
theorem checkedBytes_changed : checkedBytes (made.stored place [value]).memory =
    lowBytes (store (store made.memory place [value]) crcPlace (wordBytes 0))
      (crcWords (made.word sizePlace)) := by
  have size := @word_changed made place value plain sizePlace (Nat.le_refl _) (by decide)
  rw [checkedBytes]
  exact congrArg (fun size => lowBytes _ (crcWords size)) size

/-- The change is seen in the checksum exactly when the byte counts. -/
theorem expected_changed_iff (changed : made.memory place ≠ value) :
    expected (made.stored place [value]) ≠ expected made ↔ Counts made place := by
  rw [expected_eq, expected_eq, checkedBytes_changed plain, Ne, BitVec.toNat_inj]
  unfold Counts
  constructor
  · intro differ
    refine Decidable.byContradiction fun uncounted => differ ?_
    refine congrArg crc32Of (lowBytes_congr fun index below => ?_)
    rw [cleared_changed plain, if_neg]
    rintro rfl
    exact uncounted ⟨Nat.mul_mod_right 4 index, Nat.mul_lt_mul_of_pos_left below (by decide)⟩
  · rintro ⟨whole, below⟩
    obtain ⟨index, rfl⟩ := Nat.dvd_of_mod_eq_zero whole
    refine crc32Of_ne (Nat.lt_of_mul_lt_mul_left below) ?_ fun address other => ?_
    · rw [cleared_changed plain, if_pos rfl, store_outside]
      · exact changed.symm
      · unfold Plain at plain
        simp only [wordBytes_length, sizePlace, crcPlace, sizeofHdFrame] at *
        omega
    · rw [cleared_changed plain, if_neg other]

end Changed

/-- For every block whose checksum was made and every change of one byte outside the size and
the checksum: `verify_crc` fails if and only if the byte counts and CRC-32 of the bytes that
count, with the change, is not `0`. -/
theorem byte_change_seen_iff {buffer made : Buffer} (done : makeCrc buffer = .ok made)
    {place : Nat} {value : UInt8} (plain : Plain place) (changed : made.memory place ≠ value) :
    (∃ crc1 rest, verifyCrc (made.stored place [value]) = .ok (crc1, rest) ∧ crc1 ≠ 0) ↔
      Counts made place ∧ crc32Of (checkedBytes (made.stored place [value]).memory) ≠ 0#32 := by
  have inside := inside_of_makeCrc done
  rw [inside.makeCrc, Except.ok.injEq] at done
  obtain ⟨madeInside, fits⟩ := inside.made
  rw [done] at madeInside fits
  have crc : (made.stored place [value]).word crcPlace = expected made := by
    rw [word_changed plain (by decide) (Nat.le_refl _), fits]
  have fails : (∃ crc1 rest, verifyCrc (made.stored place [value]) = .ok (crc1, rest) ∧
      crc1 ≠ 0) ↔ verdict (made.stored place [value]) ≠ 0 := by
    rw [(madeInside.changed plain).verifyCrc]
    constructor
    · rintro ⟨crc1, rest, same, some⟩
      cases same
      exact some
    · exact fun some => ⟨_, _, rfl, some⟩
  rw [fails, Ne, verdict_eq_zero_iff, crc, not_or, ne_eq (crc32Of _), ← expected_eq_zero_iff,
    ← expected_changed_iff plain changed, ne_comm, ne_eq]

/-- The collection's block with its checksum made. -/
def madeBlock : Buffer := smallBlock.stored crcPlace (wordBytes (expected smallBlock))

/-- A change of the first byte of the frame is seen. -/
theorem byte_change_seen_iff_small : makeCrc smallBlock = .ok madeBlock ∧
    ∃ crc1 rest, verifyCrc (madeBlock.stored 52 [1]) = .ok (crc1, rest) ∧ crc1 ≠ 0 :=
  ⟨smallBlock_inside.makeCrc, (byte_change_seen_iff smallBlock_inside.makeCrc
    (Or.inr (by decide)) (by decide +kernel)).mpr
      ⟨⟨by decide, by decide +kernel⟩, by decide +kernel⟩⟩

/-- A change of the second byte of the frame is not seen. -/
theorem changed_byte_passes : makeCrc smallBlock = .ok madeBlock ∧
    53 < sizeofHdFrame + madeBlock.word sizePlace ∧ madeBlock.memory 53 ≠ 1 ∧
    ¬∃ crc1 rest, verifyCrc (madeBlock.stored 53 [1]) = .ok (crc1, rest) ∧ crc1 ≠ 0 := by
  have inside : Inside (madeBlock.stored 53 [1]) := ⟨by decide, by decide +kernel⟩
  refine ⟨smallBlock_inside.makeCrc, by decide +kernel, by decide +kernel, ?_⟩
  rintro ⟨crc1, rest, verified, some⟩
  rw [inside.verifyCrc, Except.ok.injEq, Prod.mk.injEq] at verified
  have passes : verdict (madeBlock.stored 53 [1]) = 0 := by decide +kernel
  exact some (verified.1.symm.trans passes)

end SecBlocks

end ExmOnvif.Recorder
