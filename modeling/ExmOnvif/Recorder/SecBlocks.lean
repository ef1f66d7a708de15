/-
This file models `SecBlocks`, the form in which a collection goes to the disk: the
buffer of the collection with a disk header in the place left free for it, which
holds a head, the size of the collection and a checksum.

The checksum runs over the words of the block with its own place cleared, and takes
only the lowest byte of each word into account. The reading side computes it again
and only reports a difference.
-/

import ExmOnvif.Recorder.MediaBlocks

namespace ExmOnvif.Recorder

open Library

namespace SecBlocks

/-! ### The checksum -/

/-- `crc32_tab`. -/
def crc32Tab : Array UInt32 :=
  #[0x00000000, 0x77073096, 0xee0e612c, 0x990951ba, 0x076dc419, 0x706af48f, 0xe963a535, 0x9e6495a3,
    0x0edb8832, 0x79dcb8a4, 0xe0d5e91e, 0x97d2d988, 0x09b64c2b, 0x7eb17cbd, 0xe7b82d07, 0x90bf1d91,
    0x1db71064, 0x6ab020f2, 0xf3b97148, 0x84be41de, 0x1adad47d, 0x6ddde4eb, 0xf4d4b551, 0x83d385c7,
    0x136c9856, 0x646ba8c0, 0xfd62f97a, 0x8a65c9ec, 0x14015c4f, 0x63066cd9, 0xfa0f3d63, 0x8d080df5,
    0x3b6e20c8, 0x4c69105e, 0xd56041e4, 0xa2677172, 0x3c03e4d1, 0x4b04d447, 0xd20d85fd, 0xa50ab56b,
    0x35b5a8fa, 0x42b2986c, 0xdbbbc9d6, 0xacbcf940, 0x32d86ce3, 0x45df5c75, 0xdcd60dcf, 0xabd13d59,
    0x26d930ac, 0x51de003a, 0xc8d75180, 0xbfd06116, 0x21b4f4b5, 0x56b3c423, 0xcfba9599, 0xb8bda50f,
    0x2802b89e, 0x5f058808, 0xc60cd9b2, 0xb10be924, 0x2f6f7c87, 0x58684c11, 0xc1611dab, 0xb6662d3d,
    0x76dc4190, 0x01db7106, 0x98d220bc, 0xefd5102a, 0x71b18589, 0x06b6b51f, 0x9fbfe4a5, 0xe8b8d433,
    0x7807c9a2, 0x0f00f934, 0x9609a88e, 0xe10e9818, 0x7f6a0dbb, 0x086d3d2d, 0x91646c97, 0xe6635c01,
    0x6b6b51f4, 0x1c6c6162, 0x856530d8, 0xf262004e, 0x6c0695ed, 0x1b01a57b, 0x8208f4c1, 0xf50fc457,
    0x65b0d9c6, 0x12b7e950, 0x8bbeb8ea, 0xfcb9887c, 0x62dd1ddf, 0x15da2d49, 0x8cd37cf3, 0xfbd44c65,
    0x4db26158, 0x3ab551ce, 0xa3bc0074, 0xd4bb30e2, 0x4adfa541, 0x3dd895d7, 0xa4d1c46d, 0xd3d6f4fb,
    0x4369e96a, 0x346ed9fc, 0xad678846, 0xda60b8d0, 0x44042d73, 0x33031de5, 0xaa0a4c5f, 0xdd0d7cc9,
    0x5005713c, 0x270241aa, 0xbe0b1010, 0xc90c2086, 0x5768b525, 0x206f85b3, 0xb966d409, 0xce61e49f,
    0x5edef90e, 0x29d9c998, 0xb0d09822, 0xc7d7a8b4, 0x59b33d17, 0x2eb40d81, 0xb7bd5c3b, 0xc0ba6cad,
    0xedb88320, 0x9abfb3b6, 0x03b6e20c, 0x74b1d29a, 0xead54739, 0x9dd277af, 0x04db2615, 0x73dc1683,
    0xe3630b12, 0x94643b84, 0x0d6d6a3e, 0x7a6a5aa8, 0xe40ecf0b, 0x9309ff9d, 0x0a00ae27, 0x7d079eb1,
    0xf00f9344, 0x8708a3d2, 0x1e01f268, 0x6906c2fe, 0xf762575d, 0x806567cb, 0x196c3671, 0x6e6b06e7,
    0xfed41b76, 0x89d32be0, 0x10da7a5a, 0x67dd4acc, 0xf9b9df6f, 0x8ebeeff9, 0x17b7be43, 0x60b08ed5,
    0xd6d6a3e8, 0xa1d1937e, 0x38d8c2c4, 0x4fdff252, 0xd1bb67f1, 0xa6bc5767, 0x3fb506dd, 0x48b2364b,
    0xd80d2bda, 0xaf0a1b4c, 0x36034af6, 0x41047a60, 0xdf60efc3, 0xa867df55, 0x316e8eef, 0x4669be79,
    0xcb61b38c, 0xbc66831a, 0x256fd2a0, 0x5268e236, 0xcc0c7795, 0xbb0b4703, 0x220216b9, 0x5505262f,
    0xc5ba3bbe, 0xb2bd0b28, 0x2bb45a92, 0x5cb36a04, 0xc2d7ffa7, 0xb5d0cf31, 0x2cd99e8b, 0x5bdeae1d,
    0x9b64c2b0, 0xec63f226, 0x756aa39c, 0x026d930a, 0x9c0906a9, 0xeb0e363f, 0x72076785, 0x05005713,
    0x95bf4a82, 0xe2b87a14, 0x7bb12bae, 0x0cb61b38, 0x92d28e9b, 0xe5d5be0d, 0x7cdcefb7, 0x0bdbdf21,
    0x86d3d2d4, 0xf1d4e242, 0x68ddb3f8, 0x1fda836e, 0x81be16cd, 0xf6b9265b, 0x6fb077e1, 0x18b74777,
    0x88085ae6, 0xff0f6a70, 0x66063bca, 0x11010b5c, 0x8f659eff, 0xf862ae69, 0x616bffd3, 0x166ccf45,
    0xa00ae278, 0xd70dd2ee, 0x4e048354, 0x3903b3c2, 0xa7672661, 0xd06016f7, 0x4969474d, 0x3e6e77db,
    0xaed16a4a, 0xd9d65adc, 0x40df0b66, 0x37d83bf0, 0xa9bcae53, 0xdebb9ec5, 0x47b2cf7f, 0x30b5ffe9,
    0xbdbdf21c, 0xcabac28a, 0x53b39330, 0x24b4a3a6, 0xbad03605, 0xcdd70693, 0x54de5729, 0x23d967bf,
    0xb3667a2e, 0xc4614ab8, 0x5d681b02, 0x2a6f2b94, 0xb40bbe37, 0xc30c8ea1, 0x5a05df1b, 0x2d02ef8d]

/-- One turn of the loop of `crc32`. -/
def crc32Step (crc word : UInt32) : UInt32 :=
  crc32Tab.getD ((crc ^^^ word) &&& 0xff).toNat 0 ^^^ (crc >>> 8)

/-- `crc32` over a string of words. -/
def crc32 (words : List UInt32) : UInt32 :=
  words.foldl crc32Step (0 ^^^ 0xffffffff) ^^^ 0xffffffff

/-- The first `count` words of a memory. -/
def wordsOf (memory : Memory) (count : Nat) : List UInt32 :=
  (List.range count).map fun index => UInt32.ofNat (wordOf (load memory (4 * index) 4))

/-- Reading the first `count` words of a buffer. -/
def getWords (buffer : Buffer) (count : Nat) : Except Fault (List UInt32) :=
  if 4 * count ≤ buffer.capacity then .ok (wordsOf buffer.memory count) else .error .outOfBounds

/-- `framehead`. -/
def framehead : List UInt8 := [0x53, 0x45, 0x43, 0x4f, 0xa5, 0x5a, 0x5a, 0xa5]

theorem framehead_length : framehead.length = 8 := rfl

/-- Where `struct hd_frame` keeps the size. -/
def sizePlace : Nat := 8 + 2 + 2

/-- Where `struct hd_frame` keeps the checksum. -/
def crcPlace : Nat := 8 + 2 + 2 + 4

/-- The words a checksum over a collection of `size` bytes takes in. -/
def crcWords (size : Nat) : Nat := uint32 (size + sizeofHdFrame) / 4

/-- `make_crc`. -/
def makeCrc (buffer : Buffer) : Except Fault Buffer := do
  let cleared ← buffer.putWord crcPlace 0
  let size ← cleared.getWord sizePlace
  let words ← getWords cleared (crcWords size)
  cleared.putWord crcPlace (crc32 words).toNat

/-- `verify_crc`: `0`, or the checksum that was expected. The checksum is put back. -/
def verifyCrc (buffer : Buffer) : Except Fault (Nat × Buffer) := do
  let crc ← buffer.getWord crcPlace
  let cleared ← buffer.putWord crcPlace 0
  let size ← cleared.getWord sizePlace
  let words ← getWords cleared (crcWords size)
  let restored ← cleared.putWord crcPlace crc
  pure (if crc ≠ (crc32 words).toNat then (crc32 words).toNat else 0, restored)

/-! ### Blocks on the disk -/

/-- `SecBlocks(mmb, uBufSize)`: the buffer of a collection of `uBufSize` bytes taken over. -/
def ofMedia (mmb : Blocks) (uBufSize : Nat) : Except Fault Blocks := do
  let headed ← mmb.cBuff.put 0 framehead
  let sized ← headed.putWord sizePlace uBufSize
  let buffer ← makeCrc sized
  pure { mmb with
    cBuff := buffer
    uSize := uint32 (uBufSize + sizeofHdFrame)
    uNumOfBlocks := getBlockNum (uint32 (uBufSize + sizeofHdFrame)) }

/-- `Blocks::write` at `seek`, with a driver that stores what it is given. -/
def write (blocks : Blocks) (seek : Nat) (disk : Memory) : Except Fault Memory := do
  let bytes ← blocks.cBuff.get 0 (blocks.uNumOfBlocks * blocksize)
  pure (store disk (seek * blocksize) bytes)

/-- `SecBlocks(uBufSize, llSeek)`: a block read from the disk, with what `verify_crc` says of
it. This constructor leaves the type unset. -/
def read (disk : Memory) (uBufSize llSeek : Nat) : Except Fault (Nat × Blocks) := do
  let fresh := Blocks.create (uint32 (uBufSize + sizeofHdFrame)) llSeek .noblock
  let filled ← fresh.cBuff.put 0 (load disk (llSeek * blocksize) (fresh.uNumOfBlocks * blocksize))
  let head ← filled.get 0 framehead.length
  if head ≠ framehead then .error (.thrown ErrCode.blockErrDataHead.toInt)
  else do
    let verified ← verifyCrc filled
    pure (verified.1, { fresh with cBuff := verified.2 })

/-! ### Sealed blocks -/

/-- The memory starts with the head and the size of a collection of the frames, and the frames
follow. -/
structure Headed (memory : Memory) (frames : List Frame) : Prop where
  head : load memory 0 framehead.length = framehead
  size : wordOf (load memory sizePlace 4) = sizeofMediaBlock + framesSize frames
  used : wordOf (load memory (MultMediaBlocks.mb + MultMediaBlocks.sizeField) 4) =
    sizeofMediaBlock + framesSize frames
  there : FramesAt memory (MultMediaBlocks.mb + sizeofMediaBlock) frames

/-- The checksum over the memory of a collection of the frames. -/
def crcOf (memory : Memory) (frames : List Frame) : Nat :=
  (crc32 (wordsOf (store memory crcPlace (wordBytes 0))
    (crcWords (sizeofMediaBlock + framesSize frames)))).toNat

/-- The checksum fits too. -/
structure Sealed (memory : Memory) (frames : List Frame) : Prop extends Headed memory frames where
  crc : wordOf (load memory crcPlace 4) = crcOf memory frames

/-- The bytes of a sealed block that matter. -/
def sealedSize (frames : List Frame) : Nat :=
  sizeofHdFrame + sizeofMediaBlock + framesSize frames

theorem wordsOf_congr {memory other : Memory} {count : Nat}
    (same : ∀ address < 4 * count, memory address = other address) :
    wordsOf memory count = wordsOf other count := by
  refine List.map_congr_left fun index member => ?_
  have below := List.mem_range.mp member
  refine congrArg (fun bytes => UInt32.ofNat (wordOf bytes)) (load_congr fun offset inside => ?_)
  exact same _ (by omega)

theorem crcWords_le {frames : List Frame} (small : sealedSize frames < 2 ^ 32) :
    4 * crcWords (sizeofMediaBlock + framesSize frames) ≤ sealedSize frames := by
  simp only [crcWords, sealedSize, uint32] at *
  omega

/-- Memories that agree on the bytes that matter are sealed alike. -/
theorem Sealed.congr {memory other : Memory} {frames : List Frame} (isSealed : Sealed memory frames)
    (small : sealedSize frames < 2 ^ 32)
    (same : ∀ address < sealedSize frames, other address = memory address) :
    Sealed other frames := by
  have words := crcWords_le small
  have loads : ∀ place count, place + count ≤ sealedSize frames →
      load other place count = load memory place count := by
    intro place count inside
    exact load_congr fun offset below => same _ (by omega)
  refine ⟨⟨?_, ?_, ?_, ?_⟩, ?_⟩
  · rw [loads _ _ (by simp only [framehead_length, sealedSize, sizeofHdFrame]; omega)]
    exact isSealed.head
  · rw [loads _ _ (by simp only [sealedSize, sizePlace, sizeofHdFrame]; omega)]
    exact isSealed.size
  · rw [loads _ _ (by
      simp only [sealedSize, MultMediaBlocks.mb, MultMediaBlocks.sizeField, sizeofHdFrame,
        sizeofMediaBlock]
      omega)]
    exact isSealed.used
  · refine isSealed.there.congr fun address _ high => same address ?_
    simp only [MultMediaBlocks.mb] at high
    exact high
  · rw [loads _ _ (by simp only [sealedSize, crcPlace, sizeofHdFrame]; omega), isSealed.crc]
    refine congrArg (fun words => (crc32 words).toNat) (wordsOf_congr fun address below => ?_)
    unfold store
    split
    · rfl
    · exact (same address (Nat.lt_of_lt_of_le below words)).symm

/-- Storing the checksum seals. -/
theorem Headed.seal {memory : Memory} {frames : List Frame} (headed : Headed memory frames) :
    Sealed (store memory crcPlace (wordBytes (crcOf memory frames))) frames := by
  have length := wordBytes_length (crcOf memory frames)
  have small : crcOf memory frames < 2 ^ 32 := UInt32.toNat_lt _
  refine ⟨⟨?_, ?_, ?_, ?_⟩, ?_⟩
  · rw [load_store_apart]
    · exact headed.head
    · exact Or.inr (by decide)
  · rw [load_store_apart]
    · exact headed.size
    · exact Or.inr (by decide)
  · rw [load_store_apart]
    · exact headed.used
    · exact Or.inl (by rw [length]; decide)
  · refine headed.there.congr fun address low _ => store_outside (Or.inr (Nat.le_trans ?_ low))
    rw [length]
    decide
  · rw [wordOf_load_store _ _ small, crcOf, crcOf, store_store length]

theorem word_cleared {buffer : Buffer} {frames : List Frame}
    (headed : Headed buffer.memory frames) :
    (buffer.stored crcPlace (wordBytes 0)).word sizePlace =
      sizeofMediaBlock + framesSize frames := by
  rw [Buffer.word_stored_apart]
  · exact headed.size
  · exact Or.inr (by decide)

/-- The words of a cleared block are read in bounds. -/
theorem getWords_cleared {buffer : Buffer} {frames : List Frame}
    (small : sealedSize frames < 2 ^ 32) (inside : sealedSize frames ≤ buffer.capacity) :
    getWords (buffer.stored crcPlace (wordBytes 0))
        (crcWords (sizeofMediaBlock + framesSize frames)) =
      .ok (wordsOf (store buffer.memory crcPlace (wordBytes 0))
        (crcWords (sizeofMediaBlock + framesSize frames))) :=
  if_pos (Nat.le_trans (crcWords_le small) inside)

section InBounds

variable {buffer : Buffer} {frames : List Frame} (small : sealedSize frames < 2 ^ 32)
  (inside : sealedSize frames ≤ buffer.capacity)

include small inside

/-- `make_crc` seals. -/
theorem makeCrc_eq (headed : Headed buffer.memory frames) :
    makeCrc buffer = .ok (buffer.stored crcPlace (wordBytes (crcOf buffer.memory frames))) := by
  have header : sizeofHdFrame ≤ buffer.capacity := by
    simp only [sealedSize] at inside
    omega
  rw [makeCrc, Buffer.putWord_of_le, ok_bind, Buffer.getWord_of_le, ok_bind, word_cleared headed,
    getWords_cleared small inside, ok_bind, Buffer.putWord_of_le, Buffer.stored_word_stored]
  · rfl
  · exact header
  · exact Nat.le_trans (by decide) header
  · exact header

/-- `verify_crc` passes a sealed block and leaves it sealed. -/
theorem verifyCrc_eq (isSealed : Sealed buffer.memory frames) :
    verifyCrc buffer =
      .ok (0, buffer.stored crcPlace (wordBytes (crcOf buffer.memory frames))) := by
  have header : sizeofHdFrame ≤ buffer.capacity := by
    simp only [sealedSize] at inside
    omega
  have crc : buffer.word crcPlace = crcOf buffer.memory frames := isSealed.crc
  rw [verifyCrc, Buffer.getWord_of_le, ok_bind, Buffer.putWord_of_le, ok_bind,
    Buffer.getWord_of_le, ok_bind, word_cleared isSealed.toHeaded, getWords_cleared small inside,
    ok_bind, Buffer.putWord_of_le, ok_bind, Buffer.stored_word_stored, ← crcOf, crc,
    if_neg (not_not.mpr rfl)]
  · rfl
  · exact header
  · exact Nat.le_trans (by decide) header
  · exact header
  · exact header

end InBounds

/-! ### To the disk and back -/

/-- A block ready for the disk: a sealed collection and the whole blocks that hold it. -/
structure Ready (blocks : Blocks) (frames : List Frame) : Prop where
  small : sealedSize frames + blocksize ≤ 2 ^ 32
  size : blocks.uSize = sealedSize frames
  count : blocks.uNumOfBlocks = getBlockNum (sealedSize frames)
  inside : blocks.uNumOfBlocks * blocksize ≤ blocks.cBuff.capacity
  isSealed : Sealed blocks.cBuff.memory frames

theorem getBlockNum_covers {size : Nat} (small : size + blocksize ≤ 2 ^ 32) :
    size ≤ getBlockNum size * blocksize ∧ getBlockNum size * blocksize < size + blocksize := by
  simp only [getBlockNum, uint32, blocksize] at *
  omega

/-- The buffer of a collection with head and size filled in. -/
def headedBuffer (mmb : Blocks) (frames : List Frame) : Buffer :=
  (mmb.cBuff.stored 0 framehead).stored sizePlace (wordBytes (sizeofMediaBlock + framesSize frames))

/-- The block made of a collection of the frames. -/
def sealedBlocks (mmb : Blocks) (frames : List Frame) : Blocks :=
  { mmb with
    cBuff := (headedBuffer mmb frames).stored crcPlace
      (wordBytes (crcOf (headedBuffer mmb frames).memory frames))
    uSize := sealedSize frames
    uNumOfBlocks := getBlockNum (sealedSize frames) }

/-- Taking over the buffer of a collection makes it ready. -/
theorem ofMedia_ready {mmb : Blocks} {frames : List Frame} (holds : mmb.Holds frames) :
    ofMedia mmb (sizeofMediaBlock + framesSize frames) = .ok (sealedBlocks mmb frames) ∧
      Ready (sealedBlocks mmb frames) frames := by
  have inside : sealedSize frames ≤ mmb.cBuff.capacity := holds.inside
  have whole := holds.whole
  have capacity := holds.small
  have small : sealedSize frames + blocksize ≤ 2 ^ 32 := by
    simp only [blocksize] at *
    omega
  have below : sealedSize frames < 2 ^ 32 := Nat.lt_of_le_of_lt inside capacity
  have header : sizeofHdFrame ≤ mmb.cBuff.capacity := by
    simp only [sealedSize] at inside
    omega
  have total : uint32 (sizeofMediaBlock + framesSize frames + sizeofHdFrame) =
      sealedSize frames := by
    simp only [uint32, sealedSize] at *
    omega
  have headed : Headed (headedBuffer mmb frames).memory frames := by
    refine ⟨?_, wordOf_load_store _ _ ?_, ?_, ?_⟩
    · rw [headedBuffer, Buffer.stored_memory, load_store_apart, Buffer.stored_memory, load_store]
      exact Or.inr (by decide)
    · simp only [sealedSize] at below
      omega
    · rw [headedBuffer, Buffer.stored_memory, load_store_apart, Buffer.stored_memory,
        load_store_apart]
      · exact holds.used
      · exact Or.inl (by decide)
      · exact Or.inl (by rw [wordBytes_length]; decide)
    · refine holds.frames.congr fun address low _ => ?_
      have far : sizeofHdFrame ≤ address := Nat.le_trans (Nat.le_add_right _ _) low
      rw [headedBuffer, Buffer.stored_memory, store_outside, Buffer.stored_memory, store_outside]
      · exact Or.inr (Nat.le_trans (by decide) far)
      · exact Or.inr (Nat.le_trans (by rw [wordBytes_length]; decide) far)
  obtain ⟨covers, upto⟩ := getBlockNum_covers small
  refine ⟨?_, small, rfl, rfl, ?_, headed.seal⟩
  · rw [ofMedia, Buffer.put_of_le, ok_bind, Buffer.putWord_of_le, ok_bind, ← headedBuffer,
      makeCrc_eq below (show sealedSize frames ≤ (headedBuffer mmb frames).capacity from inside)
      headed, ok_bind, total]
    · rfl
    · exact Nat.le_trans (by decide) header
    · exact Nat.le_trans (by decide) header
  · show getBlockNum (sealedSize frames) * blocksize ≤ mmb.cBuff.capacity
    simp only [blocksize] at *
    omega

/-- A ready block is written whole. -/
theorem write_eq {blocks : Blocks} {frames : List Frame} (ready : Ready blocks frames) (seek : Nat)
    (disk : Memory) :
    write blocks seek disk = .ok (store disk (seek * blocksize)
      (load blocks.cBuff.memory 0 (getBlockNum (sealedSize frames) * blocksize))) := by
  rw [write, Buffer.get_of_le, ok_bind, ready.count]
  · rfl
  · rw [Nat.zero_add]
    exact ready.inside

/-- The buffer filled with what the disk holds at `seek`. -/
def filledBuffer (disk : Memory) (seek : Nat) (frames : List Frame) : Buffer :=
  (Blocks.create (sealedSize frames) seek .noblock).cBuff.stored 0
    (load disk (seek * blocksize) (getBlockNum (sealedSize frames) * blocksize))

/-- Where the disk holds a sealed block, it is read back, and `verify_crc` passes it. -/
theorem read_eq {disk memory : Memory} {frames : List Frame} {seek : Nat}
    (small : sealedSize frames + blocksize ≤ 2 ^ 32) (isSealed : Sealed memory frames)
    (there : ∀ offset < sealedSize frames, disk (seek * blocksize + offset) = memory offset) :
    ∃ blocks, read disk (sizeofMediaBlock + framesSize frames) seek = .ok (0, blocks) ∧
      sealedSize frames ≤ blocks.cBuff.capacity ∧ blocks.cBuff.capacity < 2 ^ 32 ∧
      Sealed blocks.cBuff.memory frames := by
  obtain ⟨covers, upto⟩ := getBlockNum_covers small
  have below : sealedSize frames < 2 ^ 32 := by
    simp only [blocksize] at small
    omega
  have total : uint32 (sizeofMediaBlock + framesSize frames + sizeofHdFrame) =
      sealedSize frames := by
    simp only [uint32, sealedSize] at *
    omega
  have capacity : (filledBuffer disk seek frames).capacity =
      getBlockNum (sealedSize frames) * blocksize :=
    uint32_of_lt (Nat.lt_of_lt_of_le upto small)
  have filledSealed : Sealed (filledBuffer disk seek frames).memory frames := by
    refine isSealed.congr below fun address inside => ?_
    have within : address < getBlockNum (sealedSize frames) * blocksize :=
      Nat.lt_of_lt_of_le inside covers
    rw [← Nat.zero_add address, filledBuffer, Buffer.stored_memory, store_load _ _ _ within,
      there _ inside, Nat.zero_add]
  have inside : sealedSize frames ≤ (filledBuffer disk seek frames).capacity := by
    rw [capacity]
    exact covers
  have headInside : 0 + framehead.length ≤ (filledBuffer disk seek frames).capacity := by
    refine Nat.le_trans ?_ inside
    simp only [framehead_length, sealedSize, sizeofHdFrame]
    omega
  refine ⟨{ Blocks.create (sealedSize frames) seek .noblock with
    cBuff := (filledBuffer disk seek frames).stored crcPlace
      (wordBytes (crcOf (filledBuffer disk seek frames).memory frames)) }, ?_, inside, ?_,
    filledSealed.toHeaded.seal⟩
  · unfold read
    rw [total]
    dsimp only
    rw [Buffer.put_of_le, ok_bind]
    · show ((filledBuffer disk seek frames).get 0 framehead.length >>= _) = _
      rw [Buffer.get_of_le headInside, ok_bind, filledSealed.head, if_neg (not_not.mpr rfl)]
      show (verifyCrc (filledBuffer disk seek frames) >>= _) = _
      rw [verifyCrc_eq below inside filledSealed, ok_bind]
      rfl
    · rw [load_length, Nat.zero_add]
      exact Nat.le_of_eq capacity.symm
  · show (filledBuffer disk seek frames).capacity < 2 ^ 32
    rw [capacity]
    exact Nat.lt_of_lt_of_le upto small

end SecBlocks

end ExmOnvif.Recorder
