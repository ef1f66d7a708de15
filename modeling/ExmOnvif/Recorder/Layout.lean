/-
This file fixes the layout of the recorder's disk: the constants of `Blocks.h`,
the sizes of its packed structures, the index entry `seek_block`, the block
count of a buffer and the error codes of `err.h`.

Times are readings of `time(NULL)`, hence naturals; block numbers are `long long`
and are compared after subtraction, hence integers; byte sizes are `unsigned int`
and wrap at 32 bits.
-/

import Mathlib.Algebra.Ring.Int.Defs
import Mathlib.Algebra.Ring.Nat
import Mathlib.Tactic.Common

namespace ExmOnvif.Recorder

/-! ### Constants -/

/-- `BLOCKSIZE`, in bytes. -/
def blocksize : Nat := 512

/-- `MAXDAY`: the slots of the year queue. -/
def maxday : Nat := 800

/-- `SECOFDAY`: the slots of a day table. -/
def secofday : Nat := 24 * 3600

/-- `MAX_CHANNEL`. -/
def maxChannel : Nat := 4

instance : NeZero maxChannel := ⟨by decide⟩

/-- `first_block`: where the year table starts. -/
def firstBlock : Int := 1

/-- `LEAVE_BLOCKS`: the most blocks one second is expected to write. -/
def leaveBlocks : Int := (4 * 1024 * 1024 + 512 * 1024 + 512 - 1) / 512

/-- The value of an `unsigned int` expression. -/
def uint32 (value : Nat) : Nat := value % 2 ^ 32

/-- An `unsigned int` counted down by one. -/
def uint32Pred (value : Nat) : Nat := if value = 0 then 2 ^ 32 - 1 else value - 1

theorem uint32_of_lt {value : Nat} (small : value < 2 ^ 32) : uint32 value = value :=
  Nat.mod_eq_of_lt small

/-! ### Structures -/

/-- `struct seek_block`: one entry of the year queue or of a day table. -/
structure SeekBlock where
  time : Nat
  seek : Int
deriving DecidableEq, Repr

/-- An entry cleared by `memset`. -/
def SeekBlock.zero : SeekBlock := ⟨0, 0⟩

/-- `sizeof(struct seek_block)`, packed. -/
def sizeofSeekBlock : Nat := 4 + 8

/-- `sizeof(struct year_block)`: the magic, the three queue counters, the entries. -/
def sizeofYearBlock : Nat := 8 + 12 + maxday * sizeofSeekBlock

/-- `sizeof(struct day_block)`: the magic and the entries. -/
def sizeofDayBlock : Nat := 8 + secofday * sizeofSeekBlock

/-- `sizeof(struct hd_frame)`, packed. -/
def sizeofHdFrame : Nat := 8 + 2 + 2 + 4 + 4

/-- `sizeof(struct media_block)`, packed. -/
def sizeofMediaBlock : Nat := 8 + 4 + 4

/-- `Blocks::get_block_num`. -/
def getBlockNum (buffsize : Nat) : Nat := uint32 (buffsize + blocksize - 1) / blocksize

/-- The blocks of the year table. -/
def yearBlocks : Int := getBlockNum sizeofYearBlock

/-- The blocks of one day table. -/
def dayBlocks : Int := getBlockNum sizeofDayBlock

/-- The backup table `dbbac` sits right after the year table. -/
def backupSeek : Int := firstBlock + yearBlocks

/-- The first block after the backup table, where the first day table of a disk goes. -/
def firstDaySeek : Int := firstBlock + yearBlocks + dayBlocks

theorem dayBlocks_eq : dayBlocks = 2026 := by decide

theorem firstDaySeek_eq : firstDaySeek = 2046 := by decide

theorem year_front : firstBlock + yearBlocks ≤ firstDaySeek := by decide

theorem backup_front : backupSeek + dayBlocks ≤ firstDaySeek := by decide

theorem first_day_front : firstDaySeek ≤ firstDaySeek + dayBlocks := by decide

/-! ### Error codes -/

/-- The error codes of `err.h`. -/
inductive ErrCode where
  | unknowErr
  | blockErrDataHead
  | hdErrRead
  | hdErrWrite
  | blockErrNull
  | blockErrZero
  | blockErrFull
  | blockErrEmpty
  | blockErrNotIn
  | blockErrNotEnough
  | blockErrDaySecMut
  | hdErrOver
deriving DecidableEq, Repr

/-- The number an error code stands for. -/
def ErrCode.toInt : ErrCode → Int
  | .unknowErr => -1
  | .blockErrDataHead => -2
  | .hdErrRead => -3
  | .hdErrWrite => -4
  | .blockErrNull => -5
  | .blockErrZero => -6
  | .blockErrFull => -7
  | .blockErrEmpty => -8
  | .blockErrNotIn => -9
  | .blockErrNotEnough => -10
  | .blockErrDaySecMut => -11
  | .hdErrOver => -12

theorem ErrCode.toInt_neg (code : ErrCode) : code.toInt < 0 := by
  cases code <;> decide

/-- What a call hands back: its value, an error code, or nothing the language defines,
because it read or wrote outside an array. -/
inductive Reply (Value : Type) where
  | ok (value : Value)
  | err (code : ErrCode)
  | outOfBounds
deriving DecidableEq, Repr

end ExmOnvif.Recorder
