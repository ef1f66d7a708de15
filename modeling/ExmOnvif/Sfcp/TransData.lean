/-
This file models how the safe copy program copies a file, chunk by chunk, and proves when the copy
ends and is complete.

The loop counts what it has read in an `int` and ends when the count is the size that `lstat` gives
for the source, which for a link is the length of its text. Without the option `-d` it also ends at
a read that gives nothing.
-/

import Mathlib.Algebra.Order.Ring.Int
import ExmOnvif.Library.Scan

namespace ExmOnvif.Sfcp

open Library

/-- `RD_BUF_MAX_LEN`. -/
def rdBufMaxLen : Nat := 8192

/-- `EINTR`. -/
def eintr : Int := 4

/-- What a path of a source leads to: the bytes that can be read, and the text of the link, if the
path is that of a link. -/
structure Source where
  content : List UInt8
  link : Option (List UInt8)

/-- `st_size`, from `lstat`. -/
def Source.stSize (source : Source) : Nat :=
  match source.link with
  | none => source.content.length
  | some text => text.length

/-- What the calls in front of a loop answer: whether the files are opened, whether there is a
destination and can be removed, and whether `lstat` succeeds. -/
structure Answers where
  srcOpens : Bool
  dstThere : Bool
  removes : Bool
  dstOpens : Bool
  lstats : Bool

/-! ### Writing -/

/-- The destination: what was written, and in how many calls of `fwrite`. -/
structure Stream where
  written : List UInt8
  calls : Nat

/-- `fwrite`: what it returns and `errno`, for each call and what is left to write. -/
abbrev Fwrite := Nat → List UInt8 → Int × Int

/-- The loop of `sf_write_buf`, in a number of turns: what it returns, and the destination. -/
def sfWriteBuf (fwrite : Fwrite) : Nat → List UInt8 → Nat → Stream → Option (Int × Stream)
  | 0, _, _, _ => none
  | turns + 1, left, wrCnt, stream =>
    if left = [] then some (wrCnt, stream)
    else
      let (ret, errno) := fwrite stream.calls left
      let after : Stream := ⟨stream.written ++ left.take ret.toNat, stream.calls + 1⟩
      if ret ≤ 0 then
        if errno = eintr then sfWriteBuf fwrite turns left wrCnt after
        else if 0 < errno then some (-errno, after)
        else some (-1, after)
      else sfWriteBuf fwrite turns (left.drop ret.toNat) (wrCnt + ret.toNat) after

/-- All writes succeed: each takes at least a byte, and no more than there are. -/
def Succeeds (fwrite : Fwrite) : Prop :=
  ∀ call left, left ≠ [] → 0 < (fwrite call left).1 ∧ (fwrite call left).1 ≤ (left.length : Int)

/-- Then the whole buffer is written. -/
theorem sfWriteBuf_succeeds {fwrite : Fwrite} (succeeds : Succeeds fwrite) {turns : Nat}
    (left : List UInt8) (wrCnt : Nat) (stream : Stream) (enough : left.length < turns) :
    ∃ after, sfWriteBuf fwrite turns left wrCnt stream =
        some (((wrCnt + left.length : Nat) : Int), after) ∧
      after.written = stream.written ++ left := by
  induction turns generalizing left wrCnt stream with
  | zero => exact absurd enough (Nat.not_lt_zero _)
  | succ turns inductionHypothesis =>
    unfold sfWriteBuf
    by_cases done : left = []
    · rw [if_pos done, done]
      exact ⟨stream, rfl, (List.append_nil _).symm⟩
    · obtain ⟨positive, within⟩ := succeeds stream.calls left done
      rcases answer : fwrite stream.calls left with ⟨ret, errno⟩
      rw [answer] at positive within
      have length : (left.drop ret.toNat).length = left.length - ret.toNat := List.length_drop
      obtain ⟨after, wrote, whole⟩ := inductionHypothesis (left.drop ret.toNat)
        (wrCnt + ret.toNat) ⟨stream.written ++ left.take ret.toNat, stream.calls + 1⟩ (by omega)
      rw [if_neg done]
      dsimp only
      rw [if_neg (Int.not_le.mpr positive), wrote, length]
      refine ⟨after, ?_, ?_⟩
      · congr 3
        omega
      · rw [whole, List.append_assoc, List.take_append_drop]

/-! ### Copying -/

/-- The variables of the loop: what is left to read, `rd_len_cnt`, and the destination. -/
structure Copying where
  rest : List UInt8
  rdLenCnt : Int32
  dst : Stream

/-- The body of the loop of `trans_data_src_to_dst`. -/
def transTurn (optDFlag : Int) (fwrite : Fwrite) (stSize writeTurns : Nat) (copying : Copying) :
    Option (Copying ⊕ Int × Stream) := do
  let readBuf := copying.rest.take rdBufMaxLen
  let rdLenCnt := copying.rdLenCnt + Int32.ofNat readBuf.length
  let (wrLen, dst) ← sfWriteBuf fwrite writeTurns readBuf 0 copying.dst
  if wrLen ≠ readBuf.length then some (.inr (-1, dst))
  else if rdLenCnt.toInt = stSize then some (.inr (0, dst))
  else if optDFlag = 0 ∧ readBuf.length = 0 then some (.inr (0, dst))
  else some (.inl ⟨copying.rest.drop rdBufMaxLen, rdLenCnt, dst⟩)

/-- `trans_data_src_to_dst`, in a number of turns of each of its loops: what it returns, and what it
wrote. -/
def transDataSrcToDst (answers : Answers) (optDFlag : Int) (fwrite : Fwrite) (source : Source)
    (turns : Nat) : Option (Int × Stream) :=
  if ¬answers.srcOpens then some (-1, ⟨[], 0⟩)
  else if answers.dstThere ∧ ¬answers.removes then some (-1, ⟨[], 0⟩)
  else if ¬answers.dstOpens then some (-1, ⟨[], 0⟩)
  else if ¬answers.lstats then some (-1, ⟨[], 0⟩)
  else
    scan (transTurn optDFlag fwrite source.stSize turns) turns ⟨source.content, 0, ⟨[], 0⟩⟩

/-- The files are opened, the destination is made anew, and the size is known. -/
structure Answers.Opened (answers : Answers) : Prop where
  src : answers.srcOpens = true
  removed : answers.dstThere = true → answers.removes = true
  dst : answers.dstOpens = true
  size : answers.lstats = true

/-- The copy ends with zero, and the destination holds the bytes of the source. -/
def Copies (answers : Answers) (optDFlag : Int) (fwrite : Fwrite) (source : Source) : Prop :=
  ∃ enough, ∀ turns, enough ≤ turns →
    ∃ dst, transDataSrcToDst answers optDFlag fwrite source turns = some (0, dst) ∧
      dst.written = source.content

/-! ### The count -/

/-- The bytes read in some reads. -/
def readIn (content : List UInt8) (reads : Nat) : Nat := min (reads * rdBufMaxLen) content.length

/-- The bytes that a read gives. -/
def readOf (content : List UInt8) (read : Nat) : List UInt8 :=
  (content.drop (read * rdBufMaxLen)).take rdBufMaxLen

/-- Behind a read, from the first one on, the 32-bit count is the size that `lstat` gives. -/
def Meets (source : Source) (read : Nat) : Prop :=
  (Int32.ofNat (readIn source.content (read + 1))).toInt = source.stSize

instance (source : Source) (read : Nat) : Decidable (Meets source read) :=
  inferInstanceAs (Decidable (_ = (source.stSize : Int)))

section Count

variable {source : Source} {content : List UInt8} {read reads : Nat}

theorem readIn_zero (content : List UInt8) : readIn content 0 = 0 := by
  rw [readIn, Nat.zero_mul, Nat.zero_min]

/-- Everything is read at some time. -/
theorem exists_read_all (content : List UInt8) : ∃ read, content.length ≤ read * rdBufMaxLen :=
  ⟨content.length, Nat.le_mul_of_pos_right _ (by decide)⟩

theorem readOf_length (content : List UInt8) (read : Nat) :
    (readOf content read).length = readIn content (read + 1) - readIn content read := by
  rw [readOf, List.length_take, List.length_drop, readIn, readIn, Nat.succ_mul]
  omega

/-- The count grows by what a read gives. -/
theorem readIn_succ (content : List UInt8) (read : Nat) :
    Int32.ofNat (readIn content read) + Int32.ofNat (readOf content read).length =
      Int32.ofNat (readIn content (read + 1)) := by
  rw [← Int32.ofNat_add, readOf_length]
  congr 1
  unfold readIn
  rw [Nat.succ_mul]
  omega

/-- A read gives nothing once everything has been read. -/
theorem read_nothing_iff :
    (readOf content read).length = 0 ↔ content.length ≤ read * rdBufMaxLen := by
  rw [readOf, List.length_take, List.length_drop, rdBufMaxLen]
  omega

/-- For a regular file of less than two gigabytes the count is its size once everything has been
read, and for a larger one it never is. -/
theorem meets_regular_iff (regular : source.link = none) :
    Meets source read ↔
      source.content.length < 2 ^ 31 ∧ source.content.length ≤ (read + 1) * rdBufMaxLen := by
  have size : source.stSize = source.content.length := by rw [Source.stSize, regular]
  have within : readIn source.content (read + 1) ≤ source.content.length := Nat.min_le_right _ _
  rw [Meets, size]
  by_cases small : source.content.length < 2 ^ 31
  · rw [Int32.toInt_ofNat_of_lt (Nat.lt_of_le_of_lt within small), Int.ofNat_inj,
      and_iff_right small]
    exact min_eq_right_iff
  · refine iff_of_false (fun met => ?_) fun both => small both.1
    have below := Int32.toInt_lt (Int32.ofNat (readIn source.content (read + 1)))
    omega

/-- For a link with a text shorter than a chunk the count is not its length before everything has
been read: until then it is a number of whole chunks, or gone around with them. -/
theorem length_le_of_meets_link {text : List UInt8} (link : source.link = some text)
    (nonempty : 0 < text.length) (short : text.length < rdBufMaxLen) (met : Meets source read) :
    source.content.length ≤ (read + 1) * rdBufMaxLen := by
  by_contra more
  have size : source.stSize = text.length := by rw [Source.stSize, link]
  have whole : readIn source.content (read + 1) = (read + 1) * rdBufMaxLen :=
    Nat.min_eq_left (Nat.le_of_not_le more)
  rw [Meets, whole, size, Int32.toInt_ofNat', Int.bmod_def, rdBufMaxLen] at met
  rw [rdBufMaxLen] at short
  simp only [Int32.size] at met
  split at met <;> omega

end Count

/-! ### The end of the copy -/

section Copies

variable {answers : Answers} {optDFlag : Int} {fwrite : Fwrite} {source : Source}
  (succeeds : Succeeds fwrite)

/-- Where the loop is before a read. -/
def CopyStage (source : Source) (read : Nat) (copying : Copying) : Prop :=
  copying.rest = source.content.drop (read * rdBufMaxLen) ∧
    copying.rdLenCnt = Int32.ofNat (readIn source.content read) ∧
    copying.dst.written = source.content.take (read * rdBufMaxLen)

/-- The reads behind which it ends. -/
def CopyStops (optDFlag : Int) (source : Source) (read : Nat) : Prop :=
  Meets source read ∨ (optDFlag = 0 ∧ source.content.length ≤ read * rdBufMaxLen)

/-- What it gives there. -/
def CopyGives (source : Source) (read : Nat) (result : Int × Stream) : Prop :=
  result.1 = 0 ∧ result.2.written = source.content.take ((read + 1) * rdBufMaxLen)

omit succeeds in
theorem copyStage_start (source : Source) : CopyStage source 0 ⟨source.content, 0, ⟨[], 0⟩⟩ := by
  refine ⟨?_, ?_, ?_⟩
  · rw [Nat.zero_mul, List.drop_zero]
  · rw [readIn_zero]
    rfl
  · rw [Nat.zero_mul, List.take_zero]

omit succeeds in
/-- Without the option the loop stops at the end of the source, if not before. -/
theorem exists_copyStops (ends : optDFlag = 0 ∨ ∃ read, Meets source read) :
    ∃ read, CopyStops optDFlag source read := by
  rcases ends with noOption | ⟨read, met⟩
  · obtain ⟨read, all⟩ := exists_read_all source.content
    exact ⟨read, Or.inr ⟨noOption, all⟩⟩
  · exact ⟨read, Or.inl met⟩

omit succeeds in
theorem trans_opened (opened : answers.Opened) (turns : Nat) :
    transDataSrcToDst answers optDFlag fwrite source turns =
      scan (transTurn optDFlag fwrite source.stSize turns) turns ⟨source.content, 0, ⟨[], 0⟩⟩ := by
  unfold transDataSrcToDst
  rw [if_neg (not_not.mpr opened.src), if_neg fun there => there.2 (opened.removed there.1),
    if_neg (not_not.mpr opened.dst), if_neg (not_not.mpr opened.size)]

include succeeds

/-- A turn writes what it reads, and looks at the count. -/
theorem transTurn_eq {turns read : Nat} {copying : Copying} (enough : rdBufMaxLen < turns)
    (here : CopyStage source read copying) :
    ∃ dst : Stream, dst.written = source.content.take ((read + 1) * rdBufMaxLen) ∧
      transTurn optDFlag fwrite source.stSize turns copying =
        if Meets source read then some (.inr (0, dst))
        else if optDFlag = 0 ∧ source.content.length ≤ read * rdBufMaxLen then
          some (.inr (0, dst))
        else some (.inl ⟨source.content.drop ((read + 1) * rdBufMaxLen),
          Int32.ofNat (readIn source.content (read + 1)), dst⟩) := by
  obtain ⟨rest, rdLenCnt, dst⟩ := copying
  obtain ⟨rfl, rfl, written⟩ := here
  have fits : (readOf source.content read).length < turns :=
    Nat.lt_of_le_of_lt (List.length_take_le _ _) enough
  obtain ⟨after, wrote, whole⟩ := sfWriteBuf_succeeds succeeds _ 0 dst fits
  rw [Nat.zero_add] at wrote
  refine ⟨after, ?_, ?_⟩
  · rw [whole, written, Nat.succ_mul, readOf, ← List.take_add]
  · have buffer : (source.content.drop (read * rdBufMaxLen)).take rdBufMaxLen =
        readOf source.content read := rfl
    unfold transTurn
    simp only [buffer, wrote, Option.bind_eq_bind, Option.bind_some, ne_eq, not_true, if_false,
      readIn_succ, read_nothing_iff, List.drop_drop]
    rw [Nat.succ_mul]
    rfl

theorem trans_staged {turns : Nat} (enough : rdBufMaxLen < turns) :
    Staged (transTurn optDFlag fwrite source.stSize turns) (CopyStage source)
      (CopyStops optDFlag source) (CopyGives source) := by
  constructor
  · intro read copying here on
    obtain ⟨dst, written, turned⟩ := transTurn_eq succeeds enough here
    rw [if_neg fun met => on (Or.inl met), if_neg fun nothing => on (Or.inr nothing)] at turned
    exact ⟨_, turned, rfl, rfl, written⟩
  · intro read copying here stop
    obtain ⟨dst, written, turned⟩ := transTurn_eq succeeds enough here
    by_cases met : Meets source read
    · rw [if_pos met] at turned
      exact ⟨_, turned, rfl, written⟩
    · rw [if_neg met, if_pos (stop.resolve_left met)] at turned
      exact ⟨_, turned, rfl, written⟩

/-- The copy ends and is complete if and only if the count meets the size not before everything
has been read, and meets it at all if the option `-d` is given. -/
theorem copies_iff (opened : answers.Opened) :
    Copies answers optDFlag fwrite source ↔
      (∀ read, Meets source read → source.content.length ≤ (read + 1) * rdBufMaxLen) ∧
        (optDFlag = 0 ∨ ∃ read, Meets source read) := by
  unfold Copies
  simp only [trans_opened opened]
  constructor
  · rintro ⟨enough, ends⟩
    obtain ⟨dst, ended, whole⟩ := ends (enough + (rdBufMaxLen + 1)) (Nat.le_add_right _ _)
    obtain ⟨last, stop, earlier, _, written⟩ :=
      (trans_staged succeeds (show rdBufMaxLen < _ by omega)).scan_some
        (copyStage_start source) ended
    have all : source.content.length ≤ (last + 1) * rdBufMaxLen := by
      have length := congrArg List.length (written.symm.trans whole)
      rw [List.length_take] at length
      exact min_eq_right_iff.mp length
    refine ⟨fun read met => all.trans ?_, ?_⟩
    · have later : last ≤ read :=
        Nat.le_of_not_lt fun before => earlier read before (Or.inl met)
      exact Nat.mul_le_mul_right _ (Nat.succ_le_succ later)
    · rcases stop with met | ⟨noOption, _⟩
      · exact Or.inr ⟨last, met⟩
      · exact Or.inl noOption
  · rintro ⟨late, ends⟩
    obtain ⟨last, stop, earlier⟩ := exists_first (exists_copyStops ends)
    have all : source.content.length ≤ (last + 1) * rdBufMaxLen := by
      rcases stop with met | ⟨_, nothing⟩
      · exact late last met
      · exact nothing.trans (Nat.mul_le_mul_right _ (Nat.le_succ last))
    refine ⟨last + rdBufMaxLen + 1, fun turns enough => ?_⟩
    obtain ⟨⟨ret, dst⟩, ended, zero, written⟩ :=
      (trans_staged succeeds (show rdBufMaxLen < turns by omega)).scan_stops
        (copyStage_start source) (Nat.zero_le _) (show last < 0 + turns by omega) stop earlier
    cases zero
    exact ⟨dst, ended, written.trans (List.take_of_length_le all)⟩

/-- A regular file is copied without the option, whatever its size, and with it if it has less than
two gigabytes. -/
theorem copies_regular_iff (opened : answers.Opened) (regular : source.link = none) :
    Copies answers optDFlag fwrite source ↔
      optDFlag = 0 ∨ source.content.length < 2 ^ 31 := by
  rw [copies_iff succeeds opened]
  simp only [meets_regular_iff regular]
  constructor
  · rintro ⟨_, noOption | ⟨read, small, _⟩⟩
    · exact Or.inl noOption
    · exact Or.inr small
  · intro either
    obtain ⟨read, all⟩ := exists_read_all source.content
    exact ⟨fun read met => met.2, either.imp_right fun small =>
      ⟨read, small, all.trans (Nat.mul_le_mul_right _ (Nat.le_succ read))⟩⟩

/-- And what a link leads to is copied without the option, whatever its size. -/
theorem copies_link (opened : answers.Opened) {text : List UInt8} (link : source.link = some text)
    (nonempty : 0 < text.length) (short : text.length < rdBufMaxLen) :
    Copies answers 0 fwrite source :=
  (copies_iff succeeds opened).mpr
    ⟨fun _ met => length_le_of_meets_link link nonempty short met, Or.inl rfl⟩

end Copies

end ExmOnvif.Sfcp
