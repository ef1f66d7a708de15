/-
This file models how the safe copy program compares a copy with its source, chunk by chunk, by
their checksums, and proves when the comparison ends and is right.

It ends as the copy does, with the count of what was read of the source. What the destination has
behind that is looked at only if the source is read once more, and then gives nothing.
-/

import ExmOnvif.GtComApi.Packet
import ExmOnvif.Sfcp.TransData

namespace ExmOnvif.Sfcp

open Library GtComApi

/-! ### The comparison -/

/-- The checksum of a chunk. Where nothing was read it is zero. -/
def crcOf (readBuf : List UInt8) : UInt32 :=
  if readBuf.length ≠ 0 then tabCrc32 readBuf else 0

/-- The variables of the loop: what is left of both files, and `rd_len_cnt`. -/
structure Checking where
  restSrc : List UInt8
  restDst : List UInt8
  rdLenCnt : Int32

/-- The body of the loop of `check_file_crc32`. -/
def checkTurn (optDFlag : Int) (stSize : Nat) (checking : Checking) : Option (Checking ⊕ Int) :=
  let srcBuf := checking.restSrc.take rdBufMaxLen
  let dstBuf := checking.restDst.take rdBufMaxLen
  let rdLenCnt := checking.rdLenCnt + Int32.ofNat srcBuf.length
  if srcBuf.length = 0 ∧ dstBuf.length ≠ 0 then some (.inr (-1))
  else if crcOf srcBuf ≠ crcOf dstBuf then some (.inr (-1))
  else if rdLenCnt.toInt = stSize then some (.inr 0)
  else if optDFlag = 0 ∧ srcBuf.length = 0 then some (.inr 0)
  else some (.inl
    ⟨checking.restSrc.drop rdBufMaxLen, checking.restDst.drop rdBufMaxLen, rdLenCnt⟩)

/-- `check_file_crc32`, in a number of turns. -/
def checkFileCrc32 (answers : Answers) (optDFlag : Int) (source : Source) (dst : List UInt8)
    (turns : Nat) : Option Int :=
  if ¬answers.srcOpens then some (-1)
  else if ¬answers.dstOpens then some (-1)
  else if ¬answers.lstats then some (-1)
  else scan (checkTurn optDFlag source.stSize) turns ⟨source.content, dst, 0⟩

/-- The files can be read, and the size is known. -/
structure Answers.Readable (answers : Answers) : Prop where
  src : answers.srcOpens = true
  dst : answers.dstOpens = true
  size : answers.lstats = true

/-- The comparison ends, and with zero if and only if the files have the same bytes. -/
def Verifies (answers : Answers) (optDFlag : Int) (source : Source) (dst : List UInt8) : Prop :=
  ∃ enough ret, (∀ turns, enough ≤ turns →
    checkFileCrc32 answers optDFlag source dst turns = some ret) ∧ (ret = 0 ↔ source.content = dst)

/-- The checksum distinguishes the chunks of two files that are compared. -/
def Distinguishes (src dst : List UInt8) : Prop :=
  ∀ read, readOf src read ≠ [] → readOf dst read ≠ [] → readOf src read ≠ readOf dst read →
    tabCrc32 (readOf src read) ≠ tabCrc32 (readOf dst read)

/-- Two chunks are different, and the one of the source is not one of checksum zero where the
destination has come to its end. -/
def ToldApart (src dst : List UInt8) (read : Nat) : Prop :=
  readOf src read ≠ readOf dst read ∧
    ¬(readOf dst read = [] ∧ tabCrc32 (readOf src read) = 0)

instance (src dst : List UInt8) (read : Nat) : Decidable (ToldApart src dst read) :=
  inferInstanceAs (Decidable (_ ∧ _))

/-! ### Chunks -/

section Chunks

variable {src dst content : List UInt8} {read : Nat}

theorem readOf_eq_nil_iff : readOf content read = [] ↔ content.length ≤ read * rdBufMaxLen :=
  List.length_eq_zero_iff.symm.trans read_nothing_iff

/-- Behind the end there is nothing to read. -/
theorem readOf_eq_nil_of_le {later : Nat} (ahead : read ≤ later)
    (ended : readOf content read = []) :
    readOf content later = [] :=
  readOf_eq_nil_iff.mpr
    ((readOf_eq_nil_iff.mp ended).trans (Nat.mul_le_mul_right _ ahead))

/-- A file that begins with another has the same chunks, up to where the other ends. -/
theorem readOf_append (within : (read + 1) * rdBufMaxLen ≤ src.length) (more : List UInt8) :
    readOf (src ++ more) read = readOf src read := by
  rw [Nat.succ_mul] at within
  rw [readOf, readOf, List.drop_append_of_le_length (by omega), List.take_append_of_le_length]
  rw [List.length_drop]
  omega

theorem crcOf_nil : crcOf [] = 0 := rfl

theorem crcOf_of_ne_nil (nonempty : content ≠ []) : crcOf content = tabCrc32 content :=
  if_pos fun none => nonempty (List.length_eq_zero_iff.mp none)

/-- What the loop finds to be different. -/
theorem toldApart_iff (distinguishes : Distinguishes src dst) :
    ToldApart src dst read ↔
      ((readOf src read).length = 0 ∧ (readOf dst read).length ≠ 0) ∨
        crcOf (readOf src read) ≠ crcOf (readOf dst read) := by
  have differ := distinguishes read
  unfold ToldApart
  rw [ne_eq (readOf dst read).length, List.length_eq_zero_iff, List.length_eq_zero_iff]
  by_cases srcEnded : readOf src read = [] <;> by_cases dstEnded : readOf dst read = []
  · rw [srcEnded, dstEnded]
    exact iff_of_false (fun apart => apart.1 rfl)
      fun either => either.elim (fun more => more.2 rfl) fun other => other rfl
  · rw [srcEnded]
    exact iff_of_true ⟨Ne.symm dstEnded, fun ended => dstEnded ended.1⟩ (Or.inl ⟨rfl, dstEnded⟩)
  · rw [dstEnded, crcOf_nil, crcOf_of_ne_nil srcEnded, or_iff_right fun ended => srcEnded ended.1,
      and_iff_right srcEnded]
    exact not_congr (and_iff_right rfl)
  · rw [crcOf_of_ne_nil srcEnded, crcOf_of_ne_nil dstEnded,
      or_iff_right fun ended => srcEnded ended.1, and_iff_left fun ended => dstEnded ended.1]
    exact ⟨differ srcEnded dstEnded, fun other same => other (congrArg tabCrc32 same)⟩

end Chunks

/-! ### The end of the comparison -/

section Verifies

variable {answers : Answers} {optDFlag : Int} {source : Source} {dst : List UInt8}

/-- Where the loop is before a read. -/
def CheckStage (source : Source) (dst : List UInt8) (read : Nat) (checking : Checking) : Prop :=
  checking.restSrc = source.content.drop (read * rdBufMaxLen) ∧
    checking.restDst = dst.drop (read * rdBufMaxLen) ∧
    checking.rdLenCnt = Int32.ofNat (readIn source.content read)

/-- The reads behind which it ends. -/
def CheckStops (optDFlag : Int) (source : Source) (dst : List UInt8) (read : Nat) : Prop :=
  ToldApart source.content dst read ∨ Meets source read ∨
    (optDFlag = 0 ∧ source.content.length ≤ read * rdBufMaxLen)

/-- What it gives there. -/
def CheckGives (source : Source) (dst : List UInt8) (read : Nat) (ret : Int) : Prop :=
  ret = if ToldApart source.content dst read then -1 else 0

theorem checkStage_start (source : Source) (dst : List UInt8) :
    CheckStage source dst 0 ⟨source.content, dst, 0⟩ := by
  refine ⟨?_, ?_, ?_⟩
  · rw [Nat.zero_mul, List.drop_zero]
  · rw [Nat.zero_mul, List.drop_zero]
  · rw [readIn_zero]
    rfl

theorem check_opened (readable : answers.Readable) (turns : Nat) :
    checkFileCrc32 answers optDFlag source dst turns =
      scan (checkTurn optDFlag source.stSize) turns ⟨source.content, dst, 0⟩ := by
  unfold checkFileCrc32
  rw [if_neg (not_not.mpr readable.src), if_neg (not_not.mpr readable.dst),
    if_neg (not_not.mpr readable.size)]

variable (distinguishes : Distinguishes source.content dst)

include distinguishes

/-- A turn compares what it reads, and looks at the count. -/
theorem checkTurn_eq {read : Nat} {checking : Checking}
    (here : CheckStage source dst read checking) :
    checkTurn optDFlag source.stSize checking =
      if ToldApart source.content dst read then some (.inr (-1))
      else if Meets source read then some (.inr 0)
      else if optDFlag = 0 ∧ source.content.length ≤ read * rdBufMaxLen then some (.inr 0)
      else some (.inl ⟨source.content.drop ((read + 1) * rdBufMaxLen),
        dst.drop ((read + 1) * rdBufMaxLen),
        Int32.ofNat (readIn source.content (read + 1))⟩) := by
  obtain ⟨restSrc, restDst, rdLenCnt⟩ := checking
  obtain ⟨rfl, rfl, rfl⟩ := here
  have srcBuf : (source.content.drop (read * rdBufMaxLen)).take rdBufMaxLen =
      readOf source.content read := rfl
  have dstBuf : (dst.drop (read * rdBufMaxLen)).take rdBufMaxLen = readOf dst read := rfl
  have apart : ToldApart source.content dst read ↔ _ := toldApart_iff distinguishes
  unfold checkTurn
  simp only [srcBuf, dstBuf, readIn_succ, List.drop_drop]
  by_cases ended : (readOf source.content read).length = 0 ∧ (readOf dst read).length ≠ 0
  · rw [if_pos ended, if_pos (apart.mpr (Or.inl ended))]
  rw [if_neg ended]
  by_cases other : crcOf (readOf source.content read) ≠ crcOf (readOf dst read)
  · rw [if_pos other, if_pos (apart.mpr (Or.inr other))]
  rw [if_neg other, if_neg fun found => (apart.mp found).elim ended other]
  simp only [read_nothing_iff, Nat.succ_mul]
  rfl

theorem check_staged :
    Staged (checkTurn optDFlag source.stSize) (CheckStage source dst)
      (CheckStops optDFlag source dst) (CheckGives source dst) := by
  constructor
  · intro read checking here on
    have turned : checkTurn optDFlag source.stSize checking = _ := checkTurn_eq distinguishes here
    rw [if_neg fun apart => on (Or.inl apart), if_neg fun met => on (Or.inr (Or.inl met)),
      if_neg fun nothing => on (Or.inr (Or.inr nothing))] at turned
    exact ⟨_, turned, rfl, rfl, rfl⟩
  · intro read checking here stop
    have turned : checkTurn optDFlag source.stSize checking = _ := checkTurn_eq distinguishes here
    by_cases apart : ToldApart source.content dst read
    · rw [if_pos apart] at turned
      exact ⟨-1, turned, (if_pos apart).symm⟩
    rw [if_neg apart] at turned
    by_cases met : Meets source read
    · rw [if_pos met] at turned
      exact ⟨0, turned, (if_neg apart).symm⟩
    · rw [if_neg met, if_pos ((stop.resolve_left apart).resolve_left met)] at turned
      exact ⟨0, turned, (if_neg apart).symm⟩

/-- It ends at the first read where it stops, and is right there if it is where two chunks are told
apart just if the files differ. -/
theorem verifies_iff_stops (readable : answers.Readable) :
    Verifies answers optDFlag source dst ↔
      ∃ last, CheckStops optDFlag source dst last ∧
        (∀ earlier < last, ¬CheckStops optDFlag source dst earlier) ∧
        (ToldApart source.content dst last ↔ source.content ≠ dst) := by
  have staged : Staged (checkTurn optDFlag source.stSize) _ _ _ := check_staged distinguishes
  have right : ∀ last ret, CheckGives source dst last ret →
      ((ret = 0 ↔ source.content = dst) ↔
        (ToldApart source.content dst last ↔ source.content ≠ dst)) := by
    rintro last _ rfl
    by_cases apart : ToldApart source.content dst last
    · rw [if_pos apart, iff_true_left apart]
      exact iff_false_left (by decide)
    · rw [if_neg apart, iff_false_left apart, iff_true_left rfl]
      exact not_not.symm
  constructor
  · rintro ⟨enough, ret, ends, equal⟩
    have ended := ends enough (Nat.le_refl _)
    rw [check_opened readable] at ended
    obtain ⟨last, stop, earlier, gives⟩ := staged.scan_some (checkStage_start source dst) ended
    exact ⟨last, stop, earlier, (right last ret gives).mp equal⟩
  · rintro ⟨last, stop, earlier, apart⟩
    refine ⟨last + 1, _, fun turns enough => ?_, (right last _ rfl).mpr apart⟩
    obtain ⟨ret, ended, rfl⟩ :=
      staged.scan_stops (checkStage_start source dst) (Nat.zero_le _)
        (show last < 0 + turns by omega) stop earlier
    rw [check_opened readable, ended]

omit distinguishes in
/-- Where both files have come to their end nothing more is told apart. -/
theorem not_toldApart_of_ended {read later : Nat} (ahead : read ≤ later)
    (ended : source.content.length ≤ read * rdBufMaxLen)
    (same : ¬ToldApart source.content dst read) : ¬ToldApart source.content dst later := by
  have srcEnded : readOf source.content read = [] := readOf_eq_nil_iff.mpr ended
  have dstEnded : readOf dst read = [] := by
    by_contra more
    refine same ⟨?_, fun ended => more ended.1⟩
    rw [srcEnded]
    exact Ne.symm more
  rintro ⟨differ, _⟩
  rw [readOf_eq_nil_of_le ahead srcEnded, readOf_eq_nil_of_le ahead dstEnded] at differ
  exact differ rfl

/-- The comparison ends and is right if and only if two files with the same bytes are read until
the count meets the size, or with no option `-d`, and two chunks of other files are told apart
before the count meets the size. -/
theorem verifies_iff (readable : answers.Readable) :
    Verifies answers optDFlag source dst ↔
      (source.content = dst → optDFlag = 0 ∨ ∃ read, Meets source read) ∧
        (source.content ≠ dst → ∃ read, ToldApart source.content dst read ∧
          ∀ earlier < read, ¬Meets source earlier) := by
  rw [verifies_iff_stops distinguishes readable]
  constructor
  · rintro ⟨last, stop, earlier, apart⟩
    refine ⟨fun same => ?_, fun differ => ⟨last, apart.mpr differ, fun read before met =>
      earlier read before (Or.inr (Or.inl met))⟩⟩
    rcases stop.resolve_left fun found => apart.mp found same with met | ⟨noOption, _⟩
    · exact Or.inr ⟨last, met⟩
    · exact Or.inl noOption
  · rintro ⟨equal, other⟩
    by_cases same : source.content = dst
    · have none : ∀ read, ¬ToldApart source.content dst read := by
        rintro read ⟨differ, _⟩
        exact differ (by rw [same])
      have any : ∃ last, CheckStops optDFlag source dst last :=
        (exists_copyStops (equal same)).imp fun _ => Or.inr
      obtain ⟨last, stop, earlier⟩ := exists_first any
      exact ⟨last, stop, earlier, iff_of_false (none last) (not_not.mpr same)⟩
    · obtain ⟨read, apart, before⟩ := other same
      have any : ∃ last, CheckStops optDFlag source dst last := ⟨read, Or.inl apart⟩
      obtain ⟨last, stop, earlier⟩ := exists_first any
      refine ⟨last, stop, earlier, iff_of_true ?_ same⟩
      have ahead : last ≤ read := Nat.le_of_not_lt fun less => earlier read less (Or.inl apart)
      rcases Nat.eq_or_lt_of_le ahead with rfl | sooner
      · exact apart
      rcases stop with found | met | ⟨_, ended⟩
      · exact found
      · exact absurd met (before last sooner)
      · by_contra missed
        exact not_toldApart_of_ended ahead ended missed apart

/-- For a regular file of less than two gigabytes: the files have the same bytes, or two chunks are
told apart of which the first one, or one that begins within the source. -/
theorem verifies_regular_iff (readable : answers.Readable) (regular : source.link = none)
    (small : source.content.length < 2 ^ 31) :
    Verifies answers optDFlag source dst ↔
      (source.content ≠ dst → ∃ read, ToldApart source.content dst read ∧
        (read = 0 ∨ read * rdBufMaxLen < source.content.length)) := by
  have met : ∀ read, Meets source read ↔ source.content.length ≤ (read + 1) * rdBufMaxLen :=
    fun read => (meets_regular_iff regular).trans (and_iff_right small)
  have within : ∀ read, (∀ earlier < read, ¬Meets source earlier) ↔
      (read = 0 ∨ read * rdBufMaxLen < source.content.length) := by
    intro read
    cases read with
    | zero => exact iff_of_true (fun _ before => absurd before (Nat.not_lt_zero _)) (Or.inl rfl)
    | succ read =>
      rw [or_iff_right (Nat.succ_ne_zero read)]
      constructor
      · intro before
        exact Nat.lt_of_not_le fun ended => before read (Nat.lt_succ_self _) ((met read).mpr ended)
      · intro more earlier before reached
        have ended := (met earlier).mp reached
        exact absurd (ended.trans (Nat.mul_le_mul_right _ before)) (Nat.not_le.mpr more)
  have ends : ∃ read, Meets source read := by
    obtain ⟨read, all⟩ := exists_read_all source.content
    exact ⟨read, (met read).mpr (all.trans (Nat.mul_le_mul_right _ (Nat.le_succ read)))⟩
  rw [verifies_iff distinguishes readable, and_iff_right fun _ => Or.inr ends]
  simp only [within]

end Verifies

/-! ### Bytes behind the copy -/

section Trailing

variable {answers : Answers} {optDFlag : Int} {source : Source} {read : Nat}

/-- Chunks of a file and of the same file with more bytes differ only behind its end. -/
theorem distinguishes_append (whole : source.content.length = (read + 1) * rdBufMaxLen)
    (more : List UInt8) : Distinguishes source.content (source.content ++ more) := by
  intro other srcRead _ differ
  rcases Nat.lt_or_ge read other with behind | within
  · refine absurd (readOf_eq_nil_iff.mpr ?_) srcRead
    rw [whole]
    exact Nat.mul_le_mul_right _ behind
  · refine absurd (readOf_append ?_ more).symm differ
    rw [whole]
    exact Nat.mul_le_mul_right _ (Nat.succ_le_succ within)

/-- A regular file of whole chunks is taken for the same as one that goes on behind it. -/
theorem not_verifies_append (readable : answers.Readable) (regular : source.link = none)
    (whole : source.content.length = (read + 1) * rdBufMaxLen)
    (small : source.content.length < 2 ^ 31) {more : List UInt8}
    (nonempty : more ≠ []) :
    ¬Verifies answers optDFlag source (source.content ++ more) := by
  rw [verifies_regular_iff (distinguishes_append whole more) readable regular small]
  intro other
  obtain ⟨later, ⟨differ, _⟩, begins⟩ :=
    other fun same => nonempty (List.self_eq_append_right.mp same)
  refine differ (readOf_append ?_ more).symm
  rw [whole] at begins ⊢
  rcases begins with rfl | within
  · exact Nat.mul_le_mul_right _ (Nat.succ_le_succ (Nat.zero_le _))
  · exact Nat.mul_le_mul_right _ (Nat.lt_of_mul_lt_mul_right within)

end Trailing

/-! ### Copying and comparing -/

/-- For every source, of any size, and with all writes succeeding, the copy ends with zero and the
destination holds the bytes of the source, if and only if the count meets the size not before all
is read, and meets it at all where `-d` is given. For any two files whose chunks the checksum
distinguishes, the comparison ends and tells whether they have the same bytes, if and only if the
count meets the size at all, where `-d` is given and they have, and not before two chunks are told
apart where they have not. -/
theorem copies_and_verifies_iff {copying checking : Answers} {optDFlag : Int} {fwrite : Fwrite}
    {source checked : Source} {dst : List UInt8} (succeeds : Succeeds fwrite)
    (opened : copying.Opened) (distinguishes : Distinguishes checked.content dst)
    (readable : checking.Readable) :
    (Copies copying optDFlag fwrite source ↔
      (∀ read, Meets source read → source.content.length ≤ (read + 1) * rdBufMaxLen) ∧
        (optDFlag = 0 ∨ ∃ read, Meets source read)) ∧
    (Verifies checking optDFlag checked dst ↔
      (checked.content = dst → optDFlag = 0 ∨ ∃ read, Meets checked read) ∧
        (checked.content ≠ dst → ∃ read, ToldApart checked.content dst read ∧
          ∀ earlier < read, ¬Meets checked earlier)) :=
  ⟨copies_iff succeeds opened, verifies_iff distinguishes readable⟩

/-- All goes well. -/
def allWell : Answers := ⟨true, false, true, true, true⟩

theorem allWell_opened : allWell.Opened := ⟨rfl, fun _ => rfl, rfl, rfl⟩

theorem allWell_readable : allWell.Readable := ⟨rfl, rfl, rfl⟩

/-- Every call of `fwrite` takes all there is. -/
def takesAll : Fwrite := fun _ left => (left.length, 0)

theorem takesAll_succeeds : Succeeds takesAll := fun _ _ nonempty =>
  ⟨Int.natCast_pos.mpr (List.length_pos_iff.mpr nonempty), Int.le_refl _⟩

/-- A file of three bytes. -/
def threeBytes : Source := ⟨[1, 2, 3], none⟩

theorem threeBytes_distinguishes : Distinguishes threeBytes.content [1, 2, 4] := by
  intro read srcRead _ _
  cases read with
  | zero => decide +kernel
  | succ read =>
    refine absurd (readOf_eq_nil_iff.mpr ?_) srcRead
    show 3 ≤ (read + 1) * rdBufMaxLen
    unfold rdBufMaxLen
    omega

/-- It is copied whole, and told from another one that ends differently. -/
theorem copies_and_verifies_iff_three_bytes :
    Copies allWell 1 takesAll threeBytes ∧ Verifies allWell 1 threeBytes [1, 2, 4] := by
  have settled := @copies_and_verifies_iff allWell allWell 1 takesAll threeBytes threeBytes
    [1, 2, 4] takesAll_succeeds allWell_opened threeBytes_distinguishes allWell_readable
  refine ⟨settled.1.mpr ⟨fun read _ => ?_, Or.inr ⟨0, by decide +kernel⟩⟩,
    settled.2.mpr ⟨fun same => absurd same (by decide), fun _ => ⟨0, by decide +kernel, ?_⟩⟩⟩
  · show 3 ≤ (read + 1) * rdBufMaxLen
    unfold rdBufMaxLen
    omega
  · exact fun earlier before => absurd before (Nat.not_lt_zero earlier)

/-- A file of two gigabytes is not copied with the option, and one of 8192 bytes is taken for the
same as one with a byte more. -/
theorem two_gigabytes_and_a_byte_more :
    (∃ source : Source, source.link = none ∧ source.content.length = 2 ^ 31 ∧
      ¬Copies allWell 1 takesAll source) ∧
    ∃ source : Source, source.link = none ∧ source.content.length = 8192 ∧
      Distinguishes source.content (source.content ++ [0]) ∧
      ¬Verifies allWell 0 source (source.content ++ [0]) := by
  constructor
  · refine ⟨⟨List.replicate (2 ^ 31) 0, none⟩, rfl, List.length_replicate, ?_⟩
    rw [copies_regular_iff takesAll_succeeds allWell_opened rfl, List.length_replicate]
    exact fun either => either.elim (by decide) (Nat.lt_irrefl _)
  · have length : (List.replicate 8192 (0 : UInt8)).length = (0 + 1) * rdBufMaxLen :=
      List.length_replicate
    refine ⟨⟨List.replicate 8192 0, none⟩, rfl, List.length_replicate, ?_, ?_⟩
    · exact @distinguishes_append ⟨List.replicate 8192 0, none⟩ 0 length [0]
    · exact @not_verifies_append allWell 0 ⟨List.replicate 8192 0, none⟩ 0
        allWell_readable rfl length
        (by rw [length]; decide) _ (List.cons_ne_nil _ _)

end ExmOnvif.Sfcp
