/-
This file models the names of the recorded files and proves that what is put into a name
is read back from it.

A name is made of the partition, a directory for the hour, and fields of a letter and a
number behind underscores: the channel, the time, the length and the alarms. A file that
is locked has a mark behind the fields, one that was recorded by hand another one before
it. The reader looks for an underscore, takes the field behind it up to the first
character that is no letter and no digit, and goes on from there.
-/

import Mathlib.Data.Bool.AllAny
import ExmOnvif.Library.Text
import ExmOnvif.Library.Numerals

namespace ExmOnvif.HdModule

open Library

/-! ### Names -/

/-- The fields of `struct tm` that are written into a name. -/
structure Tm where
  year : Int
  mon : Int
  mday : Int
  hour : Int
  min : Int
  sec : Int
deriving DecidableEq, Repr

/-- `file_info_struct`. -/
structure FileInfo where
  stime : Int
  channel : Int
  type : Int
  len : Int
  trig : Int
  remote : Int
  lock : Int
  ingFlag : Int
  partition : Text
deriving DecidableEq, Repr

/-- `REMOTE_TRIG_FLAG`. -/
def remoteTrigFlag : Char := '#'

/-- `LOCK_FILE_FLAG`. -/
def lockFileFlag : Char := '@'

/-- `IMG_FILE_EXT`. -/
def imgFileExt : Text := ['.', 'A', 'V', 'I']

/-- `RECORDING_FILE_EXT`. -/
def recordingFileExt : Text := ['.', 'I', 'N', 'G']

/-- The marks of a name. -/
def marks (info : FileInfo) : Text :=
  if info.remote = 1 then [remoteTrigFlag, lockFileFlag]
  else if info.trig ≠ 0 then [lockFileFlag]
  else []

/-- The part of a name before the fields. -/
def folder (info : FileInfo) (tm : Tm) : Text :=
  info.partition ++ '/' :: printDecimal 4 (1900 + tm.year) ++ '/' :: printDecimal 2 (tm.mon + 1) ++
    '/' :: printDecimal 2 tm.mday ++ '/' :: printDecimal 2 tm.hour ++ ['/', 'H', 'Q']

/-- The time in a name. -/
def stamp (tm : Tm) : Text :=
  printDecimal 4 (1900 + tm.year) ++ printDecimal 2 (tm.mon + 1) ++ printDecimal 2 tm.mday ++
    printDecimal 2 tm.hour ++ printDecimal 2 tm.min ++ printDecimal 2 tm.sec

/-- The fields of a name. -/
def fields (info : FileInfo) (tm : Tm) : Text :=
  '_' :: 'C' :: printDecimal 2 info.channel ++ '_' :: 'D' :: stamp tm ++
    '_' :: 'L' :: printDecimal 2 info.len ++ '_' :: 'T' :: printHex 2 info.trig

/-- `finfo2filename`. -/
def finfo2filename (localtime : Int → Option Tm) (info : FileInfo) : Option Text :=
  (localtime info.stime).map fun tm => folder info tm ++ fields info tm ++ marks info ++ imgFileExt

/-- What `create_record_file` makes of a name. -/
def recordingName (filename : Text) : Text :=
  match strstr imgFileExt filename with
  | some found => filename.take (filename.length - found.length) ++ recordingFileExt
  | none => filename

/-! ### The reader -/

/-- `hex2ascii`. -/
def hex2ascii : Char → Int
  | 'F' => 63
  | 'E' => 62
  | 'D' => 61
  | 'C' => 60
  | 'B' => 59
  | 'A' => 58
  | char => char.toUpper.toNat

/-- The time of a field: four digits and five times two digits. -/
def readStamp (memory : Text) : Tm :=
  { year := atoi (memory.take 4) - 1900
    mon := atoi ((memory.drop 4).take 2) - 1
    mday := atoi ((memory.drop 6).take 2)
    hour := atoi ((memory.drop 8).take 2)
    min := atoi ((memory.drop 10).take 2)
    sec := atoi ((memory.drop 12).take 2) }

/-- The alarms of a field, from its last four digits. -/
def readTrig (text : Text) : Int :=
  numeral 16 (fun char => hex2ascii char - 48) (text.drop (text.length - 4))

/-- One field, up to its end, which is set to zero meanwhile. The time has no value where it is
read from behind the name. -/
def readField (mktime : Tm → Int) (p : Text) (info : FileInfo) : Option FileInfo :=
  match p.takeWhile Char.isAlphanum with
  | [] => some info
  | letter :: text =>
    if letter = 'c' ∨ letter = 'C' then some { info with channel := atoi text }
    else if letter = 'd' ∨ letter = 'D' then
      let memory := text ++ Char.ofNat 0 :: (p.dropWhile Char.isAlphanum).tail
      if memory.length < 14 then none
      else some { info with stime := mktime (readStamp memory) }
    else if letter = 'l' ∨ letter = 'L' then some { info with len := atoi text }
    else if letter = 't' ∨ letter = 'T' then some { info with trig := readTrig text }
    else some info

/-- The loop of `hdutil_filename2finfo`, with what it returns. -/
def scan (mktime : Tm → Int) (marked : Bool) (p : Text) (info : FileInfo) :
    Option (Int × FileInfo) :=
  match p with
  | [] => some (0, info)
  | char :: rest =>
    if char = '\n' then some (0, info)
    else if marked = false then scan mktime (decide (char = '_')) rest info
    -- `get_strtail` refuses a long string.
    else if 100 < (char :: rest).length then some (-1, info)
    else
      match readField mktime (char :: rest) info with
      | none => none
      | some next => scan mktime false ((char :: rest).dropWhile Char.isAlphanum) next
termination_by 2 * p.length + marked.toNat
decreasing_by
  · have bound := Bool.toNat_le (decide (char = '_'))
    simp only [List.length_cons]
    omega
  · have shorter := (List.dropWhile_suffix (l := char :: rest) Char.isAlphanum).length_le
    have set : marked.toNat = 1 := by
      cases marked with
      | true => rfl
      | false => contradiction
    simp only [Bool.toNat_false]
    omega

/-- The partition in a name. Without a terminator the copy goes on with what was there. -/
def readPartition (filename old : Text) : Option Text :=
  match strstr ['s', 'd'] filename with
  | none => some ['/', 'h', 'q', 'd', 'a', 't', 'a', '/', 's', 'd', 'a', '1']
  | some found =>
    let count := filename.length - found.length + 4
    if 16 < count then none
    else if filename.length < count then some (filename.take 12)
    else some ((filename.take count ++ old.drop count).take 12)

/-- `hdutil_filename2finfo`. -/
def filename2finfo (mktime : Tm → Int) (filename : Text) (info : FileInfo) :
    Option (Int × FileInfo) :=
  if 100 < filename.length then some (-1, info)
  else
    match readPartition filename info.partition with
    | none => none
    | some partition =>
      scan mktime false filename
        { info with
          partition := partition
          remote := if remoteTrigFlag ∈ filename then 1 else 0
          lock := if lockFileFlag ∈ filename then 1 else 0
          ingFlag := if strstr recordingFileExt filename = none then 0 else 1 }

/-! ### What is asked of a name -/

/-- The ranges of the fields that `localtime` fills in. -/
structure Tm.Proper (tm : Tm) : Prop where
  mon : 0 ≤ tm.mon ∧ tm.mon ≤ 11
  mday : 1 ≤ tm.mday ∧ tm.mday ≤ 31
  hour : 0 ≤ tm.hour ∧ tm.hour ≤ 23
  min : 0 ≤ tm.min ∧ tm.min ≤ 59
  sec : 0 ≤ tm.sec ∧ tm.sec ≤ 60

/-- What the C library promises of its times: `mktime` inverts `localtime`. -/
structure Calendar (localtime : Int → Option Tm) (mktime : Tm → Int) : Prop where
  inverts : ∀ time tm, localtime time = some tm → mktime tm = time
  proper : ∀ time tm, localtime time = some tm → tm.Proper

/-- A file of a partition, with a time whose year has four digits. -/
structure Nameable (localtime : Int → Option Tm) (info : FileInfo) : Prop where
  partition : ∃ letter digit : Char, letter.isAlpha = true ∧ digit.isDigit = true ∧
    info.partition = ['/', 'h', 'q', 'd', 'a', 't', 'a', '/', 's', 'd', letter, digit]
  channel : 0 ≤ info.channel ∧ info.channel ≤ 99
  len : 0 ≤ info.len ∧ info.len < 2 ^ 31
  trig : 0 ≤ info.trig ∧ info.trig ≤ 0xFFFF
  remote : info.remote = 0 ∨ info.remote = 1
  year : ∃ tm, localtime info.stime = some tm ∧ 1000 ≤ 1900 + tm.year ∧ 1900 + tm.year ≤ 9999

/-- What is read of a file, over what was there. -/
def readBack (info old : FileInfo) (ingFlag : Int) : FileInfo :=
  { info with
    type := old.type
    lock := if info.remote = 1 ∨ info.trig ≠ 0 then 1 else 0
    ingFlag := ingFlag }

/-! ### Characters -/

theorem isAlphanum_of_isDigit {char : Char} (digit : char.isDigit = true) :
    char.isAlphanum = true := by
  unfold Char.isAlphanum
  rw [digit, Bool.or_true]

theorem isAlphanum_of_isAlpha {char : Char} (letter : char.isAlpha = true) :
    char.isAlphanum = true := by
  unfold Char.isAlphanum
  rw [letter, Bool.true_or]

theorem ne_of_isAlphanum {char other : Char} (letter : char.isAlphanum = true)
    (mark : other.isAlphanum = false) : char ≠ other := by
  rintro rfl
  rw [letter] at mark
  cases mark

theorem upper_digitChar :
    ∀ digit < 16, (Nat.digitChar digit).toUpper.isAlphanum = true ∧
      hex2ascii (Nat.digitChar digit).toUpper - 48 = digit := by
  decide

theorem isAlphanum_of_mem_printHex {width : Nat} {number : Int} {char : Char}
    (member : char ∈ printHex width number) : char.isAlphanum = true := by
  unfold printHex at member
  obtain ⟨lower, inside, rfl⟩ := List.mem_map.mp member
  rcases mem_padded inside with digit | rfl
  · obtain ⟨value, small, rfl⟩ := mem_toDigits (by decide) digit
    exact (upper_digitChar value small).1
  · decide

theorem isAlphanum_of_mem_printDecimal {width : Nat} {number : Int} (nonneg : 0 ≤ number)
    {char : Char} (member : char ∈ printDecimal width number) : char.isAlphanum = true :=
  isAlphanum_of_isDigit (isDigit_of_mem_printDecimal nonneg member)

/-- The alarms have at most four digits. -/
theorem printHex_length_le {number : Int} (nonneg : 0 ≤ number) (small : number ≤ 0xFFFF) :
    (printHex 2 number).length ≤ 4 := by
  have fits : (number % 2 ^ 32).toNat < 16 ^ 4 := by omega
  unfold printHex
  rw [List.length_map]
  exact padded_length_le (by decide) (by decide) fits

theorem readTrig_printHex {number : Int} (nonneg : 0 ≤ number) (small : number ≤ 0xFFFF) :
    readTrig (printHex 2 number) = number := by
  have short := printHex_length_le nonneg small
  have digits : ∀ digit < 16, hex2ascii (Nat.digitChar digit).toUpper - 48 = (digit : Int) :=
    fun digit below => (upper_digitChar digit below).2
  unfold readTrig
  rw [Nat.sub_eq_zero_of_le short, List.drop_zero]
  unfold printHex numeral
  rw [List.foldl_map]
  have read := @numeral_padded 16 (fun char => hex2ascii char.toUpper - 48) (by decide) digits 2
    (number % 2 ^ 32).toNat
  unfold numeral at read
  rw [read]
  omega

/-! ### Scanning -/

variable {mktime : Tm → Int}

/-- What has no underscore is passed over. -/
theorem scan_skip {front rest : Text} {info : FileInfo}
    (clear : ∀ char ∈ front, char ≠ '_' ∧ char ≠ '\n') :
    scan mktime false (front ++ rest) info = scan mktime false rest info := by
  induction front with
  | nil => rfl
  | cons char front inductionHypothesis =>
    obtain ⟨plain, line⟩ := clear char List.mem_cons_self
    rw [List.cons_append, scan, if_neg line, if_pos rfl, decide_eq_false plain]
    exact inductionHypothesis fun other member => clear other (List.mem_cons_of_mem _ member)

/-- A field and what follows it. -/
theorem takeWhile_field {text rest : Text} (letters : ∀ char ∈ text, char.isAlphanum = true)
    (ends : ∀ char ∈ rest.head?, char.isAlphanum = false) :
    (text ++ rest).takeWhile Char.isAlphanum = text ∧
      (text ++ rest).dropWhile Char.isAlphanum = rest := by
  have none : rest.takeWhile Char.isAlphanum = [] ∧ rest.dropWhile Char.isAlphanum = rest := by
    cases rest with
    | nil => exact ⟨rfl, rfl⟩
    | cons char rest =>
      have other : ¬char.isAlphanum = true := by
        rw [ends char rfl]
        exact Bool.false_ne_true
      exact ⟨List.takeWhile_cons_of_neg other, List.dropWhile_cons_of_neg other⟩
  rw [List.takeWhile_append_of_pos letters, List.dropWhile_append_of_pos letters, none.1, none.2,
    List.append_nil]
  exact ⟨rfl, rfl⟩

/-- A field is read, and the reader goes on behind it. -/
theorem scan_field {text rest : Text} {info : FileInfo}
    (nonempty : text ≠ []) (letters : ∀ char ∈ text, char.isAlphanum = true)
    (ends : ∀ char ∈ rest.head?, char.isAlphanum = false)
    (short : (text ++ rest).length ≤ 100) :
    scan mktime false ('_' :: (text ++ rest)) info =
      match readField mktime (text ++ rest) info with
      | none => none
      | some next => scan mktime false rest next := by
  obtain ⟨letter, others, rfl⟩ := List.exists_cons_of_ne_nil nonempty
  have line : letter ≠ '\n' := ne_of_isAlphanum (letters letter List.mem_cons_self) (by decide)
  have parts := takeWhile_field letters ends
  rw [List.cons_append] at parts short ⊢
  rw [scan, if_neg (by decide), if_pos rfl, decide_eq_true rfl, scan, if_neg line,
    if_neg Bool.noConfusion, if_neg (Nat.not_lt.mpr short), parts.2]

/-! ### The fields one by one -/

section Fields

variable {info : FileInfo} {tm : Tm} {text rest : Text}

theorem readField_channel (letters : ∀ char ∈ text, char.isAlphanum = true)
    (ends : ∀ char ∈ rest.head?, char.isAlphanum = false) :
    readField mktime ('C' :: text ++ rest) info = some { info with channel := atoi text } := by
  have parts := takeWhile_field (List.forall_mem_cons.mpr ⟨(by decide : 'C'.isAlphanum = true),
    letters⟩) ends
  unfold readField
  rw [parts.1]
  rfl

theorem readField_len (letters : ∀ char ∈ text, char.isAlphanum = true)
    (ends : ∀ char ∈ rest.head?, char.isAlphanum = false) :
    readField mktime ('L' :: text ++ rest) info = some { info with len := atoi text } := by
  have parts := takeWhile_field (List.forall_mem_cons.mpr ⟨(by decide : 'L'.isAlphanum = true),
    letters⟩) ends
  unfold readField
  rw [parts.1]
  rfl

theorem readField_trig (letters : ∀ char ∈ text, char.isAlphanum = true)
    (ends : ∀ char ∈ rest.head?, char.isAlphanum = false) :
    readField mktime ('T' :: text ++ rest) info = some { info with trig := readTrig text } := by
  have parts := takeWhile_field (List.forall_mem_cons.mpr ⟨(by decide : 'T'.isAlphanum = true),
    letters⟩) ends
  unfold readField
  rw [parts.1]
  rfl

theorem readField_stime (letters : ∀ char ∈ text, char.isAlphanum = true)
    (ends : ∀ char ∈ rest.head?, char.isAlphanum = false) (long : 14 ≤ text.length) :
    readField mktime ('D' :: text ++ rest) info =
      some { info with stime := mktime (readStamp (text ++ Char.ofNat 0 :: rest.tail)) } := by
  have parts := takeWhile_field (List.forall_mem_cons.mpr ⟨(by decide : 'D'.isAlphanum = true),
    letters⟩) ends
  have enough : ¬(text ++ Char.ofNat 0 :: rest.tail).length < 14 := by
    rw [List.length_append]
    omega
  unfold readField
  rw [parts.1, parts.2]
  simp only
  rw [if_neg (by decide), if_pos (by decide), if_neg enough]

/-- A printed number is read where it was written, and what comes behind it is left. -/
theorem read_printed {memory after : Text} {width start next : Nat} {number : Int}
    (nonneg : 0 ≤ number) (wide : 0 < width) (fits : number < 10 ^ width)
    (printed : memory.drop start = printDecimal width number ++ after)
    (behind : next = start + width) :
    atoi ((memory.drop start).take width) = number ∧ memory.drop next = after := by
  have length := printDecimal_length nonneg wide fits
  constructor
  · rw [printed, List.take_left' length]
    exact atoi_printDecimal width nonneg
  · rw [behind, ← List.drop_drop, printed, List.drop_left' length]

/-- The numbers of a time have the width of their fields. -/
theorem stamp_length (proper : tm.Proper) (year : 1000 ≤ 1900 + tm.year ∧ 1900 + tm.year ≤ 9999) :
    (stamp tm).length = 14 := by
  have mon := proper.mon
  have mday := proper.mday
  have hour := proper.hour
  have min := proper.min
  have sec := proper.sec
  unfold stamp
  simp only [List.length_append]
  rw [printDecimal_length (by omega) (by decide) (by omega),
    printDecimal_length (by omega) (by decide) (by omega),
    printDecimal_length (by omega) (by decide) (by omega),
    printDecimal_length (by omega) (by decide) (by omega),
    printDecimal_length (by omega) (by decide) (by omega),
    printDecimal_length (by omega) (by decide) (by omega)]

theorem isAlphanum_of_mem_stamp (proper : tm.Proper) (year : 1000 ≤ 1900 + tm.year) :
    ∀ char ∈ stamp tm, char.isAlphanum = true := by
  have mon := proper.mon
  have mday := proper.mday
  have hour := proper.hour
  have min := proper.min
  have sec := proper.sec
  intro char member
  unfold stamp at member
  simp only [List.mem_append] at member
  rcases member with ((((inYear | inMon) | inMday) | inHour) | inMin) | inSec
  · exact isAlphanum_of_mem_printDecimal (by omega) inYear
  · exact isAlphanum_of_mem_printDecimal (by omega) inMon
  · exact isAlphanum_of_mem_printDecimal (by omega) inMday
  · exact isAlphanum_of_mem_printDecimal (by omega) inHour
  · exact isAlphanum_of_mem_printDecimal (by omega) inMin
  · exact isAlphanum_of_mem_printDecimal (by omega) inSec

/-- A time is read as it was written. -/
theorem readStamp_stamp (proper : tm.Proper)
    (year : 1000 ≤ 1900 + tm.year ∧ 1900 + tm.year ≤ 9999) :
    readStamp (stamp tm ++ rest) = tm := by
  have mon := proper.mon
  have mday := proper.mday
  have hour := proper.hour
  have min := proper.min
  have sec := proper.sec
  have whole : (stamp tm ++ rest).drop 0 = printDecimal 4 (1900 + tm.year) ++
      (printDecimal 2 (tm.mon + 1) ++ (printDecimal 2 tm.mday ++ (printDecimal 2 tm.hour ++
      (printDecimal 2 tm.min ++ (printDecimal 2 tm.sec ++ rest))))) := by
    simp only [stamp, List.append_assoc, List.drop_zero]
  -- The numbers are read one behind the other.
  obtain ⟨yearRead, afterYear⟩ := read_printed (by omega) (by decide) (by omega) whole rfl
  obtain ⟨monRead, afterMon⟩ := read_printed (by omega) (by decide) (by omega) afterYear rfl
  obtain ⟨mdayRead, afterMday⟩ := read_printed (by omega) (by decide) (by omega) afterMon rfl
  obtain ⟨hourRead, afterHour⟩ := read_printed (by omega) (by decide) (by omega) afterMday rfl
  obtain ⟨minRead, afterMin⟩ := read_printed (by omega) (by decide) (by omega) afterHour rfl
  obtain ⟨secRead, _⟩ := read_printed (by omega) (by decide) (by omega) afterMin rfl
  rw [List.drop_zero] at yearRead
  unfold readStamp
  rw [yearRead, monRead, mdayRead, hourRead, minRead, secRead, Int.add_comm 1900,
    Int.add_sub_cancel, Int.add_sub_cancel]

end Fields

/-! ### Whole names -/

section Names

variable {localtime : Int → Option Tm} {info old : FileInfo} {tm : Tm}

/-- A name with an extension. -/
def nameWith (info : FileInfo) (tm : Tm) (ext : Text) : Text :=
  folder info tm ++ fields info tm ++ marks info ++ ext

/-- The time of a name, with the ranges of its fields. -/
structure Dated (tm : Tm) : Prop where
  proper : tm.Proper
  year : 1000 ≤ 1900 + tm.year ∧ 1900 + tm.year ≤ 9999

/-- A character of a folder. -/
def Clear (char : Char) : Prop := char.isAlphanum = true ∨ char = '/'

theorem Clear.ne {char other : Char} (clear : Clear char) (mark : other.isAlphanum = false)
    (noSlash : '/' ≠ other) : char ≠ other := by
  rcases clear with letter | rfl
  · exact ne_of_isAlphanum letter mark
  · exact noSlash

theorem clear_printDecimal {width : Nat} {number : Int} (nonneg : 0 ≤ number) :
    ∀ char ∈ printDecimal width number, Clear char :=
  fun _ member => Or.inl (isAlphanum_of_mem_printDecimal nonneg member)

theorem folder_clear (nameable : Nameable localtime info) (dated : Dated tm) :
    ∀ char ∈ folder info tm, Clear char := by
  have year := dated.year
  have mon := dated.proper.mon
  have mday := dated.proper.mday
  have hour := dated.proper.hour
  have slash : Clear '/' := Or.inr rfl
  have rooted : ∀ char ∈ info.partition, Clear char := by
    obtain ⟨letter, digit, isLetter, isDigit, partition⟩ := nameable.partition
    have named : ∀ char ∈ ['/', 'h', 'q', 'd', 'a', 't', 'a', '/', 's', 'd'], Clear char := by
      unfold Clear
      exact List.all_iff_forall_prop.mp (by decide)
    have pair : ∀ char ∈ [letter, digit], Clear char := by
      rw [List.forall_mem_cons, List.forall_mem_singleton]
      exact ⟨Or.inl (isAlphanum_of_isAlpha isLetter), Or.inl (isAlphanum_of_isDigit isDigit)⟩
    rw [partition]
    exact List.forall_mem_append.mpr ⟨named, pair⟩
  have last : ∀ char ∈ ['/', 'H', 'Q'], Clear char := by
    unfold Clear
    exact List.all_iff_forall_prop.mp (by decide)
  unfold folder
  simp only [List.forall_mem_append, List.forall_mem_cons]
  exact ⟨⟨⟨⟨⟨rooted, slash, clear_printDecimal (by omega)⟩, slash, clear_printDecimal (by omega)⟩,
    slash, clear_printDecimal (by omega)⟩, slash, clear_printDecimal (by omega)⟩,
    List.forall_mem_cons.mp last |>.imp_right fun rest => by
      simpa only [List.forall_mem_cons] using rest⟩

theorem folder_length (nameable : Nameable localtime info) (dated : Dated tm) :
    (folder info tm).length = 29 := by
  have year := dated.year
  have mon := dated.proper.mon
  have mday := dated.proper.mday
  have hour := dated.proper.hour
  have partition : info.partition.length = 12 := by
    obtain ⟨letter, digit, _, _, partition⟩ := nameable.partition
    rw [partition]
    rfl
  unfold folder
  simp only [List.length_append, List.length_cons, List.length_nil]
  rw [partition, printDecimal_length (by omega) (by decide) (by omega),
    printDecimal_length (by omega) (by decide) (by omega),
    printDecimal_length (by omega) (by decide) (by omega),
    printDecimal_length (by omega) (by decide) (by omega)]

theorem fields_length_le (nameable : Nameable localtime info) (dated : Dated tm) :
    (fields info tm).length ≤ 38 := by
  have channel := nameable.channel
  have len := nameable.len
  have trig := nameable.trig
  have channelWide : (printDecimal 2 info.channel).length = 2 :=
    printDecimal_length channel.1 (by decide) (by omega)
  have lenWide : (printDecimal 2 info.len).length ≤ 10 := by
    have fits : info.len.toNat < 10 ^ 10 := by omega
    unfold printDecimal
    rw [if_pos len.1]
    exact padded_length_le (by decide) (by decide) fits
  have trigWide := printHex_length_le trig.1 trig.2
  unfold fields
  simp only [List.length_append, List.length_cons]
  rw [channelWide, stamp_length dated.proper dated.year]
  omega

theorem fields_split (info : FileInfo) (tm : Tm) (rest : Text) :
    fields info tm ++ rest = '_' :: (('C' :: printDecimal 2 info.channel) ++
      ('_' :: (('D' :: stamp tm) ++ ('_' :: (('L' :: printDecimal 2 info.len) ++
        ('_' :: (('T' :: printHex 2 info.trig) ++ rest))))))) := by
  simp only [fields, List.cons_append, List.append_assoc]

/-- The fields are read one after the other. -/
theorem scan_fields {rest : Text} (nameable : Nameable localtime info) (dated : Dated tm)
    (ends : ∀ char ∈ rest.head?, char.isAlphanum = false)
    (short : (fields info tm ++ rest).length ≤ 100) :
    scan mktime false (fields info tm ++ rest) old = scan mktime false rest
      { old with
        channel := info.channel
        stime := mktime tm
        len := info.len
        trig := info.trig } := by
  have channel := nameable.channel
  have len := nameable.len
  have trig := nameable.trig
  have letters : ∀ letter : Char, letter.isAlphanum = true → ∀ text : Text,
      (∀ char ∈ text, char.isAlphanum = true) →
        ∀ char ∈ letter :: text, char.isAlphanum = true :=
    fun letter isLetter text all => List.forall_mem_cons.mpr ⟨isLetter, all⟩
  have underscore : ∀ text : Text, ∀ char ∈ ('_' :: text).head?, char.isAlphanum = false := by
    intro text char member
    cases member
    decide
  have inChannel : ∀ char ∈ printDecimal 2 info.channel, char.isAlphanum = true :=
    fun _ member => isAlphanum_of_mem_printDecimal channel.1 member
  have inStamp := isAlphanum_of_mem_stamp dated.proper dated.year.1
  have inLen : ∀ char ∈ printDecimal 2 info.len, char.isAlphanum = true :=
    fun _ member => isAlphanum_of_mem_printDecimal len.1 member
  have inTrig : ∀ char ∈ printHex 2 info.trig, char.isAlphanum = true :=
    fun _ member => isAlphanum_of_mem_printHex member
  have long : 14 ≤ (stamp tm).length := (stamp_length dated.proper dated.year).ge
  rw [fields_split] at short ⊢
  simp only [List.length_append, List.length_cons] at short
  rw [scan_field (List.cons_ne_nil _ _) (letters 'C' (by decide) _ inChannel) (underscore _)
      (by simp only [List.length_append, List.length_cons]; omega),
    readField_channel inChannel (underscore _)]
  simp only
  rw [scan_field (List.cons_ne_nil _ _) (letters 'D' (by decide) _ inStamp) (underscore _)
      (by simp only [List.length_append, List.length_cons]; omega),
    readField_stime inStamp (underscore _) long]
  simp only
  rw [scan_field (List.cons_ne_nil _ _) (letters 'L' (by decide) _ inLen) (underscore _)
      (by simp only [List.length_append, List.length_cons]; omega),
    readField_len inLen (underscore _)]
  simp only
  rw [scan_field (List.cons_ne_nil _ _) (letters 'T' (by decide) _ inTrig) ends
      (by simp only [List.length_append, List.length_cons]; omega),
    readField_trig inTrig ends]
  simp only
  rw [atoi_printDecimal 2 channel.1, atoi_printDecimal 2 len.1,
    readStamp_stamp dated.proper dated.year, readTrig_printHex trig.1 trig.2]

/-- The partition is read from the front of a name. -/
theorem readPartition_name {rest partition : Text} (nameable : Nameable localtime info) :
    readPartition (info.partition ++ rest) partition = some info.partition := by
  obtain ⟨letter, digit, _, _, named⟩ := nameable.partition
  have clear : ∀ char ∈ ['/', 'h', 'q', 'd', 'a', 't', 'a', '/'], char ≠ 's' :=
    List.all_iff_forall_prop.mp (by decide)
  have found : strstr ['s', 'd'] (info.partition ++ rest) =
      some ('s' :: 'd' :: letter :: digit :: rest) := by
    rw [named]
    have skipped := @strstr_skip_first Char ['d'] _ 's'
      ['/', 'h', 'q', 'd', 'a', 't', 'a', '/'] ('s' :: 'd' :: letter :: digit :: rest) clear
    exact skipped.trans (strstr_here ⟨letter :: digit :: rest, rfl⟩)
  have length : info.partition.length = 12 := by
    rw [named]
    rfl
  have total : (info.partition ++ rest).length = 12 + rest.length := by
    rw [List.length_append, length]
  have count : (info.partition ++ rest).length -
      ('s' :: 'd' :: letter :: digit :: rest).length + 4 = 12 := by
    rw [total]
    simp only [List.length_cons]
    omega
  unfold readPartition
  rw [found]
  simp only
  rw [count, if_neg (by decide), if_neg (by omega), List.take_left' length,
    List.take_left' length]

/-- The folder and the fields have no marks. -/
theorem notMem_fields {mark : Char} (nameable : Nameable localtime info) (dated : Dated tm)
    (foreign : mark.isAlphanum = false) (noSlash : '/' ≠ mark) (noUnderscore : '_' ≠ mark) :
    mark ∉ folder info tm ++ fields info tm := by
  have inFolder : mark ∉ folder info tm := fun member =>
    (folder_clear nameable dated mark member).ne foreign noSlash rfl
  have letter : ∀ char : Char, char.isAlphanum = true → mark ≠ char :=
    fun char isLetter => (ne_of_isAlphanum isLetter foreign).symm
  have inChannel : mark ∉ printDecimal 2 info.channel := fun member =>
    letter mark (isAlphanum_of_mem_printDecimal nameable.channel.1 member) rfl
  have inStamp : mark ∉ stamp tm := fun member =>
    letter mark (isAlphanum_of_mem_stamp dated.proper dated.year.1 mark member) rfl
  have inLen : mark ∉ printDecimal 2 info.len := fun member =>
    letter mark (isAlphanum_of_mem_printDecimal nameable.len.1 member) rfl
  have inTrig : mark ∉ printHex 2 info.trig := fun member =>
    letter mark (isAlphanum_of_mem_printHex member) rfl
  simp only [fields, List.mem_append, List.mem_cons, not_or]
  exact ⟨inFolder, ⟨⟨⟨noUnderscore.symm, letter 'C' (by decide), inChannel⟩, noUnderscore.symm,
    letter 'D' (by decide), inStamp⟩, noUnderscore.symm, letter 'L' (by decide), inLen⟩,
    noUnderscore.symm, letter 'T' (by decide), inTrig⟩

/-- Which marks a name has. -/
theorem mem_nameWith {ext : Text} {mark : Char} (nameable : Nameable localtime info)
    (dated : Dated tm) (foreign : mark.isAlphanum = false) (noSlash : '/' ≠ mark)
    (noUnderscore : '_' ≠ mark) (noExt : mark ∉ ext) :
    mark ∈ nameWith info tm ext ↔ mark ∈ marks info := by
  have front := notMem_fields nameable dated foreign noSlash noUnderscore
  unfold nameWith
  rw [List.mem_append, List.mem_append, or_iff_right front, or_iff_left noExt]

theorem mem_marks {char : Char} (mark : char ∈ marks info) :
    char = remoteTrigFlag ∨ char = lockFileFlag := by
  unfold marks at mark
  split at mark
  · simpa only [List.mem_cons, List.not_mem_nil, or_false] using mark
  · split at mark
    · exact Or.inr (List.mem_singleton.mp mark)
    · cases mark

theorem marks_length_le (info : FileInfo) : (marks info).length ≤ 2 := by
  unfold marks
  split
  · exact Nat.le_refl _
  · split
    · exact Nat.le_succ _
    · exact Nat.zero_le _

theorem remoteTrigFlag_mem_marks (info : FileInfo) :
    remoteTrigFlag ∈ marks info ↔ info.remote = 1 := by
  unfold marks
  split
  · next remote => exact iff_of_true List.mem_cons_self remote
  · next absent =>
    refine iff_of_false ?_ absent
    split <;> decide

theorem lockFileFlag_mem_marks (info : FileInfo) :
    lockFileFlag ∈ marks info ↔ info.remote = 1 ∨ info.trig ≠ 0 := by
  unfold marks
  split
  · next remote => exact iff_of_true (by decide) (Or.inl remote)
  · next absent =>
    split
    · next alarm => exact iff_of_true (by decide) (Or.inr alarm)
    · next quiet => exact iff_of_false (by decide) (by rw [not_or]; exact ⟨absent, quiet⟩)

/-- An extension is found where it is, because there is no other dot. -/
theorem strstr_nameWith {ext pattern : Text} (nameable : Nameable localtime info)
    (dated : Dated tm) :
    strstr ('.' :: pattern) (nameWith info tm ext) = strstr ('.' :: pattern) ext := by
  have noDot : '.' ∉ nameWith info tm [] := by
    rw [mem_nameWith nameable dated (by decide) (by decide) (by decide) List.not_mem_nil]
    intro mark
    rcases mem_marks mark with same | same <;> cases same
  have split : nameWith info tm ext = nameWith info tm [] ++ ext := by
    simp only [nameWith, List.append_nil]
  rw [split]
  refine strstr_skip_first fun char member same => noDot ?_
  rw [← same]
  exact member

/-- The extension is replaced. -/
theorem recordingName_nameWith (nameable : Nameable localtime info) (dated : Dated tm) :
    recordingName (nameWith info tm imgFileExt) = nameWith info tm recordingFileExt := by
  have found : strstr imgFileExt (nameWith info tm imgFileExt) = some imgFileExt := by
    have skipped := @strstr_nameWith localtime info tm imgFileExt ['A', 'V', 'I'] nameable dated
    exact skipped.trans (strstr_here (List.prefix_refl imgFileExt))
  unfold recordingName
  rw [found]
  simp only
  unfold nameWith
  rw [List.length_append, Nat.add_sub_cancel, List.take_left]

/-- The two extensions, which a file has one after the other. -/
theorem mem_ext {ext : Text} (known : ext = imgFileExt ∨ ext = recordingFileExt) :
    ∀ char ∈ ext, char = '.' ∨ char.isAlphanum = true := by
  rcases known with rfl | rfl <;> exact List.all_iff_forall_prop.mp (by decide)

/-- Behind the fields there is neither another field nor the end of a line. -/
theorem rest_clear {ext : Text} (known : ext = imgFileExt ∨ ext = recordingFileExt) :
    ∀ char ∈ marks info ++ ext, char ≠ '_' ∧ char ≠ '\n' := by
  intro char member
  rcases List.mem_append.mp member with mark | letter
  · rcases mem_marks mark with rfl | rfl <;> decide
  · rcases mem_ext known char letter with rfl | letter
    · decide
    · exact ⟨ne_of_isAlphanum letter (by decide), ne_of_isAlphanum letter (by decide)⟩

/-- The last field ends where the fields end. -/
theorem rest_head {ext : Text} (known : ext = imgFileExt ∨ ext = recordingFileExt) :
    ∀ char ∈ (marks info ++ ext).head?, char.isAlphanum = false := by
  intro char first
  unfold marks at first
  split at first
  · cases first
    decide
  · split at first
    · cases first
      decide
    · rcases known with rfl | rfl <;> (cases first; decide)

/-- The extensions have none of the two marks. -/
theorem notMem_ext {ext : Text} {mark : Char} (known : ext = imgFileExt ∨ ext = recordingFileExt)
    (noDot : mark ≠ '.') (foreign : mark.isAlphanum = false) : mark ∉ ext := by
  intro member
  rcases mem_ext known mark member with dot | letter
  · exact noDot dot
  · rw [letter] at foreign
    cases foreign

theorem remote_nameWith {ext : Text} (nameable : Nameable localtime info) (dated : Dated tm)
    (known : ext = imgFileExt ∨ ext = recordingFileExt) :
    (if remoteTrigFlag ∈ nameWith info tm ext then (1 : Int) else 0) = info.remote := by
  have marked := (mem_nameWith nameable dated (by decide) (by decide) (by decide)
    (notMem_ext known (by decide) (by decide))).trans (remoteTrigFlag_mem_marks info)
  rcases nameable.remote with absent | remote
  · rw [if_neg (fun member => absurd (marked.mp member) (by rw [absent]; decide)), absent]
  · rw [if_pos (marked.mpr remote), remote]

theorem lock_nameWith {ext : Text} (nameable : Nameable localtime info) (dated : Dated tm)
    (known : ext = imgFileExt ∨ ext = recordingFileExt) :
    (if lockFileFlag ∈ nameWith info tm ext then (1 : Int) else 0) =
      if info.remote = 1 ∨ info.trig ≠ 0 then 1 else 0 := by
  have marked := (mem_nameWith nameable dated (by decide) (by decide) (by decide)
    (notMem_ext known (by decide) (by decide))).trans (lockFileFlag_mem_marks info)
  exact if_congr marked rfl rfl

/-- What is read of a name. -/
theorem filename2finfo_nameWith {ext : Text} (nameable : Nameable localtime info)
    (dated : Dated tm) (time : mktime tm = info.stime)
    (known : ext = imgFileExt ∨ ext = recordingFileExt) :
    filename2finfo mktime (nameWith info tm ext) old =
      some (0, readBack info old (if strstr recordingFileExt ext = none then 0 else 1)) := by
  have extLength : ext.length = 4 := by rcases known with rfl | rfl <;> rfl
  have marksLength := marks_length_le info
  have folderLength := folder_length nameable dated
  have fieldsLength := fields_length_le nameable dated
  have whole : nameWith info tm ext = folder info tm ++
      (fields info tm ++ (marks info ++ ext)) := by
    simp only [nameWith, List.append_assoc]
  have length : (nameWith info tm ext).length ≤ 100 := by
    rw [whole]
    simp only [List.length_append]
    omega
  have rooted : ∃ rest, nameWith info tm ext = info.partition ++ rest := by
    unfold nameWith folder
    simp only [List.append_assoc]
    exact ⟨_, rfl⟩
  have partition : readPartition (nameWith info tm ext) old.partition = some info.partition := by
    obtain ⟨rest, split⟩ := rooted
    rw [split]
    exact readPartition_name nameable
  have recording : strstr recordingFileExt (nameWith info tm ext) =
      strstr recordingFileExt ext := strstr_nameWith nameable dated
  have clear : ∀ char ∈ folder info tm, char ≠ '_' ∧ char ≠ '\n' := fun char member =>
    ⟨(folder_clear nameable dated char member).ne (by decide) (by decide),
      (folder_clear nameable dated char member).ne (by decide) (by decide)⟩
  have skipped := fun next => @scan_skip mktime (marks info ++ ext) [] next (rest_clear known)
  unfold filename2finfo
  rw [if_neg (Nat.not_lt.mpr length), partition]
  simp only
  rw [remote_nameWith nameable dated known, lock_nameWith nameable dated known, recording, whole,
    scan_skip clear, scan_fields nameable dated (rest_head known)
    (by simp only [List.length_append]; omega)]
  rw [List.append_nil] at skipped
  rw [skipped, scan, time]
  rfl

/-- What was put into a name is read back from it, while the file is being recorded and after. -/
theorem name_round_trip (calendar : Calendar localtime mktime)
    (nameable : Nameable localtime info) :
    ∃ name, finfo2filename localtime info = some name ∧ ∀ old,
      filename2finfo mktime name old = some (0, readBack info old 0) ∧
      filename2finfo mktime (recordingName name) old = some (0, readBack info old 1) := by
  obtain ⟨tm, found, year⟩ := nameable.year
  have dated : Dated tm := ⟨calendar.proper _ tm found, year⟩
  have time := calendar.inverts _ tm found
  refine ⟨nameWith info tm imgFileExt, ?_, fun old => ⟨?_, ?_⟩⟩
  · unfold finfo2filename
    rw [found]
    rfl
  · exact filename2finfo_nameWith nameable dated time (Or.inl rfl)
  · rw [recordingName_nameWith nameable dated]
    exact filename2finfo_nameWith nameable dated time (Or.inr rfl)

/-- The first day of the calendar. -/
def firstDay (time : Int) : Option Tm :=
  if 0 ≤ time ∧ time < 86400 then
    some ⟨70, 0, 1, time / 3600, time / 60 % 60, time % 60⟩
  else none

/-- A second of the first day of the calendar. -/
def secondOfDay (tm : Tm) : Int := tm.hour * 3600 + tm.min * 60 + tm.sec

theorem name_round_trip_alarm :
    ∃ name, finfo2filename firstDay ⟨3661, 3, 0, 120, 0x1A2, 1, 0, 0,
        ['/', 'h', 'q', 'd', 'a', 't', 'a', '/', 's', 'd', 'a', '1']⟩ = some name ∧ ∀ old,
      filename2finfo secondOfDay name old = some (0, readBack ⟨3661, 3, 0, 120, 0x1A2, 1, 0, 0,
        ['/', 'h', 'q', 'd', 'a', 't', 'a', '/', 's', 'd', 'a', '1']⟩ old 0) ∧
      filename2finfo secondOfDay (recordingName name) old =
        some (0, readBack ⟨3661, 3, 0, 120, 0x1A2, 1, 0, 0,
          ['/', 'h', 'q', 'd', 'a', 't', 'a', '/', 's', 'd', 'a', '1']⟩ old 1) := by
  refine name_round_trip ⟨?_, ?_⟩ ⟨⟨'a', '1', by decide, by decide, rfl⟩, by decide, by decide,
    by decide, by decide, ⟨⟨70, 0, 1, 1, 1, 1⟩, by decide, by decide⟩⟩
  · intro time tm found
    unfold firstDay at found
    split at found
    · cases found
      unfold secondOfDay
      simp only
      omega
    · cases found
  · intro time tm found
    unfold firstDay at found
    split at found
    · next inside =>
      cases found
      constructor <;> simp only <;> omega
    · cases found

end Names

end ExmOnvif.HdModule
