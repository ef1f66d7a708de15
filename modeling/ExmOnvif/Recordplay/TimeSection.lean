/-
This file models how the sections of time are found in which something was recorded, and proves what
they are.

The names of the files are taken from the indexes of all partitions, and another program sorts them
by the date and the length that are in them. Files that follow each other within three seconds are
in one section, for which a line is written with its beginning and its end.
-/

import ExmOnvif.FileIndex.Index
import ExmOnvif.Library.Compared
import ExmOnvif.Library.Spans
import ExmOnvif.Recordplay.PlaybackFile

namespace ExmOnvif.Recordplay

open Library HdModule FileIndex

/-! ### The names -/

/-- `queryindex_callback`, without the directory of the disks. -/
def queryindexCallback (files : Finset Text) (name : Text) : Option Text :=
  if name ∈ files then some (name.drop 7) else none

/-- `fileindex_query_index`. -/
def fileindexQueryIndex (index : Index) (ch start stop trigFlag : Int) : List Text :=
  (index.rows.filter fun row => decide (row.start ≤ stop ∧ row.stop ≥ start ∧ row.ing = 0 ∧
    (trigFlag ≠ -1 → row.trig = trigFlag) ∧ (ch ≠ -1 → row.ch = ch))).filterMap
      fun row => queryindexCallback index.files row.name

/-- `record_compare`, of lines in which the date is at 28 and the length at 44. -/
def recordCompare (key1 key2 : Text) : Int :=
  let num1 := atoi (key1.drop 44)
  let num2 := atoi (key2.drop 44)
  let ret := memcmp ((key1.drop 28).take 14) ((key2.drop 28).take 14)
  if ret < 0 then -1
  else if ret > 0 then 1
  else if num1 < num2 then -1
  else if num1 > num2 then 1
  else 0

/-- `record_sort`. -/
def recordSort (lines : List Text) : List Text :=
  lines.insertionSort fun key1 key2 => recordCompare key1 key2 ≤ 0

/-! ### The sections -/

section Calls

-- The C library's `mktime` and `gmtime`.
variable (mktime : Tm → Int) (gmtime : Int → Tm)

/-- A time, as it is written. -/
def timestring (tm : Tm) : Text :=
  printDecimal 4 (tm.year + 1900) ++ '-' :: printDecimal 2 (tm.mon + 1) ++
    '-' :: printDecimal 2 tm.mday ++ ' ' :: printDecimal 2 tm.hour ++
    ':' :: printDecimal 2 tm.min ++ ':' :: printDecimal 2 tm.sec

/-- A line for a section. -/
def sectionLine (span : Span) : Text :=
  timestring (gmtime span.1) ++ '~' :: timestring (gmtime span.2) ++ ['\n']

/-- What the loop of `query_record_timesection` keeps, with what it has written. -/
structure Timesections where
  starttime : Int
  preendtime : Int
  fileinfo : FileInfo
  fwrite : Text

/-- One line of the sorted names. -/
def timesectionTurn (now : Timesections) (filename : Text) : Option Timesections := do
  let (_, fileinfo) ← filename2finfo mktime filename now.fileinfo
  let now : Timesections := { now with fileinfo := fileinfo }
  let now : Timesections := if now.starttime = 0 then
      { now with starttime := fileinfo.stime, preendtime := fileinfo.stime }
    else now
  let now : Timesections := if |now.preendtime - fileinfo.stime| > 3 then
      { now with
        fwrite := now.fwrite ++ sectionLine gmtime (now.starttime, now.preendtime)
        starttime := fileinfo.stime }
    else now
  return { now with preendtime := fileinfo.stime + fileinfo.len }

/-- `query_record_timesection`, where the files can be written: the text of the sections. All
channels are asked for, whichever one is meant. -/
def queryRecordTimesection (indexes : List Index) (start stop : Int) (stack : FileInfo) :
    Option (Except PlaybackErr Text) :=
  let names := indexes.flatMap fun index => fileindexQueryIndex index (-1) start stop (-1)
  if names = [] then some (.error .noFile)
  else do
    let lines := recordSort (names.map (· ++ ['\n']))
    let now ← lines.foldlM (timesectionTurn mktime gmtime) ⟨0, 0, stack, []⟩
    return .ok (now.fwrite ++ sectionLine gmtime (now.starttime, now.preendtime))

end Calls

/-! ### Files -/

/-- A recorded file, with its date and the marks it has by now. -/
structure File where
  info : FileInfo
  tm : Tm
  mark : Text
deriving DecidableEq

namespace File

variable (file : File)

/-- The name of a file. -/
def name : Text := folder file.info file.tm ++ fields file.info file.tm ++ file.mark ++ imgFileExt

/-- The line with its name, as it is sorted and read. -/
def line : Text := file.name.drop 7 ++ ['\n']

/-- The span in which it was recorded. -/
def span : Span := (file.info.stime, file.info.stime + file.info.len)

/-- A file was recorded in a period. -/
def Within (start stop : Int) : Prop := file.info.stime ≤ stop ∧
    file.info.stime + file.info.len ≥ start

instance (start stop : Int) : Decidable (file.Within start stop) :=
    inferInstanceAs (Decidable (_ ∧ _))

/-- A file that begins before another one, or is shorter. -/
def Sooner (first second : File) : Prop :=
  first.info.stime < second.info.stime ∨
    first.info.stime = second.info.stime ∧ first.info.len ≤ second.info.len

instance : DecidableRel Sooner := fun _ _ => inferInstanceAs (Decidable (_ ∨ _))

/-- A file that was named when it was recorded, and may have been locked and unlocked since. -/
structure Named (localtime : Int → Option Tm) : Prop where
  nameable : Nameable localtime file.info
  date : localtime file.info.stime = some file.tm
  dated : Dated file.tm
  mark : file.mark ∈ [[], [remoteTrigFlag], [lockFileFlag], [remoteTrigFlag, lockFileFlag]]
  begun : 0 < file.info.stime

end File

/-- The number that the digits of a date make. -/
def dateNumber (tm : Tm) : Int :=
  (((((1900 + tm.year) * 100 + (tm.mon + 1)) * 100 + tm.mday) * 100 + tm.hour) * 100 + tm.min) *
    100 + tm.sec

/-- What is asked of the times besides: they are in the order of their dates, as they are where the
clock is never set back for the summer. -/
def Ordered (localtime : Int → Option Tm) : Prop :=
  ∀ first second tm tm', localtime first = some tm → localtime second = some tm' →
    (first < second ↔ dateNumber tm < dateNumber tm')

section Names

variable {localtime : Int → Option Tm} {mktime : Tm → Int} {gmtime : Int → Tm} {file : File}
  {old stack : FileInfo}

theorem numeral_printDecimal (width : Nat) {number : Int} (nonneg : 0 ≤ number) :
    numeral 10 decimalDigit (printDecimal width number) = number := by
  rw [← atoi_of_digits fun _ member => isDigit_of_mem_printDecimal nonneg member,
    atoi_printDecimal width nonneg]

/-- The number of a time behind another number. -/
theorem numeral_field (front : Text) {number : Int} (nonneg : 0 ≤ number) (small : number < 100) :
    numeral 10 decimalDigit (front ++ printDecimal 2 number) =
      numeral 10 decimalDigit front * 100 + number := by
  rw [numeral_join, numeral_printDecimal 2 nonneg, printDecimal_length nonneg (by decide) small]
  rfl

/-- The digits of a date, and their number. -/
theorem digits_stamp {tm : Tm} (dated : Dated tm) :
    (∀ char ∈ stamp tm, char.isDigit = true) ∧
        numeral 10 decimalDigit (stamp tm) = dateNumber tm := by
  have year := dated.year
  have mon := dated.proper.mon
  have mday := dated.proper.mday
  have hour := dated.proper.hour
  have min := dated.proper.min
  have sec := dated.proper.sec
  constructor
  · intro char member
    unfold stamp at member
    simp only [List.mem_append] at member
    rcases member with ((((inYear | inMon) | inMday) | inHour) | inMin) | inSec
    · exact isDigit_of_mem_printDecimal (by omega) inYear
    · exact isDigit_of_mem_printDecimal (by omega) inMon
    · exact isDigit_of_mem_printDecimal (by omega) inMday
    · exact isDigit_of_mem_printDecimal (by omega) inHour
    · exact isDigit_of_mem_printDecimal (by omega) inMin
    · exact isDigit_of_mem_printDecimal (by omega) inSec
  · rw [stamp, numeral_field _ (by omega) (by omega), numeral_field _ (by omega) (by omega),
      numeral_field _ (by omega) (by omega), numeral_field _ (by omega) (by omega),
      numeral_field _ (by omega) (by omega), numeral_printDecimal 4 (by omega)]
    rfl

/-! ### The order of the lines -/

/-- What is behind the fields of a name in a line. -/
def File.tail (file : File) : Text := file.mark ++ imgFileExt ++ ['\n']

theorem File.line_eq (named : file.Named localtime) :
    file.line = (folder file.info file.tm).drop 7 ++ (fields file.info file.tm ++ file.tail) := by
  have length := folder_length named.nameable named.dated
  have short : 7 ≤ (folder file.info file.tm).length := by omega
  rw [File.line, File.name, List.append_assoc, List.append_assoc,
    List.drop_append_of_le_length short, File.tail]
  simp only [List.append_assoc]

/-- The places of the date and the length in a line. -/
theorem File.line_fields (named : file.Named localtime) :
    ∃ rest, (file.line.drop 28).take 14 = stamp file.tm ∧
      file.line.drop 44 = printDecimal 2 file.info.len ++ '_' :: rest := by
  have front : ((folder file.info file.tm).drop 7 ++
    ('_' :: ('C' :: printDecimal 2 file.info.channel) ++
      ['_', 'D'])).length = 28 := by
    have channel := named.nameable.channel
    rw [List.length_append, List.length_drop, folder_length named.nameable named.dated,
      List.length_append, List.length_cons, List.length_cons,
      printDecimal_length channel.1 (by decide) (by omega)]
    rfl
  have long := stamp_length named.dated.proper named.dated.year
  have split : file.line = ((folder file.info file.tm).drop 7 ++
      ('_' :: ('C' :: printDecimal 2 file.info.channel) ++ ['_', 'D'])) ++ (stamp file.tm ++
        ('_' :: 'L' :: (printDecimal 2 file.info.len ++
          '_' :: ('T' :: printHex 2 file.info.trig ++ file.tail)))) := by
    rw [File.line_eq named, fields_split]
    simp only [List.append_assoc, List.cons_append, List.nil_append]
  refine ⟨'T' :: printHex 2 file.info.trig ++ file.tail, ?_, ?_⟩
  · rw [split, List.drop_left' front, List.take_left' long]
  · have later : file.line.drop 44 = ((file.line.drop 28).drop 14).drop 2 := by
      rw [List.drop_drop, List.drop_drop]
    rw [later, split, List.drop_left' front, List.drop_left' long]
    rfl

/-- The length is read up to the next field. -/
theorem atoi_len {len : Int} (nonneg : 0 ≤ len) (rest : Text) :
    atoi (printDecimal 2 len ++ '_' :: rest) = len :=
  atoi_printDecimal_append 2 nonneg (by decide) fun char member => by
    cases member
    decide

/-- Lines are compared as their files are. -/
theorem File.recordCompare_iff {other : File} (ordered : Ordered localtime)
    (named : file.Named localtime) (named' : other.Named localtime) :
    recordCompare file.line other.line ≤ 0 ↔ file.Sooner other := by
  obtain ⟨rest, date, len⟩ := File.line_fields named
  obtain ⟨rest', date', len'⟩ := File.line_fields named'
  obtain ⟨digits, number⟩ := digits_stamp named.dated
  obtain ⟨digits', number'⟩ := digits_stamp named'.dated
  have same : (stamp file.tm).length = (stamp other.tm).length := by
    rw [stamp_length named.dated.proper named.dated.year,
      stamp_length named'.dated.proper named'.dated.year]
  have before := ordered _ _ _ _ named.date named'.date
  have behind := ordered _ _ _ _ named'.date named.date
  simp only [recordCompare, date, date', len, len', atoi_len named.nameable.len.1,
    atoi_len named'.nameable.len.1, memcmp_digits same digits digits', number, number',
    ← before, ← behind, File.Sooner]
  split <;> split <;> omega

/-! ### What is read of a name -/

/-- The marks are neither part of a field nor do they end a line. -/
theorem File.Named.mark_clear (named : file.Named localtime) :
    ∀ char ∈ file.mark ++ imgFileExt, char ≠ '_' ∧ char ≠ '\n' := by
  have all : ∀ mark ∈ [[], [remoteTrigFlag], [lockFileFlag], [remoteTrigFlag, lockFileFlag]],
      (mark ++ imgFileExt).all fun char => decide (char ≠ '_' ∧ char ≠ '\n') := by decide
  exact fun char member =>
    of_decide_eq_true (List.all_eq_true.mp (all file.mark named.mark) char member)

theorem File.Named.mark_head (named : file.Named localtime) (rest : Text) :
    ∀ char ∈ (file.mark ++ imgFileExt ++ rest).head?, char.isAlphanum = false := by
  have mark := named.mark
  simp only [List.mem_cons, List.not_mem_nil, or_false] at mark
  intro char first
  rcases mark with mark | mark | mark | mark <;>
    (rw [mark] at first
     cases first
     decide)

theorem File.Named.mark_length (named : file.Named localtime) : file.mark.length ≤ 2 := by
  have all : ∀ mark ∈ [[], [remoteTrigFlag], [lockFileFlag], [remoteTrigFlag, lockFileFlag]],
      mark.length ≤ 2 := by decide
  exact all file.mark named.mark

/-- The fields are read behind something without a field, and behind them nothing is. -/
theorem File.Named.scan_name (named : file.Named localtime) (calendar : Calendar localtime mktime)
    {front rest : Text} (clear : ∀ char ∈ front, char ≠ '_' ∧ char ≠ '\n')
    (ends : rest = [] ∨ rest = ['\n']) :
    HdModule.scan mktime false
      (front ++ (fields file.info file.tm ++ (file.mark ++ imgFileExt ++ rest))) old =
      some (0, { old with
        channel := file.info.channel
        stime := file.info.stime
        len := file.info.len
        trig := file.info.trig }) := by
  have fieldsLength := fields_length_le named.nameable named.dated
  have markLength := named.mark_length
  have restLength : rest.length ≤ 1 := by rcases ends with rfl | rfl <;> decide
  have extLength : imgFileExt.length = 4 := rfl
  have short : (fields file.info file.tm ++ (file.mark ++ imgFileExt ++ rest)).length ≤ 100 := by
    simp only [List.length_append]
    omega
  rw [scan_skip clear, scan_fields named.nameable named.dated (named.mark_head rest) short,
    scan_skip named.mark_clear, calendar.inverts _ _ named.date]
  rcases ends with rfl | rfl <;> rw [HdModule.scan]
  rw [if_pos rfl]

theorem File.Named.folder_clear (named : file.Named localtime) :
    ∀ char ∈ folder file.info file.tm, char ≠ '_' ∧ char ≠ '\n' := fun char member =>
  have clear := HdModule.folder_clear named.nameable named.dated char member
  ⟨clear.ne (by decide) (by decide), clear.ne (by decide) (by decide)⟩

/-- The parts of a line, which is short, and which has the partition at its front. -/
theorem File.Named.line_short (named : file.Named localtime) :
    file.name.length ≤ 73 ∧ file.line.length ≤ 67 ∧
      ∃ letter digit rest, file.line = '/' :: 's' :: 'd' :: letter :: digit :: rest := by
  have fieldsLength := fields_length_le named.nameable named.dated
  have folderLength := folder_length named.nameable named.dated
  have markLength := named.mark_length
  have extLength : imgFileExt.length = 4 := rfl
  refine ⟨?_, ?_, ?_⟩
  · rw [File.name]
    simp only [List.length_append]
    omega
  · rw [File.line, File.name]
    simp only [List.length_append, List.length_drop, List.length_singleton]
    omega
  · obtain ⟨letter, digit, _, _, partition⟩ := named.nameable.partition
    have parts : file.name = ['/', 'h', 'q', 'd', 'a', 't', 'a'] ++
      ('/' :: 's' :: 'd' :: letter :: digit ::
        (file.name.drop 12)) := by
      rw [File.name, folder, partition]
      rfl
    refine ⟨letter, digit, file.name.drop 12 ++ ['\n'], ?_⟩
    rw [File.line, parts]
    rfl

/-- What is read of a line of the sorted names. -/
theorem File.Named.read_line (named : file.Named localtime) (calendar : Calendar localtime mktime)
    (old : FileInfo) :
    ∃ info, filename2finfo mktime file.line old = some (0, info) ∧ info.stime = file.info.stime ∧
      info.len = file.info.len := by
  obtain ⟨_, short, letter, digit, rest, parts⟩ := named.line_short
  have partition : ∃ partition, readPartition file.line old.partition = some partition := by
    have found : strstr ['s', 'd'] file.line = some ('s' :: 'd' :: letter :: digit :: rest) := by
      rw [parts, strstr, if_neg fun front => absurd (List.cons_prefix_cons.mp front).1 (by decide)]
      exact strstr_here ⟨letter :: digit :: rest, rfl⟩
    have count : file.line.length - ('s' :: 'd' :: letter :: digit :: rest).length + 4 = 5 := by
      rw [parts]
      simp only [List.length_cons]
      omega
    unfold readPartition
    rw [found]
    simp only
    rw [count, if_neg (by decide)]
    split
    · exact ⟨_, rfl⟩
    · exact ⟨_, rfl⟩
  obtain ⟨partition, found⟩ := partition
  have clear : ∀ char ∈ (folder file.info file.tm).drop 7, char ≠ '_' ∧ char ≠ '\n' :=
    fun char member => named.folder_clear char (List.mem_of_mem_drop member)
  have read := fun old => @File.Named.scan_name localtime mktime file old named calendar
    ((folder file.info file.tm).drop 7) ['\n'] clear (Or.inr rfl)
  have long : ¬100 < file.line.length := by omega
  unfold filename2finfo
  rw [if_neg long, found]
  simp only
  rw [File.line_eq named, File.tail, read]
  exact ⟨_, rfl, rfl, rfl⟩

/-- The row for a file. -/
theorem File.Named.row (named : file.Named localtime) (calendar : Calendar localtime mktime)
    (stack : FileInfo) :
    ∃ lock, Index.rowOf mktime stack file.name = ⟨file.name, file.info.stime,
      file.info.stime + file.info.len, file.info.channel, file.info.trig, 0, lock⟩ := by
  obtain ⟨short, _⟩ := named.line_short
  have whole : file.name = folder file.info file.tm ++ (fields file.info file.tm ++
      (file.mark ++ imgFileExt ++ [])) := by
    simp only [File.name, List.append_assoc, List.append_nil]
  have rooted : ∃ rest, file.name = file.info.partition ++ rest := by
    rw [File.name, folder]
    simp only [List.append_assoc]
    exact ⟨_, rfl⟩
  have partition : readPartition file.name stack.partition = some file.info.partition := by
    obtain ⟨rest, split⟩ := rooted
    rw [split]
    exact readPartition_name named.nameable
  have noDot : ∀ char ∈ folder file.info file.tm ++ fields file.info file.tm ++ file.mark,
      char ≠ '.' := by
    intro char member dot
    rw [dot] at member
    rcases List.mem_append.mp member with front | mark
    · exact notMem_fields named.nameable named.dated (by decide) (by decide) (by decide) front
    · have all : ∀ mark ∈ [[], [remoteTrigFlag], [lockFileFlag], [remoteTrigFlag, lockFileFlag]],
          '.' ∉ mark := by decide
      exact all file.mark named.mark mark
  have finished : strstr recordingFileExt file.name = none := by
    rw [File.name]
    exact (strstr_skip_first noDot).trans (by decide)
  have long : ¬100 < file.name.length := by omega
  have read := fun old => @File.Named.scan_name localtime mktime file old named calendar
    (folder file.info file.tm) [] named.folder_clear (Or.inl rfl)
  rw [← whole] at read
  unfold Index.rowOf filename2finfo
  rw [if_neg long, partition]
  simp only
  rw [read, finished]
  exact ⟨_, rfl⟩

/-! ### The loop -/

/-- One line, when a section has begun. -/
theorem timesectionTurn_next (named : file.Named localtime) (calendar : Calendar localtime mktime)
    (now : Timesections) (begun : now.starttime ≠ 0) :
    ∃ next, timesectionTurn mktime gmtime now file.line = some next ∧
      next.preendtime = file.span.2 ∧
      if |now.preendtime - file.span.1| > 3 then
        next.starttime = file.span.1 ∧
          next.fwrite = now.fwrite ++ sectionLine gmtime (now.starttime, now.preendtime)
      else next.starttime = now.starttime ∧ next.fwrite = now.fwrite := by
  obtain ⟨info, read, stime, len⟩ := named.read_line calendar now.fileinfo
  unfold timesectionTurn
  rw [read]
  simp only [Option.bind_eq_bind, Option.bind_some, if_neg begun, Option.pure_def]
  refine ⟨_, rfl, ?_, ?_⟩
  · show info.stime + info.len = _
    rw [stime, len]
    rfl
  · show if |now.preendtime - file.info.stime| > 3 then _ else _
    rw [← stime]
    split
    · exact ⟨stime, rfl⟩
    · exact ⟨rfl, rfl⟩

/-- The first line begins a section. -/
theorem timesectionTurn_first (named : file.Named localtime) (calendar : Calendar localtime mktime)
    (stack : FileInfo) :
    ∃ next, timesectionTurn mktime gmtime ⟨0, 0, stack, []⟩ file.line = some next ∧
      next.starttime = file.span.1 ∧ next.preendtime = file.span.2 ∧ next.fwrite = [] := by
  obtain ⟨info, read, stime, len⟩ := named.read_line calendar stack
  have near : ¬|info.stime - info.stime| > 3 := by
    rw [Int.sub_self]
    decide
  unfold timesectionTurn
  rw [read]
  simp only [Option.bind_eq_bind, Option.bind_some, if_pos, if_neg near, Option.pure_def]
  exact ⟨_, rfl, stime, by rw [stime, len]; rfl, rfl⟩

/-- The lines that are written from some place on. -/
theorem timesection_run (calendar : Calendar localtime mktime) {files : List File}
    (named : ∀ file ∈ files, file.Named localtime) (now : Timesections)
    (begun : now.starttime ≠ 0) :
    ∃ after, (files.map File.line).foldlM (timesectionTurn mktime gmtime) now = some after ∧
      after.fwrite ++ sectionLine gmtime (after.starttime, after.preendtime) =
        now.fwrite ++ (Span.merge 3 (now.starttime, now.preendtime) (files.map File.span)).flatMap
          (sectionLine gmtime) := by
  induction files generalizing now with
  | nil => exact ⟨now, rfl, by rw [List.map_nil, Span.merge, List.flatMap_singleton]⟩
  | cons file files inductionHypothesis =>
    obtain ⟨first, others⟩ := List.forall_mem_cons.mp named
    obtain ⟨next, turn, preendtime, written⟩ :=
      @timesectionTurn_next _ _ gmtime _ first calendar now begun
    have start : file.span.1 ≠ 0 := first.begun.ne'
    rw [List.map_cons, List.map_cons, List.foldlM_cons, turn, Span.merge]
    split at written
    · next far =>
      obtain ⟨starttime, fwrite⟩ := written
      obtain ⟨after, run, text⟩ := inductionHypothesis others next (starttime ▸ start)
      refine ⟨after, run, ?_⟩
      rw [text, if_pos far, List.flatMap_cons, starttime, preendtime, fwrite, List.append_assoc]
    · next close =>
      obtain ⟨starttime, fwrite⟩ := written
      obtain ⟨after, run, text⟩ := inductionHypothesis others next (starttime ▸ begun)
      refine ⟨after, run, ?_⟩
      rw [text, if_neg close, starttime, preendtime, fwrite]

/-! ### The indexes -/

/-- The index of a partition with some files, of which some may be gone from the disk. -/
def indexOf (mktime : Tm → Int) (stack : FileInfo) (partition : List File × Finset Text) : Index :=
  ⟨partition.1.map fun file => Index.rowOf mktime stack file.name, partition.2⟩

/-- The files of a period that are there. -/
def chosen (partitions : List (List File × Finset Text)) (start stop : Int) : List File :=
  partitions.flatMap fun partition =>
    partition.1.filter fun file => decide (file.Within start stop ∧ file.name ∈ partition.2)

/-- What is asked of an index. -/
theorem query_indexOf (calendar : Calendar localtime mktime) {files : List File}
    {disk : Finset Text}
    (named : ∀ file ∈ files, file.Named localtime) (start stop : Int) (stack : FileInfo) :
    fileindexQueryIndex (indexOf mktime stack (files, disk)) (-1) start stop (-1) =
      (files.filter fun file => decide (file.Within start stop ∧ file.name ∈ disk)).map
        fun file => file.name.drop 7 := by
  induction files with
  | nil => rfl
  | cons file files inductionHypothesis =>
    obtain ⟨first, others⟩ := List.forall_mem_cons.mp named
    obtain ⟨lock, row⟩ := first.row calendar stack
    rw [List.filter_cons]
    simp only [fileindexQueryIndex, indexOf, List.map_cons, row,
      List.filter_cons] at inductionHypothesis ⊢
    by_cases within : file.Within start stop
    · have asked : file.info.stime ≤ stop ∧ file.info.stime + file.info.len ≥ start ∧ True ∧
          ((-1 : Int) ≠ -1 → file.info.trig = -1) ∧ ((-1 : Int) ≠ -1 → file.info.channel = -1) :=
        ⟨within.1, within.2, trivial, absurd rfl, absurd rfl⟩
      rw [if_pos (decide_eq_true asked), List.filterMap_cons, queryindexCallback]
      by_cases there : file.name ∈ disk
      · have kept : file.Within start stop ∧ file.name ∈ disk := ⟨within, there⟩
        rw [if_pos there, if_pos (decide_eq_true kept), List.map_cons, inductionHypothesis others]
      · have gone : ¬decide (file.Within start stop ∧ file.name ∈ disk) = true := by
          rw [decide_eq_true_iff]
          exact fun both => there both.2
        rw [if_neg there, if_neg gone, inductionHypothesis others]
    · have refused : ¬decide (file.info.stime ≤ stop ∧ file.info.stime + file.info.len ≥ start ∧
          True ∧ ((-1 : Int) ≠ -1 → file.info.trig = -1) ∧
          ((-1 : Int) ≠ -1 → file.info.channel = -1)) = true := by
        rw [decide_eq_true_iff]
        exact fun asked => within ⟨asked.1, asked.2.1⟩
      have outside : ¬decide (file.Within start stop ∧ file.name ∈ disk) = true := by
        rw [decide_eq_true_iff]
        exact fun both => within both.1
      rw [if_neg refused, if_neg outside, inductionHypothesis others]

/-- What is asked of all the indexes. -/
theorem query_all (calendar : Calendar localtime mktime)
    {partitions : List (List File × Finset Text)}
    (named : ∀ partition ∈ partitions, ∀ file ∈ partition.1, file.Named localtime)
    (start stop : Int)
    (stack : FileInfo) :
    ((partitions.map (indexOf mktime stack)).flatMap
        fun index => fileindexQueryIndex index (-1) start stop (-1)) =
      (chosen partitions start stop).map fun file => file.name.drop 7 := by
  rw [List.flatMap_map, chosen, List.map_flatMap]
  refine List.flatMap_congr fun partition member => ?_
  exact query_indexOf calendar (named partition member) start stop stack

/-- The lines are sorted as their files are. -/
theorem recordSort_lines (ordered : Ordered localtime) {files : List File}
    (named : ∀ file ∈ files, file.Named localtime) :
    recordSort (files.map File.line) = (files.insertionSort File.Sooner).map File.line := by
  have alike : ∀ file ∈ files, ∀ other ∈ files,
      File.Sooner file other ↔ recordCompare file.line other.line ≤ 0 :=
        fun file member other member' =>
    (File.recordCompare_iff ordered (named file member) (named other member')).symm
  unfold recordSort
  rw [List.map_insertionSort File.Sooner
    (fun key1 key2 => recordCompare key1 key2 ≤ 0) File.line files alike]

/-- Without a file of the period there is no answer. Else the answer has a line for each section,
and the sections are the spans of the files in the order of the dates, merged where they are near.
Where the files follow each other there are more than three seconds between two sections, and an
instant is in one of them just if something was recorded then, or if it is in a stretch of three
seconds at most between two files. -/
theorem timesection_answer (calendar : Calendar localtime mktime) (ordered : Ordered localtime)
    {partitions : List (List File × Finset Text)}
    (named : ∀ partition ∈ partitions, ∀ file ∈ partition.1, file.Named localtime)
    (start stop : Int)
    (stack : FileInfo) (gmtime : Int → Tm) :
    (chosen partitions start stop = [] →
      queryRecordTimesection mktime gmtime
        (partitions.map (indexOf mktime stack)) start stop stack =
        some (.error .noFile)) ∧
    ∀ file files, (chosen partitions start stop).insertionSort File.Sooner = file :: files →
      let sections := Span.merge 3 file.span (files.map File.span)
      queryRecordTimesection mktime gmtime
        (partitions.map (indexOf mktime stack)) start stop stack =
          some (.ok (sections.flatMap (sectionLine gmtime))) ∧
        ((file :: files).IsChain (fun first second => Span.Follows 3 first.span second.span) →
          sections.Pairwise (fun first second => first.2 + 3 < second.1) ∧
          ∀ instant, (∃ part ∈ sections, part.Has instant) ↔
            (∃ file ∈ chosen partitions start stop, file.span.Has instant) ∨
            ∃ stretch ∈ Span.stretches ((file :: files).map File.span),
                stretch.Bridges 3 instant) := by
  have all : ∀ file ∈ chosen partitions start stop, file.Named localtime := by
    intro file member
    obtain ⟨partition, known, kept⟩ := List.mem_flatMap.mp member
    exact named partition known file (List.mem_filter.mp kept).1
  have names := query_all calendar named start stop stack
  unfold queryRecordTimesection
  simp only [names]
  refine ⟨fun none => ?_, fun file files sorted => ?_⟩
  · rw [none]
    exact if_pos rfl
  · have perm := (List.perm_insertionSort File.Sooner (chosen partitions start stop))
    rw [sorted] at perm
    have some : (chosen partitions start stop).map (fun file => file.name.drop 7) ≠ [] := by
      intro none
      rw [List.map_eq_nil_iff.mp none] at sorted
      cases sorted
    have named' : ∀ other ∈ file :: files, other.Named localtime :=
      fun other member => all other (perm.mem_iff.mp member)
    obtain ⟨first, others⟩ := List.forall_mem_cons.mp named'
    have lines : ((chosen partitions start stop).map fun file => file.name.drop 7).map
      (· ++ ['\n']) =
        (chosen partitions start stop).map File.line := List.map_map
    obtain ⟨next, turn, starttime, preendtime, fwrite⟩ :=
      @timesectionTurn_first _ _ gmtime _ first calendar stack
    obtain ⟨after, run, text⟩ := @timesection_run _ _ gmtime calendar _ others next
      (starttime ▸ first.begun.ne')
    refine ⟨?_, fun chain => ?_⟩
    · rw [if_neg some, lines, recordSort_lines ordered all, sorted, List.map_cons,
        List.foldlM_cons, turn]
      simp only [Option.bind_eq_bind, Option.bind_some, run, Option.pure_def, text, fwrite,
        List.nil_append, starttime, preendtime]
    · have spans : (file.span :: files.map File.span).IsChain (Span.Follows 3) :=
        List.isChain_map_of_isChain File.span (fun _ _ follows => follows) chain
      have valid : ∀ part ∈ file.span :: files.map File.span, part.1 ≤ part.2 := by
        intro part member
        rw [← List.map_cons] at member
        obtain ⟨other, known, rfl⟩ := List.mem_map.mp member
        have nonneg := (named' other known).nameable.len.1
        exact Int.le_add_of_nonneg_right nonneg
      refine ⟨Span.merge_apart spans, fun instant => ?_⟩
      have members : (∃ other ∈ file :: files, other.span.Has instant) ↔
          ∃ other ∈ chosen partitions start stop, other.span.Has instant :=
        exists_congr fun other => and_congr_left fun _ => perm.mem_iff
      have parts : (∃ part ∈ (file :: files).map File.span, part.Has instant) ↔
          ∃ other ∈ file :: files, other.span.Has instant := by
        simp only [List.mem_map, exists_exists_and_eq_and]
      rw [Span.merge_has spans valid, ← List.map_cons, parts, members]

end Names

/-- A file of the first day, on one of the disks. -/
def dayFile (letter : Char) (stime len : Int) : File where
  info := ⟨stime, 1, 0, len, 0, 0, 0, 0,
    ['/', 'h', 'q', 'd', 'a', 't', 'a', '/', 's', 'd', letter, '1']⟩
  tm := ⟨70, 0, 1, stime / 3600, stime / 60 % 60, stime % 60⟩
  mark := []

theorem named_dayFile {letter : Char} {stime len : Int} (letters : letter.isAlpha = true)
    (day : 0 < stime ∧ stime < 86400) (short : 0 ≤ len ∧ len < 2 ^ 31) :
    (dayFile letter stime len).Named firstDay := by
  have date : firstDay stime = some (dayFile letter stime len).tm := if_pos ⟨day.1.le, day.2⟩
  have year : 1000 ≤ 1900 + (70 : Int) ∧ 1900 + (70 : Int) ≤ 9999 := by decide
  have channel : 0 ≤ (1 : Int) ∧ (1 : Int) ≤ 99 := by decide
  have trig : 0 ≤ (0 : Int) ∧ (0 : Int) ≤ 0xFFFF := by decide
  have mon : 0 ≤ (0 : Int) ∧ (0 : Int) ≤ 11 := by decide
  have mday : 1 ≤ (1 : Int) ∧ (1 : Int) ≤ 31 := by decide
  refine ⟨⟨⟨letter, '1', letters, by decide, rfl⟩, channel, short, trig, Or.inl rfl, _, date, year⟩,
    date, ⟨⟨mon, mday, ?_, ?_, ?_⟩, year⟩, List.mem_cons_self, day.1⟩
  · show 0 ≤ stime / 3600 ∧ stime / 3600 ≤ 23
    omega
  · show 0 ≤ stime / 60 % 60 ∧ stime / 60 % 60 ≤ 59
    omega
  · show 0 ≤ stime % 60 ∧ stime % 60 ≤ 60
    omega

theorem calendar_firstDay : Calendar firstDay secondOfDay := by
  refine ⟨fun time tm found => ?_, fun time tm found => ?_⟩
  · unfold firstDay at found
    split at found
    · cases found
      unfold secondOfDay
      simp only
      omega
    · cases found
  · unfold firstDay at found
    split at found
    · next inside =>
      cases found
      constructor <;> simp only <;> omega
    · cases found

theorem ordered_firstDay : Ordered firstDay := by
  intro first second tm tm' found found'
  unfold firstDay at found found'
  split at found
  · split at found'
    · cases found
      cases found'
      have hour : first / 3600 = first / 60 / 60 := by omega
      have hour' : second / 3600 = second / 60 / 60 := by omega
      simp only [dateNumber, hour, hour']
      omega
    · cases found'
  · cases found

/-- The time of an instant of the first day. -/
def firstDayTime (instant : Int) : Tm := (firstDay instant).getD ⟨70, 0, 1, 0, 0, 0⟩

theorem timesection_answer_day :
    let disk := [dayFile 'a' 4000 10, dayFile 'a' 3600 60]
    let other := [dayFile 'b' 3662 60, dayFile 'b' 9000 60]
    let partitions := [(disk, (disk.map File.name).toFinset),
      (other, (other.map File.name).toFinset)]
    queryRecordTimesection secondOfDay firstDayTime
        (partitions.map (indexOf secondOfDay FileIndex.Index.blankInfo)) 3650 5000
          FileIndex.Index.blankInfo =
      some (.ok (sectionLine firstDayTime (3600, 3722) ++ sectionLine firstDayTime (4000, 4010))) ∧
    ∀ instant, (∃ part ∈ [((3600, 3722) : Span), (4000, 4010)], Span.Has part instant) ↔
      (∃ file ∈ chosen partitions 3650 5000, file.span.Has instant) ∨
      ∃ stretch ∈ [((3660, 3662) : Span), (3722, 4000)], Span.Bridges 3 stretch instant := by
  intro disk other partitions
  have named : ∀ partition ∈ partitions, ∀ file ∈ partition.1, file.Named firstDay := by
    refine List.forall_mem_cons.mpr ⟨?_, List.forall_mem_singleton.mpr ?_⟩
    · exact List.forall_mem_cons.mpr ⟨named_dayFile (by decide) (by decide) (by decide),
        List.forall_mem_singleton.mpr (named_dayFile (by decide) (by decide) (by decide))⟩
    · exact List.forall_mem_cons.mpr ⟨named_dayFile (by decide) (by decide) (by decide),
        List.forall_mem_singleton.mpr (named_dayFile (by decide) (by decide) (by decide))⟩
  have sorted : (chosen partitions 3650 5000).insertionSort File.Sooner =
      dayFile 'a' 3600 60 :: [dayFile 'b' 3662 60, dayFile 'a' 4000 10] := by decide +kernel
  obtain ⟨answer, sections⟩ :=
    (timesection_answer calendar_firstDay ordered_firstDay named 3650 5000 FileIndex.Index.blankInfo
      firstDayTime).2 _ _ sorted
  have follows : [dayFile 'a' 3600 60, dayFile 'b' 3662 60, dayFile 'a' 4000 10].IsChain
      fun first second => Span.Follows 3 first.span second.span :=
    List.isChain_cons_cons.mpr ⟨⟨by decide, by decide, by decide⟩,
      List.isChain_cons_cons.mpr ⟨⟨by decide, by decide, by decide⟩, List.IsChain.singleton _⟩⟩
  have merged : Span.merge 3 (dayFile 'a' 3600 60).span
      ([dayFile 'b' 3662 60, dayFile 'a' 4000 10].map File.span) =
          [(3600, 3722), (4000, 4010)] := by
    decide
  rw [merged] at answer sections
  exact ⟨answer.trans (by rw [List.flatMap_cons, List.flatMap_singleton]), (sections follows).2⟩

end ExmOnvif.Recordplay
