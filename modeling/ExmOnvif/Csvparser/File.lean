/-
This file models the files of records, a record a line, and proves when an edit of
such a file is the edit of its list of lines.

The edits count the lines first and turn the number of a record, from the front or
from the back, into a command for one routine that writes the file anew. Two of its
commands copy the file byte by byte. The other two, and the removal of a record, copy
it line by line and print each line as a string, so that a line with a zero in it is
cut off there. Opening and locking the files succeeds, and the number of lines is an
integer of the machine.
-/

import Mathlib.Algebra.Ring.Int.Defs
import ExmOnvif.Library.Lines
import ExmOnvif.Csvparser.Record

namespace ExmOnvif.Csvparser

open Library

/-! ### The library -/

/-- The bytes a line buffer has room for besides the terminator. -/
def lineRoom : Nat := 1023

/-- What `fgets` gives of a file until its end. -/
def records (file : Str) : List Str := readLines lineRoom file.length file

/-- `csvfile_get_total_records`. -/
def getTotalRecords (file : Str) : Nat := (records file).length

/-- The commands of `csvfile_set_sub`. -/
inductive Cmd where
  | insertHead
  | insertTail
  | changeMid
  | insertMid
deriving DecidableEq, Repr

/-- The loops that copy the lines behind the first `i`, with a change at the line `recordNo`. -/
def copyLines (recordNo : Int) (change : Str → Str) : Int → List Str → Str
  | _, [] => []
  | i, buf :: bufs =>
    (if i + 1 = recordNo then change buf else printed buf) ++
      copyLines recordNo change (i + 1) bufs

/-- What the commands make of a file and the text of a record. -/
def written (file : Str) (recordNo : Int) (text : Str) : Cmd → Str
  | .insertHead => text ++ file
  | .insertTail => file ++ text
  | .insertMid => copyLines recordNo (fun buf => text ++ printed buf) 0 (records file)
  | .changeMid => copyLines recordNo (fun _ => text) 0 (records file)

/-- `csvfile_set_sub`: the file afterwards. -/
def setSub (cmd : Cmd) (file : Str) (recordNo : Int) (csv : Csv) : Option Str :=
  csv.getString.map fun text => written file recordNo text cmd

/-- The smallest integer. -/
def intMin : Int := -2 ^ 31

/-- The negative of an integer. That of the smallest one is not defined. -/
def negated (number : Int) : Option Int := if number = intMin then none else some (-number)

/-- `csvfile_set_record`. -/
def setRecord (file : Str) (recordNo : Int) (csv : Csv) : Option Str :=
  let lineNum := getTotalRecords file
  if lineNum = 0 ∨ recordNo = 0 then setSub .insertHead file 1 csv
  else if 0 < recordNo then
    if recordNo ≤ lineNum then setSub .changeMid file recordNo csv
    else setSub .insertTail file (lineNum + 1) csv
  else
    (negated recordNo).bind fun back =>
      if (lineNum : Int) < back then setSub .insertHead file 1 csv
      else setSub .changeMid file (lineNum + recordNo + 1) csv

/-- `csvfile_insert_record`. -/
def insertRecord (file : Str) (recordNo : Int) (csv : Csv) : Option Str :=
  if recordNo = 1 ∨ recordNo = 0 then setSub .insertHead file 1 csv
  else if recordNo = -1 then setSub .insertTail file (-1) csv
  else
    let lineNum := getTotalRecords file
    if lineNum = 0 then setSub .insertHead file 1 csv
    else if 0 < recordNo then
      if recordNo ≤ lineNum then setSub .insertMid file recordNo csv
      else setSub .insertTail file (lineNum + 1) csv
    else
      (negated recordNo).bind fun back =>
        if (lineNum : Int) < back then setSub .insertHead file 1 csv
        else setSub .insertMid file (lineNum + recordNo + 1) csv

/-- `csvfile_rm_record_sub`. -/
def rmRecordSub (file : Str) (recordNo : Int) : Str :=
  let line := if recordNo = 0 then 1 else recordNo
  copyLines line (fun _ => []) 0 (records file)

/-- `csvfile_rm_record`. -/
def rmRecord (file : Str) (recordNo : Int) : Option Str :=
  let lineNum := getTotalRecords file
  if lineNum = 0 then some file
  else if 0 < recordNo then
    some (rmRecordSub file (if recordNo ≤ lineNum then recordNo else lineNum))
  else if recordNo < 0 then
    (negated recordNo).map fun back =>
      rmRecordSub file (if (lineNum : Int) < back then 1 else lineNum + recordNo + 1)
  else some (rmRecordSub file 1)

/-! ### Edits of lists -/

/-- The place of the line with a number, from the front or from the back. -/
def place (total : Nat) (number : Int) : Option Nat :=
  if 0 < number ∧ number ≤ total then some (number - 1).toNat
  else if number < 0 ∧ -number ≤ total then some (total + number).toNat
  else none

/-- The place of the line that comes nearest to a number. -/
def nearest (total : Nat) (number : Int) : Nat :=
  if 0 < number then min number.toNat total - 1
  else if number < 0 then (total + number).toNat
  else 0

/-- A record whose text has room in a line. -/
structure Record where
  csv : Csv
  text : Str
  formatted : csv.getString = some text
  short : text.length < lineRoom

/-- No field of the record has a line end in it. -/
def Record.OneLine (record : Record) : Prop := ∀ row ∈ record.csv.used, 10 ∉ row.text

/-- The three edits. -/
inductive Edit where
  | set (record : Record)
  | insert (record : Record)
  | rm

/-- A file of complete lines that have room. -/
structure TextFile where
  lines : List Str
  complete : ∀ line ∈ lines, Complete lineRoom line

/-- An edit has a result, and it is a file of these lines with so many records. -/
def Leaves (result : Option Str) (lines : List Str) (total : Nat) : Prop :=
  ∃ after, result = some after ∧ after = lines.flatten ∧ getTotalRecords after = total

namespace Edit

/-- What the library does to the file. -/
def run : Edit → Str → Int → Option Str
  | .set record, file, recordNo => setRecord file recordNo record.csv
  | .insert record, file, recordNo => insertRecord file recordNo record.csv
  | .rm, file, recordNo => rmRecord file recordNo

/-- What the edit is to the list of lines. -/
def lines : Edit → List Str → Int → List Str
  | .set record, lines, number =>
    match place lines.length number with
    | some index => lines.set index record.text
    | none => if 0 < number then lines ++ [record.text] else record.text :: lines
  | .insert record, lines, number =>
    if number = -1 then lines ++ [record.text]
    else
      match place lines.length number with
      | some index => lines.insertIdx index record.text
      | none => if 0 < number then lines ++ [record.text] else record.text :: lines
  | .rm, lines, number => lines.eraseIdx (nearest lines.length number)

/-- The number of lines afterwards. -/
def total : Edit → Nat → Int → Nat
  | .set _, total, number => if (place total number).isSome then total else total + 1
  | .insert _, total, _ => total + 1
  | .rm, total, _ => total - 1

/-- The file afterwards is the edited list of lines, and has as many of them as it should. -/
def Refines (edit : Edit) (file : TextFile) (number : Int) : Prop :=
  Leaves (edit.run file.lines.flatten number) (edit.lines file.lines number)
    (edit.total file.lines.length number)

/-- The record is one line, and the lines that are copied as strings have no zero. -/
def Fits : Edit → List Str → Int → Prop
  | .set record, lines, number =>
    record.OneLine ∧
      ∀ index, place lines.length number = some index → ∀ line ∈ lines.eraseIdx index, 0 ∉ line
  | .insert record, lines, number =>
    record.OneLine ∧ (number ≠ 1 → number ≠ -1 → (place lines.length number).isSome →
      ∀ line ∈ lines, 0 ∉ line)
  | .rm, lines, number => ∀ line ∈ lines.eraseIdx (nearest lines.length number), 0 ∉ line

end Edit

/-! ### Copies -/

section Copies

variable {front back : List Str} {change : Str → Str} {recordNo i : Int}

theorem copyLines_apart (apart : i + back.length < recordNo ∨ recordNo ≤ i) :
    copyLines recordNo change i back = back.flatMap printed := by
  induction back generalizing i with
  | nil => rfl
  | cons buf back inductionHypothesis =>
    rw [List.length_cons] at apart
    have other : i + 1 ≠ recordNo := by omega
    rw [copyLines, if_neg other, inductionHypothesis (by omega), List.flatMap_cons]

/-- The change is made at the line with the number, and the other lines are printed. -/
theorem copyLines_at (buf : Str) (here : recordNo = i + front.length + 1) :
    copyLines recordNo change i (front ++ buf :: back) =
      front.flatMap printed ++ (change buf ++ back.flatMap printed) := by
  induction front generalizing i with
  | nil =>
    rw [List.length_nil] at here
    rw [List.nil_append, copyLines, if_pos (by omega), copyLines_apart (by omega)]
    rfl
  | cons first front inductionHypothesis =>
    rw [List.length_cons] at here
    have other : i + 1 ≠ recordNo := by omega
    rw [List.cons_append, copyLines, if_neg other, inductionHypothesis (by omega),
      List.flatMap_cons, List.append_assoc]

/-- Lines that are printed stay whole exactly if they have no zero. -/
theorem printed_iff (middle : Str) :
    front.flatMap printed ++ (middle ++ back.flatMap printed) =
        front.flatten ++ (middle ++ back.flatten) ↔
      ∀ line ∈ front ++ back, 0 ∉ line := by
  constructor
  · intro same line member zero
    have lengths := congrArg List.length same
    simp only [List.length_append] at lengths
    have frontLe := flatMap_printed_length_le front
    have backLe := flatMap_printed_length_le back
    rcases List.mem_append.mp member with member | member
    · have less := flatMap_printed_length_lt ⟨line, member, zero⟩
      omega
    · have less := flatMap_printed_length_lt ⟨line, member, zero⟩
      omega
  · intro noZero
    rw [flatMap_printed fun line member => noZero line (List.mem_append_left _ member),
      flatMap_printed fun line member => noZero line (List.mem_append_right _ member)]

end Copies

/-! ### Files -/

theorem records_flatten {lines : List Str} (complete : ∀ line ∈ lines, Complete lineRoom line) :
    records lines.flatten = lines :=
  readLines_flatten complete (Nat.le_refl _)

/-- A file of complete lines has as many records as line feeds. -/
theorem getTotalRecords_flatten {lines : List Str}
    (complete : ∀ line ∈ lines, Complete lineRoom line) :
    getTotalRecords lines.flatten = lines.flatten.count 10 := by
  rw [getTotalRecords, records_flatten complete, count_flatten complete]

/-- The number of records of complete lines with a text between them. -/
theorem getTotalRecords_between {front back : List Str} {text : Str}
    (frontComplete : ∀ line ∈ front, Complete lineRoom line)
    (backComplete : ∀ line ∈ back, Complete lineRoom line)
    (ends : text.getLast? = some 10) (short : text.length ≤ lineRoom) :
    getTotalRecords (front.flatten ++ (text ++ back.flatten)) =
      front.length + back.length + text.count 10 := by
  obtain ⟨lines, rfl, complete⟩ := exists_complete ends short
  have all : ∀ line ∈ front ++ (lines ++ back), Complete lineRoom line := fun line member => by
    rcases List.mem_append.mp member with member | member
    · exact frontComplete line member
    · rcases List.mem_append.mp member with member | member
      · exact complete line member
      · exact backComplete line member
  rw [← List.flatten_append, ← List.flatten_append, getTotalRecords_flatten all,
    List.flatten_append, List.flatten_append, List.count_append, List.count_append,
    count_flatten frontComplete, count_flatten backComplete]
  omega

namespace Record

variable (record : Record)

theorem getLast_text : record.text.getLast? = some 10 := by
  rw [Csv.getString_some record.formatted, List.getLast?_append]
  rfl

/-- The text has no line feed but its last byte exactly if no field has one. -/
theorem count_text_iff : record.text.count 10 = 1 ↔ record.OneLine := by
  rw [Csv.getString_some record.formatted, List.count_append]
  have last : List.count 10 ([13, 10] : Str) = 1 := rfl
  rw [last, Nat.add_eq_right, List.count_eq_zero, Csv.mem_joined (by decide)]
  unfold OneLine
  exact ⟨fun none row member feed => none ⟨row, member, feed⟩,
    fun clear ⟨row, member, feed⟩ => clear row member feed⟩

theorem setSub_eq (cmd : Cmd) (file : Str) (recordNo : Int) :
    setSub cmd file recordNo record.csv = some (written file recordNo record.text cmd) := by
  rw [setSub, record.formatted, Option.map_some]

end Record

/-! ### What an edit leaves -/

section Leaves

variable {record : Record} {front back : List Str}

/-- The lines around the record are copied whole. -/
theorem leaves_copied (frontComplete : ∀ line ∈ front, Complete lineRoom line)
    (backComplete : ∀ line ∈ back, Complete lineRoom line) :
    Leaves (some (front.flatten ++ (record.text ++ back.flatten))) (front ++ record.text :: back)
      (front.length + back.length + 1) ↔ record.OneLine := by
  have flat : (front ++ record.text :: back).flatten =
      front.flatten ++ (record.text ++ back.flatten) := by
    rw [List.flatten_append, List.flatten_cons]
  have counted := getTotalRecords_between frontComplete backComplete record.getLast_text
    record.short.le
  rw [← record.count_text_iff]
  constructor
  · rintro ⟨after, result, _, total⟩
    rw [← Option.some.inj result, counted] at total
    omega
  · intro one
    exact ⟨_, rfl, flat.symm, by rw [counted, one]⟩

/-- The lines around the record are printed as strings. -/
theorem leaves_printed (frontComplete : ∀ line ∈ front, Complete lineRoom line)
    (backComplete : ∀ line ∈ back, Complete lineRoom line) :
    Leaves (some (front.flatMap printed ++ (record.text ++ back.flatMap printed)))
        (front ++ record.text :: back) (front.length + back.length + 1) ↔
      record.OneLine ∧ ∀ line ∈ front ++ back, 0 ∉ line := by
  have whole := @printed_iff front back record.text
  rw [← leaves_copied frontComplete backComplete, ← whole]
  constructor
  · rintro ⟨after, result, flat, total⟩
    have same := (Option.some.inj result).trans flat
    rw [List.flatten_append, List.flatten_cons] at same
    exact ⟨⟨after, by rw [← result, same], flat, total⟩, same⟩
  · rintro ⟨leaves, same⟩
    rwa [same]

/-- The lines around a removed one are printed as strings. -/
theorem leaves_removed (frontComplete : ∀ line ∈ front, Complete lineRoom line)
    (backComplete : ∀ line ∈ back, Complete lineRoom line) :
    Leaves (some (front.flatMap printed ++ ([] ++ back.flatMap printed))) (front ++ back)
      (front.length + back.length) ↔ ∀ line ∈ front ++ back, 0 ∉ line := by
  rw [← printed_iff []]
  constructor
  · rintro ⟨after, result, flat, _⟩
    rw [Option.some.inj result, flat, List.flatten_append, List.nil_append]
  · intro same
    have complete : ∀ line ∈ front ++ back, Complete lineRoom line := fun line member =>
      (List.mem_append.mp member).elim (frontComplete line) (backComplete line)
    refine ⟨_, rfl, by rw [same, List.flatten_append, List.nil_append], ?_⟩
    rw [same, List.nil_append, ← List.flatten_append, getTotalRecords_flatten complete,
      count_flatten complete, List.length_append]

theorem not_leaves_none (lines : List Str) (total : Nat) : ¬Leaves none lines total :=
  fun ⟨_, result, _⟩ => by cases result

end Leaves

/-! ### Numbers and places -/

section Places

variable {file : Str} {total index : Nat} {number : Int} {csv : Csv}

theorem place_some (found : place total number = some index) :
    index < total ∧ number ≠ 0 ∧
      (number = index + 1 ∨ number < 0 ∧ number = (index : Int) - total) := by
  unfold place at found
  split at found
  · have same := Option.some.inj found
    omega
  · split at found
    · have same := Option.some.inj found
      omega
    · cases found

theorem place_none (missing : place total number = none) :
    number = 0 ∨ (total : Int) < number ∨ number < 0 ∧ total < -number := by
  unfold place at missing
  split at missing
  · cases missing
  · split at missing
    · cases missing
    · omega

theorem negated_of_ne (defined : number ≠ intMin) : negated number = some (-number) :=
  if_neg defined

theorem setRecord_inside (counted : getTotalRecords file = total) (defined : number ≠ intMin)
    (found : place total number = some index) :
    setRecord file number csv = setSub .changeMid file (index + 1) csv := by
  obtain ⟨inside, nonzero, numbered⟩ := place_some found
  unfold setRecord
  simp only [counted]
  rw [if_neg (by omega)]
  rcases numbered with front | ⟨negative, back⟩
  · rw [if_pos (by omega), if_pos (by omega), front]
  · rw [if_neg (by omega), negated_of_ne defined, Option.bind_some, if_neg (by omega)]
    congr 1
    omega

theorem insertRecord_inside (counted : getTotalRecords file = total)
    (defined : number ≠ intMin) (found : place total number = some index) (notFirst : number ≠ 1)
    (notLast : number ≠ -1) :
    insertRecord file number csv = setSub .insertMid file (index + 1) csv := by
  obtain ⟨inside, nonzero, numbered⟩ := place_some found
  unfold insertRecord
  simp only [counted]
  rw [if_neg (by omega), if_neg notLast, if_neg (by omega)]
  rcases numbered with front | ⟨negative, back⟩
  · rw [if_pos (by omega), if_pos (by omega), front]
  · rw [if_neg (by omega), negated_of_ne defined, Option.bind_some, if_neg (by omega)]
    congr 1
    omega

/-- The text of a record in front of a file or behind it. -/
def aside (number : Int) (text file : Str) : Str :=
  if 0 < number then file ++ text else text ++ file

theorem setRecord_outside (record : Record) (counted : getTotalRecords file = total)
    (empty : total = 0 → file = []) (defined : total = 0 ∨ number ≠ intMin)
    (missing : place total number = none) :
    setRecord file number record.csv = some (aside number record.text file) := by
  unfold setRecord aside
  simp only [counted, record.setSub_eq, written]
  by_cases none : total = 0
  · rw [if_pos (.inl none), empty none, List.append_nil, List.nil_append, ite_self]
  · rcases place_none missing with zero | large | ⟨negative, small⟩
    · rw [if_pos (.inr zero), if_neg (by omega)]
    · rw [if_neg (by omega), if_pos (by omega), if_neg (by omega), if_pos (by omega)]
    · rw [if_neg (by omega), if_neg (by omega), negated_of_ne (defined.resolve_left none),
        Option.bind_some, if_pos small, if_neg (by omega)]

theorem insertRecord_outside (record : Record) (counted : getTotalRecords file = total)
    (empty : total = 0 → file = []) (defined : total = 0 ∨ number ≠ intMin)
    (missing : place total number = none) (notLast : number ≠ -1) :
    insertRecord file number record.csv = some (aside number record.text file) := by
  unfold insertRecord aside
  simp only [counted, record.setSub_eq, written]
  by_cases none : total = 0
  · rw [if_neg notLast, if_pos none, empty none, List.append_nil, List.nil_append, ite_self,
      ite_self]
  · rcases place_none missing with zero | large | ⟨negative, small⟩
    · rw [if_pos (.inr zero), if_neg (by omega)]
    · rw [if_neg (by omega), if_neg notLast, if_neg none, if_pos (by omega), if_neg (by omega),
        if_pos (by omega)]
    · rw [if_neg (by omega), if_neg notLast, if_neg none, if_neg (by omega),
        negated_of_ne (defined.resolve_left none), Option.bind_some, if_pos small,
        if_neg (by omega)]

/-- The number one puts the record in front of the file without counting its lines. -/
theorem insertRecord_first (record : Record) :
    insertRecord file 1 record.csv = some (record.text ++ file) := by
  rw [insertRecord, if_pos (.inl rfl), record.setSub_eq]
  rfl

theorem insertRecord_last (record : Record) :
    insertRecord file (-1) record.csv = some (file ++ record.text) := by
  rw [insertRecord, if_neg (by decide), if_pos rfl, record.setSub_eq]
  rfl

theorem nearest_lt (some_lines : total ≠ 0) : nearest total number < total := by
  unfold nearest
  split
  · omega
  · split
    · omega
    · omega

theorem rmRecord_nearest (counted : getTotalRecords file = total) (some_lines : total ≠ 0)
    (defined : number ≠ intMin) :
    rmRecord file number =
      some (copyLines (nearest total number + 1) (fun _ => []) 0 (records file)) := by
  have sub : ∀ line : Int, 0 < line → line = nearest total number + 1 →
      rmRecordSub file line =
        copyLines (nearest total number + 1) (fun _ => []) 0 (records file) := by
    intro line positive same
    unfold rmRecordSub
    simp only
    rw [if_neg (by omega), same]
  unfold rmRecord
  simp only [counted]
  rw [if_neg some_lines]
  unfold nearest at sub ⊢
  split
  · rename_i positive
    rw [if_pos positive] at sub
    rw [sub _ (by split <;> omega) (by split <;> omega)]
  · rename_i notPositive
    rw [if_neg notPositive] at sub
    split
    · rename_i negative
      rw [if_pos negative] at sub
      rw [negated_of_ne defined, Option.map_some, sub _ (by split <;> omega)
        (by split <;> omega)]
    · rename_i notNegative
      rw [if_neg notNegative] at sub
      rw [sub 1 (by decide) rfl]

/-- The negative of the smallest number is asked for unless the file is empty. -/
theorem undefined_of_intMin (counted : getTotalRecords file = total) (some_lines : total ≠ 0) :
    (∀ csv, setRecord file intMin csv = none) ∧ (∀ csv, insertRecord file intMin csv = none) ∧
      rmRecord file intMin = none := by
  have negative : ¬0 < intMin := by decide
  have below : intMin < 0 := by decide
  have undefined : negated intMin = none := if_pos rfl
  refine ⟨fun csv => ?_, fun csv => ?_, ?_⟩
  · unfold setRecord
    simp only [counted]
    rw [if_neg (by omega), if_neg negative, undefined, Option.bind_none]
  · unfold insertRecord
    simp only [counted]
    rw [if_neg (by omega), if_neg (by decide), if_neg some_lines, if_neg negative, undefined,
      Option.bind_none]
  · unfold rmRecord
    simp only [counted]
    rw [if_neg some_lines, if_neg negative, if_pos below, undefined, Option.map_none]

end Places

/-! ### Edits of files -/

namespace TextFile

variable (file : TextFile) {number : Int} {index : Nat}

theorem counted : getTotalRecords file.lines.flatten = file.lines.length := by
  rw [getTotalRecords, records_flatten file.complete]

theorem flatten_empty (none : file.lines.length = 0) : file.lines.flatten = [] := by
  rw [List.length_eq_zero_iff.mp none, List.flatten_nil]

/-- The lines in front of a place and behind it. -/
theorem exists_split (inside : index < file.lines.length) :
    ∃ front line back, file.lines = front ++ line :: back ∧ front.length = index ∧
      (∀ line ∈ front, Complete lineRoom line) ∧ ∀ line ∈ back, Complete lineRoom line := by
  refine ⟨file.lines.take index, file.lines[index], file.lines.drop (index + 1), ?_, ?_,
    fun line member => file.complete line (List.mem_of_mem_take member),
    fun line member => file.complete line (List.mem_of_mem_drop member)⟩
  · rw [List.getElem_cons_drop, List.take_append_drop]
  · rw [List.length_take]
    exact Nat.min_eq_left inside.le

end TextFile

namespace Edit

variable {record : Record} {file : TextFile} {number : Int}

theorem leaves_before (record : Record) (file : TextFile) :
    Leaves (some (record.text ++ file.lines.flatten)) (record.text :: file.lines)
      (file.lines.length + 1) ↔ record.OneLine := by
  have before := @leaves_copied record [] file.lines (fun _ member => by cases member) file.complete
  rwa [List.flatten_nil, List.nil_append, List.nil_append, List.length_nil, Nat.zero_add] at before

theorem leaves_behind (record : Record) (file : TextFile) :
    Leaves (some (file.lines.flatten ++ record.text)) (file.lines ++ [record.text])
      (file.lines.length + 1) ↔ record.OneLine := by
  have behind := @leaves_copied record file.lines [] file.complete fun _ member => by cases member
  rwa [List.flatten_nil, List.append_nil] at behind

theorem leaves_aside (record : Record) (file : TextFile) (number : Int) :
    Leaves (some (aside number record.text file.lines.flatten))
      (if 0 < number then file.lines ++ [record.text] else record.text :: file.lines)
      (file.lines.length + 1) ↔ record.OneLine := by
  unfold aside
  split
  · exact leaves_behind record file
  · exact leaves_before record file

theorem set_refines_iff (defined : file.lines.length = 0 ∨ number ≠ intMin) :
    Refines (.set record) file number ↔ Fits (.set record) file.lines number := by
  unfold Refines Fits
  simp only [run, lines, total]
  cases found : place file.lines.length number with
  | none =>
    rw [setRecord_outside record file.counted file.flatten_empty defined found]
    simp only [Option.isSome_none, Bool.false_eq_true, if_false, reduceCtorEq, false_implies,
      implies_true, and_true]
    exact leaves_aside record file number
  | some index =>
    have inside := (place_some found).1
    have nonzero : number ≠ intMin := defined.resolve_left (by omega)
    rw [setRecord_inside file.counted nonzero found, record.setSub_eq, written,
      records_flatten file.complete]
    obtain ⟨front, line, back, split, rfl, frontComplete, backComplete⟩ := file.exists_split inside
    have kept := @leaves_printed record front back frontComplete backComplete
    rw [split, copyLines_at line (by omega)]
    simp only [Option.isSome_some, if_true, Option.some.injEq, forall_eq',
      List.set_append_right _ _ (Nat.le_refl _), List.eraseIdx_append_of_length_le (Nat.le_refl _),
      Nat.sub_self, List.set_cons_zero, List.eraseIdx_cons_zero, List.length_append,
      List.length_cons]
    exact kept

theorem insertIdx_length (front back : List Str) (text : Str) :
    (front ++ back).insertIdx front.length text = front ++ text :: back := by
  induction front with
  | nil => rfl
  | cons first front inductionHypothesis =>
    rw [List.cons_append, List.length_cons, List.insertIdx_succ_cons, inductionHypothesis,
      List.cons_append]

/-- The numbers one and minus one need no count of the lines. -/
theorem insert_ends (file : TextFile) (ends : number = 1 ∨ number = -1) :
    Refines (.insert record) file number ↔ record.OneLine := by
  unfold Refines
  simp only [run, lines, total]
  rcases ends with rfl | rfl
  · have front : (match place file.lines.length 1 with
        | some index => file.lines.insertIdx index record.text
        | none => if (0 : Int) < 1 then file.lines ++ [record.text]
          else record.text :: file.lines) = record.text :: file.lines := by
      cases split : file.lines with
      | nil => rfl
      | cons line lines =>
        have first : place (line :: lines).length 1 = some 0 := by
          refine if_pos ⟨by decide, ?_⟩
          rw [List.length_cons]
          omega
        rw [first]
        rfl
    rw [insertRecord_first, if_neg (by decide), front]
    exact leaves_before record file
  · rw [insertRecord_last, if_pos rfl]
    exact leaves_behind record file

theorem insert_refines_iff (defined : file.lines.length = 0 ∨ number ≠ intMin) :
    Refines (.insert record) file number ↔ Fits (.insert record) file.lines number := by
  by_cases ends : number = 1 ∨ number = -1
  · rw [insert_ends file ends, Fits]
    refine (and_iff_left fun notFirst notLast => ?_).symm
    exact absurd ends (not_or.mpr ⟨notFirst, notLast⟩)
  · obtain ⟨notFirst, notLast⟩ := not_or.mp ends
    unfold Refines Fits
    simp only [run, lines, total, ne_eq, notFirst, notLast, not_false_eq_true,
      true_implies]
    cases found : place file.lines.length number with
    | none =>
      rw [insertRecord_outside record file.counted file.flatten_empty defined found notLast]
      simp only [Option.isSome_none, Bool.false_eq_true, false_implies, and_true]
      exact leaves_aside record file number
    | some index =>
      have inside := (place_some found).1
      have nonzero : number ≠ intMin := defined.resolve_left (by omega)
      rw [insertRecord_inside file.counted nonzero found notFirst notLast, record.setSub_eq,
        written, records_flatten file.complete]
      obtain ⟨front, line, back, split, rfl, frontComplete, _⟩ := file.exists_split inside
      have kept := @leaves_printed record front (line :: back) frontComplete fun other member =>
        file.complete other (split ▸ List.mem_append_right _ member)
      rw [split, copyLines_at line (by omega)]
      simp only [Option.isSome_some, true_implies, insertIdx_length, List.length_append]
      rw [List.append_assoc, ← List.flatMap_cons]
      exact kept

theorem rm_refines_iff (defined : file.lines.length = 0 ∨ number ≠ intMin) :
    Refines .rm file number ↔ Fits .rm file.lines number := by
  unfold Refines Fits
  simp only [run, lines, total]
  by_cases none : file.lines.length = 0
  · have empty := List.length_eq_zero_iff.mp none
    have result : rmRecord file.lines.flatten number = some [] := by
      rw [rmRecord, file.counted, if_pos none, file.flatten_empty none]
    rw [result, empty, List.eraseIdx_nil]
    exact iff_of_true ⟨[], rfl, rfl, rfl⟩ fun _ member => by cases member
  · rw [rmRecord_nearest file.counted none (defined.resolve_left none),
      records_flatten file.complete]
    have inside := @nearest_lt _ number none
    generalize nearest file.lines.length number = index at inside
    obtain ⟨front, line, back, split, rfl, frontComplete, backComplete⟩ := file.exists_split inside
    have kept := @leaves_removed front back frontComplete backComplete
    rw [split, copyLines_at line (by omega)]
    simp only [List.eraseIdx_append_of_length_le (Nat.le_refl _), Nat.sub_self,
      List.eraseIdx_cons_zero, List.length_append, List.length_cons]
    exact kept

/-- An edit of a file of complete lines is the edit of the list of its lines exactly if the number
is not the smallest one or the file is empty, the record is one line, and the lines that the edit
copies as strings have no zero. -/
theorem file_edit_refines_iff (edit : Edit) (file : TextFile) (number : Int) :
    edit.Refines file number ↔
      (number = intMin → file.lines = []) ∧ edit.Fits file.lines number := by
  by_cases undefined : number = intMin ∧ file.lines ≠ []
  · obtain ⟨rfl, some_lines⟩ := undefined
    have total : file.lines.length ≠ 0 := fun none =>
      some_lines (List.length_eq_zero_iff.mp none)
    obtain ⟨noSet, noInsert, noRm⟩ := undefined_of_intMin file.counted total
    refine iff_of_false ?_ fun fits => some_lines (fits.1 rfl)
    unfold Refines
    cases edit with
    | set record =>
      rw [run, noSet]
      exact not_leaves_none _ _
    | insert record =>
      rw [run, noInsert]
      exact not_leaves_none _ _
    | rm =>
      rw [run, noRm]
      exact not_leaves_none _ _
  · have defined : file.lines.length = 0 ∨ number ≠ intMin := by
      by_cases smallest : number = intMin
      · refine .inl (List.length_eq_zero_iff.mpr ?_)
        by_contra some_lines
        exact undefined ⟨smallest, some_lines⟩
      · exact .inr smallest
    have empty : number = intMin → file.lines = [] := fun smallest =>
      List.length_eq_zero_iff.mp (defined.resolve_right (absurd smallest))
    rw [and_iff_right empty]
    cases edit with
    | set record => exact set_refines_iff defined
    | insert record => exact insert_refines_iff defined
    | rm => exact rm_refines_iff defined

/-- A record of the field `a`, a line end and `b`. -/
def twoLines : Record where
  csv := Csv.ofRows [⟨[97, 10, 98], by decide⟩]
  text := [97, 10, 98, 13, 10]
  formatted := Csv.getString_ofRows (List.cons_ne_nil _ _) (by decide)
  short := by decide

/-- A record of the field `a`. -/
def oneLine : Record where
  csv := Csv.ofRows [Csv.letter]
  text := [97, 13, 10]
  formatted := Csv.getString_ofRows (List.cons_ne_nil _ _) (by decide)
  short := by decide

/-- A file of the line `x`, a zero and `y`, and the line `z`. -/
def zeroInside : TextFile where
  lines := [[120, 0, 121, 10], [122, 10]]
  complete := by
    intro line member
    rcases List.mem_cons.mp member with rfl | member
    · exact ⟨[120, 0, 121], rfl, by decide, by decide⟩
    · rw [List.mem_singleton.mp member]
      exact ⟨[122], rfl, by decide, by decide⟩

/-- An empty file. -/
def emptyFile : TextFile := ⟨[], fun _ member => by cases member⟩

/-- Setting the second line cuts the first one off at its zero, so that the two run together. A
record with a line end in it makes two lines of one. -/
theorem edits_lose_lines :
    (Edit.set oneLine).run zeroInside.lines.flatten 2 = some [120, 97, 13, 10] ∧
      ¬(Edit.set oneLine).Refines zeroInside 2 ∧
      ¬(Edit.insert twoLines).Refines emptyFile 0 := by
  have cut : (Edit.set oneLine).run zeroInside.lines.flatten 2 = some [120, 97, 13, 10] := by
    rw [run, setRecord_inside zeroInside.counted (by decide) rfl, oneLine.setSub_eq]
    rfl
  refine ⟨cut, ?_, ?_⟩
  · rintro ⟨after, result, flat, _⟩
    rw [cut] at result
    rw [← Option.some.inj result] at flat
    exact absurd flat (by decide)
  · rintro ⟨after, _, flat, total⟩
    rw [flat] at total
    exact absurd total (by decide)

end Edit

end ExmOnvif.Csvparser
