/-
This file models the reading of a record from a file of records, and proves when a record
that was written at a number is read back at the same number.

The number counts from the front or from the back, and the reader counts the lines that
the file has after the writing. A record that takes the place of a line, or that is put
where there is no line yet, is found there. A record that is inserted in front of a line
counted from the back is not: the line is moved behind it, and keeps its number.

The record itself comes back if the formatter and the parser agree about its fields. A
line feed in a field breaks it apart, unless it is the last byte of the last field.
-/

import ExmOnvif.Csvparser.File

namespace ExmOnvif.Csvparser

open Library

/-! ### The library -/

/-- `csv_get_line_num`. -/
def getLineNum (total : Nat) (no : Int) : Option Int :=
  if 0 < no then some (if total < no then total else no)
  else if no < 0 then
    (negated no).map fun back => if (total : Int) < back then 1 else total + no + 1
  else some 0

/-- `csvfile_get_record`, with what it returns and the structure. The buffer has no value before a
line is read into it. -/
def getRecord (file : Str) (recordNo : Int) (cs : Csv) : Option (Except CsvErr Unit × Csv) :=
  if recordNo = 0 then some (.error .paraErr, cs)
  else if getTotalRecords file = 0 then some (.ok (), cs)
  else
    (getLineNum (getTotalRecords file) recordNo).bind fun index =>
      if index ≤ 0 then none
      else
        (records file)[(index - 1).toNat]?.bind fun buf =>
          (rmEnter (printed buf)).bind cs.parseString

/-! ### Writing and reading -/

/-- A record whose fields are not empty. The rows it does not use are blank. -/
structure FieldRecord extends Record where
  nonempty : ∀ row ∈ csv.used, row.text ≠ []
  strings : ∀ row ∈ csv.used, 0 ∉ row.text
  others : ∀ index : Fin maxAtomNum, csv.atomNum ≤ index → csv.csvBuf index = Row.blank

/-- The two functions that write a record. -/
inductive Writing where
  | set
  | insert
deriving DecidableEq, Repr

namespace Writing

/-- The edit of the file. -/
def edit (record : Record) : Writing → Edit
  | .set => .set record
  | .insert => .insert record

/-- The lines in front of the record. -/
def start (total : Nat) (number : Int) : Writing → Nat
  | .set => (place total number).getD (if 0 < number then total else 0)
  | .insert =>
    if number = -1 then total else (place total number).getD (if 0 < number then total else 0)

/-- The lines that are left out for the record. -/
def replaced (total : Nat) (number : Int) : Writing → Nat
  | .set => if (place total number).isSome then 1 else 0
  | .insert => 0

/-- The lines that are copied as strings have no zero. -/
def Copied (lines : List Str) (number : Int) : Writing → Prop
  | .set =>
    ∀ index, place lines.length number = some index → ∀ line ∈ lines.eraseIdx index, 0 ∉ line
  | .insert =>
    number ≠ 1 → number ≠ -1 → (place lines.length number).isSome → ∀ line ∈ lines, 0 ∉ line

/-- The record is inserted in front of a line that is counted from the back, but for the last. -/
def Displaces (writing : Writing) (total : Nat) (number : Int) : Prop :=
  writing = .insert ∧ number ≤ -2 ∧ -number ≤ total

/-- The record is written, and it is read back at the same number. -/
def ReadsBack (writing : Writing) (record : FieldRecord) (file : TextFile) (number : Int) :
    Prop :=
  ∃ after, (writing.edit record.toRecord).run file.lines.flatten number = some after ∧
    ∀ cs, getRecord after number cs = some (.ok (), record.csv)

end Writing

namespace FieldRecord

/-- The fields have no comma, and no space at either end. -/
def Clean (record : FieldRecord) : Prop :=
  ∀ row ∈ record.csv.used, 44 ∉ row.text ∧ rmUnusedSpace row = row

/-- A line with the record in it. -/
def HeldBy (record : FieldRecord) (line : Str) : Prop :=
  ∀ cs : Csv, (rmEnter (printed line)).bind cs.parseString = some (.ok (), record.csv)

/-- The only line feed of the fields is the last byte of the last one, which is not taken for the
line end of a record. -/
def EndsInFeed (record : FieldRecord) : Prop :=
  (∃ body, Csv.joined record.csv.used = body ++ [10] ∧ 10 ∉ body) ∧
    rmEnter (Csv.joined record.csv.used) = some (Csv.joined record.csv.used)

end FieldRecord

/-- The number is not behind the line after the last, and counted from the back it is before the
line in front of the first. -/
def Near (total : Nat) (number : Int) : Prop :=
  0 < number ∧ number ≤ total + 1 ∨ number < -(total + 1)

/-- What has to be true for a record to be read back. -/
structure Writing.Reads (writing : Writing) (record : FieldRecord) (file : TextFile)
    (number : Int) : Prop where
  defined : number ≠ intMin
  displaced : writing.Displaces file.lines.length number →
    ∃ index line, place file.lines.length number = some index ∧
      file.lines[index]? = some line ∧ record.HeldBy line
  itself : ¬writing.Displaces file.lines.length number →
    record.Clean ∧ (record.OneLine ∨ record.EndsInFeed ∧ Near file.lines.length number)

/-! ### What the parser gives -/

namespace Csv

section Parser

variable {row : Row} {rows other front : List Row} {text : Str}

/-- Structures that were made of different fields differ. -/
theorem ofRows_injective (few : rows.length ≤ maxAtomNum) (same : ofRows rows = ofRows other) :
    rows = other := by
  have lengths : rows.length = other.length := congrArg Csv.atomNum same
  refine List.ext_getElem lengths fun index inside within => ?_
  have both := congrFun (congrArg Csv.csvBuf same) ⟨index, inside.trans_le few⟩
  simp only [ofRows] at both
  rwa [List.getD_eq_getElem _ _ inside, List.getD_eq_getElem _ _ within] at both

theorem mem_of_mem_rmTrailing {turns : Nat} {byte : UInt8} (member : byte ∈ rmTrailing turns text) :
    byte ∈ text := by
  induction turns generalizing text with
  | zero => exact member
  | succ turns inductionHypothesis =>
    rw [rmTrailing] at member
    split at member
    · exact List.mem_of_mem_dropLast (inductionHypothesis member)
    · exact member

theorem mem_of_mem_rmLeading {turns : Nat} {byte : UInt8} (member : byte ∈ rmLeading turns text) :
    byte ∈ text := by
  induction turns generalizing text with
  | zero => exact member
  | succ turns inductionHypothesis =>
    rw [rmLeading] at member
    split at member
    · exact List.mem_of_mem_tail (inductionHypothesis member)
    · exact member

/-- Without the spaces a field has no new bytes. -/
theorem mem_of_mem_rmUnusedSpace {byte : UInt8} (member : byte ∈ (rmUnusedSpace row).text) :
    byte ∈ row.text :=
  mem_of_mem_rmTrailing (mem_of_mem_rmLeading member)

/-- Without the spaces the text of some fields is not longer. -/
theorem joined_trimmed_length (rows : List Row) :
    (joined (rows.map rmUnusedSpace)).length ≤ (joined rows).length := by
  have shorter : ∀ row : Row, (rmUnusedSpace row).text.length ≤ row.text.length := fun row =>
    (rmLeading_length _ _).trans (rmTrailing_length _ _)
  induction rows with
  | nil => exact Nat.le_refl _
  | cons row rows inductionHypothesis =>
    cases rows with
    | nil =>
      rw [List.map_singleton, joined_singleton, joined_singleton]
      exact shorter row
    | cons next rows =>
      rw [List.map_cons] at inductionHypothesis
      rw [List.map_cons, List.map_cons, joined_cons_cons, joined_cons_cons, List.length_append,
        List.length_append, List.length_cons, List.length_cons]
      exact Nat.add_le_add (shorter row) (Nat.succ_le_succ inductionHypothesis)

/-- The fields behind a comma have no comma, and are not longer than the text. -/
theorem parseLoop_bound {turns : Nat}
    (parsed : parseLoop turns (44 :: text) front = some (.ok rows)) :
    ∃ fields, rows = front ++ fields ∧ fields.length ≤ turns ∧
      (∀ row ∈ fields, 44 ∉ row.text) ∧ (joined fields).length ≤ text.length := by
  induction turns generalizing text front with
  | zero =>
    rw [parseLoop] at parsed
    cases parsed
    exact ⟨[], (List.append_nil _).symm, Nat.le_refl _, fun _ member => (by cases member),
      Nat.zero_le _⟩
  | succ turns inductionHypothesis =>
    by_cases comma : 44 ∈ text
    · -- The field ends at the first comma.
      obtain ⟨field, rest, rfl, noComma⟩ := List.eq_append_cons_of_mem comma
      by_cases short : field.length < maxAtomLen
      · have step := @parseLoop_field ⟨field, short⟩ front turns rest noComma
        have skip := @parseLoop_skip (front ++ [⟨field, short⟩]) turns field rest noComma
        simp only at step skip
        rw [step, skip] at parsed
        obtain ⟨fields, rfl, few, clear, bound⟩ := inductionHypothesis parsed
        refine ⟨⟨field, short⟩ :: fields, ?_, Nat.succ_le_succ few, ?_, ?_⟩
        · rw [List.append_assoc, List.singleton_append]
        · exact List.forall_mem_cons.mpr ⟨noComma, clear⟩
        · rw [List.length_append, List.length_cons]
          cases fields with
          | nil =>
            rw [joined_singleton]
            exact Nat.le_add_right _ _
          | cons next fields =>
            rw [joined_cons_cons, List.length_append, List.length_cons]
            exact Nat.add_le_add_left (Nat.succ_le_succ bound) _
      · have cut := @strstr_field field rest noComma
        have taken : (field ++ 44 :: rest).take
            ((field ++ 44 :: rest).length - (44 :: rest).length) = field := by
          rw [List.length_append, Nat.add_sub_cancel, List.take_left]
        rw [parseLoop, strstr_comma] at parsed
        simp only [List.tail_cons, cut, taken, short, dite_false] at parsed
        cases parsed
    · by_cases short : text.length < maxAtomLen
      · rw [@parseLoop_last ⟨text, short⟩ front turns comma] at parsed
        cases parsed
        refine ⟨[⟨text, short⟩], rfl, Nat.succ_le_succ (Nat.zero_le _), ?_, ?_⟩
        · intro row member
          rw [List.mem_singleton.mp member]
          exact comma
        · rw [joined_singleton]
      · rw [parseLoop, strstr_comma] at parsed
        simp only [List.tail_cons, strstr_last comma, short, dite_false] at parsed
        cases parsed

/-- The fields that were parsed have no comma, and are not longer than the text. -/
theorem parseString_bound {cs : Csv} (few : rows.length ≤ maxAtomNum)
    (parsed : cs.parseString text = some (.ok (), ofRows rows)) :
    (∀ row ∈ rows, 44 ∉ row.text) ∧ (joined rows).length ≤ text.length := by
  rw [parseString] at parsed
  split at parsed
  · cases parsed
  · obtain ⟨marked, begins, length⟩ : ∃ marked : Str,
        (if text.head? = some 44 then text else 44 :: text) = 44 :: marked ∧
          marked.length ≤ text.length := by
      cases text with
      | nil => exact ⟨[], rfl, Nat.le_refl _⟩
      | cons first rest =>
        by_cases comma : first = 44
        · rw [List.head?_cons, comma, if_pos rfl]
          exact ⟨rest, rfl, Nat.le_succ _⟩
        · rw [List.head?_cons, if_neg fun same => comma (Option.some.inj same)]
          exact ⟨first :: rest, rfl, Nat.le_refl _⟩
    simp only [begins] at parsed
    obtain ⟨result, loop, gives⟩ := Option.map_eq_some_iff.mp parsed
    cases result with
    | error error => cases gives
    | ok all =>
      obtain ⟨fields, same, _, noComma, bound⟩ := parseLoop_bound loop
      rw [List.nil_append] at same
      obtain rfl := ofRows_injective few (Prod.mk.inj gives).2.symm
      rw [same]
      refine ⟨fun row member comma => ?_, ?_⟩
      · obtain ⟨field, inside, rfl⟩ := List.mem_map.mp member
        exact noComma field inside (mem_of_mem_rmUnusedSpace comma)
      · exact ((joined_trimmed_length fields).trans bound).trans length

/-- Fields that are not empty come back from their text exactly if they are clean. -/
theorem parse_joined_iff (some_rows : rows ≠ []) (few : rows.length ≤ maxAtomNum)
    (nonempty : ∀ row ∈ rows, row.text ≠ []) (cs : Csv) :
    cs.parseString (joined rows) = some (.ok (), ofRows rows) ↔
      ∀ row ∈ rows, 44 ∉ row.text ∧ rmUnusedSpace row = row := by
  have short : (joined rows).length ≤ maxAtomLen * maxAtomNum + 1 :=
    ((joined_length _).trans (Nat.mul_le_mul_left _ few)).trans (Nat.le_succ _)
  have first : ∀ row ∈ rows.head?, row.text ≠ [] := fun row member =>
    nonempty row (List.mem_of_mem_head? member)
  have parses : (∀ row ∈ rows, 44 ∉ row.text) →
      cs.parseString (joined rows) = some (.ok (), ofRows (rows.map rmUnusedSpace)) := by
    intro noComma
    rw [parseString, if_neg (Nat.not_lt.mpr short)]
    simp only [marked_of_first first noComma]
    rw [parseLoop_joined some_rows few noComma]
    rfl
  constructor
  · intro parsed
    have noComma := (parseString_bound few parsed).1
    rw [parses noComma] at parsed
    have same := ofRows_injective few (Prod.mk.inj (Option.some.inj parsed)).2.symm
    intro row member
    refine ⟨noComma row member, ?_⟩
    obtain ⟨index, inside, rfl⟩ := List.getElem_of_mem member
    have trimmed := List.getElem_of_eq same inside
    rw [List.getElem_map] at trimmed
    exact trimmed.symm
  · intro clean
    have same : rows.map rmUnusedSpace = rows :=
      (List.map_congr_left fun row member => (clean row member).2).trans (List.map_id' rows)
    rw [parses fun row member => (clean row member).1, same]

end Parser

end Csv

/-! ### The lines of a record -/

/-- A line end is taken off, or the line stays as it is. -/
theorem rmEnter_cases {text para : Str} (removed : rmEnter text = some para) :
    text = para ++ [13, 10] ∨ para = text := by
  unfold rmEnter at removed
  split at removed
  · cases removed
  · split at removed
    · cases removed
    · exact Or.inr (Option.some.inj removed).symm
  · next last before rest backwards =>
    split at removed
    · next ends =>
      cases removed
      rw [← List.reverse_reverse text, backwards, ends.1, ends.2, List.reverse_cons,
        List.reverse_cons, List.append_assoc]
      exact Or.inl rfl
    · exact Or.inr (Option.some.inj removed).symm

namespace FieldRecord

variable (record : FieldRecord)

theorem few : record.csv.atomNum ≤ maxAtomNum := by
  by_contra many
  have formatted := record.formatted
  rw [Csv.getString, if_neg many] at formatted
  cases formatted

theorem used_length : record.csv.used.length = record.csv.atomNum := by
  rw [Csv.used, List.length_take, List.length_ofFn]
  exact Nat.min_eq_left record.few

theorem used_few : record.csv.used.length ≤ maxAtomNum := record.used_length.trans_le record.few

theorem some_fields : record.csv.used ≠ [] := by
  intro empty
  have formatted := record.formatted
  rw [Csv.getString, if_pos record.few, empty] at formatted
  cases formatted

/-- The structure is made of its fields. -/
theorem ofRows_used : Csv.ofRows record.csv.used = record.csv := by
  have rows : (Csv.ofRows record.csv.used).csvBuf = record.csv.csvBuf := by
    funext index
    show record.csv.used.getD index Row.blank = _
    by_cases inside : index.val < record.csv.atomNum
    · rw [List.getD_eq_getElem _ _ (record.used_length.symm ▸ inside)]
      unfold Csv.used
      rw [List.getElem_take, List.getElem_ofFn]
    · rw [List.getD_eq_default _ _ (record.used_length.trans_le (Nat.not_lt.mp inside)),
        record.others index (Nat.not_lt.mp inside)]
  calc Csv.ofRows record.csv.used
      = ⟨record.csv.used.length, (Csv.ofRows record.csv.used).csvBuf⟩ := rfl
    _ = ⟨record.csv.atomNum, record.csv.csvBuf⟩ := by rw [record.used_length, rows]

theorem text_eq : record.text = Csv.joined record.csv.used ++ [13, 10] :=
  Csv.getString_some record.formatted

/-- The fields come back from their text exactly if they are clean. -/
theorem parse_iff (cs : Csv) :
    cs.parseString (Csv.joined record.csv.used) = some (.ok (), record.csv) ↔ record.Clean := by
  have parses := Csv.parse_joined_iff record.some_fields record.used_few record.nonempty cs
  rwa [record.ofRows_used] at parses

/-- What the record is read from is not shorter than its fields. -/
theorem joined_length_le {cs : Csv} {text : Str}
    (parsed : cs.parseString text = some (.ok (), record.csv)) :
    (Csv.joined record.csv.used).length ≤ text.length := by
  rw [← record.ofRows_used] at parsed
  exact (Csv.parseString_bound record.used_few parsed).2

theorem joined_nonempty : Csv.joined record.csv.used ≠ [] := by
  obtain ⟨row, rows, split⟩ := List.exists_cons_of_ne_nil record.some_fields
  have first := record.nonempty row (split ▸ List.mem_cons_self)
  rw [split]
  cases rows with
  | nil => rwa [Csv.joined_singleton]
  | cons next rows =>
    rw [Csv.joined_cons_cons]
    exact List.append_ne_nil_of_left_ne_nil first _

/-- The lines of the record. -/
def lines : List Str := records record.text

theorem lines_spec :
    record.lines.flatten = record.text ∧ ∀ line ∈ record.lines, Complete lineRoom line := by
  obtain ⟨lines, flat, complete⟩ := exists_complete record.getLast_text record.short.le
  have same : record.lines = lines := by rw [FieldRecord.lines, ← flat, records_flatten complete]
  rw [same]
  exact ⟨flat, complete⟩

/-- A list of complete lines with the text of the record is the list of its lines. -/
theorem lines_eq {lines : List Str} (flat : lines.flatten = record.text)
    (complete : ∀ line ∈ lines, Complete lineRoom line) : record.lines = lines := by
  rw [FieldRecord.lines, ← flat, records_flatten complete]

theorem zero_notMem_text : 0 ∉ record.text := by
  rw [record.text_eq, List.mem_append, Csv.mem_joined (by decide)]
  rintro (⟨row, member, zero⟩ | zero)
  · exact record.strings row member zero
  · exact absurd zero (by decide)

theorem printed_line {line : Str} (member : line ∈ record.lines) : printed line = line := by
  refine printed_of_notMem fun zero => record.zero_notMem_text ?_
  rw [← record.lines_spec.1]
  exact List.mem_flatten.mpr ⟨line, member, zero⟩

/-- Without line feeds in its fields the record is one line. -/
theorem lines_of_oneLine (one : record.OneLine) : record.lines = [record.text] := by
  refine record.lines_eq (List.append_nil _) fun line member => ?_
  rw [List.mem_singleton.mp member]
  have short := record.short
  rw [record.text_eq, List.append_cons] at short ⊢
  refine ⟨_, rfl, ?_, ?_⟩
  · rw [List.mem_append, Csv.mem_joined (by decide)]
    rintro (⟨row, inside, feed⟩ | feed)
    · exact one row inside feed
    · exact absurd feed (by decide)
  · rw [List.length_append, List.length_singleton] at short
    omega

/-- With a line feed at the end of its fields the record is two lines, the first of which are the
fields. -/
theorem lines_of_endsInFeed (ends : record.EndsInFeed) :
    record.lines = [Csv.joined record.csv.used, [13, 10]] := by
  obtain ⟨⟨body, whole, noFeed⟩, _⟩ := ends
  have short := record.short
  rw [record.text_eq, whole, List.length_append, List.length_append] at short
  refine record.lines_eq ?_ fun line member => ?_
  · rw [record.text_eq, List.flatten_cons, List.flatten_cons, List.flatten_nil, List.append_nil]
  · rcases List.mem_cons.mp member with rfl | member
    · exact ⟨body, whole, noFeed, by omega⟩
    · rw [List.mem_singleton.mp member]
      exact ⟨[13], rfl, by decide, by decide⟩

/-- The record has a line for each line feed. -/
theorem lines_length : record.lines.length = record.text.count 10 := by
  rw [← count_flatten record.lines_spec.2, record.lines_spec.1]

theorem lines_pos : 0 < record.lines.length := by
  rw [lines_length, List.count_pos_iff, record.text_eq]
  exact List.mem_append_right _ (by decide)

theorem oneLine_iff : record.OneLine ↔ record.lines.length = 1 := by
  rw [lines_length, record.toRecord.count_text_iff]

/-- The line feed of a field ends the line it is in: a line that is as long as the fields is the
first one, and its line feed is the last byte of them. -/
theorem eq_joined_of_long {front back : List Str} {line para : Str}
    (split : record.lines = front ++ line :: back) (several : ¬record.OneLine)
    (removed : rmEnter line = some para)
    (long : (Csv.joined record.csv.used).length ≤ para.length) :
    front = [] ∧ line = Csv.joined record.csv.used ∧ para = line := by
  obtain ⟨flat, complete⟩ := record.lines_spec
  rw [split, List.flatten_append, List.flatten_cons, record.text_eq] at flat
  rw [split] at complete
  rw [record.oneLine_iff, split, List.length_append, List.length_cons] at several
  have whole : Complete lineRoom line := complete line (by simp)
  have frontLength := length_le_flatten fun other member =>
    complete other (List.mem_append_left _ member)
  have backLength := length_le_flatten fun other member =>
    complete other (List.mem_append_right _ (List.mem_cons_of_mem _ member))
  have some_bytes := List.length_pos_of_ne_nil record.joined_nonempty
  have lineEnd : Csv.joined record.csv.used ++ [13, 10] =
      Csv.joined record.csv.used ++ [13] ++ [10] := List.append_cons _ _ _
  have lengths := congrArg List.length flat
  simp only [List.length_append, List.length_cons, List.length_nil] at lengths
  rcases rmEnter_cases removed with same | same
  · -- The line ends with the line end of the record, so that what is left is too short.
    rw [same, List.length_append] at lengths
    simp only [List.length_cons, List.length_nil] at lengths
    omega
  · rw [same] at removed long ⊢
    obtain ⟨body, ending, _⟩ := whole
    rcases List.eq_nil_or_concat back with rfl | ⟨others, final, rfl⟩
    · -- The last line has the line end of the record, which is taken off.
      exfalso
      rw [List.flatten_nil, List.append_nil, ending, ← List.append_assoc, lineEnd] at flat
      have inner := (List.append_inj' flat rfl).1
      rcases List.eq_nil_or_concat body with rfl | ⟨rest, last, rfl⟩
      · rw [ending] at removed
        cases removed
      · rw [List.concat_eq_append] at inner ending
        rw [← List.append_assoc] at inner
        have feed := List.singleton_inj.mp (List.append_inj' inner rfl).2
        rw [ending, feed, List.append_assoc, List.singleton_append, Csv.rmEnter_line] at removed
        have shorter := congrArg List.length (Option.some.inj removed)
        simp only [List.length_append, List.length_cons, List.length_nil] at shorter
        omega
    · -- There is no room for a line in front, and behind there is the line end of the record.
      obtain ⟨last, finalEnding, _⟩ : Complete lineRoom final := complete final (by simp)
      rw [List.concat_eq_append, List.flatten_append, List.flatten_singleton, finalEnding, lineEnd,
        ← List.append_assoc, ← List.append_assoc, ← List.append_assoc, List.append_assoc _ _ last]
        at flat
      have inner := (List.append_inj' flat rfl).1
      have innerLengths := congrArg List.length inner
      simp only [List.length_append, List.length_singleton] at innerLengths
      rcases Nat.eq_zero_or_pos (others.flatten ++ last).length with empty | some_last
      · rw [List.length_eq_zero_iff.mp empty, List.append_nil, ending, ← List.append_assoc] at inner
        exact absurd (List.singleton_inj.mp (List.append_inj' inner rfl).2) (by decide)
      · rw [List.length_append] at some_last
        have none : front = [] := List.length_eq_zero_iff.mp (by omega)
        rw [none, List.flatten_nil, List.nil_append] at inner
        exact ⟨none, (List.append_inj inner (by omega)).1, rfl⟩

/-- What is read of a line of the record is the record exactly if the fields are clean, and the line
is the only one, or the first of two. -/
theorem heldBy_line_iff {front back : List Str} {line : Str}
    (split : record.lines = front ++ line :: back) :
    record.HeldBy line ↔ record.Clean ∧ (record.OneLine ∨ front = [] ∧ record.EndsInFeed) := by
  have member : line ∈ record.lines := by
    rw [split]
    exact List.mem_append_right _ List.mem_cons_self
  unfold HeldBy
  rw [record.printed_line member]
  by_cases one : record.OneLine
  · have single := record.lines_of_oneLine one
    rw [split] at single
    have same : line = record.text := by
      have inside : line ∈ front ++ line :: back := split ▸ member
      rw [single] at inside
      exact List.mem_singleton.mp inside
    rw [same, record.text_eq, Csv.rmEnter_line]
    constructor
    · intro held
      exact ⟨(record.parse_iff Csv.create).mp (held Csv.create), Or.inl one⟩
    · exact fun clean cs => (record.parse_iff cs).mpr clean.1
  · constructor
    · intro held
      obtain ⟨para, removed, parsed⟩ := Option.bind_eq_some_iff.mp (held Csv.create)
      obtain ⟨first, same, rfl⟩ :=
        record.eq_joined_of_long split one removed (record.joined_length_le parsed)
      rw [same] at parsed removed
      obtain ⟨body, ending, noFeed, _⟩ := record.lines_spec.2 para member
      exact ⟨(record.parse_iff Csv.create).mp parsed,
        Or.inr ⟨first, ⟨body, same.symm.trans ending, noFeed⟩, removed⟩⟩
    · rintro ⟨clean, none | ⟨rfl, ends⟩⟩ cs
      · exact absurd none one
      · have two := record.lines_of_endsInFeed ends
        rw [split, List.nil_append] at two
        rw [(List.cons.inj two).1, ends.2]
        exact (record.parse_iff cs).mpr clean

end FieldRecord

/-! ### The file afterwards -/

namespace Writing

variable {writing : Writing} {record : FieldRecord} {file : TextFile} {number : Int}

/-- The lines of the file afterwards. -/
def linesAfter (writing : Writing) (record : FieldRecord) (file : TextFile) (number : Int) :
    List Str :=
  file.lines.take (writing.start file.lines.length number) ++ (record.lines ++
    file.lines.drop (writing.start file.lines.length number +
      writing.replaced file.lines.length number))

theorem linesAfter_complete :
    ∀ line ∈ writing.linesAfter record file number, Complete lineRoom line := by
  intro line member
  rcases List.mem_append.mp member with inFront | member
  · exact file.complete line (List.mem_of_mem_take inFront)
  · rcases List.mem_append.mp member with own | behind
    · exact record.lines_spec.2 line own
    · exact file.complete line (List.mem_of_mem_drop behind)

theorem linesAfter_flatten : (writing.linesAfter record file number).flatten =
    (file.lines.take (writing.start file.lines.length number)).flatten ++ (record.text ++
      (file.lines.drop (writing.start file.lines.length number +
        writing.replaced file.lines.length number)).flatten) := by
  rw [linesAfter, List.flatten_append, List.flatten_append, record.lines_spec.1]

/-- The record is put in front of the file or behind it. -/
theorem aside_eq (text : Str) :
    aside number text file.lines.flatten =
      (file.lines.take (if 0 < number then file.lines.length else 0)).flatten ++ (text ++
        (file.lines.drop (if 0 < number then file.lines.length else 0)).flatten) := by
  unfold aside
  split
  · rw [List.take_length, List.drop_length, List.flatten_nil, List.append_nil]
  · rw [List.take_zero, List.drop_zero, List.flatten_nil, List.nil_append]

/-- A record that is set takes the place of the line with the number. -/
theorem run_set (defined : number ≠ intMin) (copied : Writing.set.Copied file.lines number) :
    (Writing.set.edit record.toRecord).run file.lines.flatten number =
      some (Writing.set.linesAfter record file number).flatten := by
  rw [linesAfter_flatten]
  show setRecord file.lines.flatten number record.csv = _
  unfold start replaced
  cases found : place file.lines.length number with
  | none =>
    rw [setRecord_outside record.toRecord file.counted file.flatten_empty (Or.inr defined) found,
      aside_eq]
    rfl
  | some index =>
    have inside := (place_some found).1
    have noZero := copied index found
    rw [setRecord_inside file.counted defined found, record.setSub_eq, written,
      records_flatten file.complete]
    simp only [Option.getD_some, Option.isSome_some, if_true]
    obtain ⟨front, line, back, split, rfl, _⟩ := file.exists_split inside
    rw [split, List.eraseIdx_append_of_length_le (Nat.le_refl _), Nat.sub_self,
      List.eraseIdx_cons_zero] at noZero
    rw [split, copyLines_at line (by omega), (printed_iff record.text).mpr noZero, List.take_left,
      List.drop_append, List.drop_eq_nil_of_le (Nat.le_succ _)]
    simp

/-- A record that is inserted comes in front of the line with the number, or behind the last. -/
theorem run_insert (defined : number ≠ intMin)
    (copied : Writing.insert.Copied file.lines number) :
    (Writing.insert.edit record.toRecord).run file.lines.flatten number =
      some (Writing.insert.linesAfter record file number).flatten := by
  rw [linesAfter_flatten]
  show insertRecord file.lines.flatten number record.csv = _
  unfold start replaced
  by_cases last : number = -1
  · rw [last, insertRecord_last, if_pos rfl, List.take_length, Nat.add_zero, List.drop_length,
      List.flatten_nil, List.append_nil]
  · rw [if_neg last, Nat.add_zero]
    by_cases first : number = 1
    · have front : (place file.lines.length number).getD
          (if 0 < number then file.lines.length else 0) = 0 := by
        cases found : place file.lines.length number with
        | none =>
          have missing := place_none found
          rw [Option.getD_none, if_pos (by omega)]
          omega
        | some index =>
          have numbered := place_some found
          rw [Option.getD_some]
          omega
      rw [front, first, insertRecord_first, List.take_zero, List.drop_zero, List.flatten_nil,
        List.nil_append]
    · cases found : place file.lines.length number with
      | none =>
        rw [insertRecord_outside record.toRecord file.counted file.flatten_empty (Or.inr defined)
          found last, aside_eq]
        rfl
      | some index =>
        have inside := (place_some found).1
        have noZero := copied first last (by rw [found]; rfl)
        rw [insertRecord_inside file.counted defined found first last, record.setSub_eq, written,
          records_flatten file.complete]
        obtain ⟨front, line, back, split, rfl, _⟩ := file.exists_split inside
        rw [split] at noZero
        have whole := (@printed_iff front (line :: back) record.text).mpr noZero
        rw [List.flatMap_cons, ← List.append_assoc record.text] at whole
        rw [split, copyLines_at line (by omega), whole, Option.getD_some, List.take_left,
          List.drop_left]

/-- The record is written between the lines in front of it and the lines behind it. -/
theorem run_eq (defined : number ≠ intMin) (copied : writing.Copied file.lines number) :
    (writing.edit record.toRecord).run file.lines.flatten number =
      some (writing.linesAfter record file number).flatten := by
  cases writing with
  | set => exact run_set defined copied
  | insert => exact run_insert defined copied

/-- The number from the front, and no line that is not there. -/
theorem getLineNum_eq (total : Nat) (nonzero : number ≠ 0) (defined : number ≠ intMin) :
    getLineNum total number =
      some (if 0 < number then min number total else max 1 (total + number + 1)) := by
  unfold getLineNum
  by_cases positive : 0 < number
  · rw [if_pos positive, if_pos positive]
    congr 1
    split <;> omega
  · rw [if_neg positive, if_neg positive, if_pos (by omega), negated_of_ne defined,
      Option.map_some]
    congr 1
    split <;> omega

/-- The place of a number, or the end of the file that is next to it. -/
theorem place_getD_cases (total : Nat) (nonzero : number ≠ 0) :
    (0 < number ∧ number ≤ total ∧ (place total number).isSome = true ∧
        ((place total number).getD (if 0 < number then total else 0) : Int) = number - 1) ∨
      ((total : Int) < number ∧ (place total number).isSome = false ∧
        (place total number).getD (if 0 < number then total else 0) = total) ∨
      (number < 0 ∧ (total : Int) < -number ∧ (place total number).isSome = false ∧
        (place total number).getD (if 0 < number then total else 0) = 0) ∨
      (number < 0 ∧ -number ≤ total ∧ (place total number).isSome = true ∧
        ((place total number).getD (if 0 < number then total else 0) : Int) = total + number) := by
  cases found : place total number with
  | none =>
    rw [Option.getD_none]
    rcases place_none found with zero | behind | ⟨negative, before⟩
    · exact absurd zero nonzero
    · exact Or.inr (Or.inl ⟨behind, rfl, if_pos (by omega)⟩)
    · exact Or.inr (Or.inr (Or.inl ⟨negative, before, rfl, if_neg (by omega)⟩))
  | some index =>
    rw [Option.getD_some]
    obtain ⟨inside, _, front | ⟨negative, back⟩⟩ := place_some found
    · exact Or.inl ⟨by omega, by omega, rfl, by omega⟩
    · exact Or.inr (Or.inr (Or.inr ⟨negative, by omega, rfl, by omega⟩))

/-- Where the record is written, for each kind of number. -/
theorem start_cases (writing : Writing) (total : Nat) (nonzero : number ≠ 0) :
    (0 < number ∧ number ≤ total ∧ (writing.start total number : Int) = number - 1 ∧
        writing.replaced total number ≤ 1) ∨
      ((total : Int) < number ∧ writing.start total number = total ∧
        writing.replaced total number = 0) ∨
      (number < 0 ∧ (total : Int) < -number ∧ writing.start total number = 0 ∧
        writing.replaced total number = 0) ∨
      (number < 0 ∧ -number ≤ total ∧ (writing.start total number : Int) = total + number ∧
        writing.replaced total number = 1 ∧ ¬writing.Displaces total number) ∨
      (number = -1 ∧ writing.start total number = total ∧ writing.replaced total number = 0) ∨
      (writing.Displaces total number ∧ (writing.start total number : Int) = total + number ∧
        writing.replaced total number = 0) := by
  have placed := place_getD_cases total nonzero
  cases writing with
  | set =>
    unfold start replaced
    rcases placed with ⟨positive, inside, here, start⟩ | ⟨behind, nowhere, start⟩ |
      ⟨negative, before, nowhere, start⟩ | ⟨negative, inside, here, start⟩
    · exact Or.inl ⟨positive, inside, start, by rw [if_pos here]⟩
    · exact Or.inr (Or.inl ⟨behind, start, by rw [nowhere]; rfl⟩)
    · exact Or.inr (Or.inr (Or.inl ⟨negative, before, start, by rw [nowhere]; rfl⟩))
    · exact Or.inr (Or.inr (Or.inr (Or.inl ⟨negative, inside, start, if_pos here,
        fun displaces => by cases displaces.1⟩)))
  | insert =>
    unfold start replaced
    by_cases last : number = -1
    · rw [if_pos last]
      exact Or.inr (Or.inr (Or.inr (Or.inr (Or.inl ⟨last, rfl, rfl⟩))))
    · rw [if_neg last]
      rcases placed with ⟨positive, inside, _, start⟩ | ⟨behind, _, start⟩ |
        ⟨negative, before, _, start⟩ | ⟨negative, inside, _, start⟩
      · exact Or.inl ⟨positive, inside, start, Nat.zero_le _⟩
      · exact Or.inr (Or.inl ⟨behind, start, rfl⟩)
      · exact Or.inr (Or.inr (Or.inl ⟨negative, before, start, rfl⟩))
      · exact Or.inr (Or.inr (Or.inr (Or.inr (Or.inr
          ⟨⟨rfl, by omega, inside⟩, start, rfl⟩))))

/-- Where the reader looks: for a displaced line it is the line behind the record, and else it is a
line of the record. -/
theorem getLineNum_after {own : Nat} (writing : Writing) (total : Nat) (some_lines : 0 < own)
    (nonzero : number ≠ 0) (defined : number ≠ intMin) :
    ∃ index : Nat, getLineNum (writing.start total number + (own +
          (total - (writing.start total number + writing.replaced total number)))) number =
        some ((index : Int) + 1) ∧
      (writing.Displaces total number → index = writing.start total number + own) ∧
      (¬writing.Displaces total number → writing.start total number ≤ index ∧
        index < writing.start total number + own ∧
        (own = 2 → (index = writing.start total number ↔ Near total number))) := by
  have placed := start_cases writing total nonzero
  have displaces : writing.Displaces total number → number ≤ -2 ∧ -number ≤ total := And.right
  generalize writing.start total number = start at placed ⊢
  generalize writing.replaced total number = replaced at placed ⊢
  unfold Near
  rw [getLineNum_eq _ nonzero defined]
  generalize counted : start + (own + (total - (start + replaced))) = after
  rcases placed with ⟨positive, inside, front, few⟩ | ⟨behind, rfl, rfl⟩ |
    ⟨negative, before, rfl, rfl⟩ | ⟨negative, inside, back, rfl, still⟩ | ⟨rfl, rfl, rfl⟩ |
    ⟨moved, back, rfl⟩
  · refine ⟨start, congrArg some ?_, fun moved => absurd (displaces moved) (by omega), fun _ =>
      ⟨Nat.le_refl _, by omega, fun _ => iff_of_true rfl (by omega)⟩⟩
    rw [if_pos positive]
    omega
  · refine ⟨(min number after - 1).toNat, congrArg some ?_,
      fun moved => absurd (displaces moved) (by omega), fun _ => ⟨by omega, by omega, ?_⟩⟩
    · rw [if_pos (by omega)]
      omega
    · intro two
      omega
  · refine ⟨(max 1 (after + number + 1) - 1).toNat, congrArg some ?_,
      fun moved => absurd (displaces moved) (by omega), fun _ => ⟨by omega, by omega, ?_⟩⟩
    · rw [if_neg (by omega)]
      omega
    · intro two
      omega
  · -- The last line of the record has the number of the line that it replaces.
    refine ⟨start + own - 1, congrArg some ?_, fun moved => absurd moved still, fun _ =>
      ⟨by omega, by omega, fun two => iff_of_false (by omega) (by omega)⟩⟩
    rw [if_neg (by omega)]
    omega
  · refine ⟨start + own - 1, congrArg some ?_, fun moved => absurd (displaces moved) (by omega),
      fun _ => ⟨by omega, by omega, fun two => iff_of_false (by omega) (by omega)⟩⟩
    rw [if_neg (by decide)]
    omega
  · -- Behind the record there are as many lines as there were behind its place.
    have bounds := displaces moved
    refine ⟨start + own, congrArg some ?_, fun _ => rfl, fun still => absurd moved still⟩
    rw [if_neg (by omega)]
    omega

/-- The reader takes the line it looks for. -/
theorem getRecord_flatten {lines : List Str} {index : Nat} {line : Str}
    (complete : ∀ line ∈ lines, Complete lineRoom line) (nonzero : number ≠ 0)
    (looked : getLineNum lines.length number = some ((index : Int) + 1))
    (found : lines[index]? = some line) (cs : Csv) :
    getRecord lines.flatten number cs = (rmEnter (printed line)).bind cs.parseString := by
  have counted : getTotalRecords lines.flatten = lines.length := by
    rw [getTotalRecords, records_flatten complete]
  have inside := (List.getElem?_eq_some_iff.mp found).1
  have place : ((index : Int) + 1 - 1).toNat = index := by omega
  rw [getRecord, if_neg nonzero, counted, if_neg (by omega), looked, Option.bind_some,
    if_neg (by omega), place, records_flatten complete, found, Option.bind_some]

/-- The record is read back exactly if the line that the reader looks for holds it. -/
theorem readsBack_iff_held {index : Nat} {line : Str} (nonzero : number ≠ 0)
    (defined : number ≠ intMin) (copied : writing.Copied file.lines number)
    (looked : getLineNum (writing.linesAfter record file number).length number =
      some ((index : Int) + 1))
    (found : (writing.linesAfter record file number)[index]? = some line) :
    writing.ReadsBack record file number ↔ record.HeldBy line := by
  have reads := @getRecord_flatten number _ index line linesAfter_complete nonzero looked found
  unfold ReadsBack FieldRecord.HeldBy
  rw [run_eq defined copied]
  constructor
  · rintro ⟨after, written, held⟩ cs
    rw [← Option.some.inj written] at held
    exact (reads cs).symm.trans (held cs)
  · exact fun held => ⟨_, rfl, fun cs => (reads cs).trans (held cs)⟩

/-- No line has the smallest number. -/
theorem not_read_intMin (record : FieldRecord) (file : Str) :
    getRecord file intMin Csv.create ≠ some (.ok (), record.csv) := by
  intro read
  rw [getRecord, if_neg (by decide)] at read
  split at read
  · have same := (Prod.mk.inj (Option.some.inj read)).2
    exact record.some_fields (same ▸ rfl)
  · have undefined : ∀ total, getLineNum total intMin = none := fun _ => rfl
    rw [undefined] at read
    cases read

theorem start_le (writing : Writing) (total : Nat) (nonzero : number ≠ 0) :
    writing.start total number ≤ total := by
  rcases start_cases writing total nonzero with placed | placed | placed | placed | placed |
    ⟨moved, placed⟩
  · omega
  · omega
  · omega
  · omega
  · omega
  · have negative := moved.2.1
    omega

theorem linesAfter_length (nonzero : number ≠ 0) :
    (writing.linesAfter record file number).length =
      writing.start file.lines.length number + (record.lines.length +
        (file.lines.length - (writing.start file.lines.length number +
          writing.replaced file.lines.length number))) := by
  rw [linesAfter, List.length_append, List.length_append, List.length_take, List.length_drop,
    Nat.min_eq_left (start_le writing _ nonzero)]

theorem Displaces.place {total : Nat} (moved : writing.Displaces total number) :
    ∃ index, place total number = some index := by
  cases found : Csvparser.place total number with
  | none =>
    have missing := place_none found
    obtain ⟨_, negative, inside⟩ := moved
    omega
  | some index => exact ⟨index, rfl⟩

/-- The line behind the record is the one that had the number. -/
theorem linesAfter_displaced {index : Nat} (moved : writing.Displaces file.lines.length number)
    (found : place file.lines.length number = some index) :
    writing.start file.lines.length number = index ∧
      (writing.linesAfter record file number)[index + record.lines.length]? =
        file.lines[index]? := by
  obtain ⟨rfl, negative, _⟩ := moved
  have inside := (place_some found).1
  have start : Writing.insert.start file.lines.length number = index := by
    show (if number = -1 then _ else (place file.lines.length number).getD _) = index
    rw [if_neg (by omega), found, Option.getD_some]
  have front : (file.lines.take index).length = index := by
    rw [List.length_take]
    exact Nat.min_eq_left inside.le
  refine ⟨start, ?_⟩
  rw [linesAfter, start, List.getElem?_append_right (by omega), front, Nat.add_sub_cancel_left,
    List.getElem?_append_right (Nat.le_refl _), Nat.sub_self, List.getElem?_drop]
  rfl

/-- A line of the record, with the lines of the record in front of it. -/
theorem linesAfter_own {index : Nat} (nonzero : number ≠ 0)
    (behind : writing.start file.lines.length number ≤ index)
    (before : index < writing.start file.lines.length number + record.lines.length) :
    ∃ front line back, record.lines = front ++ line :: back ∧
      index = writing.start file.lines.length number + front.length ∧
      (writing.linesAfter record file number)[index]? = some line := by
  have first : (file.lines.take (writing.start file.lines.length number)).length =
      writing.start file.lines.length number := by
    rw [List.length_take]
    exact Nat.min_eq_left (start_le writing _ nonzero)
  obtain ⟨offset, rfl⟩ := Nat.exists_eq_add_of_le behind
  have inside : offset < record.lines.length := by omega
  have length : (record.lines.take offset).length = offset := by
    rw [List.length_take]
    exact Nat.min_eq_left inside.le
  refine ⟨record.lines.take offset, record.lines[offset], record.lines.drop (offset + 1), ?_,
    by rw [length], ?_⟩
  · rw [List.getElem_cons_drop, List.take_append_drop]
  · rw [linesAfter, List.getElem?_append_right (by omega), first, Nat.add_sub_cancel_left,
      List.getElem?_append_left inside, List.getElem?_eq_getElem inside]

/-- A record that is written at a number is read back at the same number exactly if the number is
not the smallest one, and either the record is inserted in front of a line counted from the back
and that line holds the record already, or it is not, the fields are clean, and they have no line
feed, or one at their end and a number that is near. -/
theorem reads_back_iff (writing : Writing) (record : FieldRecord) (file : TextFile) (number : Int)
    (nonzero : number ≠ 0) (copied : writing.Copied file.lines number) :
    writing.ReadsBack record file number ↔ writing.Reads record file number := by
  by_cases smallest : number = intMin
  · rw [smallest]
    refine iff_of_false ?_ fun reads => reads.defined rfl
    rintro ⟨after, _, held⟩
    exact not_read_intMin record after (held Csv.create)
  · have some_lines : 0 < record.lines.length := record.lines_pos
    obtain ⟨index, looked, displaced, itself⟩ :=
      @getLineNum_after number record.lines.length writing file.lines.length some_lines nonzero
        smallest
    rw [← linesAfter_length nonzero] at looked
    by_cases moved : writing.Displaces file.lines.length number
    · -- The reader takes the line that was displaced.
      obtain ⟨spot, found⟩ := moved.place
      obtain ⟨start, same⟩ := @linesAfter_displaced writing record file number spot moved found
      have inside := (place_some found).1
      have there := displaced moved
      rw [start] at there
      rw [← there, List.getElem?_eq_getElem inside] at same
      rw [readsBack_iff_held nonzero smallest copied looked same]
      constructor
      · intro held
        exact ⟨smallest, fun _ => ⟨spot, _, found, List.getElem?_eq_getElem inside, held⟩,
          fun still => absurd moved still⟩
      · intro reads
        obtain ⟨other, line, again, has, held⟩ := reads.displaced moved
        rw [found] at again
        cases again
        rw [List.getElem?_eq_getElem inside] at has
        cases has
        exact held
    · -- The reader takes a line of the record.
      obtain ⟨behind, before, near⟩ := itself moved
      obtain ⟨front, line, back, split, rfl, found⟩ := linesAfter_own nonzero behind before
      rw [readsBack_iff_held nonzero smallest copied looked found, record.heldBy_line_iff split]
      have first : record.EndsInFeed → (front = [] ↔ Near file.lines.length number) := by
        intro ends
        have two : record.lines.length = 2 := by
          rw [record.lines_of_endsInFeed ends]
          rfl
        rw [← near two, Nat.add_eq_left, List.length_eq_zero_iff]
      constructor
      · rintro ⟨clean, one | ⟨empty, ends⟩⟩
        · exact ⟨smallest, fun displaces => absurd displaces moved, fun _ => ⟨clean, Or.inl one⟩⟩
        · exact ⟨smallest, fun displaces => absurd displaces moved,
            fun _ => ⟨clean, Or.inr ⟨ends, (first ends).mp empty⟩⟩⟩
      · intro reads
        obtain ⟨clean, one | ⟨ends, close⟩⟩ := reads.itself moved
        · exact ⟨clean, Or.inl one⟩
        · exact ⟨clean, Or.inr ⟨(first ends).mpr close, ends⟩⟩

/-- A record of the one field `a`. -/
def oneField : FieldRecord where
  toRecord := Edit.oneLine
  nonempty := by decide
  strings := by decide
  others := fun _ behind => List.getD_eq_default _ _ behind

/-- A file of the records `x` and `y`. -/
def twoRecords : TextFile where
  lines := [[120, 13, 10], [121, 13, 10]]
  complete := by
    intro line member
    rcases List.mem_cons.mp member with rfl | member
    · exact ⟨[120, 13], rfl, by decide, by decide⟩
    · rw [List.mem_singleton.mp member]
      exact ⟨[121, 13], rfl, by decide, by decide⟩

theorem twoRecords_copied (writing : Writing) (number : Int) :
    writing.Copied twoRecords.lines number := by
  have noZero : ∀ line ∈ twoRecords.lines, 0 ∉ line := by decide
  cases writing with
  | set => exact fun index _ line member => noZero line (List.mem_of_mem_eraseIdx member)
  | insert => exact fun _ _ _ => noZero

theorem oneField_oneLine : oneField.OneLine := by
  unfold Record.OneLine
  decide

theorem reads_back_iff_last :
    (-1 : Int) ≠ 0 ∧ Writing.insert.Copied twoRecords.lines (-1) ∧
      Writing.insert.ReadsBack oneField twoRecords (-1) := by
  have copied := twoRecords_copied .insert (-1)
  have clean : oneField.Clean := by
    unfold FieldRecord.Clean
    decide
  refine ⟨by decide, copied, (reads_back_iff .insert oneField twoRecords (-1) (by decide)
    copied).mpr ⟨by decide, fun moved => absurd moved.2.1 (by decide), fun _ =>
      ⟨clean, Or.inl oneField_oneLine⟩⟩⟩

/-- The record `a` is inserted in front of the last record but one, and `x` is read back. -/
theorem displaced_read_back :
    Writing.insert.Copied twoRecords.lines (-2) ∧
      ¬Writing.insert.ReadsBack oneField twoRecords (-2) := by
  refine ⟨twoRecords_copied .insert (-2), fun reads => ?_⟩
  have after : Writing.insert.linesAfter oneField twoRecords (-2) =
      [[97, 13, 10], [120, 13, 10], [121, 13, 10]] := by
    rw [linesAfter, oneField.lines_of_oneLine oneField_oneLine]
    rfl
  have held := (@readsBack_iff_held .insert oneField twoRecords (-2) 1 [120, 13, 10] (by decide)
    (by decide) (twoRecords_copied _ _) (by rw [after]; rfl) (by rw [after]; rfl)).mp reads
  have parsed : (rmEnter (printed [120, 13, 10])).bind Csv.create.parseString =
      some (.ok (), Csv.ofRows [⟨[120], by decide⟩]) := by rfl
  rw [held Csv.create] at parsed
  have fields : oneField.csv.getStr 1 [] = [120] := by
    rw [(Prod.mk.inj (Option.some.inj parsed)).2]
    rfl
  exact absurd fields (by decide)

end Writing

end ExmOnvif.Csvparser
