/-
This file models the records of the library for comma separated values, and proves
when the fields of a record come back from its text.

A record keeps fifty rows of a hundred bytes. The parser puts a comma in front of the
text as a mark and takes what stands behind each comma as a field; the formatter puts
a comma behind each field and a line end in place of the last one. A write past the
end of a row and a read in front of a string have no result.
-/

import ExmOnvif.Library.Bytes
import ExmOnvif.Library.Text
import Mathlib.Data.List.GetD

namespace ExmOnvif.Csvparser

open Library

/-! ### The library -/

/-- `MAX_ATOM_NUM`. -/
def maxAtomNum : Nat := 50

/-- `MAX_ATOM_LEN`. -/
def maxAtomLen : Nat := 100

/-- The error codes of records, negated. -/
inductive CsvErr where
  | noMem
  | paraErr
  | parserErr
deriving DecidableEq, Repr

/-- A row of `csv_buf`: a string with room for its terminator. -/
@[ext]
structure Row where
  text : Str
  short : text.length < maxAtomLen
deriving DecidableEq, Repr

/-- A row of zeros. -/
def Row.blank : Row := ⟨[], by decide⟩

/-- `CSV_ST`. What `csv_str` holds between two calls is not used. -/
structure Csv where
  atomNum : Nat
  csvBuf : Fin maxAtomNum → Row

/-- The spaces at the end, at most `turns` of them. -/
def rmTrailing : Nat → Str → Str
  | 0, buf => buf
  | turns + 1, buf => if buf.getLast? = some 32 then rmTrailing turns buf.dropLast else buf

/-- The spaces at the beginning. -/
def rmLeading : Nat → Str → Str
  | 0, buf => buf
  | turns + 1, buf => if buf.head? = some 32 then rmLeading turns buf.tail else buf

theorem rmTrailing_length (turns : Nat) (buf : Str) :
    (rmTrailing turns buf).length ≤ buf.length := by
  induction turns generalizing buf with
  | zero => exact Nat.le_refl _
  | succ turns inductionHypothesis =>
    rw [rmTrailing]
    split
    · refine (inductionHypothesis _).trans ?_
      rw [List.length_dropLast]
      exact Nat.sub_le _ _
    · exact Nat.le_refl _

theorem rmLeading_length (turns : Nat) (buf : Str) :
    (rmLeading turns buf).length ≤ buf.length := by
  induction turns generalizing buf with
  | zero => exact Nat.le_refl _
  | succ turns inductionHypothesis =>
    rw [rmLeading]
    split
    · refine (inductionHypothesis _).trans ?_
      rw [List.length_tail]
      exact Nat.sub_le _ _
    · exact Nat.le_refl _

/-- `csv_rm_unused_space`. A row is shorter than its buffers. -/
def rmUnusedSpace (para : Row) : Row where
  text := rmLeading para.text.length (rmTrailing para.text.length para.text)
  short := ((rmLeading_length _ _).trans (rmTrailing_length _ _)).trans_lt para.short

/-- `csv_rm_enter`. -/
def rmEnter (para : Str) : Option Str :=
  match para.reverse with
  | [] => none
  | [last] => if last = 10 then none else some para
  | last :: before :: rest => if last = 10 ∧ before = 13 then some rest.reverse else some para

namespace Csv

/-- `csv_create`. -/
def create : Csv := ⟨0, fun _ => Row.blank⟩

/-- `csv_set_str`. A value of a hundred bytes leaves no room for the terminator. -/
def setStr (cs : Csv) (no : Int) (value : Str) : Option (Except CsvErr Csv) :=
  if inside : 0 < no ∧ no ≤ maxAtomNum ∧ value.length ≤ maxAtomLen then
    if short : value.length < maxAtomLen then
      let index : Fin maxAtomNum := ⟨(no - 1).toNat, by omega⟩
      -- A row with no text counts as a new one, whether it was set before or not.
      let atomNum := if (cs.csvBuf index).text = [] then cs.atomNum + 1 else cs.atomNum
      some (.ok ⟨atomNum, fun at_ =>
        if at_ = index then rmUnusedSpace ⟨value, short⟩ else cs.csvBuf at_⟩)
    else none
  else some (.error .paraErr)

/-- `csv_get_str`. -/
def getStr (cs : Csv) (no : Int) (defVal : Str) : Str :=
  if inside : 0 < no ∧ no ≤ maxAtomNum then
    let row := (cs.csvBuf ⟨(no - 1).toNat, by omega⟩).text
    if row = [] then defVal else row
  else defVal

/-- `csv_get_var_num`. -/
def getVarNum (cs : Csv) : Nat := cs.atomNum

/-- The rows in use. -/
def used (cs : Csv) : List Row := (List.ofFn cs.csvBuf).take cs.atomNum

/-- `csv_get_string`. With no field it changes the byte in front of `csv_str`. -/
def getString (cs : Csv) : Option Str :=
  if cs.atomNum ≤ maxAtomNum then
    let csvStr := cs.used.flatMap fun row => row.text ++ [44]
    match csvStr.getLast? with
    | none => none
    | some last =>
      if last ≠ 10 ∧ last ≠ 13 then some (csvStr.dropLast ++ [13, 10]) else some csvStr
  else none

/-- The loop of `csv_parse_string`. -/
def parseLoop : Nat → Str → List Row → Option (Except CsvErr (List Row))
  | 0, _, rows => some (.ok rows)
  | turns + 1, index, rows =>
    match strstr [44] index with
    | none => some (if rows = [] then .error .parserErr else .ok rows)
    | some p =>
      let field :=
        match strstr [44] p.tail with
        | some s => p.tail.take (p.tail.length - s.length)
        | none => p.tail
      if short : field.length < maxAtomLen then parseLoop turns p.tail (rows ++ [⟨field, short⟩])
      else none

/-- A structure whose first rows are given and whose other rows are blank. -/
def ofRows (rows : List Row) : Csv := ⟨rows.length, fun index => rows.getD index Row.blank⟩

/-- `csv_parse_string`: what it returns, and the structure. -/
def parseString (cs : Csv) (str : Str) : Option (Except CsvErr Unit × Csv) :=
  if maxAtomLen * maxAtomNum + 1 < str.length then some (.error .noMem, cs)
  else
    let csvStr := if str.head? = some 44 then str else 44 :: str
    (parseLoop maxAtomNum csvStr []).map fun
      | .error error => (.error error, create)
      | .ok rows => (.ok (), ofRows (rows.map rmUnusedSpace))

/-! ### Fields -/

/-- The text of some fields with commas between them. -/
def joined (rows : List Row) : Str := List.intercalate [44] (rows.map Row.text)

/-- A field as a record keeps it: no comma and no line end, and no space at either end. -/
structure Plain (row : Row) : Prop where
  noComma : 44 ∉ row.text
  noReturn : 13 ∉ row.text
  noFeed : 10 ∉ row.text
  noLeading : row.text.head? ≠ some 32
  noTrailing : row.text.getLast? ≠ some 32

/-- The fields of a record, from one to fifty. They may be empty, but for the last one. -/
structure Fields where
  rows : List Row
  few : rows.length ≤ maxAtomNum
  plain : ∀ row ∈ rows, Plain row
  ends : ∃ last, rows.getLast? = some last ∧ last.text ≠ []

/-- The structure holds these fields, as many as they are and each at its place. -/
def Holds (cs : Csv) (rows : List Row) : Prop :=
  cs.getVarNum = rows.length ∧
    ∀ index, ∀ inside : index < rows.length, cs.getStr (index + 1) [] = rows[index].text

/-- The fields come back from their text, and from the text of the structure they were parsed
into. The second text is parsed into a structure of its own. -/
def RoundTrip (fields : Fields) : Prop :=
  ∀ blank other : Csv, ∃ cs text line again,
    blank.parseString (joined fields.rows) = some (.ok (), cs) ∧ cs.Holds fields.rows ∧
    cs.getString = some text ∧ rmEnter text = some line ∧
    other.parseString line = some (.ok (), again) ∧ again.Holds fields.rows

theorem Fields.some_rows (fields : Fields) : fields.rows ≠ [] := by
  intro empty
  obtain ⟨last, found, _⟩ := fields.ends
  rw [empty] at found
  cases found

section Fields

variable {row next : Row} {rows front : List Row}

theorem joined_cons_cons (row next : Row) (rows : List Row) :
    joined (row :: next :: rows) = row.text ++ 44 :: joined (next :: rows) := by
  simp only [joined, List.map_cons, List.intercalate_cons_cons, List.append_assoc,
    List.singleton_append]

theorem joined_singleton (row : Row) : joined [row] = row.text := by
  simp only [joined, List.map_cons, List.map_nil, List.intercalate_singleton]

/-- The text is not longer than its rows. -/
theorem joined_length (rows : List Row) : (joined rows).length ≤ maxAtomLen * rows.length := by
  induction rows with
  | nil => exact Nat.zero_le _
  | cons row rows inductionHypothesis =>
    have short := row.short
    cases rows with
    | nil =>
      rw [joined_singleton, List.length_singleton]
      omega
    | cons next rows =>
      simp only [joined_cons_cons, List.length_append, List.length_cons] at inductionHypothesis ⊢
      simp only [maxAtomLen] at *
      omega

theorem strstr_comma (rest : Str) : strstr [44] (44 :: rest) = some (44 :: rest) :=
  strstr_here (List.prefix_append [44] rest)

/-- A field is cut off at the comma behind it. -/
theorem strstr_field {text rest : Str} (noComma : 44 ∉ text) :
    strstr [44] (text ++ 44 :: rest) = some (44 :: rest) := by
  rw [strstr_skip (List.cons_ne_nil _ _), strstr_comma]
  intro value member comma
  rw [List.mem_singleton.mp comma] at member
  exact noComma member

theorem strstr_last {text : Str} (noComma : 44 ∉ text) : strstr [44] text = none := by
  refine strstr_none (List.cons_ne_nil _ _) fun value member comma => noComma ?_
  rw [List.mem_singleton.mp comma] at member
  exact member

/-- The loop ends where there is no further comma. -/
theorem parseLoop_end {turns : Nat} {text : Str} (noComma : 44 ∉ text) (nonempty : front ≠ []) :
    parseLoop turns text front = some (.ok front) := by
  cases turns with
  | zero => rw [parseLoop]
  | succ turns =>
    rw [parseLoop, strstr_last noComma]
    simp only [if_neg nonempty]

/-- What stands in front of a comma is passed. -/
theorem parseLoop_skip {turns : Nat} {text rest : Str} (noComma : 44 ∉ text) :
    parseLoop turns (text ++ 44 :: rest) front = parseLoop turns (44 :: rest) front := by
  cases turns with
  | zero => rw [parseLoop, parseLoop]
  | succ turns => rw [parseLoop, parseLoop, strstr_field noComma, strstr_comma]

/-- A turn at a comma with another comma behind it. -/
theorem parseLoop_field {turns : Nat} {rest : Str} (noComma : 44 ∉ row.text) :
    parseLoop (turns + 1) (44 :: (row.text ++ 44 :: rest)) front =
      parseLoop turns (row.text ++ 44 :: rest) (front ++ [row]) := by
  have taken : (row.text ++ 44 :: rest).take
      ((row.text ++ 44 :: rest).length - (44 :: rest).length) = row.text := by
    rw [List.length_append, Nat.add_sub_cancel, List.take_left]
  rw [parseLoop, strstr_comma]
  simp only [List.tail_cons, strstr_field noComma, taken, row.short, dite_true]

/-- The turn at the last comma. -/
theorem parseLoop_last {turns : Nat} (noComma : 44 ∉ row.text) :
    parseLoop (turns + 1) (44 :: row.text) front = some (.ok (front ++ [row])) := by
  rw [parseLoop, strstr_comma]
  simp only [List.tail_cons, strstr_last noComma, row.short, dite_true]
  exact parseLoop_end noComma (List.append_ne_nil_of_right_ne_nil _ (List.cons_ne_nil _ _))

/-- The loop takes the fields behind the commas one by one. -/
theorem parseLoop_joined {turns : Nat} (nonempty : rows ≠ []) (few : rows.length ≤ turns)
    (noComma : ∀ row ∈ rows, 44 ∉ row.text) :
    parseLoop turns (44 :: joined rows) front = some (.ok (front ++ rows)) := by
  induction rows generalizing turns front with
  | nil => exact absurd rfl nonempty
  | cons row rows inductionHypothesis =>
    rw [List.length_cons] at few
    obtain ⟨turns, rfl⟩ : ∃ left, turns = left + 1 := ⟨turns - 1, by omega⟩
    have clear := noComma row List.mem_cons_self
    cases rows with
    | nil => rw [joined_singleton, parseLoop_last clear]
    | cons next rows =>
      rw [joined_cons_cons, parseLoop_field clear, parseLoop_skip clear,
        inductionHypothesis (List.cons_ne_nil _ _) (Nat.le_of_succ_le_succ few)
          fun other member => noComma other (List.mem_cons_of_mem _ member),
        List.append_assoc, List.singleton_append]

theorem rmUnusedSpace_plain (plain : Plain row) : rmUnusedSpace row = row := by
  have trailing : ∀ turns, rmTrailing turns row.text = row.text := by
    intro turns
    cases turns with
    | zero => rfl
    | succ turns => rw [rmTrailing, if_neg plain.noTrailing]
  have leading : ∀ turns, rmLeading turns row.text = row.text := by
    intro turns
    cases turns with
    | zero => rfl
    | succ turns => rw [rmLeading, if_neg plain.noLeading]
  refine Row.ext ?_
  calc (rmUnusedSpace row).text
      = rmLeading row.text.length (rmTrailing row.text.length row.text) := rfl
    _ = row.text := by rw [trailing, leading]

/-- The text of some fields behind the mark comma is parsed into these fields. -/
theorem parse_marked {text : Str} (cs : Csv) (nonempty : rows ≠ [])
    (few : rows.length ≤ maxAtomNum) (plain : ∀ row ∈ rows, Plain row)
    (short : text.length ≤ maxAtomLen * maxAtomNum + 1)
    (marked : (if text.head? = some 44 then text else 44 :: text) = 44 :: joined rows) :
    cs.parseString text = some (.ok (), ofRows rows) := by
  have same : rows.map rmUnusedSpace = rows :=
    (List.map_congr_left fun row member => rmUnusedSpace_plain (plain row member)).trans
      (List.map_id' rows)
  rw [parseString, if_neg (Nat.not_lt.mpr short)]
  simp only [marked]
  rw [parseLoop_joined nonempty few fun row member => (plain row member).noComma]
  simp only [Option.map_some, List.nil_append, same]

/-- The rows of a structure that was made of them. -/
theorem ofRows_used (few : rows.length ≤ maxAtomNum) : (ofRows rows).used = rows := by
  unfold used
  refine List.ext_getElem ?_ fun index _ inside => ?_
  · rw [List.length_take, List.length_ofFn]
    exact Nat.min_eq_left few
  · rw [List.getElem_take, List.getElem_ofFn]
    exact List.getD_eq_getElem _ _ inside

theorem ofRows_holds (few : rows.length ≤ maxAtomNum) : (ofRows rows).Holds rows := by
  refine ⟨rfl, fun index inside => ?_⟩
  have within : (0 : Int) < index + 1 ∧ (index : Int) + 1 ≤ maxAtomNum := by omega
  have place : ((index : Int) + 1 - 1).toNat = index := by omega
  unfold getStr
  rw [dif_pos within]
  simp only [ofRows, place, List.getD_eq_getElem _ _ inside]
  split
  · rename_i empty
    exact empty.symm
  · rfl

/-- A comma behind each field is the text and one more comma. -/
theorem flatMap_comma (nonempty : rows ≠ []) :
    rows.flatMap (fun row => row.text ++ [44]) = joined rows ++ [44] := by
  induction rows with
  | nil => exact absurd rfl nonempty
  | cons row rows inductionHypothesis =>
    cases rows with
    | nil => simp [joined_singleton]
    | cons next rows =>
      rw [List.flatMap_cons, inductionHypothesis (List.cons_ne_nil _ _), joined_cons_cons]
      simp

/-- The formatter ends the text with a line end. -/
theorem getString_eq {cs : Csv} (few : cs.atomNum ≤ maxAtomNum) (nonempty : cs.used ≠ []) :
    cs.getString = some (joined cs.used ++ [13, 10]) := by
  rw [getString, if_pos few, flatMap_comma nonempty]
  simp

theorem getString_some {cs : Csv} {text : Str} (formatted : cs.getString = some text) :
    text = joined cs.used ++ [13, 10] := by
  by_cases few : cs.atomNum ≤ maxAtomNum
  · by_cases empty : cs.used = []
    · rw [getString, if_pos few, empty] at formatted
      cases formatted
    · rw [getString_eq few empty] at formatted
      exact (Option.some.inj formatted).symm
  · rw [getString, if_neg few] at formatted
    cases formatted

/-- What is in the text of some fields, but for the commas, is in one of the fields. -/
theorem mem_joined {byte : UInt8} (other : byte ≠ 44) (rows : List Row) :
    byte ∈ joined rows ↔ ∃ row ∈ rows, byte ∈ row.text := by
  induction rows with
  | nil => simp [joined]
  | cons row rows inductionHypothesis =>
    cases rows with
    | nil => simp [joined_singleton]
    | cons next rows =>
      rw [joined_cons_cons, List.mem_append, List.mem_cons, inductionHypothesis]
      simp [other]

theorem getString_ofRows (nonempty : rows ≠ []) (few : rows.length ≤ maxAtomNum) :
    (ofRows rows).getString = some (joined rows ++ [13, 10]) := by
  have same := ofRows_used few
  have some_used : (ofRows rows).used ≠ [] := by rwa [same]
  rw [getString_eq few some_used, same]

theorem rmEnter_line (text : Str) : rmEnter (text ++ [13, 10]) = some text := by
  simp [rmEnter]

/-- A text that does not begin with a comma gets its mark. -/
theorem marked_of_first (first : ∀ row ∈ rows.head?, row.text ≠ [])
    (noComma : ∀ row ∈ rows, 44 ∉ row.text) :
    (if (joined rows).head? = some 44 then joined rows else 44 :: joined rows) =
      44 :: joined rows := by
  refine if_neg fun comma => ?_
  cases rows with
  | nil => cases comma
  | cons row rows =>
    have nonempty := first row rfl
    have begins : (joined (row :: rows)).head? = row.text.head? := by
      cases rows with
      | nil => rw [joined_singleton]
      | cons next rows =>
        rw [joined_cons_cons, List.head?_append_of_ne_nil _ nonempty]
    rw [begins] at comma
    exact noComma row List.mem_cons_self (List.mem_of_mem_head? comma)

end Fields

/-! ### The round trip -/

variable {fields : Fields}

theorem Fields.joined_short (fields : Fields) :
    (joined fields.rows).length ≤ maxAtomLen * maxAtomNum + 1 :=
  ((joined_length _).trans (Nat.mul_le_mul_left _ fields.few)).trans (Nat.le_succ _)

/-- With a first field that is not empty the fields come back. -/
theorem Fields.roundTrip (first : ∀ row ∈ fields.rows.head?, row.text ≠ []) :
    RoundTrip fields := by
  have marked := marked_of_first first fun row member => (fields.plain row member).noComma
  have parsed : ∀ cs : Csv,
      cs.parseString (joined fields.rows) = some (.ok (), ofRows fields.rows) := fun cs =>
    parse_marked cs fields.some_rows fields.few fields.plain fields.joined_short marked
  have holds := ofRows_holds fields.few
  exact fun blank other => ⟨_, _, _, _, parsed blank, holds,
    getString_ofRows fields.some_rows fields.few, rmEnter_line _, parsed other, holds⟩

/-- An empty first field leaves its comma at the front, where it is taken for the mark: one field
is lost. -/
theorem Fields.first_lost {row : Row} {rows : List Row} (split : fields.rows = row :: rows)
    (empty : row.text = []) (cs : Csv) :
    cs.parseString (joined fields.rows) = some (.ok (), ofRows rows) := by
  cases rows with
  | nil =>
    obtain ⟨last, found, nonempty⟩ := fields.ends
    rw [split, List.getLast?_singleton] at found
    exact absurd ((Option.some.inj found) ▸ empty) nonempty
  | cons next rows =>
    have few := fields.few
    have text : joined fields.rows = 44 :: joined (next :: rows) := by
      rw [split, joined_cons_cons, empty, List.nil_append]
    refine parse_marked cs (List.cons_ne_nil _ _) ?_ (fun other member => ?_)
      fields.joined_short ?_
    · rw [split, List.length_cons] at few
      exact (Nat.le_succ _).trans few
    · exact fields.plain other (split ▸ List.mem_cons_of_mem _ member)
    · rw [text]
      exact if_pos rfl

/-- The fields of a record come back from its text exactly if the first field is not empty. -/
theorem record_round_trip_iff (fields : Fields) :
    RoundTrip fields ↔ ∀ row ∈ fields.rows.head?, row.text ≠ [] := by
  refine ⟨fun trip row member empty => ?_, Fields.roundTrip⟩
  obtain ⟨rows, split⟩ : ∃ rows, fields.rows = row :: rows := by
    cases fieldRows : fields.rows with
    | nil => rw [fieldRows] at member; cases member
    | cons first rows =>
      rw [fieldRows] at member
      cases member
      exact ⟨rows, rfl⟩
  obtain ⟨cs, _, _, _, parsed, ⟨counted, _⟩, _⟩ := trip create create
  rw [Fields.first_lost split empty] at parsed
  cases parsed
  rw [split, List.length_cons] at counted
  exact absurd counted (Nat.ne_of_lt (Nat.lt_succ_self _))

/-- The field `a`. -/
def letter : Row := ⟨[97], by decide⟩

/-- An empty field and the field `a`. -/
def emptyFirst : Fields where
  rows := [Row.blank, letter]
  few := by decide
  plain := by
    intro row member
    rcases List.mem_cons.mp member with rfl | member
    · exact ⟨by decide, by decide, by decide, by decide, by decide⟩
    · rw [List.mem_singleton.mp member]
      exact ⟨by decide, by decide, by decide, by decide, by decide⟩
  ends := ⟨letter, rfl, by decide⟩

/-- The text `,a` is parsed into the one field `a`. -/
theorem empty_first_field_lost :
    (∃ cs, create.parseString (joined emptyFirst.rows) = some (.ok (), cs) ∧
      cs.getVarNum = 1 ∧ cs.getStr 1 [] = [97]) ∧ ¬RoundTrip emptyFirst := by
  have parsed : create.parseString (joined emptyFirst.rows) =
      some (.ok (), ofRows [letter]) := by rfl
  refine ⟨⟨_, parsed, rfl, by decide⟩, fun trip => ?_⟩
  obtain ⟨cs, _, _, _, again, ⟨counted, _⟩, _⟩ := trip create create
  rw [parsed] at again
  cases again
  exact absurd counted (by decide)

end Csv

end ExmOnvif.Csvparser
