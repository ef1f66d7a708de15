/-
This file proves which names of files are read right, with their fields in any order, in
capital or in small letters, and with other fields between them.

The letters of the fields are known in both forms. The digits of the alarms are put into
capitals too, but the test for a digit above nine is made with the one from before, so
that the small ones count for seven too much. Besides, a number has to be one of the
machine, and the partition, which is copied from the front of the name up to the first
place that looks like the name of a disk, must have room.
-/

import ExmOnvif.HdModule.FileName

namespace ExmOnvif.HdModule

open Library

/-! ### Fields -/

/-- The fields that are known. -/
inductive Field where
  | channel
  | stime
  | len
  | trig
deriving DecidableEq, Repr

namespace Field

/-- The letter of a field, as a capital or not. -/
def letter : Field → Bool → Char
  | .channel, true => 'C'
  | .channel, false => 'c'
  | .stime, true => 'D'
  | .stime, false => 'd'
  | .len, true => 'L'
  | .len, false => 'l'
  | .trig, true => 'T'
  | .trig, false => 't'

/-- What is known of a file by its fields. -/
def get (info : FileInfo) : Field → Int
  | .channel => info.channel
  | .stime => info.stime
  | .len => info.len
  | .trig => info.trig

/-- The file information with another value. -/
def set (info : FileInfo) (value : Int) : Field → FileInfo
  | .channel => { info with channel := value }
  | .stime => { info with stime := value }
  | .len => { info with len := value }
  | .trig => { info with trig := value }

end Field

/-- The value of a hexadecimal digit, small or capital. -/
def hexDigit (char : Char) : Int :=
  if char.isDigit then char.toNat - 48 else (char.toUpper.toNat : Int) - 55

/-- A hexadecimal digit. -/
def IsHex (char : Char) : Prop := char ∈ ['0', '1', '2', '3', '4', '5', '6', '7', '8', '9', 'A',
  'B', 'C', 'D', 'E', 'F', 'a', 'b', 'c', 'd', 'e', 'f']

/-- A small letter. -/
def IsSmall (char : Char) : Prop := char ∈ ['a', 'b', 'c', 'd', 'e', 'f']

instance (char : Char) : Decidable (IsHex char) := inferInstanceAs (Decidable (_ ∈ _))

instance (char : Char) : Decidable (IsSmall char) := inferInstanceAs (Decidable (_ ∈ _))

/-- The digits that a field can have: a time has fourteen and the alarms up to four. -/
def Field.Digits (text : Text) : Field → Prop
  | .channel => ∀ char ∈ text, char.isDigit = true
  | .stime => (∀ char ∈ text, char.isDigit = true) ∧ 14 ≤ text.length
  | .len => ∀ char ∈ text, char.isDigit = true
  | .trig => (∀ char ∈ text, IsHex char) ∧ 1 ≤ text.length ∧ text.length ≤ 4

section Values

variable (mktime : Tm → Int)

/-- The value of a field. -/
def Field.value (text : Text) : Field → Int
  | .channel => numeral 10 decimalDigit text
  | .stime => mktime (readStamp text)
  | .len => numeral 10 decimalDigit text
  | .trig => numeral 16 hexDigit text

/-- What the reader makes of it. -/
def Field.read (text : Text) : Field → Int
  | .channel => numeral 10 decimalDigit text
  | .stime => mktime (readStamp text)
  | .len => numeral 10 decimalDigit text
  | .trig => readTrig text

/-- The value is one of the machine. -/
def Field.Fits (text : Text) : Field → Prop
  | .channel => numeral 10 decimalDigit text < 2 ^ 31
  | .stime => True
  | .len => numeral 10 decimalDigit text < 2 ^ 31
  | .trig => True

end Values

/-- A field behind its underscore: one that is known, with what follows its digits, or another
one. -/
inductive Piece where
  | known (field : Field) (capital : Bool) (digits tail : Text)
  | other (text : Text)

namespace Piece

/-- The text of a field. -/
def text : Piece → Text
  | .known field capital digits tail => field.letter capital :: (digits ++ tail)
  | .other text => text

/-- What follows the digits is none of them, and what is not known does not begin like what is. -/
def Proper : Piece → Prop
  | .known field _ digits tail => field.Digits digits ∧ ∀ char ∈ tail.head?, char.isAlphanum = false
  | .other text => ∀ char ∈ text.head?, ∀ (field : Field) (capital : Bool),
      char ≠ field.letter capital

/-- The digits of a field, if it is the one that is asked for. -/
def digits (field : Field) : Piece → Option Text
  | .known own _ digits _ => if own = field then some digits else none
  | .other _ => none

end Piece

/-- A name: what stands in front of the first underscore, and the fields. -/
def nameOf (front : Text) (pieces : List Piece) : Text :=
  front ++ pieces.flatMap fun piece => '_' :: piece.text

/-- The digits of the last field with a letter. -/
def lastDigits (field : Field) (pieces : List Piece) : Option Text :=
  (pieces.filterMap (Piece.digits field)).getLast?

/-- The name is read, and the value of each field is stored; of fields with one letter it is that
of the last one. -/
def StoresFields (mktime : Tm → Int) (front : Text) (pieces : List Piece) (info : FileInfo) :
    Prop :=
  ∃ next, filename2finfo mktime (nameOf front pieces) info = some (0, next) ∧
    ∀ field digits, lastDigits field pieces = some digits →
      field.get next = field.value mktime digits ∧ field.Fits digits

/-- The first name of a disk is near the front, the alarms have no small digits, and the numbers
are those of the machine. -/
structure ReadRight (front : Text) (pieces : List Piece) : Prop where
  partition : ∀ found, strstr ['s', 'd'] (nameOf front pieces) = some found →
    (nameOf front pieces).length ≤ found.length + 12
  capital : ∀ digits, lastDigits .trig pieces = some digits → ∀ char ∈ digits, ¬IsSmall char
  fits : ∀ field digits, lastDigits field pieces = some digits → field.Fits digits

/-- A text that belongs to a name between two underscores. -/
def Within (text : Text) : Prop := ∀ char ∈ text, char ≠ '_' ∧ char ≠ '\n'

instance (text : Text) : Decidable (Within text) := List.decidableBAll _ text

/-! ### Reading one field -/

section Fields

variable {mktime : Tm → Int} {info : FileInfo} {text rest : Text}

/-- What stands between two underscores is read as one field. -/
theorem scan_piece (within : Within text) (next : ∀ char ∈ rest.head?, char = '_')
    (short : (text ++ rest).length ≤ 100) :
    scan mktime false ('_' :: (text ++ rest)) info =
      match readField mktime (text ++ rest) info with
      | none => none
      | some next => scan mktime false rest next := by
  have stays : rest.dropWhile Char.isAlphanum = rest := by
    cases rest with
    | nil => rfl
    | cons char rest =>
      refine List.dropWhile_cons_of_neg ?_
      rw [next char rfl]
      decide
  have behind : ∀ info, scan mktime false ((text ++ rest).dropWhile Char.isAlphanum) info =
      scan mktime false rest info := by
    intro info
    rw [List.dropWhile_append]
    split
    · rw [stays]
    · refine scan_skip fun char member => within char ?_
      exact (List.dropWhile_sublist _).subset member
  rw [scan, if_neg (by decide), if_pos rfl, decide_eq_true rfl]
  cases whole : text ++ rest with
  | nil =>
    obtain ⟨rfl, rfl⟩ := List.append_eq_nil_iff.mp whole
    rw [scan, readField]
    simp only [List.takeWhile_nil]
    rw [scan]
  | cons char others =>
    have line : char ≠ '\n' := by
      cases text with
      | nil =>
        rw [next char (by rw [List.nil_append] at whole; rw [whole]; rfl)]
        decide
      | cons first text =>
        obtain ⟨rfl, _⟩ := List.cons.inj whole
        exact (within first List.mem_cons_self).2
    rw [whole] at short behind
    rw [scan, if_neg line, if_neg Bool.noConfusion, if_neg (Nat.not_lt.mpr short)]
    cases readField mktime (char :: others) info with
    | none => rfl
    | some next => exact behind next

/-- Only the first fourteen digits of a time are read. -/
theorem readStamp_append (long : 14 ≤ text.length) :
    readStamp (text ++ rest) = readStamp text := by
  have part : ∀ start count, start + count ≤ 14 →
      ((text ++ rest).drop start).take count = (text.drop start).take count := by
    intro start count fits
    rw [List.drop_append_of_le_length (by omega), List.take_append_of_le_length]
    rw [List.length_drop]
    omega
  have year : (text ++ rest).take 4 = text.take 4 := part 0 4 (by decide)
  unfold readStamp
  rw [year, part 4 2 (by decide), part 6 2 (by decide), part 8 2 (by decide),
    part 10 2 (by decide), part 12 2 (by decide)]

theorem isAlphanum_letter (field : Field) (capital : Bool) :
    (field.letter capital).isAlphanum = true := by
  cases field <;> cases capital <;> decide

theorem isAlphanum_of_isHex {char : Char} (hex : IsHex char) : char.isAlphanum = true := by
  have all : ∀ char ∈ ['0', '1', '2', '3', '4', '5', '6', '7', '8', '9', 'A', 'B', 'C', 'D', 'E',
      'F', 'a', 'b', 'c', 'd', 'e', 'f'], char.isAlphanum = true :=
    List.all_iff_forall_prop.mp (by decide)
  exact all char hex

theorem Field.Digits.letters {field : Field} (digits : field.Digits text) :
    ∀ char ∈ text, char.isAlphanum = true := by
  cases field with
  | channel | len => exact fun char member => isAlphanum_of_isDigit (digits char member)
  | stime => exact fun char member => isAlphanum_of_isDigit (digits.1 char member)
  | trig => exact fun char member => isAlphanum_of_isHex (digits.1 char member)

/-- A known field is read in both forms. -/
theorem readField_known {field : Field} {capital : Bool} (digits : field.Digits text)
    (ends : ∀ char ∈ rest.head?, char.isAlphanum = false) :
    readField mktime (field.letter capital :: (text ++ rest)) info =
      some (field.set info (field.read mktime text)) := by
  have parts := takeWhile_field (List.forall_mem_cons.mpr
    ⟨isAlphanum_letter field capital, digits.letters⟩) ends
  rw [List.cons_append] at parts
  unfold readField
  rw [parts.1, parts.2]
  simp only
  cases field with
  | channel =>
    rw [if_pos (by cases capital <;> decide), atoi_of_digits digits]
    rfl
  | stime =>
    have enough : ¬(text ++ Char.ofNat 0 :: rest.tail).length < 14 := by
      have long := digits.2
      rw [List.length_append]
      omega
    rw [if_neg (by cases capital <;> decide), if_pos (by cases capital <;> decide),
      if_neg enough, readStamp_append digits.2]
    rfl
  | len =>
    rw [if_neg (by cases capital <;> decide), if_neg (by cases capital <;> decide),
      if_pos (by cases capital <;> decide), atoi_of_digits digits]
    rfl
  | trig =>
    rw [if_neg (by cases capital <;> decide), if_neg (by cases capital <;> decide),
      if_neg (by cases capital <;> decide), if_pos (by cases capital <;> decide)]
    rfl

/-- Another field changes nothing. -/
theorem readField_other
    (foreign : ∀ char ∈ text.head?, ∀ (field : Field) (capital : Bool),
      char ≠ field.letter capital) :
    readField mktime text info = some info := by
  unfold readField
  cases text with
  | nil => rfl
  | cons char text =>
    by_cases letter : char.isAlphanum = true
    · have known := foreign char rfl
      have noChannel : ¬(char = 'c' ∨ char = 'C') :=
        not_or.mpr ⟨known .channel false, known .channel true⟩
      have noTime : ¬(char = 'd' ∨ char = 'D') :=
        not_or.mpr ⟨known .stime false, known .stime true⟩
      have noLen : ¬(char = 'l' ∨ char = 'L') := not_or.mpr ⟨known .len false, known .len true⟩
      have noTrig : ¬(char = 't' ∨ char = 'T') :=
        not_or.mpr ⟨known .trig false, known .trig true⟩
      rw [List.takeWhile_cons_of_pos letter]
      simp only
      rw [if_neg noChannel, if_neg noTime, if_neg noLen, if_neg noTrig]
    · rw [List.takeWhile_cons_of_neg letter]

end Fields

/-! ### Reading all of them -/

section Names

variable {mktime : Tm → Int} {info : FileInfo} {front rest : Text} {pieces : List Piece}

/-- What a field makes of the file information. -/
def Piece.readInto (mktime : Tm → Int) (info : FileInfo) : Piece → FileInfo
  | .known field _ digits _ => field.set info (field.read mktime digits)
  | .other _ => info

theorem readField_piece {piece : Piece} (proper : piece.Proper)
    (next : ∀ char ∈ rest.head?, char = '_') :
    readField mktime (piece.text ++ rest) info = some (piece.readInto mktime info) := by
  have mark : ∀ char ∈ rest.head?, char.isAlphanum = false := by
    intro char member
    rw [next char member]
    decide
  cases piece with
  | known field capital digits tail =>
    have ends : ∀ char ∈ (tail ++ rest).head?, char.isAlphanum = false := by
      cases tail with
      | nil => exact mark
      | cons first tail => exact proper.2
    have split : (Piece.known field capital digits tail).text ++ rest =
        field.letter capital :: (digits ++ (tail ++ rest)) := by
      rw [Piece.text, List.cons_append, List.append_assoc]
    rw [split, readField_known proper.1 ends]
    rfl
  | other text =>
    refine readField_other ?_
    cases text with
    | nil =>
      intro char member field capital same
      have underscore := mark char member
      rw [same, isAlphanum_letter] at underscore
      cases underscore
    | cons first text => exact proper

/-- The fields are read one after the other. -/
theorem scan_pieces (proper : ∀ piece ∈ pieces, piece.Proper)
    (within : ∀ piece ∈ pieces, Within piece.text)
    (short : (pieces.flatMap fun piece => '_' :: piece.text).length ≤ 100) :
    scan mktime false (pieces.flatMap fun piece => '_' :: piece.text) info =
      some (0, pieces.foldl (Piece.readInto mktime) info) := by
  induction pieces generalizing info with
  | nil => rw [List.flatMap_nil, scan, List.foldl_nil]
  | cons piece pieces inductionHypothesis =>
    have next : ∀ char ∈ (pieces.flatMap fun piece => '_' :: piece.text).head?, char = '_' := by
      cases pieces with
      | nil =>
        intro char member
        cases member
      | cons other pieces =>
        intro char member
        exact (Option.some.inj member).symm
    rw [List.flatMap_cons, List.cons_append] at short ⊢
    rw [List.length_cons] at short
    rw [scan_piece (within piece List.mem_cons_self) next (by omega),
      readField_piece (proper piece List.mem_cons_self) next]
    simp only
    rw [List.length_append] at short
    exact inductionHypothesis (fun other member => proper other (List.mem_cons_of_mem _ member))
      (fun other member => within other (List.mem_cons_of_mem _ member)) (by omega)

theorem Field.get_set (field own : Field) (value : Int) :
    field.get (own.set info value) = if own = field then value else field.get info := by
  cases field <;> cases own <;> rfl

theorem lastDigits_concat (field : Field) (pieces : List Piece) (piece : Piece) :
    lastDigits field (pieces ++ [piece]) = (piece.digits field).or (lastDigits field pieces) := by
  unfold lastDigits
  rw [List.filterMap_append, List.getLast?_append]
  cases found : piece.digits field with
  | none =>
    rw [List.filterMap_cons_none found, List.filterMap_nil]
    rfl
  | some digits =>
    rw [List.filterMap_cons_some found, List.filterMap_nil]
    rfl

/-- The last field with a letter decides. -/
theorem get_foldl (field : Field) (pieces : List Piece) :
    field.get (pieces.foldl (Piece.readInto mktime) info) =
      match lastDigits field pieces with
      | some digits => field.read mktime digits
      | none => field.get info := by
  induction pieces using List.reverseRecOn with
  | nil => rfl
  | append_singleton pieces piece inductionHypothesis =>
    rw [List.foldl_append, List.foldl_cons, List.foldl_nil, lastDigits_concat]
    cases piece with
    | other text => exact inductionHypothesis
    | known own capital digits tail =>
      rw [Piece.readInto, Field.get_set, Piece.digits]
      split
      · next same => rw [same]; rfl
      · exact inductionHypothesis

/-! ### What is stored -/

/-- A small digit is read as too much. -/
theorem hexDigit_le {char : Char} (hex : IsHex char) :
    hexDigit char ≤ hex2ascii char - 48 ∧
      (hexDigit char = hex2ascii char - 48 ↔ ¬IsSmall char) := by
  have all : ∀ char ∈ ['0', '1', '2', '3', '4', '5', '6', '7', '8', '9', 'A', 'B', 'C', 'D', 'E',
      'F', 'a', 'b', 'c', 'd', 'e', 'f'], hexDigit char ≤ hex2ascii char - 48 ∧
        (hexDigit char = hex2ascii char - 48 ↔ char ∉ ['a', 'b', 'c', 'd', 'e', 'f']) :=
    List.all_iff_forall_prop.mp (by decide)
  exact all char hex

/-- The alarms are read right exactly if they have no small digits. -/
theorem readTrig_iff {text : Text} (digits : Field.Digits text .trig) :
    readTrig text = numeral 16 hexDigit text ↔ ∀ char ∈ text, ¬IsSmall char := by
  have short := digits.2.2
  have compared := (@numeral_le_and_eq_iff 16 _ _ text (by decide) fun char member =>
    (hexDigit_le (digits.1 char member)).1).2
  unfold readTrig
  rw [Nat.sub_eq_zero_of_le short, List.drop_zero, eq_comm, compared]
  exact forall_congr' fun char => forall_congr' fun member =>
    (hexDigit_le (digits.1 char member)).2

/-- What is read of a field is its value, unless it is one of alarms with a small digit. -/
theorem read_eq_value_iff {field : Field} {text : Text} (digits : field.Digits text) :
    field.read mktime text = field.value mktime text ↔
      (field = .trig → ∀ char ∈ text, ¬IsSmall char) := by
  cases field with
  | trig =>
    rw [Field.read, Field.value, readTrig_iff digits]
    exact ⟨fun capital _ => capital, fun capital => capital rfl⟩
  | channel | stime | len => exact iff_of_true rfl fun same => by cases same

theorem mem_of_lastDigits {field : Field} {digits : Text}
    (last : lastDigits field pieces = some digits) :
    ∃ capital tail, Piece.known field capital digits tail ∈ pieces := by
  obtain ⟨piece, member, found⟩ := List.mem_filterMap.mp (List.mem_of_getLast? last)
  cases piece with
  | other text => cases found
  | known own capital text tail =>
    rw [Piece.digits] at found
    by_cases same : own = field
    · rw [if_pos same] at found
      cases found
      exact ⟨capital, tail, same ▸ member⟩
    · rw [if_neg same] at found
      cases found

/-- The partition is copied if its end is within the first sixteen characters. -/
theorem readPartition_iff {filename old : Text} :
    (∃ partition, readPartition filename old = some partition) ↔
      ∀ found, strstr ['s', 'd'] filename = some found → filename.length ≤ found.length + 12 := by
  unfold readPartition
  cases search : strstr ['s', 'd'] filename with
  | none => exact iff_of_true ⟨_, rfl⟩ fun found same => by cases same
  | some found =>
    simp only
    constructor
    · rintro ⟨partition, copied⟩ _ ⟨⟩
      by_contra far
      rw [if_pos (by omega)] at copied
      cases copied
    · intro near
      have fits := near found rfl
      rw [if_neg (by omega)]
      split <;> exact ⟨_, rfl⟩

/-- The file information before the fields are read. -/
def flagged (filename : Text) (info : FileInfo) (partition : Text) : FileInfo :=
  { info with
    partition := partition
    remote := if remoteTrigFlag ∈ filename then 1 else 0
    lock := if lockFileFlag ∈ filename then 1 else 0
    ingFlag := if strstr recordingFileExt filename = none then 0 else 1 }

/-- A name of fields is read if its partition has room. -/
theorem filename2finfo_nameOf (clear : Within front) (proper : ∀ piece ∈ pieces, piece.Proper)
    (within : ∀ piece ∈ pieces, Within piece.text) (short : (nameOf front pieces).length ≤ 100) :
    filename2finfo mktime (nameOf front pieces) info =
      (readPartition (nameOf front pieces) info.partition).map fun partition =>
        (0, pieces.foldl (Piece.readInto mktime)
          (flagged (nameOf front pieces) info partition)) := by
  have length : (pieces.flatMap fun piece => '_' :: piece.text).length ≤ 100 := by
    rw [nameOf, List.length_append] at short
    omega
  have scanned : ∀ next, scan mktime false (nameOf front pieces) next =
      some (0, pieces.foldl (Piece.readInto mktime) next) := by
    intro next
    rw [nameOf, scan_skip clear, scan_pieces proper within length]
  unfold filename2finfo
  rw [if_neg (Nat.not_lt.mpr short)]
  cases readPartition (nameOf front pieces) info.partition with
  | none => rfl
  | some partition => exact scanned _

/-- For every name of fields: each field is stored with its value, if and only if the name is one
that is read right. -/
theorem storesFields_iff (clear : Within front) (proper : ∀ piece ∈ pieces, piece.Proper)
    (within : ∀ piece ∈ pieces, Within piece.text) (short : (nameOf front pieces).length ≤ 100) :
    StoresFields mktime front pieces info ↔ ReadRight front pieces := by
  have readers : ∀ next field digits, lastDigits field pieces = some digits →
      (field.get (pieces.foldl (Piece.readInto mktime) next) = field.value mktime digits ↔
        (field = .trig → ∀ char ∈ digits, ¬IsSmall char)) := by
    intro next field digits last
    obtain ⟨capital, tail, member⟩ := mem_of_lastDigits last
    have kept := @get_foldl mktime next field pieces
    rw [last] at kept
    rw [kept]
    exact read_eq_value_iff (proper _ member).1
  have read := @filename2finfo_nameOf mktime info front pieces clear proper within short
  constructor
  · rintro ⟨next, done, stored⟩
    rw [read] at done
    obtain ⟨partition, copied, same⟩ := Option.map_eq_some_iff.mp done
    have last := (Prod.mk.inj same).2
    refine ⟨readPartition_iff.mp ⟨partition, copied⟩, fun digits found => ?_,
      fun field digits found => (stored field digits found).2⟩
    have value := (stored .trig digits found).1
    rw [← last] at value
    exact (readers _ .trig digits found).mp value rfl
  · intro right
    obtain ⟨partition, copied⟩ := readPartition_iff.mpr right.partition
    rw [StoresFields, read, copied]
    refine ⟨_, rfl, fun field digits found => ⟨?_, right.fits field digits found⟩⟩
    refine (readers _ field digits found).mpr ?_
    rintro rfl
    exact right.capital digits found

/-- A file information before a name is read. -/
def unread : FileInfo := ⟨0, 0, 0, 0, 0, 0, 0, 0, ['/', 's', 'd', 'a', '1']⟩

/-- The alarms `1A` in a name, in front of the third channel. -/
def capitalFields : List Piece :=
  [.known .trig true ['1', 'A'] [], .other ['x', '2'],
    .known .channel false ['0', '3'] ['.', 'A', 'V', 'I']]

/-- The alarms `1a`. -/
def smallFields : List Piece := [.known .trig false ['1', 'a'] []]

theorem storesFields_iff_capital :
    StoresFields secondOfDay ['H', 'Q'] capitalFields unread := by
  have proper : ∀ piece ∈ capitalFields, piece.Proper := by
    unfold capitalFields
    rw [List.forall_mem_cons, List.forall_mem_cons, List.forall_mem_singleton]
    refine ⟨⟨⟨List.all_iff_forall_prop.mp (by decide), by decide, by decide⟩, ?_⟩, ?_,
      List.all_iff_forall_prop.mp (by decide), ?_⟩
    · rintro char ⟨⟩
    · rintro char ⟨⟩ field capital
      cases field <;> cases capital <;> decide
    · rintro char ⟨⟩
      decide
  have within : ∀ piece ∈ capitalFields, Within piece.text := by
    decide
  refine (storesFields_iff (by decide) proper within (by decide)).mpr ⟨?_, ?_, ?_⟩
  · have none : strstr ['s', 'd'] (nameOf ['H', 'Q'] capitalFields) = none := by decide
    rw [none]
    intro found same
    cases same
  · rintro digits ⟨⟩
    exact List.all_iff_forall_prop.mp (by decide)
  · intro field digits found
    cases field with
    | channel =>
      cases found
      exact (by decide : numeral 10 decimalDigit ['0', '3'] < 2 ^ 31)
    | len => cases found
    | stime | trig => trivial

/-- With a small letter the alarms are read as others. -/
theorem small_digit_misread : (∀ piece ∈ smallFields, piece.Proper) ∧
    (∀ piece ∈ smallFields, Within piece.text) ∧ (nameOf ['H', 'Q'] smallFields).length ≤ 100 ∧
    ¬StoresFields secondOfDay ['H', 'Q'] smallFields unread := by
  have proper : ∀ piece ∈ smallFields, piece.Proper := by
    unfold smallFields
    rw [List.forall_mem_singleton]
    refine ⟨⟨List.all_iff_forall_prop.mp (by decide), by decide, by decide⟩, ?_⟩
    rintro char ⟨⟩
  have within : ∀ piece ∈ smallFields, Within piece.text := by decide
  have short : (nameOf ['H', 'Q'] smallFields).length ≤ 100 := by decide
  have read := @filename2finfo_nameOf secondOfDay unread ['H', 'Q'] smallFields (by decide) proper
    within short
  have misread : filename2finfo secondOfDay (nameOf ['H', 'Q'] smallFields) unread =
      some (0, { unread with
        trig := 33
        partition := ['/', 'h', 'q', 'd', 'a', 't', 'a', '/', 's', 'd', 'a', '1'] }) :=
    read.trans (by decide)
  refine ⟨proper, within, short, ?_⟩
  rintro ⟨next, done, stored⟩
  have value := (stored .trig ['1', 'a'] rfl).1
  rw [misread] at done
  rw [← (Prod.mk.inj (Option.some.inj done)).2] at value
  exact absurd value (by decide)

end Names

end ExmOnvif.HdModule
