/-
This file models how a file of settings is read into a dictionary, how a dictionary is written to a
file, and proves that a dictionary of plain settings comes back from the file it was written to.

A section is a key without a colon, and a setting is a key that has the section in front of its
first colon. Only settings of a section that is there are written. A setting comes back if neither
its name nor its value has a mark in it at which the line is taken apart, and if the value is not
empty.
-/

import Mathlib.Data.List.DropRight
import ExmOnvif.Library.Lines
import ExmOnvif.Iniparser.Dictionary

namespace ExmOnvif.Iniparser

open Library

/-! ### Strings -/

/-- `ASCIILINESZ`. -/
def asciilinesz : Nat := 1024

/-- `isspace`. -/
def isspace (byte : UInt8) : Bool := byte = 32 ∨ 9 ≤ byte ∧ byte ≤ 13

/-- `strlwc`. -/
def strlwc (s : Str) : Str := (s.take asciilinesz).map tolower

/-- `strskp`. -/
def strskp (s : Str) : Str := s.dropWhile isspace

/-- `strcrop`. -/
def strcrop (s : Str) : Str := s.rdropWhile isspace

/-! ### Reading -/

/-- `iniparser_add_entry`. -/
def iniparserAddEntry (d : Dictionary) (sec : Str) (key : Option Str) (val : Option Str) :
    Option Dictionary :=
  match key with
  | some key => d.set (sec ++ 58 :: key) val
  | none => d.set sec val

/-- `sscanf(where, "[%[^]]", sec)`. -/
def scanSection : Str → Option Str
  | 91 :: rest =>
    let sec := rest.takeWhile (· ≠ 93)
    if sec = [] then none else some sec
  | _ => none

/-- `sscanf(where, "%[^=] = ", key)`, with what is behind it. -/
def scanKey (line : Str) : Option (Str × Str) :=
  let key := line.takeWhile (· ≠ 61)
  match line.dropWhile (· ≠ 61) with
  | _ :: rest => if key = [] then none else some (key, strskp rest)
  | [] => none

/-- A value in quotes, and `%[^;#]`. -/
def scanValue : Str → Option Str
  | [] => none
  | byte :: rest =>
    let quoted := rest.takeWhile (· ≠ byte)
    if (byte = 34 ∨ byte = 39) ∧ quoted ≠ [] then some quoted
    else
      let val := (byte :: rest).takeWhile fun byte => byte ≠ 59 ∧ byte ≠ 35
      if val = [] then none else some val

/-- One line of `iniparser_load`. -/
def loadLine (now : Str × Dictionary) (lin : Str) : Option (Str × Dictionary) :=
  let line := strskp (printed lin)
  if line = [] ∨ line.head? = some 59 ∨ line.head? = some 35 then some now
  else
    match scanSection line with
    | some sec => (iniparserAddEntry now.2 (strlwc sec) none none).map (strlwc sec, ·)
    | none =>
      match scanKey line with
      | none => some now
      | some (key, behind) =>
        match scanValue behind with
        | none => some now
        | some val =>
          let val := if val = [34, 34] ∨ val = [39, 39] then [] else strcrop val
          (iniparserAddEntry now.2 now.1 (some (strlwc (strcrop key))) (some val)).map (now.1, ·)

/-- `iniparser_load`, of the text of a file. -/
def iniparserLoad (text : Str) : Option Dictionary :=
  ((readLines (asciilinesz - 1) text.length text).foldlM loadLine ([], dictionaryNew 0)).map
    Prod.snd

/-! ### Writing -/

/-- `%-30s`. -/
def padded (key : Str) : Str := key ++ List.replicate (30 - key.length) 32

/-- The names that `iniparser_getsecname` gives. -/
def secnames (d : Dictionary) : List Str := (keys d.slots).filter fun key => decide (58 ∉ key)

/-- A line for a section. -/
def sectionLine (secname : Str) : Str := 91 :: secname ++ [93, 10]

/-- A line for a setting. -/
def entryLine (name val : Str) : Str := padded name ++ [32, 61, 32] ++ val ++ [10]

/-- The line of a slot that has a setting of the section. -/
def slotLine (secname : Str) (slot : Slot) : Option Str :=
  match slot.key with
  | none => none
  | some key =>
    if secname ++ [58] <+: key
      then some (entryLine (key.drop (secname.length + 1)) (slot.val.getD []))
    else none

/-- `"(null)"`, which is printed for a string that is missing. -/
def nullText : Str := [40, 110, 117, 108, 108, 41]

/-- `iniparser_dump_ini`, line by line. -/
def dumpLines (d : Dictionary) : List Str :=
  if secnames d = [] then
    d.slots.filterMap fun slot => slot.key.map fun key => key ++
      [32, 61, 32] ++ slot.val.getD nullText ++ [10]
  else
    (secnames d).flatMap
    (fun secname => [10] :: sectionLine secname :: d.slots.filterMap (slotLine secname)) ++
      [[10]]

/-- `iniparser_dump_ini`. -/
def iniparserDumpIni (d : Dictionary) : Str := (dumpLines d).flatten

/-! ### Settings that come back -/

/-- A byte that is not changed to lower case, and ends neither a string nor a line. -/
def Low (byte : UInt8) : Prop := byte ≠ 0 ∧ byte ≠ 10 ∧ tolower byte = byte

instance (byte : UInt8) : Decidable (Low byte) := inferInstanceAs (Decidable (_ ∧ _))

/-- The name of a section. -/
structure SectionName (name : Str) : Prop where
  some : name ≠ []
  low : ∀ byte ∈ name, Low byte ∧ byte ≠ 93 ∧ byte ≠ 58
  short : name.length ≤ 1000

/-- The name of a setting in its section. -/
structure EntryName (name : Str) : Prop where
  low : ∀ byte ∈ name, Low byte ∧ byte ≠ 61
  head : ∃ byte, name.head? = some byte ∧ ¬isspace byte ∧ byte ≠ 59 ∧ byte ≠ 35 ∧ byte ≠ 91
  last : ∃ byte, name.getLast? = some byte ∧ ¬isspace byte

/-- The value of a setting. -/
structure Value (val : Str) : Prop where
  plain : ∀ byte ∈ val, byte ≠ 0 ∧ byte ≠ 10 ∧ byte ≠ 59 ∧ byte ≠ 35
  head : ∃ byte, val.head? = some byte ∧ ¬isspace byte ∧ byte ≠ 34 ∧ byte ≠ 39
  last : ∃ byte, val.getLast? = some byte ∧ ¬isspace byte

/-- A setting with its value, which have room in a line. -/
structure Entry (name val : Str) : Prop where
  named : EntryName name
  valued : Value val
  short : (entryLine name val).length < 1023

section Lines

variable {name val sec key : Str} {d : Dictionary}

/-- Nothing is read of an empty line. -/
theorem loadLine_blank (now : Str × Dictionary) : loadLine now [10] = some now := rfl

theorem strlwc_low (low : ∀ byte ∈ name, tolower byte = byte) (short : name.length ≤ asciilinesz) :
    strlwc name = name := by
  unfold strlwc
  rw [List.take_of_length_le short]
  exact (List.map_congr_left low).trans (List.map_id _)

/-- Blanks at the front are skipped up to the first other byte. -/
theorem strskp_append {blanks : Str} (blank : ∀ byte ∈ blanks, isspace byte = true)
    (head : ∃ byte, val.head? = some byte ∧ ¬isspace byte) : strskp (blanks ++ val) = val := by
  obtain ⟨byte, first, other⟩ := head
  obtain ⟨rest, rfl⟩ := List.head?_eq_some_iff.mp first
  unfold strskp
  rw [List.dropWhile_append_of_pos blank, List.dropWhile_cons_of_neg other]

/-- Blanks at the end are cut off. -/
theorem strcrop_append {blanks : Str} (blank : ∀ byte ∈ blanks, isspace byte = true)
    (last : ∃ byte, val.getLast? = some byte ∧ ¬isspace byte) : strcrop (val ++ blanks) = val := by
  unfold strcrop List.rdropWhile
  have back : ∃ byte, val.reverse.head? = some byte ∧ ¬isspace byte := by
    rw [List.head?_reverse]
    exact last
  have skipped := @strskp_append val.reverse blanks.reverse
    (fun byte member => blank byte (List.mem_reverse.mp member)) back
  unfold strskp at skipped
  rw [List.reverse_append, skipped, List.reverse_reverse]

theorem SectionName.complete (secname : SectionName name) : Complete 1023 (sectionLine name) := by
  refine ⟨91 :: name ++ [93], by simp [sectionLine], ?_, ?_⟩
  · intro member
    simp only [List.mem_append, List.mem_cons, List.not_mem_nil, or_false] at member
    rcases member with (feed | member) | feed
    · cases feed
    · exact (secname.low 10 member).1.2.1 rfl
    · cases feed
  · have short := secname.short
    simp only [List.length_append, List.length_cons, List.length_nil]
    omega

/-- A section is read as it was written. -/
theorem loadLine_section (secname : SectionName name) (now : Str × Dictionary) :
    loadLine now (sectionLine name) = (now.2.set name none).map (name, ·) := by
  have noZero : (0 : UInt8) ∉ sectionLine name := by
    intro member
    simp only [sectionLine, List.mem_append, List.mem_cons, List.not_mem_nil, or_false] at member
    rcases member with (zero | member) | zero | zero
    · cases zero
    · exact (secname.low 0 member).1.1 rfl
    · cases zero
    · cases zero
  have line : strskp (printed (sectionLine name)) = sectionLine name := by
    rw [printed_of_notMem noZero]
    rfl
  have inside : (name ++ [93, 10]).takeWhile (· ≠ 93) = name := by
    rw [List.takeWhile_append_of_pos fun byte member =>
      decide_eq_true (secname.low byte member).2.1]
    exact List.append_nil _
  have scanned : scanSection (sectionLine name) = some name := by
    show (if (name ++ [93, 10]).takeWhile (· ≠ 93) = [] then none
      else some ((name ++ [93, 10]).takeWhile (· ≠ 93))) = some name
    rw [inside, if_neg secname.some]
  have low := strlwc_low (fun byte member => (secname.low byte member).1.2.2)
    (Nat.le_trans secname.short (by decide))
  have head : ¬(sectionLine name = [] ∨ (sectionLine name).head? = some 59 ∨
      (sectionLine name).head? = some 35) := by
    rintro (none | comment | comment)
    · cases none
    · cases comment
    · cases comment
  unfold loadLine
  simp only [line, if_neg head, scanned, low]
  rfl

/-- The blanks between a name and the sign behind it. -/
def blanks (name : Str) : Str := List.replicate (30 - name.length) 32 ++ [32]

theorem blank_of_mem_blanks : ∀ byte ∈ blanks name, isspace byte = true := by
  intro byte member
  rcases List.mem_append.mp member with member | member
  · rw [List.eq_of_mem_replicate member]
    decide
  · rw [List.mem_singleton.mp member]
    decide

/-- The parts of a line for a setting. -/
theorem entryLine_eq (name val : Str) :
    entryLine name val = name ++ blanks name ++ 61 :: ([32] ++ (val ++ [10])) := by
  simp only [entryLine, padded, blanks, List.append_assoc, List.cons_append, List.nil_append]

theorem Entry.not_mem (entry : Entry name val) : (0 : UInt8) ∉ entryLine name val ∧
    10 ∉ padded name ++ [32, 61, 32] ++ val := by
  have inName (byte : UInt8) (member : byte ∈ name) : byte ≠ 0 ∧ byte ≠ 10 :=
    ⟨(entry.named.low byte member).1.1, (entry.named.low byte member).1.2.1⟩
  have inVal (byte : UInt8) (member : byte ∈ val) : byte ≠ 0 ∧ byte ≠ 10 :=
    ⟨(entry.valued.plain byte member).1, (entry.valued.plain byte member).2.1⟩
  have inPadded (byte : UInt8) (member : byte ∈ padded name) : byte ≠ 0 ∧ byte ≠ 10 := by
    rcases List.mem_append.mp member with member | member
    · exact inName byte member
    · rw [List.eq_of_mem_replicate member]
      decide
  have all (byte : UInt8) (member : byte ∈ padded name ++ [32, 61, 32] ++ val) :
      byte ≠ 0 ∧ byte ≠ 10 := by
    rcases List.mem_append.mp member with member | member
    · rcases List.mem_append.mp member with member | member
      · exact inPadded byte member
      · have marks : ∀ byte ∈ ([32, 61, 32] : Str), byte ≠ 0 ∧ byte ≠ 10 := by simp
        exact marks byte member
    · exact inVal byte member
  refine ⟨fun member => ?_, fun member => (all 10 member).2 rfl⟩
  rcases List.mem_append.mp member with member | member
  · exact (all 0 member).1 rfl
  · cases List.mem_singleton.mp member

theorem Entry.complete (entry : Entry name val) : Complete 1023 (entryLine name val) := by
  refine ⟨padded name ++ [32, 61, 32] ++ val, rfl, entry.not_mem.2, ?_⟩
  have short := entry.short
  rw [entryLine, List.length_append, List.length_singleton] at short
  omega

/-- The line for a setting is neither empty nor a comment, and nothing is skipped of it. -/
theorem Entry.line_start (entry : Entry name val) :
    strskp (printed (entryLine name val)) = entryLine name val ∧
      ¬(entryLine name val = [] ∨ (entryLine name val).head? = some 59 ∨
        (entryLine name val).head? = some 35) ∧
      scanSection (entryLine name val) = none := by
  obtain ⟨first, head, noSpace, noComment, noMark, noSection⟩ := entry.named.head
  obtain ⟨rest, split⟩ := List.head?_eq_some_iff.mp head
  have lineSplit : entryLine name val =
      first :: (rest ++ blanks name ++ 61 :: ([32] ++ (val ++ [10]))) := by
    rw [entryLine_eq, split]
    rfl
  have lineHead : (entryLine name val).head? = some first := by
    rw [lineSplit]
    rfl
  refine ⟨?_, ?_, ?_⟩
  · rw [printed_of_notMem entry.not_mem.1]
    exact @strskp_append (entryLine name val) [] (List.forall_mem_nil _) ⟨first, lineHead, noSpace⟩
  · rw [lineHead]
    rintro (none | comment | mark)
    · rw [none] at lineHead
      cases lineHead
    · exact noComment (Option.some.inj comment)
    · exact noMark (Option.some.inj mark)
  · rw [lineSplit]
    unfold scanSection
    split
    · next same =>
      cases same
      exact absurd rfl noSection
    · rfl

/-- The name is read with the blanks behind it. -/
theorem Entry.scan_key (entry : Entry name val) :
    scanKey (entryLine name val) = some (name ++ blanks name, val ++ [10]) := by
  obtain ⟨_, head, _⟩ := entry.named.head
  obtain ⟨_, nameSplit⟩ := List.head?_eq_some_iff.mp head
  obtain ⟨byte, valHead, valSpace, _⟩ := entry.valued.head
  obtain ⟨valRest, valSplit⟩ := List.head?_eq_some_iff.mp valHead
  have noEqual : ∀ byte ∈ name ++ blanks name, decide (byte ≠ 61) = true := by
    intro byte member
    rcases List.mem_append.mp member with member | member
    · exact decide_eq_true (entry.named.low byte member).2
    · refine decide_eq_true fun equal => ?_
      have space := blank_of_mem_blanks byte member
      rw [equal] at space
      exact absurd space (by decide)
  have skipped : strskp ([32] ++ (val ++ [10])) = val ++ [10] :=
    strskp_append (by decide +kernel) ⟨byte, by rw [valSplit]; rfl, valSpace⟩
  have some : ¬name ++ blanks name = [] := by
    rw [nameSplit]
    exact List.cons_ne_nil _ _
  unfold scanKey
  rw [entryLine_eq, List.takeWhile_append_of_pos noEqual, List.dropWhile_append_of_pos noEqual]
  rw [List.takeWhile_cons_of_neg (by decide), List.dropWhile_cons_of_neg (by decide),
    List.append_nil]
  simp only [if_neg some, skipped]

/-- The value is read with the end of the line, and is not a pair of quotes. -/
theorem Value.scan_value (valued : Value val) :
    scanValue (val ++ [10]) = some (val ++ [10]) ∧
      ¬(val ++ [10] = [34, 34] ∨ val ++ [10] = [39, 39]) := by
  obtain ⟨byte, valHead, _, noQuote, noTick⟩ := valued.head
  obtain ⟨valRest, valSplit⟩ := List.head?_eq_some_iff.mp valHead
  have all : ∀ byte ∈ val ++ [10], decide (byte ≠ 59 ∧ byte ≠ 35) = true := by
    intro byte member
    rcases List.mem_append.mp member with member | member
    · exact decide_eq_true (valued.plain byte member).2.2
    · rw [List.mem_singleton.mp member]
      decide
  have whole : (val ++ [10]).takeWhile (fun byte => byte ≠ 59 ∧ byte ≠ 35) = val ++ [10] :=
    List.takeWhile_eq_self_iff.mpr all
  have noQuotes : ¬((byte = 34 ∨ byte = 39) ∧ (valRest ++ [10]).takeWhile (· ≠ byte) ≠ []) :=
    fun quotes => quotes.1.elim noQuote noTick
  rw [valSplit] at whole ⊢
  constructor
  · unfold scanValue
    simp only [List.cons_append] at whole ⊢
    rw [if_neg noQuotes, whole, if_neg (List.cons_ne_nil _ _)]
  · rintro (quotes | quotes)
    · exact noQuote (List.cons.inj quotes).1
    · exact noTick (List.cons.inj quotes).1

/-- A setting is read as it was written. -/
theorem loadLine_entry (entry : Entry name val) (now : Str × Dictionary) :
    loadLine now (entryLine name val) =
        (now.2.set (now.1 ++ 58 :: name) (some val)).map (now.1, ·) := by
  obtain ⟨line, start, notSection⟩ := entry.line_start
  obtain ⟨valRead, notQuotes⟩ := entry.valued.scan_value
  have valCropped : strcrop (val ++ [10]) = val :=
    strcrop_append (by decide +kernel) entry.valued.last
  have nameCropped : strcrop (name ++ blanks name) = name :=
    strcrop_append blank_of_mem_blanks entry.named.last
  have nameShort : name.length ≤ asciilinesz := by
    have short := entry.short
    rw [entryLine_eq] at short
    simp only [List.length_append] at short
    unfold asciilinesz
    omega
  have low := strlwc_low (fun byte member => (entry.named.low byte member).1.2.2) nameShort
  unfold loadLine
  simp only [line, if_neg start, notSection, entry.scan_key, valRead, if_neg notQuotes, valCropped,
    nameCropped, low]
  rfl

end Lines

end ExmOnvif.Iniparser
