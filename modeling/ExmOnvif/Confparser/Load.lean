/-
This file models how a configuration file is loaded into the rows of a table and written back.

`process_line` works inside a row: it ends the text at a comment mark and then takes quotes,
blanks, tabs and line ends out of it one by one, each time by copying all that follows one
place down. The copied stretch is counted from the place of the byte that goes away, though it
begins one place behind it, so that its last byte is the first one behind the row. That byte
comes to stand behind the end of the text, where nobody looks: what is loaded, written and
loaded again is the same. `memcpy` on these overlapping stretches is taken to copy upwards.
-/

import ExmOnvif.Library.Bytes
import ExmOnvif.Library.Lines
import ExmOnvif.Confparser.Dict

namespace ExmOnvif.Confparser

open Library

/-! ### A row -/

/-- A row of the table, the byte behind it, and whether something behind it was touched. -/
structure Row where
  bytes : Str
  behind : UInt8
  strayed : Bool

namespace Row

/-- The string in a row. -/
def text (row : Row) : Str := printed row.bytes

/-- `index(buf, byte)`. -/
def index (row : Row) (byte : UInt8) : Option Nat := row.text.findIdx? (· = byte)

/-- `*p='\0'`. -/
def terminate (row : Row) (p : Nat) : Row := { row with bytes := row.bytes.set p 0 }

/-- `memcpy(p,(p+1),len-(p-buf))`. -/
def memcpy (row : Row) (p len : Nat) : Row where
  bytes := row.bytes.take p ++ ((row.bytes ++ [row.behind]).drop (p + 1)).take (len - p)
  behind := row.behind
  strayed := row.strayed || decide (row.bytes.length < p + 1 + (len - p))

/-- The loop that takes all the bytes of one kind away. -/
def removeAll (byte : UInt8) (len : Nat) : Nat → Row → Option Row
  | 0, _ => none
  | turns + 1, row =>
    match row.index byte with
    | none => some row
    | some p => removeAll byte len turns (row.memcpy p len)

/-- The four loops of `process_line`: quotes, blanks, tabs and line ends. -/
def removeMarks (row : Row) (len turns : Nat) : Option Row := do
  let unquoted ← removeAll 34 len turns row
  let unspaced ← removeAll 32 len turns unquoted
  let untabbed ← removeAll 9 len turns unspaced
  removeAll 10 len turns untabbed

/-- `process_line`, once its loops had turns enough. -/
def processLine (row : Row) (len turns : Nat) : Option Row :=
  match row.index 35 with
  | some 0 => some (row.terminate 0)
  | some p => (row.terminate p).removeMarks len turns
  | none => row.removeMarks len turns

end Row

/-! ### A file -/

/-- A row of the new table after `fgets` has put a line into it. The table was not cleared. -/
def filled (heap : Memory) (i : Nat) (line : Str) : Row where
  bytes := line ++ 0 :: load heap (maxCharLine * i + line.length + 1)
    (maxCharLine - (line.length + 1))
  behind := heap (maxCharLine * (i + 1))
  strayed := false

/-- The loop of `confparser_load`. -/
def loadRows (heap : Memory) (turns : Nat) : Nat → List Str → Option (List Row)
  | _, [] => some []
  | i, line :: lines => do
    let row ← (filled heap i line).processLine maxCharLine turns
    let rest ← loadRows heap turns (i + 1) lines
    some (row :: rest)

/-- `confparser_load`. -/
def confparserLoad (heap : Memory) (turns : Nat) (file : Str) : Option (List Row) :=
  loadRows heap turns 0 (readLines (maxCharLine - 1) confMaxline file)

/-- `confparser_dump_conf`. -/
def dumpConf (table : List Row) : Str :=
  table.flatMap fun row => if row.bytes.head? = some 0 then [] else row.text ++ [10]

/-- The bytes that `process_line` takes away. -/
def Removed (byte : UInt8) : Prop := byte = 34 ∨ byte = 32 ∨ byte = 9 ∨ byte = 10

instance (byte : UInt8) : Decidable (Removed byte) := inferInstanceAs (Decidable (_ ∨ _))

/-- The part of a line in front of a comment. -/
def uncommented (line : Str) : Str := line.takeWhile (· ≠ 35)

/-- What is to be left of a line. -/
def normalised (line : Str) : Str := (uncommented line).filter fun byte => ¬Removed byte

/-- The lines of a table that are not empty. -/
def contents (table : List Row) : List Str := (table.map Row.text).filter (· ≠ [])

/-- A text file of at most `CONF_MAXLINE` lines that have room in a row. The last line may have no
line end. -/
structure TextFile where
  complete : List Str
  last : Str
  each : ∀ line ∈ complete, Complete (maxCharLine - 1) line
  noFeed : 10 ∉ last
  short : last.length < maxCharLine - 1
  noZero : ∀ line ∈ complete ++ [last], 0 ∉ line
  count : complete.length + (if last = [] then 0 else 1) ≤ confMaxline

namespace TextFile

def lines (file : TextFile) : List Str :=
  file.complete ++ if file.last = [] then [] else [file.last]

def bytes (file : TextFile) : Str := file.complete.flatten ++ file.last

/-- Loading, writing and loading again comes to an end, and gives the same lines and the same
file, whatever the new tables held. -/
def Survives (file : TextFile) : Prop :=
  ∃ enough, ∀ turns, enough ≤ turns → ∀ heap heap', ∃ table table',
    confparserLoad heap turns file.bytes = some table ∧
    confparserLoad heap' turns (dumpConf table) = some table' ∧
    contents table = (file.lines.map normalised).filter (· ≠ []) ∧
    contents table' = contents table ∧ dumpConf table' = dumpConf table

/-- Nothing outside the rows is touched on the way. -/
def StaysInRows (file : TextFile) : Prop :=
  ∃ enough, ∀ turns, enough ≤ turns → ∀ heap heap' table table',
    confparserLoad heap turns file.bytes = some table →
    confparserLoad heap' turns (dumpConf table) = some table' →
    ∀ row ∈ table ++ table', row.strayed = false

end TextFile

/-! ### One line -/

namespace Row

variable {row : Row} {held : Str}

/-- A row holds a string: its terminator is in the row too. -/
structure Holds (row : Row) (held : Str) : Prop where
  ended : ∃ rest, row.bytes = held ++ 0 :: rest
  length : row.bytes.length = maxCharLine
  noZero : 0 ∉ held

theorem Holds.text_eq (holds : row.Holds held) : row.text = held := by
  obtain ⟨rest, same⟩ := holds.ended
  have kept : ∀ byte ∈ held, decide (byte ≠ 0) = true := fun byte member =>
    decide_eq_true fun zero => holds.noZero (zero ▸ member)
  rw [text, same, printed, List.takeWhile_append_of_pos kept,
    List.takeWhile_cons_of_neg (by decide), List.append_nil]

theorem Holds.head_iff (holds : row.Holds held) : row.bytes.head? = some 0 ↔ held = [] := by
  obtain ⟨rest, same⟩ := holds.ended
  rw [same]
  cases held with
  | nil => exact iff_of_true rfl rfl
  | cons byte held =>
    refine iff_of_false (fun head => ?_) (List.cons_ne_nil _ _)
    exact holds.noZero (Option.some.inj head ▸ List.mem_cons_self)

theorem findIdx?_of_first {byte : UInt8} {front back : Str} (first : byte ∉ front) :
    (front ++ byte :: back).findIdx? (· = byte) = some front.length := by
  induction front with
  | nil => rw [List.nil_append, List.findIdx?_cons, if_pos (decide_eq_true rfl)]; rfl
  | cons other front inductionHypothesis =>
    have different : other ≠ byte := fun same => first (same ▸ List.mem_cons_self)
    rw [List.cons_append, List.findIdx?_cons, if_neg (by simpa using different),
      inductionHypothesis fun member => first (List.mem_cons_of_mem _ member)]
    rfl

theorem Holds.index_none (holds : row.Holds held) {byte : UInt8} (absent : byte ∉ held) :
    row.index byte = none := by
  rw [index, holds.text_eq, List.findIdx?_eq_none_iff]
  exact fun other member => decide_eq_false fun same => absent (same ▸ member)

theorem Holds.index_some {byte : UInt8} {front back : Str}
    (holds : row.Holds (front ++ byte :: back)) (first : byte ∉ front) :
    row.index byte = some front.length := by
  rw [index, holds.text_eq, findIdx?_of_first first]

/-- A terminator set inside the string cuts it. -/
theorem Holds.terminate {byte : UInt8} {front back : Str}
    (holds : row.Holds (front ++ byte :: back)) : (row.terminate front.length).Holds front := by
  obtain ⟨rest, same⟩ := holds.ended
  refine ⟨⟨back ++ 0 :: rest, ?_⟩, ?_, fun zero => holds.noZero (List.mem_append_left _ zero)⟩
  · show row.bytes.set front.length 0 = _
    rw [same, List.append_assoc, List.cons_append, List.set_append_right _ _ (Nat.le_refl _),
      Nat.sub_self, List.set_cons_zero]
  · show (row.bytes.set front.length 0).length = _
    rw [List.length_set, holds.length]

/-- The copy takes one byte out of the string, and reads behind the row. -/
theorem Holds.memcpy {byte : UInt8} {front back : Str}
    (holds : row.Holds (front ++ byte :: back)) :
    (row.memcpy front.length maxCharLine).Holds (front ++ back) ∧
      (row.memcpy front.length maxCharLine).strayed = true := by
  obtain ⟨rest, same⟩ := holds.ended
  have length := holds.length
  have total : front.length + (back.length + 1 + (rest.length + 1)) = maxCharLine := by
    rw [← length, same]
    simp only [List.length_append, List.length_cons]
    omega
  have behind : (row.bytes ++ [row.behind]).drop (front.length + 1) =
      back ++ 0 :: (rest ++ [row.behind]) := by
    have split : row.bytes ++ [row.behind] =
        (front ++ [byte]) ++ (back ++ 0 :: (rest ++ [row.behind])) := by
      rw [same]
      simp only [List.append_assoc, List.cons_append, List.nil_append]
    rw [split, List.drop_left' (by rw [List.length_append, List.length_singleton])]
  have whole : (back ++ 0 :: (rest ++ [row.behind])).take (maxCharLine - front.length) =
      back ++ 0 :: (rest ++ [row.behind]) := by
    refine List.take_of_length_le ?_
    simp only [List.length_append, List.length_cons, List.length_nil]
    omega
  have bytes : (row.memcpy front.length maxCharLine).bytes =
      (front ++ back) ++ 0 :: (rest ++ [row.behind]) := by
    show row.bytes.take front.length ++
      ((row.bytes ++ [row.behind]).drop (front.length + 1)).take (maxCharLine - front.length) = _
    rw [behind, whole, same, List.append_assoc, List.take_left, List.append_assoc]
  refine ⟨⟨⟨_, bytes⟩, ?_, fun zero => ?_⟩, ?_⟩
  · rw [bytes]
    simp only [List.length_append, List.length_cons, List.length_nil]
    omega
  · rcases List.mem_append.mp zero with inFront | inBack
    · exact holds.noZero (List.mem_append_left _ inFront)
    · exact holds.noZero (List.mem_append_right _ (List.mem_cons_of_mem _ inBack))
  · have past : row.bytes.length < front.length + 1 + (maxCharLine - front.length) := by omega
    show (row.strayed || decide (row.bytes.length <
      front.length + 1 + (maxCharLine - front.length))) = true
    rw [decide_eq_true past, Bool.or_true]

/-- The loop ends, and all the bytes of the kind are gone. -/
theorem Holds.removeAll {turns : Nat} (holds : row.Holds held) (byte : UInt8)
    (enough : held.length < turns) :
    ∃ after, removeAll byte maxCharLine turns row = some after ∧
      after.Holds (held.filter (· ≠ byte)) ∧
      (after.strayed = true ↔ row.strayed = true ∨ byte ∈ held) := by
  induction turns generalizing row held with
  | zero => exact absurd enough (Nat.not_lt_zero _)
  | succ turns inductionHypothesis =>
    rw [Row.removeAll]
    by_cases present : byte ∈ held
    · obtain ⟨front, back, rfl, first⟩ := List.eq_append_cons_of_mem present
      rw [holds.index_some first]
      obtain ⟨shorter, strayed⟩ := holds.memcpy
      obtain ⟨after, result, kept, touched⟩ := inductionHypothesis shorter (by
        rw [List.length_append, List.length_cons] at enough
        rw [List.length_append]
        omega)
      refine ⟨after, result, ?_, ?_⟩
      · have gone : (front ++ byte :: back).filter (· ≠ byte) =
            (front ++ back).filter (· ≠ byte) := by
          rw [List.filter_append, List.filter_append, List.filter_cons_of_neg (by simp)]
        rw [gone]
        exact kept
      · rw [touched, strayed]
        exact iff_of_true (Or.inl rfl) (Or.inr present)
    · rw [holds.index_none present]
      refine ⟨row, rfl, ?_, (or_iff_left present).symm⟩
      have same : held.filter (· ≠ byte) = held := List.filter_eq_self.mpr fun other member =>
        decide_eq_true fun equal => present (equal ▸ member)
      rw [same]
      exact holds

/-- The four loops together. -/
theorem Holds.removeMarks {turns : Nat} (holds : row.Holds held)
    (enough : held.length < turns) :
    ∃ after, row.removeMarks maxCharLine turns = some after ∧
      after.Holds (held.filter fun byte => ¬Removed byte) ∧
      (after.strayed = true ↔ row.strayed = true ∨ ∃ byte ∈ held, Removed byte) := by
  obtain ⟨unquoted, first, holds1, strayed1⟩ := holds.removeAll 34 enough
  obtain ⟨unspaced, second, holds2, strayed2⟩ := holds1.removeAll 32
    (Nat.lt_of_le_of_lt (List.length_filter_le _ _) enough)
  obtain ⟨untabbed, third, holds3, strayed3⟩ := holds2.removeAll 9
    (Nat.lt_of_le_of_lt (List.length_filter_le _ _)
      (Nat.lt_of_le_of_lt (List.length_filter_le _ _) enough))
  obtain ⟨after, fourth, holds4, strayed4⟩ := holds3.removeAll 10
    (Nat.lt_of_le_of_lt (List.length_filter_le _ _) (Nat.lt_of_le_of_lt (List.length_filter_le _ _)
      (Nat.lt_of_le_of_lt (List.length_filter_le _ _) enough)))
  refine ⟨after, ?_, ?_, ?_⟩
  · rw [Row.removeMarks, first, Option.bind_eq_bind, Option.bind_some, second, Option.bind_some,
      third, Option.bind_some, fourth]
  · simp only [List.filter_filter] at holds4
    refine (List.filter_congr fun byte _ => ?_) ▸ holds4
    rw [Bool.eq_iff_iff]
    simp only [Bool.and_eq_true, decide_eq_true_eq, Removed]
    grind
  · rw [strayed4, strayed3, strayed2, strayed1]
    simp only [List.mem_filter, Removed]
    grind

/-- `process_line` ends with the normalised line, and touches something behind the row exactly
when it has taken something away. -/
theorem Holds.processLine {turns : Nat} (holds : row.Holds held) (enough : held.length < turns) :
    ∃ after, row.processLine maxCharLine turns = some after ∧ after.Holds (normalised held) ∧
      (after.strayed = true ↔ row.strayed = true ∨ ∃ byte ∈ uncommented held, Removed byte) := by
  unfold Row.processLine
  by_cases comment : 35 ∈ held
  · obtain ⟨front, back, rfl, first⟩ := List.eq_append_cons_of_mem comment
    have cut : uncommented (front ++ 35 :: back) = front := by
      have kept : ∀ byte ∈ front, decide (byte ≠ 35) = true := fun byte member =>
        decide_eq_true fun same => first (same ▸ member)
      rw [uncommented, List.takeWhile_append_of_pos kept, List.takeWhile_cons_of_neg (by decide),
        List.append_nil]
    have ended := holds.terminate
    rw [holds.index_some first, normalised, cut]
    cases front with
    | nil => exact ⟨row.terminate 0, rfl, ended, by simp [Row.terminate]⟩
    | cons byte front =>
      exact ended.removeMarks (Nat.lt_of_le_of_lt (by simp) enough)
  · have whole : uncommented held = held := List.takeWhile_eq_self_iff.mpr fun byte member =>
      decide_eq_true fun same => comment (same ▸ member)
    rw [holds.index_none comment, normalised, whole]
    exact holds.removeMarks enough

end Row

/-! ### All the lines -/

theorem filled_holds {line : Str} (heap : Memory) (i : Nat) (noZero : 0 ∉ line)
    (short : line.length < maxCharLine) : (filled heap i line).Holds line := by
  refine ⟨⟨_, rfl⟩, ?_, noZero⟩
  show (line ++ 0 :: load heap _ _).length = maxCharLine
  rw [List.length_append, List.length_cons, load_length]
  omega

/-- A row that was loaded from a line. -/
def LoadedFrom (line : Str) (row : Row) : Prop :=
  row.Holds (normalised line) ∧
    (row.strayed = true ↔ ∃ byte ∈ uncommented line, Removed byte)

theorem loadRows_eq {turns : Nat} {lines : List Str} (heap : Memory) (i : Nat)
    (enough : maxCharLine ≤ turns)
    (room : ∀ line ∈ lines, 0 ∉ line ∧ line.length < maxCharLine) :
    ∃ table, loadRows heap turns i lines = some table ∧ List.Forall₂ LoadedFrom lines table := by
  induction lines generalizing i with
  | nil => exact ⟨[], rfl, .nil⟩
  | cons line lines inductionHypothesis =>
    obtain ⟨noZero, short⟩ := room line List.mem_cons_self
    have holds := filled_holds heap i noZero short
    obtain ⟨row, processed, kept, strayed⟩ := holds.processLine (Nat.lt_of_lt_of_le short enough)
    obtain ⟨table, loaded, each⟩ := inductionHypothesis (i + 1) fun other member =>
      room other (List.mem_cons_of_mem _ member)
    refine ⟨row :: table, ?_, .cons ⟨kept, ?_⟩ each⟩
    · rw [loadRows, processed, Option.bind_eq_bind, Option.bind_some, loaded]
      rfl
    · rw [strayed]
      exact or_iff_right fun same => nomatch same

section

variable {lines : List Str} {table : List Row} (each : List.Forall₂ LoadedFrom lines table)

include each

theorem texts_of_loaded : table.map Row.text = lines.map normalised := by
  induction each with
  | nil => rfl
  | cons row rows inductionHypothesis =>
    rw [List.map_cons, List.map_cons, row.1.text_eq, inductionHypothesis]

theorem contents_of_loaded : contents table = (lines.map normalised).filter (· ≠ []) := by
  rw [contents, texts_of_loaded each]

/-- What is written are the lines that are not empty. -/
theorem dumpConf_of_loaded : dumpConf table = ((contents table).map (· ++ [10])).flatten := by
  induction each with
  | nil => rfl
  | @cons line row lines table loaded others inductionHypothesis =>
    have head := loaded.1.head_iff
    have text := loaded.1.text_eq
    rw [dumpConf, List.flatMap_cons, ← dumpConf, inductionHypothesis, contents, contents,
      List.map_cons, text]
    by_cases empty : normalised line = []
    · rw [if_pos (head.mpr empty), List.filter_cons_of_neg (by simpa using empty), List.nil_append]
    · rw [if_neg (mt head.mp empty), List.filter_cons_of_pos (by simpa using empty), List.map_cons,
        List.flatten_cons]

theorem strayed_of_loaded :
    (∀ row ∈ table, row.strayed = false) ↔
      ∀ line ∈ lines, ∀ byte ∈ uncommented line, ¬Removed byte := by
  induction each with
  | nil =>
    refine iff_of_true (fun row member => ?_) fun line member => ?_
    · exact absurd member List.not_mem_nil
    · exact absurd member List.not_mem_nil
  | @cons line row lines table loaded others inductionHypothesis =>
    rw [List.forall_mem_cons, List.forall_mem_cons, inductionHypothesis, ← Bool.not_eq_true,
      loaded.2]
    simp only [not_exists, not_and]

end

/-! ### Normalised lines -/

theorem normalised_length (line : Str) :
    (normalised line).length ≤ (line.filter (· ≠ 10)).length := by
  refine List.Sublist.length_le ?_
  refine ((List.takeWhile_sublist _).filter _).trans (List.monotone_filter_right line ?_)
  intro byte kept
  exact decide_eq_true fun feed => of_decide_eq_true kept (Or.inr (Or.inr (Or.inr feed)))

theorem of_mem_normalised {line : Str} {byte : UInt8} (member : byte ∈ normalised line) :
    byte ∈ line ∧ byte ≠ 35 ∧ ¬Removed byte := by
  obtain ⟨front, kept⟩ := List.mem_filter.mp member
  refine ⟨(List.takeWhile_sublist _).subset front, ?_, of_decide_eq_true kept⟩
  exact of_decide_eq_true (List.mem_takeWhile_imp (p := fun byte => decide (byte ≠ 35)) front)

/-- A line that is written has no comment. -/
theorem uncommented_written (line : Str) :
    uncommented (normalised line ++ [10]) = normalised line ++ [10] := by
  refine List.takeWhile_eq_self_iff.mpr fun byte member => ?_
  rcases List.mem_append.mp member with inside | feed
  · exact decide_eq_true (of_mem_normalised inside).2.1
  · rw [List.mem_singleton.mp feed]
    decide

/-- A normalised line with a line end is normalised to itself. -/
theorem normalised_again (line : Str) : normalised (normalised line ++ [10]) = normalised line := by
  rw [normalised, uncommented_written, List.filter_append, List.filter_cons_of_neg (by decide),
    List.filter_nil, List.append_nil]
  exact List.filter_eq_self.mpr fun byte member => decide_eq_true (of_mem_normalised member).2.2

/-! ### A file loaded, written and loaded again -/

namespace TextFile

variable (file : TextFile)

theorem readLines_bytes : readLines (maxCharLine - 1) confMaxline file.bytes = file.lines :=
  readLines_text file.each file.noFeed (Nat.le_of_lt file.short) file.count

/-- The lines have room in a row, with their line ends or without. -/
theorem lines_room {line : Str} (member : line ∈ file.lines) :
    (0 ∉ line ∧ line.length < maxCharLine) ∧ (line.filter (· ≠ 10)).length < maxCharLine - 1 := by
  rcases List.mem_append.mp member with complete | last
  · have noZero := file.noZero line (List.mem_append_left _ complete)
    obtain ⟨body, rfl, noFeed, short⟩ := file.each line complete
    have body_eq : (body ++ [10]).filter (· ≠ 10) = body := by
      rw [List.filter_append, List.filter_cons_of_neg (by decide), List.filter_nil, List.append_nil]
      exact List.filter_eq_self.mpr fun byte inside =>
        decide_eq_true fun feed => noFeed (feed ▸ inside)
    refine ⟨⟨noZero, ?_⟩, ?_⟩
    · rw [List.length_append, List.length_singleton]
      omega
    · rw [body_eq]
      exact short
  · have short := file.short
    by_cases empty : file.last = []
    · rw [if_pos empty] at last
      exact absurd last List.not_mem_nil
    · rw [if_neg empty] at last
      rw [List.mem_singleton.mp last]
      have noZero := file.noZero file.last (List.mem_append_right _ List.mem_cons_self)
      have fewer := List.length_filter_le (fun byte => decide (byte ≠ 10)) file.last
      exact ⟨⟨noZero, by omega⟩, by omega⟩

/-- The lines that are written. -/
def dumped : List Str := ((file.lines.map normalised).filter (· ≠ [])).map (· ++ [10])

theorem of_mem_dumped {line : Str} (member : line ∈ file.dumped) :
    ∃ original ∈ file.lines, line = normalised original ++ [10] ∧ normalised original ≠ [] := by
  obtain ⟨kept, inside, rfl⟩ := List.mem_map.mp member
  obtain ⟨mapped, nonempty⟩ := List.mem_filter.mp inside
  obtain ⟨original, listed, rfl⟩ := List.mem_map.mp mapped
  exact ⟨original, listed, rfl, of_decide_eq_true nonempty⟩

theorem dumped_complete {line : Str} (member : line ∈ file.dumped) :
    Complete (maxCharLine - 1) line := by
  obtain ⟨original, listed, rfl, -⟩ := file.of_mem_dumped member
  refine ⟨normalised original, rfl, fun feed => ?_, ?_⟩
  · exact (of_mem_normalised feed).2.2 (Or.inr (Or.inr (Or.inr rfl)))
  · exact Nat.lt_of_le_of_lt (normalised_length original) (file.lines_room listed).2

theorem readLines_dumped :
    readLines (maxCharLine - 1) confMaxline file.dumped.flatten = file.dumped := by
  have few : file.dumped.length ≤ confMaxline := by
    have kept : file.dumped.length ≤ file.lines.length := by
      rw [dumped, List.length_map]
      refine (List.length_filter_le _ _).trans ?_
      rw [List.length_map]
    have count : file.lines.length ≤ confMaxline := by
      refine Nat.le_trans (Nat.le_of_eq ?_) file.count
      rw [lines, List.length_append]
      split <;> rfl
    omega
  have read := @readLines_text (maxCharLine - 1) file.dumped [] confMaxline
    (fun line member => file.dumped_complete member) List.not_mem_nil (Nat.zero_le _) few
  rwa [List.append_nil, if_pos rfl, List.append_nil] at read

/-- The written lines are normalised to what they were written from. -/
theorem map_normalised_dumped :
    (file.dumped.map normalised).filter (· ≠ []) =
      (file.lines.map normalised).filter (· ≠ []) := by
  have same : file.dumped.map normalised = (file.lines.map normalised).filter (· ≠ []) := by
    rw [dumped, List.map_map]
    conv_rhs => rw [← List.map_id ((file.lines.map normalised).filter (· ≠ []))]
    refine List.map_congr_left fun line member => ?_
    obtain ⟨mapped, -⟩ := List.mem_filter.mp member
    obtain ⟨original, -, rfl⟩ := List.mem_map.mp mapped
    exact normalised_again original
  rw [same, List.filter_filter]
  simp only [Bool.and_self]

/-- Both loads, with what they leave in the tables. -/
theorem loads {turns : Nat} (enough : maxCharLine ≤ turns) (heap heap' : Memory) :
    ∃ table table', confparserLoad heap turns file.bytes = some table ∧
      confparserLoad heap' turns (dumpConf table) = some table' ∧
      List.Forall₂ LoadedFrom file.lines table ∧ List.Forall₂ LoadedFrom file.dumped table' := by
  obtain ⟨table, loaded, each⟩ := @loadRows_eq turns file.lines heap 0 enough
    fun line member => (file.lines_room member).1
  obtain ⟨table', reloaded, again⟩ := @loadRows_eq turns file.dumped heap' 0 enough (by
    intro line member
    obtain ⟨original, listed, rfl, -⟩ := file.of_mem_dumped member
    have room := file.lines_room listed
    have shorter := normalised_length original
    refine ⟨fun zero => ?_, ?_⟩
    · rcases List.mem_append.mp zero with inside | feed
      · exact room.1.1 (of_mem_normalised inside).1
      · exact absurd (List.mem_singleton.mp feed) (by decide)
    · rw [List.length_append, List.length_singleton]
      omega)
  refine ⟨table, table', ?_, ?_, each, again⟩
  · rw [confparserLoad, file.readLines_bytes, loaded]
  · have written : dumpConf table = file.dumped.flatten := by
      rw [dumpConf_of_loaded each, contents_of_loaded each, dumped]
    rw [confparserLoad, written, file.readLines_dumped, reloaded]

theorem survives : file.Survives := by
  refine ⟨maxCharLine, fun turns enough heap heap' => ?_⟩
  obtain ⟨table, table', loaded, reloaded, each, again⟩ := file.loads enough heap heap'
  have same : contents table' = contents table := by
    rw [contents_of_loaded again, contents_of_loaded each, file.map_normalised_dumped]
  refine ⟨table, table', loaded, reloaded, contents_of_loaded each, same, ?_⟩
  rw [dumpConf_of_loaded again, dumpConf_of_loaded each, same]

/-- The rows are left exactly when a byte is taken away from a line of the file or from one that
was written. -/
theorem staysInRows_iff_kept :
    file.StaysInRows ↔
      (∀ line ∈ file.lines, ∀ byte ∈ uncommented line, ¬Removed byte) ∧
        ∀ line ∈ file.dumped, ∀ byte ∈ uncommented line, ¬Removed byte := by
  constructor
  · rintro ⟨more, stays⟩
    obtain ⟨table, table', loaded, reloaded, each, again⟩ :=
      file.loads (Nat.le_add_right maxCharLine more) (fun _ => 0) fun _ => 0
    have inside := stays _ (Nat.le_add_left _ _) _ _ table table' loaded reloaded
    exact ⟨(strayed_of_loaded each).mp fun row member => inside row (List.mem_append_left _ member),
      (strayed_of_loaded again).mp fun row member => inside row (List.mem_append_right _ member)⟩
  · rintro ⟨kept, keptAgain⟩
    refine ⟨maxCharLine, fun turns enough heap heap' table table' loaded reloaded row member => ?_⟩
    obtain ⟨first, second, loaded', reloaded', each, again⟩ := file.loads enough heap heap'
    rw [loaded] at loaded'
    cases loaded'
    rw [reloaded] at reloaded'
    cases reloaded'
    rcases List.mem_append.mp member with inFirst | inSecond
    · exact (strayed_of_loaded each).mpr kept row inFirst
    · exact (strayed_of_loaded again).mpr keptAgain row inSecond

/-- Every line that is written loses its line end. -/
theorem not_kept_of_mem_dumped {line : Str} (member : line ∈ file.dumped) :
    ∃ byte ∈ uncommented line, Removed byte := by
  obtain ⟨original, -, rfl, -⟩ := file.of_mem_dumped member
  refine ⟨10, ?_, Or.inr (Or.inr (Or.inr rfl))⟩
  rw [uncommented_written]
  exact List.mem_append_right _ List.mem_cons_self

theorem lines_nonempty {line : Str} (member : line ∈ file.lines) : line ≠ [] := by
  rcases List.mem_append.mp member with complete | last
  · exact (file.each line complete).nonempty
  · by_cases empty : file.last = []
    · rw [if_pos empty] at last
      exact absurd last List.not_mem_nil
    · rw [if_neg empty] at last
      rw [List.mem_singleton.mp last]
      exact empty

/-- A line is kept in its row without leaving anything to be written only when it is a comment. -/
theorem staysInRows_iff :
    file.StaysInRows ↔ ∀ line ∈ file.lines, line.head? = some 35 := by
  rw [staysInRows_iff_kept]
  constructor
  · rintro ⟨kept, keptAgain⟩ line member
    have empty : uncommented line = [] := by
      have whole : normalised line = uncommented line := List.filter_eq_self.mpr
        fun byte inside => decide_eq_true (kept line member byte inside)
      by_contra nonempty
      have written : normalised line ++ [10] ∈ file.dumped := by
        refine List.mem_map.mpr ⟨normalised line, List.mem_filter.mpr ⟨?_, ?_⟩, rfl⟩
        · exact List.mem_map.mpr ⟨line, member, rfl⟩
        · rw [whole]
          exact decide_eq_true nonempty
      obtain ⟨byte, inside, removed⟩ := file.not_kept_of_mem_dumped written
      exact keptAgain _ written byte inside removed
    cases line with
    | nil => exact absurd rfl (file.lines_nonempty member)
    | cons byte line =>
      by_cases comment : byte = 35
      · rw [comment]
        rfl
      · rw [uncommented, List.takeWhile_cons_of_pos (by simpa using comment)] at empty
        cases empty
  · intro comments
    have empty : ∀ line ∈ file.lines, uncommented line = [] := by
      intro line member
      cases line with
      | nil => rfl
      | cons byte line =>
        have comment : byte = 35 := Option.some.inj (comments _ member)
        rw [uncommented, comment, List.takeWhile_cons_of_neg (by decide)]
    constructor
    · intro line member byte inside
      rw [empty line member] at inside
      exact absurd inside List.not_mem_nil
    · intro line member
      obtain ⟨original, listed, -, nonempty⟩ := file.of_mem_dumped member
      rw [normalised, empty original listed] at nonempty
      exact absurd rfl nonempty

end TextFile

/-- Every file is the same after it was loaded, written and loaded again, but only a file of
comments is loaded and written without leaving the rows. -/
theorem conf_survives_iff (file : TextFile) :
    file.Survives ∧
      (file.Survives ∧ file.StaysInRows ↔ ∀ line ∈ file.lines, line.head? = some 35) :=
  ⟨file.survives, by rw [and_iff_right file.survives, file.staysInRows_iff]⟩

/-! ### A line that reads behind its row -/

/-- The file with the one line `A=1`. -/
def oneSetting : TextFile where
  complete := [[65, 61, 49, 10]]
  last := []
  each := fun line member => by
    rw [List.mem_singleton.mp member]
    exact ⟨[65, 61, 49], rfl, by decide, by decide⟩
  noFeed := by decide
  short := by decide
  noZero := by decide
  count := by decide

/-- Taking the line end away reads the byte behind the row. -/
theorem row_left : ¬(oneSetting.Survives ∧ oneSetting.StaysInRows) := by
  rintro ⟨-, stays⟩
  have kept := (oneSetting.staysInRows_iff_kept.mp stays).1
  exact kept [65, 61, 49, 10] (by decide) 10 (by decide) (by decide)

end ExmOnvif.Confparser
