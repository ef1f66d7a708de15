/-
This file models the store of the configuration parser, lines of the form `KEY=VALUE` in rows
of a table, and says when reading and setting a key is right.

Both functions look for the key by its text. The getter asks that it stands at the front of
the line; when no line is the right one, it decides by what it found in the last line, and a
line whose key only begins with the key asked for then passes for the right one. The setter
takes the first place where the text occurs and only asks for the mark behind it, so that a
line whose key ends with the key to be set is written over. Nor does it ask whether the row,
or the table, has room.
-/

import ExmOnvif.Library.Bytes
import ExmOnvif.Library.Text

namespace ExmOnvif.Confparser

open Library

/-- `CONF_MAXLINE`: the rows of the table. -/
def confMaxline : Nat := 200

/-- `MAX_CHAR_LINE`: the bytes of a row. -/
def maxCharLine : Nat := 256

/-- The mark between a key and its value. -/
def mark : UInt8 := 61

/-! ### Reading -/

/-- `strchr(name, '=')`, and the text behind it. -/
def behindMark (name : Str) : Option Str := (name.dropWhile (· ≠ mark)).tail?

/-- The loop of `confparser_getstring`, and what follows it. `name` is the line of the turn
before, if the key stood at its front. No value stands for the default. -/
def getstringFrom (key : Str) : Option Str → List Str → Option Str
  | name, [] => name.bind behindMark
  | _, p :: filebuf =>
    if strstr key p = some p then
      if (p.drop key.length).head? ≠ some mark then getstringFrom key (some p) filebuf
      else if (p.drop key.length).tail = [] then none
      else behindMark p
    else getstringFrom key none filebuf

/-- `confparser_getstring`. -/
def getstring (filebuf : List Str) (key : Str) : Option Str := getstringFrom key none filebuf

/-! ### Setting -/

/-- The loop of `confparser_setstr`: the lines with the first one written over that has the
key with a mark or a blank behind it. -/
def setLine (key text : Str) : List Str → Option (List Str)
  | [] => none
  | p :: filebuf =>
    match strstr key p with
    | none => (setLine key text filebuf).map (p :: ·)
    | some name =>
      if (name.drop key.length).head? ≠ some mark ∧ (name.drop key.length).head? ≠ some 32 then
        (setLine key text filebuf).map (p :: ·)
      else some (text :: filebuf)

/-- `confparser_setstr`: the lines afterwards, or nothing when it writes behind the end of a row
or of the table. -/
def setstr (filebuf : List Str) (key val : Str) : Option (List Str) :=
  let text := key ++ mark :: val
  if maxCharLine ≤ text.length then none
  else
    match setLine key text filebuf with
    | some after => some after
    | none => if filebuf.length < confMaxline then some (filebuf ++ [text]) else none

/-! ### The map -/

/-- A text without marks, blanks, quotes, comment marks or terminators. -/
def Clear (text : Str) : Prop :=
  ∀ byte ∈ text, byte ≠ mark ∧ byte ≠ 32 ∧ byte ≠ 9 ∧ byte ≠ 34 ∧ byte ≠ 35 ∧ byte ≠ 0

instance (text : Str) : Decidable (Clear text) := List.decidableBAll _ text

/-- A key with its value. -/
structure Entry where
  key : Str
  value : Str
  keyClear : Clear key
  valueClear : Clear value
deriving DecidableEq

/-- The line of an entry. -/
def Entry.text (entry : Entry) : Str := entry.key ++ mark :: entry.value

/-- A `confdict` whose lines are entries. -/
structure Confdict where
  entries : List Entry
  lines : entries.length ≤ confMaxline
  fits : ∀ entry ∈ entries, entry.text.length < maxCharLine

/-- The rows of a list of entries. -/
def rows (entries : List Entry) : List Str := entries.map Entry.text

/-- The value of the first line with exactly this key. -/
def valueOf (entries : List Entry) (key : Str) : Option Str :=
  (entries.find? (·.key = key)).map Entry.value

/-- The getter returns the value of a key, if it has one and it is not empty. -/
def Confdict.GetsRight (dict : Confdict) (key : Str) : Prop :=
  getstring (rows dict.entries) key = (valueOf dict.entries key).filter (· ≠ [])

/-- Setting an entry gives its key the value, leaves the values of the other keys alone and adds a
line exactly for a key that was absent. -/
def Confdict.SetsRight (dict : Confdict) (entry : Entry) : Prop :=
  ∃ after, setstr (rows dict.entries) entry.key entry.value = some (rows after) ∧
    valueOf after entry.key = some entry.value ∧
    (∀ other, other ≠ entry.key → valueOf after other = valueOf dict.entries other) ∧
    after.length =
      dict.entries.length + (if valueOf dict.entries entry.key = none then 1 else 0) ∧
    after.length ≤ confMaxline

/-- The key is there, or the key of the last line does not begin with it. -/
def Confdict.Found (dict : Confdict) (key : Str) : Prop :=
  valueOf dict.entries key ≠ none ∨
    ∀ last, dict.entries.getLast? = some last → ¬key <+: last.key

/-- The first place where one key has the text of another is at its end. -/
def Entry.EndsWith (entry : Entry) (key : Str) : Prop := strstr key entry.key = some key

instance (entry : Entry) (key : Str) : Decidable (entry.EndsWith key) :=
  inferInstanceAs (Decidable (_ = _))

/-- The lines from the first one on whose key ends with a key. -/
def fromHit (entries : List Entry) (key : Str) : List Entry :=
  entries.dropWhile fun line => ¬line.EndsWith key

/-- The entry fits into a row. The first line whose key ends with its key is the one to be set;
another one may be lost only when the key to be set is there behind it, and a later line has the
lost key with the same value. With no such line there is a free row. -/
def Confdict.Placed (dict : Confdict) (entry : Entry) : Prop :=
  entry.text.length < maxCharLine ∧
    match fromHit dict.entries entry.key with
    | [] => dict.entries.length < confMaxline
    | line :: behind =>
      line.key = entry.key ∨
        valueOf dict.entries entry.key ≠ none ∧ valueOf behind line.key = some line.value

/-! ### Lines of entries -/

theorem Clear.notMem {text : Str} (clear : Clear text) : mark ∉ text :=
  fun member => (clear mark member).1 rfl

theorem Entry.ext_iff {first second : Entry} :
    first = second ↔ first.key = second.key ∧ first.value = second.value := by
  obtain ⟨key, value, _, _⟩ := first
  obtain ⟨otherKey, otherValue, _, _⟩ := second
  rw [Entry.mk.injEq]

/-- An entry is known by its line. -/
theorem Entry.text_injective {first second : Entry} (same : first.text = second.text) :
    first = second := by
  have clear : ∀ entry : Entry, ∀ byte ∈ entry.key, byte ∉ [mark] := by
    intro entry byte member inside
    rw [List.mem_singleton.mp inside] at member
    exact entry.keyClear.notMem member
  have key : first.key = second.key :=
    eq_of_marked (List.cons_ne_nil _ _) (clear first) (clear second) same
  refine Entry.ext_iff.mpr ⟨key, ?_⟩
  unfold Entry.text at same
  rw [key] at same
  exact (List.cons.inj (List.append_cancel_left same)).2

theorem rows_injective {first second : List Entry} (same : rows first = rows second) :
    first = second :=
  List.map_injective_iff.mpr (fun _ _ => Entry.text_injective) same

theorem behindMark_text (entry : Entry) : behindMark entry.text = some entry.value := by
  have passed : ∀ byte ∈ entry.key, decide (byte ≠ mark) = true := fun byte member =>
    decide_eq_true (entry.keyClear byte member).1
  rw [behindMark, Entry.text, List.dropWhile_append_of_pos passed,
    List.dropWhile_cons_of_neg (by decide)]
  rfl

/-- What stands behind a key at the front of a line is the mark only in the line of that key. -/
theorem Entry.head_drop {entry : Entry} {key : Str} (front : key <+: entry.key) :
    (entry.text.drop key.length).head? = some mark ↔ entry.key = key := by
  obtain ⟨more, same⟩ := front
  have behind : entry.text.drop key.length = more ++ mark :: entry.value := by
    rw [Entry.text, ← same, List.append_assoc, List.drop_left]
  rw [behind]
  cases more with
  | nil => exact iff_of_true rfl (by rw [← same, List.append_nil])
  | cons byte more =>
    have other : byte ≠ mark := (entry.keyClear byte (by
      rw [← same]
      exact List.mem_append_right _ List.mem_cons_self)).1
    refine iff_of_false (fun head => other (Option.some.inj head)) fun equal => ?_
    rw [← same] at equal
    exact absurd (List.append_right_eq_self.mp equal) (List.cons_ne_nil _ _)

/-! ### When a key is read right -/

section

variable {key : Str} (clear : Clear key)

include clear

theorem strstr_front_iff (entry : Entry) :
    strstr key entry.text = some entry.text ↔ key <+: entry.key := by
  rw [strstr_eq_self_iff, Entry.text, prefix_marked clear.notMem]

/-- The getter finds the first line of the key, and without one it takes the last line if the key
stands at its front. -/
theorem getstringFrom_rows (name : Option Str) (entries : List Entry) :
    getstringFrom key name (rows entries) =
      match entries.find? (·.key = key) with
      | some entry => if entry.value = [] then none else some entry.value
      | none =>
        match entries.getLast? with
        | none => name.bind behindMark
        | some last => if key <+: last.key then some last.value else none := by
  induction entries generalizing name with
  | nil => rfl
  | cons entry entries inductionHypothesis =>
    rw [rows, List.map_cons, ← rows, getstringFrom]
    by_cases front : key <+: entry.key
    · rw [if_pos ((strstr_front_iff clear entry).mpr front)]
      by_cases same : entry.key = key
      · have value : (entry.text.drop key.length).tail = entry.value := by
          rw [Entry.text, same, List.drop_left]
          rfl
        rw [if_neg (not_not.mpr ((Entry.head_drop front).mpr same)), value,
          List.find?_cons_of_pos (by simpa using same), behindMark_text]
      · rw [if_pos (mt (Entry.head_drop front).mp same), inductionHypothesis,
          List.find?_cons_of_neg (by simpa using same)]
        cases entries with
        | nil =>
          dsimp only [List.find?_nil, List.getLast?_nil, List.getLast?_singleton]
          rw [if_pos front]
          exact behindMark_text entry
        | cons next entries => rw [List.getLast?_cons_cons, List.getLast?_cons]
    · rw [if_neg (mt (strstr_front_iff clear entry).mp front), inductionHypothesis]
      have other : entry.key ≠ key := fun same => front (same ▸ List.prefix_refl _)
      rw [List.find?_cons_of_neg (by simpa using other)]
      cases entries with
      | nil =>
        dsimp only [List.find?_nil, List.getLast?_nil, List.getLast?_singleton]
        rw [if_neg front]
        rfl
      | cons next entries => rw [List.getLast?_cons_cons, List.getLast?_cons]

theorem gets_right_iff (dict : Confdict) : dict.GetsRight key ↔ dict.Found key := by
  unfold Confdict.GetsRight Confdict.Found getstring valueOf
  rw [getstringFrom_rows clear]
  cases found : dict.entries.find? (·.key = key) with
  | some entry =>
    refine iff_of_true ?_ (Or.inl fun absent => nomatch absent)
    dsimp only
    rw [Option.map_some, Option.filter_some]
    by_cases empty : entry.value = []
    · rw [if_pos empty, if_neg (by simpa using empty)]
    · rw [if_neg empty, if_pos (by simpa using empty)]
  | none =>
    dsimp only
    rw [Option.map_none, Option.filter_none, or_iff_right (fun absent => absent rfl)]
    cases newest : dict.entries.getLast? with
    | none => exact iff_of_true rfl fun last same => nomatch same
    | some last =>
      dsimp only
      by_cases front : key <+: last.key
      · rw [if_pos front]
        exact iff_of_false (fun same => nomatch same) fun every => every last rfl front
      · rw [if_neg front]
        refine iff_of_true rfl fun other same => ?_
        cases same
        exact front

/-! ### Which line is set -/

omit clear in
/-- No part of a clear text begins with a mark or a blank. -/
theorem Clear.passes {source more : Str} (clear : Clear source)
    (inside : ∀ byte ∈ more, byte ∈ source) :
    more.head? ≠ some mark ∧ more.head? ≠ some 32 := by
  cases more with
  | nil =>
    constructor
    · intro same
      cases same
    · intro same
      cases same
  | cons byte more =>
    have facts := clear byte (inside byte List.mem_cons_self)
    exact ⟨fun same => facts.1 (Option.some.inj same),
      fun same => facts.2.1 (Option.some.inj same)⟩

omit clear in
/-- A key ends with a text exactly when nothing of it stands behind the first place of the
text. -/
theorem Entry.endsWith_iff {line : Entry} {found more : Str}
    (inKey : strstr key line.key = some found) (same : key ++ more = found) :
    line.EndsWith key ↔ more = [] := by
  rw [Entry.EndsWith, inKey, ← same, Option.some.injEq]
  exact List.append_right_eq_self

/-- The line whose key ends with the key is written over. -/
theorem setLine_of_endsWith (text : Str) {line : Entry} (filebuf : List Str)
    (ends : line.EndsWith key) :
    setLine key text (line.text :: filebuf) = some (text :: filebuf) := by
  have search := @strstr_marked _ key _ mark line.key line.value clear.notMem
  rw [← Entry.text, ends] at search
  have hit : ¬((mark :: line.value).head? ≠ some mark ∧ (mark :: line.value).head? ≠ some 32) :=
    fun both => both.1 rfl
  rw [setLine, search]
  dsimp only
  rw [List.drop_left, if_neg hit]

/-- Another line is passed over, wherever it has the text of the key. -/
theorem setLine_of_other (text : Str) {line : Entry} (filebuf : List Str)
    (other : ¬line.EndsWith key) :
    setLine key text (line.text :: filebuf) = (setLine key text filebuf).map (line.text :: ·) := by
  have search := @strstr_marked _ key _ mark line.key line.value clear.notMem
  rw [← Entry.text] at search
  rw [setLine, search]
  cases inKey : strstr key line.key with
  | some found =>
    obtain ⟨behind, more, same⟩ := strstr_found inKey
    dsimp only
    rw [← same, List.append_assoc, List.drop_left]
    cases more with
    | nil => exact absurd ((Entry.endsWith_iff inKey same).mpr rfl) other
    | cons byte more =>
      have member : byte ∈ line.key := by
        refine behind.subset ?_
        rw [← same]
        exact List.mem_append_right _ List.mem_cons_self
      have passed : (byte :: more ++ mark :: line.value).head? ≠ some mark ∧
          (byte :: more ++ mark :: line.value).head? ≠ some 32 :=
        @Clear.passes line.key [byte] line.keyClear fun _ single => by
          rw [List.mem_singleton.mp single]
          exact member
      rw [if_pos passed]
  | none =>
    cases inValue : strstr key line.value with
    | none => rfl
    | some found =>
      obtain ⟨behind, -⟩ := strstr_found inValue
      dsimp only
      rw [if_pos (line.valueClear.passes fun byte member =>
        behind.subset (List.mem_of_mem_drop member))]

/-- The setter writes over the first line whose key ends with the key, if there is one. -/
theorem setLine_rows (text : Str) (entries : List Entry) :
    ((∀ line ∈ entries, ¬line.EndsWith key) ∧ fromHit entries key = [] ∧
        setLine key text (rows entries) = none) ∨
      ∃ before line behind, entries = before ++ line :: behind ∧
        (∀ other ∈ before, ¬other.EndsWith key) ∧ fromHit entries key = line :: behind ∧
        setLine key text (rows entries) = some (rows before ++ text :: rows behind) := by
  induction entries with
  | nil => exact Or.inl ⟨fun line member => absurd member List.not_mem_nil, rfl, rfl⟩
  | cons line entries inductionHypothesis =>
    rw [rows, List.map_cons, ← rows, fromHit]
    by_cases ends : line.EndsWith key
    · rw [List.dropWhile_cons_of_neg (by simpa using ends), setLine_of_endsWith clear text _ ends]
      exact Or.inr ⟨[], line, entries, rfl, fun other member => absurd member List.not_mem_nil, rfl,
        rfl⟩
    · rw [List.dropWhile_cons_of_pos (by simpa using ends), ← fromHit,
        setLine_of_other clear text _ ends]
      have front : ∀ before : List Entry, (∀ other ∈ before, ¬other.EndsWith key) →
          ∀ other ∈ line :: before, ¬other.EndsWith key := by
        intro before others other member
        rcases List.mem_cons.mp member with rfl | later
        · exact ends
        · exact others other later
      rcases inductionHypothesis with ⟨none, nothing, kept⟩ | ⟨before, hit, behind, split, first,
        found, set⟩
      · exact Or.inl ⟨front entries none, nothing, by rw [kept]; rfl⟩
      · exact Or.inr ⟨line :: before, hit, behind, by rw [split]; rfl, front before first, found,
          by rw [set]; rfl⟩

end

/-! ### Values in a list of entries -/

theorem valueOf_cons_self (entry : Entry) (entries : List Entry) :
    valueOf (entry :: entries) entry.key = some entry.value := by
  rw [valueOf, List.find?_cons_of_pos (by simp)]
  rfl

theorem valueOf_cons_other {entry : Entry} {key : Str} (other : entry.key ≠ key)
    (entries : List Entry) : valueOf (entry :: entries) key = valueOf entries key := by
  rw [valueOf, List.find?_cons_of_neg (by simpa using other), ← valueOf]

/-- Lines with other keys in front do not count. -/
theorem valueOf_append {before : List Entry} {key : Str}
    (others : ∀ entry ∈ before, entry.key ≠ key) (entries : List Entry) :
    valueOf (before ++ entries) key = valueOf entries key := by
  induction before with
  | nil => rfl
  | cons entry before inductionHypothesis =>
    rw [List.cons_append, valueOf_cons_other (others entry List.mem_cons_self)]
    exact inductionHypothesis fun other member => others other (List.mem_cons_of_mem _ member)

/-- A value in front counts before all others. -/
theorem valueOf_append_congr (before : List Entry) {entries others : List Entry} {key : Str}
    (same : valueOf entries key = valueOf others key) :
    valueOf (before ++ entries) key = valueOf (before ++ others) key := by
  induction before with
  | nil => exact same
  | cons entry before inductionHypothesis =>
    by_cases here : entry.key = key
    · subst here
      rw [List.cons_append, List.cons_append, valueOf_cons_self, valueOf_cons_self]
    · rw [List.cons_append, List.cons_append, valueOf_cons_other here, valueOf_cons_other here]
      exact inductionHypothesis

/-- An entry in the place of another changes the values of their two keys only. -/
theorem valueOf_replace (before : List Entry) {entry line : Entry} (behind : List Entry) {key : Str}
    (notEntry : key ≠ entry.key) (notLine : key ≠ line.key) :
    valueOf (before ++ entry :: behind) key = valueOf (before ++ line :: behind) key := by
  refine valueOf_append_congr before ?_
  rw [valueOf_cons_other notEntry.symm, valueOf_cons_other notLine.symm]

theorem valueOf_eq_none {entries : List Entry} {key : Str} :
    valueOf entries key = none ↔ ∀ entry ∈ entries, entry.key ≠ key := by
  rw [valueOf, Option.map_eq_none_iff, List.find?_eq_none]
  simp only [decide_eq_true_eq, ne_eq]

/-- The line of a key ends with it. -/
theorem Entry.endsWith_self {entry : Entry} {key : Str} (same : entry.key = key) :
    entry.EndsWith key := by
  rw [Entry.EndsWith, same]
  exact strstr_here (List.prefix_refl _)

/-! ### When a key is set right -/

/-- What is set right is known by the lines afterwards. -/
theorem setsRight_iff_of_eq {dict : Confdict} {entry : Entry} {after : List Entry}
    (set : setstr (rows dict.entries) entry.key entry.value = some (rows after)) :
    dict.SetsRight entry ↔
      valueOf after entry.key = some entry.value ∧
      (∀ other, other ≠ entry.key → valueOf after other = valueOf dict.entries other) ∧
      after.length =
        dict.entries.length + (if valueOf dict.entries entry.key = none then 1 else 0) ∧
      after.length ≤ confMaxline := by
  constructor
  · rintro ⟨others, same, facts⟩
    rw [set] at same
    rw [rows_injective (Option.some.inj same)]
    exact facts
  · exact fun facts => ⟨after, set, facts⟩

/-- A key that is absent. -/
theorem setsRight_of_absent {dict : Confdict} {entry : Entry}
    (absent : valueOf dict.entries entry.key = none)
    (set : setstr (rows dict.entries) entry.key entry.value =
      if dict.entries.length < confMaxline then some (rows (dict.entries ++ [entry])) else none) :
    dict.SetsRight entry ↔ dict.entries.length < confMaxline := by
  by_cases room : dict.entries.length < confMaxline
  · rw [if_pos room] at set
    rw [setsRight_iff_of_eq set]
    have others := valueOf_eq_none.mp absent
    refine iff_of_true ⟨?_, fun other different => ?_, ?_, ?_⟩ room
    · rw [valueOf_append others, valueOf_cons_self]
    · have rest : valueOf [entry] other = valueOf [] other := valueOf_cons_other different.symm []
      rw [valueOf_append_congr dict.entries rest, List.append_nil]
    · rw [if_pos absent, List.length_append, List.length_singleton]
    · rw [List.length_append, List.length_singleton]
      exact room
  · rw [if_neg room] at set
    refine iff_of_false ?_ room
    rintro ⟨after, same, -⟩
    rw [set] at same
    cases same

/-- A line that is written over. -/
theorem setsRight_of_hit {dict : Confdict} {entry line : Entry} {before behind : List Entry}
    (split : dict.entries = before ++ line :: behind)
    (first : ∀ other ∈ before, ¬other.EndsWith entry.key)
    (ends : line.EndsWith entry.key)
    (set : setstr (rows dict.entries) entry.key entry.value =
      some (rows (before ++ entry :: behind))) :
    dict.SetsRight entry ↔ line.key = entry.key ∨
      valueOf dict.entries entry.key ≠ none ∧ valueOf behind line.key = some line.value := by
  have noKey : ∀ other ∈ before, other.key ≠ entry.key :=
    fun other member same => first other member (Entry.endsWith_self same)
  have noLine : ∀ other ∈ before, other.key ≠ line.key := by
    intro other member same
    refine first other member ?_
    rw [Entry.EndsWith, same]
    exact ends
  have lines := dict.lines
  have length : (before ++ entry :: behind).length = dict.entries.length := by
    rw [split, List.length_append, List.length_append, List.length_cons, List.length_cons]
  have value : valueOf (before ++ entry :: behind) entry.key = some entry.value := by
    rw [valueOf_append noKey, valueOf_cons_self]
  rw [setsRight_iff_of_eq set, length]
  by_cases same : line.key = entry.key
  · have present : valueOf dict.entries entry.key ≠ none := by
      rw [split, valueOf_append noKey, ← same, valueOf_cons_self]
      exact fun absent => nomatch absent
    refine iff_of_true ⟨value, fun other different => ?_, ?_, lines⟩ (Or.inl same)
    · rw [split]
      exact valueOf_replace before behind different (same ▸ different)
    · rw [if_neg present]
      rfl
  · rw [or_iff_right same]
    have lost : valueOf dict.entries line.key = some line.value := by
      rw [split, valueOf_append noLine, valueOf_cons_self]
    have left : valueOf (before ++ entry :: behind) line.key = valueOf behind line.key := by
      rw [valueOf_append noLine, valueOf_cons_other fun equal => same equal.symm]
    constructor
    · rintro ⟨-, others, count, -⟩
      constructor
      · intro absent
        rw [if_pos absent] at count
        omega
      · rw [← left, others line.key same, lost]
    · rintro ⟨present, later⟩
      refine ⟨value, fun other different => ?_, by rw [if_neg present]; rfl, lines⟩
      by_cases here : other = line.key
      · rw [here, left, later, lost]
      · rw [split]
        exact valueOf_replace before behind different here

theorem sets_right_iff (dict : Confdict) (entry : Entry) :
    dict.SetsRight entry ↔ dict.Placed entry := by
  unfold Confdict.Placed
  by_cases fits : entry.text.length < maxCharLine
  · have room : ¬maxCharLine ≤ (entry.key ++ mark :: entry.value).length := Nat.not_le.mpr fits
    rw [and_iff_right fits]
    rcases setLine_rows entry.keyClear entry.text dict.entries with ⟨none, nothing, kept⟩ |
      ⟨before, line, behind, split, first, found, set⟩
    · rw [nothing]
      have absent : valueOf dict.entries entry.key = Option.none := valueOf_eq_none.mpr
        fun line member same => none line member (Entry.endsWith_self same)
      refine setsRight_of_absent absent ?_
      rw [setstr, if_neg room, ← Entry.text, kept]
      dsimp only
      rw [rows, rows, List.map_append, List.length_map]
      rfl
    · rw [found]
      have ends : line.EndsWith entry.key := by
        have head := List.head?_dropWhile_not (fun line => ¬line.EndsWith entry.key) dict.entries
        rw [← fromHit, found] at head
        simpa using head
      refine setsRight_of_hit split first ends ?_
      rw [setstr, if_neg room, ← Entry.text, set]
      dsimp only
      rw [rows, rows, rows, List.map_append, List.map_cons]
  · have short : maxCharLine ≤ (entry.key ++ mark :: entry.value).length := Nat.not_lt.mp fits
    refine iff_of_false ?_ fun both => fits both.1
    rintro ⟨after, same, -⟩
    rw [setstr, if_pos short] at same
    cases same

/-- The store is a map for a key and a value exactly when the getter's last line does not mislead
it and the setter meets the right line first, with room for the entry. -/
theorem store_is_map_iff (dict : Confdict) (entry : Entry) :
    (dict.GetsRight entry.key ∧ dict.SetsRight entry) ↔
      dict.Found entry.key ∧ dict.Placed entry :=
  and_congr (gets_right_iff entry.keyClear dict) (sets_right_iff dict entry)

/-! ### A key that ends with another -/

/-- The text of an ASCII string. -/
def bytesOf (text : List Char) : Str := text.map fun letter => UInt8.ofNat letter.toNat

/-- `SUBIP=1`. -/
def subIp : Entry := ⟨bytesOf ['S', 'U', 'B', 'I', 'P'], bytesOf ['1'], by decide, by decide⟩

/-- `IP=2`. -/
def ip : Entry := ⟨bytesOf ['I', 'P'], bytesOf ['2'], by decide, by decide⟩

/-- A store with one line. -/
def oneLine : Confdict := ⟨[subIp], by decide, by decide⟩

/-- Setting `IP` writes over the line of `SUBIP`. -/
theorem other_key_lost : ¬(oneLine.GetsRight ip.key ∧ oneLine.SetsRight ip) := by
  rintro ⟨-, after, set, -, -, count, -⟩
  have length : (rows after).length = 1 := by
    have written : setstr (rows oneLine.entries) ip.key ip.value = some [ip.text] := by decide
    rw [written] at set
    rw [← Option.some.inj set]
    rfl
  have absent : valueOf oneLine.entries ip.key = none := by decide
  rw [rows, List.length_map, count, if_pos absent] at length
  exact absurd length (by decide)

end ExmOnvif.Confparser
