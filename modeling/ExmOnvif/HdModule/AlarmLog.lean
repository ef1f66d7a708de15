/-
This file models the log in which the recorder notes its alarms and the commands it was
given, and proves when the last of them is found there again after a restart.

The records are lines of text, printed one behind the other; they are read backwards from
the end, as structures of forty-four bytes. A log that has become long is put aside before
the next record, and only the new one is read.
-/

import ExmOnvif.Library.Runs
import ExmOnvif.HdModule.FileName

namespace ExmOnvif.HdModule

open Library

/-! ### Records -/

/-- What `gettimeofday` and `localtime` give. -/
inductive Clock where
  | failed
  | unknown
  | known (tm : Tm)
deriving DecidableEq, Repr

/-- The bytes of a text. -/
def ascii (text : Text) : List UInt8 := text.map fun char => UInt8.ofNat char.toNat

/-- The first field of a record. Without a time the text says so, in a code of two bytes a
character. -/
def timeText : Clock → List UInt8
  | .failed =>
    [0x3c, 0xbb, 0xf1, 0xc8, 0xa1, 0xcf, 0xb5, 0xcd, 0xb3, 0xca, 0xb1, 0xbc, 0xe4, 0xca, 0xb1,
      0xb3, 0xf6, 0xb4, 0xed, 0x20, 0x3e, 0x20, 0x20, 0x20]
  | .unknown => []
  | .known tm =>
    ascii ('<' :: printDecimal 4 (tm.year + 1900) ++ '-' :: printDecimal 2 (tm.mon + 1) ++
      '-' :: printDecimal 2 tm.mday ++ ' ' :: printDecimal 2 tm.hour ++
      ':' :: printDecimal 2 tm.min ++ ':' :: printDecimal 2 tm.sec ++ ['>', ' ', ' ', ' '])

/-- The mark of a command to stop recording by hand. -/
def stopMark : List UInt8 := ascii ['[', 'S', 'T', 'O', 'P', ']', ' ']

/-- The mark of a command to record by hand. -/
def saveMark : List UInt8 := ascii ['[', 'S', 'A', 'V', 'E', ']', ' ']

/-- The mark of a command to clear the alarms. -/
def clearMark : List UInt8 := ascii ['[', 'C', 'L', 'E', 'A', 'R', ']']

/-- The mark of an alarm. -/
def alarmMark : List UInt8 := ascii ['[', 'A', 'L', 'A', 'R', 'M', ']']

/-- The rest of a record of `dump_clearinfo_to_log`. -/
def clearText : List UInt8 := clearMark ++ (List.replicate 12 0x20 ++ [0x0a])

/-- The rest of a record of `dump_saveinfo_to_log`. -/
def saveText (mode time : Int) : List UInt8 :=
  if mode = 1 then
    saveMark ++ (0x20 :: ascii (printDecimal 5 time) ++ [0xc3, 0xeb, 0x20, 0x20, 0x20, 0x20, 0x0a])
  else if mode = 0 then stopMark ++ (List.replicate 12 0x20 ++ [0x0a])
  else []

/-! ### The log -/

/-- `sizeof(struct alarm_log_struct)`. -/
def sizeofLog : Nat := 44

/-- The log, where it exists. -/
abbrev AlarmLog := Option (List UInt8)

namespace AlarmLog

/-- A log of 128 kilobytes is renamed. -/
def rotate : AlarmLog → AlarmLog
  | none => none
  | some bytes => if 128 ≤ bytes.length / 1024 then none else some bytes

theorem rotate_of_short {log : AlarmLog} (short : (log.getD []).length < 131072) :
    log.rotate = log := by
  cases log with
  | none => rfl
  | some bytes =>
    have few : bytes.length < 131072 := short
    exact if_neg (by omega)

/-- A record is printed at the end. -/
def print (log : AlarmLog) (record : List UInt8) : AlarmLog := some (log.getD [] ++ record)

/-- `dump_clearinfo_to_log`. -/
def dumpClearinfo (log : AlarmLog) (clock : Clock) : AlarmLog :=
  log.rotate.print (timeText clock ++ clearText)

/-- `dump_saveinfo_to_log`. -/
def dumpSaveinfo (log : AlarmLog) (clock : Clock) (mode time : Int) : AlarmLog :=
  log.rotate.print (timeText clock ++ saveText mode time)

/-- The first seven bytes of the type of a structure. -/
def markOf (record : List UInt8) : List UInt8 := (record.drop 24).take 7

/-- The loop of the two readers, in a number of turns: whether the mark looked for was found, and
the structure. A place before the start of the log is not sought, and the structure is then read
from where the reader stands. -/
def search (bytes : List UInt8) (marks : List (List UInt8)) (wanted : List UInt8) :
    Nat → Nat → Nat → List UInt8 → Option (Bool × List UInt8)
  | 0, _, _, _ => none
  | turns + 1, row, place, log =>
    let sought := decide (row * sizeofLog ≤ bytes.length)
    let start := if sought then bytes.length - row * sizeofLog else place
    let read := (bytes.drop start).take sizeofLog
    let record := read ++ log.drop read.length
    if markOf record ∈ marks then some (false, record)
    else if markOf record = wanted then some (true, record)
    else if sought then search bytes marks wanted turns (row + 1) (start + read.length) record
    else some (false, record)

/-- A reader of the log, over what was in the structure before. -/
def check (log : AlarmLog) (marks : List (List UInt8)) (wanted old : List UInt8) :
    Option (Bool × List UInt8) :=
  match log with
  | none => some (false, old)
  | some bytes => search bytes marks wanted (bytes.length / sizeofLog + 1) 1 0 old

/-- `check_alarmlog_for_trigflag`. -/
def checkForTrigflag (log : AlarmLog) (old : List UInt8) : Option (Bool × List UInt8) :=
  log.check [clearMark] alarmMark old

/-- `check_alarmlog_for_hqsaveflag`. -/
def checkForHqsaveflag (log : AlarmLog) (old : List UInt8) : Option (Bool × List UInt8) :=
  log.check [stopMark, clearMark] saveMark old

end AlarmLog

open AlarmLog

/-! ### What was written -/

/-- The kinds of records. -/
inductive Kind where
  | save
  | stop
  | clear
  | alarm
deriving DecidableEq, Repr

/-- The mark of a kind. -/
def Kind.mark : Kind → List UInt8
  | .save => saveMark
  | .stop => stopMark
  | .clear => clearMark
  | .alarm => alarmMark

theorem Kind.mark_inj {first second : Kind} : first.mark = second.mark ↔ first = second := by
  cases first <;> cases second <;> decide

/-- A record, as it was printed. -/
structure Record where
  kind : Kind
  bytes : List UInt8
deriving DecidableEq, Repr

/-- A record is a structure with its mark. -/
structure Record.Proper (record : Record) : Prop where
  length : record.bytes.length = sizeofLog
  mark : markOf record.bytes = record.kind.mark

/-- The last record of some kinds. -/
def lastOf (kinds : List Kind) (records : List Record) : Option Record :=
  records.reverse.find? fun record => decide (record.kind ∈ kinds)

theorem lastOf_concat (kinds : List Kind) (records : List Record) (record : Record) :
    lastOf kinds (records ++ [record]) =
      if record.kind ∈ kinds then some record else lastOf kinds records := by
  unfold lastOf
  rw [List.reverse_append, List.reverse_singleton, List.singleton_append, List.find?_cons]
  split
  · next found => rw [if_pos (of_decide_eq_true found)]
  · next other => rw [if_neg (of_decide_eq_false other)]

/-- Records of other kinds do not count. -/
theorem lastOf_append (kinds : List Kind) (front : List Record) {back : List Record}
    (other : ∀ record ∈ back, record.kind ∉ kinds) :
    lastOf kinds (front ++ back) = lastOf kinds front := by
  induction back using List.reverseRecOn with
  | nil => rw [List.append_nil]
  | append_singleton back record inductionHypothesis =>
    rw [← List.append_assoc, lastOf_concat, if_neg (other record (by simp)),
      inductionHypothesis fun record member => other record (by simp [member])]

/-- The reader says whether the last record of some kinds is the wanted one, and reads it. -/
def Finds (stops : List Kind) (wanted : Kind) (records : List Record)
    (result : Option (Bool × List UInt8)) : Prop :=
  ∃ flag bytes, result = some (flag, bytes) ∧
    (flag = true ↔ ∃ last, lastOf (wanted :: stops) records = some last ∧ last.kind = wanted) ∧
    ∀ last, flag = true → lastOf (wanted :: stops) records = some last → bytes = last.bytes

/-! ### Reading backwards -/

section Search

variable {stops : List Kind} {wanted : Kind}

theorem flatten_length {records : List Record} (proper : ∀ record ∈ records, record.Proper) :
    (records.map Record.bytes).flatten.length = records.length * sizeofLog := by
  induction records with
  | nil => rfl
  | cons record records inductionHypothesis =>
    rw [List.map_cons, List.flatten_cons, List.length_append,
      inductionHypothesis fun other member => proper other (List.mem_cons_of_mem _ member),
      (proper record List.mem_cons_self).length, List.length_cons, Nat.succ_mul, Nat.add_comm]

/-- A mark of a reader stands for a kind. -/
theorem mark_mem {record : Record} (proper : record.Proper) :
    markOf record.bytes ∈ stops.map Kind.mark ↔ record.kind ∈ stops := by
  rw [proper.mark, List.mem_map]
  constructor
  · rintro ⟨kind, member, same⟩
    rwa [← Kind.mark_inj.mp same]
  · intro member
    exact ⟨record.kind, member, rfl⟩

/-- A structure of the log is a record. -/
theorem read_record {front back : List Record} {record : Record}
    (proper : ∀ other ∈ front ++ record :: back, other.Proper) :
    (((front ++ record :: back).map Record.bytes).flatten.drop (front.length * sizeofLog)).take
      sizeofLog = record.bytes := by
  have before := flatten_length fun other member =>
    proper other (List.mem_append_left _ member)
  have width := (proper record (by simp)).length
  rw [List.map_append, List.flatten_append, ← before, List.drop_left, List.map_cons,
    List.flatten_cons, ← width, List.take_left]

/-- A record that is none of those looked for. -/
theorem foreign_mark {record : Record} (proper : record.Proper)
    (other : record.kind ∉ wanted :: stops) :
    markOf record.bytes ∉ stops.map Kind.mark ∧ markOf record.bytes ≠ wanted.mark := by
  rw [List.mem_cons, not_or] at other
  refine ⟨fun member => other.2 ((mark_mem proper).mp member), fun same => other.1 ?_⟩
  rw [proper.mark] at same
  exact Kind.mark_inj.mp same

/-- Nothing was found. -/
theorem finds_none {records : List Record} (bytes : List UInt8)
    (other : ∀ record ∈ records, record.kind ∉ wanted :: stops) :
    Finds stops wanted records (some (false, bytes)) := by
  refine ⟨false, bytes, rfl, ⟨fun found => absurd found Bool.false_ne_true, ?_⟩,
    fun _ found => absurd found Bool.false_ne_true⟩
  rintro ⟨last, found, _⟩
  rw [← List.nil_append records, lastOf_append _ _ other] at found
  cases found

/-- A record at which the reader stops. -/
theorem finds_stop {records : List Record} {record : Record} (bytes : List UInt8)
    (distinct : wanted ∉ stops) (newest : lastOf (wanted :: stops) records = some record)
    (stop : record.kind ∈ stops) : Finds stops wanted records (some (false, bytes)) := by
  refine ⟨false, bytes, rfl, ⟨fun found => absurd found Bool.false_ne_true, ?_⟩,
    fun _ found => absurd found Bool.false_ne_true⟩
  rintro ⟨last, same, kind⟩
  rw [newest] at same
  cases same
  exact absurd (kind ▸ stop) distinct

/-- The record that is looked for. -/
theorem finds_wanted {records : List Record} {record : Record}
    (newest : lastOf (wanted :: stops) records = some record) (want : record.kind = wanted) :
    Finds stops wanted records (some (true, record.bytes)) := by
  refine ⟨true, _, rfl, ⟨fun _ => ⟨record, newest, want⟩, fun _ => rfl⟩, fun last _ same => ?_⟩
  rw [newest] at same
  cases same
  rfl

/-- With all the records read, the reader stands behind the first one and reads the second one
again, or nothing if there is none. -/
theorem read_again {back : List Record} {place : Nat} {log : List UInt8}
    (proper : ∀ record ∈ back, record.Proper) (full : log.length = sizeofLog)
    (last : ∀ record ∈ back.head?, log = record.bytes) (stands : place = sizeofLog)
    (nonempty : back ≠ []) :
    ∃ record ∈ back, ((back.map Record.bytes).flatten.drop place).take sizeofLog ++
      log.drop (((back.map Record.bytes).flatten.drop place).take sizeofLog).length =
        record.bytes := by
  cases back with
  | nil => exact absurd rfl nonempty
  | cons first rest =>
    have behind : place = first.bytes.length :=
      stands.trans (proper first List.mem_cons_self).length.symm
    rw [List.map_cons, List.flatten_cons, behind, List.drop_left]
    cases rest with
    | nil => exact ⟨first, List.mem_cons_self, last first rfl⟩
    | cons second rest =>
      have wide := (proper second (by simp)).length
      refine ⟨second, by simp, ?_⟩
      rw [List.map_cons, List.flatten_cons, ← wide, List.take_left,
        List.drop_eq_nil_of_le (Nat.le_of_eq (full.trans wide.symm)), List.append_nil]

/-- The rest of the search, with the records at the back read and none of them of the kinds looked
for. -/
theorem search_finds {front back : List Record} {turns place : Nat} {log : List UInt8}
    (distinct : wanted ∉ stops) (proper : ∀ record ∈ front ++ back, record.Proper)
    (other : ∀ record ∈ back, record.kind ∉ wanted :: stops)
    (enough : front.length < turns) (full : log.length = sizeofLog)
    (last : ∀ record ∈ back.head?, log = record.bytes)
    (stands : back ≠ [] → place = (front.length + 1) * sizeofLog)
    (nonempty : front ++ back ≠ []) :
    Finds stops wanted (front ++ back)
      (search ((front ++ back).map Record.bytes).flatten (stops.map Kind.mark) wanted.mark turns
        (back.length + 1) place log) := by
  have total := flatten_length proper
  induction front using List.reverseRecOn generalizing back turns place log with
  | nil =>
    -- The place before the first record is not sought: a record is read that was read before.
    rw [List.nil_append] at *
    obtain ⟨turns, rfl⟩ := Nat.exists_eq_add_of_lt enough
    have short : ¬(back.length + 1) * sizeofLog ≤ (back.map Record.bytes).flatten.length := by
      rw [total, Nat.succ_mul]
      exact Nat.not_le.mpr (Nat.lt_add_of_pos_right (by decide))
    have stand : place = sizeofLog := by
      rw [stands nonempty, List.length_nil, Nat.zero_add, Nat.one_mul]
    obtain ⟨record, member, same⟩ := read_again proper full last stand nonempty
    obtain ⟨notStop, notWanted⟩ := foreign_mark (proper record member) (other record member)
    simp only [search, decide_eq_false short, Bool.false_eq_true, if_false]
    rw [same, if_neg notStop, if_neg notWanted]
    exact finds_none _ other
  | append_singleton front record inductionHypothesis =>
    rw [List.append_assoc, List.singleton_append] at *
    obtain ⟨turns, rfl⟩ := Nat.exists_eq_add_of_lt enough
    have here := proper record (by simp)
    have start : ((front ++ record :: back).map Record.bytes).flatten.length -
        (back.length + 1) * sizeofLog = front.length * sizeofLog := by
      rw [total, List.length_append, List.length_cons, Nat.add_mul, Nat.add_sub_cancel]
    have sought : (back.length + 1) * sizeofLog ≤
        ((front ++ record :: back).map Record.bytes).flatten.length := by
      rw [total, List.length_append, List.length_cons]
      exact Nat.mul_le_mul_right _ (Nat.le_add_left _ _)
    have found : lastOf (wanted :: stops) (front ++ record :: back) =
        lastOf (wanted :: stops) (front ++ [record]) := by
      rw [List.append_cons, lastOf_append _ _ other]
    simp only [search, decide_eq_true sought, if_true, start, read_record proper]
    rw [List.drop_eq_nil_of_le (Nat.le_of_eq (full.trans here.length.symm)), List.append_nil]
    by_cases stop : record.kind ∈ stops
    · rw [if_pos ((mark_mem here).mpr stop)]
      refine finds_stop _ distinct ?_ stop
      rw [found, lastOf_concat, if_pos (List.mem_cons_of_mem _ stop)]
    · rw [if_neg fun member => stop ((mark_mem here).mp member), here.mark]
      by_cases want : record.kind = wanted
      · rw [if_pos (congrArg Kind.mark want)]
        refine finds_wanted ?_ want
        rw [found, lastOf_concat, if_pos (want ▸ List.mem_cons_self)]
      · rw [if_neg fun same => want (Kind.mark_inj.mp same)]
        have foreign : ∀ other ∈ record :: back, other.kind ∉ wanted :: stops := by
          intro foreign member
          rcases List.mem_cons.mp member with rfl | later
          · rw [List.mem_cons, not_or]
            exact ⟨want, stop⟩
          · exact other foreign later
        have left : front.length < (front ++ [record]).length + turns := by
          rw [List.length_append, List.length_singleton]
          omega
        refine inductionHypothesis proper foreign left here.length ?_ (fun _ => ?_) nonempty total
        · rintro other same
          cases same
          rfl
        · rw [here.length, Nat.succ_mul]

/-- A log of records is read as it was written. -/
theorem check_finds {records : List Record} {old : List UInt8} (distinct : wanted ∉ stops)
    (proper : ∀ record ∈ records, record.Proper) (nonempty : records ≠ [])
    (full : old.length = sizeofLog) :
    Finds stops wanted records
      (check (some (records.map Record.bytes).flatten) (stops.map Kind.mark) wanted.mark old) := by
  have turns : records.length < (records.map Record.bytes).flatten.length / sizeofLog + 1 := by
    rw [flatten_length proper, Nat.mul_div_cancel _ (by decide)]
    exact Nat.lt_succ_self _
  have found := @search_finds stops wanted records []
    ((records.map Record.bytes).flatten.length / sizeofLog + 1) 0 old distinct
  rw [List.append_nil] at found
  exact found proper (fun _ member => by cases member) turns full (fun _ same => by cases same)
    (fun wrong => absurd rfl wrong) nonempty

end Search

/-! ### The log and what it shows -/

/-- The log, with all the records ever written. -/
structure Journal where
  log : AlarmLog
  history : List Record

/-- What is written. Alarms are noted by another process, in the same layout. -/
inductive Dump where
  | clearinfo (clock : Clock)
  | saveinfo (clock : Clock) (mode time : Int)
  | alarm (bytes : List UInt8)

/-- The record that is printed. -/
def Dump.record : Dump → Record
  | .clearinfo clock => ⟨.clear, timeText clock ++ clearText⟩
  | .saveinfo clock mode time =>
    ⟨if mode = 1 then .save else .stop, timeText clock ++ saveText mode time⟩
  | .alarm bytes => ⟨.alarm, bytes⟩

/-- What the writers are called with. -/
def Dump.Written : Dump → Prop
  | .clearinfo _ => True
  | .saveinfo _ mode time => mode = 1 ∧ 0 ≤ time ∨ mode = 0
  | .alarm bytes => bytes.length = sizeofLog ∧ markOf bytes = alarmMark

/-- The time fills its field. -/
def Clock.Printed : Clock → Prop
  | .failed => True
  | .unknown => False
  | .known tm => tm.Proper ∧ 0 ≤ tm.year + 1900 ∧ tm.year + 1900 ≤ 9999

namespace Journal

/-- One record more. -/
def dump (journal : Journal) (dump : Dump) : Journal where
  log :=
    match dump with
    | .clearinfo clock => journal.log.dumpClearinfo clock
    | .saveinfo clock mode time => journal.log.dumpSaveinfo clock mode time
    | .alarm bytes => journal.log.print bytes
  history := journal.history ++ [dump.record]

/-- The record has the size of a structure, and the log is not put aside with the last alarm while
nothing takes its place. -/
def Keeps (journal : Journal) : Dump → Prop
  | .clearinfo clock => clock.Printed
  | .saveinfo clock mode time => clock.Printed ∧ (mode = 1 → time < 100000) ∧
      (journal.log.rotate ≠ journal.log →
        ∀ last, lastOf [.alarm, .clear] journal.history = some last → last.kind ≠ .alarm)
  | .alarm _ => True

end Journal

theorem timeText_length {clock : Clock} (printed : clock.Printed) :
    (timeText clock).length = 24 := by
  cases clock with
  | failed => rfl
  | unknown => exact absurd printed id
  | known tm =>
    obtain ⟨proper, low, high⟩ := printed
    obtain ⟨mon, mday, hour, min, sec⟩ := proper
    have two : ∀ number : Int, 0 ≤ number → number < 100 → (printDecimal 2 number).length = 2 :=
      fun number nonneg small => printDecimal_length nonneg (by decide) small
    have four : (printDecimal 4 (tm.year + 1900)).length = 4 :=
      printDecimal_length low (by decide) (by omega)
    unfold timeText ascii
    simp only [List.length_map, List.length_append, List.length_cons, List.length_nil, four,
      two (tm.mon + 1) (by omega) (by omega), two tm.mday (by omega) (by omega),
      two tm.hour (by omega) (by omega), two tm.min (by omega) (by omega),
      two tm.sec (by omega) (by omega)]

theorem markOf_append {time text : List UInt8} (width : time.length = 24) :
    markOf (time ++ text) = text.take 7 := by
  rw [markOf, ← width, List.drop_left]

/-- What is written is a structure with its mark. -/
theorem Journal.Keeps.proper {journal : Journal} {dump : Dump} (keeps : journal.Keeps dump)
    (written : dump.Written) : dump.record.Proper := by
  cases dump with
  | clearinfo clock =>
    have width := timeText_length keeps
    refine ⟨?_, (markOf_append width).trans rfl⟩
    show (timeText clock ++ clearText).length = _
    rw [List.length_append, width]
    rfl
  | saveinfo clock mode time =>
    obtain ⟨printed, small, _⟩ := keeps
    have width := timeText_length printed
    rcases written with ⟨rfl, nonneg⟩ | rfl
    · have digits : (printDecimal 5 time).length = 5 :=
        printDecimal_length nonneg (by decide) (small rfl)
      refine ⟨?_, (markOf_append width).trans rfl⟩
      show (timeText clock ++ saveText 1 time).length = _
      rw [List.length_append, width, saveText, if_pos rfl]
      simp only [ascii, saveMark, List.length_append, List.length_map, List.length_cons,
        List.length_nil, digits]
      rfl
    · refine ⟨?_, (markOf_append width).trans rfl⟩
      show (timeText clock ++ saveText 0 time).length = _
      rw [List.length_append, width]
      rfl
  | alarm bytes => exact ⟨written.1, written.2⟩

/-- What a log shows of the last record of some kinds: the record, or that it is not the wanted
one. -/
def Shows (stops : List Kind) (wanted : Kind) (records history : List Record) : Prop :=
  lastOf (wanted :: stops) records = lastOf (wanted :: stops) history ∨
    lastOf (wanted :: stops) records = none ∧
      ∀ last, lastOf (wanted :: stops) history = some last → last.kind ≠ wanted

section Shows

variable {stops : List Kind} {wanted : Kind} {records history : List Record}

theorem Shows.concat (shown : Shows stops wanted records history) (record : Record) :
    Shows stops wanted (records ++ [record]) (history ++ [record]) := by
  unfold Shows
  rw [lastOf_concat, lastOf_concat]
  by_cases counts : record.kind ∈ wanted :: stops
  · rw [if_pos counts, if_pos counts]
    exact Or.inl rfl
  · rw [if_neg counts, if_neg counts]
    exact shown

/-- A log that begins with a record. -/
theorem shows_fresh {record : Record}
    (counts : record.kind ∈ wanted :: stops ∨
      ∀ last, lastOf (wanted :: stops) history = some last → last.kind ≠ wanted) :
    Shows stops wanted [record] (history ++ [record]) := by
  unfold Shows
  rw [← List.nil_append [record], lastOf_concat, List.nil_append, lastOf_concat]
  by_cases member : record.kind ∈ wanted :: stops
  · rw [if_pos member, if_pos member]
    exact Or.inl rfl
  · rw [if_neg member, if_neg member]
    exact Or.inr ⟨rfl, counts.resolve_left member⟩

/-- What is found in the log is what is shown of the history. -/
theorem Finds.of_shows {result : Option (Bool × List UInt8)}
    (finds : Finds stops wanted records result) (shown : Shows stops wanted records history) :
    Finds stops wanted history result := by
  rcases shown with same | ⟨nothing, notWanted⟩
  · unfold Finds at *
    rwa [← same]
  · obtain ⟨flag, bytes, rfl, found, _⟩ := finds
    rw [nothing] at found
    have absent : flag ≠ true := by
      intro set
      obtain ⟨_, none, _⟩ := found.mp set
      cases none
    refine ⟨flag, bytes, rfl, ⟨fun set => absurd set absent, ?_⟩, fun _ set => absurd set absent⟩
    rintro ⟨last, newest, kind⟩
    exact absurd kind (notWanted last newest)

end Shows

/-! ### Runs -/

/-- The log of some records. -/
def logOf (records : List Record) : AlarmLog :=
  if records = [] then none else some (records.map Record.bytes).flatten

theorem logOf_concat (records : List Record) (record : Record) :
    (logOf records).print record.bytes = logOf (records ++ [record]) := by
  have nonempty : records ++ [record] ≠ [] := by simp
  unfold logOf
  rw [if_neg nonempty, List.map_append, List.flatten_append, List.map_singleton,
    List.flatten_singleton]
  split
  · next empty =>
    rw [empty]
    rfl
  · rfl

/-- The log holds structures, and shows what was written last. -/
structure Journal.Reads (journal : Journal) (records : List Record) : Prop where
  proper : ∀ record ∈ records, record.Proper
  log : journal.log = logOf records
  save : Shows [.stop, .clear] .save records journal.history
  alarm : Shows [.clear] .alarm records journal.history

/-- The log holds some records so. -/
def Journal.Sound (journal : Journal) : Prop := ∃ records, journal.Reads records

theorem rotate_cases (log : AlarmLog) : log.rotate = log ∨ log.rotate = none ∧
    log.rotate ≠ log := by
  by_cases same : log.rotate = log
  · exact Or.inl same
  · refine Or.inr ⟨?_, same⟩
    cases log with
    | none => rfl
    | some bytes =>
      by_cases long : 128 ≤ bytes.length / 1024
      · exact if_pos long
      · exact absurd (if_neg long) same

namespace Journal

variable {journal : Journal} {records : List Record}

/-- A record is printed behind the others. -/
theorem Reads.print (reads : journal.Reads records) {record : Record} (proper : record.Proper) :
    Reads ⟨journal.log.print record.bytes, journal.history ++ [record]⟩ (records ++ [record]) where
  proper := by
    intro other member
    rcases List.mem_append.mp member with before | last
    · exact reads.proper other before
    · rw [List.mem_singleton.mp last]
      exact proper
  log := by
    rw [reads.log]
    exact logOf_concat records record
  save := reads.save.concat record
  alarm := reads.alarm.concat record

/-- A record is printed into a new log. -/
theorem reads_fresh {record : Record} (proper : record.Proper)
    (save : record.kind ∈ [Kind.save, .stop, .clear])
    (alarm : record.kind ∈ [Kind.alarm, .clear] ∨
      ∀ last, lastOf [.alarm, .clear] journal.history = some last → last.kind ≠ .alarm) :
    Reads ⟨AlarmLog.print none record.bytes, journal.history ++ [record]⟩ [record] where
  proper := by
    intro other member
    rw [List.mem_singleton.mp member]
    exact proper
  log := logOf_concat [] record
  save := shows_fresh (Or.inl save)
  alarm := shows_fresh alarm

theorem Reads.dump (reads : journal.Reads records) {dump : Dump} (written : dump.Written)
    (keeps : journal.Keeps dump) : (journal.dump dump).Sound := by
  have proper := keeps.proper written
  cases dump with
  | clearinfo clock =>
    rcases rotate_cases journal.log with same | ⟨aside, _⟩
    · have printed := reads.print proper
      rw [← same] at printed
      exact ⟨_, printed⟩
    · have printed := @reads_fresh journal _ proper
        (show Kind.clear ∈ [Kind.save, .stop, .clear] by decide)
        (Or.inl (show Kind.clear ∈ [Kind.alarm, .clear] by decide))
      rw [← aside] at printed
      exact ⟨_, printed⟩
  | saveinfo clock mode time =>
    rcases rotate_cases journal.log with same | ⟨aside, changed⟩
    · have printed := reads.print proper
      rw [← same] at printed
      exact ⟨_, printed⟩
    · have kind : (Dump.saveinfo clock mode time).record.kind ∈ [Kind.save, .stop, .clear] := by
        show (if mode = 1 then Kind.save else .stop) ∈ _
        split <;> decide
      have printed := reads_fresh proper kind (Or.inr (keeps.2.2 changed))
      rw [← aside] at printed
      exact ⟨_, printed⟩
  | alarm bytes => exact ⟨_, reads.print proper⟩

/-- What the readers find in a log. -/
theorem Reads.finds (reads : journal.Reads records) {old : List UInt8}
    (full : old.length = sizeofLog) :
    Finds [.stop, .clear] .save journal.history (journal.log.checkForHqsaveflag old) ∧
      Finds [.clear] .alarm journal.history (journal.log.checkForTrigflag old) := by
  rw [reads.log]
  unfold logOf
  split
  · next empty =>
    have none : ∀ kinds : List Kind, ∀ record ∈ records, record.kind ∉ kinds := by
      rw [empty]
      intro _ record member
      cases member
    exact ⟨(finds_none old (none _)).of_shows reads.save,
      (finds_none old (none _)).of_shows reads.alarm⟩
  · next nonempty =>
    exact ⟨(check_finds (by decide) reads.proper nonempty full).of_shows reads.save,
      (check_finds (by decide) reads.proper nonempty full).of_shows reads.alarm⟩

end Journal

/-- After every run of records that have the size of a structure and do not put the last alarm
aside, a restart finds what was written last. -/
theorem alarm_log_recovers {dumps : List Dump} {journal : Journal} {old : List UInt8}
    (full : old.length = sizeofLog)
    (run : Runs (fun before dump after =>
      before.dump dump = after ∧ dump.Written ∧ before.Keeps dump) ⟨none, []⟩ dumps journal) :
    Finds [.stop, .clear] .save journal.history (journal.log.checkForHqsaveflag old) ∧
      Finds [.clear] .alarm journal.history (journal.log.checkForTrigflag old) := by
  have initial : Journal.Sound ⟨none, []⟩ :=
    ⟨[], ⟨fun _ member => absurd member List.not_mem_nil, rfl, Or.inl rfl, Or.inl rfl⟩⟩
  have sound : journal.Sound := by
    refine Runs.invariant initial ?_ run
    rintro before dump after ⟨rfl, written, keeps⟩ ⟨records, reads⟩
    exact reads.dump written keeps
  obtain ⟨records, reads⟩ := sound
  exact reads.finds full

/-- A time of day. -/
def someClock : Clock := .known ⟨105, 11, 14, 13, 13, 13⟩

/-- An alarm, as `print_log` writes one. -/
def someAlarm : List UInt8 :=
  timeText someClock ++ (alarmMark ++ (List.replicate 12 0x20 ++ [0x0a]))

/-- An alarm, its clearing, another alarm, and commands to stop and to record. -/
theorem alarm_log_recovers_five_records :
    ∃ journal, Runs (fun (before : Journal) (dump : Dump) (after : Journal) =>
        before.dump dump = after ∧ dump.Written ∧ before.Keeps dump) ⟨none, []⟩
        [.alarm someAlarm, .clearinfo someClock, .alarm someAlarm, .saveinfo someClock 0 0,
          .saveinfo someClock 1 60] journal ∧
      Finds [.stop, .clear] .save journal.history
        (journal.log.checkForHqsaveflag (List.replicate 44 0)) ∧
      Finds [.clear] .alarm journal.history
        (journal.log.checkForTrigflag (List.replicate 44 0)) := by
  have printed : someClock.Printed := by
    refine ⟨⟨?_, ?_, ?_, ?_, ?_⟩, ?_⟩ <;> decide
  have alarm : someAlarm.length = sizeofLog ∧ markOf someAlarm = alarmMark := by decide +kernel
  have run : Runs (fun (before : Journal) (dump : Dump) (after : Journal) =>
        before.dump dump = after ∧ dump.Written ∧ before.Keeps dump) ⟨none, []⟩
      [.alarm someAlarm, .clearinfo someClock, .alarm someAlarm, .saveinfo someClock 0 0,
        .saveinfo someClock 1 60] _ :=
    .cons ⟨rfl, alarm, trivial⟩ (.cons ⟨rfl, trivial, printed⟩ (.cons ⟨rfl, alarm, trivial⟩
      (.cons ⟨rfl, Or.inr rfl, printed, by decide,
        fun changed => absurd (AlarmLog.rotate_of_short (by decide +kernel)) changed⟩
        (.cons ⟨rfl, Or.inl ⟨rfl, by decide⟩, printed, by decide,
          fun changed => absurd (AlarmLog.rotate_of_short (by decide +kernel)) changed⟩ .nil))))
  exact ⟨_, run, alarm_log_recovers (List.length_replicate ..) run⟩

/-- A record of a time of six digits is no structure, and is not found. -/
theorem long_save_not_found :
    (Dump.saveinfo someClock 1 100000).Written ∧
      ¬Finds [.stop, .clear] .save (Journal.dump ⟨none, []⟩ (.saveinfo someClock 1 100000)).history
        ((Journal.dump ⟨none, []⟩ (.saveinfo someClock 1 100000)).log.checkForHqsaveflag
          (List.replicate 44 0)) := by
  refine ⟨Or.inl ⟨rfl, by decide⟩, ?_⟩
  rintro ⟨flag, bytes, result, found, _⟩
  have missed : ((Journal.dump ⟨none, []⟩ (.saveinfo someClock 1 100000)).log.checkForHqsaveflag
      (List.replicate 44 0)).map Prod.fst = some false := by decide +kernel
  rw [result] at missed
  cases missed
  have newest : lastOf [.save, .stop, .clear]
      (Journal.dump ⟨none, []⟩ (.saveinfo someClock 1 100000)).history =
        some (Dump.saveinfo someClock 1 100000).record := rfl
  exact absurd (found.mpr ⟨_, newest, rfl⟩) Bool.false_ne_true

end ExmOnvif.HdModule
