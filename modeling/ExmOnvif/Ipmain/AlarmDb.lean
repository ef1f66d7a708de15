/-
This file models the table in which the alarms, the changes of the inputs and their
acknowledgements are kept, and the sending again of what has not been acknowledged.

A row is given the id after the largest in the table. When there are more than four
thousand rows, the hundred with the smallest ids are deleted; the rows that are left are
always the last ones inserted, so that an acknowledgement is deleted only after everything
that it acknowledges. The ids are of type `int` and end at `2^31 - 1`.
-/

import Mathlib.Algebra.Ring.Int.Defs
import Mathlib.Data.List.DropRight
import Mathlib.Data.List.Sort
import Mathlib.Tactic.Ring
import ExmOnvif.Library.Numerals
import ExmOnvif.Library.Text
import ExmOnvif.Ipmain.Alarm

namespace ExmOnvif.Ipmain

open Library

/-- The byte at the end of a string. -/
def nul : Char := '\x00'

/-- The string at the beginning of a stretch of memory. -/
def cString (memory : Text) : Text := memory.takeWhile (· ≠ nul)

/-! ### The numbers -/

/-- `%04lx` and `%08lx` behind `0x`. -/
def printState (width : Nat) (state : Dword) : Text :=
  '0' :: 'x' :: padded width 16 state.toNat

/-- What `strrchr` finds, from behind the character on. -/
def behindLast (char : Char) (text : Text) : Option Text :=
  if char ∈ text then some (text.rtakeWhile (· ≠ char)) else none

/-- The value that `atohex` takes a character for. -/
def hexValue (char : Char) : Dword :=
  let ch := char.toUpper
  if ch.isDigit then BitVec.ofNat 32 ch.toNat - BitVec.ofNat 32 48
  else BitVec.ofNat 32 ch.toNat - BitVec.ofNat 32 65 + 10

/-- The loop of `atohex`, from the last digit on. -/
def orDigits : Nat → Text → Dword → Dword
  | _, [], hex => hex
  | i, char :: rest, hex => orDigits (i + 1) rest (hex ||| hexValue char <<< (i * 4))

/-- `atohex`, of the memory at a pointer. -/
def atohex (memory : Text) : Dword :=
  let buf := cString (memory.take 12)
  let p := ((behindLast 'x' buf).or (behindLast 'X' buf)).getD buf
  orDigits 0 (p.rtake 8).reverse 0

/-! ### The table -/

/-- The types of the rows. -/
inductive Kind where
  | alarmack
  | alarminfo
  | change
  | changeack
deriving DecidableEq, Repr

/-- A row of the table; `rowid` is the number that the table itself gives to a row. -/
structure Row where
  rowid : Nat
  type : Kind
  state : Text
  time : Int
  id : Int
deriving DecidableEq, Repr

/-- What is dumped. -/
inductive Content where
  /-- `dump_alarmack_to_log`. -/
  | alarmack (result : Dword)
  /-- `dump_alarminfo_to_log`. -/
  | alarminfo (trig : Dword)
  /-- `dump_trigininfo_to_log`. -/
  | trigininfo (oldtrigin newtrigin : Dword)
  /-- `dump_triginack_to_log`. -/
  | triginack (result : Dword)
deriving DecidableEq, Repr

/-- A dump, with the time at which it is made. -/
structure Dump where
  content : Content
  time : Int
deriving DecidableEq, Repr

/-- The type that a dump is stored with. -/
def Content.type : Content → Kind
  | .alarmack _ => .alarmack
  | .alarminfo _ => .alarminfo
  | .trigininfo _ _ => .change
  | .triginack _ => .changeack

/-- The text that a dump is stored with. -/
def Content.state : Content → Text
  | .alarmack result => printState 4 result
  | .alarminfo trig => printState 4 trig
  | .trigininfo oldtrigin newtrigin =>
    printState 8 oldtrigin ++ '-' :: '>' :: printState 8 newtrigin
  | .triginack result => printState 4 result

/-- `MAX_LOG_NUMBER`. -/
def maxLogNumber : Nat := 4000

/-- A value of type `int`. -/
def int (value : Int) : Int := Int.bmod value (2 ^ 32)

/-- `order by id`. -/
def orderById (rows : List Row) : List Row := rows.mergeSort fun first second =>
  decide (first.id ≤ second.id)

/-- `order by id desc, time desc`. -/
def orderByIdDesc (rows : List Row) : List Row := rows.mergeSort fun first second =>
  decide (second.id < first.id ∨ second.id = first.id ∧ second.time ≤ first.time)

/-- `select id .. order by id desc, time desc limit 1` into a variable that was zero. -/
def largestId (rows : List Row) : Int :=
  match (orderByIdDesc rows).head? with
  | some row => row.id
  | none => 0

/-- `get_index_cnt`. -/
def getIndexCnt (rows : List Row) : Int := largestId rows

/-- The number that the table gives to a new row. -/
def nextRowid (rows : List Row) : Nat := (rows.map Row.rowid).foldl max 0 + 1

/-- The row of a dump with its id. -/
def Dump.row (dump : Dump) (rowid : Nat) (id : Int) : Row :=
  ⟨rowid, dump.content.type, dump.content.state, dump.time, id⟩

/-- `delete from alarm where rowid in (select rowid from alarm order by id limit 100)`. -/
def deleteOldest (rows : List Row) : List Row :=
  let doomed := ((orderById rows).take 100).map Row.rowid
  rows.filter fun row => row.rowid ∉ doomed

/-- The table, with the ids given so far in the order in which they were given. -/
structure Db where
  rows : List Row
  given : List Int

/-- `insert_record_to_db`. -/
def Db.insertRecord (db : Db) (dump : Dump) : Db :=
  let id := int (getIndexCnt db.rows + 1)
  let rows := db.rows ++ [dump.row (nextRowid db.rows) id]
  { rows := if maxLogNumber < rows.length then deleteOldest rows else rows
    given := db.given ++ [id] }

/-- The table after some dumps. -/
def Db.after (history : List Dump) : Db := history.foldl Db.insertRecord ⟨[], []⟩

/-! ### Sending again -/

/-- The text of the result zero in the query. -/
def ackedState : Text := "0x0000".toList

/-- `find_lastest_ack`. -/
def findLastestAck (acktype : Kind) (rows : List Row) : Int :=
  largestId (rows.filter fun row => row.type = acktype ∧ row.state = ackedState)

/-- `select * .. where type = .. and id > ackid order by id`. -/
def selectAfter (type : Kind) (ackid : Int) (rows : List Row) : List Row :=
  orderById (rows.filter fun row => row.type = type ∧ ackid < row.id)

/-- `sqlite3_exec`: the rows are handed on until the callback returns something other than zero.
A callback that sends nothing returns zero. -/
def exec {Message : Type} (callback : Row → Option Message) (send : Message → Int) :
    List Row → List Message
  | [] => []
  | row :: rest =>
    match callback row with
    | none => exec callback send rest
    | some message => message :: if send message = 0 then exec callback send rest else []

/-- What `send_dev_trig_state` is given, the time before it is split into a date. -/
structure AlarmMessage where
  alarmstate : Dword
  time : Int
deriving DecidableEq, Repr

/-- What `send_alarmin_state_change` is given. -/
structure ChangeMessage where
  oldstate : Dword
  newstate : Dword
  time : Int
deriving DecidableEq, Repr

/-- `resend_alarm_callback`; `behind` is what lies in memory behind the end of the text. -/
def resendAlarmCallback (behind : Text) (row : Row) : Option AlarmMessage :=
  some ⟨atohex (row.state ++ nul :: behind), row.time⟩

/-- `resend_trigin_callback`. The new state is copied into a buffer of its own, with two more
bytes that `strncpy` sets to zero and `stale` behind them; the end of the old state is written
into the text. -/
def resendTriginCallback (behind stale : Text) (row : Row) : Option ChangeMessage :=
  match strstr "->0x".toList row.state with
  | none => none
  | some lp =>
    let buf := lp.drop 2 ++ nul :: nul :: stale
    let front := row.state.take (row.state.length - lp.length)
    some ⟨atohex (front ++ nul :: (lp.drop 1 ++ nul :: behind)), atohex buf, row.time⟩

/-- `check_alarmlog`: what is sent. -/
def checkAlarmlog (behind : Text) (send : AlarmMessage → Int) (rows : List Row) :
    List AlarmMessage :=
  exec (resendAlarmCallback behind) send
    (selectAfter .alarminfo (findLastestAck .alarmack rows) rows)

/-- `check_triginlog`: what is sent. The function that sends a change always returns zero. -/
def checkTriginlog (behind stale : Text) (rows : List Row) : List ChangeMessage :=
  exec (resendTriginCallback behind stale) (fun _ => 0)
    (selectAfter .change (findLastestAck .changeack rows) rows)

/-! ### The states are recovered -/

theorem digitChar_hex :
    ∀ digit < 16, Nat.digitChar digit ≠ 'x' ∧ Nat.digitChar digit ≠ nul ∧
      Nat.digitChar digit ≠ '-' ∧ (hexValue (Nat.digitChar digit)).toNat = digit := by
  decide

/-- What is printed in a state are digits. -/
theorem exists_digit_of_mem_padded {width number : Nat} {char : Char}
    (member : char ∈ padded width 16 number) : ∃ digit < 16, char = Nat.digitChar digit := by
  rcases mem_padded member with digit | rfl
  · exact mem_toDigits (by decide) digit
  · exact ⟨0, by decide, rfl⟩

theorem padded_state_length_le {width : Nat} (narrow : width ≤ 8) (state : Dword) :
    (padded width 16 state.toNat).length ≤ 8 := by
  have fits : state.toNat < 16 ^ 8 := state.isLt
  have bound := @padded_length_le width 16 state.toNat 8 (by decide) (by decide) fits
  omega

/-- A digit is set above the digits that are there. -/
theorem or_shiftLeft_toNat {i : Nat} {hex digit : Dword} (room : i < 8)
    (below : hex.toNat < 16 ^ i) (small : digit.toNat < 16) :
    (hex ||| digit <<< (i * 4)).toNat = hex.toNat + 16 ^ i * digit.toNat := by
  have power : 16 ^ i = 2 ^ (i * 4) := by rw [Nat.mul_comm, Nat.pow_mul]
  have fits : digit.toNat * 2 ^ (i * 4) < 2 ^ 32 := by
    have step : 16 ^ (i + 1) ≤ 16 ^ 8 := Nat.pow_le_pow_right (by decide) room
    rw [Nat.pow_succ] at step
    rw [← power, Nat.mul_comm]
    refine lt_of_lt_of_le ?_ step
    exact Nat.mul_lt_mul_of_pos_left small (Nat.pow_pos (by decide))
  rw [BitVec.toNat_or, BitVec.toNat_shiftLeft, Nat.shiftLeft_eq, Nat.mod_eq_of_lt fits,
    ← Nat.shiftLeft_eq, Nat.or_comm, ← Nat.shiftLeft_add_eq_or_of_lt (power ▸ below),
    Nat.shiftLeft_eq, ← power, Nat.add_comm, Nat.mul_comm]

theorem orDigits_toNat (digits : Text) (i : Nat) (hex : Dword)
    (small : ∀ char ∈ digits, (hexValue char).toNat < 16) (short : i + digits.length ≤ 8)
    (below : hex.toNat < 16 ^ i) :
    ((orDigits i digits hex).toNat : Int) =
      hex.toNat + 16 ^ i * numeral 16 (fun char => (hexValue char).toNat) digits.reverse := by
  induction digits generalizing i hex with
  | nil => simp [orDigits, numeral]
  | cons char rest inductionHypothesis =>
    rw [List.length_cons] at short
    have digit := small char List.mem_cons_self
    have set := or_shiftLeft_toNat (by omega) below digit
    have next : (hex ||| hexValue char <<< (i * 4)).toNat < 16 ^ (i + 1) := by
      rw [set, Nat.pow_succ]
      have : 16 ^ i * (hexValue char).toNat ≤ 16 ^ i * 15 := Nat.mul_le_mul_left _ (by omega)
      omega
    rw [orDigits, inductionHypothesis _ _ (fun other member => small other
      (List.mem_cons_of_mem _ member)) (by omega) next, set, List.reverse_cons, numeral_append]
    push_cast
    ring

/-- The string in the buffer that a state is copied to. -/
theorem cString_printState {width : Nat} (narrow : width ≤ 8) (state : Dword) (behind : Text) :
    cString ((printState width state ++ nul :: behind).take 12) = printState width state := by
  have short : (printState width state).length ≤ 10 :=
    Nat.succ_le_succ (Nat.succ_le_succ (padded_state_length_le narrow state))
  have noEnd : ∀ char ∈ printState width state, decide (char ≠ nul) = true := by
    intro char member
    refine decide_eq_true ?_
    rcases List.mem_cons.mp member with rfl | rest
    · decide
    · rcases List.mem_cons.mp rest with rfl | inside
      · decide
      · obtain ⟨digit, small, rfl⟩ := exists_digit_of_mem_padded inside
        exact (digitChar_hex digit small).2.1
  obtain ⟨room, room_eq⟩ : ∃ room, 12 - (printState width state).length = room + 1 :=
    ⟨11 - (printState width state).length, by omega⟩
  unfold cString
  rw [List.take_append, List.take_of_length_le (by omega), room_eq, List.take_succ_cons,
    List.takeWhile_append_of_pos noEnd, List.takeWhile_cons_of_neg (by simp), List.append_nil]

/-- The digits of a state are what stands behind the `x`. -/
theorem behindLast_printState (width : Nat) (state : Dword) :
    behindLast 'x' (printState width state) = some (padded width 16 state.toNat) := by
  have inside : 'x' ∈ printState width state := List.mem_cons_of_mem _ List.mem_cons_self
  have kept : ∀ char ∈ padded width 16 state.toNat, decide (char ≠ 'x') = true := by
    intro char member
    obtain ⟨digit, small, rfl⟩ := exists_digit_of_mem_padded member
    exact decide_eq_true (digitChar_hex digit small).1
  have behind := @rtakeWhile_behind Char (fun char => decide (char ≠ 'x')) ['0'] _ 'x' (by decide)
    kept
  unfold behindLast
  rw [if_pos inside]
  exact congrArg some behind

/-- A state is read back as it was printed, whatever lies behind it. -/
theorem atohex_printState {width : Nat} (narrow : width ≤ 8) (state : Dword) (behind : Text) :
    atohex (printState width state ++ nul :: behind) = state := by
  have short := padded_state_length_le narrow state
  have whole : (padded width 16 state.toNat).rtake 8 = padded width 16 state.toNat :=
    rtake_of_length_le short
  have small : ∀ char ∈ (padded width 16 state.toNat).reverse, (hexValue char).toNat < 16 := by
    intro char member
    obtain ⟨digit, below, rfl⟩ := exists_digit_of_mem_padded (List.mem_reverse.mp member)
    rw [(digitChar_hex digit below).2.2.2]
    exact below
  have digits : ∀ digit < 16, ((hexValue (Nat.digitChar digit)).toNat : Int) = digit :=
    fun digit below => congrArg Nat.cast (digitChar_hex digit below).2.2.2
  have read := orDigits_toNat (padded width 16 state.toNat).reverse 0 0 small
    (by rw [List.length_reverse]; omega) (by decide)
  rw [List.reverse_reverse, numeral_padded (by decide) digits] at read
  unfold atohex
  dsimp only
  rw [cString_printState narrow, behindLast_printState, Option.some_or, Option.getD_some, whole]
  have zero : (0 : Dword).toNat = 0 := rfl
  rw [zero, pow_zero, one_mul, Nat.cast_zero, zero_add] at read
  refine BitVec.eq_of_toNat_eq ?_
  exact_mod_cast read

/-- Only the result zero is printed as the acknowledgements are searched for. -/
theorem printState_eq_zero_iff (state : Dword) :
    printState 4 state = ackedState ↔ state = 0 := by
  constructor
  · intro same
    have read := atohex_printState (by decide : 4 ≤ 8) state []
    rw [same] at read
    rw [← read]
    decide
  · rintro rfl
    decide

/-- Both states of a change are recovered. -/
theorem resendTriginCallback_change (behind stale : Text) (rowid : Nat)
    (oldtrigin newtrigin : Dword) (time id : Int) :
    resendTriginCallback behind stale
        ((Dump.mk (.trigininfo oldtrigin newtrigin) time).row rowid id) =
      some ⟨oldtrigin, newtrigin, time⟩ := by
  have noArrow : ∀ char ∈ printState 8 oldtrigin, char ≠ '-' := by
    intro char member
    rcases List.mem_cons.mp member with rfl | rest
    · decide
    · rcases List.mem_cons.mp rest with rfl | inside
      · decide
      · obtain ⟨digit, small, rfl⟩ := exists_digit_of_mem_padded inside
        exact (digitChar_hex digit small).2.2.1
  have front : "->0x".toList <+: '-' :: '>' :: printState 8 newtrigin :=
    ⟨padded 8 16 newtrigin.toNat, rfl⟩
  have found : strstr "->0x".toList
      (printState 8 oldtrigin ++ '-' :: '>' :: printState 8 newtrigin) =
        some ('-' :: '>' :: printState 8 newtrigin) :=
    (strstr_skip_first noArrow).trans (strstr_here front)
  unfold resendTriginCallback Dump.row Content.state
  dsimp only
  rw [found]
  dsimp only
  rw [List.length_append, Nat.add_sub_cancel, List.take_left]
  simp only [List.drop_succ_cons, List.drop_zero]
  rw [atohex_printState (by decide), atohex_printState (by decide)]

theorem resendAlarmCallback_alarm (behind : Text) (rowid : Nat) (trig : Dword) (time id : Int) :
    resendAlarmCallback behind ((Dump.mk (.alarminfo trig) time).row rowid id) =
      some ⟨trig, time⟩ := by
  unfold resendAlarmCallback Dump.row Content.state
  rw [atohex_printState (by decide)]

end ExmOnvif.Ipmain
