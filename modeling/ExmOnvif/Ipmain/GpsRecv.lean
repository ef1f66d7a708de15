/-
This file models the thread that assembles the messages of the GPS receiver, byte by byte, from
what `read` gives it.

The index is moved on before it is known whether there was a byte to store. A read that fails
leaves a gap in the message, and is not held against the end of the buffer. So what the thread
hands on is right only while no read fails within a message, and the index may leave the buffer.
-/

import Mathlib.Data.Finset.Card
import Mathlib.Data.List.ReduceOption
import ExmOnvif.Library.Bytes
import ExmOnvif.Library.Lines
import ExmOnvif.Library.Segments

namespace ExmOnvif.Ipmain

open Library

/-! ### The thread -/

/-- `sizeof(gps_buf)`. -/
def gpsBufSize : Nat := 2048

/-- The failed reads in a row, beyond which another one ends the loop. -/
def errReadMax : Nat := 5 * 1024

/-- `'$'`. -/
def dollar : UInt8 := 36

/-- `'\r'` or `'\n'`. -/
def endsMessage (byte : UInt8) : Bool := byte = 13 || byte = 10

/-- The variables of `GPS_recv_thread`, the buffer and the two states it sets, and the messages it
has handed to `parse_gps_message`. Of the memory only the first `gpsBufSize` bytes are the
buffer. -/
structure GpsRecv where
  gpsBuf : Memory
  i : Nat
  errReadCnt : Nat
  gpsState : Int
  posState : Int
  handed : List (List UInt8)
  running : Bool

namespace GpsRecv

/-- The thread in front of its loop. The buffer is static, and holds what was left in it. -/
def begun (gpsBuf : Memory) (gpsState posState : Int) : GpsRecv :=
  ⟨gpsBuf, 0, 0, gpsState, posState, [], true⟩

/-- The string in the buffer, if it ends there. -/
def cString (gpsBuf : Memory) : Option (List UInt8) :=
  if 0 ∈ load gpsBuf 0 gpsBufSize then some (printed (load gpsBuf 0 gpsBufSize)) else none

/-- A read that fails. -/
def failed (thread : GpsRecv) : GpsRecv :=
  let counted := { thread with i := thread.i + 1, errReadCnt := thread.errReadCnt + 1 }
  if errReadMax < thread.errReadCnt then { counted with gpsState := -3, running := false }
  else counted

/-- The end of a message, stored as a line feed. -/
def endOfMessage (thread : GpsRecv) : Option GpsRecv :=
  let ended := { thread with gpsBuf := Function.update thread.gpsBuf (thread.i - 1) 10 }
  if ended.gpsBuf 0 = dollar then
    (cString ended.gpsBuf).map fun info =>
      { ended with posState := 2, handed := ended.handed ++ [info], i := 0 }
  else some { ended with i := 0 }

/-- The index held against the end of the buffer. -/
def checkIndex (thread : GpsRecv) : GpsRecv :=
  if 2047 ≤ thread.i then { thread with posState := 3, gpsState := -4, i := 0 } else thread

/-- The rest of the loop's body, behind a read that stored a byte in front of the index. -/
def received (thread : GpsRecv) (byte : UInt8) : Option GpsRecv :=
  if byte = dollar then
    some { thread with gpsBuf := Function.update (fun _ => 0) 0 dollar, i := 1 }
  else if endsMessage byte then thread.endOfMessage.map checkIndex
  else some thread.checkIndex

/-- The body of the loop, with what `read` gives; `none` where it would write or read outside the
buffer, and behind the end of the loop. -/
def turn (thread : GpsRecv) (result : Option UInt8) : Option GpsRecv :=
  if thread.running then
    match result with
    | none => some thread.failed
    | some byte =>
      if thread.i < gpsBufSize then
        received
          { thread with
            gpsBuf := Function.update thread.gpsBuf thread.i byte
            i := thread.i + 1
            errReadCnt := 0 } byte
      else none
  else none

/-- The thread after some reads. -/
def run (thread : GpsRecv) (results : List (Option UInt8)) : Option GpsRecv :=
  results.foldlM turn thread

/-! ### What it is for -/

/-- The bytes received. -/
def bytes (results : List (Option UInt8)) : List UInt8 := results.reduceOption

/-- The message being received. -/
def openMessage (results : List (Option UInt8)) : Option (List UInt8) :=
  openSegment dollar endsMessage (bytes results)

/-- The messages received: the segments of at most 2046 bytes, with a line feed behind each. -/
def messages (results : List (Option UInt8)) : List (List UInt8) :=
  ((segments dollar endsMessage (bytes results)).filter (·.length ≤ 2046)).map (· ++ [10])

/-- The failed reads do not end the loop. -/
def Tolerated (results : List (Option UInt8)) : Prop :=
  ¬List.replicate (errReadMax + 2) none <:+: results

/-- The index lies in the buffer at all times, and the messages handed on are those received. -/
def Assembles (start : GpsRecv) (results : List (Option UInt8)) : Prop :=
  ∀ taken, taken <+: results →
    ∃ thread, start.run taken = some thread ∧ thread.i ≤ 2047 ∧ thread.handed = messages taken

/-! ### One turn -/

section Turn

variable {thread : GpsRecv} {byte : UInt8}

@[simp]
theorem failed_i (thread : GpsRecv) : thread.failed.i = thread.i + 1 := by
  unfold failed
  split <;> rfl

@[simp]
theorem failed_gpsBuf (thread : GpsRecv) : thread.failed.gpsBuf = thread.gpsBuf := by
  unfold failed
  split <;> rfl

@[simp]
theorem failed_handed (thread : GpsRecv) : thread.failed.handed = thread.handed := by
  unfold failed
  split <;> rfl

theorem failed_errReadCnt (thread : GpsRecv) :
    thread.failed.errReadCnt = thread.errReadCnt + 1 := by
  unfold failed
  split <;> rfl

theorem checkIndex_i (thread : GpsRecv) :
    thread.checkIndex.i = if 2047 ≤ thread.i then 0 else thread.i := by
  unfold checkIndex
  split <;> rfl

@[simp]
theorem checkIndex_gpsBuf (thread : GpsRecv) : thread.checkIndex.gpsBuf = thread.gpsBuf := by
  unfold checkIndex
  split <;> rfl

@[simp]
theorem checkIndex_handed (thread : GpsRecv) : thread.checkIndex.handed = thread.handed := by
  unfold checkIndex
  split <;> rfl

@[simp]
theorem checkIndex_errReadCnt (thread : GpsRecv) :
    thread.checkIndex.errReadCnt = thread.errReadCnt := by
  unfold checkIndex
  split <;> rfl

@[simp]
theorem checkIndex_running (thread : GpsRecv) : thread.checkIndex.running = thread.running := by
  unfold checkIndex
  split <;> rfl

theorem turn_failed (running : thread.running = true) : thread.turn none = some thread.failed :=
  if_pos running

/-- A byte stored in front of the index, which was in the buffer. -/
def stored (thread : GpsRecv) (byte : UInt8) : GpsRecv :=
  { thread with
    gpsBuf := Function.update thread.gpsBuf thread.i byte
    i := thread.i + 1
    errReadCnt := 0 }

theorem turn_received (running : thread.running = true) (inside : thread.i ≤ 2047) :
    thread.turn (some byte) = (thread.stored byte).received byte := by
  rw [turn, if_pos running]
  exact if_pos (Nat.lt_succ_of_le inside)

theorem received_dollar (thread : GpsRecv) :
    thread.received dollar =
      some { thread with gpsBuf := Function.update (fun _ => 0) 0 dollar, i := 1 } :=
  if_pos rfl

theorem received_plain (unmarked : byte ≠ dollar) (goesOn : endsMessage byte = false) :
    thread.received byte = some thread.checkIndex := by
  rw [received, if_neg unmarked, goesOn]
  rfl

theorem ne_dollar_of_ends (ends : endsMessage byte = true) : byte ≠ dollar := by
  rintro rfl
  cases ends

/-- What a turn leaves at the end of a message, but for what it hands on. -/
def atStart (thread : GpsRecv) : GpsRecv :=
  { thread with gpsBuf := Function.update thread.gpsBuf thread.i 10, i := 0, errReadCnt := 0 }

/-- At the end of a message the buffer is handed on if it begins with the mark, which the end may
have been stored over. -/
theorem turn_end (running : thread.running = true) (inside : thread.i ≤ 2047)
    (ends : endsMessage byte = true) :
    thread.turn (some byte) =
      if thread.i ≠ 0 ∧ thread.gpsBuf 0 = dollar then
        (cString thread.atStart.gpsBuf).map fun info =>
          { thread.atStart with posState := 2, handed := thread.handed ++ [info] }
      else some thread.atStart := by
  have first : Function.update thread.gpsBuf thread.i 10 0 = dollar ↔
      thread.i ≠ 0 ∧ thread.gpsBuf 0 = dollar := by
    by_cases start : thread.i = 0
    · rw [start, Function.update_self]
      exact iff_of_false (by decide) (fun both => both.1 rfl)
    · rw [Function.update_of_ne (Ne.symm start)]
      exact (and_iff_right start).symm
  rw [turn_received running inside, received, if_neg (ne_dollar_of_ends ends), if_pos ends,
    endOfMessage]
  simp only [stored, Nat.add_sub_cancel, Function.update_idem, first]
  split
  · unfold atStart
    cases cString (Function.update thread.gpsBuf thread.i 10) <;> rfl
  · rfl

end Turn

/-! ### One read more -/

section Concat

variable {taken : List (Option UInt8)} {byte : UInt8}

theorem bytes_concat_none : bytes (taken ++ [none]) = bytes taken := by
  rw [bytes, List.reduceOption_append]
  exact List.append_nil _

theorem bytes_concat_some : bytes (taken ++ [some byte]) = bytes taken ++ [byte] := by
  rw [bytes, List.reduceOption_append]
  rfl

theorem openMessage_concat_none : openMessage (taken ++ [none]) = openMessage taken := by
  rw [openMessage, bytes_concat_none, openMessage]

theorem openMessage_concat_some :
    openMessage (taken ++ [some byte]) = extend dollar endsMessage (openMessage taken) byte := by
  rw [openMessage, bytes_concat_some, openSegment_concat, openMessage]

theorem messages_concat_none : messages (taken ++ [none]) = messages taken := by
  rw [messages, bytes_concat_none, messages]

/-- No message ends but at a carriage return or a line feed. -/
theorem messages_concat_plain (goesOn : endsMessage byte = false) :
    messages (taken ++ [some byte]) = messages taken := by
  have none : ¬(byte ≠ dollar ∧ endsMessage byte = true) := fun both => by
    rw [goesOn] at both
    exact Bool.false_ne_true both.2
  rw [messages, bytes_concat_some, segments_concat, if_neg none, List.append_nil, messages]

theorem messages_concat_end (ends : endsMessage byte = true) :
    messages (taken ++ [some byte]) =
      messages taken ++ ((openMessage taken).toList.filter (·.length ≤ 2046)).map (· ++ [10]) := by
  rw [messages, bytes_concat_some, segments_concat, if_pos ⟨ne_dollar_of_ends ends, ends⟩,
    List.filter_append, List.map_append, messages, openMessage]

theorem messages_concat_short (ends : endsMessage byte = true) {message : List UInt8}
    (opened : openMessage taken = some message) (short : message.length ≤ 2046) :
    messages (taken ++ [some byte]) = messages taken ++ [message ++ [10]] := by
  rw [messages_concat_end ends, opened, Option.toList_some, List.filter_singleton,
    decide_eq_true short]
  rfl

theorem messages_concat_long (ends : endsMessage byte = true)
    (long : ∀ message, openMessage taken = some message → 2046 < message.length) :
    messages (taken ++ [some byte]) = messages taken := by
  rw [messages_concat_end ends]
  cases opened : openMessage taken with
  | none => exact List.append_nil _
  | some message =>
    rw [Option.toList_some, List.filter_singleton,
      decide_eq_false (Nat.not_le.mpr (long message opened))]
    exact List.append_nil _

theorem run_concat (start : GpsRecv) (taken : List (Option UInt8)) (result : Option UInt8) :
    start.run (taken ++ [result]) = (start.run taken).bind fun thread => thread.turn result := by
  simp only [run, List.foldlM_append, List.foldlM_cons, List.foldlM_nil, bind_pure]
  rfl

end Concat

/-! ### The end of the loop -/

section Tolerated

variable {gpsBuf : Memory} {gpsState posState : Int} {results taken : List (Option UInt8)}
  {thread : GpsRecv}

theorem endOfMessage_kept {after : GpsRecv} (ended : thread.endOfMessage = some after) :
    after.errReadCnt = thread.errReadCnt ∧ after.running = thread.running := by
  unfold endOfMessage at ended
  dsimp only at ended
  split at ended
  · obtain ⟨info, _, rfl⟩ := Option.map_eq_some_iff.mp ended
    exact ⟨rfl, rfl⟩
  · cases ended
    exact ⟨rfl, rfl⟩

theorem received_kept {byte : UInt8} {after : GpsRecv}
    (received : thread.received byte = some after) :
    after.errReadCnt = thread.errReadCnt ∧ after.running = thread.running := by
  unfold GpsRecv.received at received
  split at received
  · cases received
    exact ⟨rfl, rfl⟩
  split at received
  · obtain ⟨ended, found, rfl⟩ := Option.map_eq_some_iff.mp received
    rw [checkIndex_errReadCnt, checkIndex_running]
    exact endOfMessage_kept found
  · cases received
    exact ⟨checkIndex_errReadCnt thread, checkIndex_running thread⟩

/-- A turn of the running loop is a failed read, or a byte stored and looked at. -/
theorem turn_cases {after : GpsRecv} {result : Option UInt8}
    (turned : thread.turn result = some after) :
    thread.running = true ∧
      ((result = none ∧ after = thread.failed) ∨
        ∃ byte, result = some byte ∧ after.errReadCnt = 0 ∧ after.running = true) := by
  by_cases running : thread.running = true
  · refine ⟨running, ?_⟩
    unfold turn at turned
    rw [if_pos running] at turned
    cases result with
    | none =>
      cases turned
      exact Or.inl ⟨rfl, rfl⟩
    | some byte =>
      change (if thread.i < gpsBufSize then (thread.stored byte).received byte else none) =
        some after at turned
      refine Or.inr ⟨byte, rfl, ?_⟩
      split at turned
      · obtain ⟨clear, kept⟩ := received_kept turned
        exact ⟨clear, kept.trans running⟩
      · cases turned
  · unfold turn at turned
    rw [if_neg running] at turned
    cases turned

/-- The counter counts the failed reads since the last byte. -/
theorem errReadCnt_suffix (reached : (begun gpsBuf gpsState posState).run taken = some thread) :
    List.replicate thread.errReadCnt none <:+ taken := by
  induction taken using List.reverseRecOn generalizing thread with
  | nil =>
    cases reached
    exact List.suffix_rfl
  | append_singleton taken result inductionHypothesis =>
    rw [run_concat] at reached
    obtain ⟨before, earlier, turned⟩ := Option.bind_eq_some_iff.mp reached
    rcases (turn_cases turned).2 with ⟨rfl, rfl⟩ | ⟨byte, rfl, clear, _⟩
    · rw [failed_errReadCnt, List.replicate_succ']
      exact List.suffix_concat_iff.mpr (Or.inr ⟨_, rfl, inductionHypothesis earlier⟩)
    · rw [clear]
      exact List.nil_suffix

/-- The loop goes on for as long as it has tolerated every failed read. -/
theorem running_of_tolerated (tolerated : Tolerated results) (within : taken <+: results)
    (reached : (begun gpsBuf gpsState posState).run taken = some thread) :
    thread.running = true := by
  induction taken using List.reverseRecOn generalizing thread with
  | nil =>
    cases reached
    rfl
  | append_singleton taken result inductionHypothesis =>
    rw [run_concat] at reached
    obtain ⟨before, earlier, turned⟩ := Option.bind_eq_some_iff.mp reached
    obtain ⟨running, ⟨rfl, rfl⟩ | ⟨byte, rfl, _, kept⟩⟩ := turn_cases turned
    · have few : before.errReadCnt ≤ errReadMax := by
        by_contra many
        refine tolerated (List.IsInfix.trans ?_ within.isInfix)
        have all : List.replicate (errReadMax + 2) none <:+
            List.replicate (before.errReadCnt + 1) (none : Option UInt8) :=
          ⟨List.replicate (before.errReadCnt - errReadMax - 1) none, by
            rw [List.replicate_append_replicate,
              show before.errReadCnt - errReadMax - 1 + (errReadMax + 2) =
                before.errReadCnt + 1 by omega]⟩
        have counted : List.replicate (before.errReadCnt + 1) none <:+ taken ++ [none] := by
          rw [List.replicate_succ']
          exact List.suffix_concat_iff.mpr (Or.inr ⟨_, rfl, errReadCnt_suffix earlier⟩)
        exact (all.trans counted).isInfix
      rw [failed, if_neg (Nat.not_lt.mpr few)]
      exact running
    · exact kept

end Tolerated

end GpsRecv

end ExmOnvif.Ipmain
