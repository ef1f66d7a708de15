/-
This file is about reading a text line by line, as the C library does it: a read
takes the bytes up to the next line feed, or as many as there is room for.

A text of complete lines that have room comes apart into these lines, and there are
as many of them as line feeds. The strings of C end at the first zero, so that a line
with a zero in it is printed in part.
-/

import Mathlib.Data.List.Basic
import Mathlib.Data.List.Infix
import Mathlib.Data.List.TakeWhile

namespace ExmOnvif.Library

variable {room : Nat} {body line text rest : List UInt8} {lines : List (List UInt8)}

/-! ### Reading -/

/-- `fgets` with room for so many bytes and the terminator: the bytes it takes, and the rest. -/
def fgets : Nat → List UInt8 → List UInt8 × List UInt8
  | 0, bytes => ([], bytes)
  | _ + 1, [] => ([], [])
  | room + 1, byte :: bytes =>
    if byte = 10 then ([byte], bytes)
    else (byte :: (fgets room bytes).1, (fgets room bytes).2)

/-- What `fgets` gives until the text has come to its end. -/
def readLines (room : Nat) : Nat → List UInt8 → List (List UInt8)
  | 0, _ => []
  | turns + 1, bytes =>
    if bytes = [] then [] else (fgets room bytes).1 :: readLines room turns (fgets room bytes).2

/-- A line that ends with its only line feed and has room. -/
def Complete (room : Nat) (line : List UInt8) : Prop :=
  ∃ body, line = body ++ [10] ∧ 10 ∉ body ∧ body.length < room

theorem fgets_complete (noFeed : 10 ∉ body) (short : body.length < room) :
    fgets room (body ++ 10 :: rest) = (body ++ [10], rest) := by
  induction body generalizing room with
  | nil =>
    obtain ⟨room, rfl⟩ : ∃ less, room = less + 1 := ⟨room - 1, by
      rw [List.length_nil] at short
      omega⟩
    rw [List.nil_append, fgets, if_pos rfl, List.nil_append]
  | cons byte body inductionHypothesis =>
    rw [List.length_cons] at short
    obtain ⟨room, rfl⟩ : ∃ less, room = less + 1 := ⟨room - 1, by omega⟩
    have other : byte ≠ 10 := fun feed => noFeed (feed ▸ List.mem_cons_self)
    rw [List.cons_append, fgets, if_neg other, inductionHypothesis
      (fun member => noFeed (List.mem_cons_of_mem _ member)) (Nat.lt_of_succ_lt_succ short),
      List.cons_append]

theorem Complete.nonempty (complete : Complete room line) : line ≠ [] := by
  obtain ⟨body, rfl, _⟩ := complete
  exact List.append_ne_nil_of_right_ne_nil _ (List.cons_ne_nil _ _)

theorem Complete.count (complete : Complete room line) : line.count 10 = 1 := by
  obtain ⟨body, rfl, noFeed, _⟩ := complete
  rw [List.count_append, List.count_eq_zero.mpr noFeed]
  rfl

/-- Bytes without a line feed are read to the end of the text. -/
theorem fgets_last (noFeed : 10 ∉ body) (short : body.length ≤ room) :
    fgets room body = (body, []) := by
  induction body generalizing room with
  | nil =>
    cases room with
    | zero => rfl
    | succ room => rfl
  | cons byte body inductionHypothesis =>
    rw [List.length_cons] at short
    obtain ⟨room, rfl⟩ : ∃ less, room = less + 1 := ⟨room - 1, by omega⟩
    have other : byte ≠ 10 := fun feed => noFeed (feed ▸ List.mem_cons_self)
    rw [fgets, if_neg other, inductionHypothesis
      (fun member => noFeed (List.mem_cons_of_mem _ member)) (Nat.le_of_succ_le_succ short)]

/-- A text is read line by line, also when its last line has no line feed. -/
theorem readLines_text {last : List UInt8} {turns : Nat}
    (complete : ∀ line ∈ lines, Complete room line) (noFeed : 10 ∉ last)
    (short : last.length ≤ room)
    (enough : lines.length + (if last = [] then 0 else 1) ≤ turns) :
    readLines room turns (lines.flatten ++ last) =
      lines ++ (if last = [] then [] else [last]) := by
  induction lines generalizing turns with
  | nil =>
    rw [List.flatten_nil, List.nil_append, List.nil_append]
    by_cases empty : last = []
    · rw [if_pos empty, empty]
      cases turns with
      | zero => rfl
      | succ turns => rfl
    · rw [if_neg empty] at enough ⊢
      obtain ⟨turns, rfl⟩ : ∃ left, turns = left + 1 := ⟨turns - 1, by omega⟩
      rw [readLines, if_neg empty, fgets_last noFeed short]
      cases turns with
      | zero => rfl
      | succ turns => rfl
  | cons line lines inductionHypothesis =>
    have here := complete line List.mem_cons_self
    have nonempty : (line :: lines).flatten ++ last ≠ [] := by
      rw [List.flatten_cons, List.append_assoc]
      exact List.append_ne_nil_of_left_ne_nil here.nonempty _
    rw [List.length_cons] at enough
    obtain ⟨turns, rfl⟩ : ∃ left, turns = left + 1 := ⟨turns - 1, by omega⟩
    rw [readLines, if_neg nonempty, List.flatten_cons]
    obtain ⟨body, rfl, noFeed, short⟩ := here
    rw [List.append_assoc, List.append_assoc, List.singleton_append, fgets_complete noFeed short,
      inductionHypothesis (fun other member => complete other (List.mem_cons_of_mem _ member))
        (by omega), List.cons_append]

/-- Complete lines are not more than their bytes. -/
theorem length_le_flatten (complete : ∀ line ∈ lines, Complete room line) :
    lines.length ≤ lines.flatten.length := by
  induction lines with
  | nil => exact Nat.le_refl _
  | cons line lines inductionHypothesis =>
    have some_bytes := List.length_pos_of_ne_nil (complete line List.mem_cons_self).nonempty
    have rest := inductionHypothesis fun other member =>
      complete other (List.mem_cons_of_mem _ member)
    rw [List.flatten_cons, List.length_append, List.length_cons]
    omega

/-- Complete lines are read one by one. -/
theorem readLines_flatten {turns : Nat} (complete : ∀ line ∈ lines, Complete room line)
    (enough : lines.flatten.length ≤ turns) : readLines room turns lines.flatten = lines := by
  have read := @readLines_text room lines [] turns complete List.not_mem_nil (Nat.zero_le _)
    (Nat.le_trans (length_le_flatten complete) enough)
  rwa [List.append_nil, if_pos rfl, List.append_nil] at read

/-- Complete lines are as many as line feeds. -/
theorem count_flatten (complete : ∀ line ∈ lines, Complete room line) :
    lines.flatten.count 10 = lines.length := by
  induction lines with
  | nil => rfl
  | cons line lines inductionHypothesis =>
    rw [List.flatten_cons, List.count_append, List.length_cons,
      (complete line List.mem_cons_self).count,
      inductionHypothesis fun other member => complete other (List.mem_cons_of_mem _ member)]
    omega

/-- A text that ends with a line feed and has room is made of complete lines. -/
theorem exists_complete (ends : text.getLast? = some 10) (short : text.length ≤ room) :
    ∃ lines : List (List UInt8), lines.flatten = text ∧ ∀ line ∈ lines, Complete room line := by
  induction text generalizing room with
  | nil => cases ends
  | cons byte text inductionHypothesis =>
    rw [List.length_cons] at short
    cases text with
    | nil =>
      rw [List.getLast?_singleton] at ends
      rw [Option.some.inj ends]
      refine ⟨[[10]], rfl, fun line member => ?_⟩
      rw [List.mem_singleton.mp member]
      exact ⟨[], rfl, List.not_mem_nil, by rw [List.length_nil]; omega⟩
    | cons next text =>
      rw [List.getLast?_cons_cons] at ends
      obtain ⟨room, rfl⟩ : ∃ less, room = less + 1 := ⟨room - 1, by omega⟩
      obtain ⟨lines, flat, complete⟩ := inductionHypothesis ends (Nat.le_of_succ_le_succ short)
      have wider : ∀ line ∈ lines, Complete (room + 1) line := fun line member => by
        obtain ⟨body, same, noFeed, less⟩ := complete line member
        exact ⟨body, same, noFeed, Nat.lt_succ_of_lt less⟩
      by_cases feed : byte = 10
      · -- The byte is a line of its own.
        refine ⟨[10] :: lines, by rw [List.flatten_cons, flat, feed]; rfl, fun line member => ?_⟩
        rcases List.mem_cons.mp member with rfl | member
        · exact ⟨[], rfl, List.not_mem_nil, Nat.succ_pos _⟩
        · exact wider line member
      · -- The byte belongs to the first of the lines behind it.
        cases lines with
        | nil => cases flat
        | cons line lines =>
          rw [List.flatten_cons] at flat
          refine ⟨(byte :: line) :: lines, by rw [List.flatten_cons, List.cons_append, flat],
            fun other member => ?_⟩
          rcases List.mem_cons.mp member with rfl | member
          · obtain ⟨body, same, noFeed, less⟩ := complete line List.mem_cons_self
            refine ⟨byte :: body, by rw [same]; rfl, fun inside => ?_, Nat.succ_lt_succ less⟩
            rcases List.mem_cons.mp inside with same | inside
            · exact feed same.symm
            · exact noFeed inside
          · exact wider other (List.mem_cons_of_mem _ member)

/-! ### Printing -/

/-- What `%s` prints of a buffer: the bytes in front of the first zero. -/
def printed (buffer : List UInt8) : List UInt8 := buffer.takeWhile (· ≠ 0)

theorem zero_notMem_printed (buffer : List UInt8) : 0 ∉ printed buffer := by
  intro zero
  have kept := List.mem_takeWhile_imp zero
  exact of_decide_eq_true kept rfl

theorem printed_front (buffer : List UInt8) : printed buffer <+: buffer := List.takeWhile_prefix _

theorem printed_of_notMem (noZero : 0 ∉ line) : printed line = line := by
  refine List.takeWhile_eq_self_iff.mpr fun byte member => ?_
  exact decide_eq_true fun zero => noZero (zero ▸ member)

theorem printed_length_le (line : List UInt8) : (printed line).length ≤ line.length :=
  (printed_front line).length_le

/-- With a zero in it a line loses something. -/
theorem printed_length_lt (zero : 0 ∈ line) : (printed line).length < line.length := by
  induction line with
  | nil => cases zero
  | cons byte line inductionHypothesis =>
    by_cases here : byte = 0
    · rw [printed, List.takeWhile_cons_of_neg (by simpa using here)]
      exact Nat.succ_pos _
    · have later : 0 ∈ line := by
        rcases List.mem_cons.mp zero with same | later
        · exact absurd same.symm here
        · exact later
      rw [printed, List.takeWhile_cons_of_pos (by simpa using here)]
      exact Nat.succ_lt_succ (inductionHypothesis later)

theorem flatMap_printed (noZero : ∀ line ∈ lines, 0 ∉ line) :
    lines.flatMap printed = lines.flatten := by
  rw [List.flatMap_def, List.map_congr_left fun line member =>
    printed_of_notMem (noZero line member), List.map_id']

theorem flatMap_printed_length_le (lines : List (List UInt8)) :
    (lines.flatMap printed).length ≤ lines.flatten.length := by
  induction lines with
  | nil => exact Nat.le_refl _
  | cons line lines inductionHypothesis =>
    rw [List.flatMap_cons, List.flatten_cons, List.length_append, List.length_append]
    exact Nat.add_le_add (printed_length_le line) inductionHypothesis

/-- With a zero in one of them something of the lines is lost. -/
theorem flatMap_printed_length_lt (zero : ∃ line ∈ lines, 0 ∈ line) :
    (lines.flatMap printed).length < lines.flatten.length := by
  obtain ⟨line, member, zero⟩ := zero
  induction lines with
  | nil => cases member
  | cons first lines inductionHypothesis =>
    rw [List.flatMap_cons, List.flatten_cons, List.length_append, List.length_append]
    rcases List.mem_cons.mp member with rfl | member
    · exact Nat.add_lt_add_of_lt_of_le (printed_length_lt zero) (flatMap_printed_length_le lines)
    · exact Nat.add_lt_add_of_le_of_lt (printed_length_le first) (inductionHypothesis member)

end ExmOnvif.Library
