/-
This file is about the structure of a record as an array of fields, and proves when the
calls that set its fields leave such an array.

Each call sets one position, in any order and also a second time, and a position that was
never set is blank. The structure does not know which positions were set: it counts a
call as a new field when it finds its position blank. The formatter lists as many rows
from the front as were counted. A position is missed that lies behind the count, and
rows that do not exist are listed where blank values were counted again and again.

A value of the greatest length that is accepted fills its row, so that nothing ends it.
-/

import Mathlib.Data.Fintype.Card
import Mathlib.Data.List.DropRight
import ExmOnvif.Csvparser.Record

namespace ExmOnvif.Csvparser

open Library

/-! ### Calls -/

/-- A call of `csv_set_str` that passes its check. -/
structure SetCall where
  index : Fin maxAtomNum
  value : Str
  admitted : value.length ≤ maxAtomLen

/-- The calls one after the other. -/
def setAll : List SetCall → Csv → Option (Except CsvErr Csv)
  | [], cs => some (.ok cs)
  | call :: calls, cs =>
    match cs.setStr (call.index + 1) call.value with
    | some (.ok next) => setAll calls next
    | some (.error error) => some (.error error)
    | none => none

/-! ### Arrays of fields -/

/-- A value without the spaces at its ends. -/
def trimmed (value : Str) : Str := (value.rdropWhile (· = 32)).dropWhile (· = 32)

/-- The field at a position: what is left of the last value that was set there. -/
def field (calls : List SetCall) (index : Fin maxAtomNum) : Str :=
  match (calls.filter fun call => decide (call.index = index)).getLast? with
  | none => []
  | some call => trimmed call.value

/-- The calls that find their position blank, after some calls in the past. -/
def foundBlank : List SetCall → List SetCall → Nat
  | _, [] => 0
  | past, call :: calls =>
    (if field past call.index = [] then 1 else 0) + foundBlank (past ++ [call]) calls

/-- A text that lists the fields of the first positions, all that are not empty among them. -/
def Lists (calls : List SetCall) (text : Str) : Prop :=
  ∃ shown ≤ maxAtomNum,
    text = List.intercalate [44] ((List.ofFn (field calls)).take shown) ++ [13, 10] ∧
    ∀ index, field calls index ≠ [] → index.val < shown

/-- The calls succeed, each position has its field, and the formatter lists the fields. -/
def ActsAsArray (calls : List SetCall) : Prop :=
  ∃ cs, setAll calls Csv.create = some (.ok cs) ∧
    (∀ index : Fin maxAtomNum, ∀ defVal,
      cs.getStr (index + 1) defVal = if field calls index = [] then defVal else field calls index) ∧
    ∃ text, cs.getString = some text ∧ Lists calls text

/-! ### Trimming -/

section Trimming

variable {turns : Nat} {value : Str}

theorem rmTrailing_eq (enough : value.length ≤ turns) :
    rmTrailing turns value = value.rdropWhile (· = 32) := by
  induction turns generalizing value with
  | zero =>
    rw [List.length_eq_zero_iff.mp (Nat.le_zero.mp enough), rmTrailing, List.rdropWhile_nil]
  | succ turns inductionHypothesis =>
    rcases List.eq_nil_or_concat value with rfl | ⟨front, last, rfl⟩
    · rfl
    · rw [List.concat_eq_append] at enough ⊢
      rw [List.length_append, List.length_singleton] at enough
      rw [rmTrailing, List.getLast?_concat, List.dropLast_concat, List.rdropWhile_concat]
      by_cases space : last = 32
      · rw [if_pos (congrArg some space), if_pos (decide_eq_true space),
          inductionHypothesis (Nat.le_of_succ_le_succ enough)]
      · rw [if_neg fun same => space (Option.some.inj same),
          if_neg fun same => space (of_decide_eq_true same)]

theorem rmLeading_eq (enough : value.length ≤ turns) :
    rmLeading turns value = value.dropWhile (· = 32) := by
  induction turns generalizing value with
  | zero =>
    rw [List.length_eq_zero_iff.mp (Nat.le_zero.mp enough), rmLeading, List.dropWhile_nil]
  | succ turns inductionHypothesis =>
    cases value with
    | nil => rfl
    | cons first rest =>
      rw [List.length_cons] at enough
      rw [rmLeading, List.head?_cons, List.tail_cons, List.dropWhile_cons]
      by_cases space : first = 32
      · rw [if_pos (congrArg some space), if_pos (decide_eq_true space),
          inductionHypothesis (Nat.le_of_succ_le_succ enough)]
      · rw [if_neg fun same => space (Option.some.inj same),
          if_neg fun same => space (of_decide_eq_true same)]

/-- The loops take all spaces off. -/
theorem rmUnusedSpace_text (row : Row) : (rmUnusedSpace row).text = trimmed row.text := by
  show rmLeading row.text.length (rmTrailing row.text.length row.text) = _
  rw [rmLeading_eq (rmTrailing_length _ _), rmTrailing_eq (Nat.le_refl _)]
  rfl

end Trimming

/-! ### Fields -/

section Fields

variable {calls past : List SetCall} {call : SetCall} {cs : Csv} {index : Fin maxAtomNum}

theorem field_nil (index : Fin maxAtomNum) : field [] index = [] := rfl

/-- A call sets its own position. -/
theorem field_concat (past : List SetCall) (call : SetCall) (index : Fin maxAtomNum) :
    field (past ++ [call]) index =
      if index = call.index then trimmed call.value else field past index := by
  unfold field
  rw [List.filter_append]
  by_cases here : index = call.index
  · rw [if_pos here, List.filter_cons, if_pos (decide_eq_true here.symm), List.filter_nil,
      List.getLast?_concat]
  · rw [if_neg here, List.filter_cons, if_neg fun same => here (of_decide_eq_true same).symm,
      List.filter_nil, List.append_nil]

/-- A position passes the check of the functions. -/
theorem position_inside (index : Fin maxAtomNum) :
    0 < (index : Int) + 1 ∧ (index : Int) + 1 ≤ maxAtomNum := by
  have below := index.isLt
  omega

/-- The row of a position. -/
theorem position_row (index : Fin maxAtomNum) (small : ((index : Int) + 1 - 1).toNat < maxAtomNum) :
    (⟨((index : Int) + 1 - 1).toNat, small⟩ : Fin maxAtomNum) = index :=
  Fin.ext (by simp)

/-- What a call does that leaves room for the terminator. -/
theorem setStr_eq (cs : Csv) (call : SetCall) (short : call.value.length < maxAtomLen) :
    cs.setStr (call.index + 1) call.value = some (.ok
      ⟨if (cs.csvBuf call.index).text = [] then cs.atomNum + 1 else cs.atomNum, fun index =>
        if index = call.index then rmUnusedSpace ⟨call.value, short⟩ else cs.csvBuf index⟩) := by
  obtain ⟨positive, within⟩ := position_inside call.index
  rw [Csv.setStr, dif_pos ⟨positive, within, call.admitted⟩, dif_pos short]
  simp only [position_row]

/-- A value that fills its row has no result. -/
theorem setStr_full (cs : Csv) (call : SetCall) (full : ¬call.value.length < maxAtomLen) :
    cs.setStr (call.index + 1) call.value = none := by
  obtain ⟨positive, within⟩ := position_inside call.index
  rw [Csv.setStr, dif_pos ⟨positive, within, call.admitted⟩, dif_neg full]

/-- The rows are the fields. -/
def Represents (cs : Csv) (calls : List SetCall) : Prop :=
  ∀ index, (cs.csvBuf index).text = field calls index

theorem create_represents : Represents Csv.create [] := fun _ => rfl

/-- A call keeps the rows the fields, and counts itself if it finds its position blank. -/
theorem Represents.step (represents : Represents cs past) (short : call.value.length < maxAtomLen) :
    ∃ next, cs.setStr (call.index + 1) call.value = some (.ok next) ∧
      Represents next (past ++ [call]) ∧
      next.atomNum = cs.atomNum + if field past call.index = [] then 1 else 0 := by
  refine ⟨_, setStr_eq cs call short, fun index => ?_, ?_⟩
  · rw [field_concat]
    by_cases here : index = call.index
    · simp only [if_pos here]
      exact rmUnusedSpace_text _
    · simp only [if_neg here]
      exact represents index
  · rw [← represents call.index]
    simp only
    split
    · rfl
    · rfl

/-- The calls keep the rows the fields. -/
theorem Represents.run (represents : Represents cs past)
    (short : ∀ call ∈ calls, call.value.length < maxAtomLen) :
    ∃ next, setAll calls cs = some (.ok next) ∧ Represents next (past ++ calls) ∧
      next.atomNum = cs.atomNum + foundBlank past calls := by
  induction calls generalizing cs past with
  | nil => exact ⟨cs, rfl, (List.append_nil past).symm ▸ represents, rfl⟩
  | cons call calls inductionHypothesis =>
    obtain ⟨next, set, kept, counted⟩ := represents.step (short call List.mem_cons_self)
    obtain ⟨final, run, all, total⟩ := inductionHypothesis kept fun other member =>
      short other (List.mem_cons_of_mem _ member)
    refine ⟨final, ?_, ?_, ?_⟩
    · rw [setAll, set]
      exact run
    · rwa [List.append_assoc, List.singleton_append] at all
    · rw [total, counted, foundBlank, Nat.add_assoc]

/-- The calls succeed only if no value fills its row. -/
theorem short_of_setAll {next : Csv} (run : setAll calls cs = some (.ok next)) :
    ∀ call ∈ calls, call.value.length < maxAtomLen := by
  induction calls generalizing cs with
  | nil => exact fun _ member => by cases member
  | cons call calls inductionHypothesis =>
    by_cases short : call.value.length < maxAtomLen
    · rw [setAll, setStr_eq cs call short] at run
      exact List.forall_mem_cons.mpr ⟨short, inductionHypothesis run⟩
    · rw [setAll, setStr_full cs call short] at run
      cases run

/-- A position is read as its field. -/
theorem Represents.getStr (represents : Represents cs calls) (index : Fin maxAtomNum)
    (defVal : Str) : cs.getStr (index + 1) defVal =
      if field calls index = [] then defVal else field calls index := by
  rw [Csv.getStr, dif_pos (position_inside index)]
  simp only [position_row, represents index]

/-- The formatter lists as many fields as were counted. -/
theorem Represents.getString (represents : Represents cs calls) (few : cs.atomNum ≤ maxAtomNum)
    (counted : 0 < cs.atomNum) :
    cs.getString =
      some (List.intercalate [44] ((List.ofFn (field calls)).take cs.atomNum) ++ [13, 10]) := by
  have rows : (List.ofFn cs.csvBuf).map Row.text = List.ofFn (field calls) := by
    rw [List.map_ofFn]
    exact congrArg List.ofFn (funext represents)
  have used : cs.used ≠ [] := by
    refine List.ne_nil_of_length_pos ?_
    rw [Csv.used, List.length_take, List.length_ofFn]
    exact lt_min counted (by decide)
  rw [Csv.getString_eq few used, Csv.joined, Csv.used, List.map_take, rows]

/-- The formatter gives a text only when something was counted, and not more than there is. -/
theorem counted_of_getString {text : Str} (formatted : cs.getString = some text) :
    0 < cs.atomNum ∧ cs.atomNum ≤ maxAtomNum := by
  by_cases few : cs.atomNum ≤ maxAtomNum
  · refine ⟨Nat.pos_of_ne_zero fun none => ?_, few⟩
    have empty : cs.used = [] := by rw [Csv.used, none, List.take_zero]
    rw [Csv.getString, if_pos few, empty] at formatted
    cases formatted
  · rw [Csv.getString, if_neg few] at formatted
    cases formatted

end Fields

/-! ### Lists of fields -/

/-- With more fields the text is longer. -/
theorem intercalate_length_lt {front rest : List Str} (some_front : front ≠ [])
    (some_rest : rest ≠ []) :
    (List.intercalate [44] front).length < (List.intercalate [44] (front ++ rest)).length := by
  induction front with
  | nil => exact absurd rfl some_front
  | cons first front inductionHypothesis =>
    cases front with
    | nil =>
      obtain ⟨next, rest, rfl⟩ := List.exists_cons_of_ne_nil some_rest
      rw [List.singleton_append, List.intercalate_cons_cons, List.intercalate_singleton,
        List.length_append, List.length_append, List.length_singleton]
      omega
    | cons next front =>
      have longer := inductionHypothesis (List.cons_ne_nil _ _)
      rw [List.cons_append] at longer
      rw [List.cons_append, List.cons_append, List.intercalate_cons_cons,
        List.intercalate_cons_cons, List.length_append, @List.length_append _ (first ++ [44])]
      exact Nat.add_lt_add_left longer _

/-- The first call finds its position blank. -/
theorem foundBlank_pos {calls : List SetCall} (some_calls : calls ≠ []) :
    0 < foundBlank [] calls := by
  obtain ⟨call, rest, rfl⟩ := List.exists_cons_of_ne_nil some_calls
  rw [foundBlank, field_nil, if_pos rfl]
  omega

/-- The fields that are listed are all that are not empty exactly if the count reaches them. -/
theorem lists_iff {calls : List SetCall} {counted : Nat} (some_counted : 0 < counted)
    (few : counted ≤ maxAtomNum) :
    Lists calls (List.intercalate [44] ((List.ofFn (field calls)).take counted) ++ [13, 10]) ↔
      ∀ index, field calls index ≠ [] → index.val < counted := by
  constructor
  · rintro ⟨shown, within, same, covers⟩ index nonempty
    have reached := covers index nonempty
    by_contra missed
    -- More fields would have been listed than were counted.
    have more : counted < shown := (Nat.not_lt.mp missed).trans_lt reached
    have length : (List.ofFn (field calls)).length = maxAtomNum := List.length_ofFn
    have split : (List.ofFn (field calls)).take shown =
        (List.ofFn (field calls)).take counted ++
          ((List.ofFn (field calls)).take shown).drop counted := by
      have parts := List.take_append_drop counted ((List.ofFn (field calls)).take shown)
      rw [List.take_take, Nat.min_eq_left more.le] at parts
      exact parts.symm
    have longer := @intercalate_length_lt ((List.ofFn (field calls)).take counted)
      (((List.ofFn (field calls)).take shown).drop counted)
      (List.ne_nil_of_length_pos (by rw [List.length_take, length]; omega))
      (List.ne_nil_of_length_pos (by rw [List.length_drop, List.length_take, length]; omega))
    rw [← split, ← List.append_cancel_right same] at longer
    exact Nat.lt_irrefl _ longer
  · exact fun reached => ⟨counted, few, rfl, reached⟩

/-! ### Calls that leave an array -/

variable {calls past : List SetCall}

/-- What calls that leave an array of fields have in common. -/
structure Suitable (calls : List SetCall) : Prop where
  some_calls : calls ≠ []
  short : ∀ call ∈ calls, call.value.length < maxAtomLen
  few : foundBlank [] calls ≤ maxAtomNum
  reached : ∀ index, field calls index ≠ [] → index.val < foundBlank [] calls

/-- The calls on a new structure. -/
theorem setAll_create (short : ∀ call ∈ calls, call.value.length < maxAtomLen) :
    ∃ cs, setAll calls Csv.create = some (.ok cs) ∧ Represents cs calls ∧
      cs.atomNum = foundBlank [] calls := by
  obtain ⟨cs, run, represents, counted⟩ := create_represents.run short
  refine ⟨cs, run, represents, ?_⟩
  rw [counted]
  exact Nat.zero_add _

theorem ActsAsArray.suitable (acts : ActsAsArray calls) : Suitable calls := by
  obtain ⟨cs, run, _, text, formatted, lists⟩ := acts
  have short := short_of_setAll run
  obtain ⟨next, again, represents, counted⟩ := setAll_create short
  rw [run] at again
  cases again
  obtain ⟨some_counted, few⟩ := counted_of_getString formatted
  rw [represents.getString few some_counted] at formatted
  rw [← Option.some.inj formatted, lists_iff some_counted few] at lists
  rw [counted] at few some_counted lists
  refine ⟨?_, short, few, lists⟩
  rintro rfl
  exact Nat.lt_irrefl 0 some_counted

theorem Suitable.actsAsArray (suitable : Suitable calls) : ActsAsArray calls := by
  obtain ⟨cs, run, represents, counted⟩ := setAll_create suitable.short
  have some_counted : 0 < cs.atomNum := counted ▸ foundBlank_pos suitable.some_calls
  have few : cs.atomNum ≤ maxAtomNum := counted ▸ suitable.few
  have reached := suitable.reached
  rw [← counted] at reached
  exact ⟨cs, run, represents.getStr, _, represents.getString few some_counted,
    (lists_iff some_counted few).mpr reached⟩

/-- A position that was not set is blank. -/
theorem field_of_notMem {index : Fin maxAtomNum} (other : ∀ call ∈ calls, call.index ≠ index) :
    field calls index = [] := by
  unfold field
  rw [List.filter_eq_nil_iff.mpr fun call member same =>
    other call member (of_decide_eq_true same)]
  rfl

/-- Calls that set different positions all find them blank. -/
theorem foundBlank_of_nodup (distinct : (calls.map SetCall.index).Nodup)
    (apart : ∀ call ∈ calls, ∀ other ∈ past, other.index ≠ call.index) :
    foundBlank past calls = calls.length := by
  induction calls generalizing past with
  | nil => rfl
  | cons call calls inductionHypothesis =>
    rw [List.map_cons, List.nodup_cons] at distinct
    rw [foundBlank, if_pos (field_of_notMem (apart call List.mem_cons_self)), List.length_cons,
      inductionHypothesis distinct.2, Nat.add_comm]
    intro next member other inside
    rcases List.mem_append.mp inside with before | here
    · exact apart next (List.mem_cons_of_mem _ member) other before
    · rw [List.mem_singleton.mp here]
      exact fun same => distinct.1 (same ▸ List.mem_map_of_mem member)

/-- Calls that set different positions leave an array of fields exactly if they are at least as
many as the highest position that is not empty. -/
theorem distinct_positions_iff (some_calls : calls ≠ [])
    (short : ∀ call ∈ calls, call.value.length < maxAtomLen)
    (distinct : (calls.map SetCall.index).Nodup) :
    ActsAsArray calls ↔ ∀ index, field calls index ≠ [] → index.val < calls.length := by
  have counted : foundBlank [] calls = calls.length :=
    foundBlank_of_nodup distinct fun _ _ _ member => by cases member
  have few := List.Nodup.length_le_card distinct
  rw [List.length_map, Fintype.card_fin] at few
  constructor
  · intro acts
    have reached := acts.suitable.reached
    rwa [counted] at reached
  · intro reached
    refine Suitable.actsAsArray ⟨some_calls, short, ?_, ?_⟩
    · rwa [counted]
    · rwa [counted]

/-- Calls that set fields leave an array of fields exactly if there is a call, no value fills its
row, and the calls that find their position blank are not more than there are positions and at
least as many as the highest position that is not empty at the end. -/
theorem acts_as_array_iff (calls : List SetCall) :
    ActsAsArray calls ↔
      calls ≠ [] ∧ (∀ call ∈ calls, call.value.length < maxAtomLen) ∧
        foundBlank [] calls ≤ maxAtomNum ∧
        ∀ index, field calls index ≠ [] → index.val < foundBlank [] calls := by
  constructor
  · intro acts
    have suitable := acts.suitable
    exact ⟨suitable.some_calls, suitable.short, suitable.few, suitable.reached⟩
  · rintro ⟨some_calls, short, few, reached⟩
    exact Suitable.actsAsArray ⟨some_calls, short, few, reached⟩

/-- The field `b` is set at the second position, and the formatter lists only the first. -/
theorem second_position_missed :
    ¬ActsAsArray [⟨⟨1, by decide⟩, [98], by decide⟩] := by
  intro acts
  have reached := acts.suitable.reached ⟨1, by decide⟩ (by decide)
  exact absurd reached (by decide)

end ExmOnvif.Csvparser
