/-
This file is about the segments of a stream of symbols: a segment begins with a mark, is begun
anew by the next mark, and is ended by one of the ending symbols, which is not of it.

After some symbols there is a segment that has begun and not ended, or none, and there are the
segments that have ended, in their order.
-/

import Mathlib.Data.List.Infix

namespace ExmOnvif.Library

variable {Symbol : Type} [DecidableEq Symbol] (mark : Symbol) (ends : Symbol → Bool)
  {segment : List Symbol} {before : Option (List Symbol)} {symbols : List Symbol} {symbol : Symbol}

/-- The open segment after one symbol more. -/
def extend (before : Option (List Symbol)) (symbol : Symbol) : Option (List Symbol) :=
  if symbol = mark then some [mark]
  else if ends symbol then none
  else before.map (· ++ [symbol])

/-- The segment that has begun and not ended. -/
def openSegment (symbols : List Symbol) : Option (List Symbol) :=
  symbols.foldl (extend mark ends) none

/-- The segments that end, behind an open one. -/
def segmentsBehind : Option (List Symbol) → List Symbol → List (List Symbol)
  | _, [] => []
  | before, symbol :: symbols =>
    (if symbol ≠ mark ∧ ends symbol then before.toList else []) ++
      segmentsBehind (extend mark ends before symbol) symbols

/-- The segments that have ended. -/
def segments (symbols : List Symbol) : List (List Symbol) := segmentsBehind mark ends none symbols

theorem openSegment_concat (symbols : List Symbol) (symbol : Symbol) :
    openSegment mark ends (symbols ++ [symbol]) =
      extend mark ends (openSegment mark ends symbols) symbol :=
  List.foldl_append

theorem segmentsBehind_concat (symbols : List Symbol) (symbol : Symbol) :
    segmentsBehind mark ends before (symbols ++ [symbol]) =
      segmentsBehind mark ends before symbols ++
        if symbol ≠ mark ∧ ends symbol then (symbols.foldl (extend mark ends) before).toList
        else [] := by
  induction symbols generalizing before with
  | nil =>
    simp only [List.nil_append, segmentsBehind, List.append_nil, List.foldl_nil]
  | cons first symbols inductionHypothesis =>
    rw [List.cons_append, segmentsBehind, inductionHypothesis, segmentsBehind, List.append_assoc,
      List.foldl_cons]

/-- A segment is open if it was begun just now, or before and the symbol neither begins nor ends
one. -/
theorem extend_eq_some_iff :
    extend mark ends before symbol = some segment ↔
      (symbol = mark ∧ segment = [mark]) ∨
        ((symbol ≠ mark ∧ ends symbol = false) ∧
          ∃ begun, before = some begun ∧ segment = begun ++ [symbol]) := by
  unfold extend
  by_cases marked : symbol = mark
  · rw [if_pos marked, or_iff_left fun other => other.1.1 marked, and_iff_right marked]
    exact Option.some_inj.trans eq_comm
  rw [if_neg marked, or_iff_right fun other => marked other.1]
  cases ends symbol with
  | true =>
    refine iff_of_false (fun opened => ?_) fun other => Bool.false_ne_true other.1.2.symm
    cases opened
  | false =>
    rw [and_iff_right ⟨marked, rfl⟩]
    exact Option.map_eq_some_iff.trans (exists_congr fun begun => and_congr_right' eq_comm)

/-- A symbol ends the open segment, or none. -/
theorem segments_concat (symbols : List Symbol) (symbol : Symbol) :
    segments mark ends (symbols ++ [symbol]) =
      segments mark ends symbols ++
        if symbol ≠ mark ∧ ends symbol then (openSegment mark ends symbols).toList else [] :=
  segmentsBehind_concat mark ends symbols symbol

/-- The open segment is what has come from the last mark on, if nothing has ended it. -/
theorem openSegment_eq_some_iff :
    openSegment mark ends symbols = some segment ↔
      ∃ body, segment = mark :: body ∧ segment <:+ symbols ∧
        ∀ symbol ∈ body, symbol ≠ mark ∧ ends symbol = false := by
  induction symbols using List.reverseRecOn generalizing segment with
  | nil =>
    refine iff_of_false nofun ?_
    rintro ⟨body, rfl, suffix, _⟩
    exact absurd (List.suffix_nil.mp suffix) (List.cons_ne_nil _ _)
  | append_singleton symbols symbol inductionHypothesis =>
    rw [openSegment_concat, extend_eq_some_iff]
    constructor
    · rintro (⟨rfl, rfl⟩ | ⟨plain, begun, opened, rfl⟩)
      · exact ⟨[], rfl, List.suffix_append _ _, fun _ member => absurd member List.not_mem_nil⟩
      · obtain ⟨body, rfl, suffix, earlier⟩ := inductionHypothesis.mp opened
        refine ⟨body ++ [symbol], rfl,
          List.suffix_concat_iff.mpr (Or.inr ⟨mark :: body, rfl, suffix⟩), fun other member => ?_⟩
        rcases List.mem_append.mp member with old | new
        · exact earlier other old
        · rw [List.mem_singleton.mp new]
          exact plain
    · rintro ⟨body, rfl, suffix, plain⟩
      rcases List.suffix_concat_iff.mp suffix with none | ⟨begun, same, inner⟩
      · cases none
      cases begun with
      | nil =>
        obtain ⟨rfl, rfl⟩ := List.cons.inj same
        exact Or.inl ⟨rfl, rfl⟩
      | cons first begun =>
        obtain ⟨rfl, rfl⟩ := List.cons.inj same
        have last := plain symbol (List.mem_append_right _ (List.mem_singleton_self _))
        have opened := inductionHypothesis.mpr
          ⟨begun, rfl, inner, fun other member => plain other (List.mem_append_left _ member)⟩
        exact Or.inr ⟨last, mark :: begun, opened, rfl⟩

end ExmOnvif.Library
