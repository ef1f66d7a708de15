/-
This file is about spans of time that follow each other, and how they are merged where the stretch
between two of them is short.

The merged spans have longer stretches between them, and an instant is in one of them just if it is
in one of the spans or in a short stretch between two.
-/

import Mathlib.Data.List.Basic
import Mathlib.Algebra.Order.Group.Abs
import Mathlib.Algebra.Order.Group.Int

namespace ExmOnvif.Library

/-- A span of time, with the first and the last instant of it. -/
abbrev Span := Int × Int

namespace Span

/-- The instants of a span. -/
def Has (span : Span) (instant : Int) : Prop := span.1 ≤ instant ∧ instant ≤ span.2

/-- The spans behind a span, each of which is merged with what is in front of it if it is near. -/
def merge (near : Int) : Span → List Span → List Span
  | span, [] => [span]
  | span, next :: spans =>
    if |span.2 - next.1| > near then span :: merge near next spans
      else merge near (span.1, next.2) spans

/-- The ends and the beginnings between which the stretches are. -/
def stretches (spans : List Span) : List Span := (spans.map Prod.snd).zip (spans.tail.map Prod.fst)

/-- A stretch of a length has an instant, which is between its ends. -/
def Bridges (near : Int) (stretch : Span) (instant : Int) : Prop :=
  stretch.1 < instant ∧ instant < stretch.2 ∧ stretch.2 ≤ stretch.1 + near

/-- One span follows another one: it neither begins nor ends before it, and it does not begin much
before the end of the other one. -/
structure Follows (near : Int) (span next : Span) : Prop where
  start : span.1 ≤ next.1
  stop : span.2 ≤ next.2
  apart : span.2 ≤ next.1 + near

variable {near : Int} {span next : Span} {spans : List Span}

theorem stretches_cons (span next : Span) (spans : List Span) :
    stretches (span :: next :: spans) = (span.2, next.1) :: stretches (next :: spans) := rfl

/-- What is behind a span depends on its end only. -/
theorem stretches_merged (start : Int) (next : Span) (spans : List Span) :
    stretches ((start, next.2) :: spans) = stretches (next :: spans) := rfl

theorem Follows.merged (follows : Follows near span next) {third : Span}
    (behind : Follows near next third) :
    Follows near (span.1, next.2) third :=
  ⟨follows.start.trans behind.start, behind.stop, behind.apart⟩

theorem chain_merged (chain : (span :: next :: spans).IsChain (Follows near)) :
    ((span.1, next.2) :: spans).IsChain (Follows near) := by
  obtain ⟨follows, rest⟩ := List.isChain_cons_cons.mp chain
  cases spans with
  | nil => exact List.IsChain.singleton _
  | cons third spans =>
    obtain ⟨behind, others⟩ := List.isChain_cons_cons.mp rest
    exact List.isChain_cons_cons.mpr ⟨follows.merged behind, others⟩

/-- A span that is not near begins late enough. -/
theorem Follows.far (follows : Follows near span next) (far : |span.2 - next.1| > near) :
    span.2 + near < next.1 := by
  have apart := follows.apart
  rcases lt_abs.mp far with before | behind <;> omega

/-- No merged span begins in front of the first span. -/
theorem start_le (chain : (span :: spans).IsChain (Follows near)) :
    ∀ merged ∈ merge near span spans, span.1 ≤ merged.1 := by
  induction spans generalizing span with
  | nil =>
    intro merged member
    rw [List.mem_singleton.mp member]
  | cons next spans inductionHypothesis =>
    obtain ⟨follows, rest⟩ := List.isChain_cons_cons.mp chain
    intro merged member
    rw [merge] at member
    split at member
    · rcases List.mem_cons.mp member with rfl | member
      · exact le_rfl
      · exact follows.start.trans (inductionHypothesis rest merged member)
    · exact inductionHypothesis (chain_merged chain) merged member

/-- Between two merged spans the stretch is longer. -/
theorem merge_apart (chain : (span :: spans).IsChain (Follows near)) :
    (merge near span spans).Pairwise fun first second => first.2 + near < second.1 := by
  induction spans generalizing span with
  | nil => exact List.pairwise_singleton _ _
  | cons next spans inductionHypothesis =>
    obtain ⟨follows, rest⟩ := List.isChain_cons_cons.mp chain
    rw [merge]
    split
    · next far =>
      refine List.pairwise_cons.mpr ⟨fun merged member => ?_, inductionHypothesis rest⟩
      exact (follows.far far).trans_le (start_le rest merged member)
    · exact inductionHypothesis (chain_merged chain)

/-- Two spans that are near make one, with the stretch between them. -/
theorem Follows.merged_has (follows : Follows near span next) (valid : span.1 ≤ span.2)
    (valid' : next.1 ≤ next.2) (close : ¬|span.2 - next.1| > near) (instant : Int) :
    Has (span.1, next.2) instant ↔
      (span.Has instant ∨ next.Has instant) ∨ Bridges near (span.2, next.1) instant := by
  have start := follows.start
  have stop := follows.stop
  have short := neg_le_of_abs_le (not_lt.mp close)
  simp only [Has, Bridges]
  constructor
  · intro inside
    omega
  · intro inside
    omega

/-- An instant is in a merged span just if it is in a span or in a short stretch. -/
theorem merge_has (chain : (span :: spans).IsChain (Follows near))
    (valid : ∀ part ∈ span :: spans, part.1 ≤ part.2) (instant : Int) :
    (∃ merged ∈ merge near span spans, merged.Has instant) ↔
      (∃ part ∈ span :: spans, part.Has instant) ∨
        ∃ stretch ∈ stretches (span :: spans), stretch.Bridges near instant := by
  induction spans generalizing span with
  | nil =>
    rw [merge]
    exact (or_iff_left fun ⟨_, member, _⟩ => List.not_mem_nil member).symm
  | cons next spans inductionHypothesis =>
    obtain ⟨follows, rest⟩ := List.isChain_cons_cons.mp chain
    obtain ⟨first, others⟩ := List.forall_mem_cons.mp valid
    have parts : (∃ part ∈ span :: next :: spans, part.Has instant) ↔
        span.Has instant ∨ ∃ part ∈ next :: spans, part.Has instant :=
          List.exists_mem_cons_iff _ _ _
    have between : (∃ stretch ∈ (span.2, next.1) :: stretches (next :: spans),
        Bridges near stretch instant) ↔ Bridges near (span.2, next.1) instant ∨
          ∃ stretch ∈ stretches (next :: spans), stretch.Bridges near instant :=
      List.exists_mem_cons_iff _ _ _
    rw [merge, stretches_cons, parts, between]
    split
    · next far =>
      have nowhere : ¬Bridges near (span.2, next.1) instant := by
        have late := follows.far far
        rintro ⟨_, _, short⟩
        simp only at short
        omega
      rw [List.exists_mem_cons_iff, inductionHypothesis rest others, or_assoc, or_iff_right nowhere]
    · next close =>
      obtain ⟨second, behind⟩ := List.forall_mem_cons.mp others
      have whole : ∀ part ∈ (span.1, next.2) :: spans, part.1 ≤ part.2 :=
        List.forall_mem_cons.mpr ⟨follows.start.trans second, behind⟩
      have merged : (∃ part ∈ (span.1, next.2) :: spans, Has part instant) ↔
          Has (span.1, next.2) instant ∨ ∃ part ∈ spans, part.Has instant :=
            List.exists_mem_cons_iff _ _ _
      have later : (∃ part ∈ next :: spans, part.Has instant) ↔
          next.Has instant ∨ ∃ part ∈ spans, part.Has instant := List.exists_mem_cons_iff _ _ _
      rw [inductionHypothesis (chain_merged chain) whole, stretches_merged, merged, later,
        follows.merged_has first second close, or_right_comm (b := Bridges near _ _), or_assoc,
        or_assoc (a := span.Has instant)]

end Span

end ExmOnvif.Library
