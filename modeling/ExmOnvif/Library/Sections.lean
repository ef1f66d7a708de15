/-
This file is about the sections of a range of places, some of which are filled.

A gap is a stretch of some number of empty places. A section runs from a filled place to just
behind a filled place and has no gap in it; two sections are at least a gap apart, and every
filled place is in one. A range has one list of sections only.
-/

import Mathlib.Data.Nat.Init
import Mathlib.Logic.Basic

namespace ExmOnvif.Library

variable {filled : Nat → Prop} {gap : Nat}

/-! ### Stretches without a gap -/

/-- No `gap` places in a row are empty. -/
def Unbroken (filled : Nat → Prop) (gap low high : Nat) : Prop :=
  ∀ place, low ≤ place → place + gap ≤ high → ∃ inside, place ≤ inside ∧ inside < place + gap ∧
    filled inside

/-- A stretch of filled places is unbroken. -/
theorem Unbroken.of_filled {low high : Nat} (some : 0 < gap)
    (every : ∀ place, low ≤ place → place < high → filled place) :
    Unbroken filled gap low high := by
  intro place behind inside
  exact ⟨place, Nat.le_refl _, by omega, every place behind (by omega)⟩

/-- A filled stretch, fewer empty places than a gap has, and an unbroken stretch that starts with
a filled place make an unbroken stretch. -/
theorem Unbroken.join {low middle next high : Nat} (some : 0 < gap)
    (every : ∀ place, low ≤ place → place < middle → filled place)
    (short : next < middle + gap) (start : filled next)
    (rest : Unbroken filled gap next high) : Unbroken filled gap low high := by
  intro place behind inside
  by_cases first : place < middle
  · exact ⟨place, Nat.le_refl _, by omega, every place behind first⟩
  · by_cases between : place < next
    · exact ⟨next, Nat.le_of_lt between, by omega, start⟩
    · exact rest place (by omega) inside

/-! ### Sections -/

/-- One section of the places from `low` to before `high`. -/
structure Section (filled : Nat → Prop) (gap low high : Nat) (part : Nat × Nat) : Prop where
  behind : low ≤ part.1
  ordered : part.1 < part.2
  inside : part.2 ≤ high
  first : filled part.1
  last : filled (part.2 - 1)
  unbroken : Unbroken filled gap part.1 part.2

/-- The list of all the sections. -/
structure Sections (filled : Nat → Prop) (gap low high : Nat) (parts : List (Nat × Nat)) :
    Prop where
  each : ∀ part ∈ parts, Section filled gap low high part
  apart : parts.Pairwise fun part later => part.2 + gap ≤ later.1
  covers : ∀ place, low ≤ place → place < high → filled place →
    ∃ part ∈ parts, part.1 ≤ place ∧ place < part.2

namespace Sections

variable {low middle high : Nat} {part other : Nat × Nat} {parts others : List (Nat × Nat)}

/-- A range without filled places has none. -/
theorem of_empty (empty : ∀ place, low ≤ place → place < high → ¬filled place) :
    Sections filled gap low high [] where
  each := fun _ member => absurd member List.not_mem_nil
  apart := List.Pairwise.nil
  covers := fun place behind inside here => absurd here (empty place behind inside)

/-- Empty places in front of a range do not count. -/
theorem extend (sections : Sections filled gap middle high parts) (front : low ≤ middle)
    (empty : ∀ place, low ≤ place → place < middle → ¬filled place) :
    Sections filled gap low high parts where
  each := fun part member =>
    { sections.each part member with
      behind := Nat.le_trans front (sections.each part member).behind }
  apart := sections.apart
  covers := by
    intro place behind inside here
    by_cases before : place < middle
    · exact absurd here (empty place behind before)
    · exact sections.covers place (by omega) inside here

/-- A section in front of the sections behind a gap. -/
theorem cons (head : Section filled gap low high part) (clear : part.2 + gap ≤ middle)
    (front : ∀ place, low ≤ place → place < part.1 → ¬filled place)
    (empty : ∀ place, part.2 ≤ place → place < middle → ¬filled place)
    (rest : Sections filled gap middle high parts) :
    Sections filled gap low high (part :: parts) where
  each := by
    intro other member
    rcases List.mem_cons.mp member with rfl | later
    · exact head
    · have otherHead := rest.each other later
      have start := head.behind
      have ordered := head.ordered
      have behind := otherHead.behind
      exact { otherHead with behind := by omega }
  apart := List.pairwise_cons.mpr
    ⟨fun other member => Nat.le_trans clear (rest.each other member).behind, rest.apart⟩
  covers := by
    intro place behind inside here
    by_cases before : place < part.1
    · exact absurd here (front place behind before)
    · by_cases within : place < part.2
      · exact ⟨part, List.mem_cons_self, by omega, within⟩
      · by_cases between : place < middle
        · exact absurd here (empty place (by omega) between)
        · obtain ⟨other, member, covered⟩ := rest.covers place (by omega) inside here
          exact ⟨other, List.mem_cons_of_mem _ member, covered⟩

/-- The last section, with fewer empty places behind it than a gap may have. -/
theorem single (head : Section filled gap low high part)
    (front : ∀ place, low ≤ place → place < part.1 → ¬filled place)
    (empty : ∀ place, part.2 ≤ place → place < high → ¬filled place) :
    Sections filled gap low high [part] where
  each := fun other member => by
    rw [List.mem_singleton.mp member]
    exact head
  apart := List.pairwise_singleton _ _
  covers := by
    intro place behind inside here
    by_cases before : place < part.1
    · exact absurd here (front place behind before)
    · by_cases within : place < part.2
      · exact ⟨part, List.mem_cons_self, by omega, within⟩
      · exact absurd here (empty place (by omega) inside)

/-! ### There is one list only -/

/-- No filled place lies in front of the first section. -/
theorem first_le (sections : Sections filled gap low high (part :: parts)) {place : Nat}
    (behind : low ≤ place) (inside : place < high) (here : filled place) : part.1 ≤ place := by
  obtain ⟨other, member, reached, -⟩ := sections.covers place behind inside here
  rcases List.mem_cons.mp member with rfl | later
  · exact reached
  · have clear := (List.pairwise_cons.mp sections.apart).1 other later
    have ordered := (sections.each part List.mem_cons_self).ordered
    omega

/-- A filled place behind the first section is behind the gap too. -/
theorem gap_le (sections : Sections filled gap low high (part :: parts)) {place : Nat}
    (behind : part.2 ≤ place) (inside : place < high) (here : filled place) :
    part.2 + gap ≤ place := by
  have head := sections.each part List.mem_cons_self
  have start := head.behind
  have ordered := head.ordered
  obtain ⟨other, member, reached, before⟩ := sections.covers place (by omega) inside here
  rcases List.mem_cons.mp member with rfl | later
  · omega
  · exact Nat.le_trans ((List.pairwise_cons.mp sections.apart).1 other later) reached

/-- The sections behind the first one. -/
theorem tail (sections : Sections filled gap low high (part :: parts)) :
    Sections filled gap part.2 high parts where
  each := by
    intro other member
    have clear := (List.pairwise_cons.mp sections.apart).1 other member
    exact { sections.each other (List.mem_cons_of_mem _ member) with behind := by omega }
  apart := (List.pairwise_cons.mp sections.apart).2
  covers := by
    intro place behind inside here
    have head := sections.each part List.mem_cons_self
    have start := head.behind
    have ordered := head.ordered
    obtain ⟨other, member, reached, before⟩ := sections.covers place (by omega) inside here
    rcases List.mem_cons.mp member with rfl | later
    · omega
    · exact ⟨other, later, reached, before⟩

/-- The first section does not end before the first one of another list. -/
theorem end_le (sections : Sections filled gap low high (part :: parts))
    (same : Sections filled gap low high (other :: others)) (start : part.1 = other.1) :
    other.2 ≤ part.2 := by
  have head := sections.each part List.mem_cons_self
  have otherHead := same.each other List.mem_cons_self
  refine Nat.le_of_not_lt fun longer => ?_
  have inside := otherHead.inside
  have ordered := head.ordered
  have far := sections.gap_le (by omega) (by omega) otherHead.last
  -- The gap behind the shorter section lies in the longer one.
  obtain ⟨place, behind, before, here⟩ := otherHead.unbroken part.2 (by omega) (by omega)
  have beyond := sections.gap_le behind (by omega) here
  omega

theorem unique (sections : Sections filled gap low high parts)
    (same : Sections filled gap low high others) : others = parts := by
  induction parts generalizing low others with
  | nil =>
    cases others with
    | nil => rfl
    | cons other others =>
      have otherHead := same.each other List.mem_cons_self
      have ordered := otherHead.ordered
      have inside := otherHead.inside
      obtain ⟨part, member, -⟩ :=
        sections.covers other.1 otherHead.behind (by omega) otherHead.first
      cases member
  | cons part parts inductionHypothesis =>
    have head := sections.each part List.mem_cons_self
    have ordered := head.ordered
    have inside := head.inside
    cases others with
    | nil =>
      obtain ⟨other, member, -⟩ := same.covers part.1 head.behind (by omega) head.first
      cases member
    | cons other others =>
      have otherHead := same.each other List.mem_cons_self
      have otherOrdered := otherHead.ordered
      have otherInside := otherHead.inside
      have start : part.1 = other.1 := by
        have before := sections.first_le otherHead.behind (by omega) otherHead.first
        have after := same.first_le head.behind (by omega) head.first
        omega
      have finish : part.2 = other.2 := by
        have long := sections.end_le same start
        have short := same.end_le sections start.symm
        omega
      have equal : other = part := Prod.ext start.symm finish.symm
      subst equal
      rw [inductionHypothesis sections.tail same.tail]

end Sections

end ExmOnvif.Library
