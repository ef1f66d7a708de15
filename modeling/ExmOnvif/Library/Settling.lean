/-
This file is about loops that repeat a step and watch a gauge: they go on until the
gauge reaches a mark, or until a step does not move it.

The second test stands for "there is nothing left to do". Whether it does is a question
about the steps: the loop ends with the work done or the mark reached exactly if no step
that leaves work undone below the mark leaves the gauge where it is.
-/

import Mathlib.Logic.Function.Iterate

namespace ExmOnvif.Library

variable {State : Type} (step : State → State) (gauge : State → Nat) (mark : Nat)

/-- Repeats the step, in a number of turns, with the last reading of the gauge. -/
def settle : Nat → Nat → State → Option State
  | 0, _, _ => none
  | turns + 1, last, state =>
    if last = gauge (step state) ∨ mark ≤ gauge (step state) then some (step state)
    else settle turns (gauge (step state)) (step state)

variable {step gauge mark} {turns : Nat} {state after : State}

/-- The loop ends where every step that moves the gauge makes something smaller. -/
theorem settle_ends (measure : State → Nat)
    (smaller : ∀ state, gauge state ≠ gauge (step state) → measure (step state) < measure state)
    (enough : measure state < turns) :
    ∃ after, settle step gauge mark turns (gauge state) state = some after := by
  induction turns generalizing state with
  | zero => exact absurd enough (Nat.not_lt_zero _)
  | succ turns inductionHypothesis =>
    rw [settle]
    split
    · exact ⟨_, rfl⟩
    · next goes =>
      have less := smaller state fun same => goes (Or.inl same)
      exact inductionHypothesis (by omega)

/-- Where the loop ends: behind the first step that leaves the gauge alone or takes it to the
mark. -/
theorem settle_cases (ended : settle step gauge mark turns (gauge state) state = some after) :
    ∃ count, after = step^[count + 1] state ∧
      (gauge (step^[count] state) = gauge after ∨ mark ≤ gauge after) ∧
      ∀ earlier < count, gauge (step^[earlier] state) ≠ gauge (step^[earlier + 1] state) ∧
        gauge (step^[earlier + 1] state) < mark := by
  induction turns generalizing state with
  | zero => cases ended
  | succ turns inductionHypothesis =>
    rw [settle] at ended
    split at ended
    · next stops =>
      cases ended
      exact ⟨0, rfl, stops, fun earlier less => absurd less (Nat.not_lt_zero _)⟩
    · next goes =>
      rw [not_or, Nat.not_le] at goes
      obtain ⟨count, there, stops, before⟩ := inductionHypothesis ended
      refine ⟨count + 1, there, stops, fun earlier less => ?_⟩
      cases earlier with
      | zero => exact goes
      | succ earlier => exact before earlier (by omega)

/-- When the loop ends with the mark reached or nothing left. -/
theorem settled_iff {left : State → Prop} (rises : ∀ state, gauge state ≤ gauge (step state))
    (fewer : ∀ state, left (step state) → left state)
    (ended : settle step gauge mark turns (gauge state) state = some after) :
    (mark ≤ gauge after ∨ ¬left after) ↔
      ∀ count, left (step^[count + 1] state) → gauge (step^[count + 1] state) < mark →
        gauge (step^[count] state) ≠ gauge (step^[count + 1] state) := by
  obtain ⟨stop, rfl, stops, before⟩ := settle_cases ended
  constructor
  · intro outcome count leaves below still
    -- The loop does not get beyond a step that leaves the gauge alone.
    have short : stop ≤ count := by
      by_contra later
      exact (before count (Nat.not_le.mp later)).1 still
    obtain ⟨more, rfl⟩ := Nat.exists_eq_add_of_le short
    have split : step^[stop + more + 1] state = step^[more] (step^[stop + 1] state) := by
      rw [← Function.iterate_add_apply]
      congr 1
      omega
    rw [split] at leaves below
    rcases outcome with reached | nothing
    · have rising := Function.Iterate.rec (fun later => mark ≤ gauge later) reached
        (fun later high => Nat.le_trans high (rises later)) more
      exact absurd below (Nat.not_lt.mpr rising)
    · exact Function.Iterate.rec (fun later => ¬left later) nothing
        (fun later none leaves => none (fewer later leaves)) more leaves
  · intro moves
    by_cases reached : mark ≤ gauge (step^[stop + 1] state)
    · exact Or.inl reached
    · refine Or.inr fun leaves => ?_
      exact moves stop leaves (Nat.not_le.mp reached) (stops.resolve_right reached)

end ExmOnvif.Library
