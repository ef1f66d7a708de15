/-
This file is the small amount of theory about runs of a labelled step relation
that the safety results share: a run is a list of labels that leads from one
state to another, an invariant of the steps is an invariant of the runs, and a
run of steps that all meet a condition is a run of the unconditioned relation.
-/

import Mathlib.Data.List.Induction

namespace ExmOnvif.Library

variable {State Label : Type}

/-- `Runs step start labels state`: the labels, in order, lead from `start` to `state`. -/
inductive Runs (step : State → Label → State → Prop) (start : State) : List Label → State → Prop
  | nil : Runs step start [] start
  | snoc {labels : List Label} {state next : State} {label : Label} :
      Runs step start labels state → step state label next →
        Runs step start (labels ++ [label]) next

namespace Runs

variable {step : State → Label → State → Prop} {start state : State} {labels : List Label}

/-- What holds at the start and is kept by every step holds after every run. -/
theorem invariant {property : State → Prop} (initial : property start)
    (preserved : ∀ before label after, step before label after → property before → property after)
    (run : Runs step start labels state) : property state := by
  induction run with
  | nil => exact initial
  | snoc _ taken inductionHypothesis => exact preserved _ _ _ taken inductionHypothesis

/-- A run of one relation is a run of any relation its steps belong to. -/
theorem weaken {other : State → Label → State → Prop}
    (included : ∀ before label after, step before label after → other before label after)
    (run : Runs step start labels state) : Runs other start labels state := by
  induction run with
  | nil => exact .nil
  | snoc _ taken inductionHypothesis => exact inductionHypothesis.snoc (included _ _ _ taken)

/-- A run behind a first step. -/
theorem cons {next : State} {label : Label} (taken : step start label next)
    (run : Runs step next labels state) : Runs step start (label :: labels) state := by
  induction run with
  | nil =>
    have single : Runs step start ([] ++ [label]) next := .snoc .nil taken
    exact single
  | snoc _ last inductionHypothesis => exact inductionHypothesis.snoc last

/-- Steps that lead to one state only lead to one state in every run. -/
theorem unique {other : State} (run : Runs step start labels state)
    (functional : ∀ before label after next, step before label after → step before label next →
      after = next)
    (again : Runs step start labels other) : state = other := by
  induction run generalizing other with
  | nil =>
    generalize none : ([] : List Label) = labels at again
    cases again with
    | nil => rfl
    | snoc => exact absurd none.symm (List.append_ne_nil_of_right_ne_nil _ (List.cons_ne_nil _ _))
  | @snoc labels before after label _ taken inductionHypothesis =>
    generalize same : labels ++ [label] = longer at again
    cases again with
    | nil => exact absurd same (List.append_ne_nil_of_right_ne_nil _ (List.cons_ne_nil _ _))
    | snoc earlier last =>
      obtain ⟨rfl, equal⟩ := List.append_inj' same rfl
      cases equal
      cases inductionHypothesis earlier
      exact functional _ _ _ _ taken last

/-- Folding a total step function over labels is a run of it. -/
theorem of_foldl (next : State → Label → State) (labels : List Label) :
    Runs (fun before label after => next before label = after) start labels
      (labels.foldl next start) := by
  induction labels using List.reverseRecOn with
  | nil => exact .nil
  | append_singleton labels label inductionHypothesis =>
    rw [List.foldl_append]
    exact inductionHypothesis.snoc rfl

/-- Folding a step function over labels is a run of it. -/
theorem of_foldlM {next : State → Label → Option State} {labels : List Label}
    (folded : labels.foldlM next start = some state) :
    Runs (fun before label after => next before label = some after) start labels state := by
  induction labels using List.reverseRecOn generalizing state with
  | nil =>
    cases folded
    exact .nil
  | append_singleton labels label inductionHypothesis =>
    rw [List.foldlM_append] at folded
    obtain ⟨before, earlier, last⟩ := Option.bind_eq_some_iff.mp folded
    rw [List.foldlM_cons] at last
    obtain ⟨after, taken, same⟩ := Option.bind_eq_some_iff.mp last
    cases same
    exact (inductionHypothesis earlier).snoc taken

/-- Folding a step function under a guard is a run of guarded steps. -/
theorem of_foldlM_guarded {next : State → Label → Option State} {guard : State → Label → Prop}
    [∀ before label, Decidable (guard before label)] {labels : List Label}
    (folded : labels.foldlM (fun before label =>
      if guard before label then next before label else none) start = some state) :
    Runs (fun before label after => next before label = some after ∧ guard before label) start
      labels state := by
  refine (of_foldlM folded).weaken fun before label after taken => ?_
  by_cases guarded : guard before label
  · rw [if_pos guarded] at taken
    exact ⟨taken, guarded⟩
  · rw [if_neg guarded] at taken
    cases taken

/-- A run found by evaluation, with what was tested of the state it ends in. -/
theorem of_any {next : State → Label → Option State} {labels : List Label} {test : State → Bool}
    (evaluated : (labels.foldlM next start).any test = true) :
    ∃ state, Runs (fun before label after => next before label = some after) start labels state ∧
      test state = true := by
  obtain ⟨state, folded, passed⟩ := (Option.any_eq_true _ _).mp evaluated
  exact ⟨state, of_foldlM folded, passed⟩

/-- A guarded run found by evaluation. -/
theorem of_any_guarded {next : State → Label → Option State} {guard : State → Label → Prop}
    [∀ before label, Decidable (guard before label)] {labels : List Label} {test : State → Bool}
    (evaluated : (labels.foldlM (fun before label =>
      if guard before label then next before label else none) start).any test = true) :
    ∃ state, Runs (fun before label after => next before label = some after ∧ guard before label)
      start labels state ∧ test state = true := by
  obtain ⟨state, folded, passed⟩ := (Option.any_eq_true _ _).mp evaluated
  exact ⟨state, of_foldlM_guarded folded, passed⟩

end Runs

end ExmOnvif.Library
