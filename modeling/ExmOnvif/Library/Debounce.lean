/-
This file is about debouncing: an output bit follows an input bit only after the input has
held its new value for a while, with one delay for each of the two values.

The machine counts, the specification looks back: an output turns to a value exactly when
the last inputs, one more than the delay of the value, all had it. What ties them together
is that a count still running names the length of the present run of equal inputs.
-/

import Mathlib.Data.Nat.Basic
import Mathlib.Logic.Function.Basic

namespace ExmOnvif.Library

/-! ### Looking back -/

/-- The last inputs, in a number, all had a value. The history lists the newest input first,
and what came before it counts as low. -/
def Steady (bit : Bool) (count : Nat) (history : List Bool) : Prop :=
  ∀ back < count, history.getD back false = bit

instance (bit : Bool) (count : Nat) (history : List Bool) : Decidable (Steady bit count history) :=
  inferInstanceAs (Decidable (∀ back < count, history.getD back false = bit))

variable {bit newest : Bool} {count more : Nat} {history : List Bool}

theorem steady_cons :
    Steady bit (count + 1) (newest :: history) ↔ newest = bit ∧ Steady bit count history := by
  constructor
  · intro steady
    exact ⟨steady 0 (Nat.succ_pos _), fun back less => steady (back + 1) (Nat.succ_lt_succ less)⟩
  · rintro ⟨head, tail⟩ back less
    cases back with
    | zero => exact head
    | succ back => exact tail back (Nat.lt_of_succ_lt_succ less)

theorem Steady.mono (steady : Steady bit more history) (less : count ≤ more) :
    Steady bit count history :=
  fun back within => steady back (Nat.lt_of_lt_of_le within less)

theorem steady_one : Steady bit 1 history ↔ history.getD 0 false = bit := by
  constructor
  · intro steady
    exact steady 0 Nat.zero_lt_one
  · intro head back less
    rwa [Nat.lt_one_iff.mp less]

/-- A run of equal inputs does not go back beyond a change. -/
theorem not_steady_of_change (change : history.getD 0 false ≠ newest) :
    ¬Steady bit (count + 2) (newest :: history) := by
  intro steady
  obtain ⟨rfl, rest⟩ := steady_cons.mp steady
  exact change (rest 0 (Nat.succ_pos _))

/-! ### The counting machine -/

/-- The last input, how often each value was seen again since the last change, and the output. -/
@[ext] structure Debouncer where
  last : Bool
  repeats : Bool → Int
  output : Bool

/-- Takes in an input, with the delay of each value. -/
def Debouncer.step (delay : Bool → Int) (input : Bool) (machine : Debouncer) : Debouncer :=
  if input = machine.last then
    if machine.repeats input < delay input then
      { machine with
        repeats := Function.update machine.repeats input (machine.repeats input + 1)
        output := if machine.repeats input + 1 = delay input then input else machine.output }
    else machine
  else
    { last := input
      repeats := fun _ => 0
      output := if delay input = 0 then input else machine.output }

/-- What is true of a machine behind a history: the output has followed the last input, or the
count is still running and is the length of the present run, less one. -/
structure Debouncer.Follows (delay : Bool → Nat) (machine : Debouncer) (history : List Bool) :
    Prop where
  last : machine.last = history.getD 0 false
  counts : machine.output = machine.last ∨
    ∃ count : Nat, machine.repeats machine.last = count ∧ count < delay machine.last ∧
      Steady machine.last (count + 1) history ∧ ¬Steady machine.last (count + 2) history

namespace Debouncer

variable {delay : Bool → Nat} {machine : Debouncer}

theorem follows_nil {repeats : Bool → Int} : Follows delay ⟨false, repeats, false⟩ [] :=
  ⟨rfl, Or.inl rfl⟩

theorem step_last (delays : Bool → Int) (input : Bool) :
    (machine.step delays input).last = input := by
  unfold step
  split
  · next same =>
    split <;> exact same.symm
  · rfl

/-- A change of the input: the counts start over. -/
theorem Follows.step_change (follows : Follows delay machine history)
    (change : newest ≠ machine.last) :
    Follows delay (machine.step (fun bit => delay bit) newest) (newest :: history) := by
  have present : history.getD 0 false ≠ newest := follows.last ▸ change.symm
  refine ⟨step_last _ newest, ?_⟩
  rw [step, if_neg change]
  by_cases none : delay newest = 0
  · left
    exact if_pos (by rw [none]; rfl)
  · right
    refine ⟨0, rfl, Nat.pos_of_ne_zero none, ?_, not_steady_of_change present⟩
    exact steady_one.mpr rfl

/-- The input holds: a count that runs goes on with the run. -/
theorem Follows.step_hold (follows : Follows delay machine history) :
    Follows delay (machine.step (fun bit => delay bit) machine.last)
      (machine.last :: history) := by
  refine ⟨step_last _ machine.last, ?_⟩
  rw [step, if_pos rfl]
  rcases follows.counts with followed | ⟨count, counted, running, steady, ends⟩
  · left
    rw [apply_ite Debouncer.output, apply_ite Debouncer.last]
    simp only [followed, ite_self]
  · rw [counted, if_pos (by exact_mod_cast running)]
    by_cases reached : count + 1 = delay machine.last
    · left
      exact if_pos (by exact_mod_cast reached)
    · right
      have below : count + 1 < delay machine.last := by omega
      refine ⟨count + 1, ?_, below, steady_cons.mpr ⟨rfl, steady⟩, ?_⟩
      · exact Function.update_self _ _ _
      · exact fun longer => ends (steady_cons.mp longer).2

/-- Every step keeps the machine behind the history. -/
theorem Follows.step (follows : Follows delay machine history) (newest : Bool) :
    Follows delay (machine.step (fun bit => delay bit) newest) (newest :: history) := by
  by_cases same : newest = machine.last
  · rw [same]
    exact follows.step_hold
  · exact follows.step_change same

/-- The output of a step, from the history alone and the output before. -/
theorem Follows.step_output (follows : Follows delay machine history) (newest : Bool) :
    (machine.step (fun bit => delay bit) newest).output =
      if Steady newest (delay newest + 1) (newest :: history) then newest
      else machine.output := by
  by_cases same : newest = machine.last
  · subst same
    rw [Debouncer.step, if_pos rfl]
    rcases follows.counts with followed | ⟨count, counted, running, steady, ends⟩
    · rw [apply_ite Debouncer.output]
      simp only [followed, ite_self]
    · rw [counted, if_pos (by exact_mod_cast running)]
      -- The run has just the length that the count says, so the two ends are one.
      have turns : (count : Int) + 1 = delay machine.last ↔
          Steady machine.last (delay machine.last + 1) (machine.last :: history) := by
        rw [steady_cons]
        constructor
        · intro reached
          have reached : count + 1 = delay machine.last := by exact_mod_cast reached
          exact ⟨rfl, reached ▸ steady⟩
        · rintro ⟨-, longer⟩
          by_contra short
          exact ends (longer.mono (by omega))
      exact if_congr turns rfl rfl
  · have present : history.getD 0 false ≠ newest := follows.last ▸ Ne.symm same
    rw [Debouncer.step, if_neg same]
    refine if_congr ?_ rfl rfl
    rw [Int.natCast_eq_zero]
    constructor
    · intro none
      rw [none]
      exact steady_one.mpr rfl
    · intro longer
      by_contra some
      obtain ⟨wait, waits⟩ := Nat.exists_eq_succ_of_ne_zero some
      rw [waits] at longer
      exact not_steady_of_change present longer

/-- The same by value: high behind a steady high, low behind a steady low, else as it was. -/
theorem Follows.step_window (follows : Follows delay machine history) (newest : Bool) :
    (machine.step (fun bit => delay bit) newest).output =
      if Steady true (delay true + 1) (newest :: history) then true
      else if Steady false (delay false + 1) (newest :: history) then false
      else machine.output := by
  rw [follows.step_output newest]
  cases newest with
  | true =>
    refine if_congr Iff.rfl rfl ?_
    symm
    refine if_neg fun low => ?_
    exact Bool.noConfusion (steady_cons.mp low).1
  | false =>
    symm
    refine if_neg fun high => ?_
    exact Bool.noConfusion (steady_cons.mp high).1

end Debouncer

end ExmOnvif.Library
