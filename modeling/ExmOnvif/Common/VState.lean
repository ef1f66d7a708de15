/-
This file models the smoothing of the video states in the common library: one call each
second takes in a word with one bit for each video input, and a bit of the result turns on
or off only when the input has held for the delay of the value.

Each channel of the loop is one debouncing machine. The counters of the channels stand in
arrays of `MAX_VIDEO_IN` entries, and the loop goes up to what the device says it has, so a
device with more inputs would be served from behind the arrays.
-/

import ExmOnvif.Library.Debounce
import Mathlib.Data.BitVec

namespace ExmOnvif.Common

open ExmOnvif.Library

/-! ### The state and one call -/

/-- `MAX_VIDEO_IN`, the entries of the arrays of counters. -/
def maxVideoIn : Nat := 10

/-- `vstate_t`. -/
structure VState where
  oldValue : BitVec 32
  oldResult : BitVec 32
  validStableTime : Fin maxVideoIn → Int
  invalidStableTime : Fin maxVideoIn → Int

/-- A zeroed `vstate_t`. -/
def VState.zeroed : VState := ⟨0, 0, fun _ => 0, fun _ => 0⟩

/-- `result |= 1<<i`. -/
def raised (result : BitVec 32) (i : Fin maxVideoIn) : BitVec 32 :=
  result ||| (1#32 <<< i.val)

/-- `result &= ~(1<<i)`. -/
def dropped (result : BitVec 32) (i : Fin maxVideoIn) : BitVec 32 :=
  result &&& ~~~(1#32 <<< i.val)

variable (newstate : BitVec 32) (validDelay invalidDelay : Int)

/-- The body of the loop for one channel, with the result so far. -/
def VState.turn (i : Fin maxVideoIn) (stateparam : VState) (result : BitVec 32) :
    VState × BitVec 32 :=
  let newbit := newstate.getLsbD i
  let oldbit := stateparam.oldValue.getLsbD i
  if newbit = oldbit then
    if newbit then
      if stateparam.validStableTime i < validDelay then
        let time := stateparam.validStableTime i + 1
        ({ stateparam with validStableTime := Function.update stateparam.validStableTime i time },
          if time = validDelay then raised result i else result)
      else (stateparam, result)
    else
      if stateparam.invalidStableTime i < invalidDelay then
        let time := stateparam.invalidStableTime i + 1
        ({ stateparam with
            invalidStableTime := Function.update stateparam.invalidStableTime i time },
          if time = invalidDelay then dropped result i else result)
      else (stateparam, result)
  else
    ({ stateparam with
        validStableTime := Function.update stateparam.validStableTime i 0
        invalidStableTime := Function.update stateparam.invalidStableTime i 0 },
      if newbit then
        if validDelay = 0 then raised result i else result
      else
        if invalidDelay = 0 then dropped result i else result)

/-- The loop over the first channels, in a number; undefined when it leaves the arrays. -/
def VState.turns (stateparam : VState) : Nat → Option (VState × BitVec 32)
  | 0 => some (stateparam, stateparam.oldResult)
  | i + 1 => do
    let (state, result) ← VState.turns stateparam i
    if inside : i < maxVideoIn then
      some (state.turn newstate validDelay invalidDelay ⟨i, inside⟩ result)
    else none

/-- `delay_on_vstate` on a device with a number of video inputs: the state behind the call and
the word it returns. -/
def delayOnVstate (videoNum : Nat) (stateparam : VState) : Option (VState × BitVec 32) := do
  let (state, result) ← stateparam.turns newstate validDelay invalidDelay videoNum
  some ({ state with oldValue := newstate, oldResult := result }, result)

/-- Call after call from a zeroed state, the words newest first: the state and the word that the
last call returned, zero before the first one. -/
def vstateRun (videoNum : Nat) : List (BitVec 32) → Option (VState × BitVec 32)
  | [] => some (VState.zeroed, 0)
  | newest :: earlier => do
    let (state, _) ← vstateRun videoNum earlier
    delayOnVstate newest validDelay invalidDelay videoNum state

/-! ### One channel is one machine -/

/-- What a state and a result hold of one channel. -/
def VState.channel (stateparam : VState) (result : BitVec 32) (i : Fin maxVideoIn) : Debouncer where
  last := stateparam.oldValue.getLsbD i
  repeats bit := if bit then stateparam.validStableTime i else stateparam.invalidStableTime i
  output := result.getLsbD i

/-- The delay of each value. -/
def delays (validDelay invalidDelay : Int) (bit : Bool) : Int :=
  if bit then validDelay else invalidDelay

variable {newstate validDelay invalidDelay} {stateparam : VState} {result : BitVec 32}
  {i : Fin maxVideoIn}

theorem getLsbD_one_shiftLeft (i j : Nat) :
    (1#32 <<< i).getLsbD j = (decide (j < 32) && decide (j = i)) := by
  rw [BitVec.getLsbD_shiftLeft, BitVec.getLsbD_one]
  by_cases same : j = i
  · simp [same]
  · have order : j - i = 0 → j < i := by omega
    by_cases zero : j - i = 0 <;> simp [same, zero, order]

theorem getLsbD_raised (bit : Nat) :
    (raised result i).getLsbD bit = if bit = i then true else result.getLsbD bit := by
  have small : i.val < 32 := Nat.lt_trans i.isLt (by decide)
  rw [raised, BitVec.getLsbD_or, getLsbD_one_shiftLeft]
  by_cases same : bit = i <;> simp [same, small]

theorem getLsbD_dropped (bit : Nat) :
    (dropped result i).getLsbD bit = if bit = i then false else result.getLsbD bit := by
  have small : i.val < 32 := Nat.lt_trans i.isLt (by decide)
  rw [dropped, BitVec.getLsbD_and, BitVec.getLsbD_not, getLsbD_one_shiftLeft]
  by_cases same : bit = i
  · simp [same, small]
  · by_cases inside : bit < 32
    · simp [same, inside]
    · simp [same, inside, BitVec.getLsbD_of_ge result bit (Nat.not_lt.mp inside)]

@[simp] theorem turn_oldValue :
    (stateparam.turn newstate validDelay invalidDelay i result).1.oldValue =
      stateparam.oldValue := by
  unfold VState.turn
  dsimp only
  split_ifs <;> rfl

/-- A turn leaves the other bits of the result. -/
theorem turn_other_bits {bit : Nat} (other : bit ≠ i) :
    (stateparam.turn newstate validDelay invalidDelay i result).2.getLsbD bit =
      result.getLsbD bit := by
  unfold VState.turn
  dsimp only
  split_ifs <;> simp only [getLsbD_raised, getLsbD_dropped, if_neg other]

/-- A turn leaves the other channels. -/
theorem turn_other_channel {j : Fin maxVideoIn} (other : j ≠ i) :
    (stateparam.turn newstate validDelay invalidDelay i result).1.channel
        (stateparam.turn newstate validDelay invalidDelay i result).2 j =
      stateparam.channel result j := by
  unfold VState.channel
  rw [turn_oldValue, turn_other_bits fun same => other (Fin.ext same)]
  congr 1
  funext bit
  unfold VState.turn
  dsimp only
  split_ifs <;> simp only [Function.update_of_ne other]

/-- The state with the new word put away, as at the end of the call. -/
def VState.taken (newstate : BitVec 32) (stateparam : VState) : VState :=
  { stateparam with oldValue := newstate }

/-- What a turn makes of the bit of its channel. -/
theorem turn_own_bit :
    (stateparam.turn newstate validDelay invalidDelay i result).2.getLsbD i =
      ((stateparam.channel result i).step (delays validDelay invalidDelay)
        (newstate.getLsbD i)).output := by
  unfold VState.turn Debouncer.step VState.channel delays
  dsimp only
  -- the two bits decide between a count that goes on and one that starts anew
  cases newstate.getLsbD i <;> cases stateparam.oldValue.getLsbD i
  all_goals
    simp only [if_true, if_false, Bool.false_eq_true, Bool.true_eq_false]
    split_ifs <;> simp only [getLsbD_raised, getLsbD_dropped, if_true]

/-- What a turn makes of the counters of its channel. -/
theorem turn_own_times (bit : Bool) :
    (((stateparam.turn newstate validDelay invalidDelay i result).1.taken newstate).channel
        (stateparam.turn newstate validDelay invalidDelay i result).2 i).repeats bit =
      ((stateparam.channel result i).step (delays validDelay invalidDelay)
        (newstate.getLsbD i)).repeats bit := by
  unfold VState.turn Debouncer.step VState.taken VState.channel delays
  dsimp only
  cases newstate.getLsbD i <;> cases stateparam.oldValue.getLsbD i
  all_goals
    cases bit <;> simp only [if_true, if_false, Bool.false_eq_true, Bool.true_eq_false]
  -- only a count that goes on is held against its delay
  all_goals first
    | exact Function.update_self _ _ _
    | split_ifs <;> simp

/-- A turn is a step of the machine of its channel. -/
theorem turn_channel :
    ((stateparam.turn newstate validDelay invalidDelay i result).1.taken newstate).channel
        (stateparam.turn newstate validDelay invalidDelay i result).2 i =
      (stateparam.channel result i).step (delays validDelay invalidDelay)
        (newstate.getLsbD i) := by
  refine Debouncer.ext ?_ (funext turn_own_times) turn_own_bit
  rw [Debouncer.step_last]
  rfl

theorem taken_channel :
    (stateparam.taken newstate).channel result i =
      { stateparam.channel result i with last := newstate.getLsbD i } :=
  rfl

/-! ### The loop and the run -/

/-- What the loop over the first channels, in a number, leaves: the machines of these channels
have made a step, the others and the bits that belong to none of them are as they were. -/
structure Turned (newstate : BitVec 32) (validDelay invalidDelay : Int) (before : VState)
    (num : Nat) (after : VState) (result : BitVec 32) : Prop where
  stepped : ∀ i : Fin maxVideoIn, i < num →
    (after.taken newstate).channel result i =
      (before.channel before.oldResult i).step (delays validDelay invalidDelay)
        (newstate.getLsbD i)
  ahead : ∀ i : Fin maxVideoIn, num ≤ i →
    after.channel result i = before.channel before.oldResult i
  others : ∀ bit, num ≤ bit → result.getLsbD bit = before.oldResult.getLsbD bit

variable {before after : VState} {num : Nat}

/-- The turn of the next channel. -/
theorem Turned.turn
    (turned : Turned newstate validDelay invalidDelay before num after result)
    (inside : num < maxVideoIn) :
    Turned newstate validDelay invalidDelay before (num + 1)
      (after.turn newstate validDelay invalidDelay ⟨num, inside⟩ result).1
      (after.turn newstate validDelay invalidDelay ⟨num, inside⟩ result).2 where
  stepped := by
    intro i below
    by_cases own : i = ⟨num, inside⟩
    · subst own
      rw [turn_channel, turned.ahead _ (Nat.le_refl num)]
    · have earlier : i.val < num := by
        have apart : i.val ≠ num := fun same => own (Fin.ext same)
        omega
      rw [taken_channel, turn_other_channel own, ← taken_channel]
      exact turned.stepped i earlier
  ahead := by
    intro i beyond
    have apart : i ≠ ⟨num, inside⟩ := by
      rintro rfl
      exact absurd beyond (Nat.not_le.mpr (Nat.lt_succ_self num))
    rw [turn_other_channel apart]
    exact turned.ahead i (Nat.le_of_succ_le beyond)
  others := by
    intro bit beyond
    have apart : bit ≠ num := Nat.ne_of_gt beyond
    rw [turn_other_bits apart]
    exact turned.others bit (Nat.le_of_succ_le beyond)

/-- The loop over channels that all have their counters. -/
theorem turns_spec (newstate : BitVec 32) (validDelay invalidDelay : Int) (before : VState)
    (few : num ≤ maxVideoIn) :
    ∃ after result, before.turns newstate validDelay invalidDelay num = some (after, result) ∧
      Turned newstate validDelay invalidDelay before num after result := by
  induction num with
  | zero =>
    refine ⟨before, before.oldResult, rfl, ?_, fun _ _ => rfl, fun _ _ => rfl⟩
    exact fun _ none => absurd none (Nat.not_lt_zero _)
  | succ num inductionHypothesis =>
    obtain ⟨after, result, done, turned⟩ := inductionHypothesis (Nat.le_of_succ_le few)
    refine ⟨_, _, ?_, turned.turn few⟩
    rw [VState.turns, done]
    exact dif_pos few

/-- One call, with every channel's step and the bits it leaves. -/
theorem delayOnVstate_spec (newstate : BitVec 32) (validDelay invalidDelay : Int)
    (before : VState) (few : num ≤ maxVideoIn) :
    ∃ after result,
      delayOnVstate newstate validDelay invalidDelay num before = some (after, result) ∧
      after.oldResult = result ∧
      (∀ i : Fin maxVideoIn, i < num → after.channel result i =
        (before.channel before.oldResult i).step (delays validDelay invalidDelay)
          (newstate.getLsbD i)) ∧
      ∀ bit, num ≤ bit → result.getLsbD bit = before.oldResult.getLsbD bit := by
  obtain ⟨after, result, done, turned⟩ := turns_spec newstate validDelay invalidDelay before few
  refine ⟨{ after with oldValue := newstate, oldResult := result }, result, ?_, rfl,
    turned.stepped, turned.others⟩
  rw [delayOnVstate, done]
  rfl

/-- What holds behind every run: the word put away is the one returned, and the machine of each
channel follows the bits of the channel. -/
structure Smoothed (validDelay invalidDelay num : Nat) (history : List (BitVec 32))
    (state : VState) (result : BitVec 32) : Prop where
  kept : state.oldResult = result
  follows : ∀ i : Fin maxVideoIn, i < num →
    (state.channel result i).Follows (fun bit => if bit then validDelay else invalidDelay)
      (history.map fun word => word.getLsbD i)

theorem delays_natCast (validDelay invalidDelay : Nat) :
    delays validDelay invalidDelay =
      fun bit => ((if bit then validDelay else invalidDelay : Nat) : Int) := by
  funext bit
  cases bit <;> rfl

theorem vstateRun_smoothed (validDelay invalidDelay : Nat) (few : num ≤ maxVideoIn)
    (history : List (BitVec 32)) :
    ∃ state result, vstateRun validDelay invalidDelay num history = some (state, result) ∧
      Smoothed validDelay invalidDelay num history state result := by
  induction history with
  | nil =>
    refine ⟨VState.zeroed, 0, rfl, rfl, fun i _ => ?_⟩
    have low : (0 : BitVec 32).getLsbD i = false := BitVec.getLsbD_zero
    rw [VState.channel, VState.zeroed, low]
    exact Debouncer.follows_nil
  | cons newest earlier inductionHypothesis =>
    obtain ⟨before, previous, ran, smoothed⟩ := inductionHypothesis
    obtain ⟨after, result, called, kept, stepped, -⟩ :=
      delayOnVstate_spec newest validDelay invalidDelay before few
    refine ⟨after, result, ?_, kept, fun i below => ?_⟩
    · rw [vstateRun, ran]
      exact called
    · rw [stepped i below, smoothed.kept, delays_natCast]
      exact (smoothed.follows i below).step _

/-- Every call returns the smoothed word: a bit below the number of inputs is on behind enough
inputs that had it on, off behind enough that had it off, and else as the last call returned it;
the other bits never change. -/
theorem vstateRun_window (validDelay invalidDelay num : Nat) (few : num ≤ maxVideoIn)
    (newest : BitVec 32) (earlier : List (BitVec 32)) :
    ∃ before previous after result,
      vstateRun validDelay invalidDelay num earlier = some (before, previous) ∧
      vstateRun validDelay invalidDelay num (newest :: earlier) = some (after, result) ∧
      ∀ bit, result.getLsbD bit =
        let history := (newest :: earlier).map fun word => word.getLsbD bit
        if bit < num ∧ Steady true (validDelay + 1) history then true
        else if bit < num ∧ Steady false (invalidDelay + 1) history then false
        else previous.getLsbD bit := by
  obtain ⟨before, previous, ran, smoothed⟩ :=
    vstateRun_smoothed validDelay invalidDelay few earlier
  obtain ⟨after, result, called, -, stepped, others⟩ :=
    delayOnVstate_spec newest validDelay invalidDelay before few
  refine ⟨before, previous, after, result, ran, ?_, fun bit => ?_⟩
  · rw [vstateRun, ran]
    exact called
  · by_cases below : bit < num
    · let i : Fin maxVideoIn := ⟨bit, Nat.lt_of_lt_of_le below few⟩
      have window := (smoothed.follows i below).step_window (newest.getLsbD bit)
      have own : result.getLsbD bit =
          ((before.channel previous i).step (delays validDelay invalidDelay)
            (newest.getLsbD bit)).output := by
        rw [← smoothed.kept]
        exact congrArg Debouncer.output (stepped i below)
      rw [own, delays_natCast, window]
      simp only [below, true_and]
      rfl
    · rw [others bit (Nat.not_lt.mp below), smoothed.kept]
      simp only [below, false_and, if_false]

/-- A device with four inputs, whose first input is on for the second time. -/
theorem second_high_of_four :
    4 ≤ maxVideoIn ∧ ∃ before previous after result,
      vstateRun 1 8 4 [1] = some (before, previous) ∧
      vstateRun 1 8 4 [1, 1] = some (after, result) ∧
      ∀ bit, result.getLsbD bit =
        let history := [1, 1].map fun word : BitVec 32 => word.getLsbD bit
        if bit < 4 ∧ Steady true (1 + 1) history then true
        else if bit < 4 ∧ Steady false (8 + 1) history then false
        else previous.getLsbD bit :=
  ⟨by decide, vstateRun_window 1 8 4 (by decide) 1 [1]⟩

/-- A loop that ends has stayed inside the arrays. -/
theorem turns_inside {out : VState × BitVec 32}
    (done : before.turns newstate validDelay invalidDelay num = some out) :
    num ≤ maxVideoIn := by
  cases num with
  | zero => exact Nat.zero_le _
  | succ num =>
    rw [VState.turns] at done
    obtain ⟨earlier, -, done⟩ := Option.bind_eq_some_iff.mp done
    by_contra beyond
    have outside : ¬num < maxVideoIn := fun inside => beyond inside
    simp only [dif_neg outside] at done
    cases done

/-- A device with eleven inputs: already the first call leaves the arrays. -/
theorem eleventh_input_outside :
    11 ≤ 31 ∧ ¬∃ before previous after result,
      vstateRun 0 0 11 [] = some (before, previous) ∧
      vstateRun 0 0 11 [1] = some (after, result) ∧
      ∀ bit, result.getLsbD bit =
        let history := [1].map fun word : BitVec 32 => word.getLsbD bit
        if bit < 11 ∧ Steady true (0 + 1) history then true
        else if bit < 11 ∧ Steady false (0 + 1) history then false
        else previous.getLsbD bit := by
  refine ⟨by decide, ?_⟩
  rintro ⟨before, previous, after, result, -, called, -⟩
  rw [vstateRun] at called
  obtain ⟨⟨state, _⟩, -, called⟩ := Option.bind_eq_some_iff.mp called
  have called : delayOnVstate 1 0 0 11 state = some (after, result) := called
  rw [delayOnVstate] at called
  obtain ⟨turned, done, -⟩ := Option.bind_eq_some_iff.mp called
  exact absurd (turns_inside done) (by decide)

end ExmOnvif.Common
