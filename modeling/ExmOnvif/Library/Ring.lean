/-
This file reads a ring of slots as a queue.

A ring is a family of slots indexed by the naturals of which only the first
`capacity` are used; a queue of `count` values starting at `head` occupies the
slots `head, head + 1, ...` modulo the capacity. The content here is how the four
things a ring buffer does to its slots look through that reading: filling the
slot after the last value appends, stepping the head over the first value drops
it, rewriting a slot outside the occupied stretch changes nothing, and the first
and the last value sit where the head and the tail index say. How far one index is
behind another is the number of steps that lead to it, and only that one. Of values
that are stored around the ring more than once the last turn is what stays.
-/

import Mathlib.Data.List.Basic
import Mathlib.Data.List.Induction
import Mathlib.Logic.Function.Basic

namespace ExmOnvif.Library

variable {Value : Type}

/-- The `count` values of a ring of `capacity` slots that start at `head`, oldest first. -/
def ringList (slots : Nat → Value) (capacity head count : Nat) : List Value :=
  (List.range count).map fun offset => slots ((head + offset) % capacity)

/-! ### Offsets within one turn -/

/-- Two different offsets within one turn of the ring are two different slots. -/
theorem offset_ne {capacity head first second : Nat} (before : first < second)
    (within : second < first + capacity) :
    (head + first) % capacity ≠ (head + second) % capacity := by
  intro same
  have divides : capacity ∣ (head + second) - (head + first) :=
    Nat.dvd_of_mod_eq_zero (Nat.sub_mod_eq_zero_of_mod_eq same.symm)
  have turn : (head + second) - (head + first) = second - first := by omega
  rw [turn] at divides
  exact absurd (Nat.le_of_dvd (by omega) divides) (by omega)

/-- Reducing the head first does not move an offset. -/
theorem offset_mod (capacity head offset : Nat) :
    (head % capacity + offset) % capacity = (head + offset) % capacity :=
  Nat.mod_add_mod head capacity offset

/-! ### Steps from one slot to another -/

/-- The steps from a slot on to another one, none when they are the same. -/
def gap (capacity start stop : Nat) : Nat := (stop + capacity - start) % capacity

/-- The steps lead there. -/
theorem add_gap {capacity start stop : Nat} (startBelow : start < capacity)
    (stopBelow : stop < capacity) : (start + gap capacity start stop) % capacity = stop := by
  have whole : start + (stop + capacity - start) = stop + capacity := by omega
  rw [gap, Nat.add_mod_mod, whole, Nat.add_mod_right, Nat.mod_eq_of_lt stopBelow]

/-- Within one turn no other number of steps does. -/
theorem gap_unique {capacity start stop steps : Nat} (startBelow : start < capacity)
    (within : steps < capacity) (reached : (start + steps) % capacity = stop) :
    gap capacity start stop = steps := by
  have stopBelow : stop < capacity := by
    rw [← reached]
    exact Nat.mod_lt _ (Nat.zero_lt_of_lt within)
  have below : gap capacity start stop < capacity := Nat.mod_lt _ (Nat.zero_lt_of_lt within)
  have same := (add_gap startBelow stopBelow).trans reached.symm
  rcases Nat.lt_trichotomy (gap capacity start stop) steps with less | equal | more
  · exact absurd same (offset_ne less (by omega))
  · exact equal
  · exact absurd same.symm (offset_ne more (by omega))

/-- The slot to reach moves on. -/
theorem gap_newer {capacity start stop : Nat} (startBelow : start < capacity)
    (stopBelow : stop < capacity) (short : gap capacity start stop + 1 < capacity) :
    gap capacity start ((stop + 1) % capacity) = gap capacity start stop + 1 := by
  refine gap_unique startBelow short ?_
  rw [← Nat.add_assoc, ← offset_mod, add_gap startBelow stopBelow]

/-- Steps made are not to be made again. -/
theorem gap_forward {capacity start stop steps : Nat} (startBelow : start < capacity)
    (stopBelow : stop < capacity) (short : steps ≤ gap capacity start stop) :
    gap capacity ((start + steps) % capacity) stop = gap capacity start stop - steps := by
  have positive := Nat.zero_lt_of_lt startBelow
  have below : gap capacity start stop < capacity := Nat.mod_lt _ positive
  refine gap_unique (Nat.mod_lt _ positive) (by omega) ?_
  rw [offset_mod, Nat.add_assoc, Nat.add_sub_cancel' short, add_gap startBelow stopBelow]

/-- Steps taken back are to be made again. -/
theorem gap_backward {capacity start stop steps : Nat} (startBelow : start < capacity)
    (stopBelow : stop < capacity) (short : gap capacity start stop + steps < capacity) :
    gap capacity ((start + capacity - steps) % capacity) stop =
        gap capacity start stop + steps := by
  have whole : start + capacity - steps + (gap capacity start stop + steps) =
      start + gap capacity start stop + capacity := by omega
  refine gap_unique (Nat.mod_lt _ (Nat.zero_lt_of_lt startBelow)) short ?_
  rw [offset_mod, whole, Nat.add_mod_right, add_gap startBelow stopBelow]

/-! ### The queue read off a ring -/

@[simp]
theorem ringList_length (slots : Nat → Value) (capacity head count : Nat) :
    (ringList slots capacity head count).length = count := by
  simp [ringList]

@[simp]
theorem ringList_zero (slots : Nat → Value) (capacity head : Nat) :
    ringList slots capacity head 0 = [] := rfl

theorem ringList_getElem? (slots : Nat → Value) (capacity head count offset : Nat)
    (inside : offset < count) :
    (ringList slots capacity head count)[offset]? =
      some (slots ((head + offset) % capacity)) := by
  simp [ringList, inside]

theorem mem_ringList {slots : Nat → Value} {capacity head count : Nat} {value : Value} :
    value ∈ ringList slots capacity head count ↔
      ∃ offset < count, slots ((head + offset) % capacity) = value := by
  simp [ringList]

/-- A ring of one more value ends in the slot after the others. -/
theorem ringList_succ (slots : Nat → Value) (capacity head count : Nat) :
    ringList slots capacity head (count + 1) =
      ringList slots capacity head count ++ [slots ((head + count) % capacity)] := by
  simp [ringList, List.range_succ]

/-- A ring of one more value starts with the value at its head. -/
theorem ringList_cons (slots : Nat → Value) (capacity head count : Nat) :
    ringList slots capacity head (count + 1) =
      slots (head % capacity) :: ringList slots capacity ((head + 1) % capacity) count := by
  simp only [ringList, List.range_succ_eq_map, List.map_cons, List.map_map, Nat.add_zero]
  refine congrArg (List.cons _) (List.map_congr_left fun offset _ => ?_)
  simp only [Function.comp, Nat.succ_eq_add_one]
  rw [offset_mod, Nat.add_assoc, Nat.add_comm 1 offset]

/-- A queue is read in two pieces. -/
theorem ringList_add (slots : Nat → Value) (capacity head count more : Nat) :
    ringList slots capacity head (count + more) =
      ringList slots capacity head count ++ ringList slots capacity (head + count) more := by
  rw [ringList, List.range_add, List.map_append, List.map_map]
  refine congrArg (ringList slots capacity head count ++ ·) (List.map_congr_left fun offset _ => ?_)
  rw [Function.comp, Nat.add_assoc]

/-- Reducing the head first does not change the queue. -/
theorem ringList_mod (slots : Nat → Value) (capacity head count : Nat) :
    ringList slots capacity (head % capacity) count = ringList slots capacity head count :=
  List.map_congr_left fun offset _ => congrArg slots (offset_mod capacity head offset)

/-- Rings that agree on the occupied slots hold the same queue. -/
theorem ringList_congr {slots others : Nat → Value} {capacity head count : Nat}
    (same : ∀ offset < count,
      slots ((head + offset) % capacity) = others ((head + offset) % capacity)) :
    ringList slots capacity head count = ringList others capacity head count := by
  refine List.map_congr_left fun offset member => ?_
  exact same offset (List.mem_range.mp member)

/-- Rewriting a slot outside the occupied stretch leaves the queue alone. -/
theorem ringList_update_outside (slots : Nat → Value) {capacity head count offset : Nat}
    (value : Value) (outside : count ≤ offset) (within : offset < capacity) :
    ringList (Function.update slots ((head + offset) % capacity) value) capacity head count =
      ringList slots capacity head count := by
  refine ringList_congr fun other inside => ?_
  rw [Function.update_of_ne (offset_ne (by omega) (by omega))]

/-- Filling the slot after the last value appends it. -/
theorem ringList_append (slots : Nat → Value) {capacity head count : Nat} (value : Value)
    (room : count < capacity) :
    ringList (Function.update slots ((head + count) % capacity) value) capacity head (count + 1) =
      ringList slots capacity head count ++ [value] := by
  rw [ringList_succ, ringList_update_outside slots value (Nat.le_refl count) room,
    Function.update_self]

/-- Clearing the head's slot and stepping over it drops the first value. -/
theorem ringList_tail (slots : Nat → Value) {capacity count : Nat} (head : Nat) (blank : Value)
    (room : count < capacity) :
    ringList (Function.update slots (head % capacity) blank) capacity ((head + 1) % capacity)
        count =
      ringList slots capacity ((head + 1) % capacity) count := by
  refine ringList_congr fun offset inside => ?_
  rw [offset_mod, Function.update_of_ne]
  have distinct : (head + 0) % capacity ≠ (head + (offset + 1)) % capacity :=
    offset_ne (by omega) (by omega)
  rw [Nat.add_zero] at distinct
  rw [Nat.add_assoc, Nat.add_comm 1 offset]
  exact Ne.symm distinct

/-- The last value of a queue sits one slot before its end. -/
theorem ringList_getLast? (slots : Nat → Value) (capacity head count : Nat) :
    (ringList slots capacity head (count + 1)).getLast? =
      some (slots ((head + count) % capacity)) := by
  rw [ringList_succ, List.getLast?_concat]

/-- The first value of a queue sits at its head. -/
theorem ringList_head? (slots : Nat → Value) {capacity head count : Nat} (below : head < capacity) :
    (ringList slots capacity head (count + 1)).head? = some (slots head) := by
  rw [ringList_cons, List.head?_cons, Nat.mod_eq_of_lt below]

/-! ### Storing around the ring -/

/-- The slots after values have been stored one behind the other from `head` on, around the ring
as often as it takes. -/
def ringStore (slots : Nat → Value) (capacity : Nat) : Nat → List Value → Nat → Value
  | _, [] => slots
  | head, value :: values =>
    ringStore (Function.update slots (head % capacity) value) capacity (head + 1) values

section Store

variable {slots : Nat → Value} {capacity head offset slot : Nat} {values : List Value}

theorem ringStore_append (slots : Nat → Value) (capacity head : Nat) (front back : List Value) :
    ringStore slots capacity head (front ++ back) =
      ringStore (ringStore slots capacity head front) capacity (head + front.length) back := by
  induction front generalizing slots head with
  | nil => rfl
  | cons value front inductionHypothesis =>
    rw [List.cons_append, ringStore, ringStore, inductionHypothesis, List.length_cons,
      Nat.add_assoc, Nat.add_comm 1]

theorem ringStore_mod (slots : Nat → Value) (capacity head : Nat) (values : List Value) :
    ringStore slots capacity (head % capacity) values = ringStore slots capacity head values := by
  induction values generalizing slots head with
  | nil => rfl
  | cons value values inductionHypothesis =>
    rw [ringStore, ringStore, Nat.mod_mod, ← inductionHypothesis, Nat.mod_add_mod,
      inductionHypothesis]

/-- The last value is stored behind the others. -/
theorem ringStore_concat (slots : Nat → Value) (capacity head : Nat) (values : List Value)
    (value : Value) :
    ringStore slots capacity head (values ++ [value]) =
      Function.update (ringStore slots capacity head values) ((head + values.length) % capacity)
        value := by
  rw [ringStore_append]
  rfl

/-- Of the values of the last turn each is in its slot. -/
theorem ringStore_last (inside : offset < values.length)
    (last : values.length ≤ offset + capacity) :
    ringStore slots capacity head values ((head + offset) % capacity) = values[offset] := by
  induction values using List.reverseRecOn with
  | nil => cases inside
  | append_singleton values value inductionHypothesis =>
    rw [List.length_append, List.length_singleton] at inside last
    rw [ringStore_concat]
    rcases Nat.lt_or_eq_of_le (Nat.le_of_lt_succ inside) with earlier | rfl
    · rw [Function.update_of_ne (offset_ne earlier (by omega)),
        inductionHypothesis earlier (by omega), List.getElem_append_left earlier]
    · rw [Function.update_self, List.getElem_concat_length rfl]

/-- A slot that none of the values is stored in stays as it was. -/
theorem ringStore_outside (outside : ∀ offset < values.length, slot ≠ (head + offset) % capacity) :
    ringStore slots capacity head values slot = slots slot := by
  induction values using List.reverseRecOn with
  | nil => rfl
  | append_singleton values value inductionHypothesis =>
    rw [List.length_append, List.length_singleton] at outside
    rw [ringStore_concat, Function.update_of_ne (outside _ (Nat.lt_succ_self _))]
    exact inductionHypothesis fun offset inside => outside offset (Nat.lt_succ_of_lt inside)

/-- What is stored in a slot was stored there in the last turn. -/
theorem exists_last {count : Nat} (inside : offset < count) (positive : 0 < capacity) :
    ∃ last < count, count ≤ last + capacity ∧
      (head + last) % capacity = (head + offset) % capacity := by
  refine ⟨count - 1 - (count - 1 - offset) % capacity, by omega, ?_, ?_⟩
  · have below := Nat.mod_lt (count - 1 - offset) positive
    omega
  · have turns := Nat.div_add_mod (count - 1 - offset) capacity
    have whole : head + (count - 1 - (count - 1 - offset) % capacity) =
        head + offset + capacity * ((count - 1 - offset) / capacity) := by omega
    rw [whole, Nat.add_mul_mod_self_left]

/-- The values of the last turn are read again. -/
theorem ringList_ringStore (count : Nat) (turn : count ≤ capacity) (few : count ≤ values.length) :
    ringList (ringStore slots capacity head values) capacity (head + (values.length - count))
      count = values.drop (values.length - count) := by
  refine List.ext_getElem ?_ fun offset inside within => ?_
  · rw [ringList_length, List.length_drop]
    omega
  · rw [ringList_length] at inside
    simp only [ringList, List.getElem_map, List.getElem_range, List.getElem_drop]
    rw [Nat.add_assoc]
    exact ringStore_last (by omega) (by omega)

end Store

end ExmOnvif.Library
