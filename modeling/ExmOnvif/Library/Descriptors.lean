/-
This file is about tables whose entries are handed out by number, the lowest free number first,
as a kernel hands out the descriptors of a process. An entry holds what the number was handed
out for. A number that is given back while all lower ones are taken is the next one to be
handed out.
-/

import Mathlib.Data.List.Basic

namespace ExmOnvif.Library

variable {Value : Type}

/-- What the number was handed out for. -/
def opening (table : List (Option Value)) (number : Nat) : Option Value := table[number]?.join

/-- The number that is handed out next. -/
def lowestFree (table : List (Option Value)) : Nat := table.findIdx Option.isNone

/-- The lowest free number is handed out. -/
def acquire (table : List (Option Value)) (value : Value) : List (Option Value) :=
  if lowestFree table < table.length then table.set (lowestFree table) (some value)
  else table ++ [some value]

/-- A number is given back. -/
def release (table : List (Option Value)) (number : Nat) : List (Option Value) :=
  table.set number none

theorem lowestFree_le_length (table : List (Option Value)) : lowestFree table ≤ table.length :=
  List.findIdx_le_length

theorem opening_lowestFree (table : List (Option Value)) :
    opening table (lowestFree table) = none := by
  unfold opening
  by_cases below : lowestFree table < table.length
  · have free : (table[lowestFree table]).isNone = true := List.findIdx_getElem
    rw [List.getElem?_eq_getElem below, Option.join_some]
    exact Option.isNone_iff_eq_none.mp free
  · rw [List.getElem?_eq_none (Nat.le_of_not_lt below), Option.join_none]

/-- All lower numbers are taken. -/
theorem opening_below {table : List (Option Value)} {number : Nat}
    (below : number < lowestFree table) : opening table number ≠ none := by
  have inside : number < table.length := Nat.lt_of_lt_of_le below (lowestFree_le_length table)
  have taken : (table[number]).isNone = false := List.not_of_lt_findIdx below
  unfold opening
  rw [List.getElem?_eq_getElem inside, Option.join_some]
  exact fun free => by cases taken.symm.trans (Option.isNone_iff_eq_none.mpr free)

/-- A free number below which all are taken is the next one. -/
theorem lowestFree_eq {table : List (Option Value)} {number : Nat}
    (free : opening table number = none) (taken : ∀ lower < number, opening table lower ≠ none) :
    lowestFree table = number := by
  rcases Nat.lt_trichotomy (lowestFree table) number with less | same | more
  · exact absurd (opening_lowestFree table) (taken _ less)
  · exact same
  · exact absurd free (opening_below more)

theorem opening_acquire_self (table : List (Option Value)) (value : Value) :
    opening (acquire table value) (lowestFree table) = some value := by
  unfold acquire opening
  split
  · rename_i below
    rw [List.getElem?_set_self below, Option.join_some]
  · rename_i full
    have last : lowestFree table = table.length :=
      Nat.le_antisymm (lowestFree_le_length table) (Nat.le_of_not_lt full)
    rw [last, List.getElem?_concat_length, Option.join_some]

theorem opening_acquire_other (table : List (Option Value)) (value : Value) {number : Nat}
    (other : number ≠ lowestFree table) :
    opening (acquire table value) number = opening table number := by
  unfold acquire opening
  split
  · rw [List.getElem?_set_ne other.symm]
  · rename_i full
    have last : lowestFree table = table.length :=
      Nat.le_antisymm (lowestFree_le_length table) (Nat.le_of_not_lt full)
    rw [last] at other
    rcases Nat.lt_or_gt_of_ne other with below | above
    · rw [List.getElem?_append_left below]
    · rw [List.getElem?_eq_none (by rw [List.length_append]; exact above),
        List.getElem?_eq_none (Nat.le_of_lt above)]

theorem opening_release_self (table : List (Option Value)) (number : Nat) :
    opening (release table number) number = none := by
  unfold release opening
  by_cases below : number < table.length
  · rw [List.getElem?_set_self below, Option.join_some]
  · rw [List.getElem?_eq_none (by rw [List.length_set]; exact Nat.le_of_not_lt below),
      Option.join_none]

theorem opening_release_other (table : List (Option Value)) {number other : Nat}
    (differs : other ≠ number) : opening (release table number) other = opening table other := by
  unfold release opening
  rw [List.getElem?_set_ne differs.symm]

end ExmOnvif.Library
