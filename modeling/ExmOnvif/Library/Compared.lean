/-
This file is about rows of digits that are compared byte by byte, as the C library does it. Rows of
the same length are in the order of the numbers they stand for.
-/

import Mathlib.Tactic.Ring
import ExmOnvif.Library.Numerals

namespace ExmOnvif.Library

/-- `memcmp`, of as many bytes as both have. -/
def memcmp : List Char → List Char → Int
  | first :: front, second :: behind =>
    if first.toNat < second.toNat then -1
    else if second.toNat < first.toNat then 1
    else memcmp front behind
  | _, _ => 0

/-- A number in two parts. -/
theorem numeral_join (base : Nat) (value : Char → Int) (front text : List Char) :
    numeral base value (front ++ text) =
      numeral base value front * base ^ text.length + numeral base value text := by
  induction text using List.reverseRecOn with
  | nil =>
    rw [List.append_nil, List.length_nil, pow_zero, mul_one]
    exact (add_zero _).symm
  | append_singleton text last inductionHypothesis =>
    rw [← List.append_assoc, numeral_append, numeral_append, inductionHypothesis,
      List.length_append, List.length_singleton, pow_succ]
    ring

theorem decimalDigit_bounds {char : Char} (digit : char.isDigit = true) :
    0 ≤ decimalDigit char ∧ decimalDigit char ≤ 9 := by
  have bounds : 48 ≤ char.toNat ∧ char.toNat ≤ 57 := Char.isDigit_iff_toNat.mp digit
  unfold decimalDigit
  omega

/-- The numbers with so many digits. -/
theorem numeral_digits {text : List Char} (digits : ∀ char ∈ text, char.isDigit = true) :
    0 ≤ numeral 10 decimalDigit text ∧ numeral 10 decimalDigit text < 10 ^ text.length := by
  induction text using List.reverseRecOn with
  | nil => exact ⟨Int.le_refl _, by decide⟩
  | append_singleton text last inductionHypothesis =>
    obtain ⟨nonneg, small⟩ := inductionHypothesis fun char member =>
      digits char (List.mem_append_left _ member)
    have digit := decimalDigit_bounds (digits last (List.mem_append_right _ List.mem_cons_self))
    rw [numeral_append, List.length_append, List.length_singleton, pow_succ]
    omega

theorem numeral_lead (first : Char) (text : List Char) :
    numeral 10 decimalDigit (first :: text) =
      decimalDigit first * 10 ^ text.length + numeral 10 decimalDigit text := by
  have join := numeral_join 10 decimalDigit [first] text
  have single : numeral 10 decimalDigit [first] = decimalDigit first := Int.zero_add _
  rw [single] at join
  exact join

/-- A larger digit in front makes a number larger. -/
theorem lead_lt {first second scale tail tail' : Int} (small : 0 ≤ tail ∧ tail < scale)
    (nonneg : 0 ≤ tail')
    (less : first < second) : first * scale + tail < second * scale + tail' := by
  have next : (first + 1) * scale ≤ second * scale :=
    Int.mul_le_mul_of_nonneg_right less (by omega)
  rw [Int.add_mul, Int.one_mul] at next
  omega

/-- Numbers with the same number of digits are in the order of their digits. -/
theorem memcmp_digits {first second : List Char} (same : first.length = second.length)
    (firstDigits : ∀ char ∈ first, char.isDigit = true)
    (secondDigits : ∀ char ∈ second, char.isDigit = true) :
    memcmp first second =
      if numeral 10 decimalDigit first < numeral 10 decimalDigit second then -1
      else if numeral 10 decimalDigit second < numeral 10 decimalDigit first then 1 else 0 := by
  induction first generalizing second with
  | nil =>
    rw [List.eq_nil_of_length_eq_zero same.symm]
    rfl
  | cons char first inductionHypothesis =>
    obtain ⟨char', second, rfl⟩ := List.exists_cons_of_length_eq_add_one same.symm
    have same' : first.length = second.length := Nat.succ.inj same
    obtain ⟨digit, firstDigits⟩ := List.forall_mem_cons.mp firstDigits
    obtain ⟨digit', secondDigits⟩ := List.forall_mem_cons.mp secondDigits
    have tails := numeral_digits firstDigits
    have tails' := numeral_digits secondDigits
    have larger := @lead_lt (decimalDigit char) (decimalDigit char') _ _ _ tails tails'.1
    have smaller := @lead_lt (decimalDigit char') (decimalDigit char) _ _ _ tails' tails.1
    have order : char.toNat < char'.toNat ↔ decimalDigit char < decimalDigit char' := by
      unfold decimalDigit
      omega
    have order' : char'.toNat < char.toNat ↔ decimalDigit char' < decimalDigit char := by
      unfold decimalDigit
      omega
    rw [memcmp, numeral_lead, numeral_lead, inductionHypothesis same' firstDigits secondDigits,
      same']
    rw [same'] at larger
    split
    · next less => rw [if_pos (larger (order.mp less))]
    · split
      · next more =>
          rw [if_neg (smaller (order'.mp more)).not_gt, if_pos (smaller (order'.mp more))]
      · next same =>
        have equal : decimalDigit char = decimalDigit char' := by omega
        simp only [equal, Int.add_lt_add_iff_left]

end ExmOnvif.Library
