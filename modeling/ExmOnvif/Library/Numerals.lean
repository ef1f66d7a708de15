/-
This file is about numbers printed with a fixed number of digits, as the C library prints
and reads them: the digits of a number behind as many zeros as it takes to fill the field,
and the number that a row of digits stands for.

Reading needs to know no more of a character than the digit it stands for, so that the
decimal and the hexadecimal numbers are read back by the same argument.
-/

import Mathlib.Algebra.Ring.Int.Defs
import Mathlib.Algebra.Ring.Nat
import Mathlib.Data.List.Induction
import Mathlib.Data.List.TakeWhile

namespace ExmOnvif.Library

/-! ### Printing -/

/-- The digits of a number, with zeros in front up to the width of the field. -/
def padded (width base number : Nat) : List Char := (Nat.toDigits base number).leftpad width '0'

/-- A number that fits into its field fills it. -/
theorem padded_length {width base number : Nat} (large : 1 < base) (wide : 0 < width)
    (fits : number < base ^ width) : (padded width base number).length = width := by
  unfold padded
  rw [List.length_leftpad]
  exact max_eq_left ((Nat.length_toDigits_le_iff large wide).mpr fits)

theorem padded_length_le {width base number digits : Nat} (large : 1 < base)
    (wide : 0 < digits) (fits : number < base ^ digits) :
    (padded width base number).length ≤ max width digits := by
  have short := (Nat.length_toDigits_le_iff large wide).mpr fits
  unfold padded
  rw [List.length_leftpad]
  omega

/-- What is printed is a digit or a zero. -/
theorem mem_padded {width base number : Nat} {char : Char}
    (member : char ∈ padded width base number) :
    char ∈ Nat.toDigits base number ∨ char = '0' := by
  unfold padded List.leftpad at member
  rcases List.mem_append.mp member with zero | digit
  · exact Or.inr (List.eq_of_mem_replicate zero)
  · exact Or.inl digit

/-- The digits of a number are those below its base. -/
theorem mem_toDigits {base number : Nat} (large : 1 < base) {char : Char}
    (member : char ∈ Nat.toDigits base number) : ∃ digit < base, char = digit.digitChar := by
  induction number using Nat.strongRecOn with
  | ind number inductionHypothesis =>
    rw [Nat.toDigits_eq_if large] at member
    split at member
    · next small => exact ⟨number, small, List.mem_singleton.mp member⟩
    · next big =>
      rcases List.mem_append.mp member with front | last
      · have smaller : number / base < number :=
          Nat.div_lt_self (Nat.pos_of_ne_zero fun zero => big (by omega)) large
        exact inductionHypothesis (number / base) smaller front
      · exact ⟨number % base, Nat.mod_lt _ (by omega), List.mem_singleton.mp last⟩

theorem isDigit_of_mem_padded {width number : Nat} {char : Char}
    (member : char ∈ padded width 10 number) : char.isDigit = true := by
  rcases mem_padded member with digit | rfl
  · exact Nat.isDigit_of_mem_toDigits (by decide) (by decide) digit
  · decide

/-! ### Reading -/

/-- The number that a row of characters stands for. -/
def numeral (base : Nat) (value : Char → Int) (text : List Char) : Int :=
  text.foldl (fun sum char => sum * base + value char) 0

theorem numeral_append (base : Nat) (value : Char → Int) (front : List Char) (last : Char) :
    numeral base value (front ++ [last]) = numeral base value front * base + value last := by
  unfold numeral
  rw [List.foldl_append]
  rfl

/-- Characters that are read as more make more of a number, unless all are read the same. -/
theorem numeral_le_and_eq_iff {base : Nat} {value other : Char → Int} {text : List Char}
    (positive : 0 < base) (le : ∀ char ∈ text, value char ≤ other char) :
    numeral base value text ≤ numeral base other text ∧
      (numeral base value text = numeral base other text ↔
        ∀ char ∈ text, value char = other char) := by
  induction text using List.reverseRecOn with
  | nil => exact ⟨Int.le_refl _, iff_of_true rfl (List.forall_mem_nil _)⟩
  | append_singleton front last inductionHypothesis =>
    obtain ⟨frontLe, frontEq⟩ := inductionHypothesis fun char member =>
      le char (List.mem_append_left _ member)
    have lastLe := le last (List.mem_append_right _ List.mem_cons_self)
    have scaled := Int.mul_le_mul_of_nonneg_right frontLe (Int.natCast_nonneg base)
    rw [numeral_append, numeral_append, List.forall_mem_append, List.forall_mem_singleton,
      ← frontEq]
    refine ⟨Int.add_le_add scaled lastLe, fun same => ?_, fun both => by rw [both.1, both.2]⟩
    have front : numeral base value front * base = numeral base other front * base := by omega
    exact ⟨Int.eq_of_mul_eq_mul_right (by omega) front, by omega⟩

variable {base : Nat} {value : Char → Int}

theorem numeral_toDigits (large : 1 < base)
    (digits : ∀ digit < base, value digit.digitChar = digit) (number : Nat) :
    numeral base value (Nat.toDigits base number) = number := by
  induction number using Nat.strongRecOn with
  | ind number inductionHypothesis =>
    rw [Nat.toDigits_eq_if large]
    split
    · next small =>
      have last := numeral_append base value [] number.digitChar
      rw [List.nil_append, digits number small] at last
      rw [last]
      unfold numeral
      simp
    · next big =>
      have smaller : number / base < number :=
        Nat.div_lt_self (Nat.pos_of_ne_zero fun zero => big (by omega)) large
      rw [numeral_append, inductionHypothesis _ smaller, digits _ (Nat.mod_lt _ (by omega))]
      have split := Nat.div_add_mod' number base
      exact_mod_cast split

/-- Zeros in front of a number do not count. -/
theorem numeral_zeros (zero : value '0' = 0) (count : Nat) (text : List Char) :
    numeral base value (List.replicate count '0' ++ text) = numeral base value text := by
  induction count with
  | zero => rfl
  | succ count inductionHypothesis =>
    rw [← inductionHypothesis, List.replicate_succ, List.cons_append]
    unfold numeral
    rw [List.foldl_cons, zero]
    simp

theorem numeral_padded (large : 1 < base)
    (digits : ∀ digit < base, value digit.digitChar = digit) (width number : Nat) :
    numeral base value (padded width base number) = number := by
  have zero : value '0' = 0 := digits 0 (by omega)
  unfold padded List.leftpad
  rw [numeral_zeros zero, numeral_toDigits large digits]

/-! ### The C library -/

/-- `isspace`. -/
def isspace (char : Char) : Bool :=
  decide (char = ' ' ∨ 9 ≤ char.toNat ∧ char.toNat ≤ 13)

/-- The value of a decimal digit. -/
def decimalDigit (char : Char) : Int := char.toNat - 48

/-- `atoi`. -/
def atoi (text : List Char) : Int :=
  match text.dropWhile isspace with
  | '-' :: rest => -numeral 10 decimalDigit (rest.takeWhile Char.isDigit)
  | '+' :: rest => numeral 10 decimalDigit (rest.takeWhile Char.isDigit)
  | rest => numeral 10 decimalDigit (rest.takeWhile Char.isDigit)

/-- `%d` of a number that is filled up with zeros. -/
def printDecimal (width : Nat) (number : Int) : List Char :=
  if 0 ≤ number then padded width 10 number.toNat
  else '-' :: padded (width - 1) 10 (-number).toNat

/-- `%X` of a number that is filled up with zeros. -/
def printHex (width : Nat) (number : Int) : List Char :=
  (padded width 16 (number % 2 ^ 32).toNat).map Char.toUpper

theorem decimalDigit_digitChar {digit : Nat} (small : digit < 10) :
    decimalDigit digit.digitChar = digit := by
  unfold decimalDigit
  rw [Nat.toNat_digitChar_of_lt_ten small]
  push_cast
  omega

/-- A row of digits has no blank and no sign in front. -/
theorem atoi_of_digits {text : List Char} (digits : ∀ char ∈ text, char.isDigit = true) :
    atoi text = numeral 10 decimalDigit text := by
  have all : text.takeWhile Char.isDigit = text := List.takeWhile_eq_self_iff.mpr digits
  cases text with
  | nil => rfl
  | cons first rest =>
    have digit := digits first List.mem_cons_self
    have bounds : 48 ≤ first.toNat ∧ first.toNat ≤ 57 := Char.isDigit_iff_toNat.mp digit
    have noBlank : isspace first = false := by
      unfold isspace
      refine decide_eq_false ?_
      rintro (rfl | blank)
      · exact absurd bounds (by decide)
      · omega
    unfold atoi
    rw [List.dropWhile_cons_of_neg (by rw [noBlank]; exact Bool.false_ne_true)]
    split
    · next minus =>
      cases minus
      exact absurd digit (by decide)
    · next plus =>
      cases plus
      exact absurd digit (by decide)
    · rw [all]

theorem atoi_printDecimal (width : Nat) {number : Int} (nonneg : 0 ≤ number) :
    atoi (printDecimal width number) = number := by
  unfold printDecimal
  rw [if_pos nonneg, atoi_of_digits fun char member => isDigit_of_mem_padded member,
    numeral_padded (by decide) (fun digit small => decimalDigit_digitChar small)]
  exact Int.toNat_of_nonneg nonneg

theorem isDigit_of_mem_printDecimal {width : Nat} {number : Int} (nonneg : 0 ≤ number)
    {char : Char} (member : char ∈ printDecimal width number) : char.isDigit = true := by
  unfold printDecimal at member
  rw [if_pos nonneg] at member
  exact isDigit_of_mem_padded member

theorem printDecimal_length {width : Nat} {number : Int} (nonneg : 0 ≤ number) (wide : 0 < width)
    (fits : number < 10 ^ width) : (printDecimal width number).length = width := by
  unfold printDecimal
  rw [if_pos nonneg]
  refine padded_length (by decide) wide ?_
  rw [Int.toNat_lt nonneg]
  exact_mod_cast fits

/-- A number ends at the first character that is no digit. -/
theorem atoi_printDecimal_append (width : Nat) {number : Int} (nonneg : 0 ≤ number)
    (wide : 0 < width)
    {rest : List Char} (ends : ∀ char ∈ rest.head?, char.isDigit = false) :
    atoi (printDecimal width number ++ rest) = number := by
  have digits : ∀ char ∈ printDecimal width number, char.isDigit = true :=
    fun char member => isDigit_of_mem_printDecimal nonneg member
  have value := atoi_printDecimal width nonneg
  rw [atoi_of_digits digits] at value
  have stops : rest.takeWhile Char.isDigit = [] := by
    cases rest with
    | nil => rfl
    | cons char rest =>
      exact List.takeWhile_cons_of_neg (by rw [ends char rfl]; exact Bool.false_ne_true)
  have taken : (printDecimal width number ++ rest).takeWhile Char.isDigit =
      printDecimal width number := by
    rw [List.takeWhile_append_of_pos digits, stops, List.append_nil]
  obtain ⟨first, others, split⟩ : ∃ first others, printDecimal width number = first :: others := by
    refine List.exists_cons_of_ne_nil fun none => ?_
    have long : width ≤ (printDecimal width number).length := by
      unfold printDecimal padded
      rw [if_pos nonneg, List.length_leftpad]
      exact Nat.le_max_left _ _
    rw [none] at long
    exact absurd long (Nat.not_le.mpr wide)
  rw [split] at taken value digits ⊢
  have digit := digits first List.mem_cons_self
  have bounds : 48 ≤ first.toNat ∧ first.toNat ≤ 57 := Char.isDigit_iff_toNat.mp digit
  have noBlank : ¬isspace first = true := by
    unfold isspace
    rw [decide_eq_true_iff]
    rintro (rfl | blank)
    · exact absurd bounds (by decide)
    · omega
  unfold atoi
  rw [List.cons_append, List.dropWhile_cons_of_neg noBlank]
  split
  · next minus =>
    cases minus
    exact absurd digit (by decide)
  · next plus =>
    cases plus
    exact absurd digit (by decide)
  · rw [← List.cons_append, taken, value]

end ExmOnvif.Library
