/-
This file is about cyclic redundancy checks as shift registers: the remainder of a message is
shifted out bit by bit, lowest bit first, and a polynomial is added whenever a one leaves.

A shift is linear, and it loses nothing when the polynomial has its highest bit set. Two messages
that differ in a single byte therefore leave different remainders. The same linearity is what
allows a table of 256 remainders in place of the shifts.
-/

import Mathlib.Data.List.Basic
import Mathlib.Logic.Function.Basic

namespace ExmOnvif.Library

variable {width : Nat}

/-- One shift of the remainder. -/
def bitStep (poly crc : BitVec width) : BitVec width :=
  if crc.getLsbD 0 then (crc >>> 1) ^^^ poly else crc >>> 1

/-- Some shifts. -/
def bitSteps (poly : BitVec width) : Nat → BitVec width → BitVec width
  | 0, crc => crc
  | count + 1, crc => bitSteps poly count (bitStep poly crc)

/-- The remainder with one more byte. -/
def byteStep (poly crc : BitVec width) (byte : BitVec 8) : BitVec width :=
  bitSteps poly 8 (crc ^^^ byte.setWidth width)

/-- The remainder of a message. -/
def remainder (poly start : BitVec width) (message : List (BitVec 8)) : BitVec width :=
  message.foldl (byteStep poly) start

/-! ### Linearity -/

theorem xor_xor_cancel (one other common : BitVec width) :
    (one ^^^ common) ^^^ (other ^^^ common) = one ^^^ other := by
  rw [BitVec.xor_comm other common, ← BitVec.xor_assoc, BitVec.xor_assoc one common common,
    BitVec.xor_self, BitVec.xor_zero]

theorem bitStep_xor (poly one other : BitVec width) :
    bitStep poly (one ^^^ other) = bitStep poly one ^^^ bitStep poly other := by
  unfold bitStep
  rw [BitVec.getLsbD_xor, BitVec.ushiftRight_xor_distrib]
  cases one.getLsbD 0 <;> cases other.getLsbD 0 <;>
    simp only [Bool.xor_false, Bool.xor_true, Bool.not_false, Bool.not_true, if_true,
      Bool.false_eq_true, if_false]
  · rw [BitVec.xor_assoc]
  · rw [BitVec.xor_assoc, BitVec.xor_comm (other >>> 1), ← BitVec.xor_assoc]
  · rw [xor_xor_cancel]

theorem bitSteps_xor (poly one other : BitVec width) (count : Nat) :
    bitSteps poly count (one ^^^ other) =
        bitSteps poly count one ^^^ bitSteps poly count other := by
  induction count generalizing one other with
  | zero => rfl
  | succ count inductionHypothesis => rw [bitSteps, bitStep_xor, inductionHypothesis]; rfl

/-! ### Nothing is lost -/

section Injective

variable {poly : BitVec width} (high : poly.msb = true)

include high

theorem bitStep_eq_zero {crc : BitVec width} (zero : bitStep poly crc = BitVec.ofNat width 0) :
    crc = BitVec.ofNat width 0 := by
  have low : (crc >>> 1).msb = false := by
    rw [BitVec.msb_ushiftRight]
    rfl
  unfold bitStep at zero
  by_cases odd : crc.getLsbD 0 = true
  · rw [if_pos odd, BitVec.xor_eq_zero_iff] at zero
    rw [zero, high] at low
    cases low
  · rw [if_neg odd] at zero
    refine BitVec.eq_of_getLsbD_eq fun place _ => ?_
    rw [BitVec.getLsbD_zero]
    cases place with
    | zero => exact Bool.eq_false_iff.mpr odd
    | succ place =>
      have shifted := congrArg (fun remainder => remainder.getLsbD place) zero
      rwa [BitVec.getLsbD_ushiftRight, BitVec.getLsbD_zero, Nat.add_comm] at shifted

theorem bitSteps_injective (count : Nat) : Function.Injective (bitSteps poly count) := by
  have zero : ∀ crc, bitSteps poly count crc = BitVec.ofNat width 0 →
      crc = BitVec.ofNat width 0 := by
    induction count with
    | zero => exact fun _ same => same
    | succ count inductionHypothesis =>
      exact fun crc same => bitStep_eq_zero high (inductionHypothesis _ same)
  intro one other same
  rw [← BitVec.xor_eq_zero_iff] at same ⊢
  exact zero _ (by rw [bitSteps_xor, same])

/-- Different remainders stay different. -/
theorem byteStep_left_injective (byte : BitVec 8) :
    Function.Injective fun crc => byteStep poly crc byte := fun _ _ same =>
  (BitVec.xor_left_inj _).mp (bitSteps_injective high 8 same)

/-- Different bytes lead to different remainders. -/
theorem byteStep_right_injective (wide : 8 ≤ width) (crc : BitVec width) :
    Function.Injective (byteStep poly crc) := by
  intro one other same
  have equal := (BitVec.xor_right_inj _).mp (bitSteps_injective high 8 same)
  have back := congrArg (BitVec.setWidth 8) equal
  rwa [BitVec.setWidth_setWidth_of_le _ wide, BitVec.setWidth_setWidth_of_le _ wide,
    BitVec.setWidth_eq, BitVec.setWidth_eq] at back

theorem remainder_injective (message : List (BitVec 8)) :
    Function.Injective fun start => remainder poly start message := by
  induction message with
  | nil => exact fun _ _ same => same
  | cons byte message inductionHypothesis =>
    exact fun _ _ same => byteStep_left_injective high byte (inductionHypothesis same)

/-- Two messages that differ in one byte leave different remainders. -/
theorem remainder_ne (wide : 8 ≤ width) (start : BitVec width) (front behind : List (BitVec 8))
    {one other : BitVec 8} (differ : one ≠ other) :
    remainder poly start (front ++ one :: behind) ≠
      remainder poly start (front ++ other :: behind) := by
  intro same
  simp only [remainder, List.foldl_append, List.foldl_cons] at same
  exact differ (byteStep_right_injective high wide _ (remainder_injective high behind same))

end Injective

/-! ### By a table -/

/-- As long as zeros leave the register, it is only shifted. -/
theorem bitSteps_of_zeros (poly : BitVec width) {crc : BitVec width} {count : Nat}
    (zeros : ∀ place < count, crc.getLsbD place = false) :
    bitSteps poly count crc = crc >>> count := by
  induction count generalizing crc with
  | zero => rw [bitSteps, BitVec.ushiftRight_zero]
  | succ count inductionHypothesis =>
    have even : ¬crc.getLsbD 0 = true := by
      rw [zeros 0 (Nat.succ_pos _)]
      exact Bool.false_ne_true
    have rest : ∀ place < count, (crc >>> 1).getLsbD place = false := by
      intro place below
      rw [BitVec.getLsbD_ushiftRight]
      exact zeros (1 + place) (by omega)
    rw [bitSteps, bitStep, if_neg even, inductionHypothesis rest, ← BitVec.shiftRight_add,
      Nat.add_comm]

/-- The lowest eight bits are shifted out by the table, the others only move. -/
theorem bitSteps_eight (poly crc : BitVec width) :
    bitSteps poly 8 crc = bitSteps poly 8 ((crc.setWidth 8).setWidth width) ^^^ (crc >>> 8) := by
  have split : crc = (crc.setWidth 8).setWidth width ^^^
      (crc ^^^ (crc.setWidth 8).setWidth width) := by
    rw [BitVec.xor_comm crc, ← BitVec.xor_assoc, BitVec.xor_self, BitVec.zero_xor]
  have zeros : ∀ place < 8, (crc ^^^ (crc.setWidth 8).setWidth width).getLsbD place = false := by
    intro place below
    rw [BitVec.getLsbD_xor, BitVec.getLsbD_setWidth, BitVec.getLsbD_setWidth, decide_eq_true below,
      Bool.true_and]
    by_cases inside : place < width
    · rw [decide_eq_true inside, Bool.true_and, Bool.xor_self]
    · rw [BitVec.getLsbD_of_ge _ _ (Nat.le_of_not_lt inside), Bool.and_false, Bool.xor_false]
  have high : (crc ^^^ (crc.setWidth 8).setWidth width) >>> 8 = crc >>> 8 := by
    refine BitVec.eq_of_getLsbD_eq fun place _ => ?_
    rw [BitVec.getLsbD_ushiftRight, BitVec.getLsbD_ushiftRight, BitVec.getLsbD_xor,
      BitVec.getLsbD_setWidth, BitVec.getLsbD_setWidth, decide_eq_false (by omega : ¬8 + place < 8),
      Bool.false_and, Bool.and_false, Bool.xor_false]
  calc bitSteps poly 8 crc
      = bitSteps poly 8 ((crc.setWidth 8).setWidth width ^^^
          (crc ^^^ (crc.setWidth 8).setWidth width)) := by rw [← split]
    _ = _ := by rw [bitSteps_xor, bitSteps_of_zeros poly zeros, high]

end ExmOnvif.Library
