/-
This file is a small theory of byte-addressed memory: storing a string of bytes
at a place, loading a string from a place, and the little-endian words of four
bytes in which sizes and checksums are kept.

A memory has no end. Where an object ends is the business of the program that
keeps it.
-/

import Mathlib.Algebra.Ring.Int.Defs
import Mathlib.Algebra.Ring.Nat
import Mathlib.Data.List.GetD
import Mathlib.Data.List.Range

namespace ExmOnvif.Library

/-- Bytes as they lie in a file or a buffer, or go over a connection. -/
abbrev Bytes := List UInt8

/-- A string of C, without its terminator. -/
abbrev Str := List UInt8

/-- `tolower`. -/
def tolower (byte : UInt8) : UInt8 := if 65 ≤ byte ∧ byte ≤ 90 then byte + 32 else byte

/-- A word of four bytes as a signed number. -/
def wordInt (word : Nat) : Int := if word < 2 ^ 31 then word else word - 2 ^ 32

theorem wordInt_of_small {word : Nat} (small : word < 2 ^ 31) : wordInt word = word := if_pos small

/-- Memory: a byte at every address. -/
abbrev Memory := Nat → UInt8

variable {memory other : Memory} {place count : Nat} {bytes : List UInt8}

/-! ### Strings of bytes -/

/-- The memory with `bytes` stored from `place` on. -/
def store (memory : Memory) (place : Nat) (bytes : List UInt8) : Memory := fun address =>
  if place ≤ address ∧ address < place + bytes.length then bytes.getD (address - place) 0
  else memory address

/-- The `count` bytes from `place` on. -/
def load (memory : Memory) (place count : Nat) : List UInt8 :=
  (List.range count).map fun offset => memory (place + offset)

@[simp]
theorem load_length (memory : Memory) (place count : Nat) :
    (load memory place count).length = count := by
  rw [load, List.length_map, List.length_range]

theorem load_getElem (memory : Memory) (place count : Nat) {offset : Nat}
    (inside : offset < (load memory place count).length) :
    (load memory place count)[offset] = memory (place + offset) := by
  simp only [load, List.getElem_map, List.getElem_range]

/-- Memories that agree from two places on load the same. -/
theorem load_congr {origin : Nat}
    (same : ∀ offset < count, memory (place + offset) = other (origin + offset)) :
    load memory place count = load other origin count :=
  List.map_congr_left fun offset member => same offset (List.mem_range.mp member)

/-- A string is loaded in two parts. -/
theorem load_add (memory : Memory) (place first second : Nat) :
    load memory place (first + second) =
      load memory place first ++ load memory (place + first) second := by
  simp only [load, List.range_add, List.map_append, List.map_map]
  congr 1
  refine List.map_congr_left fun offset _ => ?_
  rw [Function.comp_apply, Nat.add_assoc]

theorem store_outside {address : Nat}
    (outside : address < place ∨ place + bytes.length ≤ address) :
    store memory place bytes address = memory address := by
  refine if_neg ?_
  omega

theorem store_inside {offset : Nat} (inside : offset < bytes.length) :
    store memory place bytes (place + offset) = bytes.getD offset 0 := by
  have within : place ≤ place + offset ∧ place + offset < place + bytes.length := by omega
  rw [store, if_pos within, Nat.add_sub_cancel_left]

/-- What a store leaves at an address depends only on what was there. -/
theorem store_congr {address : Nat} (same : memory address = other address) :
    store memory place bytes address = store other place bytes address := by
  unfold store
  split
  · rfl
  · exact same

theorem store_nil (memory : Memory) (place : Nat) : store memory place [] = memory := by
  funext address
  refine store_outside ?_
  rw [List.length_nil]
  omega

/-- A byte stored behind a string makes it longer. -/
theorem store_concat (memory : Memory) (place : Nat) (bytes : List UInt8) (byte : UInt8) :
    store memory place (bytes ++ [byte]) =
      Function.update (store memory place bytes) (place + bytes.length) byte := by
  funext address
  by_cases here : address = place + bytes.length
  · rw [here, Function.update_self,
      store_inside (by rw [List.length_append]; exact Nat.lt_succ_self _),
      List.getD_append_right _ _ _ _ (Nat.le_refl _), Nat.sub_self]
    rfl
  · rw [Function.update_of_ne here]
    unfold store
    rw [List.length_append, List.length_singleton]
    by_cases inside : place ≤ address ∧ address < place + bytes.length
    · rw [if_pos inside, if_pos (by omega), List.getD_append _ _ _ _ (by omega)]
    · rw [if_neg inside, if_neg (by omega)]

/-- The second of two strings stored at one place covers the first. -/
theorem store_store {first second : List UInt8} (same : first.length = second.length) :
    store (store memory place first) place second = store memory place second := by
  funext address
  unfold store
  split
  · rfl
  · rename_i outside
    rw [same, if_neg outside]

/-- What was stored is loaded again. -/
theorem load_store (memory : Memory) (place : Nat) (bytes : List UInt8) :
    load (store memory place bytes) place bytes.length = bytes := by
  refine List.ext_getElem (load_length _ _ _) fun offset _ inside => ?_
  rw [load_getElem, store_inside inside, List.getD_eq_getElem _ _ inside]

/-- A store elsewhere does not change what is loaded. -/
theorem load_store_apart {start : Nat} (bytes : List UInt8)
    (apart : start + bytes.length ≤ place ∨ place + count ≤ start) :
    load (store memory start bytes) place count = load memory place count := by
  refine load_congr fun offset inside => store_outside ?_
  omega

/-- A copied string holds the bytes of the original. -/
theorem store_load {origin total offset : Nat} (memory other : Memory) (place : Nat)
    (inside : offset < total) :
    store memory place (load other origin total) (place + offset) = other (origin + offset) := by
  have within : offset < (load other origin total).length := by rwa [load_length]
  rw [store_inside within, List.getD_eq_getElem _ _ within, load_getElem]

/-- What is loaded and stored again at its place was there already. -/
theorem store_load_self (memory : Memory) (place count : Nat) :
    store memory place (load memory place count) = memory := by
  funext address
  by_cases inside : place ≤ address ∧ address < place + count
  · obtain ⟨offset, rfl⟩ := Nat.exists_eq_add_of_le inside.1
    exact store_load memory memory place (by omega)
  · refine store_outside ?_
    rw [load_length]
    omega

/-! ### Words -/

/-- The four bytes of a word, lowest first. -/
def wordBytes (value : Nat) : List UInt8 :=
  [UInt8.ofNat value, UInt8.ofNat (value / 2 ^ 8), UInt8.ofNat (value / 2 ^ 16),
    UInt8.ofNat (value / 2 ^ 24)]

/-- The word of four bytes. -/
def wordOf : List UInt8 → Nat
  | [first, second, third, fourth] =>
    first.toNat + 2 ^ 8 * second.toNat + 2 ^ 16 * third.toNat + 2 ^ 24 * fourth.toNat
  | _ => 0

@[simp]
theorem wordBytes_length (value : Nat) : (wordBytes value).length = 4 := rfl

theorem wordOf_lt (bytes : List UInt8) : wordOf bytes < 2 ^ 32 := by
  unfold wordOf
  split
  · rename_i first second third fourth
    have firstLt := first.toNat_lt
    have secondLt := second.toNat_lt
    have thirdLt := third.toNat_lt
    have fourthLt := fourth.toNat_lt
    omega
  · exact Nat.two_pow_pos _

theorem wordOf_wordBytes_mod (value : Nat) : wordOf (wordBytes value) = value % 2 ^ 32 := by
  simp only [wordBytes, wordOf, UInt8.toNat_ofNat']
  omega

theorem wordOf_wordBytes {value : Nat} (small : value < 2 ^ 32) :
    wordOf (wordBytes value) = value := by
  rw [wordOf_wordBytes_mod, Nat.mod_eq_of_lt small]

/-- Four bytes are the bytes of their word. -/
theorem wordBytes_wordOf {bytes : List UInt8} (length : bytes.length = 4) :
    wordBytes (wordOf bytes) = bytes := by
  match bytes, length with
  | [first, second, third, fourth], _ =>
    have firstLt := first.toNat_lt
    have secondLt := second.toNat_lt
    have thirdLt := third.toNat_lt
    have fourthLt := fourth.toNat_lt
    simp only [wordBytes, wordOf, List.cons.injEq, and_true, ← UInt8.toNat_inj, UInt8.toNat_ofNat']
    omega

/-- A word stored again at its place was there already. -/
theorem store_word_self (memory : Memory) (place : Nat) :
    store memory place (wordBytes (wordOf (load memory place 4))) = memory := by
  rw [wordBytes_wordOf (load_length _ _ _), store_load_self]

/-- A stored word is read again. -/
theorem wordOf_load_store (memory : Memory) (place : Nat) {value : Nat} (small : value < 2 ^ 32) :
    wordOf (load (store memory place (wordBytes value)) place 4) = value := by
  have same : load (store memory place (wordBytes value)) place 4 = wordBytes value :=
    load_store _ _ (wordBytes value)
  rw [same, wordOf_wordBytes small]

end ExmOnvif.Library
