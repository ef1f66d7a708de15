/-
This file is about values that lie one behind the other around a circle, as the
records of a ring-shaped store do, and about copying a string of bytes into and out
of a ring-shaped memory with one or two plain copies.

Positions are counted without turning back: a value that starts at the uncounted
position `start` lies at the place `start % size`. Values laid out one behind the
other that together take no more than one turn do not touch each other.
-/

import ExmOnvif.Library.Bytes
import ExmOnvif.Library.Ring

namespace ExmOnvif.Library

variable {Value : Type}

/-! ### Values around a circle -/

/-- The place is one of the `width` places from `start` on, around the circle. -/
def OnArc (size start width place : Nat) : Prop :=
  ∃ offset < width, place = (start + offset) % size

/-- Two stretches of the circle have no place in common. -/
def ArcsApart (size start width otherStart otherWidth : Nat) : Prop :=
  ∀ place, ¬(OnArc size start width place ∧ OnArc size otherStart otherWidth place)

theorem OnArc.of_mod {size start width place : Nat}
    (on : OnArc size (start % size) width place) : OnArc size start width place := by
  obtain ⟨offset, below, same⟩ := on
  exact ⟨offset, below, same.trans (offset_mod size start offset)⟩

/-- Stretches that follow each other within one turn are apart. -/
theorem arcsApart_of_le {size start width otherStart otherWidth : Nat}
    (behind : start + width ≤ otherStart) (turn : otherStart + otherWidth ≤ start + size) :
    ArcsApart size start width otherStart otherWidth := by
  rintro place ⟨⟨offset, below, rfl⟩, other, otherBelow, same⟩
  obtain ⟨between, rfl⟩ := Nat.exists_eq_add_of_le behind
  refine absurd same ?_
  rw [Nat.add_assoc start width, Nat.add_assoc start]
  exact offset_ne (by omega) (by omega)

theorem ArcsApart.mod {size start width otherStart otherWidth : Nat}
    (apart : ArcsApart size start width otherStart otherWidth) :
    ArcsApart size (start % size) width (otherStart % size) otherWidth := by
  rintro place ⟨on, otherOn⟩
  exact apart place ⟨on.of_mod, otherOn.of_mod⟩

/-- A place of a circle of fine places lies on the arc its coarse place lies on. -/
theorem OnArc.div {size start width unit fine place : Nat} (unitPositive : 0 < unit)
    (fits : fine ≤ width * unit) (on : OnArc (size * unit) (start * unit) fine place) :
    OnArc size start width (place / unit) := by
  obtain ⟨offset, below, rfl⟩ := on
  refine ⟨offset / unit, Nat.div_lt_of_lt_mul (by rw [Nat.mul_comm]; omega), ?_⟩
  rw [Nat.mul_comm size unit, Nat.mod_mul_right_div_self, Nat.add_comm, Nat.mul_comm start unit,
    Nat.add_mul_div_left _ _ unitPositive, Nat.add_comm]

/-- Stretches that are apart stay apart when each place is divided into `unit` places. -/
theorem ArcsApart.scale {size start width otherStart otherWidth unit fine otherFine : Nat}
    (apart : ArcsApart size start width otherStart otherWidth) (unitPositive : 0 < unit)
    (fits : fine ≤ width * unit) (otherFits : otherFine ≤ otherWidth * unit) :
    ArcsApart (size * unit) (start * unit) fine (otherStart * unit) otherFine := by
  rintro place ⟨on, otherOn⟩
  exact apart (place / unit) ⟨on.div unitPositive fits, otherOn.div unitPositive otherFits⟩

section LaidOut

variable {size : Nat} {place width : Value → Nat}

/-- The values lie one behind the other from `start` on. -/
def LaidOut (size : Nat) (place width : Value → Nat) : Nat → List Value → Prop
  | _, [] => True
  | start, value :: values =>
    place value = start % size ∧ LaidOut size place width (start + width value) values

/-- The places the values take together. -/
def totalWidth (width : Value → Nat) (values : List Value) : Nat := (values.map width).sum

@[simp]
theorem totalWidth_nil : totalWidth width ([] : List Value) = 0 := rfl

@[simp]
theorem totalWidth_cons (value : Value) (values : List Value) :
    totalWidth width (value :: values) = width value + totalWidth width values := by
  rw [totalWidth, List.map_cons, List.sum_cons, totalWidth]

theorem totalWidth_append (values more : List Value) :
    totalWidth width (values ++ more) = totalWidth width values + totalWidth width more := by
  rw [totalWidth, List.map_append, List.sum_append, totalWidth, totalWidth]

/-- Another count of the same starting place. -/
theorem LaidOut.of_mod_eq {start other : Nat} {values : List Value}
    (laid : LaidOut size place width start values) (same : other % size = start % size) :
    LaidOut size place width other values := by
  induction values generalizing start other with
  | nil => trivial
  | cons value values inductionHypothesis =>
    obtain ⟨here, rest⟩ := laid
    refine ⟨here.trans same.symm, inductionHypothesis rest ?_⟩
    rw [Nat.add_mod, same, ← Nat.add_mod]

/-- One more value behind the others. -/
theorem LaidOut.append {start : Nat} {values : List Value} {value : Value}
    (laid : LaidOut size place width start values)
    (next : place value = (start + totalWidth width values) % size) :
    LaidOut size place width start (values ++ [value]) := by
  induction values generalizing start with
  | nil => exact ⟨next, trivial⟩
  | cons first values inductionHypothesis =>
    obtain ⟨here, rest⟩ := laid
    refine ⟨here, inductionHypothesis rest ?_⟩
    rw [next, totalWidth_cons, Nat.add_assoc]

/-- Where a value of the row lies. -/
theorem LaidOut.of_mem {start : Nat} {values : List Value} {value : Value}
    (laid : LaidOut size place width start values) (member : value ∈ values) :
    ∃ offset, place value = (start + offset) % size ∧
      offset + width value ≤ totalWidth width values := by
  induction values generalizing start with
  | nil => exact absurd member List.not_mem_nil
  | cons first values inductionHypothesis =>
    obtain ⟨here, rest⟩ := laid
    rw [totalWidth_cons]
    rcases List.mem_cons.mp member with rfl | later
    · exact ⟨0, here, by omega⟩
    · obtain ⟨offset, there, within⟩ := inductionHypothesis rest later
      exact ⟨width first + offset, by rw [there, Nat.add_assoc], by omega⟩

/-- Each value starts where the one before it ends. -/
theorem LaidOut.isChain {start : Nat} {values : List Value}
    (laid : LaidOut size place width start values) :
    values.IsChain fun earlier later => place later = (place earlier + width earlier) % size := by
  induction values generalizing start with
  | nil => exact List.IsChain.nil
  | cons first values inductionHypothesis =>
    obtain ⟨here, rest⟩ := laid
    cases values with
    | nil => exact List.IsChain.singleton _
    | cons second values =>
      refine List.isChain_cons_cons.mpr ⟨?_, inductionHypothesis rest⟩
      rw [here, offset_mod]
      exact rest.1

/-- The last value ends where the row ends. -/
theorem LaidOut.getLast {start : Nat} {values : List Value} {last : Value}
    (laid : LaidOut size place width start values) (newest : values.getLast? = some last) :
    (place last + width last) % size = (start + totalWidth width values) % size := by
  induction values generalizing start with
  | nil => cases newest
  | cons first values inductionHypothesis =>
    obtain ⟨here, rest⟩ := laid
    cases values with
    | nil =>
      rw [List.getLast?_singleton] at newest
      cases newest
      rw [here, offset_mod, totalWidth_cons, totalWidth_nil, Nat.add_zero]
    | cons second values =>
      rw [List.getLast?_cons_cons] at newest
      rw [inductionHypothesis rest newest, totalWidth_cons first, Nat.add_assoc]

/-- Values that take no more than one turn do not touch each other. -/
theorem LaidOut.pairwise {start : Nat} {values : List Value}
    (laid : LaidOut size place width start values) (turn : totalWidth width values ≤ size) :
    values.Pairwise fun one other =>
      ArcsApart size (place one) (width one) (place other) (width other) := by
  induction values generalizing start with
  | nil => exact List.Pairwise.nil
  | cons first values inductionHypothesis =>
    obtain ⟨here, rest⟩ := laid
    rw [totalWidth_cons] at turn
    refine List.pairwise_cons.mpr ⟨fun other member => ?_, inductionHypothesis rest (by omega)⟩
    obtain ⟨offset, there, within⟩ := rest.of_mem member
    rw [here, there]
    exact (arcsApart_of_le (by omega) (by omega)).mod

end LaidOut

/-! ### Copies around the end of a memory -/

/-- `bytes` stored from `place` on in a ring of `size` bytes, in two pieces where the end is in
the way. -/
def splitStore (memory : Memory) (size place : Nat) (bytes : List UInt8) : Memory :=
  if bytes.length ≤ size - place then store memory place bytes
  else store (store memory place (bytes.take (size - place))) 0 (bytes.drop (size - place))

/-- `count` bytes loaded from `place` on in a ring of `size` bytes, in two pieces where the end
is in the way. -/
def splitLoad (memory : Memory) (size place count : Nat) : List UInt8 :=
  if count ≤ size - place then load memory place count
  else load memory place (size - place) ++ load memory 0 (count - (size - place))

section Split

variable {memory : Memory} {size place : Nat} {bytes : List UInt8}

/-- The bytes of the two pieces are those around the ring. -/
theorem splitLoad_eq {count : Nat} (inside : place < size) (turn : count ≤ size) :
    splitLoad memory size place count = ringList memory size place count := by
  have front : ∀ part, part ≤ size - place →
      load memory place part = ringList memory size place part := by
    intro part fits
    refine List.map_congr_left fun offset member => ?_
    have below := List.mem_range.mp member
    rw [Nat.mod_eq_of_lt (by omega)]
  unfold splitLoad
  split
  · rename_i fits
    exact front count fits
  · rename_i long
    have whole : count = (size - place) + (count - (size - place)) := by omega
    have back : load memory 0 (count - (size - place)) =
        ringList memory size (place + (size - place)) (count - (size - place)) := by
      refine List.map_congr_left fun offset member => ?_
      have below := List.mem_range.mp member
      have turned : place + (size - place) + offset = offset + size := by omega
      rw [turned, Nat.add_mod_right, Nat.mod_eq_of_lt (by omega), Nat.zero_add]
    rw [front _ (Nat.le_refl _), back, ← ringList_add, ← whole]

/-- Around the ring a split store puts the bytes one behind the other. -/
theorem splitStore_inside {offset : Nat} (inside : place < size) (turn : bytes.length ≤ size)
    (below : offset < bytes.length) :
    splitStore memory size place bytes ((place + offset) % size) = bytes.getD offset 0 := by
  unfold splitStore
  split
  · rw [Nat.mod_eq_of_lt (by omega), store_inside below]
  · rename_i long
    have taken : (bytes.take (size - place)).length = size - place := by
      rw [List.length_take]
      omega
    by_cases front : offset < size - place
    · rw [Nat.mod_eq_of_lt (by omega), store_outside, store_inside (by omega)]
      · simp only [List.getD_eq_getElem?_getD, List.getElem?_take, front, if_true]
      · refine Or.inr ?_
        rw [List.length_drop]
        omega
    · have turned : (place + offset) % size = 0 + (offset - (size - place)) := by
        rw [Nat.mod_eq_sub_mod (by omega), Nat.mod_eq_of_lt (by omega)]
        omega
      rw [turned, store_inside (by rw [List.length_drop]; omega)]
      have index : size - place + (offset - (size - place)) = offset := by omega
      simp only [List.getD_eq_getElem?_getD, List.getElem?_drop, index]

/-- A split store changes no byte of the ring but those it stores. -/
theorem splitStore_outside {address : Nat} (inside : place < size) (below : address < size)
    (outside : ¬OnArc size place bytes.length address) :
    splitStore memory size place bytes address = memory address := by
  have away : ∀ offset < bytes.length, address ≠ (place + offset) % size :=
    fun offset within same => outside ⟨offset, within, same⟩
  unfold splitStore
  split
  · refine store_outside ?_
    by_contra touched
    refine away (address - place) (by omega) ?_
    rw [Nat.mod_eq_of_lt (by omega)]
    omega
  · rw [store_outside, store_outside]
    · by_contra touched
      rw [List.length_take] at touched
      refine away (address - place) (by omega) ?_
      rw [Nat.mod_eq_of_lt (by omega)]
      omega
    · by_contra touched
      rw [List.length_drop] at touched
      refine away (size - place + address) (by omega) ?_
      have turned : place + (size - place + address) = address + size := by omega
      rw [turned, Nat.add_mod_right, Nat.mod_eq_of_lt below]

/-- What was stored around the ring is read again. -/
theorem ringList_splitStore (inside : place < size) (turn : bytes.length ≤ size) :
    ringList (splitStore memory size place bytes) size place bytes.length = bytes := by
  refine List.ext_getElem (ringList_length _ _ _ _) fun offset _ below => ?_
  simp only [ringList, List.getElem_map, List.getElem_range]
  rw [splitStore_inside inside turn below, List.getD_eq_getElem _ _ below]

/-- A store on a stretch apart does not change what is read. -/
theorem ringList_splitStore_apart {start count : Nat} (inside : place < size)
    (apart : ArcsApart size start count place bytes.length) :
    ringList (splitStore memory size place bytes) size start count =
      ringList memory size start count := by
  refine ringList_congr fun offset below => ?_
  refine splitStore_outside inside (Nat.mod_lt _ (by omega)) fun on => ?_
  exact apart _ ⟨⟨offset, below, rfl⟩, on⟩

/-- A store that does not come to the end of the ring is one around it. -/
theorem store_eq_ringStore (fits : place + bytes.length ≤ size) :
    store memory place bytes = ringStore memory size place bytes := by
  funext address
  by_cases inside : place ≤ address ∧ address < place + bytes.length
  · obtain ⟨offset, rfl⟩ := Nat.exists_eq_add_of_le inside.1
    have within : offset < bytes.length := by omega
    have here := @ringStore_last _ memory size place offset bytes within (by omega)
    rw [Nat.mod_eq_of_lt (by omega)] at here
    rw [store_inside within, here, List.getD_eq_getElem _ _ within]
  · rw [store_outside (by omega), ringStore_outside]
    rintro offset within rfl
    rw [Nat.mod_eq_of_lt (by omega)] at inside
    omega

end Split

end ExmOnvif.Library
