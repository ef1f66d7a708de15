/-
This file proves what is left in the buffer of the second stream when more is written
than has been read, and when the size of the buffer is changed while it is used.

A write goes around the ring as often as it takes, and the last turn stays. What it
returns is counted up over the turns, except for a turn that ends before the end of the
ring, which sets the count instead. A new size moves the end of the ring under the bytes
that are in it, and the two places are moved to the new end if they are behind it. There
the writer stands on a place that the reader never comes to, for the reader turns around
at the end.
-/

import Mathlib.Data.List.Nodup
import ExmOnvif.Rtimage.SecFifo

namespace ExmOnvif.Rtimage.SecBuffer

open Library

/-! ### Writing over what is there -/

/-- The buffer with bytes stored around the ring. -/
def overwrite (sec : SecBuffer) (buff : List UInt8) : SecBuffer :=
  { sec with
    buffer := ringStore sec.buffer sec.size sec.inAt buff
    inAt := (sec.inAt + buff.length) % sec.size }

/-- What a write returns, behind so many bytes. -/
def writeCount (sec : SecBuffer) (buffCnt len : Nat) : Nat :=
  if len = 0 then buffCnt
  else if sec.inAt + len < sec.size then len
  else if (sec.inAt + len) % sec.size = 0 then buffCnt + len
  else (sec.inAt + len) % sec.size

section Overwriting

variable {sec : SecBuffer} {buff left : List UInt8}

/-- The bytes in front of the end of the ring and those behind it. -/
theorem overwrite_turn (inside : sec.inAt ≤ sec.size) (long : sec.size - sec.inAt ≤ left.length) :
    overwrite { sec with
        buffer := store sec.buffer sec.inAt (left.take (sec.size - sec.inAt))
        inAt := (sec.inAt + (sec.size - sec.inAt)) % sec.size }
      (left.drop (sec.size - sec.inAt)) = sec.overwrite left := by
  have taken : (left.take (sec.size - sec.inAt)).length = sec.size - sec.inAt :=
    List.length_take_of_le long
  have memory : ringStore sec.buffer sec.size sec.inAt left =
      ringStore (store sec.buffer sec.inAt (left.take (sec.size - sec.inAt))) sec.size
        ((sec.inAt + (sec.size - sec.inAt)) % sec.size) (left.drop (sec.size - sec.inAt)) := by
    rw [@store_eq_ringStore sec.buffer sec.size sec.inAt _ (by omega), ringStore_mod]
    conv_lhs => rw [← List.take_append_drop (sec.size - sec.inAt) left, ringStore_append, taken]
  have place : ((sec.inAt + (sec.size - sec.inAt)) % sec.size +
      (left.drop (sec.size - sec.inAt)).length) % sec.size =
        (sec.inAt + left.length) % sec.size := by
    rw [Nat.mod_add_mod, List.length_drop, Nat.add_assoc, Nat.add_sub_cancel' long]
  unfold overwrite
  simp only
  rw [memory, place]

/-- The turns of a write. -/
theorem writeLoop_eq {turns buffCnt : Nat} (inside : sec.inAt < sec.size)
    (enough : left.length < turns) :
    writeLoop turns sec buffCnt left =
      some (sec.writeCount buffCnt left.length, sec.overwrite left) := by
  induction turns generalizing sec buffCnt left with
  | zero => cases enough
  | succ turns inductionHypothesis =>
    rw [writeLoop]
    by_cases nothing : left = []
    · subst nothing
      rw [if_pos rfl, writeCount, if_pos List.length_nil, overwrite, List.length_nil,
        Nat.add_zero, Nat.mod_eq_of_lt inside]
      rfl
    · have some := List.length_pos_iff.mpr nothing
      rw [if_neg nothing]
      by_cases short : left.length < sec.size - sec.inAt
      · have last : turns = turns - 1 + 1 := by omega
        simp only [if_pos short]
        rw [last, writeLoop, if_pos rfl, writeCount, if_neg (by omega), if_pos (by omega),
          @store_eq_ringStore sec.buffer sec.size sec.inAt _ (by omega), overwrite]
      · have long : sec.size - sec.inAt ≤ left.length := Nat.le_of_not_lt short
        have around : (sec.inAt + (sec.size - sec.inAt)) % sec.size = 0 := by
          rw [Nat.add_sub_cancel' (Nat.le_of_lt inside), Nat.mod_self]
        have count : (left.drop (sec.size - sec.inAt)).length =
            left.length - (sec.size - sec.inAt) := List.length_drop
        have fewer : (left.drop (sec.size - sec.inAt)).length < turns := by
          rw [count]
          omega
        simp only [if_neg short]
        rw [inductionHypothesis (by rw [around]; exact Nat.zero_lt_of_lt inside) fewer,
          overwrite_turn (Nat.le_of_lt inside) long, count]
        congr 2
        unfold writeCount
        simp only
        rw [around, if_neg (Nat.ne_of_gt some), if_neg (by omega : ¬sec.inAt + _ < sec.size)]
        have whole : sec.inAt + left.length =
            left.length - (sec.size - sec.inAt) + sec.size := by omega
        rw [whole, Nat.add_mod_right, Nat.zero_add]
        by_cases done : left.length - (sec.size - sec.inAt) = 0
        · rw [if_pos done, done, Nat.zero_mod, if_pos rfl]
          omega
        · rw [if_neg done]
          by_cases less : left.length - (sec.size - sec.inAt) < sec.size
          · rw [if_pos less, Nat.mod_eq_of_lt less, if_neg done]
          · rw [if_neg less]
            congr 1
            omega

/-- A write takes all the bytes, in so many turns as it needs. -/
theorem write_overwrite (inside : sec.inAt < sec.size) :
    sec.write buff = some (sec.writeCount 0 buff.length, sec.overwrite buff) :=
  writeLoop_eq inside (by omega)

/-- A writer at the very end of the ring first turns around. -/
theorem write_at_end (positive : 0 < sec.size) (ends : sec.inAt = sec.size) (some : buff ≠ []) :
    ∃ count, sec.write buff = Option.some (count, sec.overwrite buff) := by
  have nowhere : sec.size - sec.inAt = 0 := by omega
  have around : (sec.inAt + (sec.size - sec.inAt)) % sec.size = 0 := by
    rw [nowhere, Nat.add_zero, ends, Nat.mod_self]
  have enough : (buff.drop (sec.size - sec.inAt)).length < buff.length + 1 := by
    rw [List.length_drop]
    omega
  have long : ¬buff.length < sec.size - sec.inAt := by omega
  rw [write, writeLoop, if_neg some]
  simp only [if_neg long]
  rw [writeLoop_eq (by rw [around]; exact positive) enough,
    overwrite_turn (Nat.le_of_eq ends) (Nat.le_of_not_lt long)]
  exact ⟨_, rfl⟩

/-! ### What a write returns -/

/-- The last bytes, as many as have room, stand in front of the new place of the writer, and
nothing else has changed. -/
structure Overwritten (before : SecBuffer) (buff : List UInt8) (after : SecBuffer) : Prop where
  inAt : after.inAt = (before.inAt + buff.length) % before.size
  newest : ringList after.buffer before.size
      (after.inAt + before.size - min buff.length before.size) (min buff.length before.size) =
    buff.drop (buff.length - min buff.length before.size)
  others : ∀ place, ¬OnArc before.size
      (after.inAt + before.size - min buff.length before.size) (min buff.length before.size) place →
    after.buffer place = before.buffer place
  rest : after = { before with buffer := after.buffer, inAt := after.inAt }

/-- A write returns the number of bytes and leaves the last of them in the ring. -/
def Overwrites (sec : SecBuffer) (buff : List UInt8) : Prop :=
  ∃ after, sec.write buff = some (buff.length, after) ∧ Overwritten sec buff after

/-- The place where the last bytes begin, counted from where the writer stood. -/
theorem newest_start (positive : 0 < sec.size) (offset : Nat) :
    ((sec.inAt + buff.length) % sec.size + sec.size - min buff.length sec.size + offset) %
        sec.size =
      (sec.inAt + (buff.length - min buff.length sec.size) + offset) % sec.size := by
  have turns := Nat.div_add_mod (sec.inAt + buff.length) sec.size
  have below := Nat.mod_lt (sec.inAt + buff.length) positive
  have few := Nat.min_le_left buff.length sec.size
  have turn := Nat.min_le_right buff.length sec.size
  have whole : (sec.inAt + buff.length) % sec.size + sec.size - min buff.length sec.size +
      offset + sec.size * ((sec.inAt + buff.length) / sec.size) =
        sec.inAt + (buff.length - min buff.length sec.size) + offset + sec.size := by
    generalize (sec.inAt + buff.length) % sec.size = place at *
    generalize sec.size * ((sec.inAt + buff.length) / sec.size) = around at *
    omega
  rw [← Nat.add_mul_mod_self_left, whole, Nat.add_mod_right]

theorem overwritten_overwrite (positive : 0 < sec.size) :
    Overwritten sec buff (sec.overwrite buff) where
  inAt := rfl
  newest := by
    have last := @ringList_ringStore _ sec.buffer sec.size sec.inAt buff _
      (Nat.min_le_right buff.length sec.size) (Nat.min_le_left _ _)
    rw [← last]
    refine List.map_congr_left fun offset _ => ?_
    exact congrArg _ (newest_start positive offset)
  others := by
    intro place outside
    refine ringStore_outside fun offset inside same => outside ?_
    obtain ⟨last, below, late, there⟩ := exists_last inside positive
    have few := Nat.min_le_left buff.length sec.size
    refine ⟨last - (buff.length - min buff.length sec.size), by omega, ?_⟩
    show place = ((sec.inAt + buff.length) % sec.size + sec.size - min buff.length sec.size +
      (last - (buff.length - min buff.length sec.size))) % sec.size
    rw [newest_start positive, same, ← there]
    congr 1
    omega
  rest := rfl

/-- A write returns the number of its bytes exactly if it does not come around the end of the ring,
or ends there. -/
theorem overwrites_iff (inside : sec.inAt < sec.size) :
    sec.Overwrites buff ↔
      sec.inAt + buff.length < sec.size ∨ (sec.inAt + buff.length) % sec.size = 0 := by
  have positive := Nat.zero_lt_of_lt inside
  have counted : sec.writeCount 0 buff.length = buff.length ↔
      sec.inAt + buff.length < sec.size ∨ (sec.inAt + buff.length) % sec.size = 0 := by
    unfold writeCount
    split
    · next nothing => exact iff_of_true nothing.symm (Or.inl (by omega))
    · split
      · next short => exact iff_of_true rfl (Or.inl short)
      · next long =>
        split
        · next ends => exact iff_of_true (Nat.zero_add _) (Or.inr ends)
        · next behind =>
          refine iff_of_false (fun same => ?_) (by tauto)
          have turn := Nat.mod_le (sec.inAt + buff.length - sec.size) sec.size
          rw [Nat.mod_eq_sub_mod (by omega)] at same
          omega
  rw [← counted]
  constructor
  · rintro ⟨after, written, _⟩
    rw [write_overwrite inside] at written
    exact congrArg Prod.fst (Option.some.inj written)
  · intro same
    refine ⟨sec.overwrite buff, ?_, overwritten_overwrite positive⟩
    rw [write_overwrite inside, same]

end Overwriting

/-- A ring of four bytes with the writer at its last place. -/
def nearEnd : SecBuffer := ⟨fun _ => 0, 3, 0, 4, 0⟩

theorem overwrites_iff_to_end : nearEnd.Overwrites [1, 2, 3, 4, 5] :=
  (overwrites_iff (by decide)).mpr (Or.inr rfl)

/-- Of two bytes one goes around the end, and one is returned. -/
theorem last_turn_returned : ¬nearEnd.Overwrites [1, 2] := by
  rintro ⟨after, written, _⟩
  have returned : (nearEnd.write [1, 2]).map Prod.fst = some 2 :=
    congrArg (Option.map Prod.fst) written
  exact absurd returned (by decide)

/-! ### Another size -/

/-- `sec_buff_resize`. -/
def resize (sec : SecBuffer) (resize : Nat) : SecBuffer :=
  let size := if secMaxLen ≤ resize then secMaxLen else resize
  { sec with
    size := size
    inAt := if size ≤ sec.inAt then size else sec.inAt
    outAt := if size ≤ sec.outAt then size else sec.outAt }

/-- A size that is not clipped. -/
theorem resize_eq {sec : SecBuffer} {size : Nat} (small : size ≤ secMaxLen) :
    sec.resize size =
      { sec with size := size, inAt := min sec.inAt size, outAt := min sec.outAt size } := by
  have clipped : (if secMaxLen ≤ size then secMaxLen else size) = size := by
    split <;> omega
  have moved : ∀ place, (if size ≤ place then size else place) = min place size := by
    intro place
    split <;> omega
  rw [resize, clipped, moved, moved]

/-- What `sec_buff_remain` counts lies in these places. -/
def Unread (sec : SecBuffer) (place : Nat) : Prop :=
  if sec.outAt ≤ sec.inAt then sec.outAt ≤ place ∧ place < sec.inAt
  else sec.outAt ≤ place ∧ place < sec.size ∨ place < sec.inAt

/-- The places that a read copies from, one after the other. -/
def readPlaces (sec : SecBuffer) (count : Nat) : List Nat :=
  (List.range count).map fun offset =>
    if offset < sec.size - sec.outAt then sec.outAt + offset
    else offset - (sec.size - sec.outAt)

/-- The buffer can be used. -/
structure Usable (sec : SecBuffer) : Prop where
  positive : 0 < sec.size
  size : sec.size ≤ secMaxLen
  inAt : sec.inAt ≤ sec.size
  outAt : sec.outAt ≤ sec.size
  stop : sec.stop = 0

section Reading

variable {sec : SecBuffer} {count place : Nat}

theorem mem_readPlaces (outAt : sec.outAt ≤ sec.size) :
    place ∈ sec.readPlaces count ↔
      sec.outAt ≤ place ∧ place < sec.size ∧ place < sec.outAt + count ∨
        place + sec.size < sec.outAt + count := by
  simp only [readPlaces, List.mem_map, List.mem_range]
  constructor
  · rintro ⟨offset, inside, rfl⟩
    split <;> omega
  · rintro (⟨behind, below, inside⟩ | inside)
    · refine ⟨place - sec.outAt, by omega, ?_⟩
      rw [if_pos (by omega)]
      omega
    · refine ⟨place + (sec.size - sec.outAt), by omega, ?_⟩
      rw [if_neg (by omega)]
      omega

/-- No place is read twice within one turn. -/
theorem readPlaces_nodup (turn : count ≤ sec.size) : (sec.readPlaces count).Nodup := by
  refine List.Nodup.map_on (fun first firstInside second secondInside same => ?_)
    List.nodup_range
  rw [List.mem_range] at firstInside secondInside
  split at same <;> split at same <;> omega

/-- Bytes read in one piece. -/
theorem load_readPlaces (piece : count ≤ sec.size - sec.outAt) :
    Library.load sec.buffer sec.outAt count = (sec.readPlaces count).map sec.buffer := by
  rw [readPlaces, List.map_map]
  refine List.map_congr_left fun offset inside => ?_
  rw [List.mem_range] at inside
  rw [Function.comp_apply, if_pos (by omega)]

/-- Bytes read around the end. -/
theorem load_readPlaces_around (long : sec.size - sec.outAt ≤ count) :
    Library.load sec.buffer sec.outAt (sec.size - sec.outAt) ++
      Library.load sec.buffer 0 (count - (sec.size - sec.outAt)) =
        (sec.readPlaces count).map sec.buffer := by
  have whole : count = sec.size - sec.outAt + (count - (sec.size - sec.outAt)) := by omega
  rw [load_readPlaces (Nat.le_refl _)]
  conv_rhs => rw [whole]
  rw [readPlaces, readPlaces, List.range_add, List.map_append, List.map_append]
  congr 1
  rw [List.map_map, List.map_map]
  refine List.map_congr_left fun offset _ => ?_
  rw [Function.comp_apply, Function.comp_apply, if_neg (by omega), Nat.add_sub_cancel_left,
    Nat.zero_add]

/-- Clearing one piece changes no other places. -/
theorem clear_elsewhere (outAt : sec.outAt ≤ sec.size) (piece : count ≤ sec.size - sec.outAt)
    (outside : place ∉ sec.readPlaces count) :
    (sec.clear sec.outAt count).buffer place = sec.buffer place := by
  rw [mem_readPlaces outAt] at outside
  refine store_outside ?_
  rw [List.length_replicate]
  omega

/-- Nor does clearing around the end. -/
theorem clear_around (outAt : sec.outAt ≤ sec.size) (long : sec.size - sec.outAt ≤ count)
    (outside : place ∉ sec.readPlaces count) :
    store (sec.clear sec.outAt (sec.size - sec.outAt)).buffer 0
        (List.replicate (count - (sec.size - sec.outAt)) 0) place = sec.buffer place := by
  have front : place ∉ sec.readPlaces (sec.size - sec.outAt) := by
    rw [mem_readPlaces outAt] at outside ⊢
    omega
  rw [← clear_elsewhere outAt (Nat.le_refl _) front]
  rw [mem_readPlaces outAt] at outside
  refine store_outside (Or.inr ?_)
  rw [List.length_replicate]
  omega

/-- Going on to the end and from the beginning is going on by the whole length. -/
theorem moveOut_around (long : sec.size - sec.outAt ≤ count) (memory : Memory) :
    SecBuffer.moveOut
        { (sec.clear sec.outAt (sec.size - sec.outAt)).moveOut (sec.size - sec.outAt) with
          buffer := memory } (count - (sec.size - sec.outAt)) =
      { sec with buffer := memory, outAt := (sec.outAt + count) % sec.size } := by
  have last : ((sec.outAt + (sec.size - sec.outAt)) % sec.size +
      (count - (sec.size - sec.outAt))) % sec.size = (sec.outAt + count) % sec.size := by
    rw [Nat.mod_add_mod, Nat.add_assoc, Nat.add_sub_cancel' long]
  exact congrArg (fun outAt => (⟨memory, sec.inAt, outAt, sec.size, sec.stop⟩ : SecBuffer)) last

end Reading

/-! ### Calls that fit -/

/-- A size the buffer may be given. -/
abbrev RingSize := {size : Nat // 1 ≤ size ∧ size ≤ secMaxLen}

/-- What may be done with the buffer. -/
inductive Use where
  | write (buff : List UInt8)
  | read (len : Int)
  | resize (size : RingSize)

/-- What the code makes right. Where the unread bytes go around the end, no more than they are is
read and the end is not moved away from them; a writer at the very end is not caught up with. -/
def Fitting (sec : SecBuffer) : Use → Prop
  | .write _ => True
  | .read len => 0 ≤ len ∧ sec.outAt + len < 2 ^ 31 ∧
      if sec.outAt ≤ sec.inAt then sec.inAt < sec.size ∨ sec.outAt + len < sec.inAt
      else len ≤ sec.inAt + sec.size - sec.outAt
  | .resize size => size.1 ≤ sec.size ∨ sec.outAt ≤ sec.inAt

instance (sec : SecBuffer) : (use : Use) → Decidable (sec.Fitting use)
  | .write _ => inferInstanceAs (Decidable True)
  | .read len => inferInstanceAs (Decidable (0 ≤ len ∧ sec.outAt + len < 2 ^ 31 ∧
      if sec.outAt ≤ sec.inAt then sec.inAt < sec.size ∨ sec.outAt + len < sec.inAt
      else len ≤ sec.inAt + sec.size - sec.outAt))
  | .resize size => inferInstanceAs (Decidable (size.1 ≤ sec.size ∨ sec.outAt ≤ sec.inAt))

/-- How many bytes a read gives. -/
def readCount (sec : SecBuffer) (len : Nat) : Nat :=
  if sec.outAt ≤ sec.inAt then min len (sec.inAt - sec.outAt) else len

/-- A read gives the bytes of the places it copies from, and changes no others. -/
theorem Usable.read {sec : SecBuffer} (usable : sec.Usable) {len : Nat}
    (fitting : sec.Fitting (.read len)) :
    ∃ memory, sec.read len =
        some ((sec.readCount len : Int), (sec.readPlaces (sec.readCount len)).map sec.buffer,
          { sec with buffer := memory, outAt := (sec.outAt + sec.readCount len) % sec.size }) ∧
      ∀ place ∉ sec.readPlaces (sec.readCount len), memory place = sec.buffer place := by
  obtain ⟨_, small, known⟩ := fitting
  obtain ⟨positive, size, inAt, outAt, stop⟩ := usable
  have sum : Int.bmod (sec.outAt + len) (2 ^ 32) = sec.outAt + len := sum_eq (by omega) small
  unfold SecBuffer.read readCount
  simp only [sum, if_neg (not_not.mpr stop)]
  by_cases order : sec.outAt ≤ sec.inAt
  · rw [if_pos order, if_pos order]
    by_cases less : (sec.outAt : Int) + len ≤ sec.inAt
    · have all : min len (sec.inAt - sec.outAt) = len := by omega
      rw [if_pos less, all, copyOut_eq _ (by omega), Int.toNat_natCast,
        load_readPlaces (by omega)]
      exact ⟨_, rfl, fun _ => clear_elsewhere outAt (by omega)⟩
    · have some : min len (sec.inAt - sec.outAt) = sec.inAt - sec.outAt := by omega
      rw [if_neg less, some, copyOut_eq _ (by omega), load_readPlaces (by omega)]
      exact ⟨_, rfl, fun _ => clear_elsewhere outAt (by omega)⟩
  · rw [if_neg order] at known
    rw [if_neg order, if_neg order]
    by_cases less : (sec.outAt : Int) + len ≤ sec.size
    · rw [if_pos less, copyOut_eq _ (by omega), Int.toNat_natCast, load_readPlaces (by omega)]
      exact ⟨_, rfl, fun _ _ => rfl⟩
    · have long : sec.size - sec.outAt ≤ len := by omega
      have rest : (len : Int) - ((sec.size - sec.outAt : Nat) : Int) =
          ((len - (sec.size - sec.outAt) : Nat) : Int) := by omega
      have total : ((sec.size - sec.outAt : Nat) : Int) +
          ((len - (sec.size - sec.outAt) : Nat) : Int) = len := by omega
      have turned : Library.load (sec.clear sec.outAt (sec.size - sec.outAt)).buffer 0
          (len - (sec.size - sec.outAt)) =
            Library.load sec.buffer 0 (len - (sec.size - sec.outAt)) :=
        load_store_apart _ (by omega)
      rw [if_neg less, copyOut_eq _ (by omega), rest, total, Int.toNat_natCast]
      simp only [Option.bind_eq_bind, Option.bind_some]
      rw [copyOut_eq _ (by omega), Option.bind_some]
      refine ⟨_, congrArg some (congrArg (Prod.mk _)
        (congrArg₂ Prod.mk ?_ (moveOut_around long _))), fun _ => clear_around outAt long⟩
      rw [← load_readPlaces_around long, ← turned]
      rfl

section Moving

variable {sec : SecBuffer} {len place : Nat}

/-- Where the reader stands after a read that fits. -/
theorem Usable.readCount_le (usable : sec.Usable) (fitting : sec.Fitting (.read len)) :
    sec.readCount len ≤ sec.size ∧
      (sec.outAt ≤ sec.inAt →
        (sec.outAt + sec.readCount len) % sec.size = sec.outAt + sec.readCount len ∧
          sec.outAt + sec.readCount len ≤ sec.inAt) ∧
      (sec.inAt < sec.outAt →
        sec.outAt + sec.readCount len < sec.size ∧
            (sec.outAt + sec.readCount len) % sec.size = sec.outAt + sec.readCount len ∨
          sec.size ≤ sec.outAt + sec.readCount len ∧
            (sec.outAt + sec.readCount len) % sec.size + sec.size =
              sec.outAt + sec.readCount len ∧
            sec.outAt + sec.readCount len ≤ sec.inAt + sec.size) := by
  obtain ⟨_, _, known⟩ := fitting
  obtain ⟨_, _, inAt, outAt, _⟩ := usable
  unfold readCount
  by_cases order : sec.outAt ≤ sec.inAt
  · rw [if_pos order] at known ⊢
    refine ⟨by omega, fun _ => ⟨Nat.mod_eq_of_lt (by omega), by omega⟩, fun turned => ?_⟩
    exact absurd order (Nat.not_le.mpr turned)
  · rw [if_neg order] at known ⊢
    refine ⟨by omega, fun straight => absurd straight order, fun _ => ?_⟩
    by_cases less : sec.outAt + len < sec.size
    · exact Or.inl ⟨less, Nat.mod_eq_of_lt less⟩
    · refine Or.inr ⟨by omega, ?_, by omega⟩
      rw [Nat.mod_eq_sub_mod (by omega), Nat.mod_eq_of_lt (by omega)]
      omega

/-- A read copies from unread places. -/
theorem Usable.unread_of_read (usable : sec.Usable) (fitting : sec.Fitting (.read len))
    (copied : place ∈ sec.readPlaces (sec.readCount len)) : sec.Unread place := by
  obtain ⟨_, straight, turned⟩ := usable.readCount_le fitting
  have inAt := usable.inAt
  rw [mem_readPlaces usable.outAt] at copied
  unfold Unread
  by_cases order : sec.outAt ≤ sec.inAt
  · have within := (straight order).2
    rw [if_pos order]
    omega
  · have within := turned (Nat.lt_of_not_le order)
    rw [if_neg order]
    omega

/-- What is unread after a read was unread before, and was not copied. -/
theorem Usable.unread_after_read (usable : sec.Usable) (fitting : sec.Fitting (.read len))
    {memory : Memory}
    (unread : Unread { sec with
      buffer := memory
      outAt := (sec.outAt + sec.readCount len) % sec.size } place) :
    sec.Unread place ∧ place ∉ sec.readPlaces (sec.readCount len) := by
  obtain ⟨_, straight, turned⟩ := usable.readCount_le fitting
  have inAt := usable.inAt
  rw [mem_readPlaces usable.outAt]
  unfold Unread at unread ⊢
  simp only at unread
  by_cases order : sec.outAt ≤ sec.inAt
  · obtain ⟨there, within⟩ := straight order
    rw [there, if_pos within] at unread
    rw [if_pos order]
    omega
  · rw [if_neg order]
    rcases turned (Nat.lt_of_not_le order) with ⟨front, there⟩ | ⟨around, there, within⟩
    · rw [there, if_neg (by omega)] at unread
      omega
    · rw [if_pos (by omega)] at unread
      omega

/-- What is unread after a write was unread before, or has just been written. -/
theorem Usable.unread_after_write (usable : sec.Usable) {buff : List UInt8}
    (unread : (sec.overwrite buff).Unread place)
    (untouched : ¬OnArc sec.size sec.inAt buff.length place) : sec.Unread place := by
  obtain ⟨positive, _, inAt, outAt, _⟩ := usable
  have below : place < sec.size := by
    have turned : (sec.inAt + buff.length) % sec.size < sec.size := Nat.mod_lt _ positive
    unfold Unread overwrite at unread
    simp only at unread
    split at unread <;> omega
  have behind : sec.inAt ≤ place → sec.inAt + buff.length ≤ place := by
    intro order
    by_contra less
    refine untouched ⟨place - sec.inAt, by omega, ?_⟩
    rw [Nat.add_sub_cancel' order, Nat.mod_eq_of_lt below]
  have before : place < sec.inAt → sec.inAt + buff.length ≤ place + sec.size := by
    intro order
    by_contra less
    have whole : sec.inAt + (place + sec.size - sec.inAt) = place + sec.size := by omega
    refine untouched ⟨place + sec.size - sec.inAt, by omega, ?_⟩
    rw [whole, Nat.add_mod_right, Nat.mod_eq_of_lt below]
  unfold Unread overwrite at unread
  simp only at unread
  unfold Unread
  by_cases turn : sec.inAt + buff.length < sec.size
  · rw [Nat.mod_eq_of_lt turn] at unread
    split at unread <;> split <;> omega
  · rw [Nat.mod_eq_sub_mod (by omega), Nat.mod_eq_of_lt (by omega)] at unread
    split at unread <;> split <;> omega

/-- What is unread after another size was unread before. -/
theorem Usable.unread_after_resize (usable : sec.Usable) {size : RingSize}
    (fitting : sec.Fitting (.resize size)) (unread : (sec.resize size.1).Unread place) :
    sec.Unread place := by
  have inAt := usable.inAt
  have outAt := usable.outAt
  rw [resize_eq size.2.2] at unread
  unfold Fitting at fitting
  unfold Unread at unread ⊢
  simp only at fitting unread
  split at unread <;> split <;> omega

end Moving

/-! ### Where the bytes come from -/

/-- The buffer, with the bytes that were written, with the number of the byte that each place
holds if it has not been delivered, and with the bytes that were delivered. -/
structure Traced where
  sec : SecBuffer
  written : List UInt8
  origin : Nat → Option Nat
  delivered : List (UInt8 × Option Nat)

namespace Traced

/-- After `sec_buff_init`. -/
def init (buffer : Memory) : Traced := ⟨SecBuffer.init buffer, [], fun _ => none, []⟩

/-- One use of the buffer, if it has a result. -/
def use (traced : Traced) : Use → Option Traced
  | .write buff => do
    let (_, after) ← traced.sec.write buff
    some { traced with
      sec := after
      written := traced.written ++ buff
      origin := ringStore traced.origin traced.sec.size traced.sec.inAt
        ((List.range' traced.written.length buff.length).map some) }
  | .read len => do
    let (_, data, after) ← traced.sec.read len
    let places := traced.sec.readPlaces data.length
    some { traced with
      sec := after
      origin := fun place => if place ∈ places then none else traced.origin place
      delivered := traced.delivered ++ data.zip (places.map traced.origin) }
  | .resize size => some { traced with sec := traced.sec.resize size.1 }

/-- Places and count are within the size, and every delivered byte is one that was written and not
delivered before. -/
structure Honest (traced : Traced) : Prop where
  inAt : traced.sec.inAt ≤ traced.sec.size
  outAt : traced.sec.outAt ≤ traced.sec.size
  remain : traced.sec.remain ≤ traced.sec.size
  written : ∀ entry ∈ traced.delivered, ∃ index,
    entry.2 = some index ∧ traced.written[index]? = some entry.1
  once : (traced.delivered.map Prod.snd).Nodup

/-- What the uses that fit keep. -/
structure Sound (traced : Traced) : Prop where
  usable : traced.sec.Usable
  holds : ∀ place index, traced.origin place = some index →
    traced.written[index]? = some (traced.sec.buffer place)
  single : ∀ place other index, traced.origin place = some index →
    traced.origin other = some index → place = other
  kept : ∀ place index, traced.origin place = some index →
    some index ∉ traced.delivered.map Prod.snd
  unread : ∀ place, traced.sec.Unread place → (traced.origin place).isSome
  written : ∀ entry ∈ traced.delivered, ∃ index,
    entry.2 = some index ∧ traced.written[index]? = some entry.1
  once : (traced.delivered.map Prod.snd).Nodup

theorem Sound.honest {traced : Traced} (sound : traced.Sound) : traced.Honest where
  inAt := sound.usable.inAt
  outAt := sound.usable.outAt
  remain := by
    have inAt := sound.usable.inAt
    unfold remain
    split <;> omega
  written := sound.written
  once := sound.once

theorem sound_init (buffer : Memory) : (init buffer).Sound where
  usable := ⟨show 0 < secMaxLen - 1 by decide, show secMaxLen - 1 ≤ secMaxLen by decide,
    Nat.zero_le _, Nat.zero_le _, rfl⟩
  holds := fun _ _ origin => nomatch origin
  single := fun _ _ _ origin => nomatch origin
  kept := fun _ _ origin => nomatch origin
  unread := by
    rintro place ⟨_, nothing⟩
    exact absurd nothing (Nat.not_lt_zero _)
  written := fun _ member => absurd member List.not_mem_nil
  once := List.nodup_nil

/-- The number of a byte that is not delivered is that of a written one. -/
theorem Sound.index_lt {traced : Traced} (sound : traced.Sound) {place index : Nat}
    (origin : traced.origin place = some index) : index < traced.written.length :=
  (List.getElem?_eq_some_iff.mp (sound.holds place index origin)).1

section Writing

variable {traced : Traced} {buff : List UInt8}

/-- The state after bytes have been stored around the ring. -/
def overwrite (traced : Traced) (buff : List UInt8) : Traced :=
  { traced with
    sec := traced.sec.overwrite buff
    written := traced.written ++ buff
    origin := ringStore traced.origin traced.sec.size traced.sec.inAt
      ((List.range' traced.written.length buff.length).map some) }

/-- What a write leaves in a place. -/
theorem overwrite_place (positive : 0 < traced.sec.size) (place : Nat) :
    (∃ last, ∃ inside : last < buff.length,
      place = (traced.sec.inAt + last) % traced.sec.size ∧
      (traced.overwrite buff).origin place = some (traced.written.length + last) ∧
      (traced.overwrite buff).sec.buffer place = buff[last]) ∨
    ¬OnArc traced.sec.size traced.sec.inAt buff.length place ∧
      (traced.overwrite buff).origin place = traced.origin place ∧
      (traced.overwrite buff).sec.buffer place = traced.sec.buffer place := by
  have numbers : ((List.range' traced.written.length buff.length).map some).length =
      buff.length := by
    rw [List.length_map, List.length_range']
  by_cases arc : OnArc traced.sec.size traced.sec.inAt buff.length place
  · obtain ⟨offset, inside, rfl⟩ := arc
    obtain ⟨last, below, late, same⟩ := exists_last inside positive
    have number := @ringStore_last _ traced.origin traced.sec.size traced.sec.inAt last
      ((List.range' traced.written.length buff.length).map some)
      (by rw [numbers]; exact below) (by rw [numbers]; exact late)
    rw [List.getElem_map, List.getElem_range', Nat.one_mul] at number
    rw [← same]
    exact Or.inl ⟨last, below, rfl, number, ringStore_last below late⟩
  · refine Or.inr ⟨arc, ringStore_outside fun offset inside same => ?_,
      ringStore_outside fun offset inside same => arc ⟨offset, inside, same⟩⟩
    rw [numbers] at inside
    exact arc ⟨offset, inside, same⟩

/-- A number behind a write is one of the new ones, or an earlier one that was left. -/
theorem Sound.number_overwrite (sound : traced.Sound) {place index : Nat}
    (origin : (traced.overwrite buff).origin place = some index) :
    (∃ last, ∃ inside : last < buff.length, index = traced.written.length + last ∧
      place = (traced.sec.inAt + last) % traced.sec.size ∧
      (traced.overwrite buff).sec.buffer place = buff[last]) ∨
    index < traced.written.length ∧ traced.origin place = some index ∧
      (traced.overwrite buff).sec.buffer place = traced.sec.buffer place := by
  rcases @overwrite_place traced buff sound.usable.positive place with
    ⟨last, inside, here, number, byte⟩ | ⟨_, same, kept⟩
  · rw [number] at origin
    cases origin
    exact Or.inl ⟨last, inside, rfl, here, byte⟩
  · rw [same] at origin
    exact Or.inr ⟨sound.index_lt origin, origin, kept⟩

theorem Sound.overwrite (sound : traced.Sound) : (traced.overwrite buff).Sound where
  usable :=
    { sound.usable with inAt := Nat.le_of_lt (Nat.mod_lt _ sound.usable.positive) }
  holds := by
    intro place index origin
    show (traced.written ++ buff)[_]? = _
    rcases sound.number_overwrite origin with
      ⟨last, inside, rfl, -, byte⟩ | ⟨older, origin, kept⟩
    · rw [byte, List.getElem?_append_right (Nat.le_add_right _ _), Nat.add_sub_cancel_left,
        List.getElem?_eq_getElem inside]
    · rw [kept, List.getElem?_append_left older]
      exact sound.holds place index origin
  single := by
    intro place other index first second
    rcases sound.number_overwrite first with
      ⟨last, _, number, here, _⟩ | ⟨older, origin, _⟩
    · rcases sound.number_overwrite second with
        ⟨otherLast, _, otherNumber, there, _⟩ | ⟨older, _, _⟩
      · have equal : otherLast = last := by omega
        rw [here, there, equal]
      · omega
    · rcases sound.number_overwrite second with
        ⟨otherLast, _, otherNumber, _, _⟩ | ⟨_, otherOrigin, _⟩
      · omega
      · exact sound.single place other index origin otherOrigin
  kept := by
    intro place index origin delivered
    rcases sound.number_overwrite origin with ⟨last, _, rfl, _, _⟩ | ⟨_, origin, _⟩
    · obtain ⟨entry, member, equal⟩ := List.mem_map.mp delivered
      obtain ⟨index, known, byte⟩ := sound.written entry member
      have older := (List.getElem?_eq_some_iff.mp byte).1
      rw [known] at equal
      have newer := Option.some.inj equal
      omega
    · exact sound.kept place index origin delivered
  unread := by
    intro place unread
    rcases @overwrite_place traced buff sound.usable.positive place with
      ⟨_, _, _, number, _⟩ | ⟨untouched, same, _⟩
    · rw [number]
      rfl
    · rw [same]
      exact sound.unread place (sound.usable.unread_after_write unread untouched)
  written := by
    intro entry member
    obtain ⟨index, known, byte⟩ := sound.written entry member
    refine ⟨index, known, ?_⟩
    show (traced.written ++ buff)[_]? = _
    rw [List.getElem?_append_left (List.getElem?_eq_some_iff.mp byte).1, byte]
  once := sound.once

/-- A write has a result, whatever the length, and the bytes are in the ring. -/
theorem Sound.write (sound : traced.Sound) :
    ∃ after, traced.use (.write buff) = some after ∧ after.Sound := by
  by_cases nothing : buff = []
  · subst nothing
    refine ⟨{ traced with written := traced.written ++ [] }, rfl, ?_⟩
    rw [List.append_nil]
    exact sound
  · have written : ∃ count, traced.sec.write buff = some (count, traced.sec.overwrite buff) := by
      rcases Nat.lt_or_eq_of_le sound.usable.inAt with inside | ends
      · exact ⟨_, write_overwrite inside⟩
      · exact write_at_end sound.usable.positive ends nothing
    obtain ⟨count, written⟩ := written
    refine ⟨traced.overwrite buff, ?_, sound.overwrite⟩
    rw [use, written]
    rfl

end Writing

section Reading

variable {traced : Traced} {len : Nat}

/-- The state after the bytes of so many places have been delivered, with the places left behind
that were cleared. -/
def deliver (traced : Traced) (memory : Memory) (count : Nat) : Traced :=
  { traced with
    sec := { traced.sec with
      buffer := memory, outAt := (traced.sec.outAt + count) % traced.sec.size }
    origin := fun place =>
      if place ∈ traced.sec.readPlaces count then none else traced.origin place
    delivered := traced.delivered ++ (traced.sec.readPlaces count).map fun place =>
      (traced.sec.buffer place, traced.origin place) }

/-- Behind a read the places that were copied hold nothing, and the others what they held. -/
theorem deliver_origin {memory : Memory} {count place index : Nat}
    (origin : (traced.deliver memory count).origin place = some index) :
    place ∉ traced.sec.readPlaces count ∧ traced.origin place = some index := by
  unfold Traced.deliver at origin
  simp only at origin
  split at origin
  · cases origin
  · next outside => exact ⟨outside, origin⟩

theorem delivered_numbers (memory : Memory) (count : Nat) :
    (traced.deliver memory count).delivered.map Prod.snd =
      traced.delivered.map Prod.snd ++ (traced.sec.readPlaces count).map traced.origin := by
  unfold Traced.deliver
  simp only [List.map_append, List.map_map, Function.comp_def]

theorem Sound.deliver (sound : traced.Sound) (fitting : traced.sec.Fitting (.read len))
    {memory : Memory}
    (others : ∀ place ∉ traced.sec.readPlaces (traced.sec.readCount len),
      memory place = traced.sec.buffer place) :
    (traced.deliver memory (traced.sec.readCount len)).Sound := by
  have numbered : ∀ place ∈ traced.sec.readPlaces (traced.sec.readCount len), ∃ index,
      traced.origin place = some index := fun place copied =>
    Option.isSome_iff_exists.mp
      (sound.unread place (sound.usable.unread_of_read fitting copied))
  refine
    { usable := { sound.usable with
        outAt := Nat.le_of_lt (Nat.mod_lt _ sound.usable.positive) }
      holds := ?_, single := ?_, kept := ?_, unread := ?_, written := ?_, once := ?_ }
  · intro place index origin
    obtain ⟨outside, same⟩ := deliver_origin origin
    show traced.written[index]? = some (memory place)
    rw [others place outside]
    exact sound.holds place index same
  · intro place other index first second
    exact sound.single place other index (deliver_origin first).2 (deliver_origin second).2
  · intro place index origin delivered
    obtain ⟨outside, same⟩ := deliver_origin origin
    rw [delivered_numbers] at delivered
    rcases List.mem_append.mp delivered with earlier | now
    · exact sound.kept place index same earlier
    · obtain ⟨other, copied, equal⟩ := List.mem_map.mp now
      exact outside (sound.single other place index equal same ▸ copied)
  · intro place unread
    obtain ⟨before, outside⟩ := sound.usable.unread_after_read fitting unread
    unfold Traced.deliver
    simp only
    rw [if_neg outside]
    exact sound.unread place before
  · intro entry member
    rcases List.mem_append.mp member with earlier | now
    · exact sound.written entry earlier
    · obtain ⟨place, copied, rfl⟩ := List.mem_map.mp now
      obtain ⟨index, number⟩ := numbered place copied
      exact ⟨index, number, sound.holds place index number⟩
  · rw [delivered_numbers]
    refine List.nodup_append.mpr ⟨sound.once, ?_, ?_⟩
    · refine List.Nodup.map_on (fun first firstCopied second _ same => ?_)
        (readPlaces_nodup (sound.usable.readCount_le fitting).1)
      obtain ⟨index, number⟩ := numbered first firstCopied
      exact sound.single first second index number (same ▸ number)
    · rintro number earlier _ now rfl
      obtain ⟨place, copied, equal⟩ := List.mem_map.mp now
      obtain ⟨index, known⟩ := numbered place copied
      rw [known] at equal
      rw [← equal] at earlier
      exact sound.kept place index known earlier

/-- A read that fits has a result. -/
theorem Sound.read (sound : traced.Sound) (fitting : traced.sec.Fitting (.read len)) :
    ∃ after, traced.use (.read len) = some after ∧ after.Sound := by
  obtain ⟨memory, result, others⟩ := sound.usable.read fitting
  refine ⟨_, ?_, sound.deliver fitting others⟩
  have count : ((traced.sec.readPlaces (traced.sec.readCount len)).map
      traced.sec.buffer).length = traced.sec.readCount len := by
    rw [List.length_map, readPlaces, List.length_map, List.length_range]
  rw [use, result]
  simp only [Option.bind_eq_bind, Option.bind_some]
  rw [count, List.zip_map']
  rfl

end Reading

theorem Sound.resize {traced : Traced} (sound : traced.Sound) {size : RingSize}
    (fitting : traced.sec.Fitting (.resize size)) :
    Sound { traced with sec := traced.sec.resize size.1 } := by
  have resized := @resize_eq traced.sec size.1 size.2.2
  refine
    { sound with
      usable := ?_
      holds := ?_
      unread := fun place unread =>
        sound.unread place (sound.usable.unread_after_resize fitting unread) }
  · show (traced.sec.resize size.1).Usable
    rw [resized]
    exact ⟨size.2.1, size.2.2, Nat.min_le_right _ _, Nat.min_le_right _ _, sound.usable.stop⟩
  · show ∀ place index, _ → traced.written[index]? = some ((traced.sec.resize size.1).buffer place)
    rw [resized]
    exact sound.holds

/-- A use that fits has a result, and keeps what it has to. -/
theorem Sound.use {traced : Traced} (sound : traced.Sound) {use : Use}
    (fitting : traced.sec.Fitting use) : ∃ after, traced.use use = some after ∧ after.Sound := by
  cases use with
  | write buff => exact sound.write
  | read len =>
    obtain ⟨len, rfl⟩ := Int.eq_ofNat_of_zero_le fitting.1
    exact sound.read fitting
  | resize size => exact ⟨_, rfl, sound.resize fitting⟩

/-- In runs of uses that fit, nothing is delivered that was not written, and nothing twice, and
every use that fits has a result. -/
theorem honest_of_fitting {buffer : Memory} {uses : List Use} {traced : Traced}
    (run : Runs (fun before use after => before.use use = some after ∧ before.sec.Fitting use)
      (init buffer) uses traced) :
    traced.Honest ∧ ∀ use, traced.sec.Fitting use → ∃ after, traced.use use = some after := by
  have sound : traced.Sound := by
    refine run.invariant (sound_init buffer) fun before use after taken sound => ?_
    obtain ⟨other, same, kept⟩ := sound.use taken.2
    rw [taken.1] at same
    cases same
    exact kept
  refine ⟨sound.honest, fun use fitting => ?_⟩
  obtain ⟨after, result, _⟩ := sound.use fitting
  exact ⟨after, result⟩

/-- Three bytes are written, the size is made four, and the bytes are read around the end. -/
theorem honest_of_fitting_resized :
    ∃ traced, Traced.Honest traced ∧ traced.delivered =
      [(1, some 0), (2, some 1), (3, some 2), (4, some 3), (5, some 4)] := by
  obtain ⟨traced, run, delivered⟩ := @Runs.of_any_guarded _ _ (init fun _ => 0) use
    (fun before use => before.sec.Fitting use) _
    [.write [1, 2, 3], .resize ⟨4, by decide⟩, .read 2, .write [4, 5], .read 3]
    (fun traced => traced.delivered =
      [(1, some 0), (2, some 1), (3, some 2), (4, some 3), (5, some 4)]) (by decide +kernel)
  exact ⟨traced, (honest_of_fitting run).1, of_decide_eq_true delivered⟩

/-- With the writer at the new end, the byte that was read is read again. -/
theorem resized_read_twice :
    ¬∀ buffer uses traced, Runs (fun before use after => before.use use = some after)
      (init buffer) uses traced → traced.Honest := by
  intro honest
  obtain ⟨traced, run, delivered⟩ := @Runs.of_any _ _ (init fun _ => 0) use
    [.write [1], .resize ⟨1, by decide⟩, .read 1, .read 1]
    (fun traced => traced.delivered = [(1, some 0), (0, none)]) (by decide)
  have entries := (honest _ _ _ run).written
  rw [of_decide_eq_true delivered] at entries
  obtain ⟨index, number, _⟩ := entries (0, none) (by decide)
  cases number

end Traced

end ExmOnvif.Rtimage.SecBuffer
