/-
This file is about the two functions that move a reader's place, `MShmPoolMvUsrPlace` and
`MShmPoolMvNewPlace`. Their loops step first and look for the head or the tail behind each step.

From every other place that is right: the reader comes as far as it is asked to, or to the end.
A reader that stands at the end it is moved towards steps over it, and goes on almost a whole turn
of the ring, or as far as it is asked to, over elements that are not in the pool.
-/

import ExmOnvif.Pool.Backlog

namespace ExmOnvif.Pool

open Library

namespace ShPool

/-- `MShmPoolMvNewPlace`, the same loops without the lock. -/
def mvNewPlace (pool : ShPool) (userno : Nat) (place : Int) : Nat × ShPool :=
  let moved :=
    if place < 0 then movePlace olderEle pool.head place.natAbs 0 (pool.users userno).curele
    else movePlace newerEle pool.tail place.natAbs 0 (pool.users userno).curele
  (moved.1,
    { pool with
      users := Function.update pool.users userno { pool.users userno with curele := moved.2 } })

/-- A call with an `int`. The lowest one has no negation, and `num=-place` overflows. -/
def calledWith (move : Int → Nat × ShPool) (place : Int32) : Option (Nat × ShPool) :=
  if place = Int32.minValue then none else some (move place.toInt)

/-- The reader's place lies between head and tail. -/
structure Between (pool : ShPool) (userno : Nat) : Prop where
  head : pool.head < maxEle
  tail : pool.tail < maxEle
  curele : (pool.users userno).curele < maxEle
  within : gap maxEle pool.head (pool.users userno).curele ≤ gap maxEle pool.head pool.tail

/-- The elements from the reader's place to the end it is moved towards. -/
def distanceToEnd (pool : ShPool) (userno : Nat) (place : Int) : Nat :=
  if place < 0 then gap maxEle pool.head (pool.users userno).curele
  else gap maxEle (pool.users userno).curele pool.tail

/-- The elements from the reader's place before to the one after, in the direction asked for. -/
def elesMoved (before after : ShPool) (userno : Nat) (place : Int) : Nat :=
  if place < 0 then gap maxEle (after.users userno).curele (before.users userno).curele
  else gap maxEle (before.users userno).curele (after.users userno).curele

/-- Both functions move the reader as far as it is asked for and the end allows, return how far,
and leave it between head and tail. -/
def MovesBounded (pool : ShPool) (userno : Nat) (place : Int32) : Prop :=
  ∃ moved after, calledWith (pool.mvUsrPlace userno) place = some (moved, after) ∧
    calledWith (pool.mvNewPlace userno) place = some (moved, after) ∧
    moved = min place.toInt.natAbs (pool.distanceToEnd userno place.toInt) ∧
    elesMoved pool after userno place.toInt = moved ∧ after.Between userno

/-- The two functions agree. -/
theorem mvNewPlace_eq (pool : ShPool) (userno : Nat) (place : Int) :
    pool.mvNewPlace userno place = pool.mvUsrPlace userno place := rfl

/-- The pool with the reader put at a place. -/
def putAt (pool : ShPool) (userno cur : Nat) : ShPool :=
  { pool with
    users := Function.update pool.users userno { pool.users userno with curele := cur } }

theorem putAt_curele (pool : ShPool) (userno cur : Nat) :
    ((pool.putAt userno cur).users userno).curele = cur := by
  simp only [putAt, Function.update_self]

section Move

variable {pool : ShPool} {userno : Nat} {place : Int} (between : pool.Between userno)

include between

/-- The function on a place between head and tail. -/
theorem mvUsrPlace_older (back : place < 0) :
    pool.mvUsrPlace userno place =
      (min place.natAbs (stepsTo pool.head (pool.users userno).curele),
        pool.putAt userno (((pool.users userno).curele + maxEle -
          min place.natAbs (stepsTo pool.head (pool.users userno).curele)) % maxEle)) := by
  simp only [mvUsrPlace, if_pos back, movePlace_older between.head between.curele, Nat.zero_add]
  rfl

theorem mvUsrPlace_newer (forward : ¬place < 0) :
    pool.mvUsrPlace userno place =
      (min place.natAbs (stepsTo (pool.users userno).curele pool.tail),
        pool.putAt userno (((pool.users userno).curele +
          min place.natAbs (stepsTo (pool.users userno).curele pool.tail)) % maxEle)) := by
  simp only [mvUsrPlace, if_neg forward, movePlace_newer between.tail between.curele, Nat.zero_add]
  rfl

/-- From head to tail by way of the reader. -/
theorem gap_between : gap maxEle pool.head (pool.users userno).curele +
    gap maxEle (pool.users userno).curele pool.tail = gap maxEle pool.head pool.tail := by
  have within := between.within
  have forward := gap_forward between.head between.tail within
  rw [add_gap between.head between.curele] at forward
  omega

theorem putAt_between {cur : Nat} (below : cur < maxEle)
    (within : gap maxEle pool.head cur ≤ gap maxEle pool.head pool.tail) :
    (pool.putAt userno cur).Between userno := by
  refine ⟨between.head, between.tail, ?_, ?_⟩
  · rw [putAt_curele]
    exact below
  · rw [putAt_curele]
    exact within

/-- Put back over no more elements than there are up to the head. -/
theorem putAt_older {moved : Nat}
    (few : moved ≤ gap maxEle pool.head (pool.users userno).curele) :
    gap maxEle (((pool.users userno).curele + maxEle - moved) % maxEle)
        (pool.users userno).curele = moved ∧
      (pool.putAt userno (((pool.users userno).curele + maxEle - moved) % maxEle)).Between
        userno := by
  have below := between.curele
  have turn : gap maxEle pool.head (pool.users userno).curele < maxEle :=
    Nat.mod_lt _ (Nat.succ_pos _)
  have same : gap maxEle (pool.users userno).curele (pool.users userno).curele = 0 := by
    rw [gap, Nat.add_sub_cancel_left, Nat.mod_self]
  have back : gap maxEle (((pool.users userno).curele + maxEle - moved) % maxEle)
      (pool.users userno).curele = moved := by
    rw [gap_backward below below (by omega), same, Nat.zero_add]
  have left : gap maxEle pool.head (((pool.users userno).curele + maxEle - moved) % maxEle) ≤
      gap maxEle pool.head (pool.users userno).curele := by
    have head := between.head
    unfold gap maxEle at *
    omega
  exact ⟨back, putAt_between between (Nat.mod_lt _ (Nat.succ_pos _)) (left.trans between.within)⟩

/-- Put forward over no more elements than there are up to the tail. -/
theorem putAt_newer {moved : Nat}
    (few : moved ≤ gap maxEle (pool.users userno).curele pool.tail) :
    gap maxEle (pool.users userno).curele (((pool.users userno).curele + moved) % maxEle) =
        moved ∧
      (pool.putAt userno (((pool.users userno).curele + moved) % maxEle)).Between userno := by
  have below := between.curele
  have whole := gap_between between
  have turn : gap maxEle pool.head pool.tail < maxEle := Nat.mod_lt _ (Nat.succ_pos _)
  have passed : gap maxEle pool.head (((pool.users userno).curele + moved) % maxEle) =
      gap maxEle pool.head (pool.users userno).curele + moved := by
    refine gap_unique between.head (by omega) ?_
    rw [← Nat.add_assoc, ← offset_mod, add_gap between.head below]
  refine ⟨gap_unique below (by omega) rfl, ?_⟩
  refine putAt_between between (Nat.mod_lt _ (Nat.succ_pos _)) ?_
  omega

/-- A place asked for in front of the head, or behind the tail, is not between them. -/
theorem moved_of_end (apart : place ≠ 0)
    (stands : (pool.users userno).curele = if place < 0 then pool.head else pool.tail) :
    pool.distanceToEnd userno place = 0 ∧ (pool.mvUsrPlace userno place).1 ≠ 0 := by
  have same : gap maxEle (pool.users userno).curele (pool.users userno).curele = 0 := by
    rw [gap, Nat.add_sub_cancel_left, Nat.mod_self]
  have asked : 0 < place.natAbs := Int.natAbs_pos.mpr apart
  by_cases back : place < 0
  · rw [if_pos back] at stands
    rw [distanceToEnd, if_pos back, mvUsrPlace_older between back, ← stands, same]
    exact ⟨rfl, Nat.ne_of_gt (Nat.lt_min.mpr ⟨asked, Nat.succ_pos _⟩)⟩
  · rw [if_neg back] at stands
    rw [distanceToEnd, if_neg back, mvUsrPlace_newer between back, ← stands, same]
    exact ⟨rfl, Nat.ne_of_gt (Nat.lt_min.mpr ⟨asked, Nat.succ_pos _⟩)⟩

/-- From every other place it moves right. -/
theorem mvUsrPlace_bounded (away : place ≠ 0 →
      (pool.users userno).curele ≠ if place < 0 then pool.head else pool.tail) :
    (pool.mvUsrPlace userno place).1 = min place.natAbs (pool.distanceToEnd userno place) ∧
      elesMoved pool (pool.mvUsrPlace userno place).2 userno place =
        (pool.mvUsrPlace userno place).1 ∧
      (pool.mvUsrPlace userno place).2.Between userno := by
  by_cases back : place < 0
  · have apart : pool.head ≠ (pool.users userno).curele := by
      have stands := away (Int.ne_of_lt back)
      rw [if_pos back] at stands
      exact stands.symm
    have steps := stepsTo_of_ne between.head between.curele apart
    obtain ⟨moved, kept⟩ := putAt_older between (Nat.min_le_right place.natAbs _)
    rw [mvUsrPlace_older between back, distanceToEnd, elesMoved, if_pos back, if_pos back, steps]
    refine ⟨rfl, ?_, kept⟩
    rw [putAt_curele, moved]
  · have steps : min place.natAbs (stepsTo (pool.users userno).curele pool.tail) =
        min place.natAbs (gap maxEle (pool.users userno).curele pool.tail) := by
      by_cases still : place = 0
      · rw [still, Int.natAbs_zero, Nat.zero_min, Nat.zero_min]
      · have stands := away still
        rw [if_neg back] at stands
        rw [stepsTo_of_ne between.curele between.tail stands]
    obtain ⟨moved, kept⟩ := putAt_newer between (Nat.min_le_right place.natAbs _)
    rw [mvUsrPlace_newer between back, distanceToEnd, elesMoved, if_neg back, if_neg back, steps]
    refine ⟨rfl, ?_, kept⟩
    rw [putAt_curele, moved]

end Move

/-- A reader that stands at the end it is moved towards is not moved right. -/
theorem Between.not_movesBounded {pool : ShPool} {userno : Nat} (between : pool.Between userno)
    {place : Int32} (asked : place.toInt ≠ 0)
    (stands : (pool.users userno).curele =
      if place.toInt < 0 then pool.head else pool.tail) :
    ¬pool.MovesBounded userno place := by
  rintro ⟨moved, after, called, _, few, _, _⟩
  obtain ⟨none, some⟩ := moved_of_end between asked stands
  rw [calledWith] at called
  split at called
  · cases called
  · rw [none, Nat.min_zero] at few
    rw [few, Option.some.injEq] at called
    exact some (congrArg Prod.fst called)

/-- For every place between head and tail: both functions move it right if and only if the `int`
has a negation and the reader does not stand at the end it is moved towards. -/
theorem Between.movesBounded_iff {pool : ShPool} {userno : Nat} (between : pool.Between userno)
    (place : Int32) :
    pool.MovesBounded userno place ↔ place ≠ Int32.minValue ∧
      (place.toInt < 0 → (pool.users userno).curele ≠ pool.head) ∧
      (0 < place.toInt → (pool.users userno).curele ≠ pool.tail) := by
  have away : (place.toInt < 0 → (pool.users userno).curele ≠ pool.head) ∧
        (0 < place.toInt → (pool.users userno).curele ≠ pool.tail) ↔
      (place.toInt ≠ 0 → (pool.users userno).curele ≠
        if place.toInt < 0 then pool.head else pool.tail) := by
    rcases Int.lt_trichotomy place.toInt 0 with back | still | forward
    · simp only [back, Int.ne_of_lt back, Int.not_lt.mpr (Int.le_of_lt back), if_true, ne_eq,
        not_false_eq_true, true_imp_iff, false_imp_iff, and_true]
    · simp only [still, Int.lt_irrefl, ne_eq, not_true_eq_false, false_imp_iff, and_self]
    · simp only [forward, Int.ne_of_gt forward, Int.not_lt.mpr (Int.le_of_lt forward), if_false,
        ne_eq, not_false_eq_true, true_imp_iff, false_imp_iff, true_and]
  rw [away]
  constructor
  · intro bounded
    refine ⟨fun lowest => ?_, fun asked stands => between.not_movesBounded asked stands bounded⟩
    obtain ⟨moved, after, called, _⟩ := bounded
    rw [calledWith, if_pos lowest] at called
    cases called
  · rintro ⟨defined, apart⟩
    obtain ⟨few, moved, kept⟩ := mvUsrPlace_bounded between apart
    refine ⟨_, _, if_neg defined, ?_, few, moved, kept⟩
    rw [calledWith, if_neg defined, mvNewPlace_eq]
    rfl

end ShPool

namespace Net

/-- The first reader of a new pool stands at its head, which is also its tail. -/
theorem onePageRead_between : onePageRead.pool.Between firstReader :=
  ⟨by decide, by decide, by decide, by decide⟩

/-- Between two frames a reader is moved right in both directions, by any number of places. -/
theorem movesBounded_iff_between_frames :
    ∃ net, Run onePage [.req, .add ⟨[1, 2, 3], 7, fun _ => 1⟩, .add ⟨[4, 5], 7, fun _ => 1⟩,
        .semReq firstReader, .take firstReader 16] net ∧
      net.pool.MovesBounded firstReader (-5) ∧ net.pool.MovesBounded firstReader 5 := by
  obtain ⟨net, run, facts⟩ := @Runs.of_any Net Label onePage step
    [.req, .add ⟨[1, 2, 3], 7, fun _ => 1⟩, .add ⟨[4, 5], 7, fun _ => 1⟩, .semReq firstReader,
      .take firstReader 16]
    (fun net => decide (net.pool.head = 0 ∧ net.pool.tail = 2 ∧
      (net.pool.users firstReader).curele = 1)) (by decide +kernel)
  obtain ⟨head, tail, place⟩ := of_decide_eq_true facts
  have between : net.pool.Between firstReader := by
    refine ⟨?_, ?_, ?_, ?_⟩
    all_goals simp only [head, tail, place]
    all_goals decide
  refine ⟨net, run, (between.movesBounded_iff (-5)).mpr ?_, (between.movesBounded_iff 5).mpr ?_⟩
  all_goals
    rw [place, head, tail]
    decide

/-- Moved one element on, it steps over the tail of the empty pool. -/
theorem moved_past_tail :
    created 4096 4096 (-1) = .ok onePage ∧ onePage.step .req = some onePageRead ∧
      onePageRead.pool.Between firstReader ∧ ¬onePageRead.pool.MovesBounded firstReader 1 := by
  refine ⟨created_onePage, step_onePage, onePageRead_between, ?_⟩
  exact onePageRead_between.not_movesBounded (by decide) (by decide)

end Net

end ExmOnvif.Pool
