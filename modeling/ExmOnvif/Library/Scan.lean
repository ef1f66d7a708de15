/-
This file is about scans: from a place a scan either goes on to a next place or stops
there. The places it comes to from a place lie on one line, so that it stops at one
place at most.

A program that carries a scan out in turns, with a state of its own, ends with a result
for the place where the scan stops, once each of its turns does what the scan does. Where the
places are numbered, it ends at the first of those where it stops, or not at all.
-/

import Mathlib.Data.Nat.Find

namespace ExmOnvif.Library

variable {Place State Result : Type}

/-- The places a scan comes to. -/
inductive Comes (step : Place → Option Place) : Place → Place → Prop
  | here {place : Place} : Comes step place place
  | further {place next last : Place} : step place = some next → Comes step next last →
      Comes step place last

namespace Comes

variable {step : Place → Option Place} {place middle last : Place}

/-- The place behind one that a scan comes to is one, too. -/
theorem snoc (way : Comes step place middle) (taken : step middle = some last) :
    Comes step place last := by
  induction way with
  | here => exact .further taken .here
  | further first _ inductionHypothesis => exact .further first (inductionHypothesis taken)

/-- A scan that stops comes to that place from every place on its way. -/
theorem behind (stops : step last = none) (way : Comes step place last)
    (first : Comes step place middle) : Comes step middle last := by
  induction first with
  | here => exact way
  | further taken _ inductionHypothesis =>
    refine inductionHypothesis ?_
    cases way with
    | here =>
      rw [stops] at taken
      cases taken
    | further other rest =>
      rw [taken] at other
      cases other
      exact rest

/-- A scan stops at one place only. -/
theorem unique {other : Place} (stops : step last = none) (otherStops : step other = none)
    (way : Comes step place last) (otherWay : Comes step place other) : last = other := by
  cases behind otherStops otherWay way with
  | here => rfl
  | further taken _ =>
    rw [stops] at taken
    cases taken

end Comes

/-! ### Programs that scan -/

/-- Repeats a turn until it gives a result. A turn may also fail. -/
def scan (turn : State → Option (State ⊕ Result)) : Nat → State → Option Result
  | 0, _ => none
  | turns + 1, state =>
    match turn state with
    | none => none
    | some (.inl next) => scan turn turns next
    | some (.inr result) => some result

theorem scan_next {turn : State → Option (State ⊕ Result)} {state next : State} (turns : Nat)
    (taken : turn state = some (.inl next)) :
        scan turn (turns + 1) state = scan turn turns next := by
  rw [scan, taken]

theorem scan_result {turn : State → Option (State ⊕ Result)} {state : State} {result : Result}
    (turns : Nat) (taken : turn state = some (.inr result)) :
    scan turn (turns + 1) state = some result := by
  rw [scan, taken]

/-- The turns of a program follow a scan: they do not fail, they go on where the scan goes on, and
give a result of a kind where it stops. -/
def Follows (turn : State → Option (State ⊕ Result)) (step : Place → Option Place)
    (at_ : State → Place → Prop) (gives : Place → Result → Prop) : Prop :=
  ∀ state place, at_ state place →
    (∃ next place', turn state = some (.inl next) ∧ step place = some place' ∧ at_ next place') ∨
      ∃ result, turn state = some (.inr result) ∧ step place = none ∧ gives place result

/-- A program that follows a scan ends with a result for the place where the scan stops. -/
theorem scan_ends {turn : State → Option (State ⊕ Result)} {step : Place → Option Place}
    {at_ : State → Place → Prop} {gives : Place → Result → Prop} {measure : Place → Nat}
    {turns : Nat} {state : State} {place : Place} (follows : Follows turn step at_ gives)
    (smaller : ∀ place next, step place = some next → measure next < measure place)
    (enough : measure place < turns) (start : at_ state place) :
    ∃ result last, scan turn turns state = some result ∧ Comes step place last ∧
      step last = none ∧ gives last result := by
  induction turns generalizing state place with
  | zero => exact absurd enough (Nat.not_lt_zero _)
  | succ turns inductionHypothesis =>
    rw [scan]
    rcases follows state place start with ⟨next, further, taken, goes, there⟩
      | ⟨result, ended, stops, given⟩
    · rw [taken]
      have less := smaller place further goes
      obtain ⟨result, last, scanned, way, stops, given⟩ :=
        inductionHypothesis (Nat.lt_of_lt_of_le less (Nat.le_of_lt_succ enough)) there
      exact ⟨result, last, scanned, .further goes way, stops, given⟩
    · rw [ended]
      exact ⟨result, place, rfl, .here, stops, given⟩

/-! ### Programs that take items off a list -/

/-- A program that takes one item off a list in each turn comes behind the list, with what each
item leaves. -/
theorem scan_items {Item : Type} {turn : State → Option (State ⊕ Result)}
    {ready : State → List Item → Prop} {after : State → Item → State}
    (takes : ∀ state item items, ready state (item :: items) →
      turn state = some (.inl (after state item)) ∧ ready (after state item) items)
    {items : List Item} {state : State} (start : ready state items) (turns : Nat) :
    scan turn (items.length + turns) state = scan turn turns (items.foldl after state) ∧
      ready (items.foldl after state) [] := by
  induction items generalizing state with
  | nil =>
    rw [List.length_nil, Nat.zero_add]
    exact ⟨rfl, start⟩
  | cons item items inductionHypothesis =>
    obtain ⟨taken, there⟩ := takes state item items start
    rw [List.length_cons, Nat.add_right_comm, scan, taken]
    exact inductionHypothesis there

/-! ### Programs that go through stages -/

/-- The turns of a program go through numbered stages, stop at some of them with a result of a
kind, and do not fail. -/
structure Staged (turn : State → Option (State ⊕ Result)) (stage : Nat → State → Prop)
    (stops : Nat → Prop) (gives : Nat → Result → Prop) : Prop where
  goes : ∀ place state, stage place state → ¬stops place →
    ∃ next, turn state = some (.inl next) ∧ stage (place + 1) next
  ends : ∀ place state, stage place state → stops place →
    ∃ result, turn state = some (.inr result) ∧ gives place result

/-- The first of some places. -/
theorem exists_first {stops : Nat → Prop} (any : ∃ place, stops place) :
    ∃ first, stops first ∧ ∀ earlier < first, ¬stops earlier := by
  classical
  exact ⟨Nat.find any, Nat.find_spec any, fun _ before => Nat.find_min any before⟩

section Staged

variable {turn : State → Option (State ⊕ Result)} {stage : Nat → State → Prop}
  {stops : Nat → Prop} {gives : Nat → Result → Prop} (staged : Staged turn stage stops gives)
  {place turns : Nat} {state : State}

include staged

/-- The program ends at the first stage where it stops. -/
theorem Staged.scan_stops {last : Nat} (here : stage place state) (ahead : place ≤ last)
    (enough : last < place + turns) (stop : stops last)
    (first : ∀ earlier < last, ¬stops earlier) :
    ∃ result, scan turn turns state = some result ∧ gives last result := by
  induction turns generalizing place state with
  | zero => exact absurd enough (Nat.not_lt.mpr ahead)
  | succ turns inductionHypothesis =>
    rw [scan]
    rcases Nat.eq_or_lt_of_le ahead with rfl | before
    · obtain ⟨result, ended, given⟩ := staged.ends place state here stop
      rw [ended]
      exact ⟨result, rfl, given⟩
    · obtain ⟨next, further, there⟩ := staged.goes place state here (first place before)
      rw [further]
      refine inductionHypothesis there before ?_
      rw [Nat.add_right_comm]
      exact enough

/-- While it does not stop it comes to no end. -/
theorem Staged.scan_goes_on (here : stage place state)
    (on : ∀ later < place + turns, ¬stops later) : scan turn turns state = none := by
  induction turns generalizing place state with
  | zero => rfl
  | succ turns inductionHypothesis =>
    rw [scan]
    obtain ⟨next, further, there⟩ :=
      staged.goes place state here (on place (Nat.lt_add_of_pos_right (Nat.succ_pos _)))
    rw [further]
    refine inductionHypothesis there fun later before => on later ?_
    rw [Nat.add_right_comm] at before
    exact before

/-- So where it ends it is at the first stage where it stops. -/
theorem Staged.scan_some {result : Result} (here : stage 0 state)
    (ended : scan turn turns state = some result) :
    ∃ last, stops last ∧ (∀ earlier < last, ¬stops earlier) ∧ gives last result := by
  have any : ∃ last, stops last ∧ last < turns := by
    by_contra none
    rw [staged.scan_goes_on here fun later before stop =>
      none ⟨later, stop, Nat.lt_of_lt_of_eq before (Nat.zero_add turns)⟩] at ended
    cases ended
  obtain ⟨some, stop, before⟩ := any
  obtain ⟨last, first, earlier⟩ := exists_first ⟨some, stop⟩
  have within : last < 0 + turns := by
    rw [Nat.zero_add]
    refine Nat.lt_of_le_of_lt (Nat.le_of_not_lt fun less => ?_) before
    exact earlier some less stop
  obtain ⟨other, same, given⟩ :=
    staged.scan_stops here (Nat.zero_le _) within first earlier
  rw [Option.some.inj (ended.symm.trans same)]
  exact ⟨last, first, earlier, given⟩

end Staged

end ExmOnvif.Library
