/-
This file proves which messages the parser of the name/value pairs cuts as it is meant
to: into the non-empty stretches between the separators, in order, with their number
as the result.

The test for an empty stretch stands only where another separator follows. The last
stretch is stored whatever is in it, so that a message that ends with a separator, and
the empty message, come apart into one row more than they have stretches. After fifty
separators the loop ends, and what stands behind is left out.
-/

import ExmOnvif.NvPair.Pairs

namespace ExmOnvif.NvPair

open Library

variable {seperator : Str} {segs : List Str}

/-! ### What the loop stores -/

/-- The stretches the loop stores within some turns. -/
def stored : Nat → List Str → List Str
  | 0, _ => []
  | _ + 1, [] => []
  | _ + 1, [last] => [last]
  | turns + 1, seg :: next :: segs =>
    if seg = [] then stored turns (next :: segs) else seg :: stored turns (next :: segs)

/-- The stretches of a text that are not empty. -/
def nonemptySegs (segs : List Str) : List Str := segs.filter fun seg => seg ≠ []

theorem nonemptySegs_nil_cons : nonemptySegs ([] :: segs) = nonemptySegs segs := rfl

theorem nonemptySegs_cons {seg : Str} (nonempty : seg ≠ []) :
    nonemptySegs (seg :: segs) = seg :: nonemptySegs segs :=
  List.filter_cons_of_pos (decide_eq_true nonempty)

theorem nonemptySegs_eq_nil_iff : nonemptySegs segs = [] ↔ ∀ seg ∈ segs, seg = [] := by
  rw [nonemptySegs, List.filter_eq_nil_iff]
  refine forall_congr' fun seg => forall_congr' fun _ => ?_
  rw [decide_eq_true_eq, not_not]

/-- The loop stores the stretches that are not empty, unless the last one is empty and it comes
that far, or it does not come to one that is not. -/
theorem stored_eq_iff {turns : Nat} (nonempty : segs ≠ []) :
    stored turns segs = nonemptySegs segs ↔
      (segs.length ≤ turns → segs.getLast? ≠ some []) ∧ ∀ seg ∈ segs.drop turns, seg = [] := by
  induction turns generalizing segs with
  | zero =>
    have beyond : ¬segs.length ≤ 0 :=
      fun none => nonempty (List.eq_nil_of_length_eq_zero (Nat.le_zero.mp none))
    rw [stored, List.drop_zero, eq_comm, nonemptySegs_eq_nil_iff]
    exact ⟨fun blank => ⟨fun within => absurd within beyond, blank⟩, And.right⟩
  | succ turns inductionHypothesis =>
    obtain ⟨seg, rest, rfl⟩ := List.exists_cons_of_ne_nil nonempty
    cases rest with
    | nil =>
      rw [stored, List.getLast?_singleton, List.drop_succ_cons, List.drop_nil]
      refine ⟨fun same => ⟨fun _ last => ?_, fun _ member => by cases member⟩, fun both => ?_⟩
      · cases last
        cases same
      · have filled : seg ≠ [] :=
          fun empty => both.1 (Nat.succ_le_succ (Nat.zero_le _)) (congrArg _ empty)
        rw [nonemptySegs_cons filled]
        rfl
    | cons next segs =>
      have later := inductionHypothesis (List.cons_ne_nil next segs)
      rw [List.getLast?_cons_cons, List.drop_succ_cons, List.length_cons,
        Nat.add_le_add_iff_right, ← later, stored]
      by_cases empty : seg = []
      · rw [if_pos empty, empty, nonemptySegs_nil_cons]
      · rw [if_neg empty, nonemptySegs_cons empty, List.cons.injEq]
        exact and_iff_right rfl

namespace Nvp

/-- From a separator on, the loop stores the stretches of what stands behind it. -/
theorem parseLoop_segs {turns : Nat} {index body : Str} {rows : List Str}
    (nonempty : seperator ≠ []) (here : strstr seperator index = some (seperator ++ body))
    (short : ∀ seg ∈ pieces seperator body, (seperator ++ seg).length < maxDataLen) :
    parseLoop seperator turns index rows =
      let done := rows ++ (stored turns (pieces seperator body)).map (seperator ++ ·)
      some (.ok done.length, done) := by
  induction turns generalizing index body rows with
  | zero =>
    rw [parseLoop, stored, List.map_nil, List.append_nil]
  | succ turns inductionHypothesis =>
    rw [parseLoop, here]
    simp only [List.drop_left]
    cases search : strstr seperator body with
    | none =>
      rw [pieces_of_none search] at short ⊢
      simp only
      rw [if_pos (short body List.mem_cons_self)]
      -- What was stored last is searched once more, and nothing is found in it.
      cases turns with
      | zero => rfl
      | succ turns =>
        rw [parseLoop, search]
        simp only
        rw [if_neg (List.append_ne_nil_of_right_ne_nil rows (List.cons_ne_nil _ _))]
        rfl
    | some found =>
      obtain ⟨seg, rest, whole, rfl, taken, _⟩ := strstr_split search
      have cut := pieces_of_some nonempty search
      rw [← taken, List.drop_left] at cut
      obtain ⟨next, others, more⟩ := List.exists_cons_of_ne_nil (pieces_ne_nil seperator rest)
      have length : (seperator ++ body).length - (seperator ++ rest).length =
          (seperator ++ seg).length := by
        rw [whole]
        simp only [List.length_append]
        omega
      have row : (seperator ++ body).take (seperator ++ seg).length = seperator ++ seg := by
        rw [whole, ← List.append_assoc, List.take_left]
      rw [cut] at short ⊢
      have again := fun rows => @inductionHypothesis body rest rows search
        fun other member => short other (List.mem_cons_of_mem _ member)
      simp only
      rw [length, row, more, stored]
      rw [more] at again
      by_cases empty : seg = []
      · rw [if_pos empty, empty, List.append_nil, if_neg (Nat.lt_irrefl _)]
        exact again rows
      · have longer : seperator.length < (seperator ++ seg).length := by
          have filled := List.length_pos_of_ne_nil empty
          rw [List.length_append]
          omega
        rw [if_neg empty, if_pos longer, if_pos (short seg List.mem_cons_self), again,
          List.append_assoc, List.map_cons, List.singleton_append]

/-! ### A whole message -/

/-- A message comes apart into the stretches between its separators that are not empty, and their
number is returned. -/
def ParsesSegments (nt : Nvp) (str : Str) : Prop :=
  let segs := nonemptySegs (pieces nt.seperator str)
  nt.parseString str = some (.ok segs.length, { nt with nvp := segs.map (nt.seperator ++ ·) })

/-- What stands behind the separator a message begins with. -/
def behind (nt : Nvp) (str : Str) : Str :=
  if nt.seperator <+: str then str.drop nt.seperator.length else str

/-- There is room for the message, its last stretch is not empty if the loop comes to it, and those
the loop does not come to are. -/
structure Readable (nt : Nvp) (str : Str) : Prop where
  fits : (nt.seperator ++ nt.behind str).length < maxCmdNum * maxDataLen
  lastSome : (pieces nt.seperator (nt.behind str)).length ≤ maxCmdNum →
    (pieces nt.seperator (nt.behind str)).getLast? ≠ some []
  restBlank : ∀ seg ∈ (pieces nt.seperator (nt.behind str)).drop maxCmdNum, seg = []

variable {nt : Nvp} {str : Str}

/-- The parser works on the message with a separator in front of it. -/
theorem msgBuf_eq : (if nt.seperator <+: str then str else nt.seperator ++ str) =
    nt.seperator ++ nt.behind str := by
  unfold behind
  split
  · rename_i front
    obtain ⟨rest, rfl⟩ := front
    rw [List.drop_left]
  · rfl

/-- A separator in front adds nothing but an empty stretch. -/
theorem pieces_behind (nonempty : nt.seperator ≠ []) :
    pieces nt.seperator str = pieces nt.seperator (nt.behind str) ∨
      pieces nt.seperator str = [] :: pieces nt.seperator (nt.behind str) := by
  unfold behind
  split
  · rename_i front
    refine Or.inr ?_
    rw [pieces_of_some nonempty (strstr_here front), Nat.sub_self, List.take_zero]
  · exact Or.inl rfl

theorem nonemptySegs_behind (nonempty : nt.seperator ≠ []) :
    nonemptySegs (pieces nt.seperator str) =
      nonemptySegs (pieces nt.seperator (nt.behind str)) := by
  rcases @pieces_behind nt str nonempty with same | more
  · rw [same]
  · rw [more, nonemptySegs_nil_cons]

theorem short_behind (nonempty : nt.seperator ≠ [])
    (short : ∀ seg ∈ pieces nt.seperator str, (nt.seperator ++ seg).length < maxDataLen) :
    ∀ seg ∈ pieces nt.seperator (nt.behind str),
      (nt.seperator ++ seg).length < maxDataLen := by
  intro seg member
  rcases @pieces_behind nt str nonempty with same | more
  · exact short seg (same ▸ member)
  · exact short seg (more ▸ List.mem_cons_of_mem _ member)

/-- What the parser does with a message whose stretches have room in their rows. -/
theorem parseString_segs (nonempty : nt.seperator ≠ [])
    (short : ∀ seg ∈ pieces nt.seperator str, (nt.seperator ++ seg).length < maxDataLen)
    (fits : (nt.seperator ++ nt.behind str).length < maxCmdNum * maxDataLen) :
    nt.parseString str =
      let segs := stored maxCmdNum (pieces nt.seperator (nt.behind str))
      some (.ok segs.length, { nt with nvp := segs.map (nt.seperator ++ ·) }) := by
  have loop := @parseLoop_segs nt.seperator maxCmdNum _ (nt.behind str) [] nonempty
    (strstr_here (List.prefix_append _ _)) (short_behind nonempty short)
  have within : ¬maxCmdNum * maxDataLen < str.length := by
    have front : str.length ≤ (nt.seperator ++ nt.behind str).length := by
      rw [← msgBuf_eq]
      split
      · exact le_refl _
      · rw [List.length_append]
        exact Nat.le_add_left _ _
    omega
  unfold parseString
  rw [if_neg within]
  simp only
  rw [msgBuf_eq, if_pos fits, loop, List.nil_append]
  simp only [Option.map_some, List.length_map]

/-- A message that has no room with its separator in front is not parsed. -/
theorem parseString_too_long {count : Nat} {second : Nvp}
    (long : ¬(nt.seperator ++ nt.behind str).length < maxCmdNum * maxDataLen) :
    nt.parseString str ≠ some (.ok count, second) := by
  intro parsed
  unfold parseString at parsed
  split at parsed
  · cases parsed
  · simp only at parsed
    rw [msgBuf_eq, if_neg long] at parsed
    cases parsed

/-- With stretches that have room in their rows, exactly the readable messages come apart as they
are meant to. -/
theorem parsesSegments_iff (nonempty : nt.seperator ≠ [])
    (short : ∀ seg ∈ pieces nt.seperator str, (nt.seperator ++ seg).length < maxDataLen) :
    nt.ParsesSegments str ↔ nt.Readable str := by
  have same := @stored_eq_iff _ maxCmdNum (pieces_ne_nil nt.seperator (nt.behind str))
  unfold ParsesSegments
  rw [nonemptySegs_behind nonempty]
  constructor
  · intro parsed
    by_cases fits : (nt.seperator ++ nt.behind str).length < maxCmdNum * maxDataLen
    · rw [parseString_segs nonempty short fits] at parsed
      have rows := congrArg Nvp.nvp (Prod.mk.inj (Option.some.inj parsed)).2
      have equal := List.map_injective_iff.mpr (List.append_right_injective nt.seperator) rows
      exact ⟨fits, (same.mp equal).1, (same.mp equal).2⟩
    · exact absurd parsed (parseString_too_long fits)
  · intro readable
    rw [parseString_segs nonempty short readable.fits,
      same.mpr ⟨readable.lastSome, readable.restBlank⟩]

/-- `a^^b` -/
def between : Str := [97, 94, 94, 98]

/-- `a^^` -/
def trailing : Str := [97, 94, 94]

theorem pieces_between : pieces create.seperator between = [[97], [98]] := by
  rw [@pieces_of_some _ _ _ between [94, 94, 98] (by decide) (by decide),
    pieces_of_none (by decide)]
  rfl

theorem pieces_trailing : pieces create.seperator trailing = [[97], []] := by
  rw [@pieces_of_some _ _ _ trailing [94, 94] (by decide) (by decide), pieces_of_none (by decide)]
  rfl

theorem parsesSegments_iff_between : create.ParsesSegments between := by
  have front : create.behind between = between := if_neg (by decide)
  refine (parsesSegments_iff (by decide) ?_).mpr ⟨?_, ?_, ?_⟩
  · rw [pieces_between]
    decide
  · rw [front]
    decide
  · rw [front, pieces_between]
    decide
  · rw [front, pieces_between]
    decide

/-- A separator at the end makes a row of its own. -/
theorem trailing_stored : create.seperator ≠ [] ∧
    (pieces create.seperator trailing).length ≤ maxCmdNum ∧
    (∀ seg ∈ pieces create.seperator trailing,
      (create.seperator ++ seg).length < maxDataLen) ∧
    ¬create.ParsesSegments trailing := by
  rw [pieces_trailing]
  refine ⟨by decide, by decide, by decide, fun parsed => ?_⟩
  have counted : create.parseString trailing =
      some (.ok 2, { create with nvp := [[94, 94, 97], [94, 94]] }) := rfl
  unfold ParsesSegments at parsed
  rw [pieces_trailing, counted] at parsed
  exact absurd parsed (by decide)

/-! ### Few stretches -/

/-- Few rows have room in the buffer. -/
theorem length_intercalate_le {segs : List Str} (nonempty : segs ≠ [])
    (short : ∀ seg ∈ segs, (seperator ++ seg).length < maxDataLen) :
    (seperator ++ seperator.intercalate segs).length ≤ segs.length * (maxDataLen - 1) := by
  induction segs with
  | nil => exact absurd rfl nonempty
  | cons seg segs inductionHypothesis =>
    have first := Nat.le_sub_one_of_lt (short seg List.mem_cons_self)
    cases segs with
    | nil =>
      rw [List.intercalate_singleton, List.length_singleton, Nat.one_mul]
      exact first
    | cons next segs =>
      have rest := inductionHypothesis (List.cons_ne_nil next segs)
        fun other member => short other (List.mem_cons_of_mem _ member)
      have whole : seperator ++ seperator.intercalate (seg :: next :: segs) =
          (seperator ++ seg) ++ (seperator ++ seperator.intercalate (next :: segs)) := by
        rw [List.intercalate_cons_cons]
        simp only [List.append_assoc]
      rw [whole, List.length_append, List.length_cons, Nat.succ_mul, Nat.add_comm]
      exact Nat.add_le_add rest first

/-- With no more stretches than the table has rows, it is the last one alone that matters. -/
theorem readable_iff_of_few (nonempty : nt.seperator ≠ [])
    (few : (pieces nt.seperator str).length ≤ maxCmdNum)
    (short : ∀ seg ∈ pieces nt.seperator str, (nt.seperator ++ seg).length < maxDataLen) :
    nt.Readable str ↔ (pieces nt.seperator str).getLast? ≠ some [] := by
  have some := pieces_ne_nil nt.seperator (nt.behind str)
  have within : (pieces nt.seperator (nt.behind str)).length ≤ maxCmdNum ∧
      (pieces nt.seperator (nt.behind str)).getLast? =
        (pieces nt.seperator str).getLast? := by
    rcases @pieces_behind nt str nonempty with same | more
    · rw [← same]
      exact ⟨few, rfl⟩
    · rw [more] at few ⊢
      exact ⟨(Nat.le_succ _).trans few, (List.getLast?_cons_of_ne_nil some).symm⟩
  have fits : (nt.seperator ++ nt.behind str).length < maxCmdNum * maxDataLen := by
    have length := length_intercalate_le some (short_behind nonempty short)
    rw [intercalate_pieces nonempty] at length
    calc (nt.seperator ++ nt.behind str).length
        ≤ (pieces nt.seperator (nt.behind str)).length * (maxDataLen - 1) := length
      _ ≤ maxCmdNum * (maxDataLen - 1) := Nat.mul_le_mul_right _ within.1
      _ < maxCmdNum * maxDataLen := by decide
  rw [← within.2]
  refine ⟨fun readable => readable.lastSome within.1, fun lastSome => ⟨fits, fun _ => lastSome, ?_⟩⟩
  rw [List.drop_eq_nil_of_le within.1]
  intro seg member
  cases member

end Nvp

end ExmOnvif.NvPair
