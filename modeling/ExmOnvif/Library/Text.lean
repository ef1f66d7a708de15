/-
This file is about searching one string in another, as the C library does it: the
search returns the rest of the string from the first place on where the pattern
begins.

A stretch of the string that has no character of the pattern is skipped by the
search. This is what makes a row of fields with marks between them come apart again
where it was put together. The last lemmas are about what stands at the end of a text,
behind its last separator or within a given length.
-/

import Mathlib.Data.List.Basic
import Mathlib.Data.List.DropRight
import Mathlib.Data.List.Infix

namespace ExmOnvif.Library

/-- A string of characters, without its terminator. -/
abbrev Text := List Char

variable {Value : Type} {pattern : List Value}

/-- A string that begins with a character the pattern has not does not begin with the pattern. -/
theorem not_prefix_of_notMem {value : Value} {rest : List Value} (nonempty : pattern ≠ [])
    (foreign : value ∉ pattern) : ¬pattern <+: value :: rest := by
  intro front
  cases pattern with
  | nil => exact nonempty rfl
  | cons first pattern =>
    obtain ⟨same, _⟩ := List.cons_prefix_cons.mp front
    exact foreign (same ▸ List.mem_cons_self)

/-- Two words with no character of a mark that are followed by it are the same word. -/
theorem eq_of_marked {mark first second left right : List Value} (nonempty : mark ≠ [])
    (clear : ∀ value ∈ first, value ∉ mark) (otherClear : ∀ value ∈ second, value ∉ mark)
    (same : first ++ (mark ++ left) = second ++ (mark ++ right)) : first = second := by
  induction first generalizing second with
  | nil =>
    cases second with
    | nil => rfl
    | cons value second =>
      cases mark with
      | nil => exact absurd rfl nonempty
      | cons head mark =>
        rw [List.nil_append, List.cons_append, List.cons_append] at same
        have equal := (List.cons.inj same).1
        exact absurd (equal ▸ List.mem_cons_self) (otherClear value List.mem_cons_self)
  | cons value first inductionHypothesis =>
    cases second with
    | nil =>
      cases mark with
      | nil => exact absurd rfl nonempty
      | cons head mark =>
        rw [List.nil_append, List.cons_append, List.cons_append] at same
        have equal := (List.cons.inj same).1
        exact absurd (equal ▸ List.mem_cons_self) (clear value List.mem_cons_self)
    | cons other second =>
      rw [List.cons_append, List.cons_append] at same
      obtain ⟨equal, rest⟩ := List.cons.inj same
      rw [equal, inductionHypothesis (fun v m => clear v (List.mem_cons_of_mem _ m))
        (fun v m => otherClear v (List.mem_cons_of_mem _ m)) rest]

/-- Whether a string begins with a pattern does not depend on what follows a mark that the
pattern has not. -/
theorem prefix_marked {mark : Value} {body rest : List Value} (foreign : mark ∉ pattern) :
    pattern <+: body ++ mark :: rest ↔ pattern <+: body := by
  induction pattern generalizing body with
  | nil => exact iff_of_true List.nil_prefix List.nil_prefix
  | cons first pattern inductionHypothesis =>
    cases body with
    | nil =>
      refine iff_of_false (fun front => ?_) fun front => by cases List.prefix_nil.mp front
      exact foreign ((List.cons_prefix_cons.mp front).1 ▸ List.mem_cons_self)
    | cons value body =>
      rw [List.cons_append, List.cons_prefix_cons, List.cons_prefix_cons,
        inductionHypothesis fun member => foreign (List.mem_cons_of_mem _ member)]

/-! ### Searching -/

variable [DecidableEq Value]

/-- `strstr`: the rest of the string from the first place on where the pattern begins. -/
def strstr (pattern : List Value) : List Value → Option (List Value)
  | [] => if pattern = [] then some [] else none
  | value :: rest =>
    if pattern <+: value :: rest then some (value :: rest) else strstr pattern rest

theorem strstr_nil (nonempty : pattern ≠ []) : strstr pattern [] = none := by
  rw [strstr, if_neg nonempty]

theorem strstr_here {text : List Value} (front : pattern <+: text) :
    strstr pattern text = some text := by
  cases text with
  | nil => rw [strstr, if_pos (List.prefix_nil.mp front)]
  | cons value rest => rw [strstr, if_pos front]

/-- A stretch without the first character of the pattern is skipped. -/
theorem strstr_skip_first {first : Value} {body rest : List Value}
    (foreign : ∀ value ∈ body, value ≠ first) :
    strstr (first :: pattern) (body ++ rest) = strstr (first :: pattern) rest := by
  induction body with
  | nil => rfl
  | cons value body inductionHypothesis =>
    have elsewhere : ¬first :: pattern <+: value :: (body ++ rest) := fun front =>
      foreign value List.mem_cons_self (List.cons_prefix_cons.mp front).1.symm
    rw [List.cons_append, strstr, if_neg elsewhere]
    exact inductionHypothesis fun other member => foreign other (List.mem_cons_of_mem _ member)

/-- A stretch with no character of the pattern is skipped. -/
theorem strstr_skip {body rest : List Value} (nonempty : pattern ≠ [])
    (foreign : ∀ value ∈ body, value ∉ pattern) :
    strstr pattern (body ++ rest) = strstr pattern rest := by
  cases pattern with
  | nil => exact absurd rfl nonempty
  | cons first pattern =>
    refine strstr_skip_first fun value member same => foreign value member ?_
    rw [same]
    exact List.mem_cons_self

/-- A string with no character of the pattern does not hold it. -/
theorem strstr_none {text : List Value} (nonempty : pattern ≠ [])
    (foreign : ∀ value ∈ text, value ∉ pattern) : strstr pattern text = none := by
  have skipped := @strstr_skip Value pattern _ text [] nonempty foreign
  rw [List.append_nil] at skipped
  rw [skipped, strstr_nil nonempty]

/-- A string with a mark in it that the pattern has not is searched in front of the mark, and
then behind it. -/
theorem strstr_marked {mark : Value} {body rest : List Value} (foreign : mark ∉ pattern) :
    strstr pattern (body ++ mark :: rest) =
      match strstr pattern body with
      | some found => some (found ++ mark :: rest)
      | none => strstr pattern rest := by
  induction body with
  | nil =>
    by_cases empty : pattern = []
    · rw [empty, strstr_here List.nil_prefix, strstr_here List.nil_prefix]
    · rw [strstr_nil empty, List.nil_append, strstr,
        if_neg (not_prefix_of_notMem empty foreign)]
  | cons value body inductionHypothesis =>
    rw [List.cons_append, strstr, strstr, ← List.cons_append]
    by_cases front : pattern <+: value :: body
    · rw [if_pos front, if_pos ((prefix_marked foreign).mpr front)]
    · rw [if_neg front, if_neg (mt (prefix_marked foreign).mp front)]
      exact inductionHypothesis

/-- What is found is the end of the string, and begins with the pattern. -/
theorem strstr_found {text found : List Value} (search : strstr pattern text = some found) :
    found <:+ text ∧ pattern <+: found := by
  induction text with
  | nil =>
    rw [strstr] at search
    split at search
    · rename_i empty
      cases search
      exact ⟨List.suffix_refl _, empty ▸ List.nil_prefix⟩
    · cases search
  | cons value rest inductionHypothesis =>
    rw [strstr] at search
    split at search
    · rename_i front
      cases search
      exact ⟨List.suffix_refl _, front⟩
    · obtain ⟨behind, front⟩ := inductionHypothesis search
      exact ⟨behind.trans (List.suffix_cons _ _), front⟩

/-- The search stays where it is exactly when the string begins with the pattern. -/
theorem strstr_eq_self_iff {text : List Value} :
    strstr pattern text = some text ↔ pattern <+: text :=
  ⟨fun search => (strstr_found search).2, strstr_here⟩

/-- What is found begins at the first place where the pattern does. -/
theorem strstr_eq_some_iff {front rest : List Value} :
    strstr pattern (front ++ rest) = some rest ↔
      pattern <+: rest ∧ ∀ place < front.length, ¬pattern <+: (front ++ rest).drop place := by
  induction front with
  | nil =>
    rw [List.nil_append, strstr_eq_self_iff]
    exact ⟨fun here => ⟨here, fun _ below => absurd below (Nat.not_lt_zero _)⟩, And.left⟩
  | cons value front inductionHypothesis =>
    rw [List.cons_append, strstr]
    by_cases here : pattern <+: value :: (front ++ rest)
    · rw [if_pos here]
      refine iff_of_false (fun same => ?_) fun both => both.2 0 (Nat.succ_pos _) here
      have length := congrArg List.length (Option.some.inj same)
      rw [List.length_cons, List.length_append] at length
      omega
    · rw [if_neg here, inductionHypothesis]
      refine and_congr_right fun _ => ⟨fun nowhere place below => ?_, fun nowhere place below =>
        nowhere (place + 1) (Nat.succ_lt_succ below)⟩
      cases place with
      | zero => exact here
      | succ place => exact nowhere place (Nat.lt_of_succ_lt_succ below)

/-- Whether the pattern is found first where it was put does not depend on what follows it. -/
theorem strstr_followed_iff {front rest : List Value} :
    strstr pattern (front ++ (pattern ++ rest)) = some (pattern ++ rest) ↔
      strstr pattern (front ++ pattern) = some pattern := by
  rw [strstr_eq_some_iff, strstr_eq_some_iff]
  refine and_congr (iff_of_true (List.prefix_append _ _) (List.prefix_refl _)) ?_
  refine forall_congr' fun place => forall_congr' fun below => not_congr ?_
  have whole : (front ++ (pattern ++ rest)).drop place = (front ++ pattern).drop place ++ rest := by
    rw [← List.append_assoc, List.drop_append_of_le_length]
    rw [List.length_append]
    omega
  rw [whole]
  refine ⟨fun found => ?_, fun found => found.trans (List.prefix_append _ _)⟩
  refine List.prefix_of_prefix_length_le found (List.prefix_append _ _) ?_
  rw [List.length_drop, List.length_append]
  omega

/-- A pattern that is there is found, there or before. -/
theorem strstr_ne_none (front rest : List Value) :
    strstr pattern (front ++ (pattern ++ rest)) ≠ none := by
  induction front with
  | nil =>
    rw [List.nil_append, strstr_here (List.prefix_append _ _)]
    exact Option.some_ne_none _
  | cons value front inductionHypothesis =>
    rw [List.cons_append, strstr]
    split
    · exact Option.some_ne_none _
    · exact inductionHypothesis

/-- What is found has the pattern in front of something shorter than the string. -/
theorem strstr_split {text found : List Value} (search : strstr pattern text = some found) :
    ∃ front rest, text = front ++ (pattern ++ rest) ∧ found = pattern ++ rest ∧
      front = text.take (text.length - found.length) ∧ rest = found.drop pattern.length := by
  obtain ⟨⟨front, whole⟩, ⟨rest, rfl⟩⟩ := strstr_found search
  refine ⟨front, rest, whole.symm, rfl, ?_, (List.drop_left ..).symm⟩
  have length : text.length - (pattern ++ rest).length = front.length := by
    rw [← whole, List.length_append, Nat.add_sub_cancel]
  rw [length, ← whole, List.take_left]

/-! ### Pieces -/

/-- The pieces of a text between marks, each mark found first from where the last one ended. -/
def pieces (mark text : List Value) : List (List Value) :=
  if mark = [] then [text]
  else
    match _found : strstr mark text with
    | none => [text]
    | some rest =>
      text.take (text.length - rest.length) :: pieces mark (rest.drop mark.length)
termination_by text.length
decreasing_by
  obtain ⟨front, behind, rfl, rfl, -, -⟩ := strstr_split _found
  rename_i nonempty
  have some := List.length_pos_of_ne_nil nonempty
  simp only [List.drop_left, List.length_append]
  omega

theorem pieces_of_none {mark text : List Value} (search : strstr mark text = none) :
    pieces mark text = [text] := by
  rw [pieces]
  split
  · rfl
  · split
    · rfl
    · rename_i found
      rw [search] at found
      cases found

theorem pieces_of_some {mark text rest : List Value} (nonempty : mark ≠ [])
    (search : strstr mark text = some rest) :
    pieces mark text =
      text.take (text.length - rest.length) :: pieces mark (rest.drop mark.length) := by
  rw [pieces, if_neg nonempty]
  split
  · rename_i found
    rw [search] at found
    cases found
  · rename_i found
    rw [search] at found
    cases found
    rfl

theorem pieces_ne_nil (mark text : List Value) : pieces mark text ≠ [] := by
  rw [pieces]
  split
  · exact List.cons_ne_nil _ _
  · split <;> exact List.cons_ne_nil _ _

/-- A text is its pieces with the mark between them. -/
theorem intercalate_pieces {mark : List Value} (nonempty : mark ≠ []) (text : List Value) :
    mark.intercalate (pieces mark text) = text := by
  induction text using WellFounded.induction (measure List.length).wf with
  | _ text inductionHypothesis =>
    cases search : strstr mark text with
    | none =>
      rw [pieces_of_none search, List.intercalate_singleton]
    | some found =>
      obtain ⟨front, rest, whole, rfl, taken, _⟩ := strstr_split search
      have shorter : rest.length < text.length := by
        have some := List.length_pos_of_ne_nil nonempty
        rw [whole, List.length_append, List.length_append]
        omega
      obtain ⟨piece, others, same⟩ := List.exists_cons_of_ne_nil (pieces_ne_nil mark rest)
      have again := inductionHypothesis rest shorter
      rw [pieces_of_some nonempty search, ← taken, List.drop_left, same,
        List.intercalate_cons_cons, ← same, again]
      rw [whole, List.append_assoc]

/-! ### Up to a mark -/

section Mark

variable {mark : Value} {front rest : List Value}

theorem takeWhile_mark (absent : mark ∉ front) :
    (front ++ mark :: rest).takeWhile (fun value => decide (value ≠ mark)) = front := by
  have clear : ∀ value ∈ front, decide (value ≠ mark) = true :=
    fun value member => decide_eq_true fun same => absent (same ▸ member)
  have stops : ¬decide (mark ≠ mark) = true := by
    rw [decide_eq_true_eq, not_not]
  rw [List.takeWhile_append_of_pos clear, List.takeWhile_cons_of_neg
    (p := fun value => decide (value ≠ mark)) stops, List.append_nil]

theorem dropWhile_mark (absent : mark ∉ front) :
    (front ++ mark :: rest).dropWhile (fun value => decide (value ≠ mark)) = mark :: rest := by
  have clear : ∀ value ∈ front, decide (value ≠ mark) = true :=
    fun value member => decide_eq_true fun same => absent (same ▸ member)
  have stops : ¬decide (mark ≠ mark) = true := by
    rw [decide_eq_true_eq, not_not]
  rw [List.dropWhile_append_of_pos clear, List.dropWhile_cons_of_neg
    (p := fun value => decide (value ≠ mark)) stops]

end Mark

/-! ### The end of a text -/

section End

variable {Symbol : Type} {keep : Symbol → Bool} {front body : List Symbol}

/-- What is kept whole at the end is kept with what is kept before it. -/
theorem rtakeWhile_append_of_all (kept : ∀ symbol ∈ body, keep symbol = true) :
    (front ++ body).rtakeWhile keep = front.rtakeWhile keep ++ body := by
  have all : ∀ symbol ∈ body.reverse, keep symbol = true :=
    fun symbol member => kept symbol (List.mem_reverse.mp member)
  unfold List.rtakeWhile
  rw [List.reverse_append, List.takeWhile_append_of_pos all, List.reverse_append,
    List.reverse_reverse]

/-- The part of a text behind its last separator. -/
theorem rtakeWhile_behind {mark : Symbol} (dropped : keep mark = false)
    (kept : ∀ symbol ∈ body, keep symbol = true) :
    (front ++ mark :: body).rtakeWhile keep = body := by
  have here : (front ++ [mark]).rtakeWhile keep = [] :=
    List.rtakeWhile_concat_neg keep front mark (Bool.eq_false_iff.mp dropped)
  rw [← List.singleton_append, ← List.append_assoc, rtakeWhile_append_of_all kept, here,
    List.nil_append]

/-- The last part of a text, by its length. -/
theorem rtake_append {count : Nat} (length : body.length = count) :
    (front ++ body).rtake count = body := by
  unfold List.rtake
  exact List.drop_left' (by rw [List.length_append]; omega)

theorem rtake_of_length_le {count : Nat} (short : body.length ≤ count) :
    body.rtake count = body := by
  unfold List.rtake
  rw [Nat.sub_eq_zero_of_le short, List.drop_zero]

end End

end ExmOnvif.Library
