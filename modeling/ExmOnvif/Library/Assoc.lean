/-
This file is about lists of keys with values as a store: a key is set where it stands, or behind
all the others when it is not there. What such a store returns after any number of settings is
the value set last, and it has as many entries as there are different keys.
-/

import Mathlib.Data.List.Dedup
import Mathlib.Data.List.Induction
import Mathlib.Data.List.Nodup

namespace ExmOnvif.Library

variable {Key Value : Type} [DecidableEq Key]

/-- The entries with a key set to a value. -/
def upsert (key : Key) (value : Value) : List (Key × Value) → List (Key × Value)
  | [] => [(key, value)]
  | pair :: pairs => if pair.1 = key then (key, value) :: pairs else pair :: upsert key value pairs

/-- A store in which keys were set one after the other. -/
def upsertAll (pairs : List (Key × Value)) (calls : List (Key × Value)) : List (Key × Value) :=
  calls.foldl (fun store call => upsert call.1 call.2 store) pairs

/-! ### One key -/

section Upsert

variable {key : Key} {value : Value} {pairs : List (Key × Value)}

theorem mem_keys_upsert {other : Key} :
    other ∈ (upsert key value pairs).map Prod.fst ↔ other ∈ pairs.map Prod.fst ∨ other = key := by
  induction pairs with
  | nil => simp only [upsert, List.map_cons, List.map_nil, List.mem_singleton, List.not_mem_nil,
      false_or]
  | cons pair pairs inductionHypothesis =>
    rw [upsert]
    split
    · rename_i here
      simp only [List.map_cons, List.mem_cons, here]
      exact ⟨fun member => member.elim Or.inr fun later => Or.inl (Or.inr later),
        fun member => member.elim id Or.inl⟩
    · simp only [List.map_cons, List.mem_cons, inductionHypothesis, or_assoc]

theorem nodup_upsert (distinct : (pairs.map Prod.fst).Nodup) :
    ((upsert key value pairs).map Prod.fst).Nodup := by
  induction pairs with
  | nil => exact List.nodup_singleton _
  | cons pair pairs inductionHypothesis =>
    obtain ⟨absent, rest⟩ := List.nodup_cons.mp distinct
    rw [upsert]
    split
    · rename_i here
      exact List.nodup_cons.mpr ⟨here ▸ absent, rest⟩
    · rename_i elsewhere
      refine List.nodup_cons.mpr ⟨fun member => ?_, inductionHypothesis rest⟩
      rcases mem_keys_upsert.mp member with later | same
      · exact absent later
      · exact elsewhere same

/-- Every entry was there before, or is the one that was set. -/
theorem mem_upsert {pair : Key × Value} (member : pair ∈ upsert key value pairs) :
    pair ∈ pairs ∨ pair = (key, value) := by
  induction pairs with
  | nil => exact Or.inr (List.mem_singleton.mp member)
  | cons first pairs inductionHypothesis =>
    rw [upsert] at member
    split at member
    · rcases List.mem_cons.mp member with same | later
      · exact Or.inr same
      · exact Or.inl (List.mem_cons_of_mem _ later)
    · rcases List.mem_cons.mp member with same | later
      · exact Or.inl (same ▸ List.mem_cons_self)
      · exact (inductionHypothesis later).imp_left (List.mem_cons_of_mem _)

/-- Where the key is looked for by its place. -/
theorem upsert_eq : upsert key value pairs =
    match pairs.findIdx? fun pair => decide (pair.1 = key) with
    | none => pairs ++ [(key, value)]
    | some index => pairs.set index (key, value) := by
  induction pairs with
  | nil => rfl
  | cons pair pairs inductionHypothesis =>
    rw [upsert, List.findIdx?_cons]
    by_cases here : pair.1 = key
    · rw [if_pos here, if_pos (decide_eq_true here)]
      rfl
    · rw [if_neg here, if_neg (by rwa [decide_eq_true_eq]), inductionHypothesis]
      cases pairs.findIdx? fun pair => decide (pair.1 = key) with
      | none => rfl
      | some index => rfl

end Upsert

section Lookup

variable [BEq Key] [LawfulBEq Key] {key : Key} {value : Value} {pairs : List (Key × Value)}

/-- The key has its value, and the other keys keep theirs. -/
theorem lookup_upsert (other : Key) :
    (upsert key value pairs).lookup other =
      if other = key then some value else pairs.lookup other := by
  induction pairs with
  | nil =>
    rw [upsert, List.lookup_cons]
    by_cases same : other = key
    · rw [if_pos same, beq_iff_eq.mpr same]
    · rw [if_neg same, beq_eq_false_iff_ne.mpr same]
  | cons pair pairs inductionHypothesis =>
    rw [upsert]
    by_cases here : pair.1 = key
    · rw [if_pos here, List.lookup_cons, List.lookup_cons, here]
      by_cases same : other = key
      · rw [if_pos same, beq_iff_eq.mpr same]
      · rw [if_neg same, beq_eq_false_iff_ne.mpr same]
    · rw [if_neg here, List.lookup_cons, List.lookup_cons, inductionHypothesis]
      by_cases same : other = pair.1
      · have apart : other ≠ key := fun equal => here (same.symm.trans equal)
        rw [beq_iff_eq.mpr same, if_neg apart, if_neg apart]
      · rw [beq_eq_false_iff_ne.mpr same]

/-- Where a key is found. -/
theorem findIdx?_of_lookup (stored : pairs.lookup key = some value) :
    ∃ index, (pairs.findIdx? fun pair => decide (pair.1 = key)) = some index ∧
      pairs[index]? = some (key, value) := by
  induction pairs with
  | nil => cases stored
  | cons pair pairs inductionHypothesis =>
    rw [List.lookup_cons] at stored
    rw [List.findIdx?_cons]
    by_cases here : pair.1 = key
    · rw [beq_iff_eq.mpr here.symm] at stored
      cases stored
      rw [if_pos (decide_eq_true here), ← here]
      exact ⟨0, rfl, rfl⟩
    · rw [beq_eq_false_iff_ne.mpr (Ne.symm here)] at stored
      obtain ⟨index, found, there⟩ := inductionHypothesis stored
      rw [if_neg (by rwa [decide_eq_true_eq]), found]
      exact ⟨index + 1, rfl, there⟩

theorem findIdx?_of_lookup_none (absent : pairs.lookup key = none) :
    (pairs.findIdx? fun pair => decide (pair.1 = key)) = none := by
  rw [List.findIdx?_eq_none_iff]
  intro pair member
  have apart := List.lookup_eq_none_iff.mp absent pair member
  exact decide_eq_false fun same => bne_iff_ne.mp apart same.symm

/-- A key taken out. -/
theorem lookup_filter_ne (other : Key) :
    (pairs.filter fun pair => decide (pair.1 ≠ key)).lookup other =
      if other = key then none else pairs.lookup other := by
  induction pairs with
  | nil => exact (ite_self _).symm
  | cons pair pairs inductionHypothesis =>
    by_cases here : pair.1 = key
    · have gone : ¬decide (pair.1 ≠ key) = true := by
        rw [decide_eq_true_eq, not_not]
        exact here
      rw [List.filter_cons, if_neg gone, inductionHypothesis]
      by_cases same : other = key
      · rw [if_pos same, if_pos same]
      · have apart : other ≠ pair.1 := fun equal => same (equal.trans here)
        rw [if_neg same, if_neg same, List.lookup_cons, beq_eq_false_iff_ne.mpr apart]
    · have stays : decide (pair.1 ≠ key) = true := decide_eq_true here
      rw [List.filter_cons, if_pos stays, List.lookup_cons, List.lookup_cons, inductionHypothesis]
      by_cases same : other = pair.1
      · have apart : other ≠ key := fun equal => here (same.symm.trans equal)
        rw [beq_iff_eq.mpr same]
        exact (if_neg apart).symm
      · rw [beq_eq_false_iff_ne.mpr same]

end Lookup

/-! ### Many keys -/

theorem upsertAll_concat (pairs calls : List (Key × Value)) (call : Key × Value) :
    upsertAll pairs (calls ++ [call]) = upsert call.1 call.2 (upsertAll pairs calls) :=
  List.foldl_concat _ _ _ _

/-- The last value set is returned. -/
theorem lookup_upsertAll [BEq Key] [LawfulBEq Key] (calls : List (Key × Value)) (key : Key) :
    (upsertAll [] calls).lookup key = calls.reverse.lookup key := by
  induction calls using List.reverseRecOn with
  | nil => rfl
  | append_singleton calls call inductionHypothesis =>
    rw [upsertAll_concat, lookup_upsert, List.reverse_append, List.reverse_singleton,
      List.singleton_append, List.lookup_cons, inductionHypothesis]
    by_cases same : key = call.1
    · rw [if_pos same, beq_iff_eq.mpr same]
    · rw [if_neg same, beq_eq_false_iff_ne.mpr same]

/-- The keys are those that were set, each once. -/
theorem keys_upsertAll (calls : List (Key × Value)) :
    ((upsertAll [] calls).map Prod.fst).Nodup ∧
      ∀ key, key ∈ (upsertAll [] calls).map Prod.fst ↔ key ∈ calls.map Prod.fst := by
  induction calls using List.reverseRecOn with
  | nil => exact ⟨List.nodup_nil, fun _ => Iff.rfl⟩
  | append_singleton calls call inductionHypothesis =>
    obtain ⟨distinct, same⟩ := inductionHypothesis
    rw [upsertAll_concat]
    refine ⟨nodup_upsert distinct, fun key => ?_⟩
    rw [mem_keys_upsert, same, List.map_append, List.mem_append, List.map_singleton,
      List.mem_singleton]

/-- There is one entry for every different key. -/
theorem length_upsertAll (calls : List (Key × Value)) :
    (upsertAll [] calls).length = (calls.map Prod.fst).dedup.length := by
  obtain ⟨distinct, same⟩ := keys_upsertAll calls
  rw [← List.length_map (f := Prod.fst)]
  refine ((List.perm_ext_iff_of_nodup distinct (List.nodup_dedup _)).mpr fun key => ?_).length_eq
  rw [same, List.mem_dedup]

end ExmOnvif.Library
