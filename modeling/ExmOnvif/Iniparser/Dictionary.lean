/-
This file models the dictionary in which the settings of a file are held, slots that are searched
one after the other, and proves that it is a map, whatever was set and unset.

A key is compared only where its hash is that of the slot. The search for a value does not ask
whether the slot is in use: an empty one has the hash zero, so that a key with this hash is compared
with nothing at the first slot that is empty.
-/

import Mathlib.Data.List.Nodup
import Mathlib.Logic.Function.Basic
import ExmOnvif.Library.Bytes

namespace ExmOnvif.Iniparser

open Library

/-! ### The slots -/

/-- A place of the three arrays. -/
structure Slot where
  key : Option Str
  val : Option Str
  hash : BitVec 32
deriving DecidableEq

/-- `dictionary`. -/
structure Dictionary where
  n : Nat
  slots : List Slot
deriving DecidableEq

/-- `DICTMINSZ`. -/
def dictminsz : Nat := 128

/-- A place that was cleared. -/
def Slot.empty : Slot := ⟨none, none, 0⟩

/-- The loop of `dictionary_hash`. -/
def hashTurn (hash : BitVec 32) (byte : UInt8) : BitVec 32 :=
  let hash := hash + BitVec.ofNat 32 byte.toNat
  let hash := hash + (hash <<< 10)
  hash ^^^ (hash >>> 6)

/-- `dictionary_hash`. -/
def dictionaryHash (key : Str) : BitVec 32 :=
  let hash := key.foldl hashTurn 0
  let hash := hash + (hash <<< 3)
  let hash := hash ^^^ (hash >>> 11)
  hash + (hash <<< 15)

/-- `dictionary_new`. -/
def dictionaryNew (size : Nat) : Dictionary := ⟨0, List.replicate (max size dictminsz) .empty⟩

/-- What a search comes to: a value, which may be missing, no such key, or a key compared with
nothing. -/
inductive Found where
  | value (val : Option Str)
  | absent
  | null
deriving DecidableEq

/-- The loop of `dictionary_get`. -/
def getLoop (key : Str) (hash : BitVec 32) : List Slot → Found
  | [] => .absent
  | slot :: slots =>
    if hash = slot.hash then
      match slot.key with
      | none => .null
      | some other => if key = other then .value slot.val else getLoop key hash slots
    else getLoop key hash slots

/-- `dictionary_get`, which returns its default for a key that is absent. -/
def Dictionary.get (d : Dictionary) (key : Str) : Found := getLoop key (dictionaryHash key) d.slots

/-- The first loop of `dictionary_set`: the slots, with the value of the key replaced. -/
def replaceLoop (key : Str) (val : Option Str) (hash : BitVec 32) : List Slot → Option (List Slot)
  | [] => none
  | slot :: slots =>
    if slot.key = some key ∧ hash = slot.hash then some ({ slot with val := val } :: slots)
    else (replaceLoop key val hash slots).map (slot :: ·)

/-- The second loop of `dictionary_set`: the first empty slot is filled. -/
def insertLoop (new : Slot) : List Slot → Option (List Slot)
  | [] => none
  | slot :: slots => if slot.key = none then some (new :: slots)
    else (insertLoop new slots).map (slot :: ·)

/-- The slots for another key: twice as many, when all of them are in use. -/
def Dictionary.grown (d : Dictionary) : List Slot :=
  if d.n = d.slots.length then d.slots ++ List.replicate d.slots.length .empty else d.slots

/-- `dictionary_set`, or nothing when it writes behind the slots. -/
def Dictionary.set (d : Dictionary) (key : Str) (val : Option Str) : Option Dictionary :=
  match if d.n > 0 then replaceLoop key val (dictionaryHash key) d.slots else none with
  | some slots => some { d with slots := slots }
  | none =>
    (insertLoop ⟨some key, val, dictionaryHash key⟩ d.grown).map fun slots => ⟨d.n + 1, slots⟩

/-- The loop of `dictionary_unset`: the slots, with that of the key cleared. -/
def clearLoop (key : Str) (hash : BitVec 32) : List Slot → Option (List Slot)
  | [] => none
  | slot :: slots =>
    if slot.key = some key ∧ hash = slot.hash then some (.empty :: slots)
    else (clearLoop key hash slots).map (slot :: ·)

/-- `dictionary_unset`. -/
def Dictionary.unset (d : Dictionary) (key : Str) : Dictionary :=
  match clearLoop key (dictionaryHash key) d.slots with
  | some slots => ⟨d.n - 1, slots⟩
  | none => d

/-! ### The map -/

/-- The value of a key, in the first slot with it. -/
def find (key : Str) : List Slot → Option (Option Str)
  | [] => none
  | slot :: slots => if slot.key = some key then some slot.val else find key slots

/-- The keys, in the order of their slots. -/
def keys (slots : List Slot) : List Str := slots.filterMap Slot.key

/-- A slot has the hash of its key, and an empty one has nothing. -/
def Slot.Proper (slot : Slot) : Prop :=
  match slot.key with
  | none => slot = .empty
  | some key => slot.hash = dictionaryHash key

/-- What holds of a dictionary: the slots are proper, no key is in two of them, and they are
counted. -/
structure Dictionary.Valid (d : Dictionary) : Prop where
  proper : ∀ slot ∈ d.slots, slot.Proper
  distinct : (keys d.slots).Nodup
  count : d.n = (keys d.slots).length
  room : 0 < d.slots.length

/-- The map that a dictionary is. -/
def Dictionary.lookup (d : Dictionary) (key : Str) : Option (Option Str) := find key d.slots

variable {key other : Str} {val : Option Str} {slots after : List Slot} {slot new : Slot}

theorem Slot.Proper.hash_eq (proper : slot.Proper) (same : slot.key = some key) :
    slot.hash = dictionaryHash key := by
  unfold Slot.Proper at proper
  rw [same] at proper
  exact proper

/-- The hash does not have to be asked for. -/
theorem Slot.Proper.match_iff (proper : slot.Proper) :
    slot.key = some key ∧ dictionaryHash key = slot.hash ↔ slot.key = some key :=
  and_iff_left_of_imp fun same => (proper.hash_eq same).symm

theorem keys_cons (slot : Slot) (slots : List Slot) :
    keys (slot :: slots) = slot.key.toList ++ keys slots := by
  rw [keys, List.filterMap_cons]
  cases slot.key <;> rfl

theorem find_none_iff : find key slots = none ↔ key ∉ keys slots := by
  induction slots with
  | nil => exact iff_of_true rfl List.not_mem_nil
  | cons slot slots inductionHypothesis =>
    rw [find, keys_cons, List.mem_append, Option.mem_toList, not_or, ← inductionHypothesis]
    split
    · next same => exact iff_of_false (Option.some_ne_none _) fun both => both.1 same
    · next differs => exact ⟨fun none => ⟨differs, none⟩, And.right⟩

/-- An empty slot is in front of that of a key. -/
def Exposed (key : Str) : List Slot → Prop
  | [] => False
  | slot :: slots => slot.key ≠ some key ∧ (slot.key = none ∨ Exposed key slots)

/-! ### Searching -/

/-- What a search comes to. -/
def Dictionary.Finds (d : Dictionary) (key : Str) (found : Found) : Prop :=
  (dictionaryHash key = 0 ∧ Exposed key d.slots → found = .null) ∧
    (¬(dictionaryHash key = 0 ∧ Exposed key d.slots) →
      found = match d.lookup key with
        | some val => .value val
        | none => .absent)

/-- A search fails only where a key with the hash zero is compared with an empty slot. -/
theorem finds_getLoop (proper : ∀ slot ∈ slots, slot.Proper) (n : Nat) :
    Dictionary.Finds ⟨n, slots⟩ key (getLoop key (dictionaryHash key) slots) := by
  unfold Dictionary.Finds Dictionary.lookup
  induction slots with
  | nil => exact ⟨fun exposed => absurd exposed.2 id, fun _ => rfl⟩
  | cons slot slots inductionHypothesis =>
    obtain ⟨first, others⟩ := List.forall_mem_cons.mp proper
    obtain ⟨null, found⟩ := inductionHypothesis others
    rw [getLoop, find, Exposed]
    cases same : slot.key with
    | none =>
      have empty : slot = .empty := by
        unfold Slot.Proper at first
        rw [same] at first
        exact first
      have hash : slot.hash = 0 := congrArg Slot.hash empty
      rw [hash, if_neg (Option.some_ne_none key).symm]
      by_cases zero : dictionaryHash key = 0
      · rw [if_pos zero]
        exact ⟨fun _ => rfl, fun exposed =>
          absurd ⟨zero, (Option.some_ne_none key).symm, Or.inl rfl⟩ exposed⟩
      · rw [if_neg zero]
        exact ⟨fun exposed => absurd exposed.1 zero, fun _ => found fun exposed => zero exposed.1⟩
    | some stored =>
      have hash := first.hash_eq same
      by_cases equal : key = stored
      · rw [hash, equal, if_pos rfl, if_pos rfl]
        exact ⟨fun exposed => absurd rfl exposed.2.1, fun _ => if_pos rfl⟩
      · have differs : ¬some stored = some key := fun same => equal (Option.some.inj same).symm
        rw [if_neg differs]
        have skip : (if dictionaryHash key = slot.hash then
            if key = stored then Found.value slot.val else getLoop key (dictionaryHash key) slots
            else getLoop key (dictionaryHash key) slots) =
                getLoop key (dictionaryHash key) slots := by
          rw [if_neg equal, ite_self]
        refine ⟨fun exposed => ?_, fun exposed => ?_⟩
        · refine skip.trans (null ⟨exposed.1, exposed.2.2.resolve_left (Option.some_ne_none _)⟩)
        · exact skip.trans (found fun both => exposed ⟨both.1, differs, Or.inr both.2⟩)

/-! ### Setting -/

/-- The value of a key that is there is replaced. -/
theorem replaceLoop_some (proper : ∀ slot ∈ slots, slot.Proper)
    (done : replaceLoop key val (dictionaryHash key) slots = some after) :
    (∀ slot ∈ after, slot.Proper) ∧ keys after = keys slots ∧ after.length = slots.length ∧
      ∀ other, find other after = if other = key then some val else find other slots := by
  induction slots generalizing after with
  | nil => cases done
  | cons slot slots inductionHypothesis =>
    obtain ⟨first, others⟩ := List.forall_mem_cons.mp proper
    rw [replaceLoop] at done
    split at done
    · next both =>
      cases done
      have set : Slot.Proper { slot with val := val } := by
        unfold Slot.Proper
        simp only [both.1]
        exact both.2.symm
      refine ⟨List.forall_mem_cons.mpr ⟨set, others⟩, ?_, rfl, fun other => ?_⟩
      · rw [keys_cons, keys_cons]
      · rw [find, find, both.1]
        by_cases same : other = key
        · rw [if_pos (congrArg some same.symm), if_pos same]
        · have differs : ¬some key = some other := fun equal => same (Option.some.inj equal).symm
          rw [if_neg differs, if_neg differs, if_neg same]
    · next differs =>
      obtain ⟨rest, loop, rfl⟩ := Option.map_eq_some_iff.mp done
      obtain ⟨proper', keys', length', found⟩ := inductionHypothesis others loop
      refine ⟨List.forall_mem_cons.mpr ⟨first, proper'⟩, ?_, ?_, fun other => ?_⟩
      · rw [keys_cons, keys_cons, keys']
      · rw [List.length_cons, List.length_cons, length']
      · rw [find, find, found]
        split
        · next same =>
          have notKey : ¬other = key := fun equal =>
            differs (first.match_iff.mpr (same.trans (congrArg some equal)))
          rw [if_neg notKey]
        · rfl

/-- A key that is not replaced is not there. -/
theorem replaceLoop_none (proper : ∀ slot ∈ slots, slot.Proper)
    (done : replaceLoop key val (dictionaryHash key) slots = none) : key ∉ keys slots := by
  induction slots with
  | nil => exact List.not_mem_nil
  | cons slot slots inductionHypothesis =>
    obtain ⟨first, others⟩ := List.forall_mem_cons.mp proper
    rw [replaceLoop] at done
    split at done
    · cases done
    · next differs =>
      rw [keys_cons, List.mem_append, Option.mem_toList, not_or]
      exact ⟨fun same => differs (first.match_iff.mpr same),
        inductionHypothesis others (Option.map_eq_none_iff.mp done)⟩

/-- A slot is empty when there are more slots than keys. -/
theorem empty_of_length (less : (keys slots).length < slots.length) :
    ∃ slot ∈ slots, slot.key = none := by
  by_contra all
  push Not at all
  have same : (keys slots).length = slots.length := by
    clear less
    induction slots with
    | nil => rfl
    | cons slot slots inductionHypothesis =>
      obtain ⟨first, others⟩ := List.forall_mem_cons.mp all
      obtain ⟨key, used⟩ := Option.ne_none_iff_exists'.mp first
      rw [keys_cons, used, List.length_append, inductionHypothesis others, List.length_cons,
        Nat.add_comm]
      rfl
  exact absurd same (Nat.ne_of_lt less)

/-- The first empty slot is filled with a key that was not there. -/
theorem insertLoop_some (absent : key ∉ keys slots) (empty : ∃ slot ∈ slots, slot.key = none)
    (proper : ∀ slot ∈ slots, slot.Proper) :
    ∃ after, insertLoop ⟨some key, val, dictionaryHash key⟩ slots = some after ∧
      (∀ slot ∈ after, slot.Proper) ∧ (keys after).Perm (key :: keys slots) ∧
      after.length = slots.length ∧
      ∀ other, find other after = if other = key then some val else find other slots := by
  induction slots with
  | nil =>
    obtain ⟨_, member, _⟩ := empty
    cases member
  | cons slot slots inductionHypothesis =>
    obtain ⟨first, others⟩ := List.forall_mem_cons.mp proper
    rw [keys_cons, List.mem_append, Option.mem_toList, not_or] at absent
    have filled : Slot.Proper ⟨some key, val, dictionaryHash key⟩ := rfl
    rw [insertLoop]
    by_cases here : slot.key = none
    · rw [if_pos here]
      refine ⟨_, rfl, List.forall_mem_cons.mpr ⟨filled, others⟩, ?_, rfl, fun other => ?_⟩
      · rw [keys_cons, keys_cons, here]
        exact List.Perm.refl _
      · rw [find, find, here, if_neg (Option.some_ne_none other).symm]
        by_cases same : other = key
        · rw [if_pos (congrArg some same.symm), if_pos same]
        · have differs : ¬some key = some other := fun equal => same (Option.some.inj equal).symm
          rw [if_neg differs, if_neg same]
    · have later : ∃ slot ∈ slots, slot.key = none := by
        obtain ⟨found, member, none⟩ := empty
        rcases List.mem_cons.mp member with rfl | member
        · exact absurd none here
        · exact ⟨found, member, none⟩
      obtain ⟨after, loop, proper', perm, length, found⟩ :=
        inductionHypothesis absent.2 later others
      rw [if_neg here, loop]
      refine ⟨slot :: after, rfl, List.forall_mem_cons.mpr ⟨first, proper'⟩, ?_, ?_,
        fun other => ?_⟩
      · rw [keys_cons, keys_cons]
        exact (perm.append_left _).trans List.perm_middle
      · rw [List.length_cons, List.length_cons, length]
      · rw [find, find, found]
        split
        · next same =>
          have notKey : ¬other = key := fun equal => absent.1 (same.trans (congrArg some equal))
          rw [if_neg notKey]
        · rfl

/-- Empty slots have no keys. -/
theorem keys_grown (d : Dictionary) : keys d.grown = keys d.slots := by
  unfold Dictionary.grown
  split
  · rw [keys, List.filterMap_append]
    have none : (List.replicate d.slots.length Slot.empty).filterMap Slot.key = [] := by
      rw [List.filterMap_eq_nil_iff]
      intro slot member
      rw [List.eq_of_mem_replicate member]
      rfl
    rw [none, List.append_nil, keys]
  · rfl

theorem find_grown (d : Dictionary) (key : Str) : find key d.grown = find key d.slots := by
  have none (count : Nat) : find key (List.replicate count .empty) = none := by
    rw [find_none_iff]
    intro member
    obtain ⟨slot, known, used⟩ := List.mem_filterMap.mp member
    rw [List.eq_of_mem_replicate known] at used
    cases used
  have append (slots others : List Slot) (nothing : find key others = Option.none) :
      find key (slots ++ others) = find key slots := by
    induction slots with
    | nil => exact nothing
    | cons slot slots inductionHypothesis => rw [List.cons_append, find, find, inductionHypothesis]
  unfold Dictionary.grown
  split
  · exact append _ _ (none _)
  · rfl

/-- A setting has its value afterwards, and the other ones have theirs. -/
theorem Dictionary.Valid.set {d : Dictionary} (valid : d.Valid) (key : Str) (val : Option Str) :
    ∃ after, d.set key val = some after ∧ after.Valid ∧
      after.lookup = Function.update d.lookup key (some val) := by
  have updated (slots : List Slot)
      (found : ∀ other, find other slots = if other = key then some val else find other d.slots)
        (n : Nat) :
      Dictionary.lookup ⟨n, slots⟩ = Function.update d.lookup key (some val) := by
    funext other
    rw [Function.update_apply]
    exact found other
  unfold Dictionary.set
  cases done : if d.n > 0 then replaceLoop key val (dictionaryHash key) d.slots else none with
  | some slots =>
    have loop : replaceLoop key val (dictionaryHash key) d.slots = some slots := by
      split at done
      · exact done
      · cases done
    obtain ⟨proper, same, length, found⟩ := replaceLoop_some valid.proper loop
    have count := valid.count
    exact ⟨_, rfl, ⟨proper, same ▸ valid.distinct, same ▸ count, length ▸ valid.room⟩,
      updated slots found _⟩
  | none =>
    have absent : key ∉ keys d.slots := by
      split at done
      · exact replaceLoop_none valid.proper done
      · next zero =>
        have none : keys d.slots = [] :=
          List.eq_nil_of_length_eq_zero (by have := valid.count; omega)
        rw [none]
        exact List.not_mem_nil
    have bound : (keys d.slots).length ≤ d.slots.length := List.length_filterMap_le _ _
    have larger : (keys d.grown).length < d.grown.length ∧ d.slots.length ≤ d.grown.length := by
      have count := valid.count
      have room := valid.room
      rw [keys_grown]
      unfold Dictionary.grown
      split
      · rw [List.length_append, List.length_replicate]
        omega
      · omega
    have proper : ∀ slot ∈ d.grown, slot.Proper := by
      intro slot member
      unfold Dictionary.grown at member
      split at member
      · rcases List.mem_append.mp member with old | new
        · exact valid.proper slot old
        · rw [List.eq_of_mem_replicate new]
          rfl
      · exact valid.proper slot member
    rw [← keys_grown] at absent
    obtain ⟨after, loop, proper', perm, length, found⟩ :=
      @insertLoop_some key val d.grown absent (empty_of_length larger.1) proper
    rw [keys_grown] at perm absent
    simp only [find_grown] at found
    refine ⟨⟨d.n + 1, after⟩, by rw [loop]; rfl, ⟨proper', ?_, ?_, ?_⟩, updated after found _⟩
    · exact perm.nodup_iff.mpr (List.nodup_cons.mpr ⟨absent, valid.distinct⟩)
    · show d.n + 1 = (keys after).length
      rw [perm.length_eq, List.length_cons, ← valid.count]
    · have room := valid.room
      show 0 < after.length
      omega

/-! ### Clearing -/

/-- The slot of a key is cleared, and the key is nowhere else. -/
theorem clearLoop_some (proper : ∀ slot ∈ slots, slot.Proper) (distinct : (keys slots).Nodup)
    (done : clearLoop key (dictionaryHash key) slots = some after) :
    (∀ slot ∈ after, slot.Proper) ∧ (keys after).Nodup ∧
    (keys slots).length = (keys after).length + 1 ∧
      (∀ other ∈ keys after, other ∈ keys slots) ∧ after.length = slots.length ∧
      ∀ other, find other after = if other = key then none else find other slots := by
  induction slots generalizing after with
  | nil => cases done
  | cons slot slots inductionHypothesis =>
    obtain ⟨first, others⟩ := List.forall_mem_cons.mp proper
    rw [keys_cons] at distinct
    obtain ⟨_, distinct', apart⟩ := List.nodup_append.mp distinct
    rw [clearLoop] at done
    split at done
    · next both =>
      cases done
      have absent : key ∉ keys slots := fun member =>
        apart key (by rw [both.1]; exact List.mem_singleton_self key) key member rfl
      have nothing : keys (Slot.empty :: slots) = keys slots := rfl
      have cleared : Slot.empty.Proper := rfl
      refine ⟨List.forall_mem_cons.mpr ⟨cleared, others⟩, distinct', ?_, ?_, rfl, fun other => ?_⟩
      · rw [nothing, keys_cons, both.1, List.length_append, Nat.add_comm]
        rfl
      · rw [nothing, keys_cons]
        exact fun other member => List.mem_append_right _ member
      · have emptied : ¬Slot.empty.key = some other := (Option.some_ne_none other).symm
        rw [find, find, both.1, if_neg emptied]
        by_cases same : other = key
        · rw [if_pos same, same]
          exact find_none_iff.mpr absent
        · have differs : ¬some key = some other := fun equal => same (Option.some.inj equal).symm
          rw [if_neg same, if_neg differs]
    · next differs =>
      obtain ⟨rest, loop, rfl⟩ := Option.map_eq_some_iff.mp done
      obtain ⟨proper', nodup, count, fewer, length, found⟩ :=
        inductionHypothesis others distinct' loop
      have subset : ∀ other ∈ keys (slot :: rest), other ∈ keys (slot :: slots) := by
        intro other member
        rw [keys_cons] at member ⊢
        rcases List.mem_append.mp member with here | there
        · exact List.mem_append_left _ here
        · exact List.mem_append_right _ (fewer other there)
      refine ⟨List.forall_mem_cons.mpr ⟨first, proper'⟩, ?_, ?_, subset, ?_, fun other => ?_⟩
      · rw [keys_cons]
        refine List.nodup_append.mpr
          ⟨(List.nodup_append.mp distinct).1, nodup, fun here known there member => ?_⟩
        exact apart here known there (fewer there member)
      · rw [keys_cons, keys_cons, List.length_append, List.length_append, count, Nat.add_assoc]
      · rw [List.length_cons, List.length_cons, length]
      · rw [find, find, found]
        split
        · next same =>
          have notKey : ¬other = key := fun equal =>
            differs (first.match_iff.mpr (same.trans (congrArg some equal)))
          rw [if_neg notKey]
        · rfl

theorem clearLoop_none (proper : ∀ slot ∈ slots, slot.Proper)
    (done : clearLoop key (dictionaryHash key) slots = none) : key ∉ keys slots := by
  induction slots with
  | nil => exact List.not_mem_nil
  | cons slot slots inductionHypothesis =>
    obtain ⟨first, others⟩ := List.forall_mem_cons.mp proper
    rw [clearLoop] at done
    split at done
    · cases done
    · next differs =>
      rw [keys_cons, List.mem_append, Option.mem_toList, not_or]
      exact ⟨fun same => differs (first.match_iff.mpr same),
        inductionHypothesis others (Option.map_eq_none_iff.mp done)⟩

/-- A setting is gone afterwards, and the other ones have their values. -/
theorem Dictionary.Valid.unset {d : Dictionary} (valid : d.Valid) (key : Str) :
    (d.unset key).Valid ∧ (d.unset key).lookup = Function.update d.lookup key none := by
  unfold Dictionary.unset
  cases done : clearLoop key (dictionaryHash key) d.slots with
  | some slots =>
    obtain ⟨proper, distinct, count, _, length, found⟩ :=
      clearLoop_some valid.proper valid.distinct done
    refine ⟨⟨proper, distinct, ?_, length ▸ valid.room⟩, ?_⟩
    · have counted := valid.count
      show d.n - 1 = (keys slots).length
      omega
    · funext other
      rw [Function.update_apply]
      exact found other
  | none =>
    refine ⟨valid, ?_⟩
    have absent : d.lookup key = none := find_none_iff.mpr (clearLoop_none valid.proper done)
    rw [← absent, Function.update_eq_self]

/-! ### Any calls -/

/-- What changes a dictionary. -/
inductive Call where
  | set (key : Str) (val : Option Str)
  | unset (key : Str)
deriving DecidableEq

/-- One call. -/
def Dictionary.call (d : Dictionary) : Call → Option Dictionary
  | .set key val => d.set key val
  | .unset key => some (d.unset key)

/-- The map after a call. -/
def Call.apply (map : Str → Option (Option Str)) : Call → Str → Option (Option Str)
  | .set key val => Function.update map key (some val)
  | .unset key => Function.update map key none

theorem Dictionary.Valid.call {d : Dictionary} (valid : d.Valid) (call : Call) :
    ∃ after, d.call call = some after ∧ after.Valid ∧ after.lookup = call.apply d.lookup := by
  cases call with
  | set key val => exact valid.set key val
  | unset key => exact ⟨_, rfl, valid.unset key⟩

theorem Dictionary.Valid.calls {d : Dictionary} (valid : d.Valid) (calls : List Call) :
    ∃ after, calls.foldlM Dictionary.call d = some after ∧ after.Valid ∧
      after.lookup = calls.foldl Call.apply d.lookup := by
  induction calls generalizing d with
  | nil => exact ⟨d, rfl, valid, rfl⟩
  | cons call calls inductionHypothesis =>
    obtain ⟨next, done, valid', lookup⟩ := valid.call call
    obtain ⟨after, run, valid'', lookup'⟩ := inductionHypothesis valid'
    refine ⟨after, ?_, valid'', ?_⟩
    · rw [List.foldlM_cons, done]
      exact run
    · rw [lookup', lookup]
      rfl

theorem valid_new (size : Nat) :
    (dictionaryNew size).Valid ∧ (dictionaryNew size).lookup = fun _ => none := by
  have none : keys (dictionaryNew size).slots = [] := by
    unfold dictionaryNew
    rw [keys, List.filterMap_eq_nil_iff]
    intro slot member
    rw [List.eq_of_mem_replicate member]
    rfl
  refine ⟨⟨fun slot member => ?_, ?_, ?_, ?_⟩, ?_⟩
  · rw [List.eq_of_mem_replicate member]
    rfl
  · rw [none]
    exact List.nodup_nil
  · rw [none]
    rfl
  · unfold dictionaryNew
    rw [List.length_replicate]
    exact Nat.lt_of_lt_of_le (by decide) (Nat.le_max_right _ _)
  · funext key
    refine find_none_iff.mpr ?_
    rw [none]
    exact List.not_mem_nil

/-- Whatever was set and unset, the dictionary is there, it is the map that this makes, and a search
finds what is in the map; only a key with the hash zero is compared with nothing, and only when an
empty slot is in front of it. -/
theorem dictionary_is_map (size : Nat) (calls : List Call) :
    ∃ d, calls.foldlM Dictionary.call (dictionaryNew size) = some d ∧
      d.lookup = calls.foldl Call.apply (fun _ => none) ∧ ∀ key, d.Finds key (d.get key) := by
  obtain ⟨valid, none⟩ := valid_new size
  obtain ⟨d, run, valid', lookup⟩ := valid.calls calls
  rw [none] at lookup
  exact ⟨d, run, lookup, fun key => finds_getLoop valid'.proper d.n⟩

/-- The empty key is such a key. -/
example : (dictionaryNew 0).get [] = .null := by decide

end ExmOnvif.Iniparser
