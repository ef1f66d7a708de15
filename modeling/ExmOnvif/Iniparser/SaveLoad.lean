/-
This file proves that settings come back from the file they are saved to, and what follows for the
functions that change a file: a setting has its new value there, and the other ones have theirs.
-/

import ExmOnvif.Library.Text
import ExmOnvif.Iniparser.Load

namespace ExmOnvif.Iniparser

open Library

/-! ### Settings as a map -/

/-- What a dictionary or a file says of the settings. -/
abbrev Settings := Str → Option (Option Str)

/-- Settings that can be saved: sections with plain names, and settings with plain names and values,
each in a section that is there. -/
def Clean (map : Settings) : Prop :=
  ∀ key val, map key = some val →
    if 58 ∈ key then
      ∃ sec name text, key = sec ++ 58 :: name ∧ 58 ∉ sec ∧ map sec ≠ none ∧ val = some text ∧
        Entry name text
    else SectionName key

/-- What comes back of settings: all but the values that sections may have. -/
def reloaded (map : Settings) : Settings := fun key =>
  (map key).map fun val => if 58 ∈ key then val else none

/-- Settings after others were set. -/
def updateAll (map : Settings) (pairs : List (Str × Option Str)) : Settings :=
  pairs.foldl (fun map pair => Function.update map pair.1 (some pair.2)) map

variable {d : Dictionary} {map : Settings} {key sec secname name text : Str} {val : Option Str}
  {pairs : List (Str × Option Str)} {slot : Slot} {slots : List Slot}

/-- Where each key is set to a value of its own, the settings are those of the keys. -/
theorem updateAll_eq (value : Str → Option Str) (own : ∀ pair ∈ pairs, pair.2 = value pair.1)
    (key : Str) :
    updateAll map pairs key = if key ∈ pairs.map Prod.fst then some (value key) else map key := by
  induction pairs generalizing map with
  | nil => exact (if_neg List.not_mem_nil).symm
  | cons pair pairs inductionHypothesis =>
    obtain ⟨first, others⟩ := List.forall_mem_cons.mp own
    have rest := @inductionHypothesis (Function.update map pair.1 (some pair.2)) others
    rw [updateAll, List.foldl_cons, ← updateAll, rest, List.map_cons]
    by_cases later : key ∈ pairs.map Prod.fst
    · rw [if_pos later, if_pos (List.mem_cons_of_mem _ later)]
    · rw [if_neg later, Function.update_apply]
      by_cases here : key = pair.1
      · rw [if_pos here, here, if_pos List.mem_cons_self, first]
      · rw [if_neg here, if_neg fun member => (List.mem_cons.mp member).elim here later]

/-- A dictionary after others were set. -/
def setAll (d : Dictionary) (pairs : List (Str × Option Str)) : Option Dictionary :=
  pairs.foldlM (fun d pair => d.set pair.1 pair.2) d

theorem Dictionary.Valid.setAll (valid : d.Valid) (pairs : List (Str × Option Str)) :
    ∃ after, setAll d pairs = some after ∧ after.Valid ∧
        after.lookup = updateAll d.lookup pairs := by
  induction pairs generalizing d with
  | nil => exact ⟨d, rfl, valid, rfl⟩
  | cons pair pairs inductionHypothesis =>
    obtain ⟨next, done, valid', lookup⟩ := valid.set pair.1 pair.2
    obtain ⟨after, run, valid'', lookup'⟩ := inductionHypothesis valid'
    refine ⟨after, ?_, valid'', ?_⟩
    · rw [Iniparser.setAll, List.foldlM_cons, done]
      exact run
    · rw [lookup', lookup]
      rfl

/-- The value of a slot is that of its key. -/
theorem find_of_mem (distinct : (keys slots).Nodup) (member : slot ∈ slots)
    (used : slot.key = some key) :
    find key slots = some slot.val := by
  induction slots with
  | nil => cases member
  | cons first slots inductionHypothesis =>
    rw [keys_cons] at distinct
    obtain ⟨_, distinct', apart⟩ := List.nodup_append.mp distinct
    rw [find]
    rcases List.mem_cons.mp member with rfl | member
    · rw [if_pos used]
    · have elsewhere : ¬first.key = some key := by
        intro same
        have known : key ∈ keys slots := List.mem_filterMap.mpr ⟨slot, member, used⟩
        exact apart key (by rw [same]; exact List.mem_singleton_self key) key known rfl
      rw [if_neg elsewhere]
      exact inductionHypothesis distinct' member

/-! ### What is written -/

/-- What a line for the setting of a slot will set. -/
def slotPair (secname : Str) (slot : Slot) : Option (Str × Option Str) :=
  match slot.key with
  | none => none
  | some key => if secname ++ [58] <+: key then some (key, slot.val) else none

/-- What the lines of a file will set. -/
def writtenPairs (secnames : List Str) (slots : List Slot) : List (Str × Option Str) :=
  secnames.flatMap fun secname => (secname, none) :: slots.filterMap (slotPair secname)

/-- A key has one section only. -/
theorem section_unique (plain : 58 ∉ secname) (plain' : 58 ∉ sec)
    (front : secname ++ [58] <+: sec ++ 58 :: name) : secname = sec := by
  obtain ⟨rest, split⟩ := front
  have same := congrArg (List.takeWhile (· ≠ 58)) split
  rw [List.append_assoc, List.singleton_append, takeWhile_mark plain, takeWhile_mark plain'] at same
  exact same

/-- The slot of a setting that can be saved. -/
theorem Clean.entry (clean : Clean d.lookup) (valid : d.Valid) (plain : 58 ∉ secname)
    (member : slot ∈ d.slots)
    (used : slot.key = some key) (front : secname ++ [58] <+: key) :
    ∃ name text, key = secname ++ 58 :: name ∧ slot.val = some text ∧ Entry name text := by
  have found : d.lookup key = some slot.val := find_of_mem valid.distinct member used
  have colon : 58 ∈ key := front.subset (List.mem_append_right _ (List.mem_singleton_self _))
  have saved := clean key slot.val found
  rw [if_pos colon] at saved
  obtain ⟨sec, name, text, split, plain', _, value, entry⟩ := saved
  rw [split] at front
  have same := section_unique plain plain' front
  exact ⟨name, text, split.trans (by rw [same]), value, entry⟩

theorem setAll_cons (d : Dictionary) (pair : Str × Option Str) (pairs : List (Str × Option Str)) :
    setAll d (pair :: pairs) = (d.set pair.1 pair.2).bind fun next => setAll next pairs := rfl

theorem setAll_append (d : Dictionary) (pairs others : List (Str × Option Str)) :
    setAll d (pairs ++ others) = (setAll d pairs).bind fun next => setAll next others :=
  List.foldlM_append

/-- The lines of a section are read as they were written. -/
theorem load_entries (clean : Clean d.lookup) (valid : d.Valid) (plain : 58 ∉ secname)
    (members : ∀ slot ∈ slots, slot ∈ d.slots) (now : Dictionary) :
    (slots.filterMap (slotLine secname)).foldlM loadLine (secname, now) =
        (setAll now (slots.filterMap (slotPair secname))).map (secname, ·) ∧
      ∀ line ∈ slots.filterMap (slotLine secname), Complete 1023 line := by
  induction slots generalizing now with
  | nil => exact ⟨rfl, List.forall_mem_nil _⟩
  | cons slot slots inductionHypothesis =>
    obtain ⟨first, others⟩ := List.forall_mem_cons.mp members
    have rest := inductionHypothesis others
    rw [List.filterMap_cons, List.filterMap_cons, slotLine, slotPair]
    cases used : slot.key with
    | none => exact rest now
    | some key =>
      by_cases front : secname ++ [58] <+: key
      · obtain ⟨name, text, split, value, entry⟩ := clean.entry valid plain first used front
        have behind : key.drop (secname.length + 1) = name := by
          rw [split, ← List.singleton_append, ← List.append_assoc]
          exact List.drop_left' (by rw [List.length_append, List.length_singleton])
        simp only [if_pos front, behind, value, Option.getD_some]
        refine ⟨?_, List.forall_mem_cons.mpr ⟨entry.complete, (rest now).2⟩⟩
        rw [List.foldlM_cons, loadLine_entry entry, setAll_cons, ← split]
        cases set : now.set key (some text) with
        | none => rfl
        | some next => exact (rest next).1
      · simp only [if_neg front]
        exact rest now

/-- The sections are read one after the other. -/
theorem load_sections (clean : Clean d.lookup) (valid : d.Valid) {secnames : List Str}
    (known : ∀ secname ∈ secnames, 58 ∉ secname ∧ SectionName secname) (now : Str × Dictionary) :
    (∃ last, (secnames.flatMap fun secname =>
          [10] :: sectionLine secname :: d.slots.filterMap (slotLine secname)).foldlM loadLine now =
        (setAll now.2 (writtenPairs secnames d.slots)).map (last, ·)) ∧
      ∀ line ∈ secnames.flatMap fun secname =>
          [10] :: sectionLine secname :: d.slots.filterMap (slotLine secname),
              Complete 1023 line := by
  induction secnames generalizing now with
  | nil => exact ⟨⟨now.1, rfl⟩, List.forall_mem_nil _⟩
  | cons secname secnames inductionHypothesis =>
    obtain ⟨⟨plain, named⟩, others⟩ := List.forall_mem_cons.mp known
    have entries := @load_entries d secname d.slots clean valid plain fun _ member => member
    rw [writtenPairs, List.flatMap_cons, List.flatMap_cons, ← writtenPairs, setAll_append,
      List.foldlM_append]
    have blank : Complete 1023 [10] := ⟨[], rfl, List.not_mem_nil, by decide⟩
    constructor
    · simp only [List.foldlM_cons, loadLine_blank, Option.bind_eq_bind, Option.bind_some,
        loadLine_section named, setAll_cons]
      cases now.2.set secname none with
      | none => exact ⟨now.1, rfl⟩
      | some next =>
        simp only [Option.map_some, Option.bind_some, (entries next).1]
        cases setAll next (d.slots.filterMap (slotPair secname)) with
        | none => exact ⟨now.1, rfl⟩
        | some after => exact (inductionHypothesis others (secname, after)).1
    · refine List.forall_mem_append.mpr ⟨?_, (inductionHypothesis others now).2⟩
      exact List.forall_mem_cons.mpr
        ⟨blank, List.forall_mem_cons.mpr ⟨named.complete, (entries now.2).2⟩⟩

theorem lookup_ne_none : d.lookup key ≠ none ↔ key ∈ keys d.slots := by
  rw [Dictionary.lookup, Ne, find_none_iff, not_not]

theorem mem_secnames : secname ∈ secnames d ↔ d.lookup secname ≠ none ∧ 58 ∉ secname := by
  rw [secnames, List.mem_filter, decide_eq_true_iff, lookup_ne_none]

theorem mem_written {secnames : List Str} {pair : Str × Option Str}
    (member : pair ∈ writtenPairs secnames slots) :
    (pair.1 ∈ secnames ∧ pair.2 = none) ∨
      ∃ secname ∈ secnames, ∃ slot ∈ slots, slot.key = some pair.1 ∧ secname ++ [58] <+: pair.1 ∧
        pair.2 = slot.val := by
  obtain ⟨secname, known, member⟩ := List.mem_flatMap.mp member
  rcases List.mem_cons.mp member with rfl | member
  · exact Or.inl ⟨known, rfl⟩
  · obtain ⟨slot, there, written⟩ := List.mem_filterMap.mp member
    right
    unfold slotPair at written
    split at written
    · cases written
    · next key used =>
      split at written
      · next front =>
        cases written
        exact ⟨secname, known, slot, there, used, front, rfl⟩
      · cases written

/-- The keys that are written are those of the settings. -/
theorem written_keys (clean : Clean d.lookup) (key : Str) :
    key ∈ (writtenPairs (secnames d) d.slots).map Prod.fst ↔ d.lookup key ≠ none := by
  constructor
  · intro member
    obtain ⟨pair, written, rfl⟩ := List.mem_map.mp member
    rcases mem_written written with ⟨secname, _⟩ | ⟨_, _, slot, there, used, _⟩
    · exact (mem_secnames.mp secname).1
    · exact lookup_ne_none.mpr (List.mem_filterMap.mpr ⟨slot, there, used⟩)
  · intro set
    obtain ⟨val, found⟩ := Option.ne_none_iff_exists'.mp set
    have saved := clean key val found
    by_cases colon : 58 ∈ key
    · rw [if_pos colon] at saved
      obtain ⟨sec, name, text, split, plain, there, _⟩ := saved
      obtain ⟨slot, member, used⟩ := List.mem_filterMap.mp (lookup_ne_none.mp set)
      have front : sec ++ [58] <+: key :=
        ⟨name, by rw [split, List.append_assoc, List.singleton_append]⟩
      refine List.mem_map.mpr ⟨(key, slot.val), ?_, rfl⟩
      refine List.mem_flatMap.mpr ⟨sec, mem_secnames.mpr ⟨there, plain⟩, List.mem_cons_of_mem _ ?_⟩
      refine List.mem_filterMap.mpr ⟨slot, member, ?_⟩
      simp only [slotPair, used, if_pos front]
    · refine List.mem_map.mpr ⟨(key, none), ?_, rfl⟩
      exact List.mem_flatMap.mpr ⟨key, mem_secnames.mpr ⟨set, colon⟩, List.mem_cons_self⟩

/-- Each is written with the value that comes back. -/
theorem written_values (valid : d.Valid) :
    ∀ pair ∈ writtenPairs (secnames d) d.slots,
      pair.2 = if 58 ∈ pair.1 then (d.lookup pair.1).getD none else none := by
  intro pair written
  rcases mem_written written with ⟨known, missing⟩
    | ⟨secname, known, slot, there, used, front, value⟩
  · rw [if_neg (mem_secnames.mp known).2, missing]
  · have colon : 58 ∈ pair.1 := front.subset (List.mem_append_right _ (List.mem_singleton_self _))
    have found : d.lookup pair.1 = some slot.val := find_of_mem valid.distinct there used
    rw [if_pos colon, found, value]
    rfl

/-- Where there is no section there is no setting. -/
theorem Clean.none_of_secnames (clean : Clean d.lookup) (none : secnames d = []) :
    keys d.slots = [] := by
  refine List.eq_nil_iff_forall_not_mem.mpr fun key member => ?_
  have nothing (secname : Str) (known : d.lookup secname ≠ Option.none)
      (plain : 58 ∉ secname) : False := by
    have there := mem_secnames.mpr ⟨known, plain⟩
    rw [none] at there
    cases there
  have set := lookup_ne_none.mpr member
  obtain ⟨val, found⟩ := Option.ne_none_iff_exists'.mp set
  have saved := clean key val found
  by_cases colon : 58 ∈ key
  · rw [if_pos colon] at saved
    obtain ⟨sec, _, _, _, plain, there, _⟩ := saved
    exact nothing sec there plain
  · exact nothing key set colon

/-- Settings that can be saved come back from the file. -/
theorem load_dump (clean : Clean d.lookup) (valid : d.Valid) :
    ∃ after, iniparserLoad (iniparserDumpIni d) = some after ∧ after.Valid ∧
      after.lookup = reloaded d.lookup := by
  obtain ⟨validNew, emptyNew⟩ := valid_new 0
  by_cases none : secnames d = []
  · have nothing := clean.none_of_secnames none
    have noSlots : d.slots.filterMap (fun slot => slot.key.map fun key =>
        key ++ [32, 61, 32] ++ slot.val.getD nullText ++ [10]) = [] := by
      refine List.filterMap_eq_nil_iff.mpr fun slot member => ?_
      have unused := List.filterMap_eq_nil_iff.mp nothing slot member
      rw [unused]
      rfl
    refine ⟨dictionaryNew 0, ?_, validNew, ?_⟩
    · rw [iniparserDumpIni, dumpLines, if_pos none, noSlots]
      rfl
    · funext key
      have absent : d.lookup key = Option.none := by
        refine find_none_iff.mpr ?_
        rw [nothing]
        exact List.not_mem_nil
      rw [emptyNew, reloaded, absent]
      rfl
  · have known : ∀ secname ∈ secnames d, 58 ∉ secname ∧ SectionName secname := by
      intro secname member
      obtain ⟨set, plain⟩ := mem_secnames.mp member
      obtain ⟨val, found⟩ := Option.ne_none_iff_exists'.mp set
      have saved := clean secname val found
      rw [if_neg plain] at saved
      exact ⟨plain, saved⟩
    obtain ⟨⟨last, run⟩, complete⟩ := load_sections clean valid known ([], dictionaryNew 0)
    obtain ⟨after, set, valid', lookup⟩ := validNew.setAll (writtenPairs (secnames d) d.slots)
    have blank : Complete 1023 [10] := ⟨[], rfl, List.not_mem_nil, by decide⟩
    refine ⟨after, ?_, valid', ?_⟩
    · rw [iniparserLoad, iniparserDumpIni]
      have lines := @readLines_flatten 1023 (dumpLines d) (dumpLines d).flatten.length (by
        rw [dumpLines, if_neg none]
        exact List.forall_mem_append.mpr ⟨complete, List.forall_mem_singleton.mpr blank⟩)
          (Nat.le_refl _)
      have read : readLines (asciilinesz - 1) (dumpLines d).flatten.length (dumpLines d).flatten =
          dumpLines d := lines
      rw [read, dumpLines, if_neg none, List.foldlM_append, run, set]
      rfl
    · funext key
      rw [lookup, updateAll_eq
        (fun key => if 58 ∈ key then (d.lookup key).getD Option.none else Option.none)
        (written_values valid), emptyNew, reloaded]
      by_cases there : d.lookup key = Option.none
      · rw [if_neg (mt (written_keys clean key).mp (not_not.mpr there)), there]
        rfl
      · rw [if_pos ((written_keys clean key).mpr there)]
        obtain ⟨val, found⟩ := Option.ne_none_iff_exists'.mp there
        rw [found]
        rfl

end ExmOnvif.Iniparser
