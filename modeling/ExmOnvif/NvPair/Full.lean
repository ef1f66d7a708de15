/-
This file is about the name/value pairs when there is no row left. The rows are followed by the
message buffer in one structure, so that they are memory here, and a row behind the last one lies
in the buffer.

A new name is printed and counted before the count is compared with the number of rows. So the
call that is refused has changed both, and the next call with the same name finds it in the
buffer. As long as there is a row for every name, the memory holds the pairs of the other files.
-/

import Mathlib.Data.Finset.Card
import ExmOnvif.Library.Bytes
import ExmOnvif.Library.Runs
import ExmOnvif.NvPair.Store

namespace ExmOnvif.NvPair

open Library

/-- `NVP_T`, with the rows and `msg_buf` behind them as memory. -/
structure NvpT where
  seperator : Str
  equalMark : Str
  numNvp : Nat
  nvp : Memory

namespace NvpT

/-- Where a row begins. -/
def rowPlace (index : Nat) : Nat := maxDataLen * index

/-- The bytes of the rows and of `msg_buf`. -/
def roomOfBoth : Nat := maxCmdNum * maxDataLen + maxCmdNum * maxDataLen

/-- A new structure with both marks set. -/
def create (seperator mark : Str) : NvpT := ⟨seperator, mark, 0, fun _ => 0⟩

/-- `strncmp` with a string that has no zero in it. -/
def StartsAt (nt : NvpT) (place : Nat) (text : Str) : Prop := load nt.nvp place text.length = text

/-- The three comparisons of `nvp_get_pair_index`. -/
def Names (nt : NvpT) (name : Str) (index : Nat) : Prop :=
  nt.StartsAt (rowPlace index) nt.seperator ∧
    nt.StartsAt (rowPlace index + nt.seperator.length) name ∧
    nt.StartsAt (rowPlace index + nt.seperator.length + name.length) nt.equalMark

instance (nt : NvpT) (name : Str) (index : Nat) : Decidable (nt.Names name index) :=
  inferInstanceAs (Decidable (_ = _ ∧ _ = _ ∧ _ = _))

/-- `nvp_get_pair_index`. -/
def getPairIndex (nt : NvpT) (name : Str) : Option Nat :=
  if maxDataLen < name.length then none
  else (List.range nt.numNvp).find? fun index => decide (nt.Names name index)

/-- The row of a pair. -/
def entry (nt : NvpT) (name value : Str) : Str :=
  nt.seperator ++ (name ++ (nt.equalMark ++ value))

/-- `sprintf` of a row, with its terminator. Behind the structure it has no result. -/
def print (nt : NvpT) (index : Nat) (name value : Str) : Option Memory :=
  if rowPlace index + (nt.entry name value).length < roomOfBoth then
    some (store nt.nvp (rowPlace index) (nt.entry name value ++ [0]))
  else none

/-- `nvp_set_pair_str`: what it returns, and the structure. -/
def setPairStr (nt : NvpT) (name value : Str) : Option (Except NvpErr Unit × NvpT) :=
  if maxDataLen < name.length + value.length then some (.error .paraErr, nt)
  else
    match nt.getPairIndex name with
    | none =>
      (nt.print nt.numNvp name value).map fun nvp =>
        (if maxCmdNum < nt.numNvp + 1 then .error .noMem else .ok (),
          { nt with nvp := nvp, numNvp := nt.numNvp + 1 })
    | some index =>
      ({ nt with
        nvp := store nt.nvp (rowPlace index) (List.replicate maxDataLen 0) }.print index
          name value).map fun nvp => (.ok (), { nt with nvp := nvp })

/-- Some calls of `nvp_set_pair_str`, whatever they return. -/
abbrev Run : NvpT → List (Str × Str) → NvpT → Prop :=
  Runs fun before call after => ∃ result, before.setPairStr call.1 call.2 = some (result, after)

/-! ### What a full store has to do -/

/-- A call that passes the check of the lengths, with a new name and no row left. -/
structure CannotStore (nt : NvpT) (call : Str × Str) : Prop where
  short : call.1.length + call.2.length ≤ maxDataLen
  absent : nt.getPairIndex call.1 = none
  full : maxCmdNum ≤ nt.numNvp

/-- Every call that cannot be stored returns `-NVP_NO_MEM` and leaves all as it was, and there are
never more pairs than rows. -/
structure SafeWhenFull (start : NvpT) (calls : List (Str × Str)) : Prop where
  refused : ∀ done call later, calls = done ++ call :: later → ∀ before, start.Run done before →
    before.CannotStore call →
      before.setPairStr call.1 call.2 = some (.error .noMem, before)
  bounded : ∀ done, done <+: calls → ∀ state, start.Run done state → state.numNvp ≤ maxCmdNum

/-- What a call does to the count. -/
theorem setPairStr_numNvp {before after : NvpT} {name value : Str} {result : Except NvpErr Unit}
    (called : before.setPairStr name value = some (result, after)) :
    after.numNvp = before.numNvp ∨
      (name.length + value.length ≤ maxDataLen ∧ before.getPairIndex name = none ∧
        after.numNvp = before.numNvp + 1) := by
  rw [setPairStr] at called
  split at called
  · cases called
    exact Or.inl rfl
  · rename_i short
    split at called
    · rename_i absent
      obtain ⟨nvp, _, same⟩ := Option.map_eq_some_iff.mp called
      cases same
      exact Or.inr ⟨Nat.not_lt.mp short, absent, rfl⟩
    · obtain ⟨nvp, _, same⟩ := Option.map_eq_some_iff.mp called
      cases same
      exact Or.inl rfl

/-- A call that cannot be stored is counted all the same. -/
theorem CannotStore.numNvp {before after : NvpT} {call : Str × Str}
    {result : Except NvpErr Unit} (full : before.CannotStore call)
    (called : before.setPairStr call.1 call.2 = some (result, after)) :
    result = .error .noMem ∧ after.numNvp = before.numNvp + 1 := by
  rw [setPairStr, if_neg (Nat.not_lt.mpr full.short), full.absent] at called
  obtain ⟨nvp, _, same⟩ := Option.map_eq_some_iff.mp called
  rw [if_pos (Nat.lt_succ_of_le full.full)] at same
  cases same
  exact ⟨rfl, rfl⟩

/-- No call ever finds the store full with a new name. -/
def NeverPassed (start : NvpT) (calls : List (Str × Str)) : Prop :=
  ∀ done call later, calls = done ++ call :: later →
    ∀ before, start.Run done before → ¬before.CannotStore call

/-- A call that cannot be stored is one too many. -/
theorem SafeWhenFull.neverPassed {start : NvpT} {calls : List (Str × Str)}
    (safe : start.SafeWhenFull calls) : start.NeverPassed calls := by
  intro done call later split before run full
  have refused := safe.refused done call later split before run full
  exact absurd (full.numNvp refused).2 (Nat.ne_of_lt (Nat.lt_succ_self _))

theorem NeverPassed.safeWhenFull {start : NvpT} {calls : List (Str × Str)}
    (never : start.NeverPassed calls) (fits : start.numNvp ≤ maxCmdNum) :
    start.SafeWhenFull calls where
  refused := fun done call later split before run full =>
    absurd full (never done call later split before run)
  bounded := by
    intro done front state run
    induction run with
    | nil => exact fits
    | @snoc earlier before after call run called inductionHypothesis =>
      have bound := inductionHypothesis ((List.prefix_append _ _).trans front)
      obtain ⟨later, split⟩ := front
      rw [List.append_assoc, List.singleton_append] at split
      obtain ⟨result, called⟩ := called
      rcases setPairStr_numNvp called with same | ⟨short, absent, more⟩
      · rw [same]
        exact bound
      · have room : ¬maxCmdNum ≤ before.numNvp := fun full =>
          never earlier call later split.symm before run ⟨short, absent, full⟩
        rw [more]
        exact Nat.lt_of_not_le room

/-- For every structure with no more pairs than rows and every sequence of calls: a full store is
safe if and only if no call ever finds it full with a new name. -/
theorem safeWhenFull_iff {start : NvpT} (fits : start.numNvp ≤ maxCmdNum)
    (calls : List (Str × Str)) : start.SafeWhenFull calls ↔ start.NeverPassed calls :=
  ⟨SafeWhenFull.neverPassed, fun never => never.safeWhenFull fits⟩

/-! ### The memory of the pairs -/

/-- A string without a zero in it. -/
def Terminated (text : Str) : Prop := (0 : UInt8) ∉ text

/-- The memory holds the rows of some pairs, each behind the other and with its terminator. -/
structure Holds (nt : NvpT) (pairs : Nvp) : Prop where
  seperator : nt.seperator = pairs.seperator
  equalMark : nt.equalMark = pairs.equalMark
  numNvp : nt.numNvp = pairs.nvp.length
  few : pairs.nvp.length ≤ maxCmdNum
  short : ∀ row ∈ pairs.nvp, row.length < maxDataLen
  rows : ∀ index row, pairs.nvp[index]? = some row →
    load nt.nvp (rowPlace index) (row.length + 1) = row ++ [0]

theorem create_holds (seperator mark : Str) :
    (create seperator mark).Holds ⟨seperator, mark, []⟩ where
  seperator := rfl
  equalMark := rfl
  numNvp := rfl
  few := Nat.zero_le _
  short := fun _ member => nomatch member
  rows := fun _ _ there => nomatch there

/-- A comparison ends in a row, whatever is behind its terminator. -/
theorem startsAt_iff {nt : NvpT} {place : Nat} {row text : Str} (terminated : Terminated text)
    (held : load nt.nvp place (row.length + 1) = row ++ [0]) :
    nt.StartsAt place text ↔ text <+: row := by
  have whole : load nt.nvp place (row.length + 1 + text.length) =
      row ++ 0 :: load nt.nvp (place + (row.length + 1)) text.length := by
    rw [load_add, held, List.append_assoc, List.singleton_append]
  have front : load nt.nvp place text.length <+:
      load nt.nvp place (row.length + 1 + text.length) := by
    rw [Nat.add_comm, load_add]
    exact List.prefix_append _ _
  rw [← prefix_marked terminated, ← whole, StartsAt]
  constructor
  · intro same
    rwa [same] at front
  · intro starts
    have within := List.prefix_of_prefix_length_le front starts (by rw [load_length])
    exact within.eq_of_length (load_length ..)

theorem startsAt_append {nt : NvpT} {place : Nat} {front rest : Str} :
    nt.StartsAt place (front ++ rest) ↔
      nt.StartsAt place front ∧ nt.StartsAt (place + front.length) rest := by
  unfold StartsAt
  rw [List.length_append, load_add]
  exact ⟨fun same => List.append_inj same (load_length ..), fun ⟨first, second⟩ => by
    rw [first, second]⟩

theorem append_prefix_iff {front rest row : Str} :
    front ++ rest <+: row ↔ front <+: row ∧ rest <+: row.drop front.length := by
  constructor
  · intro both
    obtain ⟨behind, rfl⟩ := both
    rw [List.append_assoc, List.drop_left]
    exact ⟨List.prefix_append _ _, List.prefix_append _ _⟩
  · rintro ⟨⟨behind, rfl⟩, second⟩
    rw [List.drop_left] at second
    exact (List.prefix_append_right_inj front).mpr second

/-- Which names a row in the memory answers to. -/
theorem names_row_iff {nt : NvpT} {name row : Str} {index : Nat}
    (clear : Terminated (nt.seperator ++ (name ++ nt.equalMark)))
    (held : load nt.nvp (rowPlace index) (row.length + 1) = row ++ [0]) :
    nt.Names name index ↔ nt.seperator ++ (name ++ nt.equalMark) <+: row := by
  rw [Names, ← startsAt_append, ← startsAt_append, startsAt_iff clear held]

theorem entry_front (nt : NvpT) (name value : Str) :
    nt.seperator ++ (name ++ nt.equalMark) <+: nt.entry name value :=
  ⟨value, by rw [entry, List.append_assoc, List.append_assoc]⟩

theorem pairs_names_iff {pairs : Nvp} {name row : Str} :
    pairs.Names name row ↔ pairs.seperator ++ (name ++ pairs.equalMark) <+: row := by
  rw [append_prefix_iff, append_prefix_iff, List.drop_drop, Nvp.Names]

/-- A row in the memory answers to the same names. -/
theorem names_iff {nt : NvpT} {pairs : Nvp} (holds : nt.Holds pairs) {name row : Str} {index : Nat}
    (clear : Terminated (pairs.seperator ++ (name ++ pairs.equalMark)))
    (there : pairs.nvp[index]? = some row) : nt.Names name index ↔ pairs.Names name row := by
  rw [← holds.seperator, ← holds.equalMark] at clear
  rw [names_row_iff clear (holds.rows index row there), pairs_names_iff, holds.seperator,
    holds.equalMark]

/-- The memory finds the row that the list finds. -/
theorem getPairIndex_eq {nt : NvpT} {pairs : Nvp} (holds : nt.Holds pairs) {name : Str}
    (clear : Terminated (pairs.seperator ++ (name ++ pairs.equalMark))) :
    nt.getPairIndex name = pairs.getPairIndex name := by
  have same : ∀ index (inside : index < pairs.nvp.length),
      nt.Names name index ↔ pairs.Names name pairs.nvp[index] := fun index inside =>
    names_iff holds clear (List.getElem?_eq_getElem inside)
  rw [getPairIndex, Nvp.getPairIndex, holds.numNvp]
  split
  · rfl
  · cases found : pairs.nvp.findIdx? fun row => decide (pairs.Names name row) with
    | none =>
      rw [List.find?_range_eq_none]
      intro index inside
      have other := List.findIdx?_eq_none_iff.mp found _ (List.getElem_mem inside)
      rw [decide_eq_decide.mpr (same index inside), other]
      rfl
    | some index =>
      obtain ⟨inside, named, before⟩ := List.findIdx?_eq_some_iff_getElem.mp found
      rw [List.find?_range_eq_some]
      refine ⟨?_, List.mem_range.mpr inside, fun earlier less => ?_⟩
      · rwa [decide_eq_decide.mpr (same index inside)]
      · have other := before earlier less
        rw [decide_eq_decide.mpr (same earlier (less.trans inside))]
        rwa [Bool.not_eq_true', ← Bool.not_eq_true]

/-- What is written into the place of one row leaves the others. -/
theorem load_row_apart {memory : Memory} {index other : Nat} {bytes kept : Str}
    (apart : index ≠ other) (fits : bytes.length ≤ maxDataLen) (short : kept.length < maxDataLen) :
    load (store memory (rowPlace index) bytes) (rowPlace other) (kept.length + 1) =
      load memory (rowPlace other) (kept.length + 1) := by
  refine load_store_apart bytes ?_
  unfold rowPlace maxDataLen at *
  omega

theorem printed_length (row : Str) : (row ++ [(0 : UInt8)]).length = row.length + 1 :=
  List.length_append

/-- A row among the others that is printed is read again. -/
theorem load_printed (memory : Memory) (index : Nat) (row : Str) :
    load (store memory (rowPlace index) (row ++ [0])) (rowPlace index) (row.length + 1) =
      row ++ [0] := by
  rw [← printed_length]
  exact load_store _ _ _

theorem print_of_row {nt : NvpT} {index : Nat} {name value : Str} (inside : index < maxCmdNum)
    (short : (nt.entry name value).length < maxDataLen) :
    nt.print index name value =
      some (store nt.nvp (rowPlace index) (nt.entry name value ++ [0])) := by
  rw [print, if_pos]
  unfold rowPlace roomOfBoth maxDataLen maxCmdNum at *
  omega

/-- A row behind the others. -/
theorem Holds.append {nt : NvpT} {pairs : Nvp} (holds : nt.Holds pairs) {row : Str}
    (free : pairs.nvp.length < maxCmdNum) (short : row.length < maxDataLen) :
    Holds { nt with
        nvp := store nt.nvp (rowPlace nt.numNvp) (row ++ [0]), numNvp := nt.numNvp + 1 }
      { pairs with nvp := pairs.nvp ++ [row] } where
  seperator := holds.seperator
  equalMark := holds.equalMark
  numNvp := by
    rw [List.length_append, holds.numNvp]
    rfl
  few := by
    rw [List.length_append]
    exact free
  short := List.forall_mem_append.mpr ⟨holds.short, List.forall_mem_singleton.mpr short⟩
  rows := by
    intro index kept there
    rw [holds.numNvp]
    rcases Nat.lt_or_ge index pairs.nvp.length with earlier | last
    · rw [List.getElem?_append_left earlier] at there
      have fits := printed_length row
      rw [load_row_apart (Nat.ne_of_gt earlier) (by omega)
        (holds.short kept (List.mem_of_getElem? there))]
      exact holds.rows index kept there
    · rw [List.getElem?_append_right last] at there
      obtain ⟨at_end, same⟩ := List.getElem?_eq_some_iff.mp there
      rw [List.length_singleton] at at_end
      have here : index = pairs.nvp.length := by omega
      rw [List.getElem_singleton] at same
      rw [here, ← same]
      exact load_printed _ _ _

/-- A row in the place of another one. -/
theorem Holds.set {nt : NvpT} {pairs : Nvp} (holds : nt.Holds pairs) {row : Str} {index : Nat}
    (short : row.length < maxDataLen) :
    Holds { nt with
        nvp := store (store nt.nvp (rowPlace index) (List.replicate maxDataLen 0))
          (rowPlace index) (row ++ [0]) }
      { pairs with nvp := pairs.nvp.set index row } where
  seperator := holds.seperator
  equalMark := holds.equalMark
  numNvp := by
    rw [List.length_set]
    exact holds.numNvp
  few := by
    rw [List.length_set]
    exact holds.few
  short := fun kept member => by
    rcases List.mem_or_eq_of_mem_set member with before | rfl
    · exact holds.short kept before
    · exact short
  rows := by
    intro other kept there
    by_cases here : index = other
    · obtain ⟨inside, same⟩ := List.getElem?_eq_some_iff.mp there
      subst here
      rw [List.getElem_set_self] at same
      rw [← same]
      exact load_printed _ _ _
    · rw [List.getElem?_set_ne here] at there
      have keptShort := holds.short kept (List.mem_of_getElem? there)
      have fits := printed_length row
      rw [load_row_apart here (by omega) keptShort, load_row_apart here
        (List.length_replicate ..).le keptShort]
      exact holds.rows other kept there

/-- What succeeds on the list of rows succeeds in the memory, which then holds the same rows. -/
theorem Holds.setPairStr {nt : NvpT} {pairs next : Nvp} (holds : nt.Holds pairs)
    {name value : Str} (clear : Terminated (pairs.seperator ++ (name ++ pairs.equalMark)))
    (stored : pairs.setPairStr name value = some (.ok next)) :
    ∃ after, nt.setPairStr name value = some (.ok (), after) ∧ after.Holds next := by
  have entry : nt.entry name value = pairs.entry name value := by
    rw [NvpT.entry, Nvp.entry, holds.seperator, holds.equalMark]
  rw [Nvp.setPairStr] at stored
  rw [NvpT.setPairStr, getPairIndex_eq holds clear]
  split at stored
  · cases stored
  · rename_i short
    rw [if_neg short]
    cases found : pairs.getPairIndex name with
    | none =>
      rw [found] at stored
      dsimp only at stored ⊢
      split at stored
      · rename_i room
        cases stored
        have count := holds.numNvp
        rw [← entry] at room ⊢
        rw [print_of_row (by omega) room.2, Option.map_some, if_neg (by omega)]
        exact ⟨_, rfl, holds.append room.1 room.2⟩
      · cases stored
    | some index =>
      rw [found] at stored
      dsimp only at stored ⊢
      split at stored
      · rename_i fits
        cases stored
        rw [← entry] at fits ⊢
        have inside : index < pairs.nvp.length := by
          rw [Nvp.getPairIndex] at found
          split at found
          · cases found
          · exact (List.findIdx?_eq_some_iff_getElem.mp found).1
        have printed := @print_of_row { nt with
          nvp := store nt.nvp (rowPlace index) (List.replicate maxDataLen 0) } index name value
          (inside.trans_le holds.few) fits
        rw [printed, Option.map_some]
        exact ⟨_, rfl, holds.set fits⟩
      · cases stored

/-- Calls that succeed on the list of rows. -/
theorem Holds.run {nt : NvpT} {pairs after : Nvp} {calls : List (Str × Str)}
    (holds : nt.Holds pairs)
    (clear : ∀ call ∈ calls, Terminated (pairs.seperator ++ (call.1 ++ pairs.equalMark)))
    (set : pairs.setAll calls = some (.ok after)) :
    ∃ state, nt.Run calls state ∧ state.Holds after := by
  induction calls using List.reverseRecOn generalizing after with
  | nil =>
    cases set
    exact ⟨nt, .nil, holds⟩
  | append_singleton calls call inductionHypothesis =>
    obtain ⟨before, earlier, last⟩ := Nvp.setAll_concat set
    obtain ⟨sameSeperator, sameMark⟩ := Nvp.setAll_marks earlier
    obtain ⟨state, run, held⟩ := inductionHypothesis
      (fun other member => clear other (List.mem_append_left _ member)) earlier
    have own := clear call (List.mem_append_right _ (List.mem_singleton_self _))
    rw [← sameSeperator, ← sameMark] at own
    obtain ⟨final, called, finalHeld⟩ := held.setPairStr own last
    exact ⟨final, run.snoc ⟨_, called⟩, finalHeld⟩

/-! ### How many names there are -/

section Names

variable {seperator mark : Str} {calls : List (Str × Str)}

/-- Calls that pass the checks, with rows that keep what they are given. -/
structure Plain (seperator mark : Str) (call : Str × Str) : Prop where
  keeps : Nvp.Keeps seperator mark call
  short : call.1.length + call.2.length ≤ maxDataLen
  clear : Terminated (seperator ++ (call.1 ++ mark))

/-- The number of different names. -/
def distinctNames (calls : List (Str × Str)) : Nat := (calls.map Prod.fst).dedup.length

theorem distinctNames_concat (calls : List (Str × Str)) (call : Str × Str) :
    distinctNames (calls ++ [call]) =
      if call.1 ∈ calls.map Prod.fst then distinctNames calls else distinctNames calls + 1 := by
  unfold distinctNames
  rw [← List.card_toFinset, ← List.card_toFinset, List.map_append, List.toFinset_append,
    List.map_singleton, List.toFinset_cons, List.toFinset_nil, insert_empty_eq, Finset.union_comm,
    ← Finset.insert_eq]
  split
  · rename_i there
    rw [Finset.insert_eq_of_mem (List.mem_toFinset.mpr there)]
  · rename_i absent
    rw [Finset.card_insert_of_notMem (mt List.mem_toFinset.mp absent)]

theorem distinctNames_le (done later : List (Str × Str)) :
    distinctNames done ≤ distinctNames (done ++ later) := by
  induction later using List.reverseRecOn with
  | nil => rw [List.append_nil]
  | append_singleton later call inductionHypothesis =>
    rw [← List.append_assoc, distinctNames_concat]
    split
    · exact inductionHypothesis
    · exact inductionHypothesis.trans (Nat.le_succ _)

/-- Where the limit is passed. -/
theorem exists_passing {limit : Nat} (many : limit < distinctNames calls) :
    ∃ done call later, calls = done ++ call :: later ∧ distinctNames done = limit ∧
      call.1 ∉ done.map Prod.fst := by
  induction calls using List.reverseRecOn with
  | nil => exact absurd many (Nat.not_lt_zero _)
  | append_singleton calls call inductionHypothesis =>
    by_cases earlier : limit < distinctNames calls
    · obtain ⟨done, passing, later, split, rest⟩ := inductionHypothesis earlier
      refine ⟨done, passing, later ++ [call], ?_, rest⟩
      rw [split, List.append_assoc, List.cons_append]
    · rw [distinctNames_concat] at many
      split at many
      · exact absurd many earlier
      · rename_i absent
        exact ⟨calls, call, [], rfl, by omega, absent⟩

/-- The names in the list are located, as those of the calls are. -/
theorem located_upsertAll (plain : ∀ call ∈ calls, Plain seperator mark call) :
    ∀ pair ∈ upsertAll [] calls, Nvp.Located seperator mark pair.1 := by
  intro pair kept
  obtain ⟨set, member, name⟩ := List.mem_map.mp
    (((keys_upsertAll calls).2 pair.1).mp (List.mem_map_of_mem kept))
  rw [← name]
  exact (plain set member).keeps.located

/-- As long as there are no more names than rows, each call finds its row or a free one. -/
theorem setAll_of_few (plain : ∀ call ∈ calls, Plain seperator mark call)
    (few : distinctNames calls ≤ maxCmdNum) :
    Nvp.setAll ⟨seperator, mark, []⟩ calls =
      some (.ok ⟨seperator, mark, Nvp.rows seperator mark (upsertAll [] calls)⟩) := by
  induction calls using List.reverseRecOn with
  | nil => rfl
  | append_singleton calls call inductionHypothesis =>
    have earlier : ∀ other ∈ calls, Plain seperator mark other :=
      fun other member => plain other (List.mem_append_left _ member)
    have own := plain call (List.mem_append_right _ (List.mem_singleton_self _))
    have located := located_upsertAll earlier
    have set := inductionHypothesis earlier ((distinctNames_le _ _).trans few)
    rw [Nvp.setAll_snoc set, upsertAll_concat]
    refine Nvp.setPairStr_rows located own.keeps own.short ?_
    rw [Nvp.getPairIndex_rows located own.keeps.located (Nat.le_of_add_right_le own.short)]
    by_cases there : call.1 ∈ calls.map Prod.fst
    · obtain ⟨pair, kept, name⟩ := List.mem_map.mp (((keys_upsertAll calls).2 call.1).mpr there)
      refine Or.inl ?_
      rw [List.findIdx?_isSome]
      exact List.any_eq_true.mpr ⟨pair, kept, decide_eq_true name⟩
    · rw [distinctNames_concat, if_neg there] at few
      refine Or.inr ?_
      rw [Nvp.rows, List.length_map, length_upsertAll]
      exact few

/-- The memory after the calls that find a row. -/
theorem run_of_few (plain : ∀ call ∈ calls, Plain seperator mark call)
    (few : distinctNames calls ≤ maxCmdNum) :
    ∃ state, (create seperator mark).Run calls state ∧
      state.Holds ⟨seperator, mark, Nvp.rows seperator mark (upsertAll [] calls)⟩ :=
  (create_holds seperator mark).run (fun call member => (plain call member).clear)
    (setAll_of_few plain few)

/-- The next name does not fit when there are as many as rows. -/
theorem cannotStore_of_full {state : NvpT} {call : Str × Str}
    (plain : ∀ call ∈ calls, Plain seperator mark call) (own : Plain seperator mark call)
    (held : state.Holds ⟨seperator, mark, Nvp.rows seperator mark (upsertAll [] calls)⟩) :
    state.CannotStore call ↔
      distinctNames calls = maxCmdNum ∧ call.1 ∉ calls.map Prod.fst := by
  have index : state.getPairIndex call.1 =
      (upsertAll [] calls).findIdx? fun pair => decide (pair.1 = call.1) := by
    rw [getPairIndex_eq held own.clear, Nvp.getPairIndex_rows (located_upsertAll plain)
      own.keeps.located (Nat.le_of_add_right_le own.short)]
  have count : state.numNvp = distinctNames calls := by
    rw [held.numNvp, Nvp.rows, List.length_map, length_upsertAll, distinctNames]
  have bound : distinctNames calls ≤ maxCmdNum := by
    rw [← count, held.numNvp]
    exact held.few
  have missing : state.getPairIndex call.1 = none ↔ call.1 ∉ calls.map Prod.fst := by
    rw [index, List.findIdx?_eq_none_iff, ← (keys_upsertAll calls).2]
    constructor
    · intro other member
      obtain ⟨pair, kept, name⟩ := List.mem_map.mp member
      exact of_decide_eq_false (other pair kept) name
    · intro absent pair kept
      exact decide_eq_false fun name => absent (List.mem_map.mpr ⟨pair, kept, name⟩)
  constructor
  · rintro ⟨_, absent, full⟩
    rw [count] at full
    exact ⟨Nat.le_antisymm bound full, missing.mp absent⟩
  · rintro ⟨full, absent⟩
    exact ⟨own.short, missing.mpr absent, by rw [count, full]⟩

/-- As long as there are no more names than rows, no call finds the store full with a new one. -/
theorem neverPassed_of_few (plain : ∀ call ∈ calls, Plain seperator mark call)
    (few : distinctNames calls ≤ maxCmdNum) : (create seperator mark).NeverPassed calls := by
  intro done call later split before run full
  have earlier : ∀ other ∈ done, Plain seperator mark other :=
    fun other member => plain other (split ▸ List.mem_append_left _ member)
  have own := plain call (split ▸ List.mem_append_right _ List.mem_cons_self)
  have front : distinctNames (done ++ [call]) ≤ maxCmdNum := by
    refine (distinctNames_le _ later).trans ?_
    rwa [List.append_assoc, List.singleton_append, ← split]
  obtain ⟨state, same, held⟩ := run_of_few earlier ((distinctNames_le _ _).trans front)
  have equal : before = state := run.unique (fun _ _ _ _ first second => by
    obtain ⟨_, first⟩ := first
    obtain ⟨_, second⟩ := second
    rw [first] at second
    cases second
    rfl) same
  obtain ⟨count, absent⟩ := (cannotStore_of_full earlier own held).mp (equal ▸ full)
  rw [distinctNames_concat, if_neg absent, count] at front
  exact absurd front (Nat.not_succ_le_self _)

/-- With names that are found again, a full store is safe if and only if it never gets more names
than it has rows. -/
theorem safeWhenFull_iff_names (plain : ∀ call ∈ calls, Plain seperator mark call) :
    (create seperator mark).SafeWhenFull calls ↔ distinctNames calls ≤ maxCmdNum := by
  constructor
  · intro safe
    have never := safe.neverPassed
    by_contra many
    obtain ⟨done, call, later, split, full, absent⟩ := exists_passing (Nat.not_le.mp many)
    have earlier : ∀ other ∈ done, Plain seperator mark other :=
      fun other member => plain other (split ▸ List.mem_append_left _ member)
    have own := plain call (split ▸ List.mem_append_right _ List.mem_cons_self)
    obtain ⟨state, run, held⟩ := run_of_few earlier full.le
    exact never done call later split state run
      ((cannotStore_of_full earlier own held).mpr ⟨full, absent⟩)
  · exact fun few => (neverPassed_of_few plain few).safeWhenFull (Nat.zero_le _)

end Names

/-! ### Behind the last row -/

/-- A call that cannot be stored is found by the next one with its name, in the message buffer. -/
theorem CannotStore.found {nt after : NvpT} {pairs : Nvp} {call : Str × Str}
    {result : Except NvpErr Unit} (full : nt.CannotStore call) (held : nt.Holds pairs)
    (clear : Terminated (pairs.seperator ++ (call.1 ++ pairs.equalMark)))
    (called : nt.setPairStr call.1 call.2 = some (result, after)) :
    after.getPairIndex call.1 = some maxCmdNum := by
  have count : nt.numNvp = maxCmdNum :=
    Nat.le_antisymm (held.numNvp.trans_le held.few) full.full
  have short : ¬maxDataLen < call.1.length :=
    Nat.not_lt.mpr (Nat.le_of_add_right_le full.short)
  have absent := full.absent
  rw [getPairIndex_eq held clear, Nvp.getPairIndex, if_neg short,
    List.findIdx?_eq_none_iff] at absent
  rw [setPairStr, if_neg (Nat.not_lt.mpr full.short), full.absent] at called
  obtain ⟨nvp, printed, same⟩ := Option.map_eq_some_iff.mp called
  cases same
  rw [print] at printed
  split at printed
  · cases printed
    have own : Terminated (nt.seperator ++ (call.1 ++ nt.equalMark)) := by
      rwa [held.seperator, held.equalMark]
    have names := fun row index => @names_row_iff ⟨nt.seperator, nt.equalMark, nt.numNvp + 1,
      store nt.nvp (rowPlace nt.numNvp) (nt.entry call.1 call.2 ++ [0])⟩ call.1 row index own
    rw [getPairIndex, if_neg short, List.find?_range_eq_some]
    refine ⟨decide_eq_true ?_, List.mem_range.mpr (by rw [count]; exact Nat.lt_succ_self _), ?_⟩
    · -- the row is behind the last one, where it was printed
      rw [← count]
      refine (names _ _ (load_printed nt.nvp nt.numNvp (nt.entry call.1 call.2))).mpr ?_
      exact nt.entry_front call.1 call.2
    · intro earlier less
      have inside : earlier < pairs.nvp.length := by
        rw [← held.numNvp, count]
        exact less
      have fits := held.short _ (List.getElem_mem inside)
      have kept : load (store nt.nvp (rowPlace nt.numNvp) (nt.entry call.1 call.2 ++ [0]))
          (rowPlace earlier) (pairs.nvp[earlier].length + 1) = pairs.nvp[earlier] ++ [0] := by
        rw [load_store_apart, held.rows earlier _ (List.getElem?_eq_getElem inside)]
        right
        unfold rowPlace maxDataLen at *
        omega
      have other : ¬pairs.Names call.1 pairs.nvp[earlier] :=
        of_decide_eq_false (absent _ (List.getElem_mem inside))
      rw [pairs_names_iff, ← held.seperator, ← held.equalMark] at other
      rw [Bool.not_eq_true']
      exact decide_eq_false (mt (names _ _ kept).mp other)
  · cases printed

/-- Fifty-one names of one character. -/
def fiftyOne : List (Str × Str) :=
  (List.range 51).map fun number => ([UInt8.ofNat (65 + number)], [49])

theorem fiftyOne_plain : ∀ call ∈ fiftyOne, Plain [94, 94] [61, 61] call := by
  intro call member
  obtain ⟨number, inside, rfl⟩ := List.mem_map.mp member
  have below := List.mem_range.mp inside
  have located : ∀ number < 51,
      Nvp.Located [94, 94] [61, 61] [UInt8.ofNat (65 + number)] := by decide
  have clear : ∀ number < 51,
      (0 : UInt8) ∉ [94, 94] ++ ([UInt8.ofNat (65 + number)] ++ [61, 61]) := by decide
  refine ⟨⟨by decide, by decide, ?_, located number below⟩, ?_, clear number below⟩
  · exact show 6 < 100 by decide
  · exact show 2 ≤ 100 by decide

/-- Fifty names are set, and each of them once more in the full store. -/
theorem safeWhenFull_iff_twice : distinctNames (fiftyOne.take 50 ++ fiftyOne.take 50) = maxCmdNum ∧
    (create [94, 94] [61, 61]).SafeWhenFull (fiftyOne.take 50 ++ fiftyOne.take 50) := by
  have all : distinctNames (fiftyOne.take 50 ++ fiftyOne.take 50) = maxCmdNum := by
    decide +kernel
  have plain : ∀ call ∈ fiftyOne.take 50 ++ fiftyOne.take 50, Plain [94, 94] [61, 61] call := by
    intro call member
    rcases List.mem_append.mp member with first | second
    · exact fiftyOne_plain call (List.mem_of_mem_take first)
    · exact fiftyOne_plain call (List.mem_of_mem_take second)
  exact ⟨all, (safeWhenFull_iff (Nat.zero_le _) _).mpr
    (neverPassed_of_few plain (Nat.le_of_eq all))⟩

/-- The last of fifty-one names with the marks of the library. -/
theorem one_name_too_many : maxCmdNum < distinctNames fiftyOne ∧
    ¬(create [94, 94] [61, 61]).SafeWhenFull fiftyOne := by
  have many : maxCmdNum < distinctNames fiftyOne := by decide
  refine ⟨many, ?_⟩
  rw [safeWhenFull_iff_names fiftyOne_plain]
  exact Nat.not_le.mpr many

end NvpT

end ExmOnvif.NvPair
