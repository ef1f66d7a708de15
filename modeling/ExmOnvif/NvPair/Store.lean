/-
This file is about the name/value pairs as a store: whether a name that was set gives the value
set last, whatever else was set, and whether each name is counted once.

A row is looked up by comparing its front, but its value is taken from behind the first equal
mark in it. The two agree for names whose equal mark is found first behind them, and only for
those. The limit on a name and its value leaves out both marks, so that a row may be written that
is longer than its place.
-/

import ExmOnvif.Library.Assoc
import ExmOnvif.NvPair.Pairs

namespace ExmOnvif.NvPair

open Library

namespace Nvp

/-- `nvp_get_count`. -/
def getCount (nt : Nvp) : Nat := nt.nvp.length

/-! ### The claims of a store -/

/-- Each call returns `NVP_SUCCESS`: its name and value are short enough, the value is not empty,
and there is a row for it. -/
def Succeed (nt : Nvp) : List (Str × Str) → Prop
  | [] => True
  | call :: calls =>
    call.1.length + call.2.length ≤ maxDataLen ∧ call.2 ≠ [] ∧
      ((nt.getPairIndex call.1).isSome ∨ nt.nvp.length < maxCmdNum) ∧
      ∀ next, nt.setPairStr call.1 call.2 = some (.ok next) → Succeed next calls

/-- Marks that are accepted, and calls that succeed with them. -/
structure Accepted (seperator mark : Str) (calls : List (Str × Str)) : Prop where
  seperatorAccepted : seperator.length ≤ maxMarkLen
  markAccepted : mark.length ≤ maxMarkLen
  succeed : ∀ blank, marked seperator mark = some (.ok blank) → blank.Succeed calls

/-- Every name that was set gives its last value, whatever the default, and is counted once. -/
structure Maps (nt : Nvp) (calls : List (Str × Str)) : Prop where
  gets : ∀ call ∈ calls, ∀ defVal, nt.getPairStr call.1 defVal = calls.reverse.lookup call.1
  count : nt.getCount = (calls.map Prod.fst).dedup.length

/-- After each of the calls, no one of which writes outside its row, the pairs are a map. -/
def StoresMap (seperator mark : Str) (calls : List (Str × Str)) : Prop :=
  ∀ done, done <+: calls → done ≠ [] →
    ∃ blank after, marked seperator mark = some (.ok blank) ∧
      blank.setAll done = some (.ok after) ∧ after.Maps done

/-! ### Names that are found again -/

/-- In the front of a row the equal mark is found behind the name, and not before. -/
def Located (seperator mark name : Str) : Prop :=
  strstr mark (seperator ++ (name ++ mark)) = some mark

instance (seperator mark name : Str) : Decidable (Located seperator mark name) :=
  inferInstanceAs (Decidable (_ = _))

/-- Marks with room for their terminators, a row that fits into its place, and a name that is found
again. -/
structure Keeps (seperator mark : Str) (call : Str × Str) : Prop where
  seperatorShort : seperator.length < maxMarkLen
  markShort : mark.length < maxMarkLen
  fits : (rowOf seperator mark call).length < maxDataLen
  located : Located seperator mark call.1

section Located

variable {seperator mark : Str}

/-- The value of a row is found behind its mark exactly when its name is located. -/
theorem located_iff (call : Str × Str) : Located seperator mark call.1 ↔
    strstr mark (rowOf seperator mark call) = some (mark ++ call.2) := by
  have whole : rowOf seperator mark call = seperator ++ call.1 ++ (mark ++ call.2) :=
    (List.append_assoc _ _ _).symm
  rw [whole, strstr_followed_iff, Located, List.append_assoc]

/-- The row of a pair answers to its name. -/
theorem names_entry (nt : Nvp) (name value : Str) : nt.Names name (nt.entry name value) := by
  refine ⟨List.prefix_append _ _, ?_, ?_⟩
  · rw [entry, List.drop_left]
    exact List.prefix_append _ _
  · rw [← List.drop_drop, entry, List.drop_left, List.drop_left]
    exact List.prefix_append _ _

/-- Rows of located names answer to their own name and to no other located one. -/
theorem names_located {nt : Nvp} {name : Str} {call : Str × Str}
    (located : Located nt.seperator nt.equalMark name)
    (callLocated : Located nt.seperator nt.equalMark call.1) :
    nt.Names name (rowOf nt.seperator nt.equalMark call) ↔ call.1 = name := by
  constructor
  · rintro ⟨_, named, marked⟩
    have front : (rowOf nt.seperator nt.equalMark call).drop nt.seperator.length =
        call.1 ++ (nt.equalMark ++ call.2) := List.drop_left
    rw [← List.drop_drop, front] at marked
    rw [front] at named
    obtain ⟨rest, split⟩ := named
    rw [← split, List.drop_left] at marked
    obtain ⟨value, rfl⟩ := marked
    -- both names put the first mark where theirs ends
    have own := (located_iff call).mp callLocated
    have other := (located_iff (name, value)).mp located
    have same : rowOf nt.seperator nt.equalMark call =
        rowOf nt.seperator nt.equalMark (name, value) :=
      congrArg (nt.seperator ++ ·) split.symm
    rw [same, other, Option.some.injEq] at own
    rw [own] at split
    exact (List.append_cancel_right split).symm
  · rintro rfl
    exact nt.names_entry call.1 call.2

variable {pairs : List (Str × Str)}

/-- The row of a located name is looked up by its name. -/
theorem findIdx_names {nt : Nvp} {name : Str}
    (located : ∀ pair ∈ pairs, Located nt.seperator nt.equalMark pair.1)
    (own : Located nt.seperator nt.equalMark name) :
    (rows nt.seperator nt.equalMark pairs).findIdx? (fun row => decide (nt.Names name row)) =
      pairs.findIdx? fun pair => decide (pair.1 = name) := by
  induction pairs with
  | nil => rfl
  | cons pair pairs inductionHypothesis =>
    have here := @names_located nt name pair own (located pair List.mem_cons_self)
    rw [rows_cons, List.findIdx?_cons, List.findIdx?_cons, decide_eq_decide.mpr here,
      inductionHypothesis fun other later => located other (List.mem_cons_of_mem _ later)]

theorem getPairIndex_rows (located : ∀ pair ∈ pairs, Located seperator mark pair.1) {name : Str}
    (own : Located seperator mark name) (short : name.length ≤ maxDataLen) :
    getPairIndex ⟨seperator, mark, rows seperator mark pairs⟩ name =
      pairs.findIdx? fun pair => decide (pair.1 = name) := by
  rw [getPairIndex, if_neg (Nat.not_lt.mpr short)]
  exact @findIdx_names pairs ⟨seperator, mark, rows seperator mark pairs⟩ name located own

/-- A name is set in the store as it is in the list of pairs. -/
theorem setPairStr_rows (located : ∀ pair ∈ pairs, Located seperator mark pair.1)
    {call : Str × Str} (keeps : Keeps seperator mark call)
    (short : call.1.length + call.2.length ≤ maxDataLen)
    (room : (getPairIndex ⟨seperator, mark, rows seperator mark pairs⟩ call.1).isSome ∨
      (rows seperator mark pairs).length < maxCmdNum) :
    setPairStr ⟨seperator, mark, rows seperator mark pairs⟩ call.1 call.2 =
      some (.ok ⟨seperator, mark, rows seperator mark (upsert call.1 call.2 pairs)⟩) := by
  have index := getPairIndex_rows located keeps.located (Nat.le_of_add_right_le short)
  have fits := keeps.fits
  have row : entry ⟨seperator, mark, rows seperator mark pairs⟩ call.1 call.2 =
      rowOf seperator mark call := rfl
  rw [setPairStr, if_neg (Nat.not_lt.mpr short), upsert_eq]
  rw [index] at room ⊢
  cases found : pairs.findIdx? fun pair => decide (pair.1 = call.1) with
  | none =>
    rw [found] at room
    have free := room.resolve_left Bool.false_ne_true
    dsimp only
    rw [row, if_pos ⟨free, fits⟩, rows, rows, List.map_append, List.map_singleton]
  | some index =>
    dsimp only
    rw [row, if_pos fits, rows, rows, List.map_set]

/-- A name in the store gives its value. -/
theorem getPairStr_located (located : ∀ pair ∈ pairs, Located seperator mark pair.1)
    {name value : Str} (own : Located seperator mark name) (short : name.length ≤ maxDataLen)
    (stored : pairs.lookup name = some value) (valued : value ≠ []) (defVal : Option Str) :
    getPairStr ⟨seperator, mark, rows seperator mark pairs⟩ name defVal = some value := by
  obtain ⟨index, found, there⟩ := findIdx?_of_lookup stored
  have row : (rows seperator mark pairs).getD index [] = rowOf seperator mark (name, value) := by
    rw [List.getD_eq_getElem?_getD, rows, List.getElem?_map, there]
    rfl
  rw [getPairStr, if_neg (Nat.not_lt.mpr short), getPairIndex_rows located own short, found]
  dsimp only
  rw [row, (located_iff (name, value)).mp own]
  dsimp only
  rw [List.drop_left, if_neg valued]

/-- A located name that is not in the store gives the default. -/
theorem getPairStr_absent (located : ∀ pair ∈ pairs, Located seperator mark pair.1)
    {name : Str} (own : Located seperator mark name) (short : name.length ≤ maxDataLen)
    (absent : pairs.lookup name = none) (defVal : Option Str) :
    getPairStr ⟨seperator, mark, rows seperator mark pairs⟩ name defVal = defVal := by
  rw [getPairStr, if_neg (Nat.not_lt.mpr short), getPairIndex_rows located own short,
    findIdx?_of_lookup_none absent]

/-! ### A run of calls -/

theorem marked_of_short (seperatorShort : seperator.length < maxMarkLen)
    (markShort : mark.length < maxMarkLen) :
    marked seperator mark = some (.ok ⟨seperator, mark, []⟩) := by
  rw [marked, setEqualMark, if_neg (Nat.not_lt.mpr markShort.le), if_neg markShort.ne]
  dsimp only
  rw [setSeperator, if_neg (Nat.not_lt.mpr seperatorShort.le), if_neg seperatorShort.ne]
  rfl

/-- The test that both marks have to pass. -/
theorem length_lt_of_set {next made : Nvp}
    (set : (if maxMarkLen < mark.length then some (.error .paraErr)
      else if mark.length = maxMarkLen then none
      else some (.ok made)) = (some (.ok next) : Option (Except NvpErr Nvp))) :
    mark.length < maxMarkLen ∧ next = made := by
  split at set
  · cases set
  · rename_i notLong
    split at set
    · cases set
    · rename_i notFull
      cases set
      exact ⟨lt_of_le_of_ne (Nat.not_lt.mp notLong) notFull, rfl⟩

theorem setSeperator_eq_ok {nt next : Nvp} (set : nt.setSeperator seperator = some (.ok next)) :
    seperator.length < maxMarkLen ∧ next = { nt with seperator := seperator } :=
  length_lt_of_set set

theorem setEqualMark_eq_ok {nt next : Nvp} (set : nt.setEqualMark mark = some (.ok next)) :
    mark.length < maxMarkLen ∧ next = { nt with equalMark := mark } :=
  length_lt_of_set set

/-- Marks that are set leave room for their terminators. -/
theorem marked_eq_ok {blank : Nvp} (made : marked seperator mark = some (.ok blank)) :
    seperator.length < maxMarkLen ∧ mark.length < maxMarkLen ∧
      blank = ⟨seperator, mark, []⟩ := by
  rw [marked] at made
  split at made
  · rename_i first set
    obtain ⟨markShort, rfl⟩ := setEqualMark_eq_ok set
    obtain ⟨seperatorShort, rfl⟩ := setSeperator_eq_ok made
    exact ⟨seperatorShort, markShort, rfl⟩
  · rename_i failed
    exact absurd made (failed blank)

/-- Calls that succeed, with rows that keep what they are given, are settings of the pairs. -/
theorem setAll_upsertAll (located : ∀ pair ∈ pairs, Located seperator mark pair.1)
    {calls : List (Str × Str)} (keeps : ∀ call ∈ calls, Keeps seperator mark call)
    (succeed : Succeed ⟨seperator, mark, rows seperator mark pairs⟩ calls) :
    setAll ⟨seperator, mark, rows seperator mark pairs⟩ calls =
        some (.ok ⟨seperator, mark, rows seperator mark (upsertAll pairs calls)⟩) ∧
      ∀ call ∈ calls, call.1.length + call.2.length ≤ maxDataLen ∧ call.2 ≠ [] := by
  induction calls generalizing pairs with
  | nil => exact ⟨rfl, fun _ member => nomatch member⟩
  | cons call calls inductionHypothesis =>
    obtain ⟨short, valued, room, rest⟩ := succeed
    have own := keeps call List.mem_cons_self
    have stored := setPairStr_rows located own short room
    have next : ∀ pair ∈ upsert call.1 call.2 pairs, Located seperator mark pair.1 := by
      intro pair member
      rcases mem_upsert member with there | rfl
      · exact located pair there
      · exact own.located
    obtain ⟨done, all⟩ := inductionHypothesis next
      (fun other later => keeps other (List.mem_cons_of_mem _ later)) (rest _ stored)
    rw [setAll, stored]
    exact ⟨done, List.forall_mem_cons.mpr ⟨⟨short, valued⟩, all⟩⟩

theorem Succeed.left {nt : Nvp} {calls more : List (Str × Str)}
    (succeed : nt.Succeed (calls ++ more)) : nt.Succeed calls := by
  induction calls generalizing nt with
  | nil => trivial
  | cons call calls inductionHypothesis =>
    obtain ⟨short, valued, room, rest⟩ := succeed
    exact ⟨short, valued, room, fun next stored => inductionHypothesis (rest next stored)⟩

/-- Names that keep their values make a map. -/
theorem storesMap_of_keeps {calls : List (Str × Str)} (accepted : Accepted seperator mark calls)
    (keeps : ∀ call ∈ calls, Keeps seperator mark call) : StoresMap seperator mark calls := by
  rintro done ⟨more, rfl⟩ some
  obtain ⟨first, member⟩ := List.exists_mem_of_ne_nil done some
  have short := keeps first (List.mem_append_left _ member)
  have marks := marked_of_short short.seperatorShort short.markShort
  have keeps : ∀ call ∈ done, Keeps seperator mark call :=
    fun call inside => keeps call (List.mem_append_left _ inside)
  obtain ⟨set, valued⟩ := @setAll_upsertAll seperator mark [] (fun _ none => nomatch none) done
    keeps (accepted.succeed _ marks).left
  refine ⟨_, _, marks, set, fun call inside defVal => ?_, ?_⟩
  · have own := (keeps call inside).located
    cases stored : done.reverse.lookup call.1 with
    | none =>
      have apart := List.lookup_eq_none_iff.mp stored call (List.mem_reverse.mpr inside)
      rw [bne_self_eq_false] at apart
      cases apart
    | some value =>
      obtain ⟨_, _, there⟩ := findIdx?_of_lookup stored
      have last := valued _ (List.mem_reverse.mp (List.mem_of_getElem? there))
      rw [← lookup_upsertAll] at stored
      refine getPairStr_located (fun pair kept => ?_) own (Nat.le_of_add_right_le last.1) stored
        last.2 defVal
      obtain ⟨set, member, name⟩ := List.mem_map.mp
        (((keys_upsertAll done).2 pair.1).mp (List.mem_map_of_mem kept))
      rw [← name]
      exact (keeps set member).located
  · rw [getCount, rows, List.length_map, length_upsertAll]

end Located

/-! ### What a store has to keep -/

/-- What is put where the search ended is found there. -/
theorem findIdx?_set {Row : Type} {rows : List Row} {test : Row → Bool} {index : Nat} {row : Row}
    (found : rows.findIdx? test = some index) (holds : test row = true) :
    (rows.set index row).findIdx? test = some index := by
  obtain ⟨inside, there, before⟩ := List.findIdx?_eq_some_iff_getElem.mp found
  refine List.findIdx?_eq_some_iff_getElem.mpr ⟨by rwa [List.length_set], ?_, ?_⟩
  · rwa [List.getElem_set_self]
  · intro earlier less
    rw [List.getElem_set_ne less.ne']
    exact before earlier less

/-- A call that succeeds leaves its row as the first one that answers to its name. -/
theorem setPairStr_eq_ok {nt next : Nvp} {name value : Str}
    (stored : nt.setPairStr name value = some (.ok next)) :
    next.seperator = nt.seperator ∧ next.equalMark = nt.equalMark ∧
      (nt.entry name value).length < maxDataLen ∧
      ∃ index, next.getPairIndex name = some index ∧
        next.nvp[index]? = some (nt.entry name value) := by
  have own : decide (nt.Names name (nt.entry name value)) = true :=
    decide_eq_true (nt.names_entry name value)
  rw [setPairStr] at stored
  split at stored
  · cases stored
  · rename_i short
    have nameShort : ¬maxDataLen < name.length := fun long => short (by omega)
    split at stored
    · rename_i absent
      split at stored
      · rename_i room
        cases stored
        rw [getPairIndex, if_neg nameShort] at absent
        refine ⟨rfl, rfl, room.2, nt.nvp.length, ?_, List.getElem?_concat_length⟩
        have behind := @List.findIdx?_append _ nt.nvp [nt.entry name value]
          fun row => decide (nt.Names name row)
        rw [absent, Option.none_or, List.findIdx?_cons, own, if_pos rfl, Option.map_some,
          Nat.zero_add] at behind
        rw [getPairIndex, if_neg nameShort]
        exact behind
      · cases stored
    · rename_i index found
      split at stored
      · rename_i fits
        cases stored
        rw [getPairIndex, if_neg nameShort] at found
        obtain ⟨inside, _, _⟩ := List.findIdx?_eq_some_iff_getElem.mp found
        refine ⟨rfl, rfl, fits, index, ?_, List.getElem?_set_self inside⟩
        rw [getPairIndex, if_neg nameShort]
        exact findIdx?_set found own
      · cases stored

/-- The last of several calls finds what the calls before it left. -/
theorem setAll_concat {nt final : Nvp} {calls : List (Str × Str)} {call : Str × Str}
    (set : nt.setAll (calls ++ [call]) = some (.ok final)) :
    ∃ before, nt.setAll calls = some (.ok before) ∧
      before.setPairStr call.1 call.2 = some (.ok final) := by
  induction calls generalizing nt with
  | nil =>
    refine ⟨nt, rfl, ?_⟩
    rw [List.nil_append, setAll] at set
    split at set
    · rename_i stored
      rw [stored, ← set]
      rfl
    · exact set
  | cons first calls inductionHypothesis =>
    rw [List.cons_append, setAll] at set
    rw [setAll]
    split at set
    · exact inductionHypothesis set
    · rename_i failed
      exact absurd set (failed final)

/-- A call after others that succeed. -/
theorem setAll_snoc {nt before : Nvp} {calls : List (Str × Str)} {call : Str × Str}
    (set : nt.setAll calls = some (.ok before)) :
    nt.setAll (calls ++ [call]) = before.setPairStr call.1 call.2 := by
  induction calls generalizing nt with
  | nil =>
    cases set
    rw [List.nil_append, setAll]
    split
    · rename_i stored
      rw [stored, setAll]
    · rfl
  | cons first calls inductionHypothesis =>
    rw [setAll] at set
    rw [List.cons_append, setAll]
    split at set
    · exact inductionHypothesis set
    · rename_i failed
      exact absurd set (failed before)

theorem setAll_marks {nt after : Nvp} {calls : List (Str × Str)}
    (set : nt.setAll calls = some (.ok after)) :
    after.seperator = nt.seperator ∧ after.equalMark = nt.equalMark := by
  induction calls generalizing nt with
  | nil =>
    cases set
    exact ⟨rfl, rfl⟩
  | cons call calls inductionHypothesis =>
    rw [setAll] at set
    split at set
    · rename_i next stored
      obtain ⟨seperator, mark, _⟩ := setPairStr_eq_ok stored
      obtain ⟨lastSeperator, lastMark⟩ := inductionHypothesis set
      exact ⟨lastSeperator.trans seperator, lastMark.trans mark⟩
    · rename_i failed
      exact absurd set (failed after)

/-- A value that is returned for its name stands behind the first equal mark of its row. -/
theorem strstr_of_getPairStr {nt : Nvp} {name row value : Str} {index : Nat}
    (found : nt.getPairIndex name = some index) (there : nt.nvp[index]? = some row)
    (gets : nt.getPairStr name none = some value) :
    strstr nt.equalMark row = some (nt.equalMark ++ value) := by
  rw [getPairStr] at gets
  split at gets
  · cases gets
  · rw [found] at gets
    dsimp only at gets
    rw [List.getD_eq_getElem?_getD, there, Option.getD_some] at gets
    split at gets
    · cases gets
    · rename_i rest search
      split at gets
      · cases gets
      · obtain ⟨behind, split⟩ := (strstr_found search).2
        rw [← split, List.drop_left, Option.some.injEq] at gets
        rw [search, ← split, gets]

/-- A map keeps what it is given in each call. -/
theorem StoresMap.keeps {seperator mark : Str} {calls : List (Str × Str)}
    (stores : StoresMap seperator mark calls) {call : Str × Str} (member : call ∈ calls) :
    Keeps seperator mark call := by
  obtain ⟨earlier, later, rfl⟩ := List.append_of_mem member
  have front : earlier ++ [call] <+: earlier ++ call :: later :=
    ⟨later, by rw [List.append_assoc, List.singleton_append]⟩
  obtain ⟨blank, after, made, set, maps⟩ := stores (earlier ++ [call]) front
    (List.append_ne_nil_of_right_ne_nil _ (List.cons_ne_nil _ _))
  obtain ⟨seperatorShort, markShort, rfl⟩ := marked_eq_ok made
  obtain ⟨before, first, last⟩ := setAll_concat set
  obtain ⟨sameSeperator, sameMark⟩ := setAll_marks first
  obtain ⟨_, finalMark, fits, index, found, there⟩ := setPairStr_eq_ok last
  have row : before.entry call.1 call.2 = rowOf seperator mark call := by
    rw [entry, sameSeperator, sameMark, rowOf]
  have gets := maps.gets call (List.mem_append_right _ (List.mem_singleton_self _)) none
  rw [List.reverse_append, List.reverse_singleton, List.singleton_append, List.lookup_cons,
    beq_self_eq_true] at gets
  have located := strstr_of_getPairStr found there gets
  rw [finalMark, sameMark, row] at located
  exact ⟨seperatorShort, markShort, row ▸ fits, (located_iff call).mpr located⟩

/-- For all accepted marks and all calls that succeed: the pairs are a map after each of them if
and only if every row fits into its place and every name is found again in its own. -/
theorem stores_map_iff {seperator mark : Str} {calls : List (Str × Str)}
    (accepted : Accepted seperator mark calls) :
    StoresMap seperator mark calls ↔ ∀ call ∈ calls, Keeps seperator mark call :=
  ⟨fun stores _ member => stores.keeps member, storesMap_of_keeps accepted⟩

theorem stores_map_twice :
    Accepted [94, 94] [61, 61] [([97], [49]), ([97, 98], [50]), ([97], [51])] ∧
      StoresMap [94, 94] [61, 61] [([97], [49]), ([97, 98], [50]), ([97], [51])] := by
  have accepted : Accepted [94, 94] [61, 61] [([97], [49]), ([97, 98], [50]), ([97], [51])] := by
    refine ⟨by decide, by decide, fun blank made => ?_⟩
    obtain ⟨_, _, rfl⟩ := marked_eq_ok made
    refine ⟨by decide, by decide, by decide, fun first stored => ?_⟩
    cases stored
    refine ⟨by decide, by decide, by decide, fun second stored => ?_⟩
    cases stored
    exact ⟨by decide, by decide, by decide, fun _ _ => trivial⟩
  refine ⟨accepted, (stores_map_iff accepted).mpr ?_⟩
  simp only [List.forall_mem_cons]
  exact ⟨⟨by decide, by decide, by decide, by decide⟩, ⟨by decide, by decide, by decide, by decide⟩,
    ⟨by decide, by decide, by decide, by decide⟩, fun _ none => nomatch none⟩

/-- With the marks of the library: the name `a==b` is set to `1`, and gives `b==1`. -/
theorem mark_in_name_cuts_value : Accepted [94, 94] [61, 61] [([97, 61, 61, 98], [49])] ∧
    (∃ blank after, marked [94, 94] [61, 61] = some (.ok blank) ∧
      blank.setPairStr [97, 61, 61, 98] [49] = some (.ok after) ∧
      after.getPairStr [97, 61, 61, 98] none = some [98, 61, 61, 49]) ∧
    ¬StoresMap [94, 94] [61, 61] [([97, 61, 61, 98], [49])] := by
  refine ⟨⟨by decide, by decide, fun blank made => ?_⟩,
    ⟨⟨[94, 94], [61, 61], []⟩, ⟨[94, 94], [61, 61], [[94, 94, 97, 61, 61, 98, 61, 61, 49]]⟩,
      by decide, by decide, by decide⟩, fun stores => ?_⟩
  · obtain ⟨_, _, rfl⟩ := marked_eq_ok made
    exact ⟨by decide, by decide, by decide, fun _ _ => trivial⟩
  · exact absurd (stores.keeps (List.mem_singleton_self _)).located (by decide)

end Nvp

end ExmOnvif.NvPair
