/-
This file models the library of name/value pairs in which the processes of the camera
send their commands, and proves when a message comes back as it was put together.

A structure keeps each pair as a row of the form separator, name, equal mark, value.
A message is the rows one behind the other without the first separator; the parser
puts that separator back and cuts the message at the separators. The rows that are
not in use are blank, so that only those in use are kept here. A write past the end
of a row or of the message buffer has no result.
-/

import ExmOnvif.Library.Bytes
import ExmOnvif.Library.Text

namespace ExmOnvif.NvPair

open Library

/-! ### The library -/

/-- `MAX_MARK_LEN` and `MAX_SEP_LEN`. -/
def maxMarkLen : Nat := 20

/-- `MAX_CMD_NUM`. -/
def maxCmdNum : Nat := 50

/-- `MAX_DATA_LEN`. -/
def maxDataLen : Nat := 100

/-- The error codes, negated. -/
inductive NvpErr where
  | noMem
  | paraErr
deriving DecidableEq, Repr

/-- `NVP_T`, with the rows in use. -/
structure Nvp where
  seperator : Str
  equalMark : Str
  nvp : List Str
deriving DecidableEq, Repr

namespace Nvp

/-- `nvp_create`. The marks are `^^` and `==`. -/
def create : Nvp := ⟨[94, 94], [61, 61], []⟩

/-- `nvp_set_seperator`. With 20 characters there is no room for the terminator. -/
def setSeperator (nt : Nvp) (seperator : Str) : Option (Except NvpErr Nvp) :=
  if maxMarkLen < seperator.length then some (.error .paraErr)
  else if seperator.length = maxMarkLen then none
  else some (.ok { nt with seperator := seperator })

/-- `nvp_set_equal_mark`. -/
def setEqualMark (nt : Nvp) (mark : Str) : Option (Except NvpErr Nvp) :=
  if maxMarkLen < mark.length then some (.error .paraErr)
  else if mark.length = maxMarkLen then none
  else some (.ok { nt with equalMark := mark })

/-- The three comparisons of `nvp_get_pair_index`. -/
def Names (nt : Nvp) (name row : Str) : Prop :=
  nt.seperator <+: row ∧ name <+: row.drop nt.seperator.length ∧
    nt.equalMark <+: row.drop (nt.seperator.length + name.length)

instance (nt : Nvp) (name row : Str) : Decidable (nt.Names name row) :=
  inferInstanceAs (Decidable (_ ∧ _ ∧ _))

/-- `nvp_get_pair_index`. -/
def getPairIndex (nt : Nvp) (name : Str) : Option Nat :=
  if maxDataLen < name.length then none
  else nt.nvp.findIdx? fun row => decide (nt.Names name row)

/-- The row of a pair. -/
def entry (nt : Nvp) (name value : Str) : Str :=
  nt.seperator ++ (name ++ (nt.equalMark ++ value))

/-- `nvp_set_pair_str`. -/
def setPairStr (nt : Nvp) (name value : Str) : Option (Except NvpErr Nvp) :=
  if maxDataLen < name.length + value.length then some (.error .paraErr)
  else
    match nt.getPairIndex name with
    | none =>
      if nt.nvp.length < maxCmdNum ∧ (nt.entry name value).length < maxDataLen then
        some (.ok { nt with nvp := nt.nvp ++ [nt.entry name value] })
      else none
    | some index =>
      if (nt.entry name value).length < maxDataLen then
        some (.ok { nt with nvp := nt.nvp.set index (nt.entry name value) })
      else none

/-- `nvp_get_pair_str`. -/
def getPairStr (nt : Nvp) (name : Str) (defVal : Option Str) : Option Str :=
  if maxDataLen < name.length then none
  else
    match nt.getPairIndex name with
    | none => defVal
    | some index =>
      match strstr nt.equalMark (nt.nvp.getD index []) with
      | none => defVal
      | some found =>
        if found.drop nt.equalMark.length = [] then defVal
        else some (found.drop nt.equalMark.length)

/-- `nvp_get_string`. -/
def getString (nt : Nvp) : Option Str :=
  if nt.nvp.flatten.length < maxCmdNum * maxDataLen then
    some (nt.nvp.flatten.drop nt.seperator.length)
  else none

/-- The loop of `nvp_parse_string`. -/
def parseLoop (seperator : Str) : Nat → Str → List Str → Option (Except NvpErr Nat × List Str)
  | 0, _, rows => some (.ok rows.length, rows)
  | turns + 1, index, rows =>
    match strstr seperator index with
    | none => some (if rows = [] then .error .paraErr else .ok rows.length, rows)
    | some p =>
      match strstr seperator (p.drop seperator.length) with
      | some s =>
        -- Two separators with nothing between them make no row.
        if seperator.length < p.length - s.length then
          if p.length - s.length < maxDataLen then
            parseLoop seperator turns (p.drop seperator.length)
              (rows ++ [p.take (p.length - s.length)])
          else none
        else parseLoop seperator turns (p.drop seperator.length) rows
      | none =>
        if p.length < maxDataLen then
          parseLoop seperator turns (p.drop seperator.length) (rows ++ [p])
        else none

/-- `nvp_parse_string`: what it returns, and the structure. -/
def parseString (nt : Nvp) (str : Str) : Option (Except NvpErr Nat × Nvp) :=
  if maxCmdNum * maxDataLen < str.length then some (.error .noMem, nt)
  else
    let msgBuf := if nt.seperator <+: str then str else nt.seperator ++ str
    if msgBuf.length < maxCmdNum * maxDataLen then
      (parseLoop nt.seperator maxCmdNum msgBuf []).map fun (result, rows) =>
        (result, { nt with nvp := rows })
    else none

/-! ### Messages -/

/-- A new structure with both marks set. -/
def marked (seperator mark : Str) : Option (Except NvpErr Nvp) :=
  match create.setEqualMark mark with
  | some (.ok nt) => nt.setSeperator seperator
  | other => other

/-- The pairs set one by one. -/
def setAll (nt : Nvp) : List (Str × Str) → Option (Except NvpErr Nvp)
  | [] => some (.ok nt)
  | pair :: pairs =>
    match nt.setPairStr pair.1 pair.2 with
    | some (.ok next) => setAll next pairs
    | other => other

/-- The pairs are put into a message and come out of it again, as many as they were and each name
with its value. -/
def RoundTrip (seperator mark : Str) (pairs : List (Str × Str)) : Prop :=
  ∃ blank first text second, marked seperator mark = some (.ok blank) ∧
    blank.setAll pairs = some (.ok first) ∧ first.getString = some text ∧
    blank.parseString text = some (.ok pairs.length, second) ∧
    ∀ pair ∈ pairs, ∀ defVal, second.getPairStr pair.1 defVal = some pair.2

/-- Marks of 1 to 19 characters with none in common, and pairs that can be told apart by them. -/
structure Sendable (seperator mark : Str) (pairs : List (Str × Str)) : Prop where
  seperatorSome : seperator ≠ []
  markSome : mark ≠ []
  seperatorShort : seperator.length < maxMarkLen
  markShort : mark.length < maxMarkLen
  apart : ∀ char ∈ mark, char ∉ seperator
  few : pairs.length ≤ maxCmdNum
  distinct : (pairs.map Prod.fst).Nodup
  nameSome : ∀ pair ∈ pairs, pair.1 ≠ []
  valueSome : ∀ pair ∈ pairs, pair.2 ≠ []
  nameClear : ∀ pair ∈ pairs, ∀ char ∈ pair.1, char ∉ seperator ∧ char ∉ mark
  valueClear : ∀ pair ∈ pairs, ∀ char ∈ pair.2, char ∉ seperator ∧ char ∉ mark
  short : ∀ pair ∈ pairs,
    (seperator ++ (pair.1 ++ (mark ++ pair.2))).length < maxDataLen

/-! ### Rows -/

section Rows

variable {seperator mark : Str} {pairs : List (Str × Str)}

/-- The row of a pair between two marks. -/
def rowOf (seperator mark : Str) (pair : Str × Str) : Str :=
  seperator ++ (pair.1 ++ (mark ++ pair.2))

/-- The rows of some pairs. -/
def rows (seperator mark : Str) (pairs : List (Str × Str)) : List Str :=
  pairs.map (rowOf seperator mark)

theorem rows_cons (pair : Str × Str) (pairs : List (Str × Str)) :
    rows seperator mark (pair :: pairs) = rowOf seperator mark pair :: rows seperator mark pairs :=
  rfl

theorem Sendable.of_append {front : List (Str × Str)} {pair : Str × Str}
    (sendable : Sendable seperator mark (front ++ pair :: pairs)) :
    pair ∈ front ++ pair :: pairs ∧ pair.1 ∉ front.map Prod.fst := by
  refine ⟨List.mem_append_right _ List.mem_cons_self, fun member => ?_⟩
  have distinct := sendable.distinct
  rw [List.map_append, List.map_cons] at distinct
  exact (List.nodup_append.mp distinct).2.2 _ member _ List.mem_cons_self rfl

theorem Sendable.sublist {fewer : List (Str × Str)} (sendable : Sendable seperator mark pairs)
    (part : fewer.Sublist pairs) : Sendable seperator mark fewer where
  seperatorSome := sendable.seperatorSome
  markSome := sendable.markSome
  seperatorShort := sendable.seperatorShort
  markShort := sendable.markShort
  apart := sendable.apart
  few := part.length_le.trans sendable.few
  distinct := sendable.distinct.sublist (part.map _)
  nameSome := fun pair member => sendable.nameSome pair (part.subset member)
  valueSome := fun pair member => sendable.valueSome pair (part.subset member)
  nameClear := fun pair member => sendable.nameClear pair (part.subset member)
  valueClear := fun pair member => sendable.valueClear pair (part.subset member)
  short := fun pair member => sendable.short pair (part.subset member)

/-- A row answers to its own name and to no other. -/
theorem names_rowOf {nt : Nvp} {name : Str} {pair : Str × Str} (markSome : nt.equalMark ≠ [])
    (clear : ∀ char ∈ name, char ∉ nt.equalMark)
    (pairClear : ∀ char ∈ pair.1, char ∉ nt.equalMark) :
    nt.Names name (rowOf nt.seperator nt.equalMark pair) ↔ name = pair.1 := by
  have front : (rowOf nt.seperator nt.equalMark pair).drop nt.seperator.length =
      pair.1 ++ (nt.equalMark ++ pair.2) := List.drop_left
  constructor
  · rintro ⟨_, named, marked⟩
    rw [front] at named
    obtain ⟨rest, split⟩ := named
    rw [← List.drop_drop, front, ← split, List.drop_left] at marked
    obtain ⟨left, rfl⟩ := marked
    exact eq_of_marked markSome clear pairClear split
  · rintro rfl
    refine ⟨List.prefix_append _ _, ?_, ?_⟩
    · rw [front]
      exact List.prefix_append _ _
    · rw [← List.drop_drop, front, List.drop_left]
      exact List.prefix_append _ _

/-- No row answers to a name that is not there. -/
theorem getPairIndex_none {name : Str} (sendable : Sendable seperator mark pairs)
    (clear : ∀ char ∈ name, char ∉ mark) (absent : name ∉ pairs.map Prod.fst) :
    getPairIndex ⟨seperator, mark, rows seperator mark pairs⟩ name = none := by
  unfold getPairIndex
  split
  · rfl
  · rw [List.findIdx?_eq_none_iff]
    intro row member
    obtain ⟨pair, inside, rfl⟩ := List.mem_map.mp member
    refine decide_eq_false fun named => absent ?_
    have same := (@names_rowOf ⟨seperator, mark, rows seperator mark pairs⟩ name pair
      sendable.markSome clear fun char at_ => (sendable.nameClear pair inside char at_).2).mp named
    exact List.mem_map.mpr ⟨pair, inside, same.symm⟩

/-- The row that answers to a name. -/
theorem findIdx_rows {nt : Nvp} (sendable : Sendable nt.seperator nt.equalMark pairs)
    {pair : Str × Str} (member : pair ∈ pairs) :
    ∃ index, (rows nt.seperator nt.equalMark pairs).findIdx?
        (fun row => decide (nt.Names pair.1 row)) = some index ∧
      (rows nt.seperator nt.equalMark pairs).getD index [] =
        rowOf nt.seperator nt.equalMark pair := by
  have clear : ∀ other ∈ pairs, ∀ char ∈ other.1, char ∉ nt.equalMark :=
    fun other inside char at_ => (sendable.nameClear other inside char at_).2
  induction pairs with
  | nil => cases member
  | cons first pairs inductionHypothesis =>
    have names := @names_rowOf nt pair.1 first sendable.markSome (clear pair member)
      (clear first List.mem_cons_self)
    rw [rows_cons, List.findIdx?_cons]
    by_cases same : pair.1 = first.1
    · rw [if_pos (decide_eq_true (names.mpr same))]
      refine ⟨0, rfl, ?_⟩
      rcases List.mem_cons.mp member with rfl | later
      · rfl
      · have absent := (List.nodup_cons.mp sendable.distinct).1
        exact absurd (same ▸ List.mem_map_of_mem later) absent
    · rw [if_neg (by rw [decide_eq_true_eq]; exact fun named => same (names.mp named))]
      have later : pair ∈ pairs := by
        rcases List.mem_cons.mp member with rfl | later
        · exact absurd rfl same
        · exact later
      obtain ⟨index, found, row⟩ := inductionHypothesis
        (sendable.sublist (List.sublist_cons_self _ _)) later
        fun other inside => clear other (List.mem_cons_of_mem _ inside)
      exact ⟨index + 1, by rw [found]; rfl, row⟩

/-- A row gives its value back. -/
theorem getPairStr_rows (sendable : Sendable seperator mark pairs) {pair : Str × Str}
    (member : pair ∈ pairs) (defVal : Option Str) :
    getPairStr ⟨seperator, mark, rows seperator mark pairs⟩ pair.1 defVal = some pair.2 := by
  have short : ¬maxDataLen < pair.1.length := by
    have bound := sendable.short pair member
    simp only [List.length_append] at bound
    omega
  obtain ⟨index, found, row⟩ :=
    @findIdx_rows pairs ⟨seperator, mark, rows seperator mark pairs⟩ sendable pair member
  have skipped : strstr mark (rowOf seperator mark pair) = some (mark ++ pair.2) := by
    unfold rowOf
    rw [strstr_skip sendable.markSome, strstr_skip sendable.markSome,
      strstr_here (List.prefix_append _ _)]
    · exact fun char at_ => (sendable.nameClear pair member char at_).2
    · exact fun char at_ inMark => sendable.apart char inMark at_
  unfold getPairStr getPairIndex
  rw [if_neg short, if_neg short, found]
  simp only
  rw [row, skipped]
  simp only [List.drop_left]
  rw [if_neg (sendable.valueSome pair member)]

/-! ### Putting a message together -/

theorem setAll_rows {front : List (Str × Str)}
    (sendable : Sendable seperator mark (front ++ pairs)) :
    setAll ⟨seperator, mark, rows seperator mark front⟩ pairs =
      some (.ok ⟨seperator, mark, rows seperator mark (front ++ pairs)⟩) := by
  induction pairs generalizing front with
  | nil => rw [List.append_nil, setAll]
  | cons pair pairs inductionHypothesis =>
    obtain ⟨member, absent⟩ := sendable.of_append
    have bound := sendable.short pair member
    have few := sendable.few
    have shifted : front ++ pair :: pairs = front ++ [pair] ++ pairs := by
      rw [List.append_assoc, List.singleton_append]
    have earlier := sendable.sublist (List.sublist_append_left front (pair :: pairs))
    have stored : setPairStr ⟨seperator, mark, rows seperator mark front⟩ pair.1 pair.2 =
        some (.ok ⟨seperator, mark, rows seperator mark (front ++ [pair])⟩) := by
      have lengths : ¬maxDataLen < pair.1.length + pair.2.length := by
        simp only [List.length_append] at bound
        omega
      have room : (rows seperator mark front).length < maxCmdNum := by
        rw [List.length_append, List.length_cons] at few
        rw [rows, List.length_map]
        omega
      unfold setPairStr
      rw [if_neg lengths, getPairIndex_none earlier
        (fun char at_ => (sendable.nameClear pair member char at_).2) absent]
      simp only
      rw [if_pos ⟨room, bound⟩, rows, rows, List.map_append]
      rfl
    rw [setAll, stored, shifted]
    simp only
    rw [shifted] at sendable
    exact inductionHypothesis sendable

/-! ### Taking it apart -/

/-- Nothing between two separators is cut. -/
theorem Sendable.bodyClear (sendable : Sendable seperator mark pairs) {pair : Str × Str}
    (member : pair ∈ pairs) : ∀ char ∈ pair.1 ++ (mark ++ pair.2), char ∉ seperator := by
  intro char at_
  rcases List.mem_append.mp at_ with inName | rest
  · exact (sendable.nameClear pair member char inName).1
  · rcases List.mem_append.mp rest with inMark | inValue
    · exact sendable.apart char inMark
    · exact (sendable.valueClear pair member char inValue).1

/-- One turn of the loop takes the next row, and goes on in it behind its separator. -/
theorem parseLoop_row {turns : Nat} {body rest : Str} {done : List Str}
    (sendable : Sendable seperator mark pairs) {pair : Str × Str} (member : pair ∈ pairs)
    (clear : ∀ char ∈ body, char ∉ seperator) (next : rest = [] ∨ seperator <+: rest) :
    parseLoop seperator (turns + 1) (body ++ (rowOf seperator mark pair ++ rest)) done =
      parseLoop seperator turns (pair.1 ++ (mark ++ pair.2) ++ rest)
        (done ++ [rowOf seperator mark pair]) := by
  have bodyClear := sendable.bodyClear member
  have bound : (rowOf seperator mark pair).length < maxDataLen := sendable.short pair member
  have long : seperator.length < (rowOf seperator mark pair).length := by
    have nonempty := List.length_pos_iff.mpr (sendable.nameSome pair member)
    simp only [rowOf, List.length_append]
    omega
  have front : seperator <+: rowOf seperator mark pair ++ rest :=
    (List.prefix_append _ _).trans (List.prefix_append _ _)
  have behind : (rowOf seperator mark pair ++ rest).drop seperator.length =
      pair.1 ++ (mark ++ pair.2) ++ rest := by
    rw [rowOf, List.append_assoc, List.drop_left]
  rw [parseLoop, strstr_skip sendable.seperatorSome clear, strstr_here front]
  simp only
  rw [behind, strstr_skip sendable.seperatorSome bodyClear]
  rcases next with rfl | nextFront
  · rw [strstr_nil sendable.seperatorSome]
    simp only [List.append_nil]
    rw [if_pos bound]
  · have offset : (rowOf seperator mark pair ++ rest).length - rest.length =
        (rowOf seperator mark pair).length := by
      rw [List.length_append, Nat.add_sub_cancel]
    rw [strstr_here nextFront]
    simp only
    rw [offset, if_pos long, if_pos bound, List.take_left]

/-- The loop cuts the message between its rows. -/
theorem parseLoop_rows {turns : Nat} {body : Str} {done : List Str}
    (sendable : Sendable seperator mark pairs) (clear : ∀ char ∈ body, char ∉ seperator)
    (enough : pairs.length ≤ turns) (pending : done ≠ [] ∨ pairs ≠ []) :
    parseLoop seperator turns (body ++ (rows seperator mark pairs).flatten) done =
      some (.ok (done.length + pairs.length), done ++ rows seperator mark pairs) := by
  induction pairs generalizing turns body done with
  | nil =>
    have rest : (rows seperator mark []).flatten = [] := rfl
    have none : done ++ rows seperator mark [] = done := List.append_nil done
    rw [rest, List.append_nil, none]
    cases turns with
    | zero => rfl
    | succ turns =>
      rw [parseLoop, strstr_none sendable.seperatorSome clear]
      simp only
      rw [if_neg (pending.resolve_right fun missing => missing rfl)]
      rfl
  | cons pair pairs inductionHypothesis =>
    cases turns with
    | zero => cases enough
    | succ turns =>
      have rest := @inductionHypothesis turns _ (done ++ [rowOf seperator mark pair])
        (sendable.sublist (List.sublist_cons_self pair pairs))
        (sendable.bodyClear List.mem_cons_self) (Nat.le_of_succ_le_succ enough)
        (Or.inl (List.append_ne_nil_of_right_ne_nil done
          (List.cons_ne_nil (rowOf seperator mark pair) [])))
      have result : done ++ [rowOf seperator mark pair] ++ rows seperator mark pairs =
          done ++ rows seperator mark (pair :: pairs) := by
        rw [List.append_assoc, List.singleton_append, rows_cons]
      have count : (done ++ [rowOf seperator mark pair]).length + pairs.length =
          done.length + (pair :: pairs).length := by
        rw [List.length_append, List.length_singleton, List.length_cons, Nat.add_assoc,
          Nat.add_comm 1]
      have next : (rows seperator mark pairs).flatten = [] ∨
          seperator <+: (rows seperator mark pairs).flatten := by
        cases pairs with
        | nil => exact Or.inl rfl
        | cons other pairs =>
          exact Or.inr ((List.prefix_append _ _).trans (List.prefix_append _ _))
      rw [result, count] at rest
      rw [rows_cons, List.flatten_cons, parseLoop_row sendable List.mem_cons_self clear next]
      exact rest

/-- The message fits into its buffer. -/
theorem flatten_rows_fits (sendable : Sendable seperator mark pairs) :
    (rows seperator mark pairs).flatten.length < maxCmdNum * maxDataLen := by
  have length : (rows seperator mark pairs).flatten.length ≤ pairs.length * (maxDataLen - 1) := by
    have short := sendable.short
    clear sendable
    induction pairs with
    | nil => exact Nat.zero_le _
    | cons pair pairs inductionHypothesis =>
      have rest := inductionHypothesis fun other later => short other (List.mem_cons_of_mem _ later)
      have bound : (rowOf seperator mark pair).length < maxDataLen := short pair List.mem_cons_self
      rw [rows_cons, List.flatten_cons, List.length_append, List.length_cons, Nat.succ_mul,
        Nat.add_comm]
      exact Nat.add_le_add rest (Nat.le_sub_one_of_lt bound)
  calc (rows seperator mark pairs).flatten.length
      ≤ pairs.length * (maxDataLen - 1) := length
    _ ≤ maxCmdNum * (maxDataLen - 1) := Nat.mul_le_mul_right _ sendable.few
    _ < maxCmdNum * maxDataLen := by decide

/-- What the reader gets of a message with a pair in it. -/
theorem parseString_rows (sendable : Sendable seperator mark pairs) (nonempty : pairs ≠ []) :
    parseString ⟨seperator, mark, []⟩
        ((rows seperator mark pairs).flatten.drop seperator.length) =
      some (.ok pairs.length, ⟨seperator, mark, rows seperator mark pairs⟩) := by
  have fits := flatten_rows_fits sendable
  obtain ⟨pair, others, rfl⟩ := List.exists_cons_of_ne_nil nonempty
  have split : (rows seperator mark (pair :: others)).flatten = seperator ++
      (pair.1 ++ (mark ++ pair.2) ++ (rows seperator mark others).flatten) := by
    rw [rows_cons, List.flatten_cons, rowOf, List.append_assoc]
  -- The first character belongs to a name, so the separator is put back.
  have cut : ¬seperator <+: pair.1 ++ (mark ++ pair.2) ++ (rows seperator mark others).flatten := by
    obtain ⟨char, name, named⟩ :=
      List.exists_cons_of_ne_nil (sendable.nameSome pair List.mem_cons_self)
    rw [named]
    refine not_prefix_of_notMem sendable.seperatorSome ?_
    have clear := sendable.nameClear pair List.mem_cons_self char
    rw [named] at clear
    exact (clear List.mem_cons_self).1
  have loop := @parseLoop_rows seperator mark (pair :: others) maxCmdNum [] [] sendable
    (fun _ member => nomatch member) sendable.few (Or.inr nonempty)
  rw [List.nil_append, List.nil_append, List.length_nil, Nat.zero_add] at loop
  unfold parseString
  rw [split, List.drop_left, if_neg]
  · simp only
    rw [if_neg cut, ← split, if_pos fits, loop]
    rfl
  · rw [split, List.length_append] at fits
    omega

/-! ### The round trip -/

theorem marked_eq (sendable : Sendable seperator mark pairs) :
    marked seperator mark = some (.ok ⟨seperator, mark, []⟩) := by
  have seperatorShort := sendable.seperatorShort
  have markShort := sendable.markShort
  unfold marked setEqualMark
  rw [if_neg (Nat.not_lt.mpr markShort.le), if_neg markShort.ne]
  simp only
  unfold setSeperator
  rw [if_neg (Nat.not_lt.mpr seperatorShort.le), if_neg seperatorShort.ne]
  rfl

theorem getString_rows (sendable : Sendable seperator mark pairs) :
    getString ⟨seperator, mark, rows seperator mark pairs⟩ =
      some ((rows seperator mark pairs).flatten.drop seperator.length) := by
  unfold getString
  rw [if_pos (flatten_rows_fits sendable)]

/-- The reader takes an empty message for one pair. -/
theorem parseString_empty (sendable : Sendable seperator mark []) :
    parseString ⟨seperator, mark, []⟩ [] = some (.ok 1, ⟨seperator, mark, [seperator]⟩) := by
  have short := sendable.seperatorShort
  have fits : seperator.length < maxDataLen := short.trans (by decide)
  have loop : parseLoop seperator maxCmdNum seperator [] = some (.ok 1, [seperator]) := by
    have front : strstr seperator seperator = some seperator :=
      strstr_here (List.prefix_refl seperator)
    have nothing := strstr_nil sendable.seperatorSome
    rw [maxCmdNum, parseLoop, front]
    simp only [List.drop_length]
    rw [nothing]
    simp only
    rw [if_pos fits, parseLoop, nothing]
    rfl
  unfold parseString
  rw [if_neg (by decide)]
  simp only
  rw [if_neg (fun front => sendable.seperatorSome (List.prefix_nil.mp front)), List.append_nil,
    if_pos (fits.trans (by decide)), loop]
  rfl

/-- A message comes back as it was put together, unless there is nothing in it. -/
theorem round_trip_iff (sendable : Sendable seperator mark pairs) :
    RoundTrip seperator mark pairs ↔ pairs ≠ [] := by
  have stored := @setAll_rows seperator mark pairs [] sendable
  rw [List.nil_append] at stored
  constructor
  · rintro ⟨blank, first, text, second, marks, set, string, parsed, _⟩ rfl
    rw [marked_eq sendable] at marks
    cases marks
    cases set
    cases string
    have empty := parseString_empty sendable
    rw [List.drop_eq_nil_of_le (Nat.zero_le _)] at parsed
    rw [parsed] at empty
    cases empty
  · intro nonempty
    exact ⟨_, _, _, _, marked_eq sendable, stored, getString_rows sendable,
      parseString_rows sendable nonempty,
      fun pair member defVal => getPairStr_rows sendable member defVal⟩

theorem round_trip_iff_one_pair :
    Sendable [94, 94] [61, 61] [([99, 109, 100], [97, 100, 100])] ∧
      RoundTrip [94, 94] [61, 61] [([99, 109, 100], [97, 100, 100])] := by
  have sendable : Sendable [94, 94] [61, 61] [([99, 109, 100], [97, 100, 100])] := by
    constructor <;> simp [maxMarkLen, maxCmdNum, maxDataLen]
  exact ⟨sendable, (round_trip_iff sendable).mpr (List.cons_ne_nil _ _)⟩

/-- With no pair at all the reader counts one. -/
theorem no_pair_counted : Sendable [94, 94] [61, 61] [] ∧ ¬RoundTrip [94, 94] [61, 61] [] := by
  have sendable : Sendable [94, 94] [61, 61] [] := by
    constructor <;> simp [maxMarkLen, maxCmdNum, maxDataLen]
  refine ⟨sendable, ?_⟩
  rintro ⟨blank, first, text, second, marks, set, string, parsed, _⟩
  rw [marked_eq sendable] at marks
  cases marks
  cases set
  cases string
  have counted := (parseString_empty sendable).symm.trans parsed
  cases counted

end Rows

end Nvp

end ExmOnvif.NvPair
